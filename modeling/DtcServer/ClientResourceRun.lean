import DtcServer.ClientResourceSpec
import DtcServer.Places
import DtcServer.Lives
/-!
# ClientResourceRun — every slot of the client pool has one holder

The holder of a slot is a function of the slot (`Holds`), and an event changes it at one slot (`Holds.move`), or makes new
slots free when the pool grows.
-/
namespace Dtc

/-- The life of a slot: free, held with a clean or a used task, or held while its task is being processed. -/
inductive SlotLife where
  | free | clean | dirty | processing
  deriving DecidableEq, Repr

/-- **The life of a slot goes this way only**: a slot is freed when it is clean, and neither cleaned nor freed while its
task is being processed. -/
def SlotLife.next : SlotLife → SlotAct → Option SlotLife
  | .free, .alloc => some .clean
  | .clean, .fill => some .dirty
  | .dirty, .fill => some .dirty
  | .clean, .clean => some .clean
  | .dirty, .clean => some .clean
  | .dirty, .dispatch => some .processing
  | .processing, .reply => some .dirty
  | .clean, .free => some .free
  | _, _ => none

def life (h : List (Nat × SlotAct)) (i : Nat) : Option SlotLife := Lives.life SlotLife.next .free h i

theorem life_self (h : List (Nat × SlotAct)) (i : Nat) (a : SlotAct) :
    life ((i, a) :: h) i = (life h i).bind (fun l => l.next a) := Lives.life_self ..

theorem life_ne (h : List (Nat × SlotAct)) {i j : Nat} (hij : i ≠ j) (a : SlotAct) : life ((j, a) :: h) i = life h i :=
  Lives.life_ne _ _ h hij a

/-- Where a slot is: not in the array, on the free list, with a connection, or with the task of a slot. -/
inductive Holder where
  | absent
  | free
  | client (c : Nat)
  | task (j : Nat)
  deriving DecidableEq, Repr

namespace ClientUnit

variable {s s' : ClientUnit} {fs fs' : List Nat} {hold : Nat → Holder} {c i i₀ : Nat} {x : Holder}

/-- The tasks that are being processed and whose connection is gone. -/
def orphans (s : ClientUnit) : List Nat := s.inflight.filter (fun i => (s.pool.taskslot i).task.ownerInfo.isNone)

/-- **The slot `i` is in a place.**  A task holds the slot that it names, with its sequence number. -/
def At (s : ClientUnit) (i : Nat) : Holder → Prop
  | .absent => i = 0 ∨ s.pool.total ≤ i
  | .free => i ∈ s.pool.freeList
  | .client c => c ∈ s.live ∧ (s.client c).resourceId = i
  | .task j => j ∈ s.orphans ∧ (s.pool.taskslot j).task.resourceId = i ∧
      (s.pool.taskslot j).task.resourceSeq = (s.pool.taskslot i).seq

def Fits (s : ClientUnit) (i : Nat) : Holder → Prop
  | .absent => i ∉ s.inflight ∧ life s.history i = some .free
  | .free => i ∉ s.inflight ∧ life s.history i = some .free
  | .client c => (s.client c).resourceSeq = (s.pool.taskslot i).seq ∧
      (((s.client c).stage = .procReq ∧ i ∈ s.inflight ∧ (s.pool.taskslot i).task.ownerInfo = some c ∧
          life s.history i = some .processing) ∨
        ((s.client c).stage ≠ .procReq ∧ i ∉ s.inflight ∧
          (life s.history i = some .clean ∨ life s.history i = some .dirty)))
  | .task j => j = i ∧ i ∈ s.inflight ∧ (s.pool.taskslot i).task.ownerInfo = none ∧
      (s.pool.taskslot i).task.resourceId = i ∧ (s.pool.taskslot i).task.resourceSeq = (s.pool.taskslot i).seq ∧
      life s.history i = some .processing

/-- **The holders of the slots**, given by a function. -/
structure Holds (s : ClientUnit) (fs : List Nat) (hold : Nat → Holder) : Prop where
  pool : s.pool.Ok fs
  absent : ∀ i, hold i = .absent ↔ i = 0 ∨ s.pool.total ≤ i
  free : ∀ i, hold i = .free ↔ i ∈ fs
  client : ∀ i c, hold i = .client c ↔ c ∈ s.live ∧ (s.client c).resourceId = i
  fits : ∀ i, s.Fits i (hold i)
  live : s.live.Nodup
  inflight : s.inflight.Nodup

/-- An event that leaves the slot `i` alone. -/
structure SameSlot (s s' : ClientUnit) (i : Nat) : Prop where
  task : (s'.pool.taskslot i).task = (s.pool.taskslot i).task
  seq : (s'.pool.taskslot i).seq = (s.pool.taskslot i).seq
  inflight : i ∈ s'.inflight ↔ i ∈ s.inflight
  life : life s'.history i = life s.history i

theorem Fits.frame (h : s.Fits i x) (hs : s.SameSlot s' i) (hc : ∀ c, x = .client c → s'.client c = s.client c) :
    s'.Fits i x := by
  cases x with
  | absent =>
    dsimp only [Fits]
    rw [hs.inflight, hs.life]
    exact h
  | free =>
    dsimp only [Fits]
    rw [hs.inflight, hs.life]
    exact h
  | client c =>
    dsimp only [Fits]
    rw [hs.inflight, hs.life, hs.task, hs.seq, hc c rfl]
    exact h
  | task j =>
    dsimp only [Fits]
    rw [hs.inflight, hs.life, hs.task, hs.seq]
    exact h

theorem Holds.move (H : s.Holds fs hold) (hi : 0 < i₀ ∧ i₀ < s.pool.total) (hx : x ≠ .absent) (hpool : s'.pool.Ok fs')
    (htotal : s'.pool.total = s.pool.total)
    (hfree : ∀ i, i ∈ fs' ↔ if i = i₀ then x = .free else i ∈ fs)
    (hclient : ∀ i c, (c ∈ s'.live ∧ (s'.client c).resourceId = i) ↔
      if i = i₀ then x = .client c else c ∈ s.live ∧ (s.client c).resourceId = i)
    (hsame : ∀ i, i ≠ i₀ → s.SameSlot s' i)
    (hother : ∀ i c, i ≠ i₀ → c ∈ s.live → (s.client c).resourceId = i → s'.client c = s.client c)
    (hfit : s'.Fits i₀ x) (hlive : s'.live.Nodup) (hinflight : s'.inflight.Nodup) :
    s'.Holds fs' (Function.update hold i₀ x) := by
  refine ⟨hpool, fun i => ?_, fun i => ?_, fun i c => ?_, fun i => ?_, hlive, hinflight⟩
  · rw [Function.update_apply, htotal]
    split
    · next h =>
      subst h
      exact ⟨fun h => absurd h hx, fun h => by omega⟩
    · exact H.absent i
  · rw [Function.update_apply, hfree i]
    split
    · exact Iff.rfl
    · exact H.free i
  · rw [Function.update_apply, hclient i c]
    split
    · exact Iff.rfl
    · exact H.client i c
  · rw [Function.update_apply]
    split
    · next h =>
      subst h
      exact hfit
    · next h =>
      refine (H.fits i).frame (hsame i h) (fun c hc => ?_)
      obtain ⟨h1, h2⟩ := (H.client i c).mp hc
      exact hother i c h h1 h2

theorem Holds.holder (H : s.Holds fs hold) (hc : c ∈ s.live) : hold (s.client c).resourceId = .client c :=
  (H.client _ c).mpr ⟨hc, rfl⟩

theorem Holds.range (H : s.Holds fs hold) (h : hold i ≠ .absent) : 0 < i ∧ i < s.pool.total := by
  have hna := mt (H.absent i).mpr h
  omega

theorem Holds.other (H : s.Holds fs hold) {d : Nat} (hc : c ∈ s.live) (hd : d ∈ s.live)
    (h : (s.client d).resourceId = (s.client c).resourceId) : d = c := by
  have h1 := H.holder hd
  rw [h, H.holder hc] at h1
  exact (Holder.client.inj h1).symm

theorem Holds.stay (H : s.Holds fs hold) (hc : c ∈ s.live) {y : CClientSync} (hpool : s'.pool.Ok fs)
    (htotal : s'.pool.total = s.pool.total) (hlive : s'.live = s.live)
    (hclient : s'.client = Function.update s.client c y) (hid : y.resourceId = (s.client c).resourceId)
    (hsame : ∀ i, i ≠ (s.client c).resourceId → s.SameSlot s' i) (hfit : s'.Fits (s.client c).resourceId (.client c))
    (hinflight : s'.inflight.Nodup) : s'.Holds fs hold := by
  have hres : ∀ d, (s'.client d).resourceId = (s.client d).resourceId := by
    intro d
    rw [hclient, Function.update_apply]
    split
    · next h => rw [h, hid]
    · rfl
  have hne : hold (s.client c).resourceId ≠ .absent := by
    rw [H.holder hc]
    exact Holder.noConfusion
  have hmove := H.move (H.range hne) (show Holder.client c ≠ .absent from Holder.noConfusion) hpool htotal
    (fun i => ?_) (fun i d => ?_) hsame (fun i d hi hd hdi => ?_) hfit (hlive ▸ H.live) hinflight
  · rwa [← H.holder hc, Function.update_eq_self] at hmove
  · split
    · next h => rw [h, ← H.free, H.holder hc]
    · exact Iff.rfl
  · rw [hlive, hres d]
    split
    · next h =>
      rw [h]
      refine ⟨fun ⟨h1, h2⟩ => by rw [H.other hc h1 h2], fun h => ?_⟩
      obtain rfl := Holder.client.inj h
      exact ⟨hc, rfl⟩
    · exact Iff.rfl
  · rw [hclient, Function.update_of_ne]
    rintro rfl
    exact hi hdi.symm

/-- A connection that is not processing a request. -/
structure Still (s : ClientUnit) (c : Nat) : Prop where
  live : c ∈ s.live
  stage : (s.client c).stage ≠ .procReq

theorem Holds.still (H : s.Holds fs hold) (hc : s.Still c) :
    (s.client c).resourceSeq = (s.pool.taskslot (s.client c).resourceId).seq ∧ (s.client c).resourceId ∉ s.inflight ∧
      (life s.history (s.client c).resourceId = some .clean ∨ life s.history (s.client c).resourceId = some .dirty) := by
  have hf := H.fits (s.client c).resourceId
  rw [H.holder hc.live] at hf
  obtain ⟨hseq, ⟨hst, -⟩ | ⟨-, h1, h2⟩⟩ := hf
  · exact absurd hst hc.stage
  · exact ⟨hseq, h1, h2⟩

theorem Holds.processing (H : s.Holds fs hold) (hc : c ∈ s.live) (hst : (s.client c).stage = .procReq) :
    (s.client c).resourceSeq = (s.pool.taskslot (s.client c).resourceId).seq ∧ (s.client c).resourceId ∈ s.inflight ∧
      (s.pool.taskslot (s.client c).resourceId).task.ownerInfo = some c ∧
      life s.history (s.client c).resourceId = some .processing := by
  have hf := H.fits (s.client c).resourceId
  rw [H.holder hc] at hf
  obtain ⟨hseq, ⟨-, h1, h2, h3⟩ | ⟨hne, -⟩⟩ := hf
  · exact ⟨hseq, h1, h2, h3⟩
  · exact absurd hst hne

/-- What a connection that is not processing may do to itself. -/
def Edits (x y : CClientSync) : Prop :=
  y.resourceId = x.resourceId ∧ y.resourceSeq = x.resourceSeq ∧ y.stage ≠ .procReq

theorem Still.setClient (hc : s.Still c) {y : CClientSync} (hy : Edits (s.client c) y) : (s.setClient c y).Still c :=
  ⟨hc.live, by
    show (Function.update s.client c y c).stage ≠ _
    rw [Function.update_self]
    exact hy.2.2⟩

theorem Holds.setClient (H : s.Holds fs hold) (hc : s.Still c) {y : CClientSync} (hy : Edits (s.client c) y) :
    (s.setClient c y).Holds fs hold := by
  obtain ⟨hseq, hnot, hl⟩ := H.still hc
  refine H.stay hc.live H.pool rfl rfl rfl hy.1 (fun i _ => ⟨rfl, rfl, Iff.rfl, rfl⟩) ⟨?_, .inr ⟨?_, hnot, hl⟩⟩ H.inflight
  · show (Function.update s.client c y c).resourceSeq = _
    rw [Function.update_self, hy.2.1]
    exact hseq
  · exact (hc.setClient hy).stage

theorem Holds.note (H : s.Holds fs hold) (hc : s.Still c) {a : SlotAct} (ha : a = .fill ∨ a = .clean) :
    (s.note (s.client c).resourceId a).Holds fs hold := by
  obtain ⟨hseq, hnot, hl⟩ := H.still hc
  refine H.stay hc.live H.pool rfl rfl (Function.update_eq_self c s.client).symm rfl
    (fun i hi => ⟨rfl, rfl, Iff.rfl, life_ne _ hi _⟩) ⟨hseq, .inr ⟨hc.stage, hnot, ?_⟩⟩ H.inflight
  show life ((_, a) :: s.history) _ = _ ∨ life ((_, a) :: s.history) _ = _
  rw [life_self]
  rcases ha with rfl | rfl
  · right
    rcases hl with hl | hl
    · rw [hl]
      rfl
    · rw [hl]
      rfl
  · left
    rcases hl with hl | hl
    · rw [hl]
      rfl
    · rw [hl]
      rfl

theorem Still.note (hc : s.Still c) (id : Nat) (a : SlotAct) : (s.note id a).Still c := ⟨hc.live, hc.stage⟩

theorem Holds.cleanResource (H : s.Holds fs hold) (hc : s.Still c) :
    (s.cleanResource (s.client c).resourceId).Holds fs hold := by
  obtain ⟨hseq, hnot, hl⟩ := H.still hc
  have H' : Holds { s with pool := s.pool.clean (s.client c).resourceId } fs hold := by
    refine H.stay hc.live (H.pool.setTask _ _) rfl rfl (Function.update_eq_self c s.client).symm rfl
      (fun i hi => ⟨?_, CClientResourcePool.setTask_seq _ _ _ _, Iff.rfl, rfl⟩) ⟨?_, .inr ⟨hc.stage, hnot, hl⟩⟩ H.inflight
    · show ((s.pool.setTask _ _).taskslot i).task = _
      rw [CClientResourcePool.setTask_slot, if_neg hi]
    · show _ = ((s.pool.setTask _ _).taskslot _).seq
      rw [CClientResourcePool.setTask_seq]
      exact hseq
  exact H'.note (c := c) ⟨hc.live, hc.stage⟩ (.inr rfl)

theorem unregistResource_eq {id seq : Nat} (h : (s.pool.free id seq).2 = true) :
    s.unregistResource id seq = { s with pool := (s.pool.free id seq).1 }.note id .free := by
  unfold unregistResource
  dsimp only
  rw [h]
  rfl

theorem Holds.release (H : s.Holds fs hold) (hi : 0 < i₀ ∧ i₀ < s.pool.total) (hnot : i₀ ∉ fs)
    (hpool : s'.pool.Ok fs) (htotal : s'.pool.total = s.pool.total)
    (hlive : ∀ d, d ∈ s'.live ↔ d ∈ s.live ∧ (s.client d).resourceId ≠ i₀) (hclient : s'.client = s.client)
    (hinflight : ∀ i, i ∈ s'.inflight ↔ i ∈ s.inflight ∧ i ≠ i₀)
    (htask : ∀ i, i ≠ i₀ → (s'.pool.taskslot i).task = (s.pool.taskslot i).task)
    (hseq : ∀ i, (s'.pool.taskslot i).seq = (s.pool.taskslot i).seq)
    (hlife : ∀ i, i ≠ i₀ → life s'.history i = life s.history i) (hclean : life s'.history i₀ = some .clean)
    (hnd : s'.live.Nodup) (hnd' : s'.inflight.Nodup) :
    (s'.unregistResource i₀ (s.pool.taskslot i₀).seq).Holds (i₀ :: fs) (Function.update hold i₀ .free) := by
  obtain ⟨hfreed, hok, ht, hkeep⟩ := hpool.free (htotal ▸ hi) hnot (hseq i₀)
  rw [unregistResource_eq hfreed]
  refine H.move hi Holder.noConfusion hok (ht.trans htotal) (fun i => ?_) (fun i d => ?_) (fun i hne => ?_)
    (fun i d _ _ _ => by rw [← hclient]; rfl) ⟨?_, ?_⟩ hnd hnd'
  · rw [List.mem_cons]
    split
    · next h => simp [h]
    · next h => simp [h]
  · show d ∈ s'.live ∧ (s'.client d).resourceId = i ↔ _
    rw [hlive, hclient]
    split
    · next h =>
      rw [h]
      exact ⟨fun h => absurd h.2 h.1.2, fun h => by cases h⟩
    · next h => exact ⟨fun h => ⟨h.1.1, h.2⟩, fun h' => ⟨⟨h'.1, fun he => h (h'.2.symm.trans he)⟩, h'.2⟩⟩
  · refine ⟨(hkeep i).1.trans (htask i hne), (hkeep i).2.trans (hseq i), ?_, ?_⟩
    · show i ∈ s'.inflight ↔ _
      rw [hinflight]
      exact ⟨fun h => h.1, fun h => ⟨h, hne⟩⟩
    · exact (life_ne _ hne _).trans (hlife i hne)
  · show i₀ ∉ s'.inflight
    rw [hinflight]
    exact fun h => h.2 rfl
  · show life ((i₀, .free) :: s'.history) i₀ = _
    rw [life_self, hclean]
    rfl

/-- **The invariant**: the slots have holders. -/
def Inv (s : ClientUnit) : Prop := ∃ fs hold, s.Holds fs hold

theorem Holds.not_free (H : s.Holds fs hold) (hc : c ∈ s.live) : (s.client c).resourceId ∉ fs := by
  rw [← H.free, H.holder hc]
  exact Holder.noConfusion

theorem Holds.not_absent (H : s.Holds fs hold) (hc : c ∈ s.live) :
    0 < (s.client c).resourceId ∧ (s.client c).resourceId < s.pool.total := by
  refine H.range ?_
  rw [H.holder hc]
  exact Holder.noConfusion

theorem clean_task_ne {p : CClientResourcePool} {id : Nat} (hi : i ≠ id) :
    ((p.clean id).taskslot i).task = (p.taskslot i).task := by
  show ((p.setTask _ _).taskslot i).task = _
  rw [CClientResourcePool.setTask_slot, if_neg hi]

theorem clean_seq {p : CClientResourcePool} {id : Nat} : ((p.clean id).taskslot i).seq = (p.taskslot i).seq :=
  CClientResourcePool.setTask_seq _ _ _ _

theorem Inv.delete (H : s.Inv) (hc : c ∈ s.live) : (s.delete c).Inv := by
  obtain ⟨fs, hold, H⟩ := H
  have hlive : ∀ d, d ∈ s.live.erase c ↔ d ∈ s.live ∧ (s.client d).resourceId ≠ (s.client c).resourceId := by
    intro d
    rw [H.live.mem_erase_iff]
    exact ⟨fun h => ⟨h.2, fun he => h.1 (H.other hc h.2 he)⟩, fun h => ⟨fun he => h.2 (by rw [he]), h.1⟩⟩
  unfold ClientUnit.delete
  dsimp only
  split
  · next hst =>
    -- the slot passes to the task
    obtain ⟨hseq, hin, -, hl⟩ := H.processing hc hst
    refine ⟨fs, _, H.move (H.not_absent hc) (show Holder.task (s.client c).resourceId ≠ .absent from Holder.noConfusion)
      (H.pool.setTask _ _) rfl (fun i => ?_) (fun i d => ?_) (fun i hi => ?_) (fun _ _ _ _ _ => rfl) ?_ (H.live.erase c)
      H.inflight⟩
    · split
      · next h =>
        rw [h]
        exact ⟨fun h => absurd h (H.not_free hc), fun h => by cases h⟩
      · exact Iff.rfl
    · show d ∈ s.live.erase c ∧ _ ↔ _
      rw [hlive]
      split
      · next h =>
        rw [h]
        exact ⟨fun h => absurd h.2 h.1.2, fun h => by cases h⟩
      · next h => exact ⟨fun h => ⟨h.1.1, h.2⟩, fun h' => ⟨⟨h'.1, fun he => h (h'.2.symm.trans he)⟩, h'.2⟩⟩
    · refine ⟨?_, CClientResourcePool.setTask_seq _ _ _ _, Iff.rfl, rfl⟩
      rw [CClientResourcePool.setTask_slot, if_neg hi]
    · refine ⟨rfl, hin, ?_, ?_, ?_, hl⟩
      · rw [CClientResourcePool.setTask_slot, if_pos rfl]
      · rw [CClientResourcePool.setTask_slot, if_pos rfl]
      · rw [CClientResourcePool.setTask_slot, if_pos rfl]
        exact hseq
  · next hst =>
    obtain ⟨hseq, hin, hl⟩ := H.still ⟨hc, hst⟩
    rw [hseq]
    refine ⟨_, _, H.release (H.not_absent hc) (H.not_free hc) (H.pool.setTask _ _) rfl hlive rfl (fun i => ?_)
      (fun i hi => clean_task_ne hi) (fun i => clean_seq) (fun i hi => life_ne _ hi _) ?_ (H.live.erase c) H.inflight⟩
    · show i ∈ s.inflight ↔ _
      refine ⟨fun h => ⟨h, fun he => hin (he ▸ h)⟩, fun h => h.1⟩
    · show life ((_, .clean) :: s.history) _ = _
      rw [life_self]
      rcases hl with hl | hl
      · rw [hl]
        rfl
      · rw [hl]
        rfl

/-- A handler of the connection `c` that may end with an error, on which the connection is deleted. -/
def Served (c : Nat) (r : ClientUnit × Bool) : Prop := r.1.Inv ∧ c ∈ r.1.live

theorem Served.settle {r : ClientUnit × Bool} (h : Served c r) :
    (match r with
      | (s', true) => s'
      | (s', false) => s'.delete c).Inv := by
  obtain ⟨s', ok⟩ := r
  cases ok with
  | true => exact h.1
  | false => exact h.1.delete h.2

theorem Holds.response (H : s.Holds fs hold) (hc : s.Still c) (r : SendResult) : Served c (s.response c r) := by
  cases r with
  | moreData => exact ⟨⟨fs, hold, H⟩, hc.live⟩
  | error => exact ⟨⟨fs, hold, H⟩, hc.live⟩
  | done =>
    have hc' : (s.cleanResource (s.client c).resourceId).Still c := ⟨hc.live, hc.stage⟩
    exact ⟨⟨fs, hold, (H.cleanResource hc).setClient hc' ⟨rfl, rfl, ClientState.noConfusion⟩⟩, hc.live⟩

theorem setClient_client (s : ClientUnit) (c : Nat) (y : CClientSync) : (s.setClient c y).client c = y :=
  Function.update_self ..

theorem Holds.fill (H : s.Holds fs hold) (hc : s.Still c) {y : CClientSync} (hy : Edits (s.client c) y) :
    ((s.setClient c y).note (s.client c).resourceId .fill).Holds fs hold := by
  have h := (H.setClient hc hy).note (hc.setClient hy) (.inl rfl)
  rwa [setClient_client, hy.1] at h

theorem Holds.sendResult (H : s.Holds fs hold) (hc : s.Still c) (r : SendResult) : Served c (s.sendResult c r) := by
  have hy : Edits (s.client c) { s.client c with stage := .sendRep } := ⟨rfl, rfl, ClientState.noConfusion⟩
  exact (H.fill hc hy).response ((hc.setClient hy).note _ _) r

theorem Holds.dispatch (H : s.Holds fs hold) (hc : s.Still c)
    (hdirty : life s.history (s.client c).resourceId = some .dirty) : Served c (s.dispatch c, true) := by
  obtain ⟨hseq, hnot, -⟩ := H.still hc
  refine ⟨⟨fs, hold, H.stay hc.live (H.pool.setTask _ _) rfl rfl rfl rfl (fun i hi => ?_) ⟨?_, .inl ⟨?_, ?_, ?_, ?_⟩⟩ ?_⟩,
    hc.live⟩
  · refine ⟨?_, CClientResourcePool.setTask_seq _ _ _ _, ?_, life_ne _ hi _⟩
    · show ((s.pool.setTask _ _).taskslot i).task = _
      rw [CClientResourcePool.setTask_slot, if_neg hi]
    · show i ∈ s.inflight ++ [_] ↔ _
      simp [hi]
  · show (Function.update s.client c _ c).resourceSeq = ((s.pool.setTask _ _).taskslot _).seq
    rw [Function.update_self, CClientResourcePool.setTask_seq]
    exact hseq
  · show (Function.update s.client c _ c).stage = _
    rw [Function.update_self]
  · exact List.mem_append_right _ (List.mem_singleton_self _)
  · show ((s.pool.setTask _ _).taskslot _).task.ownerInfo = _
    rw [CClientResourcePool.setTask_slot, if_pos rfl]
  · show life ((_, .dispatch) :: s.history) _ = _
    rw [life_self, hdirty]
    rfl
  · exact List.nodup_append.mpr ⟨H.inflight, List.nodup_singleton _, fun a ha b hb => by
      rw [List.mem_singleton.mp hb]
      exact fun he => hnot (he ▸ ha)⟩

theorem Inv.recvRequest (H : s.Inv) (hc : s.Still c) (ev : InputEvent) : Served c (s.recvRequest c ev) := by
  obtain ⟨fs, hold, H⟩ := H
  have hy : Edits (s.client c) { s.client c with rscClean := false } := ⟨rfl, rfl, hc.stage⟩
  have hc1 := (hc.setClient hy).note (s.client c).resourceId .fill
  have H1 := H.fill hc hy
  have hid : (Function.update s.client c { s.client c with rscClean := false } c).resourceId =
      (s.client c).resourceId := by rw [Function.update_self]
  unfold ClientUnit.recvRequest
  dsimp only
  split
  · exact ⟨⟨fs, hold, H1⟩, hc.live⟩
  · exact H1.sendResult hc1 ev.send
  · exact ⟨⟨fs, hold, H1.setClient hc1 ⟨rfl, rfl, ClientState.noConfusion⟩⟩, hc.live⟩
  · exact ⟨⟨fs, hold, H1.setClient hc1 ⟨rfl, rfl, ClientState.noConfusion⟩⟩, hc.live⟩
  · exact H1.sendResult hc1 ev.send
  · refine H1.dispatch hc1 ?_
    show life ((_, .fill) :: s.history) (Function.update s.client c _ c).resourceId = _
    rw [hid, life_self]
    rcases (H.still hc).2.2 with hl | hl
    · rw [hl]
      rfl
    · rw [hl]
      rfl

theorem Inv.inputNotify (H : s.Inv) (hc : c ∈ s.live) (ev : InputEvent) : (s.inputNotify c ev).Inv := by
  unfold ClientUnit.inputNotify
  split
  · next hst =>
    have hne : (s.client c).stage ≠ .procReq := by
      rcases hst with h | h
      · rw [h]
        exact ClientState.noConfusion
      · rw [h]
        exact ClientState.noConfusion
    exact (H.recvRequest ⟨hc, hne⟩ ev).settle
  · split
    · exact H.delete hc
    · exact H

theorem Inv.outputNotify (H : s.Inv) (hc : c ∈ s.live) (r : SendResult) : (s.outputNotify c r).Inv := by
  unfold ClientUnit.outputNotify
  split
  · next hst =>
    have hne : (s.client c).stage ≠ .procReq := by
      rw [hst]
      exact ClientState.noConfusion
    obtain ⟨fs, hold, H⟩ := H
    exact (H.response ⟨hc, hne⟩ r).settle
  · exact H

theorem Holds.flying (H : s.Holds fs hold) (hi : i ∈ s.inflight) :
    (∃ c, hold i = .client c ∧ c ∈ s.live ∧ (s.client c).resourceId = i ∧ (s.client c).stage = .procReq ∧
        (s.pool.taskslot i).task.ownerInfo = some c) ∨
      (hold i = .task i ∧ (s.pool.taskslot i).task.ownerInfo = none) := by
  have hf := H.fits i
  cases hh : hold i with
  | absent =>
    rw [hh] at hf
    exact absurd hi hf.1
  | free =>
    rw [hh] at hf
    exact absurd hi hf.1
  | client c =>
    rw [hh] at hf
    obtain ⟨hl, hid⟩ := (H.client i c).mp hh
    rcases hf.2 with ⟨hst, -, ho, -⟩ | ⟨-, hn, -⟩
    · exact .inl ⟨c, rfl, hl, hid, hst, ho⟩
    · exact absurd hi hn
  | task j =>
    rw [hh] at hf
    obtain ⟨rfl, -, ho, -⟩ := hf
    exact .inr ⟨rfl, ho⟩

theorem Holds.replyClient (H : s.Holds fs hold) (hc : c ∈ s.live) (hst : (s.client c).stage = .procReq)
    (r : SendResult) :
    Served c (({ s with inflight := s.inflight.erase (s.client c).resourceId }.note (s.client c).resourceId
      .reply).sendResult c r) := by
  obtain ⟨hseq, hin, -, hl⟩ := H.processing hc hst
  have H' : ((({ s with inflight := s.inflight.erase (s.client c).resourceId }.note (s.client c).resourceId
      .reply).setClient c { s.client c with stage := .sendRep }).note (s.client c).resourceId .fill).Holds fs hold := by
    refine H.stay hc H.pool rfl rfl rfl rfl (fun i hi => ⟨rfl, rfl, ?_, ?_⟩) ⟨?_, .inr ⟨?_, ?_, .inr ?_⟩⟩ (H.inflight.erase _)
    · show i ∈ s.inflight.erase _ ↔ _
      rw [H.inflight.mem_erase_iff]
      exact ⟨fun h => h.2, fun h => ⟨hi, h⟩⟩
    · exact (life_ne _ hi _).trans (life_ne _ hi _)
    · show (Function.update s.client c _ c).resourceSeq = _
      rw [Function.update_self]
      exact hseq
    · show (Function.update s.client c _ c).stage ≠ _
      rw [Function.update_self]
      exact ClientState.noConfusion
    · exact H.inflight.not_mem_erase
    · show life ((_, .fill) :: (_, .reply) :: s.history) _ = _
      rw [life_self, life_self, hl]
      rfl
  refine H'.response ⟨hc, ?_⟩ r
  show (Function.update s.client c _ c).stage ≠ _
  rw [Function.update_self]
  exact ClientState.noConfusion

theorem Holds.replyTask (H : s.Holds fs hold) (hh : hold i = .task i) :
    ((({ s with inflight := s.inflight.erase i }.note i .reply).cleanResource i).unregistResource i
      (s.pool.taskslot i).seq).Inv := by
  have hf := H.fits i
  rw [hh] at hf
  obtain ⟨-, -, -, -, -, hl⟩ := hf
  have hrange : 0 < i ∧ i < s.pool.total := H.range (by rw [hh]; exact Holder.noConfusion)
  have hnot : i ∉ fs := by
    rw [← H.free, hh]
    exact Holder.noConfusion
  refine ⟨_, _, H.release hrange hnot (H.pool.setTask _ _) rfl (fun d => ?_) rfl (fun j => ?_) (fun j hj => clean_task_ne hj)
    (fun j => clean_seq) (fun j hj => (life_ne _ hj _).trans (life_ne _ hj _)) ?_ H.live (H.inflight.erase _)⟩
  · refine ⟨fun h => ⟨h, fun he => ?_⟩, fun h => h.1⟩
    have hd := H.holder h
    rw [he, hh] at hd
    cases hd
  · show j ∈ s.inflight.erase i ↔ _
    rw [H.inflight.mem_erase_iff]
    exact ⟨fun h => ⟨h.2, h.1⟩, fun h => ⟨h.2, h.1⟩⟩
  · show life ((_, .clean) :: (_, .reply) :: s.history) _ = _
    rw [life_self, life_self, hl]
    rfl

theorem Inv.replyNotify (H : s.Inv) (hi : i ∈ s.inflight) (r : SendResult) : (s.replyNotify i r).Inv := by
  obtain ⟨fs, hold, H⟩ := H
  unfold ClientUnit.replyNotify
  dsimp only [ClientUnit.note]
  rcases H.flying hi with ⟨c, -, hc, rfl, hst, ho⟩ | ⟨hh, ho⟩
  · rw [ho]
    exact (H.replyClient hc hst r).settle
  · rw [ho]
    have hf := H.fits i
    rw [hh] at hf
    obtain ⟨-, -, -, hid, hseq, -⟩ := hf
    have hrange : 0 < i ∧ i < s.pool.total := H.range (by rw [hh]; exact Holder.noConfusion)
    have h := H.replyTask hh
    rw [hid, if_pos (Nat.ne_of_gt hrange.1)]
    -- `Clean` leaves the members that name the slot
    have htask : ((s.pool.clean i).taskslot i).task = ⟨none, i, (s.pool.taskslot i).seq⟩ := by
      show ((s.pool.setTask _ _).taskslot i).task = _
      rw [CClientResourcePool.setTask_slot, if_pos rfl, ← hseq]
      show (⟨none, (s.pool.taskslot i).task.resourceId, _⟩ : PooledTask) = _
      rw [hid]
    show (unregistResource _ ((s.pool.clean i).taskslot i).task.resourceId
      ((s.pool.clean i).taskslot i).task.resourceSeq).Inv
    rw [htask]
    exact h

theorem Holds.enlarge {room : Nat} {grant : Bool} {p : CClientResourcePool} (H : s.Holds [] hold)
    (hroom : room < 2 ^ 32) (hp : s.pool.enlarge room grant = some p) :
    p.freehead ≠ 0 ∧ ∃ fs hold', Holds { s with pool := p } fs hold' := by
  obtain ⟨hok, htotal, -, hhead, hslot⟩ := H.pool.enlarge hroom hp
  have hpos := H.pool.total.1
  refine ⟨by rw [hhead]; exact Nat.ne_of_gt hpos, _,
    fun i => if s.pool.total ≤ i ∧ i < 2 * s.pool.total then .free else hold i, hok, fun i => ?_, fun i => ?_, fun i c => ?_,
    fun i => ?_, H.live, H.inflight⟩
  · show _ ↔ i = 0 ∨ p.total ≤ i
    rw [htotal]
    split
    · next h => exact ⟨Holder.noConfusion, fun h => by omega⟩
    · next h =>
      rw [H.absent]
      omega
  · rw [List.mem_range'_1]
    split
    · next h => exact ⟨fun _ => by omega, fun _ => rfl⟩
    · next h =>
      rw [H.free]
      exact ⟨fun h => absurd h List.not_mem_nil, fun h => by omega⟩
  · split
    · next h =>
      refine ⟨Holder.noConfusion, fun hd => ?_⟩
      have hh := H.not_absent hd.1
      rw [hd.2] at hh
      omega
    · exact H.client i c
  · split
    · next h =>
      have hf := H.fits i
      rw [(H.absent i).mpr (.inr h.1)] at hf
      exact hf
    · next h =>
      by_cases hi : i < s.pool.total
      · refine (H.fits i).frame ⟨?_, ?_, Iff.rfl, rfl⟩ (fun _ _ => rfl)
        · show (p.taskslot i).task = _
          rw [hslot i hi]
        · show (p.taskslot i).seq = _
          rw [hslot i hi]
      · have hf := H.fits i
        rw [(H.absent i).mpr (.inr (Nat.not_lt.mp hi))] at hf ⊢
        exact hf

theorem Holds.regist (H : s.Holds fs hold) (hhead : s.pool.freehead ≠ 0) (hc : c ∉ s.live) :
    ((({ s with pool := s.pool.pop.1, live := c :: s.live }.note s.pool.pop.2.1 .alloc).setClient c
      { resourceId := s.pool.pop.2.1, resourceSeq := s.pool.pop.2.2 })).Inv := by
  obtain ⟨rest, rfl⟩ := H.pool.head_pos hhead
  obtain ⟨hid, hok, hkeep, hseq⟩ := H.pool.pop
  have hmem : s.pool.freehead ∈ s.pool.freehead :: rest := List.mem_cons_self ..
  have hfree : hold s.pool.freehead = .free := (H.free _).mpr hmem
  have hfit := H.fits s.pool.freehead
  rw [hfree] at hfit
  have hclient : ∀ d ∈ s.live, (s.client d).resourceId ≠ s.pool.freehead := by
    intro d hd he
    have hh := H.holder hd
    rw [he, hfree] at hh
    cases hh
  have hne : ∀ d ∈ s.live, d ≠ c := fun d hd he => hc (he ▸ hd)
  rw [hid]
  refine ⟨rest, _, H.move (H.pool.range _ hmem) (show Holder.client c ≠ .absent from Holder.noConfusion) hok hkeep.total
    (fun i => ?_) (fun i d => ?_) (fun i hi => ?_) (fun i d _ hd _ => Function.update_of_ne (hne d hd) ..)
    ⟨?_, .inr ⟨?_, hfit.1, .inl ?_⟩⟩ (List.nodup_cons.mpr ⟨hc, H.live⟩) H.inflight⟩
  · split
    · next h =>
      rw [h]
      exact ⟨fun h => absurd h (List.nodup_cons.mp H.pool.nodup).1, fun h => by cases h⟩
    · next h => rw [List.mem_cons, or_iff_right h]
  · show d ∈ c :: s.live ∧ (Function.update s.client c _ d).resourceId = i ↔ _
    by_cases hd : d = c
    · subst hd
      rw [Function.update_self]
      split
      · next h => exact ⟨fun _ => rfl, fun _ => ⟨List.mem_cons_self .., h.symm⟩⟩
      · next h => exact ⟨fun h' => absurd h'.2.symm h, fun h' => absurd h'.1 hc⟩
    · rw [Function.update_of_ne hd, List.mem_cons, or_iff_right hd]
      split
      · next h =>
        rw [h]
        exact ⟨fun h' => absurd h'.2 (hclient d h'.1), fun h' => absurd (Holder.client.inj h').symm hd⟩
      · exact Iff.rfl
  · exact ⟨hkeep.task i, hkeep.seq i hi, Iff.rfl, life_ne _ hi _⟩
  · show (Function.update s.client c _ c).resourceSeq = _
    rw [Function.update_self]
    exact hseq
  · show (Function.update s.client c _ c).stage ≠ _
    rw [Function.update_self]
    exact ClientState.noConfusion
  · show life ((_, .alloc) :: s.history) _ = _
    rw [life_self, hfit.2]
    rfl

theorem Inv.processStream {room : Nat} (H : s.Inv) (hroom : room < 2 ^ 32) (hc : c ∉ s.live) (grant addr attached : Bool)
    (ev : InputEvent) : (s.processStream room c grant addr attached ev).Inv := by
  -- a new connection over any pool with free slots, attached or not
  have hnew : ∀ {s : ClientUnit}, s.Inv → s.pool.freehead ≠ 0 → c ∉ s.live →
      (let t := (({ s with pool := s.pool.pop.1, live := c :: s.live }.note s.pool.pop.2.1 .alloc).setClient c
        { resourceId := s.pool.pop.2.1, resourceSeq := s.pool.pop.2.2 })
      if attached then t.inputNotify c ev else t.delete c).Inv := by
    intro s H hhead hc
    obtain ⟨fs, hold, H⟩ := H
    have hr := H.regist hhead hc
    dsimp only
    split
    · exact hr.inputNotify (List.mem_cons_self ..) ev
    · exact hr.delete (List.mem_cons_self ..)
  unfold ClientUnit.processStream
  split
  · unfold CClientResourcePool.alloc
    by_cases hhead : s.pool.freehead = 0
    · obtain ⟨fs, hold, H⟩ := H
      obtain rfl := H.pool.head_zero hhead
      rw [if_pos hhead]
      cases hp : s.pool.enlarge room grant with
      | none => exact ⟨[], hold, H⟩
      | some p =>
        obtain ⟨hne, hinv⟩ := H.enlarge hroom hp
        exact hnew (s := { s with pool := p }) hinv hne hc
    · rw [if_neg hhead]
      exact hnew H hhead hc
  · exact H

theorem Inv.step {room : Nat} {a : ClientEvent} (H : s.Inv) (hroom : room < 2 ^ 32) (h : s.step room a = some s') :
    s'.Inv := by
  cases a with
  | accept c grant addr attached ev =>
    rw [ClientUnit.step] at h
    split at h
    · next hc =>
      obtain rfl := Option.some.inj h
      exact H.processStream hroom hc grant addr attached ev
    · cases h
  | input c ev =>
    rw [ClientUnit.step] at h
    split at h
    · next hc =>
      obtain rfl := Option.some.inj h
      exact H.inputNotify hc ev
    · cases h
  | output c r =>
    rw [ClientUnit.step] at h
    split at h
    · next hc =>
      obtain rfl := Option.some.inj h
      exact H.outputNotify hc r
    · cases h
  | hangup c =>
    rw [ClientUnit.step] at h
    split at h
    · next hc =>
      obtain rfl := Option.some.inj h
      exact H.delete hc
    · cases h
  | timer c =>
    rw [ClientUnit.step] at h
    split at h
    · next hc =>
      obtain rfl := Option.some.inj h
      exact H.delete hc.1
    · cases h
  | reply i r =>
    rw [ClientUnit.step] at h
    split at h
    · next hi =>
      obtain rfl := Option.some.inj h
      exact H.replyNotify hi r
    · cases h

theorem inv_init : Inv { pool := CClientResourcePool.init } := by
  refine ⟨_, fun i => if i = 0 ∨ 256 ≤ i then .absent else .free, CClientResourcePool.ok_init, fun i => ?_, fun i => ?_,
    fun i c => ?_, fun i => ?_, List.nodup_nil, List.nodup_nil⟩
  · show _ ↔ i = 0 ∨ 256 ≤ i
    split
    · next h => exact ⟨fun _ => h, fun _ => rfl⟩
    · next h => exact ⟨Holder.noConfusion, fun h' => absurd h' h⟩
  · rw [List.mem_range'_1]
    split
    · next h => exact ⟨Holder.noConfusion, fun h' => by omega⟩
    · next h => exact ⟨fun _ => by omega, fun _ => rfl⟩
  · refine ⟨fun h => ?_, fun h => absurd h.1 List.not_mem_nil⟩
    split at h
    · cases h
    · cases h
  · split
    · exact ⟨List.not_mem_nil, rfl⟩
    · exact ⟨List.not_mem_nil, rfl⟩

theorem mem_orphans : i ∈ s.orphans ↔ i ∈ s.inflight ∧ (s.pool.taskslot i).task.ownerInfo = none := by
  rw [orphans, List.mem_filter, Option.isNone_iff_eq_none]

theorem Holds.at_iff (H : s.Holds fs hold) (i : Nat) (x : Holder) : s.At i x ↔ hold i = x := by
  cases x with
  | absent => exact (H.absent i).symm
  | free =>
    rw [H.free, ← H.pool.freeList]
    exact Iff.rfl
  | client c => exact (H.client i c).symm
  | task j =>
    dsimp only [At]
    rw [mem_orphans]
    refine ⟨fun ⟨⟨hj, ho⟩, hid, _⟩ => ?_, fun hh => ?_⟩
    · rcases H.flying hj with ⟨c, -, -, -, -, hsome⟩ | ⟨hh, -⟩
      · rw [ho] at hsome
        cases hsome
      · have hf := H.fits j
        rw [hh] at hf
        obtain ⟨-, -, -, hid', -⟩ := hf
        obtain rfl : j = i := hid'.symm.trans hid
        exact hh
    · have hf := H.fits i
      rw [hh] at hf
      obtain ⟨rfl, hj, ho, hid, hseq, -⟩ := hf
      exact ⟨⟨hj, ho⟩, hid, hseq⟩

theorem Holds.used (H : s.Holds fs hold) : s.pool.used = s.live.length + s.orphans.length + 1 := by
  have hnd : (fs ++ (s.live.map (fun c => (s.client c).resourceId) ++ s.orphans)).Nodup := by
    rw [List.nodup_append, List.nodup_append]
    refine ⟨H.pool.nodup, ⟨H.live.map_on (fun c hc d hd h => H.other hd hc h), H.inflight.filter _, ?_⟩, ?_⟩
    · intro i hi j hj hij
      obtain ⟨c, hc, rfl⟩ := List.mem_map.mp hi
      obtain ⟨hj, ho⟩ := mem_orphans.mp hj
      rcases H.flying hj with ⟨d, -, -, -, -, hsome⟩ | ⟨hh, -⟩
      · rw [ho] at hsome
        cases hsome
      · rw [← hij, H.holder hc] at hh
        cases hh
    · intro i hi j hj hij
      have hf := (H.free i).mpr hi
      rcases List.mem_append.mp hj with hj | hj
      · obtain ⟨c, hc, rfl⟩ := List.mem_map.mp hj
        rw [hij, H.holder hc] at hf
        cases hf
      · obtain ⟨hj, ho⟩ := mem_orphans.mp hj
        have hff := H.fits i
        rw [hf] at hff
        exact hff.1 (hij ▸ hj)
  have hmem : ∀ i, i ∈ fs ++ (s.live.map (fun c => (s.client c).resourceId) ++ s.orphans) ↔
      i ∈ List.range' 1 (s.pool.total - 1) := by
    intro i
    rw [List.mem_append, List.mem_append, List.mem_range'_1]
    constructor
    · intro h
      have hrange : 0 < i ∧ i < s.pool.total := by
        rcases h with h | h | h
        · exact H.pool.range i h
        · obtain ⟨c, hc, rfl⟩ := List.mem_map.mp h
          exact H.not_absent hc
        · refine H.range (fun ha => ?_)
          have hf := H.fits i
          rw [ha] at hf
          exact hf.1 (mem_orphans.mp h).1
      omega
    · intro h
      have hf := H.fits i
      cases hh : hold i with
      | absent =>
        have ha := (H.absent i).mp hh
        omega
      | free => exact .inl ((H.free i).mp hh)
      | client c =>
        obtain ⟨hc, hid⟩ := (H.client i c).mp hh
        exact .inr (.inl (List.mem_map.mpr ⟨c, hc, hid⟩))
      | task j =>
        rw [hh] at hf
        exact .inr (.inr (mem_orphans.mpr ⟨hf.2.1, hf.2.2.1⟩))
  have hlen := ((List.perm_ext_iff_of_nodup hnd List.nodup_range').mpr hmem).length_eq
  rw [List.length_append, List.length_append, List.length_map, List.length_range'] at hlen
  have hcount := H.pool.count
  have hpos := H.pool.total.1
  omega

/-- **The slots of a unit are in order**: the free list ends and has no slot twice, every slot is in exactly one place, the
history of every slot is a life that ends where the slot is now, and `used` counts the held slots and slot 0. -/
structure SlotsOk (s : ClientUnit) : Prop where
  linked : Chains.Linked s.pool.next (CClientResourcePool.ptr s.pool.freehead) s.pool.freeList
  freeOnce : s.pool.freeList.Nodup
  onePlace : Places.Once s.At
  holders : s.live.Nodup ∧ s.orphans.Nodup
  lives : ∀ i, ∃ l, life s.history i = some l ∧ (l = .free ↔ s.At i .free ∨ s.At i .absent) ∧
    (l = .processing ↔ i ∈ s.inflight)
  used : s.pool.used = s.live.length + s.orphans.length + 1

theorem Inv.slotsOk (h : s.Inv) : s.SlotsOk := by
  obtain ⟨fs, hold, H⟩ := h
  have hfree := H.pool.freeList
  refine ⟨hfree ▸ H.pool.linked, hfree ▸ H.pool.nodup, Places.once_of_fun hold H.at_iff, ⟨H.live, H.inflight.filter _⟩,
    fun i => ?_, H.used⟩
  have hf := H.fits i
  rw [H.at_iff, H.at_iff]
  cases hh : hold i with
  | absent =>
    rw [hh] at hf
    exact ⟨.free, hf.2, by simp, by simp [hf.1]⟩
  | free =>
    rw [hh] at hf
    exact ⟨.free, hf.2, by simp, by simp [hf.1]⟩
  | client c =>
    rw [hh] at hf
    obtain ⟨-, ⟨-, hin, -, hl⟩ | ⟨-, hin, hl | hl⟩⟩ := hf
    · exact ⟨.processing, hl, by simp, by simp [hin]⟩
    · exact ⟨.clean, hl, by simp, by simp [hin]⟩
    · exact ⟨.dirty, hl, by simp, by simp [hin]⟩
  | task j =>
    rw [hh] at hf
    exact ⟨.processing, hf.2.2.2.2.2, by simp, by simp [hf.2.1]⟩

end ClientUnit

/-- **Every slot has one holder, and is given back once, clean and not in use**, in every run of a unit whose allocator has
no room for `2 ^ 32` slots. -/
theorem clientMachine_slotsOk {room : Nat} (hroom : room < 2 ^ 32) {s : ClientUnit}
    (h : (clientMachine room).Reachable s) : s.SlotsOk := by
  have hinv : s.Inv := by
    refine (clientMachine room).reachable_induct (fun s hs => ?_) (fun s a s' hs hst => ClientUnit.Inv.step hs hroom hst) h
    rw [show s = _ from hs]
    exact ClientUnit.inv_init
  exact hinv.slotsOk

def goneClient : List ClientEvent :=
  [.accept 5 true true true { decode := .done true }, .hangup 5, .reply 1 .done, .accept 6 true true true {}]

theorem clientMachine_slotsOk_goneClient : ∃ s,
    (clientMachine 1024).run { pool := CClientResourcePool.init } goneClient = some s ∧ s.live = [6] ∧
      (s.client 6).resourceId = 1 ∧ s.SlotsOk :=
  ⟨_, rfl, rfl, rfl, clientMachine_slotsOk (show 1024 < 2 ^ 32 by decide) ⟨_, goneClient, rfl, rfl⟩⟩

end Dtc
