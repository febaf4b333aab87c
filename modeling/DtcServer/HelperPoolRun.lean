import DtcServer.HelperPoolSpec
/-!
# HelperPoolRun — the helpers of a database in every interleaving

The invariant of the groups and the tasks, step by step.  Each handler changes one helper and moves one task at most; where
it replies, the invariant holds before the sender's callback runs.
-/
namespace Dtc

open CHelperGroup (ConnectResult)

namespace HelperPool

variable {ι : Type} [DecidableEq ι] {s s' : HelperPool ι} {g : ι} {h t : Nat} {rest : List (PoolCall ι)}

/-- The tasks in calls of `TaskNotify`. -/
def entering (s : HelperPool ι) : List Nat :=
  s.stack.filterMap (fun c => match c with
    | .taskNotify _ t => some t
    | _ => none)

def waiting (s : HelperPool ι) : Option (ι × Nat) := s.cont.map (fun x => (x.1, x.2.1))

def book (s : HelperPool ι) : TaskBook ι where
  given := s.given
  entering := s.entering
  queue := fun g => (s.groups g).queue
  held := fun x => if s.waiting = some x then none else ((s.groups x.1).helperList x.2).request
  replied := s.replied

/-- The groups are in order, the pointers fit the stages, and a waiting handler is that of a busy helper. -/
structure Sound (s : HelperPool ι) : Prop where
  groups : ∀ g, (s.groups g).Ok
  fits : ∀ g h, ((s.groups g).helperList h).Fits
  cont : ∀ g h k, s.cont = some (g, h, k) → h < (s.groups g).helperMax ∧
    (((s.groups g).helperList h).stage = .recvRep ∨ ((s.groups g).helperList h).stage = .sendReq)
  wild : s.wild = false

/-- **The invariant of the pool.** -/
structure PoolInv (s : HelperPool ι) : Prop where
  sound : s.Sound
  book : s.book.Ok

/-- The invariant while `t` is on its way. -/
structure PoolBut (s : HelperPool ι) (t : Nat) : Prop where
  sound : s.Sound
  book : s.book.OkBut t

theorem setGroup_self (s : HelperPool ι) (g : ι) (G : CHelperGroup) : (s.setGroup g G).groups g = G :=
  Function.update_self ..

theorem setGroup_ne (s : HelperPool ι) {g x : ι} (hx : x ≠ g) (G : CHelperGroup) :
    (s.setGroup g G).groups x = s.groups x :=
  Function.update_of_ne hx _ _

section Calls

theorem PoolBut.reply (hs : s.PoolBut t) : (s.reply t).PoolInv :=
  ⟨⟨hs.sound.groups, hs.sound.fits, hs.sound.cont, hs.sound.wild⟩, hs.book.reply⟩

theorem Sound.setQueue (hs : s.Sound) (g : ι) (q : List Nat) :
    (s.setGroup g { s.groups g with queue := q }).Sound ∧
      (s.setGroup g { s.groups g with queue := q }).book = { s.book with queue := Function.update s.book.queue g q } := by
  have hhelpers : ∀ x, ((s.setGroup g { s.groups g with queue := q }).groups x).helperList = (s.groups x).helperList ∧
      ((s.setGroup g { s.groups g with queue := q }).groups x).helperMax = (s.groups x).helperMax := by
    intro x
    by_cases hx : x = g
    · rw [hx, setGroup_self]
      exact ⟨rfl, rfl⟩
    · rw [setGroup_ne s hx]
      exact ⟨rfl, rfl⟩
  refine ⟨⟨fun x => ?_, fun x k => ?_, fun x k c hc => ?_, hs.wild⟩, ?_⟩
  · by_cases hx : x = g
    · rw [hx, setGroup_self]
      exact ⟨(hs.groups g).free, (hs.groups g).nodup, (hs.groups g).ready⟩
    · rw [setGroup_ne s hx]
      exact hs.groups x
  · rw [(hhelpers x).1]
    exact hs.fits x k
  · rw [(hhelpers x).1, (hhelpers x).2]
    exact hs.cont x k c hc
  · unfold book waiting
    congr 1
    · funext x
      by_cases hx : x = g
      · rw [hx, setGroup_self, Function.update_self]
      · rw [setGroup_ne s hx, Function.update_of_ne hx]
    · funext x
      rw [(hhelpers x.1).1]
      rfl

theorem book_setGroup {G' : CHelperGroup} {stage : HelperStage} {task : Option HelperTask}
    (hc : Changes h (s.groups g) G' stage task) :
    (s.setGroup g G').book = { s.book with
      held := Function.update s.book.held (g, h)
        (if s.waiting = some (g, h) then none else (G'.helperList h).request) } := by
  unfold book waiting
  congr 1
  · funext x
    by_cases hx : x = g
    · rw [hx, setGroup_self, hc.queue]
    · rw [setGroup_ne s hx]
  · funext x
    by_cases hx : x = (g, h)
    · rw [hx, Function.update_self, setGroup_self]
      rfl
    · rw [Function.update_of_ne hx]
      by_cases hg : x.1 = g
      · have hk : x.2 ≠ h := fun hk => hx (Prod.ext hg hk)
        rw [hg, setGroup_self, hc.others x.2 hk, ← hg]
        rfl
      · rw [setGroup_ne s hg]
        rfl

theorem Sound.setGroup (hs : s.Sound) {G' : CHelperGroup} {stage : HelperStage} {task : Option HelperTask}
    (hc : Changes h (s.groups g) G' stage task) (hfits : (G'.helperList h).Fits) (hnot : s.waiting ≠ some (g, h)) :
    (s.setGroup g G').Sound := by
  refine ⟨fun x => ?_, fun x k => ?_, fun x k c hcont => ?_, hs.wild⟩
  · by_cases hx : x = g
    · rw [hx, setGroup_self]
      exact hc.ok
    · rw [setGroup_ne s hx]
      exact hs.groups x
  · by_cases hx : x = g
    · rw [hx, setGroup_self]
      by_cases hk : k = h
      · rw [hk]
        exact hfits
      · rw [hc.others k hk]
        exact hs.fits g k
    · rw [setGroup_ne s hx]
      exact hs.fits x k
  · have hcont' : s.cont = some (x, k, c) := hcont
    have hold := hs.cont x k c hcont'
    by_cases hx : x = g
    · have hk : k ≠ h := by
        intro hk
        apply hnot
        unfold waiting
        rw [hcont', hx, hk]
        rfl
      rw [hx] at hold ⊢
      rw [setGroup_self, hc.others k hk, hc.helperMax]
      exact hold
    · rw [setGroup_ne s hx]
      exact hold

theorem PoolBut.processTask (hs : s.PoolBut t) (hfree : (s.groups g).freeHelper ≠ []) (o : CallOracle) :
    (s.processTask g t o).PoolInv := by
  unfold HelperPool.processTask
  dsimp only
  split
  · rename_i hnil
    exact absurd hnil hfree
  · rename_i k rest hf
    split
    · have hmem : k ∈ (s.groups g).freeHelper := by
        rw [hf]
        exact List.mem_cons_self
      have hidle := (((hs.sound.groups g).free k).mp hmem).2
      have hbusy : (if o.sent then HelperStage.recvRep else .sendReq) ≠ .idle := by
        cases o.sent <;> nofun
      obtain ⟨hk, hc⟩ := Changes.fromIdle (hs.sound.groups g) hf
        (c := { (s.groups g).helperList k with
          stage := if o.sent then .recvRep else .sendReq, task := some (.request t) }) hbusy rfl
      have hnot : s.waiting ≠ some (g, k) := by
        intro hw
        unfold waiting at hw
        obtain ⟨⟨x, y, c⟩, hcont, he⟩ := Option.map_eq_some_iff.mp hw
        obtain ⟨rfl, rfl⟩ := Prod.mk.inj he
        have hst := (hs.sound.cont _ _ _ hcont).2
        dsimp only at hst hidle
        rw [hidle] at hst
        rcases hst with hst | hst
        · exact absurd hst nofun
        · exact absurd hst nofun
      have hfits := hs.sound.fits g k
      unfold CHelperClient.Fits at hfits
      rw [hidle] at hfits
      have hnone : s.book.held (g, k) = none := by
        unfold HelperPool.book
        dsimp only
        rw [if_neg hnot]
        unfold CHelperClient.request
        rw [hfits]
      have hself : (Function.update (s.groups g).helperList k { (s.groups g).helperList k with
          stage := if o.sent then .recvRep else .sendReq, task := some (.request t) }) k =
          { (s.groups g).helperList k with stage := if o.sent then .recvRep else .sendReq, task := some (.request t) } :=
        Function.update_self ..
      refine ⟨hs.sound.setGroup hc ?_ hnot, ?_⟩
      · change ((Function.update (s.groups g).helperList k _) k).Fits
        rw [hself]
        unfold CHelperClient.Fits
        cases o.sent <;> exact ⟨t, rfl⟩
      · rw [book_setGroup hc, if_neg hnot]
        have hreq : (({ (s.groups g).setHelper k { (s.groups g).helperList k with
            stage := if o.sent then .recvRep else .sendReq, task := some (.request t) } with
              freeHelper := rest } : CHelperGroup).helperList k).request = some t := by
          change ((Function.update (s.groups g).helperList k _) k).request = some t
          rw [hself]
          rfl
        rw [hreq]
        exact hs.book.hold hnone
    · exact hs.reply

/-- The fallback is asked only by a group without a free helper, for a task that could be processed. -/
def AsksFallback (s : HelperPool ι) (g : ι) (o : CallOracle) : Prop :=
  (s.groups g).readyHelperCnt ≠ 0 ∧ o.expired = false ∧ (s.groups g).freeHelper = [] ∧ s.usesFallback g ≠ none

omit [DecidableEq ι] in
theorem entering_flush (hst : s.stack = .flushTask g :: rest) :
    s.entering = ({ s with stack := rest } : HelperPool ι).entering := by
  unfold HelperPool.entering
  rw [hst]
  rfl

theorem PoolInv.popCall (hs : s.PoolInv) (hent : s.entering =
    ({ s with stack := rest } : HelperPool ι).entering) : ({ s with stack := rest } : HelperPool ι).PoolInv := by
  have hbook : ({ s with stack := rest } : HelperPool ι).book = s.book := by
    unfold HelperPool.book
    rw [← hent]
    rfl
  refine ⟨⟨hs.sound.groups, hs.sound.fits, hs.sound.cont, hs.sound.wild⟩, ?_⟩
  rw [hbook]
  exact hs.book

theorem PoolInv.flushTask (hs : s.PoolInv) (hst : s.stack = .flushTask g :: rest)
    {o : CallOracle} (hok : (s.groups g).queue ≠ [] → ¬ s.AsksFallback g o) : (s.flushTask g rest o).PoolInv := by
  have hdone := hs.popCall (entering_flush hst)
  unfold HelperPool.flushTask
  dsimp only
  split
  · exact hdone
  · rename_i t queue hq
    have hsound := hs.sound.setQueue g queue
    have hbut : (s.setGroup g { s.groups g with queue := queue }).PoolBut t := by
      refine ⟨hsound.1, ?_⟩
      rw [hsound.2]
      exact hs.book.pop hq
    split
    · exact hbut.reply
    · rename_i hready
      split
      · exact hbut.reply
      · rename_i hexp
        split
        · rename_i hfree
          refine hbut.processTask ?_ o
          rw [setGroup_self]
          exact hfree
        · rename_i hfree
          split
          · rename_i f hf
            refine absurd ⟨hready, (Bool.not_eq_true _).mp hexp, not_not.mp hfree, ?_⟩ (hok (by rw [hq]; nofun))
            rw [hf]
            nofun
          · exact hdone

theorem PoolInv.taskNotify (hs : s.PoolInv) (hst : s.stack = .taskNotify g t :: rest)
    {o : CallOracle} (hok : ¬ s.AsksFallback g o) (halloc : o.alloc = true) : (s.taskNotify g t rest o).PoolInv := by
  have hent : s.entering = t :: ({ s with stack := rest } : HelperPool ι).entering := by
    unfold HelperPool.entering
    rw [hst]
    rfl
  have hbut : ({ s with stack := rest } : HelperPool ι).PoolBut t := by
    refine ⟨⟨hs.sound.groups, hs.sound.fits, hs.sound.cont, hs.sound.wild⟩, ?_⟩
    exact hs.book.enter hent
  unfold HelperPool.taskNotify
  dsimp only
  split
  · exact hbut.reply
  · rename_i hready
    split
    · exact hbut.reply
    · rename_i hexp
      split
      · rename_i hfree
        exact hbut.processTask hfree o
      · rename_i hfree
        split
        · rename_i f hf
          refine absurd ⟨hready, (Bool.not_eq_true _).mp hexp, not_not.mp hfree, ?_⟩ hok
          change s.usesFallback g = some f at hf
          rw [hf]
          nofun
        · split
          · exact hbut.reply
          · split
            · have hsound := hbut.sound.setQueue g ((s.groups g).queue ++ [t])
              refine ⟨hsound.1, ?_⟩
              refine hsound.2 ▸ hbut.book.enqueue (fun hnot => ?_) (List.mem_append_right _ List.mem_cons_self)
                (fun y hy => TaskBook.mem_snoc_iff hy)
              exact TaskBook.nodup_snoc (hs.book.2.queue g) hnot
            · exact hbut.reply

end Calls

section Handlers

theorem held_of_not_waiting {x : ι × Nat} (hnot : s.waiting ≠ some x) :
    s.book.held x = ((s.groups x.1).helperList x.2).request :=
  if_neg hnot

theorem PoolInv.settle (hs : s.PoolInv) {G' : CHelperGroup} (hf : Frees h (s.groups g) G')
    (hheld : s.book.held (g, h) = none) (hcont : s.cont = none ∨ ∃ k, s.cont = some (g, h, k)) :
    (({ s with cont := none } : HelperPool ι).setGroup g G').PoolInv := by
  obtain ⟨stage, task, hv, hc⟩ := hf
  have hv' : Vacant (G'.helperList h).stage (G'.helperList h).task := by
    rw [hc.stage, hc.task]
    exact hv
  obtain ⟨hfits, hreq⟩ := CHelperClient.fits_of_vacant hv'
  have hsound : ({ s with cont := none } : HelperPool ι).Sound := ⟨hs.sound.groups, hs.sound.fits, nofun, hs.sound.wild⟩
  refine ⟨hsound.setGroup hc hfits nofun, ?_⟩
  rw [book_setGroup (s := { s with cont := none }) hc]
  have hsame : Function.update ({ s with cont := none } : HelperPool ι).book.held (g, h)
      (if ({ s with cont := none } : HelperPool ι).waiting = some (g, h) then none else (G'.helperList h).request) =
        s.book.held := by
    funext x
    by_cases hx : x = (g, h)
    · rw [hx, Function.update_self, hreq, hheld]
      exact ite_self none
    · rw [Function.update_of_ne hx]
      have hnot : s.waiting ≠ some x := by
        unfold waiting
        rcases hcont with h0 | ⟨k, h0⟩
        · rw [h0]
          nofun
        · rw [h0]
          exact fun he => hx (Option.some.inj he).symm
      rw [held_of_not_waiting hnot, held_of_not_waiting (s := { s with cont := none }) nofun]
  rw [hsame]
  exact hs.book

theorem PoolInv.replyTask (hs : s.PoolInv) (hcont : s.cont = none) (hh : h < (s.groups g).helperMax)
    (htask : ((s.groups g).helperList h).task = some (.request t)) (k : HelperCont) :
    ({ s.reply t with cont := some (g, h, k) } : HelperPool ι).PoolInv := by
  have hstage : ((s.groups g).helperList h).stage = .recvRep ∨ ((s.groups g).helperList h).stage = .sendReq := by
    have hfits := hs.sound.fits g h
    unfold CHelperClient.Fits at hfits
    rw [htask] at hfits
    split at hfits
    · cases hfits
    · cases hfits
    · cases hfits
    · cases hfits
    · cases hfits
    · rename_i hst
      exact .inl hst
    · rename_i hst
      exact .inr hst
  have hheld : s.book.held (g, h) = some t := by
    unfold HelperPool.book waiting CHelperClient.request
    dsimp only
    rw [hcont, htask]
    rfl
  refine ⟨⟨hs.sound.groups, hs.sound.fits, ?_, hs.sound.wild⟩, ?_⟩
  · intro x y c hc
    obtain ⟨rfl, h2⟩ := Prod.mk.inj (Option.some.inj hc)
    obtain ⟨rfl, -⟩ := Prod.mk.inj h2
    exact ⟨hh, hstage⟩
  · have hbook : ({ s.reply t with cont := some (g, h, k) } : HelperPool ι).book =
        { s.book with held := Function.update s.book.held (g, h) none, replied := s.book.replied ++ [t] } := by
      unfold HelperPool.book waiting
      congr 1
      funext x
      dsimp only
      by_cases hx : x = (g, h)
      · rw [hx, Function.update_self]
        exact if_pos rfl
      · rw [Function.update_of_ne hx, hcont]
        refine (if_neg (fun he => hx (Option.some.inj he).symm)).trans ?_
        exact (if_neg nofun).symm
    rw [hbook]
    exact (hs.book.release hheld).reply

theorem held_none_of_request (hreq : ((s.groups g).helperList h).request = none) : s.book.held (g, h) = none := by
  unfold HelperPool.book
  dsimp only
  rw [hreq]
  exact ite_self none

theorem PoolInv.reset (hs : s.PoolInv) (hcont : s.cont = none) (hh : h < (s.groups g).helperMax)
    (r : Option ConnectResult) : (s.reset g h r).PoolInv := by
  have hself : ({ s with cont := none } : HelperPool ι) = s := by
    rw [← hcont]
  have hfinish : ((s.groups g).helperList h).request = none → (r.elim (s.setGroup g ((s.groups g).resetRest h))
      fun r => s.setGroup g (((s.groups g).resetRest h).connectServer h r)).PoolInv := by
    intro hreq
    have hsettle := hs.settle (Frees.reset (hs.sound.groups g) hh r) (held_none_of_request hreq) (.inl hcont)
    rw [hself] at hsettle
    cases r with
    | some r => exact hsettle
    | none => exact hsettle
  have hfits := hs.sound.fits g h
  unfold CHelperClient.Fits at hfits
  unfold HelperPool.reset
  dsimp only
  split
  · rename_i hst
    rw [hst] at hfits
    have hreq : ((s.groups g).helperList h).request = none := by
      unfold CHelperClient.request
      rw [hfits]
    cases r <;> exact hfinish hreq
  · rename_i hst
    rw [hst] at hfits
    have hreq : ((s.groups g).helperList h).request = none := by
      unfold CHelperClient.request
      rw [hfits]
    cases r <;> exact hfinish hreq
  · rename_i htask _ _
    exact hs.replyTask hcont hh htask _
  · rename_i hne
    have hreq : ((s.groups g).helperList h).request = none := by
      unfold CHelperClient.request
      split
      · rename_i t ht
        exact absurd ht (hne t)
      · rfl
    cases r <;> exact hfinish hreq

theorem setGroup_setGroup (s : HelperPool ι) (g : ι) (G G' : CHelperGroup) :
    (s.setGroup g G).setGroup g G' = s.setGroup g G' := by
  unfold setGroup
  dsimp only
  rw [Function.update_idem]

theorem reconnect_frees (hG : (s.groups g).Ok) (hh : h < (s.groups g).helperMax)
    (hreq : ((s.groups g).helperList h).request = none)
    (hdisc : ((s.groups g).helperList h).stage = .disconnected → ((s.groups g).helperList h).task = none)
    (r : ConnectResult) : ∃ G', s.reconnect g h r = s.setGroup g G' ∧ Frees h (s.groups g) G' := by
  have hc := Changes.connectError hG hh
  have hmax : h < ((s.groups g).connectError h).helperMax := by
    rw [hc.helperMax]
    exact hh
  have hreq' : (((s.groups g).connectError h).helperList h).request = none := by
    unfold CHelperClient.request at hreq ⊢
    rw [hc.task]
    exact hreq
  unfold HelperPool.reconnect
  dsimp only
  rw [setGroup_self]
  split
  · rename_i hst
    refine ⟨_, setGroup_setGroup .., hc.frees (.connectServer hc.ok hmax hst ?_ r)⟩
    rw [hc.task]
    exact hdisc (hc.stage.symm.trans hst)
  · have hfree := hc.frees (Frees.reset hc.ok hmax (some r))
    refine ⟨_, ?_, hfree⟩
    unfold HelperPool.reset
    dsimp only
    rw [setGroup_self]
    unfold CHelperClient.request at hreq'
    split
    · exact setGroup_setGroup ..
    · exact setGroup_setGroup ..
    · rename_i htask _ _
      rw [htask] at hreq'
      cases hreq'
    · exact setGroup_setGroup ..

theorem disc_of_fits {c : CHelperClient} (hfits : c.Fits) : c.stage = .disconnected → c.task = none := by
  intro hst
  unfold CHelperClient.Fits at hfits
  rw [hst] at hfits
  exact hfits

theorem PoolInv.reconnect (hs : s.PoolInv) (hcont : s.cont = none) (hh : h < (s.groups g).helperMax)
    (r : ConnectResult) : (s.reconnect g h r).PoolInv := by
  have hself : ({ s with cont := none } : HelperPool ι) = s := by rw [← hcont]
  cases hreq : ((s.groups g).helperList h).request with
  | none =>
    obtain ⟨G', he, hf⟩ := reconnect_frees (hs.sound.groups g) hh hreq (disc_of_fits (hs.sound.fits g h)) r
    have hsettle := hs.settle hf (held_none_of_request hreq) (.inl hcont)
    rw [hself] at hsettle
    rw [he]
    exact hsettle
  | some t =>
    -- the failure is counted, then `Reset` replies
    have hc := Changes.connectError (hs.sound.groups g) hh
    have hfits : (((s.groups g).connectError h).helperList h).Fits := by
      have hf := hs.sound.fits g h
      unfold CHelperClient.Fits at hf ⊢
      rw [hc.stage, hc.task]
      exact hf
    have hreq' : (((s.groups g).connectError h).helperList h).request = some t := by
      unfold CHelperClient.request at hreq ⊢
      rw [hc.task]
      exact hreq
    have hnot : s.waiting ≠ some (g, h) := by
      unfold waiting
      rw [hcont]
      nofun
    have hs' : (s.setGroup g ((s.groups g).connectError h)).PoolInv := by
      refine ⟨hs.sound.setGroup hc hfits hnot, ?_⟩
      rw [book_setGroup hc, if_neg hnot, hreq', ← hreq, ← held_of_not_waiting hnot]
      rw [Function.update_eq_self]
      exact hs.book
    unfold HelperPool.reconnect
    dsimp only
    split
    · rename_i hst
      rw [setGroup_self] at hst
      have := disc_of_fits hfits hst
      unfold CHelperClient.request at hreq'
      rw [this] at hreq'
      cases hreq'
    · refine hs'.reset hcont ?_ (some r)
      rw [setGroup_self, hc.helperMax]
      exact hh

theorem PoolInv.inputNotify (hs : s.PoolInv) (hcont : s.cont = none) (hh : h < (s.groups g).helperMax)
    (d : HelperDecode) (applied : Bool) (r : ConnectResult) : (s.inputNotify g h d applied r).PoolInv := by
  have hself : ({ s with cont := none } : HelperPool ι) = s := by rw [← hcont]
  unfold HelperPool.inputNotify
  dsimp only
  split
  · rename_i hst
    have hfits := hs.sound.fits g h
    unfold CHelperClient.Fits at hfits
    rw [hst] at hfits
    split
    · exact hs
    · -- the peer is what it should be: the helper is ready and free
      have h1 := Changes.setHelper (hs.sound.groups g) hh (c := { (s.groups g).helperList h with task := none })
        Iff.rfl rfl
      have h2 := Changes.ready h1.ok (h := h) (by rw [h1.helperMax]; exact hh)
      have hmax : h < (((s.groups g).setHelper h { (s.groups g).helperList h with task := none }).ready h).helperMax := by
        rw [h2.helperMax, h1.helperMax]
        exact hh
      have hbusy : ((((s.groups g).setHelper h { (s.groups g).helperList h with task := none }).ready h).helperList h).stage ≠
          .idle := by
        rw [h2.stage, h1.stage]
        dsimp only
        rw [hst]
        nofun
      have h3 := Changes.toIdle h2.ok hmax (c := { (((s.groups g).setHelper h
        { (s.groups g).helperList h with task := none }).ready h).helperList h with stage := .idle }) rfl rfl hbusy
      have htask : ((((s.groups g).setHelper h { (s.groups g).helperList h with task := none }).ready h).helperList h).task =
          none := by
        rw [h2.task, h1.task]
      have hreq : ((s.groups g).helperList h).request = none := by
        unfold CHelperClient.request
        rw [hfits]
      have hs' := hs.settle ⟨_, _, .inr ⟨.inr (.inr (.inl rfl)), htask⟩, (h1.trans h2).trans h3⟩
        (held_none_of_request hreq) (.inl hcont)
      rw [hself] at hs'
      split
      · exact hs'
      · refine hs'.reconnect hcont ?_ r
        rw [setGroup_self]
        exact ((h1.trans h2).trans h3).helperMax.symm ▸ hh
    · exact hs.reset hcont hh none
  · split
    · exact hs
    · rename_i htask
      exact hs.replyTask hcont hh htask _
    · exact hs
  · exact hs.reset hcont hh none
  · exact hs

theorem PoolInv.queueBackTask (hs : s.PoolInv) (hcont : s.cont = none) (hh : h < (s.groups g).helperMax)
    (htask : ((s.groups g).helperList h).task = some (.request t)) (hst : ((s.groups g).helperList h).stage = .sendReq)
    (r : ConnectResult) :
    ((s.setGroup g { (s.groups g).setHelper h { (s.groups g).helperList h with task := none } with
      queue := t :: (s.groups g).queue }).reconnect g h r).PoolInv := by
  have hnot : s.waiting ≠ some (g, h) := by
    unfold waiting
    rw [hcont]
    nofun
  have hheld : s.book.held (g, h) = some t := by
    rw [held_of_not_waiting hnot]
    unfold CHelperClient.request
    rw [htask]
  -- first the queue, then the helper
  obtain ⟨hsound, hbook⟩ := hs.sound.setQueue g (t :: (s.groups g).queue)
  generalize hq : s.setGroup g { s.groups g with queue := t :: (s.groups g).queue } = s₁ at hsound hbook
  have hG : s₁.groups g = { s.groups g with queue := t :: (s.groups g).queue } := by
    rw [← hq, setGroup_self]
  have hh₁ : h < (s₁.groups g).helperMax := by
    rw [hG]
    exact hh
  have hst₁ : ((s₁.groups g).helperList h).stage = .sendReq := by
    rw [hG]
    exact hst
  have hc := Changes.setHelper (hsound.groups g) hh₁ (c := { (s₁.groups g).helperList h with task := none }) Iff.rfl rfl
  have hset : s.setGroup g { (s.groups g).setHelper h { (s.groups g).helperList h with task := none } with
      queue := t :: (s.groups g).queue } =
      s₁.setGroup g ((s₁.groups g).setHelper h { (s₁.groups g).helperList h with task := none }) := by
    rw [hG, ← hq, setGroup_setGroup]
    rfl
  rw [hset]
  obtain ⟨G', he, stage, task, hv, hc'⟩ := reconnect_frees
    (s := s₁.setGroup g ((s₁.groups g).setHelper h { (s₁.groups g).helperList h with task := none })) (g := g) (h := h)
    (by rw [setGroup_self]; exact hc.ok) (by rw [setGroup_self, hc.helperMax]; exact hh₁)
    (by rw [setGroup_self]; unfold CHelperClient.request; rw [hc.task])
    (by rw [setGroup_self, hc.stage]; intro hd; exact absurd (hst₁.symm.trans hd) nofun) r
  rw [setGroup_self] at hc'
  rw [he, setGroup_setGroup]
  have hall := hc.trans hc'
  have hv' : Vacant (G'.helperList h).stage (G'.helperList h).task := by
    rw [hall.stage, hall.task]
    exact hv
  obtain ⟨hfits, hreq⟩ := CHelperClient.fits_of_vacant hv'
  have hnot₁ : s₁.waiting ≠ some (g, h) := by
    rw [← hq]
    exact hnot
  refine ⟨hsound.setGroup hall hfits hnot₁, ?_⟩
  rw [book_setGroup hall, if_neg hnot₁, hreq, hbook]
  exact (hs.book.release hheld).enqueue (fun hn => List.nodup_cons.mpr ⟨hn, hs.book.2.queue g⟩) List.mem_cons_self
    (fun y hy => TaskBook.mem_cons_iff hy)

theorem PoolInv.outputNotify (hs : s.PoolInv) (hcont : s.cont = none) (hh : h < (s.groups g).helperMax)
    (sent : SendResult) (applied alloc : Bool) (r : ConnectResult) : (s.outputNotify g h sent applied alloc r).PoolInv := by
  have hself : ({ s with cont := none } : HelperPool ι) = s := by rw [← hcont]
  have hfits := hs.sound.fits g h
  have hverify : ((s.groups g).helperList h).stage = .sendVerify ∨ ((s.groups g).helperList h).stage = .connecting →
      (s.setGroup g ((s.groups g).sendVerify h (sent == .done))).PoolInv ∧
        h < ((s.setGroup g ((s.groups g).sendVerify h (sent == .done))).groups g).helperMax := by
    intro hst
    have htask : ((s.groups g).helperList h).task = none := by
      unfold CHelperClient.Fits at hfits
      rcases hst with hst | hst <;> rw [hst] at hfits <;> exact hfits
    have hne : ((s.groups g).helperList h).stage ≠ .idle := by
      rcases hst with hst | hst <;> rw [hst] <;> nofun
    have hf := Frees.sendVerify (hs.sound.groups g) hh hne htask (sent == .done)
    have hsettle := hs.settle hf (held_none_of_request (by unfold CHelperClient.request; rw [htask])) (.inl hcont)
    rw [hself] at hsettle
    obtain ⟨_, _, _, hc⟩ := hf
    refine ⟨hsettle, ?_⟩
    rw [setGroup_self, hc.helperMax]
    exact hh
  unfold HelperPool.outputNotify
  dsimp only
  split
  · rename_i hst
    obtain ⟨hs', hh'⟩ := hverify (.inl hst)
    split
    · exact hs'
    · exact hs'.reconnect hcont hh' r
  · rename_i hst
    split
    · exact hs
    · -- the request is sent: the helper keeps its task
      have hbusy : ((s.groups g).helperList h).stage ≠ .idle := by
        rw [hst]
        nofun
      have hc := Changes.setHelper (hs.sound.groups g) hh (c := { (s.groups g).helperList h with stage := .recvRep })
        ⟨nofun, fun hi => absurd hi hbusy⟩ rfl
      have hnot : s.waiting ≠ some (g, h) := by
        unfold waiting
        rw [hcont]
        nofun
      unfold CHelperClient.Fits at hfits
      rw [hst] at hfits
      refine ⟨hs.sound.setGroup hc ?_ hnot, ?_⟩
      · unfold CHelperClient.Fits
        rw [hc.stage, hc.task]
        exact hfits
      · have hreq : ((((s.groups g).setHelper h { (s.groups g).helperList h with stage := .recvRep }).helperList h)).request =
            s.book.held (g, h) := by
          rw [held_of_not_waiting hnot]
          unfold CHelperClient.request
          rw [hc.task]
        rw [book_setGroup hc, if_neg hnot, hreq, Function.update_eq_self]
        exact hs.book
    · rename_i htask
      split
      · exact hs.queueBackTask hcont hh htask hst r
      · exact hs.replyTask hcont hh htask _
    · exact hs
  · rename_i hst
    exact (hverify (.inr hst)).1
  · exact hs

theorem PoolInv.timerNotify (hs : s.PoolInv) (hcont : s.cont = none) (hh : h < (s.groups g).helperMax)
    (r : ConnectResult) : (s.timerNotify g h r).PoolInv := by
  have hself : ({ s with cont := none } : HelperPool ι) = s := by rw [← hcont]
  have hfits := hs.sound.fits g h
  have hdrop : ((s.groups g).helperList h).stage = .sendVerify ∨ ((s.groups g).helperList h).stage = .recvVerify →
      ((s.setGroup g ((s.groups g).setHelper h { (s.groups g).helperList h with task := none })).reconnect g h r).PoolInv := by
    intro hst
    have hreq : ((s.groups g).helperList h).request = none := by
      unfold CHelperClient.Fits at hfits
      unfold CHelperClient.request
      rcases hst with hst | hst <;> rw [hst] at hfits <;> rw [hfits]
    have hc := Changes.setHelper (hs.sound.groups g) hh (c := { (s.groups g).helperList h with task := none }) Iff.rfl rfl
    obtain ⟨G', he, hf⟩ := reconnect_frees
      (s := s.setGroup g ((s.groups g).setHelper h { (s.groups g).helperList h with task := none })) (g := g) (h := h)
      (by rw [setGroup_self]; exact hc.ok) (by rw [setGroup_self, hc.helperMax]; exact hh)
      (by rw [setGroup_self]; unfold CHelperClient.request; rw [hc.task])
      (by rw [setGroup_self]; exact fun _ => hc.task) r
    rw [setGroup_self] at hf
    have hsettle := hs.settle (hc.frees hf) (held_none_of_request hreq) (.inl hcont)
    rw [hself] at hsettle
    rw [he, setGroup_setGroup]
    exact hsettle
  unfold HelperPool.timerNotify
  dsimp only
  split
  · exact hs.reconnect hcont hh r
  · exact hs.reconnect hcont hh r
  · exact hs.reconnect hcont hh r
  · exact hs.reset hcont hh none
  · rename_i hst
    exact hdrop (.inl hst)
  · rename_i hst
    exact hdrop (.inr hst)
  · exact hs

theorem PoolInv.finish (hs : s.PoolInv) {k : HelperCont} (hcont : s.cont = some (g, h, k)) (r : ConnectResult) :
    (s.finish g h k r).PoolInv := by
  obtain ⟨hh, hst⟩ := hs.sound.cont g h k hcont
  have hbusy : ((s.groups g).helperList h).stage ≠ .idle := by
    rcases hst with hst | hst <;> rw [hst] <;> nofun
  have hheld : s.book.held (g, h) = none := by
    refine if_pos ?_
    unfold waiting
    rw [hcont]
    rfl
  have hc := Changes.setHelper (hs.sound.groups g) hh (c := { (s.groups g).helperList h with task := none }) Iff.rfl rfl
  have hh' : h < ((s.groups g).setHelper h { (s.groups g).helperList h with task := none }).helperMax := hh
  have hbusy' : (((s.groups g).setHelper h { (s.groups g).helperList h with task := none }).helperList h).stage ≠ .idle := by
    rw [hc.stage]
    exact hbusy
  unfold HelperPool.finish
  dsimp only
  cases k with
  | recvResponse decoded =>
    have hidle := Changes.toIdle hc.ok hh' (c := { ((s.groups g).setHelper h
      { (s.groups g).helperList h with task := none }).helperList h with stage := .idle }) rfl rfl hbusy'
    have hs' := hs.settle ⟨_, _, .inr ⟨.inr (.inr (.inl rfl)), hc.task⟩, hc.trans hidle⟩ hheld (.inr ⟨_, hcont⟩)
    dsimp only
    split
    · exact hs'
    · refine hs'.reconnect rfl ?_ r
      rw [setGroup_self]
      exact (hc.trans hidle).helperMax.symm ▸ hh
  | reset reconnect =>
    cases reconnect with
    | true => exact hs.settle (hc.frees (Frees.reset hc.ok hh' (some r))) hheld (.inr ⟨_, hcont⟩)
    | false => exact hs.settle (hc.frees (Frees.reset hc.ok hh' none)) hheld (.inr ⟨_, hcont⟩)
  | queueBackTask =>
    obtain ⟨G', he, hf⟩ := reconnect_frees
      (s := ({ s with cont := none } : HelperPool ι).setGroup g
        ((s.groups g).setHelper h { (s.groups g).helperList h with task := none })) (g := g) (h := h)
      (by rw [setGroup_self]; exact hc.ok) (by rw [setGroup_self]; exact hh')
      (by rw [setGroup_self]; unfold CHelperClient.request; rw [hc.task])
      (by rw [setGroup_self]; exact fun _ => hc.task) r
    rw [setGroup_self] at hf
    dsimp only
    rw [he, setGroup_setGroup]
    exact hs.settle (hc.frees hf) hheld (.inr ⟨_, hcont⟩)

end Handlers

instance (s : HelperPool ι) (g : ι) (o : CallOracle) : Decidable (s.AsksFallback g o) :=
  inferInstanceAs (Decidable (_ ∧ _ ∧ _ ∧ _))

/-- The condition of a step: no group asks a fallback that has neither a task nor a free helper, and there is memory for a
slot of the queue. -/
def StepOk (s : HelperPool ι) : PoolAct ι → Prop
  | .go o =>
    match s.stack with
    | .flushTask g :: _ => (s.groups g).queue ≠ [] → ¬ s.AsksFallback g o
    | .taskNotify g _ :: _ => ¬ s.AsksFallback g o ∧ o.alloc = true
    | _ => True
  | _ => True

instance (s : HelperPool ι) : ∀ a, Decidable (s.StepOk a)
  | .go o =>
    match h : s.stack with
    | .flushTask g :: _ =>
      decidable_of_iff ((s.groups g).queue ≠ [] → ¬ s.AsksFallback g o) (by rw [StepOk, h])
    | .taskNotify g _ :: _ => decidable_of_iff (¬ s.AsksFallback g o ∧ o.alloc = true) (by rw [StepOk, h])
    | [] | .callback :: _ => isTrue (by rw [StepOk, h]; trivial)
  | .arrive .. | .callbackReturns | .finish _ | .groupTimer _ | .input .. | .output .. | .hangup .. | .timer .. =>
    isTrue trivial

omit [DecidableEq ι] in
theorem rest_of_atRest (h : s.atRest = true) : s.stack = [] ∧ s.cont = none := by
  unfold atRest at h
  rw [Bool.and_eq_true, List.isEmpty_iff, Option.isNone_iff_eq_none] at h
  exact h

theorem PoolInv.step {a : PoolAct ι} (hs : s.PoolInv) (hok : s.StepOk a) (hst : s.step a = some s') : s'.PoolInv := by
  cases a with
  | arrive g t =>
    rw [HelperPool.step] at hst
    split at hst
    · rename_i hc
      obtain rfl := Option.some.inj hst
      exact ⟨⟨hs.sound.groups, hs.sound.fits, hs.sound.cont, hs.sound.wild⟩, hs.book.arrive hc.2.2⟩
    · cases hst
  | callbackReturns =>
    rw [HelperPool.step] at hst
    split at hst
    · rename_i rest hstack
      obtain rfl := Option.some.inj hst
      refine hs.popCall ?_
      unfold HelperPool.entering
      rw [hstack]
      rfl
    · cases hst
  | go o =>
    rw [HelperPool.step] at hst
    rw [StepOk] at hok
    split at hst
    · cases hst
    · split at hst
      · rename_i g rest hstack
        obtain rfl := Option.some.inj hst
        rw [hstack] at hok
        exact hs.flushTask hstack hok
      · rename_i g t rest hstack
        obtain rfl := Option.some.inj hst
        rw [hstack] at hok
        exact hs.taskNotify hstack hok.1 hok.2
      · cases hst
  | finish r =>
    rw [HelperPool.step] at hst
    split at hst
    · rename_i g h k _ hcont
      obtain rfl := Option.some.inj hst
      exact hs.finish hcont r
    · cases hst
  | groupTimer g =>
    rw [HelperPool.step] at hst
    split at hst
    · rename_i hc
      obtain rfl := Option.some.inj hst
      refine hs.popCall ?_
      unfold HelperPool.entering
      rw [(rest_of_atRest hc.2).1]
      rfl
    · cases hst
  | input g h d applied r =>
    rw [HelperPool.step] at hst
    split at hst
    · rename_i hc
      obtain rfl := Option.some.inj hst
      exact hs.inputNotify (rest_of_atRest hc.2.1).2 hc.2.2 d applied r
    · cases hst
  | output g h sent applied alloc r =>
    rw [HelperPool.step] at hst
    split at hst
    · rename_i hc
      obtain rfl := Option.some.inj hst
      exact hs.outputNotify (rest_of_atRest hc.2.1).2 hc.2.2 sent applied alloc r
    · cases hst
  | hangup g h =>
    rw [HelperPool.step] at hst
    split at hst
    · rename_i hc
      obtain rfl := Option.some.inj hst
      exact hs.reset (rest_of_atRest hc.2.1).2 hc.2.2 none
    · cases hst
  | timer g h r =>
    rw [HelperPool.step] at hst
    split at hst
    · rename_i hc
      obtain rfl := Option.some.inj hst
      exact hs.timerNotify (rest_of_atRest hc.2.1).2 hc.2.2 r
    · cases hst

theorem PoolInv.attached (hs : s.Attached) : s.PoolInv := by
  obtain ⟨helperMax, queueSize, fallback, rfl⟩ := hs
  refine ⟨⟨fun g => ⟨fun h => ?_, List.nodup_nil, ?_⟩, fun g h => rfl, nofun, rfl⟩, ?_, ?_⟩
  · exact ⟨fun hm => absurd hm List.not_mem_nil, fun hm => absurd hm.2 nofun⟩
  · dsimp only
    rw [List.countP_eq_length.mpr (fun x _ => rfl), List.length_range]
  · intro t
    refine ⟨.outside, List.not_mem_nil, fun p hp => ?_⟩
    cases p with
    | outside => rfl
    | entering => exact absurd hp List.not_mem_nil
    | queued g => exact absurd hp List.not_mem_nil
    | helper g h => exact absurd hp nofun
    | replied => exact absurd hp List.not_mem_nil
  · exact ⟨List.nodup_nil, fun _ => List.nodup_nil, List.nodup_nil⟩

/-- **The pool does its work**: every task is in one place and once there, so it is replied at most once; the free lists
have exactly the idle helpers and the ready ones are counted; and `ProcessTask` never took a helper from an empty list. -/
structure PoolOk (s : HelperPool ι) : Prop where
  tasks : s.book.Ok
  groups : ∀ g, (s.groups g).Ok
  processed : s.wild = false

theorem poolInv_reachable (h : (helperMachine ι).ReachableMeeting StepOk s) : s.PoolInv :=
  (helperMachine ι).reachableMeeting_induct (fun _ h0 => PoolInv.attached h0) (fun _ _ _ hs hok hst => hs.step hok hst) h

/-- **The helpers of a database in every interleaving** whose steps meet the condition. -/
theorem helperMachine_onePlace (h : (helperMachine ι).ReachableMeeting StepOk s) : s.PoolOk :=
  ⟨(poolInv_reachable h).book, (poolInv_reachable h).sound.groups, (poolInv_reachable h).sound.wild⟩

/-- A group of the slave, which falls back to the master's; each has one helper. -/
def masterAndSlave : HelperPool Bool where
  groups := fun _ => { queueSize := 10, helperMax := 1, readyHelperCnt := 1 }
  fallback := fun slave => if slave then some false else none

theorem masterAndSlave_attached : masterAndSlave.Attached :=
  ⟨fun _ => 1, fun _ => 10, fun slave => if slave then some false else none, rfl⟩

def serveOne : List (PoolAct Bool) :=
  [.timer true 0 (.connected true true), .input true 0 (.done true) true .failed, .arrive true 7, .go {}, .go {},
    .input true 0 (.done true) true .failed, .callbackReturns, .finish .failed]

theorem helperMachine_onePlace_serveOne : ∃ s, (helperMachine Bool).run masterAndSlave serveOne = some s ∧
    s.replied = [7] ∧ (s.groups true).freeHelper = [0] ∧ s.PoolOk := by
  have hmeets : (helperMachine Bool).RunMeets StepOk masterAndSlave serveOne := by decide +kernel
  exact ⟨_, rfl, rfl, rfl, helperMachine_onePlace ⟨masterAndSlave, serveOne, masterAndSlave_attached, hmeets, rfl⟩⟩

/-- **`HasFreeHelper` is the wrong way round**: a task for the slave's group while no helper is connected is given to the
master's group, which has no free helper. -/
theorem helperMachine_fallback : ∃ s, (helperMachine Bool).run masterAndSlave [.arrive true 7, .go {}, .go {}] = some s ∧
    (s.groups false).freeHelper = [] ∧ s.wild = true ∧ ¬ s.PoolOk :=
  ⟨_, rfl, rfl, rfl, fun h => absurd h.processed nofun⟩

end HelperPool

end Dtc
