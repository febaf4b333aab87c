import DtcServer.NcPoolMoves
import DtcServer.Places
/-!
# NcPoolRun — the client's pool delivers each result once

The invariant holds in every run in which no request is aborted that failed to be encoded or that a datagram connection is
sending, and none is scheduled on a connection that is sending another.
-/
namespace Dtc
namespace NCPool

variable {s s' : NCPool} {t u c i n : Nat} {l : PoolList}

theorem id2Req_spec {reqId : Int} (hpos : 0 < s.maxRequests) (h : s.id2Req reqId = some t) :
    t < s.maxRequests ∧ reqId = t + (s.transList t).genId * s.maxRequests + 1 := by
  unfold id2Req at h
  split at h
  · cases h
  · next hrange =>
    dsimp only at h
    split at h
    · cases h
    · next hgen =>
      obtain rfl := Option.some.inj h
      rw [not_not] at hgen
      refine ⟨Nat.mod_lt _ hpos, ?_⟩
      rw [← hgen]
      have hdiv := Nat.mod_add_div (reqId.toNat - 1) s.maxRequests
      rw [Nat.mul_comm] at hdiv
      have hnat : reqId = ((reqId.toNat - 1 : Nat) : Int) + 1 := by omega
      rw [hnat]
      congr 1
      exact_mod_cast hdiv.symm

theorem Ages.abortable (h : Ages s s') (hok : s'.transList u = s.transList u → s.Abortable u) : s'.Abortable u := by
  rcases h.slot u with hu | ⟨hst, hs, -⟩
  · have hok := hok hu
    unfold Abortable at hok ⊢
    rw [hu]
    refine ⟨hok.1, fun hsend => hok.2 ⟨hsend.1, ?_⟩⟩
    rw [← hsend.2]
    cases (s.transList u).server with
    | none => rfl
    | some j => exact congrArg some (h.mode j).symm
  · refine ⟨fun hd => hd.2 hs, fun hsend => ?_⟩
    rw [hst] at hsend
    cases hsend.1

theorem cancelSlot_rest {asked : Int} (h : s.cancelSlot t asked = some s') : s'.maxRequests = s.maxRequests ∧
    (s'.transList t).state = .idle ∧
      ∀ u, u ≠ t → (s'.transList u = s.transList u → s.Abortable u) → s'.Abortable u := by
  obtain ⟨s₁, h1, h2⟩ := Option.bind_eq_some_iff.mp h
  have hages := ages_frame.abortRequest h1
  obtain ⟨hmax, hservers, -, hidle, hother⟩ := getTransationResult_rest h2
  refine ⟨hmax.trans hages.max, hidle, fun u hu hab => ?_⟩
  have hab₁ : s₁.Abortable u := hages.abortable (fun h3 => hab ((hother u hu).trans h3))
  unfold Abortable at hab₁ ⊢
  rw [hother u hu, hservers]
  exact hab₁

theorem Inv.cancelSlot (I : s.Inv) (ht : t < s.maxRequests) (hok : s.Abortable t) {asked : Int}
    (hasked : asked = 0 ∨ asked = t + (s.transList t).genId * s.maxRequests + 1) (h : s.cancelSlot t asked = some s') :
    s'.Inv := by
  obtain ⟨s₁, h1, h2⟩ := Option.bind_eq_some_iff.mp h
  have I1 := I.abortRequest ht hok h1
  have hages := ages_frame.abortRequest h1
  have hasked' : asked = 0 ∨ asked = t + (s₁.transList t).genId * s₁.maxRequests + 1 := by
    refine hasked.imp id (fun he => ?_)
    rw [hages.max]
    rcases hages.slot t with h3 | ⟨-, -, -, h3⟩
    · rw [h3]
      exact he
    · rw [h3]
      exact he
  exact I1.getTransationResult (hages.max ▸ ht) hasked' h2

/-- All slots in the states of `type` may be aborted. -/
def AllAbortable (s : NCPool) (type : Nat) : Prop :=
  ∀ t, t < s.maxRequests → type &&& (s.transList t).state.code ≠ 0 → s.Abortable t

theorem forStates_induct {P : NCPool → Prop} {type : Nat} {f : NCPool → Nat → Option NCPool}
    (hf : ∀ s t s', P s → t < s.maxRequests → s.Abortable t → f s t = some s' → P s' ∧
      s'.maxRequests = s.maxRequests ∧ ∀ u, type &&& (s'.transList u).state.code ≠ 0 →
        (s'.transList u = s.transList u → s.Abortable u) → s'.Abortable u) :
    ∀ (ts : List Nat) (s : NCPool), P s → (∀ t ∈ ts, t < s.maxRequests) → s.AllAbortable type →
      forStates type f ts s = some s' → P s'
  | [], s, I, _, _, h => by
    obtain rfl := Option.some.inj h
    exact I
  | t :: ts, s, I, hts, hok, h => by
    have ht := hts t (List.mem_cons_self ..)
    have hts' : ∀ u ∈ ts, u < s.maxRequests := fun u hu => hts u (List.mem_cons_of_mem _ hu)
    rw [NCPool.forStates] at h
    split at h
    · exact forStates_induct hf ts s I hts' hok h
    · next hcode =>
      obtain ⟨s₁, h1, h2⟩ := Option.bind_eq_some_iff.mp h
      obtain ⟨I1, hmax, hab⟩ := hf s t s₁ I ht (hok t ht hcode) h1
      refine forStates_induct hf ts s₁ I1 (fun u hu => hmax ▸ hts' u hu) (fun u hu hc => ?_) h2
      refine hab u hc (fun hsame => hok u (hmax ▸ hu) ?_)
      rw [← hsame]
      exact hc

theorem cancelAllRequest_induct {P : NCPool → Prop} {type : Nat} (hs : P s) (hok : type < 16 → s.AllAbortable type)
    (hf : ∀ s t s', P s → t < s.maxRequests → s.Abortable t → s.cancelSlot t 0 = some s' → P s')
    (h : s.cancelAllRequest type = some s') : P s' := by
  unfold NCPool.cancelAllRequest at h
  split at h
  · obtain rfl := Option.some.inj h
    exact hs
  · next htype =>
    refine forStates_induct (fun s t s' I ht hab h => ?_) _ s hs (fun t ht => List.mem_range.mp ht)
      (hok (Nat.lt_of_not_le htype)) h
    obtain ⟨hmax, hidle, hother⟩ := cancelSlot_rest h
    refine ⟨hf s t s' I ht hab h, hmax, fun u hc hab' => ?_⟩
    by_cases hu : u = t
    · rw [hu, hidle] at hc
      exact absurd (Nat.and_zero type) hc
    · exact hother u hu hab'

theorem abortAllRequest_induct {P : NCPool → Prop} {type : Nat} (hs : P s) (hok : type < 16 → s.AllAbortable (type &&& 7))
    (hf : ∀ s t s', P s → t < s.maxRequests → s.Abortable t → s.abortRequest t = some s' → P s')
    (h : s.abortAllRequest type = some s') : P s' := by
  unfold NCPool.abortAllRequest at h
  split at h
  · obtain rfl := Option.some.inj h
    exact hs
  · next htype =>
    refine forStates_induct (fun s t s' I ht hab h => ?_) _ s hs (fun t ht => List.mem_range.mp ht)
      (hok (Nat.lt_of_not_le htype)) h
    have hages := ages_frame.abortRequest h
    exact ⟨hf s t s' I ht hab h, hages.max, fun u _ hab' => hages.abortable hab'⟩

theorem Inv.cancelAllRequest (I : s.Inv) {type : Nat} (hok : type < 16 → s.AllAbortable type)
    (h : s.cancelAllRequest type = some s') : s'.Inv :=
  cancelAllRequest_induct I hok (fun _ _ _ I ht hab h => I.cancelSlot ht hab (.inl rfl) h) h

theorem Inv.abortAllRequest (I : s.Inv) {type : Nat} (hok : type < 16 → s.AllAbortable (type &&& 7))
    (h : s.abortAllRequest type = some s') : s'.Inv :=
  abortAllRequest_induct I hok (fun _ _ _ I ht hab h => I.abortRequest ht hab h) h

def AbortableId (s : NCPool) (reqId : Int) : Prop := ∀ t, t < s.maxRequests → s.id2Req reqId = some t → s.Abortable t

theorem Inv.cancelRequest (I : s.Inv) {reqId : Int} (hok : s.AbortableId reqId) (h : s.cancelRequest reqId = some s') :
    s'.Inv := by
  unfold NCPool.cancelRequest at h
  split at h
  · obtain rfl := Option.some.inj h
    exact I
  · next t ht =>
    obtain ⟨hlt, hid⟩ := id2Req_spec I.size.1 ht
    exact I.cancelSlot hlt (hok t hlt ht) (.inr hid) h

theorem Inv.abortRequestId (I : s.Inv) {reqId : Int} (hok : s.AbortableId reqId) (h : s.abortRequestId reqId = some s') :
    s'.Inv := by
  unfold NCPool.abortRequestId at h
  split at h
  · obtain rfl := Option.some.inj h
    exact I
  · next t ht =>
    obtain ⟨hlt, -⟩ := id2Req_spec I.size.1 ht
    exact I.abortRequest hlt (hok t hlt ht) h

theorem Inv.getResult (I : s.Inv) {reqId : Int} (h : s.getResult reqId = some s') : s'.Inv := by
  unfold NCPool.getResult at h
  split at h
  · split at h
    · obtain rfl := Option.some.inj h
      exact I
    · next t ts hts =>
      have hlink := (I.wired.lists.mem .done t).mp (by rw [hts]; exact List.mem_cons_self ..)
      exact I.getTransationResult (I.lt_of_link hlink) (.inl rfl) h
  · split at h
    · obtain rfl := Option.some.inj h
      exact I
    · next t ht =>
      obtain ⟨hlt, hid⟩ := id2Req_spec I.size.1 ht
      split at h
      · exact I.getTransationResult hlt (.inr hid) h
      · obtain rfl := Option.some.inj h
        exact I

/-- **The condition on an event**, read before it: the requests that are aborted may be, and none is scheduled on a
connection that is sending another. -/
def StepOk (s : NCPool) : PoolEvent → Prop
  | .serverTimer i _ _ _ => s.ScheduleOk i
  | .abortRequest reqId => s.AbortableId reqId
  | .cancelRequest reqId => s.AbortableId reqId
  | .abortAllRequest type => type < 16 → s.AllAbortable (type &&& 7)
  | .cancelAllRequest type => type < 16 → s.AllAbortable type
  | _ => True

theorem Inv.orCrash (I : s.Inv) {o : Option NCPool} (h : ∀ s', o = some s' → s'.Inv) : (s.orCrash o).Inv := by
  cases o with
  | none =>
    exact I.of_conns rfl rfl rfl rfl rfl rfl rfl (fun _ _ h _ => h) (fun _ => rfl) (I.idle.of_eq (fun _ => rfl) (fun _ => rfl))
  | some s' => exact h s' rfl

theorem Inv.step {a : PoolEvent} (I : s.Inv) (hok : s.StepOk a) (h : s.step a = some s') : s'.Inv := by
  unfold NCPool.step at h
  split at h
  · cases h
  cases a with
  | addServer dgram mReq mConn =>
    obtain rfl := Option.some.inj h
    exact I.addServer dgram mReq mConn
  | addRequest server tag encoded =>
    obtain rfl := Option.some.inj h
    refine I.orCrash (fun s' hs' => ?_)
    obtain ⟨⟨s₁, k⟩, h1, rfl⟩ := Option.map_eq_some_iff.mp hs'
    exact I.addRequest h1
  | serverTimer i c send r =>
    dsimp only at h
    split at h
    · next hc =>
      obtain rfl := Option.some.inj h
      exact I.orCrash (fun s' hs' => I.serverTimer hc hok send r hs')
    · cases h
  | input c e =>
    obtain ⟨y, -, rfl⟩ := Option.map_eq_some_iff.mp h
    exact I.inputNotify c y e
  | output c r =>
    obtain ⟨y, -, rfl⟩ := Option.map_eq_some_iff.mp h
    exact I.orCrash (fun s' hs' => I.outputNotify c y r hs')
  | hangup c =>
    obtain ⟨y, -, rfl⟩ := Option.map_eq_some_iff.mp h
    exact I.hangupNotify c
  | timer c =>
    obtain ⟨y, -, rfl⟩ := Option.map_eq_some_iff.mp h
    exact I.timerNotify c y
  | abortRequest reqId =>
    obtain rfl := Option.some.inj h
    exact I.orCrash (fun s' hs' => I.abortRequestId hok hs')
  | cancelRequest reqId =>
    obtain rfl := Option.some.inj h
    exact I.orCrash (fun s' hs' => I.cancelRequest hok hs')
  | abortAllRequest type =>
    obtain rfl := Option.some.inj h
    exact I.orCrash (fun s' hs' => I.abortAllRequest hok hs')
  | cancelAllRequest type =>
    obtain rfl := Option.some.inj h
    exact I.orCrash (fun s' hs' => I.cancelAllRequest hok hs')
  | getResult reqId =>
    obtain rfl := Option.some.inj h
    exact I.orCrash (fun s' hs' => I.getResult hs')

theorem inv_create {ms mr : Nat} (hmr : 0 < mr) : (create ms mr).Inv := by
  have hslot : ∀ t, (create ms mr).transList t = if t < min mr (2 ^ 20) then { link := some .free } else {} := fun _ => rfl
  have hpacket : ∀ t, ((create ms mr).transList t).packet = none := by
    intro t
    rw [hslot]
    split <;> rfl
  refine ⟨⟨⟨fun l t => ?_, fun l => ?_⟩, fun t ht => ?_, fun t ht => ?_, fun c t h => (by cases h), ?_⟩,
    ⟨fun i c h => absurd h List.not_mem_nil, fun i => List.nodup_nil⟩,
    ⟨fun t u n h => ?_, fun t n h => ?_, fun n _ => rfl, fun n => ?_, List.nodup_nil, fun e he => absurd he List.not_mem_nil⟩,
    Nat.lt_min.mpr ⟨hmr, by decide⟩, Nat.min_le_right _ _⟩
  · rw [hslot]
    show t ∈ (if l = .free then (List.range (min mr (2 ^ 20))).reverse else []) ↔ _
    by_cases hl : l = .free
    · rw [if_pos hl, List.mem_reverse, List.mem_range]
      split
      · next ht => exact ⟨fun _ => by rw [hl], fun _ => ht⟩
      · next ht => exact ⟨fun h => absurd h ht, nofun⟩
    · rw [if_neg hl]
      split
      · simp [Ne.symm hl]
      · simp
  · show (if l = .free then (List.range (min mr (2 ^ 20))).reverse else []).Nodup
    split
    · exact List.nodup_reverse.mpr List.nodup_range
    · exact List.nodup_nil
  · rw [Fits, hslot, if_pos (show t < min mr (2 ^ 20) from ht)]
    exact ⟨rfl, rfl, rfl, rfl, rfl⟩
  · rw [hslot, if_neg (show ¬ t < min mr (2 ^ 20) from Nat.not_lt.mpr ht)]
    exact ⟨rfl, rfl⟩
  · show 0 + (List.range (min mr (2 ^ 20))).reverse.length = _
    rw [Nat.zero_add, List.length_reverse, List.length_range]
    rfl
  · rw [hpacket] at h
    cases h
  · rw [hpacket] at h
    cases h
  · exact ⟨fun h => absurd h List.not_mem_nil, fun h => by cases h⟩

/-- Where a request is. -/
inductive ReqPlace where
  | unissued
  | waiting (t i : Nat)
  | sending (t c : Nat)
  | receiving (t c : Nat)
  | done (t : Nat)
  | collected

/-- **The request `n` is in a place**: not added yet, in a slot (queued, on a connection, done), or collected. -/
def At (s : NCPool) (n : Nat) : ReqPlace → Prop
  | .unissued => s.issued.length ≤ n
  | .waiting t i => (s.transList t).packet = some n ∧ t ∈ s.lists (.server i)
  | .sending t c => (s.transList t).packet = some n ∧ s.sreqOf c = some t
  | .receiving t c => (s.transList t).packet = some n ∧ t ∈ s.lists (.conn c)
  | .done t => (s.transList t).packet = some n ∧ t ∈ s.lists .done
  | .collected => n ∈ s.collected.map (fun e => e.req)

theorem Inv.at_slot (I : s.Inv) (hn : (s.transList t).packet = some n) {p : ReqPlace} (hp : s.At n p) :
    (∃ i, p = .waiting t i ∧ (s.transList t).state = .wait ∧ (s.transList t).server = some i) ∨
      (∃ c, p = .sending t c ∧ (s.transList t).state = .send ∧ (s.transList t).conn = some c) ∨
      (∃ c, p = .receiving t c ∧ (s.transList t).state = .recv ∧ (s.transList t).conn = some c) ∨
      (p = .done t ∧ (s.transList t).state = .done) := by
  obtain ⟨q, hq, -, -, -, -, -, hlife⟩ := I.booked.slot t n hn
  cases p with
  | unissued => exact absurd (List.getElem?_eq_some_iff.mp hq).1 (Nat.not_lt.mpr hp)
  | waiting u i =>
    obtain rfl := I.booked.inj u t n hp.1 hn
    obtain ⟨h1, h2⟩ := (I.state_of_link ((I.wired.lists.mem _ u).mp hp.2)).2 i rfl
    exact .inl ⟨i, rfl, h1, h2⟩
  | sending u c =>
    obtain rfl := I.booked.inj u t n hp.1 hn
    obtain ⟨-, h1, h2⟩ := I.wired.sreq c u hp.2
    exact .inr (.inl ⟨c, rfl, h1, h2⟩)
  | receiving u c =>
    obtain rfl := I.booked.inj u t n hp.1 hn
    obtain ⟨h1, h2⟩ := (I.state_of_link ((I.wired.lists.mem _ u).mp hp.2)).1 c rfl
    exact .inr (.inr (.inl ⟨c, rfl, h1, h2⟩))
  | done u =>
    obtain rfl := I.booked.inj u t n hp.1 hn
    have hlink := (I.wired.lists.mem _ u).mp hp.2
    refine .inr (.inr (.inr ⟨rfl, ?_⟩))
    have hf := I.wired.slots u (I.lt_of_link hlink)
    rw [Fits] at hf
    cases hst : (s.transList u).state with
    | idle =>
      rw [hst, FitsAs, hn] at hf
      cases hf.2.1
    | wait =>
      rw [hst, FitsAs, hlink] at hf
      obtain ⟨-, -, -, i, -, hl⟩ := hf
      cases hl
    | send =>
      rw [hst, FitsAs, hlink] at hf
      cases hf.2.1
    | recv =>
      rw [hst, FitsAs, hlink] at hf
      obtain ⟨-, -, i, c, -, -, -, hl⟩ := hf
      cases hl
    | done => rfl
  | collected =>
    rw [At, I.booked.taken, hlife] at hp
    split at hp
    · cases hp
    · cases hp

theorem Inv.lt_of_packet (I : s.Inv) (hn : (s.transList t).packet = some n) : t < s.maxRequests := by
  by_contra hge
  rw [(I.wired.beyond t (Nat.not_lt.mp hge)).2] at hn
  cases hn

theorem Inv.exists_at (I : s.Inv) (hn : (s.transList t).packet = some n) : ∃ p, s.At n p := by
  have hf := I.wired.slots t (I.lt_of_packet hn)
  rw [Fits] at hf
  cases hst : (s.transList t).state with
  | idle =>
    rw [hst, FitsAs, hn] at hf
    cases hf.2.1
  | wait =>
    rw [hst] at hf
    obtain ⟨-, -, -, i, -, hl⟩ := hf
    exact ⟨.waiting t i, hn, (I.wired.lists.mem _ t).mpr hl⟩
  | send =>
    rw [hst] at hf
    obtain ⟨-, -, -, i, c, -, -, -, hs⟩ := hf
    exact ⟨.sending t c, hn, hs⟩
  | recv =>
    rw [hst] at hf
    obtain ⟨-, -, i, c, -, -, -, hl⟩ := hf
    exact ⟨.receiving t c, hn, (I.wired.lists.mem _ t).mpr hl⟩
  | done =>
    rw [hst] at hf
    exact ⟨.done t, hn, (I.wired.lists.mem _ t).mpr hf.2.1⟩

theorem Inv.at_gone (I : s.Inv) (hn : ∀ t, (s.transList t).packet ≠ some n) (p : ReqPlace) :
    s.At n p ↔ p = if n < s.issued.length then .collected else .unissued := by
  have hlife := I.booked.gone n hn
  by_cases hlt : n < s.issued.length
  · rw [if_pos hlt] at hlife ⊢
    refine ⟨fun hp => ?_, fun hp => ?_⟩
    · cases p with
      | unissued => exact absurd hlt (Nat.not_lt.mpr hp)
      | waiting t i => exact absurd hp.1 (hn t)
      | sending t c => exact absurd hp.1 (hn t)
      | receiving t c => exact absurd hp.1 (hn t)
      | done t => exact absurd hp.1 (hn t)
      | collected => rfl
    · rw [hp, At, I.booked.taken]
      exact hlife
  · rw [if_neg hlt] at hlife ⊢
    refine ⟨fun hp => ?_, fun hp => ?_⟩
    · cases p with
      | unissued => rfl
      | waiting t i => exact absurd hp.1 (hn t)
      | sending t c => exact absurd hp.1 (hn t)
      | receiving t c => exact absurd hp.1 (hn t)
      | done t => exact absurd hp.1 (hn t)
      | collected =>
        rw [At, I.booked.taken, hlife] at hp
        cases hp
    · rw [hp]
      exact Nat.not_lt.mp hlt

theorem Inv.onePlace (I : s.Inv) : Places.Once s.At := by
  intro n
  by_cases h : ∃ t, (s.transList t).packet = some n
  · obtain ⟨t, hn⟩ := h
    obtain ⟨p, hp⟩ := I.exists_at hn
    refine ⟨p, hp, fun p' hp' => ?_⟩
    -- the state of the slot leaves one place
    rcases I.at_slot hn hp with ⟨i, rfl, h1, h2⟩ | ⟨c, rfl, h1, h2⟩ | ⟨c, rfl, h1, h2⟩ | ⟨rfl, h1⟩ <;>
      rcases I.at_slot hn hp' with ⟨j, rfl, h3, h4⟩ | ⟨d, rfl, h3, h4⟩ | ⟨d, rfl, h3, h4⟩ | ⟨rfl, h3⟩ <;>
      rw [h1] at h3 <;> cases h3
    · rw [Option.some.inj (h2.symm.trans h4)]
    · rw [Option.some.inj (h2.symm.trans h4)]
    · rw [Option.some.inj (h2.symm.trans h4)]
  · have hn : ∀ t, (s.transList t).packet ≠ some n := fun t ht => h ⟨t, ht⟩
    exact ⟨_, (I.at_gone hn _).mpr rfl, fun p hp => (I.at_gone hn p).mp hp⟩

/-- **The pool delivers each result once.**  The ids are positive numbers of an `int` and differ while their requests are
not collected; a request is in one place at a time; its life is to be added, to enter `doneList` once and to be collected
once, with its own tag, by its own id, and with a result of its serial number when one arrived; a connection refers to the
requests that are sent on it only. -/
structure Delivers (s : NCPool) : Prop where
  ids : ∀ q ∈ s.issued, 0 < q.id ∧ q.id < 2 ^ 31
  distinct : ∀ (n m : Nat) (q p : NCIssued), s.issued[n]? = some q → s.issued[m]? = some p →
    n ∉ s.collected.map (fun e => e.req) → m ∉ s.collected.map (fun e => e.req) → q.id = p.id → n = m
  onePlace : Places.Once s.At
  lives : ∀ n, ∃ a, reqLife s.history n = some a ∧ (a = .done ↔ ∃ t, s.At n (.done t)) ∧ (a = .collected ↔ s.At n .collected)
  once : (s.collected.map (fun e => e.req)).Nodup
  results : ∀ e ∈ s.collected, ∃ q, s.issued[e.req]? = some q ∧ e.tag = q.tag ∧ (e.asked = 0 ∨ e.asked = q.id) ∧
    ∀ k, e.result = .arrived k → k = q.sn
  sending : ∀ c y t, s.conns c = some y → y.sreq = some t → (s.transList t).state = .send ∧ (s.transList t).conn = some c
  receiving : ∀ c t, t ∈ s.lists (.conn c) → (s.transList t).state = .recv ∧ (s.transList t).conn = some c

theorem Inv.slot_of_issued (I : s.Inv) {q : NCIssued} (hq : s.issued[n]? = some q)
    (hn : n ∉ s.collected.map (fun e => e.req)) : ∃ t, (s.transList t).packet = some n := by
  by_contra h
  have hgone := I.booked.gone n (fun t ht => h ⟨t, ht⟩)
  rw [if_pos (List.getElem?_eq_some_iff.mp hq).1, ← I.booked.taken] at hgone
  exact hn hgone

theorem Inv.delivers (I : s.Inv) : s.Delivers := by
  refine ⟨fun q hq => ?_, fun n m q p hq hp hn hm hid => ?_, I.onePlace, fun n => ?_, I.booked.once, fun e he => ?_,
    fun c y t hc hy => ?_, fun c t ht => ?_⟩
  · obtain ⟨n, hlt, hn⟩ := List.getElem_of_mem hq
    have hq' : s.issued[n]? = some q := by rw [List.getElem?_eq_getElem hlt, hn]
    have hbound : 0 < q.id ∧ q.id ≤ maxReqId := by
      by_cases hc : n ∈ s.collected.map (fun e => e.req)
      · obtain ⟨e, he, rfl⟩ := List.mem_map.mp hc
        obtain ⟨p, hp, -, -, -, hb⟩ := I.booked.entry e he
        obtain rfl := Option.some.inj (hq'.symm.trans hp)
        exact hb
      · obtain ⟨t, ht⟩ := I.slot_of_issued hq' hc
        obtain ⟨p, hp, hid, hgen, -⟩ := I.booked.slot t n ht
        obtain rfl := Option.some.inj (hq'.symm.trans hp)
        rw [hid]
        exact id_range (I.lt_of_packet ht) hgen
    exact ⟨hbound.1, Int.lt_of_le_of_lt hbound.2 (by decide)⟩
  · obtain ⟨t, ht⟩ := I.slot_of_issued hq hn
    obtain ⟨u, hu⟩ := I.slot_of_issued hp hm
    obtain ⟨q', hq', hid', -⟩ := I.booked.slot t n ht
    obtain ⟨p', hp', hid'', -⟩ := I.booked.slot u m hu
    obtain rfl := Option.some.inj (hq.symm.trans hq')
    obtain rfl := Option.some.inj (hp.symm.trans hp')
    rw [hid', hid''] at hid
    -- the slot is the remainder of the id
    have hnat : t + (s.transList t).genId * s.maxRequests = u + (s.transList u).genId * s.maxRequests := by
      have h := (Int.add_left_inj 1).mp hid
      exact_mod_cast h
    have hmod := congrArg (fun k => k % s.maxRequests) hnat
    rw [Nat.add_mul_mod_self_right, Nat.add_mul_mod_self_right, Nat.mod_eq_of_lt (I.lt_of_packet ht),
      Nat.mod_eq_of_lt (I.lt_of_packet hu)] at hmod
    subst hmod
    exact Option.some.inj (ht.symm.trans hu)
  · by_cases h : ∃ t, (s.transList t).packet = some n
    · obtain ⟨t, ht⟩ := h
      obtain ⟨q, -, -, -, -, -, -, hlife⟩ := I.booked.slot t n ht
      refine ⟨_, hlife, ⟨fun hd => ?_, fun ⟨u, hu⟩ => ?_⟩, fun hc => ?_, fun hc => ?_⟩
      · split at hd
        · next hst =>
          have hf := I.wired.slots t (I.lt_of_packet ht)
          rw [Fits, hst] at hf
          exact ⟨t, ht, (I.wired.lists.mem _ t).mpr hf.2.1⟩
        · cases hd
      · rcases I.at_slot ht hu with ⟨i, h1, -⟩ | ⟨c, h1, -⟩ | ⟨c, h1, -⟩ | ⟨-, h1⟩
        · cases h1
        · cases h1
        · cases h1
        · rw [if_pos h1]
      · split at hc
        · cases hc
        · cases hc
      · rw [At, I.booked.taken, hlife] at hc
        exact Option.some.inj hc
    · have hn : ∀ t, (s.transList t).packet ≠ some n := fun t ht => h ⟨t, ht⟩
      refine ⟨_, I.booked.gone n hn, ⟨fun hd => ?_, fun ⟨u, hu⟩ => absurd hu.1 (hn u)⟩, ?_⟩
      · split at hd
        · cases hd
        · cases hd
      · rw [I.at_gone hn]
        split
        · exact ⟨fun _ => rfl, fun _ => rfl⟩
        · exact ⟨fun h => (by cases h), fun h => (by cases h)⟩
  · obtain ⟨q, h1, h2, h3, h4, -⟩ := I.booked.entry e he
    exact ⟨q, h1, h2, h3, h4⟩
  · refine (I.wired.sreq c t ?_).2
    rw [sreqOf, hc]
    exact hy
  · exact (I.state_of_link ((I.wired.lists.mem _ t).mp ht)).1 c rfl

instance decidableAbortable (s : NCPool) (t : Nat) : Decidable (s.Abortable t) :=
  inferInstanceAs (Decidable (¬ _ ∧ ¬ _))

instance decidableStepOk (s : NCPool) : ∀ a, Decidable (s.StepOk a)
  | .serverTimer i _ _ _ =>
    inferInstanceAs (Decidable (s.lists (.server i) ≠ [] → 0 < (s.serverList i).reqRemain →
      (s.serverList i).idleList.head?.bind s.sreqOf = none))
  | .abortRequest reqId => inferInstanceAs (Decidable (∀ t, t < s.maxRequests → s.id2Req reqId = some t → s.Abortable t))
  | .cancelRequest reqId => inferInstanceAs (Decidable (∀ t, t < s.maxRequests → s.id2Req reqId = some t → s.Abortable t))
  | .abortAllRequest type =>
    inferInstanceAs (Decidable (type < 16 → ∀ t, t < s.maxRequests →
      (type &&& 7) &&& (s.transList t).state.code ≠ 0 → s.Abortable t))
  | .cancelAllRequest type =>
    inferInstanceAs (Decidable (type < 16 → ∀ t, t < s.maxRequests →
      type &&& (s.transList t).state.code ≠ 0 → s.Abortable t))
  | .addServer .. => isTrue trivial
  | .addRequest .. => isTrue trivial
  | .input .. => isTrue trivial
  | .output .. => isTrue trivial
  | .hangup .. => isTrue trivial
  | .timer .. => isTrue trivial
  | .getResult .. => isTrue trivial

theorem inv_of_reachableMeeting (h : ncPoolMachine.ReachableMeeting StepOk s) : s.Inv := by
  refine ncPoolMachine.reachableMeeting_induct (fun s hs => ?_) (fun s a s' hs hok hst => Inv.step hs hok hst) h
  obtain ⟨ms, mr, hmr, rfl⟩ := hs
  exact inv_create hmr

/-- **Each result is delivered once** in every run whose events meet the condition. -/
theorem ncPoolMachine_delivers (h : ncPoolMachine.ReachableMeeting StepOk s) : s.Delivers :=
  (inv_of_reachableMeeting h).delivers

def twoResults : List PoolEvent :=
  [.addServer false 2 1, .addRequest (some 0) 70 (.ok 5), .addRequest (some 0) 80 (.ok 6),
    .serverTimer 0 9 .done (.connected true), .serverTimer 0 10 .done (.connected true),
    .serverTimer 0 10 .moreData (.connected true), .output 9 .done, .input 9 (.result 6), .getResult 3,
    .input 9 (.result 5)]

theorem ncPoolMachine_delivers_twoResults : ∃ s, ncPoolMachine.run (create 1 2) twoResults = some s ∧
    s.collected = [⟨1, 3, 80, .arrived 6⟩] ∧ s.lists .done = [1] ∧ s.Delivers := by
  have hmeets : ncPoolMachine.RunMeets StepOk (create 1 2) twoResults := by decide
  have hrun : (ncPoolMachine.run (create 1 2) twoResults).map (fun s => (s.collected, s.lists .done)) =
      some ([⟨1, 3, 80, .arrived 6⟩], [1]) := by decide
  obtain ⟨s, hs, hval⟩ := Option.map_eq_some_iff.mp hrun
  obtain ⟨h1, h2⟩ := Prod.mk.inj hval
  exact ⟨s, hs, h1, h2, ncPoolMachine_delivers ⟨_, twoResults, ⟨1, 2, by decide, rfl⟩, hmeets, hs⟩⟩

/-- **A request that cannot be encoded is finished twice** when its id is aborted: it keeps its server. -/
theorem ncPoolMachine_finishedTwice : ∃ s, ncPoolMachine.run (create 1 1)
    [.addServer false 1 0, .addRequest (some 0) 7 (.error (-5)), .abortRequest 2] = some s ∧
      s.history = [(0, .finish), (0, .finish), (0, .add)] ∧ ¬ s.Delivers := by
  have hrun : (ncPoolMachine.run (create 1 1)
      [.addServer false 1 0, .addRequest (some 0) 7 (.error (-5)), .abortRequest 2]).map (fun s => s.history) =
      some [(0, .finish), (0, .finish), (0, .add)] := by decide
  obtain ⟨s, hs, hval⟩ := Option.map_eq_some_iff.mp hrun
  refine ⟨s, hs, hval, fun hd => ?_⟩
  obtain ⟨a, ha, -⟩ := hd.lives 0
  rw [hval] at ha
  cases ha

end NCPool
end Dtc
