import DtcServer.ClientAsync
/-!
# ClientAsyncRun — one result for each packet of an asynchronous client

`QueueResult` records the time of `curReq`, not of the request that it answers.
-/
namespace Dtc

namespace ResultPacket

variable {p : ResultPacket} {r : SendMsg}

def Sized (p : ResultPacket) : Prop := p.bytes = p.v.flatten.length

theorem send_spec (hp : p.Sized) (hr : r.Possible p.v) : (p.send r).2.1.Sized ∧
    (p.send r).2.2 ++ (p.send r).2.1.v.flatten = p.v.flatten ∧ ((p.send r).1 = .done → (p.send r).2.1.v.flatten = []) := by
  unfold send
  split
  · next h0 => exact ⟨hp, rfl, fun _ => by rw [h0]; rfl⟩
  cases r with
  | again => exact ⟨hp, rfl, nofun⟩
  | error => exact ⟨hp, rfl, nofun⟩
  | sent rv =>
    dsimp only
    unfold Sized at hp
    split
    · exact ⟨hp, rfl, nofun⟩
    split
    · have hle := hr.1
      have htake : p.v.flatten.take rv = p.v.flatten := List.take_of_length_le (by omega)
      refine ⟨rfl, ?_, fun _ => rfl⟩
      rw [htake]
      simp
    · have hflat := Vectors.advance_flatten p.v rv
      refine ⟨?_, Vectors.advance_flatten_take p.v rv, fun hd => ?_⟩
      · show p.bytes - rv = (Vectors.advance rv p.v).2.flatten.length
        rw [hflat, List.length_drop, hp]
      · dsimp only at hd ⊢
        split at hd
        · next h0 =>
          rw [h0]
          rfl
        · cases hd

end ResultPacket

namespace CClientAsync

variable {s s' : CClientAsync} {ids : List Nat} {ps : List ResultPacket} {n : Nat} {x : Bool × CClientAsync}

def left (ps : List ResultPacket) : List UInt8 := ps.flatMap fun p => p.v.flatten

def waiting (n : Nat) : CAsyncInfo := { req := some n }

def finished (p : ResultPacket) : CAsyncInfo := { pkt := some p }

@[simp] theorem left_nil : left [] = [] := rfl

@[simp] theorem left_cons (p : ResultPacket) : left (p :: ps) = p.v.flatten ++ left ps := List.flatMap_cons

@[simp] theorem left_append (qs : List ResultPacket) : left (ps ++ qs) = left ps ++ left qs := List.flatMap_append

/-- **The lists of a live connection**: the requests that wait, in the order they came, and the results that are made. -/
structure Live (s : CClientAsync) (ids : List Nat) (ps : List ResultPacket) : Prop where
  waits : s.waitList = ids.map waiting
  done : s.doneList = ps.map finished
  owned : s.owned = ids
  sized : ∀ p ∈ s.curRes.toList ++ ps, p.Sized
  counted : s.numReq = ids.length + ps.length + s.curRes.toList.length
  whole : s.completed.flatMap Prod.snd = s.wire ++ left (s.curRes.toList ++ ps)
  answered : s.received.Perm (s.completed.map Prod.fst ++ ids)
  alive : ∀ n ∈ ids, n ∉ s.deleted

theorem useOf_alive (hn : n ∉ s.deleted) : s.useOf (some n) = none := if_neg hn

/-! ## The sending of results -/

theorem responseOne_spec {p : ResultPacket} {r : SendMsg} (hc : s.curRes = some p) (hp : p.Sized)
    (h : s.responseOne r = some x) : ∃ c w k, x.2 = { s with curRes := c, wire := w, numReq := k } ∧
      k = s.numReq - 1 + c.toList.length ∧ (∀ q ∈ c.toList, q.Sized) ∧ w ++ left c.toList = s.wire ++ p.v.flatten := by
  unfold responseOne at h
  rw [hc] at h
  dsimp only at h
  split at h
  · next hr =>
    obtain ⟨hsize, hsplit, hdone⟩ := ResultPacket.send_spec hp hr
    generalize p.send r = e at h hsize hsplit hdone
    obtain ⟨result, q, sent⟩ := e
    dsimp only at hsize hsplit hdone
    cases result with
    | moreData =>
      obtain rfl := Option.some.inj h
      exact ⟨some q, s.wire ++ sent, s.numReq, rfl, by simp, by simpa using hsize, by simp [hsplit]⟩
    | done =>
      obtain rfl := Option.some.inj h
      rw [hdone rfl, List.append_nil] at hsplit
      exact ⟨none, s.wire ++ sent, s.numReq - 1, rfl, by simp, by simp, by simp [hsplit]⟩
    | error =>
      obtain rfl := Option.some.inj h
      exact ⟨some q, s.wire ++ sent, s.numReq, rfl, by simp, by simpa using hsize, by simp [hsplit]⟩
  · cases h

theorem drain_spec : ∀ (ps : List ResultPacket) (sends : List SendMsg) (s : CClientAsync), (∀ p ∈ ps, p.Sized) →
    s.curRes = none → s.doneList = ps.map finished → drain (ps.map finished) sends s = some x →
    ∃ c qs w k, x.2 = { s with curRes := c, doneList := qs.map finished, wire := w, numReq := k } ∧
      k = s.numReq - ps.length + qs.length + c.toList.length ∧ (∀ q ∈ c.toList ++ qs, q.Sized) ∧
      w ++ left (c.toList ++ qs) = s.wire ++ left ps
  | [], _, s, _, hc, hd, h => by
    obtain rfl := Option.some.inj h
    refine ⟨none, [], s.wire, s.numReq, ?_, by simp, by simp, rfl⟩
    obtain ⟨⟩ := s
    cases hc
    cases hd
    rfl
  | p :: ps, [], s, _, _, _, h => by cases h
  | p :: ps, r :: sends, s, hp, hc, hd, h => by
    obtain ⟨y, hy, h⟩ := Option.bind_eq_some_iff.mp h
    obtain ⟨c, w, k, hs, hk, hsize, hw⟩ := responseOne_spec (p := p) rfl (hp p List.mem_cons_self) hy
    have hrest : ∀ q ∈ ps, q.Sized := fun q hq => hp q (List.mem_cons_of_mem p hq)
    have hnum : (s.nextResult (finished p) (ps.map finished)).numReq = s.numReq := Int.sub_add_cancel s.numReq 1
    rw [hnum] at hk
    split at h
    · next hcond =>
      have hnone : y.2.curRes = none := by simpa using hcond.2
      obtain ⟨c', qs, w', k', e, hk', hsize', hw'⟩ := drain_spec ps sends y.2 hrest hnone (by rw [hs]; rfl) h
      rw [hs] at hnone e hk' hw'
      obtain rfl : c = none := hnone
      refine ⟨c', qs, w', k', e, ?_, hsize', ?_⟩
      · simp only [Option.toList_none, List.length_nil] at hk
        rw [hk', hk, List.length_cons]
        dsimp only
        omega
      · rw [hw', left_cons, ← List.append_assoc]
        exact congrArg (· ++ left ps) ((List.append_nil w).symm.trans hw)
    · obtain rfl := Option.some.inj h
      refine ⟨c, ps, w, k, hs, ?_, ?_, ?_⟩
      · rw [hk, List.length_cons]
        omega
      · intro q hq
        exact (List.mem_append.mp hq).elim (hsize q) (hrest q)
      · rw [left_append, left_cons, ← List.append_assoc, ← List.append_assoc]
        exact congrArg (· ++ left ps) hw

theorem Live.response {sends : List SendMsg} (L : s.Live ids ps) (h : s.response sends = some x) :
    ∃ c d w k qs, x.2 = { s with curRes := c, doneList := d, wire := w, numReq := k } ∧ x.2.Live ids qs := by
  have hspec : ∃ c qs w k, x.2 = { s with curRes := c, doneList := qs.map finished, wire := w, numReq := k } ∧
      k = s.numReq - s.curRes.toList.length - ps.length + qs.length + c.toList.length ∧ (∀ q ∈ c.toList ++ qs, q.Sized) ∧
      w ++ left (c.toList ++ qs) = s.wire ++ left (s.curRes.toList ++ ps) := by
    have hps : ∀ p ∈ ps, p.Sized := fun p hp => L.sized p (List.mem_append_right _ hp)
    cases hc : s.curRes with
    | none =>
      unfold CClientAsync.response at h
      rw [hc] at h
      dsimp only at h
      rw [L.done] at h
      obtain ⟨c, qs, w, k, e, hk, hsize, hw⟩ := drain_spec ps sends s hps hc L.done h
      exact ⟨c, qs, w, k, e, by simpa using hk, hsize, hw⟩
    | some p =>
      unfold CClientAsync.response at h
      rw [hc] at h
      cases sends with
      | nil => cases h
      | cons r sends =>
        obtain ⟨y, hy, h⟩ := Option.bind_eq_some_iff.mp h
        have hp : p.Sized := L.sized p (by simp [hc])
        obtain ⟨c, w, k, hs, hk, hsize, hw⟩ := responseOne_spec hc hp hy
        have hdone : y.2.doneList = ps.map finished := by
          rw [hs]
          exact L.done
        split at h
        · next hcond =>
          have hnone : y.2.curRes = none := by simpa using hcond.2
          rw [hdone] at h
          obtain ⟨c', qs, w', k', e, hk', hsize', hw'⟩ := drain_spec ps sends y.2 hps hnone hdone h
          rw [hs] at hnone e hk' hw'
          obtain rfl : c = none := hnone
          refine ⟨c', qs, w', k', e, ?_, hsize', ?_⟩
          · simp only [Option.toList_none, List.length_nil] at hk
            rw [hk', hk]
            simp
          · rw [hw']
            simp only [Option.toList, left_nil, List.append_nil] at hw
            simp [hw]
        · obtain rfl := Option.some.inj h
          refine ⟨c, ps, w, k, ?_, ?_, ?_, ?_⟩
          · rw [hs, ← L.done]
          · rw [hk]
            simp
          · intro q hq
            exact (List.mem_append.mp hq).elim (hsize q) (hps q)
          · rw [left_append, ← List.append_assoc, hw]
            simp
  obtain ⟨c, qs, w, k, e, hk, hsize, hw⟩ := hspec
  refine ⟨c, _, w, k, qs, e, ?_⟩
  rw [e]
  refine ⟨L.waits, rfl, L.owned, hsize, ?_, L.whole.trans hw.symm, L.answered, L.alive⟩
  have := L.counted
  dsimp only
  omega

/-! ## The end of a connection -/

theorem foldl_finished : ∀ (ps : List ResultPacket) (s : CClientAsync),
    ∃ k, (ps.map finished).foldl deleteInfo s = { s with numReq := k }
  | [], s => ⟨s.numReq, rfl⟩
  | p :: ps, s => foldl_finished ps (s.deleteInfo (finished p))

theorem foldl_waiting : ∀ (ids : List Nat) (s : CClientAsync), s.owned = ids → (∀ n ∈ ids, n ∉ s.deleted) →
    ∃ k, (ids.map waiting).foldl deleteInfo s = { s with numReq := k, owned := [] }
  | [], s, ho, _ => by
    refine ⟨s.numReq, ?_⟩
    obtain ⟨⟩ := s
    cases ho
    rfl
  | n :: ids, s, ho, ha => by
    have hfault : s.fault.or (s.useOf (some n)) = s.fault := by
      rw [useOf_alive (ha n List.mem_cons_self)]
      exact Option.or_none
    have hone : s.deleteInfo (waiting n) = { s with numReq := s.numReq - 1, owned := ids } := by
      show { s with numReq := s.numReq - 1, owned := s.owned.erase n, fault := s.fault.or (s.useOf (some n)) } = _
      rw [hfault, ho, List.erase_cons_head]
    obtain ⟨k, hk⟩ := foldl_waiting ids { s with numReq := s.numReq - 1, owned := ids } rfl
      (fun m hm => ha m (List.mem_cons_of_mem n hm))
    refine ⟨k, ?_⟩
    rw [List.map_cons, List.foldl_cons, hone, hk]

theorem Live.close (L : s.Live ids ps) :
    ∃ k, s.close = { s with doneList := [], waitList := [], gone := true, numReq := k, owned := [] } := by
  unfold CClientAsync.close
  rw [L.done, L.waits, List.foldl_append]
  obtain ⟨k, hk⟩ := foldl_finished ps s
  obtain ⟨k', hk'⟩ := foldl_waiting ids { s with numReq := k } L.owned L.alive
  refine ⟨k', ?_⟩
  rw [hk, hk']

/-! ## What holds of a run -/

structure Inv (s : CClientAsync) : Prop where
  fault : s.fault = none
  fresh : ∀ n ∈ s.received ++ (s.deleted ++ s.dispatched), n < s.created
  once : s.received.Nodup
  rest : s.dispatching = false → s.curReq = none
  live : s.gone = false → ∃ ids ps, s.Live ids ps
  late : s.gone = true → s.owned = [] ∧ s.dispatching = false
  sent : s.wire <+: s.completed.flatMap Prod.snd
  answers : (s.completed.map Prod.fst).Subperm s.received

/-- **What is said of a connection**: nothing is used that is not there; the counter is right; every packet that was received
has its result made once or waits, and what is sent are whole results in the order they were made. -/
structure Ok (s : CClientAsync) : Prop where
  used : s.fault = none
  counted : s.gone = false → s.numReq = s.waitList.length + s.doneList.length + s.curRes.toList.length
  answered : s.gone = false → s.received.Perm (s.completed.map Prod.fst ++ s.waitList.filterMap CAsyncInfo.req)
  atMostOnce : s.received.Nodup ∧ (s.completed.map Prod.fst).Subperm s.received
  whole : s.gone = false →
    s.completed.flatMap Prod.snd = s.wire ++ left (s.curRes.toList ++ s.doneList.filterMap CAsyncInfo.pkt)
  inOrder : s.wire <+: s.completed.flatMap Prod.snd

/-- **There is a request in `curReq`** when a result is made. -/
def InTime (s : CClientAsync) : AsyncAction → Prop
  | .inputNotify d _ _ => d ≠ .dataError ∧ d ≠ .prepareFails
  | .replyNotify n _ _ => n ∈ s.owned → ∃ m ∈ s.curReq, m ∉ s.deleted
  | _ => True

instance (s : CClientAsync) : ∀ a, Decidable (s.InTime a)
  | .inputNotify _ _ _ => inferInstanceAs (Decidable (_ ∧ _))
  | .taskDispatched => isTrue trivial
  | .replyNotify _ _ _ => inferInstanceAs (Decidable (_ → _))
  | .outputNotify _ => isTrue trivial
  | .hangupNotify => isTrue trivial

theorem Inv.ok (I : s.Inv) : s.Ok := by
  refine ⟨I.fault, fun hg => ?_, fun hg => ?_, ⟨I.once, I.answers⟩, fun hg => ?_, I.sent⟩
  · obtain ⟨ids, ps, L⟩ := I.live hg
    rw [L.counted, L.waits, L.done, List.length_map, List.length_map]
  · obtain ⟨ids, ps, L⟩ := I.live hg
    have hids : (ids.map waiting).filterMap CAsyncInfo.req = ids := by
      rw [List.filterMap_map]
      exact List.filterMap_some
    rw [L.waits, hids]
    exact L.answered
  · obtain ⟨ids, ps, L⟩ := I.live hg
    have hps : (ps.map finished).filterMap CAsyncInfo.pkt = ps := by
      rw [List.filterMap_map]
      exact List.filterMap_some
    rw [L.done, hps]
    exact L.whole

theorem Live.inv (L : s.Live ids ps) (hfault : s.fault = none)
    (hfresh : ∀ n ∈ s.received ++ (s.deleted ++ s.dispatched), n < s.created) (honce : s.received.Nodup)
    (hrest : s.dispatching = false → s.curReq = none) (hg : s.gone = false) : s.Inv where
  fault := hfault
  fresh := hfresh
  once := honce
  rest := hrest
  live _ := ⟨ids, ps, L⟩
  late h := by
    rw [hg] at h
    cases h
  sent := by
    rw [L.whole]
    exact List.prefix_append _ _
  answers := (List.sublist_append_left _ ids).subperm.trans L.answered.symm.subperm

theorem Inv.response {sends : List SendMsg} (I : s.Inv) (hg : s.gone = false) (h : s.response sends = some x) :
    x.2.Inv ∧ x.2.gone = false ∧ x.2.dispatching = s.dispatching := by
  obtain ⟨ids, ps, L⟩ := I.live hg
  obtain ⟨c, d, w, k, qs, e, L'⟩ := L.response h
  have hinv : x.2.Inv := by
    rw [e] at L' ⊢
    exact L'.inv I.fault I.fresh I.once I.rest hg
  rw [e]
  exact ⟨e ▸ hinv, hg, rfl⟩

theorem Inv.close (I : s.Inv) (hg : s.gone = false) (hd : s.dispatching = false) : s.close.Inv := by
  obtain ⟨ids, ps, L⟩ := I.live hg
  obtain ⟨k, e⟩ := L.close
  rw [e]
  exact ⟨I.fault, I.fresh, I.once, I.rest, nofun, fun _ => ⟨rfl, hd⟩, I.sent, I.answers⟩

theorem Inv.discard (I : s.Inv) (hg : s.gone = false) (hd : s.dispatching = false) :
    ({ s with curReq := none, created := s.created + 1, deleted := s.deleted ++ [s.created] } : CClientAsync).close.Inv := by
  obtain ⟨ids, ps, L⟩ := I.live hg
  refine Inv.close (@Live.inv _ ids ps ?_ I.fault (fun n hn => ?_) I.once (fun _ => rfl) hg) hg hd
  · refine ⟨L.waits, L.done, L.owned, L.sized, L.counted, L.whole, L.answered, fun n hn hm => ?_⟩
    rcases List.mem_append.mp hm with hm | hm
    · exact L.alive n hn hm
    · have hlt := I.fresh n (List.mem_append_left _ (L.answered.mem_iff.mpr (List.mem_append_right _ hn)))
      rw [List.mem_singleton.mp hm] at hlt
      exact Nat.lt_irrefl _ hlt
  · have hold := I.fresh n
    simp only [List.mem_append, List.mem_singleton] at hn hold
    dsimp only
    rcases hn with hn | (hn | rfl) | hn
    · exact Nat.lt_succ_of_lt (hold (.inl hn))
    · exact Nat.lt_succ_of_lt (hold (.inr (.inl hn)))
    · exact Nat.lt_succ_self _
    · exact Nat.lt_succ_of_lt (hold (.inr (.inr hn)))

theorem Inv.dispatch (I : s.Inv) (hg : s.gone = false) :
    ({ s with
      curReq := some s.created, created := s.created + 1, numReq := s.numReq + 1
      waitList := s.waitList ++ [{ req := some s.created }], received := s.received ++ [s.created]
      owned := s.owned ++ [s.created], dispatched := s.dispatched ++ [s.created], dispatching := true } : CClientAsync).Inv := by
  obtain ⟨ids, ps, L⟩ := I.live hg
  have hnew : s.created ∉ s.received ++ (s.deleted ++ s.dispatched) := fun hm => Nat.lt_irrefl _ (I.fresh _ hm)
  simp only [List.mem_append, not_or] at hnew
  refine @Live.inv _ (ids ++ [s.created]) ps ?_ I.fault (fun n hn => ?_) ?_ nofun hg
  · refine ⟨?_, L.done, ?_, L.sized, ?_, L.whole, ?_, fun n hn => ?_⟩
    · rw [L.waits, List.map_append]
      rfl
    · rw [L.owned]
    · have := L.counted
      simp only [List.length_append, List.length_singleton]
      omega
    · rw [← List.append_assoc]
      exact L.answered.append_right _
    · rcases List.mem_append.mp hn with hn | hn
      · exact L.alive n hn
      · rw [List.mem_singleton.mp hn]
        exact hnew.2.1
  · have hold := I.fresh n
    simp only [List.mem_append, List.mem_singleton] at hn hold
    dsimp only
    rcases hn with (hn | rfl) | hn | hn | rfl
    · exact Nat.lt_succ_of_lt (hold (.inl hn))
    · exact Nat.lt_succ_self _
    · exact Nat.lt_succ_of_lt (hold (.inr (.inl hn)))
    · exact Nat.lt_succ_of_lt (hold (.inr (.inr hn)))
    · exact Nat.lt_succ_self _
  · exact List.nodup_append.mpr ⟨I.once, List.pairwise_singleton _ _, fun a ha b hb => by
      rintro rfl
      exact hnew.1 (List.mem_singleton.mp hb ▸ ha)⟩

theorem eraseP_waiting (n : Nat) : ∀ ids : List Nat,
    (ids.map waiting).eraseP (fun info => info.req == some n) = (ids.erase n).map waiting
  | [] => rfl
  | m :: ids => by
    rw [List.map_cons, List.eraseP_cons, List.erase_cons]
    have hreq : ((waiting m).req == some n) = (m == n) := rfl
    rw [hreq]
    cases m == n with
    | true => rfl
    | false =>
      simp only [Bool.false_eq_true, if_false, List.map_cons, eraseP_waiting n ids, cond_false]

theorem Live.complete (L : s.Live ids ps) (honce : s.received.Nodup) (hn : n ∈ ids) (v : List (List UInt8)) :
    ({ s with
      waitList := s.waitList.eraseP fun info => info.req == some n
      doneList := s.doneList ++ [{ pkt := some (.encodeResult v) }]
      owned := s.owned.erase n
      deleted := s.deleted ++ [n]
      completed := s.completed ++ [(n, v.flatten)] } : CClientAsync).Live (ids.erase n) (ps ++ [.encodeResult v]) := by
  have hnd : ids.Nodup := (List.nodup_append.mp (L.answered.nodup_iff.mp honce)).2.1
  refine ⟨?_, ?_, ?_, ?_, ?_, ?_, ?_, fun m hm => ?_⟩
  · rw [L.waits]
    exact eraseP_waiting n ids
  · rw [L.done, List.map_append]
    rfl
  · rw [L.owned]
  · rw [← List.append_assoc]
    intro p hp
    rcases List.mem_append.mp hp with hp | hp
    · exact L.sized p hp
    · rw [List.mem_singleton.mp hp]
      rfl
  · have hlen := List.length_erase_of_mem hn
    have hpos := List.length_pos_of_mem hn
    have := L.counted
    simp only [List.length_append, List.length_singleton]
    omega
  · have hwhole := L.whole
    simp only [List.flatMap_append, left_append] at hwhole ⊢
    rw [hwhole]
    simp [ResultPacket.encodeResult]
  · rw [List.map_append, List.append_assoc]
    exact L.answered.trans ((List.perm_cons_erase hn).append_left _)
  · obtain ⟨hne, hm⟩ := hnd.mem_erase_iff.mp hm
    rw [List.mem_append, List.mem_singleton, not_or]
    exact ⟨L.alive m hm, hne⟩

theorem Inv.replyNotify {v : List (List UInt8)} {sends : List SendMsg} (I : s.Inv) (hn : n ∈ s.dispatched)
    (hin : n ∈ s.owned → ∃ m ∈ s.curReq, m ∉ s.deleted) (h : s.replyNotify n v sends = some s') : s'.Inv := by
  have hlt := I.fresh n (by simp [hn])
  have hfresh : ∀ m ∈ s.received ++ (s.deleted ++ [n] ++ s.dispatched), m < s.created := by
    intro m hm
    have hold := I.fresh m
    simp only [List.mem_append, List.mem_singleton] at hm hold
    rcases hm with hm | (hm | rfl) | hm
    · exact hold (.inl hm)
    · exact hold (.inr (.inl hm))
    · exact hlt
    · exact hold (.inr (.inr hm))
  unfold CClientAsync.replyNotify at h
  by_cases ho : n ∈ s.owned
  · have hg : s.gone = false := by
      by_contra hg
      rw [(I.late (by simpa using hg)).1] at ho
      cases ho
    obtain ⟨ids, ps, L⟩ := I.live hg
    have hids : n ∈ ids := L.owned ▸ ho
    obtain ⟨m, hm, halive⟩ := hin ho
    have huse : (s.useOf s.curReq).or (s.useOf (some n)) = none := by
      rw [Option.mem_def.mp hm, useOf_alive halive, useOf_alive (L.alive n hids)]
      rfl
    have hany : (s.waitList.any fun info => info.req == some n) = true := by
      rw [L.waits, List.any_eq_true]
      exact ⟨waiting n, List.mem_map_of_mem hids, by simp [waiting]⟩
    rw [if_pos ho, if_pos hany, CClientAsync.queueResult, huse] at h
    obtain ⟨x, hx, rfl⟩ := Option.map_eq_some_iff.mp h
    have L' := L.complete I.once hids v
    exact (Inv.response (L'.inv I.fault hfresh I.once I.rest hg) hg hx).1
  · rw [if_neg ho] at h
    obtain rfl := Option.some.inj h
    refine ⟨I.fault, hfresh, I.once, I.rest, fun hg => ?_, I.late, I.sent, I.answers⟩
    obtain ⟨ids, ps, L⟩ := I.live hg
    refine ⟨ids, ps, L.waits, L.done, L.owned, L.sized, L.counted, L.whole, L.answered, fun m hm hd => ?_⟩
    rcases List.mem_append.mp hd with hd | hd
    · exact L.alive m hm hd
    · rw [List.mem_singleton.mp hd] at hm
      exact ho (L.owned ▸ hm)

theorem step_inv {a : AsyncAction} (I : s.Inv) (hin : s.InTime a) (h : s.step a = some s') : s'.Inv := by
  cases a with
  | inputNotify d v sends =>
    obtain ⟨⟨-, hg, hd⟩, h⟩ := Option.ite_none_right_eq_some.mp h
    unfold recvRequest at h
    rw [I.rest hd] at h
    cases d with
    | fatalError =>
      obtain rfl := Option.some.inj h
      exact I.discard hg hd
    | waitData =>
      obtain rfl := Option.some.inj h
      exact I.discard hg hd
    | dataError => exact absurd rfl hin.1
    | prepareFails => exact absurd rfl hin.2
    | done =>
      obtain rfl := Option.some.inj h
      exact I.dispatch hg
  | taskDispatched =>
    obtain ⟨-, h⟩ := Option.ite_none_right_eq_some.mp h
    obtain rfl := Option.some.inj h
    refine ⟨I.fault, I.fresh, I.once, fun _ => rfl, fun hg => ?_, fun hg => ⟨(I.late hg).1, rfl⟩, I.sent, I.answers⟩
    obtain ⟨ids, ps, L⟩ := I.live hg
    exact ⟨ids, ps, L.waits, L.done, L.owned, L.sized, L.counted, L.whole, L.answered, L.alive⟩
  | replyNotify n v sends =>
    obtain ⟨⟨-, hn, -⟩, h⟩ := Option.ite_none_right_eq_some.mp h
    exact I.replyNotify hn hin h
  | outputNotify sends =>
    obtain ⟨⟨-, hg, hd⟩, h⟩ := Option.ite_none_right_eq_some.mp h
    obtain ⟨x, hx, rfl⟩ := Option.map_eq_some_iff.mp h
    obtain ⟨I', hg', hd'⟩ := I.response hg hx
    split
    · exact I'
    · exact I'.close hg' (hd'.trans hd)
  | hangupNotify =>
    obtain ⟨⟨-, hg, hd⟩, h⟩ := Option.ite_none_right_eq_some.mp h
    obtain rfl := Option.some.inj h
    exact I.close hg hd

theorem step_fault {a : AsyncAction} (hin : ¬ s.InTime a) (h : s.step a = some s') : s'.fault ≠ none := by
  cases a with
  | inputNotify d v sends =>
    obtain ⟨-, h⟩ := Option.ite_none_right_eq_some.mp h
    cases d with
    | fatalError => exact absurd ⟨nofun, nofun⟩ hin
    | waitData => exact absurd ⟨nofun, nofun⟩ hin
    | dataError =>
      obtain rfl := Option.some.inj h
      exact nofun
    | prepareFails =>
      obtain rfl := Option.some.inj h
      exact nofun
    | done => exact absurd ⟨nofun, nofun⟩ hin
  | replyNotify n v sends =>
    obtain ⟨-, h⟩ := Option.ite_none_right_eq_some.mp h
    unfold InTime at hin
    rw [Classical.not_imp] at hin
    obtain ⟨ho, hno⟩ := hin
    unfold CClientAsync.replyNotify CClientAsync.queueResult at h
    rw [if_pos ho] at h
    split at h
    · have huse : ∃ f, (s.useOf s.curReq).or (s.useOf (some n)) = some f := by
        cases hc : s.curReq with
        | none => exact ⟨.noRequest, rfl⟩
        | some m =>
          have hdel : s.useOf (some m) = some .deletedRequest := by
            apply if_pos
            by_contra hm
            exact hno ⟨m, hc, hm⟩
          rw [hdel]
          exact ⟨_, rfl⟩
      obtain ⟨f, hf⟩ := huse
      rw [hf] at h
      obtain rfl := Option.some.inj h
      exact nofun
    · obtain rfl := Option.some.inj h
      exact nofun
  | taskDispatched => exact absurd trivial hin
  | outputNotify sends => exact absurd trivial hin
  | hangupNotify => exact absurd trivial hin

theorem inv_start : ({} : CClientAsync).Inv := by
  refine @Live.inv _ [] [] ⟨rfl, rfl, rfl, ?_, rfl, rfl, List.Perm.refl _, nofun⟩ rfl nofun List.nodup_nil
    (fun _ => rfl) rfl
  intro p hp
  cases hp

theorem inv_of_inTime (h : machine.ReachableMeeting InTime s) : s.Inv := by
  refine Machine.reachableMeeting_induct machine ?_ ?_ h
  · rintro s rfl
    exact inv_start
  · intro s a s' I hin hst
    exact step_inv I hin hst

end CClientAsync

open CClientAsync

/-- **Every packet has one result, in order, and the counter is right**, in every run whose results are made while there is a
request in `curReq`; any other step uses a request that is not there.  A reply after the end only deletes its task. -/
theorem clientAsync_answers_iff {s : CClientAsync} (h : machine.ReachableMeeting InTime s) :
    s.Ok ∧ (∀ a s', s.step a = some s' → (s'.Ok ↔ s.InTime a)) ∧
      ∀ n v sends s', s.gone = true → s.step (.replyNotify n v sends) = some s' →
        s' = { s with deleted := s.deleted ++ [n] } := by
  have I := inv_of_inTime h
  refine ⟨I.ok, fun a s' hst => ⟨fun hok => ?_, fun hin => (step_inv I hin hst).ok⟩, fun n v sends s' hg hst => ?_⟩
  · by_contra hin
    exact step_fault hin hst hok.used
  · obtain ⟨-, hst⟩ := Option.ite_none_right_eq_some.mp hst
    have hno : n ∉ s.owned := by simp [(I.late hg).1]
    unfold CClientAsync.replyNotify at hst
    rw [if_neg hno] at hst
    exact (Option.some.inj hst).symm

/-- A request that is answered while it is handed over, and sent in two pieces. -/
def answeredAtOnce : List AsyncAction :=
  [.inputNotify .done [] [], .replyNotify 0 [[1, 2], [3]] [.sent 1], .taskDispatched, .outputNotify [.sent 2]]

theorem clientAsync_answers_iff_atOnce : ∃ s : CClientAsync, s.wire = [1, 2, 3] ∧ s.numReq = 0 ∧ s.Ok := by
  have hrun : (machine.run {} answeredAtOnce).map (fun s => (s.wire, s.numReq)) = some ([1, 2, 3], 0) := by decide
  obtain ⟨s, hs, he⟩ := Option.map_eq_some_iff.mp hrun
  obtain ⟨hw, hk⟩ := Prod.mk.inj he
  exact ⟨s, hw, hk, (clientAsync_answers_iff ⟨{}, answeredAtOnce, rfl, by decide, hs⟩).1⟩

/-- **A reply behind `TaskDispatcher`** uses `NULL` as a request. -/
theorem clientAsync_noRequest : ∃ s, machine.Reachable s ∧ ¬ s.Ok := by
  have hrun : (machine.run {} [.inputNotify .done [] [], .taskDispatched, .replyNotify 0 [[1]] []]).map
      CClientAsync.fault = some (some .noRequest) := by decide
  obtain ⟨s, hs, he⟩ := Option.map_eq_some_iff.mp hrun
  refine ⟨s, ⟨{}, _, rfl, hs⟩, fun hok => ?_⟩
  rw [hok.used] at he
  cases he

end Dtc
