import DtcServer.NcPoolRun
import DtcServer.Tally
/-!
# NcPoolCounts — how the counters of the client's pool move with what they count

A counter and the number it stands for change together: `Steady` says that an operation leaves their difference alone.
-/
namespace Dtc
namespace NCPool

variable {s s' s'' : NCPool} {t u c i j n : Nat} {l : PoolList} {x : NCTransation} {st : TransState} {err : Int}

def slotsIn (s : NCPool) (i : Nat) (st : TransState) : Set Nat :=
  {t | t < s.maxRequests ∧ (s.transList t).server = some i ∧ (s.transList t).state = st}

def connsOf (s : NCPool) (i : Nat) : Set Nat := {c | s.connServer c = some i}

def connState (s : NCPool) (c : Nat) : Option ConnState := (s.conns c).map (fun x => x.state)

/-- The connections of a server that are in the connecting state. -/
def connectingOf (s : NCPool) (i : Nat) : Set Nat := {c | s.connServer c = some i ∧ s.connState c = some .connecting}

def Live (st : TransState) : Prop := st = .wait ∨ st = .send ∨ st = .recv

def reqCount (v : NCServerInfo) : TransState → Int
  | .wait => v.reqWait
  | .send => v.reqSend
  | .recv => v.reqRecv
  | _ => 0

def reqLoad (v : NCServerInfo) : Int := v.reqRemain + v.reqSend + v.reqRecv

/-- **Counters and numbers change together.** -/
structure Steady (s s' : NCPool) : Prop where
  requests : ∀ i st, Live st → reqCount (s'.serverList i) st - (s'.slotsIn i st).ncard =
    reqCount (s.serverList i) st - (s.slotsIn i st).ncard
  load : ∀ i, reqLoad (s'.serverList i) = reqLoad (s.serverList i)
  conns : ∀ i, (s'.serverList i).connRemain + (s'.connsOf i).ncard = (s.serverList i).connRemain + (s.connsOf i).ncard
  connecting : ∀ i, (s'.serverList i).connConnecting - (s'.connectingOf i).ncard =
    (s.serverList i).connConnecting - (s.connectingOf i).ncard
  total : ∀ i, (s'.serverList i).connTotal = (s.serverList i).connTotal
  done : s'.doneRequests - (s'.lists .done).length = s.doneRequests - (s.lists .done).length
  servers : s'.numServers = s.numServers ∧ s'.maxServers = s.maxServers

theorem Steady.refl (s : NCPool) : Steady s s :=
  ⟨fun _ _ _ => rfl, fun _ => rfl, fun _ => rfl, fun _ => rfl, fun _ => rfl, rfl, rfl, rfl⟩

theorem Steady.trans (h : Steady s s') (h' : Steady s' s'') : Steady s s'' :=
  ⟨fun i st hst => (h'.requests i st hst).trans (h.requests i st hst), fun i => (h'.load i).trans (h.load i),
    fun i => (h'.conns i).trans (h.conns i), fun i => (h'.connecting i).trans (h.connecting i),
    fun i => (h'.total i).trans (h.total i), h'.done.trans h.done, h'.servers.1.trans h.servers.1,
    h'.servers.2.trans h.servers.2⟩

def Stands (n : Nat) (x : NCTransation) : TransState → Prop
  | .idle => x.link = some .free ∧ x.server = none ∧ x.result = none
  | .wait => x.result = none ∧ ∃ i, i < n ∧ x.server = some i ∧ x.link = some (.server i)
  | .send => x.result = none ∧ x.link = none ∧ ∃ i, i < n ∧ x.server = some i
  | .recv => x.result = none ∧ (∃ c, x.link = some (.conn c)) ∧ ∃ i, i < n ∧ x.server = some i
  | .done => x.link = some .done

def Ready (s : NCPool) (c : Nat) : Prop := ∃ y, s.conns c = some y ∧ y.state ≠ .connecting

/-- **What the counters need of the pool.** -/
structure Tied (s : NCPool) : Prop where
  lists : s.ListsOk
  slots : ∀ t, t < s.maxRequests → Stands s.numServers (s.transList t) (s.transList t).state
  beyond : ∀ t, s.maxRequests ≤ t → (s.transList t).link = none
  sreq : ∀ c t, s.sreqOf c = some t → t < s.maxRequests ∧ (s.transList t).state = .send ∧
    (s.transList t).conn = some c ∧ (s.transList t).server = s.connServer c ∧ s.Ready c
  recv : ∀ t c, (s.transList t).link = some (.conn c) → s.Ready c
  idle : ∀ i c, c ∈ (s.serverList i).idleList → s.connServer c = some i ∧ s.Ready c
  once : ∀ i, (s.serverList i).idleList.Nodup
  free : s.numRequests + (s.lists .free).length = s.maxRequests
  owners : ∀ c i, s.connServer c = some i → i < s.numServers
  finite : {c | s.conns c ≠ none}.Finite
  remain : ∀ i, 0 ≤ (s.serverList i).reqRemain ∧ 0 ≤ (s.serverList i).connRemain
  size : 0 < s.maxRequests

/-- An operation that keeps what the counters need, and the counters with it. -/
structure Goes (s s' : NCPool) : Prop where
  tied : s'.Tied
  steady : Steady s s'

theorem Tied.goes (T : s.Tied) : Goes s s := ⟨T, Steady.refl s⟩

theorem Goes.trans (h : Goes s s') (h' : Goes s' s'') : Goes s s'' := ⟨h'.tied, h.steady.trans h'.steady⟩

theorem slotsIn_finite (s : NCPool) (i : Nat) (st : TransState) : (s.slotsIn i st).Finite :=
  (Set.finite_lt_nat s.maxRequests).subset (fun _ h => h.1)

theorem Tied.connsOf_finite (T : s.Tied) (i : Nat) : (s.connsOf i).Finite := by
  refine T.finite.subset (fun c hc => ?_)
  intro hnone
  have hserver : s.connServer c = some i := hc
  rw [connServer, hnone] at hserver
  cases hserver

theorem Tied.connectingOf_finite (T : s.Tied) (i : Nat) : (s.connectingOf i).Finite :=
  (T.connsOf_finite i).subset (fun _ h => h.1)

theorem Tied.lt_of_link (T : s.Tied) (h : (s.transList t).link = some l) : t < s.maxRequests := by
  by_contra hge
  rw [T.beyond t (Nat.not_lt.mp hge)] at h
  cases h

theorem Tied.sreqOf_ne (T : s.Tied) (hst : (s.transList t).state ≠ .send) (c : Nat) : s.sreqOf c ≠ some t :=
  fun h => hst (T.sreq c t h).2.1

open Classical in
theorem unit_slotsIn (ht : t < s.maxRequests) (i : Nat) (st : TransState) : Tally.unit (s.slotsIn i st) t =
    if (s.transList t).server = some i ∧ (s.transList t).state = st then 1 else 0 := by
  unfold Tally.unit
  refine if_congr ?_ rfl rfl
  exact ⟨fun h => h.2, fun h => ⟨ht, h⟩⟩

theorem Tied.slot (T : s.Tied) (ht : t < s.maxRequests) (hconns : s'.conns = s.conns)
    (hmax : s'.maxRequests = s.maxRequests) (hnum : s'.numServers = s.numServers)
    (hidle : ∀ i, (s'.serverList i).idleList = (s.serverList i).idleList)
    (hother : ∀ u, u ≠ t → s'.transList u = s.transList u) (hlists : s'.ListsOk)
    (hstands : Stands s.numServers (s'.transList t) (s'.transList t).state)
    (hrecv : ∀ c, (s'.transList t).link = some (.conn c) → s.Ready c) (hsreq : ∀ c, s.sreqOf c ≠ some t)
    (hfree : s'.numRequests + (s'.lists .free).length = s'.maxRequests)
    (hremain : ∀ i, 0 ≤ (s'.serverList i).reqRemain ∧ 0 ≤ (s'.serverList i).connRemain) : s'.Tied := by
  have hserver : ∀ c, s'.connServer c = s.connServer c := fun c => by rw [connServer, connServer, hconns]
  have hready : ∀ c, s.Ready c → s'.Ready c := fun c h => by rw [Ready, hconns]; exact h
  refine ⟨hlists, fun u hu => ?_, fun u hu => ?_, fun c u hu => ?_, fun u c hu => ?_, fun i c hc => ?_, fun i => ?_, hfree,
    fun c i hc => ?_, ?_, hremain, hmax ▸ T.size⟩
  · rw [hnum]
    by_cases hut : u = t
    · rw [hut]
      exact hstands
    · rw [hother u hut]
      exact T.slots u (hmax ▸ hu)
  · rw [hother u (fun he => by rw [he, hmax] at hu; exact Nat.not_lt.mpr hu ht)]
    exact T.beyond u (hmax ▸ hu)
  · rw [sreqOf, hconns] at hu
    rw [hother u (fun he => hsreq c (he ▸ hu)), hmax, hserver]
    obtain ⟨h1, h2, h3, h4, h5⟩ := T.sreq c u hu
    exact ⟨h1, h2, h3, h4, hready c h5⟩
  · by_cases hut : u = t
    · rw [hut] at hu
      exact hready c (hrecv c hu)
    · rw [hother u hut] at hu
      exact hready c (T.recv u c hu)
  · rw [hidle] at hc
    rw [hserver]
    exact ⟨(T.idle i c hc).1, hready c (T.idle i c hc).2⟩
  · rw [hidle]
    exact T.once i
  · rw [hserver] at hc
    rw [hnum]
    exact T.owners c i hc
  · rw [hconns]
    exact T.finite

def connCounts (v : NCServerInfo) : Int × Int × Int := (v.connRemain, v.connConnecting, v.connTotal)

theorem Steady.slot (hservers : s'.numServers = s.numServers ∧ s'.maxServers = s.maxServers)
    (hconns : s'.conns = s.conns) (hmax : s'.maxRequests = s.maxRequests)
    (hother : ∀ u, u ≠ t → s'.transList u = s.transList u)
    (hcount : ∀ i st, Live st → reqCount (s'.serverList i) st =
      reqCount (s.serverList i) st - Tally.unit (s.slotsIn i st) t + Tally.unit (s'.slotsIn i st) t)
    (hload : ∀ i, reqLoad (s'.serverList i) = reqLoad (s.serverList i))
    (hcc : ∀ i, connCounts (s'.serverList i) = connCounts (s.serverList i))
    (hdone : s'.doneRequests - (s'.lists .done).length = s.doneRequests - (s.lists .done).length) : Steady s s' := by
  have hserver : ∀ c, s'.connServer c = s.connServer c := fun c => by rw [connServer, connServer, hconns]
  have hsets : ∀ i, s'.connsOf i = s.connsOf i ∧ s'.connectingOf i = s.connectingOf i := by
    intro i
    refine ⟨Set.ext (fun c => ?_), Set.ext (fun c => ?_)⟩
    · show s'.connServer c = _ ↔ s.connServer c = _
      rw [hserver]
    · show s'.connServer c = _ ∧ s'.connState c = _ ↔ s.connServer c = _ ∧ s.connState c = _
      rw [hserver, connState, connState, hconns]
  refine ⟨fun i st hst => ?_, hload, fun i => ?_, fun i => ?_, fun i => ?_, hdone, hservers⟩
  · rw [hcount i st hst, Tally.ncard_change (slotsIn_finite s i st) (B := s'.slotsIn i st) (a := t) (fun u hu => ?_)]
    · ring
    · show u < s'.maxRequests ∧ (s'.transList u).server = _ ∧ (s'.transList u).state = _ ↔
        u < s.maxRequests ∧ (s.transList u).server = _ ∧ (s.transList u).state = _
      rw [hother u hu, hmax]
  · have h : (s'.serverList i).connRemain = (s.serverList i).connRemain := congrArg Prod.fst (hcc i)
    rw [(hsets i).1, h]
  · have h : (s'.serverList i).connConnecting = (s.serverList i).connConnecting := congrArg (fun p => p.2.1) (hcc i)
    rw [(hsets i).2, h]
  · exact congrArg (fun p => p.2.2) (hcc i)

/-- The counters of a server that a request leaves behind. -/
def released (v : NCServerInfo) : TransState → NCServerInfo
  | .wait => { v with reqWait := v.reqWait - 1 }
  | .send => { v with reqSend := v.reqSend - 1, reqRemain := v.reqRemain + 1 }
  | .recv => { v with reqRecv := v.reqRecv - 1, reqRemain := v.reqRemain + 1 }
  | _ => v

theorem requestDoneAndReady_servers (s : NCPool) (i : Nat) (st : TransState) :
    (s.requestDoneAndReady i st).serverList = Function.update s.serverList i (released (s.serverList i) st) := by
  unfold requestDoneAndReady
  cases st with
  | idle => exact (Function.update_eq_self i s.serverList).symm
  | wait => rfl
  | send => rfl
  | recv => rfl
  | done => exact (Function.update_eq_self i s.serverList).symm

theorem transationFinished_rest (s : NCPool) (t : Nat) : (s.transationFinished t).serverList = s.serverList ∧
    (s.transationFinished t).numServers = s.numServers ∧ (s.transationFinished t).maxServers = s.maxServers ∧
    (s.transationFinished t).doneRequests = s.doneRequests + 1 ∧
      (s.transationFinished t).lists .done = s.lists .done ++ [t] := by
  have h : ((s.setTrans t { s.transList t with state := .done }).listAddTail t .done).lists .done = s.lists .done ++ [t] := by
    show Function.update s.lists .done (s.lists .done ++ [t]) .done = _
    rw [Function.update_self]
  unfold transationFinished
  dsimp only
  split
  · exact ⟨rfl, rfl, rfl, rfl, h⟩
  · exact ⟨rfl, rfl, rfl, rfl, h⟩

theorem aborting_rest (s : NCPool) (t i : Nat) (err : Int) :
    (s.aborting t i err).serverList = Function.update s.serverList i (released (s.serverList i) (s.transList t).state) ∧
      (s.aborting t i err).numServers = s.numServers ∧ (s.aborting t i err).maxServers = s.maxServers ∧
      (s.aborting t i err).doneRequests = s.doneRequests := by
  have hdel : ∀ p : NCPool, (p.listDel t).numServers = p.numServers ∧ (p.listDel t).maxServers = p.maxServers ∧
      (p.listDel t).doneRequests = p.doneRequests := by
    intro p
    unfold listDel
    split
    · exact ⟨rfl, rfl, rfl⟩
    · exact ⟨rfl, rfl, rfl⟩
  have hready : ∀ (p : NCPool) (st : TransState), (p.requestDoneAndReady i st).numServers = p.numServers ∧
      (p.requestDoneAndReady i st).maxServers = p.maxServers ∧
      (p.requestDoneAndReady i st).doneRequests = p.doneRequests := by
    intro p st
    cases st with
    | idle => exact ⟨rfl, rfl, rfl⟩
    | wait => exact ⟨rfl, rfl, rfl⟩
    | send => exact ⟨rfl, rfl, rfl⟩
    | recv => exact ⟨rfl, rfl, rfl⟩
    | done => exact ⟨rfl, rfl, rfl⟩
  have hstate : (((s.setTrans t { s.transList t with conn := none }).listDel t).transList t).state =
      (s.transList t).state := by
    rw [listDel_trans, Function.update_self]
    show (Function.update s.transList t _ t).state = _
    rw [Function.update_self]
  unfold aborting
  dsimp only [setTrans]
  refine ⟨?_, (hready _ _).1.trans (hdel _).1, (hready _ _).2.1.trans (hdel _).2.1, (hready _ _).2.2.trans (hdel _).2.2⟩
  rw [requestDoneAndReady_servers, listDel_serverList]
  exact congrArg (fun st => Function.update s.serverList i (released (s.serverList i) st)) hstate

theorem abort_counts (err : Int) (h : (s.transList t).server = some i) (hlink : (s.transList t).link ≠ some .done) :
    (s.abort t err).serverList = Function.update s.serverList i (released (s.serverList i) (s.transList t).state) ∧
      (s.abort t err).numServers = s.numServers ∧ (s.abort t err).maxServers = s.maxServers ∧
      (s.abort t err).doneRequests = s.doneRequests + 1 ∧ (s.abort t err).lists .done = s.lists .done ++ [t] := by
  obtain ⟨h1, h2, h3, h4⟩ := aborting_rest s t i err
  obtain ⟨k1, k2, k3, k4, k5⟩ := transationFinished_rest (s.aborting t i err) t
  rw [abort_eq h, k1, k2, k3, k4, k5, h1, h2, h3, h4, aborting_list_ne hlink]
  exact ⟨rfl, rfl, rfl, rfl, rfl⟩

theorem reqCount_released (v : NCServerInfo) {st₀ : TransState} (h : Live st₀) (st : TransState) :
    reqCount (released v st₀) st = reqCount v st - if st₀ = st then 1 else 0 := by
  rcases h with rfl | rfl | rfl
  · cases st <;> simp [reqCount, released]
  · cases st <;> simp [reqCount, released]
  · cases st <;> simp [reqCount, released]

theorem reqLoad_released (v : NCServerInfo) (st : TransState) : reqLoad (released v st) = reqLoad v := by
  cases st with
  | idle => rfl
  | wait => rfl
  | send =>
    show v.reqRemain + 1 + (v.reqSend - 1) + v.reqRecv = v.reqRemain + v.reqSend + v.reqRecv
    ring
  | recv =>
    show v.reqRemain + 1 + v.reqSend + (v.reqRecv - 1) = v.reqRemain + v.reqSend + v.reqRecv
    ring
  | done => rfl

theorem released_rest (v : NCServerInfo) (st : TransState) : connCounts (released v st) = connCounts v ∧
    v.reqRemain ≤ (released v st).reqRemain := by
  cases st with
  | idle => exact ⟨rfl, le_refl _⟩
  | wait => exact ⟨rfl, le_refl _⟩
  | send => exact ⟨rfl, by show v.reqRemain ≤ v.reqRemain + 1; omega⟩
  | recv => exact ⟨rfl, by show v.reqRemain ≤ v.reqRemain + 1; omega⟩
  | done => exact ⟨rfl, le_refl _⟩

theorem Tied.opened (T : s.Tied) (ht : t < s.maxRequests) (hopen : Opened (s.transList t)) :
    (∃ i, i < s.numServers ∧ (s.transList t).server = some i) ∧ (s.transList t).link ≠ some .free ∧
      (s.transList t).link ≠ some .done := by
  have hf := T.slots t ht
  rcases hopen with hst | hst | hst
  · rw [hst] at hf
    obtain ⟨-, i, hi, h1, h2⟩ := hf
    rw [h2]
    exact ⟨⟨i, hi, h1⟩, fun h => (by cases h), fun h => (by cases h)⟩
  · rw [hst] at hf
    obtain ⟨-, h1, i, hi, h2⟩ := hf
    rw [h1]
    exact ⟨⟨i, hi, h2⟩, fun h => (by cases h), fun h => (by cases h)⟩
  · rw [hst] at hf
    obtain ⟨-, ⟨c, h1⟩, i, hi, h2⟩ := hf
    rw [h1]
    exact ⟨⟨i, hi, h2⟩, fun h => (by cases h), fun h => (by cases h)⟩

theorem Tied.abort (T : s.Tied) (ht : t < s.maxRequests) (hopen : Opened (s.transList t))
    (hsreq : ∀ c, s.sreqOf c ≠ some t) (err : Int) : Goes s (s.abort t err) := by
  obtain ⟨⟨i, hi, hs⟩, hfree, hdone⟩ := T.opened ht hopen
  have hq := abort_quiet s t err
  obtain ⟨k1, k2, k3, k4, k5⟩ := abort_counts err hs hdone
  have htrans : (s.abort t err).transList = _ := abort_trans hs
  have hother : ∀ u, u ≠ t → (s.abort t err).transList u = s.transList u := by
    intro u hu
    rw [htrans, Function.update_of_ne hu]
  have hself : (s.abort t err).transList t = finished (s.transList t) err := by rw [htrans, Function.update_self]
  have hserver : ∀ j, (s.abort t err).serverList j =
      if j = i then released (s.serverList i) (s.transList t).state else s.serverList j := by
    intro j
    rw [k1, Function.update_apply]
  have hremain : ∀ j, (s.serverList j).reqRemain ≤ ((s.abort t err).serverList j).reqRemain ∧
      connCounts ((s.abort t err).serverList j) = connCounts (s.serverList j) := by
    intro j
    rw [hserver]
    split
    · next hj =>
      rw [hj]
      exact ⟨(released_rest _ _).2, (released_rest _ _).1⟩
    · exact ⟨le_refl _, rfl⟩
  constructor
  · refine T.slot ht hq.conns hq.max k2 hq.idle hother (T.lists.abort t err) ?_ (fun c hc => ?_) hsreq ?_ (fun j => ?_)
    · rw [hself]
      exact rfl
    · rw [hself] at hc
      cases hc
    · rw [hq.numRequests, hq.max, abort_list_ne PoolList.noConfusion hfree]
      exact T.free
    · refine ⟨le_trans (T.remain j).1 (hremain j).1, ?_⟩
      have h : ((s.abort t err).serverList j).connRemain = (s.serverList j).connRemain := congrArg Prod.fst (hremain j).2
      rw [h]
      exact (T.remain j).2
  · refine Steady.slot ⟨k2, k3⟩ hq.conns hq.max hother (fun j st hst => ?_) (fun j => ?_) (fun j => (hremain j).2) ?_
    · have hzero : (if (finished (s.transList t) err).server = some j ∧ (finished (s.transList t) err).state = st then
          (1 : Int) else 0) = 0 := if_neg (fun h => by cases h.1)
      rw [unit_slotsIn ht, unit_slotsIn (hq.max.symm ▸ ht), hself, hs, hserver, hzero, add_zero]
      by_cases hj : j = i
      · rw [if_pos hj, hj, reqCount_released _ hopen]
        refine congrArg _ (if_congr ?_ rfl rfl)
        exact ⟨fun h => ⟨rfl, h⟩, fun h => h.2⟩
      · rw [if_neg hj, if_neg (fun h => hj (Option.some.inj h.1).symm), sub_zero]
    · rw [hserver]
      split
      · next hj => rw [hj, reqLoad_released]
      · rfl
    · rw [k4, k5, List.length_append, List.length_singleton]
      push_cast
      ring

theorem Tied.of_conns (T : s.Tied) (hT : s'.transList = s.transList) (hL : s'.lists = s.lists)
    (hmax : s'.maxRequests = s.maxRequests) (hnum : s'.numServers = s.numServers)
    (hreq : s'.numRequests = s.numRequests)
    (hsreq : ∀ d t, s'.sreqOf d = some t → t < s.maxRequests ∧ (s.transList t).state = .send ∧
      (s.transList t).conn = some d ∧ (s.transList t).server = s'.connServer d ∧ s'.Ready d)
    (hrecv : ∀ t d, (s.transList t).link = some (.conn d) → s'.Ready d)
    (hidle : ∀ i d, d ∈ (s'.serverList i).idleList → s'.connServer d = some i ∧ s'.Ready d)
    (honce : ∀ i, (s'.serverList i).idleList.Nodup)
    (howners : ∀ d i, s'.connServer d = some i → i < s.numServers) (hfinite : {d | s'.conns d ≠ none}.Finite)
    (hremain : ∀ i, 0 ≤ (s'.serverList i).reqRemain ∧ 0 ≤ (s'.serverList i).connRemain) : s'.Tied := by
  refine ⟨T.lists.of_eq hL (fun u => by rw [hT]), fun u hu => ?_, fun u hu => ?_, fun d u hu => ?_, fun u d hu => ?_, hidle,
    honce, ?_, fun d i hd => ?_, hfinite, hremain, hmax ▸ T.size⟩
  · rw [hT, hnum]
    exact T.slots u (hmax ▸ hu)
  · rw [hT]
    exact T.beyond u (hmax ▸ hu)
  · rw [hT, hmax]
    exact hsreq d u hu
  · rw [hT] at hu
    exact hrecv u d hu
  · rw [hL, hreq, hmax]
    exact T.free
  · rw [hnum]
    exact howners d i hd

def reqCounts (v : NCServerInfo) : Int × Int × Int × Int := (v.reqWait, v.reqSend, v.reqRecv, v.reqRemain)

theorem reqCount_of_counts {v w : NCServerInfo} (h : reqCounts v = reqCounts w) (st : TransState) :
    reqCount v st = reqCount w st := by
  cases st with
  | idle => rfl
  | wait => exact congrArg Prod.fst h
  | send => exact congrArg (fun p => p.2.1) h
  | recv => exact congrArg (fun p => p.2.2.1) h
  | done => rfl

theorem reqLoad_of_counts {v w : NCServerInfo} (h : reqCounts v = reqCounts w) : reqLoad v = reqLoad w := by
  have h1 : v.reqSend = w.reqSend := congrArg (fun p => p.2.1) h
  have h2 : v.reqRecv = w.reqRecv := congrArg (fun p => p.2.2.1) h
  have h3 : v.reqRemain = w.reqRemain := congrArg (fun p => p.2.2.2) h
  rw [reqLoad, reqLoad, h1, h2, h3]

theorem slotsIn_congr (hT : s'.transList = s.transList) (hmax : s'.maxRequests = s.maxRequests) (i : Nat)
    (st : TransState) : s'.slotsIn i st = s.slotsIn i st := by
  unfold slotsIn
  rw [hT, hmax]

theorem Steady.conn (T : s.Tied) (hservers : s'.numServers = s.numServers ∧ s'.maxServers = s.maxServers)
    (hT : s'.transList = s.transList) (hL : s'.lists = s.lists) (hmax : s'.maxRequests = s.maxRequests)
    (hdone : s'.doneRequests = s.doneRequests)
    (hother : ∀ d, d ≠ c → s'.conns d = s.conns d)
    (hreq : ∀ i, reqCounts (s'.serverList i) = reqCounts (s.serverList i))
    (htotal : ∀ i, (s'.serverList i).connTotal = (s.serverList i).connTotal)
    (hremain : ∀ i, (s'.serverList i).connRemain =
      (s.serverList i).connRemain + Tally.unit (s.connsOf i) c - Tally.unit (s'.connsOf i) c)
    (hconnecting : ∀ i, (s'.serverList i).connConnecting =
      (s.serverList i).connConnecting - Tally.unit (s.connectingOf i) c + Tally.unit (s'.connectingOf i) c) :
    Steady s s' := by
  refine ⟨fun i st _ => ?_, fun i => reqLoad_of_counts (hreq i), fun i => ?_, fun i => ?_, htotal, by rw [hdone, hL],
    hservers⟩
  · rw [reqCount_of_counts (hreq i), slotsIn_congr hT hmax]
  · rw [hremain, Tally.ncard_change (T.connsOf_finite i) (B := s'.connsOf i) (a := c) (fun d hd => ?_)]
    · ring
    · show s'.connServer d = _ ↔ s.connServer d = _
      rw [connServer, connServer, hother d hd]
  · rw [hconnecting, Tally.ncard_change (T.connectingOf_finite i) (B := s'.connectingOf i) (a := c) (fun d hd => ?_)]
    · ring
    · show s'.connServer d = _ ∧ s'.connState d = _ ↔ s.connServer d = _ ∧ s.connState d = _
      rw [connServer, connServer, connState, connState, hother d hd]

theorem unit_connsOf {y : NCConnection} (hy : s.conns c = some y) (i : Nat) :
    Tally.unit (s.connsOf i) c = if i = y.serverInfo then 1 else 0 := by
  have hmem : c ∈ s.connsOf i ↔ i = y.serverInfo := by
    show s.connServer c = some i ↔ _
    rw [connServer_some hy]
    exact ⟨fun h => (Option.some.inj h).symm, fun h => congrArg some h.symm⟩
  split
  · next h => exact Tally.unit_of_mem (hmem.mpr h)
  · next h => exact Tally.unit_of_notMem (fun hm => h (hmem.mp hm))

theorem unit_connectingOf {y : NCConnection} (hy : s.conns c = some y) (i : Nat) :
    Tally.unit (s.connectingOf i) c = if i = y.serverInfo ∧ y.state = .connecting then 1 else 0 := by
  have hmem : c ∈ s.connectingOf i ↔ i = y.serverInfo ∧ y.state = .connecting := by
    show s.connServer c = some i ∧ s.connState c = some .connecting ↔ _
    rw [connServer_some hy, connState, hy]
    exact ⟨fun h => ⟨(Option.some.inj h.1).symm, Option.some.inj h.2⟩, fun h => ⟨congrArg some h.1.symm, congrArg some h.2⟩⟩
  split
  · next h => exact Tally.unit_of_mem (hmem.mpr h)
  · next h => exact Tally.unit_of_notMem (fun hm => h (hmem.mp hm))

theorem unit_conns_none (hc : s.conns c = none) (i : Nat) :
    Tally.unit (s.connsOf i) c = 0 ∧ Tally.unit (s.connectingOf i) c = 0 := by
  have hserver : s.connServer c ≠ some i := by
    rw [connServer, hc]
    exact fun h => by cases h
  exact ⟨Tally.unit_of_notMem hserver, Tally.unit_of_notMem (fun h => hserver h.1)⟩

theorem setServer_apply (s : NCPool) (i j : Nat) (v : NCServerInfo) :
    (s.setServer i v).serverList j = if j = i then v else s.serverList j := Function.update_apply ..

theorem Tied.setServer (T : s.Tied) {v : NCServerInfo} (hc : ∀ c ∈ v.idleList, s.connServer c = some i ∧ s.Ready c)
    (hnd : v.idleList.Nodup) (hv : 0 ≤ v.reqRemain ∧ 0 ≤ v.connRemain) : (s.setServer i v).Tied := by
  refine T.of_conns rfl rfl rfl rfl rfl T.sreq T.recv (fun j d hd => ?_) (fun j => ?_) T.owners T.finite (fun j => ?_)
  · rw [setServer_apply] at hd
    split at hd
    · next hj =>
      rw [hj]
      exact hc d hd
    · exact T.idle j d hd
  · rw [setServer_apply]
    split
    · exact hnd
    · exact T.once j
  · rw [setServer_apply]
    split
    · exact hv
    · exact T.remain j

theorem Steady.setServer (T : s.Tied) {v : NCServerInfo} (h1 : reqCounts v = reqCounts (s.serverList i))
    (h2 : connCounts v = connCounts (s.serverList i)) : Steady s (s.setServer i v) := by
  have hreq : ∀ j, reqCounts ((s.setServer i v).serverList j) = reqCounts (s.serverList j) := by
    intro j
    rw [setServer_apply]
    split
    · next hj => rw [hj, h1]
    · rfl
  have hcc : ∀ j, connCounts ((s.setServer i v).serverList j) = connCounts (s.serverList j) := by
    intro j
    rw [setServer_apply]
    split
    · next hj => rw [hj, h2]
    · rfl
  refine Steady.conn (c := 0) T ⟨rfl, rfl⟩ rfl rfl rfl rfl (fun _ _ => rfl) hreq
    (fun j => congrArg (fun p => p.2.2) (hcc j)) (fun j => ?_)
    (fun j => ?_)
  · have h : ((s.setServer i v).serverList j).connRemain = (s.serverList j).connRemain := congrArg Prod.fst (hcc j)
    show _ = _ + Tally.unit (s.connsOf j) 0 - Tally.unit (s.connsOf j) 0
    rw [h]
    ring
  · have h : ((s.setServer i v).serverList j).connConnecting = (s.serverList j).connConnecting :=
      congrArg (fun p => p.2.1) (hcc j)
    show _ = _ - Tally.unit (s.connectingOf j) 0 + Tally.unit (s.connectingOf j) 0
    rw [h]
    ring

theorem ready_setConn (s : NCPool) (c d : Nat) (y : NCConnection) :
    (s.setConn c y).Ready d ↔ if d = c then y.state ≠ .connecting else s.Ready d := by
  show (∃ z, Function.update s.conns c (some y) d = some z ∧ z.state ≠ .connecting) ↔ _
  rw [Function.update_apply]
  split
  · refine ⟨fun ⟨z, hz, hst⟩ => ?_, fun h => ⟨y, rfl, h⟩⟩
    rw [Option.some.inj hz]
    exact hst
  · exact Iff.rfl

theorem Tied.setConn (T : s.Tied) {y z : NCConnection} (hy : s.conns c = some y) (hserver : z.serverInfo = y.serverInfo)
    (hstate : z.state = .connecting ↔ y.state = .connecting)
    (hsreq : ∀ t, z.sreq = some t → t < s.maxRequests ∧ (s.transList t).state = .send ∧ (s.transList t).conn = some c ∧
      (s.transList t).server = some y.serverInfo ∧ y.state ≠ .connecting) : Goes s (s.setConn c z) := by
  have hz : (s.setConn c z).conns c = some z := Function.update_self ..
  have hs : ∀ d, (s.setConn c z).connServer d = s.connServer d := by
    intro d
    rw [connServer_setConn]
    split
    · next hd => rw [hd, hserver, connServer_some hy]
    · rfl
  have hready : ∀ d, s.Ready d → (s.setConn c z).Ready d := by
    intro d hd
    rw [ready_setConn]
    split
    · next hdc =>
      obtain ⟨y', hy', hst⟩ := hd
      rw [hdc, hy] at hy'
      obtain rfl := Option.some.inj hy'
      exact fun h => hst (hstate.mp h)
    · exact hd
  have hother : ∀ d, d ≠ c → (s.setConn c z).conns d = s.conns d := fun d hd => Function.update_of_ne hd ..
  constructor
  · refine T.of_conns rfl rfl rfl rfl rfl (fun d t hd => ?_) (fun t d hd => hready d (T.recv t d hd))
      (fun i d hd => ?_) T.once (fun d i hd => ?_) ?_ T.remain
    · rw [hs]
      rw [sreqOf_setConn] at hd
      split at hd
      · next hdc =>
        obtain ⟨h1, h2, h3, h4, h5⟩ := hsreq t hd
        rw [hdc, connServer_some hy, ready_setConn, if_pos rfl]
        exact ⟨h1, h2, h3, h4, fun h => h5 (hstate.mp h)⟩
      · obtain ⟨h1, h2, h3, h4, h5⟩ := T.sreq d t hd
        exact ⟨h1, h2, h3, h4, hready d h5⟩
    · rw [hs]
      exact ⟨(T.idle i d hd).1, hready d (T.idle i d hd).2⟩
    · rw [hs] at hd
      exact T.owners d i hd
    · refine T.finite.subset (fun d hd => ?_)
      by_cases hdc : d = c
      · rw [hdc]
        exact fun h => by rw [hy] at h; cases h
      · show s.conns d ≠ none
        rw [← hother d hdc]
        exact hd
  · refine Steady.conn (c := c) T ⟨rfl, rfl⟩ rfl rfl rfl rfl hother (fun _ => rfl) (fun _ => rfl) (fun i => ?_) (fun i => ?_)
    · rw [unit_connsOf hy, unit_connsOf hz, hserver]
      show (s.serverList i).connRemain = _
      ring
    · have hsame : (if i = y.serverInfo ∧ y.state = .connecting then (1 : Int) else 0) =
          if i = z.serverInfo ∧ z.state = .connecting then 1 else 0 := by
        rw [hserver]
        exact if_congr (and_congr_right (fun _ => hstate.symm)) rfl rfl
      rw [unit_connectingOf hy, unit_connectingOf hz, hsame]
      show (s.serverList i).connConnecting = _
      ring

theorem setConn_listDel (s : NCPool) (c t : Nat) (y : NCConnection) :
    (s.setConn c y).listDel t = (s.listDel t).setConn c y := by
  have hlink : ((s.setConn c y).transList t).link = (s.transList t).link := rfl
  unfold listDel
  rw [hlink]
  cases (s.transList t).link <;> rfl

theorem setConn_abort (s : NCPool) (c t : Nat) (y : NCConnection) (err : Int) :
    (s.setConn c y).abort t err = (s.abort t err).setConn c y := by
  have hready : ∀ (p : NCPool) (i : Nat) (st : TransState),
      (p.setConn c y).requestDoneAndReady i st = (p.requestDoneAndReady i st).setConn c y := by
    intro p i st
    cases st <;> rfl
  have hfin : ∀ p : NCPool, (p.setConn c y).transationFinished t = (p.transationFinished t).setConn c y := by
    intro p
    have hpacket : ((((p.setConn c y).setTrans t { (p.setConn c y).transList t with state := .done }).listAddTail t
        .done).transList t).packet = (((p.setTrans t { p.transList t with state := .done }).listAddTail t
        .done).transList t).packet := rfl
    unfold transationFinished
    dsimp only
    rw [hpacket]
    cases (((p.setTrans t { p.transList t with state := .done }).listAddTail t .done).transList t).packet <;> rfl
  cases hs : (s.transList t).server with
  | none => rw [abort_none hs, abort_none (s := s.setConn c y) hs]
  | some i =>
    rw [abort_eq hs, abort_eq (s := s.setConn c y) hs, ← hfin]
    refine congrArg (fun p : NCPool => p.transationFinished t) ?_
    have hdel := setConn_listDel (s.setTrans t { s.transList t with conn := none }) c t y
    have hstart : (s.setConn c y).setTrans t { (s.setConn c y).transList t with conn := none } =
        (s.setTrans t { s.transList t with conn := none }).setConn c y := rfl
    unfold aborting
    dsimp only
    rw [hstart, hdel, hready]
    rfl

theorem Tied.abortSreq (T : s.Tied) (c : Nat) (err : Int) :
    Goes s (s.abortSreq c err) ∧ (s.abortSreq c err).sreqOf c = none ∧
      ∀ d, (s.abortSreq c err).connState d = s.connState d := by
  cases h : s.sreqOf c with
  | none =>
    rw [abortSreq_none h]
    exact ⟨T.goes, h, fun _ => rfl⟩
  | some t =>
    obtain ⟨y, hy, hyt⟩ := exists_of_sreqOf h
    obtain ⟨ht, hst, hconn, -, -⟩ := T.sreq c t h
    have G1 : Goes s (s.setConn c { y with sreq := none }) := T.setConn hy rfl Iff.rfl (fun t ht => by cases ht)
    have hne : ∀ d, (s.setConn c { y with sreq := none }).sreqOf d ≠ some t := by
      intro d hd
      rw [sreqOf_setConn] at hd
      split at hd
      · cases hd
      · next hdc =>
        have hconn' := (T.sreq d t hd).2.2.1
        rw [hconn] at hconn'
        exact hdc (Option.some.inj hconn').symm
    have G2 := G1.tied.abort ht (.inr (.inl hst)) hne err
    have hstate : ∀ d, ((s.setConn c { y with sreq := none }).abort t err).connState d = s.connState d := by
      intro d
      rw [connState, (abort_quiet _ t err).conns]
      show (Function.update s.conns c (some { y with sreq := none }) d).map _ = _
      rw [Function.update_apply]
      split
      · next hd =>
        rw [hd, connState, hy]
        rfl
      · rfl
    have hnone : ((s.setConn c { y with sreq := none }).abort t err).sreqOf c = none := by
      rw [sreqOf, (abort_quiet _ t err).conns]
      show (Function.update s.conns c (some { y with sreq := none }) c).bind _ = none
      rw [Function.update_self]
      rfl
    rw [abortSreq_eq hy hyt, ← setConn_abort]
    exact ⟨G1.trans G2, hnone, hstate⟩

theorem Tied.state_of_link (T : s.Tied) (h : (s.transList t).link = some l) :
    (∀ c, l = .conn c → (s.transList t).state = .recv) ∧
      (∀ i, l = .server i → (s.transList t).state = .wait ∧ (s.transList t).server = some i) ∧
      (l = .done → (s.transList t).state = .done) ∧ (l = .free → (s.transList t).state = .idle) := by
  have hf := T.slots t (T.lt_of_link h)
  cases hst : (s.transList t).state with
  | idle =>
    rw [hst] at hf
    obtain rfl := Option.some.inj (h.symm.trans hf.1)
    exact ⟨fun _ h => (by cases h), fun _ h => (by cases h), fun h => (by cases h), fun _ => rfl⟩
  | wait =>
    rw [hst] at hf
    obtain ⟨-, i, -, hs, hl⟩ := hf
    obtain rfl := Option.some.inj (h.symm.trans hl)
    refine ⟨fun _ h => (by cases h), fun j hj => ⟨rfl, ?_⟩, fun h => (by cases h), fun h => (by cases h)⟩
    rw [hs, PoolList.server.inj hj]
  | send =>
    rw [hst] at hf
    rw [hf.2.1] at h
    cases h
  | recv =>
    rw [hst] at hf
    obtain ⟨-, ⟨c, hl⟩, -⟩ := hf
    obtain rfl := Option.some.inj (h.symm.trans hl)
    exact ⟨fun _ _ => rfl, fun _ h => (by cases h), fun h => (by cases h), fun h => (by cases h)⟩
  | done =>
    rw [hst] at hf
    obtain rfl := Option.some.inj (h.symm.trans hf)
    exact ⟨fun _ h => (by cases h), fun _ h => (by cases h), fun _ => rfl, fun h => (by cases h)⟩

theorem Tied.abortList (err : Int) (hl : (∃ c, l = .conn c) ∨ ∃ i, l = .server i) :
    ∀ (ts : List Nat) (s : NCPool), s.Tied → ts.Nodup → (∀ t ∈ ts, (s.transList t).link = some l) →
      Goes s (ts.foldl (fun s t => s.abort t err) s) ∧ Quiet s (ts.foldl (fun s t => s.abort t err) s) ∧
        ∀ u, ((ts.foldl (fun s t => s.abort t err) s).transList u).link = some l →
          u ∉ ts ∧ (s.transList u).link = some l
  | [], s, T, _, _ => ⟨T.goes, Quiet.refl s, fun _ hu => ⟨List.not_mem_nil, hu⟩⟩
  | t :: ts, s, T, hnd, hlink => by
    have ht := hlink t (List.mem_cons_self ..)
    have hopen : Opened (s.transList t) := by
      rcases hl with ⟨c, rfl⟩ | ⟨i, rfl⟩
      · exact .inr (.inr ((T.state_of_link ht).1 c rfl))
      · exact .inl ((T.state_of_link ht).2.1 i rfl).1
    have hsend : (s.transList t).state ≠ .send := by
      rcases hl with ⟨c, rfl⟩ | ⟨i, rfl⟩
      · rw [(T.state_of_link ht).1 c rfl]
        exact TransState.noConfusion
      · rw [((T.state_of_link ht).2.1 i rfl).1]
        exact TransState.noConfusion
    obtain ⟨⟨i, -, hs⟩, -, -⟩ := T.opened (T.lt_of_link ht) hopen
    have G := T.abort (T.lt_of_link ht) hopen (T.sreqOf_ne hsend) err
    have htrans : (s.abort t err).transList = _ := abort_trans hs
    have hnd' := List.nodup_cons.mp hnd
    obtain ⟨G2, hq, hrest⟩ := Tied.abortList err hl ts (s.abort t err) G.tied hnd'.2 (fun u hu => by
      have hut : u ≠ t := fun he => hnd'.1 (he ▸ hu)
      rw [htrans, Function.update_of_ne hut]
      exact hlink u (List.mem_cons_of_mem _ hu))
    refine ⟨G.trans G2, (abort_quiet s t err).trans hq, fun u hu => ?_⟩
    obtain ⟨hnot, hlu⟩ := hrest u hu
    by_cases hut : u = t
    · subst hut
      rw [htrans, Function.update_self] at hlu
      have hdone : some PoolList.done = some l := hlu
      rcases hl with ⟨c, rfl⟩ | ⟨i, rfl⟩
      · cases hdone
      · cases hdone
    · rw [htrans, Function.update_of_ne hut] at hlu
      exact ⟨fun hm => (List.mem_cons.mp hm).elim hut hnot, hlu⟩

theorem Tied.abortRequests (T : s.Tied) (c : Nat) (err : Int) :
    Goes s (s.abortRequests c err) ∧ Kept s (s.abortRequests c err) ∧ (s.abortRequests c err).sreqOf c = none ∧
      (∀ t, ((s.abortRequests c err).transList t).link ≠ some (.conn c)) ∧
      ∀ d, (s.abortRequests c err).connState d = s.connState d := by
  obtain ⟨G1, hnone, hstate⟩ := T.abortSreq c err
  have hk := abortSreq_kept s c err
  obtain ⟨G2, hq, hrest⟩ := Tied.abortList err (.inl ⟨c, rfl⟩) ((s.abortSreq c err).lists (.conn c)) (s.abortSreq c err)
    G1.tied (G1.tied.lists.nodup _) (fun t ht => (G1.tied.lists.mem _ t).mp ht)
  refine ⟨G1.trans G2, hk.trans hq.kept, ?_, fun t ht => ?_, fun d => ?_⟩
  · show sreqOf _ c = none
    rw [← hnone, sreqOf, sreqOf]
    exact congrArg (fun f => Option.bind (f c) _) hq.conns
  · obtain ⟨hnot, hl⟩ := hrest t ht
    exact hnot ((G1.tied.lists.mem _ t).mpr hl)
  · rw [← hstate d]
    exact congrArg (fun f => Option.map _ (f d)) hq.conns

theorem connsOf_congr (hserver : ∀ c, s'.connServer c = s.connServer c) (hstate : ∀ c, s'.connState c = s.connState c)
    (i : Nat) : s'.connsOf i = s.connsOf i ∧ s'.connectingOf i = s.connectingOf i := by
  refine ⟨Set.ext (fun c => ?_), Set.ext (fun c => ?_)⟩
  · show s'.connServer c = _ ↔ s.connServer c = _
    rw [hserver]
  · show s'.connServer c = _ ∧ s'.connState c = _ ↔ s.connServer c = _ ∧ s.connState c = _
    rw [hserver, hstate]

def forget (s : NCPool) (c : Nat) : NCPool := { s with conns := Function.update s.conns c none }

theorem forget_of_ne (s : NCPool) (h : u ≠ c) : (s.forget c).conns u = s.conns u := Function.update_of_ne h ..

theorem forget_self (s : NCPool) (c : Nat) : (s.forget c).conns c = none := Function.update_self ..

theorem Tied.forget (T : s.Tied) (hsreq : s.sreqOf c = none) (hrecv : ∀ t, (s.transList t).link ≠ some (.conn c))
    (hidle : ∀ i, c ∉ (s.serverList i).idleList) : (s.forget c).Tied := by
  have hserver : ∀ d, d ≠ c → (s.forget c).connServer d = s.connServer d := fun d hd => by
    rw [connServer, connServer, forget_of_ne s hd]
  have hready : ∀ d, d ≠ c → s.Ready d → (s.forget c).Ready d := fun d hd h => by
    rw [Ready, forget_of_ne s hd]
    exact h
  refine T.of_conns rfl rfl rfl rfl rfl (fun d t hd => ?_) (fun t d hd => ?_) (fun i d hd => ?_) T.once (fun d i hd => ?_) ?_
    T.remain
  · have hdc : d ≠ c := by
      rintro rfl
      rw [sreqOf, forget_self] at hd
      cases hd
    rw [sreqOf, forget_of_ne s hdc] at hd
    rw [hserver d hdc]
    obtain ⟨h1, h2, h3, h4, h5⟩ := T.sreq d t hd
    exact ⟨h1, h2, h3, h4, hready d hdc h5⟩
  · exact hready d (fun he => hrecv t (he ▸ hd)) (T.recv t d hd)
  · have hdc : d ≠ c := fun he => hidle i (he ▸ hd)
    rw [hserver d hdc]
    exact ⟨(T.idle i d hd).1, hready d hdc (T.idle i d hd).2⟩
  · have hdc : d ≠ c := by
      rintro rfl
      rw [connServer, forget_self] at hd
      cases hd
    rw [hserver d hdc] at hd
    exact T.owners d i hd
  · refine T.finite.subset (fun d hd => ?_)
    have hdc : d ≠ c := by
      rintro rfl
      exact hd (forget_self s d)
    show s.conns d ≠ none
    rw [← forget_of_ne s hdc]
    exact hd

theorem Tied.ncard_forget (T : s.Tied) (c i : Nat) :
    (((s.forget c).connsOf i).ncard : Int) = (s.connsOf i).ncard - Tally.unit (s.connsOf i) c ∧
      (((s.forget c).connectingOf i).ncard : Int) = (s.connectingOf i).ncard - Tally.unit (s.connectingOf i) c := by
  obtain ⟨h1, h2⟩ := unit_conns_none (forget_self s c) i
  constructor
  · rw [Tally.ncard_change (T.connsOf_finite i) (B := (s.forget c).connsOf i) (a := c) (fun d hd => ?_), h1, add_zero]
    show (s.forget c).connServer d = _ ↔ s.connServer d = _
    rw [connServer, connServer, forget_of_ne s hd]
  · rw [Tally.ncard_change (T.connectingOf_finite i) (B := (s.forget c).connectingOf i) (a := c) (fun d hd => ?_),
      h2, add_zero]
    show (s.forget c).connServer d = _ ∧ (s.forget c).connState d = _ ↔ s.connServer d = _ ∧ s.connState d = _
    rw [connServer, connServer, connState, connState, forget_of_ne s hd]

theorem Tied.drop (T : s.Tied) {v : NCServerInfo} (hv : v.idleList = (s.serverList i).idleList.erase c)
    (hr : 0 ≤ v.reqRemain ∧ 0 ≤ v.connRemain) : (s.setServer i v).Tied := by
  refine T.setServer (fun d hd => ?_) ?_ hr
  · rw [hv] at hd
    exact T.idle i d (List.mem_of_mem_erase hd)
  · rw [hv]
    exact (T.once i).erase c

theorem Tied.deleteConn (T : s.Tied) (c : Nat) : Goes s (s.deleteConn c) := by
  unfold NCPool.deleteConn
  split
  · exact T.goes
  · next y hy =>
    dsimp only
    generalize hv : (if y.state = .connecting then
      { s.serverList y.serverInfo with connConnecting := (s.serverList y.serverInfo).connConnecting - 1 }
      else s.serverList y.serverInfo) = v
    have hvreq : reqCounts (dropConn v c) = reqCounts (s.serverList y.serverInfo) := by
      rw [← hv]
      split <;> rfl
    have hvremain : (dropConn v c).connRemain = (s.serverList y.serverInfo).connRemain ∧
        (dropConn v c).connTotal = (s.serverList y.serverInfo).connTotal := by
      rw [← hv]
      split
      · exact ⟨rfl, rfl⟩
      · exact ⟨rfl, rfl⟩
    have hvconnecting : (dropConn v c).connConnecting =
        (s.serverList y.serverInfo).connConnecting - if y.state = .connecting then 1 else 0 := by
      rw [← hv]
      split
      · rfl
      · exact (sub_zero _).symm
    have hvidle : (dropConn v c).idleList = (s.serverList y.serverInfo).idleList.erase c := by
      rw [dropConn_idle, ← hv]
      split <;> rfl
    have hr := T.remain y.serverInfo
    have hreqRemain : (dropConn v c).reqRemain = (s.serverList y.serverInfo).reqRemain := congrArg (fun p => p.2.2.2) hvreq
    have T1 : (s.setServer y.serverInfo (dropConn v c)).Tied :=
      T.drop hvidle ⟨hreqRemain ▸ hr.1, hvremain.1 ▸ hr.2⟩
    generalize hs1 : s.setServer y.serverInfo (dropConn v c) = s₁ at T1
    have hserver₁ : ∀ j, s₁.serverList j = if j = y.serverInfo then dropConn v c else s.serverList j := by
      intro j
      rw [← hs1, setServer_apply]
    obtain ⟨G2, hk, hnone, hrecv, hstate⟩ := T1.abortRequests c (-ecRequestAborted)
    generalize s₁.abortRequests c (-ecRequestAborted) = s₂ at G2 hk hnone hrecv hstate
    have hconns₁ : s₁.conns = s.conns := by rw [← hs1]; rfl
    obtain hsets : ∀ i, s₂.connsOf i = s.connsOf i ∧ s₂.connectingOf i = s.connectingOf i := fun i =>
      connsOf_congr (fun d => by rw [hk.server, connServer, connServer, hconns₁])
        (fun d => by rw [hstate, connState, connState, hconns₁]) i
    have hsets₁ : ∀ i, s₁.connsOf i = s.connsOf i ∧ s₁.connectingOf i = s.connectingOf i := fun i =>
      connsOf_congr (fun d => by rw [connServer, connServer, hconns₁]) (fun d => by rw [connState, connState, hconns₁]) i
    -- the aborts leave the counters of the connections alone
    have hremain₂ : ∀ j, (s₂.serverList j).connRemain = (s.serverList j).connRemain := by
      intro j
      have h := G2.steady.conns j
      rw [(hsets j).1, (hsets₁ j).1, hserver₁] at h
      split at h
      · next hj =>
        rw [hvremain.1, ← hj] at h
        exact (add_left_inj _).mp h
      · exact (add_left_inj _).mp h
    have hconnecting₂ : ∀ j, (s₂.serverList j).connConnecting =
        (s.serverList j).connConnecting - if j = y.serverInfo ∧ y.state = .connecting then 1 else 0 := by
      intro j
      have h := G2.steady.connecting j
      rw [(hsets j).2, (hsets₁ j).2, hserver₁, sub_left_inj] at h
      rw [h]
      by_cases hj : j = y.serverInfo
      · rw [if_pos hj, hvconnecting, hj]
        refine congrArg _ (if_congr ?_ rfl rfl)
        exact ⟨fun h => ⟨rfl, h⟩, fun h => h.2⟩
      · rw [if_neg hj, if_neg (fun h => hj h.1), sub_zero]
    have hidle₂ : ∀ j, c ∉ (s₂.serverList j).idleList := by
      intro j hj
      rw [hk.idle, hserver₁] at hj
      split at hj
      · rw [hvidle] at hj
        exact (T.once _).not_mem_erase hj
      · next hne =>
        have hc := (T.idle j c hj).1
        rw [connServer_some hy] at hc
        exact hne (Option.some.inj hc).symm
    generalize hs3 : s₂.setServer y.serverInfo { s₂.serverList y.serverInfo with
      connRemain := (s₂.serverList y.serverInfo).connRemain + 1 } = s₃
    have hserver₃ : ∀ j, s₃.serverList j = if j = y.serverInfo then { s₂.serverList y.serverInfo with
        connRemain := (s₂.serverList y.serverInfo).connRemain + 1 } else s₂.serverList j := by
      intro j
      rw [← hs3, setServer_apply]
    have T3 : s₃.Tied := by
      rw [← hs3]
      refine G2.tied.setServer (fun d hd => G2.tied.idle _ d hd) (G2.tied.once _) ⟨(G2.tied.remain _).1, ?_⟩
      exact Int.le_add_one (G2.tied.remain _).2
    have T4 : (s₃.forget c).Tied := by
      refine T3.forget ?_ ?_ (fun j hj => ?_)
      · rw [← hs3]
        exact hnone
      · rw [← hs3]
        exact hrecv
      · rw [hserver₃] at hj
        split at hj
        · exact hidle₂ _ hj
        · exact hidle₂ _ hj
    refine ⟨T4, ?_⟩
    show Steady s (s₃.forget c)
    have hreq₃ : ∀ j, reqCounts (s₃.serverList j) = reqCounts (s₂.serverList j) := by
      intro j
      rw [hserver₃]
      split
      · next hj =>
        rw [hj]
        rfl
      · rfl
    have hreq₁ : ∀ j, reqCounts (s₁.serverList j) = reqCounts (s.serverList j) := by
      intro j
      rw [hserver₁]
      split
      · next hj => rw [hj, hvreq]
      · rfl
    have hsets₃ : ∀ i, s₃.connsOf i = s.connsOf i ∧ s₃.connectingOf i = s.connectingOf i := by
      intro i
      rw [← hs3]
      exact hsets i
    refine ⟨fun i st hst => ?_, fun i => ?_, fun i => ?_, fun i => ?_, fun i => ?_, ?_, ?_⟩
    · have h := G2.steady.requests i st hst
      rw [reqCount_of_counts (hreq₁ i), show s₁.slotsIn i st = s.slotsIn i st by rw [← hs1]; rfl,
        ← reqCount_of_counts (hreq₃ i), show s₂.slotsIn i st = s₃.slotsIn i st by rw [← hs3]; rfl] at h
      exact h
    · have h := G2.steady.load i
      rw [reqLoad_of_counts (hreq₁ i), ← reqLoad_of_counts (hreq₃ i)] at h
      exact h
    · rw [(T3.ncard_forget c i).1, (hsets₃ i).1, unit_connsOf hy]
      show (s₃.serverList i).connRemain + _ = _
      rw [hserver₃]
      split
      · next hi =>
        show (s₂.serverList y.serverInfo).connRemain + 1 + _ = _
        rw [hremain₂, hi]
        ring
      · rw [hremain₂]
        ring
    · rw [(T3.ncard_forget c i).2, (hsets₃ i).2, unit_connectingOf hy]
      show (s₃.serverList i).connConnecting - _ = _
      have h : (s₃.serverList i).connConnecting = (s₂.serverList i).connConnecting := by
        rw [hserver₃]
        split
        · next hi => rw [hi]
        · rfl
      rw [h, hconnecting₂]
      ring
    · have h1 := G2.steady.total i
      have h2 : (s₃.serverList i).connTotal = (s₂.serverList i).connTotal := by
        rw [hserver₃]
        split
        · next hi => rw [hi]
        · rfl
      have h3 : (s₁.serverList i).connTotal = (s.serverList i).connTotal := by
        rw [hserver₁]
        split
        · next hi => rw [hvremain.2, hi]
        · rfl
      exact (h2.trans h1).trans h3
    · have h := G2.steady.done
      rw [← hs3]
      rw [← hs1] at h
      exact h
    · have h := G2.steady.servers
      rw [← hs3]
      rw [← hs1] at h
      exact h

theorem Tied.close (T : s.Tied) (c : Nat) (err : Int) : Goes s (s.close c err) := by
  have G := (T.abortRequests c err).1
  unfold NCPool.close
  dsimp only
  split
  · exact G
  · exact G.trans (G.tied.deleteConn c)

theorem Tied.abortSendSide (T : s.Tied) (c : Nat) (err : Int) : Goes s (s.abortSendSide c err) := by
  obtain ⟨G1, hnone, -⟩ := T.abortSreq c err
  unfold NCPool.abortSendSide
  dsimp only
  split
  · exact G1.trans (G1.tied.close c err)
  · next hbusy =>
    split
    · exact G1
    · next y hy =>
      -- a connection with requests that were sent is connected
      obtain ⟨u, hu⟩ := List.exists_mem_of_ne_nil _ (fun h => hbusy (.inr h))
      obtain ⟨y', hy', hst⟩ := G1.tied.recv u c ((G1.tied.lists.mem _ u).mp hu)
      obtain rfl := Option.some.inj (hy.symm.trans hy')
      have G2 : Goes (s.abortSreq c err) ((s.abortSreq c err).setServer y.serverInfo
          { dropConn ((s.abortSreq c err).serverList y.serverInfo) c with
            busyList := c :: (dropConn ((s.abortSreq c err).serverList y.serverInfo) c).busyList }) :=
        ⟨G1.tied.drop rfl (G1.tied.remain _), Steady.setServer G1.tied rfl rfl⟩
      refine (G1.trans G2).trans (G2.tied.setConn hy rfl ?_ (fun t ht => ?_))
      · exact ⟨fun h => (by cases h), fun h => absurd h hst⟩
      · rw [sreqOf, hy] at hnone
        have ht' : y.sreq = some t := ht
        rw [show y.sreq = none from hnone] at ht'
        cases ht'

theorem Tied.switchToIdle (T : s.Tied) (c : Nat) : Goes s (s.switchToIdle c) := by
  unfold NCPool.switchToIdle
  split
  · exact T.goes
  · next y hy =>
    dsimp only
    generalize hv : (if y.state = .connecting then
      { dropConn (s.serverList y.serverInfo) c with
        connConnecting := (dropConn (s.serverList y.serverInfo) c).connConnecting - 1 }
      else dropConn (s.serverList y.serverInfo) c) = v
    have hvidle : v.idleList = (s.serverList y.serverInfo).idleList.erase c := by
      rw [← hv]
      split <;> rfl
    have hvreq : reqCounts v = reqCounts (s.serverList y.serverInfo) := by
      rw [← hv]
      split <;> rfl
    have hvremain : v.connRemain = (s.serverList y.serverInfo).connRemain ∧
        v.connTotal = (s.serverList y.serverInfo).connTotal := by
      rw [← hv]
      split
      · exact ⟨rfl, rfl⟩
      · exact ⟨rfl, rfl⟩
    have hvconnecting : v.connConnecting =
        (s.serverList y.serverInfo).connConnecting - if y.state = .connecting then 1 else 0 := by
      rw [← hv]
      split
      · rfl
      · exact (sub_zero _).symm
    generalize hs' : (s.setServer y.serverInfo { v with idleList := c :: v.idleList }).setConn c
      { y with state := .connected } = s'
    have hconns : ∀ d, d ≠ c → s'.conns d = s.conns d := by
      intro d hd
      rw [← hs']
      exact Function.update_of_ne hd ..
    have hself : s'.conns c = some { y with state := .connected } := by
      rw [← hs']
      exact Function.update_self ..
    have hserver : ∀ j, s'.serverList j = if j = y.serverInfo then { v with idleList := c :: v.idleList }
        else s.serverList j := by
      intro j
      rw [← hs']
      exact setServer_apply ..
    have hcs : ∀ d, s'.connServer d = s.connServer d := by
      intro d
      by_cases hd : d = c
      · rw [hd, connServer_some hself, connServer_some hy]
      · rw [connServer, connServer, hconns d hd]
    have hready : ∀ d, s.Ready d ∨ d = c → s'.Ready d := by
      intro d hd
      by_cases hdc : d = c
      · rw [hdc]
        exact ⟨_, hself, ConnState.noConfusion⟩
      · rw [Ready, hconns d hdc]
        exact hd.resolve_right hdc
    have hreq : ∀ j, reqCounts (s'.serverList j) = reqCounts (s.serverList j) := by
      intro j
      rw [hserver]
      split
      · next hj =>
        rw [hj]
        exact hvreq
      · rfl
    have hremain : ∀ j, (s'.serverList j).connRemain = (s.serverList j).connRemain ∧
        (s'.serverList j).connTotal = (s.serverList j).connTotal := by
      intro j
      rw [hserver]
      split
      · next hj =>
        rw [hj]
        exact hvremain
      · exact ⟨rfl, rfl⟩
    constructor
    · refine T.of_conns (by rw [← hs']; rfl) (by rw [← hs']; rfl) (by rw [← hs']; rfl) (by rw [← hs']; rfl)
        (by rw [← hs']; rfl) (fun d t hd => ?_) (fun t d hd => hready d (.inl (T.recv t d hd))) (fun j d hd => ?_)
        (fun j => ?_) (fun d j hd => T.owners d j (hcs d ▸ hd)) ?_ (fun j => ?_)
      · have hd' : s.sreqOf d = some t := by
          by_cases hdc : d = c
          · rw [hdc, sreqOf, hself] at hd
            rw [hdc, sreqOf, hy]
            exact hd
          · rw [sreqOf, hconns d hdc] at hd
            exact hd
        obtain ⟨h1, h2, h3, h4, h5⟩ := T.sreq d t hd'
        rw [hcs]
        exact ⟨h1, h2, h3, h4, hready d (.inl h5)⟩
      · rw [hcs]
        rw [hserver] at hd
        split at hd
        · next hj =>
          rcases List.mem_cons.mp hd with rfl | hd
          · rw [hj]
            exact ⟨connServer_some hy, hready d (.inr rfl)⟩
          · rw [hvidle, ← hj] at hd
            have h := T.idle j d (List.mem_of_mem_erase hd)
            exact ⟨h.1, hready d (.inl h.2)⟩
        · exact ⟨(T.idle j d hd).1, hready d (.inl (T.idle j d hd).2)⟩
      · rw [hserver]
        split
        · show (c :: v.idleList).Nodup
          rw [hvidle]
          exact List.nodup_cons.mpr ⟨(T.once _).not_mem_erase, (T.once _).erase c⟩
        · exact T.once j
      · refine T.finite.subset (fun d hd => ?_)
        by_cases hdc : d = c
        · rw [hdc]
          exact fun h => by rw [hy] at h; cases h
        · show s.conns d ≠ none
          rw [← hconns d hdc]
          exact hd
      · have h : (s'.serverList j).reqRemain = (s.serverList j).reqRemain := congrArg (fun p => p.2.2.2) (hreq j)
        rw [h, (hremain j).1]
        exact T.remain j
    · refine Steady.conn (c := c) T (by rw [← hs']; exact ⟨rfl, rfl⟩) (by rw [← hs']; rfl) (by rw [← hs']; rfl)
        (by rw [← hs']; rfl) (by rw [← hs']; rfl)
        hconns hreq (fun j => (hremain j).2) (fun j => ?_) (fun j => ?_)
      · rw [unit_connsOf hy, unit_connsOf hself, (hremain j).1]
        ring
      · have hzero : (if j = y.serverInfo ∧ ConnState.connected = .connecting then (1 : Int) else 0) = 0 :=
          if_neg (fun h => by cases h.2)
        rw [unit_connectingOf hy, unit_connectingOf hself, hserver]
        show _ = _ - _ + if j = y.serverInfo ∧ ConnState.connected = .connecting then (1 : Int) else 0
        rw [hzero, add_zero]
        by_cases hj : j = y.serverInfo
        · rw [if_pos hj, hj]
          show v.connConnecting = _
          rw [hvconnecting]
          refine congrArg _ (if_congr ?_ rfl rfl)
          exact ⟨fun h => ⟨rfl, h⟩, fun h => h.2⟩
        · rw [if_neg hj, if_neg (fun h => hj h.1), sub_zero]

theorem unit_shift {st₀ : TransState} (s' : NCPool) (st₁ : TransState) (ht : t < s.maxRequests)
    (hmax : s'.maxRequests = s.maxRequests)
    (h0 : (s.transList t).server = some i ∧ (s.transList t).state = st₀)
    (h1 : (s'.transList t).server = some i ∧ (s'.transList t).state = st₁) (j : Nat) (st : TransState) :
    Tally.unit (s.slotsIn j st) t = (if j = i ∧ st = st₀ then 1 else 0) ∧
      Tally.unit (s'.slotsIn j st) t = if j = i ∧ st = st₁ then 1 else 0 := by
  rw [unit_slotsIn ht, unit_slotsIn (hmax.symm ▸ ht), h0.1, h0.2, h1.1, h1.2]
  constructor
  · refine if_congr ?_ rfl rfl
    exact ⟨fun h => ⟨(Option.some.inj h.1).symm, h.2.symm⟩, fun h => ⟨congrArg some h.1.symm, h.2.symm⟩⟩
  · refine if_congr ?_ rfl rfl
    exact ⟨fun h => ⟨(Option.some.inj h.1).symm, h.2.symm⟩, fun h => ⟨congrArg some h.1.symm, h.2.symm⟩⟩

theorem Tied.sent (T : s.Tied) (ht : t < s.maxRequests) (hst : (s.transList t).state = .send)
    (hs : (s.transList t).server = some i) (hready : s.Ready c) (hsreq : ∀ d, s.sreqOf d ≠ some t) :
    Goes s (((s.setTrans t { s.transList t with state := .recv }).listAddTail t (.conn c)).setServer i
      { s.serverList i with reqSend := (s.serverList i).reqSend - 1, reqRecv := (s.serverList i).reqRecv + 1 }) := by
  have hf := T.slots t ht
  rw [hst] at hf
  obtain ⟨hres, hlink, i', hi', hs'⟩ := hf
  obtain rfl := Option.some.inj (hs.symm.trans hs')
  have hlists : ((s.setTrans t { s.transList t with state := .recv }).listAddTail t (.conn c)).ListsOk := by
    have h1 : (s.setTrans t { s.transList t with state := .recv }).ListsOk := T.lists.setTrans rfl
    refine h1.listAddTail ?_ (.conn c)
    show (Function.update s.transList t _ t).link = none
    rw [Function.update_self]
    exact hlink
  generalize hp : ((s.setTrans t { s.transList t with state := .recv }).listAddTail t (.conn c)).setServer i
    { s.serverList i with reqSend := (s.serverList i).reqSend - 1, reqRecv := (s.serverList i).reqRecv + 1 } = p
  have hself : p.transList t = { s.transList t with state := .recv, link := some (.conn c) } := by
    rw [← hp]
    show Function.update (Function.update s.transList t _) t { Function.update s.transList t _ t with link := _ } t = _
    rw [Function.update_self, Function.update_self]
  have hother : ∀ u, u ≠ t → p.transList u = s.transList u := by
    intro u hu
    rw [← hp]
    show Function.update (Function.update s.transList t _) t _ u = _
    rw [Function.update_of_ne hu, Function.update_of_ne hu]
  have hserver : ∀ j, p.serverList j = if j = i then { s.serverList i with
      reqSend := (s.serverList i).reqSend - 1, reqRecv := (s.serverList i).reqRecv + 1 } else s.serverList j := by
    intro j
    rw [← hp]
    exact setServer_apply ..
  constructor
  · refine T.slot ht (by rw [← hp]; rfl) (by rw [← hp]; rfl) (by rw [← hp]; rfl) (fun j => ?_) hother ?_ ?_
      (fun d hd => ?_) hsreq ?_ (fun j => ?_)
    · rw [hserver]
      split
      · next hj => rw [hj]
      · rfl
    · rw [← hp]
      exact hlists.of_eq rfl (fun _ => rfl)
    · rw [hself]
      exact ⟨hres, ⟨c, rfl⟩, i, hi', hs⟩
    · rw [hself] at hd
      obtain rfl := PoolList.conn.inj (Option.some.inj hd)
      exact hready
    · rw [← hp]
      exact T.free
    · rw [hserver]
      split
      · exact T.remain i
      · exact T.remain j
  · refine Steady.slot (t := t) (by rw [← hp]; exact ⟨rfl, rfl⟩) (by rw [← hp]; rfl) (by rw [← hp]; rfl) hother
      (fun j st hst' => ?_) (fun j => ?_) (fun j => ?_) ?_
    · obtain ⟨h1, h2⟩ := unit_shift p .recv ht (by rw [← hp]; rfl) ⟨hs, hst⟩
        ⟨by rw [hself]; exact hs, by rw [hself]⟩ j st
      rw [h1, h2, hserver]
      by_cases hj : j = i
      · subst hj
        rw [if_pos rfl]
        rcases hst' with rfl | rfl | rfl
        · simp [reqCount]
        · simp [reqCount]
        · simp [reqCount]
      · rw [if_neg hj, if_neg (fun h => hj h.1), if_neg (fun h => hj h.1), sub_zero, add_zero]
    · rw [hserver]
      split
      · next hj =>
        rw [hj]
        show _ + (_ - 1) + (_ + 1) = _ + _ + _
        ring
      · rfl
    · rw [hserver]
      split
      · next hj =>
        rw [hj]
        rfl
      · rfl
    · rw [← hp]
      show s.doneRequests - (Function.update s.lists (.conn c) (s.lists (.conn c) ++ [t]) PoolList.done).length = _
      rw [Function.update_of_ne PoolList.noConfusion]

theorem Tied.sendOK (T : s.Tied) {y : NCConnection} (hy : s.conns c = some y) (ht : y.sreq = some t) :
    Goes s (s.sendOK c t y) := by
  have hsr : s.sreqOf c = some t := by
    rw [sreqOf, hy]
    exact ht
  obtain ⟨hlt, hst, hconn, hs, hready⟩ := T.sreq c t hsr
  rw [connServer_some hy] at hs
  have G1 : Goes s (s.setConn c { y with sreq := none }) := T.setConn hy rfl Iff.rfl (fun t ht => by cases ht)
  have hready₁ : (s.setConn c { y with sreq := none }).Ready c := by
    rw [ready_setConn, if_pos rfl]
    obtain ⟨y', hy', hst'⟩ := hready
    obtain rfl := Option.some.inj (hy.symm.trans hy')
    exact hst'
  have hne : ∀ d, (s.setConn c { y with sreq := none }).sreqOf d ≠ some t := by
    intro d hd
    rw [sreqOf_setConn] at hd
    split at hd
    · cases hd
    · next hdc =>
      have hconn' := (T.sreq d t hd).2.2.1
      rw [hconn] at hconn'
      exact hdc (Option.some.inj hconn').symm
  have G2 := G1.trans (G1.tied.sent hlt hst hs hready₁ hne)
  unfold NCPool.sendOK
  dsimp only
  split
  · exact G2
  · -- the connection goes to the end of the idle list
    generalize hp : (((s.setConn c { y with sreq := none }).setTrans t
      { (s.setConn c { y with sreq := none }).transList t with state := .recv }).listAddTail t (.conn c)).setServer
      y.serverInfo _ = p at G2
    have hserver : p.serverList y.serverInfo = { s.serverList y.serverInfo with
        reqSend := (s.serverList y.serverInfo).reqSend - 1, reqRecv := (s.serverList y.serverInfo).reqRecv + 1 } := by
      rw [← hp]
      exact Function.update_self ..
    have hpc : p.conns c = some { y with sreq := none } := by
      rw [← hp]
      exact Function.update_self ..
    have hlast : Goes p (p.setServer y.serverInfo { dropConn (p.serverList y.serverInfo) c with
        idleList := (dropConn (p.serverList y.serverInfo) c).idleList ++ [c] }) := by
      refine ⟨G2.tied.setServer (fun d hd => ?_) ?_ (G2.tied.remain _), Steady.setServer G2.tied rfl rfl⟩
      · rcases List.mem_append.mp hd with hd | hd
        · exact G2.tied.idle _ d (List.mem_of_mem_erase hd)
        · rw [List.mem_singleton.mp hd]
          refine ⟨connServer_some (y := { y with sreq := none }) hpc, _, hpc, ?_⟩
          rw [ready_setConn, if_pos rfl] at hready₁
          exact hready₁
      · refine List.nodup_append.mpr ⟨(G2.tied.once _).erase c, List.nodup_singleton c, fun a ha b hb => ?_⟩
        rw [List.mem_singleton.mp hb]
        rintro rfl
        exact (G2.tied.once _).not_mem_erase ha
    have G3 := G2.trans hlast
    have heq : p.setServer y.serverInfo { dropConn (p.serverList y.serverInfo) c with
        idleList := (dropConn (p.serverList y.serverInfo) c).idleList ++ [c] } =
        (((s.setConn c { y with sreq := none }).setTrans t
          { (s.setConn c { y with sreq := none }).transList t with state := .recv }).listAddTail t (.conn c)).setServer
          y.serverInfo { dropConn (p.serverList y.serverInfo) c with
            idleList := (dropConn (p.serverList y.serverInfo) c).idleList ++ [c] } := by
      rw [← hp]
      unfold NCPool.setServer
      dsimp only
      rw [Function.update_idem]
    rw [heq, hserver] at G3
    exact G3

theorem Tied.sendRequest (T : s.Tied) (c : Nat) (q : SendResult) (h : s.sendRequest c q = some s') : Goes s s' := by
  unfold NCPool.sendRequest at h
  split at h
  · cases h
  · next y hy =>
    split at h
    · cases h
    · next t ht =>
      cases q with
      | moreData =>
        obtain rfl := Option.some.inj h
        exact T.goes
      | done =>
        obtain rfl := Option.some.inj h
        exact T.sendOK hy ht
      | error =>
        obtain rfl := Option.some.inj h
        exact T.abortSendSide c _

end NCPool
end Dtc
