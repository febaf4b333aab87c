import DtcServer.NcPool
import DtcServer.Lives
import Mathlib.Data.List.Nodup
/-!
# NcPoolSpec — what the operations of the client's pool do

Lists, slots with their connections, idle lists of the servers, and the book of the requests are invariants of their own.
-/
namespace Dtc

/-- Where a request is in its life. -/
inductive ReqLife where
  | new | opened | done | collected
  deriving DecidableEq, Repr

/-- **The life of a request**: it enters `doneList` once and is collected once. -/
def ReqLife.next : ReqLife → ReqAct → Option ReqLife
  | .new, .add => some .opened
  | .opened, .finish => some .done
  | .done, .collect => some .collected
  | _, _ => none

def reqLife (h : List (Nat × ReqAct)) (n : Nat) : Option ReqLife := Lives.life ReqLife.next .new h n

theorem reqLife_self (h : List (Nat × ReqAct)) (n : Nat) (a : ReqAct) :
    reqLife ((n, a) :: h) n = (reqLife h n).bind (fun l => l.next a) := Lives.life_self ..

theorem reqLife_ne (h : List (Nat × ReqAct)) {n m : Nat} (hnm : n ≠ m) (a : ReqAct) :
    reqLife ((m, a) :: h) n = reqLife h n := Lives.life_ne _ _ h hnm a

namespace NCPool

variable {s s' s'' : NCPool} {t u c i n : Nat} {l : PoolList} {x : NCTransation} {err : Int}

/-- A slot is in the list that its `link` says, once. -/
structure ListsOk (s : NCPool) : Prop where
  mem : ∀ l t, t ∈ s.lists l ↔ (s.transList t).link = some l
  nodup : ∀ l, (s.lists l).Nodup

/-- What an operation on slots and lists leaves alone. -/
structure Quiet (s s' : NCPool) : Prop where
  conns : s'.conns = s.conns
  idle : ∀ i, (s'.serverList i).idleList = (s.serverList i).idleList
  mode : ∀ i, (s'.serverList i).mode = (s.serverList i).mode
  max : s'.maxRequests = s.maxRequests
  issued : s'.issued = s.issued
  collected : s'.collected = s.collected
  numRequests : s'.numRequests = s.numRequests

theorem Quiet.refl (s : NCPool) : Quiet s s := ⟨rfl, fun _ => rfl, fun _ => rfl, rfl, rfl, rfl, rfl⟩

theorem Quiet.trans (h : Quiet s s') (h' : Quiet s' s'') : Quiet s s'' :=
  ⟨h'.conns.trans h.conns, fun i => (h'.idle i).trans (h.idle i), fun i => (h'.mode i).trans (h.mode i),
    h'.max.trans h.max, h'.issued.trans h.issued, h'.collected.trans h.collected, h'.numRequests.trans h.numRequests⟩

theorem ListsOk.of_eq (h : s.ListsOk) (hl : s'.lists = s.lists)
    (ht : ∀ u, (s'.transList u).link = (s.transList u).link) : s'.ListsOk :=
  ⟨fun l u => by rw [hl, ht u]; exact h.mem l u, fun l => by rw [hl]; exact h.nodup l⟩

theorem ListsOk.setTrans (h : s.ListsOk) (hx : x.link = (s.transList t).link) : (s.setTrans t x).ListsOk := by
  refine h.of_eq rfl (fun u => ?_)
  show (Function.update s.transList t x u).link = _
  rw [Function.update_apply]
  split
  · next hu => rw [hu, hx]
  · rfl

theorem listDel_trans (s : NCPool) (t : Nat) :
    (s.listDel t).transList = Function.update s.transList t { s.transList t with link := none } := by
  unfold listDel
  split
  · next h =>
    rw [← h]
    exact (Function.update_eq_self t s.transList).symm
  · rfl

theorem listDel_quiet (s : NCPool) (t : Nat) : Quiet s (s.listDel t) := by
  unfold listDel
  split
  · exact Quiet.refl s
  · exact ⟨rfl, fun _ => rfl, fun _ => rfl, rfl, rfl, rfl, rfl⟩

theorem listDel_history (s : NCPool) (t : Nat) : (s.listDel t).history = s.history := by
  unfold listDel
  split <;> rfl

theorem listDel_serverList (s : NCPool) (t : Nat) : (s.listDel t).serverList = s.serverList := by
  unfold listDel
  split <;> rfl

theorem listDel_list_ne (h : (s.transList t).link ≠ some l) : (s.listDel t).lists l = s.lists l := by
  unfold listDel
  split
  · rfl
  · next l' hl' =>
    show Function.update s.lists l' _ l = _
    rw [Function.update_of_ne]
    rintro rfl
    exact h hl'

theorem listDel_list (h : (s.transList t).link = some l) : (s.listDel t).lists l = (s.lists l).erase t := by
  unfold listDel
  rw [h]
  exact Function.update_self ..

theorem ListsOk.listDel (h : s.ListsOk) (t : Nat) : (s.listDel t).ListsOk := by
  have htrans := listDel_trans s t
  have hlink : ∀ u, ((s.listDel t).transList u).link = if u = t then none else (s.transList u).link := by
    intro u
    rw [htrans, Function.update_apply]
    split <;> rfl
  have hlists : ∀ l, (s.listDel t).lists l = (s.lists l).erase t := by
    intro l
    by_cases hl : (s.transList t).link = some l
    · exact listDel_list hl
    · rw [listDel_list_ne hl, List.erase_of_not_mem (fun hm => hl ((h.mem l t).mp hm))]
  refine ⟨fun l u => ?_, fun l => ?_⟩
  · rw [hlists, (h.nodup l).mem_erase_iff, h.mem, hlink]
    split
    · next hu => simp [hu]
    · next hu => simp [hu]
  · rw [hlists]
    exact (h.nodup l).erase t

theorem ListsOk.link (h : s.ListsOk) (ht : (s.transList t).link = none) {ts : List Nat}
    (hmem : ∀ u, u ∈ ts ↔ u = t ∨ u ∈ s.lists l) (hnd : ts.Nodup) :
    ((s.setList l ts).setTrans t { s.transList t with link := some l }).ListsOk := by
  refine ⟨fun l' u => ?_, fun l' => ?_⟩
  · show u ∈ Function.update s.lists l ts l' ↔ (Function.update s.transList t _ u).link = _
    rw [Function.update_apply, Function.update_apply]
    by_cases hl : l' = l
    · rw [if_pos hl, hmem, h.mem, hl]
      by_cases hu : u = t
      · simp [hu]
      · simp [hu]
    · rw [if_neg hl, h.mem]
      by_cases hu : u = t
      · rw [if_pos hu, hu, ht]
        simp [Ne.symm hl]
      · rw [if_neg hu]
  · show (Function.update s.lists l ts l').Nodup
    rw [Function.update_apply]
    split
    · exact hnd
    · exact h.nodup l'

theorem ListsOk.not_mem (h : s.ListsOk) (ht : (s.transList t).link = none) (l : PoolList) : t ∉ s.lists l := by
  rw [h.mem, ht]
  exact fun h => by cases h

theorem ListsOk.listAddTail (h : s.ListsOk) (ht : (s.transList t).link = none) (l : PoolList) :
    (s.listAddTail t l).ListsOk := by
  refine h.link ht (fun u => ?_) ?_
  · rw [List.mem_append, List.mem_singleton, or_comm]
  · rw [List.nodup_append]
    refine ⟨h.nodup l, List.nodup_singleton t, fun a ha b hb => ?_⟩
    rw [List.mem_singleton.mp hb]
    rintro rfl
    exact h.not_mem ht l ha

theorem ListsOk.listAdd (h : s.ListsOk) (ht : (s.transList t).link = none) (l : PoolList) : (s.listAdd t l).ListsOk :=
  h.link ht (fun _ => List.mem_cons) (List.nodup_cons.mpr ⟨h.not_mem ht l, h.nodup l⟩)

def finished (x : NCTransation) (err : Int) : NCTransation :=
  { x with
    conn := none
    link := some .done
    server := none
    result := if err = 0 then x.result else some (.aborted err)
    state := .done }

theorem transationFinished_trans (s : NCPool) (t : Nat) : (s.transationFinished t).transList =
    Function.update s.transList t { s.transList t with state := .done, link := some .done } := by
  have h : ((s.setTrans t { s.transList t with state := .done }).listAddTail t .done).transList =
      Function.update s.transList t { s.transList t with state := .done, link := some .done } := by
    show Function.update (Function.update s.transList t _) t _ = _
    rw [Function.update_idem]
    show Function.update s.transList t { Function.update s.transList t _ t with link := some .done } = _
    rw [Function.update_self]
  unfold transationFinished
  dsimp only
  split
  · exact h
  · exact h

theorem transationFinished_quiet (s : NCPool) (t : Nat) : Quiet s (s.transationFinished t) := by
  unfold transationFinished
  dsimp only
  split
  · exact ⟨rfl, fun _ => rfl, fun _ => rfl, rfl, rfl, rfl, rfl⟩
  · exact ⟨rfl, fun _ => rfl, fun _ => rfl, rfl, rfl, rfl, rfl⟩

theorem transationFinished_history (hp : (s.transList t).packet = some n) :
    (s.transationFinished t).history = (n, .finish) :: s.history := by
  have h : (((s.setTrans t { s.transList t with state := .done }).listAddTail t .done).transList t).packet = some n := by
    dsimp only [listAddTail, setTrans, setList]
    rw [Function.update_self]
    dsimp only
    rw [Function.update_self]
    exact hp
  unfold transationFinished
  dsimp only
  rw [show NCTransation.packet _ = some n from h]
  rfl

theorem transationFinished_list_ne (s : NCPool) (t : Nat) (hl : l ≠ .done) :
    (s.transationFinished t).lists l = s.lists l := by
  unfold transationFinished
  dsimp only
  split
  · exact Function.update_of_ne hl ..
  · exact Function.update_of_ne hl ..

theorem ListsOk.transationFinished (h : s.ListsOk) (ht : (s.transList t).link = none) :
    (s.transationFinished t).ListsOk := by
  have h1 : (s.setTrans t { s.transList t with state := .done }).ListsOk := h.setTrans rfl
  have hlink : ((s.setTrans t { s.transList t with state := .done }).transList t).link = none := by
    show (Function.update s.transList t _ t).link = _
    rw [Function.update_self]
    exact ht
  have h2 := h1.listAddTail hlink .done
  unfold NCPool.transationFinished
  dsimp only
  split
  · exact h2.of_eq rfl (fun _ => rfl)
  · exact h2.of_eq rfl (fun _ => rfl)

theorem requestDoneAndReady_quiet (s : NCPool) (i : Nat) (st : TransState) : Quiet s (s.requestDoneAndReady i st) := by
  have hset : ∀ v : NCServerInfo, v.idleList = (s.serverList i).idleList → v.mode = (s.serverList i).mode →
      Quiet s (s.setServer i v) := by
    intro v hi hm
    refine ⟨rfl, fun j => ?_, fun j => ?_, rfl, rfl, rfl, rfl⟩
    · show (Function.update s.serverList i v j).idleList = _
      rw [Function.update_apply]
      split
      · next hj => rw [hj, hi]
      · rfl
    · show (Function.update s.serverList i v j).mode = _
      rw [Function.update_apply]
      split
      · next hj => rw [hj, hm]
      · rfl
  unfold requestDoneAndReady
  dsimp only
  split
  · exact hset _ rfl rfl
  · exact hset _ rfl rfl
  · exact hset _ rfl rfl
  · exact Quiet.refl s

theorem requestDoneAndReady_rest (s : NCPool) (i : Nat) (st : TransState) :
    (s.requestDoneAndReady i st).transList = s.transList ∧ (s.requestDoneAndReady i st).lists = s.lists ∧
      (s.requestDoneAndReady i st).history = s.history := by
  unfold requestDoneAndReady
  dsimp only
  split
  · exact ⟨rfl, rfl, rfl⟩
  · exact ⟨rfl, rfl, rfl⟩
  · exact ⟨rfl, rfl, rfl⟩
  · exact ⟨rfl, rfl, rfl⟩

/-- The slot on its way out of `Abort`, before `TransationFinished`. -/
def aborting (s : NCPool) (t i : Nat) (err : Int) : NCPool :=
  let s := (s.setTrans t { s.transList t with conn := none }).listDel t
  let s := s.requestDoneAndReady i (s.transList t).state
  s.setTrans t { s.transList t with
    server := none
    result := if err = 0 then (s.transList t).result else some (.aborted err) }

theorem abort_eq (h : (s.transList t).server = some i) : s.abort t err = (s.aborting t i err).transationFinished t := by
  unfold abort aborting
  rw [h]

theorem abort_none (h : (s.transList t).server = none) : s.abort t err = s := by
  unfold abort
  rw [h]

theorem aborting_trans (s : NCPool) (t i : Nat) (err : Int) : (s.aborting t i err).transList =
    Function.update s.transList t { s.transList t with
      conn := none
      link := none
      server := none
      result := if err = 0 then (s.transList t).result else some (.aborted err) } := by
  unfold aborting
  dsimp only [setTrans]
  rw [(requestDoneAndReady_rest _ _ _).1, listDel_trans]
  dsimp only
  rw [Function.update_idem, Function.update_idem, Function.update_self, Function.update_self]

theorem aborting_quiet (s : NCPool) (t i : Nat) (err : Int) : Quiet s (s.aborting t i err) := by
  have h1 : Quiet s (s.setTrans t { s.transList t with conn := none }) := ⟨rfl, fun _ => rfl, fun _ => rfl, rfl, rfl, rfl, rfl⟩
  have h2 := (h1.trans (listDel_quiet _ t)).trans (requestDoneAndReady_quiet _ i
    ((s.setTrans t { s.transList t with conn := none }).listDel t |>.transList t).state)
  exact h2.trans ⟨rfl, fun _ => rfl, fun _ => rfl, rfl, rfl, rfl, rfl⟩

theorem aborting_history (s : NCPool) (t i : Nat) (err : Int) : (s.aborting t i err).history = s.history := by
  unfold aborting
  dsimp only [setTrans]
  rw [(requestDoneAndReady_rest _ _ _).2.2, listDel_history]

theorem aborting_list_ne (h : (s.transList t).link ≠ some l) : (s.aborting t i err).lists l = s.lists l := by
  unfold aborting
  dsimp only [setTrans]
  rw [(requestDoneAndReady_rest _ _ _).2.1, listDel_list_ne]
  show (Function.update s.transList t _ t).link ≠ _
  rw [Function.update_self]
  exact h

theorem ListsOk.aborting (h : s.ListsOk) (t i : Nat) (err : Int) : (s.aborting t i err).ListsOk := by
  have h1 : (s.setTrans t { s.transList t with conn := none }).ListsOk := h.setTrans rfl
  have h2 := h1.listDel t
  obtain ⟨ht, hl, -⟩ := requestDoneAndReady_rest ((s.setTrans t { s.transList t with conn := none }).listDel t) i
    ((s.setTrans t { s.transList t with conn := none }).listDel t |>.transList t).state
  have h3 := h2.of_eq hl (fun u => by rw [ht])
  exact h3.setTrans rfl

theorem abort_trans (h : (s.transList t).server = some i) :
    (s.abort t err).transList = Function.update s.transList t (finished (s.transList t) err) := by
  rw [abort_eq h, transationFinished_trans, aborting_trans, Function.update_idem, Function.update_self]
  rfl

theorem abort_quiet (s : NCPool) (t : Nat) (err : Int) : Quiet s (s.abort t err) := by
  cases h : (s.transList t).server with
  | none =>
    rw [abort_none h]
    exact Quiet.refl s
  | some i =>
    rw [abort_eq h]
    exact (aborting_quiet s t i err).trans (transationFinished_quiet _ t)

theorem abort_history (h : (s.transList t).server = some i) (hp : (s.transList t).packet = some n) :
    (s.abort t err).history = (n, .finish) :: s.history := by
  have hp' : ((s.aborting t i err).transList t).packet = some n := by
    rw [aborting_trans, Function.update_self]
    exact hp
  rw [abort_eq h, transationFinished_history hp', aborting_history]

theorem ListsOk.abort (h : s.ListsOk) (t : Nat) (err : Int) : (s.abort t err).ListsOk := by
  cases hs : (s.transList t).server with
  | none =>
    rw [abort_none hs]
    exact h
  | some i =>
    rw [abort_eq hs]
    refine (h.aborting t i err).transationFinished ?_
    rw [aborting_trans, Function.update_self]

theorem abort_list_ne (hl : l ≠ .done) (h : (s.transList t).link ≠ some l) : (s.abort t err).lists l = s.lists l := by
  cases hs : (s.transList t).server with
  | none => rw [abort_none hs]
  | some i => rw [abort_eq hs, transationFinished_list_ne _ _ hl, aborting_list_ne h]

def connServer (s : NCPool) (c : Nat) : Option Nat := (s.conns c).map (fun x => x.serverInfo)

def sreqOf (s : NCPool) (c : Nat) : Option Nat := (s.conns c).bind (fun x => x.sreq)

def FitsAs (s : NCPool) (t : Nat) (x : NCTransation) : TransState → Prop
  | .idle => x.link = some .free ∧ x.packet = none ∧ x.server = none ∧ x.conn = none ∧ x.result = none
  | .wait => x.packet ≠ none ∧ x.conn = none ∧ x.result = none ∧ ∃ i, x.server = some i ∧ x.link = some (.server i)
  | .send => x.packet ≠ none ∧ x.link = none ∧ x.result = none ∧
      ∃ i c, x.server = some i ∧ x.conn = some c ∧ s.connServer c = some i ∧ s.sreqOf c = some t
  | .recv => x.packet ≠ none ∧ x.result = none ∧
      ∃ i c, x.server = some i ∧ x.conn = some c ∧ s.connServer c = some i ∧ x.link = some (.conn c)
  | .done => x.packet ≠ none ∧ x.link = some .done ∧ x.conn = none ∧ x.result ≠ none

def Fits (s : NCPool) (t : Nat) : Prop := s.FitsAs t (s.transList t) (s.transList t).state

/-- **The links between slots and connections agree on both sides.** -/
structure Wired (s : NCPool) : Prop where
  lists : s.ListsOk
  slots : ∀ t, t < s.maxRequests → s.Fits t
  beyond : ∀ t, s.maxRequests ≤ t → (s.transList t).link = none ∧ (s.transList t).packet = none
  sreq : ∀ c t, s.sreqOf c = some t →
    t < s.maxRequests ∧ (s.transList t).state = .send ∧ (s.transList t).conn = some c
  free : s.numRequests + (s.lists .free).length = s.maxRequests

/-- The idle connections of a server exist and are its own. -/
structure IdleOk (s : NCPool) : Prop where
  conn : ∀ i c, c ∈ (s.serverList i).idleList → s.connServer c = some i
  nodup : ∀ i, (s.serverList i).idleList.Nodup

def SlotBooked (s : NCPool) (t n : Nat) : Prop :=
  let x := s.transList t
  ∃ q, s.issued[n]? = some q ∧ q.id = t + x.genId * s.maxRequests + 1 ∧ x.genId < s.maxRequestId ∧ q.tag = x.reqTag ∧
    q.sn = x.sn ∧ (∀ k, x.result = some (.arrived k) → k = x.sn) ∧
    reqLife s.history n = some (if x.state = .done then .done else .opened)

/-- **The book of the requests**: a request is new, in one slot, or collected. -/
structure Booked (s : NCPool) : Prop where
  inj : ∀ t u n, (s.transList t).packet = some n → (s.transList u).packet = some n → t = u
  slot : ∀ t n, (s.transList t).packet = some n → s.SlotBooked t n
  gone : ∀ n, (∀ t, (s.transList t).packet ≠ some n) →
    reqLife s.history n = some (if n < s.issued.length then .collected else .new)
  taken : ∀ n, n ∈ s.collected.map (fun e => e.req) ↔ reqLife s.history n = some .collected
  once : (s.collected.map (fun e => e.req)).Nodup
  entry : ∀ e ∈ s.collected, ∃ q, s.issued[e.req]? = some q ∧ e.tag = q.tag ∧ (e.asked = 0 ∨ e.asked = q.id) ∧
    (∀ k, e.result = .arrived k → k = q.sn) ∧ 0 < q.id ∧ q.id ≤ maxReqId

/-- **The invariant of the pool.** -/
structure Inv (s : NCPool) : Prop where
  wired : s.Wired
  idle : s.IdleOk
  booked : s.Booked
  size : 0 < s.maxRequests ∧ s.maxRequests ≤ 2 ^ 20

theorem Wired.move (W : s.Wired) (ht : t < s.maxRequests) (hlists : s'.ListsOk) (hmax : s'.maxRequests = s.maxRequests)
    (hother : ∀ u, u ≠ t → s'.transList u = s.transList u)
    (hserver : ∀ c i, s.connServer c = some i → s'.connServer c = some i)
    (hsreq : ∀ c u, u ≠ t → (s'.sreqOf c = some u ↔ s.sreqOf c = some u))
    (hself : ∀ c, s'.sreqOf c = some t → (s'.transList t).state = .send ∧ (s'.transList t).conn = some c)
    (hfit : s'.Fits t) (hfree : s'.numRequests + (s'.lists .free).length = s'.maxRequests) : s'.Wired := by
  refine ⟨hlists, fun u hu => ?_, fun u hu => ?_, fun c u hu => ?_, hfree⟩
  · by_cases hut : u = t
    · rw [hut]
      exact hfit
    · have hf := W.slots u (hmax ▸ hu)
      rw [Fits] at hf ⊢
      rw [hother u hut]
      cases hst : (s.transList u).state with
      | idle =>
        rw [hst] at hf
        exact hf
      | wait =>
        rw [hst] at hf
        exact hf
      | send =>
        rw [hst] at hf
        obtain ⟨h1, h2, h3, i, c, h4, h5, h6, h7⟩ := hf
        exact ⟨h1, h2, h3, i, c, h4, h5, hserver c i h6, (hsreq c u hut).mpr h7⟩
      | recv =>
        rw [hst] at hf
        obtain ⟨h1, h2, i, c, h4, h5, h6, h7⟩ := hf
        exact ⟨h1, h2, i, c, h4, h5, hserver c i h6, h7⟩
      | done =>
        rw [hst] at hf
        exact hf
  · rw [hother u (fun he => by rw [he, hmax] at hu; exact Nat.not_lt.mpr hu ht)]
    exact W.beyond u (hmax ▸ hu)
  · by_cases hut : u = t
    · subst hut
      exact ⟨hmax ▸ ht, hself c hu⟩
    · rw [hother u hut, hmax]
      exact W.sreq c u ((hsreq c u hut).mp hu)

theorem Booked.move (B : s.Booked) (hp : (s.transList t).packet = some n)
    (hp' : (s'.transList t).packet = some n) (hother : ∀ u, u ≠ t → s'.transList u = s.transList u)
    (hmax : s'.maxRequests = s.maxRequests) (hissued : s'.issued = s.issued) (hcollected : s'.collected = s.collected)
    (hlife : ∀ m, m ≠ n → reqLife s'.history m = reqLife s.history m) (hslot : s'.SlotBooked t n) : s'.Booked := by
  have hpack : ∀ u, (s'.transList u).packet = (s.transList u).packet := by
    intro u
    by_cases hu : u = t
    · rw [hu, hp, hp']
    · rw [hother u hu]
  have hopen : reqLife s'.history n ≠ some .collected := by
    obtain ⟨q, -, -, -, -, -, -, h⟩ := hslot
    rw [h]
    split
    · exact fun h => by cases h
    · exact fun h => by cases h
  refine ⟨fun u v m hu hv => ?_, fun u m hu => ?_, fun m hm => ?_, fun m => ?_, ?_, fun e he => ?_⟩
  · rw [hpack] at hu hv
    exact B.inj u v m hu hv
  · by_cases hut : u = t
    · subst hut
      rw [hp'] at hu
      obtain rfl := Option.some.inj hu
      exact hslot
    · rw [hpack] at hu
      have hmn : m ≠ n := by
        rintro rfl
        exact hut (B.inj u t m hu hp)
      obtain ⟨q, h1, h2, h3, h4, h5, h6, h7⟩ := B.slot u m hu
      refine ⟨q, ?_⟩
      rw [hother u hut, hissued, hmax, hlife m hmn, maxRequestId, hmax]
      exact ⟨h1, h2, h3, h4, h5, h6, h7⟩
  · have hmn : m ≠ n := by
      rintro rfl
      exact hm t hp'
    rw [hlife m hmn, hissued]
    exact B.gone m (fun u hu => hm u (by rw [hpack]; exact hu))
  · rw [hcollected, B.taken]
    by_cases hmn : m = n
    · subst hmn
      obtain ⟨q, -, -, -, -, -, -, h⟩ := B.slot t m hp
      refine ⟨fun hc => ?_, fun hc => absurd hc hopen⟩
      rw [h] at hc
      split at hc
      · cases hc
      · cases hc
    · rw [hlife m hmn]
  · rw [hcollected]
    exact B.once
  · rw [hcollected] at he
    rw [hissued]
    exact B.entry e he

end NCPool
end Dtc
