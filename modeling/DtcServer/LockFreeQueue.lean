import Mathlib.Data.Finset.Card
import Mathlib.Data.Nat.ModEq
import Mathlib.Logic.Function.Basic
import Mathlib.Tactic.Positivity
import DtcServer.Machine
/-!
# LockFreeQueue — a ring that producers and consumers share without a lock (`LockFreeQueue`)

Every load, store and compare-and-swap of `EnQueue` and `DeQueue` is one step, and the steps of the threads interleave in any
order. Both operations compare two counters modulo the size of the ring, which they load one after the other.
-/
namespace Dtc

namespace LockFreeQueue

/-- The loop of the constructor; `none` while it has not ended. -/
def doubled (qSize : Nat) : Nat → Nat → Option Nat
  | 0, _ => none
  | fuel + 1, queueSize =>
    let queueSize := queueSize * 2 % 2 ^ 32
    if queueSize < qSize then doubled qSize fuel queueSize else some queueSize

/-- `m_queueSize` after the constructor, for the parameter `Q_SIZE`; fifteen rounds reach `2 ^ 31`. -/
def constructed (qSize : Nat) : Option Nat :=
  if 65536 < qSize then (doubled qSize 15 65536).map (· / 2) else some 65536

theorem doubled_ge {qSize n : Nat} : ∀ {fuel queueSize : Nat}, doubled qSize fuel queueSize = some n → qSize ≤ n
  | 0, _, h => by cases h
  | fuel + 1, queueSize, h => by
    unfold doubled at h
    dsimp only at h
    split_ifs at h with hlt
    · exact doubled_ge h
    · obtain rfl := Option.some.inj h
      omega

theorem constructed_pos {qSize n : Nat} (h : constructed qSize = some n) : 0 < n := by
  unfold constructed at h
  split_ifs at h with hlarge
  · obtain ⟨m, hm, rfl⟩ := Option.map_eq_some_iff.mp h
    have hle := doubled_ge hm
    omega
  · obtain rfl := Option.some.inj h
    decide

/-- Where a thread stands: outside, or before one of the atomic accesses of `EnQueue` and `DeQueue`, with the locals it still
needs.  `deqReadIndex` also has what `m_readIndex` was when `m_maximumReadIndex` was loaded. -/
inductive Local (α : Type)
  | idle
  | enqReadIndex (data : α)
  | enqWriteIndex (data : α) (currentReadIndex : Nat)
  | enqClaim (data : α) (currentWriteIndex : Nat)
  | enqStore (data : α) (currentWriteIndex : Nat)
  | enqPublish (data : α) (currentWriteIndex : Nat)
  | deqMaximum
  | deqReadIndex (currentMaximumReadIndex readIndexThen : Nat)
  | deqRead (currentReadIndex : Nat)
  | deqClaim (data : α) (currentReadIndex : Nat)

/-- The queue and its threads, with what happened so far: the number of operations that were started, what the successful
`EnQueue`s stored and the successful `DeQueue`s returned, each with its position, and for each report of an empty queue the
maximum that it loaded and the read index of that moment. -/
structure State (ι α : Type) where
  theQueue : Nat → α
  queueSize : Nat
  readIndex : Nat := 0
  writeIndex : Nat := 0
  maximumReadIndex : Nat := 0
  thread : ι → Local α := fun _ => .idle
  operations : Nat := 0
  enqueued : List (Nat × α) := []
  returned : List (Nat × α) := []
  reports : List (Nat × Nat) := []

inductive Action (ι α : Type)
  | enQueue (t : ι) (data : α)
  | deQueue (t : ι)
  | go (t : ι)

def next (count : Nat) : Nat := (count + 1) % 2 ^ 32

namespace State

variable {ι α : Type} [DecidableEq ι]

def countToIndex (s : State ι α) (count : Nat) : Nat := count % s.queueSize

def goto (s : State ι α) (t : ι) (l : Local α) : State ι α := { s with thread := Function.update s.thread t l }

def call (s : State ι α) (t : ι) (l : Local α) : Option (State ι α) :=
  match s.thread t with
  | .idle => if s.operations + 1 < 2 ^ 32 then some { s.goto t l with operations := s.operations + 1 } else none
  | _ => none

def go (s : State ι α) (t : ι) : Option (State ι α) :=
  match s.thread t with
  | .idle => none
  | .enqReadIndex data => some (s.goto t (.enqWriteIndex data s.readIndex))
  | .enqWriteIndex data currentReadIndex =>
    some (s.goto t (if s.countToIndex (next s.writeIndex) = s.countToIndex currentReadIndex then .idle
      else .enqClaim data s.writeIndex))
  | .enqClaim data currentWriteIndex =>
    some (if s.writeIndex = currentWriteIndex then
      { s.goto t (.enqStore data currentWriteIndex) with writeIndex := next currentWriteIndex }
    else s.goto t (.enqReadIndex data))
  | .enqStore data currentWriteIndex =>
    some { s.goto t (.enqPublish data currentWriteIndex) with
      theQueue := Function.update s.theQueue (s.countToIndex currentWriteIndex) data }
  | .enqPublish data currentWriteIndex =>
    some (if s.maximumReadIndex = currentWriteIndex then
      { s.goto t .idle with
        maximumReadIndex := next currentWriteIndex
        enqueued := s.enqueued ++ [(currentWriteIndex, data)] }
    else s)
  | .deqMaximum => some (s.goto t (.deqReadIndex s.maximumReadIndex s.readIndex))
  | .deqReadIndex currentMaximumReadIndex readIndexThen =>
    some (if s.countToIndex currentMaximumReadIndex = s.countToIndex s.readIndex then
      { s.goto t .idle with reports := s.reports ++ [(currentMaximumReadIndex, readIndexThen)] }
    else s.goto t (.deqRead s.readIndex))
  | .deqRead currentReadIndex =>
    some (s.goto t (.deqClaim (s.theQueue (s.countToIndex currentReadIndex)) currentReadIndex))
  | .deqClaim data currentReadIndex =>
    some (if s.readIndex = currentReadIndex then
      { s.goto t .idle with
        readIndex := next currentReadIndex
        returned := s.returned ++ [(currentReadIndex, data)] }
    else s.goto t .deqMaximum)

def step (s : State ι α) : Action ι α → Option (State ι α)
  | .enQueue t data => s.call t (.enqReadIndex data)
  | .deQueue t => s.call t .deqMaximum
  | .go t => s.go t

end State

/-- A queue as its constructor leaves it, with any memory in it. -/
def machine (ι α : Type) [DecidableEq ι] : Machine (State ι α) (Action ι α) where
  start s := ∃ theQueue qSize queueSize, constructed qSize = some queueSize ∧ s = ⟨theQueue, queueSize, 0, 0, 0, fun _ => .idle, 0, [], [], []⟩
  step := State.step

section Threads

variable {ι α : Type}

namespace State

/-- **The queue is first in, first out and loses nothing**: what was returned is the beginning of what was enqueued, in the
order of the positions; an element that was stored and not returned is still in its slot, and no thread is about to store into
the slot of a claimed position that is not its own; at most `m_queueSize - 1` positions are claimed and not read; and where a
queue was reported empty, everything published had been read when the maximum was loaded. -/
structure Fifo (s : State ι α) : Prop where
  prefix_enqueued : s.returned <+: s.enqueued
  positions : s.enqueued.map Prod.fst = List.range s.enqueued.length
  kept : ∀ x ∈ s.enqueued.drop s.returned.length, s.theQueue (s.countToIndex x.1) = x.2
  stored : ∀ t data w, s.thread t = .enqPublish data w → s.theQueue (s.countToIndex w) = data
  ownSlot : ∀ t data w, s.thread t = .enqStore data w → ∀ p, s.returned.length ≤ p → p < s.writeIndex →
    s.countToIndex p = s.countToIndex w → p = w
  enqueued_le : s.enqueued.length ≤ s.writeIndex
  held : s.writeIndex ≤ s.returned.length + (s.queueSize - 1)
  empty : ∀ x ∈ s.reports, x.1 = x.2

/-- **The comparison is not misled by an old counter**: one that lets `EnQueue` or `DeQueue` go on would do so with the counters
as they are now, and one that reports an empty queue is made with a read index that has not moved since the maximum was
loaded. -/
def Fits (s : State ι α) : Action ι α → Prop
  | .go t =>
    match s.thread t with
    | .enqWriteIndex _ currentReadIndex =>
      s.countToIndex (next s.writeIndex) = s.countToIndex s.readIndex →
        s.countToIndex (next s.writeIndex) = s.countToIndex currentReadIndex
    | .deqReadIndex currentMaximumReadIndex readIndexThen =>
      if s.countToIndex currentMaximumReadIndex = s.countToIndex s.readIndex then s.readIndex = readIndexThen
      else s.countToIndex s.maximumReadIndex ≠ s.countToIndex s.readIndex
    | _ => True
  | _ => True

end State

/-- An `EnQueue` that has not claimed its position. -/
def Local.Unclaimed : Local α → Prop
  | .enqReadIndex _ => True
  | .enqWriteIndex _ _ => True
  | .enqClaim _ _ => True
  | _ => False

/-- The position that the thread has claimed and not published. -/
def Local.claimed : Local α → Option Nat
  | .enqStore _ currentWriteIndex => some currentWriteIndex
  | .enqPublish _ currentWriteIndex => some currentWriteIndex
  | _ => none

namespace State

def LocalOk (s : State ι α) : Local α → Prop
  | .enqClaim _ currentWriteIndex =>
    currentWriteIndex ≤ s.writeIndex ∧ currentWriteIndex + 1 < s.readIndex + s.queueSize
  | .enqStore _ currentWriteIndex => s.maximumReadIndex ≤ currentWriteIndex ∧ currentWriteIndex < s.writeIndex
  | .enqPublish data currentWriteIndex =>
    s.maximumReadIndex ≤ currentWriteIndex ∧ currentWriteIndex < s.writeIndex ∧
      s.theQueue (currentWriteIndex % s.queueSize) = data
  | .deqReadIndex currentMaximumReadIndex readIndexThen =>
    readIndexThen ≤ currentMaximumReadIndex ∧ currentMaximumReadIndex < readIndexThen + s.queueSize
  | .deqRead currentReadIndex => currentReadIndex ≤ s.readIndex ∧ currentReadIndex < s.maximumReadIndex
  | .deqClaim data currentReadIndex =>
    currentReadIndex ≤ s.readIndex ∧ currentReadIndex < s.maximumReadIndex ∧
      (s.readIndex = currentReadIndex → s.enqueued[currentReadIndex]? = some (currentReadIndex, data))
  | _ => True

/-- **The joint invariant of the counters and of all threads' locals.** -/
structure Inv (s : State ι α) : Prop where
  read_le : s.readIndex ≤ s.maximumReadIndex
  maximum_le : s.maximumReadIndex ≤ s.writeIndex
  room : s.writeIndex < s.readIndex + s.queueSize
  positions : s.enqueued.map Prod.fst = List.range s.maximumReadIndex
  taken : s.returned = s.enqueued.take s.readIndex
  kept : ∀ (p : Nat) (data : α), s.readIndex ≤ p → s.enqueued[p]? = some (p, data) → s.theQueue (p % s.queueSize) = data
  locals : ∀ t, s.LocalOk (s.thread t)
  owner : ∀ t u w, (s.thread t).claimed = some w → (s.thread u).claimed = some w → t = u
  reports : ∀ x ∈ s.reports, x.1 = x.2
  /-- Every claim has its operation, and the ones that have not claimed are further operations. -/
  counted : ∃ F : Finset ι, (∀ t, (s.thread t).Unclaimed → t ∈ F) ∧ s.writeIndex + F.card ≤ s.operations
  few : s.operations < 2 ^ 32

end State

theorem eq_of_slot_eq {a p q n : Nat} (hp : a ≤ p) (hpn : p < a + n) (hq : a ≤ q) (hqn : q < a + n) (h : p % n = q % n) :
    p = q := by
  have habs : |(q : Int) - p| < n := by
    rw [abs_lt]
    omega
  exact Nat.ModEq.eq_of_abs_lt h habs

theorem next_eq {count : Nat} (h : count + 1 < 2 ^ 32) : next count = count + 1 := Nat.mod_eq_of_lt h

namespace State.Inv

variable {s : State ι α} {t : ι} {l : Local α}

theorem length_enqueued (h : s.Inv) : s.enqueued.length = s.maximumReadIndex := by
  simpa using congrArg List.length h.positions

theorem length_returned (h : s.Inv) : s.returned.length = s.readIndex := by
  rw [h.taken, List.length_take, h.length_enqueued]
  exact Nat.min_eq_left h.read_le

theorem getElem?_fst (h : s.Inv) {p : Nat} {x : Nat × α} (hx : s.enqueued[p]? = some x) : x.1 = p := by
  have hmap := congrArg (fun l => l[p]?) h.positions
  simp only [List.getElem?_map, hx, Option.map_some] at hmap
  obtain ⟨hlt, hp⟩ := List.getElem?_eq_some_iff.mp hmap.symm
  rw [List.getElem_range] at hp
  exact hp.symm

theorem writeIndex_small (h : s.Inv) : s.writeIndex < 2 ^ 32 := by
  obtain ⟨F, -, hF⟩ := h.counted
  have hfew := h.few
  omega

theorem writeIndex_next (h : s.Inv) (ht : (s.thread t).Unclaimed) : next s.writeIndex = s.writeIndex + 1 := by
  obtain ⟨F, hmem, hF⟩ := h.counted
  have hpos := Finset.card_pos.mpr ⟨t, hmem t ht⟩
  have hfew := h.few
  exact next_eq (by omega)

theorem fifo (h : s.Inv) : s.Fifo where
  prefix_enqueued := by
    rw [h.taken]
    exact List.take_prefix _ _
  positions := by rw [h.length_enqueued, h.positions]
  kept := by
    intro x hx
    rw [h.length_returned] at hx
    obtain ⟨i, hi⟩ := List.mem_iff_getElem?.mp hx
    rw [List.getElem?_drop] at hi
    have hfst := h.getElem?_fst hi
    refine h.kept x.1 x.2 (by omega) ?_
    rw [hfst]
    exact hi.trans (by rw [← hfst])
  stored := by
    intro t data w ht
    have hl := h.locals t
    rw [ht] at hl
    exact hl.2.2
  ownSlot := by
    intro t data w ht p hp hpw hslot
    have hl := h.locals t
    rw [ht] at hl
    have hread := h.read_le
    have hroom := h.room
    rw [h.length_returned] at hp
    exact eq_of_slot_eq hp (by omega) (hread.trans hl.1) (by have := hl.2; omega) hslot
  enqueued_le := h.length_enqueued ▸ h.maximum_le
  held := by
    have hroom := h.room
    rw [h.length_returned]
    omega
  empty := h.reports

theorem localOk_deqClaim (h : s.Inv) {r : Nat} (ht : s.thread t = .deqRead r) :
    s.LocalOk (.deqClaim (s.theQueue (s.countToIndex r)) r) := by
  have hl := h.locals t
  rw [ht] at hl
  refine ⟨hl.1, hl.2, fun he => ?_⟩
  have hlt : r < s.enqueued.length := h.length_enqueued ▸ hl.2
  have hget := List.getElem?_eq_getElem hlt
  have hfst := h.getElem?_fst hget
  have hkept := h.kept r (s.enqueued[r]).2 he.le (hget.trans (congrArg some (Prod.ext hfst rfl)))
  rw [hget]
  exact congrArg some (Prod.ext hfst hkept.symm)

theorem localOk_enqClaim (h : s.Inv) {data : α} {r : Nat} (ht : s.thread t = .enqWriteIndex data r) (hf : s.Fits (.go t))
    (hne : s.countToIndex (next s.writeIndex) ≠ s.countToIndex r) : s.LocalOk (.enqClaim data s.writeIndex) := by
  refine ⟨le_rfl, Nat.lt_of_le_of_ne h.room fun he => hne ?_⟩
  simp only [Fits, ht] at hf
  refine hf ?_
  rw [h.writeIndex_next (show (s.thread t).Unclaimed by rw [ht]; trivial)]
  exact (congrArg (· % s.queueSize) he).trans (Nat.add_mod_right _ _)

theorem localOk_deqRead (h : s.Inv) {m r : Nat} (ht : s.thread t = .deqReadIndex m r) (hf : s.Fits (.go t))
    (hne : s.countToIndex m ≠ s.countToIndex s.readIndex) : s.LocalOk (.deqRead s.readIndex) := by
  refine ⟨le_rfl, Nat.lt_of_le_of_ne h.read_le fun he => ?_⟩
  simp only [Fits, ht] at hf
  rw [if_neg hne, he] at hf
  exact hf rfl

theorem empty_of_fits (h : s.Inv) {m r : Nat} (ht : s.thread t = .deqReadIndex m r) (hf : s.Fits (.go t))
    (heq : s.countToIndex m = s.countToIndex s.readIndex) : m = r := by
  have hl := h.locals t
  rw [ht] at hl
  simp only [Fits, ht] at hf
  rw [if_pos heq] at hf
  have hread := h.read_le
  have hmax := h.maximum_le
  have hroom := h.room
  rw [hf] at heq
  exact eq_of_slot_eq hl.1 hl.2 le_rfl (by omega) heq

variable [DecidableEq ι]

theorem goto_self : (s.goto t l).thread t = l := Function.update_self _ _ _

theorem goto_of_ne {u : ι} (h : u ≠ t) : (s.goto t l).thread u = s.thread u := Function.update_of_ne h _ _

theorem owner_goto (h : s.Inv) (hl : ∀ w, l.claimed = some w → (s.thread t).claimed = some w) :
    ∀ u v w, ((s.goto t l).thread u).claimed = some w → ((s.goto t l).thread v).claimed = some w → u = v := by
  have hold : ∀ u w, ((s.goto t l).thread u).claimed = some w → (s.thread u).claimed = some w := by
    intro u w hu
    by_cases hut : u = t
    · subst hut
      rw [goto_self] at hu
      exact hl w hu
    · rwa [goto_of_ne hut] at hu
  exact fun u v w hu hv => h.owner u v w (hold u w hu) (hold v w hv)

theorem counted_goto (h : s.Inv) (hl : l.Unclaimed → (s.thread t).Unclaimed) :
    ∃ F : Finset ι, (∀ u, ((s.goto t l).thread u).Unclaimed → u ∈ F) ∧ s.writeIndex + F.card ≤ s.operations := by
  obtain ⟨F, hmem, hF⟩ := h.counted
  refine ⟨F, fun u hu => ?_, hF⟩
  by_cases hut : u = t
  · subst hut
    rw [goto_self] at hu
    exact hmem u (hl hu)
  · rw [goto_of_ne hut] at hu
    exact hmem u hu

theorem goto (h : s.Inv) (hl : s.LocalOk l) (hc : ∀ w, l.claimed = some w → (s.thread t).claimed = some w)
    (hu : l.Unclaimed → (s.thread t).Unclaimed) : (s.goto t l).Inv :=
  { h with
    locals := (Function.forall_update_iff s.thread (fun _ => s.LocalOk)).mpr ⟨hl, fun u _ => h.locals u⟩
    owner := h.owner_goto hc
    counted := h.counted_goto hu }

theorem call (h : s.Inv) {s' : State ι α} (hl : s.LocalOk l) (hc : l.claimed = none) (hs : s.call t l = some s') :
    s'.Inv := by
  unfold State.call at hs
  split at hs
  · split_ifs at hs with hfew
    obtain rfl := Option.some.inj hs
    obtain ⟨F, hmem, hF⟩ := h.counted
    have hcard := Finset.card_insert_le t F
    exact
      { h with
        locals := (Function.forall_update_iff s.thread (fun _ => s.LocalOk)).mpr ⟨hl, fun u _ => h.locals u⟩
        owner := h.owner_goto (fun w hw => by rw [hc] at hw; cases hw)
        counted := by
          refine ⟨insert t F, fun u hu => ?_, ?_⟩
          · by_cases hut : u = t
            · exact hut ▸ Finset.mem_insert_self _ _
            · refine Finset.mem_insert_of_mem (hmem u ?_)
              change ((s.goto t l).thread u).Unclaimed at hu
              rwa [goto_of_ne hut] at hu
          · change s.writeIndex + (insert t F).card ≤ s.operations + 1
            omega
        few := hfew }
  · cases hs

theorem claim (h : s.Inv) {data : α} (ht : s.thread t = .enqClaim data s.writeIndex) :
    ({ s.goto t (.enqStore data s.writeIndex) with writeIndex := next s.writeIndex } : State ι α).Inv := by
  have hunclaimed : (s.thread t).Unclaimed := by
    rw [ht]
    trivial
  have hnext := h.writeIndex_next hunclaimed
  have hl := h.locals t
  rw [ht] at hl
  have hmax := h.maximum_le
  have hfresh : ∀ u, (s.thread u).claimed ≠ some s.writeIndex := by
    intro u hu
    have hlu := h.locals u
    cases hthread : s.thread u <;> rw [hthread] at hu hlu <;> simp only [Local.claimed, reduceCtorEq, Option.some.injEq] at hu
    · exact absurd hlu.2 (by omega)
    · exact absurd hlu.2.1 (by omega)
  rw [hnext]
  exact
    { h with
      maximum_le := Nat.le_succ_of_le h.maximum_le
      room := hl.2
      locals := by
        refine (Function.forall_update_iff s.thread (fun _ => State.LocalOk _)).mpr ⟨⟨hmax, Nat.lt_succ_self _⟩, fun u _ => ?_⟩
        have hlu := h.locals u
        cases hthread : s.thread u <;> rw [hthread] at hlu
        case enqClaim => exact ⟨Nat.le_succ_of_le hlu.1, hlu.2⟩
        case enqStore => exact ⟨hlu.1, Nat.lt_succ_of_lt hlu.2⟩
        case enqPublish => exact ⟨hlu.1, Nat.lt_succ_of_lt hlu.2.1, hlu.2.2⟩
        all_goals exact hlu
      owner := by
        intro u v w hu hv
        change ((s.goto t (.enqStore data s.writeIndex)).thread u).claimed = some w at hu
        change ((s.goto t (.enqStore data s.writeIndex)).thread v).claimed = some w at hv
        by_cases hut : u = t <;> by_cases hvt : v = t
        · rw [hut, hvt]
        · subst hut
          rw [goto_self] at hu
          rw [goto_of_ne hvt] at hv
          obtain rfl := Option.some.inj hu
          exact absurd hv (hfresh v)
        · subst hvt
          rw [goto_self] at hv
          rw [goto_of_ne hut] at hu
          obtain rfl := Option.some.inj hv
          exact absurd hu (hfresh u)
        · rw [goto_of_ne hut] at hu
          rw [goto_of_ne hvt] at hv
          exact h.owner u v w hu hv
      counted := by
        obtain ⟨F, hmem, hF⟩ := h.counted
        have hcard := Finset.card_erase_add_one (hmem t hunclaimed)
        refine ⟨F.erase t, fun u hu => ?_, ?_⟩
        · change ((s.goto t (.enqStore data s.writeIndex)).thread u).Unclaimed at hu
          have hut : u ≠ t := by
            rintro rfl
            rw [goto_self] at hu
            exact hu
          rw [goto_of_ne hut] at hu
          exact Finset.mem_erase.mpr ⟨hut, hmem u hu⟩
        · change s.writeIndex + 1 + (F.erase t).card ≤ s.operations
          omega }

theorem store (h : s.Inv) {data : α} {w : Nat} (ht : s.thread t = .enqStore data w) :
    ({ s.goto t (.enqPublish data w) with
      theQueue := Function.update s.theQueue (s.countToIndex w) data } : State ι α).Inv := by
  have hl := h.locals t
  rw [ht] at hl
  have hread := h.read_le
  have hroom := h.room
  exact
    { h with
      kept := by
        intro p d hp hx
        have hlt := (List.getElem?_eq_some_iff.mp hx).1
        change p < s.enqueued.length at hlt
        change s.readIndex ≤ p at hp
        rw [h.length_enqueued] at hlt
        have hmax := h.maximum_le
        have hne : p % s.queueSize ≠ w % s.queueSize := by
          intro he
          have heq := eq_of_slot_eq hp (by omega) (hread.trans hl.1) (by have := hl.2; omega) he
          have := hl.1
          omega
        exact (Function.update_of_ne hne _ _).trans (h.kept p d hp hx)
      locals := by
        refine (Function.forall_update_iff s.thread (fun _ => State.LocalOk _)).mpr
          ⟨⟨hl.1, hl.2, Function.update_self _ _ _⟩, fun u hut => ?_⟩
        have hlu := h.locals u
        cases hthread : s.thread u <;> rw [hthread] at hlu
        case enqPublish d v =>
          refine ⟨hlu.1, hlu.2.1, (Function.update_of_ne (fun he => ?_) _ _).trans hlu.2.2⟩
          change v % s.queueSize = w % s.queueSize at he
          have heq := eq_of_slot_eq (hread.trans hlu.1) (by have := hlu.2.1; omega) (hread.trans hl.1) (by have := hl.2; omega) he
          refine hut (h.owner u t w ?_ ?_)
          · rw [hthread, heq]
            rfl
          · rw [ht]
            rfl
        all_goals exact hlu
      owner := h.owner_goto (by
        intro v hv
        rw [ht]
        exact hv)
      counted := h.counted_goto (fun hu => hu.elim) }

theorem publish (h : s.Inv) {data : α} (ht : s.thread t = .enqPublish data s.maximumReadIndex) :
    ({ s.goto t .idle with
      maximumReadIndex := next s.maximumReadIndex
      enqueued := s.enqueued ++ [(s.maximumReadIndex, data)] } : State ι α).Inv := by
  have hl := h.locals t
  rw [ht] at hl
  have hlen := h.length_enqueued
  have hsmall := h.writeIndex_small
  have hread := h.read_le
  rw [next_eq (by have := hl.2.1; omega)]
  exact
    { h with
      read_le := Nat.le_succ_of_le hread
      maximum_le := hl.2.1
      positions := by
        rw [List.map_append, h.positions, List.range_succ]
        rfl
      taken := by
        have hle : s.readIndex ≤ s.enqueued.length := hread.trans_eq hlen.symm
        exact h.taken.trans (List.take_append_of_le_length hle).symm
      kept := by
        intro p d hp hx
        rcases Nat.lt_or_ge p s.enqueued.length with hlt | hge
        · rw [List.getElem?_append_left hlt] at hx
          exact h.kept p d hp hx
        · rw [List.getElem?_append_right hge] at hx
          have hmem := List.mem_singleton.mp (List.mem_of_getElem? hx)
          obtain ⟨rfl, rfl⟩ := Prod.mk.injEq _ _ _ _ ▸ hmem
          exact hl.2.2
      locals := by
        refine (Function.forall_update_iff s.thread (fun _ => State.LocalOk _)).mpr ⟨trivial, fun u hut => ?_⟩
        have hlu := h.locals u
        have hne : ∀ w, (s.thread u).claimed = some w → s.maximumReadIndex ≠ w := by
          rintro w hw rfl
          refine hut (h.owner u t _ hw ?_)
          rw [ht]
          rfl
        cases hthread : s.thread u <;> rw [hthread] at hlu hne
        case enqStore d w => exact ⟨Nat.lt_of_le_of_ne hlu.1 (hne w rfl), hlu.2⟩
        case enqPublish d w => exact ⟨Nat.lt_of_le_of_ne hlu.1 (hne w rfl), hlu.2.1, hlu.2.2⟩
        case deqRead => exact ⟨hlu.1, Nat.lt_succ_of_lt hlu.2⟩
        case deqClaim d r =>
          refine ⟨hlu.1, Nat.lt_succ_of_lt hlu.2.1, fun he => ?_⟩
          have hlt := hlu.2.1
          rw [List.getElem?_append_left (by omega)]
          exact hlu.2.2 he
        all_goals exact hlu
      owner := h.owner_goto (fun w hw => by cases hw)
      counted := h.counted_goto (fun hu => hu.elim) }

theorem take (h : s.Inv) {data : α} (ht : s.thread t = .deqClaim data s.readIndex) :
    ({ s.goto t .idle with
      readIndex := next s.readIndex
      returned := s.returned ++ [(s.readIndex, data)] } : State ι α).Inv := by
  have hl := h.locals t
  rw [ht] at hl
  have hlen := h.length_enqueued
  have hsmall := h.writeIndex_small
  have hmax := h.maximum_le
  have hroom := h.room
  rw [next_eq (by have := hl.2.1; omega)]
  exact
    { h with
      read_le := hl.2.1
      room := by
        change s.writeIndex < s.readIndex + 1 + s.queueSize
        omega
      taken := by
        change s.returned ++ [(s.readIndex, data)] = s.enqueued.take (s.readIndex + 1)
        rw [List.take_add_one, ← h.taken, hl.2.2 rfl]
        rfl
      kept := fun p d hp hx => h.kept p d (Nat.le_of_succ_le hp) hx
      locals := by
        refine (Function.forall_update_iff s.thread (fun _ => State.LocalOk _)).mpr ⟨trivial, fun u hut => ?_⟩
        have hlu := h.locals u
        cases hthread : s.thread u <;> rw [hthread] at hlu
        case enqClaim d w =>
          refine ⟨hlu.1, ?_⟩
          change w + 1 < s.readIndex + 1 + s.queueSize
          have := hlu.2
          omega
        case deqRead => exact ⟨Nat.le_succ_of_le hlu.1, hlu.2⟩
        case deqClaim d r =>
          refine ⟨Nat.le_succ_of_le hlu.1, hlu.2.1, fun he => ?_⟩
          change s.readIndex + 1 = r at he
          exact absurd hlu.1 (by omega)
        all_goals exact hlu
      owner := h.owner_goto (fun w hw => by cases hw)
      counted := h.counted_goto (fun hu => hu.elim) }

theorem report (h : s.Inv) {x : Nat × Nat} (hx : x.1 = x.2) :
    ({ s.goto t .idle with reports := s.reports ++ [x] } : State ι α).Inv :=
  { h.goto (show s.LocalOk .idle from trivial) (fun w hw => by cases hw) (fun hu => hu.elim) with
    reports := by
      intro y hy
      rcases List.mem_append.mp hy with hy | hy
      · exact h.reports y hy
      · rw [List.mem_singleton.mp hy]
        exact hx }

theorem go (h : s.Inv) {s' : State ι α} (hf : s.Fits (.go t)) (hs : s.go t = some s') : s'.Inv := by
  unfold State.go at hs
  split at hs
  case h_1 => cases hs
  all_goals
    rename_i ht
    obtain rfl := Option.some.inj hs
  · exact h.goto trivial (fun w hw => by cases hw) (fun _ => by rw [ht]; trivial)
  · split_ifs with heq
    · exact h.goto trivial (fun w hw => by cases hw) (fun hu => hu.elim)
    · exact h.goto (h.localOk_enqClaim ht hf heq) (fun w hw => by cases hw) (fun _ => by rw [ht]; trivial)
  · split_ifs with heq
    · subst heq
      exact h.claim ht
    · exact h.goto trivial (fun w hw => by cases hw) (fun _ => by rw [ht]; trivial)
  · exact h.store ht
  · split_ifs with heq
    · subst heq
      exact h.publish ht
    · exact h
  · have hread := h.read_le
    have hmax := h.maximum_le
    have hroom := h.room
    exact h.goto ⟨hread, by omega⟩ (fun w hw => by cases hw) (fun hu => hu.elim)
  · split_ifs with heq
    · exact h.report (h.empty_of_fits ht hf heq)
    · exact h.goto (h.localOk_deqRead ht hf heq) (fun w hw => by cases hw) (fun hu => hu.elim)
  · exact h.goto (h.localOk_deqClaim ht) (fun w hw => by cases hw) (fun hu => hu.elim)
  · split_ifs with heq
    · subst heq
      exact h.take ht
    · exact h.goto trivial (fun w hw => by cases hw) (fun hu => hu.elim)

theorem step (h : s.Inv) {a : Action ι α} {s' : State ι α} (hf : s.Fits a) (hs : s.step a = some s') : s'.Inv := by
  cases a with
  | enQueue t data => exact h.call (show s.LocalOk (.enqReadIndex data) from trivial) rfl hs
  | deQueue t => exact h.call (show s.LocalOk .deqMaximum from trivial) rfl hs
  | go t => exact h.go hf hs

end State.Inv

theorem inv_start [DecidableEq ι] {s : State ι α} (h : (machine ι α).start s) : s.Inv := by
  obtain ⟨theQueue, qSize, queueSize, hsize, rfl⟩ := h
  exact
    { read_le := le_rfl
      maximum_le := le_rfl
      room := by
        have hpos := constructed_pos hsize
        change 0 < 0 + queueSize
        omega
      positions := rfl
      taken := rfl
      kept := fun p d _ hx => by cases hx
      locals := fun _ => trivial
      owner := fun t u w hw => by cases hw
      reports := fun x hx => by cases hx
      counted := ⟨∅, fun _ hu => hu.elim, le_rfl⟩
      few := Nat.two_pow_pos 32 }

/-- **A queue is first in, first out while no comparison is misled.** -/
theorem machine_fifo [DecidableEq ι] {s : State ι α} (h : (machine ι α).ReachableMeeting State.Fits s) : s.Fifo :=
  ((machine ι α).reachableMeeting_induct (fun _ h0 => inv_start h0) (fun _ _ _ hs hf ht => hs.step hf ht) h).fifo

instance (s : State ι α) : ∀ a, Decidable (s.Fits a)
  | .enQueue _ _ => isTrue trivial
  | .deQueue _ => isTrue trivial
  | .go t => by
    unfold State.Fits
    dsimp only
    split <;> infer_instance

end Threads

def fresh : State Nat Nat := ⟨fun _ => 0, 65536, 0, 0, 0, fun _ => .idle, 0, [], [], []⟩

theorem fresh_start : (machine Nat Nat).start fresh := ⟨fun _ => 0, 65536, 65536, rfl, rfl⟩

def put (data : Nat) : List (Action Nat Nat) := .enQueue 0 data :: List.replicate 5 (.go 0)

def get : List (Action Nat Nat) := .deQueue 2 :: List.replicate 4 (.go 2)

def inTurns : List (Action Nat Nat) :=
  [.enQueue 0 5, .enQueue 1 6] ++ (List.replicate 3 [.go 0, .go 1]).flatten ++ List.replicate 5 (.go 1) ++
    [.go 0, .go 0, .go 1, .deQueue 2, .deQueue 3] ++ (List.replicate 4 [.go 2, .go 3]).flatten ++ List.replicate 4 (.go 3)

theorem machine_fifo_two : ∃ s, (machine Nat Nat).run fresh inTurns = some s ∧ s.returned = [(0, 5), (1, 6)] ∧ s.Fifo := by
  obtain ⟨s, hs, hr⟩ : ∃ s, (machine Nat Nat).run fresh inTurns = some s ∧ s.returned = [(0, 5), (1, 6)] :=
    ⟨_, rfl, by decide +kernel⟩
  have hmeets : (machine Nat Nat).RunMeets State.Fits fresh inTurns := by decide +kernel
  exact ⟨s, hs, hr, machine_fifo ⟨_, _, fresh_start, hmeets, hs⟩⟩

/-- **Two misled comparisons**: thread 1 has loaded the maximum when thread 2 takes the only element, and reports a queue that
was not empty; and with a second element put in and taken out it finds the read index beyond the maximum it has, goes on, and
returns what nobody put in. -/
theorem machine_not_fifo :
    (∃ s, (machine Nat Nat).Reachable s ∧ s.reports = [(1, 0)] ∧ ¬ s.Fifo) ∧
    ∃ s, (machine Nat Nat).Reachable s ∧ s.enqueued = [(0, 5), (1, 6)] ∧ s.returned = [(0, 5), (1, 6), (2, 0)] ∧ ¬ s.Fifo := by
  refine ⟨?_, ?_⟩
  · obtain ⟨s, hs, hr⟩ : ∃ s, (machine Nat Nat).run fresh (put 5 ++ [.deQueue 1, .go 1] ++ get ++ [.go 1]) = some s ∧
        s.reports = [(1, 0)] := ⟨_, rfl, by decide⟩
    refine ⟨s, ⟨_, _, fresh_start, hs⟩, hr, fun h => ?_⟩
    exact absurd (h.empty (1, 0) (by rw [hr]; exact List.mem_singleton_self _)) (by decide)
  · obtain ⟨s, hs, he, hr⟩ : ∃ s, (machine Nat Nat).run fresh
          (put 5 ++ [.deQueue 1, .go 1] ++ get ++ put 6 ++ get ++ List.replicate 3 (.go 1)) = some s ∧
        s.enqueued = [(0, 5), (1, 6)] ∧ s.returned = [(0, 5), (1, 6), (2, 0)] :=
      ⟨_, rfl, by decide, by decide +kernel⟩
    refine ⟨s, ⟨_, _, fresh_start, hs⟩, he, hr, fun h => ?_⟩
    have hle := h.prefix_enqueued.length_le
    rw [he, hr] at hle
    exact absurd hle (by decide)

end LockFreeQueue

end Dtc
