import DtcServer.BinMallocRun
/-!
# BinMallocCalls — the allocator's accounts, whatever handles its callers give

`Free` and `ReAlloc` take any number for a handle.  `InterFree` answers 0 for a chunk it has freed, for
`INVALID_HANDLE` and for two of the checks it makes, and the wrappers count a block less for each of them.
-/
namespace Dtc

open Memory CBinMalloc

/-- A public call, with any handle; the user of a handle also writes in its block. -/
inductive HeapCall where
  | malloc (req : Nat)
  | calloc (req : Nat)
  | reAlloc (handle req : Nat)
  | free (handle : Nat)
  | setMinChunkSize (size : UInt32)
  | write (handle offset : Nat) (bytes : List UInt8)

namespace HeapState

def call (s : HeapState) : HeapCall → Option HeapState
  | .malloc req => (s.heap.malloc req).map s.received
  | .calloc req => (s.heap.calloc req).map s.received
  | .reAlloc handle req => (s.heap.reAlloc handle req).map (s.resized handle req)
  | .free handle =>
    let r := s.heap.free handle
    some ⟨r.1, if r.2 = 0 then s.live.erase handle else s.live⟩
  | .setMinChunkSize size => some { s with heap := s.heap.setMinChunkSize size.toNat }
  | .write handle offset bytes => s.step (.write handle offset bytes)

end HeapState

def callMachine : Machine HeapState HeapCall where
  start := heapMachine.start
  step := HeapState.call

namespace CBinMalloc

/-- The sizes of the chunks in use from `p` up to the top, read off the tags of the chunks. -/
def inUseSizes (h : CBinMalloc) : Nat → Nat → List Nat
  | 0, _ => []
  | n + 1, p =>
    if h.hTop ≤ p then []
    else
      let size := h.chunkField p
      if h.inuseBitAtOffset p size then size :: inUseSizes h n (p + size) else inUseSizes h n (p + size)

/-- **The accounts** are those of the chunks in use. -/
def Accounted (h : CBinMalloc) : Prop :=
  h.tUserAllocSize = h.hBottom + (h.inUseSizes h.tSize h.hBottom).sum ∧
    h.tUserAllocChunkCnt = (h.inUseSizes h.tSize h.hBottom).length

/-- `InterFree` turns the handle down with a number that is not 0. -/
def RejectsFree (h : CBinMalloc) (handle : Nat) : Prop :=
  h.tSize ≤ handle ∨ 8 ≤ handle ∧ (h.tSize ≤ mem2chunk handle + h.chunkField (mem2chunk handle) ∨
    h.inuseBitAtOffset (mem2chunk handle) (h.chunkField (mem2chunk handle)) = false)

def RejectsReAlloc (h : CBinMalloc) (handle req : Nat) : Prop :=
  requestOutOfRange req = true ∨ h.hTop ≤ handle ∨ handle ≤ h.hBottom ∨
    h.hTop < mem2chunk handle + h.chunkField (mem2chunk handle) ∨ mem2chunk handle % 8 ≠ 0 ∨
    h.chunkField (mem2chunk handle) < minSize ∨ h.checkInuseChunk (mem2chunk handle) = false

/-- There is no memory for another chunk, not even for a request of no bytes. -/
def OutOfMemory (h : CBinMalloc) : Prop := (h.malloc 0).map Prod.snd = some invalidHandle

instance (h : CBinMalloc) (handle : Nat) : Decidable (h.RejectsFree handle) :=
  inferInstanceAs (Decidable (_ ∨ _ ∧ (_ ∨ _)))

instance (h : CBinMalloc) (handle req : Nat) : Decidable (h.RejectsReAlloc handle req) :=
  inferInstanceAs (Decidable (_ ∨ _ ∨ _ ∨ _ ∨ _ ∨ _ ∨ _))

instance (h : CBinMalloc) : Decidable h.OutOfMemory := inferInstanceAs (Decidable (_ = _))

end CBinMalloc

/-- **A call that the accounts survive**: a handle is a user's, or it is turned down with a number other than 0; and
`ReAlloc` to no bytes has a user's handle, or no handle and memory for the block it then allocates. -/
def HeapState.CallOk (s : HeapState) : HeapCall → Prop
  | .malloc _ => True
  | .calloc _ => True
  | .reAlloc handle req =>
    handle ∈ s.live ∨ (handle = invalidHandle ∧ (req ≠ 0 ∨ ¬ s.heap.OutOfMemory)) ∨
      (handle ≠ invalidHandle ∧ req ≠ 0 ∧ s.heap.RejectsReAlloc handle req)
  | .free handle => handle ∈ s.live ∨ s.heap.RejectsFree handle
  | .setMinChunkSize _ => True
  | .write _ _ _ => True

instance (s : HeapState) : ∀ c, Decidable (s.CallOk c)
  | .malloc _ => isTrue trivial
  | .calloc _ => isTrue trivial
  | .reAlloc _ _ => inferInstanceAs (Decidable (_ ∨ (_ ∧ (_ ∨ ¬ _)) ∨ (_ ∧ _ ∧ _)))
  | .free _ => inferInstanceAs (Decidable (_ ∨ _))
  | .setMinChunkSize _ => isTrue trivial
  | .write _ _ _ => isTrue trivial

/-! ## The chunks in use, by their tags -/

theorem Seg.prevInuse {h : CBinMalloc} {b : Nat} {q : Bool} (htop : h.prevInuse b = q) :
    ∀ {cs : List Chunk} {a : Nat} {p : Bool}, Seg h.mem a p cs b q → h.prevInuse a = p
  | [], _, _, hs => by
    rw [hs.1, htop, hs.2]
  | c :: cs, a, p, hs => by
    have hfield := hs.1.field
    have halign := hs.1.align
    unfold CBinMalloc.prevInuse tChunkField
    rw [hfield]
    cases p
    · simp only [Bool.toNat_false, beq_eq_false_iff_ne, ne_eq]
      omega
    · simp only [Bool.toNat_true, beq_iff_eq]
      omega

theorem inUseSizes_seg {h : CBinMalloc} (htop : h.prevInuse h.hTop = true) :
    ∀ {cs : List Chunk} {a : Nat} {p : Bool} (n : Nat), Seg h.mem a p cs h.hTop true → h.hTop < a + n →
      h.inUseSizes n a = (usedOf a cs).map Block.size
  | [], a, p, 0, hs, hlt => by
    rfl
  | [], a, p, n + 1, hs, _ => by
    rw [inUseSizes, if_pos (Nat.le_of_eq hs.1.symm)]
    rfl
  | c :: cs, a, p, 0, hs, hlt => by
    have hle := hs.2.le
    omega
  | c :: cs, a, p, n + 1, hs, hlt => by
    have hle := hs.2.le
    have hmin := hs.1.min
    have hchunk : h.chunkField a = c.size := by
      have hfield := hs.1.field
      have halign := hs.1.align
      unfold CBinMalloc.chunkField tChunkField realSize
      rw [hfield]
      cases p
      · rw [Bool.toNat_false]
        omega
      · rw [Bool.toNat_true]
        omega
    have hbit : h.inuseBitAtOffset a c.size = c.inUse := hs.2.prevInuse htop
    have ih := inUseSizes_seg htop n hs.2 (by omega)
    rw [inUseSizes, if_neg (by omega), hchunk]
    dsimp only
    rw [hbit, ih, usedOf, Chunk.inUse]
    cases c.content with
    | none => rfl
    | some bytes => rfl

theorem HeapRep.accounted {h : CBinMalloc} {bs : List Block} (R : HeapRep h bs) : h.Accounted := by
  obtain ⟨bins, cs, H, rfl, A⟩ := R
  have htop : h.prevInuse h.hTop = true := by
    unfold CBinMalloc.prevInuse tChunkField
    rw [H.top]
    rfl
  have hsizes := inUseSizes_seg htop h.tSize H.segBack (by have := H.room; omega)
  unfold CBinMalloc.Accounted
  rw [hsizes, List.length_map]
  exact ⟨A.size, A.count⟩

/-! ## The calls -/

namespace CBinMalloc

variable {h : CBinMalloc} {handle req : Nat}

theorem interFree_of_rejects (hne : handle ≠ invalidHandle) (hr : h.RejectsFree handle) :
    ∃ (n : Int) (size : Nat), h.interFree handle = (h, n, size) ∧ n ≠ 0 := by
  unfold interFree
  rw [if_neg hne]
  by_cases h1 : h.tSize ≤ handle
  · rw [if_pos h1]
    exact ⟨-1, 0, rfl, by decide⟩
  · rw [if_neg h1]
    dsimp only
    obtain h0 | ⟨-, hr⟩ := hr
    · exact absurd h0 h1
    · by_cases h2 : h.tSize ≤ mem2chunk handle + h.chunkField (mem2chunk handle)
      · rw [if_pos h2]
        exact ⟨-2, _, rfl, by decide⟩
      · obtain h0 | hbit := hr
        · exact absurd h0 h2
        · rw [if_neg h2, hbit]
          exact ⟨-3, _, rfl, by decide⟩

theorem free_of_rejects (hne : handle ≠ invalidHandle) (hr : h.RejectsFree handle) :
    ∃ n : Int, h.free handle = (h, n) ∧ n ≠ 0 := by
  obtain ⟨n, size, hinter, hn⟩ := interFree_of_rejects hne hr
  unfold CBinMalloc.free
  rw [hinter]
  dsimp only
  rw [if_neg hn]
  exact ⟨n, rfl, hn⟩

theorem reAlloc_of_rejects (hne : handle ≠ invalidHandle) (hreq : req ≠ 0) (hr : h.RejectsReAlloc handle req) :
    h.reAlloc handle req = some ({ h with tLastFreeChunkSize := 0 }, invalidHandle) := by
  have hinter : ∀ h' : CBinMalloc, h'.RejectsReAlloc handle req →
      h'.interReAlloc handle req = some (h', invalidHandle, 0) := by
    intro h' hr
    unfold interReAlloc
    rw [if_neg hne, if_neg hreq]
    by_cases h1 : requestOutOfRange req = true
    · rw [if_pos h1]
    · rw [if_neg h1]
      dsimp only
      by_cases h2 : h'.hTop ≤ handle ∨ handle ≤ h'.hBottom
      · rw [if_pos h2]
      · rw [if_neg h2]
        by_cases h3 : h'.hTop < mem2chunk handle + h'.chunkField (mem2chunk handle)
        · rw [if_pos h3]
        · rw [if_neg h3]
          by_cases h4 : mem2chunk handle % 8 ≠ 0
          · rw [if_pos h4]
          · rw [if_neg h4]
            by_cases h5 : h'.chunkField (mem2chunk handle) < minSize
            · rw [if_pos h5]
            · rw [if_neg h5]
              have h6 : h'.checkInuseChunk (mem2chunk handle) = false := by
                obtain hr | hr | hr | hr | hr | hr | hr := hr
                · exact absurd hr h1
                · exact absurd (Or.inl hr) h2
                · exact absurd (Or.inr hr) h2
                · exact absurd hr h3
                · exact absurd hr h4
                · exact absurd hr h5
                · exact hr
              rw [h6]
              rfl
  unfold CBinMalloc.reAlloc
  dsimp only
  rw [hinter { h with tLastFreeChunkSize := 0 } hr, Option.map_some, if_neg (fun hne => hne rfl), if_neg hreq]

theorem reAlloc_invalidHandle (hok : req ≠ 0 ∨ ¬ h.OutOfMemory) : h.reAlloc invalidHandle req = h.malloc req := by
  have hmalloc : req = 0 → (h.malloc req).map Prod.snd ≠ some invalidHandle := by
    rintro rfl
    exact hok.resolve_left (fun hne => hne rfl)
  revert hmalloc
  unfold CBinMalloc.reAlloc CBinMalloc.malloc interReAlloc
  dsimp only
  rw [if_pos rfl]
  cases hm : ({ h with tLastFreeChunkSize := 0 } : CBinMalloc).interMalloc req with
  | none =>
    intro _
    rfl
  | some r =>
    simp only [Option.map_some]
    intro hmalloc
    obtain ⟨h₁, r⟩ := r
    by_cases hr : r = invalidHandle
    · subst hr
      have hreq : req ≠ 0 := fun h0 => hmalloc h0 rfl
      simp only [ne_eq, not_true_eq_false, if_false, if_neg hreq]
    · simp only [ne_eq, hr, not_false_eq_true, if_true, Int.natCast_zero, Int.sub_zero]

end CBinMalloc

namespace HeapState

variable {s s' : HeapState} {bs : List Block} {c : HeapCall}

theorem Has.invalid_not_live (hs : s.Has bs) : invalidHandle ∉ s.live := by
  intro h0
  obtain ⟨B, -, hB⟩ := hs.block h0
  exact Nat.succ_ne_zero _ hB

theorem Has.resized_step (hs : s.Has bs) {handle req : Nat} {r : CBinMalloc × Nat}
    (hlive : handle = invalidHandle ∧ (req ≠ 0 ∨ ¬ s.heap.OutOfMemory) ∨ handle ∈ s.live)
    (hr : s.heap.reAlloc handle req = some r) :
    ∃ op : HeapOp, op.target = handle ∧ s.step op = some (s.resized handle req r) := by
  rcases hlive with ⟨rfl, hok⟩ | hlive
  · rw [reAlloc_invalidHandle hok] at hr
    refine ⟨.malloc req, rfl, ?_⟩
    rw [HeapState.step, hr, Option.map_some]
    unfold resized HeapState.received
    rw [List.erase_of_not_mem hs.invalid_not_live, ite_self]
  · refine ⟨.reAlloc handle req, rfl, ?_⟩
    rw [HeapState.step, if_pos hlive, hr, Option.map_some]

theorem Has.call (hs : s.Has bs) (hok : s.CallOk c) (hc : s.call c = some s') : ∃ bs', s'.Has bs' := by
  cases c with
  | malloc req => exact (hs.frame (o := .malloc req) hc).1
  | calloc req => exact (hs.frame (o := .calloc req) hc).1
  | reAlloc handle req =>
    obtain ⟨r, hr, rfl⟩ := Option.map_eq_some_iff.mp hc
    by_cases hhandle : (handle = invalidHandle ∧ (req ≠ 0 ∨ ¬ s.heap.OutOfMemory)) ∨ handle ∈ s.live
    · obtain ⟨op, -, hst⟩ := hs.resized_step hhandle hr
      exact (hs.frame hst).1
    · obtain ⟨hne, hreq, hrej⟩ := (hok.resolve_left (fun h => hhandle (.inr h))).resolve_left (fun h => hhandle (.inl h))
      rw [reAlloc_of_rejects hne hreq hrej] at hr
      obtain rfl := Option.some.inj hr
      refine ⟨bs, hs.1.forget, ?_⟩
      unfold resized
      rw [if_neg (fun hne => hne rfl), if_neg hreq]
      exact hs.2
  | free handle =>
    rw [HeapState.call] at hc
    obtain rfl := Option.some.inj hc
    by_cases hlive : handle ∈ s.live
    · refine (hs.frame (o := .free handle) ?_).1
      rw [HeapState.step, if_pos hlive]
    · have hr := hok.resolve_left hlive
      have hne : handle ≠ invalidHandle := by
        rintro rfl
        obtain ⟨bins, cs, H, -, -⟩ := hs.1
        have hroom := H.room
        rcases hr with h0 | ⟨h0, -⟩
        · exact absurd h0 (Nat.not_le_of_lt (Nat.lt_of_le_of_lt (Nat.zero_le _) hroom))
        · exact absurd h0 (by decide)
      obtain ⟨n, hfree, hn⟩ := free_of_rejects hne hr
      rw [hfree, if_neg hn]
      exact ⟨bs, hs⟩
  | setMinChunkSize size =>
    rw [HeapState.call] at hc
    obtain rfl := Option.some.inj hc
    exact ⟨bs, hs.1.setMinChunkSize size.toNat_lt, hs.2⟩
  | write handle offset bytes => exact (hs.frame (o := .write handle offset bytes) hc).1

end HeapState

/-- **The accounts are those of the chunks in use** in every run whose calls they survive. -/
theorem callMachine_accounted {s : HeapState} (hs : callMachine.ReachableMeeting HeapState.CallOk s) :
    s.heap.Accounted := by
  have hhas : ∃ bs, s.Has bs := by
    refine @Machine.reachableMeeting_induct _ _ callMachine _ (fun s => ∃ bs, s.Has bs) ?_ ?_ _ hs
    · intro s h0
      exact HeapState.has_of_reachable ⟨s, [], h0, rfl⟩
    · rintro s c s' ⟨bs, hs⟩ hok hc
      exact hs.call hok hc
  obtain ⟨bs, hbs⟩ := hhas
  exact hbs.1.accounted

/-- Calls with handles that are nobody's: `ReAlloc` without one, a free chunk and an address behind the memory freed, and a
`ReAlloc` of an address in the middle of a block. -/
def strayCalls : List HeapCall :=
  [.malloc 100, .reAlloc 0 20, .malloc 40, .free 7448, .free 7448, .free 99999, .reAlloc 7564 8, .reAlloc 7592 0]

theorem callMachine_accounted_strayCalls : ∃ s, callMachine.run firstHeap strayCalls = some s ∧ s.live = [7560] ∧
    s.heap.tUserAllocChunkCnt = 1 ∧ s.heap.Accounted := by
  have hmeets : callMachine.RunMeets HeapState.CallOk firstHeap strayCalls := by decide
  have hrun : (callMachine.run firstHeap strayCalls).map (fun s => (s.live, s.heap.tUserAllocChunkCnt)) =
      some ([7560], 1) := by decide
  obtain ⟨s, hs, hval⟩ := Option.map_eq_some_iff.mp hrun
  obtain ⟨h1, h2⟩ := Prod.mk.inj hval
  exact ⟨s, hs, h1, h2, callMachine_accounted ⟨firstHeap, strayCalls, firstHeap_start, hmeets, hs⟩⟩

/-- **`Free` of `INVALID_HANDLE` counts a block less**: one chunk is in use, the count says none. -/
theorem callMachine_freeNothing : ∃ s, callMachine.run firstHeap [.malloc 100, .free invalidHandle] = some s ∧
    s.heap.tUserAllocChunkCnt = 0 ∧ s.heap.inUseSizes s.heap.tSize s.heap.hBottom = [112] ∧ ¬ s.heap.Accounted := by
  have hrun : (callMachine.run firstHeap [.malloc 100, .free invalidHandle]).map (fun s =>
      (s.heap.tUserAllocChunkCnt, s.heap.inUseSizes s.heap.tSize s.heap.hBottom)) = some (0, [112]) := by decide
  obtain ⟨s, hs, hval⟩ := Option.map_eq_some_iff.mp hrun
  obtain ⟨h1, h2⟩ := Prod.mk.inj hval
  refine ⟨s, hs, h1, h2, fun hacc => ?_⟩
  have hcnt := hacc.2
  rw [h1, h2] at hcnt
  cases hcnt

end Dtc
