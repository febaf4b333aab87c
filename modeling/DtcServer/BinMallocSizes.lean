import DtcServer.BinMallocCalls
import DtcServer.BinMallocFit
/-!
# BinMallocSizes — the sizes that are stored in the tags

Sizes are computed in 64 bits, and a tag has 32.  `CAN_COMBILE` bounds what `InterFree` joins; `InterReAlloc` does not
ask it, and what it joins is too large for a tag when the rest is not split off.
-/
namespace Dtc

open Memory CBinMalloc

namespace CBinMalloc

section Sizes

variable (h : CBinMalloc)

/-- The chunk's tags when its end is split off, before `InterFree` of the end. -/
def splitTags (p size : Nat) : CBinMalloc :=
  let remainSize := h.chunkField p - size
  let h := h.putChunkField p (size + sizeBits (h.tChunkField p))
  let next := p + size
  let h := h.putChunkField next remainSize
  let h := h.putPreSize next size
  let h := h.setInuseBitAtOffset next 0
  let h := h.putPreSize (p + size + remainSize) remainSize
  h.setInuseBitAtOffset next remainSize

/-- The tags of a piece of the rest, before `InterFree` of the piece. -/
def pieceTags (p size : Nat) : CBinMalloc :=
  let h := h.putChunkField p (realSize size + 1)
  let next := p + realSize size
  let h := h.putPreSize next (realSize size)
  let h := h.putChunkField next (setPrevInuse (h.tChunkField next))
  h.setInuseBitAtOffset p size

/-! ### The sizes each function computes for a tag, in 64 bits -/

def combinePreSizes (p size : Nat) : List Nat :=
  if !h.prevInuse p && canCombile size (h.tPreSize p) then [size + h.tPreSize p] else []

def combineNextSizes (p size : Nat) : List Nat :=
  let nextSize := h.chunkField (p + size)
  if !h.atTop p size && !h.inuseBitAtOffset (p + size) nextSize && canCombile size nextSize then [size + nextSize] else []

/-- `InterFree` -/
def freeSizes (handle : Nat) : List Nat :=
  let p := mem2chunk handle
  let size := h.chunkField p
  if handle = invalidHandle ∨ h.tSize ≤ handle ∨ h.tSize ≤ p + size ∨ h.inuseBitAtOffset p size = false ∨ p % 8 ≠ 0 ∨
      h.checkInuseChunk p = false then []
  else
    let pre := h.freeCombinePre p size
    if !pre.1.atTop pre.2.1 pre.2.2 && decide (pre.1.chunkField (pre.2.1 + pre.2.2) < minSize) then
      h.combinePreSizes p size
    else
      h.combinePreSizes p size ++ pre.1.combineNextSizes pre.2.1 pre.2.2 ++
        [(pre.1.freeCombineNext pre.2.1 pre.2.2).2]

/-- The chunk `v` of the bin `i` is taken; what is over is computed before the chunk is unlinked. -/
def takeSizes (i v size : Nat) : List Nat :=
  let remainSize := interSize (h.chunkField v - size)
  if remainSize < h.getMinChunkSize then []
  else
    let h := (h.unlinkClear i (h.ptr2Handle v)).splitTags v size
    [size, remainSize] ++ h.freeSizes (h.ptr2Handle (v + size) + 8)

def topSizes (size : Nat) : List Nat := if h.tSize ≤ h.hTop + size + minSize then [] else [realSize size]

/-- `InterMalloc`, behind `SmallBinMalloc` -/
def binSizes (size : Nat) : List Nat :=
  let i := binIndex size
  let v := if inSmallbinRange size then invalidHandle else h.searchBin size 99 (h.bin i).hNextChunk
  if v ≠ invalidHandle then h.takeSizes i v size
  else
    let i := h.searchNextBin i
    if nBins ≤ i then h.topSizes size
    else
      match h.tailFit size h.tSize (h.bin i).hPreChunk with
      | none => []
      | some p => h.takeSizes i p size

def mallocSizes (req : Nat) : List Nat :=
  if requestOutOfRange req then []
  else
    let small := h.smallFirst (request2size req)
    if small.2 ≠ 0 then [] else small.1.binSizes (request2size req)

/-- The next piece of the rest, before it is assigned to 32 bits. -/
def pieceSize (remainder : Nat) : Nat :=
  if maxAllocSize < remainder then
    if minSize ≤ remainder - maxAllocSize then realSize maxAllocSize else realSize (remainder - minSize)
  else remainder

/-- The loop of `InterReAlloc` that frees the rest -/
def remainSizes : Nat → CBinMalloc → Nat → Nat → List Nat
  | 0, _, _, _ => []
  | n + 1, h, p, remainder =>
    let size := allocSize (pieceSize remainder)
    let h := h.pieceTags p size
    let handle := h.ptr2Handle (chunk2mem p)
    pieceSize remainder :: h.freeSizes handle ++
      if 0 < remainder - size then remainSizes n (h.interFree handle).1 (p + realSize size) (remainder - size) else []

/-- The end of `InterReAlloc` -/
def finishSizes (new newSize size preSize : Nat) : List Nat :=
  if h.getMinChunkSize ≤ newSize - size then
    remainSizes (h.tSize + 1) h (new + size) (newSize - size) ++ [realSize size, preSize]
  else [realSize newSize, preSize]

/-- `InterReAlloc` -/
def reAllocSizes (handle req : Nat) : List Nat :=
  let size := request2size req
  let p := mem2chunk handle
  let oldSize := h.chunkField p
  let next := p + oldSize
  if handle = invalidHandle then h.mallocSizes req
  else if req = 0 then h.freeSizes handle
  else if h.RejectsReAlloc handle req then []
  else if size ≤ oldSize then h.finishSizes p oldSize size (h.tPreSize p)
  else if h.atTop p oldSize && decide (h.hTop + (size - oldSize) + minSize < h.tSize) then [realSize size]
  else if !h.atTop p oldSize && !h.inuseBitAtOffset next (h.chunkField next)
      && decide (size ≤ oldSize + h.chunkField next) then
    let unlinked := h.unlinkBin (binIndex (h.chunkField next)) (h.ptr2Handle next)
    unlinked.finishSizes p (oldSize + h.chunkField next) size (h.tPreSize p)
  else if !h.prevInuse p && decide (size ≤ allocSize (oldSize + h.tPreSize p)) then
    let new := p - h.tPreSize p
    let unlinked := h.unlinkBin (binIndex (h.tPreSize p)) new
    let copied := { unlinked with
      mem := writeBytes unlinked.mem (chunk2mem new) (readBytes unlinked.mem (chunk2mem p) (oldSize - 4)) }
    copied.finishSizes new (oldSize + h.tPreSize p) size (h.tPreSize new)
  else
    h.mallocSizes req ++
      match h.interMalloc req with
      | none => []
      | some (h, new) =>
        if new = invalidHandle then []
        else { h with mem := writeBytes h.mem new (readBytes h.mem (chunk2mem p) (oldSize - 4)) }.freeSizes handle

/-- **`InterReAlloc` joins a block with the free chunk behind it and does not split the rest off**, and the two are of
4 GB or more. -/
structure JoinsUnsplit (handle req : Nat) : Prop where
  notNull : handle ≠ invalidHandle
  request : req ≠ 0
  accepted : ¬ h.RejectsReAlloc handle req
  grows : h.chunkField (mem2chunk handle) < request2size req
  inside : h.atTop (mem2chunk handle) (h.chunkField (mem2chunk handle)) = false
  free : h.inuseBitAtOffset (mem2chunk handle + h.chunkField (mem2chunk handle))
    (h.chunkField (mem2chunk handle + h.chunkField (mem2chunk handle))) = false
  large : 2 ^ 32 ≤ h.chunkField (mem2chunk handle) + h.chunkField (mem2chunk handle + h.chunkField (mem2chunk handle))
  unsplit : h.chunkField (mem2chunk handle) + h.chunkField (mem2chunk handle + h.chunkField (mem2chunk handle)) <
    request2size req + h.getMinChunkSize

end Sizes

variable {h : CBinMalloc} {handle req size p v i n : Nat}

/-! ## What is read back -/

/-- **Each size is read back** from the tag it is stored in, as a chunk's own size and as that of the chunk in front. -/
def ReadsBack (sizes : List Nat) : Prop :=
  ∀ n ∈ sizes, ∀ (h : CBinMalloc) (p : Nat), (h.putChunkField p n).tChunkField p = n ∧ (h.putPreSize p n).tPreSize p = n

theorem readsBack_iff {sizes : List Nat} : ReadsBack sizes ↔ ∀ n ∈ sizes, n < 2 ^ 32 := by
  constructor
  · intro hb n hn
    rw [← (hb n hn firstHeap.heap 0).1]
    exact readNat_lt ..
  · intro hlt n hn h p
    exact ⟨readNat_writeNat (hlt n hn), readNat_writeNat (hlt n hn)⟩

@[simp] theorem readsBack_nil : ReadsBack [] := by
  intro n hn
  cases hn

@[simp] theorem readsBack_cons {sizes : List Nat} : ReadsBack (n :: sizes) ↔ n < 2 ^ 32 ∧ ReadsBack sizes := by
  simp [readsBack_iff]

@[simp] theorem readsBack_append {sizes sizes' : List Nat} :
    ReadsBack (sizes ++ sizes') ↔ ReadsBack sizes ∧ ReadsBack sizes' := by
  simp [readsBack_iff, or_imp, forall_and]

theorem tPreSize_lt (h : CBinMalloc) (p : Nat) : h.tPreSize p < 2 ^ 32 := readNat_lt ..

theorem chunkField_lt (h : CBinMalloc) (p : Nat) : h.chunkField p < 2 ^ 32 := by
  have hlt : h.tChunkField p < 2 ^ 32 := readNat_lt ..
  unfold chunkField realSize
  omega

theorem allocSize_lt (n : Nat) : allocSize n < 2 ^ 32 := Nat.mod_lt _ (by decide)

theorem realSize_lt (hsize : size < 2 ^ 32) : realSize size < 2 ^ 32 := Nat.lt_of_le_of_lt (Nat.div_mul_le_self ..) hsize

theorem canCombile_lt {add : Nat} (hc : canCombile size add = true) : size + add < 2 ^ 32 := by
  have hle : size + add ≤ 2 ^ 32 - 8 := of_decide_eq_true hc
  omega

theorem getMinChunkSize_lt (h : CBinMalloc) : h.getMinChunkSize < 2 ^ 32 := allocSize_lt _

theorem request2size_lt (hreq : requestOutOfRange req = false) : request2size req < 2 ^ 32 := by
  have hle := (request2size_spec req).2.2.2
  have hlt := of_decide_eq_false hreq
  unfold minSize at hlt
  omega

theorem pieceSize_lt (remainder : Nat) : pieceSize remainder < 2 ^ 32 := by
  unfold pieceSize realSize minSize maxAllocSize
  split
  · split <;> omega
  · omega

theorem sameHead_unlinkBin (h : CBinMalloc) (i y : Nat) : SameHead h (h.unlinkBin i y) := by
  unfold CBinMalloc.unlinkBin
  split
  · exact SameHead.refl h
  split
  · exact SameHead.refl h
  dsimp only
  split
  · split <;> exact ⟨rfl, rfl, rfl, rfl, rfl, rfl, rfl⟩
  · split <;> exact ⟨rfl, rfl, rfl, rfl, rfl, rfl, rfl⟩

/-! ## Where every size is read back -/

theorem combinePreSizes_readsBack (h : CBinMalloc) (p size : Nat) : ReadsBack (h.combinePreSizes p size) := by
  unfold combinePreSizes
  split
  · next hc => simpa using canCombile_lt (Bool.and_eq_true_iff.mp hc).2
  · exact readsBack_nil

theorem combineNextSizes_readsBack (h : CBinMalloc) (p size : Nat) : ReadsBack (h.combineNextSizes p size) := by
  unfold combineNextSizes
  dsimp only
  split
  · next hc => simpa using canCombile_lt (Bool.and_eq_true_iff.mp hc).2
  · exact readsBack_nil

theorem freeCombinePre_lt (h : CBinMalloc) (p : Nat) (hsize : size < 2 ^ 32) : (h.freeCombinePre p size).2.2 < 2 ^ 32 := by
  unfold freeCombinePre
  split
  · exact allocSize_lt _
  · exact hsize

theorem freeCombineNext_lt (h : CBinMalloc) (p : Nat) (hsize : size < 2 ^ 32) : (h.freeCombineNext p size).2 < 2 ^ 32 := by
  unfold freeCombineNext
  split
  · exact hsize
  · dsimp only
    split
    · exact allocSize_lt _
    · exact hsize

theorem freeSizes_readsBack (h : CBinMalloc) (handle : Nat) : ReadsBack (h.freeSizes handle) := by
  unfold freeSizes
  dsimp only
  split
  · exact readsBack_nil
  split
  · apply combinePreSizes_readsBack
  · have hpre := freeCombinePre_lt h (mem2chunk handle) (chunkField_lt h (mem2chunk handle))
    generalize h.freeCombinePre (mem2chunk handle) (h.chunkField (mem2chunk handle)) = pre at hpre
    have hnext := freeCombineNext_lt pre.1 pre.2.1 hpre
    simpa [combinePreSizes_readsBack, combineNextSizes_readsBack] using hnext

theorem takeSizes_readsBack (hle : size ≤ h.chunkField v) (hsize : size < 2 ^ 32) : ReadsBack (h.takeSizes i v size) := by
  have hremain : interSize (h.chunkField v - size) < 2 ^ 32 := by
    have := chunkField_lt h v
    unfold interSize
    omega
  unfold takeSizes
  dsimp only
  split
  · exact readsBack_nil
  · simp only [readsBack_append, readsBack_cons]
    exact ⟨⟨hsize, hremain, readsBack_nil⟩, freeSizes_readsBack _ _⟩

theorem searchBin_le : ∀ (n v : Nat), h.searchBin size n v ≠ invalidHandle → size ≤ h.chunkField (h.searchBin size n v)
  | 0, _, hne => absurd rfl hne
  | n + 1, v, hne => by
    rw [searchBin] at hne ⊢
    split at hne
    · exact absurd rfl hne
    · next hv =>
      rw [if_neg hv]
      split at hne
      · next hle =>
        rw [if_pos hle]
        exact hle
      · next hlt =>
        rw [if_neg hlt]
        exact searchBin_le n _ hne

theorem tailFit_le : ∀ (n p : Nat), h.tailFit size n p = some v → size ≤ h.chunkField v
  | 0, _, hf => by cases hf
  | n + 1, p, hf => by
    rw [CBinMalloc.tailFit] at hf
    split at hf
    · cases hf
    · split at hf
      · exact tailFit_le n _ hf
      · next hlt =>
        obtain rfl := Option.some.inj hf
        exact Nat.le_of_not_lt hlt

theorem topSizes_readsBack (h : CBinMalloc) (hsize : size < 2 ^ 32) : ReadsBack (h.topSizes size) := by
  unfold topSizes
  split
  · exact readsBack_nil
  · simpa using realSize_lt hsize

theorem binSizes_readsBack (h : CBinMalloc) (hsize : size < 2 ^ 32) : ReadsBack (h.binSizes size) := by
  unfold binSizes
  dsimp only
  generalize hv : (if inSmallbinRange size = true then invalidHandle
    else h.searchBin size 99 (h.bin (binIndex size)).hNextChunk) = v
  split
  · next hne =>
    refine takeSizes_readsBack ?_ hsize
    split at hv
    · exact absurd hv.symm hne
    · subst hv
      exact searchBin_le _ _ hne
  split
  · exact topSizes_readsBack h hsize
  split
  · exact readsBack_nil
  · next hf => exact takeSizes_readsBack (tailFit_le _ _ hf) hsize

theorem mallocSizes_readsBack (h : CBinMalloc) (req : Nat) : ReadsBack (h.mallocSizes req) := by
  unfold mallocSizes
  dsimp only
  split
  · exact readsBack_nil
  split
  · exact readsBack_nil
  · next hreq _ => exact binSizes_readsBack _ (request2size_lt (Bool.eq_false_iff.mpr hreq))

theorem remainSizes_readsBack : ∀ (n : Nat) (h : CBinMalloc) (p remainder : Nat), ReadsBack (remainSizes n h p remainder)
  | 0, _, _, _ => readsBack_nil
  | n + 1, h, p, remainder => by
    rw [remainSizes]
    have hpiece := pieceSize_lt remainder
    split
    · simpa [freeSizes_readsBack, remainSizes_readsBack n] using hpiece
    · simpa [freeSizes_readsBack] using hpiece

theorem finishSizes_readsBack_iff {new newSize preSize : Nat} (hsize : size < 2 ^ 32) (hpre : preSize < 2 ^ 32) :
    ReadsBack (h.finishSizes new newSize size preSize) ↔ ¬ (2 ^ 32 ≤ newSize ∧ newSize < size + h.getMinChunkSize) := by
  have hmin := getMinChunkSize_lt h
  have hreal := realSize_lt hsize
  unfold finishSizes
  split
  · have hsplit : ¬ (2 ^ 32 ≤ newSize ∧ newSize < size + h.getMinChunkSize) := by omega
    simp only [readsBack_append, readsBack_cons]
    exact iff_of_true ⟨remainSizes_readsBack _ _ _ _, hreal, hpre, readsBack_nil⟩ hsplit
  · have hiff : realSize newSize < 2 ^ 32 ↔ newSize < 2 ^ 32 := by
      unfold realSize
      omega
    simp only [readsBack_cons, readsBack_nil, hiff, hpre, and_true]
    omega

theorem reAllocSizes_readsBack_iff (h : CBinMalloc) (handle req : Nat) :
    ReadsBack (h.reAllocSizes handle req) ↔ ¬ h.JoinsUnsplit handle req := by
  unfold reAllocSizes
  dsimp only
  split
  · next h0 => exact iff_of_true (mallocSizes_readsBack h req) (fun hj => hj.notNull h0)
  split
  · next h0 => exact iff_of_true (freeSizes_readsBack h handle) (fun hj => hj.request h0)
  split
  · next hr => exact iff_of_true readsBack_nil (fun hj => hj.accepted hr)
  next hnull hreq hacc =>
  have hsize : request2size req < 2 ^ 32 := by
    apply request2size_lt
    by_contra hout
    exact hacc (.inl (by simpa using hout))
  have hpre := tPreSize_lt h (mem2chunk handle)
  have hold := chunkField_lt h (mem2chunk handle)
  split
  · next hle =>
    rw [finishSizes_readsBack_iff hsize hpre]
    exact iff_of_true (fun hlarge => Nat.not_lt_of_le hlarge.1 hold) (fun hj => Nat.not_lt_of_le hle hj.grows)
  next hgrows =>
  split
  · next htop =>
    refine iff_of_true (by simpa using realSize_lt hsize) (fun hj => ?_)
    rw [hj.inside, Bool.false_and] at htop
    cases htop
  split
  · next hjoin =>
    rw [finishSizes_readsBack_iff hsize hpre, (sameHead_unlinkBin h _ _).getMinChunkSize]
    simp only [Bool.and_eq_true, Bool.not_eq_true', decide_eq_true_eq] at hjoin
    refine not_congr ⟨fun hlarge => ?_, fun hj => ⟨hj.large, hj.unsplit⟩⟩
    exact ⟨hnull, hreq, hacc, Nat.lt_of_not_le hgrows, hjoin.1.1, hjoin.1.2, hlarge.1, hlarge.2⟩
  next hjoin =>
  have hno : ¬ h.JoinsUnsplit handle req := by
    intro hj
    apply hjoin
    have hfits := Nat.le_trans (Nat.le_of_lt hsize) hj.large
    simp [hj.inside, hj.free, hfits]
  split
  · next hfront =>
    -- the test in 32 bits passes a sum of 4 GB or more only when the rest is split
    rw [finishSizes_readsBack_iff hsize (tPreSize_lt ..)]
    have hfits := of_decide_eq_true (Bool.and_eq_true_iff.mp hfront).2
    refine iff_of_true (fun hlarge => ?_) hno
    obtain ⟨hlarge, hunsplit⟩ := hlarge
    have hsame := (sameHead_unlinkBin h (binIndex (h.tPreSize (mem2chunk handle)))
      (mem2chunk handle - h.tPreSize (mem2chunk handle))).getMinChunkSize
    have hmin := getMinChunkSize_lt h
    change _ < request2size req + CBinMalloc.getMinChunkSize (h.unlinkBin _ _) at hunsplit
    rw [hsame] at hunsplit
    unfold allocSize at hfits
    omega
  · refine iff_of_true ?_ hno
    rw [readsBack_append]
    refine ⟨mallocSizes_readsBack h req, ?_⟩
    split
    · exact readsBack_nil
    · split
      · exact readsBack_nil
      · apply freeSizes_readsBack

end CBinMalloc

namespace HeapState

/-- The sizes that the operation computes for the tags of chunks. -/
def tagSizes (s : HeapState) : HeapOp → List Nat
  | .malloc req | .calloc req => { s.heap with tLastFreeChunkSize := 0 }.mallocSizes req
  | .reAlloc handle req => { s.heap with tLastFreeChunkSize := 0 }.reAllocSizes handle req
  | .free handle => s.heap.freeSizes handle
  | .write _ _ _ => []

def JoinsUnsplit (s : HeapState) : HeapOp → Prop
  | .reAlloc handle req => { s.heap with tLastFreeChunkSize := 0 }.JoinsUnsplit handle req
  | _ => False

theorem tagSizes_readsBack_iff (s : HeapState) : ∀ op, ReadsBack (s.tagSizes op) ↔ ¬ s.JoinsUnsplit op
  | .malloc req => iff_of_true (mallocSizes_readsBack _ req) not_false
  | .calloc req => iff_of_true (mallocSizes_readsBack _ req) not_false
  | .reAlloc handle req => reAllocSizes_readsBack_iff _ handle req
  | .free handle => iff_of_true (freeSizes_readsBack _ handle) not_false
  | .write _ _ _ => iff_of_true readsBack_nil not_false

end HeapState

/-- **No size is truncated** in a run, in a memory of any size and with any smallest chunk size, exactly when no `ReAlloc`
of it leaves a block and the free chunk behind it joined and unsplit, with 4 GB or more. -/
theorem anyHeapMachine_sizesKept_iff (s : HeapState) (ops : List HeapOp) :
    anyHeapMachine.RunMeets (fun s op => ReadsBack (s.tagSizes op)) s ops ↔
      anyHeapMachine.RunMeets (fun s op => ¬ s.JoinsUnsplit op) s ops := by
  have hsame : (fun (s : HeapState) op => ReadsBack (s.tagSizes op)) = fun s op => ¬ s.JoinsUnsplit op := by
    funext s op
    exact propext (s.tagSizes_readsBack_iff op)
  rw [hsame]

/-- A memory of more than 8 GB after `Init`, with a page as the smallest chunk. -/
def largeHeap : HeapState := ⟨((CBinMalloc.init 256 (fun _ => 0) (2 ^ 33 + 2 ^ 20)).get rfl).setMinChunkSize 4096, []⟩

theorem largeHeap_start : anyHeapMachine.start largeHeap :=
  ⟨rfl, 256, fun _ => 0, 2 ^ 33 + 2 ^ 20, _, (Option.some_get _).symm, .inr ⟨4096, by decide, rfl⟩⟩

/-- Two blocks of 2 GB and a small one; the second one is freed. -/
def largeBlocks : List HeapOp := [.malloc (2 ^ 31 - 8), .malloc (2 ^ 31 - 8), .malloc 16, .free (7448 + 2 ^ 31)]

/-- **A size is truncated**: the first block gets all that is free behind it, 4 GB together, and its size reads 0. -/
theorem anyHeapMachine_sizeTruncated : ∃ s, anyHeapMachine.Reachable s ∧
    ¬ ReadsBack (s.tagSizes (.reAlloc 7448 (2 ^ 32 - 49))) ∧
    (s.step (.reAlloc 7448 (2 ^ 32 - 49))).map (fun s' => (s'.live, s'.heap.chunkField 7440)) =
      some ([7448, 7448 + 2 ^ 32], 0) := by
  have hrun : (anyHeapMachine.run largeHeap largeBlocks).map (fun s => (s.tagSizes (.reAlloc 7448 (2 ^ 32 - 49)),
      (s.step (.reAlloc 7448 (2 ^ 32 - 49))).map (fun s' => (s'.live, s'.heap.chunkField 7440)))) =
      some ([2 ^ 32, 0], some ([7448, 7448 + 2 ^ 32], 0)) := by decide +kernel
  obtain ⟨s, hs, he⟩ := Option.map_eq_some_iff.mp hrun
  obtain ⟨hsizes, hstep⟩ := Prod.mk.inj he
  refine ⟨s, ⟨largeHeap, largeBlocks, largeHeap_start, hs⟩, ?_, hstep⟩
  rw [hsizes]
  simp

/-- A block of 2 GB between small ones, in which its user writes what looks like a free chunk, 448 bytes behind its own; the
block then gets the free one behind it, and 448 is the size it is left with. -/
def forgedBlocks : List HeapOp :=
  [.malloc 8, .malloc 8, .malloc (2 ^ 31 - 8), .malloc (2 ^ 31 + 440), .malloc 8, .malloc 436, .malloc 8, .free 7448,
    .free (7968 + 2 ^ 32), .write 7496 440 [0, 0, 0, 0, 25, 0, 0, 0, 8, 31, 0, 0, 1, 0, 0, 0, 64, 31, 0, 0, 1, 0, 0, 0],
    .free (7496 + 2 ^ 31), .reAlloc 7496 (2 ^ 32 - 49)]

/-- **Free memory is missed** after a `Free` that unlinks the written chunk: the first bin that `Malloc` comes to has only a chunk whose size was
overwritten, and a later one has what is asked for. -/
theorem anyHeapMachine_missesChunk : ∃ s, anyHeapMachine.Reachable s ∧ binIndex (request2size 380) < 59 ∧
    7488 ∈ s.heap.binChunks 59 ∧ request2size 380 ≤ s.heap.chunkField 7488 ∧ ¬ s.heap.Gives 380 := by
  have hrun : (anyHeapMachine.run largeHeap (forgedBlocks ++ [.free 7496])).map (fun s =>
      (s.heap.binChunks 59, s.heap.chunkField 7488, (s.heap.malloc 380).map Prod.snd)) = some ([7488], 472, none) := by
    decide +kernel
  obtain ⟨s, hs, he⟩ := Option.map_eq_some_iff.mp hrun
  simp only [Prod.mk.injEq] at he
  obtain ⟨hbin, hsize, hnone⟩ := he
  refine ⟨s, ⟨largeHeap, _, largeHeap_start, hs⟩, by decide, ?_, ?_, ?_⟩
  · rw [hbin]
    exact List.mem_singleton_self _
  · rw [hsize]
    decide
  · rintro ⟨h', handle, hm, -⟩
    rw [hm] at hnone
    cases hnone

end Dtc
