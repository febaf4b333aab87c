import DtcServer.BinMallocRoom
/-!
# BinMallocFit — where `InterMalloc` looks

The bit map leads it past no bin that has a chunk.  A large bin is in no order: of the size's own bin the first chunks are
looked at, and in a later one any chunk is large enough.
-/
namespace Dtc

open Memory CBinMalloc Rings

theorem binIndex_le (s : Nat) : binIndex s ≤ 126 := by
  unfold binIndex inSmallbinRange smallbinIndex largebinIndex
  simp only [decide_eq_true_eq]
  repeat' split
  all_goals omega

namespace CBinMalloc

variable {h : CBinMalloc} {req size : Nat}

/-- What `InterMalloc` does first: a small size takes a chunk of its own bin. -/
def smallFirst (h : CBinMalloc) (size : Nat) : CBinMalloc × Nat :=
  if inSmallbinRange size then h.smallBinMalloc size else (h, 0)

/-- `InterMalloc` goes to `MALLOC_BOTTOM`: it has found no chunk of the size's own bin and no later bin. -/
def fallsBack (h : CBinMalloc) (req : Nat) : Bool :=
  let size := request2size req
  let small := h.smallFirst size
  let v := if inSmallbinRange size then invalidHandle
    else small.1.searchBin size 99 (small.1.bin (binIndex size)).hNextChunk
  !requestOutOfRange req && small.2 == 0 && v == invalidHandle && decide (nBins ≤ small.1.searchNextBin (binIndex size))

theorem fallsBack_iff : h.fallsBack req = true ↔ requestOutOfRange req = false ∧ (h.smallFirst (request2size req)).2 = 0 ∧
    (if inSmallbinRange (request2size req) then invalidHandle
      else (h.smallFirst (request2size req)).1.searchBin (request2size req) 99
        ((h.smallFirst (request2size req)).1.bin (binIndex (request2size req))).hNextChunk) = invalidHandle ∧
    nBins ≤ (h.smallFirst (request2size req)).1.searchNextBin (binIndex (request2size req)) := by
  simp [fallsBack, and_assoc]

theorem smallFirst_none (h0 : (h.smallFirst size).2 = 0) : (h.smallFirst size).1.bin = h.bin := by
  unfold smallFirst at h0 ⊢
  split at h0
  · next hsmall =>
    have hempty : (h.bin (smallbinIndex size)).hNextChunk = invalidHandle := by
      unfold CBinMalloc.smallBinMalloc CBinMalloc.binMalloc at h0
      by_contra hne
      simp [hne] at h0
    rw [if_pos hsmall, smallBinMalloc_empty hempty]
    rfl
  · next hlarge => rw [if_neg hlarge]

theorem MapOk.smallFirst (hm : h.MapOk) (size : Nat) : (h.smallFirst size).1.MapOk := by
  unfold CBinMalloc.smallFirst
  split
  · exact hm.smallBinMalloc size
  · exact hm

theorem searchBin_eq : ∀ (n v : Nat), h.searchBin size n v =
    ((walk h.hNextChunk invalidHandle n v).find? fun y => decide (size ≤ h.chunkField y)).getD invalidHandle
  | 0, _ => rfl
  | n + 1, v => by
    rw [searchBin, walk]
    by_cases hv : v = invalidHandle
    · simp [hv]
    · by_cases hle : size ≤ h.chunkField v
      · simp [hv, hle]
      · simp [hv, hle, searchBin_eq n]

end CBinMalloc

/-- **The map guides the search**: in a memory of any size a bin whose bit is clear is empty, and `InterMalloc` falls back to
the top only when all later bins are empty; up to 4 GB, a request is given memory while a later bin has a chunk. -/
theorem anyHeapMachine_guided {s : HeapState} (hs : anyHeapMachine.Reachable s) :
    (∀ i, s.heap.binBit i = false → s.heap.emptyBin i = true) ∧
      (∀ req, s.heap.fallsBack req = true → ∀ i < nBins, binIndex (request2size req) < i → s.heap.emptyBin i = true) ∧
      (heapMachine.Reachable s → ∀ req, ∀ i < nBins, binIndex (request2size req) < i → s.heap.binChunks i ≠ [] →
        s.heap.Gives req) := by
  have hm := mapOk_of_any hs
  refine ⟨fun i hbit => ?_, fun req hf i hi hlt => ?_, fun hs' req i hi hlt hne => ?_⟩
  · by_contra hne
    rw [hm i (Bool.eq_false_iff.mpr hne)] at hbit
    cases hbit
  · obtain ⟨-, hsmall, -, hnext⟩ := fallsBack_iff.mp hf
    by_contra hne
    have he : (s.heap.smallFirst (request2size req)).1.emptyBin i = false := by
      unfold CBinMalloc.emptyBin
      rw [smallFirst_none hsmall]
      exact Bool.eq_false_iff.mpr hne
    have hle := (hm.smallFirst (request2size req)).searchNextBin_le he hlt
    omega
  · obtain ⟨bs, R, -⟩ := HeapState.has_of_reachable hs'
    refine (R.gives_iff hm req).mpr ⟨?_, .inl ⟨i, hi, hlt, hne⟩⟩
    obtain ⟨bins, cs, H, -⟩ := R
    rw [H.binChunks] at hne
    obtain ⟨y, hy⟩ := List.exists_mem_of_ne_nil _ hne
    obtain ⟨chunk, -, rfl⟩ := (H.bins.mem i y).mp hy
    have hlast := binIndex_le chunk
    -- a request that is out of range belongs into the last bin
    apply Bool.eq_false_iff.mpr
    intro hout
    have hreq := of_decide_eq_true hout
    have hmono := binIndex_mono (show 2 ^ 20 ≤ request2size req by
      have := (request2size_spec req).2.2.1
      unfold minSize at hreq
      omega)
    have h20 : binIndex (2 ^ 20) = 126 := by decide
    omega

theorem anyHeapMachine_guided_threeBlocks : ∃ s, s.live = [7592, 7560] ∧ heapMachine.Reachable s ∧
    ∀ i, s.heap.binBit i = false → s.heap.emptyBin i = true := by
  obtain ⟨s, hrun, hlive⟩ := threeBlocks_run
  have hs : heapMachine.Reachable s := ⟨firstHeap, threeBlocks, firstHeap_start, hrun⟩
  exact ⟨s, hlive, hs, (anyHeapMachine_guided (reachable_any hs)).1⟩

/-- **Large enough**: the index of a bin grows with the size; the search of a bin finds the first of 99 chunks that is large
enough; and of a later bin the loop takes a chunk that is large enough, as all of them are. -/
theorem heapMachine_fits {s : HeapState} (hs : heapMachine.Reachable s) :
    (∀ a b, a ≤ b → binIndex a ≤ binIndex b) ∧
      (∀ i size, s.heap.searchBin size 99 (s.heap.bin i).hNextChunk = (((s.heap.binChunks i).take 99).find? fun y =>
        decide (size ≤ s.heap.chunkField y)).getD invalidHandle) ∧
      ∀ size, s.heap.searchNextBin (binIndex size) < nBins →
        (∃ v ∈ s.heap.binChunks (s.heap.searchNextBin (binIndex size)),
          s.heap.tailFit size s.heap.tSize (s.heap.bin (s.heap.searchNextBin (binIndex size))).hPreChunk = some v) ∧
        ∀ v ∈ s.heap.binChunks (s.heap.searchNextBin (binIndex size)), size ≤ s.heap.chunkField v := by
  obtain ⟨bs, ⟨bins, cs, H, -⟩, -⟩ := HeapState.has_of_reachable hs
  refine ⟨fun a b hab => binIndex_mono hab, fun i size => ?_, fun size hlt => ?_⟩
  · rw [searchBin_eq, H.walk_bin, H.binChunks]
  · rw [H.binChunks]
    obtain ⟨hj, hn⟩ := HeapInv.searchNextBin_spec s.heap (binIndex size)
    obtain ⟨v, hv, hmem, -⟩ := H.tailFit hj (hn.resolve_left (Nat.not_le_of_lt hlt))
    refine ⟨⟨v, hmem, hv⟩, fun y hy => ?_⟩
    by_contra hsmall
    have hmono := binIndex_mono (Nat.le_of_not_le hsmall)
    rw [H.chunkField_free hy] at hmono
    omega

theorem heapMachine_fits_threeBlocks : ∃ s, s.live = [7592, 7560] ∧ heapMachine.Reachable s ∧
    ∀ i size, s.heap.searchBin size 99 (s.heap.bin i).hNextChunk = (((s.heap.binChunks i).take 99).find? fun y =>
      decide (size ≤ s.heap.chunkField y)).getD invalidHandle := by
  obtain ⟨s, hrun, hlive⟩ := threeBlocks_run
  have hs : heapMachine.Reachable s := ⟨firstHeap, threeBlocks, firstHeap_start, hrun⟩
  exact ⟨s, hlive, hs, (heapMachine_fits hs).2.1⟩

/-- Three blocks of one large bin, freed in another order than that of their sizes. -/
def freedInDisorder : List HeapOp :=
  [.malloc 508, .malloc 16, .malloc 540, .malloc 16, .malloc 524, .malloc 16, .free 7448, .free 7992, .free 8568]

/-- **A large bin is not sorted**, and the search of it may end without a chunk. -/
theorem heapMachine_unsorted : ∃ s, heapMachine.Reachable s ∧
    (s.heap.binChunks 64).map s.heap.chunkField = [536, 552, 520] ∧
    s.heap.searchBin 560 99 (s.heap.bin (binIndex 560)).hNextChunk = invalidHandle := by
  have hrun : (heapMachine.run firstHeap freedInDisorder).map (fun s =>
      ((s.heap.binChunks 64).map s.heap.chunkField, s.heap.searchBin 560 99 (s.heap.bin (binIndex 560)).hNextChunk)) =
      some ([536, 552, 520], invalidHandle) := by decide +kernel
  obtain ⟨s, hs, he⟩ := Option.map_eq_some_iff.mp hrun
  obtain ⟨h1, h2⟩ := Prod.mk.inj he
  exact ⟨s, ⟨firstHeap, freedInDisorder, firstHeap_start, hs⟩, h1, h2⟩

end Dtc
