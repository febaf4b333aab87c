import DtcServer.BinMallocSearch
import Mathlib.Data.List.Perm.Subperm
/-!
# BinMallocRoom — when `Malloc` succeeds

What `Malloc` can take from: a chunk of a bin behind the size's own, one of the first 99 chunks of its own bin, or the space
from the top on.  Nothing else stands between a request and its memory.
-/
namespace Dtc

open Memory CBinMalloc Rings

/-- The free chunks of each bin in their order, their sizes, the top and the end of the memory. -/
structure Room where
  bins : Nat → List Nat
  sizeOf : Nat → Nat
  hTop : Nat
  tSize : Nat

/-- **There is room** for a chunk of this size. -/
def Room.Fits (r : Room) (size : Nat) : Prop :=
  (∃ i < nBins, binIndex size < i ∧ r.bins i ≠ []) ∨
    (∃ v ∈ (r.bins (binIndex size)).take 99, size ≤ r.sizeOf v) ∨ r.hTop + size + minSize < r.tSize

namespace CBinMalloc

/-- The chunks of a bin, as its links lead through them. -/
def binChunks (h : CBinMalloc) (i : Nat) : List Nat := walk h.hNextChunk invalidHandle h.tSize (h.bin i).hNextChunk

def room (h : CBinMalloc) : Room := ⟨h.binChunks, h.chunkField, h.hTop, h.tSize⟩

def Gives (h : CBinMalloc) (req : Nat) : Prop := ∃ h' handle, h.malloc req = some (h', handle) ∧ handle ≠ invalidHandle

variable {h : CBinMalloc} {i j n v size : Nat}

/-! ## The search of the bin map -/

theorem skipWords_le (hw : h.auiBinBitMap j ≠ 0) : ∀ (n i : Nat), i ≤ j → h.skipWords n i ≤ j
  | 0, _, hij => hij
  | n + 1, i, hij => by
    rw [skipWords]
    split
    · next h0 =>
      have hne : i ≠ j := by
        rintro rfl
        exact hw h0
      exact skipWords_le hw n (i + 1) (by omega)
    · exact hij

theorem firstBin_le (he : h.emptyBin j = false) : ∀ (n i : Nat), i ≤ j → h.firstBin n i ≤ j
  | 0, _, hij => hij
  | n + 1, i, hij => by
    rw [firstBin]
    split
    · next h0 =>
      have hne : i ≠ j := by
        rintro rfl
        exact Bool.false_ne_true (he.symm.trans h0.2)
      exact firstBin_le he n (i + 1) (by omega)
    · exact hij

theorem MapOk.searchNextBin_le (hm : h.MapOk) (he : h.emptyBin j = false) (hij : i < j) : h.searchNextBin i ≤ j := by
  have hword : h.auiBinBitMap (j / 32) ≠ 0 := by
    intro h0
    have hb := hm j he
    unfold binBit at hb
    rw [h0, Nat.zero_testBit] at hb
    exact Bool.false_ne_true hb
  unfold CBinMalloc.searchNextBin
  dsimp only
  split
  · next h0 =>
    have hne : (i + 1) / 32 ≠ j / 32 := by
      intro heq
      rw [heq] at h0
      exact hword h0
    have hle := skipWords_le hword (16 - ((i + 1) / 32 + 1)) ((i + 1) / 32 + 1) (by omega)
    exact firstBin_le he _ _ (by omega)
  · exact firstBin_le he _ _ hij

theorem MapOk.searchNextBin_lt (hm : h.MapOk) :
    h.searchNextBin i < nBins ↔ ∃ j < nBins, i < j ∧ h.emptyBin j = false := by
  obtain ⟨hlt, hcase⟩ := HeapInv.searchNextBin_spec h i
  constructor
  · intro hn
    exact ⟨_, hn, hlt, beq_false_of_ne (hcase.resolve_left (Nat.not_le_of_lt hn))⟩
  · rintro ⟨j, hj, hij, he⟩
    exact Nat.lt_of_le_of_lt (hm.searchNextBin_le he hij) hj

/-! ## The chunks of a bin -/

theorem smallBinMalloc_empty (hv : (h.bin (smallbinIndex size)).hNextChunk = invalidHandle) :
    h.smallBinMalloc size = (h.clearBinBitMap (smallbinIndex size), 0) := by
  have he : h.emptyBin (smallbinIndex size) = true := beq_iff_eq.mpr hv
  unfold CBinMalloc.smallBinMalloc CBinMalloc.binMalloc
  dsimp only
  rw [if_pos hv]
  dsimp only
  rw [if_pos he]

theorem searchBin_ne : ∀ (n v : Nat), h.searchBin size n v ≠ invalidHandle ↔
    ∃ y ∈ walk h.hNextChunk invalidHandle n v, size ≤ h.chunkField y
  | 0, _ => by
    simp [searchBin, walk]
  | n + 1, v => by
    rw [searchBin, walk]
    by_cases hv : v = invalidHandle
    · simp [hv]
    rw [if_neg hv, if_neg hv]
    by_cases hle : size ≤ h.chunkField v
    · rw [if_pos hle]
      exact ⟨fun _ => ⟨v, List.mem_cons_self, hle⟩, fun _ => hv⟩
    · rw [if_neg hle, searchBin_ne n]
      constructor
      · rintro ⟨y, hy, hs⟩
        exact ⟨y, List.mem_cons_of_mem _ hy, hs⟩
      · rintro ⟨y, hy, hs⟩
        rcases List.mem_cons.mp hy with rfl | hy
        · exact absurd hs hle
        · exact ⟨y, hy, hs⟩

end CBinMalloc

namespace HeapInv

variable {h : CBinMalloc} {bins : Nat → List Nat} {cs : List Chunk} {i n v size : Nat}

theorem walk_bin (H : HeapInv h bins cs) (i n : Nat) :
    walk h.hNextChunk invalidHandle n (h.bin i).hNextChunk = (bins i).take n := by
  have hroot : (h.bin i).hNextChunk = h.ringNext i invalidHandle := (if_pos rfl).symm
  rw [hroot]
  refine walk_chain n (H.bins.ring i) (fun y hy => ?_)
  have hy0 : y ≠ invalidHandle := Nat.ne_of_gt (H.bins.pos H.freeChunks hy)
  exact ⟨hy0, (if_neg hy0).symm⟩

theorem binChunks (H : HeapInv h bins cs) (i : Nat) : h.binChunks i = bins i := by
  unfold CBinMalloc.binChunks
  rw [H.walk_bin]
  refine List.take_of_length_le ?_
  have hlt : ∀ y ∈ bins i, y < h.tSize := by
    intro y hy
    obtain ⟨front, chunk, back, -, -, H1⟩ := H.cutFree hy
    have hle := H1.le_hTop
    have hroom := H1.room
    omega
  have hsub : (bins i).Subperm (List.range h.tSize) := (H.bins.nodup i).subperm (fun y hy => List.mem_range.mpr (hlt y hy))
  have hlen := hsub.length_le
  rwa [List.length_range] at hlen

theorem emptyBin (H : HeapInv h bins cs) (i : Nat) : h.emptyBin i = false ↔ bins i ≠ [] := by
  have hr := (H.bins.ring i).next_root
  rw [ringNext, if_pos rfl] at hr
  unfold CBinMalloc.emptyBin
  rw [hr, beq_eq_false_iff_ne]
  cases hb : bins i with
  | nil => exact ⟨fun hne => absurd rfl hne, fun hne => absurd rfl hne⟩
  | cons y ys =>
    have hy : 0 < y := H.bins.pos H.freeChunks (show y ∈ bins i by rw [hb]; exact List.mem_cons_self)
    exact ⟨fun _ => List.cons_ne_nil y ys, fun _ => Nat.ne_of_gt hy⟩

theorem takeFrom_ne (H : HeapInv h bins cs) (hv : v ∈ bins i) (hsize : 24 ≤ size) (hmod : size % 8 = 0)
    (hle : size ≤ h.chunkField v) (hmin : 24 ≤ h.getMinChunkSize) : (h.takeFrom i v size).2 ≠ invalidHandle := by
  have hptr : h.ptr2Handle v = v := by
    obtain ⟨front, chunk, back, -, -, H1⟩ := H.cutFree hv
    have hle := H1.le_hTop
    have hroom := H1.room
    exact if_pos (by omega)
  have ha := H.takeFree hv hsize hmod hle hmin
  unfold CBinMalloc.takeFrom
  dsimp only
  rw [hptr, ha.ptr2Handle]
  exact Nat.succ_ne_zero _

theorem topAlloc_ne (h : CBinMalloc) (size : Nat) :
    (h.topAlloc size).1.ptr2Handle (h.topAlloc size).2 ≠ invalidHandle ↔ h.hTop + size + minSize < h.tSize := by
  unfold CBinMalloc.topAlloc
  by_cases hroom : h.tSize ≤ h.hTop + size + minSize
  · rw [if_pos hroom]
    have h0 : h.ptr2Handle 0 = invalidHandle := by
      unfold ptr2Handle
      split <;> rfl
    exact ⟨fun hne => absurd h0 hne, fun hlt => absurd hroom (Nat.not_le_of_lt hlt)⟩
  · rw [if_neg hroom]
    refine ⟨fun _ => Nat.lt_of_not_le hroom, fun _ => ?_⟩
    have hlt : h.hTop + 8 < h.tSize := by
      unfold minSize at hroom
      omega
    refine ne_of_eq_of_ne (if_pos hlt) (Nat.succ_ne_zero _)

theorem mallocFromBins_gives (H : HeapInv h bins cs) (hm : h.MapOk) (hmin : 24 ≤ h.getMinChunkSize) (hsize : 24 ≤ size)
    (hmod : size % 8 = 0) (hsmall : inSmallbinRange size = true → bins (binIndex size) = []) :
    (∃ r, h.mallocFromBins size = some r ∧ r.2 ≠ invalidHandle) ↔ h.room.Fits size := by
  have hown : ∀ v, v = (if inSmallbinRange size then invalidHandle
      else h.searchBin size 99 (h.bin (binIndex size)).hNextChunk) →
      (v ≠ invalidHandle ↔ ∃ y ∈ (bins (binIndex size)).take 99, size ≤ h.chunkField y) := by
    rintro v rfl
    by_cases hs : inSmallbinRange size = true
    · rw [if_pos hs, hsmall hs, List.take_nil]
      exact ⟨fun hne => absurd rfl hne, fun ⟨_, hy, _⟩ => absurd hy List.not_mem_nil⟩
    · rw [if_neg hs, searchBin_ne, H.walk_bin]
  have hlater : h.searchNextBin (binIndex size) < nBins ↔ ∃ i < nBins, binIndex size < i ∧ bins i ≠ [] := by
    rw [hm.searchNextBin_lt]
    refine exists_congr (fun j => and_congr_right (fun _ => and_congr_right (fun _ => H.emptyBin j)))
  have hfits : h.room.Fits size ↔ (∃ i < nBins, binIndex size < i ∧ bins i ≠ []) ∨
      (∃ v ∈ (bins (binIndex size)).take 99, size ≤ h.chunkField v) ∨ h.hTop + size + minSize < h.tSize := by
    have hb : h.room.bins = bins := funext H.binChunks
    unfold Room.Fits
    rw [hb]
    exact Iff.rfl
  rw [hfits, ← hlater]
  unfold CBinMalloc.mallocFromBins
  dsimp only
  generalize hv : (if inSmallbinRange size then invalidHandle
    else h.searchBin size 99 (h.bin (binIndex size)).hNextChunk) = v
  rw [← hown v hv.symm]
  by_cases hv0 : v ≠ invalidHandle
  · rw [if_pos hv0]
    have hfound := H.ownBin hv hv0
    exact ⟨fun _ => .inr (.inl hv0), fun _ => ⟨_, rfl, H.takeFrom_ne hfound.1 hsize hmod hfound.2 hmin⟩⟩
  · rw [if_neg hv0]
    by_cases hbins : nBins ≤ h.searchNextBin (binIndex size)
    · rw [if_pos hbins]
      constructor
      · rintro ⟨r, hr, hne⟩
        obtain rfl := Option.some.inj hr
        exact .inr (.inr ((topAlloc_ne h size).mp hne))
      · rintro (hlt | hne | htop)
        · exact absurd hbins (Nat.not_le_of_lt hlt)
        · exact absurd hne hv0
        · exact ⟨_, rfl, (topAlloc_ne h size).mpr htop⟩
    · rw [if_neg hbins]
      obtain ⟨hj, hn⟩ := searchNextBin_spec h (binIndex size)
      obtain ⟨y, hy, hmem, hle⟩ := H.tailFit hj (hn.resolve_left hbins)
      rw [hy]
      exact ⟨fun _ => .inl (Nat.lt_of_not_le hbins), fun _ => ⟨_, rfl, H.takeFrom_ne hmem hsize hmod hle hmin⟩⟩

theorem interMalloc_gives (H : HeapInv h bins cs) (hm : h.MapOk) (hmin : 24 ≤ h.getMinChunkSize) (req : Nat) :
    (∃ r, h.interMalloc req = some r ∧ r.2 ≠ invalidHandle) ↔
      requestOutOfRange req = false ∧ h.room.Fits (request2size req) := by
  unfold CBinMalloc.interMalloc
  by_cases hreq : requestOutOfRange req = true
  · rw [if_pos hreq, hreq]
    constructor
    · rintro ⟨r, hr, hne⟩
      obtain rfl := Option.some.inj hr
      exact absurd rfl hne
    · rintro ⟨hf, -⟩
      cases hf
  have hin : requestOutOfRange req = false := Bool.eq_false_iff.mpr hreq
  rw [if_neg hreq, hin, eq_self_iff_true, true_and]
  obtain ⟨hsize, hmod, -, -⟩ := request2size_spec req
  generalize request2size req = size at hsize hmod
  dsimp only
  by_cases hsmall : inSmallbinRange size = true
  · rw [if_pos hsmall]
    have hlt : size < 512 := of_decide_eq_true hsmall
    have hi : binIndex size = smallbinIndex size := if_pos hsmall
    by_cases hv : (h.bin (smallbinIndex size)).hNextChunk = invalidHandle
    · -- the bin is empty, and only its bit is cleared
      have he : h.emptyBin (smallbinIndex size) = true := beq_iff_eq.mpr hv
      have hempty : bins (smallbinIndex size) = [] := by
        by_contra hne
        rw [(H.emptyBin _).mpr hne] at he
        cases he
      have hdef := smallBinMalloc_empty hv
      have hm' := hm.smallBinMalloc size
      rw [hdef] at hm' ⊢
      rw [if_neg (fun hne => hne rfl)]
      have H' : HeapInv (h.clearBinBitMap (smallbinIndex size)) bins cs := H.recount rfl rfl rfl rfl rfl
      exact H'.mallocFromBins_gives hm' hmin hsize hmod (fun _ => hi ▸ hempty)
    · have hmem : (h.bin (smallbinIndex size)).hNextChunk ∈ bins (smallbinIndex size) := by
        have hw := H.walk_bin (smallbinIndex size) 1
        rw [walk, if_neg hv] at hw
        refine List.mem_of_mem_take (i := 1) ?_
        rw [← hw]
        exact List.mem_cons_self
      have hne : (h.smallBinMalloc size).2 ≠ 0 := by
        unfold CBinMalloc.smallBinMalloc CBinMalloc.binMalloc
        dsimp only
        rw [if_neg hv]
        exact hv
      rw [if_pos hne]
      obtain ⟨-, ha⟩ := (H.smallBinMalloc hlt hmod).resolve_left (fun hc => hne hc.1)
      refine ⟨fun _ => .inr (.inl ?_), fun _ => ⟨_, rfl, ?_⟩⟩
      · obtain ⟨front, chunk, back, -, hci, H1⟩ := H.cutFree hmem
        have hchunk : chunk = size := binIndex_small hlt H1.segBack.1.align hmod hci
        refine ⟨_, ?_, Nat.le_of_eq ((H1.chunkField_behind.trans hchunk).symm)⟩
        have hb : h.room.bins = bins := funext H.binChunks
        rw [hb, hi]
        have hw := H.walk_bin (smallbinIndex size) 99
        rw [walk, if_neg hv] at hw
        rw [← hw]
        exact List.mem_cons_self
      · dsimp only
        rw [ha.ptr2Handle]
        exact Nat.succ_ne_zero _
  · rw [if_neg hsmall, if_neg (fun hne => hne rfl)]
    exact H.mallocFromBins_gives hm hmin hsize hmod (fun hs => absurd hs hsmall)

end HeapInv

theorem HeapRep.gives_iff {h : CBinMalloc} {bs : List Block} (R : HeapRep h bs) (hm : h.MapOk) (req : Nat) :
    h.Gives req ↔ requestOutOfRange req = false ∧ h.room.Fits (request2size req) := by
  have R₀ := R.forget
  have hm₀ : MapOk { h with tLastFreeChunkSize := 0 } := hm.of_eq rfl rfl
  have hroom : room { h with tLastFreeChunkSize := 0 } = h.room := rfl
  unfold Gives CBinMalloc.malloc
  dsimp only
  rw [← hroom]
  generalize { h with tLastFreeChunkSize := 0 } = h₀ at R₀ hm₀
  obtain ⟨bins, cs, H, rfl, A⟩ := R₀
  rw [← H.interMalloc_gives hm₀ (H.getMinChunkSize A) req]
  constructor
  · rintro ⟨h', handle, he, hne⟩
    obtain ⟨r, hr, hq⟩ := Option.map_eq_some_iff.mp he
    refine ⟨r, hr, ?_⟩
    by_cases h2 : r.2 = invalidHandle
    · rw [if_neg (fun hc => hc h2)] at hq
      rw [hq] at h2
      exact absurd h2 hne
    · exact h2
  · rintro ⟨r, hr, hne⟩
    rw [hr, Option.map_some, if_pos hne]
    exact ⟨_, _, rfl, hne⟩

end Dtc
