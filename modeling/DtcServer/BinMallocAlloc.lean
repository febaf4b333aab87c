import DtcServer.BinMallocFree
/-!
# BinMallocAlloc — `InterMalloc`

A chunk comes from the bin of its size, from a larger one whose end is freed again, or from the top.  Which one it is
depends on the bins; that the blocks in use are as before and one more does not.
-/
namespace Dtc

open Memory CBinMalloc

theorem largebinIndex_mono {s t : Nat} (h : s ≤ t) : largebinIndex s ≤ largebinIndex t := by
  unfold largebinIndex
  repeat' split
  all_goals omega

theorem largebinIndex_ge {s : Nat} (h : 512 ≤ s) : 64 ≤ largebinIndex s := largebinIndex_mono h

theorem binIndex_mono {s t : Nat} (h : s ≤ t) : binIndex s ≤ binIndex t := by
  unfold binIndex inSmallbinRange smallbinIndex
  simp only [decide_eq_true_eq]
  have hl := largebinIndex_mono h
  by_cases ht : t < 512
  · rw [if_pos ht, if_pos (by omega)]
    omega
  · have hg := largebinIndex_ge (Nat.le_of_not_lt ht)
    rw [if_neg ht]
    split
    · omega
    · exact hl
theorem binIndex_small {s t : Nat} (ht : t < 512) (hs : s % 8 = 0) (htm : t % 8 = 0) (h : binIndex s = smallbinIndex t) :
    s = t := by
  by_cases hs' : s < 512
  · unfold binIndex inSmallbinRange at h
    rw [decide_eq_true hs', if_pos rfl] at h
    unfold smallbinIndex at h
    omega
  · have hmono := binIndex_mono (Nat.le_of_not_lt hs')
    have h64 : binIndex 512 = 64 := by decide
    unfold smallbinIndex at h
    omega

theorem request2size_spec (req : Nat) :
    24 ≤ request2size req ∧ request2size req % 8 = 0 ∧ req + 8 ≤ request2size req ∧ request2size req ≤ req + 24 := by
  unfold request2size minSize
  split <;> omega

namespace Holed

variable {h : CBinMalloc} {bins : Nat → List Nat} {front back : List Chunk} {a b size : Nat} {p : Bool}

theorem takeChunk (H : Holed h bins front a true b false back) (hfield : h.tChunkField a = b - a + 1)
    (hsize : 24 ≤ size) (hmod : size % 8 = 0) (hle : a + size ≤ b) (hmin : 24 ≤ h.getMinChunkSize) :
    ∃ bins' chunk bytes back', Holed (h.takeChunk a size) bins' front a true a true (⟨chunk, some bytes⟩ :: back') ∧
      size ≤ chunk ∧ usedOf (a + chunk) back' = usedOf b back ∧ SameHead h (h.takeChunk a size) := by
  have hbmod := H.align
  have hamod := H.start_mod
  have hbt := H.le_hTop
  have hroom := H.room
  have hbound := H.bound
  have hbfield : h.tChunkField b = headSize back + 0 := H.field
  have hlt : h.tChunkField b < 2 ^ 32 := readNat_lt ..
  have hhmod := headSize_mod H.segBack
  have hcf : h.chunkField a = b - a := by
    unfold chunkField
    rw [hfield]
    exact realSize_add (by omega) (by decide)
  have hset : setPrevInuse (headSize back) = headSize back + 1 := by
    unfold setPrevInuse
    omega
  have hn : a + (b - a) = b := by omega
  unfold CBinMalloc.takeChunk
  rw [hcf]
  by_cases hsplit : b - a - size < h.getMinChunkSize
  · -- the whole chunk
    rw [if_pos hsplit]
    have hmem : h.setInuseBitAtOffset a (b - a) = h.putChunkField b (headSize back + 1) := by
      unfold setInuseBitAtOffset
      rw [hn, hbfield, Nat.add_zero, hset]
    rw [hmem]
    have H1 : Holed (h.putChunkField b (headSize back + 1)) bins front a true b true back := by
      refine H.write ⟨rfl, rfl, rfl, rfl, rfl, rfl, rfl⟩ rfl rfl (fun x hx => mem_putChunkField (by omega)) ?_
        (fun hq => by cases hq)
      exact tChunkField_putChunkField (by omega)
    have hfield1 : (h.putChunkField b (headSize back + 1)).tChunkField a = b - a + 1 := by
      rw [tChunkField_putChunkField_of_ne (.inl (by omega)), hfield]
    have H2 := H1.use (by omega) hfield1
    exact ⟨bins, b - a, _, back, H2, by omega, by rw [hn], ⟨rfl, rfl, rfl, rfl, rfl, rfl, rfl⟩⟩
  · rw [if_neg hsplit]
    dsimp only
    have hrem : a + size + (b - a - size) = b := by omega
    have hset0 : setPrevInuse (b - a - size) = b - a - size + 1 := by
      unfold setPrevInuse
      omega
    have hs1 : sizeBits (h.tChunkField a) = 1 := by
      unfold sizeBits
      omega
    simp only [hs1, hrem, setInuseBitAtOffset, Nat.add_zero]
    have e1 : (((h.putChunkField a (size + 1)).putChunkField (a + size) (b - a - size)).putPreSize (a + size)
        size).tChunkField (a + size) = b - a - size := by
      rw [tChunkField_putPreSize (.inr (Nat.le_refl _)), tChunkField_putChunkField (by omega)]
    rw [e1, hset0]
    generalize hh' : (((((h.putChunkField a (size + 1)).putChunkField (a + size) (b - a - size)).putPreSize (a + size)
      size).putChunkField (a + size) (b - a - size + 1)).putPreSize b (b - a - size)) = h'
    have hb' : h'.tChunkField b = headSize back := by
      rw [← hh', tChunkField_putPreSize (.inr (Nat.le_refl _)), tChunkField_putChunkField_of_ne (.inr (by omega)),
        tChunkField_putPreSize (.inr (by omega)), tChunkField_putChunkField_of_ne (.inr (by omega)),
        tChunkField_putChunkField_of_ne (.inr (by omega)), hbfield]
      rfl
    have ha' : h'.tChunkField a = size + 1 := by
      rw [← hh', tChunkField_putPreSize (.inl (by omega)), tChunkField_putChunkField_of_ne (.inl (by omega)),
        tChunkField_putPreSize (.inl (by omega)), tChunkField_putChunkField_of_ne (.inl (by omega)),
        tChunkField_putChunkField (by omega)]
    have hs' : h'.tChunkField (a + size) = b - a - size + 1 := by
      rw [← hh', tChunkField_putPreSize (.inl (by omega)), tChunkField_putChunkField (by omega)]
    have hm' : ∀ x, x < a + 4 ∨ b + 4 ≤ x → h'.mem x = h.mem x := by
      intro x hx
      rw [← hh', mem_putPreSize (by omega), mem_putChunkField (by omega), mem_putPreSize (by omega),
        mem_putChunkField (by omega), mem_putChunkField (by omega)]
    have hhead' : SameHead h h' := by
      rw [← hh']
      exact ⟨rfl, rfl, rfl, rfl, rfl, rfl, rfl⟩
    rw [hb', hset]
    have H1 : Holed (h'.putChunkField b (headSize back + 1)) bins front a true b true back := by
      refine H.write (hhead'.trans ⟨rfl, rfl, rfl, rfl, rfl, rfl, rfl⟩) (by rw [← hh']; rfl) (by rw [← hh']; rfl)
        (fun x hx => ?_) ?_ (fun hq => by cases hq)
      · rw [mem_putChunkField (by omega), hm' x (by omega)]
      · exact tChunkField_putChunkField (by omega)
    have hfs : (h'.putChunkField b (headSize back + 1)).tChunkField (a + size) = b - (a + size) + 1 := by
      rw [tChunkField_putChunkField_of_ne (.inl (by omega)), hs']
      omega
    have hptr : (h'.putChunkField b (headSize back + 1)).ptr2Handle (a + size) = a + size := by
      refine if_pos ?_
      change _ < h'.tSize
      rw [hhead'.tSize]
      omega
    obtain ⟨h₂, bins₂, back₂, f1, H2, f2, f3, f4⟩ := H1.interFree_end (s := a + size) (by omega) (by omega) (by omega) hfs
    rw [hptr, f1]
    have hfa : h₂.tChunkField a = a + size - a + 1 := by
      have he : h₂.tChunkField a = (h'.putChunkField b (headSize back + 1)).tChunkField a :=
        readNat_congr (fun x h1 h2 => f4 x (by omega) (by omega))
      rw [he, tChunkField_putChunkField_of_ne (.inl (by omega)), ha']
      omega
    have H3 := H2.use (by omega) hfa
    refine ⟨bins₂, a + size - a, _, back₂, H3, by omega, ?_, ?_⟩
    · rw [show a + (a + size - a) = a + size by omega]
      exact f2
    · have hput : SameHead h (h'.putChunkField b (headSize back + 1)) := hhead'.trans ⟨rfl, rfl, rfl, rfl, rfl, rfl, rfl⟩
      exact hput.trans f3

end Holed

theorem SameHead.getMinChunkSize {h h' : CBinMalloc} (a : SameHead h h') : h'.getMinChunkSize = h.getMinChunkSize := by
  unfold CBinMalloc.getMinChunkSize
  rw [a.minChunkSize, a.chunkTotal, a.dataSize]

def Allocates (h h' : CBinMalloc) (cs : List Chunk) (size r : Nat) : Prop :=
  SameHead h h' ∧ ((r = invalidHandle ∧ ∃ bins', HeapInv h' bins' cs) ∨
    ∃ bins' front a p chunk bytes back, r = a + 8 ∧ Holed h' bins' front a p a p (⟨chunk, some bytes⟩ :: back) ∧
      size ≤ chunk ∧ usedOf h.hBottom front ++ usedOf (a + chunk) back = usedOf h.hBottom cs)

theorem Allocates.ptr2Handle {h h' : CBinMalloc} {cs : List Chunk} {size v : Nat} (ha : Allocates h h' cs size (v + 8)) :
    h'.ptr2Handle (chunk2mem v) = v + 8 := by
  obtain ⟨-, ⟨h0, -⟩ | ⟨bins, front, a, p, chunk, bytes, back, hv, H, -, -⟩⟩ := ha
  · exact absurd h0 (Nat.succ_ne_zero _)
  · have hmin := H.segBack.1.min
    have hle := H.segBack.2.le
    have hroom := H.room
    dsimp only at hmin hle
    refine if_pos ?_
    unfold chunk2mem
    omega

theorem Allocates.of_same {h h₁ h' : CBinMalloc} {cs : List Chunk} {size r : Nat} (hs : SameHead h h₁)
    (ha : Allocates h₁ h' cs size r) : Allocates h h' cs size r := by
  obtain ⟨h1, h2⟩ := ha
  rw [hs.hBottom] at h2
  exact ⟨hs.trans h1, h2⟩

theorem Allocates.blocks {h h' : CBinMalloc} {cs : List Chunk} {size r : Nat} (ha : Allocates h h' cs size r) :
    ∃ bins' cs', HeapInv h' bins' cs' ∧ ((r = invalidHandle ∧ cs' = cs) ∨
      ∃ N : Block, r = N.addr + 8 ∧ size ≤ N.size ∧ (usedOf h'.hBottom cs').Perm (N :: usedOf h.hBottom cs)) := by
  obtain ⟨hhead, ⟨h0, bins', H'⟩ | ⟨bins', front, a, p, chunk, bytes, back, hr, H', hsize, hused⟩⟩ := ha
  · exact ⟨bins', cs, H', .inl ⟨h0, rfl⟩⟩
  · refine ⟨bins', _, H'.join, .inr ⟨⟨a, chunk, bytes⟩, hr, hsize, ?_⟩⟩
    rw [usedOf_append H'.segFront, usedOf, ← hused, hhead.hBottom]
    exact List.perm_middle

namespace HeapInv

variable {h : CBinMalloc} {bins : Nat → List Nat} {cs : List Chunk} {i v size : Nat}

theorem chunkField_free (H : HeapInv h bins cs) (hv : v ∈ bins i) : binIndex (h.chunkField v) = i := by
  obtain ⟨front, chunk, back, -, hi, H1⟩ := H.cutFree hv
  rw [H1.chunkField_behind]
  exact hi

theorem takeFree (H : HeapInv h bins cs) (hv : v ∈ bins i) (hsize : 24 ≤ size) (hmod : size % 8 = 0)
    (hle : size ≤ h.chunkField v) (hmin : 24 ≤ h.getMinChunkSize) :
    Allocates h ((h.unlinkClear i v).takeChunk v size) cs size (v + 8) := by
  obtain ⟨front, chunk, back, rfl, rfl, H1⟩ := H.cutFree hv
  have hcf : h.chunkField v = chunk := H1.chunkField_behind
  have hmin1 := H1.segBack.1.min
  dsimp only at hmin1
  obtain ⟨H2, u1, u2, u3⟩ := H1.unlinkNext rfl
  dsimp only at H2 u1 u2 u3
  obtain ⟨v1, v2, v3, v4⟩ := unlinkClear_same h (binIndex chunk) v
  have H3 := H2.congr v1 v2 v3 v4
  have hfield : (h.unlinkClear (binIndex chunk) v).tChunkField v = v + chunk - v + 1 := by
    have he : (h.unlinkClear (binIndex chunk) v).tChunkField v = h.tChunkField v :=
      readNat_congr (fun x h1 h2 => by rw [v1]; exact u3 x (by omega) (by omega))
    have hf : h.tChunkField v = chunk + 1 := H1.segBack.1.field
    omega
  have hmin' : 24 ≤ (h.unlinkClear (binIndex chunk) v).getMinChunkSize := by
    rw [(u1.trans v3).getMinChunkSize]
    exact hmin
  obtain ⟨bins₂, chunk', bytes, back', H4, t1, t2, t3⟩ := H3.takeChunk hfield hsize hmod (by omega) hmin'
  refine ⟨(u1.trans v3).trans t3, .inr ⟨bins₂, front, v, true, chunk', bytes, back', rfl, H4, t1, ?_⟩⟩
  rw [t2, usedOf_append H1.segFront]
  rfl

theorem smallBinMalloc (H : HeapInv h bins cs) (hsmall : size < 512) (hmod : size % 8 = 0) :
    ((h.smallBinMalloc size).2 = 0 ∧ SameHead h (h.smallBinMalloc size).1 ∧ HeapInv (h.smallBinMalloc size).1 bins cs) ∨
      ((h.smallBinMalloc size).2 ≠ 0 ∧
        Allocates h (h.smallBinMalloc size).1 cs size ((h.smallBinMalloc size).2 + 8)) := by
  have hclear : ∀ h₁ : CBinMalloc, ∃ h₂ : CBinMalloc, (if h₁.emptyBin (smallbinIndex size) then
      h₁.clearBinBitMap (smallbinIndex size) else h₁) = h₂ ∧ h₂.mem = h₁.mem ∧ h₂.bin = h₁.bin ∧ SameHead h₁ h₂ ∧
      h₂.hTop = h₁.hTop := by
    intro h₁
    refine ⟨_, rfl, ?_⟩
    split
    · exact ⟨rfl, rfl, ⟨rfl, rfl, rfl, rfl, rfl, rfl, rfl⟩, rfl⟩
    · exact ⟨rfl, rfl, SameHead.refl _, rfl⟩
  unfold CBinMalloc.smallBinMalloc CBinMalloc.binMalloc
  dsimp only
  by_cases hv : (h.bin (smallbinIndex size)).hNextChunk = invalidHandle
  · rw [if_pos hv]
    obtain ⟨h₂, e, e1, e2, e3, e4⟩ := hclear h
    refine .inl ⟨rfl, ?_, ?_⟩
    · rw [e]
      exact e3
    · rw [e]
      have H1 := H.congr e1 e2 e3 e4
      unfold HeapInv
      rw [e3.hBottom]
      exact H1
  · rw [if_neg hv]
    have hmem : (h.bin (smallbinIndex size)).hNextChunk ∈ bins (smallbinIndex size) := by
      have hr := (H.bins.ring (smallbinIndex size)).next_root
      rw [ringNext, if_pos rfl] at hr
      cases hb : bins (smallbinIndex size) with
      | nil =>
        rw [hb] at hr
        exact absurd hr hv
      | cons y ys =>
        rw [hb] at hr
        rw [hr]
        exact List.mem_cons_self
    generalize (h.bin (smallbinIndex size)).hNextChunk = v at hv hmem
    obtain ⟨front, chunk, back, rfl, hi, H1⟩ := H.cutFree hmem
    have hchunk : chunk = size := binIndex_small hsmall H1.segBack.1.align hmod hi
    subst hchunk
    have hmin := H1.segBack.1.min
    have hmod1 := H1.segBack.1.align
    have hvmod := H1.align
    dsimp only at hmin hmod1
    have hfield : h.tChunkField v = chunk + 1 := H1.segBack.1.field
    have hreal : realSize (h.tChunkField v) = chunk := by
      rw [hfield]
      exact realSize_add hmod1 (by decide)
    have S : HoleShape h front v true (v + chunk) false back := H1.toHoleShape.skip
    have hbf : h.tChunkField (v + chunk) = headSize back + 0 := S.field
    have hlt : h.tChunkField (v + chunk) < 2 ^ 32 := readNat_lt ..
    have hhm := headSize_mod S.segBack
    have hset : h.setInuseBitAtOffset v chunk = h.putChunkField (v + chunk) (headSize back + 1) := by
      unfold setInuseBitAtOffset setPrevInuse
      rw [hbf]
      congr 1
      omega
    rw [hreal, hset]
    generalize hh₁ : h.putChunkField (v + chunk) (headSize back + 1) = h₁
    have hm₁ : ∀ x, x < v + chunk + 4 ∨ v + chunk + 8 ≤ x → h₁.mem x = h.mem x := by
      intro x hx
      rw [← hh₁]
      exact mem_putChunkField hx
    have hhead₁ : SameHead h h₁ := by
      rw [← hh₁]
      exact ⟨rfl, rfl, rfl, rfl, rfl, rfl, rfl⟩
    have hf₁ : h₁.tChunkField (v + chunk) = headSize back + 1 := by
      rw [← hh₁]
      exact tChunkField_putChunkField (by omega)
    -- the bit is set before the chunk is unlinked
    have hF := H1.freeChunks
    have hfree : freeOf v (⟨chunk, none⟩ :: back) = (v, chunk) :: freeOf (v + chunk) back := freeOf_cons_free rfl v back
    have hb₁ : BinsRep h₁ bins (freeOf h.hBottom front ++ freeOf v (⟨chunk, none⟩ :: back)) := by
      refine H1.bins.congr hF (by rw [← hh₁]; rfl) (fun d hd x h1 h2 => hm₁ x ?_)
      rw [hfree] at hd
      rcases List.mem_append.mp hd with hd | hd
      · have := freeOf_bounds H1.segFront hd
        omega
      · rcases List.mem_cons.mp hd with rfl | hd
        · dsimp only at h1 h2
          omega
        · have := freeOf_bounds S.segBack hd
          omega
    have S₁ : HoleShape h₁ front v true (v + chunk) true back := by
      refine S.write hhead₁ (by rw [← hh₁]; rfl) (fun x hx => hm₁ x (by omega)) hf₁ (fun hq => by cases hq)
    have hF' : ∀ d, d ∈ freeOf h₁.hBottom front ++ freeOf (v + chunk) back ↔
        d ∈ freeOf h.hBottom front ++ freeOf v (⟨chunk, none⟩ :: back) ∧ d.1 ≠ v := by
      rw [hhead₁.hBottom]
      exact H1.free_behind rfl
    obtain ⟨H2, u1, u2, u3⟩ := S₁.unlink hb₁ hF (List.mem_append_right _ (by rw [hfree]; exact List.mem_cons_self)) hF'
    rw [hi] at H2 u1 u2 u3
    obtain ⟨h₂, e, e1, e2, e3, e4⟩ := hclear (h₁.unlinkBin (smallbinIndex chunk) v)
    rw [e]
    have H3 := H2.congr e1 e2 e3 e4
    have hfield₂ : h₂.tChunkField v = v + chunk - v + 1 := by
      have he : h₂.tChunkField v = h.tChunkField v := by
        refine readNat_congr (fun x h1 h2 => ?_)
        rw [e1, u3 x (by omega) (by omega), hm₁ x (by omega)]
      omega
    have H4 := H3.use (by omega) hfield₂
    refine .inr ⟨hv, (hhead₁.trans u1).trans e3, .inr ⟨_, front, v, true, v + chunk - v, _, back, rfl, H4, by omega, ?_⟩⟩
    rw [usedOf_append H1.segFront, show v + (v + chunk - v) = v + chunk by omega]
    rfl

theorem searchBin (H : HeapInv h bins cs) : ∀ (n : Nat) {v : Nat}, v ∈ invalidHandle :: bins i →
    h.searchBin size n v ≠ invalidHandle →
    h.searchBin size n v ∈ bins i ∧ size ≤ h.chunkField (h.searchBin size n v)
  | 0, _, _, hne => absurd rfl hne
  | n + 1, v, hv, hne => by
    rw [CBinMalloc.searchBin] at hne ⊢
    split at hne
    · exact absurd rfl hne
    · rename_i hv0
      rw [if_neg hv0]
      have hmem : v ∈ bins i := (List.mem_cons.mp hv).resolve_left hv0
      split at hne
      · rename_i hle
        rw [if_pos hle]
        exact ⟨hmem, hle⟩
      · rename_i hle
        rw [if_neg hle]
        exact searchBin H n (H.bins.neighbours H.freeChunks hmem).2.1 hne

theorem le_skipWords (h : CBinMalloc) : ∀ (n i : Nat), i ≤ h.skipWords n i
  | 0, i => Nat.le_refl i
  | n + 1, i => by
    rw [skipWords]
    split
    · exact Nat.le_trans (Nat.le_succ i) (le_skipWords h n (i + 1))
    · exact Nat.le_refl i

theorem firstBin_spec (h : CBinMalloc) : ∀ (n i : Nat), nBins ≤ i + n →
    i ≤ h.firstBin n i ∧ (nBins ≤ h.firstBin n i ∨ (h.bin (h.firstBin n i)).hNextChunk ≠ invalidHandle)
  | 0, i, hn => ⟨Nat.le_refl i, .inl hn⟩
  | n + 1, i, hn => by
    rw [firstBin]
    split
    · obtain ⟨h1, h2⟩ := firstBin_spec h n (i + 1) (by omega)
      exact ⟨by omega, h2⟩
    · rename_i hc
      refine ⟨Nat.le_refl i, ?_⟩
      by_cases hi : nBins ≤ i
      · exact .inl hi
      · refine .inr (fun he => hc ⟨by omega, ?_⟩)
        rw [emptyBin, he, beq_self_eq_true]

theorem searchNextBin_spec (h : CBinMalloc) (i : Nat) :
    i < h.searchNextBin i ∧ (nBins ≤ h.searchNextBin i ∨ (h.bin (h.searchNextBin i)).hNextChunk ≠ invalidHandle) := by
  unfold CBinMalloc.searchNextBin
  dsimp only
  split
  · have hle := le_skipWords h (16 - ((i + 1) / 32 + 1)) ((i + 1) / 32 + 1)
    obtain ⟨h1, h2⟩ := firstBin_spec h nBins (32 * h.skipWords (16 - ((i + 1) / 32 + 1)) ((i + 1) / 32 + 1))
      (Nat.le_add_left _ _)
    exact ⟨by omega, h2⟩
  · obtain ⟨h1, h2⟩ := firstBin_spec h nBins (i + 1) (Nat.le_add_left _ _)
    exact ⟨by omega, h2⟩

theorem tailFit (H : HeapInv h bins cs) {j : Nat} (hj : binIndex size < j) (hne : (h.bin j).hNextChunk ≠ invalidHandle) :
    ∃ v, h.tailFit size h.tSize (h.bin j).hPreChunk = some v ∧ v ∈ bins j ∧ size ≤ h.chunkField v := by
  have hmem : ∃ y, y ∈ bins j := by
    have hr := (H.bins.ring j).next_root
    rw [ringNext, if_pos rfl] at hr
    cases hb : bins j with
    | nil =>
      rw [hb] at hr
      exact absurd hr hne
    | cons y ys => exact ⟨y, List.mem_cons_self⟩
  obtain ⟨y, hy⟩ := hmem
  have hp := (H.bins.bin_ne hy).2
  have hbig : size ≤ h.chunkField (h.bin j).hPreChunk := by
    by_contra hlt
    have hmono := binIndex_mono (Nat.le_of_not_le hlt)
    rw [H.chunkField_free hp] at hmono
    omega
  have hp0 : (h.bin j).hPreChunk ≠ invalidHandle := Nat.ne_of_gt (H.bins.pos H.freeChunks hp)
  have hroom := H.room
  obtain ⟨n, hn⟩ : ∃ n, h.tSize = n + 1 := Nat.exists_eq_succ_of_ne_zero (by omega)
  refine ⟨_, ?_, hp, hbig⟩
  rw [hn, CBinMalloc.tailFit, if_neg hp0, if_neg (Nat.not_lt_of_le hbig)]

theorem topAlloc (H : HeapInv h bins cs) (hsize : 24 ≤ size) (hmod : size % 8 = 0) :
    Allocates h (h.topAlloc size).1 cs size ((h.topAlloc size).1.ptr2Handle (h.topAlloc size).2) := by
  unfold CBinMalloc.topAlloc
  by_cases hroom : h.tSize ≤ h.hTop + size + minSize
  · rw [if_pos hroom]
    refine ⟨SameHead.refl h, .inl ⟨?_, bins, H⟩⟩
    unfold ptr2Handle
    split <;> rfl
  · rw [if_neg hroom]
    dsimp only
    have hbound := H.bound
    have hroom' : ¬ h.tSize ≤ h.hTop + size + 24 := hroom
    have hcut : HeapInv h bins (cs ++ []) := by rwa [List.append_nil]
    obtain ⟨a, p, H1⟩ := hcut.cut
    obtain ⟨rfl, rfl⟩ : a = h.hTop ∧ p = true := H1.segBack
    have htmod := H1.align
    have hfield : h.tChunkField h.hTop = 1 := H1.top
    have hbits : sizeBits (h.tChunkField h.hTop) + realSize size = size + 1 := by
      rw [hfield, realSize_eq hmod, sizeBits]
      omega
    rw [hbits, realSize_eq hmod]
    have htop : (((h.putChunkField h.hTop (size + 1)).putPreSize (h.hTop + size) size).putChunkField (h.hTop + size)
        1).hTop = h.hTop := rfl
    have hfa : ((((h.putChunkField h.hTop (size + 1)).putPreSize (h.hTop + size) size).putChunkField (h.hTop + size)
        1).moveTop (h.hTop + size)).tChunkField h.hTop = h.hTop + size - h.hTop + 1 := by
      refine (tChunkField_putChunkField_of_ne (.inl (by omega))).trans ?_
      rw [tChunkField_putPreSize (.inl (by omega)), tChunkField_putChunkField (by omega)]
      omega
    have H2 : Holed ((((h.putChunkField h.hTop (size + 1)).putPreSize (h.hTop + size) size).putChunkField (h.hTop + size)
        1).moveTop (h.hTop + size)) bins cs h.hTop true (h.hTop + size) true [] := by
      refine H1.setTop (by omega) (by omega) (by omega) (fun x hx => ?_) (tChunkField_putChunkField (by decide)) rfl
        ⟨rfl, rfl, rfl, rfl, rfl, rfl, rfl⟩ rfl
      refine (mem_putChunkField (by omega)).trans ?_
      rw [mem_putPreSize (by omega), mem_putChunkField (by omega)]
    have H3 := H2.use (by omega) hfa
    rw [htop]
    refine ⟨⟨rfl, rfl, rfl, rfl, rfl, rfl, rfl⟩, .inr ⟨bins, cs, h.hTop, true, _, _, [], ?_, H3, by omega, ?_⟩⟩
    · refine if_pos ?_
      change h.hTop + 8 < h.tSize
      omega
    · rw [usedOf, List.append_nil]

theorem takeFrom (H : HeapInv h bins cs) (hv : v ∈ bins i) (hsize : 24 ≤ size) (hmod : size % 8 = 0)
    (hle : size ≤ h.chunkField v) (hmin : 24 ≤ h.getMinChunkSize) :
    Allocates h (h.takeFrom i v size).1 cs size (h.takeFrom i v size).2 := by
  have hptr : h.ptr2Handle v = v := by
    obtain ⟨front, chunk, back, -, -, H1⟩ := H.cutFree hv
    have hle := H1.le_hTop
    have hroom := H1.room
    exact if_pos (by omega)
  have ha := H.takeFree hv hsize hmod hle hmin
  unfold CBinMalloc.takeFrom
  dsimp only
  rw [hptr, ha.ptr2Handle]
  exact ha

theorem ownBin (H : HeapInv h bins cs) (hv : (if inSmallbinRange size then invalidHandle
    else h.searchBin size 99 (h.bin (binIndex size)).hNextChunk) = v) (hv0 : v ≠ invalidHandle) :
    v ∈ bins (binIndex size) ∧ size ≤ h.chunkField v := by
  have hroot : (h.bin (binIndex size)).hNextChunk ∈ invalidHandle :: bins (binIndex size) := by
    have hr := (H.bins.ring (binIndex size)).next_root
    rw [ringNext, if_pos rfl] at hr
    rw [hr]
    cases bins (binIndex size) with
    | nil => exact List.mem_cons_self
    | cons y ys => exact List.mem_cons_of_mem _ List.mem_cons_self
  split at hv
  · exact absurd hv.symm hv0
  · rw [← hv] at hv0 ⊢
    exact H.searchBin 99 hroot hv0

theorem mallocFromBins (H : HeapInv h bins cs) (hmin : 24 ≤ h.getMinChunkSize) (hsize : 24 ≤ size) (hmod : size % 8 = 0) :
    ∃ h' r, h.mallocFromBins size = some (h', r) ∧ Allocates h h' cs size r := by
  unfold CBinMalloc.mallocFromBins
  dsimp only
  generalize hv : (if inSmallbinRange size then invalidHandle
    else h.searchBin size 99 (h.bin (binIndex size)).hNextChunk) = v
  by_cases hv0 : v ≠ invalidHandle
  · rw [if_pos hv0]
    have hfound := H.ownBin hv hv0
    exact ⟨_, _, rfl, H.takeFrom hfound.1 hsize hmod hfound.2 hmin⟩
  · rw [if_neg hv0]
    obtain ⟨hj, hn⟩ := searchNextBin_spec h (binIndex size)
    by_cases hbins : nBins ≤ h.searchNextBin (binIndex size)
    · rw [if_pos hbins]
      exact ⟨_, _, rfl, H.topAlloc hsize hmod⟩
    · rw [if_neg hbins]
      obtain ⟨y, hy, hmem, hle⟩ := H.tailFit hj (hn.resolve_left hbins)
      rw [hy]
      exact ⟨_, _, rfl, H.takeFrom hmem hsize hmod hle hmin⟩

theorem interMalloc (H : HeapInv h bins cs) (hmin : 24 ≤ h.getMinChunkSize) (req : Nat) :
    ∃ h' r, h.interMalloc req = some (h', r) ∧ Allocates h h' cs (request2size req) r := by
  unfold CBinMalloc.interMalloc
  by_cases hreq : requestOutOfRange req = true
  · rw [if_pos hreq]
    exact ⟨h, _, rfl, SameHead.refl h, .inl ⟨rfl, bins, H⟩⟩
  rw [if_neg hreq]
  obtain ⟨hsize, hmod, -, -⟩ := request2size_spec req
  generalize request2size req = size at hsize hmod
  dsimp only
  by_cases hsmall : inSmallbinRange size = true
  · rw [if_pos hsmall]
    rcases H.smallBinMalloc (of_decide_eq_true hsmall) hmod with ⟨h0, hs, H1⟩ | ⟨h0, ha⟩
    · rw [if_neg (fun hne => hne h0)]
      obtain ⟨h', r, h1, h2⟩ := H1.mallocFromBins (by rw [hs.getMinChunkSize]; exact hmin) hsize hmod
      exact ⟨h', r, h1, h2.of_same hs⟩
    · rw [if_pos h0, ha.ptr2Handle]
      exact ⟨_, _, rfl, ha⟩
  · rw [if_neg hsmall, if_neg (fun hne => hne rfl)]
    exact H.mallocFromBins hmin hsize hmod

end HeapInv

end Dtc
