import DtcServer.BinMallocHeap
/-!
# BinMallocFree — `InterFree`

The freed chunk is a hole of the heap.  It grows over the free chunk in front of it and the one behind it, and then it is
a free chunk again, or it goes back to the top; in both cases the blocks in use are those there were.
-/
namespace Dtc

open Memory CBinMalloc

namespace CBinMalloc

variable {h : CBinMalloc} {x y z v : Nat}

theorem tChunkField_putChunkField (hv : v < 2 ^ 32) : (h.putChunkField x v).tChunkField x = v :=
  readNat_writeNat (Nat.lt_of_lt_of_eq hv (by decide))

theorem tChunkField_putChunkField_of_ne (hy : y + 4 ≤ x ∨ x + 4 ≤ y) :
    (h.putChunkField x v).tChunkField y = h.tChunkField y :=
  readNat_writeNat_of_disjoint (by omega)

theorem tChunkField_putPreSize (hy : y + 8 ≤ x ∨ x ≤ y) : (h.putPreSize x v).tChunkField y = h.tChunkField y :=
  readNat_writeNat_of_disjoint (by omega)

theorem tPreSize_putPreSize (hv : v < 2 ^ 32) : (h.putPreSize x v).tPreSize x = v :=
  readNat_writeNat (Nat.lt_of_lt_of_eq hv (by decide))

theorem tPreSize_putChunkField (hy : y ≤ x ∨ x + 8 ≤ y) : (h.putChunkField x v).tPreSize y = h.tPreSize y :=
  readNat_writeNat_of_disjoint (by omega)

theorem mem_putChunkField (hz : z < x + 4 ∨ x + 8 ≤ z) : (h.putChunkField x v).mem z = h.mem z :=
  writeNat_outside (by omega)

theorem mem_putPreSize (hz : z < x ∨ x + 4 ≤ z) : (h.putPreSize x v).mem z = h.mem z :=
  writeNat_outside hz

theorem unlinkClear_same (h : CBinMalloc) (i y : Nat) :
    (h.unlinkClear i y).mem = (h.unlinkBin i y).mem ∧ (h.unlinkClear i y).bin = (h.unlinkBin i y).bin ∧
      SameHead (h.unlinkBin i y) (h.unlinkClear i y) ∧ (h.unlinkClear i y).hTop = (h.unlinkBin i y).hTop := by
  unfold unlinkClear
  dsimp only
  split
  · exact ⟨rfl, rfl, ⟨rfl, rfl, rfl, rfl, rfl, rfl, rfl⟩, rfl⟩
  · exact ⟨rfl, rfl, SameHead.refl _, rfl⟩

end CBinMalloc

theorem realSize_add {n k : Nat} (hn : n % 8 = 0) (hk : k < 8) : realSize (n + k) = n := by
  unfold realSize
  omega

theorem realSize_eq {n : Nat} (hn : n % 8 = 0) : realSize n = n := realSize_add (k := 0) hn (by decide)

theorem toNat_le (p : Bool) : p.toNat ≤ 1 := by cases p <;> decide

theorem headSize_mod {m : Mem} {b t : Nat} {q r : Bool} : ∀ {back : List Chunk}, Seg m b q back t r → headSize back % 8 = 0
  | [], _ => rfl
  | _ :: _, h => h.1.align

def HeadUsed (back : List Chunk) : Prop := back = [] ∨ ∃ c cs, back = c :: cs ∧ c.inUse = true

namespace HoleShape

variable {h : CBinMalloc} {front back : List Chunk} {a b : Nat} {p q : Bool} {c : Chunk}

theorem hTop_mod (S : HoleShape h front a p b q back) : h.hTop % 8 = 0 := by
  have hm := S.segBack.mod
  have hb := S.align
  omega

theorem chunkField_behind (S : HoleShape h front a p b q back) : h.chunkField b = headSize back := by
  unfold chunkField tChunkField
  rw [S.field]
  have := toNat_le q
  exact realSize_add (headSize_mod S.segBack) (by omega)

theorem prevInuse_behind (S : HoleShape h front a p b q back) : h.prevInuse b = q := by
  unfold prevInuse tChunkField
  rw [S.field]
  have hm := headSize_mod S.segBack
  cases q with
  | true =>
    rw [beq_iff_eq, Bool.toNat_true]
    omega
  | false =>
    rw [beq_eq_false_iff_ne, Bool.toNat_false]
    omega

theorem headUsed (S : HoleShape h front a p b false back) : ∃ c cs, back = c :: cs ∧ c.inUse = true := by
  have hs := S.segBack
  cases back with
  | nil => cases hs.2
  | cons c cs =>
    refine ⟨c, cs, rfl, ?_⟩
    cases hc : c.content with
    | none => cases (hs.1.free hc).1
    | some bytes =>
      rw [Chunk.inUse, hc]
      rfl

theorem nil_iff (S : HoleShape h front a p b q back) : b = h.hTop ↔ back = [] := by
  have hs := S.segBack
  cases back with
  | nil => exact ⟨fun _ => rfl, fun _ => hs.1⟩
  | cons c cs =>
    have hmin := hs.1.min
    have hle := hs.2.le
    exact ⟨fun he => by omega, fun he => by cases he⟩

theorem skip (S : HoleShape h front a p b q (c :: back)) : HoleShape h front a p (b + c.size) c.inUse back := by
  have := S.le
  have := S.segBack.1.align
  have := S.align
  exact ⟨S.segFront, S.segBack.2, S.top, by omega, S.bottom, S.bottomAlign, by omega, S.room, S.bound⟩

end HoleShape

namespace Holed

variable {h h' : CBinMalloc} {bins : Nat → List Nat} {front back : List Chunk} {a b s : Nat} {p q : Bool} {c : Chunk}

theorem congr (H : Holed h bins front a p b q back) (hmem : h'.mem = h.mem) (hbin : h'.bin = h.bin)
    (hhead : SameHead h h') (htop : h'.hTop = h.hTop) : Holed h' bins front a p b q back := by
  refine H.write hhead htop hbin (fun x _ => by rw [hmem]) (by rw [hmem]; exact H.field) (fun hq => ?_)
  subst hq
  exact H.headUsed

theorem freeTags (H : Holed h bins front a p b q back) (hsb : s + 24 ≤ b) (hs : s % 8 = 0)
    (hbits : h.tChunkField s % 8 = 1)
    (hh' : h' = h.setFreeTags s (b - s)) :
    h'.tChunkField s = b - s + 1 ∧ h'.tPreSize b = b - s ∧ h'.tChunkField b = headSize back + 1 ∧
      (∀ x, x < s + 4 ∨ s + 8 ≤ x ∧ x < b ∨ b + 8 ≤ x → h'.mem x = h.mem x) ∧ SameHead h h' ∧ h'.hTop = h.hTop ∧
      h'.bin = h.bin := by
  have hbmod := H.align
  have hbt := H.le_hTop
  have hroom := H.room
  have hbound := H.bound
  have hn : s + (b - s) = b := by omega
  have hreal : realSize (b - s) = b - s := realSize_eq (by omega)
  have hfield : h.tChunkField b = headSize back + q.toNat := H.field
  have hq := toNat_le q
  have hmod := headSize_mod H.segBack
  have hlt : h.tChunkField b < 2 ^ 32 := readNat_lt ..
  have hset : setPrevInuse (h.tChunkField b) = headSize back + 1 := by
    unfold setPrevInuse
    omega
  subst hh'
  simp only [setFreeTags, setSizeAtOffset, setPresizeAtOffset, setInuseBitAtOffset, Nat.add_zero, hn, hreal, sizeBits, hbits]
  have hb1 : ((h.putChunkField s (b - s + 1)).putPreSize b (b - s)).tChunkField b = h.tChunkField b := by
    rw [tChunkField_putPreSize (.inr (Nat.le_refl b)), tChunkField_putChunkField_of_ne (.inr (by omega))]
  rw [hb1, hset]
  refine ⟨?_, ?_, ?_, fun x hx => ?_, ⟨rfl, rfl, rfl, rfl, rfl, rfl, rfl⟩, rfl, rfl⟩
  · rw [tChunkField_putChunkField_of_ne (.inl (by omega)), tChunkField_putPreSize (.inl (by omega)),
      tChunkField_putChunkField (by omega)]
  · rw [tPreSize_putChunkField (.inl (Nat.le_refl b)), tPreSize_putPreSize (by omega)]
  · exact tChunkField_putChunkField (by omega)
  · rw [mem_putChunkField (by omega), mem_putPreSize (by omega), mem_putChunkField (by omega)]

theorem freePlace (H : Holed h bins front a p b q back) (has : a ≤ s) (hsb : s + 24 ≤ b) (hs : s % 8 = 0)
    (hbits : h.tChunkField s % 8 = 1) (hu : HeadUsed back) :
    ∃ bins' back', Holed (h.freePlace s (b - s)) bins' front a p s true back' ∧ usedOf s back' = usedOf b back ∧
      SameHead h (h.freePlace s (b - s)) ∧ (∀ x, a ≤ x → x < s + 4 → (h.freePlace s (b - s)).mem x = h.mem x) ∧
      (bins' = if b = h.hTop then bins else binsWith bins (binIndex (b - s)) s) ∧
      (h.freePlace s (b - s)).hTop = (if b = h.hTop then s else h.hTop) ∧
      (b ≠ h.hTop → back' = ⟨b - s, none⟩ :: back) := by
  have hbt := H.le_hTop
  have hroom := H.room
  have hbound := H.bound
  have hn : s + (b - s) = b := by omega
  have hmod := headSize_mod H.segBack
  generalize hh' : h.setFreeTags s (b - s) = h'
  obtain ⟨t1, t2, t3, t4, t5, t6, t7⟩ := H.freeTags hsb hs hbits hh'.symm
  have hlt : h'.tChunkField b < 2 ^ 32 := readNat_lt ..
  have hat : (h'.noteFreeSize (b - s)).atTop s (b - s) = (b == h.hTop) := by
    rw [← t6, atTop, hn]
    rfl
  have hdef : h.freePlace s (b - s) = if (h'.noteFreeSize (b - s)).atTop s (b - s) then
        (((h'.noteFreeSize (b - s)).moveTop ((h'.noteFreeSize (b - s)).hTop - (b - s))).putChunkField s 1).noteFreeSize
          (h'.tSize - ((h'.noteFreeSize (b - s)).hTop - (b - s)) - minSize)
      else
        (((h'.noteFreeSize (b - s)).clearInuseBitAtOffset s (b - s)).linkBin (binIndex (b - s))
          (((h'.noteFreeSize (b - s)).clearInuseBitAtOffset s (b - s)).ptr2Handle s)).setBinBitMap (binIndex (b - s)) := by
    rw [← hh']
    rfl
  by_cases htop : b = h.hTop
  · -- the chunk was the last one
    have hnil : back = [] := H.nil_iff.mp htop
    subst hnil
    rw [hat, htop, beq_self_eq_true, if_pos rfl, ← htop] at hdef
    have hsub : (h'.noteFreeSize (b - s)).hTop - (b - s) = s := by
      change h'.hTop - (b - s) = s
      rw [t6]
      omega
    rw [hsub] at hdef
    have Hw : Holed (h'.putChunkField s 1) bins front a p b true [] := by
      refine H.write (t5.trans ⟨rfl, rfl, rfl, rfl, rfl, rfl, rfl⟩) t6 t7 (fun x hx => ?_) ?_ (fun hq => by cases hq)
      · rw [mem_putChunkField (by omega), t4 x (by omega)]
      · change (h'.putChunkField s 1).tChunkField b = _
        rw [tChunkField_putChunkField_of_ne (.inr (by omega)), t3]
        rfl
    have hfield : readNat (h'.putChunkField s 1).mem (s + 4) 4 = 1 := tChunkField_putChunkField (by decide)
    have hlow : s < h'.tSize := by
      rw [t5.tSize]
      omega
    rw [hdef]
    refine ⟨bins, [], ?_, rfl, ?_, fun x h1 h2 => ?_, (if_pos htop).symm, (if_pos htop).symm, fun hne => absurd htop hne⟩
    · exact Hw.setTop has hs hlow (fun _ _ => rfl) hfield rfl ⟨rfl, rfl, rfl, rfl, rfl, rfl, rfl⟩ rfl
    · exact t5.trans ⟨rfl, rfl, rfl, rfl, rfl, rfl, rfl⟩
    · change (h'.putChunkField s 1).mem x = _
      rw [mem_putChunkField (by omega), t4 x (by omega)]
  · have hne : back ≠ [] := fun he => htop (H.nil_iff.mpr he)
    rw [hat, beq_false_of_ne htop, if_neg Bool.false_ne_true] at hdef
    generalize hc : (h'.noteFreeSize (b - s)).clearInuseBitAtOffset s (b - s) = h'' at hdef
    have hmem'' : h''.mem = (h'.putChunkField b (headSize back)).mem := by
      have hclear : clearPrevInuse (h'.tChunkField b) = headSize back := by
        rw [t3]
        unfold clearPrevInuse
        omega
      rw [← hc, ← hclear]
      unfold clearInuseBitAtOffset
      rw [hn]
      rfl
    have hhead'' : SameHead h h'' := by
      rw [← hc]
      exact t5.trans ⟨rfl, rfl, rfl, rfl, rfl, rfl, rfl⟩
    have hptr : h''.ptr2Handle s = s := by
      refine if_pos ?_
      rw [hhead''.tSize]
      omega
    rw [hptr] at hdef
    have Hw : Holed h'' bins front a p b false back := by
      refine H.write hhead'' (by rw [← hc]; exact t6) (by rw [← hc]; exact t7) (fun x hx => ?_) ?_ (fun _ => ?_)
      · rw [hmem'', mem_putChunkField (by omega), t4 x (by omega)]
      · rw [hmem'']
        refine (tChunkField_putChunkField ?_).trans (by rw [Bool.toNat_false, Nat.add_zero])
        omega
      · exact hu.resolve_left hne
    have hfield : readNat h''.mem (s + 4) 4 = b - s + 1 := by
      rw [hmem'']
      change (h'.putChunkField b _).tChunkField s = _
      rw [tChunkField_putChunkField_of_ne (.inl (by omega)), t1]
    have hpre : readNat h''.mem b 4 = b - s := by
      rw [hmem'']
      change (h'.putChunkField b _).tPreSize b = _
      rw [tPreSize_putChunkField (.inl (Nat.le_refl b)), t2]
    obtain ⟨Hl, l1, l2, l3⟩ := Hw.link has hsb hs hfield hpre
    have htop'' : (h''.linkBin (binIndex (b - s)) s).hTop = h.hTop := by
      rw [l2, ← hc]
      exact t6
    rw [hdef]
    refine ⟨_, ⟨b - s, none⟩ :: back, ?_, ?_, ?_, fun x h1 h2 => ?_, (if_neg htop).symm, htop''.trans (if_neg htop).symm,
      fun _ => rfl⟩
    · exact Hl.congr rfl rfl ⟨rfl, rfl, rfl, rfl, rfl, rfl, rfl⟩ rfl
    · rw [usedOf]
      dsimp only
      rw [hn]
    · exact (hhead''.trans l1).trans ⟨rfl, rfl, rfl, rfl, rfl, rfl, rfl⟩
    · change (h''.linkBin (binIndex (b - s)) s).mem x = _
      rw [l3 x h1 (by omega), hmem'', mem_putChunkField (by omega), t4 x (by omega)]

theorem joinTags (H : Holed h bins front a p b q back) (has : a ≤ s) (hsb : s + 24 ≤ b) (hs : s % 8 = 0)
    (hbits : h.tChunkField s % 8 = 1)
    (hh' : h' = (h.setSizeAtOffset s 0 (b - s)).setPresizeAtOffset s (b - s) (b - s)) :
    Holed h' bins front a p b q back ∧ SameHead h h' ∧ h'.hTop = h.hTop ∧ h'.tChunkField s = b - s + 1 ∧
      ∀ x, a ≤ x → x < s + 4 → h'.mem x = h.mem x := by
  have hbmod := H.align
  have hbt := H.le_hTop
  have hroom := H.room
  have hbound := H.bound
  have hn : s + (b - s) = b := by omega
  have hreal : realSize (b - s) = b - s := realSize_eq (by omega)
  subst hh'
  simp only [setSizeAtOffset, setPresizeAtOffset, Nat.add_zero, hn, hreal, sizeBits, hbits]
  refine ⟨H.write ⟨rfl, rfl, rfl, rfl, rfl, rfl, rfl⟩ rfl rfl (fun x hx => ?_) ?_ (fun hq => (hq ▸ H).headUsed),
    ⟨rfl, rfl, rfl, rfl, rfl, rfl, rfl⟩, rfl, ?_, fun x h1 h2 => ?_⟩
  · rw [mem_putPreSize (by omega), mem_putChunkField (by omega)]
  · change ((h.putChunkField s _).putPreSize b _).tChunkField b = _
    rw [tChunkField_putPreSize (.inr (Nat.le_refl b)), tChunkField_putChunkField_of_ne (.inr (by omega))]
    exact H.field
  · rw [tChunkField_putPreSize (.inl (by omega)), tChunkField_putChunkField (by omega)]
  · rw [mem_putPreSize (by omega), mem_putChunkField (by omega)]

theorem freeCombineNext (H : Holed h bins front a p b true back) (has : a ≤ s) (hsb : s + 24 ≤ b) (hs : s % 8 = 0)
    (hbits : h.tChunkField s % 8 = 1) :
    ∃ h' bins' b' q' back', h.freeCombineNext s (b - s) = (h', b' - s) ∧ b ≤ b' ∧ Holed h' bins' front a p b' q' back' ∧
      HeadUsed back' ∧ usedOf b' back' = usedOf b back ∧ SameHead h h' ∧ h'.tChunkField s % 8 = 1 ∧
      (∀ x, a ≤ x → x < s + 4 → h'.mem x = h.mem x) ∧ h'.hTop = h.hTop ∧
      (HeadUsed back ∧ bins' = bins ∧ back' = back ∧ b' = b ∨
        ∃ c, back = c :: back' ∧ c.content = none ∧ bins' = binsWithout bins (binIndex c.size) b ∧ b' = b + c.size) := by
  have hbmod := H.align
  have hbt := H.le_hTop
  have hroom := H.room
  have hbound := H.bound
  have hbot := H.hBottom_le
  have hn : s + (b - s) = b := by omega
  have hat : h.atTop s (b - s) = (b == h.hTop) := by rw [atTop, hn]
  unfold CBinMalloc.freeCombineNext
  rw [hat, hn]
  cases back with
  | nil =>
    rw [H.nil_iff.mpr rfl, beq_self_eq_true, if_pos rfl, ← H.nil_iff.mpr rfl]
    exact ⟨h, bins, b, true, [], rfl, Nat.le_refl b, H, .inl rfl, rfl, SameHead.refl h, hbits, fun _ _ _ => rfl,
      (H.nil_iff.mpr rfl).symm, .inl ⟨.inl rfl, rfl, rfl, rfl⟩⟩
  | cons c cs =>
    have htop : ¬ b = h.hTop := fun he => List.cons_ne_nil c cs (H.nil_iff.mp he)
    have hsize : h.chunkField b = c.size := H.chunkField_behind
    have hin : h.inuseBitAtOffset b c.size = c.inUse := H.toHoleShape.skip.prevInuse_behind
    rw [beq_false_of_ne htop, if_neg Bool.false_ne_true]
    simp only [hsize, hin]
    cases hc : c.content with
    | some bytes =>
      have hu : c.inUse = true := by
        rw [Chunk.inUse, hc]
        rfl
      rw [hu, Bool.not_true, Bool.false_and, if_neg Bool.false_ne_true]
      exact ⟨h, bins, b, true, c :: cs, rfl, Nat.le_refl b, H, .inr ⟨c, cs, rfl, hu⟩, rfl, SameHead.refl h, hbits,
        fun _ _ _ => rfl, rfl, .inl ⟨.inr ⟨c, cs, rfl, hu⟩, rfl, rfl, rfl⟩⟩
    | none =>
      have hu : c.inUse = false := by
        rw [Chunk.inUse, hc]
        rfl
      have hmin := H.segBack.1.min
      have hle := H.segBack.2.le
      have htmod := H.hTop_mod
      have hcomb : canCombile (b - s) c.size = true := by
        unfold canCombile maxAllocSize
        rw [decide_eq_true_eq]
        omega
      rw [hu, hcomb, Bool.not_false, Bool.true_and, if_pos rfl]
      have hptr : h.ptr2Handle b = b := if_pos (by omega)
      have hsum : allocSize (b - s + c.size) = b + c.size - s := by
        unfold allocSize
        omega
      rw [hptr, hsum]
      obtain ⟨H1, u1, u2, u3⟩ := H.unlinkNext hc
      obtain ⟨v1, v2, v3, v4⟩ := unlinkClear_same h (binIndex c.size) b
      have H2 : Holed (h.unlinkClear (binIndex c.size) b) (binsWithout bins (binIndex c.size) b) front a p (b + c.size) false
          cs := H1.congr v1 v2 v3 v4
      have hbits2 : (h.unlinkClear (binIndex c.size) b).tChunkField s % 8 = 1 := by
        have he : (h.unlinkClear (binIndex c.size) b).tChunkField s = h.tChunkField s :=
          readNat_congr (fun x h1 h2 => by rw [v1]; exact u3 x (by omega) (by omega))
        rw [he, hbits]
      obtain ⟨H3, w1, w2, w3, w4⟩ := H2.joinTags (s := s) has (by omega) hs hbits2 rfl
      refine ⟨_, _, b + c.size, false, cs, rfl, by omega, H3, .inr H3.headUsed, ?_, (u1.trans v3).trans w1, ?_,
        fun x h1 h2 => ?_, w2.trans (v4.trans u2), .inr ⟨c, rfl, hc, rfl, rfl⟩⟩
      · rw [usedOf, hc]
      · rw [w3]
        have := H.segBack.1.align
        omega
      · rw [w4 x h1 h2, v1]
        exact u3 x h1 (by omega)

theorem front_free (H : Holed h bins front a false b q back) : ∃ front' c, front = front' ++ [c] ∧ c.content = none := by
  have hseg := H.segFront
  rcases List.eq_nil_or_concat' front with rfl | ⟨front', c, rfl⟩
  · cases hseg.2
  · refine ⟨front', c, rfl, ?_⟩
    obtain ⟨x, r, -, hcell, -, hu⟩ := seg_append.mp hseg
    rwa [Chunk.inUse, Option.isSome_eq_false_iff, Option.isNone_iff_eq_none] at hu

theorem front_inUse (H : Holed h bins front a p b q back) :
    p = true ∨ ∃ front' c, a = a ∧ front = front' ++ [c] ∧ c.content = none := by
  cases p with
  | true => exact .inl rfl
  | false =>
    obtain ⟨front', c, hfront, hc⟩ := H.front_free
    exact .inr ⟨front', c, rfl, hfront, hc⟩

theorem freeCombinePre (H : Holed h bins front a p b q back) (hab : a + 24 ≤ b)
    (hfield : h.tChunkField a = b - a + p.toNat) :
    ∃ h' bins' front' s, h.freeCombinePre a (b - a) = (h', s, b - s) ∧ s ≤ a ∧ Holed h' bins' front' s true b q back ∧
      usedOf h.hBottom front' = usedOf h.hBottom front ∧ SameHead h h' ∧ h'.tChunkField s % 8 = 1 ∧ h'.hTop = h.hTop ∧
      (p = true ∧ bins' = bins ∧ front' = front ∧ s = a ∨
        ∃ c, p = false ∧ front = front' ++ [c] ∧ c.content = none ∧ bins' = binsWithout bins (binIndex c.size) s ∧
          a = s + c.size) := by
  have hbmod := H.align
  have hamod := H.start_mod
  have hbt := H.le_hTop
  have hroom := H.room
  have hbound := H.bound
  have hprev : h.prevInuse a = p := by
    unfold prevInuse
    rw [hfield]
    cases p with
    | true =>
      rw [beq_iff_eq, Bool.toNat_true]
      omega
    | false =>
      rw [beq_eq_false_iff_ne, Bool.toNat_false]
      omega
  unfold CBinMalloc.freeCombinePre
  rw [hprev]
  cases p with
  | true =>
    rw [Bool.not_true, Bool.false_and, if_neg Bool.false_ne_true]
    rw [Bool.toNat_true] at hfield
    exact ⟨h, bins, front, a, rfl, Nat.le_refl a, H, rfl, SameHead.refl h, by omega, rfl, .inl ⟨rfl, rfl, rfl, rfl⟩⟩
  | false =>
    obtain ⟨front', c, rfl, hc⟩ := H.front_free
    have hfree := H.segFront
    obtain ⟨s, rfl, H1, hcell, -, u1, u2, u3⟩ := H.unlinkPre hc
    have hmin := hcell.min
    have hpre : h.tPreSize (s + c.size) = c.size := (hcell.free hc).2
    have hbot := H1.hBottom_le
    rw [u1.hBottom] at hbot
    have hpos := H.bottom
    have hcomb : canCombile (b - (s + c.size)) c.size = true := by
      unfold canCombile maxAllocSize
      rw [decide_eq_true_eq]
      have := H.hTop_mod
      have := H.bottomAlign
      omega
    rw [hpre, hcomb, Bool.not_false, Bool.true_and, if_pos rfl]
    have hs : s + c.size - c.size = s := Nat.add_sub_cancel _ _
    have hptr : h.ptr2Handle s = s := if_pos (by omega)
    have hsum : allocSize (b - (s + c.size) + c.size) = b - s := by
      unfold allocSize
      omega
    simp only [hs, hptr, hsum]
    obtain ⟨v1, v2, v3, v4⟩ := unlinkClear_same h (binIndex c.size) s
    have H2 : Holed (h.unlinkClear (binIndex c.size) s) (binsWithout bins (binIndex c.size) s) front' s true b q back :=
      H1.congr v1 v2 v3 v4
    have hbits2 : (h.unlinkClear (binIndex c.size) s).tChunkField s % 8 = 1 := by
      have he : (h.unlinkClear (binIndex c.size) s).tChunkField s = h.tChunkField s :=
        readNat_congr (fun x h1 h2 => by rw [v1]; exact u3 x (by omega) (by omega))
      have hf : h.tChunkField s = c.size + 1 := hcell.field
      have := hcell.align
      omega
    obtain ⟨H3, w1, w2, w3, w4⟩ := H2.joinTags (s := s) (Nat.le_refl s) (by omega) (by have := hcell.align; omega) hbits2 rfl
    refine ⟨_, _, front', s, rfl, by omega, H3, ?_, (u1.trans v3).trans w1, ?_, w2.trans (v4.trans u2),
      .inr ⟨c, trivial, rfl, hc, rfl, rfl⟩⟩
    · obtain ⟨x, r, hfront, -⟩ := seg_append.mp hfree
      rw [usedOf_append hfront, usedOf, hc, usedOf, List.append_nil]
    · rw [w3]
      have := hcell.align
      omega

theorem chunkField_start (H : Holed h bins front a p b true back) (hsb : s + 24 ≤ b) (hs : s % 8 = 0) {r : Bool}
    (hfield : h.tChunkField s = b - s + r.toNat) : h.chunkField s = b - s := by
  have hbmod := H.align
  have hr := toNat_le r
  unfold chunkField
  rw [hfield]
  exact realSize_add (by omega) (by omega)

theorem inuse_end (H : Holed h bins front a p b true back) (hsb : s + 24 ≤ b) : h.inuseBitAtOffset s (b - s) = true := by
  have hn : s + (b - s) = b := by omega
  unfold inuseBitAtOffset
  rw [hn]
  exact H.prevInuse_behind

theorem checkInuse (H : Holed h bins front a p b true back) (has : a ≤ s) (hsb : s + 24 ≤ b) (hs : s % 8 = 0)
    {r : Bool} (hfield : h.tChunkField s = b - s + r.toNat)
    (hr : r = true ∨ ∃ front' c, s = a ∧ front = front' ++ [c] ∧ c.content = none) : h.checkInuseChunk s = true := by
  have hbmod := H.align
  have hbt := H.le_hTop
  have hroom := H.room
  have hn : s + (b - s) = b := by omega
  have hbehind : (h.atTop b 0 || decide (minSize ≤ h.chunkField b)) = true := by
    rw [H.chunkField_behind]
    have hseg := H.segBack
    cases back with
    | nil =>
      rw [atTop, Nat.add_zero, hseg.1, beq_self_eq_true, Bool.true_or]
    | cons c cs =>
      rw [Bool.or_eq_true, decide_eq_true_eq]
      exact .inr hseg.1.min
  have hpre : (h.prevInuse s || (decide (h.hBottom ≤ h.ptr2Handle (s - h.tPreSize s)) &&
      h.chunkField (s - h.tPreSize s) == h.tPreSize s)) = true := by
    rcases hr with rfl | ⟨front', c, rfl, rfl, hc⟩
    · have hprev : h.prevInuse s = true := by
        unfold prevInuse
        rw [hfield, beq_iff_eq, Bool.toNat_true]
        omega
      rw [hprev, Bool.true_or]
    · obtain ⟨t, u, hfront, hcell, hend, -⟩ := seg_append.mp H.segFront
      have hle := hfront.le
      have hpos := H.bottom
      have hpre : h.tPreSize s = c.size := by
        rw [← hend]
        exact (hcell.free hc).2
      have hback : s - c.size = t := by omega
      have hptr : h.ptr2Handle t = t := if_pos (by omega)
      have hcf : h.chunkField t = c.size := by
        unfold chunkField tChunkField
        rw [hcell.field]
        have := toNat_le u
        exact realSize_add hcell.align (by omega)
      rw [hpre, hback, hptr, hcf, beq_self_eq_true, decide_eq_true hle, Bool.and_self, Bool.or_true]
  unfold checkInuseChunk
  rw [H.chunkField_start hsb hs hfield, H.inuse_end hsb, hn, hbehind, hpre]
  rfl

theorem interFree_eq (H : Holed h bins front a p b true back) (has : a ≤ s) (hsb : s + 24 ≤ b) (hs : s % 8 = 0)
    {r : Bool} (hfield : h.tChunkField s = b - s + r.toNat)
    (hr : r = true ∨ ∃ front' c, s = a ∧ front = front' ++ [c] ∧ c.content = none) :
    h.interFree (s + 8) =
      (let pre := h.freeCombinePre s (b - s)
      if !pre.1.atTop pre.2.1 pre.2.2 && decide (pre.1.chunkField (pre.2.1 + pre.2.2) < minSize) then (pre.1, -4, b - s)
      else
        let next := pre.1.freeCombineNext pre.2.1 pre.2.2
        (next.1.freePlace pre.2.1 next.2, 0, b - s)) := by
  have hbt := H.le_hTop
  have hroom := H.room
  have hn : s + (b - s) = b := by omega
  have hsize := H.chunkField_start hsb hs hfield
  have hin := H.inuse_end hsb
  have hcheck := H.checkInuse has hsb hs hfield hr
  unfold CBinMalloc.interFree
  have hmem : mem2chunk (s + 8) = s := Nat.add_sub_cancel s 8
  have hnull : ¬ s + 8 = invalidHandle := Nat.succ_ne_zero _
  rw [if_neg hnull, if_neg (by omega)]
  simp only [hmem, hsize, hn, hin, hcheck]
  rw [if_neg (by omega), if_neg (by decide), if_neg (by omega), if_neg (by decide)]

theorem behind_ok (H : Holed h bins front a p b q back) (hsb : s ≤ b) :
    (!h.atTop s (b - s) && decide (h.chunkField (s + (b - s)) < minSize)) = false := by
  have hn : s + (b - s) = b := by omega
  rw [atTop, hn, H.chunkField_behind]
  have hseg := H.segBack
  cases back with
  | nil => rw [hseg.1, beq_self_eq_true, Bool.not_true, Bool.false_and]
  | cons c cs =>
    rw [Bool.and_eq_false_iff, decide_eq_false_iff_not]
    exact .inr (Nat.not_lt_of_le hseg.1.min)

theorem interFree_end (H : Holed h bins front a p b true back) (has : a ≤ s) (hsb : s + 24 ≤ b) (hs : s % 8 = 0)
    (hfield : h.tChunkField s = b - s + 1) :
    ∃ h' bins' back', h.interFree (s + 8) = (h', 0, b - s) ∧ Holed h' bins' front a p s true back' ∧
      usedOf s back' = usedOf b back ∧ SameHead h h' ∧ ∀ x, a ≤ x → x < s + 4 → h'.mem x = h.mem x := by
  have hbmod := H.align
  have hbits : h.tChunkField s % 8 = 1 := by omega
  have hpre : h.freeCombinePre s (b - s) = (h, s, b - s) := by
    have hprev : h.prevInuse s = true := by
      unfold prevInuse
      rw [hfield, beq_iff_eq]
      omega
    unfold CBinMalloc.freeCombinePre
    rw [hprev, Bool.not_true, Bool.false_and, if_neg Bool.false_ne_true]
  obtain ⟨h₁, bins₁, b', q', back₁, n1, n2, H₁, n3, n4, n5, n6, n7, -⟩ := H.freeCombineNext has hsb hs hbits
  obtain ⟨bins₂, back₂, H₂, m1, m2, m3, -⟩ := H₁.freePlace has (by omega) hs n6 n3
  refine ⟨_, bins₂, back₂, ?_, H₂, m1.trans n4, n5.trans m2, fun x h1 h2 => (m3 x h1 h2).trans (n7 x h1 h2)⟩
  rw [H.interFree_eq has hsb hs (r := true) hfield (.inl rfl)]
  simp only [hpre]
  rw [H.behind_ok (by omega), if_neg Bool.false_ne_true, n1]

theorem interFree (H : Holed h bins front a p b true back) (hab : a + 24 ≤ b)
    (hfield : h.tChunkField a = b - a + p.toNat) :
    ∃ h' bins' cs, h.interFree (a + 8) = (h', 0, b - a) ∧ HeapInv h' bins' cs ∧
      usedOf h.hBottom cs = usedOf h.hBottom front ++ usedOf b back ∧ SameHead h h' := by
  have hamod := H.start_mod
  obtain ⟨h₁, bins₁, front', s, c1, c2, H₁, c3, c4, c5, -⟩ := H.freeCombinePre hab hfield
  have hsmod := H₁.start_mod
  obtain ⟨h₂, bins₂, b', q', back₂, n1, n2, H₂, n3, n4, n5, n6, -⟩ := H₁.freeCombineNext (Nat.le_refl s) (by omega) hsmod c5
  obtain ⟨bins₃, back₃, H₃, m1, m2, -⟩ := H₂.freePlace (Nat.le_refl s) (by omega) hsmod n6 n3
  have hhead : SameHead h (h₂.freePlace s (b' - s)) := (c4.trans n5).trans m2
  refine ⟨_, bins₃, front' ++ back₃, ?_, H₃.join, ?_, hhead⟩
  · rw [H.interFree_eq (Nat.le_refl a) hab hamod hfield H.front_inUse]
    simp only [c1]
    rw [H₁.behind_ok (by omega), if_neg Bool.false_ne_true, n1]
  · have hseg := H₃.segFront
    rw [hhead.hBottom] at hseg
    rw [usedOf_append hseg, m1, n4, c3]

end Holed

theorem HeapInv.interFree {h : CBinMalloc} {bins : Nat → List Nat} {cs : List Chunk} {B : Block} (H : HeapInv h bins cs)
    (hB : B ∈ usedOf h.hBottom cs) :
    ∃ h' bins' cs', h.interFree (B.addr + 8) = (h', 0, B.size) ∧ HeapInv h' bins' cs' ∧
      (usedOf h.hBottom cs).Perm (B :: usedOf h'.hBottom cs') ∧ SameHead h h' := by
  obtain ⟨front, back, p, hperm, hmin, hfield, H2⟩ := H.takeOut hB
  have hsize : B.addr + B.size - B.addr = B.size := Nat.add_sub_cancel_left _ _
  obtain ⟨h', bins', cs', e, H3, hused, hhead⟩ := H2.interFree (by omega) (by rw [hsize]; exact hfield)
  rw [hsize] at e
  refine ⟨h', bins', cs', e, H3, ?_, hhead⟩
  rw [hhead.hBottom, hused]
  exact hperm

end Dtc
