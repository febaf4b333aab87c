import DtcServer.BinMallocAlloc
/-!
# BinMallocReAlloc — `InterReAlloc`

A block is resized in place, over the top, over the free chunk behind it, over the one in front of it, or by a new block, a
copy and a free.
-/
namespace Dtc

open Memory CBinMalloc

namespace Holed

variable {h : CBinMalloc} {bins : Nat → List Nat} {front back : List Chunk} {a b size : Nat} {p q : Bool}

theorem freeRemain (H : Holed h bins front a p b q back) (hsize : 24 ≤ size) (hmod : size % 8 = 0)
    (hle : a + size + 24 ≤ b) (n : Nat) :
    ∃ h' bins' back', CBinMalloc.freeRemain (n + 1) h (a + size) (b - a - size) = some h' ∧
      Holed h' bins' front a p (a + size) true back' ∧ usedOf (a + size) back' = usedOf b back ∧ SameHead h h' ∧
      ∀ x, a ≤ x → x < a + size + 4 → h'.mem x = h.mem x := by
  have hbmod := H.align
  have hamod := H.start_mod
  have hbt := H.le_hTop
  have hroom := H.room
  have hbound := H.bound
  have hbfield : h.tChunkField b = headSize back + q.toNat := H.field
  have hlt : h.tChunkField b < 2 ^ 32 := readNat_lt ..
  have hq := toNat_le q
  have hhm := headSize_mod H.segBack
  have hset : ∀ k, k ≤ 1 → setPrevInuse (headSize back + k) = headSize back + 1 := by
    intro k hk
    unfold setPrevInuse
    omega
  have hrem : ¬ maxAllocSize < b - a - size := by
    unfold maxAllocSize
    have := H.hTop_mod
    omega
  have hsz : allocSize (b - a - size) = b - a - size := by
    unfold allocSize
    omega
  have hreal : realSize (b - a - size) = b - a - size := realSize_eq (by omega)
  have hb : a + size + (b - a - size) = b := by omega
  have e1 : ((h.putChunkField (a + size) (b - a - size + 1)).putPreSize b (b - a - size)).tChunkField b =
      headSize back + q.toNat := by
    rw [tChunkField_putPreSize (.inr (Nat.le_refl b)), tChunkField_putChunkField_of_ne (.inr (by omega)), hbfield]
  have e2 : ((((h.putChunkField (a + size) (b - a - size + 1)).putPreSize b (b - a - size)).putChunkField b
      (headSize back + 1))).tChunkField b = headSize back + 1 := tChunkField_putChunkField (by omega)
  rw [CBinMalloc.freeRemain, if_neg hrem]
  simp only [hsz, hreal, hb, setInuseBitAtOffset, e1, hset _ hq, e2, hset 1 (Nat.le_refl 1)]
  generalize hh' : (((h.putChunkField (a + size) (b - a - size + 1)).putPreSize b (b - a - size)).putChunkField b
    (headSize back + 1)).putChunkField b (headSize back + 1) = h'
  have hm' : ∀ x, x < a + size + 4 ∨ b + 8 ≤ x → h'.mem x = h.mem x := by
    intro x hx
    rw [← hh', mem_putChunkField (by omega), mem_putChunkField (by omega), mem_putPreSize (by omega),
      mem_putChunkField (by omega)]
  have hhead' : SameHead h h' := by
    rw [← hh']
    exact ⟨rfl, rfl, rfl, rfl, rfl, rfl, rfl⟩
  have H1 : Holed h' bins front a p b true back := by
    refine H.write hhead' (by rw [← hh']; rfl) (by rw [← hh']; rfl) (fun x hx => hm' x (by omega)) ?_
      (fun hq => by cases hq)
    rw [← hh']
    exact tChunkField_putChunkField (by omega)
  have hfs : h'.tChunkField (a + size) = b - (a + size) + 1 := by
    rw [← hh', tChunkField_putChunkField_of_ne (.inl (by omega)), tChunkField_putChunkField_of_ne (.inl (by omega)),
      tChunkField_putPreSize (.inl (by omega)), tChunkField_putChunkField (by omega)]
    omega
  have hptr : h'.ptr2Handle (chunk2mem (a + size)) = a + size + 8 := by
    refine if_pos ?_
    rw [hhead'.tSize]
    unfold chunk2mem
    omega
  obtain ⟨h₂, bins₂, back₂, f1, H2, f2, f3, f4⟩ := H1.interFree_end (s := a + size) (by omega) hle (by omega) hfs
  rw [hptr, f1, Nat.sub_self, if_neg (Nat.lt_irrefl 0)]
  exact ⟨h₂, bins₂, back₂, rfl, H2, f2, hhead'.trans f3, fun x h1 h2 => (f4 x h1 h2).trans (hm' x (by omega))⟩

theorem reAllocFinish (H : Holed h bins front a p b q back) (hsize : 24 ≤ size) (hmod : size % 8 = 0) (hle : a + size ≤ b)
    (hmin : 24 ≤ h.getMinChunkSize) {preSize : Nat} (hpre : h.tPreSize a = preSize) :
    ∃ h' bins' chunk back', h.reAllocFinish a (b - a) size p preSize = some (h', a + 8) ∧
      Holed h' bins' front a p a p (⟨chunk, some (readBytes h'.mem (a + 8) (chunk - 4))⟩ :: back') ∧ size ≤ chunk ∧
      usedOf (a + chunk) back' = usedOf b back ∧ SameHead h h' ∧
      ∀ x, a + 8 ≤ x → x < a + size → h'.mem x = h.mem x := by
  have hbmod := H.align
  have hamod := H.start_mod
  have hbt := H.le_hTop
  have hroom := H.room
  have hbound := H.bound
  -- the head is written last; the size of the chunk in front is what it was
  have hhead : ∀ (h₁ : CBinMalloc) (bins₁ : Nat → List Nat) (back₁ : List Chunk) (t : Nat), a + size ≤ t →
      Holed h₁ bins₁ front a p t true back₁ → SameHead h h₁ → (∀ x, a ≤ x → x < a + size → h₁.mem x = h.mem x) →
      ∃ h', (((h₁.putChunkField a (if p then setPrevInuse (realSize (t - a)) else realSize (t - a))).putPreSize a preSize),
          ((h₁.putChunkField a (if p then setPrevInuse (realSize (t - a)) else realSize (t - a))).putPreSize a
            preSize).ptr2Handle (chunk2mem a)) = (h', a + 8) ∧
        Holed h' bins₁ front a p a p (⟨t - a, some (readBytes h'.mem (a + 8) (t - a - 4))⟩ :: back₁) ∧ SameHead h h' ∧
        ∀ x, a + 8 ≤ x → x < a + size → h'.mem x = h.mem x := by
    intro h₁ bins₁ back₁ t ht H1 hs hm
    have htmod := H1.align
    have htt := H1.le_hTop
    have hr1 := H1.room
    have hb1 := H1.bound
    have hval : (if p then setPrevInuse (realSize (t - a)) else realSize (t - a)) = t - a + p.toNat := by
      rw [realSize_eq (by omega)]
      cases p with
      | true =>
        rw [if_pos rfl, setPrevInuse, Bool.toNat_true]
        omega
      | false => rfl
    have hpt := toNat_le p
    rw [hval]
    have hpre₁ : (h₁.putChunkField a (t - a + p.toNat)).tPreSize a = preSize := by
      rw [tPreSize_putChunkField (.inl (Nat.le_refl a)), ← hpre]
      exact readNat_congr (fun x h1 h2 => hm x h1 (by omega))
    have hmem : ∀ x, ((h₁.putChunkField a (t - a + p.toNat)).putPreSize a preSize).mem x =
        (h₁.putChunkField a (t - a + p.toNat)).mem x := by
      intro x
      rw [← hpre₁]
      exact writeNat_readNat _ a 4 x
    have H2 : Holed ((h₁.putChunkField a (t - a + p.toNat)).putPreSize a preSize) bins₁ front a p t true back₁ := by
      refine H1.write ⟨rfl, rfl, rfl, rfl, rfl, rfl, rfl⟩ rfl rfl (fun x hx => ?_) ?_ (fun hq => by cases hq)
      · rw [hmem, mem_putChunkField (by omega)]
      · refine (readNat_congr (fun x _ _ => hmem x)).trans ?_
        exact (tChunkField_putChunkField_of_ne (.inr (by omega))).trans H1.field
    have hfa : ((h₁.putChunkField a (t - a + p.toNat)).putPreSize a preSize).tChunkField a = t - a + p.toNat := by
      refine (readNat_congr (fun x _ _ => hmem x)).trans ?_
      exact tChunkField_putChunkField (by omega)
    refine ⟨_, ?_, H2.use (by omega) hfa, hs.trans ⟨rfl, rfl, rfl, rfl, rfl, rfl, rfl⟩, fun x h1 h2 => ?_⟩
    · congr 1
      refine if_pos ?_
      change a + 8 < h₁.tSize
      omega
    · rw [hmem, mem_putChunkField (by omega), hm x (by omega) h2]
  unfold CBinMalloc.reAllocFinish
  dsimp only
  by_cases hsplit : h.getMinChunkSize ≤ b - a - size
  · rw [if_pos hsplit]
    obtain ⟨h₁, bins₁, back₁, f1, H1, f2, f3, f4⟩ := H.freeRemain hsize hmod (by omega) h.tSize
    obtain ⟨h', g1, H2, g2, g3⟩ := hhead h₁ bins₁ back₁ (a + size) (Nat.le_refl _) H1 f3
      (fun x h1 h2 => f4 x h1 (by omega))
    rw [show a + size - a = size by omega] at g1 H2
    refine ⟨h', bins₁, size, back₁, ?_, H2, Nat.le_refl size, f2, g2, g3⟩
    rw [f1, Option.map_some, g1]
  · rw [if_neg hsplit]
    have hreal : realSize (b - a) = b - a := realSize_eq (by omega)
    have hb : a + (b - a) = b := by omega
    have hbfield : h.tChunkField b = headSize back + q.toNat := H.field
    have hlt : h.tChunkField b < 2 ^ 32 := readNat_lt ..
    have hqt := toNat_le q
    have hhm := headSize_mod H.segBack
    have hset : setPrevInuse (h.tChunkField b) = headSize back + 1 := by
      rw [hbfield]
      unfold setPrevInuse
      omega
    have H1 : Holed (h.putChunkField b (headSize back + 1)) bins front a p b true back := by
      refine H.write ⟨rfl, rfl, rfl, rfl, rfl, rfl, rfl⟩ rfl rfl (fun x hx => mem_putChunkField (by omega)) ?_
        (fun hq => by cases hq)
      exact tChunkField_putChunkField (by omega)
    obtain ⟨h', g1, H2, g2, g3⟩ := hhead _ bins back b hle H1 ⟨rfl, rfl, rfl, rfl, rfl, rfl, rfl⟩
      (fun x h1 h2 => mem_putChunkField (by omega))
    refine ⟨h', bins, b - a, back, ?_, H2, by omega, by rw [hb], g2, g3⟩
    rw [hreal, hb, hset]
    rw [hreal] at g1
    rw [g1]

end Holed

def Reallocates (h h' : CBinMalloc) (cs : List Chunk) (B : Block) (req r : Nat) : Prop :=
  SameHead h h' ∧ ∃ bins' cs', HeapInv h' bins' cs' ∧ ((r = invalidHandle ∧ usedOf h'.hBottom cs' = usedOf h.hBottom cs) ∨
    ∃ N : Block, r = N.addr + 8 ∧ request2size req ≤ N.size ∧
      (B :: usedOf h'.hBottom cs').Perm (N :: usedOf h.hBottom cs) ∧
      N.content.take (min (B.size - 4) req) = B.content.take (min (B.size - 4) req))

namespace Holed

variable {h h' : CBinMalloc} {bins bins' : Nat → List Nat} {cs front back : List Chunk} {a b chunk req : Nat} {p q : Bool}
  {B : Block}

theorem reallocates (hhead : SameHead h h')
    (H : Holed h' bins' front a p a p (⟨chunk, some (readBytes h'.mem (a + 8) (chunk - 4))⟩ :: back))
    (hperm : (usedOf h.hBottom cs).Perm (B :: (usedOf h.hBottom front ++ usedOf (a + chunk) back)))
    (hsize : request2size req ≤ chunk) (hB : B.content = readBytes h.mem (B.addr + 8) (B.size - 4))
    (hcopy : ∀ i, i < B.size - 4 → i < req → h'.mem (a + 8 + i) = h.mem (B.addr + 8 + i)) :
    Reallocates h h' cs B req (a + 8) := by
  obtain ⟨-, -, hreq, -⟩ := request2size_spec req
  refine ⟨hhead, bins', _, H.join, .inr ⟨⟨a, chunk, readBytes h'.mem (a + 8) (chunk - 4)⟩, rfl, hsize, ?_, ?_⟩⟩
  · rw [usedOf_append H.segFront, usedOf, hhead.hBottom]
    refine (List.Perm.cons B List.perm_middle).trans ?_
    exact (List.Perm.swap _ _ _).trans (List.Perm.cons _ hperm.symm)
  · rw [hB, take_readBytes _ _ _ _ (by omega), take_readBytes _ _ _ _ (by omega)]
    exact readBytes_eq_of_agree (fun i hi => hcopy i (by omega) (by omega))

theorem reAllocFinish_block {h₁ : CBinMalloc} (H : Holed h₁ bins front a p b q back) (req : Nat)
    (hhead : SameHead h h₁) (hmin : 24 ≤ h.getMinChunkSize)
    (hperm : (usedOf h.hBottom cs).Perm (B :: (usedOf h.hBottom front ++ usedOf b back)))
    (hle : a + request2size req ≤ b) (hB : B.content = readBytes h.mem (B.addr + 8) (B.size - 4)) {preSize : Nat}
    (hpre : h₁.tPreSize a = preSize)
    (hcopy : ∀ i, i < B.size - 4 → i < req → h₁.mem (a + 8 + i) = h.mem (B.addr + 8 + i)) :
    ∃ h', h₁.reAllocFinish a (b - a) (request2size req) p preSize = some (h', a + 8) ∧
      Reallocates h h' cs B req (a + 8) := by
  obtain ⟨hsize, hmod, hreq, -⟩ := request2size_spec req
  have hmin₁ : 24 ≤ h₁.getMinChunkSize := by
    rw [hhead.getMinChunkSize]
    exact hmin
  obtain ⟨h', bins', chunk, back', e, H', hchunk, hused, hhead', hm⟩ := H.reAllocFinish hsize hmod hle hmin₁ hpre
  refine ⟨h', e, H'.reallocates (hhead.trans hhead') ?_ hchunk hB (fun i h1 h2 => ?_)⟩
  · rw [hused]
    exact hperm
  · rw [hm _ (by omega) (by omega)]
    exact hcopy i h1 h2

theorem reAllocTop (H : Holed h bins front B.addr p (B.addr + B.size) true []) (hB24 : 24 ≤ B.size)
    (hfield : h.tChunkField B.addr = B.size + p.toNat) (hmod : B.size % 8 = 0)
    (hperm : (usedOf h.hBottom cs).Perm (B :: (usedOf h.hBottom front ++ usedOf (B.addr + B.size) [])))
    (hB : B.content = readBytes h.mem (B.addr + 8) (B.size - 4)) (hlt : B.size < request2size req)
    (hroom : h.hTop + (request2size req - B.size) + minSize < h.tSize) :
    ∃ h', (let h₁ := h.putChunkField B.addr (realSize (request2size req) + sizeBits (h.tChunkField B.addr))
        let next := h₁.hTop + (request2size req - B.size)
        let h₁ := h₁.putPreSize next (realSize (request2size req))
        let h₁ := h₁.putChunkField next 1
        let h₁ := h₁.moveTop (h₁.hTop + (request2size req - B.size))
        some (h₁, h₁.ptr2Handle (chunk2mem B.addr), B.size)) = some (h', B.addr + 8, B.size) ∧
      Reallocates h h' cs B req (B.addr + 8) := by
  obtain ⟨hsize, hmods, hreq, -⟩ := request2size_spec req
  generalize hs : request2size req = size at hsize hmods hreq hlt hroom ⊢
  have htop : B.addr + B.size = h.hTop := H.segBack.1
  have hbound := H.bound
  have hroom' : h.hTop + (size - B.size) + 24 < h.tSize := hroom
  have hpt := toNat_le p
  have hbits : realSize size + sizeBits (h.tChunkField B.addr) = size + p.toNat := by
    rw [hfield, realSize_eq hmods, sizeBits]
    omega
  have hnew : h.hTop + (size - B.size) = B.addr + size := by omega
  have hamod := H.start_mod
  have ht : (h.putChunkField B.addr (size + p.toNat)).hTop = h.hTop := rfl
  have ht' : (((h.putChunkField B.addr (size + p.toNat)).putPreSize (B.addr + size) size).putChunkField (B.addr + size)
      1).hTop = h.hTop := rfl
  dsimp only
  rw [hbits, realSize_eq hmods, ht, hnew, ht', hnew]
  generalize hh' : (((h.putChunkField B.addr (size + p.toNat)).putPreSize (B.addr + size) size).putChunkField
    (B.addr + size) 1).moveTop (B.addr + size) = h'
  have hhead : SameHead h h' := by
    rw [← hh']
    exact ⟨rfl, rfl, rfl, rfl, rfl, rfl, rfl⟩
  have hm : ∀ x, x < B.addr + 4 ∨ B.addr + 8 ≤ x ∧ x < B.addr + size → h'.mem x = h.mem x := by
    intro x hx
    rw [← hh']
    refine (mem_putChunkField (by omega)).trans ?_
    rw [mem_putPreSize (by omega), mem_putChunkField (by omega)]
  have hfa : h'.tChunkField B.addr = B.addr + size - B.addr + p.toNat := by
    rw [← hh']
    refine (tChunkField_putChunkField_of_ne (.inl (by omega))).trans ?_
    rw [tChunkField_putPreSize (.inl (by omega)), tChunkField_putChunkField (by omega)]
    omega
  have H2 : Holed h' bins front B.addr p (B.addr + size) true [] := by
    refine H.setTop (by omega) (by omega) (by omega) (fun x hx => hm x (.inl hx)) ?_ (by rw [← hh']; rfl) hhead
      (by rw [← hh']; rfl)
    rw [← hh']
    exact tChunkField_putChunkField (by decide)
  have H3 := H2.use (by omega) hfa
  rw [show B.addr + size - B.addr = size by omega] at H3
  refine ⟨h', ?_, H3.reallocates hhead hperm (by omega) hB (fun i h1 h2 => hm _ (.inr (by omega)))⟩
  have hptr : h'.ptr2Handle (chunk2mem B.addr) = B.addr + 8 := by
    refine if_pos ?_
    rw [hhead.tSize]
    unfold chunk2mem
    omega
  rw [hptr]

theorem reAllocNext {c : Chunk} (H : Holed h bins front B.addr p (B.addr + B.size) true (c :: back))
    (hc : c.content = none) (hmin : 24 ≤ h.getMinChunkSize)
    (hperm : (usedOf h.hBottom cs).Perm (B :: (usedOf h.hBottom front ++ usedOf (B.addr + B.size) (c :: back))))
    (hB : B.content = readBytes h.mem (B.addr + 8) (B.size - 4)) (hle : request2size req ≤ B.size + c.size) :
    ∃ h', (h.unlinkBin (binIndex c.size) (B.addr + B.size)).reAllocFinish B.addr (B.size + c.size) (request2size req) p
        (h.tPreSize B.addr) = some (h', B.addr + 8) ∧ Reallocates h h' cs B req (B.addr + 8) := by
  have h24 := H.segBack.1.min
  obtain ⟨H₁, u1, -, u3⟩ := H.unlinkNext hc
  rw [usedOf, hc] at hperm
  have hsize : B.addr + B.size + c.size - B.addr = B.size + c.size := by omega
  have hpre : (h.unlinkBin (binIndex c.size) (B.addr + B.size)).tPreSize B.addr = h.tPreSize B.addr :=
    readNat_congr (fun x h1 h2 => u3 x h1 (by omega))
  obtain ⟨h', e, hr⟩ := H₁.reAllocFinish_block req u1 hmin hperm (by omega) hB hpre
    (fun i h1 h2 => u3 _ (by omega) (by omega))
  rw [hsize] at e
  exact ⟨h', e, hr⟩

theorem reAllocPre {c : Chunk} (H : Holed h bins (front ++ [c]) B.addr p (B.addr + B.size) true back)
    (hc : c.content = none) (hmin : 24 ≤ h.getMinChunkSize) (hB24 : 24 ≤ B.size)
    (hperm : (usedOf h.hBottom cs).Perm (B :: (usedOf h.hBottom (front ++ [c]) ++ usedOf (B.addr + B.size) back)))
    (hB : B.content = readBytes h.mem (B.addr + 8) (B.size - 4)) (hle : request2size req ≤ B.size + c.size) :
    ∃ s h', B.addr = s + c.size ∧
      (let h₁ := h.unlinkBin (binIndex c.size) s
        let h₁ := { h₁ with mem := writeBytes h₁.mem (chunk2mem s) (readBytes h₁.mem (chunk2mem B.addr) (B.size - 4)) }
        h₁.reAllocFinish s (B.size + c.size) (request2size req) (h.prevInuse s) (h.tPreSize s)) = some (h', s + 8) ∧
      Reallocates h h' cs B req (s + 8) := by
  obtain ⟨s, ha, H₁, hcell, -, u1, u2, u3⟩ := H.unlinkPre hc
  have h24 := hcell.min
  have hprev : h.prevInuse s = true := by
    have hf : h.tChunkField s = c.size + 1 := hcell.field
    have := hcell.align
    unfold prevInuse
    rw [hf, beq_iff_eq]
    omega
  have hfree : usedOf h.hBottom (front ++ [c]) = usedOf h.hBottom front := by
    obtain ⟨x, r, hfront, -⟩ := seg_append.mp H.segFront
    rw [usedOf_append hfront, usedOf, hc, usedOf, List.append_nil]
  rw [hfree] at hperm
  have hsize : B.addr + B.size - s = B.size + c.size := by omega
  refine ⟨s, ?_⟩
  dsimp only
  rw [hprev]
  have hread : readBytes (h.unlinkBin (binIndex c.size) s).mem (chunk2mem B.addr) (B.size - 4) =
      readBytes h.mem (chunk2mem B.addr) (B.size - 4) :=
    readBytes_congr (fun x h1 h2 => u3 x (by unfold chunk2mem at h1; omega) (by unfold chunk2mem at h2; omega))
  rw [hread]
  generalize hh₂ : { h.unlinkBin (binIndex c.size) s with
    mem := writeBytes (h.unlinkBin (binIndex c.size) s).mem (chunk2mem s)
      (readBytes h.mem (chunk2mem B.addr) (B.size - 4)) } = h₂
  have hmem : h₂.mem = writeBytes (h.unlinkBin (binIndex c.size) s).mem (chunk2mem s)
      (readBytes h.mem (chunk2mem B.addr) (B.size - 4)) := by rw [← hh₂]
  have hm : ∀ x, x < s + 8 ∨ s + B.size + 4 ≤ x → h₂.mem x = (h.unlinkBin (binIndex c.size) s).mem x := by
    intro x hx
    rw [hmem]
    refine writeBytes_outside ?_
    rw [length_readBytes]
    unfold chunk2mem
    omega
  have hhead : SameHead (h.unlinkBin (binIndex c.size) s) h₂ := by
    rw [← hh₂]
    exact ⟨rfl, rfl, rfl, rfl, rfl, rfl, rfl⟩
  have H₂ : Holed h₂ (binsWithout bins (binIndex c.size) s) front s true (B.addr + B.size) true back := by
    refine H₁.write hhead (by rw [← hh₂]) (by rw [← hh₂]) (fun x hx => hm x (by omega)) ?_ (fun hq => by cases hq)
    exact (readNat_congr (fun x h1 h2 => hm x (by omega))).trans H₁.field
  have hpre : h₂.tPreSize s = h.tPreSize s :=
    readNat_congr (fun x h1 h2 => (hm x (by omega)).trans (u3 x h1 (by omega)))
  have hcopy : ∀ i, i < B.size - 4 → i < req → h₂.mem (s + 8 + i) = h.mem (B.addr + 8 + i) := by
    intro i h1 _
    refine eq_of_readBytes_eq (n := B.size - 4) ?_ h1
    have hw := readBytes_writeBytes (h.unlinkBin (binIndex c.size) s).mem
      (readBytes h.mem (chunk2mem B.addr) (B.size - 4)) (chunk2mem s)
    rw [length_readBytes, ← hmem] at hw
    exact hw
  obtain ⟨h', e, hr⟩ := H₂.reAllocFinish_block req (u1.trans hhead) hmin hperm (by omega) hB hpre hcopy
  rw [hsize] at e
  exact ⟨h', ha, e, hr⟩

end Holed

namespace HeapInv

variable {h : CBinMalloc} {bins : Nat → List Nat} {cs : List Chunk} {B : Block} {req : Nat}

theorem reAllocCopy (H : HeapInv h bins cs) (hB : B ∈ usedOf h.hBottom cs) (hmin : 24 ≤ h.getMinChunkSize)
    (hlt : B.size < request2size req) :
    ∃ h' r, (h.interMalloc req).map (fun r =>
        let h := r.1
        if r.2 = invalidHandle then (h, invalidHandle, B.size)
        else
          let h := { h with mem := writeBytes h.mem r.2 (readBytes h.mem (chunk2mem B.addr) (B.size - 4)) }
          ((h.interFree (B.addr + 8)).1, r.2, B.size)) = some (h', r, B.size) ∧ Reallocates h h' cs B req r := by
  obtain ⟨h₁, r, e, ha⟩ := H.interMalloc hmin req
  have hhead := ha.1
  rw [e, Option.map_some]
  obtain ⟨bins₁, cs₁, H₁, ⟨rfl, rfl⟩ | ⟨N, rfl, hN, hperm₁⟩⟩ := ha.blocks
  · refine ⟨h₁, invalidHandle, rfl, hhead, bins₁, cs₁, H₁, .inl ⟨rfl, ?_⟩⟩
    rw [hhead.hBottom]
  · rw [if_neg (Nat.succ_ne_zero _)]
    dsimp only
    have hB₁ : B ∈ usedOf h₁.hBottom cs₁ := hperm₁.mem_iff.mpr (List.mem_cons_of_mem _ hB)
    have hN₁ : N ∈ usedOf h₁.hBottom cs₁ := hperm₁.mem_iff.mpr List.mem_cons_self
    obtain ⟨-, -, -, hread⟩ := usedOf_bounds H₁.segBack hB₁
    obtain ⟨-, -, hB24, -⟩ := usedOf_bounds H₁.segBack hB₁
    rw [chunk2mem, hread]
    generalize hh₂ : { h₁ with mem := writeBytes h₁.mem (N.addr + 8) B.content } = h₂
    have hlen : B.content.length = B.size - 4 := by rw [← hread, length_readBytes]
    have hhead₂ : SameHead h₁ h₂ := by
      rw [← hh₂]
      exact ⟨rfl, rfl, rfl, rfl, rfl, rfl, rfl⟩
    have hmem₂ : h₂.mem = writeBytes h₁.mem (N.addr + 8) B.content := by rw [← hh₂]
    obtain ⟨cs₂, N', H₂, haddr, hsize, hcontent, hperm₂⟩ := H₁.writeUsed hN₁ hhead₂ (by rw [← hh₂]) (by rw [← hh₂])
      (fun x hx => by rw [hmem₂]; exact writeBytes_outside (by omega))
    have hperm : (usedOf h₂.hBottom cs₂).Perm (N' :: usedOf h.hBottom cs) := by
      have h3 := hperm₂.trans ((List.Perm.cons N' hperm₁).trans (List.Perm.swap _ _ _))
      exact h3.cons_inv
    have hB₂ : B ∈ usedOf h₂.hBottom cs₂ := hperm.mem_iff.mpr (List.mem_cons_of_mem _ hB)
    obtain ⟨h₃, bins₃, cs₃, f1, H₃, f2, f3⟩ := H₂.interFree hB₂
    rw [f1]
    refine ⟨h₃, N.addr + 8, rfl, (hhead.trans hhead₂).trans f3, bins₃, cs₃, H₃, .inr ⟨N', ?_, ?_, f2.symm.trans hperm, ?_⟩⟩
    · rw [haddr]
    · rw [hsize]
      exact hN
    · have hw := readBytes_writeBytes h₁.mem B.content (N.addr + 8)
      rw [hlen, ← hmem₂] at hw
      rw [hcontent, take_readBytes _ _ _ _ (by omega), ← hw, take_readBytes _ _ _ _ (by omega)]

theorem interReAlloc (H : HeapInv h bins cs) (hB : B ∈ usedOf h.hBottom cs) (hmin : 24 ≤ h.getMinChunkSize)
    (hreq : req ≠ 0) : ∃ h' r old, h.interReAlloc (B.addr + 8) req = some (h', r, old) ∧
      Reallocates h h' cs B req r ∧ (r ≠ invalidHandle → old = B.size) := by
  have hfail : Reallocates h h cs B req invalidHandle := ⟨SameHead.refl h, bins, cs, H, .inl ⟨rfl, rfl⟩⟩
  obtain ⟨hbot, hend, hB24, hread⟩ := usedOf_bounds H.segBack hB
  obtain ⟨front, back, p, hperm, H₁⟩ := H.cutUsed hB
  have hfield : h.tChunkField B.addr = B.size + p.toNat := H₁.segBack.1.field
  have hmod : B.size % 8 = 0 := H₁.segBack.1.align
  have hamod := H₁.start_mod
  have H₂ := H₁.openUsed rfl
  dsimp only at H₂
  have hsize : B.addr + B.size - B.addr = B.size := Nat.add_sub_cancel_left _ _
  have hfield' : h.tChunkField B.addr = B.addr + B.size - B.addr + p.toNat := by rw [hsize, hfield]
  have hcf := H₂.chunkField_start (by omega) hamod hfield'
  have hcheck := H₂.checkInuse (Nat.le_refl _) (by omega) hamod hfield' H₂.front_inUse
  have hmem : mem2chunk (B.addr + 8) = B.addr := Nat.add_sub_cancel _ 8
  have hprev : h.prevInuse B.addr = p := H₁.prevInuse_behind
  have hroom := H.room
  have hbound := H.bound
  rw [hsize] at hcf
  unfold CBinMalloc.interReAlloc
  rw [if_neg (Nat.succ_ne_zero _), if_neg hreq]
  by_cases hrange : requestOutOfRange req = true
  · rw [if_pos hrange]
    exact ⟨h, _, _, rfl, hfail, fun hne => absurd rfl hne⟩
  rw [if_neg hrange, if_neg (by omega)]
  simp only [hmem, hcf, hcheck, hprev]
  rw [if_neg (by omega), if_neg (by omega), if_neg (Nat.not_lt_of_le hB24), if_neg (by decide)]
  by_cases hfit : request2size req ≤ B.size
  · -- the block is large enough
    rw [if_pos hfit]
    obtain ⟨h', e, hr⟩ := H₂.reAllocFinish_block req (SameHead.refl h) hmin hperm (by omega) hread.symm rfl
      (fun _ _ _ => rfl)
    rw [hsize] at e
    rw [e, Option.map_some]
    exact ⟨h', _, _, rfl, hr, fun _ => rfl⟩
  rw [if_neg hfit]
  have hlt : B.size < request2size req := Nat.lt_of_not_le hfit
  have hcopy := H.reAllocCopy hB hmin hlt
  by_cases htop : (h.atTop B.addr B.size && decide (h.hTop + (request2size req - B.size) + minSize < h.tSize)) = true
  · rw [if_pos htop]
    rw [Bool.and_eq_true, decide_eq_true_eq, atTop, beq_iff_eq] at htop
    obtain rfl : back = [] := H₂.nil_iff.mp htop.1
    obtain ⟨h', e, hr⟩ := H₂.reAllocTop hB24 hfield hmod hperm hread.symm hlt htop.2
    exact ⟨h', _, _, e, hr, fun _ => rfl⟩
  rw [if_neg htop]
  by_cases hnext : (!h.atTop B.addr B.size && !h.inuseBitAtOffset (B.addr + B.size) (h.chunkField (B.addr + B.size)) &&
      decide (request2size req ≤ B.size + h.chunkField (B.addr + B.size))) = true
  · rw [if_pos hnext]
    rw [Bool.and_eq_true, Bool.and_eq_true, decide_eq_true_eq, Bool.not_eq_true', Bool.not_eq_true', atTop,
      beq_eq_false_iff_ne] at hnext
    obtain ⟨⟨hnt, hfree⟩, hle⟩ := hnext
    cases back with
    | nil => exact absurd (H₂.nil_iff.mpr rfl) hnt
    | cons c cs' =>
      have hc : h.chunkField (B.addr + B.size) = c.size := H₂.chunkField_behind
      rw [hc] at hfree hle ⊢
      have hu : c.inUse = false := H₂.toHoleShape.skip.prevInuse_behind.symm.trans hfree
      rw [Chunk.inUse, Option.isSome_eq_false_iff, Option.isNone_iff_eq_none] at hu
      have hptr : h.ptr2Handle (B.addr + B.size) = B.addr + B.size := if_pos (by omega)
      obtain ⟨h', e, hr⟩ := H₂.reAllocNext hu hmin hperm hread.symm hle
      rw [hptr, e, Option.map_some]
      exact ⟨h', _, _, rfl, hr, fun _ => rfl⟩
  rw [if_neg hnext]
  by_cases hpre : (!p && decide (request2size req ≤ allocSize (B.size + h.tPreSize B.addr))) = true
  · rw [if_pos hpre]
    rw [Bool.and_eq_true, decide_eq_true_eq, Bool.not_eq_true'] at hpre
    obtain ⟨rfl, hle⟩ := hpre
    obtain ⟨front', c, rfl, hc⟩ := H₂.front_free
    obtain ⟨x, r, hfront, hcell, hx, -⟩ := seg_append.mp H₂.segFront
    have hps : h.tPreSize B.addr = c.size := by
      rw [← hx]
      exact (hcell.free hc).2
    have hle' := hfront.le
    have hsum : allocSize (B.size + c.size) = B.size + c.size := by
      unfold allocSize
      omega
    rw [hps, hsum] at hle
    obtain ⟨s, h', hs, e, hr⟩ := H₂.reAllocPre hc hmin hB24 hperm hread.symm hle
    have hsub : B.addr - c.size = s := by omega
    rw [hps, hsub, e, Option.map_some]
    exact ⟨h', _, _, rfl, hr, fun _ => rfl⟩
  · rw [if_neg hpre]
    obtain ⟨h', r, e, hr⟩ := hcopy
    exact ⟨h', r, _, e, hr, fun _ => rfl⟩

end HeapInv

end Dtc
