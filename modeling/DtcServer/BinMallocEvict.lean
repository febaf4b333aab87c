import DtcServer.BinMallocRoom
import DtcServer.CachePoolSpec
/-!
# BinMallocEvict — what `Free` makes room for

`AskForDestroySize` joins a chunk with the free ones beside it, and with the top, as `InterFree` does; what it answers is the
size of the joined chunk less four bytes. A request for that many bytes takes a chunk of eight bytes more, which the joined
chunk is not.
-/
namespace Dtc

open Memory CBinMalloc Rings

namespace CBinMalloc

variable (h : CBinMalloc)

def chunksize2memsize (size : Nat) : Nat := interSize (size - 4)

/-- `AskForDestroySize` joins the free chunk in front: the chunk and its size. -/
def joinPre (p size : Nat) : Nat × Nat :=
  if !h.prevInuse p && canCombile size (h.tPreSize p) then (p - h.tPreSize p, allocSize (size + h.tPreSize p)) else (p, size)

/-- `AskForDestroySize` joins the free chunk behind, if the chunk is not the last one. -/
def joinNext (p size : Nat) : Nat :=
  if h.atTop p size then size
  else
    let next := p + size
    if !h.inuseBitAtOffset next (h.chunkField next) && canCombile size (h.chunkField next) then
      allocSize (size + h.chunkField next)
    else size

/-- The chunk that a block is part of when it is freed, and its size. -/
def joined (handle : Nat) : Nat × Nat :=
  let pre := h.joinPre (mem2chunk handle) (h.chunkField (mem2chunk handle))
  (pre.1, h.joinNext pre.1 pre.2)

def askForDestroySize (handle : Nat) : Nat :=
  if handle = invalidHandle ∨ h.tSize ≤ handle then 0
  else
    let p := mem2chunk handle
    let size := h.chunkField p
    if h.tSize < p + size then 0
    else if !h.inuseBitAtOffset p size then 0
    else if p % 8 ≠ 0 then 0
    else if !h.checkInuseChunk p then 0
    else
      let pre := h.joinPre p size
      if !h.atTop pre.1 pre.2 && decide (h.chunkField (pre.1 + pre.2) < minSize) then 0
      else
        let size := h.joinNext pre.1 pre.2
        let size := if h.atTop pre.1 size then max size (allocSize (interSize (h.tSize - h.hTop - minSize + size))) else size
        allocSize (chunksize2memsize size)

/-- **The room after a `Free`**: the joined chunk is in front of its bin, or the top is where it began. -/
def freedRoom (handle : Nat) : Room :=
  let c := h.joined handle
  let kept (i : Nat) : List Nat := (h.binChunks i).filter (fun v => decide (v < c.1 ∨ c.1 + c.2 ≤ v))
  if h.atTop c.1 c.2 then { bins := kept, sizeOf := h.chunkField, hTop := c.1, tSize := h.tSize }
  else
    { bins := binsWith kept (binIndex c.2) c.1
      sizeOf := Function.update h.chunkField c.1 c.2
      hTop := h.hTop
      tSize := h.tSize }

end CBinMalloc

theorem CBinMalloc.free_room {h h' : CBinMalloc} {handle n : Nat} (e : h.interFree handle = (h', 0, n)) :
    (h.free handle).1.room = h'.room := by
  unfold CBinMalloc.free
  rw [e]
  rfl

theorem Room.fits_congr {r r' : Room} (hb : r'.bins = r.bins) (hs : ∀ i, ∀ v ∈ r.bins i, r'.sizeOf v = r.sizeOf v)
    (ht : r'.hTop = r.hTop) (hz : r'.tSize = r.tSize) (size : Nat) : r'.Fits size ↔ r.Fits size := by
  unfold Room.Fits
  rw [hb, ht, hz]
  refine or_congr_right (or_congr_left (exists_congr (fun v => and_congr_right (fun hv => ?_))))
  rw [hs _ v (List.mem_of_mem_take hv)]

theorem erase_filter {P : Nat → Bool} {y : Nat} (hy : P y = false) : ∀ l : List Nat, (l.erase y).filter P = l.filter P
  | [] => rfl
  | x :: l => by
    rw [List.erase_cons]
    split
    · next he =>
      obtain rfl := eq_of_beq he
      rw [List.filter_cons, hy, if_neg Bool.false_ne_true]
    · rw [List.filter_cons, List.filter_cons, erase_filter hy l]

theorem binsWithout_filter {P : Nat → Bool} {y : Nat} (hy : P y = false) (bins : Nat → List Nat) (i j : Nat) :
    (binsWithout bins j y i).filter P = (bins i).filter P := by
  unfold binsWithout
  by_cases hij : i = j
  · rw [hij, Function.update_self, erase_filter hy]
  · rw [Function.update_of_ne hij]

theorem freeOf_field {m : Mem} {b : Nat} {q : Bool} : ∀ {cs : List Chunk} {a : Nat} {p : Bool} {v size : Nat},
    Seg m a p cs b q → (v, size) ∈ freeOf a cs → realSize (readNat m (v + 4) 4) = size
  | [], _, _, _, _, _, hd => absurd hd List.not_mem_nil
  | c :: cs, a, p, v, size, h, hd => by
    rw [freeOf] at hd
    split at hd
    · exact freeOf_field h.2 hd
    · rcases List.mem_cons.mp hd with he | hd
      · obtain ⟨rfl, rfl⟩ := Prod.mk.inj he
        rw [h.1.field]
        have hp := toNat_le p
        exact realSize_add h.1.align (by omega)
      · exact freeOf_field h.2 hd

namespace Holed

variable {h h' : CBinMalloc} {bins : Nat → List Nat} {front back : List Chunk} {a b s : Nat} {p q : Bool} {c : Chunk}

theorem chunkField_freeOf (H : Holed h bins front a p b q back) {v size : Nat}
    (hd : (v, size) ∈ freeOf h.hBottom front ++ freeOf b back) : h.chunkField v = size := by
  unfold CBinMalloc.chunkField CBinMalloc.tChunkField
  rcases List.mem_append.mp hd with hd | hd
  · exact freeOf_field H.segFront hd
  · exact freeOf_field H.segBack hd

theorem joinPre_eq (H : Holed h bins front a p b q back) (hab : a + 24 ≤ b) (hfield : h.tChunkField a = b - a + p.toNat) :
    (p = true → h.joinPre a (b - a) = (a, b - a)) ∧
      ∀ front' s, p = false → front = front' ++ [c] → c.content = none → a = s + c.size →
        h.joinPre a (b - a) = (s, b - s) := by
  have hbt := H.le_hTop
  have hroom := H.room
  have hbound := H.bound
  have hpos := H.bottom
  have hbmod := H.align
  have hamod := H.start_mod
  have hprev : h.prevInuse a = p := by
    unfold prevInuse
    rw [hfield]
    cases p with
    | true =>
      rw [beq_iff_eq, Bool.toNat_true]
      omega
    | false =>
      rw [beq_eq_false_iff_ne, Bool.toNat_false]
      omega
  unfold CBinMalloc.joinPre
  rw [hprev]
  refine ⟨fun hp => ?_, fun front' s hp hfront hc ha => ?_⟩
  · rw [hp, Bool.not_true, Bool.false_and, if_neg Bool.false_ne_true]
  · subst hp hfront
    obtain ⟨x, r, hx, hcell, hend, -⟩ := seg_append.mp H.segFront
    have hle := hx.le
    obtain rfl : x = s := by omega
    have hpre : h.tPreSize a = c.size := by
      rw [ha]
      exact (hcell.free hc).2
    have htmod := H.hTop_mod
    have hbotmod := H.bottomAlign
    have hcomb : canCombile (b - a) c.size = true := by
      unfold canCombile maxAllocSize
      rw [decide_eq_true_eq]
      omega
    rw [hpre, hcomb, Bool.not_false, Bool.true_and, if_pos rfl, Prod.mk.injEq]
    unfold allocSize
    exact ⟨by omega, by omega⟩

theorem joinNext_eq (H : Holed h bins front a p b q back) (has : h.hBottom ≤ s) (hsb : s + 24 ≤ b) (hs : s % 8 = 0) :
    (HeadUsed back → h.joinNext s (b - s) = b - s) ∧
      ∀ back', back = c :: back' → c.content = none → h.joinNext s (b - s) = b + c.size - s := by
  have hbt := H.le_hTop
  have hroom := H.room
  have hbound := H.bound
  have hpos := H.bottom
  have hn : s + (b - s) = b := by omega
  have hat : h.atTop s (b - s) = (b == h.hTop) := by rw [atTop, hn]
  have hbehind : ∀ d ds, back = d :: ds → (b == h.hTop) = false ∧ h.chunkField b = d.size ∧
      h.inuseBitAtOffset b d.size = d.inUse := by
    rintro d ds rfl
    exact ⟨beq_false_of_ne (fun he => List.cons_ne_nil d ds (H.nil_iff.mp he)), H.chunkField_behind,
      H.toHoleShape.skip.prevInuse_behind⟩
  unfold CBinMalloc.joinNext
  rw [hat, hn]
  refine ⟨?_, ?_⟩
  · rintro (hnil | ⟨d, ds, hd, hu⟩)
    · rw [H.nil_iff.mpr hnil, beq_self_eq_true, if_pos rfl]
    · obtain ⟨h1, h2, h3⟩ := hbehind d ds hd
      rw [h1, if_neg Bool.false_ne_true]
      dsimp only
      rw [h2, h3, hu, Bool.not_true, Bool.false_and, if_neg Bool.false_ne_true]
  · rintro back' rfl hc
    obtain ⟨h1, h2, h3⟩ := hbehind c back' rfl
    have hu : c.inUse = false := by
      rw [Chunk.inUse, hc]
      rfl
    have hle := H.segBack.2.le
    have htmod := H.hTop_mod
    have hbmod := H.align
    have hcomb : canCombile (b - s) c.size = true := by
      unfold canCombile maxAllocSize
      rw [decide_eq_true_eq]
      omega
    rw [h1, if_neg Bool.false_ne_true]
    dsimp only
    rw [h2, h3, hu, hcomb, Bool.not_false, Bool.true_and, if_pos rfl]
    unfold allocSize
    omega

theorem interFree_joins (H : Holed h bins front a p b true back) (hab : a + 24 ≤ b)
    (hfield : h.tChunkField a = b - a + p.toNat) :
    ∃ h₂ bins₂ front' s b' q' back₂, h.interFree (a + 8) = (h₂.freePlace s (b' - s), 0, b - a) ∧
      Holed h₂ bins₂ front' s true b' q' back₂ ∧ s ≤ a ∧ b ≤ b' ∧ s % 8 = 0 ∧ h₂.tChunkField s % 8 = 1 ∧ HeadUsed back₂ ∧
      SameHead h h₂ ∧ h₂.hTop = h.hTop ∧ h.joinPre a (b - a) = (s, b - s) ∧ h.joinNext s (b - s) = b' - s ∧
      (∀ i, bins₂ i = (bins i).filter (fun v => decide (v < s ∨ b' ≤ v))) ∧
      ∀ d ∈ freeOf h.hBottom front' ++ freeOf b' back₂, d ∈ freeOf h.hBottom front ++ freeOf b back := by
  have hamod := H.start_mod
  obtain ⟨jp1, jp2⟩ := H.joinPre_eq (c := ⟨0, none⟩) hab hfield
  obtain ⟨h₁, bins₁, front', s, c1, c2, H₁, c3, c4, c5, c6, c7⟩ := H.freeCombinePre hab hfield
  have hsmod := H₁.start_mod
  have hbot : h.hBottom ≤ s := by
    rw [← c4.hBottom]
    exact H₁.hBottom_le
  obtain ⟨h₂, bins₂, b', q', back₂, n1, n2, H₂, n3, n4, n5, n6, n7, n8, n9⟩ :=
    H₁.freeCombineNext (Nat.le_refl s) (by omega) hsmod c5
  have hpre : h.joinPre a (b - a) = (s, b - s) := by
    rcases c7 with ⟨hp, -, -, rfl⟩ | ⟨c, hp, hfront, hc, -, ha⟩
    · exact (H.joinPre_eq (c := ⟨0, none⟩) hab hfield).1 hp
    · exact (H.joinPre_eq hab hfield).2 front' s hp hfront hc ha
  have hnext : h.joinNext s (b - s) = b' - s := by
    rcases n9 with ⟨hu, -, -, rfl⟩ | ⟨c, hback, hc, -, rfl⟩
    · exact (H.joinNext_eq (c := ⟨0, none⟩) hbot (by omega) hsmod).1 hu
    · exact (H.joinNext_eq hbot (by omega) hsmod).2 back₂ hback hc
  have hfreeFront : ∀ d ∈ freeOf h.hBottom front', d ∈ freeOf h.hBottom front := by
    intro d hd
    rcases c7 with ⟨-, -, rfl, -⟩ | ⟨c, -, rfl, -⟩
    · exact hd
    · obtain ⟨x, r, hx, -⟩ := seg_append.mp H.segFront
      rw [freeOf_append hx]
      exact List.mem_append_left _ hd
  have hfreeBack : ∀ d ∈ freeOf b' back₂, d ∈ freeOf b back := by
    intro d hd
    rcases n9 with ⟨-, -, rfl, rfl⟩ | ⟨c, rfl, hc, -, rfl⟩
    · exact hd
    · rw [freeOf_cons_free hc]
      exact List.mem_cons_of_mem _ hd
  refine ⟨h₂, bins₂, front', s, b', q', back₂, ?_, H₂, c2, n2, hsmod, n6, n3, c4.trans n5, n8.trans c6, hpre, hnext,
    fun i => ?_, fun d hd => ?_⟩
  · rw [H.interFree_eq (Nat.le_refl a) hab hamod hfield H.front_inUse]
    simp only [c1]
    rw [H₁.behind_ok (by omega), if_neg Bool.false_ne_true, n1]
  · -- what is left in the bins is outside of the joined chunk
    have hout : (bins₂ i).filter (fun v => decide (v < s ∨ b' ≤ v)) = bins₂ i := by
      rw [List.filter_eq_self]
      intro v hv
      obtain ⟨size, hd, -⟩ := (H₂.bins.mem i v).mp hv
      have hside := H₂.free_side hd
      rw [decide_eq_true_eq]
      dsimp only at hside
      omega
    have hin : ∀ y, s ≤ y → y < b' → (fun v => decide (v < s ∨ b' ≤ v)) y = false := by
      intro y h1 h2
      rw [decide_eq_false_iff_not]
      omega
    have hmid : (bins₂ i).filter (fun v => decide (v < s ∨ b' ≤ v)) =
        (bins₁ i).filter (fun v => decide (v < s ∨ b' ≤ v)) := by
      rcases n9 with ⟨-, rfl, -⟩ | ⟨c, rfl, -, rfl, hb'⟩
      · rfl
      · have hmin := H₁.segBack.1.min
        exact binsWithout_filter (hin b (by omega) (by omega)) bins₁ i _
    have hfirst : (bins₁ i).filter (fun v => decide (v < s ∨ b' ≤ v)) =
        (bins i).filter (fun v => decide (v < s ∨ b' ≤ v)) := by
      rcases c7 with ⟨-, rfl, -⟩ | ⟨c, -, -, -, rfl, -⟩
      · rfl
      · exact binsWithout_filter (hin s (Nat.le_refl s) (by omega)) bins i _
    rw [← hout, hmid, hfirst]
  · rcases List.mem_append.mp hd with hd | hd
    · exact List.mem_append_left _ (hfreeFront d hd)
    · exact List.mem_append_right _ (hfreeBack d hd)

end Holed

theorem HeapRep.room_free {h : CBinMalloc} {bs : List Block} {B : Block} (R : HeapRep h bs) (hB : B ∈ bs) (size : Nat) :
    (h.free B.handle).1.room.Fits size ↔ (h.freedRoom B.handle).Fits size := by
  obtain ⟨bins, cs, H, rfl, A⟩ := R
  obtain ⟨front, back, p, hperm, hmin, hfield, H2⟩ := H.takeOut hB
  have hsize : B.addr + B.size - B.addr = B.size := Nat.add_sub_cancel_left _ _
  obtain ⟨h₂, bins₂, front', s, b', q', back₂, e, H₃, hs, hb', hsmod, hbits, hu, hhead, htop, hpre, hnext, hbins, hfree⟩ :=
    H2.interFree_joins (by omega) (by rw [hsize]; exact hfield)
  obtain ⟨bins₃, back₃, H₄, -, hhead₃, -, hb₃, ht₃, hback₃⟩ := H₃.freePlace (Nat.le_refl s) (by omega) hsmod hbits hu
  generalize h₂.freePlace s (b' - s) = h₃ at e H₄ hhead₃ ht₃
  have H₅ := H₄.join
  have hchunk : h.chunkField B.addr = B.size := H.chunkField hB
  rw [hsize] at hpre e
  have hjoined : h.joined B.handle = (s, b' - s) := by
    have hmem : mem2chunk B.handle = B.addr := Nat.add_sub_cancel B.addr 8
    unfold CBinMalloc.joined
    rw [hmem, hchunk, hpre]
    dsimp only
    rw [hnext]
  have hn : s + (b' - s) = b' := by omega
  have hat : h.atTop s (b' - s) = (b' == h.hTop) := by rw [atTop, hn]
  have hkept : (fun i => (h.binChunks i).filter (fun v => decide (v < s ∨ s + (b' - s) ≤ v))) = bins₂ := by
    funext i
    rw [H.binChunks, hn]
    exact (hbins i).symm
  have hroom : (h.free B.handle).1.room = h₃.room := free_room e
  have hbottom : h₃.hBottom = h.hBottom := (hhead.trans hhead₃).hBottom
  have hback : b' ≠ h.hTop → freeOf s back₃ = (s, b' - s) :: freeOf b' back₂ := by
    intro hend
    rw [hback₃ (by rw [htop]; exact hend), freeOf_cons_free rfl]
    dsimp only
    rw [hn]
  have hsizes : ∀ i, ∀ v ∈ bins₂ i, h₃.chunkField v = h.chunkField v := by
    intro i v hv
    obtain ⟨sz, hd, -⟩ := (H₃.bins.mem i v).mp hv
    rw [hhead.hBottom] at hd
    have hbefore : h.chunkField v = sz := H2.chunkField_freeOf (hfree _ hd)
    have hstill : (v, sz) ∈ freeOf h₃.hBottom front' ++ freeOf s back₃ := by
      rw [hbottom]
      rcases List.mem_append.mp hd with hd | hd
      · exact List.mem_append_left _ hd
      · refine List.mem_append_right _ ?_
        by_cases hend : b' = h.hTop
        · have hnil : back₂ = [] := H₃.nil_iff.mp (hend.trans htop.symm)
          rw [hnil] at hd
          exact absurd hd List.not_mem_nil
        · rw [hback hend]
          exact List.mem_cons_of_mem _ hd
    have hafter : h₃.chunkField v = sz := H₄.chunkField_freeOf hstill
    rw [hbefore, hafter]
  have hbins₃ : h₃.room.bins = bins₃ := funext H₅.binChunks
  have hz : h₃.tSize = h.tSize := (hhead.trans hhead₃).tSize
  rw [htop] at hb₃ ht₃
  rw [hroom]
  unfold CBinMalloc.freedRoom
  rw [hjoined]
  dsimp only
  rw [hat, hkept]
  by_cases hend : b' = h.hTop
  · rw [if_pos hend] at hb₃ ht₃
    rw [hend, beq_self_eq_true, if_pos rfl]
    refine Room.fits_congr ?_ hsizes ht₃ hz size
    exact hbins₃.trans hb₃
  · rw [if_neg hend] at hb₃ ht₃
    rw [beq_false_of_ne hend, if_neg Bool.false_ne_true]
    refine Room.fits_congr ?_ (fun i v hv => ?_) ht₃ hz size
    · exact hbins₃.trans hb₃
    dsimp only [room] at hv ⊢
    by_cases hvs : v = s
    · have hnew : (s, b' - s) ∈ freeOf h₃.hBottom front' ++ freeOf s back₃ := by
        rw [hback hend]
        exact List.mem_append_right _ List.mem_cons_self
      have hsize : h₃.chunkField s = b' - s := H₄.chunkField_freeOf hnew
      rw [hvs, Function.update_self]
      exact hsize
    · rw [Function.update_of_ne hvs]
      refine hsizes i v ?_
      unfold binsWith at hv
      by_cases hi : i = binIndex (b' - s)
      · rw [hi, Function.update_self] at hv
        rw [hi]
        exact (List.mem_cons.mp hv).resolve_left hvs
      · rwa [Function.update_of_ne hi] at hv

theorem allocSize_interSize {x : Int} {n : Nat} (hx : x = n) (hn : n < 2 ^ 32) : allocSize (interSize x) = n := by
  subst hx
  unfold allocSize interSize
  omega

/-- **The answer of `AskForDestroySize`** for a block: not 0, and never what the joined chunk or the top it becomes can
give. -/
theorem HeapRep.askForDestroySize {h : CBinMalloc} {bs : List Block} {B : Block} (R : HeapRep h bs) (hB : B ∈ bs) :
    0 < h.askForDestroySize B.handle ∧
      (h.joined B.handle).2 < request2size (h.askForDestroySize B.handle) ∧
      (h.atTop (h.joined B.handle).1 (h.joined B.handle).2 = true →
        h.tSize ≤ (h.joined B.handle).1 + request2size (h.askForDestroySize B.handle) + minSize) := by
  obtain ⟨bins, cs, H, rfl, A⟩ := R
  obtain ⟨front, back, p, hperm, hmin, hfield, H2⟩ := H.takeOut hB
  have hsize : B.addr + B.size - B.addr = B.size := Nat.add_sub_cancel_left _ _
  have hfield' : h.tChunkField B.addr = B.addr + B.size - B.addr + p.toNat := by rw [hsize, hfield]
  have hchunk : h.chunkField B.addr = B.size := H.chunkField hB
  have haddr := H2.start_mod
  have hin := H2.inuse_end (s := B.addr) (by omega)
  have hcheck := H2.checkInuse (Nat.le_refl _) (by omega) haddr hfield' H2.front_inUse
  obtain ⟨h₂, bins₂, front', s, b', q', back₂, -, H₃, hs, hb', hsmod, -, -, hhead, htop, hpre, hnext, -, -⟩ :=
    H2.interFree_joins (by omega) hfield'
  have hbehind := H2.behind_ok (s := s) (by omega)
  have hbt := H2.le_hTop
  have hroom := H2.room
  have hbound := H2.bound
  have hb't := H₃.le_hTop
  have hb'mod := H₃.align
  have hpos := H2.bottom
  have hbot := H2.hBottom_le
  rw [htop] at hb't
  rw [hsize] at hpre hin
  have hmem : mem2chunk B.handle = B.addr := Nat.add_sub_cancel B.addr 8
  have hjoined : h.joined B.handle = (s, b' - s) := by
    unfold CBinMalloc.joined
    rw [hmem, hchunk, hpre]
    dsimp only
    rw [hnext]
  have hn : s + (b' - s) = b' := by omega
  have hat : h.atTop s (b' - s) = (b' == h.hTop) := by rw [atTop, hn]
  have hask : h.askForDestroySize B.handle =
      (if b' = h.hTop then max (b' - s) (h.tSize - s - minSize) else b' - s) - 4 := by
    have hmem0 : ¬ (B.handle = invalidHandle ∨ h.tSize ≤ B.handle) := by
      unfold Block.handle invalidHandle
      omega
    have hfits : ¬ h.tSize < B.addr + B.size := by omega
    have halign : ¬ B.addr % 8 ≠ 0 := fun hne => hne haddr
    unfold CBinMalloc.askForDestroySize
    rw [if_neg hmem0, hmem]
    dsimp only
    rw [hchunk, if_neg hfits, hin, Bool.not_true, if_neg Bool.false_ne_true, if_neg halign, hcheck, Bool.not_true,
      if_neg Bool.false_ne_true, hpre]
    dsimp only
    rw [hbehind, if_neg Bool.false_ne_true, hnext, hat]
    have h24 : minSize = 24 := rfl
    unfold chunksize2memsize
    by_cases hend : b' = h.hTop
    · have htop : (b' == h.hTop) = true := beq_iff_eq.mpr hend
      have hrest : allocSize (interSize (h.tSize - h.hTop - minSize + (b' - s : Nat))) = h.tSize - s - minSize :=
        allocSize_interSize (by omega) (by omega)
      rw [htop, if_pos rfl, if_pos hend, hrest]
      exact allocSize_interSize (by omega) (by omega)
    · rw [beq_false_of_ne hend, if_neg Bool.false_ne_true, if_neg hend]
      exact allocSize_interSize (by omega) (by omega)
  obtain ⟨-, hround, hreq, -⟩ := request2size_spec (h.askForDestroySize B.handle)
  have hle : b' - s ≤ if b' = h.hTop then max (b' - s) (h.tSize - s - minSize) else b' - s := by
    split
    · exact Nat.le_max_left _ _
    · exact Nat.le_refl _
  rw [hjoined, hat]
  dsimp only
  refine ⟨by omega, by omega, fun htop => ?_⟩
  have hend : b' = h.hTop := eq_of_beq htop
  rw [if_pos hend] at hask
  have hrest : h.tSize - s - minSize ≤ max (b' - s) (h.tSize - s - minSize) := Nat.le_max_right _ _
  omega

/-! ## `TryPurgeSize` -/

namespace CachePool

variable {Key : Type} {n : Nat} (slot : Bool → Key → Fin n) (vd : NodeId → Nat)

/-- `PurgeNodeEverything` of a node that has its chunk at `vd`: the chunk is destroyed, and the node is purged. -/
def purgeWithChunk (w : CachePool Key n × CBinMalloc) (node : NodeId) : Option (CachePool Key n × CBinMalloc) :=
  (w.1.purgeNodeEverything slot node).map (fun p =>
    (p, if (w.1.vdHandle node).isSome then (w.2.free (vd node)).1 else w.2))

def purgeAllWithChunks : List NodeId → CachePool Key n × CBinMalloc → Option (CachePool Key n × CBinMalloc)
  | [], w => some w
  | node :: nodes, w => (purgeWithChunk slot vd w node).bind (purgeAllWithChunks nodes)

/-- The node that `TryPurgeSize` destroys for a request of this size. -/
def sizeCandidate (w : CachePool Key n × CBinMalloc) (count : Nat) (reserve : Option NodeId) (size : Nat) : Option NodeId :=
  w.1.purgeCandidate count reserve (fun node => decide (size ≤ w.2.askForDestroySize (vd node)))

/-- `TryPurgeSize` with the chunks: the pool, the memory and the return value. -/
def tryPurgeSizeWithChunks (w : CachePool Key n × CBinMalloc) (prePurge count : Nat) (reserve : Option NodeId) (size : Nat) :
    Option ((CachePool Key n × CBinMalloc) × Int) :=
  (purgeAllWithChunks slot vd (w.1.prePurgeNodes prePurge reserve) w).bind (fun w =>
    match sizeCandidate vd w count reserve size with
    | none => some (w, -1)
    | some node => (purgeWithChunk slot vd w node).map (fun w => (w, 0)))

/-- **Every node with a chunk has a block of its own.** -/
structure OwnsBlocks (p : CachePool Key n) (live : List Nat) : Prop where
  live : ∀ node, (p.vdHandle node).isSome → vd node ∈ live
  own : ∀ node node', (p.vdHandle node).isSome → (p.vdHandle node').isSome → vd node = vd node' → node = node'

variable {slot vd} {p p' : CachePool Key n}

theorem purgeNodeEverything_vdHandle {node : NodeId} (hr : p.purgeNodeEverything slot node = some p') :
    p'.vdHandle = Function.update p.vdHandle node none := by
  unfold purgeNodeEverything at hr
  cases hv : p.vdHandle node with
  | none =>
    rw [hv] at hr
    obtain rfl := Option.some.inj hr
    rw [← hv, Function.update_eq_self]
  | some key =>
    rw [hv] at hr
    obtain ⟨q, hq, rfl⟩ := Option.map_eq_some_iff.mp hr
    rw [removeFromHash_frame hq]
    rfl

end CachePool

open CachePool

section Evict

variable {Key : Type} {n : Nat} {slot : Bool → Key → Fin n} {vd : NodeId → Nat}

theorem purgeWithChunk_step {s : HeapState} {p : CachePool Key n} {w : CachePool Key n × CBinMalloc} {node : NodeId}
    (hs : heapMachine.Reachable s) (ho : OwnsBlocks vd p s.live)
    (hp : purgeWithChunk slot vd (p, s.heap) node = some w) :
    ∃ s', heapMachine.Reachable s' ∧ w.2 = s'.heap ∧ OwnsBlocks vd w.1 s'.live := by
  obtain ⟨p', hp', rfl⟩ := Option.map_eq_some_iff.mp hp
  have hv := purgeNodeEverything_vdHandle hp'
  have hother : ∀ x, (p'.vdHandle x).isSome → x ≠ node ∧ (p.vdHandle x).isSome := by
    intro x hx
    rw [hv] at hx
    by_cases hxn : x = node
    · rw [hxn, Function.update_self] at hx
      cases hx
    · rw [Function.update_of_ne hxn] at hx
      exact ⟨hxn, hx⟩
  have hown : ∀ a b, (p'.vdHandle a).isSome → (p'.vdHandle b).isSome → vd a = vd b → a = b :=
    fun a b ha hb => ho.own a b (hother a ha).2 (hother b hb).2
  by_cases hchunk : (p.vdHandle node).isSome = true
  · dsimp only
    rw [if_pos hchunk]
    have hlive := ho.live node hchunk
    obtain ⟨bs, hbs⟩ := HeapState.has_of_reachable hs
    obtain ⟨B, hB, hhandle⟩ := hbs.block hlive
    obtain ⟨h', bs', e, -, -⟩ := hbs.1.free hB
    rw [hhandle] at e
    have hst : heapMachine.step s (.free (vd node)) = some ⟨h', s.live.erase (vd node)⟩ := by
      refine (if_pos hlive).trans ?_
      rw [e]
      rfl
    refine ⟨_, hs.next hst, by rw [e], ⟨fun x hx => ?_, hown⟩⟩
    obtain ⟨hxn, hx⟩ := hother x hx
    exact (List.mem_erase_of_ne (fun he => hxn (ho.own x node hx hchunk he))).mpr (ho.live x hx)
  · dsimp only
    rw [if_neg hchunk]
    exact ⟨s, hs, rfl, ⟨fun x hx => ho.live x (hother x hx).2, hown⟩⟩

theorem purgeAllWithChunks_run : ∀ (nodes : List NodeId) {s : HeapState} {p : CachePool Key n}
    {w : CachePool Key n × CBinMalloc}, heapMachine.Reachable s → OwnsBlocks vd p s.live →
    purgeAllWithChunks slot vd nodes (p, s.heap) = some w →
    ∃ s', heapMachine.Reachable s' ∧ w.2 = s'.heap ∧ OwnsBlocks vd w.1 s'.live
  | [], s, p, w, hs, ho, hw => by
    obtain rfl := Option.some.inj hw
    exact ⟨s, hs, rfl, ho⟩
  | node :: nodes, s, p, w, hs, ho, hw => by
    obtain ⟨q, hq, hw⟩ := Option.bind_eq_some_iff.mp hw
    obtain ⟨s₁, hs₁, he, ho₁⟩ := purgeWithChunk_step hs ho hq
    refine purgeAllWithChunks_run nodes (p := q.1) hs₁ ho₁ ?_
    rw [← he]
    exact hw

theorem gives_after_free {s : HeapState} (hs : heapMachine.Reachable s) {handle : Nat} (hlive : handle ∈ s.live) (req : Nat) :
    (s.heap.free handle).1.Gives req ↔
      requestOutOfRange req = false ∧ (s.heap.freedRoom handle).Fits (request2size req) := by
  obtain ⟨bs, hbs⟩ := HeapState.has_of_reachable hs
  obtain ⟨B, hB, rfl⟩ := hbs.block hlive
  obtain ⟨h', bs', e, R', -⟩ := hbs.1.free hB
  have hm := (mapOk_of_reachable hs).free B.handle
  have hroom := hbs.1.room_free hB (request2size req)
  rw [e] at hm hroom ⊢
  rw [R'.gives_iff hm req, hroom]

end Evict

/-- **Eviction makes room** exactly when the room after the `Free` fits: a block's estimate is never 0, and the chunk it is
freed into is always too small for a request of that size.  The same holds when `TryPurgeSize` has destroyed a node. -/
theorem heapMachine_evicts {s : HeapState} (hs : heapMachine.Reachable s) :
    (∀ handle ∈ s.live, 0 < s.heap.askForDestroySize handle ∧
      (s.heap.joined handle).2 < request2size (s.heap.askForDestroySize handle) ∧
      ((s.heap.free handle).1.Gives (s.heap.askForDestroySize handle) ↔
        requestOutOfRange (s.heap.askForDestroySize handle) = false ∧
          (s.heap.freedRoom handle).Fits (request2size (s.heap.askForDestroySize handle)))) ∧
    ∀ (Key : Type) (n : Nat) (slot : Bool → Key → Fin n) (vd : NodeId → Nat) (p : CachePool Key n)
      (prePurge count size : Nat) (reserve : Option NodeId) (w' : CachePool Key n × CBinMalloc),
      OwnsBlocks vd p s.live → tryPurgeSizeWithChunks slot vd (p, s.heap) prePurge count reserve size = some (w', 0) →
      ∃ w node, purgeAllWithChunks slot vd (p.prePurgeNodes prePurge reserve) (p, s.heap) = some w ∧
        sizeCandidate vd w count reserve size = some node ∧
        (w'.2.Gives size ↔ requestOutOfRange size = false ∧ (w.2.freedRoom (vd node)).Fits (request2size size)) := by
  refine ⟨fun handle hlive => ?_, fun Key n slot vd p prePurge count size reserve w' ho hw => ?_⟩
  · have hgives := gives_after_free hs hlive (s.heap.askForDestroySize handle)
    obtain ⟨bs, hbs⟩ := HeapState.has_of_reachable hs
    obtain ⟨B, hB, rfl⟩ := hbs.block hlive
    obtain ⟨hpos, hsmall, -⟩ := hbs.1.askForDestroySize hB
    exact ⟨hpos, hsmall, hgives⟩
  · obtain ⟨w, hw1, hw2⟩ := Option.bind_eq_some_iff.mp hw
    dsimp only at hw1 hw2
    obtain ⟨s₁, hs₁, hheap, ho₁⟩ := purgeAllWithChunks_run _ hs ho hw1
    cases hcand : sizeCandidate vd w count reserve size with
    | none =>
      rw [hcand] at hw2
      obtain ⟨-, hret⟩ := Prod.mk.inj (Option.some.inj hw2)
      cases hret
    | some node =>
      rw [hcand] at hw2
      obtain ⟨q, hq, hqw⟩ := Option.map_eq_some_iff.mp hw2
      obtain ⟨rfl, -⟩ := Prod.mk.inj hqw
      obtain ⟨p', -, rfl⟩ := Option.map_eq_some_iff.mp hq
      have hchunk : (w.1.vdHandle node).isSome = true := by
        unfold sizeCandidate purgeCandidate at hcand
        split at hcand
        · cases hcand
        · have hfound := List.find?_some hcand
          simp only [Bool.and_eq_true] at hfound
          exact hfound.1.2
      refine ⟨w, node, hw1, hcand, ?_⟩
      dsimp only
      rw [if_pos hchunk, hheap]
      exact gives_after_free hs₁ (ho₁.live node hchunk) size

def twoNodes : CachePool Nat 1 where
  config := {}
  index := ⟨fun _ => true, fun _ => true⟩
  vdHandle := fun node => if node = 0 then some 5 else if node = 1 then some 6 else none
  used := List.range 10
  cleanLru := [1, 0]

def twoHandles (node : NodeId) : Nat := if node = 0 then 7560 else 7592

theorem heapMachine_evicts_threeBlocks : ∃ (s : HeapState) (w' w : CachePool Nat 1 × CBinMalloc) (node : NodeId),
    heapMachine.Reachable s ∧ 0 < s.heap.askForDestroySize 7560 ∧
    tryPurgeSizeWithChunks (fun _ _ => 0) twoHandles (twoNodes, s.heap) 0 2500 none 100 = some (w', 0) ∧
    sizeCandidate twoHandles w 2500 none 100 = some node ∧
    (w'.2.Gives 100 ↔
      requestOutOfRange 100 = false ∧ (w.2.freedRoom (twoHandles node)).Fits (request2size 100)) := by
  have hrun : ((heapMachine.run firstHeap threeBlocks).bind (fun s =>
      (tryPurgeSizeWithChunks (fun _ _ => 0) twoHandles (twoNodes, s.heap) 0 2500 none 100).map (fun r =>
        (s.live, r.2)))) = some ([7592, 7560], 0) := by decide
  obtain ⟨s, hs, hw⟩ := Option.bind_eq_some_iff.mp hrun
  obtain ⟨⟨w', ret⟩, hw, hret⟩ := Option.map_eq_some_iff.mp hw
  obtain ⟨hlive, rfl⟩ := Prod.mk.inj hret
  have hreach : heapMachine.Reachable s := ⟨firstHeap, threeBlocks, firstHeap_start, hs⟩
  have hsome : ∀ node, (twoNodes.vdHandle node).isSome → node = 0 ∨ node = 1 := by
    intro node hn
    by_contra hne
    rw [not_or] at hne
    have hnone : twoNodes.vdHandle node = none := (if_neg hne.1).trans (if_neg hne.2)
    rw [hnone] at hn
    cases hn
  have hown : OwnsBlocks twoHandles twoNodes s.live := by
    refine ⟨fun node hn => ?_, fun a b ha hb hab => ?_⟩
    · rw [hlive]
      rcases hsome node hn with rfl | rfl
      · decide
      · decide
    · rcases hsome a ha with rfl | rfl <;> rcases hsome b hb with rfl | rfl
      · rfl
      · exact absurd hab (by decide)
      · exact absurd hab (by decide)
      · rfl
  obtain ⟨h1, h2⟩ := heapMachine_evicts hreach
  obtain ⟨w, node, -, hcand, hgives⟩ := h2 _ _ _ _ _ _ _ _ _ _ hown hw
  exact ⟨s, w', w, node, hreach, (h1 7560 (by rw [hlive]; decide)).1, hw, hcand, hgives⟩

/-- A memory of 16 KiB with a head of 1024 bytes. -/
def secondHeap : HeapState := ⟨(CBinMalloc.init 1024 (fun _ => 0) 16384).get rfl, []⟩

/-- Two blocks fill the memory; the estimate for the first is 108 bytes, and after it is freed 108 bytes are too many. -/
theorem heapMachine_evicts_short : ¬ ∀ s, heapMachine.Reachable s → ∀ handle ∈ s.live, 0 < s.heap.askForDestroySize handle →
    (s.heap.free handle).1.Gives (s.heap.askForDestroySize handle) := by
  intro hall
  have hrun : ((heapMachine.run secondHeap [.malloc 100, .malloc 8024]).map (fun s =>
      (s.live, s.heap.askForDestroySize 8216, ((s.heap.free 8216).1.malloc 108).map Prod.snd))) =
      some ([8328, 8216], 108, some 0) := by decide
  obtain ⟨s, hs, he⟩ := Option.map_eq_some_iff.mp hrun
  simp only [Prod.mk.injEq] at he
  obtain ⟨hlive, hask, hmalloc⟩ := he
  have hstart : heapMachine.start secondHeap :=
    ⟨rfl, 1024, fun _ => 0, 16384, secondHeap.heap, by decide, (Option.some_get rfl).symm, .inl rfl⟩
  have hmem : 8216 ∈ s.live := by
    rw [hlive]
    decide
  have hpos : 0 < s.heap.askForDestroySize 8216 := by
    rw [hask]
    decide
  obtain ⟨h', handle, hm, hne⟩ := hall s ⟨secondHeap, _, hstart, hs⟩ 8216 hmem hpos
  rw [hask] at hm
  rw [hm] at hmalloc
  exact hne (Option.some.inj hmalloc)

end Dtc
