import DtcServer.BinMallocBins
/-!
# BinMallocHeap — the heap as a list of chunks

`Seg` reads a stretch of the memory as the chunks that tile it: their sizes, the bits that say which are in use, the
mirrored sizes of the free ones and the bytes the users of the others see.  An operation works in a hole of the heap
(`Holed`): the chunks in front and behind are as they were, and what it writes stays between them.
-/
namespace Dtc

open Memory CBinMalloc

/-- A chunk: its size and, when it is in use, the bytes its user sees. -/
structure Chunk where
  size : Nat
  content : Option (List UInt8)

def Chunk.inUse (c : Chunk) : Bool := c.content.isSome

/-- The chunk at `a`, with `p` saying whether the one in front is in use. -/
structure Cell (m : Mem) (a : Nat) (p : Bool) (c : Chunk) : Prop where
  field : readNat m (a + 4) 4 = c.size + p.toNat
  align : c.size % 8 = 0
  min : 24 ≤ c.size
  free : c.content = none → p = true ∧ readNat m (a + c.size) 4 = c.size
  content : ∀ bytes, c.content = some bytes → readBytes m (a + 8) (c.size - 4) = bytes

/-- The chunks from `a` to `b`: `p` and `q` say whether the chunks in front of `a` and of `b` are in use. -/
def Seg (m : Mem) : Nat → Bool → List Chunk → Nat → Bool → Prop
  | a, p, [], b, q => a = b ∧ p = q
  | a, p, c :: cs, b, q => Cell m a p c ∧ Seg m (a + c.size) c.inUse cs b q

/-- The free chunks of a list that begins at `a`. -/
def freeOf : Nat → List Chunk → List (Nat × Nat)
  | _, [] => []
  | a, c :: cs => if c.inUse then freeOf (a + c.size) cs else (a, c.size) :: freeOf (a + c.size) cs

/-- A block in use: its chunk and what its user sees. -/
structure Block where
  addr : Nat
  size : Nat
  content : List UInt8
  deriving DecidableEq

def usedOf : Nat → List Chunk → List Block
  | _, [] => []
  | a, c :: cs =>
    match c.content with
    | none => usedOf (a + c.size) cs
    | some bytes => ⟨a, c.size, bytes⟩ :: usedOf (a + c.size) cs

section Segments

variable {m m' : Mem} {a b x : Nat} {p q r : Bool}

theorem seg_append : ∀ {cs ds : List Chunk} {a : Nat} {p : Bool},
    Seg m a p (cs ++ ds) b q ↔ ∃ x r, Seg m a p cs x r ∧ Seg m x r ds b q
  | [], ds, a, p => by
    constructor
    · intro h
      exact ⟨a, p, ⟨rfl, rfl⟩, h⟩
    · rintro ⟨x, r, ⟨rfl, rfl⟩, h⟩
      exact h
  | c :: cs, ds, a, p => by
    constructor
    · rintro ⟨hc, h⟩
      obtain ⟨x, r, h1, h2⟩ := seg_append.mp h
      exact ⟨x, r, ⟨hc, h1⟩, h2⟩
    · rintro ⟨x, r, ⟨hc, h1⟩, h2⟩
      exact ⟨hc, seg_append.mpr ⟨x, r, h1, h2⟩⟩

theorem Seg.le : ∀ {cs : List Chunk} {a : Nat} {p : Bool}, Seg m a p cs b q → a ≤ b
  | [], _, _, h => Nat.le_of_eq h.1
  | _ :: _, _, _, h => Nat.le_trans (Nat.le_add_right _ _) (Seg.le h.2)

theorem Seg.mod : ∀ {cs : List Chunk} {a : Nat} {p : Bool}, Seg m a p cs b q → a % 8 = b % 8
  | [], _, _, h => by rw [h.1]
  | _ :: _, _, _, h => by
    have hm := Seg.mod h.2
    have ha := h.1.align
    omega

theorem freeOf_append : ∀ {cs : List Chunk} {a : Nat} {p : Bool} {ds : List Chunk}, Seg m a p cs b q →
    freeOf a (cs ++ ds) = freeOf a cs ++ freeOf b ds
  | [], _, _, _, h => by
    rw [h.1]
    rfl
  | c :: cs, a, p, ds, h => by
    rw [List.cons_append, freeOf, freeOf, freeOf_append h.2]
    split
    · rfl
    · rw [List.cons_append]

theorem usedOf_append : ∀ {cs : List Chunk} {a : Nat} {p : Bool} {ds : List Chunk}, Seg m a p cs b q →
    usedOf a (cs ++ ds) = usedOf a cs ++ usedOf b ds
  | [], _, _, _, h => by
    rw [h.1]
    rfl
  | c :: cs, a, p, ds, h => by
    rw [List.cons_append, usedOf, usedOf, usedOf_append h.2]
    cases c.content with
    | none => rfl
    | some bytes => rfl

theorem freeOf_bounds : ∀ {cs : List Chunk} {a : Nat} {p : Bool} {d : Nat × Nat}, Seg m a p cs b q → d ∈ freeOf a cs →
    a ≤ d.1 ∧ d.1 + d.2 ≤ b ∧ 24 ≤ d.2
  | [], _, _, _, _, hd => absurd hd List.not_mem_nil
  | c :: cs, a, p, d, h, hd => by
    have hle := h.2.le
    rw [freeOf] at hd
    split at hd
    · obtain ⟨h1, h2, h3⟩ := freeOf_bounds h.2 hd
      exact ⟨by omega, h2, h3⟩
    · rcases List.mem_cons.mp hd with rfl | hd
      · exact ⟨Nat.le_refl _, hle, h.1.min⟩
      · obtain ⟨h1, h2, h3⟩ := freeOf_bounds h.2 hd
        exact ⟨by omega, h2, h3⟩

theorem usedOf_bounds : ∀ {cs : List Chunk} {a : Nat} {p : Bool} {d : Block}, Seg m a p cs b q → d ∈ usedOf a cs →
    a ≤ d.addr ∧ d.addr + d.size ≤ b ∧ 24 ≤ d.size ∧ readBytes m (d.addr + 8) (d.size - 4) = d.content
  | [], _, _, _, _, hd => absurd hd List.not_mem_nil
  | c :: cs, a, p, d, h, hd => by
    have hle := h.2.le
    have htail : d ∈ usedOf (a + c.size) cs → _ := fun hd => usedOf_bounds h.2 hd
    rw [usedOf] at hd
    split at hd
    · obtain ⟨h1, h2, h3⟩ := htail hd
      exact ⟨by omega, h2, h3⟩
    · rename_i bytes hbytes
      rcases List.mem_cons.mp hd with rfl | hd
      · exact ⟨Nat.le_refl _, hle, h.1.min, h.1.content bytes hbytes⟩
      · obtain ⟨h1, h2, h3⟩ := htail hd
        exact ⟨by omega, h2, h3⟩

theorem freeOf_apart : ∀ {cs : List Chunk} {a : Nat} {p : Bool}, Seg m a p cs b q →
    ∀ d ∈ freeOf a cs, ∀ e ∈ freeOf a cs, d = e ∨ Apart d.1 e.1
  | [], _, _, _, _, hd, _, _ => absurd hd List.not_mem_nil
  | c :: cs, a, p, h, d, hd, e, he => by
    have hmin := h.1.min
    have hb : ∀ x ∈ freeOf (a + c.size) cs, a + c.size ≤ x.1 := fun x hx => (freeOf_bounds h.2 hx).1
    rw [freeOf] at hd he
    split at hd
    · rename_i hu
      rw [if_pos hu] at he
      exact freeOf_apart h.2 d hd e he
    · rename_i hu
      rw [if_neg hu] at he
      unfold Apart
      rcases List.mem_cons.mp hd with rfl | hd <;> rcases List.mem_cons.mp he with rfl | he
      · exact .inl rfl
      · have := hb e he
        exact .inr (.inl (by omega))
      · have := hb d hd
        exact .inr (.inr (by omega))
      · exact freeOf_apart h.2 d hd e he

theorem Seg.frame : ∀ {cs : List Chunk} {a : Nat} {p : Bool}, Seg m a p cs b q →
    (∀ x, a + 4 ≤ x → x < b + 4 → m' x ≠ m x → ∃ d ∈ freeOf a cs, d.1 + 8 ≤ x ∧ x < d.1 + 24) → Seg m' a p cs b q
  | [], _, _, h, _ => h
  | c :: cs, a, p, h, hx => by
    have hmin := h.1.min
    have hle := h.2.le
    have hb : ∀ d ∈ freeOf (a + c.size) cs, a + c.size ≤ d.1 := fun d hd => (freeOf_bounds h.2 hd).1
    -- a byte of the chunk differs only in the links of a free one
    have hhead : ∀ x, a + 4 ≤ x → x < a + c.size + 4 → m' x ≠ m x → c.inUse = false ∧ a + 8 ≤ x ∧ x < a + 24 := by
      intro x h1 h2 hne
      obtain ⟨d, hd, h3, h4⟩ := hx x h1 (by omega) hne
      rw [freeOf] at hd
      split at hd
      · have := hb d hd
        omega
      · rename_i hu
        rcases List.mem_cons.mp hd with rfl | hd
        · exact ⟨by simpa using hu, h3, h4⟩
        · have := hb d hd
          omega
    refine ⟨⟨?_, h.1.align, h.1.min, fun hc => ⟨(h.1.free hc).1, ?_⟩, fun bytes hc => ?_⟩,
      Seg.frame h.2 (fun x h1 h2 hne => ?_)⟩
    · rw [← h.1.field]
      refine readNat_congr (fun x h1 h2 => ?_)
      by_contra hne
      have := hhead x h1 (by omega) hne
      omega
    · refine (readNat_congr (fun x h1 h2 => ?_)).trans (h.1.free hc).2
      by_contra hne
      have := hhead x (by omega) (by omega) hne
      omega
    · rw [← h.1.content bytes hc]
      refine readBytes_congr (fun x h1 h2 => ?_)
      by_contra hne
      have hu := (hhead x (by omega) (by omega) hne).1
      rw [Chunk.inUse, hc] at hu
      cases hu
    · obtain ⟨d, hd, h3, h4⟩ := hx x (by omega) h2 hne
      rw [freeOf] at hd
      split at hd
      · exact ⟨d, hd, h3, h4⟩
      · rcases List.mem_cons.mp hd with rfl | hd
        · omega
        · exact ⟨d, hd, h3, h4⟩

end Segments

/-- The field behind a hole: the size of the first chunk there, 0 at the top. -/
def headSize : List Chunk → Nat
  | [] => 0
  | c :: _ => c.size

/-- Chunks in front of a hole from `a` to `b` and behind it, up to the top: `p` and `q` are the bits that tell whether
the chunk in front of `a` and what is in front of `b` is in use. -/
structure HoleShape (h : CBinMalloc) (front : List Chunk) (a : Nat) (p : Bool) (b : Nat) (q : Bool) (back : List Chunk) :
    Prop where
  segFront : Seg h.mem h.hBottom true front a p
  segBack : Seg h.mem b q back h.hTop true
  top : readNat h.mem (h.hTop + 4) 4 = 1
  le : a ≤ b
  bottom : 0 < h.hBottom
  bottomAlign : h.hBottom % 8 = 0
  align : b % 8 = 0
  room : h.hTop < h.tSize
  bound : h.tSize ≤ 2 ^ 32

/-- **A heap with a hole**: the bins have the free chunks in front of it and behind it. -/
structure Holed (h : CBinMalloc) (bins : Nat → List Nat) (front : List Chunk) (a : Nat) (p : Bool) (b : Nat) (q : Bool)
    (back : List Chunk) : Prop extends HoleShape h front a p b q back where
  bins : BinsRep h bins (freeOf h.hBottom front ++ freeOf b back)

/-- **The heap**: a tiling by chunks from the bottom to the top. -/
def HeapInv (h : CBinMalloc) (bins : Nat → List Nat) (cs : List Chunk) : Prop :=
  Holed h bins [] h.hBottom true h.hBottom true cs

theorem BinsRep.congr {h h' : CBinMalloc} {bins : Nat → List Nat} {F : List (Nat × Nat)} (hb : BinsRep h bins F)
    (hF : FreeChunks F) (hbin : h'.bin = h.bin)
    (hm : ∀ c ∈ F, ∀ x, c.1 + 8 ≤ x → x < c.1 + 24 → h'.mem x = h.mem x) : BinsRep h' bins F := by
  refine ⟨fun i => (hb.ring i).congr ?_ (fun y hy => ?_), hb.nodup, hb.mem⟩
  · simp only [ringNext, ringPre, hbin, if_true, and_self]
  · have hy0 : y ≠ invalidHandle := Nat.ne_of_gt (hb.pos hF hy)
    obtain ⟨size, hc, -⟩ := (hb.mem i y).mp hy
    simp only [ringNext, ringPre, if_neg hy0]
    refine ⟨readNat_congr (fun x h1 h2 => ?_), readNat_congr (fun x h1 h2 => ?_)⟩
    · exact hm _ hc x (by omega) (by omega)
    · exact hm _ hc x (by omega) (by omega)

namespace HoleShape

variable {h : CBinMalloc} {front back : List Chunk} {a b x : Nat} {p q : Bool}

theorem hBottom_le (S : HoleShape h front a p b q back) : h.hBottom ≤ a := S.segFront.le

theorem le_hTop (S : HoleShape h front a p b q back) : b ≤ h.hTop := S.segBack.le

theorem start_mod (S : HoleShape h front a p b q back) : a % 8 = 0 := by
  have hm := S.segFront.mod
  have hb := S.bottomAlign
  omega

theorem free_side (S : HoleShape h front a p b q back) {d : Nat × Nat}
    (hd : d ∈ freeOf h.hBottom front ++ freeOf b back) :
    24 ≤ d.2 ∧ (d ∈ freeOf h.hBottom front ∧ h.hBottom ≤ d.1 ∧ d.1 + d.2 ≤ a ∨
      d ∈ freeOf b back ∧ b ≤ d.1 ∧ d.1 + d.2 ≤ h.hTop) := by
  rcases List.mem_append.mp hd with hd | hd
  · obtain ⟨h1, h2, h3⟩ := freeOf_bounds S.segFront hd
    exact ⟨h3, .inl ⟨hd, h1, h2⟩⟩
  · obtain ⟨h1, h2, h3⟩ := freeOf_bounds S.segBack hd
    exact ⟨h3, .inr ⟨hd, h1, h2⟩⟩

theorem freeChunks (S : HoleShape h front a p b q back) : FreeChunks (freeOf h.hBottom front ++ freeOf b back) := by
  have hab := S.le
  have hbot := S.bottom
  have h1 := S.hBottom_le
  have htop := S.le_hTop
  have hroom := S.room
  have hbound := S.bound
  refine ⟨fun d hd => ?_, fun d hd e he => ?_⟩
  · obtain ⟨h24, hs⟩ := S.free_side hd
    omega
  · obtain ⟨h24, hs⟩ := S.free_side hd
    obtain ⟨h24', hs'⟩ := S.free_side he
    rcases hs with ⟨hd, hd1, hd2⟩ | ⟨hd, hd1, hd2⟩ <;> rcases hs' with ⟨he, he1, he2⟩ | ⟨he, he1, he2⟩
    · exact freeOf_apart S.segFront d hd e he
    · exact .inr (.inl (by omega))
    · exact .inr (.inr (by omega))
    · exact freeOf_apart S.segBack d hd e he

theorem field (S : HoleShape h front a p b q back) : readNat h.mem (b + 4) 4 = headSize back + q.toNat := by
  have hback := S.segBack
  cases back with
  | nil =>
    rw [hback.1, hback.2, S.top]
    rfl
  | cons c cs => exact hback.1.field

theorem write (S : HoleShape h front a p b q back) {h' : CBinMalloc} {q' : Bool} (hhead : SameHead h h')
    (htop : h'.hTop = h.hTop) (hm : ∀ x, x < a + 4 ∨ b + 8 ≤ x → h'.mem x = h.mem x)
    (hfield : readNat h'.mem (b + 4) 4 = headSize back + q'.toNat)
    (hq : q' = false → ∃ c cs, back = c :: cs ∧ c.inUse = true) : HoleShape h' front a p b q' back := by
  have hab := S.le
  refine ⟨?_, ?_, ?_, hab, ?_, ?_, S.align, ?_, ?_⟩
  · rw [hhead.hBottom]
    refine S.segFront.frame (fun x h1 h2 hne => absurd (hm x (.inl (by omega))) hne)
  · rw [htop]
    have hback := S.segBack
    cases back with
    | nil =>
      refine ⟨hback.1, ?_⟩
      cases q' with
      | true => rfl
      | false =>
        obtain ⟨c, cs, he, -⟩ := hq rfl
        cases he
    | cons c cs =>
      have hmin := hback.1.min
      refine ⟨⟨hfield, hback.1.align, hmin, fun hc => ⟨?_, ?_⟩, fun bytes hc => ?_⟩, hback.2.frame (fun x h1 h2 hne => ?_)⟩
      · cases q' with
        | true => rfl
        | false =>
          obtain ⟨c', cs', he, hu⟩ := hq rfl
          obtain ⟨rfl, -⟩ := List.cons.inj he
          rw [Chunk.inUse, hc] at hu
          cases hu
      · refine (readNat_congr (fun x h1 h2 => hm x (.inr (by omega)))).trans (hback.1.free hc).2
      · rw [← hback.1.content bytes hc]
        exact readBytes_congr (fun x h1 h2 => hm x (.inr (by omega)))
      · exact absurd (hm x (.inr (by omega))) hne
  · rw [htop]
    have hback := S.segBack
    cases back with
    | nil =>
      rw [← hback.1, hfield]
      cases q' with
      | true => rfl
      | false =>
        obtain ⟨c, cs, he, -⟩ := hq rfl
        cases he
    | cons c cs =>
      have hmin := hback.1.min
      have hle := hback.2.le
      exact (readNat_congr (fun x h1 h2 => hm x (.inr (by omega)))).trans S.top
  · rw [hhead.hBottom]
    exact S.bottom
  · rw [hhead.hBottom]
    exact S.bottomAlign
  · rw [htop, hhead.tSize]
    exact S.room
  · rw [hhead.tSize]
    exact S.bound

theorem relink (S : HoleShape h front a p b q back) {h' : CBinMalloc} {bins : Nat → List Nat} (hhead : SameHead h h')
    (htop : h'.hTop = h.hTop) (hl : LinksOnly (freeOf h.hBottom front ++ freeOf b back) h.mem h'.mem)
    (hb : BinsRep h' bins (freeOf h.hBottom front ++ freeOf b back)) :
    Holed h' bins front a p b q back ∧ ∀ x, a ≤ x → x < b + 8 → h'.mem x = h.mem x := by
  have hab := S.le
  have hba := S.hBottom_le
  have hbt := S.le_hTop
  refine ⟨⟨⟨?_, ?_, ?_, hab, ?_, ?_, S.align, ?_, ?_⟩, ?_⟩, fun x h1 h2 => ?_⟩
  · rw [hhead.hBottom]
    refine S.segFront.frame (fun x h1 h2 hne => ?_)
    obtain ⟨d, hd, h3, h4⟩ := hl x hne
    obtain ⟨h24, ⟨hin, -⟩ | ⟨-, hout, -⟩⟩ := S.free_side hd
    · exact ⟨d, hin, h3, h4⟩
    · omega
  · rw [htop]
    refine S.segBack.frame (fun x h1 h2 hne => ?_)
    obtain ⟨d, hd, h3, h4⟩ := hl x hne
    obtain ⟨h24, ⟨-, -, hout⟩ | ⟨hin, -⟩⟩ := S.free_side hd
    · omega
    · exact ⟨d, hin, h3, h4⟩
  · rw [htop]
    refine (readNat_congr (fun x h1 h2 => ?_)).trans S.top
    by_contra hne
    obtain ⟨d, hd, h3, h4⟩ := hl x hne
    have := S.free_side hd
    omega
  · rw [hhead.hBottom]
    exact S.bottom
  · rw [hhead.hBottom]
    exact S.bottomAlign
  · rw [htop, hhead.tSize]
    exact S.room
  · rw [hhead.tSize]
    exact S.bound
  · rw [hhead.hBottom]
    exact hb
  · by_contra hne
    obtain ⟨d, hd, h3, h4⟩ := hl x hne
    have := S.free_side hd
    omega

theorem unlink (S : HoleShape h front a p b q back) {bins : Nat → List Nat} {F : List (Nat × Nat)} {s size : Nat}
    (hb : BinsRep h bins F) (hF : FreeChunks F) (hs : (s, size) ∈ F)
    (hF' : ∀ d, d ∈ freeOf h.hBottom front ++ freeOf b back ↔ d ∈ F ∧ d.1 ≠ s) :
    Holed (h.unlinkBin (binIndex size) s) (binsWithout bins (binIndex size) s) front a p b q back ∧
      SameHead h (h.unlinkBin (binIndex size) s) ∧ (h.unlinkBin (binIndex size) s).hTop = h.hTop ∧
      ∀ x, a ≤ x → x < b + 8 → (h.unlinkBin (binIndex size) s).mem x = h.mem x := by
  obtain ⟨h1, h2, h3, h4⟩ := hb.unlinkBin hF ((hb.mem _ s).mpr ⟨size, hs, rfl⟩) hF'
  obtain ⟨H', hagree⟩ := S.relink h3 h4 h2 h1
  exact ⟨H', h3, h4, hagree⟩

end HoleShape

theorem freeOf_cons_free {c : Chunk} (hc : c.content = none) (a : Nat) (cs : List Chunk) :
    freeOf a (c :: cs) = (a, c.size) :: freeOf (a + c.size) cs := by
  rw [freeOf, Chunk.inUse, hc]
  rfl

theorem freeOf_cons_used {c : Chunk} {bytes : List UInt8} (hc : c.content = some bytes) (a : Nat) (cs : List Chunk) :
    freeOf a (c :: cs) = freeOf (a + c.size) cs := by
  rw [freeOf, Chunk.inUse, hc]
  rfl

theorem HoleShape.free_behind {h : CBinMalloc} {front back : List Chunk} {a b : Nat} {p q : Bool} {c : Chunk}
    (S : HoleShape h front a p b q (c :: back)) (hc : c.content = none) (d : Nat × Nat) :
    d ∈ freeOf h.hBottom front ++ freeOf (b + c.size) back ↔
      d ∈ freeOf h.hBottom front ++ freeOf b (c :: back) ∧ d.1 ≠ b := by
  have hab := S.le
  have hmin := S.segBack.1.min
  rw [freeOf_cons_free hc]
  simp only [List.mem_append, List.mem_cons]
  constructor
  · rintro (hd | hd)
    · obtain ⟨h1, h2, h3⟩ := freeOf_bounds S.segFront hd
      exact ⟨.inl hd, by omega⟩
    · obtain ⟨h1, h2, h3⟩ := freeOf_bounds S.segBack.2 hd
      exact ⟨.inr (.inr hd), by omega⟩
  · rintro ⟨hd | rfl | hd, hne⟩
    · exact .inl hd
    · exact absurd rfl hne
    · exact .inr hd

namespace Holed

variable {h : CBinMalloc} {bins : Nat → List Nat} {front back : List Chunk} {a b x : Nat} {p q : Bool} {c : Chunk}

theorem write (H : Holed h bins front a p b q back) {h' : CBinMalloc} {q' : Bool} (hhead : SameHead h h')
    (htop : h'.hTop = h.hTop) (hbin : h'.bin = h.bin) (hm : ∀ x, x < a + 4 ∨ b + 8 ≤ x → h'.mem x = h.mem x)
    (hfield : readNat h'.mem (b + 4) 4 = headSize back + q'.toNat)
    (hq : q' = false → ∃ c cs, back = c :: cs ∧ c.inUse = true) : Holed h' bins front a p b q' back := by
  refine ⟨H.toHoleShape.write hhead htop hm hfield hq, ?_⟩
  rw [hhead.hBottom]
  refine H.bins.congr H.freeChunks hbin (fun d hd x h1 h2 => hm x ?_)
  obtain ⟨h24, hs⟩ := H.free_side hd
  have hab := H.le
  omega

theorem unlinkNext (H : Holed h bins front a p b q (c :: back)) (hc : c.content = none) :
    Holed (h.unlinkBin (binIndex c.size) b) (binsWithout bins (binIndex c.size) b) front a p (b + c.size) false back ∧
      SameHead h (h.unlinkBin (binIndex c.size) b) ∧ (h.unlinkBin (binIndex c.size) b).hTop = h.hTop ∧
      ∀ x, a ≤ x → x < b + c.size + 8 → (h.unlinkBin (binIndex c.size) b).mem x = h.mem x := by
  have hab := H.le
  have hmin := H.segBack.1.min
  have hmod := H.segBack.1.align
  have hbmod := H.align
  have hseg := H.segBack.2
  rw [Chunk.inUse, hc] at hseg
  have hmem : (b, c.size) ∈ freeOf h.hBottom front ++ freeOf b (c :: back) := by
    rw [freeOf_cons_free hc]
    simp
  have S : HoleShape h front a p (b + c.size) false back :=
    ⟨H.segFront, hseg, H.top, by omega, H.bottom, H.bottomAlign, by omega, H.room, H.bound⟩
  exact S.unlink H.bins H.freeChunks hmem (H.free_behind hc)

theorem unlinkPre (H : Holed h bins (front ++ [c]) a p b q back) (hc : c.content = none) :
    ∃ s, a = s + c.size ∧
      Holed (h.unlinkBin (binIndex c.size) s) (binsWithout bins (binIndex c.size) s) front s true b q back ∧
      Cell h.mem s true c ∧
      p = false ∧ SameHead h (h.unlinkBin (binIndex c.size) s) ∧ (h.unlinkBin (binIndex c.size) s).hTop = h.hTop ∧
      ∀ x, s ≤ x → x < b + 8 → (h.unlinkBin (binIndex c.size) s).mem x = h.mem x := by
  have hab := H.le
  obtain ⟨s, r, hfront, hcell, hend⟩ := seg_append.mp H.segFront
  obtain ⟨hsa, hp⟩ := hend
  rw [Chunk.inUse, hc] at hp
  obtain ⟨rfl, -⟩ := hcell.free hc
  have hmin := hcell.min
  have hfree : freeOf h.hBottom (front ++ [c]) = freeOf h.hBottom front ++ [(s, c.size)] := by
    rw [freeOf_append hfront, freeOf_cons_free hc]
    rfl
  have hmem : (s, c.size) ∈ freeOf h.hBottom (front ++ [c]) ++ freeOf b back := by
    rw [hfree]
    simp
  have hF' : ∀ d, d ∈ freeOf h.hBottom front ++ freeOf b back ↔
      d ∈ freeOf h.hBottom (front ++ [c]) ++ freeOf b back ∧ d.1 ≠ s := by
    intro d
    rw [hfree]
    simp only [List.mem_append, List.mem_singleton]
    constructor
    · rintro (hd | hd)
      · obtain ⟨h1, h2, h3⟩ := freeOf_bounds hfront hd
        exact ⟨.inl (.inl hd), by omega⟩
      · obtain ⟨h1, h2, h3⟩ := freeOf_bounds H.segBack hd
        exact ⟨.inr hd, by omega⟩
    · rintro ⟨(hd | rfl) | hd, hne⟩
      · exact .inl hd
      · exact absurd rfl hne
      · exact .inr hd
  have S : HoleShape h front s true b q back :=
    ⟨hfront, H.segBack, H.top, by omega, H.bottom, H.bottomAlign, H.align, H.room, H.bound⟩
  obtain ⟨H', h3, h4, hagree⟩ := S.unlink H.bins H.freeChunks hmem hF'
  exact ⟨s, hsa.symm, H', hcell, hp.symm, h3, h4, hagree⟩

theorem link (H : Holed h bins front a p b false back) {s : Nat} (has : a ≤ s) (hsb : s + 24 ≤ b) (hs : s % 8 = 0)
    (hfield : readNat h.mem (s + 4) 4 = b - s + 1) (hpre : readNat h.mem b 4 = b - s) :
    Holed (h.linkBin (binIndex (b - s)) s) (binsWith bins (binIndex (b - s)) s) front a p s true (⟨b - s, none⟩ :: back) ∧
      SameHead h (h.linkBin (binIndex (b - s)) s) ∧ (h.linkBin (binIndex (b - s)) s).hTop = h.hTop ∧
      ∀ x, a ≤ x → x < s + 8 → (h.linkBin (binIndex (b - s)) s).mem x = h.mem x := by
  have hbmod := H.align
  have hbt := H.le_hTop
  have hroom := H.room
  have hbound := H.bound
  have hbot := H.bottom
  have hbota := H.hBottom_le
  have hsize : s + (b - s) = b := by omega
  have hback : freeOf s (⟨b - s, none⟩ :: back) = (s, b - s) :: freeOf b back := by
    rw [freeOf_cons_free rfl, hsize]
  have hside : ∀ d ∈ freeOf h.hBottom front ++ freeOf b back, Apart s d.1 ∧ d.1 ≠ s := by
    intro d hd
    have := H.free_side hd
    unfold Apart
    omega
  have hF : FreeChunks ((s, b - s) :: (freeOf h.hBottom front ++ freeOf b back)) := by
    refine ⟨fun d hd => ?_, fun d hd e he => ?_⟩
    · rcases List.mem_cons.mp hd with rfl | hd
      · exact ⟨by dsimp only; omega, by dsimp only; omega⟩
      · exact H.freeChunks.pos d hd
    · rcases List.mem_cons.mp hd with rfl | hd <;> rcases List.mem_cons.mp he with rfl | he
      · exact .inl rfl
      · exact .inr (hside e he).1
      · exact .inr (Or.symm (hside d hd).1)
      · exact H.freeChunks.apart d hd e he
  have hF' : ∀ d, d ∈ freeOf h.hBottom front ++ freeOf s (⟨b - s, none⟩ :: back) ↔
      d = (s, b - s) ∨ d ∈ freeOf h.hBottom front ++ freeOf b back := by
    intro d
    rw [hback]
    simp only [List.mem_append, List.mem_cons]
    constructor
    · rintro (hd | rfl | hd)
      · exact .inr (.inl hd)
      · exact .inl rfl
      · exact .inr (.inr hd)
    · rintro (rfl | hd | hd)
      · exact .inr (.inl rfl)
      · exact .inl hd
      · exact .inr (.inr hd)
  obtain ⟨h1, h2, h3, h4⟩ := H.bins.linkBin hF (fun d hd => (hside d hd).2) hF'
  have S : HoleShape h front a p s true (⟨b - s, none⟩ :: back) := by
    refine ⟨H.segFront, ⟨⟨hfield, ?_, ?_, fun _ => ⟨rfl, ?_⟩, fun bytes hb => by cases hb⟩, ?_⟩, H.top, has, H.bottom,
      H.bottomAlign, hs, H.room, H.bound⟩
    · dsimp only
      omega
    · dsimp only
      omega
    · dsimp only
      rw [hsize]
      exact hpre
    · dsimp only
      rw [hsize]
      exact H.segBack
  obtain ⟨H', hagree⟩ := S.relink h3 h4 h2 h1
  exact ⟨H', h3, h4, hagree⟩

theorem setTop (H : Holed h bins front a p b q []) {t : Nat} {h' : CBinMalloc} (hat : a ≤ t) (ht : t % 8 = 0)
    (hroom : t < h.tSize) (hm : ∀ x, x < a + 4 → h'.mem x = h.mem x) (hfield : readNat h'.mem (t + 4) 4 = 1)
    (hbin : h'.bin = h.bin) (hhead : SameHead h h') (htop : h'.hTop = t) : Holed h' bins front a p t true [] := by
  refine ⟨⟨?_, ⟨htop.symm, rfl⟩, ?_, hat, ?_, ?_, ht, ?_, ?_⟩, ?_⟩
  · rw [hhead.hBottom]
    exact H.segFront.frame (fun x _ h2 hne => absurd (hm x h2) hne)
  · rw [htop]
    exact hfield
  · rw [hhead.hBottom]
    exact H.bottom
  · rw [hhead.hBottom]
    exact H.bottomAlign
  · rw [htop, hhead.tSize]
    exact hroom
  · rw [hhead.tSize]
    exact H.bound
  · rw [hhead.hBottom]
    refine H.bins.congr H.freeChunks hbin (fun d hd x h1 h2 => hm x ?_)
    obtain ⟨h24, ⟨-, -, hd⟩ | ⟨hd, -⟩⟩ := H.free_side hd
    · omega
    · exact absurd hd List.not_mem_nil

theorem use (H : Holed h bins front a p b true back) (hab : a + 24 ≤ b)
    (hfield : readNat h.mem (a + 4) 4 = b - a + p.toNat) :
    Holed h bins front a p a p (⟨b - a, some (readBytes h.mem (a + 8) (b - a - 4))⟩ :: back) := by
  have hbmod := H.align
  have hamod := H.start_mod
  have hsize : a + (b - a) = b := by omega
  refine ⟨⟨H.segFront, ⟨⟨hfield, ?_, ?_, fun hn => (by cases hn), fun bytes hb => Option.some.inj hb⟩, ?_⟩, H.top,
    Nat.le_refl a, H.bottom, H.bottomAlign, hamod, H.room, H.bound⟩, ?_⟩
  · dsimp only
    omega
  · dsimp only
    omega
  · dsimp only
    rw [hsize]
    exact H.segBack
  · rw [freeOf_cons_used rfl]
    dsimp only
    rw [hsize]
    exact H.bins

theorem openUsed {bytes : List UInt8} (H : Holed h bins front a p a p (c :: back)) (hc : c.content = some bytes) :
    Holed h bins front a p (a + c.size) true back := by
  have hseg := H.segBack.2
  rw [Chunk.inUse, hc] at hseg
  have hmod := H.segBack.1.align
  have hamod := H.start_mod
  refine ⟨⟨H.segFront, hseg, H.top, by omega, H.bottom, H.bottomAlign, by omega, H.room, H.bound⟩, ?_⟩
  have hb := H.bins
  rwa [freeOf_cons_used hc] at hb

theorem join (H : Holed h bins front a p a p back) : HeapInv h bins (front ++ back) := by
  refine ⟨⟨⟨rfl, rfl⟩, seg_append.mpr ⟨a, p, H.segFront, H.segBack⟩, H.top, Nat.le_refl _, H.bottom, H.bottomAlign,
    H.bottomAlign, H.room, H.bound⟩, ?_⟩
  rw [freeOf_append H.segFront]
  exact H.bins

end Holed

theorem freeOf_split {m : Mem} {b : Nat} {q : Bool} : ∀ {cs : List Chunk} {a : Nat} {p : Bool} {d : Nat × Nat},
    Seg m a p cs b q → d ∈ freeOf a cs →
    ∃ front back, cs = front ++ ⟨d.2, none⟩ :: back ∧ Seg m a p front d.1 true ∧ Seg m d.1 true (⟨d.2, none⟩ :: back) b q
  | [], _, _, _, _, hd => absurd hd List.not_mem_nil
  | c :: cs, a, p, d, h, hd => by
    rw [freeOf] at hd
    have htail : d ∈ freeOf (a + c.size) cs → ∃ front back, c :: cs = front ++ ⟨d.2, none⟩ :: back ∧
        Seg m a p front d.1 true ∧ Seg m d.1 true (⟨d.2, none⟩ :: back) b q := by
      intro hd
      obtain ⟨front, back, hcs, h1, h2⟩ := freeOf_split h.2 hd
      exact ⟨c :: front, back, by rw [hcs, List.cons_append], ⟨h.1, h1⟩, h2⟩
    split at hd
    · exact htail hd
    · rename_i hu
      rcases List.mem_cons.mp hd with rfl | hd
      · have hc : c.content = none := by
          rwa [Chunk.inUse, Bool.not_eq_true, Option.isSome_eq_false_iff, Option.isNone_iff_eq_none] at hu
        have hce : c = ⟨c.size, none⟩ := by rw [← hc]
        obtain ⟨hp, -⟩ := h.1.free hc
        subst hp
        refine ⟨[], cs, by rw [List.nil_append, ← hce], ⟨rfl, rfl⟩, ?_⟩
        dsimp only
        rw [← hce]
        exact h
      · exact htail hd

theorem HeapInv.cut {h : CBinMalloc} {bins : Nat → List Nat} {front back : List Chunk}
    (H : HeapInv h bins (front ++ back)) : ∃ a p, Holed h bins front a p a p back := by
  obtain ⟨a, p, h1, h2⟩ := seg_append.mp H.segBack
  have hm := h1.mod
  have hb := H.bottomAlign
  refine ⟨a, p, ⟨⟨h1, h2, H.top, Nat.le_refl a, H.bottom, H.bottomAlign, by omega, H.room, H.bound⟩, ?_⟩⟩
  rw [← freeOf_append h1]
  exact H.bins

theorem HeapInv.cutFree {h : CBinMalloc} {bins : Nat → List Nat} {cs : List Chunk} {i y : Nat} (H : HeapInv h bins cs)
    (hy : y ∈ bins i) : ∃ front size back, cs = front ++ ⟨size, none⟩ :: back ∧ binIndex size = i ∧
      Holed h bins front y true y true (⟨size, none⟩ :: back) := by
  obtain ⟨size, hd, hi⟩ := (H.bins.mem i y).mp hy
  obtain ⟨front, back, hcs, h1, h2⟩ := freeOf_split H.segBack hd
  have hm := h1.mod
  have hb := H.bottomAlign
  dsimp only at hcs h1 h2 hm
  refine ⟨front, size, back, hcs, hi, ⟨h1, h2, H.top, Nat.le_refl y, H.bottom, H.bottomAlign, by omega, H.room, H.bound⟩, ?_⟩
  have hbins := H.bins
  rw [hcs] at hbins
  rw [← freeOf_append h1]
  exact hbins

theorem usedOf_split {m : Mem} {b : Nat} {q : Bool} : ∀ {cs : List Chunk} {a : Nat} {p : Bool} {B : Block},
    Seg m a p cs b q → B ∈ usedOf a cs → ∃ front back r, cs = front ++ ⟨B.size, some B.content⟩ :: back ∧
      Seg m a p front B.addr r ∧ Seg m B.addr r (⟨B.size, some B.content⟩ :: back) b q
  | [], _, _, _, _, hB => absurd hB List.not_mem_nil
  | c :: cs, a, p, B, h, hB => by
    have htail : B ∈ usedOf (a + c.size) cs → ∃ front back r, c :: cs = front ++ ⟨B.size, some B.content⟩ :: back ∧
        Seg m a p front B.addr r ∧ Seg m B.addr r (⟨B.size, some B.content⟩ :: back) b q := by
      intro hB
      obtain ⟨front, back, r, hcs, h1, h2⟩ := usedOf_split h.2 hB
      exact ⟨c :: front, back, r, by rw [hcs, List.cons_append], ⟨h.1, h1⟩, h2⟩
    rw [usedOf] at hB
    split at hB
    · exact htail hB
    · rename_i bytes hc
      rcases List.mem_cons.mp hB with rfl | hB
      · have hce : c = ⟨c.size, some bytes⟩ := by rw [← hc]
        refine ⟨[], cs, p, by rw [List.nil_append, ← hce], ⟨rfl, rfl⟩, ?_⟩
        dsimp only
        rw [← hce]
        exact h
      · exact htail hB

theorem HeapInv.cutUsed {h : CBinMalloc} {bins : Nat → List Nat} {cs : List Chunk} {B : Block} (H : HeapInv h bins cs)
    (hB : B ∈ usedOf h.hBottom cs) : ∃ front back p,
      (usedOf h.hBottom cs).Perm (B :: (usedOf h.hBottom front ++ usedOf (B.addr + B.size) back)) ∧
      Holed h bins front B.addr p B.addr p (⟨B.size, some B.content⟩ :: back) := by
  obtain ⟨front, back, p, hcs, h1, h2⟩ := usedOf_split H.segBack hB
  have hm := h1.mod
  have hb := H.bottomAlign
  refine ⟨front, back, p, ?_, ⟨h1, h2, H.top, Nat.le_refl _, H.bottom, H.bottomAlign, by omega, H.room, H.bound⟩, ?_⟩
  · rw [hcs, usedOf_append h1, usedOf]
    exact List.perm_middle
  · have hbins := H.bins
    rw [hcs] at hbins
    rw [← freeOf_append h1]
    exact hbins

/-- A block that is taken out leaves a hole. -/
theorem HeapInv.takeOut {h : CBinMalloc} {bins : Nat → List Nat} {cs : List Chunk} {B : Block} (H : HeapInv h bins cs)
    (hB : B ∈ usedOf h.hBottom cs) : ∃ front back p,
      (usedOf h.hBottom cs).Perm (B :: (usedOf h.hBottom front ++ usedOf (B.addr + B.size) back)) ∧
      24 ≤ B.size ∧ h.tChunkField B.addr = B.size + p.toNat ∧
      Holed h bins front B.addr p (B.addr + B.size) true back := by
  obtain ⟨front, back, p, hperm, H₁⟩ := H.cutUsed hB
  exact ⟨front, back, p, hperm, H₁.segBack.1.min, H₁.segBack.1.field, H₁.openUsed rfl⟩

theorem HeapInv.writeUsed {h h' : CBinMalloc} {bins : Nat → List Nat} {cs : List Chunk} {B : Block}
    (H : HeapInv h bins cs) (hB : B ∈ usedOf h.hBottom cs) (hhead : SameHead h h') (htop : h'.hTop = h.hTop)
    (hbin : h'.bin = h.bin) (hm : ∀ x, x < B.addr + 8 ∨ B.addr + B.size + 4 ≤ x → h'.mem x = h.mem x) :
    ∃ cs' B', HeapInv h' bins cs' ∧ B'.addr = B.addr ∧ B'.size = B.size ∧
      B'.content = readBytes h'.mem (B.addr + 8) (B.size - 4) ∧
      (B :: usedOf h'.hBottom cs').Perm (B' :: usedOf h.hBottom cs) := by
  obtain ⟨front, back, p, hperm, hmin, hfield, H2⟩ := H.takeOut hB
  have hsize : B.addr + B.size - B.addr = B.size := Nat.add_sub_cancel_left _ _
  have H3 : Holed h' bins front B.addr p (B.addr + B.size) true back := by
    refine H2.write hhead htop hbin (fun x hx => hm x (by omega)) ?_ (fun hq => by cases hq)
    exact (readNat_congr (fun x h1 h2 => hm x (by omega))).trans H2.field
  have hfield' : readNat h'.mem (B.addr + 4) 4 = B.addr + B.size - B.addr + p.toNat := by
    rw [hsize]
    exact (readNat_congr (fun x h1 h2 => hm x (by omega))).trans hfield
  have H4 := H3.use (by omega) hfield'
  rw [hsize] at H4
  refine ⟨_, ⟨B.addr, B.size, readBytes h'.mem (B.addr + 8) (B.size - 4)⟩, H4.join, rfl, rfl, rfl, ?_⟩
  rw [usedOf_append H4.segFront, usedOf, hhead.hBottom]
  dsimp only
  refine (List.Perm.cons B List.perm_middle).trans ((List.Perm.swap _ _ _).trans (List.Perm.cons _ hperm.symm))

end Dtc
