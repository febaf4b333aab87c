import DtcServer.EmptyFilter
import DtcServer.Memory
import Mathlib.Data.List.Nodup
/-!
# LruBit — the bitmap of changed nodes (`lru_bit_t`, `CLruBitObj`)

A node id is a bit of a block of 2^21; every 64 bits of a block have one bit of the index, which the scan looks at first.
Blocks are allocated when an id in them is set.
-/
namespace Dtc

open Memory

def idxSize : Nat := 4096

def bblkOff (v : UInt32) : Nat := v.toNat >>> 21

def idxByteOff (v : UInt32) : Nat := (v.toNat >>> 9) &&& 0xFFF

def idxByteShift (v : UInt32) : Nat := (v.toNat >>> 6) &&& 7

def blkByteOff (v : UInt32) : Nat := (v.toNat >>> 3) &&& 0x3FFFF

def blkByteShift (v : UInt32) : Nat := v.toNat &&& 7

structure LruBit where
  idx : Mem := fun _ => 0
  blk : Mem := fun _ => 0

namespace LruBit

/-- `lru_bit_t::set`, with whether the bit was there. -/
def set (p : LruBit) (v : UInt32) (b : Bool) : LruBit × Bool :=
  if b then
    if issetB (p.blk (blkByteOff v)) (blkByteShift v) then (p, true)
    else
      ({ idx := Function.update p.idx (idxByteOff v) (setB (p.idx (idxByteOff v)) (idxByteShift v))
         blk := Function.update p.blk (blkByteOff v) (setB (p.blk (blkByteOff v)) (blkByteShift v)) }, false)
  else ({ p with blk := Function.update p.blk (blkByteOff v) (clrB (p.blk (blkByteOff v)) (blkByteShift v)) }, false)

/-- `lru_bit_t::clear`: an index byte and its 64 bytes. -/
def clear (p : LruBit) (idxOff : Nat) : LruBit where
  idx := Function.update p.idx idxOff 0
  blk := fun a => if idxOff <<< 6 ≤ a ∧ a < (idxOff <<< 6) + 64 then 0 else p.blk a

/-- `lru_bit_t::read`: 8 bytes of the block, if the index has them. -/
def read (p : LruBit) (idxOff idxShift : Nat) : Nat :=
  if issetB (p.idx idxOff) idxShift then readNat p.blk (8 * ((idxOff <<< 3) + idxShift)) 8 else 0

/-- The loop over `n` bits of a word that was shifted `i` times: where its bits are. -/
def ones : Nat → Nat → Nat → List Nat
  | 0, _, _ => []
  | n + 1, i, v => if v &&& 1 = 1 then i :: ones n (i + 1) (v >>> 1) else ones n (i + 1) (v >>> 1)

/-- The ids that one index byte leads to, in the order they are written. -/
def found (p : LruBit) (lruBit idxOff : Nat) : List UInt32 :=
  (List.range 8).flatMap fun j =>
    if p.read idxOff j = 0 then []
    else (ones 64 0 (p.read idxOff j)).map fun i =>
      UInt32.ofNat ((lruBit <<< 21) + (idxOff <<< 9) + (j <<< 6) + i)

def Has (p : LruBit) (v : UInt32) : Prop := issetB (p.blk (blkByteOff v)) (blkByteShift v) = true

def Wf (p : LruBit) : Prop := ∀ v, p.Has v → issetB (p.idx (idxByteOff v)) (idxByteShift v) = true

end LruBit

/-- `CLruBitObj`; `written` are the ids given to `_lru_writer`. -/
structure CLruBitObj where
  lruBits : Nat → Option LruBit := fun _ => none
  maxLruBit : Nat := 0
  scanLruBit : Nat := 0
  scanIdxOff : Nat := 0
  scanStopUntil : Nat
  written : List UInt32 := []

/-- A call of `SetNodeID`; `got` says whether a block is there to be allocated. -/
structure SetCall where
  v : UInt32
  b : Bool
  got : Bool := true
  deriving DecidableEq, Repr

namespace CLruBitObj

def setNodeID (s : CLruBitObj) (c : SetCall) : CLruBitObj × Int :=
  match s.lruBits (bblkOff c.v) with
  | none =>
    if c.got then (put s {}, 0) else (s, -1)
  | some p => (put s p, 0)
where
  put (s : CLruBitObj) (p : LruBit) : CLruBitObj :=
    { s with
      lruBits := Function.update s.lruBits (bblkOff c.v) (some (p.set c.v c.b).1)
      maxLruBit := if s.maxLruBit < bblkOff c.v then bblkOff c.v else s.maxLruBit }

/-- One index byte of the block `p`, scanned. -/
def scanByte (s : CLruBitObj) (p : LruBit) : CLruBitObj :=
  let ids := p.found s.scanLruBit s.scanIdxOff
  { s with
    written := s.written ++ ids
    lruBits :=
      if 0 < ids.length then Function.update s.lruBits s.scanLruBit (some (p.clear s.scanIdxOff)) else s.lruBits
    scanIdxOff := s.scanIdxOff + 1 }

/-- The loop of `Scan` over the index bytes left, with whether it ran to the end of the block. -/
def scanLoop : Nat → Nat → CLruBitObj → CLruBitObj × Bool
  | 0, _, s => (s, true)
  | n + 1, foundId, s =>
    match s.lruBits s.scanLruBit with
    | none => (s, false)
    | some p =>
      let foundId := foundId + (p.found s.scanLruBit s.scanIdxOff).length
      if s.scanStopUntil ≤ foundId then (s.scanByte p, false) else scanLoop n foundId (s.scanByte p)

def nextBlock (s : CLruBitObj) : CLruBitObj :=
  if s.maxLruBit < s.scanLruBit + 1 then { s with scanIdxOff := 0, scanLruBit := 0 }
  else { s with scanIdxOff := 0, scanLruBit := s.scanLruBit + 1 }

def scan (s : CLruBitObj) : CLruBitObj :=
  match s.lruBits s.scanLruBit with
  | none => s
  | some _ =>
    match scanLoop (idxSize - s.scanIdxOff) 0 s with
    | (s, false) => s
    | (s, true) => s.nextBlock

/-- The calls on the object; `Scan` is the timer's. -/
inductive Call where
  | setNodeID (c : SetCall)
  | scan
  deriving DecidableEq, Repr

def call (s : CLruBitObj) : Call → CLruBitObj
  | .setNodeID c => (s.setNodeID c).1
  | .scan => s.scan

def calls (s : CLruBitObj) (cs : List Call) : CLruBitObj := cs.foldl call s

def Has (s : CLruBitObj) (v : UInt32) : Prop := ∃ p, s.lruBits (bblkOff v) = some p ∧ p.Has v

end CLruBitObj

/-! ## The parts of an id -/

theorem bblkOff_eq (v : UInt32) : bblkOff v = v.toNat / 2097152 := Nat.shiftRight_eq_div_pow _ 21

theorem idxByteOff_eq (v : UInt32) : idxByteOff v = v.toNat / 512 % 4096 := by
  rw [idxByteOff, Nat.shiftRight_eq_div_pow]
  exact Nat.and_two_pow_sub_one_eq_mod _ 12

theorem idxByteShift_eq (v : UInt32) : idxByteShift v = v.toNat / 64 % 8 := by
  rw [idxByteShift, Nat.shiftRight_eq_div_pow]
  exact Nat.and_two_pow_sub_one_eq_mod _ 3

theorem blkByteOff_eq (v : UInt32) : blkByteOff v = v.toNat / 8 % 262144 := by
  rw [blkByteOff, Nat.shiftRight_eq_div_pow]
  exact Nat.and_two_pow_sub_one_eq_mod _ 18

theorem blkByteShift_eq (v : UInt32) : blkByteShift v = v.toNat % 8 := Nat.and_two_pow_sub_one_eq_mod _ 3

theorem bblkOff_lt (v : UInt32) : bblkOff v < 2048 := by
  have := v.toNat_lt
  rw [bblkOff_eq]
  omega

theorem idxByteOff_lt (v : UInt32) : idxByteOff v < 4096 := by
  rw [idxByteOff_eq]
  omega

theorem idxByteShift_lt (v : UInt32) : idxByteShift v < 8 := by
  rw [idxByteShift_eq]
  omega

theorem blkByteShift_lt (v : UInt32) : blkByteShift v < 8 := by
  rw [blkByteShift_eq]
  omega

theorem eq_of_bit {v w : UInt32} (hblk : bblkOff v = bblkOff w) (hoff : blkByteOff v = blkByteOff w)
    (hshift : blkByteShift v = blkByteShift w) : v = w := by
  rw [bblkOff_eq, bblkOff_eq] at hblk
  rw [blkByteOff_eq, blkByteOff_eq] at hoff
  rw [blkByteShift_eq, blkByteShift_eq] at hshift
  apply UInt32.toNat_inj.mp
  omega

theorem toNat_scanned {lruBit idxOff j i : Nat} (hb : lruBit < 2048) (ho : idxOff < 4096) (hj : j < 8) (hi : i < 64) :
    (UInt32.ofNat ((lruBit <<< 21) + (idxOff <<< 9) + (j <<< 6) + i)).toNat =
      lruBit * 2097152 + idxOff * 512 + j * 64 + i := by
  rw [Nat.shiftLeft_eq, Nat.shiftLeft_eq, Nat.shiftLeft_eq, UInt32.toNat_ofNat']
  omega

/-! ## Blocks -/

theorem testBit_readNat (m : Mem) : ∀ (n a i : Nat), i < 8 * n →
    (readNat m a n).testBit i = issetB (m (a + i / 8)) (i % 8)
  | 0, _, _, hi => absurd hi (Nat.not_lt_zero _)
  | n + 1, a, i, hi => by
    have hread : readNat m a (n + 1) = 2 ^ 8 * readNat m (a + 1) n + (m a).toNat := by
      rw [readNat, readBytes, Bytes.leNat]
      exact Nat.add_comm _ _
    rw [hread, Nat.testBit_two_pow_mul_add _ (m a).toNat_lt]
    split
    · next hlow =>
      rw [Nat.div_eq_of_lt hlow, Nat.mod_eq_of_lt hlow, issetB_eq _ hlow]
      rfl
    · next hhigh =>
      have hdiv : a + 1 + (i - 8) / 8 = a + i / 8 := by omega
      have hmod : (i - 8) % 8 = i % 8 := by omega
      rw [testBit_readNat m n (a + 1) (i - 8) (by omega), hdiv, hmod]

namespace LruBit

variable {p : LruBit} {v w : UInt32}

theorem has_set (v w : UInt32) (b : Bool) :
    (p.set v b).1.Has w ↔
      if blkByteOff w = blkByteOff v ∧ blkByteShift w = blkByteShift v then b = true else p.Has w := by
  have hset : ∀ f : UInt8 → Nat → UInt8, ∀ d : Bool,
      (∀ c m, m < 8 → issetB (f c (blkByteShift v)) m = if m = blkByteShift v then d else issetB c m) →
      (issetB (Function.update p.blk (blkByteOff v) (f (p.blk (blkByteOff v)) (blkByteShift v)) (blkByteOff w))
        (blkByteShift w) = true ↔
        if blkByteOff w = blkByteOff v ∧ blkByteShift w = blkByteShift v then d = true else p.Has w) := by
    intro f d hf
    by_cases hoff : blkByteOff w = blkByteOff v
    · rw [hoff, Function.update_self, hf _ _ (blkByteShift_lt w)]
      by_cases hshift : blkByteShift w = blkByteShift v
      · rw [if_pos hshift, if_pos ⟨rfl, hshift⟩]
      · rw [if_neg hshift, if_neg (fun h => hshift h.2), ← hoff]
        rfl
    · rw [Function.update_of_ne hoff, if_neg (fun h => hoff h.1)]
      rfl
  unfold LruBit.set
  cases b with
  | true =>
    rw [if_pos rfl]
    split
    · next hhit =>
      by_cases hw : blkByteOff w = blkByteOff v ∧ blkByteShift w = blkByteShift v
      · rw [if_pos hw]
        refine iff_of_true ?_ rfl
        rwa [Has, hw.1, hw.2]
      · rw [if_neg hw]
    · refine hset setB true (fun c m hm => ?_)
      rw [issetB_setB c hm (blkByteShift_lt v)]
      split
      · next h => rw [decide_eq_true h, Bool.or_true]
      · next h => rw [decide_eq_false h, Bool.or_false]
  | false =>
    rw [if_neg (by decide)]
    refine hset clrB false (fun c m hm => ?_)
    rw [issetB_clrB c hm (blkByteShift_lt v)]
    split
    · next h => rw [decide_eq_false (not_not.mpr h), Bool.and_false]
    · next h => rw [decide_eq_true h, Bool.and_true]

theorem issetB_zero (v : UInt32) : ¬ issetB 0 (blkByteShift v) = true := by
  rw [issetB_eq _ (blkByteShift_lt v)]
  exact Bool.not_eq_true _ ▸ BitVec.getLsbD_zero

theorem wf_empty : Wf {} := fun v h => absurd h (issetB_zero v)

theorem issetB_idx_set (v : UInt32) (b : Bool) {off shift : Nat} (hshift : shift < 8)
    (h : issetB (p.idx off) shift = true) : issetB ((p.set v b).1.idx off) shift = true := by
  unfold LruBit.set
  split
  · split
    · exact h
    · by_cases hoff : off = idxByteOff v
      · subst hoff
        dsimp only
        rw [Function.update_self, issetB_setB _ hshift (idxByteShift_lt v), h, Bool.true_or]
      · dsimp only
        rwa [Function.update_of_ne hoff]
  · exact h

theorem Wf.set (hwf : p.Wf) (v : UInt32) (b : Bool) : (p.set v b).1.Wf := by
  intro w hw
  by_cases hold : p.Has w
  · exact issetB_idx_set v b (idxByteShift_lt w) (hwf w hold)
  · -- the bit is the one that was set, and the index bit was set with it
    rw [has_set] at hw
    split at hw
    · next hsame =>
      subst hw
      have hoff : idxByteOff w = idxByteOff v := by
        have := hsame.1
        rw [blkByteOff_eq, blkByteOff_eq] at this
        rw [idxByteOff_eq, idxByteOff_eq]
        omega
      have hshift : idxByteShift w = idxByteShift v := by
        have := hsame.1
        rw [blkByteOff_eq, blkByteOff_eq] at this
        rw [idxByteShift_eq, idxByteShift_eq]
        omega
      have hmiss : ¬ issetB (p.blk (blkByteOff v)) (blkByteShift v) = true := by
        rw [← hsame.1, ← hsame.2]
        exact hold
      rw [LruBit.set, if_pos rfl, if_neg hmiss, hoff, hshift]
      dsimp only
      rw [Function.update_self, issetB_setB _ (idxByteShift_lt v) (idxByteShift_lt v), decide_eq_true rfl, Bool.or_true]
    · exact absurd hw hold

theorem testBit_read (hwf : p.Wf) (v : UInt32) :
    (p.read (idxByteOff v) (idxByteShift v)).testBit (v.toNat % 64) = true ↔ p.Has v := by
  have hword : (readNat p.blk (8 * ((idxByteOff v <<< 3) + idxByteShift v)) 8).testBit (v.toNat % 64) = true ↔ p.Has v := by
    have hbyte : 8 * ((idxByteOff v <<< 3) + idxByteShift v) + v.toNat % 64 / 8 = blkByteOff v := by
      rw [Nat.shiftLeft_eq, idxByteOff_eq, idxByteShift_eq, blkByteOff_eq]
      omega
    have hbit : v.toNat % 64 % 8 = blkByteShift v := by
      rw [blkByteShift_eq]
      omega
    rw [testBit_readNat p.blk 8 _ _ (Nat.mod_lt _ (by decide)), hbyte, hbit]
    rfl
  unfold read
  split
  · exact hword
  · next hidx =>
    rw [Nat.zero_testBit]
    exact iff_of_false Bool.false_ne_true (fun h => hidx (hwf v h))

theorem mem_ones {k : Nat} : ∀ {n i v : Nat}, k ∈ ones n i v ↔ i ≤ k ∧ k < i + n ∧ v.testBit (k - i) = true
  | 0, i, v => iff_of_false List.not_mem_nil (fun h => by omega)
  | n + 1, i, v => by
    have hcons : i + 1 ≤ k ∧ k < i + 1 + n ∧ (v >>> 1).testBit (k - (i + 1)) = true ↔
        k ≠ i ∧ i ≤ k ∧ k < i + (n + 1) ∧ v.testBit (k - i) = true := by
      rw [Nat.testBit_shiftRight]
      constructor
      · rintro ⟨hle, hlt, hbit⟩
        rw [show 1 + (k - (i + 1)) = k - i by omega] at hbit
        exact ⟨by omega, by omega, by omega, hbit⟩
      · rintro ⟨hne, hle, hlt, hbit⟩
        refine ⟨by omega, by omega, ?_⟩
        rwa [show 1 + (k - (i + 1)) = k - i by omega]
    have hhead : v &&& 1 = 1 ↔ v.testBit 0 = true := by
      rw [Nat.and_one_is_mod, Nat.testBit_zero, decide_eq_true_iff]
    unfold ones
    split
    · next h1 =>
      rw [List.mem_cons, mem_ones, hcons]
      constructor
      · rintro (rfl | h)
        · exact ⟨Nat.le_refl _, by omega, by rw [Nat.sub_self]; exact hhead.mp h1⟩
        · exact h.2
      · intro h
        by_cases hk : k = i
        · exact .inl hk
        · exact .inr ⟨hk, h⟩
    · next h0 =>
      rw [mem_ones, hcons]
      constructor
      · exact fun h => h.2
      · rintro h
        refine ⟨fun hk => h0 (hhead.mpr ?_), h⟩
        have hbit := h.2.2
        rwa [hk, Nat.sub_self] at hbit

theorem nodup_ones : ∀ (n i v : Nat), (ones n i v).Nodup
  | 0, _, _ => List.nodup_nil
  | n + 1, i, v => by
    unfold ones
    split
    · refine List.nodup_cons.mpr ⟨fun h => ?_, nodup_ones n (i + 1) (v >>> 1)⟩
      have := (mem_ones.mp h).1
      omega
    · exact nodup_ones n (i + 1) (v >>> 1)

theorem mem_found (hwf : p.Wf) {lruBit idxOff : Nat} (hb : lruBit < 2048) (ho : idxOff < 4096) :
    v ∈ p.found lruBit idxOff ↔ bblkOff v = lruBit ∧ idxByteOff v = idxOff ∧ p.Has v := by
  have hword : ∀ j i, v = UInt32.ofNat ((lruBit <<< 21) + (idxOff <<< 9) + (j <<< 6) + i) → j < 8 → i < 64 →
      bblkOff v = lruBit ∧ idxByteOff v = idxOff ∧ idxByteShift v = j ∧ v.toNat % 64 = i := by
    intro j i hv hj hi
    have hnat := toNat_scanned hb ho hj hi
    rw [← hv] at hnat
    rw [bblkOff_eq, idxByteOff_eq, idxByteShift_eq]
    omega
  unfold found
  rw [List.mem_flatMap]
  constructor
  · rintro ⟨j, hj, hv⟩
    rw [List.mem_range] at hj
    split at hv
    · exact absurd hv List.not_mem_nil
    · obtain ⟨i, hi, rfl⟩ := List.mem_map.mp hv
      obtain ⟨-, hlt, hbit⟩ := mem_ones.mp hi
      obtain ⟨hblk, hoff, hshift, hrem⟩ := hword j i rfl hj (by omega)
      refine ⟨hblk, hoff, (testBit_read hwf _).mp ?_⟩
      rw [hoff, hshift, hrem]
      exact hbit
  · rintro ⟨hblk, hoff, hhas⟩
    have hbit := (testBit_read hwf v).mpr hhas
    rw [hoff] at hbit
    refine ⟨idxByteShift v, List.mem_range.mpr (idxByteShift_lt v), ?_⟩
    rw [if_neg (fun h0 => by rw [h0, Nat.zero_testBit] at hbit; exact Bool.false_ne_true hbit)]
    have hlt : v.toNat % 64 < 64 := Nat.mod_lt _ (by decide)
    refine List.mem_map.mpr ⟨v.toNat % 64, mem_ones.mpr ⟨Nat.zero_le _, by omega, hbit⟩, ?_⟩
    apply UInt32.toNat_inj.mp
    rw [toNat_scanned hb ho (idxByteShift_lt v) hlt, ← hblk, ← hoff, bblkOff_eq, idxByteOff_eq, idxByteShift_eq]
    omega

theorem nodup_found (p : LruBit) {lruBit idxOff : Nat} (hb : lruBit < 2048) (ho : idxOff < 4096) :
    (p.found lruBit idxOff).Nodup := by
  have hinj : ∀ {j i j' i'}, j < 8 → i < 64 → j' < 8 → i' < 64 →
      UInt32.ofNat ((lruBit <<< 21) + (idxOff <<< 9) + (j <<< 6) + i) =
        UInt32.ofNat ((lruBit <<< 21) + (idxOff <<< 9) + (j' <<< 6) + i') → j = j' ∧ i = i' := by
    intro j i j' i' hj hi hj' hi' heq
    have hnat := congrArg UInt32.toNat heq
    rw [toNat_scanned hb ho hj hi, toNat_scanned hb ho hj' hi'] at hnat
    omega
  refine List.nodup_flatMap.mpr ⟨fun j hj => ?_, List.nodup_range.imp_of_mem fun {j j'} hj hj' hne => ?_⟩
  · rw [List.mem_range] at hj
    split
    · exact List.nodup_nil
    · refine (nodup_ones _ _ _).map_on fun i hi i' hi' heq => ?_
      have := (mem_ones.mp hi).2.1
      have := (mem_ones.mp hi').2.1
      exact (hinj hj (by omega) hj (by omega) heq).2
  · rw [List.mem_range] at hj hj'
    intro w hw hw'
    dsimp only at hw hw'
    split at hw
    · exact absurd hw List.not_mem_nil
    split at hw'
    · exact absurd hw' List.not_mem_nil
    obtain ⟨i, hi, rfl⟩ := List.mem_map.mp hw
    obtain ⟨i', hi', heq⟩ := List.mem_map.mp hw'
    have := (mem_ones.mp hi).2.1
    have := (mem_ones.mp hi').2.1
    exact hne (hinj hj' (by omega) hj (by omega) heq).1.symm

theorem has_clear {idxOff : Nat} : (p.clear idxOff).Has v ↔ idxByteOff v ≠ idxOff ∧ p.Has v := by
  have hbyte : idxOff <<< 6 ≤ blkByteOff v ∧ blkByteOff v < (idxOff <<< 6) + 64 ↔ idxByteOff v = idxOff := by
    rw [Nat.shiftLeft_eq, blkByteOff_eq, idxByteOff_eq]
    omega
  unfold Has LruBit.clear
  dsimp only
  split
  · next hin => exact iff_of_false (issetB_zero v) (fun h => h.1 (hbyte.mp hin))
  · next hout => exact ⟨fun h => ⟨fun hoff => hout (hbyte.mpr hoff), h⟩, fun h => h.2⟩

theorem Wf.clear (hwf : p.Wf) (idxOff : Nat) : (p.clear idxOff).Wf := by
  intro v hv
  obtain ⟨hoff, hv⟩ := has_clear.mp hv
  rw [LruBit.clear]
  dsimp only
  rw [Function.update_of_ne hoff]
  exact hwf v hv

end LruBit

end Dtc
