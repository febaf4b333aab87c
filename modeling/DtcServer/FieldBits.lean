import DtcServer.FieldUpdate
import DtcServer.Bits
/-!
# FieldBits — the bits that `SetBits` sets, in integers and in texts

The operand has an offset, a size of at most 32 and the bits to be set.  An integer is one of 64 bits here, whatever the
size of its field; a text has its bits in its bytes, the lowest first.
-/
namespace Dtc

def BitAddressed (u : BitVec 64) (i : Nat) : Prop := bitsOffset u ≤ i ∧ i < bitsOffset u + min (bitsSize u) 32

instance (u : BitVec 64) (i : Nat) : Decidable (BitAddressed u i) := inferInstanceAs (Decidable (_ ∧ _))

def addressedBit (u : BitVec 64) (i : Nat) : Bool := (bitsValue u).getLsbD (i - bitsOffset u)

/-- **Exactly the addressed bits are set**, of the first `n`. -/
def SetsBits (u : BitVec 64) (n : Nat) (old new : Nat → Bool) : Prop :=
  ∀ i < n, new i = if BitAddressed u i then addressedBit u i else old i

def textBit (bytes : List UInt8) (i : Nat) : Bool := (bytes.getD (i / 8) 0).toBitVec.getLsbD (i % 8)

/-! ## Integers -/

theorem getLsbD_setBitsInt (v u : BitVec 64) {i : Nat} (hi : i < 64) :
    (setBitsInt v u).getLsbD i = if BitAddressed u i then addressedBit u i else v.getLsbD i := by
  unfold setBitsInt
  dsimp only
  split
  · next hnone =>
    have hnot : ¬ BitAddressed u i := by
      unfold BitAddressed
      omega
    rw [if_neg hnot]
  next hsome =>
  have hmask : decide (bitsOffset u ≤ i ∧ i < bitsOffset u + min (min (bitsSize u) 32) (64 - bitsOffset u)) =
      decide (BitAddressed u i) := by
    apply decide_eq_decide.mpr
    unfold BitAddressed
    omega
  rw [BitVec.getLsbD_or, BitVec.getLsbD_and, BitVec.getLsbD_and, BitVec.getLsbD_not, Bits.getLsbD_mask, hmask,
    BitVec.getLsbD_shiftLeft, BitVec.getLsbD_setWidth]
  by_cases haddr : BitAddressed u i
  · have hlow : i - bitsOffset u < 64 := by omega
    have hnot : ¬ i < bitsOffset u := Nat.not_lt.mpr haddr.1
    simp [addressedBit, haddr, hi, hlow, hnot]
  · simp [haddr, hi]

/-! ## The width of a field in bits -/

theorem inField_unsigned {n : Nat} (v : BitVec 64) :
    InField .unsigned n (fieldInt .unsigned v) ↔ ∀ i, 8 * n ≤ i → i < 64 → v.getLsbD i = false := by
  have hrange : InField .unsigned n (fieldInt .unsigned v) ↔ v.toNat < 2 ^ (8 * n) := by
    have hpos : 0 < 2 ^ (8 * n) := Nat.two_pow_pos _
    have hmax : fieldMax .unsigned n = ((2 ^ (8 * n) : Nat) : Int) - 1 := by
      rw [Nat.cast_pow]
      rfl
    rw [InField, hmax]
    show (0 : Int) ≤ (v.toNat : Int) ∧ (v.toNat : Int) ≤ _ ↔ _
    omega
  rw [hrange]
  constructor
  · intro h i hi _
    rw [BitVec.getLsbD]
    exact Nat.testBit_lt_two_pow (Nat.lt_of_lt_of_le h (Nat.pow_le_pow_right (by decide) hi))
  · intro h
    apply Nat.lt_pow_two_of_testBit
    intro i hi
    by_cases h64 : i < 64
    · exact h i hi h64
    · exact BitVec.getLsbD_of_ge v i (by omega)

theorem inField_signed {n : Nat} (h1 : 1 ≤ n) (h8 : n ≤ 8) (v : BitVec 64) :
    InField .signed n (fieldInt .signed v) ↔ ∀ i, 8 * n ≤ i → i < 64 → v.getLsbD i = v.getLsbD (8 * n - 1) := by
  have hrange : InField .signed n (fieldInt .signed v) ↔ -2 ^ (8 * n - 1) ≤ v.toInt ∧ v.toInt < 2 ^ (8 * n - 1) := by
    show -2 ^ (8 * n - 1) ≤ v.toInt ∧ v.toInt ≤ 2 ^ (8 * n - 1) - 1 ↔ _
    omega
  have hextend : (∀ i, 8 * n ≤ i → i < 64 → v.getLsbD i = v.getLsbD (8 * n - 1)) ↔
      (v.setWidth (8 * n)).signExtend 64 = v := by
    have hlast : 8 * n - 1 < 8 * n := by omega
    have hbit : ∀ i < 64, ((v.setWidth (8 * n)).signExtend 64).getLsbD i =
        if i < 8 * n then v.getLsbD i else v.getLsbD (8 * n - 1) := by
      intro i hi
      rw [BitVec.getLsbD_signExtend, BitVec.msb_eq_getLsbD_last, BitVec.getLsbD_setWidth, BitVec.getLsbD_setWidth]
      by_cases hlow : i < 8 * n
      · simp only [hi, hlow, decide_true, Bool.true_and, if_true]
      · simp only [hi, hlow, hlast, decide_true, Bool.true_and, if_false]
    constructor
    · intro h
      apply BitVec.eq_of_getLsbD_eq
      intro i hi
      rw [hbit i hi]
      split
      · rfl
      · next hlow => exact (h i (by omega) hi).symm
    · intro h i hlow hi
      have hi' := hbit i hi
      rw [h, if_neg (Nat.not_lt.mpr hlow)] at hi'
      exact hi'
  rw [hrange, hextend]
  constructor
  · rintro ⟨hlo, hhi⟩
    apply BitVec.eq_of_toInt_eq
    rw [BitVec.toInt_signExtend_of_le (by omega), BitVec.toInt_setWidth]
    have hnat := BitVec.toInt_eq_toNat_cond v
    have hlt := v.isLt
    rw [Int.bmod_def]
    interval_cases n <;> norm_num at * <;> split_ifs at * <;> omega
  · intro h
    rw [← h, BitVec.toInt_signExtend_of_le (by omega)]
    exact ⟨BitVec.le_toInt _, BitVec.toInt_lt⟩

/-! ## Texts -/

theorem getLsbD_setBit (byte : UInt8) {k : Nat} (hk : k < 8) (m : Nat) :
    (byte ||| (1 : UInt8) <<< UInt8.ofNat k).toBitVec.getLsbD m = (byte.toBitVec.getLsbD m || decide (m = k)) := by
  rw [UInt8.toBitVec_or, Bits.toBitVec_oneBit hk, Bits.getLsbD_set hk]

theorem getLsbD_clearBit (byte : UInt8) {k : Nat} (hk : k < 8) (m : Nat) :
    (byte &&& ~~~((1 : UInt8) <<< UInt8.ofNat k)).toBitVec.getLsbD m = (byte.toBitVec.getLsbD m && decide (m ≠ k)) := by
  rw [UInt8.toBitVec_and, UInt8.toBitVec_not, Bits.toBitVec_oneBit hk, Bits.getLsbD_clear hk]

@[simp] theorem putBit_length (bytes : List UInt8) (i : Nat) (b : Bool) : (putBit bytes i b).length = bytes.length :=
  List.length_modify ..

theorem textBit_putBit {bytes : List UInt8} {j : Nat} (hj : j < 8 * bytes.length) (b : Bool) (i : Nat) :
    textBit (putBit bytes j b) i = if i = j then b else textBit bytes i := by
  unfold textBit putBit
  rw [List.getD_eq_getElem?_getD, List.getD_eq_getElem?_getD, List.getElem?_modify]
  by_cases hbyte : j / 8 = i / 8
  · have hlt : i / 8 < bytes.length := by omega
    have hk : j % 8 < 8 := Nat.mod_lt _ (by decide)
    have hm : i % 8 < 8 := Nat.mod_lt _ (by decide)
    have hsame : i % 8 = j % 8 ↔ i = j := by omega
    simp only [if_pos hbyte, List.getElem?_eq_getElem hlt, Option.map_eq_map, Option.map_some, Option.getD_some]
    cases b with
    | true =>
      rw [if_pos rfl, getLsbD_setBit _ hk]
      by_cases hij : i = j <;> simp [hsame, hij]
    | false =>
      rw [if_neg Bool.false_ne_true, getLsbD_clearBit _ hk]
      by_cases hij : i = j <;> simp [hsame, hij]
  · have hij : i ≠ j := fun h => hbyte (by rw [h])
    simp [hbyte, hij]

theorem textBit_putBits : ∀ (size : Nat) (bytes : List UInt8) (off : Nat) (value : BitVec 32),
    off + size ≤ 8 * bytes.length →
    (putBits size bytes off value).length = bytes.length ∧
      ∀ i, textBit (putBits size bytes off value) i =
        if off ≤ i ∧ i < off + size then value.getLsbD (i - off) else textBit bytes i
  | 0, bytes, off, value, _ => ⟨rfl, fun i => by rw [if_neg (by omega)]; rfl⟩
  | size + 1, bytes, off, value, h => by
    obtain ⟨hlength, hbits⟩ := textBit_putBits size (putBit bytes off (value.getLsbD 0)) (off + 1) (value >>> 1)
      (by rw [putBit_length]; omega)
    refine ⟨hlength.trans (putBit_length ..), fun i => ?_⟩
    rw [putBits, hbits, textBit_putBit (by omega)]
    by_cases hi : i = off
    · subst hi
      rw [if_neg (by omega), if_pos rfl, if_pos (by omega), Nat.sub_self]
    · by_cases hrest : off + 1 ≤ i ∧ i < off + 1 + size
      · rw [if_pos hrest, if_pos (by omega), BitVec.getLsbD_ushiftRight]
        congr 1
        omega
      · rw [if_neg hrest, if_neg hi, if_neg (by omega)]

theorem setBitsText_bits (bytes : List UInt8) (u : BitVec 64) :
    (setBitsText bytes u).length = bytes.length ∧
      ∀ i < 8 * bytes.length, textBit (setBitsText bytes u) i =
        if bitsSize u < 128 ∧ BitAddressed u i then addressedBit u i else textBit bytes i := by
  have hsize : bitsSize u < 256 := by
    unfold bitsSize
    omega
  have hsigned : bitsSize u < 128 ∧ signedBitsSize u = bitsSize u ∨ 128 ≤ bitsSize u ∧ signedBitsSize u < 0 := by
    unfold signedBitsSize
    split <;> omega
  unfold setBitsText
  dsimp only
  generalize signedBitsSize u = z at hsigned ⊢
  split
  · next hnone =>
    refine ⟨rfl, fun i hi => ?_⟩
    have hnot : ¬ (bitsSize u < 128 ∧ BitAddressed u i) := by
      unfold BitAddressed
      omega
    rw [if_neg hnot]
  next hsome =>
  obtain ⟨hlength, hbits⟩ := textBit_putBits (min (min z 32) (8 * bytes.length - bitsOffset u)).toNat bytes (bitsOffset u)
    (bitsValue u) (by omega)
  refine ⟨hlength, fun i hi => ?_⟩
  have haddr : (bitsOffset u ≤ i ∧ i < bitsOffset u + (min (min z 32) (8 * bytes.length - bitsOffset u)).toNat) ↔
      bitsSize u < 128 ∧ BitAddressed u i := by
    unfold BitAddressed
    omega
  rw [hbits]
  by_cases h : bitsSize u < 128 ∧ BitAddressed u i
  · rw [if_pos (haddr.mpr h), if_pos h]
    rfl
  · rw [if_neg (fun h' => h (haddr.mp h')), if_neg h]

/-! ## When the bits are set right -/

/-- When setting bits leaves an integer in the range of its field.  Of an unsigned one no bit beyond the width may be set.
Of a signed one the bits that are set from the sign bit on must be alike, and like its sign, but where all of them are
set. -/
def IntBitsMeet (type : FieldType) (size : Nat) (v u : BitVec 64) : Prop :=
  if type = .signed then
    ∃ s : Bool, (∀ i, 8 * size - 1 ≤ i → i < 64 → BitAddressed u i → addressedBit u i = s) ∧
      ((∀ i, 8 * size - 1 ≤ i → i < 64 → BitAddressed u i) ∨ s = v.msb)
  else ∀ i, 8 * size ≤ i → i < 64 → BitAddressed u i → addressedBit u i = false

/-- When the bits of a text are set: the size is not a negative number, or they are as they should be. -/
def TextBitsMeet (bytes : List UInt8) (u : BitVec 64) : Prop :=
  bitsSize u < 128 ∨ ∀ i < 8 * bytes.length, BitAddressed u i → textBit bytes i = addressedBit u i

theorem setBitsInt_setsBits (v u : BitVec 64) {n : Nat} (hn : n ≤ 64) :
    SetsBits u n v.getLsbD (setBitsInt v u).getLsbD :=
  fun i hi => getLsbD_setBitsInt v u (by omega)

theorem setBitsInt_inField_unsigned {size : Nat} {v u : BitVec 64} (hv : InField .unsigned size (fieldInt .unsigned v)) :
    InField .unsigned size (fieldInt .unsigned (setBitsInt v u)) ↔ IntBitsMeet .unsigned size v u := by
  rw [inField_unsigned] at hv ⊢
  rw [IntBitsMeet, if_neg (by decide)]
  constructor
  · intro h i hlow hi haddr
    have hbit := h i hlow hi
    rw [getLsbD_setBitsInt v u hi, if_pos haddr] at hbit
    exact hbit
  · intro h i hlow hi
    rw [getLsbD_setBitsInt v u hi]
    split
    · next haddr => exact h i hlow hi haddr
    · exact hv i hlow hi

theorem setBitsInt_inField_signed {size : Nat} (h1 : 1 ≤ size) (h8 : size ≤ 8) {v u : BitVec 64}
    (hv : InField .signed size (fieldInt .signed v)) :
    InField .signed size (fieldInt .signed (setBitsInt v u)) ↔ IntBitsMeet .signed size v u := by
  rw [inField_signed h1 h8] at hv ⊢
  rw [IntBitsMeet, if_pos rfl]
  -- in range all bits from the sign bit on are the number's sign
  have hold : ∀ i, 8 * size - 1 ≤ i → i < 64 → v.getLsbD i = v.msb := by
    have hsign : ∀ i, 8 * size - 1 ≤ i → i < 64 → v.getLsbD i = v.getLsbD (8 * size - 1) := by
      intro i hlow hi
      by_cases h : 8 * size ≤ i
      · exact hv i h hi
      · rw [show i = 8 * size - 1 by omega]
    intro i hlow hi
    rw [BitVec.msb_eq_getLsbD_last, hsign i hlow hi, hsign (64 - 1) (by omega) (by decide)]
  constructor
  · intro h
    have hnew : ∀ i, 8 * size - 1 ≤ i → i < 64 →
        (setBitsInt v u).getLsbD i = (setBitsInt v u).getLsbD (8 * size - 1) := by
      intro i hlow hi
      by_cases h' : 8 * size ≤ i
      · exact h i h' hi
      · rw [show i = 8 * size - 1 by omega]
    refine ⟨(setBitsInt v u).getLsbD (8 * size - 1), fun i hlow hi haddr => ?_, ?_⟩
    · rw [← hnew i hlow hi, getLsbD_setBitsInt v u hi, if_pos haddr]
    · by_cases hall : ∀ i, 8 * size - 1 ≤ i → i < 64 → BitAddressed u i
      · exact Or.inl hall
      · right
        push Not at hall
        obtain ⟨i, hlow, hi, hnot⟩ := hall
        rw [← hnew i hlow hi, getLsbD_setBitsInt v u hi, if_neg hnot, hold i hlow hi]
  · rintro ⟨s, hset, hrest⟩
    have hnew : ∀ i, 8 * size - 1 ≤ i → i < 64 → (setBitsInt v u).getLsbD i = s := by
      intro i hlow hi
      rw [getLsbD_setBitsInt v u hi]
      split
      · next haddr => exact hset i hlow hi haddr
      · next hnot =>
        have hs := hrest.resolve_left (fun hall => hnot (hall i hlow hi))
        rw [hs, hold i hlow hi]
    intro i hlow hi
    rw [hnew i (by omega) hi, hnew (8 * size - 1) (by omega) (by omega)]

theorem setBitsText_setsBits_iff (bytes : List UInt8) (u : BitVec 64) :
    SetsBits u (8 * bytes.length) (textBit bytes) (textBit (setBitsText bytes u)) ↔ TextBitsMeet bytes u := by
  obtain ⟨-, hbits⟩ := setBitsText_bits bytes u
  unfold TextBitsMeet
  by_cases hsize : bitsSize u < 128
  · refine ⟨fun _ => Or.inl hsize, fun _ i hi => ?_⟩
    rw [hbits i hi]
    by_cases haddr : BitAddressed u i <;> simp [hsize, haddr]
  · have hkept : ∀ i < 8 * bytes.length, textBit (setBitsText bytes u) i = textBit bytes i := by
      intro i hi
      rw [hbits i hi, if_neg (fun h => hsize h.1)]
    constructor
    · intro h
      refine Or.inr fun i hi haddr => ?_
      have hbit := h i hi
      rw [hkept i hi, if_pos haddr] at hbit
      exact hbit
    · intro h i hi
      rw [hkept i hi]
      split
      · next haddr => exact h.resolve_left hsize i hi haddr
      · rfl

section Update

variable (fa : FloatArith) (tdef : TableDef) (r : Nat → DataValue) (u : BitVec 64) {vt : FieldType}

theorem updateFields_setBits_int (hvt : isIntType vt = true) {id : UInt8} {v : BitVec 64}
    (htype : isIntType (tdef.fieldType id.toNat) = true) (hr : r id.toNat = .word v) :
    updateFields fa tdef [⟨id, 2, vt.code, .word u⟩] r id.toNat = .word (setBitsInt v u) := by
  have hupdate := updateFields_one fa tdef r ⟨id, 2, vt.code, .word u⟩ rfl
  rw [hr] at hupdate
  rw [hupdate]
  generalize tdef.fieldType id.toNat = type at htype ⊢
  cases type <;> cases vt <;> first | exact absurd htype (by decide) | exact absurd hvt (by decide) | rfl

theorem updateFields_setBits_text (hvt : isIntType vt = true) {id : UInt8} {bytes : List UInt8}
    (htype : tdef.fieldType id.toNat = .string ∨ tdef.fieldType id.toNat = .binary) (hr : r id.toNat = .bin bytes) :
    updateFields fa tdef [⟨id, 2, vt.code, .word u⟩] r id.toNat = .bin (setBitsText bytes u) := by
  have hupdate := updateFields_one fa tdef r ⟨id, 2, vt.code, .word u⟩ rfl
  rw [hr] at hupdate
  rw [hupdate]
  rcases htype with h | h <;> rw [h] <;> cases vt <;> first | exact absurd hvt (by decide) | rfl

end Update

/-- **When `SetBits` sets the addressed bits and no others**: an integer always gets those of its width, and stays in its
range where `IntBitsMeet` says; a text gets them where `TextBitsMeet` says, and there it has the same bits as an integer
that had them before. -/
theorem updateFields_setBits_iff (fa : FloatArith) (tdef : TableDef) (r : Nat → DataValue) (u : BitVec 64) (vt : FieldType)
    (hvt : isIntType vt = true) :
    (∀ (id : UInt8) (v : BitVec 64), isIntType (tdef.fieldType id.toNat) = true →
      1 ≤ tdef.fieldSize id.toNat → tdef.fieldSize id.toNat ≤ 8 → r id.toNat = .word v →
      InField (tdef.fieldType id.toNat) (tdef.fieldSize id.toNat) (fieldInt (tdef.fieldType id.toNat) v) →
      ((∃ w, updateFields fa tdef [⟨id, 2, vt.code, .word u⟩] r id.toNat = .word w ∧
          SetsBits u (8 * tdef.fieldSize id.toNat) v.getLsbD w.getLsbD ∧
          InField (tdef.fieldType id.toNat) (tdef.fieldSize id.toNat) (fieldInt (tdef.fieldType id.toNat) w)) ↔
        IntBitsMeet (tdef.fieldType id.toNat) (tdef.fieldSize id.toNat) v u)) ∧
    (∀ (id : UInt8) (bytes : List UInt8), tdef.fieldType id.toNat = .string ∨ tdef.fieldType id.toNat = .binary →
      r id.toNat = .bin bytes →
      ((∃ b, updateFields fa tdef [⟨id, 2, vt.code, .word u⟩] r id.toNat = .bin b ∧ b.length = bytes.length ∧
          SetsBits u (8 * bytes.length) (textBit bytes) (textBit b)) ↔
        TextBitsMeet bytes u)) ∧
    ∀ (id id' : UInt8) (v : BitVec 64) (bytes : List UInt8), isIntType (tdef.fieldType id.toNat) = true →
      tdef.fieldType id'.toNat = .string ∨ tdef.fieldType id'.toNat = .binary → r id.toNat = .word v →
      r id'.toNat = .bin bytes → bytes.length ≤ 8 → (∀ i < 8 * bytes.length, textBit bytes i = v.getLsbD i) →
      ((∃ w b, updateFields fa tdef [⟨id, 2, vt.code, .word u⟩] r id.toNat = .word w ∧
          updateFields fa tdef [⟨id', 2, vt.code, .word u⟩] r id'.toNat = .bin b ∧
          ∀ i < 8 * bytes.length, textBit b i = w.getLsbD i) ↔
        TextBitsMeet bytes u) := by
  refine ⟨fun id v htype h1 h8 hr hv => ?_, fun id bytes htype hr => ?_,
    fun id id' v bytes htype htype' hr hr' hlen hsame => ?_⟩
  · rw [updateFields_setBits_int fa tdef r u hvt htype hr]
    have hmeet : InField (tdef.fieldType id.toNat) (tdef.fieldSize id.toNat)
        (fieldInt (tdef.fieldType id.toNat) (setBitsInt v u)) ↔
        IntBitsMeet (tdef.fieldType id.toNat) (tdef.fieldSize id.toNat) v u := by
      generalize tdef.fieldType id.toNat = type at htype hv ⊢
      cases type with
      | signed => exact setBitsInt_inField_signed h1 h8 hv
      | unsigned => exact setBitsInt_inField_unsigned hv
      | none | float | string | binary => exact absurd htype (by decide)
    rw [← hmeet]
    constructor
    · rintro ⟨w, hw, -, hfield⟩
      rw [DataValue.word.inj hw]
      exact hfield
    · exact fun hfield => ⟨_, rfl, setBitsInt_setsBits v u (by omega), hfield⟩
  · rw [updateFields_setBits_text fa tdef r u hvt htype hr, ← setBitsText_setsBits_iff]
    constructor
    · rintro ⟨b, hb, -, hbits⟩
      rw [DataValue.bin.inj hb]
      exact hbits
    · exact fun hbits => ⟨_, rfl, (setBitsText_bits bytes u).1, hbits⟩
  · rw [updateFields_setBits_int fa tdef r u hvt htype hr, updateFields_setBits_text fa tdef r u hvt htype' hr',
      ← setBitsText_setsBits_iff]
    have hint : ∀ i < 8 * bytes.length, (setBitsInt v u).getLsbD i =
        if BitAddressed u i then addressedBit u i else textBit bytes i := by
      intro i hi
      rw [getLsbD_setBitsInt v u (by omega), hsame i hi]
    constructor
    · rintro ⟨w, b, hw, hb, hbits⟩ i hi
      rw [DataValue.bin.inj hb, hbits i hi, ← DataValue.word.inj hw, hint i hi]
    · exact fun hbits => ⟨_, _, rfl, rfl, fun i hi => (hbits i hi).trans (hint i hi).symm⟩

def flagTable (type : FieldType) (size : Nat) : TableDef where
  fieldList := [⟨[107], .signed, 4, 0, false⟩, ⟨[102], type, size, 0, false⟩, ⟨[98], .binary, 8, 0, false⟩]
  keyFields := 1
  keyFormat := 4

def flagRow : Nat → DataValue
  | 2 => .bin [0]
  | _ => .word 0

def bitsOperand (off size value : Nat) : BitVec 64 := BitVec.ofNat 64 (size * 2 ^ 56 + off * 2 ^ 32 + value)

theorem updateFields_setBits_flags :
    (∃ w, updateFields wordArith (flagTable .unsigned 1) [⟨1, 2, FieldType.unsigned.code, .word (bitsOperand 2 3 5)⟩]
        flagRow 1 = .word w ∧
      SetsBits (bitsOperand 2 3 5) 8 (0#64).getLsbD w.getLsbD ∧ InField .unsigned 1 (fieldInt .unsigned w)) ∧
    (∃ b, updateFields wordArith (flagTable .unsigned 1) [⟨2, 2, FieldType.unsigned.code, .word (bitsOperand 2 3 5)⟩]
        flagRow 2 = .bin b ∧ b.length = 1 ∧
      SetsBits (bitsOperand 2 3 5) 8 (textBit [0]) (textBit b)) ∧
    ∃ w b, updateFields wordArith (flagTable .unsigned 1) [⟨1, 2, FieldType.unsigned.code, .word (bitsOperand 2 3 5)⟩]
        flagRow 1 = .word w ∧
      updateFields wordArith (flagTable .unsigned 1) [⟨2, 2, FieldType.unsigned.code, .word (bitsOperand 2 3 5)⟩]
        flagRow 2 = .bin b ∧
      ∀ i < 8, textBit b i = w.getLsbD i := by
  obtain ⟨hint, htext, hsame⟩ := updateFields_setBits_iff wordArith (flagTable .unsigned 1) flagRow (bitsOperand 2 3 5)
    .unsigned rfl
  have hsize : bitsSize (bitsOperand 2 3 5) < 128 := by decide
  refine ⟨(hint 1 0 rfl (by decide) (by decide) rfl ⟨by decide, by decide⟩).mpr fun i hlow _ haddr => ?_,
    (htext 2 [0] (Or.inr rfl) rfl).mpr (Or.inl hsize),
    (hsame 1 2 0 [0] rfl (Or.inr rfl) rfl rfl (by decide) (by decide)).mpr (Or.inl hsize)⟩
  exact absurd (Nat.lt_of_lt_of_le haddr.2 (by decide)) (Nat.not_lt.mpr hlow)

/-- A bit beyond a byte leaves an unsigned field's range, the eighth bit a signed field's, and of a size of 255 an integer
gets 32 bits and a text none. -/
theorem updateFields_setBits_wrong :
    (updateFields wordArith (flagTable .unsigned 1) [⟨1, 2, FieldType.signed.code, .word (bitsOperand 8 1 1)⟩] flagRow 1 =
        .word 256 ∧ ¬ InField .unsigned 1 (fieldInt .unsigned 256)) ∧
    (updateFields wordArith (flagTable .signed 1) [⟨1, 2, FieldType.signed.code, .word (bitsOperand 7 1 1)⟩] flagRow 1 =
        .word 128 ∧ ¬ InField .signed 1 (fieldInt .signed 128)) ∧
    updateFields wordArith (flagTable .unsigned 8) [⟨1, 2, FieldType.signed.code, .word (bitsOperand 0 255 1)⟩] flagRow 1 =
        .word 1 ∧
    updateFields wordArith (flagTable .unsigned 8) [⟨2, 2, FieldType.signed.code, .word (bitsOperand 0 255 1)⟩] flagRow 2 =
        .bin [0] ∧
    textBit [0] 0 ≠ (1#64).getLsbD 0 := by
  refine ⟨⟨by decide, fun h => absurd h.2 (by decide)⟩, ⟨by decide, fun h => absurd h.2 (by decide)⟩, by decide, by decide,
    by decide⟩

end Dtc
