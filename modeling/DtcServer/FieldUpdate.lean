import DtcServer.RequestDecode
import DtcServer.FieldListCodec
import Mathlib.Tactic.SplitIfs
/-!
# FieldUpdate — the operations of an update on a row (`CFieldValue::Update`)

An entry sets, adds to, or-s or sets bits of a field's value; a combination of types that the switch does not have leaves the
value alone.
-/
namespace Dtc

/-- `DField`: the operations of an update. -/
inductive FieldOperation where
  | set | add | setBits | or
  deriving DecidableEq, Repr

def FieldOperation.ofCode : Nat → Option FieldOperation
  | 0 => some .set
  | 1 => some .add
  | 2 => some .setBits
  | 3 => some .or
  | _ => none

/-- `s64` and `u64` of a value. -/
def DataValue.word64 : DataValue → BitVec 64
  | .word w => w
  | _ => 0

/-! ## Integers -/

/-- The limits in `TruncateIntValue`, by the size of the field. -/
def intLimits : Nat → FieldType → Option (Int × Int)
  | 1, .signed => some (-0x80, 0x7F)
  | 1, .unsigned => some (0, 0xFF)
  | 2, .signed => some (-0x8000, 0x7FFF)
  | 2, .unsigned => some (0, 0xFFFF)
  | 3, .signed => some (-0x800000, 0x7FFFFF)
  | 3, .unsigned => some (0, 0xFFFFFF)
  | 4, .signed => some (-0x80000000, 0x7FFFFFFF)
  | 4, .unsigned => some (0, 0xFFFFFFFF)
  | 5, .signed => some (-0x8000000000, 0x7FFFFFFFFF)
  | 5, .unsigned => some (0, 0xFFFFFFFFFF)
  | 6, .signed => some (-0x800000000000, 0x7FFFFFFFFFFF)
  | 6, .unsigned => some (0, 0xFFFFFFFFFFFF)
  | 7, .signed => some (-0x80000000000000, 0x7FFFFFFFFFFFFF)
  | 7, .unsigned => some (0, 0xFFFFFFFFFFFFFF)
  | _, _ => none

def truncateIntValue (v1 : BitVec 64) (type : FieldType) (size : Nat) : BitVec 64 :=
  match intLimits size type with
  | none => v1
  | some (lo, hi) => if v1.toInt < lo then BitVec.ofInt 64 lo else if hi < v1.toInt then BitVec.ofInt 64 hi else v1

/-- The addition of two `s64`, which wraps, and what is made of an overflow. -/
def addInt (v1 v2 : BitVec 64) : BitVec 64 :=
  let sum := v1 + v2
  if 0 < v1.toInt then
    if 0 < v2.toInt ∧ sum.toInt < 0 then 0x7FFFFFFFFFFFFFFF#64 else sum
  else
    if v2.toInt < 0 ∧ 0 < sum.toInt then 0x8000000000000000#64 else sum

/-! ## Bits -/

/-- The offset, the size and the value in the operand of `SetBits`. -/
def bitsOffset (v2 : BitVec 64) : Nat := v2.toNat / 2 ^ 32 % 2 ^ 24

def bitsSize (v2 : BitVec 64) : Nat := v2.toNat / 2 ^ 56

def bitsValue (v2 : BitVec 64) : BitVec 32 := v2.setWidth 32

def setBitsInt (v1 v2 : BitVec 64) : BitVec 64 :=
  let off := bitsOffset v2
  let size := bitsSize v2
  if 64 ≤ off ∨ size = 0 then v1
  else
    let size := min (min size 32) (64 - off)
    let mask := (BitVec.ofNat 64 (2 ^ size - 1)) <<< off
    v1 &&& ~~~mask ||| (bitsValue v2).setWidth 64 <<< off &&& mask

/-- `SET_B` and `CLR_B` -/
def putBit (bytes : List UInt8) (i : Nat) (b : Bool) : List UInt8 :=
  bytes.modify (i / 8) fun byte =>
    if b then byte ||| (1 : UInt8) <<< UInt8.ofNat (i % 8) else byte &&& ~~~((1 : UInt8) <<< UInt8.ofNat (i % 8))

/-- The loop over the bits from `off` on, `size` of them. -/
def putBits : Nat → List UInt8 → Nat → BitVec 32 → List UInt8
  | 0, bytes, _, _ => bytes
  | size + 1, bytes, off, value => putBits size (putBit bytes off (value.getLsbD 0)) (off + 1) (value >>> 1)

def signedBitsSize (v2 : BitVec 64) : Int := if bitsSize v2 < 128 then bitsSize v2 else bitsSize v2 - 256

/-- `SetBits` of a text: the size is signed here, and a loop that ends before it begins sets nothing. -/
def setBitsText (bytes : List UInt8) (v2 : BitVec 64) : List UInt8 :=
  let off := bitsOffset v2
  let size := signedBitsSize v2
  if 8 * bytes.length ≤ off ∨ size = 0 then bytes
  else putBits (min (min size 32) (8 * bytes.length - off)).toNat bytes off (bitsValue v2)

/-! ## `CFieldValue::Update` -/

/-- The processor's conversions to `double`, and its addition. -/
structure FloatArith where
  ofSigned : BitVec 64 → BitVec 64
  ofUnsigned : BitVec 64 → BitVec 64
  add : BitVec 64 → BitVec 64 → BitVec 64

def cutText (size : Nat) : DataValue → DataValue
  | .bin bytes => .bin (bytes.take size)
  | v => v

section Update

variable (fa : FloatArith)

/-- The switch of `Update`: by the types of the field and of the value, and by the operation. -/
def updateValue (type : FieldType) (size : Nat) (vt : FieldType) (oper : FieldOperation) (v1 v2 : DataValue) : DataValue :=
  match type, vt, oper with
  | .signed, .signed, .set | .unsigned, .signed, .set | .unsigned, .unsigned, .set =>
    .word (truncateIntValue v2.word64 type size)
  | .signed, .signed, .add | .unsigned, .signed, .add => .word (truncateIntValue (addInt v1.word64 v2.word64) type size)
  | .signed, .signed, .or | .unsigned, .signed, .or => .word (truncateIntValue (v1.word64 ||| v2.word64) type size)
  | .float, .signed, .set => .word (fa.ofSigned v2.word64)
  | .float, .unsigned, .set => .word (fa.ofUnsigned v2.word64)
  | .float, .float, .set => .word v2.word64
  | .float, .signed, .add => .word (fa.add v1.word64 (fa.ofSigned v2.word64))
  | .float, .unsigned, .add => .word (fa.add v1.word64 (fa.ofUnsigned v2.word64))
  | .float, .float, .add => .word (fa.add v1.word64 v2.word64)
  | .string, .string, .set | .binary, .string, .set | .binary, .binary, .set => cutText size v2
  | .signed, .signed, .setBits | .signed, .unsigned, .setBits | .unsigned, .signed, .setBits
  | .unsigned, .unsigned, .setBits => .word (setBitsInt v1.word64 v2.word64)
  | .binary, .signed, .setBits | .binary, .unsigned, .setBits | .string, .signed, .setBits
  | .string, .unsigned, .setBits =>
    match v1 with
    | .bin bytes => .bin (setBitsText bytes v2.word64)
    | _ => v1
  | _, _, _ => v1

def updateFields (tdef : TableDef) (fields : List SFieldValue) (r : Nat → DataValue) : Nat → DataValue :=
  fields.foldl
    (fun r e =>
      match FieldOperation.ofCode e.oper with
      | none => r
      | some oper =>
        let id := e.id.toNat
        Function.update r id
          (updateValue fa (tdef.fieldType id) (tdef.fieldSize id) (FieldType.ofCode e.type) oper (r id) e.val))
    r

theorem updateFields_one (tdef : TableDef) (r : Nat → DataValue) (e : SFieldValue) {oper : FieldOperation}
    (h : FieldOperation.ofCode e.oper = some oper) :
    updateFields fa tdef [e] r e.id.toNat =
      updateValue fa (tdef.fieldType e.id.toNat) (tdef.fieldSize e.id.toNat) (FieldType.ofCode e.type) oper (r e.id.toNat)
        e.val := by
  rw [updateFields, List.foldl_cons, List.foldl_nil, h]
  exact Function.update_self ..

end Update

/-! ## Additions against the range of the field -/

def fieldInt (type : FieldType) (v : BitVec 64) : Int := if type = .signed then v.toInt else v.toNat

def fieldMin (type : FieldType) (size : Nat) : Int := if type = .signed then -2 ^ (8 * size - 1) else 0

def fieldMax (type : FieldType) (size : Nat) : Int := if type = .signed then 2 ^ (8 * size - 1) - 1 else 2 ^ (8 * size) - 1

def InField (type : FieldType) (size : Nat) (x : Int) : Prop := fieldMin type size ≤ x ∧ x ≤ fieldMax type size

def saturated (type : FieldType) (size : Nat) (x : Int) : Int := max (fieldMin type size) (min x (fieldMax type size))

theorem toInt_range (v : BitVec 64) : -2 ^ 63 ≤ v.toInt ∧ v.toInt < 2 ^ 63 := ⟨BitVec.le_toInt v, BitVec.toInt_lt⟩

theorem toNat_eq_toInt (v : BitVec 64) : (v.toNat : Int) = if v.toInt < 0 then v.toInt + 2 ^ 64 else v.toInt := by
  have h := BitVec.toInt_eq_toNat_cond v
  have hlt := v.isLt
  split at h <;> split <;> omega

theorem toInt_add_cases (v d : BitVec 64) :
    (v + d).toInt = v.toInt + d.toInt ∧ -2 ^ 63 ≤ v.toInt + d.toInt ∧ v.toInt + d.toInt < 2 ^ 63 ∨
      (v + d).toInt = v.toInt + d.toInt - 2 ^ 64 ∧ 2 ^ 63 ≤ v.toInt + d.toInt ∨
      (v + d).toInt = v.toInt + d.toInt + 2 ^ 64 ∧ v.toInt + d.toInt < -2 ^ 63 := by
  obtain ⟨hv1, hv2⟩ := toInt_range v
  obtain ⟨hd1, hd2⟩ := toInt_range d
  have hsum := BitVec.toInt_add v d
  rw [Int.bmod_def] at hsum
  split at hsum <;> omega

theorem toInt_addInt (v d : BitVec 64) :
    (addInt v d).toInt =
      if v.toInt = -2 ^ 63 ∧ d.toInt = -2 ^ 63 then 0 else max (-2 ^ 63) (min (v.toInt + d.toInt) (2 ^ 63 - 1)) := by
  have hv := toInt_range v
  have hd := toInt_range d
  have hsum := toInt_add_cases v d
  have hmax : (0x7FFFFFFFFFFFFFFF#64).toInt = 2 ^ 63 - 1 := by decide
  have hmin : (0x8000000000000000#64).toInt = -2 ^ 63 := by decide
  unfold addInt
  dsimp only
  split_ifs <;> omega

theorem toInt_truncateIntValue (v : BitVec 64) {type : FieldType} {size : Nat} {lo hi : Int}
    (h : intLimits size type = some (lo, hi)) (hlo : -2 ^ 63 ≤ lo) (hle : lo ≤ hi) (hhi : hi < 2 ^ 63) :
    (truncateIntValue v type size).toInt = max lo (min v.toInt hi) := by
  have hofInt : ∀ x : Int, -2 ^ 63 ≤ x → x < 2 ^ 63 → (BitVec.ofInt 64 x).toInt = x := by
    intro x h1 h2
    rw [BitVec.toInt_ofInt, Int.bmod_def]
    split <;> omega
  rw [truncateIntValue, h]
  dsimp only
  split_ifs
  · rw [hofInt lo hlo (by omega)]
    omega
  · rw [hofInt hi (by omega) hhi]
    omega
  · omega

theorem intLimits_eq {type : FieldType} (htype : isIntType type = true) {size : Nat} (h1 : 1 ≤ size) (h7 : size ≤ 7) :
    intLimits size type = some (fieldMin type size, fieldMax type size) := by
  cases type <;> first | exact absurd htype (by decide) | (interval_cases size <;> rfl)

theorem intLimits_eight (type : FieldType) : intLimits 8 type = none := by cases type <;> rfl

theorem fieldRange_le {type : FieldType} {size : Nat} (h1 : 1 ≤ size) (h7 : size ≤ 7) :
    -2 ^ 55 ≤ fieldMin type size ∧ fieldMin type size ≤ 0 ∧ 0 < fieldMax type size ∧ fieldMax type size < 2 ^ 56 := by
  unfold fieldMin fieldMax
  by_cases htype : type = .signed
  · simp only [htype, if_true]
    interval_cases size <;> decide
  · simp only [htype, if_false]
    interval_cases size <;> decide

/-- When adding an operand gives the clamped sum.  Of eight bytes a sum must not leave the range of an unsigned field, nor
cross its middle but by the two halves' sum; an operand that is unsigned is not added. -/
def AddMeets (type : FieldType) (size : Nat) (vt : FieldType) (v d : BitVec 64) : Prop :=
  if vt = .signed then
    size ≤ 7 ∨
      if type = .signed then ¬ (v.toInt = -2 ^ 63 ∧ d.toInt = -2 ^ 63)
      else 0 ≤ v.toNat + d.toInt ∧ v.toNat + d.toInt < 2 ^ 64 ∧
        ((v.toNat < 2 ^ 63 ↔ v.toNat + d.toInt < 2 ^ 63) ∨ v.toNat = 2 ^ 63 ∧ d.toInt = -2 ^ 63)
  else d = 0 ∨ fieldInt type v = fieldMax type size

def operandInt (vt : FieldType) (d : BitVec 64) : Int := fieldInt vt d

theorem addInt_narrow {type : FieldType} (htype : isIntType type = true) {size : Nat} (h1 : 1 ≤ size) (h7 : size ≤ 7)
    {v : BitVec 64} (hv : InField type size (fieldInt type v)) (d : BitVec 64) :
    fieldInt type (truncateIntValue (addInt v d) type size) = saturated type size (fieldInt type v + d.toInt) := by
  obtain ⟨hlo, hlo0, hhi0, hhi⟩ := @fieldRange_le type size h1 h7
  obtain ⟨hv1, hv2⟩ := hv
  have hd := toInt_range d
  have hnat := toNat_eq_toInt v
  have hvr := toInt_range v
  have hvint : fieldInt type v = v.toInt := by
    unfold fieldInt at hv2 ⊢
    split_ifs at hv2 ⊢
    · rfl
    · split at hnat <;> omega
  have hadd := toInt_addInt v d
  rw [if_neg (by omega)] at hadd
  have htrunc := toInt_truncateIntValue (addInt v d) (intLimits_eq htype h1 h7) (by omega) (by omega) (by omega)
  have hint : fieldInt type (truncateIntValue (addInt v d) type size) = (truncateIntValue (addInt v d) type size).toInt := by
    have hpos : type ≠ .signed → fieldMin type size = 0 := fun hne => if_neg hne
    have hnat' := toNat_eq_toInt (truncateIntValue (addInt v d) type size)
    unfold fieldInt
    split_ifs with hs
    · rfl
    · have h0 := hpos hs
      split at hnat' <;> omega
  rw [hint, htrunc, hadd, saturated, hvint]
  omega

theorem addInt_eight {type : FieldType} (v d : BitVec 64) :
    fieldInt type (truncateIntValue (addInt v d) type 8) = saturated type 8 (fieldInt type v + d.toInt) ↔
      AddMeets type 8 .signed v d := by
  have hd := toInt_range d
  have hv := toInt_range v
  have hadd := toInt_addInt v d
  have htrunc : truncateIntValue (addInt v d) type 8 = addInt v d := by
    rw [truncateIntValue, intLimits_eight]
  rw [htrunc, AddMeets, if_pos rfl, saturated, fieldMin, fieldMax, fieldInt, fieldInt]
  by_cases hs : type = .signed
  · simp only [if_pos hs]
    split at hadd <;> omega
  · simp only [if_neg hs]
    have hnat := toNat_eq_toInt (addInt v d)
    have hvnat := toNat_eq_toInt v
    split at hadd <;> split at hnat <;> split at hvnat <;> omega

theorem saturated_add_self {type : FieldType} {size : Nat} {x y : Int} (hx : InField type size x) (hy : 0 ≤ y) :
    x = saturated type size (x + y) ↔ y = 0 ∨ x = fieldMax type size := by
  obtain ⟨h1, h2⟩ := hx
  unfold saturated
  omega

/-- **An addition stores the clamped sum exactly where `AddMeets` says**: of up to seven bytes always. -/
theorem updateFields_add_iff (fa : FloatArith) (tdef : TableDef) (r : Nat → DataValue) (id : UInt8) (v d : BitVec 64)
    (vt : FieldType) (htype : isIntType (tdef.fieldType id.toNat) = true) (hvt : isIntType vt = true)
    (hsize : 1 ≤ tdef.fieldSize id.toNat ∧ tdef.fieldSize id.toNat ≤ 8) (hr : r id.toNat = .word v)
    (hv : InField (tdef.fieldType id.toNat) (tdef.fieldSize id.toNat) (fieldInt (tdef.fieldType id.toNat) v)) :
    (∃ w, updateFields fa tdef [⟨id, 1, vt.code, .word d⟩] r id.toNat = .word w ∧
      fieldInt (tdef.fieldType id.toNat) w =
        saturated (tdef.fieldType id.toNat) (tdef.fieldSize id.toNat)
          (fieldInt (tdef.fieldType id.toNat) v + operandInt vt d)) ↔
      AddMeets (tdef.fieldType id.toNat) (tdef.fieldSize id.toNat) vt v d := by
  have hupdate := updateFields_one fa tdef r ⟨id, 1, vt.code, .word d⟩ rfl
  rw [hupdate, hr]
  obtain ⟨h1, h8⟩ := hsize
  generalize tdef.fieldType id.toNat = type at htype hv ⊢
  generalize tdef.fieldSize id.toNat = size at h1 h8 hv ⊢
  have hword : ∀ w, (∃ w', DataValue.word w = .word w' ∧ fieldInt type w' =
      saturated type size (fieldInt type v + operandInt vt d)) ↔
        fieldInt type w = saturated type size (fieldInt type v + operandInt vt d) := by
    intro w
    constructor
    · rintro ⟨w', hw, h⟩
      rw [DataValue.word.inj hw, h]
    · exact fun h => ⟨w, rfl, h⟩
  cases vt with
  | signed =>
    have hsum : updateValue fa type size (FieldType.ofCode FieldType.signed.code) .add (.word v) (.word d) =
        .word (truncateIntValue (addInt v d) type size) := by
      cases type <;> first | exact absurd htype (by decide) | rfl
    rw [hsum, hword]
    show fieldInt type _ = saturated type size (fieldInt type v + d.toInt) ↔ _
    by_cases h7 : size ≤ 7
    · rw [AddMeets, if_pos rfl]
      exact ⟨fun _ => Or.inl h7, fun _ => addInt_narrow htype h1 h7 hv d⟩
    · obtain rfl : size = 8 := by omega
      exact addInt_eight v d
  | unsigned =>
    have hkept : updateValue fa type size (FieldType.ofCode FieldType.unsigned.code) .add (.word v) (.word d) =
        .word v := by
      cases type <;> first | exact absurd htype (by decide) | rfl
    have hzero : ((d.toNat : Int) = 0) ↔ d = 0 := by
      rw [← BitVec.toNat_inj]
      simp
    rw [hkept, hword, AddMeets, if_neg (by decide)]
    show fieldInt type v = saturated type size (fieldInt type v + (d.toNat : Int)) ↔ _
    rw [saturated_add_self hv (by omega), hzero]
  | none | float | string | binary => exact absurd hvt (by decide)

def countTable (type : FieldType) : TableDef where
  fieldList := [⟨[107], .signed, 4, 0, false⟩, ⟨[99], type, 8, 0, false⟩]
  keyFields := 1
  keyFormat := 4

def wordArith : FloatArith where
  ofSigned w := w
  ofUnsigned w := w
  add := (· + ·)

theorem updateFields_add_top :
    ∃ w, updateFields wordArith (countTable .signed) [⟨1, 1, FieldType.signed.code, .word 1⟩]
        (fun _ => .word 0x7FFFFFFFFFFFFFFF) 1 = .word w ∧
      fieldInt .signed w = saturated .signed 8 (fieldInt .signed 0x7FFFFFFFFFFFFFFF + operandInt .signed 1) :=
  (updateFields_add_iff wordArith (countTable .signed) (fun _ => .word 0x7FFFFFFFFFFFFFFF) 1 0x7FFFFFFFFFFFFFFF 1 .signed
    rfl rfl (by decide) rfl ⟨by decide, by decide⟩).mpr (Or.inr (by decide))

/-- Twice the lowest signed number gives 0, and an unsigned 5 less 6 the highest number. -/
theorem updateFields_add_wraps :
    updateFields wordArith (countTable .signed) [⟨1, 1, FieldType.signed.code, .word 0x8000000000000000⟩]
        (fun _ => .word 0x8000000000000000) 1 = .word 0 ∧
      fieldInt .signed 0 ≠
        saturated .signed 8 (fieldInt .signed 0x8000000000000000 + operandInt .signed 0x8000000000000000) ∧
    updateFields wordArith (countTable .unsigned) [⟨1, 1, FieldType.signed.code, .word 0xFFFFFFFFFFFFFFFA⟩]
        (fun _ => .word 5) 1 = .word 0xFFFFFFFFFFFFFFFF ∧
      fieldInt .unsigned 0xFFFFFFFFFFFFFFFF ≠
        saturated .unsigned 8 (fieldInt .unsigned 5 + operandInt .signed 0xFFFFFFFFFFFFFFFA) :=
  ⟨by decide, by decide, by decide, by decide⟩

end Dtc
