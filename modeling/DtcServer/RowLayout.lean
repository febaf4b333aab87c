import DtcServer.Protocol
import DtcServer.Bytes
/-!
# RowLayout — the bytes of a row in a `CRawData` buffer

A row is its flag byte and, one after another, its fields: those behind the key that are not discarded.  Numbers have
four or eight bytes by the size of their field, everything else a length of four bytes in front.  A field keeps what its
width holds (`RowLayout.narrow`).
-/
namespace Dtc

open Bytes

theorem emptyBin_len : ([] : List UInt8).length < 2 ^ 31 := by decide

/-- `CValue` of a field: the 64 bits that `s64`, `u64` and `flt` share, or the bytes of `bin`. -/
structure FieldVal where
  word : BitVec 64 := 0
  bin : List UInt8 := []
  /-- `bin.len` is an `int` -/
  bin_len : bin.length < 2 ^ 31 := by first | exact emptyBin_len | decide
  deriving DecidableEq, Repr

instance : Inhabited FieldVal := ⟨{}⟩

/-- `CRowValue`: the value of each field. -/
abbrev RowValue := Nat → FieldVal

/-- What the buffers of a table have in common: the table, `m_uchKeyIdx`, `m_iKeySize`, and the processor's conversions
between `double` and `float`. -/
structure RowLayout where
  tdef : TableDef
  keyIdx : Nat
  keySize : Nat
  toFloat : BitVec 64 → BitVec 32
  toDouble : BitVec 32 → BitVec 64

namespace RowLayout

variable (l : RowLayout)

/-- The fields the loops over `j` visit. -/
def storedIds : List Nat :=
  ((List.range l.tdef.fieldList.length).drop (l.keyIdx + 1)).filter (fun j => !(l.tdef.field j).isDiscard)

def width (f : FieldDef) : Nat := if f.fieldSize > 4 then 8 else 4

/-- The bytes `EncodeRow` writes for a field. -/
def encodeField (f : FieldDef) (v : FieldVal) : List UInt8 :=
  match f.fieldType with
  | .signed | .unsigned => leBytes (width f) v.word.toNat
  | .float => if f.fieldSize > 4 then leBytes 8 v.word.toNat else leBytes 4 (l.toFloat v.word).toNat
  | _ => leBytes 4 v.bin.length ++ v.bin

/-- What is left of a value in a field: the width of the field. -/
def narrow (f : FieldDef) (v : FieldVal) : FieldVal :=
  match f.fieldType with
  | .signed => { word := if f.fieldSize > 4 then v.word else (v.word.setWidth 32).signExtend 64 }
  | .unsigned => { word := if f.fieldSize > 4 then v.word else (v.word.setWidth 32).setWidth 64 }
  | .float => { word := if f.fieldSize > 4 then v.word else l.toDouble (l.toFloat v.word) }
  | _ => { bin := v.bin, bin_len := v.bin_len }

/-- The value `DecodeRow` reads for a field at an offset. -/
def loadField (content : List UInt8) (f : FieldDef) (off : Nat) : FieldVal :=
  let word32 := BitVec.ofNat 32 (leNat 4 (slice content off 4))
  let word64 := BitVec.ofNat 64 (leNat 8 (slice content off 8))
  match f.fieldType with
  | .signed => { word := if f.fieldSize > 4 then word64 else word32.signExtend 64 }
  | .unsigned => { word := if f.fieldSize > 4 then word64 else word32.setWidth 64 }
  | .float => { word := if f.fieldSize > 4 then word64 else l.toDouble word32 }
  | _ =>
    let len := leNat 4 (slice content off 4)
    -- a negative length, which no encoded row has, is read as an empty value
    if h : len < 2 ^ 31 then
      { bin := slice content (off + 4) len, bin_len := by simp only [slice, List.length_take]; omega }
    else {}

def skipField (content : List UInt8) (f : FieldDef) (off : Nat) : Nat × Bool :=
  match f.fieldType with
  | .signed | .unsigned | .float =>
    if off + width f > content.length then (off, false) else (off + width f, true)
  | _ =>
    if off + 4 > content.length then (off, false)
    else
      let next := (off + 4 + leNat 4 (slice content off 4)) % 2 ^ 32
      if next > content.length then (off + 4, false) else (next, true)

/-- The loop of `SkipRow`. -/
def skipFields (content : List UInt8) : List Nat → Nat → Nat × Bool
  | [], off => (off, true)
  | j :: js, off =>
    let r := skipField content (l.tdef.field j) off
    if r.2 then skipFields content js r.1 else r

/-- The loop of `DecodeRow`: the values it assigns, in the order of the fields. -/
def decodeFields (content : List UInt8) : List Nat → Nat → Nat × Option (List FieldVal)
  | [], off => (off, some [])
  | j :: js, off =>
    let r := skipField content (l.tdef.field j) off
    if r.2 then
      let rest := decodeFields content js r.1
      (rest.1, rest.2.map (fun vs => l.loadField content (l.tdef.field j) off :: vs))
    else (r.1, none)

def encodeFields (row : RowValue) : List Nat → List UInt8
  | [] => []
  | j :: js => l.encodeField (l.tdef.field j) (row j) ++ encodeFields row js

def encodeBytes (r : UInt8 × RowValue) : List UInt8 := r.1 :: l.encodeFields r.2 l.storedIds

def encodeRows (rows : List (UInt8 × RowValue)) : List UInt8 := rows.flatMap l.encodeBytes

def storedRow (r : UInt8 × RowValue) : UInt8 × List FieldVal :=
  (r.1, l.storedIds.map (fun j => l.narrow (l.tdef.field j) (r.2 j)))

/-- The size of a field's bytes, as `CalcRowSize` adds it. -/
def fieldBytes (f : FieldDef) (v : FieldVal) : Nat :=
  match f.fieldType with
  | .signed | .unsigned | .float => width f
  | _ => 4 + v.bin.length

def calcRowSize (row : RowValue) : Nat :=
  l.storedIds.foldl (fun tSize j => (tSize + fieldBytes (l.tdef.field j) (row j)) % 2 ^ 32) 1

/-! ## What was encoded is skipped and decoded -/

section Field

variable (f : FieldDef) (v : FieldVal)

@[simp] theorem length_encodeField : (l.encodeField f v).length = fieldBytes f v := by
  unfold encodeField fieldBytes width
  cases f.fieldType <;> simp only [length_leBytes, List.length_append]
  split <;> simp

variable {pre post : List UInt8} {off : Nat}

theorem leNat_slice {w n : Nat} (ho : pre.length = off) (hw : w = n) (x : Nat) :
    leNat n (slice (pre ++ (leBytes w x ++ post)) off n) = x % 256 ^ n := by
  subst hw
  rw [slice_append ho (length_leBytes w x), leNat_leBytes]

theorem skipField_encode (ho : pre.length = off) (hlt : off + fieldBytes f v < 2 ^ 32) :
    skipField (pre ++ (l.encodeField f v ++ post)) f off = (off + fieldBytes f v, true) := by
  have hlen : off + fieldBytes f v ≤ (pre ++ (l.encodeField f v ++ post)).length := by
    rw [List.length_append, List.length_append, length_encodeField]
    omega
  have hnum : fieldBytes f v = width f → (if off + width f > (pre ++ (l.encodeField f v ++ post)).length then
      (off, false) else (off + width f, true)) = (off + fieldBytes f v, true) := fun hw => by
    rw [if_neg (by omega), hw]
  unfold skipField
  cases hf : f.fieldType with
  | signed => exact hnum (by simp [fieldBytes, hf])
  | unsigned => exact hnum (by simp [fieldBytes, hf])
  | float => exact hnum (by simp [fieldBytes, hf])
  | none | string | binary =>
    have hb : fieldBytes f v = 4 + v.bin.length := by simp [fieldBytes, hf]
    have he : l.encodeField f v = leBytes 4 v.bin.length ++ v.bin := by simp [encodeField, hf]
    have hbin := v.bin_len
    have hread : leNat 4 (slice (pre ++ (l.encodeField f v ++ post)) off 4) = v.bin.length := by
      rw [he, List.append_assoc, leNat_slice ho rfl, Nat.mod_eq_of_lt (by omega)]
    simp only [hread]
    rw [if_neg (by omega), Nat.mod_eq_of_lt (by omega), if_neg (by omega)]
    simp only [Prod.mk.injEq, and_true]
    omega

theorem loadField_encode (ho : pre.length = off) :
    l.loadField (pre ++ (l.encodeField f v ++ post)) f off = l.narrow f v := by
  have h64 : BitVec.ofNat 64 (v.word.toNat % 256 ^ 8) = v.word := by
    apply BitVec.eq_of_toNat_eq
    have := v.word.isLt
    rw [BitVec.toNat_ofNat]
    omega
  have h32 : BitVec.ofNat 32 (v.word.toNat % 256 ^ 4) = v.word.setWidth 32 := by
    apply BitVec.eq_of_toNat_eq
    rw [BitVec.toNat_ofNat, BitVec.toNat_setWidth]
    omega
  have hflt : BitVec.ofNat 32 ((l.toFloat v.word).toNat % 256 ^ 4) = l.toFloat v.word := by
    apply BitVec.eq_of_toNat_eq
    have := (l.toFloat v.word).isLt
    rw [BitVec.toNat_ofNat]
    omega
  unfold loadField narrow
  cases hf : f.fieldType with
  | signed | unsigned =>
    have he : l.encodeField f v = leBytes (width f) v.word.toNat := by simp [encodeField, hf]
    rw [he]
    unfold width
    by_cases hs : f.fieldSize > 4
    · simp only [if_pos hs, leNat_slice ho rfl, h64]
    · simp only [if_neg hs, leNat_slice ho rfl, h32]
  | float =>
    by_cases hs : f.fieldSize > 4
    · have he : l.encodeField f v = leBytes 8 v.word.toNat := by simp [encodeField, hf, hs]
      simp only [he, if_pos hs, leNat_slice ho rfl, h64]
    · have he : l.encodeField f v = leBytes 4 (l.toFloat v.word).toNat := by simp [encodeField, hf, hs]
      simp only [he, if_neg hs, leNat_slice ho rfl, hflt]
  | none | string | binary =>
    have he : l.encodeField f v = leBytes 4 v.bin.length ++ v.bin := by simp [encodeField, hf]
    have hbin := v.bin_len
    have hread : leNat 4 (slice (pre ++ (l.encodeField f v ++ post)) off 4) = v.bin.length := by
      rw [he, List.append_assoc, leNat_slice ho rfl, Nat.mod_eq_of_lt (by omega)]
    have hdata : slice (pre ++ (l.encodeField f v ++ post)) (off + 4) v.bin.length = v.bin := by
      rw [he, List.append_assoc, ← List.append_assoc pre]
      exact slice_append (by rw [List.length_append, length_leBytes, ho]) rfl
    simp only [hread, hbin, dite_true, hdata]

end Field

variable (row : RowValue)

def fieldsSize : List Nat → Nat
  | [] => 0
  | j :: js => fieldBytes (l.tdef.field j) (row j) + fieldsSize js

@[simp] theorem length_encodeFields : ∀ js : List Nat, (l.encodeFields row js).length = l.fieldsSize row js
  | [] => rfl
  | j :: js => by
    rw [encodeFields, List.length_append, length_encodeField, length_encodeFields js, fieldsSize]

def rowSize : Nat := 1 + l.fieldsSize row l.storedIds

@[simp] theorem length_encodeBytes (r : UInt8 × RowValue) : (l.encodeBytes r).length = l.rowSize r.2 := by
  rw [encodeBytes, List.length_cons, length_encodeFields, rowSize, Nat.add_comm]

theorem foldl_fieldBytes : ∀ (js : List Nat) (tSize : Nat),
    js.foldl (fun tSize j => (tSize + fieldBytes (l.tdef.field j) (row j)) % 2 ^ 32) (tSize % 2 ^ 32) =
      (tSize + l.fieldsSize row js) % 2 ^ 32
  | [], tSize => rfl
  | j :: js, tSize => by
    rw [List.foldl_cons, Nat.mod_add_mod, foldl_fieldBytes js, fieldsSize, Nat.add_assoc]

theorem calcRowSize_eq : l.calcRowSize row = l.rowSize row % 2 ^ 32 :=
  l.foldl_fieldBytes row l.storedIds 1

theorem calcRowSize_of_lt (h : l.rowSize row < 2 ^ 32) : l.calcRowSize row = l.rowSize row := by
  rw [calcRowSize_eq, Nat.mod_eq_of_lt h]

theorem skipFields_encode {post : List UInt8} : ∀ (js : List Nat) (pre : List UInt8) (off : Nat), pre.length = off →
    off + l.fieldsSize row js < 2 ^ 32 →
    l.skipFields (pre ++ (l.encodeFields row js ++ post)) js off = (off + l.fieldsSize row js, true)
  | [], pre, off, _, _ => rfl
  | j :: js, pre, off, ho, hlt => by
    rw [fieldsSize] at hlt ⊢
    rw [encodeFields, List.append_assoc, skipFields, l.skipField_encode _ _ ho (by omega)]
    simp only [if_true]
    rw [← List.append_assoc, skipFields_encode js _ _ (by rw [List.length_append, ho, length_encodeField]) (by omega),
      Nat.add_assoc]

theorem decodeFields_encode {post : List UInt8} : ∀ (js : List Nat) (pre : List UInt8) (off : Nat), pre.length = off →
    off + l.fieldsSize row js < 2 ^ 32 →
    l.decodeFields (pre ++ (l.encodeFields row js ++ post)) js off =
      (off + l.fieldsSize row js, some (js.map (fun j => l.narrow (l.tdef.field j) (row j))))
  | [], pre, off, _, _ => rfl
  | j :: js, pre, off, ho, hlt => by
    rw [fieldsSize] at hlt ⊢
    rw [encodeFields, List.append_assoc, decodeFields, l.skipField_encode _ _ ho (by omega), l.loadField_encode _ _ ho]
    simp only [if_true]
    rw [← List.append_assoc, decodeFields_encode js _ _ (by rw [List.length_append, ho, length_encodeField])
      (by omega), Nat.add_assoc]
    rfl

end RowLayout

end Dtc
