import DtcServer.ValueCodec
import DtcServer.KeyRoute
import Mathlib.Data.BitVec
/-!
# RequestDecode — the decoders of a packet's sections (`CTask::DecodeFieldSet`, `DecodeFieldValue`, `DecodeResultSet`)

A packet is a header with eight section lengths and the sections.  The ids and the nibbles of the sections are indices of
the tables in `task_const.cc`.
-/
namespace Dtc

open Decoding Bytes

def ecBadCommand : Int := 2001
def ecDuplicateField : Int := 2005
def ecBadValueType : Int := 2012
def ecBadOperator : Int := 2013
def ecBadFieldId : Int := 2014
def ecBadFieldType : Int := 2016
def ecBadFieldSize : Int := 2017
def ecVersionMismatch : Int := 2020
def ecBadMultikey : Int := 2036
def ecReadonlyField : Int := 2037
def ecBadInvalidField : Int := 2044

/-- `CPacketHeader`; `len` has the lengths of the eight sections. -/
structure CPacketHeader where
  version : UInt8
  scts : UInt8
  flags : UInt8
  cmd : UInt8
  len : Nat → Nat

/-- `sizeof(CPacketHeader)` -/
def headerSize : Nat := 36

theorem headerSize_pos : 0 < headerSize := by decide

/-- `DRequest::Section::Total` -/
def sectionTotal : Nat := 8

namespace CPacketHeader

def ofBytes (packet : List UInt8) : CPacketHeader where
  version := packet.getD 0 0
  scts := packet.getD 1 0
  flags := packet.getD 2 0
  cmd := packet.getD 3 0
  len i := leNat 4 (slice packet (4 + 4 * i) 4)

variable (header : CPacketHeader)

def bodyLen : Nat := ((List.range sectionTotal).map header.len).sum

def sectionStart (i : Nat) : Nat := ((List.range i).map header.len).sum

end CPacketHeader

/-! ## The tables -/

namespace CTask

def validxtype : List (List (List Nat)) :=
  [[[0, 0, 0, 0, 0, 0], [0, 1, 1, 0, 0, 0], [0, 1, 1, 0, 0, 0], [0, 1, 1, 1, 0, 0], [0, 0, 0, 0, 1, 0],
      [0, 0, 0, 0, 1, 1]],
    [[0, 0, 0, 0, 0, 0], [0, 1, 1, 0, 0, 0], [0, 1, 1, 0, 0, 0], [0, 1, 1, 1, 0, 0], [0, 0, 0, 0, 0, 0],
      [0, 0, 0, 0, 0, 0]],
    [[0, 0, 0, 0, 0, 0], [0, 1, 1, 0, 0, 0], [0, 1, 1, 0, 0, 0], [0, 0, 0, 0, 0, 0], [0, 1, 1, 0, 0, 0],
      [0, 1, 1, 0, 0, 0]],
    [[0, 0, 0, 0, 0, 0], [0, 1, 1, 0, 0, 0], [0, 1, 1, 0, 0, 0], [0, 0, 0, 0, 0, 0], [0, 0, 0, 0, 0, 0],
      [0, 0, 0, 0, 0, 0]]]

def validcomps : List (List Nat) :=
  [[0, 0, 0, 0, 0, 0], [1, 1, 1, 1, 1, 1], [1, 1, 1, 1, 1, 1], [0, 0, 0, 0, 0, 0], [1, 1, 0, 0, 0, 0],
    [1, 1, 0, 0, 0, 0]]

end CTask

/-- `DField::TotalType`, `TotalOperation` and `TotalComparison` -/
def totalType : Nat := 6
def totalOperation : Nat := 4
def totalComparison : Nat := 6

/-! ## The table definition and the task -/

/-- `CTableDefinition` with the flags of its fields. -/
structure CTableDefinition where
  tdef : TableDef
  fieldFlags : Nat → UInt8 := fun id => if id = 0 then 1 else 0

namespace CTableDefinition

variable (t : CTableDefinition)

def isReadOnly (id : Nat) : Bool := t.fieldFlags id &&& 1 ≠ 0

/-- `mystrcmp` of two texts of one length gives 0. -/
def mystrcmp : List UInt8 → List UInt8 → Bool
  | a :: as, b :: bs => internalToLower a == internalToLower b && (a == 0 || mystrcmp as bs)
  | _, _ => true

def fieldTypeCode (id : Nat) : Nat := (t.tdef.fieldType id).code

end CTableDefinition

/-- An entry of `CFieldValue`. -/
structure SFieldValue where
  id : UInt8
  oper : Nat
  type : Nat
  val : DataValue
  deriving DecidableEq, Repr

/-- `CFieldValue`: the entries, and the flags that fields behind the key have and lack. -/
structure CFieldValue where
  fields : List SFieldValue := []
  typeMask0 : UInt8 := 0
  typeMask1 : UInt8 := 0
  deriving DecidableEq, Repr

/-- `CResultSet` before its rows are decoded. -/
structure CResultSet where
  ids : List UInt8
  numRows : Nat
  rowData : List UInt8
  deriving DecidableEq, Repr

/-- The parts of a `CTask` that the decoders of the sections read and write.  A task that decodes has its table
definition, and its pooled field values are empty. -/
structure DecodeTask where
  tableDef : CTableDefinition
  allRows : Bool := true
  requestFlags : UInt8 := 0
  updateInfo : Option CFieldValue := none
  conditionInfo : Option CFieldValue := none
  fieldList : Option CFieldSet := none

/-- Bits of `DRequest::Flag`. -/
def flagNeedTableDefinition : UInt8 := 2
def flagMultiKeyValue : UInt8 := 32

namespace DecodeTask

variable (t : DecodeTask)

def needTableDefinition : DecodeTask := { t with requestFlags := t.requestFlags ||| flagNeedTableDefinition }

/-! ## The sections -/

def updateTypeMask (fv : CFieldValue) (flag : UInt8) : CFieldValue :=
  { fv with typeMask0 := fv.typeMask0 ||| flag, typeMask1 := fv.typeMask1 ||| ~~~flag }

/-- What `DecodeFieldValue` decodes: the conditions, the values to be inserted, or the operations of an update. -/
inductive FieldValueMode where
  | condition | insert | update
  deriving DecidableEq, Repr

def fieldValue : FieldValueMode → CFieldValue
  | .condition => t.conditionInfo.getD {}
  | _ => t.updateInfo.getD {}

def setFieldValue (fv : CFieldValue) : FieldValueMode → DecodeTask
  | .condition => { t with conditionInfo := some fv }
  | _ => { t with updateInfo := some fv }

def decodeFieldId (bin : List UInt8) : Decoding Int (UInt8 × Bool × List UInt8) :=
  if bin = [] then fail (-ecBadSectionLength)
  else do
    let (n, bin) ← next bin
    if n ≠ 0 then pure (n, false, bin)
    else if bin = [] then fail (-ecBadSectionLength)
    else do
      let (n, bin) ← next bin
      if n = 0 then pure (n, false, bin)
      else if bin.length < n.toNat then fail (-ecBadSectionLength)
      else do
        let name ← bytes bin n.toNat
        let fid := t.tableDef.tdef.fieldId name
        if fid < 0 then fail (-ecBadFieldName)
        else do
          let bin ← skip bin n.toNat
          pure (UInt8.ofNat fid.toNat, true, bin)

/-- The operation, or the comparison, is one that the field has. -/
def checkOperation (mode : FieldValueMode) (id : UInt8) (op : Nat) : Decoding Int Unit := do
  let ft := t.tableDef.fieldTypeCode id.toNat
  match mode with
  | .condition =>
    if totalComparison ≤ op then fail (-ecBadOperator)
    else do
      let comps ← lookup CTask.validcomps ft
      let comp ← lookup comps op
      if comp = 0 then fail (-ecBadOperator)
      else if id.toNat < t.tableDef.tdef.keyFields ∧ op ≠ 0 then fail (-ecBadMultikey)
      else pure ()
  | .insert => if op ≠ 0 then fail (-ecBadOperator) else pure ()
  | .update =>
    if t.tableDef.isReadOnly id.toNat then fail (-ecReadonlyField)
    else if totalOperation ≤ op then fail (-ecBadOperator)
    else pure ()

/-- The type of the value is one that the operation has on the field; a condition's values are as those of `Set`. -/
def checkType (mode : FieldValueMode) (id : UInt8) (op vt : Nat) : Decoding Int Unit := do
  let types ← lookup CTask.validxtype (if mode = .condition then 0 else op)
  let row ← lookup types (t.tableDef.fieldTypeCode id.toNat)
  let valid ← lookup row vt
  if valid = 0 then fail (-ecBadOperator) else pure ()

/-- An entry of `DecodeFieldValue`: the task, the keys that were met and what is behind the entry; an error leaves the
task as the entries in front of it made it. -/
def decodeEntry (scanFloat : List UInt8 → Option (BitVec 64)) (mode : FieldValueMode) (keymask : UInt8 → Bool)
    (bin : List UInt8) : Decoding (Int × DecodeTask) (DecodeTask × (UInt8 → Bool) × List UInt8) :=
  if bin = [] then fail (-ecBadSectionLength, t)
  else do
    let (b, bin) ← next bin
    let vt := b.toNat % 16
    let op := b.toNat / 16
    let (id, nd, bin) ← (t.decodeFieldId bin).leaving t
    if t.tableDef.tdef.numFields < id.toNat then fail (-ecBadInvalidField, t)
    else if totalType ≤ vt then fail (-ecBadValueType, t)
    else do
      (t.checkOperation mode id op).leaving t
      let isKey := decide (id.toNat < t.tableDef.tdef.keyFields)
      let t := if mode = .condition ∧ ¬ isKey then { t with allRows := false } else t
      (t.checkType mode id op vt).leaving t
      let (val, bin) ← (decodeDataValue scanFloat bin vt).leaving t
      let fv := t.fieldValue mode
      let fv := { fv with fields := fv.fields ++ [⟨id, op, vt, val⟩] }
      let t := if nd then (t.setFieldValue fv mode).needTableDefinition else t.setFieldValue fv mode
      if isKey then
        if keymask id then fail (-ecBadMultikey, t) else pure (t, fun i => keymask i || i == id, bin)
      else pure (t.setFieldValue (updateTypeMask fv (t.tableDef.fieldFlags id.toNat)) mode, keymask, bin)

def fieldValueLoop (scanFloat : List UInt8 → Option (BitVec 64)) (mode : FieldValueMode) :
    Nat → DecodeTask → (UInt8 → Bool) → List UInt8 → Decoding (Int × DecodeTask) DecodeTask
  | 0, t, _, bin => if bin ≠ [] then fail (-ecExtraSectionData, t) else pure t
  | n + 1, t, keymask, bin => do
    let (t, keymask, bin) ← t.decodeEntry scanFloat mode keymask bin
    fieldValueLoop scanFloat mode n t keymask bin

def decodeFieldValue (scanFloat : List UInt8 → Option (BitVec 64)) (mode : FieldValueMode) (bin : List UInt8) :
    Decoding (Int × DecodeTask) DecodeTask :=
  if bin = [] then fail (-ecBadSectionLength, t)
  else do
    let (num, bin) ← next bin
    if num = 0 then pure t
    else fieldValueLoop scanFloat mode num.toNat (t.setFieldValue (t.fieldValue mode) mode) (fun _ => false) bin

def fieldSetLoop : Nat → List UInt8 → List UInt8 → (UInt8 → Bool) → Bool → Decoding Int (List UInt8 × Bool × List UInt8)
  | 0, bin, idtab, _, need => pure (idtab, need, bin)
  | n + 1, bin, idtab, mask, need => do
    let (id, nd, bin) ← t.decodeFieldId bin
    if mask id then fieldSetLoop n bin idtab mask need
    else fieldSetLoop n bin (idtab ++ [id]) (fun i => mask i || i == id) (need || nd)

/-- `DecodeFieldSet`: the field set, and whether the table definition is needed. -/
def decodeFieldSet (bin : List UInt8) : Decoding Int (Option CFieldSet × Bool) :=
  if bin = [] then fail (-ecBadSectionLength)
  else do
    let (num, bin) ← next bin
    if num = 0 then pure (t.fieldList, false)
    else do
      let (idtab, need, bin) ← t.fieldSetLoop num.toNat bin [] (fun _ => false) false
      if bin ≠ [] then fail (-ecExtraSectionData)
      else
        match t.fieldList with
        | none => pure (some (CFieldSet.make idtab (t.tableDef.tdef.numFields + 1)), need)
        | some f =>
          let f := if f.maxFields.toNat < t.tableDef.tdef.numFields + 1 then f.realloc (t.tableDef.tdef.numFields + 1)
            else f
          pure (some (f.set idtab), need)

/-- The field ids of a result set are looked through for bad ones. -/
def resultIdsLoop (bin : List UInt8) : Nat → Nat → (UInt8 → Bool) → Decoding Int Unit
  | 0, _, _ => pure ()
  | n + 1, i, mask => do
    let id ← byteAt bin i
    if id = 255 then fail (-ecBadFieldId)
    else if mask id then fail (-ecDuplicateField)
    else resultIdsLoop bin n (i + 1) (fun j => mask j || j == id)

def decodeResultSet (bin : List UInt8) : Decoding Int CResultSet := do
  let (nrows, bin) ← decodeLength bin
  if bin = [] then fail (-ecBadSectionLength)
  else do
    let (num, bin) ← next bin
    if bin.length < num.toNat then fail (-ecBadSectionLength)
    else do
      resultIdsLoop bin num.toNat 0 (fun _ => false)
      let ids ← bytes bin num.toNat
      let rowData ← skip bin num.toNat
      pure ⟨ids, nrows, rowData⟩

theorem resultIdsLoop_ends {bin : List UInt8} : ∀ (n i : Nat) (mask : UInt8 → Bool), i + n ≤ bin.length →
    Ends (resultIdsLoop bin n i mask) (fun _ => True) (· ≠ 0)
  | 0, _, _, _ => trivial
  | n + 1, i, mask, h => by
    refine (ends_byteAt (by omega)).bind (fun id _ => ?_)
    split
    · exact ends_fail (by decide)
    split
    · exact ends_fail (by decide)
    · exact resultIdsLoop_ends n (i + 1) _ (by omega)

theorem decodeResultSet_ends (bin : List UInt8) :
    Ends (decodeResultSet bin) (fun set => set.rowData <:+ bin) (· ≠ 0) := by
  unfold decodeResultSet
  refine decodeLength_ends.bind ?_
  rintro ⟨nrows, rest⟩ ⟨hsuffix, -⟩
  dsimp only at hsuffix ⊢
  split
  · exact ends_fail (by decide)
  next hne =>
  refine (ends_next hne).bind ?_
  rintro ⟨num, rest'⟩ rfl
  dsimp only at hsuffix ⊢
  split
  · exact ends_fail (by decide)
  next hnum =>
  have hle : num.toNat ≤ rest'.length := Nat.not_lt.mp hnum
  refine (resultIdsLoop_ends _ _ _ (by omega)).bind (fun _ _ => ?_)
  refine (ends_bytes hle).bind (fun ids _ => (ends_skip hle).bind ?_)
  rintro rowData rfl
  exact ((List.drop_suffix _ _).trans (List.suffix_cons num rest')).trans hsuffix

end DecodeTask

end Dtc
