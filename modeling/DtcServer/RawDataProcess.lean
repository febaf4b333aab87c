import DtcServer.RawDataRun
import DtcServer.RequestDecode
/-!
# RawDataProcess — `CRawDataProcess`, requests applied to the rows of a node

`DeleteData`, `UpdateData` and `AppendData` attach the node's chunk and walk its rows with the buffer's cursor.  The row
variable of a walk starts as all zeros; `DecodeRow` assigns the fields a row stores, so the key and the discarded fields
keep from one row to the next what they were.
-/
namespace Dtc

open Bytes

def operDirty : UInt8 := 0x02

/-- An entry of the condition: a field and the comparison made with it. -/
structure FieldCond where
  id : Nat
  test : FieldVal → Bool

/-- An entry of the operations: a field and what becomes of its value.  `inPlace` is a `SetBits` on text or bytes: it
writes where the value points. -/
structure FieldUpdate where
  id : Nat
  apply : FieldVal → FieldVal
  inPlace : Bool := false
  sameLength : inPlace = true → ∀ v, (apply v).bin.length = v.bin.length

/-- `v1.u64 = now` and its like: the value, whatever it was. -/
def FieldUpdate.setWord (id : Nat) (word : BitVec 64) : FieldUpdate where
  id := id
  apply v := { v with word := word }
  sameLength h := absurd h (by decide)

/-- What the row operations read of a `CTaskRequest`. -/
structure RowRequest where
  requestCode : RequestCode
  allRows : Bool := false
  conditionInfo : List FieldCond := []
  /-- `RequestCondition()->HasTypeTimestamp()`, false without a condition -/
  timestampCondition : Bool := false
  updateInfo : Option (List FieldUpdate) := none
  /-- `updateInfo->HasTypeCommit()` -/
  typeCommit : Bool := false
  timestamp : BitVec 32 := 0
  insertID : BitVec 64 := 0
  /-- `resultInfo.AffectedRows()` before the call -/
  affectedRows : Nat := 0

/-- `CRawDataProcess`: its table and its mode.  The special fields are -1 where the table has none. -/
structure RowProcess extends RowLayout where
  defaultRow : RowValue := fun _ => {}
  lastaccFieldId : Int := -1
  lastmodFieldId : Int := -1
  lastcmodFieldId : Int := -1
  uniqFields : List Nat := []
  /-- 0 for a key that is no part of the unique fields, 1 for one that is all of them, 2 for a part -/
  keysAsUniqField : Nat := 0
  /-- `m_uchInsertOrder` -/
  insertOrder : Bool := false

/-- The answers to the calls made for one row: the affected rows' `ExpandChunk`, the private area's `Init` and
`ExpandChunk`, the allocator and the buffer for the first try, `TryPurgeSize`, and both for the second. -/
structure RowCalls where
  copy : Alloc := none
  privInit : Alloc := some []
  privExpand : Alloc := none
  alloc : Alloc := none
  tmp : Bool := true
  purged : Bool := false
  retryAlloc : Alloc := none
  retryTmp : Bool := true

/-- The answers to the calls of one operation; `hour` is what `RELATIVE_HOUR_CALCULATOR` says. -/
structure ProcessCalls where
  hour : Nat := 0
  affectedInit : Alloc := some []
  row : Nat → RowCalls := fun _ => {}
  strip : Alloc := none

/-- The variables of a walk: the node's buffer, `stRow`, the affected rows, and the counts. -/
structure RowPass where
  raw : RawData
  row : RowValue := fun _ => {}
  affected : Option RawData := none
  rowsInc : Int := 0
  dirtyRowsInc : Int := 0
  /-- `iAffectRows`, `ullAffectedrows` -/
  count : Nat := 0

namespace RawData

/-- `Key()`: the packed key behind the header.  The zeros stand for what is read when the chunk ends before it. -/
def key (l : RowLayout) (b : RawData) : PackedKey l.keySize where
  bytes := (b.content.drop 16 ++
    List.replicate (packedKeySize l.keySize (b.content.drop 16)) 0).take (packedKeySize l.keySize (b.content.drop 16))
  size := by
    have hlen : ((b.content.drop 16 ++ List.replicate (packedKeySize l.keySize (b.content.drop 16)) 0).take
        (packedKeySize l.keySize (b.content.drop 16))).length = packedKeySize l.keySize (b.content.drop 16) := by
      rw [List.length_take, List.length_append, List.length_replicate]
      omega
    rw [hlen]
    unfold packedKeySize
    split
    · rfl
    · cases b.content.drop 16 with
      | nil => simp
      | cons x xs => simp [Nat.add_comm 1]

def stripMem (b : RawData) (alloc : Alloc) : Int × RawData := b.reAllocTo b.dataSize alloc

/-- `UpdateLastAccessTimeByHour` and `UpdateLastUpdateTimeByHour`. -/
def touchHours (b : RawData) (hour : Nat) : RawData :=
  let b := if 10 + 2 > b.content.length then b else { b with content := splice b.content 10 (leBytes 2 hour) }
  if 10 + 2 * 2 > b.content.length then b else { b with content := splice b.content 12 (leBytes 2 hour) }

/-- `CopyRow` with `ref` as reference. -/
def copyRow (b ref : RawData) (alloc : Alloc) : Int × RawData :=
  let uiSize := sub32 ref.offset ref.rowOffset
  let e := b.expandChunk uiSize alloc
  if e.1 ≠ 0 then e else (0, e.2.appendCopy ref uiSize)

end RawData

namespace RowRequest

variable (p : RowProcess) (req : RowRequest)

/-- `UpdateTimestamp`: the fields that are set, in order. -/
def timestamps : List FieldUpdate :=
  let now := req.timestamp.setWidth 64
  let updateall := decide (req.requestCode ≠ .update) || (req.updateInfo.isSome && req.typeCommit)
  (if p.lastaccFieldId > 0 then [FieldUpdate.setWord p.lastaccFieldId.toNat now] else []) ++
    ((if p.lastmodFieldId > 0 then [FieldUpdate.setWord p.lastmodFieldId.toNat now] else []) ++
      (if p.lastcmodFieldId > 0 ∧ updateall = true then [FieldUpdate.setWord p.lastcmodFieldId.toNat now] else []))

/-- Every assignment of `UpdateRow`. -/
def operations : List FieldUpdate := req.timestamps p ++ req.updateInfo.getD []

def updateRow (row : RowValue) : RowValue :=
  (req.operations p).foldl (fun row u => Function.update row u.id (u.apply (row u.id))) row

/-- `CompareRow`: conditions on key fields are passed over. -/
def compareRow (row : RowValue) : Bool :=
  req.allRows || req.conditionInfo.all (fun c => decide (c.id < p.tdef.keyFields) || c.test (row c.id))

end RowRequest

namespace RowProcess

variable (p : RowProcess) (req : RowRequest)

/-- The values `DecodeRow` gives, assigned to a row. -/
def assign (row : RowValue) (values : List FieldVal) : RowValue :=
  (p.storedIds.zip values).foldl (fun row v => Function.update row v.1 v.2) row

/-- What is behind the pointer of a field's value after the operations: those in place that come before the value is
exchanged. -/
def throughValue (id : Nat) : List FieldUpdate → FieldVal → FieldVal
  | [], v => v
  | u :: us, v =>
    if u.id = id then if u.inPlace then throughValue id us (u.apply v) else v else throughValue id us v

/-- The bytes the operations write through the pointers `DecodeRow` gave, field by field from `off`. -/
def writeThrough (us : List FieldUpdate) (row : RowValue) : List Nat → Nat → List UInt8 → List UInt8
  | [], _, content => content
  | j :: js, off, content =>
    let next := (RowLayout.skipField content (p.tdef.field j) off).1
    match (p.tdef.field j).fieldType with
    | .signed | .unsigned | .float => writeThrough us row js next content
    | _ => writeThrough us row js next (splice content (off + 4) (throughValue j us (row j)).bin)

/-- `UpdateRow` on the row variable, and what it does to the chunk. -/
def applyUpdates (s : RowPass) : RowPass :=
  { s with
    raw := { s.raw with
      content := p.writeThrough (req.operations p) s.row p.storedIds (s.raw.rowOffset + 1) s.raw.content }
    row := req.updateRow p s.row }

/-- `encode_to_private_area`: the row, encoded and decoded again. -/
def encodeToPrivateArea (raw : RawData) (row : RowValue) (hour : Nat) (calls : RowCalls) : Int × RowValue :=
  let i := RawData.init p.toRowLayout (raw.key p.toRowLayout) (p.calcRowSize row) hour calls.privInit
  if i.1 ≠ 0 then (-1, row)
  else
    let e := i.2.insertRow p.toRowLayout row false false calls.privExpand true
    if e.1 ≠ 0 then (-2, row)
    else
      let d := e.2.rewind.decodeRow p.toRowLayout false
      match d.2.2 with
      | none => (-3, row)
      | some r => (0, p.assign row r.2)

/-- `AttachData`; `log` says that there is an object for the affected rows. -/
def attachData (b : RawData) (log : Bool) (calls : ProcessCalls) : Int × RowPass :=
  let a := b.attach p.toRowLayout
  if a.1 ≠ 0 then (-1, { raw := a.2 })
  else if log then
    let i := RawData.init p.toRowLayout (a.2.key p.toRowLayout) 0 calls.hour calls.affectedInit
    if i.1 ≠ 0 then (-2, { raw := a.2, affected := some i.2 }) else (0, { raw := a.2, affected := some i.2 })
  else (0, { raw := a.2 })

/-- A call that is repeated when there was no memory and `TryPurgeSize` found some. -/
def retried (r : Int × RawData) (purged : Bool) (again : RawData → Int × RawData) : Int × RawData :=
  if r.1 = ecNoMem ∧ purged = true then again r.2 else r

/-- The loop over the rows: it ends with the first error. -/
def eachRow (step : RowCalls → RowPass → Int × RowPass) (calls : Nat → RowCalls) : Nat → Nat → RowPass → Int × RowPass
  | 0, _, s => (0, s)
  | n + 1, i, s =>
    let r := step (calls i) s
    if r.1 ≠ 0 then r else eachRow step calls n (i + 1) r.2

/-- `OPER_DIRTY` of a row's flags, as a number. -/
def dirtyInc (uchRowFlags : UInt8) : Int := if uchRowFlags &&& operDirty ≠ 0 then 1 else 0

/-! ## `DeleteData` -/

/-- The body of the loop.  A failure to copy the row is only logged. -/
def deleteStep (calls : RowCalls) (s : RowPass) : Int × RowPass :=
  let d := s.raw.decodeRow p.toRowLayout false
  match d.2.2 with
  | none => (-4, { s with raw := d.2.1 })
  | some (uchRowFlags, values) =>
    let s := { s with raw := d.2.1, row := p.assign s.row values }
    if req.compareRow p s.row then
      let r := s.raw.deleteCurRow p.toRowLayout
      let s := { s with raw := r.2, affected := s.affected.map (fun a => (a.copyRow s.raw calls.copy).2) }
      if r.1 ≠ 0 then (-5, s)
      else
        (0, { s with
          count := s.count + 1
          rowsInc := s.rowsInc - 1
          dirtyRowsInc := s.dirtyRowsInc - dirtyInc uchRowFlags })
    else (0, s)

/-- What is done behind the loop: `StripMem` when rows were deleted, and the hours when rows are left. -/
def deleteEnd (calls : ProcessCalls) (s : RowPass) : RowPass :=
  let raw := if s.count > 0 then (s.raw.stripMem calls.strip).2 else s.raw
  { s with raw := if raw.rowCnt > 0 then raw.touchHours calls.hour else raw }

/-- `DeleteData`: also `resultInfo.AffectedRows()` after it. -/
def deleteData (b : RawData) (log : Bool) (calls : ProcessCalls) : Int × RowPass × Nat :=
  let a := p.attachData b log calls
  if a.1 ≠ 0 then (a.1, a.2, req.affectedRows)
  else
    let r := eachRow (p.deleteStep req) calls.row a.2.raw.rowCnt 0 a.2
    if r.1 ≠ 0 then (r.1, r.2, req.affectedRows)
    else
      (0, deleteEnd calls r.2,
        if r.2.count > 0 ∧ (req.affectedRows = 0 ∨ req.timestampCondition = true) then r.2.count else req.affectedRows)

/-! ## `UpdateData` -/

/-- `InsertRow` into the object for the affected rows, if there is one. -/
def logRow (s : RowPass) (isDirty : Bool) (alloc : Alloc) : Int × RowPass :=
  match s.affected with
  | none => (0, s)
  | some a =>
    let r := a.insertRow p.toRowLayout s.row false isDirty alloc true
    (r.1, { s with affected := some r.2 })

/-- `ReplaceCurRow`, if need be after `TryPurgeSize`, and the counts behind it. -/
def writeBack (async : Bool) (uchRowFlags : UInt8) (calls : RowCalls) (s : RowPass) : Int × RowPass :=
  let r := retried (s.raw.replaceCurRow p.toRowLayout s.row async calls.alloc calls.tmp) calls.purged
    (fun b => b.replaceCurRow p.toRowLayout s.row async calls.retryAlloc calls.retryTmp)
  if r.1 ≠ 0 then (-6, { s with raw := r.2 })
  else (0, { s with raw := r.2, dirtyRowsInc := s.dirtyRowsInc - dirtyInc uchRowFlags + (if async then 1 else 0) })

def updateMatch (async : Bool) (hour : Nat) (uchRowFlags : UInt8) (calls : RowCalls) (s : RowPass) : Int × RowPass :=
  let s := p.applyUpdates req { s with count := s.count + 1 }
  let g := p.logRow s async calls.copy
  if g.1 ≠ 0 then (-2, g.2)
  else
    let e := p.encodeToPrivateArea g.2.raw g.2.row hour calls
    if e.1 ≠ 0 then (-3, g.2) else p.writeBack async uchRowFlags calls { g.2 with row := e.2 }

def updateStep (async : Bool) (hour : Nat) (calls : RowCalls) (s : RowPass) : Int × RowPass :=
  let d := s.raw.decodeRow p.toRowLayout false
  match d.2.2 with
  | none => (-1, { s with raw := d.2.1 })
  | some (uchRowFlags, values) =>
    let s := { s with raw := d.2.1, row := p.assign s.row values }
    if req.compareRow p s.row then p.updateMatch req async hour uchRowFlags calls s else (0, s)

/-- `UpdateData`: also `resultInfo.AffectedRows()` after it. -/
def updateData (b : RawData) (log async setrows : Bool) (calls : ProcessCalls) : Int × RowPass × Nat :=
  let a := p.attachData b log calls
  if a.1 ≠ 0 then (a.1, a.2, req.affectedRows)
  else
    let r := eachRow (p.updateStep req async calls.hour) calls.row a.2.raw.rowCnt 0 a.2
    if r.1 ≠ 0 then (r.1, r.2, req.affectedRows)
    else
      (0, { r.2 with raw := r.2.raw.touchHours calls.hour },
        if async = true ∨ setrows = true then r.2.count else req.affectedRows)

/-! ## `AppendData` -/

/-- `CRowValue::Compare` over a list of fields. -/
def compareFields (row old : RowValue) : List Nat → Int
  | [] => 0
  | j :: js =>
    match p.tdef.fieldType j with
    | .signed | .unsigned => if (row j).word = (old j).word then compareFields row old js else -1
    | .float => -2
    | .string =>
      if (row j).bin.length = (old j).bin.length ∧ CTableDefinition.mystrcmp (row j).bin (old j).bin = true then
        compareFields row old js else -1
    | .binary => if (row j).bin = (old j).bin then compareFields row old js else -1
    | .none => -3

/-- The body of the search for a row with the new one's unique fields. -/
def uniqStep (newRow : RowValue) (_ : RowCalls) (s : RowPass) : Int × RowPass :=
  let d := s.raw.decodeRow p.toRowLayout false
  match d.2.2 with
  | none => (-1, { s with raw := d.2.1 })
  | some (_, values) =>
    let s := { s with raw := d.2.1, row := p.assign s.row values }
    (if p.compareFields newRow s.row p.uniqFields = 0 then -1062 else 0, s)

/-- The row to insert: the defaults, what the request sets, and the number the database assigned. -/
def newRow : RowValue :=
  let row := req.updateRow p p.defaultRow
  if p.tdef.hasAutoInc ≥ p.tdef.keyFields ∧ req.insertID ≠ 0 then
    Function.update row p.tdef.hasAutoInc.toNat { row p.tdef.hasAutoInc.toNat with word := req.insertID }
  else row

def appendChecks (newRow : RowValue) (isDirty setrows : Bool) (s : RowPass) : Int × RowPass :=
  if s.raw.rowCnt > 0 then
    if (isDirty = true ∨ setrows = true) ∧ p.keysAsUniqField = 1 then (-1062, s)
    else if setrows = true ∧ p.keysAsUniqField ≠ 0 then
      eachRow (p.uniqStep newRow) (fun _ => {}) s.raw.rowCnt 0 s
    else (0, s)
  else (0, s)

/-- `AppendData`: also `resultInfo.AffectedRows()` after it.  It makes the calls of one row. -/
def appendData (b : RawData) (log isDirty setrows : Bool) (calls : ProcessCalls) : Int × RowPass × Nat :=
  let row := p.newRow req
  let a := p.attachData b log calls
  if a.1 ≠ 0 then (a.1, a.2, req.affectedRows)
  else
    let c := p.appendChecks row isDirty setrows a.2
    if c.1 ≠ 0 then (c.1, c.2, req.affectedRows)
    else
      let g := p.logRow { c.2 with row := row } isDirty (calls.row 0).copy
      if g.1 ≠ 0 then (-1, g.2, req.affectedRows)
      else
        let r := retried
          (g.2.raw.insertRow p.toRowLayout row p.insertOrder isDirty (calls.row 0).alloc (calls.row 0).tmp)
          (calls.row 0).purged (fun b =>
            b.insertRow p.toRowLayout row p.insertOrder isDirty (calls.row 0).retryAlloc (calls.row 0).retryTmp)
        if r.1 ≠ 0 then (-2, { g.2 with raw := r.2 }, req.affectedRows)
        else
          (0,
            { g.2 with
              raw := r.2.touchHours calls.hour
              rowsInc := 1
              dirtyRowsInc := if isDirty then 1 else 0 },
            if req.affectedRows = 0 ∨ setrows = true then 1 else req.affectedRows)

end RowProcess

end Dtc
