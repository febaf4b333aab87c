import DtcServer.RawDataProcess
/-!
# RawDataReplace — `CRawDataProcess`, the operations that replace and flush rows

`ReplaceRows` puts one row in the place of those that have its unique fields, `ReplaceData` all rows of a result in the
place of those there are, and `FlushData` hands the dirty rows to a flush request.  A node without a chunk is a buffer
without a handle.
-/
namespace Dtc

open Bytes

structure ReplaceCalls extends ProcessCalls where
  init : Alloc := some []
  initPurged : Bool := false
  retryInit : Alloc := none

/-- What `ReplaceData` reads besides: the limits of the request, and the rows `__FetchRow` gives, `none` for a null
pointer; `result` itself may be null. -/
structure ReplaceRequest extends RowRequest where
  flagNoCache : Bool := false
  countOnly : Bool := false
  limitStart : Nat := 0
  limitCount : Nat := 0
  result : Option (List (Option RowValue)) := none

/-- The variables of `ReplaceData`'s loop. -/
structure ReplacePass where
  raw : RawData
  matchedCount : Nat := 0
  tryPurgeCount : Nat := 0

/-- A sub-task of a flush request: a replace with all fields set. -/
structure CommitTask where
  key : FieldVal
  updateInfo : List (Nat × FieldVal)

/-- The variables of `FlushData`'s loop; `tasks` are the flush request's, `none` where there is no request. -/
structure FlushPass where
  pass : RowPass
  tasks : Option (List CommitTask) := none

namespace RowProcess

variable (p : RowProcess) (req : RowRequest)

/-! ## `ReplaceRows` -/

def initData (key : PackedKey p.keySize) (log : Bool) (calls : ReplaceCalls) : Int × RowPass :=
  let i := RawData.init p.toRowLayout key 0 calls.hour calls.init
  if i.1 ≠ 0 then (-1, { raw := i.2 })
  else if log then
    let a := RawData.init p.toRowLayout key 0 calls.hour calls.affectedInit
    if a.1 ≠ 0 then (-2, { raw := i.2, affected := some a.2 }) else (0, { raw := i.2, affected := some a.2 })
  else (0, { raw := i.2 })

def conflicts (newRow row : RowValue) : Bool :=
  p.keysAsUniqField = 1 || p.compareFields newRow row p.uniqFields = 0

/-- What the loop does with a row that conflicts: the first one is replaced, the others are deleted. -/
def replaceMatch (newRow : RowValue) (async : Bool) (uchRowFlags : UInt8) (calls : RowCalls) (s : RowPass) :
    Int × RowPass :=
  let again := fun b : RawData => b.replaceCurRow p.toRowLayout newRow async calls.retryAlloc calls.retryTmp
  let g := if s.count = 0 then p.logRow { s with row := newRow } async calls.copy else (0, s)
  if g.1 ≠ 0 then (-2, { s with affected := g.2.affected })
  else
    let s := { s with affected := g.2.affected, count := if s.count = 0 then 2 else s.count + 1 }
    let r := retried
      (if s.count = 2 then s.raw.replaceCurRow p.toRowLayout newRow async calls.alloc calls.tmp
        else s.raw.deleteCurRow p.toRowLayout)
      calls.purged again
    if r.1 ≠ 0 then (-3, { s with raw := r.2 })
    else (0, { s with raw := r.2, dirtyRowsInc := s.dirtyRowsInc - dirtyInc uchRowFlags + (if async then 1 else 0) })

def replaceStep (newRow : RowValue) (async : Bool) (calls : RowCalls) (s : RowPass) : Int × RowPass :=
  let d := s.raw.decodeRow p.toRowLayout false
  match d.2.2 with
  | none => (-1, { s with raw := d.2.1 })
  | some (uchRowFlags, values) =>
    let s := { s with raw := d.2.1, row := p.assign s.row values }
    if p.conflicts newRow s.row then p.replaceMatch newRow async uchRowFlags calls s else (0, s)

/-- What is done behind the loop: the row is inserted when none had to give way. -/
def replaceEnd (newRow : RowValue) (async : Bool) (calls : RowCalls) (s : RowPass) : Int × RowPass :=
  if s.count = 0 then
    let r := retried (s.raw.insertRow p.toRowLayout newRow false async calls.alloc calls.tmp) calls.purged
      (fun b => b.insertRow p.toRowLayout newRow false async calls.retryAlloc calls.retryTmp)
    if r.1 ≠ 0 then (-3, { s with raw := r.2 })
    else
      (0, { s with
        raw := r.2
        rowsInc := s.rowsInc + 1
        count := 1
        dirtyRowsInc := s.dirtyRowsInc + (if async then 1 else 0) })
  else (0, s)

/-- `ReplaceRows`: also `resultInfo.AffectedRows()` after it.  The insertion makes the calls of the row behind the last. -/
def replaceRows (key : PackedKey p.keySize) (b : RawData) (log async setrows : Bool) (calls : ReplaceCalls) :
    Int × RowPass × Nat :=
  let newRow := req.updateRow p p.defaultRow
  let a := if b.handle then p.attachData b log calls.toProcessCalls else p.initData key log calls
  if a.1 ≠ 0 then (a.1, a.2, req.affectedRows)
  else
    let r := eachRow (p.replaceStep newRow async) calls.row a.2.raw.rowCnt 0 a.2
    if r.1 ≠ 0 then (r.1, r.2, req.affectedRows)
    else
      let e := p.replaceEnd newRow async (calls.row a.2.raw.rowCnt) r.2
      if e.1 ≠ 0 then (e.1, e.2, req.affectedRows)
      else
        (0, { e.2 with raw := e.2.raw.touchHours calls.hour },
          if async = true ∨ setrows = true then e.2.count else req.affectedRows)

end RowProcess

/-! ## `ReplaceData` of a request -/

namespace ReplaceRequest

variable (p : RowProcess) (req : ReplaceRequest)

/-- `laid`: the field with the time of the last access, where it is kept up to date. -/
def lastaccId : Int :=
  let laid := if req.flagNoCache || req.countOnly then -1 else p.lastaccFieldId
  if laid > 0 ∧ req.limitCount > 0 ∧ req.limitStart > 0x10000000 then -1 else laid

/-- `limitStart` and `limitStop` -/
def limits : Nat × Nat :=
  if p.lastaccFieldId > 0 ∧ req.limitCount > 0 then
    (req.limitStart, if req.limitCount < 0x10000000 then req.limitStart + req.limitCount else 0x10000000)
  else (0, 0x10000000)

/-- A row of the result as it is inserted, and the number of rows that matched with it. -/
def accessed (matchedCount : Nat) (row : RowValue) : RowValue × Nat :=
  if req.lastaccId p > 0 ∧ req.toRowRequest.compareRow p row = true then
    let laid := (req.lastaccId p).toNat
    (if (req.limits p).1 ≤ matchedCount ∧ matchedCount < (req.limits p).2 then
        Function.update row laid { row laid with word := req.timestamp.setWidth 64 }
      else row, matchedCount + 1)
  else (row, matchedCount)

end ReplaceRequest

namespace RowProcess

variable (p : RowProcess)

/-- `InsertRow` of a row of the result; memory is purged for it at most twice. -/
def insertResult (row : RowValue) (calls : RowCalls) (s : ReplacePass) : Int × ReplacePass :=
  let r := s.raw.insertRow p.toRowLayout row false false calls.alloc true
  if r.1 = ecNoMem then
    if s.tryPurgeCount ≥ 2 then (-4, { s with raw := r.2 })
    else
      let r := retried r calls.purged (fun b => b.insertRow p.toRowLayout row false false calls.retryAlloc true)
      (if r.1 = 0 then 0 else -4, { s with raw := r.2, tryPurgeCount := s.tryPurgeCount + 1 })
  else (if r.1 = 0 then 0 else -4, { s with raw := r.2 })

def insertResults (req : ReplaceRequest) (calls : Nat → RowCalls) : List (Option RowValue) → Nat → ReplacePass →
    Int × ReplacePass
  | [], _, s => (0, s)
  | none :: _, _, s => (-3, s)
  | some row :: rows, i, s =>
    let a := req.accessed p s.matchedCount row
    let r := p.insertResult a.1 (calls i) { s with matchedCount := a.2 }
    if r.1 ≠ 0 then r else insertResults req calls rows (i + 1) r.2

/-- `ReplaceData` of a request.  Where it fails behind `DestroyData`, the node is purged and the object destroyed. -/
def replaceData (req : ReplaceRequest) (key : PackedKey p.keySize) (b : RawData) (calls : ReplaceCalls) : Int × RowPass :=
  -- `DestroyData`
  let a := if b.handle then b.attach p.toRowLayout else (0, b)
  let destroyed : Int := if b.handle then -(a.2.rowCnt : Int) else 0
  if a.1 ≠ 0 then (-1, { raw := a.2 })
  else
    let i := retried (RawData.init p.toRowLayout key 0 calls.hour calls.init) calls.initPurged
      (fun _ => RawData.init p.toRowLayout key 0 calls.hour calls.retryInit)
    if i.1 ≠ 0 then (-2, { raw := {}, rowsInc := destroyed })
    else
      let r := p.insertResults req calls.row (req.result.getD []) 0 { raw := i.2 }
      if r.1 ≠ 0 then (r.1, { raw := {}, rowsInc := destroyed })
      else (0, { raw := r.2.raw.touchHours calls.hour, rowsInc := destroyed + ((req.result.getD []).length : Int) })

/-! ## `FlushData` -/

/-- `UnpackKey` of an integer key field with `size` bytes. -/
def unpackWord (f : FieldDef) (bytes : List UInt8) : BitVec 64 :=
  let n := leNat f.fieldSize bytes
  if f.fieldType = .unsigned ∨ n < 2 ^ (8 * f.fieldSize - 1) then BitVec.ofNat 64 n
  else BitVec.ofInt 64 ((n : Int) - 2 ^ (8 * f.fieldSize))

/-- The loop of `UnpackKey` over the fields of an integer key. -/
def unpackWords (bytes : List UInt8) : Nat → Nat → Nat → RowValue
  | 0, _, _ => fun _ => {}
  | n + 1, i, off =>
    let f := p.tdef.field i
    Function.update (unpackWords bytes n (i + 1) (off + f.fieldSize)) i
      { word := unpackWord f (slice bytes off f.fieldSize) }

def unpackKey (bytes : List UInt8) : RowValue :=
  if p.tdef.keyFormat = 0 then
    Function.update (fun _ => {}) 0
      { bin := (bytes.drop 1).take (bytes.headD 0).toNat
        bin_len := Nat.lt_of_le_of_lt (List.length_take_le _ _)
          (Nat.lt_trans (UInt8.toNat_lt (bytes.headD 0)) (by decide)) }
  else p.unpackWords bytes p.tdef.keyFields 0 0

/-- `CTask::Copy` of a row. -/
def commitTask (row : RowValue) : CommitTask where
  key := row 0
  updateInfo := (List.range' 1 (p.tdef.fieldList.length - 1)).map (fun i => (i, row i))

/-- `FlushRow`, where there is a flush request; `copied` says that the new task could be made. -/
def flushRow (s : FlushPass) (copied : Bool) : Bool × FlushPass :=
  match s.tasks with
  | none => (true, s)
  | some tasks => if copied then (true, { s with tasks := some (tasks ++ [p.commitTask s.pass.row]) }) else (false, s)

def flushStep (copied : Bool) (s : FlushPass) : Int × FlushPass :=
  let d := s.pass.raw.decodeRow p.toRowLayout false
  match d.2.2 with
  | none => (-1, { s with pass := { s.pass with raw := d.2.1 } })
  | some (uchRowFlags, values) =>
    let s := { s with pass := { s.pass with raw := d.2.1, row := p.assign s.pass.row values } }
    if uchRowFlags &&& operDirty = 0 then (0, s)
    else
      let f := p.flushRow s copied
      if f.1 then
        (0, { f.2 with pass := { f.2.pass with
          raw := (f.2.pass.raw.setCurRowFlag (uchRowFlags &&& ~~~operDirty)).2
          dirtyRowsInc := f.2.pass.dirtyRowsInc - 1
          count := f.2.pass.count + 1 } })
      else (-2, f.2)

def flushLoop (copied : Nat → Bool) : Nat → Nat → FlushPass → Int × FlushPass
  | 0, _, s => (0, s)
  | n + 1, i, s =>
    let r := p.flushStep (copied i) s
    if r.1 ≠ 0 then r else flushLoop copied n (i + 1) r.2

/-- `FlushData` of a node that is dirty or not, for a flush request with its tasks so far. -/
def flushData (b : RawData) (isDirty : Bool) (tasks : Option (List CommitTask)) (copied : Nat → Bool) :
    Int × FlushPass :=
  let a := p.attachData b false {}
  if a.1 ≠ 0 then (a.1, { pass := a.2, tasks := tasks })
  else
    let key := p.unpackKey (a.2.raw.key p.toRowLayout).bytes
    let row : RowValue := fun j => if j < p.tdef.keyFields then key j else {}
    p.flushLoop copied (if isDirty then a.2.raw.rowCnt else 0) 0 { pass := { a.2 with row := row }, tasks := tasks }

end RowProcess

end Dtc
