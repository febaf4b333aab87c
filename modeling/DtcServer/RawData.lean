import DtcServer.RowLayout
import DtcServer.TaskKey
/-!
# RawData — `CRawData`, a buffer of rows in one chunk of the allocator

The chunk's bytes are a list as long as the chunk.  An allocator call is answered by an `Alloc`: no chunk, or what the new
chunk holds behind the bytes that are kept.  Every operation gives its return code and the object after it.
-/
namespace Dtc

open Bytes

def ecNoMem : Int := 2041

def operSelect : UInt8 := 0x30
def operUpdate : UInt8 := 0x32
def operInsert : UInt8 := 0x36

/-- `a - b` of two 32-bit numbers. -/
def sub32 (a b : Nat) : Nat := (a + 2 ^ 32 - b) % 2 ^ 32

/-- The answer to an allocator call. -/
abbrev Alloc := Option (List UInt8)

/-- `ReAlloc` to `size` bytes, or `Malloc` where there is no chunk yet: the first `size` bytes stay, the new chunk has at
least `size` bytes.  A chunk's size is a number of 32 bits. -/
def reAlloc (content : List UInt8) (size : Nat) : Alloc → Option (List UInt8)
  | none => none
  | some fill =>
    let kept := content.take size
    let chunk := kept ++ (fill ++ List.replicate (size - (kept.length + fill.length)) 0)
    if chunk.length < 2 ^ 32 then some chunk else none

/-- `CRawData`.  `content` is the chunk at `m_pchContent`, as long as `_size`; `overrun` says that `memcpy` or `memmove`
left the chunk. -/
structure RawData where
  handle : Bool := false
  content : List UInt8 := []
  dataSize : Nat := 0
  rowCnt : Nat := 0
  dataStart : Nat := 0
  rowOffset : Nat := 0
  offset : Nat := 0
  needSize : Nat := 0
  overrun : Bool := false
  deriving DecidableEq, Repr

namespace RawData

def memcpy (b : RawData) (dst : Nat) (bytes : List UInt8) : RawData :=
  { b with
    content := splice b.content dst bytes
    overrun := b.overrun || decide (b.content.length < dst + bytes.length) }

def rewind (b : RawData) : RawData := { b with offset := b.dataStart, rowOffset := b.dataStart }

def memmove (b : RawData) (dst src n : Nat) : RawData :=
  { b with
    content := splice b.content dst (slice b.content src n)
    overrun := b.overrun || decide (b.content.length < dst + n) || decide (b.content.length < src + n) }

/-- `SET_VALUE` and `SET_BIN_VALUE` -/
def setValue (b : RawData) (bytes : List UInt8) : Bool × RawData :=
  if b.offset + bytes.length > b.content.length then (false, b)
  else (true, { b with content := splice b.content b.offset bytes, offset := b.offset + bytes.length })

/-- `SET_VALUE_AT_OFFSET` of a number of 32 bits -/
def setValueAtOffset (b : RawData) (value off : Nat) : RawData :=
  if off + 4 > b.content.length then b else { b with content := splice b.content off (leBytes 4 value) }

def setDataSize (b : RawData) : RawData := b.setValueAtOffset b.dataSize 1

def setRowCount (b : RawData) : RawData := b.setValueAtOffset b.rowCnt 5

/-- The chunk is exchanged for one of `size` bytes. -/
def reAllocTo (b : RawData) (size : Nat) (alloc : Alloc) : Int × RawData :=
  match reAlloc b.content size alloc with
  | none => (ecNoMem, { b with needSize := size })
  | some chunk => (0, { b with handle := true, content := chunk })

def expandChunk (b : RawData) (tExpSize : Nat) (alloc : Alloc) : Int × RawData :=
  if !b.handle then (-1, b)
  else
    let size := (b.dataSize + tExpSize) % 2 ^ 32
    if size > b.content.length then b.reAllocTo size alloc else (0, b)

def reAllocChunk (b : RawData) (tSize : Nat) (alloc : Alloc) : Int × RawData :=
  if tSize > b.content.length then b.reAllocTo tSize alloc else (0, b)

/-- `Init`; `hour` is what `RELATIVE_HOUR_CALCULATOR` says. -/
def init (l : RowLayout) (key : PackedKey l.keySize) (uiDataSize hour : Nat) (alloc : Alloc) : Int × RawData :=
  let ks := packedKeySize l.keySize key.bytes
  let size := (uiDataSize + (16 + ks)) % 2 ^ 32
  match reAlloc [] size alloc with
  | none => (ecNoMem, { needSize := size })
  | some chunk =>
    let b : RawData := { handle := true, content := chunk, dataSize := 16 + ks }
    let hours := leBytes 2 hour ++ (leBytes 2 hour ++ leBytes 2 hour)
    -- type, data size, row count, get count and the three hours
    let r := b.setValue (0 :: (leBytes 4 b.dataSize ++ (leBytes 4 0 ++ (1 :: hours))))
    if r.1 then
      let b := r.2.memcpy r.2.offset key.bytes
      (0, { b with offset := b.offset + ks, dataStart := b.offset + ks, rowOffset := b.offset + ks })
    else (-100, r.2)

/-- `Attach` to the object's own chunk. -/
def attach (l : RowLayout) (b : RawData) : Int × RawData :=
  if b.content.length = 0 then (-1, b)
  else if b.content.head? ≠ some 0 then (-2, { b with offset := 1 })
  else if b.content.length < 16 then (-100, b)
  else
    let dataSize := leNat 4 (slice b.content 1 4)
    let rowCnt := leNat 4 (slice b.content 5 4)
    let b := { b with dataSize := dataSize, rowCnt := rowCnt, offset := 16 }
    if dataSize > b.content.length then (-3, b)
    else
      let dataStart := 16 + packedKeySize l.keySize (b.content.drop 16)
      if dataStart > b.content.length then (-100, b)
      else (0, { b with offset := dataStart, dataStart := dataStart, rowOffset := dataStart })

/-- `DecodeRow`: also the flag and the values it gives.  `preDecode` is `PRE_DECODE_ROW`. -/
def decodeRow (l : RowLayout) (b : RawData) (preDecode : Bool) : Int × RawData × Option (UInt8 × List FieldVal) :=
  if !b.handle then (-1, b, none)
  else
    let rowOffset := if preDecode then b.rowOffset else b.offset
    if b.offset + 1 > b.content.length then (-100, { b with rowOffset := rowOffset }, none)
    else
      let r := l.decodeFields b.content l.storedIds (b.offset + 1)
      let b' := { b with rowOffset := rowOffset, offset := if preDecode then b.offset else r.1 }
      match r.2 with
      | none => (-100, b', none)
      | some values => (0, b', some (b.content.getD b.offset 0, values))

/-- The loop of `EncodeRow`. -/
def setFields (l : RowLayout) (b : RawData) (row : RowValue) : List Nat → Bool × RawData
  | [] => (true, b)
  | j :: js =>
    let r := b.setValue (l.encodeField (l.tdef.field j) (row j))
    if r.1 then setFields l r.2 row js else r

/-- What `EncodeRow` does once there is room. -/
def encodeInPlace (l : RowLayout) (b : RawData) (row : RowValue) (uchOp : UInt8) : Int × RawData :=
  let r := b.setValue [uchOp]
  let r := if r.1 then setFields l r.2 row l.storedIds else r
  if r.1 then
    let b := { r.2 with dataSize := (r.2.dataSize + l.calcRowSize row) % 2 ^ 32 }.setDataSize
    (0, { b with rowCnt := (b.rowCnt + 1) % 2 ^ 32 }.setRowCount)
  else (-100, r.2)

/-- `EncodeRow` with `expendBuf`. -/
def encodeRow (l : RowLayout) (b : RawData) (row : RowValue) (uchOp : UInt8) (alloc : Alloc) : Int × RawData :=
  let e := b.expandChunk (l.calcRowSize row) alloc
  if e.1 ≠ 0 then e else encodeInPlace l e.2 row uchOp

/-- The rows behind `uiOldSize` are brought to the front; `tmp` says that the buffer for them was allocated. -/
def rotateRows (b : RawData) (uiOldSize : Nat) (tmp : Bool) : Int × RawData :=
  let uiNewRowSize := sub32 b.dataSize uiOldSize
  if uiNewRowSize > 0 ∧ sub32 uiOldSize b.dataStart > 0 then
    if !tmp then (-12, b)
    else
      let pBuf := slice b.content uiOldSize uiNewRowSize
      let b := b.memmove (b.dataStart + uiNewRowSize) b.dataStart (sub32 uiOldSize b.dataStart)
      (0, b.memcpy b.dataStart pBuf)
  else (0, b)

def insertRowFlag (l : RowLayout) (b : RawData) (row : RowValue) (byFirst : Bool) (uchOp : UInt8) (alloc : Alloc)
    (tmp : Bool) : Int × RawData :=
  let r := encodeRow l { b with offset := b.dataSize } row uchOp alloc
  if r.1 = 0 ∧ byFirst = true then r.2.rotateRows b.dataSize tmp else r

def insertFlag (isDirty : Bool) : UInt8 := if isDirty then operInsert else operSelect

def insertRow (l : RowLayout) (b : RawData) (row : RowValue) (byFirst isDirty : Bool) (alloc : Alloc) (tmp : Bool) :
    Int × RawData :=
  b.insertRowFlag l row byFirst (insertFlag isDirty) alloc tmp

/-- The loop of `InsertNRows` over the rows, each with the answer to the allocator call it may make. -/
def encodeEach (l : RowLayout) (b : RawData) (uchOp : UInt8) : List (RowValue × Alloc) → Int × RawData
  | [] => (0, b)
  | (row, alloc) :: rows =>
    let r := encodeRow l b row uchOp alloc
    if r.1 ≠ 0 then r else encodeEach l r.2 uchOp rows

def insertNRows (l : RowLayout) (b : RawData) (rows : List (RowValue × Alloc)) (byFirst isDirty : Bool) (alloc : Alloc)
    (tmp : Bool) : Int × RawData :=
  let tSize := rows.foldl (fun tSize r => (tSize + l.calcRowSize r.1) % 2 ^ 32) 0
  let e := b.expandChunk tSize alloc
  if e.1 ≠ 0 then e
  else
    let r := encodeEach l { e.2 with offset := b.dataSize } (insertFlag isDirty) rows
    if r.1 ≠ 0 then r else if byFirst then r.2.rotateRows b.dataSize tmp else r

def skipRow (l : RowLayout) (b : RawData) : Int × RawData :=
  if !b.handle then (-1, b)
  else
    let b := { b with offset := b.rowOffset }
    if b.offset ≥ b.dataSize then (-2, b)
    else if b.offset + 1 > b.content.length then (-100, b)
    else
      let r := l.skipFields b.content l.storedIds (b.offset + 1)
      (if r.2 then 0 else -100, { b with offset := r.1 })

/-- `m_uiRowCnt--`, `m_uiDataSize -= size`, and both written into the header. -/
def dropRow (b : RawData) (size : Nat) : RawData :=
  { b with rowCnt := sub32 b.rowCnt 1, dataSize := sub32 b.dataSize size }.setDataSize.setRowCount

/-- The branch of `ReplaceCurRow` for a row that grows.  `s` is the object after `SkipRow`. -/
def replaceGrow (l : RowLayout) (s : RawData) (row : RowValue) (uchRowFlag : UInt8) (uiCurRowSize : Nat)
    (alloc : Alloc) : Int × RawData :=
  let uiNewRowSize := l.calcRowSize row
  let uiNextRowsSize := sub32 s.dataSize s.offset
  let e := s.reAllocTo ((s.dataSize + sub32 uiNewRowSize uiCurRowSize) % 2 ^ 32) alloc
  if e.1 ≠ 0 then e
  else
    let uiNextRowsOffset := s.offset
    let grown := uiNextRowsOffset + (uiNewRowSize - uiCurRowSize)
    let b := if uiNextRowsSize > 0 then e.2.memmove grown uiNextRowsOffset uiNextRowsSize else e.2
    let r := encodeInPlace l { b with offset := b.rowOffset } row uchRowFlag
    if r.1 ≠ 0 then
      (-1, if uiNextRowsSize > 0 then r.2.memmove uiNextRowsOffset grown uiNextRowsSize else r.2)
    else (0, r.2.dropRow uiCurRowSize)

def shorten (b : RawData) (size : Nat) (alloc : Alloc) : RawData :=
  match reAlloc b.content size alloc with
  | none => b
  | some chunk => { b with content := chunk }

/-- The branch for a row that does not grow; the chunk is cut after the row count and size have the new row in them, and
it may stay as it is. -/
def replaceShrink (l : RowLayout) (s : RawData) (row : RowValue) (uchRowFlag : UInt8) (uiCurRowSize : Nat)
    (alloc : Alloc) : Int × RawData :=
  let uiNewRowSize := l.calcRowSize row
  let uiNextRowsOffset := s.offset
  let uiNextRowsSize := sub32 s.dataSize s.offset
  let pTmpBuf := slice s.content s.rowOffset uiCurRowSize
  let r := encodeInPlace l { s with offset := s.rowOffset } row uchRowFlag
  if r.1 ≠ 0 then (-1, r.2.memcpy s.rowOffset pTmpBuf)
  else
    let b := if uiNextRowsSize > 0 ∧ r.2.offset ≠ uiNextRowsOffset then
      r.2.memmove r.2.offset uiNextRowsOffset uiNextRowsSize else r.2
    (0, (b.shorten (sub32 (b.dataSize + uiNewRowSize) uiCurRowSize) alloc).dropRow uiCurRowSize)

/-- `ReplaceCurRow`; `tmp` says that the buffer for the old row was allocated. -/
def replaceCurRow (l : RowLayout) (b : RawData) (row : RowValue) (isDirty : Bool) (alloc : Alloc) (tmp : Bool) :
    Int × RawData :=
  let s := b.skipRow l
  if s.1 ≠ 0 then (s.1, { s.2 with offset := b.offset })
  else if b.rowOffset + 1 > b.content.length then (0, { s.2 with offset := b.offset })
  else
    let uchRowFlag := if isDirty then operUpdate else b.content.getD b.rowOffset 0
    let uiCurRowSize := sub32 s.2.offset b.rowOffset
    if l.calcRowSize row > uiCurRowSize then
      let r := replaceGrow l s.2 row uchRowFlag uiCurRowSize alloc
      if r.1 ≠ 0 then (r.1, { r.2 with offset := b.offset }) else r
    else if !tmp then (-12, s.2)
    else
      let r := replaceShrink l s.2 row uchRowFlag uiCurRowSize alloc
      if r.1 ≠ 0 then (r.1, { r.2 with offset := b.offset }) else r

def deleteCurRow (l : RowLayout) (b : RawData) : Int × RawData :=
  let s := b.skipRow l
  if s.1 ≠ 0 then (s.1, { s.2 with offset := b.offset })
  else
    let b := s.2.memmove s.2.rowOffset s.2.offset (sub32 s.2.dataSize s.2.offset)
    let b := b.dropRow (sub32 b.offset b.rowOffset)
    (0, { b with offset := b.rowOffset })

def deleteAllRows (b : RawData) : Int × RawData :=
  let b := { b with dataSize := b.dataStart, rowOffset := b.dataStart, rowCnt := 0, offset := b.dataStart }
  (0, { b.setDataSize.setRowCount with needSize := 0 })

def setCurRowFlag (b : RawData) (uchFlag : UInt8) : Int × RawData :=
  if b.rowOffset ≥ b.dataSize then (-1, b) else (0, b.memcpy b.rowOffset [uchFlag])

/-- `memcpy` of `n` bytes of another object's chunk. -/
def copyFrom (b ref : RawData) (dst src n : Nat) : RawData :=
  let b := b.memcpy dst (slice ref.content src n)
  { b with overrun := b.overrun || decide (ref.content.length < src + n) }

/-- `CopyRow` once the chunk is expanded; `ref` is the reference then. -/
def appendCopy (b ref : RawData) (uiSize : Nat) : RawData :=
  let b := b.copyFrom ref b.offset ref.rowOffset uiSize
  let b := { b with
    offset := (b.offset + uiSize) % 2 ^ 32
    dataSize := (b.dataSize + uiSize) % 2 ^ 32
    rowCnt := (b.rowCnt + 1) % 2 ^ 32 }
  b.setDataSize.setRowCount

/-- `CopyAll` once the chunk is large enough. -/
def takeOver (l : RowLayout) (b ref : RawData) : Int × RawData :=
  (b.copyFrom ref 0 0 ref.dataSize).attach l

end RawData

end Dtc
