import DtcServer.Bytes
/-!
# Binlog — the journal of changes (`CLogWriter`, `CLogReader`, `CBinlogWriter`, `CBinlogReader`)

The journal is a directory of files with serial numbers.  The writer goes on to a new file when the one it writes has reached
its size; the reader goes on to the next file when its own has not enough bytes left.  A journal id is a serial number and an
offset, of 32 bits each.
-/
namespace Dtc

open Bytes

structure JournalID where
  serial : Nat
  offset : Nat
  deriving DecidableEq, Repr

def JournalID.of (serial offset : Nat) : JournalID := ⟨serial % 2 ^ 32, offset % 2 ^ 32⟩

/-- The files of the journal, by their serial numbers. -/
abbrev LogDir := List (Nat × List UInt8)

namespace LogDir

def content (d : LogDir) (serial : Nat) : Option (List UInt8) := d.lookup serial

/-- The file has these bytes, whether it was there or not. -/
def put (d : LogDir) (serial : Nat) (bytes : List UInt8) : LogDir :=
  (serial, bytes) :: d.filter (fun file => file.1 ≠ serial)

def deleteFile (d : LogDir) (serial : Nat) : LogDir := d.filter (fun file => file.1 ≠ serial)

/-- One name of the directory: the number 0 is not looked at. -/
def scanOne (acc : Nat × Nat) (v : Nat) : Nat × Nat :=
  if 1 ≤ v then (if v < acc.1 then v else acc.1, if acc.2 < v then v else acc.2) else acc

/-- `scan_serial`: the smallest and the largest number. -/
def scanSerial (d : LogDir) : Nat × Nat :=
  if d = [] then (0, 0) else (d.map Prod.fst).foldl scanOne (2 ^ 32 - 1, 0)

def maxSerial (d : LogDir) : Nat := d.scanSerial.2

end LogDir

/-! ## The writer -/

/-- `CLogWriter`; `fd` is the serial number of the open file. -/
structure LogWriter where
  fd : Nat
  curSize : Nat
  maxSize : Nat
  totalSize : Nat
  curMaxSerial : Nat
  curMinSerial : Nat
  deriving DecidableEq, Repr

namespace LogWriter

/-- `open`: always with a new file. -/
def «open» (d : LogDir) (maxSize totalSize : Nat) : LogDir × LogWriter :=
  let serial := (d.scanSerial.2 + 1) % 2 ^ 32
  (d.put serial [], ⟨serial, 0, maxSize, totalSize, serial, d.scanSerial.1⟩)

/-- The size the files before the current one are taken to have. -/
def total (w : LogWriter) : Nat := (w.curMaxSerial + 2 ^ 32 - w.curMinSerial) % 2 ^ 32 * w.maxSize % 2 ^ 64

def shiftFile (d : LogDir) (w : LogWriter) : LogDir × LogWriter :=
  if w.curSize < w.maxSize then (d, w)
  else
    let serial := (w.curMaxSerial + 1) % 2 ^ 32
    if w.totalSize ≤ w.total then
      ((d.deleteFile w.curMinSerial).put serial [],
        { w with fd := serial, curSize := 0, curMaxSerial := serial, curMinSerial := (w.curMinSerial + 1) % 2 ^ 32 })
    else (d.put serial [], { w with fd := serial, curSize := 0, curMaxSerial := serial })

/-- `write`: the file is open for appending. -/
def write (d : LogDir) (w : LogWriter) (buf : List UInt8) : LogDir × LogWriter :=
  shiftFile (d.put w.fd ((d.content w.fd).getD [] ++ buf)) { w with curSize := w.curSize + buf.length }

def query (w : LogWriter) : JournalID := .of w.curMaxSerial w.curSize

end LogWriter

structure BinlogWriter where
  logWriter : LogWriter
  codecBuffer : List UInt8 := []

namespace BinlogWriter

/-- `InsertHeader`, at a time: the length comes later. -/
def insertHeader (w : BinlogWriter) (type operater : UInt8) (count time : UInt32) : BinlogWriter :=
  { w with codecBuffer := leBytes 4 0 ++ [0x02] ++ [type] ++ [operater] ++ [0, 0, 0, 0, 0] ++ leBytes 4 time.toNat ++
      leBytes 4 count.toNat }

def appendBody (w : BinlogWriter) (buf : List UInt8) : BinlogWriter :=
  { w with codecBuffer := w.codecBuffer ++ leBytes 4 buf.length ++ buf }

def commit (d : LogDir) (w : BinlogWriter) : LogDir × BinlogWriter :=
  let buf := splice w.codecBuffer 0 (leBytes 4 (w.codecBuffer.length - 4))
  let r := w.logWriter.write d buf
  (r.1, ⟨r.2, buf⟩)

def queryID (w : BinlogWriter) : JournalID := w.logWriter.query

end BinlogWriter

/-! ## The reader -/

/-- `CLogReader`; `fd` is the open file with its position. -/
structure LogReader where
  minSerial : Nat := 0
  maxSerial : Nat := 0
  curSerial : Nat := 0
  curOffset : Nat := 0
  fd : Option (Nat × Nat) := none
  deriving DecidableEq, Repr

namespace LogReader

/-- `open_file` for reading: no file is open when there is none. -/
def openFile (d : LogDir) (serial : Nat) : Option (Nat × Nat) := (d.content serial).map (fun _ => (serial, 0))

def refresh (d : LogDir) (r : LogReader) : LogReader :=
  { r with minSerial := d.scanSerial.1, maxSerial := d.scanSerial.2 }

def «open» (d : LogDir) (r : LogReader) : LogReader :=
  let r := r.refresh d
  { r with curSerial := r.minSerial, curOffset := 0, fd := openFile d r.minSerial }

/-- `stat_size` of the open file; what is not open has no size. -/
def statSize (d : LogDir) : Option (Nat × Nat) → Nat
  | none => 0
  | some f => ((d.content f.1).getD []).length

/-- `seek`, and whether it succeeded. -/
def seek (d : LogDir) (r : LogReader) (v : JournalID) : LogReader × Bool :=
  if d.content v.serial = none then (r, false)
  else
    let fd := if v.serial ≠ r.curSerial then openFile d v.serial else r.fd
    if statSize d fd % 2 ^ 32 < v.offset then ({ r with fd := fd }, false)
    else ({ r with curOffset := v.offset, curSerial := v.serial, fd := fd.map (fun f => (f.1, v.offset)) }, true)

def skipMissing (d : LogDir) (max : Nat) : Nat → Nat → Nat
  | 0, cur => cur
  | n + 1, cur => if d.content cur = none ∧ cur < max then skipMissing d max n (cur + 1) else cur

/-- `read`; the bytes that were read when there were enough of them.  The number bounds the files it goes on to. -/
def readLoop (d : LogDir) (size : Nat) : Nat → LogReader → LogReader × Option (List UInt8)
  | fuel, r =>
    match r.fd with
    | none => (r, none)
    | some f =>
      let bytes := (((d.content f.1).getD []).drop f.2).take size
      let r := { r with fd := some (f.1, f.2 + bytes.length) }
      if bytes.length = size then ({ r with curOffset := r.curOffset + size }, some bytes)
      else
        let r := r.refresh d
        if r.curSerial < r.maxSerial then
          let cur := skipMissing d r.maxSerial (r.maxSerial - (r.curSerial + 1)) (r.curSerial + 1)
          let r := { r with curSerial := cur, curOffset := 0, fd := openFile d cur }
          match fuel with
          | 0 => (r, none)
          | fuel + 1 => readLoop d size fuel r
        else if bytes.length > 0 then ((r.seek d (.of r.curSerial r.curOffset)).1, none)
        else (r, none)

def read (d : LogDir) (r : LogReader) (size : Nat) : LogReader × Option (List UInt8) :=
  readLoop d size (d.maxSerial - r.curSerial) r

def query (r : LogReader) : JournalID := .of r.curSerial r.curOffset

end LogReader

/-- `CBinlogReader`; the buffer is that of the last record read. -/
structure BinlogReader where
  logReader : LogReader := {}
  codecBuffer : List UInt8 := []

/-- The length of a record's rest, when it is possible. -/
def recordRest (head : List UInt8) : Option Nat :=
  if leNat 4 head < 8 ∨ 2 ^ 20 ≤ leNat 4 head then none else some (leNat 4 head)

namespace BinlogReader

def read (d : LogDir) (b : BinlogReader) : BinlogReader × Bool :=
  match b.logReader.read d 4 with
  | (r, none) => ({ b with logReader := r }, false)
  | (r, some head) =>
    match recordRest head with
    | none => ({ b with logReader := r }, false)
    | some len =>
      match r.read d len with
      | (r, none) => ({ b with logReader := r }, false)
      | (r, some body) => (⟨r, head ++ body⟩, true)

def seek (d : LogDir) (b : BinlogReader) (v : JournalID) : BinlogReader × Bool :=
  let r := b.logReader.seek d v
  ({ b with logReader := r.1 }, r.2)

def queryID (b : BinlogReader) : JournalID := b.logReader.query

def pointerLoop (buf : List UInt8) : Nat → Nat → Nat
  | 0, l => 20 + l
  | id + 1, l => pointerLoop buf id ((l + (leNat 4 (buf.drop (20 + l - 4)) + 4)) % 2 ^ 32)

/-- `RecordPointer`, as a position in the buffer -/
def recordPointer (b : BinlogReader) (id : Nat) : Nat := pointerLoop b.codecBuffer id 4

def lengthLoop (buf : List UInt8) : Nat → Nat → Nat
  | 0, ll => leNat 4 (buf.drop (20 + ll))
  | id + 1, ll => lengthLoop buf id ((ll + (leNat 4 (buf.drop (20 + ll)) + 4)) % 2 ^ 32)

def recordLength (b : BinlogReader) (id : Nat) : Nat := lengthLoop b.codecBuffer id 0

end BinlogReader

/-! ## Records -/

/-- What is written for a record: its header and its bodies. -/
structure BinlogRecord where
  type : UInt8
  operater : UInt8
  count : UInt32
  time : UInt32
  bodies : List (List UInt8)
  deriving DecidableEq, Repr

namespace BinlogRecord

def encodeBodies (bodies : List (List UInt8)) : List UInt8 := (bodies.map (fun body => leBytes 4 body.length ++ body)).flatten

def encodeRest (r : BinlogRecord) : List UInt8 :=
  [0x02, r.type, r.operater, 0, 0, 0, 0, 0] ++ leBytes 4 r.time.toNat ++ leBytes 4 r.count.toNat ++ encodeBodies r.bodies

def encode (r : BinlogRecord) : List UInt8 := leBytes 4 r.encodeRest.length ++ r.encodeRest

def Fits (r : BinlogRecord) : Prop := r.encodeRest.length < 2 ^ 20

instance (r : BinlogRecord) : Decidable r.Fits := inferInstanceAs (Decidable (_ < _))

end BinlogRecord

namespace BinlogReader

def next (d : LogDir) (b : BinlogReader) : BinlogReader × Option (List UInt8) :=
  match b.read d with
  | (b, true) => (b, some b.codecBuffer)
  | (b, false) => (b, none)

/-- The records of so many calls of `Read`. -/
def records (d : LogDir) : Nat → BinlogReader → List (List UInt8)
  | 0, _ => []
  | n + 1, b => (b.next d).2.toList ++ records d n (b.next d).1

end BinlogReader

end Dtc
