import DtcServer.Machine
import DtcServer.Memory
/-!
# AsyncFile — the queue of the hot backup (`CAsyncFileWriter`, `CAsyncFileReader`, `CAsyncFilePos`)

One process appends records to files of a fixed size, another reads and removes them.  They share a control file with
the two positions and no lock.  A step below is one store or load of shared memory, or one call of the file system, so
that the tests of the reader are evaluated load by load.
-/
namespace Dtc

open Memory

structure CAsyncFilePos where
  serial : UInt32
  offset : UInt32
  deriving DecidableEq, Repr

namespace CAsyncFilePos

def front (p : CAsyncFilePos) (v : Nat) : CAsyncFilePos := { p with offset := p.offset + UInt32.ofNat v }

/-- The first store of `Shift`. -/
def shiftOffset (p : CAsyncFilePos) : CAsyncFilePos := { p with offset := 0 }

/-- The second store of `Shift`. -/
def shiftSerial (p : CAsyncFilePos) : CAsyncFilePos := { p with serial := p.serial + 1 }

def shift (p : CAsyncFilePos) : CAsyncFilePos := p.shiftOffset.shiftSerial

end CAsyncFilePos

structure Place where
  serial : Nat
  offset : Nat
  deriving DecidableEq, Repr

def CAsyncFilePos.place (p : CAsyncFilePos) : Place := ⟨p.serial.toNat, p.offset.toNat⟩

abbrev maxAsyncFileSize : Nat := 10 * 2 ^ 20

abbrev asyncFileEndFlag : Nat := 0xFFFFFFFF

/-- A file by its number.  A mapped file keeps its content when its name is unlinked. -/
structure AsyncFile where
  linked : Bool
  size : Nat
  mem : Mem

/-- `OpenForWriter`: a file that is not there is created; the size is set. -/
def AsyncFile.openForWriter (f : AsyncFile) : AsyncFile where
  linked := true
  size := maxAsyncFileSize
  mem := fun x => if f.linked ∧ x < f.size ∧ x < maxAsyncFileSize then f.mem x else 0

/-- `OpenForReader` succeeds on a file that is there and not empty. -/
def AsyncFile.openForReader (f : AsyncFile) : Bool := f.linked && decide (0 < f.size)

/-- A `buffer`; `expand` computes the size of the allocation in an `int`. -/
structure Buffer where
  bytes : List UInt8
  room : bytes.length < 2 ^ 31

/-- `IsWriterEnd`: the record, its length and the end flag do not fit. -/
def isWriterEnd (pos : CAsyncFilePos) (len : Nat) : Bool :=
  decide (maxAsyncFileSize ≤ (pos.offset.toNat + len + 4 + 4) % 2 ^ 32)

inductive WriterStage where
  | idle
  | input (buf : Buffer)
  | body (buf : Buffer)
  | advance (buf : Buffer)
  | openNext (buf : Buffer)
  | shiftOffset (buf : Buffer)
  | shiftSerial (buf : Buffer)
  /-- the process gave up -/
  | failed

/-- `CAsyncFileWriter`; `pos` is the position of the file at the front of its list. -/
structure CAsyncFileWriter where
  pos : CAsyncFilePos
  stage : WriterStage := .idle

/-- Where `Read` is: `again` marks the second overflow test, after the pause. -/
inductive ReaderStage where
  | idle
  | commit
  | transientSerial
  | transientOffset
  | eqSerial
  | eqOffset
  | gtSerial (again : Bool)
  | gtSameSerial (again : Bool)
  | gtOffset (again : Bool)
  | gtNotZero (again : Bool)
  | output
  | append
  | front
  | unlink
  | openNext
  | shiftOffset
  | shiftSerial
  /-- there is no file -/
  | failed
  deriving DecidableEq, Repr

/-- `CAsyncFileReader`; `pos` is the position of its file, `buff` the buffer of the caller. -/
structure CAsyncFileReader where
  pos : CAsyncFilePos
  processing : Bool := false
  buff : List UInt8 := []
  stage : ReaderStage := .idle

inductive ReadResult where
  | processOk (buff : List UInt8)
  | waitData
  | readerOverflow
  | switchFileErr
  | readerLogic
  deriving DecidableEq, Repr

structure QueueRecord where
  place : Place
  bytes : List UInt8
  deriving DecidableEq, Repr

/-- The files, the control file (`rpos`, `wpos`) and the two processes; and what happened so far: the records written, what
the calls of `Read` returned, and the files removed. -/
structure AsyncQueue where
  files : Nat → AsyncFile
  rpos : CAsyncFilePos
  wpos : CAsyncFilePos
  writer : CAsyncFileWriter
  reader : CAsyncFileReader
  written : List QueueRecord := []
  returned : List ReadResult := []
  removed : List Nat := []

namespace AsyncQueue

variable (s : AsyncQueue)

def store (bytes : List UInt8) : Nat → AsyncFile :=
  let f := s.files s.writer.pos.serial.toNat
  Function.update s.files s.writer.pos.serial.toNat { f with mem := Memory.writeBytes f.mem s.writer.pos.offset.toNat bytes }

/-- The next step of `CAsyncFileWriter::Write`; `opens` says whether the next file could be opened. -/
def writerStep (opens : Bool) : Option AsyncQueue :=
  match s.writer.stage with
  | .idle | .failed => none
  | .input buf =>
    if isWriterEnd s.writer.pos buf.bytes.length then
      some { s with
        files := s.store (Bytes.leBytes 4 asyncFileEndFlag)
        writer := ⟨s.writer.pos.front 4, .openNext buf⟩ }
    else
      some { s with
        files := s.store (Bytes.leBytes 4 buf.bytes.length)
        writer := ⟨s.writer.pos.front 4, .body buf⟩ }
  | .body buf =>
    some { s with
      files := s.store buf.bytes
      writer := ⟨s.writer.pos.front buf.bytes.length, .advance buf⟩ }
  | .advance buf =>
    some { s with
      wpos := s.writer.pos
      writer := ⟨s.writer.pos, .idle⟩
      written := s.written ++ [⟨s.wpos.place, buf.bytes⟩] }
  | .openNext buf =>
    let pos := s.wpos.shift
    if opens then
      some { s with
        files := Function.update s.files pos.serial.toNat (s.files pos.serial.toNat).openForWriter
        writer := ⟨pos, .shiftOffset buf⟩ }
    else some { s with writer := ⟨s.writer.pos, .failed⟩ }
  | .shiftOffset buf => some { s with wpos := s.wpos.shiftOffset, writer := ⟨s.writer.pos, .shiftSerial buf⟩ }
  | .shiftSerial buf => some { s with wpos := s.wpos.shiftSerial, writer := ⟨s.writer.pos, .input buf⟩ }

def toStage (stage : ReaderStage) : AsyncQueue := { s with reader := { s.reader with stage := stage } }

def giveBack (r : ReadResult) : AsyncQueue :=
  { s with reader := { s.reader with stage := .idle }, returned := s.returned ++ [r] }

/-- The overflow test is true: the first time the reader sleeps and tests again. -/
def overflowSeen (again : Bool) : AsyncQueue :=
  if again then s.giveBack .readerOverflow else s.toStage (.gtSerial true)

def readerMem : Mem := (s.files s.reader.pos.serial.toNat).mem

/-- The next step of `CAsyncFileReader::Read`; `opens` says whether a file that is there could be opened. -/
def readerStep (opens : Bool) : Option AsyncQueue :=
  match s.reader.stage with
  | .idle | .failed => none
  | .commit =>
    some (if s.reader.processing then
        { s with rpos := s.reader.pos, reader := { s.reader with processing := false, stage := .transientSerial } }
      else s.toStage .transientSerial)
  -- `IsTransient`
  | .transientSerial =>
    some (s.toStage (if s.rpos.serial = s.wpos.serial ∧ 0 < s.rpos.offset then .transientOffset else .eqSerial))
  | .transientOffset => some (if s.wpos.offset = 0 then s.giveBack .waitData else s.toStage .eqSerial)
  -- `EQ`
  | .eqSerial => some (s.toStage (if s.rpos.serial = s.wpos.serial then .eqOffset else .gtSerial false))
  | .eqOffset => some (if s.rpos.offset = s.wpos.offset then s.giveBack .waitData else s.toStage (.gtSerial false))
  -- `GT`
  | .gtSerial again =>
    some (if s.wpos.serial < s.rpos.serial then s.overflowSeen again else s.toStage (.gtSameSerial again))
  | .gtSameSerial again => some (s.toStage (if s.rpos.serial = s.wpos.serial then .gtOffset again else .output))
  | .gtOffset again => some (s.toStage (if s.wpos.offset < s.rpos.offset then .gtNotZero again else .output))
  | .gtNotZero again => some (if s.wpos.offset ≠ 0 then s.overflowSeen again else s.toStage .output)
  -- `Output`
  | .output =>
    some (s.toStage (if readNat s.readerMem s.reader.pos.offset.toNat 4 = asyncFileEndFlag then .unlink else .append))
  | .append =>
    let len := readNat s.readerMem s.reader.pos.offset.toNat 4
    let buff := s.reader.buff ++ readBytes s.readerMem (s.reader.pos.front 4).offset.toNat len
    some { s with reader := { s.reader with buff := buff, stage := .front } }
  | .front =>
    let len := readNat s.readerMem s.reader.pos.offset.toNat 4
    some { s with
      reader := { s.reader with pos := (s.reader.pos.front 4).front len, processing := true, stage := .idle }
      returned := s.returned ++ [.processOk s.reader.buff] }
  -- `ASYNC_NEED_SWTICH_FILE`
  | .unlink =>
    let n := s.reader.pos.serial.toNat
    some { s with
      files := Function.update s.files n { s.files n with linked := false }
      reader := { s.reader with stage := .openNext }
      removed := s.removed ++ [n] }
  | .openNext =>
    let pos := s.rpos.shift
    if opens && (s.files pos.serial.toNat).openForReader then
      some { s with reader := { s.reader with pos := pos, stage := .shiftOffset } }
    else
      some { s with reader := { s.reader with stage := .failed }, returned := s.returned ++ [.switchFileErr] }
  | .shiftOffset => some { s with rpos := s.rpos.shiftOffset, reader := { s.reader with stage := .shiftSerial } }
  | .shiftSerial => some { s with rpos := s.rpos.shiftSerial, reader := { s.reader with stage := .commit } }

def callWrite (buf : Buffer) : Option AsyncQueue :=
  match s.writer.stage with
  | .idle => some { s with writer := ⟨s.writer.pos, .input buf⟩ }
  | _ => none

/-- A call of `Read` with an empty buffer. -/
def callRead : Option AsyncQueue :=
  match s.reader.stage with
  | .idle => some { s with reader := { s.reader with buff := [], stage := .commit } }
  | .failed => some { s with returned := s.returned ++ [.readerLogic] }
  | _ => none

def callCommit : Option AsyncQueue :=
  match s.reader.stage with
  | .idle =>
    some (if s.reader.processing then { s with rpos := s.reader.pos, reader := { s.reader with processing := false } }
      else s)
  | _ => none

end AsyncQueue

inductive QueueAct where
  | write (buf : Buffer)
  | writer (opens : Bool)
  | read
  | reader (opens : Bool)
  | commit

def AsyncQueue.step (s : AsyncQueue) : QueueAct → Option AsyncQueue
  | .write buf => s.callWrite buf
  | .writer opens => s.writerStep opens
  | .read => s.callRead
  | .reader opens => s.readerStep opens
  | .commit => s.callCommit

/-- Both have opened the file of one position; old files of any content may be there. -/
def AsyncQueue.Opened (s : AsyncQueue) : Prop :=
  ∃ (files : Nat → AsyncFile) (p : CAsyncFilePos), p.offset.toNat + 4 < maxAsyncFileSize ∧
    s = { files := Function.update files p.serial.toNat (files p.serial.toNat).openForWriter
          rpos := p, wpos := p, writer := { pos := p }, reader := { pos := p } }

def queueMachine : Machine AsyncQueue QueueAct where
  start := AsyncQueue.Opened
  step := AsyncQueue.step

def AsyncQueue.delivered (s : AsyncQueue) : List (List UInt8) :=
  s.returned.filterMap (fun r => match r with
    | .processOk buff => some buff
    | _ => none)

end Dtc
