import DtcServer.BinlogRead
import DtcServer.Machine
/-!
# BinlogRun — a writer and a reader of one journal

Records are written and read in any order of the calls, and the reader may be set to any journal id that was reported behind a
record.
-/
namespace Dtc

open Bytes Segments BinlogReader

/-- A record is written: `InsertHeader`, `AppendBody` for each of its bodies, `Commit`. -/
def BinlogWriter.writeRecord (d : LogDir) (w : BinlogWriter) (r : BinlogRecord) : LogDir × BinlogWriter :=
  (r.bodies.foldl BinlogWriter.appendBody (w.insertHeader r.type r.operater r.count r.time)).commit d

structure Journal where
  dir : LogDir
  writer : BinlogWriter
  reader : BinlogReader
  written : List BinlogRecord
  marks : List (JournalID × Nat)
  base : Nat
  got : List (List UInt8)

inductive JournalEvent where
  | write (r : BinlogRecord)
  | read
  /-- the reader is set to a journal id that was reported -/
  | seek (i : Nat)

namespace Journal

/-- The writer's and the reader's `Init`, and the reader is set to where the first record will be. -/
def init (d : LogDir) (maxSize totalSize : Nat) : Journal :=
  let x := LogWriter.open d maxSize totalSize
  { dir := x.1, writer := ⟨x.2, []⟩, reader := ((⟨LogReader.open x.1 {}, []⟩ : BinlogReader).seek x.1 x.2.query).1,
    written := [], marks := [(x.2.query, 0)], base := 0, got := [] }

def step (s : Journal) : JournalEvent → Option Journal
  | .write r =>
    let x := s.writer.writeRecord s.dir r
    some { s with
      dir := x.1, writer := x.2, written := s.written ++ [r], marks := s.marks ++ [(x.2.queryID, s.written.length + 1)] }
  | .read =>
    match s.reader.next s.dir with
    | (b, some bytes) =>
      some { s with reader := b, got := s.got ++ [bytes], marks := s.marks ++ [(b.queryID, s.base + s.got.length + 1)] }
    | (b, none) => some { s with reader := b }
  | .seek i =>
    match s.marks[i]? with
    | none => none
    | some mark =>
      match s.reader.seek s.dir mark.1 with
      | (b, true) => some { s with reader := b, base := mark.2, got := [] }
      | (_, false) => none

/-- The writer goes on to another file behind the record. -/
def Shifts (s : Journal) (r : BinlogRecord) : Prop :=
  s.writer.logWriter.maxSize ≤ s.writer.logWriter.curSize + r.encode.length

/-- **Within the limits**: a reader accepts the record, its file stays below 4 GB, and no file is deleted. -/
def Limits (s : Journal) : JournalEvent → Prop
  | .write r => r.Fits ∧ s.writer.logWriter.curSize + r.encode.length < 2 ^ 32 ∧
    (s.Shifts r → s.writer.logWriter.totalSize ≤ s.writer.logWriter.total →
      s.dir.content s.writer.logWriter.curMinSerial = none)
  | .read => True
  | .seek _ => True

def SerialLeft (s : Journal) : JournalEvent → Prop
  | .write r => s.Shifts r → s.writer.logWriter.curMaxSerial + 1 < 2 ^ 32
  | .read => True
  | .seek _ => True

def StepOk (s : Journal) (a : JournalEvent) : Prop := s.Limits a ∧ s.SerialLeft a

instance (s : Journal) (r : BinlogRecord) : Decidable (s.Shifts r) := inferInstanceAs (Decidable (_ ≤ _))

instance (s : Journal) : ∀ a, Decidable (s.Limits a)
  | .write _ => inferInstanceAs (Decidable (_ ∧ _ ∧ (_ → _ → _)))
  | .read => isTrue trivial
  | .seek _ => isTrue trivial

instance (s : Journal) : ∀ a, Decidable (s.SerialLeft a)
  | .write _ => inferInstanceAs (Decidable (_ → _))
  | .read => isTrue trivial
  | .seek _ => isTrue trivial

instance (s : Journal) (a : JournalEvent) : Decidable (s.StepOk a) := inferInstanceAs (Decidable (_ ∧ _))

end Journal

/-- A journal begun in any directory whose largest serial number has a successor. -/
def journalMachine : Machine Journal JournalEvent where
  start s := ∃ d maxSize totalSize, d.maxSerial + 1 < 2 ^ 32 ∧ s = Journal.init d maxSize totalSize
  step := Journal.step

/-! ## What is written -/

namespace BinlogWriter

theorem foldl_appendBody : ∀ (bodies : List (List UInt8)) (w : BinlogWriter), bodies.foldl appendBody w =
    { w with codecBuffer := w.codecBuffer ++ BinlogRecord.encodeBodies bodies }
  | [], w => by
    rw [BinlogRecord.encodeBodies, List.map_nil, List.flatten_nil, List.append_nil]
    rfl
  | body :: bodies, w => by
    rw [List.foldl_cons, foldl_appendBody bodies (w.appendBody body)]
    unfold appendBody BinlogRecord.encodeBodies
    dsimp only
    rw [List.map_cons, List.flatten_cons, List.append_assoc, List.append_assoc, List.append_assoc]

theorem writeRecord_eq (d : LogDir) (w : BinlogWriter) (r : BinlogRecord) : w.writeRecord d r =
    ((w.logWriter.write d r.encode).1, ⟨(w.logWriter.write d r.encode).2, r.encode⟩) := by
  have hbuf : (r.bodies.foldl appendBody (w.insertHeader r.type r.operater r.count r.time)) =
      ⟨w.logWriter, leBytes 4 0 ++ r.encodeRest⟩ := by
    rw [foldl_appendBody]
    unfold insertHeader BinlogRecord.encodeRest
    simp only [List.append_assoc, List.cons_append, List.nil_append]
  have hlen : (leBytes 4 0 ++ r.encodeRest).length - 4 = r.encodeRest.length := by
    rw [List.length_append, length_leBytes]
    omega
  unfold writeRecord commit
  rw [hbuf]
  dsimp only
  rw [hlen, splice_front (by rw [length_leBytes, length_leBytes])]
  rfl

end BinlogWriter

namespace LogDir

variable {d d' : LogDir} {c e : List UInt8} {w : Nat}

/-- **A file has grown by `e`**, it was the last, and there may be a new one behind it. -/
structure Grown (d d' : LogDir) (w : Nat) (c e : List UInt8) : Prop where
  before : ∀ v, v < w → d'.content v = d.content v
  now : d.content w = some c
  grown : d'.content w = some (c ++ e)
  max : d.maxSerial = w
  next : d'.maxSerial = w ∨ d'.maxSerial = w + 1 ∧ d'.content (w + 1) = some []

theorem content_deleteFile_of_none {serial : Nat} (h : d.content serial = none) (v : Nat) :
    (d.deleteFile serial).content v = d.content v := by
  by_cases hv : v = serial
  · rw [hv, h]
    cases hc : (d.deleteFile serial).content serial with
    | none => rfl
    | some bytes =>
      obtain ⟨file, hfile, heq⟩ := List.mem_map.mp (mem_of_content hc)
      have hne := (List.mem_filter.mp hfile).2
      exact absurd heq (by simpa using hne)
  · exact content_deleteFile hv d

theorem later_concat (hmax : d.maxSerial = w) (hw : d.content w = some c) {serial : Nat} (hlt : serial < w) :
    d.later serial = d.filesFrom (w - serial - 1) (serial + 1) ++ [c] := by
  unfold later
  rw [hmax, show w - serial = (w - serial - 1) + 1 by omega, filesFrom_add, Nat.add_sub_cancel,
    show serial + 1 + (w - serial - 1) = w by omega]
  change _ ++ ((d.content w).toList ++ []) = _
  rw [hw]
  rfl

theorem Grown.later_last (h : Grown d d' w c e) : d'.later w = [] ∨ d'.later w = [[]] := by
  rcases h.next with hmax | ⟨hmax, hnew⟩
  · exact .inl (later_nil (by omega))
  · right
    rw [later_concat hmax hnew (Nat.lt_succ_self w), Nat.add_sub_cancel_left]
    rfl

theorem Grown.later_before (h : Grown d d' w c e) {serial : Nat} (hlt : serial < w) :
    d'.later serial = d.filesFrom (w - serial - 1) (serial + 1) ++ [c ++ e] ∨
      d'.later serial = (d.filesFrom (w - serial - 1) (serial + 1) ++ [c ++ e]) ++ [[]] := by
  have hsame : d'.filesFrom (w - serial - 1) (serial + 1) = d.filesFrom (w - serial - 1) (serial + 1) :=
    filesFrom_congr (fun v _ hv => h.before v (by omega))
  rcases h.next with hmax | ⟨hmax, hnew⟩
  · left
    rw [later_concat hmax h.grown hlt, hsame]
  · right
    rw [later_concat hmax hnew (Nat.lt_succ_of_lt hlt), show w + 1 - serial - 1 = (w - serial - 1) + 1 by omega,
      filesFrom_add, hsame, show serial + 1 + (w - serial - 1) = w by omega]
    change (_ ++ ((d'.content w).toList ++ [])) ++ _ = _
    rw [h.grown]
    rfl

/-- **From a position on the directory has the records `rs`.** -/
def Pos (d : LogDir) (serial offset : Nat) (rs : List (List UInt8)) : Prop :=
  ∃ bytes, d.content serial = some bytes ∧ offset ≤ bytes.length ∧ Aligned ⟨bytes.drop offset, d.later serial⟩ rs

theorem Pos.grown {serial offset : Nat} {rs : List (List UInt8)} (hp : Pos d serial offset rs) (h : Grown d d' w c e) :
    Pos d' serial offset (rs ++ [e]) := by
  obtain ⟨bytes, hbytes, hoff, ha⟩ := hp
  have hle : serial ≤ w := h.max ▸ d.maxSerial_spec.1 serial bytes hbytes
  rcases Nat.eq_or_lt_of_le hle with rfl | hlt
  · rw [h.now] at hbytes
    obtain rfl := Option.some.inj hbytes
    rw [later_nil (by rw [h.max]; exact Nat.lt_irrefl _)] at ha
    refine ⟨c ++ e, h.grown, ?_, ?_⟩
    · rw [List.length_append]
      omega
    · rw [List.drop_append_of_le_length hoff]
      rcases h.later_last with hl | hl
      · rw [hl]
        exact ha.append_rest
      · rw [hl]
        exact ha.append_rest.append_empty
  · rw [later_concat h.max h.now hlt] at ha
    refine ⟨bytes, (h.before serial hlt).trans hbytes, hoff, ?_⟩
    rcases h.later_before hlt with hl | hl
    · rw [hl]
      exact ha.append_last
    · rw [hl]
      exact ha.append_last.append_empty

end LogDir

/-! ## The writer -/

namespace LogWriter

variable {d : LogDir} {w : LogWriter}

/-- **The writer is at the end of the last file.** -/
structure Ready (d : LogDir) (w : LogWriter) : Prop where
  fd : w.fd = w.curMaxSerial
  max : d.maxSerial = w.curMaxSerial
  serial : w.curMaxSerial < 2 ^ 32
  content : ∃ c, d.content w.curMaxSerial = some c ∧ c.length = w.curSize
  size : w.curSize < 2 ^ 32

theorem Ready.pos (h : Ready d w) : w.query = ⟨w.curMaxSerial, w.curSize⟩ ∧ d.Pos w.curMaxSerial w.curSize [] := by
  obtain ⟨c, hc, hlen⟩ := h.content
  refine ⟨?_, c, hc, Nat.le_of_eq hlen.symm, ?_⟩
  · unfold query JournalID.of
    rw [Nat.mod_eq_of_lt h.serial, Nat.mod_eq_of_lt h.size]
  · rw [← hlen, List.drop_length, LogDir.later_nil (by rw [h.max]; exact Nat.lt_irrefl _)]
    exact ⟨[], [], rfl, rfl, rfl⟩

theorem maxSerial_put {serial : Nat} {bytes : List UInt8} (hle : d.maxSerial ≤ serial) :
    (d.put serial bytes).maxSerial = serial := by
  have hnow : (d.put serial bytes).content serial = some bytes := by rw [LogDir.content_put, if_pos rfl]
  refine LogDir.maxSerial_eq hnow (fun v c hv => ?_)
  rw [LogDir.content_put] at hv
  by_cases he : v = serial
  · exact Nat.le_of_eq he
  · rw [if_neg he] at hv
    exact Nat.le_trans (d.maxSerial_spec.1 v c hv) hle

theorem Ready.shift {d₁ : LogDir} {c e : List UInt8} {serial : Nat} (h : Ready d w) (hc : d.content w.curMaxSerial = some c)
    (h₁ : ∀ v, d₁.content v = (d.put w.curMaxSerial (c ++ e)).content v) (hserial : serial = w.curMaxSerial + 1) :
    LogDir.Grown d (d₁.put serial []) w.curMaxSerial c e ∧ (d₁.put serial []).maxSerial = serial := by
  subst hserial
  have hmax₁ : d₁.maxSerial ≤ w.curMaxSerial + 1 := by
    rcases d₁.maxSerial_spec.2 with h0 | ⟨b, hb⟩
    · omega
    · rw [h₁] at hb
      have hle := (d.put w.curMaxSerial (c ++ e)).maxSerial_spec.1 _ b hb
      rw [maxSerial_put (Nat.le_of_eq h.max)] at hle
      omega
  have hmax : (d₁.put (w.curMaxSerial + 1) []).maxSerial = w.curMaxSerial + 1 := maxSerial_put hmax₁
  refine ⟨⟨fun v hv => ?_, hc, ?_, h.max, .inr ⟨hmax, ?_⟩⟩, hmax⟩
  · rw [LogDir.content_put, if_neg (by omega), h₁, LogDir.content_put, if_neg (by omega)]
  · rw [LogDir.content_put, if_neg (by omega), h₁, LogDir.content_put, if_pos rfl]
  · rw [LogDir.content_put, if_pos rfl]

theorem Ready.write (h : Ready d w) {e : List UInt8} (hsize : w.curSize + e.length < 2 ^ 32)
    (hdelete : w.maxSize ≤ w.curSize + e.length → w.totalSize ≤ w.total → d.content w.curMinSerial = none)
    (hserial : w.maxSize ≤ w.curSize + e.length → w.curMaxSerial + 1 < 2 ^ 32) :
    Ready (w.write d e).1 (w.write d e).2 ∧ w.curMaxSerial ≤ (w.write d e).2.curMaxSerial ∧
      ∃ c, c.length = w.curSize ∧ LogDir.Grown d (w.write d e).1 w.curMaxSerial c e := by
  obtain ⟨c, hc, hlen⟩ := h.content
  have hput : d.put w.fd ((d.content w.fd).getD [] ++ e) = d.put w.curMaxSerial (c ++ e) := by
    rw [h.fd, hc, Option.getD_some]
  unfold LogWriter.write
  rw [hput]
  unfold shiftFile
  dsimp only
  by_cases hshift : w.curSize + e.length < w.maxSize
  · rw [if_pos hshift]
    have hmax : (d.put w.curMaxSerial (c ++ e)).maxSerial = w.curMaxSerial := maxSerial_put (Nat.le_of_eq h.max)
    have hnow : (d.put w.curMaxSerial (c ++ e)).content w.curMaxSerial = some (c ++ e) := by
      rw [LogDir.content_put, if_pos rfl]
    refine ⟨⟨h.fd, hmax, h.serial, ⟨_, hnow, ?_⟩, hsize⟩, Nat.le_refl _, c, hlen, fun v hv => ?_, hc, hnow, h.max, .inl hmax⟩
    · rw [List.length_append, hlen]
    · rw [LogDir.content_put, if_neg (by omega)]
  · rw [if_neg hshift]
    have hle := Nat.le_of_not_lt hshift
    have hnext : (w.curMaxSerial + 1) % 2 ^ 32 = w.curMaxSerial + 1 := Nat.mod_eq_of_lt (hserial hle)
    have hnew : ∀ d₁ : LogDir, (d₁.put (w.curMaxSerial + 1) []).content (w.curMaxSerial + 1) = some [] := by
      intro d₁
      rw [LogDir.content_put, if_pos rfl]
    by_cases htotal : w.totalSize ≤ w.total
    · have hmin : (d.put w.curMaxSerial (c ++ e)).content w.curMinSerial = none := by
        have hnone := hdelete hle htotal
        rw [LogDir.content_put, if_neg (fun he => by rw [he, hc] at hnone; cases hnone)]
        exact hnone
      obtain ⟨hgrown, hmax⟩ := h.shift hc (LogDir.content_deleteFile_of_none hmin) hnext
      refine (if_pos htotal).symm ▸ ?_
      refine ⟨⟨rfl, hmax, Nat.mod_lt _ (by decide), ⟨[], ?_, rfl⟩, show 0 < 2 ^ 32 by decide⟩, ?_, c, hlen, hgrown⟩
      · dsimp only
        rw [hnext]
        exact hnew _
      · dsimp only
        rw [hnext]
        exact Nat.le_succ _
    · obtain ⟨hgrown, hmax⟩ := h.shift hc (fun _ => rfl) hnext
      refine (if_neg htotal).symm ▸ ?_
      refine ⟨⟨rfl, hmax, Nat.mod_lt _ (by decide), ⟨[], ?_, rfl⟩, show 0 < 2 ^ 32 by decide⟩, ?_, c, hlen, hgrown⟩
      · dsimp only
        rw [hnext]
        exact hnew _
      · dsimp only
        rw [hnext]
        exact Nat.le_succ _

theorem Ready.open (hd : d.maxSerial + 1 < 2 ^ 32) (maxSize totalSize : Nat) :
    Ready (LogWriter.open d maxSize totalSize).1 (LogWriter.open d maxSize totalSize).2 := by
  have hserial : (d.scanSerial.2 + 1) % 2 ^ 32 = d.maxSerial + 1 := Nat.mod_eq_of_lt hd
  unfold LogWriter.open
  dsimp only
  rw [hserial]
  refine ⟨rfl, maxSerial_put (Nat.le_succ _), hd, ⟨[], ?_, rfl⟩, show 0 < 2 ^ 32 by decide⟩
  rw [LogDir.content_put, if_pos rfl]

end LogWriter

/-! ## Positions of a reader -/

namespace LogReader

variable {d : LogDir} {r : LogReader} {rs : List (List UInt8)}

/-- The reader is at a position with the records `rs` from there on. -/
def AtPos (d : LogDir) (r : LogReader) (rs : List (List UInt8)) : Prop :=
  r.fd = some (r.curSerial, r.curOffset) ∧ d.Pos r.curSerial r.curOffset rs

theorem AtPos.view (h : AtPos d r rs) : ∃ v, At d r v ∧ Aligned v rs := by
  obtain ⟨hfd, bytes, hc, hoff, ha⟩ := h
  exact ⟨_, ⟨bytes, hc, hfd, hoff, rfl⟩, ha⟩

theorem At.atPos {v : View UInt8} (h : At d r v) (ha : Aligned v rs) : AtPos d r rs := by
  obtain ⟨bytes, hc, hfd, hoff, rfl⟩ := h
  exact ⟨hfd, bytes, hc, hoff, ha⟩

theorem seek_pos {id : JournalID} {bytes : List UInt8} (hp : d.Pos id.serial id.offset rs)
    (hc : d.content id.serial = some bytes) (hlen : bytes.length < 2 ^ 32)
    (hfd : r.curSerial = id.serial → ∃ pos, r.fd = some (id.serial, pos)) :
    (r.seek d id).2 = true ∧ AtPos d (r.seek d id).1 rs ∧ (r.seek d id).1.curSerial = id.serial := by
  have hopen : ∃ pos, (if id.serial ≠ r.curSerial then openFile d id.serial else r.fd) = some (id.serial, pos) := by
    by_cases he : id.serial ≠ r.curSerial
    · rw [if_pos he, openFile, hc]
      exact ⟨0, rfl⟩
    · rw [if_neg he]
      exact hfd (not_not.mp he).symm
  obtain ⟨pos, hopen⟩ := hopen
  have hoff : id.offset ≤ bytes.length := by
    obtain ⟨bytes', hc', hoff, -⟩ := hp
    rw [hc] at hc'
    rw [Option.some.inj hc']
    exact hoff
  unfold seek
  rw [if_neg (by rw [hc]; exact Option.some_ne_none _)]
  dsimp only
  rw [hopen, statSize, hc, Option.getD_some, Nat.mod_eq_of_lt hlen, if_neg (Nat.not_lt_of_le hoff)]
  exact ⟨rfl, ⟨rfl, hp⟩, rfl⟩

end LogReader

/-! ## The bodies of a record -/

namespace BinlogReader

theorem loops_spec {buf : List UInt8} (hbuf : buf.length < 2 ^ 32) :
    ∀ {bodies : List (List UInt8)} {front : List UInt8} {l : Nat}
    {id : Nat} {body : List UInt8}, front.length = 20 + l → buf = front ++ BinlogRecord.encodeBodies bodies →
    bodies[id]? = some body → slice buf (pointerLoop buf id (l + 4)) body.length = body ∧ lengthLoop buf id l = body.length
  | [], _, _, _, _, _, _, hget => by cases hget
  | b :: bodies, front, l, id, body, hfront, hall, hget => by
    have hcons : buf = front ++ (leBytes 4 b.length ++ (b ++ BinlogRecord.encodeBodies bodies)) := by
      rw [hall, BinlogRecord.encodeBodies, List.map_cons, List.flatten_cons, List.append_assoc]
      rfl
    have hlen := congrArg List.length hcons
    rw [List.length_append, List.length_append, List.length_append, length_leBytes, hfront] at hlen
    have hb : leNat 4 (buf.drop (20 + l)) = b.length := by
      rw [hcons, List.drop_left' hfront]
      exact leNat_leBytes_of_lt (show b.length < 256 ^ 4 by omega) _
    have hfront' : (front ++ (leBytes 4 b.length ++ b)).length = 20 + (l + (b.length + 4)) := by
      rw [List.length_append, List.length_append, length_leBytes, hfront]
      omega
    cases id with
    | zero =>
      obtain rfl := Option.some.inj hget
      rw [pointerLoop, lengthLoop]
      refine ⟨?_, hb⟩
      rw [hcons, ← List.append_assoc]
      refine slice_append ?_ rfl
      rw [List.length_append, length_leBytes, hfront]
      omega
    | succ id =>
      have hstep : (l + (b.length + 4)) % 2 ^ 32 = l + (b.length + 4) := Nat.mod_eq_of_lt (by omega)
      have hstep' : (l + 4 + (b.length + 4)) % 2 ^ 32 = l + (b.length + 4) + 4 := by
        rw [show l + 4 + (b.length + 4) = l + (b.length + 4) + 4 by omega]
        exact Nat.mod_eq_of_lt (by omega)
      have hrest : buf = (front ++ (leBytes 4 b.length ++ b)) ++ BinlogRecord.encodeBodies bodies := by
        rw [hcons, List.append_assoc, List.append_assoc]
      have ih := loops_spec hbuf hfront' hrest (show bodies[id]? = some body from hget)
      rw [pointerLoop, lengthLoop, show 20 + (l + 4) - 4 = 20 + l by omega, hb, hstep, hstep']
      exact ih

theorem record_bodies {b : BinlogReader} {r : BinlogRecord} (hb : b.codecBuffer = r.encode) (hfit : r.Fits) {id : Nat}
    {body : List UInt8} (hget : r.bodies[id]? = some body) :
    slice b.codecBuffer (b.recordPointer id) (b.recordLength id) = body ∧ b.recordLength id = body.length := by
  have hlen : b.codecBuffer.length < 2 ^ 32 := by
    rw [hb, r.length_encode]
    unfold BinlogRecord.Fits at hfit
    omega
  have hfront : (leBytes 4 r.encodeRest.length ++ ([0x02, r.type, r.operater, 0, 0, 0, 0, 0] ++ leBytes 4 r.time.toNat ++
      leBytes 4 r.count.toNat)).length = 20 + 0 := by
    simp only [List.length_append, List.length_cons, List.length_nil, length_leBytes]
  have hall : b.codecBuffer = (leBytes 4 r.encodeRest.length ++ ([0x02, r.type, r.operater, 0, 0, 0, 0, 0] ++
      leBytes 4 r.time.toNat ++ leBytes 4 r.count.toNat)) ++ BinlogRecord.encodeBodies r.bodies := by
    rw [hb, List.append_assoc]
    rfl
  obtain ⟨h1, h2⟩ := loops_spec hlen hfront hall hget
  unfold recordPointer recordLength
  rw [h2]
  exact ⟨h1, rfl⟩

end BinlogReader

theorem BinlogReader.next_buffer {d : LogDir} {b : BinlogReader} {bytes : List UInt8} (h : (b.next d).2 = some bytes) :
    (b.next d).1.codecBuffer = bytes := by
  unfold BinlogReader.next at h ⊢
  generalize b.read d = x at h ⊢
  obtain ⟨b', o⟩ := x
  cases o with
  | false => cases h
  | true => exact Option.some.inj h

/-! ## Runs -/

namespace Journal

variable {s s' : Journal} {first : Nat}

def encoded (s : Journal) : List (List UInt8) := s.written.map BinlogRecord.encode

/-- What holds in every run, for the files from the serial number `first` on. -/
structure Inv (first : Nat) (s : Journal) : Prop where
  ready : LogWriter.Ready s.dir s.writer.logWriter
  firstLe : first ≤ s.writer.logWriter.curMaxSerial
  small : ∀ v c, first ≤ v → s.dir.content v = some c → c.length < 2 ^ 32
  fits : ∀ r ∈ s.written, r.Fits
  marks : ∀ mark ∈ s.marks, mark.2 ≤ s.written.length ∧ first ≤ mark.1.serial ∧
    s.dir.Pos mark.1.serial mark.1.offset (s.encoded.drop mark.2)
  readerFirst : first ≤ s.reader.logReader.curSerial
  reader : s.reader.logReader.AtPos s.dir (s.encoded.drop (s.base + s.got.length))
  count : s.base + s.got.length ≤ s.written.length
  got : s.got = (s.encoded.drop s.base).take s.got.length

theorem Inv.serials (h : Inv first s) : s.dir.maxSerial < 2 ^ 32 := h.ready.max ▸ h.ready.serial

theorem Inv.queryID (h : Inv first s) {b : BinlogReader} {rs : List (List UInt8)} (hat : b.logReader.AtPos s.dir rs)
    (hfirst : first ≤ b.logReader.curSerial) : b.queryID = ⟨b.logReader.curSerial, b.logReader.curOffset⟩ := by
  obtain ⟨-, bytes, hc, hoff, -⟩ := hat
  have hserial := Nat.lt_of_le_of_lt (s.dir.maxSerial_spec.1 _ bytes hc) h.serials
  have hsmall := h.small _ bytes hfirst hc
  unfold BinlogReader.queryID LogReader.query JournalID.of
  rw [Nat.mod_eq_of_lt hserial, Nat.mod_eq_of_lt (Nat.lt_of_le_of_lt hoff hsmall)]

theorem Inv.seek (h : Inv first s) {mark : JournalID × Nat} (hmark : mark ∈ s.marks) :
    (s.reader.seek s.dir mark.1).2 = true ∧
      (s.reader.seek s.dir mark.1).1.logReader.AtPos s.dir (s.encoded.drop mark.2) ∧
      first ≤ (s.reader.seek s.dir mark.1).1.logReader.curSerial := by
  obtain ⟨-, hfirst, hpos⟩ := h.marks mark hmark
  obtain ⟨bytes, hc, -, -⟩ := id hpos
  obtain ⟨h1, h2, h3⟩ := LogReader.seek_pos (r := s.reader.logReader) hpos hc (h.small _ bytes hfirst hc)
    (fun he => ⟨_, he ▸ h.reader.1⟩)
  exact ⟨h1, h2, Nat.le_trans hfirst (Nat.le_of_eq h3.symm)⟩

theorem Inv.next (h : Inv first s) {b : BinlogReader} {k : Nat} (hat : b.logReader.AtPos s.dir (s.encoded.drop k)) :
    (b.next s.dir).2 = (s.written[k]?).map BinlogRecord.encode ∧
      (b.next s.dir).1.logReader.AtPos s.dir (s.encoded.drop (k + 1)) ∧
      b.logReader.curSerial ≤ (b.next s.dir).1.logReader.curSerial := by
  obtain ⟨v, hv, ha⟩ := hat.view
  cases hget : s.written[k]? with
  | none =>
    have hle : s.encoded.length ≤ k := by
      rw [encoded, List.length_map]
      exact List.getElem?_eq_none_iff.mp hget
    rw [List.drop_eq_nil_of_le hle] at ha
    obtain ⟨h1, h2, v', hv', ha'⟩ := next_aligned_nil h.serials hv ha
    rw [List.drop_eq_nil_of_le (Nat.le_succ_of_le hle)]
    exact ⟨h1, hv'.atPos ha', h2⟩
  | some r =>
    obtain ⟨hk, hr⟩ := List.getElem?_eq_some_iff.mp hget
    have hdrop : s.encoded.drop k = r.encode :: s.encoded.drop (k + 1) := by
      rw [List.drop_eq_getElem_cons (by rw [encoded, List.length_map]; exact hk)]
      congr 1
      rw [← hr]
      exact List.getElem_map ..
    rw [hdrop] at ha
    obtain ⟨h1, h2, v', hv', ha'⟩ := next_aligned h.serials hv (h.fits r (List.mem_of_getElem? hget)) ha
    exact ⟨h1, hv'.atPos ha', h2⟩

theorem Inv.write (h : Inv first s) {r : BinlogRecord} (hok : s.StepOk (.write r)) (hst : s.step (.write r) = some s') :
    Inv first s' := by
  obtain ⟨⟨hfit, hsize, hdelete⟩, hserial⟩ := hok
  obtain ⟨hready, hle, c, hlen, hgrown⟩ := h.ready.write hsize hdelete hserial
  rw [Journal.step, BinlogWriter.writeRecord_eq] at hst
  obtain rfl := Option.some.inj hst
  have henc : (s.written ++ [r]).map BinlogRecord.encode = s.encoded ++ [r.encode] := List.map_append
  have hpos : ∀ {serial offset k : Nat}, k ≤ s.written.length → s.dir.Pos serial offset (s.encoded.drop k) →
      (s.writer.logWriter.write s.dir r.encode).1.Pos serial offset (((s.written ++ [r]).map BinlogRecord.encode).drop k) := by
    intro serial offset k hk hp
    rw [henc, List.drop_append_of_le_length (by rw [encoded, List.length_map]; exact hk)]
    exact hp.grown hgrown
  have hlast : ((s.written ++ [r]).map BinlogRecord.encode).drop (s.written.length + 1) = [] := by
    refine List.drop_eq_nil_of_le (Nat.le_of_eq ?_)
    rw [List.length_map, List.length_append, List.length_singleton]
  refine ⟨hready, Nat.le_trans h.firstLe hle, fun v c' hv hc' => ?_, fun x hx => ?_, fun mark hmark => ?_, h.readerFirst,
    ⟨h.reader.1, hpos h.count h.reader.2⟩, ?_, ?_⟩
  · change (s.writer.logWriter.write s.dir r.encode).1.content v = some c' at hc'
    have hvmax := (s.writer.logWriter.write s.dir r.encode).1.maxSerial_spec.1 v c' hc'
    rcases Nat.lt_trichotomy v s.writer.logWriter.curMaxSerial with hlt | rfl | hgt
    · rw [hgrown.before v hlt] at hc'
      exact h.small v c' hv hc'
    · rw [hgrown.grown] at hc'
      obtain rfl := Option.some.inj hc'
      rw [List.length_append, hlen]
      exact hsize
    · rcases hgrown.next with hmax | ⟨hmax, hnew⟩
      · omega
      · obtain rfl : v = s.writer.logWriter.curMaxSerial + 1 := by omega
        rw [hnew] at hc'
        obtain rfl := Option.some.inj hc'
        decide
  · rcases List.mem_append.mp hx with hx | hx
    · exact h.fits x hx
    · rw [List.mem_singleton.mp hx]
      exact hfit
  · rcases List.mem_append.mp hmark with hmark | hmark
    · obtain ⟨h1, h2, h3⟩ := h.marks mark hmark
      refine ⟨?_, h2, hpos h1 h3⟩
      rw [List.length_append]
      omega
    · rw [List.mem_singleton.mp hmark]
      obtain ⟨hquery, hpos'⟩ := hready.pos
      refine ⟨?_, ?_, ?_⟩
      · exact Nat.le_of_eq (by rw [List.length_append, List.length_singleton])
      · dsimp only [BinlogWriter.queryID]
        rw [hquery]
        exact Nat.le_trans h.firstLe hle
      · dsimp only [BinlogWriter.queryID]
        rw [hquery]
        unfold encoded
        dsimp only
        rw [hlast]
        exact hpos'
  · rw [List.length_append]
    exact Nat.le_trans h.count (Nat.le_add_right _ _)
  · have hcount := h.count
    unfold encoded
    dsimp only
    rw [henc, List.drop_append_of_le_length (by rw [encoded, List.length_map]; omega),
      List.take_append_of_le_length (by rw [List.length_drop, encoded, List.length_map]; omega)]
    exact h.got

theorem Inv.read (h : Inv first s) (hst : s.step .read = some s') : Inv first s' := by
  obtain ⟨h1, h2, h3⟩ := h.next h.reader
  rw [Journal.step] at hst
  generalize hx : s.reader.next s.dir = x at hst h1 h2 h3
  obtain ⟨b, o⟩ := x
  dsimp only at h1 h2 h3 hst
  have hfirst := Nat.le_trans h.readerFirst h3
  cases o with
  | none =>
    obtain rfl := Option.some.inj hst
    have hnone : s.written[s.base + s.got.length]? = none := Option.map_eq_none_iff.mp h1.symm
    have hle : s.encoded.length ≤ s.base + s.got.length := by
      rw [encoded, List.length_map]
      exact List.getElem?_eq_none_iff.mp hnone
    refine ⟨h.ready, h.firstLe, h.small, h.fits, h.marks, hfirst, ?_, h.count, h.got⟩
    rw [List.drop_eq_nil_of_le (Nat.le_succ_of_le hle)] at h2
    change b.logReader.AtPos s.dir (s.encoded.drop (s.base + s.got.length))
    rw [List.drop_eq_nil_of_le hle]
    exact h2
  | some bytes =>
    obtain rfl := Option.some.inj hst
    obtain ⟨r, hr, rfl⟩ := Option.map_eq_some_iff.mp h1.symm
    obtain ⟨hlt, -⟩ := List.getElem?_eq_some_iff.mp hr
    have hquery := h.queryID h2 hfirst
    have hlen : (s.got ++ [r.encode]).length = s.got.length + 1 := by rw [List.length_append, List.length_singleton]
    refine ⟨h.ready, h.firstLe, h.small, h.fits, fun mark hmark => ?_, hfirst, ?_, ?_, ?_⟩
    · rcases List.mem_append.mp hmark with hmark | hmark
      · exact h.marks mark hmark
      · rw [List.mem_singleton.mp hmark, hquery]
        exact ⟨hlt, hfirst, h2.2⟩
    · dsimp only
      rw [hlen]
      exact h2
    · dsimp only
      rw [hlen]
      exact hlt
    · dsimp only
      have hget : (s.encoded.drop s.base)[s.got.length]? = some r.encode := by
        rw [List.getElem?_drop, encoded, List.getElem?_map, hr]
        rfl
      rw [hlen]
      change s.got ++ [r.encode] = (s.encoded.drop s.base).take (s.got.length + 1)
      rw [List.take_add_one, hget, ← h.got]
      rfl

theorem Inv.setTo (h : Inv first s) {i : Nat} (hst : s.step (.seek i) = some s') : Inv first s' := by
  rw [Journal.step] at hst
  cases hmark : s.marks[i]? with
  | none =>
    rw [hmark] at hst
    cases hst
  | some mark =>
    have hmem := List.mem_of_getElem? hmark
    obtain ⟨h1, h2, h3⟩ := h.seek hmem
    rw [hmark] at hst
    dsimp only at hst
    generalize s.reader.seek s.dir mark.1 = x at hst h1 h2 h3
    obtain ⟨b, o⟩ := x
    dsimp only at h1 h2 h3
    subst h1
    obtain rfl := Option.some.inj hst
    exact ⟨h.ready, h.firstLe, h.small, h.fits, h.marks, h3, h2, (h.marks mark hmem).1, rfl⟩

theorem Inv.init {d : LogDir} (hd : d.maxSerial + 1 < 2 ^ 32) (maxSize totalSize : Nat) :
    Inv (LogWriter.open d maxSize totalSize).2.curMaxSerial (Journal.init d maxSize totalSize) := by
  have hready := LogWriter.Ready.open hd maxSize totalSize
  unfold Journal.init
  dsimp only
  generalize LogWriter.open d maxSize totalSize = x at hready ⊢
  obtain ⟨hquery, hpos⟩ := hready.pos
  obtain ⟨c, hc, hlen⟩ := hready.content
  have hsmall : ∀ v c', x.2.curMaxSerial ≤ v → x.1.content v = some c' → c'.length < 2 ^ 32 := by
    intro v c' hv hc'
    have hle := x.1.maxSerial_spec.1 v c' hc'
    rw [hready.max] at hle
    obtain rfl := Nat.le_antisymm hle hv
    rw [hc] at hc'
    obtain rfl := Option.some.inj hc'
    exact hlen ▸ hready.size
  have hquery' : x.1.Pos x.2.query.serial x.2.query.offset [] := by
    rw [hquery]
    exact hpos
  obtain ⟨h1, h2, h3⟩ := LogReader.seek_pos (r := LogReader.open x.1 {}) hquery' (by rw [hquery]; exact hc)
    (hlen ▸ hready.size) (fun he => by
      unfold LogReader.open at he ⊢
      dsimp only at he ⊢
      rw [he, LogReader.openFile, hquery, hc]
      exact ⟨0, rfl⟩)
  refine ⟨hready, Nat.le_refl _, hsmall, fun r hr => absurd hr List.not_mem_nil, fun mark hmark =>
    ?_, ?_, h2, Nat.le_refl 0, rfl⟩
  · rw [List.mem_singleton.mp hmark]
    exact ⟨Nat.le_refl 0, Nat.le_of_eq (by rw [hquery]), hquery'⟩
  · refine Nat.le_trans (Nat.le_of_eq ?_) (Nat.le_of_eq h3.symm)
    rw [hquery]

theorem Inv.step (h : Inv first s) {a : JournalEvent} (hok : s.StepOk a) (hst : s.step a = some s') : Inv first s' := by
  cases a with
  | write r => exact h.write hok hst
  | read => exact h.read hst
  | seek i => exact h.setTo hst

end Journal

/-- **The journal gives back what was written**, in every run within the limits and while there are serial numbers: what the
reader got are the records from where it was set, the next call of `Read` gives the next record with its bodies, or fails when
there is none, and at every journal id that was reported the record behind it is read. -/
theorem journalMachine_roundTrip {s : Journal} (hs : journalMachine.ReachableMeeting Journal.StepOk s) :
    s.got = ((s.written.map BinlogRecord.encode).drop s.base).take s.got.length ∧
      (s.reader.next s.dir).2 = (s.written[s.base + s.got.length]?).map BinlogRecord.encode ∧
      (∀ r, s.written[s.base + s.got.length]? = some r → ∀ i body, r.bodies[i]? = some body →
        let b := (s.reader.next s.dir).1
        b.recordLength i = body.length ∧ slice b.codecBuffer (b.recordPointer i) (b.recordLength i) = body) ∧
      ∀ mark ∈ s.marks, (s.reader.seek s.dir mark.1).2 = true ∧
        ((s.reader.seek s.dir mark.1).1.next s.dir).2 = (s.written[mark.2]?).map BinlogRecord.encode := by
  obtain ⟨first, h⟩ : ∃ first, Journal.Inv first s := by
    refine @Machine.reachableMeeting_induct _ _ journalMachine _ (fun s => ∃ first, Journal.Inv first s) ?_ ?_ _ hs
    · rintro s ⟨d, maxSize, totalSize, hd, rfl⟩
      exact ⟨_, Journal.Inv.init hd maxSize totalSize⟩
    · rintro s a s' ⟨first, h⟩ hok hst
      exact ⟨first, h.step hok hst⟩
  have hnext := (h.next h.reader).1
  refine ⟨h.got, hnext, fun r hr i body hbody => ?_, fun mark hmark => ?_⟩
  · rw [hr] at hnext
    obtain ⟨h1, h2⟩ := record_bodies (next_buffer hnext) (h.fits r (List.mem_of_getElem? hr)) hbody
    exact ⟨h2, h1⟩
  · obtain ⟨h1, h2, -⟩ := h.seek hmark
    exact ⟨h1, (h.next h2).1⟩

/-- Two records in files of their own, behind an old file; the first is read. -/
def twoRecords : List JournalEvent :=
  [.write ⟨2, 1, 2, 0, [[1, 2, 3], []]⟩, .write ⟨2, 4, 1, 0, [[7]]⟩, .read]

theorem journalMachine_roundTrip_twoRecords : ∃ s,
    journalMachine.run (Journal.init [(7, [1, 2])] 16 (2 ^ 40)) twoRecords = some s ∧
    journalMachine.ReachableMeeting Journal.StepOk s ∧ s.marks.map Prod.fst = [⟨8, 0⟩, ⟨9, 0⟩, ⟨10, 0⟩, ⟨8, 31⟩] ∧
    s.got = ((s.written.map BinlogRecord.encode).drop s.base).take s.got.length ∧
    (s.reader.next s.dir).2 = (s.written[s.base + s.got.length]?).map BinlogRecord.encode := by
  have hrun : (journalMachine.run (Journal.init [(7, [1, 2])] 16 (2 ^ 40)) twoRecords).map (fun s => s.marks.map Prod.fst) =
      some [⟨8, 0⟩, ⟨9, 0⟩, ⟨10, 0⟩, ⟨8, 31⟩] := by decide +kernel
  obtain ⟨s, hs, hmarks⟩ := Option.map_eq_some_iff.mp hrun
  have hmeets : journalMachine.RunMeets Journal.StepOk (Journal.init [(7, [1, 2])] 16 (2 ^ 40)) twoRecords := by decide +kernel
  have hreach : journalMachine.ReachableMeeting Journal.StepOk s :=
    ⟨_, twoRecords, ⟨[(7, [1, 2])], 16, 2 ^ 40, by decide, rfl⟩, hmeets, hs⟩
  obtain ⟨h1, h2, -⟩ := journalMachine_roundTrip hreach
  exact ⟨s, hs, hreach, hmarks, h1, h2⟩

/-- The last serial number is used up: the second record goes to a file 0, and the reader never comes to it. -/
theorem journalMachine_serialsUsedUp : ∃ s,
    journalMachine.run (Journal.init [(4294967294, [])] 16 (2 ^ 63))
      [.write ⟨2, 1, 0, 0, []⟩, .write ⟨2, 4, 0, 0, []⟩, .read] =
      some s ∧
    journalMachine.ReachableMeeting Journal.Limits s ∧ s.written.length = 2 ∧ s.base + s.got.length = 1 ∧
    (s.reader.next s.dir).2 = none := by
  have hrun : (journalMachine.run (Journal.init [(4294967294, [])] 16 (2 ^ 63))
      [.write ⟨2, 1, 0, 0, []⟩, .write ⟨2, 4, 0, 0, []⟩, .read]).map (fun s => (s.written.length, s.base + s.got.length,
        (s.reader.next s.dir).2)) = some (2, 1, none) := by decide +kernel
  obtain ⟨s, hs, hbits⟩ := Option.map_eq_some_iff.mp hrun
  obtain ⟨h1, hbits⟩ := Prod.mk.inj hbits
  obtain ⟨h2, h3⟩ := Prod.mk.inj hbits
  have hmeets : journalMachine.RunMeets Journal.Limits (Journal.init [(4294967294, [])] 16 (2 ^ 63))
      [.write ⟨2, 1, 0, 0, []⟩, .write ⟨2, 4, 0, 0, []⟩, .read] := by decide +kernel
  exact ⟨s, hs, ⟨_, _, ⟨[(4294967294, [])], 16, 2 ^ 63, by decide, rfl⟩, hmeets, hs⟩, h1, h2, h3⟩

end Dtc
