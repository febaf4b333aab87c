import DtcServer.BinlogRead
import DtcServer.Machine
/-!
# BinlogSeek — where a reader is after a seek, and after a record that is not complete yet

The reader has its file, its serial number and its offset apart from each other. A seek that fails because the offset is
behind the end of another file has opened that file already, and the serial number stays that of the old one.
-/
namespace Dtc

open Bytes Segments

/-- A reader, and the journal that it reads. -/
structure SeekRun where
  dir : LogDir
  reader : BinlogReader

inductive SeekAction
  | seek (serial offset : UInt32)
  | read
  /-- a writer appends to a file, or makes it -/
  | append (serial : UInt32) (bytes : List UInt8)

namespace SeekRun

variable (s : SeekRun)

def step : SeekAction → SeekRun
  | .seek serial offset => { s with reader := (s.reader.seek s.dir ⟨serial.toNat, offset.toNat⟩).1 }
  | .read => { s with reader := (s.reader.read s.dir).1 }
  | .append serial bytes =>
    { s with dir := s.dir.put serial.toNat ((s.dir.content serial.toNat).getD [] ++ bytes) }

/-- A seek to another file than the reader's does not go behind its end. -/
def SeekOk (v : JournalID) : Prop :=
  v.serial = s.reader.logReader.curSerial ∨
    ∀ bytes ∈ s.dir.content v.serial, v.offset ≤ bytes.length % 2 ^ 32

instance (v : JournalID) : Decidable (s.SeekOk v) := inferInstanceAs (Decidable (_ ∨ _))

def StepOk : SeekAction → Prop
  | .seek serial offset => s.SeekOk ⟨serial.toNat, offset.toNat⟩
  | _ => True

instance : ∀ a, Decidable (s.StepOk a)
  | .seek _ _ => inferInstanceAs (Decidable (SeekOk ..))
  | .read => isTrue trivial
  | .append _ _ => isTrue trivial

end SeekRun

def seekMachine : Machine SeekRun SeekAction where
  start s := (∀ file ∈ s.dir, file.1 < 2 ^ 32) ∧ s.dir.content s.dir.scanSerial.1 ≠ none ∧
    s.reader = { logReader := LogReader.open s.dir {} }
  step s a := some (s.step a)

def LogDir.HasRecord (d : LogDir) (v : JournalID) (r : BinlogRecord) : Prop :=
  ∃ bytes rest, d.content v.serial = some bytes ∧ bytes.drop v.offset = r.encode ++ rest

namespace LogReader

variable {d : LogDir} {r : LogReader} {v : JournalID} {n : Nat}

/-- The open file is the one of the reader's serial number. -/
def Holds (d : LogDir) (r : LogReader) : Prop :=
  (∃ pos, r.fd = some (r.curSerial, pos)) ∧ ∃ bytes, d.content r.curSerial = some bytes

theorem seek_cases (h : Holds d r) (v : JournalID) :
    d.content v.serial = none ∧ r.seek d v = (r, false) ∨
      ∃ bytes, d.content v.serial = some bytes ∧
        (bytes.length % 2 ^ 32 < v.offset ∧
            r.seek d v = (if v.serial = r.curSerial then r else { r with fd := some (v.serial, 0) }, false) ∨
          v.offset ≤ bytes.length % 2 ^ 32 ∧
            r.seek d v = ({ r with curOffset := v.offset, curSerial := v.serial, fd := some (v.serial, v.offset) }, true)) := by
  obtain ⟨⟨pos, hfd⟩, -⟩ := h
  cases hb : d.content v.serial with
  | none =>
    left
    refine ⟨rfl, ?_⟩
    unfold LogReader.seek
    rw [hb]
    rfl
  | some bytes =>
    refine .inr ⟨bytes, rfl, ?_⟩
    -- the file that is open then
    have hopen : (if v.serial ≠ r.curSerial then openFile d v.serial else r.fd) =
        some (v.serial, if v.serial = r.curSerial then pos else 0) := by
      by_cases he : v.serial = r.curSerial
      · rw [if_neg (fun hne => hne he), if_pos he, hfd, he]
      · rw [if_pos he, if_neg he]
        unfold openFile
        rw [hb]
        rfl
    have hsize : ∀ p, statSize d (some (v.serial, p)) = bytes.length := by
      intro p
      show ((d.content v.serial).getD []).length = bytes.length
      rw [hb]
      rfl
    unfold LogReader.seek
    rw [if_neg (by rw [hb]; exact Option.some_ne_none _)]
    dsimp only
    rw [hopen, hsize]
    by_cases hshort : bytes.length % 2 ^ 32 < v.offset
    · rw [if_pos hshort]
      refine .inl ⟨hshort, ?_⟩
      by_cases he : v.serial = r.curSerial
      · rw [if_pos he, if_pos he, he, ← hfd]
      · rw [if_neg he, if_neg he]
    · rw [if_neg hshort]
      exact .inr ⟨Nat.le_of_not_lt hshort, rfl⟩

theorem seek_failed_iff (h : Holds d r) (hfail : (r.seek d v).2 = false) :
    (r.seek d v).1 = r ↔ v.serial = r.curSerial ∨ ∀ bytes ∈ d.content v.serial, v.offset ≤ bytes.length % 2 ^ 32 := by
  rcases seek_cases h v with ⟨hb, he⟩ | ⟨bytes, hb, ⟨hshort, he⟩ | ⟨-, he⟩⟩
  · rw [he, hb]
    exact iff_of_true rfl (.inr nofun)
  · rw [he, hb]
    by_cases hsame : v.serial = r.curSerial
    · rw [if_pos hsame]
      exact iff_of_true rfl (.inl hsame)
    · rw [if_neg hsame]
      obtain ⟨⟨pos, hfd⟩, -⟩ := h
      refine iff_of_false (fun heq => ?_) (fun hor => ?_)
      · have hopened := congrArg LogReader.fd heq
        rw [hfd] at hopened
        exact hsame (Prod.mk.inj (Option.some.inj hopened)).1
      · exact Nat.not_lt.mpr (hor.resolve_left hsame bytes rfl) hshort
  · rw [he] at hfail
    cases hfail

theorem Holds.seek (h : Holds d r)
    (ok : v.serial = r.curSerial ∨ ∀ bytes ∈ d.content v.serial, v.offset ≤ bytes.length % 2 ^ 32) :
    Holds d (r.seek d v).1 := by
  cases hr : (r.seek d v).2 with
  | false => rwa [(seek_failed_iff h hr).mpr ok]
  | true =>
    rcases seek_cases h v with ⟨-, he⟩ | ⟨bytes, hb, ⟨-, he⟩ | ⟨-, he⟩⟩
    · rw [he] at hr
      cases hr
    · rw [he] at hr
      cases hr
    · rw [he]
      exact ⟨⟨v.offset, rfl⟩, bytes, hb⟩

theorem Holds.back (hd : d.maxSerial < 2 ^ 32) (h : Holds d r) (offset : Nat) :
    Holds d (r.seek d (.of r.curSerial offset)).1 := by
  obtain ⟨bytes, hb⟩ := h.2
  have hserial : r.curSerial % 2 ^ 32 = r.curSerial := Nat.mod_eq_of_lt (Nat.lt_of_le_of_lt (d.maxSerial_spec.1 _ _ hb) hd)
  exact h.seek (.inl hserial)

theorem seek_at (h : Holds d r) (hok : (r.seek d v).2 = true) {bytes : List UInt8} (hb : d.content v.serial = some bytes) :
    At d (r.seek d v).1 ⟨bytes.drop v.offset, d.later v.serial⟩ := by
  rcases seek_cases h v with ⟨-, he⟩ | ⟨bytes', hb', ⟨-, he⟩ | ⟨hle, he⟩⟩
  · rw [he] at hok
    cases hok
  · rw [he] at hok
    cases hok
  · obtain rfl := Option.some.inj (hb'.symm.trans hb)
    rw [he]
    exact ⟨bytes', hb, rfl, Nat.le_trans hle (Nat.mod_le _ _), rfl⟩

theorem readLoop_cases (hd : d.maxSerial < 2 ^ 32) (h : Holds d r) (fuel : Nat) :
    (∃ bytes, bytes.length = n ∧ (readLoop d n fuel r).2 = some bytes ∧ Holds d (readLoop d n fuel r).1) ∨
      (∃ r', Holds d r' ∧ readLoop d n fuel r = match fuel with
        | 0 => (r', none)
        | fuel + 1 => readLoop d n fuel r') ∨
      (readLoop d n fuel r).2 = none ∧ Holds d (readLoop d n fuel r).1 := by
  obtain ⟨⟨pos, hfd⟩, file, hfile⟩ := h
  by_cases hlen : ((file.drop pos).take n).length = n
  · have e : readLoop d n fuel r = ({ r with
        curOffset := r.curOffset + n
        fd := some (r.curSerial, pos + ((file.drop pos).take n).length) }, some ((file.drop pos).take n)) := by
      rw [readLoop, hfd]
      dsimp only
      rw [hfile, Option.getD_some, if_pos hlen]
    rw [e]
    exact .inl ⟨_, hlen, rfl, ⟨_, rfl⟩, file, hfile⟩
  · by_cases hmax : r.curSerial < d.maxSerial
    · obtain ⟨c, hc, -, -⟩ := LogDir.later_cons hmax
      have e : readLoop d n fuel r = match fuel with
          | 0 => (goneTo d r (skipMissing d d.maxSerial (d.maxSerial - (r.curSerial + 1)) (r.curSerial + 1)), none)
          | fuel + 1 => readLoop d n fuel
              (goneTo d r (skipMissing d d.maxSerial (d.maxSerial - (r.curSerial + 1)) (r.curSerial + 1))) := by
        rw [readLoop, hfd]
        dsimp only
        rw [hfile, Option.getD_some, if_neg hlen]
        exact if_pos hmax
      refine .inr (.inl ⟨_, ⟨⟨0, ?_⟩, c, hc⟩, e⟩)
      show openFile d _ = _
      unfold openFile
      rw [hc]
      rfl
    · have hstay : Holds d { r.refresh d with fd := some (r.curSerial, pos + ((file.drop pos).take n).length) } :=
        ⟨⟨_, rfl⟩, file, hfile⟩
      have e : readLoop d n fuel r = if ((file.drop pos).take n).length > 0 then
          ((LogReader.seek d { r.refresh d with fd := some (r.curSerial, pos + ((file.drop pos).take n).length) }
            (.of r.curSerial r.curOffset)).1, none)
          else ({ r.refresh d with fd := some (r.curSerial, pos + ((file.drop pos).take n).length) }, none) := by
        rw [readLoop, hfd]
        dsimp only
        rw [hfile, Option.getD_some, if_neg hlen]
        exact if_neg hmax
      rw [e]
      right
      right
      split
      · exact ⟨rfl, hstay.back hd r.curOffset⟩
      · exact ⟨rfl, hstay⟩

theorem Holds.readLoop (hd : d.maxSerial < 2 ^ 32) : ∀ {fuel : Nat} {r : LogReader}, Holds d r →
    Holds d (LogReader.readLoop d n fuel r).1 ∧
      ∀ bytes, (LogReader.readLoop d n fuel r).2 = some bytes → bytes.length = n := by
  intro fuel
  induction fuel with
  | zero =>
    intro r h
    rcases readLoop_cases (n := n) hd h 0 with ⟨bytes, hlen, hb, hr⟩ | ⟨r', hr', he⟩ | ⟨hnone, hr⟩
    · refine ⟨hr, fun c hc => ?_⟩
      obtain rfl := Option.some.inj (hb.symm.trans hc)
      exact hlen
    · rw [he]
      exact ⟨hr', nofun⟩
    · exact ⟨hr, fun c hc => absurd (hnone.symm.trans hc) nofun⟩
  | succ fuel ih =>
    intro r h
    rcases readLoop_cases (n := n) hd h (fuel + 1) with ⟨bytes, hlen, hb, hr⟩ | ⟨r', hr', he⟩ | ⟨hnone, hr⟩
    · refine ⟨hr, fun c hc => ?_⟩
      obtain rfl := Option.some.inj (hb.symm.trans hc)
      exact hlen
    · rw [he]
      exact ih hr'
    · exact ⟨hr, fun c hc => absurd (hnone.symm.trans hc) nofun⟩

theorem Holds.read (hd : d.maxSerial < 2 ^ 32) {r : LogReader} (h : Holds d r) (n : Nat) :
    Holds d (r.read d n).1 ∧ ∀ bytes, (r.read d n).2 = some bytes → bytes.length = n :=
  h.readLoop hd

end LogReader

namespace BinlogReader

variable {d : LogDir} {b : BinlogReader} {e : List UInt8}

theorem read_spec (hd : d.maxSerial < 2 ^ 32) (h : b.logReader.Holds d) :
    (b.read d).1.logReader.Holds d ∧ ((b.read d).2 = true → (b.read d).1.codecBuffer.length < 4 + 2 ^ 20) := by
  obtain ⟨h4, hlen4⟩ := h.read hd 4
  unfold read
  generalize b.logReader.read d 4 = r at h4 hlen4
  obtain ⟨r, head⟩ := r
  cases head with
  | none => exact ⟨h4, nofun⟩
  | some head =>
    dsimp only
    cases hrest : recordRest head with
    | none => exact ⟨h4, nofun⟩
    | some len =>
      obtain ⟨hn, hlenn⟩ := h4.read hd len
      dsimp only
      generalize r.read d len = r' at hn hlenn
      obtain ⟨r', body⟩ := r'
      cases body with
      | none => exact ⟨hn, nofun⟩
      | some body =>
        refine ⟨hn, fun _ => ?_⟩
        have hlt : len < 2 ^ 20 := by
          unfold recordRest at hrest
          split at hrest
          · cases hrest
          · have := Option.some.inj hrest
            omega
        show (head ++ body).length < _
        rw [List.length_append, hlen4 head rfl, hlenn body rfl]
        omega

theorem next_eq_some_iff (hd : d.maxSerial < 2 ^ 32) {r : BinlogRecord} {rest : List UInt8} {later : List (List UInt8)}
    (h : LogReader.At d b.logReader ⟨r.encode ++ rest, later⟩) : (b.next d).2 = some r.encode ↔ r.Fits := by
  constructor
  · intro hnext
    have hholds : b.logReader.Holds d := by
      obtain ⟨bytes, hc, hfd, -, -⟩ := h
      exact ⟨⟨_, hfd⟩, bytes, hc⟩
    have hlen := (read_spec hd hholds).2
    unfold next at hnext
    generalize b.read d = r' at hnext hlen
    obtain ⟨b', ok⟩ := r'
    cases ok with
    | false => cases hnext
    | true =>
      have hbuf := hlen rfl
      rw [Option.some.inj hnext, r.length_encode] at hbuf
      exact Nat.lt_of_add_lt_add_left hbuf
  · intro hfit
    exact (next_some hd h (frame_append hfit.isFrame)).1

end BinlogReader

namespace SeekRun

variable {s s' : SeekRun}

/-- No file has a number of more than 32 bits, and the reader has its own file open. -/
structure Inv (s : SeekRun) : Prop where
  serials : ∀ file ∈ s.dir, file.1 < 2 ^ 32
  holds : s.reader.logReader.Holds s.dir

theorem Inv.maxSerial (h : s.Inv) : s.dir.maxSerial < 2 ^ 32 := by
  rcases s.dir.maxSerial_spec.2 with h0 | ⟨bytes, hb⟩
  · rw [h0]
    decide
  · obtain ⟨file, hfile, hserial⟩ := List.mem_map.mp (LogDir.mem_of_content hb)
    exact hserial ▸ h.serials file hfile

theorem Inv.step (h : s.Inv) {a : SeekAction} (ok : s.StepOk a) : (s.step a).Inv := by
  cases a with
  | seek serial offset => exact ⟨h.serials, h.holds.seek ok⟩
  | read => exact ⟨h.serials, (BinlogReader.read_spec h.maxSerial h.holds).1⟩
  | append serial bytes =>
    obtain ⟨hfd, file, hfile⟩ := h.holds
    refine ⟨fun x hx => ?_, hfd, ?_⟩
    · rcases List.mem_cons.mp hx with rfl | hx
      · exact serial.toNat_lt
      · exact h.serials x (List.mem_of_mem_filter hx)
    · show ∃ bytes', (s.dir.put serial.toNat _).content s.reader.logReader.curSerial = some bytes'
      rw [LogDir.content_put]
      split
      · exact ⟨_, rfl⟩
      · exact ⟨file, hfile⟩

end SeekRun

/-- **A seek that succeeds leads to its record, and one that fails leaves the reader where it was**, after every run whose
seeks do not go behind the end of another file; and the first that does moves the reader. -/
theorem seekMachine_seeks {s : SeekRun} (hs : seekMachine.ReachableMeeting SeekRun.StepOk s) :
    (∀ v r, s.dir.HasRecord v r → (s.reader.seek s.dir v).2 = true →
        (((s.reader.seek s.dir v).1.next s.dir).2 = some r.encode ↔ r.Fits)) ∧
      ∀ v, (s.reader.seek s.dir v).2 = false → ((s.reader.seek s.dir v).1 = s.reader ↔ s.SeekOk v) := by
  have hinv : s.Inv := by
    refine Machine.reachableMeeting_induct seekMachine ?_ ?_ hs
    · rintro s ⟨hserials, hfile, hreader⟩
      obtain ⟨bytes, hb⟩ := Option.ne_none_iff_exists'.mp hfile
      refine ⟨hserials, ?_⟩
      rw [hreader]
      refine ⟨⟨0, ?_⟩, bytes, hb⟩
      exact congrArg (Option.map _) hb
    · intro s a s' h ok hst
      obtain rfl := Option.some.inj hst
      exact h.step ok
  constructor
  · rintro v r ⟨bytes, rest, hb, hdrop⟩ hok
    have hat := LogReader.seek_at (v := v) hinv.holds hok hb
    rw [hdrop] at hat
    exact BinlogReader.next_eq_some_iff (b := (s.reader.seek s.dir v).1) hinv.maxSerial hat
  · intro v hfail
    refine Iff.trans ?_ (LogReader.seek_failed_iff hinv.holds hfail)
    constructor
    · exact fun h => congrArg BinlogReader.logReader h
    · exact fun h => congrArg (fun r => { s.reader with logReader := r }) h

def bareRecord (type : UInt8) : BinlogRecord := ⟨type, 0, 0, 0, []⟩

def twoFiles : LogDir := [(1, (bareRecord 1).encode), (2, (bareRecord 2).encode)]

def twoFilesRun : SeekRun := ⟨twoFiles, { logReader := LogReader.open twoFiles {} }⟩

theorem twoFilesRun_start : seekMachine.start twoFilesRun := ⟨by decide, by decide, rfl⟩

/-- After a seek behind the end of its own file the reader still seeks to the record of the other. -/
theorem seekMachine_seeks_other : ∃ s, seekMachine.run twoFilesRun [.seek 1 1000] = some s ∧
    ((s.reader.seek s.dir ⟨2, 0⟩).1.next s.dir).2 = some (bareRecord 2).encode := by
  have hmeets : seekMachine.RunMeets SeekRun.StepOk twoFilesRun [.seek 1 1000] := by decide +kernel
  refine ⟨_, rfl, ?_⟩
  refine ((seekMachine_seeks ⟨_, _, twoFilesRun_start, hmeets, rfl⟩).1 ⟨2, 0⟩ (bareRecord 2) ?_ ?_).mpr ?_
  · exact ⟨(bareRecord 2).encode, [], by decide +kernel, by decide +kernel⟩
  · decide +kernel
  · decide +kernel

/-- A seek behind the end of the other file fails, and one back to the first file's record succeeds: what is read then is
the record of the other file. -/
theorem seekMachine_wrongFile : ∃ s, seekMachine.run twoFilesRun [.seek 2 1000] = some s ∧ seekMachine.Reachable s ∧
    s.dir.HasRecord ⟨1, 0⟩ (bareRecord 1) ∧ (s.reader.seek s.dir ⟨1, 0⟩).2 = true ∧
      ((s.reader.seek s.dir ⟨1, 0⟩).1.next s.dir).2 = some (bareRecord 2).encode := by
  refine ⟨_, rfl, ⟨twoFilesRun, [.seek 2 1000], twoFilesRun_start, rfl⟩, ⟨(bareRecord 1).encode, [], by decide +kernel, by decide +kernel⟩, ?_, ?_⟩
  · decide +kernel
  · decide +kernel

/-! ## A record that is being written -/

/-- The newest file ends in the first bytes of a record. -/
structure Unfinished (d : LogDir) (serial : Nat) (front : List UInt8) (r : BinlogRecord) (n : Nat) : Prop where
  newest : d.maxSerial = serial
  file : d.content serial = some (front ++ r.encode.take n)
  proper : n < r.encode.length

namespace LogReader

variable {d : LogDir} {r : LogReader} {serial offset n : Nat}

/-- File, offset and journal id are those of this place. -/
def Stands (r : LogReader) (serial offset : Nat) : Prop :=
  r.fd = some (serial, offset) ∧ r.curSerial = serial ∧ r.curOffset = offset

theorem read_newest (h : r.Stands serial offset) (hnew : d.maxSerial = serial) {file : List UInt8}
    (hfile : d.content serial = some file) (hshort : file.length - offset < n) :
    r.read d n = if 0 < file.length - offset then
        ((LogReader.seek d { r.refresh d with fd := some (serial, offset + (file.length - offset)) }
          (.of serial offset)).1, none)
      else (r.refresh d, none) := by
  obtain ⟨hfd, rfl, rfl⟩ := h
  have hlen : ((file.drop r.curOffset).take n).length = file.length - r.curOffset := by
    rw [List.length_take, List.length_drop]
    omega
  unfold LogReader.read
  rw [readLoop, hfd]
  dsimp only
  rw [hfile, Option.getD_some, if_neg (by rw [hlen]; omega), hlen]
  refine (if_neg (by show ¬ r.curSerial < d.maxSerial; omega)).trans ?_
  by_cases h0 : 0 < file.length - r.curOffset
  · rw [if_pos h0, if_pos h0]
    rfl
  · rw [if_neg h0, if_neg h0, Nat.eq_zero_of_not_pos h0, Nat.add_zero, ← hfd]

theorem back_cases (h : r.Stands serial offset) (hserial : serial < 2 ^ 32) {file : List UInt8}
    (hfile : d.content serial = some file) (pos : Nat) :
    file.length % 2 ^ 32 < offset % 2 ^ 32 ∧
        LogReader.seek d { r.refresh d with fd := some (serial, pos) } (.of serial offset) =
          ({ r.refresh d with fd := some (serial, pos) }, false) ∨
      offset % 2 ^ 32 ≤ file.length % 2 ^ 32 ∧
        LogReader.seek d { r.refresh d with fd := some (serial, pos) } (.of serial offset) =
          ({ r.refresh d with curOffset := offset % 2 ^ 32, fd := some (serial, offset % 2 ^ 32) }, true) := by
  obtain ⟨-, rfl, -⟩ := h
  have hholds : Holds d { r.refresh d with fd := some (r.curSerial, pos) } := ⟨⟨_, rfl⟩, file, hfile⟩
  have hof : JournalID.of r.curSerial offset = ⟨r.curSerial, offset % 2 ^ 32⟩ := by
    unfold JournalID.of
    rw [Nat.mod_eq_of_lt hserial]
  rw [hof]
  rcases seek_cases hholds ⟨r.curSerial, offset % 2 ^ 32⟩ with ⟨hnone, -⟩ | ⟨bytes, hb, hcase⟩
  · exact absurd (hnone.symm.trans hfile) nofun
  · obtain rfl := Option.some.inj (hb.symm.trans hfile)
    rcases hcase with ⟨hlt, e⟩ | ⟨hle, e⟩
    · exact .inl ⟨hlt, e.trans (congrArg (·, false) (if_pos rfl))⟩
    · exact .inr ⟨hle, e⟩

theorem back_stands_iff (h : r.Stands serial offset) (hserial : serial < 2 ^ 32) {file : List UInt8}
    (hfile : d.content serial = some file) {got : Nat} (hgot : file.length = offset + got) (h0 : 0 < got) (h32 : got < 2 ^ 32) :
    (LogReader.seek d { r.refresh d with fd := some (serial, offset + got) } (.of serial offset)).1.Stands serial offset ↔
      file.length < 2 ^ 32 := by
  rcases back_cases h hserial hfile (offset + got) with ⟨hlt, e⟩ | ⟨hle, e⟩
  · rw [e]
    refine iff_of_false (fun hs => ?_) (fun hlen => ?_)
    · have hpos := (Prod.mk.inj (Option.some.inj hs.1)).2
      omega
    · omega
  · rw [e]
    constructor
    · rintro ⟨-, -, hoffset⟩
      dsimp only at hoffset
      omega
    · intro hlen
      have hoffset : offset % 2 ^ 32 = offset := Nat.mod_eq_of_lt (by omega)
      rw [hoffset]
      exact ⟨rfl, h.2.1, rfl⟩

end LogReader

/-- The first bytes of a record can be read again: they are none, or not the whole length, in a file of less than 4 GiB. -/
def Retries (front : List UInt8) (n : Nat) : Prop := n = 0 ∨ n < 4 ∧ front.length + n < 2 ^ 32

namespace BinlogReader

variable {d : LogDir} {b : BinlogReader} {serial n : Nat} {front : List UInt8} {r : BinlogRecord}

theorem read_head (hb : b.logReader.Stands serial front.length) {rest : List UInt8} (h4 : 4 ≤ rest.length)
    (hfile : d.content serial = some (front ++ rest)) :
    b.logReader.read d 4 = ({ b.logReader with
      curOffset := front.length + 4
      fd := some (serial, front.length + 4) }, some (rest.take 4)) := by
  obtain ⟨hfd, hserial, hoffset⟩ := hb
  have hdrop : (front ++ rest).drop b.logReader.curOffset = rest := by
    rw [hoffset]
    exact List.drop_left
  have e := LogReader.readLoop_enough (d := d) (r := b.logReader) (n := 4) (by rw [hserial]; exact hfile)
    (by rw [hfd, hserial, hoffset]) (by rw [hdrop]; exact h4) (d.maxSerial - b.logReader.curSerial)
  rw [hdrop, hoffset, hserial] at e
  rw [← hserial] at e ⊢
  exact e

theorem next_body (hb : b.logReader.Stands serial front.length) (hserial : serial < 2 ^ 32)
    (hword : r.encodeRest.length < 2 ^ 32) (h : Unfinished d serial front r n) (h4 : 4 ≤ n) :
    (b.next d).2 = none ∧ (b.next d).1.logReader.curOffset ≠ front.length := by
  have hproper := h.proper
  have hsize : (front ++ r.encode.take n).length = front.length + n := by
    rw [List.length_append, List.length_take, Nat.min_eq_left (Nat.le_of_lt hproper)]
  have hhead : (r.encode.take n).take 4 = leBytes 4 r.encodeRest.length := by
    rw [List.take_take, Nat.min_eq_left h4, BinlogRecord.encode]
    exact List.take_left' (length_leBytes 4 _)
  have hread := read_head hb (show 4 ≤ (r.encode.take n).length by rw [List.length_take]; omega) h.file
  rw [hhead] at hread
  unfold next read
  rw [hread]
  dsimp only
  cases hrest : recordRest (leBytes 4 r.encodeRest.length) with
  | none => exact ⟨rfl, show front.length + 4 ≠ front.length by omega⟩
  | some len =>
    have hlen : len = r.encodeRest.length := by
      have hnat : leNat 4 (leBytes 4 r.encodeRest.length) = r.encodeRest.length := by
        rw [leNat_leBytes]
        exact Nat.mod_eq_of_lt (Nat.lt_of_lt_of_le hword (by decide))
      unfold recordRest at hrest
      rw [hnat] at hrest
      split at hrest
      · cases hrest
      · exact (Option.some.inj hrest).symm
    have hstands : LogReader.Stands { b.logReader with
        curOffset := front.length + 4
        fd := some (serial, front.length + 4) } serial (front.length + 4) := ⟨rfl, hb.2.1, rfl⟩
    have hshort : (front ++ r.encode.take n).length - (front.length + 4) < len := by
      rw [r.length_encode] at hproper
      omega
    dsimp only
    rw [LogReader.read_newest hstands h.newest h.file hshort]
    by_cases h0 : 0 < (front ++ r.encode.take n).length - (front.length + 4)
    · rw [if_pos h0]
      refine ⟨rfl, ?_⟩
      rcases LogReader.back_cases hstands hserial h.file
        (front.length + 4 + ((front ++ r.encode.take n).length - (front.length + 4))) with ⟨-, e⟩ | ⟨-, e⟩
      · rw [e]
        show front.length + 4 ≠ front.length
        omega
      · rw [e]
        show (front.length + 4) % 2 ^ 32 ≠ front.length
        omega
    · rw [if_neg h0]
      exact ⟨rfl, show front.length + 4 ≠ front.length by omega⟩

theorem next_unfinished (hb : b.logReader.Stands serial front.length) (hserial : serial < 2 ^ 32)
    (hword : r.encodeRest.length < 2 ^ 32) (h : Unfinished d serial front r n) :
    (b.next d).2 = none ∧ ((b.next d).1.logReader.Stands serial front.length ↔ Retries front n) := by
  have hsize : (front ++ r.encode.take n).length = front.length + n := by
    rw [List.length_append, List.length_take, Nat.min_eq_left (Nat.le_of_lt h.proper)]
  by_cases h4 : n < 4
  · have hrefresh : (b.logReader.refresh d).Stands serial front.length := hb
    unfold next read
    rw [LogReader.read_newest hb h.newest h.file (by rw [hsize]; omega), hsize, Nat.add_sub_cancel_left]
    by_cases h0 : 0 < n
    · rw [if_pos h0]
      refine ⟨rfl, ?_⟩
      refine (LogReader.back_stands_iff hb hserial h.file hsize h0 (by omega)).trans ?_
      rw [hsize]
      unfold Retries
      omega
    · rw [if_neg h0]
      exact ⟨rfl, iff_of_true hrefresh (.inl (Nat.eq_zero_of_not_pos h0))⟩
  · obtain ⟨hnone, hoffset⟩ := next_body hb hserial hword h (Nat.le_of_not_lt h4)
    refine ⟨hnone, iff_of_false (fun hs => hoffset hs.2.2) ?_⟩
    unfold Retries
    omega

/-- Reads that fail, one after the other, each with the reader at the place where it was. -/
def Stays (serial offset : Nat) : BinlogReader → List LogDir → Prop
  | _, [] => True
  | b, d :: ds => (b.next d).2 = none ∧ (b.next d).1.logReader.Stands serial offset ∧ Stays serial offset (b.next d).1 ds

def after (b : BinlogReader) (ds : List LogDir) : BinlogReader := ds.foldl (fun b d => (b.next d).1) b

theorem Stays.stands {offset : Nat} : ∀ {ds : List LogDir} {b : BinlogReader}, b.logReader.Stands serial offset →
    Stays serial offset b ds → (b.after ds).logReader.Stands serial offset
  | [], _, hb, _ => hb
  | _ :: ds, _, _, ⟨_, hs, h⟩ => @Stays.stands _ ds _ hs h

theorem stays_iff (hserial : serial < 2 ^ 32) (hword : r.encodeRest.length < 2 ^ 32) :
    ∀ {ds : List (LogDir × Nat)} {b : BinlogReader}, b.logReader.Stands serial front.length →
      (∀ x ∈ ds, Unfinished x.1 serial front r x.2) →
        (Stays serial front.length b (ds.map Prod.fst) ↔ ∀ x ∈ ds, Retries front x.2) := by
  intro ds
  induction ds with
  | nil => exact fun _ _ => iff_of_true trivial (fun _ hx => absurd hx List.not_mem_nil)
  | cons x ds ih =>
    intro b hb h
    obtain ⟨hnone, hstands⟩ := next_unfinished hb hserial hword (h x (List.mem_cons_self ..))
    rw [List.forall_mem_cons, ← hstands]
    constructor
    · rintro ⟨-, hs, hrest⟩
      exact ⟨hs, (ih hs (fun y hy => h y (List.mem_cons_of_mem _ hy))).mp hrest⟩
    · rintro ⟨hs, hrest⟩
      exact ⟨hnone, hs, (ih hs (fun y hy => h y (List.mem_cons_of_mem _ hy))).mpr hrest⟩

theorem next_complete (hb : b.logReader.Stands serial front.length) (hd : d.maxSerial < 2 ^ 32) {rest : List UInt8}
    (hfile : d.content serial = some (front ++ r.encode ++ rest)) : (b.next d).2 = some r.encode ↔ r.Fits := by
  obtain ⟨hfd, rfl, hoffset⟩ := hb
  have hat : LogReader.At d b.logReader ⟨r.encode ++ rest, d.later b.logReader.curSerial⟩ := by
    refine ⟨_, hfile, ?_, ?_, ?_⟩
    · rw [hfd, hoffset]
    · rw [hoffset, List.append_assoc, List.length_append]
      exact Nat.le_add_right _ _
    · rw [hoffset, List.append_assoc, List.drop_left]
  exact next_eq_some_iff hd hat

end BinlogReader

/-- **Reads of a record that is not complete can be repeated, and lead to the record**, if and only if no one of them gets the
whole length. -/
theorem binlogReader_retries {serial : Nat} {front : List UInt8} {r : BinlogRecord} {b : BinlogReader}
    (hserial : serial < 2 ^ 32) (hword : r.encodeRest.length < 2 ^ 32) (hb : b.logReader.Stands serial front.length)
    {ds : List (LogDir × Nat)} (hds : ∀ x ∈ ds, Unfinished x.1 serial front r x.2) :
    (b.Stays serial front.length (ds.map Prod.fst) ∧
        ∀ (d : LogDir) (rest : List UInt8), d.maxSerial < 2 ^ 32 → d.content serial = some (front ++ r.encode ++ rest) →
          ((b.after (ds.map Prod.fst)).next d).2 = some r.encode) ↔
      (∀ x ∈ ds, Retries front x.2) ∧ r.Fits := by
  rw [← BinlogReader.stays_iff hserial hword hb hds]
  constructor
  · rintro ⟨hstays, hread⟩
    refine ⟨hstays, ?_⟩
    have hfile : LogDir.content [(serial, front ++ r.encode ++ [])] serial = some (front ++ r.encode ++ []) :=
      List.lookup_cons_self
    have hmax : LogDir.maxSerial [(serial, front ++ r.encode ++ [])] < 2 ^ 32 := by
      rcases (LogDir.maxSerial_spec [(serial, front ++ r.encode ++ [])]).2 with h0 | ⟨bytes, hb⟩
      · rw [h0]
        decide
      · rwa [List.mem_singleton.mp (LogDir.mem_of_content hb)]
    exact (BinlogReader.next_complete (hstays.stands hb) hmax hfile).mp (hread _ _ hmax hfile)
  · rintro ⟨hstays, hfits⟩
    exact ⟨hstays, fun d rest hd hfile => (BinlogReader.next_complete (hstays.stands hb) hd hfile).mpr hfits⟩

/-- The file of a record of which only the first bytes are there. -/
def partOf (r : BinlogRecord) (n : Nat) : LogDir := [(1, r.encode.take n)]

theorem partOf_unfinished {r : BinlogRecord} {n : Nat} (h : n < r.encode.length) : Unfinished (partOf r n) 1 [] r n where
  newest := LogDir.maxSerial_eq (show (partOf r n).content 1 = some (r.encode.take n) from rfl) (fun v bytes hb => by
    exact Nat.le_of_eq (List.mem_singleton.mp (LogDir.mem_of_content hb)))
  file := rfl
  proper := h

def firstReader : BinlogReader := { logReader := LogReader.open (partOf (bareRecord 1) 0) {} }

/-- Nothing of the record is there, then a part of its length, then all of it. -/
theorem binlogReader_retries_twice : ((firstReader.after [partOf (bareRecord 1) 0, partOf (bareRecord 1) 3]).next
    [(1, (bareRecord 1).encode)]).2 = some (bareRecord 1).encode := by
  have hds : ∀ x ∈ [(partOf (bareRecord 1) 0, 0), (partOf (bareRecord 1) 3, 3)], Unfinished x.1 1 [] (bareRecord 1) x.2 := by
    intro x hx
    rcases List.mem_cons.mp hx with rfl | hx
    · exact partOf_unfinished (by decide +kernel)
    · obtain rfl := List.mem_singleton.mp hx
      exact partOf_unfinished (by decide +kernel)
  have hretries : ∀ x ∈ [(partOf (bareRecord 1) 0, 0), (partOf (bareRecord 1) 3, 3)], Retries [] x.2 := by
    intro x hx
    rcases List.mem_cons.mp hx with rfl | hx
    · exact .inl rfl
    · obtain rfl := List.mem_singleton.mp hx
      exact .inr ⟨by decide, by decide⟩
  exact ((binlogReader_retries (by decide) (by decide +kernel) ⟨rfl, rfl, rfl⟩ hds).mpr ⟨hretries, by decide +kernel⟩).2 _ []
    (by decide +kernel) (by decide +kernel)

/-- The length of a record is read and its body is not there: the reader does not come back to the record. -/
theorem binlogReader_lost : Unfinished (partOf (bareRecord 1) 4) 1 [] (bareRecord 1) 4 ∧
    (firstReader.next (partOf (bareRecord 1) 4)).2 = none ∧
      (firstReader.next (partOf (bareRecord 1) 4)).1.logReader.query = ⟨1, 4⟩ ∧
        ((firstReader.after [partOf (bareRecord 1) 4]).next [(1, (bareRecord 1).encode)]).2 ≠ some (bareRecord 1).encode :=
  ⟨partOf_unfinished (by decide +kernel), by decide +kernel, by decide +kernel, by decide +kernel⟩

end Dtc
