import DtcServer.AsyncFileRun
/-!
# AsyncFileCrash — the queue of the hot backup when a process stops

A process that stops loses what it has in memory; its next `Open` takes the position from the control file.
-/
namespace Dtc

open Memory

def AsyncFile.Whole (f : AsyncFile) : Prop := f.linked = true ∧ f.size = maxAsyncFileSize

/-- The queue with the processes that may be down.  What happened in `queue` is what happened since the reader was opened;
`committed` counts the records that it has committed since then. -/
structure CrashQueue where
  queue : AsyncQueue
  committed : Nat := 0
  readerUp : Bool := true
  writerUp : Bool := true

inductive CrashAct where
  | run (a : QueueAct)
  | stopReader
  | openReader
  | stopWriter
  | openWriter

/-- The reader's old file is gone and `Shift` is not done, or there is no next file. -/
def ReaderStage.moving : ReaderStage → Bool
  | .openNext | .shiftOffset | .shiftSerial | .failed => true
  | _ => false

/-- Between the two stores of `Shift`. -/
def WriterStage.inShift : WriterStage → Bool
  | .shiftSerial _ => true
  | _ => false

def QueueAct.ofReader : QueueAct → Bool
  | .read | .reader _ | .commit => true
  | .write _ | .writer _ => false

namespace AsyncQueue

variable (s : AsyncQueue)

/-- How many of its records the reader has committed after a step to `s'`. -/
def committedAfter (s' : AsyncQueue) (committed : Nat) : Nat :=
  if s.reader.processing && !s'.reader.processing then s'.delivered.length else committed

/-- The reader is gone, and what it has not committed is to be delivered. -/
def withoutReader (committed : Nat) : AsyncQueue :=
  { s with reader := { pos := s.rpos }, written := s.written.drop committed, returned := [], removed := [] }

def withoutWriter : AsyncQueue := { s with writer := { pos := s.wpos } }

/-- `CAsyncFileWriter::Open` maps the file of the writer's position. -/
def reopenWriter : AsyncQueue :=
  let n := s.wpos.serial.toNat
  { s with files := Function.update s.files n (s.files n).openForWriter }

/-- The reader moves to the next file, or has failed to. -/
def Moving : Prop := s.reader.stage.moving = true

instance : Decidable s.Moving := inferInstanceAs (Decidable (_ = true))

def InShift : Prop := s.writer.stage.inShift = true

instance : Decidable s.InShift := inferInstanceAs (Decidable (_ = true))

end AsyncQueue

namespace CrashQueue

variable (c : CrashQueue)

def up (a : QueueAct) : Bool := if a.ofReader then c.readerUp else c.writerUp

/-- A step, a stop or an `Open`; an `Open` without its file fails. -/
def step : CrashAct → Option CrashQueue
  | .run a =>
    if c.up a then
      (c.queue.step a).map fun queue =>
        { c with queue := queue, committed := c.queue.committedAfter queue c.committed }
    else none
  | .stopReader =>
    if c.readerUp then some { c with queue := c.queue.withoutReader c.committed, committed := 0, readerUp := false }
    else none
  | .openReader =>
    if !c.readerUp && (c.queue.files c.queue.rpos.serial.toNat).openForReader then some { c with readerUp := true } else none
  | .stopWriter => if c.writerUp then some { c with queue := c.queue.withoutWriter, writerUp := false } else none
  | .openWriter => if c.writerUp then none else some { c with queue := c.queue.reopenWriter, writerUp := true }

def machine : Machine CrashQueue CrashAct where
  start c := ∃ s : AsyncQueue, s.Opened ∧ c = { queue := s }
  step := step

/-- **A process that is down can be started again**: the positions name files that are there, so both `Open` calls succeed, and
the records that were not committed are delivered in their order. -/
structure Recovers : Prop where
  readerOpens : c.readerUp = false → (c.queue.files c.queue.rpos.serial.toNat).openForReader = true
  writerOpens : c.writerUp = false → (c.queue.files c.queue.wpos.serial.toNat).linked = true
  queueOk : c.queue.QueueOk
  redelivers : c.queue.writer.stage = .idle → c.queue.reader.stage = .idle → ∃ as c',
    (∀ a ∈ as, a = .openReader ∨ a = .run .read ∨ a = .run (.reader true)) ∧ machine.run c as = some c' ∧
      c'.queue.delivered = c.queue.written.map QueueRecord.bytes

/-- The condition of a step: that of the queue; the reader does not stop while it moves to the next file, from `Unlink` to the
second store of `Shift`, and the writer not between the two stores of its `Shift`. -/
def Safe (c : CrashQueue) : CrashAct → Prop
  | .run a => c.queue.StepOk a
  | .stopReader => ¬ c.queue.Moving
  | .stopWriter => ¬ c.queue.InShift
  | .openReader | .openWriter => True

instance (c : CrashQueue) : ∀ a, Decidable (c.Safe a)
  | .run a => inferInstanceAs (Decidable (c.queue.StepOk a))
  | .stopReader => inferInstanceAs (Decidable (¬ c.queue.Moving))
  | .stopWriter => inferInstanceAs (Decidable (¬ c.queue.InShift))
  | .openReader => isTrue trivial
  | .openWriter => isTrue trivial

end CrashQueue

namespace AsyncQueue

section Files

variable {s s' : AsyncQueue} {opens : Bool}

/-- The writer's file, and the next one when the writer has opened it. -/
structure WriterFiles (s : AsyncQueue) : Prop where
  room : s.wpos.offset.toNat + 4 < maxAsyncFileSize
  whole : (s.files s.writerPlace.serial).Whole
  next : ∀ buf, s.writer.stage = .shiftOffset buf → (s.files (s.wpos.serial.toNat + 1)).Whole

theorem whole_store (bytes : List UInt8) {n : Nat} (h : (s.files n).Whole) : (s.store bytes n).Whole := by
  unfold store
  by_cases hn : n = s.writer.pos.serial.toNat
  · rw [hn, Function.update_self]
    rw [hn] at h
    exact h
  · rw [Function.update_of_ne hn]
    exact h

theorem whole_writerStep (hstep : s.writerStep opens = some s') {n : Nat} (h : (s.files n).Whole) : (s'.files n).Whole := by
  unfold AsyncQueue.writerStep at hstep
  split at hstep
  · cases hstep
  · cases hstep
  · split at hstep
    · obtain rfl := Option.some.inj hstep
      exact whole_store _ h
    · obtain rfl := Option.some.inj hstep
      exact whole_store _ h
  · obtain rfl := Option.some.inj hstep
    exact whole_store _ h
  · obtain rfl := Option.some.inj hstep
    exact h
  · dsimp only at hstep
    split at hstep
    · obtain rfl := Option.some.inj hstep
      dsimp only
      by_cases hn : n = s.wpos.shift.serial.toNat
      · rw [hn, Function.update_self]
        exact ⟨rfl, rfl⟩
      · rw [Function.update_of_ne hn]
        exact h
    · obtain rfl := Option.some.inj hstep
      exact h
  · obtain rfl := Option.some.inj hstep
    exact h
  · obtain rfl := Option.some.inj hstep
    exact h

theorem WriterFiles.writerStep (h : WriterFiles s) (hs : QueueInv s)
    (hsucc : ∀ buf, s.writer.stage = .openNext buf → s.wpos.serial.toNat + 1 < 2 ^ 32)
    (hstep : s.writerStep opens = some s') : WriterFiles s' := by
  have hkeep : ∀ {n : Nat}, (s.files n).Whole → (s'.files n).Whole := whole_writerStep hstep
  have hw := hs.writer
  have hok := (hs.writerExtends hsucc hstep).2
  unfold WriterOk at hw
  unfold AsyncQueue.writerStep at hstep
  cases hst : s.writer.stage with
  | idle =>
    rw [hst] at hstep
    cases hstep
  | failed =>
    rw [hst] at hstep
    cases hstep
  | input buf =>
    have hwhole := h.whole
    rw [writerPlace_of_stage hst (fun _ => nofun)] at hwhole
    rw [hst] at hstep
    dsimp only at hstep
    split at hstep <;> obtain rfl := Option.some.inj hstep <;> exact ⟨h.room, hkeep hwhole, fun _ hb => by cases hb⟩
  | body buf =>
    have hwhole := h.whole
    rw [writerPlace_of_stage hst (fun _ => nofun)] at hwhole
    rw [hst] at hstep
    obtain rfl := Option.some.inj hstep
    exact ⟨h.room, hkeep hwhole, fun _ hb => by cases hb⟩
  | advance buf =>
    have hwhole := h.whole
    rw [writerPlace_of_stage hst (fun _ => nofun)] at hwhole
    rw [hst] at hstep hw
    obtain rfl := Option.some.inj hstep
    refine ⟨hok.2, hkeep ?_, fun _ hb => by cases hb⟩
    have hser : s.writer.pos.serial = s.wpos.serial := by rw [hw.1]; rfl
    change (s.files s.writer.pos.serial.toNat).Whole
    rw [hser]
    exact hwhole
  | openNext buf =>
    have hwhole := h.whole
    rw [writerPlace_of_stage hst (fun _ => nofun)] at hwhole
    have hn : s.wpos.shift.serial.toNat = s.wpos.serial.toNat + 1 := serial_succ (hsucc buf hst)
    rw [hst] at hstep
    dsimp only at hstep
    split at hstep <;> obtain rfl := Option.some.inj hstep
    · refine ⟨h.room, hkeep hwhole, fun _ _ => ?_⟩
      dsimp only
      rw [← hn, Function.update_self]
      exact ⟨rfl, rfl⟩
    · exact ⟨h.room, hwhole, fun _ hb => by cases hb⟩
  | shiftOffset buf =>
    rw [hst] at hstep
    obtain rfl := Option.some.inj hstep
    exact ⟨(by decide : 0 + 4 < maxAsyncFileSize), h.next buf hst, fun _ hb => by cases hb⟩
  | shiftSerial buf =>
    have hwhole := h.whole
    have hplace : s.writerPlace = ⟨s.wpos.serial.toNat + 1, 0⟩ := by
      unfold writerPlace
      rw [hst]
    rw [hst] at hstep hw
    obtain rfl := Option.some.inj hstep
    have hn : s.wpos.shiftSerial.serial.toNat = s.wpos.serial.toNat + 1 := serial_succ hw.2.1
    refine ⟨h.room, ?_, fun _ hb => by cases hb⟩
    rw [hplace] at hwhole
    change (s.files s.wpos.shiftSerial.serial.toNat).Whole
    rw [hn]
    exact hwhole

theorem readerStep_frame (hstep : s.readerStep opens = some s') : s'.wpos = s.wpos ∧ s'.writer = s.writer ∧
    s'.written = s.written ∧ ∀ n, (s.reader.stage = .unlink → n ≠ s.reader.pos.serial.toNat) → s'.files n = s.files n := by
  have hseen : ∀ again, (s.overflowSeen again).wpos = s.wpos ∧ (s.overflowSeen again).writer = s.writer ∧
      (s.overflowSeen again).written = s.written ∧ (s.overflowSeen again).files = s.files := by
    intro again
    unfold overflowSeen
    split <;> exact ⟨rfl, rfl, rfl, rfl⟩
  unfold AsyncQueue.readerStep at hstep
  cases hst : s.reader.stage with
  | idle | failed => rw [hst] at hstep; cases hstep
  | unlink =>
    rw [hst] at hstep
    obtain rfl := Option.some.inj hstep
    exact ⟨rfl, rfl, rfl, fun n hn => Function.update_of_ne (hn rfl) _ _⟩
  | gtSerial again | gtNotZero again =>
    rw [hst] at hstep
    obtain rfl := Option.some.inj hstep
    obtain ⟨h1, h2, h3, h4⟩ := hseen again
    split
    · exact ⟨h1, h2, h3, fun n _ => congrFun h4 n⟩
    · exact ⟨rfl, rfl, rfl, fun _ _ => rfl⟩
  | openNext =>
    rw [hst] at hstep
    dsimp only at hstep
    split at hstep <;> obtain rfl := Option.some.inj hstep <;> exact ⟨rfl, rfl, rfl, fun _ _ => rfl⟩
  | commit | transientOffset | eqOffset =>
    rw [hst] at hstep
    obtain rfl := Option.some.inj hstep
    split <;> exact ⟨rfl, rfl, rfl, fun _ _ => rfl⟩
  | transientSerial | eqSerial | gtSameSerial again | gtOffset again | output | append | front | shiftOffset | shiftSerial =>
    rw [hst] at hstep
    obtain rfl := Option.some.inj hstep
    exact ⟨rfl, rfl, rfl, fun _ _ => rfl⟩

theorem WriterFiles.readerStep (h : WriterFiles s) (hs : QueueInv s) (hstep : s.readerStep opens = some s') :
    WriterFiles s' := by
  obtain ⟨hwpos, hwriter, -, hfiles⟩ := readerStep_frame hstep
  have hplace : s'.writerPlace = s.writerPlace := by
    unfold writerPlace
    rw [hwpos, hwriter]
  have hbefore : s.reader.stage = .unlink → s.reader.pos.serial.toNat < s.writerPlace.serial := by
    intro hst
    have hfile : s.HasFile := .of_stage hst ⟨nofun, nofun⟩
    have hr := hs.reader
    unfold ReaderOk at hr
    rw [hst] at hr
    obtain ⟨passed, ahead, -, -, hp⟩ := hs.path
    rcases hp.cases_front hr.2.1 with ⟨-, -, t⟩ | ⟨hend, -⟩
    · rw [hfile.place] at t
      exact t.serial_le
    · exact absurd hr.2.2 hend
  refine ⟨hwpos ▸ h.room, ?_, fun buf hst => ?_⟩
  · rw [hplace, hfiles _ (fun hst => Nat.ne_of_gt (hbefore hst))]
    exact h.whole
  · rw [hwriter] at hst
    rw [hwpos, hfiles _ (fun hun => ?_)]
    · exact h.next buf hst
    · have hlt := hbefore hun
      rw [writerPlace_of_stage hst (fun _ => nofun)] at hlt
      exact Nat.ne_of_gt (Nat.lt_succ_of_lt hlt)

theorem WriterFiles.same (h : WriterFiles s) (hfiles : s'.files = s.files) (hwpos : s'.wpos = s.wpos)
    (hplace : s'.writerPlace = s.writerPlace)
    (hnext : ∀ buf, s'.writer.stage = .shiftOffset buf → s.writer.stage = .shiftOffset buf) : WriterFiles s' := by
  refine ⟨hwpos ▸ h.room, ?_, fun buf hst => ?_⟩
  · rw [hplace, hfiles]
    exact h.whole
  · rw [hwpos, hfiles]
    exact h.next buf (hnext buf hst)

theorem WriterFiles.callWrite (h : WriterFiles s) {buf : Buffer} (hstep : s.callWrite buf = some s') : WriterFiles s' := by
  unfold AsyncQueue.callWrite at hstep
  split at hstep
  · rename_i hst
    obtain rfl := Option.some.inj hstep
    exact h.same rfl rfl (writerPlace_of_stage hst (fun _ => nofun)).symm nofun
  · cases hstep

theorem WriterFiles.frame (h : WriterFiles s) (hfiles : s'.files = s.files) (hwpos : s'.wpos = s.wpos)
    (hwriter : s'.writer = s.writer) : WriterFiles s' := by
  have hplace : s'.writerPlace = s.writerPlace := by
    unfold writerPlace
    rw [hwpos, hwriter]
  exact h.same hfiles hwpos hplace (fun _ hst => hwriter ▸ hst)

theorem callRead_frame (hstep : s.callRead = some s') : s'.files = s.files ∧ s'.wpos = s.wpos ∧ s'.writer = s.writer := by
  unfold AsyncQueue.callRead at hstep
  split at hstep
  · obtain rfl := Option.some.inj hstep
    exact ⟨rfl, rfl, rfl⟩
  · obtain rfl := Option.some.inj hstep
    exact ⟨rfl, rfl, rfl⟩
  · cases hstep

theorem callCommit_frame (hstep : s.callCommit = some s') :
    s'.files = s.files ∧ s'.wpos = s.wpos ∧ s'.writer = s.writer := by
  unfold AsyncQueue.callCommit at hstep
  split at hstep
  · obtain rfl := Option.some.inj hstep
    split <;> exact ⟨rfl, rfl, rfl⟩
  · cases hstep

end Files

section Commits

variable {s s' : AsyncQueue} {opens : Bool} {committed : Nat}

/-- What the reader has committed: all that it has delivered, or all but the record at its position. -/
structure Commits (s : AsyncQueue) (committed : Nat) : Prop where
  opens : s.HasFile → (s.files s.reader.pos.serial.toNat).openForReader = true
  idle : s.reader.processing = true → s.reader.stage = .idle ∨ s.reader.stage = .commit
  rest : s.reader.processing = false → committed = s.delivered.length ∧ (¬ s.Moving → s.reader.pos = s.rpos)
  held : s.reader.processing = true → ∃ bytes, RecordAt s.files s.rpos.place bytes ∧
    s.reader.pos.place = ⟨s.rpos.serial.toNat, s.rpos.offset.toNat + 4 + bytes.length⟩ ∧
    s.written[committed]? = some ⟨s.rpos.place, bytes⟩ ∧ s.delivered.length = committed + 1

theorem not_moving_of_stage {stage : ReaderStage} (hst : s.reader.stage = stage) (h : stage.moving = false) : ¬ s.Moving := by
  unfold Moving
  rw [hst, h]
  exact Bool.false_ne_true

theorem committedAfter_of_rest (h : s.reader.processing = false) : s.committedAfter s' committed = committed := by
  unfold committedAfter
  rw [h]
  rfl

theorem Commits.moves (h : Commits s committed) (hproc : s.reader.processing = false)
    (hopens : s'.HasFile → (s'.files s'.reader.pos.serial.toNat).openForReader = true)
    (hsame : s'.reader.processing = s.reader.processing ∧ s'.delivered = s.delivered)
    (hpos : ¬ s'.Moving → s'.reader.pos = s'.rpos) : Commits s' (s.committedAfter s' committed) := by
  obtain ⟨hproc', hdelivered⟩ := hsame
  rw [committedAfter_of_rest hproc]
  rw [hproc] at hproc'
  refine ⟨hopens, fun ht => ?_, fun _ => ⟨?_, hpos⟩, fun ht => ?_⟩
  · rw [hproc'] at ht
    cases ht
  · rw [hdelivered]
    exact (h.rest hproc).1
  · rw [hproc'] at ht
    cases ht

theorem Commits.quiet (h : Commits s committed) (hproc : s.reader.processing = false) (hfile : s.HasFile) (hmoving : ¬ s.Moving)
    (hsame : s'.files = s.files ∧ s'.rpos = s.rpos ∧ s'.reader.pos = s.reader.pos ∧
      s'.reader.processing = s.reader.processing ∧ s'.delivered = s.delivered) :
    Commits s' (s.committedAfter s' committed) := by
  obtain ⟨hfiles, hrpos, hpos, hproc', hdelivered⟩ := hsame
  refine h.moves hproc (fun _ => ?_) ⟨hproc', hdelivered⟩ (fun _ => ?_)
  · rw [hfiles, hpos]
    exact h.opens hfile
  · rw [hpos, hrpos]
    exact (h.rest hproc).2 hmoving

theorem delivered_giveBack {r : ReadResult} (hr : ∀ buff, r ≠ .processOk buff) : (s.giveBack r).delivered = s.delivered := by
  unfold AsyncQueue.delivered AsyncQueue.giveBack
  rw [List.filterMap_append]
  cases r with
  | processOk buff => exact absurd rfl (hr buff)
  | waitData | readerOverflow | switchFileErr | readerLogic => exact List.append_nil _

theorem overflowSeen_same (again : Bool) : (s.overflowSeen again).files = s.files ∧ (s.overflowSeen again).rpos = s.rpos ∧
    (s.overflowSeen again).reader.pos = s.reader.pos ∧
    (s.overflowSeen again).reader.processing = s.reader.processing ∧ (s.overflowSeen again).delivered = s.delivered := by
  unfold overflowSeen
  split
  · exact ⟨rfl, rfl, rfl, rfl, delivered_giveBack nofun⟩
  · exact ⟨rfl, rfl, rfl, rfl, rfl⟩

theorem Commits.commit (h : Commits s committed) (hproc : s.reader.processing = true) (hfile : s.HasFile)
    (hsame : s'.files = s.files ∧ s'.rpos = s.reader.pos ∧ s'.reader.pos = s.reader.pos ∧
      s'.reader.processing = false ∧ s'.delivered = s.delivered) : Commits s' (s.committedAfter s' committed) := by
  obtain ⟨hfiles, hrpos, hpos, hproc', -⟩ := hsame
  have hall : s.committedAfter s' committed = s'.delivered.length := by
    unfold committedAfter
    rw [hproc, hproc']
    rfl
  rw [hall]
  refine ⟨fun _ => ?_, fun ht => ?_, fun _ => ⟨rfl, fun _ => hpos.trans hrpos.symm⟩, fun ht => ?_⟩
  · rw [hfiles, hpos]
    exact h.opens hfile
  · rw [hproc'] at ht
    cases ht
  · rw [hproc'] at ht
    cases ht

theorem Commits.front (h : Commits s committed) (hs : QueueInv s) (hst : s.reader.stage = .front)
    (hstep : s.readerStep opens = some s') : Commits s' (s.committedAfter s' committed) := by
  have hproc : s.reader.processing = false := by
    by_contra hproc
    rw [Bool.not_eq_false] at hproc
    rcases h.idle hproc with h | h <;> rw [hst] at h <;> cases h
  have hmoving : ¬ s.Moving := not_moving_of_stage hst rfl
  obtain ⟨hcommitted, hrest⟩ := h.rest hproc
  have hpos := hrest hmoving
  obtain ⟨bytes, hwritten, hrec, -⟩ := hs.finished (.inr hst)
  have hroom : s.reader.pos.offset.toNat + 4 + bytes.length + 4 < 10 * 2 ^ 20 := hrec.2.2
  have hlen : readNat s.readerMem s.reader.pos.offset.toNat 4 = bytes.length := hrec.1
  rw [committedAfter_of_rest hproc]
  unfold AsyncQueue.readerStep at hstep
  rw [hst] at hstep
  obtain rfl := Option.some.inj hstep
  refine ⟨fun _ => h.opens (.of_stage hst ⟨nofun, nofun⟩), fun _ => .inl rfl, nofun, fun _ => ⟨bytes, ?_, ?_, ?_, ?_⟩⟩
  · rw [← hpos]
    exact hrec
  · have h4 : (s.reader.pos.front 4).offset.toNat = s.reader.pos.offset.toNat + 4 := front_toNat (by omega)
    have hoff : ((s.reader.pos.front 4).front bytes.length).offset.toNat = s.reader.pos.offset.toNat + 4 + bytes.length := by
      rw [front_toNat (by rw [h4]; omega), h4]
    dsimp only
    rw [hlen, ← hpos, ← hoff]
    rfl
  · rw [← hpos, hcommitted]
    exact hwritten
  · unfold AsyncQueue.delivered
    rw [List.filterMap_append, List.length_append, hcommitted]
    rfl

theorem Commits.readerStep (h : Commits s committed) (hs : QueueInv s)
    (hle : s.reader.stage = .eqSerial → s.rpos.serial ≤ s.wpos.serial) (hstep : s.readerStep opens = some s') :
    Commits s' (s.committedAfter s' committed) := by
  have hs' := hs.readerStep hle hstep
  have hr' := hs'.reader
  have hproc : s.reader.stage ≠ .idle → s.reader.stage ≠ .commit → s.reader.processing = false := by
    intro hidle hcommit
    by_contra hproc
    rw [Bool.not_eq_false] at hproc
    rcases h.idle hproc with h | h
    · exact hidle h
    · exact hcommit h
  unfold AsyncQueue.readerStep at hstep
  cases hst : s.reader.stage with
  | idle | failed => rw [hst] at hstep; cases hstep
  | commit =>
    have hfile : s.HasFile := .of_stage hst ⟨nofun, nofun⟩
    rw [hst] at hstep
    obtain rfl := Option.some.inj hstep
    dsimp only
    split
    · rename_i hpr
      exact h.commit hpr hfile ⟨rfl, rfl, rfl, rfl, rfl⟩
    · rename_i hpr
      rw [Bool.not_eq_true] at hpr
      exact h.quiet hpr hfile (not_moving_of_stage hst rfl) ⟨rfl, rfl, rfl, rfl, rfl⟩
  | transientSerial | eqSerial | gtSameSerial again | gtOffset again | output | append =>
    have hmoving : ¬ s.Moving := not_moving_of_stage hst rfl
    refine h.quiet (hproc (hst ▸ nofun) (hst ▸ nofun)) (.of_stage hst ⟨nofun, nofun⟩) hmoving ?_
    rw [hst] at hstep
    obtain rfl := Option.some.inj hstep
    exact ⟨rfl, rfl, rfl, rfl, rfl⟩
  | transientOffset | eqOffset =>
    have hmoving : ¬ s.Moving := not_moving_of_stage hst rfl
    refine h.quiet (hproc (hst ▸ nofun) (hst ▸ nofun)) (.of_stage hst ⟨nofun, nofun⟩) hmoving ?_
    rw [hst] at hstep
    obtain rfl := Option.some.inj hstep
    split
    · exact ⟨rfl, rfl, rfl, rfl, delivered_giveBack nofun⟩
    · exact ⟨rfl, rfl, rfl, rfl, rfl⟩
  | gtSerial again | gtNotZero again =>
    have hmoving : ¬ s.Moving := not_moving_of_stage hst rfl
    refine h.quiet (hproc (hst ▸ nofun) (hst ▸ nofun)) (.of_stage hst ⟨nofun, nofun⟩) hmoving ?_
    rw [hst] at hstep
    obtain rfl := Option.some.inj hstep
    split
    · exact overflowSeen_same again
    · exact ⟨rfl, rfl, rfl, rfl, rfl⟩
  | front => exact h.front hs hst (by unfold AsyncQueue.readerStep; exact hstep)
  | unlink =>
    rw [hst] at hstep
    obtain rfl := Option.some.inj hstep
    exact h.moves (hproc (hst ▸ nofun) (hst ▸ nofun)) (fun hfile => absurd rfl hfile.1) ⟨rfl, rfl⟩ (fun hm => absurd rfl hm)
  | openNext =>
    rw [hst] at hstep
    dsimp only at hstep
    have hfalse := hproc (hst ▸ nofun) (hst ▸ nofun)
    split at hstep
    · rename_i hopen
      obtain rfl := Option.some.inj hstep
      exact h.moves hfalse (fun _ => (Bool.and_eq_true_iff.mp hopen).2) ⟨rfl, rfl⟩ (fun hm => absurd rfl hm)
    · obtain rfl := Option.some.inj hstep
      refine h.moves hfalse (fun hfile => absurd rfl hfile.2) ⟨rfl, ?_⟩ (fun hm => absurd rfl hm)
      exact delivered_giveBack nofun
  | shiftOffset =>
    have hfile : s.HasFile := .of_stage hst ⟨nofun, nofun⟩
    have hfalse := hproc (hst ▸ nofun) (hst ▸ nofun)
    rw [hst] at hstep
    obtain rfl := Option.some.inj hstep
    exact h.moves hfalse (fun _ => h.opens hfile) ⟨rfl, rfl⟩ (fun hm => absurd rfl hm)
  | shiftSerial =>
    have hfile : s.HasFile := .of_stage hst ⟨nofun, nofun⟩
    have hfalse := hproc (hst ▸ nofun) (hst ▸ nofun)
    rw [hst] at hstep
    obtain rfl := Option.some.inj hstep
    exact h.moves hfalse (fun _ => h.opens hfile) ⟨rfl, rfl⟩ (fun _ => hr'.1 hfalse)

theorem Commits.callRead (h : Commits s committed) (hstep : s.callRead = some s') :
    Commits s' (s.committedAfter s' committed) := by
  unfold AsyncQueue.callRead at hstep
  cases hst : s.reader.stage with
  | idle =>
    rw [hst] at hstep
    obtain rfl := Option.some.inj hstep
    have hsame : s.committedAfter { s with reader := { s.reader with buff := [], stage := .commit } } committed = committed := by
      unfold committedAfter
      rw [Bool.and_not_self]
      rfl
    rw [hsame]
    refine ⟨fun _ => h.opens (.of_stage hst ⟨nofun, nofun⟩), fun _ => .inr rfl, fun hproc => ?_, h.held⟩
    exact ⟨(h.rest hproc).1, fun _ => (h.rest hproc).2 (not_moving_of_stage hst rfl)⟩
  | failed =>
    rw [hst] at hstep
    obtain rfl := Option.some.inj hstep
    have hproc : s.reader.processing = false := by
      by_contra hproc
      rw [Bool.not_eq_false] at hproc
      rcases h.idle hproc with h | h <;> rw [hst] at h <;> cases h
    refine h.moves hproc (fun hfile => absurd hst hfile.2) ⟨rfl, delivered_giveBack nofun⟩ (fun hm => absurd ?_ hm)
    unfold Moving
    dsimp only
    rw [hst]
    rfl
  | commit | transientSerial | transientOffset | eqSerial | eqOffset | gtSerial again | gtSameSerial again | gtOffset again
  | gtNotZero again | output | append | front | unlink | openNext | shiftOffset | shiftSerial =>
    rw [hst] at hstep
    cases hstep

theorem Commits.callCommit (h : Commits s committed) (hstep : s.callCommit = some s') :
    Commits s' (s.committedAfter s' committed) := by
  unfold AsyncQueue.callCommit at hstep
  split at hstep
  · rename_i hst
    have hfile : s.HasFile := .of_stage hst ⟨nofun, nofun⟩
    obtain rfl := Option.some.inj hstep
    split
    · rename_i hproc
      exact h.commit hproc hfile ⟨rfl, rfl, rfl, rfl, rfl⟩
    · rename_i hproc
      rw [Bool.not_eq_true] at hproc
      exact h.quiet hproc hfile (not_moving_of_stage hst rfl) ⟨rfl, rfl, rfl, rfl, rfl⟩
  · cases hstep

theorem Commits.extends (h : Commits s committed) (hs : QueueInv s) (he : Extends s s') :
    Commits s' (s.committedAfter s' committed) := by
  obtain ⟨hreader, hrpos, hreturned, -⟩ := he.reader
  obtain ⟨more, hwritten, -⟩ := he.grows
  have hdelivered : s'.delivered = s.delivered := by
    unfold AsyncQueue.delivered
    rw [hreturned]
  have hsame : s.committedAfter s' committed = committed := by
    unfold committedAfter
    rw [hreader, Bool.and_not_self]
    rfl
  rw [hsame]
  refine ⟨fun hfile => ?_, fun hproc => ?_, fun hproc => ?_, fun hproc => ?_⟩
  · unfold HasFile at hfile
    rw [hreader] at hfile ⊢
    exact he.opens _ (h.opens hfile)
  · rw [hreader] at hproc ⊢
    exact h.idle hproc
  · unfold Moving
    rw [hreader] at hproc ⊢
    rw [hdelivered, hrpos]
    exact h.rest hproc
  · rw [hreader] at hproc ⊢
    obtain ⟨bytes, ⟨h1, h2, h3⟩, hpos, hat, hlen⟩ := h.held hproc
    -- the record ends at the reader's place, which is not behind the writer's
    have hbefore : ∀ x, x < s.rpos.offset.toNat + 4 + bytes.length →
        (⟨s.rpos.serial.toNat, x⟩ : Place).Before s.writerPlace := by
      intro x hx
      obtain ⟨passed, ahead, -, -, hp⟩ := hs.path
      have hfile : s.HasFile := by
        unfold HasFile
        rcases h.idle hproc with hst | hst <;> rw [hst] <;> exact ⟨nofun, nofun⟩
      rw [hfile.place, hpos] at hp
      have hend : (⟨s.rpos.serial.toNat, x⟩ : Place).Before ⟨s.rpos.serial.toNat, s.rpos.offset.toNat + 4 + bytes.length⟩ :=
        .inr ⟨rfl, hx⟩
      exact Place.Before.trans_le hend hp.le
    rw [hrpos, hdelivered, hwritten]
    refine ⟨bytes, ⟨?_, ?_, h3⟩, hpos, ?_, hlen⟩
    · exact (readNat_congr (fun x _ hx => he.mem _ x (hbefore x (Nat.lt_of_lt_of_le hx (Nat.le_add_right _ _))))).trans h1
    · exact (readBytes_congr (fun x _ hx => he.mem _ x (hbefore x hx))).trans h2
    · obtain ⟨hlt, hget⟩ := List.getElem?_eq_some_iff.mp hat
      rw [List.getElem?_append_left hlt]
      exact hat

end Commits

section Stops

variable {s : AsyncQueue} {committed : Nat}

theorem HasFile.of_not_moving (h : ¬ s.Moving) : s.HasFile := by
  unfold Moving at h
  constructor
  · intro hst
    rw [hst] at h
    exact h rfl
  · intro hst
    rw [hst] at h
    exact h rfl

theorem Commits.serial (h : Commits s committed) (hm : ¬ s.Moving) : s.rpos.serial.toNat = s.reader.pos.serial.toNat := by
  cases hproc : s.reader.processing with
  | false => rw [(h.rest hproc).2 hm]
  | true =>
    obtain ⟨bytes, -, hpos, -⟩ := h.held hproc
    exact (congrArg Place.serial hpos).symm

theorem Commits.path (h : Commits s committed) (hs : QueueInv s) (hm : ¬ s.Moving) :
    Path s.files s.rpos.place (s.written.drop committed) s.writerPlace := by
  obtain ⟨passed, ahead, hw, hd, hp⟩ := hs.path
  have hfile : s.HasFile := .of_not_moving hm
  have hlen : s.delivered.length = passed.length := by rw [hd, List.length_map]
  have hdrop : s.written.drop passed.length = ahead := by rw [hw, List.drop_left]
  rw [hfile.place] at hp
  cases hproc : s.reader.processing with
  | false =>
    obtain ⟨hcommitted, hpos⟩ := h.rest hproc
    rw [hcommitted, hlen, hdrop, ← hpos hm]
    exact hp
  | true =>
    obtain ⟨bytes, hrec, hpos, hat, hnext⟩ := h.held hproc
    obtain ⟨hlt, hget⟩ := List.getElem?_eq_some_iff.mp hat
    rw [List.drop_eq_getElem_cons hlt, hget, ← hnext, hlen, hdrop]
    rw [hpos] at hp
    exact .record hrec hp

theorem QueueInv.withoutReader (hs : QueueInv s) (h : Commits s committed) (hm : ¬ s.Moving) :
    QueueInv (s.withoutReader committed) :=
  ⟨⟨[], s.written.drop committed, rfl, rfl, h.path hs hm⟩, hs.writer, fun _ => rfl,
    fun _ hn => absurd hn List.not_mem_nil, List.not_mem_nil⟩

theorem Commits.withoutReader (h : Commits s committed) (hm : ¬ s.Moving) : Commits (s.withoutReader committed) 0 := by
  refine ⟨fun _ => ?_, nofun, fun _ => ⟨rfl, fun _ => rfl⟩, nofun⟩
  change (s.files s.rpos.serial.toNat).openForReader = true
  rw [h.serial hm]
  exact h.opens (.of_not_moving hm)

theorem withoutWriter_place (hshift : ¬ s.InShift) : s.withoutWriter.writerPlace = s.writerPlace := by
  have hplace : s.writerPlace = s.wpos.place := by
    refine writerPlace_of_stage rfl (fun buf hst => hshift ?_)
    unfold InShift
    rw [hst]
    rfl
  exact hplace.symm

theorem extends_withoutWriter (hshift : ¬ s.InShift) : Extends s s.withoutWriter := by
  refine ⟨⟨rfl, rfl, rfl, rfl⟩, fun _ _ _ => rfl, fun _ hn => hn, ⟨[], (List.append_nil _).symm, fun p es hp => ?_⟩,
    UInt32.le_refl _⟩
  rw [List.append_nil, withoutWriter_place hshift]
  exact hp

theorem extends_reopenWriter (hfiles : WriterFiles s) (hidle : s.writer.stage = .idle) : Extends s s.reopenWriter := by
  have hplace : s.writerPlace = s.wpos.place := writerPlace_of_stage hidle (fun _ => nofun)
  have hplace' : s.reopenWriter.writerPlace = s.writerPlace := rfl
  have hroom := hfiles.room
  have hwhole := hfiles.whole
  rw [hplace] at hwhole
  refine ⟨⟨rfl, rfl, rfl, rfl⟩, fun n x hx => ?_, fun n hn => ?_, ⟨[], (List.append_nil _).symm, fun p es hp => ?_⟩,
    UInt32.le_refl _⟩
  · unfold reopenWriter
    dsimp only
    by_cases hn : n = s.wpos.serial.toNat
    · rw [hplace] at hx
      have hlt : x < s.wpos.offset.toNat := by
        rcases hx with hx | ⟨-, hx⟩
        · exact absurd hn (Nat.ne_of_lt hx)
        · exact hx
      have hmax : x < maxAsyncFileSize := by omega
      rw [hn, Function.update_self]
      exact if_pos ⟨hwhole.1, by rw [show (s.files s.wpos.serial.toNat).size = _ from hwhole.2]; exact hmax, hmax⟩
    · rw [Function.update_of_ne hn]
  · unfold reopenWriter
    dsimp only
    by_cases he : n = s.wpos.serial.toNat
    · rw [he, Function.update_self]
      rfl
    · rw [Function.update_of_ne he]
      exact hn
  · rw [List.append_nil, hplace']
    exact hp

theorem WriterFiles.reopenWriter (hfiles : WriterFiles s) (hidle : s.writer.stage = .idle) : WriterFiles s.reopenWriter := by
  have hplace : s.reopenWriter.writerPlace = s.wpos.place := writerPlace_of_stage hidle (fun _ => nofun)
  refine ⟨hfiles.room, ?_, fun buf hst => ?_⟩
  · rw [hplace]
    unfold AsyncQueue.reopenWriter
    dsimp only [CAsyncFilePos.place]
    rw [Function.update_self]
    exact ⟨rfl, rfl⟩
  · change s.writer.stage = _ at hst
    rw [hidle] at hst
    cases hst

theorem QueueInv.deliversAll : ∀ (n : Nat) {s : AsyncQueue}, QueueInv s → s.writer.stage = .idle → s.reader.stage = .idle →
    s.written.length ≤ s.delivered.length + n → ∃ as t, (∀ a ∈ as, a = QueueAct.read ∨ a = .reader true) ∧
      queueMachine.run s as = some t ∧ t.delivered = s.written.map QueueRecord.bytes
  | n, s, hs, hidle, hrest, hn => by
    by_cases hmore : s.delivered.length < s.written.length
    · obtain ⟨k, t, hrun, ht, htrest, hwriter, hwritten, hdelivered⟩ := hs.delivers hidle hrest hmore
      match n with
      | 0 => omega
      | n + 1 =>
        obtain ⟨as, u, has, hu, hall⟩ := deliversAll n ht (by rw [hwriter, hidle]) htrest (by rw [hwritten, hdelivered]; omega)
        refine ⟨(.read :: List.replicate k (.reader true)) ++ as, u, fun a ha => ?_, ?_, by rw [hall, hwritten]⟩
        · rcases List.mem_append.mp ha with ha | ha
          · rcases List.mem_cons.mp ha with rfl | ha
            · exact .inl rfl
            · exact .inr (List.eq_of_mem_replicate ha)
          · exact has a ha
        · rw [queueMachine.run_append _ hrun]
          exact hu
    · refine ⟨[], s, fun a ha => absurd ha List.not_mem_nil, rfl, ?_⟩
      refine hs.queueOk.inOrder.eq_of_length_le ?_
      rw [List.length_map]
      exact Nat.not_lt.mp hmore

end Stops

end AsyncQueue

namespace CrashQueue

open AsyncQueue

variable {c c' : CrashQueue}

/-- **The invariant**: that of the queue, what is committed, and which files there are. -/
structure CrashInv (c : CrashQueue) : Prop where
  queue : QueueInv c.queue
  commits : Commits c.queue c.committed
  files : WriterFiles c.queue
  readerDown : c.readerUp = false → c.queue.reader.stage = .idle
  writerDown : c.writerUp = false → c.queue.writer.stage = .idle

theorem CrashInv.opened {s : AsyncQueue} (h : s.Opened) : CrashInv { queue := s } := by
  have hs := QueueInv.opened h
  obtain ⟨files, p, hroom, rfl⟩ := h
  have hfile : Function.update files p.serial.toNat (files p.serial.toNat).openForWriter p.serial.toNat =
      (files p.serial.toNat).openForWriter := Function.update_self _ _ _
  refine ⟨hs, ⟨fun _ => ?_, nofun, fun _ => ⟨rfl, fun _ => rfl⟩, nofun⟩, ⟨hroom, ?_, nofun⟩, nofun, nofun⟩
  · dsimp only
    rw [hfile]
    rfl
  · refine show AsyncFile.Whole (Function.update files p.serial.toNat (files p.serial.toNat).openForWriter p.serial.toNat) from ?_
    rw [hfile]
    exact ⟨rfl, rfl⟩

theorem CrashInv.ofReader (h : CrashInv c) {s : AsyncQueue} (hs : QueueInv s)
    (hcommits : Commits s (c.queue.committedAfter s c.committed)) (hfiles : WriterFiles s)
    (hup : c.readerUp = true) (hwriter : s.writer = c.queue.writer) :
    CrashInv { c with queue := s, committed := c.queue.committedAfter s c.committed } :=
  ⟨hs, hcommits, hfiles, fun hdown => Bool.noConfusion (hup.symm.trans hdown), fun hdown => hwriter ▸ h.writerDown hdown⟩

theorem CrashInv.ofWriter (h : CrashInv c) {s : AsyncQueue} (he : Extends c.queue s ∧ s.WriterOk) (hfiles : WriterFiles s)
    (hup : c.writerUp = true) : CrashInv { c with queue := s, committed := c.queue.committedAfter s c.committed } :=
  ⟨h.queue.extends he.1 he.2, h.commits.extends h.queue he.1, hfiles, fun hdown => he.1.reader.1 ▸ h.readerDown hdown,
    fun hdown => Bool.noConfusion (hup.symm.trans hdown)⟩

theorem CrashInv.run (h : CrashInv c) {a : QueueAct} (hok : c.queue.StepOk a) (hstep : c.step (.run a) = some c') :
    CrashInv c' := by
  unfold CrashQueue.step at hstep
  dsimp only at hstep
  split at hstep
  · rename_i hup
    obtain ⟨s, hs, rfl⟩ := Option.map_eq_some_iff.mp hstep
    cases a with
    | write buf => exact h.ofWriter (h.queue.callWriteExtends hs) (h.files.callWrite hs) hup
    | writer opens =>
      have hsucc : ∀ buf, c.queue.writer.stage = .openNext buf → c.queue.wpos.serial.toNat + 1 < 2 ^ 32 := by
        intro buf hst
        unfold StepOk at hok
        rw [hst] at hok
        exact hok
      exact h.ofWriter (h.queue.writerExtends hsucc hs) (h.files.writerStep h.queue hsucc hs) hup
    | read =>
      obtain ⟨hfiles, hwpos, hwriter⟩ := callRead_frame hs
      exact h.ofReader (h.queue.callRead hs) (h.commits.callRead hs) (h.files.frame hfiles hwpos hwriter) hup hwriter
    | reader opens =>
      exact h.ofReader (h.queue.readerStep hok hs) (h.commits.readerStep h.queue hok hs) (h.files.readerStep h.queue hs) hup
        (readerStep_frame hs).2.1
    | commit =>
      obtain ⟨hfiles, hwpos, hwriter⟩ := callCommit_frame hs
      exact h.ofReader (h.queue.callCommit hs) (h.commits.callCommit hs) (h.files.frame hfiles hwpos hwriter) hup hwriter
  · cases hstep

theorem CrashInv.step (h : CrashInv c) {a : CrashAct} (hok : c.Safe a) (hstep : c.step a = some c') : CrashInv c' := by
  cases a with
  | run a => exact h.run hok hstep
  | stopReader =>
    unfold CrashQueue.step at hstep
    dsimp only at hstep
    split at hstep
    · obtain rfl := Option.some.inj hstep
      refine ⟨h.queue.withoutReader h.commits hok, h.commits.withoutReader hok, ?_, fun _ => rfl, h.writerDown⟩
      exact h.files.same rfl rfl rfl (fun _ hst => hst)
    · cases hstep
  | openReader =>
    unfold CrashQueue.step at hstep
    dsimp only at hstep
    split at hstep
    · obtain rfl := Option.some.inj hstep
      exact ⟨h.queue, h.commits, h.files, nofun, h.writerDown⟩
    · cases hstep
  | stopWriter =>
    unfold CrashQueue.step at hstep
    dsimp only at hstep
    split at hstep
    · obtain rfl := Option.some.inj hstep
      have hwriter := extends_withoutWriter (s := c.queue) hok
      have hfiles : WriterFiles c.queue.withoutWriter := h.files.same rfl rfl (withoutWriter_place hok) nofun
      have hcommits := h.commits.extends h.queue hwriter
      have hsame : c.queue.committedAfter c.queue.withoutWriter c.committed = c.committed := by
        unfold committedAfter AsyncQueue.withoutWriter
        rw [Bool.and_not_self]
        rfl
      rw [hsame] at hcommits
      exact ⟨h.queue.extends hwriter ⟨rfl, h.files.room⟩, hcommits, hfiles, h.readerDown, fun _ => rfl⟩
    · cases hstep
  | openWriter =>
    unfold CrashQueue.step at hstep
    dsimp only at hstep
    split at hstep
    · cases hstep
    · rename_i hup
      rw [Bool.not_eq_true] at hup
      obtain rfl := Option.some.inj hstep
      have hidle := h.writerDown hup
      have hwriter := extends_reopenWriter h.files hidle
      have hcommits := h.commits.extends h.queue hwriter
      have hsame : c.queue.committedAfter c.queue.reopenWriter c.committed = c.committed := by
        unfold committedAfter AsyncQueue.reopenWriter
        rw [Bool.and_not_self]
        rfl
      rw [hsame] at hcommits
      have hok : c.queue.reopenWriter.WriterOk := by
        have hw := h.queue.writer
        unfold WriterOk AsyncQueue.reopenWriter at *
        rw [hidle] at hw ⊢
        exact hw
      exact ⟨h.queue.extends hwriter hok, hcommits, h.files.reopenWriter hidle, h.readerDown, nofun⟩

theorem crashInv_reachable (h : machine.ReachableMeeting Safe c) : CrashInv c := by
  refine machine.reachableMeeting_induct ?_ (fun _ _ _ hc hok hst => hc.step hok hst) h
  rintro _ ⟨s, hs, rfl⟩
  exact CrashInv.opened hs

theorem run_reads : ∀ {as : List QueueAct} {c : CrashQueue} {t : AsyncQueue}, c.readerUp = true →
    (∀ a ∈ as, a = .read ∨ a = .reader true) → queueMachine.run c.queue as = some t →
    ∃ c', machine.run c (as.map .run) = some c' ∧ c'.queue = t
  | [], c, t, _, _, h => ⟨c, rfl, Option.some.inj h⟩
  | a :: as, c, t, hup, has, h => by
    obtain ⟨s, hs, h⟩ := queueMachine.run_cons h
    have ha : a.ofReader = true := by
      rcases has a List.mem_cons_self with rfl | rfl <;> rfl
    have hstep : machine.step c (.run a) =
        some { c with queue := s, committed := c.queue.committedAfter s c.committed } := by
      change c.step (.run a) = _
      unfold CrashQueue.step
      have hs : c.queue.step a = some s := hs
      have hup' : c.up a = true := by
        unfold up
        rw [ha, hup]
        rfl
      dsimp only
      rw [hup', hs]
      rfl
    obtain ⟨c', hc', hqueue⟩ := run_reads (c := { c with queue := s, committed := c.queue.committedAfter s c.committed })
      hup (fun b hb => has b (List.mem_cons_of_mem _ hb)) h
    refine ⟨c', ?_, hqueue⟩
    rw [List.map_cons, Machine.run, hstep]
    exact hc'

theorem CrashInv.readerOpens (h : CrashInv c) (hdown : c.readerUp = false) :
    (c.queue.files c.queue.rpos.serial.toNat).openForReader = true := by
  have hm := not_moving_of_stage (h.readerDown hdown) rfl
  rw [h.commits.serial hm]
  exact h.commits.opens (.of_not_moving hm)

theorem CrashInv.recovers (h : CrashInv c) : c.Recovers := by
  refine ⟨h.readerOpens, fun hdown => ?_, h.queue.queueOk, fun hidle hrest => ?_⟩
  · have hwhole := h.files.whole
    rw [writerPlace_of_stage (h.writerDown hdown) (fun _ => nofun)] at hwhole
    exact hwhole.1
  · obtain ⟨as, t, has, hrun, hall⟩ := h.queue.deliversAll c.queue.written.length hidle hrest (Nat.le_add_left _ _)
    have hmap : ∀ a ∈ as.map CrashAct.run, a = .openReader ∨ a = .run .read ∨ a = .run (.reader true) := by
      intro a ha
      obtain ⟨b, hb, rfl⟩ := List.mem_map.mp ha
      rcases has b hb with rfl | rfl
      · exact .inr (.inl rfl)
      · exact .inr (.inr rfl)
    cases hup : c.readerUp with
    | true =>
      obtain ⟨c', hc', rfl⟩ := run_reads hup has hrun
      exact ⟨as.map .run, c', hmap, hc', hall⟩
    | false =>
      obtain ⟨c', hc', rfl⟩ := run_reads (c := { c with readerUp := true }) rfl has hrun
      refine ⟨.openReader :: as.map .run, c', fun a ha => ?_, ?_, hall⟩
      · rcases List.mem_cons.mp ha with rfl | ha
        · exact .inl rfl
        · exact hmap a ha
      · have hopen : machine.step c .openReader = some { c with readerUp := true } :=
          if_pos (by rw [hup, h.readerOpens hup]; rfl)
        rw [Machine.run, hopen]
        exact hc'

/-- **The hot-backup queue loses no record when a process stops**, in every run whose steps meet the condition. -/
theorem machine_recovers (h : machine.ReachableMeeting Safe c) : c.Recovers := (crashInv_reachable h).recovers

def runs (as : List QueueAct) : List CrashAct := as.map .run

def readTwice : List CrashAct :=
  runs writeThenRead ++ [.stopReader, .stopWriter, .openWriter, .openReader] ++
    runs (.read :: List.replicate 10 (.reader true))

theorem machine_recovers_sevens : ∃ c, machine.run { queue := almostFull 0 } readTwice = some c ∧
    c.queue.delivered = [[7]] ∧ c.Recovers := by
  obtain ⟨c, hc, hdelivered⟩ : ∃ c, machine.run { queue := almostFull 0 } readTwice = some c ∧
      c.queue.delivered = [[7]] := ⟨_, rfl, by decide +kernel⟩
  have hmeets : machine.RunMeets Safe { queue := almostFull 0 } readTwice := by decide +kernel
  exact ⟨c, hc, hdelivered, machine_recovers ⟨_, _, ⟨_, almostFull_opened 0, rfl⟩, hmeets, hc⟩⟩

def stopAfterUnlink : List CrashAct :=
  runs (.write sevens :: List.replicate 7 (.writer true) ++ .read :: List.replicate 7 (.reader true)) ++ [.stopReader]

/-- The writer stops between the two stores of `Shift`, starts again and writes its record. -/
def stopInShift : List CrashAct :=
  runs (.write sevens :: List.replicate 3 (.writer true)) ++ [.stopWriter, .openWriter] ++
    runs (.write sevens :: List.replicate 3 (.writer true) ++ .read :: List.replicate 13 (.reader true))

/-- **A switch that is not finished is not recovered**: the reader's position names a file that is gone, and its `Open` fails;
the writer goes on at the beginning of its old file, and the reader reports an overflow. -/
theorem machine_stopInSwitch :
    (∃ c, machine.Reachable c ∧ c.readerUp = false ∧ c.step .openReader = none ∧ ¬ c.Recovers) ∧
    ∃ c, machine.Reachable c ∧ c.queue.returned = [.readerOverflow] ∧ c.queue.written = [⟨⟨0, 0⟩, [7]⟩] ∧
      ¬ c.Recovers := by
  refine ⟨?_, ?_⟩
  · obtain ⟨c, hc, hdown, hopen⟩ : ∃ c, machine.run { queue := almostFull 0 } stopAfterUnlink = some c ∧
        c.readerUp = false ∧ (c.queue.files c.queue.rpos.serial.toNat).openForReader = false :=
      ⟨_, rfl, rfl, by decide +kernel⟩
    refine ⟨c, ⟨_, _, ⟨_, almostFull_opened 0, rfl⟩, hc⟩, hdown, ?_, fun h => ?_⟩
    · exact if_neg (by rw [hopen, Bool.and_false]; exact Bool.false_ne_true)
    · exact Bool.noConfusion (hopen.symm.trans (h.readerOpens hdown))
  · obtain ⟨c, hc, hr, hw⟩ : ∃ c, machine.run { queue := almostFull 0 } stopInShift = some c ∧
        c.queue.returned = [.readerOverflow] ∧ c.queue.written = [⟨⟨0, 0⟩, [7]⟩] :=
      ⟨_, rfl, by decide +kernel, by decide +kernel⟩
    refine ⟨c, ⟨_, _, ⟨_, almostFull_opened 0, rfl⟩, hc⟩, hr, hw, fun h => ?_⟩
    exact h.queueOk.noOverflow (by rw [hr]; exact List.mem_singleton_self _)

end CrashQueue

end Dtc
