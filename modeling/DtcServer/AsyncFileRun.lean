import DtcServer.AsyncFileRead
/-!
# AsyncFileRun — every record is delivered once and in order

The runs of the queue whose steps meet the condition, what holds in all their states, and the race that the condition
leaves out.
-/
namespace Dtc

open Memory

namespace AsyncQueue

/-- The condition of a step: the writer does not run out of file numbers, and when the reader asks for data (`EQ`) in a file
that it has just moved to, the writer has made the second store of its `Shift`. -/
def StepOk (s : AsyncQueue) : QueueAct → Prop
  | .writer _ =>
    match s.writer.stage with
    | .openNext _ => s.wpos.serial.toNat + 1 < 2 ^ 32
    | _ => True
  | .reader _ => s.reader.stage = .eqSerial → s.rpos.serial ≤ s.wpos.serial
  | .write _ | .read | .commit => True

instance (s : AsyncQueue) : ∀ a, Decidable (s.StepOk a)
  | .writer _ =>
    match h : s.writer.stage with
    | .openNext _ => decidable_of_iff (s.wpos.serial.toNat + 1 < 2 ^ 32) (by unfold StepOk; rw [h])
    | .idle | .input _ | .body _ | .advance _ | .shiftOffset _ | .shiftSerial _ | .failed =>
      isTrue (by unfold StepOk; rw [h]; trivial)
  | .reader _ => inferInstanceAs (Decidable (s.reader.stage = .eqSerial → s.rpos.serial ≤ s.wpos.serial))
  | .write _ | .read | .commit => isTrue trivial

theorem QueueInv.step {s s' : AsyncQueue} {a : QueueAct} (hs : QueueInv s) (hok : s.StepOk a) (h : s.step a = some s') :
    QueueInv s' := by
  cases a with
  | write buf => exact hs.callWrite h
  | writer opens =>
    refine hs.writerStep (fun buf hst => ?_) h
    unfold StepOk at hok
    rw [hst] at hok
    exact hok
  | read => exact hs.callRead h
  | reader opens => exact hs.readerStep hok h
  | commit => exact hs.callCommit h

theorem QueueInv.opened {s : AsyncQueue} (h : s.Opened) : QueueInv s := by
  obtain ⟨files, p, hroom, rfl⟩ := h
  exact ⟨⟨[], [], rfl, rfl, .done _⟩, ⟨rfl, hroom⟩, fun _ => rfl, fun n hn => absurd hn List.not_mem_nil,
    List.not_mem_nil⟩

theorem queueInv_reachable {s : AsyncQueue} (h : queueMachine.ReachableMeeting StepOk s) : QueueInv s :=
  queueMachine.reachableMeeting_induct (fun _ h0 => QueueInv.opened h0) (fun _ _ _ hs hok hst => hs.step hok hst) h

section Progress

def Reads (s t : AsyncQueue) : Prop := ∃ k, queueMachine.run s (List.replicate k (.reader true)) = some t

theorem Reads.refl (s : AsyncQueue) : Reads s s := ⟨0, rfl⟩

theorem Reads.step {s t : AsyncQueue} (s' : AsyncQueue) (h : s.readerStep true = some s') (ht : Reads s' t) : Reads s t := by
  obtain ⟨k, hk⟩ := ht
  refine ⟨k + 1, ?_⟩
  rw [List.replicate_succ, Machine.run]
  change (s.readerStep true).bind _ = _
  rw [h]
  exact hk

theorem reads_output {s : AsyncQueue} (hb : s.rpos.place.Before s.wpos.place) :
    Reads (s.toStage .transientSerial) (s.toStage .output) := by
  have hgt : Reads (s.toStage (.gtSerial false)) (s.toStage .output) := by
    have hlt : ¬ s.wpos.serial < s.rpos.serial := by
      rw [UInt32.lt_iff_toNat_lt]
      rcases hb with h | ⟨h, -⟩
      · exact Nat.not_lt_of_gt h
      · exact Nat.not_lt_of_le (Nat.le_of_eq h)
    refine Reads.step (s.toStage (.gtSameSerial false)) (congrArg some (if_neg hlt)) ?_
    by_cases he : s.rpos.serial = s.wpos.serial
    · refine Reads.step (s.toStage (.gtOffset false)) (congrArg (fun x => some (s.toStage x)) (if_pos he)) ?_
      have hoff : ¬ s.wpos.offset < s.rpos.offset := by
        rw [UInt32.lt_iff_toNat_lt]
        rcases hb with h | ⟨-, h⟩
        · exact absurd (congrArg UInt32.toNat he) (Nat.ne_of_lt h)
        · exact Nat.not_lt_of_gt h
      exact Reads.step _ (congrArg (fun x => some (s.toStage x)) (if_neg hoff)) (.refl _)
    · exact Reads.step _ (congrArg (fun x => some (s.toStage x)) (if_neg he)) (.refl _)
  have heq : Reads (s.toStage .eqSerial) (s.toStage .output) := by
    by_cases he : s.rpos.serial = s.wpos.serial
    · refine Reads.step (s.toStage .eqOffset) (congrArg (fun x => some (s.toStage x)) (if_pos he)) ?_
      have hoff : s.rpos.offset ≠ s.wpos.offset := by
        intro hoff
        rcases hb with h | ⟨-, h⟩
        · exact absurd (congrArg UInt32.toNat he) (Nat.ne_of_lt h)
        · exact absurd (congrArg UInt32.toNat hoff) (Nat.ne_of_lt h)
      exact Reads.step _ (congrArg some (if_neg hoff)) hgt
    · exact Reads.step _ (congrArg (fun x => some (s.toStage x)) (if_neg he)) hgt
  by_cases htr : s.rpos.serial = s.wpos.serial ∧ 0 < s.rpos.offset
  · refine Reads.step (s.toStage .transientOffset) (congrArg (fun x => some (s.toStage x)) (if_pos htr)) ?_
    have hoff : s.wpos.offset ≠ 0 := by
      intro h0
      rcases hb with h | ⟨-, h⟩
      · exact absurd (congrArg UInt32.toNat htr.1) (Nat.ne_of_lt h)
      · change s.rpos.offset.toNat < s.wpos.offset.toNat at h
        rw [h0] at h
        exact absurd h (Nat.not_lt_zero _)
    exact Reads.step _ (congrArg some (if_neg hoff)) heq
  · exact Reads.step _ (congrArg (fun x => some (s.toStage x)) (if_neg htr)) heq

theorem Reads.trans {s t u : AsyncQueue} (h : Reads s t) (h' : Reads t u) : Reads s u := by
  obtain ⟨k, hk⟩ := h
  obtain ⟨j, hj⟩ := h'
  refine ⟨k + j, ?_⟩
  rw [List.replicate_add, queueMachine.run_append _ hk]
  exact hj

theorem QueueInv.before {s : AsyncQueue} (hs : QueueInv s) (hmore : s.delivered.length < s.written.length) :
    s.readerPlace.Before s.writerPlace := by
  obtain ⟨passed, ahead, hw, hd, hp⟩ := hs.path
  rcases hp.le with he | hb
  · rw [he] at hp
    rw [hw, hd, hp.eq_nil, List.append_nil, List.length_map] at hmore
    exact absurd hmore (Nat.lt_irrefl _)
  · exact hb

theorem QueueInv.readsOutput {s : AsyncQueue} (hs : QueueInv s) (hidle : s.writer.stage = .idle)
    (hst : s.reader.stage = .commit) (hb : s.readerPlace.Before s.writerPlace) :
    ∃ v, Reads s v ∧ QueueInv v ∧ v.reader.stage = .output ∧ v.readerPlace = s.readerPlace ∧ v.writer = s.writer ∧
      v.wpos = s.wpos ∧ v.written = s.written ∧ v.delivered = s.delivered := by
  have hfile : s.HasFile := .of_stage hst ⟨nofun, nofun⟩
  have hr := hs.reader
  unfold ReaderOk at hr
  rw [hst] at hr
  have hwplace : s.writerPlace = s.wpos.place := writerPlace_of_stage hidle (fun _ => nofun)
  -- the state with the position committed
  let u : AsyncQueue := { s with rpos := s.reader.pos, reader := { s.reader with processing := false } }
  have hcommit : s.readerStep true = some (u.toStage .transientSerial) := by
    unfold AsyncQueue.readerStep
    rw [hst]
    dsimp only
    split
    · rfl
    · rename_i hproc
      rw [Bool.not_eq_true] at hproc
      have hpos := hr.1 hproc
      unfold AsyncQueue.toStage
      dsimp only [u]
      rw [hpos, ← hproc]
  have hu : QueueInv (u.toStage .transientSerial) := hs.readerCommit hst hcommit
  have hplace : u.rpos.place.Before u.wpos.place := by
    rw [hfile.place, hwplace] at hb
    exact hb
  have hwplace' : (u.toStage .output).writerPlace = s.writerPlace := rfl
  refine ⟨u.toStage .output, Reads.step _ hcommit (reads_output hplace), ?_, rfl, ?_, rfl, rfl, rfl, rfl⟩
  · refine show QueueInv ((u.toStage .transientSerial).toStage .output) from
      hu.toStage ⟨nofun, nofun⟩ ⟨nofun, nofun⟩ ⟨⟨rfl, rfl, hr.2⟩, ?_⟩
    rw [hfile.place] at hb
    exact hb
  · rw [hfile.place]
    rfl

theorem QueueInv.readsRecord {v : AsyncQueue} (hv : QueueInv v) (hst : v.reader.stage = .output)
    (hend : ¬ EndAt v.files v.reader.pos.place) :
    ∃ t, Reads v t ∧ QueueInv t ∧ t.reader.stage = .idle ∧ t.writer = v.writer ∧ t.written = v.written ∧
      t.delivered.length = v.delivered.length + 1 := by
  have h1 : v.readerStep true = some (v.toStage .append) := by
    unfold AsyncQueue.readerStep
    rw [hst]
    exact congrArg (fun x => some (v.toStage x)) (if_neg hend)
  have hv1 := hv.readerOutput hst h1
  have hv2 := hv1.readerAppend rfl (show AsyncQueue.readerStep _ true = some _ from rfl)
  have hv3 := hv2.readerFront rfl (show AsyncQueue.readerStep _ true = some _ from rfl)
  refine ⟨_, Reads.step _ h1 (Reads.step _ rfl (Reads.step _ rfl (.refl _))), hv3, rfl, rfl, rfl, ?_⟩
  unfold AsyncQueue.delivered
  rw [List.filterMap_append, List.length_append]
  rfl

theorem QueueInv.readsOpen {v : AsyncQueue} (hv : QueueInv v) (hst : v.reader.stage = .openNext)
    (hopen : (v.files (v.rpos.serial.toNat + 1)).openForReader = true) :
    ∃ t, Reads v t ∧ QueueInv t ∧ t.reader.stage = .commit ∧ t.readerPlace = v.readerPlace ∧ t.writer = v.writer ∧
      t.wpos = v.wpos ∧ t.written = v.written ∧ t.delivered = v.delivered := by
  have hr := hv.reader
  unfold ReaderOk at hr
  rw [hst] at hr
  have hser : v.rpos.shift.serial.toNat = v.rpos.serial.toNat + 1 := serial_succ hr.2.2
  have h1 : v.readerStep true = some { v with reader := { v.reader with pos := v.rpos.shift, stage := .shiftOffset } } := by
    unfold AsyncQueue.readerStep
    rw [hst]
    dsimp only
    rw [hser, hopen]
    rfl
  have hv1 := hv.readerOpenNext hst h1
  have hv2 := hv1.readerShift (.inl rfl) (show AsyncQueue.readerStep _ true = some _ from rfl)
  have hv3 := hv2.readerShift (.inr rfl) (show AsyncQueue.readerStep _ true = some _ from rfl)
  refine ⟨_, Reads.step _ h1 (Reads.step _ rfl (Reads.step _ rfl (.refl _))), hv3, rfl, ?_, rfl, rfl, rfl, rfl⟩
  unfold readerPlace
  rw [hst]
  change (⟨v.rpos.shift.serial.toNat, 0⟩ : Place) = _
  rw [hser]

theorem QueueInv.readsNext {v : AsyncQueue} (hv : QueueInv v) (hst : v.reader.stage = .output)
    (hend : EndAt v.files v.reader.pos.place)
    (hopen : (v.files (v.reader.pos.serial.toNat + 1)).openForReader = true) :
    ∃ t, Reads v t ∧ QueueInv t ∧ t.reader.stage = .commit ∧ t.readerPlace.serial = v.readerPlace.serial + 1 ∧
      t.writer = v.writer ∧ t.wpos = v.wpos ∧ t.written = v.written ∧ t.delivered = v.delivered := by
  have hr := hv.reader
  unfold ReaderOk at hr
  rw [hst] at hr
  have hfile : v.HasFile := .of_stage hst ⟨nofun, nofun⟩
  have h1 : v.readerStep true = some (v.toStage .unlink) := by
    unfold AsyncQueue.readerStep
    rw [hst]
    exact congrArg (fun x => some (v.toStage x)) (if_pos hend)
  have hv1 := hv.readerOutput hst h1
  have hv2 := hv1.readerUnlink rfl (show AsyncQueue.readerStep _ true = some _ from rfl)
  have hser : v.rpos.serial.toNat = v.reader.pos.serial.toNat := by rw [hr.1.1]
  obtain ⟨t, ht, hinv, hcommit, hplace, hrest⟩ := hv2.readsOpen rfl (by
    change (Function.update v.files v.reader.pos.serial.toNat _ (v.rpos.serial.toNat + 1)).openForReader = true
    rw [hser, Function.update_of_ne (Nat.succ_ne_self _)]
    exact hopen)
  refine ⟨t, Reads.step _ h1 (Reads.step _ rfl ht), hinv, hcommit, ?_, hrest⟩
  rw [hplace, hfile.place]
  change v.rpos.serial.toNat + 1 = v.reader.pos.serial.toNat + 1
  rw [hser]

theorem QueueInv.readsPass {s : AsyncQueue} (hs : QueueInv s) (hidle : s.writer.stage = .idle)
    (hst : s.reader.stage = .commit) (hmore : s.delivered.length < s.written.length) :
    (∃ t, Reads s t ∧ QueueInv t ∧ t.reader.stage = .idle ∧ t.writer = s.writer ∧ t.written = s.written ∧
      t.delivered.length = s.delivered.length + 1) ∨
      ∃ t, Reads s t ∧ QueueInv t ∧ t.reader.stage = .commit ∧ t.readerPlace.serial = s.readerPlace.serial + 1 ∧
        t.writer = s.writer ∧ t.wpos = s.wpos ∧ t.written = s.written ∧ t.delivered = s.delivered := by
  have hb := hs.before hmore
  obtain ⟨v, hsv, hv, hvst, hplace, hwriter, hwpos, hwritten, hdelivered⟩ := hs.readsOutput hidle hst hb
  have hfile : v.HasFile := .of_stage hvst ⟨nofun, nofun⟩
  have hwplace : v.writerPlace = s.writerPlace := by
    unfold writerPlace
    rw [hwriter, hwpos]
  obtain ⟨passed, ahead, -, -, hp⟩ := hv.path
  rw [← hplace, ← hwplace] at hb
  have hfront := hp.cases_front hb
  rw [hfile.place] at hfront
  rcases hfront with ⟨hend, hopen, -⟩ | ⟨hend, -⟩
  · refine .inr ?_
    obtain ⟨t, hvt, ht, hcommit, hser, htwriter, htwpos, htwritten, htdelivered⟩ := hv.readsNext hvst hend hopen
    exact ⟨t, hsv.trans hvt, ht, hcommit, by rw [hser, hplace], htwriter.trans hwriter, htwpos.trans hwpos,
      htwritten.trans hwritten, htdelivered.trans hdelivered⟩
  · refine .inl ?_
    obtain ⟨t, hvt, ht, hrest, htwriter, htwritten, htdelivered⟩ := hv.readsRecord hvst hend
    exact ⟨t, hsv.trans hvt, ht, hrest, htwriter.trans hwriter, htwritten.trans hwritten, by rw [htdelivered, hdelivered]⟩

/-- **With the writer at rest, the reader delivers the next record** by itself, through as many files as there are in
between. -/
theorem reads_record : ∀ (n : Nat) {s : AsyncQueue}, QueueInv s → s.writer.stage = .idle → s.reader.stage = .commit →
    s.wpos.serial.toNat ≤ s.readerPlace.serial + n → s.delivered.length < s.written.length →
    ∃ t, Reads s t ∧ QueueInv t ∧ t.reader.stage = .idle ∧ t.writer = s.writer ∧ t.written = s.written ∧
      t.delivered.length = s.delivered.length + 1
  | n, s, hs, hidle, hst, hn, hmore => by
    rcases hs.readsPass hidle hst hmore with hdone | ⟨t, hst, ht, hcommit, hser, hwriter, hwpos, hwritten, hdelivered⟩
    · exact hdone
    · have hidle' : t.writer.stage = .idle := by rw [hwriter, hidle]
      have hwplace : t.writerPlace = t.wpos.place := writerPlace_of_stage hidle' (fun _ => nofun)
      have hmore' : t.delivered.length < t.written.length := by rw [hdelivered, hwritten]; exact hmore
      have hle : t.readerPlace.serial ≤ t.wpos.serial.toNat := by
        obtain ⟨passed, ahead, -, -, hp⟩ := ht.path
        rw [hwplace] at hp
        exact hp.serial_le
      match n with
      | 0 => rw [hwpos] at hle; omega
      | n + 1 =>
        obtain ⟨w, htw, hw, hrest, hw0, hw1, hw2⟩ := reads_record n ht hidle' hcommit (by rw [hwpos, hser]; omega) hmore'
        exact ⟨w, hst.trans htw, hw, hrest, hw0.trans hwriter, hw1.trans hwritten, by rw [hw2, hdelivered]⟩

theorem QueueInv.delivers {s : AsyncQueue} (hs : QueueInv s) (hidle : s.writer.stage = .idle)
    (hrest : s.reader.stage = .idle) (hmore : s.delivered.length < s.written.length) :
    ∃ (k : Nat) (t : AsyncQueue), queueMachine.run s (.read :: List.replicate k (.reader true)) = some t ∧ QueueInv t ∧
      t.reader.stage = .idle ∧ t.writer = s.writer ∧ t.written = s.written ∧
      t.delivered.length = s.delivered.length + 1 := by
  have hcall : s.callRead = some { s with reader := { s.reader with buff := [], stage := .commit } } := by
    unfold AsyncQueue.callRead
    rw [hrest]
  have hs' := hs.callRead hcall
  obtain ⟨t, ⟨k, hk⟩, ht, htrest, hwriter, hwritten, hdelivered⟩ := reads_record s.wpos.serial.toNat hs' hidle rfl (by
    change s.wpos.serial.toNat ≤ _ + s.wpos.serial.toNat
    omega) hmore
  refine ⟨k, t, ?_, ht, htrest, hwriter, hwritten, hdelivered⟩
  rw [Machine.run]
  change s.callRead.bind _ = _
  rw [hcall]
  exact hk

end Progress

/-- **The queue does its work**: what is delivered are the written records in their order, all of them when the reader is at
the writer's place; there was no overflow; a record that is being read is the next one, finished and before the writer's
place; the files removed have no undelivered record; and with both at rest the reader can deliver the next record. -/
structure QueueOk (s : AsyncQueue) : Prop where
  inOrder : s.delivered <+: s.written.map QueueRecord.bytes
  all : s.readerPlace = s.writerPlace → s.delivered = s.written.map QueueRecord.bytes
  noOverflow : ReadResult.readerOverflow ∉ s.returned
  finished : s.reader.stage = .append ∨ s.reader.stage = .front → ∃ bytes,
    s.written[s.delivered.length]? = some ⟨s.reader.pos.place, bytes⟩ ∧ RecordAt s.files s.reader.pos.place bytes ∧
      ∀ x, x < s.reader.pos.offset.toNat + 4 + bytes.length →
        (⟨s.reader.pos.serial.toNat, x⟩ : Place).Before s.writerPlace
  removed : ∀ n ∈ s.removed, ∀ (i : Nat) (e : QueueRecord), s.written[i]? = some e → e.place.serial = n →
    i < s.delivered.length
  delivers : s.writer.stage = .idle → s.reader.stage = .idle → s.delivered.length < s.written.length →
    ∃ (k : Nat) (t : AsyncQueue), queueMachine.run s (.read :: List.replicate k (.reader true)) = some t ∧
      t.written = s.written ∧ t.delivered.length = s.delivered.length + 1

theorem QueueInv.finished {s : AsyncQueue} (hs : QueueInv s) (hst : s.reader.stage = .append ∨ s.reader.stage = .front) :
    ∃ bytes, s.written[s.delivered.length]? = some ⟨s.reader.pos.place, bytes⟩ ∧
      RecordAt s.files s.reader.pos.place bytes ∧ ∀ x, x < s.reader.pos.offset.toNat + 4 + bytes.length →
        (⟨s.reader.pos.serial.toNat, x⟩ : Place).Before s.writerPlace := by
  have hr := hs.reader
  unfold ReaderOk at hr
  obtain ⟨passed, ahead, hw, hd, hp⟩ := hs.path
  have hfile : s.HasFile := by
    unfold HasFile
    rcases hst with hst | hst <;> rw [hst] <;> exact ⟨nofun, nofun⟩
  have hfront : ∃ bytes ahead', ahead = ⟨s.readerPlace, bytes⟩ :: ahead' ∧ RecordAt s.files s.readerPlace bytes ∧
      Path s.files ⟨s.readerPlace.serial, s.readerPlace.offset + 4 + bytes.length⟩ ahead' s.writerPlace := by
    rcases hst with hst | hst <;> rw [hst] at hr
    · rcases hp.cases_front hr.2.1 with ⟨hend, -⟩ | ⟨-, h⟩
      · exact absurd hend hr.2.2
      · exact h
    · rcases hp.cases_front hr.1 with ⟨hend, -⟩ | ⟨-, h⟩
      · have hlen : s.reader.buff.length = 0xFFFFFFFF := hr.2.1.symm.trans hend
        have hroom : s.readerPlace.offset + 4 + s.reader.buff.length + 4 < 10 * 2 ^ 20 := hr.2.2.2
        omega
      · exact h
  obtain ⟨bytes, ahead', rfl, hrec, t⟩ := hfront
  rw [hfile.place] at hw hrec t
  refine ⟨bytes, ?_, hrec, fun x hx => ?_⟩
  · rw [hw, hd, List.length_map, List.getElem?_append_right (Nat.le_refl _), Nat.sub_self]
    rfl
  · rcases t.le with he | h1 | ⟨h1, h2⟩
    · rw [← he]
      exact .inr ⟨rfl, hx⟩
    · exact .inl h1
    · exact .inr ⟨h1, Nat.lt_trans hx h2⟩

theorem QueueInv.queueOk {s : AsyncQueue} (hs : QueueInv s) : QueueOk s := by
  obtain ⟨passed, ahead, hw, hd, hp⟩ := hs.path
  refine ⟨?_, ?_, hs.noOverflow, hs.finished, ?_, ?_⟩
  · rw [hw, hd, List.map_append]
    exact List.prefix_append _ _
  · intro he
    rw [he] at hp
    rw [hw, hd, hp.eq_nil, List.append_nil]
  · intro n hn i e he hser
    by_contra hi
    rw [hd, List.length_map, Nat.not_lt] at hi
    rw [hw, List.getElem?_append_right hi] at he
    have hge := hp.serial_ge e (List.mem_of_getElem? he)
    have hlt := hs.removed n hn
    omega
  · intro hidle hrest hmore
    obtain ⟨k, t, hk, -, -, -, hwritten, hdelivered⟩ := hs.delivers hidle hrest hmore
    exact ⟨k, t, hk, hwritten, hdelivered⟩

/-- **The hot-backup queue delivers every record once and in order**, in every run whose steps meet the condition. -/
theorem queueMachine_delivers {s : AsyncQueue} (h : queueMachine.ReachableMeeting StepOk s) : QueueOk s :=
  (queueInv_reachable h).queueOk

def almostFull (serial : UInt32) : AsyncQueue :=
  let none : AsyncFile := { linked := false, size := 0, mem := fun _ => 0 }
  let p : CAsyncFilePos := ⟨serial, 10485752⟩
  { files := Function.update (fun _ => none) serial.toNat none.openForWriter
    rpos := p, wpos := p, writer := { pos := p }, reader := { pos := p } }

theorem almostFull_opened (serial : UInt32) : (almostFull serial).Opened :=
  ⟨fun _ => { linked := false, size := 0, mem := fun _ => 0 }, ⟨serial, 10485752⟩,
    show (10485752 : UInt32).toNat + 4 < maxAsyncFileSize by decide, rfl⟩

def sevens : Buffer := ⟨[7], by decide⟩

def writeThenRead : List QueueAct :=
  .write sevens :: List.replicate 7 (.writer true) ++ .read :: List.replicate 20 (.reader true)

theorem queueMachine_delivers_sevens : ∃ s, queueMachine.run (almostFull 0) writeThenRead = some s ∧
    s.delivered = [[7]] ∧ s.removed = [0] ∧ QueueOk s := by
  obtain ⟨s, hs, hdelivered, hremoved⟩ : ∃ s, queueMachine.run (almostFull 0) writeThenRead = some s ∧
      s.delivered = [[7]] ∧ s.removed = [0] := ⟨_, rfl, by decide, by decide +kernel⟩
  have hmeets : queueMachine.RunMeets StepOk (almostFull 0) writeThenRead := by decide
  exact ⟨s, hs, hdelivered, hremoved, queueMachine_delivers ⟨_, _, almostFull_opened 0, hmeets, hs⟩⟩

/-- The first store of the writer's `Shift` between the reader's `IsTransient` and `EQ`. -/
def shiftInEq : List QueueAct :=
  .read :: List.replicate 4 (.reader true) ++ .write sevens :: List.replicate 3 (.writer true)

/-- **The race**: the reader moves to the next file before the second store of the writer's `Shift`.  Then it reports an
overflow, or, if the second store comes before its overflow test, it delivers an empty record that nobody wrote.  And after
the last file number it reports an overflow in any case. -/
theorem queueMachine_shiftRace :
    (∃ s, queueMachine.Reachable s ∧ s.returned = [.readerOverflow] ∧ ¬ QueueOk s) ∧
    (∃ s, queueMachine.Reachable s ∧ s.written = [] ∧ s.delivered = [[]] ∧ ¬ QueueOk s) ∧
    ∃ s, queueMachine.run (almostFull 0xFFFFFFFF) (.write sevens :: List.replicate 7 (.writer true) ++
      .read :: List.replicate 5 (.reader true)) = some s ∧ s.returned = [.readerOverflow] := by
  refine ⟨?_, ?_, ⟨_, rfl, by decide⟩⟩
  · obtain ⟨s, hs, hr⟩ : ∃ s, queueMachine.run (almostFull 0) (shiftInEq ++ List.replicate 15 (.reader true)) = some s ∧
        s.returned = [.readerOverflow] := ⟨_, rfl, by decide⟩
    refine ⟨s, ⟨_, _, almostFull_opened 0, hs⟩, hr, fun hok => ?_⟩
    exact hok.noOverflow (by rw [hr]; exact List.mem_singleton_self _)
  · obtain ⟨s, hs, hw, hd⟩ : ∃ s, queueMachine.run (almostFull 0) (shiftInEq ++ List.replicate 13 (.reader true) ++
        .writer true :: List.replicate 6 (.reader true)) = some s ∧ s.written = [] ∧ s.delivered = [[]] :=
      ⟨_, rfl, by decide, by decide +kernel⟩
    refine ⟨s, ⟨_, _, almostFull_opened 0, hs⟩, hw, hd, fun hok => ?_⟩
    have hle := hok.inOrder.length_le
    rw [hw, hd] at hle
    exact absurd hle (by decide)

end AsyncQueue

end Dtc
