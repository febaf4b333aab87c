import DtcServer.AsyncFilePath
/-!
# AsyncFileRead — the reader's steps keep the path

The tests of the reader must show that the path is not empty before it reads.
-/
namespace Dtc

open Memory

namespace AsyncQueue

section Reader

variable {s s' : AsyncQueue}

theorem QueueInv.stays (hs : QueueInv s) (hshared : s'.files = s.files ∧ s'.wpos = s.wpos ∧ s'.writer = s.writer)
    (hghost : s'.written = s.written ∧ s'.removed = s.removed ∧ s'.delivered = s.delivered)
    (hplace : s'.readerPlace = s.readerPlace) (hno : ReadResult.readerOverflow ∉ s'.returned) (hr : s'.ReaderOk) :
    QueueInv s' := by
  obtain ⟨hfiles, hwpos, hwriter⟩ := hshared
  obtain ⟨hwritten, hremoved, hdelivered⟩ := hghost
  have hwplace : s'.writerPlace = s.writerPlace := by
    unfold writerPlace
    rw [hwriter, hwpos]
  refine ⟨?_, ?_, hr, ?_, hno⟩
  · rw [hwritten, hdelivered, hfiles, hplace, hwplace]
    exact hs.path
  · have hw := hs.writer
    unfold WriterOk at hw ⊢
    rw [hwriter, hwpos, hfiles]
    exact hw
  · rw [hremoved, hplace]
    exact hs.removed

theorem noOverflow_snoc {l : List ReadResult} {r : ReadResult} (h : ReadResult.readerOverflow ∉ l)
    (hr : r ≠ .readerOverflow) : ReadResult.readerOverflow ∉ l ++ [r] := by
  intro hmem
  rcases List.mem_append.mp hmem with hl | hl
  · exact h hl
  · exact hr (List.mem_singleton.mp hl).symm

def HasFile (s : AsyncQueue) : Prop := s.reader.stage ≠ .openNext ∧ s.reader.stage ≠ .failed

theorem HasFile.of_stage {stage : ReaderStage} (hst : s.reader.stage = stage) (h : stage ≠ .openNext ∧ stage ≠ .failed) :
    s.HasFile := by
  unfold HasFile
  rw [hst]
  exact h

theorem HasFile.place (h : s.HasFile) : s.readerPlace = s.reader.pos.place := by
  unfold readerPlace
  split
  · rename_i hst
    exact absurd hst h.1
  · rename_i hst
    exact absurd hst h.2
  · rfl

theorem QueueInv.toStage (hs : QueueInv s) (hfile : s.HasFile) {stage : ReaderStage}
    (hstage : stage ≠ .openNext ∧ stage ≠ .failed) (hr : (s.toStage stage).ReaderOk) : QueueInv (s.toStage stage) := by
  have hfile' : (s.toStage stage).HasFile := hstage
  exact hs.stays ⟨rfl, rfl, rfl⟩ ⟨rfl, rfl, rfl⟩ (hfile'.place.trans hfile.place.symm) hs.noOverflow hr

theorem QueueInv.giveBack (hs : QueueInv s) (hfile : s.HasFile) (hsync : s.Synced) :
    QueueInv (s.giveBack .waitData) := by
  have hfile' : (s.giveBack .waitData).HasFile := ⟨nofun, nofun⟩
  refine hs.stays ⟨rfl, rfl, rfl⟩ ⟨rfl, rfl, ?_⟩ (hfile'.place.trans hfile.place.symm) ?_ (fun _ => hsync.1)
  · unfold AsyncQueue.delivered AsyncQueue.giveBack
    rw [List.filterMap_append]
    exact List.append_nil _
  · exact noOverflow_snoc hs.noOverflow nofun

theorem Synced.place (hsync : s.Synced) (hfile : s.HasFile) :
    s.readerPlace = ⟨s.rpos.serial.toNat, s.rpos.offset.toNat⟩ := by
  rw [hfile.place, hsync.1]
  rfl

theorem writerPlace_cases (hw : s.WriterOk) : s.writerPlace = s.wpos.place ∨
    s.writerPlace = ⟨s.wpos.serial.toNat + 1, 0⟩ ∧ s.wpos.offset = 0 := by
  unfold WriterOk at hw
  unfold writerPlace
  split
  · rename_i buf hst
    rw [hst] at hw
    exact .inr ⟨rfl, hw.1⟩
  · exact .inl rfl

theorem before_of_serial_ne (hs : QueueInv s) (hsync : s.Synced) (hfile : s.HasFile) (hle : s.rpos.serial ≤ s.wpos.serial)
    (hne : s.rpos.serial ≠ s.wpos.serial) : s.readerPlace.Before s.writerPlace := by
  rw [hsync.place hfile]
  have hlt : s.rpos.serial.toNat < s.wpos.serial.toNat := by
    rcases Nat.lt_or_eq_of_le (UInt32.le_iff_toNat_le.mp hle) with h | h
    · exact h
    · exact absurd (UInt32.toNat_inj.mp h) hne
  rcases writerPlace_cases hs.writer with h | ⟨h, -⟩
  · rw [h]
    exact .inl hlt
  · rw [h]
    exact .inl (Nat.lt_succ_of_lt hlt)

theorem before_of_offset_ne (hs : QueueInv s) (hsync : s.Synced) (hfile : s.HasFile) (hle : s.rpos.serial ≤ s.wpos.serial)
    (hne : s.rpos.offset ≠ s.wpos.offset) : s.readerPlace.Before s.writerPlace := by
  obtain ⟨passed, ahead, -, -, hp⟩ := hs.path
  rw [hsync.place hfile] at hp ⊢
  rcases hp.le with he | hb
  · rcases writerPlace_cases hs.writer with h | ⟨h, -⟩
    · rw [h] at he
      exact absurd (UInt32.toNat_inj.mp (congrArg Place.offset he)) hne
    · rw [h] at he
      have hser : s.rpos.serial.toNat = s.wpos.serial.toNat + 1 := congrArg Place.serial he
      have := UInt32.le_iff_toNat_le.mp hle
      omega
  · exact hb

theorem QueueInv.readerCommit (hs : QueueInv s) {opens : Bool} (hst : s.reader.stage = .commit)
    (h : s.readerStep opens = some s') : QueueInv s' := by
  have hr := hs.reader
  unfold ReaderOk at hr
  rw [hst] at hr
  obtain ⟨hpos, hbuff⟩ := hr
  have hfile : s.HasFile := .of_stage hst ⟨nofun, nofun⟩
  unfold readerStep at h
  rw [hst] at h
  obtain rfl := Option.some.inj h
  split
  · refine hs.stays ⟨rfl, rfl, rfl⟩ ⟨rfl, rfl, rfl⟩ ?_ hs.noOverflow ⟨rfl, rfl, hbuff⟩
    rw [hfile.place]
    rfl
  · rename_i hproc
    rw [Bool.not_eq_true] at hproc
    exact hs.toStage hfile ⟨nofun, nofun⟩ ⟨hpos hproc, hproc, hbuff⟩

theorem QueueInv.readerTests (hs : QueueInv s) {opens : Bool} (hsync : s.Synced)
    (hst : s.reader.stage = .transientSerial ∨ s.reader.stage = .transientOffset ∨
      s.reader.stage = .eqSerial ∧ s.rpos.serial ≤ s.wpos.serial ∨
      s.reader.stage = .eqOffset ∧ s.rpos.serial ≤ s.wpos.serial)
    (h : s.readerStep opens = some s') : QueueInv s' := by
  have hfile : s.HasFile := by
    unfold HasFile
    rcases hst with hst | hst | ⟨hst, -⟩ | ⟨hst, -⟩ <;> rw [hst] <;> exact ⟨nofun, nofun⟩
  unfold readerStep at h
  rcases hst with hst | hst | ⟨hst, hle⟩ | ⟨hst, hle⟩ <;> rw [hst] at h <;> obtain rfl := Option.some.inj h
  · split
    · exact hs.toStage hfile ⟨nofun, nofun⟩ hsync
    · exact hs.toStage hfile ⟨nofun, nofun⟩ hsync
  · split
    · exact hs.giveBack hfile hsync
    · exact hs.toStage hfile ⟨nofun, nofun⟩ hsync
  · split
    · exact hs.toStage hfile ⟨nofun, nofun⟩ ⟨hsync, hle⟩
    · rename_i hne
      have hb := before_of_serial_ne hs hsync hfile hle hne
      rw [hfile.place] at hb
      exact hs.toStage hfile ⟨nofun, nofun⟩ ⟨hsync, hb, hle, nofun⟩
  · split
    · exact hs.giveBack hfile hsync
    · rename_i hne
      have hb := before_of_offset_ne hs hsync hfile hle hne
      rw [hfile.place] at hb
      exact hs.toStage hfile ⟨nofun, nofun⟩ ⟨hsync, hb, hle, nofun⟩

theorem QueueInv.readerOverflowTest (hs : QueueInv s) {opens again : Bool}
    (hst : s.reader.stage = .gtSerial again ∨ s.reader.stage = .gtSameSerial again ∨ s.reader.stage = .gtOffset again ∨
      s.reader.stage = .gtNotZero again)
    (h : s.readerStep opens = some s') : QueueInv s' := by
  have hfile : s.HasFile := by
    unfold HasFile
    rcases hst with hst | hst | hst | hst <;> rw [hst] <;> exact ⟨nofun, nofun⟩
  have hr := hs.reader
  obtain ⟨passed, ahead, -, -, hp⟩ := hs.path
  unfold ReaderOk at hr
  unfold readerStep at h
  rcases hst with hst | hst | hst | hst <;> rw [hst] at h hr <;> obtain rfl := Option.some.inj h <;>
    obtain ⟨hsync, hb, hle, hr⟩ := hr <;> have hb' := hb <;> rw [hfile.place] at hb'
  · rw [if_neg (UInt32.not_lt.mpr hle)]
    exact hs.toStage hfile ⟨nofun, nofun⟩ ⟨hsync, hb', hle, hr⟩
  · split
    · rename_i he
      refine hs.toStage hfile ⟨nofun, nofun⟩ ⟨hsync, hb', hle, ?_⟩
      cases again with
      | false => rfl
      | true =>
        have hlt := hr rfl
        rw [he] at hlt
        exact absurd hlt (UInt32.lt_irrefl _)
    · exact hs.toStage hfile ⟨nofun, nofun⟩ ⟨hsync, hb'⟩
  · split
    · rename_i hlt
      refine hs.toStage hfile ⟨nofun, nofun⟩ ⟨hsync, hb', hle, hr, ?_⟩
      -- an offset of the writer's below the reader's is in a later file
      have hlt' := UInt32.lt_iff_toNat_lt.mp hlt
      have hle' := UInt32.le_iff_toNat_le.mp hle
      change s.reader.pos.place.serial < s.writerPlace.serial
      rw [hsync.1] at hb' ⊢
      rcases writerPlace_cases hs.writer with hw | ⟨hw, -⟩
      · rw [hw] at hb' ⊢
        rcases hb' with h1 | ⟨h1, h2⟩
        · exact h1
        · change s.rpos.offset.toNat < s.wpos.offset.toNat at h2
          omega
      · rw [hw]
        exact Nat.lt_succ_of_le hle'
    · exact hs.toStage hfile ⟨nofun, nofun⟩ ⟨hsync, hb'⟩
  · obtain ⟨rfl, hlt⟩ := hr
    split
    · rename_i hne
      refine hs.toStage hfile ⟨nofun, nofun⟩ ⟨hsync, hb', hle, fun _ => ?_⟩
      rw [UInt32.lt_iff_toNat_lt]
      rw [hsync.place hfile] at hlt
      rcases writerPlace_cases hs.writer with hw | ⟨-, h0⟩
      · rw [hw] at hlt
        exact hlt
      · exact absurd h0 hne
    · exact hs.toStage hfile ⟨nofun, nofun⟩ ⟨hsync, hb'⟩

theorem QueueInv.readerOutput (hs : QueueInv s) {opens : Bool} (hst : s.reader.stage = .output)
    (h : s.readerStep opens = some s') : QueueInv s' := by
  have hfile : s.HasFile := .of_stage hst ⟨nofun, nofun⟩
  have hr := hs.reader
  unfold ReaderOk at hr
  rw [hst] at hr
  obtain ⟨hsync, hb⟩ := hr
  rw [hfile.place] at hb
  unfold readerStep at h
  rw [hst] at h
  obtain rfl := Option.some.inj h
  split
  · rename_i hend
    exact hs.toStage hfile ⟨nofun, nofun⟩ ⟨hsync, hb, hend⟩
  · rename_i hend
    exact hs.toStage hfile ⟨nofun, nofun⟩ ⟨hsync, hb, hend⟩

theorem QueueInv.readerAppend (hs : QueueInv s) {opens : Bool} (hst : s.reader.stage = .append)
    (h : s.readerStep opens = some s') : QueueInv s' := by
  have hfile : s.HasFile := .of_stage hst ⟨nofun, nofun⟩
  have hr := hs.reader
  unfold ReaderOk at hr
  rw [hst] at hr
  obtain ⟨hsync, hb, hend⟩ := hr
  obtain ⟨passed, ahead, -, -, hp⟩ := hs.path
  have hrec : ∃ bytes, RecordAt s.files s.readerPlace bytes := by
    rcases hp.cases_front hb with ⟨h1, -⟩ | ⟨-, bytes, -, -, h1, -⟩
    · exact absurd h1 hend
    · exact ⟨bytes, h1⟩
  obtain ⟨bytes, hrec⟩ := hrec
  rw [hfile.place] at hb hrec
  have hroom : s.reader.pos.offset.toNat + 4 + bytes.length + 4 < 10 * 2 ^ 20 := hrec.2.2
  have h4 : (s.reader.pos.front 4).offset.toNat = s.reader.pos.offset.toNat + 4 := front_toNat (by omega)
  have hlen : readNat s.readerMem s.reader.pos.offset.toNat 4 = bytes.length := hrec.1
  have hbuff : s.reader.buff ++ readBytes s.readerMem (s.reader.pos.front 4).offset.toNat
      (readNat s.readerMem s.reader.pos.offset.toNat 4) = bytes := by
    rw [hsync.2.2, List.nil_append, h4, hlen]
    exact hrec.2.1
  unfold readerStep at h
  rw [hst] at h
  obtain rfl := Option.some.inj h
  refine hs.stays ⟨rfl, rfl, rfl⟩ ⟨rfl, rfl, rfl⟩ ?_ hs.noOverflow ⟨hb, ?_⟩
  · rw [hfile.place]
    rfl
  · rw [hbuff]
    exact hrec

theorem QueueInv.readerFront (hs : QueueInv s) {opens : Bool} (hst : s.reader.stage = .front)
    (h : s.readerStep opens = some s') : QueueInv s' := by
  have hfile : s.HasFile := .of_stage hst ⟨nofun, nofun⟩
  have hr := hs.reader
  unfold ReaderOk at hr
  rw [hst] at hr
  obtain ⟨hb, hrec⟩ := hr
  obtain ⟨passed, ahead, hw, hd, hp⟩ := hs.path
  have hplace := hfile.place
  rcases hp.cases_front hb with ⟨hend, -⟩ | ⟨-, bytes, ahead', rfl, hrec', t⟩
  · have hlen : s.reader.buff.length = 0xFFFFFFFF := hrec.1.symm.trans hend
    have hroom : s.readerPlace.offset + 4 + s.reader.buff.length + 4 < 10 * 2 ^ 20 := hrec.2.2
    omega
  have hbytes : s.reader.buff = bytes := by
    have hlen : s.reader.buff.length = bytes.length := hrec.1.symm.trans hrec'.1
    rw [← hrec.2.1, ← hrec'.2.1, hlen]
  rw [hplace] at hrec'
  have hroom : s.reader.pos.offset.toNat + 4 + bytes.length + 4 < 10 * 2 ^ 20 := hrec'.2.2
  have h4 : (s.reader.pos.front 4).offset.toNat = s.reader.pos.offset.toNat + 4 := front_toNat (by omega)
  have hlen : readNat s.readerMem s.reader.pos.offset.toNat 4 = bytes.length := hrec'.1
  have hpos : ((s.reader.pos.front 4).front bytes.length).place =
      ⟨s.readerPlace.serial, s.readerPlace.offset + 4 + bytes.length⟩ := by
    rw [hplace]
    unfold CAsyncFilePos.place
    rw [front_toNat (by rw [h4]; omega), h4]
    rfl
  unfold readerStep at h
  rw [hst] at h
  obtain rfl := Option.some.inj h
  dsimp only
  rw [hlen, hbytes]
  refine ⟨⟨passed ++ [⟨s.readerPlace, bytes⟩], ahead', ?_, ?_, ?_⟩, hs.writer, nofun, ?_, ?_⟩
  · rw [List.append_assoc]
    exact hw
  · rw [List.map_append, ← hd]
    unfold AsyncQueue.delivered
    rw [List.filterMap_append]
    rfl
  · change Path s.files ((s.reader.pos.front 4).front bytes.length).place ahead' s.writerPlace
    rw [hpos]
    exact t
  · intro n hn
    have hlt := hs.removed n hn
    change n < ((s.reader.pos.front 4).front bytes.length).place.serial
    rw [hpos]
    exact hlt
  · exact noOverflow_snoc hs.noOverflow nofun

theorem QueueInv.readerUnlink (hs : QueueInv s) {opens : Bool} (hst : s.reader.stage = .unlink)
    (h : s.readerStep opens = some s') : QueueInv s' := by
  have hfile : s.HasFile := .of_stage hst ⟨nofun, nofun⟩
  have hr := hs.reader
  unfold ReaderOk at hr
  rw [hst] at hr
  obtain ⟨hsync, hb, hend⟩ := hr
  obtain ⟨passed, ahead, hw, hd, hp⟩ := hs.path
  have hplace := hfile.place
  rcases hp.cases_front hb with ⟨-, -, t⟩ | ⟨hne, -⟩
  case inr => exact absurd hend hne
  have hser : s.reader.pos.serial.toNat = s.rpos.serial.toNat := by rw [hsync.1]
  have hserial : s.readerPlace.serial = s.rpos.serial.toNat := by
    rw [hplace]
    exact hser
  have hwlt : s.writerPlace.serial < 2 ^ 32 := by
    have hok := hs.writer
    unfold WriterOk at hok
    unfold writerPlace
    split
    · rename_i buf hw'
      rw [hw'] at hok
      exact hok.2.1
    · exact s.wpos.serial.toNat_lt
  have hsucc : s.rpos.serial.toNat + 1 < 2 ^ 32 := by
    have := t.serial_le
    rw [hserial] at this
    exact Nat.lt_of_le_of_lt this hwlt
  have hmem : ∀ n, (Function.update s.files s.reader.pos.serial.toNat
      { s.files s.reader.pos.serial.toNat with linked := false } n).mem = (s.files n).mem := by
    intro n
    by_cases hn : n = s.reader.pos.serial.toNat
    · rw [hn, Function.update_self]
    · rw [Function.update_of_ne hn]
  unfold readerStep at h
  rw [hst] at h
  obtain rfl := Option.some.inj h
  refine ⟨⟨passed, ahead, hw, hd, ?_⟩, ?_, ⟨hsync.2.2, hsync.2.1, hsucc⟩, ?_, hs.noOverflow⟩
  · change Path _ ⟨s.rpos.serial.toNat + 1, 0⟩ ahead s.writerPlace
    rw [← hserial]
    refine t.congr (fun n x _ _ => by rw [hmem]) (fun n hn ho => ?_)
    dsimp only at hn ⊢
    rw [Function.update_of_ne]
    · exact ho
    · rw [hser, ← hserial]
      omega
  · -- the writer does not look at the links, but for the file that it opened last
    have hok := hs.writer
    have hle : s.readerPlace.serial < s.writerPlace.serial := Nat.lt_of_succ_le t.serial_le
    unfold WriterOk EndAt RecordAt at hok ⊢
    dsimp only
    split <;> rename_i hw' <;> rw [hw'] at hok
    · exact hok
    · exact hok
    · rw [hmem]
      exact hok
    · rw [hmem]
      exact hok
    · rw [hmem]
      exact hok
    · rw [hmem]
      refine ⟨hok.1, ?_, hok.2.2⟩
      rw [Function.update_of_ne]
      · exact hok.2.1
      · unfold writerPlace at hle
        rw [hw', hserial] at hle
        change s.rpos.serial.toNat < s.wpos.serial.toNat at hle
        omega
    · exact hok
    · trivial
  · intro n hn
    change n < s.rpos.serial.toNat + 1
    rcases List.mem_append.mp hn with hn | hn
    · have := hs.removed n hn
      rw [hserial] at this
      exact Nat.lt_succ_of_lt this
    · rw [List.mem_singleton.mp hn, hser]
      exact Nat.lt_succ_self _

theorem QueueInv.readerOpenNext (hs : QueueInv s) {opens : Bool} (hst : s.reader.stage = .openNext)
    (h : s.readerStep opens = some s') : QueueInv s' := by
  have hr := hs.reader
  unfold ReaderOk at hr
  rw [hst] at hr
  obtain ⟨hbuff, hproc, hsucc⟩ := hr
  have hplace : s.readerPlace = ⟨s.rpos.serial.toNat + 1, 0⟩ := by
    unfold readerPlace
    rw [hst]
  unfold readerStep at h
  rw [hst] at h
  dsimp only at h
  split at h
  · obtain rfl := Option.some.inj h
    refine hs.stays ⟨rfl, rfl, rfl⟩ ⟨rfl, rfl, rfl⟩ ?_ hs.noOverflow ⟨hbuff, hproc, rfl⟩
    rw [hplace]
    change (⟨(s.rpos.serial + 1).toNat, 0⟩ : Place) = _
    rw [serial_succ hsucc]
  · obtain rfl := Option.some.inj h
    refine hs.stays ⟨rfl, rfl, rfl⟩ ⟨rfl, rfl, ?_⟩ ?_ ?_ trivial
    · unfold AsyncQueue.delivered
      rw [List.filterMap_append]
      exact List.append_nil _
    · rw [hplace]
      rfl
    · exact noOverflow_snoc hs.noOverflow nofun

theorem QueueInv.readerShift (hs : QueueInv s) {opens : Bool}
    (hst : s.reader.stage = .shiftOffset ∨ s.reader.stage = .shiftSerial)
    (h : s.readerStep opens = some s') : QueueInv s' := by
  have hr := hs.reader
  unfold ReaderOk at hr
  have hfile : s.HasFile := by
    unfold HasFile
    rcases hst with hst | hst <;> rw [hst] <;> exact ⟨nofun, nofun⟩
  unfold readerStep at h
  rcases hst with hst | hst <;> rw [hst] at h hr <;> obtain rfl := Option.some.inj h
  · obtain ⟨hbuff, hproc, hpos⟩ := hr
    refine hs.stays ⟨rfl, rfl, rfl⟩ ⟨rfl, rfl, rfl⟩ ?_ hs.noOverflow ⟨hbuff, hproc, hpos, rfl⟩
    rw [hfile.place]
    rfl
  · obtain ⟨hbuff, hproc, hpos, hzero⟩ := hr
    refine hs.stays ⟨rfl, rfl, rfl⟩ ⟨rfl, rfl, rfl⟩ ?_ hs.noOverflow ⟨fun _ => ?_, hbuff⟩
    · rw [hfile.place]
      rfl
    · change s.reader.pos = s.rpos.shiftSerial
      rw [hpos]
      unfold CAsyncFilePos.shiftSerial
      rw [hzero]

theorem QueueInv.readerStep (hs : QueueInv s) {opens : Bool}
    (hle : s.reader.stage = .eqSerial → s.rpos.serial ≤ s.wpos.serial) (h : s.readerStep opens = some s') :
    QueueInv s' := by
  have hr := hs.reader
  unfold ReaderOk at hr
  cases hst : s.reader.stage with
  | idle =>
    unfold AsyncQueue.readerStep at h
    rw [hst] at h
    cases h
  | failed =>
    unfold AsyncQueue.readerStep at h
    rw [hst] at h
    cases h
  | commit => exact hs.readerCommit hst h
  | transientSerial =>
    rw [hst] at hr
    exact hs.readerTests hr (.inl hst) h
  | transientOffset =>
    rw [hst] at hr
    exact hs.readerTests hr (.inr (.inl hst)) h
  | eqSerial =>
    rw [hst] at hr
    exact hs.readerTests hr (.inr (.inr (.inl ⟨hst, hle hst⟩))) h
  | eqOffset =>
    rw [hst] at hr
    exact hs.readerTests hr.1 (.inr (.inr (.inr ⟨hst, hr.2⟩))) h
  | gtSerial again => exact hs.readerOverflowTest (.inl hst) h
  | gtSameSerial again => exact hs.readerOverflowTest (.inr (.inl hst)) h
  | gtOffset again => exact hs.readerOverflowTest (.inr (.inr (.inl hst))) h
  | gtNotZero again => exact hs.readerOverflowTest (.inr (.inr (.inr hst))) h
  | output => exact hs.readerOutput hst h
  | append => exact hs.readerAppend hst h
  | front => exact hs.readerFront hst h
  | unlink => exact hs.readerUnlink hst h
  | openNext => exact hs.readerOpenNext hst h
  | shiftOffset => exact hs.readerShift (.inl hst) h
  | shiftSerial => exact hs.readerShift (.inr hst) h

theorem QueueInv.callRead (hs : QueueInv s) (h : s.callRead = some s') : QueueInv s' := by
  unfold AsyncQueue.callRead at h
  have hr := hs.reader
  unfold ReaderOk at hr
  split at h
  · rename_i hst
    obtain rfl := Option.some.inj h
    rw [hst] at hr
    have hfile : s.HasFile := .of_stage hst ⟨nofun, nofun⟩
    refine hs.stays ⟨rfl, rfl, rfl⟩ ⟨rfl, rfl, rfl⟩ ?_ hs.noOverflow ⟨hr, rfl⟩
    rw [hfile.place]
    rfl
  · rename_i hst
    obtain rfl := Option.some.inj h
    have hread := hs.reader
    refine hs.stays ⟨rfl, rfl, rfl⟩ ⟨rfl, rfl, ?_⟩ rfl ?_ hread
    · unfold AsyncQueue.delivered
      rw [List.filterMap_append]
      exact List.append_nil _
    · exact noOverflow_snoc hs.noOverflow nofun
  · cases h

theorem QueueInv.callCommit (hs : QueueInv s) (h : s.callCommit = some s') : QueueInv s' := by
  unfold AsyncQueue.callCommit at h
  split at h
  · rename_i hst
    obtain rfl := Option.some.inj h
    have hfile : s.HasFile := .of_stage hst ⟨nofun, nofun⟩
    split
    · refine hs.stays ⟨rfl, rfl, rfl⟩ ⟨rfl, rfl, rfl⟩ ?_ hs.noOverflow ?_
      · unfold readerPlace
        dsimp only
        rw [hst]
      · unfold ReaderOk
        dsimp only
        rw [hst]
        exact fun _ => rfl
    · exact hs
  · cases h

end Reader

end AsyncQueue

end Dtc
