import DtcServer.AsyncFile
/-!
# AsyncFilePath — the way of the reader through the files

The invariant is a path through the files: from the reader's place over the undelivered records and the end flags to the
writer's place. The writer only lengthens it at its end, the reader only shortens it at its front.
-/
namespace Dtc

open Memory

def Place.Before (p q : Place) : Prop := p.serial < q.serial ∨ p.serial = q.serial ∧ p.offset < q.offset

def RecordAt (files : Nat → AsyncFile) (p : Place) (bytes : List UInt8) : Prop :=
  readNat (files p.serial).mem p.offset 4 = bytes.length ∧
    readBytes (files p.serial).mem (p.offset + 4) bytes.length = bytes ∧
    p.offset + 4 + bytes.length + 4 < maxAsyncFileSize

def EndAt (files : Nat → AsyncFile) (p : Place) : Prop :=
  readNat (files p.serial).mem p.offset 4 = asyncFileEndFlag

/-- The way of the reader through the files, with the records it meets. -/
inductive Path (files : Nat → AsyncFile) : Place → List QueueRecord → Place → Prop
  | done (p : Place) : Path files p [] p
  | record {p q : Place} {es : List QueueRecord} {bytes : List UInt8} (h : RecordAt files p bytes)
      (t : Path files ⟨p.serial, p.offset + 4 + bytes.length⟩ es q) : Path files p (⟨p, bytes⟩ :: es) q
  | next {p q : Place} {es : List QueueRecord} (h : EndAt files p) (hopen : (files (p.serial + 1)).openForReader = true)
      (t : Path files ⟨p.serial + 1, 0⟩ es q) : Path files p es q

namespace Path

variable {files files' : Nat → AsyncFile} {p q : Place} {es : List QueueRecord}

theorem le (h : Path files p es q) : p = q ∨ p.Before q := by
  induction h with
  | done p => exact .inl rfl
  | record h t ih =>
    refine .inr ?_
    rcases ih with rfl | h1 | ⟨h1, h2⟩
    · exact .inr ⟨rfl, by dsimp only; omega⟩
    · exact .inl h1
    · exact .inr ⟨h1, by dsimp only at h2; omega⟩
  | next h hopen t ih =>
    refine .inr (.inl ?_)
    rcases ih with rfl | h1 | ⟨h1, h2⟩
    · exact Nat.lt_succ_self _
    · exact Nat.lt_of_succ_lt h1
    · exact Nat.lt_of_succ_le (Nat.le_of_eq h1)

theorem serial_le (h : Path files p es q) : p.serial ≤ q.serial := by
  rcases h.le with rfl | h | h
  · exact Nat.le_refl _
  · exact Nat.le_of_lt h
  · exact Nat.le_of_eq h.1

theorem eq_nil (h : Path files p es p) : es = [] := by
  cases h with
  | done => rfl
  | record h t =>
    rcases t.le with he | h1 | ⟨-, h2⟩
    · have := congrArg Place.offset he
      dsimp only at this
      omega
    · exact absurd h1 (Nat.lt_irrefl _)
    · dsimp only at h2
      omega
  | next h hopen t => exact absurd t.serial_le (Nat.not_succ_le_self _)

theorem serial_ge (h : Path files p es q) : ∀ e ∈ es, p.serial ≤ e.place.serial := by
  induction h with
  | done p => exact fun e he => absurd he List.not_mem_nil
  | record h t ih =>
    intro e he
    rcases List.mem_cons.mp he with rfl | he
    · exact Nat.le_refl _
    · exact ih e he
  | next h hopen t ih => exact fun e he => Nat.le_of_succ_le (ih e he)

theorem congr (h : Path files p es q)
    (hmem : ∀ n x, p.serial ≤ n → (⟨n, x⟩ : Place).Before q → (files' n).mem x = (files n).mem x)
    (hopen : ∀ n, p.serial < n → (files n).openForReader = true → (files' n).openForReader = true) :
    Path files' p es q := by
  induction h with
  | done p => exact .done p
  | @record p q es bytes h t ih =>
    have hbelow : ∀ x, x < p.offset + 4 + bytes.length → (⟨p.serial, x⟩ : Place).Before q := by
      intro x hx
      rcases t.le with rfl | h1 | ⟨h1, h2⟩
      · exact .inr ⟨rfl, hx⟩
      · exact .inl h1
      · exact .inr ⟨h1, by dsimp only at h2 ⊢; omega⟩
    obtain ⟨h1, h2, h3⟩ := h
    have h1' : readNat (files' p.serial).mem p.offset 4 = bytes.length :=
      (readNat_congr (fun x _ hx => hmem _ x (Nat.le_refl _) (hbelow x (by omega)))).trans h1
    have h2' : readBytes (files' p.serial).mem (p.offset + 4) bytes.length = bytes :=
      (readBytes_congr (fun x _ hx => hmem _ x (Nat.le_refl _) (hbelow x (by omega)))).trans h2
    exact .record ⟨h1', h2', h3⟩ (ih hmem hopen)
  | @next p q es h ho t ih =>
    have hlt : p.serial < q.serial := Nat.lt_of_succ_le t.serial_le
    have h' : EndAt files' p := (readNat_congr (fun x _ _ => hmem _ x (Nat.le_refl _) (.inl hlt))).trans h
    exact .next h' (hopen _ (Nat.lt_succ_self _) ho) (ih (fun n x hn => hmem n x (Nat.le_of_succ_le hn))
      (fun n hn => hopen n (Nat.lt_of_succ_lt hn)))

theorem snoc_record (h : Path files p es q) {bytes : List UInt8} (hq : RecordAt files q bytes) :
    Path files p (es ++ [⟨q, bytes⟩]) ⟨q.serial, q.offset + 4 + bytes.length⟩ := by
  induction h with
  | done p => exact .record hq (.done _)
  | record h t ih => exact .record h (ih hq)
  | next h hopen t ih => exact .next h hopen (ih hq)

theorem snoc_next (h : Path files p es q) (hq : EndAt files q) (hopen : (files (q.serial + 1)).openForReader = true) :
    Path files p es ⟨q.serial + 1, 0⟩ := by
  induction h with
  | done p => exact .next hq hopen (.done _)
  | record h t ih => exact .record h (ih hq hopen)
  | next h ho t ih => exact .next h ho (ih hq hopen)

theorem cases_front (h : Path files p es q) (hlt : p.Before q) :
    (EndAt files p ∧ (files (p.serial + 1)).openForReader = true ∧ Path files ⟨p.serial + 1, 0⟩ es q) ∨
      (¬ EndAt files p ∧ ∃ bytes es', es = ⟨p, bytes⟩ :: es' ∧ RecordAt files p bytes ∧
        Path files ⟨p.serial, p.offset + 4 + bytes.length⟩ es' q) := by
  cases h with
  | done =>
    rcases hlt with h | h
    · exact absurd h (Nat.lt_irrefl _)
    · exact absurd h.2 (Nat.lt_irrefl _)
  | @record _ _ es bytes h t =>
    refine .inr ⟨?_, bytes, es, rfl, h, t⟩
    intro hend
    have hlen : bytes.length = 0xFFFFFFFF := h.1.symm.trans hend
    have hroom : p.offset + 4 + bytes.length + 4 < 10 * 2 ^ 20 := h.2.2
    omega
  | next h hopen t => exact .inl ⟨h, hopen, t⟩

theorem word_before (h : Path files p es q) (hlt : p.Before q) {x : Nat} (hx : x < p.offset + 4) :
    (⟨p.serial, x⟩ : Place).Before q := by
  rcases h.cases_front hlt with ⟨-, -, t⟩ | ⟨-, bytes, es', -, -, t⟩
  · exact .inl (Nat.lt_of_succ_le t.serial_le)
  · rcases t.le with rfl | h1 | ⟨h1, h2⟩
    · exact .inr ⟨rfl, by dsimp only; omega⟩
    · exact .inl h1
    · exact .inr ⟨h1, by dsimp only at h2 ⊢; omega⟩

end Path

namespace AsyncQueue

/-- The place up to which the files are written; in the middle of `Shift` it is in the next file already. -/
def writerPlace (s : AsyncQueue) : Place :=
  match s.writer.stage with
  | .shiftSerial _ => ⟨s.wpos.serial.toNat + 1, 0⟩
  | _ => s.wpos.place

def readerPlace (s : AsyncQueue) : Place :=
  match s.reader.stage with
  | .openNext | .failed => ⟨s.rpos.serial.toNat + 1, 0⟩
  | _ => s.reader.pos.place

/-- What the writer has done at each stage of `Write`. -/
def WriterOk (s : AsyncQueue) : Prop :=
  match s.writer.stage with
  | .idle | .input _ => s.writer.pos = s.wpos ∧ s.wpos.offset.toNat + 4 < maxAsyncFileSize
  | .body buf =>
    s.writer.pos = s.wpos.front 4 ∧ s.wpos.offset.toNat + 4 + buf.bytes.length + 4 < maxAsyncFileSize ∧
      readNat (s.files s.wpos.serial.toNat).mem s.wpos.offset.toNat 4 = buf.bytes.length
  | .advance buf =>
    s.writer.pos = (s.wpos.front 4).front buf.bytes.length ∧ RecordAt s.files s.wpos.place buf.bytes
  | .openNext _ => EndAt s.files s.wpos.place
  | .shiftOffset _ =>
    EndAt s.files s.wpos.place ∧ (s.files (s.wpos.serial.toNat + 1)).openForReader = true ∧
      s.wpos.serial.toNat + 1 < 2 ^ 32 ∧ s.writer.pos = ⟨s.wpos.serial + 1, 0⟩
  | .shiftSerial _ => s.wpos.offset = 0 ∧ s.wpos.serial.toNat + 1 < 2 ^ 32 ∧ s.writer.pos = ⟨s.wpos.serial + 1, 0⟩
  | .failed => True

def Synced (s : AsyncQueue) : Prop := s.reader.pos = s.rpos ∧ s.reader.processing = false ∧ s.reader.buff = []

/-- What the reader knows at each stage of `Read`. -/
def ReaderOk (s : AsyncQueue) : Prop :=
  match s.reader.stage with
  | .idle => s.reader.processing = false → s.reader.pos = s.rpos
  | .commit => (s.reader.processing = false → s.reader.pos = s.rpos) ∧ s.reader.buff = []
  | .transientSerial | .transientOffset | .eqSerial => s.Synced
  | .eqOffset => s.Synced ∧ s.rpos.serial ≤ s.wpos.serial
  | .gtSerial again | .gtSameSerial again =>
    s.Synced ∧ s.readerPlace.Before s.writerPlace ∧ s.rpos.serial ≤ s.wpos.serial ∧
      (again = true → s.rpos.serial < s.wpos.serial)
  | .gtOffset again =>
    s.Synced ∧ s.readerPlace.Before s.writerPlace ∧ s.rpos.serial ≤ s.wpos.serial ∧ again = false
  | .gtNotZero again =>
    s.Synced ∧ s.readerPlace.Before s.writerPlace ∧ s.rpos.serial ≤ s.wpos.serial ∧ again = false ∧
      s.readerPlace.serial < s.writerPlace.serial
  | .output => s.Synced ∧ s.readerPlace.Before s.writerPlace
  | .append => s.Synced ∧ s.readerPlace.Before s.writerPlace ∧ ¬ EndAt s.files s.readerPlace
  | .front =>
    s.readerPlace.Before s.writerPlace ∧ RecordAt s.files s.readerPlace s.reader.buff
  | .unlink => s.Synced ∧ s.readerPlace.Before s.writerPlace ∧ EndAt s.files s.readerPlace
  | .openNext => s.reader.buff = [] ∧ s.reader.processing = false ∧ s.rpos.serial.toNat + 1 < 2 ^ 32
  | .shiftOffset =>
    s.reader.buff = [] ∧ s.reader.processing = false ∧ s.reader.pos = ⟨s.rpos.serial + 1, 0⟩
  | .shiftSerial =>
    s.reader.buff = [] ∧ s.reader.processing = false ∧ s.reader.pos = ⟨s.rpos.serial + 1, 0⟩ ∧ s.rpos.offset = 0
  | .failed => True

/-- **The invariant of the queue.** -/
structure QueueInv (s : AsyncQueue) : Prop where
  path : ∃ passed ahead, s.written = passed ++ ahead ∧ s.delivered = passed.map QueueRecord.bytes ∧
    Path s.files s.readerPlace ahead s.writerPlace
  writer : s.WriterOk
  reader : s.ReaderOk
  removed : ∀ n ∈ s.removed, n < s.readerPlace.serial
  noOverflow : ReadResult.readerOverflow ∉ s.returned

section Writer

variable {s s' : AsyncQueue}

theorem Place.Before.trans_le {p q r : Place} (h : p.Before q) (hqr : q = r ∨ q.Before r) : p.Before r := by
  unfold Place.Before at *
  rcases hqr with rfl | hqr
  · exact h
  · omega

theorem writerPlace_of_stage {stage : WriterStage} (hst : s.writer.stage = stage) (h : ∀ buf, stage ≠ .shiftSerial buf) :
    s.writerPlace = s.wpos.place := by
  unfold writerPlace
  split
  · rename_i buf hbuf
    exact absurd (hst.symm.trans hbuf) (h buf)
  · rfl

structure Extends (s s' : AsyncQueue) : Prop where
  reader : s'.reader = s.reader ∧ s'.rpos = s.rpos ∧ s'.returned = s.returned ∧ s'.removed = s.removed
  mem : ∀ n x, (⟨n, x⟩ : Place).Before s.writerPlace → (s'.files n).mem x = (s.files n).mem x
  opens : ∀ n, (s.files n).openForReader = true → (s'.files n).openForReader = true
  grows : ∃ more, s'.written = s.written ++ more ∧ ∀ p es, Path s'.files p es s.writerPlace →
    Path s'.files p (es ++ more) s'.writerPlace
  serial : s.wpos.serial ≤ s'.wpos.serial

theorem Extends.readerPlace (h : Extends s s') : s'.readerPlace = s.readerPlace := by
  unfold AsyncQueue.readerPlace
  rw [h.reader.1, h.reader.2.1]

theorem Extends.place_le (h : Extends s s') : s.writerPlace = s'.writerPlace ∨ s.writerPlace.Before s'.writerPlace := by
  obtain ⟨more, -, hpath⟩ := h.grows
  exact (hpath _ _ (.done _)).le

theorem Extends.before (h : Extends s s') (hb : s.readerPlace.Before s.writerPlace) :
    s'.readerPlace.Before s'.writerPlace := by
  rw [h.readerPlace]
  exact Place.Before.trans_le hb h.place_le

theorem Extends.endAt_iff (h : Extends s s') {es : List QueueRecord} (hp : Path s.files s.readerPlace es s.writerPlace)
    (hb : s.readerPlace.Before s.writerPlace) : EndAt s'.files s'.readerPlace ↔ EndAt s.files s.readerPlace := by
  unfold EndAt
  rw [h.readerPlace, readNat_congr (fun x _ hx => h.mem _ x (hp.word_before hb hx))]

theorem Extends.recordAt (h : Extends s s') {es : List QueueRecord} (hp : Path s.files s.readerPlace es s.writerPlace)
    (hb : s.readerPlace.Before s.writerPlace) {bytes : List UInt8} (hr : RecordAt s.files s.readerPlace bytes) :
    RecordAt s'.files s'.readerPlace bytes := by
  have hword : ∀ x, x < s.readerPlace.offset + 4 → (s'.files s.readerPlace.serial).mem x =
      (s.files s.readerPlace.serial).mem x := fun x hx => h.mem _ x (hp.word_before hb hx)
  obtain ⟨h1, h2, h3⟩ := hr
  rcases hp.cases_front hb with ⟨hend, -, -⟩ | ⟨-, bytes', es', -, hr', t⟩
  · have hlen : bytes.length = 0xFFFFFFFF := h1.symm.trans hend
    have hroom : s.readerPlace.offset + 4 + bytes.length + 4 < 10 * 2 ^ 20 := h3
    omega
  · have hlen : bytes'.length = bytes.length := hr'.1.symm.trans h1
    rw [hlen] at t
    rw [h.readerPlace]
    refine ⟨(readNat_congr (fun x _ hx => hword x hx)).trans h1, ?_, h3⟩
    refine (readBytes_congr (fun x _ hx => h.mem _ x ?_)).trans h2
    rcases t.le with he | ht | ⟨ht, ht'⟩
    · rw [← he]
      exact .inr ⟨rfl, hx⟩
    · exact .inl ht
    · exact .inr ⟨ht, by dsimp only at ht' ⊢; omega⟩

theorem Extends.readerOk (h : Extends s s') {es : List QueueRecord} (hp : Path s.files s.readerPlace es s.writerPlace)
    (hr : s.ReaderOk) : s'.ReaderOk := by
  have hser : ∀ {r : UInt32}, r ≤ s.wpos.serial → r ≤ s'.wpos.serial := fun hle => UInt32.le_trans hle h.serial
  have hser' : ∀ {r : UInt32}, r < s.wpos.serial → r < s'.wpos.serial := fun hlt => UInt32.lt_of_lt_of_le hlt h.serial
  have hbefore := h.before
  have hend := h.endAt_iff hp
  have hrec := h.recordAt hp
  have hplace : s.readerPlace.serial < s.writerPlace.serial → s'.readerPlace.serial < s'.writerPlace.serial := by
    intro hlt
    rw [h.readerPlace]
    rcases h.place_le with he | hlt' | ⟨he, -⟩
    · rwa [← he]
    · exact Nat.lt_trans hlt hlt'
    · rwa [← he]
  obtain ⟨hreader, hrpos, -, -⟩ := h.reader
  unfold ReaderOk Synced at *
  rw [hreader, hrpos]
  generalize s.reader.stage = stage at hr ⊢
  cases stage with
  | eqOffset => exact ⟨hr.1, hser hr.2⟩
  | gtSerial again => exact ⟨hr.1, hbefore hr.2.1, hser hr.2.2.1, fun ha => hser' (hr.2.2.2 ha)⟩
  | gtSameSerial again => exact ⟨hr.1, hbefore hr.2.1, hser hr.2.2.1, fun ha => hser' (hr.2.2.2 ha)⟩
  | gtOffset again => exact ⟨hr.1, hbefore hr.2.1, hser hr.2.2.1, hr.2.2.2⟩
  | gtNotZero again => exact ⟨hr.1, hbefore hr.2.1, hser hr.2.2.1, hr.2.2.2.1, hplace hr.2.2.2.2⟩
  | output => exact ⟨hr.1, hbefore hr.2⟩
  | append => exact ⟨hr.1, hbefore hr.2.1, fun he => hr.2.2 ((hend hr.2.1).mp he)⟩
  | front => exact ⟨hbefore hr.1, hrec hr.1 hr.2⟩
  | unlink => exact ⟨hr.1, hbefore hr.2.1, (hend hr.2.1).mpr hr.2.2⟩
  -- the other stages know nothing of the writer
  | idle | commit | transientSerial | transientOffset | eqSerial | openNext | shiftOffset | shiftSerial | failed => exact hr

theorem QueueInv.extends (hs : QueueInv s) (h : Extends s s') (hw : s'.WriterOk) : QueueInv s' := by
  obtain ⟨passed, ahead, he, hd, hp⟩ := hs.path
  obtain ⟨more, hmore, hgrows⟩ := h.grows
  have hreaderOk := h.readerOk hp hs.reader
  have hplace := h.readerPlace
  obtain ⟨hreader, hrpos, hreturned, hremoved⟩ := h.reader
  refine ⟨⟨passed, ahead ++ more, ?_, ?_, ?_⟩, hw, hreaderOk, ?_, ?_⟩
  · rw [hmore, he, List.append_assoc]
  · unfold AsyncQueue.delivered at hd ⊢
    rw [hreturned]
    exact hd
  · rw [hplace]
    exact hgrows _ _ (hp.congr (fun n x _ hx => h.mem n x hx) (fun n _ ho => h.opens n ho))
  · rw [hremoved, hplace]
    exact hs.removed
  · rw [hreturned]
    exact hs.noOverflow

theorem front_toNat {p : CAsyncFilePos} {v : Nat} (h : p.offset.toNat + v < 2 ^ 32) :
    (p.front v).offset.toNat = p.offset.toNat + v := by
  unfold CAsyncFilePos.front
  dsimp only
  rw [UInt32.toNat_add, UInt32.toNat_ofNat', Nat.mod_eq_of_lt (by omega : v < 2 ^ 32), Nat.mod_eq_of_lt h]

theorem serial_succ {a : UInt32} (h : a.toNat + 1 < 2 ^ 32) : (a + 1).toNat = a.toNat + 1 := by
  rw [UInt32.toNat_add]
  exact Nat.mod_eq_of_lt h

theorem store_mem (bytes : List UInt8) (hser : s.writer.pos.serial = s.wpos.serial)
    (hoff : s.wpos.offset.toNat ≤ s.writer.pos.offset.toNat) {n x : Nat} (hx : (⟨n, x⟩ : Place).Before s.wpos.place) :
    (s.store bytes n).mem x = (s.files n).mem x := by
  unfold store
  by_cases hn : n = s.writer.pos.serial.toNat
  · rw [hn, Function.update_self]
    refine writeBytes_outside (.inl ?_)
    rcases hx with hx | ⟨-, hx⟩
    · rw [hn, hser] at hx
      exact absurd hx (Nat.lt_irrefl _)
    · exact Nat.lt_of_lt_of_le hx hoff
  · rw [Function.update_of_ne hn]

theorem store_opens (bytes : List UInt8) (n : Nat) : (s.store bytes n).openForReader = (s.files n).openForReader := by
  unfold store
  by_cases hn : n = s.writer.pos.serial.toNat
  · rw [hn, Function.update_self]
    rfl
  · rw [Function.update_of_ne hn]

theorem extends_store {bytes : List UInt8} {pos : CAsyncFilePos} {stage : WriterStage} (hplace : s.writerPlace = s.wpos.place)
    (hser : s.writer.pos.serial = s.wpos.serial) (hoff : s.wpos.offset.toNat ≤ s.writer.pos.offset.toNat)
    (hstage : ∀ buf, stage ≠ .shiftSerial buf) :
    Extends s { s with files := s.store bytes, writer := ⟨pos, stage⟩ } := by
  have hplace' : ({ s with files := s.store bytes, writer := ⟨pos, stage⟩ } : AsyncQueue).writerPlace = s.wpos.place := by
    unfold writerPlace
    dsimp only
    split
    · rename_i buf
      exact absurd rfl (hstage buf)
    · rfl
  refine ⟨⟨rfl, rfl, rfl, rfl⟩, fun n x hx => store_mem bytes hser hoff (hplace ▸ hx), ?_, ⟨[], ?_, ?_⟩, UInt32.le_refl _⟩
  · intro n hn
    exact (store_opens bytes n).trans hn
  · exact (List.append_nil _).symm
  · intro p es hp
    rw [hplace', List.append_nil, ← hplace]
    exact hp

theorem store_self (bytes : List UInt8) (n : Nat) (hn : n = s.writer.pos.serial.toNat) :
    (s.store bytes n).mem = Memory.writeBytes (s.files n).mem s.writer.pos.offset.toNat bytes := by
  unfold store
  rw [hn, Function.update_self]

theorem isWriterEnd_false {pos : CAsyncFilePos} {buf : Buffer} (hroom : pos.offset.toNat + 4 < maxAsyncFileSize)
    (h : ¬ isWriterEnd pos buf.bytes.length = true) :
    pos.offset.toNat + 4 + buf.bytes.length + 4 < maxAsyncFileSize := by
  have hlen := buf.room
  unfold isWriterEnd at h
  rw [decide_eq_true_eq, Nat.not_le] at h
  have hroom' : pos.offset.toNat + 4 < 10 * 2 ^ 20 := hroom
  rw [Nat.mod_eq_of_lt (by omega)] at h
  omega

theorem QueueInv.writerInput (hs : QueueInv s) {opens : Bool} {buf : Buffer} (hst : s.writer.stage = .input buf)
    (h : s.writerStep opens = some s') : Extends s s' ∧ s'.WriterOk := by
  have hw := hs.writer
  unfold WriterOk at hw
  rw [hst] at hw
  obtain ⟨hpos, hroom⟩ := hw
  have hplace : s.writerPlace = s.wpos.place := writerPlace_of_stage hst (fun _ => nofun)
  have hser : s.writer.pos.serial = s.wpos.serial := by rw [hpos]
  have hoff : s.wpos.offset.toNat ≤ s.writer.pos.offset.toNat := Nat.le_of_eq (by rw [hpos])
  have hself : ∀ bytes, (s.store bytes s.wpos.serial.toNat).mem =
      Memory.writeBytes (s.files s.wpos.serial.toNat).mem s.wpos.offset.toNat bytes := by
    intro bytes
    rw [store_self bytes _ (by rw [hpos]), hpos]
  unfold writerStep at h
  rw [hst] at h
  dsimp only at h
  split at h
  · obtain rfl := Option.some.inj h
    refine ⟨extends_store hplace hser hoff (fun _ => nofun), ?_⟩
    change EndAt (s.store (Bytes.leBytes 4 asyncFileEndFlag)) s.wpos.place
    unfold EndAt
    rw [show s.wpos.place.serial = s.wpos.serial.toNat from rfl, hself]
    exact readNat_writeNat (by decide)
  · rename_i hend
    obtain rfl := Option.some.inj h
    refine ⟨extends_store hplace hser hoff (fun _ => nofun), ?_⟩
    rw [hpos] at hend
    have hlen := buf.room
    refine ⟨by rw [hpos], isWriterEnd_false hroom hend, ?_⟩
    rw [hself]
    exact readNat_writeNat (by omega)

theorem QueueInv.writerBody (hs : QueueInv s) {opens : Bool} {buf : Buffer} (hst : s.writer.stage = .body buf)
    (h : s.writerStep opens = some s') : Extends s s' ∧ s'.WriterOk := by
  have hw := hs.writer
  unfold WriterOk at hw
  rw [hst] at hw
  obtain ⟨hpos, hroom, hlen⟩ := hw
  have hroom' : s.wpos.offset.toNat + 4 + buf.bytes.length + 4 < 10 * 2 ^ 20 := hroom
  have hplace : s.writerPlace = s.wpos.place := writerPlace_of_stage hst (fun _ => nofun)
  have hoff : s.writer.pos.offset.toNat = s.wpos.offset.toNat + 4 := by
    rw [hpos]
    exact front_toNat (by omega)
  have hser : s.writer.pos.serial = s.wpos.serial := by
    rw [hpos]
    rfl
  have hmem : (s.store buf.bytes s.wpos.serial.toNat).mem =
      Memory.writeBytes (s.files s.wpos.serial.toNat).mem (s.wpos.offset.toNat + 4) buf.bytes := by
    rw [store_self _ _ (by rw [hser]), hoff]
  unfold writerStep at h
  rw [hst] at h
  obtain rfl := Option.some.inj h
  refine ⟨extends_store hplace hser (by omega) (fun _ => nofun), ?_⟩
  change s.writer.pos.front buf.bytes.length = (s.wpos.front 4).front buf.bytes.length ∧
    RecordAt (s.store buf.bytes) s.wpos.place buf.bytes
  refine ⟨by rw [hpos], ?_, ?_, hroom⟩
  · change readNat (s.store buf.bytes s.wpos.serial.toNat).mem s.wpos.offset.toNat 4 = _
    rw [hmem, readNat_congr (fun x _ hx => writeBytes_outside (.inl hx)), hlen]
  · change readBytes (s.store buf.bytes s.wpos.serial.toNat).mem (s.wpos.offset.toNat + 4) _ = _
    rw [hmem]
    exact readBytes_writeBytes _ _ _

theorem QueueInv.writerAdvance (hs : QueueInv s) {opens : Bool} {buf : Buffer} (hst : s.writer.stage = .advance buf)
    (h : s.writerStep opens = some s') : Extends s s' ∧ s'.WriterOk := by
  have hw := hs.writer
  unfold WriterOk at hw
  rw [hst] at hw
  obtain ⟨hpos, hrec⟩ := hw
  have hroom : s.wpos.offset.toNat + 4 + buf.bytes.length + 4 < 10 * 2 ^ 20 := hrec.2.2
  have hplace : s.writerPlace = s.wpos.place := writerPlace_of_stage hst (fun _ => nofun)
  have h4 : (s.wpos.front 4).offset.toNat = s.wpos.offset.toNat + 4 := front_toNat (by omega)
  have hoff : s.writer.pos.offset.toNat = s.wpos.offset.toNat + 4 + buf.bytes.length := by
    rw [hpos, front_toNat (by rw [h4]; omega), h4]
  have hser : s.writer.pos.serial = s.wpos.serial := by
    rw [hpos]
    rfl
  unfold writerStep at h
  rw [hst] at h
  obtain rfl := Option.some.inj h
  refine ⟨⟨⟨rfl, rfl, rfl, rfl⟩, fun _ _ _ => rfl, fun _ hn => hn, ⟨_, rfl, ?_⟩, ?_⟩, rfl, ?_⟩
  · intro p es hp
    rw [hplace] at hp
    have hsnoc := hp.snoc_record hrec
    have he : s.writer.pos.place = ⟨s.wpos.place.serial, s.wpos.place.offset + 4 + buf.bytes.length⟩ := by
      unfold CAsyncFilePos.place
      rw [hoff, hser]
    change Path s.files p _ s.writer.pos.place
    rw [he]
    exact hsnoc
  · change s.wpos.serial ≤ s.writer.pos.serial
    rw [hser]
    exact UInt32.le_refl _
  · change s.writer.pos.offset.toNat + 4 < 10 * 2 ^ 20
    omega

theorem QueueInv.writerOpenNext (hs : QueueInv s) {opens : Bool} {buf : Buffer} (hst : s.writer.stage = .openNext buf)
    (hsucc : s.wpos.serial.toNat + 1 < 2 ^ 32) (h : s.writerStep opens = some s') : Extends s s' ∧ s'.WriterOk := by
  have hw := hs.writer
  unfold WriterOk at hw
  rw [hst] at hw
  have hplace : s.writerPlace = s.wpos.place := writerPlace_of_stage hst (fun _ => nofun)
  have hn : s.wpos.shift.serial.toNat = s.wpos.serial.toNat + 1 := serial_succ hsucc
  unfold writerStep at h
  rw [hst] at h
  dsimp only at h
  split at h
  · obtain rfl := Option.some.inj h
    have hmem : ∀ n x, (⟨n, x⟩ : Place).Before s.writerPlace → ((Function.update s.files s.wpos.shift.serial.toNat
        (s.files s.wpos.shift.serial.toNat).openForWriter) n).mem x = (s.files n).mem x := by
      intro n x hx
      rw [Function.update_of_ne]
      rw [hplace] at hx
      rw [hn]
      rcases hx with hx | ⟨hx, -⟩
      · exact Nat.ne_of_lt (Nat.lt_succ_of_lt hx)
      · exact Nat.ne_of_lt (Nat.lt_succ_of_le (Nat.le_of_eq hx))
    refine ⟨⟨⟨rfl, rfl, rfl, rfl⟩, hmem, ?_, ⟨[], (List.append_nil _).symm, ?_⟩, UInt32.le_refl _⟩, ?_⟩
    · intro n hopen
      by_cases he : n = s.wpos.shift.serial.toNat
      · dsimp only
        rw [he, Function.update_self]
        rfl
      · dsimp only
        rw [Function.update_of_ne he]
        exact hopen
    · intro p es hp
      rw [List.append_nil]
      rw [hplace] at hp
      exact hp
    · refine ⟨?_, ?_, hsucc, rfl⟩
      · change readNat (Function.update s.files _ _ s.wpos.serial.toNat).mem s.wpos.offset.toNat 4 = _
        rw [Function.update_of_ne (by omega)]
        exact hw
      · dsimp only
        rw [← hn, Function.update_self]
        rfl
  · obtain rfl := Option.some.inj h
    refine ⟨⟨⟨rfl, rfl, rfl, rfl⟩, fun _ _ _ => rfl, fun _ hn => hn, ⟨[], (List.append_nil _).symm, ?_⟩,
      UInt32.le_refl _⟩, trivial⟩
    intro p es hp
    rw [List.append_nil]
    rw [hplace] at hp
    exact hp

theorem QueueInv.writerShiftOffset (hs : QueueInv s) {opens : Bool} {buf : Buffer} (hst : s.writer.stage = .shiftOffset buf)
    (h : s.writerStep opens = some s') : Extends s s' ∧ s'.WriterOk := by
  have hw := hs.writer
  unfold WriterOk at hw
  rw [hst] at hw
  obtain ⟨hend, hopen, hsucc, hpos⟩ := hw
  have hplace : s.writerPlace = s.wpos.place := writerPlace_of_stage hst (fun _ => nofun)
  unfold writerStep at h
  rw [hst] at h
  obtain rfl := Option.some.inj h
  refine ⟨⟨⟨rfl, rfl, rfl, rfl⟩, fun _ _ _ => rfl, fun _ hn => hn, ⟨[], (List.append_nil _).symm, ?_⟩,
    UInt32.le_refl _⟩, rfl, hsucc, hpos⟩
  intro p es hp
  rw [List.append_nil]
  rw [hplace] at hp
  exact hp.snoc_next hend hopen

theorem QueueInv.writerShiftSerial (hs : QueueInv s) {opens : Bool} {buf : Buffer} (hst : s.writer.stage = .shiftSerial buf)
    (h : s.writerStep opens = some s') : Extends s s' ∧ s'.WriterOk := by
  have hw := hs.writer
  unfold WriterOk at hw
  rw [hst] at hw
  obtain ⟨hzero, hsucc, hpos⟩ := hw
  have hn : s.wpos.shiftSerial.serial.toNat = s.wpos.serial.toNat + 1 := serial_succ hsucc
  have hplace : s.writerPlace = s.wpos.shiftSerial.place := by
    unfold writerPlace CAsyncFilePos.place
    rw [hst, hn]
    change _ = (⟨_, s.wpos.offset.toNat⟩ : Place)
    rw [hzero]
    rfl
  unfold writerStep at h
  rw [hst] at h
  obtain rfl := Option.some.inj h
  refine ⟨⟨⟨rfl, rfl, rfl, rfl⟩, fun _ _ _ => rfl, fun _ hn => hn, ⟨[], (List.append_nil _).symm, ?_⟩, ?_⟩, ?_, ?_⟩
  · intro p es hp
    rw [List.append_nil]
    rw [hplace] at hp
    exact hp
  · change s.wpos.serial ≤ s.wpos.shiftSerial.serial
    rw [UInt32.le_iff_toNat_le, hn]
    exact Nat.le_succ _
  · change s.writer.pos = s.wpos.shiftSerial
    rw [hpos]
    unfold CAsyncFilePos.shiftSerial
    rw [hzero]
  · change s.wpos.offset.toNat + 4 < maxAsyncFileSize
    rw [hzero]
    decide

theorem QueueInv.writerExtends (hs : QueueInv s) {opens : Bool}
    (hsucc : ∀ buf, s.writer.stage = .openNext buf → s.wpos.serial.toNat + 1 < 2 ^ 32)
    (h : s.writerStep opens = some s') : Extends s s' ∧ s'.WriterOk := by
  cases hst : s.writer.stage with
  | idle =>
    unfold AsyncQueue.writerStep at h
    rw [hst] at h
    cases h
  | failed =>
    unfold AsyncQueue.writerStep at h
    rw [hst] at h
    cases h
  | input buf => exact hs.writerInput hst h
  | body buf => exact hs.writerBody hst h
  | advance buf => exact hs.writerAdvance hst h
  | openNext buf => exact hs.writerOpenNext hst (hsucc buf hst) h
  | shiftOffset buf => exact hs.writerShiftOffset hst h
  | shiftSerial buf => exact hs.writerShiftSerial hst h

theorem QueueInv.writerStep (hs : QueueInv s) {opens : Bool}
    (hsucc : ∀ buf, s.writer.stage = .openNext buf → s.wpos.serial.toNat + 1 < 2 ^ 32)
    (h : s.writerStep opens = some s') : QueueInv s' :=
  hs.extends (hs.writerExtends hsucc h).1 (hs.writerExtends hsucc h).2

theorem QueueInv.callWriteExtends (hs : QueueInv s) {buf : Buffer} (h : s.callWrite buf = some s') :
    Extends s s' ∧ s'.WriterOk := by
  unfold AsyncQueue.callWrite at h
  split at h
  · rename_i hst
    obtain rfl := Option.some.inj h
    have hw := hs.writer
    unfold WriterOk at hw
    rw [hst] at hw
    have hplace : s.writerPlace = s.wpos.place := writerPlace_of_stage hst (fun _ => nofun)
    refine ⟨⟨⟨rfl, rfl, rfl, rfl⟩, fun _ _ _ => rfl, fun _ hn => hn, ⟨[], (List.append_nil _).symm, ?_⟩,
      UInt32.le_refl _⟩, hw⟩
    intro p es hp
    rw [List.append_nil]
    rw [hplace] at hp
    exact hp
  · cases h

theorem QueueInv.callWrite (hs : QueueInv s) {buf : Buffer} (h : s.callWrite buf = some s') : QueueInv s' :=
  hs.extends (hs.callWriteExtends h).1 (hs.callWriteExtends h).2

end Writer

end AsyncQueue

end Dtc
