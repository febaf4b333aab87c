import DtcServer.AsyncFilePath
import DtcServer.ValueCodec
/-!
# AsyncFileWrite — a call of `Write` (`CAsyncFileWriter`) and the records it is given (`CIncSyncKey`)

Where a record does not fit into the rest of a file, `Write` goes on to the next file and calls itself.  A file is shorter than
what a packet may hold.
-/
namespace Dtc

open Memory Bytes

/-- A row of the master's reply, which fits into a packet. -/
structure UpdateKey where
  type : BitVec 32
  flag : BitVec 32
  key : List UInt8
  value : List UInt8
  key_le : key.length ≤ 255
  value_le : value.length ≤ maxPacketSize

namespace UpdateKey

variable (r : UpdateKey) (journalId : BitVec 64)

/-- `ENCODE_FIELDS_TO_BUFF` -/
def encodeFields : List UInt8 :=
  leBytes 8 journalId.toNat ++ leBytes 4 r.type.toNat ++ leBytes 4 r.flag.toNat ++ leBytes 4 r.key.length ++ r.key ++
    leBytes 4 r.value.length ++ r.value

theorem length_encodeFields : (r.encodeFields journalId).length = 24 + r.key.length + r.value.length := by
  simp only [encodeFields, List.length_append, length_leBytes]
  omega

theorem length_encodeFields_lt : (r.encodeFields journalId).length < 2 ^ 27 := by
  have hkey := r.key_le
  have hvalue : r.value.length ≤ 64 * 2 ^ 20 := r.value_le
  rw [length_encodeFields]
  omega

def buffer : Buffer := ⟨r.encodeFields journalId, Nat.lt_trans (r.length_encodeFields_lt journalId) (by decide)⟩

end UpdateKey

namespace AsyncQueue

/-- So many steps of `Write`; `opens` says for each step whether a file could be opened. -/
def writes : Nat → (Nat → Bool) → AsyncQueue → Option AsyncQueue
  | 0, _, s => some s
  | k + 1, opens, s => (s.writerStep (opens 0)).bind (writes k fun i => opens (i + 1))

/-- `Write` is about to open the next file. -/
def opening (s : AsyncQueue) : Nat :=
  match s.writer.stage with
  | .openNext _ => 1
  | _ => 0

def switches : Nat → (Nat → Bool) → AsyncQueue → Nat
  | 0, _, _ => 0
  | k + 1, opens, s => s.opening + ((s.writerStep (opens 0)).map (switches k fun i => opens (i + 1))).getD 0

/-- What the next step stores in the mapped file is inside the file. -/
def StoresInside (s : AsyncQueue) : Prop :=
  match s.writer.stage with
  | .input _ => s.writer.pos.offset.toNat + 4 ≤ maxAsyncFileSize
  | .body buf => s.writer.pos.offset.toNat + buf.bytes.length ≤ maxAsyncFileSize
  | _ => True

/-- `Write` has returned: an error, or the record is in a file. -/
def Returned (written : List QueueRecord) (buf : Buffer) (t : AsyncQueue) : Prop :=
  t.writer.stage = .failed ∨
    t.writer.stage = .idle ∧ ∃ p, t.written = written ++ [⟨p, buf.bytes⟩] ∧ RecordAt t.files p buf.bytes

/-- **`Write` returns** after at most `n` switches, and stores inside the file. -/
structure WriteReturns (n : Nat) (opens : Nat → Bool) (written : List QueueRecord) (buf : Buffer) (s : AsyncQueue) : Prop where
  returns : ∃ k t, s.writes k opens = some t ∧ s.switches k opens ≤ n ∧ Returned written buf t
  inside : ∀ k t, s.writes k opens = some t → t.StoresInside

/-- **A call of `Write`** stores the record or returns an error, whatever files can be opened. -/
def WriteOk (s : AsyncQueue) (buf : Buffer) : Prop :=
  ∃ t, s.callWrite buf = some t ∧ ∀ opens, WriteReturns 1 opens s.written buf t

section Returns

variable {n : Nat} {opens : Nat → Bool} {written : List QueueRecord} {buf : Buffer} {s t : AsyncQueue}

theorem WriteReturns.of_returned (h : Returned written buf s) : WriteReturns n opens written buf s := by
  have hstep : s.writerStep (opens 0) = none := by
    unfold writerStep
    rcases h with h | ⟨h, -⟩ <;> rw [h]
  refine ⟨⟨0, s, rfl, Nat.zero_le _, h⟩, fun k t ht => ?_⟩
  cases k with
  | zero =>
    obtain rfl := Option.some.inj ht
    unfold StoresInside
    rcases h with h | ⟨h, -⟩ <;> rw [h] <;> trivial
  | succ k =>
    rw [writes, hstep] at ht
    cases ht

theorem WriteReturns.of_zero (h : WriteReturns 0 opens written buf s) : WriteReturns n opens written buf s := by
  obtain ⟨⟨k, t, ht, hk, hreturned⟩, hinside⟩ := h
  exact ⟨⟨k, t, ht, Nat.le_trans hk (Nat.zero_le n), hreturned⟩, hinside⟩

theorem WriteReturns.of_step {m : Nat} (opens : Nat → Bool) (hinside : s.StoresInside) (hcount : s.opening + n ≤ m)
    (hstep : s.writerStep (opens 0) = some t) (h : WriteReturns n (fun i => opens (i + 1)) written buf t) :
    WriteReturns m opens written buf s := by
  obtain ⟨⟨k, u, hu, hn, hreturned⟩, hrest⟩ := h
  refine ⟨⟨k + 1, u, ?_, ?_, hreturned⟩, fun k v hv => ?_⟩
  · rw [writes, hstep]
    exact hu
  · rw [switches, hstep]
    exact Nat.le_trans (Nat.add_le_add_left hn _) hcount
  · cases k with
    | zero =>
      obtain rfl := Option.some.inj hv
      exact hinside
    | succ k =>
      rw [writes, hstep] at hv
      exact hrest k v hv

end Returns

section Fits

variable {n : Nat} {written : List QueueRecord} {buf : Buffer} {s : AsyncQueue}

theorem recordAt_stored {f : AsyncFile} {files : Nat → AsyncFile} {p : Place} {bytes : List UInt8}
    (hroom : p.offset + 4 + bytes.length + 4 < maxAsyncFileSize)
    (h : (files p.serial).mem = Memory.writeBytes (Memory.writeBytes f.mem p.offset (leBytes 4 bytes.length)) (p.offset + 4) bytes) :
    RecordAt files p bytes := by
  have hroom' : p.offset + 4 + bytes.length + 4 < 10 * 2 ^ 20 := hroom
  refine ⟨?_, ?_, hroom⟩
  · rw [h, readNat_congr (fun x _ hx => writeBytes_outside (.inl hx))]
    exact readNat_writeNat (by omega)
  · rw [h]
    exact readBytes_writeBytes _ _ _

theorem writeReturns_of_fits (hw : s.writer = ⟨s.wpos, .input buf⟩)
    (hfits : s.wpos.offset.toNat + 4 + buf.bytes.length + 4 < maxAsyncFileSize) (opens : Nat → Bool) :
    WriteReturns 0 opens s.written buf s := by
  have hfits' : s.wpos.offset.toNat + 4 + buf.bytes.length + 4 < 10 * 2 ^ 20 := hfits
  have hend : isWriterEnd s.wpos buf.bytes.length = false := by
    unfold isWriterEnd
    rw [decide_eq_false_iff_not, Nat.mod_eq_of_lt (by omega)]
    omega
  have h4 : (s.wpos.front 4).offset.toNat = s.wpos.offset.toNat + 4 := front_toNat (by omega)
  let s₁ : AsyncQueue := { s with
    files := s.store (leBytes 4 buf.bytes.length)
    writer := ⟨s.wpos.front 4, .body buf⟩ }
  let s₂ : AsyncQueue := { s₁ with
    files := s₁.store buf.bytes
    writer := ⟨(s.wpos.front 4).front buf.bytes.length, .advance buf⟩ }
  let s₃ : AsyncQueue := { s₂ with
    wpos := s₂.writer.pos
    writer := ⟨s₂.writer.pos, .idle⟩
    written := s.written ++ [⟨s.wpos.place, buf.bytes⟩] }
  have hstep₁ : s.writerStep (opens 0) = some s₁ := by
    unfold writerStep
    rw [hw]
    dsimp only
    rw [hend, if_neg Bool.false_ne_true]
  have hmem : (s₂.files s.wpos.serial.toNat).mem =
      Memory.writeBytes (Memory.writeBytes (s.files s.wpos.serial.toNat).mem s.wpos.offset.toNat (leBytes 4 buf.bytes.length))
        (s.wpos.offset.toNat + 4) buf.bytes := by
    have h₁ : (s₁.files s.wpos.serial.toNat).mem =
        Memory.writeBytes (s.files s.wpos.serial.toNat).mem s.wpos.offset.toNat (leBytes 4 buf.bytes.length) := by
      refine (store_self (s := s) (leBytes 4 buf.bytes.length) s.wpos.serial.toNat (by rw [hw])).trans ?_
      rw [hw]
    refine (store_self (s := s₁) buf.bytes s.wpos.serial.toNat rfl).trans ?_
    rw [h₁]
    exact congrArg (fun a => Memory.writeBytes _ a buf.bytes) h4
  have hrecord : RecordAt s₃.files s.wpos.place buf.bytes := recordAt_stored hfits hmem
  have hreturned : Returned s.written buf s₃ := .inr ⟨rfl, s.wpos.place, rfl, hrecord⟩
  have hinside : s.StoresInside := by
    unfold StoresInside
    rw [hw]
    dsimp only
    omega
  have hinside₁ : s₁.StoresInside := by
    show (s.wpos.front 4).offset.toNat + buf.bytes.length ≤ maxAsyncFileSize
    rw [h4]
    omega
  have hopening : s.opening = 0 := by
    unfold opening
    rw [hw]
  have h₂ : WriteReturns 0 (fun i => opens (i + 2)) s.written buf s₂ :=
    WriteReturns.of_step _ trivial (Nat.le_refl 0) rfl (WriteReturns.of_returned (n := 0) hreturned)
  have h₁ : WriteReturns 0 (fun i => opens (i + 1)) s.written buf s₁ :=
    WriteReturns.of_step _ hinside₁ (Nat.le_refl 0) rfl h₂
  exact WriteReturns.of_step opens hinside (Nat.le_of_eq hopening) hstep₁ h₁

theorem writeReturns_of_switch (hw : s.writer = ⟨s.wpos, .input buf⟩)
    (hend : isWriterEnd s.wpos buf.bytes.length = true) (hflag : s.wpos.offset.toNat + 4 ≤ maxAsyncFileSize)
    (hfits : buf.bytes.length + 8 < maxAsyncFileSize) (opens : Nat → Bool) : WriteReturns 1 opens s.written buf s := by
  let s₁ : AsyncQueue := { s with
    files := s.store (leBytes 4 asyncFileEndFlag)
    writer := ⟨s.wpos.front 4, .openNext buf⟩ }
  have hstep₁ : s.writerStep (opens 0) = some s₁ := by
    unfold writerStep
    rw [hw]
    dsimp only
    rw [hend, if_pos rfl]
  have hinside : s.StoresInside := by
    unfold StoresInside
    rw [hw]
    exact hflag
  have hopening : s.opening = 0 := by
    unfold opening
    rw [hw]
  have h₁ : WriteReturns 1 (fun i => opens (i + 1)) s.written buf s₁ := by
    by_cases hopens : opens 1 = true
    · let s₂ : AsyncQueue := { s₁ with
        files := Function.update s₁.files s.wpos.shift.serial.toNat (s₁.files s.wpos.shift.serial.toNat).openForWriter
        writer := ⟨s.wpos.shift, .shiftOffset buf⟩ }
      let s₃ : AsyncQueue := { s₂ with
        wpos := s.wpos.shiftOffset
        writer := ⟨s.wpos.shift, .shiftSerial buf⟩ }
      let s₄ : AsyncQueue := { s₃ with
        wpos := s.wpos.shift
        writer := ⟨s.wpos.shift, .input buf⟩ }
      have hstep₂ : s₁.writerStep (opens 1) = some s₂ := by
        unfold writerStep
        dsimp only [s₁]
        rw [if_pos hopens]
      have hroom : s₄.wpos.offset.toNat + 4 + buf.bytes.length + 4 < maxAsyncFileSize := by
        show 0 + 4 + buf.bytes.length + 4 < maxAsyncFileSize
        omega
      have h₄ := writeReturns_of_fits (s := s₄) rfl hroom (fun i => opens (i + 4))
      have h₃ : WriteReturns 0 (fun i => opens (i + 3)) s.written buf s₃ :=
        WriteReturns.of_step _ trivial (Nat.le_refl 0) rfl h₄
      have h₂ : WriteReturns 0 (fun i => opens (i + 2)) s.written buf s₂ :=
        WriteReturns.of_step _ trivial (Nat.le_refl 0) rfl h₃
      exact WriteReturns.of_step _ trivial (Nat.le_refl 1) hstep₂ h₂
    · have hstep₂ : s₁.writerStep (opens 1) = some { s₁ with writer := ⟨s₁.writer.pos, .failed⟩ } := by
        unfold writerStep
        dsimp only [s₁]
        rw [if_neg hopens]
      have hfailed : WriteReturns 0 (fun i => opens (i + 2)) s.written buf { s₁ with writer := ⟨s₁.writer.pos, .failed⟩ } :=
        WriteReturns.of_returned (.inl rfl)
      exact WriteReturns.of_step _ trivial (Nat.le_refl 1) hstep₂ hfailed
  have hcount : s.opening + 1 ≤ 1 := Nat.le_of_eq (by rw [hopening])
  exact WriteReturns.of_step opens hinside hcount hstep₁ h₁

end Fits

section Spins

/-- `Write` has a record that fits into no file. -/
def Spins (buf : Buffer) (t : AsyncQueue) : Prop :=
  match t.writer.stage with
  | .input b => b = buf ∧ isWriterEnd t.writer.pos buf.bytes.length = true
  | .openNext b => b = buf
  | .shiftOffset b | .shiftSerial b => b = buf ∧ t.writer.pos.offset = 0
  | _ => False

variable {buf : Buffer} {s : AsyncQueue}

theorem Spins.step (hlong : maxAsyncFileSize ≤ buf.bytes.length + 8) (hlt : buf.bytes.length + 8 < 2 ^ 32) (h : Spins buf s) :
    ∃ t, s.writerStep true = some t ∧ Spins buf t := by
  unfold Spins at h
  unfold writerStep
  cases hst : s.writer.stage with
  | idle | body b | advance b | failed =>
    rw [hst] at h
    exact h.elim
  | input b =>
    rw [hst] at h
    obtain ⟨rfl, hend⟩ := h
    dsimp only
    rw [hend, if_pos rfl]
    exact ⟨_, rfl, rfl⟩
  | openNext b =>
    rw [hst] at h
    exact ⟨_, rfl, h, rfl⟩
  | shiftOffset b =>
    rw [hst] at h
    exact ⟨_, rfl, h⟩
  | shiftSerial b =>
    rw [hst] at h
    obtain ⟨rfl, hzero⟩ := h
    refine ⟨_, rfl, rfl, ?_⟩
    unfold isWriterEnd
    dsimp only
    rw [hzero, decide_eq_true_eq, UInt32.toNat_zero, Nat.mod_eq_of_lt (by omega)]
    omega

theorem Spins.writes (hlong : maxAsyncFileSize ≤ buf.bytes.length + 8) (hlt : buf.bytes.length + 8 < 2 ^ 32) :
    ∀ (k : Nat) {s : AsyncQueue}, Spins buf s → ∃ t, s.writes k (fun _ => true) = some t ∧ Spins buf t
  | 0, s, h => ⟨s, rfl, h⟩
  | k + 1, s, h => by
    obtain ⟨t, ht, h⟩ := h.step hlong hlt
    obtain ⟨u, hu, h⟩ := Spins.writes hlong hlt k h
    refine ⟨u, ?_, h⟩
    rw [AsyncQueue.writes, ht]
    exact hu

theorem Spins.not_returned {written : List QueueRecord} (h : Spins buf s) : ¬ Returned written buf s := by
  unfold Spins at h
  rintro (hst | ⟨hst, -⟩) <;> rw [hst] at h <;> exact h

end Spins

theorem callWrite_rest {s : AsyncQueue} (h : s.writer = { pos := s.wpos }) (buf : Buffer) :
    s.callWrite buf = some { s with writer := ⟨s.wpos, .input buf⟩ } := by
  unfold callWrite
  rw [h]

theorem spins_of_long {s : AsyncQueue} {buf : Buffer} (hflag : s.wpos.offset.toNat + 4 ≤ maxAsyncFileSize)
    (hlong : maxAsyncFileSize ≤ buf.bytes.length + 8) (hlt : buf.bytes.length < 2 ^ 27) :
    Spins buf { s with writer := ⟨s.wpos, .input buf⟩ } := by
  have hflag' : s.wpos.offset.toNat + 4 ≤ 10 * 2 ^ 20 := hflag
  refine ⟨rfl, ?_⟩
  unfold isWriterEnd
  dsimp only
  rw [decide_eq_true_eq, Nat.mod_eq_of_lt (by omega)]
  omega

/-- **When a call of `Write` returns**: the end flag fits behind the position, and the record into an empty file. -/
theorem writeOk_iff {s : AsyncQueue} (h : s.writer = { pos := s.wpos }) (journalId : BitVec 64) (r : UpdateKey) :
    s.WriteOk (r.buffer journalId) ↔
      s.wpos.offset.toNat + 4 ≤ maxAsyncFileSize ∧ 24 + r.key.length + r.value.length + 8 < maxAsyncFileSize := by
  have hlen : (r.buffer journalId).bytes.length = 24 + r.key.length + r.value.length := r.length_encodeFields journalId
  have hlt : (r.buffer journalId).bytes.length < 2 ^ 27 := r.length_encodeFields_lt journalId
  generalize r.buffer journalId = buf at hlen hlt ⊢
  rw [← hlen]
  constructor
  · rintro ⟨t, ht, hok⟩
    obtain rfl := Option.some.inj ((callWrite_rest h buf).symm.trans ht)
    have hflag : s.wpos.offset.toNat + 4 ≤ maxAsyncFileSize := (hok fun _ => true).inside 0 _ rfl
    refine ⟨hflag, Nat.lt_of_not_le fun hlong => ?_⟩
    obtain ⟨k, u, hu, -, hreturned⟩ := (hok fun _ => true).returns
    obtain ⟨v, hv, hspins⟩ := (spins_of_long hflag hlong hlt).writes hlong (by omega) k
    obtain rfl := Option.some.inj (hu.symm.trans hv)
    exact hspins.not_returned hreturned
  · rintro ⟨hflag, hfits⟩
    refine ⟨_, callWrite_rest h buf, fun opens => ?_⟩
    let t : AsyncQueue := { s with writer := ⟨s.wpos, .input buf⟩ }
    cases hend : isWriterEnd s.wpos buf.bytes.length with
    | true => exact writeReturns_of_switch (s := t) rfl hend hflag hfits opens
    | false =>
      have hflag' : s.wpos.offset.toNat + 4 ≤ 10 * 2 ^ 20 := hflag
      unfold isWriterEnd at hend
      rw [decide_eq_false_iff_not, Nat.mod_eq_of_lt (by omega)] at hend
      have hroom : t.wpos.offset.toNat + 4 + buf.bytes.length + 4 < maxAsyncFileSize := by
        show s.wpos.offset.toNat + 4 + buf.bytes.length + 4 < maxAsyncFileSize
        omega
      exact (writeReturns_of_fits (s := t) rfl hroom opens).of_zero

def emptyQueue : AsyncQueue :=
  let none : AsyncFile := { linked := false, size := 0, mem := fun _ => 0 }
  { files := Function.update (fun _ => none) 0 none.openForWriter
    rpos := ⟨0, 0⟩, wpos := ⟨0, 0⟩, writer := { pos := ⟨0, 0⟩ }, reader := { pos := ⟨0, 0⟩ } }

theorem writeOk_short : emptyQueue.WriteOk (UpdateKey.buffer ⟨0, 0, [1], [2, 3], by decide, by decide⟩ 7) :=
  (writeOk_iff rfl 7 ⟨0, 0, [1], [2, 3], by decide, by decide⟩).mpr ⟨by decide, by decide⟩

def longValue : UpdateKey where
  type := 0
  flag := 0
  key := []
  value := List.replicate maxAsyncFileSize 0
  key_le := Nat.zero_le _
  value_le := by
    rw [List.length_replicate]
    decide

/-- **`Write` never returns** with this value: it opens file after file. -/
theorem writeOk_longValue : ¬ emptyQueue.WriteOk (longValue.buffer 0) ∧
    ∃ t, emptyQueue.callWrite (longValue.buffer 0) = some t ∧
      ∀ k, ∃ u, t.writes k (fun _ => true) = some u ∧ ¬ Returned [] (longValue.buffer 0) u := by
  have hlen : (longValue.buffer 0).bytes.length = 24 + 0 + maxAsyncFileSize := by
    have h := longValue.length_encodeFields 0
    rw [show longValue.value.length = maxAsyncFileSize from List.length_replicate] at h
    exact h
  have hlong : maxAsyncFileSize ≤ (longValue.buffer 0).bytes.length + 8 := by omega
  have hlt : (longValue.buffer 0).bytes.length < 2 ^ 27 := longValue.length_encodeFields_lt 0
  have hflag : emptyQueue.wpos.offset.toNat + 4 ≤ maxAsyncFileSize := by decide
  have hspins := spins_of_long hflag hlong hlt
  have hcall := callWrite_rest (s := emptyQueue) rfl (longValue.buffer 0)
  have hruns : ∀ k, ∃ u, AsyncQueue.writes k (fun _ => true)
      { emptyQueue with writer := ⟨emptyQueue.wpos, .input (longValue.buffer 0)⟩ } = some u ∧ ¬ Returned [] (longValue.buffer 0) u := by
    intro k
    obtain ⟨u, hu, hspins⟩ := hspins.writes hlong (by omega) k
    exact ⟨u, hu, hspins.not_returned⟩
  refine ⟨?_, _, hcall, hruns⟩
  rintro ⟨t, ht, hok⟩
  obtain rfl := Option.some.inj (hcall.symm.trans ht)
  obtain ⟨k, u, hu, -, hreturned⟩ := (hok fun _ => true).returns
  obtain ⟨v, hv, hnot⟩ := hruns k
  obtain rfl := Option.some.inj (hu.symm.trans hv)
  exact hnot hreturned

end AsyncQueue

end Dtc
