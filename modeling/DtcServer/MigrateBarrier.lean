import DtcServer.KeyBuilders
import DtcServer.Migration
/-!
# MigrateBarrier — the barrier of a migration and that of its key (`CTaskRequest::PrepareProcess`)

A migration names its key in packed bytes, and its task has the administration table: so the barrier hash is that of the first
four bytes, whatever the key is.
-/
namespace Dtc

/-- What `PrepareProcess` leaves of a request's key: the bytes from its pointer on, and the barrier hash. -/
structure PreparedKey where
  packedKey : List UInt8
  barHash : UInt64
  deriving DecidableEq, Repr

/-- The table of a request after `DecodeRequest`. -/
def decodeTable (tdef hotbackupTableDef : TableDef) (requestCode : RequestCode) : TableDef :=
  if requestCode = .svrAdmin then hotbackupTableDef else tdef

/-- `CalculateBarrierKey` on the finished key. -/
def TableDef.prepared (tdef : TableDef) (packedKey : List UInt8) : PreparedKey :=
  ⟨packedKey, TaskPackedKey.calculateBarrierKey tdef packedKey⟩

namespace KeyTask

variable (misread : BitVec 64 → List UInt8) (packedKeyBuf : List UInt8) (t : KeyTask)

/-- The key of a migration: a long one has a block of its own, a short one is in `packedKeyBuf`, of which only the bytes of
the table's format are cleared. -/
def migrateKey : Except ResultInfo (List UInt8) :=
  match t.conditionInfo with
  | none | some [] => .error ⟨-ecKeyNeeded, "decoder", "migrate commond"⟩
  | some [condition] =>
    let key := TaskPackedKey.keyText misread condition.val
    if 8 < key.length then .ok key
    else .ok (writeBytes (writeBytes packedKeyBuf 0 (List.replicate t.tdef.keyFormat 0)) 0 key)
  | some (_ :: _ :: _) => .error ⟨-ecServerError, "decoder", "migrate commond"⟩

/-- `PrepareProcess` of a request that is no batch, with the table that `DecodeRequest` gives it; `none` for a command
without a key. -/
def prepareProcess (adminCode : AdminCmd) : Except ResultInfo (Option PreparedKey) :=
  let t := { t with tdef := decodeTable t.tdef buildHotBackupTable t.requestCode }
  if t.requestCode = .svrAdmin then
    if adminCode = .migrate then (t.migrateKey misread packedKeyBuf).map (fun pk => some (t.tdef.prepared pk))
    else .ok none
  else (t.buildPackedKey misread).map (fun pk => some (t.tdef.prepared pk))

def Migrates (key : List UInt8) : Prop :=
  t.requestCode = .svrAdmin ∧ ∃ condition, t.conditionInfo = some [condition] ∧ condition.val = .bin key

end KeyTask

/-- The bytes and the hash are those of the other requests for a key. -/
def PreparedKey.SameAs (p q : PreparedKey) : Prop := p.packedKey.take q.packedKey.length = q.packedKey ∧ p.barHash = q.barHash

namespace TaskPackedKey

def barrierStep (h : UInt64) (c : UInt8) : UInt64 :=
  h * (11111 : UInt64) + UInt64.ofNat (c.toNat <<< 4) + UInt64.ofNat (c.toNat >>> 4)

theorem calculateBarrierKey_fixed {tdef : TableDef} {n : Nat} (hn : tdef.keyFormat = n) (h : n ≠ 0) (pkey : List UInt8) :
    calculateBarrierKey tdef pkey = (pkey.take n).foldl barrierStep 0 := by
  unfold calculateBarrierKey
  rw [hn, if_neg h]
  rfl

theorem calculateBarrierKey_text {tdef : TableDef} (h : tdef.keyFormat = 0) (pkey : List UInt8) :
    calculateBarrierKey tdef pkey = ((pkey.drop 1).take (pkey.headD 0).toNat).foldl barrierStep 0 := by
  unfold calculateBarrierKey
  rw [if_pos h]
  rfl

theorem foldl_barrierStep_zeros (bytes : List UInt8) : ∀ n,
    (List.replicate n 0 ++ bytes).foldl barrierStep 0 = bytes.foldl barrierStep 0
  | 0 => rfl
  | n + 1 => by
    rw [List.replicate_succ, List.cons_append, List.foldl_cons, show barrierStep 0 0 = 0 from rfl,
      foldl_barrierStep_zeros bytes n]

end TaskPackedKey

open TaskPackedKey

theorem writeBytes_zero (buf bytes : List UInt8) : writeBytes buf 0 bytes = bytes ++ buf.drop bytes.length := by
  rw [writeBytes, List.take_zero, List.nil_append, Nat.zero_add]

theorem KeyTask.Migrates.prepared {m : KeyTask} {key : List UInt8} (hm : m.Migrates key) (misread : BitVec 64 → List UInt8)
    (packedKeyBuf : List UInt8) : ∃ p : PreparedKey,
    m.prepareProcess misread packedKeyBuf .migrate = .ok (some p) ∧ p.packedKey.take key.length = key ∧
      p.barHash = ((key ++ List.replicate 4 0).take 4).foldl barrierStep 0 := by
  obtain ⟨hcode, condition, hcondition, hval⟩ := hm
  obtain ⟨pk, hpk, hfront, hfour⟩ : ∃ pk, ({ m with tdef := buildHotBackupTable } : KeyTask).migrateKey misread packedKeyBuf =
      .ok pk ∧ pk.take key.length = key ∧ pk.take 4 = (key ++ List.replicate 4 0).take 4 := by
    unfold KeyTask.migrateKey
    dsimp only
    rw [hcondition]
    dsimp only
    rw [hval, keyText, buildHotBackupTable_keyFormat]
    split
    · next hlong => exact ⟨key, rfl, List.take_length, (List.take_append_of_le_length (by omega)).symm⟩
    · next hshort =>
      refine ⟨_, rfl, ?_, ?_⟩
      · rw [writeBytes_zero, List.take_left]
      · rw [writeBytes_zero, writeBytes_zero, List.length_replicate, List.take_append, List.take_append, List.drop_append,
          List.take_append_of_le_length (by rw [List.length_drop, List.length_replicate]), List.drop_replicate,
          List.take_replicate, List.take_replicate]
        congr 2
        omega
  refine ⟨buildHotBackupTable.prepared pk, ?_, hfront, ?_⟩
  · unfold KeyTask.prepareProcess decodeTable
    dsimp only
    rw [if_pos hcode, if_pos hcode, if_pos rfl, hpk]
    rfl
  · rw [← hfour, TableDef.prepared, calculateBarrierKey_fixed buildHotBackupTable_keyFormat (by decide)]

theorem KeyTask.prepareProcess_key {t : KeyTask} {adminCode : AdminCmd} {misread : BitVec 64 → List UInt8}
    {packedKeyBuf pk : List UInt8} (hcode : t.requestCode ≠ .svrAdmin) (hpk : t.buildPackedKey misread = .ok pk) :
    t.prepareProcess misread packedKeyBuf adminCode = .ok (some (t.tdef.prepared pk)) := by
  unfold prepareProcess decodeTable
  dsimp only
  rw [if_neg hcode, if_neg hcode]
  exact congrArg (Except.map _) hpk

def migrationOf (tdef : TableDef) (key : List UInt8) : KeyTask where
  tdef := tdef
  requestCode := .svrAdmin
  conditionInfo := some [⟨2, 0, FieldType.binary.code, .bin key⟩]

theorem exists_barrier_ne {tdef : TableDef} (h4 : tdef.keyFormat ≠ 4) : ∃ pk : PackedKey tdef.keyFormat,
    ((pk.bytes ++ List.replicate 4 0).take 4).foldl barrierStep 0 ≠ calculateBarrierKey tdef pk.bytes := by
  by_cases h0 : tdef.keyFormat = 0
  · -- the text of one byte 0, with the length in front
    refine ⟨⟨[1, 0], by rw [h0]; rfl⟩, ?_⟩
    rw [calculateBarrierKey_text h0]
    exact (by decide : (([1, 0] ++ List.replicate 4 (0 : UInt8)).take 4).foldl barrierStep 0 ≠
      ((([1, 0] : List UInt8).drop 1).take 1).foldl barrierStep 0)
  · -- the key 0 … 0 1
    have hlen : (List.replicate (tdef.keyFormat - 1) (0 : UInt8) ++ [1]).length = tdef.keyFormat := by
      rw [List.length_append, List.length_replicate, List.length_singleton]
      omega
    refine ⟨⟨List.replicate (tdef.keyFormat - 1) 0 ++ [1], by rw [packedKeySize, if_pos h0, hlen]⟩, ?_⟩
    rw [calculateBarrierKey_fixed rfl h0]
    dsimp only
    rw [List.take_of_length_le (Nat.le_of_eq hlen), foldl_barrierStep_zeros]
    by_cases hlong : 4 < tdef.keyFormat
    · have hzeros : ((List.replicate (tdef.keyFormat - 1) (0 : UInt8) ++ [1]) ++ List.replicate 4 0).take 4 =
          List.replicate 4 0 := by
        rw [List.append_assoc, List.take_append_of_le_length (by rw [List.length_replicate]; omega), List.take_replicate,
          Nat.min_eq_left (by omega)]
      rw [hzeros]
      decide
    · obtain h | h | h : tdef.keyFormat = 1 ∨ tdef.keyFormat = 2 ∨ tdef.keyFormat = 3 := by omega
      all_goals rw [h]; decide

/-- **A migration waits behind the requests for its key, exactly when the key has four bytes.**  A request that builds a key
has its bytes and their hash; a migration of the key has these for every key of the table when the table's format is that
of the administration table, and for no other format. -/
theorem migrate_barrier (tdef : TableDef) (misread : BitVec 64 → List UInt8) :
    (∀ (t : KeyTask) (adminCode : AdminCmd) (packedKeyBuf pk : List UInt8), t.tdef = tdef → t.requestCode ≠ .svrAdmin →
      t.buildPackedKey misread = .ok pk →
      t.prepareProcess misread packedKeyBuf adminCode = .ok (some (tdef.prepared pk))) ∧
    ((∀ (pk : PackedKey tdef.keyFormat) (m : KeyTask) (packedKeyBuf : List UInt8), m.Migrates pk.bytes →
        ∃ p, m.prepareProcess misread packedKeyBuf .migrate = .ok (some p) ∧ p.SameAs (tdef.prepared pk.bytes)) ↔
      tdef.keyFormat = 4) := by
  refine ⟨?_, ?_, ?_⟩
  · rintro t adminCode packedKeyBuf pk rfl hcode hpk
    exact KeyTask.prepareProcess_key hcode hpk
  · intro hsame
    by_contra h4
    obtain ⟨pk, hne⟩ := exists_barrier_ne h4
    have hm : (migrationOf tdef pk.bytes).Migrates pk.bytes := ⟨rfl, _, rfl, rfl⟩
    obtain ⟨p, hp, -, hhash⟩ := hsame pk _ (List.replicate 8 0) hm
    obtain ⟨p', hp', -, hhash'⟩ := hm.prepared misread (List.replicate 8 0)
    obtain rfl : p = p' := Option.some.inj (Except.ok.inj (hp.symm.trans hp'))
    exact hne (hhash'.symm.trans hhash)
  · intro h4 pk m packedKeyBuf hm
    obtain ⟨p, hp, hfront, hhash⟩ := hm.prepared misread packedKeyBuf
    have hlen : pk.bytes.length = 4 := by
      refine pk.size.trans ?_
      rw [packedKeySize, if_pos (by omega)]
      exact h4
    refine ⟨p, hp, hfront, hhash.trans ?_⟩
    rw [TableDef.prepared, calculateBarrierKey_fixed h4 (by decide), List.take_append_of_le_length (by omega)]

def uintKey (size : Nat) : TableDef where
  fieldList := [{ fieldName := [], fieldType := .unsigned, fieldSize := size }]
  keyFields := 1
  keyFormat := size

/-- The key 2^32 of eight bytes: a read hashes its fifth byte, a migration four zeros. -/
theorem migrate_barrier_eightBytes :
    ({ tdef := uintKey 8, requestCode := .get, key := some (.word 0x100000000) } : KeyTask).prepareProcess (fun _ => [])
        (List.replicate 8 0) (.unknown 0) = .ok (some ⟨[0, 0, 0, 0, 1, 0, 0, 0], 21947215370096⟩) ∧
      (migrationOf (uintKey 8) [0, 0, 0, 0, 1, 0, 0, 0]).prepareProcess (fun _ => []) (List.replicate 8 0) .migrate =
        .ok (some ⟨[0, 0, 0, 0, 1, 0, 0, 0], 0⟩) := by
  decide +kernel

/-- The key 7 of four bytes, in a buffer that another key has left. -/
theorem migrate_barrier_fourBytes : ∃ p, (migrationOf (uintKey 4) [7, 0, 0, 0]).prepareProcess (fun _ => [])
      [9, 9, 9, 9, 9, 9, 9, 9] .migrate = .ok (some p) ∧ p.SameAs ((uintKey 4).prepared [7, 0, 0, 0]) :=
  (migrate_barrier (uintKey 4) (fun _ => [])).2.mpr rfl ⟨[7, 0, 0, 0], rfl⟩ _ _ ⟨rfl, _, rfl, rfl⟩

end Dtc
