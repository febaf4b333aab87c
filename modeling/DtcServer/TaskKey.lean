import DtcServer.Protocol
/-!
# TaskKey — the packed key of a task and its barrier hash (`task_pkey`, `task_request`)

A request carries its key packed into bytes; the barrier hash is computed from these bytes once, when the request is
prepared.  `updatePackedKey` rebuilds the bytes later, when the database has assigned an auto-increment key.
-/
namespace Dtc

/-- The size of a packed key: fixed, or in the key's first byte. -/
def packedKeySize (keySize : Nat) (key : List UInt8) : Nat :=
  if keySize ≠ 0 then keySize else 1 + (key.headD 0).toNat

/-- A packed key, as long as its format says. -/
structure PackedKey (keySize : Nat) where
  bytes : List UInt8
  size : bytes.length = packedKeySize keySize bytes
  deriving DecidableEq, Repr

/-- The low `size` bytes of `val`, lowest first. -/
def valueBytes (val : UInt64) (size : Nat) : List UInt8 :=
  (List.range size).map (fun i => (val >>> UInt64.ofNat (8 * i)).toUInt8)

/-- `buf` with `bytes` written at offset `p`. -/
def writeBytes (buf : List UInt8) (p : Nat) (bytes : List UInt8) : List UInt8 :=
  buf.take p ++ bytes ++ buf.drop (p + bytes.length)

namespace TaskPackedKey

def intoff : List UInt64 :=
  [0x0000000000000080, 0x0000000000008000, 0x0000000000800000, 0x0000000080000000,
   0x0000008000000000, 0x0000800000000000, 0x0080000000000000, 0x0000000000000000,
   0, 0, 0, 0, 0, 0, 0, 0]

def intmask : List UInt64 :=
  [0xFFFFFFFFFFFFFF00, 0xFFFFFFFFFFFF0000, 0xFFFFFFFFFF000000, 0xFFFFFFFF00000000,
   0xFFFFFF0000000000, 0xFFFF000000000000, 0xFF00000000000000, 0x0000000000000000]

/-- `StoreValue`: an integer of `size` bytes at offset `p` of the key, `none` when it overflows. -/
def storeValue (buf : List UInt8) (p : Nat) (val : UInt64) (type : FieldType) (size : Nat) : Option (List UInt8) :=
  if (val + intoff.getD (type.code * 8 + size - 9) 0) &&& intmask.getD (size - 1) 0 ≠ 0 then none
  else some (writeBytes buf p (valueBytes val size))

/-- `CalculateBarrierKey`: the hash of the key's bytes; a string key has its length in the first byte. -/
def calculateBarrierKey (tdef : TableDef) (pkey : List UInt8) : UInt64 :=
  let bytes := if tdef.keyFormat = 0 then (pkey.drop 1).take (pkey.headD 0).toNat else pkey.take tdef.keyFormat
  bytes.foldl (fun (h : UInt64) c => h * (11111 : UInt64) + UInt64.ofNat (c.toNat <<< 4) + UInt64.ofNat (c.toNat >>> 4)) 0

end TaskPackedKey

/-- `CTaskRequest`, the part the barrier and the key rebuild read and write. -/
structure TaskRequest where
  tdef : TableDef
  requestCode : RequestCode
  adminCode : AdminCmd := .unknown 0
  /-- `batchKey != NULL` -/
  isBatchRequest : Bool := false
  /-- empty for a task without a packed key -/
  packedKey : List UInt8 := []
  multiKey : Option (List UInt64) := none
  barHash : UInt64 := 0
  resultInfo : ResultInfo := {}
  deriving DecidableEq, Repr

namespace TaskRequest

def barrierKey (t : TaskRequest) : UInt64 := t.barHash

def setError (t : TaskRequest) (err : Int) (errFrom msg : String) : TaskRequest :=
  { t with resultInfo := ⟨err, errFrom, msg⟩ }

/-- `UpdatePackedKey`: the auto-increment component of the key gets the value the database assigned. -/
def updatePackedKey (t : TaskRequest) (val : UInt64) : TaskRequest :=
  let id := t.tdef.hasAutoInc
  if 0 ≤ id ∧ id < t.tdef.keyFields then
    let t := { t with multiKey := t.multiKey.map (fun (mk : List UInt64) => mk.set id.toNat val) }
    match TaskPackedKey.storeValue t.packedKey (t.tdef.fieldOffset id.toNat) val (t.tdef.fieldType id.toNat)
        (t.tdef.fieldSize id.toNat) with
    | none => t.setError (-ecKeyNeeded) "key verify" "int key value overflow"
    | some packedKey => { t with packedKey }
  else t

theorem updatePackedKey_frame (t : TaskRequest) (val : UInt64) :
    (t.updatePackedKey val).barHash = t.barHash ∧ (t.updatePackedKey val).requestCode = t.requestCode ∧
      (t.updatePackedKey val).adminCode = t.adminCode ∧
      (t.updatePackedKey val).isBatchRequest = t.isBatchRequest := by
  unfold updatePackedKey
  dsimp only
  split
  · split
    · simp [setError]
    · simp
  · simp

end TaskRequest

end Dtc
