import DtcServer.Protocol
import DtcServer.Bytes
import Mathlib.Data.List.Basic
/-!
# MultiKey — the key list of a batch request (`CArray`, `PrepareProcess`, `DecodeKeyList`)

A batch request names its key fields and lists the keys' values in arrays of length-prefixed entries.  `PrepareProcess`
checks the names and types, `DecodeKeyList` reads the names again and then the values.
-/
namespace Dtc

open Bytes (leNat)

/-- `CBinary`: a length and the memory from its pointer on. -/
structure CBinary where
  len : Int
  mem : List UInt8
  deriving DecidableEq, Repr

/-- `CArray`: the bytes it still holds, and the memory behind them. -/
structure CArray where
  bytes : List UInt8
  mem : List UInt8
  /-- `len` is an `int` -/
  int_len : bytes.length < 2 ^ 31
  deriving Repr

namespace CArray

def len (a : CArray) : Nat := a.bytes.length

def advance (a : CArray) (n : Nat) : CArray :=
  ⟨a.bytes.drop n, a.mem, by have := a.int_len; rw [List.length_drop]; omega⟩

/-- `Get` of a one-byte or eight-byte number. -/
def getInt (a : CArray) (size : Nat) : Option (Nat × CArray) :=
  if a.len < size then none else some (leNat size a.bytes, a.advance size)

/-- `Get` of a length-prefixed entry.  The prefix is read into an `int`, and the length it is compared with is a sum of
64 bits. -/
def getBin (a : CArray) : Option (CBinary × CArray) :=
  if a.len < 4 then none
  else
    let binLen := toInt32 (leNat 4 a.bytes)
    if (a.len : Int) < (4 + binLen) % 2 ^ 64 then none
    else some (⟨binLen, a.bytes.drop 4 ++ a.mem⟩, a.advance (4 + binLen).toNat)

end CArray

/-- The name at a pointer: the bytes before the first null. -/
def cString (mem : List UInt8) : List UInt8 := mem.takeWhile (· ≠ 0)

/-- A component of a key: `CValue` with the member its field type uses. -/
inductive CValue where
  | u64 (n : Nat)
  | bin (b : CBinary)
  deriving DecidableEq, Repr

/-- A `Get` that returned 0: the array before, the slice it gave (offset and length) and the array after. -/
structure GetRecord where
  before : CArray
  offset : Nat
  length : Int
  after : CArray

/-- A batch request as it comes from the packet: the flag, the tags 10 to 13 of the version section and the key of the
request section; or the key list of the embedded API. -/
structure BatchRequest where
  tdef : TableDef
  flagMultiKeyVal : Bool
  keyFieldCount : Option UInt64
  keyValCount : Option UInt64
  keyTypeList : Option CArray
  keyNameList : Option CArray
  keyValList : Option CArray
  internalKeyValList : Option (List (List CValue)) := none

/-- `validktype`: the type a client gives a key field against the table's. -/
def validktype : FieldType → FieldType → Bool
  | .signed, .signed | .signed, .unsigned | .unsigned, .signed | .unsigned, .unsigned => true
  | .string, .string | .string, .binary | .binary, .string | .binary, .binary => true
  | _, _ => false

def fieldTypeOfCode : Nat → Option FieldType
  | 0 => some .none
  | 1 => some .signed
  | 2 => some .unsigned
  | 3 => some .float
  | 4 => some .string
  | 5 => some .binary
  | _ => none

/-- An error of `PrepareProcess`: the code and the text (`SetError(err, "decoder", msg)`). -/
abbrev PrepareError := Int × String

/-- The loop of `PrepareProcess` over the named key fields, `n` of them to go; with it the `Get`s that returned 0. -/
def prepareLoop (tdef : TableDef) : Nat → CArray → CArray → List GetRecord × Option PrepareError
  | 0, _, _ => ([], none)
  | n + 1, types, names =>
    match types.getInt 1 with
    | none => ([], some (-ecKeyNeeded, "require key field info"))
    | some (keyType, types') =>
      match names.getBin with
      | none => ([⟨types, 0, 1, types'⟩], some (-ecKeyNeeded, "require key field info"))
      | some (keyName, names') =>
        let log := [⟨types, 0, 1, types'⟩, ⟨names, 4, keyName.len, names'⟩]
        let fid := tdef.fieldId (cString keyName.mem)
        if fid < 0 ∨ fid ≥ tdef.keyFields then (log, some (-ecBadFieldName, "bad key field name"))
        else
          match fieldTypeOfCode keyType with
          | none => (log, some (-ecBadKeyType, "key type incorrect"))
          | some t =>
            if !validktype t (tdef.fieldType fid.toNat) then (log, some (-ecBadKeyType, "key type incorrect"))
            else
              let r := prepareLoop tdef n types' names'
              (log ++ r.1, r.2)

/-- `PrepareProcess`, the checks of a batch request. -/
def prepareProcess (r : BatchRequest) : List GetRecord × Option PrepareError :=
  match r.keyFieldCount, r.keyValCount, r.keyTypeList, r.keyNameList with
  | some count, some valCount, some types, some names =>
    if toInt32 count.toNat ≠ r.tdef.keyFields then ([], some (-ecKeyNeeded, "key field count incorrect"))
    else if valCount.toNat < 1 then ([], some (-ecKeyNeeded, "require key value"))
    else prepareLoop r.tdef count.toNat types names
  | _, _, _, _ => ([], some (-ecKeyNeeded, "require key field info"))

/-- What `DecodeKeyList` has done so far: the `Get`s that returned 0 and the components it wrote, with their index in
`keyList`. -/
structure DecodeLog where
  gets : List GetRecord := []
  writes : List (Nat × CValue) := []

/-- The names of the key fields: `fieldID`, an array of bytes. -/
def nameLoop (tdef : TableDef) : Nat → CArray → List GetRecord × Option (List Nat × CArray)
  | 0, names => ([], some ([], names))
  | n + 1, names =>
    match names.getBin with
    | none => ([], none)
    | some (keyName, names') =>
      let fid := (tdef.fieldId (cString keyName.mem) % 256).toNat
      let r := nameLoop tdef n names'
      (⟨names, 4, keyName.len, names'⟩ :: r.1, r.2.map (fun x => (fid :: x.1, x.2)))

/-- The components of one key, in the order of the names; `base` is the index of the key's first component. -/
def componentLoop (tdef : TableDef) (base : Nat) :
    List Nat → CArray → DecodeLog → Except (Int × DecodeLog) (CArray × DecodeLog)
  | [], vals, log => .ok (vals, log)
  | fid :: fids, vals, log =>
    match tdef.fieldType fid with
    | .signed | .unsigned =>
      match vals.getInt 8 with
      | none => .error (-2, log)
      | some (v, vals') =>
        componentLoop tdef base fids vals' ⟨log.gets ++ [⟨vals, 0, 8, vals'⟩], log.writes ++ [(base + fid, .u64 v)]⟩
    | .string | .binary =>
      match vals.getBin with
      | none => .error (-2, log)
      | some (v, vals') =>
        componentLoop tdef base fids vals'
          ⟨log.gets ++ [⟨vals, 4, v.len, vals'⟩], log.writes ++ [(base + fid, .bin v)]⟩
    | _ => .error (-3, log)

/-- The keys from the `i`-th on, `n` of them. -/
def keyLoop (tdef : TableDef) (fids : List Nat) :
    Nat → Nat → CArray → DecodeLog → Except (Int × DecodeLog) (CArray × DecodeLog)
  | 0, _, vals, log => .ok (vals, log)
  | n + 1, i, vals, log =>
    match componentLoop tdef (i * tdef.keyFields) fids vals log with
    | .error e => .error e
    | .ok (vals', log') => keyLoop tdef fids n (i + 1) vals' log'

/-- The number of components `MALLOC(totalReq*keyFields*sizeof(CValue))` has room for: the product of two `int`s wraps,
and `malloc` gives nothing for a size with the top bit set. -/
def allocated (totalReq : Int) (keyFields : Nat) : Nat := (toInt32 (totalReq * keyFields % 2 ^ 32).toNat).toNat

/-- How `DecodeKeyList` ended: its return value, or a null pointer followed (`KeyValList` of a request without a key). -/
inductive DecodeEnd where
  | ret (n : Int)
  | crash
  deriving DecidableEq, Repr

structure DecodeResult where
  ending : DecodeEnd
  /-- the size of `keyList`, in components -/
  allocated : Nat := 0
  log : DecodeLog := {}

def decodeKeyList (r : BatchRequest) : DecodeResult :=
  if !r.flagMultiKeyVal then { ending := .ret 0 }
  else
    match r.internalKeyValList with
    | some keys =>
      -- `keyList` is the caller's list; nothing is read or written
      { ending := .ret keys.length, allocated := keys.length * r.tdef.keyFields }
    | none =>
      match r.keyNameList, r.keyValList, r.keyValCount with
      | some names, some vals, some valCount =>
        match nameLoop r.tdef r.tdef.keyFields names with
        | (gets, none) => { ending := .ret (-1), log := ⟨gets, []⟩ }
        | (gets, some (fids, names')) =>
          match names'.getBin with
          | some (keyName, names'') =>
            { ending := .ret (-1), log := ⟨gets ++ [⟨names', 4, keyName.len, names''⟩], []⟩ }
          | none =>
            let totalReq := toInt32 valCount.toNat
            let size := allocated totalReq r.tdef.keyFields
            match keyLoop r.tdef fids totalReq.toNat 0 vals ⟨gets, []⟩ with
            | .error (e, log) => ⟨.ret e, size, log⟩
            | .ok (_, log) => ⟨.ret totalReq, size, log⟩
      | _, _, _ => { ending := .crash }

/-! ## What the packet lists

The lists read as they are meant, in numbers without a width: an entry whose prefix does not fit in what is left ends
the list.  A prefix that is -4 to -1 as an `int` is told apart, since the code takes it for an entry. -/

inductive Listed where
  | num (n : Nat)
  | str (s : List UInt8)
  deriving DecidableEq, Repr

inductive ReadOne where
  | value (v : Listed) (rest : List UInt8)
  | short
  | negative
  deriving DecidableEq, Repr

def isIntType (t : FieldType) : Bool := decide (t = .signed) || decide (t = .unsigned)

def readInt (bytes : List UInt8) : ReadOne :=
  if bytes.length < 8 then .short else .value (.num (leNat 8 bytes)) (bytes.drop 8)

def readBin (bytes : List UInt8) : ReadOne :=
  if bytes.length < 4 then .short
  else if 2 ^ 32 - 4 ≤ leNat 4 bytes then .negative
  else if bytes.length < 4 + leNat 4 bytes then .short
  else .value (.str ((bytes.drop 4).take (leNat 4 bytes))) (bytes.drop (4 + leNat 4 bytes))

def readOne (t : FieldType) (bytes : List UInt8) : ReadOne := if isIntType t then readInt bytes else readBin bytes

inductive ReadEnd where
  | full (rest : List UInt8)
  | short
  | negative
  deriving DecidableEq, Repr

/-- The values of the given types, as far as the list goes. -/
def readMany : List FieldType → List UInt8 → List Listed × ReadEnd
  | [], bytes => ([], .full bytes)
  | t :: ts, bytes =>
    match readOne t bytes with
    | .value v rest => (v :: (readMany ts rest).1, (readMany ts rest).2)
    | .short => ([], .short)
    | .negative => ([], .negative)

/-- The fields the first `n` names of the list stand for. -/
def namedFields (tdef : TableDef) : Nat → CArray → List Int
  | 0, _ => []
  | n + 1, names =>
    match readBin names.bytes with
    | .value (.str s) _ =>
      tdef.fieldId (cString (names.bytes.drop 4 ++ names.mem)) :: namedFields tdef n (names.advance (4 + s.length))
    | _ => []

namespace BatchRequest

variable (r : BatchRequest)

def keyNames : List Int := (r.keyNameList.map (namedFields r.tdef r.tdef.keyFields)).getD []

/-- The values of the first `n` keys. -/
def listed (n : Nat) : List Listed × ReadEnd :=
  readMany (List.replicate n (r.keyNames.map (fun f => r.tdef.fieldType f.toNat))).flatten
    ((r.keyValList.map CArray.bytes).getD [])

/-- The index in `keyList` of the `k`-th listed value. -/
def slot (k : Nat) : Nat :=
  k / r.tdef.keyFields * r.tdef.keyFields + (r.keyNames.getD (k % r.tdef.keyFields) 0).toNat

end BatchRequest

/-- A `Get` that gave a slice of non-negative length inside the array and advanced past it. -/
def GetRecord.Good (g : GetRecord) : Prop :=
  0 ≤ g.length ∧ g.offset + g.length ≤ g.before.len ∧ g.after = g.before.advance (g.offset + g.length).toNat

def CValue.Matches : CValue → Listed → Prop
  | .u64 n, .num m => n = m
  | .bin b, .str s => b.len = s.length ∧ b.mem.take s.length = s
  | _, _ => False

end Dtc
