import DtcServer.Machine
/-!
# Protocol — the request codes, field types, result codes and table definition the server's units share
-/
namespace Dtc

/-- A 32-bit number as an `int`. -/
def toInt32 (n : Nat) : Int := if n % 2 ^ 32 < 2 ^ 31 then (n % 2 ^ 32 : Nat) else (n % 2 ^ 32 : Nat) - 2 ^ 32

/-- `DRequest`: the command of a request. -/
inductive RequestCode where
  | nop | resultCode | resultSet | svrAdmin | get | purge | insert | update | delete | replace | flush | invalidate
  | monitor
  deriving DecidableEq, Repr

/-- `DRequest::ServerAdminCmd`; the code of an admin request is a number of the packet, so it may be none of these. -/
inductive AdminCmd where
  | registerHB | logoutHB | getKeyList | getUpdateKey | getRawData | replaceRawData | adjustLRU | verifyHBT | getHBTime
  | setReadonly | setReadwrite | queryServerInfo | nodeHandleChange | migrate | reloadClusterNodeList
  | setClusterNodeState | changeNodeAddress | getClusterState | purgeForHit | queryMemInfo
  | unknown (code : Nat)
  deriving DecidableEq, Repr

/-- `DField`: the type of a field. -/
inductive FieldType where
  | none | signed | unsigned | float | string | binary
  deriving DecidableEq, Repr

/-- How `CPacket::Send` ends. -/
inductive SendResult where
  | moreData | done | error
  deriving DecidableEq, Repr

def FieldType.code : FieldType → Nat
  | .none => 0
  | .signed => 1
  | .unsigned => 2
  | .float => 3
  | .string => 4
  | .binary => 5

def ecBadFieldName : Int := 2015
def ecBadKeyType : Int := 2024
def ecServerBusy : Int := 2026
def ecKeyNeeded : Int := 2032
def ecServerError : Int := 2033
def ecTooManyKeyValue : Int := 2046
def ecBadRawData : Int := 2048
def enomem : Int := 12

/-- `CResultInfo`, its tags 1, 2 and 3: the code of the result, the function and the text of an error. -/
structure ResultInfo where
  resultCode : Int := 0
  errorFrom : String := ""
  errorMessage : String := ""
  deriving DecidableEq, Repr

/-- `CFieldDefinition`: a field of a table.  `fieldName` is without its final null, `fieldSize` in bytes, `offset` its
place in a packed key. -/
structure FieldDef where
  fieldName : List UInt8
  fieldType : FieldType
  fieldSize : Nat
  offset : Nat := 0
  isDiscard : Bool := false
  deriving DecidableEq, Repr

instance : Inhabited FieldDef := ⟨⟨[], .none, 0, 0, false⟩⟩

theorem oneKeyField_le : 1 ≤ 32 := by decide

theorem twoKeyFields_le : 2 ≤ 32 := by decide

/-- `CTableDefinition`: the fields (the first `keyFields` are the key, at most 32 by `SetKeyFields`), the size of the
packed key (0 for one string key) and the auto-increment field (-1 for none). -/
structure TableDef where
  fieldList : List FieldDef
  keyFields : Nat
  keyFormat : Nat
  hasAutoInc : Int := -1
  keyFields_le : keyFields ≤ 32 := by first | exact oneKeyField_le | exact twoKeyFields_le | decide
  deriving DecidableEq, Repr

namespace TableDef

variable (tdef : TableDef)

def field (id : Nat) : FieldDef := tdef.fieldList.getD id default

def fieldType (id : Nat) : FieldType := (tdef.field id).fieldType

def fieldSize (id : Nat) : Nat := (tdef.field id).fieldSize

def fieldOffset (id : Nat) : Nat := (tdef.field id).offset

/-- `FieldId` of a name: the field, -1 for none.  A name chain has its last field first. -/
def fieldId (name : List UInt8) : Int :=
  match (List.range tdef.fieldList.length).reverse.find? (fun id => (tdef.field id).fieldName = name) with
  | some id => id
  | none => -1

end TableDef

end Dtc
