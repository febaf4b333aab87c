import DtcServer.FieldUpdate
import DtcServer.SqlStatements
/-!
# HelperSql — the statements that the helper builds (`CHelperProcess`)

A request is turned into one statement for the database.  The text is built from the tokens in the order in which they are
appended; a value is one token, as the database library escapes and quotes it.
-/
namespace Dtc

open Sql

def ecErrorBase : Int := 2000

def ffVolatile : UInt8 := 2

def CTableDefinition.isVolatile (t : CTableDefinition) (id : Nat) : Bool := t.fieldFlags id &&& ffVolatile ≠ 0

/-- `HasTypeCommit`: a field that is not volatile is among the entries. -/
def CFieldValue.hasTypeCommit (fv : CFieldValue) : Bool := fv.typeMask1 &&& ffVolatile ≠ 0

/-- A value in a statement; `float` is printed with six decimals. -/
inductive SqlValue where
  | null
  | int (x : Int)
  | float (w : BitVec 64)
  | quoted (bytes : List UInt8)
  deriving DecidableEq, Repr

/-- The operators of SQL that the operations of an update have; setting bits has none of its own. -/
inductive SqlOperator where
  | plus | bitOr | setBits
  deriving DecidableEq, Repr

abbrev SqlToken := Token Nat SqlOperator SqlValue (List UInt8)

abbrev SqlAssignment := Assignment Nat SqlOperator SqlValue

abbrev SqlStatement := Statement Nat SqlOperator SqlValue (List UInt8)

/-- What the helper knows of the table, and the order of its configuration. -/
structure HelperTable where
  table : CTableDefinition
  defaultValue : Nat → DataValue
  ordSql : Option (List UInt8) := none

/-- What the statements take from a `CTask`. -/
structure SqlTask where
  requestKey : Option DataValue
  requestOperation : Option CFieldValue := none
  requestCondition : Option CFieldValue := none
  requestFields : Option CFieldSet := none
  limitStart : Nat := 0
  limitCount : Nat := 0

/-- The buffer `sql`, and `ErrorNo`. -/
structure SqlBuffer where
  sql : List SqlToken := []
  errorNo : Int := 0

/-- How the building of a statement ends. -/
inductive SqlOutcome where
  | query (sql : List SqlToken)
  /-- there is nothing for the database to do -/
  | nothing
  | error (err : Int) (msg : String)

/-- `Value2Str`; a value of no type has no text. -/
def value2Str (v : Option DataValue) (type : FieldType) : Option SqlValue :=
  match v, type with
  | none, _ => some .null
  | some v, .signed => some (.int v.word64.toInt)
  | some v, .unsigned => some (.int v.word64.toNat)
  | some v, .float => some (.float v.word64)
  | some (.bin bytes), .string | some (.bin bytes), .binary => some (.quoted bytes)
  | some _, .string | some _, .binary => some (.quoted [])
  | some _, .none => none

def compStr : Nat → Option Comparator
  | 0 => some .eq
  | 1 => some .ne
  | 2 => some .lt
  | 3 => some .le
  | 4 => some .gt
  | 5 => some .ge
  | _ => none

namespace SqlBuffer

variable (b : SqlBuffer)

def append (ts : List SqlToken) : SqlBuffer := { b with sql := b.sql ++ ts }

def appendValue (v : Option DataValue) (type : FieldType) : SqlBuffer := b.append ((value2Str v type).toList.map .value)

/-- `SQLAppendComparator` -/
def appendComparator (op : Nat) : SqlBuffer :=
  match compStr op with
  | none => { b with errorNo := -1 }
  | some c => b.append [.comparator c]

end SqlBuffer

namespace CHelperProcess

variable (h : HelperTable)

/-- The loop of `ConditionConcate`: it looks whether the field with the number of the condition is volatile. -/
def conditionLoop : Nat → List SFieldValue → SqlBuffer → Option SqlBuffer
  | _, [], b => some b
  | i, c :: cs, b =>
    if h.table.isVolatile i then none
    else
      let b := b.append [.word .and, .field c.id.toNat]
      let b := b.appendComparator c.oper
      conditionLoop (i + 1) cs (b.appendValue (some c.val) (.ofCode c.type))

def conditionConcate (condition : Option CFieldValue) (b : SqlBuffer) : Option SqlBuffer :=
  match condition with
  | none => some b
  | some c => conditionLoop h 0 c.fields b

/-- The loop of `UpdateFieldConcate`: all but the first entry are written with a comma in front. -/
def updateFieldLoop : Nat → List SFieldValue → SqlBuffer → SqlBuffer
  | _, [], b => b
  | i, e :: es, b =>
    let fid := e.id.toNat
    if h.table.isVolatile fid then updateFieldLoop (i + 1) es b
    else
      match FieldOperation.ofCode e.oper with
      | some .set =>
        let b := if 0 < i then b.append [.word .comma] else b
        let b := b.append [.field fid, .comparator .eq]
        updateFieldLoop (i + 1) es (b.appendValue (some e.val) (.ofCode e.type))
      | some .add =>
        let b := if 0 < i then b.append [.word .comma] else b
        let b := b.append [.field fid, .comparator .eq, .field fid, .operator .plus]
        updateFieldLoop (i + 1) es (b.appendValue (some e.val) (.ofCode e.type))
      | _ => updateFieldLoop (i + 1) es b

def updateFieldConcate (updateInfo : Option CFieldValue) (b : SqlBuffer) : SqlBuffer :=
  match updateInfo with
  | none => b
  | some fv => updateFieldLoop h 0 fv.fields b

/-- `BuildFieldMask` -/
def inMask (updateInfo : Option CFieldValue) (id : Nat) : Bool :=
  match updateInfo with
  | none => false
  | some fv => fv.fields.any (fun e => e.id.toNat == id)

def fieldIds : List Nat := List.range' 1 h.table.tdef.numFields

/-- The body of the loop of `DefaultValueConcate`. -/
def defaultValueBody (updateInfo : Option CFieldValue) (b : SqlBuffer) (i : Nat) : SqlBuffer :=
  if inMask updateInfo i || h.table.isVolatile i then b
  else (b.append [.word .comma, .field i, .comparator .eq]).appendValue (some (h.defaultValue i)) (h.table.tdef.fieldType i)

def defaultValueConcate (updateInfo : Option CFieldValue) (b : SqlBuffer) : SqlBuffer :=
  (fieldIds h).foldl (defaultValueBody h updateInfo) b

/-- The body of the loop of `SelectFieldConcate`: a field that is not asked for is 0, a volatile one its default. -/
def selectFieldBody (fs : CFieldSet) (b : SqlBuffer) (i : Nat) : SqlBuffer :=
  let b := b.append [.word .comma]
  if ¬ fs.ids.contains (UInt8.ofNat i) then b.append [.word .zero]
  else if ¬ h.table.isVolatile i then b.append [.field i]
  else b.appendValue (some (h.defaultValue i)) (h.table.tdef.fieldType i)

def selectFieldConcate (fs : Option CFieldSet) (b : SqlBuffer) : SqlBuffer :=
  match fs with
  | none => b.append [.word .count]
  | some fs => (fieldIds h).foldl (selectFieldBody h fs) (b.append [.field 0])

variable (t : SqlTask)

/-- The key's comparison behind ` WHERE `. -/
def whereKey (b : SqlBuffer) : SqlBuffer :=
  (b.append [.word .where, .field 0, .comparator .eq]).appendValue t.requestKey (h.table.tdef.fieldType 0)

/-- The check of `ErrorNo` in front of the query. -/
def checked (b : SqlBuffer) : SqlOutcome := if b.errorNo ≠ 0 then .error (-ecErrorBase) "printf error" else .query b.sql

def withConditions (b : SqlBuffer) (rest : SqlBuffer → SqlBuffer) : SqlOutcome :=
  match conditionConcate h t.requestCondition b with
  | none => .error (-ecBadCommand) "Volatile condition not allowed"
  | some b => checked (rest b)

def processUpdate : SqlOutcome :=
  match t.requestOperation with
  | none => .error (-ecErrorBase) "update field not found"
  | some fv =>
    -- volatile fields only
    if fv.hasTypeCommit = false then .nothing
    else
      let b : SqlBuffer := { sql := [.word .update, .table, .word .set] }
      withConditions h t (whereKey h t (updateFieldConcate h t.requestOperation b)) id

def processDelete : SqlOutcome :=
  let b : SqlBuffer := { sql := [.word .deleteFrom, .table] }
  withConditions h t (whereKey h t b) id

def processReplace : SqlOutcome :=
  let b : SqlBuffer := { sql := [.word .replaceInto, .table, .word .set] }
  let b := (b.append [.field 0, .comparator .eq]).appendValue t.requestKey (h.table.tdef.fieldType 0)
  let b := b.append [.word .comma]
  let b :=
    match t.requestOperation with
    | some fv => updateFieldConcate h (some fv) b
    | none => if b.sql.getLast? = some (.word .comma) then { b with sql := b.sql.dropLast } else b
  checked (defaultValueConcate h t.requestOperation b)

/-- `ProcessSelect` up to the query. -/
def processSelect : SqlOutcome :=
  let haslimit := t.requestFields.isSome && (decide (t.limitStart ≠ 0) || decide (t.limitCount ≠ 0))
  let b : SqlBuffer := { sql := [.word (if haslimit then .selectFound else .select)] }
  let b := (selectFieldConcate h t.requestFields b).append [.word .from, .table]
  withConditions h t (whereKey h t b) fun b =>
    let b :=
      match h.ordSql with
      | none => b
      | some ordSql => b.append [.verbatim ordSql]
    if 0 < t.limitCount then b.append [.word .limit, .number t.limitStart, .word .comma, .number t.limitCount] else b

/-- The requests that become a statement here. -/
inductive Request where
  | update | delete | select | replace
  deriving DecidableEq, Repr

def process : Request → SqlOutcome
  | .update => processUpdate h t
  | .delete => processDelete h t
  | .select => processSelect h t
  | .replace => processReplace h t

end CHelperProcess

end Dtc
