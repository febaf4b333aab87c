import DtcServer.KeySet
import DtcServer.KeyRoute
/-!
# Migration — `CKeyRoute`: the migration states of the nodes, and the files that keep them

Every other node of the cluster has a migration state, and while keys are moved to it a set of the keys that have been.  The
states are saved after each change, and read again when the server starts; the sets are read from their own files.
-/
namespace Dtc

open Bytes

/-! ## The administration table -/

/-- `SetKeyFields`: the key format, 0 for a key of variable size. -/
def keyFormatOf (fields : List FieldDef) (keyFields : Nat) : Nat :=
  let key := fields.take keyFields
  if key.any (fun f => decide (f.fieldType = .string ∨ f.fieldType = .binary)) then 0 else (key.map FieldDef.fieldSize).sum

/-- `HBTabField`: `type`, `flag`, `key` and `value` -/
def hotBackupFields : List FieldDef :=
  [⟨[116, 121, 112, 101], .unsigned, 4, 0, false⟩, ⟨[102, 108, 97, 103], .unsigned, 1, 0, false⟩,
   ⟨[107, 101, 121], .binary, 255, 0, false⟩, ⟨[118, 97, 108, 117, 101], .binary, 67108864, 0, false⟩]

/-- `BuildHotBackupTable`: the table of every administration request. -/
def buildHotBackupTable : TableDef := { fieldList := hotBackupFields, keyFields := 1, keyFormat := keyFormatOf hotBackupFields 1 }

theorem buildHotBackupTable_keyFormat : buildHotBackupTable.keyFormat = 4 := by decide

/-! ## States -/

inductive MigrationState where
  | notStarted | migrating | migrateReadonly | completed
  deriving DecidableEq, Repr

namespace MigrationState

def code : MigrationState → Nat
  | notStarted => 0
  | migrating => 1
  | migrateReadonly => 2
  | completed => 3

def ofCode : Nat → Option MigrationState
  | 0 => some notStarted
  | 1 => some migrating
  | 2 => some migrateReadonly
  | 3 => some completed
  | _ => none

theorem ofCode_code (s : MigrationState) : ofCode s.code = some s := by cases s <;> rfl

def Moving (s : MigrationState) : Prop := s = migrating ∨ s = migrateReadonly

instance (s : MigrationState) : Decidable s.Moving := inferInstanceAs (Decidable (_ ∨ _))

end MigrationState

structure ServerMigrationState where
  addr : List UInt8
  state : MigrationState := .notStarted
  migrated : Option CFileBackedKeySet := none

/-- The files of the data directory: the key list of a node, and `cluster.stat`. -/
structure ClusterFiles where
  keyFiles : NodeName → Option KeyFile := fun _ => none
  stateFile : Option (List UInt8) := none

structure ClusterNode where
  name : NodeName
  addr : List UInt8
  self : Bool

structure CKeyRoute where
  keyFormat : Nat
  selfName : NodeName := []
  serverMigrationState : List (NodeName × ServerMigrationState) := []
  selector : CConsistentHashSelector := {}

/-- The error of a reply; the place is "Key Route" in all of them. -/
structure RouteError where
  code : Int
  message : String
  deriving DecidableEq, Repr

namespace CKeyRoute

variable (r : CKeyRoute) (d : ClusterFiles)

def find (node : NodeName) : Option ServerMigrationState := HashRing.find node r.serverMigrationState

def set (node : NodeName) (s : ServerMigrationState) : CKeyRoute :=
  { r with serverMigrationState := HashRing.insert node s r.serverMigrationState }

/-- One turn of the loop of `Init`; `none` where the selector aborts. -/
def initNode (r : CKeyRoute) (node : ClusterNode) : Option CKeyRoute :=
  (r.selector.addNode node.name).map (fun selector =>
    { r.set node.name { addr := node.addr, state := if node.self then .completed else .notStarted } with
      selfName := if node.self then node.name else r.selfName
      selector := selector })

def init (keyFormat : Nat) (nodes : List ClusterNode) : Option CKeyRoute := nodes.foldlM initNode { keyFormat }

def selectNode (key : List UInt8) : NodeName := Dtc.selectNode r.keyFormat r.selector key

/-- `KeyMigrated`: the key is put into the set of its node; `false` for the failures. -/
def keyMigrated (key : List UInt8) : ClusterFiles × CKeyRoute × Bool :=
  let selected := r.selectNode key
  match r.find selected with
  | none => (d, r, false)
  | some s =>
    if s.state.Moving then
      match s.migrated, d.keyFiles selected with
      | some keys, some file =>
        let inserted := keys.insert file key
        ({ d with keyFiles := Function.update d.keyFiles selected (some inserted.2) },
          r.set selected { s with migrated := some inserted.1 }, true)
      -- not so: a node in these states has its set and its file
      | _, _ => (d, r, false)
    else (d, r, false)

/-- `AcceptKey`: the node has this key already. -/
def acceptKey (node : NodeName) (key : List UInt8) : Bool :=
  match r.find node with
  -- "forward it either way"
  | none => true
  | some s =>
    match s.state with
    | .notStarted => false
    | .completed => true
    | _ =>
      match s.migrated, d.keyFiles node with
      | some keys, some file => keys.contains file key
      | _, _ => false

/-! ### The state file -/

/-- A node in the state file: the length of its name, the name, the state. -/
def encodeNode (x : NodeName × ServerMigrationState) : List UInt8 :=
  leBytes 4 x.1.length ++ x.1 ++ leBytes 4 x.2.state.code

def encodeStates (states : List (NodeName × ServerMigrationState)) : List UInt8 :=
  leBytes 4 states.length ++ (states.map encodeNode).flatten

def saveStateToFile : ClusterFiles := { d with stateFile := some (encodeStates r.serverMigrationState) }

/-- `fread`, which must get all the bytes. -/
def readBytes (n : Nat) (bytes : List UInt8) : Option (List UInt8 × List UInt8) :=
  if n ≤ bytes.length then some (bytes.take n, bytes.drop n) else none

/-- One turn of the loop of `LoadNodeStateIfAny`; the name is taken up to its first zero. -/
def loadNode (r : CKeyRoute) (bytes : List UInt8) : Option (CKeyRoute × List UInt8) := do
  let (lenBytes, bytes) ← readBytes 4 bytes
  let len := leNat 4 lenBytes
  if len = 0 ∨ 255 < len then none
  let (nameBytes, bytes) ← readBytes len bytes
  let name := nameBytes.takeWhile (· ≠ 0)
  let (stateBytes, bytes) ← readBytes 4 bytes
  let state ← MigrationState.ofCode (leNat 4 stateBytes)
  let s ← r.find name
  if state.Moving then
    let file ← d.keyFiles name
    some (r.set name { s with state := state, migrated := some (CFileBackedKeySet.load file r.keyFormat) }, bytes)
  else some (r.set name { s with state := state }, bytes)

def loadNodes : Nat → CKeyRoute → List UInt8 → Option (CKeyRoute × List UInt8)
  | 0, r, bytes => some (r, bytes)
  | n + 1, r, bytes => (loadNode d r bytes).bind (fun x => loadNodes n x.1 x.2)

/-- `LoadNodeStateIfAny`; `none` where it fails or a check of what is read does. -/
def loadNodeStateIfAny : Option CKeyRoute :=
  match d.stateFile with
  | none => some r
  | some bytes => do
    let (countBytes, bytes) ← readBytes 4 bytes
    if leNat 4 countBytes ≠ r.serverMigrationState.length then none
    let (r, bytes) ← loadNodes d r.serverMigrationState.length r bytes
    if bytes = [] then some r else none

/-! ### State changes -/

def openKeySet (name : NodeName) (s : ServerMigrationState) (newState : MigrationState) (opens : Bool) :
    ClusterFiles × CKeyRoute × Option RouteError :=
  if opens then
    let d := { d with keyFiles := Function.update d.keyFiles name (some {}) }
    -- the key format is that of the request's table, which is the administration table
    let r := r.set name { s with state := newState, migrated := some { keySize := buildHotBackupTable.keyFormat } }
    (r.saveStateToFile d, r, none)
  else
    let szErrMsg := if s.state = .completed then "open file backed key set failed\n" else "open file backed key set failed"
    (d, r.set name { s with migrated := none }, some ⟨-ecServerError, szErrMsg⟩)

def clearKeySet (name : NodeName) (s : ServerMigrationState) (newState : MigrationState) :
    ClusterFiles × CKeyRoute × Option RouteError :=
  let d := { d with keyFiles := Function.update d.keyFiles name none }
  let r := r.set name { s with state := newState, migrated := none }
  (r.saveStateToFile d, r, none)

def changeState (name : NodeName) (s : ServerMigrationState) (newState : MigrationState) :
    ClusterFiles × CKeyRoute × Option RouteError :=
  let r := r.set name { s with state := newState }
  (r.saveStateToFile d, r, none)

/-- `ProcessNodeStateChange` of a request with a node's name and a state; `opens` says whether the key list can be opened. -/
def processNodeStateChange (name : NodeName) (newState : Int) (opens : Bool) : ClusterFiles × CKeyRoute × Option RouteError :=
  match r.find name with
  | none => (d, r, some ⟨-ecBadRawData, "invalid name/state"⟩)
  | some s =>
    if newState > 3 then (d, r, some ⟨-ecBadRawData, "invalid name/state"⟩)
    else if (s.state.code : Int) = newState then (d, r, none)
    else if name = r.selfName then (d, r, some ⟨-ecBadRawData, "can't change self's state"⟩)
    else if newState < 0 then (d, r, some ⟨-ecBadRawData, "invalid state"⟩)
    else
      match s.state, MigrationState.ofCode newState.toNat with
      | .notStarted, some .migrateReadonly => r.openKeySet d name s .migrateReadonly opens
      | .notStarted, some .migrating => r.openKeySet d name s .migrating opens
      | .notStarted, some .completed => r.changeState d name s .completed
      | .migrating, some .notStarted => r.clearKeySet d name s .notStarted
      | .migrateReadonly, some .notStarted => r.clearKeySet d name s .notStarted
      | .migrateReadonly, some .migrating => r.changeState d name s .migrating
      | .migrating, some .migrateReadonly => r.changeState d name s .migrateReadonly
      | .migrating, some .completed => r.clearKeySet d name s .completed
      | .migrateReadonly, some .completed => r.clearKeySet d name s .completed
      | .completed, some .notStarted => r.changeState d name s .notStarted
      | .completed, some .migrating => r.openKeySet d name s .migrating opens
      | .completed, some .migrateReadonly => r.openKeySet d name s .migrateReadonly opens
      | _, _ => (d, r, some ⟨-ecBadRawData, "invalid state"⟩)

end CKeyRoute

end Dtc
