import DtcServer.KeyRoute
/-!
# DbRoute — the database of a key (`CDbConfig`, `CGroupCollect`, `CHelperProcess`)

A deployment spreads a table over databases on several machines. The server's dispatcher picks the machine of a key's database
and the helper process there names the database and the table.
-/
namespace Dtc

inductive Workload where
  | master | slave | database | table | key
  deriving DecidableEq, Repr

/-- A section `MACHINE` of the configuration.  `m_dbIdx` has room for 1000 databases. -/
structure MachineConfig where
  dummy : Bool := false
  mode : Workload := .master
  dbIdx : List UInt16
  procs : UInt16 := 0
  writeProcs : UInt16 := 0
  commitProcs : UInt16 := 0
  room : dbIdx.length ≤ 1000 := by decide

namespace MachineConfig

variable (m : MachineConfig)

/-- `gprocs`: the processes for reads, writes, commits and reads from the slave. -/
def gprocs (j : Nat) : UInt16 :=
  let master := if m.procs < 1 then 1 else m.procs
  if m.dbIdx = [] then 0
  else match j with
    | 0 => master
    | 1 => if m.writeProcs < 1 then 1 else m.writeProcs
    | 2 => if m.commitProcs < 1 then master else m.commitProcs
    | 3 => if m.mode = .master then 0 else master
    | _ => 0

def allProcs : UInt16 := m.gprocs 0 + m.gprocs 1 + m.gprocs 2

end MachineConfig

/-- What of a configuration decides the databases, beside its machines: `Deploy`, `DbNum`, `TableNum`, `dbMax`,
`MachineNum`, the first field and the key-hash plug-in. -/
structure RawDbConfig where
  deploy : UInt8 := 0
  dbNum : Option (UInt32 × UInt32) := none
  tableNum : Option (UInt32 × UInt32) := none
  dbMax : Int := 1
  machineNum : Int := 1
  keyType : FieldType
  /-- the key is the auto-increment field -/
  autoincKey : Bool := false
  keyHash : Option (List UInt8 → UInt64) := none

/-- `CDbConfig`; `keyHash` is the plug-in with its two arguments. -/
structure CDbConfig where
  depoly : UInt8
  dbDiv : Nat
  dbMod : Nat
  tblDiv : Nat
  tblMod : Nat
  dbMax : Nat
  keyType : FieldType
  keyHash : Option (List UInt8 → UInt64)
  mach : List MachineConfig

/-- A pair `(div,mod)`; both must not be 0. -/
def parseNum (num : Option (UInt32 × UInt32)) : Option (Nat × Nat) :=
  num.bind (fun x => if x.1 = 0 ∨ x.2 = 0 then none else some (x.1.toNat, x.2.toNat))

/-- A pair `(div,mod)` of the configuration, where the bit of `Deploy` asks for it. -/
def parseSpread (deploy bit : UInt8) (num : Option (UInt32 × UInt32)) : Option (Nat × Nat) :=
  if deploy &&& bit = 0 then some (1, 1) else parseNum num

/-- The rest of `ParseDbConfig`, for the databases and tables. -/
def parseMachines (raw : RawDbConfig) (db tbl : Nat × Nat) (mach : List MachineConfig) : Option CDbConfig :=
  let dbMax := max raw.dbMax.toNat db.2
  if raw.machineNum ≤ 0 ∨ 1000000 < db.2 ∨ raw.dbMax < 0 ∨ 10000 < raw.dbMax then none
  else if mach.length ≠ raw.machineNum.toNat then none
  else if mach.any (fun m => m.dbIdx.any (fun i => decide (dbMax ≤ i.toNat))) then none
  else if raw.keyType = .float ∨ raw.keyType = .none then none
  else if (((raw.keyType = .string ∨ raw.keyType = .binary) ∧ raw.keyHash.isNone) ∨ raw.autoincKey) ∧
      (mach.length ≠ 1 ∨ dbMax ≠ 1 ∨ raw.deploy ≠ 0) then none
  else some {
    depoly := raw.deploy
    dbDiv := db.1
    dbMod := db.2
    tblDiv := tbl.1
    tblMod := tbl.2
    dbMax := dbMax
    keyType := raw.keyType
    keyHash := raw.keyHash
    mach := mach }

/-- `ParseDbConfig`: `none` where it returns an error. -/
def parseDbConfig (raw : RawDbConfig) (mach : List MachineConfig) : Option CDbConfig :=
  (parseSpread raw.deploy 1 raw.dbNum).bind (fun db =>
    (parseSpread raw.deploy 2 raw.tableNum).bind (fun tbl => parseMachines raw db tbl mach))

/-- A machine's number as it is stored in the map, in a `short`. -/
def toShort (i : Nat) : Int := if i % 2 ^ 16 < 2 ^ 15 then (i % 2 ^ 16 : Nat) else (i % 2 ^ 16 : Nat) - 2 ^ 16

abbrev gmapNone : Int := -1

abbrev gmapDummy : Int := -2

/-- One machine's databases are entered in the map; `none` for a database that another machine has. -/
def mapDbs (id : Int) : List UInt16 → (Nat → Int) → Option (Nat → Int)
  | [], groupMap => some groupMap
  | db :: dbs, groupMap =>
    if 0 ≤ groupMap db.toNat then none else mapDbs id dbs (Function.update groupMap db.toNat id)

/-- `LoadConfig`: the machines from `i` on are entered in the map. -/
def loadMachines : Nat → List MachineConfig → (Nat → Int) → Option (Nat → Int)
  | _, [], groupMap => some groupMap
  | i, m :: ms, groupMap =>
    if m.dummy then (mapDbs gmapDummy m.dbIdx groupMap).bind (loadMachines (i + 1) ms)
    else if m.allProcs = 0 then loadMachines (i + 1) ms groupMap
    else (mapDbs (toShort i) m.dbIdx groupMap).bind (loadMachines (i + 1) ms)

def loadConfig (cfg : CDbConfig) : Option (Nat → Int) := loadMachines 0 cfg.mach (fun _ => gmapNone)

/-- The requests that go to a helper. -/
inductive TaskType where
  | read | write | commit
  deriving DecidableEq, Repr

/-- `SelectGroup`'s result: `NULL`, `GROUP_DUMMY`, the group of a machine, or what lies outside the array of groups. -/
inductive Picked where
  | none
  | dummy
  | group (machine g : Nat)
  | wild
  deriving DecidableEq, Repr

/-- A request as `SelectGroup` sees it: `inGuard` says that the key was written lately. -/
structure RouteTask where
  key : KeyValue
  type : TaskType
  isGet : Bool := false
  inGuard : Bool := false
  barrierKey : UInt64 := 0

/-- The last of the first `g` groups that a machine has. -/
def lastGroup (m : MachineConfig) : Nat → Option Nat
  | 0 => none
  | g + 1 => if m.gprocs g ≠ 0 then some g else lastGroup m g

def TaskType.code : TaskType → Nat
  | .read => 1
  | .write => 2
  | .commit => 3

/-- The number of a key for the dispatcher.  `word` is what an eight-byte read of a string's descriptor gives. -/
def dispatchNumber (cfg : CDbConfig) (word : List UInt8 → UInt64) (key : KeyValue) : Nat :=
  match cfg.keyHash with
  | none =>
    let u64 := match key with
      | .int v => v
      | .str bytes => word bytes
    -- `key->s64 < 0`
    if 2 ^ 63 ≤ u64.toNat then 2 ^ 64 - u64.toNat else u64.toNat
  | some hash =>
    match key with
    | .int v => (hash (valueBytes v 8)).toNat
    | .str bytes => (hash bytes).toNat

def pickGroup (m : MachineConfig) (machine : Nat) (t : RouteTask) : Picked :=
  if t.isGet ∧ m.gprocs 3 ≠ 0 ∧ t.inGuard = false then
    let role := match m.mode with
      | .slave => 1
      -- the cases have no `break`
      | .database | .table | .key => (t.barrierKey &&& 1).toNat
      | .master => 0
    .group machine (role * 3)
  else
    match lastGroup m t.type.code with
    | some g => .group machine g
    | none => .none

def selectGroup (cfg : CDbConfig) (groupMap : Nat → Int) (word : List UInt8 → UInt64) (t : RouteTask) : Picked :=
  let idx := dispatchNumber cfg word t.key / cfg.dbDiv % cfg.dbMod
  let machineId := groupMap idx
  if machineId = gmapNone then .none
  else if machineId = gmapDummy then .dummy
  else if machineId < 0 then .wild
  else
    match cfg.mach[machineId.toNat]? with
    | some m => pickGroup m machineId.toNat t
    | none => .wild

def helperNumber (cfg : CDbConfig) (key : KeyValue) : Nat :=
  match key with
  | .int v =>
    match cfg.keyHash with
    | some hash => (hash (valueBytes v 8)).toNat
    | none =>
      if cfg.keyType = .signed then
        if v.toNat < 2 ^ 63 then v.toNat
        else if v.toNat = 2 ^ 63 then 0 -- `LONG_LONG_MIN`
        else 2 ^ 64 - v.toNat
      else v.toNat
  | .str bytes =>
    match cfg.keyHash with
    | some hash => (hash bytes).toNat
    | none => 0

/-- `InitTableName`: the indices of the database and the table in their names. -/
def initTableName (cfg : CDbConfig) (key : KeyValue) : Int × Int :=
  if cfg.depoly = 0 then (0, 0)
  else (toInt32 (helperNumber cfg key / cfg.dbDiv % cfg.dbMod), toInt32 (helperNumber cfg key / cfg.tblDiv % cfg.tblMod))

/-- **The machine of a database**: the machine that is picked lists it; for `NULL` no machine with processes does. -/
def Owns (cfg : CDbConfig) (db : Nat) : Picked → Prop
  | .none => ∀ m ∈ cfg.mach, (∃ i ∈ m.dbIdx, i.toNat = db) → m.dummy = false ∧ m.allProcs = 0
  | .dummy => ∃ m ∈ cfg.mach, m.dummy = true ∧ ∃ i ∈ m.dbIdx, i.toNat = db
  | .group machine _ => ∃ m, cfg.mach[machine]? = some m ∧ m.dummy = false ∧ ∃ i ∈ m.dbIdx, i.toNat = db
  | .wild => False

/-- **A request is routed right**: its group is on the machine of the database that the helper names, and the indices are
below their bounds. -/
def RoutedRight (cfg : CDbConfig) (groupMap : Nat → Int) (word : List UInt8 → UInt64) (t : RouteTask) : Prop :=
  ∃ db : Nat, (initTableName cfg t.key).1 = db ∧ db < cfg.dbMod ∧ Owns cfg db (selectGroup cfg groupMap word t) ∧
    0 ≤ (initTableName cfg t.key).2 ∧ (initTableName cfg t.key).2 < cfg.tblMod

/-- Both read the key as the same database: with a key hash, for strings, and for integers whose sign does not matter. -/
def KeyAgrees (cfg : CDbConfig) : KeyValue → Prop
  | .str _ => True
  | .int v => cfg.keyHash.isSome ∨
    if cfg.keyType = .signed then v.toNat ≠ 2 ^ 63 ∨ 2 ^ 63 / cfg.dbDiv % cfg.dbMod = 0
    else v.toNat < 2 ^ 63 ∨ (2 ^ 64 - v.toNat) / cfg.dbDiv % cfg.dbMod = v.toNat / cfg.dbDiv % cfg.dbMod

section Load

/-- What an entry of the map says of its database: which of the machines has it. -/
def EntryOk (ms : List MachineConfig) (db : Nat) (entry : Int) : Prop :=
  (entry = gmapNone ∧ ∀ m ∈ ms, (∃ i ∈ m.dbIdx, i.toNat = db) → m.dummy = false ∧ m.allProcs = 0) ∨
    (entry = gmapDummy ∧ ∃ m ∈ ms, m.dummy = true ∧ ∃ i ∈ m.dbIdx, i.toNat = db) ∨
    ∃ (k : Nat) (m : MachineConfig), entry = k ∧ ms[k]? = some m ∧ m.dummy = false ∧ ∃ i ∈ m.dbIdx, i.toNat = db

def MapOk (ms : List MachineConfig) (groupMap : Nat → Int) : Prop := ∀ db, EntryOk ms db (groupMap db)

theorem mapDbs_spec (id : Int) : ∀ (dbs : List UInt16) {groupMap groupMap' : Nat → Int},
    mapDbs id dbs groupMap = some groupMap' → ∀ db,
      ((∃ i ∈ dbs, i.toNat = db) → groupMap' db = id ∧ groupMap db < 0) ∧
      ((¬ ∃ i ∈ dbs, i.toNat = db) → groupMap' db = groupMap db)
  | [], _, _, h, db => by
    obtain rfl := Option.some.inj h
    exact ⟨fun ⟨i, hi, _⟩ => absurd hi List.not_mem_nil, fun _ => rfl⟩
  | d :: dbs, groupMap, groupMap', h, db => by
    rw [mapDbs] at h
    split at h
    · cases h
    · rename_i hneg
      obtain ⟨ih1, ih2⟩ := mapDbs_spec id dbs h db
      by_cases hin : ∃ i ∈ dbs, i.toNat = db
      · refine ⟨fun _ => ?_, fun hn => ?_⟩
        · obtain ⟨h1, h2⟩ := ih1 hin
          refine ⟨h1, ?_⟩
          by_cases hd : db = d.toNat
          · rw [hd]
            exact Int.lt_of_not_ge hneg
          · rwa [Function.update_of_ne hd] at h2
        · obtain ⟨i, hi, he⟩ := hin
          exact absurd ⟨i, List.mem_cons_of_mem _ hi, he⟩ hn
      · have h2 := ih2 hin
        by_cases hd : db = d.toNat
        · rw [hd, Function.update_self] at h2
          refine ⟨fun _ => ?_, fun hn => absurd ⟨d, List.mem_cons_self, hd.symm⟩ hn⟩
          rw [hd]
          exact ⟨h2, Int.lt_of_not_ge hneg⟩
        · rw [Function.update_of_ne hd] at h2
          refine ⟨?_, fun _ => h2⟩
          rintro ⟨i, hi, he⟩
          rcases List.mem_cons.mp hi with rfl | hi
          · exact absurd he.symm hd
          · exact absurd ⟨i, hi, he⟩ hin

theorem toShort_of_lt {i : Nat} (h : i < 2 ^ 15) : toShort i = i := by
  unfold toShort
  rw [Nat.mod_eq_of_lt (by omega), if_pos h]

theorem MapOk.snoc {ms : List MachineConfig} {groupMap groupMap' : Nat → Int} (h : MapOk ms groupMap) (m : MachineConfig)
    (hlen : ms.length < 2 ^ 15) (hm : (m.dummy = true ∧ mapDbs gmapDummy m.dbIdx groupMap = some groupMap') ∨
      (m.dummy = false ∧ m.allProcs = 0 ∧ groupMap' = groupMap) ∨
      (m.dummy = false ∧ mapDbs (toShort ms.length) m.dbIdx groupMap = some groupMap')) : MapOk (ms ++ [m]) groupMap' := by
  intro db
  have hlast : (ms ++ [m])[ms.length]? = some m := by
    rw [List.getElem?_append_right (Nat.le_refl _), Nat.sub_self]
    rfl
  have hmem : m ∈ ms ++ [m] := List.mem_append_right _ List.mem_cons_self
  -- a database that the machine does not list keeps its entry
  have hkeep : (¬ (∃ i ∈ m.dbIdx, i.toNat = db) ∨ m.dummy = false ∧ m.allProcs = 0) →
      EntryOk (ms ++ [m]) db (groupMap db) := by
    intro hnot
    rcases h db with ⟨h1, h2⟩ | ⟨h1, d, hd, hd'⟩ | ⟨k, d, h1, h2, h3⟩
    · refine .inl ⟨h1, fun d hd hl => ?_⟩
      rcases List.mem_append.mp hd with hd | hd
      · exact h2 d hd hl
      · rw [List.mem_singleton.mp hd] at hl ⊢
        rcases hnot with hnot | hnot
        · exact absurd hl hnot
        · exact hnot
    · exact .inr (.inl ⟨h1, d, List.mem_append_left _ hd, hd'⟩)
    · have hk : k < ms.length := (List.getElem?_eq_some_iff.mp h2).1
      exact .inr (.inr ⟨k, d, h1, by rw [List.getElem?_append_left hk, h2], h3⟩)
  by_cases hin : ∃ i ∈ m.dbIdx, i.toNat = db
  · rcases hm with ⟨hd, hmap⟩ | ⟨hd, h0, rfl⟩ | ⟨hd, hmap⟩
    · exact .inr (.inl ⟨((mapDbs_spec _ _ hmap db).1 hin).1, m, hmem, hd, hin⟩)
    · exact hkeep (.inr ⟨hd, h0⟩)
    · refine .inr (.inr ⟨ms.length, m, ?_, hlast, hd, hin⟩)
      rw [((mapDbs_spec _ _ hmap db).1 hin).1, toShort_of_lt hlen]
  · have he : groupMap' db = groupMap db := by
      rcases hm with ⟨-, hmap⟩ | ⟨-, -, rfl⟩ | ⟨-, hmap⟩
      · exact (mapDbs_spec _ _ hmap db).2 hin
      · rfl
      · exact (mapDbs_spec _ _ hmap db).2 hin
    rw [he]
    exact hkeep (.inl hin)

theorem loadMachines_spec : ∀ (ms' ms : List MachineConfig) {groupMap groupMap' : Nat → Int}, MapOk ms groupMap →
    ms.length + ms'.length ≤ 2 ^ 15 → loadMachines ms.length ms' groupMap = some groupMap' → MapOk (ms ++ ms') groupMap'
  | [], ms, _, _, h, _, hl => by
    obtain rfl := Option.some.inj hl
    rwa [List.append_nil]
  | m :: ms', ms, groupMap, groupMap', h, hlen, hl => by
    rw [List.length_cons] at hlen
    have hrest : ∀ gm, MapOk (ms ++ [m]) gm → loadMachines (ms.length + 1) ms' gm = some groupMap' →
        MapOk (ms ++ m :: ms') groupMap' := by
      intro gm hgm hl'
      have hlen' : (ms ++ [m]).length = ms.length + 1 := by rw [List.length_append, List.length_singleton]
      rw [List.append_cons]
      exact loadMachines_spec ms' (ms ++ [m]) hgm (by omega) (by rw [hlen']; exact hl')
    rw [loadMachines] at hl
    split at hl
    · rename_i hd
      obtain ⟨gm, h1, h2⟩ := Option.bind_eq_some_iff.mp hl
      exact hrest gm (h.snoc m (by omega) (.inl ⟨hd, h1⟩)) h2
    · rename_i hd
      have hd' : m.dummy = false := by simpa using hd
      split at hl
      · rename_i h0
        exact hrest groupMap (h.snoc m (by omega) (.inr (.inl ⟨hd', h0, rfl⟩))) hl
      · obtain ⟨gm, h1, h2⟩ := Option.bind_eq_some_iff.mp hl
        exact hrest gm (h.snoc m (by omega) (.inr (.inr ⟨hd', h1⟩))) h2

theorem loadConfig_spec {cfg : CDbConfig} {groupMap : Nat → Int} (hlen : cfg.mach.length ≤ 2 ^ 15)
    (hl : loadConfig cfg = some groupMap) : MapOk cfg.mach groupMap := by
  have h0 : MapOk [] (fun _ => gmapNone) := fun db => .inl ⟨rfl, fun m hm => absurd hm List.not_mem_nil⟩
  exact loadMachines_spec cfg.mach [] h0 (by simpa using hlen) hl

end Load

section Numbers

variable {cfg : CDbConfig} {key : KeyValue}

def dispatchDb (cfg : CDbConfig) (word : List UInt8 → UInt64) (key : KeyValue) : Nat :=
  dispatchNumber cfg word key / cfg.dbDiv % cfg.dbMod

def helperDb (cfg : CDbConfig) (key : KeyValue) : Nat := helperNumber cfg key / cfg.dbDiv % cfg.dbMod

/-- A deployment that `ParseDbConfig` accepts. -/
structure CDbConfig.Valid (cfg : CDbConfig) : Prop where
  dbDiv : 0 < cfg.dbDiv
  dbMod : 0 < cfg.dbMod
  dbModLe : cfg.dbMod ≤ 1000000
  tblMod : 0 < cfg.tblMod
  tblModLt : cfg.tblMod < 2 ^ 32
  dbMax : cfg.dbMod ≤ cfg.dbMax
  one : cfg.depoly = 0 → cfg.dbMod = 1 ∧ cfg.tblMod = 1
  /-- strings without a key hash are in one database -/
  str : cfg.keyType = .string ∨ cfg.keyType = .binary → cfg.keyHash = none → cfg.dbMod = 1

theorem dispatchDb_eq_iff (hv : cfg.Valid) (hkey : key.HasType cfg.keyType) (word : List UInt8 → UInt64) :
    dispatchDb cfg word key = helperDb cfg key ↔ KeyAgrees cfg key := by
  unfold dispatchDb helperDb dispatchNumber helperNumber KeyAgrees
  cases key with
  | str bytes =>
    dsimp only
    rw [iff_true]
    cases hh : cfg.keyHash with
    | some hash => rfl
    | none =>
      rw [hv.str hkey hh, Nat.mod_one, Nat.mod_one]
  | int v =>
    dsimp only
    have hlt : v.toNat < 2 ^ 64 := v.toNat_lt
    cases hh : cfg.keyHash with
    | some hash => simp
    | none =>
      dsimp only
      simp only [Option.isSome_none, Bool.false_eq_true, false_or]
      by_cases hs : cfg.keyType = .signed
      · rw [if_pos hs, if_pos hs]
        by_cases hneg : 2 ^ 63 ≤ v.toNat
        · rw [if_pos hneg, if_neg (by omega)]
          by_cases hmin : v.toNat = 2 ^ 63
          · rw [if_pos hmin, hmin, Nat.zero_div, Nat.zero_mod]
            simp
          · rw [if_neg hmin]
            exact iff_of_true rfl (.inl hmin)
        · rw [if_neg hneg, if_pos (by omega)]
          simp only [true_iff]
          exact .inl (by omega)
      · rw [if_neg hs, if_neg hs]
        by_cases hneg : 2 ^ 63 ≤ v.toNat
        · rw [if_pos hneg]
          constructor
          · exact fun h => .inr h
          · rintro (h | h)
            · omega
            · exact h
        · rw [if_neg hneg]
          simp only [true_iff]
          exact .inl (by omega)

theorem toInt32_of_lt {n : Nat} (h : n < 2 ^ 31) : toInt32 n = n := by
  unfold toInt32
  rw [Nat.mod_eq_of_lt (by omega), if_pos h]

theorem toInt32_neg {n : Nat} (h : 2 ^ 31 ≤ n) (hlt : n < 2 ^ 32) : toInt32 n < 0 := by
  unfold toInt32
  rw [Nat.mod_eq_of_lt hlt, if_neg (by omega)]
  omega

/-- The helper's table index fits in an `int`. -/
def TableFits (cfg : CDbConfig) (key : KeyValue) : Prop :=
  cfg.depoly = 0 ∨ helperNumber cfg key / cfg.tblDiv % cfg.tblMod < 2 ^ 31

theorem initTableName_spec (hv : cfg.Valid) (key : KeyValue) :
    (initTableName cfg key).1 = helperDb cfg key ∧ helperDb cfg key < cfg.dbMod ∧
      ((0 ≤ (initTableName cfg key).2 ∧ (initTableName cfg key).2 < cfg.tblMod) ↔ TableFits cfg key) := by
  have hdb : helperDb cfg key < cfg.dbMod := Nat.mod_lt _ hv.dbMod
  have htbl : helperNumber cfg key / cfg.tblDiv % cfg.tblMod < cfg.tblMod := Nat.mod_lt _ hv.tblMod
  have hle := hv.dbModLe
  have hlt := hv.tblModLt
  have hdb' : helperNumber cfg key / cfg.dbDiv % cfg.dbMod < cfg.dbMod := hdb
  refine ⟨?_, hdb, ?_⟩
  · unfold initTableName
    by_cases h0 : cfg.depoly = 0
    · rw [if_pos h0, helperDb, (hv.one h0).1, Nat.mod_one]
      rfl
    · rw [if_neg h0]
      exact toInt32_of_lt (by omega)
  · unfold initTableName TableFits
    by_cases h0 : cfg.depoly = 0
    · rw [if_pos h0, (hv.one h0).2]
      simp [h0]
    · rw [if_neg h0]
      by_cases hfit : helperNumber cfg key / cfg.tblDiv % cfg.tblMod < 2 ^ 31
      · rw [toInt32_of_lt hfit]
        simp only [h0, false_or, hfit, iff_true]
        omega
      · have hneg := toInt32_neg (Nat.le_of_not_lt hfit) (by omega)
        simp only [h0, false_or, hfit, iff_false]
        omega

end Numbers

section Deployments

variable {raw : RawDbConfig} {cfg : CDbConfig} {key : KeyValue}

theorem parseNum_some {num : Option (UInt32 × UInt32)} {p : Nat × Nat} (h : parseNum num = some p) :
    0 < p.1 ∧ 0 < p.2 ∧ p.2 < 2 ^ 32 := by
  obtain ⟨x, -, hx⟩ := Option.bind_eq_some_iff.mp h
  split at hx
  · cases hx
  · rename_i hne
    obtain rfl := Option.some.inj hx
    rw [not_or] at hne
    refine ⟨?_, ?_, x.2.toNat_lt⟩
    · exact Nat.pos_of_ne_zero (fun h0 => hne.1 (UInt32.toNat_inj.mp h0))
    · exact Nat.pos_of_ne_zero (fun h0 => hne.2 (UInt32.toNat_inj.mp h0))

theorem parseSpread_some {deploy bit : UInt8} {num : Option (UInt32 × UInt32)} {p : Nat × Nat}
    (h : parseSpread deploy bit num = some p) :
    0 < p.1 ∧ 0 < p.2 ∧ p.2 < 2 ^ 32 ∧ (deploy &&& bit = 0 → p.2 = 1) := by
  unfold parseSpread at h
  split at h
  · obtain rfl := Option.some.inj h
    exact ⟨Nat.one_pos, Nat.one_pos, by decide, fun _ => rfl⟩
  · rename_i hbit
    obtain ⟨h1, h2, h3⟩ := parseNum_some h
    exact ⟨h1, h2, h3, fun h0 => absurd h0 hbit⟩

/-- Every condition that the rest of `ParseDbConfig` puts on the machines: their number, and that they list known
databases. -/
structure MachinesOk (raw : RawDbConfig) (dbMax : Nat) (mach : List MachineConfig) : Prop where
  length : mach.length = raw.machineNum.toNat
  known : ∀ m ∈ mach, ∀ i ∈ m.dbIdx, i.toNat < dbMax

theorem parseMachines_some {db tbl : Nat × Nat} {mach : List MachineConfig} (h : parseMachines raw db tbl mach = some cfg)
    (hdb : 0 < db.1 ∧ 0 < db.2 ∧ (raw.deploy &&& 1 = 0 → db.2 = 1))
    (htbl : 0 < tbl.2 ∧ tbl.2 < 2 ^ 32 ∧ (raw.deploy &&& 2 = 0 → tbl.2 = 1)) :
    cfg.Valid ∧ cfg.keyType = raw.keyType ∧ 0 < raw.machineNum ∧ cfg.mach = mach ∧ MachinesOk raw cfg.dbMax mach ∧
      ∀ mach', MachinesOk raw cfg.dbMax mach' → parseMachines raw db tbl mach' = some { cfg with mach := mach' } := by
  unfold parseMachines at h
  dsimp only at h
  split at h
  · cases h
  rename_i h1
  split at h
  · cases h
  rename_i h2
  split at h
  · cases h
  rename_i h3
  split at h
  · cases h
  rename_i h4
  split at h
  · cases h
  rename_i h5
  obtain rfl := Option.some.inj h
  have hlen : mach.length = raw.machineNum.toNat := Decidable.not_not.mp h2
  have hknown : ∀ ms : List MachineConfig,
      ¬ (ms.any (fun m => m.dbIdx.any (fun i => decide (max raw.dbMax.toNat db.2 ≤ i.toNat))) = true) ↔
        ∀ m ∈ ms, ∀ i ∈ m.dbIdx, i.toNat < max raw.dbMax.toNat db.2 := by
    intro ms
    simp only [List.any_eq_true, decide_eq_true_eq, not_exists, not_and, Nat.not_le]
  refine ⟨?_, rfl, ?_, rfl, ⟨hlen, (hknown mach).mp h3⟩, ?_⟩
  · refine ⟨hdb.1, hdb.2.1, ?_, htbl.1, htbl.2.1, Nat.le_max_right _ _, ?_, ?_⟩
    · exact Nat.le_of_not_lt (fun hlt => h1 (.inr (.inl hlt)))
    · intro h0
      have h0' : raw.deploy = 0 := h0
      exact ⟨hdb.2.2 (by rw [h0']; rfl), htbl.2.2 (by rw [h0']; rfl)⟩
    · intro hstr hnone
      have hnone' : raw.keyHash.isNone = true := by
        rw [show raw.keyHash = none from hnone]
        rfl
      by_contra hmod
      -- a string without a key hash is accepted with one database only
      refine h5 ⟨.inl ⟨hstr, hnone'⟩, ?_⟩
      by_contra hone
      rw [not_or, not_or, not_not, not_not, not_not] at hone
      exact hmod (hdb.2.2 (by rw [hone.2.2]; rfl))
  · exact Int.lt_of_not_ge (fun hle => h1 (.inl hle))
  · intro mach' hok
    unfold parseMachines
    dsimp only
    have hlen' : mach'.length = mach.length := by rw [hok.length, hlen]
    rw [if_neg h1, if_neg (not_not.mpr hok.length), if_neg ((hknown mach').mpr hok.known), if_neg h4, hlen', if_neg h5]

theorem parseDbConfig_some {mach : List MachineConfig} (h : parseDbConfig raw mach = some cfg) :
    cfg.Valid ∧ cfg.keyType = raw.keyType ∧ 0 < raw.machineNum ∧ cfg.mach = mach ∧ MachinesOk raw cfg.dbMax mach ∧
      ∀ mach', MachinesOk raw cfg.dbMax mach' → parseDbConfig raw mach' = some { cfg with mach := mach' } := by
  obtain ⟨db, hdb, h⟩ := Option.bind_eq_some_iff.mp h
  obtain ⟨tbl, htbl, h⟩ := Option.bind_eq_some_iff.mp h
  obtain ⟨d1, d2, -, d4⟩ := parseSpread_some hdb
  obtain ⟨-, t2, t3, t4⟩ := parseSpread_some htbl
  obtain ⟨hv, hty, hpos, hmach, hok, hother⟩ := parseMachines_some h ⟨d1, d2, d4⟩ ⟨t2, t3, t4⟩
  refine ⟨hv, hty, hpos, hmach, hok, fun mach' hok' => ?_⟩
  unfold parseDbConfig
  rw [hdb, Option.bind_some, htbl, Option.bind_some]
  exact hother mach' hok'

theorem parseMachines_dbMax {db tbl : Nat × Nat} {mach : List MachineConfig} (h : parseMachines raw db tbl mach = some cfg) :
    cfg.dbMax = max raw.dbMax.toNat db.2 := by
  unfold parseMachines at h
  dsimp only at h
  repeat
    split at h
    · cases h
  obtain rfl := Option.some.inj h
  rfl

theorem parseDbConfig_dbMax {cfg' : CDbConfig} {mach mach' : List MachineConfig} (h : parseDbConfig raw mach = some cfg)
    (h' : parseDbConfig raw mach' = some cfg') : cfg'.dbMax = cfg.dbMax := by
  obtain ⟨db, hdb, h⟩ := Option.bind_eq_some_iff.mp h
  obtain ⟨tbl, htbl, h⟩ := Option.bind_eq_some_iff.mp h
  obtain ⟨db', hdb', h'⟩ := Option.bind_eq_some_iff.mp h'
  obtain ⟨tbl', htbl', h'⟩ := Option.bind_eq_some_iff.mp h'
  rw [hdb] at hdb'
  obtain rfl := Option.some.inj hdb'
  rw [parseMachines_dbMax h, parseMachines_dbMax h']

/-- A machine without databases has no processes. -/
abbrev idleMachine : MachineConfig := { dbIdx := [] }

abbrev machineOf (db : UInt16) : MachineConfig := { dbIdx := [db], room := Nat.le_of_ble_eq_true rfl }

theorem machineOf_procs (db : UInt16) : (machineOf db).allProcs ≠ 0 ∧ (machineOf db).gprocs 0 ≠ 0 := by
  constructor
  · simp [MachineConfig.allProcs, MachineConfig.gprocs]
  · simp [MachineConfig.gprocs]

theorem loadMachines_idle (gm : Nat → Int) : ∀ (n i : Nat) (ms : List MachineConfig),
    loadMachines i (List.replicate n idleMachine ++ ms) gm = loadMachines (i + n) ms gm
  | 0, _, _ => rfl
  | n + 1, i, ms => by
    rw [List.replicate_succ, List.cons_append, loadMachines, if_neg (by decide), if_pos (by decide),
      loadMachines_idle gm n (i + 1) ms, Nat.add_right_comm, Nat.add_assoc]

/-- `n` machines of which only the one at `k` lists a database. -/
def oneMachine (n k : Nat) (db : UInt16) : List MachineConfig :=
  List.replicate k idleMachine ++ machineOf db :: List.replicate (n - k - 1) idleMachine

theorem loadMachines_oneMachine (n k : Nat) (db : UInt16) :
    loadMachines 0 (oneMachine n k db) (fun _ => gmapNone) =
      some (Function.update (fun _ => gmapNone) db.toNat (toShort k)) := by
  have hidle := loadMachines_idle (Function.update (fun _ => gmapNone) db.toNat (toShort k)) (n - k - 1) (k + 1) []
  rw [List.append_nil] at hidle
  rw [oneMachine, loadMachines_idle, Nat.zero_add, loadMachines, if_neg Bool.false_ne_true,
    if_neg (machineOf_procs db).1, mapDbs, if_neg (by decide), mapDbs, Option.bind_some, hidle, loadMachines]

theorem oneMachine_ok {n k dbMax : Nat} {db : UInt16} (hn : raw.machineNum.toNat = n) (hk : k < n)
    (hdb : db.toNat < dbMax) : MachinesOk raw dbMax (oneMachine n k db) := by
  constructor
  · rw [hn, oneMachine, List.length_append, List.length_cons, List.length_replicate, List.length_replicate]
    omega
  · intro m hm i hi
    rcases List.mem_append.mp hm with hm | hm
    · rw [List.eq_of_mem_replicate hm] at hi
      exact absurd hi List.not_mem_nil
    · rcases List.mem_cons.mp hm with rfl | hm
      · rwa [List.mem_singleton.mp hi]
      · rw [List.eq_of_mem_replicate hm] at hi
        exact absurd hi List.not_mem_nil

theorem oneMachine_get (n k : Nat) (db : UInt16) : (oneMachine n k db)[k]? = some (machineOf db) := by
  unfold oneMachine
  rw [List.getElem?_append_right (Nat.le_of_eq List.length_replicate), List.length_replicate, Nat.sub_self]
  rfl

theorem oneMachine_mem (n k : Nat) (db : UInt16) : machineOf db ∈ oneMachine n k db :=
  List.mem_of_getElem? (oneMachine_get n k db)

theorem allIdle_ok {dbMax : Nat} : MachinesOk raw dbMax (List.replicate raw.machineNum.toNat idleMachine) := by
  constructor
  · rw [List.length_replicate]
  · intro m hm i hi
    rw [List.eq_of_mem_replicate hm] at hi
    exact absurd hi List.not_mem_nil

theorem loadMachines_allIdle (n : Nat) :
    loadMachines 0 (List.replicate n idleMachine) (fun _ => gmapNone) = some (fun _ => gmapNone) := by
  have h := loadMachines_idle (fun _ => gmapNone) n 0 []
  rwa [List.append_nil] at h

end Deployments

section Routing

variable {raw : RawDbConfig} {cfg : CDbConfig} {key : KeyValue}

theorem lastGroup_some {m : MachineConfig} (h : m.dbIdx ≠ []) : ∀ g, ∃ k, lastGroup m (g + 1) = some k
  | 0 => by
    have h0 : m.gprocs 0 ≠ 0 := by
      change (if m.dbIdx = [] then 0 else if m.procs < 1 then 1 else m.procs) ≠ 0
      rw [if_neg h]
      by_cases hp : m.procs < 1
      · rw [if_pos hp]
        decide
      · rw [if_neg hp]
        intro h0
        rw [h0] at hp
        exact hp (by decide)
    exact ⟨0, by rw [lastGroup, if_pos h0]⟩
  | g + 1 => by
    rw [lastGroup]
    by_cases hg : m.gprocs (g + 1) ≠ 0
    · exact ⟨g + 1, if_pos hg⟩
    · rw [if_neg hg]
      exact lastGroup_some h g

theorem pickGroup_group {m : MachineConfig} (h : m.dbIdx ≠ []) (machine : Nat) (t : RouteTask) :
    ∃ g, pickGroup m machine t = .group machine g := by
  unfold pickGroup
  split
  · exact ⟨_, rfl⟩
  · have hcode : ∃ g, t.type.code = g + 1 := by
      cases t.type with
      | read => exact ⟨0, rfl⟩
      | write => exact ⟨1, rfl⟩
      | commit => exact ⟨2, rfl⟩
    obtain ⟨g, hg⟩ := hcode
    obtain ⟨k, hk⟩ := lastGroup_some h g
    rw [hg, hk]
    exact ⟨k, rfl⟩

def pickEntry (cfg : CDbConfig) (machineId : Int) (t : RouteTask) : Picked :=
  if machineId = gmapNone then .none
  else if machineId = gmapDummy then .dummy
  else if machineId < 0 then .wild
  else
    match cfg.mach[machineId.toNat]? with
    | some m => pickGroup m machineId.toNat t
    | none => .wild

theorem selectGroup_eq (cfg : CDbConfig) (gm : Nat → Int) (word : List UInt8 → UInt64) (t : RouteTask) :
    selectGroup cfg gm word t = pickEntry cfg (gm (dispatchDb cfg word t.key)) t := rfl

theorem pickEntry_machine {k : Nat} {m : MachineConfig} (hm : cfg.mach[k]? = some m) (hne : m.dbIdx ≠ [])
    (t : RouteTask) : ∃ g, pickEntry cfg k t = .group k g := by
  obtain ⟨g, hg⟩ := pickGroup_group hne k t
  refine ⟨g, ?_⟩
  rw [pickEntry, if_neg (show (k : Int) ≠ -1 by omega), if_neg (show (k : Int) ≠ -2 by omega), if_neg (by omega),
    Int.toNat_natCast, hm]
  exact hg

theorem selectGroup_owns {gm : Nat → Int} (hmap : MapOk cfg.mach gm) (word : List UInt8 → UInt64) (t : RouteTask) :
    Owns cfg (dispatchDb cfg word t.key) (selectGroup cfg gm word t) := by
  rw [selectGroup_eq]
  rcases hmap (dispatchDb cfg word t.key) with ⟨h1, h2⟩ | ⟨h1, h2⟩ | ⟨k, m, h1, h2, h3, h4⟩
  · rw [h1, pickEntry, if_pos rfl]
    exact h2
  · rw [h1, pickEntry, if_neg (by decide), if_pos rfl]
    exact h2
  · have hne : m.dbIdx ≠ [] := by
      obtain ⟨i, hi, -⟩ := h4
      exact List.ne_nil_of_mem hi
    obtain ⟨g, hg⟩ := pickEntry_machine h2 hne t
    rw [h1, hg]
    exact ⟨m, h2, h3, h4⟩

/-- No machine can list the two databases of a key: the numbers in `DbIdx` have 16 bits. -/
def Unlisted (cfg : CDbConfig) (key : KeyValue) : Prop :=
  2 ^ 16 ≤ helperDb cfg key ∧ ∀ word, 2 ^ 16 ≤ dispatchDb cfg word key

theorem mapDbs_unlisted (id : Int) {dbs : List UInt16} {gm gm' : Nat → Int} (h : mapDbs id dbs gm = some gm') {db : Nat}
    (hdb : 2 ^ 16 ≤ db) : gm' db = gm db := by
  refine (mapDbs_spec id dbs h db).2 ?_
  rintro ⟨i, -, hi⟩
  have := i.toNat_lt
  omega

theorem loadMachines_unlisted {db : Nat} (hdb : 2 ^ 16 ≤ db) : ∀ (ms : List MachineConfig) (i : Nat) {gm gm' : Nat → Int},
    loadMachines i ms gm = some gm' → gm' db = gm db
  | [], _, _, _, h => by rw [Option.some.inj h]
  | m :: ms, i, gm, gm', h => by
    rw [loadMachines] at h
    split at h
    · obtain ⟨gm1, h1, h2⟩ := Option.bind_eq_some_iff.mp h
      rw [loadMachines_unlisted hdb ms _ h2, mapDbs_unlisted _ h1 hdb]
    · split at h
      · exact loadMachines_unlisted hdb ms _ h
      · obtain ⟨gm1, h1, h2⟩ := Option.bind_eq_some_iff.mp h
        rw [loadMachines_unlisted hdb ms _ h2, mapDbs_unlisted _ h1 hdb]

theorem selectGroup_unlisted {gm : Nat → Int} (hl : loadConfig cfg = some gm) (word : List UInt8 → UInt64) {t : RouteTask}
    (h : 2 ^ 16 ≤ dispatchDb cfg word t.key) : selectGroup cfg gm word t = .none := by
  have hnone : gm (dispatchDb cfg word t.key) = gmapNone := loadMachines_unlisted h _ _ hl
  rw [selectGroup_eq, hnone, pickEntry, if_pos rfl]

theorem owns_unlisted {db : Nat} (h : 2 ^ 16 ≤ db) : Owns cfg db .none := by
  rintro m - ⟨i, -, hi⟩
  have := i.toNat_lt
  omega

theorem routedRight_iff_owns (hv : cfg.Valid) {gm : Nat → Int} (word : List UInt8 → UInt64) (t : RouteTask) :
    RoutedRight cfg gm word t ↔ TableFits cfg t.key ∧ Owns cfg (helperDb cfg t.key) (selectGroup cfg gm word t) := by
  obtain ⟨h1, h2, h3⟩ := initTableName_spec hv t.key
  constructor
  · rintro ⟨db, hdb, -, hown, htbl⟩
    rw [h1] at hdb
    rw [Int.natCast_inj.mp hdb]
    exact ⟨h3.mp htbl, hown⟩
  · rintro ⟨hfit, hown⟩
    exact ⟨helperDb cfg t.key, h1, h2, hown, h3.mpr hfit⟩

theorem selectGroup_oneMachine (cfg : CDbConfig) (n k : Nat) (db : UInt16) (word : List UInt8 → UInt64) (t : RouteTask) :
    let cfg' := { cfg with mach := oneMachine n k db }
    let gm := Function.update (fun _ => gmapNone) db.toNat (toShort k)
    (dispatchDb cfg word t.key ≠ db.toNat → selectGroup cfg' gm word t = .none) ∧
      (dispatchDb cfg word t.key = db.toNat → toShort k = k → ∃ g, selectGroup cfg' gm word t = .group k g) ∧
      (dispatchDb cfg word t.key = db.toNat → toShort k < -2 → selectGroup cfg' gm word t = .wild) := by
  intro cfg' gm
  have hdb : dispatchDb cfg' word t.key = dispatchDb cfg word t.key := rfl
  rw [selectGroup_eq, hdb]
  refine ⟨fun hne => ?_, fun he hk => ?_, fun he hneg => ?_⟩
  · rw [show gm (dispatchDb cfg word t.key) = gmapNone from Function.update_of_ne hne _ _, pickEntry, if_pos rfl]
  · rw [he, show gm db.toNat = toShort k from Function.update_self .., hk]
    exact pickEntry_machine (oneMachine_get n k db) (List.cons_ne_nil _ _) t
  · rw [he, show gm db.toNat = toShort k from Function.update_self .., pickEntry,
      if_neg (show toShort k ≠ -1 by omega), if_neg (show toShort k ≠ -2 by omega), if_pos (by omega)]

/-- **A key is routed right under every set of machines exactly when** its table index fits in an `int` and the dispatcher
and the helper agree on its database, the machines being few enough to be numbered by a `short`; or no machine can list
its databases. -/
theorem routedRight_iff {mach₀ : List MachineConfig} (h₀ : parseDbConfig raw mach₀ = some cfg)
    (hkey : key.HasType raw.keyType) :
    (∀ (mach : List MachineConfig) (cfg' : CDbConfig) (gm : Nat → Int), parseDbConfig raw mach = some cfg' →
      loadConfig cfg' = some gm → ∀ (word : List UInt8 → UInt64) (t : RouteTask), t.key = key →
        RoutedRight cfg' gm word t) ↔
      TableFits cfg key ∧ (Unlisted cfg key ∨ KeyAgrees cfg key ∧ raw.machineNum ≤ 2 ^ 15) := by
  obtain ⟨hv, hty, hpos, hmach, hok, hother⟩ := parseDbConfig_some h₀
  rw [← hty] at hkey
  have hagree := fun word => dispatchDb_eq_iff hv hkey word
  constructor
  · intro hall
    -- the task with this key on a deployment of machines of our choice
    let t : RouteTask := { key := key, type := .read }
    have hright : ∀ mach gm, MachinesOk raw cfg.dbMax mach → loadMachines 0 mach (fun _ => gmapNone) = some gm →
        ∀ word, TableFits cfg key ∧ Owns { cfg with mach := mach } (helperDb cfg key)
          (selectGroup { cfg with mach := mach } gm word t) := by
      intro mach gm hok' hl word
      have hv' : ({ cfg with mach := mach } : CDbConfig).Valid :=
        ⟨hv.dbDiv, hv.dbMod, hv.dbModLe, hv.tblMod, hv.tblModLt, hv.dbMax, hv.one, hv.str⟩
      exact (routedRight_iff_owns hv' word t).mp (hall mach _ gm (hother mach hok') hl word t rfl)
    refine ⟨(hright _ _ allIdle_ok (loadMachines_allIdle _) (fun _ => 0)).1, ?_⟩
    -- with one machine that lists one database
    have hone : ∀ (k : Nat) (db : UInt16), k < raw.machineNum.toNat → db.toNat < cfg.dbMax → ∀ word,
        Owns { cfg with mach := oneMachine raw.machineNum.toNat k db } (helperDb cfg key)
          (selectGroup { cfg with mach := oneMachine raw.machineNum.toNat k db }
            (Function.update (fun _ => gmapNone) db.toNat (toShort k)) word t) := by
      intro k db hk hdb word
      exact (hright _ _ (oneMachine_ok rfl hk hdb) (loadMachines_oneMachine _ k db) word).2
    have hpos' : 0 < raw.machineNum.toNat := by omega
    have hlt : ∀ word, dispatchDb cfg word key < cfg.dbMod := fun word => Nat.mod_lt _ hv.dbMod
    have hlt' : helperDb cfg key < cfg.dbMod := Nat.mod_lt _ hv.dbMod
    have hmax := hv.dbMax
    have hnum : ∀ {n : Nat}, n < 2 ^ 16 → ∃ db : UInt16, db.toNat = n :=
      fun {n} hn => ⟨UInt16.ofNat n, UInt16.toNat_ofNat_of_lt' hn⟩
    by_cases hka : KeyAgrees cfg key
    · by_cases hbig : 2 ^ 16 ≤ helperDb cfg key
      · exact .inl ⟨hbig, fun word => by rw [(hagree word).mpr hka]; exact hbig⟩
      · refine .inr ⟨hka, ?_⟩
        by_contra hn
        obtain ⟨db, hdb⟩ := hnum (Nat.lt_of_not_ge hbig)
        have hown := hone (2 ^ 15) db (by omega) (by omega) (fun _ => 0)
        obtain ⟨-, -, hwild⟩ := selectGroup_oneMachine cfg raw.machineNum.toNat (2 ^ 15) db (fun _ => 0) t
        rw [hwild (by rw [hdb]; exact (hagree _).mpr hka) (by decide)] at hown
        exact hown
    · refine .inl ⟨?_, fun word => ?_⟩
      · by_contra hsmall
        obtain ⟨db, hdb⟩ := hnum (Nat.lt_of_not_ge hsmall)
        have hown := hone 0 db hpos' (by omega) (fun _ => 0)
        obtain ⟨hnone, -, -⟩ := selectGroup_oneMachine cfg raw.machineNum.toNat 0 db (fun _ => 0) t
        rw [hnone (by rw [hdb]; exact fun he => hka ((hagree _).mp he))] at hown
        have hm := hown (machineOf db) (oneMachine_mem _ _ _) ⟨db, List.mem_cons_self, hdb⟩
        exact (machineOf_procs db).1 hm.2
      · by_contra hsmall
        obtain ⟨db, hdb⟩ := hnum (Nat.lt_of_not_ge hsmall)
        have hown := hone 0 db hpos' (by have := hlt word; omega) word
        obtain ⟨-, hgroup, -⟩ := selectGroup_oneMachine cfg raw.machineNum.toNat 0 db word t
        obtain ⟨g, hg⟩ := hgroup hdb.symm (by decide)
        rw [hg] at hown
        obtain ⟨m, hm, -, i, hi, he⟩ := hown
        have hmof : m = machineOf db := by
          have hget := oneMachine_get raw.machineNum.toNat 0 db
          exact Option.some.inj (hm.symm.trans hget)
        rw [hmof, List.mem_singleton] at hi
        rw [hi, hdb] at he
        exact hka ((hagree word).mp he)
  · rintro ⟨hfit, hdb⟩ mach cfg' gm hp hl word t rfl
    obtain ⟨hv', -, -, rfl, hok', -⟩ := parseDbConfig_some hp
    have he : cfg' = { cfg with mach := cfg'.mach } := by
      rw [parseDbConfig_dbMax h₀ hp] at hok'
      have hp' := hother cfg'.mach hok'
      rw [hp] at hp'
      exact Option.some.inj hp'
    rw [routedRight_iff_owns hv']
    have hfit' : TableFits cfg' t.key := by rw [he]; exact hfit
    refine ⟨hfit', ?_⟩
    rcases hdb with hun | ⟨hka, hn⟩
    · have h1 : 2 ^ 16 ≤ helperDb cfg' t.key := by rw [he]; exact hun.1
      have h2 : 2 ^ 16 ≤ dispatchDb cfg' word t.key := by rw [he]; exact hun.2 word
      rw [selectGroup_unlisted hl word h2]
      exact owns_unlisted h1
    · have hsame : dispatchDb cfg' word t.key = helperDb cfg' t.key := by rw [he]; exact (hagree word).mpr hka
      have hlen : cfg'.mach.length ≤ 2 ^ 15 := by
        rw [hok'.length]
        omega
      rw [← hsame]
      exact selectGroup_owns (loadConfig_spec hlen hl) word t

def tenDbs (keyType : FieldType) : RawDbConfig :=
  { deploy := 1, dbNum := some (1, 10), machineNum := 2, keyType := keyType }

def tenDbsMachines : List MachineConfig := [{ dbIdx := [0, 1, 2] }, { dbIdx := [3, 4, 5, 6, 7, 8, 9] }]

theorem routedRight_iff_seven : ∃ cfg gm, parseDbConfig (tenDbs .unsigned) tenDbsMachines = some cfg ∧
    loadConfig cfg = some gm ∧ RoutedRight cfg gm (fun _ => 0) { key := .int 7, type := .read } := by
  obtain ⟨cfg, hcfg, hload, hagree⟩ : ∃ cfg, parseDbConfig (tenDbs .unsigned) tenDbsMachines = some cfg ∧
      (∃ gm, loadConfig cfg = some gm) ∧ TableFits cfg (.int 7) ∧ KeyAgrees cfg (.int 7) :=
    ⟨_, rfl, ⟨_, rfl⟩, .inr (by decide), .inr (.inl (by decide))⟩
  obtain ⟨gm, hgm⟩ := hload
  have hright := (routedRight_iff hcfg (show (KeyValue.int 7).HasType .unsigned from Or.inr rfl)).mpr
    ⟨hagree.1, .inr ⟨hagree.2, by decide⟩⟩
  exact ⟨cfg, gm, hcfg, hgm, hright tenDbsMachines cfg gm hcfg hgm _ _ rfl⟩

/-- The unsigned key 2^64 - 2 is sent to the machine of database 2, where the helper works on database 4. -/
theorem routedRight_bigUnsigned : ∃ cfg gm, parseDbConfig (tenDbs .unsigned) tenDbsMachines = some cfg ∧
    loadConfig cfg = some gm ∧ (KeyValue.int 0xFFFFFFFFFFFFFFFE).HasType cfg.keyType ∧
      selectGroup cfg gm (fun _ => 0) { key := .int 0xFFFFFFFFFFFFFFFE, type := .read } = .group 0 0 ∧
      initTableName cfg (.int 0xFFFFFFFFFFFFFFFE) = (4, 0) ∧
      ¬ RoutedRight cfg gm (fun _ => 0) { key := .int 0xFFFFFFFFFFFFFFFE, type := .read } := by
  refine ⟨_, _, rfl, rfl, Or.inr rfl, by decide, by decide +kernel, ?_⟩
  rintro ⟨db, hdb, -, hown, -⟩
  obtain rfl : db = 4 := Int.natCast_inj.mp (hdb.symm.trans (by decide))
  obtain ⟨m, hm, -, hi⟩ := hown
  obtain rfl : { dbIdx := [0, 1, 2] } = m := Option.some.inj hm
  exact absurd hi (by decide)

end Routing

end Dtc
