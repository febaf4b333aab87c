import DtcServer.DbRoute
import DtcServer.HelperPool
import Mathlib.Data.Finset.Lattice.Fold
import Mathlib.Order.Interval.Finset.Nat
import Mathlib.Order.Lattice.Nat
/-!
# GroupMatrix — the array of helper groups (`CGroupCollect`)

`groups` has a row for each machine and a column for each role of its processes.  Every function that addresses an element
computes its place for itself.
-/
namespace Dtc

abbrev groupsPerMachine : Nat := 4

abbrev groupsPerRole : Nat := 3

abbrev masterCommitGroupColumn : Nat := 2

/-- A `CHelperGroup` in the array, with its names and the element it falls back on. -/
structure MachineGroup extends CHelperGroup where
  sockpath : String
  name : String
  fallback : Option Nat := none

/-- What of a machine's configuration only its groups take: `role[].path` and `gqueues`. -/
structure GroupSetup where
  path : Nat → String
  gqueues : Nat → UInt32

abbrev Groups := List (Option MachineGroup)

/-- An element that is addressed: the machine and the role that are meant, and its place. -/
structure Access where
  machine : Int
  role : Int
  place : Int
  deriving DecidableEq

/-- **Row times `GROUPS_PER_MACHINE` plus column**, of a machine there is. -/
def Access.Right (machineCnt : Nat) (a : Access) : Prop :=
  (0 ≤ a.machine ∧ a.machine < machineCnt) ∧ (0 ≤ a.role ∧ a.role < groupsPerMachine) ∧
    a.place = a.machine * groupsPerMachine + a.role

/-- The element at a place; `none` outside the array. -/
def element (groups : Groups) (place : Int) : Option (Option MachineGroup) :=
  if 0 ≤ place then groups[place.toNat]? else none

def loadRoles (m : MachineConfig) (setup : GroupSetup) (i : Nat) : List Nat → Groups → Option (Groups × List Access)
  | [], groups => some (groups, [])
  | j :: js, groups =>
    if m.gprocs j = 0 then loadRoles m setup i js groups
    else
      let place := i * groupsPerMachine + j
      let g : MachineGroup := {
        sockpath := setup.path (j / groupsPerRole)
        name := toString i ++ String.ofList ["ms?????".toList.getD (j / groupsPerRole) '?'] ++ toString (j % groupsPerRole)
        helperMax := (m.gprocs j).toNat
        queueSize := (setup.gqueues j).toNat
        readyHelperCnt := 0 }
      if place < groups.length then
        if groupsPerRole ≤ j then
          let groups := groups.set place (some g)
          (element groups (i * groupsPerMachine : Nat)).bind fun first =>
            let g := { g with fallback := first.map fun _ => i * groupsPerMachine }
            (loadRoles m setup i js (groups.set place (some g))).map fun r =>
              (r.1, ⟨i, j, place⟩ :: ⟨i, 0, (i * groupsPerMachine : Nat)⟩ :: r.2)
        else (loadRoles m setup i js (groups.set place (some g))).map fun r => (r.1, ⟨i, j, place⟩ :: r.2)
      else none

/-- The loop that makes the groups, from the machine `i` on. -/
def loadGroups (setup : Nat → GroupSetup) : Nat → List MachineConfig → Groups → Option (Groups × List Access)
  | _, [], groups => some (groups, [])
  | i, m :: ms, groups =>
    if m.dummy then loadGroups setup (i + 1) ms groups
    else (loadRoles m (setup i) i (List.range groupsPerMachine) groups).bind fun r =>
      (loadGroups setup (i + 1) ms r.1).map fun q => (q.1, r.2 ++ q.2)

structure CGroupCollect where
  dbConfig : CDbConfig
  hasDummyMachine : Bool
  groups : Groups
  groupMap : Nat → Int

namespace CGroupCollect

/-! The functions of `CGroupCollect`, with the elements they address; `none` where one of them is outside the array. -/

/-- `LoadConfig`; no object where it returns -1 for a database of two machines. -/
def loadConfig (cfg : CDbConfig) (setup : Nat → GroupSetup) : Option (Option CGroupCollect × List Access) :=
  match Dtc.loadConfig cfg with
  | none => some (none, [])
  | some groupMap =>
    (loadGroups setup 0 cfg.mach (List.replicate (cfg.mach.length * groupsPerMachine) none)).map fun r =>
      (some ⟨cfg, cfg.mach.any (·.dummy), r.1, groupMap⟩, r.2)

/-- `while(--g >= 0)`: the last of the first groups that the machine has. -/
def lastGroupOf (groups : Groups) (machineId : Int) : Nat → Option (Picked × List Access)
  | 0 => some (.none, [])
  | g + 1 =>
    let access : Access := ⟨machineId, g, machineId * groupsPerMachine + g⟩
    match element groups access.place with
    | none => none
    | some (some _) => some (.group machineId.toNat g, [access])
    | some none => (lastGroupOf groups machineId g).map fun r => (r.1, access :: r.2)

def selectGroup (c : CGroupCollect) (word : List UInt8 → UInt64) (t : RouteTask) : Option (Picked × List Access) :=
  let machineId := c.groupMap (dispatchNumber c.dbConfig word t.key / c.dbConfig.dbDiv % c.dbConfig.dbMod)
  if machineId = gmapNone then some (.none, [])
  else if machineId = gmapDummy then some (.dummy, [])
  else if t.isGet then
    let slave : Access := ⟨machineId, groupsPerRole, machineId * groupsPerMachine + groupsPerRole⟩
    (element c.groups slave.place).bind fun group =>
      if group.isSome ∧ t.inGuard = false then
        let role : Nat := match (c.dbConfig.mach[machineId.toNat]?).map MachineConfig.mode with
          | some .slave => 1
          | some .database | some .table | some .key => (t.barrierKey &&& 1).toNat
          | some .master | none => 0
        let picked : Access := ⟨machineId, role * groupsPerRole, machineId * groupsPerMachine + role * groupsPerRole⟩
        (element c.groups picked.place).map fun g =>
          (if g.isSome then .group machineId.toNat (role * groupsPerRole) else .none, [slave, picked])
      else (lastGroupOf c.groups machineId t.type.code).map fun r => (r.1, slave :: r.2)
  else lastGroupOf c.groups machineId t.type.code

/-- The loop of `DisableCommitGroup`: from the commit group on, every fourth element is deleted. -/
def disableLoop (bound : Nat) : Nat → Nat → Nat → Groups → Option (Groups × List Access)
  | 0, _, _, groups => some (groups, [])
  | n + 1, row, i, groups =>
    if i < bound then
      if i < groups.length then
        (disableLoop bound n (row + 1) (i + groupsPerMachine) (groups.set i none)).map fun r =>
          (r.1, ⟨row, masterCommitGroupColumn, i⟩ :: r.2)
      else none
    else some (groups, [])

def disableCommitGroup (c : CGroupCollect) : Option (CGroupCollect × List Access) :=
  let bound := c.dbConfig.mach.length * groupsPerMachine
  (disableLoop bound bound 0 2 c.groups).map fun r => ({ c with groups := r.1 }, r.2)

/-- The loop of `GetQueueCurMaxCount`, over `n` rows from `row` on. -/
def queueLoop (groups : Groups) (machineCnt : Nat) (iColumn : Int) : Nat → Nat → Nat → Option (Nat × List Access)
  | 0, _, maxcount => some (maxcount, [])
  | n + 1, row, maxcount =>
    let access : Access := ⟨row, iColumn, machineCnt * row + iColumn⟩
    match element groups access.place with
    | none => none
    | some none => (queueLoop groups machineCnt iColumn n (row + 1) maxcount).map fun r => (r.1, access :: r.2)
    | some (some readGroup) =>
      let maxcount := if readGroup.queue.length > maxcount then readGroup.queue.length else maxcount
      (queueLoop groups machineCnt iColumn n (row + 1) maxcount).map fun r => (r.1, access :: r.2)

def getQueueCurMaxCount (c : CGroupCollect) (iColumn : Int) : Option (Nat × List Access) :=
  if iColumn < 0 ∨ groupsPerMachine ≤ iColumn then some (0, [])
  else queueLoop c.groups c.dbConfig.mach.length iColumn c.dbConfig.mach.length 0 0

/-! ## What the functions are for -/

/-- The length of the queue of a machine's group; a group that is not there has none. -/
def queueOf (c : CGroupCollect) (role row : Nat) : Nat :=
  match c.groups[row * groupsPerMachine + role]? with
  | some (some g) => g.queue.length
  | _ => 0

def longest (c : CGroupCollect) (role : Nat) : Nat := (Finset.range c.dbConfig.mach.length).sup (c.queueOf role)

end CGroupCollect

/-- Every element that is addressed is the right one, and in the array. -/
def AddressedRight {α : Type} (machineCnt : Nat) (x : Option (α × List Access)) : Prop :=
  ∃ r log, x = some (r, log) ∧ ∀ a ∈ log, a.Right machineCnt

/-- **The matrix is used right**: the functions address the machine and the role they mean, and `GetQueueCurMaxCount`
answers the longest queue of the role. -/
structure CGroupCollect.MatrixRight (c : CGroupCollect) : Prop where
  select : ∀ word t, AddressedRight c.dbConfig.mach.length (c.selectGroup word t)
  disable : AddressedRight c.dbConfig.mach.length c.disableCommitGroup
  queue : ∀ role < groupsPerMachine, ∃ log, c.getQueueCurMaxCount role = some (c.longest role, log) ∧
    ∀ a ∈ log, a.Right c.dbConfig.mach.length

inductive GroupAction where
  /-- tasks come into the queue of a group, or leave it -/
  | queue (place : Nat) (tasks : List Nat)
  | disableCommitGroup

def CGroupCollect.step (c : CGroupCollect) : GroupAction → Option CGroupCollect
  | .queue place tasks => some { c with groups := c.groups.modify place (Option.map fun g => { g with queue := tasks }) }
  | .disableCommitGroup => c.disableCommitGroup.map Prod.fst

/-- The groups from `LoadConfig` on. -/
def groupMachine (cfg : CDbConfig) (setup : Nat → GroupSetup) : Machine CGroupCollect GroupAction where
  start c := ∃ log, CGroupCollect.loadConfig cfg setup = some (some c, log)
  step := CGroupCollect.step

namespace AddressedRight

variable {α β : Type} {n : Nat} {x : Option (α × List Access)}

theorem nil (r : α) : AddressedRight n (some (r, [])) := ⟨r, [], rfl, by simp⟩

theorem cons {a : Access} (ha : a.Right n) (f : α → β) (h : AddressedRight n x) :
    AddressedRight n (x.map fun r => (f r.1, a :: r.2)) := by
  obtain ⟨r, log, rfl, hlog⟩ := h
  exact ⟨f r, a :: log, rfl, by simpa using ⟨ha, hlog⟩⟩

end AddressedRight

variable {groups : Groups} {n row role : Nat}

theorem Access.right_of_lt (hrow : row < n) (hrole : role < groupsPerMachine) {place : Int}
    (hplace : place = row * groupsPerMachine + role) : Access.Right n ⟨row, role, place⟩ := by
  refine ⟨⟨?_, ?_⟩, ⟨?_, ?_⟩, hplace⟩
  · simp
  · simp [hrow]
  · simp
  · exact Int.ofNat_lt.mpr hrole

theorem element_of_lt (hlen : groups.length = n * groupsPerMachine) (hrow : row < n) (hrole : role < groupsPerMachine)
    {place : Int} (hplace : place = row * groupsPerMachine + role) :
    element groups place = some (groups[row * groupsPerMachine + role]?.getD none) := by
  have hlt : row * groupsPerMachine + role < groups.length := by
    unfold groupsPerMachine at *
    omega
  have hnat : place = (row * groupsPerMachine + role : Nat) := by
    rw [hplace]
    simp
  unfold element
  rw [hnat, if_pos (Int.natCast_nonneg _), Int.toNat_natCast, List.getElem?_eq_getElem hlt, Option.getD_some]

section Load

theorem loadRoles_right {m : MachineConfig} {setup : GroupSetup} (hrow : row < n) : ∀ (js : List Nat) (groups : Groups),
    (∀ j ∈ js, j < groupsPerMachine) → groups.length = n * groupsPerMachine →
      ∃ groups' log, loadRoles m setup row js groups = some (groups', log) ∧ groups'.length = groups.length ∧
        ∀ a ∈ log, a.Right n
  | [], groups, _, _ => ⟨groups, [], rfl, rfl, by simp⟩
  | j :: js, groups, hjs, hlen => by
    have hj : j < groupsPerMachine := hjs j List.mem_cons_self
    have hplace : row * groupsPerMachine + j < groups.length := by
      unfold groupsPerMachine at *
      omega
    have hright : Access.Right n ⟨row, j, (row * groupsPerMachine + j : Nat)⟩ := Access.right_of_lt hrow hj (by simp)
    have ih : ∀ g : MachineGroup, _ := fun g => @loadRoles_right m setup hrow js
      (groups.set (row * groupsPerMachine + j) (some g)) (fun j hj => hjs j (List.mem_cons_of_mem _ hj)) (by simpa using hlen)
    rw [loadRoles]
    dsimp only
    by_cases hprocs : m.gprocs j = 0
    · rw [if_pos hprocs]
      exact loadRoles_right hrow js groups (fun j hj => hjs j (List.mem_cons_of_mem _ hj)) hlen
    rw [if_neg hprocs, if_pos hplace]
    split
    · rw [element_of_lt (by simpa using hlen) hrow (by decide : 0 < groupsPerMachine) (by simp), Option.bind_some,
        List.set_set]
      obtain ⟨groups', log, hr, hl, hlog⟩ := ih _
      rw [hr]
      refine ⟨groups', _, rfl, by simpa using hl, ?_⟩
      simp only [List.forall_mem_cons]
      exact ⟨hright, Access.right_of_lt hrow (by decide) (by simp), hlog⟩
    · obtain ⟨groups', log, hr, hl, hlog⟩ := ih _
      rw [hr]
      refine ⟨groups', _, rfl, by simpa using hl, ?_⟩
      simp only [List.forall_mem_cons]
      exact ⟨hright, hlog⟩

theorem loadGroups_right {setup : Nat → GroupSetup} : ∀ (ms : List MachineConfig) (i : Nat) (groups : Groups),
    i + ms.length = n → groups.length = n * groupsPerMachine →
      ∃ groups' log, loadGroups setup i ms groups = some (groups', log) ∧ groups'.length = groups.length ∧
        ∀ a ∈ log, a.Right n
  | [], _, groups, _, _ => ⟨groups, [], rfl, rfl, by simp⟩
  | m :: ms, i, groups, hn, hlen => by
    rw [List.length_cons] at hn
    rw [loadGroups]
    split
    · exact loadGroups_right ms (i + 1) groups (by omega) hlen
    · obtain ⟨g1, log1, hr1, hl1, hlog1⟩ := @loadRoles_right n i m (setup i) (by omega)
        (List.range groupsPerMachine) groups (by simp) hlen
      obtain ⟨g2, log2, hr2, hl2, hlog2⟩ := @loadGroups_right setup ms (i + 1) g1 (by omega) (hl1.trans hlen)
      rw [hr1, Option.bind_some, hr2]
      refine ⟨g2, _, rfl, hl2.trans hl1, ?_⟩
      simp only [List.forall_mem_append]
      exact ⟨hlog1, hlog2⟩

theorem CGroupCollect.loadConfig_right (cfg : CDbConfig) (setup : Nat → GroupSetup) :
    AddressedRight cfg.mach.length (CGroupCollect.loadConfig cfg setup) ∧
      ∀ c log, CGroupCollect.loadConfig cfg setup = some (some c, log) → c.dbConfig = cfg ∧
        c.groups.length = cfg.mach.length * groupsPerMachine ∧ Dtc.loadConfig cfg = some c.groupMap := by
  unfold CGroupCollect.loadConfig
  cases Dtc.loadConfig cfg with
  | none => exact ⟨.nil none, fun c log h => by simp at h⟩
  | some groupMap =>
    obtain ⟨groups, log, hr, hl, hlog⟩ := @loadGroups_right cfg.mach.length setup cfg.mach 0
      (List.replicate (cfg.mach.length * groupsPerMachine) none) (by simp) (by simp)
    dsimp only
    rw [hr]
    refine ⟨⟨_, log, rfl, hlog⟩, fun c log' h => ?_⟩
    simp only [Option.map_some, Option.some.injEq, Prod.mk.injEq] at h
    obtain ⟨rfl, -⟩ := h
    exact ⟨rfl, by simpa using hl, rfl⟩

end Load

section Addressing

theorem CGroupCollect.lastGroupOf_right (hlen : groups.length = n * groupsPerMachine) (hrow : row < n) :
    ∀ g ≤ groupsPerMachine, AddressedRight n (CGroupCollect.lastGroupOf groups row g)
  | 0, _ => .nil _
  | g + 1, hg => by
    have hright : Access.Right n ⟨row, g, row * groupsPerMachine + g⟩ := Access.right_of_lt hrow hg rfl
    rw [CGroupCollect.lastGroupOf]
    dsimp only
    rw [element_of_lt hlen hrow hg rfl]
    cases groups[row * groupsPerMachine + g]?.getD none with
    | none => exact (lastGroupOf_right hlen hrow g (by omega)).cons hright id
    | some group => exact ⟨_, _, rfl, by simpa using hright⟩

theorem UInt64.toNat_and_one_le (x : UInt64) : (x &&& 1).toNat ≤ 1 := by
  rw [UInt64.toNat_and]
  exact Nat.and_le_right

theorem CGroupCollect.selectGroup_right {c : CGroupCollect} (hlen : c.groups.length = c.dbConfig.mach.length * groupsPerMachine)
    (hmap : MapOk c.dbConfig.mach c.groupMap) (word : List UInt8 → UInt64) (t : RouteTask) :
    AddressedRight c.dbConfig.mach.length (c.selectGroup word t) := by
  unfold CGroupCollect.selectGroup
  dsimp only
  generalize dispatchNumber c.dbConfig word t.key / c.dbConfig.dbDiv % c.dbConfig.dbMod = idx
  rcases hmap idx with ⟨he, -⟩ | ⟨he, -⟩ | ⟨k, m, he, hm, -⟩
  · rw [he, if_pos rfl]
    exact .nil _
  · rw [he, if_neg (by decide), if_pos rfl]
    exact .nil _
  · have hrow : k < c.dbConfig.mach.length := (List.getElem?_eq_some_iff.mp hm).1
    have hlast : AddressedRight c.dbConfig.mach.length (CGroupCollect.lastGroupOf c.groups k t.type.code) := by
      apply CGroupCollect.lastGroupOf_right hlen hrow
      cases t.type <;> decide
    have hslave : Access.Right c.dbConfig.mach.length ⟨k, groupsPerRole, k * groupsPerMachine + groupsPerRole⟩ :=
      Access.right_of_lt hrow (by decide) rfl
    have hnone : ¬ (k : Int) = gmapNone := by
      unfold gmapNone
      omega
    have hdummy : ¬ (k : Int) = gmapDummy := by
      unfold gmapDummy
      omega
    rw [he, if_neg hnone, if_neg hdummy, Int.toNat_natCast, hm]
    split
    · rw [element_of_lt hlen hrow (by decide : groupsPerRole < groupsPerMachine) rfl, Option.bind_some]
      split
      · dsimp only [Option.map_some]
        generalize hrole : (match some m.mode with
          | some .slave => 1
          | some .database | some .table | some .key => (t.barrierKey &&& 1).toNat
          | some .master | none => 0) = role
        have hle : role ≤ 1 := by
          rw [← hrole]
          split
          · exact Nat.le_refl 1
          · exact UInt64.toNat_and_one_le _
          · exact UInt64.toNat_and_one_le _
          · exact UInt64.toNat_and_one_le _
          · exact Nat.zero_le 1
          · exact Nat.zero_le 1
        have hcol : role * groupsPerRole < groupsPerMachine := by
          unfold groupsPerRole groupsPerMachine
          omega
        rw [element_of_lt hlen hrow hcol (by simp)]
        refine ⟨_, _, rfl, ?_⟩
        simp only [List.forall_mem_cons]
        exact ⟨hslave, Access.right_of_lt hrow hcol (by simp), by simp⟩
      · exact hlast.cons hslave id
    · exact hlast

theorem CGroupCollect.disableLoop_right : ∀ (fuel row : Nat) (groups : Groups), groups.length = n * groupsPerMachine →
    ∃ groups' log, CGroupCollect.disableLoop (n * groupsPerMachine) fuel row (row * groupsPerMachine + 2) groups =
      some (groups', log) ∧ groups'.length = groups.length ∧ ∀ a ∈ log, a.Right n
  | 0, _, groups, _ => ⟨groups, [], rfl, rfl, by simp⟩
  | fuel + 1, row, groups, hlen => by
    rw [CGroupCollect.disableLoop]
    by_cases hlt : row * groupsPerMachine + 2 < n * groupsPerMachine
    · have hrow : row < n := by
        unfold groupsPerMachine at hlt
        omega
      obtain ⟨groups', log, hr, hl, hlog⟩ := disableLoop_right fuel (row + 1)
        (groups.set (row * groupsPerMachine + 2) none) (by simpa using hlen)
      have hnext : row * groupsPerMachine + 2 + groupsPerMachine = (row + 1) * groupsPerMachine + 2 := by
        unfold groupsPerMachine
        omega
      rw [if_pos hlt, if_pos (by rw [hlen]; exact hlt), hnext, hr]
      refine ⟨groups', _, rfl, by simpa using hl, ?_⟩
      simp only [List.forall_mem_cons]
      exact ⟨Access.right_of_lt hrow (by decide) (by simp), hlog⟩
    · rw [if_neg hlt]
      exact ⟨groups, [], rfl, rfl, by simp⟩

/-- **`GetQueueCurMaxCount`** from a row on, where the number of machines serves as the length of a row: the longest queue
of the rows is found. -/
theorem CGroupCollect.queueLoop_right {c : CGroupCollect} (hlen : c.groups.length = n * groupsPerMachine)
    (hrole : role < groupsPerMachine) (hstride : ∀ row < n, n * row = row * groupsPerMachine) :
    ∀ (k row : Nat), row + k = n → ∃ log, CGroupCollect.queueLoop c.groups n role k row
        ((Finset.range row).sup (c.queueOf role)) = some ((Finset.range n).sup (c.queueOf role), log) ∧
      ∀ a ∈ log, a.Right n
  | 0, row, hk => by
    obtain rfl : row = n := by omega
    exact ⟨[], rfl, by simp⟩
  | k + 1, row, hk => by
    have hrow : row < n := by omega
    have hplace : (n : Int) * row + role = row * groupsPerMachine + role := by
      have h := hstride row hrow
      have hcast : ((n * row : Nat) : Int) = (row * groupsPerMachine : Nat) := congrArg Nat.cast h
      push_cast at hcast
      simpa using hcast
    have hright : Access.Right n ⟨row, role, n * row + role⟩ := Access.right_of_lt hrow hrole hplace
    obtain ⟨log, hr, hlog⟩ := queueLoop_right hlen hrole hstride k (row + 1) (by omega)
    have hsup : (Finset.range (row + 1)).sup (c.queueOf role) =
        max ((Finset.range row).sup (c.queueOf role)) (c.queueOf role row) := by
      rw [Finset.range_add_one, Finset.sup_insert]
      exact max_comm _ _
    rw [hsup] at hr
    generalize (Finset.range row).sup (c.queueOf role) = maxcount at hr
    rw [CGroupCollect.queueLoop]
    dsimp only
    rw [element_of_lt hlen hrow hrole hplace]
    refine ⟨⟨row, role, n * row + role⟩ :: log, ?_, by simpa only [List.forall_mem_cons] using ⟨hright, hlog⟩⟩
    have hq : c.queueOf role row = match c.groups[row * groupsPerMachine + role]? with
      | some (some g) => g.queue.length
      | _ => 0 := rfl
    rw [hq] at hr
    cases hg : c.groups[row * groupsPerMachine + role]? with
    | none =>
      simp only [hg, Nat.max_zero] at hr
      simp [hr]
    | some o =>
      cases o with
      | none =>
        simp only [hg, Nat.max_zero] at hr
        simp [hr]
      | some g =>
        have hmax : (if g.queue.length > maxcount then g.queue.length else maxcount) = max maxcount g.queue.length := by
          split <;> omega
        simp only [hg] at hr
        simp only [Option.getD_some, hmax, hr, Option.map_some]

theorem CGroupCollect.queueLoop_log {iColumn : Int} {k maxcount v : Nat} {log : List Access}
    (hr : CGroupCollect.queueLoop groups n iColumn (k + 1) row maxcount = some (v, log)) :
    ∃ maxcount' log', CGroupCollect.queueLoop groups n iColumn k (row + 1) maxcount' = some (v, log') ∧
      log = ⟨row, iColumn, n * row + iColumn⟩ :: log' := by
  rw [CGroupCollect.queueLoop] at hr
  dsimp only at hr
  split at hr
  · cases hr
  · obtain ⟨q, hq, he⟩ := Option.map_eq_some_iff.mp hr
    obtain ⟨rfl, rfl⟩ := Prod.mk.inj he
    exact ⟨_, q.2, hq, rfl⟩
  · obtain ⟨q, hq, he⟩ := Option.map_eq_some_iff.mp hr
    obtain ⟨rfl, rfl⟩ := Prod.mk.inj he
    exact ⟨_, q.2, hq, rfl⟩

end Addressing

section Run

variable {cfg : CDbConfig} {setup : Nat → GroupSetup} {c c' : CGroupCollect}

/-- What every state has from `LoadConfig`. -/
structure CGroupCollect.Loaded (cfg : CDbConfig) (c : CGroupCollect) : Prop where
  config : c.dbConfig = cfg
  length : c.groups.length = cfg.mach.length * groupsPerMachine
  mapped : Dtc.loadConfig cfg = some c.groupMap

theorem CGroupCollect.Loaded.disable (h : c.Loaded cfg) :
    ∃ groups log, c.disableCommitGroup = some ({ c with groups := groups }, log) ∧
      groups.length = cfg.mach.length * groupsPerMachine ∧ ∀ a ∈ log, a.Right cfg.mach.length := by
  obtain ⟨groups, log, hr, hl, hlog⟩ := CGroupCollect.disableLoop_right (cfg.mach.length * groupsPerMachine) 0 c.groups
    h.length
  rw [Nat.zero_mul, Nat.zero_add] at hr
  refine ⟨groups, log, ?_, hl.trans h.length, hlog⟩
  unfold CGroupCollect.disableCommitGroup
  dsimp only
  rw [h.config, hr]
  rfl

theorem CGroupCollect.Loaded.step (h : c.Loaded cfg) {op : GroupAction} (hst : c.step op = some c') : c'.Loaded cfg := by
  cases op with
  | queue place tasks =>
    obtain rfl := Option.some.inj hst
    exact ⟨h.config, by simpa using h.length, h.mapped⟩
  | disableCommitGroup =>
    obtain ⟨groups, log, hr, hl, -⟩ := h.disable
    obtain ⟨r, hr', rfl⟩ := Option.map_eq_some_iff.mp hst
    obtain rfl := Option.some.inj (hr.symm.trans hr')
    exact ⟨h.config, hl, h.mapped⟩

theorem CGroupCollect.loaded_of_reachable (hc : (groupMachine cfg setup).Reachable c) : c.Loaded cfg := by
  refine @Machine.reachable_induct _ _ (groupMachine cfg setup) (fun c => c.Loaded cfg) ?_ ?_ _ hc
  · rintro c ⟨log, hl⟩
    obtain ⟨h1, h2, h3⟩ := (CGroupCollect.loadConfig_right cfg setup).2 c log hl
    exact ⟨h1, h2, h3⟩
  · intro c op c' h hst
    exact h.step hst

theorem CGroupCollect.Loaded.queue_wrong (h : c.Loaded cfg) (h1 : cfg.mach.length ≠ 1) (h4 : cfg.mach.length ≠ 4)
    (hpos : 0 < cfg.mach.length) : ¬ c.MatrixRight := by
  intro hright
  obtain ⟨log, hr, hlog⟩ := hright.queue 0 (by decide)
  obtain ⟨k, hk⟩ : ∃ k, cfg.mach.length = k + 1 + 1 := ⟨cfg.mach.length - 2, by omega⟩
  unfold CGroupCollect.getQueueCurMaxCount at hr
  rw [if_neg (by decide), h.config, hk] at hr
  -- the second row is read behind as many elements as there are machines
  obtain ⟨acc, log₁, hr₁, rfl⟩ := CGroupCollect.queueLoop_log hr
  obtain ⟨acc', log₂, -, rfl⟩ := CGroupCollect.queueLoop_log hr₁
  have hplace := (hlog _ (List.mem_cons_of_mem _ List.mem_cons_self)).2.2
  simp only [groupsPerMachine] at hplace
  omega

theorem CGroupCollect.Loaded.matrixRight (h : c.Loaded cfg) (hmach : cfg.mach.length = 1 ∨ cfg.mach.length = 4) :
    c.MatrixRight := by
  have hmap : MapOk c.dbConfig.mach c.groupMap := by
    rw [h.config]
    exact loadConfig_spec (by omega) h.mapped
  have hlen : c.groups.length = c.dbConfig.mach.length * groupsPerMachine := by rw [h.config, h.length]
  refine ⟨CGroupCollect.selectGroup_right hlen hmap, ?_, fun role hrole => ?_⟩
  · obtain ⟨groups, log, hr, -, hlog⟩ := h.disable
    rw [h.config]
    exact ⟨_, log, hr, hlog⟩
  · have hstride : ∀ row < c.dbConfig.mach.length, c.dbConfig.mach.length * row = row * groupsPerMachine := by
      rw [h.config]
      intro row hrow
      unfold groupsPerMachine
      rcases hmach with hmach | hmach
      · rw [hmach] at hrow ⊢
        omega
      · rw [hmach]
        omega
    have hin : ¬ ((role : Int) < 0 ∨ (groupsPerMachine : Int) ≤ role) := by
      unfold groupsPerMachine at *
      omega
    unfold CGroupCollect.getQueueCurMaxCount
    rw [if_neg hin]
    exact CGroupCollect.queueLoop_right hlen hrole hstride _ 0 (Nat.zero_add _)

/-- **The matrix of groups**: `LoadConfig` fills it right for every accepted configuration; the other functions use it
right, in every state of the queues, exactly when there are one or four machines. -/
theorem groupMatrix_right_iff {raw : RawDbConfig} {mach : List MachineConfig} (haccept : parseDbConfig raw mach = some cfg) :
    AddressedRight cfg.mach.length (CGroupCollect.loadConfig cfg setup) ∧
      ∀ c, (groupMachine cfg setup).Reachable c → (c.MatrixRight ↔ cfg.mach.length = 1 ∨ cfg.mach.length = 4) := by
  refine ⟨(CGroupCollect.loadConfig_right cfg setup).1, fun c hc => ?_⟩
  have h := CGroupCollect.loaded_of_reachable hc
  obtain ⟨-, -, hpos, hm, hok, -⟩ := parseDbConfig_some haccept
  have hlen : 0 < cfg.mach.length := by
    rw [hm, hok.length]
    omega
  constructor
  · intro hright
    by_contra hne
    rw [not_or] at hne
    exact h.queue_wrong hne.1 hne.2 hlen hright
  · exact h.matrixRight

def oneDatabase (db : UInt16) : MachineConfig where
  dbIdx := [db]
  procs := 1
  writeProcs := 1
  commitProcs := 1
  room := Nat.succ_le_of_lt (by simp)

def singleMachine : CDbConfig := (parseDbConfig { keyType := .signed } [oneDatabase 0]).get rfl

def machinePair : CDbConfig :=
  (parseDbConfig { keyType := .signed, machineNum := 2, dbMax := 2 } [oneDatabase 0, oneDatabase 1]).get rfl

def plainGroups (_ : Nat) : GroupSetup := ⟨fun _ => "", fun _ => 1000⟩

theorem groupMatrix_right_iff_singleMachine : ∃ c, (groupMachine singleMachine plainGroups).Reachable c ∧ c.queueOf 0 0 = 5 ∧
    c.MatrixRight := by
  have hreach : ∃ c, (groupMachine singleMachine plainGroups).Reachable c ∧ c.queueOf 0 0 = 5 :=
    ⟨_, ⟨_, [.queue 0 [1, 2, 3, 4, 5]], ⟨_, rfl⟩, rfl⟩, rfl⟩
  obtain ⟨c, hc, hqueue⟩ := hreach
  exact ⟨c, hc, hqueue, ((groupMatrix_right_iff (Option.some_get rfl).symm).2 c hc).mpr (.inl rfl)⟩

/-- **The wrong queue**: five tasks wait for reads of the second machine, and `GetQueueCurMaxCount` answers 0 from the
commit queue of the first. -/
theorem groupMatrix_wrongQueue : ∃ c, (groupMachine machinePair plainGroups).Reachable c ∧
    c.getQueueCurMaxCount 0 = some (0, [⟨0, 0, 0⟩, ⟨1, 0, 2⟩]) ∧ c.longest 0 = 5 ∧ ¬ c.MatrixRight := by
  have hreach : ∃ c, (groupMachine machinePair plainGroups).Reachable c ∧
      c.getQueueCurMaxCount 0 = some (0, [⟨0, 0, 0⟩, ⟨1, 0, 2⟩]) ∧ c.longest 0 = 5 :=
    ⟨_, ⟨_, [.queue 4 [1, 2, 3, 4, 5]], ⟨_, rfl⟩, rfl⟩, rfl, rfl⟩
  obtain ⟨c, hc, hanswer, hlongest⟩ := hreach
  refine ⟨c, hc, hanswer, hlongest, fun hright => ?_⟩
  obtain ⟨log, hr, -⟩ := hright.queue 0 (by decide)
  have hzero := (Prod.mk.inj (Option.some.inj (hanswer.symm.trans hr))).1
  rw [hlongest] at hzero
  cases hzero

end Run

end Dtc
