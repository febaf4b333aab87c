import DtcServer.Migration
import Mathlib.Data.List.TakeWhile
/-!
# MigrationRun — which keys a node accepts while keys are moved to it

A node that is entered by a state change gets a set whose key size is that of the administration table; the sets that are
loaded have the data table's.
-/
namespace Dtc

open Bytes

/-- The server, and the keys that were passed to `KeyMigrated` for each node since keys are moved to it. -/
structure MigrationRun where
  route : CKeyRoute
  files : ClusterFiles := {}
  passed : NodeName → List (List UInt8) := fun _ => []

inductive MigrationAction
  | setState (name : NodeName) (newState : Int) (opens : Bool)
  /-- a key is given by the memory at a pointer -/
  | keyMigrated (key : List UInt8)

namespace MigrationRun

variable (s : MigrationRun)

/-- The memory at a pointer to a key holds the key, and the four bytes that are read of it. -/
def Readable (keyFormat : Nat) (key : List UInt8) : Prop := packedKeySize keyFormat key ≤ key.length ∧ 4 ≤ key.length

instance (keyFormat : Nat) (key : List UInt8) : Decidable (Readable keyFormat key) := inferInstanceAs (Decidable (_ ∧ _))

def tableKey (keyFormat : Nat) (key : List UInt8) : List UInt8 := key.take (packedKeySize keyFormat key)

def MovesTo (node : NodeName) : Prop := ∃ st ∈ s.route.find node, st.state.Moving

instance (node : NodeName) : Decidable (s.MovesTo node) :=
  match h : s.route.find node with
  | none => isFalse (fun ⟨_, hst, _⟩ => by rw [h] at hst; cases hst)
  | some st => decidable_of_iff st.state.Moving
      ⟨fun hm => ⟨st, h, hm⟩, fun ⟨st', hst', hm⟩ => by rw [h] at hst'; rwa [Option.some.inj hst']⟩

def step : MigrationAction → Option MigrationRun
  | .setState name newState opens =>
    let change := s.route.processNodeStateChange s.files name newState opens
    let s' : MigrationRun := { route := change.2.1, files := change.1, passed := s.passed }
    some (if s'.MovesTo name ∧ ¬ s.MovesTo name then { s' with passed := Function.update s.passed name [] } else s')
  | .keyMigrated key =>
    if Readable s.route.keyFormat key then
      let moved := s.route.keyMigrated s.files key
      let node := s.route.selectNode key
      some { route := moved.2.1, files := moved.1, passed := if moved.2.2 then Function.update s.passed node (key :: s.passed node) else s.passed }
    else none

/-- **The set is exact**: a node that keys are moved to accepts the keys that were passed, and no others. -/
def Exact : Prop := ∀ node, s.MovesTo node → ∀ key, Readable s.route.keyFormat key →
  (s.route.acceptKey s.files node key = true ↔
    ∃ q ∈ s.passed node, tableKey s.route.keyFormat q = tableKey s.route.keyFormat key)

/-- The names of a configuration can be saved: they are not empty, "name can't exceeds 255", and have no zero byte. -/
def CanSave (nodes : List ClusterNode) : Prop :=
  nodes.length < 2 ^ 31 ∧ ∀ node ∈ nodes, node.name ≠ [] ∧ node.name.length ≤ 255 ∧ 0 ∉ node.name

/-- **The files are exact**: a new process that reads them accepts the same keys. -/
def Reloads (nodes : List ClusterNode) : Prop := CanSave nodes →
  ∃ r₀ r, CKeyRoute.init s.route.keyFormat nodes = some r₀ ∧ r₀.loadNodeStateIfAny s.files = some r ∧
    ∀ node key, Readable s.route.keyFormat key → r.acceptKey s.files node key = s.route.acceptKey s.files node key

end MigrationRun

/-- The runs of a server that has just started, with no state file. -/
def migrationMachine (keyFormat : Nat) (nodes : List ClusterNode) : Machine MigrationRun MigrationAction where
  start s := CKeyRoute.init keyFormat nodes = some s.route ∧ s.files.stateFile = none ∧ s.passed = fun _ => []
  step s a := s.step a

namespace CKeyRoute

variable {r r' : CKeyRoute} {d : ClusterFiles} {name node : NodeName} {st : ServerMigrationState}

def Ordered (r : CKeyRoute) : Prop := HashRing.Sorted r.serverMigrationState

theorem Ordered.set (h : r.Ordered) (name : NodeName) (st : ServerMigrationState) : (r.set name st).Ordered :=
  HashRing.sorted_insert _ _ h

theorem Ordered.find_set (h : r.Ordered) (name : NodeName) (st : ServerMigrationState) (node : NodeName) :
    (r.set name st).find node = if node = name then some st else r.find node :=
  HashRing.find_insert _ _ _ h

/-- The names and addresses, which only `Init` sets. -/
def addresses (r : CKeyRoute) : List (NodeName × List UInt8) := r.serverMigrationState.map (fun x => (x.1, x.2.addr))

/-- Everything but the states is the same. -/
structure SameNodes (r r' : CKeyRoute) : Prop where
  keyFormat : r'.keyFormat = r.keyFormat
  selfName : r'.selfName = r.selfName
  selector : r'.selector = r.selector
  addresses : r'.addresses = r.addresses

theorem SameNodes.set (h : r.Ordered) (hf : r.find name = some st) {st' : ServerMigrationState} (ha : st'.addr = st.addr) :
    r.SameNodes (r.set name st') := by
  refine ⟨rfl, rfl, rfl, ?_⟩
  exact HashRing.map_insert (f := fun x : NodeName × ServerMigrationState => (x.1, x.2.addr))
    (show (name, st.addr) = (name, st'.addr) by rw [ha]) h hf

theorem SameNodes.trans {r'' : CKeyRoute} (h : r.SameNodes r') (h' : r'.SameNodes r'') : r.SameNodes r'' :=
  ⟨h'.keyFormat.trans h.keyFormat, h'.selfName.trans h.selfName, h'.selector.trans h.selector,
    h'.addresses.trans h.addresses⟩

def Still (r : CKeyRoute) : Prop := ∀ node st, r.find node = some st → ¬ st.state.Moving ∧ st.migrated = none

theorem init_spec : ∀ {nodes : List ClusterNode} {r r' : CKeyRoute}, nodes.foldlM initNode r = some r' → r.Ordered → r.Still →
    r'.Ordered ∧ r'.Still ∧ r'.keyFormat = r.keyFormat ∧
      r'.serverMigrationState.length ≤ r.serverMigrationState.length + nodes.length ∧
        ∀ x ∈ r'.serverMigrationState, x ∈ r.serverMigrationState ∨ ∃ node ∈ nodes, node.name = x.1
  | [], r, r', h, ho, hs => by
    obtain rfl := Option.some.inj h
    exact ⟨ho, hs, rfl, Nat.le_refl _, fun _ hx => .inl hx⟩
  | node :: nodes, r, r', h, ho, hs => by
    rw [List.foldlM_cons] at h
    obtain ⟨r₁, h1, h2⟩ := Option.bind_eq_some_iff.mp h
    obtain ⟨selector, -, rfl⟩ := Option.map_eq_some_iff.mp h1
    have ho' := ho.set node.name { addr := node.addr, state := if node.self then .completed else .notStarted }
    obtain ⟨g1, g2, g3, g4, g5⟩ := init_spec h2 ho' (fun n st hst => by
      have hst' := (ho.find_set node.name _ n).symm.trans hst
      split at hst'
      · obtain rfl := Option.some.inj hst'
        refine ⟨?_, rfl⟩
        show ¬ (if node.self then MigrationState.completed else .notStarted).Moving
        cases node.self <;> decide
      · exact hs n st hst')
    refine ⟨g1, g2, g3, ?_, fun x hx => ?_⟩
    · have hlen := (HashRing.insert_perm node.name
        ({ addr := node.addr, state := if node.self then .completed else .notStarted } : ServerMigrationState)
        r.serverMigrationState).length_eq
      have hle := (HashRing.erase_sublist node.name r.serverMigrationState).length_le
      rw [List.length_cons] at hlen ⊢
      change _ ≤ (HashRing.insert node.name _ r.serverMigrationState).length + _ at g4
      omega
    · rcases g5 x hx with hx | ⟨n, hn, he⟩
      · rcases HashRing.mem_insert hx with rfl | hx
        · exact .inr ⟨node, List.mem_cons_self, rfl⟩
        · exact .inl hx
      · exact .inr ⟨n, List.mem_cons_of_mem _ hn, he⟩

/-- **What a state change can do**: nothing, open a set, fail to, clear it, or set the state alone. -/
inductive Changes (r : CKeyRoute) (d : ClusterFiles) (name : NodeName) : ClusterFiles × CKeyRoute × Option RouteError → Prop
  | same (e : Option RouteError) : Changes r d name (d, r, e)
  | opened {st : ServerMigrationState} {newState : MigrationState} (hf : r.find name = some st) (hold : ¬ st.state.Moving)
      (hnew : newState.Moving) : Changes r d name (r.openKeySet d name st newState true)
  | failed {st : ServerMigrationState} {newState : MigrationState} (hf : r.find name = some st) (hold : ¬ st.state.Moving) :
      Changes r d name (r.openKeySet d name st newState false)
  | cleared {st : ServerMigrationState} {newState : MigrationState} (hf : r.find name = some st) (hold : st.state.Moving)
      (hnew : ¬ newState.Moving) : Changes r d name (r.clearKeySet d name st newState)
  | changed {st : ServerMigrationState} {newState : MigrationState} (hf : r.find name = some st)
      (hsame : st.state.Moving ↔ newState.Moving) : Changes r d name (r.changeState d name st newState)

theorem processNodeStateChange_changes (r : CKeyRoute) (d : ClusterFiles) (name : NodeName) (newState : Int) (opens : Bool) :
    Changes r d name (r.processNodeStateChange d name newState opens) := by
  unfold processNodeStateChange
  cases hf : r.find name with
  | none => exact .same _
  | some st =>
    dsimp only
    split
    · exact .same _
    split
    · exact .same _
    split
    · exact .same _
    split
    · exact .same _
    have hopen : ∀ {newState : MigrationState}, ¬ st.state.Moving → newState.Moving →
        Changes r d name (r.openKeySet d name st newState opens) := by
      intro newState hold hnew
      cases opens with
      | true => exact .opened hf hold hnew
      | false => exact .failed hf hold
    cases hs : st.state <;> cases hn : MigrationState.ofCode newState.toNat with
    | none => exact .same _
    | some new =>
      cases new
      all_goals first
        | exact .same _
        | exact hopen (by rw [hs]; decide) (by decide)
        | exact .cleared hf (by rw [hs]; decide) (by decide)
        | exact .changed hf (by rw [hs]; decide)

theorem Ordered.set_self (h : r.Ordered) (hf : r.find name = some st) : r.set name st = r := by
  obtain ⟨l₁, l₂, hl⟩ := List.append_of_mem ((HashRing.perm_of_find hf).mem_iff.mpr List.mem_cons_self)
  have hs : HashRing.Sorted (l₁ ++ (name, st) :: l₂) := hl ▸ h
  unfold CKeyRoute.set
  rw [hl, HashRing.insert_middle st st hs, ← hl]

theorem encodeStates_set (h : r.Ordered) (hf : r.find name = some st) {st' : ServerMigrationState}
    (hstate : st'.state = st.state) : encodeStates (r.set name st').serverMigrationState = encodeStates r.serverMigrationState := by
  have hmap : (r.set name st').serverMigrationState.map encodeNode = r.serverMigrationState.map encodeNode := by
    refine HashRing.map_insert (v := st) ?_ h hf
    unfold encodeNode
    rw [hstate]
  have hlen := congrArg List.length hmap
  rw [List.length_map, List.length_map] at hlen
  unfold encodeStates
  rw [hmap, hlen]

theorem keyMigrated_cases (r : CKeyRoute) (d : ClusterFiles) (key : List UInt8) : r.keyMigrated d key = (d, r, false) ∨
    ∃ st keys file, r.find (r.selectNode key) = some st ∧ st.state.Moving ∧ st.migrated = some keys ∧
      d.keyFiles (r.selectNode key) = some file ∧ r.keyMigrated d key =
        ({ d with keyFiles := Function.update d.keyFiles (r.selectNode key) (some (keys.insert file key).2) },
          r.set (r.selectNode key) { st with migrated := some (keys.insert file key).1 }, true) := by
  unfold keyMigrated
  dsimp only
  cases hf : r.find (r.selectNode key) with
  | none => exact .inl rfl
  | some st =>
    dsimp only
    by_cases hm : st.state.Moving
    · rw [if_pos hm]
      cases hkeys : st.migrated with
      | none => exact .inl rfl
      | some keys =>
        cases hfile : d.keyFiles (r.selectNode key) with
        | none => exact .inl rfl
        | some file => exact .inr ⟨st, keys, file, rfl, hm, hkeys, rfl, rfl⟩
    · rw [if_neg hm]
      exact .inl rfl

end CKeyRoute

namespace MigrationRun

variable {s s' : MigrationRun} {node name : NodeName} {st : ServerMigrationState}

structure Kept (s : MigrationRun) (node : NodeName) (st : ServerMigrationState) : Prop where
  moving : st.state.Moving → ∃ keys file ks, st.migrated = some keys ∧ s.files.keyFiles node = some file ∧
    keys.keySize = 4 ∧ keys.Holds file ks ∧ ∀ k, k ∈ ks ↔ ∃ q ∈ s.passed node, q.take 4 = k
  still : ¬ st.state.Moving → st.migrated = none

/-- The states were saved, since they are not those of the start. -/
def Saved (s : MigrationRun) (r₀ : CKeyRoute) : Prop :=
  s.files.stateFile = none ∧ s.route.serverMigrationState = r₀.serverMigrationState ∨
    s.files.stateFile = some (CKeyRoute.encodeStates s.route.serverMigrationState)

structure Inv (keyFormat : Nat) (nodes : List ClusterNode) (s : MigrationRun) : Prop where
  start : ∃ r₀, CKeyRoute.init keyFormat nodes = some r₀ ∧ r₀.SameNodes s.route ∧ s.Saved r₀
  format : s.route.keyFormat = keyFormat
  ordered : s.route.Ordered
  kept : ∀ node st, s.route.find node = some st → s.Kept node st
  readable : ∀ node, ∀ q ∈ s.passed node, Readable keyFormat q

theorem Kept.congr (h : s.Kept node st) (hf : s'.files.keyFiles node = s.files.keyFiles node)
    (hp : s'.passed node = s.passed node) : s'.Kept node st := by
  refine ⟨fun hm => ?_, h.still⟩
  rw [hf, hp]
  exact h.moving hm

theorem movesTo_iff (hf : s.route.find node = some st) : s.MovesTo node ↔ st.state.Moving := by
  constructor
  · rintro ⟨st', hst', hm⟩
    rwa [Option.some.inj (hf.symm.trans hst')]
  · exact fun hm => ⟨st, hf, hm⟩

theorem init_run {keyFormat : Nat} {nodes : List ClusterNode} (h : CKeyRoute.init keyFormat nodes = some s.route)
    (hfile : s.files.stateFile = none) (hpassed : s.passed = fun _ => []) : s.Inv keyFormat nodes := by
  obtain ⟨ho, hs, hk, -⟩ := CKeyRoute.init_spec h List.Pairwise.nil (fun _ _ hst => (nomatch hst))
  refine ⟨⟨s.route, h, ⟨rfl, rfl, rfl, rfl⟩, .inl ⟨hfile, rfl⟩⟩, hk, ho, fun node st hst => ?_, fun node q hq => ?_⟩
  · exact ⟨fun hm => absurd hm (hs node st hst).1, fun _ => (hs node st hst).2⟩
  · rw [hpassed] at hq
    exact absurd hq List.not_mem_nil

section

variable {keyFormat : Nat} {nodes : List ClusterNode}

theorem Inv.set (h : s.Inv keyFormat nodes) (hf : s.route.find name = some st) (st' : ServerMigrationState)
    (haddr : st'.addr = st.addr) (hroute : s'.route = s.route.set name st')
    (hsaved : s'.files.stateFile = some (CKeyRoute.encodeStates s'.route.serverMigrationState))
    (hothers : ∀ node, node ≠ name → s'.files.keyFiles node = s.files.keyFiles node ∧ s'.passed node = s.passed node)
    (hkept : s'.Kept name st') (hread : ∀ q ∈ s'.passed name, Readable keyFormat q) : s'.Inv keyFormat nodes := by
  obtain ⟨r₀, hr₀, hsame, -⟩ := h.start
  refine ⟨⟨r₀, hr₀, ?_, .inr hsaved⟩, ?_, ?_, fun node st₁ hst => ?_, fun node q hq => ?_⟩
  · rw [hroute]
    exact hsame.trans (.set h.ordered hf haddr)
  · rw [hroute]
    exact h.format
  · rw [hroute]
    exact h.ordered.set _ _
  · rw [hroute, h.ordered.find_set] at hst
    split at hst
    · rename_i hn
      rw [hn, ← Option.some.inj hst]
      exact hkept
    · rename_i hn
      exact (h.kept node st₁ hst).congr (hothers node hn).1 (hothers node hn).2
  · by_cases hn : node = name
    · exact hread q (hn ▸ hq)
    · exact h.readable node q ((hothers node hn).2 ▸ hq)

theorem Inv.setState (h : s.Inv keyFormat nodes) {newState : Int} {opens : Bool}
    (hst : s.step (.setState name newState opens) = some s') : s'.Inv keyFormat nodes := by
  have hc := CKeyRoute.processNodeStateChange_changes s.route s.files name newState opens
  unfold step at hst
  dsimp only at hst
  generalize s.route.processNodeStateChange s.files name newState opens = change at hc hst
  cases hc with
  | same e =>
    rw [if_neg (fun hm => hm.2 hm.1)] at hst
    obtain rfl := Option.some.inj hst
    exact h
  | @opened st new hf hold hnew =>
    have hfind : ∀ st', (s.route.set name st').find name = some st' := fun st' =>
      (h.ordered.find_set name st' name).trans (if_pos rfl)
    rw [if_pos ⟨⟨_, hfind _, hnew⟩, fun hm => hold ((movesTo_iff hf).mp hm)⟩] at hst
    obtain rfl := Option.some.inj hst
    refine h.set hf { st with state := new, migrated := some { keySize := buildHotBackupTable.keyFormat } } rfl rfl rfl
      (fun node hn => ⟨?_, ?_⟩) ⟨fun _ => ?_, fun hm => absurd hnew hm⟩ (fun q hq => ?_)
    · exact Function.update_of_ne hn _ _
    · exact Function.update_of_ne hn _ _
    · refine ⟨_, _, [], rfl, Function.update_self .., buildHotBackupTable_keyFormat,
        CFileBackedKeySet.holds_nil _ _, fun k => ?_⟩
      refine iff_of_false List.not_mem_nil ?_
      rintro ⟨q, hq, -⟩
      change q ∈ Function.update s.passed name [] name at hq
      rw [Function.update_self] at hq
      exact List.not_mem_nil hq
    · change q ∈ Function.update s.passed name [] name at hq
      rw [Function.update_self] at hq
      exact absurd hq List.not_mem_nil
  | @failed st new hf hold =>
    have hnone := (h.kept name st hf).still hold
    have hself : s.route.set name { st with migrated := none } = s.route := by
      refine (congrArg (s.route.set name ·) ?_).trans (h.ordered.set_self hf)
      obtain ⟨addr, state, migrated⟩ := st
      exact congrArg (ServerMigrationState.mk addr state) hnone.symm
    unfold CKeyRoute.openKeySet at hst
    dsimp only at hst
    rw [if_neg Bool.false_ne_true] at hst
    dsimp only at hst
    rw [hself, if_neg (fun hm => hm.2 hm.1)] at hst
    obtain rfl := Option.some.inj hst
    exact h
  | @cleared st new hf hold hnew =>
    rw [if_neg (fun hm => hm.2 ((movesTo_iff hf).mpr hold))] at hst
    obtain rfl := Option.some.inj hst
    refine h.set hf { st with state := new, migrated := none } rfl rfl rfl (fun node hn => ⟨?_, rfl⟩) ⟨fun hm => absurd hm hnew, fun _ => rfl⟩ (h.readable name)
    exact Function.update_of_ne hn _ _
  | @changed st new hf hsame =>
    have hfind : ∀ st', (s.route.set name st').find name = some st' := fun st' =>
      (h.ordered.find_set name st' name).trans (if_pos rfl)
    have hnot : ¬ (MovesTo { route := (s.route.changeState s.files name st new).2.1
                             files := (s.route.changeState s.files name st new).1
                             passed := s.passed } name ∧ ¬ s.MovesTo name) := by
      rintro ⟨⟨st', hst', hm⟩, hnm⟩
      obtain rfl := Option.some.inj ((hfind { st with state := new }).symm.trans hst')
      exact hnm ((movesTo_iff hf).mpr (hsame.mpr hm))
    rw [if_neg hnot] at hst
    obtain rfl := Option.some.inj hst
    have hk := h.kept name st hf
    exact h.set hf { st with state := new } rfl rfl rfl (fun node hn => ⟨rfl, rfl⟩)
      ⟨fun hm => hk.moving (hsame.mpr hm), fun hm => hk.still (fun ho => hm (hsame.mp ho))⟩ (h.readable name)

theorem Inv.keyMigrated (h : s.Inv keyFormat nodes) {key : List UInt8} (hst : s.step (.keyMigrated key) = some s') :
    s'.Inv keyFormat nodes := by
  unfold step at hst
  dsimp only at hst
  split at hst
  case isFalse => cases hst
  rename_i hread
  rw [h.format] at hread
  obtain rfl := Option.some.inj hst
  rcases s.route.keyMigrated_cases s.files key with he | ⟨st, keys, file, hf, hm, hkeys, hfile, he⟩
  · rw [he]
    exact h
  · rw [he, if_pos rfl]
    obtain ⟨keys', file', ks, hkeys', hfile', hsize, hholds, hmem⟩ := (h.kept _ st hf).moving hm
    obtain rfl := Option.some.inj (hkeys.symm.trans hkeys')
    obtain rfl := Option.some.inj (hfile.symm.trans hfile')
    have hlen : keys.keyLen key = 4 := by
      unfold CFileBackedKeySet.keyLen
      rw [hsize, if_neg (by decide)]
    have hins := hholds.insert (show keys.keyLen key ≤ key.length by rw [hlen]; exact hread.2)
    rw [hlen] at hins
    -- the states were saved, for no key is moved at the start
    obtain ⟨r₀, hr₀, -, hsaved⟩ := h.start
    have hstates : s.files.stateFile = some (CKeyRoute.encodeStates s.route.serverMigrationState) := by
      refine hsaved.resolve_left (fun hstart => ?_)
      have hstill := (CKeyRoute.init_spec hr₀ List.Pairwise.nil (fun _ _ hs => (nomatch hs))).2.1
      refine (hstill (s.route.selectNode key) st ?_).1 hm
      unfold CKeyRoute.find at hf ⊢
      rwa [← hstart.2]
    have hpassed : ∀ q, q ∈ Function.update s.passed (s.route.selectNode key)
        (key :: s.passed (s.route.selectNode key)) (s.route.selectNode key) ↔
          q = key ∨ q ∈ s.passed (s.route.selectNode key) := by
      intro q
      rw [Function.update_self, List.mem_cons]
    refine h.set hf { st with migrated := some (keys.insert file key).1 } rfl rfl ?_ (fun node hn => ⟨?_, ?_⟩)
      ⟨fun _ => ?_, fun hnm => absurd hm hnm⟩ (fun q hq => ?_)
    · have hsame := CKeyRoute.encodeStates_set h.ordered hf
        (show ({ st with migrated := some (keys.insert file key).1 } : ServerMigrationState).state = st.state from rfl)
      exact hstates.trans (congrArg some hsame.symm)
    · exact Function.update_of_ne hn _ _
    · exact Function.update_of_ne hn _ _
    · have hks : (keys.insert file key).1.keySize = 4 := by
        unfold CFileBackedKeySet.insert
        split
        · exact hsize
        · exact hsize
      refine ⟨_, _, _, rfl, Function.update_self .., hks, hins, fun k => ?_⟩
      constructor
      · intro hk
        have hor : k = key.take 4 ∨ k ∈ ks := by
          split at hk
          · exact .inr hk
          · exact (List.mem_append.mp hk).symm.imp_left List.mem_singleton.mp
        rcases hor with rfl | hk
        · exact ⟨key, (hpassed key).mpr (.inl rfl), rfl⟩
        · obtain ⟨q, hq, rfl⟩ := (hmem k).mp hk
          exact ⟨q, (hpassed q).mpr (.inr hq), rfl⟩
      · rintro ⟨q, hq, rfl⟩
        rcases (hpassed q).mp hq with rfl | hq
        · split
          · assumption
          · exact List.mem_append_right _ (List.mem_singleton.mpr rfl)
        · have hk := (hmem (q.take 4)).mpr ⟨q, hq, rfl⟩
          split
          · exact hk
          · exact List.mem_append_left _ hk
    · rcases (hpassed q).mp hq with rfl | hq
      · exact hread
      · exact h.readable _ q hq

theorem inv_of_reachable (hs : (migrationMachine keyFormat nodes).Reachable s) : s.Inv keyFormat nodes := by
  refine Machine.reachable_induct _ ?_ ?_ hs
  · rintro s ⟨hinit, hfile, hpassed⟩
    exact init_run hinit hfile hpassed
  · intro s a s' h hst
    cases a with
    | setState name newState opens => exact h.setState hst
    | keyMigrated key => exact h.keyMigrated hst

theorem Inv.acceptKey_iff (h : s.Inv keyFormat nodes) (hnode : s.MovesTo node) {key : List UInt8} (hread : Readable keyFormat key) :
    s.route.acceptKey s.files node key = true ↔ ∃ q ∈ s.passed node, q.take 4 = key.take 4 := by
  obtain ⟨st, hf, hm⟩ := hnode
  obtain ⟨keys, file, ks, hkeys, hfile, hsize, hholds, hmem⟩ := (h.kept node st hf).moving hm
  have hlen : keys.keyLen key = 4 := by
    unfold CFileBackedKeySet.keyLen
    rw [hsize, if_neg (by decide)]
  have hc := hholds.contains_iff (show keys.keyLen key ≤ key.length by rw [hlen]; exact hread.2)
  rw [hlen, hmem] at hc
  have he : s.route.acceptKey s.files node key = keys.contains file key := by
    unfold CKeyRoute.acceptKey
    rw [hf]
    dsimp only
    rcases hm with hm | hm <;> rw [hm, hkeys, hfile]
  rw [he]
  exact hc

end

/-! ### Loading what was saved -/

theorem readBytes_leBytes (v : Nat) (rest : List UInt8) : CKeyRoute.readBytes 4 (leBytes 4 v ++ rest) = some (leBytes 4 v, rest) := by
  have hlen := length_leBytes 4 v
  unfold CKeyRoute.readBytes
  rw [if_pos (by rw [List.length_append, hlen]; omega), List.take_left' hlen, List.drop_left' hlen]

theorem readBytes_append {n : Nat} {bytes : List UInt8} (h : bytes.length = n) (rest : List UInt8) :
    CKeyRoute.readBytes n (bytes ++ rest) = some (bytes, rest) := by
  unfold CKeyRoute.readBytes
  rw [if_pos (by rw [List.length_append]; omega), List.take_left' h, List.drop_left' h]

def NameOk (name : NodeName) : Prop := name ≠ [] ∧ name.length ≤ 255 ∧ 0 ∉ name

theorem loadNode_encodeNode {d : ClusterFiles} {r : CKeyRoute} {x : NodeName × ServerMigrationState} {st₀ : ServerMigrationState}
    (hname : NameOk x.1) (hf : r.find x.1 = some st₀) (haddr : st₀.addr = x.2.addr) (hnone : st₀.migrated = none)
    (hset : x.2.state.Moving → ∃ keys file, x.2.migrated = some keys ∧ d.keyFiles x.1 = some file ∧
      CFileBackedKeySet.load file r.keyFormat = keys) (hstill : ¬ x.2.state.Moving → x.2.migrated = none) (rest : List UInt8) :
    CKeyRoute.loadNode d r (CKeyRoute.encodeNode x ++ rest) = some (r.set x.1 x.2, rest) := by
  obtain ⟨name, addr, state, migrated⟩ := x
  obtain ⟨hne, hlen, hzero⟩ := hname
  dsimp only at hne hlen hzero hf haddr hset hstill ⊢
  have hnat : leNat 4 (leBytes 4 name.length) = name.length := by
    rw [leNat_leBytes]
    exact Nat.mod_eq_of_lt (Nat.lt_of_le_of_lt hlen (by decide))
  have hcode : leNat 4 (leBytes 4 state.code) = state.code := by
    rw [leNat_leBytes]
    cases state <;> rfl
  have hpos := List.length_pos_iff.mpr hne
  have htake : name.takeWhile (fun b => decide (b ≠ 0)) = name := by
    refine List.takeWhile_eq_self_iff.mpr (fun b hb => decide_eq_true ?_)
    rintro rfl
    exact hzero hb
  have henc : CKeyRoute.encodeNode (name, ⟨addr, state, migrated⟩) ++ rest =
      leBytes 4 name.length ++ (name ++ (leBytes 4 state.code ++ rest)) := by
    unfold CKeyRoute.encodeNode
    rw [List.append_assoc, List.append_assoc]
  unfold CKeyRoute.loadNode
  rw [henc, readBytes_leBytes]
  simp only [Option.bind_eq_bind, Option.bind_some]
  rw [hnat, if_neg (by omega), readBytes_append rfl]
  simp only [Option.bind_some]
  rw [readBytes_leBytes]
  simp only [Option.bind_some]
  rw [hcode, MigrationState.ofCode_code, htake, hf]
  simp only [Option.bind_some]
  by_cases hm : state.Moving
  · obtain ⟨keys, file, rfl, hfile, hload⟩ := hset hm
    rw [if_pos hm, hfile]
    simp only [Option.bind_some]
    rw [hload, haddr]
  · obtain rfl := hstill hm
    obtain ⟨addr₀, state₀, migrated₀⟩ := st₀
    dsimp only at haddr hnone
    rw [if_neg hm, haddr, hnone]

theorem loadNodes_encode (d : ClusterFiles) {todo : List (NodeName × ServerMigrationState)} (rest : List UInt8) :
    ∀ {r : CKeyRoute} {todo₀ done : List (NodeName × ServerMigrationState)}, r.Ordered →
      r.serverMigrationState = done ++ todo₀ → todo₀.map (fun x => (x.1, x.2.addr)) = todo.map (fun x => (x.1, x.2.addr)) →
        (∀ x ∈ todo₀, x.2.migrated = none) → (∀ x ∈ todo, NameOk x.1 ∧ (x.2.state.Moving → ∃ keys file,
          x.2.migrated = some keys ∧ d.keyFiles x.1 = some file ∧ CFileBackedKeySet.load file r.keyFormat = keys) ∧
            (¬ x.2.state.Moving → x.2.migrated = none)) →
          CKeyRoute.loadNodes d todo.length r ((todo.map CKeyRoute.encodeNode).flatten ++ rest) =
            some ({ r with serverMigrationState := done ++ todo }, rest) := by
  induction todo with
  | nil =>
    intro r todo₀ done _ hr hmap _ _
    rw [List.map_nil, List.map_eq_nil_iff] at hmap
    rw [hmap] at hr
    rw [← hr]
    rfl
  | cons x todo ih =>
    intro r todo₀ done ho hr hmap hnone hok
    cases todo₀ with
    | nil => cases hmap
    | cons x₀ todo₀ =>
      rw [List.map_cons, List.map_cons] at hmap
      obtain ⟨hx, htail⟩ := List.cons.inj hmap
      obtain ⟨hname₀, haddr⟩ := Prod.mk.inj hx
      obtain ⟨n₀, st₀⟩ := x₀
      obtain ⟨n, st⟩ := x
      dsimp only at hname₀ haddr
      subst hname₀
      obtain ⟨hname, hset, hstill⟩ := hok _ List.mem_cons_self
      have hf : r.find n₀ = some st₀ := by
        refine HashRing.find_of_mem (x := (n₀, st₀)) ho ?_
        rw [hr]
        exact List.mem_append_right _ List.mem_cons_self
      have hset' : (r.set n₀ st).serverMigrationState = (done ++ [(n₀, st)]) ++ todo₀ := by
        show HashRing.insert n₀ st r.serverMigrationState = _
        rw [hr, HashRing.insert_middle st₀ st (by rw [← hr]; exact ho), List.append_assoc]
        rfl
      rw [List.map_cons, List.flatten_cons, List.append_assoc, List.length_cons, CKeyRoute.loadNodes,
        loadNode_encodeNode hname hf haddr (hnone _ List.mem_cons_self) hset hstill, Option.bind_some]
      refine (ih (ho.set n₀ st) hset' htail (fun y hy => hnone y (List.mem_cons_of_mem _ hy))
        (fun y hy => hok y (List.mem_cons_of_mem _ hy))).trans ?_
      rw [List.append_assoc]
      rfl

section

variable {keyFormat : Nat} {nodes : List ClusterNode}

theorem Inv.load (h : s.Inv 4 nodes) (hsave : CanSave nodes) :
    ∃ r₀, CKeyRoute.init 4 nodes = some r₀ ∧ r₀.loadNodeStateIfAny s.files = some s.route := by
  obtain ⟨r₀, hr₀, hsame, hsaved⟩ := h.start
  obtain ⟨ho₀, hstill₀, hk₀, hlen₀, hnames₀⟩ := CKeyRoute.init_spec hr₀ List.Pairwise.nil (fun _ _ hs => (nomatch hs))
  refine ⟨r₀, hr₀, ?_⟩
  have hroute : ∀ l, s.route.serverMigrationState = l → { r₀ with serverMigrationState := l } = s.route := by
    rintro l rfl
    obtain ⟨h1, h2, h3, -⟩ := hsame
    rw [← h1, ← h2, ← h3]
  unfold CKeyRoute.loadNodeStateIfAny
  rcases hsaved with ⟨hfile, hmap⟩ | hfile
  · rw [hfile]
    exact congrArg some (hroute _ hmap)
  · rw [hfile]
    have hlen : r₀.serverMigrationState.length = s.route.serverMigrationState.length := by
      have he := congrArg List.length hsame.addresses
      unfold CKeyRoute.addresses at he
      rw [List.length_map, List.length_map] at he
      exact he.symm
    have hlt : s.route.serverMigrationState.length < 2 ^ 31 := by
      have := hsave.1
      rw [List.length_nil] at hlen₀
      omega
    have hnat : leNat 4 (leBytes 4 s.route.serverMigrationState.length) = r₀.serverMigrationState.length := by
      rw [leNat_leBytes, hlen]
      exact Nat.mod_eq_of_lt (Nat.lt_trans hlt (by decide))
    have hload := loadNodes_encode s.files [] ho₀
      (show r₀.serverMigrationState = [] ++ r₀.serverMigrationState from rfl) hsame.addresses.symm
      (fun x hx => (hstill₀ x.1 x.2 (HashRing.find_of_mem ho₀ hx)).2) (fun x hx => ?_)
    · unfold CKeyRoute.encodeStates
      dsimp only
      rw [readBytes_leBytes]
      simp only [Option.bind_eq_bind, Option.bind_some]
      rw [hnat, if_neg (fun hne => hne rfl), hlen]
      rw [List.append_nil] at hload
      rw [hload]
      simp only [Option.bind_some]
      rw [if_pos trivial, List.nil_append]
      exact congrArg some (hroute _ rfl)
    · have hfx := HashRing.find_of_mem h.ordered hx
      have hk := h.kept x.1 x.2 hfx
      refine ⟨?_, fun hm => ?_, hk.still⟩
      · have hx₀ : (x.1, x.2.addr) ∈ r₀.addresses := by
          rw [← hsame.addresses]
          exact List.mem_map.mpr ⟨x, hx, rfl⟩
        obtain ⟨x₀, hx₀, he⟩ := List.mem_map.mp hx₀
        rcases hnames₀ x₀ hx₀ with hin | ⟨node, hnode, hname⟩
        · exact absurd hin List.not_mem_nil
        · have hname' : node.name = x.1 := hname.trans (Prod.mk.inj he).1
          exact hname' ▸ hsave.2 node hnode
      · obtain ⟨keys, file, ks, hkeys, hfile, hsize, hholds, -⟩ := hk.moving hm
        refine ⟨keys, file, hkeys, hfile, ?_⟩
        have hl := hholds.load
        rw [hsize] at hl
        rw [hk₀]
        exact hl

end

end MigrationRun

/-! ## The key format of the table -/

def oneNode : List ClusterNode := [⟨[49], [50], false⟩]

theorem oneNode_init (keyFormat : Nat) : ∃ r, CKeyRoute.init keyFormat oneNode = some r ∧ r.keyFormat = keyFormat ∧
    r.find [49] = some { addr := [50] } ∧ r.selfName = [] ∧ ∀ key, r.selectNode key = [49] := by
  obtain ⟨selector, hadd⟩ : ∃ selector, CConsistentHashSelector.addNode {} [49] = some selector := ⟨_, rfl⟩
  refine ⟨{ keyFormat, serverMigrationState := [([49], { addr := [50] })], selector }, ?_, rfl, rfl, rfl, fun key => ?_⟩
  · unfold CKeyRoute.init oneNode
    rw [List.foldlM_cons, CKeyRoute.initNode, hadd]
    rfl
  · -- every point of the ring is the one node's
    obtain ⟨hidx, hnames, hring⟩ := CConsistentHashSelector.addNode_spec (fun x hx => absurd hx List.not_mem_nil) hadd
    have hne : selector.nodes ≠ [] := by
      intro hnil
      have hnil' : selector.ring = [] := by
        unfold CConsistentHashSelector.ring
        rw [hnil]
        rfl
      have hpoints := ring_ne_nil (List.cons_ne_nil ([49] : NodeName) [])
      rw [ringPoints_cons, show ringPoints [] = [] from rfl, List.append_nil] at hpoints
      exact hpoints (hring.symm.trans hnil')
    show selector.select _ = [49]
    unfold CConsistentHashSelector.select
    obtain ⟨index, hindex⟩ := HashRing.select_isSome (chash (routeBytes keyFormat key)) hne
    obtain ⟨x, hx, rfl⟩ := HashRing.mem_of_select hindex
    have hlt := hidx x hx
    rw [hnames] at hlt
    have hzero : x.2 = 0 := Nat.lt_one_iff.mp hlt
    rw [hindex, hnames, hzero]
    rfl

namespace MigrationRun

theorem oneNode_run {keyFormat : Nat} {p : List UInt8} (hp : Readable keyFormat p) :
    ∃ s, (migrationMachine keyFormat oneNode).Reachable s ∧ s.MovesTo [49] ∧ s.passed [49] = [p] ∧
      s.route.keyFormat = keyFormat := by
  obtain ⟨r, hinit, hkf, hfind, hself, hsel⟩ := oneNode_init keyFormat
  obtain ⟨s₁, h₁, hmoves, hpassed, hkf₁, hsel₁⟩ : ∃ s₁, (MigrationRun.mk r {} (fun _ => [])).step (.setState [49] 1 true) =
      some s₁ ∧ s₁.MovesTo [49] ∧ s₁.passed [49] = [] ∧ s₁.route.keyFormat = keyFormat ∧
        ∀ key, s₁.route.selectNode key = [49] := by
    have ho : r.Ordered := (CKeyRoute.init_spec hinit List.Pairwise.nil (fun _ _ hs => (nomatch hs))).1
    have hset := ho.find_set [49] { addr := [50], state := .migrating, migrated := some { keySize := buildHotBackupTable.keyFormat } } [49]
    rw [if_pos rfl] at hset
    have hchange : r.processNodeStateChange {} [49] 1 true = r.openKeySet {} [49] { addr := [50] } .migrating true := by
      unfold CKeyRoute.processNodeStateChange
      rw [hfind, hself]
      rfl
    unfold step
    dsimp only
    rw [hchange]
    refine ⟨_, rfl, ?_⟩
    have hmoves : MovesTo ⟨(r.openKeySet {} [49] { addr := [50] } .migrating true).2.1,
        (r.openKeySet {} [49] { addr := [50] } .migrating true).1, fun _ => []⟩ [49] := ⟨_, hset, .inl rfl⟩
    have hnot : ¬ MovesTo ⟨r, {}, fun _ => []⟩ [49] := by
      rintro ⟨st, hst, hm⟩
      rw [Option.mem_def.mp hst |>.symm.trans hfind |> Option.some.inj] at hm
      revert hm
      decide
    rw [if_pos ⟨hmoves, hnot⟩]
    exact ⟨hmoves, show Function.update (fun _ => []) [49] [] [49] = ([] : List (List UInt8)) from Function.update_self .., hkf, hsel⟩
  have hreach₁ : (migrationMachine keyFormat oneNode).Reachable s₁ :=
    ⟨_, [.setState [49] 1 true], ⟨hinit, rfl, rfl⟩, Option.bind_eq_some_iff.mpr ⟨s₁, h₁, rfl⟩⟩
  obtain ⟨st, hf, hm⟩ := hmoves
  obtain ⟨keys, file, -, hkeys, hfile, -⟩ := ((inv_of_reachable hreach₁).kept [49] st hf).moving hm
  have hmigrated : s₁.route.keyMigrated s₁.files p =
      ({ s₁.files with keyFiles := Function.update s₁.files.keyFiles [49] (some (keys.insert file p).2) },
        s₁.route.set [49] { st with migrated := some (keys.insert file p).1 }, true) := by
    unfold CKeyRoute.keyMigrated
    dsimp only
    rw [hsel₁, Option.mem_def.mp hf]
    dsimp only
    rw [if_pos hm, hkeys, hfile]
  have h₂ : s₁.step (.keyMigrated p) = some
      { route := s₁.route.set [49] { st with migrated := some (keys.insert file p).1 }
        files := { s₁.files with keyFiles := Function.update s₁.files.keyFiles [49] (some (keys.insert file p).2) }
        passed := Function.update s₁.passed [49] [p] } := by
    unfold step
    dsimp only
    rw [if_pos (by rw [hkf₁]; exact hp), hmigrated, if_pos rfl, hsel₁, hpassed]
  refine ⟨_, ⟨_, [.setState [49] 1 true, .keyMigrated p], ⟨hinit, rfl, rfl⟩, Option.bind_eq_some_iff.mpr
    ⟨s₁, h₁, Option.bind_eq_some_iff.mpr ⟨_, h₂, rfl⟩⟩⟩,
      ⟨{ st with migrated := some (keys.insert file p).1 }, ?_, hm⟩, ?_, hkf₁⟩
  · exact ((inv_of_reachable hreach₁).ordered.find_set [49] _ [49]).trans (if_pos rfl)
  · show Function.update s₁.passed [49] [p] [49] = [p]
    rw [Function.update_self]

end MigrationRun

/-- **The migrated keys are known exactly in a table whose key format is that of the administration table**, four bytes. -/
theorem migrationMachine_exact_iff (keyFormat : Nat) :
    (∀ nodes s, (migrationMachine keyFormat nodes).Reachable s → s.Exact ∧ s.Reloads nodes) ↔
      keyFormat = buildHotBackupTable.keyFormat := by
  rw [buildHotBackupTable_keyFormat]
  constructor
  · intro hall
    -- two keys of other formats that the first four bytes do not tell apart, or tell apart wrongly
    have hexact : ∀ p q, MigrationRun.Readable keyFormat p → MigrationRun.Readable keyFormat q →
        (p.take 4 = q.take 4 ↔ MigrationRun.tableKey keyFormat p = MigrationRun.tableKey keyFormat q) := by
      intro p q hp hq
      obtain ⟨s, hs, hmoves, hpassed, hkf⟩ := MigrationRun.oneNode_run hp
      have he := (hall oneNode s hs).1 [49] hmoves q (by rw [hkf]; exact hq)
      rw [(MigrationRun.inv_of_reachable hs).acceptKey_iff hmoves hq, hpassed, hkf] at he
      simpa using he
    by_contra hne
    rcases Nat.eq_zero_or_pos keyFormat with rfl | hpos
    · have h := hexact [4, 0, 0, 0, 0] [4, 0, 0, 0, 1] (by decide) (by decide)
      exact absurd (h.mp rfl) (by decide)
    · have hsize : ∀ key, packedKeySize keyFormat key = keyFormat := fun key => if_pos (Nat.ne_of_gt hpos)
      by_cases hlt : keyFormat < 4
      · have h := hexact [0, 0, 0, 0] [0, 0, 0, 1] ⟨by rw [hsize]; exact Nat.le_of_lt hlt, by decide⟩
          ⟨by rw [hsize]; exact Nat.le_of_lt hlt, by decide⟩
        refine absurd (h.mpr ?_) (by decide)
        unfold MigrationRun.tableKey
        rw [hsize, hsize]
        have hle : keyFormat ≤ ([0, 0, 0] : List UInt8).length := Nat.le_of_lt_succ hlt
        have htake : ∀ b : UInt8, ([0, 0, 0] ++ [b]).take keyFormat = ([0, 0, 0] : List UInt8).take keyFormat :=
          fun _ => List.take_append_of_le_length hle
        exact (htake 0).trans (htake 1).symm
      · obtain ⟨n, rfl⟩ : ∃ n, keyFormat = 4 + (n + 1) := ⟨keyFormat - 5, by omega⟩
        have hread : ∀ b : UInt8, MigrationRun.Readable (4 + (n + 1)) ([0, 0, 0, 0] ++ (List.replicate n 0 ++ [b])) := by
          intro b
          refine ⟨?_, ?_⟩
          · rw [hsize]
            simp
            omega
          · simp
        have h := (hexact _ _ (hread 0) (hread 1)).mp rfl
        unfold MigrationRun.tableKey at h
        rw [hsize, hsize, List.take_of_length_le (by simp; omega), List.take_of_length_le (by simp; omega)] at h
        simp at h
  · rintro rfl nodes s hs
    have h := MigrationRun.inv_of_reachable hs
    refine ⟨fun node hnode key hread => ?_, fun hsave => ?_⟩
    · rw [h.format] at hread ⊢
      rw [h.acceptKey_iff hnode hread]
      rfl
    · obtain ⟨r₀, hr₀, hload⟩ := h.load hsave
      exact ⟨r₀, s.route, by rw [h.format]; exact hr₀, hload, fun _ _ _ => rfl⟩

/-- Keys of eight bytes: one was passed, and one that was not is accepted. -/
theorem migrationMachine_eight : ∃ s, (migrationMachine 8 oneNode).Reachable s ∧ s.MovesTo [49] ∧
    s.passed [49] = [[1, 0, 0, 0, 0, 0, 0, 0]] ∧ s.route.acceptKey s.files [49] [1, 0, 0, 0, 1, 0, 0, 0] = true := by
  obtain ⟨s, hs, hmoves, hpassed, -⟩ := MigrationRun.oneNode_run
    (show MigrationRun.Readable 8 [1, 0, 0, 0, 0, 0, 0, 0] by decide)
  refine ⟨s, hs, hmoves, hpassed, ?_⟩
  rw [(MigrationRun.inv_of_reachable hs).acceptKey_iff hmoves (by decide), hpassed]
  exact ⟨_, List.mem_singleton.mpr rfl, rfl⟩

end Dtc
