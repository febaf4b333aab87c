import DtcServer.CachePoolSpec
import DtcServer.CacheHash
import Mathlib.Algebra.BigOperators.Ring.Finset
/-!
# CachePoolRun — the pool is a map from keys to nodes

A request looks its key up, may allocate a node for it and store data there, and may purge it; others purge keys and
nodes, and the hash of the table is changed between runs of the server.  Beside the pool goes the map it stands for.
-/
namespace Dtc

open Chains

/-- The pool, the map it stands for and the request at work: its key and node. -/
structure PoolWorld (Key : Type) (n : Nat) where
  pool : CachePool Key n
  map : Key → Option NodeId := fun _ => none
  handler : Option (Key × Option NodeId) := none

inductive PoolAction (Key : Type) where
  /-- `CacheFindAutoChoseHash` of a new request -/
  | find (key : Key)
  /-- `CacheAllocate` for the request, with the node `AllocateNode` gives and whether an index block is there for it -/
  | allocate (node : NodeId) (got : Bool)
  /-- the request's node has got a chunk with its key -/
  | setData
  /-- `PurgeNode` by the request -/
  | purgeNode
  | purgeNodeEverything (node : NodeId)
  | cachePurge (key : Key)
  | tryPurgeSize (prePurge count : Nat) (fits : NodeId → Bool)
  | moveToNewHash (key : Key) (node : NodeId)
  | moveToLru (node : NodeId) (list : LruList)
  /-- a start of the server with another configuration: to a stable hash only when the change is done -/
  | configure (config : HashConfig)

theorem map_of_evicts {Key : Type} {n : Nat} {map map' : Key → Option NodeId} {p p' : CachePool Key n} {gone : NodeId → Prop}
    (hm : ∀ key node, map key = some node ↔ p.vdHandle node = some key) (he : Evicts gone p p')
    (hmap : ∀ key node, map' key = some node ↔ map key = some node ∧ ¬ gone node) (key : Key) (node : NodeId) :
    map' key = some node ↔ p'.vdHandle node = some key := by
  rw [hmap, hm]
  by_cases hg : gone node
  · rw [he.lost node hg]
    simp [hg]
  · rw [he.handle node hg]
    simp [hg]

namespace PoolWorld

variable {Key : Type} [DecidableEq Key] {n : Nat} (slot : Bool → Key → Fin n)

def surviving (map : Key → Option NodeId) (p : CachePool Key n) : Key → Option NodeId :=
  fun key => (map key).filter (fun node => p.used.contains node)

def step (w : PoolWorld Key n) : PoolAction Key → Option (PoolWorld Key n)
  | .find key => (w.pool.cacheFindAutoChoseHash slot key).map (fun r =>
      { w with pool := r.1, handler := some (key, r.2) })
  | .allocate node got =>
    match w.handler with
    | some (key, none) =>
      if node ∈ w.pool.used then none
      else some { w with pool := w.pool.cacheAllocate slot key node got, handler := some (key, some node) }
    | _ => none
  | .setData =>
    match w.handler with
    | some (key, some node) => some { w with
        pool := { w.pool with vdHandle := Function.update w.pool.vdHandle node (some key) }
        map := Function.update w.map key (some node) }
    | _ => none
  | .purgeNode =>
    match w.handler with
    | some (key, some node) => (w.pool.purgeNode slot key node).map (fun p =>
        { pool := p, map := Function.update w.map key none, handler := some (key, none) })
    | _ => none
  | .purgeNodeEverything node => (w.pool.purgeNodeEverything slot node).map (fun p =>
      { pool := p, map := fun key => (w.map key).filter (· ≠ node), handler := none })
  | .cachePurge key => (w.pool.cachePurge slot key).map (fun p =>
      { pool := p, map := Function.update w.map key none, handler := none })
  | .tryPurgeSize prePurge count fits =>
    (w.pool.tryPurgeSize slot prePurge count (w.handler.bind Prod.snd) fits).map (fun p =>
      { w with pool := p, map := surviving w.map p })
  | .moveToNewHash key node =>
    if w.pool.vdHandle node = some key then
      (w.pool.moveToNewHash slot key node).map (fun p => { w with pool := p })
    else none
  | .moveToLru node list => if node ∈ w.pool.used then some { w with pool := w.pool.moveToLru node list } else none
  | .configure config =>
    if config.hashChanging || w.pool.stableIn slot config.targetNewHash then
      some { w with pool := { w.pool with config := config }, handler := none }
    else none

/-- The index block of a node that is allocated is there, or it is allocated. -/
def StepOk (w : PoolWorld Key n) : PoolAction Key → Prop
  | .allocate node got => (w.pool.index.blocks (node >>> 24) || got) = true
  | _ => True

instance (w : PoolWorld Key n) : (a : PoolAction Key) → Decidable (w.StepOk a)
  | .allocate _ _ => inferInstanceAs (Decidable (_ = true))
  | .find _ | .setData | .purgeNode | .purgeNodeEverything _ | .cachePurge _ | .tryPurgeSize _ _ _ | .moveToNewHash _ _
  | .moveToLru _ _ | .configure _ => isTrue trivial

/-- Between two actions: the request's node is there, and a request without a node is the first for its key. -/
def HandlerOk (p : CachePool Key n) (owner : NodeId → Option Key) : Option (Key × Option NodeId) → Prop
  | none => True
  | some (key, none) => ∀ x ∈ p.used, owner x ≠ some key
  | some (key, some node) => node ∈ p.used ∧ owner node = some key

def Inv (w : PoolWorld Key n) : Prop :=
  ∃ owner chains, PoolInv slot w.pool owner chains ∧ HandlerOk w.pool owner w.handler ∧
    ∀ key node, w.map key = some node ↔ w.pool.vdHandle node = some key

variable {slot} {w w' : PoolWorld Key n}

theorem inv_find {key : Key} (h : Inv slot w) (hs : w.step slot (.find key) = some w') : Inv slot w' := by
  obtain ⟨owner, chains, hp, -, hm⟩ := h
  obtain ⟨p', chains', r, h1, h2, h3, h4, h5⟩ := hp.cacheFindAutoChoseHash key
  simp only [step, h1, Option.map_some, Option.some.injEq] at hs
  subst hs
  refine ⟨owner, chains', h2, ?_, fun k node => ?_⟩
  · cases hr : r with
    | none => exact h5 hr
    | some node =>
      have hv := (h4 node).mp hr
      exact ⟨h3.keeps node (hp.handle node key hv).1 (by rw [hv]; exact Option.some_ne_none key),
        (hp.handle node key hv).2⟩
  · rw [h3.vdHandle]
    exact hm k node

theorem inv_allocate {node : NodeId} {got : Bool} (h : Inv slot w) (hok : w.StepOk (.allocate node got))
    (hs : w.step slot (.allocate node got) = some w') : Inv slot w' := by
  obtain ⟨owner, chains, hp, hh, hm⟩ := h
  simp only [step] at hs
  split at hs
  · rename_i key hkey
    rw [hkey] at hh
    split at hs
    · cases hs
    · rename_i hnew
      obtain rfl := Option.some.inj hs
      refine ⟨_, _, hp.cacheAllocate hnew hh hok, ⟨List.mem_cons_self, Function.update_self ..⟩, fun k x => ?_⟩
      have hnone : w.pool.vdHandle node = none := by
        cases hv : w.pool.vdHandle node with
        | none => rfl
        | some k' => exact absurd (hp.handle node k' hv).1 hnew
      have hsame : (w.pool.cacheAllocate slot key node got).vdHandle = w.pool.vdHandle := by
        simp only [CachePool.cacheAllocate, CachePool.insert2Hash]
        rw [← hnone, Function.update_eq_self]
      rw [hsame]
      exact hm k x
  · cases hs

theorem inv_setData (h : Inv slot w) (hs : w.step slot .setData = some w') : Inv slot w' := by
  obtain ⟨owner, chains, hp, hh, hm⟩ := h
  simp only [step] at hs
  split at hs
  · rename_i key node hkey
    rw [hkey] at hh
    obtain rfl := Option.some.inj hs
    refine ⟨owner, chains, hp.setData hh.1 hh.2, hkey ▸ hh, fun k x => ?_⟩
    by_cases hk : k = key
    · subst hk
      simp only [Function.update_self, Option.some.injEq]
      by_cases hx : x = node
      · simp only [hx, Function.update_self]
      · simp only [Function.update_of_ne hx]
        refine ⟨fun he => absurd he.symm hx, fun hv => ?_⟩
        obtain ⟨hux, hox⟩ := hp.handle x k hv
        exact hp.unique node x hh.1 hux (hh.2.trans hox.symm)
    · simp only [Function.update_of_ne hk]
      by_cases hx : x = node
      · subst hx
        simp only [Function.update_self, Option.some.injEq]
        refine ⟨fun hmk => ?_, fun he => absurd he.symm hk⟩
        exact Option.some.inj (hh.2.symm.trans (hp.handle x k ((hm k x).mp hmk)).2)
      · simp only [Function.update_of_ne hx]
        exact hm k x
  · cases hs

theorem inv_purgeNode (h : Inv slot w) (hs : w.step slot .purgeNode = some w') : Inv slot w' := by
  obtain ⟨owner, chains, hp, hh, hm⟩ := h
  simp only [step] at hs
  split at hs
  · rename_i key node hkey
    rw [hkey] at hh
    obtain ⟨p', chains', h1, h2, h3, h4⟩ := hp.purgeNode_evicts hh.2
    simp only [h1, Option.map_some, Option.some.injEq] at hs
    subst hs
    refine ⟨owner, chains', h2, fun x hx ho => ?_, map_of_evicts hm h3 (fun k x => ?_)⟩
    · obtain rfl := hp.unique x node (h3.sub x hx) hh.1 (ho.trans hh.2.symm)
      exact h4 hx
    · by_cases hk : k = key
      · subst hk
        simp only [Function.update_self]
        refine ⟨fun hx => (by cases hx), fun hx => absurd ?_ hx.2⟩
        obtain ⟨hux, hox⟩ := hp.handle x k ((hm k x).mp hx.1)
        exact hp.unique x node hux hh.1 (hox.trans hh.2.symm)
      · simp only [Function.update_of_ne hk]
        refine ⟨fun hx => ⟨hx, fun he => hk ?_⟩, And.left⟩
        obtain ⟨-, hox⟩ := hp.handle x k ((hm k x).mp hx)
        rw [he] at hox
        exact Option.some.inj (hox.symm.trans hh.2)
  · cases hs

theorem inv_purgeNodeEverything {node : NodeId} (h : Inv slot w)
    (hs : w.step slot (.purgeNodeEverything node) = some w') : Inv slot w' := by
  obtain ⟨owner, chains, hp, -, hm⟩ := h
  obtain ⟨p', chains', h1, h2, h3⟩ := hp.purgeNodeEverything node
  simp only [step, h1, Option.map_some, Option.some.injEq] at hs
  subst hs
  refine ⟨owner, chains', h2, trivial, map_of_evicts hm h3 (fun k x => ?_)⟩
  simp only [Option.filter_eq_some_iff, decide_eq_true_eq]

theorem inv_cachePurge {key : Key} (h : Inv slot w) (hs : w.step slot (.cachePurge key) = some w') : Inv slot w' := by
  obtain ⟨owner, chains, hp, -, hm⟩ := h
  obtain ⟨p', chains', h1, h2, -, h4⟩ := hp.cachePurge key
  simp only [step, h1, Option.map_some, Option.some.injEq] at hs
  subst hs
  refine ⟨owner, chains', h2, trivial, fun k x => ?_⟩
  rw [h4, ← hm]
  by_cases hk : k = key
  · subst hk
    simp
  · simp [hk]

theorem inv_tryPurgeSize {prePurge count : Nat} {fits : NodeId → Bool} (h : Inv slot w)
    (hs : w.step slot (.tryPurgeSize prePurge count fits) = some w') : Inv slot w' := by
  obtain ⟨owner, chains, hp, hh, hm⟩ := h
  obtain ⟨p', chains', gone, h1, h2, h3, h4⟩ := hp.tryPurgeSize prePurge count (w.handler.bind Prod.snd) fits
  simp only [step, h1, Option.map_some, Option.some.injEq] at hs
  subst hs
  refine ⟨owner, chains', h2, ?_, map_of_evicts hm h3 (fun k x => ?_)⟩
  · cases hd : w.handler with
    | none => trivial
    | some kn =>
      obtain ⟨key, node⟩ := kn
      rw [hd] at hh h4
      cases node with
      | none => exact fun x hx => hh x (h3.sub x hx)
      | some node => exact ⟨h3.keeps node hh.1 (fun hg => h4 node hg rfl), hh.2⟩
  · simp only [surviving, Option.filter_eq_some_iff, List.contains_iff_mem]
    refine and_congr_right (fun hx => ?_)
    have hv := (hm k x).mp hx
    refine ⟨fun hu hg => ?_, fun hg => h3.keeps x (hp.handle x k hv).1 hg⟩
    exact h3.freed x hg (by rw [hv]; exact Option.some_ne_none k) hu

theorem inv_moveToNewHash {key : Key} {node : NodeId} (h : Inv slot w)
    (hs : w.step slot (.moveToNewHash key node) = some w') : Inv slot w' := by
  obtain ⟨owner, chains, hp, hh, hm⟩ := h
  simp only [step] at hs
  split at hs
  · rename_i hv
    obtain ⟨hu, ho⟩ := hp.handle node key hv
    obtain ⟨p', chains', h1, h2, -, h4, h5⟩ := hp.moveToNewHash hu ho
    simp only [h1, Option.map_some, Option.some.injEq] at hs
    subst hs
    refine ⟨owner, chains', h2, ?_, fun k x => by rw [h5]; exact hm k x⟩
    unfold HandlerOk at hh ⊢
    rw [h4]
    exact hh
  · cases hs

theorem inv_moveToLru {node : NodeId} {list : LruList} (h : Inv slot w)
    (hs : w.step slot (.moveToLru node list) = some w') : Inv slot w' := by
  obtain ⟨owner, chains, hp, hh, hm⟩ := h
  simp only [step] at hs
  split at hs
  · rename_i hu
    obtain rfl := Option.some.inj hs
    refine ⟨owner, chains, hp.moveToLru hu list, ?_, ?_⟩
    · cases list <;> exact hh
    · cases list <;> exact hm
  · cases hs

theorem inv_configure {config : HashConfig} (h : Inv slot w) (hs : w.step slot (.configure config) = some w') :
    Inv slot w' := by
  obtain ⟨owner, chains, hp, -, hm⟩ := h
  simp only [step] at hs
  split at hs
  · rename_i hc
    obtain rfl := Option.some.inj hs
    exact ⟨owner, chains, hp.configure hc, trivial, hm⟩
  · cases hs

theorem inv_step {a : PoolAction Key} (h : Inv slot w) (hok : w.StepOk a) (hs : w.step slot a = some w') : Inv slot w' := by
  cases a with
  | find key => exact inv_find h hs
  | allocate node got => exact inv_allocate h hok hs
  | setData => exact inv_setData h hs
  | purgeNode => exact inv_purgeNode h hs
  | purgeNodeEverything node => exact inv_purgeNodeEverything h hs
  | cachePurge key => exact inv_cachePurge h hs
  | tryPurgeSize prePurge count fits => exact inv_tryPurgeSize h hs
  | moveToNewHash key node => exact inv_moveToNewHash h hs
  | moveToLru node list => exact inv_moveToLru h hs
  | configure config => exact inv_configure h hs

end PoolWorld

/-- **The pool refines the map**: the chains end, every node with data is in one of them, in a slot of its key; one node
at most has a key; a lookup returns and gives what the map has; the purges return; the counters count. -/
structure PoolRefines {Key : Type} [DecidableEq Key] {n : Nat} (slot : Bool → Key → Fin n) (w : PoolWorld Key n) :
    Prop where
  acyclic : ∀ s, Linked w.pool.next (w.pool.buckets s) (w.pool.chain s) ∧ (w.pool.chain s).Nodup
  placed : ∀ node key, w.pool.vdHandle node = some key →
    (∃! s, node ∈ w.pool.chain s) ∧ ∃ newhash, w.pool.config.allows newhash ∧ node ∈ w.pool.chain (slot newhash key)
  single : ∀ node node' key, w.pool.vdHandle node = some key → w.pool.vdHandle node' = some key → node = node'
  map : ∀ key node, w.map key = some node ↔ w.pool.vdHandle node = some key
  find : ∀ key, ∃ p, w.pool.cacheFindAutoChoseHash slot key = some (p, w.map key)
  purgeKey : ∀ key, (w.pool.cachePurge slot key).isSome
  purgeNode : ∀ node, (w.pool.purgeNodeEverything slot node).isSome
  purgeSize : ∀ prePurge count reserve fits, (w.pool.tryPurgeSize slot prePurge count reserve fits).isSome
  hhNode : w.pool.hhNode = ∑ s, ((w.pool.chain s).length : Int)
  hhFree : w.pool.hhFree = ((Finset.univ.filter (fun s => w.pool.buckets s = none)).card : Int)

namespace PoolWorld

variable {Key : Type} [DecidableEq Key] {n : Nat} {slot : Bool → Key → Fin n} {w : PoolWorld Key n}

theorem Inv.refines (h : Inv slot w) : PoolRefines slot w := by
  obtain ⟨owner, chains, hp, -, hm⟩ := h
  have hchain : w.pool.chain = chains := funext hp.chain_eq
  refine ⟨fun s => ?_, fun node key hv => ?_, fun node node' key hv hv' => ?_, hm, fun key => ?_, fun key => ?_,
    fun node => ?_, fun prePurge count reserve fits => ?_, ?_, ?_⟩
  · rw [hchain]
    exact ⟨hp.rep.linked s, hp.rep.nodup s⟩
  · rw [hchain]
    obtain ⟨hu, ho⟩ := hp.handle node key hv
    obtain ⟨s, hs⟩ := hp.chained node hu
    refine ⟨⟨s, hs, fun t ht => hp.rep.disjoint t s node ht hs⟩, ?_⟩
    obtain ⟨newhash, hal, rfl⟩ := hp.slot_of_owner ho s hs
    exact ⟨newhash, hal, hs⟩
  · obtain ⟨hu, ho⟩ := hp.handle node key hv
    obtain ⟨hu', ho'⟩ := hp.handle node' key hv'
    exact hp.unique node node' hu hu' (ho.trans ho'.symm)
  · obtain ⟨p', chains', r, h1, -, -, h4, -⟩ := hp.cacheFindAutoChoseHash key
    have hr : r = w.map key := Option.ext (fun node => by rw [h4 node, hm])
    exact ⟨p', by rw [h1, hr]⟩
  · obtain ⟨p', chains', h1, -⟩ := hp.cachePurge key
    rw [h1]
    rfl
  · obtain ⟨p', chains', h1, -⟩ := hp.purgeNodeEverything node
    rw [h1]
    rfl
  · obtain ⟨p', chains', gone, h1, -⟩ := hp.tryPurgeSize prePurge count reserve fits
    rw [h1]
    rfl
  · rw [hchain]
    exact hp.rep.nodes
  · rw [hp.rep.free, Finset.card_filter, Nat.cast_sum]
    refine Finset.sum_congr rfl (fun s _ => ?_)
    simp only [hp.rep.bucket_none, Nat.cast_ite, Nat.cast_one, Nat.cast_zero]

end PoolWorld

/-- The pool of packed keys: it starts empty, with any configuration of the hash and a memory of any size. -/
def poolMachine (h : CHash) (keySize : Nat) : Machine (PoolWorld (PackedKey keySize) h.hhSize)
    (PoolAction (PackedKey keySize)) where
  start w := ∃ config memSize, w = { pool := { config := config, index := .init memSize } }
  step w a := w.step h.slot a

theorem poolMachine_start (h : CHash) (keySize : Nat) (w : PoolWorld (PackedKey keySize) h.hhSize)
    (hw : (poolMachine h keySize).start w) : w.Inv h.slot := by
  obtain ⟨config, memSize, rfl⟩ := hw
  refine ⟨fun _ => none, fun _ => [], ⟨⟨fun _ => rfl, fun _ => List.nodup_nil, ?_, ?_, ?_, ?_, ?_⟩, ?_, ?_, ?_, ?_, ?_⟩,
    trivial, ?_⟩
  all_goals simp

theorem poolMachine_refines (h : CHash) (keySize : Nat) {w : PoolWorld (PackedKey keySize) h.hhSize}
    (hw : (poolMachine h keySize).ReachableMeeting PoolWorld.StepOk w) : PoolRefines h.slot w :=
  (Machine.reachableMeeting_induct _ (poolMachine_start h keySize) (fun _ _ _ hi hok hs => PoolWorld.inv_step hi hok hs)
    hw).refines

/-- Two keys of a table with three buckets, one put there before the hash changes and one after it. -/
theorem poolMachine_refines_changing :
    let h : CHash := ⟨3, 8, by decide⟩
    let early : PackedKey 8 := ⟨[1, 2, 3, 4, 5, 6, 7, 8], rfl⟩
    let late : PackedKey 8 := ⟨[8, 7, 6, 5, 4, 3, 2, 1], rfl⟩
    ∃ w, (poolMachine h 8).run { pool := { config := {}, index := .init (2 ^ 29) } }
        [.find early, .allocate 256 false, .setData, .configure ⟨true, true⟩, .find late, .allocate 257 false, .setData,
          .find early] = some w ∧ w.map early = some 256 ∧ PoolRefines h.slot w := by
  intro h early late
  have hrun : ((poolMachine h 8).run { pool := { config := {}, index := .init (2 ^ 29) } }
      [.find early, .allocate 256 false, .setData, .configure ⟨true, true⟩, .find late, .allocate 257 false, .setData,
        .find early]).map (fun w : PoolWorld (PackedKey 8) 3 => w.map early) = some (some 256) := by
    decide +kernel
  obtain ⟨w, hw, hmap⟩ := Option.map_eq_some_iff.mp hrun
  refine ⟨w, hw, hmap, poolMachine_refines h 8 ⟨_, _, ⟨{}, 2 ^ 29, rfl⟩, ?_, hw⟩⟩
  decide +kernel

namespace PoolWorld

variable {Key : Type} [DecidableEq Key] {n : Nat} {slot : Bool → Key → Fin n} {w w' : PoolWorld Key n}

theorem Inv.find_new (h : Inv slot w) {key : Key} (hkey : w.map key = none) : ∃ w₁, w.step slot (.find key) = some w₁ ∧
    Inv slot w₁ ∧ w₁.handler = some (key, none) ∧ w₁.map = w.map ∧ w₁.pool.config = w.pool.config ∧
      w₁.pool.index = w.pool.index ∧ ∀ x ∈ w₁.pool.used, x ∈ w.pool.used := by
  obtain ⟨owner, chains, hp, hh, hm⟩ := h
  obtain ⟨p', chains', r, h1, -, h3, h4, -⟩ := hp.cacheFindAutoChoseHash key
  have hr : r = none := by
    refine Option.eq_none_iff_forall_ne_some.mpr (fun node hn => ?_)
    rw [(hm key node).mpr ((h4 node).mp hn)] at hkey
    cases hkey
  have hs : w.step slot (.find key) = some { w with pool := p', handler := some (key, r) } := by
    simp only [step, h1, Option.map_some]
  exact ⟨_, hs, inv_find ⟨owner, chains, hp, hh, hm⟩ hs, by rw [hr], rfl, h3.config,
    CachePool.cacheFindAutoChoseHash_index h1, h3.sub⟩

/-- A new node for a key, and data in it. -/
def loaded (w : PoolWorld Key n) (slot : Bool → Key → Fin n) (key : Key) (node : NodeId) (got : Bool) : PoolWorld Key n where
  pool := { w.pool.cacheAllocate slot key node got with
    vdHandle := Function.update (w.pool.cacheAllocate slot key node got).vdHandle node (some key) }
  map := Function.update w.map key (some node)
  handler := some (key, some node)

theorem step_load (slot : Bool → Key → Fin n) (got : Bool) {key : Key} {node : NodeId}
    (hw : w.handler = some (key, none)) (hnode : node ∉ w.pool.used) :
    ∃ w₁, w.step slot (.allocate node got) = some w₁ ∧ w₁.step slot .setData = some (w.loaded slot key node got) := by
  refine ⟨{ w with pool := w.pool.cacheAllocate slot key node got, handler := some (key, some node) }, ?_, rfl⟩
  simp only [step, hw, if_neg hnode]

/-- A node that the index does not have is not found. -/
theorem loaded_not_refines {key : Key} {node : NodeId} (hw : w.pool.config.hashChanging = false)
    (hblock : w.pool.index.blocks (node >>> 24) = false) : ¬ PoolRefines slot (w.loaded slot key node false) := by
  intro h
  have hindex : (w.loaded slot key node false).pool.index = w.pool.index := by
    change w.pool.index.insert node false = _
    unfold NodeIndex.insert
    rw [hblock]
    rfl
  have hfind : (w.loaded slot key node false).pool.cacheFindAutoChoseHash slot key =
      some ((w.loaded slot key node false).pool, none) := by
    unfold CachePool.cacheFindAutoChoseHash CachePool.cacheFind
    have hch : (w.loaded slot key node false).pool.config.hashChanging = false := hw
    have hbucket : (w.loaded slot key node false).pool.buckets
        (slot (w.loaded slot key node false).pool.config.targetNewHash key) = some node := Function.update_self ..
    rw [hch, hbucket, hindex]
    simp [NodeIndex.search, hblock, CachePool.findLoop]
  obtain ⟨p, hp⟩ := h.find key
  have hmap : (w.loaded slot key node false).map key = some node := Function.update_self ..
  rw [hfind, hmap] at hp
  cases hp

end PoolWorld

/-! ## An index block that is refused -/

def intKey (i : Nat) : PackedKey 8 := ⟨Bytes.leBytes 8 i, by simp [packedKeySize]⟩

theorem intKey_inj {i j : Nat} (hi : i < 2 ^ 64) (hj : j < 2 ^ 64) (h : intKey i = intKey j) : i = j := by
  have hbytes := congrArg (fun key => Bytes.leNat 8 key.bytes) h
  simp only [intKey, Bytes.leNat_leBytes] at hbytes
  omega

structure FirstBlock (h : CHash) (i : Nat) (w : PoolWorld (PackedKey 8) h.hhSize) : Prop where
  inv : w.Inv h.slot
  stable : w.pool.config.hashChanging = false
  block : ∀ b, w.pool.index.blocks b = decide (b = 0)
  fresh : ∀ j, i ≤ j → j ≤ 2 ^ 24 → w.map (intKey j) = none
  used : ∀ x ∈ w.pool.used, x < 256 + i

def load (i : Nat) : List (PoolAction (PackedKey 8)) := [.find (intKey i), .allocate (256 + i) false, .setData]

theorem FirstBlock.found {h : CHash} {i : Nat} {w : PoolWorld (PackedKey 8) h.hhSize} (hw : FirstBlock h i w) (hi : i ≤ 2 ^ 24) :
    ∃ w₁, FirstBlock h i w₁ ∧ w₁.handler = some (intKey i, none) ∧
      (poolMachine h 8).run w (load i) = some (w₁.loaded h.slot (intKey i) (256 + i) false) := by
  obtain ⟨w₁, hs, hinv, hhandler, hmap, hconfig, hindex, hsub⟩ := hw.inv.find_new (hw.fresh i (Nat.le_refl i) hi)
  have hw₁ : FirstBlock h i w₁ := ⟨hinv, by rw [hconfig]; exact hw.stable, by rw [hindex]; exact hw.block,
    by rw [hmap]; exact hw.fresh, fun x hx => hw.used x (hsub x hx)⟩
  have hnode : 256 + i ∉ w₁.pool.used := fun hx => Nat.lt_irrefl _ (hw₁.used _ hx)
  obtain ⟨w₂, hs₂, hs₃⟩ := PoolWorld.step_load h.slot false hhandler hnode
  refine ⟨w₁, hw₁, hhandler, ?_⟩
  have hstep : ∀ w a, (poolMachine h 8).step w a = w.step h.slot a := fun _ _ => rfl
  simp only [load, Machine.run, hstep, hs, hs₂, hs₃, Option.bind_some]

theorem FirstBlock.load {h : CHash} {i : Nat} {w : PoolWorld (PackedKey 8) h.hhSize} (hw : FirstBlock h i w)
    (hi : 256 + i < 2 ^ 24) : ∃ w', (poolMachine h 8).run w (load i) = some w' ∧ FirstBlock h (i + 1) w' := by
  obtain ⟨w₁, hw₁, hhandler, hrun⟩ := hw.found (by omega)
  refine ⟨_, hrun, ?_⟩
  have hnode : 256 + i ∉ w₁.pool.used := fun hx => Nat.lt_irrefl _ (hw₁.used _ hx)
  have hzero : (256 + i) >>> 24 = 0 := by rw [Nat.shiftRight_eq_div_pow]; omega
  obtain ⟨w₂, hs₂, hs₃⟩ := PoolWorld.step_load h.slot false hhandler hnode
  have hok : w₁.StepOk (.allocate (256 + i) false) := by
    change (_ || _) = true
    rw [hzero, hw₁.block]
    rfl
  refine ⟨PoolWorld.inv_setData (PoolWorld.inv_allocate hw₁.inv hok hs₂) hs₃, hw₁.stable, fun b => ?_, fun j hj hle => ?_,
    fun x hx => ?_⟩
  · change (w₁.pool.index.insert (256 + i) false).blocks b = _
    unfold NodeIndex.insert
    rw [hzero, hw₁.block]
    simp only [decide_true, Bool.true_or, if_true, Function.update_apply, hw₁.block]
    split <;> simp_all
  · have hne : intKey j ≠ intKey i := fun he => by
      have := intKey_inj (by omega) (by omega) he
      omega
    change Function.update w₁.map (intKey i) _ (intKey j) = none
    rw [Function.update_of_ne hne]
    exact hw₁.fresh j (by omega) hle
  · rcases List.mem_cons.mp hx with rfl | hx
    · exact Nat.lt_succ_self (256 + i)
    · exact Nat.lt_succ_of_lt (hw₁.used x hx)

theorem FirstBlock.loads {h : CHash} : ∀ (k : Nat) {i : Nat} {w : PoolWorld (PackedKey 8) h.hhSize}, FirstBlock h i w →
    256 + (i + k) ≤ 2 ^ 24 → ∃ as w', (poolMachine h 8).run w as = some w' ∧ FirstBlock h (i + k) w'
  | 0, _, w, hw, _ => ⟨[], w, rfl, hw⟩
  | k + 1, i, w, hw, hk => by
    obtain ⟨w₁, hrun, hw₁⟩ := hw.load (by omega)
    obtain ⟨as, w', hrun', hw'⟩ := hw₁.loads k (by omega)
    refine ⟨_, w', Machine.run_append _ _ hrun ▸ hrun', ?_⟩
    rw [show i + (k + 1) = i + 1 + k by omega]
    exact hw'

/-- **A key that is loaded is not found**: the node that `AllocateNode` returned is the first of the second index block,
which was refused. -/
theorem poolMachine_indexRefused : ¬ ∀ (h : CHash) (keySize : Nat) (w : PoolWorld (PackedKey keySize) h.hhSize),
    (poolMachine h keySize).Reachable w → PoolRefines h.slot w := by
  intro hall
  let h : CHash := ⟨3, 8, by decide⟩
  let w₀ : PoolWorld (PackedKey 8) h.hhSize := { pool := { config := {}, index := .init (2 ^ 29) } }
  have hstart : (poolMachine h 8).start w₀ := ⟨{}, 2 ^ 29, rfl⟩
  have hfirst : FirstBlock h 0 w₀ := by
    refine ⟨poolMachine_start h 8 w₀ hstart, rfl, fun b => ?_, fun _ _ _ => rfl, fun x hx => absurd hx List.not_mem_nil⟩
    exact decide_eq_decide.mpr Nat.lt_one_iff
  obtain ⟨as, w, hrun, hw⟩ := hfirst.loads (2 ^ 24 - 256) (by omega)
  obtain ⟨w₁, hw₁, -, hlast⟩ := hw.found (by omega)
  have hreach : (poolMachine h 8).Reachable _ := ⟨w₀, _, hstart, Machine.run_append _ _ hrun ▸ hlast⟩
  refine PoolWorld.loaded_not_refines hw₁.stable ?_ (hall h 8 _ hreach)
  rw [hw₁.block]
  decide

end Dtc
