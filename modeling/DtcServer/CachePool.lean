import DtcServer.Machine
import DtcServer.Chains
import DtcServer.NodeGroup
import Mathlib.Logic.Function.Basic
/-!
# CachePool — the nodes of `CCachePool` and their hash chains

A node has the id of the next in its hash chain and, in `VDHandle`, a chunk with its key.  An id is looked up in the index
of nodes, which may not have it.  The table of buckets serves two hashes; which of them a lookup and an insertion use is in
the configuration.  A loop along a chain is bounded by the number of allocated nodes: `none` says that it would go on, or
that a null node is followed.
-/
namespace Dtc

abbrev NodeId := Nat

/-- `CNodeIndex`: the blocks of the second level that are there, and the groups of 256 nodes that are entered. -/
structure NodeIndex where
  blocks : Nat → Bool
  groups : Nat → Bool

namespace NodeIndex

/-- The index of a formatted memory, with the group of the list heads. -/
def init (memSize : Nat) : NodeIndex where
  blocks i := decide (i < NgInfo.preIndex memSize)
  groups g := g = 0

/-- `Insert`; `got` says whether a block is there to be allocated. -/
def insert (x : NodeIndex) (id : NodeId) (got : Bool) : NodeIndex :=
  if x.blocks (id >>> 24) || got then
    { blocks := Function.update x.blocks (id >>> 24) true, groups := Function.update x.groups (id >>> 8) true }
  else x

/-- `Search`; `none` is the null node. -/
def search (x : NodeIndex) (id : NodeId) : Option NodeId :=
  if x.blocks (id >>> 24) && x.groups (id >>> 8) then some id else none

end NodeIndex

/-- `hashChanging` and `targetNewHash`. -/
structure HashConfig where
  hashChanging : Bool := false
  targetNewHash : Bool := false
  deriving DecidableEq, Repr

def HashConfig.allows (c : HashConfig) (newhash : Bool) : Prop := c.hashChanging = true ∨ newhash = c.targetNewHash

inductive LruList
  | clean | dirty | empty
  deriving DecidableEq, Repr

/-- `CCachePool`: the hash table, the nodes' attributes, the nodes in use (`ni_used_node` is their number) and the LRU
lists, the latest node first. -/
structure CachePool (Key : Type) (n : Nat) where
  config : HashConfig
  index : NodeIndex
  buckets : Fin n → Option NodeId := fun _ => none
  hhNode : Int := 0
  hhFree : Int := n
  next : NodeId → Option NodeId := fun _ => none
  /-- the key in the chunk at `VDHandle`, `none` for `INVALID_HANDLE` -/
  vdHandle : NodeId → Option Key := fun _ => none
  used : List NodeId := []
  cleanLru : List NodeId := []
  dirtyLru : List NodeId := []
  emptyLru : List NodeId := []

namespace CachePool

variable {Key : Type} {n : Nat} (slot : Bool → Key → Fin n)

/-- `NextNode`: the id of the next node is looked up. -/
def nextNode (p : CachePool Key n) (node : NodeId) : Option NodeId := (p.next node).bind p.index.search

def insert2Hash (p : CachePool Key n) (key : Key) (node : NodeId) : CachePool Key n :=
  let hashslot := slot p.config.targetNewHash key
  { p with
    hhFree := if p.buckets hashslot = none then p.hhFree - 1 else p.hhFree
    hhNode := p.hhNode + 1
    next := Function.update p.next node (p.buckets hashslot)
    buckets := Function.update p.buckets hashslot (some node) }

def removeFromHashBase (p : CachePool Key n) (key : Key) (node : NodeId) (newhash : Bool) : Option (CachePool Key n) :=
  let hashSlot := slot newhash key
  match p.buckets hashSlot with
  | none => some p
  | some head =>
    if head = node then
      some { p with
        buckets := Function.update p.buckets hashSlot (p.next node)
        hhFree := if p.next node = none then p.hhFree + 1 else p.hhFree
        hhNode := p.hhNode - 1 }
    else
      match p.index.search head with
      | none => none
      | some head =>
        match Chains.searchPrev p.nextNode node (p.used.length + 1) head with
        | none => none
        | some none => some p -- not found in the slot, which is only logged
        | some (some prev) =>
          some { p with next := Function.update p.next prev (p.next node), hhNode := p.hhNode - 1 }

def removeFromHash (p : CachePool Key n) (key : Key) (node : NodeId) : Option (CachePool Key n) :=
  if p.config.hashChanging then
    (p.removeFromHashBase slot key node true).bind (fun p => p.removeFromHashBase slot key node false)
  else p.removeFromHashBase slot key node p.config.targetNewHash

def moveToNewHash (p : CachePool Key n) (key : Key) (node : NodeId) : Option (CachePool Key n) :=
  (p.removeFromHash slot key node).map (fun p => p.insert2Hash slot key node)

def removeFromLru (p : CachePool Key n) (node : NodeId) : CachePool Key n :=
  { p with
    cleanLru := p.cleanLru.filter (· ≠ node)
    dirtyLru := p.dirtyLru.filter (· ≠ node)
    emptyLru := p.emptyLru.filter (· ≠ node) }

/-- `ReleaseNode`: the node is free and its attributes are reset. -/
def releaseNode (p : CachePool Key n) (node : NodeId) : CachePool Key n :=
  { p with
    used := p.used.filter (· ≠ node)
    next := Function.update p.next node none
    vdHandle := Function.update p.vdHandle node none }

def purgeNode (p : CachePool Key n) (key : Key) (node : NodeId) : Option (CachePool Key n) :=
  (p.removeFromHash slot key node).map (fun p => (p.removeFromLru node).releaseNode node)

/-- `PurgeNodeEverything` of a node: the key is the one in its chunk. -/
def purgeNodeEverything (p : CachePool Key n) (node : NodeId) : Option (CachePool Key n) :=
  match p.vdHandle node with
  | none => some p
  | some key => p.purgeNode slot key node

/-- `CacheAllocate`, with the node `AllocateNode` gave and what `I_INSERT` found, which is not looked at; its callers reset
the handle at once. -/
def cacheAllocate (p : CachePool Key n) (key : Key) (node : NodeId) (got : Bool) : CachePool Key n :=
  let p := { p with
    index := p.index.insert node got
    used := node :: p.used
    next := Function.update p.next node none
    vdHandle := Function.update p.vdHandle node none }
  let p := p.insert2Hash slot key node
  { p with cleanLru := node :: p.cleanLru }

/-- `Insert2CleanLru`, `Insert2DirtyLru` and `Insert2EmptyLru` of a node that leaves the list it is in. -/
def moveToLru (p : CachePool Key n) (node : NodeId) : LruList → CachePool Key n
  | .clean => { p.removeFromLru node with cleanLru := node :: (p.removeFromLru node).cleanLru }
  | .dirty => { p.removeFromLru node with dirtyLru := node :: (p.removeFromLru node).dirtyLru }
  | .empty => { p.removeFromLru node with emptyLru := node :: (p.removeFromLru node).emptyLru }

def chain (p : CachePool Key n) (s : Fin n) : List NodeId := Chains.follow p.next p.used.length (p.buckets s)

/-- Every node is in the slot its key has in this hash. -/
def stableIn (p : CachePool Key n) (newhash : Bool) : Bool :=
  p.used.all (fun node =>
    match p.vdHandle node with
    | none => false
    | some key => (p.chain (slot newhash key)).contains node)

def purgeNodes (p : CachePool Key n) : List NodeId → Option (CachePool Key n)
  | [] => some p
  | node :: nodes => (p.purgeNodeEverything slot node).bind (fun p => purgeNodes p nodes)

/-- The nodes `PrePurgeNodes` purges: the last `count` of the clean list, without the reserved one. -/
def prePurgeNodes (p : CachePool Key n) (count : Nat) (reserve : Option NodeId) : List NodeId :=
  (p.cleanLru.reverse.take count).filter (fun node => reserve ≠ some node)

/-- The node the loop of `TryPurgeSize` purges: one of the last `count` of the clean list whose chunk frees enough
memory, as `fits` says. -/
def purgeCandidate (p : CachePool Key n) (count : Nat) (reserve : Option NodeId) (fits : NodeId → Bool) :
    Option NodeId :=
  if p.used.length < 10 then none
  else (p.cleanLru.reverse.take count).find? (fun node => reserve ≠ some node && (p.vdHandle node).isSome && fits node)

def tryPurgeSize (p : CachePool Key n) (prePurge count : Nat) (reserve : Option NodeId) (fits : NodeId → Bool) :
    Option (CachePool Key n) :=
  (p.purgeNodes slot (p.prePurgeNodes prePurge reserve)).bind (fun p =>
    match p.purgeCandidate count reserve fits with
    | none => some p
    | some node => p.purgeNodeEverything slot node)

variable [DecidableEq Key]

/-- The loop of `CacheFind`, which purges the nodes without a chunk it meets. -/
def findLoop (key : Key) : Nat → CachePool Key n → Option NodeId → Option (CachePool Key n × Option NodeId)
  | 0, _, _ => none
  | fuel + 1, p, iter =>
    match iter with
    | none => some (p, none)
    | some node =>
      match p.vdHandle node with
      | none => (p.purgeNode slot key node).bind (fun p' => findLoop key fuel p' (p.nextNode node))
      | some k => if k = key then some (p, some node) else findLoop key fuel p (p.nextNode node)

def cacheFind (p : CachePool Key n) (key : Key) (newhash : Bool) : Option (CachePool Key n × Option NodeId) :=
  findLoop slot key (p.used.length + 1) p ((p.buckets (slot newhash key)).bind p.index.search)

def cacheFindAutoChoseHash (p : CachePool Key n) (key : Key) : Option (CachePool Key n × Option NodeId) :=
  if p.config.hashChanging then
    let newhash := p.config.targetNewHash
    (p.cacheFind slot key (!newhash)).bind (fun r =>
      match r.2 with
      | none => r.1.cacheFind slot key newhash
      | some node => (r.1.moveToNewHash slot key node).map (fun p => (p, some node)))
  else p.cacheFind slot key p.config.targetNewHash

def cachePurge (p : CachePool Key n) (key : Key) : Option (CachePool Key n) :=
  let purge (r : CachePool Key n × Option NodeId) : Option (CachePool Key n) :=
    match r.2 with
    | none => some r.1
    | some node => r.1.purgeNode slot key node
  if p.config.hashChanging then
    (p.cacheFind slot key false).bind (fun r =>
      match r.2 with
      | none => (r.1.cacheFind slot key true).bind purge
      | some node => r.1.purgeNode slot key node)
  else (p.cacheFind slot key p.config.targetNewHash).bind purge

end CachePool

end Dtc
