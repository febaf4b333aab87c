import DtcServer.Machine
import Mathlib.Algebra.Group.Nat.Defs
import Mathlib.Logic.Function.Basic
/-!
# NodeGroup — nodes, their groups and the index of their ids

Nodes are allocated in groups of 256 (`NODE_GROUP_T`), which are never given back.  `CNGInfo` has the groups with a free
node in one list and the full ones in another; the first group is reserved for the heads of the LRU lists.  A node id is
looked up in an index of two levels (`CNodeIndex`).
-/
namespace Dtc

def invalidNodeId : Nat := 2 ^ 32 - 1

/-- `CNode`: the group, by its number, and the index in it. -/
structure CNode where
  owner : Nat
  index : Nat
  deriving DecidableEq, Repr

/-- `NODE_GROUP_T` with the attributes of its nodes.  The nodes that were released are chained through `vdHandle`. -/
structure NodeGroup where
  deleTop : Nat := 0
  deleCount : Nat := 0
  free : Nat := 0
  nid : Nat
  nextNodeId : Nat → Nat
  lruPrev : Nat → Nat
  lruNext : Nat → Nat
  vdHandle : Nat → Nat
  dirty : Nat → Bool

namespace NodeGroup

def includeNodes : Nat := 256

/-- `NODE_GROUP_T::Size`: the header and the blocks of the attributes. -/
def size : Nat := 48 + (256 * 4 + 256 * 8 + 256 * 8 + 256 / 8)

variable (g : NodeGroup)

def nodeID (idx : Nat) : Nat := (g.nid + idx) % 2 ^ 32

/-- `id - NG->ng_nid`; a negative `int` is above 255 as the unsigned number it was. -/
def indexOf (id : Nat) : Nat := (id + 2 ^ 32 - g.nid) % 2 ^ 32

def init (id : Nat) : NodeGroup where
  nid := id
  nextNodeId := fun _ => invalidNodeId
  lruPrev := fun i => (id + i) % 2 ^ 32
  lruNext := fun i => (id + i) % 2 ^ 32
  vdHandle := fun _ => 0
  dirty := fun _ => false

def reset (idx : Nat) : NodeGroup :=
  { g with
    nextNodeId := Function.update g.nextNodeId idx invalidNodeId
    lruPrev := Function.update g.lruPrev idx (g.nodeID idx)
    lruNext := Function.update g.lruNext idx (g.nodeID idx)
    dirty := Function.update g.dirty idx false }

def isFull : Bool := g.deleCount = 0 && includeNodes ≤ g.free

/-- `AllocateNode`: a released node first. -/
def allocateNode : Option (Nat × NodeGroup) :=
  if g.isFull then none
  else if 0 < g.deleCount then
    some (g.deleTop,
      { g.reset g.deleTop with deleCount := g.deleCount - 1, deleTop := g.vdHandle g.deleTop % 2 ^ 8 })
  else some (g.free, { g.reset g.free with free := g.free + 1 })

/-- `CNode::Release`: `ReleaseNode` of the group, and the attributes reset. -/
def releaseNode (idx : Nat) : NodeGroup :=
  { g with
    vdHandle := Function.update g.vdHandle idx g.deleTop
    deleTop := idx
    deleCount := g.deleCount + 1 }.reset idx

def initNodeListHead (idx : Nat) : NodeGroup :=
  { g with
    lruPrev := Function.update g.lruPrev idx (g.nodeID idx)
    lruNext := Function.update g.lruNext idx (g.nodeID idx) }

end NodeGroup

/-- A handle of an `NG_LIST_T`. -/
inductive NgLink
  | invalid
  | freeHead
  | fullHead
  | group (k : Nat)
  deriving DecidableEq, Repr

/-- `NG_INFO_T` in the shared memory with the groups, and `_firstIndex` of `CNodeIndex`; `step` and `fail` are the static
variables of `AllocateNode`.  A group goes by its number. -/
structure NgInfo where
  memSize : Nat
  step : Nat
  fail : Bool := false
  groups : Nat → NodeGroup := NodeGroup.init
  next : NgLink → NgLink := id
  prev : NgLink → NgLink := id
  minId : Nat := 0
  usedNg : Nat := 0
  usedNode : Nat := 0
  fiH : Nat → Option (Nat → Option Nat)

/-- What the allocator of the shared memory answers: for the groups asked for one after another, and for a block of the
index. -/
structure Answers where
  group : Nat → Bool := fun _ => true
  index : Bool := true

namespace NgInfo

variable (s : NgInfo)

def setGroup (k : Nat) (g : NodeGroup) : NgInfo := { s with groups := Function.update s.groups k g }

/-! ## The index of node ids -/

/-- `CNodeIndex::PreAllocateIndex2`: how many blocks are there from the beginning. -/
def preIndex (memSize : Nat) : Nat := min (memSize / (65536 * 256 * 44) + 1) 256

def nodeID (n : CNode) : Nat := (s.groups n.owner).nodeID n.index

/-- `CNodeIndex::Insert`; `got` says whether a block is there to be allocated. -/
def insert (n : CNode) (got : Bool) : NgInfo × Int :=
  let id := s.nodeID n
  match s.fiH (id >>> 24) with
  | some block => (put id block, 0)
  | none => if got then (put id (fun _ => none), 0) else (s, -1)
where
  put (id : Nat) (block : Nat → Option Nat) : NgInfo :=
    { s with
      fiH := Function.update s.fiH (id >>> 24) (some (Function.update block ((id &&& 0xFFFF00) >>> 8) (some n.owner))) }

def search (id : Nat) : Option CNode :=
  if id = invalidNodeId then none
  else
    match s.fiH (id >>> 24) with
    | none => none
    | some block =>
      match block ((id &&& 0xFFFF00) >>> 8) with
      | none => none
      | some k =>
        let index := (s.groups k).indexOf id
        if 255 < index then none else some ⟨k, index⟩

/-! ## The lists of groups -/

def listDel (k : Nat) : NgInfo :=
  let p := NgLink.group k
  { s with
    next := Function.update (Function.update s.next (s.prev p) (s.next p)) p .invalid
    prev := Function.update (Function.update s.prev (s.next p) (s.prev p)) p .invalid }

def listAdd (k : Nat) (head : NgLink) : NgInfo :=
  let p := NgLink.group k
  { s with
    next := Function.update (Function.update s.next p (s.next head)) head p
    prev := Function.update (Function.update s.prev (s.next head) p) p head }

def freeListAdd (k : Nat) : NgInfo := s.listAdd k .freeHead

def fullListAdd (k : Nat) : NgInfo := s.listAdd k .fullHead

def findFreeNG : Option Nat :=
  match s.next .freeHead with
  | .group k => some k
  | _ => none

/-! ## Allocation -/

/-- `AllocateNG`, if the allocator has a chunk; it has none beyond its memory. -/
def allocateNG (got : Bool) : Option NgInfo :=
  if got ∧ (s.usedNg + 1) * NodeGroup.size ≤ s.memSize then
    some { s.setGroup s.usedNg (NodeGroup.init s.minId) with
      minId := (s.minId + NodeGroup.includeNodes) % 2 ^ 32
      usedNg := s.usedNg + 1 }
  else none

/-- The loop of `AllocateNode` from `i` on, `n` groups; `none` is the return of no node. -/
def preAllocate (group : Nat → Bool) : Nat → Nat → NgInfo → Option NgInfo
  | 0, _, s => some s
  | n + 1, i, s =>
    match s.allocateNG (group i) with
    | none => if i = 0 then none else some { s with fail := true, step := 1 }
    | some s' => preAllocate group n (i + 1) (s'.freeListAdd s.usedNg)

def withFreeNG (a : Answers) : Option NgInfo :=
  match s.findFreeNG with
  | some _ => some s
  | none =>
    match preAllocate a.group s.step 0 s with
    | none => none
    | some s => some (if s.step < 256 ∧ s.fail = false then { s with step := s.step * 2 } else s)

/-- A node of a group; the group goes to the other list when it is full. -/
def allocateFrom (k : Nat) (got : Bool) : NgInfo × Option CNode :=
  match (s.groups k).allocateNode with
  | none => ((s.listDel k).fullListAdd k, none)
  | some (idx, g) =>
    let s := s.setGroup k g
    let s := if g.isFull then (s.listDel k).fullListAdd k else s
    let s := { s with usedNode := (s.usedNode + 1) % 2 ^ 32 }
    -- the result of `I_INSERT` is not looked at
    ((s.insert ⟨k, idx⟩ got).1, some ⟨k, idx⟩)

/-- `CNGInfo::AllocateNode`; the outer `none` is a null pointer followed. -/
def allocateNode (a : Answers) : Option (NgInfo × Option CNode) :=
  match s.withFreeNG a with
  | none => some (s, none)
  | some s =>
    match s.findFreeNG with
    | none => none
    | some k => some (s.allocateFrom k a.index)

def releaseNode (n : CNode) : NgInfo :=
  let s := if (s.groups n.owner).isFull then (s.listDel n.owner).freeListAdd n.owner else s
  let s := { s with usedNode := if s.usedNode = 0 then 2 ^ 32 - 1 else s.usedNode - 1 }
  s.setGroup n.owner ((s.groups n.owner).releaseNode n.index)

/-- A head of an LRU list: a node of the reserved group, in the index. -/
def allocateHead : Option NgInfo :=
  match (s.groups 0).allocateNode with
  | none => none
  | some (idx, g) => some ((s.setGroup 0 (g.initNodeListHead idx)).insert ⟨0, idx⟩ true).1

/-- The shared memory as it is formatted, for a number of groups to allocate at once: `CNodeIndex::Init` and
`CNGInfo::Init`. -/
def init (memSize step : Nat) : Option NgInfo :=
  let s : NgInfo := {
    memSize := memSize
    step := step
    fiH := fun i => if i < preIndex memSize then some (fun _ => none) else none }
  -- `SystemReservedInit`
  (s.allocateNG true).bind fun s =>
  s.allocateHead.bind fun s =>
  s.allocateHead.bind fun s =>
  s.allocateHead.bind fun s =>
  some { s with usedNg := 1, usedNode := 0 }

/-- What the server checks of its configuration: 64 MB to 64 GB of memory, and how many groups are allocated at once. -/
def ConfigOk (memSize step : Nat) : Prop := 2 ^ 26 ≤ memSize ∧ memSize ≤ 2 ^ 36 ∧ 1 ≤ step ∧ step < 2 ^ 12

end NgInfo

end Dtc
