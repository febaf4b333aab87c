import DtcServer.CacheNodesRun
/-!
# EmptyCount — `IncEmptyNode` and `DecEmptyNode` beside the handlers

The node info counts the nodes on the empty LRU list (`emptyCnt`), and above the limit the list's tail is purged.  A
handler counts by `nodeEmpty`: it takes a clean node without rows to be on that list.  For each handler stands here what
its calls add to the counter; `TransationUpdateLRU`, `PurgeNodeNotify` and `TransationEnd` are the only ones that make any.
-/
namespace Dtc

open Tally

namespace CacheProcess

variable {κ ρ : Type}

section Calls

variable (p : CacheProcess κ ρ) (t : CacheTask κ ρ)

def decEmptyNode : Int := if p.conf.emptyLimit then -1 else 0

/-- By `TransationUpdateLRU`. -/
def updateLRUInc (async : Bool) : Int :=
  if p.stNode.isSome && !p.keyDirty && async && p.nodeEmpty then p.decEmptyNode else 0

/-- By `PurgeNodeNotify`, when the node of the transation is purged. -/
def notifyInc : Int := if p.stNode.isSome && p.nodeEmpty then p.decEmptyNode else 0

def insertDefaultRowInc : Int :=
  match p.stNode with
  | some n => if n.rows.isEmpty && t.chunkFails then p.notifyInc else 0
  | none => if t.allocates && t.chunkFails then (p.insertEmptyNode t).notifyInc else 0

def updateNodeInc (async setrows : Bool) (n : CacheNode κ ρ) : Int :=
  let d := t.updateData async n.rows
  let p := p.setNode { n with rows := d.rows }
  if d.ok then
    let affected := if async || setrows then d.affected else t.affectedRows
    p.updateLRUInc (decide (0 < affected) && t.operation && t.typeCommit && async)
  else if !async && !t.blackHole then p.notifyInc
  else p.updateLRUInc async

def cacheUpdateRowsInc (async setrows : Bool) : Int :=
  let r := if p.conf.replaceEmpty then p.insertDefaultRow t else (p, p.stNode)
  (if p.conf.replaceEmpty then p.insertDefaultRowInc t else 0) +
    match r.2 with
    | some n => r.1.updateNodeInc t async setrows n
    | none => 0

def cacheReplaceRowsInc (async : Bool) : Int :=
  match p.stNode with
  | none => 0
  | some n =>
    let d := t.replaceRows p.conf.keyAsUniqField async n.rows
    let q := p.setNode { n with rows := d.rows }
    if d.ok then q.updateLRUInc async else if !p.keyDirty && !t.blackHole then q.notifyInc else 0

def insertNodeInc (async setrows : Bool) (n : CacheNode κ ρ) : Int :=
  match p.appendData t async setrows n with
  | .duplicate => 0
  | .failed _ => if !async && !t.blackHole then p.notifyInc else 0
  | .done d => (p.setNode { n with rows := d.rows }).updateLRUInc async

def cacheInsertRowInc (async setrows : Bool) : Int :=
  match p.stNode with
  | some n => p.insertNodeInc t async setrows n
  | none =>
    if t.allocates then
      if t.chunkFails then (p.insertEmptyNode t).notifyInc
      else (p.insertEmptyNode t).insertNodeInc t async setrows (p.emptyNode t)
    else 0

def cacheDeleteRowsInc : Int :=
  match p.stNode with
  | none => 0
  | some n =>
    if t.allRows then p.notifyInc
    else
      let d := t.deleteData n.rows
      let q := p.setNode { n with rows := d.rows }
      if d.ok then if d.rows.isEmpty then q.notifyInc else q.updateLRUInc false
      else if p.keyDirty then 0
      else q.notifyInc

/-- By `TransationEnd`, before the limit is looked at. -/
def transationEndInc : Int :=
  match p.stNode with
  | none => 0
  | some n =>
    if !p.keyDirty && !n.dirty && (decide (p.conf.noLRU < p.lruUpdate) || n.rows.isEmpty != p.nodeEmpty) then
      if n.rows.isEmpty then if p.nodeEmpty || !p.conf.emptyLimit then 0 else 1
      else if p.nodeEmpty then p.decEmptyNode else 0
    else 0

variable [DecidableEq κ]

def cachePurgeInc (key : κ) : Int := if p.purgesStNode key then p.notifyInc else 0

def cachePurgeDataInc : Int :=
  match p.stNode with
  | none => 0
  | some n =>
    if p.conf.updateMode ≠ .sync ∧ n.dirty = true then
      let r := p.cacheFlushData t
      if r.2 = .pending then r.1.cachePurgeInc (p.key t) else 0
    else p.cachePurgeInc (p.key t)

def replaceNodeInc (n : CacheNode κ ρ) : Int :=
  if t.chunkFails then p.notifyInc
  else (p.setNode { n with rows := t.result.map (fun v => ⟨false, v⟩) }).updateLRUInc false

def cacheReplaceResultInc : Int :=
  if p.conf.emptyFilter && t.result.isEmpty then p.cachePurgeInc (p.key t)
  else
    match p.stNode with
    | some n => p.replaceNodeInc t n
    | none => if t.allocates then (p.insertEmptyNode t).replaceNodeInc t (p.emptyNode t) else 0

/-- By what a handler does after it has decided; a flush and a get call neither. -/
def performInc : CacheWork → Int
  | .none => 0
  | .getData => p.updateLRUInc false
  | .replaceResult => p.cacheReplaceResultInc t
  | .insertRow async setrows => p.cacheInsertRowInc t async setrows
  | .updateRows async setrows => p.cacheUpdateRowsInc t async setrows
  | .replaceRows async => p.cacheReplaceRowsInc t async
  | .deleteRows => p.cacheDeleteRowsInc t
  | .purgeData => p.cachePurgeDataInc t
  | .flushData => 0
  | .flushBeforeDelete => 0

/-- By a step; the handlers of admin requests have the node in a local, which `PurgeNodeNotify` does not know. -/
def stepInc : CacheAction κ ρ → Int
  | .request t => (p.handles t).1.performInc (p.marked t) (p.handles t).2
  | .reply t => (p.cacheProcessReply t).1.performInc t (p.cacheProcessReply t).2
  | .error t code => (p.cacheProcessError t code).1.performInc t (p.cacheProcessError t code).2
  | .batchGet t => (p.find t).updateLRUInc false
  | _ => 0

end Calls

/-! ## The branches that keep the counter -/

section EmptyOk

variable (p : CacheProcess κ ρ) (t : CacheTask κ ρ)

/-- A node that is moved or purged without `DecEmptyNode`. -/
def uncountedEmptyOk (n : Option (CacheNode κ ρ)) : Bool := n.all (fun n => decide (n.lru ≠ .empty))

/-- The node of the transation is on the empty list if it is clean and has no rows, and only then. -/
def nodePlaced : Bool := p.stNode.all (fun n => decide (n.lru = .empty) == (p.conf.emptyLimit && p.nodeEmpty))

variable [DecidableEq κ]

/-- `CachePurge` counts for the node of the transation only. -/
def purgeEmptyOk (key : κ) : Bool := p.purgesStNode key || uncountedEmptyOk (p.purgedNode key)

def workEmptyOk : CacheWork → Bool
  | .replaceResult => !(p.conf.emptyFilter && t.result.isEmpty) || p.purgeEmptyOk (p.key t)
  | .purgeData =>
    p.stNode.all (fun n =>
      if p.conf.updateMode ≠ .sync ∧ n.dirty = true then
        decide ((p.cacheFlushData t).2 ≠ .pending) || p.purgeEmptyOk (p.key t)
      else p.purgeEmptyOk (p.key t))
  | _ => true

/-- **The step keeps the counter of empty nodes.** -/
def stepEmptyOk : CacheAction κ ρ → Bool
  | .request t => (p.handles t).1.nodePlaced && (p.handles t).1.workEmptyOk (p.marked t) (p.handles t).2
  | .reply t => (p.cacheProcessReply t).1.nodePlaced && (p.cacheProcessReply t).1.workEmptyOk t (p.cacheProcessReply t).2
  | .error t code =>
    (p.cacheProcessError t code).1.nodePlaced && (p.cacheProcessError t code).1.workEmptyOk t (p.cacheProcessError t code).2
  | .batchGet t => (p.find t).nodePlaced
  | .purgeKey key => p.release.purgeEmptyOk key
  | .replaceRaw key _ _ _ | .migrate key _ _ _ _ | .migrated key | .adjustLru key =>
    uncountedEmptyOk ((p.findNode key).map (·.1))
  | .begin | .finish | .purgeClean _ | .purgeEmpty _ | .flushTimer _ _ | .touch _ | .configure _ => true

end EmptyOk

def emptyNodes (p : CacheProcess κ ρ) : Nat := total (fun n => (decide (n.lru = .empty)).toNat) p.nodes

end CacheProcess

/-- The cache with the counter of `CNGInfo` and the limit of the configuration, which is 0 for none. -/
structure EmptyRun (κ ρ : Type) where
  p : CacheProcess κ ρ
  nodeEmptyLimit : Nat := 0
  emptyCnt : Int := 0

inductive EmptyAction (κ ρ : Type)
  /-- a step of the cache but for `TransationEnd` -/
  | call (a : CacheAction κ ρ)
  /-- `TransationEnd`, with the place of the node at the tail of the empty list -/
  | finish (tail : Nat)

namespace EmptyRun

variable {κ ρ : Type}

/-- `TransationEnd`: `IncEmptyNode` goes on to purge the tail of the empty list. -/
def finish (r : EmptyRun κ ρ) (tail : Nat) : Option (EmptyRun κ ρ) :=
  let p := r.p.transationEnd
  let cnt := r.emptyCnt + r.p.transationEndInc
  if 0 < r.p.transationEndInc ∧ (r.nodeEmptyLimit : Int) < cnt then
    if (p.pool[tail]?).any (fun n => n.lru = .empty) then
      some { r with p := p.purgeSingleEmptyNode tail, emptyCnt := cnt - 1 }
    else none
  else some { r with p := p, emptyCnt := cnt }

variable [DecidableEq κ]

def step (r : EmptyRun κ ρ) : EmptyAction κ ρ → Option (EmptyRun κ ρ)
  | .finish tail => r.finish tail
  | .call .finish => none
  | .call (.purgeEmpty _) => none
  | .call a => some { r with p := r.p.cacheStep a, emptyCnt := r.emptyCnt + r.p.stepInc a }

def stepEmptyOk (r : EmptyRun κ ρ) : EmptyAction κ ρ → Bool
  | .call a => r.p.stepEmptyOk a
  | .finish _ => true

end EmptyRun

/-- `SetLimitEmptyNodes`; in full mode there is no limit. -/
def setLimitEmptyNodes (nodes : Int) (fullMode : Bool) : Nat :=
  if fullMode then 0
  else if nodes ≤ 0 then 0
  else if nodes < 1000 then 1000
  else if 2 ^ 30 < nodes then 0
  else nodes.toNat

def emptyMachine (κ ρ : Type) [DecidableEq κ] : Machine (EmptyRun κ ρ) (EmptyAction κ ρ) where
  start r := ∃ (conf : CacheConf) (nodes : Int), r =
    { p := { conf := { conf with emptyLimit := decide (setLimitEmptyNodes nodes conf.fullMode ≠ 0) } }
      nodeEmptyLimit := setLimitEmptyNodes nodes conf.fullMode }
  step := EmptyRun.step

end Dtc
