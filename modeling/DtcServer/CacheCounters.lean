import DtcServer.CacheProcess
import DtcServer.Machine
import DtcServer.Tally
import Mathlib.Tactic.Basic
/-!
# CacheCounters — the node info's row and node counters over whole runs

A run takes the calls one by one: the begin and the end of a transation, what a handler does in between, a node the purge
loops discard, the flush timer, the admin commands. `ni_used_row`, `ni_dirty_row` and `ni_dirty_node` are to be the numbers of
rows, of dirty rows and of dirty nodes that there are.
-/
namespace Dtc

open Tally

inductive CacheAction (κ ρ : Type)
  | begin
  | finish
  | request (t : CacheTask κ ρ)
  | reply (t : CacheTask κ ρ)
  | error (t : CacheTask κ ρ) (code : CacheProcess.ErrorCode)
  /-- a key of a batch -/
  | batchGet (t : CacheTask κ ρ)
  | purgeClean (i : Nat)
  | purgeEmpty (i : Nat)
  | flushTimer (i : Nat) (t : CacheTask κ ρ)
  /-- `cache_replace_raw_data` or `cache_migrate` of a key the sender does not have -/
  | purgeKey (key : κ)
  | replaceRaw (key : κ) (rows : List (CacheRow ρ)) (allocates chunkFails : Bool)
  /-- a node from another server, with the byte that says that it is dirty there -/
  | migrate (key : κ) (rows : List (CacheRow ρ)) (dirty allocates chunkFails : Bool)
  | migrated (key : κ)
  | touch (key : κ)
  | adjustLru (key : κ)
  | configure (hash : HashConfig)

namespace CacheProcess

variable {κ ρ : Type}

section Steps

variable [DecidableEq κ] (p : CacheProcess κ ρ)

def handles (t : CacheTask κ ρ) : CacheProcess κ ρ × CacheWork :=
  if p.conf.nodbMode then p.cacheProcessNodb t else p.cacheProcessRequest t

/-- The task as `cache_process_nodb` marks it. -/
def marked (t : CacheTask κ ρ) : CacheTask κ ρ := if p.conf.nodbMode then { t with blackHole := true } else t

def cacheStep : CacheAction κ ρ → CacheProcess κ ρ
  | .begin => p.transationBegin
  | .finish => p.transationEnd
  | .request t => (p.handles t).1.perform (p.marked t) (p.handles t).2
  | .reply t => (p.cacheProcessReply t).1.perform t (p.cacheProcessReply t).2
  | .error t code => (p.cacheProcessError t code).1.perform t (p.cacheProcessError t code).2
  | .batchGet t => (p.find t).transationUpdateLRU false lruBatch
  | .purgeClean i => p.purgeClean i
  | .purgeEmpty i => p.purgeSingleEmptyNode i
  | .flushTimer i t => p.cacheFlushDataTimer t i
  | .purgeKey key => p.release.cachePurge key
  | .replaceRaw key rows allocates chunkFails => p.replaceRawNode key rows .clean allocates chunkFails
  | .migrate key rows dirty allocates chunkFails =>
    p.replaceRawNode key rows (if dirty then .dirty else .clean) allocates chunkFails
  | .migrated key => p.cacheMigrated key
  | .touch key => p.touchNode key
  | .adjustLru key => p.cacheAdjustLru key
  | .configure hash => { p with conf := { p.conf with hash := hash } }

end Steps

/-- The rows of all nodes, those that are dirty, and the nodes that are dirty. -/
def usedRows (p : CacheProcess κ ρ) : Nat := total (·.rows.length) p.nodes

def totalDirtyRows (p : CacheProcess κ ρ) : Nat := total (fun n => dirtyRows n.rows) p.nodes

def totalDirtyNodes (p : CacheProcess κ ρ) : Nat := total (·.dirty.toNat) p.nodes

/-- The row counters, which are 64-bit words, are right. -/
def RowsCounted (p : CacheProcess κ ρ) : Prop :=
  p.niUsedRow = p.usedRows % 2 ^ 64 ∧ p.niDirtyRow = p.totalDirtyRows % 2 ^ 64

/-- The counter of dirty nodes, a 32-bit word, is right. -/
def NodesCounted (p : CacheProcess κ ρ) : Prop := p.niDirtyNode = p.totalDirtyNodes % 2 ^ 32

/-! ## The branches that keep the row counters -/

section RowsOk

variable (p : CacheProcess κ ρ) (t : CacheTask κ ρ)

/-- `InsertDefaultRow` stores a row, which it does not count. -/
def storesDefaultRow : Bool :=
  p.conf.replaceEmpty && !t.chunkFails &&
    match p.stNode with
    | some n => n.rows.isEmpty
    | none => t.allocates

/-- `UpdateData` of a node: a dirty row that is not written dirty stays dirty and is counted down; an update that fails
counts nothing, and purges the node or leaves the rows it has written. -/
def updateRowsOk (async : Bool) (n : CacheNode κ ρ) : Bool :=
  let m := t.worked (fun r => t.compareRow r.value) n.rows
  if (t.updateData async n.rows).ok then async || dirtyRows m == 0
  else if !async && !t.blackHole then dirtyRows n.rows == 0
  else !async || dirtyRows m == m.length

/-- `ReplaceRows` of a node: the rows it deletes are not counted. -/
def replaceRowsOk (async : Bool) (n : CacheNode κ ρ) : Bool :=
  let m := t.worked (t.conflicts p.conf.keyAsUniqField) n.rows
  if (t.replaceRows p.conf.keyAsUniqField async n.rows).ok then
    decide (m.length ≤ 1) && (async || dirtyRows m == 0)
  else if !p.keyDirty && !t.blackHole then dirtyRows n.rows == 0
  else decide (m.length ≤ 1) && (!async || dirtyRows m == m.length)

/-- `AppendData` of a node: where it fails the node may be purged, with its dirty rows, or keep a row that is not counted. -/
def insertRowOk (async setrows : Bool) (n : CacheNode κ ρ) : Bool :=
  match p.appendData t async setrows n with
  | .failed rows => if !async && !t.blackHole then dirtyRows n.rows == 0 else rows.length == n.rows.length
  | _ => true

/-- `cache_delete_rows` of a node: without a condition the dirty rows are added where they should be subtracted. -/
def deleteRowsOk (n : CacheNode κ ρ) : Bool :=
  if t.allRows then dirtyRows n.rows == 0
  else if (t.deleteData n.rows).ok then true
  else if p.keyDirty then (t.worked (fun r => t.compareRow r.value) n.rows).isEmpty
  else dirtyRows n.rows == 0

/-- `FlushData` of a node: where it fails the rows that were flushed are not counted. -/
def flushRowsOk (n : CacheNode κ ρ) : Bool := (t.flushData n).ok || dirtyRows (t.worked (fun _ => true) n.rows) == 0

variable [DecidableEq κ]

/-- `cache_purge_data` of a node: the rows of the node that was found are subtracted, no dirty ones. -/
def purgeDataOk (n : CacheNode κ ρ) : Bool :=
  if p.conf.updateMode ≠ .sync ∧ n.dirty = true then
    (p.conf.nodbMode || flushRowsOk t n) &&
      (decide ((p.cacheFlushData t).2 ≠ .pending) || p.purgesStNode (p.key t))
  else p.purgesStNode (p.key t) && dirtyRows n.rows == 0

/-- A node that is purged without a change of the row counters. -/
def uncountedOk (n : Option (CacheNode κ ρ)) : Bool := n.all (·.rows.isEmpty)

def replaceResultOk : Bool :=
  if p.conf.emptyFilter && t.result.isEmpty then uncountedOk (p.purgedNode (p.key t))
  else if t.chunkFails then uncountedOk p.stNode
  else p.stNode.all (fun n => dirtyRows n.rows == 0)

/-- The branch that the work takes keeps the row counters. -/
def workRowsOk : CacheWork → Bool
  | .none | .getData => true
  | .replaceResult => p.replaceResultOk t
  | .insertRow async setrows => p.stNode.all (p.insertRowOk t async setrows)
  | .updateRows async _ =>
    !p.storesDefaultRow t &&
      p.stNode.all (fun n => p.conf.replaceEmpty && n.rows.isEmpty || updateRowsOk t async n)
  | .replaceRows async => p.stNode.all (p.replaceRowsOk t async)
  | .deleteRows => p.stNode.all (p.deleteRowsOk t)
  | .purgeData => p.stNode.all (p.purgeDataOk t)
  | .flushData => p.conf.nodbMode || p.stNode.all (flushRowsOk t)
  | .flushBeforeDelete => p.stNode.all (flushRowsOk t)

/-- **The step keeps the row counters.** -/
def stepRowsOk : CacheAction κ ρ → Bool
  | .request t => (p.handles t).1.workRowsOk (p.marked t) (p.handles t).2
  | .reply t => (p.cacheProcessReply t).1.workRowsOk t (p.cacheProcessReply t).2
  | .error t code => (p.cacheProcessError t code).1.workRowsOk t (p.cacheProcessError t code).2
  | .purgeClean i => (p.pool[i]?).all (fun n => decide (n.lru ≠ .clean) || dirtyRows n.rows == 0)
  | .purgeEmpty i => (p.pool[i]?).all (fun n => decide (n.lru ≠ .empty) || n.rows.isEmpty)
  | .purgeKey key => uncountedOk (p.release.purgedNode key)
  | .replaceRaw key rows allocates chunkFails | .migrate key rows _ allocates chunkFails =>
    match p.findNode key with
    | some (n, _) =>
      if chunkFails then p.conf.nodbMode || n.rows.isEmpty else dirtyRows n.rows == dirtyRows rows
    | none => !allocates || chunkFails || dirtyRows rows == 0
  | .migrated key => uncountedOk ((p.findNode key).map (·.1))
  | .begin | .finish | .batchGet _ | .flushTimer _ _ | .touch _ | .adjustLru _ | .configure _ => true

end RowsOk

/-! ## The branches that keep the counter of dirty nodes -/

section NodesOk

variable (p : CacheProcess κ ρ) (t : CacheTask κ ρ)

/-- A node that is purged without a change of the counter. -/
def cleanOk (n : Option (CacheNode κ ρ)) : Bool := n.all (fun n => !n.dirty)

/-- `AppendData` of a node: where it fails the node may be purged. -/
def insertNodeOk (async setrows : Bool) (n : CacheNode κ ρ) : Bool :=
  match p.appendData t async setrows n with
  | .failed _ => async || t.blackHole || !n.dirty
  | _ => true

/-- `InsertDefaultRow` and `UpdateData` of a node: the one that fails may purge the node. -/
def updateNodeOk (async : Bool) (n : CacheNode κ ρ) : Bool :=
  let default := p.conf.replaceEmpty && n.rows.isEmpty
  let rows := if default then [⟨false, t.defaultRow⟩] else n.rows
  if default && t.chunkFails then !n.dirty else (t.updateData async rows).ok || async || t.blackHole || !n.dirty

variable [DecidableEq κ]

/-- `cache_purge_data` of a node: a dirty one is flushed before it is purged, if the server is not synchronous. -/
def purgeNodeOk (n : CacheNode κ ρ) : Bool :=
  if p.conf.updateMode ≠ .sync ∧ n.dirty = true then
    decide ((p.cacheFlushData t).2 ≠ .pending) || p.purgesStNode (p.key t) || cleanOk (p.purgedNode (p.key t))
  else cleanOk (p.purgedNode (p.key t))

/-- The branch that the work takes keeps the counter of dirty nodes. -/
def workNodesOk : CacheWork → Bool
  | .replaceResult =>
    if p.conf.emptyFilter && t.result.isEmpty then cleanOk (p.purgedNode (p.key t))
    else !t.chunkFails || cleanOk p.stNode
  | .insertRow async setrows => p.stNode.all (p.insertNodeOk t async setrows)
  | .updateRows async _ => p.stNode.all (p.updateNodeOk t async)
  | .purgeData => p.stNode.all (p.purgeNodeOk t)
  | .none | .getData | .replaceRows _ | .deleteRows | .flushData | .flushBeforeDelete => true

/-- **The step keeps the counter of dirty nodes.** -/
def stepNodesOk : CacheAction κ ρ → Bool
  | .request t => (p.handles t).1.workNodesOk (p.marked t) (p.handles t).2
  | .reply t => (p.cacheProcessReply t).1.workNodesOk t (p.cacheProcessReply t).2
  | .error t code => (p.cacheProcessError t code).1.workNodesOk t (p.cacheProcessError t code).2
  | .purgeClean i => (p.pool[i]?).all (fun n => decide (n.lru ≠ .clean) || !n.dirty)
  | .purgeEmpty i => (p.pool[i]?).all (fun n => decide (n.lru ≠ .empty) || !n.dirty)
  | .purgeKey key => cleanOk (p.release.purgedNode key)
  | .replaceRaw key _ _ chunkFails | .migrate key _ _ _ chunkFails =>
    !chunkFails || p.conf.nodbMode || cleanOk ((p.findNode key).map (·.1))
  | .migrated key => cleanOk ((p.findNode key).map (·.1))
  | .begin | .finish | .batchGet _ | .flushTimer _ _ | .touch _ | .adjustLru _ | .configure _ => true

end NodesOk

end CacheProcess

/-- The runs of the cache; a start is a configuration and no node. -/
def cacheMachine (κ ρ : Type) [DecidableEq κ] : Machine (CacheProcess κ ρ) (CacheAction κ ρ) where
  start p := ∃ conf, p = { conf := conf }
  step p a := some (p.cacheStep a)

end Dtc
