import DtcServer.CacheData
import DtcServer.Flush
/-!
# CacheProcess — the handlers of `CCacheProcess`

The node a transation works on is held apart from the others.  A handler first decides, after `TransationFindNode`, what
is to be done (`CacheWork`), and then does it; the counters of the node info are words, and only the calls the source
makes change them.  `TryPurgeSize`, which the data operations call when memory is short, touches no node that the
handler works on, so the nodes it discards are a step of their own, like those of the delayed purge.
-/
namespace Dtc

inductive UpdateMode
  | sync | async | flush
  deriving DecidableEq, Repr

inductive InsertOrder
  | last | first | purge
  deriving DecidableEq, Repr

structure CacheConf where
  hash : HashConfig := {}
  updateMode : UpdateMode := .sync
  insertMode : UpdateMode := .sync
  insertOrder : InsertOrder := .last
  nodbMode : Bool := false
  fullMode : Bool := false
  lossyMode : Bool := false
  /-- `m_bReplaceEmpty` -/
  replaceEmpty : Bool := false
  /-- there is an empty-node filter -/
  emptyFilter : Bool := false
  emptyLimit : Bool := false
  noLRU : Nat := 0
  nodeRowsLimit : Nat := 0
  keyAsUniqField : Bool := false
  keyPartOfUniqField : Bool := false
  hasAutoIncrement : Bool := false
  deriving DecidableEq, Repr

inductive NodeStat
  | missing | empty | present
  deriving DecidableEq, Repr

def lruNone : Nat := 0
def lruBatch : Nat := 1
def lruRead : Nat := 2
def lruWrite : Nat := 3
def lruAlways : Nat := 999

/-- The nodes, the node info's counters and the transation (`CCacheTransation`). -/
structure CacheProcess (κ ρ : Type) where
  conf : CacheConf
  /-- the nodes but the one of the transation -/
  pool : List (CacheNode κ ρ) := []
  stNode : Option (CacheNode κ ρ) := none
  ptrKey : Option κ := none
  nodeStat : NodeStat := .missing
  keyDirty : Bool := false
  nodeEmpty : Bool := false
  lruUpdate : Nat := lruNone
  niUsedRow : Int := 0
  niDirtyRow : Int := 0
  niDirtyNode : Int := 0

/-- What a handler goes on to do. -/
inductive CacheWork
  | none
  | getData
  | replaceResult
  | insertRow (async setrows : Bool)
  | updateRows (async setrows : Bool)
  | replaceRows (async : Bool)
  | deleteRows
  | purgeData
  | flushData
  | flushBeforeDelete
  deriving DecidableEq, Repr

/-- The first node of a key in a hash table, and the others: `CacheFind`. -/
def takeOut {κ ρ : Type} [DecidableEq κ] (key : κ) (newhash : Bool) :
    List (CacheNode κ ρ) → Option (CacheNode κ ρ × List (CacheNode κ ρ))
  | [] => none
  | n :: nodes =>
    if n.key = key ∧ n.newhash = newhash then some (n, nodes)
    else (takeOut key newhash nodes).map (fun r => (r.1, n :: r.2))

namespace CacheProcess

variable {κ ρ : Type}

section Pool

variable (p : CacheProcess κ ρ)

def nodes : List (CacheNode κ ρ) := p.stNode.toList ++ p.pool

def incTotalRow (v : Int) : CacheProcess κ ρ := { p with niUsedRow := (p.niUsedRow + v) % 2 ^ 64 }

def incDirtyRow (v : Int) : CacheProcess κ ρ := { p with niDirtyRow := (p.niDirtyRow + v) % 2 ^ 64 }

def incDirtyNode (v : Int) : CacheProcess κ ρ := { p with niDirtyNode := (p.niDirtyNode + v) % 2 ^ 32 }

/-- The node of the transation is one of the pool again. -/
def release : CacheProcess κ ρ := { p with pool := p.nodes, stNode := none }

/-- `TransationBegin`, and `Free` at the end. -/
def transationBegin : CacheProcess κ ρ :=
  { p.release with ptrKey := none, nodeStat := .missing, keyDirty := false, nodeEmpty := false, lruUpdate := lruNone }

def setNode (n : CacheNode κ ρ) : CacheProcess κ ρ := { p with stNode := some n }

/-- `PurgeNode` and `PurgeNodeEverything` of the node of the transation, with `PurgeNodeNotify`. -/
def purgeNodeEverything : CacheProcess κ ρ := { p with stNode := none, nodeEmpty := false }

def purgeClean (i : Nat) : CacheProcess κ ρ :=
  match p.pool[i]? with
  | none => p
  | some n =>
    if n.lru = .clean then { p with pool := p.pool.eraseIdx i }.incTotalRow (0 - n.rows.length) else p

def purgeSingleEmptyNode (i : Nat) : CacheProcess κ ρ :=
  match p.pool[i]? with
  | none => p
  | some n => if n.lru = .empty then { p with pool := p.pool.eraseIdx i } else p

def transationUpdateLRU (async : Bool) (level : Nat) : CacheProcess κ ρ :=
  match p.stNode with
  | none => p
  | some n =>
    if p.keyDirty then p
    else if async then
      { p with stNode := some { n with dirty := true, lru := .dirty }, nodeEmpty := false, lruUpdate := lruNone
        }.incDirtyNode 1
    else { p with lruUpdate := level }

/-- `TransationEnd` up to `Free`: a clean node moves to the list it belongs on.  `IncEmptyNode` may go on to purge a node
of the empty LRU list, in a step of its own. -/
def transationEnd : CacheProcess κ ρ :=
  match p.stNode with
  | none => p.transationBegin
  | some n =>
    if !p.keyDirty && !n.dirty && (decide (p.conf.noLRU < p.lruUpdate) || n.rows.isEmpty != p.nodeEmpty) then
      (p.setNode { n with lru := if n.rows.isEmpty && p.conf.emptyLimit then .empty else .clean }).transationBegin
    else p.transationBegin

end Pool

section Find

variable [DecidableEq κ] (p : CacheProcess κ ρ)

/-- The node of a key in the hash tables the configuration says, and the others; one that is in the old table moves to
the new: `CacheFindAutoChoseHash`. -/
def findNode (key : κ) : Option (CacheNode κ ρ × List (CacheNode κ ρ)) :=
  let target := p.conf.hash.targetNewHash
  if p.conf.hash.hashChanging then
    match takeOut key (!target) p.nodes with
    | some r => some ({ r.1 with newhash := target }, r.2)
    | none => takeOut key target p.nodes
  else takeOut key target p.nodes

def transationFindNode (key : κ) (isset : Bool) : CacheProcess κ ρ :=
  if p.conf.emptyFilter && isset then { p.release with ptrKey := some key, nodeStat := .empty }
  else
    match p.findNode key with
    | none => { p.release with ptrKey := some key, nodeStat := .missing }
    | some (n, rest) =>
      { p with
        pool := rest, stNode := some n, ptrKey := some key, nodeStat := .present, keyDirty := n.dirty
        nodeEmpty := !n.dirty && n.rows.isEmpty }

/-- The node of the transation is in this hash table under the key. -/
def holds (key : κ) (newhash : Bool) : Bool :=
  match p.stNode with
  | none => false
  | some n => decide (n.key = key ∧ n.newhash = newhash)

/-- The hash table in which `CachePurge` finds a node of the key. -/
def purgeHash (key : κ) : Bool :=
  if p.conf.hash.hashChanging then !(p.holds key false || (takeOut key false p.pool).isSome)
  else p.conf.hash.targetNewHash

/-- `CachePurge` finds the node of the transation. -/
def purgesStNode (key : κ) : Bool := p.holds key (p.purgeHash key)

/-- The node `CachePurge` finds. -/
def purgedNode (key : κ) : Option (CacheNode κ ρ) :=
  if p.purgesStNode key then p.stNode else (takeOut key (p.purgeHash key) p.pool).map (·.1)

def cachePurge (key : κ) : CacheProcess κ ρ :=
  if p.purgesStNode key then p.purgeNodeEverything
  else
    match takeOut key (p.purgeHash key) p.pool with
    | none => p
    | some (_, rest) => { p with pool := rest }

end Find

section Work

variable (p : CacheProcess κ ρ) (t : CacheTask κ ρ)

/-- `ptrKey` -/
def key : κ := p.ptrKey.getD t.key

/-- The node `CacheAllocate` gives `InsertEmptyNode`. -/
def emptyNode : CacheNode κ ρ := { key := p.key t, newhash := p.conf.hash.targetNewHash }

def insertEmptyNode : CacheProcess κ ρ := { p.setNode (p.emptyNode t) with nodeEmpty := false }

/-- `InsertDefaultRow`, and the node to go on with; what `ReplaceData` reports is not read. -/
def insertDefaultRow : CacheProcess κ ρ × Option (CacheNode κ ρ) :=
  let store (p : CacheProcess κ ρ) (n : CacheNode κ ρ) : CacheProcess κ ρ × Option (CacheNode κ ρ) :=
    if t.chunkFails then (p.purgeNodeEverything, none) else (p, some { n with rows := [⟨false, t.defaultRow⟩] })
  match p.stNode with
  | some n => if n.rows.isEmpty then store p n else (p, some n)
  | none => if t.allocates then store (p.insertEmptyNode t) (p.emptyNode t) else (p, none)

/-- `cache_update_rows` of a node. -/
def updateNode (async setrows : Bool) (n : CacheNode κ ρ) : CacheProcess κ ρ :=
  let d := t.updateData async n.rows
  let p := p.setNode { n with rows := d.rows }
  if d.ok then
    let affected := if async || setrows then d.affected else t.affectedRows
    let commit := decide (0 < affected) && t.operation && t.typeCommit
    (p.transationUpdateLRU (commit && async) lruWrite).incDirtyRow d.dirtyRowsInc
  else if !async && !t.blackHole then p.purgeNodeEverything.incTotalRow (0 - n.rows.length)
  else p.transationUpdateLRU async lruAlways

def cacheUpdateRows (async setrows : Bool) : CacheProcess κ ρ :=
  let r := if p.conf.replaceEmpty then p.insertDefaultRow t else (p, p.stNode)
  match r.2 with
  | some n => r.1.updateNode t async setrows n
  | none => r.1

def cacheReplaceRows (async : Bool) : CacheProcess κ ρ :=
  match p.stNode with
  | none => p
  | some n =>
    let d := t.replaceRows p.conf.keyAsUniqField async n.rows
    let q := p.setNode { n with rows := d.rows }
    if d.ok then
      ((q.incTotalRow d.rowsInc).incDirtyRow d.dirtyRowsInc).transationUpdateLRU async lruWrite
    else if !p.keyDirty && !t.blackHole then q.purgeNodeEverything.incTotalRow (0 - n.rows.length)
    else q

/-- `AppendData` of the table's definition and configuration. -/
def appendData (async setrows : Bool) (n : CacheNode κ ρ) : AppendResult ρ :=
  t.appendData p.conf.keyAsUniqField p.conf.keyPartOfUniqField (decide (p.conf.insertOrder ≠ .last)) async setrows n.rows

/-- `cache_insert_row` of a node. -/
def insertNode (async setrows : Bool) (n : CacheNode κ ρ) : CacheProcess κ ρ :=
  match p.appendData t async setrows n with
  | .duplicate => p
  | .failed rows =>
    if !async && !t.blackHole then (p.incTotalRow (0 - n.rows.length)).purgeNodeEverything
    else p.setNode { n with rows := rows }
  | .done d =>
    let p := (p.setNode { n with rows := d.rows }).transationUpdateLRU async lruWrite
    let p := p.incTotalRow d.rowsInc
    if async then p.incDirtyRow d.dirtyRowsInc else p

def cacheInsertRow (async setrows : Bool) : CacheProcess κ ρ :=
  match p.stNode with
  | some n => p.insertNode t async setrows n
  | none =>
    if t.allocates then
      -- the new node gets a chunk without rows
      if t.chunkFails then (p.insertEmptyNode t).purgeNodeEverything
      else (p.insertEmptyNode t).insertNode t async setrows (p.emptyNode t)
    else p

/-- The label `empty` of `cache_delete_rows`, with the dirty rows it adds. -/
def deleteNode (oldRows : Nat) (dirtyRowsInc : Int) : CacheProcess κ ρ :=
  let q := p.incTotalRow (0 - oldRows)
  ((if p.keyDirty then q.incDirtyNode (-1) else q).incDirtyRow dirtyRowsInc).purgeNodeEverything

/-- `DirtyRowsInNode`, 0 where it fails. -/
def dirtyRowsInNode (n : CacheNode κ ρ) : Nat :=
  if t.faults.attach || decide ((t.reached 0 n.rows).length ≠ n.rows.length) then 0 else dirtyRows n.rows

def cacheDeleteRows : CacheProcess κ ρ :=
  match p.stNode with
  | none => p
  | some n =>
    if t.allRows then p.deleteNode n.rows.length (dirtyRowsInNode t n)
    else
      let d := t.deleteData n.rows
      let q := p.setNode { n with rows := d.rows }
      if d.ok then
        if d.rows.isEmpty then q.deleteNode n.rows.length d.dirtyRowsInc
        else ((q.incDirtyRow d.dirtyRowsInc).incTotalRow d.rowsInc).transationUpdateLRU false lruWrite
      else if p.keyDirty then q
      else (q.incTotalRow (0 - n.rows.length)).purgeNodeEverything

/-- `IncDirtyNode` and `ClrDirty` of a node that is flushed. -/
def clrDirty (n : CacheNode κ ρ) : CacheProcess κ ρ :=
  let p := if p.keyDirty then p.incDirtyNode (-1) else p
  p.setNode { n with dirty := false }

/-- `cache_flush_data` of the node; without a database there is no flush request, and errors are not seen. -/
def cacheFlushData : CacheProcess κ ρ × CacheResult :=
  match p.stNode with
  | none => (p, .ok)
  | some n =>
    let d := t.flushData n
    let q := { p with keyDirty := n.dirty }
    if !d.ok && !p.conf.nodbMode then (q.setNode { n with rows := d.rows }, .error)
    else
      let q := (q.incDirtyRow d.dirtyRowsInc).clrDirty { n with rows := d.rows }
      let flushCnt := if p.conf.nodbMode then 0 else d.affected - t.completed
      ({ q with keyDirty := false }.transationUpdateLRU false lruAlways, if flushCnt = 0 then .ok else .pending)

/-- `cache_flush_data_before_delete` of a dirty node. -/
def cacheFlushDataBeforeDelete : CacheProcess κ ρ :=
  match p.stNode with
  | none => p
  | some n =>
    let d := t.flushData n
    if d.ok then
      (if d.affected = 0 then p else p.incDirtyRow d.dirtyRowsInc).clrDirty { n with rows := d.rows, lru := .clean }
    else p.setNode { n with rows := d.rows }

/-- `cache_flush_data_timer` of a node of the dirty LRU list. -/
def cacheFlushDataTimer (i : Nat) : CacheProcess κ ρ :=
  let p := p.transationBegin
  match p.pool[i]? with
  | none => p
  | some n =>
    if n.lru = .dirty then
      let d := t.flushData n
      let p := if d.affected = 0 then p else p.incDirtyRow d.dirtyRowsInc
      if d.ok then
        { (if n.dirty then p.incDirtyNode (-1) else p) with
          pool := p.pool.set i { n with rows := d.rows, dirty := false, lru := .clean } }
      else { p with pool := p.pool.set i { n with rows := d.rows } }
    else p

variable [DecidableEq κ]

/-- `cache_purge_data` of the node that was found. -/
def cachePurgeData : CacheProcess κ ρ :=
  match p.stNode with
  | none => p
  | some n =>
    if p.conf.updateMode ≠ .sync ∧ n.dirty = true then
      let r := p.cacheFlushData t
      if r.2 = .pending then (r.1.incTotalRow (0 - n.rows.length)).cachePurge (p.key t) else r.1
    else (p.incTotalRow (0 - n.rows.length)).cachePurge (p.key t)

/-- The rows of the result replace those of a node: `ReplaceData` purges the node where it fails. -/
def replaceNode (n : CacheNode κ ρ) (oldRows : Nat) : CacheProcess κ ρ :=
  if t.chunkFails then p.purgeNodeEverything.incDirtyRow (0 - oldRows)
  else
    let p := p.setNode { n with rows := t.result.map (fun v => ⟨false, v⟩) }
    (p.incTotalRow (t.result.length - n.rows.length)).transationUpdateLRU false lruRead

/-- `cache_replace_result`, after `TransationFindNode`. -/
def cacheReplaceResult : CacheProcess κ ρ :=
  if p.conf.emptyFilter && t.result.isEmpty then p.cachePurge (p.key t)
  else
    match p.stNode with
    | some n => p.replaceNode t n n.rows.length
    | none => if t.allocates then (p.insertEmptyNode t).replaceNode t (p.emptyNode t) 0 else p

def perform : CacheWork → CacheProcess κ ρ
  | .none => p
  | .getData => p.transationUpdateLRU false lruRead
  | .replaceResult => p.cacheReplaceResult t
  | .insertRow async setrows => p.cacheInsertRow t async setrows
  | .updateRows async setrows => p.cacheUpdateRows t async setrows
  | .replaceRows async => p.cacheReplaceRows t async
  | .deleteRows => p.cacheDeleteRows t
  | .purgeData => p.cachePurgeData t
  | .flushData => (p.cacheFlushData t).1
  | .flushBeforeDelete => p.cacheFlushDataBeforeDelete t

end Work

section Decide

variable [DecidableEq κ] (p : CacheProcess κ ρ) (t : CacheTask κ ρ)

/-- `TransationFindNode` of the task's key. -/
def find : CacheProcess κ ρ := p.transationFindNode t.key t.isset

def nodeDirty : Bool :=
  match p.stNode with
  | none => false
  | some n => n.dirty

def checkAllowedInsert : Bool :=
  let rows := (p.stNode.map (·.rows.length)).getD 0
  !(p.conf.keyAsUniqField && decide (rows ≠ 0)) && !(decide (0 < p.conf.nodeRowsLimit ∧ p.conf.nodeRowsLimit ≤ rows))

def cacheGetData : CacheProcess κ ρ × CacheWork :=
  let p := p.find t
  (p, if p.nodeStat = .present then .getData else .none)

def cacheSyncInsertPrecheck : CacheProcess κ ρ × CacheWork :=
  if p.conf.replaceEmpty then (p, .none)
  else if p.conf.keyAsUniqField || decide (0 < p.conf.nodeRowsLimit) then (p.find t, .none)
  else (p, .none)

def cacheSyncInsert : CacheProcess κ ρ × CacheWork :=
  if p.conf.replaceEmpty then (p, .none)
  else
    let p := p.transationFindNode (t.insertKey.getD t.key) t.isset
    (p, if p.nodeStat = .missing then .none else .insertRow false p.conf.lossyMode)

def cacheSyncUpdate : CacheProcess κ ρ × CacheWork :=
  let update (setrows : Bool) : CacheProcess κ ρ × CacheWork :=
    let p := p.find t
    match p.nodeStat with
    | .missing => (p, .none)
    | .empty => (p, if p.conf.replaceEmpty then .updateRows false setrows else .none)
    | .present => (p, .updateRows false setrows)
  if !t.operation then (p, .none)
  else if !p.conf.lossyMode && t.affectedRows == 0 then
    -- the helper's number is ignored for volatile fields and for conditions on timestamps
    if !t.typeCommit || t.timestampCondition then update true else (p, .none)
  else update p.conf.lossyMode

def cacheSyncReplace : CacheProcess κ ρ × CacheWork :=
  if !p.conf.lossyMode && t.affectedRows == 0 then (p, .none)
  else
    let p := p.find t
    match p.nodeStat with
    | .missing => (p, .none)
    | .empty => (p, .insertRow false p.conf.lossyMode)
    | .present => (p, .replaceRows false)

/-- `cache_sync_delete` and `cache_nodb_delete` -/
def cacheSyncDelete : CacheProcess κ ρ × CacheWork :=
  let p := p.find t
  (p, if p.nodeStat = .present then .deleteRows else .none)

def cacheNodbInsert : CacheProcess κ ρ × CacheWork :=
  if p.conf.replaceEmpty then (p, .none)
  else
    let p := p.find t
    (p, if p.nodeStat = .present ∧ p.checkAllowedInsert = false then .none else .insertRow false true)

def cacheNodbUpdate : CacheProcess κ ρ × CacheWork :=
  let p := p.find t
  (p, if p.nodeStat = .present ∨ p.conf.replaceEmpty = true then .updateRows false true else .none)

def cacheNodbReplace : CacheProcess κ ρ × CacheWork :=
  let p := p.find t
  (p, if p.nodeStat = .present then .replaceRows false else .insertRow false true)

def cacheAsyncInsert : CacheProcess κ ρ × CacheWork :=
  if p.conf.replaceEmpty then (p, .none)
  else
    let p := p.find t
    let flush := decide (p.conf.updateMode = .flush)
    let next : Bool :=
      match p.nodeStat with
      | .missing => !p.conf.fullMode || flush
      | .empty => flush
      | .present => !p.checkAllowedInsert || (flush && !p.nodeDirty)
    (p, if next then .none else .insertRow true true)

def cacheAsyncUpdate : CacheProcess κ ρ × CacheWork :=
  let p := p.find t
  let flush := decide (p.conf.updateMode = .flush)
  let next : Bool :=
    match p.nodeStat with
    | .missing => !p.conf.fullMode || !p.conf.replaceEmpty || flush
    | .empty => !p.conf.replaceEmpty || flush
    | .present => flush && !p.nodeDirty
  (p, if next then .none else .updateRows true true)

def cacheAsyncReplace : CacheProcess κ ρ × CacheWork :=
  let p := p.find t
  let flush := decide (p.conf.updateMode = .flush)
  match p.nodeStat with
  | .missing => (p, if !p.conf.fullMode || flush || !p.conf.keyAsUniqField then .none else .insertRow true true)
  | .empty => (p, if flush then .none else .insertRow true true)
  | .present => (p, if flush && !p.nodeDirty then .none else .replaceRows true)

/-- A replace needs the key to be part of the unique fields, and no auto-increment field. -/
def replaceAllowed : Bool := p.conf.keyPartOfUniqField && !p.conf.hasAutoIncrement

/-- `cache_process_request`; where it does nothing the request is answered or goes to the helper. -/
def cacheProcessRequest : CacheProcess κ ρ × CacheWork :=
  match t.cmd with
  | .get =>
    if t.badLimit then (p, .none)
    else if t.blacklisted then (p.find t, .purgeData)
    else p.cacheGetData t
  | .insert =>
    if p.conf.updateMode = .async ∧ p.conf.insertMode ≠ .sync then p.cacheAsyncInsert t
    else p.cacheSyncInsertPrecheck t
  | .update => if p.conf.updateMode = .sync then (p, .none) else p.cacheAsyncUpdate t
  | .delete =>
    if p.conf.updateMode = .sync ∨ t.rwCondition = true then (p, .none)
    else
      let p := p.find t
      (p, if p.nodeDirty then .flushBeforeDelete else .none)
  | .replace =>
    if p.replaceAllowed = false ∨ p.conf.updateMode = .sync then (p, .none) else p.cacheAsyncReplace t
  | .purge => (p.find t, .purgeData)
  | .flush =>
    if p.conf.updateMode = .sync then (p, .none)
    else
      let p := p.find t
      (p, if p.nodeDirty then .flushData else .none)

/-- `cache_process_nodb`; the task is marked as one of the black hole. -/
def cacheProcessNodb : CacheProcess κ ρ × CacheWork :=
  match t.cmd with
  | .get => if t.badLimit then (p, .none) else p.cacheGetData t
  | .insert => p.cacheNodbInsert t
  | .update => p.cacheNodbUpdate t
  | .delete => p.cacheSyncDelete t
  | .replace => if p.replaceAllowed then p.cacheNodbReplace t else (p, .none)
  | .purge => (p.find t, .purgeData)
  | .flush => (p, .none)

def cacheProcessReply : CacheProcess κ ρ × CacheWork :=
  match t.cmd with
  | .get => if t.passThru || t.tooLarge || t.blackHole then (p, .none) else (p.find t, .replaceResult)
  | .insert =>
    if t.blackHole then p.cacheNodbInsert t
    else if p.conf.insertOrder = .purge then (p.find t, .purgeData)
    else p.cacheSyncInsert t
  | .update =>
    if t.blackHole then p.cacheNodbUpdate t
    else if p.conf.insertOrder = .purge ∧ 0 < t.affectedRows then (p.find t, .purgeData)
    else p.cacheSyncUpdate t
  | .delete => p.cacheSyncDelete t
  | .replace => if t.blackHole then p.cacheNodbReplace t else p.cacheSyncReplace t
  | .purge | .flush => (p, .none)

/-- The result codes `cache_process_error` tells apart: -ER_DUP_ENTRY, -EC_UPSTREAM_ERROR and -CR_SERVER_LOST, others. -/
inductive ErrorCode
  | dupEntry | unknown | other
  deriving DecidableEq, Repr

def cacheProcessError (code : ErrorCode) : CacheProcess κ ρ × CacheWork :=
  let purge : CacheProcess κ ρ × CacheWork := if p.conf.updateMode = .sync then (p.find t, .purgeData) else (p, .none)
  match t.cmd, code with
  | .insert, .dupEntry => if p.conf.lossyMode then p.cacheSyncInsert t else (p, .none)
  | .update, .dupEntry => if p.conf.lossyMode then p.cacheSyncUpdate t else purge
  | .insert, .unknown | .delete, .unknown | .update, .unknown => purge
  | _, _ => (p, .none)

end Decide

section Admin

variable [DecidableEq κ] (p : CacheProcess κ ρ)

/-- A chunk with these rows becomes the one of the key's node, which goes to the LRU list: what `cache_replace_raw_data`
and `cache_migrate` do with a chunk they were sent. -/
def replaceRawNode (key : κ) (rows : List (CacheRow ρ)) (lru : LruList) (allocates chunkFails : Bool) :
    CacheProcess κ ρ :=
  match p.findNode key with
  | some (n, rest) =>
    let p := { p with pool := rest, stNode := none }
    if chunkFails then
      -- without a database the node is kept
      if p.conf.nodbMode then { p with pool := { n with lru := lru } :: rest } else p
    else { p with pool := { n with lru := lru, rows := rows } :: rest }.incTotalRow (rows.length - n.rows.length)
  | none =>
    let p := p.release
    let n : CacheNode κ ρ := { key := key, newhash := p.conf.hash.targetNewHash, lru := lru }
    if allocates then
      if chunkFails then if p.conf.nodbMode then { p with pool := n :: p.pool } else p
      else { p with pool := { n with rows := rows } :: p.pool }.incTotalRow rows.length
    else p

/-- `CacheFindAutoChoseHash` by itself. -/
def touchNode (key : κ) : CacheProcess κ ρ :=
  match p.findNode key with
  | none => p.release
  | some (n, rest) => { p with pool := n :: rest, stNode := none }

/-- One key of `cache_adjust_lru`. -/
def cacheAdjustLru (key : κ) : CacheProcess κ ρ :=
  match p.findNode key with
  | none => p.release
  | some (n, rest) => { p with pool := { n with lru := .clean } :: rest, stNode := none }

/-- The reply of a migration: `PurgeNodeEverything` of the key's node. -/
def cacheMigrated (key : κ) : CacheProcess κ ρ :=
  match p.findNode key with
  | none => p.release
  | some (_, rest) => { p with pool := rest, stNode := none }

end Admin

end CacheProcess

end Dtc
