import DtcServer.Barrier
import Mathlib.Data.List.Nodup
import Mathlib.Data.List.Count
/-!
# Flush — `CFlushRequest` and the handlers that make one

A flush request has a sub-task for each dirty row of a node; the client's request, if there is one, waits in it.  The
handlers of flush and purge requests hand their request to the flush request (`CommitFlushRequest`) and report to
`TaskNotify` whether they replied it; the handler of deletes and the flush timer have none waiting.  Sub-tasks go
through `PushFlushQueue`; a row says whether its sub-task completes inside that call.  Get of a dirty node whose key is on
the blacklist, which purges and does not look at the answer, is left out.
-/
namespace Dtc

/-- `CFlushRequest`; `committed` says that `CommitFlushRequest` counted it. -/
structure FlushReq where
  id : Nat
  numReq : Int := 0
  wait : Option TaskId := none
  committed : Bool := false
  deriving DecidableEq, Repr

/-- A row of the node as `FlushData` meets it: not dirty; dirty and flushed (`sync`: its sub-task completes inside
`PushFlushQueue`); not decodable; dirty with a `Copy` that fails. -/
inductive NodeRow where
  | clean
  | dirty (sync : Bool)
  | decodeError
  | copyError
  deriving DecidableEq, Repr

/-- A dirty node: whether `AttachData` succeeds, and its rows. -/
structure FlushNode where
  attachOk : Bool := true
  rows : List NodeRow
  deriving DecidableEq, Repr

inductive CacheResult where
  | ok | error | pending | next
  deriving DecidableEq, Repr

structure FlushWorld where
  nFlushReq : Int := 0
  nextId : Nat := 0
  /-- the `CFlushRequest` objects that live -/
  reqs : List FlushReq := []
  /-- the sub-tasks on their way, by flush request -/
  inflight : List Nat := []
  seen : List TaskId := []
  replied : List TaskId := []
  /-- the deletes handed to the database, not back yet -/
  forwarded : List TaskId := []
  touchedAfterReply : Bool := false
  usedAfterDelete : Bool := false
  deriving DecidableEq, Repr

namespace FlushWorld

def touch (w : FlushWorld) (t : TaskId) : FlushWorld :=
  { w with touchedAfterReply := w.touchedAfterReply || decide (t ∈ w.replied) }

def replyNotify (w : FlushWorld) (t : TaskId) : FlushWorld := { w.touch t with replied := w.replied ++ [t] }

/-- The reply of `wait`, if there is one. -/
def replyWait (w : FlushWorld) : Option TaskId → FlushWorld
  | none => w
  | some t => w.replyNotify t

/-- `CompleteFlushRequest`, up to the next flush it may start. -/
def completeFlushRequest (w : FlushWorld) (r : FlushReq) : FlushWorld :=
  { w with reqs := w.reqs.filter (fun r' => r'.id ≠ r.id), nFlushReq := w.nFlushReq - 1 }

/-- `CompleteRow` of a sub-task of a live request. -/
def completeRow (w : FlushWorld) (r : FlushReq) : FlushWorld :=
  let w := { w with inflight := w.inflight.erase r.id }
  if r.numReq - 1 = 0 then (w.replyWait r.wait).completeFlushRequest r
  else { w with reqs := w.reqs.map (fun r' => if r'.id = r.id then { r' with numReq := r'.numReq - 1 } else r') }

end FlushWorld

/-- A handler at work on the request it created; `deleted` says that the object is gone. -/
structure FlushCall where
  w : FlushWorld
  req : FlushReq
  deleted : Bool := false
  deriving DecidableEq, Repr

namespace FlushCall

/-- `new CFlushRequest` -/
def new (w : FlushWorld) : FlushCall := ⟨{ w with nextId := w.nextId + 1 }, { id := w.nextId }, false⟩

def use (c : FlushCall) : FlushCall := { c with w := { c.w with usedAfterDelete := c.w.usedAfterDelete || c.deleted } }

/-- `FlushRow`: the sub-task is counted, then pushed. -/
def flushRow (c : FlushCall) (sync : Bool) : FlushCall :=
  let c := c.use
  if sync then
    -- `CompleteRow` inside the push; nobody waits yet
    if c.req.numReq = 0 then { c with w := { c.w with nFlushReq := c.w.nFlushReq - 1 }, deleted := true } else c
  else { c with
    w := { c.w with inflight := c.w.inflight ++ [c.req.id] }, req := { c.req with numReq := c.req.numReq + 1 } }

/-- The loop of `FlushData`: the number of rows flushed, and whether it reached the end. -/
def flushRows (c : FlushCall) : List NodeRow → FlushCall × Nat × Bool
  | [] => (c, 0, true)
  | .clean :: rows => flushRows c rows
  | .dirty sync :: rows =>
    let r := flushRows (c.flushRow sync) rows
    (r.1, r.2.1 + 1, r.2.2)
  | .decodeError :: _ => (c, 0, false)
  | .copyError :: _ => (c.use, 0, false)

/-- `FlushData`; a node that cannot be attached leaves the count as it was. -/
def flushData (c : FlushCall) (node : FlushNode) (count : Nat) : FlushCall × Nat × Bool :=
  if node.attachOk then c.flushRows node.rows else (c, count, false)

/-- `delete` of the request, whose destructor replies the request that waits. -/
def delete (c : FlushCall) : FlushCall := { c with w := c.use.w.replyWait c.req.wait, deleted := true }

def commitFlushRequest (c : FlushCall) (callbackTask : Option TaskId) : FlushCall :=
  let c := { c.use with req := { c.req with wait := callbackTask } }
  if c.req.numReq = 0 then c.delete
  else { c with w := { c.w with nFlushReq := c.w.nFlushReq + 1 }, req := { c.req with committed := true } }

/-- The handler returns; the request lives on if it was not deleted. -/
def leave (c : FlushCall) : FlushWorld := if c.deleted then c.w else { c.w with reqs := c.w.reqs ++ [c.req] }

end FlushCall

namespace FlushWorld

/-- `cache_flush_data` of a dirty node for a client's request. -/
def cacheFlushData (w : FlushWorld) (task : TaskId) (node : FlushNode) : FlushWorld × CacheResult :=
  let r := (FlushCall.new w).flushData node 0
  let flushCnt := r.1.req.numReq
  let c := r.1.commitFlushRequest (some task)
  if !r.2.2 then (c.leave.touch task, .error) -- `SetErrorDup`
  else (c.leave, if flushCnt = 0 then .ok else .pending)

/-- `cache_flush_data` of a flush request; `none` stands for no node or a clean one. -/
def flushRequest (w : FlushWorld) (task : TaskId) : Option FlushNode → FlushWorld × CacheResult
  | none => (w, .ok)
  | some node => w.cacheFlushData task node

/-- `cache_purge_data`: a dirty node is flushed before it goes, when the cache is asynchronous. -/
def purgeRequest (w : FlushWorld) (updateMode : Bool) (task : TaskId) : Option FlushNode → FlushWorld × CacheResult
  | none => (w, .ok)
  | some node => if updateMode then w.cacheFlushData task node else (w, .ok)

/-- `cache_flush_data_before_delete`, and the delete's way to the database. -/
def deleteRequest (w : FlushWorld) : Option FlushNode → FlushWorld × CacheResult
  | none => (w, .next)
  | some node =>
    let r := (FlushCall.new w).flushData node 0
    if !r.2.2 then (r.1.leave, .error)
    else if r.2.1 = 0 then (r.1.delete.leave, .next)
    else ((r.1.commitFlushRequest none).leave, .next)

/-- `cache_flush_data_timer`; `count` is what the caller's counter was left with. -/
def timerFlush (w : FlushWorld) (node : FlushNode) (count : Nat) : FlushWorld :=
  let r := (FlushCall.new w).flushData node count
  if r.2.1 = 0 then r.1.delete.leave else (r.1.commitFlushRequest none).leave

/-- `TaskNotify`: what becomes of a request after its handler. -/
def taskNotify (r : FlushWorld × CacheResult) (task : TaskId) : FlushWorld :=
  match r.2 with
  | .ok => r.1.replyNotify task
  | .error => (r.1.touch task).replyNotify task
  | .pending => r.1
  | .next => { r.1 with forwarded := r.1.forwarded ++ [task] }

end FlushWorld

inductive FlushAction where
  | flush (task : TaskId) (node : Option FlushNode)
  | purge (updateMode : Bool) (task : TaskId) (node : Option FlushNode)
  | delete (task : TaskId) (node : Option FlushNode)
  | timer (node : FlushNode) (count : Nat)
  /-- a sub-task of a flush request comes back, whatever its result -/
  | completeRow (id : Nat)
  /-- a delete comes back from the database -/
  | dbReply (task : TaskId)
  deriving DecidableEq, Repr

namespace FlushWorld

def arrive (w : FlushWorld) (task : TaskId) : FlushWorld := { w with seen := w.seen ++ [task] }

def step (w : FlushWorld) : FlushAction → Option FlushWorld
  | .flush task node =>
    if task ∈ w.seen then none else some (taskNotify ((w.arrive task).flushRequest task node) task)
  | .purge updateMode task node =>
    if task ∈ w.seen then none else some (taskNotify ((w.arrive task).purgeRequest updateMode task node) task)
  | .delete task node =>
    if task ∈ w.seen then none else some (taskNotify ((w.arrive task).deleteRequest node) task)
  | .timer node count => some (w.timerFlush node count)
  | .completeRow id =>
    if id ∈ w.inflight then (w.reqs.find? (fun r => r.id = id)).map w.completeRow else none
  | .dbReply task =>
    if task ∈ w.forwarded then some { w.replyNotify task with forwarded := w.forwarded.erase task } else none

end FlushWorld

def flushMachine : Machine FlushWorld FlushAction where
  start w := w = {}
  step := FlushWorld.step

/-- The places a request can be in: waiting in a flush request, on its way to the database, replied. -/
def FlushWorld.tally (w : FlushWorld) (t : TaskId) : Nat :=
  w.reqs.countP (fun r => r.wait = some t) + w.forwarded.count t + w.replied.count t

/-- **The contract of flushing**, in one state of a run. -/
structure FlushOnce (w : FlushWorld) : Prop where
  repliedOnce : ∀ t, w.replied.count t ≤ 1
  untouched : w.touchedAfterReply = false
  undeleted : w.usedAfterDelete = false
  /-- every request of a client is in one place; so it has its one reply or will get it from the flush request it waits
  in or from the database -/
  placed : ∀ t ∈ w.seen, w.tally t = 1
  /-- a flush request somebody waits in has a sub-task on its way -/
  pending : ∀ r ∈ w.reqs, r.wait ≠ none → r.id ∈ w.inflight
  counted : w.nFlushReq = w.reqs.countP (fun r => r.committed)
  /-- nothing on its way, so everybody replied -/
  allReplied : w.inflight = [] → w.forwarded = [] → ∀ t ∈ w.seen, w.replied.count t = 1

/-! ## The nodes a flush is right for -/

namespace NodeRow

def isError : NodeRow → Bool
  | .decodeError | .copyError => true
  | _ => false

def isDirty : NodeRow → Bool
  | .dirty _ => true
  | _ => false

def isSync : NodeRow → Bool
  | .dirty sync => sync
  | _ => false

end NodeRow

def flushableRows (rows : List NodeRow) : Nat := (rows.takeWhile (fun r => !r.isError)).countP NodeRow.isDirty

/-- Those of them whose sub-task is still on its way when the push returns. -/
def queuedRows (rows : List NodeRow) : Nat :=
  (rows.takeWhile (fun r => !r.isError)).countP (fun r => r.isDirty && !r.isSync)

/-- The sub-task of the first dirty row does not complete inside `PushFlushQueue`. -/
def firstQueued : List NodeRow → Bool
  | .clean :: rows => firstQueued rows
  | .dirty sync :: _ => !sync
  | _ => true

namespace FlushNode

variable (node : FlushNode)

def queued : Bool := !node.attachOk || firstQueued node.rows

def sound : Bool := node.attachOk && node.rows.all (fun r => !r.isError)

def flushable : Nat := if node.attachOk then flushableRows node.rows else 0

def subTasks : Nat := if node.attachOk then queuedRows node.rows else 0

end FlushNode

/-- **The steps on which the handlers keep the contract**: the sub-task of a node's first dirty row does not complete
inside the call that pushes it; a node flushed for a waiting request has a dirty row and no bad one; a node flushed before
a delete has no dirty row in front of a bad one. -/
def FlushStepOk (_ : FlushWorld) : FlushAction → Prop
  | .flush _ (some node) => node.queued ∧ node.sound ∧ 0 < node.flushable
  | .purge updateMode _ (some node) => updateMode = true → node.queued ∧ node.sound ∧ 0 < node.flushable
  | .delete _ (some node) => node.queued ∧ (node.sound ∨ node.flushable = 0)
  | .timer node _ => node.queued
  | _ => True

section Rows

variable (rows : List NodeRow)

@[simp] theorem flushableRows_dirty (sync : Bool) :
    flushableRows (.dirty sync :: rows) = flushableRows rows + 1 := by
  simp only [flushableRows, List.takeWhile_cons, NodeRow.isError]
  exact List.countP_cons_of_pos rfl

@[simp] theorem flushableRows_error {r : NodeRow} (hr : r.isError = true) : flushableRows (r :: rows) = 0 := by
  simp [flushableRows, hr]

@[simp] theorem queuedRows_queued : queuedRows (.dirty false :: rows) = queuedRows rows + 1 := by
  simp only [queuedRows, List.takeWhile_cons, NodeRow.isError]
  exact List.countP_cons_of_pos rfl

@[simp] theorem queuedRows_sync : queuedRows (.dirty true :: rows) = queuedRows rows := by
  simp only [queuedRows, List.takeWhile_cons, NodeRow.isError]
  exact List.countP_cons_of_neg (by decide)

@[simp] theorem queuedRows_error {r : NodeRow} (hr : r.isError = true) : queuedRows (r :: rows) = 0 := by
  simp [queuedRows, hr]

end Rows

theorem queuedRows_eq_zero_iff : ∀ {rows : List NodeRow}, firstQueued rows = true →
    (queuedRows rows = 0 ↔ flushableRows rows = 0)
  | [], _ => Iff.rfl
  | .clean :: rows, h => by
    have hrows : firstQueued rows = true := h
    have ih := queuedRows_eq_zero_iff hrows
    exact ih
  | .dirty true :: _, h => by simp [firstQueued] at h
  | .dirty false :: rows, _ => by
    rw [queuedRows_queued, flushableRows_dirty]
    omega
  | .decodeError :: rows, _ => by rw [queuedRows_error rows rfl, flushableRows_error rows rfl]
  | .copyError :: rows, _ => by rw [queuedRows_error rows rfl, flushableRows_error rows rfl]

theorem FlushNode.subTasks_eq_zero_iff {node : FlushNode} (hq : node.queued = true) :
    node.subTasks = 0 ↔ node.flushable = 0 := by
  unfold subTasks flushable
  unfold queued at hq
  cases hat : node.attachOk with
  | false => simp
  | true =>
    rw [hat] at hq
    exact queuedRows_eq_zero_iff (by simpa using hq)

theorem flushRows_queued : ∀ (rows : List NodeRow) (c : FlushCall), c.deleted = false → 0 ≤ c.req.numReq →
    (c.req.numReq = 0 → firstQueued rows = true) →
    c.flushRows rows =
      (⟨{ c.w with inflight := c.w.inflight ++ List.replicate (queuedRows rows) c.req.id },
        { c.req with numReq := c.req.numReq + queuedRows rows }, false⟩,
      flushableRows rows, rows.all (fun r => !r.isError))
  | [], c, hd, _, _ => by
    obtain ⟨w, req, deleted⟩ := c
    dsimp only at hd
    subst hd
    simp [FlushCall.flushRows, queuedRows, flushableRows]
  | .clean :: rows, c, hd, hn, hq => flushRows_queued rows c hd hn hq
  | .dirty true :: rows, c, hd, hn, hq => by
    have hpos : c.req.numReq ≠ 0 := fun h0 => by simpa [firstQueued] using hq h0
    obtain ⟨w, req, deleted⟩ := c
    dsimp only at hd hpos
    subst hd
    have hrow : FlushCall.flushRow ⟨w, req, false⟩ true = ⟨w, req, false⟩ := by
      simp [FlushCall.flushRow, FlushCall.use, hpos]
    have ih := flushRows_queued rows ⟨w, req, false⟩ rfl hn (fun h0 => absurd h0 hpos)
    simp only [FlushCall.flushRows, hrow, ih, flushableRows_dirty, queuedRows_sync]
    rfl
  | .dirty false :: rows, c, hd, hn, _ => by
    obtain ⟨w, req, deleted⟩ := c
    dsimp only at hd hn
    subst hd
    have hrow : FlushCall.flushRow ⟨w, req, false⟩ false =
        ⟨{ w with inflight := w.inflight ++ [req.id] }, { req with numReq := req.numReq + 1 }, false⟩ := by
      simp [FlushCall.flushRow, FlushCall.use]
    have ih := flushRows_queued rows ⟨{ w with inflight := w.inflight ++ [req.id] },
      { req with numReq := req.numReq + 1 }, false⟩ rfl (by dsimp only; omega)
      (fun h0 => by dsimp only at h0; omega)
    have h1 : w.inflight ++ [req.id] ++ List.replicate (queuedRows rows) req.id =
        w.inflight ++ List.replicate (queuedRows rows + 1) req.id := by
      rw [List.append_assoc, List.singleton_append, ← List.replicate_succ]
    have h2 : req.numReq + 1 + (queuedRows rows : Int) = req.numReq + ((queuedRows rows + 1 : Nat) : Int) := by
      omega
    simp only [FlushCall.flushRows, hrow, ih, flushableRows_dirty, queuedRows_queued, h1, h2]
    rfl
  | .decodeError :: rows, c, hd, _, _ => by
    obtain ⟨w, req, deleted⟩ := c
    dsimp only at hd
    subst hd
    rw [queuedRows_error rows rfl, flushableRows_error rows rfl]
    simp [FlushCall.flushRows, NodeRow.isError]
  | .copyError :: rows, c, hd, _, _ => by
    obtain ⟨w, req, deleted⟩ := c
    dsimp only at hd
    subst hd
    rw [queuedRows_error rows rfl, flushableRows_error rows rfl]
    simp [FlushCall.flushRows, NodeRow.isError, FlushCall.use]

theorem flushData_queued (w : FlushWorld) {node : FlushNode} (hq : node.queued = true) (count : Nat) :
    (FlushCall.new w).flushData node count =
      (⟨{ w with nextId := w.nextId + 1, inflight := w.inflight ++ List.replicate node.subTasks w.nextId },
        { id := w.nextId, numReq := node.subTasks }, false⟩,
      if node.attachOk then node.flushable else count, node.sound) := by
  unfold FlushNode.queued at hq
  unfold FlushCall.flushData FlushNode.flushable FlushNode.sound FlushNode.subTasks
  cases hat : node.attachOk with
  | true =>
    rw [hat] at hq
    have hfirst : firstQueued node.rows = true := by simpa using hq
    rw [if_pos rfl, flushRows_queued node.rows (FlushCall.new w) rfl (Int.le_refl 0) (fun _ => hfirst)]
    simp [FlushCall.new]
  | false => simp [FlushCall.new]

/-! ## What the handlers do on such nodes -/

/-- The world with a committed flush request of `n` sub-tasks more. -/
def FlushWorld.addReq (w : FlushWorld) (n : Nat) (wait : Option TaskId) : FlushWorld :=
  { w with
    nextId := w.nextId + 1, inflight := w.inflight ++ List.replicate n w.nextId, nFlushReq := w.nFlushReq + 1,
    reqs := w.reqs ++ [⟨w.nextId, n, wait, true⟩] }

section Handlers

variable (w : FlushWorld) {node : FlushNode}

theorem cacheFlushData_sound (task : TaskId) (hq : node.queued = true) (hs : node.sound = true)
    (hk : 0 < node.flushable) : w.cacheFlushData task node = (w.addReq node.subTasks (some task), .pending) := by
  have hsub := FlushNode.subTasks_eq_zero_iff hq
  have hne : (node.subTasks : Int) ≠ 0 := by omega
  unfold FlushWorld.cacheFlushData
  rw [flushData_queued w hq]
  simp only [hs, FlushCall.commitFlushRequest, FlushCall.use, hne, if_false, Bool.not_true, Bool.false_eq_true,
    FlushCall.leave, FlushWorld.addReq, Bool.or_false]

theorem deleteRequest_sound (hq : node.queued = true) (hs : node.sound = true) : w.deleteRequest (some node) =
    (if node.subTasks = 0 then { w with nextId := w.nextId + 1 } else w.addReq node.subTasks none, .next) := by
  have hat : node.attachOk = true := by
    unfold FlushNode.sound at hs
    exact (Bool.and_eq_true _ _ ▸ hs).1
  have hsub := FlushNode.subTasks_eq_zero_iff hq
  unfold FlushWorld.deleteRequest
  dsimp only
  rw [flushData_queued w hq]
  simp only [hs, hat, if_true, Bool.not_true, Bool.false_eq_true, if_false]
  by_cases hk : node.flushable = 0
  · simp [hk, hsub.mpr hk, FlushCall.delete, FlushCall.use, FlushCall.leave, FlushWorld.replyWait]
  · have hk' : node.subTasks ≠ 0 := fun h0 => hk (hsub.mp h0)
    have hne : (node.subTasks : Int) ≠ 0 := by omega
    simp only [hk, hk', if_false, FlushCall.commitFlushRequest, FlushCall.use, hne, FlushCall.leave, FlushWorld.addReq,
      Bool.or_false, Bool.false_eq_true]

theorem deleteRequest_unsound (hq : node.queued = true) (hs : node.sound = false) (hk : node.flushable = 0) :
    w.deleteRequest (some node) =
      ({ w with nextId := w.nextId + 1, reqs := w.reqs ++ [⟨w.nextId, 0, none, false⟩] }, .error) := by
  have hsub := (FlushNode.subTasks_eq_zero_iff hq).mpr hk
  unfold FlushWorld.deleteRequest
  dsimp only
  rw [flushData_queued w hq]
  simp [hs, hsub, FlushCall.leave]

theorem timerFlush_queued (hq : node.queued = true) (count : Nat) : w.timerFlush node count =
    if node.subTasks = 0 then { w with nextId := w.nextId + 1 } else w.addReq node.subTasks none := by
  have hsub := FlushNode.subTasks_eq_zero_iff hq
  unfold FlushWorld.timerFlush
  rw [flushData_queued w hq]
  by_cases hk : node.subTasks = 0
  · simp only [hk]
    split <;> simp [FlushCall.delete, FlushCall.use, FlushCall.leave, FlushWorld.replyWait,
      FlushCall.commitFlushRequest]
  · have hat : node.attachOk = true := by
      by_contra h
      exact hk (if_neg h)
    have hk' : node.flushable ≠ 0 := fun h0 => hk (hsub.mpr h0)
    have hne : (node.subTasks : Int) ≠ 0 := by omega
    simp only [hat, hk, hk', if_true, if_false, FlushCall.commitFlushRequest, FlushCall.use, hne, FlushCall.leave,
      FlushWorld.addReq, Bool.or_false, Bool.false_eq_true]

end Handlers

/-! ## The invariant -/

/-- What holds of the flush requests: a live one is committed and has its sub-tasks on their way, or it was left behind
without any. -/
structure FlushReqs (w : FlushWorld) : Prop where
  touched : w.touchedAfterReply = false
  used : w.usedAfterDelete = false
  counted : w.nFlushReq = w.reqs.countP (fun r => r.committed)
  live : ∀ r ∈ w.reqs, r.numReq = w.inflight.count r.id ∧
    (r.committed = true ∧ 0 < r.numReq ∨ r.committed = false ∧ r.numReq = 0 ∧ r.wait = none)
  ids : (w.reqs.map FlushReq.id).Nodup
  fresh : ∀ r ∈ w.reqs, r.id < w.nextId
  freshRows : ∀ i ∈ w.inflight, i < w.nextId

structure FlushInv (w : FlushWorld) : Prop where
  reqs : FlushReqs w
  tally : ∀ t, w.tally t = if t ∈ w.seen then 1 else 0

namespace FlushReqs

variable {w : FlushWorld}

theorem nodup_snoc (h : FlushReqs w) (r : FlushReq) (hr : r.id = w.nextId) :
    ((w.reqs ++ [r]).map FlushReq.id).Nodup := by
  rw [List.map_append, List.nodup_append]
  refine ⟨h.ids, by simp, ?_⟩
  rintro a ha b hb rfl
  obtain ⟨r', hr', rfl⟩ := List.mem_map.mp ha
  have hlt := h.fresh r' hr'
  simp only [List.map_cons, List.map_nil, List.mem_singleton] at hb
  omega

theorem addReq (h : FlushReqs w) {n : Nat} (hn : 0 < n) (wait : Option TaskId) : FlushReqs (w.addReq n wait) := by
  have hzero : w.inflight.count w.nextId = 0 := List.count_eq_zero.mpr (fun hm => Nat.lt_irrefl _ (h.freshRows _ hm))
  refine ⟨h.touched, h.used, ?_, fun r hr => ?_, h.nodup_snoc _ rfl, fun r hr => ?_, fun i hi => ?_⟩
  · simp [FlushWorld.addReq, h.counted, List.countP_append]
  · simp only [FlushWorld.addReq, List.mem_append, List.mem_singleton] at hr ⊢
    rw [List.count_append, List.count_replicate]
    rcases hr with hr | rfl
    · have hlt := h.fresh r hr
      rw [if_neg (by simp; omega)]
      exact h.live r hr
    · rw [if_pos (by simp), hzero]
      exact ⟨by simp, .inl ⟨rfl, by simpa using hn⟩⟩
  · simp only [FlushWorld.addReq, List.mem_append, List.mem_singleton] at hr ⊢
    rcases hr with hr | rfl
    · exact Nat.lt_succ_of_lt (h.fresh r hr)
    · exact Nat.lt_succ_self _
  · simp only [FlushWorld.addReq, List.mem_append] at hi ⊢
    rcases hi with hi | hi
    · exact Nat.lt_succ_of_lt (h.freshRows i hi)
    · rw [(List.mem_replicate.mp hi).2]
      exact Nat.lt_succ_self _

theorem skipId (h : FlushReqs w) : FlushReqs { w with nextId := w.nextId + 1 } :=
  ⟨h.touched, h.used, h.counted, h.live, h.ids, fun r hr => Nat.lt_succ_of_lt (h.fresh r hr),
    fun i hi => Nat.lt_succ_of_lt (h.freshRows i hi)⟩

theorem leak (h : FlushReqs w) :
    FlushReqs { w with nextId := w.nextId + 1, reqs := w.reqs ++ [⟨w.nextId, 0, none, false⟩] } := by
  have hzero : w.inflight.count w.nextId = 0 := List.count_eq_zero.mpr (fun hm => Nat.lt_irrefl _ (h.freshRows _ hm))
  refine ⟨h.touched, h.used, ?_, fun r hr => ?_, h.nodup_snoc _ rfl, fun r hr => ?_, fun i hi => ?_⟩
  · simp [h.counted, List.countP_append]
  · rcases List.mem_append.mp hr with hr | hr
    · exact h.live r hr
    · rw [List.mem_singleton.mp hr]
      exact ⟨by simp [hzero], .inr ⟨rfl, rfl, rfl⟩⟩
  · rcases List.mem_append.mp hr with hr | hr
    · exact Nat.lt_succ_of_lt (h.fresh r hr)
    · rw [List.mem_singleton.mp hr]
      exact Nat.lt_succ_self _
  · exact Nat.lt_succ_of_lt (h.freshRows i hi)

theorem arrive (h : FlushReqs w) (t : TaskId) : FlushReqs (w.arrive t) :=
  ⟨h.touched, h.used, h.counted, h.live, h.ids, h.fresh, h.freshRows⟩

theorem forward (h : FlushReqs w) (l : List TaskId) : FlushReqs { w with forwarded := l } :=
  ⟨h.touched, h.used, h.counted, h.live, h.ids, h.fresh, h.freshRows⟩

theorem replyNotify (h : FlushReqs w) {t : TaskId} (ht : t ∉ w.replied) : FlushReqs (w.replyNotify t) :=
  ⟨by simp [FlushWorld.replyNotify, FlushWorld.touch, h.touched, ht], h.used, h.counted, h.live, h.ids, h.fresh,
    h.freshRows⟩

theorem touch (h : FlushReqs w) {t : TaskId} (ht : t ∉ w.replied) : FlushReqs (w.touch t) :=
  ⟨by simp [FlushWorld.touch, h.touched, ht], h.used, h.counted, h.live, h.ids, h.fresh, h.freshRows⟩

end FlushReqs

theorem countP_remove (p : FlushReq → Bool) {r : FlushReq} : ∀ {l : List FlushReq}, (l.map FlushReq.id).Nodup → r ∈ l →
    l.countP p = (l.filter (fun r' => r'.id ≠ r.id)).countP p + if p r then 1 else 0
  | [], _, hr => by simp at hr
  | x :: l, hnd, hr => by
    simp only [List.map_cons, List.nodup_cons] at hnd
    rcases List.mem_cons.mp hr with rfl | hr
    · have hrest : l.filter (fun r' => decide (r'.id ≠ r.id)) = l := by
        rw [List.filter_eq_self]
        intro y hy
        have hne : y.id ≠ r.id := fun he => hnd.1 (he ▸ List.mem_map_of_mem hy)
        simpa using hne
      rw [List.filter_cons_of_neg (by simp), hrest, List.countP_cons]
    · have hne : x.id ≠ r.id := fun he => hnd.1 (he ▸ List.mem_map_of_mem hr)
      rw [List.filter_cons_of_pos (by simpa using hne), List.countP_cons, List.countP_cons,
        countP_remove p hnd.2 hr]
      omega

namespace FlushInv

variable {w : FlushWorld}

theorem not_replied_of_new (h : FlushInv w) {t : TaskId} (ht : t ∉ w.seen) :
    w.reqs.countP (fun r => r.wait = some t) = 0 ∧ w.forwarded.count t = 0 ∧ w.replied.count t = 0 := by
  have := h.tally t
  rw [if_neg ht] at this
  unfold FlushWorld.tally at this
  omega

theorem not_replied_of_wait (h : FlushInv w) {r : FlushReq} (hr : r ∈ w.reqs) {t : TaskId} (ht : r.wait = some t) :
    t ∉ w.replied := by
  have hpos : 0 < w.reqs.countP (fun r => decide (r.wait = some t)) :=
    List.countP_pos_iff.mpr ⟨r, hr, by simpa using ht⟩
  have htal := h.tally t
  unfold FlushWorld.tally at htal
  intro hmem
  have := List.count_pos_iff.mpr hmem
  split at htal <;> omega

theorem completeRow_more (h : FlushInv w) {r : FlushReq} (hr : r ∈ w.reqs) (hin : r.id ∈ w.inflight)
    (hmore : r.numReq - 1 ≠ 0) : FlushInv (w.completeRow r) := by
  unfold FlushWorld.completeRow
  rw [if_neg hmore]
  have hids : ∀ l : List FlushReq,
      (l.map (fun r' => if r'.id = r.id then { r' with numReq := r'.numReq - 1 } else r')).map FlushReq.id =
        l.map FlushReq.id := fun l => by
    rw [List.map_map]
    refine List.map_congr_left (fun x _ => ?_)
    simp only [Function.comp]
    split <;> rfl
  have hmem : ∀ x ∈ w.reqs.map (fun r' => if r'.id = r.id then { r' with numReq := r'.numReq - 1 } else r'),
      ∃ y ∈ w.reqs, x = if y.id = r.id then { y with numReq := y.numReq - 1 } else y := by
    intro x hx
    obtain ⟨y, hy, rfl⟩ := List.mem_map.mp hx
    exact ⟨y, hy, rfl⟩
  have hpos : 0 < w.inflight.count r.id := List.count_pos_iff.mpr hin
  refine ⟨⟨h.reqs.touched, h.reqs.used, ?_, fun x hx => ?_, ?_, fun x hx => ?_, fun i hi => ?_⟩, fun t => ?_⟩
  · rw [List.countP_map, h.reqs.counted]
    congr 1
    refine List.countP_congr (fun x _ => ?_)
    simp only [Function.comp]
    split <;> rfl
  · obtain ⟨y, hy, rfl⟩ := hmem x hx
    have hy' := h.reqs.live y hy
    split
    · rename_i hid
      have hyr : y = r := List.inj_on_of_nodup_map h.reqs.ids hy hr hid
      subst hyr
      simp only [List.count_erase_self]
      refine ⟨by omega, ?_⟩
      rcases hy'.2 with ⟨hc, hn⟩ | ⟨hc, hn, -⟩
      · exact .inl ⟨hc, by omega⟩
      · omega
    · rename_i hid
      rw [List.count_erase_of_ne hid]
      exact hy'
  · rw [hids]
    exact h.reqs.ids
  · obtain ⟨y, hy, rfl⟩ := hmem x hx
    have := h.reqs.fresh y hy
    split <;> exact this
  · exact h.reqs.freshRows i (List.mem_of_mem_erase hi)
  · have ht := h.tally t
    unfold FlushWorld.tally at ht ⊢
    refine Eq.trans ?_ ht
    rw [List.countP_map]
    congr 2
    refine List.countP_congr (fun x _ => ?_)
    simp only [Function.comp]
    split <;> rfl

theorem completeRow_last (h : FlushInv w) {r : FlushReq} (hr : r ∈ w.reqs) (hin : r.id ∈ w.inflight)
    (hlast : r.numReq - 1 = 0) : FlushInv (w.completeRow r) := by
  have hpos : 0 < w.inflight.count r.id := List.count_pos_iff.mpr hin
  have hlive := h.reqs.live r hr
  have hcom : r.committed = true := by
    rcases hlive.2 with ⟨hc, -⟩ | ⟨-, hn, -⟩
    · exact hc
    · omega
  have hcount := countP_remove (fun r => r.committed) h.reqs.ids hr
  rw [if_pos hcom] at hcount
  -- without its rows the list of requests is as it was
  have hbase : FlushReqs { w with
      inflight := w.inflight.erase r.id, reqs := w.reqs.filter (fun r' => r'.id ≠ r.id),
      nFlushReq := w.nFlushReq - 1 } := by
    refine ⟨h.reqs.touched, h.reqs.used, ?_, fun x hx => ?_, ?_, fun x hx => ?_, fun i hi => ?_⟩
    · have := h.reqs.counted
      dsimp only
      omega
    · obtain ⟨hx, hne⟩ := List.mem_filter.mp hx
      dsimp only
      rw [List.count_erase_of_ne (by simpa using hne)]
      exact h.reqs.live x hx
    · exact (List.Sublist.map _ List.filter_sublist).nodup h.reqs.ids
    · exact h.reqs.fresh x (List.mem_filter.mp hx).1
    · exact h.reqs.freshRows i (List.mem_of_mem_erase hi)
  unfold FlushWorld.completeRow FlushWorld.completeFlushRequest
  rw [if_pos hlast]
  cases hw : r.wait with
  | none =>
    refine ⟨hbase, fun t => ?_⟩
    have ht := h.tally t
    have hc := countP_remove (fun r => decide (r.wait = some t)) h.reqs.ids hr
    rw [if_neg (by simp [hw])] at hc
    unfold FlushWorld.tally at ht ⊢
    simp only [FlushWorld.replyWait] at ht ⊢
    refine Eq.trans ?_ ht
    rw [hc, Nat.add_zero]
  | some t₀ =>
    have hnot := h.not_replied_of_wait hr hw
    refine ⟨?_, fun t => ?_⟩
    · have hrep := hbase.replyNotify (t := t₀) hnot
      exact ⟨hrep.touched, hrep.used, hrep.counted, hrep.live, hrep.ids, hrep.fresh, hrep.freshRows⟩
    · have ht := h.tally t
      have hc := countP_remove (fun r => decide (r.wait = some t)) h.reqs.ids hr
      unfold FlushWorld.tally at ht ⊢
      simp only [FlushWorld.replyWait, FlushWorld.replyNotify, FlushWorld.touch, List.count_append] at ht ⊢
      refine Eq.trans ?_ ht
      rw [hc]
      by_cases htt : t = t₀
      · subst htt
        rw [if_pos (by simp [hw])]
        simp only [List.count_singleton_self]
        omega
      · have hne : ¬ (some t₀ = some t) := fun he => htt (Option.some.inj he).symm
        rw [if_neg (by simp [hw, hne]), List.count_singleton, if_neg (by simpa using Ne.symm htt)]
        omega

theorem dbReply (h : FlushInv w) {t : TaskId} (ht : t ∈ w.forwarded) :
    FlushInv { w.replyNotify t with forwarded := w.forwarded.erase t } := by
  have hpos : 0 < w.forwarded.count t := List.count_pos_iff.mpr ht
  have hnot : t ∉ w.replied := fun hmem => by
    have h1 := List.count_pos_iff.mpr hmem
    have h2 := h.tally t
    unfold FlushWorld.tally at h2
    split at h2 <;> omega
  refine ⟨(h.reqs.replyNotify hnot).forward _, fun x => ?_⟩
  have hx := h.tally x
  unfold FlushWorld.tally at hx ⊢
  simp only [FlushWorld.replyNotify, FlushWorld.touch, List.count_append] at hx ⊢
  refine Eq.trans ?_ hx
  by_cases hxt : x = t
  · subst hxt
    rw [List.count_erase_self, List.count_singleton_self]
    omega
  · rw [List.count_erase_of_ne hxt, List.count_singleton, if_neg (by simpa using Ne.symm hxt), Nat.add_zero]

theorem arrive (h : FlushInv w) {t : TaskId} (ht : t ∉ w.seen) {w' : FlushWorld} (hreqs : FlushReqs w')
    (hseen : w'.seen = w.seen ++ [t]) (htal : ∀ x, w'.tally x = w.tally x + if x = t then 1 else 0) :
    FlushInv w' := by
  refine ⟨hreqs, fun x => ?_⟩
  rw [htal, h.tally, hseen]
  by_cases hx : x = t
  · subst hx
    simp [ht]
  · simp [hx]

end FlushInv

namespace FlushWorld

variable (w : FlushWorld) (x : TaskId)

theorem tally_addReq (n : Nat) (wait : Option TaskId) :
    (w.addReq n wait).tally x = w.tally x + if wait = some x then 1 else 0 := by
  simp only [tally, addReq, List.countP_append, List.countP_singleton, decide_eq_true_eq]
  omega

theorem tally_replyNotify (t : TaskId) : (w.replyNotify t).tally x = w.tally x + if x = t then 1 else 0 := by
  simp only [tally, replyNotify, touch, List.count_append, List.count_singleton, beq_iff_eq]
  by_cases h : x = t
  · rw [if_pos h, if_pos h.symm]
    omega
  · rw [if_neg h, if_neg (Ne.symm h)]
    omega

theorem tally_forward (t : TaskId) :
    { w with forwarded := w.forwarded ++ [t] : FlushWorld }.tally x = w.tally x + if x = t then 1 else 0 := by
  simp only [tally, List.count_append, List.count_singleton, beq_iff_eq]
  by_cases h : x = t
  · rw [if_pos h, if_pos h.symm]
    omega
  · rw [if_neg h, if_neg (Ne.symm h)]
    omega

theorem tally_leak (r : FlushReq) (hr : r.wait = none) (n : Nat) :
    { w with nextId := n, reqs := w.reqs ++ [r] : FlushWorld }.tally x = w.tally x := by
  simp [tally, List.countP_append, hr]

end FlushWorld

namespace FlushInv

variable {w : FlushWorld} {t : TaskId}

theorem replied (h : FlushInv w) (ht : t ∉ w.seen) : FlushInv (FlushWorld.taskNotify (w.arrive t, .ok) t) := by
  have hnot : t ∉ w.replied := List.count_eq_zero.mp (h.not_replied_of_new ht).2.2
  exact h.arrive ht ((h.reqs.arrive t).replyNotify hnot) rfl (fun x => (w.arrive t).tally_replyNotify x t)

theorem cacheFlushData (h : FlushInv w) (ht : t ∉ w.seen) {node : FlushNode}
    (hok : node.queued = true ∧ node.sound = true ∧ 0 < node.flushable) :
    FlushInv (FlushWorld.taskNotify ((w.arrive t).cacheFlushData t node) t) := by
  obtain ⟨hq, hs, hk⟩ := hok
  have hsub : 0 < node.subTasks := by
    have := FlushNode.subTasks_eq_zero_iff hq
    omega
  rw [cacheFlushData_sound _ t hq hs hk]
  refine h.arrive ht ((h.reqs.arrive t).addReq hsub (some t)) rfl (fun x => ?_)
  show ((w.arrive t).addReq node.subTasks (some t)).tally x = _
  rw [FlushWorld.tally_addReq]
  by_cases hx : x = t
  · rw [if_pos hx, if_pos (by rw [hx])]
    rfl
  · rw [if_neg hx, if_neg (fun he => hx (Option.some.inj he).symm)]
    rfl

theorem flushed (h : FlushReqs w) (n : Nat) : FlushReqs (if n = 0 then { w with nextId := w.nextId + 1 } else
    w.addReq n none) := by
  by_cases hn : n = 0
  · rw [if_pos hn]
    exact h.skipId
  · rw [if_neg hn]
    exact h.addReq (Nat.pos_of_ne_zero hn) none

theorem tally_flushed (n : Nat) (x : TaskId) : (if n = 0 then { w with nextId := w.nextId + 1 } else
    w.addReq n none).tally x = w.tally x := by
  by_cases hn : n = 0
  · rw [if_pos hn]
    rfl
  · rw [if_neg hn, FlushWorld.tally_addReq]
    rfl

theorem deleteRequest (h : FlushInv w) (ht : t ∉ w.seen) : ∀ {node : Option FlushNode},
    FlushStepOk w (.delete t node) → FlushInv (FlushWorld.taskNotify ((w.arrive t).deleteRequest node) t)
  | none, _ =>
    h.arrive ht ((h.reqs.arrive t).forward _) rfl (fun x => (w.arrive t).tally_forward x t)
  | some node, ⟨hq, hok⟩ => by
    by_cases hs : node.sound = true
    · rw [deleteRequest_sound _ hq hs]
      refine h.arrive ht ((flushed (h.reqs.arrive t) node.subTasks).forward _) ?_ (fun x => ?_)
      · simp only [FlushWorld.taskNotify]
        split <;> rfl
      · simp only [FlushWorld.taskNotify]
        rw [FlushWorld.tally_forward, tally_flushed]
        rfl
    · -- the error reply; the flush request is left behind, with nothing on its way
      have hk : node.flushable = 0 := hok.resolve_left hs
      have hnot : t ∉ w.replied := List.count_eq_zero.mp (h.not_replied_of_new ht).2.2
      rw [deleteRequest_unsound _ hq (by simpa using hs) hk]
      refine h.arrive ht (((h.reqs.arrive t).leak.touch hnot).replyNotify hnot) rfl (fun x => ?_)
      simp only [FlushWorld.taskNotify]
      rw [FlushWorld.tally_replyNotify]
      congr 1
      exact (w.arrive t).tally_leak x _ rfl (w.nextId + 1)

end FlushInv

theorem flushInv_step : ∀ (w : FlushWorld) (a : FlushAction) (w' : FlushWorld), FlushInv w → FlushStepOk w a →
    flushMachine.step w a = some w' → FlushInv w'
  | w, .flush t node, w', h, hok, hst => by
    simp only [flushMachine, FlushWorld.step] at hst
    split at hst
    · cases hst
    · rename_i ht
      obtain rfl := Option.some.inj hst
      cases node with
      | none => exact h.replied ht
      | some node => exact h.cacheFlushData ht hok
  | w, .purge updateMode t node, w', h, hok, hst => by
    simp only [flushMachine, FlushWorld.step] at hst
    split at hst
    · cases hst
    · rename_i ht
      obtain rfl := Option.some.inj hst
      cases node with
      | none => exact h.replied ht
      | some node =>
        unfold FlushWorld.purgeRequest
        cases updateMode with
        | false => exact h.replied ht
        | true => exact h.cacheFlushData ht (hok rfl)
  | w, .delete t node, w', h, hok, hst => by
    simp only [flushMachine, FlushWorld.step] at hst
    split at hst
    · cases hst
    · rename_i ht
      obtain rfl := Option.some.inj hst
      exact h.deleteRequest ht hok
  | w, .timer node count, w', h, hok, hst => by
    simp only [flushMachine, FlushWorld.step] at hst
    obtain rfl := Option.some.inj hst
    rw [timerFlush_queued w hok]
    refine ⟨FlushInv.flushed h.reqs _, fun x => ?_⟩
    have hseen : (if node.subTasks = 0 then { w with nextId := w.nextId + 1 } else
        w.addReq node.subTasks none).seen = w.seen := by
      split <;> rfl
    rw [FlushInv.tally_flushed, h.tally, hseen]
  | w, .completeRow id, w', h, _, hst => by
    simp only [flushMachine, FlushWorld.step] at hst
    split at hst
    · rename_i hin
      obtain ⟨r, hfind, rfl⟩ := Option.map_eq_some_iff.mp hst
      have hr : r ∈ w.reqs := List.mem_of_find?_eq_some hfind
      have hid : r.id = id := by simpa using List.find?_some hfind
      subst hid
      by_cases hlast : r.numReq - 1 = 0
      · exact h.completeRow_last hr hin hlast
      · exact h.completeRow_more hr hin hlast
    · cases hst
  | w, .dbReply t, w', h, _, hst => by
    simp only [flushMachine, FlushWorld.step] at hst
    split at hst
    · rename_i ht
      obtain rfl := Option.some.inj hst
      exact h.dbReply ht
    · cases hst

theorem FlushInv.once {w : FlushWorld} (h : FlushInv w) : FlushOnce w := by
  have hle : ∀ t, w.tally t ≤ 1 := fun t => by
    rw [h.tally]
    split <;> omega
  have hpend : ∀ r ∈ w.reqs, r.wait ≠ none → r.id ∈ w.inflight := fun r hr hw => by
    obtain ⟨hn, hc⟩ := h.reqs.live r hr
    rcases hc with ⟨-, hpos⟩ | ⟨-, -, hnone⟩
    · exact List.count_pos_iff.mp (by omega)
    · exact absurd hnone hw
  refine ⟨fun t => ?_, h.reqs.touched, h.reqs.used, fun t ht => ?_, hpend, h.reqs.counted, fun hin hfw t ht => ?_⟩
  · have := hle t
    unfold FlushWorld.tally at this
    omega
  · rw [h.tally, if_pos ht]
  · -- no sub-task is on its way, so nobody waits in a flush request
    have hzero : w.reqs.countP (fun r => decide (r.wait = some t)) = 0 := by
      rw [List.countP_eq_zero]
      intro r hr hw
      have hmem := hpend r hr (by rw [decide_eq_true_eq] at hw; rw [hw]; exact Option.some_ne_none t)
      rw [hin] at hmem
      cases hmem
    have htal := h.tally t
    rw [if_pos ht] at htal
    unfold FlushWorld.tally at htal
    rw [hzero, hfw] at htal
    simpa using htal

/-- **A flushed request is replied once**: in every run whose nodes are fit to be flushed, whatever the order in which the
sub-tasks and the deletes come back. -/
theorem flushMachine_once {w : FlushWorld} (h : flushMachine.ReachableMeeting FlushStepOk w) : FlushOnce w := by
  refine (flushMachine.reachableMeeting_induct ?_ flushInv_step h).once
  rintro s rfl
  refine ⟨⟨rfl, rfl, rfl, ?_, List.nodup_nil, ?_, ?_⟩, fun t => rfl⟩
  · intro r hr
    cases hr
  · intro r hr
    cases hr
  · intro i hi
    cases hi

/-- A purge waits for two rows, one of which completes inside its push; a delete is on its way meanwhile. -/
def purgeThenDelete : List FlushAction :=
  [.purge true 7 (some ⟨true, [.dirty false, .clean, .dirty true]⟩), .delete 8 (some ⟨true, [.dirty false]⟩),
    .completeRow 0, .dbReply 8]

theorem flushMachine_once_purge :
    ∃ w, flushMachine.run {} purgeThenDelete = some w ∧ w.replied = [7, 8] ∧ FlushOnce w := by
  refine ⟨_, rfl, by decide, flushMachine_once ⟨{}, purgeThenDelete, rfl, ?_, rfl⟩⟩
  refine ⟨fun _ => ⟨rfl, rfl, by decide⟩, fun s₁ _ => ⟨⟨rfl, .inl rfl⟩, fun s₂ _ => ⟨trivial, fun s₃ _ => ?_⟩⟩⟩
  exact ⟨trivial, fun s₄ _ => trivial⟩

/-- A flush of a node without a dirty row: `CommitFlushRequest` deletes the request, whose destructor replies, and then
`TaskNotify` replies. -/
theorem flushNothing_repliedTwice :
    ∃ w, flushMachine.run {} [.flush 0 (some ⟨true, [.clean]⟩)] = some w ∧ w.replied = [0, 0] ∧
      w.touchedAfterReply = true ∧ ¬ FlushOnce w :=
  ⟨_, rfl, by decide, by decide, fun h => absurd h.untouched (by decide)⟩

end Dtc
