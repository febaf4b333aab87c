import DtcServer.Protocol
import Mathlib
/-!
# HelperPool — the helpers of a database (`CHelperGroup`, `CHelperClient`)

A group has connections to helper processes and a queue of tasks; a task goes to a free helper, to the fallback group or
into the queue, and back to its sender when the helper has answered or is lost.  The poller calls one handler at a time,
but a reply runs the sender's code, which may give the groups new tasks before it returns.  So a handler that replies is
cut there: the rest of it waits in `cont` or on the `stack` of calls until the callback returns.
-/
namespace Dtc

/-- `CHelperState` -/
inductive HelperStage where
  | disconnected | connecting | idle | recvRep | sendReq | sendVerify | recvVerify
  deriving DecidableEq, Repr

/-- What `task` points to: a task of the group, or the client's own one for the detection of the peer. -/
inductive HelperTask where
  | request (t : Nat)
  | verify
  deriving DecidableEq, Repr

structure CHelperClient where
  stage : HelperStage := .disconnected
  task : Option HelperTask := none
  ready : Bool := true
  connectErrorCnt : Nat := 0
  deriving DecidableEq, Repr

abbrev maxTryConnect : Nat := 10

/-- `CHelperGroup`: `freeHelper` is the list of free helpers, by their index. -/
structure CHelperGroup where
  queue : List Nat := []
  queueSize : Nat
  helperMax : Nat
  readyHelperCnt : Nat
  helperList : Nat → CHelperClient := fun _ => {}
  freeHelper : List Nat := []

namespace CHelperGroup

variable (G : CHelperGroup)

def setHelper (h : Nat) (c : CHelperClient) : CHelperGroup := { G with helperList := Function.update G.helperList h c }

/-- `HasFreeHelper`, as it is written. -/
def hasFreeHelper : Bool := G.queue.isEmpty && G.freeHelper.isEmpty

def addReadyHelper : CHelperGroup :=
  if G.readyHelperCnt < G.helperMax then { G with readyHelperCnt := G.readyHelperCnt + 1 } else G

def decReadyHelper : CHelperGroup :=
  if 0 < G.readyHelperCnt then { G with readyHelperCnt := G.readyHelperCnt - 1 } else G

def requestCompleted (h : Nat) : CHelperGroup :=
  if h ∈ G.freeHelper then G else { G with freeHelper := h :: G.freeHelper }

def connectionReset (h : Nat) : CHelperGroup := { G with freeHelper := G.freeHelper.filter (fun x => x != h) }

def ready (h : Nat) : CHelperGroup :=
  let G' := if (G.helperList h).ready then G else G.addReadyHelper
  G'.setHelper h { G.helperList h with ready := true, connectErrorCnt := 0 }

def connectError (h : Nat) : CHelperGroup :=
  let c := { G.helperList h with connectErrorCnt := (G.helperList h).connectErrorCnt + 1 }
  if maxTryConnect < c.connectErrorCnt ∧ c.ready = true then G.decReadyHelper.setHelper h { c with ready := false }
  else G.setHelper h c

def sendVerify (h : Nat) (sent : Bool) : CHelperGroup :=
  if sent then G.setHelper h { G.helperList h with stage := .recvVerify, task := some .verify }
  else G.setHelper h { G.helperList h with stage := .sendVerify }

/-- How an attempt to connect ends. -/
inductive ConnectResult where
  | connected (attached sent : Bool)
  | inProgress
  | failed
  deriving DecidableEq, Repr

/-- The part of `Reconnect` behind `Reset`. -/
def connectServer (h : Nat) : ConnectResult → CHelperGroup
  | .connected attached sent => if attached then G.sendVerify h sent else G
  | .inProgress => G.setHelper h { G.helperList h with stage := .connecting }
  | .failed => G

/-- The part of `Reset` behind the task. -/
def resetRest (h : Nat) : CHelperGroup :=
  let G' := if (G.helperList h).stage = .idle then G.connectionReset h else G
  G'.setHelper h { G.helperList h with stage := .disconnected, task := none }

end CHelperGroup

open CHelperGroup (ConnectResult)

/-- A call that is not finished: the sender's callback, `FlushTask`, or the part of `TaskNotify` behind `FlushTask`. -/
inductive PoolCall (ι : Type) where
  | callback
  | flushTask (g : ι)
  | taskNotify (g : ι) (t : Nat)
  deriving DecidableEq, Repr

/-- The rest of a helper's handler behind a reply: of `RecvResponse`, of `Reset` (followed by the rest of `Reconnect` or
not), and of `OutputNotify` when a task could not be queued back. -/
inductive HelperCont where
  | recvResponse (decoded : Bool)
  | reset (reconnect : Bool)
  | queueBackTask
  deriving DecidableEq, Repr

/-- The groups with their fallbacks, the calls that are going on, and what happened so far: the tasks given and replied.
`wild` is set when `ProcessTask` takes a helper from an empty list. -/
structure HelperPool (ι : Type) where
  groups : ι → CHelperGroup
  fallback : ι → Option ι
  stack : List (PoolCall ι) := []
  cont : Option (ι × Nat × HelperCont) := none
  given : List Nat := []
  replied : List Nat := []
  wild : Bool := false

/-- What the code asks of its surroundings in a call: the clock, the encoder, the socket and the allocator. -/
structure CallOracle where
  expired : Bool := false
  encodes : Bool := true
  sent : Bool := true
  slow : Bool := false
  alloc : Bool := true

/-- How the decoder or the socket ends in a helper's handler. -/
inductive HelperDecode where
  | fatalError | dataError | waitData | done (verified : Bool)
  deriving DecidableEq, Repr

namespace HelperPool

variable {ι : Type} [DecidableEq ι] (s : HelperPool ι)

def setGroup (g : ι) (G : CHelperGroup) : HelperPool ι := { s with groups := Function.update s.groups g G }

/-- `ReplyNotify`: the sender's code runs. -/
def reply (t : Nat) : HelperPool ι := { s with replied := s.replied ++ [t], stack := .callback :: s.stack }

/-- `ProcessTask` with `AttachTask` -/
def processTask (g : ι) (t : Nat) (o : CallOracle) : HelperPool ι :=
  let G := s.groups g
  match G.freeHelper with
  | [] => { s with wild := true }
  | h :: rest =>
    if o.encodes then
      let c := { G.helperList h with stage := if o.sent then .recvRep else .sendReq, task := some (.request t) }
      s.setGroup g { G.setHelper h c with freeHelper := rest }
    else s.reply t

def usesFallback (g : ι) : Option ι :=
  match s.fallback g with
  | some f => if (s.groups f).hasFreeHelper then some f else none
  | none => none

/-- One round of the loop in `FlushTask`. -/
def flushTask (g : ι) (rest : List (PoolCall ι)) (o : CallOracle) : HelperPool ι :=
  let G := s.groups g
  match G.queue with
  | [] => { s with stack := rest }
  | t :: queue =>
    let popped := s.setGroup g { G with queue := queue }
    if G.readyHelperCnt = 0 then popped.reply t
    else if o.expired then popped.reply t
    else if G.freeHelper ≠ [] then popped.processTask g t o
    else
      match s.usesFallback g with
      | some f => popped.processTask f t o
      | none => { s with stack := rest }

/-- `AcceptNewRequestFail`; the delays are the oracle's. -/
def acceptNewRequestFail (G : CHelperGroup) (slow : Bool) : Bool := decide (G.helperMax < G.queue.length) && slow

/-- The part of `TaskNotify` behind `FlushTask`. -/
def taskNotify (g : ι) (t : Nat) (rest : List (PoolCall ι)) (o : CallOracle) : HelperPool ι :=
  let G := s.groups g
  let s := { s with stack := rest }
  if G.readyHelperCnt = 0 then s.reply t
  else if o.expired then s.reply t
  else if G.freeHelper ≠ [] then s.processTask g t o
  else
    match s.usesFallback g with
    | some f => s.processTask f t o
    | none =>
      if acceptNewRequestFail G o.slow then s.reply t
      else if G.queue.length < G.queueSize then
        if o.alloc then s.setGroup g { G with queue := G.queue ++ [t] } else s
      else s.reply t

/-- `Reset`, and the rest of `Reconnect` if it was called there. -/
def reset (g : ι) (h : Nat) (reconnect : Option ConnectResult) : HelperPool ι :=
  let G := s.groups g
  let finish := match reconnect with
    | some r => s.setGroup g ((G.resetRest h).connectServer h r)
    | none => s.setGroup g (G.resetRest h)
  match (G.helperList h).stage, (G.helperList h).task with
  | .sendVerify, _ | .recvVerify, _ => finish
  | _, some (.request t) => { s.reply t with cont := some (g, h, .reset reconnect.isSome) }
  | _, _ => finish

def reconnect (g : ι) (h : Nat) (r : ConnectResult) : HelperPool ι :=
  let s := s.setGroup g ((s.groups g).connectError h)
  let G := s.groups g
  if (G.helperList h).stage = .disconnected then s.setGroup g (G.connectServer h r) else s.reset g h (some r)

/-- `InputNotify` with `RecvVerify` and the beginning of `RecvResponse`; `applied` is the result of `DelayApplyEvents`. -/
def inputNotify (g : ι) (h : Nat) (d : HelperDecode) (applied : Bool) (r : ConnectResult) : HelperPool ι :=
  let G := s.groups g
  let c := G.helperList h
  match c.stage with
  | .recvVerify =>
    match d with
    | .waitData => s
    | .done true =>
      let G' := (G.setHelper h { c with task := none }).ready h
      let s' := s.setGroup g ((G'.setHelper h { G'.helperList h with stage := .idle }).requestCompleted h)
      if applied then s' else s'.reconnect g h r
    | _ => s.reset g h none
  | .recvRep =>
    match d, c.task with
    | .waitData, _ => s
    | d, some (.request t) => { s.reply t with cont := some (g, h, .recvResponse (match d with | .done _ => true | _ => false)) }
    | _, _ => s
  | .idle => s.reset g h none
  | _ => s

/-- `OutputNotify` with `SendVerify` and `SendRequest`. -/
def outputNotify (g : ι) (h : Nat) (sent : SendResult) (applied alloc : Bool) (r : ConnectResult) : HelperPool ι :=
  let G := s.groups g
  let c := G.helperList h
  match c.stage with
  | .sendVerify =>
    let s' := s.setGroup g (G.sendVerify h (sent == .done))
    if applied then s' else s'.reconnect g h r
  | .sendReq =>
    match sent, c.task with
    | .moreData, _ => s
    | .done, _ => s.setGroup g (G.setHelper h { c with stage := .recvRep })
    | .error, some (.request t) =>
      -- `QueueBackTask`
      if alloc then
        (s.setGroup g { G.setHelper h { c with task := none } with queue := t :: G.queue }).reconnect g h r
      else { s.reply t with cont := some (g, h, .queueBackTask) }
    | .error, _ => s
  | .connecting => s.setGroup g (G.sendVerify h (sent == .done))
  | _ => s

def timerNotify (g : ι) (h : Nat) (r : ConnectResult) : HelperPool ι :=
  let G := s.groups g
  match (G.helperList h).stage with
  | .recvRep | .sendReq | .disconnected => s.reconnect g h r
  | .connecting => s.reset g h none
  | .sendVerify | .recvVerify =>
    (s.setGroup g (G.setHelper h { G.helperList h with task := none })).reconnect g h r
  | .idle => s

def finish (g : ι) (h : Nat) (k : HelperCont) (r : ConnectResult) : HelperPool ι :=
  let s := { s with cont := none }
  let G := s.groups g
  let released := G.setHelper h { G.helperList h with task := none }
  match k with
  | .recvResponse decoded =>
    let s' := s.setGroup g ((released.setHelper h { released.helperList h with stage := .idle }).requestCompleted h)
    if decoded then s' else s'.reconnect g h r
  | .reset reconnect =>
    let G' := released.resetRest h
    s.setGroup g (if reconnect then G'.connectServer h r else G')
  | .queueBackTask => (s.setGroup g released).reconnect g h r

end HelperPool

/-- What may happen next: a task is given to a group, from outside or in a callback; a callback returns; the innermost
call, or the handler that waits, goes on; and in the poller's loop a timer of a group or an event of a helper. -/
inductive PoolAct (ι : Type) where
  | arrive (g : ι) (t : Nat)
  | callbackReturns
  | go (o : CallOracle)
  | finish (r : ConnectResult)
  | groupTimer (g : ι)
  | input (g : ι) (h : Nat) (d : HelperDecode) (applied : Bool) (r : ConnectResult)
  | output (g : ι) (h : Nat) (sent : SendResult) (applied alloc : Bool) (r : ConnectResult)
  | hangup (g : ι) (h : Nat)
  | timer (g : ι) (h : Nat) (r : ConnectResult)

namespace HelperPool

variable {ι : Type} [DecidableEq ι] (s : HelperPool ι)

def atRest : Bool := s.stack.isEmpty && s.cont.isNone

def step : PoolAct ι → Option (HelperPool ι)
  | .arrive g t =>
    if s.wild = false ∧ (s.atRest = true ∨ s.stack.head? = some .callback) ∧ t ∉ s.given then
      some { s with stack := .flushTask g :: .taskNotify g t :: s.stack, given := t :: s.given }
    else none
  | .callbackReturns =>
    match s.stack with
    | .callback :: rest => some { s with stack := rest }
    | _ => none
  | .go o =>
    if s.wild then none
    else
      match s.stack with
      | .flushTask g :: rest => some (s.flushTask g rest o)
      | .taskNotify g t :: rest => some (s.taskNotify g t rest o)
      | _ => none
  | .finish r =>
    match s.stack, s.cont with
    | [], some (g, h, k) => some (s.finish g h k r)
    | _, _ => none
  | .groupTimer g => if s.wild = false ∧ s.atRest = true then some { s with stack := [.flushTask g] } else none
  | .input g h d applied r =>
    if s.wild = false ∧ s.atRest = true ∧ h < (s.groups g).helperMax then some (s.inputNotify g h d applied r) else none
  | .output g h sent applied alloc r =>
    if s.wild = false ∧ s.atRest = true ∧ h < (s.groups g).helperMax then some (s.outputNotify g h sent applied alloc r)
    else none
  | .hangup g h =>
    if s.wild = false ∧ s.atRest = true ∧ h < (s.groups g).helperMax then some (s.reset g h none) else none
  | .timer g h r =>
    if s.wild = false ∧ s.atRest = true ∧ h < (s.groups g).helperMax then some (s.timerNotify g h r) else none

/-- The groups as `Attach` makes them, before the first attempt to connect: every helper counts as ready. -/
def Attached (s : HelperPool ι) : Prop :=
  ∃ (helperMax queueSize : ι → Nat) (fallback : ι → Option ι),
    s = { groups := fun g => { queueSize := queueSize g, helperMax := helperMax g, readyHelperCnt := helperMax g }
          fallback := fallback }

end HelperPool

def helperMachine (ι : Type) [DecidableEq ι] : Machine (HelperPool ι) (PoolAct ι) where
  start := HelperPool.Attached
  step := HelperPool.step

end Dtc
