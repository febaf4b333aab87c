import DtcServer.Protocol
import DtcServer.Chains
/-!
# ClientResource — connections and their pooled tasks (`CClientResourcePool`, `CClientSync`)

A synchronous connection takes a slot with a task and a packet from the pool of its decoder unit and gives it back when
it is deleted.  A connection that is deleted while its task is being processed leaves the slot to the task; the reply
gives it back then.  The poller calls one handler at a time.  Nothing behind `owner->TaskDispatcher(task)` touches the
slots, so a reply that comes inside the call is the next step of the run.
-/
namespace Dtc

/-- The members of a pooled `CTaskRequest` that say who frees its slot. -/
structure PooledTask where
  ownerInfo : Option Nat := none
  resourceId : Nat := 0
  resourceSeq : Nat := 0
  deriving DecidableEq, Repr

structure CClientResourceSlot where
  freenext : Nat := 0
  freeprev : Nat := 0
  task : PooledTask := {}
  seq : Nat := 0
  deriving DecidableEq, Repr

/-- The counters are `unsigned int`. -/
structure CClientResourcePool where
  total : Nat
  used : Nat
  freehead : Nat
  freetail : Nat
  taskslot : Nat → CClientResourceSlot

/-- `n - 1` of an `unsigned int` -/
def pred32 (n : Nat) : Nat := if n = 0 then 2 ^ 32 - 1 else n - 1

namespace CClientResourcePool

variable (p : CClientResourcePool)

def setSlot (id : Nat) (s : CClientResourceSlot) : CClientResourcePool :=
  { p with taskslot := Function.update p.taskslot id s }

def setFreenext (id n : Nat) : CClientResourcePool := p.setSlot id { p.taskslot id with freenext := n }

def setFreeprev (id n : Nat) : CClientResourcePool := p.setSlot id { p.taskslot id with freeprev := n }

def setTask (id : Nat) (t : PooledTask) : CClientResourcePool := p.setSlot id { p.taskslot id with task := t }

/-- The slots `first .. last` as `Init` and `Enlarge` fill them: linked in a row, each with a new task and packet. -/
def linkSlots (first last : Nat) : CClientResourcePool :=
  { p with
    taskslot := fun i =>
      if first ≤ i ∧ i ≤ last then
        { freenext := if i = last then 0 else i + 1
          freeprev := if i = first then 0 else i - 1 }
      else p.taskslot i }

/-- `Init`; the array comes zeroed. -/
def init : CClientResourcePool :=
  linkSlots { total := 256, used := 1, freehead := 1, freetail := 255, taskslot := fun _ => {} } 1 255

/-- `Enlarge`: the allocator may refuse, and does when there is no `room` for so many slots. -/
def enlarge (room : Nat) (grant : Bool) : Option CClientResourcePool :=
  if grant = true ∧ 2 * p.total ≤ room then
    let total := p.total * 2 % 2 ^ 32
    let last := pred32 total
    some (linkSlots { p with total := total, freehead := p.total, freetail := last } p.total last)
  else none

/-- `Alloc`, from a list that is not empty. -/
def pop : CClientResourcePool × Nat × Nat :=
  let id := p.freehead
  let head := (p.taskslot id).freenext
  let tail := if head = 0 then 0 else p.freetail
  let p := { p with used := (p.used + 1) % 2 ^ 32, freehead := head, freetail := tail }
  let p := p.setFreenext id 0
  let p := if tail ≠ 0 then p.setFreeprev head 0 else p
  let seq := ((p.taskslot id).seq + 1) % 2 ^ 32
  (p.setSlot id { p.taskslot id with seq := seq }, id, seq)

def alloc (room : Nat) (grant : Bool) : Option (CClientResourcePool × Nat × Nat) :=
  if p.freehead = 0 then (p.enlarge room grant).map pop else some p.pop

/-- What `CTaskRequest::Clean` does to the owner; the members `resourceId` and `resourceSeq` stay. -/
def clean (id : Nat) : CClientResourcePool := p.setTask id { (p.taskslot id).task with ownerInfo := none }

/-- `Free`, with whether the slot was freed. -/
def free (id seq : Nat) : CClientResourcePool × Bool :=
  if (p.taskslot id).seq ≠ seq then (p, false)
  else
    let p := { p with used := pred32 p.used }
    let p := p.setFreeprev p.freehead id
    let p := p.setFreenext id p.freehead
    ({ p with freehead := id, freetail := if p.freetail = 0 then id else p.freetail }, true)

def ptr (i : Nat) : Option Nat := if i = 0 then none else some i

def next (i : Nat) : Option Nat := ptr (p.taskslot i).freenext

def freeList : List Nat := Chains.follow p.next p.total (ptr p.freehead)

end CClientResourcePool

inductive ClientState where
  | idle | recvReq | sendRep | procReq
  deriving DecidableEq, Repr

structure CClientSync where
  resourceId : Nat
  resourceSeq : Nat
  rscClean : Bool := true
  stage : ClientState := .idle
  deriving DecidableEq, Repr

/-- What happens to the content of a slot. -/
inductive SlotAct where
  | alloc | fill | dispatch | reply | clean | free
  deriving DecidableEq, Repr

/-- A decoder unit: its pool, its connections (`live`, by their address), the tasks that were dispatched and not yet
replied (by their slot), and what happened to the slots so far, the last first. -/
structure ClientUnit where
  pool : CClientResourcePool
  live : List Nat := []
  client : Nat → CClientSync := fun _ => ⟨0, 0, true, .idle⟩
  inflight : List Nat := []
  history : List (Nat × SlotAct) := []

/-- What `CTask::Decode` returns; a decoded request says whether `PrepareProcess` succeeds. -/
inductive ClientDecode where
  | fatalError | dataError | idle | waitData | done (prepared : Bool)
  deriving DecidableEq, Repr

/-- What an input event brings: the end of the decoder, of the socket, and of `CheckLinkStatus`. -/
structure InputEvent where
  decode : ClientDecode := .idle
  send : SendResult := .done
  closed : Bool := false
  deriving DecidableEq, Repr

namespace ClientUnit

variable (s : ClientUnit)

def note (id : Nat) (a : SlotAct) : ClientUnit := { s with history := (id, a) :: s.history }

def setClient (c : Nat) (x : CClientSync) : ClientUnit := { s with client := Function.update s.client c x }

def cleanResource (id : Nat) : ClientUnit := { s with pool := s.pool.clean id }.note id .clean

def unregistResource (id seq : Nat) : ClientUnit :=
  let (p, freed) := s.pool.free id seq
  if freed then { s with pool := p }.note id .free else { s with pool := p }

/-- `~CClientSync` -/
def delete (c : Nat) : ClientUnit :=
  let x := s.client c
  let s := { s with live := s.live.erase c }
  if x.stage = .procReq then
    { s with pool := s.pool.setTask x.resourceId ⟨none, x.resourceId, x.resourceSeq⟩ }
  else (s.cleanResource x.resourceId).unregistResource x.resourceId x.resourceSeq

/-- `Response`; false is its -1. -/
def response (c : Nat) : SendResult → ClientUnit × Bool
  | .moreData => (s, true)
  | .done =>
    ((s.cleanResource (s.client c).resourceId).setClient c { s.client c with rscClean := true, stage := .idle }, true)
  | .error => (s, false)

def sendResult (c : Nat) (r : SendResult) : ClientUnit × Bool :=
  ((s.setClient c { s.client c with stage := .sendRep }).note (s.client c).resourceId .fill).response c r

/-- The task of a decoded request on its way to `TaskDispatcher`. -/
def dispatch (c : Nat) : ClientUnit :=
  let x := s.client c
  let s := { s with pool := s.pool.setTask x.resourceId { (s.pool.taskslot x.resourceId).task with ownerInfo := some c } }
  let s := s.setClient c { x with stage := .procReq }
  { s with inflight := s.inflight ++ [x.resourceId] }.note x.resourceId .dispatch

/-- `RecvRequest`; false is its -1. -/
def recvRequest (c : Nat) (ev : InputEvent) : ClientUnit × Bool :=
  let s := (s.setClient c { s.client c with rscClean := false }).note (s.client c).resourceId .fill
  match ev.decode with
  | .fatalError => (s, false)
  | .dataError => s.sendResult c ev.send
  | .idle => (s.setClient c { s.client c with rscClean := true, stage := .idle }, true)
  | .waitData => (s.setClient c { s.client c with stage := .recvReq }, true)
  | .done false => s.sendResult c ev.send
  | .done true => (s.dispatch c, true)

def inputNotify (c : Nat) (ev : InputEvent) : ClientUnit :=
  if (s.client c).stage = .idle ∨ (s.client c).stage = .recvReq then
    match s.recvRequest c ev with
    | (s', true) => s'
    | (s', false) => s'.delete c
  else if ev.closed then s.delete c
  else s

def outputNotify (c : Nat) (r : SendResult) : ClientUnit :=
  if (s.client c).stage = .sendRep then
    match s.response c r with
    | (s', true) => s'
    | (s', false) => s'.delete c
  else s

def replyNotify (id : Nat) (r : SendResult) : ClientUnit :=
  let s := { s with inflight := s.inflight.erase id }.note id .reply
  let t := (s.pool.taskslot id).task
  match t.ownerInfo with
  | none =>
    if t.resourceId ≠ 0 then
      let s := s.cleanResource t.resourceId
      s.unregistResource (s.pool.taskslot id).task.resourceId (s.pool.taskslot id).task.resourceSeq
    else s
  | some c =>
    match s.sendResult c r with
    | (s', true) => s'
    | (s', false) => s'.delete c

/-- `ProcessStream` for a synchronous connection: the address is copied, a slot is taken, the poller attached, and the
first bytes are read at once. -/
def processStream (room : Nat) (c : Nat) (grant addr attached : Bool) (ev : InputEvent) : ClientUnit :=
  if addr then
    match s.pool.alloc room grant with
    | none => s
    | some (p, id, seq) =>
      let s := { s with pool := p, live := c :: s.live }.note id .alloc
      let s := s.setClient c { resourceId := id, resourceSeq := seq }
      if attached then s.inputNotify c ev else s.delete c
  else s

end ClientUnit

/-- The events of a unit: the allocator's answers, the poller's calls, the idle timer's and the replies. -/
inductive ClientEvent where
  | accept (c : Nat) (grant addr attached : Bool) (ev : InputEvent)
  | input (c : Nat) (ev : InputEvent)
  | output (c : Nat) (r : SendResult)
  | hangup (c : Nat)
  | timer (c : Nat)
  | reply (id : Nat) (r : SendResult)
  deriving DecidableEq, Repr

/-- One event.  A new connection has an address that no living one has; the poller and the timers know living
connections only, the timer runs in the idle stage; a task that was dispatched is replied. -/
def ClientUnit.step (room : Nat) (s : ClientUnit) : ClientEvent → Option ClientUnit
  | .accept c grant addr attached ev =>
    if c ∉ s.live then some (s.processStream room c grant addr attached ev) else none
  | .input c ev => if c ∈ s.live then some (s.inputNotify c ev) else none
  | .output c r => if c ∈ s.live then some (s.outputNotify c r) else none
  | .hangup c => if c ∈ s.live then some (s.delete c) else none
  | .timer c => if c ∈ s.live ∧ (s.client c).stage = .idle then some (s.delete c) else none
  | .reply id r => if id ∈ s.inflight then some (s.replyNotify id r) else none

/-- A unit over an allocator that has `room` for so many slots, each with its task and packet. -/
def clientMachine (room : Nat) : Machine ClientUnit ClientEvent where
  start s := s = { pool := CClientResourcePool.init }
  step := ClientUnit.step room

end Dtc
