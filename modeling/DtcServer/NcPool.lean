import DtcServer.Protocol
import Mathlib.Logic.Function.Basic
/-!
# NcPool — the request pool of the client library (`NCPool`, `NCServerInfo`, `NCConnection`, `NCTransation`)

A request takes a slot of the pool, waits in the queue of its server, is sent on a connection, waits there for its result
and is done; `GetResult` collects it and frees the slot.  A slot is in one of the intrusive lists at a time, `link` says in
which.  The rounds of the loops in `NCServerInfo::TimerNotify` and `NCConnection::InputNotify` are events of their own.
-/
namespace Dtc

def ecNotInitialized : Int := 2028
def ecRequestAborted : Int := 2040

/-- `RS_IDLE` .. `RS_DONE` -/
inductive TransState where
  | idle | wait | send | recv | done
  deriving DecidableEq, Repr

def TransState.code : TransState → Nat
  | .idle => 0
  | .wait => 1
  | .send => 2
  | .recv => 4
  | .done => 8

/-- A result: made by the library with an error, or one that arrived with a serial number. -/
inductive NCResult where
  | aborted (err : Int)
  | arrived (serial : Nat)
  deriving DecidableEq, Repr

/-- The lists a slot may be in: `freeList`, `doneList`, `reqList` of a server and `reqList` of a connection. -/
inductive PoolList where
  | free
  | done
  | server (i : Nat)
  | conn (c : Nat)
  deriving DecidableEq, Repr

/-- `NCTransation`; the packet is known by the number of its request. -/
structure NCTransation where
  server : Option Nat := none
  conn : Option Nat := none
  state : TransState := .idle
  genId : Nat := 0
  reqTag : Int := 0
  sn : Nat := 0
  packet : Option Nat := none
  result : Option NCResult := none
  link : Option PoolList := none
  deriving DecidableEq, Repr

/-- `SS_CONNECTED` .. `SS_CONNECTING`; `SS_LINGER` and `SS_CLOSED` are one number. -/
inductive ConnState where
  | connected | linger | connecting
  deriving DecidableEq, Repr

structure NCConnection where
  serverInfo : Nat
  sreq : Option Nat := none
  state : ConnState := .linger
  deriving DecidableEq, Repr

/-- `mode`: 0, 1 and 2 -/
inductive ServerMode where
  | sync | async | dgram
  deriving DecidableEq, Repr

structure NCServerInfo where
  mode : ServerMode := .sync
  reqWait : Int := 0
  reqSend : Int := 0
  reqRecv : Int := 0
  reqRemain : Int := 0
  connRemain : Int := 0
  connTotal : Int := 0
  connConnecting : Int := 0
  idleList : List Nat := []
  busyList : List Nat := []
  deriving DecidableEq, Repr

/-- What a request is when it is added: the id that was returned, its tag and its serial number. -/
structure NCIssued where
  id : Int
  tag : Int
  sn : Nat
  deriving DecidableEq, Repr

/-- What a caller collects: the result of a request with a tag, asked for by an id (0 for any). -/
structure NCCollected where
  req : Nat
  asked : Int
  tag : Int
  result : NCResult
  deriving DecidableEq, Repr

/-- The turns in the life of a request. -/
inductive ReqAct where
  | add | finish | collect
  deriving DecidableEq, Repr

/-- The pool.  `conns` are the connections that exist, by their address; `issued`, `history` and `collected` say what
happened so far.  `crashed` is set when the code follows a null pointer or one to a deleted connection. -/
structure NCPool where
  maxServers : Nat
  maxRequests : Nat
  numServers : Nat := 0
  serverList : Nat → NCServerInfo := fun _ => {}
  transList : Nat → NCTransation
  conns : Nat → Option NCConnection := fun _ => none
  lists : PoolList → List Nat
  numRequests : Nat := 0
  doneRequests : Int := 0
  issued : List NCIssued := []
  history : List (Nat × ReqAct) := []
  collected : List NCCollected := []
  crashed : Bool := false

abbrev maxReqId : Nat := 2147483646

namespace NCPool

/-- The constructor, over zeroed slots; `ListAdd` puts every slot in front. -/
def create (ms mr : Nat) : NCPool where
  maxServers := min ms (2 ^ 20)
  maxRequests := min mr (2 ^ 20)
  transList := fun t => if t < min mr (2 ^ 20) then { link := some .free } else {}
  lists := fun l => if l = .free then (List.range (min mr (2 ^ 20))).reverse else []

variable (s : NCPool)

def maxRequestId : Nat := maxReqId / s.maxRequests

def setTrans (t : Nat) (x : NCTransation) : NCPool := { s with transList := Function.update s.transList t x }

def setConn (c : Nat) (x : NCConnection) : NCPool := { s with conns := Function.update s.conns c (some x) }

def setServer (i : Nat) (v : NCServerInfo) : NCPool := { s with serverList := Function.update s.serverList i v }

def setList (l : PoolList) (ts : List Nat) : NCPool := { s with lists := Function.update s.lists l ts }

def note (n : Nat) (a : ReqAct) : NCPool := { s with history := (n, a) :: s.history }

/-- `ListDel`, `ResetList` -/
def listDel (t : Nat) : NCPool :=
  match (s.transList t).link with
  | none => s
  | some l => (s.setList l ((s.lists l).erase t)).setTrans t { s.transList t with link := none }

def listAdd (t : Nat) (l : PoolList) : NCPool :=
  (s.setList l (t :: s.lists l)).setTrans t { s.transList t with link := some l }

def listAddTail (t : Nat) (l : PoolList) : NCPool :=
  (s.setList l (s.lists l ++ [t])).setTrans t { s.transList t with link := some l }

/-- `TransationFinished`, with `RecvOK` -/
def transationFinished (t : Nat) : NCPool :=
  let s := (s.setTrans t { s.transList t with state := .done }).listAddTail t .done
  let s := { s with doneRequests := s.doneRequests + 1 }
  match (s.transList t).packet with
  | none => s
  | some n => s.note n .finish

def requestDoneAndReady (i : Nat) (state : TransState) : NCPool :=
  let v := s.serverList i
  match state with
  | .wait => s.setServer i { v with reqWait := v.reqWait - 1 }
  | .send => s.setServer i { v with reqSend := v.reqSend - 1, reqRemain := v.reqRemain + 1 }
  | .recv => s.setServer i { v with reqRecv := v.reqRecv - 1, reqRemain := v.reqRemain + 1 }
  | _ => s

/-- `NCTransation::Abort`; an `err` of 0 keeps the result. -/
def abort (t : Nat) (err : Int) : NCPool :=
  match (s.transList t).server with
  | none => s
  | some i =>
    let s := (s.setTrans t { s.transList t with conn := none }).listDel t
    let s := s.requestDoneAndReady i (s.transList t).state
    let s := s.setTrans t { s.transList t with
      server := none
      result := if err = 0 then (s.transList t).result else some (.aborted err) }
    s.transationFinished t

def setSreq (c : Nat) (o : Option Nat) : NCPool :=
  match s.conns c with
  | none => s
  | some x => s.setConn c { x with sreq := o }

/-- `sreq->Abort(err); sreq = NULL` -/
def abortSreq (c : Nat) (err : Int) : NCPool :=
  match (s.conns c).bind (fun x => x.sreq) with
  | none => s
  | some t => (s.abort t err).setSreq c none

/-- `AbortRequests`: every `Abort` takes its slot off the list. -/
def abortRequests (c : Nat) (err : Int) : NCPool :=
  let s := s.abortSreq c err
  (s.lists (.conn c)).foldl (fun s t => s.abort t err) s

def mode (c : Nat) : ServerMode :=
  match s.conns c with
  | none => .sync
  | some x => (s.serverList x.serverInfo).mode

/-- The lists of connections of a server without `c`. -/
def dropConn (v : NCServerInfo) (c : Nat) : NCServerInfo :=
  { v with idleList := v.idleList.erase c, busyList := v.busyList.erase c }

/-- `~NCConnection` -/
def deleteConn (c : Nat) : NCPool :=
  match s.conns c with
  | none => s
  | some x =>
    let v := s.serverList x.serverInfo
    let v := if x.state = .connecting then { v with connConnecting := v.connConnecting - 1 } else v
    let s := (s.setServer x.serverInfo (dropConn v c)).abortRequests c (-ecRequestAborted)
    let v := s.serverList x.serverInfo
    let s := s.setServer x.serverInfo { v with connRemain := v.connRemain + 1 }
    { s with conns := Function.update s.conns c none }

def close (c : Nat) (err : Int) : NCPool :=
  let s := s.abortRequests c err
  if s.mode c = .dgram then s else s.deleteConn c

def abortSendSide (c : Nat) (err : Int) : NCPool :=
  let s := s.abortSreq c err
  if s.mode c = .sync ∨ s.lists (.conn c) = [] then s.close c err
  else
    match s.conns c with
    | none => s
    | some x =>
      let v := dropConn (s.serverList x.serverInfo) c
      (s.setServer x.serverInfo { v with busyList := c :: v.busyList }).setConn c { x with state := .linger }

def switchToIdle (c : Nat) : NCPool :=
  match s.conns c with
  | none => s
  | some x =>
    let v := dropConn (s.serverList x.serverInfo) c
    let v := if x.state = .connecting then { v with connConnecting := v.connConnecting - 1 } else v
    (s.setServer x.serverInfo { v with idleList := c :: v.idleList }).setConn c { x with state := .connected }

/-- The part of `SendRequest` behind a packet that was sent whole. -/
def sendOK (c t : Nat) (x : NCConnection) : NCPool :=
  let s := (s.setTrans t { s.transList t with state := .recv }).listAddTail t (.conn c)
  let s := s.setConn c { x with sreq := none }
  let v := s.serverList x.serverInfo
  let v := { v with reqSend := v.reqSend - 1, reqRecv := v.reqRecv + 1 }
  if v.mode = .sync then s.setServer x.serverInfo v
  else s.setServer x.serverInfo { dropConn v c with idleList := (dropConn v c).idleList ++ [c] }

/-- `SendRequest`; `none` without a request to send. -/
def sendRequest (c : Nat) (r : SendResult) : Option NCPool :=
  match s.conns c with
  | none => none
  | some x =>
    match x.sreq with
    | none => none
    | some t =>
      match r with
      | .moreData => some s
      | .done => some (s.sendOK c t x)
      | .error => some (s.abortSendSide c (-104))

def processRequest (c t : Nat) (r : SendResult) : Option NCPool :=
  match s.conns c with
  | none => none
  | some x =>
    let s := s.setTrans t { s.transList t with state := .send, conn := some c }
    let s := s.setConn c { x with sreq := some t }
    let v := dropConn (s.serverList x.serverInfo) c
    let s := s.setServer x.serverInfo { v with
      busyList := v.busyList ++ [c]
      reqRemain := v.reqRemain - 1
      reqSend := v.reqSend + 1 }
    s.sendRequest c r

/-- `DoneResult`: the first request with the serial number is done.  A connection that lingered for its last result is
deleted, and the rest of its handlers then finds nothing to do. -/
def doneResult (c : Nat) (serial : Nat) : NCPool :=
  let s := match (s.lists (.conn c)).find? (fun t => (s.transList t).sn == serial) with
    | none => s
    | some t => (s.setTrans t { s.transList t with result := some (.arrived serial) }).abort t 0
  if s.mode c = .sync then s.switchToIdle c
  else if (s.conns c).map (fun x => x.state) = some .linger ∧ s.lists (.conn c) = [] then s.deleteConn c
  else s

/-- How `Decode` ends in `RecvResult`: `DecodeDataError` and `DecodeDone` bring a result. -/
inductive RecvEnd where
  | fatalError
  | waitData
  | result (serial : Nat)
  deriving DecidableEq, Repr

def recvResult (c : Nat) : RecvEnd → NCPool
  | .fatalError => s.close c (-104)
  | .waitData => s
  | .result serial => s.doneResult c serial

/-- A round of `InputNotify`. -/
def inputNotify (c : Nat) (x : NCConnection) (e : RecvEnd) : NCPool :=
  match x.state with
  | .connected => s.recvResult c e
  | .linger => if s.lists (.conn c) = [] then s else s.recvResult c e
  | .connecting => s

def outputNotify (c : Nat) (x : NCConnection) (r : SendResult) : Option NCPool :=
  match x.state with
  | .connecting => some (s.switchToIdle c)
  | .connected => s.sendRequest c r
  | .linger => some s

def hangupNotify (c : Nat) : NCPool := (s.abortRequests c (-104)).deleteConn c

def timerNotify (c : Nat) (x : NCConnection) : NCPool :=
  if x.sreq ≠ none ∨ s.lists (.conn c) ≠ [] then s.close c (-110) else s

/-- How `AsyncConnect` ends; a connection may fail to be attached to the poller. -/
inductive AsyncConnect where
  | connected (attached : Bool)
  | inProgress (attached : Bool)
  | failed (err : Int)
  deriving DecidableEq, Repr

/-- `NCServerInfo::Connect` with a new connection at the address `c`, and its error. -/
def connect (i c : Nat) (r : AsyncConnect) : NCPool × Int :=
  let v := s.serverList i
  let s := (s.setConn c { serverInfo := i }).setServer i { v with connRemain := v.connRemain - 1 }
  let fail (s : NCPool) : NCPool :=
    let v := s.serverList i
    (s.setServer i { v with connRemain := v.connRemain + 1 }).deleteConn c
  match r with
  | .connected attached =>
    let s := s.switchToIdle c
    if attached then (s, 0) else (fail s, -24)
  | .inProgress attached =>
    let v := s.serverList i
    let s := (s.setServer i { v with busyList := c :: v.busyList }).setConn c { serverInfo := i, state := .connecting }
    if attached then
      let v := s.serverList i
      (s.setServer i { v with connConnecting := v.connConnecting + 1 }, 0)
    else (fail s, -24)
  | .failed err => (fail s, err)

def abortWaitQueue (i : Nat) (err : Int) : NCPool := (s.lists (.server i)).foldl (fun s t => s.abort t err) s

/-- A round of `NCServerInfo::TimerNotify`. -/
def serverTimer (i c : Nat) (send : SendResult) (r : AsyncConnect) : Option NCPool :=
  let v := s.serverList i
  match s.lists (.server i) with
  | [] => some s
  | t :: _ =>
    if 0 < v.reqRemain then
      match v.idleList with
      | d :: _ => ((s.listDel t).setServer i { v with reqWait := v.reqWait - 1 }).processRequest d t send
      | [] =>
        if v.connRemain = 0 ∨ v.reqWait ≤ v.connConnecting then some s
        else
          let (s, err) := s.connect i c r
          let v := s.serverList i
          if err ≠ 0 ∧ v.connTotal ≤ v.connRemain then some (s.abortWaitQueue i err) else some s
    else some s

def clear (t : Nat) : NCPool :=
  let s := s.listDel t
  let x := s.transList t
  s.setTrans t { x with genId := x.genId + 1, state := .idle, reqTag := 0, server := none, packet := none, result := none }

def getTransationSlot : Option (NCPool × Nat) :=
  match s.lists .free with
  | [] => none
  | t :: _ =>
    let s := s.clear t
    let x := s.transList t
    let s := s.setTrans t { x with genId := if s.maxRequestId ≤ x.genId then 0 else x.genId }
    some ({ s with numRequests := s.numRequests + 1 }, t)

/-- `AttachRequest`: the encoder gives the serial number or an error. -/
def attachRequest (t i : Nat) (tag : Int) (n : Nat) (encoded : Except Int Nat) : NCPool :=
  let x := { s.transList t with state := .wait, reqTag := tag, server := some i, packet := some n }
  match encoded with
  | .ok sn => s.setTrans t { x with sn := sn }
  | .error err => s.setTrans t { x with result := some (.aborted err) }

def queueRequest (t i : Nat) : NCPool :=
  let s := s.listAddTail t (.server i)
  let v := s.serverList i
  s.setServer i { v with reqWait := v.reqWait + 1 }

/-- `NCPool::AddRequest` for a request whose server is the pool's `i`-th (or is not there, or is not the pool's). -/
def addRequest (server : Option Nat) (tag : Int) (encoded : Except Int Nat) : Option (NCPool × Int) :=
  if s.maxRequests ≤ s.numRequests then some (s, -7)
  else
    match server with
    | none => some (s, -ecNotInitialized)
    | some i =>
      if s.numServers ≤ i then some (s, -22)
      else
        match s.getTransationSlot with
        | none => none
        | some (s, t) =>
          let n := s.issued.length
          let s := s.attachRequest t i tag n encoded
          let id : Int := t + (s.transList t).genId * s.maxRequests + 1
          let q : NCIssued := ⟨id, tag, (s.transList t).sn⟩
          let s := { s with issued := s.issued ++ [q] }.note n .add
          match encoded with
          | .error _ => some (s.transationFinished t, id)
          | .ok _ => some (s.queueRequest t i, id)

def addServer (dgram : Bool) (mReq mConn : Nat) : NCPool :=
  if s.maxServers ≤ s.numServers then s
  else
    let conns : Option Nat :=
      if dgram then (if mConn ≤ 1 then some 1 else none)
      else if mConn = 0 then some mReq else if mReq < mConn then none else some mConn
    match conns with
    | none => s
    | some m =>
      let v : NCServerInfo :=
        { mode := if dgram then .dgram else if mReq = m then .sync else .async
          reqRemain := mReq
          connRemain := m
          connTotal := m }
      { s.setServer s.numServers v with numServers := s.numServers + 1 }

def id2Req (reqId : Int) : Option Nat :=
  if reqId ≤ 0 ∨ (maxReqId : Int) < reqId then none
  else
    let r := reqId.toNat - 1
    if r / s.maxRequests ≠ (s.transList (r % s.maxRequests)).genId then none else some (r % s.maxRequests)

/-- `AbortRequest` of a slot; `none` when the connection or the server it leads to is not there. -/
def abortRequest (t : Nat) : Option NCPool :=
  let x := s.transList t
  match x.conn, x.server with
  | some c, some i =>
    match s.conns c with
    | none => none
    | some _ =>
      match (s.serverList i).mode with
      | .sync => some (s.close c (-ecRequestAborted))
      | .async =>
        if x.state = .send then some (s.abortSendSide c (-ecRequestAborted)) else some (s.abort t (-ecRequestAborted))
      | .dgram => some (s.abort t (-ecRequestAborted))
  | some _, none => none
  | none, some _ => some (s.abort t (-ecRequestAborted))
  | none, none => some s

/-- `GetTransationResult`; `none` without a result. -/
def getTransationResult (t : Nat) (asked : Int) : Option NCPool :=
  let x := s.transList t
  match x.result with
  | none => none
  | some r =>
    let s := (s.clear t).listAdd t .free
    let s := { s with doneRequests := s.doneRequests - 1, numRequests := s.numRequests - 1 }
    match x.packet with
    | none => some s
    | some n =>
      let e : NCCollected := ⟨n, asked, x.reqTag, r⟩
      some ({ s with collected := s.collected ++ [e] }.note n .collect)

def cancelSlot (t : Nat) (asked : Int) : Option NCPool := (s.abortRequest t).bind (fun s => s.getTransationResult t asked)

def cancelRequest (reqId : Int) : Option NCPool :=
  match s.id2Req reqId with
  | none => some s
  | some t => s.cancelSlot t reqId

def abortRequestId (reqId : Int) : Option NCPool :=
  match s.id2Req reqId with
  | none => some s
  | some t => s.abortRequest t

/-- The loop of `CancelAllRequest` and `AbortAllRequest` over the slots in one of the states of `type`. -/
def forStates (type : Nat) (f : NCPool → Nat → Option NCPool) : List Nat → NCPool → Option NCPool
  | [], s => some s
  | t :: ts, s =>
    if type &&& (s.transList t).state.code = 0 then forStates type f ts s
    else (f s t).bind (forStates type f ts)

def cancelAllRequest (type : Nat) : Option NCPool :=
  if 16 ≤ type then some s else forStates type (fun s t => s.cancelSlot t 0) (List.range s.maxRequests) s

def abortAllRequest (type : Nat) : Option NCPool :=
  if 16 ≤ type then some s else forStates (type &&& 7) (fun s t => s.abortRequest t) (List.range s.maxRequests) s

/-- `GetResult`; an answer that is no result leaves the pool alone. -/
def getResult (reqId : Int) : Option NCPool :=
  if reqId = 0 then
    match s.lists .done with
    | [] => some s
    | t :: _ => s.getTransationResult t 0
  else
    match s.id2Req reqId with
    | none => some s
    | some t => if (s.transList t).state = .done then s.getTransationResult t reqId else some s

end NCPool

/-- What happens to a pool: the calls of its user, the poller's and the timers'. -/
inductive PoolEvent where
  | addServer (dgram : Bool) (mReq mConn : Nat)
  | addRequest (server : Option Nat) (tag : Int) (encoded : Except Int Nat)
  | serverTimer (i c : Nat) (send : SendResult) (r : NCPool.AsyncConnect)
  | input (c : Nat) (e : NCPool.RecvEnd)
  | output (c : Nat) (r : SendResult)
  | hangup (c : Nat)
  | timer (c : Nat)
  | abortRequest (reqId : Int)
  | cancelRequest (reqId : Int)
  | abortAllRequest (type : Nat)
  | cancelAllRequest (type : Nat)
  | getResult (reqId : Int)

/-- A call that follows a bad pointer ends the process. -/
def NCPool.orCrash (s : NCPool) (r : Option NCPool) : NCPool := r.getD { s with crashed := true }

/-- One event.  The poller and the timers know the connections that exist, a new connection has an address that no other
has, and a process that crashed does nothing. -/
def NCPool.step (s : NCPool) (a : PoolEvent) : Option NCPool :=
  if s.crashed then none
  else
    match a with
    | .addServer dgram mReq mConn => some (s.addServer dgram mReq mConn)
    | .addRequest server tag encoded => some (s.orCrash ((s.addRequest server tag encoded).map Prod.fst))
    | .serverTimer i c send r => if s.conns c = none then some (s.orCrash (s.serverTimer i c send r)) else none
    | .input c e => (s.conns c).map (fun x => s.inputNotify c x e)
    | .output c r => (s.conns c).map (fun x => s.orCrash (s.outputNotify c x r))
    | .hangup c => (s.conns c).map (fun _ => s.hangupNotify c)
    | .timer c => (s.conns c).map (fun x => s.timerNotify c x)
    | .abortRequest reqId => some (s.orCrash (s.abortRequestId reqId))
    | .cancelRequest reqId => some (s.orCrash (s.cancelRequest reqId))
    | .abortAllRequest type => some (s.orCrash (s.abortAllRequest type))
    | .cancelAllRequest type => some (s.orCrash (s.cancelAllRequest type))
    | .getResult reqId => some (s.orCrash (s.getResult reqId))

def ncPoolMachine : Machine NCPool PoolEvent where
  start s := ∃ ms mr, 0 < mr ∧ s = NCPool.create ms mr
  step := NCPool.step

end Dtc
