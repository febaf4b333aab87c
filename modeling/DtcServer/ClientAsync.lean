import DtcServer.AgentSendQueue
import DtcServer.Protocol
/-!
# ClientAsync — a client that sends requests without waiting for their results (`CClientAsync`)

A request, the object that keeps its place (`CAsyncInfo`) and its result have lives of their own.  A request is replied to at
any time, also by the dispatcher while it is being handed over; what was decoded last is in `curReq` only until then.
-/
namespace Dtc

/-- `CPacket` with a result: the vectors that are left, and how many bytes they have. -/
structure ResultPacket where
  v : List (List UInt8)
  bytes : Nat

namespace ResultPacket

def encodeResult (v : List (List UInt8)) : ResultPacket := ⟨v, v.flatten.length⟩

/-- `CPacket::Send`: how it ends, what is left, and the bytes that are sent. -/
def send (p : ResultPacket) (r : SendMsg) : SendResult × ResultPacket × List UInt8 :=
  if p.v = [] then (.done, p, [])
  else
    match r with
    | .again => (.moreData, p, [])
    | .error => (.error, p, [])
    | .sent rv =>
      if rv = 0 then (.moreData, p, [])
      else if p.bytes - rv = 0 then (.done, ⟨[], 0⟩, p.v.flatten.take rv)
      else
        let left := (Vectors.advance rv p.v).2
        (if left = [] then .done else .moreData, ⟨left, p.bytes - rv⟩, p.v.flatten.take rv)

end ResultPacket

/-- `CAsyncInfo`: the request until its result is made, then the result. -/
structure CAsyncInfo where
  req : Option Nat := none
  pkt : Option ResultPacket := none

/-- What is used that is not there. -/
inductive AsyncFault where
  | noRequest
  | deletedRequest
  | noInfo
  deriving DecidableEq, Repr

/-- `CClientAsync`; requests are numbered as they are made. -/
structure CClientAsync where
  curReq : Option Nat := none
  curRes : Option ResultPacket := none
  waitList : List CAsyncInfo := []
  doneList : List CAsyncInfo := []
  numReq : Int := 0
  /-- the connection is deleted -/
  gone : Bool := false
  /-- `TaskDispatcher` has not returned -/
  dispatching : Bool := false
  created : Nat := 0
  /-- the requests that have owner info -/
  owned : List Nat := []
  dispatched : List Nat := []
  deleted : List Nat := []
  /-- the requests whose packet was received -/
  received : List Nat := []
  /-- the requests with their results, as these were made -/
  completed : List (Nat × List UInt8) := []
  wire : List UInt8 := []
  fault : Option AsyncFault := none

/-- How `Decode` ends, and `PrepareProcess` behind it. -/
inductive AsyncDecode where
  | fatalError
  | waitData
  | dataError
  | prepareFails
  | done
  deriving DecidableEq, Repr

/-- What happens to a client: `v` is the result that is encoded, `sends` is how the calls of `sendmsg` end. -/
inductive AsyncAction where
  | inputNotify (d : AsyncDecode) (v : List (List UInt8)) (sends : List SendMsg)
  | taskDispatched
  | replyNotify (req : Nat) (v : List (List UInt8)) (sends : List SendMsg)
  | outputNotify (sends : List SendMsg)
  | hangupNotify

namespace CClientAsync

variable (s : CClientAsync)

def useOf : Option Nat → Option AsyncFault
  | none => some .noRequest
  | some n => if n ∈ s.deleted then some .deletedRequest else none

/-- `CAsyncInfo(c, r)` -/
def newInfo (req : Nat) : CClientAsync := { s with numReq := s.numReq + 1, waitList := s.waitList ++ [{ req := some req }] }

/-- `~CAsyncInfo`, which clears the owner info of a request that is there. -/
def deleteInfo (info : CAsyncInfo) : CClientAsync :=
  match info.req with
  | none => { s with numReq := s.numReq - 1 }
  | some n => { s with numReq := s.numReq - 1, owned := s.owned.erase n, fault := s.fault.or (s.useOf (some n)) }

/-- `~CClientAsync` -/
def close : CClientAsync :=
  { (s.doneList ++ s.waitList).foldl deleteInfo s with doneList := [], waitList := [], gone := true }

/-- `ResponseOne`, and whether it returns 0. -/
def responseOne (r : SendMsg) : Option (Bool × CClientAsync) :=
  match s.curRes with
  | none => some (true, s)
  | some p =>
    if r.Possible p.v then
      match p.send r with
      | (.moreData, left, sent) => some (true, { s with curRes := some left, wire := s.wire ++ sent })
      | (.done, _, sent) => some (true, { s with curRes := none, numReq := s.numReq - 1, wire := s.wire ++ sent })
      | (.error, left, sent) => some (false, { s with curRes := some left, wire := s.wire ++ sent })
    else none

/-- The first of `doneList` becomes the result that is sent. -/
def nextResult (info : CAsyncInfo) (rest : List CAsyncInfo) : CClientAsync :=
  let s := s.deleteInfo info
  { s with doneList := rest, curRes := info.pkt, numReq := s.numReq + 1 }

/-- The loop of `Response` from where nothing is being sent. -/
def drain : List CAsyncInfo → List SendMsg → CClientAsync → Option (Bool × CClientAsync)
  | [], _, s => some (true, s)
  | info :: rest, sends, s =>
    match info.pkt, sends with
    | none, sends => drain rest sends (s.nextResult info rest)
    | some _, [] => none
    | some _, r :: sends =>
      ((s.nextResult info rest).responseOne r).bind fun x =>
        if x.1 ∧ x.2.curRes.isNone then drain rest sends x.2 else some x

def response (sends : List SendMsg) : Option (Bool × CClientAsync) :=
  match s.curRes, sends with
  | none, sends => drain s.doneList sends s
  | some _, [] => none
  | some _, r :: sends =>
    (s.responseOne r).bind fun x => if x.1 ∧ x.2.curRes.isNone then drain x.2.doneList sends x.2 else some x

/-- `QueueResult` of the info with the request `n`, one of those that wait: the time is recorded for `curReq`, and what
`Response` returns is not looked at. -/
def queueResult (n : Nat) (v : List (List UInt8)) (sends : List SendMsg) : Option CClientAsync :=
  match (s.useOf s.curReq).or (s.useOf (some n)) with
  | some f => some { s with fault := some f }
  | none =>
    (response { s with
      waitList := s.waitList.eraseP fun info => info.req == some n
      doneList := s.doneList ++ [{ pkt := some (.encodeResult v) }]
      owned := s.owned.erase n
      deleted := s.deleted ++ [n]
      completed := s.completed ++ [(n, v.flatten)] } sends).map Prod.snd

def queueError (n : Nat) (v : List (List UInt8)) (sends : List SendMsg) : Option CClientAsync :=
  { s.newInfo n with curReq := none }.queueResult n v sends

/-- `RecvRequest`, up to where `TaskDispatcher` returns; `default` is where a packet is not whole, too. -/
def recvRequest (d : AsyncDecode) (v : List (List UInt8)) (sends : List SendMsg) : Option CClientAsync :=
  let n := s.curReq.getD s.created
  let s := if s.curReq = none then { s with curReq := some n, created := s.created + 1 } else s
  match d with
  | .fatalError | .waitData => some (close { s with curReq := none, deleted := s.deleted ++ [n] })
  | .dataError | .prepareFails => { s with received := s.received ++ [n] }.queueError n v sends
  | .done => some { s.newInfo n with
      received := s.received ++ [n], owned := s.owned ++ [n], dispatched := s.dispatched ++ [n], dispatching := true }

/-- `CReplyAsync::ReplyNotify` -/
def replyNotify (n : Nat) (v : List (List UInt8)) (sends : List SendMsg) : Option CClientAsync :=
  if n ∈ s.owned then
    if s.waitList.any fun info => info.req == some n then s.queueResult n v sends
    else some { s with fault := some .noInfo }
  else some { s with deleted := s.deleted ++ [n] }

/-- A step: a request is replied to once, and the poller does nothing else while a request is being dispatched. -/
def step : AsyncAction → Option CClientAsync
  | .inputNotify d v sends =>
    if s.fault = none ∧ s.gone = false ∧ s.dispatching = false then s.recvRequest d v sends else none
  | .taskDispatched =>
    if s.fault = none ∧ s.dispatching = true then some { s with dispatching := false, curReq := none } else none
  | .replyNotify n v sends => if s.fault = none ∧ n ∈ s.dispatched ∧ n ∉ s.deleted then s.replyNotify n v sends else none
  | .outputNotify sends =>
    if s.fault = none ∧ s.gone = false ∧ s.dispatching = false then
      (s.response sends).map fun x => if x.1 then x.2 else x.2.close
    else none
  | .hangupNotify => if s.fault = none ∧ s.gone = false ∧ s.dispatching = false then some s.close else none

def machine : Machine CClientAsync AsyncAction where
  start s := s = {}
  step := CClientAsync.step

end CClientAsync

end Dtc
