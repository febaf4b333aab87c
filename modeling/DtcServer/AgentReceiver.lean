import DtcServer.FrontReceiver
/-!
# AgentReceiver — the packets of an agent (`CAgentReceiver`, `CAgentMultiRequest`)

Packets gather in a buffer that is doubled when it is full.  All complete ones are delivered together, in the buffer that
they are in, and what is behind them begins the next.
-/
namespace Dtc

open Bytes

namespace CPacketHeader

/-- `CAgentReceiver::DecodeHeader`: the length of the body. -/
def agentBodyLen (header : CPacketHeader) : Option Nat :=
  if header.version ≠ 1 then none
  else if header.scts.toNat ≠ sectionTotal then none
  else if (List.range sectionTotal).any (fun i => decide (maxPacketSize < header.len i)) then none
  else if maxPacketSize < header.bodyLen then none
  else some header.bodyLen

theorem agentBodyLen_eq {header : CPacketHeader} {n : Nat} (h : header.agentBodyLen = some n) :
    n = header.bodyLen ∧ n ≤ maxPacketSize := by
  unfold agentBodyLen at h
  split at h
  · cases h
  split at h
  · cases h
  split at h
  · cases h
  split at h
  · cases h
  · next hle =>
    obtain rfl := Option.some.inj h
    exact ⟨rfl, Nat.not_lt.mp hle⟩

theorem agentBodyLen_take (p : List UInt8) : (ofBytes (p.take headerSize)).agentBodyLen = (ofBytes p).agentBodyLen := by
  have hget : ∀ i < 4, (p.take headerSize).getD i 0 = p.getD i 0 := by
    intro i hi
    rw [List.getD_eq_getElem?_getD, List.getD_eq_getElem?_getD, List.getElem?_take_of_lt (by unfold headerSize; omega)]
  have hversion : (ofBytes (p.take headerSize)).version = (ofBytes p).version := hget 0 (by decide)
  have hscts : (ofBytes (p.take headerSize)).scts = (ofBytes p).scts := hget 1 (by decide)
  have hlen : ∀ i ∈ List.range sectionTotal, (ofBytes (p.take headerSize)).len i = (ofBytes p).len i := by
    intro i hi
    have hi' : i < 8 := List.mem_range.mp hi
    show leNat 4 (slice (p.take headerSize) (4 + 4 * i) 4) = leNat 4 (slice p (4 + 4 * i) 4)
    rw [slice, slice, List.drop_take, List.take_take, Nat.min_eq_left (by unfold headerSize; omega)]
  have hbody : (ofBytes (p.take headerSize)).bodyLen = (ofBytes p).bodyLen :=
    bodyLen_ofBytes (by rw [List.take_take, Nat.min_self])
  have hany : (List.range sectionTotal).any (fun i => decide (maxPacketSize < (ofBytes (p.take headerSize)).len i)) =
      (List.range sectionTotal).any (fun i => decide (maxPacketSize < (ofBytes p).len i)) := by
    rw [Bool.eq_iff_iff, List.any_eq_true, List.any_eq_true]
    exact exists_congr fun i => and_congr_right fun hi => by rw [hlen i hi]
  unfold agentBodyLen
  rw [hversion, hscts, hbody, hany]

end CPacketHeader

def serverFormat : PacketFormat UInt8 where
  header := headerSize
  len h := (CPacketHeader.ofBytes h).agentBodyLen.map (· + headerSize)
  pos := headerSize_pos
  header_le h n hn := by
    obtain ⟨m, -, rfl⟩ := Option.map_eq_some_iff.mp hn
    exact Nat.le_add_left _ _

/-- `PacketBodyLen` and the header. -/
def packetLen (packetstart : List UInt8) : Nat := (CPacketHeader.ofBytes packetstart).bodyLen % 2 ^ 32 + headerSize

/-- `DecodeAgentRequest`: where each of the packets begins, and its length. -/
def decodeAgentRequest (ptr : List UInt8) : Nat → Nat → List (Nat × Nat)
  | 0, _ => []
  | n + 1, cursor => (cursor, packetLen (ptr.drop cursor)) :: decodeAgentRequest ptr n (cursor + packetLen (ptr.drop cursor))

theorem serverFormat_len (p : List UInt8) :
    serverFormat.len (p.take headerSize) = (CPacketHeader.ofBytes p).agentBodyLen.map (· + headerSize) := by
  unfold serverFormat
  dsimp only
  rw [CPacketHeader.agentBodyLen_take]

theorem agentBodyLen_frame {p : List UInt8} (h : serverFormat.IsFrame p) (r : List UInt8) :
    ∃ n, (CPacketHeader.ofBytes (p ++ r)).agentBodyLen = some n ∧ headerSize + n = p.length ∧ packetLen (p ++ r) = p.length := by
  obtain ⟨hle, hlen⟩ := h
  have htake : (p ++ r).take headerSize = p.take headerSize := List.take_append_of_le_length hle
  have hp := serverFormat_len (p ++ r)
  rw [htake, show serverFormat.len (p.take headerSize) = some p.length from hlen] at hp
  obtain ⟨n, hn, hsum⟩ := Option.map_eq_some_iff.mp hp.symm
  obtain ⟨hbody, hmax⟩ := CPacketHeader.agentBodyLen_eq hn
  refine ⟨n, hn, by omega, ?_⟩
  unfold packetLen
  unfold maxPacketSize at hmax
  rw [← hbody, Nat.mod_eq_of_lt (by omega), hsum]

theorem decodeAgentRequest_flatten : ∀ (qs : List (List UInt8)) (pre : List UInt8), (∀ p ∈ qs, serverFormat.IsFrame p) →
    (decodeAgentRequest (pre ++ qs.flatten) qs.length pre.length).map (fun x => slice (pre ++ qs.flatten) x.1 x.2) = qs ∧
      ∀ x ∈ decodeAgentRequest (pre ++ qs.flatten) qs.length pre.length, x.1 + x.2 ≤ (pre ++ qs.flatten).length
  | [], _, _ => ⟨rfl, fun _ hx => absurd hx List.not_mem_nil⟩
  | p :: qs, pre, hps => by
    obtain ⟨hp, hqs⟩ := List.forall_mem_cons.mp hps
    obtain ⟨n, -, -, hlen⟩ := agentBodyLen_frame hp qs.flatten
    obtain ⟨hvisits, hinside⟩ := decodeAgentRequest_flatten qs (pre ++ p) hqs
    rw [List.append_assoc, List.length_append] at hvisits hinside
    rw [List.flatten_cons, List.length_cons, decodeAgentRequest, List.drop_left, hlen]
    refine ⟨?_, List.forall_mem_cons.mpr ⟨?_, hinside⟩⟩
    · rw [List.map_cons, hvisits, slice, List.drop_left, List.take_left]
    · rw [List.length_append, List.length_append]
      dsimp only
      omega

structure RecvedPacket where
  buff : List UInt8 := []
  pktCnt : Nat := 0
  err : Bool := false
  deriving DecidableEq, Repr

/-- `CAgentReceiver`: the first `offset` bytes of its buffer, and the size of the buffer. -/
structure CAgentReceiver where
  buffer : List UInt8 := []
  buffSize : Nat := 4096

namespace CAgentReceiver

variable (s : CAgentReceiver)

/-- `IsNeedEnlargeBuffer` -/
def NeedsRoom : Prop := s.buffer.length = s.buffSize

instance : Decidable s.NeedsRoom := by unfold NeedsRoom; infer_instance

/-- `EnlargeBuffer`, for which there is memory; a buffer of 2^31 bytes is enlarged to none. -/
def enlargeBuffer : Option CAgentReceiver :=
  if s.buffSize * 2 % 2 ^ 32 = 0 then none else some { s with buffSize := s.buffSize * 2 % 2 ^ 32 }

def recvOnce : RecvMsg → Int × CAgentReceiver
  | .again => (0, s)
  | .error => (-1, s)
  | .data bytes => if bytes = [] then (-1, s) else (bytes.length, { s with buffer := s.buffer ++ bytes })

/-- `RealRecv`, where `recv` can end so; the bytes that it reads. -/
def realRecv (r : RecvMsg) : Option (Int × CAgentReceiver × List UInt8) :=
  match if s.NeedsRoom then s.enlargeBuffer else some s with
  | none => some (-1, s, [])
  | some s => if r.Possible (s.buffSize - s.buffer.length) then some ((s.recvOnce r).1, (s.recvOnce r).2, r.bytes) else none

def recvAgain (r : RecvMsg) : Option (Int × CAgentReceiver × List UInt8) :=
  if s.NeedsRoom then s.realRecv r else some (0, s, [])

/-- The loop of `CountPacket`: how many packets are complete, and where they end; `none` for a header that is turned down. -/
def countLoop : Nat → List UInt8 → Option (Nat × Nat)
  | fuel + 1, left =>
    if left.length < headerSize then some (0, 0)
    else
      match (CPacketHeader.ofBytes left).agentBodyLen with
      | none => none
      | some pktbodylen =>
        if left.length < headerSize + pktbodylen then some (0, 0)
        else (countLoop fuel (left.drop (headerSize + pktbodylen))).map fun c => (c.1 + 1, c.2 + (headerSize + pktbodylen))
  | 0, _ => some (0, 0)

/-- `CountPacket`: from 2^31 bytes on, `leftlen` is negative. -/
def countPacket : Option (Nat × Nat) :=
  if 2 ^ 31 ≤ s.buffer.length then some (0, 0) else countLoop s.buffer.length s.buffer

def setRecvedInfo : RecvedPacket × CAgentReceiver :=
  match s.countPacket with
  | none => ({ err := true }, s)
  | some (pktCnt, pktTail) =>
    if pktCnt = 0 then ({}, s)
    else ({ buff := s.buffer.take pktTail, pktCnt }, { s with buffer := s.buffer.drop pktTail })

def recv (r₁ r₂ : RecvMsg) : Option (RecvedPacket × CAgentReceiver × List UInt8) :=
  (s.realRecv r₁).bind fun e₁ =>
    if e₁.1 < 0 then some ({ err := true }, e₁.2)
    else if e₁.1 = 0 then some ({}, e₁.2)
    else (e₁.2.1.recvAgain r₂).map fun e₂ =>
      if e₂.1 < 0 then ({ err := true }, e₂.2.1, e₁.2.2 ++ e₂.2.2)
      else (e₂.2.1.setRecvedInfo.1, e₂.2.1.setRecvedInfo.2, e₁.2.2 ++ e₂.2.2)

def Fills (r : RecvMsg) : Prop :=
  r.bytes ≠ [] ∧ s.buffer.length + r.bytes.length = if s.NeedsRoom then s.buffSize * 2 else s.buffSize

instance (r : RecvMsg) : Decidable (s.Fills r) := by unfold Fills; infer_instance

theorem countLoop_flatten {r : List UInt8} (hr : serverFormat.next r = none)
    (hheader : headerSize ≤ r.length → ∃ n, serverFormat.len (r.take headerSize) = some n) :
    ∀ (qs : List (List UInt8)) (fuel : Nat), qs.length < fuel ∨ qs.length ≤ fuel ∧ r = [] → (∀ p ∈ qs, serverFormat.IsFrame p) →
      countLoop fuel (qs.flatten ++ r) = some (qs.length, qs.flatten.length)
  | [], 0, _, _ => rfl
  | [], fuel + 1, _, _ => by
    rw [List.flatten_nil, List.nil_append, countLoop]
    split
    · rfl
    · next hlong =>
      obtain ⟨n, hn⟩ := hheader (Nat.not_lt.mp hlong)
      unfold PacketFormat.next at hr
      rw [show serverFormat.header = headerSize from rfl, if_neg hlong, hn] at hr
      rw [serverFormat_len] at hn
      obtain ⟨m, hm, rfl⟩ := Option.map_eq_some_iff.mp hn
      rw [hm]
      dsimp only at hr ⊢
      split at hr
      · next hshort =>
        rw [if_pos (by omega)]
        rfl
      · cases hr
  | p :: qs, 0, h, _ => absurd h (by rw [List.length_cons]; omega)
  | p :: qs, fuel + 1, h, hps => by
    obtain ⟨hp, hqs⟩ := List.forall_mem_cons.mp hps
    obtain ⟨n, hn, hlen, -⟩ := agentBodyLen_frame hp (qs.flatten ++ r)
    have hle : headerSize ≤ p.length := hp.1
    have ih := countLoop_flatten hr hheader qs fuel (h.imp Nat.lt_of_succ_lt_succ (And.imp_left Nat.le_of_succ_le_succ)) hqs
    rw [List.flatten_cons, List.append_assoc, countLoop, List.length_append, if_neg (by omega), hn]
    dsimp only
    rw [hlen, if_neg (by omega), List.drop_left, ih, List.length_cons, List.length_append, Nat.add_comm p.length]
    rfl

/-- What the buffer is between two calls: it has room for what is in it, and no complete packet. -/
structure Sound : Prop where
  room : s.buffer.length ≤ s.buffSize
  pos : 0 < s.buffSize
  small : s.buffer.length < 2 ^ 31
  part : serverFormat.next s.buffer = none

variable {s}

theorem realRecv_spec {r : RecvMsg} {e : Int × CAgentReceiver × List UInt8} (hroom : s.buffer.length ≤ s.buffSize)
    (hpos : 0 < s.buffSize) (hsmall : s.buffer.length < 2 ^ 31) (he : s.realRecv r = some e) :
    e.2.1.buffer = s.buffer ++ e.2.2 ∧ e.2.2 = r.bytes ∧
      e.2.1.buffSize = (if s.NeedsRoom then s.buffSize * 2 else s.buffSize) ∧ e.2.1.buffer.length ≤ e.2.1.buffSize ∧
      (e.1 < 0 → r.bytes = [] ∧ r ≠ .again) ∧ (e.1 = 0 → r = .again) ∧ (0 < e.1 → r.bytes ≠ []) := by
  have hsize : ∃ s', (if s.NeedsRoom then s.enlargeBuffer else some s) = some s' ∧ s'.buffer = s.buffer ∧
      s'.buffSize = if s.NeedsRoom then s.buffSize * 2 else s.buffSize := by
    split
    · next hneeds =>
      unfold NeedsRoom at hneeds
      unfold enlargeBuffer
      have hmod : s.buffSize * 2 % 2 ^ 32 = s.buffSize * 2 := Nat.mod_eq_of_lt (by omega)
      rw [hmod, if_neg (by omega)]
      exact ⟨_, rfl, rfl, rfl⟩
    · exact ⟨s, rfl, rfl, rfl⟩
  obtain ⟨s', hs', hbuffer, hsize⟩ := hsize
  have hroom' : s'.buffer.length ≤ s'.buffSize := by
    rw [hbuffer, hsize]
    split <;> omega
  have hne : (-1 : Int) ≠ 0 := by decide
  have hneg : ¬ 0 < (-1 : Int) := by decide
  unfold realRecv at he
  rw [hs'] at he
  dsimp only at he
  split at he
  · next hr =>
    obtain rfl := Option.some.inj he
    cases r with
    | again =>
      refine ⟨?_, rfl, hsize, hroom', fun h => absurd h (Int.lt_irrefl 0), fun _ => rfl, fun h => absurd h (Int.lt_irrefl 0)⟩
      exact hbuffer.trans (List.append_nil _).symm
    | error =>
      refine ⟨?_, rfl, hsize, hroom', fun _ => ⟨rfl, fun h => (by cases h)⟩, fun h => absurd h hne, fun h => absurd h hneg⟩
      exact hbuffer.trans (List.append_nil _).symm
    | data bytes =>
      have hfits : bytes.length ≤ s'.buffSize - s'.buffer.length := hr
      unfold recvOnce
      dsimp only [RecvMsg.bytes]
      split
      · next hnil =>
        rw [hnil]
        refine ⟨?_, rfl, hsize, hroom', fun _ => ⟨rfl, fun h => (by cases h)⟩, fun h => absurd h hne, fun h => absurd h hneg⟩
        exact hbuffer.trans (List.append_nil _).symm
      · next hne =>
        have hlen := List.length_pos_iff.mpr hne
        refine ⟨by rw [hbuffer], rfl, hsize, ?_, fun h => ?_, fun h => ?_, fun _ => hne⟩
        · dsimp only
          rw [List.length_append]
          omega
        · dsimp only at h
          omega
        · dsimp only at h
          omega
  · cases he

theorem setRecvedInfo_spec {todo : List UInt8} {ps : List (List UInt8)} (hsmall : s.buffer.length < 2 ^ 31)
    (hps : ∀ p ∈ ps, serverFormat.IsFrame p) (hstream : s.buffer ++ todo = ps.flatten) :
    s.setRecvedInfo = (⟨(serverFormat.frames s.buffer).1.flatten, (serverFormat.frames s.buffer).1.length, false⟩,
      { s with buffer := (serverFormat.frames s.buffer).2 }) := by
  obtain ⟨hbytes, hframes, hnone⟩ := serverFormat.frames_spec s.buffer
  obtain ⟨qs, hrest, hqs⟩ := PacketFormat.rest_flatten hstream hps
  generalize serverFormat.frames s.buffer = f at *
  obtain ⟨front, rest⟩ := f
  dsimp only at *
  have hcount : s.countPacket = some (front.length, front.flatten.length) := by
    unfold countPacket
    rw [if_neg (by omega), ← hbytes]
    refine countLoop_flatten hnone (PacketFormat.len_of_prefix hrest hqs) front _ ?_ hframes
    have hlen := PacketFormat.length_le_flatten hframes
    rw [List.length_append]
    cases rest with
    | nil => exact .inr ⟨by omega, rfl⟩
    | cons b rest =>
      rw [List.length_cons]
      exact .inl (by omega)
  unfold setRecvedInfo
  rw [hcount]
  dsimp only
  split
  · next hzero =>
    obtain rfl := List.length_eq_zero_iff.mp hzero
    rw [List.flatten_nil, List.nil_append] at hbytes
    rw [hbytes]
    rfl
  · rw [← hbytes, List.take_left, List.drop_left]

theorem next_eq_none {b : List UInt8} (h : (serverFormat.frames b).1 = []) : serverFormat.next b = none := by
  obtain ⟨hbytes, -, hnone⟩ := serverFormat.frames_spec b
  rw [h, List.flatten_nil, List.nil_append] at hbytes
  rwa [hbytes] at hnone

def Received (s : CAgentReceiver) (e : RecvedPacket × CAgentReceiver × List UInt8) : Prop :=
  e.1.err = true ∧ e.2.1.buffer = s.buffer ++ e.2.2 ∧ serverFormat.next e.2.1.buffer = none ∨
    e.1.err = false ∧ e.2.1.Sound ∧ ∃ qs : List (List UInt8), (∀ p ∈ qs, serverFormat.IsFrame p) ∧
      s.buffer ++ e.2.2 = qs.flatten ++ e.2.1.buffer ∧ e.1.pktCnt = qs.length ∧ e.1.buff = qs.flatten

theorem received_setRecvedInfo {s₂ : CAgentReceiver} {read todo : List UInt8} {ps : List (List UInt8)}
    (hbuffer : s₂.buffer = s.buffer ++ read) (hroom : s₂.buffer.length ≤ s₂.buffSize) (hpos : 0 < s₂.buffSize)
    (hsmall : s₂.buffer.length < 2 ^ 31) (hps : ∀ p ∈ ps, serverFormat.IsFrame p) (hstream : s.buffer ++ todo = ps.flatten)
    (hread : read <+: todo) : s.Received (s₂.setRecvedInfo.1, s₂.setRecvedInfo.2, read) := by
  obtain ⟨rest, rfl⟩ := hread
  rw [← List.append_assoc, ← hbuffer] at hstream
  obtain ⟨hbytes, hframes, hnone⟩ := serverFormat.frames_spec s₂.buffer
  have hlen := congrArg List.length hbytes
  rw [List.length_append] at hlen
  rw [setRecvedInfo_spec hsmall hps hstream]
  refine .inr ⟨rfl, ⟨?_, hpos, ?_, hnone⟩, _, hframes, ?_, rfl, rfl⟩
  · dsimp only
    omega
  · dsimp only
    omega
  · dsimp only
    rw [hbytes, hbuffer]

theorem Sound.recv (h : s.Sound) {r₁ r₂ : RecvMsg} {e : RecvedPacket × CAgentReceiver × List UInt8}
    (hsmall : s.buffer.length + r₁.bytes.length < 2 ^ 31)
    (hfills : s.Fills r₁ → s.buffer.length + r₁.bytes.length + r₂.bytes.length < 2 ^ 31 ∧
      (r₂ = .again ∨ r₂.bytes ≠ [] ∨ (serverFormat.frames (s.buffer ++ r₁.bytes)).1 = []))
    (he : s.recv r₁ r₂ = some e) {todo : List UInt8} {ps : List (List UInt8)} (hps : ∀ p ∈ ps, serverFormat.IsFrame p)
    (hstream : s.buffer ++ todo = ps.flatten) (hread : e.2.2 <+: todo) : s.Received e := by
  unfold CAgentReceiver.recv at he
  obtain ⟨e₁, he₁, he⟩ := Option.bind_eq_some_iff.mp he
  obtain ⟨hbuffer, hbytes, hsize, hroom, hfail, hnothing, hsome⟩ := realRecv_spec h.room h.pos h.small he₁
  have hpos : 0 < e₁.2.1.buffSize := by
    rw [hsize]
    have := h.pos
    split <;> omega
  split at he
  · next hneg =>
    obtain rfl := Option.some.inj he
    refine .inl ⟨rfl, hbuffer, ?_⟩
    dsimp only
    rw [hbuffer, hbytes, (hfail hneg).1, List.append_nil]
    exact h.part
  · split at he
    · next hzero =>
      obtain rfl := Option.some.inj he
      have hnil : e₁.2.2 = [] := by rw [hbytes, hnothing hzero]; rfl
      have hsame : e₁.2.1.buffer = s.buffer := by rw [hbuffer, hnil, List.append_nil]
      refine .inr ⟨rfl, ⟨hroom, hpos, ?_, ?_⟩, [], fun _ hp => absurd hp List.not_mem_nil, ?_, rfl, rfl⟩
      · dsimp only
        rw [hsame]
        exact h.small
      · dsimp only
        rw [hsame]
        exact h.part
      · dsimp only
        rw [hbuffer]
        rfl
    · next hnn hne0 =>
      obtain ⟨e₂, he₂, rfl⟩ := Option.map_eq_some_iff.mp he
      have hbytes₁ : r₁.bytes ≠ [] := hsome (by omega)
      have hsmall₁ : e₁.2.1.buffer.length < 2 ^ 31 := by
        rw [hbuffer, List.length_append, hbytes]
        exact hsmall
      unfold recvAgain at he₂
      split at he₂
      · next hneeds =>
        have hfull : s.Fills r₁ := by
          refine ⟨hbytes₁, ?_⟩
          rw [← hsize, ← hneeds, hbuffer, List.length_append, hbytes]
        obtain ⟨hsmall₂, hend⟩ := hfills hfull
        obtain ⟨hbuffer₂, hbytes₂, hsize₂, hroom₂, hfail₂, -, -⟩ := realRecv_spec hroom hpos hsmall₁ he₂
        have hboth : e₂.2.1.buffer = s.buffer ++ (e₁.2.2 ++ e₂.2.2) := by
          rw [hbuffer₂, hbuffer, List.append_assoc]
        split at hread
        · next hneg =>
          rw [if_pos hneg]
          obtain ⟨hnil, hagain⟩ := hfail₂ hneg
          refine .inl ⟨rfl, hboth, ?_⟩
          have hnone := next_eq_none ((hend.resolve_left hagain).resolve_left (fun h => h hnil))
          dsimp only
          rw [hboth, hbytes₂, hnil, List.append_nil, hbytes]
          exact hnone
        · next hok =>
          rw [if_neg hok]
          refine received_setRecvedInfo hboth hroom₂ ?_ ?_ hps hstream hread
          · rw [hsize₂]
            split <;> omega
          · rw [hboth, List.length_append, List.length_append, hbytes, hbytes₂]
            omega
      · obtain rfl := Option.some.inj he₂
        have hok : ¬ ((0 : Int), e₁.2.1, ([] : List UInt8)).1 < 0 := Int.lt_irrefl 0
        rw [if_neg hok] at hread ⊢
        dsimp only at hread ⊢
        rw [List.append_nil] at hread ⊢
        exact received_setRecvedInfo hbuffer hroom hpos hsmall₁ hps hstream hread

end CAgentReceiver

structure AgentStream where
  receiver : CAgentReceiver := {}
  todo : List UInt8
  received : List UInt8 := []
  delivered : List RecvedPacket := []
  closed : Bool := false

namespace AgentStream

variable (s : AgentStream)

/-- `RecvRequest` of the client, which reads the next bytes of the stream: with an error it ends. -/
def step (r : RecvMsg × RecvMsg) : Option AgentStream :=
  if s.closed then none
  else (s.receiver.recv r.1 r.2).bind fun e =>
    if e.2.2 <+: s.todo then
      let s' := { s with receiver := e.2.1, todo := s.todo.drop e.2.2.length, received := s.received ++ e.2.2 }
      if e.1.err then some { s' with closed := true }
      else if e.1.pktCnt = 0 then some s'
      else some { s' with delivered := s.delivered ++ [e.1] }
    else none

/-- Any stream of packets with headers that are not turned down. -/
def machine : Machine AgentStream (RecvMsg × RecvMsg) where
  start s := ∃ ps : List (List UInt8), (∀ p ∈ ps, serverFormat.IsFrame p) ∧ s = { todo := ps.flatten }
  step := step

/-- **A delivered buffer is tiled by its packets**, and the walk over it visits these. -/
structure Tiled (d : RecvedPacket) : Prop where
  whole : (serverFormat.frames d.buff).2 = []
  count : (serverFormat.frames d.buff).1.length = d.pktCnt
  visits : (decodeAgentRequest d.buff d.pktCnt 0).map (fun x => slice d.buff x.1 x.2) = (serverFormat.frames d.buff).1
  inside : ∀ x ∈ decodeAgentRequest d.buff d.pktCnt 0, x.1 + x.2 ≤ d.buff.length

/-- **The delivered buffers are the complete packets of what is received.** -/
structure Framed : Prop where
  stream : (s.delivered.map RecvedPacket.buff).flatten = (serverFormat.frames s.received).1.flatten
  packets : (s.delivered.map fun d => (serverFormat.frames d.buff).1).flatten = (serverFormat.frames s.received).1
  tiled : ∀ d ∈ s.delivered, Tiled d

/-- The buffer holds fewer than 2^31 bytes; and the second `recv`, after a first that has filled the buffer, does not find the
end of the connection while a complete packet is in the buffer. -/
def Safe (r : RecvMsg × RecvMsg) : Prop :=
  s.receiver.buffer.length + r.1.bytes.length < 2 ^ 31 ∧
    (s.receiver.Fills r.1 → s.receiver.buffer.length + r.1.bytes.length + r.2.bytes.length < 2 ^ 31 ∧
      (r.2 = .again ∨ r.2.bytes ≠ [] ∨ (serverFormat.frames (s.receiver.buffer ++ r.1.bytes)).1 = []))

instance (r : RecvMsg × RecvMsg) : Decidable (s.Safe r) := by unfold Safe; infer_instance

structure Inv : Prop where
  stream : s.received = (s.delivered.map RecvedPacket.buff).flatten ++ s.receiver.buffer
  tiles : ∀ d ∈ s.delivered, ∃ qs : List (List UInt8), (∀ p ∈ qs, serverFormat.IsFrame p) ∧ d.buff = qs.flatten ∧
    d.pktCnt = qs.length
  part : serverFormat.next s.receiver.buffer = none
  sound : s.closed = false → s.receiver.Sound
  coming : s.closed = false → ∃ ps : List (List UInt8), (∀ p ∈ ps, serverFormat.IsFrame p) ∧
    s.receiver.buffer ++ s.todo = ps.flatten

variable {s}

theorem frames_tile {qs : List (List UInt8)} (h : ∀ p ∈ qs, serverFormat.IsFrame p) :
    serverFormat.frames qs.flatten = (qs, []) := by
  have hf := PacketFormat.frames_flatten h (r := []) (if_pos (by decide))
  rwa [List.append_nil] at hf

theorem tiled_of_tile {d : RecvedPacket} {qs : List (List UInt8)} (h : ∀ p ∈ qs, serverFormat.IsFrame p)
    (hbuff : d.buff = qs.flatten) (hcount : d.pktCnt = qs.length) : Tiled d := by
  obtain ⟨hvisits, hinside⟩ := decodeAgentRequest_flatten qs [] h
  rw [List.nil_append] at hvisits hinside
  refine ⟨?_, ?_, ?_, ?_⟩
  · rw [hbuff, frames_tile h]
  · rw [hbuff, frames_tile h, hcount]
  · rw [hbuff, hcount, frames_tile h]
    exact hvisits
  · rw [hbuff, hcount]
    exact hinside

theorem Inv.framed (h : s.Inv) : s.Framed := by
  have hpackets : (s.delivered.map fun d => (serverFormat.frames d.buff).1).flatten.flatten =
      (s.delivered.map RecvedPacket.buff).flatten := by
    rw [List.flatten_flatten, List.map_map]
    congr 1
    refine List.map_congr_left fun d hd => ?_
    obtain ⟨qs, hqs, hbuff, -⟩ := h.tiles d hd
    rw [Function.comp_apply, hbuff, frames_tile hqs]
  have hall : ∀ p ∈ (s.delivered.map fun d => (serverFormat.frames d.buff).1).flatten, serverFormat.IsFrame p := by
    intro p hp
    obtain ⟨l, hl, hp⟩ := List.mem_flatten.mp hp
    obtain ⟨d, -, rfl⟩ := List.mem_map.mp hl
    exact (serverFormat.frames_spec d.buff).2.1 p hp
  have hframes := PacketFormat.frames_flatten hall h.part
  rw [hpackets, ← h.stream] at hframes
  refine ⟨?_, ?_, fun d hd => ?_⟩
  · rw [hframes, hpackets]
  · rw [hframes]
  · obtain ⟨qs, hqs, hbuff, hcount⟩ := h.tiles d hd
    exact tiled_of_tile hqs hbuff hcount

theorem step_inv (s : AgentStream) (r : RecvMsg × RecvMsg) (s' : AgentStream) (h : s.Inv) (hsafe : s.Safe r)
    (hstep : s.step r = some s') : s'.Inv := by
  unfold step at hstep
  split at hstep
  · cases hstep
  · next hclosed =>
    have hopen := Bool.eq_false_iff.mpr hclosed
    obtain ⟨e, he, hstep⟩ := Option.bind_eq_some_iff.mp hstep
    split at hstep
    · next hread =>
      obtain ⟨ps, hps, hstream⟩ := h.coming hopen
      have hreceived := (h.sound hopen).recv hsafe.1 hsafe.2 he hps hstream hread
      obtain ⟨rest, hrest⟩ := hread
      have hdrop : s.todo.drop e.2.2.length = rest := by rw [← hrest, List.drop_left]
      rw [← hrest, ← List.append_assoc] at hstream
      dsimp only at hstep
      rcases hreceived with ⟨herr, hbuffer, hnone⟩ | ⟨herr, hsound, qs, hqs, hbuffer, hcount, hbuff⟩
      · rw [herr, if_pos rfl] at hstep
        obtain rfl := Option.some.inj hstep
        refine ⟨?_, h.tiles, hnone, fun h => (by cases h), fun h => (by cases h)⟩
        dsimp only
        rw [h.stream, hbuffer, List.append_assoc]
      · rw [herr, if_neg Bool.false_ne_true] at hstep
        -- what is behind the delivered packets is a stream of packets
        have hcoming : ∃ ps : List (List UInt8), (∀ p ∈ ps, serverFormat.IsFrame p) ∧ e.2.1.buffer ++ rest = ps.flatten := by
          obtain ⟨ps', hps', hall⟩ := PacketFormat.rest_flatten hstream hps
          rw [hbuffer, PacketFormat.frames_flatten hqs hsound.part] at hps'
          exact ⟨ps', hall, hps'⟩
        split at hstep
        · next hzero =>
          obtain rfl := Option.some.inj hstep
          obtain rfl := List.length_eq_zero_iff.mp (hcount.symm.trans hzero)
          rw [List.flatten_nil, List.nil_append] at hbuffer
          refine ⟨?_, h.tiles, hsound.part, fun _ => hsound, fun _ => ?_⟩
          · dsimp only
            rw [h.stream, List.append_assoc, hbuffer]
          · dsimp only
            rw [hdrop]
            exact hcoming
        · obtain rfl := Option.some.inj hstep
          refine ⟨?_, fun d hd => ?_, hsound.part, fun _ => hsound, fun _ => ?_⟩
          · dsimp only
            rw [h.stream, List.append_assoc, hbuffer, List.map_append, List.flatten_append, List.map_singleton,
              List.flatten_singleton, hbuff, List.append_assoc]
          · rcases List.mem_append.mp hd with hd | hd
            · exact h.tiles d hd
            · rw [List.mem_singleton.mp hd]
              exact ⟨qs, hqs, hbuff, hcount⟩
          · dsimp only
            rw [hdrop]
            exact hcoming
    · cases hstep

/-- **In every run where the end of the connection finds no complete packet in the buffer, the packets of the stream are
delivered.** -/
theorem machine_tiled {s : AgentStream} (h : machine.ReachableMeeting Safe s) : s.Framed := by
  refine (machine.reachableMeeting_induct ?_ step_inv h).framed
  rintro s ⟨ps, hps, rfl⟩
  have hsound : CAgentReceiver.Sound {} := ⟨Nat.zero_le _, by decide, by decide, if_pos (by decide)⟩
  exact ⟨rfl, fun _ hd => absurd hd List.not_mem_nil, hsound.part, fun _ => hsound, fun _ => ⟨ps, hps, rfl⟩⟩

def packetOf (n : Nat) : List UInt8 := [1, 8, 0, 4] ++ leBytes 4 n ++ List.replicate 28 0 ++ List.replicate n 7

theorem step_filled {p : List UInt8} (h : p.length = 4096) : ({ todo := p } : AgentStream).step (.data p, .data []) =
    some { receiver := { buffer := p, buffSize := 8192 }, todo := [], received := p, closed := true } := by
  have hne : p ≠ [] := List.length_pos_iff.mp (by omega)
  have hfirst : CAgentReceiver.realRecv {} (.data p) = some ((p.length : Int), { buffer := p }, p) := by
    unfold CAgentReceiver.realRecv
    rw [if_neg (by decide)]
    dsimp only
    rw [if_pos (show RecvMsg.Possible (4096 - ([] : List UInt8).length) (.data p) from h.le), CAgentReceiver.recvOnce, if_neg hne]
    rfl
  have hsecond : CAgentReceiver.recvAgain { buffer := p } (.data []) = some (-1, { buffer := p, buffSize := 8192 }, []) := by
    have hneeds : CAgentReceiver.NeedsRoom { buffer := p } := h
    unfold CAgentReceiver.recvAgain CAgentReceiver.realRecv
    rw [if_pos hneeds, if_pos hneeds, CAgentReceiver.enlargeBuffer, if_neg (show ¬ 4096 * 2 % 2 ^ 32 = 0 by decide)]
    dsimp only
    rw [if_pos (show RecvMsg.Possible (4096 * 2 % 2 ^ 32 - p.length) (.data []) from Nat.zero_le _), CAgentReceiver.recvOnce, if_pos rfl]
    rfl
  have hpos : ¬ (p.length : Int) < 0 := by omega
  have hnz : ¬ (p.length : Int) = 0 := by omega
  unfold step CAgentReceiver.recv
  rw [if_neg Bool.false_ne_true, hfirst, Option.bind_some, if_neg hpos, if_neg hnz, hsecond]
  dsimp only
  rw [Option.map_some, if_pos (show (-1 : Int) < 0 by decide), Option.bind_some]
  dsimp only
  rw [List.append_nil, if_pos List.prefix_rfl, if_pos rfl, List.drop_length]
  rfl

/-- **A packet that fills the buffer, behind which the connection ends, is lost**: the buffer is doubled for more, and the
end is reported instead of the packet. -/
theorem lost_of_filled {p : List UInt8} (hp : serverFormat.IsFrame p) (h : p.length = 4096) :
    ∃ s, machine.Reachable s ∧ s.received = p ∧ s.closed = true ∧ s.delivered = [] ∧
      serverFormat.frames s.received = ([p], []) ∧ ¬ s.Framed := by
  have hall : ∀ q ∈ [p], serverFormat.IsFrame q := List.forall_mem_singleton.mpr hp
  have hframes := frames_tile hall
  rw [List.flatten_singleton] at hframes
  have hstart : machine.Reachable { todo := p } := ⟨_, [], ⟨[p], hall, by rw [List.flatten_singleton]⟩, rfl⟩
  refine ⟨_, hstart.next (step_filled h), rfl, rfl, rfl, hframes, fun hframed => ?_⟩
  have hnil := hframed.packets
  rw [hframes] at hnil
  cases hnil

theorem machine_lostAtEnd : ∃ s, machine.Reachable s ∧ s.received = packetOf 4060 ∧ s.closed = true ∧ s.delivered = [] ∧
    serverFormat.frames s.received = ([packetOf 4060], []) ∧ ¬ s.Framed :=
  lost_of_filled (by decide +kernel) (by decide +kernel)

theorem machine_tiled_pieces : ∃ s, machine.ReachableMeeting Safe s ∧
    s.delivered = [⟨packetOf 2, 1, false⟩, ⟨packetOf 1, 1, false⟩] ∧ s.Framed := by
  have hall : ∀ p ∈ [packetOf 2, packetOf 1], serverFormat.IsFrame p := by decide
  have hreach : machine.ReachableMeeting Safe _ :=
    ⟨{ todo := [packetOf 2, packetOf 1].flatten },
      [(.data (packetOf 2 ++ (packetOf 1).take 5), .again), (.data ((packetOf 1).drop 5), .again)], ⟨_, hall, rfl⟩,
      by decide +kernel, rfl⟩
  exact ⟨_, hreach, rfl, machine_tiled hreach⟩

end AgentStream

end Dtc
