import DtcServer.AgentSendQueue
/-!
# AgentReplies — the replies to one agent (`CAgentSender`, `CClientAgent`)

A reply is a packet of several vectors. It waits in the result queue until its vectors have room in the sender, and the sender
releases it behind its last byte.
-/
namespace Dtc

abbrev senderMaxVec : Nat := 1024

/-- `CPacket` after `EncodeResult`: its number, and its vectors, of which the first has the header. -/
structure CPacket where
  id : Nat
  v : List (List UInt8)
  nonempty : v ≠ []
  size : v.flatten.length < 2 ^ 31

namespace CPacket

def vecCount (p : CPacket) : Nat := p.v.length

def bytes (p : CPacket) : Nat := p.v.flatten.length

theorem vecCount_pos (p : CPacket) : 0 < p.vecCount := List.length_pos_iff.mpr p.nonempty

def bytesOf (ps : List CPacket) : List UInt8 := ps.flatMap fun p => p.v.flatten

theorem bytesOf_append (ps qs : List CPacket) : bytesOf (ps ++ qs) = bytesOf ps ++ bytesOf qs := List.flatMap_append

theorem bytesOf_cons (p : CPacket) (ps : List CPacket) : bytesOf (p :: ps) = p.v.flatten ++ bytesOf ps := List.flatMap_cons

end CPacket

/-- `CAgentSender`: what is left of the vectors, the packets that they are of, each with its `sendedVecCount`, and whether
an array was written beyond its end. -/
structure CAgentSender where
  vec : List (List UInt8) := []
  totalVec : Nat := 1024
  packet : List (CPacket × Nat) := []
  totalPacket : Nat := 512
  leftLen : UInt32 := 0
  broken : Bool := false
  overrun : Bool := false

structure AgentSendEnd where
  sender : CAgentSender
  ok : Bool := true
  released : List Nat := []
  sent : List UInt8 := []

namespace CAgentSender

variable (s : CAgentSender)

/-- `AddPacket`: only a full array is enlarged, and then once. -/
def addPacket (pkt : CPacket) : CAgentSender :=
  let totalVec := if s.vec.length = s.totalVec then s.totalVec * 2 else s.totalVec
  let totalPacket := if s.packet.length = s.totalPacket then s.totalPacket * 2 else s.totalPacket
  { s with
    totalVec, totalPacket
    vec := s.vec ++ pkt.v
    packet := s.packet ++ [(pkt, 0)]
    leftLen := s.leftLen + UInt32.ofNat pkt.bytes
    overrun := s.overrun || decide (totalVec < s.vec.length + pkt.vecCount) || decide (totalPacket < s.packet.length + 1) }

/-- So many vectors are done: the packets that this ends, and the others. -/
def sendDone : Nat → List (CPacket × Nat) → List Nat × List (CPacket × Nat)
  | n + 1, (p, sendedVecCount) :: ps =>
    if sendedVecCount + 1 = p.vecCount then (p.id :: (sendDone n ps).1, (sendDone n ps).2)
    else sendDone n ((p, sendedVecCount + 1) :: ps)
  | 0, ps => ([], ps)
  -- not so: there are as many vectors as the packets have left
  | _ + 1, [] => ([], [])

def send (r : SendMsg) : AgentSendEnd :=
  if s.leftLen = 0 then { sender := s }
  else
    match r with
    | .again => { sender := s }
    | .error => { sender := { s with broken := true }, ok := false }
    | .sent sd =>
      let leftLen := s.leftLen - UInt32.ofNat sd
      if sd = 0 then { sender := { s with leftLen } }
      else
        let cursor := (Vectors.advance sd s.vec).1
        { sender := { s with leftLen, vec := (Vectors.advance sd s.vec).2, packet := (sendDone cursor s.packet).2 }
          released := (sendDone cursor s.packet).1
          sent := s.vec.flatten.take sd }

def unsent : Nat := s.vec.flatten.length

def leftVecs (ps : List (CPacket × Nat)) : List (List UInt8) := ps.flatMap fun x => x.1.v.drop x.2

structure Sound (s : CAgentSender) : Prop where
  room : s.vec.length ≤ s.totalVec ∧ senderMaxVec ≤ s.totalVec ∧ s.packet.length ≤ s.totalPacket ∧ 0 < s.totalPacket
  inside : s.overrun = false
  leftLen : s.leftLen.toNat = s.unsent
  waits : ∀ x ∈ s.packet, x.2 < x.1.vecCount
  vecs : List.Forall₂ (fun v w => v.length ≤ w.length) s.vec (leftVecs s.packet)

theorem leftVecs_cons (x : CPacket × Nat) (ps : List (CPacket × Nat)) :
    leftVecs (x :: ps) = x.1.v.drop x.2 ++ leftVecs ps := List.flatMap_cons

theorem leftVecs_append (ps qs : List (CPacket × Nat)) : leftVecs (ps ++ qs) = leftVecs ps ++ leftVecs qs :=
  List.flatMap_append

theorem sendDone_spec : ∀ (n : Nat) (ps : List (CPacket × Nat)), (∀ x ∈ ps, x.2 < x.1.vecCount) →
    n ≤ (leftVecs ps).length →
    (∃ k, (sendDone n ps).1 = ((ps.map Prod.fst).take k).map CPacket.id ∧
      (sendDone n ps).2.map Prod.fst = (ps.map Prod.fst).drop k) ∧
    leftVecs (sendDone n ps).2 = (leftVecs ps).drop n ∧ ∀ x ∈ (sendDone n ps).2, x.2 < x.1.vecCount
  | 0, ps, hps, _ => ⟨⟨0, rfl, rfl⟩, rfl, hps⟩
  | n + 1, [], _, hn => absurd hn (Nat.not_succ_le_zero n)
  | n + 1, (p, c) :: ps, hps, hn => by
    obtain ⟨hc, hrest⟩ := List.forall_mem_cons.mp hps
    rw [leftVecs_cons, List.length_append, List.length_drop] at hn
    unfold CPacket.vecCount at hc
    dsimp only at hc hn
    rw [sendDone]
    split
    · next hlast =>
      unfold CPacket.vecCount at hlast
      have hone : (p.v.drop c).length = 1 := by
        rw [List.length_drop]
        omega
      obtain ⟨⟨k, hreleased, hkept⟩, hleft, hwaits⟩ := sendDone_spec n ps hrest (by omega)
      refine ⟨⟨k + 1, congrArg (p.id :: ·) hreleased, hkept⟩, ?_, hwaits⟩
      rw [hleft, leftVecs_cons]
      dsimp only
      have hnil : (p.v.drop c).drop (n + 1) = [] := List.drop_eq_nil_of_le (by omega)
      rw [List.drop_append, hone, hnil, List.nil_append, Nat.add_sub_cancel]
    · next hmore =>
      unfold CPacket.vecCount at hmore
      have hcut : leftVecs ((p, c + 1) :: ps) = (leftVecs ((p, c) :: ps)).drop 1 := by
        rw [leftVecs_cons, leftVecs_cons, List.drop_append_of_le_length (by rw [List.length_drop]; dsimp only; omega),
          List.drop_drop]
      have hlen : n ≤ (leftVecs ((p, c + 1) :: ps)).length := by
        rw [leftVecs_cons, List.length_append, List.length_drop]
        dsimp only
        omega
      have hps' : ∀ x ∈ (p, c + 1) :: ps, x.2 < x.1.vecCount :=
        List.forall_mem_cons.mpr ⟨show c + 1 < p.v.length by omega, hrest⟩
      obtain ⟨hk, hleft, hwaits⟩ := sendDone_spec n ((p, c + 1) :: ps) hps' hlen
      refine ⟨hk, ?_, hwaits⟩
      rw [hleft, hcut, List.drop_drop, Nat.add_comm]

theorem Sound.empty : Sound {} where
  room := by decide
  inside := rfl
  leftLen := rfl
  waits := fun _ hx => absurd hx List.not_mem_nil
  vecs := List.Forall₂.nil

theorem Sound.addPacket {s : CAgentSender} (h : s.Sound) {pkt : CPacket} (hroom : pkt.vecCount + s.vec.length ≤ senderMaxVec)
    (hfits : s.unsent + pkt.bytes < 2 ^ 32) : (s.addPacket pkt).Sound := by
  obtain ⟨hvec, hmax, hpacket, hpos⟩ := h.room
  have hcount := pkt.vecCount_pos
  refine ⟨⟨?_, ?_, ?_, ?_⟩, ?_, ?_, ?_, ?_⟩
  · unfold CAgentSender.addPacket
    dsimp only
    rw [List.length_append]
    unfold CPacket.vecCount at hroom hcount
    split <;> omega
  · unfold CAgentSender.addPacket
    dsimp only
    split <;> omega
  · unfold CAgentSender.addPacket
    dsimp only
    rw [List.length_append, List.length_singleton]
    split <;> omega
  · unfold CAgentSender.addPacket
    dsimp only
    split <;> omega
  · unfold CAgentSender.addPacket
    dsimp only
    rw [h.inside, Bool.false_or, Bool.or_eq_false_iff, decide_eq_false_iff_not, decide_eq_false_iff_not]
    constructor
    · split <;> omega
    · split <;> omega
  · unfold CAgentSender.addPacket CAgentSender.unsent
    dsimp only
    unfold CAgentSender.unsent CPacket.bytes at *
    rw [UInt32.toNat_add, UInt32.toNat_ofNat', h.leftLen, List.flatten_append, List.length_append]
    unfold CAgentSender.unsent
    omega
  · intro x hx
    rcases List.mem_append.mp hx with hx | hx
    · exact h.waits x hx
    · obtain rfl := List.mem_singleton.mp hx
      exact hcount
  · unfold CAgentSender.addPacket
    dsimp only
    rw [leftVecs_append, leftVecs_cons, List.drop_zero]
    refine List.rel_append h.vecs ?_
    rw [show leftVecs [] = [] from rfl, List.append_nil]
    exact List.forall₂_same.mpr fun _ _ => Nat.le_refl _

/-- **What `Send` keeps.** -/
structure Sent (s : CAgentSender) (e : AgentSendEnd) : Prop where
  sound : e.sender.Sound
  bytes : e.sent ++ e.sender.vec.flatten = s.vec.flatten
  first : ∃ k, e.released = ((s.packet.map Prod.fst).take k).map CPacket.id ∧
    e.sender.packet.map Prod.fst = (s.packet.map Prod.fst).drop k

theorem send_sent {s : CAgentSender} {r : SendMsg} (h : s.Sound) (hr : r.Possible s.vec) : s.Sent (s.send r) := by
  have hself : s.Sent { sender := s } := ⟨h, rfl, 0, rfl, rfl⟩
  unfold send
  split
  · exact hself
  · cases r with
    | again => exact hself
    | error => exact ⟨⟨h.room, h.inside, h.leftLen, h.waits, h.vecs⟩, rfl, 0, rfl, rfl⟩
    | sent sd =>
      obtain ⟨hle, h31⟩ := hr
      have hsub : (s.leftLen - UInt32.ofNat sd).toNat = s.unsent - sd := by
        have hsd : (UInt32.ofNat sd).toNat = sd := UInt32.toNat_ofNat_of_lt' (Nat.lt_trans h31 (by decide))
        rw [UInt32.toNat_sub_of_le _ _ (by rw [UInt32.le_iff_toNat_le, hsd, h.leftLen]; exact hle), hsd, h.leftLen]
      dsimp only
      split
      · next h0 =>
        have hsame : s.leftLen - UInt32.ofNat sd = s.leftLen := by
          rw [h0]
          exact UInt32.sub_zero _
        rw [hsame]
        exact hself
      · have hlen := Vectors.advance_length s.vec sd
        have hcursor : (Vectors.advance sd s.vec).1 ≤ (leftVecs s.packet).length := by
          rw [← h.vecs.length_eq]
          omega
        obtain ⟨hfirst, hleft, hwaits⟩ := sendDone_spec _ _ h.waits hcursor
        refine ⟨⟨?_, h.inside, ?_, hwaits, ?_⟩, Vectors.advance_flatten_take _ _, hfirst⟩
        · obtain ⟨hvec, hmax, hpacket, hpos⟩ := h.room
          obtain ⟨k, -, hkept⟩ := hfirst
          have hk := congrArg List.length hkept
          rw [List.length_map, List.length_drop, List.length_map] at hk
          exact ⟨by dsimp only; omega, hmax, by dsimp only; omega, hpos⟩
        · dsimp only
          rw [hsub, unsent, unsent, Vectors.advance_flatten, List.length_drop]
        · dsimp only
          rw [hleft]
          have hcomp := Vectors.shorter_trans (Vectors.advance_shorter s.vec sd)
            (List.forall₂_drop (Vectors.advance sd s.vec).1 h.vecs)
          exact hcomp

theorem send_broken {s : CAgentSender} {r : SendMsg} (h : (s.send r).ok = true) (hb : s.broken = false) :
    (s.send r).sender.broken = false := by
  unfold send at h ⊢
  split
  · exact hb
  · next h0 =>
    rw [if_neg h0] at h
    cases r with
    | again => exact hb
    | error => cases h
    | sent sd =>
      dsimp only
      split <;> exact hb

end CAgentSender

/-! ## The client -/

/-- `CClientAgent`: its sender and result queue, whether output events are enabled, the bytes that it has sent, the replies
in their order, and the packets that are released. -/
structure ClientReplies where
  sender : CAgentSender := {}
  resQueue : List CPacket := []
  output : Bool := false
  wire : List UInt8 := []
  replied : List CPacket := []
  released : List Nat := []
  gone : Bool := false

/-- A task of the client is done, its connection can take bytes again, or it is at its end. -/
inductive ReplyAction where
  | replyNotify (pkt : CPacket) (r : SendMsg)
  | outputNotify (r : SendMsg)
  | close

namespace ClientReplies

open CPacket

variable (s : ClientReplies)

/-- The loop of `SendResult`: packets of the result queue go to the sender as long as their vectors have room. -/
def drain : CAgentSender → List CPacket → CAgentSender × List CPacket
  | sender, pkt :: q =>
    if senderMaxVec < pkt.vecCount + sender.vec.length then (sender, pkt :: q) else drain (sender.addPacket pkt) q
  | sender, [] => (sender, [])

/-- `SendResult`, where `sendmsg` can end so; whether it returns 0. -/
def sendResult (r : SendMsg) : Option (Bool × ClientReplies) :=
  if s.sender.broken then some (false, s)
  else
    let d := drain s.sender s.resQueue
    if r.Possible d.1.vec then
      let e := d.1.send r
      let s' := { s with sender := e.sender, resQueue := d.2, wire := s.wire ++ e.sent, released := s.released ++ e.released }
      some (e.ok, if e.ok then { s' with output := decide (e.sender.leftLen ≠ 0) } else s')
    else none

/-- The destructors of the sender and of the result queue. -/
def delete : ClientReplies :=
  { s with released := s.released ++ s.sender.packet.map (fun x => x.1.id) ++ s.resQueue.map CPacket.id, gone := true }

def orDelete (e : Bool × ClientReplies) : ClientReplies := if e.1 then e.2 else e.2.delete

def addPacket (pkt : CPacket) : ClientReplies := { s with resQueue := s.resQueue ++ [pkt], replied := s.replied ++ [pkt] }

def step : ReplyAction → Option ClientReplies
  | .replyNotify pkt r =>
    -- the packets are numbered as they are made
    if s.gone ∨ pkt.id ≠ s.replied.length then none else ((s.addPacket pkt).sendResult r).map orDelete
  | .outputNotify r => if s.gone then none else (s.sendResult r).map orDelete
  | .close => if s.gone then none else some s.delete

def machine : Machine ClientReplies ReplyAction where
  start s := s = {}
  step := step

def held : List Nat := if s.gone then [] else s.sender.packet.map (fun x => x.1.id) ++ s.resQueue.map CPacket.id

/-- **The replies are in order**: the bytes that are sent, those that the sender has left and those of the result queue are
those of the replies; each packet is released once, in this order, while the client is there behind its last byte; no array is
written beyond its end; and bytes that wait have output events enabled. -/
structure Delivered : Prop where
  stream : s.wire ++ s.sender.vec.flatten ++ bytesOf s.resQueue = bytesOf s.replied
  inOrder : s.released ++ s.held = List.range s.replied.length
  behind : s.gone = false → bytesOf (s.replied.take s.released.length) <+: s.wire
  inside : s.sender.overrun = false
  armed : s.gone = false → s.output = false → s.sender.unsent = 0 ∧ s.resQueue = []

def vecCount : Nat := s.sender.vec.length + (s.resQueue.map CPacket.vecCount).sum

def waiting : Nat := s.sender.unsent + (s.resQueue.map CPacket.bytes).sum

/-- `SendResult` leaves nothing behind that is not asked for: all that waits has room in the sender, or `sendmsg` does not
take all that it is given; and what waits is fewer than 2^32 bytes. -/
def Armed (r : SendMsg) : Prop :=
  s.waiting < 2 ^ 32 ∧ (s.vecCount ≤ senderMaxVec ∨
    (drain s.sender s.resQueue).1.unsent ≠ 0 ∧ r ≠ .sent (drain s.sender s.resQueue).1.unsent)

instance (r : SendMsg) : Decidable (s.Armed r) := by unfold Armed; infer_instance

def Safe : ReplyAction → Prop
  | .replyNotify pkt r => (s.addPacket pkt).Armed r
  | .outputNotify r => s.Armed r
  | .close => True

instance : ∀ a, Decidable (s.Safe a)
  | .replyNotify pkt r => inferInstanceAs (Decidable ((s.addPacket pkt).Armed r))
  | .outputNotify r => inferInstanceAs (Decidable (s.Armed r))
  | .close => isTrue trivial

/-- The replies are those whose last byte is sent, those of the sender, and those of the result queue. -/
structure Queued : Prop where
  sound : s.sender.Sound
  numbered : s.replied.map CPacket.id = List.range s.replied.length
  queue : ∃ done, s.replied = done ++ s.sender.packet.map Prod.fst ++ s.resQueue ∧
    s.wire ++ s.sender.vec.flatten = bytesOf (done ++ s.sender.packet.map Prod.fst) ∧
    s.released = if s.gone then s.replied.map CPacket.id else done.map CPacket.id

structure Inv : Prop extends s.Queued where
  alive : s.gone = false → s.sender.broken = false ∧ (s.output = false → s.sender.unsent = 0 ∧ s.resQueue = [])

variable {s}

theorem ids_map_fst (ps : List (CPacket × Nat)) : ps.map (fun x => x.1.id) = (ps.map Prod.fst).map CPacket.id := by
  rw [List.map_map]
  rfl

theorem drain_spec : ∀ (q : List CPacket) (sender : CAgentSender), sender.Sound →
    sender.unsent + (q.map CPacket.bytes).sum < 2 ^ 32 →
    (drain sender q).1.Sound ∧ (drain sender q).1.broken = sender.broken ∧
      (∃ moved, q = moved ++ (drain sender q).2 ∧
        (drain sender q).1.packet.map Prod.fst = sender.packet.map Prod.fst ++ moved ∧
        (drain sender q).1.vec.flatten = sender.vec.flatten ++ bytesOf moved) ∧
      (sender.vec.length + (q.map CPacket.vecCount).sum ≤ senderMaxVec → (drain sender q).2 = [])
  | [], sender, h, _ => ⟨h, rfl, ⟨[], rfl, (List.append_nil _).symm, (List.append_nil _).symm⟩, fun _ => rfl⟩
  | pkt :: q, sender, h, hfits => by
    rw [List.map_cons, List.sum_cons] at hfits
    rw [drain]
    split
    · next hroom =>
      refine ⟨h, rfl, ⟨[], rfl, (List.append_nil _).symm, (List.append_nil _).symm⟩, fun hle => ?_⟩
      rw [List.map_cons, List.sum_cons] at hle
      omega
    · next hroom =>
      have hadd := h.addPacket (Nat.not_lt.mp hroom) (by omega)
      have hvec : (sender.addPacket pkt).vec = sender.vec ++ pkt.v := rfl
      have hunsent : (sender.addPacket pkt).unsent = sender.unsent + pkt.bytes := by
        rw [CAgentSender.unsent, hvec, List.flatten_append, List.length_append]
        rfl
      obtain ⟨hsound, hbroken, ⟨moved, hq, hpacket, hbytes⟩, hall⟩ := drain_spec q (sender.addPacket pkt) hadd (by omega)
      refine ⟨hsound, hbroken, ⟨pkt :: moved, congrArg (pkt :: ·) hq, ?_, ?_⟩, fun hle => hall ?_⟩
      · rw [hpacket]
        unfold CAgentSender.addPacket
        dsimp only
        rw [List.map_append, List.append_assoc]
        rfl
      · rw [hbytes, hvec, bytesOf_cons, List.flatten_append, List.append_assoc]
      · rw [List.map_cons, List.sum_cons] at hle
        rw [hvec, List.length_append]
        unfold CPacket.vecCount at *
        omega

theorem Queued.sendResult {r : SendMsg} {ok : Bool} {s' : ClientReplies} (h : s.Queued) (hg : s.gone = false)
    (hb : s.sender.broken = false) (harmed : s.Armed r) (hsend : s.sendResult r = some (ok, s')) :
    s'.Queued ∧ s'.gone = false ∧
      (ok = true → s'.sender.broken = false ∧ (s'.output = false → s'.sender.unsent = 0 ∧ s'.resQueue = [])) := by
  obtain ⟨hfits, hroom⟩ := harmed
  obtain ⟨hsound, hbroken, ⟨moved, hq, hpacket, hbytes⟩, hall⟩ := drain_spec s.resQueue s.sender h.sound hfits
  obtain ⟨done, hreplied, hwire, hreleased⟩ := h.queue
  rw [hg, if_neg Bool.false_ne_true] at hreleased
  unfold ClientReplies.sendResult at hsend
  rw [hb, if_neg Bool.false_ne_true] at hsend
  dsimp only at hsend
  split at hsend
  · next hr =>
    obtain ⟨hok, hs'⟩ := Prod.mk.inj (Option.some.inj hsend)
    obtain ⟨hsound', hsent, k, hrel, hkept⟩ := CAgentSender.send_sent hsound hr
    have hqueue : ClientReplies.Queued { s with
        sender := ((drain s.sender s.resQueue).1.send r).sender
        resQueue := (drain s.sender s.resQueue).2
        wire := s.wire ++ ((drain s.sender s.resQueue).1.send r).sent
        released := s.released ++ ((drain s.sender s.resQueue).1.send r).released } := by
      refine ⟨hsound', h.numbered,
        done ++ ((drain s.sender s.resQueue).1.packet.map Prod.fst).take k, ?_, ?_, ?_⟩
      · dsimp only
        rw [hkept, List.append_assoc done, List.take_append_drop, hpacket, hreplied, List.append_assoc, List.append_assoc,
          List.append_assoc, ← hq]
      · dsimp only
        rw [hkept, List.append_assoc done, List.take_append_drop, List.append_assoc, hsent, hbytes, ← List.append_assoc,
          hwire, hpacket, ← List.append_assoc done, bytesOf_append _ moved]
      · dsimp only
        rw [hg, if_neg Bool.false_ne_true, hreleased, hrel, List.map_append]
    cases ok with
    | false =>
      rw [hok, if_neg Bool.false_ne_true] at hs'
      subst hs'
      exact ⟨hqueue, hg, fun h => by cases h⟩
    | true =>
      rw [hok, if_pos rfl] at hs'
      subst hs'
      refine ⟨⟨hqueue.sound, hqueue.numbered, hqueue.queue⟩, hg, fun _ => ⟨?_, fun hout => ?_⟩⟩
      · exact CAgentSender.send_broken hok (hbroken.trans hb)
      · have hzero : ((drain s.sender s.resQueue).1.send r).sender.unsent = 0 := by
          have hleft := of_decide_eq_false hout
          rw [not_not] at hleft
          rw [← hsound'.leftLen, hleft]
          rfl
        refine ⟨hzero, ?_⟩
        rcases hroom with hle | ⟨hne, hr'⟩
        · exact hall hle
        · -- what is sent is all that there was
          exfalso
          have hlen := congrArg List.length hsent
          rw [List.length_append] at hlen
          unfold CAgentSender.unsent at hzero hne hr'
          rw [hzero, Nat.add_zero] at hlen
          unfold CAgentSender.send at hlen
          have h0 : (drain s.sender s.resQueue).1.leftLen ≠ 0 := by
            intro h0
            refine hne ?_
            have := hsound.leftLen
            rw [h0] at this
            exact this.symm
          rw [if_neg h0] at hlen
          cases r with
          | again => exact hne hlen.symm
          | error => exact hne hlen.symm
          | sent sd =>
            dsimp only at hlen
            split at hlen
            · exact hne hlen.symm
            · rw [List.length_take, Nat.min_eq_left hr.1] at hlen
              exact hr' (congrArg SendMsg.sent hlen)
  · cases hsend

theorem Queued.delete (h : s.Queued) (hg : s.gone = false) : s.delete.Inv := by
  obtain ⟨done, hreplied, hwire, hreleased⟩ := h.queue
  refine ⟨⟨h.sound, h.numbered, done, hreplied, hwire, ?_⟩, fun h => by cases h⟩
  unfold ClientReplies.delete
  dsimp only
  rw [hreleased, hg, if_neg Bool.false_ne_true, if_pos rfl, ids_map_fst, hreplied, List.map_append, List.map_append]

theorem Queued.orDelete {r : SendMsg} {e : Bool × ClientReplies} (h : s.Queued) (hg : s.gone = false)
    (hb : s.sender.broken = false) (harmed : s.Armed r) (hsend : s.sendResult r = some e) : (ClientReplies.orDelete e).Inv := by
  obtain ⟨ok, s'⟩ := e
  obtain ⟨hqueued, hg', halive⟩ := h.sendResult hg hb harmed hsend
  unfold ClientReplies.orDelete
  cases ok with
  | true => exact ⟨hqueued, fun _ => halive rfl⟩
  | false => exact hqueued.delete hg'

theorem Queued.addPacket (h : s.Queued) (hg : s.gone = false) {pkt : CPacket} (hid : pkt.id = s.replied.length) :
    (s.addPacket pkt).Queued := by
  obtain ⟨done, hreplied, hwire, hreleased⟩ := h.queue
  rw [hg, if_neg Bool.false_ne_true] at hreleased
  refine ⟨h.sound, ?_, done, ?_, hwire, ?_⟩
  · unfold ClientReplies.addPacket
    dsimp only
    rw [List.map_append, h.numbered, List.length_append, List.map_singleton, hid, List.length_singleton, List.range_succ]
  · unfold ClientReplies.addPacket
    dsimp only
    rw [← List.append_assoc, ← hreplied]
  · unfold ClientReplies.addPacket
    dsimp only
    rw [hg, if_neg Bool.false_ne_true, hreleased]

theorem step_inv (s : ClientReplies) (a : ReplyAction) (s' : ClientReplies) (h : s.Inv) (hsafe : s.Safe a)
    (hstep : s.step a = some s') : s'.Inv := by
  cases a with
  | replyNotify pkt r =>
    simp only [step] at hstep
    split at hstep
    · cases hstep
    · next hnot =>
      rw [not_or, not_not] at hnot
      obtain ⟨hg, hid⟩ := hnot
      obtain ⟨e, hsend, rfl⟩ := Option.map_eq_some_iff.mp hstep
      have hg' := Bool.eq_false_iff.mpr hg
      exact (h.toQueued.addPacket hg' hid).orDelete hg' (h.alive hg').1 hsafe hsend
  | outputNotify r =>
    simp only [step] at hstep
    split at hstep
    · cases hstep
    · next hg =>
      obtain ⟨e, hsend, rfl⟩ := Option.map_eq_some_iff.mp hstep
      have hg' := Bool.eq_false_iff.mpr hg
      exact h.toQueued.orDelete hg' (h.alive hg').1 hsafe hsend
  | close =>
    simp only [step] at hstep
    split at hstep
    · cases hstep
    · next hg =>
      obtain rfl := Option.some.inj hstep
      exact h.toQueued.delete (Bool.eq_false_iff.mpr hg)

theorem leftVecs_length_le {ps : List (CPacket × Nat)} {vec : List (List UInt8)}
    (h : List.Forall₂ (fun v w => v.length ≤ w.length) vec (CAgentSender.leftVecs ps)) :
    vec.flatten.length ≤ (bytesOf (ps.map Prod.fst)).length := by
  have hle := Vectors.flatten_length_le h
  rw [List.map_id'] at hle
  refine Nat.le_trans hle ?_
  clear h hle
  induction ps with
  | nil => exact Nat.le_refl _
  | cons x ps ih =>
    have hcut := congrArg (fun l => l.flatten.length) (List.take_append_drop x.2 x.1.v)
    rw [List.flatten_append, List.length_append] at hcut
    rw [CAgentSender.leftVecs_cons, List.map_cons, bytesOf_cons, List.flatten_append, List.length_append, List.length_append]
    omega

theorem Inv.delivered (h : s.Inv) : s.Delivered := by
  obtain ⟨done, hreplied, hwire, hreleased⟩ := h.queue
  refine ⟨?_, ?_, fun hg => ?_, h.sound.inside, fun hg => (h.alive hg).2⟩
  · rw [hwire, hreplied, bytesOf_append _ s.resQueue]
  · rw [← h.numbered]
    unfold held
    cases hg : s.gone with
    | true => rw [hreleased, hg, if_pos rfl, if_pos rfl, List.append_nil]
    | false =>
      rw [hreleased, hg, if_neg Bool.false_ne_true, if_neg Bool.false_ne_true, ids_map_fst, hreplied, List.map_append,
        List.map_append, List.append_assoc]
  · rw [hg, if_neg Bool.false_ne_true] at hreleased
    have hdone : s.replied.take s.released.length = done := by
      rw [hreleased, hreplied, List.length_map, List.append_assoc, List.take_left]
    have hlen := leftVecs_length_le h.sound.vecs
    rw [bytesOf_append] at hwire
    have htotal := congrArg List.length hwire
    rw [List.length_append, List.length_append] at htotal
    rw [hdone]
    exact List.prefix_of_prefix_length_le ⟨_, rfl⟩ ⟨_, hwire⟩ (by omega)

/-- **In every run where nothing is left behind the replies are in order.** -/
theorem machine_delivered {s : ClientReplies} (h : machine.ReachableMeeting Safe s) : s.Delivered := by
  refine (machine.reachableMeeting_induct ?_ step_inv h).delivered
  rintro s rfl
  exact ⟨⟨CAgentSender.Sound.empty, rfl, [], rfl, rfl, rfl⟩, fun _ => ⟨rfl, fun _ => ⟨rfl, rfl⟩⟩⟩

def ones (id n : Nat) (h : 0 < n ∧ n < 2 ^ 31) : CPacket where
  id := id
  v := List.replicate n [1]
  nonempty := fun h0 => absurd (congrArg List.length h0) (by rw [List.length_replicate, List.length_nil]; omega)
  size := by rw [List.flatten_replicate_singleton, List.length_replicate]; exact h.2

/-- **A reply is left behind**: 1024 vectors wait, the next reply stays in the result queue, `sendmsg` takes all that waits,
and no event is enabled for the reply. -/
theorem machine_leftBehind : ∃ s, machine.Reachable s ∧ s.gone = false ∧ s.output = false ∧ s.sender.unsent = 0 ∧
    s.resQueue.map CPacket.id = [1] ∧ ¬ s.Delivered := by
  have hrun : (machine.run {} [.replyNotify (ones 0 1024 (by decide)) .again,
      .replyNotify (ones 1 1 (by decide)) (.sent 1024)]).map
      (fun s => (s.gone, s.output, s.sender.unsent, s.resQueue.map CPacket.id)) = some (false, false, 0, [1]) := by
    decide +kernel
  obtain ⟨s, hs, he⟩ := Option.map_eq_some_iff.mp hrun
  simp only [Prod.mk.injEq] at he
  obtain ⟨hg, hout, hunsent, hq⟩ := he
  refine ⟨s, ⟨_, _, rfl, hs⟩, hg, hout, hunsent, hq, fun hd => ?_⟩
  rw [(hd.armed hg hout).2] at hq
  cases hq

theorem machine_delivered_pieces : ∃ s, machine.ReachableMeeting Safe s ∧ s.released = [0, 1] ∧ s.wire = [1, 1, 1, 1, 1] ∧
    s.Delivered := by
  have hreach : machine.ReachableMeeting Safe _ :=
    ⟨{}, [.replyNotify (ones 0 2 (by decide)) (.sent 1), .replyNotify (ones 1 3 (by decide)) (.sent 2), .outputNotify (.sent 2)],
      rfl, by decide, rfl⟩
  exact ⟨_, hreach, rfl, rfl, machine_delivered hreach⟩

end ClientReplies

end Dtc
