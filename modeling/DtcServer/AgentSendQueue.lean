import DtcServer.Machine
import DtcServer.Vectors
import Mathlib.Data.List.Perm.Basic
import Mathlib.Data.List.Range
/-!
# AgentSendQueue — the packets for one client of the agent, and who releases them (`CAGSender`, `CFrontWorker`, `CModule`)

A packet is accepted by the sender, which owns it from then on, and is released when its last byte is sent or the worker ends.
-/
namespace Dtc

/-- How `sendmsg` ends: it takes no bytes now, fails, or takes so many of them. -/
inductive SendMsg where
  | again
  | error
  | sent (sd : Nat)
  deriving DecidableEq, Repr

/-- What `sendmsg` may return for these vectors. -/
def SendMsg.Possible (vec : List (List UInt8)) : SendMsg → Prop
  | .sent sd => sd ≤ vec.flatten.length ∧ sd < 2 ^ 31
  | _ => True

instance (vec : List (List UInt8)) (r : SendMsg) : Decidable (r.Possible vec) := by
  unfold SendMsg.Possible; split <;> infer_instance

/-- `CAGSender`: what is left of each packet, and the buffers that they are in. -/
structure CAGSender where
  vec : List (List UInt8) := []
  pkt : List Nat := []
  nVec : Nat := 256
  leftLen : UInt32 := 0
  maxVecLen : Nat

structure SendEnd where
  sender : CAGSender
  ok : Bool := true
  released : List Nat := []
  sent : List UInt8 := []

namespace CAGSender

variable (s : CAGSender)

/-- `AddPacket` fails. -/
def Full : Prop := s.vec.length = s.nVec ∧ s.maxVecLen ≤ s.nVec

instance : Decidable s.Full := by unfold Full; infer_instance

/-- `AddPacket`: `none` where it fails. -/
def addPacket (buf : Nat) (bytes : List UInt8) : Option CAGSender :=
  if s.Full then none
  else some { s with
    nVec := if s.vec.length = s.nVec then s.nVec * 2 else s.nVec
    vec := s.vec ++ [bytes]
    pkt := s.pkt ++ [buf]
    leftLen := s.leftLen + UInt32.ofNat bytes.length }

def send (r : SendMsg) : SendEnd :=
  if s.leftLen = 0 then { sender := s }
  else
    match r with
    | .again => { sender := s }
    | .error => { sender := s, ok := false }
    | .sent sd =>
      let leftLen := s.leftLen - UInt32.ofNat sd
      if sd = 0 then { sender := { s with leftLen } }
      else
        let cursor := (Vectors.advance sd s.vec).1
        { sender := { s with leftLen, vec := (Vectors.advance sd s.vec).2, pkt := s.pkt.drop cursor }
          released := s.pkt.take cursor
          sent := s.vec.flatten.take sd }

def unsent : Nat := s.vec.flatten.length

theorem addPacket_spec {s s' : CAGSender} {buf : Nat} {bytes : List UInt8} (h : s.addPacket buf bytes = some s') :
    s'.vec = s.vec ++ [bytes] ∧ s'.pkt = s.pkt ++ [buf] ∧ s'.leftLen = s.leftLen + UInt32.ofNat bytes.length := by
  unfold addPacket at h
  split at h
  · cases h
  · obtain rfl := Option.some.inj h
    exact ⟨rfl, rfl, rfl⟩

theorem addPacket_eq_none {buf : Nat} {bytes : List UInt8} : s.addPacket buf bytes = none ↔ s.Full := by
  unfold addPacket
  split
  · next h => exact ⟨fun _ => h, fun _ => rfl⟩
  · next h => exact ⟨fun hn => (by cases hn), fun hf => absurd hf h⟩

theorem addPacket_leftLen {s s' : CAGSender} {buf : Nat} {bytes : List UInt8} (h : s.addPacket buf bytes = some s')
    (hleft : s.leftLen.toNat = s.unsent) (hfits : s.unsent + bytes.length < 2 ^ 32) : s'.leftLen.toNat = s'.unsent := by
  obtain ⟨hvec, -, hlen⟩ := addPacket_spec h
  rw [hlen, unsent, hvec, List.flatten_append, List.flatten_singleton, List.length_append, UInt32.toNat_add,
    UInt32.toNat_ofNat', hleft]
  unfold unsent at *
  omega

/-- **What `Send` keeps**: the bytes it sends are the next, the buffers it releases are those of the first packets, and what
is left of the others is not longer than it was. -/
structure Sent (s : CAGSender) (e : SendEnd) : Prop where
  bytes : e.sent ++ e.sender.vec.flatten = s.vec.flatten
  leftLen : e.sender.leftLen.toNat = e.sender.unsent
  first : ∃ k, e.released = s.pkt.take k ∧ e.sender.pkt = s.pkt.drop k ∧
    List.Forall₂ (fun v w => v.length ≤ w.length) e.sender.vec (s.vec.drop k)

theorem sent_self {s : CAGSender} (hleft : s.leftLen.toNat = s.unsent) (ok : Bool) : s.Sent { sender := s, ok } where
  bytes := rfl
  leftLen := hleft
  first := ⟨0, rfl, rfl, List.forall₂_same.mpr fun _ _ => Nat.le_refl _⟩

theorem send_sent {s : CAGSender} {r : SendMsg} (hleft : s.leftLen.toNat = s.unsent) (hr : r.Possible s.vec) :
    s.Sent (s.send r) := by
  unfold send
  split
  · exact sent_self hleft true
  · cases r with
    | again => exact sent_self hleft true
    | error => exact sent_self hleft false
    | sent sd =>
      obtain ⟨hle, h31⟩ := hr
      have hsub : (s.leftLen - UInt32.ofNat sd).toNat = s.unsent - sd := by
        have hsd : (UInt32.ofNat sd).toNat = sd := UInt32.toNat_ofNat_of_lt' (Nat.lt_trans h31 (by decide))
        rw [UInt32.toNat_sub_of_le _ _ (by rw [UInt32.le_iff_toNat_le, hsd, hleft]; exact hle), hsd, hleft]
      dsimp only
      split
      · next h0 =>
        have hsame : s.leftLen - UInt32.ofNat sd = s.leftLen := by
          rw [h0]
          exact UInt32.sub_zero _
        rw [hsame]
        exact sent_self hleft true
      · refine ⟨Vectors.advance_flatten_take _ _, ?_, _, rfl, rfl, Vectors.advance_shorter _ _⟩
        dsimp only
        rw [hsub, unsent, unsent, Vectors.advance_flatten, List.length_drop]

theorem send_fails {s : CAGSender} {r : SendMsg} (h : (s.send r).ok = false) : r = .error ∧ s.leftLen ≠ 0 := by
  unfold send at h
  split at h
  · cases h
  · next h0 =>
    cases r with
    | again => cases h
    | error => exact ⟨rfl, h0⟩
    | sent sd =>
      dsimp only at h
      split at h <;> cases h

end CAGSender

/-! ## The worker of a client -/

/-- A worker, the bytes that it has sent, the buffers that were made for it in the order of their numbers, the packets that
the sender accepted, the buffers that the sender released, and those that `DispatchResponse` did. -/
structure FrontSender where
  sender : CAGSender
  wire : List UInt8 := []
  made : Nat := 0
  accepted : List (Nat × List UInt8) := []
  released : List Nat := []
  dropped : List Nat := []
  gone : Bool := false

/-- What happens to a worker.  `AddPacket` alone is an error reply whose `sendmsg` takes no bytes. -/
inductive FrontAction where
  | dispatchResponse (bytes : List UInt8) (r : SendMsg)
  | replyWithError (packet : List UInt8) (r : SendMsg)
  | outputNotify (r : SendMsg)
  | exit

namespace FrontSender

variable (s : FrontSender)

def addPacket (bytes : List UInt8) : Option FrontSender :=
  (s.sender.addPacket s.made bytes).map fun sender =>
    { s with sender, made := s.made + 1, accepted := s.accepted ++ [(s.made, bytes)] }

/-- A new buffer that `DispatchResponse` releases. -/
def drop : FrontSender := { s with made := s.made + 1, dropped := s.dropped ++ [s.made] }

/-- `Send` of the worker, where the machine can do it; whether it returns 0. -/
def send (r : SendMsg) : Option (Bool × FrontSender) :=
  if r.Possible s.sender.vec then
    let e := s.sender.send r
    some (e.ok, { s with sender := e.sender, wire := s.wire ++ e.sent, released := s.released ++ e.released })
  else none

/-- `EXIT`: the destructor of the sender releases what is queued. -/
def exit : FrontSender := { s with released := s.released ++ s.sender.pkt, gone := true }

/-- `DispatchResponse` with `SendResponse` of the worker, when it is there. -/
def dispatchResponse (bytes : List UInt8) (r : SendMsg) : Option FrontSender :=
  if s.gone then some s.drop
  else
    match s.addPacket bytes with
    | none => some s.drop
    | some s' => (s'.send r).map fun e => if e.1 then e.2 else { e.2 with dropped := e.2.dropped ++ [s.made] }

/-- The end of `ReplyWithError`: neither result is looked at. -/
def replyWithError (packet : List UInt8) (r : SendMsg) : Option FrontSender :=
  (((s.addPacket packet).getD { s with made := s.made + 1 }).send r).map Prod.snd

def outputNotify (r : SendMsg) : Option FrontSender := (s.send r).map fun e => if e.1 then e.2 else e.2.exit

def step : FrontAction → Option FrontSender
  | .dispatchResponse bytes r => if bytes.length < 2 ^ 31 then s.dispatchResponse bytes r else none
  | .replyWithError packet r => if s.gone ∨ 2 ^ 31 ≤ packet.length then none else s.replyWithError packet r
  | .outputNotify r => if s.gone then none else s.outputNotify r
  | .exit => if s.gone then none else some s.exit

/-- The worker of a client, with any limit for its queue. -/
def machine : Machine FrontSender FrontAction where
  start s := ∃ maxVecLen, s = { sender := { maxVecLen } }
  step := step

/-! ## What is sent and released -/

def held : List Nat := if s.gone then [] else s.sender.pkt

/-- **The queue of a worker is in order**: the bytes that are sent and those that are left are those of the accepted packets,
`leftLen` counts what is left, the sender releases the accepted buffers one after the other, while the worker is there each
behind its last byte, and every buffer is held, released by the sender, or released by `DispatchResponse`, once. -/
structure Owned : Prop where
  stream : s.wire ++ s.sender.vec.flatten = (s.accepted.map Prod.snd).flatten
  leftLen : s.sender.leftLen.toNat = s.sender.unsent
  inOrder : s.released ++ s.held = s.accepted.map Prod.fst
  behind : s.gone = false → ((s.accepted.take s.released.length).map Prod.snd).flatten <+: s.wire
  once : (s.released ++ s.held ++ s.dropped).Perm (List.range s.made)

/-- The steps without the defects: a response that is queued can be sent, or at least waits; an error reply finds room; and
the bytes that wait are fewer than 2^32. -/
def Safe : FrontAction → Prop
  | .dispatchResponse bytes r => s.gone = true ∨ s.sender.Full ∨
      s.sender.unsent + bytes.length < 2 ^ 32 ∧ (r = .error → s.sender.unsent + bytes.length = 0)
  | .replyWithError packet _ => ¬ s.sender.Full ∧ s.sender.unsent + packet.length < 2 ^ 32
  | .outputNotify _ => True
  | .exit => True

instance : ∀ a, Decidable (s.Safe a)
  | .dispatchResponse bytes r => inferInstanceAs (Decidable (s.gone = true ∨ s.sender.Full ∨
      s.sender.unsent + bytes.length < 2 ^ 32 ∧ (r = .error → s.sender.unsent + bytes.length = 0)))
  | .replyWithError packet _ => inferInstanceAs (Decidable (¬ s.sender.Full ∧ s.sender.unsent + packet.length < 2 ^ 32))
  | .outputNotify _ => isTrue trivial
  | .exit => isTrue trivial

structure Inv : Prop where
  stream : s.wire ++ s.sender.vec.flatten = (s.accepted.map Prod.snd).flatten
  leftLen : s.sender.leftLen.toNat = s.sender.unsent
  queue : ∃ done pending, s.accepted = done ++ pending ∧ s.sender.pkt = pending.map Prod.fst ∧
    List.Forall₂ (fun v x => v.length ≤ x.2.length) s.sender.vec pending ∧
    s.released = if s.gone then s.accepted.map Prod.fst else done.map Prod.fst
  once : (s.accepted.map Prod.fst ++ s.dropped).Perm (List.range s.made)

variable {s : FrontSender}

theorem Inv.owned (h : s.Inv) : s.Owned := by
  obtain ⟨done, pending, hacc, hpkt, hvec, hrel⟩ := h.queue
  have horder : s.released ++ s.held = s.accepted.map Prod.fst := by
    unfold held
    cases hg : s.gone with
    | true =>
      rw [hrel, hg, if_pos rfl, if_pos rfl, List.append_nil]
    | false =>
      rw [hrel, hg, if_neg Bool.false_ne_true, if_neg Bool.false_ne_true, hpkt, hacc, List.map_append]
  refine ⟨h.stream, h.leftLen, horder, fun hg => ?_, ?_⟩
  · rw [hg, if_neg Bool.false_ne_true] at hrel
    have hdone : s.accepted.take s.released.length = done := by
      rw [hrel, hacc, List.length_map, List.take_left]
    -- both are in front of the accepted bytes, and what is left of the waiting packets is not longer than they are
    have hlen := Vectors.flatten_length_le hvec
    have hstream := h.stream
    rw [hacc, List.map_append, List.flatten_append] at hstream
    have htotal := congrArg List.length hstream
    rw [List.length_append, List.length_append] at htotal
    rw [hdone]
    exact List.prefix_of_prefix_length_le ⟨_, rfl⟩ ⟨_, hstream⟩ (by omega)
  · rw [horder]
    exact h.once

theorem perm_range_succ {l : List Nat} {n : Nat} (h : l.Perm (List.range n)) : (l ++ [n]).Perm (List.range (n + 1)) := by
  rw [List.range_succ]
  exact h.append_right [n]

theorem Inv.drop (h : s.Inv) : s.drop.Inv := by
  refine ⟨h.stream, h.leftLen, h.queue, ?_⟩
  unfold FrontSender.drop
  dsimp only
  rw [← List.append_assoc]
  exact perm_range_succ h.once

theorem Inv.addPacket {s' : FrontSender} {bytes : List UInt8} (h : s.Inv) (hg : s.gone = false)
    (hadd : s.addPacket bytes = some s') (hfits : s.sender.unsent + bytes.length < 2 ^ 32) : s'.Inv ∧ s'.gone = false := by
  obtain ⟨sender, hs, rfl⟩ := Option.map_eq_some_iff.mp hadd
  obtain ⟨hvec, hpkt, -⟩ := CAGSender.addPacket_spec hs
  obtain ⟨done, pending, hacc, hpkt₀, hvec₀, hrel⟩ := h.queue
  refine ⟨⟨?_, CAGSender.addPacket_leftLen hs h.leftLen hfits,
    ⟨done, pending ++ [(s.made, bytes)], ?_, ?_, ?_, ?_⟩, ?_⟩, hg⟩
  · dsimp only
    rw [hvec, List.flatten_append, List.flatten_singleton, ← List.append_assoc, h.stream, List.map_append,
      List.flatten_append, List.map_singleton, List.flatten_singleton]
  · dsimp only
    rw [hacc, List.append_assoc]
  · dsimp only
    rw [hpkt, hpkt₀, List.map_append, List.map_singleton]
  · dsimp only
    rw [hvec]
    exact List.rel_append hvec₀ (List.Forall₂.cons (Nat.le_refl _) List.Forall₂.nil)
  · dsimp only
    rw [hrel, hg, if_neg Bool.false_ne_true, if_neg Bool.false_ne_true]
  · dsimp only
    rw [List.map_append, List.map_singleton, List.append_assoc]
    have hswap : (s.accepted.map Prod.fst ++ ([s.made] ++ s.dropped)).Perm (s.accepted.map Prod.fst ++ (s.dropped ++ [s.made])) :=
      List.perm_append_comm.append_left _
    refine hswap.trans ?_
    rw [← List.append_assoc]
    exact perm_range_succ h.once

theorem Inv.send {s' : FrontSender} {r : SendMsg} {ok : Bool} (h : s.Inv) (hg : s.gone = false)
    (hsend : s.send r = some (ok, s')) : s'.Inv ∧ s'.gone = false := by
  unfold FrontSender.send at hsend
  split at hsend
  · next hr =>
    obtain ⟨-, rfl⟩ := Prod.mk.inj (Option.some.inj hsend)
    obtain ⟨hbytes, hleft, k, hreleased, hpkt, hshort⟩ := CAGSender.send_sent h.leftLen hr
    obtain ⟨done, pending, hacc, hpkt₀, hvec₀, hrel⟩ := h.queue
    rw [hg, if_neg Bool.false_ne_true] at hrel
    refine ⟨⟨?_, hleft, ⟨done ++ pending.take k, pending.drop k, ?_, ?_, ?_, ?_⟩, h.once⟩, hg⟩
    · dsimp only
      rw [List.append_assoc, hbytes, h.stream]
    · dsimp only
      rw [hacc, List.append_assoc, List.take_append_drop]
    · dsimp only
      rw [hpkt, hpkt₀, List.map_drop]
    · exact Vectors.shorter_trans hshort (List.forall₂_drop k hvec₀)
    · dsimp only
      rw [hg, if_neg Bool.false_ne_true, hreleased, hrel, hpkt₀, List.map_append, List.map_take]
  · cases hsend

theorem Inv.exit (h : s.Inv) (hg : s.gone = false) : s.exit.Inv := by
  obtain ⟨done, pending, hacc, hpkt, hvec, hrel⟩ := h.queue
  refine ⟨h.stream, h.leftLen, ⟨done, pending, hacc, hpkt, hvec, ?_⟩, h.once⟩
  unfold FrontSender.exit
  dsimp only
  rw [hrel, hg, if_neg Bool.false_ne_true, if_pos rfl, hpkt, hacc, List.map_append]

theorem send_fst {s' : FrontSender} {r : SendMsg} {ok : Bool} (hsend : s.send r = some (ok, s')) :
    ok = (s.sender.send r).ok := by
  unfold FrontSender.send at hsend
  split at hsend
  · exact (Prod.mk.inj (Option.some.inj hsend)).1.symm
  · cases hsend

theorem step_inv (s : FrontSender) (a : FrontAction) (s' : FrontSender) (h : s.Inv) (hsafe : s.Safe a)
    (hstep : s.step a = some s') : s'.Inv := by
  cases a with
  | dispatchResponse bytes r =>
    simp only [step] at hstep
    split at hstep
    · unfold dispatchResponse at hstep
      cases hg : s.gone with
      | true =>
        rw [hg, if_pos rfl] at hstep
        obtain rfl := Option.some.inj hstep
        exact h.drop
      | false =>
        rw [hg, if_neg Bool.false_ne_true] at hstep
        cases hadd : s.addPacket bytes with
        | none =>
          rw [hadd] at hstep
          obtain rfl := Option.some.inj hstep
          exact h.drop
        | some s₁ =>
          rw [hadd] at hstep
          obtain ⟨⟨ok, s₂⟩, hsend, rfl⟩ := Option.map_eq_some_iff.mp hstep
          have hroom : ¬ s.sender.Full := by
            intro hfull
            obtain ⟨sender, hs, -⟩ := Option.map_eq_some_iff.mp hadd
            rw [s.sender.addPacket_eq_none.mpr hfull] at hs
            cases hs
          obtain ⟨hfits, herror⟩ := (hsafe.resolve_left (by rw [hg]; exact Bool.false_ne_true)).resolve_left hroom
          obtain ⟨h₁, hg₁⟩ := h.addPacket hg hadd hfits
          -- a `Send` that fails had bytes to send
          have hok : ok = true := by
            rw [send_fst hsend]
            by_contra hfail
            obtain ⟨hr, hne⟩ := CAGSender.send_fails (Bool.eq_false_iff.mpr hfail)
            obtain ⟨sender, hs, rfl⟩ := Option.map_eq_some_iff.mp hadd
            refine hne (UInt32.toNat_inj.mp (h₁.leftLen.trans ?_))
            have hzero := herror hr
            rw [CAGSender.unsent, (CAGSender.addPacket_spec hs).1, List.flatten_append, List.flatten_singleton,
              List.length_append]
            exact hzero
          dsimp only
          rw [hok, if_pos rfl]
          exact (h₁.send hg₁ hsend).1
    · cases hstep
  | replyWithError packet r =>
    simp only [step] at hstep
    split at hstep
    · cases hstep
    · next hnot =>
      obtain ⟨hroom, hfits⟩ := hsafe
      have hg : s.gone = false := Bool.eq_false_iff.mpr fun hg => hnot (Or.inl hg)
      obtain ⟨⟨ok, s₂⟩, hsend, rfl⟩ := Option.map_eq_some_iff.mp hstep
      cases hadd : s.addPacket packet with
      | none => exact absurd (s.sender.addPacket_eq_none.mp (Option.map_eq_none_iff.mp hadd)) hroom
      | some s₁ =>
        rw [hadd, Option.getD_some] at hsend
        obtain ⟨h₁, hg₁⟩ := h.addPacket hg hadd hfits
        exact (h₁.send hg₁ hsend).1
  | outputNotify r =>
    simp only [step] at hstep
    split at hstep
    · cases hstep
    · next hg =>
      obtain ⟨⟨ok, s₁⟩, hsend, rfl⟩ := Option.map_eq_some_iff.mp hstep
      obtain ⟨h₁, hg₁⟩ := h.send (Bool.eq_false_iff.mpr hg) hsend
      dsimp only
      split
      · exact h₁
      · exact h₁.exit hg₁
  | exit =>
    simp only [step] at hstep
    split at hstep
    · cases hstep
    · next hg =>
      obtain rfl := Option.some.inj hstep
      exact h.exit (Bool.eq_false_iff.mpr hg)

/-- **In every run without the defects the queue is in order.** -/
theorem machine_owned {s : FrontSender} (h : machine.ReachableMeeting Safe s) : s.Owned := by
  refine (machine.reachableMeeting_induct ?_ step_inv h).owned
  rintro s ⟨maxVecLen, rfl⟩
  exact ⟨rfl, rfl, ⟨[], [], rfl, rfl, List.Forall₂.nil, rfl⟩, List.Perm.refl _⟩

/-- **A response that is queued and cannot be sent is released twice**: by `DispatchResponse`, and with the worker. -/
theorem machine_releasedTwice : ∃ s, machine.Reachable s ∧ s.accepted = [(0, [7])] ∧ s.dropped = [0] ∧ s.released = [0] ∧
    ¬ s.Owned := by
  refine ⟨_, ⟨{ sender := { maxVecLen := 16 } }, [.dispatchResponse [7] .error, .exit], ⟨16, rfl⟩, rfl⟩, rfl, rfl, rfl, ?_⟩
  intro howned
  have hlen := howned.once.length_eq
  revert hlen
  decide

theorem machine_owned_partial : ∃ s, machine.ReachableMeeting Safe s ∧ s.released = [0, 1, 2] ∧ s.wire = [1, 2, 3, 4, 5, 6] ∧
    s.Owned := by
  have hreach : machine.ReachableMeeting Safe _ :=
    ⟨{ sender := { maxVecLen := 16 } }, [.dispatchResponse [1, 2] .again, .dispatchResponse [3, 4, 5] (.sent 4),
      .replyWithError [6, 7] .again, .outputNotify (.sent 2), .exit], ⟨16, rfl⟩, by decide, rfl⟩
  exact ⟨_, hreach, rfl, rfl, machine_owned hreach⟩

end FrontSender

end Dtc
