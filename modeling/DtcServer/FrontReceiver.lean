import DtcServer.Framing
import DtcServer.Machine
import DtcServer.RequestDecode
/-!
# FrontReceiver — the packets of a client of the agent (`CAGReceiver`)

A header says how long its packet is, and the body is read into a buffer of this length.
-/
namespace Dtc

open Bytes

namespace CPacketHeader

theorem bodyLen_ofBytes {p q : List UInt8} (h : p.take headerSize = q.take headerSize) : (ofBytes p).bodyLen = (ofBytes q).bodyLen := by
  have hslice : ∀ (p : List UInt8) (i : Nat), i < sectionTotal → slice p (4 + 4 * i) 4 = slice (p.take headerSize) (4 + 4 * i) 4 := by
    intro p i hi
    unfold sectionTotal at hi
    rw [slice, slice, List.drop_take, List.take_take, Nat.min_eq_left (by unfold headerSize; omega)]
  unfold bodyLen
  congr 1
  refine List.map_congr_left fun i hi => ?_
  have hi' := List.mem_range.mp hi
  show leNat 4 (slice p (4 + 4 * i) 4) = leNat 4 (slice q (4 + 4 * i) 4)
  rw [hslice p i hi', hslice q i hi', h]

variable (header : CPacketHeader)

theorem sectionStart_succ (i : Nat) : header.sectionStart (i + 1) = header.sectionStart i + header.len i := by
  rw [sectionStart, List.range_succ, List.map_append, List.sum_append, List.map_singleton, List.sum_singleton]
  rfl

theorem sectionStart_add_le : ∀ n i, i < n → header.sectionStart i + header.len i ≤ header.sectionStart n
  | n + 1, i, h => by
    rw [header.sectionStart_succ n]
    rcases Nat.lt_succ_iff_lt_or_eq.mp h with h | rfl
    · have := sectionStart_add_le n i h
      omega
    · exact Nat.le_refl _

/-- `GetBodyLen`, a sum of 32 bits. -/
def getBodyLen : Nat := header.bodyLen % 2 ^ 32

end CPacketHeader

/-- The packets that the agent takes: at most `MAXPACKETSIZE` behind the header. -/
def agentFormat : PacketFormat UInt8 where
  header := headerSize
  len h := if (CPacketHeader.ofBytes h).bodyLen ≤ maxPacketSize then some ((CPacketHeader.ofBytes h).bodyLen + headerSize) else none
  pos := headerSize_pos
  header_le h n hn := by
    split at hn
    · rw [← Option.some.inj hn]
      exact Nat.le_add_left _ _
    · cases hn

/-- How `recv` ends: it has no bytes now, fails, or gives some; none at the end of the stream, or when none are asked for. -/
inductive RecvMsg where
  | again
  | error
  | data (bytes : List UInt8)
  deriving DecidableEq, Repr

namespace RecvMsg

def bytes : RecvMsg → List UInt8
  | .data bytes => bytes
  | _ => []

/-- What `recv` may give for so many bytes asked for. -/
def Possible (n : Nat) (r : RecvMsg) : Prop := r.bytes.length ≤ n

instance (n : Nat) (r : RecvMsg) : Decidable (r.Possible n) := by unfold Possible; infer_instance

end RecvMsg

/-- `CAGReceiver`: the bytes of the packet so far, in `m_header` and then in `m_buf`. -/
structure CAGReceiver where
  waitData : Bool := false
  got : List UInt8 := []
  bufSize : Nat := 0

namespace CAGReceiver

variable (s : CAGReceiver)

def getHeader : RecvMsg → Int × CAGReceiver
  | .again => (0, s)
  | .error => (-1, s)
  | .data bytes =>
    if bytes = [] then (-1, s)
    else
      let got := s.got ++ bytes
      if got.length = headerSize then
        let header := CPacketHeader.ofBytes got
        if maxPacketSize < header.getBodyLen then (-1, { s with got })
        else (1, { waitData := true, got, bufSize := header.getBodyLen + headerSize })
      else (0, { s with got })

def getData : RecvMsg → Int × CAGReceiver
  | .again => (0, s)
  | .error => (-1, s)
  | .data bytes =>
    if bytes = [] then (-1, s)
    else
      let got := s.got ++ bytes
      (if got.length = s.bufSize then 1 else 0, { s with got })

/-- `Recv`, with the `recv` of the header and that of the body; the bytes that it reads. -/
def recv (r₁ r₂ : RecvMsg) : Option (Int × CAGReceiver × List UInt8) :=
  if s.waitData then
    if r₂.Possible (s.bufSize - s.got.length) then some ((s.getData r₂).1, (s.getData r₂).2, r₂.bytes) else none
  else if r₁.Possible (headerSize - s.got.length) then
    let h := s.getHeader r₁
    if h.1 < 0 then some (-1, h.2, r₁.bytes)
    else if h.1 = 0 then some (0, h.2, r₁.bytes)
    else if r₂.Possible (h.2.bufSize - h.2.got.length) then
      some ((h.2.getData r₂).1, (h.2.getData r₂).2, r₁.bytes ++ r₂.bytes)
    else none
  else none

/-- The receiver waits for the rest of a header, or of a body whose length it knows. -/
structure Waits : Prop where
  header : s.waitData = false → s.got.length < headerSize
  data : s.waitData = true → headerSize ≤ s.got.length ∧ s.got.length < s.bufSize ∧
    agentFormat.len (s.got.take headerSize) = some s.bufSize

variable {s}

theorem Waits.part (h : s.Waits) : agentFormat.next s.got = none := by
  unfold PacketFormat.next
  cases hw : s.waitData with
  | false => exact if_pos (h.header hw)
  | true =>
    obtain ⟨hle, hlt, hlen⟩ := h.data hw
    have hheader : ¬ s.got.length < agentFormat.header := Nat.not_lt.mpr hle
    rw [if_neg hheader, show agentFormat.header = headerSize from rfl, hlen]
    exact if_pos hlt

theorem waits_reset : Waits {} := ⟨fun _ => (by decide), fun h => by cases h⟩

theorem Waits.getData (h : s.Waits) (hw : s.waitData = true) {r : RecvMsg} (hr : r.Possible (s.bufSize - s.got.length)) :
    (s.getData r).2.got = s.got ++ r.bytes ∧
      ((s.getData r).1 = -1 ∧ r.bytes = [] ∨ (s.getData r).1 = 0 ∧ (s.getData r).2.Waits ∨
        (s.getData r).1 = 1 ∧ agentFormat.IsFrame (s.got ++ r.bytes)) := by
  obtain ⟨hle, hlt, hlen⟩ := h.data hw
  cases r with
  | again => exact ⟨(List.append_nil _).symm, .inr (.inl ⟨rfl, h⟩)⟩
  | error => exact ⟨(List.append_nil _).symm, .inl ⟨rfl, rfl⟩⟩
  | data bytes =>
    have hlong : bytes.length ≤ s.bufSize - s.got.length := hr
    unfold CAGReceiver.getData
    dsimp only [RecvMsg.bytes]
    split
    · next hnil =>
      rw [hnil]
      exact ⟨(List.append_nil _).symm, .inl ⟨rfl, rfl⟩⟩
    · have htake : (s.got ++ bytes).take headerSize = s.got.take headerSize := List.take_append_of_le_length hle
      refine ⟨rfl, .inr ?_⟩
      dsimp only
      split
      · next hfull =>
        refine .inr ⟨rfl, ?_, ?_⟩
        · rw [List.length_append]
          exact Nat.le_trans hle (Nat.le_add_right _ _)
        · rw [show agentFormat.header = headerSize from rfl, htake, hlen, hfull]
      · next hmore =>
        refine .inl ⟨rfl, ⟨fun h => ?_, fun _ => ⟨?_, ?_, ?_⟩⟩⟩
        · exact absurd (hw.symm.trans h) Bool.false_ne_true.symm
        · rw [List.length_append]
          exact Nat.le_trans hle (Nat.le_add_right _ _)
        · rw [List.length_append] at hmore ⊢
          dsimp only
          omega
        · rw [htake]
          exact hlen

/-- **A piece of a header** ends the connection, leaves the receiver waiting for the rest, or tells it the length of the
body; nothing is complete yet. -/
theorem Waits.getHeader (h : s.Waits) (hw : s.waitData = false) {r : RecvMsg} (hr : r.Possible (headerSize - s.got.length))
    (hsafe : (s.got ++ r.bytes).length = headerSize → (CPacketHeader.ofBytes (s.got ++ r.bytes)).bodyLen ≠ 0 ∧
      ((CPacketHeader.ofBytes (s.got ++ r.bytes)).bodyLen < 2 ^ 32 ∨
        maxPacketSize < (CPacketHeader.ofBytes (s.got ++ r.bytes)).getBodyLen)) :
    (s.getHeader r).2.got = s.got ++ r.bytes ∧ agentFormat.next (s.got ++ r.bytes) = none ∧
      ((s.getHeader r).1 = -1 ∨ (s.getHeader r).1 = 0 ∧ (s.getHeader r).2.Waits ∨
        (s.getHeader r).1 = 1 ∧ (s.getHeader r).2.waitData = true ∧ (s.getHeader r).2.Waits) := by
  have hlt := h.header hw
  have hsame : agentFormat.next (s.got ++ []) = none := by
    rw [List.append_nil]
    exact h.part
  cases r with
  | again => exact ⟨(List.append_nil _).symm, hsame, .inr (.inl ⟨rfl, h⟩)⟩
  | error => exact ⟨(List.append_nil _).symm, hsame, .inl rfl⟩
  | data bytes =>
    have hlong : bytes.length ≤ headerSize - s.got.length := hr
    dsimp only [RecvMsg.bytes] at hsafe ⊢
    unfold CAGReceiver.getHeader
    dsimp only
    split
    · next hnil =>
      rw [hnil]
      exact ⟨(List.append_nil _).symm, hsame, .inl rfl⟩
    · split
      · next hfull =>
        obtain ⟨hne, hfits⟩ := hsafe hfull
        have htake : (s.got ++ bytes).take headerSize = s.got ++ bytes := List.take_of_length_le (Nat.le_of_eq hfull)
        split
        · next hbig =>
          -- the sum is larger than what is taken, with and without the wrap-around
          refine ⟨rfl, ?_, .inl rfl⟩
          have hlarge : ¬ (CPacketHeader.ofBytes (s.got ++ bytes)).bodyLen ≤ maxPacketSize := by
            unfold CPacketHeader.getBodyLen at hbig
            omega
          unfold PacketFormat.next agentFormat
          dsimp only
          rw [if_neg (by omega), htake, if_neg hlarge]
        · next hok =>
          have hsum : (CPacketHeader.ofBytes (s.got ++ bytes)).getBodyLen = (CPacketHeader.ofBytes (s.got ++ bytes)).bodyLen :=
            Nat.mod_eq_of_lt (hfits.resolve_right hok)
          have hwaits : CAGReceiver.Waits ⟨true, s.got ++ bytes,
              (CPacketHeader.ofBytes (s.got ++ bytes)).getBodyLen + headerSize⟩ := by
            refine ⟨fun h => (by cases h), fun _ => ⟨Nat.le_of_eq hfull.symm, ?_, ?_⟩⟩
            · dsimp only
              omega
            · unfold agentFormat
              dsimp only
              rw [htake, hsum, if_pos (by omega)]
          exact ⟨rfl, hwaits.part, .inr (.inr ⟨rfl, rfl, hwaits⟩)⟩
      · next hmore =>
        have hwaits : CAGReceiver.Waits { s with got := s.got ++ bytes } := by
          refine ⟨fun _ => ?_, fun h => by rw [hw] at h; cases h⟩
          rw [List.length_append] at hmore ⊢
          omega
        exact ⟨rfl, hwaits.part, .inr (.inl ⟨rfl, hwaits⟩)⟩

/-- **`Recv`** ends the connection, leaves the receiver waiting, or completes a packet; what it has is what it had and what is
read. -/
theorem Waits.recv (h : s.Waits) {r₁ r₂ : RecvMsg} {e : Int × CAGReceiver × List UInt8} (he : s.recv r₁ r₂ = some e)
    (hsafe : s.waitData = false → (s.got ++ r₁.bytes).length = headerSize →
      (CPacketHeader.ofBytes (s.got ++ r₁.bytes)).bodyLen ≠ 0 ∧
      ((CPacketHeader.ofBytes (s.got ++ r₁.bytes)).bodyLen < 2 ^ 32 ∨
        maxPacketSize < (CPacketHeader.ofBytes (s.got ++ r₁.bytes)).getBodyLen)) :
    e.2.1.got = s.got ++ e.2.2 ∧
      (e.1 = -1 ∧ agentFormat.next e.2.1.got = none ∨ e.1 = 0 ∧ e.2.1.Waits ∨
        e.1 = 1 ∧ agentFormat.IsFrame e.2.1.got) := by
  unfold CAGReceiver.recv at he
  split at he
  · next hw =>
    split at he
    · next hr =>
      obtain rfl := Option.some.inj he
      obtain ⟨hgot, hend⟩ := h.getData hw hr
      refine ⟨hgot, ?_⟩
      dsimp only
      rw [hgot]
      rcases hend with ⟨h1, hnil⟩ | h0 | h1
      · rw [hnil, List.append_nil]
        exact .inl ⟨h1, h.part⟩
      · exact .inr (.inl h0)
      · exact .inr (.inr h1)
    · cases he
  · next hw =>
    have hw' := Bool.eq_false_iff.mpr hw
    split at he
    · next hr =>
      obtain ⟨hgot, hnone, hend⟩ := h.getHeader hw' hr (hsafe hw')
      dsimp only at he
      rcases hend with h1 | ⟨h0, hwaits⟩ | ⟨h1, hdata, hwaits⟩
      · rw [h1, if_pos (by decide)] at he
        obtain rfl := Option.some.inj he
        exact ⟨hgot, .inl ⟨rfl, by dsimp only; rw [hgot]; exact hnone⟩⟩
      · rw [h0, if_neg (by decide), if_pos rfl] at he
        obtain rfl := Option.some.inj he
        exact ⟨hgot, .inr (.inl ⟨rfl, hwaits⟩)⟩
      · rw [h1, if_neg (by decide), if_neg (by decide)] at he
        split at he
        · next hr₂ =>
          obtain rfl := Option.some.inj he
          obtain ⟨hgot₂, hend₂⟩ := hwaits.getData hdata hr₂
          rw [hgot] at hgot₂ hend₂
          refine ⟨by dsimp only; rw [hgot₂, List.append_assoc], ?_⟩
          dsimp only
          rw [hgot₂]
          rcases hend₂ with ⟨h1, hnil⟩ | h0 | h1
          · rw [hnil, List.append_nil]
            exact .inl ⟨h1, hnone⟩
          · exact .inr (.inl h0)
          · exact .inr (.inr h1)
        · cases he
    · cases he

end CAGReceiver

/-- The receiver of a client, the bytes that are received, and the packets that are delivered. -/
structure FrontStream where
  receiver : CAGReceiver := {}
  received : List UInt8 := []
  delivered : List (List UInt8) := []
  closed : Bool := false

namespace FrontStream

variable (s : FrontStream)

/-- One turn of the loop of `CFrontWorker::Recv`; a packet is taken with `GetPacket`, which resets the receiver. -/
def step (r : RecvMsg × RecvMsg) : Option FrontStream :=
  if s.closed then none
  else (s.receiver.recv r.1 r.2).map fun e =>
    let s' := { s with received := s.received ++ e.2.2 }
    if e.1 < 0 then { s' with receiver := e.2.1, closed := true }
    else if e.1 = 0 then { s' with receiver := e.2.1 }
    else { s' with receiver := {}, delivered := s.delivered ++ [e.2.1.got] }

def machine : Machine FrontStream (RecvMsg × RecvMsg) where
  start s := s = {}
  step := step

/-- **The delivered packets are those of the stream**, and the lengths of a packet's sections add up to that of its buffer, so
every section is inside. -/
structure Framed : Prop where
  delivered : s.delivered = (agentFormat.frames s.received).1
  length : ∀ p ∈ s.delivered, headerSize + (CPacketHeader.ofBytes p).bodyLen = p.length
  sections : ∀ p ∈ s.delivered, ∀ i < sectionTotal,
    headerSize + (CPacketHeader.ofBytes p).sectionStart i + (CPacketHeader.ofBytes p).len i ≤ p.length

/-- A header that is complete announces a body, and its lengths add up to less than 2^32, or to more than is taken after the
wrap-around, too. -/
def Safe (r : RecvMsg × RecvMsg) : Prop :=
  s.receiver.waitData = false → (s.receiver.got ++ r.1.bytes).length = headerSize →
    let header := CPacketHeader.ofBytes (s.receiver.got ++ r.1.bytes)
    header.bodyLen ≠ 0 ∧ (header.bodyLen < 2 ^ 32 ∨ maxPacketSize < header.getBodyLen)

instance (r : RecvMsg × RecvMsg) : Decidable (s.Safe r) := by unfold Safe; infer_instance

/-- The bytes are those of complete packets and of a part of the next. -/
structure Inv : Prop where
  stream : s.received = s.delivered.flatten ++ s.receiver.got
  frames : ∀ p ∈ s.delivered, agentFormat.IsFrame p
  part : agentFormat.next s.receiver.got = none
  waits : s.closed = false → s.receiver.Waits

variable {s}

theorem length_of_isFrame {p : List UInt8} (h : agentFormat.IsFrame p) : headerSize + (CPacketHeader.ofBytes p).bodyLen = p.length := by
  obtain ⟨-, hlen⟩ := h
  have hbody := CPacketHeader.bodyLen_ofBytes (p := p.take headerSize) (q := p) (by rw [List.take_take, Nat.min_self])
  unfold agentFormat at hlen
  dsimp only at hlen
  rw [hbody] at hlen
  split at hlen
  · rw [← Option.some.inj hlen, Nat.add_comm]
  · cases hlen

theorem Inv.framed (h : s.Inv) : s.Framed := by
  have hlength : ∀ p ∈ s.delivered, headerSize + (CPacketHeader.ofBytes p).bodyLen = p.length :=
    fun p hp => length_of_isFrame (h.frames p hp)
  refine ⟨?_, hlength, fun p hp i hi => ?_⟩
  · rw [h.stream, PacketFormat.frames_flatten h.frames h.part]
  · have hsection := (CPacketHeader.ofBytes p).sectionStart_add_le sectionTotal i hi
    have hp' := hlength p hp
    unfold CPacketHeader.bodyLen at hp'
    unfold CPacketHeader.sectionStart at *
    omega

theorem step_inv (s : FrontStream) (r : RecvMsg × RecvMsg) (s' : FrontStream) (h : s.Inv) (hsafe : s.Safe r)
    (hstep : s.step r = some s') : s'.Inv := by
  unfold step at hstep
  split at hstep
  · cases hstep
  · next hclosed =>
    have hopen := Bool.eq_false_iff.mpr hclosed
    obtain ⟨e, he, rfl⟩ := Option.map_eq_some_iff.mp hstep
    obtain ⟨hgot, hend⟩ := (h.waits hopen).recv he hsafe
    have hstream : s.received ++ e.2.2 = s.delivered.flatten ++ e.2.1.got := by
      rw [h.stream, hgot, List.append_assoc]
    dsimp only
    rcases hend with ⟨h1, hnone⟩ | ⟨h0, hwaits⟩ | ⟨h1, hframe⟩
    · rw [h1, if_pos (by decide)]
      exact ⟨hstream, h.frames, hnone, fun h => by cases h⟩
    · rw [h0, if_neg (by decide), if_pos rfl]
      exact ⟨hstream, h.frames, hwaits.part, fun _ => hwaits⟩
    · rw [h1, if_neg (by decide), if_neg (by decide)]
      refine ⟨?_, fun p hp => ?_, CAGReceiver.waits_reset.part, fun _ => CAGReceiver.waits_reset⟩
      · dsimp only
        rw [List.flatten_append, List.flatten_singleton, List.append_nil, hstream]
      · rcases List.mem_append.mp hp with hp | hp
        · exact h.frames p hp
        · rw [List.mem_singleton.mp hp]
          exact hframe

/-- **In every run whose headers announce a body and do not wrap around, the packets of the stream are delivered.** -/
theorem machine_framed {s : FrontStream} (h : machine.ReachableMeeting Safe s) : s.Framed := by
  refine (machine.reachableMeeting_induct ?_ step_inv h).framed
  rintro s rfl
  exact ⟨rfl, fun _ hp => absurd hp List.not_mem_nil, CAGReceiver.waits_reset.part, fun _ => CAGReceiver.waits_reset⟩

/-- A header whose first two sections and the third have these lengths. -/
def headerOf (a b c : Nat) : List UInt8 :=
  [1, 8, 0, 4] ++ leBytes 4 a ++ leBytes 4 b ++ leBytes 4 c ++ List.replicate 20 0

/-- **A packet without a body ends the connection**, as `recv` gives nothing where nothing is asked for; and **a packet whose
lengths add up to 2^32 + 1 is delivered with one byte behind its header**. -/
theorem machine_lostPacket :
    (∃ s, machine.Reachable s ∧ s.received = headerOf 0 0 0 ∧ s.closed = true ∧ s.delivered = [] ∧
      agentFormat.frames s.received = ([headerOf 0 0 0], []) ∧ ¬ s.Framed) ∧
    ∃ s, machine.Reachable s ∧ s.delivered = [headerOf (2 ^ 31) (2 ^ 31) 1 ++ [7]] ∧ ¬ s.Framed := by
  constructor
  · have hrun : (machine.run {} [(.data (headerOf 0 0 0), .data [])]).map (fun s => (s.received, s.closed, s.delivered)) =
        some (headerOf 0 0 0, true, []) := by decide
    obtain ⟨s, hs, he⟩ := Option.map_eq_some_iff.mp hrun
    simp only [Prod.mk.injEq] at he
    obtain ⟨hreceived, hclosed, hdelivered⟩ := he
    have hframes : agentFormat.frames s.received = ([headerOf 0 0 0], []) := by
      rw [hreceived]
      decide
    refine ⟨s, ⟨_, _, rfl, hs⟩, hreceived, hclosed, hdelivered, hframes, fun h => ?_⟩
    have hnil := h.delivered
    rw [hdelivered, hframes] at hnil
    cases hnil
  · have hrun : (machine.run {} [(.data (headerOf (2 ^ 31) (2 ^ 31) 1), .data [7])]).map FrontStream.delivered =
        some [headerOf (2 ^ 31) (2 ^ 31) 1 ++ [7]] := by decide
    obtain ⟨s, hs, hdelivered⟩ := Option.map_eq_some_iff.mp hrun
    refine ⟨s, ⟨_, _, rfl, hs⟩, hdelivered, fun h => ?_⟩
    have hlength := h.length (headerOf (2 ^ 31) (2 ^ 31) 1 ++ [7]) (by rw [hdelivered]; exact List.mem_cons_self)
    revert hlength
    decide

theorem machine_framed_pieces : ∃ s, machine.ReachableMeeting Safe s ∧ s.delivered = [headerOf 1 0 2 ++ [5, 6, 7]] ∧
    s.Framed := by
  have hreach : machine.ReachableMeeting Safe _ :=
    ⟨{}, [(.data ((headerOf 1 0 2).take 1), .again), (.data ((headerOf 1 0 2).drop 1), .data [5]), (.again, .data [6, 7])],
      rfl, by decide, rfl⟩
  exact ⟨_, hreach, rfl, machine_framed hreach⟩

end FrontStream

end Dtc
