import DtcServer.FieldListCodec
import DtcServer.FrontReceiver
/-!
# FrontWorker — the requests of a client of the agent (`CFrontWorker`)

The agent sends a request to the server that its packed key hashes to.
-/
namespace Dtc

open Bytes Decoding

/-- `DRequest` -/
def cmdNop : UInt8 := 0
def cmdResultCode : UInt8 := 1
def cmdSvrAdmin : UInt8 := 3
def cmdInsert : UInt8 := 6

def flagKeepAlive : UInt8 := 1

def textBytes (s : String) : List UInt8 := s.toList.map fun c => UInt8.ofNat c.toNat

/-- What `ExtractPackedKey` gives; `agentId` for a packet that has one. -/
structure ExtractedKey where
  packedKey : List UInt8
  accessToken : List UInt8
  agentId : Option (BitVec 64)
  deriving DecidableEq, Repr

/-- `CFrontWorker`, with the counter of the requests without a key, the packets that are queued for the client, and those that
are sent to a server with their keys. -/
structure CFrontWorker where
  id : BitVec 64
  randomHashSeed : UInt64 := 1
  replies : List (List UInt8) := []
  dispatched : List (List UInt8 × List UInt8) := []

namespace CFrontWorker

section Extract

variable (scanFloat : List UInt8 → Option (BitVec 64)) (packet : List UInt8)

/-- `DecodeSimpleSection` of `len` bytes of a packet; any error is -1. -/
def decodeSectionAt (pos len : Nat) (d : SectionDefinition) (kt : Nat) : Decoding Int SimpleSection := do
  let bin ← bytes (packet.drop pos) len
  (decodeSimpleSection scanFloat bin { definition := d } kt).handle (fun _ => fail (-1)) pure

def decodeVersionInfo : Decoding Int SimpleSection :=
  decodeSectionAt scanFloat packet headerSize ((CPacketHeader.ofBytes packet).len 0) versionInfoDefinition FieldType.none.code

def decodeRequestInfo (keyType : Nat) : Decoding Int SimpleSection :=
  decodeSectionAt scanFloat packet (headerSize + (CPacketHeader.ofBytes packet).sectionStart 2)
    ((CPacketHeader.ofBytes packet).len 2) requestInfoDefinition (keyType % 256)

end Extract

/-- `KeyType`, an `int`. -/
def keyType (vi : SimpleSection) : Nat := (vi.tagValue 9).u64 % 2 ^ 32

def accessToken (vi : SimpleSection) : List UInt8 := if vi.tagPresent 18 then cString (vi.tagValue 18).str else []

def agentId (vi : SimpleSection) : Option (BitVec 64) :=
  if vi.tagPresent 17 then some (BitVec.ofNat 64 (vi.tagValue 17).u64) else none

def IntegerKey (keyType : Nat) : Prop := keyType = FieldType.signed.code ∨ keyType = FieldType.unsigned.code

instance (keyType : Nat) : Decidable (IntegerKey keyType) := inferInstanceAs (Decidable (_ ∨ _))

def packKey (keyType : Nat) (key : DataValue) : Option (List UInt8) :=
  if IntegerKey keyType then some (valueBytes (UInt64.ofNat key.u64) 8)
  else if keyType = FieldType.string.code then some (packString (key.str.map internalToLower))
  else if keyType = FieldType.binary.code then some (packString key.str)
  else none

/-- The switch over the type of the key: a key that is read is taken to be there. -/
def switchKeyType (keyType : Nat) (key : Option DataValue) : Decoding Int (List UInt8) :=
  match key with
  | some key =>
    match packKey keyType key with
    | some packedKey => pure packedKey
    | none => fail (-1)
  | none =>
    if IntegerKey keyType ∨ keyType = FieldType.string.code ∨ keyType = FieldType.binary.code then .error .noEntry
    else fail (-1)

section Extract

variable (scanFloat : List UInt8 → Option (BitVec 64)) (packet : List UInt8)

/-- `ExtractPackedKey`, and the counter after it. -/
def extractPackedKey (randomHashSeed : UInt64) : UInt64 × Decoding Int ExtractedKey :=
  let header := CPacketHeader.ofBytes packet
  if header.cmd = cmdNop then
    (randomHashSeed + 1, do
      let vi ← decodeVersionInfo scanFloat packet
      pure ⟨valueBytes randomHashSeed 8, accessToken vi, agentId vi⟩)
  else
    (randomHashSeed, do
      let vi ← decodeVersionInfo scanFloat packet
      let qi ← decodeRequestInfo scanFloat packet (keyType vi)
      if header.flags &&& flagMultiKeyValue ≠ 0 then fail (-1)
      else if vi.tagPresent 10 ∧ 1 < (vi.tagValue 10).u64 then fail (-1)
      else if IntegerKey (keyType vi) ∧ header.cmd = cmdInsert ∧ qi.key = none then
        -- an auto-increment key
        pure ⟨valueBytes 1 8, accessToken vi, agentId vi⟩
      else do
        let packedKey ← switchKeyType (keyType vi) qi.key
        pure ⟨packedKey, accessToken vi, agentId vi⟩)

end Extract

section Recv

variable (scanFloat : List UInt8 → Option (BitVec 64)) (printFloat : BitVec 64 → List UInt8) (s : CFrontWorker)
  (packet : List UInt8)

def errorInfo (now : UInt32) (errMsg : String) : SimpleSection :=
  SimpleSection.setTags { definition := resultInfoDefinition }
    [(5, .word 0), (1, .word (BitVec.ofInt 64 (-ecServerError))), (2, .bin (textBytes "Agent::FrontWorker")),
      (3, .bin (textBytes errMsg)), (8, .word (BitVec.ofNat 64 now.toNat))]

/-- The packet of an error reply; no result info has a key, so the type of the key does not matter. -/
def errorPacket (now : UInt32) (errMsg : String) (vi : SimpleSection) : List UInt8 :=
  let versionInfo := encodeSimpleSection printFloat vi .none
  let resultInfo := encodeSimpleSection printFloat (errorInfo now errMsg) (FieldType.ofCode (keyType vi))
  [1, 8, flagKeepAlive ||| ((CPacketHeader.ofBytes packet).flags &&& flagMultiKeyValue), cmdResultCode] ++
    leBytes 4 versionInfo.length ++ leBytes 4 0 ++ leBytes 4 0 ++ leBytes 4 resultInfo.length ++
    List.replicate 16 0 ++ versionInfo ++ resultInfo

/-- `ReplyWithError`: the reply repeats the version info, so there is none where this is not decoded. -/
def replyWithError (now : UInt32) (errMsg : String) : Decoding Empty CFrontWorker :=
  (decodeVersionInfo scanFloat packet).handle (fun _ => pure s) fun vi =>
    pure { s with replies := s.replies ++ [errorPacket printFloat packet now errMsg vi] }

def encodeAgentIdToNewRequest (id : BitVec 64) : Decoding Int (List UInt8) := do
  let vi ← decodeVersionInfo scanFloat packet
  let header := CPacketHeader.ofBytes packet
  let newVersionInfo := encodeSimpleSection printFloat (vi.setThisTag 17 (.word id)) .none
  pure (packet.take 4 ++ leBytes 4 newVersionInfo.length ++ slice packet 8 (headerSize - 8) ++ newVersionInfo ++
    packet.drop (headerSize + header.len 0))

/-- What `Recv` does with a packet; `dispatch` is `DispatchRequest`, which fails where there is no server. -/
def recvPacket (dispatch : List UInt8 → List UInt8 → Bool) (verifyToken : List UInt8) (now : UInt32) :
    Decoding Empty CFrontWorker :=
  if (CPacketHeader.ofBytes packet).cmd = cmdSvrAdmin then
    s.replyWithError scanFloat printFloat packet now "SvrAdmin not support"
  else
    let extracted := extractPackedKey scanFloat packet s.randomHashSeed
    let s := { s with randomHashSeed := extracted.1 }
    extracted.2.handle (fun _ => s.replyWithError scanFloat printFloat packet now "ExtractPackedKey error") fun key =>
      if verifyToken ≠ [] ∧ verifyToken ≠ key.accessToken then
        s.replyWithError scanFloat printFloat packet now "verify token error"
      else
        let id := match key.agentId with
          | none => s.id
          | some agentId => agentId <<< 32 ||| s.id
        (encodeAgentIdToNewRequest scanFloat printFloat packet id).handle
          (fun _ => s.replyWithError scanFloat printFloat packet now "EncodeAgentIdToNewRequest error") fun newPacket =>
            if dispatch key.packedKey newPacket then
              pure { s with dispatched := s.dispatched ++ [(key.packedKey, newPacket)] }
            else s.replyWithError scanFloat printFloat packet now "DispatchRequest Error"

end Recv

/-! ## What is extracted -/

section Extracted

variable (scanFloat : List UInt8 → Option (BitVec 64)) (packet : List UInt8)

def Readable : Prop := ∃ vi, decodeVersionInfo scanFloat packet = .ok vi

def MissesKey : Prop :=
  let header := CPacketHeader.ofBytes packet
  header.cmd ≠ cmdNop ∧ header.flags &&& flagMultiKeyValue = 0 ∧
    ∃ vi qi, decodeVersionInfo scanFloat packet = .ok vi ∧ decodeRequestInfo scanFloat packet (keyType vi) = .ok qi ∧ ¬ (vi.tagPresent 10 ∧ 1 < (vi.tagValue 10).u64) ∧
    qi.key = none ∧ (IntegerKey (keyType vi) ∧ header.cmd ≠ cmdInsert ∨ keyType vi = FieldType.string.code ∨
      keyType vi = FieldType.binary.code)

/-- **The packed key of a request** is that of its key; a `Nop` has the next number, and an `Insert` without an integer key
has the key 1. -/
def IsPackedKey (randomHashSeed : UInt64) (packedKey : List UInt8) : Prop :=
  let header := CPacketHeader.ofBytes packet
  header.cmd = cmdNop ∧ packedKey = valueBytes randomHashSeed 8 ∨
    header.cmd ≠ cmdNop ∧ ∃ vi qi, decodeVersionInfo scanFloat packet = .ok vi ∧
      decodeRequestInfo scanFloat packet (keyType vi) = .ok qi ∧
      ((∃ key, qi.key = some key ∧ packKey (keyType vi) key = some packedKey) ∨
        header.cmd = cmdInsert ∧ IntegerKey (keyType vi) ∧ qi.key = none ∧ packedKey = valueBytes 1 8)

variable {scanFloat packet}

theorem section_inside (h : agentFormat.IsFrame packet) {i : Nat} (hi : i < sectionTotal) :
    headerSize + (CPacketHeader.ofBytes packet).sectionStart i + (CPacketHeader.ofBytes packet).len i ≤ packet.length := by
  obtain ⟨-, hlen⟩ := h
  have hbody : (CPacketHeader.ofBytes (packet.take headerSize)).bodyLen = (CPacketHeader.ofBytes packet).bodyLen :=
    CPacketHeader.bodyLen_ofBytes (by rw [List.take_take, Nat.min_self])
  unfold agentFormat at hlen
  dsimp only at hlen
  split at hlen
  · have hlen := Option.some.inj hlen
    have hle := (CPacketHeader.ofBytes packet).sectionStart_add_le sectionTotal i hi
    unfold CPacketHeader.bodyLen at hbody hlen
    unfold CPacketHeader.sectionStart at hle ⊢
    omega
  · cases hlen

theorem decodeSectionAt_ends {pos len : Nat} (h : pos + len ≤ packet.length) (d : SectionDefinition) (kt : Nat) :
    Ends (decodeSectionAt scanFloat packet pos len d kt) (fun _ => True) (fun _ => True) := by
  unfold decodeSectionAt
  refine (ends_bytes (by rw [List.length_drop]; omega)).bind fun bin _ => ?_
  have hsection : Ends (decodeSimpleSection scanFloat bin { definition := d } kt) (fun _ => True) (·.1 ≠ 0) :=
    decodeSimpleSection_ends _ _
  rcases hsection.ok_or_fail with ⟨ss, hss, -⟩ | ⟨e, he, -⟩
  · rw [hss]
    trivial
  · rw [he]
    trivial

theorem decodeVersionInfo_ends (h : agentFormat.IsFrame packet) :
    Ends (decodeVersionInfo scanFloat packet) (fun _ => True) (fun _ => True) :=
  decodeSectionAt_ends (section_inside h (i := 0) (by decide)) _ _

theorem decodeRequestInfo_ends (h : agentFormat.IsFrame packet) (keyType : Nat) :
    Ends (decodeRequestInfo scanFloat packet keyType) (fun _ => True) (fun _ => True) :=
  decodeSectionAt_ends (section_inside h (i := 2) (by decide)) _ _

theorem switchKeyType_some (keyType : Nat) (key : DataValue) :
    (∃ packedKey, switchKeyType keyType (some key) = .ok packedKey ∧ packKey keyType key = some packedKey) ∨
      switchKeyType keyType (some key) = fail (-1) := by
  cases hp : packKey keyType key with
  | some packedKey =>
    refine .inl ⟨packedKey, ?_, rfl⟩
    rw [switchKeyType, hp]
    rfl
  | none =>
    refine .inr ?_
    rw [switchKeyType, hp]

theorem extractPackedKey_ends (hframe : agentFormat.IsFrame packet) (hkey : ¬ MissesKey scanFloat packet) (seed : UInt64) :
    Ends (extractPackedKey scanFloat packet seed).2
      (fun k => Readable scanFloat packet ∧ IsPackedKey scanFloat packet seed k.packedKey) (fun _ => True) := by
  unfold extractPackedKey
  dsimp only
  have hversion : Ends (decodeVersionInfo scanFloat packet) (fun _ => True) (fun _ => True) := decodeVersionInfo_ends hframe
  rcases hversion.ok_or_fail with ⟨vi, hvi, -⟩ | ⟨e, he, -⟩
  · have hreadable : Readable scanFloat packet := ⟨vi, hvi⟩
    split
    · next hnop =>
      rw [hvi]
      exact ⟨hreadable, .inl ⟨hnop, rfl⟩⟩
    · next hnop =>
      rw [hvi, ok_bind]
      have hrequest : Ends (decodeRequestInfo scanFloat packet (keyType vi)) (fun _ => True) (fun _ => True) :=
        decodeRequestInfo_ends hframe _
      rcases hrequest.ok_or_fail with ⟨qi, hqi, -⟩ | ⟨e, he, -⟩
      · rw [hqi, ok_bind]
        split
        · trivial
        · next hmulti =>
          split
          · trivial
          · next hcount =>
            split
            · next hinsert =>
              obtain ⟨hint, hcmd, hnone⟩ := hinsert
              exact ⟨hreadable, .inr ⟨hnop, vi, qi, hvi, hqi, .inr ⟨hcmd, hint, hnone, rfl⟩⟩⟩
            · next hinsert =>
              cases hk : qi.key with
              | some key =>
                rcases switchKeyType_some (keyType vi) key with ⟨packedKey, hp, hpack⟩ | hf
                · rw [hp]
                  exact ⟨hreadable, .inr ⟨hnop, vi, qi, hvi, hqi, .inl ⟨key, hk, hpack⟩⟩⟩
                · rw [hf]
                  trivial
              | none =>
                rw [switchKeyType]
                split
                · next htype =>
                  refine absurd ⟨hnop, Classical.not_not.mp hmulti, vi, qi, hvi, hqi, hcount, hk, ?_⟩ hkey
                  exact htype.imp_left fun hint => ⟨hint, fun hcmd => hinsert ⟨hint, hcmd, hk⟩⟩
                · trivial
      · rw [he]
        trivial
  · split
    · rw [he]
      trivial
    · rw [he]
      trivial

theorem extractPackedKey_missesKey (h : MissesKey scanFloat packet) (seed : UInt64) :
    (extractPackedKey scanFloat packet seed).2 = .error .noEntry := by
  obtain ⟨hnop, hmulti, vi, qi, hvi, hqi, hcount, hk, htype⟩ := h
  have hinsert : ¬ (IntegerKey (keyType vi) ∧ (CPacketHeader.ofBytes packet).cmd = cmdInsert ∧ qi.key = none) := by
    rintro ⟨hint, hcmd, -⟩
    rcases htype with ⟨-, hne⟩ | hstring | hbinary
    · exact hne hcmd
    · rw [hstring] at hint
      exact absurd hint (by decide)
    · rw [hbinary] at hint
      exact absurd hint (by decide)
  unfold extractPackedKey
  dsimp only
  rw [if_neg hnop, hvi, ok_bind, hqi, ok_bind, if_neg (not_not_intro hmulti), if_neg hcount, if_neg hinsert, hk, switchKeyType,
    if_pos (htype.imp_left And.left)]
  rfl

end Extracted

/-! ## What is answered -/

section Answered

variable {scanFloat : List UInt8 → Option (BitVec 64)} {printFloat : BitVec 64 → List UInt8} {packet : List UInt8}

theorem replyWithError_spec (hframe : agentFormat.IsFrame packet) (s : CFrontWorker) (now : UInt32) (errMsg : String) :
    ∃ replies : List (List UInt8),
      s.replyWithError scanFloat printFloat packet now errMsg = .ok { s with replies := s.replies ++ replies } ∧
        (Readable scanFloat packet → replies.length = 1) ∧ (¬ Readable scanFloat packet → replies = []) := by
  unfold replyWithError
  have hversion : Ends (decodeVersionInfo scanFloat packet) (fun _ => True) (fun _ => True) := decodeVersionInfo_ends hframe
  rcases hversion.ok_or_fail with ⟨vi, hvi, -⟩ | ⟨e, he, -⟩
  · rw [hvi]
    exact ⟨_, rfl, fun _ => List.length_singleton, fun h => absurd ⟨vi, hvi⟩ h⟩
  · rw [he]
    refine ⟨[], ?_, fun ⟨vi, hvi⟩ => ?_, fun _ => rfl⟩
    · rw [List.append_nil]
      rfl
    · rw [he] at hvi
      cases hvi

theorem extractPackedKey_seed (hcmd : (CPacketHeader.ofBytes packet).cmd = cmdSvrAdmin) (seed : UInt64) :
    (extractPackedKey scanFloat packet seed).1 = seed := by
  unfold extractPackedKey
  dsimp only
  rw [hcmd, if_neg (by decide)]

variable (s : CFrontWorker) (dispatch : List UInt8 → List UInt8 → Bool) (verifyToken : List UInt8) (now : UInt32)

theorem recvPacket_of_error (hframe : agentFormat.IsFrame packet) {e : Int}
    (h : (extractPackedKey scanFloat packet s.randomHashSeed).2 = fail e) :
    ∃ replies : List (List UInt8), s.recvPacket scanFloat printFloat packet dispatch verifyToken now =
        .ok { s with
          randomHashSeed := (extractPackedKey scanFloat packet s.randomHashSeed).1
          replies := s.replies ++ replies } ∧
      (Readable scanFloat packet → replies.length = 1) ∧ (¬ Readable scanFloat packet → replies = []) := by
  unfold recvPacket
  split
  · next hcmd =>
    rw [extractPackedKey_seed hcmd]
    exact replyWithError_spec hframe s now _
  · dsimp only
    rw [h]
    exact replyWithError_spec hframe { s with randomHashSeed := (extractPackedKey scanFloat packet s.randomHashSeed).1 } now _

end Answered

/-- **Every packet that has its key where it is read** is turned down, with one error reply where its version info can be
decoded, or has its packed key. -/
theorem recvPacket_answers {scanFloat : List UInt8 → Option (BitVec 64)} {packet : List UInt8}
    (hframe : agentFormat.IsFrame packet) (hkey : ¬ MissesKey scanFloat packet) (printFloat : BitVec 64 → List UInt8)
    (s : CFrontWorker) (dispatch : List UInt8 → List UInt8 → Bool) (verifyToken : List UInt8) (now : UInt32) :
    (∃ e, (extractPackedKey scanFloat packet s.randomHashSeed).2 = fail e ∧
      ∃ replies : List (List UInt8), s.recvPacket scanFloat printFloat packet dispatch verifyToken now =
          .ok { s with
            randomHashSeed := (extractPackedKey scanFloat packet s.randomHashSeed).1
            replies := s.replies ++ replies } ∧
        (Readable scanFloat packet → replies.length = 1) ∧ (¬ Readable scanFloat packet → replies = [])) ∨
    ∃ k, (extractPackedKey scanFloat packet s.randomHashSeed).2 = .ok k ∧
      IsPackedKey scanFloat packet s.randomHashSeed k.packedKey := by
  rcases (extractPackedKey_ends hframe hkey s.randomHashSeed).ok_or_fail with ⟨k, hk, -, hpacked⟩ | ⟨e, he, -⟩
  · exact .inr ⟨k, hk, hpacked⟩
  · exact .inl ⟨e, he, recvPacket_of_error s dispatch verifyToken now hframe he⟩

def requestOf (cmd : UInt8) (versionInfo requestInfo : List UInt8) : List UInt8 :=
  [1, 8, 0, cmd] ++ leBytes 4 versionInfo.length ++ leBytes 4 0 ++ leBytes 4 requestInfo.length ++ List.replicate 20 0 ++
    versionInfo ++ requestInfo

theorem recvPacket_answers_seven : ∃ k, (extractPackedKey (fun _ => none) (requestOf 4 [9, 1, 1] [0, 1, 7]) 1).2 = .ok k ∧
    k.packedKey = [7, 0, 0, 0, 0, 0, 0, 0] ∧ IsPackedKey (fun _ => none) (requestOf 4 [9, 1, 1] [0, 1, 7]) 1 k.packedKey := by
  have hget : (extractPackedKey (fun _ => none) (requestOf 4 [9, 1, 1] [0, 1, 7]) 1).2 =
      .ok ⟨[7, 0, 0, 0, 0, 0, 0, 0], [], none⟩ := by decide
  have hkey : ¬ MissesKey (fun _ => none) (requestOf 4 [9, 1, 1] [0, 1, 7]) := by
    intro h
    have hnone := extractPackedKey_missesKey h 1
    rw [hget] at hnone
    cases hnone
  rcases recvPacket_answers (by decide) hkey (fun _ => []) ⟨5, 1, [], []⟩ (fun _ _ => true) [] 0 with
    ⟨e, he, -⟩ | ⟨k, hk, hpacked⟩
  · rw [hget] at he
    cases he
  · obtain rfl := Except.ok.inj (hget.symm.trans hk)
    exact ⟨_, hk, rfl, hpacked⟩

/-- **A packed key that is not of the request's key**: an `Insert` without a key has the key 1, and a `Nop` the next number of
the agent; and **no reply** to a packet whose version info cannot be decoded. -/
theorem recvPacket_madeUp :
    ((extractPackedKey (fun _ => none) (requestOf cmdInsert [9, 1, 1] []) 1).2 = .ok ⟨valueBytes 1 8, [], none⟩ ∧
      ∀ qi, decodeRequestInfo (fun _ => none) (requestOf cmdInsert [9, 1, 1] []) 1 = .ok qi → qi.key = none) ∧
    (extractPackedKey (fun _ => none) (requestOf cmdNop [9, 1, 1] [0, 1, 7]) 5).2 = .ok ⟨valueBytes 5 8, [], none⟩ ∧
    (extractPackedKey (fun _ => none) (requestOf 4 [9, 2, 1] []) 1).2 = fail (-1) ∧
      ((⟨5, 1, [], []⟩ : CFrontWorker).recvPacket (fun _ => none) (fun _ => []) (requestOf 4 [9, 2, 1] [])
        (fun _ _ => true) [] 0).map CFrontWorker.replies = .ok [] := by
  refine ⟨⟨by decide, fun qi hqi => ?_⟩, by decide +kernel, by decide +kernel, by decide +kernel⟩
  have hnone : (decodeRequestInfo (fun _ => none) (requestOf cmdInsert [9, 1, 1] []) 1).map SimpleSection.key = .ok none := by
    decide
  rw [hqi] at hnone
  exact Except.ok.inj hnone

end CFrontWorker

end Dtc
