import DtcServer.Decoding
import DtcServer.FieldSet
import DtcServer.MultiKey
/-!
# ValueCodec — lengths, values and simple sections of a packet (`DecodeLength`, `DecodeDataValue`, `DecodeSimpleSection`)

A value has its length in front.  A simple section is a row of tags, each an id and a value whose type the section's
definition tells.
-/
namespace Dtc

open Decoding

def ecDuplicateTag : Int := 2004
def ecBadValueLength : Int := 2007
def ecBadStringValue : Int := 2008
def ecBadFloatValue : Int := 2009

def maxPacketSize : Nat := 64 * 2 ^ 20

/-- `CValue`, as it was set: the 64 bits that `s64`, `u64` and `flt` share, or the bytes of `str` and `bin`. -/
inductive DataValue where
  | unset
  | word (w : BitVec 64)
  | bin (bytes : List UInt8)
  deriving DecidableEq, Repr

namespace DataValue

/-- `u64`, of a value that is zeroed or was set to a number. -/
def u64 : DataValue → Nat
  | .word w => w.toNat
  | _ => 0

/-- `str` and `bin` -/
def str : DataValue → List UInt8
  | .bin bytes => bytes
  | _ => []

end DataValue

/-- `DecodeLength`: the length and what is behind it. -/
def decodeLength (bin : List UInt8) : Decoding Int (Nat × List UInt8) :=
  if bin = [] then fail (-ecBadSectionLength)
  else do
    let (len, bin) ← next bin
    if len.toNat < 240 then pure (len.toNat, bin)
    else if len.toNat ≤ 252 then
      if bin = [] then fail (-ecBadSectionLength)
      else do
        let (lo, bin) ← next bin
        pure (2 ^ 8 * (len.toNat % 16) + lo.toNat, bin)
    else if len.toNat = 253 then
      if bin.length < 2 then fail (-ecBadSectionLength)
      else do
        let b0 ← byteAt bin 0
        let b1 ← byteAt bin 1
        let bin ← skip bin 2
        pure (2 ^ 8 * b0.toNat + b1.toNat, bin)
    else if len.toNat = 254 then
      if bin.length < 3 then fail (-ecBadSectionLength)
      else do
        let b0 ← byteAt bin 0
        let b1 ← byteAt bin 1
        let b2 ← byteAt bin 2
        let bin ← skip bin 3
        pure (2 ^ 16 * b0.toNat + 2 ^ 8 * b1.toNat + b2.toNat, bin)
    else
      if bin.length < 4 then fail (-ecBadSectionLength)
      else do
        let b0 ← byteAt bin 0
        let b1 ← byteAt bin 1
        let b2 ← byteAt bin 2
        let b3 ← byteAt bin 3
        let bin ← skip bin 4
        let len := 2 ^ 24 * b0.toNat + 2 ^ 16 * b1.toNat + 2 ^ 8 * b2.toNat + b3.toNat
        if len > maxPacketSize then fail (-ecBadValueLength) else pure (len, bin)

section DataValue

/-- The bytes of an integer behind its first one, from `i` on. -/
def integerLoop (bin : List UInt8) : Nat → Nat → BitVec 64 → Decoding Int (BitVec 64)
  | 0, _, s64 => pure s64
  | n + 1, i, s64 => do
    let b ← byteAt bin i
    integerLoop bin n (i + 1) (s64 <<< 8 ||| b.toBitVec.setWidth 64)

def decodeInteger (bin : List UInt8) (len : Nat) : Decoding Int DataValue :=
  if len = 0 ∨ 8 < len then fail (-ecBadValueLength)
  else do
    let b ← byteAt bin 0
    let s64 ← integerLoop bin (len - 1) 1 (b.toBitVec.signExtend 64)
    pure (.word s64)

-- `sscanf` of the format `%LA`, stored as a `double`
variable (scanFloat : List UInt8 → Option (BitVec 64))

/-- The number a text stands for: `NAN`, `INF`, `-INF`, or what `sscanf` says. -/
def floatOfText (text : List UInt8) : Option (BitVec 64) :=
  if text = [78, 65, 78] then some 0x7FF8000000000000#64
  else if text = [73, 78, 70] then some 0x7FF0000000000000#64
  else if text = [45, 73, 78, 70] then some 0xFFF0000000000000#64
  else scanFloat text

def decodeFloat (bin : List UInt8) (len : Nat) : Decoding Int DataValue :=
  if len < 3 then fail (-ecBadValueLength)
  else do
    let last ← byteAt bin (len - 1)
    if last ≠ 0 then fail (-ecBadFloatValue)
    else do
      let text ← bytes bin len
      match floatOfText scanFloat (cString text) with
      | none => fail (-ecBadFloatValue)
      | some flt => pure (.word flt)

/-- `NULL` is encoded with length 0, anything else has a null behind it. -/
def decodeString (bin : List UInt8) (len : Nat) : Decoding Int DataValue :=
  if len = 0 then pure (.bin [])
  else do
    let last ← byteAt bin (len - 1)
    if last ≠ 0 then fail (-ecBadStringValue)
    else do
      let val ← bytes bin (len - 1)
      pure (.bin val)

/-- The switch of `DecodeDataValue`; a value of no type is left alone. -/
def decodeTyped (bin : List UInt8) (len : Nat) : Nat → Decoding Int DataValue
  | 1 | 2 => decodeInteger bin len
  | 3 => decodeFloat scanFloat bin len
  | 4 | 5 => decodeString bin len
  | _ => pure .unset

/-- `DecodeDataValue`: the value and what is behind it. -/
def decodeDataValue (bin : List UInt8) (type : Nat) : Decoding Int (DataValue × List UInt8) := do
  let (len, bin) ← decodeLength bin
  if bin.length < len then fail (-ecBadSectionLength)
  else do
    let val ← decodeTyped scanFloat bin len type
    let bin ← skip bin len
    pure (val, bin)

end DataValue

/-- `CSectionDefinition`: the types of the tags; the others have none. -/
structure SectionDefinition where
  tagTypes : List FieldType

def SectionDefinition.tagType (d : SectionDefinition) (id : Nat) : Nat := (d.tagTypes.getD id .none).code

def versionInfoDefinition : SectionDefinition where
  tagTypes := [.none, .string, .binary, .unsigned, .binary, .string, .string, .string, .unsigned, .unsigned, .unsigned,
    .unsigned, .binary, .binary, .unsigned, .signed, .signed, .unsigned, .string]

def requestInfoDefinition : SectionDefinition where
  tagTypes := [.binary, .unsigned, .unsigned, .unsigned, .string, .unsigned, .string, .unsigned]

def resultInfoDefinition : SectionDefinition where
  tagTypes := [.binary, .signed, .string, .string, .signed, .unsigned, .unsigned, .binary, .unsigned, .unsigned]

def tableAttributeDefinition : SectionDefinition where
  tagTypes := [.none, .unsigned, .unsigned, .unsigned]

/-- `CSimpleSection`: the values of the tags, and which of them are present. -/
structure SimpleSection where
  definition : SectionDefinition
  tagValue : Nat → DataValue := fun _ => .unset
  present : Nat → Bool := fun _ => false

namespace SimpleSection

variable (ss : SimpleSection)

/-- A tag that was decoded: `GetThisTag` and `SetTagMask`. -/
def setThisTag (id : Nat) (val : DataValue) : SimpleSection :=
  { ss with tagValue := Function.update ss.tagValue id val, present := Function.update ss.present id true }

/-- The type of a tag; `kt` is that of the key. -/
def typeOf (kt id : Nat) : Nat := if id = 0 then kt else ss.definition.tagType id

def key : Option DataValue := if ss.present 0 then some (ss.tagValue 0) else none

end SimpleSection

section SimpleSection

variable (scanFloat : List UInt8 → Option (BitVec 64))

/-- The loop of `DecodeSimpleSection`, over at most so many tags; an error leaves the tags in front of it decoded. -/
def simpleSectionLoop (kt : Nat) : Nat → List UInt8 → SimpleSection → (UInt8 → Bool) →
    Decoding (Int × SimpleSection) SimpleSection
  | 0, _, ss, _ => pure ss
  | n + 1, bin, ss, mask =>
    if bin = [] then pure ss
    else do
      let (id, bin) ← next bin
      if mask id then fail (-ecDuplicateTag, ss)
      else do
        let (val, bin) ← (decodeDataValue scanFloat bin (ss.typeOf kt id.toNat)).leaving ss
        if ss.typeOf kt id.toNat ≠ 0 then simpleSectionLoop kt n bin (ss.setThisTag id.toNat val) (fun i => mask i || i == id)
        else simpleSectionLoop kt n bin ss mask

/-- `DecodeSimpleSection`: every tag takes a byte at least. -/
def decodeSimpleSection (bin : List UInt8) (ss : SimpleSection) (kt : Nat) :
    Decoding (Int × SimpleSection) SimpleSection :=
  simpleSectionLoop scanFloat kt bin.length bin ss (fun _ => false)

end SimpleSection

/-! ## No reader leaves its bounds -/

section Ends

variable {bin : List UInt8} {scanFloat : List UInt8 → Option (BitVec 64)}

theorem decodeLength_ends : Ends (decodeLength bin) (fun r => r.2 <:+ bin ∧ r.2.length < bin.length) (· ≠ 0) := by
  unfold decodeLength
  split
  · exact ends_fail (by decide)
  next hbin =>
  refine (ends_next hbin).bind ?_
  rintro ⟨len, bin⟩ rfl
  have hsuffix : ∀ n, bin.drop n <:+ len :: bin ∧ (bin.drop n).length < (len :: bin).length := fun n =>
    ⟨(List.drop_suffix n bin).trans (List.suffix_cons len bin), by simp only [List.length_drop, List.length_cons]; omega⟩
  have htake : ∀ {n i : Nat}, ¬ bin.length < n → i < n → i < bin.length := by omega
  dsimp only
  split
  · exact hsuffix 0
  split
  · split
    · exact ends_fail (by decide)
    next hne =>
    refine (ends_next hne).bind ?_
    rintro ⟨lo, rest⟩ rfl
    exact hsuffix 1
  split
  · split
    · exact ends_fail (by decide)
    next h2 =>
    refine (ends_byteAt (htake h2 (by decide))).bind (fun b0 _ => ?_)
    refine (ends_byteAt (htake h2 (by decide))).bind (fun b1 _ => ?_)
    refine (ends_skip (Nat.not_lt.mp h2)).bind ?_
    rintro rest rfl
    exact hsuffix 2
  split
  · split
    · exact ends_fail (by decide)
    next h3 =>
    refine (ends_byteAt (htake h3 (by decide))).bind (fun b0 _ => ?_)
    refine (ends_byteAt (htake h3 (by decide))).bind (fun b1 _ => ?_)
    refine (ends_byteAt (htake h3 (by decide))).bind (fun b2 _ => ?_)
    refine (ends_skip (Nat.not_lt.mp h3)).bind ?_
    rintro rest rfl
    exact hsuffix 3
  · split
    · exact ends_fail (by decide)
    next h4 =>
    refine (ends_byteAt (htake h4 (by decide))).bind (fun b0 _ => ?_)
    refine (ends_byteAt (htake h4 (by decide))).bind (fun b1 _ => ?_)
    refine (ends_byteAt (htake h4 (by decide))).bind (fun b2 _ => ?_)
    refine (ends_byteAt (htake h4 (by decide))).bind (fun b3 _ => ?_)
    refine (ends_skip (Nat.not_lt.mp h4)).bind ?_
    rintro rest rfl
    split
    · exact ends_fail (by decide)
    · exact hsuffix 4

theorem integerLoop_ends : ∀ (n i : Nat) (s64 : BitVec 64), i + n ≤ bin.length →
    Ends (integerLoop bin n i s64) (fun _ => True) (· ≠ 0)
  | 0, _, _, _ => trivial
  | n + 1, i, s64, h => by
    refine (ends_byteAt (by omega)).bind (fun b _ => ?_)
    exact integerLoop_ends n (i + 1) _ (by omega)

theorem decodeInteger_ends {len : Nat} (h : len ≤ bin.length) : Ends (decodeInteger bin len) (fun _ => True) (· ≠ 0) := by
  unfold decodeInteger
  split
  · exact ends_fail (by decide)
  next hlen =>
  refine (ends_byteAt (by omega)).bind (fun b _ => ?_)
  exact (integerLoop_ends _ _ _ (by omega)).bind (fun _ _ => trivial)

theorem decodeFloat_ends {len : Nat} (h : len ≤ bin.length) :
    Ends (decodeFloat scanFloat bin len) (fun _ => True) (· ≠ 0) := by
  unfold decodeFloat
  split
  · exact ends_fail (by decide)
  next hlen =>
  refine (ends_byteAt (by omega)).bind (fun last _ => ?_)
  split
  · exact ends_fail (by decide)
  refine (ends_bytes h).bind (fun text _ => ?_)
  split
  · exact ends_fail (by decide)
  · trivial

theorem decodeString_ends {len : Nat} (h : len ≤ bin.length) : Ends (decodeString bin len) (fun _ => True) (· ≠ 0) := by
  unfold decodeString
  split
  · trivial
  next hlen =>
  refine (ends_byteAt (by omega)).bind (fun last _ => ?_)
  split
  · exact ends_fail (by decide)
  · exact (ends_bytes (by omega)).bind (fun _ _ => trivial)

theorem decodeTyped_ends {len : Nat} (h : len ≤ bin.length) (type : Nat) :
    Ends (decodeTyped scanFloat bin len type) (fun _ => True) (· ≠ 0) := by
  unfold decodeTyped
  split
  · exact decodeInteger_ends h
  · exact decodeInteger_ends h
  · exact decodeFloat_ends h
  · exact decodeString_ends h
  · exact decodeString_ends h
  · trivial

theorem decodeDataValue_ends (type : Nat) :
    Ends (decodeDataValue scanFloat bin type) (fun r => r.2 <:+ bin ∧ r.2.length < bin.length) (· ≠ 0) := by
  unfold decodeDataValue
  refine decodeLength_ends.bind ?_
  rintro ⟨len, rest⟩ ⟨hsuffix, hshort⟩
  dsimp only at hsuffix hshort ⊢
  split
  · exact ends_fail (by decide)
  next hlen =>
  have hle : len ≤ rest.length := Nat.not_lt.mp hlen
  refine (decodeTyped_ends hle type).bind (fun val _ => (ends_skip hle).bind ?_)
  rintro rest' rfl
  refine ⟨(List.drop_suffix len rest).trans hsuffix, ?_⟩
  rw [List.length_drop]
  omega

theorem simpleSectionLoop_ends {kt : Nat} : ∀ (n : Nat) (bin : List UInt8) (ss : SimpleSection) (mask : UInt8 → Bool),
    Ends (simpleSectionLoop scanFloat kt n bin ss mask) (fun _ => True) (·.1 ≠ 0)
  | 0, _, _, _ => trivial
  | n + 1, bin, ss, mask => by
    unfold simpleSectionLoop
    split
    · trivial
    next hbin =>
    refine (ends_next hbin).bind ?_
    rintro ⟨id, rest⟩ rfl
    dsimp only
    split
    · exact (by decide : -ecDuplicateTag ≠ 0)
    refine ((decodeDataValue_ends _).leaving (fun _ he => he)).bind ?_
    rintro ⟨val, rest'⟩ -
    dsimp only
    split
    · exact simpleSectionLoop_ends n _ _ _
    · exact simpleSectionLoop_ends n _ _ _

theorem decodeSimpleSection_ends (ss : SimpleSection) (kt : Nat) :
    Ends (decodeSimpleSection scanFloat bin ss kt) (fun _ => True) (·.1 ≠ 0) :=
  simpleSectionLoop_ends _ _ _ _

end Ends

end Dtc
