import DtcServer.ValueCodec
import Mathlib.Data.BitVec
import Mathlib.Tactic.IntervalCases
import Mathlib.Tactic.NormNum
/-!
# ValueEncode — lengths and values as they are written (`EncodeLength`, `EncodeDataValue`), and read back

Three functions know where the ranges of the lengths and of the integers end: the one that writes, the one that says how
many bytes it will write, and the one that reads.
-/
namespace Dtc

open Decoding

/-! ## What is written -/

def encodeLength (len : Nat) : List UInt8 :=
  if len < 240 then [UInt8.ofNat len]
  else if len < 13 * 2 ^ 8 then [UInt8.ofNat (0xF0 + len / 2 ^ 8), UInt8.ofNat len]
  else if len < 2 ^ 16 then [253, UInt8.ofNat (len / 2 ^ 8), UInt8.ofNat len]
  else if len < 2 ^ 24 then [254, UInt8.ofNat (len / 2 ^ 16), UInt8.ofNat (len / 2 ^ 8), UInt8.ofNat len]
  else [255, UInt8.ofNat (len / 2 ^ 24), UInt8.ofNat (len / 2 ^ 16), UInt8.ofNat (len / 2 ^ 8), UInt8.ofNat len]

def encodedBytesLength (n : Nat) : Nat :=
  if n < 240 then 1 else if n < 13 * 2 ^ 8 then 2 else if n < 2 ^ 16 then 3 else if n < 2 ^ 24 then 4 else 5

/-- The number of bytes `EncodeDataValue` writes for an integer. -/
def integerSize (s64 : Int) : Nat :=
  if 0 ≤ s64 then
    if s64 < 0x80 then 1
    else if s64 < 0x8000 then 2
    else if s64 < 0x800000 then 3
    else if s64 < 0x80000000 then 4
    else if s64 < 0x8000000000 then 5
    else if s64 < 0x800000000000 then 6
    else if s64 < 0x80000000000000 then 7
    else 8
  else
    if -0x80 ≤ s64 then 1
    else if -0x8000 ≤ s64 then 2
    else if -0x800000 ≤ s64 then 3
    else if -0x80000000 ≤ s64 then 4
    else if -0x8000000000 ≤ s64 then 5
    else if -0x800000000000 ≤ s64 then 6
    else if -0x80000000000000 ≤ s64 then 7
    else 8

/-- Byte `i` of a number, the lowest first. -/
def byteOf (w : BitVec 64) (i : Nat) : UInt8 := ⟨w.extractLsb' (8 * i) 8⟩

def encodeInteger (w : BitVec 64) : List UInt8 :=
  let n := integerSize w.toInt
  UInt8.ofNat n :: (List.range n).map (fun i => byteOf w (n - 1 - i))

section DataValue

-- `snprintf` of the format `%LA`
variable (printFloat : BitVec 64 → List UInt8)

/-- The text of a float, if the buffer of forty bytes is large enough for it. -/
def floatText (flt : BitVec 64) : List UInt8 :=
  if 40 ≤ (printFloat flt).length then [78, 65, 78] else printFloat flt

/-- `EncodeDataValue`; a string that was never set is a null pointer. -/
def encodeDataValue (v : DataValue) : FieldType → List UInt8
  | .none => [0]
  | .signed | .unsigned => encodeInteger (BitVec.ofNat 64 v.u64)
  | .float =>
    let text := floatText printFloat (BitVec.ofNat 64 v.u64)
    UInt8.ofNat (text.length + 1) :: (text ++ [0])
  | .string | .binary =>
    match v with
    | .bin bytes => encodeLength (bytes.length + 1) ++ bytes ++ [0]
    | _ => [0]

/-- The number `EncodedBytesDataValue` returns for an integer. -/
def encodedBytesInteger (s64 : Int) : Nat :=
  if 0 ≤ s64 then
    if s64 < 0x80 then 2
    else if s64 < 0x8000 then 3
    else if s64 < 0x800000 then 4
    else if s64 < 0x80000000 then 5
    else if s64 < 0x8000000000 then 6
    else if s64 < 0x800000000000 then 7
    else if s64 < 0x80000000000000 then 8
    else 9
  else
    if -0x80 ≤ s64 then 2
    else if -0x8000 ≤ s64 then 3
    else if -0x800000 ≤ s64 then 4
    else if -0x80000000 ≤ s64 then 5
    else if -0x8000000000 ≤ s64 then 6
    else if -0x800000000000 ≤ s64 then 7
    else if -0x80000000000000 ≤ s64 then 8
    else 9

def encodedBytesDataValue (v : DataValue) : FieldType → Nat
  | .none => 1
  | .signed | .unsigned => encodedBytesInteger (BitVec.ofNat 64 v.u64).toInt
  | .float =>
    let text := printFloat (BitVec.ofNat 64 v.u64)
    if 40 ≤ text.length then 5 else 2 + text.length
  | .string | .binary =>
    match v with
    | .bin bytes => bytes.length + 1 + encodedBytesLength (bytes.length + 1)
    | _ => 1

end DataValue

/-! ## What was written is read back -/

/-- **What was written is read back**, whatever follows it, and no more than that is taken. -/
def ReadsBack {α : Type} (written : List UInt8) (read : List UInt8 → Decoding Int (α × List UInt8)) (a : α) : Prop :=
  ∀ rest, read (written ++ rest) = .ok (a, rest)

theorem toNat_ofNat_of_lt {n : Nat} (h : n < 256) : (UInt8.ofNat n).toNat = n := by
  rw [UInt8.toNat_ofNat', Nat.mod_eq_of_lt h]

theorem encodeLength_readsBack {len : Nat} (h : len ≤ maxPacketSize) :
    ReadsBack (encodeLength len) decodeLength len := by
  intro rest
  have hmax : len ≤ 67108864 := h
  unfold encodeLength
  split
  · next h1 =>
    have e : (UInt8.ofNat len).toNat = len := toNat_ofNat_of_lt (by omega)
    simp [decodeLength, e, h1]
  split
  · next h1 h2 =>
    have e : (UInt8.ofNat (0xF0 + len / 2 ^ 8)).toNat = 0xF0 + len / 2 ^ 8 := toNat_ofNat_of_lt (by omega)
    have hlow : ¬ 0xF0 + len / 2 ^ 8 < 240 := by omega
    have hhigh : 0xF0 + len / 2 ^ 8 ≤ 252 := by omega
    have hlen : 2 ^ 8 * ((0xF0 + len / 2 ^ 8) % 16) + len % 2 ^ 8 = len := by omega
    simp only [List.cons_append, List.nil_append, decodeLength, reduceCtorEq, if_false, next_cons, ok_bind, e, hlow,
      hhigh, if_true, UInt8.toNat_ofNat', hlen, pure_eq_ok]
  split
  · next h1 h2 h3 =>
    have hlen : 256 * (len / 256 % 256) + len % 256 = len := by omega
    simp [decodeLength, hlen]
  split
  · next h1 h2 h3 h4 =>
    have hlen : 65536 * (len / 65536 % 256) + 256 * (len / 256 % 256) + len % 256 = len := by omega
    have hroom : ¬ rest.length + 1 + 1 + 1 < 3 := by omega
    simp [decodeLength, hlen, hroom]
  · have hlen : 16777216 * (len / 16777216 % 256) + 65536 * (len / 65536 % 256) + 256 * (len / 256 % 256) + len % 256 =
        len := by omega
    have hroom : ¬ rest.length + 1 + 1 + 1 + 1 < 4 := by omega
    have hle : ¬ maxPacketSize < len := Nat.not_lt.mpr h
    simp [decodeLength, hlen, hroom, hle]

theorem encodeLength_length (len : Nat) : (encodeLength len).length = encodedBytesLength len := by
  unfold encodeLength encodedBytesLength
  split <;> [rfl; split <;> [rfl; split <;> [rfl; split <;> rfl]]]

theorem integerSize_spec {x : Int} (hlo : -2 ^ 63 ≤ x) (hhi : x < 2 ^ 63) :
    1 ≤ integerSize x ∧ integerSize x ≤ 8 ∧
      -2 ^ (8 * integerSize x - 1) ≤ x ∧ x < 2 ^ (8 * integerSize x - 1) := by
  unfold integerSize
  split_ifs <;> refine ⟨by decide, by decide, ?_, ?_⟩ <;> norm_num <;> omega

theorem signExtend_byteOf {w : BitVec 64} {n : Nat} (h1 : 1 ≤ n) (h8 : n ≤ 8) (hlo : -2 ^ (8 * n - 1) ≤ w.toInt)
    (hhi : w.toInt < 2 ^ (8 * n - 1)) :
    (byteOf w (n - 1)).toBitVec.signExtend 64 = w.sshiftRight (8 * (n - 1)) := by
  apply BitVec.eq_of_toInt_eq
  rw [BitVec.toInt_signExtend_of_le (by decide), BitVec.toInt_sshiftRight, Int.shiftRight_eq_div_pow,
    BitVec.toInt_eq_toNat_cond]
  have hb : (byteOf w (n - 1)).toBitVec.toNat = w.toNat / 2 ^ (8 * (n - 1)) % 256 := by
    simp [byteOf, Nat.shiftRight_eq_div_pow]
  have hw := BitVec.toInt_eq_toNat_cond w
  have hlt := w.isLt
  rw [hb]
  interval_cases n <;> norm_num at hlo hhi ⊢ <;> split_ifs at hw ⊢ <;> omega

theorem sshiftRight_byte {w : BitVec 64} {m : Nat} (hm : m < 7) :
    w.sshiftRight (8 * (m + 1)) <<< 8 ||| (byteOf w m).toBitVec.setWidth 64 = w.sshiftRight (8 * m) := by
  apply BitVec.eq_of_getLsbD_eq
  intro i hi
  simp only [BitVec.getLsbD_or, BitVec.getLsbD_shiftLeft, BitVec.getLsbD_sshiftRight, BitVec.getLsbD_setWidth,
    byteOf, BitVec.getLsbD_extractLsb']
  by_cases h8 : i < 8
  · have hin : 8 * m + i < 64 := by omega
    simp [h8, hi, hin]
  · have hsame : 8 * (m + 1) + (i - 8) = 8 * m + i := by omega
    have hi8 : ¬ 64 ≤ i - 8 := by omega
    simp [h8, hi, hsame, hi8]

theorem integerLoop_eq (w : BitVec 64) : ∀ (m : Nat) (front rest : List UInt8), m ≤ 7 →
    integerLoop (front ++ ((List.range m).map (fun k => byteOf w (m - 1 - k)) ++ rest)) m front.length
      (w.sshiftRight (8 * m)) = .ok w
  | 0, front, rest, _ => by simp [integerLoop]
  | m + 1, front, rest, hm => by
    have htail : (List.range (m + 1)).map (fun k => byteOf w (m + 1 - 1 - k)) =
        byteOf w m :: (List.range m).map (fun k => byteOf w (m - 1 - k)) := by
      rw [List.range_succ_eq_map, List.map_cons, List.map_map]
      congr 1
      apply List.map_congr_left
      intro k _
      exact congrArg (byteOf w) (by omega)
    rw [htail, integerLoop, List.cons_append, byteAt_append rfl, ok_bind, sshiftRight_byte (by omega)]
    have ih := integerLoop_eq w m (front ++ [byteOf w m]) rest (by omega)
    rw [List.length_append, List.append_assoc] at ih
    exact ih

theorem encodeInteger_length (w : BitVec 64) : (encodeInteger w).length = encodedBytesInteger w.toInt := by
  have hsize : ∀ x : Int, encodedBytesInteger x = integerSize x + 1 := by
    intro x
    unfold encodedBytesInteger integerSize
    split_ifs <;> rfl
  simp [encodeInteger, hsize]

section ReadsBack

variable {scanFloat : List UInt8 → Option (BitVec 64)} {printFloat : BitVec 64 → List UInt8}

theorem decodeDataValue_eq {front body : List UInt8} {v : DataValue} {type : Nat}
    (hlen : ReadsBack front decodeLength body.length)
    (htyped : ∀ rest, decodeTyped scanFloat (body ++ rest) body.length type = .ok v) :
    ReadsBack (front ++ body) (fun bin => decodeDataValue scanFloat bin type) v := by
  intro rest
  have hroom : ¬ (body ++ rest).length < body.length := by simp
  have hskip : skip (body ++ rest) body.length = (.ok rest : Decoding Int _) := skip_append rfl
  dsimp only [decodeDataValue]
  rw [List.append_assoc, hlen, ok_bind]
  dsimp only
  rw [if_neg hroom, htyped, ok_bind, hskip]
  rfl

theorem encodeInteger_readsBack (w : BitVec 64) {type : FieldType} (htype : isIntType type = true) :
    ReadsBack (encodeInteger w) (fun bin => decodeDataValue scanFloat bin type.code) (.word w) := by
  obtain ⟨h1, h8, hlo, hhi⟩ := integerSize_spec (BitVec.le_toInt w) (BitVec.toInt_lt (x := w))
  have hbytes : encodeInteger w = encodeLength (integerSize w.toInt) ++
      (List.range (integerSize w.toInt)).map (fun i => byteOf w (integerSize w.toInt - 1 - i)) := by
    rw [encodeLength, if_pos (by omega)]
    rfl
  rw [hbytes]
  generalize integerSize w.toInt = n at h1 h8 hlo hhi ⊢
  obtain ⟨m, rfl⟩ : ∃ m, n = m + 1 := ⟨n - 1, by omega⟩
  have hfirst : (List.range (m + 1)).map (fun i => byteOf w (m + 1 - 1 - i)) =
      byteOf w m :: (List.range m).map (fun i => byteOf w (m - 1 - i)) := by
    rw [List.range_succ_eq_map, List.map_cons, List.map_map]
    congr 1
    apply List.map_congr_left
    intro i _
    exact congrArg (byteOf w) (by omega)
  have hsize : (byteOf w m :: (List.range m).map (fun i => byteOf w (m - 1 - i))).length = m + 1 := by simp
  rw [hfirst]
  apply decodeDataValue_eq
  · rw [hsize]
    exact encodeLength_readsBack (by unfold maxPacketSize; omega)
  intro rest
  have hint : decodeInteger (byteOf w m :: ((List.range m).map (fun i => byteOf w (m - 1 - i)) ++ rest)) (m + 1) =
      .ok (.word w) := by
    have hloop := integerLoop_eq w m [byteOf w m] rest (by omega)
    rw [List.singleton_append, List.length_singleton] at hloop
    have hsign := signExtend_byteOf h1 h8 hlo hhi
    rw [Nat.add_sub_cancel] at hsign
    rw [decodeInteger, if_neg (by omega), byteAt_zero, ok_bind, hsign, Nat.add_sub_cancel, hloop]
    rfl
  rw [hsize]
  cases type <;> first | exact hint | exact absurd htype (by decide)

theorem encodeNull_readsBack {type : FieldType} (htype : type = .string ∨ type = .binary) :
    ReadsBack (encodeDataValue printFloat .unset type) (fun bin => decodeDataValue scanFloat bin type.code) (.bin []) := by
  have h : ReadsBack ([0] ++ []) (fun bin => decodeDataValue scanFloat bin type.code) (.bin []) := by
    apply decodeDataValue_eq
    · exact @encodeLength_readsBack 0 (Nat.zero_le _)
    · intro rest
      rcases htype with rfl | rfl <;> rfl
  rcases htype with rfl | rfl <;> exact h

theorem encodeString_readsBack {bytes : List UInt8} (hlen : bytes.length + 1 ≤ maxPacketSize) {type : FieldType}
    (htype : type = .string ∨ type = .binary) :
    ReadsBack (encodeDataValue printFloat (.bin bytes) type) (fun bin => decodeDataValue scanFloat bin type.code)
      (.bin bytes) := by
  have h : ReadsBack (encodeLength (bytes.length + 1) ++ (bytes ++ [0]))
      (fun bin => decodeDataValue scanFloat bin type.code) (.bin bytes) := by
    apply decodeDataValue_eq
    · rw [List.length_append, List.length_singleton]
      exact encodeLength_readsBack hlen
    · intro rest
      have hstring : decodeString (bytes ++ [0] ++ rest) (bytes.length + 1) = .ok (.bin bytes) := by
        rw [decodeString, if_neg (by omega), Nat.add_sub_cancel, List.append_assoc, List.singleton_append,
          byteAt_append rfl, ok_bind, if_neg (by decide), bytes_append rfl]
        rfl
      rw [List.length_append, List.length_singleton]
      rcases htype with rfl | rfl <;> exact hstring
  rw [← List.append_assoc] at h
  rcases htype with rfl | rfl <;> exact h

theorem encodeDataValue_length (v : DataValue) (type : FieldType) :
    (encodeDataValue printFloat v type).length = encodedBytesDataValue printFloat v type := by
  cases type with
  | none => rfl
  | signed => exact encodeInteger_length _
  | unsigned => exact encodeInteger_length _
  | float =>
    simp only [encodeDataValue, encodedBytesDataValue, floatText]
    split
    · rfl
    · simp only [List.length_cons, List.length_append, List.length_nil]
      omega
  | string | binary =>
    cases v with
    | unset => rfl
    | word w => rfl
    | bin bytes =>
      simp only [encodeDataValue, encodedBytesDataValue, List.length_append, List.length_singleton, encodeLength_length]
      omega

end ReadsBack

/-- **The codec of values**: a length up to that of a packet, an integer and a text whose length is such a one are read
back as they were written, and a null text as the empty one; the numbers of bytes are the announced ones. -/
theorem valueCodec_readsBack (scanFloat : List UInt8 → Option (BitVec 64)) (printFloat : BitVec 64 → List UInt8) :
    (∀ len ≤ maxPacketSize, ReadsBack (encodeLength len) decodeLength len) ∧
    (∀ (w : BitVec 64) (type : FieldType), isIntType type = true →
      ReadsBack (encodeDataValue printFloat (.word w) type) (fun bin => decodeDataValue scanFloat bin type.code)
        (.word w)) ∧
    (∀ (bytes : List UInt8) (type : FieldType), type = .string ∨ type = .binary → bytes.length + 1 ≤ maxPacketSize →
      ReadsBack (encodeDataValue printFloat (.bin bytes) type) (fun bin => decodeDataValue scanFloat bin type.code)
        (.bin bytes)) ∧
    (∀ type : FieldType, type = .string ∨ type = .binary →
      ReadsBack (encodeDataValue printFloat .unset type) (fun bin => decodeDataValue scanFloat bin type.code)
        (.bin [])) ∧
    (∀ len, (encodeLength len).length = encodedBytesLength len) ∧
    ∀ (v : DataValue) (type : FieldType),
      (encodeDataValue printFloat v type).length = encodedBytesDataValue printFloat v type := by
  refine ⟨fun len h => encodeLength_readsBack h, fun w type htype => ?_, fun bytes type htype hlen => ?_,
    fun type htype => encodeNull_readsBack htype, encodeLength_length, encodeDataValue_length⟩
  · have hword : BitVec.ofNat 64 (DataValue.word w).u64 = w := BitVec.eq_of_toNat_eq (by simp [DataValue.u64])
    have h : ReadsBack (encodeInteger (BitVec.ofNat 64 (DataValue.word w).u64))
        (fun bin => decodeDataValue scanFloat bin type.code) (.word w) := by
      rw [hword]
      exact encodeInteger_readsBack w htype
    cases type <;> first | exact h | exact absurd htype (by decide)
  · exact encodeString_readsBack hlen htype

end Dtc
