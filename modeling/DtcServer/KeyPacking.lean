import DtcServer.RawDataReplace
import DtcServer.KeyRoute
import DtcServer.FieldUpdate
import DtcServer.Bits
/-!
# KeyPacking — packed keys, built and unpacked (`CTableDefinition::SetKeyFields`, `CTaskPackedKey`)

The fields of an integer key lie one behind the other, each in its own size; a text has its length in front, in one byte.
-/
namespace Dtc

open Bytes

/-! ## `SetKeyFields` -/

/-- The loop over the fields of the key: each gets its offset, a byte; with them the size and the number of texts. -/
def layKeyFields : List FieldDef → Nat → Nat → List FieldDef × Nat × Nat
  | [], maxSize, nvar => ([], maxSize, nvar)
  | f :: fs, maxSize, nvar =>
    let r :=
      match f.fieldType with
      | .signed | .unsigned | .float => layKeyFields fs (maxSize + f.fieldSize) nvar
      | _ => layKeyFields fs (1 + f.fieldSize) (nvar + 1)
    ({ f with offset := maxSize % 256 } :: r.1, r.2)

/-- `SetKeyFields` of at least one field.  It looks at the size that is there before, `maxKeySize`, and not at the one it
computes; `keyFormat` is a byte. -/
def TableDef.setKeyFields (tdef : TableDef) (maxKeySize n : Nat) : Option TableDef :=
  if h : 32 < n then none
  else
    let keyFields := min n tdef.fieldList.length
    let r := layKeyFields (tdef.fieldList.take keyFields) 0 0
    let fieldList := r.1 ++ tdef.fieldList.drop keyFields
    have hle : keyFields ≤ 32 := Nat.le_trans (Nat.min_le_left _ _) (Nat.not_lt.mp h)
    if r.2.2 = 0 then
      if 256 ≤ maxKeySize then none
      else some { tdef with fieldList, keyFields, keyFormat := r.2.1 % 256, keyFields_le := hle }
    else if 256 + 1 ≤ maxKeySize then none
    else if keyFields ≠ 1 then none
    else some { tdef with fieldList, keyFields, keyFormat := 0, keyFields_le := hle }

namespace TaskPackedKey

/-! ## `UnpackKey` and `BuildPackedKey` -/

section Build

variable (tdef : TableDef)

/-- The loop of `UnpackKey` over `n` fields of an integer key, from field `i` on. -/
def unpackLoop : Nat → Nat → List UInt8 → List DataValue
  | 0, _, _ => []
  | n + 1, i, ptrKey =>
    .word (RowProcess.unpackWord (tdef.field i) ptrKey) :: unpackLoop n (i + 1) (ptrKey.drop (tdef.fieldSize i))

def unpackKey (ptrKey : List UInt8) : List DataValue :=
  if tdef.keyFormat = 0 then [.bin ((ptrKey.drop 1).take (ptrKey.headD 0).toNat)]
  else unpackLoop tdef tdef.keyFields 0 ptrKey

/-- The bits of a key's value, as `StoreValue` takes them. -/
def keyWord (v : DataValue) : UInt64 := UInt64.ofNat v.u64

/-- The loop of `StoreValue`s over fields of the key. -/
def storeLoop (vals : List DataValue) : List Nat → List UInt8 → Option (List UInt8)
  | [], packKey => some packKey
  | i :: is, packKey =>
    match storeValue packKey (tdef.fieldOffset i) (keyWord (vals.getD i .unset)) (tdef.fieldType i) (tdef.fieldSize i) with
    | none => none
    | some packKey => storeLoop vals is packKey

-- the bytes at the pointer of an integer that is taken for a text
variable (misread : BitVec 64 → List UInt8)

def keyText : DataValue → List UInt8
  | .bin bytes => bytes
  | .unset => []
  | .word w => misread w

/-- The bytes of a text as the key has them: of a `String` in lower case. -/
def normalText (text : List UInt8) : List UInt8 :=
  if tdef.fieldType 0 = .string then text.map internalToLower else text

/-- `BuildPackedKey` into a buffer. -/
def buildPackedKey (vals : List DataValue) (packKey : List UInt8) : Except Int (List UInt8) :=
  if tdef.keyFormat = 0 then
    let text := keyText misread (vals.getD 0 .unset)
    if tdef.fieldSize 0 < text.length then .error (-1)
    else if packKey.length < text.length + 1 then .error (-2)
    else .ok (writeBytes packKey 0 (UInt8.ofNat text.length :: normalText tdef text))
  else if tdef.keyFields = 1 then
    if packKey.length < tdef.keyFormat then .error (-3)
    else
      match storeValue packKey 0 (keyWord (vals.getD 0 .unset)) (tdef.fieldType 0) (tdef.fieldSize 0) with
      | none => .error (-4)
      | some packKey => .ok packKey
  else if packKey.length < tdef.keyFormat then .error (-5)
  else
    match storeLoop tdef vals (List.range tdef.keyFields) packKey with
    | none => .error (-6)
    | some packKey => .ok packKey

end Build

end TaskPackedKey

/-! ## A key that is laid out -/

def TableDef.keyOffset (tdef : TableDef) (i : Nat) : Nat := ((List.range i).map tdef.fieldSize).sum

/-- The key's fields are integers of one to eight bytes, or it is one text. -/
def TableDef.IntKey (tdef : TableDef) : Prop :=
  1 ≤ tdef.keyFields ∧ ∀ i < tdef.keyFields, isIntType (tdef.fieldType i) = true ∧ 1 ≤ tdef.fieldSize i ∧ tdef.fieldSize i ≤ 8

def TableDef.TextKey (tdef : TableDef) : Prop :=
  tdef.keyFields = 1 ∧ (tdef.fieldType 0 = .string ∨ tdef.fieldType 0 = .binary) ∧ 1 ≤ tdef.fieldSize 0

/-- The layout of a key as `SetKeyFields` leaves it. -/
structure TableDef.LaidOut (tdef : TableDef) : Prop where
  fields : tdef.keyFields ≤ tdef.fieldList.length
  offset : tdef.IntKey → ∀ i < tdef.keyFields, tdef.fieldOffset i = tdef.keyOffset i % 256
  format : tdef.IntKey → tdef.keyFormat = tdef.keyOffset tdef.keyFields % 256
  text : tdef.TextKey → tdef.keyFormat = 0

section LaidOut

theorem layKeyFields_fields : ∀ (fs : List FieldDef) (maxSize nvar : Nat),
    (layKeyFields fs maxSize nvar).1.length = fs.length ∧
      ∀ i, ((layKeyFields fs maxSize nvar).1.getD i default).fieldType = (fs.getD i default).fieldType ∧
        ((layKeyFields fs maxSize nvar).1.getD i default).fieldSize = (fs.getD i default).fieldSize
  | [], maxSize, nvar => ⟨rfl, fun i => ⟨rfl, rfl⟩⟩
  | f :: fs, maxSize, nvar => by
    have hstep : ∃ maxSize' nvar', layKeyFields (f :: fs) maxSize nvar =
        ({ f with offset := maxSize % 256 } :: (layKeyFields fs maxSize' nvar').1, (layKeyFields fs maxSize' nvar').2) := by
      rw [layKeyFields]
      split <;> exact ⟨_, _, rfl⟩
    obtain ⟨maxSize', nvar', h⟩ := hstep
    obtain ⟨hlength, hfields⟩ := layKeyFields_fields fs maxSize' nvar'
    rw [h]
    refine ⟨by simp [hlength], fun i => ?_⟩
    cases i with
    | zero => exact ⟨rfl, rfl⟩
    | succ i => exact hfields i

theorem layKeyFields_int : ∀ (fs : List FieldDef) (maxSize nvar : Nat), (∀ f ∈ fs, isIntType f.fieldType = true) →
    (layKeyFields fs maxSize nvar).2 = (maxSize + (fs.map FieldDef.fieldSize).sum, nvar) ∧
      ∀ i < fs.length, ((layKeyFields fs maxSize nvar).1.getD i default).offset =
        (maxSize + ((fs.take i).map FieldDef.fieldSize).sum) % 256
  | [], maxSize, nvar, _ => ⟨rfl, fun i hi => absurd hi (Nat.not_lt_zero _)⟩
  | f :: fs, maxSize, nvar, hint => by
    have hstep : layKeyFields (f :: fs) maxSize nvar =
        ({ f with offset := maxSize % 256 } :: (layKeyFields fs (maxSize + f.fieldSize) nvar).1,
          (layKeyFields fs (maxSize + f.fieldSize) nvar).2) := by
      have hf := hint f (List.mem_cons_self ..)
      rw [layKeyFields]
      cases htype : f.fieldType <;> rw [htype] at hf <;> first | rfl | exact absurd hf (by decide)
    obtain ⟨hsize, hoffset⟩ := layKeyFields_int fs (maxSize + f.fieldSize) nvar
      (fun g hg => hint g (List.mem_cons_of_mem _ hg))
    rw [hstep]
    refine ⟨?_, fun i hi => ?_⟩
    · rw [hsize, List.map_cons, List.sum_cons, Nat.add_assoc]
    · cases i with
      | zero => rfl
      | succ i =>
        have h := hoffset i (Nat.lt_of_succ_lt_succ hi)
        rw [List.take_succ_cons, List.map_cons, List.sum_cons, ← Nat.add_assoc]
        exact h

theorem map_range_fieldSize (fs : List FieldDef) : ∀ i ≤ fs.length,
    (List.range i).map (fun j => (fs.getD j default).fieldSize) = (fs.take i).map FieldDef.fieldSize := by
  intro i hi
  apply List.ext_getElem
  · simp [hi]
  · intro j h1 h2
    have hj : j < fs.length := by
      rw [List.length_map, List.length_range] at h1
      omega
    simp [List.getD_eq_getElem?_getD, List.getElem?_eq_getElem hj]

theorem laidOut_of_layKeyFields {tdef : TableDef} {fs : List FieldDef} (hk : tdef.keyFields ≤ fs.length)
    (hlist : tdef.fieldList = (layKeyFields (fs.take tdef.keyFields) 0 0).1 ++ fs.drop tdef.keyFields)
    (hformat : tdef.keyFormat = if (layKeyFields (fs.take tdef.keyFields) 0 0).2.2 = 0 then
      (layKeyFields (fs.take tdef.keyFields) 0 0).2.1 % 256 else 0) : tdef.LaidOut := by
  obtain ⟨hlength, hfields⟩ := layKeyFields_fields (fs.take tdef.keyFields) 0 0
  have htake : (fs.take tdef.keyFields).length = tdef.keyFields := by rw [List.length_take]; omega
  rw [htake] at hlength
  have hfield : ∀ i < tdef.keyFields, tdef.field i = (layKeyFields (fs.take tdef.keyFields) 0 0).1.getD i default := by
    intro i hi
    rw [TableDef.field, hlist, List.getD_eq_getElem?_getD, List.getD_eq_getElem?_getD, List.getElem?_append_left (by omega)]
  have htype : ∀ i < tdef.keyFields, tdef.fieldType i = ((fs.take tdef.keyFields).getD i default).fieldType := by
    intro i hi
    rw [TableDef.fieldType, hfield i hi, (hfields i).1]
  have hoffset : ∀ i ≤ tdef.keyFields,
      tdef.keyOffset i = (((fs.take tdef.keyFields).take i).map FieldDef.fieldSize).sum := by
    intro i hi
    rw [← map_range_fieldSize _ i (by omega), TableDef.keyOffset]
    congr 1
    apply List.map_congr_left
    intro j hj
    rw [List.mem_range] at hj
    rw [TableDef.fieldSize, hfield j (by omega), (hfields j).2]
  have hint : tdef.IntKey → ∀ f ∈ fs.take tdef.keyFields, isIntType f.fieldType = true := by
    intro hint f hf
    obtain ⟨i, hi, rfl⟩ := List.mem_iff_getElem.mp hf
    have h := (hint.2 i (by omega)).1
    rw [htype i (by omega), List.getD_eq_getElem?_getD, List.getElem?_eq_getElem hi] at h
    exact h
  refine ⟨?_, fun hi i hik => ?_, fun hi => ?_, fun ht => ?_⟩
  · rw [hlist, List.length_append, hlength]
    exact Nat.le_add_right _ _
  · have h := (layKeyFields_int _ 0 0 (hint hi)).2 i (by omega)
    rw [Nat.zero_add, ← hoffset i (Nat.le_of_lt hik), ← hfield i hik] at h
    exact h
  · have hall : (fs.take tdef.keyFields).take tdef.keyFields = fs.take tdef.keyFields := List.take_of_length_le (by omega)
    rw [hformat, (layKeyFields_int _ 0 0 (hint hi)).1, if_pos rfl, hoffset _ (Nat.le_refl _), hall, Nat.zero_add]
  · obtain ⟨h1, htext, -⟩ := ht
    have h0 := htype 0 (by omega)
    rw [h1] at hk
    rw [hformat, h1]
    cases fs with
    | nil => exact absurd hk (by decide)
    | cons f fs =>
      rw [h1, List.take_succ_cons, List.take_zero] at h0
      rw [h0] at htext
      apply if_neg
      rw [List.take_succ_cons, List.take_zero, layKeyFields]
      have hf : f.fieldType = .string ∨ f.fieldType = .binary := htext
      rcases hf with h | h <;> rw [h] <;> exact Nat.one_ne_zero

theorem TableDef.setKeyFields_laidOut {tdef₀ tdef : TableDef} {maxKeySize n : Nat}
    (h : tdef₀.setKeyFields maxKeySize n = some tdef) : tdef.LaidOut := by
  have hk : min n tdef₀.fieldList.length ≤ tdef₀.fieldList.length := Nat.min_le_right _ _
  unfold setKeyFields at h
  split at h
  · cases h
  dsimp only at h
  split at h
  · next hnvar =>
    split at h
    · cases h
    obtain rfl := Option.some.inj h
    exact laidOut_of_layKeyFields hk rfl (if_pos hnvar).symm
  · next hnvar =>
    split at h
    · cases h
    split at h
    · cases h
    obtain rfl := Option.some.inj h
    exact laidOut_of_layKeyFields hk rfl (if_neg hnvar).symm

end LaidOut

/-! ## Integers in a key -/

section Integers

open TaskPackedKey

theorem intmask_eq {size : Nat} (h1 : 1 ≤ size) (h8 : size ≤ 8) :
    (intmask.getD (size - 1) 0).toBitVec = BitVec.allOnes 64 <<< (8 * size) := by
  interval_cases size <;> decide

theorem intoff_signed {size : Nat} (h1 : 1 ≤ size) (h8 : size ≤ 8) :
    (intoff.getD (FieldType.signed.code * 8 + size - 9) 0).toBitVec.toNat = if size = 8 then 0 else 2 ^ (8 * size - 1) := by
  interval_cases size <;> decide

theorem intoff_unsigned {size : Nat} (h1 : 1 ≤ size) (h8 : size ≤ 8) :
    (intoff.getD (FieldType.unsigned.code * 8 + size - 9) 0).toBitVec.toNat = 0 := by
  interval_cases size <;> decide

theorem storeValue_eq {type : FieldType} (htype : isIntType type = true) {size : Nat} (h1 : 1 ≤ size) (h8 : size ≤ 8)
    (buf : List UInt8) (p : Nat) (val : UInt64) :
    storeValue buf p val type size =
      if fieldMin type size ≤ fieldInt type val.toBitVec ∧ fieldInt type val.toBitVec ≤ fieldMax type size then
        some (writeBytes buf p (valueBytes val size)) else none := by
  have hcheck : ((val + intoff.getD (type.code * 8 + size - 9) 0) &&& intmask.getD (size - 1) 0 ≠ 0) ↔
      ¬ (fieldMin type size ≤ fieldInt type val.toBitVec ∧ fieldInt type val.toBitVec ≤ fieldMax type size) := by
    rw [not_iff_not, ← UInt64.toBitVec_inj, UInt64.toBitVec_and, intmask_eq h1 h8]
    refine Bits.and_allOnes_shiftLeft_eq_zero.trans ?_
    rw [UInt64.toBitVec_add, BitVec.toNat_add]
    generalize val.toBitVec = w
    have hcond := BitVec.toInt_eq_toNat_cond w
    have hlt := w.isLt
    cases type with
    | signed =>
      rw [intoff_signed h1 h8]
      show _ ↔ -2 ^ (8 * size - 1) ≤ w.toInt ∧ w.toInt ≤ 2 ^ (8 * size - 1) - 1
      interval_cases size <;> norm_num <;> split at hcond <;> omega
    | unsigned =>
      rw [intoff_unsigned h1 h8]
      show _ ↔ (0 : Int) ≤ (w.toNat : Int) ∧ (w.toNat : Int) ≤ 2 ^ (8 * size) - 1
      interval_cases size <;> norm_num <;> omega
    | none | float | string | binary => exact absurd htype (by decide)
  unfold storeValue
  by_cases h : fieldMin type size ≤ fieldInt type val.toBitVec ∧ fieldInt type val.toBitVec ≤ fieldMax type size
  · rw [if_neg (fun hbad => hcheck.mp hbad h), if_pos h]
  · rw [if_pos (hcheck.mpr h), if_neg h]

theorem leBytes_eq_map (n v : Nat) : leBytes n v = (List.range n).map fun i => UInt8.ofNat (v / 256 ^ i % 256) := by
  induction n generalizing v with
  | zero => rfl
  | succ n ih =>
    rw [leBytes, ih, List.range_succ_eq_map, List.map_cons, List.map_map, Nat.pow_zero, Nat.div_one]
    congr 1
    apply List.map_congr_left
    intro i _
    rw [Function.comp_apply, Nat.succ_eq_add_one, Nat.pow_succ', Nat.div_div_eq_div_mul]

theorem valueBytes_eq_leBytes (val : UInt64) {size : Nat} (h8 : size ≤ 8) : valueBytes val size = leBytes size val.toNat := by
  rw [leBytes_eq_map, valueBytes]
  apply List.map_congr_left
  intro i hi
  rw [List.mem_range] at hi
  have hshift : 8 * i < 64 := by omega
  rw [← UInt8.toNat_inj, UInt64.toNat_toUInt8, UInt64.toNat_shiftRight,
    UInt64.toNat_ofNat_of_lt' (Nat.lt_trans hshift (by decide)), Nat.mod_eq_of_lt hshift, Nat.shiftRight_eq_div_pow,
    UInt8.toNat_ofNat', Nat.pow_mul, Nat.mod_mod]

theorem unpackWord_valueBytes {f : FieldDef} (htype : isIntType f.fieldType = true) (h1 : 1 ≤ f.fieldSize)
    (h8 : f.fieldSize ≤ 8) {val : UInt64} (hrange : InField f.fieldType f.fieldSize (fieldInt f.fieldType val.toBitVec))
    (rest : List UInt8) : RowProcess.unpackWord f (valueBytes val f.fieldSize ++ rest) = val.toBitVec := by
  have hcond := BitVec.toInt_eq_toNat_cond val.toBitVec
  have hlt := val.toBitVec.isLt
  have hval : val.toNat = val.toBitVec.toNat := rfl
  rw [RowProcess.unpackWord, valueBytes_eq_leBytes val h8, leNat_leBytes_append, hval]
  obtain ⟨hmin, hmax⟩ := hrange
  generalize val.toBitVec = w at hcond hlt hmin hmax ⊢
  generalize f.fieldType = type at htype hmin hmax ⊢
  generalize f.fieldSize = size at h1 h8 hmin hmax ⊢
  cases type with
  | signed =>
    have hlo : -2 ^ (8 * size - 1) ≤ w.toInt := hmin
    have hhi : w.toInt ≤ 2 ^ (8 * size - 1) - 1 := hmax
    split
    · next hn =>
      have hn' := hn.resolve_left (by decide)
      apply BitVec.eq_of_toNat_eq
      rw [BitVec.toNat_ofNat]
      interval_cases size <;> norm_num at hlo hhi hn' ⊢ <;> split at hcond <;> omega
    · next hn =>
      rw [not_or] at hn
      apply BitVec.eq_of_toInt_eq
      rw [BitVec.toInt_ofInt, Int.bmod_def]
      interval_cases size <;> norm_num at hlo hhi hn ⊢ <;> split at hcond <;> split <;> omega
  | unsigned =>
    rw [if_pos (Or.inl rfl)]
    have hhi : (w.toNat : Int) ≤ 2 ^ (8 * size) - 1 := hmax
    apply BitVec.eq_of_toNat_eq
    rw [BitVec.toNat_ofNat]
    interval_cases size <;> norm_num at hhi ⊢ <;> omega
  | none | float | string | binary => exact absurd htype (by decide)

end Integers

/-! ## What is packed is unpacked -/

/-- The values of a key pass the range checks: an integer is in the range of its field, a text not longer than its field. -/
structure KeyInRange (tdef : TableDef) (vals : List DataValue) : Prop where
  length : vals.length = tdef.keyFields
  int : tdef.IntKey → ∀ i < tdef.keyFields, ∃ w, vals.getD i .unset = .word w ∧
    InField (tdef.fieldType i) (tdef.fieldSize i) (fieldInt (tdef.fieldType i) w)
  text : tdef.TextKey → (∀ w, vals.getD 0 .unset ≠ .word w) ∧ (vals.getD 0 .unset).str.length ≤ tdef.fieldSize 0

def normalKey (tdef : TableDef) (vals : List DataValue) : List DataValue :=
  vals.map fun
    | .word w => .word w
    | v => .bin (TaskPackedKey.normalText tdef v.str)

/-- **The key is one that can be packed**: its integers take at most 255 bytes, its text is not longer than that. -/
def KeyFits (tdef : TableDef) (vals : List DataValue) : Prop :=
  (tdef.IntKey → tdef.keyOffset tdef.keyFields ≤ 255) ∧ (tdef.TextKey → (vals.getD 0 .unset).str.length ≤ 255)

section Pack

open TaskPackedKey

variable {tdef : TableDef} {vals : List DataValue}

@[simp] theorem TableDef.keyOffset_zero : tdef.keyOffset 0 = 0 := rfl

theorem TableDef.keyOffset_succ (i : Nat) : tdef.keyOffset (i + 1) = tdef.keyOffset i + tdef.fieldSize i := by
  rw [keyOffset, List.range_succ, List.map_append, List.sum_append, List.map_singleton, List.sum_singleton]
  rfl

theorem TableDef.keyOffset_mono {i j : Nat} (h : i ≤ j) : tdef.keyOffset i ≤ tdef.keyOffset j := by
  induction j with
  | zero => rw [Nat.le_zero.mp h]
  | succ j ih =>
    obtain h | rfl := Nat.lt_or_eq_of_le h
    · rw [keyOffset_succ]
      exact Nat.le_trans (ih (Nat.le_of_lt_succ h)) (Nat.le_add_right _ _)
    · exact Nat.le_refl _

theorem TableDef.IntKey.keyOffset_le (h : tdef.IntKey) : ∀ i ≤ tdef.keyFields, i ≤ tdef.keyOffset i ∧ tdef.keyOffset i ≤ 8 * i
  | 0, _ => ⟨Nat.le_refl _, Nat.le_refl _⟩
  | i + 1, hi => by
    have hprev := keyOffset_le h i (Nat.le_of_succ_le hi)
    have hfield := h.2 i hi
    rw [keyOffset_succ]
    omega

theorem TableDef.keyOffset_one : tdef.keyOffset 1 = tdef.fieldSize 0 := by
  rw [keyOffset_succ, keyOffset_zero, Nat.zero_add]

theorem TableDef.LaidOut.keyFormat_eq (h : tdef.LaidOut) (hint : tdef.IntKey)
    (hfits : tdef.keyOffset tdef.keyFields ≤ 255) : tdef.keyFormat = tdef.keyOffset tdef.keyFields ∧ tdef.keyFormat ≠ 0 := by
  have hpos := (hint.keyOffset_le _ (Nat.le_refl _)).1
  have h1 := hint.1
  have hformat := h.format hint
  omega

theorem not_textKey_of_intKey (h : tdef.IntKey) : ¬ tdef.TextKey := by
  rintro ⟨-, htext, -⟩
  have hint := (h.2 0 (by have := h.1; omega)).1
  rcases htext with ht | ht <;> rw [ht] at hint <;> exact absurd hint (by decide)

theorem keyWord_word (w : BitVec 64) : (keyWord (.word w)).toBitVec = w := by
  apply BitVec.eq_of_toNat_eq
  have hlt := w.isLt
  simp [keyWord, DataValue.u64]

variable (tdef vals) in
/-- The bytes of `n` integers of the key, from field `i` on. -/
def packInts : Nat → Nat → List UInt8
  | 0, _ => []
  | n + 1, i => valueBytes (keyWord (vals.getD i .unset)) (tdef.fieldSize i) ++ packInts n (i + 1)

theorem packInts_length : ∀ n i, (packInts tdef vals n i).length + tdef.keyOffset i = tdef.keyOffset (i + n)
  | 0, i => Nat.zero_add _
  | n + 1, i => by
    have ih := packInts_length n (i + 1)
    rw [TableDef.keyOffset_succ, Nat.add_assoc i 1 n, Nat.add_comm 1 n] at ih
    rw [packInts, List.length_append, length_valueBytes]
    omega

theorem packInts_length_all : (packInts tdef vals tdef.keyFields 0).length = tdef.keyOffset tdef.keyFields := by
  have h := @packInts_length tdef vals tdef.keyFields 0
  rw [Nat.zero_add] at h
  exact h

theorem KeyInRange.storeValue (hrange : KeyInRange tdef vals) (hint : tdef.IntKey) {i : Nat} (hi : i < tdef.keyFields)
    (buf : List UInt8) (p : Nat) :
    TaskPackedKey.storeValue buf p (keyWord (vals.getD i .unset)) (tdef.fieldType i) (tdef.fieldSize i) =
      some (writeBytes buf p (valueBytes (keyWord (vals.getD i .unset)) (tdef.fieldSize i))) := by
  obtain ⟨w, hw, hin⟩ := hrange.int hint i hi
  obtain ⟨htype, h1, h8⟩ := hint.2 i hi
  rw [storeValue_eq htype h1 h8, hw, keyWord_word]
  exact if_pos hin

theorem writeBytes_append {pre old bytes post : List UInt8} {p : Nat} (hp : pre.length = p) (hold : old.length = bytes.length) :
    writeBytes (pre ++ (old ++ post)) p bytes = pre ++ (bytes ++ post) :=
  splice_append hp hold

theorem storeLoop_int (hlaid : tdef.LaidOut) (hint : tdef.IntKey) (hfits : tdef.keyOffset tdef.keyFields ≤ 255)
    (hrange : KeyInRange tdef vals) : ∀ (n i : Nat) (pre post : List UInt8), i + n ≤ tdef.keyFields →
    pre.length = tdef.keyOffset i → (packInts tdef vals n i).length ≤ post.length →
    storeLoop tdef vals (List.range' i n) (pre ++ post) =
      some (pre ++ (packInts tdef vals n i ++ post.drop (packInts tdef vals n i).length))
  | 0, i, pre, post, _, _, _ => rfl
  | n + 1, i, pre, post, hn, hpre, hpost => by
    have hi : i < tdef.keyFields := by omega
    have hoffset : tdef.fieldOffset i = tdef.keyOffset i := by
      have hle := tdef.keyOffset_mono (Nat.le_of_lt hi)
      rw [hlaid.offset hint i hi, Nat.mod_eq_of_lt (by omega)]
    rw [packInts, List.length_append] at hpost
    obtain ⟨old, rest, rfl, hold⟩ := exists_split post (Nat.le_trans (Nat.le_add_right _ _) hpost)
    rw [List.range'_succ, storeLoop, hoffset, hrange.storeValue hint hi,
      writeBytes_append hpre (by rw [hold, length_valueBytes])]
    dsimp only
    rw [← List.append_assoc, storeLoop_int hlaid hint hfits hrange n (i + 1) _ rest (by omega)
      (by rw [List.length_append, length_valueBytes, hpre, TableDef.keyOffset_succ])
      (by rw [List.length_append, hold] at hpost; omega), packInts]
    rw [List.length_append, ← List.drop_drop, ← hold, List.drop_left' rfl, List.append_assoc, List.append_assoc]

theorem unpackLoop_packInts (hint : tdef.IntKey) (hrange : KeyInRange tdef vals) : ∀ (n i : Nat) (rest : List UInt8),
    i + n ≤ tdef.keyFields →
    unpackLoop tdef n i (packInts tdef vals n i ++ rest) = (List.range' i n).map fun j => vals.getD j .unset
  | 0, i, rest, _ => rfl
  | n + 1, i, rest, hn => by
    have hi : i < tdef.keyFields := by omega
    obtain ⟨w, hw, hin⟩ := hrange.int hint i hi
    obtain ⟨htype, h1, h8⟩ := hint.2 i hi
    have hword : RowProcess.unpackWord (tdef.field i) (valueBytes (keyWord (vals.getD i .unset)) (tdef.fieldSize i) ++
        (packInts tdef vals n (i + 1) ++ rest)) = w := by
      have hback := @unpackWord_valueBytes (tdef.field i) htype h1 h8 (keyWord (.word w))
        (by rw [keyWord_word]; exact hin) (packInts tdef vals n (i + 1) ++ rest)
      rw [keyWord_word] at hback
      rw [hw]
      exact hback
    rw [packInts, unpackLoop, List.append_assoc, hword, List.drop_left' (length_valueBytes _ _),
      unpackLoop_packInts hint hrange n (i + 1) rest (by omega), List.range'_succ, List.map_cons, hw]

theorem map_range'_getD (vals : List DataValue) : (List.range' 0 vals.length).map (fun j => vals.getD j .unset) = vals := by
  apply List.ext_getElem
  · simp
  · intro j h1 h2
    simp [List.getD_eq_getElem?_getD, List.getElem?_eq_getElem h2]

variable (misread : BitVec 64 → List UInt8)

theorem buildPackedKey_int (hlaid : tdef.LaidOut) (hint : tdef.IntKey) (hfits : tdef.keyOffset tdef.keyFields ≤ 255)
    (hrange : KeyInRange tdef vals) {packKey : List UInt8} (hroom : tdef.keyOffset tdef.keyFields ≤ packKey.length) :
    buildPackedKey tdef misread vals packKey =
      .ok (packInts tdef vals tdef.keyFields 0 ++ packKey.drop (tdef.keyOffset tdef.keyFields)) := by
  obtain ⟨hformat, hne⟩ := hlaid.keyFormat_eq hint hfits
  have h1 := hint.1
  have hlen := @packInts_length_all tdef vals
  have hloop := storeLoop_int hlaid hint hfits hrange tdef.keyFields 0 [] packKey (by omega) rfl (by omega)
  rw [List.nil_append, List.nil_append, hlen, ← List.range_eq_range'] at hloop
  rw [buildPackedKey, if_neg hne]
  split
  · next hone =>
    rw [if_neg (by omega)]
    have hstore := hrange.storeValue hint (i := 0) (by omega) packKey 0
    rw [hone, List.range_succ, List.range_zero, List.nil_append, storeLoop] at hloop
    have hoffset : tdef.fieldOffset 0 = 0 := hlaid.offset hint 0 (by omega)
    rw [hoffset, hstore] at hloop
    rw [hstore]
    exact congrArg Except.ok (Option.some.inj (hone ▸ hloop))
  · rw [if_neg (by omega), hloop]

theorem unpackKey_int (hlaid : tdef.LaidOut) (hint : tdef.IntKey) (hfits : tdef.keyOffset tdef.keyFields ≤ 255)
    (hrange : KeyInRange tdef vals) (rest : List UInt8) :
    unpackKey tdef (packInts tdef vals tdef.keyFields 0 ++ rest) = vals := by
  rw [unpackKey, if_neg (hlaid.keyFormat_eq hint hfits).2, unpackLoop_packInts hint hrange _ _ _ (by omega), ← hrange.length, map_range'_getD]

theorem normalKey_int (hint : tdef.IntKey) (hrange : KeyInRange tdef vals) : normalKey tdef vals = vals := by
  unfold normalKey
  apply List.ext_getElem
  · simp
  · intro i h1 h2
    obtain ⟨w, hw, -⟩ := hrange.int hint i (hrange.length ▸ h2)
    rw [List.getD_eq_getElem?_getD, List.getElem?_eq_getElem h2, Option.getD_some] at hw
    rw [List.getElem_map, hw]

/-! A text, with its length in one byte -/

theorem normalText_length (text : List UInt8) : (normalText tdef text).length = text.length := by
  unfold normalText
  split
  · exact List.length_map ..
  · rfl

theorem normalKey_text (htext : tdef.TextKey) (hrange : KeyInRange tdef vals) :
    normalKey tdef vals = [.bin (normalText tdef (vals.getD 0 .unset).str)] := by
  have hlen : vals.length = 1 := hrange.length.trans htext.1
  obtain ⟨v, rfl⟩ := List.length_eq_one_iff.mp hlen
  cases v with
  | word w => exact absurd rfl ((hrange.text htext).1 w)
  | unset => rfl
  | bin bytes => rfl

theorem buildPackedKey_text (hlaid : tdef.LaidOut) (htext : tdef.TextKey) (hrange : KeyInRange tdef vals)
    {packKey : List UInt8} (hroom : (vals.getD 0 .unset).str.length + 1 ≤ packKey.length) :
    buildPackedKey tdef misread vals packKey =
      .ok ((UInt8.ofNat (vals.getD 0 .unset).str.length :: normalText tdef (vals.getD 0 .unset).str) ++
        packKey.drop ((vals.getD 0 .unset).str.length + 1)) := by
  obtain ⟨hword, hsize⟩ := hrange.text htext
  have hkey : keyText misread (vals.getD 0 .unset) = (vals.getD 0 .unset).str := by
    generalize vals.getD 0 .unset = v at hword
    cases v with
    | word w => exact absurd rfl (hword w)
    | unset => rfl
    | bin bytes => rfl
  rw [buildPackedKey, if_pos (hlaid.text htext), hkey, if_neg (Nat.not_lt.mpr hsize), if_neg (Nat.not_lt.mpr hroom)]
  rw [writeBytes, List.take_zero, List.nil_append, List.length_cons, normalText_length, Nat.zero_add]

theorem unpackKey_text (hlaid : tdef.LaidOut) (htext : tdef.TextKey) (text rest : List UInt8) :
    unpackKey tdef ((UInt8.ofNat text.length :: normalText tdef text) ++ rest) =
      [.bin ((normalText tdef text ++ rest).take (text.length % 256))] := by
  rw [unpackKey, if_pos (hlaid.text htext), List.cons_append, List.headD_cons, List.drop_succ_cons, List.drop_zero,
    UInt8.toNat_ofNat']

end Pack

/-! ## The bytes of a key -/

def keyRoom (tdef : TableDef) (vals : List DataValue) : Nat :=
  match vals.getD 0 .unset with
  | .word _ => tdef.keyOffset tdef.keyFields
  | v => v.str.length + 1

def packedBytes (tdef : TableDef) (buf : List UInt8) : List UInt8 := buf.take (packedKeySize tdef.keyFormat buf)

/-- The bytes of a key: its integers, or its text behind the length. -/
def keyImage (tdef : TableDef) (vals : List DataValue) : List UInt8 :=
  match vals.getD 0 .unset with
  | .word _ => packInts tdef vals tdef.keyFields 0
  | v => UInt8.ofNat v.str.length :: TaskPackedKey.normalText tdef v.str

section Image

open TaskPackedKey

variable {tdef : TableDef} {vals : List DataValue}

theorem keyImage_text (hword : ∀ w, vals.getD 0 .unset ≠ .word w) :
    keyRoom tdef vals = (vals.getD 0 .unset).str.length + 1 ∧
      keyImage tdef vals =
        UInt8.ofNat (vals.getD 0 .unset).str.length :: normalText tdef (vals.getD 0 .unset).str := by
  unfold keyRoom keyImage
  generalize vals.getD 0 .unset = v at hword
  cases v with
  | word w => exact absurd rfl (hword w)
  | unset => exact ⟨rfl, rfl⟩
  | bin bytes => exact ⟨rfl, rfl⟩

theorem keyImage_int (hint : tdef.IntKey) (hrange : KeyInRange tdef vals) :
    keyRoom tdef vals = tdef.keyOffset tdef.keyFields ∧ keyImage tdef vals = packInts tdef vals tdef.keyFields 0 := by
  obtain ⟨w, hw, -⟩ := hrange.int hint 0 hint.1
  rw [keyRoom, keyImage, hw]
  exact ⟨rfl, rfl⟩

variable (misread : BitVec 64 → List UInt8)

theorem KeyFits.image (hlaid : tdef.LaidOut) (hkey : tdef.IntKey ∨ tdef.TextKey) (hrange : KeyInRange tdef vals)
    (hfits : KeyFits tdef vals) :
    (keyImage tdef vals).length = keyRoom tdef vals ∧
      (∀ packKey : List UInt8, keyRoom tdef vals ≤ packKey.length →
        buildPackedKey tdef misread vals packKey = .ok (keyImage tdef vals ++ packKey.drop (keyRoom tdef vals))) ∧
      ∀ rest, packedKeySize tdef.keyFormat (keyImage tdef vals ++ rest) = keyRoom tdef vals ∧
        unpackKey tdef (keyImage tdef vals ++ rest) = normalKey tdef vals := by
  rcases hkey with hint | htext
  · obtain ⟨hroom, himage⟩ := keyImage_int hint hrange
    have hsum := hfits.1 hint
    obtain ⟨hformat, hne⟩ := hlaid.keyFormat_eq hint hsum
    rw [hroom, himage]
    refine ⟨packInts_length_all, fun packKey hle => buildPackedKey_int misread hlaid hint hsum hrange hle, fun rest => ⟨?_, ?_⟩⟩
    · rw [packedKeySize, if_pos hne, hformat]
    · rw [unpackKey_int hlaid hint hsum hrange, normalKey_int hint hrange]
  · obtain ⟨hroom, himage⟩ := @keyImage_text tdef vals (hrange.text htext).1
    have hlen := hfits.2 htext
    have hmod : (vals.getD 0 .unset).str.length % 256 = (vals.getD 0 .unset).str.length := Nat.mod_eq_of_lt (by omega)
    rw [hroom, himage]
    refine ⟨?_, fun packKey hle => buildPackedKey_text misread hlaid htext hrange hle, fun rest => ⟨?_, ?_⟩⟩
    · rw [List.length_cons, normalText_length]
    · rw [packedKeySize, hlaid.text htext, if_neg (fun h => h rfl), List.cons_append, List.headD_cons,
        UInt8.toNat_ofNat', hmod, Nat.add_comm]
    · rw [unpackKey_text hlaid htext, hmod, List.take_left' (normalText_length _), normalKey_text htext hrange]

/-- **Round trip**: the key is packed into every buffer with room for it, and unpacked as it was. -/
def RoundTrips (tdef : TableDef) (vals : List DataValue) : Prop :=
  ∀ packKey : List UInt8, keyRoom tdef vals ≤ packKey.length →
    ∃ buf, buildPackedKey tdef misread vals packKey = .ok buf ∧ unpackKey tdef buf = normalKey tdef vals

theorem roundTrips_iff (hlaid : tdef.LaidOut) (hkey : tdef.IntKey ∨ tdef.TextKey) (hrange : KeyInRange tdef vals) :
    RoundTrips misread tdef vals ↔ KeyFits tdef vals := by
  constructor
  · intro htrip
    obtain ⟨buf, hbuild, hback⟩ := htrip (List.replicate (keyRoom tdef vals) 0) (by rw [List.length_replicate])
    refine ⟨fun hint => ?_, fun htext => ?_⟩
    · -- 32 integers of eight bytes: the format of the key wraps to that of a text
      by_contra hbig
      have h8 := (hint.keyOffset_le _ (Nat.le_refl _)).2
      have hk := tdef.keyFields_le
      have hformat : tdef.keyFormat = 0 := by
        rw [hlaid.format hint]
        omega
      have hlen := congrArg List.length hback
      rw [normalKey_int hint hrange, hrange.length, unpackKey, if_pos hformat, List.length_singleton] at hlen
      omega
    · obtain ⟨hroom, -⟩ := @keyImage_text tdef vals (hrange.text htext).1
      have hlen : (vals.getD 0 .unset).str.length + 1 ≤ (List.replicate (keyRoom tdef vals) (0 : UInt8)).length := by
        rw [List.length_replicate, hroom]
      have hsame := buildPackedKey_text misread hlaid htext hrange hlen
      obtain rfl := Except.ok.inj (hbuild.symm.trans hsame)
      rw [unpackKey_text hlaid htext, normalKey_text htext hrange] at hback
      have hbytes := congrArg List.length (DataValue.bin.inj (List.cons.inj hback).1)
      rw [List.length_take, normalText_length] at hbytes
      have hlt := Nat.mod_lt (vals.getD 0 .unset).str.length (by decide : 0 < 256)
      omega
  · intro hfits packKey hle
    obtain ⟨-, hbuild, hback⟩ := hfits.image misread hlaid hkey hrange
    exact ⟨_, hbuild packKey hle, (hback _).2⟩

theorem normalKey_eq_of_packedBytes {vals' : List DataValue} (hlaid : tdef.LaidOut) (hkey : tdef.IntKey ∨ tdef.TextKey)
    (hrange : KeyInRange tdef vals) (hrange' : KeyInRange tdef vals') (hfits : KeyFits tdef vals)
    (hfits' : KeyFits tdef vals') {packKey packKey' buf buf' : List UInt8} (hroom : keyRoom tdef vals ≤ packKey.length)
    (hroom' : keyRoom tdef vals' ≤ packKey'.length) (hbuild : buildPackedKey tdef misread vals packKey = .ok buf)
    (hbuild' : buildPackedKey tdef misread vals' packKey' = .ok buf')
    (hsame : packedBytes tdef buf = packedBytes tdef buf') : normalKey tdef vals = normalKey tdef vals' := by
  obtain ⟨hlen, hpack, hback⟩ := hfits.image misread hlaid hkey hrange
  obtain ⟨hlen', hpack', hback'⟩ := hfits'.image misread hlaid hkey hrange'
  obtain rfl := Except.ok.inj ((hpack packKey hroom).symm.trans hbuild)
  obtain rfl := Except.ok.inj ((hpack' packKey' hroom').symm.trans hbuild')
  rw [packedBytes, packedBytes, (hback _).1, (hback' _).1, List.take_left' hlen, List.take_left' hlen'] at hsame
  calc normalKey tdef vals = unpackKey tdef (keyImage tdef vals ++ []) := (hback []).2.symm
    _ = unpackKey tdef (keyImage tdef vals' ++ []) := by rw [hsame]
    _ = normalKey tdef vals' := (hback' []).2

end Image

end Dtc
