import DtcServer.HelperSqlText
/-!
# HelperSqlRows — an `UPDATE` in the database and the same operations in the cache

A database stores numbers and texts that are in the range of their field as they are; what it does with others is its own.
-/
namespace Dtc

open Sql

namespace CHelperProcess

structure FloatColumn where
  arith : FloatArith
  read : SqlValue → Option (BitVec 64)

instance (type : FieldType) (size : Nat) (x : Int) : Decidable (InField type size x) := inferInstanceAs (Decidable (_ ∧ _))

/-- An integer column of this size can have the number. -/
def InColumn (type : FieldType) (size : Nat) (x : Int) : Prop := 1 ≤ size ∧ size ≤ 8 ∧ InField type size x

instance (type : FieldType) (size : Nat) (x : Int) : Decidable (InColumn type size x) := inferInstanceAs (Decidable (_ ∧ _))

section Exact

variable (fc : FloatColumn)

/-- What a column becomes when it is set: as it is in the statement, if that is in its range. -/
def exactPut (type : FieldType) (size : Nat) : SqlValue → Option DataValue
  | .null => none
  | .int x =>
    match type with
    | .signed | .unsigned => if InColumn type size x then some (.word (BitVec.ofInt 64 x)) else none
    | .float => (fc.read (.int x)).map .word
    | _ => none
  | .float w =>
    match type with
    | .float => (fc.read (.float w)).map .word
    | _ => none
  | .quoted bytes =>
    match type with
    | .string | .binary => if bytes.length ≤ size then some (.bin bytes) else none
    | _ => none

/-- What a column becomes when a number is added to it. -/
def exactAdd (type : FieldType) (size : Nat) (v1 : DataValue) (v : SqlValue) : Option DataValue :=
  match type, v1, v with
  | .signed, .word w, .int x | .unsigned, .word w, .int x =>
    if InColumn type size (fieldInt type w) ∧ InColumn type size (fieldInt type w + x) then
      some (.word (BitVec.ofInt 64 (fieldInt type w + x)))
    else none
  | .float, .word w, .int x => (fc.read (.int x)).map (fun d => .word (fc.arith.add w d))
  | .float, .word w, .float d => (fc.read (.float d)).map (fun d => .word (fc.arith.add w d))
  | _, _, _ => none

variable (h : HelperTable)

/-- The least that a database does with the columns of the table. -/
def exactStore : Store Nat SqlOperator SqlValue DataValue where
  put f v := exactPut fc (h.table.tdef.fieldType f) (h.table.tdef.fieldSize f) v
  combine f o d v :=
    match o with
    | .plus => exactAdd fc (h.table.tdef.fieldType f) (h.table.tdef.fieldSize f) d v
    | _ => none

/-! ## When the cache does the same -/

def quotedBytes : DataValue → List UInt8
  | .bin bytes => bytes
  | _ => []

/-- The number that is set or added in a float field of the cache. -/
def floatOperand (vt : FieldType) (w : BitVec 64) : Option (BitVec 64) :=
  match vt with
  | .signed => some (fc.arith.ofSigned w)
  | .unsigned => some (fc.arith.ofUnsigned w)
  | .float => some w
  | _ => none

/-- Setting a field: the value is in its range, and the switch of `Update` has the types, or the value is there already. -/
def SetMeets (type : FieldType) (size : Nat) (vt : FieldType) (v1 v2 : DataValue) : Prop :=
  match type with
  | .signed | .unsigned =>
    isIntType vt = true ∧ InColumn type size (operandInt vt v2.word64) ∧
      (vt = .signed ∨ type = .unsigned ∨ v1 = .word v2.word64)
  | .float => ∃ d, floatOperand fc vt v2.word64 = some d ∧ (value2Str (some v2) vt).bind fc.read = some d
  | .string | .binary =>
    (vt = .string ∨ vt = .binary) ∧ (quotedBytes v2).length ≤ size ∧
      if vt = .string ∨ type = .binary then v2 = .bin (quotedBytes v2) else v1 = .bin (quotedBytes v2)
  | .none => False

/-- Adding to a field: the number it has and the sum are in its range, and the addition of the cache is exact there. -/
def AddsAlike (type : FieldType) (size : Nat) (vt : FieldType) (v1 v2 : DataValue) : Prop :=
  match type, v1 with
  | .signed, .word v | .unsigned, .word v =>
    isIntType vt = true ∧ InColumn type size (fieldInt type v) ∧ InColumn type size (fieldInt type v + operandInt vt v2.word64) ∧
      AddMeets type size vt v v2.word64
  | .float, .word v => ∃ d, floatOperand fc vt v2.word64 = some d ∧
      ((value2Str (some v2) vt).bind fc.read).map (fc.arith.add v) = some (fc.arith.add v d)
  | _, _ => False

/-- When an entry does the same to a field's value in both. -/
def EntryMeets (e : SFieldValue) (v1 : DataValue) : Prop :=
  let type := h.table.tdef.fieldType e.id.toNat
  let size := h.table.tdef.fieldSize e.id.toNat
  match FieldOperation.ofCode e.oper with
  | some .set => SetMeets fc type size (.ofCode e.type) v1 e.val
  | some .add => AddsAlike fc type size (.ofCode e.type) v1 e.val
  | _ => False

def exactValue (e : SFieldValue) (v1 : DataValue) : DataValue :=
  ((assignment e).bind fun a => a.result (exactStore fc h) v1).getD v1

/-- **The condition on the row**: every entry of a field in the database meets the field as the entries before it leave it. -/
def RowMeets : List SFieldValue → (Nat → DataValue) → Prop
  | [], _ => True
  | e :: es, r =>
    if h.table.isVolatile e.id.toNat then RowMeets es r
    else
      EntryMeets fc h e (r e.id.toNat) ∧
        RowMeets es (Function.update r e.id.toNat (exactValue fc h e (r e.id.toNat)))

end Exact

section Values

variable {fc : FloatColumn} {type : FieldType} {size : Nat}

theorem ofInt_toInt (w : BitVec 64) : BitVec.ofInt 64 w.toInt = w := BitVec.ofInt_toInt

theorem ofInt_toNat (w : BitVec 64) : BitVec.ofInt 64 (w.toNat : Int) = w := by
  rw [BitVec.ofInt_natCast, BitVec.ofNat_toNat, BitVec.setWidth_eq]

theorem ofInt_fieldInt (w : BitVec 64) : BitVec.ofInt 64 (fieldInt type w) = w := by
  unfold fieldInt
  split
  · exact ofInt_toInt w
  · exact ofInt_toNat w

theorem int_of_operand {vt : FieldType} (hvt : isIntType vt = true) (v : DataValue) :
    value2Str (some v) vt = some (.int (operandInt vt v.word64)) := by
  cases vt <;> first | exact absurd hvt (by decide) | rfl

theorem truncate_inField (htype : isIntType type = true) {vt : FieldType} {w : BitVec 64}
    (hx : InColumn type size (operandInt vt w)) : truncateIntValue w type size = w := by
  obtain ⟨h1, h8, hlo, hhi⟩ := hx
  by_cases h7 : size ≤ 7
  · obtain ⟨hmin, hmin0, hmax0, hmax⟩ := @fieldRange_le type size h1 h7
    have hint : w.toInt = operandInt vt w := by
      have hnat := toNat_eq_toInt w
      have hrange := toInt_range w
      unfold operandInt fieldInt at *
      by_cases hs : vt = .signed
      · rw [if_pos hs]
      · rw [if_neg hs] at hlo hhi ⊢
        split at hnat <;> omega
    unfold truncateIntValue
    rw [intLimits_eq htype h1 h7]
    dsimp only
    rw [hint, if_neg (by omega), if_neg (by omega)]
  · obtain rfl : size = 8 := by omega
    unfold truncateIntValue
    rw [intLimits_eight]

theorem exactPut_int (htype : isIntType type = true) (x : Int) :
    exactPut fc type size (.int x) = if InColumn type size x then some (.word (BitVec.ofInt 64 x)) else none := by
  cases type <;> first | exact absurd htype (by decide) | rfl

theorem updateValue_setInt (fa : FloatArith) (htype : isIntType type = true) {vt : FieldType} (hvt : isIntType vt = true)
    (v1 v2 : DataValue) : updateValue fa type size vt .set v1 v2 =
      if vt = .signed ∨ type = .unsigned then .word (truncateIntValue v2.word64 type size) else v1 := by
  cases type <;> first | exact absurd htype (by decide) | (cases vt <;> first | exact absurd hvt (by decide) | rfl)

theorem not_int_of_value {vt : FieldType} (hvt : ¬ isIntType vt = true) {v2 : DataValue} {v : SqlValue}
    (hv : value2Str (some v2) vt = some v) : ∀ x, v ≠ .int x := by
  cases vt <;> first | exact absurd rfl hvt | skip
  · cases hv
  · obtain rfl := Option.some.inj hv
    exact nofun
  · cases v2 <;> obtain rfl := Option.some.inj hv <;> exact nofun
  · cases v2 <;> obtain rfl := Option.some.inj hv <;> exact nofun

theorem setMeets_int (htype : isIntType type = true) {vt : FieldType} {v1 v2 : DataValue} {v : SqlValue}
    (hv : value2Str (some v2) vt = some v) :
    exactPut fc type size v = some (updateValue fc.arith type size vt .set v1 v2) ↔
      isIntType vt = true ∧ InColumn type size (operandInt vt v2.word64) ∧
        (vt = .signed ∨ type = .unsigned ∨ v1 = .word v2.word64) := by
  by_cases hvt : isIntType vt = true
  · rw [int_of_operand hvt] at hv
    obtain rfl := Option.some.inj hv
    rw [exactPut_int htype, updateValue_setInt fc.arith htype hvt]
    by_cases hin : InColumn type size (operandInt vt v2.word64)
    · rw [if_pos hin, truncate_inField htype hin, operandInt, ofInt_fieldInt]
      by_cases hsw : vt = .signed ∨ type = .unsigned
      · rw [if_pos hsw]
        exact ⟨fun _ => ⟨hvt, hin, hsw.elim .inl (fun h => .inr (.inl h))⟩, fun _ => rfl⟩
      · rw [if_neg hsw]
        constructor
        · intro he
          exact ⟨hvt, hin, .inr (.inr (Option.some.inj he).symm)⟩
        · rintro ⟨-, -, h1 | h1 | h1⟩
          · exact absurd (.inl h1) hsw
          · exact absurd (.inr h1) hsw
          · rw [h1]
    · rw [if_neg hin]
      exact ⟨nofun, fun hs => absurd hs.2.1 hin⟩
  · have hnot := not_int_of_value hvt hv
    have hnone : exactPut fc type size v = none := by
      cases v with
      | int x => exact absurd rfl (hnot x)
      | null => rfl
      | float w => cases type <;> first | exact absurd htype (by decide) | rfl
      | quoted bytes => cases type <;> first | exact absurd htype (by decide) | rfl
    rw [hnone]
    exact ⟨nofun, fun hs => absurd hs.1 hvt⟩

theorem map_word_eq {o : Option (BitVec 64)} {d : BitVec 64} : o.map DataValue.word = some (.word d) ↔ o = some d := by
  cases o with
  | none => exact ⟨nofun, nofun⟩
  | some x =>
    constructor
    · intro h
      rw [DataValue.word.inj (Option.some.inj h)]
    · intro h
      rw [h]
      rfl

theorem setMeets_float {vt : FieldType} {v1 v2 : DataValue} {v : SqlValue} (hv : value2Str (some v2) vt = some v) :
    exactPut fc .float size v = some (updateValue fc.arith .float size vt .set v1 v2) ↔
      SetMeets fc .float size vt v1 v2 := by
  have hread : (value2Str (some v2) vt).bind fc.read = fc.read v := by
    rw [hv]
    rfl
  have hnumber : ∀ d, floatOperand fc vt v2.word64 = some d → exactPut fc .float size v = (fc.read v).map .word →
      updateValue fc.arith .float size vt .set v1 v2 = .word d →
      (exactPut fc .float size v = some (updateValue fc.arith .float size vt .set v1 v2) ↔
        SetMeets fc .float size vt v1 v2) := by
    intro d hd hput hupdate
    rw [hput, hupdate, map_word_eq]
    unfold SetMeets
    dsimp only
    rw [hread]
    constructor
    · exact fun h => ⟨d, hd, h⟩
    · rintro ⟨d', hd', h⟩
      rw [h, ← hd', hd]
  cases vt with
  | none => cases hv
  | signed =>
    obtain rfl := Option.some.inj hv
    exact hnumber _ rfl rfl rfl
  | unsigned =>
    obtain rfl := Option.some.inj hv
    exact hnumber _ rfl rfl rfl
  | float =>
    obtain rfl := Option.some.inj hv
    exact hnumber _ rfl rfl rfl
  | string =>
    cases v2 <;> obtain rfl := Option.some.inj hv <;> exact ⟨nofun, fun ⟨d, hd, _⟩ => by cases hd⟩
  | binary =>
    cases v2 <;> obtain rfl := Option.some.inj hv <;> exact ⟨nofun, fun ⟨d, hd, _⟩ => by cases hd⟩

theorem cutText_eq {v2 : DataValue} (hlen : (quotedBytes v2).length ≤ size) :
    DataValue.bin (quotedBytes v2) = cutText size v2 ↔ v2 = .bin (quotedBytes v2) := by
  cases v2 with
  | bin bytes =>
    have htake : bytes.take size = bytes := List.take_of_length_le hlen
    refine ⟨fun _ => rfl, fun _ => ?_⟩
    change DataValue.bin bytes = .bin (bytes.take size)
    rw [htake]
  | unset => exact ⟨nofun, nofun⟩
  | word w => exact ⟨nofun, nofun⟩

theorem setMeets_text (htype : type = .string ∨ type = .binary) {vt : FieldType} {v1 v2 : DataValue} {v : SqlValue}
    (hv : value2Str (some v2) vt = some v) :
    exactPut fc type size v = some (updateValue fc.arith type size vt .set v1 v2) ↔
      (vt = .string ∨ vt = .binary) ∧ (quotedBytes v2).length ≤ size ∧
        if vt = .string ∨ type = .binary then v2 = .bin (quotedBytes v2) else v1 = .bin (quotedBytes v2) := by
  by_cases hvt : vt = .string ∨ vt = .binary
  · have hquoted : v = .quoted (quotedBytes v2) := by
      rcases hvt with rfl | rfl <;> cases v2 <;> exact (Option.some.inj hv).symm
    have hput : exactPut fc type size v = if (quotedBytes v2).length ≤ size then some (.bin (quotedBytes v2)) else none := by
      rw [hquoted]
      rcases htype with rfl | rfl <;> rfl
    have hupdate : updateValue fc.arith type size vt .set v1 v2 =
        if vt = .string ∨ type = .binary then cutText size v2 else v1 := by
      rcases htype with rfl | rfl <;> rcases hvt with rfl | rfl <;> rfl
    rw [hput, hupdate]
    by_cases hlen : (quotedBytes v2).length ≤ size
    · rw [if_pos hlen]
      by_cases hsw : vt = .string ∨ type = .binary
      · rw [if_pos hsw, if_pos hsw, Option.some.injEq, cutText_eq hlen]
        exact ⟨fun h => ⟨hvt, hlen, h⟩, fun h => h.2.2⟩
      · rw [if_neg hsw, if_neg hsw, Option.some.injEq]
        exact ⟨fun h => ⟨hvt, hlen, h.symm⟩, fun h => h.2.2.symm⟩
    · rw [if_neg hlen]
      exact ⟨nofun, fun h => absurd h.2.1 hlen⟩
  · have hnone : exactPut fc type size v = none := by
      have hnot : ∀ bytes, v ≠ .quoted bytes := by
        cases vt with
        | none => cases hv
        | signed | unsigned | float =>
          obtain rfl := Option.some.inj hv
          exact nofun
        | string => exact absurd (.inl rfl) hvt
        | binary => exact absurd (.inr rfl) hvt
      cases v with
      | quoted bytes => exact absurd rfl (hnot bytes)
      | null => rfl
      | int x => rcases htype with rfl | rfl <;> rfl
      | float w => rcases htype with rfl | rfl <;> rfl
    rw [hnone]
    exact ⟨nofun, fun h => absurd h.1 hvt⟩

theorem setMeets_iff {vt : FieldType} {v1 v2 : DataValue} {v : SqlValue} (hv : value2Str (some v2) vt = some v) :
    exactPut fc type size v = some (updateValue fc.arith type size vt .set v1 v2) ↔ SetMeets fc type size vt v1 v2 := by
  cases type with
  | none => cases v <;> exact ⟨nofun, nofun⟩
  | signed => exact setMeets_int rfl hv
  | unsigned => exact setMeets_int rfl hv
  | float => exact setMeets_float hv
  | string => exact setMeets_text (.inl rfl) hv
  | binary => exact setMeets_text (.inr rfl) hv

theorem fieldInt_ofInt {x : Int} (hx : InColumn type size x) : fieldInt type (BitVec.ofInt 64 x) = x := by
  obtain ⟨h1, h8, hlo, hhi⟩ := hx
  unfold fieldInt fieldMin fieldMax at *
  by_cases hs : type = .signed
  · simp only [if_pos hs] at hlo hhi ⊢
    rw [BitVec.toInt_ofInt, Int.bmod_def]
    interval_cases size <;> omega
  · simp only [if_neg hs] at hlo hhi ⊢
    rw [BitVec.toNat_ofInt]
    interval_cases size <;> omega

theorem word_eq_iff {x : Int} (hx : InColumn type size x) {w : BitVec 64} :
    some (DataValue.word (BitVec.ofInt 64 x)) = some (.word w) ↔ fieldInt type w = x := by
  constructor
  · intro h
    rw [← DataValue.word.inj (Option.some.inj h), fieldInt_ofInt hx]
  · rintro rfl
    rw [ofInt_fieldInt]

theorem addMeets_exact (htype : isIntType type = true) {vt : FieldType} (hvt : isIntType vt = true) (fa : FloatArith)
    {w : BitVec 64} {v2 : DataValue} (hw : InColumn type size (fieldInt type w))
    (hsum : InColumn type size (fieldInt type w + operandInt vt v2.word64)) :
    some (DataValue.word (BitVec.ofInt 64 (fieldInt type w + operandInt vt v2.word64))) =
      some (updateValue fa type size vt .add (.word w) v2) ↔ AddMeets type size vt w v2.word64 := by
  have hsat : saturated type size (fieldInt type w + operandInt vt v2.word64) = fieldInt type w + operandInt vt v2.word64 := by
    obtain ⟨-, -, hlo, hhi⟩ := hsum
    unfold saturated
    omega
  by_cases hs : vt = .signed
  · subst hs
    have hupdate : updateValue fa type size .signed .add (.word w) v2 =
        .word (truncateIntValue (addInt w v2.word64) type size) := by
      cases type <;> first | exact absurd htype (by decide) | rfl
    rw [hupdate, word_eq_iff hsum, ← hsat]
    by_cases h7 : size ≤ 7
    · refine ⟨fun _ => ?_, fun _ => addInt_narrow htype hw.1 h7 hw.2.2 v2.word64⟩
      rw [AddMeets, if_pos rfl]
      exact .inl h7
    · obtain rfl : size = 8 := Nat.le_antisymm hw.2.1 (Nat.lt_of_not_le h7)
      exact addInt_eight w v2.word64
  · have hunsigned : vt = .unsigned := by
      cases vt <;> first | exact absurd hvt (by decide) | exact absurd rfl hs | rfl
    subst hunsigned
    have hupdate : updateValue fa type size .unsigned .add (.word w) v2 = .word w := by
      cases type <;> first | exact absurd htype (by decide) | rfl
    have hzero : ((v2.word64.toNat : Int) = 0) ↔ v2.word64 = 0 := by
      rw [← BitVec.toNat_inj]
      simp
    have hoperand : operandInt .unsigned v2.word64 = v2.word64.toNat := rfl
    have hhi := hsum.2.2.2
    rw [hupdate, word_eq_iff hsum, AddMeets, if_neg (by decide), ← hzero]
    omega

theorem addsAlike_int (htype : isIntType type = true) {vt : FieldType} {w : BitVec 64} {v2 : DataValue} {v : SqlValue}
    (hv : value2Str (some v2) vt = some v) :
    exactAdd fc type size (.word w) v = some (updateValue fc.arith type size vt .add (.word w) v2) ↔
      isIntType vt = true ∧ InColumn type size (fieldInt type w) ∧
        InColumn type size (fieldInt type w + operandInt vt v2.word64) ∧ AddMeets type size vt w v2.word64 := by
  have hadd : ∀ x, exactAdd fc type size (.word w) (.int x) =
      if InColumn type size (fieldInt type w) ∧ InColumn type size (fieldInt type w + x) then
        some (.word (BitVec.ofInt 64 (fieldInt type w + x)))
      else none := by
    intro x
    cases type <;> first | exact absurd htype (by decide) | rfl
  by_cases hvt : isIntType vt = true
  · rw [int_of_operand hvt] at hv
    obtain rfl := Option.some.inj hv
    rw [hadd]
    by_cases hin : InColumn type size (fieldInt type w) ∧ InColumn type size (fieldInt type w + operandInt vt v2.word64)
    · rw [if_pos hin, addMeets_exact htype hvt fc.arith hin.1 hin.2]
      exact ⟨fun h => ⟨hvt, hin.1, hin.2, h⟩, fun h => h.2.2.2⟩
    · rw [if_neg hin]
      exact ⟨nofun, fun h => absurd ⟨h.2.1, h.2.2.1⟩ hin⟩
  · have hnone : exactAdd fc type size (.word w) v = none := by
      have hnot := not_int_of_value hvt hv
      cases v with
      | int x => exact absurd rfl (hnot x)
      | null => cases type <;> first | exact absurd htype (by decide) | rfl
      | float d => cases type <;> first | exact absurd htype (by decide) | rfl
      | quoted bytes => cases type <;> first | exact absurd htype (by decide) | rfl
    rw [hnone]
    exact ⟨nofun, fun h => absurd h.1 hvt⟩

theorem addsAlike_float {vt : FieldType} {w : BitVec 64} {v2 : DataValue} {v : SqlValue}
    (hv : value2Str (some v2) vt = some v) :
    exactAdd fc .float size (.word w) v = some (updateValue fc.arith .float size vt .add (.word w) v2) ↔
      AddsAlike fc .float size vt (.word w) v2 := by
  have hread : (value2Str (some v2) vt).bind fc.read = fc.read v := by
    rw [hv]
    rfl
  have hnumber : ∀ d, floatOperand fc vt v2.word64 = some d →
      exactAdd fc .float size (.word w) v = (fc.read v).map (fun d => .word (fc.arith.add w d)) →
      updateValue fc.arith .float size vt .add (.word w) v2 = .word (fc.arith.add w d) →
      (exactAdd fc .float size (.word w) v = some (updateValue fc.arith .float size vt .add (.word w) v2) ↔
        AddsAlike fc .float size vt (.word w) v2) := by
    intro d hd hput hupdate
    have hcomp : (fc.read v).map (fun d => DataValue.word (fc.arith.add w d)) =
        ((fc.read v).map (fc.arith.add w)).map .word := by
      rw [Option.map_map]
      rfl
    rw [hput, hupdate, hcomp, map_word_eq]
    unfold AddsAlike
    dsimp only
    rw [hread]
    constructor
    · exact fun h => ⟨d, hd, h⟩
    · rintro ⟨d', hd', h⟩
      rw [h, Option.some.inj (hd.symm.trans hd')]
  cases vt with
  | none => cases hv
  | signed =>
    obtain rfl := Option.some.inj hv
    exact hnumber _ rfl rfl rfl
  | unsigned =>
    obtain rfl := Option.some.inj hv
    exact hnumber _ rfl rfl rfl
  | float =>
    obtain rfl := Option.some.inj hv
    exact hnumber _ rfl rfl rfl
  | string =>
    cases v2 <;> obtain rfl := Option.some.inj hv <;> exact ⟨nofun, fun ⟨d, hd, _⟩ => by cases hd⟩
  | binary =>
    cases v2 <;> obtain rfl := Option.some.inj hv <;> exact ⟨nofun, fun ⟨d, hd, _⟩ => by cases hd⟩

theorem addsAlike_iff {vt : FieldType} {v1 v2 : DataValue} {v : SqlValue} (hv : value2Str (some v2) vt = some v) :
    exactAdd fc type size v1 v = some (updateValue fc.arith type size vt .add v1 v2) ↔
      AddsAlike fc type size vt v1 v2 := by
  cases v1 with
  | word w =>
    cases type with
    | signed => exact addsAlike_int rfl hv
    | unsigned => exact addsAlike_int rfl hv
    | float => exact addsAlike_float hv
    | none | string | binary => exact ⟨nofun, nofun⟩
  | unset => cases type <;> exact ⟨nofun, nofun⟩
  | bin bytes => cases type <;> exact ⟨nofun, nofun⟩

end Values

section Rows

variable {fc : FloatColumn} {h : HelperTable}

/-- What `CFieldValue::Update` makes of the value of an entry's field. -/
def cachedValue (fa : FloatArith) (h : HelperTable) (e : SFieldValue) (v1 : DataValue) : DataValue :=
  match FieldOperation.ofCode e.oper with
  | none => v1
  | some oper =>
    updateValue fa (h.table.tdef.fieldType e.id.toNat) (h.table.tdef.fieldSize e.id.toNat) (.ofCode e.type) oper v1 e.val

theorem updateFields_cons (fa : FloatArith) (e : SFieldValue) (es : List SFieldValue) (r : Nat → DataValue) :
    updateFields fa h.table.tdef (e :: es) r =
      updateFields fa h.table.tdef es (Function.update r e.id.toNat (cachedValue fa h e (r e.id.toNat))) := by
  unfold cachedValue
  rw [updateFields, List.foldl_cons]
  cases FieldOperation.ofCode e.oper with
  | none =>
    rw [Function.update_eq_self]
    rfl
  | some oper => rfl

theorem entryMeets_iff {e : SFieldValue} {a : SqlAssignment} (hw : Written h e) (ha : assignment e = some a)
    (v1 : DataValue) : a.result (exactStore fc h) v1 = some (cachedValue fc.arith h e v1) ↔ EntryMeets fc h e v1 := by
  unfold assignment at ha
  unfold cachedValue EntryMeets
  rcases hw.2 with hop | hop
  · rw [hop] at ha ⊢
    obtain ⟨v, hv, rfl⟩ := Option.map_eq_some_iff.mp ha
    exact setMeets_iff hv
  · rw [hop] at ha ⊢
    obtain ⟨v, hv, rfl⟩ := Option.map_eq_some_iff.mp ha
    exact addsAlike_iff hv

theorem runAll_updateFields : ∀ {fields : List SFieldValue} {as : List SqlAssignment} {r q : Nat → DataValue},
    (persistent h fields).mapM assignment = some as → (∀ e ∈ persistent h fields, Written h e) → RowMeets fc h fields r →
    (∀ f, h.table.isVolatile f = false → q f = r f) → ∃ r', runAll (exactStore fc h) as r = some r' ∧
      ∀ f, h.table.isVolatile f = false → r' f = updateFields fc.arith h.table.tdef fields q f
  | [], as, r, q, has, _, _, hq => by
    obtain rfl := Option.some.inj has
    exact ⟨r, rfl, fun f hf => (hq f hf).symm⟩
  | e :: es, as, r, q, has, hw, hr, hq => by
    rw [updateFields_cons]
    unfold RowMeets at hr
    unfold persistent at has hw
    rw [List.filter_cons] at has hw
    by_cases hv : h.table.isVolatile e.id.toNat = true
    · rw [if_pos hv] at hr
      rw [if_neg (by rw [hv]; decide)] at has hw
      refine runAll_updateFields has hw hr (fun f hf => ?_)
      rw [Function.update_of_ne (fun he => ?_)]
      · exact hq f hf
      · rw [he, hv] at hf
        cases hf
    · rw [if_neg hv] at hr
      rw [Bool.not_eq_true] at hv
      rw [if_pos (by rw [hv]; rfl)] at has hw
      obtain ⟨a, as', ha, has', rfl⟩ := mapM_cons_some.mp has
      have hfield := assignment_field ha
      have hresult := (entryMeets_iff (hw e List.mem_cons_self) ha _).mpr hr.1
      have hexact : exactValue fc h e (r e.id.toNat) = cachedValue fc.arith h e (r e.id.toNat) := by
        unfold exactValue
        rw [ha, Option.bind_some, hresult]
        rfl
      rw [hexact] at hr
      have hagree : ∀ f, h.table.isVolatile f = false →
          Function.update q e.id.toNat (cachedValue fc.arith h e (q e.id.toNat)) f =
            Function.update r e.id.toNat (cachedValue fc.arith h e (r e.id.toNat)) f := by
        intro f hf
        by_cases he : f = e.id.toNat
        · rw [he, Function.update_self, Function.update_self, hq _ hv]
        · rw [Function.update_of_ne he, Function.update_of_ne he, hq f hf]
      obtain ⟨r', hr', hall⟩ := runAll_updateFields has' (fun x hx => hw x (List.mem_cons_of_mem _ hx)) hr.2 hagree
      refine ⟨r', runAll_cons.mpr ⟨_, by rw [hfield]; exact hresult, ?_⟩, hall⟩
      rw [hfield]
      exact hr'

theorem updateFields_other (fa : FloatArith) {f : Nat} : ∀ {fields : List SFieldValue} {r : Nat → DataValue},
    (∀ e ∈ fields, e.id.toNat ≠ f) → updateFields fa h.table.tdef fields r f = r f
  | [], r, _ => rfl
  | e :: es, r, hf => by
    rw [updateFields_cons, updateFields_other fa (fun x hx => hf x (List.mem_cons_of_mem _ hx))]
    exact Function.update_of_ne (Ne.symm (hf e List.mem_cons_self)) _ _

theorem updateFields_nodup (fa : FloatArith) : ∀ {fields : List SFieldValue} {r : Nat → DataValue},
    ((persistent h fields).map SFieldValue.id).Nodup → ∀ e ∈ persistent h fields,
    updateFields fa h.table.tdef fields r e.id.toNat = cachedValue fa h e (r e.id.toNat)
  | [], _, _ => nofun
  | x :: xs, r, hnd => by
    intro e he
    obtain ⟨hmem, hve⟩ := mem_persistent.mp he
    unfold persistent at hnd
    rw [List.filter_cons] at hnd
    rw [updateFields_cons]
    by_cases hv : h.table.isVolatile x.id.toNat = true
    · rw [if_neg (by rw [hv]; decide)] at hnd
      have hne : e.id.toNat ≠ x.id.toNat := by
        intro heq
        rw [heq, hv] at hve
        cases hve
      rcases List.mem_cons.mp hmem with rfl | hmem
      · exact absurd rfl hne
      · rw [updateFields_nodup fa hnd e (mem_persistent.mpr ⟨hmem, hve⟩), Function.update_of_ne hne]
    · rw [Bool.not_eq_true] at hv
      rw [if_pos (by rw [hv]; rfl), List.map_cons, List.nodup_cons] at hnd
      rcases List.mem_cons.mp hmem with rfl | hmem
      · rw [updateFields_other fa (fun y hy heq => ?_), Function.update_self]
        have hy' : y ∈ persistent h xs := mem_persistent.mpr ⟨hy, by rw [heq]; exact hv⟩
        exact hnd.1 (by rw [← UInt8.toNat_inj.mp heq]; exact List.mem_map_of_mem hy')
      · have he' : e ∈ persistent h xs := mem_persistent.mpr ⟨hmem, hve⟩
        have hne : e.id.toNat ≠ x.id.toNat := by
          intro heq
          exact hnd.1 (by rw [← UInt8.toNat_inj.mp heq]; exact List.mem_map_of_mem he')
        rw [updateFields_nodup fa hnd.2 e he', Function.update_of_ne hne]

theorem rowMeets_of_nodup : ∀ {fields : List SFieldValue} {r : Nat → DataValue},
    ((persistent h fields).map SFieldValue.id).Nodup → (∀ e ∈ persistent h fields, EntryMeets fc h e (r e.id.toNat)) →
    RowMeets fc h fields r
  | [], _, _, _ => trivial
  | x :: xs, r, hnd, hall => by
    unfold persistent at hnd hall
    rw [List.filter_cons] at hnd hall
    unfold RowMeets
    by_cases hv : h.table.isVolatile x.id.toNat = true
    · rw [if_pos hv]
      rw [if_neg (by rw [hv]; decide)] at hnd hall
      exact rowMeets_of_nodup hnd hall
    · rw [if_neg hv]
      rw [Bool.not_eq_true] at hv
      rw [if_pos (by rw [hv]; rfl)] at hnd hall
      rw [List.map_cons, List.nodup_cons] at hnd
      refine ⟨hall x List.mem_cons_self, rowMeets_of_nodup hnd.2 (fun e he => ?_)⟩
      have hne : e.id.toNat ≠ x.id.toNat := by
        intro heq
        exact hnd.1 (by rw [← UInt8.toNat_inj.mp heq]; exact List.mem_map_of_mem he)
      rw [Function.update_of_ne hne]
      exact hall e (List.mem_cons_of_mem _ he)

end Rows

section Request

variable (h : HelperTable) (t : SqlTask) (fc : FloatColumn)

/-- **The statement means the request, and an `UPDATE` changes the row as the cache does**, in every database. -/
structure Right (kind : Request) (sql : List SqlToken) (r : Nat → DataValue) : Prop where
  means : Means h t kind sql
  change : kind = .update → ∀ first rest cond, sql = (Statement.update first rest cond : SqlStatement).tokens →
    ∀ db, (exactStore fc h).Le db → ∃ r', runAll db (first :: rest) r = some r' ∧
      ∀ f, h.table.isVolatile f = false → r' f = updateFields fc.arith h.table.tdef (operations t) r f

/-- The condition on the row, for an `UPDATE`. -/
def RowOk (kind : Request) (r : Nat → DataValue) : Prop := kind = .update → RowMeets fc h (operations t) r

def NamedOnce : Prop := ((persistent h (operations t)).map SFieldValue.id).Nodup

variable {h t fc} {kind : Request} {sql : List SqlToken} {r : Nat → DataValue}

theorem StatementOk.written (hok : StatementOk h t .update) : ∀ e ∈ persistent h (operations t), Written h e := by
  intro e he
  obtain ⟨he, hv⟩ := mem_persistent.mp he
  exact ⟨hv, (hok.2.2.2 e he hv).1⟩

theorem Means.assignments (hm : Means h t .update sql) {first : SqlAssignment} {rest : List SqlAssignment}
    {cond : Where Nat SqlValue} (hsql : sql = (Statement.update first rest cond : SqlStatement).tokens) :
    (persistent h (operations t)).mapM assignment = some (first :: rest) := by
  obtain ⟨stmt, hstmt, htext⟩ := hm.text
  rw [hsql] at htext
  obtain rfl := Statement.tokens_injective _ _ htext
  obtain ⟨as, has, hstmt⟩ := Option.bind_eq_some_iff.mp hstmt
  cases as with
  | nil => cases hstmt
  | cons a as =>
    obtain ⟨w, -, he⟩ := Option.map_eq_some_iff.mp hstmt
    injection he with h1 h2 h3
    rw [has, h1, h2]

theorem right_of_ok (hb : process h t kind = .query sql) (hok : StatementOk h t kind) (hrow : RowOk h t fc kind r) :
    Right h t fc kind sql r := by
  have hmeans := (means_iff hb).mpr hok
  refine ⟨hmeans, ?_⟩
  rintro rfl first rest cond hsql db hdb
  obtain ⟨r', hr', hall⟩ := runAll_updateFields (hmeans.assignments hsql) hok.written (hrow rfl) (fun _ _ => rfl)
  exact ⟨r', runAll_mono hdb _ hr', hall⟩

theorem row_of_right (hb : process h t .update = .query sql) (hright : Right h t fc .update sql r) (honce : NamedOnce h t) :
    RowMeets fc h (operations t) r := by
  have hok := (means_iff hb).mp hright.means
  obtain ⟨stmt, hstmt, hsql⟩ := hright.means.text
  obtain ⟨as, has, hstmt⟩ := Option.bind_eq_some_iff.mp hstmt
  cases as with
  | nil => cases hstmt
  | cons first rest =>
    obtain ⟨w, -, rfl⟩ := Option.map_eq_some_iff.mp hstmt
    obtain ⟨r', hr', hall⟩ := hright.change rfl first rest w hsql _ (Store.Le.refl _)
    have hfields : (first :: rest).map Assignment.field = (persistent h (operations t)).map (fun e => e.id.toNat) :=
      mapM_map (fun _ _ ha => assignment_field ha) has
    have hnodup : ((first :: rest).map Assignment.field).Nodup := by
      have hcomp : (persistent h (operations t)).map (fun e => e.id.toNat) =
          ((persistent h (operations t)).map SFieldValue.id).map UInt8.toNat := by
        rw [List.map_map]
        rfl
      rw [hfields, hcomp]
      exact honce.map (fun a b hab => UInt8.toNat_inj.mp hab)
    refine rowMeets_of_nodup honce (fun e he => ?_)
    obtain ⟨a, ha, hea⟩ := mapM_mem_left has e he
    have hresult := runAll_nodup _ hnodup hr' a ha
    rw [assignment_field hea, hall _ (mem_persistent.mp he).2, updateFields_nodup fc.arith honce e he] at hresult
    exact (entryMeets_iff (hok.written e he) hea _).mp hresult

/-- **When a statement that is built is right**: the condition is enough, and where no field is named twice it is the exact
one. -/
theorem process_right (hb : process h t kind = .query sql) (r : Nat → DataValue) :
    (StatementOk h t kind ∧ RowOk h t fc kind r → Right h t fc kind sql r) ∧
      (Right h t fc kind sql r → StatementOk h t kind ∧ (NamedOnce h t → RowOk h t fc kind r)) := by
  refine ⟨fun hok => right_of_ok hb hok.1 hok.2, fun hright => ⟨(means_iff hb).mp hright.means, ?_⟩⟩
  rintro honce rfl
  exact row_of_right hb hright honce

end Request

section Visits

def visits : HelperTable where
  table :=
    { tdef :=
        { fieldList := [⟨[107], .signed, 4, 0, false⟩, ⟨[118], .signed, 4, 0, false⟩, ⟨[99], .signed, 8, 0, false⟩,
            ⟨[100], .signed, 8, 0, false⟩]
          keyFields := 1
          keyFormat := 4 }
      fieldFlags := fun id => if id = 0 then 1 else if id = 1 then ffVolatile else 0 }
  defaultValue _ := .word 0

def visit (operations conditions : List SFieldValue) : SqlTask where
  requestKey := some (.word 5)
  requestOperation := some { fields := operations, typeMask1 := 0xFF }
  requestCondition := some { fields := conditions, typeMask1 := 0xFF }

def wordColumn : FloatColumn := { arith := wordArith, read := fun _ => none }

def whereFive : Where Nat SqlValue := ⟨⟨0, .eq, .int 5⟩, []⟩

def visitAgain : SqlTask := visit [⟨2, 1, 1, .word 1⟩, ⟨3, 0, 1, .word 7⟩] [⟨3, 1, 1, .word 9⟩]

/-- `UPDATE t SET c=c+1,d=7 WHERE k=5 AND d!=9` -/
def updateAgain : List SqlToken :=
  (Statement.update ⟨2, some .plus, .int 1⟩ [⟨3, none, .int 7⟩] ⟨⟨0, .eq, .int 5⟩, [⟨3, .ne, .int 9⟩]⟩ : SqlStatement).tokens

theorem process_right_visits : process visits visitAgain .update = .query updateAgain ∧
    Right visits visitAgain wordColumn .update updateAgain (fun _ => .word 41) := by
  have hb : process visits visitAgain .update = .query updateAgain := rfl
  have hok : StatementOk visits visitAgain .update := by
    refine ⟨⟨by decide, .inr (by decide)⟩, fun e he => ?_, ⟨_, _, rfl, by decide⟩, fun e he _ => ?_⟩
    · obtain rfl := List.mem_singleton.mp he
      exact ⟨by decide, (by decide : FieldType.ofCode 1 ≠ .none)⟩
    · rcases List.mem_cons.mp he with rfl | he
      · exact ⟨.inr rfl, (by decide : FieldType.ofCode 1 ≠ .none)⟩
      · obtain rfl := List.mem_singleton.mp he
        exact ⟨.inl rfl, (by decide : FieldType.ofCode 1 ≠ .none)⟩
  have hrow : RowOk visits visitAgain wordColumn .update (fun _ => .word 41) := by
    intro _
    refine ⟨⟨rfl, ?_, ?_, .inr ?_⟩, ⟨rfl, ?_, .inl rfl⟩, trivial⟩ <;> decide
  exact ⟨hb, (process_right hb _).1 ⟨hok, hrow⟩⟩

/-- **Where the statements are wrong**: a comma behind ` SET ` when the first entry is volatile; an `OR` that is not written;
two commas in a `REPLACE`; a condition on a volatile field; and an unsigned value, which the cache does not set. -/
theorem process_wrong :
    (∃ sql, process visits (visit [⟨1, 0, 1, .word 9⟩, ⟨2, 0, 1, .word 7⟩] []) .update = .query sql ∧
      sql.take 5 = [.word .update, .table, .word .set, .word .comma, .field 2] ∧
      ∀ r, ¬ Right visits (visit [⟨1, 0, 1, .word 9⟩, ⟨2, 0, 1, .word 7⟩] []) wordColumn .update sql r) ∧
    (∃ sql, process visits (visit [⟨2, 3, 1, .word 1⟩] []) .update = .query sql ∧
      sql.take 4 = [.word .update, .table, .word .set, .word .where] ∧
      ∀ r, ¬ Right visits (visit [⟨2, 3, 1, .word 1⟩] []) wordColumn .update sql r) ∧
    (∃ sql, process visits (visit [⟨1, 0, 1, .word 9⟩, ⟨2, 0, 1, .word 7⟩] []) .replace = .query sql ∧
      (sql.drop 6).take 3 = [.word .comma, .word .comma, .field 2] ∧
      ∀ r, ¬ Right visits (visit [⟨1, 0, 1, .word 9⟩, ⟨2, 0, 1, .word 7⟩] []) wordColumn .replace sql r) ∧
    (∃ sql, process visits (visit [] [⟨1, 0, 1, .word 9⟩]) .delete = .query sql ∧ .field 1 ∈ sql ∧
      ∀ r, ¬ Right visits (visit [] [⟨1, 0, 1, .word 9⟩]) wordColumn .delete sql r) ∧
    ∃ sql, process visits (visit [⟨2, 0, 2, .word 7⟩] []) .update = .query sql ∧
      Means visits (visit [⟨2, 0, 2, .word 7⟩] []) .update sql ∧
      ¬ Right visits (visit [⟨2, 0, 2, .word 7⟩] []) wordColumn .update sql (fun _ => .word 0) := by
  refine ⟨⟨_, rfl, rfl, fun r hr => ?_⟩, ⟨_, rfl, rfl, fun r hr => ?_⟩, ⟨_, rfl, rfl, fun r hr => ?_⟩,
    ⟨_, rfl, by decide, fun r hr => ?_⟩, ?_⟩
  · obtain ⟨e, es, he, hv⟩ := ((update_iff rfl).mp hr.means).2.2.1
    obtain ⟨rfl, -⟩ := List.cons.inj he
    exact absurd hv (by decide)
  · have hor := (((update_iff rfl).mp hr.means).2.2.2 ⟨2, 3, 1, .word 1⟩ List.mem_cons_self (by decide)).1
    exact absurd hor (by decide)
  · obtain ⟨e, es, he, hv⟩ := (((replace_iff rfl).mp hr.means).2.1.resolve_left nofun).1
    obtain ⟨rfl, -⟩ := List.cons.inj he
    exact absurd hv (by decide)
  · have hcond := (((delete_iff rfl).mp hr.means).2 ⟨1, 0, 1, .word 9⟩ List.mem_cons_self).1
    exact absurd hcond (by decide)
  · refine ⟨_, rfl, (update_iff rfl).mpr ⟨⟨by decide, .inr (by decide)⟩, nofun, ⟨_, _, rfl, by decide⟩, ?_⟩, fun hr => ?_⟩
    · intro e he _
      obtain rfl := List.mem_singleton.mp he
      exact ⟨.inl rfl, (by decide : FieldType.ofCode 2 ≠ .none)⟩
    · obtain ⟨r', hr', hall⟩ := hr.change rfl ⟨2, none, .int 7⟩ [] whereFive rfl _ (Store.Le.refl _)
      obtain ⟨d, hd, hrest⟩ := runAll_cons.mp hr'
      obtain rfl := Option.some.inj hrest
      have hseven : d = .word 7 := (Option.some.inj hd).symm
      have htwo := hall 2 (by decide)
      rw [Function.update_self, hseven] at htwo
      exact absurd htwo (by decide)

end Visits

end CHelperProcess

end Dtc
