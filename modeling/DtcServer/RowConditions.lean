import DtcServer.FieldUpdate
/-!
# RowConditions — the conditions of a request on a row (`CFieldValue::Compare`)

A condition compares a field with an operand; the switch is over the type of the field, the type of the operand and the
comparison, and what it does not list matches no row.
-/
namespace Dtc

/-- `DField`: the comparisons of a condition. -/
inductive Comparison where
  | eq | ne | lt | le | gt | ge
  deriving DecidableEq, Repr

namespace Comparison

def ofCode : Nat → Option Comparison
  | 0 => some .eq
  | 1 => some .ne
  | 2 => some .lt
  | 3 => some .le
  | 4 => some .gt
  | 5 => some .ge
  | _ => none

def code : Comparison → Nat
  | .eq => 0
  | .ne => 1
  | .lt => 2
  | .le => 3
  | .gt => 4
  | .ge => 5

theorem ofCode_code (oper : Comparison) : ofCode oper.code = some oper := by cases oper <;> rfl

def OfInts : Comparison → Int → Int → Prop
  | .eq, x, y => x = y
  | .ne, x, y => x ≠ y
  | .lt, x, y => x < y
  | .le, x, y => x ≤ y
  | .gt, x, y => x > y
  | .ge, x, y => x ≥ y

/-- The comparison of two texts that are the same or not. -/
def OfSame : Comparison → Prop → Prop
  | .eq, same => same
  | .ne, same => ¬ same
  | _, _ => False

end Comparison

/-- `str` and `bin` of a value. -/
def DataValue.text : DataValue → List UInt8
  | .bin bytes => bytes
  | _ => []

/-- `s64` of a value. -/
def DataValue.s64 (v : DataValue) : Int := v.word64.toInt

def stringEqual (a b : DataValue) : Bool := a.text.length == b.text.length && CTableDefinition.mystrcmp a.text b.text

def binaryEqual (a b : DataValue) : Bool := a.text == b.text

/-- The switch of `Compare`: by the types of the field and of the operand, and by the comparison. -/
def compareValue (type vt : FieldType) (oper : Comparison) (v1 v2 : DataValue) : Bool :=
  match type, vt, oper with
  | .signed, .signed, .eq | .unsigned, .signed, .eq => decide (v1.s64 = v2.s64)
  | .signed, .signed, .ne | .unsigned, .signed, .ne => decide (v1.s64 ≠ v2.s64)
  | .signed, .signed, .lt | .unsigned, .signed, .lt => decide (v1.s64 < v2.s64)
  | .signed, .signed, .le | .unsigned, .signed, .le => decide (v1.s64 ≤ v2.s64)
  | .signed, .signed, .gt | .unsigned, .signed, .gt => decide (v1.s64 > v2.s64)
  | .signed, .signed, .ge | .unsigned, .signed, .ge => decide (v1.s64 ≥ v2.s64)
  | .string, .string, .eq => stringEqual v1 v2
  | .string, .string, .ne => !stringEqual v1 v2
  | .binary, .binary, .eq | .string, .binary, .eq | .binary, .string, .eq => binaryEqual v1 v2
  | .binary, .binary, .ne | .string, .binary, .ne | .binary, .string, .ne => !binaryEqual v1 v2
  | _, _, _ => false

/-- `CFieldValue::Compare` of a row: the conditions on the key and those from `cmpFirstNRows` on are passed over. -/
def compareFields (tdef : TableDef) (r : Nat → DataValue) (cmpFirstNRows : Int) : List SFieldValue → Bool
  | [] => true
  | e :: fields =>
    let id := e.id.toNat
    if id < tdef.keyFields ∨ cmpFirstNRows - 1 < id then compareFields tdef r cmpFirstNRows fields
    else
      match Comparison.ofCode e.oper with
      | none => false
      | some oper =>
        if compareValue (tdef.fieldType id) (FieldType.ofCode e.type) oper (r id) e.val then
          compareFields tdef r cmpFirstNRows fields
        else false

/-! ## Texts up to a zero byte -/

def lowered (text : List UInt8) : List UInt8 := text.map internalToLower

theorem internalToLower_eq_zero {c : UInt8} : internalToLower c = 0 ↔ c = 0 := by
  unfold internalToLower
  split_ifs with h
  · have h1 := UInt8.le_iff_toNat_le.mp h.1
    have h2 := UInt8.le_iff_toNat_le.mp h.2
    refine ⟨fun h0 => ?_, fun h0 => ?_⟩
    · have hn := congrArg UInt8.toNat h0
      rw [UInt8.toNat_add] at hn
      simp at hn h1 h2
      omega
    · rw [h0] at h1
      simp at h1
  · exact Iff.rfl

/-- Both texts have a zero byte at one place, and up to it they are the same. -/
def MeetAtZero (a b : List UInt8) : Prop :=
  ∃ n, a[n]? = some 0 ∧ b[n]? = some 0 ∧ lowered (a.take n) = lowered (b.take n)

theorem meetAtZero_cons {x y : UInt8} {a b : List UInt8} :
    MeetAtZero (x :: a) (y :: b) ↔ x = 0 ∧ y = 0 ∨ internalToLower x = internalToLower y ∧ MeetAtZero a b := by
  constructor
  · rintro ⟨n, ha, hb, hsame⟩
    cases n with
    | zero => exact .inl ⟨Option.some.inj ha, Option.some.inj hb⟩
    | succ n =>
      obtain ⟨hx, hrest⟩ := List.cons.inj hsame
      exact .inr ⟨hx, n, ha, hb, hrest⟩
  · rintro (⟨rfl, rfl⟩ | ⟨hx, n, ha, hb, hsame⟩)
    · exact ⟨0, rfl, rfl, rfl⟩
    · exact ⟨n + 1, ha, hb, congrArg₂ List.cons hx hsame⟩

theorem mystrcmp_iff : ∀ {a b : List UInt8}, a.length = b.length →
    (CTableDefinition.mystrcmp a b = true ↔ lowered a = lowered b ∨ MeetAtZero a b)
  | [], [], _ => ⟨fun _ => .inl rfl, fun _ => rfl⟩
  | x :: a, y :: b, h => by
    have ih := mystrcmp_iff (Nat.succ.inj h)
    have hzero : internalToLower x = internalToLower y → (x = 0 ↔ y = 0) := by
      intro he
      rw [← internalToLower_eq_zero, he, internalToLower_eq_zero]
    rw [CTableDefinition.mystrcmp, meetAtZero_cons]
    simp only [Bool.and_eq_true, beq_iff_eq, Bool.or_eq_true, ih, lowered, List.map_cons, List.cons.injEq]
    constructor
    · rintro ⟨hx, hx0 | hsame | hmeet⟩
      · exact .inr (.inl ⟨hx0, (hzero hx).mp hx0⟩)
      · exact .inl ⟨hx, hsame⟩
      · exact .inr (.inr ⟨hx, hmeet⟩)
    · rintro (⟨hx, hsame⟩ | ⟨rfl, rfl⟩ | ⟨hx, hmeet⟩)
      · exact ⟨hx, .inr (.inl hsame)⟩
      · exact ⟨rfl, .inl rfl⟩
      · exact ⟨hx, .inr (.inr hmeet)⟩

theorem stringEqual_iff {v1 v2 : DataValue} :
    stringEqual v1 v2 = true ↔ lowered v1.text = lowered v2.text ∨ v1.text.length = v2.text.length ∧ MeetAtZero v1.text v2.text := by
  rw [stringEqual, Bool.and_eq_true, beq_iff_eq]
  constructor
  · rintro ⟨hlen, h⟩
    exact ((mystrcmp_iff hlen).mp h).imp_right fun hmeet => ⟨hlen, hmeet⟩
  · intro h
    have hlen : v1.text.length = v2.text.length := by
      rcases h with h | h
      · simpa [lowered] using congrArg List.length h
      · exact h.1
    exact ⟨hlen, (mystrcmp_iff hlen).mpr (h.imp_right And.right)⟩

/-! ## One condition -/

section Condition

variable (type vt : FieldType) (oper : Comparison) (v1 v2 : DataValue)

/-- **What a condition says**: numbers are those that the types of the field and of the operand make of the 64 bits; two texts
are compared up to case, and bytes otherwise.  Other types are not compared. -/
def ConditionHolds : Prop :=
  match type, vt with
  | .signed, .signed | .unsigned, .signed | .signed, .unsigned | .unsigned, .unsigned =>
    oper.OfInts (fieldInt type v1.word64) (fieldInt vt v2.word64)
  | .string, .string => oper.OfSame (lowered v1.text = lowered v2.text)
  | .binary, .binary | .string, .binary | .binary, .string => oper.OfSame (v1.text = v2.text)
  | _, _ => False

/-- Two texts of one length, the same up to a zero byte and not behind it. -/
def CutShort : Prop :=
  v1.text.length = v2.text.length ∧ MeetAtZero v1.text v2.text ∧ lowered v1.text ≠ lowered v2.text

/-- **A condition that holds and is refused**: an unsigned number beyond the signed ones against a signed operand, where the
signed comparison goes the other way; every one whose operand is unsigned; and two texts that are not told apart. -/
def ConditionMissed : Prop :=
  match type, vt with
  | .unsigned, .signed =>
    2 ^ 63 ≤ v1.word64.toNat ∧
      match oper with
      | .ne => v1.word64 = v2.word64
      | .gt => v1.s64 ≤ v2.s64
      | .ge => v1.s64 < v2.s64
      | _ => False
  | .signed, .unsigned | .unsigned, .unsigned => oper.OfInts (fieldInt type v1.word64) v2.word64.toNat
  | .string, .string => oper = .ne ∧ CutShort v1 v2
  | _, _ => False

/-- **A condition that does not hold and is met.** -/
def ConditionSlipped : Prop :=
  match type, vt with
  | .unsigned, .signed =>
    2 ^ 63 ≤ v1.word64.toNat ∧
      match oper with
      | .eq => v1.word64 = v2.word64
      | .lt => v1.s64 < v2.s64
      | .le => v1.s64 ≤ v2.s64
      | _ => False
  | .string, .string => oper = .eq ∧ CutShort v1 v2
  | _, _ => False

variable {type vt oper v1 v2}

theorem compareValue_signed (htype : isIntType type = true) :
    compareValue type .signed oper v1 v2 = true ↔ oper.OfInts v1.s64 v2.s64 := by
  cases type <;> first | exact absurd htype (by decide) | (cases oper <;> exact decide_eq_true_iff)

theorem compareValue_unsigned : compareValue type .unsigned oper v1 v2 = false := by
  cases type <;> cases oper <;> rfl

theorem compareValue_string : compareValue .string .string oper v1 v2 = true ↔ oper.OfSame (stringEqual v1 v2 = true) := by
  cases oper <;> simp [compareValue, Comparison.OfSame]

theorem compareValue_binary (h : type = .binary ∧ vt = .binary ∨ type = .string ∧ vt = .binary ∨ type = .binary ∧ vt = .string) :
    compareValue type vt oper v1 v2 = true ↔ oper.OfSame (v1.text = v2.text) := by
  obtain ⟨rfl, rfl⟩ | ⟨rfl, rfl⟩ | ⟨rfl, rfl⟩ := h <;>
    cases oper <;> simp [compareValue, Comparison.OfSame, binaryEqual]

theorem unsignedJudged (w x : BitVec 64) :
    (oper.OfInts w.toNat x.toInt ∧ ¬ oper.OfInts w.toInt x.toInt ↔
      2 ^ 63 ≤ w.toNat ∧
        match oper with
        | .ne => w = x
        | .gt => w.toInt ≤ x.toInt
        | .ge => w.toInt < x.toInt
        | _ => False) ∧
    (¬ oper.OfInts w.toNat x.toInt ∧ oper.OfInts w.toInt x.toInt ↔
      2 ^ 63 ≤ w.toNat ∧
        match oper with
        | .eq => w = x
        | .lt => w.toInt < x.toInt
        | .le => w.toInt ≤ x.toInt
        | _ => False) := by
  have hw := toNat_eq_toInt w
  have hwr := toInt_range w
  have hxr := toInt_range x
  rw [← BitVec.toInt_inj]
  cases oper <;> simp only [Comparison.OfInts, and_false, iff_false] <;> split at hw <;> omega

/-- **What the switch makes of a condition**: it refuses one that holds, and lets one through that does not, exactly where
`ConditionMissed` and `ConditionSlipped` say. -/
theorem compareValue_judged :
    (ConditionMissed type vt oper v1 v2 ↔ ConditionHolds type vt oper v1 v2 ∧ ¬ compareValue type vt oper v1 v2 = true) ∧
    (ConditionSlipped type vt oper v1 v2 ↔ ¬ ConditionHolds type vt oper v1 v2 ∧ compareValue type vt oper v1 v2 = true) := by
  by_cases hvt : vt = .unsigned
  · subst hvt
    rw [compareValue_unsigned]
    cases type <;> simp [ConditionMissed, ConditionHolds, ConditionSlipped, fieldInt]
  by_cases hbin : type = .binary ∧ vt = .binary ∨ type = .string ∧ vt = .binary ∨ type = .binary ∧ vt = .string
  · rw [compareValue_binary hbin]
    obtain ⟨rfl, rfl⟩ | ⟨rfl, rfl⟩ | ⟨rfl, rfl⟩ := hbin <;> simp [ConditionMissed, ConditionHolds, ConditionSlipped]
  cases type <;> cases vt <;> simp at hvt hbin
  case signed.signed =>
    rw [compareValue_signed rfl]
    simp [ConditionMissed, ConditionHolds, ConditionSlipped, fieldInt, DataValue.s64]
  case unsigned.signed =>
    rw [compareValue_signed rfl]
    have hjudged := @unsignedJudged oper v1.word64 v2.word64
    exact ⟨hjudged.1.symm, hjudged.2.symm⟩
  case string.string =>
    rw [compareValue_string, stringEqual_iff]
    have hlen : lowered v1.text = lowered v2.text → v1.text.length = v2.text.length := by
      intro h
      simpa [lowered] using congrArg List.length h
    cases oper <;> simp only [ConditionMissed, ConditionHolds, ConditionSlipped, Comparison.OfSame, CutShort] <;> grind
  all_goals
    cases oper <;> simp [ConditionMissed, ConditionHolds, ConditionSlipped, compareValue]

end Condition

/-! ## The conditions of a list -/

namespace SFieldValue

variable (tdef : TableDef) (r : Nat → DataValue) (e : SFieldValue)

/-- The condition is one that `Compare` looks at; for the default of 256 these are all that are not on the key. -/
def Compared (cmpFirstNRows : Int) : Prop := tdef.keyFields ≤ e.id.toNat ∧ (e.id.toNat : Int) ≤ cmpFirstNRows - 1

/-- Something about the comparison that the entry's number stands for. -/
def OfComparison (P : FieldType → FieldType → Comparison → DataValue → DataValue → Prop) : Prop :=
  ∃ oper, Comparison.ofCode e.oper = some oper ∧
    P (tdef.fieldType e.id.toNat) (FieldType.ofCode e.type) oper (r e.id.toNat) e.val

/-- **The condition holds for the row.** -/
def Holds : Prop := e.OfComparison tdef r ConditionHolds

def Missed : Prop := e.OfComparison tdef r ConditionMissed

def Slipped : Prop := e.OfComparison tdef r ConditionSlipped

def Accepted : Prop := e.OfComparison tdef r (fun type vt oper v1 v2 => compareValue type vt oper v1 v2 = true)

theorem compared_default : e.Compared tdef 256 ↔ tdef.keyFields ≤ e.id.toNat := by
  have hid := e.id.toNat_lt
  unfold Compared
  omega

variable {tdef r e}

theorem ofComparison_iff {P : FieldType → FieldType → Comparison → DataValue → DataValue → Prop} {oper : Comparison}
    (h : Comparison.ofCode e.oper = some oper) :
    e.OfComparison tdef r P ↔ P (tdef.fieldType e.id.toNat) (FieldType.ofCode e.type) oper (r e.id.toNat) e.val := by
  constructor
  · rintro ⟨oper', h', hP⟩
    obtain rfl := Option.some.inj (h.symm.trans h')
    exact hP
  · exact fun hP => ⟨oper, h, hP⟩

theorem judged :
    (e.Missed tdef r ↔ e.Holds tdef r ∧ ¬ e.Accepted tdef r) ∧ (e.Slipped tdef r ↔ ¬ e.Holds tdef r ∧ e.Accepted tdef r) := by
  unfold Missed Holds Accepted Slipped
  cases hoper : Comparison.ofCode e.oper with
  | none =>
    have hnone : ∀ P, ¬ e.OfComparison tdef r P := by
      rintro P ⟨oper, h, -⟩
      rw [hoper] at h
      cases h
    simp [hnone]
  | some oper =>
    simp only [ofComparison_iff hoper]
    exact compareValue_judged

end SFieldValue

theorem compareFields_iff (tdef : TableDef) (r : Nat → DataValue) (n : Int) (fields : List SFieldValue) :
    compareFields tdef r n fields = true ↔ ∀ e ∈ fields, e.Compared tdef n → e.Accepted tdef r := by
  induction fields with
  | nil => simp [compareFields]
  | cons e fields ih =>
    rw [List.forall_mem_cons, ← ih, compareFields]
    by_cases hskip : e.id.toNat < tdef.keyFields ∨ n - 1 < e.id.toNat
    · have hnot : ¬ e.Compared tdef n := by
        unfold SFieldValue.Compared
        omega
      rw [if_pos hskip]
      simp [hnot]
    · have hcompared : e.Compared tdef n := by
        unfold SFieldValue.Compared
        omega
      rw [if_neg hskip]
      cases hoper : Comparison.ofCode e.oper with
      | none =>
        have hnone : ¬ e.Accepted tdef r := by
          rintro ⟨oper, h, -⟩
          rw [hoper] at h
          cases h
        simp [hcompared, hnone]
      | some oper => simp [hcompared, SFieldValue.Accepted, SFieldValue.ofComparison_iff hoper]

def ExactlyOne (a b c : Prop) : Prop := a ∧ ¬ b ∧ ¬ c ∨ ¬ a ∧ b ∧ ¬ c ∨ ¬ a ∧ ¬ b ∧ c

theorem compareFields_one {tdef : TableDef} {r : Nat → DataValue} {id : UInt8} {oper : Comparison} {vt : FieldType}
    {v : DataValue} (hid : tdef.keyFields ≤ id.toNat) (hcode : FieldType.ofCode vt.code = vt) :
    compareFields tdef r 256 [⟨id, oper.code, vt.code, v⟩] = true ↔
      compareValue (tdef.fieldType id.toNat) vt oper (r id.toNat) v = true := by
  rw [compareFields_iff, List.forall_mem_singleton, SFieldValue.compared_default]
  simp only [hid, forall_const, SFieldValue.Accepted]
  rw [SFieldValue.ofComparison_iff (Comparison.ofCode_code oper), hcode]

/-- **When `Compare` is right**, for every row, every list of conditions and every `cmpFirstNRows`: it is true exactly when all
conditions it looks at hold, if and only if with a condition that is missed there is one that does not hold, and with one that
slips through there is one that is missed, or that does not hold and does not slip through.  And of two numbers exactly one of
less, equal and greater is found, if and only if the operand is signed. -/
theorem compareFields_right_iff (tdef : TableDef) (r : Nat → DataValue) (n : Int) (fields : List SFieldValue) :
    ((compareFields tdef r n fields = true ↔ ∀ e ∈ fields, e.Compared tdef n → e.Holds tdef r) ↔
      ((∃ e ∈ fields, e.Compared tdef n ∧ e.Missed tdef r) → ∃ e ∈ fields, e.Compared tdef n ∧ ¬ e.Holds tdef r) ∧
      ((∃ e ∈ fields, e.Compared tdef n ∧ e.Slipped tdef r) →
        ∃ e ∈ fields, e.Compared tdef n ∧ (e.Missed tdef r ∨ ¬ e.Holds tdef r ∧ ¬ e.Slipped tdef r))) ∧
    ∀ (id : UInt8) (vt : FieldType) (v : DataValue), tdef.keyFields ≤ id.toNat →
      isIntType (tdef.fieldType id.toNat) = true → isIntType vt = true →
      (ExactlyOne (compareFields tdef r 256 [⟨id, Comparison.lt.code, vt.code, v⟩] = true)
        (compareFields tdef r 256 [⟨id, Comparison.eq.code, vt.code, v⟩] = true)
        (compareFields tdef r 256 [⟨id, Comparison.gt.code, vt.code, v⟩] = true) ↔ vt = .signed) := by
  refine ⟨?_, fun id vt v hid htype hvt => ?_⟩
  · rw [compareFields_iff]
    have hjudged := fun e : SFieldValue => @SFieldValue.judged tdef r e
    constructor
    · intro hright
      refine ⟨?_, ?_⟩
      · rintro ⟨e, he, hc, hmissed⟩
        by_contra hall
        push Not at hall
        exact ((hjudged e).1.mp hmissed).2 (hright.mpr hall e he hc)
      · rintro ⟨e, he, hc, hslipped⟩
        by_contra hall
        push Not at hall
        refine ((hjudged e).2.mp hslipped).1 (hright.mp (fun e' he' hc' => ?_) e he hc)
        obtain ⟨hnot, himp⟩ := hall e' he' hc'
        by_contra hrefused
        by_cases hholds : e'.Holds tdef r
        · exact hnot ((hjudged e').1.mpr ⟨hholds, hrefused⟩)
        · exact hrefused ((hjudged e').2.mp (himp hholds)).2
    · rintro ⟨hmissed, hslipped⟩
      constructor
      · intro hall e he hc
        by_contra hnot
        obtain ⟨e', he', hc', hm | ⟨hn, hs⟩⟩ := hslipped ⟨e, he, hc, (hjudged e).2.mpr ⟨hnot, hall e he hc⟩⟩
        · exact ((hjudged e').1.mp hm).2 (hall e' he' hc')
        · exact hs ((hjudged e').2.mpr ⟨hn, hall e' he' hc'⟩)
      · intro hall e he hc
        by_contra hnot
        obtain ⟨e', he', hc', hn⟩ := hmissed ⟨e, he, hc, (hjudged e).1.mpr ⟨hall e he hc, hnot⟩⟩
        exact hn (hall e' he' hc')
  · have hcode : FieldType.ofCode vt.code = vt := by cases vt <;> rfl
    simp only [compareFields_one hid hcode]
    cases vt <;> simp [isIntType] at hvt
    · refine iff_of_true ?_ rfl
      simp only [compareValue_signed htype, Comparison.OfInts, ExactlyOne]
      omega
    · simp [compareValue_unsigned, ExactlyOne]

theorem compareFields_right_seven :
    (compareFields (countTable .unsigned) (fun _ => .word 7) 256 [⟨1, 4, FieldType.signed.code, .word 5⟩] = true ↔
      ∀ e ∈ [(⟨1, 4, FieldType.signed.code, .word 5⟩ : SFieldValue)],
        e.Compared (countTable .unsigned) 256 → e.Holds (countTable .unsigned) (fun _ => .word 7)) ∧
    ExactlyOne
      (compareFields (countTable .unsigned) (fun _ => .word 7) 256 [⟨1, 2, FieldType.signed.code, .word 5⟩] = true)
      (compareFields (countTable .unsigned) (fun _ => .word 7) 256 [⟨1, 0, FieldType.signed.code, .word 5⟩] = true)
      (compareFields (countTable .unsigned) (fun _ => .word 7) 256 [⟨1, 4, FieldType.signed.code, .word 5⟩] = true) := by
  obtain ⟨hlist, hone⟩ := compareFields_right_iff (countTable .unsigned) (fun _ => .word 7) 256
    [⟨1, 4, FieldType.signed.code, .word 5⟩]
  refine ⟨hlist.mpr ⟨?_, ?_⟩, (hone 1 .signed (.word 5) (by decide) rfl rfl).mpr rfl⟩
  · rintro ⟨e, he, -, oper, -, hmissed⟩
    rw [List.mem_singleton.mp he] at hmissed
    exact absurd hmissed.1 (by decide)
  · rintro ⟨e, he, -, oper, -, hslipped⟩
    rw [List.mem_singleton.mp he] at hslipped
    exact absurd hslipped.1 (by decide)

/-- The highest unsigned number is not found above 0; an unsigned operand is not found equal to its own number; and two texts
that differ behind a zero byte are found equal. -/
theorem compareFields_wrong :
    ¬ (compareFields (countTable .unsigned) (fun _ => .word 0xFFFFFFFFFFFFFFFF) 256 [⟨1, 4, FieldType.signed.code, .word 0⟩] =
        true ↔
      ∀ e ∈ [(⟨1, 4, FieldType.signed.code, .word 0⟩ : SFieldValue)],
        e.Compared (countTable .unsigned) 256 → e.Holds (countTable .unsigned) (fun _ => .word 0xFFFFFFFFFFFFFFFF)) ∧
    ¬ (compareFields (countTable .unsigned) (fun _ => .word 7) 256 [⟨1, 0, FieldType.unsigned.code, .word 7⟩] = true ↔
      ∀ e ∈ [(⟨1, 0, FieldType.unsigned.code, .word 7⟩ : SFieldValue)],
        e.Compared (countTable .unsigned) 256 → e.Holds (countTable .unsigned) (fun _ => .word 7)) ∧
    ¬ (compareFields (countTable .string) (fun _ => .bin [97, 0, 98]) 256 [⟨1, 0, FieldType.string.code, .bin [97, 0, 99]⟩] =
        true ↔
      ∀ e ∈ [(⟨1, 0, FieldType.string.code, .bin [97, 0, 99]⟩ : SFieldValue)],
        e.Compared (countTable .string) 256 → e.Holds (countTable .string) (fun _ => .bin [97, 0, 98])) := by
  refine ⟨fun h => ?_, fun h => ?_, fun h => ?_⟩
  · refine absurd (h.mpr fun e he _ => ?_) (by decide)
    rw [List.mem_singleton.mp he]
    exact ⟨.gt, rfl, show (0xFFFFFFFFFFFFFFFF#64).toNat > (0 : Int) by decide⟩
  · refine absurd (h.mpr fun e he _ => ?_) (by decide)
    rw [List.mem_singleton.mp he]
    exact ⟨.eq, rfl, rfl⟩
  · obtain ⟨oper, hoper, hholds⟩ := h.mp (by decide) _ (List.mem_singleton_self _) ⟨by decide, by decide⟩
    obtain rfl := Option.some.inj hoper
    have hsame : lowered [97, 0, 98] = lowered [97, 0, 99] := hholds
    exact absurd hsame (by decide)

end Dtc
