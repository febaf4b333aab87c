import DtcServer.HelperSql
/-!
# HelperSqlText — when a statement is the one the request asks for

The statement that a request asks for has an assignment for every entry whose field is not volatile, and every condition, in
their order.
-/
namespace Dtc

open Sql

namespace CHelperProcess

variable (h : HelperTable) (t : SqlTask)

/-! ## The statements asked for -/

/-- The operator of an operation; `Set` has none. -/
def sqlOperator : FieldOperation → Option SqlOperator
  | .set => none
  | .add => some .plus
  | .or => some .bitOr
  | .setBits => some .setBits

def assignment (e : SFieldValue) : Option SqlAssignment :=
  (FieldOperation.ofCode e.oper).bind fun oper =>
    (value2Str (some e.val) (.ofCode e.type)).map fun v => ⟨e.id.toNat, sqlOperator oper, v⟩

def condition (c : SFieldValue) : Option (Condition Nat SqlValue) :=
  (compStr c.oper).bind fun cmp => (value2Str (some c.val) (.ofCode c.type)).map fun v => ⟨c.id.toNat, cmp, v⟩

def persistent (fields : List SFieldValue) : List SFieldValue := fields.filter (fun e => !h.table.isVolatile e.id.toNat)

def operations : List SFieldValue := (t.requestOperation.map CFieldValue.fields).getD []

def conditions : List SFieldValue := (t.requestCondition.map CFieldValue.fields).getD []

def keyValue : Option SqlValue := value2Str t.requestKey (h.table.tdef.fieldType 0)

def defaultAssignment (i : Nat) : Option SqlAssignment :=
  (value2Str (some (h.defaultValue i)) (h.table.tdef.fieldType i)).map fun v => ⟨i, none, v⟩

/-- The fields that an insertion leaves to their defaults. -/
def defaulted : List Nat :=
  (fieldIds h).filter (fun i => !(inMask t.requestOperation i || h.table.isVolatile i))

def column (fs : CFieldSet) (i : Nat) : Option (Column Nat SqlValue) :=
  if ¬ fs.ids.contains (UInt8.ofNat i) then some .zero
  else if ¬ h.table.isVolatile i then some (.field i)
  else (value2Str (some (h.defaultValue i)) (h.table.tdef.fieldType i)).map .value

def columns : Option (Columns Nat SqlValue) :=
  match t.requestFields with
  | none => some .count
  | some fs => ((fieldIds h).mapM (column h fs)).map (.list (.field 0))

def whereClause : Option (Where Nat SqlValue) :=
  (keyValue h t).bind fun key => ((conditions t).mapM condition).map fun cs => ⟨⟨0, .eq, key⟩, cs⟩

def limit : Option (Nat × Nat) := if 0 < t.limitCount then some (t.limitStart, t.limitCount) else none

/-- **The statement that a request asks for**; there is none when a value has no text or nothing is assigned. -/
def statement : Request → Option SqlStatement
  | .update =>
    ((persistent h (operations t)).mapM assignment).bind fun
      | [] => none
      | first :: rest => (whereClause h t).map (.update first rest)
  | .delete => (whereClause h t).map .delete
  | .replace =>
    (keyValue h t).bind fun key =>
      ((persistent h (operations t)).mapM assignment).bind fun as =>
        ((defaulted h t).mapM (defaultAssignment h)).map fun ds => .replace ⟨0, none, key⟩ (as ++ ds)
  | .select =>
    (columns h t).bind fun columns =>
      (whereClause h t).map fun cond =>
        .select (t.requestFields.isSome && (decide (t.limitStart ≠ 0) || decide (t.limitCount ≠ 0))) columns cond h.ordSql
          (limit t)

/-- **The text means the request**: it is the text of the statement asked for, and it mentions no volatile field. -/
structure Means (kind : Request) (sql : List SqlToken) : Prop where
  text : ∃ stmt, statement h t kind = some stmt ∧ sql = stmt.tokens
  mentions : ∀ f, .field f ∈ sql → h.table.isVolatile f = false

/-! ## The condition -/

/-- An entry or a condition has a value of one of the types. -/
def Typed (e : SFieldValue) : Prop := FieldType.ofCode e.type ≠ .none

/-- The first entry's field is not volatile, and the fields that are not volatile are set or added to. -/
def OperationsOk (fields : List SFieldValue) : Prop :=
  (∃ e es, fields = e :: es ∧ h.table.isVolatile e.id.toNat = false) ∧
    ∀ e ∈ fields, h.table.isVolatile e.id.toNat = false →
      (FieldOperation.ofCode e.oper = some .set ∨ FieldOperation.ofCode e.oper = some .add) ∧ Typed e

def KeyOk : Prop := h.table.isVolatile 0 = false ∧ (t.requestKey = none ∨ h.table.tdef.fieldType 0 ≠ .none)

def ConditionsOk : Prop := ∀ c ∈ conditions t, h.table.isVolatile c.id.toNat = false ∧ Typed c

/-- When the text of a statement that was built means the request. -/
def StatementOk : Request → Prop
  | .update => KeyOk h t ∧ ConditionsOk h t ∧ OperationsOk h (operations t)
  | .delete => KeyOk h t ∧ ConditionsOk h t
  | .replace =>
    KeyOk h t ∧ (t.requestOperation = none ∨ OperationsOk h (operations t)) ∧
      ∀ i ∈ defaulted h t, h.table.tdef.fieldType i ≠ .none
  | .select =>
    KeyOk h t ∧ ConditionsOk h t ∧ ∀ fs, t.requestFields = some fs → ∀ i ∈ fieldIds h,
      fs.ids.contains (UInt8.ofNat i) = true → h.table.isVolatile i = true → h.table.tdef.fieldType i ≠ .none

/-! ## What the loops write -/

section Loops

variable {h t}

theorem append_append (b : SqlBuffer) (ts us : List SqlToken) : (b.append ts).append us = b.append (ts ++ us) := by
  unfold SqlBuffer.append
  dsimp only
  rw [List.append_assoc]

theorem append_nil (b : SqlBuffer) : b.append [] = b := by
  unfold SqlBuffer.append
  rw [List.append_nil]

def valueTokens (v : Option DataValue) (type : FieldType) : List SqlToken := (value2Str v type).toList.map .value

theorem value2Str_isSome {v : DataValue} {type : FieldType} : (∃ x, value2Str (some v) type = some x) ↔ type ≠ .none := by
  cases type with
  | none => exact ⟨nofun, fun h => absurd rfl h⟩
  | signed => exact ⟨fun _ => nofun, fun _ => ⟨_, rfl⟩⟩
  | unsigned => exact ⟨fun _ => nofun, fun _ => ⟨_, rfl⟩⟩
  | float => exact ⟨fun _ => nofun, fun _ => ⟨_, rfl⟩⟩
  | string => cases v <;> exact ⟨fun _ => nofun, fun _ => ⟨_, rfl⟩⟩
  | binary => cases v <;> exact ⟨fun _ => nofun, fun _ => ⟨_, rfl⟩⟩

def conditionTokens (c : SFieldValue) : List SqlToken :=
  [.word .and, .field c.id.toNat] ++ (compStr c.oper).toList.map .comparator ++ valueTokens (some c.val) (.ofCode c.type)

def addCondition (b : SqlBuffer) (c : SFieldValue) : SqlBuffer :=
  ((b.append [.word .and, .field c.id.toNat]).appendComparator c.oper).appendValue (some c.val) (.ofCode c.type)

theorem addCondition_sql (b : SqlBuffer) (c : SFieldValue) : (addCondition b c).sql = b.sql ++ conditionTokens c := by
  unfold addCondition conditionTokens SqlBuffer.appendComparator SqlBuffer.appendValue valueTokens
  cases compStr c.oper with
  | none => simp [SqlBuffer.append]
  | some cmp => simp [SqlBuffer.append]

theorem addCondition_errorNo {b : SqlBuffer} {c : SFieldValue} (h0 : (addCondition b c).errorNo = 0) :
    b.errorNo = 0 ∧ ∃ cmp, compStr c.oper = some cmp := by
  unfold addCondition SqlBuffer.appendComparator SqlBuffer.appendValue SqlBuffer.append at h0
  cases hcmp : compStr c.oper with
  | none =>
    rw [hcmp] at h0
    cases h0
  | some cmp =>
    rw [hcmp] at h0
    exact ⟨h0, cmp, rfl⟩

theorem conditionLoop_some : ∀ {cs : List SFieldValue} {i : Nat} {b b' : SqlBuffer}, conditionLoop h i cs b = some b' →
    b'.sql = b.sql ++ cs.flatMap conditionTokens ∧
      (b'.errorNo = 0 → b.errorNo = 0 ∧ ∀ c ∈ cs, ∃ cmp, compStr c.oper = some cmp)
  | [], i, b, b', hb => by
    obtain rfl := Option.some.inj hb
    exact ⟨(List.append_nil _).symm, fun h0 => ⟨h0, nofun⟩⟩
  | c :: cs, i, b, b', hb => by
    unfold conditionLoop at hb
    split at hb
    · cases hb
    · obtain ⟨hsql, herr⟩ := conditionLoop_some (b := addCondition b c) hb
      refine ⟨?_, fun h0 => ?_⟩
      · rw [hsql, addCondition_sql, List.flatMap_cons, List.append_assoc]
      · obtain ⟨hc, hcs⟩ := herr h0
        obtain ⟨h1, h2⟩ := addCondition_errorNo hc
        refine ⟨h1, fun x hx => ?_⟩
        rcases List.mem_cons.mp hx with rfl | hx
        · exact h2
        · exact hcs x hx

def entryTokens (e : SFieldValue) : List SqlToken :=
  match FieldOperation.ofCode e.oper with
  | some .set => [.field e.id.toNat, .comparator .eq] ++ valueTokens (some e.val) (.ofCode e.type)
  | some .add =>
    [.field e.id.toNat, .comparator .eq, .field e.id.toNat, .operator .plus] ++ valueTokens (some e.val) (.ofCode e.type)
  | _ => []

def Written (h : HelperTable) (e : SFieldValue) : Prop :=
  h.table.isVolatile e.id.toNat = false ∧
    (FieldOperation.ofCode e.oper = some .set ∨ FieldOperation.ofCode e.oper = some .add)

instance (h : HelperTable) (e : SFieldValue) : Decidable (Written h e) := inferInstanceAs (Decidable (_ ∧ _))

def laterTokens (h : HelperTable) (e : SFieldValue) : List SqlToken :=
  if Written h e then .word .comma :: entryTokens e else []

def updateTokens (h : HelperTable) : List SFieldValue → List SqlToken
  | [] => []
  | e :: es => (if Written h e then entryTokens e else []) ++ es.flatMap (laterTokens h)

theorem updateFieldLoop_cons (i : Nat) (e : SFieldValue) (es : List SFieldValue) (b : SqlBuffer) :
    updateFieldLoop h i (e :: es) b = updateFieldLoop h (i + 1) es
      (b.append (if Written h e then (if 0 < i then [.word .comma] else []) ++ entryTokens e else [])) := by
  rw [updateFieldLoop]
  by_cases hv : h.table.isVolatile e.id.toNat = true
  · have hw : ¬ Written h e := fun hw => Bool.noConfusion (hv.symm.trans hw.1)
    rw [if_neg hw, append_nil]
    exact if_pos hv
  · have hv' : h.table.isVolatile e.id.toNat = false := Bool.not_eq_true _ ▸ hv
    dsimp only
    rw [if_neg hv]
    split
    · rename_i hop
      rw [if_pos (show Written h e from ⟨hv', .inl hop⟩), entryTokens, hop]
      dsimp only
      unfold SqlBuffer.appendValue valueTokens
      split <;> simp only [append_append, List.append_assoc, List.nil_append]
    · rename_i hop
      rw [if_pos (show Written h e from ⟨hv', .inr hop⟩), entryTokens, hop]
      dsimp only
      unfold SqlBuffer.appendValue valueTokens
      split <;> simp only [append_append, List.append_assoc, List.nil_append]
    · rename_i h1 h2
      rw [if_neg (show ¬ Written h e from fun hw => hw.2.elim h1 h2), append_nil]

theorem updateFieldLoop_later : ∀ (es : List SFieldValue) (i : Nat) (b : SqlBuffer),
    updateFieldLoop h (i + 1) es b = b.append (es.flatMap (laterTokens h))
  | [], i, b => (append_nil b).symm
  | e :: es, i, b => by
    rw [updateFieldLoop_cons, updateFieldLoop_later es (i + 1), append_append, List.flatMap_cons]
    unfold laterTokens
    rw [if_pos (Nat.succ_pos i)]
    rfl

theorem updateFieldLoop_eq (fields : List SFieldValue) (b : SqlBuffer) :
    updateFieldLoop h 0 fields b = b.append (updateTokens h fields) := by
  cases fields with
  | nil => exact (append_nil b).symm
  | cons e es =>
    rw [updateFieldLoop_cons, updateFieldLoop_later, append_append, if_neg (Nat.lt_irrefl 0), List.nil_append]
    rfl

theorem entryTokens_eq {e : SFieldValue} {a : SqlAssignment} (hw : Written h e) (ha : assignment e = some a) :
    entryTokens e = a.tokens := by
  unfold assignment at ha
  unfold entryTokens
  rcases hw.2 with hop | hop
  · rw [hop] at ha ⊢
    obtain ⟨v, hv, rfl⟩ := Option.map_eq_some_iff.mp ha
    rw [valueTokens, hv]
    rfl
  · rw [hop] at ha ⊢
    obtain ⟨v, hv, rfl⟩ := Option.map_eq_some_iff.mp ha
    rw [valueTokens, hv]
    rfl

theorem later_eq : ∀ {es : List SFieldValue} {ws : List SqlAssignment},
    (es.filter (fun e => decide (Written h e))).mapM assignment = some ws →
    es.flatMap (laterTokens h) = commas (.word .comma) Assignment.tokens ws
  | [], ws, hws => by
    obtain rfl := Option.some.inj hws
    rfl
  | e :: es, ws, hws => by
    rw [List.filter_cons] at hws
    rw [List.flatMap_cons]
    unfold laterTokens
    by_cases hw : Written h e
    · rw [if_pos (decide_eq_true hw)] at hws
      obtain ⟨a, ws', ha, hws', rfl⟩ := mapM_cons_some.mp hws
      rw [if_pos hw, entryTokens_eq hw ha]
      exact congrArg (.word .comma :: Assignment.tokens a ++ ·) (later_eq hws')
    · rw [if_neg (by rw [decide_eq_true_eq]; exact hw)] at hws
      rw [if_neg hw]
      exact later_eq hws

theorem mem_persistent {fields : List SFieldValue} {e : SFieldValue} :
    e ∈ persistent h fields ↔ e ∈ fields ∧ h.table.isVolatile e.id.toNat = false := by
  unfold persistent
  rw [List.mem_filter, Bool.not_eq_true']

theorem written_eq (fields : List SFieldValue) : fields.filter (fun e => decide (Written h e)) =
    (persistent h fields).filter (fun e => decide (Written h e)) := by
  unfold persistent
  rw [List.filter_filter]
  refine List.filter_congr (fun e _ => ?_)
  by_cases hw : Written h e
  · rw [decide_eq_true hw, hw.1]
    rfl
  · rw [decide_eq_false hw]
    rfl

/-- **The entries' text is that of the assignments asked for** exactly when the first entry and all that are not volatile are
written. -/
theorem updateTokens_iff {fields : List SFieldValue} {as : List SqlAssignment}
    (has : (persistent h fields).mapM assignment = some as) :
    (∃ first rest, as = first :: rest ∧
      updateTokens h fields = first.tokens ++ commas (.word .comma) Assignment.tokens rest) ↔
      (∃ e es, fields = e :: es ∧ h.table.isVolatile e.id.toNat = false) ∧
        ∀ e ∈ fields, h.table.isVolatile e.id.toNat = false → Written h e := by
  have htyped : ∀ e ∈ fields, Written h e → ∃ a, assignment e = some a := fun e he hw =>
    mapM_isSome.mp ⟨as, has⟩ e (mem_persistent.mpr ⟨he, hw.1⟩)
  cases fields with
  | nil =>
    obtain rfl := Option.some.inj has
    constructor
    · rintro ⟨first, rest, hnil, -⟩
      cases hnil
    · rintro ⟨⟨e, es, hnil, -⟩, -⟩
      cases hnil
  | cons e es =>
    obtain ⟨ws, hws⟩ : ∃ ws, (es.filter (fun e => decide (Written h e))).mapM assignment = some ws := by
      refine mapM_isSome.mpr (fun x hx => ?_)
      obtain ⟨hx, hw⟩ := List.mem_filter.mp hx
      exact htyped x (List.mem_cons_of_mem _ hx) (of_decide_eq_true hw)
    have htokens : updateTokens h (e :: es) =
        (if Written h e then entryTokens e else []) ++ commas (.word .comma) Assignment.tokens ws := by
      rw [updateTokens, later_eq hws]
    constructor
    · rintro ⟨first, rest, rfl, htext⟩
      rw [htokens] at htext
      by_cases hw : Written h e
      · obtain ⟨a, ha⟩ := htyped e List.mem_cons_self hw
        rw [if_pos hw, entryTokens_eq hw ha] at htext
        obtain ⟨rfl, hrest⟩ := Assignment.tokens_inj _ _ _ _ htext
        rw [← List.append_nil (commas _ _ ws), ← List.append_nil (commas _ _ rest)] at hrest
        have hnil : ([] : List SqlToken).head? ≠ some (.word .comma) := nofun
        obtain ⟨rfl, -⟩ := commas_inj Assignment.tokens_inj _ _ hnil hnil hrest
        refine ⟨⟨e, es, rfl, hw.1⟩, fun x hx hv => ?_⟩
        -- as many are written as are asked for
        have hall : ((e :: es).filter (fun e => decide (Written h e))).mapM assignment = some (a :: ws) := by
          rw [List.filter_cons, if_pos (decide_eq_true hw)]
          exact mapM_cons_some.mpr ⟨a, ws, ha, hws, rfl⟩
        have hlen := (mapM_length hall).symm.trans (mapM_length has)
        rw [written_eq] at hlen
        exact of_decide_eq_true (List.length_filter_eq_length_iff.mp hlen x (mem_persistent.mpr ⟨hx, hv⟩))
      · rw [if_neg hw, List.nil_append] at htext
        have hhead := congrArg List.head? htext
        unfold Assignment.tokens at hhead
        cases ws <;> cases hop : first.op <;> rw [hop] at hhead <;> cases hhead
    · rintro ⟨⟨e', es', he, hv⟩, hall⟩
      obtain ⟨rfl, rfl⟩ := List.cons.inj he
      have hw := hall e List.mem_cons_self hv
      have hsame : (e :: es).filter (fun e => decide (Written h e)) = persistent h (e :: es) := by
        rw [written_eq]
        refine List.filter_eq_self.mpr (fun x hx => ?_)
        obtain ⟨hx, hxv⟩ := mem_persistent.mp hx
        exact decide_eq_true (hall x hx hxv)
      rw [← hsame, List.filter_cons, if_pos (decide_eq_true hw)] at has
      obtain ⟨a, ws', ha, hws', rfl⟩ := mapM_cons_some.mp has
      obtain rfl := Option.some.inj (hws.symm.trans hws')
      exact ⟨a, ws, rfl, by rw [htokens, if_pos hw, entryTokens_eq hw ha]⟩

theorem foldl_append (code : Nat → List SqlToken) (step : SqlBuffer → Nat → SqlBuffer)
    (hstep : ∀ b i, step b i = b.append (code i)) : ∀ (is : List Nat) (b : SqlBuffer),
    is.foldl step b = b.append (is.flatMap code)
  | [], b => (append_nil b).symm
  | i :: is, b => by
    rw [List.foldl_cons, hstep, foldl_append code step hstep is, append_append, List.flatMap_cons]

theorem defaultValueConcate_eq {b : SqlBuffer} {ds : List SqlAssignment}
    (hds : (defaulted h t).mapM (defaultAssignment h) = some ds) :
    defaultValueConcate h t.requestOperation b = b.append (commas (.word .comma) Assignment.tokens ds) := by
  let code : Nat → List SqlToken := fun i =>
    [.word .comma, .field i, .comparator .eq] ++ valueTokens (some (h.defaultValue i)) (h.table.tdef.fieldType i)
  have hbody : ∀ (b : SqlBuffer) (i : Nat), defaultValueBody h t.requestOperation b i =
      b.append (if inMask t.requestOperation i || h.table.isVolatile i then [] else code i) := by
    intro b i
    unfold defaultValueBody
    split
    · exact (append_nil b).symm
    · exact append_append _ _ _
  have hfilter : ∀ is : List Nat,
      is.flatMap (fun i => if inMask t.requestOperation i || h.table.isVolatile i then [] else code i) =
        (is.filter (fun i => !(inMask t.requestOperation i || h.table.isVolatile i))).flatMap code := by
    intro is
    induction is with
    | nil => rfl
    | cons i is ih =>
      rw [List.flatMap_cons, List.filter_cons, ih]
      cases inMask t.requestOperation i || h.table.isVolatile i <;> rfl
  have hcode : (defaulted h t).flatMap code = commas (.word .comma) Assignment.tokens ds := by
    refine flatMap_eq_commas (fun i a ha => ?_) hds
    obtain ⟨v, hv, rfl⟩ := Option.map_eq_some_iff.mp ha
    dsimp only [code]
    rw [valueTokens, hv]
    rfl
  unfold defaultValueConcate
  rw [foldl_append _ _ hbody, hfilter, ← hcode]
  rfl

theorem selectFieldConcate_eq {b : SqlBuffer} {cs : Columns Nat SqlValue} (hcs : columns h t = some cs) :
    selectFieldConcate h t.requestFields b = b.append cs.tokens := by
  unfold columns at hcs
  unfold selectFieldConcate
  cases hfs : t.requestFields with
  | none =>
    rw [hfs] at hcs
    obtain rfl := Option.some.inj hcs
    rfl
  | some fs =>
    rw [hfs] at hcs
    obtain ⟨rest, hrest, rfl⟩ := Option.map_eq_some_iff.mp hcs
    let code : Nat → List SqlToken := fun i =>
      .word .comma ::
        (if ¬ fs.ids.contains (UInt8.ofNat i) then [.word .zero]
          else if ¬ h.table.isVolatile i then [.field i]
          else valueTokens (some (h.defaultValue i)) (h.table.tdef.fieldType i))
    have hbody : ∀ (b : SqlBuffer) (i : Nat), selectFieldBody h fs b i = b.append (code i) := by
      intro b i
      unfold selectFieldBody
      dsimp only [code]
      split
      · exact append_append _ _ _
      · split <;> exact append_append _ _ _
    have hcode : (fieldIds h).flatMap code = commas (.word .comma) Column.tokens rest := by
      refine flatMap_eq_commas (fun i c hc => ?_) hrest
      unfold column at hc
      dsimp only [code]
      split at hc
      · rename_i hno
        obtain rfl := Option.some.inj hc
        rw [if_pos hno]
        rfl
      · rename_i hin
        rw [if_neg hin]
        split at hc
        · rename_i hv
          obtain rfl := Option.some.inj hc
          rw [if_pos hv]
          rfl
        · rename_i hvol
          obtain ⟨v, hv, rfl⟩ := Option.map_eq_some_iff.mp hc
          rw [if_neg hvol, valueTokens, hv]
          rfl
    dsimp only
    rw [foldl_append _ _ hbody, append_append, hcode]
    rfl

end Loops

/-! ## The condition is exact -/

section Exact

variable {h t}

/-- The text from ` WHERE ` on. -/
def whereTokens (h : HelperTable) (t : SqlTask) : List SqlToken :=
  [.word .where, .field 0, .comparator .eq] ++ valueTokens t.requestKey (h.table.tdef.fieldType 0) ++
    (conditions t).flatMap conditionTokens

theorem built_where {b : SqlBuffer} {rest : SqlBuffer → SqlBuffer} {ts sql : List SqlToken}
    (hrest : ∀ b, rest b = b.append ts) (hb : withConditions h t (whereKey h t b) rest = .query sql) :
    sql = b.sql ++ (whereTokens h t ++ ts) ∧ ∀ c ∈ conditions t, ∃ cmp, compStr c.oper = some cmp := by
  have hconcate : ∀ {b b' : SqlBuffer}, conditionConcate h t.requestCondition b = some b' →
      b'.sql = b.sql ++ (conditions t).flatMap conditionTokens ∧
        (b'.errorNo = 0 → ∀ c ∈ conditions t, ∃ cmp, compStr c.oper = some cmp) := by
    intro b b' hb'
    unfold conditionConcate at hb'
    unfold conditions
    cases hc : t.requestCondition with
    | none =>
      rw [hc] at hb'
      obtain rfl := Option.some.inj hb'
      exact ⟨(List.append_nil _).symm, fun _ => nofun⟩
    | some c =>
      rw [hc] at hb'
      obtain ⟨hsql, herr⟩ := conditionLoop_some hb'
      exact ⟨hsql, fun h0 => (herr h0).2⟩
  unfold withConditions at hb
  split at hb
  · cases hb
  · rename_i b' hb'
    obtain ⟨hsql, herr⟩ := hconcate hb'
    unfold checked at hb
    split at hb
    · cases hb
    · rename_i h0
      obtain rfl := SqlOutcome.query.inj hb
      rw [hrest, SqlBuffer.append, not_not] at h0
      refine ⟨?_, herr h0⟩
      rw [hrest, SqlBuffer.append, hsql]
      unfold whereKey whereTokens SqlBuffer.appendValue SqlBuffer.append valueTokens
      dsimp only
      simp only [List.append_assoc]

theorem condition_isSome {c : SFieldValue} (hcmp : ∃ cmp, compStr c.oper = some cmp) :
    (∃ x, condition c = some x) ↔ Typed c := by
  obtain ⟨cmp, hcmp⟩ := hcmp
  unfold condition Typed
  rw [hcmp, ← value2Str_isSome]
  constructor
  · rintro ⟨x, hx⟩
    obtain ⟨v, hv, -⟩ := Option.map_eq_some_iff.mp hx
    exact ⟨v, hv⟩
  · rintro ⟨v, hv⟩
    exact ⟨_, Option.map_eq_some_iff.mpr ⟨v, hv, rfl⟩⟩

theorem condition_tokens (c : SFieldValue) (x : Condition Nat SqlValue) (hx : condition c = some x) :
    conditionTokens c = .word .and :: x.tokens := by
  unfold condition at hx
  obtain ⟨cmp, hcmp, hx⟩ := Option.bind_eq_some_iff.mp hx
  obtain ⟨v, hv, rfl⟩ := Option.map_eq_some_iff.mp hx
  unfold conditionTokens
  rw [hcmp, valueTokens, hv]
  rfl

theorem keyValue_isSome : (∃ v, keyValue h t = some v) ↔ t.requestKey = none ∨ h.table.tdef.fieldType 0 ≠ .none := by
  unfold keyValue
  cases t.requestKey with
  | none => exact ⟨fun _ => .inl rfl, fun _ => ⟨.null, rfl⟩⟩
  | some v => exact value2Str_isSome.trans ⟨.inr, fun hk => hk.resolve_left nofun⟩

theorem whereClause_some {w : Where Nat SqlValue} (hw : whereClause h t = some w) :
    whereTokens h t = w.tokens ∧ (t.requestKey = none ∨ h.table.tdef.fieldType 0 ≠ .none) ∧
      (∀ c ∈ conditions t, ∃ x, condition c = some x) ∧
      ∀ f, w.Mentions f ↔ f = 0 ∨ ∃ c ∈ conditions t, f = c.id.toNat := by
  unfold whereClause at hw
  obtain ⟨key, hkey, hw⟩ := Option.bind_eq_some_iff.mp hw
  obtain ⟨cs, hcs, rfl⟩ := Option.map_eq_some_iff.mp hw
  have hid : ∀ {c : SFieldValue} {x : Condition Nat SqlValue}, condition c = some x → x.field = c.id.toNat := by
    intro c x hx
    obtain ⟨cmp, -, hx⟩ := Option.bind_eq_some_iff.mp hx
    obtain ⟨v, -, rfl⟩ := Option.map_eq_some_iff.mp hx
    rfl
  refine ⟨?_, keyValue_isSome.mp ⟨key, hkey⟩, mapM_isSome.mp ⟨cs, hcs⟩, fun f => or_congr Iff.rfl ?_⟩
  · unfold whereTokens Where.tokens
    unfold keyValue at hkey
    rw [valueTokens, hkey, flatMap_eq_commas condition_tokens hcs]
    rfl
  · constructor
    · rintro ⟨x, hx, rfl⟩
      obtain ⟨c, hc, hcx⟩ := mapM_mem hcs x hx
      exact ⟨c, hc, hid hcx⟩
    · rintro ⟨c, hc, rfl⟩
      obtain ⟨x, hx, hcx⟩ := mapM_mem_left hcs c hc
      exact ⟨x, hx, (hid hcx).symm⟩

theorem whereClause_isSome (hcmp : ∀ c ∈ conditions t, ∃ cmp, compStr c.oper = some cmp)
    (hkey : t.requestKey = none ∨ h.table.tdef.fieldType 0 ≠ .none) (htyped : ∀ c ∈ conditions t, Typed c) :
    ∃ w, whereClause h t = some w := by
  obtain ⟨key, hkey⟩ := keyValue_isSome.mpr hkey
  obtain ⟨cs, hcs⟩ := mapM_isSome.mpr (fun c hc => (condition_isSome (hcmp c hc)).mpr (htyped c hc))
  unfold whereClause
  rw [hkey, hcs]
  exact ⟨_, rfl⟩

theorem clause_ok (hcmp : ∀ c ∈ conditions t, ∃ cmp, compStr c.oper = some cmp) {w : Where Nat SqlValue}
    (hw : whereClause h t = some w) (hment : ∀ f, w.Mentions f → h.table.isVolatile f = false) :
    KeyOk h t ∧ ConditionsOk h t := by
  obtain ⟨-, hkey, htyped, hmentions⟩ := whereClause_some hw
  refine ⟨⟨hment 0 ((hmentions 0).mpr (.inl rfl)), hkey⟩, fun c hc => ⟨?_, ?_⟩⟩
  · exact hment _ ((hmentions _).mpr (.inr ⟨c, hc, rfl⟩))
  · exact (condition_isSome (hcmp c hc)).mp (htyped c hc)

theorem clause_mentions {w : Where Nat SqlValue} (hw : whereClause h t = some w) (hkey : KeyOk h t) (hconds : ConditionsOk h t)
    (f : Nat) (hf : w.Mentions f) : h.table.isVolatile f = false := by
  obtain ⟨-, -, -, hmentions⟩ := whereClause_some hw
  rcases (hmentions f).mp hf with rfl | ⟨c, hc, rfl⟩
  · exact hkey.1
  · exact (hconds c hc).1

theorem assignment_field {e : SFieldValue} {a : SqlAssignment} (ha : assignment e = some a) : a.field = e.id.toNat := by
  obtain ⟨op, -, ha⟩ := Option.bind_eq_some_iff.mp ha
  obtain ⟨v, -, rfl⟩ := Option.map_eq_some_iff.mp ha
  rfl

theorem assigned_persistent {fields : List SFieldValue} {as : List SqlAssignment}
    (has : (persistent h fields).mapM assignment = some as) : ∀ a ∈ as, h.table.isVolatile a.field = false := by
  intro a ha
  obtain ⟨e, he, hea⟩ := mapM_mem has a ha
  rw [assignment_field hea]
  exact (mem_persistent.mp he).2

theorem assignment_isSome {e : SFieldValue} (hop : ∃ op, FieldOperation.ofCode e.oper = some op) :
    (∃ a, assignment e = some a) ↔ Typed e := by
  obtain ⟨op, hop⟩ := hop
  unfold assignment Typed
  rw [hop, ← value2Str_isSome]
  constructor
  · rintro ⟨a, ha⟩
    obtain ⟨v, hv, -⟩ := Option.map_eq_some_iff.mp ha
    exact ⟨v, hv⟩
  · rintro ⟨v, hv⟩
    exact ⟨_, Option.map_eq_some_iff.mpr ⟨v, hv, rfl⟩⟩

theorem operationsOk_iff {fields : List SFieldValue} : OperationsOk h fields ↔ ∃ first rest,
    (persistent h fields).mapM assignment = some (first :: rest) ∧
      updateTokens h fields = first.tokens ++ commas (.word .comma) Assignment.tokens rest := by
  constructor
  · rintro ⟨hfirst, hall⟩
    have hsome : ∀ e ∈ persistent h fields, ∃ a, assignment e = some a := by
      intro e he
      obtain ⟨he, hv⟩ := mem_persistent.mp he
      obtain ⟨hop, htyped⟩ := hall e he hv
      exact (assignment_isSome (hop.elim (fun h => ⟨_, h⟩) (fun h => ⟨_, h⟩))).mpr htyped
    obtain ⟨as, has⟩ := mapM_isSome.mpr hsome
    obtain ⟨first, rest, rfl, htext⟩ := (updateTokens_iff has).mpr ⟨hfirst, fun e he hv => ⟨hv, (hall e he hv).1⟩⟩
    exact ⟨first, rest, has, htext⟩
  · rintro ⟨first, rest, has, htext⟩
    obtain ⟨hfirst, hall⟩ := (updateTokens_iff has).mp ⟨first, rest, rfl, htext⟩
    refine ⟨hfirst, fun e he hv => ⟨(hall e he hv).2, ?_⟩⟩
    obtain ⟨a, ha⟩ := mapM_mem_left has e (mem_persistent.mpr ⟨he, hv⟩) |>.imp fun _ h => h.2
    exact (assignment_isSome ((hall e he hv).2.elim (fun h => ⟨_, h⟩) (fun h => ⟨_, h⟩))).mp ⟨a, ha⟩

theorem update_iff {sql : List SqlToken} (hb : processUpdate h t = .query sql) :
    Means h t .update sql ↔ StatementOk h t .update := by
  unfold processUpdate at hb
  cases hop : t.requestOperation with
  | none =>
    rw [hop] at hb
    cases hb
  | some fv =>
    rw [hop] at hb
    dsimp only at hb
    split at hb
    · cases hb
    · obtain ⟨hsql, hcmp⟩ := built_where (fun b => (append_nil b).symm) hb
      have hops : operations t = fv.fields := by
        unfold operations
        rw [hop]
        rfl
      rw [updateFieldConcate, updateFieldLoop_eq, SqlBuffer.append, List.append_nil] at hsql
      constructor
      · rintro ⟨⟨stmt, hstmt, htext⟩, hment⟩
        unfold statement at hstmt
        dsimp only at hstmt
        obtain ⟨as, has, hstmt⟩ := Option.bind_eq_some_iff.mp hstmt
        cases as with
        | nil => cases hstmt
        | cons first rest =>
          obtain ⟨w, hw, rfl⟩ := Option.map_eq_some_iff.mp hstmt
          have hment' : ∀ f, w.Mentions f → h.table.isVolatile f = false := by
            intro f hf
            refine hment f ?_
            rw [htext]
            exact Statement.mem_tokens.mpr (.inr (.inr hf))
          obtain ⟨hkey, hconds⟩ := clause_ok hcmp hw hment'
          refine ⟨hkey, hconds, operationsOk_iff.mpr ⟨first, rest, has, ?_⟩⟩
          rw [hsql, (whereClause_some hw).1] at htext
          have htail : updateTokens h fv.fields ++ w.tokens =
              first.tokens ++ (commas (.word .comma) Assignment.tokens rest ++ w.tokens) :=
            (List.cons.inj (List.cons.inj (List.cons.inj htext).2).2).2
          rw [← List.append_assoc] at htail
          rw [hops]
          exact List.append_cancel_right htail
      · rintro ⟨hkey, hconds, hoper⟩
        obtain ⟨first, rest, has, htext⟩ := operationsOk_iff.mp hoper
        obtain ⟨w, hw⟩ := whereClause_isSome hcmp hkey.2 (fun c hc => (hconds c hc).2)
        have hstmt : statement h t .update = some (.update first rest w) := by
          unfold statement
          rw [has, hw]
          rfl
        have hsql' : sql = (Statement.update first rest w : SqlStatement).tokens := by
          rw [hsql, ← hops, htext, (whereClause_some hw).1]
          unfold Statement.tokens
          simp only [List.cons_append, List.nil_append, List.append_assoc]
        refine ⟨⟨_, hstmt, hsql'⟩, fun f hf => ?_⟩
        rw [hsql'] at hf
        have hpersistent := assigned_persistent has
        rcases Statement.mem_tokens.mp hf with rfl | ⟨a, ha, rfl⟩ | hf
        · exact hpersistent first List.mem_cons_self
        · exact hpersistent a (List.mem_cons_of_mem _ ha)
        · exact clause_mentions hw hkey hconds f hf

theorem delete_iff {sql : List SqlToken} (hb : processDelete h t = .query sql) :
    Means h t .delete sql ↔ StatementOk h t .delete := by
  obtain ⟨hsql, hcmp⟩ := built_where (fun b => (append_nil b).symm) hb
  rw [List.append_nil] at hsql
  constructor
  · rintro ⟨⟨stmt, hstmt, htext⟩, hment⟩
    obtain ⟨w, hw, rfl⟩ := Option.map_eq_some_iff.mp hstmt
    refine clause_ok hcmp hw (fun f hf => hment f ?_)
    rw [htext]
    exact Statement.mem_tokens.mpr hf
  · rintro ⟨hkey, hconds⟩
    obtain ⟨w, hw⟩ := whereClause_isSome hcmp hkey.2 (fun c hc => (hconds c hc).2)
    have hsql' : sql = (Statement.delete w : SqlStatement).tokens := by
      rw [hsql, (whereClause_some hw).1]
      rfl
    refine ⟨⟨_, Option.map_eq_some_iff.mpr ⟨w, hw, rfl⟩, hsql'⟩, fun f hf => ?_⟩
    rw [hsql'] at hf
    exact clause_mentions hw hkey hconds f (Statement.mem_tokens.mp hf)

theorem selectEnd_eq (b : SqlBuffer) :
    (let b := match h.ordSql with
        | none => b
        | some ordSql => b.append [.verbatim ordSql]
      if 0 < t.limitCount then b.append [.word .limit, .number t.limitStart, .word .comma, .number t.limitCount] else b) =
      b.append (selectEnd h.ordSql (limit t)) := by
  unfold limit selectEnd
  cases h.ordSql with
  | none =>
    dsimp only
    split
    · rfl
    · exact (append_nil b).symm
  | some ordSql =>
    dsimp only
    split
    · exact append_append _ _ _
    · rfl

theorem columns_isSome : (∃ cs, columns h t = some cs) ↔ ∀ fs, t.requestFields = some fs → ∀ i ∈ fieldIds h,
    fs.ids.contains (UInt8.ofNat i) = true → h.table.isVolatile i = true → h.table.tdef.fieldType i ≠ .none := by
  have hcolumn : ∀ (fs : CFieldSet) (i : Nat), (∃ c, column h fs i = some c) ↔
      (fs.ids.contains (UInt8.ofNat i) = true → h.table.isVolatile i = true → h.table.tdef.fieldType i ≠ .none) := by
    intro fs i
    unfold column
    split
    · rename_i hno
      exact ⟨fun _ hin => absurd hin hno, fun _ => ⟨_, rfl⟩⟩
    · rename_i hin
      rw [not_not] at hin
      split
      · rename_i hv
        exact ⟨fun _ _ hvol => absurd hvol hv, fun _ => ⟨_, rfl⟩⟩
      · rename_i hvol
        rw [not_not] at hvol
        constructor
        · rintro ⟨c, hc⟩ _ _
          obtain ⟨v, hv, -⟩ := Option.map_eq_some_iff.mp hc
          exact value2Str_isSome.mp ⟨v, hv⟩
        · intro htype
          obtain ⟨v, hv⟩ := value2Str_isSome.mpr (htype hin hvol)
          exact ⟨_, Option.map_eq_some_iff.mpr ⟨v, hv, rfl⟩⟩
  unfold columns
  cases t.requestFields with
  | none => exact ⟨fun _ => nofun, fun _ => ⟨_, rfl⟩⟩
  | some fs =>
    constructor
    · rintro ⟨cs, hcs⟩ fs' hfs' i hi
      obtain rfl := Option.some.inj hfs'
      obtain ⟨rest, hrest, -⟩ := Option.map_eq_some_iff.mp hcs
      exact (hcolumn fs i).mp (mapM_isSome.mp ⟨rest, hrest⟩ i hi)
    · intro hall
      obtain ⟨rest, hrest⟩ := mapM_isSome.mpr (fun i hi => (hcolumn fs i).mpr (hall fs rfl i hi))
      exact ⟨_, Option.map_eq_some_iff.mpr ⟨rest, hrest, rfl⟩⟩

theorem columns_mentions {cs : Columns Nat SqlValue} (hcs : columns h t = some cs) (hkey : h.table.isVolatile 0 = false)
    (f : Nat) (hf : cs.Mentions f) : h.table.isVolatile f = false := by
  unfold columns at hcs
  split at hcs
  · obtain rfl := Option.some.inj hcs
    cases hf
  · obtain ⟨rest, hrest, rfl⟩ := Option.map_eq_some_iff.mp hcs
    rcases hf with hf | hf
    · obtain rfl := Column.field.inj hf
      exact hkey
    · obtain ⟨i, hi, hc⟩ := mapM_mem hrest _ hf
      unfold column at hc
      split at hc
      · cases hc
      · split at hc
        · rename_i hv
          obtain rfl := Column.field.inj (Option.some.inj hc)
          exact Bool.not_eq_true _ ▸ hv
        · obtain ⟨v, -, hv⟩ := Option.map_eq_some_iff.mp hc
          cases hv

theorem select_iff {sql : List SqlToken} (hb : processSelect h t = .query sql) :
    Means h t .select sql ↔ StatementOk h t .select := by
  obtain ⟨hsql, hcmp⟩ := built_where (fun b => selectEnd_eq b) hb
  constructor
  · rintro ⟨⟨stmt, hstmt, htext⟩, hment⟩
    obtain ⟨cs, hcs, hstmt⟩ := Option.bind_eq_some_iff.mp hstmt
    obtain ⟨w, hw, rfl⟩ := Option.map_eq_some_iff.mp hstmt
    have hment' : ∀ f, w.Mentions f → h.table.isVolatile f = false := by
      intro f hf
      refine hment f ?_
      rw [htext]
      exact Statement.mem_tokens.mpr (.inr hf)
    obtain ⟨hkey, hconds⟩ := clause_ok hcmp hw hment'
    exact ⟨hkey, hconds, columns_isSome.mp ⟨cs, hcs⟩⟩
  · rintro ⟨hkey, hconds, hcols⟩
    obtain ⟨w, hw⟩ := whereClause_isSome hcmp hkey.2 (fun c hc => (hconds c hc).2)
    obtain ⟨cs, hcs⟩ := columns_isSome.mpr hcols
    have hstmt : statement h t .select = some (.select (t.requestFields.isSome &&
        (decide (t.limitStart ≠ 0) || decide (t.limitCount ≠ 0))) cs w h.ordSql (limit t)) := by
      unfold statement
      rw [hcs, hw]
      rfl
    have hsql' : sql = (Statement.select (t.requestFields.isSome &&
        (decide (t.limitStart ≠ 0) || decide (t.limitCount ≠ 0))) cs w h.ordSql (limit t) : SqlStatement).tokens := by
      rw [hsql, selectFieldConcate_eq hcs, (whereClause_some hw).1]
      unfold Statement.tokens SqlBuffer.append
      simp only [List.cons_append, List.nil_append, List.append_assoc]
    refine ⟨⟨_, hstmt, hsql'⟩, fun f hf => ?_⟩
    rw [hsql'] at hf
    rcases Statement.mem_tokens.mp hf with hf | hf
    · exact columns_mentions hcs hkey.1 f hf
    · exact clause_mentions hw hkey hconds f hf

theorem defaulted_isSome : (∃ ds, (defaulted h t).mapM (defaultAssignment h) = some ds) ↔
    ∀ i ∈ defaulted h t, h.table.tdef.fieldType i ≠ .none := by
  rw [mapM_isSome]
  refine forall₂_congr (fun i _ => ?_)
  rw [← value2Str_isSome]
  constructor
  · rintro ⟨a, ha⟩
    obtain ⟨v, hv, -⟩ := Option.map_eq_some_iff.mp ha
    exact ⟨v, hv⟩
  · rintro ⟨v, hv⟩
    exact ⟨_, Option.map_eq_some_iff.mpr ⟨v, hv, rfl⟩⟩

theorem defaulted_persistent {ds : List SqlAssignment} (hds : (defaulted h t).mapM (defaultAssignment h) = some ds) :
    ∀ a ∈ ds, h.table.isVolatile a.field = false := by
  intro a ha
  obtain ⟨i, hi, hia⟩ := mapM_mem hds a ha
  obtain ⟨v, -, rfl⟩ := Option.map_eq_some_iff.mp hia
  have hnot := (List.mem_filter.mp hi).2
  rw [Bool.not_eq_true', Bool.or_eq_false_iff] at hnot
  exact hnot.2

/-- The beginning of a `REPLACE`, up to the key. -/
def replaceKey (h : HelperTable) (t : SqlTask) : List SqlToken :=
  [.word .replaceInto, .table, .word .set, .field 0, .comparator .eq] ++ valueTokens t.requestKey (h.table.tdef.fieldType 0)

theorem built_replace {sql : List SqlToken} {ds : List SqlAssignment}
    (hds : (defaulted h t).mapM (defaultAssignment h) = some ds) (hb : processReplace h t = .query sql) :
    sql = replaceKey h t ++ (match t.requestOperation with
      | none => []
      | some fv => .word .comma :: updateTokens h fv.fields) ++ commas (.word .comma) Assignment.tokens ds := by
  have hchecked : ∀ {b : SqlBuffer}, checked b = .query sql → sql = b.sql := by
    intro b hb
    unfold checked at hb
    split at hb
    · cases hb
    · exact (SqlOutcome.query.inj hb).symm
  unfold processReplace at hb
  have hsql := hchecked hb
  rw [defaultValueConcate_eq hds] at hsql
  rw [hsql]
  unfold replaceKey
  cases hop : t.requestOperation with
  | none =>
    dsimp only
    unfold SqlBuffer.appendValue SqlBuffer.append valueTokens
    dsimp only
    rw [List.getLast?_concat, if_pos rfl, List.dropLast_concat]
    simp only [List.cons_append, List.nil_append, List.append_nil]
  | some fv =>
    dsimp only
    rw [updateFieldConcate, updateFieldLoop_eq]
    unfold SqlBuffer.appendValue SqlBuffer.append valueTokens
    simp only [List.cons_append, List.nil_append, List.append_assoc]

theorem replace_iff {sql : List SqlToken} (hb : processReplace h t = .query sql) :
    Means h t .replace sql ↔ StatementOk h t .replace := by
  have hstatement : ∀ {key : SqlValue} {as ds : List SqlAssignment}, keyValue h t = some key →
      (persistent h (operations t)).mapM assignment = some as → (defaulted h t).mapM (defaultAssignment h) = some ds →
      statement h t .replace = some (.replace ⟨0, none, key⟩ (as ++ ds)) := by
    intro key as ds hkey has hds
    unfold statement
    rw [hkey, has, hds]
    rfl
  have htokens : ∀ {key : SqlValue} (as ds : List SqlAssignment), keyValue h t = some key →
      (Statement.replace ⟨0, none, key⟩ (as ++ ds) : SqlStatement).tokens =
        replaceKey h t ++ commas (.word .comma) Assignment.tokens as ++ commas (.word .comma) Assignment.tokens ds := by
    intro key as ds hkey
    unfold keyValue at hkey
    rw [List.append_assoc, ← commas_append, replaceKey, valueTokens, hkey]
    rfl
  constructor
  · rintro ⟨⟨stmt, hstmt, htext⟩, hment⟩
    obtain ⟨key, hkey, hstmt⟩ := Option.bind_eq_some_iff.mp hstmt
    obtain ⟨as, has, hstmt⟩ := Option.bind_eq_some_iff.mp hstmt
    obtain ⟨ds, hds, rfl⟩ := Option.map_eq_some_iff.mp hstmt
    refine ⟨⟨hment 0 ?_, keyValue_isSome.mp ⟨key, hkey⟩⟩, ?_, defaulted_isSome.mp ⟨ds, hds⟩⟩
    · rw [htext]
      exact Statement.mem_tokens.mpr (.inl rfl)
    · rw [htext, htokens as ds hkey] at hb
      have htext := List.append_cancel_right (built_replace hds hb)
      have hentries := List.append_cancel_left htext
      cases hop : t.requestOperation with
      | none => exact .inl rfl
      | some fv =>
        have hops : operations t = fv.fields := by
          unfold operations
          rw [hop]
          rfl
        rw [hop] at hentries
        rw [hops] at has ⊢
        refine .inr (operationsOk_iff.mpr ?_)
        cases as with
        | nil => cases hentries
        | cons first rest => exact ⟨first, rest, has, (List.cons.inj hentries).2.symm⟩
  · rintro ⟨hkey, hoper, hdefaults⟩
    obtain ⟨key, hkv⟩ := keyValue_isSome.mpr hkey.2
    obtain ⟨ds, hds⟩ := defaulted_isSome.mpr hdefaults
    obtain ⟨as, has, hentries⟩ : ∃ as, (persistent h (operations t)).mapM assignment = some as ∧
        (match t.requestOperation with
          | none => []
          | some fv => .word .comma :: updateTokens h fv.fields) = commas (.word .comma) Assignment.tokens as := by
      cases hop : t.requestOperation with
      | none =>
        refine ⟨[], ?_, rfl⟩
        unfold operations
        rw [hop]
        rfl
      | some fv =>
        have hops : operations t = fv.fields := by
          unfold operations
          rw [hop]
          rfl
        obtain ⟨first, rest, has, htext⟩ := operationsOk_iff.mp (hoper.resolve_left (by rw [hop]; exact nofun))
        refine ⟨first :: rest, has, ?_⟩
        rw [hops] at htext
        dsimp only
        rw [htext]
        rfl
    have hsql : sql = (Statement.replace ⟨0, none, key⟩ (as ++ ds) : SqlStatement).tokens := by
      rw [htokens as ds hkv, ← hentries]
      exact built_replace hds hb
    refine ⟨⟨_, hstatement hkv has hds, hsql⟩, fun f hf => ?_⟩
    rw [hsql] at hf
    rcases Statement.mem_tokens.mp hf with rfl | ⟨a, ha, rfl⟩
    · exact hkey.1
    · rcases List.mem_append.mp ha with ha | ha
      · exact assigned_persistent has a ha
      · exact defaulted_persistent hds a ha

theorem means_iff {kind : Request} {sql : List SqlToken} (hb : process h t kind = .query sql) :
    Means h t kind sql ↔ StatementOk h t kind := by
  cases kind with
  | update => exact update_iff hb
  | delete => exact delete_iff hb
  | select => exact select_iff hb
  | replace => exact replace_iff hb

end Exact

end CHelperProcess

end Dtc
