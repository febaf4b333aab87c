import Mathlib.Data.List.Basic
import Mathlib.Logic.Function.Basic
/-!
# SqlStatements — the texts of SQL statements on one table, and what an `UPDATE` does to a row

A statement is written as a list of tokens; fields, operators, values and rows are parameters. The meaning of an `UPDATE` is
what its assignments do to a row, one after another; how a value is stored in a field, or refused, is a parameter too.
-/
namespace Sql

inductive Word where
  | select | selectFound | count | zero | update | deleteFrom | replaceInto | from | set | where | and | comma | limit
  deriving DecidableEq, Repr

inductive Comparator where
  | eq | ne | lt | le | gt | ge
  deriving DecidableEq, Repr

inductive Token (F O V T : Type) where
  | word (w : Word)
  | table
  | field (f : F)
  | comparator (c : Comparator)
  | operator (o : O)
  | value (v : V)
  | number (n : Nat)
  /-- a text from outside -/
  | verbatim (text : T)
  deriving DecidableEq, Repr

/-- `f=v`, or `f=f` with an operator and `v`. -/
structure Assignment (F O V : Type) where
  field : F
  op : Option O
  value : V
  deriving DecidableEq, Repr

structure Condition (F V : Type) where
  field : F
  comparator : Comparator
  value : V
  deriving DecidableEq, Repr

/-- The row's key, and conditions behind it. -/
structure Where (F V : Type) where
  key : Condition F V
  conditions : List (Condition F V)
  deriving DecidableEq, Repr

inductive Column (F V : Type) where
  | zero
  | field (f : F)
  | value (v : V)
  deriving DecidableEq, Repr

inductive Columns (F V : Type) where
  | count
  | list (first : Column F V) (rest : List (Column F V))
  deriving DecidableEq, Repr

inductive Statement (F O V T : Type) where
  | update (first : Assignment F O V) (rest : List (Assignment F O V)) (cond : Where F V)
  | delete (cond : Where F V)
  | replace (first : Assignment F O V) (rest : List (Assignment F O V))
  | select (found : Bool) (columns : Columns F V) (cond : Where F V) (order : Option T) (limit : Option (Nat × Nat))
  deriving DecidableEq, Repr

section Text

variable {F O V T : Type}

def Assignment.tokens (a : Assignment F O V) : List (Token F O V T) :=
  match a.op with
  | none => [.field a.field, .comparator .eq, .value a.value]
  | some o => [.field a.field, .comparator .eq, .field a.field, .operator o, .value a.value]

def Condition.tokens (c : Condition F V) : List (Token F O V T) := [.field c.field, .comparator c.comparator, .value c.value]

def Column.tokens : Column F V → List (Token F O V T)
  | .zero => [.word .zero]
  | .field f => [.field f]
  | .value v => [.value v]

def commas {α β : Type} (comma : β) (text : α → List β) (l : List α) : List β := l.flatMap (fun a => comma :: text a)

theorem commas_append {α β : Type} (comma : β) (text : α → List β) (l m : List α) :
    commas comma text (l ++ m) = commas comma text l ++ commas comma text m := List.flatMap_append

def Columns.tokens : Columns F V → List (Token F O V T)
  | .count => [.word .count]
  | .list first rest => first.tokens ++ commas (.word .comma) Column.tokens rest

def Where.tokens (c : Where F V) : List (Token F O V T) :=
  .word .where :: c.key.tokens ++ commas (.word .and) Condition.tokens c.conditions

/-- The end of a `SELECT`: its order and its limit. -/
def selectEnd (order : Option T) (limit : Option (Nat × Nat)) : List (Token F O V T) :=
  order.toList.map .verbatim ++
    match limit with
    | none => []
    | some (start, count) => [.word .limit, .number start, .word .comma, .number count]

/-- **The text of a statement.** -/
def Statement.tokens : Statement F O V T → List (Token F O V T)
  | .update first rest cond =>
    .word .update :: .table :: .word .set :: (first.tokens ++ (commas (.word .comma) Assignment.tokens rest ++ cond.tokens))
  | .delete cond => .word .deleteFrom :: .table :: cond.tokens
  | .replace first rest =>
    .word .replaceInto :: .table :: .word .set :: (first.tokens ++ commas (.word .comma) Assignment.tokens rest)
  | .select found columns cond order limit =>
    .word (if found then .selectFound else .select) ::
      (columns.tokens ++ (.word .from :: .table :: (cond.tokens ++ selectEnd order limit)))

end Text

/-! ## Which fields a text mentions -/

section Mentions

variable {F O V T : Type}

def Where.Mentions (c : Where F V) (f : F) : Prop := f = c.key.field ∨ ∃ d ∈ c.conditions, f = d.field

def Columns.Mentions (c : Columns F V) (f : F) : Prop :=
  match c with
  | .count => False
  | .list first rest => .field f = first ∨ .field f ∈ rest

def Statement.Mentions (s : Statement F O V T) (f : F) : Prop :=
  match s with
  | .update first rest cond => f = first.field ∨ (∃ a ∈ rest, f = a.field) ∨ cond.Mentions f
  | .delete cond => cond.Mentions f
  | .replace first rest => f = first.field ∨ ∃ a ∈ rest, f = a.field
  | .select _ columns cond _ _ => columns.Mentions f ∨ cond.Mentions f

theorem Assignment.mem_tokens {a : Assignment F O V} {f : F} : (.field f : Token F O V T) ∈ a.tokens ↔ f = a.field := by
  unfold Assignment.tokens
  cases a.op <;> simp

theorem Condition.mem_tokens {c : Condition F V} {f : F} : (.field f : Token F O V T) ∈ c.tokens ↔ f = c.field := by
  unfold Condition.tokens
  simp

theorem Column.mem_tokens {c : Column F V} {f : F} : (.field f : Token F O V T) ∈ c.tokens ↔ .field f = c := by
  cases c <;> simp [Column.tokens]

theorem mem_commas {α : Type} {w : Word} {text : α → List (Token F O V T)} {l : List α} {f : F} :
    .field f ∈ commas (.word w) text l ↔ ∃ a ∈ l, .field f ∈ text a := by
  unfold commas
  simp

theorem Where.mem_tokens {c : Where F V} {f : F} : (.field f : Token F O V T) ∈ c.tokens ↔ c.Mentions f := by
  unfold Where.tokens Where.Mentions
  simp [Condition.mem_tokens, mem_commas]

theorem Columns.mem_tokens {c : Columns F V} {f : F} : (.field f : Token F O V T) ∈ c.tokens ↔ c.Mentions f := by
  cases c with
  | count => simp [Columns.tokens, Columns.Mentions]
  | list first rest => simp [Columns.tokens, Columns.Mentions, mem_commas, Column.mem_tokens]

theorem mem_selectEnd {order : Option T} {limit : Option (Nat × Nat)} {f : F} :
    (.field f : Token F O V T) ∉ selectEnd order limit := by
  rcases order with - | x <;> rcases limit with - | ⟨a, b⟩ <;> simp [selectEnd]

theorem Statement.mem_tokens {s : Statement F O V T} {f : F} : .field f ∈ s.tokens ↔ s.Mentions f := by
  cases s with
  | update first rest cond =>
    simp [Statement.tokens, Statement.Mentions, Assignment.mem_tokens, mem_commas, Where.mem_tokens]
  | delete cond => simp [Statement.tokens, Statement.Mentions, Where.mem_tokens]
  | replace first rest => simp [Statement.tokens, Statement.Mentions, Assignment.mem_tokens, mem_commas]
  | select found columns cond order limit =>
    simp [Statement.tokens, Statement.Mentions, Columns.mem_tokens, Where.mem_tokens, mem_selectEnd]

end Mentions

/-! ## Lists of items that may have no text -/

section Items

variable {α β γ : Type} {f : α → Option β}

theorem mapM_cons_some {a : α} {l : List α} {bs : List β} :
    (a :: l).mapM f = some bs ↔ ∃ b bs', f a = some b ∧ l.mapM f = some bs' ∧ bs = b :: bs' := by
  rw [List.mapM_cons]
  constructor
  · intro h
    obtain ⟨b, hb, h⟩ := Option.bind_eq_some_iff.mp h
    obtain ⟨bs', hbs', h⟩ := Option.bind_eq_some_iff.mp h
    exact ⟨b, bs', hb, hbs', (Option.some.inj h).symm⟩
  · rintro ⟨b, bs', hb, hbs', rfl⟩
    rw [hb, hbs']
    rfl

theorem mapM_mem_left : ∀ {l : List α} {bs : List β}, l.mapM f = some bs → ∀ a ∈ l, ∃ b ∈ bs, f a = some b
  | [], _, _ => nofun
  | a :: l, bs, h => by
    obtain ⟨b, bs', hb, hbs', rfl⟩ := mapM_cons_some.mp h
    intro x hx
    rcases List.mem_cons.mp hx with rfl | hx
    · exact ⟨b, List.mem_cons_self, hb⟩
    · obtain ⟨y, hy, hxy⟩ := mapM_mem_left hbs' x hx
      exact ⟨y, List.mem_cons_of_mem _ hy, hxy⟩

theorem mapM_isSome : ∀ {l : List α}, (∃ bs, l.mapM f = some bs) ↔ ∀ a ∈ l, ∃ b, f a = some b
  | [] => ⟨fun _ _ ha => absurd ha List.not_mem_nil, fun _ => ⟨[], rfl⟩⟩
  | a :: l => by
    constructor
    · rintro ⟨bs, h⟩ x hx
      obtain ⟨b, -, hb⟩ := mapM_mem_left h x hx
      exact ⟨b, hb⟩
    · intro h
      obtain ⟨b, hb⟩ := h a List.mem_cons_self
      obtain ⟨bs', hbs'⟩ := mapM_isSome.mpr (fun x hx => h x (List.mem_cons_of_mem _ hx))
      exact ⟨b :: bs', mapM_cons_some.mpr ⟨b, bs', hb, hbs', rfl⟩⟩

theorem mapM_mem : ∀ {l : List α} {bs : List β}, l.mapM f = some bs → ∀ b ∈ bs, ∃ a ∈ l, f a = some b
  | [], bs, h => by
    obtain rfl := Option.some.inj h
    exact nofun
  | a :: l, bs, h => by
    obtain ⟨b, bs', hb, hbs', rfl⟩ := mapM_cons_some.mp h
    intro x hx
    rcases List.mem_cons.mp hx with rfl | hx
    · exact ⟨a, List.mem_cons_self, hb⟩
    · obtain ⟨y, hy, hyx⟩ := mapM_mem hbs' x hx
      exact ⟨y, List.mem_cons_of_mem _ hy, hyx⟩

theorem mapM_length : ∀ {l : List α} {bs : List β}, l.mapM f = some bs → bs.length = l.length
  | [], bs, h => by
    obtain rfl := Option.some.inj h
    rfl
  | a :: l, bs, h => by
    obtain ⟨b, bs', -, hbs', rfl⟩ := mapM_cons_some.mp h
    rw [List.length_cons, List.length_cons, mapM_length hbs']

theorem mapM_map {δ : Type} {g : β → δ} {k : α → δ} (hg : ∀ a b, f a = some b → g b = k a) : ∀ {l : List α} {bs : List β},
    l.mapM f = some bs → bs.map g = l.map k
  | [], bs, h => by
    obtain rfl := Option.some.inj h
    rfl
  | a :: l, bs, h => by
    obtain ⟨b, bs', hb, hbs', rfl⟩ := mapM_cons_some.mp h
    rw [List.map_cons, List.map_cons, hg a b hb, mapM_map hg hbs']

theorem flatMap_eq_commas {comma : γ} {text : β → List γ} {code : α → List γ}
    (hcode : ∀ a b, f a = some b → code a = comma :: text b) : ∀ {l : List α} {bs : List β}, l.mapM f = some bs →
    l.flatMap code = commas comma text bs
  | [], bs, h => by
    obtain rfl := Option.some.inj h
    rfl
  | a :: l, bs, h => by
    obtain ⟨b, bs', hb, hbs', rfl⟩ := mapM_cons_some.mp h
    rw [List.flatMap_cons, hcode a b hb, flatMap_eq_commas hcode hbs']
    rfl

end Items

/-! ## A text has one reading -/

section Reading

variable {F O V T : Type}

theorem commas_inj {α β : Type} {comma : β} {text : α → List β}
    (htext : ∀ (a a' : α) (x x' : List β), text a ++ x = text a' ++ x' → a = a' ∧ x = x') :
    ∀ (l l' : List α) {y y' : List β}, y.head? ≠ some comma → y'.head? ≠ some comma →
      commas comma text l ++ y = commas comma text l' ++ y' → l = l' ∧ y = y'
  | [], [], _, _, _, _, h => ⟨rfl, h⟩
  | [], b :: l', y, y', hy, _, h => by
    change y = (comma :: text b ++ commas comma text l') ++ y' at h
    rw [h] at hy
    exact absurd rfl hy
  | a :: l, [], y, y', _, hy', h => by
    change (comma :: text a ++ commas comma text l) ++ y = y' at h
    rw [← h] at hy'
    exact absurd rfl hy'
  | a :: l, b :: l', y, y', hy, hy', h => by
    have hsplit : ∀ (c : α) (m : List α) (z : List β), commas comma text (c :: m) ++ z = comma :: (text c ++ (commas comma text m ++ z)) := by
      intro c m z
      rw [commas, List.flatMap_cons, List.cons_append, List.cons_append, List.append_assoc]
      rfl
    rw [hsplit, hsplit] at h
    obtain ⟨rfl, hrest⟩ := htext a b _ _ (List.cons.inj h).2
    obtain ⟨rfl, hend⟩ := commas_inj htext l l' hy hy' hrest
    exact ⟨rfl, hend⟩

theorem Assignment.tokens_inj (a a' : Assignment F O V) (x x' : List (Token F O V T))
    (h : a.tokens ++ x = a'.tokens ++ x') : a = a' ∧ x = x' := by
  obtain ⟨f, op, v⟩ := a
  obtain ⟨f', op', v'⟩ := a'
  cases op with
  | none =>
    cases op' with
    | none =>
      simp only [Assignment.tokens, List.cons_append, List.nil_append, List.cons.injEq, Token.field.injEq,
        Token.value.injEq] at h
      obtain ⟨rfl, -, rfl, rfl⟩ := h
      exact ⟨rfl, rfl⟩
    | some o' => cases h
  | some o =>
    cases op' with
    | none => cases h
    | some o' =>
      simp only [Assignment.tokens, List.cons_append, List.nil_append, List.cons.injEq, Token.field.injEq,
        Token.operator.injEq, Token.value.injEq] at h
      obtain ⟨rfl, -, -, rfl, rfl, rfl⟩ := h
      exact ⟨rfl, rfl⟩

theorem Condition.tokens_inj (c c' : Condition F V) (x x' : List (Token F O V T))
    (h : c.tokens ++ x = c'.tokens ++ x') : c = c' ∧ x = x' := by
  obtain ⟨f, op, v⟩ := c
  obtain ⟨f', op', v'⟩ := c'
  simp only [Condition.tokens, List.cons_append, List.nil_append, List.cons.injEq, Token.field.injEq,
    Token.comparator.injEq, Token.value.injEq] at h
  obtain ⟨rfl, rfl, rfl, rfl⟩ := h
  exact ⟨rfl, rfl⟩

theorem Column.tokens_inj (c c' : Column F V) (x x' : List (Token F O V T))
    (h : c.tokens ++ x = c'.tokens ++ x') : c = c' ∧ x = x' := by
  cases c <;> cases c' <;> injection h with h1 h <;> cases h1 <;> exact ⟨rfl, h⟩

theorem Where.tokens_inj (c c' : Where F V) {x x' : List (Token F O V T)} (hx : x.head? ≠ some (.word .and))
    (hx' : x'.head? ≠ some (.word .and)) (h : c.tokens ++ x = c'.tokens ++ x') : c = c' ∧ x = x' := by
  obtain ⟨key, conditions⟩ := c
  obtain ⟨key', conditions'⟩ := c'
  have hsplit : ∀ (k : Condition F V) (l : List (Condition F V)) (z : List (Token F O V T)),
      (⟨k, l⟩ : Where F V).tokens ++ z = .word .where :: (k.tokens ++ (commas (.word .and) Condition.tokens l ++ z)) := by
    intro k l z
    rw [Where.tokens, List.cons_append, List.cons_append, List.append_assoc]
  rw [hsplit, hsplit] at h
  obtain ⟨rfl, hrest⟩ := Condition.tokens_inj _ _ _ _ (List.cons.inj h).2
  obtain ⟨rfl, hend⟩ := commas_inj Condition.tokens_inj _ _ hx hx' hrest
  exact ⟨rfl, hend⟩

theorem Columns.tokens_inj (c c' : Columns F V) {x x' : List (Token F O V T)} (hx : x.head? ≠ some (.word .comma))
    (hx' : x'.head? ≠ some (.word .comma)) (h : c.tokens ++ x = c'.tokens ++ x') : c = c' ∧ x = x' := by
  cases c with
  | count =>
    cases c' with
    | count => exact ⟨rfl, (List.cons.inj h).2⟩
    | list first' rest' => cases first' <;> injection h with h1 <;> cases h1
  | list first rest =>
    cases c' with
    | count => cases first <;> injection h with h1 <;> cases h1
    | list first' rest' =>
      unfold Columns.tokens at h
      dsimp only at h
      rw [List.append_assoc, List.append_assoc] at h
      obtain ⟨rfl, hrest⟩ := Column.tokens_inj _ _ _ _ h
      obtain ⟨rfl, hend⟩ := commas_inj Column.tokens_inj _ _ hx hx' hrest
      exact ⟨rfl, hend⟩

theorem selectEnd_inj {order order' : Option T} {limit limit' : Option (Nat × Nat)}
    (h : (selectEnd order limit : List (Token F O V T)) = selectEnd order' limit') : order = order' ∧ limit = limit' := by
  have hlimit : ∀ {l l' : Option (Nat × Nat)}, (selectEnd none l : List (Token F O V T)) = selectEnd none l' → l = l' := by
    intro l l' hl
    match l, l' with
    | none, none => rfl
    | none, some (a, b) => cases hl
    | some (a, b), none => cases hl
    | some (a, b), some (c, d) =>
      obtain ⟨ha, hb⟩ : a = c ∧ b = d := by simpa [selectEnd] using hl
      rw [ha, hb]
  match order, order' with
  | none, none => exact ⟨rfl, hlimit h⟩
  | none, some t => rcases limit with - | ⟨a, b⟩ <;> cases h
  | some t, none => rcases limit' with - | ⟨a, b⟩ <;> cases h
  | some t, some t' =>
    obtain rfl := Token.verbatim.inj (List.cons.inj h).1
    exact ⟨rfl, hlimit (List.cons.inj h).2⟩

theorem head_selectEnd (order : Option T) (limit : Option (Nat × Nat)) :
    (selectEnd order limit : List (Token F O V T)).head? ≠ some (.word .and) := by
  rcases order with - | t <;> rcases limit with - | ⟨a, b⟩ <;> exact nofun

theorem Statement.tokens_injective (s s' : Statement F O V T) (h : s.tokens = s'.tokens) : s = s' := by
  have hfrom : ∀ l : List (Token F O V T), (.word .from :: l : List (Token F O V T)).head? ≠ some (.word .comma) := by
    intro l h
    cases h
  have hnil : ∀ w : Word, ([] : List (Token F O V T)).head? ≠ some (.word w) := fun _ => nofun
  have hwhere : ∀ (c : Where F V) (w : Word), w ≠ .where → (c.tokens : List (Token F O V T)).head? ≠ some (.word w) := by
    intro c w hw h
    exact hw (Token.word.inj (Option.some.inj h)).symm
  cases s with
  | update first rest cond =>
    cases s' with
    | update first' rest' cond' =>
      obtain ⟨rfl, hrest⟩ := Assignment.tokens_inj _ _ _ _ (List.cons.inj (List.cons.inj (List.cons.inj h).2).2).2
      obtain ⟨rfl, hcond⟩ := commas_inj Assignment.tokens_inj _ _ (hwhere _ .comma nofun) (hwhere _ .comma nofun) hrest
      rw [← List.append_nil cond.tokens, ← List.append_nil cond'.tokens] at hcond
      obtain ⟨rfl, -⟩ := Where.tokens_inj _ _ (hnil _) (hnil _) hcond
      rfl
    | delete cond' => cases h
    | replace first' rest' => cases h
    | select found columns cond' order limit => cases found <;> cases h
  | delete cond =>
    cases s' with
    | update first' rest' cond' => cases h
    | delete cond' =>
      have hcond := (List.cons.inj (List.cons.inj h).2).2
      rw [← List.append_nil cond.tokens, ← List.append_nil cond'.tokens] at hcond
      obtain ⟨rfl, -⟩ := Where.tokens_inj _ _ (hnil _) (hnil _) hcond
      rfl
    | replace first' rest' => cases h
    | select found columns cond' order limit => cases found <;> cases h
  | replace first rest =>
    cases s' with
    | update first' rest' cond' => cases h
    | delete cond' => cases h
    | replace first' rest' =>
      obtain ⟨rfl, hrest⟩ := Assignment.tokens_inj _ _ _ _ (List.cons.inj (List.cons.inj (List.cons.inj h).2).2).2
      rw [← List.append_nil (commas _ _ rest), ← List.append_nil (commas _ _ rest')] at hrest
      obtain ⟨rfl, -⟩ := commas_inj Assignment.tokens_inj _ _ (hnil _) (hnil _) hrest
      rfl
    | select found columns cond' order limit => cases found <;> cases h
  | select found columns cond order limit =>
    cases s' with
    | update first' rest' cond' => cases found <;> cases h
    | delete cond' => cases found <;> cases h
    | replace first' rest' => cases found <;> cases h
    | select found' columns' cond' order' limit' =>
      have hfound : found = found' := by
        have hhead := (List.cons.inj h).1
        cases found <;> cases found' <;> first | rfl | cases hhead
      obtain ⟨rfl, hrest⟩ := Columns.tokens_inj _ _ (hfrom _) (hfrom _) (List.cons.inj h).2
      have hcond := (List.cons.inj (List.cons.inj hrest).2).2
      obtain ⟨rfl, hend⟩ := Where.tokens_inj _ _ (head_selectEnd _ _) (head_selectEnd _ _) hcond
      obtain ⟨rfl, rfl⟩ := selectEnd_inj hend
      rw [hfound]

end Reading

/-! ## What an `UPDATE` does to a row -/

section Rows

variable {F O V D : Type}

/-- How a field takes a value, and one that is combined with its own; it may refuse. -/
structure Store (F O V D : Type) where
  put : F → V → Option D
  combine : F → O → D → V → Option D

/-- What the first store takes, the second takes as it does. -/
def Store.Le (c c' : Store F O V D) : Prop :=
  (∀ f v d, c.put f v = some d → c'.put f v = some d) ∧
    ∀ f o d v d', c.combine f o d v = some d' → c'.combine f o d v = some d'

def Assignment.result (c : Store F O V D) (a : Assignment F O V) (d : D) : Option D :=
  match a.op with
  | none => c.put a.field a.value
  | some o => c.combine a.field o d a.value

theorem Store.Le.refl (c : Store F O V D) : c.Le c := ⟨fun _ _ _ h => h, fun _ _ _ _ _ h => h⟩

theorem Assignment.result_mono {c c' : Store F O V D} (hle : c.Le c') {a : Assignment F O V} {d d' : D}
    (h : a.result c d = some d') : a.result c' d = some d' := by
  unfold Assignment.result at *
  cases hop : a.op with
  | none =>
    rw [hop] at h
    exact hle.1 _ _ _ h
  | some o =>
    rw [hop] at h
    exact hle.2 _ _ _ _ _ h

variable [DecidableEq F]

def Assignment.run (c : Store F O V D) (a : Assignment F O V) (r : F → D) : Option (F → D) :=
  (a.result c (r a.field)).map (Function.update r a.field)

/-- The assignments of an `UPDATE`, one after another. -/
def runAll (c : Store F O V D) : List (Assignment F O V) → (F → D) → Option (F → D)
  | [], r => some r
  | a :: as, r => (a.run c r).bind (runAll c as)

variable {c c' : Store F O V D}

theorem runAll_cons {a : Assignment F O V} {as : List (Assignment F O V)} {r r' : F → D} :
    runAll c (a :: as) r = some r' ↔ ∃ d, a.result c (r a.field) = some d ∧ runAll c as (Function.update r a.field d) = some r' := by
  rw [runAll]
  unfold Assignment.run
  constructor
  · intro h
    obtain ⟨t, ht, h⟩ := Option.bind_eq_some_iff.mp h
    obtain ⟨d, hd, rfl⟩ := Option.map_eq_some_iff.mp ht
    exact ⟨d, hd, h⟩
  · rintro ⟨d, hd, h⟩
    rw [hd]
    exact h

theorem runAll_mono (hle : c.Le c') : ∀ (as : List (Assignment F O V)) {r r' : F → D}, runAll c as r = some r' →
    runAll c' as r = some r'
  | [], _, _, h => h
  | a :: as, r, r', h => by
    obtain ⟨d, hd, h⟩ := runAll_cons.mp h
    exact runAll_cons.mpr ⟨d, a.result_mono hle hd, runAll_mono hle as h⟩

theorem runAll_other {f : F} : ∀ (as : List (Assignment F O V)) {r r' : F → D}, (∀ a ∈ as, a.field ≠ f) →
    runAll c as r = some r' → r' f = r f
  | [], r, r', _, h => by rw [Option.some.inj h]
  | a :: as, r, r', hf, h => by
    obtain ⟨d, hd, h⟩ := runAll_cons.mp h
    rw [runAll_other as (fun b hb => hf b (List.mem_cons_of_mem _ hb)) h]
    exact Function.update_of_ne (Ne.symm (hf a List.mem_cons_self)) _ _

theorem runAll_nodup : ∀ (as : List (Assignment F O V)) {r r' : F → D}, (as.map Assignment.field).Nodup →
    runAll c as r = some r' → ∀ a ∈ as, a.result c (r a.field) = some (r' a.field)
  | [], _, _, _, _ => nofun
  | a :: as, r, r', hnd, h => by
    obtain ⟨d, hd, h⟩ := runAll_cons.mp h
    rw [List.map_cons, List.nodup_cons] at hnd
    have hne : ∀ b ∈ as, b.field ≠ a.field := fun b hb he => hnd.1 (he ▸ List.mem_map_of_mem hb)
    intro b hb
    rcases List.mem_cons.mp hb with rfl | hb
    · rw [hd, runAll_other as hne h, Function.update_self]
    · rw [← runAll_nodup as hnd.2 h b hb, Function.update_of_ne (hne b hb)]

end Rows

end Sql
