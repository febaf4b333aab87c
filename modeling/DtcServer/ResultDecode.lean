import DtcServer.RequestDecode
/-!
# ResultDecode — the rows of a result section (`CResultSet::DecodeRow`)

`CTask::DecodeResultSet` looks at the number of rows and at the field ids of the section; the values are read row by row when
the rows are fetched.
-/
namespace Dtc

open Decoding

def ecNoMoreData : Int := 2022

/-- A `CResultSet` whose rows are being decoded into `row`, a row of the table. -/
structure ResultRows where
  set : CResultSet
  table : TableDef
  err : Int := 0
  curr : List UInt8
  rowno : Nat := 0
  row : Nat → DataValue

namespace ResultRows

/-- `SetValueData` of an accepted section; the row is zeroed. -/
def start (set : CResultSet) (table : TableDef) : ResultRows where
  set := set
  table := table
  curr := set.rowData
  row := fun _ => .unset

section DecodeRow

variable (scanFloat : List UInt8 → Option (BitVec 64))

/-- `row[id]` and `row.FieldType(id)`: the fields of the table are those up to `NumFields`. -/
def rowField (table : TableDef) (id : UInt8) : Decoding (Int × (Nat → DataValue)) FieldType :=
  if table.numFields < id.toNat then .error .noEntry else .ok (table.fieldType id.toNat)

def store (row : Nat → DataValue) (id : UInt8) (type : FieldType) (val : DataValue) : Nat → DataValue :=
  if type = .none then row else Function.update row id.toNat val

/-- The loop of `DecodeRow`; an error leaves the values in front of it in the row. -/
def fieldsLoop (table : TableDef) : List UInt8 → List UInt8 → (Nat → DataValue) →
    Decoding (Int × (Nat → DataValue)) (List UInt8 × (Nat → DataValue))
  | [], curr, row => pure (curr, row)
  | id :: ids, curr, row => do
    let type ← rowField table id
    let (val, curr) ← (decodeDataValue scanFloat curr type.code).leaving row
    fieldsLoop table ids curr (store row id type val)

def decodeRow (r : ResultRows) : Decoding Empty (ResultRows × Int) :=
  if r.err ≠ 0 then pure (r, r.err)
  else if r.rowno = r.set.numRows then pure (r, -ecNoMoreData)
  else
    match fieldsLoop scanFloat r.table r.set.ids r.curr r.row with
    | .ok (curr, row) => pure ({ r with curr := curr, row := row, rowno := r.rowno + 1 }, 0)
    -- `curr` is not looked at again before it is set anew
    | .error (.error (err, row)) => pure ({ r with err := err, row := row }, err)
    | .error .outside => .error .outside
    | .error .noEntry => .error .noEntry

def rewind (r : ResultRows) : ResultRows := { r with err := 0, curr := r.set.rowData, rowno := 0 }

/-- The calls on an accepted result set. -/
inductive Call where
  | decodeRow | rewind
  deriving DecidableEq, Repr

def calls : List Call → ResultRows → Decoding Empty (ResultRows × List Int)
  | [], r => pure (r, [])
  | .rewind :: cs, r => do
    let (r, codes) ← calls cs r.rewind
    pure (r, 0 :: codes)
  | .decodeRow :: cs, r => do
    let (r, code) ← decodeRow scanFloat r
    let (r, codes) ← calls cs r
    pure (r, code :: codes)

end DecodeRow

/-! ## The decoder stays inside the section -/

section Safe

variable (scanFloat : List UInt8 → Option (BitVec 64))

/-- The values of fields with these types can be read, one after another. -/
def Readable : List FieldType → List UInt8 → Prop
  | [], _ => True
  | type :: types, bin => ∃ val rest, decodeDataValue scanFloat bin type.code = .ok (val, rest) ∧ Readable types rest

/-- **Every later call stays in its bounds**: the rows are decoded inside the section, as many as were announced at most
and each of a byte for every field at least, into fields of the table only. -/
def RowsSafe (bin : List UInt8) (set : CResultSet) (table : TableDef) : Prop :=
  ∀ cs, ∃ r codes, calls scanFloat cs (start set table) = .ok (r, codes) ∧ r.curr <:+ bin ∧
    r.rowno ≤ set.numRows ∧ r.rowno * set.ids.length + r.curr.length ≤ bin.length ∧
    ∀ n, table.numFields < n → r.row n = .unset

/-- **The table has the fields that are stored**: every id is a field of the table, unless there is no row, or the values
in front of it cannot be read. -/
def FieldsStored (set : CResultSet) (table : TableDef) : Prop :=
  ∀ pre id post, set.ids = pre ++ id :: post → (∀ i ∈ pre, i.toNat ≤ table.numFields) → table.numFields < id.toNat →
    set.numRows = 0 ∨ ¬ Readable scanFloat (pre.map (fun i => table.fieldType i.toNat)) set.rowData

variable {scanFloat} {table : TableDef} {set : CResultSet} {bin : List UInt8} {r : ResultRows}

theorem store_outside {row : Nat → DataValue} {id : UInt8} {type : FieldType} {val : DataValue}
    (hid : id.toNat ≤ table.numFields) {n : Nat} (hn : table.numFields < n) : store row id type val n = row n := by
  unfold store
  split
  · rfl
  · exact Function.update_of_ne (by omega) _ _

theorem fieldsLoop_append (ids : List UInt8) : ∀ (pre : List UInt8) (curr : List UInt8) (row : Nat → DataValue),
    (∀ i ∈ pre, i.toNat ≤ table.numFields) →
    (∃ curr' row', fieldsLoop scanFloat table (pre ++ ids) curr row = fieldsLoop scanFloat table ids curr' row' ∧
      Readable scanFloat (pre.map (fun i => table.fieldType i.toNat)) curr ∧ curr' <:+ curr ∧
      pre.length + curr'.length ≤ curr.length ∧ ∀ n, table.numFields < n → row' n = row n) ∨
    ∃ e row', fieldsLoop scanFloat table (pre ++ ids) curr row = fail (e, row') ∧ e ≠ 0 ∧
      ¬ Readable scanFloat (pre.map (fun i => table.fieldType i.toNat)) curr ∧
      ∀ n, table.numFields < n → row' n = row n
  | [], curr, row, _ => .inl ⟨curr, row, rfl, trivial, List.suffix_refl curr, Nat.le_of_eq (Nat.zero_add _), fun _ _ => rfl⟩
  | id :: pre, curr, row, h => by
    have hid : id.toNat ≤ table.numFields := h id List.mem_cons_self
    have hfield : rowField table id = .ok (table.fieldType id.toNat) := if_neg (Nat.not_lt.mpr hid)
    rw [List.cons_append, fieldsLoop, hfield, ok_bind]
    rcases (@decodeDataValue_ends curr scanFloat (table.fieldType id.toNat).code).ok_or_fail with
      ⟨⟨val, rest⟩, hval, hsuffix, hshort⟩ | ⟨e, hval, he⟩
    · rw [hval]
      rcases fieldsLoop_append ids pre rest (store row id (table.fieldType id.toNat) val)
          (fun i hi => h i (List.mem_cons_of_mem _ hi)) with
        ⟨curr', row', hloop, hread, hsuffix', hlen, hrow⟩ | ⟨e, row', hloop, he, hread, hrow⟩
      · refine .inl ⟨curr', row', hloop, ⟨val, rest, hval, hread⟩, hsuffix'.trans hsuffix, ?_, fun n hn => ?_⟩
        · rw [List.length_cons]
          dsimp only at hshort
          omega
        · exact (hrow n hn).trans (store_outside hid hn)
      · refine .inr ⟨e, row', hloop, he, ?_, fun n hn => (hrow n hn).trans (store_outside hid hn)⟩
        rintro ⟨val', rest', hval', hread'⟩
        rw [hval] at hval'
        obtain ⟨rfl, rfl⟩ := Prod.mk.inj (Except.ok.inj hval')
        exact hread hread'
    · rw [hval]
      refine .inr ⟨e, row, rfl, he, ?_, fun _ _ => rfl⟩
      rintro ⟨val', rest', hval', -⟩
      rw [hval] at hval'
      cases hval'

theorem exists_first_foreign {p : UInt8 → Prop} [DecidablePred p] : ∀ {ids : List UInt8}, ¬ (∀ i ∈ ids, p i) →
    ∃ pre id post, ids = pre ++ id :: post ∧ (∀ i ∈ pre, p i) ∧ ¬ p id
  | [], h => absurd (fun _ hi => absurd hi List.not_mem_nil) h
  | id :: ids, h => by
    by_cases hp : p id
    · obtain ⟨pre, id', post, rfl, hpre, hid'⟩ :=
        exists_first_foreign (fun hall => h (List.forall_mem_cons.mpr ⟨hp, hall⟩))
      exact ⟨id :: pre, id', post, rfl, List.forall_mem_cons.mpr ⟨hp, hpre⟩, hid'⟩
    · exact ⟨[], id, ids, rfl, fun _ hi => absurd hi List.not_mem_nil, hp⟩

/-- What holds between the calls: the table has all fields, or no row was decoded. -/
structure Inv (set : CResultSet) (table : TableDef) (r : ResultRows) : Prop where
  set_eq : r.set = set
  table_eq : r.table = table
  suffix : r.curr <:+ set.rowData
  rows : r.rowno ≤ set.numRows
  room : r.rowno * set.ids.length + r.curr.length ≤ set.rowData.length
  outside : ∀ n, table.numFields < n → r.row n = .unset
  own : (∀ i ∈ set.ids, i.toNat ≤ table.numFields) ∨ r.rowno = 0 ∧ (r.err ≠ 0 ∨ r.curr = set.rowData)

theorem inv_start : Inv set table (start set table) where
  set_eq := rfl
  table_eq := rfl
  suffix := List.suffix_refl _
  rows := Nat.zero_le _
  room := by simp [start]
  outside := fun _ _ => rfl
  own := .inr ⟨rfl, .inr rfl⟩

theorem Inv.rewind (h : Inv set table r) : Inv set table r.rewind where
  set_eq := h.set_eq
  table_eq := h.table_eq
  suffix := h.set_eq ▸ List.suffix_refl _
  rows := Nat.zero_le _
  room := by simp [ResultRows.rewind, h.set_eq]
  outside := h.outside
  own := .inr ⟨rfl, .inr (congrArg CResultSet.rowData h.set_eq)⟩

theorem Inv.failed (h : Inv set table r) {e : Int} {row : Nat → DataValue} (he : e ≠ 0)
    (hrow : ∀ n, table.numFields < n → row n = r.row n) : Inv set table { r with err := e, row := row } where
  set_eq := h.set_eq
  table_eq := h.table_eq
  suffix := h.suffix
  rows := h.rows
  room := h.room
  outside n hn := (hrow n hn).trans (h.outside n hn)
  own := h.own.imp_right (fun ho => ⟨ho.1, .inl he⟩)

theorem Inv.decodeRow (h : Inv set table r) (hstored : FieldsStored scanFloat set table) :
    ∃ r' code, r.decodeRow scanFloat = .ok (r', code) ∧ Inv set table r' := by
  obtain ⟨rfl, rfl⟩ := And.intro h.set_eq h.table_eq
  unfold ResultRows.decodeRow
  split
  · exact ⟨r, _, rfl, h⟩
  next herr =>
  rw [not_not] at herr
  split
  · exact ⟨r, _, rfl, h⟩
  next hmore =>
  by_cases hall : ∀ i ∈ r.set.ids, i.toNat ≤ r.table.numFields
  · have hloop := @fieldsLoop_append scanFloat r.table [] r.set.ids r.curr r.row hall
    rw [List.append_nil] at hloop
    rcases hloop with ⟨curr', row', hloop, -, hsuffix, hlen, hrow⟩ | ⟨e, row', hloop, he, -, hrow⟩
    · rw [hloop]
      refine ⟨_, _, rfl, rfl, rfl, hsuffix.trans h.suffix, ?_, ?_, fun n hn => (hrow n hn).trans (h.outside n hn),
        .inl hall⟩
      · have := h.rows
        dsimp only
        omega
      · have := h.room
        dsimp only
        rw [Nat.add_one_mul]
        omega
    · rw [hloop]
      exact ⟨_, _, rfl, h.failed he hrow⟩
  · -- the first row: the values in front of the foreign id cannot be read
    obtain ⟨hrow0, hcurr⟩ := h.own.resolve_left hall
    have hcurr : r.curr = r.set.rowData := hcurr.resolve_left (not_not.mpr herr)
    obtain ⟨pre, id, post, hids, hpre, hid⟩ := exists_first_foreign hall
    have hnot := (hstored pre id post hids hpre (Nat.not_le.mp hid)).resolve_left (fun h0 => hmore (hrow0.trans h0.symm))
    rw [hids]
    rcases @fieldsLoop_append scanFloat r.table (id :: post) pre r.curr r.row hpre with
      ⟨_, _, _, hread, _⟩ | ⟨e, row', hloop, he, -, hrow⟩
    · exact absurd (hcurr ▸ hread) hnot
    · rw [hloop]
      exact ⟨_, _, rfl, h.failed he hrow⟩

theorem Inv.calls (hstored : FieldsStored scanFloat set table) : ∀ (cs : List Call) {r : ResultRows}, Inv set table r →
    ∃ r' codes, ResultRows.calls scanFloat cs r = .ok (r', codes) ∧ Inv set table r'
  | [], r, h => ⟨r, [], rfl, h⟩
  | .rewind :: cs, r, h => by
    obtain ⟨r', codes, hcalls, h'⟩ := Inv.calls hstored cs h.rewind
    refine ⟨r', 0 :: codes, ?_, h'⟩
    rw [ResultRows.calls, hcalls]
    rfl
  | .decodeRow :: cs, r, h => by
    obtain ⟨r₁, code, hrow, h₁⟩ := h.decodeRow hstored
    obtain ⟨r', codes, hcalls, h'⟩ := Inv.calls hstored cs h₁
    refine ⟨r', code :: codes, ?_, h'⟩
    rw [ResultRows.calls, hrow, ok_bind]
    dsimp only
    rw [hcalls]
    rfl

theorem fieldsStored_of_safe (h : RowsSafe scanFloat bin set table) : FieldsStored scanFloat set table := by
  intro pre id post hids hpre hid
  by_contra hcon
  rw [not_or, not_not] at hcon
  obtain ⟨hrows, hread⟩ := hcon
  obtain ⟨r, codes, hcalls, -⟩ := h [.decodeRow]
  have hloop : fieldsLoop scanFloat table set.ids set.rowData (fun _ => .unset) = .error .noEntry := by
    rw [hids]
    rcases @fieldsLoop_append scanFloat table (id :: post) pre set.rowData (fun _ => .unset) hpre with
      ⟨curr', row', hloop, -⟩ | ⟨_, _, _, _, hnot, _⟩
    · rw [hloop, fieldsLoop, rowField, if_pos hid]
      rfl
    · exact absurd hread hnot
  have hrow : (start set table).decodeRow scanFloat = .error .noEntry := by
    unfold ResultRows.decodeRow
    rw [if_neg (fun h0 => h0 rfl), if_neg (fun h0 => hrows h0.symm)]
    dsimp only [start]
    rw [hloop]
  rw [ResultRows.calls, hrow] at hcalls
  cases hcalls

end Safe

end ResultRows

open ResultRows

/-- **The rows of an accepted section are decoded inside their bounds exactly when the table has the fields that are
stored.** -/
theorem decodeRow_safe_iff {scanFloat : List UInt8 → Option (BitVec 64)} {bin : List UInt8} {set : CResultSet}
    (h : DecodeTask.decodeResultSet bin = .ok set) (table : TableDef) :
    RowsSafe scanFloat bin set table ↔ FieldsStored scanFloat set table := by
  constructor
  · exact fieldsStored_of_safe
  · intro hstored cs
    have hsuffix : set.rowData <:+ bin := by
      have hends := DecodeTask.decodeResultSet_ends bin
      rw [h] at hends
      exact hends
    obtain ⟨r, codes, hcalls, hinv⟩ := Inv.calls hstored cs inv_start
    exact ⟨r, codes, hcalls, hinv.suffix.trans hsuffix, hinv.rows, Nat.le_trans hinv.room hsuffix.length_le, hinv.outside⟩

theorem decodeRow_safe_iff_cutOff :
    DecodeTask.decodeResultSet [2, 2, 0, 1, 1, 7, 1, 8, 1] = .ok ⟨[0, 1], 2, [1, 7, 1, 8, 1]⟩ ∧
      RowsSafe (fun _ => none) [2, 2, 0, 1, 1, 7, 1, 8, 1] ⟨[0, 1], 2, [1, 7, 1, 8, 1]⟩ twoFields := by
  have hset : DecodeTask.decodeResultSet [2, 2, 0, 1, 1, 7, 1, 8, 1] = .ok ⟨[0, 1], 2, [1, 7, 1, 8, 1]⟩ := by decide
  refine ⟨hset, (decodeRow_safe_iff hset twoFields).mpr ?_⟩
  intro pre id post hids _ hid
  have hall : ∀ i ∈ ([0, 1] : List UInt8), i.toNat ≤ twoFields.numFields := by decide +kernel
  have hids : [0, 1] = pre ++ id :: post := hids
  have hmem : id ∈ ([0, 1] : List UInt8) := by
    rw [hids]
    exact List.mem_append_right pre List.mem_cons_self
  exact absurd (hall id hmem) (Nat.not_le.mpr hid)

/-- An accepted section of a field that the table does not have: the first row is stored behind the row buffer. -/
theorem decodeRow_foreignField :
    DecodeTask.decodeResultSet [1, 1, 9, 1, 7] = .ok ⟨[9], 1, [1, 7]⟩ ∧
      (start ⟨[9], 1, [1, 7]⟩ twoFields).decodeRow (fun _ => none) = .error .noEntry ∧
      ¬ RowsSafe (fun _ => none) [1, 1, 9, 1, 7] ⟨[9], 1, [1, 7]⟩ twoFields := by
  have hrow : (start ⟨[9], 1, [1, 7]⟩ twoFields).decodeRow (fun _ => none) = .error .noEntry := rfl
  refine ⟨by decide, hrow, fun hsafe => ?_⟩
  obtain ⟨r, codes, hcalls, -⟩ := hsafe [.decodeRow]
  rw [ResultRows.calls, hrow] at hcalls
  cases hcalls

end Dtc
