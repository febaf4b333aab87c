import DtcServer.RawDataReplace
import DtcServer.UpdateFailure
/-!
# RowReplacing — the rows `ReplaceRows` leaves

The first row that conflicts is overwritten in place, the others that conflict are deleted, and the new row is appended when
none does.
-/
namespace Dtc

open Bytes

theorem CTableDefinition.mystrcmp_self : ∀ s : List UInt8, CTableDefinition.mystrcmp s s = true
  | [] => rfl
  | c :: s => by
    rw [CTableDefinition.mystrcmp, mystrcmp_self s, beq_self_eq_true, Bool.or_true]
    rfl

namespace RowProcess

open CTableDefinition (mystrcmp_self)

variable (p : RowProcess) (new : RowValue)

def sameValue (j : Nat) (v w : FieldVal) : Bool :=
  match p.tdef.fieldType j with
  | .signed | .unsigned | .float => v.word = w.word
  | .string => v.bin.length = w.bin.length ∧ CTableDefinition.mystrcmp v.bin w.bin = true
  | .binary | .none => v.bin = w.bin

/-- **A stored row agrees with the new one on the unique fields.**  The rows of a node have one key, and one default for
what is not stored. -/
def agrees (r : UInt8 × RowValue) : Bool :=
  p.keysAsUniqField = 1 || p.uniqFields.all (fun j =>
    !decide (j ∈ p.storedIds) || p.sameValue j (p.narrow (p.tdef.field j) (new j)) (p.narrow (p.tdef.field j) (r.2 j)))

/-- The loop finds a conflict: outside the stored fields the row variable is all zeros. -/
def isConflict (r : UInt8 × RowValue) : Bool := p.conflicts new (p.seen (fun _ => {}) r)

/-- **The new row is recognised**: read back from a node, it conflicts with itself. -/
def Recognised : Prop := p.isConflict new (0, new) = true

instance : Decidable (p.Recognised new) := inferInstanceAs (Decidable (_ = _))

/-- The rows the loop leaves: the first conflict becomes the new row, the others go. -/
def placedRows (async : Bool) : List (UInt8 × RowValue) → List (UInt8 × RowValue)
  | [] => []
  | r :: rows =>
    if p.isConflict new r then
      (if async then operUpdate else r.1, new) :: rows.filter (fun r => !p.isConflict new r)
    else r :: placedRows async rows

/-- `ReplaceRows` as an operation on lists. -/
def replacedRows (async : Bool) (rows : List (UInt8 × RowValue)) : List (UInt8 × RowValue) :=
  if rows.any (p.isConflict new) then p.placedRows new async rows
  else rows ++ [(RawData.insertFlag async, new)]

def replacedCount (rows : List (UInt8 × RowValue)) : Nat :=
  if rows.any (p.isConflict new) then rows.countP (p.isConflict new) + 1 else 1

/-- **The rows are replaced**: one row agrees with the new one, and it is the new one; the others are as they were; the
rows that had to give way and the new one are counted. -/
structure IsReplacement (rows out : List (UInt8 × RowValue)) (count : Nat) : Prop where
  one : (out.filter (p.agrees new)).map (fun r => (p.storedRow r).2) = [(p.storedRow (0, new)).2]
  others : (out.filter (fun r => !p.agrees new r)).map p.storedRow =
    (rows.filter (fun r => !p.agrees new r)).map p.storedRow
  count : count = if rows.any (p.agrees new) then rows.countP (p.agrees new) + 1 else 1

def NodeRows (b : RawData) (rows : List (UInt8 × RowValue)) : Prop :=
  if b.handle then b.Holds p.toRowLayout rows else rows = []

/-! ## Conflict and agreement -/

/-- `Compare` of one field. -/
def comparesEqual (j : Nat) (v w : FieldVal) : Bool :=
  match p.tdef.fieldType j with
  | .signed | .unsigned => v.word = w.word
  | .float | .none => false
  | .string => v.bin.length = w.bin.length ∧ CTableDefinition.mystrcmp v.bin w.bin = true
  | .binary => v.bin = w.bin

theorem compareFields_iff (row old : RowValue) : ∀ js : List Nat,
    p.compareFields row old js = 0 ↔ ∀ j ∈ js, p.comparesEqual j (row j) (old j) = true
  | [] => by simp [compareFields]
  | j :: js => by
    rw [List.forall_mem_cons, ← compareFields_iff row old js, compareFields]
    unfold comparesEqual
    cases p.tdef.fieldType j with
    | none | float => simp
    | signed | unsigned =>
      by_cases hw : (row j).word = (old j).word
      · simp [hw]
      · simp [hw]
    | string =>
      by_cases hs : (row j).bin.length = (old j).bin.length ∧ CTableDefinition.mystrcmp (row j).bin (old j).bin = true
      · simp [hs]
      · simp only [hs]
        simp
    | binary =>
      by_cases hb : (row j).bin = (old j).bin
      · simp [hb]
      · simp [hb]

variable {p new}

theorem narrow_word {f : FieldDef} {v w : FieldVal} (hf : f.fieldType = .signed ∨ f.fieldType = .unsigned)
    (h : v.word = (p.narrow f w).word) : p.narrow f v = p.narrow f w := by
  unfold RowLayout.narrow at h ⊢
  rcases hf with hf | hf
  all_goals rw [hf] at h ⊢
  all_goals dsimp only at h ⊢
  all_goals by_cases hsize : f.fieldSize > 4
  all_goals simp only [hsize, if_true, if_false] at h ⊢
  · rw [h]
  · rw [h]
    congr 2
    ext i hi
    simp [BitVec.getLsbD_signExtend, hi]
    omega
  · rw [h]
  · rw [h]
    congr 1
    bv_omega

theorem comparesEqual_stored {j : Nat} (v w : FieldVal) :
    p.comparesEqual j v (p.narrow (p.tdef.field j) w) = true ↔
      p.sameValue j (p.narrow (p.tdef.field j) v) (p.narrow (p.tdef.field j) w) = true ∧
        p.comparesEqual j v (p.narrow (p.tdef.field j) v) = true := by
  have hnum : p.tdef.fieldType j = .signed ∨ p.tdef.fieldType j = .unsigned →
      (v.word = (p.narrow (p.tdef.field j) w).word ↔
        (p.narrow (p.tdef.field j) v).word = (p.narrow (p.tdef.field j) w).word ∧
          v.word = (p.narrow (p.tdef.field j) v).word) := fun hf => by
    constructor
    · intro h
      have hn := narrow_word hf h
      rw [hn]
      exact ⟨rfl, h⟩
    · rintro ⟨h1, h2⟩
      exact h2.trans h1
  unfold comparesEqual sameValue
  cases hf : p.tdef.fieldType j with
  | none | float => simp
  | signed =>
    simp only [decide_eq_true_eq]
    exact hnum (.inl hf)
  | unsigned =>
    simp only [decide_eq_true_eq]
    exact hnum (.inr hf)
  | string =>
    have hbin : ∀ v : FieldVal, (p.narrow (p.tdef.field j) v).bin = v.bin := fun v => by
      have hft : (p.tdef.field j).fieldType = .string := hf
      simp [RowLayout.narrow, hft]
    simp [hbin, mystrcmp_self]
  | binary =>
    have hbin : ∀ v : FieldVal, (p.narrow (p.tdef.field j) v).bin = v.bin := fun v => by
      have hft : (p.tdef.field j).fieldType = .binary := hf
      simp [RowLayout.narrow, hft]
    simp [hbin]

theorem isConflict_iff (r : UInt8 × RowValue) :
    p.isConflict new r = true ↔ p.agrees new r = true ∧ p.Recognised new := by
  unfold Recognised isConflict conflicts agrees
  by_cases hk : p.keysAsUniqField = 1
  · simp [hk]
  · -- field by field
    have hfield : ∀ j, p.comparesEqual j (new j) (p.seen (fun _ => {}) r j) = true ↔
        (!decide (j ∈ p.storedIds) ||
          p.sameValue j (p.narrow (p.tdef.field j) (new j)) (p.narrow (p.tdef.field j) (r.2 j))) = true ∧
        p.comparesEqual j (new j) (p.seen (fun _ => {}) (0, new) j) = true := fun j => by
      by_cases hj : j ∈ p.storedIds
      · rw [seen_stored hj, seen_stored hj, comparesEqual_stored]
        simp [hj]
      · rw [seen_discarded hj, seen_discarded hj]
        simp [hj]
    simp only [hk, decide_false, Bool.false_or, decide_eq_true_eq, compareFields_iff, List.all_eq_true]
    constructor
    · intro h
      exact ⟨fun j hj => ((hfield j).mp (h j hj)).1, fun j hj => ((hfield j).mp (h j hj)).2⟩
    · rintro ⟨h1, h2⟩ j hj
      exact (hfield j).mpr ⟨h1 j hj, h2 j hj⟩

theorem agrees_self (flag : UInt8) : p.agrees new (flag, new) = true := by
  have hsame : ∀ (j : Nat) (v : FieldVal), p.sameValue j v v = true := fun j v => by
    unfold sameValue
    cases p.tdef.fieldType j <;> simp [mystrcmp_self]
  simp [agrees, hsame]

theorem agrees_congr {r r' : UInt8 × RowValue} (h : p.storedRow r = p.storedRow r') : p.agrees new r = p.agrees new r' := by
  have hvals : ∀ j ∈ p.storedIds, p.narrow (p.tdef.field j) (r.2 j) = p.narrow (p.tdef.field j) (r'.2 j) :=
    List.map_inj_left.mp (Prod.ext_iff.mp h).2
  unfold agrees
  congr 2
  funext j
  by_cases hj : j ∈ p.storedIds
  · rw [hvals j hj]
  · simp [hj]

theorem countP_agrees : ∀ {xs ys : List (UInt8 × RowValue)}, xs.map p.storedRow = ys.map p.storedRow →
    xs.countP (p.agrees new) = ys.countP (p.agrees new)
  | [], [], _ => rfl
  | [], _ :: _, h => by cases h
  | _ :: _, [], h => by cases h
  | x :: xs, y :: ys, h => by
    obtain ⟨hhead, htail⟩ := List.cons.inj h
    rw [List.countP_cons, List.countP_cons, countP_agrees htail, agrees_congr hhead]

/-! ## The rows that are left -/

theorem placedRows_none {async : Bool} : ∀ {rows : List (UInt8 × RowValue)}, rows.any (p.isConflict new) = false →
    p.placedRows new async rows = rows
  | [], _ => rfl
  | r :: rows, h => by
    rw [List.any_cons, Bool.or_eq_false_iff] at h
    rw [placedRows, h.1, if_neg Bool.false_ne_true, placedRows_none h.2]

theorem placedRows_append {async : Bool} (back : List (UInt8 × RowValue)) : ∀ done : List (UInt8 × RowValue),
    p.placedRows new async (done ++ back) =
      if done.any (p.isConflict new) then
        p.placedRows new async done ++ back.filter (fun r => !p.isConflict new r)
      else done ++ p.placedRows new async back
  | [] => rfl
  | r :: done => by
    rw [List.cons_append, placedRows, placedRows, List.any_cons]
    cases hr : p.isConflict new r with
    | true => simp
    | false =>
      rw [placedRows_append back done]
      simp only [Bool.false_eq_true, if_false, Bool.false_or]
      split <;> rfl

theorem placedRows_snoc {async : Bool} (done : List (UInt8 × RowValue)) (r : UInt8 × RowValue) :
    p.placedRows new async (done ++ [r]) = p.placedRows new async done ++
      if p.isConflict new r then
        if done.any (p.isConflict new) then [] else [(if async then operUpdate else r.1, new)]
      else [r] := by
  rw [placedRows_append]
  cases hany : done.any (p.isConflict new) with
  | true => cases hr : p.isConflict new r <;> simp [hr]
  | false =>
    rw [placedRows_none hany]
    cases hr : p.isConflict new r <;> simp [placedRows, hr]

/-! ## The loop -/

variable {async : Bool} {front back : List (UInt8 × RowValue)} {r : UInt8 × RowValue} {s : RowPass}

/-- The size `ReplaceCurRow` asks for, not yet cut to 32 bits. -/
def replaceRequest (p : RowProcess) (new : RowValue) (dataSize : Nat) (r : UInt8 × RowValue) : Nat :=
  dataSize + p.rowSize new + (if p.rowSize new ≤ p.rowSize r.2 then p.rowSize new else 0) - p.rowSize r.2

theorem replaceMatch_ok {calls : RowCalls} (h : s.raw.Holds p.toRowLayout (front ++ r :: back))
    (ho : s.raw.rowOffset = s.raw.dataStart + (p.encodeRows front).length)
    (hreq : s.count = 0 → replaceRequest p new s.raw.dataSize r < 2 ^ 32) (hone : s.count ≠ 1)
    (hr : (p.replaceMatch new async r.1 calls s).1 = 0) :
    (p.replaceMatch new async r.1 calls s).2.raw.Between p.toRowLayout
        (front ++ if s.count = 0 then [(if async then operUpdate else r.1, new)] else []) back ∧
      (p.replaceMatch new async r.1 calls s).2.row = s.row ∧
      (p.replaceMatch new async r.1 calls s).2.count = (if s.count = 0 then 2 else s.count + 1) ∧
      (p.replaceMatch new async r.1 calls s).2.rowsInc = s.rowsInc ∧
      (p.replaceMatch new async r.1 calls s).2.dirtyRowsInc =
        s.dirtyRowsInc - dirtyInc r.1 + (if async then 1 else 0) := by
  unfold replaceMatch at hr ⊢
  dsimp only at hr ⊢
  generalize (if s.count = 0 then p.logRow { s with row := new } async calls.copy else (0, s)) = g at hr ⊢
  by_cases hg : g.1 = 0
  · rw [if_neg (not_not.mpr hg)] at hr ⊢
    by_cases h0 : s.count = 0
    · rw [if_pos h0, if_pos h0]
      simp only [if_pos h0, if_true] at hr ⊢
      by_cases hret : (retried (s.raw.replaceCurRow p.toRowLayout new async calls.alloc calls.tmp) calls.purged
          (fun b => b.replaceCurRow p.toRowLayout new async calls.retryAlloc calls.retryTmp)).1 = 0
      · rw [if_neg (not_not.mpr hret)]
        exact ⟨(p.retried_replaceCurRow h ho (hreq h0) hret).1, rfl, rfl, rfl, rfl⟩
      · rw [if_pos hret] at hr
        cases hr
    · have h2 : ¬ s.count + 1 = 2 := by omega
      obtain ⟨hdel, hrows, hstart, -, hoff⟩ := h.deleteCurRow_ok ho
      have hretried : retried (s.raw.deleteCurRow p.toRowLayout) calls.purged
          (fun b => b.replaceCurRow p.toRowLayout new async calls.retryAlloc calls.retryTmp) =
            s.raw.deleteCurRow p.toRowLayout := by
        unfold retried
        rw [hdel, if_neg]
        rintro ⟨hno, -⟩
        exact absurd hno (by decide)
      rw [if_neg h0, if_neg h0]
      simp only [if_neg h2, hretried, hdel, ne_eq, not_true_eq_false, if_false]
      refine ⟨⟨?_, ?_⟩, trivial, trivial, trivial, trivial⟩
      · rw [List.append_nil]
        exact hrows
      · rw [List.append_nil, hoff, hstart]
        exact ho
  · rw [if_pos hg] at hr
    cases hr

/-- **Behind some rows**: they are what the list operation makes of them, the counts are theirs. -/
structure Replacing (p : RowProcess) (new : RowValue) (async : Bool) (dataSize : Nat)
    (done back : List (UInt8 × RowValue)) (s : RowPass) : Prop where
  between : s.raw.Between p.toRowLayout (p.placedRows new async done) back
  zeros : ∀ j, j ∉ p.storedIds → s.row j = {}
  count : s.count = if done.any (p.isConflict new) then done.countP (p.isConflict new) + 1 else 0
  rowsInc : s.rowsInc = 0
  dirtyRowsInc : s.dirtyRowsInc =
    ((done.filter (p.isConflict new)).map (fun r => (if async then 1 else 0) - dirtyInc r.1)).sum
  size : done.any (p.isConflict new) = false → s.raw.dataSize = dataSize
  fits : done.any (p.isConflict new) = false →
    ∀ r ∈ back.find? (p.isConflict new), replaceRequest p new dataSize r < 2 ^ 32

theorem seen_zeros {row : RowValue} (h : ∀ j, j ∉ p.storedIds → row j = {}) (r : UInt8 × RowValue) :
    p.seen row r = p.seen (fun _ => {}) r := by
  funext j
  by_cases hj : j ∈ p.storedIds
  · rw [seen_stored hj, seen_stored hj]
  · rw [seen_discarded hj, seen_discarded hj, h j hj]

theorem Replacing.step {dataSize : Nat} {done : List (UInt8 × RowValue)} {calls : RowCalls}
    (h : Replacing p new async dataSize done (r :: back) s) (hr : (p.replaceStep new async calls s).1 = 0) :
    Replacing p new async dataSize (done ++ [r]) back (p.replaceStep new async calls s).2 := by
  have hany : (done ++ [r]).any (p.isConflict new) = (done.any (p.isConflict new) || p.isConflict new r) := by simp
  have hseen := seen_zeros h.zeros r
  have hzero : ∀ j, j ∉ p.storedIds → p.seen (fun _ => {}) r j = {} := fun j hj => seen_discarded hj
  unfold replaceStep at hr ⊢
  rw [h.between.holds.decodeRow_eq h.between.offset false] at hr ⊢
  dsimp only [RowLayout.storedRow] at hr ⊢
  rw [p.assign_storedRow, hseen] at hr ⊢
  simp only [Bool.false_eq_true, if_false] at hr ⊢
  cases hc : p.isConflict new r with
  | true =>
    have hc' : p.conflicts new (p.seen (fun _ => {}) r) = true := hc
    rw [if_pos hc'] at hr ⊢
    have hzero_iff : s.count = 0 ↔ done.any (p.isConflict new) = false := by
      rw [h.count]
      cases done.any (p.isConflict new) <;> simp
    have hone : s.count ≠ 1 := by
      rw [h.count]
      cases hd : done.any (p.isConflict new) with
      | false => simp
      | true =>
        have hpos : 0 < done.countP (p.isConflict new) := List.countP_pos_iff.mpr (List.any_eq_true.mp hd)
        simp only [if_true]
        omega
    obtain ⟨h1, h2, h3, h4, h5⟩ := replaceMatch_ok (s := {
      raw := { s.raw with rowOffset := s.raw.offset, offset := s.raw.offset + p.rowSize r.2 }
      row := p.seen (fun _ => {}) r, affected := s.affected, rowsInc := s.rowsInc, dirtyRowsInc := s.dirtyRowsInc
      count := s.count }) (h.between.holds.setOffset s.raw.offset (s.raw.offset + p.rowSize r.2)) h.between.offset
      (fun h0 => by
        have hd := hzero_iff.mp h0
        rw [h.size hd]
        exact h.fits hd r (by rw [List.find?_cons_of_pos hc]; rfl)) hone hr
    have hnone : (done ++ [r]).any (p.isConflict new) ≠ false := by
      rw [hany, hc, Bool.or_true]
      exact Bool.noConfusion
    refine ⟨?_, fun j hj => by rw [h2]; exact hzero j hj, ?_, h4.trans h.rowsInc, ?_, fun hd => absurd hd hnone,
      fun hd => absurd hd hnone⟩
    · have hplaced : (if done.any (p.isConflict new) then [] else [(if async then operUpdate else r.1, new)]) =
          if s.count = 0 then [(if async then operUpdate else r.1, new)] else [] := by
        cases hd : done.any (p.isConflict new) with
        | true => rw [if_pos rfl, if_neg (fun h0 => by rw [hzero_iff.mp h0] at hd; cases hd)]
        | false => rw [if_neg Bool.false_ne_true, if_pos (hzero_iff.mpr hd)]
      rw [placedRows_snoc, hc, if_pos rfl, hplaced]
      exact h1
    · rw [h3, hany, hc, Bool.or_true, if_pos rfl, List.countP_append, List.countP_singleton, hc, if_pos rfl]
      dsimp only
      rw [h.count]
      cases hd : done.any (p.isConflict new) with
      | true => simp
      | false =>
        rw [List.countP_eq_zero.mpr (fun r hr => by simpa using List.any_eq_false.mp hd r hr)]
        simp
    · rw [h5]
      dsimp only
      rw [h.dirtyRowsInc, List.filter_append, List.map_append, List.sum_append, List.filter_cons_of_pos hc]
      simp
      omega
  | false =>
    have hc' : ¬ p.conflicts new (p.seen (fun _ => {}) r) = true := by
      rw [show p.conflicts new (p.seen (fun _ => {}) r) = false from hc]
      exact Bool.false_ne_true
    rw [if_neg hc']
    rw [hc, Bool.or_false] at hany
    refine ⟨?_, hzero, ?_, h.rowsInc, ?_, fun hd => h.size (hany ▸ hd), fun hd => ?_⟩
    · rw [placedRows_snoc, hc, if_neg Bool.false_ne_true]
      exact p.between_next h.between
    · rw [hany, List.countP_append, List.countP_singleton, hc, if_neg Bool.false_ne_true, Nat.add_zero]
      exact h.count
    · rw [List.filter_append, List.filter_cons_of_neg (by rw [hc]; exact Bool.false_ne_true), List.filter_nil,
        List.append_nil]
      exact h.dirtyRowsInc
    · have hfits := h.fits (hany ▸ hd)
      rwa [List.find?_cons_of_neg (by rw [hc]; exact Bool.false_ne_true)] at hfits

/-! ## `ReplaceRows` -/

variable {req : RowRequest} {key : PackedKey p.keySize} {b : RawData} {log setrows : Bool} {calls : ReplaceCalls}
  {rows : List (UInt8 × RowValue)}

theorem initData_ok (hkey : 16 + packedKeySize p.keySize key.bytes < 2 ^ 32) (hr : (p.initData key log calls).1 = 0) :
    (p.initData key log calls).2.raw.Between p.toRowLayout [] [] ∧ (p.initData key log calls).2.row = (fun _ => {}) ∧
      (p.initData key log calls).2.count = 0 ∧ (p.initData key log calls).2.rowsInc = 0 ∧
      (p.initData key log calls).2.dirtyRowsInc = 0 := by
  unfold initData at hr ⊢
  dsimp only at hr ⊢
  by_cases hi : (RawData.init p.toRowLayout key 0 calls.hour calls.init).1 = 0
  · obtain ⟨h1, h2, -⟩ := RawData.init_ok (by omega) hi
    have hfirst : (RawData.init p.toRowLayout key 0 calls.hour calls.init).2.Between p.toRowLayout [] [] := ⟨h1, h2⟩
    rw [if_neg (not_not.mpr hi)] at hr ⊢
    split at hr
    · rename_i hlog
      rw [if_pos hlog]
      split at hr
      · cases hr
      · rename_i ha
        rw [if_neg ha]
        exact ⟨hfirst, rfl, rfl, rfl, rfl⟩
    · rename_i hlog
      rw [if_neg hlog]
      exact ⟨hfirst, rfl, rfl, rfl, rfl⟩
  · rw [if_pos hi] at hr
    cases hr

theorem Replacing.start (hrows : p.NodeRows b rows) (hkey : 16 + packedKeySize p.keySize key.bytes < 2 ^ 32)
    (hfit : ∀ r ∈ rows.find? (p.isConflict new), replaceRequest p new b.dataSize r < 2 ^ 32)
    (hr : (if b.handle then p.attachData b log calls.toProcessCalls else p.initData key log calls).1 = 0) :
    ∃ dataSize, Replacing p new async dataSize [] rows
      (if b.handle then p.attachData b log calls.toProcessCalls else p.initData key log calls).2 := by
  unfold NodeRows at hrows
  by_cases hb : b.handle = true
  · rw [if_pos hb] at hrows hr ⊢
    obtain ⟨h1, h2, h3, h4⟩ := p.attachData_ok hrows hr
    obtain ⟨h5, h6⟩ := p.attachData_counts b log calls.toProcessCalls
    exact ⟨b.dataSize, h1, fun j _ => by rw [h2], h3, h5, h6, fun _ => h4, fun _ => hfit⟩
  · rw [if_neg hb] at hrows hr ⊢
    obtain ⟨h1, h2, h3, h4, h5⟩ := initData_ok hkey hr
    subst hrows
    exact ⟨_, h1, fun j _ => by rw [h2], h3, h4, h5, fun _ => rfl, fun _ r hr => by cases hr⟩

theorem replaceEnd_ok {dataSize : Nat} {calls : RowCalls} (h : Replacing p new async dataSize rows [] s)
    (hr : (p.replaceEnd new async calls s).1 = 0) :
    (p.replaceEnd new async calls s).2.raw.Holds p.toRowLayout (p.replacedRows new async rows) ∧
      (p.replaceEnd new async calls s).2.count = p.replacedCount new rows ∧
      (p.replaceEnd new async calls s).2.rowsInc = (if rows.any (p.isConflict new) then 0 else 1) ∧
      (p.replaceEnd new async calls s).2.dirtyRowsInc = if rows.any (p.isConflict new) then
        ((rows.filter (p.isConflict new)).map (fun r => (if async then 1 else 0) - dirtyInc r.1)).sum
        else if async then 1 else 0 := by
  have hholds := h.between.holds
  rw [List.append_nil] at hholds
  have hcount := h.count
  have hdirty := h.dirtyRowsInc
  unfold replaceEnd replacedRows replacedCount at *
  cases hany : rows.any (p.isConflict new) with
  | true =>
    rw [hany, if_pos rfl] at hcount
    rw [if_neg (by omega)]
    simp only [if_true]
    exact ⟨hholds, hcount, h.rowsInc, hdirty⟩
  | false =>
    rw [hany, if_neg Bool.false_ne_true] at hcount
    rw [if_pos hcount] at hr ⊢
    simp only [Bool.false_eq_true, if_false]
    dsimp only at hr ⊢
    by_cases hret : (retried (s.raw.insertRow p.toRowLayout new false async calls.alloc calls.tmp) calls.purged
        (fun b => b.insertRow p.toRowLayout new false async calls.retryAlloc calls.retryTmp)).1 = 0
    · have hrows := p.retried_insertRow hholds hret
      rw [if_neg Bool.false_ne_true, placedRows_none hany] at hrows
      have hnone : rows.filter (p.isConflict new) = [] :=
        List.filter_eq_nil_iff.mpr (fun r hr => by simpa using List.any_eq_false.mp hany r hr)
      rw [hnone, List.map_nil, List.sum_nil] at hdirty
      rw [if_neg (not_not.mpr hret)]
      refine ⟨hrows, rfl, ?_, ?_⟩
      · dsimp only
        rw [h.rowsInc]
        rfl
      · dsimp only
        rw [hdirty, Int.zero_add]
    · rw [if_pos hret] at hr
      cases hr

theorem replaceRows_ok (hrows : p.NodeRows b rows) (hkey : 16 + packedKeySize p.keySize key.bytes < 2 ^ 32)
    (hfit : ∀ r ∈ rows.find? (p.isConflict (req.updateRow p p.defaultRow)),
      replaceRequest p (req.updateRow p p.defaultRow) b.dataSize r < 2 ^ 32)
    (hr : (p.replaceRows req key b log async setrows calls).1 = 0) :
    (p.replaceRows req key b log async setrows calls).2.1.raw.Holds p.toRowLayout
        (p.replacedRows (req.updateRow p p.defaultRow) async rows) ∧
      (p.replaceRows req key b log async setrows calls).2.1.count =
        p.replacedCount (req.updateRow p p.defaultRow) rows ∧
      (p.replaceRows req key b log async setrows calls).2.1.rowsInc =
        (if rows.any (p.isConflict (req.updateRow p p.defaultRow)) then 0 else 1) ∧
      (p.replaceRows req key b log async setrows calls).2.1.dirtyRowsInc =
        if rows.any (p.isConflict (req.updateRow p p.defaultRow)) then
          ((rows.filter (p.isConflict (req.updateRow p p.defaultRow))).map
            (fun r => (if async then 1 else 0) - dirtyInc r.1)).sum
        else if async then 1 else 0 := by
  unfold replaceRows at hr ⊢
  generalize req.updateRow p p.defaultRow = new at *
  dsimp only at hr ⊢
  by_cases ha : (if b.handle then p.attachData b log calls.toProcessCalls else p.initData key log calls).1 = 0
  · obtain ⟨dataSize, hstart⟩ : ∃ dataSize, Replacing p new async dataSize [] rows _ :=
      Replacing.start hrows hkey hfit ha
    rw [if_neg (not_not.mpr ha)] at hr ⊢
    generalize (if b.handle then p.attachData b log calls.toProcessCalls else p.initData key log calls).2 = s at *
    have hcnt : s.raw.rowCnt = rows.length := hstart.between.holds.rowCount
    rw [hcnt] at hr ⊢
    by_cases h0 : (eachRow (p.replaceStep new async) calls.row rows.length 0 s).1 = 0
    · have hend := eachRow_inv (fun _ _ _ _ _ h h0 => Replacing.step h h0) rows [] 0 s hstart h0
      rw [List.nil_append] at hend
      rw [if_neg (not_not.mpr h0)] at hr ⊢
      by_cases he : (p.replaceEnd new async (calls.row rows.length)
          (eachRow (p.replaceStep new async) calls.row rows.length 0 s).2).1 = 0
      · rw [if_neg (not_not.mpr he)]
        obtain ⟨h1, h2, h3, h4⟩ := replaceEnd_ok hend he
        exact ⟨h1.touchHours _, h2, h3, h4⟩
      · rw [if_pos he] at hr
        exact absurd hr he
    · rw [if_pos h0] at hr
      exact absurd hr h0
  · rw [if_pos ha] at hr
    exact absurd hr ha

/-! ## When it is a replacement -/

theorem placedRows_filter (hself : p.Recognised new) : ∀ {rows : List (UInt8 × RowValue)},
    rows.any (p.isConflict new) = true →
      (∃ flag, (p.placedRows new async rows).filter (p.isConflict new) = [(flag, new)]) ∧
        (p.placedRows new async rows).filter (fun r => !p.isConflict new r) =
          rows.filter (fun r => !p.isConflict new r)
  | [], h => by cases h
  | r :: rows, h => by
    rw [placedRows]
    cases hr : p.isConflict new r with
    | true =>
      have hnew : ∀ flag, p.isConflict new (flag, new) = true := fun _ => hself
      refine ⟨⟨if async then operUpdate else r.1, ?_⟩, ?_⟩
      · rw [if_pos rfl, List.filter_cons_of_pos (hnew _), List.filter_filter]
        simp
      · rw [if_pos rfl, List.filter_cons_of_neg (by simp [hnew]), List.filter_cons_of_neg (by simp [hr]),
          List.filter_filter]
        simp
    | false =>
      rw [List.any_cons, hr, Bool.false_or] at h
      obtain ⟨⟨flag, h1⟩, h2⟩ := placedRows_filter hself h
      refine ⟨⟨flag, ?_⟩, ?_⟩
      · rw [if_neg Bool.false_ne_true, List.filter_cons_of_neg (by simp [hr])]
        exact h1
      · rw [if_neg Bool.false_ne_true, List.filter_cons_of_pos (by simp [hr]), List.filter_cons_of_pos (by simp [hr]), h2]

theorem isReplacement_append (hnone : rows.any (p.agrees new) = false) (flag : UInt8) :
    p.IsReplacement new rows (rows ++ [(flag, new)]) 1 := by
  have hself : p.agrees new (flag, new) = true := agrees_self flag
  have hfree : rows.filter (p.agrees new) = [] :=
    List.filter_eq_nil_iff.mpr (fun r hr => by simpa using List.any_eq_false.mp hnone r hr)
  refine ⟨?_, ?_, ?_⟩
  · rw [List.filter_append, hfree, List.nil_append, List.filter_cons_of_pos hself]
    rfl
  · rw [List.filter_append, List.filter_cons_of_neg (by simp [hself]), List.filter_nil, List.append_nil]
  · rw [hnone, if_neg Bool.false_ne_true]

theorem isReplacement_replacedRows (h : p.Recognised new ∨ rows.any (p.agrees new) = false) :
    p.IsReplacement new rows (p.replacedRows new async rows) (p.replacedCount new rows) := by
  unfold replacedRows replacedCount
  by_cases hself : p.Recognised new
  · -- conflicts are the rows that agree
    have hsame : p.isConflict new = p.agrees new := by
      funext r
      rw [Bool.eq_iff_iff, isConflict_iff, and_iff_left hself]
    cases hany : rows.any (p.agrees new) with
    | true =>
      obtain ⟨⟨flag, h1⟩, h2⟩ :
          (∃ flag, (p.placedRows new async rows).filter (p.isConflict new) = [(flag, new)]) ∧ _ :=
        placedRows_filter hself (hsame ▸ hany)
      rw [hsame] at h1 h2 ⊢
      rw [hany, if_pos rfl, if_pos rfl]
      refine ⟨?_, by rw [h2], by rw [hany, if_pos rfl]⟩
      rw [h1]
      rfl
    | false =>
      rw [hsame, hany, if_neg Bool.false_ne_true, if_neg Bool.false_ne_true]
      exact isReplacement_append hany _
  · have hany : rows.any (p.agrees new) = false := h.resolve_left hself
    have hno : rows.any (p.isConflict new) = false := List.any_eq_false.mpr fun r _ hc =>
      hself ((isConflict_iff r).mp hc).2
    rw [hno, if_neg Bool.false_ne_true, if_neg Bool.false_ne_true]
    exact isReplacement_append hany _

/-- **When `ReplaceRows` replaces**: a call that succeeds leaves one row with the new one's unique fields, the new one, and
counts what it did, if and only if the new row is recognised or no row agrees with it.  The size of the row that is
overwritten may not be cut to 32 bits. -/
theorem replaceRows_iff (req : RowRequest) (key : PackedKey p.keySize)
    (hrows : p.NodeRows b rows) (hkey : 16 + packedKeySize p.keySize key.bytes < 2 ^ 32)
    (hfit : ∀ r ∈ rows.find? (p.isConflict (req.updateRow p p.defaultRow)),
      replaceRequest p (req.updateRow p p.defaultRow) b.dataSize r < 2 ^ 32) (log async setrows : Bool)
    (calls : ReplaceCalls) (hr : (p.replaceRows req key b log async setrows calls).1 = 0) :
    (∃ out, (p.replaceRows req key b log async setrows calls).2.1.raw.Holds p.toRowLayout out ∧
        p.IsReplacement (req.updateRow p p.defaultRow) rows out
          (p.replaceRows req key b log async setrows calls).2.1.count) ↔
      p.Recognised (req.updateRow p p.defaultRow) ∨
        rows.any (p.agrees (req.updateRow p p.defaultRow)) = false := by
  obtain ⟨hout, hcount, -, -⟩ := replaceRows_ok hrows hkey hfit hr
  generalize req.updateRow p p.defaultRow = new at *
  constructor
  · rintro ⟨out, hout', h⟩
    by_contra hno
    obtain ⟨hself, hany⟩ := not_or.mp hno
    have hnone : rows.any (p.isConflict new) = false := List.any_eq_false.mpr fun r _ hc =>
      hself ((isConflict_iff r).mp hc).2
    -- the new row is appended behind one that agrees
    unfold replacedRows at hout
    rw [hnone, if_neg Bool.false_ne_true] at hout
    have hstored : out.map p.storedRow = (rows ++ [(RawData.insertFlag async, new)]).map p.storedRow :=
      Option.some.inj (hout'.decodedRows.symm.trans hout.decodedRows)
    have hone := congrArg List.length h.one
    rw [List.length_map, ← List.countP_eq_length_filter, countP_agrees hstored, List.countP_append, List.countP_singleton,
      agrees_self, if_pos rfl] at hone
    have hpos : 0 < rows.countP (p.agrees new) :=
      List.countP_pos_iff.mpr (List.any_eq_true.mp ((Bool.not_eq_false _).mp hany))
    rw [List.length_singleton] at hone
    omega
  · intro h
    refine ⟨_, hout, ?_⟩
    rw [hcount]
    exact isReplacement_replacedRows h

/-- A table with two numbers as key and one that is stored, all of them unique; the second has a default. -/
def uniqueTable (keyDefault : BitVec 64) : RowProcess where
  tdef := { fieldList := [⟨[107], .unsigned, 4, 0, false⟩, ⟨[108], .unsigned, 4, 4, false⟩, ⟨[97], .unsigned, 4, 0, false⟩]
            keyFields := 2
            keyFormat := 8 }
  keyIdx := 1
  keySize := 8
  toFloat := BitVec.setWidth 32
  toDouble := BitVec.setWidth 64
  defaultRow := fun j => if j = 1 then { word := keyDefault } else {}
  uniqFields := [0, 1, 2]
  keysAsUniqField := 2

def uniqueRow (n : BitVec 64) : RowValue
  | 2 => { word := n }
  | _ => {}

/-- The chunk of a node with the key (3, 5) and two rows. -/
def uniqueNode : RawData where
  handle := true
  content := rawHeader 34 2 [1, 0, 0, 0, 0, 0, 0, 3, 0, 0, 0, 5, 0, 0, 0] ++ [0x30, 6, 0, 0, 0, 0x30, 7, 0, 0, 0]
  dataSize := 34
  rowCnt := 2
  dataStart := 24

theorem uniqueNode_rows (keyDefault : BitVec 64) :
    (uniqueTable keyDefault).NodeRows uniqueNode [(0x30, uniqueRow 6), (0x30, uniqueRow 7)] := by
  have hholds : uniqueNode.Holds (uniqueTable 0).toRowLayout [(0x30, uniqueRow 6), (0x30, uniqueRow 7)] :=
    ⟨rfl, rfl, by decide, ⟨_, [], ⟨[1, 0, 0, 0, 0, 0, 0], [3, 0, 0, 0, 5, 0, 0, 0], rfl, rfl, rfl, rfl⟩,
      by decide⟩, rfl, by decide +kernel⟩
  exact hholds

def uniqueKey : PackedKey 8 := ⟨[3, 0, 0, 0, 5, 0, 0, 0], rfl⟩

/-- `replace set a = 7` -/
def replaceSeven : RowRequest where
  requestCode := .replace
  updateInfo := some [FieldUpdate.setWord 2 7]

def roomForAll : ReplaceCalls where
  row := fun _ => { alloc := some [] }

theorem replaceRows_iff_seven :
    ((uniqueTable 0).replaceRows replaceSeven uniqueKey uniqueNode false true true roomForAll).1 = 0 ∧
      ∃ out, ((uniqueTable 0).replaceRows replaceSeven uniqueKey uniqueNode false true true roomForAll).2.1.raw.Holds
          (uniqueTable 0).toRowLayout out ∧
        (uniqueTable 0).IsReplacement (replaceSeven.updateRow (uniqueTable 0) (uniqueTable 0).defaultRow)
          [(0x30, uniqueRow 6), (0x30, uniqueRow 7)] out
          ((uniqueTable 0).replaceRows replaceSeven uniqueKey uniqueNode false true true roomForAll).2.1.count := by
  have hret : ((uniqueTable 0).replaceRows replaceSeven uniqueKey uniqueNode false true true roomForAll).1 = 0 := by
    decide
  have hself : (uniqueTable 0).Recognised (replaceSeven.updateRow (uniqueTable 0) (uniqueTable 0).defaultRow) := by
    decide
  have hfit : ∀ r ∈ [(0x30, uniqueRow 6), (0x30, uniqueRow 7)].find?
      ((uniqueTable 0).isConflict (replaceSeven.updateRow (uniqueTable 0) (uniqueTable 0).defaultRow)),
      replaceRequest (uniqueTable 0) (replaceSeven.updateRow (uniqueTable 0) (uniqueTable 0).defaultRow)
        uniqueNode.dataSize r < 2 ^ 32 := by
    decide
  have hkey : 16 + packedKeySize (uniqueTable 0).keySize uniqueKey.bytes < 2 ^ 32 := by decide
  exact ⟨hret, (replaceRows_iff (p := uniqueTable 0) replaceSeven uniqueKey (uniqueNode_rows 0) hkey hfit false true true
    roomForAll hret).mpr (.inl hself)⟩

/-- **The table gives the second key field the default 5**: the row that is there is not recognised, and behind the call two
rows are the new one. -/
theorem replaceRows_keyDefault :
    ((uniqueTable 5).replaceRows replaceSeven uniqueKey uniqueNode false true true roomForAll).1 = 0 ∧
      ((uniqueTable 5).replaceRows replaceSeven uniqueKey uniqueNode false true true roomForAll).2.1.count = 1 ∧
      ¬ ∃ out, ((uniqueTable 5).replaceRows replaceSeven uniqueKey uniqueNode false true true roomForAll).2.1.raw.Holds
          (uniqueTable 5).toRowLayout out ∧
        (uniqueTable 5).IsReplacement (replaceSeven.updateRow (uniqueTable 5) (uniqueTable 5).defaultRow)
          [(0x30, uniqueRow 6), (0x30, uniqueRow 7)] out
          ((uniqueTable 5).replaceRows replaceSeven uniqueKey uniqueNode false true true roomForAll).2.1.count := by
  refine ⟨by decide, by decide +kernel, fun ⟨out, _, h⟩ => ?_⟩
  have hcount := h.count
  exact absurd hcount (by decide)

end RowProcess

end Dtc
