import DtcServer.RawDataProcessRun
import Mathlib.Logic.Function.Iterate
/-!
# RowMatching — which rows the row operations take for the matching ones

A row of a node has the fields it stores; its other fields have their defaults. The row variable of a walk has zeros there, or
what the operations made of them for the rows before.
-/
namespace Dtc

open Bytes

namespace RowRequest

variable (p : RowProcess) (req : RowRequest) (row : RowValue)

def storedTest : Bool :=
  req.conditionInfo.all (fun c => decide (c.id < p.tdef.keyFields) || !decide (c.id ∈ p.storedIds) || c.test (row c.id))

def discardedTest : Bool :=
  req.conditionInfo.all (fun c => decide (c.id < p.tdef.keyFields) || decide (c.id ∈ p.storedIds) || c.test (row c.id))

theorem compareRow_split : req.compareRow p row = (req.allRows || (req.storedTest p row && req.discardedTest p row)) := by
  unfold compareRow storedTest discardedTest
  congr 1
  induction req.conditionInfo with
  | nil => rfl
  | cons c cs ih =>
    rw [List.all_cons, List.all_cons, List.all_cons, ih]
    by_cases hj : c.id ∈ p.storedIds
    · simp [hj, Bool.and_assoc]
    · simp [hj, Bool.and_left_comm]

variable {p req} {row row' : RowValue}

theorem storedTest_congr (h : ∀ j ∈ p.storedIds, row j = row' j) : req.storedTest p row = req.storedTest p row' := by
  unfold storedTest
  congr 1
  funext c
  by_cases hj : c.id ∈ p.storedIds
  · rw [h _ hj]
  · simp [hj]

theorem discardedTest_congr (h : ∀ j, j ∉ p.storedIds → row j = row' j) :
    req.discardedTest p row = req.discardedTest p row' := by
  unfold discardedTest
  congr 1
  funext c
  by_cases hj : c.id ∈ p.storedIds
  · simp [hj]
  · rw [h _ hj]

theorem updateRow_congr {j : Nat} (h : row j = row' j) : req.updateRow p row j = req.updateRow p row' j := by
  unfold updateRow
  induction req.operations p generalizing row row' with
  | nil => exact h
  | cons u us ih =>
    rw [List.foldl_cons, List.foldl_cons]
    apply ih
    by_cases hj : j = u.id
    · subst hj
      rw [Function.update_self, Function.update_self, h]
    · rw [Function.update_of_ne hj, Function.update_of_ne hj, h]

end RowRequest

namespace RowProcess

variable (p : RowProcess) (req : RowRequest)

/-- A row as `GetData` sees it: what it does not store has the default. -/
def fullRow (r : UInt8 × RowValue) : RowValue := p.seen p.defaultRow r

def selects (r : UInt8 × RowValue) : Bool := req.compareRow p (p.fullRow r)

/-- `DeleteData` as an operation on lists. -/
def deletedRows (rows : List (UInt8 × RowValue)) : List (UInt8 × RowValue) := rows.filter (fun r => !p.selects req r)

/-- What `UpdateData` makes of a row that satisfies the condition. -/
def updatedRow (async : Bool) (r : UInt8 × RowValue) : UInt8 × RowValue :=
  (if async then operUpdate else r.1, p.cut (req.updateRow p (p.fullRow r)))

/-- `UpdateData` as an operation on lists. -/
def updatedRows (async : Bool) (rows : List (UInt8 × RowValue)) : List (UInt8 × RowValue) :=
  rows.map (fun r => if p.selects req r then p.updatedRow req async r else r)

/-- The rows whose stored fields satisfy their conditions. -/
def candidates (rows : List (UInt8 × RowValue)) : Nat := rows.countP (fun r => req.storedTest p (p.fullRow r))

theorem candidates_cons (r : UInt8 × RowValue) (rows : List (UInt8 × RowValue)) :
    p.candidates req (r :: rows) = p.candidates req rows + (req.storedTest p (p.fullRow r)).toNat := by
  unfold candidates
  rw [List.countP_cons]
  cases req.storedTest p (p.fullRow r) <;> rfl

/-- **The walk judges right**: for each candidate it comes to, the conditions on discarded fields say of the row variable,
as `change` has left it, what they say of the defaults. -/
def JudgesRight (change : RowValue → RowValue) (rows : List (UInt8 × RowValue)) : Prop :=
  req.allRows = true ∨ ∀ k < p.candidates req rows, k = 0 ∨ req.discardedTest p p.defaultRow = true →
    req.discardedTest p (change^[k] (fun _ => {})) = req.discardedTest p p.defaultRow

/-! ## A visit and the list operation -/

variable {p req}

theorem seen_stored {row : RowValue} {r : UInt8 × RowValue} {j : Nat} (hj : j ∈ p.storedIds) :
    p.seen row r j = p.narrow (p.tdef.field j) (r.2 j) := by
  unfold seen
  rw [if_pos hj]

theorem seen_discarded {row : RowValue} {r : UInt8 × RowValue} {j : Nat} (hj : j ∉ p.storedIds) :
    p.seen row r j = row j := by
  unfold seen
  rw [if_neg hj]

theorem storedTest_seen (row : RowValue) (r : UInt8 × RowValue) :
    req.storedTest p (p.seen row r) = req.storedTest p (p.fullRow r) :=
  RowRequest.storedTest_congr fun _ hj => by rw [fullRow, seen_stored hj, seen_stored hj]

theorem discardedTest_seen (row : RowValue) (r : UInt8 × RowValue) :
    req.discardedTest p (p.seen row r) = req.discardedTest p row :=
  RowRequest.discardedTest_congr fun _ hj => seen_discarded hj

theorem compareRow_seen (row : RowValue) (r : UInt8 × RowValue) : req.compareRow p (p.seen row r) =
    (req.allRows || (req.storedTest p (p.fullRow r) && req.discardedTest p row)) := by
  rw [RowRequest.compareRow_split, storedTest_seen, discardedTest_seen]

variable (p req)

/-- A visit that changes the row variable, where a row matches, by `change`, and leaves of that row `out`. -/
structure Walks (visit : RowValue → UInt8 × RowValue → Visit) (change : RowValue → RowValue)
    (out : UInt8 × RowValue → List (UInt8 × RowValue)) : Prop where
  hit : ∀ row r, (visit row r).hit = req.compareRow p (p.seen row r)
  row : ∀ row r j, j ∉ p.storedIds → (visit row r).row j = if (visit row r).hit then change row j else row j
  rows : ∀ row r, (visit row r).rows.map p.encodeBytes =
    if (visit row r).hit then (out r).map p.encodeBytes else [p.encodeBytes r]
  congr : ∀ row row' : RowValue, (∀ j, j ∉ p.storedIds → row j = row' j) →
    ∀ j, j ∉ p.storedIds → change row j = change row' j

theorem deleteVisit_walks : p.Walks req (p.deleteVisit req) id (fun _ => []) := by
  have hpos : ∀ row r, req.compareRow p (p.seen row r) = true → p.deleteVisit req row r = ⟨[], p.seen row r, true⟩ :=
    fun row r hc => if_pos hc
  have hneg : ∀ row r, ¬ req.compareRow p (p.seen row r) = true → p.deleteVisit req row r = ⟨[r], p.seen row r, false⟩ :=
    fun row r hc => if_neg hc
  refine ⟨fun row r => ?_, fun row r j hj => ?_, fun row r => ?_, fun _ _ h => h⟩
  all_goals by_cases hc : req.compareRow p (p.seen row r) = true
  · rw [hpos row r hc, hc]
  · rw [hneg row r hc, (Bool.not_eq_true _).mp hc]
  · rw [hpos row r hc, if_pos rfl]
    exact seen_discarded hj
  · rw [hneg row r hc, if_neg Bool.false_ne_true]
    exact seen_discarded hj
  · rw [hpos row r hc, if_pos rfl]
  · rw [hneg row r hc, if_neg Bool.false_ne_true]
    rfl

theorem updateVisit_walks (async : Bool) :
    p.Walks req (p.updateVisit req async) (req.updateRow p) (fun r => [p.updatedRow req async r]) := by
  have hpos : ∀ row r, req.compareRow p (p.seen row r) = true → p.updateVisit req async row r =
      ⟨[(if async then operUpdate else r.1, p.cut (req.updateRow p (p.seen row r)))],
        p.cut (req.updateRow p (p.seen row r)), true⟩ := fun row r hc => if_pos hc
  have hneg : ∀ row r, ¬ req.compareRow p (p.seen row r) = true →
      p.updateVisit req async row r = ⟨[r], p.seen row r, false⟩ := fun row r hc => if_neg hc
  refine ⟨fun row r => ?_, fun row r j hj => ?_, fun row r => ?_, fun _ _ h j hj => RowRequest.updateRow_congr (h j hj)⟩
  all_goals by_cases hc : req.compareRow p (p.seen row r) = true
  · rw [hpos row r hc, hc]
  · rw [hneg row r hc, (Bool.not_eq_true _).mp hc]
  · rw [hpos row r hc, if_pos rfl]
    dsimp only [cut]
    rw [seen_discarded hj]
    exact RowRequest.updateRow_congr (seen_discarded hj)
  · rw [hneg row r hc, if_neg Bool.false_ne_true]
    exact seen_discarded hj
  · -- the stored fields come from the row alone
    have hbytes : p.encodeBytes (if async then operUpdate else r.1, p.cut (req.updateRow p (p.seen row r))) =
        p.encodeBytes (p.updatedRow req async r) := by
      apply p.encodeBytes_congr
      intro j hj
      unfold cut
      rw [seen_stored hj, seen_stored hj]
      congr 1
      apply RowRequest.updateRow_congr
      rw [fullRow, seen_stored hj, seen_stored hj]
    rw [hpos row r hc, if_pos rfl, List.map_cons, List.map_nil, hbytes]
    rfl
  · rw [hneg row r hc, if_neg Bool.false_ne_true]
    rfl

namespace Walks

variable {p req} {visit : RowValue → UInt8 × RowValue → Visit} {change : RowValue → RowValue}
  {out : UInt8 × RowValue → List (UInt8 × RowValue)}

def outRows (p : RowProcess) (req : RowRequest) (out : UInt8 × RowValue → List (UInt8 × RowValue))
    (rows : List (UInt8 × RowValue)) : List (UInt8 × RowValue) :=
  rows.flatMap (fun r => if p.selects req r then out r else [r])

theorem all_rows (w : p.Walks req visit change out) (hall : req.allRows = true) :
    ∀ (rows : List (UInt8 × RowValue)) (row : RowValue),
      (walkRows visit row rows).map p.encodeBytes = (outRows p req out rows).map p.encodeBytes ∧
        walkHits visit row rows = rows.countP (p.selects req)
  | [], _ => ⟨rfl, rfl⟩
  | r :: rows, row => by
    have hsel : p.selects req r = true := by
      unfold selects RowRequest.compareRow
      rw [hall]
      rfl
    have hhit : (visit row r).hit = true := by
      rw [w.hit]
      unfold RowRequest.compareRow
      rw [hall]
      rfl
    obtain ⟨h1, h2⟩ := all_rows w hall rows (visit row r).row
    refine ⟨?_, ?_⟩
    · unfold outRows at h1 ⊢
      rw [walkRows, List.map_append, w.rows, hhit, if_pos rfl, h1, List.flatMap_cons, hsel, if_pos rfl, List.map_append]
    · rw [walkHits, hhit, h2, List.countP_cons_of_pos hsel, Bool.toNat_true, Nat.add_comm]

theorem hit_eq (w : p.Walks req visit change out) (hall : req.allRows = false) (row : RowValue) (r : UInt8 × RowValue) :
    (visit row r).hit = (req.storedTest p (p.fullRow r) && req.discardedTest p row) := by
  rw [w.hit, compareRow_seen, hall, Bool.false_or]

theorem selects_eq (hall : req.allRows = false) (r : UInt8 × RowValue) :
    p.selects req r = (req.storedTest p (p.fullRow r) && req.discardedTest p p.defaultRow) := by
  have h := @compareRow_seen p req p.defaultRow r
  rwa [hall, Bool.false_or] at h

theorem row_eq (w : p.Walks req visit change out) {row : RowValue} {r : UInt8 × RowValue} {k : Nat}
    (hrow : ∀ j, j ∉ p.storedIds → row j = change^[k] (fun _ => {}) j) :
    ∀ j, j ∉ p.storedIds →
      (visit row r).row j = change^[k + (visit row r).hit.toNat] (fun _ => {}) j := by
  intro j hj
  rw [w.row row r j hj]
  cases (visit row r).hit with
  | true =>
    rw [if_pos rfl, Bool.toNat_true, Function.iterate_succ_apply']
    exact w.congr _ _ hrow j hj
  | false =>
    rw [if_neg Bool.false_ne_true]
    exact hrow j hj

theorem sound (w : p.Walks req visit change out) (hall : req.allRows = false) :
    ∀ (rows : List (UInt8 × RowValue)) (row : RowValue) (k : Nat),
      (∀ j, j ∉ p.storedIds → row j = change^[k] (fun _ => {}) j) →
      (∀ i < p.candidates req rows, i = 0 ∨ req.discardedTest p p.defaultRow = true →
        req.discardedTest p (change^[k + i] (fun _ => {})) = req.discardedTest p p.defaultRow) →
      (walkRows visit row rows).map p.encodeBytes = (outRows p req out rows).map p.encodeBytes ∧
        walkHits visit row rows = rows.countP (p.selects req)
  | [], _, _, _, _ => ⟨rfl, rfl⟩
  | r :: rows, row, k, hrow, hjudge => by
    have htest : req.discardedTest p row = req.discardedTest p (change^[k] (fun _ => {})) :=
      RowRequest.discardedTest_congr hrow
    rw [candidates_cons] at hjudge
    -- the row matches in both, or in neither
    have hsame : (visit row r).hit = p.selects req r := by
      rw [w.hit_eq hall, selects_eq hall]
      cases hst : req.storedTest p (p.fullRow r) with
      | false => rfl
      | true =>
        rw [htest, ← hjudge 0 (by rw [hst]; exact Nat.succ_pos _) (.inl rfl), Nat.add_zero]
    have hrest : ∀ i < p.candidates req rows, i = 0 ∨ req.discardedTest p p.defaultRow = true →
        req.discardedTest p (change^[k + (visit row r).hit.toNat + i] (fun _ => {})) =
          req.discardedTest p p.defaultRow := by
      intro i hi hcase
      cases hst : req.storedTest p (p.fullRow r) with
      | false =>
        rw [w.hit_eq hall, hst, Bool.false_and, Bool.toNat_false, Nat.add_zero]
        exact hjudge i (Nat.lt_add_right _ hi) hcase
      | true =>
        rw [hst, Bool.toNat_true] at hjudge
        rw [hsame, selects_eq hall, hst, Bool.true_and]
        cases hd : req.discardedTest p p.defaultRow with
        | true =>
          rw [Bool.toNat_true, Nat.add_assoc, Nat.add_comm 1]
          exact (hjudge (i + 1) (by omega) (.inr hd)).trans hd
        | false =>
          rw [hd] at hcase
          rcases hcase with rfl | hcase
          · rw [Bool.toNat_false, Nat.add_zero]
            exact (hjudge 0 (Nat.succ_pos _) (.inl rfl)).trans hd
          · cases hcase
    obtain ⟨h1, h2⟩ := sound w hall rows _ _ (w.row_eq hrow) hrest
    refine ⟨?_, ?_⟩
    · unfold outRows at h1 ⊢
      rw [walkRows, List.map_append, w.rows, h1, List.flatMap_cons, List.map_append, hsame]
      congr 1
      cases p.selects req r <;> rfl
    · rw [walkHits, h2, hsame, List.countP_cons, Nat.add_comm]
      cases p.selects req r <;> rfl

theorem hits_le (w : p.Walks req visit change out) (hall : req.allRows = false) :
    ∀ (rows : List (UInt8 × RowValue)) (row : RowValue), walkHits visit row rows ≤ p.candidates req rows
  | [], _ => Nat.le_refl 0
  | r :: rows, row => by
    have hle := hits_le w hall rows (visit row r).row
    rw [walkHits, w.hit_eq hall, candidates_cons]
    cases req.storedTest p (p.fullRow r) with
    | false => simpa using hle
    | true =>
      have hbit := Bool.toNat_le (req.discardedTest p row)
      simp only [Bool.true_and, Bool.toNat_true]
      omega

theorem exact (w : p.Walks req visit change out) (hall : req.allRows = false) :
    ∀ (rows : List (UInt8 × RowValue)) (row : RowValue) (k : Nat),
      (∀ j, j ∉ p.storedIds → row j = change^[k] (fun _ => {}) j) →
      walkHits visit row rows = rows.countP (p.selects req) →
      ∀ i < p.candidates req rows, i = 0 ∨ req.discardedTest p p.defaultRow = true →
        req.discardedTest p (change^[k + i] (fun _ => {})) = req.discardedTest p p.defaultRow
  | [], _, _, _, _, i, hi, _ => absurd hi (Nat.not_lt_zero i)
  | r :: rows, row, k, hrow, hcount, i, hi, hcase => by
    have htest : req.discardedTest p row = req.discardedTest p (change^[k] (fun _ => {})) :=
      RowRequest.discardedTest_congr hrow
    have hle := w.hits_le hall rows (visit row r).row
    have hnext := exact w hall rows _ _ (w.row_eq hrow (r := r))
    have hsel : ∀ rs : List (UInt8 × RowValue), rs.countP (p.selects req) =
        if req.discardedTest p p.defaultRow then p.candidates req rs else 0 := fun rs => by
      split
      · rename_i hd
        exact List.countP_congr fun r _ => by rw [selects_eq hall, hd, Bool.and_true]
      · rename_i hd
        rw [List.countP_eq_zero]
        intro r _
        rw [selects_eq hall, (Bool.not_eq_true _).mp hd, Bool.and_false]
        exact Bool.false_ne_true
    rw [hsel, candidates_cons, walkHits] at hcount
    rw [hsel] at hnext
    rw [candidates_cons] at hi
    have hhit := w.hit_eq hall row r
    cases hst : req.storedTest p (p.fullRow r) with
    | false =>
      rw [hst, Bool.false_and] at hhit
      rw [hst, Bool.toNat_false, Nat.add_zero] at hcount hi
      rw [hhit, Bool.toNat_false, Nat.zero_add] at hcount
      rw [hhit, Bool.toNat_false, Nat.add_zero] at hnext
      exact hnext hcount i hi hcase
    | true =>
      rw [hst, Bool.true_and, htest] at hhit
      rw [hst, Bool.toNat_true] at hcount hi
      cases hd : req.discardedTest p p.defaultRow with
      | true =>
        rw [hd, if_pos rfl] at hcount hnext
        have hbit := Bool.toNat_le (visit row r).hit
        have hhere : (visit row r).hit = true := by
          cases hv : (visit row r).hit with
          | true => rfl
          | false =>
            rw [hv, Bool.toNat_false] at hcount
            omega
        rw [hhere, Bool.toNat_true] at hcount hnext
        cases i with
        | zero => rw [Nat.add_zero, ← hhit, hhere]
        | succ i =>
          rw [Nat.add_comm i 1, ← Nat.add_assoc]
          exact hnext (by omega) i (by omega) (.inr rfl)
      | false =>
        rw [hd] at hcase hcount
        rcases hcase with rfl | hcase
        · rw [if_neg Bool.false_ne_true] at hcount
          rw [Nat.add_zero, ← hhit]
          cases hv : (visit row r).hit with
          | false => rfl
          | true =>
            rw [hv, Bool.toNat_true] at hcount
            omega
        · cases hcase

theorem right (w : p.Walks req visit change out) {rows : List (UInt8 × RowValue)}
    (h : p.JudgesRight req change rows) :
    (walkRows visit (fun _ => {}) rows).map p.encodeBytes = (outRows p req out rows).map p.encodeBytes ∧
      walkHits visit (fun _ => {}) rows = rows.countP (p.selects req) := by
  cases hall : req.allRows with
  | true => exact w.all_rows hall rows _
  | false =>
    rcases h with h | h
    · rw [hall] at h
      cases h
    · refine w.sound hall rows _ 0 (fun _ _ => rfl) (fun k hk hcase => ?_)
      rw [Nat.zero_add]
      exact h k hk hcase

theorem judgesRight (w : p.Walks req visit change out) {rows : List (UInt8 × RowValue)}
    (h : walkHits visit (fun _ => {}) rows = rows.countP (p.selects req)) : p.JudgesRight req change rows := by
  cases hall : req.allRows with
  | true => exact .inl hall
  | false =>
    refine .inr fun k hk hcase => ?_
    have hk' := w.exact hall rows _ 0 (fun _ _ => rfl) h k hk hcase
    rwa [Nat.zero_add] at hk'

end Walks

theorem outRows_delete : ∀ rows : List (UInt8 × RowValue), Walks.outRows p req (fun _ => []) rows = p.deletedRows req rows
  | [] => rfl
  | r :: rows => by
    have ih := outRows_delete rows
    unfold Walks.outRows deletedRows at ih ⊢
    rw [List.flatMap_cons, List.filter_cons, ih]
    cases p.selects req r <;> rfl

theorem outRows_update (async : Bool) : ∀ rows : List (UInt8 × RowValue),
    Walks.outRows p req (fun r => [p.updatedRow req async r]) rows = p.updatedRows req async rows
  | [] => rfl
  | r :: rows => by
    have ih := outRows_update async rows
    unfold Walks.outRows updatedRows at ih ⊢
    rw [List.flatMap_cons, List.map_cons, ih]
    cases p.selects req r <;> rfl

theorem length_deleteWalk : ∀ (rows : List (UInt8 × RowValue)) (row : RowValue),
    (walkRows (p.deleteVisit req) row rows).length + walkHits (p.deleteVisit req) row rows = rows.length
  | [], _ => rfl
  | r :: rows, row => by
    have ih := length_deleteWalk rows (p.deleteVisit req row r).row
    have hone : (p.deleteVisit req row r).rows.length + (p.deleteVisit req row r).hit.toNat = 1 := by
      unfold deleteVisit
      by_cases hc : req.compareRow p (p.seen row r) = true
      · rw [if_pos hc]
        rfl
      · rw [if_neg hc]
        rfl
    rw [walkRows, walkHits, List.length_append, List.length_cons]
    omega

/-! ## The operations -/

variable {b : RawData} {rows : List (UInt8 × RowValue)}

theorem deleteData_iff (h : b.Holds p.toRowLayout rows) {log : Bool} {calls : ProcessCalls}
    (hr : (p.deleteData req b log calls).1 = 0) :
    (p.deleteData req b log calls).2.1.raw.Holds p.toRowLayout (p.deletedRows req rows) ↔
      p.JudgesRight req id rows := by
  obtain ⟨hwalk, -, -⟩ := p.deleteData_walk req h hr
  constructor
  · intro hspec
    apply (p.deleteVisit_walks req).judgesRight
    have hlen := p.length_deleteWalk req rows (fun _ => {})
    have hsame := hwalk.rowCount.symm.trans hspec.rowCount
    have hsplit := List.length_eq_countP_add_countP (p.selects req) (l := rows)
    have hkept : (p.deletedRows req rows).length = rows.countP (fun r => !p.selects req r) := by
      unfold deletedRows
      rw [List.countP_eq_length_filter]
    simp only [Bool.not_eq_true, Bool.decide_eq_false] at hsplit
    omega
  · intro hright
    have hbytes := ((p.deleteVisit_walks req).right hright).1
    rw [outRows_delete] at hbytes
    exact hwalk.congr hbytes

theorem updateData_iff (h : b.Holds p.toRowLayout rows) {log async setrows : Bool} {calls : ProcessCalls}
    (hfit : ∀ n ∈ p.replaceSizes req b.dataSize (fun _ => {}) rows, n < 2 ^ 32)
    (hr : (p.updateData req b log async setrows calls).1 = 0) :
    ((p.updateData req b log async setrows calls).2.1.raw.Holds p.toRowLayout (p.updatedRows req async rows) ∧
        (p.updateData req b log async setrows calls).2.1.count = rows.countP (p.selects req)) ↔
      p.JudgesRight req (req.updateRow p) rows := by
  obtain ⟨hwalk, hcount, -, -⟩ := p.updateData_walk req h hfit hr
  constructor
  · rintro ⟨-, hspec⟩
    exact (p.updateVisit_walks req async).judgesRight (hcount.symm.trans hspec)
  · intro hright
    obtain ⟨hbytes, hhits⟩ := (p.updateVisit_walks req async).right hright
    rw [outRows_update] at hbytes
    exact ⟨hwalk.congr hbytes, hcount.trans hhits⟩

/-- **When the row operations are the list operations**: a call that succeeds deletes exactly the rows that satisfy the
condition, or updates exactly these and counts them, if and only if its walk judges right; the new row is always at its
place.  All other rows stay as they are.  For an update no size asked of the allocator may be cut to 32 bits. -/
theorem rowOperations_exact (h : b.Holds p.toRowLayout rows) (log isDirty async setrows : Bool) (calls : ProcessCalls) :
    ((p.deleteData req b log calls).1 = 0 →
      ((p.deleteData req b log calls).2.1.raw.Holds p.toRowLayout (p.deletedRows req rows) ↔
        p.JudgesRight req id rows)) ∧
    ((p.updateData req b log async setrows calls).1 = 0 →
      (∀ n ∈ p.replaceSizes req b.dataSize (fun _ => {}) rows, n < 2 ^ 32) →
      (((p.updateData req b log async setrows calls).2.1.raw.Holds p.toRowLayout (p.updatedRows req async rows) ∧
          (p.updateData req b log async setrows calls).2.1.count = rows.countP (p.selects req)) ↔
        p.JudgesRight req (req.updateRow p) rows)) ∧
    ((p.appendData req b log isDirty setrows calls).1 = 0 →
      (p.appendData req b log isDirty setrows calls).2.1.raw.Holds p.toRowLayout (p.appendedRows req isDirty rows)) :=
  ⟨fun hr => p.deleteData_iff req h hr, fun hr hfit => p.updateData_iff req h hfit hr,
    fun hr => p.appendData_rows req h hr⟩

/-- A table with a number that is stored and one that is discarded behind its key. -/
def discardTable : RowProcess where
  tdef := { fieldList := [⟨[107], .unsigned, 4, 0, false⟩, ⟨[97], .signed, 4, 0, false⟩, ⟨[100], .signed, 4, 0, true⟩]
            keyFields := 1
            keyFormat := 4 }
  keyIdx := 0
  keySize := 4
  toFloat := BitVec.setWidth 32
  toDouble := BitVec.setWidth 64

def discardRow (n : BitVec 64) : RowValue
  | 1 => { word := n }
  | _ => {}

def twoRowsNode : RawData where
  handle := true
  content := rawHeader 30 2 [1, 0, 0, 0, 0, 0, 0, 7, 0, 0, 0] ++ [0x30, 5, 0, 0, 0, 0x30, 6, 0, 0, 0]
  dataSize := 30
  rowCnt := 2
  dataStart := 20

theorem twoRowsNode_holds :
    twoRowsNode.Holds discardTable.toRowLayout [(0x30, discardRow 5), (0x30, discardRow 6)] :=
  ⟨rfl, rfl, by decide, ⟨_, [], ⟨[1, 0, 0, 0, 0, 0, 0], [7, 0, 0, 0], rfl, rfl, rfl, rfl⟩, by decide⟩, rfl,
    by decide⟩

/-- `set d = 1, a = a + 10 where d == 0` -/
def setDiscarded : RowRequest where
  requestCode := .update
  conditionInfo := [⟨2, fun v => v.word == 0⟩]
  updateInfo := some [FieldUpdate.setWord 2 1, ⟨1, fun v => { v with word := v.word + 10 }, false, by simp⟩]

/-- `set d = 1, a = a + 10 where a == 6` -/
def setSix : RowRequest := { setDiscarded with conditionInfo := [⟨1, fun v => v.word == 6⟩] }

theorem rowOperations_exact_twoRows :
    (discardTable.updateData setSix twoRowsNode false true false {}).1 = 0 ∧
      (discardTable.updateData setSix twoRowsNode false true false {}).2.1.count = 1 ∧
      (discardTable.updateData setSix twoRowsNode false true false {}).2.1.raw.Holds discardTable.toRowLayout
        (discardTable.updatedRows setSix true [(0x30, discardRow 5), (0x30, discardRow 6)]) := by
  have hret : (discardTable.updateData setSix twoRowsNode false true false {}).1 = 0 := by decide
  have hone : [(0x30, discardRow 5), (0x30, discardRow 6)].countP (discardTable.selects setSix) = 1 := by decide
  have hright : discardTable.JudgesRight setSix (setSix.updateRow discardTable)
      [(0x30, discardRow 5), (0x30, discardRow 6)] := .inr fun _ _ _ => rfl
  obtain ⟨hrows, hcount⟩ := ((rowOperations_exact discardTable setSix twoRowsNode_holds false true true false {}).2.1 hret
    (by decide)).mpr hright
  exact ⟨hret, hcount.trans hone, hrows⟩

/-- **Two rows satisfy the condition and one of them is updated**: behind the first row the row variable has 1 in the
discarded field, for the second row too. -/
theorem discardedField_stale :
    (discardTable.updateData setDiscarded twoRowsNode false true false {}).1 = 0 ∧
      [(0x30, discardRow 5), (0x30, discardRow 6)].countP (discardTable.selects setDiscarded) = 2 ∧
      ¬ (discardTable.updateData setDiscarded twoRowsNode false true false {}).2.1.raw.Holds discardTable.toRowLayout
        (discardTable.updatedRows setDiscarded true [(0x30, discardRow 5), (0x30, discardRow 6)]) := by
  refine ⟨by decide, by decide +kernel, fun h => ?_⟩
  have hrows := decodeMany_eq _ _ [] _ h.rewind rfl
  exact absurd hrows (by decide)

end RowProcess

end Dtc
