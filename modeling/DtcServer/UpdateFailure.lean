import DtcServer.RowMatching
import DtcServer.RawDataFailure
/-!
# UpdateFailure — the rows after an `UpdateData` that failed

`UpdateData` writes back one row after another, and each of them may fail.
-/
namespace Dtc

open Bytes

/-- The flags and the stored values of the rows, by decoding. -/
def RawData.decodedRows (l : RowLayout) (b : RawData) : Option (List (UInt8 × List FieldVal)) :=
  (b.rewind.decodeMany l b.rowCnt).map Prod.fst

theorem RawData.Holds.decodedRows {l : RowLayout} {b : RawData} {rows : List (UInt8 × RowValue)} (h : b.Holds l rows) :
    b.decodedRows l = some (rows.map l.storedRow) := by
  unfold RawData.decodedRows
  rw [h.decoded]
  rfl

namespace RowProcess

variable (p : RowProcess) (req : RowRequest)

def stepsDone (step : RowCalls → RowPass → Int × RowPass) (calls : Nat → RowCalls) : Nat → Nat → RowPass → Nat
  | 0, _, _ => 0
  | n + 1, i, s =>
    if (step (calls i) s).1 ≠ 0 then 0 else stepsDone step calls n (i + 1) (step (calls i) s).2 + 1

/-- The row in the chunk when the operations in place have written through its values. -/
def touchedRow (r : UInt8 × RowValue) : UInt8 × RowValue :=
  (r.1, p.writtenRow (req.operations p) (p.fullRow r) r.2)

/-- The rows `UpdateData` gets through; `none` stands for an `AttachData` that fails. -/
def updateDone (b : RawData) (log async : Bool) (calls : ProcessCalls) : Option Nat :=
  let a := p.attachData b log calls
  if a.1 ≠ 0 then none
  else some (stepsDone (p.updateStep req async calls.hour) calls.row a.2.raw.rowCnt 0 a.2)

/-- **Nothing was changed before the call failed**: the rows in front are written back as they were, and no operation in
place has changed the row behind them. -/
def Untouched (async : Bool) (rows : List (UInt8 × RowValue)) (done : Option Nat) : Prop :=
  ∀ k ∈ done,
    (walkRows (p.updateVisit req async) (fun _ => {}) (rows.take k)).map p.storedRow = (rows.take k).map p.storedRow ∧
      ∀ r ∈ rows[k]?, p.storedRow (p.touchedRow req r) = p.storedRow r

/-! ## One row -/

variable {front back : List (UInt8 × RowValue)} {r : UInt8 × RowValue} {s : RowPass}

theorem encodeBytes_touchedRow {row : RowValue} (hrow : ∀ j ∈ p.storedIds, row j = p.narrow (p.tdef.field j) (r.2 j)) :
    p.encodeBytes (r.1, p.writtenRow (req.operations p) row r.2) = p.encodeBytes (p.touchedRow req r) := by
  apply p.encodeBytes_congr
  intro j hj
  unfold writtenRow
  rw [hrow j hj, fullRow, seen_stored hj]

theorem writeBack_failed {async : Bool} {flag : UInt8} {calls : RowCalls}
    (h : s.raw.Holds p.toRowLayout (front ++ r :: back))
    (ho : s.raw.rowOffset = s.raw.dataStart + (p.encodeRows front).length)
    (hreq : s.raw.dataSize + p.rowSize s.row + (if p.rowSize s.row ≤ p.rowSize r.2 then p.rowSize s.row else 0) -
      p.rowSize r.2 < 2 ^ 32) (hr : (p.writeBack async flag calls s).1 ≠ 0) :
    (p.writeBack async flag calls s).2.raw.Holds p.toRowLayout (front ++ r :: back) := by
  unfold writeBack retried at hr ⊢
  dsimp only at hr ⊢
  by_cases hno : (s.raw.replaceCurRow p.toRowLayout s.row async calls.alloc calls.tmp).1 = ecNoMem ∧ calls.purged = true
  · obtain ⟨n, hn⟩ := RawData.replaceCurRow_noMem hno.1
    rw [if_pos hno, hn] at hr ⊢
    split at hr
    · rename_i hfail
      obtain ⟨m, off, heq⟩ := (h.setNeed n).replaceCurRow_failed ho hreq hfail
      rw [if_pos hfail, heq]
      exact (h.setNeed m).setOffset s.raw.rowOffset off
    · exact absurd rfl hr
  · rw [if_neg hno] at hr ⊢
    split at hr
    · rename_i hfail
      obtain ⟨m, off, heq⟩ := h.replaceCurRow_failed ho hreq hfail
      rw [if_pos hfail, heq]
      exact (h.setNeed m).setOffset s.raw.rowOffset off
    · exact absurd rfl hr

theorem updateMatch_failed {async : Bool} {hour : Nat} {calls : RowCalls}
    (h : p.AtMatch req s front r back) (hr : (p.updateMatch req async hour r.1 calls s).1 ≠ 0) :
    (p.updateMatch req async hour r.1 calls s).2.raw.Holds p.toRowLayout
      (front ++ (r.1, p.writtenRow (req.operations p) s.row r.2) :: back) := by
  obtain ⟨content, x, hholds, ⟨-, hraw⟩ | he⟩ := p.updateMatch_eq req h
  · rw [hraw]
    exact hholds
  · rw [he] at hr ⊢
    have hback := p.writeBack_failed (s := { s with
      raw := { s.raw with content := content }, row := p.cut (req.updateRow p s.row), affected := x
      count := s.count + 1 }) hholds h.offset (by
      dsimp only
      rw [p.rowSize_cut, p.rowSize_writtenRow h.row]
      exact h.fits) hr
    exact hback

theorem updateStep_failed {async : Bool} {hour : Nat} {calls : RowCalls}
    (h : s.raw.Between p.toRowLayout front (r :: back))
    (hfit : ∀ n ∈ p.replaceSizes req s.raw.dataSize s.row (r :: back), n < 2 ^ 32)
    (hr : (p.updateStep req async hour calls s).1 ≠ 0) :
    (p.updateStep req async hour calls s).2.raw.Holds p.toRowLayout (front ++ p.touchedRow req r :: back) := by
  rw [p.updateStep_eq req h] at hr ⊢
  by_cases hc : req.compareRow p (p.seen s.row r) = true
  · rw [if_pos hc] at hr ⊢
    have hrows := p.updateMatch_failed req (p.atMatch_behind req h hfit hc) hr
    refine hrows.congr ?_
    rw [List.map_append, List.map_append, List.map_cons, List.map_cons]
    exact congrArg (fun x => front.map p.encodeBytes ++ x :: back.map p.encodeBytes)
      (p.encodeBytes_touchedRow req fun j hj => seen_stored hj)
  · rw [if_neg hc] at hr
    exact absurd rfl hr

/-! ## All rows -/

theorem eachRow_failed {step : RowCalls → RowPass → Int × RowPass} {visit : RowValue → UInt8 × RowValue → Visit}
    {calls : Nat → RowCalls} {P : RowPass → List (UInt8 × RowValue) → Prop}
    {stopped : UInt8 × RowValue → UInt8 × RowValue}
    (hstep : ∀ calls s front r back, s.raw.Between p.toRowLayout front (r :: back) → P s (r :: back) →
      (step calls s).1 = 0 → p.Visited (visit s.row r) s (step calls s).2 front back ∧ P (step calls s).2 back)
    (hfail : ∀ calls s front r back, s.raw.Between p.toRowLayout front (r :: back) → P s (r :: back) →
      (step calls s).1 ≠ 0 → (step calls s).2.raw.Holds p.toRowLayout (front ++ stopped r :: back)) :
    ∀ (back front : List (UInt8 × RowValue)) (i : Nat) (s : RowPass), s.raw.Between p.toRowLayout front back → P s back →
      (eachRow step calls back.length i s).1 ≠ 0 →
      ∃ r, back[stepsDone step calls back.length i s]? = some r ∧
        (eachRow step calls back.length i s).2.raw.Holds p.toRowLayout
          (front ++ (walkRows visit s.row (back.take (stepsDone step calls back.length i s)) ++
            stopped r :: back.drop (stepsDone step calls back.length i s + 1)))
  | [], _, _, _, _, _, hr => absurd rfl hr
  | r :: back, front, i, s, h, hp, hr => by
    rw [List.length_cons, eachRow] at hr ⊢
    rw [stepsDone]
    by_cases h0 : (step (calls i) s).1 = 0
    · rw [if_neg (not_not.mpr h0)] at hr ⊢
      rw [if_neg (not_not.mpr h0)]
      obtain ⟨⟨h1, h2, -⟩, h4⟩ := hstep _ _ _ _ _ h hp h0
      obtain ⟨r', hr', hrows⟩ := eachRow_failed hstep hfail back _ (i + 1) _ h1 h4 hr
      refine ⟨r', hr', ?_⟩
      rw [h2, List.append_assoc] at hrows
      rw [List.take_succ_cons, List.drop_succ_cons, walkRows, List.append_assoc]
      exact hrows
    · rw [if_pos h0, if_pos h0]
      exact ⟨r, rfl, hfail _ _ _ _ _ h hp h0⟩

variable {b : RawData} {rows : List (UInt8 × RowValue)} {log async setrows : Bool} {calls : ProcessCalls}

theorem attachData_failed (h : b.Holds p.toRowLayout rows) (hr : (p.attachData b log calls).1 ≠ 0) :
    (p.attachData b log calls).2.raw.Holds p.toRowLayout rows := by
  have hfirst := h.setOffset b.dataStart b.dataStart
  unfold attachData at hr ⊢
  rw [h.attach_eq] at hr ⊢
  rw [if_neg (not_not.mpr rfl)] at hr ⊢
  cases log with
  | false => exact absurd rfl hr
  | true =>
    rw [if_pos rfl] at hr ⊢
    dsimp only at hr ⊢
    split at hr
    · rename_i h0
      rw [if_pos h0]
      exact hfirst
    · exact absurd rfl hr

theorem updateData_failed (h : b.Holds p.toRowLayout rows)
    (hfit : ∀ n ∈ p.replaceSizes req b.dataSize (fun _ => {}) rows, n < 2 ^ 32)
    (hr : (p.updateData req b log async setrows calls).1 ≠ 0) :
    (p.updateDone req b log async calls = none ∧
      (p.updateData req b log async setrows calls).2.1.raw.Holds p.toRowLayout rows) ∨
    ∃ k r, p.updateDone req b log async calls = some k ∧ rows[k]? = some r ∧
      (p.updateData req b log async setrows calls).2.1.raw.Holds p.toRowLayout
        (walkRows (p.updateVisit req async) (fun _ => {}) (rows.take k) ++ p.touchedRow req r :: rows.drop (k + 1)) := by
  unfold updateDone
  unfold updateData at hr ⊢
  dsimp only at hr ⊢
  by_cases ha : (p.attachData b log calls).1 = 0
  · obtain ⟨hfirst, hrow, -, hsize⟩ := p.attachData_ok h ha
    rw [if_neg (not_not.mpr ha)] at hr ⊢
    rw [if_neg (not_not.mpr ha)]
    generalize (p.attachData b log calls).2 = s at *
    rw [hfirst.holds.rowCount] at hr ⊢
    split at hr
    · rename_i h0
      rw [if_pos h0]
      obtain ⟨r, hr', hrows⟩ := p.eachRow_failed
        (P := fun s back => ∀ n ∈ p.replaceSizes req s.raw.dataSize s.row back, n < 2 ^ 32)
        (fun _ _ _ _ _ hb hp hs => ⟨(p.updateStep_ok req hb hp hs).1, (p.updateStep_ok req hb hp hs).2.1⟩)
        (fun _ _ _ _ _ hb hp hs => p.updateStep_failed req hb hp hs)
        rows [] 0 s hfirst (by rwa [hsize, hrow]) h0
      rw [List.nil_append, hrow] at hrows
      exact .inr ⟨_, r, rfl, hr', hrows⟩
    · exact absurd rfl hr
  · rw [if_pos ha]
    exact .inl ⟨rfl, by rw [if_pos ha]; exact p.attachData_failed h ha⟩

theorem length_updateWalk (async : Bool) : ∀ (rows : List (UInt8 × RowValue)) (row : RowValue),
    (walkRows (p.updateVisit req async) row rows).length = rows.length
  | [], _ => rfl
  | r :: rows, row => by
    have hone : (p.updateVisit req async row r).rows.length = 1 := by
      unfold updateVisit
      by_cases hc : req.compareRow p (p.seen row r) = true
      · rw [if_pos hc]
        rfl
      · rw [if_neg hc]
        rfl
    rw [walkRows, List.length_append, hone, length_updateWalk async rows, List.length_cons, Nat.add_comm]

/-- **When a failed `UpdateData` has changed nothing**: the decoded rows and flags are those before the call if and only if
it failed before anything was changed. -/
theorem updateData_atomic_iff (h : b.Holds p.toRowLayout rows)
    (hfit : ∀ n ∈ p.replaceSizes req b.dataSize (fun _ => {}) rows, n < 2 ^ 32) (log async setrows : Bool)
    (calls : ProcessCalls) (hr : (p.updateData req b log async setrows calls).1 ≠ 0) :
    (p.updateData req b log async setrows calls).2.1.raw.decodedRows p.toRowLayout = b.decodedRows p.toRowLayout ↔
      p.Untouched req async rows (p.updateDone req b log async calls) := by
  rcases p.updateData_failed req h hfit hr with ⟨hdone, hrows⟩ | ⟨k, r, hdone, hk, hrows⟩
  · rw [hdone, hrows.decodedRows, h.decodedRows]
    exact iff_of_true rfl (fun k hk => by cases hk)
  · rw [hdone, hrows.decodedRows, h.decodedRows]
    have hlen : ((walkRows (p.updateVisit req async) (fun _ => {}) (rows.take k)).map p.storedRow).length =
        ((rows.take k).map p.storedRow).length := by
      rw [List.length_map, List.length_map, p.length_updateWalk]
    -- the rows taken apart at the one at which the call failed
    conv =>
      lhs
      rhs
      rw [rows_split hk]
    rw [Option.some.injEq, List.map_append, List.map_append, List.map_cons, List.map_cons]
    constructor
    · intro heq k' hk'
      obtain rfl := Option.some.inj hk'
      obtain ⟨hfront, hback⟩ := List.append_inj heq hlen
      refine ⟨hfront, fun r' hr' => ?_⟩
      rw [hk] at hr'
      obtain rfl := Option.some.inj hr'
      exact (List.cons.inj hback).1
    · intro hu
      obtain ⟨hfront, hrow⟩ := hu k rfl
      rw [hfront, hrow r hk]

/-- The second of two rows matches, and there is no memory for its replacement. -/
theorem updateData_atomic_setSix :
    (discardTable.updateData setSix twoRowsNode false true false { row := fun _ => { tmp := false } }).1 ≠ 0 ∧
      (discardTable.updateData setSix twoRowsNode false true false
        { row := fun _ => { tmp := false } }).2.1.raw.decodedRows discardTable.toRowLayout =
          twoRowsNode.decodedRows discardTable.toRowLayout := by
  have hret : (discardTable.updateData setSix twoRowsNode false true false
      { row := fun _ => { tmp := false } }).1 ≠ 0 := by
    decide
  refine ⟨hret, (updateData_atomic_iff discardTable setSix twoRowsNode_holds (by decide) false true false _
    hret).mpr ?_⟩
  have hdone : discardTable.updateDone setSix twoRowsNode false true { row := fun _ => { tmp := false } } = some 1 := by
    decide
  intro k hk
  rw [hdone] at hk
  obtain rfl := Option.some.inj hk
  refine ⟨by decide, fun r hr => ?_⟩
  obtain rfl := Option.some.inj hr
  decide

/-- `set a = a + 10` for all rows -/
def setAll : RowRequest := { setSix with allRows := true }

/-- **One of two rows is updated by a call that fails**: there is memory for the first replacement only. -/
theorem updateData_halfDone :
    (discardTable.updateData setAll twoRowsNode false true false { row := fun i => { tmp := i == 0 } }).1 = -6 ∧
      (discardTable.updateData setAll twoRowsNode false true false
        { row := fun i => { tmp := i == 0 } }).2.1.raw.decodedRows discardTable.toRowLayout ≠
          twoRowsNode.decodedRows discardTable.toRowLayout := by
  exact ⟨by decide, by decide +kernel⟩

end RowProcess

end Dtc
