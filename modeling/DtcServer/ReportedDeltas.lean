import DtcServer.RowReplacing
import DtcServer.FlushRows
/-!
# ReportedDeltas — `RowsInc` and `DirtyRowsInc`

The pool adds what an operation reports to its counters. The report is right when it is the difference of the numbers of rows,
and of dirty rows, after and before.
-/
namespace Dtc

open Bytes

theorem dirtyInc_eq (r : UInt8 × RowValue) : RowProcess.dirtyInc r.1 = (dirtyRow r).toNat := by
  unfold RowProcess.dirtyInc dirtyRow
  by_cases hd : r.1 &&& operDirty = 0
  · simp [hd]
  · simp [hd]

def dirtyCount (rows : List (UInt8 × RowValue)) : Int := rows.countP dirtyRow

theorem dirtyCount_cons (r : UInt8 × RowValue) (rows : List (UInt8 × RowValue)) :
    dirtyCount (r :: rows) = RowProcess.dirtyInc r.1 + dirtyCount rows := by
  unfold dirtyCount
  rw [dirtyInc_eq, List.countP_cons]
  cases dirtyRow r <;> simp [Int.add_comm]

theorem dirtyCount_singleton (r : UInt8 × RowValue) : dirtyCount [r] = RowProcess.dirtyInc r.1 := by
  rw [dirtyCount_cons]
  exact Int.add_zero _

theorem dirtyCount_append (rows rows' : List (UInt8 × RowValue)) :
    dirtyCount (rows ++ rows') = dirtyCount rows + dirtyCount rows' := by
  unfold dirtyCount
  rw [List.countP_append]
  exact Int.natCast_add _ _

theorem dirtyInc_insertFlag (isDirty : Bool) : RowProcess.dirtyInc (RawData.insertFlag isDirty) = if isDirty then 1 else 0 := by
  cases isDirty <;> decide

theorem dirtyInc_cleanRow (r : UInt8 × RowValue) : RowProcess.dirtyInc (cleanRow r).1 = 0 := by
  unfold cleanRow RowProcess.dirtyInc dirtyRow
  by_cases hd : r.1 &&& operDirty = 0
  · simp [hd]
  · have hclear : r.1 &&& ~~~operDirty &&& operDirty = 0 := by
      rw [UInt8.and_assoc, show ~~~operDirty &&& operDirty = 0 from by decide, UInt8.and_zero]
    simp [hd, hclear]

namespace RowProcess

variable (p : RowProcess)

/-- **The report is true**: the buffer holds as many rows more, and as many dirty rows more, as it says. -/
def DeltasTrue (rows : List (UInt8 × RowValue)) (s : RowPass) : Prop :=
  ∃ out, s.raw.Holds p.toRowLayout out ∧ s.rowsInc = (out.length : Int) - rows.length ∧
    s.dirtyRowsInc = dirtyCount out - dirtyCount rows

variable {p} {rows out : List (UInt8 × RowValue)} {s : RowPass}

theorem dirtyCount_congr {rows rows' : List (UInt8 × RowValue)} (h : rows.map p.storedRow = rows'.map p.storedRow) :
    dirtyCount rows = dirtyCount rows' := by
  have hflag : ∀ rows : List (UInt8 × RowValue), dirtyCount rows =
      ((rows.map p.storedRow).map (fun r => dirtyInc r.1)).sum := fun rows => by
    induction rows with
    | nil => rfl
    | cons r rows ih =>
      rw [dirtyCount_cons, ih]
      rfl
  rw [hflag rows, h, ← hflag]

theorem deltasTrue_iff (h : s.raw.Holds p.toRowLayout out) : p.DeltasTrue rows s ↔
    s.rowsInc = (out.length : Int) - rows.length ∧ s.dirtyRowsInc = dirtyCount out - dirtyCount rows := by
  constructor
  · rintro ⟨out', h', h1, h2⟩
    have hstored : out'.map p.storedRow = out.map p.storedRow := Option.some.inj (h'.decodedRows.symm.trans h.decodedRows)
    have hlen : out'.length = out.length := by simpa using congrArg List.length hstored
    have hdirty := dirtyCount_congr hstored
    rw [h1, h2, hlen, hdirty]
    exact ⟨rfl, rfl⟩
  · rintro ⟨h1, h2⟩
    exact ⟨out, h, h1, h2⟩

/-! ## The walks -/

theorem dirtyCount_walk {visit : RowValue → UInt8 × RowValue → Visit} {inc : UInt8 × RowValue → Int}
    (hvisit : ∀ row r, dirtyCount (visit row r).rows = dirtyInc r.1 + if (visit row r).hit then inc r else 0) :
    ∀ (rows : List (UInt8 × RowValue)) (row : RowValue),
      dirtyCount (walkRows visit row rows) = dirtyCount rows + hitSum visit inc row rows
  | [], _ => rfl
  | r :: rows, row => by
    rw [walkRows, dirtyCount_append, hvisit, dirtyCount_walk hvisit rows, dirtyCount_cons, hitSum_cons]
    omega

theorem dirtyCount_deleteVisit (req : RowRequest) (row : RowValue) (r : UInt8 × RowValue) :
    dirtyCount (p.deleteVisit req row r).rows =
      dirtyInc r.1 + if (p.deleteVisit req row r).hit then -dirtyInc r.1 else 0 := by
  unfold deleteVisit
  by_cases hc : req.compareRow p (p.seen row r) = true
  · simp only [hc, if_true]
    exact (Int.add_right_neg _).symm
  · simp only [(Bool.not_eq_true _).mp hc, Bool.false_eq_true, if_false]
    rw [dirtyCount_singleton, Int.add_zero]

theorem dirtyCount_updateVisit (req : RowRequest) (async : Bool) (row : RowValue) (r : UInt8 × RowValue) :
    dirtyCount (p.updateVisit req async row r).rows =
      dirtyInc r.1 + if (p.updateVisit req async row r).hit then (if async then 1 - dirtyInc r.1 else 0) else 0 := by
  have hup : dirtyInc operUpdate = 1 := by decide
  unfold updateVisit
  by_cases hc : req.compareRow p (p.seen row r) = true
  · simp only [hc, if_true]
    rw [dirtyCount_singleton]
    cases async with
    | true =>
      simp only [if_true]
      rw [hup]
      omega
    | false => simp
  · simp only [(Bool.not_eq_true _).mp hc, Bool.false_eq_true, if_false]
    rw [dirtyCount_singleton, Int.add_zero]

theorem sum_writes (async : Bool) : ∀ rows : List (UInt8 × RowValue),
    (rows.map (fun r => (if async then 1 else 0) - dirtyInc r.1)).sum =
      (if async then (rows.length : Int) else 0) - dirtyCount rows
  | [] => by cases async <;> rfl
  | r :: rows => by
    rw [List.map_cons, List.sum_cons, sum_writes async rows, dirtyCount_cons, List.length_cons]
    cases async with
    | true =>
      simp only [if_true]
      omega
    | false =>
      simp only [Bool.false_eq_true, if_false]
      omega

theorem dirtyCount_eq_zero {rows : List (UInt8 × RowValue)} : dirtyCount rows = 0 ↔ ∀ r ∈ rows, dirtyRow r = false := by
  unfold dirtyCount
  rw [Int.natCast_eq_zero, List.countP_eq_zero]
  simp

variable {req : RowRequest} {b : RawData} {log async setrows isDirty : Bool}

theorem deleteData_deltas (h : b.Holds p.toRowLayout rows) {calls : ProcessCalls}
    (hr : (p.deleteData req b log calls).1 = 0) : p.DeltasTrue rows (p.deleteData req b log calls).2.1 := by
  obtain ⟨hrows, hinc, hdirty⟩ := p.deleteData_walk req h hr
  have hlen := p.length_deleteWalk req rows (fun _ => {})
  refine ⟨_, hrows, ?_, ?_⟩
  · rw [hinc]
    omega
  · rw [hdirty, dirtyCount_walk (dirtyCount_deleteVisit req) rows]
    omega

theorem updateData_deltas (h : b.Holds p.toRowLayout rows) {calls : ProcessCalls}
    (hfit : ∀ n ∈ p.replaceSizes req b.dataSize (fun _ => {}) rows, n < 2 ^ 32)
    (hr : (p.updateData req b log async setrows calls).1 = 0) :
    p.DeltasTrue rows (p.updateData req b log async setrows calls).2.1 ↔
      async = true ∨ ∀ r ∈ hitRows (p.updateVisit req async) (fun _ => {}) rows, dirtyRow r = false := by
  obtain ⟨hrows, -, hinc, hdirty⟩ := p.updateData_walk req h hfit hr
  have hlen := p.length_updateWalk req async rows (fun _ => {})
  rw [deltasTrue_iff hrows, hinc, hdirty, hlen, dirtyCount_walk (dirtyCount_updateVisit req async) rows]
  unfold hitSum
  rw [sum_writes, ← dirtyCount_eq_zero]
  have hzero : (0 : Int) = (rows.length : Int) - rows.length := (Int.sub_self _).symm
  rw [and_iff_right hzero]
  cases async with
  | true =>
    have hsame := sum_writes true (hitRows (p.updateVisit req true) (fun _ => {}) rows)
    simp only [if_true] at hsame ⊢
    simp only [hsame, true_or, iff_true]
    omega
  | false =>
    simp only [Bool.false_eq_true, if_false, false_or]
    have hnone : ∀ xs : List (UInt8 × RowValue), (xs.map (fun _ => (0 : Int))).sum = 0 := fun xs => by simp
    rw [hnone]
    omega

theorem appendedRows_counts (p : RowProcess) (req : RowRequest) (isDirty : Bool) (rows : List (UInt8 × RowValue)) :
    (p.appendedRows req isDirty rows).length = rows.length + 1 ∧
      dirtyCount (p.appendedRows req isDirty rows) = dirtyCount rows + if isDirty then 1 else 0 := by
  unfold appendedRows
  cases p.insertOrder with
  | true =>
    refine ⟨rfl, ?_⟩
    rw [if_pos rfl, dirtyCount_cons, dirtyInc_insertFlag, Int.add_comm]
  | false =>
    refine ⟨List.length_append, ?_⟩
    rw [if_neg Bool.false_ne_true, dirtyCount_append, dirtyCount_singleton, dirtyInc_insertFlag]

theorem appendData_deltas (h : b.Holds p.toRowLayout rows) {calls : ProcessCalls}
    (hr : (p.appendData req b log isDirty setrows calls).1 = 0) :
    p.DeltasTrue rows (p.appendData req b log isDirty setrows calls).2.1 := by
  have hrows := p.appendData_rows req h hr
  have hcounts : (p.appendData req b log isDirty setrows calls).2.1.rowsInc = 1 ∧
      (p.appendData req b log isDirty setrows calls).2.1.dirtyRowsInc = if isDirty then 1 else 0 := by
    unfold appendData at hr ⊢
    dsimp only at hr ⊢
    split at hr
    · rename_i h0
      exact absurd hr h0
    · rename_i h0
      rw [if_neg h0]
      split at hr
      · rename_i h1
        exact absurd hr h1
      · rename_i h1
        rw [if_neg h1]
        split at hr
        · cases hr
        · rename_i h2
          rw [if_neg h2]
          split at hr
          · cases hr
          · rename_i h3
            rw [if_neg h3]
            exact ⟨rfl, rfl⟩
  obtain ⟨hlen, hdirty⟩ := p.appendedRows_counts req isDirty rows
  refine ⟨_, hrows, ?_, ?_⟩
  · rw [hcounts.1]
    omega
  · rw [hcounts.2, hdirty]
    omega

theorem flushData_deltas (h : b.Holds p.toRowLayout rows) {tasks : Option (List CommitTask)} {copied : Nat → Bool}
    (hr : (p.flushData b isDirty tasks copied).1 = 0) :
    p.DeltasTrue rows (p.flushData b isDirty tasks copied).2.pass := by
  have hclean : ∀ rows : List (UInt8 × RowValue), dirtyCount (rows.map cleanRow) = 0 := fun rows => by
    induction rows with
    | nil => rfl
    | cons r rows ih => rw [List.map_cons, dirtyCount_cons, ih, dirtyInc_cleanRow, Int.add_zero]
  obtain ⟨hdirty, hnot⟩ := flushData_flushed h hr
  cases isDirty with
  | true =>
    have hf := hdirty rfl
    refine ⟨_, hf.holds, ?_, ?_⟩
    · rw [hf.rowsInc, List.append_nil, List.length_map, Int.sub_self]
    · rw [hf.dirtyRowsInc, List.append_nil, hclean]
      unfold dirtyCount
      omega
  | false =>
    have hf := hnot rfl
    refine ⟨_, hf.holds, ?_, ?_⟩
    · rw [hf.rowsInc, List.map_nil, List.nil_append, Int.sub_self]
    · rw [hf.dirtyRowsInc, List.map_nil, List.nil_append, Int.sub_self]
      rfl

/-! ## `ReplaceRows` -/

variable {new : RowValue}

theorem placedRows_counts : ∀ {rows : List (UInt8 × RowValue)}, rows.any (p.isConflict new) = true →
    (p.placedRows new async rows).length + rows.countP (p.isConflict new) = rows.length + 1 ∧
      ∃ r ∈ rows, p.isConflict new r = true ∧
        dirtyCount (p.placedRows new async rows) + dirtyCount (rows.filter (p.isConflict new)) =
          dirtyCount rows + if async then 1 else dirtyInc r.1
  | [], h => by cases h
  | r :: rows, h => by
    rw [placedRows]
    cases hr : p.isConflict new r with
    | true =>
      have hsplit := List.length_eq_countP_add_countP (p.isConflict new) (l := rows)
      have hkept : (rows.filter (fun r => !p.isConflict new r)).length = rows.countP (fun r => !p.isConflict new r) := by
        rw [List.countP_eq_length_filter]
      simp only [Bool.not_eq_true, Bool.decide_eq_false] at hsplit
      have hdirty : dirtyCount (rows.filter (fun r => !p.isConflict new r)) +
          dirtyCount (rows.filter (p.isConflict new)) = dirtyCount rows := by
        clear h hsplit hkept
        induction rows with
        | nil => rfl
        | cons x xs ih =>
          rw [List.filter_cons, List.filter_cons]
          cases p.isConflict new x with
          | true =>
            simp only [Bool.not_true, Bool.false_eq_true, if_true, if_false]
            rw [dirtyCount_cons, dirtyCount_cons]
            omega
          | false =>
            simp only [Bool.not_false, Bool.false_eq_true, if_true, if_false]
            rw [dirtyCount_cons, dirtyCount_cons]
            omega
      refine ⟨?_, r, List.mem_cons_self, hr, ?_⟩
      · rw [if_pos rfl, List.length_cons, List.countP_cons_of_pos hr, List.length_cons]
        omega
      · have hup : dirtyInc operUpdate = 1 := by decide
        rw [if_pos rfl, List.filter_cons_of_pos hr, dirtyCount_cons, dirtyCount_cons, dirtyCount_cons]
        cases async with
        | true =>
          simp only [if_true]
          rw [hup]
          omega
        | false =>
          simp only [Bool.false_eq_true, if_false]
          omega
    | false =>
      rw [List.any_cons, hr, Bool.false_or] at h
      obtain ⟨hlen, r', hr', hc, hdirty⟩ := placedRows_counts h
      have hneg : ¬ p.isConflict new r = true := by
        rw [hr]
        exact Bool.false_ne_true
      refine ⟨?_, r', List.mem_cons_of_mem r hr', hc, ?_⟩
      · rw [if_neg Bool.false_ne_true, List.length_cons, List.countP_cons_of_neg hneg, List.length_cons]
        omega
      · rw [if_neg Bool.false_ne_true, List.filter_cons_of_neg hneg, dirtyCount_cons, dirtyCount_cons]
        omega

theorem replaceRows_deltas {key : PackedKey p.keySize} {calls : ReplaceCalls} (hrows : p.NodeRows b rows)
    (hkey : 16 + packedKeySize p.keySize key.bytes < 2 ^ 32)
    (hfit : ∀ r ∈ rows.find? (p.isConflict (req.updateRow p p.defaultRow)),
      replaceRequest p (req.updateRow p p.defaultRow) b.dataSize r < 2 ^ 32)
    (hr : (p.replaceRows req key b log async setrows calls).1 = 0) :
    p.DeltasTrue rows (p.replaceRows req key b log async setrows calls).2.1 ↔
      rows.countP (p.isConflict (req.updateRow p p.defaultRow)) ≤ 1 ∧
        (async = true ∨ ∀ r ∈ rows, p.isConflict (req.updateRow p p.defaultRow) r = true → dirtyRow r = false) := by
  obtain ⟨hout, -, hinc, hdirty⟩ := replaceRows_ok hrows hkey hfit hr
  rw [deltasTrue_iff hout, hinc, hdirty]
  generalize req.updateRow p p.defaultRow = new
  unfold replacedRows
  cases hany : rows.any (p.isConflict new) with
  | true =>
    obtain ⟨hlen, r, hmem, hc, hplaced⟩ := @placedRows_counts p async new rows hany
    simp only [if_true]
    rw [sum_writes, ← List.countP_eq_length_filter]
    have hpos : 0 < rows.countP (p.isConflict new) := List.countP_pos_iff.mpr ⟨r, hmem, hc⟩
    have hone : (0 : Int) = ((p.placedRows new async rows).length : Int) - rows.length ↔
        rows.countP (p.isConflict new) ≤ 1 := by omega
    rw [hone]
    refine and_congr_right fun hle => ?_
    -- the one row that conflicts
    have hfilter : rows.filter (p.isConflict new) = [r] := by
      have hlen1 : (rows.filter (p.isConflict new)).length = 1 := by
        rw [← List.countP_eq_length_filter]
        omega
      obtain ⟨x, hx⟩ := List.length_eq_one_iff.mp hlen1
      have hin : r ∈ rows.filter (p.isConflict new) := List.mem_filter.mpr ⟨hmem, hc⟩
      rw [hx, List.mem_singleton] at hin
      rw [hx, hin]
    have hall : (∀ x ∈ rows, p.isConflict new x = true → dirtyRow x = false) ↔ dirtyCount [r] = 0 := by
      rw [dirtyCount_eq_zero, ← hfilter]
      simp only [List.mem_filter, and_imp]
    rw [hall, dirtyCount_singleton]
    rw [hfilter, dirtyCount_singleton] at hplaced ⊢
    have hcount : rows.countP (p.isConflict new) = 1 := by omega
    rw [hcount]
    cases async with
    | true =>
      simp only [if_true, true_or, iff_true] at hplaced ⊢
      omega
    | false =>
      simp only [Bool.false_eq_true, if_false, false_or] at hplaced ⊢
      omega
  | false =>
    have hno : ∀ r ∈ rows, ¬ p.isConflict new r = true := fun r hr => by simpa using List.any_eq_false.mp hany r hr
    simp only [Bool.false_eq_true, if_false]
    rw [dirtyCount_append, dirtyCount_singleton, dirtyInc_insertFlag, List.length_append, List.length_singleton,
      List.countP_eq_zero.mpr hno]
    exact iff_of_true ⟨by omega, by omega⟩ ⟨Nat.zero_le 1, .inr fun r hr hc => absurd hc (hno r hr)⟩

/-! ## `ReplaceData` -/

variable {q : ReplaceRequest}

theorem insertResult_ok {row : RowValue} {calls : RowCalls} {s : ReplacePass} (h : s.raw.Holds p.toRowLayout rows)
    (hr : (p.insertResult row calls s).1 = 0) :
    (p.insertResult row calls s).2.raw.Holds p.toRowLayout (rows ++ [(RawData.insertFlag false, row)]) := by
  unfold insertResult at hr ⊢
  dsimp only at hr ⊢
  by_cases hno : (s.raw.insertRow p.toRowLayout row false false calls.alloc true).1 = ecNoMem
  · rw [if_pos hno] at hr ⊢
    by_cases htry : s.tryPurgeCount ≥ 2
    · rw [if_pos htry] at hr
      cases hr
    · rw [if_neg htry] at hr ⊢
      by_cases hret : (retried (s.raw.insertRow p.toRowLayout row false false calls.alloc true) calls.purged
          (fun b => b.insertRow p.toRowLayout row false false calls.retryAlloc true)).1 = 0
      · exact @retried_insertRow p _ _ _ _ _ { calls with tmp := true, retryTmp := true } h hret
      · rw [if_neg hret] at hr
        cases hr
  · rw [if_neg hno] at hr ⊢
    by_cases hret : (s.raw.insertRow p.toRowLayout row false false calls.alloc true).1 = 0
    · obtain ⟨hins, -⟩ := h.insertRow_ok hret
      simpa using hins
    · rw [if_neg hret] at hr
      cases hr

theorem insertResults_ok {calls : Nat → RowCalls} : ∀ (result : List (Option RowValue)) (rows : List (UInt8 × RowValue))
    (i : Nat) (s : ReplacePass), s.raw.Holds p.toRowLayout rows → (p.insertResults q calls result i s).1 = 0 →
      ∃ out, (p.insertResults q calls result i s).2.raw.Holds p.toRowLayout (rows ++ out) ∧
        out.length = result.length ∧ dirtyCount out = 0
  | [], rows, _, s, h, _ => ⟨[], by rw [List.append_nil]; exact h, rfl, rfl⟩
  | none :: _, _, _, _, _, hr => by cases hr
  | some row :: result, rows, i, s, h, hr => by
    rw [insertResults] at hr ⊢
    by_cases h0 : (p.insertResult (q.accessed p s.matchedCount row).1 (calls i)
        { s with matchedCount := (q.accessed p s.matchedCount row).2 }).1 = 0
    · rw [if_neg (not_not.mpr h0)] at hr ⊢
      have hins := insertResult_ok (s := { s with matchedCount := (q.accessed p s.matchedCount row).2 }) h h0
      obtain ⟨out, hout, hlen, hclean⟩ := insertResults_ok result _ (i + 1) _ hins hr
      refine ⟨(RawData.insertFlag false, (q.accessed p s.matchedCount row).1) :: out, ?_, ?_, ?_⟩
      · rw [List.append_cons]
        exact hout
      · rw [List.length_cons, List.length_cons, hlen]
      · rw [dirtyCount_cons, hclean, dirtyInc_insertFlag]
        rfl
    · rw [if_pos h0] at hr
      exact absurd hr h0

theorem retried_init {key : PackedKey p.keySize} (hkey : 16 + packedKeySize p.keySize key.bytes < 2 ^ 32) {hour : Nat}
    {alloc retryAlloc : Alloc} {purged : Bool}
    (hr : (retried (RawData.init p.toRowLayout key 0 hour alloc) purged
      (fun _ => RawData.init p.toRowLayout key 0 hour retryAlloc)).1 = 0) :
    (retried (RawData.init p.toRowLayout key 0 hour alloc) purged
      (fun _ => RawData.init p.toRowLayout key 0 hour retryAlloc)).2.Holds p.toRowLayout [] := by
  unfold retried at hr ⊢
  by_cases hno : (RawData.init p.toRowLayout key 0 hour alloc).1 = ecNoMem ∧ purged = true
  · rw [if_pos hno] at hr ⊢
    exact (RawData.init_ok (by omega) hr).1
  · rw [if_neg hno] at hr ⊢
    exact (RawData.init_ok (by omega) hr).1

theorem replaceData_deltas {key : PackedKey p.keySize} {calls : ReplaceCalls} (hrows : p.NodeRows b rows)
    (hkey : 16 + packedKeySize p.keySize key.bytes < 2 ^ 32) (hr : (p.replaceData q key b calls).1 = 0) :
    p.DeltasTrue rows (p.replaceData q key b calls).2 ↔ ∀ r ∈ rows, dirtyRow r = false := by
  -- the rows `DestroyData` reports
  have hold : (if b.handle then b.attach p.toRowLayout else (0, b)).1 = 0 ∧
      (if b.handle then -((if b.handle then b.attach p.toRowLayout else (0, b)).2.rowCnt : Int) else 0) =
        -(rows.length : Int) := by
    unfold NodeRows at hrows
    by_cases hb : b.handle = true
    · rw [if_pos hb] at hrows
      rw [if_pos hb, if_pos hb, hrows.attach_eq]
      exact ⟨rfl, by rw [hrows.rowCount]⟩
    · rw [if_neg hb] at hrows
      rw [if_neg hb, if_neg hb, hrows]
      exact ⟨rfl, rfl⟩
  unfold replaceData at hr ⊢
  dsimp only at hr ⊢
  rw [if_neg (not_not.mpr hold.1), hold.2] at hr ⊢
  by_cases hi : (retried (RawData.init p.toRowLayout key 0 calls.hour calls.init) calls.initPurged
      (fun _ => RawData.init p.toRowLayout key 0 calls.hour calls.retryInit)).1 = 0
  · rw [if_neg (not_not.mpr hi)] at hr ⊢
    have hempty := retried_init hkey hi
    generalize (retried (RawData.init p.toRowLayout key 0 calls.hour calls.init) calls.initPurged
      (fun _ => RawData.init p.toRowLayout key 0 calls.hour calls.retryInit)).2 = chunk at *
    by_cases h0 : (p.insertResults q calls.row (q.result.getD []) 0 { raw := chunk }).1 = 0
    · rw [if_neg (not_not.mpr h0)] at hr ⊢
      obtain ⟨out, hout, hlen, hclean⟩ := insertResults_ok (q.result.getD []) [] 0 { raw := chunk } hempty h0
      rw [List.nil_append] at hout
      have hafter : ((p.insertResults q calls.row (q.result.getD []) 0 { raw := chunk }).2.raw.touchHours calls.hour).Holds
          p.toRowLayout out := hout.touchHours calls.hour
      refine Iff.trans (deltasTrue_iff hafter) ?_
      rw [← dirtyCount_eq_zero, hlen, hclean]
      have hinc : -(rows.length : Int) + ((q.result.getD []).length : Int) =
          ((q.result.getD []).length : Int) - rows.length := by omega
      rw [and_iff_right hinc]
      show (0 : Int) = 0 - dirtyCount rows ↔ dirtyCount rows = 0
      omega
    · rw [if_pos h0] at hr
      exact absurd hr h0
  · rw [if_pos hi] at hr
    cases hr

/-! ## All operations -/

/-- **When the reported deltas are true.**  `DeleteData`, `AppendData` and `FlushData` that succeed report the differences.
`UpdateData` does when it is asynchronous or writes no dirty row, `ReplaceRows` when at most one row conflicts, and it is
asynchronous or that row is clean, `ReplaceData` when none of the old rows is dirty; they do in no other case. -/
theorem reportedDeltas_iff (req : RowRequest) (q : ReplaceRequest) (key : PackedKey p.keySize) (hrows : p.NodeRows b rows)
    (hkey : 16 + packedKeySize p.keySize key.bytes < 2 ^ 32) (log isDirty async setrows : Bool) (calls : ReplaceCalls)
    (tasks : Option (List CommitTask)) (copied : Nat → Bool) :
    (b.handle = true → (p.deleteData req b log calls.toProcessCalls).1 = 0 →
      p.DeltasTrue rows (p.deleteData req b log calls.toProcessCalls).2.1) ∧
    (b.handle = true → (p.appendData req b log isDirty setrows calls.toProcessCalls).1 = 0 →
      p.DeltasTrue rows (p.appendData req b log isDirty setrows calls.toProcessCalls).2.1) ∧
    (b.handle = true → (p.flushData b isDirty tasks copied).1 = 0 →
      p.DeltasTrue rows (p.flushData b isDirty tasks copied).2.pass) ∧
    (b.handle = true → (p.updateData req b log async setrows calls.toProcessCalls).1 = 0 →
      (∀ n ∈ p.replaceSizes req b.dataSize (fun _ => {}) rows, n < 2 ^ 32) →
      (p.DeltasTrue rows (p.updateData req b log async setrows calls.toProcessCalls).2.1 ↔
        async = true ∨ ∀ r ∈ hitRows (p.updateVisit req async) (fun _ => {}) rows, dirtyRow r = false)) ∧
    ((p.replaceRows req key b log async setrows calls).1 = 0 →
      (∀ r ∈ rows.find? (p.isConflict (req.updateRow p p.defaultRow)),
        replaceRequest p (req.updateRow p p.defaultRow) b.dataSize r < 2 ^ 32) →
      (p.DeltasTrue rows (p.replaceRows req key b log async setrows calls).2.1 ↔
        rows.countP (p.isConflict (req.updateRow p p.defaultRow)) ≤ 1 ∧
          (async = true ∨ ∀ r ∈ rows, p.isConflict (req.updateRow p p.defaultRow) r = true → dirtyRow r = false))) ∧
    ((p.replaceData q key b calls).1 = 0 →
      (p.DeltasTrue rows (p.replaceData q key b calls).2 ↔ ∀ r ∈ rows, dirtyRow r = false)) := by
  have hholds : b.handle = true → b.Holds p.toRowLayout rows := fun hb => by
    unfold NodeRows at hrows
    rwa [if_pos hb] at hrows
  refine ⟨fun hb hr => deleteData_deltas (hholds hb) hr, fun hb hr => appendData_deltas (hholds hb) hr,
    fun hb hr => flushData_deltas (hholds hb) hr, fun hb hr hfit => updateData_deltas (hholds hb) hfit hr,
    fun hr hfit => replaceRows_deltas hrows hkey hfit hr, fun hr => replaceData_deltas hrows hkey hr⟩

def dirtySeven : RawData where
  handle := true
  content := rawHeader 34 2 [1, 0, 0, 0, 0, 0, 0, 3, 0, 0, 0, 5, 0, 0, 0] ++ [0x30, 6, 0, 0, 0, 0x32, 7, 0, 0, 0]
  dataSize := 34
  rowCnt := 2
  dataStart := 24

theorem dirtySeven_rows : (uniqueTable 0).NodeRows dirtySeven [(0x30, uniqueRow 6), (0x32, uniqueRow 7)] := by
  have hholds : dirtySeven.Holds (uniqueTable 0).toRowLayout [(0x30, uniqueRow 6), (0x32, uniqueRow 7)] :=
    ⟨rfl, rfl, by decide, ⟨_, [], ⟨[1, 0, 0, 0, 0, 0, 0], [3, 0, 0, 0, 5, 0, 0, 0], rfl, rfl, rfl, rfl⟩,
      by decide⟩, rfl, by decide +kernel⟩
  exact hholds

/-- A dirty row is replaced asynchronously: it stays dirty, and the report is right. -/
theorem reportedDeltas_iff_seven :
    ((uniqueTable 0).replaceRows replaceSeven uniqueKey dirtySeven false true true roomForAll).1 = 0 ∧
      (uniqueTable 0).DeltasTrue [(0x30, uniqueRow 6), (0x32, uniqueRow 7)]
        ((uniqueTable 0).replaceRows replaceSeven uniqueKey dirtySeven false true true roomForAll).2.1 := by
  have hret : ((uniqueTable 0).replaceRows replaceSeven uniqueKey dirtySeven false true true roomForAll).1 = 0 := by
    decide
  have hfit : ∀ r ∈ [(0x30, uniqueRow 6), (0x32, uniqueRow 7)].find?
      ((uniqueTable 0).isConflict (replaceSeven.updateRow (uniqueTable 0) (uniqueTable 0).defaultRow)),
      replaceRequest (uniqueTable 0) (replaceSeven.updateRow (uniqueTable 0) (uniqueTable 0).defaultRow)
        dirtySeven.dataSize r < 2 ^ 32 := by
    decide
  have hone : [(0x30, uniqueRow 6), (0x32, uniqueRow 7)].countP
      ((uniqueTable 0).isConflict (replaceSeven.updateRow (uniqueTable 0) (uniqueTable 0).defaultRow)) ≤ 1 := by
    decide
  have hkey : 16 + packedKeySize (uniqueTable 0).keySize uniqueKey.bytes < 2 ^ 32 := by decide
  exact ⟨hret, ((reportedDeltas_iff (p := uniqueTable 0) replaceSeven { requestCode := .get } uniqueKey dirtySeven_rows
    hkey false false true true roomForAll none (fun _ => true)).2.2.2.2.1 hret hfit).mpr ⟨hone, .inl rfl⟩⟩

/-- **A synchronous write of a dirty row takes it off the count**: the row is dirty behind the call as before it, and the
report says one dirty row less. -/
theorem replaceRows_deltas_sync :
    ((uniqueTable 0).replaceRows replaceSeven uniqueKey dirtySeven false false true roomForAll).1 = 0 ∧
      ((uniqueTable 0).replaceRows replaceSeven uniqueKey dirtySeven false false true roomForAll).2.1.dirtyRowsInc = -1 ∧
      ((uniqueTable 0).replaceRows replaceSeven uniqueKey dirtySeven false false true
        roomForAll).2.1.raw.decodedRows (uniqueTable 0).toRowLayout = dirtySeven.decodedRows (uniqueTable 0).toRowLayout ∧
      ¬ (uniqueTable 0).DeltasTrue [(0x30, uniqueRow 6), (0x32, uniqueRow 7)]
        ((uniqueTable 0).replaceRows replaceSeven uniqueKey dirtySeven false false true roomForAll).2.1 := by
  have hsame : ((uniqueTable 0).replaceRows replaceSeven uniqueKey dirtySeven false false true
      roomForAll).2.1.raw.decodedRows (uniqueTable 0).toRowLayout =
        dirtySeven.decodedRows (uniqueTable 0).toRowLayout := by
    decide
  have hinc : ((uniqueTable 0).replaceRows replaceSeven uniqueKey dirtySeven false false true
      roomForAll).2.1.dirtyRowsInc = -1 := by
    decide
  refine ⟨by decide, hinc, hsame, ?_⟩
  rintro ⟨out, hout, -, hdirty⟩
  have hstored := Option.some.inj (hout.decodedRows.symm.trans (hsame.trans (show dirtySeven.decodedRows
    (uniqueTable 0).toRowLayout = some ([(0x30, uniqueRow 6), (0x32, uniqueRow 7)].map (uniqueTable 0).storedRow) by
      decide)))
  rw [dirtyCount_congr hstored, hinc] at hdirty
  exact absurd hdirty (by decide)

end RowProcess

end Dtc
