import DtcServer.RawDataProcessSpec
/-!
# RawDataProcessRun — the row operations as operations on lists

A walk over the rows of a node is compared with the list operation it stands for: what it makes of one row, then of all rows.
A condition on a discarded field is judged by what the row variable happens to have there, where `GetData` has the default.
-/
namespace Dtc

open Bytes

/-- The cursor between the rows that are done and the rows to come. -/
structure RawData.Between (l : RowLayout) (b : RawData) (front back : List (UInt8 × RowValue)) : Prop where
  holds : b.Holds l (front ++ back)
  offset : b.offset = b.dataStart + (l.encodeRows front).length

structure Visit where
  rows : List (UInt8 × RowValue)
  row : RowValue
  hit : Bool

namespace RowProcess

variable (p : RowProcess) (req : RowRequest)

def cut (row : RowValue) : RowValue := p.seen row (0, row)

def deleteVisit (row : RowValue) (r : UInt8 × RowValue) : Visit :=
  let row := p.seen row r
  if req.compareRow p row then ⟨[], row, true⟩ else ⟨[r], row, false⟩

def updateVisit (async : Bool) (row : RowValue) (r : UInt8 × RowValue) : Visit :=
  let row := p.seen row r
  if req.compareRow p row then
    let row := p.cut (req.updateRow p row)
    ⟨[(if async then operUpdate else r.1, row)], row, true⟩
  else ⟨[r], row, false⟩

def walkRows (visit : RowValue → UInt8 × RowValue → Visit) : RowValue → List (UInt8 × RowValue) →
    List (UInt8 × RowValue)
  | _, [] => []
  | row, r :: rows => (visit row r).rows ++ walkRows visit (visit row r).row rows

def walkHits (visit : RowValue → UInt8 × RowValue → Visit) : RowValue → List (UInt8 × RowValue) → Nat
  | _, [] => 0
  | row, r :: rows => (visit row r).hit.toNat + walkHits visit (visit row r).row rows

def hitRows (visit : RowValue → UInt8 × RowValue → Visit) : RowValue → List (UInt8 × RowValue) →
    List (UInt8 × RowValue)
  | _, [] => []
  | row, r :: rows => (if (visit row r).hit then [r] else []) ++ hitRows visit (visit row r).row rows

def hitSum (visit : RowValue → UInt8 × RowValue → Visit) (inc : UInt8 × RowValue → Int) (row : RowValue)
    (rows : List (UInt8 × RowValue)) : Int := ((hitRows visit row rows).map inc).sum

theorem hitSum_cons (visit : RowValue → UInt8 × RowValue → Visit) (inc : UInt8 × RowValue → Int) (row : RowValue)
    (r : UInt8 × RowValue) (rows : List (UInt8 × RowValue)) : hitSum visit inc row (r :: rows) =
      (if (visit row r).hit then inc r else 0) + hitSum visit inc (visit row r).row rows := by
  unfold hitSum
  rw [hitRows, List.map_append, List.sum_append]
  cases (visit row r).hit <;> simp

/-- The sizes `UpdateData` asks of the allocator, one for each row it writes, not yet cut to 32 bits. -/
def replaceSizes : Nat → RowValue → List (UInt8 × RowValue) → List Nat
  | _, _, [] => []
  | dataSize, row, r :: rows =>
    let row := p.seen row r
    if req.compareRow p row then
      let new := p.cut (req.updateRow p row)
      (dataSize + p.rowSize new + (if p.rowSize new ≤ p.rowSize r.2 then p.rowSize new else 0) - p.rowSize r.2) ::
        replaceSizes (dataSize + p.rowSize new - p.rowSize r.2) new rows
    else replaceSizes dataSize row rows

/-! ## One row -/

variable {front back : List (UInt8 × RowValue)} {r : UInt8 × RowValue} {s : RowPass}

/-- A step has made of the row in front of the cursor what the visit says. -/
structure Visited (v : Visit) (s s' : RowPass) (front back : List (UInt8 × RowValue)) : Prop where
  between : s'.raw.Between p.toRowLayout (front ++ v.rows) back
  row : s'.row = v.row
  count : s'.count = s.count + v.hit.toNat

theorem between_next (h : s.raw.Between p.toRowLayout front (r :: back)) :
    ({ s.raw with rowOffset := s.raw.offset, offset := s.raw.offset + p.rowSize r.2 } : RawData).Between p.toRowLayout
      (front ++ [r]) back := by
  have ho := h.offset
  refine ⟨?_, ?_⟩
  · rw [← List.append_cons]
    exact h.holds.setOffset _ _
  · simp only [RowLayout.encodeRows_append, RowLayout.encodeRows_cons, RowLayout.encodeRows_nil, List.append_nil,
      List.length_append, RowLayout.length_encodeBytes]
    omega

theorem deleteStep_ok {calls : RowCalls} (h : s.raw.Between p.toRowLayout front (r :: back)) :
    (p.deleteStep req calls s).1 = 0 ∧
      p.Visited (p.deleteVisit req s.row r) s (p.deleteStep req calls s).2 front back ∧
      (p.deleteStep req calls s).2.rowsInc = s.rowsInc - (p.deleteVisit req s.row r).hit.toNat ∧
      (p.deleteStep req calls s).2.dirtyRowsInc =
        s.dirtyRowsInc - if (p.deleteVisit req s.row r).hit then dirtyInc r.1 else 0 := by
  unfold deleteStep deleteVisit
  rw [h.holds.decodeRow_eq h.offset false]
  dsimp only [RowLayout.storedRow]
  rw [p.assign_storedRow]
  by_cases hc : req.compareRow p (p.seen s.row r) = true
  · rw [if_pos hc, if_pos hc]
    have hat := h.holds.setOffset s.raw.offset (s.raw.offset + p.rowSize r.2)
    obtain ⟨h0, h1, h2, -, h4⟩ := hat.deleteCurRow_ok h.offset
    simp only [Bool.false_eq_true, if_false]
    rw [if_neg (not_not.mpr h0)]
    refine ⟨rfl, ⟨⟨?_, ?_⟩, rfl, rfl⟩, rfl, rfl⟩
    · dsimp only
      rw [List.append_nil]
      exact h1
    · dsimp only
      rw [List.append_nil, h4, h2]
      exact h.offset
  · rw [if_neg hc, if_neg hc]
    exact ⟨rfl, ⟨p.between_next h, rfl, rfl⟩, (Int.sub_zero _).symm, (Int.sub_zero _).symm⟩

theorem logRow_frame (s : RowPass) (isDirty : Bool) (alloc : Alloc) :
    ∃ x, (p.logRow s isDirty alloc).2 = { s with affected := x } := by
  unfold logRow
  cases s.affected with
  | none => exact ⟨s.affected, rfl⟩
  | some a => exact ⟨_, rfl⟩

theorem retried_replaceCurRow {b : RawData} {row : RowValue} {async : Bool} {calls : RowCalls}
    (h : b.Holds p.toRowLayout (front ++ r :: back))
    (ho : b.rowOffset = b.dataStart + (p.encodeRows front).length)
    (hreq : b.dataSize + p.rowSize row + (if p.rowSize row ≤ p.rowSize r.2 then p.rowSize row else 0) - p.rowSize r.2 <
      2 ^ 32)
    (hr : (retried (b.replaceCurRow p.toRowLayout row async calls.alloc calls.tmp) calls.purged
      (fun b => b.replaceCurRow p.toRowLayout row async calls.retryAlloc calls.retryTmp)).1 = 0) :
    (retried (b.replaceCurRow p.toRowLayout row async calls.alloc calls.tmp) calls.purged
      (fun b => b.replaceCurRow p.toRowLayout row async calls.retryAlloc calls.retryTmp)).2.Between p.toRowLayout
        (front ++ [(if async then operUpdate else r.1, row)]) back ∧
    (retried (b.replaceCurRow p.toRowLayout row async calls.alloc calls.tmp) calls.purged
      (fun b => b.replaceCurRow p.toRowLayout row async calls.retryAlloc calls.retryTmp)).2.dataStart = b.dataStart := by
  -- a call that succeeds on the buffer, whatever size was asked for before
  have hput : ∀ (n : Nat) (alloc : Alloc) (tmp : Bool),
      (({ b with needSize := n } : RawData).replaceCurRow p.toRowLayout row async alloc tmp).1 = 0 →
      (({ b with needSize := n } : RawData).replaceCurRow p.toRowLayout row async alloc tmp).2.Between
          p.toRowLayout (front ++ [(if async then operUpdate else r.1, row)]) back ∧
        (({ b with needSize := n } : RawData).replaceCurRow p.toRowLayout row async alloc tmp).2.dataStart =
          b.dataStart := fun n alloc tmp h0 => by
    have hn : ({ b with needSize := n } : RawData).Holds p.toRowLayout (front ++ r :: back) :=
      ⟨h.handle, h.inside, h.chunk, h.parts, h.rowCount, h.dataSize⟩
    obtain ⟨h1, h2, -, h4⟩ := hn.replaceCurRow_ok ho hreq h0
    refine ⟨⟨?_, ?_⟩, h2⟩
    · rw [← List.append_cons]
      exact h1
    · rw [h4, h2]
      simp only [RowLayout.encodeRows_append, RowLayout.encodeRows_cons, RowLayout.encodeRows_nil, List.append_nil,
        List.length_append, RowLayout.length_encodeBytes]
      omega
  unfold retried at hr ⊢
  by_cases hno : (b.replaceCurRow p.toRowLayout row async calls.alloc calls.tmp).1 = ecNoMem ∧ calls.purged = true
  · obtain ⟨n, hn⟩ := RawData.replaceCurRow_noMem hno.1
    rw [if_pos hno, hn] at hr ⊢
    exact hput n _ _ hr
  · rw [if_neg hno] at hr ⊢
    exact hput b.needSize _ _ hr

theorem retried_insertRow {b : RawData} {row : RowValue} {rows : List (UInt8 × RowValue)} {first isDirty : Bool}
    {calls : RowCalls} (h : b.Holds p.toRowLayout rows)
    (hr : (retried (b.insertRow p.toRowLayout row first isDirty calls.alloc calls.tmp) calls.purged
      (fun b => b.insertRow p.toRowLayout row first isDirty calls.retryAlloc calls.retryTmp)).1 = 0) :
    (retried (b.insertRow p.toRowLayout row first isDirty calls.alloc calls.tmp) calls.purged
      (fun b => b.insertRow p.toRowLayout row first isDirty calls.retryAlloc calls.retryTmp)).2.Holds p.toRowLayout
      (if first then (RawData.insertFlag isDirty, row) :: rows else rows ++ [(RawData.insertFlag isDirty, row)]) := by
  -- an insertion that succeeds, wherever the cursor is
  have hput : ∀ (b : RawData) (alloc : Alloc) (tmp : Bool), b.Holds p.toRowLayout rows →
      (b.insertRow p.toRowLayout row first isDirty alloc tmp).1 = 0 →
      (b.insertRow p.toRowLayout row first isDirty alloc tmp).2.Holds p.toRowLayout
        (if first then (RawData.insertFlag isDirty, row) :: rows else rows ++ [(RawData.insertFlag isDirty, row)]) :=
    fun b alloc tmp hb h0 => by
      obtain ⟨hins, -⟩ := hb.insertRow_ok h0
      cases first with
      | false => simpa using hins
      | true =>
        by_cases hne : rows = []
        · simpa [hne] using hins
        · simpa [hne] using hins
  unfold retried at hr ⊢
  by_cases hno : (b.insertRow p.toRowLayout row first isDirty calls.alloc calls.tmp).1 = ecNoMem ∧ calls.purged = true
  · obtain ⟨n, hn⟩ := RawData.insertRow_noMem hno.1
    rw [if_pos hno, hn] at hr ⊢
    have hb : ({ b with offset := b.dataSize, needSize := n } : RawData).Holds p.toRowLayout rows :=
      ⟨h.handle, h.inside, h.chunk, h.parts, h.rowCount, h.dataSize⟩
    exact hput _ _ _ hb hr
  · rw [if_neg hno] at hr ⊢
    exact hput _ _ _ h hr

theorem writeBack_ok {async : Bool} {flag : UInt8} {calls : RowCalls}
    (h : s.raw.Holds p.toRowLayout (front ++ r :: back))
    (ho : s.raw.rowOffset = s.raw.dataStart + (p.encodeRows front).length)
    (hreq : s.raw.dataSize + p.rowSize s.row + (if p.rowSize s.row ≤ p.rowSize r.2 then p.rowSize s.row else 0) -
      p.rowSize r.2 < 2 ^ 32) (hr : (p.writeBack async flag calls s).1 = 0) :
    (p.writeBack async flag calls s).2.raw.Between p.toRowLayout
        (front ++ [(if async then operUpdate else r.1, s.row)]) back ∧
      (p.writeBack async flag calls s).2.raw.dataStart = s.raw.dataStart ∧
      (p.writeBack async flag calls s).2.row = s.row ∧ (p.writeBack async flag calls s).2.count = s.count ∧
      (p.writeBack async flag calls s).2.rowsInc = s.rowsInc ∧
      (p.writeBack async flag calls s).2.dirtyRowsInc = s.dirtyRowsInc - dirtyInc flag + if async then 1 else 0 := by
  unfold writeBack at hr ⊢
  dsimp only at hr ⊢
  split at hr
  · cases hr
  · rename_i h0
    rw [if_neg h0]
    rw [not_not] at h0
    obtain ⟨hrows, hstart⟩ := p.retried_replaceCurRow h ho hreq h0
    exact ⟨hrows, hstart, rfl, rfl, rfl, rfl⟩

theorem rowSize_cut (row : RowValue) : p.rowSize (p.cut row) = p.rowSize row := by
  have hfields : ∀ js : List Nat, (∀ j ∈ js, j ∈ p.storedIds) → p.fieldsSize (p.cut row) js = p.fieldsSize row js := by
    intro js hjs
    induction js with
    | nil => rfl
    | cons j js ih =>
      have hcut : p.cut row j = p.narrow (p.tdef.field j) (row j) := by
        unfold cut seen
        rw [if_pos (hjs j List.mem_cons_self)]
      have hbytes : RowLayout.fieldBytes (p.tdef.field j) (p.cut row j) =
          RowLayout.fieldBytes (p.tdef.field j) (row j) := by
        rw [hcut]
        unfold RowLayout.fieldBytes RowLayout.narrow
        cases (p.tdef.field j).fieldType <;> rfl
      rw [RowLayout.fieldsSize, RowLayout.fieldsSize, hbytes, ih (fun i hi => hjs i (List.mem_cons_of_mem j hi))]
  unfold RowLayout.rowSize
  rw [hfields _ (fun _ hj => hj)]

/-- The cursor is behind the row `r`, whose values the row variable has, and no size of its replacement is cut to 32 bits. -/
structure AtMatch (s : RowPass) (front : List (UInt8 × RowValue)) (r : UInt8 × RowValue) (back : List (UInt8 × RowValue)) :
    Prop where
  holds : s.raw.Holds p.toRowLayout (front ++ r :: back)
  offset : s.raw.rowOffset = s.raw.dataStart + (p.encodeRows front).length
  row : ∀ j ∈ p.storedIds, s.row j = p.narrow (p.tdef.field j) (r.2 j)
  fits : s.raw.dataSize + p.rowSize (req.updateRow p s.row) +
    (if p.rowSize (req.updateRow p s.row) ≤ p.rowSize r.2 then p.rowSize (req.updateRow p s.row) else 0) -
    p.rowSize r.2 < 2 ^ 32

/-- A row that matches ends with an error in front of `ReplaceCurRow`, or with that; the operations in place have been done. -/
theorem updateMatch_eq {async : Bool} {hour : Nat} {calls : RowCalls}
    (h : p.AtMatch req s front r back) :
    ∃ content x, RawData.Holds p.toRowLayout { s.raw with content := content }
        (front ++ (r.1, p.writtenRow (req.operations p) s.row r.2) :: back) ∧
      ((p.updateMatch req async hour r.1 calls s).1 ≠ 0 ∧
          (p.updateMatch req async hour r.1 calls s).2.raw = { s.raw with content := content } ∨
        p.updateMatch req async hour r.1 calls s = p.writeBack async r.1 calls
          { s with
            raw := { s.raw with content := content }, row := p.cut (req.updateRow p s.row), affected := x
            count := s.count + 1 }) := by
  obtain ⟨content, happlied, hholds⟩ := p.applyUpdates_ok req (s := { s with count := s.count + 1 }) h.holds h.offset h.row
  unfold updateMatch
  rw [happlied]
  obtain ⟨x, hlog⟩ := p.logRow_frame
    { s with raw := { s.raw with content := content }, row := req.updateRow p s.row, count := s.count + 1 } async calls.copy
  dsimp only
  rw [hlog]
  refine ⟨content, x, hholds, ?_⟩
  split
  · exact .inl ⟨(by decide : (-2 : Int) ≠ 0), rfl⟩
  · split
    · exact .inl ⟨(by decide : (-3 : Int) ≠ 0), rfl⟩
    · rename_i he
      rw [not_not] at he
      obtain ⟨hdata, hle, hlt, -⟩ := h.holds.sizes
      have hreq := h.fits
      have hfit : p.rowSize (req.updateRow p s.row) +
          (16 + packedKeySize p.keySize ((RawData.key p.toRowLayout { s.raw with content := content }).bytes)) < 2 ^ 32 := by
        rw [← hholds.key_size]
        dsimp only
        split at hreq <;> omega
      have henc := p.encodeToPrivateArea_ok hfit he
      dsimp only at henc ⊢
      rw [henc]
      exact .inr rfl

theorem updateMatch_ok {async : Bool} {hour : Nat} {calls : RowCalls}
    (h : p.AtMatch req s front r back) (hr : (p.updateMatch req async hour r.1 calls s).1 = 0) :
    (p.updateMatch req async hour r.1 calls s).2.raw.Between p.toRowLayout
        (front ++ [(if async then operUpdate else r.1, p.cut (req.updateRow p s.row))]) back ∧
      (p.updateMatch req async hour r.1 calls s).2.raw.dataStart = s.raw.dataStart ∧
      (p.updateMatch req async hour r.1 calls s).2.row = p.cut (req.updateRow p s.row) ∧
      (p.updateMatch req async hour r.1 calls s).2.count = s.count + 1 ∧
      (p.updateMatch req async hour r.1 calls s).2.rowsInc = s.rowsInc ∧
      (p.updateMatch req async hour r.1 calls s).2.dirtyRowsInc =
        s.dirtyRowsInc - dirtyInc r.1 + if async then 1 else 0 := by
  obtain ⟨content, x, hholds, ⟨hne, -⟩ | he⟩ := p.updateMatch_eq req h
  · exact absurd hr hne
  · rw [he] at hr ⊢
    have hback := p.writeBack_ok (s := { s with
      raw := { s.raw with content := content }, row := p.cut (req.updateRow p s.row), affected := x
      count := s.count + 1 }) hholds h.offset (by
      dsimp only
      rw [p.rowSize_cut, p.rowSize_writtenRow h.row]
      exact h.fits) hr
    exact hback

/-- The pass behind the row `r`, which has been decoded. -/
def behind (s : RowPass) (r : UInt8 × RowValue) : RowPass :=
  { s with
    raw := { s.raw with rowOffset := s.raw.offset, offset := s.raw.offset + p.rowSize r.2 }
    row := p.seen s.row r }

theorem updateStep_eq {async : Bool} {hour : Nat} {calls : RowCalls} (h : s.raw.Between p.toRowLayout front (r :: back)) :
    p.updateStep req async hour calls s =
      if req.compareRow p (p.seen s.row r) then p.updateMatch req async hour r.1 calls (p.behind s r)
      else (0, p.behind s r) := by
  unfold updateStep
  rw [h.holds.decodeRow_eq h.offset false]
  dsimp only [RowLayout.storedRow]
  rw [p.assign_storedRow]
  rfl

theorem atMatch_behind (h : s.raw.Between p.toRowLayout front (r :: back))
    (hfit : ∀ n ∈ p.replaceSizes req s.raw.dataSize s.row (r :: back), n < 2 ^ 32)
    (hc : req.compareRow p (p.seen s.row r) = true) : p.AtMatch req (p.behind s r) front r back where
  holds := h.holds.setOffset s.raw.offset (s.raw.offset + p.rowSize r.2)
  offset := h.offset
  row j hj := by
    unfold behind seen
    dsimp only
    rw [if_pos hj]
  fits := by
    unfold replaceSizes at hfit
    dsimp only at hfit
    rw [if_pos hc] at hfit
    have hhere := (List.forall_mem_cons.mp hfit).1
    rwa [p.rowSize_cut] at hhere

theorem updateStep_ok {async : Bool} {hour : Nat} {calls : RowCalls}
    (h : s.raw.Between p.toRowLayout front (r :: back))
    (hfit : ∀ n ∈ p.replaceSizes req s.raw.dataSize s.row (r :: back), n < 2 ^ 32)
    (hr : (p.updateStep req async hour calls s).1 = 0) :
    p.Visited (p.updateVisit req async s.row r) s (p.updateStep req async hour calls s).2 front back ∧
      (∀ n ∈ p.replaceSizes req (p.updateStep req async hour calls s).2.raw.dataSize
        (p.updateStep req async hour calls s).2.row back, n < 2 ^ 32) ∧
      (p.updateStep req async hour calls s).2.rowsInc = s.rowsInc ∧
      (p.updateStep req async hour calls s).2.dirtyRowsInc = s.dirtyRowsInc +
        if (p.updateVisit req async s.row r).hit then (if async then 1 else 0) - dirtyInc r.1 else 0 := by
  rw [p.updateStep_eq req h] at hr ⊢
  unfold updateVisit
  by_cases hc : req.compareRow p (p.seen s.row r) = true
  · have hat := p.atMatch_behind req h hfit hc
    unfold replaceSizes at hfit
    dsimp only at hfit
    rw [if_pos hc] at hr hfit ⊢
    rw [if_pos hc]
    have hrest := (List.forall_mem_cons.mp hfit).2
    obtain ⟨h1, h2, h3, h4, h5, h6⟩ := p.updateMatch_ok req hat hr
    change _ = s.raw.dataStart at h2
    change _ = p.cut (req.updateRow p (p.seen s.row r)) at h3
    refine ⟨⟨h1, h3, h4⟩, ?_, h5, by rw [h6, if_pos rfl]; dsimp only [behind]; omega⟩
    have hold := h.holds.dataSize
    have hnew := h1.holds.dataSize
    rw [h2] at hnew
    simp only [RowLayout.encodeRows_append, RowLayout.encodeRows_cons, RowLayout.encodeRows_nil, List.append_nil,
      List.length_append, RowLayout.length_encodeBytes] at hold hnew
    rw [h3, hnew]
    rwa [show s.raw.dataSize + p.rowSize (p.cut (req.updateRow p (p.seen s.row r))) - p.rowSize r.2 =
      s.raw.dataStart + ((p.encodeRows front).length + p.rowSize (p.cut (req.updateRow p (p.seen s.row r))) +
        (p.encodeRows back).length) by omega] at hrest
  · unfold replaceSizes at hfit
    dsimp only at hfit
    rw [if_neg hc] at hfit ⊢
    rw [if_neg hc]
    exact ⟨⟨p.between_next h, rfl, rfl⟩, hfit, rfl, (Int.add_zero _).symm⟩

/-! ## All rows -/

theorem eachRow_inv {step : RowCalls → RowPass → Int × RowPass} {calls : Nat → RowCalls}
    {inv : List (UInt8 × RowValue) → List (UInt8 × RowValue) → RowPass → Prop}
    (hstep : ∀ calls done r back s, inv done (r :: back) s → (step calls s).1 = 0 →
      inv (done ++ [r]) back (step calls s).2) :
    ∀ (back done : List (UInt8 × RowValue)) (i : Nat) (s : RowPass), inv done back s →
      (eachRow step calls back.length i s).1 = 0 → inv (done ++ back) [] (eachRow step calls back.length i s).2
  | [], done, _, s, h, _ => by
    rw [List.append_nil]
    exact h
  | r :: back, done, i, s, h, hr => by
    rw [List.length_cons, eachRow] at hr ⊢
    by_cases h0 : (step (calls i) s).1 = 0
    · rw [if_neg (not_not.mpr h0)] at hr ⊢
      rw [List.append_cons]
      exact eachRow_inv hstep back (done ++ [r]) (i + 1) _ (hstep _ _ _ _ _ h h0) hr
    · rw [if_pos h0] at hr
      exact absurd hr h0

theorem eachRow_ok {step : RowCalls → RowPass → Int × RowPass} {visit : RowValue → UInt8 × RowValue → Visit}
    {calls : Nat → RowCalls} {P : RowPass → List (UInt8 × RowValue) → Prop}
    (hstep : ∀ calls s front r back, s.raw.Between p.toRowLayout front (r :: back) → P s (r :: back) →
      (step calls s).1 = 0 → p.Visited (visit s.row r) s (step calls s).2 front back ∧ P (step calls s).2 back) :
    ∀ (back front : List (UInt8 × RowValue)) (i : Nat) (s : RowPass), s.raw.Between p.toRowLayout front back → P s back →
      (eachRow step calls back.length i s).1 = 0 →
      (eachRow step calls back.length i s).2.raw.Between p.toRowLayout (front ++ walkRows visit s.row back) [] ∧
        (eachRow step calls back.length i s).2.count = s.count + walkHits visit s.row back ∧
        P (eachRow step calls back.length i s).2 []
  | [], front, i, s, h, hp, _ => by
    rw [walkRows, List.append_nil]
    exact ⟨h, rfl, hp⟩
  | r :: back, front, i, s, h, hp, hr => by
    rw [List.length_cons, eachRow] at hr ⊢
    by_cases h0 : (step (calls i) s).1 = 0
    · rw [if_neg (not_not.mpr h0)] at hr ⊢
      obtain ⟨⟨h1, h2, h3⟩, h4⟩ := hstep _ _ _ _ _ h hp h0
      obtain ⟨i1, i2, i3⟩ := eachRow_ok hstep back _ (i + 1) _ h1 h4 hr
      rw [h2] at i1 i2
      refine ⟨?_, ?_, i3⟩
      · rw [walkRows, ← List.append_assoc]
        exact i1
      · rw [i2, h3, walkHits, Nat.add_assoc]
    · rw [if_pos h0] at hr
      exact absurd hr h0

variable {b : RawData} {rows : List (UInt8 × RowValue)} {log : Bool} {calls : ProcessCalls}

theorem attachData_ok (h : b.Holds p.toRowLayout rows) (hr : (p.attachData b log calls).1 = 0) :
    (p.attachData b log calls).2.raw.Between p.toRowLayout [] rows ∧ (p.attachData b log calls).2.row = (fun _ => {}) ∧
      (p.attachData b log calls).2.count = 0 ∧ (p.attachData b log calls).2.raw.dataSize = b.dataSize := by
  have hfirst : ({ b with offset := b.dataStart, rowOffset := b.dataStart } : RawData).Between p.toRowLayout [] rows :=
    ⟨h.setOffset _ _, rfl⟩
  unfold attachData at hr ⊢
  rw [h.attach_eq] at hr ⊢
  rw [if_neg (not_not.mpr rfl)] at hr ⊢
  cases log with
  | false => exact ⟨hfirst, rfl, rfl, rfl⟩
  | true =>
    rw [if_pos rfl] at hr ⊢
    dsimp only at hr ⊢
    split at hr
    · cases hr
    · rename_i h0
      rw [if_neg h0]
      exact ⟨hfirst, rfl, rfl, rfl⟩

theorem attachData_counts (b : RawData) (log : Bool) (calls : ProcessCalls) :
    (p.attachData b log calls).2.rowsInc = 0 ∧ (p.attachData b log calls).2.dirtyRowsInc = 0 := by
  unfold attachData
  dsimp only
  split
  · exact ⟨rfl, rfl⟩
  · split
    · split <;> exact ⟨rfl, rfl⟩
    · exact ⟨rfl, rfl⟩

theorem deleteData_walk (h : b.Holds p.toRowLayout rows) (hr : (p.deleteData req b log calls).1 = 0) :
    (p.deleteData req b log calls).2.1.raw.Holds p.toRowLayout
        (walkRows (p.deleteVisit req) (fun _ => {}) rows) ∧
      (p.deleteData req b log calls).2.1.rowsInc = -(walkHits (p.deleteVisit req) (fun _ => {}) rows : Int) ∧
      (p.deleteData req b log calls).2.1.dirtyRowsInc =
        hitSum (p.deleteVisit req) (fun r => -dirtyInc r.1) (fun _ => {}) rows := by
  unfold deleteData at hr ⊢
  dsimp only at hr ⊢
  by_cases ha : (p.attachData b log calls).1 = 0
  · obtain ⟨hfirst, hrow, -, -⟩ := p.attachData_ok h ha
    obtain ⟨hzero, hzero'⟩ := p.attachData_counts b log calls
    rw [if_neg (not_not.mpr ha)] at hr ⊢
    generalize (p.attachData b log calls).2 = s at *
    rw [hfirst.holds.rowCount] at hr ⊢
    split at hr
    · rename_i h0
      exact absurd hr h0
    · rename_i h0
      rw [if_neg h0]
      rw [not_not] at h0
      -- what was counted and what is to come is the same at every row
      obtain ⟨hwalk, -, hinc, hdirty⟩ := p.eachRow_ok
        (P := fun s' back => s'.rowsInc - walkHits (p.deleteVisit req) s'.row back =
            -(walkHits (p.deleteVisit req) s.row rows : Int) ∧
          s'.dirtyRowsInc + hitSum (p.deleteVisit req) (fun r => -dirtyInc r.1) s'.row back =
            hitSum (p.deleteVisit req) (fun r => -dirtyInc r.1) s.row rows)
        (fun _ s' _ r _ hb hp _ => by
          obtain ⟨-, hv, h1, h2⟩ := p.deleteStep_ok req hb
          refine ⟨hv, ?_⟩
          rw [walkHits, hitSum_cons] at hp
          rw [hv.row, h1, h2]
          generalize (p.deleteVisit req s'.row r).hit = hit at hp ⊢
          cases hit with
          | true =>
            simp only [if_true, Bool.toNat_true] at hp ⊢
            omega
          | false =>
            simp only [Bool.false_eq_true, if_false, Bool.toNat_false] at hp ⊢
            omega) rows [] 0 s hfirst (by omega) h0
      have hrows := hwalk.holds
      rw [List.append_nil, List.nil_append, hrow] at hrows
      rw [walkHits, hrow] at hinc
      rw [show hitSum (p.deleteVisit req) _ _ [] = 0 from rfl, hrow] at hdirty
      refine ⟨?_, (Int.sub_zero _).symm.trans hinc, (Int.add_zero _).symm.trans hdirty⟩
      dsimp only
      unfold deleteEnd
      dsimp only
      split
      · split
        · exact (hrows.stripMem _).1.touchHours _
        · exact (hrows.stripMem _).1
      · split
        · exact hrows.touchHours _
        · exact hrows
  · rw [if_pos ha] at hr
    exact absurd hr ha

theorem updateData_walk {async setrows : Bool} (h : b.Holds p.toRowLayout rows)
    (hfit : ∀ n ∈ p.replaceSizes req b.dataSize (fun _ => {}) rows, n < 2 ^ 32)
    (hr : (p.updateData req b log async setrows calls).1 = 0) :
    (p.updateData req b log async setrows calls).2.1.raw.Holds p.toRowLayout
        (walkRows (p.updateVisit req async) (fun _ => {}) rows) ∧
      (p.updateData req b log async setrows calls).2.1.count =
        walkHits (p.updateVisit req async) (fun _ => {}) rows ∧
      (p.updateData req b log async setrows calls).2.1.rowsInc = 0 ∧
      (p.updateData req b log async setrows calls).2.1.dirtyRowsInc =
        hitSum (p.updateVisit req async) (fun r => (if async then 1 else 0) - dirtyInc r.1) (fun _ => {}) rows := by
  unfold updateData at hr ⊢
  dsimp only at hr ⊢
  by_cases ha : (p.attachData b log calls).1 = 0
  · obtain ⟨hfirst, hrow, hzero, hsize⟩ := p.attachData_ok h ha
    obtain ⟨hinc, hdirty⟩ := p.attachData_counts b log calls
    rw [if_neg (not_not.mpr ha)] at hr ⊢
    generalize (p.attachData b log calls).2 = s at *
    rw [hfirst.holds.rowCount] at hr ⊢
    split at hr
    · rename_i h0
      exact absurd hr h0
    · rename_i h0
      rw [if_neg h0]
      rw [not_not] at h0
      obtain ⟨hwalk, hcount, -, hinc', hdirty'⟩ := p.eachRow_ok
        (P := fun s' back => (∀ n ∈ p.replaceSizes req s'.raw.dataSize s'.row back, n < 2 ^ 32) ∧ s'.rowsInc = 0 ∧
          s'.dirtyRowsInc +
              hitSum (p.updateVisit req async) (fun r => (if async then 1 else 0) - dirtyInc r.1) s'.row back =
            hitSum (p.updateVisit req async) (fun r => (if async then 1 else 0) - dirtyInc r.1) s.row rows)
        (fun _ _ _ _ _ hb hp hs => by
          obtain ⟨hv, hfit, h1, h2⟩ := p.updateStep_ok req hb hp.1 hs
          refine ⟨hv, hfit, h1.trans hp.2.1, ?_⟩
          have hsum := hp.2.2
          rw [hitSum_cons] at hsum
          rw [hv.row, h2]
          omega) rows [] 0 s hfirst ⟨by rwa [hsize, hrow], hinc, by rw [hdirty, Int.zero_add]⟩ h0
      have hrows := hwalk.holds
      rw [List.append_nil, List.nil_append, hrow] at hrows
      rw [hzero, hrow, Nat.zero_add] at hcount
      rw [show hitSum (p.updateVisit req async) _ _ [] = 0 from rfl, Int.add_zero, hrow] at hdirty'
      exact ⟨hrows.touchHours _, hcount, hinc', hdirty'⟩
  · rw [if_pos ha] at hr
    exact absurd hr ha

/-! ## `AppendData` -/

theorem uniqStep_ok (row : RowValue) (c : RowCalls) (h : s.raw.Between p.toRowLayout front (r :: back)) :
    (p.uniqStep row c s).2.raw.Between p.toRowLayout (front ++ [r]) back := by
  unfold uniqStep
  rw [h.holds.decodeRow_eq h.offset false]
  exact p.between_next h

theorem appendChecks_ok {r : RowValue} (h : s.raw.Between p.toRowLayout [] rows) (isDirty setrows : Bool) :
    (p.appendChecks r isDirty setrows s).2.raw.Holds p.toRowLayout rows := by
  have hscan : ∀ (back front : List (UInt8 × RowValue)) (i : Nat) (s : RowPass),
      s.raw.Between p.toRowLayout front back →
      (eachRow (p.uniqStep r) (fun _ => {}) back.length i s).2.raw.Holds p.toRowLayout (front ++ back) := by
    intro back
    induction back with
    | nil => exact fun front i s hb => hb.holds
    | cons old back ih =>
      intro front i s hb
      have hnext := p.uniqStep_ok r {} hb
      rw [List.length_cons, eachRow, List.append_cons]
      split
      · exact hnext.holds
      · exact ih _ _ _ hnext
  unfold appendChecks
  split
  · split
    · exact h.holds
    · split
      · rw [h.holds.rowCount]
        exact hscan rows [] 0 s h
      · exact h.holds
  · exact h.holds

def appendedRows (isDirty : Bool) (rows : List (UInt8 × RowValue)) : List (UInt8 × RowValue) :=
  if p.insertOrder then (RawData.insertFlag isDirty, p.newRow req) :: rows
  else rows ++ [(RawData.insertFlag isDirty, p.newRow req)]

theorem appendData_rows {isDirty setrows : Bool} (h : b.Holds p.toRowLayout rows)
    (hr : (p.appendData req b log isDirty setrows calls).1 = 0) :
    (p.appendData req b log isDirty setrows calls).2.1.raw.Holds p.toRowLayout (p.appendedRows req isDirty rows) := by
  unfold appendData at hr ⊢
  dsimp only at hr ⊢
  by_cases ha : (p.attachData b log calls).1 = 0
  · obtain ⟨hfirst, -, -, -⟩ := p.attachData_ok h ha
    rw [if_neg (not_not.mpr ha)] at hr ⊢
    generalize (p.attachData b log calls).2 = s at *
    have hrows := p.appendChecks_ok (r := p.newRow req) hfirst isDirty setrows
    generalize p.appendChecks (p.newRow req) isDirty setrows s = c at *
    split at hr
    · rename_i h0
      exact absurd hr h0
    · rename_i h0
      rw [if_neg h0]
      obtain ⟨x, hlog⟩ := p.logRow_frame { c.2 with row := p.newRow req } isDirty (calls.row 0).copy
      rw [hlog] at hr ⊢
      split at hr
      · cases hr
      · rename_i hg
        rw [if_neg hg]
        dsimp only at hr ⊢
        split at hr
        · cases hr
        · rename_i hret
          rw [if_neg hret]
          rw [not_not] at hret
          exact (p.retried_insertRow hrows hret).touchHours _
  · rw [if_pos ha] at hr
    exact absurd hr ha

end RowProcess

end Dtc
