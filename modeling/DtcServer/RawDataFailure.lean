import DtcServer.RawDataProcessSpec
/-!
# RawDataFailure — what is in the buffer when a call has failed

`InsertRow`, `InsertNRows` and `ReplaceCurRow` ask for room before they write.
-/
namespace Dtc

open Bytes

namespace RawData

variable {l : RowLayout} {b : RawData} {rows : List (UInt8 × RowValue)}

/-- **The rows by decoding, their number and the data size are as before.** -/
structure Unchanged (l : RowLayout) (b b' : RawData) : Prop where
  decoded : b'.rewind.decodeMany l b'.rowCnt = b.rewind.decodeMany l b.rowCnt
  rowCount : b'.rowCnt = b.rowCnt
  dataSize : b'.dataSize = b.dataSize

theorem Holds.decoded (h : b.Holds l rows) :
    b.rewind.decodeMany l b.rowCnt = some (rows.map l.storedRow, b.dataSize) := by
  rw [h.rowCount]
  exact decodeMany_eq l rows [] b.rewind h.rewind rfl

theorem Holds.unchanged {b' : RawData} (h : b.Holds l rows) (h' : b'.Holds l rows) (hs : b'.dataSize = b.dataSize) :
    Unchanged l b b' :=
  ⟨by rw [h'.decoded, h.decoded, hs], h'.rowCount.trans h.rowCount.symm, hs⟩

/-! ## Room for a row -/

theorem setFields_room (row : RowValue) : ∀ (js : List Nat) (b : RawData),
    b.offset + l.fieldsSize row js ≤ b.content.length → (b.setFields l row js).1 = true
  | [], _, _ => rfl
  | j :: js, b, h => by
    rw [RowLayout.fieldsSize] at h
    have hfit : ¬ b.offset + (l.encodeField (l.tdef.field j) (row j)).length > b.content.length := by
      rw [RowLayout.length_encodeField]
      omega
    unfold setFields setValue
    simp only [if_neg hfit, if_true]
    apply setFields_room row js
    dsimp only
    rw [length_splice (by omega), RowLayout.length_encodeField]
    omega

theorem encodeInPlace_iff {row : RowValue} {uchOp : UInt8} :
    (b.encodeInPlace l row uchOp).1 = 0 ↔ b.offset + l.rowSize row ≤ b.content.length := by
  refine ⟨encodeInPlace_room, fun h => ?_⟩
  have hsize : l.rowSize row = 1 + l.fieldsSize row l.storedIds := rfl
  have hone : ¬ b.offset + [uchOp].length > b.content.length := by
    rw [List.length_singleton]
    omega
  have hfields := setFields_room (l := l) row l.storedIds { b with
    content := splice b.content b.offset [uchOp], offset := b.offset + [uchOp].length } (by
      dsimp only
      rw [length_splice (by omega), List.length_singleton]
      omega)
  unfold encodeInPlace setValue
  simp only [if_neg hone, if_true, hfields]

theorem setFields_behind (row : RowValue) : ∀ (js : List Nat) (b : RawData), b.offset ≤ b.content.length →
    ∃ content off, (b.setFields l row js).2 = { b with content := content, offset := off } ∧
      content.length = b.content.length ∧ content.take b.offset = b.content.take b.offset
  | [], b, _ => ⟨b.content, b.offset, rfl, rfl, rfl⟩
  | j :: js, b, hb => by
    unfold setFields setValue
    by_cases hfit : b.offset + (l.encodeField (l.tdef.field j) (row j)).length > b.content.length
    · simp only [if_pos hfit, Bool.false_eq_true, if_false]
      exact ⟨b.content, b.offset, rfl, rfl, rfl⟩
    · simp only [if_neg hfit, if_true]
      have hlen := @length_splice b.content b.offset (l.encodeField (l.tdef.field j) (row j)) (by omega)
      obtain ⟨content, off, hset, hsame, htake⟩ := setFields_behind row js { b with
        content := splice b.content b.offset (l.encodeField (l.tdef.field j) (row j))
        offset := b.offset + (l.encodeField (l.tdef.field j) (row j)).length } (by dsimp only; omega)
      dsimp only at hsame htake
      refine ⟨content, off, hset, hsame.trans hlen, ?_⟩
      have hfront := congrArg (List.take b.offset) htake
      rw [List.take_take, List.take_take, Nat.min_eq_left (Nat.le_add_right _ _)] at hfront
      rw [hfront, splice, List.append_assoc, List.take_left' (by rw [List.length_take]; omega)]

theorem Holds.behind (h : b.Holds l rows) {content : List UInt8} (hlen : content.length = b.content.length)
    (htake : content.take b.dataSize = b.content.take b.dataSize) (off : Nat) :
    ({ b with content := content, offset := off } : RawData).Holds l rows := by
  obtain ⟨tail, slack, ht, hc⟩ := h.parts
  have htl := ht.length
  have hdata := h.dataSize
  have hkeep : (rawHeader b.dataSize b.rowCnt tail ++ l.encodeRows rows).length = b.dataSize := by
    rw [List.length_append, length_rawHeader]
    omega
  have hfront : content.take b.dataSize = rawHeader b.dataSize b.rowCnt tail ++ l.encodeRows rows := by
    rw [htake, hc, ← List.append_assoc, List.take_left' hkeep]
  refine ⟨h.handle, h.inside, hlen ▸ h.chunk, ⟨tail, content.drop b.dataSize, ht, ?_⟩, h.rowCount, h.dataSize⟩
  dsimp only
  rw [← List.append_assoc, ← hfront, List.take_append_drop]

theorem Holds.encodeInPlace_failed (h : b.Holds l rows) (ho : b.offset = b.dataSize) {row : RowValue} {uchOp : UInt8}
    (hr : (b.encodeInPlace l row uchOp).1 ≠ 0) : (b.encodeInPlace l row uchOp).2.Holds l rows ∧
      (b.encodeInPlace l row uchOp).2.dataSize = b.dataSize := by
  have hle := h.dataSize_le
  unfold encodeInPlace setValue at hr ⊢
  by_cases hone : b.offset + [uchOp].length > b.content.length
  · simp only [if_pos hone, Bool.false_eq_true, if_false, and_true]
    exact h
  · simp only [if_neg hone, if_true] at hr ⊢
    have hlen := @length_splice b.content b.offset [uchOp] (by omega)
    obtain ⟨content, off, hset, hsame, htake⟩ := setFields_behind (l := l) row l.storedIds { b with
      content := splice b.content b.offset [uchOp], offset := b.offset + [uchOp].length } (by dsimp only; omega)
    split at hr
    · exact absurd rfl hr
    · rename_i hfields
      rw [if_neg hfields, hset]
      dsimp only at hsame htake ⊢
      have hfront := congrArg (List.take b.dataSize) htake
      rw [List.take_take, List.take_take, Nat.min_eq_left (by omega)] at hfront
      have hkeep : (splice b.content b.offset [uchOp]).take b.dataSize = b.content.take b.dataSize := by
        rw [ho, splice, List.append_assoc, List.take_left' (by rw [List.length_take]; omega)]
      exact ⟨h.behind (hsame.trans hlen) (hfront.trans hkeep) off, rfl⟩

/-! ## `InsertRow` and `InsertNRows` -/

/-- **There is room for a row, or the allocator gives it.** -/
def TakesRow (l : RowLayout) (b : RawData) (row : RowValue) (alloc : Alloc) : Prop :=
  b.dataSize + l.rowSize row ≤ b.content.length ∨
    b.dataSize + l.rowSize row < 2 ^ 32 ∧ (reAlloc b.content (b.dataSize + l.rowSize row) alloc).isSome = true

theorem Holds.expandChunk_failed (h : b.Holds l rows) {n : Nat} {alloc : Alloc} (hr : (b.expandChunk n alloc).1 ≠ 0) :
    ∃ m, (b.expandChunk n alloc).2 = { b with needSize := m } := by
  unfold expandChunk at hr ⊢
  rw [if_neg (by simp [h.handle])] at hr ⊢
  dsimp only at hr ⊢
  split at hr
  · rename_i hbig
    rw [if_pos hbig]
    unfold reAllocTo at hr ⊢
    cases hre : reAlloc b.content ((b.dataSize + n) % 2 ^ 32) alloc with
    | none => exact ⟨_, rfl⟩
    | some chunk =>
      rw [hre] at hr
      exact absurd rfl hr
  · exact absurd rfl hr

theorem Holds.setNeed (h : b.Holds l rows) (n : Nat) : ({ b with needSize := n } : RawData).Holds l rows :=
  ⟨h.handle, h.inside, h.chunk, h.parts, h.rowCount, h.dataSize⟩

theorem Holds.encodeRow_iff (h : b.Holds l rows) (ho : b.offset = b.dataSize) {row : RowValue} {uchOp : UInt8}
    {alloc : Alloc} : ((b.encodeRow l row uchOp alloc).1 = 0 ↔ TakesRow l b row alloc) ∧
      ((b.encodeRow l row uchOp alloc).1 ≠ 0 → (b.encodeRow l row uchOp alloc).2.Holds l rows ∧
        (b.encodeRow l row uchOp alloc).2.dataSize = b.dataSize) := by
  have hlt := h.chunk
  unfold encodeRow
  by_cases he : (b.expandChunk (l.calcRowSize row) alloc).1 = 0
  · obtain ⟨h', chunk, hexp, hroom⟩ := h.expandChunk_ok he
    rw [if_neg (not_not.mpr he), hexp]
    rw [hexp] at h'
    refine ⟨?_, fun hr => h'.encodeInPlace_failed ho hr⟩
    rw [encodeInPlace_iff]
    have hclt := h'.chunk
    dsimp only at hclt ⊢
    rw [ho]
    constructor
    · intro hfit
      -- the chunk is the old one, or the one the allocator gave
      have hcalc : l.calcRowSize row = l.rowSize row := l.calcRowSize_of_lt row (by omega)
      by_cases hold : b.dataSize + l.rowSize row ≤ b.content.length
      · exact .inl hold
      · refine .inr ⟨by omega, ?_⟩
        unfold expandChunk at he
        rw [if_neg (by simp [h.handle]), hcalc] at he
        dsimp only at he
        rw [Nat.mod_eq_of_lt (by omega), if_pos (by omega)] at he
        unfold reAllocTo at he
        cases hre : reAlloc b.content (b.dataSize + l.rowSize row) alloc with
        | none =>
          rw [hre] at he
          cases he
        | some _ => rfl
    · intro htakes
      have hsmall : b.dataSize + l.rowSize row < 2 ^ 32 := by
        rcases htakes with hfit | ⟨hsmall, -⟩
        · omega
        · exact hsmall
      have hcalc : l.calcRowSize row = l.rowSize row := l.calcRowSize_of_lt row (by omega)
      rw [hcalc] at hroom
      exact hroom hsmall
  · obtain ⟨m, hm⟩ := h.expandChunk_failed he
    rw [if_pos he, hm]
    refine ⟨⟨fun h0 => absurd h0 he, fun htakes => ?_⟩, fun _ => ⟨h.setNeed m, rfl⟩⟩
    exfalso
    unfold expandChunk at he
    rw [if_neg (by simp [h.handle])] at he
    dsimp only at he
    rcases htakes with hfit | ⟨hsmall, hsome⟩
    · rw [l.calcRowSize_of_lt row (by omega), Nat.mod_eq_of_lt (by omega), if_neg (by omega)] at he
      exact he rfl
    · rw [l.calcRowSize_of_lt row (by omega), Nat.mod_eq_of_lt hsmall] at he
      split at he
      · unfold reAllocTo at he
        obtain ⟨chunk, hchunk⟩ := Option.isSome_iff_exists.mp hsome
        rw [hchunk] at he
        exact he rfl
      · exact he rfl

theorem rotateRows_failed {uiOldSize : Nat} {tmp : Bool} (hr : (b.rotateRows uiOldSize tmp).1 ≠ 0) :
    (b.rotateRows uiOldSize tmp).2 = b := by
  unfold rotateRows at hr ⊢
  by_cases hboth : sub32 b.dataSize uiOldSize > 0 ∧ sub32 uiOldSize b.dataStart > 0
  · simp only [if_pos hboth] at hr ⊢
    cases tmp with
    | false => rfl
    | true => exact absurd rfl hr
  · simp only [if_neg hboth]

theorem Holds.insertRow_failed (h : b.Holds l rows) {row : RowValue} {byFirst isDirty : Bool} {alloc : Alloc}
    {tmp : Bool} (hr : (b.insertRow l row byFirst isDirty alloc tmp).1 ≠ 0) :
    ¬ TakesRow l b row alloc ∧ (b.insertRow l row byFirst isDirty alloc tmp).2.Holds l rows ∧
        (b.insertRow l row byFirst isDirty alloc tmp).2.dataSize = b.dataSize ∨
      TakesRow l b row alloc ∧ (b.insertRow l row byFirst isDirty alloc tmp).2.Holds l
        (rows ++ [(insertFlag isDirty, row)]) := by
  -- the object with its offset at the end of the data
  have he := h.setOffset b.rowOffset b.dataSize
  obtain ⟨hiff, hfail⟩ := @Holds.encodeRow_iff l _ rows he rfl row (insertFlag isDirty) alloc
  unfold insertRow insertRowFlag at hr ⊢
  dsimp only at hr ⊢
  by_cases henc : (encodeRow l { b with offset := b.dataSize } row (insertFlag isDirty) alloc).1 = 0
  · have htakes := hiff.mp henc
    obtain ⟨h1, -, -, -⟩ := he.encodeRow_ok rfl henc
    refine .inr ⟨htakes, ?_⟩
    cases byFirst with
    | false =>
      simp only [Bool.false_eq_true, and_false, if_false]
      exact h1
    | true =>
      simp only [henc, and_self, if_true] at hr ⊢
      rw [rotateRows_failed hr]
      exact h1
  · simp only [henc, false_and, if_false]
    exact .inl ⟨fun htakes => henc (hiff.mpr htakes), hfail henc⟩

theorem Holds.encodeEach_cases {uchOp : UInt8} : ∀ (new : List (RowValue × Alloc)) {b : RawData}
    {rows : List (UInt8 × RowValue)}, b.Holds l rows → b.offset = b.dataSize →
    ∃ done, (b.encodeEach l uchOp new).2.Holds l (rows ++ done) ∧
      (done = [] → (b.encodeEach l uchOp new).2.dataSize = b.dataSize) ∧
      (done = [] ↔ ∀ r ∈ new.head?, ¬ TakesRow l b r.1 r.2)
  | [], b, rows, h, _ => ⟨[], by rw [List.append_nil]; exact h, fun _ => rfl, by simp⟩
  | (row, alloc) :: new, b, rows, h, ho => by
    obtain ⟨hiff, hfail⟩ := @Holds.encodeRow_iff l b rows h ho row uchOp alloc
    unfold encodeEach
    by_cases henc : (b.encodeRow l row uchOp alloc).1 = 0
    · obtain ⟨h1, -, -, h4⟩ := h.encodeRow_ok ho henc
      obtain ⟨done, hdone, -, -⟩ := encodeEach_cases new h1 h4
      dsimp only
      rw [if_neg (not_not.mpr henc)]
      refine ⟨(uchOp, row) :: done, ?_, fun he => absurd he (List.cons_ne_nil _ _), ?_⟩
      · rw [List.append_cons]
        exact hdone
      · simp [hiff.mp henc]
    · obtain ⟨h1, h2⟩ := hfail henc
      dsimp only
      rw [if_pos henc]
      have hno : ¬ TakesRow l b row alloc := fun htakes => henc (hiff.mpr htakes)
      refine ⟨[], by rw [List.append_nil]; exact h1, fun _ => h2, ?_⟩
      simpa using hno

/-- The size `InsertNRows` reserves. -/
def nRowsSize (l : RowLayout) (new : List (RowValue × Alloc)) : Nat :=
  new.foldl (fun tSize r => (tSize + l.calcRowSize r.1) % 2 ^ 32) 0

/-- **The room for all rows is reserved and the first row is written**, as the size is not cut to 32 bits or there is
room for that row all the same. -/
def TakesFirst (l : RowLayout) (b : RawData) (new : List (RowValue × Alloc)) (alloc : Alloc) : Prop :=
  (b.expandChunk (nRowsSize l new) alloc).1 = 0 ∧
    ∃ r ∈ new.head?, TakesRow l (b.expandChunk (nRowsSize l new) alloc).2 r.1 r.2

theorem Holds.insertNRows_failed (h : b.Holds l rows) {new : List (RowValue × Alloc)} {byFirst isDirty : Bool}
    {alloc : Alloc} {tmp : Bool} (hr : (b.insertNRows l new byFirst isDirty alloc tmp).1 ≠ 0) :
    ¬ TakesFirst l b new alloc ∧ (b.insertNRows l new byFirst isDirty alloc tmp).2.Holds l rows ∧
        (b.insertNRows l new byFirst isDirty alloc tmp).2.dataSize = b.dataSize ∨
      TakesFirst l b new alloc ∧ ∃ done, done ≠ [] ∧
        (b.insertNRows l new byFirst isDirty alloc tmp).2.Holds l (rows ++ done) := by
  have hsize : new.foldl (fun tSize r => (tSize + l.calcRowSize r.1) % 2 ^ 32) 0 = nRowsSize l new := rfl
  unfold TakesFirst
  unfold insertNRows at hr ⊢
  dsimp only at hr ⊢
  rw [hsize] at hr ⊢
  by_cases he : (b.expandChunk (nRowsSize l new) alloc).1 = 0
  · obtain ⟨h', chunk, hexp, -⟩ := h.expandChunk_ok he
    rw [if_neg (not_not.mpr he), hexp] at hr ⊢
    rw [hexp] at h'
    have hat := h'.setOffset b.rowOffset b.dataSize
    dsimp only at hat hr ⊢
    obtain ⟨done, hdone, hsame, hnone⟩ := @Holds.encodeEach_cases l (insertFlag isDirty) new _ _ hat rfl
    -- the rows are turned round behind the loop, or the call fails before
    have hbuf : (if (encodeEach l { b with content := chunk, offset := b.dataSize } (insertFlag isDirty) new).1 ≠ 0 then
          encodeEach l { b with content := chunk, offset := b.dataSize } (insertFlag isDirty) new
        else if byFirst = true then
          (encodeEach l { b with content := chunk, offset := b.dataSize } (insertFlag isDirty) new).2.rotateRows
            b.dataSize tmp
        else encodeEach l { b with content := chunk, offset := b.dataSize } (insertFlag isDirty) new).2 =
        (encodeEach l { b with content := chunk, offset := b.dataSize } (insertFlag isDirty) new).2 := by
      split
      · rfl
      · rename_i hz
        rw [if_neg hz] at hr
        split
        · rename_i hfirst
          rw [if_pos hfirst] at hr
          exact rotateRows_failed hr
        · rfl
    rw [hbuf]
    by_cases hd : done = []
    · left
      subst hd
      rw [List.append_nil] at hdone
      refine ⟨?_, hdone, hsame rfl⟩
      rintro ⟨-, r, hr, htakes⟩
      exact hnone.mp rfl r hr htakes
    · right
      refine ⟨⟨he, ?_⟩, done, hd, hdone⟩
      by_contra hno
      exact hd (hnone.mpr fun r hr htakes => hno ⟨r, hr, htakes⟩)
  · obtain ⟨m, hm⟩ := h.expandChunk_failed he
    rw [if_pos he, hm]
    exact .inl ⟨fun htakes => he htakes.1, h.setNeed m, rfl⟩

/-! ## `ReplaceCurRow` -/

section Cursor

variable {front back : List (UInt8 × RowValue)} {r : UInt8 × RowValue}

theorem replaceCurRow_end (hh : b.handle = true) (hend : b.dataSize ≤ b.rowOffset) {row : RowValue} {isDirty : Bool}
    {alloc : Alloc} {tmp : Bool} : b.replaceCurRow l row isDirty alloc tmp = (-2, b) := by
  unfold replaceCurRow
  rw [skipRow_end hh hend]
  rfl

theorem Holds.replaceGrow_failed (h : b.Holds l (front ++ r :: back))
    (ho : b.rowOffset = b.dataStart + (l.encodeRows front).length) (hs : b.offset = b.rowOffset + l.rowSize r.2)
    {row : RowValue} {flag : UInt8} {alloc : Alloc} (hbig : l.rowSize r.2 < l.rowSize row)
    (hreq : b.dataSize + l.rowSize row - l.rowSize r.2 < 2 ^ 32)
    (hr : (b.replaceGrow l row flag (l.rowSize r.2) alloc).1 ≠ 0) :
    ∃ n, (b.replaceGrow l row flag (l.rowSize r.2) alloc).2 = { b with needSize := n } := by
  obtain ⟨hsize, hle, hlt, -⟩ := h.sizes
  have hcalc : l.calcRowSize row = l.rowSize row := l.calcRowSize_of_lt row (by omega)
  have hnext := h.restSize ho hs
  have hgrow := h.growSize hbig hreq
  unfold replaceGrow reAllocTo at hr ⊢
  simp only [hcalc, hnext, hgrow] at hr ⊢
  cases hre : reAlloc b.content (b.dataSize + l.rowSize row - l.rowSize r.2) alloc with
  | none => exact ⟨_, rfl⟩
  | some chunk =>
    exfalso
    rw [hre] at hr
    simp only [ne_eq, not_true, if_false] at hr
    obtain ⟨-, -, hroom, -⟩ := @reAlloc_keeps [] _ _ _ _ (Nat.zero_le _) hre
    generalize hb : (if (l.encodeRows back).length > 0 then
      ({ b with handle := true, content := chunk } : RawData).memmove (b.offset + (l.rowSize row - l.rowSize r.2))
        b.offset (l.encodeRows back).length
      else { b with handle := true, content := chunk }) = b' at hr
    have hmoved : b'.content.length = chunk.length ∧ b'.rowOffset = b.rowOffset := by
      rw [← hb]
      split
      · refine ⟨length_splice ?_, rfl⟩
        have hle := List.length_take_le (l.encodeRows back).length (chunk.drop b.offset)
        dsimp only [slice] at hle ⊢
        omega
      · exact ⟨rfl, rfl⟩
    have henc : (encodeInPlace l { b' with offset := b'.rowOffset } row flag).1 = 0 := by
      rw [encodeInPlace_iff]
      dsimp only
      rw [hmoved.1, hmoved.2]
      omega
    rw [if_neg (not_not.mpr henc)] at hr
    exact hr rfl

theorem Holds.replaceShrink_room (h : b.Holds l (front ++ r :: back))
    (ho : b.rowOffset = b.dataStart + (l.encodeRows front).length) {row : RowValue} {flag : UInt8} {n : Nat}
    {alloc : Alloc} (hsmall : l.rowSize row ≤ l.rowSize r.2) : (b.replaceShrink l row flag n alloc).1 = 0 := by
  obtain ⟨hsize, hle, -, -⟩ := h.sizes
  have henc : (encodeInPlace l { b with offset := b.rowOffset } row flag).1 = 0 := by
    rw [encodeInPlace_iff]
    dsimp only
    omega
  unfold replaceShrink
  dsimp only
  rw [if_neg (not_not.mpr henc)]

theorem Holds.replaceCurRow_failed (h : b.Holds l (front ++ r :: back))
    (ho : b.rowOffset = b.dataStart + (l.encodeRows front).length) {row : RowValue} {isDirty : Bool} {alloc : Alloc}
    {tmp : Bool}
    (hreq : b.dataSize + l.rowSize row + (if l.rowSize row ≤ l.rowSize r.2 then l.rowSize row else 0) - l.rowSize r.2 <
      2 ^ 32)
    (hr : (b.replaceCurRow l row isDirty alloc tmp).1 ≠ 0) :
    ∃ n off, (b.replaceCurRow l row isDirty alloc tmp).2 = { b with needSize := n, offset := off } := by
  obtain ⟨hsize, hle, hlt, -⟩ := h.sizes
  have hpos := l.rowSize_pos r.2
  have hcur : sub32 (b.rowOffset + l.rowSize r.2) b.rowOffset = l.rowSize r.2 := by
    rw [sub32_eq (by omega) (by omega)]
    omega
  have hcalc : l.calcRowSize row = l.rowSize row := l.calcRowSize_of_lt row (by split at hreq <;> omega)
  have hs := h.setOffset b.rowOffset (b.rowOffset + l.rowSize r.2)
  unfold replaceCurRow at hr ⊢
  rw [h.skipRow_eq ho] at hr ⊢
  simp only [ne_eq, not_true, if_false, hcur, hcalc, if_neg (show ¬ b.rowOffset + 1 > b.content.length by omega)] at hr ⊢
  generalize (if isDirty then operUpdate else b.content.getD b.rowOffset 0) = flag at hr ⊢
  by_cases hbig : l.rowSize row > l.rowSize r.2
  · rw [if_neg (by omega)] at hreq
    simp only [if_pos hbig] at hr ⊢
    by_cases hret : (replaceGrow l { b with offset := b.rowOffset + l.rowSize r.2 } row flag (l.rowSize r.2) alloc).1 = 0
    · rw [if_neg (not_not.mpr hret)] at hr
      exact absurd hret hr
    · obtain ⟨n, hn⟩ := hs.replaceGrow_failed ho rfl hbig (by dsimp only; omega) hret
      rw [if_pos hret, hn]
      exact ⟨n, b.offset, rfl⟩
  · simp only [if_neg hbig] at hr ⊢
    cases tmp with
    | false => exact ⟨b.needSize, _, rfl⟩
    | true =>
      have hret := @Holds.replaceShrink_room l _ front back r hs ho row flag (l.rowSize r.2) alloc (Nat.le_of_not_lt hbig)
      simp only [Bool.not_true, Bool.false_eq_true, if_false, hret, not_true] at hr

end Cursor

def Replaceable (l : RowLayout) (b : RawData) (rows : List (UInt8 × RowValue)) (row : RowValue) : Prop :=
  b.dataSize ≤ b.rowOffset ∨ ∃ front r back, rows = front ++ r :: back ∧
    b.rowOffset = b.dataStart + (l.encodeRows front).length ∧ replaceRequest l b r.2 row < 2 ^ 32

theorem Holds.rows_eq {rows' : List (UInt8 × RowValue)} {b' : RawData} (h : b.Holds l rows) (h' : b'.Holds l rows')
    (hu : Unchanged l b b') : rows'.length = rows.length := by
  rw [← h'.rowCount, hu.rowCount, h.rowCount]

/-- **When a failed call has changed nothing**: `InsertRow` and `InsertNRows` that return an error leave the rows, their
number and the data size as they were if and only if they stopped before the first row was written; `ReplaceCurRow`
always does. -/
theorem failedCalls_unchanged_iff (h : b.Holds l rows) :
    (∀ row byFirst isDirty alloc tmp, (b.insertRow l row byFirst isDirty alloc tmp).1 ≠ 0 →
      (Unchanged l b (b.insertRow l row byFirst isDirty alloc tmp).2 ↔ ¬ TakesRow l b row alloc)) ∧
    (∀ new byFirst isDirty alloc tmp, (b.insertNRows l new byFirst isDirty alloc tmp).1 ≠ 0 →
      (Unchanged l b (b.insertNRows l new byFirst isDirty alloc tmp).2 ↔ ¬ TakesFirst l b new alloc)) ∧
    (∀ row isDirty alloc tmp, Replaceable l b rows row → (b.replaceCurRow l row isDirty alloc tmp).1 ≠ 0 →
      Unchanged l b (b.replaceCurRow l row isDirty alloc tmp).2) := by
  refine ⟨fun row byFirst isDirty alloc tmp hr => ?_, fun new byFirst isDirty alloc tmp hr => ?_,
    fun row isDirty alloc tmp hcur hr => ?_⟩
  · rcases h.insertRow_failed hr with ⟨hno, hrows, hsize⟩ | ⟨htakes, hrows⟩
    · exact iff_of_true (h.unchanged hrows hsize) hno
    · refine iff_of_false (fun hu => ?_) (not_not.mpr htakes)
      have hlen := h.rows_eq hrows hu
      rw [List.length_append] at hlen
      exact absurd hlen (Nat.succ_ne_self _)
  · rcases h.insertNRows_failed hr with ⟨hno, hrows, hsize⟩ | ⟨htakes, done, hne, hrows⟩
    · exact iff_of_true (h.unchanged hrows hsize) hno
    · refine iff_of_false (fun hu => ?_) (not_not.mpr htakes)
      have hlen := h.rows_eq hrows hu
      rw [List.length_append] at hlen
      exact hne (List.length_eq_zero_iff.mp (Nat.add_eq_left.mp hlen))
  · rcases hcur with hend | ⟨front, r, back, rfl, ho, hreq⟩
    · rw [replaceCurRow_end h.handle hend]
      exact h.unchanged h rfl
    · obtain ⟨n, off, heq⟩ := h.replaceCurRow_failed ho hreq hr
      rw [heq]
      exact h.unchanged ((h.setNeed n).setOffset b.rowOffset off) rfl

def oneRow : RawData where
  handle := true
  content := rawHeader 30 1 [1, 9, 0, 9, 0, 9, 0, 1, 0, 0, 0] ++ [0x30, 5, 0, 0, 0, 1, 0, 0, 0, 97]
  dataSize := 30
  rowCnt := 1
  dataStart := 20

theorem oneRow_holds : oneRow.Holds exampleLayout [(0x30, exampleRow 5 [97] (by decide))] :=
  ⟨rfl, rfl, by decide, ⟨_, [], ⟨[1, 9, 0, 9, 0, 9, 0], [1, 0, 0, 0], rfl, rfl, rfl, rfl⟩, by decide⟩, rfl,
    by decide⟩

theorem failedCalls_unchanged_oneRow :
    (oneRow.insertRow exampleLayout (exampleRow 6 [98] (by decide)) true false none true).1 ≠ 0 ∧
      Unchanged exampleLayout oneRow
        (oneRow.insertRow exampleLayout (exampleRow 6 [98] (by decide)) true false none true).2 := by
  have hret : (oneRow.insertRow exampleLayout (exampleRow 6 [98] (by decide)) true false none true).1 ≠ 0 := by
    decide
  refine ⟨hret, ((failedCalls_unchanged_iff oneRow_holds).1 _ _ _ _ _ hret).mpr ?_⟩
  rintro (hroom | ⟨-, hsome⟩)
  · exact absurd hroom (by decide)
  · cases hsome

/-- **A row is in the buffer though its insertion has failed**: there was no memory to move it to the front. -/
theorem insertRow_failed_inserted :
    (oneRow.insertRow exampleLayout (exampleRow 6 [98] (by decide)) true false (some []) false).1 = -12 ∧
      (oneRow.insertRow exampleLayout (exampleRow 6 [98] (by decide)) true false (some []) false).2.rowCnt = 2 ∧
      ¬ Unchanged exampleLayout oneRow
        (oneRow.insertRow exampleLayout (exampleRow 6 [98] (by decide)) true false (some []) false).2 := by
  have hcnt : (oneRow.insertRow exampleLayout (exampleRow 6 [98] (by decide)) true false (some []) false).2.rowCnt = 2 := by
    decide
  refine ⟨by decide, hcnt, fun hu => ?_⟩
  have hsame := hu.rowCount
  rw [hcnt] at hsame
  cases hsame

end RawData

end Dtc
