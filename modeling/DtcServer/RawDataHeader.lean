import DtcServer.RawDataFailure
/-!
# RawDataHeader — the counts in a chunk's header

`m_uiDataSize` and `m_uiRowCnt` stand in the header of the chunk as well, and `Attach` takes them from there.  Every call
that changes them writes them to the header, but for `AppendNRecords`.
-/
namespace Dtc

open Bytes

namespace RawData

/-- `AppendNRecords` of rows that are encoded already. -/
def appendNRecords (b : RawData) (uiNRows : Nat) (pchData : List UInt8) (alloc : Alloc) : Int × RawData :=
  let e := b.expandChunk pchData.length alloc
  if e.1 ≠ 0 then e
  else
    let b := e.2.memcpy e.2.dataSize pchData
    (0, { b with dataSize := (b.dataSize + pchData.length) % 2 ^ 32, rowCnt := (b.rowCnt + uiNRows) % 2 ^ 32 })

/-- `CopyAll` of another object. -/
def copyAll (l : RowLayout) (b ref : RawData) (alloc : Alloc) : Int × RawData :=
  let e := b.reAllocChunk ref.dataSize alloc
  if e.1 ≠ 0 then e else e.2.takeOver l ref

/-- **The header has the object's counts**, and an `Attach` to the chunk gives the object back with its cursor at the
first row. -/
structure HeaderMirrors (l : RowLayout) (b : RawData) : Prop where
  dataSize : leNat 4 (slice b.content 1 4) = b.dataSize
  rowCnt : leNat 4 (slice b.content 5 4) = b.rowCnt
  attached : b.attach l = (0, b.rewind)

end RawData

/-- A call that changes the rows; the reference of a copy is another object. -/
inductive RawMutation where
  | insertRow (row : RowValue) (byFirst isDirty : Bool) (alloc : Alloc) (tmp : Bool)
  | insertNRows (rows : List (RowValue × Alloc)) (byFirst isDirty : Bool) (alloc : Alloc) (tmp : Bool)
  | replaceCurRow (row : RowValue) (isDirty : Bool) (alloc : Alloc) (tmp : Bool)
  | deleteCurRow
  | deleteAllRows
  | copyRow (ref : RawData) (alloc : Alloc)
  | copyAll (ref : RawData) (alloc : Alloc)
  | appendNRecords (uiNRows : Nat) (pchData : List UInt8) (alloc : Alloc)

namespace RawMutation

def call (l : RowLayout) (b : RawData) : RawMutation → Int × RawData
  | .insertRow row byFirst isDirty alloc tmp => b.insertRow l row byFirst isDirty alloc tmp
  | .insertNRows rows byFirst isDirty alloc tmp => b.insertNRows l rows byFirst isDirty alloc tmp
  | .replaceCurRow row isDirty alloc tmp => b.replaceCurRow l row isDirty alloc tmp
  | .deleteCurRow => b.deleteCurRow l
  | .deleteAllRows => b.deleteAllRows
  | .copyRow ref alloc => b.copyRow ref alloc
  | .copyAll ref alloc => b.copyAll l ref alloc
  | .appendNRecords uiNRows pchData alloc => b.appendNRecords uiNRows pchData alloc

/-- The cursor is where the call needs it, and no size is cut to 32 bits. -/
def Ready (l : RowLayout) (b : RawData) (rows : List (UInt8 × RowValue)) : RawMutation → Prop
  | .insertRow .. | .insertNRows .. | .deleteAllRows => True
  | .replaceCurRow row _ _ _ => RawData.Replaceable l b rows row
  | .deleteCurRow => b.dataSize ≤ b.rowOffset ∨ ∃ front r back, rows = front ++ r :: back ∧
      b.rowOffset = b.dataStart + (l.encodeRows front).length
  | .copyRow ref _ => b.dataStart ≤ b.offset ∧ b.offset ≤ b.dataSize ∧
      b.dataSize + sub32 ref.offset ref.rowOffset < 2 ^ 32
  | .copyAll ref _ => ∃ rows, ref.Holds l rows
  | .appendNRecords _ pchData _ => b.dataSize + pchData.length < 2 ^ 32

/-- **The call writes what it has changed to the header**: it is not `AppendNRecords`, or that adds nothing. -/
def WritesHeader : RawMutation → Prop
  | .appendNRecords uiNRows pchData _ => pchData = [] ∧ uiNRows % 2 ^ 32 = 0
  | _ => True

end RawMutation

namespace RawData

variable {l : RowLayout} {b : RawData} {rows : List (UInt8 × RowValue)}

theorem header_counts {dataSize rowCnt : Nat} {tail body : List UInt8} (hs : dataSize < 2 ^ 32) (hr : rowCnt < 2 ^ 32) :
    leNat 4 (slice (rawHeader dataSize rowCnt tail ++ body) 1 4) = dataSize ∧
      leNat 4 (slice (rawHeader dataSize rowCnt tail ++ body) 5 4) = rowCnt := by
  have hsize : rawHeader dataSize rowCnt tail ++ body =
      [0] ++ (leBytes 4 dataSize ++ (leBytes 4 rowCnt ++ (tail ++ body))) := by
    simp [rawHeader]
  have hcnt : rawHeader dataSize rowCnt tail ++ body =
      (0 :: leBytes 4 dataSize) ++ (leBytes 4 rowCnt ++ (tail ++ body)) := by
    simp [rawHeader]
  refine ⟨?_, ?_⟩
  · rw [hsize, RowLayout.leNat_slice (by simp) rfl, Nat.mod_eq_of_lt (by omega)]
  · rw [hcnt, RowLayout.leNat_slice (by simp) rfl, Nat.mod_eq_of_lt (by omega)]

theorem headerMirrors_of {tail body : List UInt8} (hc : b.content = rawHeader b.dataSize b.rowCnt tail ++ body)
    (ht : KeyTail l b.dataStart tail) (hd : b.dataSize ≤ b.content.length) (hlt : b.content.length < 2 ^ 32)
    (hr : b.rowCnt < 2 ^ 32) : HeaderMirrors l b := by
  obtain ⟨hsize, hcnt⟩ := @header_counts _ _ tail body (Nat.lt_of_le_of_lt hd hlt) hr
  rw [← hc] at hsize hcnt
  exact ⟨hsize, hcnt, attach_eq hlt hc ht hd hr⟩

theorem Holds.headerMirrors (h : b.Holds l rows) : HeaderMirrors l b := by
  obtain ⟨tail, slack, ht, hc⟩ := h.parts
  have hle := h.dataSize_le
  have hlt := h.chunk
  have hdata := h.dataSize
  have hcount := l.length_le_encodeRows rows
  have hrow := h.rowCount
  exact headerMirrors_of hc ht hle hlt (by omega)

theorem splice_body {head body bytes : List UInt8} {off : Nat} (ho : head.length ≤ off)
    (hroom : off + bytes.length ≤ (head ++ body).length) :
    ∃ body', splice (head ++ body) off bytes = head ++ body' ∧ body'.length = body.length := by
  rw [List.length_append] at hroom
  obtain ⟨pre, rest, rfl, hpre⟩ := exists_split body (n := off - head.length) (by omega)
  rw [List.length_append] at hroom
  obtain ⟨old, post, rfl, hold⟩ := exists_split rest (n := bytes.length) (by omega)
  refine ⟨pre ++ (bytes ++ post), ?_, ?_⟩
  · rw [← List.append_assoc head, splice_append (by rw [List.length_append]; omega) hold, List.append_assoc]
  · simp only [List.length_append, hold]

theorem Holds.copyRow_mirrors (h : b.Holds l rows) {ref : RawData} {alloc : Alloc} (hlo : b.dataStart ≤ b.offset)
    (hhi : b.offset ≤ b.dataSize) (hfit : b.dataSize + sub32 ref.offset ref.rowOffset < 2 ^ 32)
    (hr : (b.copyRow ref alloc).1 = 0) : HeaderMirrors l (b.copyRow ref alloc).2 := by
  unfold copyRow at hr ⊢
  dsimp only at hr ⊢
  by_cases he : (b.expandChunk (sub32 ref.offset ref.rowOffset) alloc).1 = 0
  · obtain ⟨h', chunk, hexp, hroom⟩ := h.expandChunk_ok he
    rw [if_neg (not_not.mpr he), hexp]
    rw [hexp] at h'
    obtain ⟨tail, slack, ht, hc⟩ := h'.parts
    have htl := ht.length
    have hlt := h'.chunk
    have hroom := hroom hfit
    dsimp only at hc htl hlt
    generalize sub32 ref.offset ref.rowOffset = uiSize at hroom hfit ⊢
    have hlen : (slice ref.content ref.rowOffset uiSize).length ≤ uiSize := List.length_take_le _ _
    obtain ⟨body, hput, hbody⟩ := @splice_body (rawHeader b.dataSize b.rowCnt tail) (l.encodeRows rows ++ slack)
      (slice ref.content ref.rowOffset uiSize) b.offset
      (by rw [length_rawHeader]; omega) (by rw [← hc]; omega)
    have hclen := congrArg List.length hc
    rw [List.length_append, ← hbody, length_rawHeader] at hclen
    unfold appendCopy copyFrom memcpy
    dsimp only
    rw [hc, hput, setDataSize_eq rfl, setRowCount_eq rfl]
    refine headerMirrors_of rfl ht ?_ ?_ (Nat.mod_lt _ (by decide))
    · dsimp only
      rw [List.length_append, length_rawHeader, Nat.mod_eq_of_lt hfit]
      omega
    · dsimp only
      rw [List.length_append, length_rawHeader]
      omega
  · rw [if_pos he] at hr
    exact absurd hr he

theorem Holds.copyAll_mirrors (h : b.Holds l rows) {ref : RawData} {alloc : Alloc} {refRows : List (UInt8 × RowValue)}
    (href : ref.Holds l refRows) (hr : (b.copyAll l ref alloc).1 = 0) : HeaderMirrors l (b.copyAll l ref alloc).2 := by
  unfold copyAll at hr ⊢
  dsimp only at hr ⊢
  by_cases he : (b.reAllocChunk ref.dataSize alloc).1 = 0
  · obtain ⟨hroom, hlt, hov, hhandle⟩ := reAllocChunk_ok h.chunk he
    rw [if_neg (not_not.mpr he)]
    have hh : (b.reAllocChunk ref.dataSize alloc).2.handle = true := by
      rcases hhandle with hsame | ⟨-, hnew⟩
      · rw [hsame]
        exact h.handle
      · exact hnew
    exact (href.takeOver_ok hh (hov.trans h.inside) hlt hroom).1.headerMirrors
  · rw [if_pos he] at hr
    exact absurd hr he

theorem Holds.appendNRecords_iff (h : b.Holds l rows) {uiNRows : Nat} {pchData : List UInt8} {alloc : Alloc}
    (hfit : b.dataSize + pchData.length < 2 ^ 32) (hr : (b.appendNRecords uiNRows pchData alloc).1 = 0) :
    HeaderMirrors l (b.appendNRecords uiNRows pchData alloc).2 ↔ pchData = [] ∧ uiNRows % 2 ^ 32 = 0 := by
  unfold appendNRecords at hr ⊢
  dsimp only at hr ⊢
  by_cases he : (b.expandChunk pchData.length alloc).1 = 0
  · obtain ⟨h', chunk, hexp, hroom⟩ := h.expandChunk_ok he
    rw [if_neg (not_not.mpr he), hexp]
    rw [hexp] at h'
    obtain ⟨tail, slack, ht, hc⟩ := h'.parts
    have htl := ht.length
    have hlt := h'.chunk
    have hroom := hroom hfit
    have hrow := h'.rowCount
    have hdata := h'.dataSize
    have hle := h'.dataSize_le
    have hcount := l.length_le_encodeRows rows
    dsimp only at hc htl hlt hrow hdata hle
    obtain ⟨body, hput, hbody⟩ := @splice_body (rawHeader b.dataSize b.rowCnt tail) (l.encodeRows rows ++ slack) pchData b.dataSize
      (by rw [length_rawHeader]; omega) (by rw [← hc]; omega)
    have hclen := congrArg List.length hc
    rw [List.length_append, ← hbody, length_rawHeader] at hclen
    unfold memcpy
    dsimp only
    rw [hc, hput, Nat.mod_eq_of_lt hfit]
    constructor
    · intro hm
      have hsize := hm.dataSize
      have hcnt := hm.rowCnt
      obtain ⟨h1, h2⟩ := @header_counts b.dataSize b.rowCnt tail body
        (by omega) (by omega)
      dsimp only at hsize hcnt
      rw [h1] at hsize
      rw [h2] at hcnt
      refine ⟨List.length_eq_zero_iff.mp (by omega), ?_⟩
      omega
    · rintro ⟨rfl, hzero⟩
      have hcnt : (b.rowCnt + uiNRows) % 2 ^ 32 = b.rowCnt := by omega
      rw [hcnt]
      refine headerMirrors_of rfl ht ?_ ?_ (by dsimp only; omega)
      · dsimp only
        rw [List.length_append, length_rawHeader, List.length_nil]
        omega
      · dsimp only
        rw [List.length_append, length_rawHeader]
        omega
  · rw [if_pos he] at hr
    exact absurd hr he

/-- **When the header has the counts**: a call that succeeds on a buffer with rows leaves the object's counts in the
header, where the next `Attach` finds them, if and only if it is not an `AppendNRecords` that adds something. -/
theorem headerMirrors_iff (h : b.Holds l rows) (m : RawMutation) (hready : m.Ready l b rows)
    (hr : (m.call l b).1 = 0) : HeaderMirrors l (m.call l b).2 ↔ m.WritesHeader := by
  cases m with
  | insertRow row byFirst isDirty alloc tmp => exact iff_of_true (h.insertRow_ok hr).1.headerMirrors trivial
  | insertNRows new byFirst isDirty alloc tmp => exact iff_of_true (h.insertNRows_ok hr).1.headerMirrors trivial
  | replaceCurRow row isDirty alloc tmp =>
    refine iff_of_true ?_ trivial
    rcases hready with hend | ⟨front, r, back, rfl, ho, hreq⟩
    · have hfail : (-2 : Int) = 0 := (congrArg Prod.fst (replaceCurRow_end h.handle hend)).symm.trans hr
      exact absurd hfail (by decide)
    · exact (h.replaceCurRow_ok ho hreq hr).1.headerMirrors
  | deleteCurRow =>
    refine iff_of_true ?_ trivial
    rcases hready with hend | ⟨front, r, back, rfl, ho⟩
    · have hskip : b.deleteCurRow l = (-2, b) := by
        unfold deleteCurRow
        rw [skipRow_end h.handle hend]
        rfl
      have hfail : (-2 : Int) = 0 := (congrArg Prod.fst hskip).symm.trans hr
      exact absurd hfail (by decide)
    · exact (h.deleteCurRow_ok ho).2.1.headerMirrors
  | deleteAllRows => exact iff_of_true h.deleteAllRows_ok.1.headerMirrors trivial
  | copyRow ref alloc =>
    obtain ⟨hlo, hhi, hfit⟩ := hready
    exact iff_of_true (h.copyRow_mirrors hlo hhi hfit hr) trivial
  | copyAll ref alloc =>
    obtain ⟨refRows, href⟩ := hready
    exact iff_of_true (h.copyAll_mirrors href hr) trivial
  | appendNRecords uiNRows pchData alloc => exact h.appendNRecords_iff hready hr

theorem headerMirrors_copyRow :
    ((RawMutation.copyRow { oneRow with rowOffset := 20, offset := 30 } (some [])).call exampleLayout
        { oneRow with offset := 30 }).1 = 0 ∧
      HeaderMirrors exampleLayout ((RawMutation.copyRow { oneRow with rowOffset := 20, offset := 30 } (some [])).call
        exampleLayout { oneRow with offset := 30 }).2 := by
  have hret : ((RawMutation.copyRow { oneRow with rowOffset := 20, offset := 30 } (some [])).call exampleLayout
      { oneRow with offset := 30 }).1 = 0 := by
    decide
  exact ⟨hret, (headerMirrors_iff (oneRow_holds.setOffset 0 30)
    (.copyRow { oneRow with rowOffset := 20, offset := 30 } (some [])) ⟨by decide, by decide, by decide⟩
    hret).mpr trivial⟩

/-- **A row that was appended is gone**: the next `Attach` finds one row. -/
theorem appendNRecords_lost :
    (oneRow.appendNRecords 1 [0x30, 6, 0, 0, 0, 1, 0, 0, 0, 98] (some [])).1 = 0 ∧
      (oneRow.appendNRecords 1 [0x30, 6, 0, 0, 0, 1, 0, 0, 0, 98] (some [])).2.rowCnt = 2 ∧
      ((oneRow.appendNRecords 1 [0x30, 6, 0, 0, 0, 1, 0, 0, 0, 98] (some [])).2.attach exampleLayout).2.rowCnt = 1 ∧
      ¬ HeaderMirrors exampleLayout (oneRow.appendNRecords 1 [0x30, 6, 0, 0, 0, 1, 0, 0, 0, 98] (some [])).2 := by
  refine ⟨by decide, by decide +kernel, by decide +kernel, fun hm => ?_⟩
  exact absurd hm.rowCnt (by decide)

end RawData

end Dtc
