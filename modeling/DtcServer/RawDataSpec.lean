import DtcServer.RawData
/-!
# RawDataSpec — what the operations of `CRawData` do to the rows of a buffer

`RawData.Holds` says which rows a chunk has.  Each operation that returns 0 takes a chunk with some rows to a chunk with
the rows it should have; where it reads and writes is given by the bytes in front of the place.
-/
namespace Dtc

open Bytes

namespace RowLayout

variable (l : RowLayout)

@[simp] theorem encodeRows_nil : l.encodeRows [] = [] := rfl

@[simp] theorem encodeRows_cons (r : UInt8 × RowValue) (rows : List (UInt8 × RowValue)) :
    l.encodeRows (r :: rows) = l.encodeBytes r ++ l.encodeRows rows := rfl

@[simp] theorem encodeRows_append (rows rows' : List (UInt8 × RowValue)) :
    l.encodeRows (rows ++ rows') = l.encodeRows rows ++ l.encodeRows rows' := by
  unfold encodeRows
  exact List.flatMap_append

theorem rowSize_pos (row : RowValue) : 0 < l.rowSize row := by
  unfold rowSize
  omega

theorem encodeRows_pos {rows : List (UInt8 × RowValue)} (h : rows ≠ []) : 0 < (l.encodeRows rows).length := by
  cases rows with
  | nil => exact absurd rfl h
  | cons r rows =>
    have := l.rowSize_pos r.2
    rw [encodeRows_cons, List.length_append, length_encodeBytes]
    omega

theorem length_le_encodeRows : ∀ rows : List (UInt8 × RowValue), rows.length ≤ (l.encodeRows rows).length
  | [] => Nat.le_refl 0
  | r :: rows => by
    have h1 := l.rowSize_pos r.2
    have h2 := length_le_encodeRows rows
    rw [encodeRows_cons, List.length_append, length_encodeBytes, List.length_cons]
    omega

end RowLayout

/-- The header: type, data size, row count, then the get count, the hours and the key. -/
def rawHeader (dataSize rowCnt : Nat) (tail : List UInt8) : List UInt8 :=
  0 :: (leBytes 4 dataSize ++ (leBytes 4 rowCnt ++ tail))

theorem length_rawHeader (dataSize rowCnt : Nat) (tail : List UInt8) :
    (rawHeader dataSize rowCnt tail).length = 9 + tail.length := by
  simp only [rawHeader, List.length_cons, List.length_append, length_leBytes]
  omega

theorem sub32_eq {a b : Nat} (ha : a < 2 ^ 32) (hb : b ≤ a) : sub32 a b = a - b := by
  unfold sub32
  omega

theorem sub32_mod {a b : Nat} (hb : b < 2 ^ 32) (hba : b ≤ a) (ha : a - b < 2 ^ 32) : sub32 (a % 2 ^ 32) b = a - b := by
  unfold sub32
  omega

theorem reAlloc_keeps {keep slack chunk : List UInt8} {size : Nat} {alloc : Alloc} (hk : keep.length ≤ size)
    (h : reAlloc (keep ++ slack) size alloc = some chunk) :
    ∃ slack', chunk = keep ++ slack' ∧ size ≤ chunk.length ∧ chunk.length < 2 ^ 32 := by
  cases alloc with
  | none => cases h
  | some fill =>
    simp only [reAlloc] at h
    split at h
    · rename_i hlt
      obtain rfl := Option.some.inj h
      refine ⟨slack.take (size - keep.length) ++
        (fill ++ List.replicate (size - (((keep ++ slack).take size).length + fill.length)) 0), ?_, ?_, hlt⟩
      · rw [List.take_append, List.take_of_length_le hk, List.append_assoc]
      · simp only [List.length_append, List.length_replicate]
        omega
    · cases h

namespace RawData

variable {l : RowLayout} {b : RawData}

section Header

variable {dataSize rowCnt : Nat} {tail body : List UInt8}

theorem setDataSize_eq (h : b.content = rawHeader dataSize rowCnt tail ++ body) :
    b.setDataSize = { b with content := rawHeader b.dataSize rowCnt tail ++ body } := by
  have hlen : ¬ 1 + 4 > b.content.length := by
    rw [h, List.length_append, length_rawHeader]
    omega
  have hsplit : rawHeader dataSize rowCnt tail ++ body =
      [0] ++ (leBytes 4 dataSize ++ (leBytes 4 rowCnt ++ (tail ++ body))) := by
    simp [rawHeader]
  unfold setDataSize setValueAtOffset
  rw [if_neg hlen, h, hsplit, splice_append (by simp) (by simp)]
  simp [rawHeader]

theorem setRowCount_eq (h : b.content = rawHeader dataSize rowCnt tail ++ body) :
    b.setRowCount = { b with content := rawHeader dataSize b.rowCnt tail ++ body } := by
  have hlen : ¬ 5 + 4 > b.content.length := by
    rw [h, List.length_append, length_rawHeader]
    omega
  have hsplit : rawHeader dataSize rowCnt tail ++ body =
      (0 :: leBytes 4 dataSize) ++ (leBytes 4 rowCnt ++ (tail ++ body)) := by
    simp [rawHeader]
  unfold setRowCount setValueAtOffset
  rw [if_neg hlen, h, hsplit, splice_append (by simp) (by simp)]
  simp [rawHeader]

end Header

def KeyTail (l : RowLayout) (dataStart : Nat) (tail : List UInt8) : Prop :=
  ∃ info key, tail = info ++ key ∧ info.length = 7 ∧ key.length = packedKeySize l.keySize key ∧
    dataStart = 16 + key.length

theorem KeyTail.length {dataStart : Nat} {tail : List UInt8} (h : KeyTail l dataStart tail) :
    dataStart = 9 + tail.length := by
  obtain ⟨info, key, rfl, hi, -, hs⟩ := h
  rw [List.length_append]
  omega

/-- **The rows a chunk has**: header, key, the rows' bytes, and whatever stands behind them. -/
structure Holds (l : RowLayout) (b : RawData) (rows : List (UInt8 × RowValue)) : Prop where
  handle : b.handle = true
  inside : b.overrun = false
  chunk : b.content.length < 2 ^ 32
  parts : ∃ tail slack, KeyTail l b.dataStart tail ∧
    b.content = rawHeader b.dataSize b.rowCnt tail ++ (l.encodeRows rows ++ slack)
  rowCount : b.rowCnt = rows.length
  dataSize : b.dataSize = b.dataStart + (l.encodeRows rows).length

theorem Holds.dataSize_le {rows : List (UInt8 × RowValue)} (h : b.Holds l rows) : b.dataSize ≤ b.content.length := by
  obtain ⟨tail, slack, ht, hc⟩ := h.parts
  have := ht.length
  rw [hc, List.length_append, length_rawHeader, List.length_append, h.dataSize]
  omega

theorem Holds.setOffset {rows : List (UInt8 × RowValue)} (h : b.Holds l rows) (rowOffset offset : Nat) :
    ({ b with rowOffset := rowOffset, offset := offset } : RawData).Holds l rows :=
  ⟨h.handle, h.inside, h.chunk, h.parts, h.rowCount, h.dataSize⟩

theorem Holds.rewind {rows : List (UInt8 × RowValue)} (h : b.Holds l rows) : b.rewind.Holds l rows :=
  h.setOffset _ _

/-! ## Encoding in place -/

theorem setFields_ok (row : RowValue) : ∀ (js : List Nat) (b : RawData), b.offset ≤ b.content.length →
    (b.setFields l row js).1 = true →
    b.offset + l.fieldsSize row js ≤ b.content.length ∧
      (b.setFields l row js).2 =
        { b with
          content := splice b.content b.offset (l.encodeFields row js)
          offset := b.offset + l.fieldsSize row js }
  | [], b, hb, _ => by
    refine ⟨hb, ?_⟩
    simp only [setFields, RowLayout.encodeFields, splice_nil, RowLayout.fieldsSize, Nat.add_zero]
  | j :: js, b, hb, h => by
    unfold setFields setValue at h ⊢
    by_cases hlen : b.offset + (l.encodeField (l.tdef.field j) (row j)).length > b.content.length
    · simp only [if_pos hlen, Bool.false_eq_true, if_false] at h
    · simp only [if_neg hlen, if_true] at h ⊢
      have hsp : (splice b.content b.offset (l.encodeField (l.tdef.field j) (row j))).length = b.content.length :=
        length_splice (by omega)
      obtain ⟨h1, h2⟩ := setFields_ok row js { b with
        content := splice b.content b.offset (l.encodeField (l.tdef.field j) (row j))
        offset := b.offset + (l.encodeField (l.tdef.field j) (row j)).length } (by dsimp only; omega) h
      dsimp only at h1 h2
      rw [hsp, RowLayout.length_encodeField] at h1
      rw [h2, splice_splice (by omega), RowLayout.fieldsSize, RowLayout.encodeFields, RowLayout.length_encodeField,
        ← Nat.add_assoc]
      exact ⟨h1, rfl⟩

theorem encodeInPlace_ok {row : RowValue} {uchOp : UInt8} {dataSize rowCnt : Nat} {tail pre old post : List UInt8}
    (hc : b.content = rawHeader dataSize rowCnt tail ++ (pre ++ (old ++ post)))
    (ho : b.offset = 9 + tail.length + pre.length) (hl : old.length = l.rowSize row) (hr : b.rowCnt + 1 < 2 ^ 32)
    (hlt : b.content.length < 2 ^ 32) (h : (b.encodeInPlace l row uchOp).1 = 0) :
    (b.encodeInPlace l row uchOp).2 =
      { b with
        content := rawHeader ((b.dataSize + l.rowSize row) % 2 ^ 32) (b.rowCnt + 1) tail ++
          (pre ++ (l.encodeBytes (uchOp, row) ++ post))
        dataSize := (b.dataSize + l.rowSize row) % 2 ^ 32
        rowCnt := b.rowCnt + 1
        offset := b.offset + l.rowSize row } := by
  have hsize : l.rowSize row = 1 + l.fieldsSize row l.storedIds := rfl
  have hlen : b.offset + l.rowSize row ≤ b.content.length := by
    rw [hc]
    simp only [List.length_append, length_rawHeader]
    omega
  have hcalc : l.calcRowSize row = l.rowSize row := l.calcRowSize_of_lt row (by omega)
  have hset : b.setValue [uchOp] = (true, { b with
      content := splice b.content b.offset [uchOp], offset := b.offset + 1 }) := by
    unfold setValue
    rw [if_neg (by simp only [List.length_singleton]; omega)]
    rfl
  unfold encodeInPlace at h ⊢
  simp only [hset, if_true] at h ⊢
  have hsp : (splice b.content b.offset [uchOp]).length = b.content.length :=
    length_splice (by simp only [List.length_singleton]; omega)
  have hfields := setFields_ok (l := l) row l.storedIds { b with
    content := splice b.content b.offset [uchOp], offset := b.offset + 1 } (by dsimp only; omega)
  split at h
  · rename_i hok
    obtain ⟨-, h2⟩ := hfields hok
    rw [if_pos hok, h2]
    dsimp only
    -- the flag and the fields are one write
    have hall : splice (splice b.content b.offset [uchOp]) (b.offset + 1) (l.encodeFields row l.storedIds) =
        rawHeader dataSize rowCnt tail ++ (pre ++ (l.encodeBytes (uchOp, row) ++ post)) := by
      have hone : b.offset + [uchOp].length ≤ b.content.length := by
        rw [List.length_singleton]
        omega
      rw [show b.offset + 1 = b.offset + [uchOp].length from rfl, splice_splice hone, hc,
        ← List.append_assoc (rawHeader _ _ _)]
      rw [splice_append (by rw [List.length_append, length_rawHeader]; omega)
        (by simp only [List.length_append, List.length_singleton, RowLayout.length_encodeFields]; omega)]
      rw [List.append_assoc]
      rfl
    rw [hall, hcalc]
    rw [setDataSize_eq (b := { b with
      content := rawHeader dataSize rowCnt tail ++ (pre ++ (l.encodeBytes (uchOp, row) ++ post))
      dataSize := (b.dataSize + l.rowSize row) % 2 ^ 32
      offset := b.offset + 1 + l.fieldsSize row l.storedIds }) rfl]
    dsimp only
    rw [Nat.mod_eq_of_lt hr]
    rw [setRowCount_eq (b := { b with
      content := rawHeader ((b.dataSize + l.rowSize row) % 2 ^ 32) rowCnt tail ++
        (pre ++ (l.encodeBytes (uchOp, row) ++ post))
      dataSize := (b.dataSize + l.rowSize row) % 2 ^ 32
      rowCnt := b.rowCnt + 1
      offset := b.offset + 1 + l.fieldsSize row l.storedIds }) rfl]
    dsimp only
    rw [hsize, Nat.add_assoc b.offset]
  · cases h

theorem encodeInPlace_room {row : RowValue} {uchOp : UInt8} (h : (b.encodeInPlace l row uchOp).1 = 0) :
    b.offset + l.rowSize row ≤ b.content.length := by
  unfold encodeInPlace setValue at h
  by_cases hlen : b.offset + [uchOp].length > b.content.length
  · simp only [if_pos hlen, Bool.false_eq_true, if_false] at h
    cases h
  · simp only [if_neg hlen, if_true] at h
    rw [List.length_singleton] at hlen
    split at h
    · rename_i hok
      have hsp : (splice b.content b.offset [uchOp]).length = b.content.length :=
        length_splice (by simp only [List.length_singleton]; omega)
      obtain ⟨h1, -⟩ := setFields_ok row l.storedIds _ (by dsimp only; rw [hsp, List.length_singleton]; omega) hok
      dsimp only at h1
      rw [hsp, List.length_singleton] at h1
      unfold RowLayout.rowSize
      omega
    · cases h

/-! ## Rows added at the end and at the front -/

section Insert

variable {rows : List (UInt8 × RowValue)}

theorem Holds.expandChunk_ok (h : b.Holds l rows) {n : Nat} {alloc : Alloc} (hr : (b.expandChunk n alloc).1 = 0) :
    (b.expandChunk n alloc).2.Holds l rows ∧
      ∃ chunk, (b.expandChunk n alloc).2 = { b with content := chunk } ∧
        (b.dataSize + n < 2 ^ 32 → b.dataSize + n ≤ chunk.length) := by
  have hh := h.handle
  unfold expandChunk at hr ⊢
  rw [if_neg (by simp [hh])] at hr ⊢
  dsimp only at hr ⊢
  split
  · rename_i hbig
    rw [if_pos hbig] at hr
    unfold reAllocTo at hr ⊢
    split
    · rename_i hnone
      rw [hnone] at hr
      cases hr
    · rename_i chunk hsome
      obtain ⟨tail, slack, ht, hc⟩ := h.parts
      -- the new chunk is larger than the old one, so all of it stays
      rw [← List.append_nil b.content] at hsome
      obtain ⟨slack', hchunk, hsize, hlt⟩ := reAlloc_keeps (Nat.le_of_lt hbig) hsome
      refine ⟨⟨rfl, h.inside, hlt, ⟨tail, slack ++ slack', ht, ?_⟩, h.rowCount, h.dataSize⟩, chunk, ?_, ?_⟩
      · dsimp only
        rw [hchunk, hc, List.append_assoc, List.append_assoc]
      · rw [hh]
      · intro hn
        rw [Nat.mod_eq_of_lt hn] at hsize
        exact hsize
  · rename_i hsmall
    refine ⟨h, b.content, rfl, fun hn => ?_⟩
    rw [Nat.mod_eq_of_lt hn] at hsmall
    omega

theorem Holds.encodeRow_ok (h : b.Holds l rows) (ho : b.offset = b.dataSize) {row : RowValue} {uchOp : UInt8}
    {alloc : Alloc} (hr : (b.encodeRow l row uchOp alloc).1 = 0) :
    (b.encodeRow l row uchOp alloc).2.Holds l (rows ++ [(uchOp, row)]) ∧
      (b.encodeRow l row uchOp alloc).2.dataStart = b.dataStart ∧
      (b.encodeRow l row uchOp alloc).2.rowOffset = b.rowOffset ∧
      (b.encodeRow l row uchOp alloc).2.offset = (b.encodeRow l row uchOp alloc).2.dataSize := by
  unfold encodeRow at hr ⊢
  by_cases he : (b.expandChunk (l.calcRowSize row) alloc).1 = 0
  · simp only [he, ne_eq, not_true, if_false] at hr ⊢
    obtain ⟨h', chunk, hexp, -⟩ := h.expandChunk_ok he
    rw [hexp] at hr h' ⊢
    obtain ⟨tail, slack, ht, hc⟩ := h'.parts
    have htl := ht.length
    have hroom := encodeInPlace_room hr
    have hlt := h'.chunk
    have hrow := h'.rowCount
    have hdata := h'.dataSize
    have hcount := l.length_le_encodeRows rows
    have hpos := l.rowSize_pos row
    dsimp only at hc htl hroom hlt hrow hdata
    have hslack : l.rowSize row ≤ slack.length := by
      rw [hc] at hroom
      simp only [List.length_append, length_rawHeader] at hroom
      omega
    obtain ⟨old, post, rfl, hold⟩ := exists_split slack hslack
    have henc := encodeInPlace_ok (b := { b with content := chunk }) hc
      (by dsimp only; omega) hold (by dsimp only; omega) hlt hr
    rw [Nat.mod_eq_of_lt (by dsimp only; omega)] at henc
    have hchunk : (rawHeader (b.dataSize + l.rowSize row) (b.rowCnt + 1) tail ++
        (l.encodeRows rows ++ (l.encodeBytes (uchOp, row) ++ post))).length = chunk.length := by
      rw [hc]
      simp only [List.length_append, length_rawHeader, RowLayout.length_encodeBytes, hold]
    rw [henc]
    refine ⟨⟨h.handle, h.inside, ?_, ⟨tail, post, ht, ?_⟩, ?_, ?_⟩, rfl, rfl, ?_⟩
    · dsimp only
      rw [hchunk]
      exact hlt
    · simp
    · simp [hrow]
    · simp only [RowLayout.encodeRows_append, RowLayout.encodeRows_cons, RowLayout.encodeRows_nil, List.append_nil,
        List.length_append, RowLayout.length_encodeBytes]
      omega
    · dsimp only
      omega
  · simp only [ne_eq, he, not_false_eq_true, if_true] at hr

theorem Holds.encodeEach_ok {uchOp : UInt8} : ∀ (new : List (RowValue × Alloc)) {rows : List (UInt8 × RowValue)}
    {b : RawData}, b.Holds l rows → b.offset = b.dataSize → (b.encodeEach l uchOp new).1 = 0 →
    (b.encodeEach l uchOp new).2.Holds l (rows ++ new.map (fun r => (uchOp, r.1))) ∧
      (b.encodeEach l uchOp new).2.dataStart = b.dataStart ∧
      (b.encodeEach l uchOp new).2.rowOffset = b.rowOffset ∧
      (b.encodeEach l uchOp new).2.offset = (b.encodeEach l uchOp new).2.dataSize
  | [], rows, b, h, ho, _ => by
    rw [List.map_nil, List.append_nil]
    exact ⟨h, rfl, rfl, ho⟩
  | (row, alloc) :: new, rows, b, h, ho, hr => by
    unfold encodeEach at hr ⊢
    by_cases he : (b.encodeRow l row uchOp alloc).1 = 0
    · simp only [he, ne_eq, not_true, if_false] at hr ⊢
      obtain ⟨h1, h2, h3, h4⟩ := h.encodeRow_ok ho he
      obtain ⟨i1, i2, i3, i4⟩ := encodeEach_ok new h1 h4 hr
      refine ⟨?_, i2.trans h2, i3.trans h3, i4⟩
      simpa using i1
    · simp only [ne_eq, he, not_false_eq_true, if_true] at hr

theorem Holds.rotateRows_ok {new : List (UInt8 × RowValue)} (h : b.Holds l (rows ++ new)) {uiOldSize : Nat}
    (hold : uiOldSize = b.dataStart + (l.encodeRows rows).length) {tmp : Bool}
    (hr : (b.rotateRows uiOldSize tmp).1 = 0) :
    (b.rotateRows uiOldSize tmp).2.Holds l (if rows ≠ [] ∧ new ≠ [] then new ++ rows else rows ++ new) ∧
      (b.rotateRows uiOldSize tmp).2.dataStart = b.dataStart ∧
      (b.rotateRows uiOldSize tmp).2.rowOffset = b.rowOffset ∧
      (b.rotateRows uiOldSize tmp).2.offset = b.offset ∧ (b.rotateRows uiOldSize tmp).2.dataSize = b.dataSize := by
  have hlt := h.chunk
  have hle := h.dataSize_le
  have hdata := h.dataSize
  rw [RowLayout.encodeRows_append, List.length_append] at hdata
  have hnew : sub32 b.dataSize uiOldSize = (l.encodeRows new).length := by
    rw [sub32_eq (by omega) (by omega)]
    omega
  have holdRows : sub32 uiOldSize b.dataStart = (l.encodeRows rows).length := by
    rw [sub32_eq (by omega) (by omega)]
    omega
  unfold rotateRows at hr ⊢
  simp only [hnew, holdRows] at hr ⊢
  by_cases hboth : rows ≠ [] ∧ new ≠ []
  · have hpos : (l.encodeRows new).length > 0 ∧ (l.encodeRows rows).length > 0 :=
      ⟨l.encodeRows_pos hboth.2, l.encodeRows_pos hboth.1⟩
    rw [if_pos hpos] at hr ⊢
    rw [if_pos hboth]
    cases tmp with
    | false => cases hr
    | true =>
      obtain ⟨tail, slack, ht, hc⟩ := h.parts
      have htl := ht.length
      rw [RowLayout.encodeRows_append, List.append_assoc] at hc
      -- the room of the moved rows and the room in front of it
      obtain ⟨x, y, hxy, hx⟩ := exists_split (l.encodeRows rows ++ l.encodeRows new)
        (n := (l.encodeRows new).length) (by rw [List.length_append]; omega)
      have hy : y.length = (l.encodeRows rows).length := by
        have := congrArg List.length hxy
        simp only [List.length_append] at this
        omega
      have hsrc : slice b.content b.dataStart (l.encodeRows rows).length = l.encodeRows rows := by
        rw [hc]
        exact slice_append (by rw [length_rawHeader]; omega) rfl
      have hbuf : slice b.content uiOldSize (l.encodeRows new).length = l.encodeRows new := by
        rw [hc, ← List.append_assoc (rawHeader _ _ _)]
        exact slice_append (by rw [List.length_append, length_rawHeader]; omega) rfl
      have hmoved : splice b.content (b.dataStart + (l.encodeRows new).length) (l.encodeRows rows) =
          rawHeader b.dataSize b.rowCnt tail ++ (x ++ (l.encodeRows rows ++ slack)) := by
        rw [hc, ← List.append_assoc (l.encodeRows rows), hxy, List.append_assoc x, ← List.append_assoc (rawHeader _ _ _),
          splice_append (by rw [List.length_append, length_rawHeader]; omega) hy, List.append_assoc]
      have hcopied : splice (rawHeader b.dataSize b.rowCnt tail ++ (x ++ (l.encodeRows rows ++ slack))) b.dataStart
          (l.encodeRows new) = rawHeader b.dataSize b.rowCnt tail ++
            (l.encodeRows (new ++ rows) ++ slack) := by
        rw [splice_append (by rw [length_rawHeader]; omega) hx, RowLayout.encodeRows_append, List.append_assoc]
      have hlen : (rawHeader b.dataSize b.rowCnt tail ++ (l.encodeRows (new ++ rows) ++ slack)).length =
          b.content.length := by
        rw [hc]
        simp only [List.length_append, RowLayout.encodeRows_append]
        omega
      have hlenMoved : (rawHeader b.dataSize b.rowCnt tail ++ (x ++ (l.encodeRows rows ++ slack))).length =
          b.content.length := by
        rw [hc]
        simp only [List.length_append]
        omega
      have hin := h.inside
      simp only [Bool.not_true, Bool.false_eq_true, if_false, memmove, memcpy, hsrc, hbuf, hmoved, hcopied,
        and_self, and_true]
      refine ⟨h.handle, ?_, ?_, ⟨tail, slack, ht, rfl⟩, ?_, ?_⟩
      · simp only [hin, hlenMoved, Bool.false_or, Bool.or_eq_false_iff, decide_eq_false_iff_not]
        omega
      · dsimp only
        rw [hlen]
        exact hlt
      · have := h.rowCount
        simp only [List.length_append] at this ⊢
        omega
      · simp only [RowLayout.encodeRows_append, List.length_append]
        omega
  · have hnone : ¬ ((l.encodeRows new).length > 0 ∧ (l.encodeRows rows).length > 0) := by
      rintro ⟨h1, h2⟩
      refine hboth ⟨?_, ?_⟩
      · rintro rfl
        simp at h2
      · rintro rfl
        simp at h1
    rw [if_neg hnone, if_neg hboth]
    exact ⟨h, rfl, rfl, rfl, rfl⟩

theorem Holds.insertRow_ok (h : b.Holds l rows) {row : RowValue} {byFirst isDirty : Bool} {alloc : Alloc} {tmp : Bool}
    (hr : (b.insertRow l row byFirst isDirty alloc tmp).1 = 0) :
    (b.insertRow l row byFirst isDirty alloc tmp).2.Holds l
        (if byFirst = true ∧ rows ≠ [] then (insertFlag isDirty, row) :: rows else rows ++ [(insertFlag isDirty, row)]) ∧
      (b.insertRow l row byFirst isDirty alloc tmp).2.dataStart = b.dataStart ∧
      (b.insertRow l row byFirst isDirty alloc tmp).2.rowOffset = b.rowOffset ∧
      (b.insertRow l row byFirst isDirty alloc tmp).2.offset = (b.insertRow l row byFirst isDirty alloc tmp).2.dataSize := by
  -- the object with its offset at the end of the data
  have he := h.setOffset b.rowOffset b.dataSize
  unfold insertRow insertRowFlag at hr ⊢
  dsimp only at hr ⊢
  by_cases henc : (encodeRow l { b with offset := b.dataSize } row (insertFlag isDirty) alloc).1 = 0
  · obtain ⟨h1, h2, h3, h4⟩ := he.encodeRow_ok rfl henc
    cases byFirst with
    | false =>
      simp only [Bool.false_eq_true, and_false, false_and, if_false]
      exact ⟨h1, h2, h3, h4⟩
    | true =>
      simp only [henc, and_self, if_true, true_and] at hr ⊢
      obtain ⟨i1, i2, i3, i4, i5⟩ := h1.rotateRows_ok (by rw [h2]; exact h.dataSize) hr
      refine ⟨?_, i2.trans h2, i3.trans h3, by rw [i4, i5, h4]⟩
      by_cases hne : rows = []
      · simpa [hne] using i1
      · simpa [hne] using i1
  · simp only [henc, false_and, if_false] at hr

theorem Holds.insertNRows_ok (h : b.Holds l rows) {new : List (RowValue × Alloc)} {byFirst isDirty : Bool}
    {alloc : Alloc} {tmp : Bool} (hr : (b.insertNRows l new byFirst isDirty alloc tmp).1 = 0) :
    (b.insertNRows l new byFirst isDirty alloc tmp).2.Holds l
        (if byFirst = true ∧ rows ≠ [] ∧ new.map (fun r => (insertFlag isDirty, r.1)) ≠ [] then
          new.map (fun r => (insertFlag isDirty, r.1)) ++ rows
        else rows ++ new.map (fun r => (insertFlag isDirty, r.1))) ∧
      (b.insertNRows l new byFirst isDirty alloc tmp).2.dataStart = b.dataStart ∧
      (b.insertNRows l new byFirst isDirty alloc tmp).2.rowOffset = b.rowOffset ∧
      (b.insertNRows l new byFirst isDirty alloc tmp).2.offset =
        (b.insertNRows l new byFirst isDirty alloc tmp).2.dataSize := by
  unfold insertNRows at hr ⊢
  dsimp only at hr ⊢
  generalize new.foldl (fun tSize r => (tSize + l.calcRowSize r.1) % 2 ^ 32) 0 = tSize at hr ⊢
  by_cases hexp : (b.expandChunk tSize alloc).1 = 0
  · obtain ⟨he, chunk, heq, -⟩ := h.expandChunk_ok hexp
    simp only [hexp, ne_eq, not_true, if_false] at hr ⊢
    rw [heq] at hr he ⊢
    have he' : ({ b with content := chunk, offset := b.dataSize } : RawData).Holds l rows :=
      ⟨he.handle, he.inside, he.chunk, he.parts, he.rowCount, he.dataSize⟩
    by_cases henc : (encodeEach l { b with content := chunk, offset := b.dataSize } (insertFlag isDirty) new).1 = 0
    · obtain ⟨h1, h2, h3, h4⟩ := he'.encodeEach_ok new rfl henc
      simp only [henc, not_true, if_false] at hr ⊢
      cases byFirst with
      | false =>
        simp only [Bool.false_eq_true, false_and, if_false]
        exact ⟨h1, h2, h3, h4⟩
      | true =>
        simp only [if_true, true_and] at hr ⊢
        obtain ⟨i1, i2, i3, i4, i5⟩ := h1.rotateRows_ok (by rw [h2]; exact h.dataSize) hr
        exact ⟨i1, i2.trans h2, i3.trans h3, by rw [i4, i5, h4]⟩
    · simp only [henc, not_false_eq_true, if_true] at hr
  · simp only [ne_eq, hexp, not_false_eq_true, if_true] at hr

end Insert

end RawData

end Dtc
