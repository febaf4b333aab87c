import DtcServer.RawDataSpec
/-!
# RawDataCursor — the operations of `CRawData` on the current row, and the copies

A chunk is taken apart at the current row: the rows in front, the row, the rows behind.  `ReplaceCurRow` and
`DeleteCurRow` move the rows behind with `memmove`; how far is the difference of the two rows' sizes.
-/
namespace Dtc

open Bytes

namespace RawData

variable {l : RowLayout} {b : RawData}

section Cursor

variable {front back : List (UInt8 × RowValue)} {r : UInt8 × RowValue}

theorem Holds.at_row (h : b.Holds l (front ++ r :: back)) :
    ∃ tail slack, KeyTail l b.dataStart tail ∧ b.content = rawHeader b.dataSize b.rowCnt tail ++
      (l.encodeRows front ++ (l.encodeBytes r ++ (l.encodeRows back ++ slack))) := by
  obtain ⟨tail, slack, ht, hc⟩ := h.parts
  refine ⟨tail, slack, ht, ?_⟩
  rw [hc, RowLayout.encodeRows_append, RowLayout.encodeRows_cons, List.append_assoc, List.append_assoc]

theorem Holds.sizes (h : b.Holds l (front ++ r :: back)) :
    b.dataSize = b.dataStart + (l.encodeRows front).length + l.rowSize r.2 + (l.encodeRows back).length ∧
      b.dataSize ≤ b.content.length ∧ b.content.length < 2 ^ 32 ∧ b.rowCnt = front.length + back.length + 1 := by
  have hd := h.dataSize
  have hr := h.rowCount
  simp only [RowLayout.encodeRows_append, RowLayout.encodeRows_cons, List.length_append, RowLayout.length_encodeBytes,
    List.length_cons] at hd hr
  exact ⟨by omega, h.dataSize_le, h.chunk, by omega⟩

theorem Holds.decodeRow_eq (h : b.Holds l (front ++ r :: back))
    (ho : b.offset = b.dataStart + (l.encodeRows front).length) (preDecode : Bool) :
    b.decodeRow l preDecode =
      (0, { b with
        rowOffset := if preDecode then b.rowOffset else b.offset
        offset := if preDecode then b.offset else b.offset + l.rowSize r.2 }, some (l.storedRow r)) := by
  obtain ⟨tail, slack, ht, hc⟩ := h.at_row
  obtain ⟨hsize, hle, hlt, -⟩ := h.sizes
  have htl := ht.length
  have hrow : l.rowSize r.2 = 1 + l.fieldsSize r.2 l.storedIds := rfl
  have hpre : (rawHeader b.dataSize b.rowCnt tail ++ l.encodeRows front).length = b.offset := by
    rw [List.length_append, length_rawHeader]
    omega
  have hc' : b.content = (rawHeader b.dataSize b.rowCnt tail ++ l.encodeRows front) ++
      (r.1 :: (l.encodeFields r.2 l.storedIds ++ (l.encodeRows back ++ slack))) := by
    rw [hc, List.append_assoc]
    rfl
  have hflag : b.content.getD b.offset 0 = r.1 := by
    rw [hc', ← hpre, List.getD_eq_getElem?_getD, List.getElem?_append_right (Nat.le_refl _), Nat.sub_self]
    rfl
  have hfields : l.decodeFields b.content l.storedIds (b.offset + 1) =
      (b.offset + l.rowSize r.2, some (l.storedRow r).2) := by
    rw [hc', List.append_cons, l.decodeFields_encode r.2 l.storedIds _ (b.offset + 1)
      (by rw [List.length_append, hpre, List.length_singleton]) (by omega), hrow, Nat.add_assoc]
    rfl
  unfold decodeRow
  rw [if_neg (by simp [h.handle]), if_neg (by omega), hfields, hflag]
  rfl

theorem Holds.skipRow_eq (h : b.Holds l (front ++ r :: back))
    (ho : b.rowOffset = b.dataStart + (l.encodeRows front).length) :
    b.skipRow l = (0, { b with offset := b.rowOffset + l.rowSize r.2 }) := by
  obtain ⟨tail, slack, ht, hc⟩ := h.at_row
  obtain ⟨hsize, hle, hlt, -⟩ := h.sizes
  have htl := ht.length
  have hrow : l.rowSize r.2 = 1 + l.fieldsSize r.2 l.storedIds := rfl
  have hskip : l.skipFields b.content l.storedIds (b.rowOffset + 1) = (b.rowOffset + l.rowSize r.2, true) := by
    have hc' : b.content = ((rawHeader b.dataSize b.rowCnt tail ++ l.encodeRows front) ++ [r.1]) ++
        (l.encodeFields r.2 l.storedIds ++ (l.encodeRows back ++ slack)) := by
      rw [hc, List.append_assoc, List.append_assoc]
      rfl
    rw [hc', l.skipFields_encode r.2 l.storedIds _ (b.rowOffset + 1)
      (by rw [List.length_append, List.length_append, length_rawHeader, List.length_singleton]; omega) (by omega), hrow,
      Nat.add_assoc]
  unfold skipRow
  rw [if_neg (by simp [h.handle])]
  dsimp only
  rw [if_neg (by omega), if_neg (by omega), hskip]
  rfl

theorem skipRow_end (hh : b.handle = true) (ho : b.dataSize ≤ b.rowOffset) :
    b.skipRow l = (-2, { b with offset := b.rowOffset }) := by
  unfold skipRow
  rw [if_neg (by simp [hh])]
  dsimp only
  rw [if_pos ho]

theorem dropRow_eq {dataSize rowCnt size : Nat} {tail body : List UInt8}
    (hc : b.content = rawHeader dataSize rowCnt tail ++ body) (hr : 0 < b.rowCnt) (hrn : b.rowCnt < 2 ^ 32) :
    b.dropRow size = { b with
      content := rawHeader (sub32 b.dataSize size) (b.rowCnt - 1) tail ++ body
      rowCnt := b.rowCnt - 1
      dataSize := sub32 b.dataSize size } := by
  unfold dropRow
  rw [sub32_eq hrn hr]
  rw [setDataSize_eq (b := { b with rowCnt := b.rowCnt - 1, dataSize := sub32 b.dataSize size }) hc]
  rw [setRowCount_eq (b := { b with
    rowCnt := b.rowCnt - 1, dataSize := sub32 b.dataSize size
    content := rawHeader (sub32 b.dataSize size) rowCnt tail ++ body }) rfl]

theorem Holds.deleteCurRow_ok (h : b.Holds l (front ++ r :: back))
    (ho : b.rowOffset = b.dataStart + (l.encodeRows front).length) :
    (b.deleteCurRow l).1 = 0 ∧ (b.deleteCurRow l).2.Holds l (front ++ back) ∧
      (b.deleteCurRow l).2.dataStart = b.dataStart ∧ (b.deleteCurRow l).2.rowOffset = b.rowOffset ∧
      (b.deleteCurRow l).2.offset = b.rowOffset := by
  obtain ⟨tail, slack, ht, hc⟩ := h.at_row
  obtain ⟨hsize, hle, hlt, hcnt⟩ := h.sizes
  have htl := ht.length
  have hpos := l.rowSize_pos r.2
  have hrows := l.length_le_encodeRows front
  have hrows' := l.length_le_encodeRows back
  have hnext : sub32 b.dataSize (b.rowOffset + l.rowSize r.2) = (l.encodeRows back).length := by
    rw [sub32_eq (by omega) (by omega)]
    omega
  have hcur : sub32 (b.rowOffset + l.rowSize r.2) b.rowOffset = l.rowSize r.2 := by
    rw [sub32_eq (by omega) (by omega)]
    omega
  have hsrc : slice b.content (b.rowOffset + l.rowSize r.2) (l.encodeRows back).length = l.encodeRows back := by
    rw [hc, ← List.append_assoc (l.encodeRows front), ← List.append_assoc (rawHeader _ _ _)]
    refine slice_append ?_ rfl
    rw [List.length_append, length_rawHeader, List.length_append, RowLayout.length_encodeBytes]
    omega
  -- the rows behind overwrite the row and what follows it
  obtain ⟨x, y, hxy, hx⟩ := exists_split (l.encodeBytes r ++ (l.encodeRows back ++ slack))
    (n := (l.encodeRows back).length) (by simp only [List.length_append]; omega)
  have hleft : sub32 b.dataSize (l.rowSize r.2) = b.dataSize - l.rowSize r.2 := sub32_eq (by omega) (by omega)
  have hmoved : splice b.content b.rowOffset (l.encodeRows back) = rawHeader b.dataSize b.rowCnt tail ++
      (l.encodeRows (front ++ back) ++ y) := by
    rw [hc, hxy, ← List.append_assoc (rawHeader _ _ _), splice_append
      (by rw [List.length_append, length_rawHeader]; omega) hx, RowLayout.encodeRows_append]
    simp only [List.append_assoc]
  have hlen : (rawHeader (b.dataSize - l.rowSize r.2) (b.rowCnt - 1) tail ++ (l.encodeRows (front ++ back) ++ y)).length =
      b.content.length := by
    have := congrArg List.length hxy
    rw [hc]
    simp only [List.length_append, length_rawHeader, RowLayout.encodeRows_append] at this ⊢
    omega
  unfold deleteCurRow
  rw [h.skipRow_eq ho]
  simp only [ne_eq, not_true, if_false, memmove, hnext, hsrc, hcur, hmoved]
  rw [dropRow_eq (b := { b with
    content := rawHeader b.dataSize b.rowCnt tail ++ (l.encodeRows (front ++ back) ++ y)
    offset := b.rowOffset + l.rowSize r.2
    overrun := b.overrun || decide (b.content.length < b.rowOffset + (l.encodeRows back).length) ||
      decide (b.content.length < b.rowOffset + l.rowSize r.2 + (l.encodeRows back).length) }) rfl
    (by dsimp only; omega) (by dsimp only; omega)]
  dsimp only
  rw [hleft]
  refine ⟨trivial, ⟨h.handle, ?_, ?_, ⟨tail, y, ht, rfl⟩, ?_, ?_⟩, rfl, rfl, rfl⟩
  · simp only [h.inside, Bool.false_or, Bool.or_eq_false_iff, decide_eq_false_iff_not]
    omega
  · dsimp only
    rw [hlen]
    exact hlt
  · simp only [List.length_append]
    omega
  · simp only [RowLayout.encodeRows_append, List.length_append]
    omega

theorem memmove_up {pre back slack : List UInt8} {d : Nat} (hc : b.content = pre ++ (back ++ slack))
    (hd : d ≤ slack.length) :
    ∃ x z, x.length = d ∧ z.length + d = slack.length ∧
      (if back.length > 0 then b.memmove (pre.length + d) pre.length back.length else b) =
        { b with content := pre ++ (x ++ (back ++ z)) } := by
  obtain ⟨x, yz, hxyz, hx⟩ := exists_split (back ++ slack) (n := d) (by rw [List.length_append]; omega)
  have hlen := congrArg List.length hxyz
  simp only [List.length_append] at hlen
  obtain ⟨y, z, rfl, hy⟩ := exists_split yz (n := back.length) (by omega)
  rw [List.length_append] at hlen
  have hsrc : slice b.content pre.length back.length = back := by
    rw [hc]
    exact slice_append rfl rfl
  have hmoved : splice b.content (pre.length + d) back = pre ++ (x ++ (back ++ z)) := by
    rw [hc, hxyz, ← List.append_assoc pre, splice_append (by rw [List.length_append, hx]) hy, List.append_assoc]
  have hroom : b.content.length = pre.length + (back.length + slack.length) := by
    rw [hc, List.length_append, List.length_append]
  refine ⟨x, z, hx, by omega, ?_⟩
  split
  · unfold memmove
    rw [hsrc, hmoved, decide_eq_false (by omega), decide_eq_false (by omega), Bool.or_false, Bool.or_false]
  · rename_i hzero
    have hback : back = [] := List.eq_nil_of_length_eq_zero (by omega)
    rw [← hmoved, hback, splice_nil]

theorem memmove_down {pre y back slack : List UInt8} (hc : b.content = pre ++ (y ++ (back ++ slack))) :
    ∃ slack', slack'.length = y.length + slack.length ∧
      (if back.length > 0 ∧ pre.length ≠ pre.length + y.length then
        b.memmove pre.length (pre.length + y.length) back.length else b) =
        { b with content := pre ++ (back ++ slack') } := by
  have hroom : b.content.length = pre.length + (y.length + (back.length + slack.length)) := by
    rw [hc]
    simp only [List.length_append]
  split
  · obtain ⟨u, v, huv, hu⟩ := exists_split (y ++ (back ++ slack)) (n := back.length)
      (by simp only [List.length_append]; omega)
    have hlen := congrArg List.length huv
    simp only [List.length_append] at hlen
    have hsrc : slice b.content (pre.length + y.length) back.length = back := by
      rw [hc, ← List.append_assoc pre]
      exact slice_append (by rw [List.length_append]) rfl
    have hmoved : splice b.content pre.length back = pre ++ (back ++ v) := by
      rw [hc, huv, splice_append rfl hu]
    refine ⟨v, by omega, ?_⟩
    unfold memmove
    rw [hsrc, hmoved, decide_eq_false (by omega), decide_eq_false (by omega), Bool.or_false, Bool.or_false]
  · rename_i hnot
    by_cases hback : back.length = 0
    · refine ⟨y ++ slack, by rw [List.length_append], ?_⟩
      rw [List.eq_nil_of_length_eq_zero hback] at hc ⊢
      rw [List.nil_append] at hc ⊢
      rw [← hc]
    · have hy : y = [] := List.eq_nil_of_length_eq_zero (by omega)
      refine ⟨slack, by rw [hy]; simp, ?_⟩
      rw [hy, List.nil_append] at hc
      rw [← hc]

theorem shorten_eq (size : Nat) (alloc : Alloc) {keep slack : List UInt8} (hc : b.content = keep ++ slack)
    (hk : keep.length ≤ size) (hlt : b.content.length < 2 ^ 32) :
    ∃ slack', (keep ++ slack').length < 2 ^ 32 ∧ b.shorten size alloc = { b with content := keep ++ slack' } := by
  unfold shorten
  cases hre : reAlloc b.content size alloc with
  | none =>
    rw [hc] at hlt
    refine ⟨slack, hlt, ?_⟩
    rw [← hc]
  | some chunk =>
    rw [hc] at hre
    obtain ⟨slack', rfl, -, hn⟩ := reAlloc_keeps hk hre
    exact ⟨slack', hn, rfl⟩

theorem Holds.replaced (h : b.Holds l (front ++ r :: back)) {row : RowValue} {flag : UInt8} {b' : RawData}
    {tail slack : List UInt8} (hh : b'.handle = true) (hi : b'.overrun = false) (hd : b'.dataStart = b.dataStart)
    (ht : KeyTail l b.dataStart tail) (hs : b'.dataSize = b.dataSize + l.rowSize row - l.rowSize r.2)
    (hr : b'.rowCnt = b.rowCnt)
    (hc : b'.content = rawHeader b'.dataSize b'.rowCnt tail ++
      (l.encodeRows front ++ (l.encodeBytes (flag, row) ++ (l.encodeRows back ++ slack))))
    (hlt : b'.content.length < 2 ^ 32) : b'.Holds l (front ++ (flag, row) :: back) := by
  obtain ⟨hsize, -, -, hcnt⟩ := h.sizes
  refine ⟨hh, hi, hlt, ⟨tail, slack, hd ▸ ht, ?_⟩, ?_, ?_⟩
  · rw [hc, RowLayout.encodeRows_append, RowLayout.encodeRows_cons, List.append_assoc, List.append_assoc]
  · simp only [List.length_append, List.length_cons]
    omega
  · simp only [RowLayout.encodeRows_append, RowLayout.encodeRows_cons, List.length_append,
      RowLayout.length_encodeBytes]
    omega

theorem Holds.restSize (h : b.Holds l (front ++ r :: back)) (ho : b.rowOffset = b.dataStart + (l.encodeRows front).length)
    (hs : b.offset = b.rowOffset + l.rowSize r.2) : sub32 b.dataSize b.offset = (l.encodeRows back).length := by
  obtain ⟨hsize, hle, hlt, -⟩ := h.sizes
  rw [sub32_eq (by omega) (by omega)]
  omega

theorem Holds.growSize (h : b.Holds l (front ++ r :: back)) {row : RowValue} (hbig : l.rowSize r.2 < l.rowSize row)
    (hreq : b.dataSize + l.rowSize row - l.rowSize r.2 < 2 ^ 32) :
    (b.dataSize + sub32 (l.rowSize row) (l.rowSize r.2)) % 2 ^ 32 = b.dataSize + l.rowSize row - l.rowSize r.2 := by
  obtain ⟨hsize, -, -, -⟩ := h.sizes
  rw [sub32_eq (by omega) (by omega), Nat.mod_eq_of_lt (by omega)]
  omega

theorem Holds.replaceGrow_ok (h : b.Holds l (front ++ r :: back))
    (ho : b.rowOffset = b.dataStart + (l.encodeRows front).length)
    (hs : b.offset = b.rowOffset + l.rowSize r.2) {row : RowValue} {flag : UInt8} {alloc : Alloc}
    (hbig : l.rowSize r.2 < l.rowSize row) (hreq : b.dataSize + l.rowSize row - l.rowSize r.2 < 2 ^ 32)
    (hr : (b.replaceGrow l row flag (l.rowSize r.2) alloc).1 = 0) :
    (b.replaceGrow l row flag (l.rowSize r.2) alloc).2.Holds l (front ++ (flag, row) :: back) ∧
      (b.replaceGrow l row flag (l.rowSize r.2) alloc).2.dataStart = b.dataStart ∧
      (b.replaceGrow l row flag (l.rowSize r.2) alloc).2.rowOffset = b.rowOffset ∧
      (b.replaceGrow l row flag (l.rowSize r.2) alloc).2.offset = b.rowOffset + l.rowSize row := by
  obtain ⟨tail, slack, ht, hc⟩ := h.at_row
  obtain ⟨hsize, hle, hlt, hcnt⟩ := h.sizes
  have htl := ht.length
  have hrows := l.length_le_encodeRows front
  have hrows' := l.length_le_encodeRows back
  have hcalc : l.calcRowSize row = l.rowSize row := l.calcRowSize_of_lt row (by omega)
  have hnext := h.restSize ho hs
  have hgrow := h.growSize hbig hreq
  have hdata : sub32 ((b.dataSize + l.rowSize row) % 2 ^ 32) (l.rowSize r.2) =
      b.dataSize + l.rowSize row - l.rowSize r.2 := sub32_mod (by omega) (by omega) hreq
  unfold replaceGrow reAllocTo at hr ⊢
  simp only [hcalc, hnext, hgrow] at hr ⊢
  cases hre : reAlloc b.content (b.dataSize + l.rowSize row - l.rowSize r.2) alloc with
  | none =>
    rw [hre] at hr
    cases hr
  | some chunk =>
    rw [hre] at hr
    simp only [ne_eq, not_true, if_false] at hr ⊢
    -- everything up to the end of the data stays
    have hkeep : b.content = ((rawHeader b.dataSize b.rowCnt tail ++ (l.encodeRows front ++ l.encodeBytes r)) ++
        l.encodeRows back) ++ slack := by
      rw [hc]
      simp only [List.append_assoc]
    rw [hkeep] at hre
    obtain ⟨slack', hchunk, hroom, hclt⟩ := reAlloc_keeps (by
      simp only [List.length_append, length_rawHeader, RowLayout.length_encodeBytes]
      omega) hre
    rw [List.append_assoc] at hchunk
    have hclen := congrArg List.length hchunk
    have hoff : (rawHeader b.dataSize b.rowCnt tail ++ (l.encodeRows front ++ l.encodeBytes r)).length = b.offset := by
      simp only [List.length_append, length_rawHeader, RowLayout.length_encodeBytes]
      omega
    rw [List.length_append, hoff, List.length_append] at hclen
    obtain ⟨x, z, hx, hz, hmove⟩ := memmove_up (b := { b with handle := true, content := chunk })
      (d := l.rowSize row - l.rowSize r.2) hchunk (by omega)
    rw [hoff] at hmove
    rw [hmove] at hr ⊢
    generalize hb : ({ b with
      handle := true
      content := (rawHeader b.dataSize b.rowCnt tail ++ (l.encodeRows front ++ l.encodeBytes r)) ++
        (x ++ (l.encodeRows back ++ z))
      offset := b.rowOffset } : RawData) = b' at hr ⊢
    have hb'c : b'.content = rawHeader b.dataSize b.rowCnt tail ++
        (l.encodeRows front ++ ((l.encodeBytes r ++ x) ++ (l.encodeRows back ++ z))) := by
      rw [← hb]
      simp only [List.append_assoc]
    have hb'len : b'.content.length = chunk.length := by
      rw [← hb]
      dsimp only
      rw [List.length_append, hoff]
      simp only [List.length_append]
      omega
    by_cases henc : (b'.encodeInPlace l row flag).1 = 0
    · simp only [henc, not_true, if_false]
      have hok := encodeInPlace_ok hb'c (by rw [← hb]; dsimp only; omega)
        (by rw [List.length_append, RowLayout.length_encodeBytes]; omega) (by rw [← hb]; dsimp only; omega)
        (by omega) henc
      rw [hok, dropRow_eq rfl (Nat.succ_pos _) (by dsimp only; rw [← hb]; dsimp only; omega)]
      subst hb
      dsimp only
      rw [hdata]
      refine ⟨h.replaced rfl h.inside rfl ht rfl rfl rfl ?_, rfl, rfl, rfl⟩
      simp only [List.length_append, length_rawHeader, RowLayout.length_encodeBytes]
      omega
    · simp only [henc, not_false_eq_true, if_true] at hr
      cases hr

theorem Holds.replaceShrink_ok (h : b.Holds l (front ++ r :: back))
    (ho : b.rowOffset = b.dataStart + (l.encodeRows front).length)
    (hs : b.offset = b.rowOffset + l.rowSize r.2) {row : RowValue} {flag : UInt8} {alloc : Alloc}
    (hsmall : l.rowSize row ≤ l.rowSize r.2)
    (hreq : b.dataSize + l.rowSize row + l.rowSize row - l.rowSize r.2 < 2 ^ 32)
    (hr : (b.replaceShrink l row flag (l.rowSize r.2) alloc).1 = 0) :
    (b.replaceShrink l row flag (l.rowSize r.2) alloc).2.Holds l (front ++ (flag, row) :: back) ∧
      (b.replaceShrink l row flag (l.rowSize r.2) alloc).2.dataStart = b.dataStart ∧
      (b.replaceShrink l row flag (l.rowSize r.2) alloc).2.rowOffset = b.rowOffset ∧
      (b.replaceShrink l row flag (l.rowSize r.2) alloc).2.offset = b.rowOffset + l.rowSize row := by
  obtain ⟨tail, slack, ht, hc⟩ := h.at_row
  obtain ⟨hsize, hle, hlt, hcnt⟩ := h.sizes
  have htl := ht.length
  have hrows := l.length_le_encodeRows front
  have hrows' := l.length_le_encodeRows back
  have hcalc : l.calcRowSize row = l.rowSize row := l.calcRowSize_of_lt row (by omega)
  have hnext := h.restSize ho hs
  have hask : sub32 ((b.dataSize + l.rowSize row) % 2 ^ 32 + l.rowSize row) (l.rowSize r.2) =
      b.dataSize + l.rowSize row + l.rowSize row - l.rowSize r.2 := by
    unfold sub32
    omega
  have hdata : sub32 ((b.dataSize + l.rowSize row) % 2 ^ 32) (l.rowSize r.2) =
      b.dataSize + l.rowSize row - l.rowSize r.2 := sub32_mod (by omega) (by omega) (by omega)
  unfold replaceShrink at hr ⊢
  simp only [hcalc, hnext] at hr ⊢
  -- the old row's bytes that the new one leaves
  obtain ⟨x, y, hxy, hx⟩ := exists_split (l.encodeBytes r) (n := l.rowSize row)
    (by rw [RowLayout.length_encodeBytes]; exact hsmall)
  have hylen : y.length + l.rowSize row = l.rowSize r.2 := by
    have := congrArg List.length hxy
    rw [List.length_append, RowLayout.length_encodeBytes] at this
    omega
  rw [hxy, List.append_assoc] at hc
  generalize hb : ({ b with offset := b.rowOffset } : RawData) = b' at hr ⊢
  by_cases henc : (b'.encodeInPlace l row flag).1 = 0
  · simp only [henc, ne_eq, not_true, if_false]
    have hok := encodeInPlace_ok (b := b') (by rw [← hb]; exact hc) (by rw [← hb]; dsimp only; omega) hx
      (by rw [← hb]; dsimp only; omega) (by rw [← hb]; exact hlt) henc
    generalize (b'.encodeInPlace l row flag).2 = b₁ at hok ⊢
    subst hb
    dsimp only at hok
    generalize hdr : rawHeader ((b.dataSize + l.rowSize row) % 2 ^ 32) (b.rowCnt + 1) tail = hdr' at hok
    have hdrlen : hdr'.length = 9 + tail.length := by rw [← hdr, length_rawHeader]
    have hpre : (hdr' ++ (l.encodeRows front ++ l.encodeBytes (flag, row))).length = b.rowOffset + l.rowSize row := by
      simp only [List.length_append, RowLayout.length_encodeBytes]
      omega
    have hb₁c : b₁.content = (hdr' ++ (l.encodeRows front ++ l.encodeBytes (flag, row))) ++
        (y ++ (l.encodeRows back ++ slack)) := by
      rw [hok]
      simp only [List.append_assoc]
    obtain ⟨slack', hsl, hmove⟩ := memmove_down hb₁c
    have hb₁o : b₁.offset = b.rowOffset + l.rowSize row := by rw [hok]
    rw [hpre, show b.rowOffset + l.rowSize row + y.length = b.offset by omega, ← hb₁o] at hmove
    rw [hmove]
    generalize hb₂ : ({ b₁ with content := (hdr' ++ (l.encodeRows front ++ l.encodeBytes (flag, row))) ++
      (l.encodeRows back ++ slack') } : RawData) = b₂
    have hb₂c : b₂.content = ((hdr' ++ (l.encodeRows front ++ l.encodeBytes (flag, row))) ++ l.encodeRows back) ++
        slack' := by
      rw [← hb₂]
      simp only [List.append_assoc]
    have hb₂d : b₂.dataSize = (b.dataSize + l.rowSize row) % 2 ^ 32 := by rw [← hb₂, hok]
    have hclen : b₂.content.length = b.content.length := by
      rw [hb₂c, List.length_append, List.length_append, hpre, hc]
      simp only [List.length_append, length_rawHeader]
      omega
    rw [hb₂d, hask]
    obtain ⟨slack'', hlt'', hcut⟩ := shorten_eq (b.dataSize + l.rowSize row + l.rowSize row - l.rowSize r.2) alloc hb₂c
      (by rw [List.length_append, hpre]; omega) (by omega)
    have hb₃c : ((hdr' ++ (l.encodeRows front ++ l.encodeBytes (flag, row))) ++ l.encodeRows back) ++ slack'' =
        rawHeader ((b.dataSize + l.rowSize row) % 2 ^ 32) (b.rowCnt + 1) tail ++
          (l.encodeRows front ++ (l.encodeBytes (flag, row) ++ (l.encodeRows back ++ slack''))) := by
      rw [← hdr]
      simp only [List.append_assoc]
    rw [hcut, hb₃c, dropRow_eq rfl (by rw [← hb₂, hok]; exact Nat.succ_pos _) (by rw [← hb₂, hok]; dsimp only; omega)]
    subst hb₂ hok
    dsimp only
    rw [hdata]
    refine ⟨h.replaced h.handle h.inside rfl ht rfl rfl rfl ?_, rfl, rfl, rfl⟩
    simp only [List.length_append, length_rawHeader, RowLayout.length_encodeBytes] at hlt'' ⊢
    omega
  · simp only [henc, ne_eq, not_false_eq_true, if_true] at hr
    cases hr

theorem Holds.replaceCurRow_ok (h : b.Holds l (front ++ r :: back))
    (ho : b.rowOffset = b.dataStart + (l.encodeRows front).length) {row : RowValue} {isDirty : Bool} {alloc : Alloc}
    {tmp : Bool}
    (hreq : b.dataSize + l.rowSize row + (if l.rowSize row ≤ l.rowSize r.2 then l.rowSize row else 0) - l.rowSize r.2 <
      2 ^ 32)
    (hr : (b.replaceCurRow l row isDirty alloc tmp).1 = 0) :
    (b.replaceCurRow l row isDirty alloc tmp).2.Holds l
        (front ++ (if isDirty then operUpdate else r.1, row) :: back) ∧
      (b.replaceCurRow l row isDirty alloc tmp).2.dataStart = b.dataStart ∧
      (b.replaceCurRow l row isDirty alloc tmp).2.rowOffset = b.rowOffset ∧
      (b.replaceCurRow l row isDirty alloc tmp).2.offset = b.rowOffset + l.rowSize row := by
  obtain ⟨tail, slack, ht, hc⟩ := h.at_row
  obtain ⟨hsize, hle, hlt, hcnt⟩ := h.sizes
  have htl := ht.length
  have hcur : sub32 (b.rowOffset + l.rowSize r.2) b.rowOffset = l.rowSize r.2 := by
    rw [sub32_eq (by omega) (by omega)]
    omega
  have hflag : b.content.getD b.rowOffset 0 = r.1 := by
    have hpre : (rawHeader b.dataSize b.rowCnt tail ++ l.encodeRows front).length = b.rowOffset := by
      rw [List.length_append, length_rawHeader]
      omega
    rw [hc, ← List.append_assoc, ← hpre, List.getD_eq_getElem?_getD, List.getElem?_append_right (Nat.le_refl _),
      Nat.sub_self]
    rfl
  have hcalc : l.calcRowSize row = l.rowSize row := l.calcRowSize_of_lt row (by split at hreq <;> omega)
  -- the object after `SkipRow`
  have hs : ({ b with offset := b.rowOffset + l.rowSize r.2 } : RawData).Holds l (front ++ r :: back) :=
    ⟨h.handle, h.inside, h.chunk, h.parts, h.rowCount, h.dataSize⟩
  unfold replaceCurRow at hr ⊢
  rw [h.skipRow_eq ho] at hr ⊢
  simp only [ne_eq, not_true, if_false, hcur, hflag, hcalc, if_neg (show ¬ b.rowOffset + 1 > b.content.length by
    have := l.rowSize_pos r.2
    omega)] at hr ⊢
  by_cases hbig : l.rowSize row > l.rowSize r.2
  · rw [if_neg (by omega)] at hreq
    simp only [if_pos hbig] at hr ⊢
    by_cases hret : (replaceGrow l { b with offset := b.rowOffset + l.rowSize r.2 } row
        (if isDirty then operUpdate else r.1) (l.rowSize r.2) alloc).1 = 0
    · simp only [hret, not_true, if_false]
      exact hs.replaceGrow_ok ho rfl hbig (by dsimp only; omega) hret
    · simp only [hret, not_false_eq_true, if_true] at hr
  · rw [if_pos (by omega)] at hreq
    simp only [if_neg hbig] at hr ⊢
    cases tmp with
    | false => cases hr
    | true =>
      simp only [Bool.not_true, Bool.false_eq_true, if_false] at hr ⊢
      by_cases hret : (replaceShrink l { b with offset := b.rowOffset + l.rowSize r.2 } row
          (if isDirty then operUpdate else r.1) (l.rowSize r.2) alloc).1 = 0
      · simp only [hret, not_true, if_false]
        exact hs.replaceShrink_ok ho rfl (by omega) (by dsimp only; omega) hret
      · simp only [hret, not_false_eq_true, if_true] at hr

theorem Holds.setCurRowFlag_ok (h : b.Holds l (front ++ r :: back))
    (ho : b.rowOffset = b.dataStart + (l.encodeRows front).length) (uchFlag : UInt8) :
    (b.setCurRowFlag uchFlag).2.Holds l (front ++ (uchFlag, r.2) :: back) ∧
      ∃ content overrun, (b.setCurRowFlag uchFlag).2 = { b with content := content, overrun := overrun } := by
  obtain ⟨tail, slack, ht, hc⟩ := h.at_row
  obtain ⟨hsize, hle, hlt, hcnt⟩ := h.sizes
  have htl := ht.length
  have hpos := l.rowSize_pos r.2
  have hset : splice b.content b.rowOffset [uchFlag] = rawHeader b.dataSize b.rowCnt tail ++
      (l.encodeRows front ++ (l.encodeBytes (uchFlag, r.2) ++ (l.encodeRows back ++ slack))) := by
    have hone : l.encodeBytes r ++ (l.encodeRows back ++ slack) =
        [r.1] ++ (l.encodeFields r.2 l.storedIds ++ (l.encodeRows back ++ slack)) := rfl
    rw [hc, hone, ← List.append_assoc (rawHeader _ _ _), splice_append
      (by rw [List.length_append, length_rawHeader]; omega) (by simp), List.append_assoc]
    rfl
  unfold setCurRowFlag
  rw [if_neg (by omega)]
  refine ⟨h.replaced h.handle ?_ rfl ht ?_ rfl hset ?_, _, _, rfl⟩
  · simp only [memcpy, h.inside, Bool.false_or, List.length_singleton, decide_eq_false_iff_not]
    omega
  · dsimp only [memcpy]
    omega
  · rw [memcpy, length_splice (by rw [List.length_singleton]; omega)]
    exact hlt

end Cursor

/-! ## All rows -/

theorem Holds.deleteAllRows_ok {rows : List (UInt8 × RowValue)} (h : b.Holds l rows) :
    b.deleteAllRows.2.Holds l [] ∧ b.deleteAllRows.2.rowOffset = b.deleteAllRows.2.dataStart ∧
      b.deleteAllRows.2.offset = b.deleteAllRows.2.dataStart := by
  obtain ⟨tail, slack, ht, hc⟩ := h.parts
  have hdel : b.deleteAllRows.2 = { b with
      content := rawHeader b.dataStart 0 tail ++ (l.encodeRows rows ++ slack)
      dataSize := b.dataStart, rowOffset := b.dataStart, rowCnt := 0, offset := b.dataStart, needSize := 0 } := by
    unfold deleteAllRows
    dsimp only
    rw [setDataSize_eq (b := { b with
      dataSize := b.dataStart, rowOffset := b.dataStart, rowCnt := 0, offset := b.dataStart }) hc]
    rw [setRowCount_eq (b := { b with
      content := rawHeader b.dataStart b.rowCnt tail ++ (l.encodeRows rows ++ slack)
      dataSize := b.dataStart, rowOffset := b.dataStart, rowCnt := 0, offset := b.dataStart }) rfl]
  rw [hdel]
  refine ⟨⟨h.handle, h.inside, ?_, ⟨tail, l.encodeRows rows ++ slack, ht, rfl⟩, rfl, rfl⟩, rfl, rfl⟩
  have hlt := h.chunk
  rw [hc] at hlt
  simpa only [List.length_append, length_rawHeader] using hlt

/-! ## Copies of another buffer, and a new one -/

section Copy

variable {ref : RawData} {rows : List (UInt8 × RowValue)}

theorem Holds.appendCopy_ok (h : b.Holds l rows) (ho : b.offset = b.dataSize) {front back : List (UInt8 × RowValue)}
    {r : UInt8 × RowValue} (href : ref.Holds l (front ++ r :: back))
    (hro : ref.rowOffset = ref.dataStart + (l.encodeRows front).length)
    (hroom : b.dataSize + l.rowSize r.2 ≤ b.content.length) :
    (b.appendCopy ref (l.rowSize r.2)).Holds l (rows ++ [r]) ∧
      (b.appendCopy ref (l.rowSize r.2)).dataStart = b.dataStart ∧
      (b.appendCopy ref (l.rowSize r.2)).rowOffset = b.rowOffset ∧
      (b.appendCopy ref (l.rowSize r.2)).offset = (b.appendCopy ref (l.rowSize r.2)).dataSize := by
  obtain ⟨tail, slack, ht, hc⟩ := h.parts
  obtain ⟨rtail, rslack, hrt, hrc⟩ := href.at_row
  obtain ⟨hrsize, hrle, hrlt, -⟩ := href.sizes
  have htl := ht.length
  have hrtl := hrt.length
  have hdata := h.dataSize
  have hrow := h.rowCount
  have hlt := h.chunk
  have hcount := l.length_le_encodeRows rows
  have hpos := l.rowSize_pos r.2
  have hslack : l.rowSize r.2 ≤ slack.length := by
    rw [hc] at hroom
    simp only [List.length_append, length_rawHeader] at hroom
    omega
  obtain ⟨old, post, rfl, hold⟩ := exists_split slack hslack
  have hsrc : slice ref.content ref.rowOffset (l.rowSize r.2) = l.encodeBytes r := by
    rw [hrc, ← List.append_assoc (rawHeader _ _ _)]
    exact slice_append (by rw [List.length_append, length_rawHeader]; omega) (l.length_encodeBytes r)
  have hput : splice b.content b.offset (l.encodeBytes r) = rawHeader b.dataSize b.rowCnt tail ++
      (l.encodeRows (rows ++ [r]) ++ post) := by
    rw [hc, ← List.append_assoc (rawHeader _ _ _), splice_append
      (by rw [List.length_append, length_rawHeader]; omega) (by rw [hold, RowLayout.length_encodeBytes])]
    simp only [RowLayout.encodeRows_append, RowLayout.encodeRows_cons, RowLayout.encodeRows_nil, List.append_nil,
      List.append_assoc]
  have hcopy : b.copyFrom ref b.offset ref.rowOffset (l.rowSize r.2) =
      { b with content := rawHeader b.dataSize b.rowCnt tail ++ (l.encodeRows (rows ++ [r]) ++ post) } := by
    unfold copyFrom memcpy
    rw [hsrc, hput, RowLayout.length_encodeBytes, decide_eq_false (by omega)]
    dsimp only
    rw [decide_eq_false (by omega), Bool.or_false, Bool.or_false]
  unfold appendCopy
  rw [hcopy]
  dsimp only
  rw [Nat.mod_eq_of_lt (by omega), Nat.mod_eq_of_lt (by omega), Nat.mod_eq_of_lt (by omega)]
  rw [setDataSize_eq (b := { b with
    content := rawHeader b.dataSize b.rowCnt tail ++ (l.encodeRows (rows ++ [r]) ++ post)
    offset := b.offset + l.rowSize r.2, dataSize := b.dataSize + l.rowSize r.2, rowCnt := b.rowCnt + 1 }) rfl]
  rw [setRowCount_eq (b := { b with
    content := rawHeader (b.dataSize + l.rowSize r.2) b.rowCnt tail ++ (l.encodeRows (rows ++ [r]) ++ post)
    offset := b.offset + l.rowSize r.2, dataSize := b.dataSize + l.rowSize r.2, rowCnt := b.rowCnt + 1 }) rfl]
  refine ⟨⟨h.handle, h.inside, ?_, ⟨tail, post, ht, rfl⟩, ?_, ?_⟩, rfl, rfl, ?_⟩
  · rw [hc] at hlt
    simp only [List.length_append, length_rawHeader, RowLayout.encodeRows_append, RowLayout.encodeRows_cons,
      RowLayout.encodeRows_nil, List.append_nil, RowLayout.length_encodeBytes] at hlt ⊢
    omega
  · simp [hrow]
  · simp only [RowLayout.encodeRows_append, RowLayout.encodeRows_cons, RowLayout.encodeRows_nil, List.append_nil,
      List.length_append, RowLayout.length_encodeBytes]
    omega
  · dsimp only
    omega

theorem drop_rawHeader {dataSize rowCnt : Nat} {info key body : List UInt8} (hinfo : info.length = 7) :
    (rawHeader dataSize rowCnt (info ++ key) ++ body).drop 16 = key ++ body := by
  have hassoc : rawHeader dataSize rowCnt (info ++ key) ++ body =
      (0 :: (leBytes 4 dataSize ++ (leBytes 4 rowCnt ++ info))) ++ (key ++ body) := by
    simp [rawHeader]
  rw [hassoc]
  exact List.drop_left' (by simp [hinfo])

theorem packedKeySize_append {keySize : Nat} {key body : List UInt8} (hkey : key.length = packedKeySize keySize key) :
    packedKeySize keySize (key ++ body) = packedKeySize keySize key := by
  unfold packedKeySize at hkey ⊢
  cases key with
  | nil =>
    split at hkey
    · rename_i hne
      rw [if_pos hne, if_pos hne]
    · simp only [List.length_nil] at hkey
      omega
  | cons x key => rfl

/-- **Raw data with its header**: the type, the sizes and the key; what stands behind the key is not looked at. -/
structure Formed (l : RowLayout) (b : RawData) : Prop where
  handle : b.handle = true
  inside : b.overrun = false
  chunk : b.content.length < 2 ^ 32
  parts : ∃ tail body, KeyTail l b.dataStart tail ∧ b.content = rawHeader b.dataSize b.rowCnt tail ++ body
  rowCount : b.rowCnt < 2 ^ 32
  start_le : b.dataStart ≤ b.dataSize
  dataSize_le : b.dataSize ≤ b.content.length

theorem Holds.formed (h : b.Holds l rows) : b.Formed l := by
  obtain ⟨tail, slack, ht, hc⟩ := h.parts
  have hle := h.dataSize_le
  have hlt := h.chunk
  have hdata := h.dataSize
  have hcount := l.length_le_encodeRows rows
  have hrow := h.rowCount
  exact ⟨h.handle, h.inside, hlt, ⟨tail, _, ht, hc⟩, by omega, by omega, hle⟩

theorem attach_eq (hlt : b.content.length < 2 ^ 32) {dataSize rowCnt dataStart : Nat} {tail body : List UInt8}
    (hc : b.content = rawHeader dataSize rowCnt tail ++ body) (ht : KeyTail l dataStart tail)
    (hd : dataSize ≤ b.content.length) (hr : rowCnt < 2 ^ 32) :
    b.attach l = (0, { b with
      dataSize := dataSize, rowCnt := rowCnt, offset := dataStart, dataStart := dataStart, rowOffset := dataStart }) := by
  have htl := ht.length
  obtain ⟨info, key, rfl, hinfo, hkey, hs⟩ := ht
  rw [List.length_append] at htl
  have hlen : b.content.length = dataStart + body.length := by
    rw [hc, List.length_append, length_rawHeader, List.length_append]
    omega
  have h1 : leNat 4 (slice b.content 1 4) = dataSize := by
    have hassoc : b.content = [0] ++ (leBytes 4 dataSize ++ (leBytes 4 rowCnt ++ ((info ++ key) ++ body))) := by
      rw [hc]
      simp [rawHeader]
    rw [hassoc, RowLayout.leNat_slice (by simp) rfl, Nat.mod_eq_of_lt (by omega)]
  have h5 : leNat 4 (slice b.content 5 4) = rowCnt := by
    have hassoc : b.content = (0 :: leBytes 4 dataSize) ++ (leBytes 4 rowCnt ++ ((info ++ key) ++ body)) := by
      rw [hc]
      simp [rawHeader]
    rw [hassoc, RowLayout.leNat_slice (by simp) rfl, Nat.mod_eq_of_lt (by omega)]
  have hhead : b.content.head? = some 0 := by
    rw [hc]
    rfl
  have hdrop : b.content.drop 16 = key ++ body := by
    rw [hc]
    exact drop_rawHeader hinfo
  have hsize : packedKeySize l.keySize (key ++ body) = packedKeySize l.keySize key := packedKeySize_append hkey
  unfold attach
  rw [if_neg (by omega), if_neg (by simp [hhead]), if_neg (by omega), h1, h5]
  dsimp only
  rw [if_neg (by omega), hdrop, hsize, ← hkey, ← hs, if_neg (by omega)]

theorem reAllocChunk_ok (hlt : b.content.length < 2 ^ 32) {n : Nat} {alloc : Alloc}
    (hr : (b.reAllocChunk n alloc).1 = 0) :
    n ≤ (b.reAllocChunk n alloc).2.content.length ∧ (b.reAllocChunk n alloc).2.content.length < 2 ^ 32 ∧
      (b.reAllocChunk n alloc).2.overrun = b.overrun ∧
      ((b.reAllocChunk n alloc).2 = b ∨ n > b.content.length ∧ (b.reAllocChunk n alloc).2.handle = true) := by
  unfold reAllocChunk reAllocTo at hr ⊢
  split
  · rename_i hbig
    rw [if_pos hbig] at hr
    cases hre : reAlloc b.content n alloc with
    | none =>
      rw [hre] at hr
      cases hr
    | some chunk =>
      rw [← List.append_nil b.content] at hre
      obtain ⟨-, -, hsize, hn⟩ := reAlloc_keeps (Nat.le_of_lt hbig) hre
      exact ⟨hsize, hn, rfl, .inr ⟨hbig, rfl⟩⟩
  · rename_i hsmall
    exact ⟨Nat.le_of_not_lt hsmall, hlt, rfl, .inl rfl⟩

theorem Formed.takeOver_eq (href : ref.Formed l) (hi : b.overrun = false) (hlt : b.content.length < 2 ^ 32)
    (hroom : ref.dataSize ≤ b.content.length) :
    b.takeOver l ref = (0, { b with
      content := ref.content.take ref.dataSize ++ b.content.drop ref.dataSize, dataSize := ref.dataSize
      rowCnt := ref.rowCnt, offset := ref.dataStart, dataStart := ref.dataStart, rowOffset := ref.dataStart }) := by
  obtain ⟨tail, body, ht, hc⟩ := href.parts
  have htl := ht.length
  have hstart := href.start_le
  have hrle := href.dataSize_le
  have hlen : (ref.content.take ref.dataSize).length = ref.dataSize := List.length_take_of_le hrle
  have hput : splice b.content 0 (ref.content.take ref.dataSize) =
      ref.content.take ref.dataSize ++ b.content.drop ref.dataSize := by
    unfold splice
    rw [List.take_zero, List.nil_append, Nat.zero_add, hlen]
  have hcopy : b.copyFrom ref 0 0 ref.dataSize =
      { b with content := ref.content.take ref.dataSize ++ b.content.drop ref.dataSize } := by
    unfold copyFrom memcpy
    have hsrc : slice ref.content 0 ref.dataSize = ref.content.take ref.dataSize := rfl
    rw [hsrc, hput, hlen, decide_eq_false (by omega)]
    dsimp only
    rw [decide_eq_false (by omega), hi, Bool.or_false, Bool.or_false]
  have hclen : (ref.content.take ref.dataSize ++ b.content.drop ref.dataSize).length = b.content.length := by
    rw [List.length_append, hlen, List.length_drop, Nat.add_sub_cancel' hroom]
  have hhead : (rawHeader ref.dataSize ref.rowCnt tail).length ≤ ref.dataSize := by
    rw [length_rawHeader]
    omega
  have hparts : ref.content.take ref.dataSize ++ b.content.drop ref.dataSize = rawHeader ref.dataSize ref.rowCnt tail ++
      (body.take (ref.dataSize - (rawHeader ref.dataSize ref.rowCnt tail).length) ++ b.content.drop ref.dataSize) := by
    rw [hc, List.take_append, List.take_of_length_le hhead, List.append_assoc]
  have hattach := @attach_eq l { b with content := ref.content.take ref.dataSize ++ b.content.drop ref.dataSize }
    (by rw [hclen]; exact hlt) ref.dataSize ref.rowCnt ref.dataStart tail _ hparts ht (by rw [hclen]; exact hroom)
    href.rowCount
  unfold takeOver
  rw [hcopy, hattach]

theorem Holds.takeOver_ok (href : ref.Holds l rows) (hh : b.handle = true) (hi : b.overrun = false)
    (hlt : b.content.length < 2 ^ 32) (hroom : ref.dataSize ≤ b.content.length) :
    (b.takeOver l ref).2.Holds l rows ∧ (b.takeOver l ref).2.offset = (b.takeOver l ref).2.dataStart ∧
      (b.takeOver l ref).2.rowOffset = (b.takeOver l ref).2.dataStart := by
  obtain ⟨tail, slack, ht, hc⟩ := href.parts
  have htl := ht.length
  have hdata := href.dataSize
  have hsrc : ref.content.take ref.dataSize = rawHeader ref.dataSize ref.rowCnt tail ++ l.encodeRows rows := by
    rw [hc, ← List.append_assoc (rawHeader _ _ _)]
    exact List.take_left' (by rw [List.length_append, length_rawHeader]; omega)
  have hclen : (rawHeader ref.dataSize ref.rowCnt tail ++ (l.encodeRows rows ++ b.content.drop ref.dataSize)).length =
      b.content.length := by
    rw [List.length_append, List.length_append, length_rawHeader, List.length_drop]
    omega
  rw [href.formed.takeOver_eq hi hlt hroom, hsrc, List.append_assoc]
  exact ⟨⟨hh, hi, by rw [hclen]; exact hlt, ⟨tail, _, ht, rfl⟩, href.rowCount, hdata⟩, rfl, rfl⟩

theorem init_eq {key : PackedKey l.keySize} {uiDataSize hour : Nat} {alloc : Alloc} {chunk : List UInt8}
    (hreq : uiDataSize + (16 + packedKeySize l.keySize key.bytes) < 2 ^ 32)
    (hre : reAlloc [] (uiDataSize + (16 + packedKeySize l.keySize key.bytes)) alloc = some chunk) :
    RawData.init l key uiDataSize hour alloc = (0, {
      handle := true
      content := rawHeader (16 + packedKeySize l.keySize key.bytes) 0
        ((1 :: (leBytes 2 hour ++ (leBytes 2 hour ++ leBytes 2 hour))) ++ key.bytes) ++
          chunk.drop (16 + packedKeySize l.keySize key.bytes)
      dataSize := 16 + packedKeySize l.keySize key.bytes
      offset := 16 + packedKeySize l.keySize key.bytes
      dataStart := 16 + packedKeySize l.keySize key.bytes
      rowOffset := 16 + packedKeySize l.keySize key.bytes }) := by
  have hkey := key.size
  unfold RawData.init
  simp only [Nat.mod_eq_of_lt hreq, hre]
  have hre' : reAlloc ([] ++ []) (uiDataSize + (16 + packedKeySize l.keySize key.bytes)) alloc = some chunk := hre
  obtain ⟨-, -, hsize, hlt⟩ := reAlloc_keeps (Nat.zero_le _) hre'
  clear hre hre'
  generalize hhours : leBytes 2 hour ++ (leBytes 2 hour ++ leBytes 2 hour) = hours
  have hhlen : hours.length = 6 := by
    rw [← hhours]
    simp
  generalize hks : packedKeySize l.keySize key.bytes = ks at *
  -- the header and the key overwrite the first bytes of the chunk
  obtain ⟨old, rest, rfl, hold⟩ := exists_split chunk (n := 16) (by omega)
  rw [List.length_append] at hsize hlt
  obtain ⟨oldKey, post, rfl, holdKey⟩ := exists_split rest (n := key.bytes.length) (by omega)
  rw [List.length_append] at hsize hlt
  have hbytes : (0 :: (leBytes 4 (16 + ks) ++ (leBytes 4 0 ++ (1 :: hours)))).length = 16 := by simp [hhlen]
  have hset : ({ handle := true, content := old ++ (oldKey ++ post), dataSize := 16 + ks } : RawData).setValue
      (0 :: (leBytes 4 (16 + ks) ++ (leBytes 4 0 ++ (1 :: hours)))) =
      (true, { handle := true, content := rawHeader (16 + ks) 0 (1 :: hours) ++ (oldKey ++ post)
               dataSize := 16 + ks, offset := 16 }) := by
    have hput : splice (old ++ (oldKey ++ post)) 0 (0 :: (leBytes 4 (16 + ks) ++ (leBytes 4 0 ++ (1 :: hours)))) =
        rawHeader (16 + ks) 0 (1 :: hours) ++ (oldKey ++ post) :=
      splice_front (by rw [hold, hbytes])
    unfold setValue
    rw [if_neg (by simp only [hbytes, List.length_append]; omega), hput, hbytes]
  have hput : splice (rawHeader (16 + ks) 0 (1 :: hours) ++ (oldKey ++ post)) 16 key.bytes =
      rawHeader (16 + ks) 0 (1 :: hours) ++ (key.bytes ++ post) :=
    splice_append (by rw [length_rawHeader, List.length_cons, hhlen]) holdKey
  have hwhole : rawHeader (16 + ks) 0 (1 :: hours) ++ (key.bytes ++ post) =
      rawHeader (16 + ks) 0 ((1 :: hours) ++ key.bytes) ++ post := by
    simp [rawHeader]
  have hdrop : (old ++ (oldKey ++ post)).drop (16 + ks) = post := by
    rw [← List.append_assoc]
    exact List.drop_left' (by rw [List.length_append, hold, holdKey, hkey])
  have hinside : decide ((rawHeader (16 + ks) 0 (1 :: hours) ++ (oldKey ++ post)).length < 16 + key.bytes.length) = false := by
    simp only [decide_eq_false_iff_not, List.length_append, length_rawHeader, List.length_cons]
    omega
  rw [hset, hdrop]
  simp only [if_true, memcpy, hput, hwhole, hinside, Bool.false_or]

theorem init_ok {key : PackedKey l.keySize} {uiDataSize hour : Nat} {alloc : Alloc}
    (hreq : uiDataSize + (16 + packedKeySize l.keySize key.bytes) < 2 ^ 32)
    (hr : (RawData.init l key uiDataSize hour alloc).1 = 0) :
    (RawData.init l key uiDataSize hour alloc).2.Holds l [] ∧
      (RawData.init l key uiDataSize hour alloc).2.offset = (RawData.init l key uiDataSize hour alloc).2.dataStart ∧
      (RawData.init l key uiDataSize hour alloc).2.rowOffset =
        (RawData.init l key uiDataSize hour alloc).2.dataStart := by
  have hkey := key.size
  cases hre : reAlloc [] (uiDataSize + (16 + packedKeySize l.keySize key.bytes)) alloc with
  | none =>
    unfold RawData.init at hr
    simp only [Nat.mod_eq_of_lt hreq, hre] at hr
    cases hr
  | some chunk =>
    have hre' : reAlloc ([] ++ []) (uiDataSize + (16 + packedKeySize l.keySize key.bytes)) alloc = some chunk := hre
    obtain ⟨-, -, hsize, hlt⟩ := reAlloc_keeps (Nat.zero_le _) hre'
    rw [init_eq hreq hre]
    have hhours : (leBytes 2 hour ++ (leBytes 2 hour ++ leBytes 2 hour)).length = 6 := by simp
    refine ⟨⟨rfl, rfl, ?_, ⟨_, _, ⟨_, key.bytes, rfl, ?_, hkey, ?_⟩, rfl⟩, rfl, rfl⟩, rfl, rfl⟩
    · dsimp only
      rw [List.length_append, length_rawHeader, List.length_append, List.length_cons, hhours, List.length_drop]
      omega
    · rw [List.length_cons, hhours]
    · dsimp only
      rw [hkey]

end Copy

end RawData

end Dtc
