import DtcServer.RawDataCursor
import Mathlib.Logic.Function.Basic
/-!
# RawDataRun — buffers of rows as lists with a cursor

A run calls the operations on any number of buffers; beside each buffer stands the list the same calls make of lists.
The cursor of a buffer is a pair of offsets, the current row's and the next one's, and `InsertRow` at the front moves the
rows but not the current row's offset (`RowList.shifted`).
-/
namespace Dtc

open Bytes

/-- A list of rows, each with its flag, and a cursor: the current row and the row the next `DecodeRow` reads. -/
structure RowList where
  rows : List (UInt8 × RowValue) := []
  cur : Nat := 0
  pos : Nat := 0
  /-- rows were inserted at the front since the current row was last set -/
  shifted : Bool := false

namespace RowList

def insert (L : RowList) (new : List (UInt8 × RowValue)) (byFirst : Bool) : RowList :=
  let pos := L.rows.length + new.length
  if byFirst ∧ L.rows ≠ [] ∧ new ≠ [] then
    { rows := new ++ L.rows, cur := L.cur + new.length, pos := pos, shifted := true }
  else { L with rows := L.rows ++ new, pos := pos }

def decode (L : RowList) : RowList := { L with cur := L.pos, pos := L.pos + 1, shifted := false }

def replace (L : RowList) (row : RowValue) (isDirty : Bool) : RowList :=
  { L with
    rows := L.rows.modify L.cur (fun r => (if isDirty then operUpdate else r.1, row))
    pos := L.cur + 1 }

def delete (L : RowList) : RowList := { L with rows := L.rows.eraseIdx L.cur, pos := L.cur }

def setFlag (L : RowList) (uchFlag : UInt8) : RowList :=
  { L with rows := L.rows.modify L.cur (fun r => (uchFlag, r.2)) }

def append (L : RowList) (r : UInt8 × RowValue) : RowList := { L with rows := L.rows ++ [r], pos := L.pos + 1 }

end RowList

/-- The buffers, and the list each of them should be. -/
structure RawWorld where
  bufs : Nat → RawData := fun _ => {}
  lists : Nat → RowList := fun _ => {}

inductive RawAction (l : RowLayout) where
  | init (i : Nat) (key : PackedKey l.keySize) (uiDataSize hour : Nat) (alloc : Alloc)
  | insertRow (i : Nat) (row : RowValue) (byFirst isDirty : Bool) (alloc : Alloc) (tmp : Bool)
  | insertNRows (i : Nat) (rows : List (RowValue × Alloc)) (byFirst isDirty : Bool) (alloc : Alloc) (tmp : Bool)
  | decodeRow (i : Nat) (preDecode : Bool)
  | replaceCurRow (i : Nat) (row : RowValue) (isDirty : Bool) (alloc : Alloc) (tmp : Bool)
  | deleteCurRow (i : Nat)
  | setCurRowFlag (i : Nat) (uchFlag : UInt8)
  | deleteAllRows (i : Nat)
  | rewind (i : Nat)
  /-- with the buffer `ref` as reference -/
  | copyRow (i ref : Nat) (alloc : Alloc)
  | copyAll (i ref : Nat) (alloc : Alloc)

namespace RawWorld

def put (w : RawWorld) (i : Nat) (r : Int × RawData) (L : RowList) : Option RawWorld :=
  if r.1 = 0 then some ⟨Function.update w.bufs i r.2, Function.update w.lists i L⟩ else none

/-- `CopyRow`; the reference may be the buffer itself. -/
def copyRow (w : RawWorld) (i ref : Nat) (alloc : Alloc) : Option RawWorld :=
  let uiSize := sub32 (w.bufs ref).offset (w.bufs ref).rowOffset
  let e := (w.bufs i).expandChunk uiSize alloc
  let src := if ref = i then e.2 else w.bufs ref
  match (w.lists ref).rows[(w.lists ref).cur]? with
  | none => w.put i (e.1, e.2.appendCopy src uiSize) (w.lists i)
  | some r => w.put i (e.1, e.2.appendCopy src uiSize) ((w.lists i).append r)

def copyAll (l : RowLayout) (w : RawWorld) (i ref : Nat) (alloc : Alloc) : Option RawWorld :=
  let e := (w.bufs i).reAllocChunk (w.bufs ref).dataSize alloc
  let src := if ref = i then e.2 else w.bufs ref
  if e.1 ≠ 0 then none else w.put i (e.2.takeOver l src) { rows := (w.lists ref).rows }

def step (l : RowLayout) (w : RawWorld) : RawAction l → Option RawWorld
  | .init i key uiDataSize hour alloc => w.put i (RawData.init l key uiDataSize hour alloc) {}
  | .insertRow i row byFirst isDirty alloc tmp =>
    w.put i ((w.bufs i).insertRow l row byFirst isDirty alloc tmp)
      ((w.lists i).insert [(RawData.insertFlag isDirty, row)] byFirst)
  | .insertNRows i rows byFirst isDirty alloc tmp =>
    w.put i ((w.bufs i).insertNRows l rows byFirst isDirty alloc tmp)
      ((w.lists i).insert (rows.map (fun r => (RawData.insertFlag isDirty, r.1))) byFirst)
  | .decodeRow i preDecode =>
    let r := (w.bufs i).decodeRow l preDecode
    w.put i (r.1, r.2.1) (if preDecode then w.lists i else (w.lists i).decode)
  | .replaceCurRow i row isDirty alloc tmp =>
    w.put i ((w.bufs i).replaceCurRow l row isDirty alloc tmp) ((w.lists i).replace row isDirty)
  | .deleteCurRow i => w.put i ((w.bufs i).deleteCurRow l) (w.lists i).delete
  | .setCurRowFlag i uchFlag => w.put i ((w.bufs i).setCurRowFlag uchFlag) ((w.lists i).setFlag uchFlag)
  | .deleteAllRows i => w.put i (w.bufs i).deleteAllRows {}
  | .rewind i => w.put i (0, (w.bufs i).rewind) { rows := (w.lists i).rows }
  | .copyRow i ref alloc => w.copyRow i ref alloc
  | .copyAll i ref alloc => w.copyAll l i ref alloc

end RawWorld

/-- The buffers of one table, none of them initialised at first. -/
def rawMachine (l : RowLayout) : Machine RawWorld (RawAction l) where
  start w := w = {}
  step := RawWorld.step l

/-- `n` rows read with `DecodeRow`, and the offset behind them. -/
def RawData.decodeMany (l : RowLayout) : Nat → RawData → Option (List (UInt8 × List FieldVal) × Nat)
  | 0, b => some ([], b.offset)
  | n + 1, b =>
    let r := b.decodeRow l false
    match r.2.2 with
    | none => none
    | some row => (decodeMany l n r.2.1).map (fun rest => (row :: rest.1, rest.2))

/-- **The buffer is the list**: its rows, decoded from the first, are the list's, as many as `m_uiRowCnt` says, and they
end where `m_uiDataSize` says; the next row to decode is the list's; no call left the chunk. -/
structure RawRefines (l : RowLayout) (b : RawData) (L : RowList) : Prop where
  decoded : b.rewind.decodeMany l b.rowCnt = some (L.rows.map l.storedRow, b.dataSize)
  rowCount : b.rowCnt = L.rows.length
  next : ∀ r, L.rows[L.pos]? = some r → (b.decodeRow l false).2.2 = some (l.storedRow r)
  inside : b.overrun = false

/-- What a call of `ReplaceCurRow` asks of the allocator, not yet cut to 32 bits: the size of the data with the new row
in place of the old, and with the new row twice when it does not grow. -/
def replaceRequest (l : RowLayout) (b : RawData) (old new : RowValue) : Nat :=
  b.dataSize + l.rowSize new + (if l.rowSize new ≤ l.rowSize old then l.rowSize new else 0) - l.rowSize old

/-- **The calls on which a buffer keeps up with its list.** -/
def RawStepOk (l : RowLayout) (w : RawWorld) : RawAction l → Prop
  | .init _ key uiDataSize _ _ => uiDataSize + (16 + packedKeySize l.keySize key.bytes) < 2 ^ 32
  | .insertRow .. | .insertNRows .. | .deleteAllRows _ | .rewind _ => True
  | .decodeRow i preDecode => preDecode = false → (w.lists i).pos < (w.lists i).rows.length
  | .replaceCurRow i row _ _ _ => (w.lists i).shifted = false ∧
      ∀ r, (w.lists i).rows[(w.lists i).cur]? = some r → replaceRequest l (w.bufs i) r.2 row < 2 ^ 32
  | .deleteCurRow i => (w.lists i).shifted = false
  | .setCurRowFlag i _ => (w.lists i).shifted = false
  | .copyRow i ref _ => (w.lists i).pos = (w.lists i).rows.length ∧ (w.lists ref).shifted = false ∧
      (w.lists ref).pos = (w.lists ref).cur + 1 ∧
      ∃ r, (w.lists ref).rows[(w.lists ref).cur]? = some r ∧ (w.bufs i).dataSize + l.rowSize r.2 < 2 ^ 32
  | .copyAll _ ref _ => (w.bufs ref).handle = true

/-! ## The invariant -/

/-- An initialised buffer with the list's rows, whose offsets are the list's cursor. -/
structure Tracks (l : RowLayout) (b : RawData) (L : RowList) : Prop where
  holds : b.Holds l L.rows
  pos_le : L.pos ≤ L.rows.length
  cur_le : L.cur ≤ L.rows.length
  offset : b.offset = b.dataStart + (l.encodeRows (L.rows.take L.pos)).length
  rowOffset : L.shifted = false → b.rowOffset = b.dataStart + (l.encodeRows (L.rows.take L.cur)).length

/-- A buffer that is not initialised, or one that tracks its list. -/
def RawRep (l : RowLayout) (b : RawData) (L : RowList) : Prop := b = {} ∧ L = {} ∨ Tracks l b L

theorem rows_split {α : Type} {rows : List α} {n : Nat} {r : α} (h : rows[n]? = some r) :
    rows = rows.take n ++ r :: rows.drop (n + 1) := by
  obtain ⟨hn, rfl⟩ := List.getElem?_eq_some_iff.mp h
  rw [← List.drop_eq_getElem_cons hn, List.take_append_drop]

theorem exists_row {α : Type} {rows : List α} {n : Nat} (h : n < rows.length) : ∃ r, rows[n]? = some r :=
  ⟨rows[n], List.getElem?_eq_getElem h⟩

namespace Tracks

variable {l : RowLayout} {b : RawData} {L : RowList}

theorem at_cur (h : Tracks l b L) {r : UInt8 × RowValue} (hr : L.rows[L.cur]? = some r) :
    b.Holds l (L.rows.take L.cur ++ r :: L.rows.drop (L.cur + 1)) := by
  rw [← rows_split hr]
  exact h.holds

theorem at_pos (h : Tracks l b L) {r : UInt8 × RowValue} (hr : L.rows[L.pos]? = some r) :
    b.Holds l (L.rows.take L.pos ++ r :: L.rows.drop (L.pos + 1)) := by
  rw [← rows_split hr]
  exact h.holds

theorem no_row (h : Tracks l b L) (hs : L.shifted = false) (hn : L.rows[L.cur]? = none) :
    b.dataSize ≤ b.rowOffset := by
  have hlen := List.getElem?_eq_none_iff.mp hn
  exact Nat.le_of_eq (by rw [h.rowOffset hs, List.take_of_length_le hlen, h.holds.dataSize])

theorem insert (h : Tracks l b L) {new : List (UInt8 × RowValue)} {byFirst : Bool} {b' : RawData}
    (hh : b'.Holds l (L.insert new byFirst).rows) (hd : b'.dataStart = b.dataStart) (hr : b'.rowOffset = b.rowOffset)
    (ho : b'.offset = b'.dataSize) : Tracks l b' (L.insert new byFirst) := by
  have hc := h.cur_le
  have hend : ∀ rows : List (UInt8 × RowValue), rows.length ≤ (L.insert new byFirst).pos →
      (L.insert new byFirst).rows = rows → b'.offset = b'.dataStart + (l.encodeRows (rows.take
        (L.insert new byFirst).pos)).length := by
    rintro rows hle rfl
    rw [List.take_of_length_le hle, ho, hh.dataSize]
  refine ⟨hh, ?_, ?_, hend _ ?_ rfl, ?_⟩
  all_goals unfold RowList.insert
  all_goals dsimp only
  all_goals split
  · simp only [List.length_append]
    omega
  · simp only [List.length_append]
    omega
  · simp only [List.length_append]
    omega
  · simp only [List.length_append]
    omega
  · simp only [List.length_append]
    omega
  · simp only [List.length_append]
    omega
  · intro hs
    cases hs
  · intro hs
    rw [hr, hd, h.rowOffset hs, List.take_append_of_le_length hc]

theorem insertRow (h : Tracks l b L) {row : RowValue} {byFirst isDirty : Bool} {alloc : Alloc} {tmp : Bool}
    (hr : (b.insertRow l row byFirst isDirty alloc tmp).1 = 0) :
    Tracks l (b.insertRow l row byFirst isDirty alloc tmp).2
      (L.insert [(RawData.insertFlag isDirty, row)] byFirst) := by
  obtain ⟨h1, h2, h3, h4⟩ := h.holds.insertRow_ok hr
  refine h.insert ?_ h2 h3 h4
  unfold RowList.insert
  by_cases hfirst : byFirst = true ∧ L.rows ≠ []
  · rw [if_pos ⟨hfirst.1, hfirst.2, List.cons_ne_nil _ _⟩]
    rwa [if_pos hfirst] at h1
  · rw [if_neg (fun hall => hfirst ⟨hall.1, hall.2.1⟩)]
    rwa [if_neg hfirst] at h1

theorem insertNRows (h : Tracks l b L) {rows : List (RowValue × Alloc)} {byFirst isDirty : Bool} {alloc : Alloc}
    {tmp : Bool} (hr : (b.insertNRows l rows byFirst isDirty alloc tmp).1 = 0) :
    Tracks l (b.insertNRows l rows byFirst isDirty alloc tmp).2
      (L.insert (rows.map (fun r => (RawData.insertFlag isDirty, r.1))) byFirst) := by
  obtain ⟨h1, h2, h3, h4⟩ := h.holds.insertNRows_ok hr
  refine h.insert ?_ h2 h3 h4
  unfold RowList.insert
  by_cases hfirst : byFirst = true ∧ L.rows ≠ [] ∧ rows.map (fun r => (RawData.insertFlag isDirty, r.1)) ≠ []
  · rw [if_pos hfirst] at h1 ⊢
    exact h1
  · rw [if_neg hfirst] at h1 ⊢
    exact h1

theorem decodeRow (h : Tracks l b L) (hpos : L.pos < L.rows.length) :
    Tracks l (b.decodeRow l false).2.1 L.decode := by
  obtain ⟨r, hr⟩ := exists_row hpos
  rw [(h.at_pos hr).decodeRow_eq h.offset false]
  refine ⟨⟨h.holds.handle, h.holds.inside, h.holds.chunk, h.holds.parts, h.holds.rowCount, h.holds.dataSize⟩, hpos,
    h.pos_le, ?_, fun _ => h.offset⟩
  have htake : L.rows.take (L.pos + 1) = L.rows.take L.pos ++ [r] := by
    rw [List.take_add_one, hr]
    rfl
  simp only [RowList.decode, Bool.false_eq_true, if_false, htake, RowLayout.encodeRows_append,
    RowLayout.encodeRows_cons, RowLayout.encodeRows_nil, List.append_nil, List.length_append,
    RowLayout.length_encodeBytes]
  have := h.offset
  omega

theorem replaceCurRow (h : Tracks l b L) (hs : L.shifted = false) {row : RowValue} {isDirty : Bool} {alloc : Alloc}
    {tmp : Bool} (hreq : ∀ r, L.rows[L.cur]? = some r → replaceRequest l b r.2 row < 2 ^ 32)
    (hr : (b.replaceCurRow l row isDirty alloc tmp).1 = 0) :
    Tracks l (b.replaceCurRow l row isDirty alloc tmp).2 (L.replace row isDirty) := by
  have ho := h.rowOffset hs
  cases hcur : L.rows[L.cur]? with
  | none =>
    unfold RawData.replaceCurRow at hr
    rw [RawData.skipRow_end h.holds.handle (h.no_row hs hcur)] at hr
    simp at hr
  | some r =>
    obtain ⟨h1, h2, h3, h4⟩ := (h.at_cur hcur).replaceCurRow_ok ho (hreq r hcur) hr
    have hlt : L.cur < L.rows.length := (List.getElem?_eq_some_iff.mp hcur).1
    have hrows : (L.replace row isDirty).rows =
        L.rows.take L.cur ++ (if isDirty then operUpdate else r.1, row) :: L.rows.drop (L.cur + 1) := by
      simp only [RowList.replace]
      rw [List.modify_eq_take_cons_drop hlt]
      congr 2
      rw [(List.getElem?_eq_some_iff.mp hcur).2]
    have hlen : (L.replace row isDirty).rows.length = L.rows.length := by
      simp only [RowList.replace, List.length_modify]
    have htake : (L.replace row isDirty).rows.take L.cur = L.rows.take L.cur := by
      rw [hrows, List.take_left' (by rw [List.length_take]; omega)]
    refine ⟨hrows ▸ h1, ?_, ?_, ?_, fun _ => ?_⟩
    · rw [hlen]
      exact hlt
    · rw [hlen]
      exact h.cur_le
    · have htake1 : (L.replace row isDirty).rows.take (L.replace row isDirty).pos =
          L.rows.take L.cur ++ [(if isDirty then operUpdate else r.1, row)] := by
        rw [hrows, List.append_cons]
        exact List.take_left' (by simp only [RowList.replace, List.length_append, List.length_take, List.length_singleton]; omega)
      rw [htake1, h4, h2, ho]
      simp only [RowLayout.encodeRows_append, RowLayout.encodeRows_cons, RowLayout.encodeRows_nil, List.append_nil,
        List.length_append, RowLayout.length_encodeBytes]
      omega
    · rw [h3, h2, ho]
      show _ = _ + (l.encodeRows ((L.replace row isDirty).rows.take L.cur)).length
      rw [htake]

theorem deleteCurRow (h : Tracks l b L) (hs : L.shifted = false) (hr : (b.deleteCurRow l).1 = 0) :
    Tracks l (b.deleteCurRow l).2 L.delete := by
  have ho := h.rowOffset hs
  cases hcur : L.rows[L.cur]? with
  | none =>
    unfold RawData.deleteCurRow at hr
    rw [RawData.skipRow_end h.holds.handle (h.no_row hs hcur)] at hr
    simp at hr
  | some r =>
    obtain ⟨-, h1, h2, h3, h4⟩ := (h.at_cur hcur).deleteCurRow_ok ho
    have hlt : L.cur < L.rows.length := (List.getElem?_eq_some_iff.mp hcur).1
    have hrows : L.delete.rows = L.rows.take L.cur ++ L.rows.drop (L.cur + 1) := List.eraseIdx_eq_take_drop_succ _ _
    have hlen : L.cur ≤ L.delete.rows.length := by
      rw [hrows, List.length_append, List.length_take]
      omega
    have htake : L.delete.rows.take L.cur = L.rows.take L.cur := by
      rw [hrows, List.take_left' (by rw [List.length_take]; omega)]
    refine ⟨hrows ▸ h1, hlen, hlen, ?_, fun _ => ?_⟩
    · rw [h4, h2, ho]
      show _ = _ + (l.encodeRows (L.delete.rows.take L.cur)).length
      rw [htake]
    · rw [h3, h2, ho]
      show _ = _ + (l.encodeRows (L.delete.rows.take L.cur)).length
      rw [htake]

theorem setCurRowFlag (h : Tracks l b L) (hs : L.shifted = false) {uchFlag : UInt8}
    (hr : (b.setCurRowFlag uchFlag).1 = 0) : Tracks l (b.setCurRowFlag uchFlag).2 (L.setFlag uchFlag) := by
  have ho := h.rowOffset hs
  cases hcur : L.rows[L.cur]? with
  | none =>
    unfold RawData.setCurRowFlag at hr
    rw [if_pos (h.no_row hs hcur)] at hr
    cases hr
  | some r =>
    obtain ⟨h1, content, overrun, heq⟩ := (h.at_cur hcur).setCurRowFlag_ok ho uchFlag
    have hlt : L.cur < L.rows.length := (List.getElem?_eq_some_iff.mp hcur).1
    have hrows : (L.setFlag uchFlag).rows = L.rows.take L.cur ++ (uchFlag, r.2) :: L.rows.drop (L.cur + 1) := by
      simp only [RowList.setFlag]
      rw [List.modify_eq_take_cons_drop hlt, (List.getElem?_eq_some_iff.mp hcur).2]
    have hlen : (L.setFlag uchFlag).rows.length = L.rows.length := by
      simp only [RowList.setFlag, List.length_modify]
    -- the flag is one byte, so the rows keep their sizes
    have hsize : ∀ n, (l.encodeRows ((L.setFlag uchFlag).rows.take n)).length =
        (l.encodeRows (L.rows.take n)).length := fun n => by
      rw [hrows]
      conv_rhs => rw [rows_split hcur]
      simp only [List.take_append, RowLayout.encodeRows_append, List.length_append]
      cases n - (L.rows.take L.cur).length with
      | zero => rfl
      | succ m => simp only [List.take_succ_cons, RowLayout.encodeRows_cons, List.length_append,
          RowLayout.length_encodeBytes]
    refine ⟨hrows ▸ h1, ?_, ?_, ?_, fun _ => ?_⟩
    · rw [hlen]
      exact h.pos_le
    · rw [hlen]
      exact h.cur_le
    · rw [hsize, heq]
      exact h.offset
    · rw [hsize, heq]
      exact ho

theorem rewound {rows : List (UInt8 × RowValue)} (h : b.Holds l rows) (ho : b.offset = b.dataStart)
    (hr : b.rowOffset = b.dataStart) : Tracks l b { rows := rows } :=
  ⟨h, Nat.zero_le _, Nat.zero_le _, ho, fun _ => hr⟩

theorem appendCopy (h : Tracks l b L) (hend : L.pos = L.rows.length) {ref : RawData} {R : RowList}
    (href : Tracks l ref R) (hs : R.shifted = false) {r : UInt8 × RowValue} (hcur : R.rows[R.cur]? = some r)
    (hroom : b.dataSize + l.rowSize r.2 ≤ b.content.length) :
    Tracks l (b.appendCopy ref (l.rowSize r.2)) (L.append r) := by
  have ho : b.offset = b.dataSize := by rw [h.offset, hend, List.take_length, h.holds.dataSize]
  obtain ⟨h1, h2, h3, h4⟩ := h.holds.appendCopy_ok ho (href.at_cur hcur) (href.rowOffset hs) hroom
  refine ⟨h1, ?_, ?_, ?_, fun hs => ?_⟩
  · simp only [RowList.append, List.length_append, List.length_singleton]
    omega
  · have := h.cur_le
    simp only [RowList.append, List.length_append, List.length_singleton]
    omega
  · have hall : (L.append r).rows.take (L.append r).pos = (L.append r).rows :=
      List.take_of_length_le (by simp only [RowList.append, List.length_append, List.length_singleton]; omega)
    rw [hall, h4, h1.dataSize]
    rfl
  · rw [h3, h2, h.rowOffset hs]
    show _ = _ + (l.encodeRows ((L.rows ++ [r]).take L.cur)).length
    rw [List.take_append_of_le_length h.cur_le]

theorem cur_size (h : Tracks l b L) (hs : L.shifted = false) (hpos : L.pos = L.cur + 1) {r : UInt8 × RowValue}
    (hcur : L.rows[L.cur]? = some r) : sub32 b.offset b.rowOffset = l.rowSize r.2 := by
  obtain ⟨hsize, hle, hlt, -⟩ := (h.at_cur hcur).sizes
  have htake : L.rows.take (L.cur + 1) = L.rows.take L.cur ++ [r] := by
    rw [List.take_add_one, hcur]
    rfl
  have ho := h.offset
  have hro := h.rowOffset hs
  rw [hpos, htake] at ho
  simp only [RowLayout.encodeRows_append, RowLayout.encodeRows_cons, RowLayout.encodeRows_nil, List.append_nil,
    List.length_append, RowLayout.length_encodeBytes] at ho
  rw [sub32_eq (by omega) (by omega)]
  omega

theorem next (h : Tracks l b L) {r : UInt8 × RowValue} (hr : L.rows[L.pos]? = some r) :
    (b.decodeRow l false).2.2 = some (l.storedRow r) := by
  rw [(h.at_pos hr).decodeRow_eq h.offset false]

end Tracks

theorem decodeMany_eq (l : RowLayout) : ∀ (back front : List (UInt8 × RowValue)) (b : RawData),
    b.Holds l (front ++ back) → b.offset = b.dataStart + (l.encodeRows front).length →
    b.decodeMany l back.length = some (back.map l.storedRow, b.dataSize)
  | [], front, b, h, ho => by
    have hd := h.dataSize
    rw [List.append_nil] at hd
    rw [List.length_nil, RawData.decodeMany, ho, hd]
    rfl
  | r :: back, front, b, h, ho => by
    rw [List.length_cons, RawData.decodeMany, h.decodeRow_eq ho false]
    simp only [Bool.false_eq_true, if_false]
    have h' : ({ b with rowOffset := b.offset, offset := b.offset + l.rowSize r.2 } : RawData).Holds l
        ((front ++ [r]) ++ back) := by
      rw [← List.append_cons]
      exact ⟨h.handle, h.inside, h.chunk, h.parts, h.rowCount, h.dataSize⟩
    rw [decodeMany_eq l back (front ++ [r]) _ h' (by
      simp only [RowLayout.encodeRows_append, RowLayout.encodeRows_cons, RowLayout.encodeRows_nil, List.append_nil,
        List.length_append, RowLayout.length_encodeBytes]
      omega)]
    rfl

theorem RawRep.refines {l : RowLayout} {b : RawData} {L : RowList} (h : RawRep l b L) : RawRefines l b L := by
  rcases h with ⟨rfl, rfl⟩ | h
  · refine ⟨rfl, rfl, fun r hr => ?_, rfl⟩
    cases hr
  · refine ⟨?_, h.holds.rowCount, fun r hr => h.next hr, h.holds.inside⟩
    rw [h.holds.rowCount]
    exact decodeMany_eq l L.rows [] b.rewind h.holds.rewind rfl

/-! ## Every call keeps the invariant -/

theorem put_rep {l : RowLayout} {w w' : RawWorld} {i : Nat} {r : Int × RawData} {L : RowList}
    (h : ∀ j, RawRep l (w.bufs j) (w.lists j)) (hp : w.put i r L = some w') (hr : r.1 = 0 → RawRep l r.2 L) :
    ∀ j, RawRep l (w'.bufs j) (w'.lists j) := by
  unfold RawWorld.put at hp
  split at hp
  · rename_i h0
    obtain rfl := Option.some.inj hp
    intro j
    by_cases hj : j = i
    · subst hj
      simpa only [Function.update_self] using hr h0
    · simpa only [Function.update_of_ne hj] using h j
  · cases hp

theorem RawRep.call {l : RowLayout} {b : RawData} {L : RowList} (h : RawRep l b L) {r : RawData → Int × RawData}
    {L' : RowList} (hf : (r {}).1 ≠ 0) (ht : Tracks l b L → (r b).1 = 0 → Tracks l (r b).2 L') :
    (r b).1 = 0 → RawRep l (r b).2 L' := by
  intro hr
  rcases h with ⟨rfl, rfl⟩ | h
  · exact absurd hr hf
  · exact .inr (ht h hr)

theorem rawRep_copyRow {l : RowLayout} {w w' : RawWorld} {i ref : Nat} {alloc : Alloc}
    (h : ∀ j, RawRep l (w.bufs j) (w.lists j)) (hok : RawStepOk l w (.copyRow i ref alloc))
    (hst : w.copyRow i ref alloc = some w') : ∀ j, RawRep l (w'.bufs j) (w'.lists j) := by
  obtain ⟨hend, hs, hpos, r, hcur, hlt⟩ := hok
  unfold RawWorld.copyRow at hst
  rw [hcur] at hst
  refine put_rep h hst (fun hr => ?_)
  dsimp only at hr ⊢
  rcases h i with ⟨hb, hL⟩ | hi
  · rw [hb] at hr
    cases hr
  rcases h ref with ⟨hb, hL⟩ | href
  · rw [hL] at hcur
    cases hcur
  rw [href.cur_size hs hpos hcur] at hr ⊢
  obtain ⟨hexp, chunk, heq, hroom⟩ := hi.holds.expandChunk_ok hr
  have hi' : Tracks l ((w.bufs i).expandChunk (l.rowSize r.2) alloc).2 (w.lists i) := by
    refine ⟨hexp, hi.pos_le, hi.cur_le, ?_, fun hsi => ?_⟩
    · rw [heq]
      exact hi.offset
    · rw [heq]
      exact hi.rowOffset hsi
  refine .inr (hi'.appendCopy hend (R := w.lists ref) ?_ hs hcur (by rw [heq]; exact hroom hlt))
  split
  · rename_i hself
    rw [hself]
    exact hi'
  · exact href

theorem rawRep_copyAll {l : RowLayout} {w w' : RawWorld} {i ref : Nat} {alloc : Alloc}
    (h : ∀ j, RawRep l (w.bufs j) (w.lists j)) (hok : RawStepOk l w (.copyAll i ref alloc))
    (hst : w.copyAll l i ref alloc = some w') : ∀ j, RawRep l (w'.bufs j) (w'.lists j) := by
  have href : Tracks l (w.bufs ref) (w.lists ref) := by
    rcases h ref with ⟨hb, -⟩ | href
    · have hh : (w.bufs ref).handle = true := hok
      rw [hb] at hh
      cases hh
    · exact href
  have hdata := href.holds.dataSize
  obtain ⟨tail, -, ht, -⟩ := href.holds.parts
  have htl := ht.length
  have hlt : (w.bufs i).content.length < 2 ^ 32 ∧ (w.bufs i).overrun = false ∧
      ((w.bufs i).handle = true ∨ (w.bufs i).content.length = 0) := by
    rcases h i with ⟨hb, -⟩ | hi
    · rw [hb]
      exact ⟨by decide, rfl, .inr rfl⟩
    · exact ⟨hi.holds.chunk, hi.holds.inside, .inl hi.holds.handle⟩
  unfold RawWorld.copyAll at hst
  dsimp only at hst
  split at hst
  · cases hst
  · rename_i hre
    rw [not_not] at hre
    obtain ⟨hroom, hlt', hov, hsame⟩ := RawData.reAllocChunk_ok hlt.1 hre
    refine put_rep h hst (fun _ => ?_)
    have hsrc : Tracks l (if ref = i then ((w.bufs i).reAllocChunk (w.bufs ref).dataSize alloc).2 else w.bufs ref)
        (w.lists ref) := by
      split
      · rename_i hself
        subst hself
        rcases hsame with hsame | ⟨hbig, -⟩
        · rw [hsame]
          exact href
        · have := href.holds.dataSize_le
          omega
      · exact href
    have hhandle : ((w.bufs i).reAllocChunk (w.bufs ref).dataSize alloc).2.handle = true := by
      rcases hsame with hsame | ⟨-, hh⟩
      · rw [hsame] at hroom ⊢
        rcases hlt.2.2 with hh | hh
        · exact hh
        · omega
      · exact hh
    have hsize : (if ref = i then ((w.bufs i).reAllocChunk (w.bufs ref).dataSize alloc).2 else w.bufs ref).dataSize =
        (w.bufs ref).dataSize := by
      rw [hsrc.holds.dataSize]
      split
      · rename_i hself
        subst hself
        rcases hsame with hsame | ⟨hbig, -⟩
        · rw [hsame, hdata]
        · have := href.holds.dataSize_le
          omega
      · exact hdata.symm
    obtain ⟨h1, h2, h3⟩ := hsrc.holds.takeOver_ok hhandle (hov.trans hlt.2.1) hlt' (by rw [hsize]; exact hroom)
    exact .inr (Tracks.rewound h1 h2 h3)

theorem rawRep_step (l : RowLayout) : ∀ (w : RawWorld) (a : RawAction l) (w' : RawWorld),
    (∀ j, RawRep l (w.bufs j) (w.lists j)) → RawStepOk l w a → (rawMachine l).step w a = some w' →
    ∀ j, RawRep l (w'.bufs j) (w'.lists j)
  | w, .init i key uiDataSize hour alloc, w', h, hok, hst => put_rep h hst (fun hr => by
    obtain ⟨h1, h2, h3⟩ := RawData.init_ok hok hr
    exact .inr (Tracks.rewound h1 h2 h3))
  | w, .insertRow i row byFirst isDirty alloc tmp, w', h, _, hst =>
    put_rep h hst ((h i).call (r := fun b => b.insertRow l row byFirst isDirty alloc tmp)
      (by simp [RawData.insertRow, RawData.insertRowFlag, RawData.encodeRow, RawData.expandChunk]) (fun ht hr =>
        ht.insertRow hr))
  | w, .insertNRows i rows byFirst isDirty alloc tmp, w', h, _, hst =>
    put_rep h hst ((h i).call (r := fun b => b.insertNRows l rows byFirst isDirty alloc tmp)
      (by simp [RawData.insertNRows, RawData.expandChunk]) (fun ht hr => ht.insertNRows hr))
  | w, .decodeRow i preDecode, w', h, hok, hst => by
    refine put_rep h hst ((h i).call (r := fun b => ((b.decodeRow l preDecode).1, (b.decodeRow l preDecode).2.1)) ?_ ?_)
    · simp [RawData.decodeRow]
    · intro ht hr
      cases preDecode with
      | false => exact ht.decodeRow (hok rfl)
      | true =>
        -- nothing moves, whether a row was read or not
        have hsame : ((w.bufs i).decodeRow l true).2.1 = w.bufs i := by
          unfold RawData.decodeRow
          rw [if_neg (by simp [ht.holds.handle])]
          dsimp only
          split
          · rfl
          · split <;> rfl
        show Tracks l ((w.bufs i).decodeRow l true).2.1 (w.lists i)
        rw [hsame]
        exact ht
  | w, .replaceCurRow i row isDirty alloc tmp, w', h, hok, hst =>
    put_rep h hst ((h i).call (r := fun b => b.replaceCurRow l row isDirty alloc tmp)
      (by simp [RawData.replaceCurRow, RawData.skipRow]) (fun ht hr => ht.replaceCurRow hok.1 hok.2 hr))
  | w, .deleteCurRow i, w', h, hok, hst =>
    put_rep h hst ((h i).call (r := fun b => b.deleteCurRow l) (by simp [RawData.deleteCurRow, RawData.skipRow])
      (fun ht hr => ht.deleteCurRow hok hr))
  | w, .setCurRowFlag i uchFlag, w', h, hok, hst =>
    put_rep h hst ((h i).call (r := fun b => b.setCurRowFlag uchFlag) (by simp [RawData.setCurRowFlag])
      (fun ht hr => ht.setCurRowFlag hok hr))
  | w, .deleteAllRows i, w', h, _, hst => by
    have hput : w.put i (w.bufs i).deleteAllRows {} = some w' := hst
    refine put_rep h hput (fun _ => ?_)
    rcases h i with ⟨hb, -⟩ | ht
    · rw [hb]
      exact .inl ⟨rfl, rfl⟩
    · obtain ⟨h1, h2, h3⟩ := ht.holds.deleteAllRows_ok
      exact .inr (Tracks.rewound h1 h3 h2)
  | w, .rewind i, w', h, _, hst => by
    have hput : w.put i (0, (w.bufs i).rewind) { rows := (w.lists i).rows } = some w' := hst
    refine put_rep h hput (fun _ => ?_)
    rcases h i with ⟨hb, hL⟩ | ht
    · rw [hb, hL]
      exact .inl ⟨rfl, rfl⟩
    · exact .inr (Tracks.rewound ht.holds.rewind rfl rfl)
  | w, .copyRow i ref alloc, w', h, hok, hst => rawRep_copyRow h hok hst
  | w, .copyAll i ref alloc, w', h, hok, hst => rawRep_copyAll h hok hst

/-- **A buffer is its list**: in every run of successful calls that meet the condition, on any number of buffers of a
table, each buffer decodes to the list the calls make. -/
theorem rawMachine_refines (l : RowLayout) {w : RawWorld} (h : (rawMachine l).ReachableMeeting (RawStepOk l) w) :
    ∀ i, RawRefines l (w.bufs i) (w.lists i) := by
  intro i
  refine ((rawMachine l).reachableMeeting_induct ?_ (rawRep_step l) h i).refines
  rintro s rfl j
  exact .inl ⟨rfl, rfl⟩

def exampleLayout : RowLayout where
  tdef := { fieldList := [⟨[107], .unsigned, 4, 0, false⟩, ⟨[110], .unsigned, 4, 0, false⟩,
                          ⟨[116], .string, 100, 0, false⟩]
            keyFields := 1
            keyFormat := 4 }
  keyIdx := 0
  keySize := 4
  toFloat := BitVec.setWidth 32
  toDouble := BitVec.setWidth 64

def exampleRow (n : BitVec 64) (text : List UInt8) (h : text.length < 2 ^ 31) : RowValue
  | 1 => { word := n }
  | 2 => { bin := text, bin_len := h }
  | _ => {}

def exampleKey : PackedKey exampleLayout.keySize := ⟨[1, 0, 0, 0], rfl⟩

/-- A row is replaced by a longer one, the row behind it is copied to another buffer. -/
def replaceAndCopy : List (RawAction exampleLayout) :=
  [.init 0 exampleKey 0 9 (some []),
    .insertRow 0 (exampleRow 5 [97] (by decide)) false false (some []) true,
    .insertRow 0 (exampleRow 6 [98] (by decide)) true true (some []) true, .rewind 0, .decodeRow 0 false,
    .replaceCurRow 0 (exampleRow 7 [98, 98, 98] (by decide)) true (some []) true, .decodeRow 0 false,
    .init 1 exampleKey 0 9 (some []), .copyRow 1 0 (some [])]

theorem rawMachine_refines_replaceAndCopy :
    ∃ w, (rawMachine exampleLayout).run {} replaceAndCopy = some w ∧ (w.lists 0).rows.length = 2 ∧
      (w.lists 1).rows.length = 1 ∧ ∀ i, RawRefines exampleLayout (w.bufs i) (w.lists i) := by
  have hinit : 0 + (16 + packedKeySize exampleLayout.keySize exampleKey.bytes) < 2 ^ 32 := by decide
  refine ⟨_, rfl, by decide, by decide, rawMachine_refines exampleLayout ⟨{}, replaceAndCopy, rfl, ?_, rfl⟩⟩
  refine .cons hinit rfl (.cons trivial rfl (.cons trivial rfl (.cons trivial rfl ?_)))
  refine .cons (fun _ => by decide) rfl (.cons ⟨by decide, ?_⟩ rfl (.cons (fun _ => by decide) rfl ?_))
  · intro r hr
    obtain rfl := Option.some.inj hr
    decide
  · exact .cons hinit rfl (.cons ⟨by decide, by decide, by decide, _, rfl, by decide⟩ rfl trivial)

/-- A buffer takes over two rows and then a copy of the second of them: the copy goes where the last `DecodeRow` would
read, over the first row. -/
def copyAfterCopyAll : List (RawAction exampleLayout) :=
  [.init 0 exampleKey 0 9 (some []),
    .insertRow 0 (exampleRow 5 [97] (by decide)) false false (some []) true,
    .insertRow 0 (exampleRow 6 [98] (by decide)) false false (some []) true, .copyAll 1 0 (some []), .rewind 0,
    .decodeRow 0 false, .decodeRow 0 false, .copyRow 1 0 (some [])]

theorem copyRow_overwrites :
    ∃ w, (rawMachine exampleLayout).run {} copyAfterCopyAll = some w ∧
      ((w.lists 1).rows.map (fun r => (r.2 1).word)) = [5, 6, 6] ∧
      ((w.bufs 1).rewind.decodeRow exampleLayout false).2.2.map (fun r => r.2.map FieldVal.word) = some [6, 0] ∧
      ¬ RawRefines exampleLayout (w.bufs 1) (w.lists 1) := by
  refine ⟨_, rfl, by decide, by decide, fun h => ?_⟩
  exact absurd h.decoded (by decide)

end Dtc
