import DtcServer.RawDataProcess
/-!
# RawDataProcessSpec — what the calls of a walk do to the rows of its buffer

Each call is stated on the rows in front of the cursor and those behind it.
-/
namespace Dtc

open Bytes

namespace RowLayout

variable (l : RowLayout)

theorem encodeFields_congr {row row' : RowValue} : ∀ {js : List Nat}, (∀ j ∈ js, row j = row' j) →
    l.encodeFields row js = l.encodeFields row' js
  | [], _ => rfl
  | j :: js, h => by
    rw [encodeFields, encodeFields, h j List.mem_cons_self,
      encodeFields_congr (fun i hi => h i (List.mem_cons_of_mem j hi))]

theorem encodeBytes_congr {flag : UInt8} {row row' : RowValue} (h : ∀ j ∈ l.storedIds, row j = row' j) :
    l.encodeBytes (flag, row) = l.encodeBytes (flag, row') := by
  unfold encodeBytes
  rw [l.encodeFields_congr h]

end RowLayout

namespace RawData

variable {l : RowLayout} {b : RawData}

theorem Holds.congr {rows rows' : List (UInt8 × RowValue)} (h : b.Holds l rows)
    (he : rows.map l.encodeBytes = rows'.map l.encodeBytes) : b.Holds l rows' := by
  have hlen : rows.length = rows'.length := by simpa using congrArg List.length he
  have hbytes : l.encodeRows rows = l.encodeRows rows' := by
    unfold RowLayout.encodeRows
    rw [List.flatMap_def, List.flatMap_def, he]
  obtain ⟨tail, slack, ht, hc⟩ := h.parts
  exact ⟨h.handle, h.inside, h.chunk, ⟨tail, slack, ht, hbytes ▸ hc⟩, hlen ▸ h.rowCount, hbytes ▸ h.dataSize⟩

theorem Formed.attach_eq (h : b.Formed l) : b.attach l =
    (0, { b with offset := b.dataStart, rowOffset := b.dataStart }) := by
  obtain ⟨tail, body, ht, hc⟩ := h.parts
  exact RawData.attach_eq h.chunk hc ht h.dataSize_le h.rowCount

theorem Holds.attach_eq {rows : List (UInt8 × RowValue)} (h : b.Holds l rows) : b.attach l =
    (0, { b with offset := b.dataStart, rowOffset := b.dataStart }) := h.formed.attach_eq

theorem Formed.key_size (h : b.Formed l) : b.dataStart = 16 + packedKeySize l.keySize (b.key l).bytes := by
  obtain ⟨tail, body, ht, hc⟩ := h.parts
  obtain ⟨info, key, rfl, hinfo, hkey, hs⟩ := ht
  have hdrop : b.content.drop 16 = key ++ body := by
    rw [hc]
    exact drop_rawHeader hinfo
  have hbytes : (b.key l).bytes = key := by
    unfold RawData.key
    dsimp only
    rw [hdrop, packedKeySize_append hkey, ← hkey, List.append_assoc, List.take_left' rfl]
  rw [hbytes, hs, hkey]

theorem Holds.key_size {rows : List (UInt8 × RowValue)} (h : b.Holds l rows) :
    b.dataStart = 16 + packedKeySize l.keySize (b.key l).bytes := h.formed.key_size

theorem Holds.touchHours {rows : List (UInt8 × RowValue)} (h : b.Holds l rows) (hour : Nat) :
    (b.touchHours hour).Holds l rows := by
  obtain ⟨tail, slack, ht, hc⟩ := h.parts
  obtain ⟨info, key, rfl, hinfo, hkey, hs⟩ := ht
  have hle := h.dataSize_le
  have hdata := h.dataSize
  -- the get count, and the hours of access, update and creation
  obtain ⟨get, hours, rfl, hget⟩ := exists_split info (n := 1) (by omega)
  rw [List.length_append] at hinfo
  obtain ⟨access, hours, rfl, haccess⟩ := exists_split hours (n := 2) (by omega)
  rw [List.length_append] at hinfo
  obtain ⟨update, create, rfl, hupdate⟩ := exists_split hours (n := 2) (by omega)
  rw [List.length_append] at hinfo
  have hb2 : (leBytes 2 hour).length = 2 := length_leBytes 2 hour
  have hacc : splice b.content 10 (leBytes 2 hour) = rawHeader b.dataSize b.rowCnt
      ((get ++ (leBytes 2 hour ++ (update ++ create))) ++ key) ++ (l.encodeRows rows ++ slack) := by
    have hassoc : b.content = (0 :: (leBytes 4 b.dataSize ++ (leBytes 4 b.rowCnt ++ get))) ++
        (access ++ (update ++ (create ++ (key ++ (l.encodeRows rows ++ slack))))) := by
      rw [hc]
      simp [rawHeader]
    rw [hassoc, splice_append (by simp [hget]) (by rw [haccess, hb2])]
    simp [rawHeader]
  have hupd : splice (splice b.content 10 (leBytes 2 hour)) 12 (leBytes 2 hour) = rawHeader b.dataSize b.rowCnt
      ((get ++ (leBytes 2 hour ++ (leBytes 2 hour ++ create))) ++ key) ++ (l.encodeRows rows ++ slack) := by
    have hassoc : splice b.content 10 (leBytes 2 hour) =
        (0 :: (leBytes 4 b.dataSize ++ (leBytes 4 b.rowCnt ++ (get ++ leBytes 2 hour)))) ++
          (update ++ (create ++ (key ++ (l.encodeRows rows ++ slack)))) := by
      rw [hacc]
      simp [rawHeader]
    rw [hassoc, splice_append (by simp [hget]) (by rw [hupdate, hb2])]
    simp [rawHeader]
  have hlen : (splice b.content 10 (leBytes 2 hour)).length = b.content.length :=
    length_splice (by rw [hb2]; omega)
  have heq : b.touchHours hour =
      { b with content := splice (splice b.content 10 (leBytes 2 hour)) 12 (leBytes 2 hour) } := by
    have hroom : ¬ 10 + 2 > b.content.length := by omega
    have hroom' : ¬ 10 + 2 * 2 > (splice b.content 10 (leBytes 2 hour)).length := by omega
    unfold RawData.touchHours
    rw [if_neg hroom]
    dsimp only
    rw [if_neg hroom']
  rw [heq]
  refine ⟨h.handle, h.inside, ?_, ⟨_, slack, ⟨get ++ (leBytes 2 hour ++ (leBytes 2 hour ++ create)), key, rfl, ?_, hkey, hs⟩,
    hupd⟩, h.rowCount, h.dataSize⟩
  · dsimp only
    rw [length_splice (by rw [hlen, hb2]; omega), hlen]
    exact h.chunk
  · simp only [List.length_append, hb2]
    omega

theorem Holds.stripMem {rows : List (UInt8 × RowValue)} (h : b.Holds l rows) (alloc : Alloc) :
    (b.stripMem alloc).2.Holds l rows ∧ (b.stripMem alloc).2.rowCnt = b.rowCnt := by
  obtain ⟨tail, slack, ht, hc⟩ := h.parts
  have htl := ht.length
  have hdata := h.dataSize
  unfold RawData.stripMem reAllocTo
  cases hre : reAlloc b.content b.dataSize alloc with
  | none => exact ⟨⟨h.handle, h.inside, h.chunk, h.parts, h.rowCount, h.dataSize⟩, rfl⟩
  | some chunk =>
    rw [hc, ← List.append_assoc] at hre
    obtain ⟨slack', rfl, -, hlt⟩ := reAlloc_keeps (by rw [List.length_append, length_rawHeader]; omega) hre
    exact ⟨⟨rfl, h.inside, hlt, ⟨tail, slack', ht, List.append_assoc _ _ _⟩, h.rowCount, h.dataSize⟩, rfl⟩

theorem skipRow_cases : (b.skipRow l).1 ≠ ecNoMem ∧
    ((b.skipRow l).1 = 0 → ∃ off, (b.skipRow l).2 = { b with offset := off }) := by
  unfold skipRow
  dsimp only
  split
  · simp [ecNoMem]
  · split
    · simp [ecNoMem]
    · split
      · simp [ecNoMem]
      · refine ⟨?_, fun _ => ⟨_, rfl⟩⟩
        split <;> simp [ecNoMem]

theorem encodeInPlace_ne {row : RowValue} {uchOp : UInt8} : (b.encodeInPlace l row uchOp).1 ≠ ecNoMem := by
  have h0 : (0 : Int) ≠ ecNoMem := by decide
  have h100 : (-100 : Int) ≠ ecNoMem := by decide
  unfold encodeInPlace
  dsimp only
  by_cases hop : (b.setValue [uchOp]).1 = true
  · rw [if_pos hop]
    by_cases hfields : (setFields l (b.setValue [uchOp]).2 row l.storedIds).1 = true
    · rw [if_pos hfields]
      exact h0
    · rw [if_neg hfields]
      exact h100
  · rw [if_neg hop, if_neg hop]
    exact h100

theorem failed_ne {c : Prop} [Decidable c] {x y : RawData} : (if c then ((-1 : Int), x) else (0, y)).1 ≠ ecNoMem := by
  have h0 : (0 : Int) ≠ ecNoMem := by decide
  have h1 : (-1 : Int) ≠ ecNoMem := by decide
  by_cases hc : c
  · rw [if_pos hc]
    exact h1
  · rw [if_neg hc]
    exact h0

theorem replaceGrow_noMem {row : RowValue} {flag : UInt8} {uiCurRowSize : Nat} {alloc : Alloc}
    (hr : (b.replaceGrow l row flag uiCurRowSize alloc).1 = ecNoMem) :
    ∃ n, (b.replaceGrow l row flag uiCurRowSize alloc).2 = { b with needSize := n } := by
  unfold replaceGrow at hr ⊢
  dsimp only at hr ⊢
  generalize (b.dataSize + sub32 (l.calcRowSize row) uiCurRowSize) % 2 ^ 32 = size at hr ⊢
  unfold reAllocTo at hr ⊢
  cases hre : reAlloc b.content size alloc with
  | none => exact ⟨size, rfl⟩
  | some chunk =>
    rw [hre] at hr
    dsimp only at hr
    rw [if_neg (not_not.mpr rfl)] at hr
    exact absurd hr failed_ne

theorem replaceShrink_ne {row : RowValue} {flag : UInt8} {uiCurRowSize : Nat} {alloc : Alloc} :
    (b.replaceShrink l row flag uiCurRowSize alloc).1 ≠ ecNoMem := by
  unfold replaceShrink
  exact failed_ne

theorem replaceCurRow_noMem {row : RowValue} {isDirty : Bool} {alloc : Alloc} {tmp : Bool}
    (hr : (b.replaceCurRow l row isDirty alloc tmp).1 = ecNoMem) :
    ∃ n, (b.replaceCurRow l row isDirty alloc tmp).2 = { b with needSize := n } := by
  obtain ⟨hskip, hskipped⟩ := @skipRow_cases l b
  unfold replaceCurRow at hr ⊢
  dsimp only at hr ⊢
  by_cases hs : (b.skipRow l).1 = 0
  · obtain ⟨off, hoff⟩ := hskipped hs
    rw [if_neg (not_not.mpr hs)] at hr ⊢
    by_cases hend : b.rowOffset + 1 > b.content.length
    · rw [if_pos hend] at hr
      simp [ecNoMem] at hr
    · rw [if_neg hend, hoff] at hr ⊢
      generalize (if isDirty then operUpdate else b.content.getD b.rowOffset 0) = flag at hr ⊢
      dsimp only at hr ⊢
      by_cases hgrow : l.calcRowSize row > sub32 off b.rowOffset
      · rw [if_pos hgrow] at hr ⊢
        by_cases hz : (replaceGrow l { b with offset := off } row flag (sub32 off b.rowOffset) alloc).1 = 0
        · rw [if_neg (not_not.mpr hz), hz] at hr
          simp [ecNoMem] at hr
        · rw [if_pos hz] at hr ⊢
          obtain ⟨n, hn⟩ := replaceGrow_noMem hr
          exact ⟨n, by rw [hn]⟩
      · rw [if_neg hgrow] at hr
        split at hr
        · simp [ecNoMem] at hr
        · split at hr <;> exact absurd hr replaceShrink_ne
  · rw [if_pos hs] at hr
    exact absurd hr hskip

theorem rotateRows_ne {uiOldSize : Nat} {tmp : Bool} : (b.rotateRows uiOldSize tmp).1 ≠ ecNoMem := by
  have hcases : (b.rotateRows uiOldSize tmp).1 = 0 ∨ (b.rotateRows uiOldSize tmp).1 = -12 := by
    unfold rotateRows
    by_cases hboth : sub32 b.dataSize uiOldSize > 0 ∧ sub32 uiOldSize b.dataStart > 0
    · simp only [if_pos hboth]
      cases tmp with
      | false => simp only [Bool.not_false, if_true, or_true]
      | true => simp only [Bool.not_true, Bool.false_eq_true, if_false, true_or]
    · simp only [if_neg hboth, true_or]
  have h0 : (0 : Int) ≠ ecNoMem := by decide
  have h12 : (-12 : Int) ≠ ecNoMem := by decide
  rcases hcases with h | h
  · rw [h]
    exact h0
  · rw [h]
    exact h12

theorem insertRow_noMem {row : RowValue} {byFirst isDirty : Bool} {alloc : Alloc} {tmp : Bool}
    (hr : (b.insertRow l row byFirst isDirty alloc tmp).1 = ecNoMem) :
    ∃ n, (b.insertRow l row byFirst isDirty alloc tmp).2 = { b with offset := b.dataSize, needSize := n } := by
  have hexp : (({ b with offset := b.dataSize } : RawData).expandChunk (l.calcRowSize row) alloc).1 = ecNoMem := by
    by_contra hne
    unfold insertRow insertRowFlag encodeRow at hr
    dsimp only at hr
    generalize ({ b with offset := b.dataSize } : RawData).expandChunk (l.calcRowSize row) alloc = e at hr hne
    by_cases h0 : e.1 = 0
    · rw [if_neg (not_not.mpr h0)] at hr
      split at hr
      · exact rotateRows_ne hr
      · exact encodeInPlace_ne hr
    · rw [if_pos h0, if_neg (fun hboth => h0 hboth.1)] at hr
      exact hne hr
  have hnone : ∃ n, (({ b with offset := b.dataSize } : RawData).expandChunk (l.calcRowSize row) alloc).2 =
      { b with offset := b.dataSize, needSize := n } := by
    unfold expandChunk at hexp ⊢
    dsimp only at hexp ⊢
    split at hexp
    · simp [ecNoMem] at hexp
    · rename_i hh
      rw [if_neg hh]
      split at hexp
      · rename_i hbig
        rw [if_pos hbig]
        unfold reAllocTo at hexp ⊢
        dsimp only at hexp ⊢
        cases hre : reAlloc b.content ((b.dataSize + l.calcRowSize row) % 2 ^ 32) alloc with
        | none => exact ⟨_, rfl⟩
        | some chunk =>
          rw [hre] at hexp
          simp [ecNoMem] at hexp
      · simp [ecNoMem] at hexp
  have hne : (({ b with offset := b.dataSize } : RawData).expandChunk (l.calcRowSize row) alloc).1 ≠ 0 := by
    rw [hexp]
    simp [ecNoMem]
  unfold insertRow insertRowFlag encodeRow
  dsimp only
  rw [if_pos hne, if_neg (fun hboth => hne hboth.1)]
  exact hnone

end RawData

namespace RowProcess

variable (p : RowProcess) (req : RowRequest)

/-- The row variable after `DecodeRow`: the stored fields are the row's, the others stay. -/
def seen (row : RowValue) (r : UInt8 × RowValue) : RowValue :=
  fun j => if j ∈ p.storedIds then p.narrow (p.tdef.field j) (r.2 j) else row j

theorem foldl_update (f : Nat → FieldVal) : ∀ (js : List Nat) (row : RowValue),
    (js.zip (js.map f)).foldl (fun row v => Function.update row v.1 v.2) row = fun j => if j ∈ js then f j else row j
  | [], row => by simp
  | i :: js, row => by
    rw [List.map_cons, List.zip_cons_cons, List.foldl_cons, foldl_update f js]
    funext j
    by_cases hj : j ∈ js
    · simp [hj]
    · by_cases hi : j = i
      · subst hi
        simp [hj]
      · simp [hj, hi]

theorem assign_storedRow (row : RowValue) (r : UInt8 × RowValue) :
    p.assign row (p.storedIds.map (fun j => p.narrow (p.tdef.field j) (r.2 j))) = p.seen row r := foldl_update _ _ _

/-! ## Writing through the values -/

theorem length_throughValue (id : Nat) : ∀ (us : List FieldUpdate) (v : FieldVal),
    (throughValue id us v).bin.length = v.bin.length
  | [], _ => rfl
  | u :: us, v => by
    unfold throughValue
    by_cases hid : u.id = id
    · by_cases hin : u.inPlace = true
      · rw [if_pos hid, if_pos hin, length_throughValue id us, u.sameLength hin]
      · rw [if_pos hid, if_neg hin]
    · rw [if_neg hid, length_throughValue id us]

/-- The row that is in the chunk when the operations have written through its values. -/
def writtenRow (us : List FieldUpdate) (row r : RowValue) : RowValue := fun j =>
  match (p.tdef.field j).fieldType with
  | .signed | .unsigned | .float => r j
  | _ => throughValue j us (row j)

variable {us : List FieldUpdate} {row r : RowValue}

theorem fieldBytes_writtenRow {j : Nat} (h : row j = p.narrow (p.tdef.field j) (r j)) :
    RowLayout.fieldBytes (p.tdef.field j) (p.writtenRow us row r j) = RowLayout.fieldBytes (p.tdef.field j) (r j) := by
  unfold RowLayout.fieldBytes writtenRow
  cases hf : (p.tdef.field j).fieldType with
  | signed | unsigned | float => rfl
  | none | string | binary =>
    dsimp only
    rw [length_throughValue, h]
    simp [RowLayout.narrow, hf]

theorem fieldsSize_writtenRow : ∀ {js : List Nat}, (∀ j ∈ js, row j = p.narrow (p.tdef.field j) (r j)) →
    p.fieldsSize (p.writtenRow us row r) js = p.fieldsSize r js
  | [], _ => rfl
  | j :: js, h => by
    rw [RowLayout.fieldsSize, RowLayout.fieldsSize, p.fieldBytes_writtenRow (h j List.mem_cons_self),
      fieldsSize_writtenRow (fun i hi => h i (List.mem_cons_of_mem j hi))]

theorem writeThrough_eq {post : List UInt8} : ∀ (js : List Nat) (pre : List UInt8) (off : Nat),
    (∀ j ∈ js, row j = p.narrow (p.tdef.field j) (r j)) → pre.length = off → off + p.fieldsSize r js < 2 ^ 32 →
    p.writeThrough us row js off (pre ++ (p.encodeFields r js ++ post)) =
      pre ++ (p.encodeFields (p.writtenRow us row r) js ++ post)
  | [], _, _, _, _, _ => rfl
  | j :: js, pre, off, hrow, ho, hlt => by
    have hj := hrow j List.mem_cons_self
    have hbytes := @fieldBytes_writtenRow p us _ _ _ hj
    have hrest := fun i hi => hrow i (List.mem_cons_of_mem j hi)
    rw [RowLayout.fieldsSize] at hlt
    rw [RowLayout.encodeFields, RowLayout.encodeFields, List.append_assoc, List.append_assoc, writeThrough,
      p.skipField_encode _ _ ho (by omega)]
    dsimp only
    -- the rest of the fields, behind the bytes of this one
    have hbehind : ∀ bytes : List UInt8, bytes.length = RowLayout.fieldBytes (p.tdef.field j) (r j) →
        p.writeThrough us row js (off + RowLayout.fieldBytes (p.tdef.field j) (r j))
            (pre ++ (bytes ++ (p.encodeFields r js ++ post))) =
          pre ++ (bytes ++ (p.encodeFields (p.writtenRow us row r) js ++ post)) := fun bytes hb => by
      have hpre : (pre ++ bytes).length = off + RowLayout.fieldBytes (p.tdef.field j) (r j) := by
        rw [List.length_append, ho, hb]
      have heq := @writeThrough_eq post js _ _ hrest hpre (by omega)
      rwa [List.append_assoc, List.append_assoc] at heq
    cases hf : (p.tdef.field j).fieldType with
    | signed | unsigned | float =>
      have hsame : p.writtenRow us row r j = r j := by simp [writtenRow, hf]
      rw [hsame]
      exact hbehind _ (p.length_encodeField _ _)
    | none | string | binary =>
      have hval : p.writtenRow us row r j = throughValue j us (row j) := by simp [writtenRow, hf]
      have hlen : (throughValue j us (row j)).bin.length = (r j).bin.length := by
        rw [length_throughValue, hj]
        simp [RowLayout.narrow, hf]
      have hold : p.encodeField (p.tdef.field j) (r j) = leBytes 4 (r j).bin.length ++ (r j).bin := by
        simp [RowLayout.encodeField, hf]
      have hnew : p.encodeField (p.tdef.field j) (p.writtenRow us row r j) =
          leBytes 4 (r j).bin.length ++ (throughValue j us (row j)).bin := by
        rw [hval]
        simp [RowLayout.encodeField, hf, hlen]
      have hput : splice (pre ++ (p.encodeField (p.tdef.field j) (r j) ++ (p.encodeFields r js ++ post))) (off + 4)
          (throughValue j us (row j)).bin =
          pre ++ (p.encodeField (p.tdef.field j) (p.writtenRow us row r j) ++ (p.encodeFields r js ++ post)) := by
        rw [hold, hnew, List.append_assoc, List.append_assoc, ← List.append_assoc pre, ← List.append_assoc pre]
        exact splice_append (by rw [List.length_append, length_leBytes, ho]) hlen.symm
      rw [hput]
      exact hbehind _ ((p.length_encodeField _ _).trans hbytes)

variable {front back : List (UInt8 × RowValue)} {s : RowPass}

theorem rowSize_writtenRow (hrow : ∀ j ∈ p.storedIds, row j = p.narrow (p.tdef.field j) (r j)) :
    p.rowSize (p.writtenRow us row r) = p.rowSize r := by
  unfold RowLayout.rowSize
  rw [p.fieldsSize_writtenRow hrow]

theorem applyUpdates_ok {r : UInt8 × RowValue} (h : s.raw.Holds p.toRowLayout (front ++ r :: back))
    (ho : s.raw.rowOffset = s.raw.dataStart + (p.encodeRows front).length)
    (hrow : ∀ j ∈ p.storedIds, s.row j = p.narrow (p.tdef.field j) (r.2 j)) :
    ∃ content, p.applyUpdates req s = { s with raw := { s.raw with content := content }, row := req.updateRow p s.row } ∧
      ({ s.raw with content := content } : RawData).Holds p.toRowLayout
        (front ++ (r.1, p.writtenRow (req.operations p) s.row r.2) :: back) := by
  obtain ⟨tail, slack, ht, hc⟩ := h.at_row
  obtain ⟨hsize, hle, hlt, -⟩ := h.sizes
  have htl := ht.length
  have hsz : p.rowSize r.2 = 1 + p.fieldsSize r.2 p.storedIds := rfl
  have hsame := @rowSize_writtenRow p (req.operations p) _ _ hrow
  have hput : p.writeThrough (req.operations p) s.row p.storedIds (s.raw.rowOffset + 1) s.raw.content =
      rawHeader s.raw.dataSize s.raw.rowCnt tail ++ (p.encodeRows front ++
        (p.encodeBytes (r.1, p.writtenRow (req.operations p) s.row r.2) ++ (p.encodeRows back ++ slack))) := by
    have hassoc : s.raw.content = ((rawHeader s.raw.dataSize s.raw.rowCnt tail ++ p.encodeRows front) ++ [r.1]) ++
        (p.encodeFields r.2 p.storedIds ++ (p.encodeRows back ++ slack)) := by
      rw [hc]
      simp [RowLayout.encodeBytes]
    rw [hassoc, p.writeThrough_eq _ _ _ hrow (by
      rw [List.length_append, List.length_append, length_rawHeader, List.length_singleton]
      omega) (by omega)]
    simp [RowLayout.encodeBytes]
  refine ⟨_, rfl, ?_⟩
  refine h.replaced h.handle h.inside rfl ht ?_ rfl hput ?_
  · rw [hsame]
    exact (Nat.add_sub_cancel _ _).symm
  · have hlen := congrArg List.length hput
    have hold := congrArg List.length hc
    simp only [List.length_append, length_rawHeader, RowLayout.length_encodeBytes] at hlen hold
    rw [hsame] at hlen
    show (p.writeThrough _ _ _ _ _).length < _
    omega

/-! ## The private area -/

theorem encodeToPrivateArea_ok {raw : RawData} {hour : Nat} {calls : RowCalls}
    (hfit : p.rowSize row + (16 + packedKeySize p.keySize (raw.key p.toRowLayout).bytes) < 2 ^ 32)
    (hr : (p.encodeToPrivateArea raw row hour calls).1 = 0) :
    (p.encodeToPrivateArea raw row hour calls).2 = p.seen row (0, row) := by
  have hcalc : p.calcRowSize row = p.rowSize row := p.calcRowSize_of_lt row (by omega)
  unfold encodeToPrivateArea at hr ⊢
  dsimp only at hr ⊢
  rw [hcalc] at hr ⊢
  by_cases hi : (RawData.init p.toRowLayout (raw.key p.toRowLayout) (p.rowSize row) hour calls.privInit).1 = 0
  · rw [if_neg (not_not.mpr hi)] at hr ⊢
    obtain ⟨h1, h2, h3⟩ := RawData.init_ok hfit hi
    generalize (RawData.init p.toRowLayout (raw.key p.toRowLayout) (p.rowSize row) hour calls.privInit).2 = b at *
    by_cases he : (b.insertRow p.toRowLayout row false false calls.privExpand true).1 = 0
    · rw [if_neg (not_not.mpr he)] at hr ⊢
      have hrows : (b.insertRow p.toRowLayout row false false calls.privExpand true).2.Holds p.toRowLayout
          ([] ++ (RawData.insertFlag false, row) :: []) := ((Tracks.rewound h1 h2 h3).insertRow he).holds
      rw [hrows.rewind.decodeRow_eq rfl false]
      exact p.assign_storedRow row (RawData.insertFlag false, row)
    · rw [if_pos he] at hr
      cases hr
  · rw [if_pos hi] at hr
    cases hr

end RowProcess

end Dtc
