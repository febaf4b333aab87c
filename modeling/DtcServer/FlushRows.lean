import DtcServer.RawDataReplace
import DtcServer.RowMatching
/-!
# FlushRows — `FlushData`, row by row

The loop hands each dirty row to the flush request and then clears its flag.  At every row the rows in front are handed
over and clean, and the rows behind are as they were; so it is where the loop stops on an error, too.
-/
namespace Dtc

open Bytes

namespace RawData

theorem setCurRowFlag_content {l : RowLayout} {b : RawData} {pre post : List UInt8} {r : UInt8 × RowValue}
    (hc : b.content = pre ++ (l.encodeBytes r ++ post)) (ho : pre.length = b.rowOffset) (hlt : b.rowOffset < b.dataSize)
    (uchFlag : UInt8) :
    (b.setCurRowFlag uchFlag).2.content = pre ++ (l.encodeBytes (uchFlag, r.2) ++ post) := by
  have hone : ∀ flag : UInt8, l.encodeBytes (flag, r.2) ++ post = [flag] ++ (l.encodeFields r.2 l.storedIds ++ post) :=
    fun _ => rfl
  unfold setCurRowFlag
  rw [if_neg (Nat.not_le.mpr hlt)]
  show splice b.content b.rowOffset [uchFlag] = _
  rw [hc, hone uchFlag, show l.encodeBytes r ++ post = [r.1] ++ (l.encodeFields r.2 l.storedIds ++ post) from rfl]
  exact splice_append ho rfl

/-- **Only bytes of the rows have changed**, from one list of rows to another. -/
structure OnlyRows (l : RowLayout) (b b' : RawData) (rows rows' : List (UInt8 × RowValue)) : Prop where
  chunk : ∃ pre post, pre.length = b.dataStart ∧ b.content = pre ++ (l.encodeRows rows ++ post) ∧
    b'.content = pre ++ (l.encodeRows rows' ++ post)
  rest : b' = { b with content := b'.content, rowOffset := b'.rowOffset, offset := b'.offset }

end RawData

def dirtyRow (r : UInt8 × RowValue) : Bool := r.1 &&& operDirty ≠ 0

def cleanRow (r : UInt8 × RowValue) : UInt8 × RowValue := if dirtyRow r then (r.1 &&& ~~~operDirty, r.2) else r

namespace RowProcess

variable (p : RowProcess)

/-- `stRow` in front of the loop: the node's key. -/
def flushKey (b : RawData) : RowValue :=
  fun j => if j < p.tdef.keyFields then p.unpackKey (b.key p.toRowLayout).bytes j else {}

/-- The sub-task for a row: the node's key and the values that are stored. -/
def flushTask (b : RawData) (r : UInt8 × RowValue) : CommitTask := p.commitTask (p.seen (p.flushKey b) r)

/-- **The rows in front are flushed**: a sub-task for each that was dirty, in order, and their flags cleared; nothing else
has changed. -/
structure Flushed (b : RawData) (tasks : Option (List CommitTask)) (done back : List (UInt8 × RowValue))
    (s : FlushPass) : Prop where
  tasks : s.tasks = tasks.map (fun ts => ts ++ (done.filter dirtyRow).map (p.flushTask b))
  count : s.pass.count = done.countP dirtyRow
  rowsInc : s.pass.rowsInc = 0
  dirtyRowsInc : s.pass.dirtyRowsInc = -(done.countP dirtyRow : Int)
  holds : s.pass.raw.Holds p.toRowLayout (done.map cleanRow ++ back)
  only : RawData.OnlyRows p.toRowLayout b s.pass.raw (done ++ back) (done.map cleanRow ++ back)

/-- The loop in front of the rows to come. -/
structure Flushing (b : RawData) (tasks : Option (List CommitTask)) (done back : List (UInt8 × RowValue))
    (s : FlushPass) : Prop where
  flushed : p.Flushed b tasks done back s
  offset : s.pass.raw.offset = s.pass.raw.dataStart + (p.encodeRows (done.map cleanRow)).length
  row : ∀ j, j ∉ p.storedIds → s.pass.row j = p.flushKey b j

variable {p} {b : RawData} {tasks : Option (List CommitTask)} {done back : List (UInt8 × RowValue)}
  {r : UInt8 × RowValue} {s : FlushPass}

theorem Flushing.decoded (h : p.Flushing b tasks done (r :: back) s) :
    s.pass.raw.decodeRow p.toRowLayout false = (0, { s.pass.raw with
        rowOffset := s.pass.raw.offset
        offset := s.pass.raw.offset + p.rowSize r.2 }, some (p.storedRow r)) ∧
      p.assign s.pass.row (p.storedRow r).2 = p.seen (p.flushKey b) r := by
  refine ⟨?_, ?_⟩
  · rw [h.flushed.holds.decodeRow_eq h.offset false]
    rfl
  · rw [show (p.storedRow r).2 = p.storedIds.map (fun j => p.narrow (p.tdef.field j) (r.2 j)) from rfl, p.assign_storedRow]
    funext j
    by_cases hj : j ∈ p.storedIds
    · rw [seen_stored hj, seen_stored hj]
    · rw [seen_discarded hj, seen_discarded hj, h.row j hj]

theorem Flushed.setCursor (h : p.Flushed b tasks done back s) (rowOffset offset : Nat) (row : RowValue) :
    p.Flushed b tasks done back { s with pass := { s.pass with
      raw := { s.pass.raw with rowOffset := rowOffset, offset := offset }, row := row } } := by
  refine ⟨h.tasks, h.count, h.rowsInc, h.dirtyRowsInc, h.holds.setOffset _ _, h.only.chunk, ?_⟩
  have hrest := h.only.rest
  dsimp only
  rw [hrest]

theorem flushRow_ok {copied : Bool} (hr : (p.flushRow s copied).1 = true) :
    (p.flushRow s copied).2 = { s with tasks := s.tasks.map (fun ts => ts ++ [p.commitTask s.pass.row]) } := by
  obtain ⟨pass, ts⟩ := s
  cases ts with
  | none => rfl
  | some ts =>
    cases copied with
    | true => rfl
    | false => cases hr

theorem flushRow_failed {copied : Bool} (hr : (p.flushRow s copied).1 = false) : (p.flushRow s copied).2 = s := by
  obtain ⟨pass, ts⟩ := s
  cases ts with
  | none => rfl
  | some ts =>
    cases copied with
    | true => cases hr
    | false => rfl

theorem Flushing.skip (h : p.Flushing b tasks done (r :: back) s) (hd : dirtyRow r = false) :
    p.Flushing b tasks (done ++ [r]) back { s with pass := { s.pass with
      raw := { s.pass.raw with rowOffset := s.pass.raw.offset, offset := s.pass.raw.offset + p.rowSize r.2 }
      row := p.seen (p.flushKey b) r } } := by
  have hclean : cleanRow r = r := if_neg (by rw [hd]; exact Bool.false_ne_true)
  have hmoved := h.flushed.setCursor s.pass.raw.offset (s.pass.raw.offset + p.rowSize r.2) (p.seen (p.flushKey b) r)
  have hmap : (done ++ [r]).map cleanRow = done.map cleanRow ++ [r] := by
    rw [List.map_append, List.map_singleton, hclean]
  have hfilter : (done ++ [r]).filter dirtyRow = done.filter dirtyRow := by
    rw [List.filter_append, List.filter_cons_of_neg (by rw [hd]; exact Bool.false_ne_true), List.filter_nil,
      List.append_nil]
  have hcount : (done ++ [r]).countP dirtyRow = done.countP dirtyRow := by
    rw [List.countP_eq_length_filter, List.countP_eq_length_filter, hfilter]
  refine ⟨⟨?_, ?_, hmoved.rowsInc, ?_, ?_, ?_⟩, ?_, fun j hj => seen_discarded hj⟩
  · rw [hfilter]
    exact hmoved.tasks
  · rw [hcount]
    exact hmoved.count
  · rw [hcount]
    exact hmoved.dirtyRowsInc
  · rw [hmap, ← List.append_cons]
    exact hmoved.holds
  · rw [hmap, ← List.append_cons, ← List.append_cons]
    exact hmoved.only
  · have ho := h.offset
    dsimp only
    rw [hmap, RowLayout.encodeRows_append, RowLayout.encodeRows_cons, RowLayout.encodeRows_nil, List.append_nil,
      List.length_append, RowLayout.length_encodeBytes]
    omega

theorem Flushing.hand (h : p.Flushing b tasks done (r :: back) s) (hd : dirtyRow r = true) :
    p.Flushing b tasks (done ++ [r]) back
      { tasks := s.tasks.map (fun ts => ts ++ [p.flushTask b r])
        pass := { s.pass with
          raw := (({ s.pass.raw with rowOffset := s.pass.raw.offset, offset := s.pass.raw.offset + p.rowSize r.2 } :
            RawData).setCurRowFlag (r.1 &&& ~~~operDirty)).2
          row := p.seen (p.flushKey b) r
          dirtyRowsInc := s.pass.dirtyRowsInc - 1
          count := s.pass.count + 1 } } := by
  have hclean : cleanRow r = (r.1 &&& ~~~operDirty, r.2) := if_pos hd
  have hat := h.flushed.holds.setOffset s.pass.raw.offset (s.pass.raw.offset + p.rowSize r.2)
  obtain ⟨hset, content, overrun, heq⟩ := hat.setCurRowFlag_ok h.offset (r.1 &&& ~~~operDirty)
  have hmap : (done ++ [r]).map cleanRow = done.map cleanRow ++ [(r.1 &&& ~~~operDirty, r.2)] := by
    rw [List.map_append, List.map_singleton, hclean]
  have hfilter : (done ++ [r]).filter dirtyRow = done.filter dirtyRow ++ [r] := by
    rw [List.filter_append, List.filter_cons_of_pos hd, List.filter_nil]
  have hcount : (done ++ [r]).countP dirtyRow = done.countP dirtyRow + 1 := by
    rw [List.countP_eq_length_filter, List.countP_eq_length_filter, hfilter, List.length_append, List.length_singleton]
  -- the bytes in front of the row and behind it
  obtain ⟨pre, post, hlen, hb, hs⟩ := h.flushed.only.chunk
  have hrest := h.flushed.only.rest
  have hstart : s.pass.raw.dataStart = b.dataStart := by rw [hrest]
  have ho := h.offset
  have hdata := h.flushed.holds.dataSize
  have hpos := p.rowSize_pos r.2
  rw [RowLayout.encodeRows_append, RowLayout.encodeRows_cons, List.length_append, List.length_append,
    RowLayout.length_encodeBytes] at hdata
  have hcontent : (({ s.pass.raw with rowOffset := s.pass.raw.offset, offset := s.pass.raw.offset + p.rowSize r.2 } :
      RawData).setCurRowFlag (r.1 &&& ~~~operDirty)).2.content = (pre ++ p.encodeRows (done.map cleanRow)) ++
        (p.encodeBytes (r.1 &&& ~~~operDirty, r.2) ++ (p.encodeRows back ++ post)) := by
    refine RawData.setCurRowFlag_content ?_ ?_ ?_ _
    · dsimp only
      rw [hs, RowLayout.encodeRows_append, RowLayout.encodeRows_cons]
      simp only [List.append_assoc]
    · rw [List.length_append]
      dsimp only
      omega
    · dsimp only
      omega
  refine ⟨⟨?_, ?_, h.flushed.rowsInc, ?_, ?_, ?_, ?_⟩, ?_, fun j hj => seen_discarded hj⟩
  · dsimp only
    rw [h.flushed.tasks, hfilter, List.map_append]
    cases tasks with
    | none => rfl
    | some ts =>
      simp only [Option.map_some, List.append_assoc]
      rfl
  · dsimp only
    rw [hcount, h.flushed.count]
  · dsimp only
    rw [hcount, h.flushed.dirtyRowsInc]
    omega
  · rw [hmap, ← List.append_cons]
    exact hset
  · refine ⟨pre, post, hlen, ?_, ?_⟩
    · rw [← List.append_cons]
      exact hb
    · dsimp only
      rw [hcontent, hmap, ← List.append_cons, RowLayout.encodeRows_append, RowLayout.encodeRows_cons]
      simp only [List.append_assoc]
  · have hin := hset.inside
    have hin' := h.flushed.holds.inside
    rw [heq] at hin ⊢
    dsimp only at hin ⊢
    rw [hin, ← hin', hrest]
  · rw [heq]
    dsimp only
    rw [hmap, RowLayout.encodeRows_append, RowLayout.encodeRows_cons, RowLayout.encodeRows_nil, List.append_nil,
      List.length_append, RowLayout.length_encodeBytes]
    dsimp only
    omega

/-! ## The loop -/

theorem Flushing.step (h : p.Flushing b tasks done (r :: back) s) {copied : Bool}
    (hr : (p.flushStep copied s).1 = 0) : p.Flushing b tasks (done ++ [r]) back (p.flushStep copied s).2 := by
  obtain ⟨hdec, hrow⟩ := h.decoded
  unfold flushStep at hr ⊢
  rw [hdec] at hr ⊢
  dsimp only at hr ⊢
  rw [show (p.storedRow r).1 = r.1 from rfl, hrow] at hr ⊢
  by_cases hd : r.1 &&& operDirty = 0
  · rw [if_pos hd]
    exact h.skip (by simp [dirtyRow, hd])
  · rw [if_neg hd] at hr ⊢
    by_cases hf : (p.flushRow { s with pass := { s.pass with
        raw := { s.pass.raw with rowOffset := s.pass.raw.offset, offset := s.pass.raw.offset + p.rowSize r.2 }
        row := p.seen (p.flushKey b) r } } copied).1 = true
    · rw [if_pos hf, flushRow_ok hf]
      exact h.hand (by simp [dirtyRow, hd])
    · rw [if_neg hf] at hr
      cases hr

theorem Flushing.stop (h : p.Flushing b tasks done (r :: back) s) {copied : Bool}
    (hr : (p.flushStep copied s).1 ≠ 0) :
    dirtyRow r = true ∧ p.Flushed b tasks done (r :: back) (p.flushStep copied s).2 := by
  obtain ⟨hdec, hrow⟩ := h.decoded
  unfold flushStep at hr ⊢
  rw [hdec] at hr ⊢
  dsimp only at hr ⊢
  rw [show (p.storedRow r).1 = r.1 from rfl, hrow] at hr ⊢
  by_cases hd : r.1 &&& operDirty = 0
  · rw [if_pos hd] at hr
    exact absurd rfl hr
  · rw [if_neg hd] at hr ⊢
    by_cases hf : (p.flushRow { s with pass := { s.pass with
        raw := { s.pass.raw with rowOffset := s.pass.raw.offset, offset := s.pass.raw.offset + p.rowSize r.2 }
        row := p.seen (p.flushKey b) r } } copied).1 = true
    · rw [if_pos hf] at hr
      exact absurd rfl hr
    · rw [if_neg hf, flushRow_failed ((Bool.not_eq_true _).mp hf)]
      exact ⟨by simp [dirtyRow, hd], h.flushed.setCursor _ _ _⟩

theorem flushLoop_ok {copied : Nat → Bool} : ∀ (back done : List (UInt8 × RowValue)) (i : Nat) (s : FlushPass),
    p.Flushing b tasks done back s → (p.flushLoop copied back.length i s).1 = 0 →
      p.Flushed b tasks (done ++ back) [] (p.flushLoop copied back.length i s).2
  | [], done, _, s, h, _ => by
    rw [List.append_nil]
    exact h.flushed
  | r :: back, done, i, s, h, hr => by
    rw [List.length_cons, flushLoop] at hr ⊢
    by_cases h0 : (p.flushStep (copied i) s).1 = 0
    · rw [if_neg (not_not.mpr h0)] at hr ⊢
      rw [List.append_cons]
      exact flushLoop_ok back (done ++ [r]) (i + 1) _ (h.step h0) hr
    · rw [if_pos h0] at hr
      exact absurd hr h0

variable {rows : List (UInt8 × RowValue)}

theorem flushData_start (h : b.Holds p.toRowLayout rows) (isDirty : Bool) (tasks : Option (List CommitTask))
    (copied : Nat → Bool) : ∃ s, p.Flushing b tasks [] rows s ∧
      p.flushData b isDirty tasks copied = p.flushLoop copied (if isDirty then rows.length else 0) 0 s := by
  have hattach : p.attachData b false {} = (0, { raw := { b with offset := b.dataStart, rowOffset := b.dataStart } }) := by
    unfold attachData
    rw [h.attach_eq]
    rfl
  obtain ⟨tail, slack, ht, hc⟩ := h.parts
  have htl := ht.length
  refine ⟨{ pass := { raw := { b with offset := b.dataStart, rowOffset := b.dataStart }, row := p.flushKey b }
            tasks := tasks }, ?_, ?_⟩
  · refine ⟨⟨?_, rfl, rfl, rfl, h.setOffset _ _, ?_, rfl⟩, rfl, fun _ _ => rfl⟩
    · cases tasks with
      | none => rfl
      | some ts => simp
    · refine ⟨_, slack, ?_, hc, hc⟩
      rw [length_rawHeader]
      omega
  · unfold flushData
    rw [hattach]
    dsimp only
    rw [if_neg (not_not.mpr rfl), h.rowCount]
    rfl

theorem flushData_flushed (h : b.Holds p.toRowLayout rows) {isDirty : Bool} {copied : Nat → Bool}
    (hr : (p.flushData b isDirty tasks copied).1 = 0) :
    (isDirty = true → p.Flushed b tasks rows [] (p.flushData b isDirty tasks copied).2) ∧
      (isDirty = false → p.Flushed b tasks [] rows (p.flushData b isDirty tasks copied).2) := by
  obtain ⟨s, hs, heq⟩ := flushData_start h isDirty tasks copied
  rw [heq] at hr ⊢
  cases isDirty with
  | true => exact ⟨fun _ => flushLoop_ok rows [] 0 s hs hr, fun hd => absurd hd Bool.noConfusion⟩
  | false => exact ⟨fun hd => absurd hd Bool.noConfusion, fun _ => hs.flushed⟩

end RowProcess

end Dtc
