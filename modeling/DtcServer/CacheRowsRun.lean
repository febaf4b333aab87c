import DtcServer.CacheCounters
/-!
# CacheRowsRun — the row counters over whole runs

What the data operations report is compared with what they leave in `CacheData`; here the calls of `IncTotalRow` and
`IncDirtyRow` are compared with the reports, one handler at a time.
-/
namespace Dtc
open Tally
namespace CacheProcess
variable {κ ρ : Type}

/-! ## What a handler decides -/

section Decided

variable [DecidableEq κ] {p : CacheProcess κ ρ} {t : CacheTask κ ρ}

def Decided (p : CacheProcess κ ρ) (r : CacheProcess κ ρ × CacheWork) : Prop :=
  r = (p, .none) ∨ ∃ key isset, r.1 = p.transationFindNode key isset

def Handled (p : CacheProcess κ ρ) (t : CacheTask κ ρ) (r : CacheProcess κ ρ × CacheWork) : Prop :=
  r = (p, .none) ∨ ∃ key w, r = (p.transationFindNode key t.isset, w) ∧
    (w = .flushBeforeDelete → (p.transationFindNode key t.isset).nodeDirty = true)

theorem Handled.decided {r : CacheProcess κ ρ × CacheWork} (h : Handled p t r) : Decided p r := by
  obtain rfl | ⟨key, w, rfl, -⟩ := h
  · exact .inl rfl
  · exact .inr ⟨key, t.isset, rfl⟩

theorem handled_none : Handled p t (p, .none) := .inl rfl

theorem handled_found {w : CacheWork} {key : κ} (hw : w ≠ .flushBeforeDelete) :
    Handled p t (p.transationFindNode key t.isset, w) :=
  .inr ⟨key, w, rfl, fun he => absurd he hw⟩

theorem handled_find {w : CacheWork} (hw : w ≠ .flushBeforeDelete) : Handled p t (p.find t, w) := handled_found hw

theorem handled_work {a : Prop} [Decidable a] {w w' : CacheWork} {key : κ} (hw : w ≠ .flushBeforeDelete)
    (hw' : w' ≠ .flushBeforeDelete) : Handled p t (p.transationFindNode key t.isset, if a then w else w') := by
  apply handled_found
  split
  · exact hw
  · exact hw'

theorem handled_ite {a : Prop} [Decidable a] {r r' : CacheProcess κ ρ × CacheWork} (h : Handled p t r)
    (h' : Handled p t r') : Handled p t (if a then r else r') := by
  split
  · exact h
  · exact h'

theorem handled_syncInsert : Handled p t (p.cacheSyncInsert t) := handled_ite handled_none (handled_work nofun nofun)

theorem handled_syncUpdate : Handled p t (p.cacheSyncUpdate t) := by
  refine handled_ite handled_none (handled_ite (handled_ite ?_ handled_none) ?_)
  all_goals
    dsimp only
    split
    · exact handled_find nofun
    · exact handled_work nofun nofun
    · exact handled_find nofun

theorem handled_syncReplace : Handled p t (p.cacheSyncReplace t) := by
  refine handled_ite handled_none ?_
  dsimp only
  split <;> exact handled_find nofun

theorem handled_nodbInsert : Handled p t (p.cacheNodbInsert t) := handled_ite handled_none (handled_work nofun nofun)

theorem handled_asyncReplace : Handled p t (p.cacheAsyncReplace t) := by
  unfold cacheAsyncReplace
  dsimp only
  split <;> exact handled_work nofun nofun

theorem handled_request : Handled p t (p.cacheProcessRequest t) := by
  unfold cacheProcessRequest
  cases t.cmd with
  | get => exact handled_ite handled_none (handled_ite (handled_find nofun) (handled_work nofun nofun))
  | insert =>
    exact handled_ite (handled_ite handled_none (handled_work nofun nofun))
      (handled_ite handled_none (handled_ite (handled_find nofun) handled_none))
  | update => exact handled_ite handled_none (handled_work nofun nofun)
  | delete =>
    refine handled_ite handled_none (.inr ⟨t.key, _, rfl, fun hw => ?_⟩)
    by_contra hd
    have hno : (if (p.find t).nodeDirty = true then CacheWork.flushBeforeDelete else .none) = .flushBeforeDelete := hw
    rw [if_neg (show ¬ (p.find t).nodeDirty = true from hd)] at hno
    cases hno
  | replace => exact handled_ite handled_none handled_asyncReplace
  | purge => exact handled_find nofun
  | flush => exact handled_ite handled_none (handled_work nofun nofun)

theorem handled_nodb : Handled p t (p.cacheProcessNodb t) := by
  unfold cacheProcessNodb
  cases t.cmd with
  | get => exact handled_ite handled_none (handled_work nofun nofun)
  | insert => exact handled_nodbInsert
  | update => exact handled_work nofun nofun
  | delete => exact handled_work nofun nofun
  | replace => exact handled_ite (handled_work nofun nofun) handled_none
  | purge => exact handled_find nofun
  | flush => exact handled_none

theorem handled_handles : Handled p t (p.handles t) := handled_ite handled_nodb handled_request

theorem handled_reply : Handled p t (p.cacheProcessReply t) := by
  unfold cacheProcessReply
  cases t.cmd with
  | get => exact handled_ite handled_none (handled_find nofun)
  | insert => exact handled_ite handled_nodbInsert (handled_ite (handled_find nofun) handled_syncInsert)
  | update => exact handled_ite (handled_work nofun nofun) (handled_ite (handled_find nofun) handled_syncUpdate)
  | delete => exact handled_work nofun nofun
  | replace => exact handled_ite (handled_work nofun nofun) handled_syncReplace
  | purge => exact handled_none
  | flush => exact handled_none

theorem handled_error {code : ErrorCode} : Handled p t (p.cacheProcessError t code) := by
  unfold cacheProcessError
  have hpurge : Handled p t (if p.conf.updateMode = .sync then (p.find t, .purgeData) else (p, .none)) :=
    handled_ite (handled_find nofun) handled_none
  dsimp only
  split
  · exact handled_ite handled_syncInsert handled_none
  · exact handled_ite handled_syncUpdate hpurge
  · exact hpurge
  · exact hpurge
  · exact hpurge
  · exact handled_none

end Decided

/-! ## The row counters -/

section Rows

variable {p : CacheProcess κ ρ} {t : CacheTask κ ρ} {n : CacheNode κ ρ} {async setrows : Bool}

theorem counted_congr {x : Int} {a b : Nat} (h : x = (a : Int) % 2 ^ 64) (hb : b = a) : x = (b : Int) % 2 ^ 64 := by
  rw [hb, h]

theorem counted_add {x v : Int} {a b : Nat} (h : x = (a : Int) % 2 ^ 64) (hb : (b : Int) = a + v) :
    (x + v) % 2 ^ 64 = (b : Int) % 2 ^ 64 := by
  rw [h, hb, Int.emod_add_emod]

theorem rowsCounted_iff : RowsCounted p ↔
    p.niUsedRow = ((total (·.rows.length) p.stNode.toList + total (·.rows.length) p.pool : Nat) : Int) % 2 ^ 64 ∧
      p.niDirtyRow = ((total (fun n => dirtyRows n.rows) p.stNode.toList + total (fun n => dirtyRows n.rows) p.pool : Nat)
        : Int) % 2 ^ 64 := by
  unfold RowsCounted usedRows totalDirtyRows nodes
  rw [total_append, total_append]

theorem rowsCounted_some (h : p.stNode = some n) : RowsCounted p ↔
    p.niUsedRow = ((n.rows.length + total (·.rows.length) p.pool : Nat) : Int) % 2 ^ 64 ∧
      p.niDirtyRow = ((dirtyRows n.rows + total (fun n => dirtyRows n.rows) p.pool : Nat) : Int) % 2 ^ 64 := by
  rw [rowsCounted_iff, h]
  rfl

theorem rowsCounted_none (h : p.stNode = none) : RowsCounted p ↔
    p.niUsedRow = ((total (·.rows.length) p.pool : Nat) : Int) % 2 ^ 64 ∧
      p.niDirtyRow = ((total (fun n => dirtyRows n.rows) p.pool : Nat) : Int) % 2 ^ 64 := by
  rw [rowsCounted_iff, h]
  simp only [Option.toList_none, total_nil, Nat.zero_add]

theorem rowsCounted_transationUpdateLRU {level : Nat} :
    RowsCounted (p.transationUpdateLRU async level) ↔ RowsCounted p := by
  unfold transationUpdateLRU
  split
  · rfl
  · next n hn =>
    split
    · rfl
    split
    · rw [rowsCounted_some rfl, rowsCounted_some hn]
      rfl
    · rfl

theorem incDirtyRow_transationUpdateLRU {level : Nat} {v : Int} :
    (p.transationUpdateLRU async level).incDirtyRow v = (p.incDirtyRow v).transationUpdateLRU async level := by
  unfold transationUpdateLRU incDirtyRow
  dsimp only
  split
  · rfl
  split
  · rfl
  split <;> rfl

theorem incTotalRow_transationUpdateLRU {level : Nat} {v : Int} :
    (p.transationUpdateLRU async level).incTotalRow v = (p.incTotalRow v).transationUpdateLRU async level := by
  unfold transationUpdateLRU incTotalRow
  dsimp only
  split
  · rfl
  split
  · rfl
  split <;> rfl

theorem setNode_self (hn : p.stNode = some n) : p.setNode n = p := by
  unfold setNode
  rw [← hn]

theorem RowsCounted.updateNode (h : RowsCounted (p.setNode n)) (ok : updateRowsOk t async n = true) :
    RowsCounted (p.updateNode t async setrows n) := by
  obtain ⟨hlen, hdirty, hinc, -⟩ := t.updateData_spec async n.rows
  obtain ⟨hu, hk⟩ := (rowsCounted_some rfl).mp h
  unfold updateRowsOk at ok
  unfold CacheProcess.updateNode
  dsimp only [setNode] at hlen hdirty hinc hu hk ok ⊢
  have hm := dirtyRows_le_length (t.worked (fun r => t.compareRow r.value) n.rows)
  generalize t.updateData async n.rows = d at *
  generalize t.worked (fun r => t.compareRow r.value) n.rows = m at *
  by_cases hok : d.ok = true
  · rw [if_pos hok] at ok ⊢
    rw [incDirtyRow_transationUpdateLRU, rowsCounted_transationUpdateLRU, rowsCounted_some rfl]
    dsimp only [incDirtyRow]
    cases async with
    | true =>
      simp only [if_true] at hdirty hinc
      exact ⟨counted_congr hu (by omega), counted_add hk (by omega)⟩
    | false =>
      simp at ok hdirty hinc
      exact ⟨counted_congr hu (by omega), counted_add hk (by omega)⟩
  · rw [if_neg hok] at ok ⊢
    split at ok
    · next hc =>
      rw [if_pos hc, rowsCounted_none rfl]
      dsimp only [incTotalRow, purgeNodeEverything]
      simp at ok
      exact ⟨counted_add hu (by omega), counted_congr hk (by omega)⟩
    · next hc =>
      rw [if_neg hc, rowsCounted_transationUpdateLRU, rowsCounted_some rfl]
      dsimp only
      cases async with
      | true =>
        simp at ok hdirty
        exact ⟨counted_congr hu (by omega), counted_congr hk (by omega)⟩
      | false =>
        simp at hdirty
        exact ⟨counted_congr hu (by omega), counted_congr hk (by omega)⟩

theorem RowsCounted.cacheReplaceRows (h : RowsCounted p) (hn : p.stNode = some n)
    (ok : p.replaceRowsOk t async n = true) : RowsCounted (p.cacheReplaceRows t async) := by
  obtain ⟨hu, hk⟩ := (rowsCounted_some hn).mp h
  unfold replaceRowsOk at ok
  unfold CacheProcess.cacheReplaceRows
  rw [hn]
  dsimp only at ok ⊢
  have hspec := t.replaceRows_spec p.conf.keyAsUniqField async n.rows
  have hm := dirtyRows_le_length (t.worked (t.conflicts p.conf.keyAsUniqField) n.rows)
  generalize t.replaceRows p.conf.keyAsUniqField async n.rows = d at *
  generalize t.worked (t.conflicts p.conf.keyAsUniqField) n.rows = m at *
  by_cases hok : d.ok = true
  · rw [if_pos hok] at ok ⊢
    rw [Bool.and_eq_true, decide_eq_true_eq] at ok
    obtain ⟨hlen, hdirty, -⟩ := hspec ok.1
    rw [rowsCounted_transationUpdateLRU, rowsCounted_some rfl]
    dsimp only [incDirtyRow, incTotalRow, setNode]
    cases async with
    | true =>
      simp at hdirty
      exact ⟨counted_add hu (by omega), counted_add hk (by omega)⟩
    | false =>
      simp at ok hdirty
      exact ⟨counted_add hu (by omega), counted_add hk (by omega)⟩
  · rw [if_neg hok] at ok ⊢
    split at ok
    · next hc =>
      rw [if_pos hc, rowsCounted_none rfl]
      dsimp only [incTotalRow, purgeNodeEverything, setNode]
      simp at ok
      exact ⟨counted_add hu (by omega), counted_congr hk (by omega)⟩
    · next hc =>
      rw [Bool.and_eq_true, decide_eq_true_eq] at ok
      obtain ⟨hlen, -, hfail⟩ := hspec ok.1
      obtain ⟨hinc, hdirty⟩ := hfail (Bool.eq_false_iff.mpr hok)
      rw [if_neg hc, rowsCounted_some rfl]
      dsimp only [setNode]
      cases async with
      | true =>
        simp at ok hdirty
        exact ⟨counted_congr hu (by omega), counted_congr hk (by omega)⟩
      | false =>
        simp at hdirty
        exact ⟨counted_congr hu (by omega), counted_congr hk (by omega)⟩

theorem RowsCounted.insertNode (h : RowsCounted p) (hn : p.stNode = some n)
    (ok : p.insertRowOk t async setrows n = true) : RowsCounted (p.insertNode t async setrows n) := by
  obtain ⟨hu, hk⟩ := (rowsCounted_some hn).mp h
  unfold insertRowOk at ok
  unfold CacheProcess.insertNode
  cases ha : p.appendData t async setrows n with
  | duplicate => exact h
  | failed rows =>
    rw [ha] at ok
    dsimp only at ok ⊢
    split
    · next hc =>
      rw [if_pos hc, beq_iff_eq] at ok
      rw [rowsCounted_none rfl]
      dsimp only [incTotalRow, purgeNodeEverything]
      exact ⟨counted_add hu (by omega), counted_congr hk (by omega)⟩
    · next hc =>
      rw [if_neg hc, beq_iff_eq] at ok
      rcases t.appendData_failed ha with rfl | ⟨-, rfl⟩
      · rw [setNode_self hn]
        exact h
      · simp at ok
  | done d =>
    obtain ⟨hlen, hdirty, hinc, hdinc⟩ := t.appendData_spec ha
    dsimp only
    cases async with
    | true =>
      rw [if_pos rfl, incTotalRow_transationUpdateLRU, incDirtyRow_transationUpdateLRU, rowsCounted_transationUpdateLRU,
        rowsCounted_some rfl]
      dsimp only [incDirtyRow, incTotalRow, setNode]
      simp only [Bool.toNat_true] at hdirty hdinc
      exact ⟨counted_add hu (by omega), counted_add hk (by omega)⟩
    | false =>
      rw [if_neg (by decide), incTotalRow_transationUpdateLRU, rowsCounted_transationUpdateLRU, rowsCounted_some rfl]
      dsimp only [incTotalRow, setNode]
      simp only [Bool.toNat_false] at hdirty
      exact ⟨counted_add hu (by omega), counted_congr hk (by omega)⟩

theorem RowsCounted.insertEmptyNode (h : RowsCounted p) (hn : p.stNode = none) : RowsCounted (p.insertEmptyNode t) := by
  rw [rowsCounted_none hn] at h
  rw [rowsCounted_some rfl]
  simpa [CacheProcess.insertEmptyNode, setNode, emptyNode] using h

theorem insertRowOk_emptyNode : (p.insertEmptyNode t).insertRowOk t async setrows (p.emptyNode t) = true := by
  unfold insertRowOk
  split
  · next rows ha =>
    have hrows : rows = (p.emptyNode t).rows := (t.appendData_failed ha).resolve_right (fun h => h.1 rfl)
    split
    · rfl
    · simp [hrows]
  · rfl

theorem RowsCounted.cacheInsertRow (h : RowsCounted p) (ok : p.stNode.all (p.insertRowOk t async setrows) = true) :
    RowsCounted (p.cacheInsertRow t async setrows) := by
  unfold CacheProcess.cacheInsertRow
  cases hn : p.stNode with
  | some n =>
    rw [hn] at ok
    exact h.insertNode hn ok
  | none =>
    dsimp only
    split
    · split
      · exact (rowsCounted_none rfl).mpr ((rowsCounted_none hn).mp h)
      · exact (h.insertEmptyNode hn).insertNode rfl insertRowOk_emptyNode
    · exact h

theorem RowsCounted.deleteNode {k : Int} (hu : p.niUsedRow = ((n.rows.length + total (·.rows.length) p.pool : Nat) : Int) %
    2 ^ 64) (hk : (p.niDirtyRow + k) % 2 ^ 64 = ((total (fun n => dirtyRows n.rows) p.pool : Nat) : Int) % 2 ^ 64) :
    RowsCounted (p.deleteNode n.rows.length k) := by
  unfold CacheProcess.deleteNode
  rw [rowsCounted_none rfl]
  split <;>
  · dsimp only [purgeNodeEverything, incDirtyRow, incDirtyNode, incTotalRow]
    exact ⟨counted_add hu (by omega), hk⟩

theorem RowsCounted.cacheDeleteRows (h : RowsCounted p) (hn : p.stNode = some n) (ok : p.deleteRowsOk t n = true) :
    RowsCounted (p.cacheDeleteRows t) := by
  obtain ⟨hu, hk⟩ := (rowsCounted_some hn).mp h
  unfold deleteRowsOk at ok
  unfold CacheProcess.cacheDeleteRows
  rw [hn]
  dsimp only
  obtain ⟨hlen, hdirty, hinc, hdinc⟩ := t.deleteData_spec n.rows
  generalize t.deleteData n.rows = d at *
  generalize t.worked (fun r => t.compareRow r.value) n.rows = m at *
  split at ok
  · next hall =>
    rw [if_pos hall]
    have h0 : dirtyRows n.rows = 0 := by simpa using ok
    have hin : dirtyRowsInNode t n = 0 := by
      unfold dirtyRowsInNode
      split
      · rfl
      · exact h0
    refine RowsCounted.deleteNode hu ?_
    rw [hin]
    exact counted_add hk (by omega)
  · next hall =>
    rw [if_neg hall]
    split at ok
    · next hok =>
      rw [if_pos hok]
      split
      · next hempty =>
        have h0 : dirtyRows d.rows = 0 := by rw [List.isEmpty_iff.mp hempty]; rfl
        refine RowsCounted.deleteNode hu ?_
        dsimp only [setNode]
        exact counted_add hk (by omega)
      · rw [rowsCounted_transationUpdateLRU, rowsCounted_some rfl]
        dsimp only [incDirtyRow, incTotalRow, setNode]
        exact ⟨counted_add hu (by omega), counted_add hk (by omega)⟩
    · next hok =>
      rw [if_neg hok]
      split at ok
      · next hd =>
        obtain rfl := List.isEmpty_iff.mp ok
        rw [if_pos hd, rowsCounted_some rfl]
        simp at hlen hdirty
        dsimp only [setNode]
        exact ⟨counted_congr hu (by omega), counted_congr hk (by omega)⟩
      · next hd =>
        rw [if_neg hd, rowsCounted_none rfl]
        dsimp only [incTotalRow, purgeNodeEverything, setNode]
        simp at ok
        exact ⟨counted_add hu (by omega), counted_congr hk (by omega)⟩

theorem RowsCounted.cacheUpdateRows (h : RowsCounted p) (hdef : p.storesDefaultRow t = false)
    (ok : p.stNode.all (fun n => p.conf.replaceEmpty && n.rows.isEmpty || updateRowsOk t async n) = true) :
    RowsCounted (p.cacheUpdateRows t async setrows) := by
  unfold CacheProcess.cacheUpdateRows CacheProcess.insertDefaultRow
  unfold storesDefaultRow at hdef
  cases hn : p.stNode with
  | none =>
    rw [hn] at hdef
    cases he : p.conf.replaceEmpty with
    | false => exact h
    | true =>
      rw [if_pos rfl]
      dsimp only
      by_cases ha : t.allocates = true
      · have hc : t.chunkFails = true := by simpa [he, ha] using hdef
        rw [if_pos ha, if_pos hc]
        exact (rowsCounted_none rfl).mpr ((rowsCounted_none hn).mp h)
      · rw [if_neg ha]
        exact h
  | some n =>
    rw [hn] at ok hdef
    have hcount := (rowsCounted_some hn).mp h
    by_cases hrow : (p.conf.replaceEmpty && n.rows.isEmpty) = true
    · -- no chunk for the default row: the node, which has no rows, is purged
      obtain ⟨he, hr⟩ := Bool.and_eq_true_iff.mp hrow
      have hc : t.chunkFails = true := by simpa [he, hr] using hdef
      rw [if_pos he]
      dsimp only
      rw [if_pos hr, if_pos hc, rowsCounted_none rfl]
      rw [List.isEmpty_iff] at hr
      simpa [hr, purgeNodeEverything] using hcount
    · have hup : updateRowsOk t async n = true := by
        simp only [Option.all_some, Bool.or_eq_true] at ok
        exact ok.resolve_left hrow
      have hgoal : RowsCounted (p.updateNode t async setrows n) :=
        ((setNode_self hn).symm ▸ h : RowsCounted (p.setNode n)).updateNode hup
      cases he : p.conf.replaceEmpty with
      | false => exact hgoal
      | true =>
        rw [if_pos rfl]
        dsimp only
        rw [if_neg (by simpa [he] using hrow)]
        exact hgoal

theorem affected_eq_zero (ok : dirtyRows (t.worked (fun _ => true) n.rows) = 0) : (t.flushData n).affected = 0 := by
  obtain ⟨-, -, -, h, -⟩ := t.flushData_spec n
  rw [ok] at h
  exact Nat.le_zero.mp h

theorem RowsCounted.clrDirty (h : RowsCounted (p.setNode n)) : RowsCounted (p.clrDirty n) := by
  have hcount := (rowsCounted_some rfl).mp h
  unfold CacheProcess.clrDirty
  split <;>
  · rw [rowsCounted_some rfl]
    exact hcount

theorem RowsCounted.flushed (h : RowsCounted (p.setNode n)) :
    RowsCounted ((p.incDirtyRow (t.flushData n).dirtyRowsInc).setNode { n with rows := (t.flushData n).rows }) := by
  obtain ⟨hu, hk⟩ := (rowsCounted_some rfl).mp h
  obtain ⟨h1, h2, -⟩ := t.flushData_spec n
  rw [rowsCounted_some rfl]
  dsimp only [setNode, incDirtyRow] at hu hk h1 h2 ⊢
  exact ⟨counted_congr hu (by omega), counted_add hk (by omega)⟩

theorem RowsCounted.flushedNothing (h : RowsCounted (p.setNode n)) (h0 : (t.flushData n).affected = 0) :
    RowsCounted (p.setNode { n with rows := (t.flushData n).rows }) := by
  obtain ⟨hu, hk⟩ := (rowsCounted_some rfl).mp h
  obtain ⟨h1, h2, h3, -⟩ := t.flushData_spec n
  rw [rowsCounted_some rfl]
  dsimp only [setNode] at hu hk h1 h2 h3 ⊢
  exact ⟨counted_congr hu (by omega), counted_congr hk (by omega)⟩

theorem RowsCounted.cacheFlushData (h : RowsCounted p) (ok : p.conf.nodbMode = true ∨ p.stNode.all (flushRowsOk t) = true) :
    RowsCounted (p.cacheFlushData t).1 := by
  unfold CacheProcess.cacheFlushData
  cases hn : p.stNode with
  | none => exact h
  | some n =>
    have hp : RowsCounted ({ p with keyDirty := n.dirty }.setNode n) := (rowsCounted_some rfl).mpr ((rowsCounted_some hn).mp h)
    dsimp only
    split
    · next hc =>
      obtain ⟨hbad, hdb⟩ := Bool.and_eq_true_iff.mp hc
      have hzero : dirtyRows (t.worked (fun _ => true) n.rows) = 0 := by
        rw [hn] at ok
        unfold flushRowsOk at ok
        simp_all
      exact hp.flushedNothing (affected_eq_zero hzero)
    · exact rowsCounted_transationUpdateLRU.mpr
        ((rowsCounted_some rfl).mpr ((rowsCounted_some rfl).mp (RowsCounted.clrDirty (hp.flushed (t := t)))))

theorem RowsCounted.cacheFlushDataBeforeDelete (h : RowsCounted p) (ok : p.stNode.all (flushRowsOk t) = true) :
    RowsCounted (p.cacheFlushDataBeforeDelete t) := by
  unfold CacheProcess.cacheFlushDataBeforeDelete
  cases hn : p.stNode with
  | none => exact h
  | some n =>
    have hp : RowsCounted (p.setNode n) := setNode_self hn ▸ h
    rw [hn] at ok
    dsimp only
    split
    · apply RowsCounted.clrDirty
      split
      · next hzero => exact (rowsCounted_some rfl).mpr ((rowsCounted_some rfl).mp (hp.flushedNothing hzero))
      · exact (rowsCounted_some rfl).mpr ((rowsCounted_some rfl).mp (hp.flushed (t := t)))
    · next hbad =>
      refine hp.flushedNothing (affected_eq_zero ?_)
      unfold flushRowsOk at ok
      simpa [hbad] using ok

theorem RowsCounted.release (h : RowsCounted p) : RowsCounted p.release := (rowsCounted_none rfl).mpr h

theorem RowsCounted.transationBegin (h : RowsCounted p) : RowsCounted p.transationBegin := (rowsCounted_none rfl).mpr h

theorem RowsCounted.transationEnd (h : RowsCounted p) : RowsCounted p.transationEnd := by
  unfold CacheProcess.transationEnd
  split
  · exact h.release
  · next n hn =>
    split
    · exact (rowsCounted_none rfl).mpr ((rowsCounted_some hn).mp h)
    · exact h.release

theorem RowsCounted.purgeClean {i : Nat} (h : RowsCounted p)
    (ok : (p.pool[i]?).all (fun n => decide (n.lru ≠ .clean) || dirtyRows n.rows == 0) = true) :
    RowsCounted (p.purgeClean i) := by
  unfold CacheProcess.purgeClean
  split
  · exact h
  · next n hi =>
    split
    · next hl =>
      have h0 : dirtyRows n.rows = 0 := by simpa [hi, hl] using ok
      obtain ⟨hu, hk⟩ := rowsCounted_iff.mp h
      rw [total_eraseIdx hi] at hu hk
      rw [rowsCounted_iff]
      dsimp only [incTotalRow]
      exact ⟨counted_add hu (by omega), counted_congr hk (by omega)⟩
    · exact h

theorem RowsCounted.purgeSingleEmptyNode {i : Nat} (h : RowsCounted p)
    (ok : (p.pool[i]?).all (fun n => decide (n.lru ≠ .empty) || n.rows.isEmpty) = true) :
    RowsCounted (p.purgeSingleEmptyNode i) := by
  unfold CacheProcess.purgeSingleEmptyNode
  split
  · exact h
  · next n hi =>
    split
    · next hl =>
      have h0 : n.rows = [] := by simpa [hi, hl] using ok
      obtain ⟨hu, hk⟩ := rowsCounted_iff.mp h
      rw [total_eraseIdx hi, h0] at hu hk
      rw [List.length_nil, Nat.zero_add] at hu
      rw [dirtyRows_nil, Nat.zero_add] at hk
      exact rowsCounted_iff.mpr ⟨hu, hk⟩
    · exact h

/-- **What the flush timer does**: nothing, or the node at its place has the rows that are left, and if the flush ended
well it is not dirty and on the clean list. -/
theorem cacheFlushDataTimer_cases (p : CacheProcess κ ρ) (t : CacheTask κ ρ) (i : Nat) :
    p.cacheFlushDataTimer t i = p.transationBegin ∨
      ∃ n m, p.transationBegin.pool[i]? = some n ∧ m.rows = (t.flushData n).rows ∧
      (p.cacheFlushDataTimer t i).pool = p.transationBegin.pool.set i m ∧ (p.cacheFlushDataTimer t i).stNode = none ∧
      (p.cacheFlushDataTimer t i).niUsedRow = p.niUsedRow ∧
      ((p.cacheFlushDataTimer t i).niDirtyRow = (p.niDirtyRow + (t.flushData n).dirtyRowsInc) % 2 ^ 64 ∨
        (p.cacheFlushDataTimer t i).niDirtyRow = p.niDirtyRow ∧ (t.flushData n).affected = 0) ∧
      ((t.flushData n).ok = true ∧ m.dirty = false ∧
          (p.cacheFlushDataTimer t i).niDirtyNode = (if n.dirty then (p.niDirtyNode + -1) % 2 ^ 32 else p.niDirtyNode) ∨
        (p.cacheFlushDataTimer t i).niDirtyNode = p.niDirtyNode ∧ m.dirty = n.dirty ∧ m.lru = n.lru) := by
  unfold CacheProcess.cacheFlushDataTimer
  dsimp only
  split
  · exact .inl rfl
  · next n hi =>
    split
    · right
      -- the counter of the rows that were flushed
      generalize hq : (if (t.flushData n).affected = 0 then p.transationBegin
        else p.transationBegin.incDirtyRow (t.flushData n).dirtyRowsInc) = q
      obtain ⟨hu, hk, hd, hst, hpool⟩ : q.niUsedRow = p.niUsedRow ∧
          (q.niDirtyRow = (p.niDirtyRow + (t.flushData n).dirtyRowsInc) % 2 ^ 64 ∨
            q.niDirtyRow = p.niDirtyRow ∧ (t.flushData n).affected = 0) ∧ q.niDirtyNode = p.niDirtyNode ∧ q.stNode = none ∧
              q.pool = p.transationBegin.pool := by
        subst hq
        split
        · next h0 => exact ⟨rfl, .inr ⟨rfl, h0⟩, rfl, rfl, rfl⟩
        · exact ⟨rfl, .inl rfl, rfl, rfl, rfl⟩
      rw [hpool, ← hd]
      split
      · next hok =>
        refine ⟨n, { n with rows := (t.flushData n).rows, dirty := false, lru := .clean }, hi, rfl, rfl, ?_, ?_, ?_,
          .inl ⟨hok, rfl, ?_⟩⟩
        · split <;> exact hst
        · split <;> exact hu
        · split <;> exact hk
        · split <;> rfl
      · exact ⟨n, { n with rows := (t.flushData n).rows }, hi, rfl, rfl, hst, hu, hk, .inr ⟨rfl, rfl, rfl⟩⟩
    · exact .inl rfl

theorem cacheFlushDataTimer_pool (p : CacheProcess κ ρ) (t : CacheTask κ ρ) (i : Nat) :
    p.cacheFlushDataTimer t i = p.transationBegin ∨
      ∃ n m, p.transationBegin.pool[i]? = some n ∧ n.lru = .dirty ∧ m.lru ≠ .empty ∧ (m.key = n.key ∧ m.newhash = n.newhash) ∧
        m.rows = (t.flushData n).rows ∧ (p.cacheFlushDataTimer t i).conf = p.conf ∧
        (p.cacheFlushDataTimer t i).stNode = none ∧
        (p.cacheFlushDataTimer t i).pool = p.transationBegin.pool.set i m := by
  unfold CacheProcess.cacheFlushDataTimer
  dsimp only
  split
  · exact .inl rfl
  · next n hi =>
    split
    · next hl =>
      right
      generalize hq : (if (t.flushData n).affected = 0 then p.transationBegin
        else p.transationBegin.incDirtyRow (t.flushData n).dirtyRowsInc) = q
      obtain ⟨hqc, hqs, hqp⟩ : q.conf = p.conf ∧ q.stNode = none ∧ q.pool = p.transationBegin.pool := by
        subst hq
        split <;> exact ⟨rfl, rfl, rfl⟩
      rw [hqp]
      split
      · refine ⟨n, { n with rows := (t.flushData n).rows, dirty := false, lru := .clean }, hi, hl, nofun, ⟨rfl, rfl⟩, rfl, ?_, ?_, rfl⟩
        · split <;> exact hqc
        · split <;> exact hqs
      · exact ⟨n, { n with rows := (t.flushData n).rows }, hi, hl, hl ▸ by decide, ⟨rfl, rfl⟩, rfl, hqc, hqs, rfl⟩
    · exact .inl rfl

theorem RowsCounted.cacheFlushDataTimer {i : Nat} (h : RowsCounted p) : RowsCounted (p.cacheFlushDataTimer t i) := by
  have hb := (rowsCounted_none rfl).mp h.transationBegin
  have hbu : p.transationBegin.niUsedRow = p.niUsedRow := rfl
  have hbk : p.transationBegin.niDirtyRow = p.niDirtyRow := rfl
  rcases p.cacheFlushDataTimer_cases t i with heq | ⟨n, m, hi, hm, hpool, hst, hu, hk, -⟩
  · rw [heq]
    exact h.transationBegin
  · obtain ⟨hlen, hdirty, hinc, -⟩ := t.flushData_spec n
    have h1 := total_set (w := (·.rows.length)) m hi
    have h2 := total_set (w := fun n => dirtyRows n.rows) m hi
    rw [hm] at h1 h2
    rw [rowsCounted_none hst, hpool, hu]
    refine ⟨counted_congr hb.1 (by omega), ?_⟩
    rcases hk with hk | ⟨hk, h0⟩
    · rw [hk]
      exact counted_add hb.2 (by omega)
    · rw [hk]
      exact counted_congr hb.2 (by omega)

theorem takeOut_perm [DecidableEq κ] {key : κ} {newhash : Bool} : ∀ {nodes : List (CacheNode κ ρ)}
    {r : CacheNode κ ρ × List (CacheNode κ ρ)}, takeOut key newhash nodes = some r → nodes.Perm (r.1 :: r.2)
  | [], _, h => by cases h
  | m :: nodes, r, h => by
    unfold takeOut at h
    split at h
    · obtain rfl := Option.some.inj h
      exact List.Perm.refl _
    · obtain ⟨r', hr', rfl⟩ := Option.map_eq_some_iff.mp h
      exact ((takeOut_perm hr').cons m).trans (List.Perm.swap _ _ _)

variable [DecidableEq κ]

theorem findNode_total {w : CacheNode κ ρ → Nat} (hw : ∀ n b, w { n with newhash := b } = w n) {key : κ}
    {rest : List (CacheNode κ ρ)} (h : p.findNode key = some (n, rest)) : total w p.nodes = w n + total w rest := by
  unfold findNode at h
  dsimp only at h
  split at h
  · split at h
    · next r hr =>
      obtain ⟨rfl, rfl⟩ := Prod.mk.inj (Option.some.inj h)
      rw [hw]
      exact total_perm (takeOut_perm hr)
    · exact total_perm (takeOut_perm h)
  · exact total_perm (takeOut_perm h)

theorem RowsCounted.found {key : κ} {rest : List (CacheNode κ ρ)} (h : RowsCounted p)
    (hf : p.findNode key = some (n, rest)) :
    p.niUsedRow = ((n.rows.length + total (·.rows.length) rest : Nat) : Int) % 2 ^ 64 ∧
      p.niDirtyRow = ((dirtyRows n.rows + total (fun n => dirtyRows n.rows) rest : Nat) : Int) % 2 ^ 64 := by
  obtain ⟨hu, hk⟩ := h
  unfold usedRows at hu
  unfold totalDirtyRows at hk
  rw [findNode_total (fun _ _ => rfl) hf] at hu hk
  exact ⟨hu, hk⟩

theorem RowsCounted.find {key : κ} {isset : Bool} (h : RowsCounted p) : RowsCounted (p.transationFindNode key isset) := by
  unfold transationFindNode
  split
  · exact h.release
  split
  · exact h.release
  · next n rest hf => exact (rowsCounted_some rfl).mpr (h.found hf)

theorem RowsCounted.cachePurge {key : κ} (h : RowsCounted p) (ok : uncountedOk (p.purgedNode key) = true) :
    RowsCounted (p.cachePurge key) := by
  unfold purgedNode uncountedOk at ok
  unfold CacheProcess.cachePurge
  split at ok
  · next hst =>
    rw [if_pos hst]
    cases hn : p.stNode with
    | none => exact (rowsCounted_none rfl).mpr ((rowsCounted_none hn).mp h)
    | some n =>
      rw [hn] at ok
      have hrows : n.rows = [] := List.isEmpty_iff.mp ok
      have hcount := (rowsCounted_some hn).mp h
      rw [hrows, dirtyRows_nil, List.length_nil, Nat.zero_add, Nat.zero_add] at hcount
      exact (rowsCounted_none rfl).mpr hcount
  · next hst =>
    rw [if_neg hst]
    split
    · exact h
    · next n rest hf =>
      rw [hf] at ok
      have hrows : n.rows = [] := List.isEmpty_iff.mp ok
      rw [rowsCounted_iff, total_perm (takeOut_perm hf), total_perm (takeOut_perm hf), total_cons, total_cons, hrows,
        dirtyRows_nil, List.length_nil, Nat.zero_add, Nat.zero_add] at h
      exact rowsCounted_iff.mpr h

theorem RowsCounted.purgeFound {key : κ} (h : RowsCounted p) (hn : p.stNode = some n) (h0 : dirtyRows n.rows = 0)
    (hst : p.purgesStNode key = true) : RowsCounted ((p.incTotalRow (0 - n.rows.length)).cachePurge key) := by
  obtain ⟨hu, hk⟩ := (rowsCounted_some hn).mp h
  have hst' : (p.incTotalRow (0 - n.rows.length)).purgesStNode key = true := hst
  unfold CacheProcess.cachePurge
  rw [if_pos hst', rowsCounted_none rfl]
  dsimp only [incTotalRow, purgeNodeEverything]
  exact ⟨counted_add hu (by omega), counted_congr hk (by omega)⟩

omit [DecidableEq κ] in
theorem cacheFlushData_pending (hn : p.stNode = some n) (hd : n.dirty = true) (h : (p.cacheFlushData t).2 = .pending) :
    (p.cacheFlushData t).1.stNode = some { n with rows := (t.flushData n).rows, dirty := false } ∧
      (p.cacheFlushData t).1.pool = p.pool ∧ (p.cacheFlushData t).1.conf = p.conf ∧ (t.flushData n).ok = true := by
  unfold CacheProcess.cacheFlushData at h ⊢
  rw [hn] at h ⊢
  dsimp only at h ⊢
  split at h
  · cases h
  · next hc =>
    have hdb : p.conf.nodbMode = false := by
      by_contra hdb
      rw [if_pos (if_pos (Bool.eq_true_of_not_eq_false hdb))] at h
      cases h
    have hok : (t.flushData n).ok = true := by simpa [hdb] using hc
    rw [if_neg hc]
    unfold clrDirty transationUpdateLRU
    rw [hd]
    exact ⟨rfl, rfl, rfl, hok⟩

theorem RowsCounted.cachePurgeData (h : RowsCounted p) (ok : p.stNode.all (p.purgeDataOk t) = true) :
    RowsCounted (p.cachePurgeData t) := by
  unfold CacheProcess.cachePurgeData
  cases hn : p.stNode with
  | none => exact h
  | some n =>
    rw [hn] at ok
    have ok : p.purgeDataOk t n = true := ok
    unfold purgeDataOk at ok
    dsimp only
    split at ok
    · next hc =>
      rw [if_pos hc]
      obtain ⟨hflush, hpurge⟩ := Bool.and_eq_true_iff.mp ok
      have hr : RowsCounted (p.cacheFlushData t).1 := by
        refine h.cacheFlushData ?_
        rw [hn]
        exact Bool.or_eq_true_iff.mp hflush
      split
      · next hp =>
        obtain ⟨hst, hpool, hconf, hok⟩ := cacheFlushData_pending hn hc.2 hp
        obtain ⟨hlen, -, -, -, hzero⟩ := t.flushData_spec n
        have hpst : (p.cacheFlushData t).1.purgesStNode (p.key t) = true := by
          have hsame : (p.cacheFlushData t).1.purgesStNode (p.key t) = p.purgesStNode (p.key t) := by
            unfold purgesStNode purgeHash holds
            rw [hst, hpool, hconf, hn]
          rw [hsame]
          simpa [hp] using hpurge
        have hgoal := hr.purgeFound hst (hzero hc.2 hok) hpst
        rwa [hlen] at hgoal
      · exact hr
    · next hc =>
      rw [if_neg hc]
      obtain ⟨hst, hzero⟩ := Bool.and_eq_true_iff.mp ok
      exact h.purgeFound hn (by simpa using hzero) hst

omit [DecidableEq κ] in
theorem RowsCounted.replaceNode {oldRows : Nat} (h : RowsCounted (p.setNode n))
    (ok : if t.chunkFails = true then n.rows = [] ∧ oldRows = 0 else dirtyRows n.rows = 0) :
    RowsCounted (p.replaceNode t n oldRows) := by
  obtain ⟨hu, hk⟩ := (rowsCounted_some rfl).mp h
  unfold CacheProcess.replaceNode
  dsimp only [setNode] at hu hk ⊢
  split at ok
  · next hc =>
    obtain ⟨hrows, rfl⟩ := ok
    rw [if_pos hc, rowsCounted_none rfl]
    rw [hrows, List.length_nil] at hu
    rw [hrows, dirtyRows_nil] at hk
    dsimp only [incDirtyRow, purgeNodeEverything]
    exact ⟨counted_congr hu (by omega), counted_add hk (by omega)⟩
  · next hc =>
    rw [if_neg hc, rowsCounted_transationUpdateLRU, rowsCounted_some rfl]
    rw [dirtyRows_result, List.length_map]
    dsimp only [incTotalRow]
    exact ⟨counted_add hu (by omega), counted_congr hk (by omega)⟩

theorem RowsCounted.cacheReplaceResult (h : RowsCounted p) (ok : p.replaceResultOk t = true) :
    RowsCounted (p.cacheReplaceResult t) := by
  unfold CacheProcess.cacheReplaceResult
  unfold replaceResultOk at ok
  split at ok
  · next hc =>
    rw [if_pos hc]
    exact h.cachePurge ok
  · next hc =>
    rw [if_neg hc]
    cases hn : p.stNode with
    | some n =>
      rw [hn] at ok
      refine RowsCounted.replaceNode ((setNode_self hn).symm ▸ h) ?_
      split
      · next hf =>
        rw [if_pos hf] at ok
        have hrows : n.rows = [] := List.isEmpty_iff.mp ok
        exact ⟨hrows, by rw [hrows]; rfl⟩
      · next hf =>
        rw [if_neg hf] at ok
        simpa using ok
    | none =>
      dsimp only
      split
      · refine RowsCounted.replaceNode (n := p.emptyNode t) (h.insertEmptyNode hn) ?_
        split
        · exact ⟨rfl, rfl⟩
        · rfl
      · exact h

theorem RowsCounted.perform {w : CacheWork} (h : RowsCounted p) (ok : p.workRowsOk t w = true) :
    RowsCounted (p.perform t w) := by
  cases w with
  | none => exact h
  | getData => exact rowsCounted_transationUpdateLRU.mpr h
  | replaceResult => exact h.cacheReplaceResult ok
  | insertRow async setrows => exact h.cacheInsertRow ok
  | updateRows async setrows =>
    obtain ⟨hdef, hrows⟩ := Bool.and_eq_true_iff.mp ok
    exact h.cacheUpdateRows (Bool.not_eq_true' _ ▸ hdef) hrows
  | replaceRows async =>
    cases hn : p.stNode with
    | none =>
      unfold CacheProcess.perform CacheProcess.cacheReplaceRows
      rw [hn]
      exact h
    | some n =>
      unfold workRowsOk at ok
      rw [hn] at ok
      exact h.cacheReplaceRows hn ok
  | deleteRows =>
    cases hn : p.stNode with
    | none =>
      unfold CacheProcess.perform CacheProcess.cacheDeleteRows
      rw [hn]
      exact h
    | some n =>
      unfold workRowsOk at ok
      rw [hn] at ok
      exact h.cacheDeleteRows hn ok
  | purgeData => exact h.cachePurgeData ok
  | flushData => exact h.cacheFlushData (Bool.or_eq_true_iff.mp ok)
  | flushBeforeDelete => exact h.cacheFlushDataBeforeDelete ok

theorem RowsCounted.decided {r : CacheProcess κ ρ × CacheWork} (h : RowsCounted p) (hd : Decided p r) : RowsCounted r.1 := by
  rcases hd with rfl | ⟨key, isset, hr⟩
  · exact h
  · rw [hr]
    exact h.find

theorem RowsCounted.touchNode {key : κ} (h : RowsCounted p) : RowsCounted (p.touchNode key) := by
  unfold CacheProcess.touchNode
  split
  · exact h.release
  · next n rest hf => exact (rowsCounted_none rfl).mpr (h.found hf)

theorem RowsCounted.cacheAdjustLru {key : κ} (h : RowsCounted p) : RowsCounted (p.cacheAdjustLru key) := by
  unfold CacheProcess.cacheAdjustLru
  split
  · exact h.release
  · next n rest hf => exact (rowsCounted_none rfl).mpr (h.found (n := n) hf)

theorem RowsCounted.cacheMigrated {key : κ} (h : RowsCounted p)
    (ok : uncountedOk ((p.findNode key).map (·.1)) = true) : RowsCounted (p.cacheMigrated key) := by
  unfold CacheProcess.cacheMigrated
  split
  · exact h.release
  · next n rest hf =>
    rw [hf] at ok
    have h0 : n.rows = [] := List.isEmpty_iff.mp ok
    obtain ⟨hu, hk⟩ := h.found hf
    rw [h0, List.length_nil, Nat.zero_add] at hu
    rw [h0, dirtyRows_nil, Nat.zero_add] at hk
    exact (rowsCounted_none rfl).mpr ⟨hu, hk⟩

theorem RowsCounted.replaceRawNode {key : κ} {rows : List (CacheRow ρ)} {lru : LruList} {allocates chunkFails : Bool}
    (h : RowsCounted p) (ok : (match p.findNode key with
      | some (n, _) => if chunkFails then p.conf.nodbMode || n.rows.isEmpty else dirtyRows n.rows == dirtyRows rows
      | none => !allocates || chunkFails || dirtyRows rows == 0) = true) :
    RowsCounted (p.replaceRawNode key rows lru allocates chunkFails) := by
  unfold CacheProcess.replaceRawNode
  split
  · next n rest hf =>
    rw [hf] at ok
    obtain ⟨hu, hk⟩ := h.found hf
    dsimp only at ok ⊢
    split
    · next hc =>
      rw [if_pos hc] at ok
      split
      · exact (rowsCounted_none rfl).mpr ⟨hu, hk⟩
      · next hdb =>
        have h0 : n.rows = [] := by simpa [hdb] using ok
        rw [h0, List.length_nil, Nat.zero_add] at hu
        rw [h0, dirtyRows_nil, Nat.zero_add] at hk
        exact (rowsCounted_none rfl).mpr ⟨hu, hk⟩
    · next hc =>
      rw [if_neg hc, beq_iff_eq] at ok
      rw [rowsCounted_none rfl]
      dsimp only [incTotalRow]
      rw [total_cons, total_cons]
      dsimp only
      exact ⟨counted_add hu (by omega), counted_congr hk (by omega)⟩
  · next hf =>
    rw [hf] at ok
    dsimp only at ok ⊢
    have hr := (rowsCounted_none rfl).mp h.release
    split
    · next ha =>
      split
      · split
        · rw [rowsCounted_none rfl, total_cons, total_cons]
          simpa using hr
        · exact h.release
      · next hc =>
        have h0 : dirtyRows rows = 0 := by simpa [ha, hc] using ok
        rw [rowsCounted_none rfl]
        dsimp only [incTotalRow]
        rw [total_cons, total_cons]
        dsimp only
        exact ⟨counted_add hr.1 (by omega), counted_congr hr.2 (by omega)⟩
    · exact h.release

theorem RowsCounted.cacheStep {a : CacheAction κ ρ} (h : RowsCounted p) (ok : p.stepRowsOk a = true) :
    RowsCounted (p.cacheStep a) := by
  cases a with
  | begin => exact h.transationBegin
  | finish => exact h.transationEnd
  | request t => exact (h.decided handled_handles.decided).perform ok
  | reply t => exact (h.decided handled_reply.decided).perform ok
  | error t code => exact (h.decided handled_error.decided).perform ok
  | batchGet t => exact rowsCounted_transationUpdateLRU.mpr h.find
  | purgeClean i => exact h.purgeClean ok
  | purgeEmpty i => exact h.purgeSingleEmptyNode ok
  | flushTimer i t => exact h.cacheFlushDataTimer
  | purgeKey key => exact h.release.cachePurge ok
  | replaceRaw key rows allocates chunkFails => exact h.replaceRawNode ok
  | migrate key rows dirty allocates chunkFails => exact h.replaceRawNode ok
  | migrated key => exact h.cacheMigrated ok
  | touch key => exact h.touchNode
  | adjustLru key => exact h.cacheAdjustLru
  | configure hash => exact h

end Rows
end CacheProcess

open CacheProcess

/-- **The row counters are right after every run whose steps keep them**, whatever fails on the way. -/
theorem cacheMachine_countsRows {κ ρ : Type} [DecidableEq κ] {p : CacheProcess κ ρ}
    (h : (cacheMachine κ ρ).ReachableMeeting (fun p a => p.stepRowsOk a = true) p) : RowsCounted p := by
  refine Machine.reachableMeeting_induct (cacheMachine κ ρ) ?_ ?_ h
  · rintro p ⟨conf, rfl⟩
    exact ⟨rfl, rfl⟩
  · intro p a p' hp hok hst
    obtain rfl := Option.some.inj hst
    exact hp.cacheStep hok

def numberTask (cmd : CacheCmd) : CacheTask Nat Nat := { cmd := cmd, key := 1, defaultRow := 0, newRow := 5 }

def asyncConf : CacheConf := { updateMode := .async, insertMode := .async }

def mixedRun : List (CacheAction Nat Nat) :=
  [.begin, .request (numberTask .get), .finish,
    .begin, .reply { numberTask .get with result := [3, 4] }, .finish,
    .begin, .request { numberTask .delete with compareRow := (· == 4) }, .finish,
    .begin, .reply { numberTask .delete with compareRow := (· == 4) }, .finish,
    .begin, .request { numberTask .update with updateRow := (· + 6) }, .finish,
    .begin, .request (numberTask .insert), .finish]

theorem cacheMachine_countsRows_mixedRun : ∃ p, (cacheMachine Nat Nat).run { conf := asyncConf } mixedRun = some p ∧
    p.niUsedRow = 2 ∧ p.niDirtyRow = 2 ∧ RowsCounted p := by
  have hrun : ((cacheMachine Nat Nat).run { conf := asyncConf } mixedRun).map
      (fun p => (p.niUsedRow, p.niDirtyRow)) = some (2, 2) := by decide
  obtain ⟨p, hp, hcount⟩ := Option.map_eq_some_iff.mp hrun
  obtain ⟨hu, hd⟩ := Prod.mk.inj hcount
  have hmeets : (cacheMachine Nat Nat).RunMeets (fun p a => p.stepRowsOk a = true) { conf := asyncConf }
      mixedRun := by decide
  exact ⟨p, hp, hu, hd, cacheMachine_countsRows ⟨_, _, ⟨_, rfl⟩, hmeets, hp⟩⟩

/-- An update of a key without rows, where such a key counts as one with the default row: the row is not counted. -/
theorem cacheMachine_defaultRow : ∃ p, (cacheMachine Nat Nat).Reachable p ∧ p.usedRows = 1 ∧ p.niUsedRow = 0 := by
  have hrun : ((cacheMachine Nat Nat).run { conf := { asyncConf with replaceEmpty := true } }
      [.begin, .request (numberTask .get), .finish, .begin, .reply (numberTask .get), .finish,
        .begin, .request (numberTask .update), .finish]).map (fun p => (p.usedRows, p.niUsedRow)) = some (1, 0) := by
    decide
  obtain ⟨p, hp, hcount⟩ := Option.map_eq_some_iff.mp hrun
  obtain ⟨hr, hu⟩ := Prod.mk.inj hcount
  exact ⟨p, ⟨_, _, ⟨_, rfl⟩, hp⟩, hr, hu⟩

end Dtc
