import DtcServer.CacheNodesRun
/-!
# CacheDirtyRun — where the dirty rows are

A row that the database does not have yet is safe from the purge loops if its node is marked dirty and on the dirty LRU
list: they look for nodes on the two other lists.  The flags of the rows, the mark and the list are set in three places;
the condition here says where a step leaves one of them out.
-/
namespace Dtc

namespace CacheProcess

variable {κ ρ : Type}

/-- The purge loops do not discard a dirty row with this node. -/
def NodeSafe (n : CacheNode κ ρ) : Prop := ∀ r ∈ n.rows, r.dirty = true → n.dirty = true ∧ n.lru = .dirty

/-- **No dirty row can be lost**: its node has the dirty bit and is on the dirty LRU list. -/
def DirtyRowsSafe (p : CacheProcess κ ρ) : Prop := ∀ n ∈ p.nodes, NodeSafe n

/-! ## The branches that keep dirty rows safe -/

section DirtyOk

variable (p : CacheProcess κ ρ) (t : CacheTask κ ρ)

def writeOk (marks : Bool) (n : CacheNode κ ρ) : Bool := if n.dirty then decide (n.lru = .dirty) else marks

/-- `InsertDefaultRow` and `UpdateData` of a node: an update of volatile fields writes the rows dirty and does not mark the
node. -/
def updateDirtyOk (async : Bool) (n : CacheNode κ ρ) : Bool :=
  let rows := if p.conf.replaceEmpty && n.rows.isEmpty then [⟨false, t.defaultRow⟩] else n.rows
  let marks := !(t.updateData async rows).ok || t.operation && t.typeCommit
  !async || (t.worked (fun r => t.compareRow r.value) rows).isEmpty || writeOk marks n

/-- `AppendData` of a node: one that fails may leave the row it has stored, and marks nothing. -/
def insertDirtyOk (async setrows : Bool) (n : CacheNode κ ρ) : Bool :=
  match p.appendData t async setrows n with
  | .duplicate => true
  | .failed rows => rows.length == n.rows.length || writeOk false n
  | .done _ => writeOk true n

/-- A node that is made: `keyDirty` is not left from another one. -/
def newNodeOk : Bool := !p.keyDirty

/-- `ReplaceRows` of a node: one that fails leaves the rows it has written, and marks nothing. -/
def replaceDirtyOk (async : Bool) (n : CacheNode κ ρ) : Bool :=
  let d := t.replaceRows p.conf.keyAsUniqField async n.rows
  !async || writeOk d.ok n ||
    !d.ok && (t.worked (t.conflicts p.conf.keyAsUniqField) n.rows).isEmpty

/-- `FlushData` of a node: without a database an error is not seen, and the mark is cleared. -/
def flushDirtyOk (n : CacheNode κ ρ) : Bool := !p.conf.nodbMode || dirtyRows (t.flushData n).rows == 0

/-- The branch that the work takes keeps dirty rows safe. -/
def workDirtyOk : CacheWork → Bool
  | .insertRow async setrows => !async || p.stNode.elim p.newNodeOk (p.insertDirtyOk t async setrows)
  | .updateRows async _ =>
    p.stNode.elim (!p.conf.replaceEmpty || p.newNodeOk && p.updateDirtyOk t async (p.emptyNode t)) (p.updateDirtyOk t async)
  | .replaceRows async => p.stNode.all (p.replaceDirtyOk t async)
  | .purgeData | .flushData => p.stNode.all (p.flushDirtyOk t)
  | .none | .getData | .replaceResult | .deleteRows | .flushBeforeDelete => true

variable [DecidableEq κ]

/-- **The step keeps dirty rows safe.** -/
def stepDirtyOk : CacheAction κ ρ → Bool
  | .request t => (p.handles t).1.workDirtyOk (p.marked t) (p.handles t).2
  | .reply t => (p.cacheProcessReply t).1.workDirtyOk t (p.cacheProcessReply t).2
  | .error t code => (p.cacheProcessError t code).1.workDirtyOk t (p.cacheProcessError t code).2
  -- the node goes to the clean list, with the rows it is given or those it has
  | .replaceRaw key rows _ chunkFails =>
    if chunkFails then !p.conf.nodbMode || ((p.findNode key).map (·.1)).all (fun n => dirtyRows n.rows == 0)
    else dirtyRows rows == 0
  -- the dirty bit is not set
  | .migrate key rows dirty _ chunkFails =>
    let found := (p.findNode key).map (·.1)
    if chunkFails then
      !p.conf.nodbMode || found.all (fun n => dirtyRows n.rows == 0 || dirty)
    else dirtyRows rows == 0 || dirty && found.any (·.dirty)
  | .adjustLru key => ((p.findNode key).map (·.1)).all (fun n => dirtyRows n.rows == 0)
  | .begin | .finish | .batchGet _ | .purgeClean _ | .purgeEmpty _ | .flushTimer _ _ | .purgeKey _ | .migrated _ | .touch _
  | .configure _ => true

end DirtyOk

section Dirty

variable {p : CacheProcess κ ρ} {t : CacheTask κ ρ} {n : CacheNode κ ρ} {async setrows : Bool}

theorem nodeSafe_iff : NodeSafe n ↔ dirtyRows n.rows = 0 ∨ n.dirty = true ∧ n.lru = .dirty := by
  unfold NodeSafe dirtyRows
  rw [List.countP_eq_zero]
  constructor
  · intro h
    by_cases hd : ∀ r ∈ n.rows, ¬ r.dirty = true
    · exact .inl hd
    · push Not at hd
      obtain ⟨r, hr, hdirty⟩ := hd
      exact .inr (h r hr hdirty)
  · rintro (h | h) r hr hd
    · exact absurd hd (h r hr)
    · exact h

theorem nodeSafe_of_clean (h : dirtyRows n.rows = 0) : NodeSafe n := nodeSafe_iff.mpr (.inl h)

theorem dirtyRowsSafe_iff : DirtyRowsSafe p ↔ (∀ n, p.stNode = some n → NodeSafe n) ∧ ∀ n ∈ p.pool, NodeSafe n := by
  unfold DirtyRowsSafe nodes
  constructor
  · intro h
    exact ⟨fun n hn => h n (List.mem_append_left _ (Option.mem_toList.mpr hn)),
      fun n hn => h n (List.mem_append_right _ hn)⟩
  · rintro ⟨hst, hpool⟩ n hn
    rcases List.mem_append.mp hn with hn | hn
    · exact hst n (Option.mem_toList.mp hn)
    · exact hpool n hn

theorem DirtyRowsSafe.setNode (h : DirtyRowsSafe p) (hn : NodeSafe n) : DirtyRowsSafe (p.setNode n) := by
  refine dirtyRowsSafe_iff.mpr ⟨?_, (dirtyRowsSafe_iff.mp h).2⟩
  rintro m hm
  obtain rfl := Option.some.inj hm
  exact hn

theorem DirtyRowsSafe.purged (h : DirtyRowsSafe p) : DirtyRowsSafe p.purgeNodeEverything :=
  dirtyRowsSafe_iff.mpr ⟨nofun, (dirtyRowsSafe_iff.mp h).2⟩

theorem DirtyRowsSafe.release (h : DirtyRowsSafe p) : DirtyRowsSafe p.release :=
  dirtyRowsSafe_iff.mpr ⟨nofun, h⟩

theorem DirtyRowsSafe.transationBegin (h : DirtyRowsSafe p) : DirtyRowsSafe p.transationBegin :=
  dirtyRowsSafe_iff.mpr ⟨nofun, h⟩

theorem DirtyRowsSafe.written {level : Nat} (hpool : ∀ m ∈ p.pool, NodeSafe m)
    (hn : NodeSafe n ∨ async = true ∧ p.keyDirty = false) :
    DirtyRowsSafe ((p.setNode n).transationUpdateLRU async level) := by
  have hself : NodeSafe n → DirtyRowsSafe (p.setNode n) := by
    intro hsafe
    refine dirtyRowsSafe_iff.mpr ⟨?_, hpool⟩
    rintro m hm
    obtain rfl := Option.some.inj hm
    exact hsafe
  unfold transationUpdateLRU
  rw [show (p.setNode n).stNode = some n from rfl]
  dsimp only
  by_cases hkey : (p.setNode n).keyDirty = true
  · rcases hn with hn | ⟨-, hclean⟩
    · rw [if_pos hkey]
      exact hself hn
    · exact absurd (hclean.symm.trans hkey) (by decide)
  rw [if_neg hkey]
  by_cases ha : async = true
  · rw [if_pos ha]
    refine dirtyRowsSafe_iff.mpr ⟨?_, hpool⟩
    rintro m hm
    obtain rfl := Option.some.inj hm
    exact fun r _ _ => ⟨rfl, rfl⟩
  · rw [if_neg ha]
    exact hself (hn.resolve_right (fun h => ha h.1))

theorem DirtyRowsSafe.transationUpdateLRU {level : Nat} (h : DirtyRowsSafe p) :
    DirtyRowsSafe (p.transationUpdateLRU async level) := by
  cases hst : p.stNode with
  | none =>
    unfold CacheProcess.transationUpdateLRU
    rw [hst]
    exact h
  | some n =>
    rw [← setNode_self hst]
    exact DirtyRowsSafe.written (dirtyRowsSafe_iff.mp h).2 (.inl ((dirtyRowsSafe_iff.mp h).1 n hst))

theorem NodeSafe.setRows {rows : List (CacheRow ρ)} (h : NodeSafe n) (hle : dirtyRows rows ≤ dirtyRows n.rows) :
    NodeSafe { n with rows := rows } := by
  rcases nodeSafe_iff.mp h with h0 | hd
  · exact nodeSafe_of_clean (by rw [h0] at hle; exact Nat.le_zero.mp hle)
  · exact fun _ _ _ => hd

theorem nodeSafe_of_writeOk {marks : Bool} {rows : List (CacheRow ρ)} (ok : writeOk marks n = true) (hd : n.dirty = true) :
    NodeSafe { n with rows := rows } := by
  unfold writeOk at ok
  rw [if_pos hd, decide_eq_true_eq] at ok
  exact fun _ _ _ => ⟨hd, ok⟩

theorem DirtyRowsSafe.updateNode (hpool : ∀ m ∈ p.pool, NodeSafe m) (hn : NodeSafe n) (hkey : p.keyDirty = n.dirty)
    (ok : (!async || (t.worked (fun r => t.compareRow r.value) n.rows).isEmpty ||
      writeOk (!(t.updateData async n.rows).ok || t.operation && t.typeCommit) n) = true) :
    DirtyRowsSafe (p.updateNode t async setrows n) := by
  obtain ⟨-, hdirty, -, haff⟩ := t.updateData_spec async n.rows
  unfold CacheProcess.updateNode
  dsimp only at hdirty haff ok ⊢
  generalize t.updateData async n.rows = d at *
  generalize t.worked (fun r => t.compareRow r.value) n.rows = m at *
  -- the node is safe with its rows, or they are all written and it is not dirty
  have hcases : NodeSafe { n with rows := d.rows } ∨ (async = true ∧ m ≠ [] ∧ p.keyDirty = false ∧
      (d.ok = true → (t.operation && t.typeCommit) = true)) := by
    by_cases hsame : async = false ∨ m = []
    · refine .inl (hn.setRows ?_)
      rcases hsame with rfl | rfl
      · simp at hdirty
        omega
      · simp at hdirty
        omega
    · rw [not_or, Bool.not_eq_false] at hsame
      have hw : writeOk (!d.ok || t.operation && t.typeCommit) n = true := by
        simpa [hsame.1, List.isEmpty_iff, hsame.2] using ok
      by_cases hd : n.dirty = true
      · exact .inl (nodeSafe_of_writeOk hw hd)
      · refine .inr ⟨hsame.1, hsame.2, hkey.trans (Bool.eq_false_iff.mpr hd), fun hok => ?_⟩
        unfold writeOk at hw
        rw [if_neg hd] at hw
        simpa [hok] using hw
  split
  · next hok =>
    refine DirtyRowsSafe.written hpool ?_
    rcases hcases with hsafe | ⟨ha, hm, hclean, hmark⟩
    · exact .inl hsafe
    · refine .inr ⟨?_, hclean⟩
      have hpos : 0 < d.affected := by
        rw [haff]
        exact List.length_pos_of_ne_nil hm
      simp [ha, hpos, hmark hok]
  · split
    · exact dirtyRowsSafe_iff.mpr ⟨nofun, hpool⟩
    · exact DirtyRowsSafe.written hpool (hcases.imp_right (fun h => ⟨h.1, h.2.2.1⟩))

theorem DirtyRowsSafe.cacheReplaceRows (h : DirtyRowsSafe p) (hm : Marked p)
    (ok : p.stNode.all (p.replaceDirtyOk t async) = true) : DirtyRowsSafe (p.cacheReplaceRows t async) := by
  unfold CacheProcess.cacheReplaceRows
  cases hn : p.stNode with
  | none => exact h
  | some n =>
    have hsafe := (dirtyRowsSafe_iff.mp h).1 n hn
    have hpool := (dirtyRowsSafe_iff.mp h).2
    rw [hn] at ok
    have ok : p.replaceDirtyOk t async n = true := ok
    unfold replaceDirtyOk at ok
    have hsync := t.replaceRows_sync p.conf.keyAsUniqField n.rows
    have hfail := t.replaceRows_failed p.conf.keyAsUniqField async n.rows
    dsimp only at ok ⊢
    have hcases : NodeSafe { n with rows := (t.replaceRows p.conf.keyAsUniqField async n.rows).rows } ∨
        (async = true ∧ p.keyDirty = false ∧ (t.replaceRows p.conf.keyAsUniqField async n.rows).ok = true) := by
      cases async with
      | false => exact .inl (hsafe.setRows hsync)
      | true =>
        rw [Bool.not_true, Bool.false_or, Bool.or_eq_true] at ok
        rcases ok with hw | hbad
        · by_cases hd : n.dirty = true
          · exact .inl (nodeSafe_of_writeOk hw hd)
          · unfold writeOk at hw
            rw [if_neg hd] at hw
            exact .inr ⟨rfl, (hm n hn).trans (Bool.eq_false_iff.mpr hd), hw⟩
        · rw [Bool.and_eq_true, Bool.not_eq_true', List.isEmpty_iff] at hbad
          refine .inl (hsafe.setRows ?_)
          rw [hfail hbad.2 hbad.1]
    split
    · rw [← incDirtyRow_transationUpdateLRU, ← incTotalRow_transationUpdateLRU]
      exact DirtyRowsSafe.written hpool (hcases.imp_right (fun h => ⟨h.1, h.2.1⟩))
    · next hbad =>
      split
      · exact dirtyRowsSafe_iff.mpr ⟨nofun, hpool⟩
      · exact h.setNode (hcases.resolve_right (fun hc => hbad hc.2.2))

theorem DirtyRowsSafe.insertNode (hpool : ∀ m ∈ p.pool, NodeSafe m) (h : DirtyRowsSafe p) (hn : NodeSafe n)
    (hkey : async = true → p.keyDirty = n.dirty) (ok : (!async || p.insertDirtyOk t async setrows n) = true) :
    DirtyRowsSafe (p.insertNode t async setrows n) := by
  unfold insertDirtyOk at ok
  unfold CacheProcess.insertNode
  cases ha : p.appendData t async setrows n with
  | duplicate => exact h
  | failed rows =>
    rw [ha] at ok
    dsimp only at ok ⊢
    split
    · exact h.purged
    · refine h.setNode ?_
      rcases t.appendData_failed ha with rfl | ⟨-, rfl⟩
      · exact hn
      · cases async with
        | false => exact hn.setRows (by simp)
        | true =>
          -- the row is dirty, so the node has been marked before
          simp only [Bool.not_true, Bool.false_or, List.length_append, List.length_singleton, Bool.or_eq_true, beq_iff_eq,
            Nat.add_eq_left, one_ne_zero, false_or] at ok
          by_cases hd : n.dirty = true
          · exact nodeSafe_of_writeOk ok hd
          · simp [writeOk, hd] at ok
  | done d =>
    rw [ha] at ok
    obtain ⟨-, hdirty, -, -⟩ := t.appendData_spec ha
    have hcases : NodeSafe { n with rows := d.rows } ∨ async = true ∧ p.keyDirty = false := by
      cases async with
      | false => exact .inl (hn.setRows (Nat.le_of_eq hdirty))
      | true =>
        by_cases hd : n.dirty = true
        · exact .inl (nodeSafe_of_writeOk ok hd)
        · exact .inr ⟨rfl, (hkey rfl).trans (Bool.eq_false_iff.mpr hd)⟩
    have hw : DirtyRowsSafe ((p.setNode { n with rows := d.rows }).transationUpdateLRU async lruWrite) :=
      DirtyRowsSafe.written hpool hcases
    dsimp only
    split <;> exact hw

theorem DirtyRowsSafe.insertEmptyNode (h : DirtyRowsSafe p) : DirtyRowsSafe (p.insertEmptyNode t) := by
  refine dirtyRowsSafe_iff.mpr ⟨?_, (dirtyRowsSafe_iff.mp h).2⟩
  rintro m hm
  obtain rfl := Option.some.inj hm
  exact nodeSafe_of_clean rfl

theorem insertDirtyOk_emptyNode : (p.insertEmptyNode t).insertDirtyOk t async setrows (p.emptyNode t) = true := by
  unfold insertDirtyOk
  split
  · rfl
  · next rows ha =>
    have hrows : rows = (p.emptyNode t).rows := (t.appendData_failed ha).resolve_right (fun h => h.1 rfl)
    simp [hrows]
  · rfl

theorem DirtyRowsSafe.cacheInsertRow (h : DirtyRowsSafe p) (hm : Marked p)
    (ok : (!async || p.stNode.elim p.newNodeOk (p.insertDirtyOk t async setrows)) = true) :
    DirtyRowsSafe (p.cacheInsertRow t async setrows) := by
  have hpool := (dirtyRowsSafe_iff.mp h).2
  unfold CacheProcess.cacheInsertRow
  cases hn : p.stNode with
  | some n =>
    rw [hn] at ok
    exact h.insertNode hpool ((dirtyRowsSafe_iff.mp h).1 n hn) (fun _ => hm n hn) ok
  | none =>
    rw [hn] at ok
    have hnew := h.insertEmptyNode (t := t)
    dsimp only
    split
    · split
      · exact hnew.purged
      · refine hnew.insertNode hpool (nodeSafe_of_clean rfl) (fun ha => ?_) ?_
        · unfold newNodeOk at ok
          simpa [ha, emptyNode, CacheProcess.insertEmptyNode, CacheProcess.setNode] using ok
        · simp [insertDirtyOk_emptyNode]
    · exact h

theorem DirtyRowsSafe.cacheUpdateRows (h : DirtyRowsSafe p) (hm : Marked p)
    (ok : p.workDirtyOk t (.updateRows async setrows) = true) : DirtyRowsSafe (p.cacheUpdateRows t async setrows) := by
  have hpool := (dirtyRowsSafe_iff.mp h).2
  unfold CacheProcess.cacheUpdateRows CacheProcess.insertDefaultRow
  unfold workDirtyOk at ok
  dsimp only at ok
  cases hn : p.stNode with
  | none =>
    rw [hn] at ok
    cases he : p.conf.replaceEmpty with
    | false => exact h
    | true =>
      rw [if_pos rfl]
      dsimp only
      have hnew := h.insertEmptyNode (t := t)
      by_cases ha : t.allocates = true
      · rw [if_pos ha]
        by_cases hc : t.chunkFails = true
        · rw [if_pos hc]
          exact hnew.purged
        · rw [if_neg hc]
          obtain ⟨hkey, hup⟩ : p.keyDirty = false ∧ p.updateDirtyOk t async (p.emptyNode t) = true := by
            simpa [he, newNodeOk] using ok
          unfold updateDirtyOk at hup
          rw [he] at hup
          exact DirtyRowsSafe.updateNode hpool (nodeSafe_of_clean rfl) hkey hup
      · rw [if_neg ha]
        exact h
  | some n =>
    have hsafe := (dirtyRowsSafe_iff.mp h).1 n hn
    rw [hn] at ok
    have ok : p.updateDirtyOk t async n = true := ok
    unfold updateDirtyOk at ok
    dsimp only at ok
    cases he : p.conf.replaceEmpty with
    | false =>
      rw [he, Bool.false_and, if_neg (by decide)] at ok
      exact DirtyRowsSafe.updateNode hpool hsafe (hm n hn) ok
    | true =>
      rw [he, Bool.true_and] at ok
      rw [if_pos rfl]
      dsimp only
      by_cases hr : n.rows.isEmpty = true
      · rw [if_pos hr] at ok ⊢
        by_cases hc : t.chunkFails = true
        · rw [if_pos hc]
          exact h.purged
        · rw [if_neg hc]
          have hdefault : NodeSafe { n with rows := [⟨false, t.defaultRow⟩] } := nodeSafe_of_clean rfl
          exact DirtyRowsSafe.updateNode hpool hdefault (hm n hn) ok
      · rw [if_neg hr] at ok ⊢
        exact DirtyRowsSafe.updateNode hpool hsafe (hm n hn) ok

theorem DirtyRowsSafe.cacheDeleteRows (h : DirtyRowsSafe p) : DirtyRowsSafe (p.cacheDeleteRows t) := by
  unfold CacheProcess.cacheDeleteRows
  split
  · exact h
  · next n hn =>
    have hset : DirtyRowsSafe (p.setNode { n with rows := (t.deleteData n.rows).rows }) := by
      obtain ⟨-, hdirty, -, -⟩ := t.deleteData_spec n.rows
      exact h.setNode (((dirtyRowsSafe_iff.mp h).1 n hn).setRows (by omega))
    have hdel : ∀ (q : CacheProcess κ ρ) (k : Int), DirtyRowsSafe q → DirtyRowsSafe (q.deleteNode n.rows.length k) := by
      intro q k hq
      unfold deleteNode
      dsimp only
      split <;> exact hq.purged
    split
    · exact hdel _ _ h
    · dsimp only
      split
      · split
        · exact hdel _ _ hset
        · exact DirtyRowsSafe.transationUpdateLRU hset
      · split
        · exact hset
        · exact hset.purged

theorem flushData_le : dirtyRows (t.flushData n).rows ≤ dirtyRows n.rows := by
  obtain ⟨-, h2, h3, -⟩ := t.flushData_spec n
  omega

theorem DirtyRowsSafe.clrDirty {q : CacheProcess κ ρ} (hpool : ∀ m ∈ q.pool, NodeSafe m) (h0 : dirtyRows n.rows = 0) :
    DirtyRowsSafe (q.clrDirty n) := by
  unfold CacheProcess.clrDirty
  have hsafe : ∀ m, some { n with dirty := false } = some m → NodeSafe m := by
    rintro m hm
    obtain rfl := Option.some.inj hm
    exact nodeSafe_of_clean h0
  split <;> exact dirtyRowsSafe_iff.mpr ⟨hsafe, hpool⟩

theorem flushData_clean (hn : NodeSafe n) (hok : (t.flushData n).ok = true) : dirtyRows (t.flushData n).rows = 0 := by
  obtain ⟨-, -, -, -, hzero⟩ := t.flushData_spec n
  rcases nodeSafe_iff.mp hn with h0 | ⟨hd, -⟩
  · have := flushData_le (t := t) (n := n)
    omega
  · exact hzero hd hok

theorem DirtyRowsSafe.cacheFlushData (h : DirtyRowsSafe p) (ok : p.stNode.all (p.flushDirtyOk t) = true) :
    DirtyRowsSafe (p.cacheFlushData t).1 := by
  unfold CacheProcess.cacheFlushData
  cases hn : p.stNode with
  | none => exact h
  | some n =>
    have hpool := (dirtyRowsSafe_iff.mp h).2
    have hsafe := (dirtyRowsSafe_iff.mp h).1 n hn
    rw [hn] at ok
    dsimp only
    split
    · exact dirtyRowsSafe_iff.mpr ⟨fun m hm => Option.some.inj hm ▸ hsafe.setRows flushData_le, hpool⟩
    · next hc =>
      have h0 : dirtyRows (t.flushData n).rows = 0 := by
        by_cases hok : (t.flushData n).ok = true
        · exact flushData_clean hsafe hok
        · have hdb : p.conf.nodbMode = true := by simpa [hok] using hc
          simpa [flushDirtyOk, hdb] using ok
      refine DirtyRowsSafe.transationUpdateLRU (p := { CacheProcess.clrDirty _ _ with keyDirty := false }) ?_
      exact DirtyRowsSafe.clrDirty hpool h0

theorem DirtyRowsSafe.cacheFlushDataBeforeDelete (h : DirtyRowsSafe p) :
    DirtyRowsSafe (p.cacheFlushDataBeforeDelete t) := by
  unfold CacheProcess.cacheFlushDataBeforeDelete
  split
  · exact h
  · next n hn =>
    have hpool := (dirtyRowsSafe_iff.mp h).2
    have hsafe := (dirtyRowsSafe_iff.mp h).1 n hn
    dsimp only
    split
    · next hok =>
      split <;> exact DirtyRowsSafe.clrDirty hpool (flushData_clean hsafe hok)
    · exact h.setNode (hsafe.setRows flushData_le)

theorem DirtyRowsSafe.transationEnd (h : DirtyRowsSafe p) : DirtyRowsSafe p.transationEnd := by
  unfold CacheProcess.transationEnd
  split
  · exact h.transationBegin
  · next n hn =>
    split
    · next hc =>
      refine DirtyRowsSafe.transationBegin (h.setNode (nodeSafe_of_clean ?_))
      -- the node is not dirty, so it has no dirty rows
      have hd : n.dirty = false := by
        simp only [Bool.and_eq_true, Bool.not_eq_true'] at hc
        exact hc.1.2
      rcases nodeSafe_iff.mp ((dirtyRowsSafe_iff.mp h).1 n hn) with h0 | ⟨hd', -⟩
      · exact h0
      · rw [hd] at hd'
        cases hd'
    · exact h.transationBegin

theorem DirtyRowsSafe.purgeClean {i : Nat} (h : DirtyRowsSafe p) : DirtyRowsSafe (p.purgeClean i) := by
  have hr := dirtyRowsSafe_iff.mp h
  unfold CacheProcess.purgeClean
  split
  · exact h
  split
  · exact dirtyRowsSafe_iff.mpr ⟨hr.1, fun m hm => hr.2 m (List.mem_of_mem_eraseIdx hm)⟩
  · exact h

theorem DirtyRowsSafe.purgeSingleEmptyNode {i : Nat} (h : DirtyRowsSafe p) : DirtyRowsSafe (p.purgeSingleEmptyNode i) := by
  have hr := dirtyRowsSafe_iff.mp h
  unfold CacheProcess.purgeSingleEmptyNode
  split
  · exact h
  split
  · exact dirtyRowsSafe_iff.mpr ⟨hr.1, fun m hm => hr.2 m (List.mem_of_mem_eraseIdx hm)⟩
  · exact h

theorem DirtyRowsSafe.cacheFlushDataTimer {i : Nat} (h : DirtyRowsSafe p) : DirtyRowsSafe (p.cacheFlushDataTimer t i) := by
  have hb := (dirtyRowsSafe_iff.mp h.transationBegin).2
  rcases p.cacheFlushDataTimer_cases t i with heq | ⟨n, m, hi, hm, hpool, hst, -, -, hd⟩
  · rw [heq]
    exact h.transationBegin
  · have hsafe := hb n (List.mem_of_getElem? hi)
    have hmsafe : NodeSafe m := by
      rcases hd with ⟨hok, -, -⟩ | ⟨-, hdirty, hlru⟩
      · exact nodeSafe_of_clean (hm ▸ flushData_clean hsafe hok)
      · have hleft : NodeSafe { n with rows := (t.flushData n).rows } := hsafe.setRows flushData_le
        intro r hr hd
        rw [hdirty, hlru]
        exact hleft r (hm ▸ hr) hd
    refine dirtyRowsSafe_iff.mpr ⟨by rw [hst]; nofun, fun x hx => ?_⟩
    rw [hpool] at hx
    rcases List.mem_or_eq_of_mem_set hx with hx | rfl
    · exact hb x hx
    · exact hmsafe

theorem DirtyRowsSafe.replaceNode {oldRows : Nat} (h : DirtyRowsSafe p) : DirtyRowsSafe (p.replaceNode t n oldRows) := by
  unfold CacheProcess.replaceNode
  split
  · exact h.purged
  · have hset : DirtyRowsSafe (p.setNode { n with rows := t.result.map (fun v => ⟨false, v⟩) }) :=
      h.setNode (nodeSafe_of_clean (dirtyRows_result _))
    exact DirtyRowsSafe.transationUpdateLRU hset

variable [DecidableEq κ]

theorem mem_of_takeOut {key : κ} {newhash : Bool} {nodes : List (CacheNode κ ρ)} {r : CacheNode κ ρ × List (CacheNode κ ρ)}
    (h : takeOut key newhash nodes = some r) {m : CacheNode κ ρ} (hm : m = r.1 ∨ m ∈ r.2) : m ∈ nodes :=
  (takeOut_perm h).mem_iff.mpr (List.mem_cons.mpr hm)

theorem DirtyRowsSafe.found {key : κ} {rest : List (CacheNode κ ρ)} (h : DirtyRowsSafe p)
    (hf : p.findNode key = some (n, rest)) : NodeSafe n ∧ ∀ m ∈ rest, NodeSafe m := by
  unfold findNode at hf
  dsimp only at hf
  split at hf
  · split at hf
    · next r hr =>
      obtain ⟨rfl, rfl⟩ := Prod.mk.inj (Option.some.inj hf)
      exact ⟨h r.1 (mem_of_takeOut hr (.inl rfl)), fun m hm => h m (mem_of_takeOut hr (.inr hm))⟩
    · exact ⟨h n (mem_of_takeOut hf (.inl rfl)), fun m hm => h m (mem_of_takeOut hf (.inr hm))⟩
  · exact ⟨h n (mem_of_takeOut hf (.inl rfl)), fun m hm => h m (mem_of_takeOut hf (.inr hm))⟩

theorem DirtyRowsSafe.find {key : κ} {isset : Bool} (h : DirtyRowsSafe p) :
    DirtyRowsSafe (p.transationFindNode key isset) := by
  unfold transationFindNode
  split
  · exact h.release
  split
  · exact h.release
  · next n rest hf =>
    obtain ⟨hn, hrest⟩ := h.found hf
    exact dirtyRowsSafe_iff.mpr ⟨fun m hm => Option.some.inj hm ▸ hn, hrest⟩

theorem DirtyRowsSafe.cachePurge {key : κ} (h : DirtyRowsSafe p) : DirtyRowsSafe (p.cachePurge key) := by
  unfold CacheProcess.cachePurge
  split
  · exact h.purged
  split
  · exact h
  · next rest hf =>
    have hr := dirtyRowsSafe_iff.mp h
    exact dirtyRowsSafe_iff.mpr ⟨hr.1, fun m hm => hr.2 m (mem_of_takeOut hf (.inr hm))⟩

theorem DirtyRowsSafe.cachePurgeData (h : DirtyRowsSafe p) (ok : p.stNode.all (p.flushDirtyOk t) = true) :
    DirtyRowsSafe (p.cachePurgeData t) := by
  have hflush := h.cacheFlushData ok
  unfold CacheProcess.cachePurgeData
  split
  · exact h
  split
  · dsimp only
    split
    · exact DirtyRowsSafe.cachePurge (p := (p.cacheFlushData t).1.incTotalRow _) hflush
    · exact hflush
  · exact DirtyRowsSafe.cachePurge (p := p.incTotalRow _) h

theorem DirtyRowsSafe.cacheReplaceResult (h : DirtyRowsSafe p) : DirtyRowsSafe (p.cacheReplaceResult t) := by
  unfold CacheProcess.cacheReplaceResult
  split
  · exact h.cachePurge
  split
  · exact h.replaceNode
  split
  · exact h.insertEmptyNode.replaceNode
  · exact h

theorem DirtyRowsSafe.perform {w : CacheWork} (h : DirtyRowsSafe p) (hm : Marked p) (ok : p.workDirtyOk t w = true) :
    DirtyRowsSafe (p.perform t w) := by
  cases w with
  | none => exact h
  | getData => exact h.transationUpdateLRU
  | replaceResult => exact h.cacheReplaceResult
  | insertRow async setrows => exact h.cacheInsertRow hm ok
  | updateRows async setrows => exact h.cacheUpdateRows hm ok
  | replaceRows async => exact h.cacheReplaceRows hm ok
  | deleteRows => exact h.cacheDeleteRows
  | purgeData => exact h.cachePurgeData ok
  | flushData => exact h.cacheFlushData ok
  | flushBeforeDelete => exact h.cacheFlushDataBeforeDelete

theorem DirtyRowsSafe.performed {r : CacheProcess κ ρ × CacheWork} (h : DirtyRowsSafe p) (hd : Decided p r)
    (ok : r.1.workDirtyOk t r.2 = true) : DirtyRowsSafe (r.1.perform t r.2) := by
  rcases hd with rfl | ⟨key, isset, hr⟩
  · exact h
  · have hfound : DirtyRowsSafe r.1 := hr ▸ h.find
    exact hfound.perform (hr ▸ marked_find) ok

theorem DirtyRowsSafe.touchNode {key : κ} (h : DirtyRowsSafe p) : DirtyRowsSafe (p.touchNode key) := by
  unfold CacheProcess.touchNode
  split
  · exact h.release
  · next n rest hf =>
    obtain ⟨hn, hrest⟩ := h.found hf
    exact dirtyRowsSafe_iff.mpr ⟨nofun, List.forall_mem_cons.mpr ⟨hn, hrest⟩⟩

theorem DirtyRowsSafe.cacheAdjustLru {key : κ} (h : DirtyRowsSafe p)
    (ok : ((p.findNode key).map (·.1)).all (fun n => dirtyRows n.rows == 0) = true) :
    DirtyRowsSafe (p.cacheAdjustLru key) := by
  unfold CacheProcess.cacheAdjustLru
  split
  · exact h.release
  · next n rest hf =>
    have h0 : dirtyRows n.rows = 0 := by simpa [hf] using ok
    exact dirtyRowsSafe_iff.mpr ⟨nofun, List.forall_mem_cons.mpr ⟨nodeSafe_of_clean h0, (h.found hf).2⟩⟩

theorem DirtyRowsSafe.cacheMigrated {key : κ} (h : DirtyRowsSafe p) : DirtyRowsSafe (p.cacheMigrated key) := by
  unfold CacheProcess.cacheMigrated
  split
  · exact h.release
  · next n rest hf => exact dirtyRowsSafe_iff.mpr ⟨nofun, (h.found hf).2⟩

theorem DirtyRowsSafe.replaceRawNode {key : κ} {rows : List (CacheRow ρ)} {lru : LruList} {allocates chunkFails : Bool}
    (h : DirtyRowsSafe p)
    (hkept : ∀ n rest, p.findNode key = some (n, rest) → chunkFails = true → p.conf.nodbMode = true →
      NodeSafe { n with lru := lru })
    (hrows : chunkFails = false → dirtyRows rows = 0 ∨
      ∃ n rest, p.findNode key = some (n, rest) ∧ n.dirty = true ∧ lru = .dirty) :
    DirtyRowsSafe (p.replaceRawNode key rows lru allocates chunkFails) := by
  unfold CacheProcess.replaceRawNode
  split
  · next n rest hf =>
    have hrest := (h.found hf).2
    dsimp only
    split
    · next hc =>
      split
      · next hdb => exact dirtyRowsSafe_iff.mpr ⟨nofun, List.forall_mem_cons.mpr ⟨hkept n rest hf hc hdb, hrest⟩⟩
      · exact dirtyRowsSafe_iff.mpr ⟨nofun, hrest⟩
    · next hc =>
      refine dirtyRowsSafe_iff.mpr ⟨nofun, List.forall_mem_cons.mpr ⟨?_, hrest⟩⟩
      rcases hrows (Bool.eq_false_iff.mpr hc) with h0 | ⟨n', rest', hf', hd, hl⟩
      · exact nodeSafe_of_clean h0
      · obtain ⟨rfl, -⟩ := Prod.mk.inj (Option.some.inj (hf.symm.trans hf'))
        exact fun r _ _ => ⟨hd, hl⟩
  · next hf =>
    have hrel := (dirtyRowsSafe_iff.mp h.release).2
    dsimp only
    split
    · split
      · split
        · exact dirtyRowsSafe_iff.mpr ⟨nofun, List.forall_mem_cons.mpr ⟨nodeSafe_of_clean rfl, hrel⟩⟩
        · exact h.release
      · next hc =>
        refine dirtyRowsSafe_iff.mpr ⟨nofun, List.forall_mem_cons.mpr ⟨?_, hrel⟩⟩
        rcases hrows (Bool.eq_false_iff.mpr hc) with h0 | ⟨n', rest', hf', -⟩
        · exact nodeSafe_of_clean h0
        · rw [hf] at hf'
          cases hf'
    · exact h.release

theorem DirtyRowsSafe.cacheStep {a : CacheAction κ ρ} (h : DirtyRowsSafe p) (ok : p.stepDirtyOk a = true) :
    DirtyRowsSafe (p.cacheStep a) := by
  cases a with
  | begin => exact h.transationBegin
  | finish => exact h.transationEnd
  | request t => exact h.performed handled_handles.decided ok
  | reply t => exact h.performed handled_reply.decided ok
  | error t code => exact h.performed handled_error.decided ok
  | batchGet t => exact h.find.transationUpdateLRU
  | purgeClean i => exact h.purgeClean
  | purgeEmpty i => exact h.purgeSingleEmptyNode
  | flushTimer i t => exact h.cacheFlushDataTimer
  | purgeKey key => exact h.release.cachePurge
  | replaceRaw key rows allocates chunkFails =>
    unfold stepDirtyOk at ok
    refine h.replaceRawNode (fun n rest hf hc hdb => nodeSafe_of_clean ?_) (fun hc => .inl ?_)
    · simpa [hf, hc, hdb] using ok
    · simpa [hc] using ok
  | migrate key rows dirty allocates chunkFails =>
    unfold stepDirtyOk at ok
    refine h.replaceRawNode (fun n rest hf hc hdb => ?_) (fun hc => ?_)
    · have hor : dirtyRows n.rows = 0 ∨ dirty = true := by simpa [hf, hc, hdb] using ok
      rcases hor with h0 | rfl
      · exact nodeSafe_of_clean h0
      · exact fun r hr hd => ⟨((h.found hf).1 r hr hd).1, rfl⟩
    · dsimp only at ok
      rw [hc, if_neg (by decide), Bool.or_eq_true, beq_iff_eq, Bool.and_eq_true] at ok
      rcases ok with h0 | ⟨rfl, hany⟩
      · exact .inl h0
      · cases hf : p.findNode key with
        | none => simp [hf] at hany
        | some found => exact .inr ⟨found.1, found.2, rfl, by simpa [hf] using hany, rfl⟩
  | migrated key => exact h.cacheMigrated
  | touch key => exact h.touchNode
  | adjustLru key => exact h.cacheAdjustLru ok
  | configure hash => exact h

end Dirty
end CacheProcess

open CacheProcess

/-- **No committed write is lost in a run whose steps keep dirty rows safe**: every row with dirty flags is in a node that
is marked dirty and on the dirty LRU list. -/
theorem cacheMachine_dirtyRowsSafe {κ ρ : Type} [DecidableEq κ] {p : CacheProcess κ ρ}
    (h : (cacheMachine κ ρ).ReachableMeeting (fun p a => p.stepDirtyOk a = true) p) : DirtyRowsSafe p := by
  refine Machine.reachableMeeting_induct (cacheMachine κ ρ) ?_ ?_ h
  · rintro p ⟨conf, rfl⟩
    exact nofun
  · intro p a p' hp hok hst
    obtain rfl := Option.some.inj hst
    exact hp.cacheStep hok

theorem cacheMachine_dirtyRowsSafe_mixedRun : ∃ p, (cacheMachine Nat Nat).run { conf := asyncConf } mixedRun = some p ∧
    p.totalDirtyRows = 2 ∧ DirtyRowsSafe p := by
  have hrun : ((cacheMachine Nat Nat).run { conf := asyncConf } mixedRun).map (·.totalDirtyRows) = some 2 := by
    decide
  obtain ⟨p, hp, hcount⟩ := Option.map_eq_some_iff.mp hrun
  have hmeets : (cacheMachine Nat Nat).RunMeets (fun p a => p.stepDirtyOk a = true) { conf := asyncConf } mixedRun := by
    decide
  exact ⟨p, hp, hcount, cacheMachine_dirtyRowsSafe ⟨_, _, ⟨_, rfl⟩, hmeets, hp⟩⟩

/-- `cache_adjust_lru` of a key that was updated: its node goes to the clean list with the row the database does not
have, and the purge loops may discard it. -/
theorem cacheMachine_adjustLru : ∃ p, (cacheMachine Nat Nat).Reachable p ∧
    p.nodes = [{ key := 1, newhash := false, rows := [⟨true, 9⟩], dirty := true, lru := .clean }] ∧
      (p.purgeClean 0).nodes = [] := by
  have hrun : ((cacheMachine Nat Nat).run { conf := asyncConf }
      [.begin, .request (numberTask .get), .finish, .begin, .reply { numberTask .get with result := [3] }, .finish,
        .begin, .request { numberTask .update with updateRow := (· + 6) }, .finish, .begin, .adjustLru 1]).map
          (fun p => (p.nodes, (p.purgeClean 0).nodes)) =
        some ([{ key := 1, newhash := false, rows := [⟨true, 9⟩], dirty := true, lru := .clean }], []) := by decide
  obtain ⟨p, hp, hnodes⟩ := Option.map_eq_some_iff.mp hrun
  obtain ⟨hn, hpurged⟩ := Prod.mk.inj hnodes
  exact ⟨p, ⟨_, _, ⟨_, rfl⟩, hp⟩, hn, hpurged⟩

end Dtc
