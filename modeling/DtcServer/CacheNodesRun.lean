import DtcServer.CacheRowsRun
/-!
# CacheNodesRun — the counter of dirty nodes over whole runs

The flush timer takes its speed from the dirty nodes.  A handler that marks a node counts it and one that clears the mark
counts it down; what loses a node from the count is a purge of one that is still dirty.
-/
namespace Dtc
open Tally
namespace CacheProcess
variable {κ ρ : Type}
/-! ## The counter of dirty nodes -/

section Nodes

variable {p : CacheProcess κ ρ} {t : CacheTask κ ρ} {n : CacheNode κ ρ} {async setrows : Bool}

theorem nodesCounted_iff : NodesCounted p ↔
    p.niDirtyNode = ((total (·.dirty.toNat) p.stNode.toList + total (·.dirty.toNat) p.pool : Nat) : Int) % 2 ^ 32 := by
  unfold NodesCounted totalDirtyNodes nodes
  rw [total_append]

theorem nodesCounted_some (h : p.stNode = some n) : NodesCounted p ↔
    p.niDirtyNode = ((n.dirty.toNat + total (·.dirty.toNat) p.pool : Nat) : Int) % 2 ^ 32 := by
  rw [nodesCounted_iff, h]
  rfl

theorem nodesCounted_none (h : p.stNode = none) : NodesCounted p ↔
    p.niDirtyNode = ((total (·.dirty.toNat) p.pool : Nat) : Int) % 2 ^ 32 := by
  rw [nodesCounted_iff, h]
  simp only [Option.toList_none, total_nil, Nat.zero_add]

/-- `keyDirty` is the dirty bit of the node of the transation. -/
def Marked (p : CacheProcess κ ρ) : Prop := ∀ n, p.stNode = some n → p.keyDirty = n.dirty

theorem NodesCounted.transationUpdateLRU {level : Nat} (h : NodesCounted p)
    (hm : ∀ n, p.stNode = some n → n.dirty = true → p.keyDirty = true) :
    NodesCounted (p.transationUpdateLRU async level) := by
  unfold CacheProcess.transationUpdateLRU
  split
  · exact h
  · next n hn =>
    split
    · exact h
    · next hkey =>
      split
      · have hclean : n.dirty = false := Bool.eq_false_iff.mpr (fun hd => hkey (hm n hn hd))
        have hcount := (nodesCounted_some hn).mp h
        rw [hclean] at hcount
        rw [nodesCounted_some rfl]
        dsimp only [incDirtyNode] at hcount ⊢
        simp only [Bool.toNat_false, Bool.toNat_true] at hcount ⊢
        omega
      · exact (nodesCounted_some hn).mpr ((nodesCounted_some hn).mp h)

theorem NodesCounted.transationUpdateLRU_clean {level : Nat} (h : NodesCounted p) :
    NodesCounted (p.transationUpdateLRU false level) := by
  unfold CacheProcess.transationUpdateLRU
  split
  · exact h
  · next n hn =>
    split
    · exact h
    · exact (nodesCounted_some hn).mpr ((nodesCounted_some hn).mp h)

theorem NodesCounted.setRows (h : NodesCounted p) (hn : p.stNode = some n) (rows : List (CacheRow ρ)) :
    NodesCounted (p.setNode { n with rows := rows }) := by
  rw [nodesCounted_some rfl]
  exact (nodesCounted_some hn).mp h

theorem NodesCounted.purged (h : NodesCounted p) (hn : p.stNode = some n) (h0 : n.dirty = false) :
    NodesCounted p.purgeNodeEverything := by
  have hcount := (nodesCounted_some hn).mp h
  rw [h0, Bool.toNat_false, Nat.zero_add] at hcount
  exact (nodesCounted_none rfl).mpr hcount

theorem NodesCounted.insertEmptyNode (h : NodesCounted p) (hn : p.stNode = none) : NodesCounted (p.insertEmptyNode t) := by
  have hcount := (nodesCounted_none hn).mp h
  rw [nodesCounted_some rfl]
  simpa [CacheProcess.insertEmptyNode, setNode, emptyNode] using hcount

theorem NodesCounted.updateNode (h : NodesCounted p) (hn : p.stNode = some n) (hm : n.dirty = true → p.keyDirty = true)
    {rows : List (CacheRow ρ)} (ok : ((t.updateData async rows).ok || async || t.blackHole || !n.dirty) = true) :
    NodesCounted (p.updateNode t async setrows { n with rows := rows }) := by
  unfold CacheProcess.updateNode
  dsimp only
  have hset := h.setRows hn (t.updateData async rows).rows
  have hmark : ∀ m, (p.setNode { n with rows := (t.updateData async rows).rows }).stNode = some m → m.dirty = true →
      (p.setNode { n with rows := (t.updateData async rows).rows }).keyDirty = true := by
    rintro m hst
    obtain rfl := Option.some.inj hst
    exact hm
  split
  · exact hset.transationUpdateLRU hmark
  · next hok =>
    split
    · next hc =>
      have h0 : n.dirty = false := by
        simp only [Bool.and_eq_true, Bool.not_eq_true'] at hc
        rw [hc.1] at hok
        simpa [hok, hc] using ok
      exact hset.purged rfl h0
    · exact hset.transationUpdateLRU hmark

theorem NodesCounted.cacheUpdateRows (h : NodesCounted p) (hm : Marked p) (ok : p.stNode.all (p.updateNodeOk t async) = true) :
    NodesCounted (p.cacheUpdateRows t async setrows) := by
  unfold CacheProcess.cacheUpdateRows CacheProcess.insertDefaultRow
  cases hn : p.stNode with
  | none =>
    cases he : p.conf.replaceEmpty with
    | false => exact h
    | true =>
      rw [if_pos rfl]
      dsimp only
      have hnew := h.insertEmptyNode (t := t) hn
      by_cases ha : t.allocates = true
      · rw [if_pos ha]
        by_cases hc : t.chunkFails = true
        · rw [if_pos hc]
          exact hnew.purged rfl rfl
        · rw [if_neg hc]
          exact hnew.updateNode rfl nofun (by simp [emptyNode])
      · rw [if_neg ha]
        exact h
  | some n =>
    rw [hn] at ok
    have ok : p.updateNodeOk t async n = true := ok
    unfold updateNodeOk at ok
    dsimp only at ok
    have hkey : n.dirty = true → p.keyDirty = true := fun hd => (hm n hn).trans hd
    cases he : p.conf.replaceEmpty with
    | false =>
      rw [he, Bool.false_and, Bool.false_and, if_neg (by decide), if_neg (by decide)] at ok
      exact h.updateNode hn hkey ok
    | true =>
      rw [he, Bool.true_and] at ok
      rw [if_pos rfl]
      dsimp only
      by_cases hr : n.rows.isEmpty = true
      · rw [hr, Bool.true_and, if_pos rfl] at ok
        rw [if_pos hr]
        by_cases hc : t.chunkFails = true
        · rw [if_pos hc] at ok ⊢
          exact h.purged hn (by simpa using ok)
        · rw [if_neg hc] at ok ⊢
          exact h.updateNode hn hkey ok
      · rw [Bool.eq_false_iff.mpr hr, Bool.false_and, if_neg (by decide), if_neg (by decide)] at ok
        rw [if_neg hr]
        exact h.updateNode hn hkey ok

theorem NodesCounted.cacheReplaceRows (h : NodesCounted p) (hm : Marked p) :
    NodesCounted (p.cacheReplaceRows t async) := by
  unfold CacheProcess.cacheReplaceRows
  split
  · exact h
  · next n hn =>
    dsimp only
    have hset := h.setRows hn (t.replaceRows p.conf.keyAsUniqField async n.rows).rows
    split
    · refine NodesCounted.transationUpdateLRU hset ?_
      rintro m hst hd
      obtain rfl := Option.some.inj hst
      exact (hm n hn).trans hd
    · split
      · next hc =>
        have hkey : p.keyDirty = false := by
          rw [Bool.and_eq_true, Bool.not_eq_true'] at hc
          exact hc.1
        exact hset.purged rfl ((hm n hn).symm.trans hkey)
      · exact hset

theorem NodesCounted.insertNode (h : NodesCounted p) (hn : p.stNode = some n) (hm : n.dirty = true → p.keyDirty = true)
    (ok : p.insertNodeOk t async setrows n = true) : NodesCounted (p.insertNode t async setrows n) := by
  unfold insertNodeOk at ok
  unfold CacheProcess.insertNode
  cases ha : p.appendData t async setrows n with
  | duplicate => exact h
  | failed rows =>
    rw [ha] at ok
    dsimp only at ok ⊢
    split
    · next hc =>
      simp only [Bool.and_eq_true, Bool.not_eq_true'] at hc
      exact h.purged hn (by simpa [hc] using ok)
    · exact h.setRows hn rows
  | done d =>
    have hup : NodesCounted ((p.setNode { n with rows := d.rows }).transationUpdateLRU async lruWrite) := by
      refine NodesCounted.transationUpdateLRU (h.setRows hn _) ?_
      rintro m hst
      obtain rfl := Option.some.inj hst
      exact hm
    dsimp only
    split <;> exact hup

theorem NodesCounted.cacheInsertRow (h : NodesCounted p) (hm : Marked p)
    (ok : p.stNode.all (p.insertNodeOk t async setrows) = true) : NodesCounted (p.cacheInsertRow t async setrows) := by
  unfold CacheProcess.cacheInsertRow
  cases hn : p.stNode with
  | some n =>
    rw [hn] at ok
    exact h.insertNode hn (fun hd => (hm n hn).trans hd) ok
  | none =>
    dsimp only
    have hnew := h.insertEmptyNode (t := t) hn
    split
    · split
      · exact hnew.purged rfl rfl
      · refine hnew.insertNode rfl nofun ?_
        unfold insertNodeOk
        split
        · simp [emptyNode]
        · rfl
    · exact h

theorem NodesCounted.deleteNode {q : CacheProcess κ ρ} {oldRows : Nat} {k : Int} (h : NodesCounted q)
    (hn : q.stNode = some n) (hm : q.keyDirty = n.dirty) : NodesCounted (q.deleteNode oldRows k) := by
  have hcount := (nodesCounted_some hn).mp h
  unfold CacheProcess.deleteNode
  dsimp only
  rw [hm]
  split
  · next hd =>
    rw [hd, Bool.toNat_true] at hcount
    rw [nodesCounted_none rfl]
    dsimp only [purgeNodeEverything, incDirtyRow, incDirtyNode, incTotalRow]
    omega
  · next hd =>
    rw [Bool.eq_false_iff.mpr hd, Bool.toNat_false, Nat.zero_add] at hcount
    exact (nodesCounted_none rfl).mpr hcount

theorem NodesCounted.cacheDeleteRows (h : NodesCounted p) (hm : Marked p) : NodesCounted (p.cacheDeleteRows t) := by
  unfold CacheProcess.cacheDeleteRows
  split
  · exact h
  · next n hn =>
    have hset := h.setRows hn (t.deleteData n.rows).rows
    split
    · exact h.deleteNode hn (hm n hn)
    · dsimp only
      split
      · split
        · exact NodesCounted.deleteNode hset rfl (hm n hn)
        · exact NodesCounted.transationUpdateLRU_clean hset
      · split
        · exact hset
        · next hkey => exact NodesCounted.purged hset rfl ((hm n hn).symm.trans (Bool.eq_false_iff.mpr hkey))

theorem NodesCounted.clrDirty {q : CacheProcess κ ρ} {m : CacheNode κ ρ} (h : NodesCounted q) (hn : q.stNode = some n)
    (hm : q.keyDirty = n.dirty) : NodesCounted (q.clrDirty m) := by
  have hcount := (nodesCounted_some hn).mp h
  unfold CacheProcess.clrDirty
  rw [hm]
  split
  · next hd =>
    rw [hd, Bool.toNat_true] at hcount
    rw [nodesCounted_some rfl]
    dsimp only [setNode, incDirtyNode]
    simp only [Bool.toNat_false]
    omega
  · next hd =>
    rw [Bool.eq_false_iff.mpr hd] at hcount
    rw [nodesCounted_some rfl]
    exact hcount

theorem NodesCounted.cacheFlushData (h : NodesCounted p) : NodesCounted (p.cacheFlushData t).1 := by
  unfold CacheProcess.cacheFlushData
  split
  · exact h
  · next n hn =>
    dsimp only
    split
    · exact NodesCounted.setRows (p := { p with keyDirty := n.dirty }) h hn _
    · exact NodesCounted.transationUpdateLRU_clean
        (NodesCounted.clrDirty (q := { p with keyDirty := n.dirty }.incDirtyRow (t.flushData n).dirtyRowsInc)
          (m := { n with rows := (t.flushData n).rows }) h hn rfl)

theorem NodesCounted.cacheFlushDataBeforeDelete (h : NodesCounted p) (hm : Marked p) :
    NodesCounted (p.cacheFlushDataBeforeDelete t) := by
  unfold CacheProcess.cacheFlushDataBeforeDelete
  split
  · exact h
  · next n hn =>
    dsimp only
    split
    · split
      · exact h.clrDirty hn (hm n hn)
      · exact NodesCounted.clrDirty (q := p.incDirtyRow (t.flushData n).dirtyRowsInc) h hn (hm n hn)
    · exact h.setRows hn _

theorem NodesCounted.release (h : NodesCounted p) : NodesCounted p.release := (nodesCounted_none rfl).mpr h

theorem NodesCounted.transationBegin (h : NodesCounted p) : NodesCounted p.transationBegin := (nodesCounted_none rfl).mpr h

theorem NodesCounted.transationEnd (h : NodesCounted p) : NodesCounted p.transationEnd := by
  unfold CacheProcess.transationEnd
  split
  · exact h.release
  · next n hn =>
    split
    · exact (nodesCounted_none rfl).mpr ((nodesCounted_some hn).mp h)
    · exact h.release

theorem NodesCounted.discard {i : Nat} (h : NodesCounted p) (hi : p.pool[i]? = some n) (h0 : n.dirty = false) :
    NodesCounted { p with pool := p.pool.eraseIdx i } := by
  rw [nodesCounted_iff, total_eraseIdx hi, h0, Bool.toNat_false, Nat.zero_add] at h
  exact nodesCounted_iff.mpr h

theorem NodesCounted.purgeClean {i : Nat} (h : NodesCounted p)
    (ok : (p.pool[i]?).all (fun n => decide (n.lru ≠ .clean) || !n.dirty) = true) : NodesCounted (p.purgeClean i) := by
  unfold CacheProcess.purgeClean
  split
  · exact h
  · next n hi =>
    split
    · next hl => exact h.discard hi (by simpa [hi, hl] using ok)
    · exact h

theorem NodesCounted.purgeSingleEmptyNode {i : Nat} (h : NodesCounted p)
    (ok : (p.pool[i]?).all (fun n => decide (n.lru ≠ .empty) || !n.dirty) = true) :
    NodesCounted (p.purgeSingleEmptyNode i) := by
  unfold CacheProcess.purgeSingleEmptyNode
  split
  · exact h
  · next n hi =>
    split
    · next hl => exact h.discard hi (by simpa [hi, hl] using ok)
    · exact h

theorem NodesCounted.cacheFlushDataTimer {i : Nat} (h : NodesCounted p) : NodesCounted (p.cacheFlushDataTimer t i) := by
  have hb := (nodesCounted_none rfl).mp h.transationBegin
  have hbd : p.transationBegin.niDirtyNode = p.niDirtyNode := rfl
  rcases p.cacheFlushDataTimer_cases t i with heq | ⟨n, m, hi, -, hpool, hst, -, -, hd⟩
  · rw [heq]
    exact h.transationBegin
  · have h1 := total_set (w := (·.dirty.toNat)) m hi
    rw [nodesCounted_none hst, hpool]
    rcases hd with ⟨-, hclean, hcount⟩ | ⟨hcount, hsame, -⟩
    · rw [hclean] at h1
      cases hn : n.dirty <;> simp only [hn, if_true, Bool.false_eq_true, if_false, Bool.toNat_true, Bool.toNat_false]
        at h1 hcount <;> omega
    · rw [hsame] at h1
      omega

variable [DecidableEq κ]

theorem NodesCounted.found {key : κ} {rest : List (CacheNode κ ρ)} (h : NodesCounted p)
    (hf : p.findNode key = some (n, rest)) :
    p.niDirtyNode = ((n.dirty.toNat + total (·.dirty.toNat) rest : Nat) : Int) % 2 ^ 32 := by
  unfold NodesCounted totalDirtyNodes at h
  rwa [findNode_total (fun _ _ => rfl) hf] at h

theorem NodesCounted.find {key : κ} {isset : Bool} (h : NodesCounted p) :
    NodesCounted (p.transationFindNode key isset) := by
  unfold transationFindNode
  split
  · exact h.release
  split
  · exact h.release
  · next n rest hf => exact (nodesCounted_some rfl).mpr (h.found hf)

theorem marked_find {key : κ} {isset : Bool} : Marked (p.transationFindNode key isset) := by
  intro n hn
  unfold transationFindNode at hn ⊢
  split at hn
  · cases hn
  · next hc =>
    rw [if_neg hc]
    split at hn
    · cases hn
    · obtain rfl := Option.some.inj hn
      rfl

theorem NodesCounted.cachePurge {key : κ} (h : NodesCounted p) (ok : cleanOk (p.purgedNode key) = true) :
    NodesCounted (p.cachePurge key) := by
  unfold purgedNode cleanOk at ok
  unfold CacheProcess.cachePurge
  split at ok
  · next hst =>
    rw [if_pos hst]
    cases hn : p.stNode with
    | none => exact (nodesCounted_none rfl).mpr ((nodesCounted_none hn).mp h)
    | some n =>
      rw [hn] at ok
      exact h.purged hn (by simpa using ok)
  · next hst =>
    rw [if_neg hst]
    split
    · exact h
    · next n rest hf =>
      rw [hf] at ok
      have h0 : n.dirty = false := by simpa using ok
      rw [nodesCounted_iff, total_perm (takeOut_perm hf), total_cons, h0, Bool.toNat_false, Nat.zero_add] at h
      exact nodesCounted_iff.mpr h

theorem NodesCounted.cachePurgeData (h : NodesCounted p) (ok : p.stNode.all (p.purgeNodeOk t) = true) :
    NodesCounted (p.cachePurgeData t) := by
  unfold CacheProcess.cachePurgeData
  cases hn : p.stNode with
  | none => exact h
  | some n =>
    rw [hn] at ok
    have ok : p.purgeNodeOk t n = true := ok
    unfold purgeNodeOk at ok
    dsimp only
    split at ok
    · next hc =>
      rw [if_pos hc]
      have hr := h.cacheFlushData (t := t)
      split
      · next hp =>
        obtain ⟨hst, hpool, hconf, -⟩ := cacheFlushData_pending hn hc.2 hp
        have hsame : (p.cacheFlushData t).1.purgesStNode (p.key t) = p.purgesStNode (p.key t) := by
          unfold purgesStNode purgeHash holds
          rw [hst, hpool, hconf, hn]
        have hhash : (p.cacheFlushData t).1.purgeHash (p.key t) = p.purgeHash (p.key t) := by
          unfold purgeHash holds
          rw [hst, hpool, hconf, hn]
        refine NodesCounted.cachePurge (p := (p.cacheFlushData t).1.incTotalRow (0 - n.rows.length)) hr ?_
        show cleanOk ((p.cacheFlushData t).1.purgedNode (p.key t)) = true
        unfold purgedNode at ok ⊢
        rw [hsame, hhash, hpool, hst]
        split
        · rfl
        · next hno => simpa [hp, hno] using ok
      · exact hr
    · next hc =>
      rw [if_neg hc]
      exact NodesCounted.cachePurge (p := p.incTotalRow (0 - n.rows.length)) h ok

theorem NodesCounted.cacheReplaceResult (h : NodesCounted p)
    (ok : (if p.conf.emptyFilter && t.result.isEmpty then cleanOk (p.purgedNode (p.key t))
      else !t.chunkFails || cleanOk p.stNode) = true) : NodesCounted (p.cacheReplaceResult t) := by
  unfold CacheProcess.cacheReplaceResult
  split at ok
  · next hc =>
    rw [if_pos hc]
    exact h.cachePurge ok
  · next hc =>
    rw [if_neg hc]
    cases hn : p.stNode with
    | some n =>
      rw [hn] at ok
      dsimp only
      unfold CacheProcess.replaceNode
      split
      · next hf => exact h.purged hn (by simpa [hf, cleanOk] using ok)
      · exact NodesCounted.transationUpdateLRU_clean (h.setRows hn _)
    | none =>
      dsimp only
      have hnew := h.insertEmptyNode (t := t) hn
      split
      · unfold CacheProcess.replaceNode
        split
        · exact hnew.purged rfl rfl
        · exact NodesCounted.transationUpdateLRU_clean (hnew.setRows rfl _)
      · exact h

theorem NodesCounted.perform {w : CacheWork} (h : NodesCounted p) (hm : Marked p) (ok : p.workNodesOk t w = true) :
    NodesCounted (p.perform t w) := by
  cases w with
  | none => exact h
  | getData => exact h.transationUpdateLRU_clean
  | replaceResult => exact h.cacheReplaceResult ok
  | insertRow async setrows => exact h.cacheInsertRow hm ok
  | updateRows async setrows => exact h.cacheUpdateRows hm ok
  | replaceRows async => exact h.cacheReplaceRows hm
  | deleteRows => exact h.cacheDeleteRows hm
  | purgeData => exact h.cachePurgeData ok
  | flushData => exact h.cacheFlushData
  | flushBeforeDelete => exact h.cacheFlushDataBeforeDelete hm

theorem NodesCounted.performed {r : CacheProcess κ ρ × CacheWork} (h : NodesCounted p) (hd : Decided p r)
    (ok : r.1.workNodesOk t r.2 = true) : NodesCounted (r.1.perform t r.2) := by
  rcases hd with rfl | ⟨key, isset, hr⟩
  · exact h
  · have hfound : NodesCounted r.1 := hr ▸ h.find
    exact hfound.perform (hr ▸ marked_find) ok

theorem NodesCounted.touchNode {key : κ} (h : NodesCounted p) : NodesCounted (p.touchNode key) := by
  unfold CacheProcess.touchNode
  split
  · exact h.release
  · next n rest hf => exact (nodesCounted_none rfl).mpr (h.found hf)

theorem NodesCounted.cacheAdjustLru {key : κ} (h : NodesCounted p) : NodesCounted (p.cacheAdjustLru key) := by
  unfold CacheProcess.cacheAdjustLru
  split
  · exact h.release
  · next n rest hf => exact (nodesCounted_none rfl).mpr (h.found (n := n) hf)

theorem NodesCounted.cacheMigrated {key : κ} (h : NodesCounted p)
    (ok : cleanOk ((p.findNode key).map (·.1)) = true) : NodesCounted (p.cacheMigrated key) := by
  unfold CacheProcess.cacheMigrated
  split
  · exact h.release
  · next n rest hf =>
    have h0 : n.dirty = false := by simpa [hf, cleanOk] using ok
    have hcount := h.found hf
    rw [h0, Bool.toNat_false, Nat.zero_add] at hcount
    exact (nodesCounted_none rfl).mpr hcount

theorem NodesCounted.replaceRawNode {key : κ} {rows : List (CacheRow ρ)} {lru : LruList} {allocates chunkFails : Bool}
    (h : NodesCounted p) (ok : (!chunkFails || p.conf.nodbMode || cleanOk ((p.findNode key).map (·.1))) = true) :
    NodesCounted (p.replaceRawNode key rows lru allocates chunkFails) := by
  unfold CacheProcess.replaceRawNode
  split
  · next n rest hf =>
    have hcount := h.found hf
    dsimp only
    split
    · next hc =>
      split
      · exact (nodesCounted_none rfl).mpr hcount
      · next hdb =>
        have h0 : n.dirty = false := by simpa [hf, hc, hdb, cleanOk] using ok
        rw [h0, Bool.toNat_false, Nat.zero_add] at hcount
        exact (nodesCounted_none rfl).mpr hcount
    · exact (nodesCounted_none rfl).mpr hcount
  · have hr := (nodesCounted_none rfl).mp h.release
    have hnew : ∀ n : CacheNode κ ρ, n.dirty = false → NodesCounted { p.release with pool := n :: p.release.pool } := by
      intro n h0
      rw [nodesCounted_none rfl, total_cons, h0, Bool.toNat_false, Nat.zero_add]
      exact hr
    dsimp only
    split
    · split
      · split
        · exact hnew _ rfl
        · exact h.release
      · exact hnew _ rfl
    · exact h.release

theorem NodesCounted.cacheStep {a : CacheAction κ ρ} (h : NodesCounted p) (ok : p.stepNodesOk a = true) :
    NodesCounted (p.cacheStep a) := by
  cases a with
  | begin => exact h.transationBegin
  | finish => exact h.transationEnd
  | request t => exact h.performed handled_handles.decided ok
  | reply t => exact h.performed handled_reply.decided ok
  | error t code => exact h.performed handled_error.decided ok
  | batchGet t => exact h.find.transationUpdateLRU_clean
  | purgeClean i => exact h.purgeClean ok
  | purgeEmpty i => exact h.purgeSingleEmptyNode ok
  | flushTimer i t => exact h.cacheFlushDataTimer
  | purgeKey key => exact h.release.cachePurge ok
  | replaceRaw key rows allocates chunkFails => exact h.replaceRawNode ok
  | migrate key rows dirty allocates chunkFails => exact h.replaceRawNode ok
  | migrated key => exact h.cacheMigrated ok
  | touch key => exact h.touchNode
  | adjustLru key => exact h.cacheAdjustLru
  | configure hash => exact h

end Nodes
end CacheProcess

open CacheProcess

/-- **The counter of dirty nodes is right after every run whose steps keep it**: requests, replies, errors, flushes,
purges and admin commands in any order. -/
theorem cacheMachine_countsNodes {κ ρ : Type} [DecidableEq κ] {p : CacheProcess κ ρ}
    (h : (cacheMachine κ ρ).ReachableMeeting (fun p a => p.stepNodesOk a = true) p) : NodesCounted p := by
  refine Machine.reachableMeeting_induct (cacheMachine κ ρ) ?_ ?_ h
  · rintro p ⟨conf, rfl⟩
    exact rfl
  · intro p a p' hp hok hst
    obtain rfl := Option.some.inj hst
    exact hp.cacheStep hok

theorem cacheMachine_countsNodes_mixedRun : ∃ p, (cacheMachine Nat Nat).run { conf := asyncConf } mixedRun = some p ∧
    p.niDirtyNode = 1 ∧ NodesCounted p := by
  have hrun : ((cacheMachine Nat Nat).run { conf := asyncConf } mixedRun).map (·.niDirtyNode) = some 1 := by
    decide
  obtain ⟨p, hp, hcount⟩ := Option.map_eq_some_iff.mp hrun
  have hmeets : (cacheMachine Nat Nat).RunMeets (fun p a => p.stepNodesOk a = true) { conf := asyncConf }
      mixedRun := by decide
  exact ⟨p, hp, hcount, cacheMachine_countsNodes ⟨_, _, ⟨_, rfl⟩, hmeets, hp⟩⟩

/-- Updates go to the cache and inserts to the database first.  The row of an insert that the database has done does not
fit into memory: the node is purged, and it was dirty. -/
theorem cacheMachine_dirtyPurge : ∃ p, (cacheMachine Nat Nat).Reachable p ∧ p.totalDirtyNodes = 0 ∧ p.niDirtyNode = 1 := by
  have hrun : ((cacheMachine Nat Nat).run { conf := { asyncConf with insertMode := .sync } }
      [.begin, .request (numberTask .get), .finish, .begin, .reply { numberTask .get with result := [3] }, .finish,
        .begin, .request (numberTask .update), .finish, .begin, .request (numberTask .insert), .finish,
        .begin, .reply { numberTask .insert with faults := { insert := true } }, .finish]).map
          (fun p => (p.totalDirtyNodes, p.niDirtyNode)) = some (0, 1) := by decide
  obtain ⟨p, hp, hcount⟩ := Option.map_eq_some_iff.mp hrun
  obtain ⟨hn, hd⟩ := Prod.mk.inj hcount
  exact ⟨p, ⟨_, _, ⟨_, rfl⟩, hp⟩, hn, hd⟩

end Dtc
