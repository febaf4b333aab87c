import DtcServer.EmptyCount
/-!
# EmptyCountRun — the counter of empty nodes over whole runs

A handler goes by `nodeEmpty`, so the counter is right as long as `nodeEmpty` says that the node of the transation is on the
empty list, and as long as no one else takes a node off that list.
-/
namespace Dtc

open Tally

namespace CacheProcess

variable {κ ρ : Type}

section Listed

variable {on : Bool} {b : Int} {p : CacheProcess κ ρ} {c : Int} {t : CacheTask κ ρ} {n m : CacheNode κ ρ} {async setrows : Bool}

theorem emptyNodes_some (h : p.stNode = some n) :
    p.emptyNodes = (decide (n.lru = .empty)).toNat + total (fun n => (decide (n.lru = .empty)).toNat) p.pool := by
  unfold emptyNodes nodes
  rw [total_append, h]
  rfl

theorem emptyNodes_none (h : p.stNode = none) :
    p.emptyNodes = total (fun n => (decide (n.lru = .empty)).toNat) p.pool := by
  unfold emptyNodes nodes
  rw [h]
  rfl

/-- **The counter is right** and within the bound, and `nodeEmpty` says whether the node of the transation is on the empty
list; `on` is for a server with a limit. -/
def EmptyListed (on : Bool) (b : Int) (p : CacheProcess κ ρ) (c : Int) : Prop :=
  c = p.emptyNodes ∧ p.conf.emptyLimit = on ∧ c ≤ b ∧
    ∀ n, p.stNode = some n → (n.lru = .empty ↔ on = true ∧ p.nodeEmpty = true)

theorem EmptyListed.setNode (h : EmptyListed on b p c) (hn : p.stNode = some n) (hm : m.lru = n.lru) :
    EmptyListed on b (p.setNode m) c := by
  obtain ⟨hcount, hconf, hle, hflag⟩ := h
  refine ⟨?_, hconf, hle, fun x hx => ?_⟩
  · rw [hcount, emptyNodes_some hn, emptyNodes_some rfl, hm]
    rfl
  · obtain rfl := Option.some.inj hx
    rw [hm]
    exact hflag n hn

theorem EmptyListed.left (h : EmptyListed on b p c) (hn : p.stNode = some n) :
    (if p.nodeEmpty then p.decEmptyNode else 0) = -((decide (n.lru = .empty)).toNat : Int) := by
  obtain ⟨-, hconf, -, hflag⟩ := h
  have hlru := hflag n hn
  unfold decEmptyNode
  rw [hconf]
  cases on with
  | false =>
    rw [decide_eq_false (fun he => Bool.false_ne_true (hlru.mp he).1)]
    split <;> rfl
  | true =>
    cases he : p.nodeEmpty with
    | false =>
      rw [decide_eq_false (fun hl => Bool.false_ne_true (he.symm.trans (hlru.mp hl).2))]
      rfl
    | true =>
      rw [decide_eq_true (hlru.mpr ⟨rfl, he⟩)]
      rfl

theorem EmptyListed.transationUpdateLRU {level : Nat} (h : EmptyListed on b p c) :
    EmptyListed on b (p.transationUpdateLRU async level) (c + p.updateLRUInc async) := by
  have hstay : p.stNode = none ∨ p.keyDirty = true ∨ async = false → p.updateLRUInc async = 0 := by
    intro hc
    unfold updateLRUInc
    rw [if_neg]
    rcases hc with hc | hc | hc <;> rw [hc] <;> simp
  unfold CacheProcess.transationUpdateLRU
  split
  · next hn =>
    rw [hstay (.inl hn), Int.add_zero]
    exact h
  · next n hn =>
    split
    · next hkey =>
      rw [hstay (.inr (.inl hkey)), Int.add_zero]
      exact h
    · next hkey =>
      split
      · next hasync =>
        have hinc : p.updateLRUInc async = if p.nodeEmpty then p.decEmptyNode else 0 := by
          unfold updateLRUInc
          rw [hn, Bool.eq_false_iff.mpr hkey, hasync]
          rfl
        rw [hinc, h.left hn]
        obtain ⟨hcount, hconf, hle, -⟩ := h
        refine ⟨?_, hconf, by omega, fun x hx => ?_⟩
        · rw [hcount, emptyNodes_some hn, emptyNodes_some rfl]
          dsimp only [incDirtyNode]
          rw [decide_eq_false (by decide : ¬ LruList.dirty = LruList.empty), Bool.toNat_false]
          omega
        · obtain rfl := Option.some.inj hx
          exact iff_of_false (fun he => by cases he) (fun he => Bool.false_ne_true he.2)
      · next hasync =>
        rw [hstay (.inr (.inr (Bool.eq_false_iff.mpr hasync))), Int.add_zero]
        exact h

theorem EmptyListed.purgeNodeEverything (h : EmptyListed on b p c) :
    EmptyListed on b p.purgeNodeEverything (c + p.notifyInc) := by
  unfold notifyInc
  cases hn : p.stNode with
  | none =>
    rw [Option.isSome_none, Bool.false_and, if_neg Bool.false_ne_true, Int.add_zero]
    obtain ⟨hcount, hconf, hle, -⟩ := h
    exact ⟨hcount.trans (by rw [emptyNodes_none hn, emptyNodes_none rfl]; rfl), hconf, hle, fun x hx => (nomatch hx)⟩
  | some n =>
    rw [Option.isSome_some, Bool.true_and, h.left hn]
    obtain ⟨hcount, hconf, hle, -⟩ := h
    refine ⟨?_, hconf, by omega, fun x hx => (nomatch hx)⟩
    rw [hcount, emptyNodes_some hn, emptyNodes_none rfl]
    dsimp only [CacheProcess.purgeNodeEverything]
    omega

theorem EmptyListed.insertEmptyNode (h : EmptyListed on b p c) (hn : p.stNode = none) :
    EmptyListed on b (p.insertEmptyNode t) c := by
  obtain ⟨hcount, hconf, hle, -⟩ := h
  refine ⟨?_, hconf, hle, fun x hx => ?_⟩
  · rw [hcount, emptyNodes_none hn, emptyNodes_some rfl, decide_eq_false (fun he => by cases he)]
    exact congrArg Nat.cast (Nat.zero_add _).symm
  · obtain rfl := Option.some.inj hx
    exact iff_of_false (fun he => by cases he) (fun he => Bool.false_ne_true he.2)

theorem EmptyListed.updateNode (h : EmptyListed on b p c) (hn : p.stNode = some n) (hm : m.lru = n.lru) :
    EmptyListed on b (p.updateNode t async setrows m) (c + p.updateNodeInc t async setrows m) := by
  have hset : EmptyListed on b (p.setNode { m with rows := (t.updateData async m.rows).rows }) c := h.setNode hn hm
  unfold CacheProcess.updateNode updateNodeInc
  dsimp only
  split
  · exact hset.transationUpdateLRU
  · split
    · exact hset.purgeNodeEverything
    · exact hset.transationUpdateLRU

theorem EmptyListed.cacheUpdateRows (h : EmptyListed on b p c) :
    EmptyListed on b (p.cacheUpdateRows t async setrows) (c + p.cacheUpdateRowsInc t async setrows) := by
  unfold CacheProcess.cacheUpdateRows cacheUpdateRowsInc CacheProcess.insertDefaultRow insertDefaultRowInc
  by_cases he : p.conf.replaceEmpty = true
  · rw [if_pos he, if_pos he]
    rcases hn : p.stNode with _ | n
    · dsimp only
      have hnew := h.insertEmptyNode (t := t) hn
      by_cases ha : t.allocates = true
      · rw [if_pos ha, ha, Bool.true_and]
        by_cases hc : t.chunkFails = true
        · rw [if_pos hc, if_pos hc, Int.add_zero]
          exact hnew.purgeNodeEverything
        · rw [if_neg hc, if_neg hc, Int.zero_add]
          exact hnew.updateNode rfl rfl
      · rw [if_neg ha, Bool.eq_false_iff.mpr ha, Bool.false_and, if_neg Bool.false_ne_true, Int.add_zero, Int.add_zero]
        exact h
    · dsimp only
      by_cases hr : n.rows.isEmpty = true
      · rw [if_pos hr, hr, Bool.true_and]
        by_cases hc : t.chunkFails = true
        · rw [if_pos hc, if_pos hc, Int.add_zero]
          exact h.purgeNodeEverything
        · rw [if_neg hc, if_neg hc, Int.zero_add]
          exact h.updateNode hn rfl
      · rw [if_neg hr, Bool.eq_false_iff.mpr hr, Bool.false_and, if_neg Bool.false_ne_true, Int.zero_add]
        exact h.updateNode hn rfl
  · rw [if_neg he, if_neg he, Int.zero_add]
    rcases hn : p.stNode with _ | n
    · rw [Int.add_zero]
      exact h
    · exact h.updateNode hn rfl

theorem EmptyListed.cacheReplaceRows (h : EmptyListed on b p c) :
    EmptyListed on b (p.cacheReplaceRows t async) (c + p.cacheReplaceRowsInc t async) := by
  unfold CacheProcess.cacheReplaceRows cacheReplaceRowsInc
  rcases hn : p.stNode with _ | n
  · rw [Int.add_zero]
    exact h
  · have hset : EmptyListed on b (p.setNode { n with rows := (t.replaceRows p.conf.keyAsUniqField async n.rows).rows }) c :=
      h.setNode hn rfl
    dsimp only
    split
    · exact EmptyListed.transationUpdateLRU hset
    · split
      · exact hset.purgeNodeEverything
      · rw [Int.add_zero]
        exact hset

theorem EmptyListed.insertNode (h : EmptyListed on b p c) (hn : p.stNode = some n) :
    EmptyListed on b (p.insertNode t async setrows n) (c + p.insertNodeInc t async setrows n) := by
  unfold CacheProcess.insertNode insertNodeInc
  cases p.appendData t async setrows n with
  | duplicate =>
    dsimp only
    rw [Int.add_zero]
    exact h
  | failed rows =>
    dsimp only
    split
    · exact h.purgeNodeEverything
    · rw [Int.add_zero]
      exact h.setNode hn rfl
  | done d =>
    have hset : EmptyListed on b (p.setNode { n with rows := d.rows }) c := h.setNode hn rfl
    dsimp only
    split <;> exact hset.transationUpdateLRU

theorem EmptyListed.cacheInsertRow (h : EmptyListed on b p c) :
    EmptyListed on b (p.cacheInsertRow t async setrows) (c + p.cacheInsertRowInc t async setrows) := by
  unfold CacheProcess.cacheInsertRow cacheInsertRowInc
  rcases hn : p.stNode with _ | n
  · have hnew := h.insertEmptyNode (t := t) hn
    dsimp only
    split
    · split
      · exact hnew.purgeNodeEverything
      · exact hnew.insertNode rfl
    · rw [Int.add_zero]
      exact h
  · exact h.insertNode hn

theorem EmptyListed.deleteNode {q : CacheProcess κ ρ} {oldRows : Nat} {k : Int} (h : EmptyListed on b q c) :
    EmptyListed on b (q.deleteNode oldRows k) (c + q.notifyInc) := by
  unfold CacheProcess.deleteNode
  dsimp only
  split <;> exact h.purgeNodeEverything

theorem EmptyListed.cacheDeleteRows (h : EmptyListed on b p c) :
    EmptyListed on b (p.cacheDeleteRows t) (c + p.cacheDeleteRowsInc t) := by
  unfold CacheProcess.cacheDeleteRows cacheDeleteRowsInc
  rcases hn : p.stNode with _ | n
  · rw [Int.add_zero]
    exact h
  · have hset : EmptyListed on b (p.setNode { n with rows := (t.deleteData n.rows).rows }) c := h.setNode hn rfl
    dsimp only
    split
    · exact h.deleteNode
    · split
      · split
        · exact hset.deleteNode
        · exact EmptyListed.transationUpdateLRU hset
      · split
        · rw [Int.add_zero]
          exact hset
        · exact EmptyListed.purgeNodeEverything hset

theorem EmptyListed.cacheFlushData (h : EmptyListed on b p c) : EmptyListed on b (p.cacheFlushData t).1 c := by
  have hno : ∀ q : CacheProcess κ ρ, q.updateLRUInc false = 0 := by
    intro q
    unfold updateLRUInc
    rw [Bool.and_false, Bool.false_and, if_neg Bool.false_ne_true]
  unfold CacheProcess.cacheFlushData
  split
  · exact h
  · next n hn =>
    dsimp only
    split
    · exact EmptyListed.setNode (p := { p with keyDirty := n.dirty }) h hn rfl
    · have hclr : EmptyListed on b ({ p with keyDirty := n.dirty }.incDirtyRow (t.flushData n).dirtyRowsInc |>.clrDirty
          { n with rows := (t.flushData n).rows }) c := by
        unfold clrDirty
        split <;> exact EmptyListed.setNode (p := p) (m := { n with rows := (t.flushData n).rows, dirty := false }) h hn rfl
      have hup := @EmptyListed.transationUpdateLRU _ _ on b
        { ({ p with keyDirty := n.dirty }.incDirtyRow (t.flushData n).dirtyRowsInc |>.clrDirty
          { n with rows := (t.flushData n).rows }) with keyDirty := false } c false lruAlways hclr
      rwa [hno, Int.add_zero] at hup

theorem EmptyListed.cacheFlushDataBeforeDelete (h : EmptyListed on b p c) (hd : p.nodeEmpty = false) :
    EmptyListed on b (p.cacheFlushDataBeforeDelete t) c := by
  unfold CacheProcess.cacheFlushDataBeforeDelete
  split
  · exact h
  · next n hn =>
    have hlru : n.lru ≠ .empty := fun he => Bool.false_ne_true (hd.symm.trans ((h.2.2.2 n hn).mp he).2)
    have hmoved : ∀ m : CacheNode κ ρ, m.lru = .clean → EmptyListed on b (p.setNode m) c := by
      intro m hm
      obtain ⟨hcount, hconf, hle, -⟩ := h
      refine ⟨?_, hconf, hle, fun x hx => ?_⟩
      · rw [hcount, emptyNodes_some hn, emptyNodes_some rfl, hm, decide_eq_false hlru,
          decide_eq_false (by decide : ¬ LruList.clean = LruList.empty)]
        rfl
      · obtain rfl := Option.some.inj hx
        rw [hm]
        exact iff_of_false (by decide) (fun he => Bool.false_ne_true (hd.symm.trans he.2))
    dsimp only
    split
    · unfold clrDirty
      split <;> split <;> exact hmoved { n with rows := (t.flushData n).rows, lru := .clean, dirty := false } rfl
    · exact h.setNode hn rfl

theorem EmptyListed.release (h : EmptyListed on b p c) : EmptyListed on b p.release c := by
  obtain ⟨hcount, hconf, hle, -⟩ := h
  exact ⟨hcount, hconf, hle, fun x hx => (nomatch hx)⟩

theorem EmptyListed.transationBegin (h : EmptyListed on b p c) : EmptyListed on b p.transationBegin c := by
  obtain ⟨hcount, hconf, hle, -⟩ := h.release
  exact ⟨hcount, hconf, hle, fun x hx => (nomatch hx)⟩

theorem EmptyListed.transationEnd {b' : Int} (h : EmptyListed on b p c) (hle : c + p.transationEndInc ≤ b') :
    EmptyListed on b' p.transationEnd (c + p.transationEndInc) := by
  have hstay : p.transationEndInc = 0 → EmptyListed on b' p.transationBegin (c + p.transationEndInc) := by
    intro h0
    obtain ⟨hcount, hconf, -, hflag⟩ := h.transationBegin
    rw [h0, Int.add_zero] at hle ⊢
    exact ⟨hcount, hconf, hle, hflag⟩
  unfold transationEndInc at hstay hle ⊢
  unfold CacheProcess.transationEnd
  rcases hn : p.stNode with _ | n
  · rw [hn] at hstay
    exact hstay rfl
  · rw [hn] at hstay hle
    dsimp only at hstay hle ⊢
    by_cases hmove : (!p.keyDirty && !n.dirty && (decide (p.conf.noLRU < p.lruUpdate) || n.rows.isEmpty != p.nodeEmpty)) = true
    · rw [if_pos hmove] at hle ⊢
      rw [if_pos hmove]
      have hleft := h.left hn
      obtain ⟨hcount, hconf, -, -⟩ := h
      refine ⟨?_, hconf, hle, fun x hx => (nomatch hx)⟩
      rw [emptyNodes_some hn] at hcount
      show _ = (total _ (_ :: p.pool) : Int)
      rw [total_cons, hcount]
      clear hcount hle hstay hmove
      unfold decEmptyNode at hleft ⊢
      rw [hconf] at hleft ⊢
      generalize (decide (n.lru = .empty)).toNat = a at hleft ⊢
      cases on <;> cases hr : n.rows.isEmpty <;> cases he : p.nodeEmpty <;> rw [he] at hleft <;> simp at hleft ⊢ <;> omega
    · rw [if_neg hmove] at hstay ⊢
      rw [if_neg hmove]
      exact hstay rfl

theorem transationEndInc_le : p.transationEndInc ≤ 1 := by
  unfold transationEndInc decEmptyNode
  split
  · exact Int.zero_le_ofNat 1
  · split
    · split <;> split <;> (try split) <;> decide
    · exact Int.zero_le_ofNat 1

theorem EmptyListed.purgeClean {i : Nat} (h : EmptyListed on b p c) : EmptyListed on b (p.purgeClean i) c := by
  unfold CacheProcess.purgeClean
  split
  · exact h
  · next n hi =>
    split
    · next hl =>
      obtain ⟨hcount, hconf, hle, hflag⟩ := h
      refine ⟨?_, hconf, hle, hflag⟩
      unfold emptyNodes nodes at hcount ⊢
      rw [total_append, total_eraseIdx hi, hl] at hcount
      rw [hcount]
      dsimp only [incTotalRow]
      rw [total_append, decide_eq_false (by decide : ¬ LruList.clean = LruList.empty), Bool.toNat_false, Nat.zero_add]
    · exact h

theorem EmptyListed.purgeSingleEmptyNode {i : Nat} (h : EmptyListed on (b + 1) p c)
    (hi : (p.pool[i]?).any (fun n => n.lru = .empty) = true) : EmptyListed on b (p.purgeSingleEmptyNode i) (c - 1) := by
  obtain ⟨n, hn, hl⟩ := (Option.any_eq_true _ _).mp hi
  obtain ⟨hcount, hconf, hle, hflag⟩ := h
  unfold CacheProcess.purgeSingleEmptyNode
  rw [Option.mem_def.mp hn]
  dsimp only
  rw [if_pos (of_decide_eq_true hl)]
  refine ⟨?_, hconf, by omega, hflag⟩
  unfold emptyNodes nodes at hcount ⊢
  rw [total_append, total_eraseIdx (Option.mem_def.mp hn), of_decide_eq_true hl, decide_eq_true rfl, Bool.toNat_true] at hcount
  dsimp only
  rw [total_append]
  omega

theorem EmptyListed.cacheFlushDataTimer {i : Nat} (h : EmptyListed on b p c) :
    EmptyListed on b (p.cacheFlushDataTimer t i) c := by
  have hb := h.transationBegin
  rcases p.cacheFlushDataTimer_pool t i with heq | ⟨n, m, hi, hl, hm, -, -, hq, hst, hpool⟩
  · rw [heq]
    exact hb
  · obtain ⟨hcount, hconf, hle, -⟩ := hb
    refine ⟨?_, hq ▸ hconf, hle, fun x hx => (nomatch hst.symm.trans hx)⟩
    have htotal := total_set (w := fun n => (decide (n.lru = .empty)).toNat) m hi
    rw [decide_eq_false hm, decide_eq_false (hl ▸ by decide), Bool.toNat_false] at htotal
    rw [hcount, emptyNodes_none rfl, emptyNodes_none hst, hpool]
    exact congrArg Nat.cast htotal.symm

variable [DecidableEq κ]

theorem EmptyListed.found {key : κ} {rest : List (CacheNode κ ρ)} (h : EmptyListed on b p c)
    (hf : p.findNode key = some (n, rest)) :
    c = ((decide (n.lru = .empty)).toNat + total (fun n => (decide (n.lru = .empty)).toNat) rest : Nat) := by
  rw [h.1, emptyNodes, findNode_total (fun _ _ => rfl) hf]

theorem EmptyListed.find {key : κ} {isset : Bool} (h : EmptyListed on b p c)
    (ok : (p.transationFindNode key isset).nodePlaced = true) : EmptyListed on b (p.transationFindNode key isset) c := by
  unfold transationFindNode at ok ⊢
  split
  · exact h.release
  · next hc =>
    rw [if_neg hc] at ok
    split
    · exact h.release
    · next n rest hf =>
      rw [hf] at ok
      refine ⟨h.found hf, h.2.1, h.2.2.1, fun x hx => ?_⟩
      obtain rfl := Option.some.inj hx
      have hlru : decide (n.lru = .empty) = (p.conf.emptyLimit && (!n.dirty && n.rows.isEmpty)) := eq_of_beq ok
      rw [h.2.1] at hlru
      exact decide_eq_true_iff.symm.trans (by rw [hlru, Bool.and_eq_true])

theorem EmptyListed.takenOut {key : κ} {newhash : Bool} {rest : List (CacheNode κ ρ)} (h : EmptyListed on b p c)
    (hf : takeOut key newhash p.pool = some (n, rest)) (hl : n.lru ≠ .empty) : EmptyListed on b { p with pool := rest } c := by
  obtain ⟨hcount, hconf, hle, hflag⟩ := h
  refine ⟨?_, hconf, hle, hflag⟩
  unfold emptyNodes nodes at hcount ⊢
  rw [total_append, total_perm (takeOut_perm hf), total_cons, decide_eq_false hl, Bool.toNat_false, Nat.zero_add] at hcount
  rw [total_append]
  exact hcount

theorem EmptyListed.cachePurge {key : κ} (h : EmptyListed on b p c) (ok : p.purgeEmptyOk key = true) :
    EmptyListed on b (p.cachePurge key) (c + p.cachePurgeInc key) := by
  unfold purgeEmptyOk purgedNode uncountedEmptyOk at ok
  unfold CacheProcess.cachePurge cachePurgeInc
  by_cases hst : p.purgesStNode key = true
  · rw [if_pos hst, if_pos hst]
    exact h.purgeNodeEverything
  · rw [if_neg hst, Bool.eq_false_iff.mpr hst, Bool.false_or] at ok
    rw [if_neg hst, if_neg hst, Int.add_zero]
    split
    · exact h
    · next n rest hf =>
      rw [hf] at ok
      exact h.takenOut hf (of_decide_eq_true ok)

theorem EmptyListed.cachePurgeData (h : EmptyListed on b p c) (ok : p.workEmptyOk t .purgeData = true) :
    EmptyListed on b (p.cachePurgeData t) (c + p.cachePurgeDataInc t) := by
  unfold workEmptyOk at ok
  unfold CacheProcess.cachePurgeData cachePurgeDataInc
  rcases hn : p.stNode with _ | n
  · rw [Int.add_zero]
    exact h
  · rw [hn, Option.all_some] at ok
    dsimp only at ok ⊢
    by_cases hc : p.conf.updateMode ≠ .sync ∧ n.dirty = true
    · rw [if_pos hc] at ok ⊢
      rw [if_pos hc]
      have hr := h.cacheFlushData (t := t)
      by_cases hp : (p.cacheFlushData t).2 = .pending
      · rw [if_pos hp, if_pos hp]
        refine EmptyListed.cachePurge (p := (p.cacheFlushData t).1.incTotalRow (0 - n.rows.length)) hr ?_
        obtain ⟨hst, hpool, hconf, -⟩ := cacheFlushData_pending hn hc.2 hp
        have hhash : (p.cacheFlushData t).1.purgeHash (p.key t) = p.purgeHash (p.key t) := by
          unfold purgeHash holds
          rw [hst, hpool, hconf, hn]
        have hsame : (p.cacheFlushData t).1.purgesStNode (p.key t) = p.purgesStNode (p.key t) := by
          unfold purgesStNode holds
          rw [hhash, hst, hn]
        rw [decide_eq_false (fun hno => hno hp), Bool.false_or] at ok
        show (p.cacheFlushData t).1.purgeEmptyOk (p.key t) = true
        unfold purgeEmptyOk purgedNode at ok ⊢
        rw [hsame, hhash, hpool]
        split
        · next hps => rw [hps, Bool.true_or]
        · next hps =>
          rw [if_neg hps] at ok
          exact ok
      · rw [if_neg hp, if_neg hp, Int.add_zero]
        exact hr
    · rw [if_neg hc] at ok ⊢
      rw [if_neg hc]
      exact EmptyListed.cachePurge (p := p.incTotalRow (0 - n.rows.length)) h ok

omit [DecidableEq κ] in
theorem EmptyListed.replaceNode {oldRows : Nat} (h : EmptyListed on b p c) (hn : p.stNode = some n) :
    EmptyListed on b (p.replaceNode t n oldRows) (c + p.replaceNodeInc t n) := by
  unfold CacheProcess.replaceNode replaceNodeInc
  split
  · exact h.purgeNodeEverything
  · exact EmptyListed.transationUpdateLRU
      (p := (p.setNode { n with rows := t.result.map (fun v => ⟨false, v⟩) }).incTotalRow (t.result.length - n.rows.length))
      (h.setNode hn rfl)

theorem EmptyListed.cacheReplaceResult (h : EmptyListed on b p c) (ok : p.workEmptyOk t .replaceResult = true) :
    EmptyListed on b (p.cacheReplaceResult t) (c + p.cacheReplaceResultInc t) := by
  unfold workEmptyOk at ok
  unfold CacheProcess.cacheReplaceResult cacheReplaceResultInc
  by_cases hc : (p.conf.emptyFilter && t.result.isEmpty) = true
  · rw [hc, Bool.not_true, Bool.false_or] at ok
    rw [if_pos hc, if_pos hc]
    exact h.cachePurge ok
  · rw [if_neg hc, if_neg hc]
    rcases hn : p.stNode with _ | n
    · dsimp only
      split
      · exact (h.insertEmptyNode hn).replaceNode rfl
      · rw [Int.add_zero]
        exact h
    · exact h.replaceNode hn

theorem EmptyListed.perform {w : CacheWork} (h : EmptyListed on b p c) (ok : p.workEmptyOk t w = true)
    (hd : w = .flushBeforeDelete → p.nodeEmpty = false) : EmptyListed on b (p.perform t w) (c + p.performInc t w) := by
  cases w with
  | none =>
    unfold performInc
    rw [Int.add_zero]
    exact h
  | getData => exact h.transationUpdateLRU
  | replaceResult => exact h.cacheReplaceResult ok
  | insertRow async setrows => exact h.cacheInsertRow
  | updateRows async setrows => exact h.cacheUpdateRows
  | replaceRows async => exact h.cacheReplaceRows
  | deleteRows => exact h.cacheDeleteRows
  | purgeData => exact h.cachePurgeData ok
  | flushData =>
    unfold performInc
    rw [Int.add_zero]
    exact h.cacheFlushData
  | flushBeforeDelete =>
    unfold performInc
    rw [Int.add_zero]
    exact h.cacheFlushDataBeforeDelete (hd rfl)

theorem nodeEmpty_of_nodeDirty {key : κ} {isset : Bool} (h : (p.transationFindNode key isset).nodeDirty = true) :
    (p.transationFindNode key isset).nodeEmpty = false := by
  unfold transationFindNode at h ⊢
  split
  · next hc =>
    rw [if_pos hc] at h
    exact absurd h Bool.false_ne_true
  · next hc =>
    rw [if_neg hc] at h
    split
    · next hf =>
      rw [hf] at h
      exact absurd h Bool.false_ne_true
    · next n rest hf =>
      rw [hf] at h
      have hd : n.dirty = true := h
      dsimp only
      rw [hd, Bool.not_true, Bool.false_and]

theorem EmptyListed.performed {u : CacheTask κ ρ} {r : CacheProcess κ ρ × CacheWork} (h : EmptyListed on b p c)
    (hd : Handled p t r) (ok : (r.1.nodePlaced && r.1.workEmptyOk u r.2) = true) :
    EmptyListed on b (r.1.perform u r.2) (c + r.1.performInc u r.2) := by
  obtain ⟨hplaced, hwork⟩ := Bool.and_eq_true_iff.mp ok
  obtain rfl | ⟨key, w, rfl, hf⟩ := hd
  · exact h.perform hwork nofun
  · exact (h.find hplaced).perform hwork (fun hw => nodeEmpty_of_nodeDirty (hf hw))

theorem EmptyListed.touchNode {key : κ} (h : EmptyListed on b p c) : EmptyListed on b (p.touchNode key) c := by
  unfold CacheProcess.touchNode
  split
  · exact h.release
  · next n rest hf => exact ⟨h.found hf, h.2.1, h.2.2.1, fun x hx => (nomatch hx)⟩

theorem EmptyListed.moved {key : κ} {rest pool : List (CacheNode κ ρ)} (h : EmptyListed on b p c)
    (hf : p.findNode key = some (n, rest)) (hl : n.lru ≠ .empty)
    (hpool : total (fun n => (decide (n.lru = .empty)).toNat) pool = total (fun n => (decide (n.lru = .empty)).toNat) rest) :
    EmptyListed on b { p with pool := pool, stNode := none } c := by
  refine ⟨?_, h.2.1, h.2.2.1, fun x hx => (nomatch hx)⟩
  rw [h.found hf, decide_eq_false hl, Bool.toNat_false, Nat.zero_add, ← hpool]
  rfl

theorem EmptyListed.cacheAdjustLru {key : κ} (h : EmptyListed on b p c)
    (ok : uncountedEmptyOk ((p.findNode key).map (·.1)) = true) : EmptyListed on b (p.cacheAdjustLru key) c := by
  unfold CacheProcess.cacheAdjustLru
  split
  · exact h.release
  · next n rest hf =>
    rw [hf] at ok
    refine h.moved hf (of_decide_eq_true ok) ?_
    rw [total_cons]
    exact Nat.zero_add _

theorem EmptyListed.cacheMigrated {key : κ} (h : EmptyListed on b p c)
    (ok : uncountedEmptyOk ((p.findNode key).map (·.1)) = true) : EmptyListed on b (p.cacheMigrated key) c := by
  unfold CacheProcess.cacheMigrated
  split
  · exact h.release
  · next n rest hf =>
    rw [hf] at ok
    exact h.moved hf (of_decide_eq_true ok) rfl

theorem EmptyListed.replaceRawNode {key : κ} {rows : List (CacheRow ρ)} {lru : LruList} {allocates chunkFails : Bool}
    (h : EmptyListed on b p c) (hlru : lru ≠ .empty) (ok : uncountedEmptyOk ((p.findNode key).map (·.1)) = true) :
    EmptyListed on b (p.replaceRawNode key rows lru allocates chunkFails) c := by
  unfold CacheProcess.replaceRawNode
  split
  · next n rest hf =>
    rw [hf] at ok
    have hcons : ∀ m : CacheNode κ ρ, m.lru = lru →
        EmptyListed on b { p with pool := m :: rest, stNode := none } c := by
      intro m hm
      refine h.moved hf (of_decide_eq_true ok) ?_
      rw [total_cons, hm, decide_eq_false hlru, Bool.toNat_false, Nat.zero_add]
    dsimp only
    split
    · split
      · exact hcons _ rfl
      · exact h.moved hf (of_decide_eq_true ok) rfl
    · exact hcons _ rfl
  · have hcons : ∀ m : CacheNode κ ρ, m.lru = lru → EmptyListed on b { p.release with pool := m :: p.release.pool } c := by
      intro m hm
      obtain ⟨hcount, hconf, hle, -⟩ := h.release
      refine ⟨?_, hconf, hle, fun x hx => (nomatch hx)⟩
      rw [hcount, emptyNodes_none rfl, emptyNodes_none rfl, total_cons, hm, decide_eq_false hlru, Bool.toNat_false,
        Nat.zero_add]
    dsimp only
    split
    · split
      · split
        · exact hcons _ rfl
        · exact h.release
      · exact hcons _ rfl
    · exact h.release

theorem EmptyListed.cacheStep {a : CacheAction κ ρ} (h : EmptyListed on b p c) (ok : p.stepEmptyOk a = true)
    (hfinish : a ≠ .finish) (hpurge : ∀ i, a ≠ .purgeEmpty i) : EmptyListed on b (p.cacheStep a) (c + p.stepInc a) := by
  have hnone : ∀ {q : CacheProcess κ ρ}, EmptyListed on b q c → EmptyListed on b q (c + 0) := by
    intro q hq
    rwa [Int.add_zero]
  cases a with
  | begin => exact hnone h.transationBegin
  | finish => exact absurd rfl hfinish
  | request t => exact h.performed handled_handles ok
  | reply t => exact h.performed handled_reply ok
  | error t code => exact h.performed handled_error ok
  | batchGet t => exact (h.find ok).transationUpdateLRU
  | purgeClean i => exact hnone h.purgeClean
  | purgeEmpty i => exact absurd rfl (hpurge i)
  | flushTimer i t => exact hnone h.cacheFlushDataTimer
  | purgeKey key =>
    have hpurged := h.release.cachePurge ok
    unfold cachePurgeInc at hpurged
    rwa [if_neg (show ¬ p.release.purgesStNode key = true from Bool.false_ne_true)] at hpurged
  | replaceRaw key rows allocates chunkFails => exact hnone (h.replaceRawNode nofun ok)
  | migrate key rows dirty allocates chunkFails => exact hnone (h.replaceRawNode (by cases dirty <;> nofun) ok)
  | migrated key => exact hnone (h.cacheMigrated ok)
  | touch key => exact hnone h.touchNode
  | adjustLru key => exact hnone (h.cacheAdjustLru ok)
  | configure hash => exact hnone h

end Listed

end CacheProcess

open CacheProcess

namespace EmptyRun

variable {κ ρ : Type} {r r' : EmptyRun κ ρ}

/-- The counter is right and within the limit of the configuration, if there is one. -/
def Listed (r : EmptyRun κ ρ) : Prop :=
  EmptyListed (decide (r.nodeEmptyLimit ≠ 0)) r.nodeEmptyLimit r.p r.emptyCnt

theorem Listed.finish {tail : Nat} (h : r.Listed) (hst : r.finish tail = some r') : r'.Listed := by
  unfold EmptyRun.finish at hst
  dsimp only at hst
  have hinc : r.p.transationEndInc ≤ 1 := transationEndInc_le
  have hle : r.emptyCnt ≤ r.nodeEmptyLimit := h.2.2.1
  split at hst
  · split at hst
    · next htail =>
      obtain rfl := Option.some.inj hst
      exact EmptyListed.purgeSingleEmptyNode (b := r.nodeEmptyLimit) (h.transationEnd (by omega)) htail
    · cases hst
  · have hend : EmptyListed _ (r.nodeEmptyLimit : Int) _ _ := h.transationEnd (by omega)
    obtain rfl := Option.some.inj hst
    exact hend

variable [DecidableEq κ]

theorem Listed.step {a : EmptyAction κ ρ} (h : r.Listed) (ok : r.stepEmptyOk a = true) (hst : r.step a = some r') :
    r'.Listed := by
  unfold EmptyRun.step at hst
  split at hst
  · exact h.finish hst
  · cases hst
  · cases hst
  · next a hfinish hpurge =>
    obtain rfl := Option.some.inj hst
    exact h.cacheStep ok hfinish hpurge

end EmptyRun

/-- **The count of empty nodes is that of the nodes on the empty list, and within the limit**, after every run whose steps
meet the condition. -/
theorem emptyMachine_counts {κ ρ : Type} [DecidableEq κ] {r : EmptyRun κ ρ}
    (h : (emptyMachine κ ρ).ReachableMeeting (fun r a => r.stepEmptyOk a = true) r) :
    r.emptyCnt = r.p.emptyNodes ∧ r.emptyCnt ≤ r.nodeEmptyLimit := by
  have hlisted : r.Listed := by
    refine Machine.reachableMeeting_induct (emptyMachine κ ρ) ?_ ?_ h
    · rintro r ⟨conf, nodes, rfl⟩
      exact ⟨rfl, rfl, Int.natCast_nonneg _, fun x hx => (nomatch hx)⟩
    · intro r a r' hr hok hst
      exact hr.step hok hst
  exact ⟨hlisted.1, hlisted.2.2.1⟩

def emptyRun : EmptyRun Nat Nat := { p := { conf := { asyncConf with emptyLimit := true } }, nodeEmptyLimit := 1000 }

theorem emptyMachine_start : (emptyMachine Nat Nat).start emptyRun := ⟨asyncConf, 1000, rfl⟩

/-- A key without rows, which gets one: the node comes to the empty list, and leaves it. -/
def emptyRequests : List (EmptyAction Nat Nat) :=
  [.call .begin, .call (.reply (numberTask .get)), .finish 0, .call .begin, .call (.request (numberTask .insert)), .finish 0,
    .call .begin, .call (.reply { numberTask .get with key := 2 }), .finish 0]

theorem emptyMachine_counts_requests : ∃ r, (emptyMachine Nat Nat).run emptyRun emptyRequests = some r ∧
    r.emptyCnt = 1 ∧ r.emptyCnt = r.p.emptyNodes ∧ r.emptyCnt ≤ r.nodeEmptyLimit := by
  have hrun : ((emptyMachine Nat Nat).run emptyRun emptyRequests).map (·.emptyCnt) = some 1 := by decide
  obtain ⟨r, hr, hcnt⟩ := Option.map_eq_some_iff.mp hrun
  have hmeets : (emptyMachine Nat Nat).RunMeets (fun r a => r.stepEmptyOk a = true) emptyRun emptyRequests := by
    decide
  exact ⟨r, hr, hcnt, emptyMachine_counts ⟨_, _, emptyMachine_start, hmeets, hr⟩⟩

/-- `cache_adjust_lru` takes the node of a key without rows off the empty list and leaves the count. -/
theorem emptyMachine_adjustLru : ∃ r, (emptyMachine Nat Nat).Reachable r ∧ r.emptyCnt = 1 ∧ r.p.emptyNodes = 0 := by
  have hrun : ((emptyMachine Nat Nat).run emptyRun
      [.call .begin, .call (.reply (numberTask .get)), .finish 0, .call (.adjustLru 1)]).map
        (fun r => (r.emptyCnt, r.p.emptyNodes)) = some (1, 0) := by decide
  obtain ⟨r, hr, hcnt⟩ := Option.map_eq_some_iff.mp hrun
  exact ⟨r, ⟨_, _, emptyMachine_start, hr⟩, Prod.mk.inj hcnt⟩

end Dtc
