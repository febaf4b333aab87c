import DtcServer.CacheRowsRun
import DtcServer.EmptyFilter
/-!
# FilterRun — the empty-node filter beside the handlers

The filter has a bit for the 32-bit key of a request (`IntKey`), and a request whose bit is set is answered without a look at
the nodes. A handler that leaves a key without rows sets its bit, and one that stores rows where there was no node clears it.
-/
namespace Dtc

open Tally

namespace CacheProcess

variable {κ ρ : Type}

section Calls

variable (p : CacheProcess κ ρ) (t : CacheTask κ ρ)

/-- The call of the filter that the work makes for the key of its task: `true` is `SET`, `false` is `CLR`. -/
def workCall (w : CacheWork) : Option Bool :=
  if p.conf.emptyFilter then
    match w with
    | .insertRow _ _ => if p.stNode.isNone && t.allocates && !t.chunkFails then some false else none
    -- by `InsertDefaultRow`, before the row is stored
    | .updateRows _ _ => if p.conf.replaceEmpty && p.stNode.isNone && t.allocates then some false else none
    | .deleteRows =>
      match p.stNode with
      | none => none
      | some n => if t.allRows || (t.deleteData n.rows).ok && (t.deleteData n.rows).rows.isEmpty then some true else none
    | .purgeData => if p.nodeStat = .empty then some false else none
    | .replaceResult => some t.result.isEmpty
    | .none | .getData | .replaceRows _ | .flushData | .flushBeforeDelete => none
  else none

variable [DecidableEq κ]

/-- The call of the filter that a step makes, with its key. -/
def stepCall : CacheAction κ ρ → Option (Bool × κ)
  | .request t => ((p.handles t).1.workCall (p.marked t) (p.handles t).2).map (fun b => (b, t.key))
  | .reply t => ((p.cacheProcessReply t).1.workCall t (p.cacheProcessReply t).2).map (fun b => (b, t.key))
  | .error t code => ((p.cacheProcessError t code).1.workCall t (p.cacheProcessError t code).2).map (fun b => (b, t.key))
  | _ => none

end Calls

end CacheProcess

def CacheAction.mapTask {κ ρ : Type} (f : CacheTask κ ρ → CacheTask κ ρ) : CacheAction κ ρ → CacheAction κ ρ
  | .request t => .request (f t)
  | .reply t => .reply (f t)
  | .error t code => .error (f t) code
  | .batchGet t => .batchGet (f t)
  | a => a

/-- The cache with the filter in its memory. -/
structure FilterRun (κ ρ : Type) where
  p : CacheProcess κ ρ
  filter : EmptyNodeFilter

inductive FilterAction (κ ρ : Type)
  /-- a step of the cache; what a task says of `ISSET` is read from the filter -/
  | call (a : CacheAction κ ρ)
  /-- `cache_replace_raw_data` of a key whose node has no rows where it comes from -/
  | emptyNode (key : κ)
  /-- a call of the allocator by its other users -/
  | other (op : HeapOp)

namespace FilterRun

variable {κ ρ : Type} (intKey : κ → UInt32) (r : FilterRun κ ρ)

def isset (key : κ) : Bool := r.filter.isset (intKey key) == some true

def asked (t : CacheTask κ ρ) : CacheTask κ ρ := { t with isset := r.isset intKey t.key }

/-- `SET` or `CLR`, if there is a call. -/
def calls : Option (Bool × κ) → Option EmptyNodeFilter
  | none => some r.filter
  | some (true, key) => r.filter.step (.set (intKey key))
  | some (false, key) => r.filter.step (.clr (intKey key))

variable [DecidableEq κ]

def step : FilterAction κ ρ → Option (FilterRun κ ρ)
  | .call a =>
    (r.calls intKey (r.p.stepCall (a.mapTask (r.asked intKey)))).map
      (fun f => { p := r.p.cacheStep (a.mapTask (r.asked intKey)), filter := f })
  | .emptyNode key =>
    (r.calls intKey (some (true, key))).map (fun f => { p := r.p.release.cachePurge key, filter := f })
  | .other op => (r.filter.step (.other op)).map (fun f => { r with filter := f })

end FilterRun

def filteredMachine {κ : Type} (ρ : Type) [DecidableEq κ] (intKey : κ → UInt32) :
    Machine (FilterRun κ ρ) (FilterAction κ ρ) where
  start r := filterMachine.start r.filter ∧ ∃ conf : CacheConf, r.p = { conf := { conf with emptyFilter := true } }
  step r a := r.step intKey a

/-! ## The steps that keep the bits right -/

namespace CacheProcess

variable {κ ρ : Type} (intKey : κ → UInt32) (f : EmptyNodeFilter)

def rowsUnder (bit : UInt32) (nodes : List (CacheNode κ ρ)) : Nat :=
  total (fun n => (decide (intKey n.key = bit) && !n.rows.isEmpty).toNat) nodes

variable (p : CacheProcess κ ρ) (t : CacheTask κ ρ)

/-- `SET` of a key: the table grows without harm if it has to, and no node with rows has the bit but the one that goes. -/
def setOk (key : κ) (gone : Option (CacheNode κ ρ)) : Prop :=
  f.StepOk (.set (intKey key)) ∧ rowsUnder intKey (intKey key) p.nodes ≤ rowsUnder intKey (intKey key) gone.toList

instance (key : κ) (gone : Option (CacheNode κ ρ)) : Decidable (p.setOk intKey f key gone) :=
  inferInstanceAs (Decidable (_ ∧ _))

variable [DecidableEq κ]

/-- The node that goes when `SET` is called. -/
def goneNode : CacheWork → Option (CacheNode κ ρ)
  | .replaceResult => p.purgedNode (p.key t)
  | _ => p.stNode

/-- A key that is made of the insert id has the bit of the request's key, or one that is not set. -/
def workFilterOk (w : CacheWork) : Prop :=
  w = .none ∨ (intKey (p.key t) = intKey t.key ∨ f.isset (intKey (p.key t)) ≠ some true) ∧
    (p.workCall t w = some true → p.setOk intKey f t.key (p.goneNode t w))

instance (w : CacheWork) : Decidable (p.workFilterOk intKey f t w) := inferInstanceAs (Decidable (_ ∨ _))

def storesRaw (key : κ) (rows : List (CacheRow ρ)) (allocates chunkFails : Bool) : Bool :=
  !rows.isEmpty && !chunkFails && (allocates || (p.findNode key).isSome)

/-- **The step of the cache leaves no rows under a bit that is set.** -/
def stepFilterOk : CacheAction κ ρ → Prop
  | .request t => (p.handles t).1.workFilterOk intKey f (p.marked t) (p.handles t).2
  | .reply t => (p.cacheProcessReply t).1.workFilterOk intKey f t (p.cacheProcessReply t).2
  | .error t code => (p.cacheProcessError t code).1.workFilterOk intKey f t (p.cacheProcessError t code).2
  | .replaceRaw key rows allocates chunkFails | .migrate key rows _ allocates chunkFails =>
    p.storesRaw key rows allocates chunkFails = true → f.isset (intKey key) ≠ some true
  | _ => True

instance : ∀ a : CacheAction κ ρ, Decidable (p.stepFilterOk intKey f a)
  | .request _ | .reply _ | .error _ _ => inferInstanceAs (Decidable (workFilterOk ..))
  | .replaceRaw _ _ _ _ | .migrate _ _ _ _ _ => inferInstanceAs (Decidable (_ → _))
  | .begin | .finish | .batchGet _ | .purgeClean _ | .purgeEmpty _ | .flushTimer _ _ | .purgeKey _ | .migrated _ | .touch _
  | .adjustLru _ | .configure _ => isTrue trivial

end CacheProcess

open CacheProcess

/-- **The step leaves no rows under a bit that is set.** -/
def FilterRun.StepOk {κ ρ : Type} [DecidableEq κ] (intKey : κ → UInt32) (r : FilterRun κ ρ) : FilterAction κ ρ → Prop
  | .call a => r.p.stepFilterOk intKey r.filter (a.mapTask (r.asked intKey))
  | .emptyNode key => r.p.release.setOk intKey r.filter key (r.p.release.purgedNode key)
  | .other _ => True

instance {κ ρ : Type} [DecidableEq κ] (intKey : κ → UInt32) (r : FilterRun κ ρ) :
    ∀ a : FilterAction κ ρ, Decidable (r.StepOk intKey a)
  | .call _ => inferInstanceAs (Decidable (CacheProcess.stepFilterOk ..))
  | .emptyNode _ => inferInstanceAs (Decidable (setOk ..))
  | .other _ => isTrue trivial

/-! ## A handler keeps to the node of its key -/

namespace CacheProcess

variable {κ ρ : Type}

section OwnNode

variable {p₀ p : CacheProcess κ ρ} {t : CacheTask κ ρ} {key : κ} {n m : CacheNode κ ρ} {async setrows : Bool}
  {P : κ → Bool → Prop}

def OwnNodeOf (P : κ → Bool → Prop) (p₀ p : CacheProcess κ ρ) : Prop :=
  p.conf = p₀.conf ∧ p.pool.Sublist p₀.pool ∧ ∀ n, p.stNode = some n → P n.key n.newhash

/-- Of the nodes of `p₀` some may have gone; the one of the transation is of the key. -/
def OwnNode (p₀ : CacheProcess κ ρ) (key : κ) (p : CacheProcess κ ρ) : Prop :=
  p.conf = p₀.conf ∧ p.pool.Sublist p₀.pool ∧ ∀ n, p.stNode = some n → n.key = key

theorem OwnNodeOf.setNode (h : OwnNodeOf P p₀ p) (hm : P m.key m.newhash) : OwnNodeOf P p₀ (p.setNode m) := by
  refine ⟨h.1, h.2.1, fun x hx => ?_⟩
  obtain rfl := Option.some.inj hx
  exact hm

theorem OwnNodeOf.transationUpdateLRU {level : Nat} (h : OwnNodeOf P p₀ p) :
    OwnNodeOf P p₀ (p.transationUpdateLRU async level) := by
  unfold CacheProcess.transationUpdateLRU
  split
  · exact h
  · next n hn =>
    split
    · exact h
    · split
      · exact h.setNode (m := { n with dirty := true, lru := .dirty }) (h.2.2 n hn)
      · exact h

theorem OwnNodeOf.purgeNodeEverything (h : OwnNodeOf P p₀ p) : OwnNodeOf P p₀ p.purgeNodeEverything :=
  ⟨h.1, h.2.1, fun _ hx => (nomatch hx)⟩

theorem OwnNodeOf.insertEmptyNode (h : OwnNodeOf P p₀ p) (hk : P (p.key t) p.conf.hash.targetNewHash) : OwnNodeOf P p₀ (p.insertEmptyNode t) :=
  h.setNode (m := p.emptyNode t) hk

theorem OwnNodeOf.updateNode (h : OwnNodeOf P p₀ p) (hm : P m.key m.newhash) : OwnNodeOf P p₀ (p.updateNode t async setrows m) := by
  have hset := h.setNode (m := { m with rows := (t.updateData async m.rows).rows }) hm
  unfold CacheProcess.updateNode
  dsimp only
  split
  · exact hset.transationUpdateLRU
  · split
    · exact hset.purgeNodeEverything
    · exact hset.transationUpdateLRU

theorem OwnNodeOf.cacheUpdateRows (h : OwnNodeOf P p₀ p) (hk : P (p.key t) p.conf.hash.targetNewHash) :
    OwnNodeOf P p₀ (p.cacheUpdateRows t async setrows) := by
  have hnew := h.insertEmptyNode hk
  unfold CacheProcess.cacheUpdateRows CacheProcess.insertDefaultRow
  by_cases he : p.conf.replaceEmpty = true
  · rw [if_pos he]
    rcases hn : p.stNode with _ | n
    · dsimp only
      by_cases ha : t.allocates = true
      · rw [if_pos ha]
        by_cases hc : t.chunkFails = true
        · rw [if_pos hc]
          exact hnew.purgeNodeEverything
        · rw [if_neg hc]
          exact hnew.updateNode hk
      · rw [if_neg ha]
        exact h
    · dsimp only
      by_cases hr : n.rows.isEmpty = true
      · rw [if_pos hr]
        by_cases hc : t.chunkFails = true
        · rw [if_pos hc]
          exact h.purgeNodeEverything
        · rw [if_neg hc]
          exact h.updateNode (h.2.2 n hn)
      · rw [if_neg hr]
        exact h.updateNode (h.2.2 n hn)
  · rw [if_neg he]
    dsimp only
    split
    · next n hn => exact h.updateNode (h.2.2 n hn)
    · exact h

theorem OwnNodeOf.cacheReplaceRows (h : OwnNodeOf P p₀ p) : OwnNodeOf P p₀ (p.cacheReplaceRows t async) := by
  unfold CacheProcess.cacheReplaceRows
  split
  · exact h
  · next n hn =>
    have hset := h.setNode (m := { n with rows := (t.replaceRows p.conf.keyAsUniqField async n.rows).rows }) (h.2.2 n hn)
    dsimp only
    split
    · exact OwnNodeOf.transationUpdateLRU hset
    · split
      · exact hset.purgeNodeEverything
      · exact hset

theorem OwnNodeOf.insertNode (h : OwnNodeOf P p₀ p) (hn : P n.key n.newhash) : OwnNodeOf P p₀ (p.insertNode t async setrows n) := by
  unfold CacheProcess.insertNode
  cases p.appendData t async setrows n with
  | duplicate => exact h
  | failed rows =>
    dsimp only
    split
    · exact h.purgeNodeEverything
    · exact h.setNode (m := { n with rows := rows }) hn
  | done d =>
    have hset := h.setNode (m := { n with rows := d.rows }) hn
    dsimp only
    split <;> exact hset.transationUpdateLRU

theorem OwnNodeOf.cacheInsertRow (h : OwnNodeOf P p₀ p) (hk : P (p.key t) p.conf.hash.targetNewHash) :
    OwnNodeOf P p₀ (p.cacheInsertRow t async setrows) := by
  have hnew := h.insertEmptyNode hk
  unfold CacheProcess.cacheInsertRow
  split
  · next n hn => exact h.insertNode (h.2.2 n hn)
  · split
    · split
      · exact hnew.purgeNodeEverything
      · exact hnew.insertNode hk
    · exact h

theorem OwnNodeOf.deleteNode {oldRows : Nat} {k : Int} (h : OwnNodeOf P p₀ p) : OwnNodeOf P p₀ (p.deleteNode oldRows k) := by
  unfold CacheProcess.deleteNode
  dsimp only
  split <;> exact h.purgeNodeEverything

theorem OwnNodeOf.cacheDeleteRows (h : OwnNodeOf P p₀ p) : OwnNodeOf P p₀ (p.cacheDeleteRows t) := by
  unfold CacheProcess.cacheDeleteRows
  split
  · exact h
  · next n hn =>
    have hset := h.setNode (m := { n with rows := (t.deleteData n.rows).rows }) (h.2.2 n hn)
    dsimp only
    split
    · exact h.deleteNode
    · split
      · split
        · exact hset.deleteNode
        · exact OwnNodeOf.transationUpdateLRU hset
      · split
        · exact hset
        · exact OwnNodeOf.purgeNodeEverything hset

theorem OwnNodeOf.clrDirty (h : OwnNodeOf P p₀ p) (hm : P m.key m.newhash) : OwnNodeOf P p₀ (p.clrDirty m) := by
  unfold CacheProcess.clrDirty
  split <;> exact h.setNode (m := { m with dirty := false }) hm

theorem OwnNodeOf.cacheFlushData (h : OwnNodeOf P p₀ p) : OwnNodeOf P p₀ (p.cacheFlushData t).1 := by
  unfold CacheProcess.cacheFlushData
  split
  · exact h
  · next n hn =>
    dsimp only
    split
    · exact h.setNode (m := { n with rows := (t.flushData n).rows }) (h.2.2 n hn)
    · exact OwnNodeOf.transationUpdateLRU (OwnNodeOf.clrDirty (p := { p with keyDirty := n.dirty }.incDirtyRow
        (t.flushData n).dirtyRowsInc) (m := { n with rows := (t.flushData n).rows }) h (h.2.2 n hn))

theorem OwnNodeOf.cacheFlushDataBeforeDelete (h : OwnNodeOf P p₀ p) : OwnNodeOf P p₀ (p.cacheFlushDataBeforeDelete t) := by
  unfold CacheProcess.cacheFlushDataBeforeDelete
  split
  · exact h
  · next n hn =>
    have hkey : P n.key n.newhash := h.2.2 n hn
    dsimp only
    split
    · split
      · exact h.clrDirty hkey
      · exact OwnNodeOf.clrDirty (p := p.incDirtyRow (t.flushData n).dirtyRowsInc) h hkey
    · exact h.setNode (m := { n with rows := (t.flushData n).rows }) (h.2.2 n hn)

variable [DecidableEq κ]

omit [DecidableEq κ] in
theorem OwnNodeOf.purged {rest : List (CacheNode κ ρ)} (h : OwnNodeOf P p₀ p) (hrest : rest.Sublist p.pool) :
    OwnNodeOf P p₀ { p with pool := rest } :=
  ⟨h.1, hrest.trans h.2.1, h.2.2⟩

omit [DecidableEq κ] in
theorem takeOut_sublist [DecidableEq κ] {key : κ} {newhash : Bool} : ∀ {nodes : List (CacheNode κ ρ)}
    {r : CacheNode κ ρ × List (CacheNode κ ρ)}, takeOut key newhash nodes = some r → r.2.Sublist nodes
  | [], _, h => by cases h
  | m :: nodes, r, h => by
    unfold takeOut at h
    split at h
    · obtain rfl := Option.some.inj h
      exact List.sublist_cons_self _ _
    · obtain ⟨r', hr', rfl⟩ := Option.map_eq_some_iff.mp h
      exact (takeOut_sublist hr').cons_cons m

theorem OwnNodeOf.cachePurge {k : κ} (h : OwnNodeOf P p₀ p) : OwnNodeOf P p₀ (p.cachePurge k) := by
  unfold CacheProcess.cachePurge
  split
  · exact h.purgeNodeEverything
  · split
    · exact h
    · next n rest hf => exact h.purged (takeOut_sublist hf)

theorem OwnNodeOf.cachePurgeData (h : OwnNodeOf P p₀ p) : OwnNodeOf P p₀ (p.cachePurgeData t) := by
  unfold CacheProcess.cachePurgeData
  split
  · exact h
  · next n hn =>
    dsimp only
    have hflush := h.cacheFlushData (t := t)
    split
    · split
      · exact OwnNodeOf.cachePurge (p := (p.cacheFlushData t).1.incTotalRow (0 - n.rows.length)) hflush
      · exact hflush
    · exact OwnNodeOf.cachePurge (p := p.incTotalRow (0 - n.rows.length)) h

omit [DecidableEq κ] in
theorem OwnNodeOf.replaceNode {oldRows : Nat} (h : OwnNodeOf P p₀ p) (hn : P n.key n.newhash) :
    OwnNodeOf P p₀ (p.replaceNode t n oldRows) := by
  unfold CacheProcess.replaceNode
  split
  · exact h.purgeNodeEverything
  · exact OwnNodeOf.transationUpdateLRU (h.setNode (m := { n with rows := t.result.map (fun v => ⟨false, v⟩) }) hn)

theorem OwnNodeOf.cacheReplaceResult (h : OwnNodeOf P p₀ p) (hk : P (p.key t) p.conf.hash.targetNewHash) :
    OwnNodeOf P p₀ (p.cacheReplaceResult t) := by
  unfold CacheProcess.cacheReplaceResult
  split
  · exact h.cachePurge
  · split
    · next n hn => exact h.replaceNode (h.2.2 n hn)
    · split
      · exact (h.insertEmptyNode hk).replaceNode hk
      · exact h

theorem OwnNodeOf.perform {w : CacheWork} (h : OwnNodeOf P p₀ p) (hk : P (p.key t) p.conf.hash.targetNewHash) : OwnNodeOf P p₀ (p.perform t w) := by
  cases w with
  | none => exact h
  | getData => exact h.transationUpdateLRU
  | replaceResult => exact h.cacheReplaceResult hk
  | insertRow async setrows => exact h.cacheInsertRow hk
  | updateRows async setrows => exact h.cacheUpdateRows hk
  | replaceRows async => exact h.cacheReplaceRows
  | deleteRows => exact h.cacheDeleteRows
  | purgeData => exact h.cachePurgeData
  | flushData => exact h.cacheFlushData
  | flushBeforeDelete => exact h.cacheFlushDataBeforeDelete

theorem OwnNode.perform {w : CacheWork} (h : OwnNode p₀ key p) (hk : p.key t = key) : OwnNode p₀ key (p.perform t w) :=
  OwnNodeOf.perform (P := fun k _ => k = key) h hk

end OwnNode

section Calls

variable [DecidableEq κ] {p : CacheProcess κ ρ} {t : CacheTask κ ρ} {key : κ}

theorem cachePurge_sublist (hn : p.stNode = none) : (p.cachePurge key).nodes.Sublist p.nodes := by
  have hst : p.purgesStNode key = false := by
    unfold purgesStNode holds
    rw [hn]
  unfold CacheProcess.cachePurge
  rw [if_neg (hst ▸ Bool.false_ne_true)]
  split
  · exact List.Sublist.refl _
  · next n rest hf =>
    unfold nodes
    exact (takeOut_sublist hf).append_left _

theorem perform_sublist {w : CacheWork} (hf : p.conf.emptyFilter = true) (hn : p.stNode = none)
    (hcall : p.workCall t w ≠ some false) : (p.perform t w).nodes.Sublist p.nodes := by
  unfold workCall at hcall
  rw [if_pos hf, hn] at hcall
  have hpool : p.pool.Sublist p.nodes := List.sublist_append_right _ _
  cases w with
  | none => exact List.Sublist.refl _
  | getData =>
    show (p.transationUpdateLRU false lruRead).nodes.Sublist p.nodes
    unfold CacheProcess.transationUpdateLRU
    rw [hn]
  | replaceResult =>
    have hempty : t.result.isEmpty = true := by
      cases he : t.result.isEmpty with
      | true => rfl
      | false =>
        rw [he] at hcall
        exact absurd rfl hcall
    show (p.cacheReplaceResult t).nodes.Sublist p.nodes
    unfold CacheProcess.cacheReplaceResult
    rw [if_pos (by rw [hf, hempty, Bool.and_self])]
    exact cachePurge_sublist hn
  | insertRow async setrows =>
    show (p.cacheInsertRow t async setrows).nodes.Sublist p.nodes
    unfold CacheProcess.cacheInsertRow
    rw [hn]
    dsimp only
    by_cases ha : t.allocates = true
    · by_cases hc : t.chunkFails = true
      · rw [if_pos ha, if_pos hc]
        exact hpool
      · dsimp only at hcall
        rw [ha, Bool.eq_false_iff.mpr hc] at hcall
        exact absurd rfl hcall
    · rw [if_neg ha]
  | updateRows async setrows =>
    show (p.cacheUpdateRows t async setrows).nodes.Sublist p.nodes
    unfold CacheProcess.cacheUpdateRows CacheProcess.insertDefaultRow
    rw [hn]
    dsimp only
    by_cases he : p.conf.replaceEmpty = true
    · by_cases ha : t.allocates = true
      · dsimp only at hcall
        rw [ha, he] at hcall
        exact absurd rfl hcall
      · rw [if_pos he, if_neg ha]
    · rw [if_neg he]
  | replaceRows async =>
    show (p.cacheReplaceRows t async).nodes.Sublist p.nodes
    unfold CacheProcess.cacheReplaceRows
    rw [hn]
  | deleteRows =>
    show (p.cacheDeleteRows t).nodes.Sublist p.nodes
    unfold CacheProcess.cacheDeleteRows
    rw [hn]
  | purgeData =>
    show (p.cachePurgeData t).nodes.Sublist p.nodes
    unfold CacheProcess.cachePurgeData
    rw [hn]
  | flushData =>
    show (p.cacheFlushData t).1.nodes.Sublist p.nodes
    unfold CacheProcess.cacheFlushData
    rw [hn]
  | flushBeforeDelete =>
    show (p.cacheFlushDataBeforeDelete t).nodes.Sublist p.nodes
    unfold CacheProcess.cacheFlushDataBeforeDelete
    rw [hn]

theorem cachePurge_total (w : CacheNode κ ρ → Nat) :
    total w (p.cachePurge key).nodes + total w (p.purgedNode key).toList = total w p.nodes := by
  unfold CacheProcess.cachePurge purgedNode
  by_cases hst : p.purgesStNode key = true
  · rw [if_pos hst, if_pos hst]
    show total w p.pool + total w p.stNode.toList = total w (p.stNode.toList ++ p.pool)
    rw [total_append, Nat.add_comm]
  · rw [if_neg hst, if_neg hst]
    rcases hf : takeOut key (p.purgeHash key) p.pool with _ | ⟨n, rest⟩
    · rfl
    · unfold nodes
      rw [total_append, total_append, total_perm (takeOut_perm hf)]
      show total w p.stNode.toList + total w rest + (w n + 0) = total w p.stNode.toList + (w n + total w rest)
      omega

theorem perform_gone {v : CacheWork} (hcall : p.workCall t v = some true) (w : CacheNode κ ρ → Nat) :
    total w (p.perform t v).nodes + total w (p.goneNode t v).toList = total w p.nodes := by
  unfold workCall at hcall
  by_cases hf : p.conf.emptyFilter = true
  · rw [if_pos hf] at hcall
    cases v with
    | replaceResult =>
      have hempty : t.result.isEmpty = true := Option.some.inj hcall
      show total w (p.cacheReplaceResult t).nodes + _ = _
      unfold CacheProcess.cacheReplaceResult
      rw [if_pos (by rw [hf, hempty, Bool.and_self])]
      exact cachePurge_total w
    | deleteRows =>
      dsimp only at hcall
      have hpool : total w p.pool + total w p.stNode.toList = total w p.nodes := by
        unfold nodes
        rw [total_append, Nat.add_comm]
      have hgone : ∀ (q : CacheProcess κ ρ) (oldRows : Nat) (k : Int), q.pool = p.pool →
          total w (q.deleteNode oldRows k).nodes + total w p.stNode.toList = total w p.nodes := by
        intro q oldRows k hq
        rw [← hpool, ← hq]
        unfold CacheProcess.deleteNode
        dsimp only
        split <;> rfl
      show total w (p.cacheDeleteRows t).nodes + total w p.stNode.toList = _
      unfold CacheProcess.cacheDeleteRows
      split
      · next hn =>
        rw [hn] at hcall
        cases hcall
      · next n hn =>
        rw [hn] at hcall
        dsimp only at hcall ⊢
        by_cases ha : t.allRows = true
        · rw [if_pos ha]
          exact hgone p _ _ rfl
        · have hdel : ((t.deleteData n.rows).ok && (t.deleteData n.rows).rows.isEmpty) = true := by
            by_contra hno
            rw [Bool.eq_false_iff.mpr ha, Bool.eq_false_iff.mpr hno] at hcall
            cases hcall
          obtain ⟨hok, hempty⟩ := Bool.and_eq_true_iff.mp hdel
          rw [if_neg ha, if_pos hok, if_pos hempty]
          exact hgone _ _ _ rfl
    | insertRow async setrows =>
      dsimp only at hcall
      split at hcall <;> cases hcall
    | updateRows async setrows =>
      dsimp only at hcall
      split at hcall <;> cases hcall
    | purgeData =>
      dsimp only at hcall
      split at hcall <;> cases hcall
    | none | getData | replaceRows | flushData | flushBeforeDelete => cases hcall
  · rw [if_neg hf] at hcall
    cases hcall

end Calls

/-! ## The bits over whole runs -/

section Bits

variable [DecidableEq κ] {intKey : κ → UInt32} {f f' : EmptyNodeFilter} {p : CacheProcess κ ρ} {t : CacheTask κ ρ} {key : κ}
  {bit : UInt32}

/-- **The filter hides no rows**: no node with rows has a bit that is set. -/
def HidesNone (intKey : κ → UInt32) (f : EmptyNodeFilter) (p : CacheProcess κ ρ) : Prop :=
  ∀ bit, f.lastSet bit = true → rowsUnder intKey bit p.nodes = 0

omit [DecidableEq κ] in
theorem rowsUnder_eq_zero {nodes : List (CacheNode κ ρ)} :
    rowsUnder intKey bit nodes = 0 ↔ ∀ n ∈ nodes, intKey n.key = bit → n.rows = [] := by
  unfold rowsUnder
  rw [total_eq_zero]
  refine forall₂_congr (fun n _ => ?_)
  by_cases hn : intKey n.key = bit <;> simp [hn]

omit [DecidableEq κ] in
theorem HidesNone.of_le (h : HidesNone intKey f p) {q : CacheProcess κ ρ}
    (hle : ∀ bit, rowsUnder intKey bit q.nodes ≤ rowsUnder intKey bit p.nodes) : HidesNone intKey f q :=
  fun bit hb => Nat.eq_zero_of_le_zero (h bit hb ▸ hle bit)

omit [DecidableEq κ] in
theorem OwnNode.rowsUnder_le {q : CacheProcess κ ρ} (h : OwnNode p key q) (hne : intKey key ≠ bit) :
    rowsUnder intKey bit q.nodes ≤ rowsUnder intKey bit p.pool := by
  unfold rowsUnder nodes
  rw [total_append]
  have hpool := total_sublist (w := fun n => (decide (intKey n.key = bit) && !n.rows.isEmpty).toNat) h.2.1
  cases hn : q.stNode with
  | none => simpa using hpool
  | some n =>
    have hkey : intKey n.key ≠ bit := h.2.2 n hn ▸ hne
    simpa [hkey] using hpool

omit [DecidableEq κ] in
theorem rowsUnder_pool : rowsUnder intKey bit p.pool ≤ rowsUnder intKey bit p.nodes :=
  total_sublist (List.sublist_append_right _ _)

theorem takeOut_key {newhash : Bool} : ∀ {nodes : List (CacheNode κ ρ)} {r : CacheNode κ ρ × List (CacheNode κ ρ)},
    takeOut key newhash nodes = some r → r.1.key = key
  | [], _, h => by cases h
  | m :: nodes, r, h => by
    unfold takeOut at h
    split at h
    · next hm =>
      obtain rfl := Option.some.inj h
      exact hm.1
    · obtain ⟨r', hr', rfl⟩ := Option.map_eq_some_iff.mp h
      exact takeOut_key (r := r') hr'

def Steady (target : Bool) (w : CacheNode κ ρ → Nat) : Prop :=
  ∀ m n, m.key = n.key → m.rows.isEmpty = n.rows.isEmpty → m.newhash = n.newhash ∨ m.newhash = target → w m ≤ w n

omit [DecidableEq κ] in
theorem steady_rowsUnder {target : Bool} :
    Steady target (fun n : CacheNode κ ρ => (decide (intKey n.key = bit) && !n.rows.isEmpty).toNat) := by
  intro m n hkey hrows _
  dsimp only
  rw [hkey, hrows]

theorem findNode_cases {r : CacheNode κ ρ × List (CacheNode κ ρ)} (h : p.findNode key = some r) :
    ∃ n₀, p.nodes.Perm (n₀ :: r.2) ∧ n₀.key = key ∧ (r.1 = n₀ ∨ r.1 = { n₀ with newhash := p.conf.hash.targetNewHash }) := by
  unfold findNode at h
  dsimp only at h
  split at h
  · split at h
    · next r' hr =>
      obtain rfl := Option.some.inj h
      exact ⟨r'.1, takeOut_perm hr, takeOut_key hr, .inr rfl⟩
    · exact ⟨r.1, takeOut_perm h, takeOut_key h, .inl rfl⟩
  · exact ⟨r.1, takeOut_perm h, takeOut_key h, .inl rfl⟩

theorem found_total {w : CacheNode κ ρ → Nat} {rest : List (CacheNode κ ρ)} {n : CacheNode κ ρ}
    (hw : Steady p.conf.hash.targetNewHash w) (hf : p.findNode key = some (n, rest)) :
    total w (n :: rest) ≤ total w p.nodes := by
  obtain ⟨n₀, hperm, -, hn⟩ := findNode_cases hf
  rw [total_perm hperm]
  apply Nat.add_le_add_right
  rcases hn with rfl | rfl
  · exact Nat.le_refl _
  · exact hw _ n₀ rfl rfl (.inr rfl)

theorem find_total {w : CacheNode κ ρ → Nat} {isset : Bool} (hw : Steady p.conf.hash.targetNewHash w) :
    total w (p.transationFindNode key isset).nodes ≤ total w p.nodes := by
  unfold transationFindNode
  split
  · exact Nat.le_refl _
  · split
    · exact Nat.le_refl _
    · next hf => exact found_total hw hf

theorem findNode_key {r : CacheNode κ ρ × List (CacheNode κ ρ)} (h : p.findNode key = some r) : r.1.key = key := by
  obtain ⟨n₀, -, hkey, hr | hr⟩ := findNode_cases h <;> rw [hr]
  · exact hkey
  · exact hkey

theorem find_key {isset : Bool} {n : CacheNode κ ρ} (h : (p.transationFindNode key isset).stNode = some n) : n.key = key := by
  unfold transationFindNode at h
  split at h
  · cases h
  · split at h
    · cases h
    · next n' rest hfind =>
      obtain rfl := Option.some.inj h
      exact findNode_key hfind

theorem find_isset {isset : Bool} {n : CacheNode κ ρ} (hf : p.conf.emptyFilter = true)
    (h : (p.transationFindNode key isset).stNode = some n) : isset = false := by
  cases isset with
  | false => rfl
  | true =>
    unfold transationFindNode at h
    rw [hf] at h
    cases h

omit [DecidableEq κ] in
theorem find_conf [DecidableEq κ] {isset : Bool} : (p.transationFindNode key isset).conf = p.conf := by
  unfold transationFindNode
  split
  · rfl
  · split <;> rfl

omit [DecidableEq κ] in
theorem find_ptrKey [DecidableEq κ] {isset : Bool} : (p.transationFindNode key isset).key t = key := by
  unfold transationFindNode CacheProcess.key
  split
  · rfl
  · split <;> rfl

omit [DecidableEq κ] in
theorem calls_lastSet {r : FilterRun κ ρ} {call : Option (Bool × κ)} (hinv : r.filter.Inv)
    (hok : ∀ key, call = some (true, key) → r.filter.StepOk (.set (intKey key))) (hst : r.calls intKey call = some f') :
    f'.Inv ∧ ∀ bit, f'.lastSet bit = true → (∃ key, call = some (true, key) ∧ intKey key = bit) ∨
      r.filter.lastSet bit = true ∧ ∀ key, call = some (false, key) → intKey key ≠ bit := by
  unfold FilterRun.calls at hst
  split at hst
  · obtain rfl := Option.some.inj hst
    exact ⟨hinv, fun bit hb => .inr ⟨hb, nofun⟩⟩
  · next key =>
    obtain ⟨s', e, hinv'⟩ := hinv.set (hok key rfl)
    have hset : r.filter.step (.set (intKey key)) = some s' := by
      unfold EmptyNodeFilter.step
      rw [if_neg (by rw [hinv.alive]; exact Bool.false_ne_true)]
      exact congrArg some (by rw [e]; rfl)
    obtain rfl := Option.some.inj (hset.symm.trans hst)
    refine ⟨hinv', fun bit hb => ?_⟩
    rcases EmptyNodeFilter.set_lastSet e hb with rfl | hb
    · exact .inl ⟨key, rfl, rfl⟩
    · exact .inr ⟨hb, nofun⟩
  · next key =>
    obtain ⟨s', e, hinv'⟩ := hinv.clr (intKey key)
    have hclr : r.filter.step (.clr (intKey key)) = some s' := by
      unfold EmptyNodeFilter.step
      rw [if_neg (by rw [hinv.alive]; exact Bool.false_ne_true)]
      exact congrArg some (by rw [e]; rfl)
    obtain rfl := Option.some.inj (hclr.symm.trans hst)
    refine ⟨hinv', fun bit hb => ?_⟩
    obtain ⟨hne, hb⟩ := EmptyNodeFilter.clr_lastSet e hb
    refine .inr ⟨hb, fun k hk => ?_⟩
    obtain rfl := congrArg Prod.snd (Option.some.inj hk)
    exact hne.symm

theorem HidesNone.performed {r : CacheProcess κ ρ × CacheWork} {u : CacheTask κ ρ} (h : HidesNone intKey f p)
    (hf : p.conf.emptyFilter = true) (hd : Handled p t r) (hu : u.key = t.key)
    (hisset : ∀ b, f.isset b = some (f.lastSet b)) (hask : t.isset = f.lastSet (intKey t.key))
    (ok : r.1.workFilterOk intKey f u r.2)
    (hbits : ∀ bit, f'.lastSet bit = true → (r.1.workCall u r.2 = some true ∧ intKey t.key = bit) ∨
      f.lastSet bit = true ∧ (r.1.workCall u r.2 = some false → intKey t.key ≠ bit)) :
    HidesNone intKey f' (r.1.perform u r.2) := by
  intro bit hb
  obtain rfl | ⟨key, w, rfl, -⟩ := hd
  · rcases hbits bit hb with ⟨hcall, -⟩ | ⟨hset, -⟩
    · unfold workCall at hcall
      split at hcall <;> cases hcall
    · exact h bit hset
  · dsimp only at ok hbits ⊢
    have hfound : HidesNone intKey f (p.transationFindNode key t.isset) := by
      apply h.of_le
      intro b
      exact find_total steady_rowsUnder
    have hon : (p.transationFindNode key t.isset).conf.emptyFilter = true :=
      (congrArg CacheConf.emptyFilter find_conf).trans hf
    have hkey : (p.transationFindNode key t.isset).key u = key := find_ptrKey
    have hown : OwnNode (p.transationFindNode key t.isset) key (p.transationFindNode key t.isset) :=
      ⟨rfl, List.Sublist.refl _, fun _ hn => find_key hn⟩
    have hnode : ∀ n, (p.transationFindNode key t.isset).stNode = some n → f.lastSet (intKey t.key) = false :=
      fun _ hn => hask.symm.trans (find_isset hf hn)
    generalize p.transationFindNode key t.isset = q at *
    rcases ok with rfl | ⟨hsame, hset⟩
    · rcases hbits bit hb with ⟨hcall, -⟩ | ⟨hset, -⟩
      · unfold workCall at hcall
        split at hcall <;> cases hcall
      · exact hfound bit hset
    · rw [hkey, hisset] at hsame
      rcases hbits bit hb with ⟨hcall, rfl⟩ | ⟨hbit, hclr⟩
      · -- the bit that was set
        have hgone := perform_gone hcall (fun n => (decide (intKey n.key = intKey t.key) && !n.rows.isEmpty).toNat)
        have hle := (hset hcall).2
        rw [hu] at hle
        unfold rowsUnder at hle ⊢
        omega
      · by_cases hne : intKey key = bit
        · have hst : q.stNode = none := by
            cases hn : q.stNode with
            | none => rfl
            | some n =>
              rw [hne] at hsame
              rcases hsame with hk | hk
              · rw [hk, hu, hnode n hn] at hbit
                cases hbit
              · exact absurd (congrArg some hbit) hk
          refine Nat.eq_zero_of_le_zero (hfound bit hbit ▸ total_sublist (perform_sublist hon hst (fun hcall => ?_)))
          rw [hne] at hsame
          rcases hsame with hk | hk
          · exact hclr hcall (hu ▸ hk.symm)
          · exact absurd (congrArg some hbit) hk
        · have hle := (hown.perform (t := u) (w := w) hkey).rowsUnder_le hne
          exact Nat.eq_zero_of_le_zero (hfound bit hbit ▸ hle.trans rowsUnder_pool)

theorem HidesNone.replaceRawNode {rows : List (CacheRow ρ)} {lru : LruList} {allocates chunkFails : Bool}
    (h : HidesNone intKey f p) (ok : p.storesRaw key rows allocates chunkFails = true → f.lastSet (intKey key) = false) :
    HidesNone intKey f (p.replaceRawNode key rows lru allocates chunkFails) := by
  intro bit hb
  have hzero := h bit hb
  have hrows : p.storesRaw key rows allocates chunkFails = true → intKey key ≠ bit := by
    intro hs hk
    rw [← hk, ok hs] at hb
    cases hb
  unfold storesRaw at hrows
  unfold CacheProcess.replaceRawNode
  rcases hf : p.findNode key with _ | ⟨n, rest⟩
  · rw [hf] at hrows
    dsimp only
    have hrelease : rowsUnder intKey bit p.release.nodes = 0 := hzero
    split
    · next ha =>
      rw [ha, Bool.true_or, Bool.and_true] at hrows
      split
      · split
        · exact rowsUnder_eq_zero.mpr (List.forall_mem_cons.mpr ⟨fun _ => rfl, rowsUnder_eq_zero.mp hrelease⟩)
        · exact hrelease
      · next hc =>
        rw [Bool.eq_false_iff.mpr hc, Bool.not_false, Bool.and_true] at hrows
        refine rowsUnder_eq_zero.mpr (List.forall_mem_cons.mpr ⟨fun hk => ?_, rowsUnder_eq_zero.mp hrelease⟩)
        by_contra hne
        exact hrows (by simpa using hne) hk
    · exact hrelease
  · rw [hf] at hrows
    have hsplit := findNode_total (w := fun n => (decide (intKey n.key = bit) && !n.rows.isEmpty).toNat) (fun _ _ => rfl) hf
    have hnodes : rowsUnder intKey bit (n :: rest) = 0 := hsplit.symm.trans hzero
    have hkey : n.key = key := findNode_key hf
    obtain ⟨hn, hrest⟩ := List.forall_mem_cons.mp (rowsUnder_eq_zero.mp hnodes)
    dsimp only
    split
    · split
      · exact hnodes
      · exact rowsUnder_eq_zero.mpr hrest
    · next hc =>
      rw [Bool.eq_false_iff.mpr hc, Bool.not_false, Bool.and_true, Option.isSome_some, Bool.or_true, Bool.and_true] at hrows
      refine rowsUnder_eq_zero.mpr (List.forall_mem_cons.mpr ⟨fun hk => ?_, hrest⟩)
      by_contra hne
      exact hrows (by simpa using hne) (hkey ▸ hk)

omit [DecidableEq κ] in
theorem nodes_eq_cons {n : CacheNode κ ρ} (hn : p.stNode = some n) : p.nodes = n :: p.pool := by
  unfold nodes
  rw [hn]
  rfl

omit [DecidableEq κ] in
theorem transationEnd_total {w : CacheNode κ ρ → Nat} (hw : Steady p.conf.hash.targetNewHash w) :
    total w p.transationEnd.nodes ≤ total w p.nodes := by
  unfold CacheProcess.transationEnd
  split
  · exact Nat.le_refl _
  · next n hn =>
    split
    · have hle := hw { n with lru := if n.rows.isEmpty && p.conf.emptyLimit then .empty else .clean } n rfl rfl (.inl rfl)
      rw [nodes_eq_cons hn]
      exact Nat.add_le_add_right hle _
    · exact Nat.le_refl _

omit [DecidableEq κ] in
theorem transationUpdateLRU_total {w : CacheNode κ ρ → Nat} {level : Nat} :
    total w (p.transationUpdateLRU false level).nodes = total w p.nodes := by
  unfold CacheProcess.transationUpdateLRU
  split
  · rfl
  · split
    · rfl
    · rfl

omit [DecidableEq κ] in
theorem discard_sublist {i : Nat} : ({ p with pool := p.pool.eraseIdx i } : CacheProcess κ ρ).nodes.Sublist p.nodes := by
  unfold nodes
  exact (List.eraseIdx_sublist _ _).append_left _

omit [DecidableEq κ] in
theorem cacheFlushDataTimer_total {w : CacheNode κ ρ → Nat} {i : Nat} (hw : Steady p.conf.hash.targetNewHash w) :
    total w (p.cacheFlushDataTimer t i).nodes ≤ total w p.nodes := by
  rcases p.cacheFlushDataTimer_pool t i with heq | ⟨n, m, hi, -, -, ⟨hkey, hnew⟩, hrows, -, hst, hpool⟩
  · rw [heq]
    exact Nat.le_refl _
  · have hlen : m.rows.isEmpty = n.rows.isEmpty := by
      have hflush := (t.flushData_spec n).1
      rw [← hrows] at hflush
      rw [Bool.eq_iff_iff, List.isEmpty_iff_length_eq_zero, List.isEmpty_iff_length_eq_zero, hflush]
    have htotal := total_set (w := w) m hi
    have hle := hw m n hkey hlen (.inl hnew)
    have hbegin : total w p.transationBegin.pool = total w p.nodes := rfl
    unfold nodes at hbegin ⊢
    rw [hst, hpool]
    show total w (p.transationBegin.pool.set i m) ≤ _
    omega

/-- A step that neither handles a request nor takes rows from elsewhere. -/
def Plain : CacheAction κ ρ → Prop
  | .request _ | .reply _ | .error _ _ | .replaceRaw _ _ _ _ | .migrate _ _ _ _ _ => False
  | _ => True

omit [DecidableEq κ] in
theorem plain_total [DecidableEq κ] {w : CacheNode κ ρ → Nat} {a : CacheAction κ ρ}
    (hw : Steady p.conf.hash.targetNewHash w) (ha : Plain a) :
    total w (p.cacheStep a).nodes ≤ total w p.nodes := by
  cases a with
  | request | reply | error | replaceRaw | migrate => exact ha.elim
  | begin | configure => exact Nat.le_refl _
  | finish => exact transationEnd_total hw
  | batchGet t => exact Nat.le_trans (Nat.le_of_eq transationUpdateLRU_total) (find_total hw)
  | purgeClean i =>
    show total w (p.purgeClean i).nodes ≤ _
    unfold CacheProcess.purgeClean
    split
    · exact Nat.le_refl _
    · split
      · exact total_sublist (discard_sublist (p := p) (i := i))
      · exact Nat.le_refl _
  | purgeEmpty i =>
    show total w (p.purgeSingleEmptyNode i).nodes ≤ _
    unfold CacheProcess.purgeSingleEmptyNode
    split
    · exact Nat.le_refl _
    · split
      · exact total_sublist discard_sublist
      · exact Nat.le_refl _
  | flushTimer i t => exact cacheFlushDataTimer_total hw
  | purgeKey key => exact total_sublist (cachePurge_sublist (p := p.release) rfl)
  | migrated key =>
    show total w (p.cacheMigrated key).nodes ≤ _
    unfold CacheProcess.cacheMigrated
    split
    · exact Nat.le_refl _
    · next hf =>
      exact Nat.le_trans (total_sublist (List.sublist_cons_self _ _)) (found_total hw hf)
  | touch key =>
    show total w (p.touchNode key).nodes ≤ _
    unfold CacheProcess.touchNode
    split
    · exact Nat.le_refl _
    · next hf => exact found_total hw hf
  | adjustLru key =>
    show total w (p.cacheAdjustLru key).nodes ≤ _
    unfold CacheProcess.cacheAdjustLru
    split
    · exact Nat.le_refl _
    · next n rest hf =>
      have hle := hw { n with lru := .clean } n rfl rfl (.inl rfl)
      exact Nat.le_trans (Nat.add_le_add_right hle _) (found_total hw hf)

theorem replaceRawNode_conf {rows : List (CacheRow ρ)} {lru : LruList} {allocates chunkFails : Bool} :
    (p.replaceRawNode key rows lru allocates chunkFails).conf = p.conf := by
  unfold CacheProcess.replaceRawNode
  split
  · dsimp only
    split
    · split <;> rfl
    · rfl
  · dsimp only
    split
    · split
      · split <;> rfl
      · rfl
    · rfl

theorem cacheStep_conf {a : CacheAction κ ρ} (ha : ∀ hash, a ≠ .configure hash) : (p.cacheStep a).conf = p.conf := by
  have hperform : ∀ {t u : CacheTask κ ρ} {r : CacheProcess κ ρ × CacheWork}, Handled p t r →
      (r.1.perform u r.2).conf = p.conf := by
    rintro t u r (rfl | ⟨key, w, rfl, -⟩)
    · rfl
    · have hown : OwnNode (p.transationFindNode key t.isset) key (p.transationFindNode key t.isset) :=
        ⟨rfl, List.Sublist.refl _, fun _ hn => find_key hn⟩
      exact (hown.perform (t := u) (w := w) find_ptrKey).1.trans find_conf
  cases a with
  | request t => exact hperform handled_handles
  | reply t => exact hperform handled_reply
  | error t code => exact hperform handled_error
  | replaceRaw key rows allocates chunkFails => exact replaceRawNode_conf
  | migrate key rows dirty allocates chunkFails => exact replaceRawNode_conf
  | begin => rfl
  | configure hash => exact absurd rfl (ha hash)
  | finish =>
    show p.transationEnd.conf = _
    unfold CacheProcess.transationEnd
    split
    · rfl
    · split <;> rfl
  | batchGet t =>
    have hown : OwnNodeOf (fun _ _ => True) (p.find t) (p.find t) := ⟨rfl, List.Sublist.refl _, fun _ _ => trivial⟩
    exact hown.transationUpdateLRU.1.trans find_conf
  | purgeClean i =>
    show (p.purgeClean i).conf = _
    unfold CacheProcess.purgeClean
    split
    · rfl
    · split <;> rfl
  | purgeEmpty i =>
    show (p.purgeSingleEmptyNode i).conf = _
    unfold CacheProcess.purgeSingleEmptyNode
    split
    · rfl
    · split <;> rfl
  | flushTimer i t =>
    show (p.cacheFlushDataTimer t i).conf = _
    rcases p.cacheFlushDataTimer_pool t i with heq | ⟨n, m, -, -, -, -, -, hconf, -, -⟩
    · rw [heq]
      rfl
    · exact hconf
  | purgeKey key =>
    have hown : OwnNodeOf (fun _ _ => True) p.release p.release := ⟨rfl, List.Sublist.refl _, fun _ _ => trivial⟩
    exact hown.cachePurge.1
  | migrated key =>
    show (p.cacheMigrated key).conf = _
    unfold CacheProcess.cacheMigrated
    split <;> rfl
  | touch key =>
    show (p.touchNode key).conf = _
    unfold CacheProcess.touchNode
    split <;> rfl
  | adjustLru key =>
    show (p.cacheAdjustLru key).conf = _
    unfold CacheProcess.cacheAdjustLru
    split <;> rfl

theorem cacheStep_emptyFilter {a : CacheAction κ ρ} : (p.cacheStep a).conf.emptyFilter = p.conf.emptyFilter := by
  by_cases ha : ∃ hash, a = .configure hash
  · obtain ⟨hash, rfl⟩ := ha
    rfl
  · exact congrArg CacheConf.emptyFilter (cacheStep_conf (not_exists.mp ha))

end Bits

end CacheProcess

namespace FilterRun

open EmptyNodeFilter CacheProcess

variable {κ ρ : Type} [DecidableEq κ] {intKey : κ → UInt32} {r r' : FilterRun κ ρ}

/-- The filter is sound and on, and hides no rows. -/
structure Inv (intKey : κ → UInt32) (r : FilterRun κ ρ) : Prop where
  filter : r.filter.Inv
  on : r.p.conf.emptyFilter = true
  hides : HidesNone intKey r.filter r.p

omit [DecidableEq κ] in
theorem Inv.isset (h : r.Inv intKey) (key : κ) : r.isset intKey key = r.filter.lastSet (intKey key) := by
  unfold FilterRun.isset
  rw [h.filter.refines]
  cases r.filter.lastSet (intKey key) <;> rfl

theorem Inv.performed {t u : CacheTask κ ρ} {w : CacheProcess κ ρ × CacheWork} {f : EmptyNodeFilter} (h : r.Inv intKey)
    (hd : Handled r.p t w) (hu : u.key = t.key) (hask : t.isset = r.isset intKey t.key)
    (ok : w.1.workFilterOk intKey r.filter u w.2)
    (hf : r.calls intKey ((w.1.workCall u w.2).map (fun b => (b, t.key))) = some f) :
    f.Inv ∧ HidesNone intKey f (w.1.perform u w.2) := by
  have hgrow : ∀ key, (w.1.workCall u w.2).map (fun b => (b, t.key)) = some (true, key) →
      r.filter.StepOk (.set (intKey key)) := by
    intro key hcall
    obtain ⟨b, hb, he⟩ := Option.map_eq_some_iff.mp hcall
    obtain ⟨rfl, rfl⟩ := Prod.mk.inj he
    rcases ok with hnone | ⟨-, hset⟩
    · unfold workCall at hb
      rw [hnone] at hb
      split at hb <;> cases hb
    · exact hu ▸ (hset hb).1
  obtain ⟨hinv, hbits⟩ := calls_lastSet h.filter hgrow hf
  refine ⟨hinv, h.hides.performed h.on hd hu h.filter.refines (hask.trans (h.isset _)) ok (fun bit hb => ?_)⟩
  rcases hbits bit hb with ⟨key, hcall, rfl⟩ | ⟨hset, hclr⟩
  · obtain ⟨b, hwork, he⟩ := Option.map_eq_some_iff.mp hcall
    obtain ⟨rfl, rfl⟩ := Prod.mk.inj he
    exact .inl ⟨hwork, rfl⟩
  · exact .inr ⟨hset, fun hcall => hclr t.key (by rw [hcall]; rfl)⟩

theorem Inv.step {a : FilterAction κ ρ} (h : r.Inv intKey) (ok : r.StepOk intKey a) (hst : r.step intKey a = some r') :
    r'.Inv intKey := by
  cases a with
  | other op =>
    obtain ⟨f, hf, rfl⟩ := Option.map_eq_some_iff.mp hst
    refine ⟨(h.filter.step hf).1 trivial, h.on, fun bit hb => h.hides bit ?_⟩
    unfold EmptyNodeFilter.step at hf
    rw [if_neg (by rw [h.filter.alive]; exact Bool.false_ne_true)] at hf
    dsimp only at hf
    split at hf
    · cases hf
    · obtain ⟨heap, -, rfl⟩ := Option.map_eq_some_iff.mp hf
      exact hb
  | emptyNode key =>
    obtain ⟨f, hf, rfl⟩ := Option.map_eq_some_iff.mp hst
    obtain ⟨hgrow, hle⟩ := ok
    have hcall : ∀ k, some (true, key) = some (true, k) → r.filter.StepOk (.set (intKey k)) := by
      intro k hk
      obtain rfl := congrArg Prod.snd (Option.some.inj hk)
      exact hgrow
    obtain ⟨hinv, hbits⟩ := calls_lastSet h.filter hcall hf
    have hown : OwnNodeOf (fun _ _ => True) r.p.release r.p.release := ⟨rfl, List.Sublist.refl _, fun _ _ => trivial⟩
    refine ⟨hinv, (congrArg CacheConf.emptyFilter hown.cachePurge.1).trans h.on, fun bit hb => ?_⟩
    rcases hbits bit hb with ⟨k, hk, rfl⟩ | ⟨hset, -⟩
    · obtain rfl := congrArg Prod.snd (Option.some.inj hk)
      have htotal := @cachePurge_total _ _ _ r.p.release key
        (fun n => (decide (intKey n.key = intKey key) && !n.rows.isEmpty).toNat)
      unfold rowsUnder at hle ⊢
      dsimp only at hle ⊢
      omega
    · have hzero : rowsUnder intKey bit r.p.release.nodes = 0 := h.hides bit hset
      exact Nat.eq_zero_of_le_zero (hzero ▸ total_sublist (cachePurge_sublist (p := r.p.release) rfl))
  | call a =>
    obtain ⟨f, hf, rfl⟩ := Option.map_eq_some_iff.mp hst
    have hon := (cacheStep_emptyFilter (p := r.p) (a := a.mapTask (r.asked intKey))).trans h.on
    have hno : r.p.stepCall (a.mapTask (r.asked intKey)) = none → f = r.filter := by
      intro hcall
      rw [hcall] at hf
      exact (Option.some.inj hf).symm
    have hplain : r.p.stepCall (a.mapTask (r.asked intKey)) = none → Plain (a.mapTask (r.asked intKey)) →
        Inv intKey { p := r.p.cacheStep (a.mapTask (r.asked intKey)), filter := f } := by
      intro hcall hp
      obtain rfl := hno hcall
      exact ⟨h.filter, hon, h.hides.of_le (fun _ => plain_total steady_rowsUnder hp)⟩
    cases a with
    | request t =>
      obtain ⟨hinv, hhides⟩ := h.performed (t := r.asked intKey t) handled_handles (by unfold marked; split <;> rfl) rfl ok hf
      exact ⟨hinv, hon, hhides⟩
    | reply t =>
      obtain ⟨hinv, hhides⟩ := h.performed (t := r.asked intKey t) handled_reply rfl rfl ok hf
      exact ⟨hinv, hon, hhides⟩
    | error t code =>
      obtain ⟨hinv, hhides⟩ := h.performed (t := r.asked intKey t) handled_error rfl rfl ok hf
      exact ⟨hinv, hon, hhides⟩
    | replaceRaw key rows allocates chunkFails =>
      obtain rfl := hno rfl
      refine ⟨h.filter, hon, h.hides.replaceRawNode (fun hs => ?_)⟩
      have hbit := ok hs
      rw [h.filter.refines] at hbit
      exact Bool.eq_false_iff.mpr (fun hb => hbit (congrArg some hb))
    | migrate key rows dirty allocates chunkFails =>
      obtain rfl := hno rfl
      refine ⟨h.filter, hon, h.hides.replaceRawNode (fun hs => ?_)⟩
      have hbit := ok hs
      rw [h.filter.refines] at hbit
      exact Bool.eq_false_iff.mpr (fun hb => hbit (congrArg some hb))
    | begin | finish | batchGet | purgeClean | purgeEmpty | flushTimer | purgeKey | migrated | touch | adjustLru | configure =>
      exact hplain rfl trivial

end FilterRun

/-- **A request that the filter answers hides no rows**: after every run whose steps meet the condition, the bit of a key that
has a node with rows is not set. -/
theorem filteredMachine_hidesNone {κ ρ : Type} [DecidableEq κ] {intKey : κ → UInt32} {r : FilterRun κ ρ}
    (h : (filteredMachine ρ intKey).ReachableMeeting (fun r a => r.StepOk intKey a) r) {n : CacheNode κ ρ}
    (hn : n ∈ r.p.nodes) (hrows : n.rows ≠ []) : r.filter.isset (intKey n.key) = some false := by
  have hinv : r.Inv intKey := by
    refine Machine.reachableMeeting_induct (filteredMachine ρ intKey) ?_ ?_ h
    · rintro r ⟨hfilter, conf, hp⟩
      have hr : r.filter.Inv := by
        obtain ⟨heap, step, mod, hheap, hi, -, hstep⟩ := hfilter
        exact EmptyNodeFilter.Inv.init hheap hi hstep
      refine ⟨hr, by rw [hp], fun bit _ => ?_⟩
      rw [hp]
      rfl
    · intro r a r' hr hok hst
      exact hr.step hok hst
  rw [hinv.filter.refines]
  cases hb : r.filter.lastSet (intKey n.key) with
  | false => rfl
  | true => exact absurd (rowsUnder_eq_zero.mp (hinv.hides _ hb) n hn rfl) hrows

def filteredRun : FilterRun Nat Nat := { p := { conf := { asyncConf with emptyFilter := true } }, filter := firstFilter }

theorem filteredRun_start : (filteredMachine Nat UInt32.ofNat).start filteredRun := ⟨firstFilter_start, asyncConf, rfl⟩

theorem filteredMachine_hidesNone_insert : ∃ r n, (filteredMachine Nat UInt32.ofNat).run filteredRun
    [.call .begin, .call (.reply (numberTask .get)), .call .finish,
      .call .begin, .call (.request (numberTask .insert)), .call .finish] = some r ∧
      n ∈ r.p.nodes ∧ n.rows ≠ [] ∧ r.filter.isset (UInt32.ofNat n.key) = some false := by
  have hrun : ((filteredMachine Nat UInt32.ofNat).run filteredRun
      [.call .begin, .call (.reply (numberTask .get)), .call .finish,
        .call .begin, .call (.request (numberTask .insert)), .call .finish]).map
        (fun r => r.p.nodes.map (fun n => n.rows.length)) = some [1] := by decide
  obtain ⟨r, hr, hlen⟩ := Option.map_eq_some_iff.mp hrun
  obtain ⟨n, rest, hnodes, hone, -⟩ := List.map_eq_cons_iff.mp hlen
  have hn : n ∈ r.p.nodes := hnodes ▸ List.mem_cons_self
  have hrows : n.rows ≠ [] := fun h => absurd (hone.symm.trans (congrArg List.length h)) (by decide)
  have hmeets : (filteredMachine Nat UInt32.ofNat).RunMeets (fun r a => r.StepOk UInt32.ofNat a) filteredRun
      [.call .begin, .call (.reply (numberTask .get)), .call .finish,
        .call .begin, .call (.request (numberTask .insert)), .call .finish] := by decide
  exact ⟨r, n, hr, hn, hrows, filteredMachine_hidesNone ⟨_, _, filteredRun_start, hmeets, hr⟩ hn hrows⟩

/-- The reply to a get sets the bit, and `cache_replace_raw_data` stores rows under it. -/
theorem filteredMachine_replaceRaw : ∃ r n, (filteredMachine Nat UInt32.ofNat).Reachable r ∧
    n ∈ r.p.nodes ∧ n.rows ≠ [] ∧ r.filter.isset (UInt32.ofNat n.key) = some true := by
  have hrun : ((filteredMachine Nat UInt32.ofNat).run filteredRun
      [.call .begin, .call (.reply (numberTask .get)), .call .finish, .call (.replaceRaw 1 [⟨false, 7⟩] true false)]).map
        (fun r => (r.p.nodes.map (fun n => (n.key, n.rows.length)), r.filter.isset 1)) = some ([(1, 1)], some true) := by
    decide
  obtain ⟨r, hr, he⟩ := Option.map_eq_some_iff.mp hrun
  obtain ⟨hmap, hset⟩ := Prod.mk.inj he
  obtain ⟨n, rest, hnodes, hone, -⟩ := List.map_eq_cons_iff.mp hmap
  obtain ⟨hkey, hlen⟩ := Prod.mk.inj hone
  refine ⟨r, n, ⟨_, _, filteredRun_start, hr⟩, hnodes ▸ List.mem_cons_self, fun h => ?_, hkey ▸ hset⟩
  exact absurd (hlen.symm.trans (congrArg List.length h)) (by decide)

end Dtc
