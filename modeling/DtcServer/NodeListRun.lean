import DtcServer.NodeList
/-!
# NodeListRun — every node in use is on one LRU list

Nodes are allocated for keys and put into a hash chain, or for time markers. A handler works on a node that it found in a
chain or allocated; others take nodes off the lists from their tails, purge them or move them.
-/
namespace Dtc

open Rings

/-- The nodes in use and those of them in the hash chains beside the shared memory, and the handler's node. -/
structure LruRun where
  info : NgInfo
  live : Finset CNode := ∅
  chained : Finset CNode := ∅
  stNode : Option CNode := none
  /-- the node is in a local of an admin handler -/
  isLocal : Bool := false

inductive LruEvent
  /-- `CacheFind`, with the node it finds -/
  | find (n : Option CNode) (isLocal : Bool)
  /-- the handler is done with its node -/
  | free
  /-- `CacheAllocate` by the handler -/
  | cacheAllocate (a : Answers)
  /-- `RemoveFromLru` and an insertion, by the handler -/
  | moveToLru (l : LruList)
  /-- `PurgeNode` by the handler -/
  | purgeNode
  /-- `CachePurge`, with the node it finds -/
  | cachePurge (n : CNode)
  /-- the loops of `TryPurgeSize` on the clean list, which pass over the reserve node -/
  | tryPurge (k : Nat)
  /-- the purges that no handler calls: of the tail of the clean or the empty list -/
  | purgeAt (l : LruList) (k : Nat)
  /-- a flush (dirty to clean), `UpgradeEmptyNodeList` and `MergeEmptyNodeList` -/
  | moveAt (l : LruList) (k : Nat) (dest : LruList)
  | insertTimeMarker (a : Answers) (t : Nat)
  | removeTimeMarker (k : Nat)
  /-- a write to another attribute of a node in a chain -/
  | write (n : CNode) (w : NodeWrite)

namespace LruRun

variable (r : LruRun)

/-- `PurgeNode`: the node leaves its chain and its list and is released. -/
def purge (n : CNode) : Option LruRun :=
  (r.info.removeFromLru n).map fun s =>
    { r with
      info := s.releaseNode n
      live := r.live.erase n
      chained := r.chained.erase n
      stNode := if r.stNode = some n then none else r.stNode }

def move (n : CNode) (dest : LruList) : Option LruRun :=
  ((r.info.removeFromLru n).bind fun s => s.insert2Lru n dest).map fun s => { r with info := s }

/-- What may be written: no link of an LRU list, and to `NextNodeID` what the hash chains need. -/
def mayWrite : NodeWrite → Prop
  | .nextNodeId id => id = invalidNodeId ∨ ∃ m ∈ r.chained, id = r.info.nodeID m
  | .vdHandle _ => True
  | .dirty _ => True
  | .lruPrev _ => False
  | .lruNext _ => False

instance (w : NodeWrite) : Decidable (r.mayWrite w) := by
  cases w <;> unfold mayWrite <;> infer_instance

def step : LruEvent → Option LruRun
  | .find n isLocal =>
    if ∀ m ∈ n, m ∈ r.chained then some { r with stNode := n, isLocal := isLocal } else none
  | .free => some { r with stNode := none }
  | .cacheAllocate a =>
    if r.stNode = none then
      match r.info.allocateNode a with
      | none => none
      | some (s, none) => some { r with info := s }
      | some (s, some n) => (s.insert2Lru n .clean).map fun s =>
        { r with info := s, live := insert n r.live, chained := insert n r.chained, stNode := some n }
    else none
  | .moveToLru l => r.stNode.bind fun n => r.move n l
  | .purgeNode => r.stNode.bind fun n => r.purge n
  | .cachePurge n =>
    if n ∈ r.chained then
      -- an admin handler returns after it
      (r.purge n).map fun r => if r.isLocal then { r with stNode := none } else r
    else none
  | .tryPurge k =>
    (r.info.nodeAt .clean k).bind fun n => if r.stNode = some n then some r else r.purge n
  | .purgeAt l k =>
    if l ≠ .dirty ∧ (r.isLocal = false ∨ r.stNode = none) then (r.info.nodeAt l k).bind fun n => r.purge n else none
  | .moveAt l k dest =>
    (r.info.nodeAt l k).bind fun n => if r.info.isTimeMarker n then none else r.move n dest
  | .insertTimeMarker a t =>
    match r.info.allocateNode a with
    | none => none
    | some (s, none) => some { r with info := s }
    | some (s, some n) =>
      let s := s.writeNode n (.nextNodeId timeMarkerNextNodeId)
      let s := s.writeNode n (.vdHandle t)
      (s.insert2Lru n .dirty).map fun s => { r with info := s, live := insert n r.live }
  | .removeTimeMarker k =>
    (r.info.nodeAt .dirty k).bind fun n =>
      if r.info.isTimeMarker n then
        (r.info.removeFromLru n).map fun s => { r with info := s.releaseNode n, live := r.live.erase n }
      else some r
  | .write n w =>
    if n ∈ r.chained ∧ r.mayWrite w then some { r with info := r.info.writeNode n w } else none

end LruRun

def lruMachine : Machine LruRun LruEvent where
  start r := ∃ memSize step info, NgInfo.ConfigOk memSize step ∧ NgInfo.init memSize step = some info ∧ r = { info := info }
  step := LruRun.step

namespace NodeGroup

variable {g g' : NodeGroup} {i : Nat}

def Unlinked (g : NodeGroup) : Prop := ∀ i, g.lruPrev i = g.nodeID i ∧ g.lruNext i = g.nodeID i

theorem allocateNode_attrs (h : g.allocateNode = some (i, g')) :
    g'.nid = g.nid ∧ g'.nextNodeId = Function.update g.nextNodeId i invalidNodeId ∧
      g'.lruPrev = Function.update g.lruPrev i (g.nodeID i) ∧ g'.lruNext = Function.update g.lruNext i (g.nodeID i) := by
  unfold allocateNode at h
  split at h
  · cases h
  · split at h
    · obtain ⟨rfl, rfl⟩ := Prod.mk.inj (Option.some.inj h)
      exact ⟨rfl, rfl, rfl, rfl⟩
    · obtain ⟨rfl, rfl⟩ := Prod.mk.inj (Option.some.inj h)
      exact ⟨rfl, rfl, rfl, rfl⟩

theorem Unlinked.allocateNode (hg : g.Unlinked) (h : g.allocateNode = some (i, g')) : g'.Unlinked := by
  obtain ⟨hnid, -, hprev, hnext⟩ := allocateNode_attrs h
  intro j
  have hid : g'.nodeID j = g.nodeID j := by
    unfold nodeID
    rw [hnid]
  rw [hprev, hnext, hid]
  by_cases hj : j = i
  · rw [hj, Function.update_self, Function.update_self]
    exact ⟨rfl, rfl⟩
  · rw [Function.update_of_ne hj, Function.update_of_ne hj]
    exact hg j

end NodeGroup

namespace NgInfo

variable {s s' : NgInfo} {live : Finset CNode} {n : CNode}

/-- The links and the chain pointer of a node are as they were. -/
def Kept (s s' : NgInfo) (n : CNode) : Prop :=
  s'.nextNodeId n = s.nextNodeId n ∧ s'.lruNext n = s.lruNext n ∧ s'.lruPrev n = s.lruPrev n

theorem kept_of_groups (h : s'.groups n.owner = s.groups n.owner) : Kept s s' n := by
  unfold Kept nextNodeId lruNext lruPrev
  rw [h]
  exact ⟨rfl, rfl, rfl⟩

theorem preAllocate_groups (group : Nat → Bool) : ∀ (n i : Nat) {s s' : NgInfo},
    NgInfo.preAllocate group n i s = some s' → s.usedNg ≤ s'.usedNg ∧ ∀ k < s.usedNg, s'.groups k = s.groups k
  | 0, i, s, s', h => by
    obtain rfl := Option.some.inj h
    exact ⟨Nat.le_refl _, fun _ _ => rfl⟩
  | n + 1, i, s, s', h => by
    rw [NgInfo.preAllocate] at h
    rcases halloc : s.allocateNG (group i) with _ | t
    · rw [halloc] at h
      dsimp only at h
      split at h
      · cases h
      · obtain rfl := Option.some.inj h
        exact ⟨Nat.le_refl _, fun _ _ => rfl⟩
    · rw [halloc] at h
      obtain ⟨-, rfl⟩ := allocateNG_eq halloc
      obtain ⟨hng, hgroups⟩ := preAllocate_groups group n (i + 1) h
      refine ⟨Nat.le_trans (Nat.le_succ _) hng, fun k hk => ?_⟩
      rw [hgroups k (Nat.lt_succ_of_lt hk)]
      exact Function.update_of_ne (Nat.ne_of_lt hk) _ _

theorem withFreeNG_groups {a : Answers} (h : s.withFreeNG a = some s') : ∀ k < s.usedNg, s'.groups k = s.groups k := by
  unfold NgInfo.withFreeNG at h
  split at h
  · obtain rfl := Option.some.inj h
    exact fun _ _ => rfl
  · split at h
    · cases h
    · next hpre =>
      obtain ⟨-, hgroups⟩ := preAllocate_groups a.group _ _ hpre
      obtain rfl := Option.some.inj h
      intro k hk
      rw [← hgroups k hk]
      split <;> rfl

theorem allocateFrom_groups {k : Nat} {got : Bool} (h : s.allocateFrom k got = (s', some n)) :
    n.owner = k ∧ ∃ g, (s.groups k).allocateNode = some (n.index, g) ∧ s'.groups = Function.update s.groups k g := by
  unfold NgInfo.allocateFrom at h
  split at h
  · cases h
  · next i g halloc =>
    obtain ⟨rfl, hn⟩ := Prod.mk.inj h
    obtain rfl := Option.some.inj hn
    refine ⟨rfl, g, halloc, ?_⟩
    obtain ⟨fiH, hins⟩ := insert_fiH (s := { (if g.isFull then ((s.setGroup k g).listDel k).fullListAdd k else s.setGroup k g) with
      usedNode := ((if g.isFull then ((s.setGroup k g).listDel k).fullListAdd k else s.setGroup k g).usedNode + 1) % 2 ^ 32 })
      ⟨k, i⟩ got
    rw [hins]
    dsimp only
    split <;> rfl

theorem Inv.allocateNode_kept (h : Inv s live) (hsound : s.IndexSound) {a : Answers}
    (hs : s.allocateNode a = some (s', some n)) :
    Inv s' (Insert.insert n live) ∧ s'.IndexSound ∧ n ∉ live ∧ s'.nextNodeId n = invalidNodeId ∧
      ∀ m, m.owner < s.usedNg → m ≠ n → Kept s s' m := by
  rcases h.allocateNode a with ⟨heq, -⟩ | ⟨s₁, t, n₁, hfree, -, -, heq, hnot, -⟩
  · rw [heq] at hs
    cases hs
  · rw [heq] at hs
    obtain ⟨-, hn⟩ := Prod.mk.inj (Option.some.inj hs)
    obtain rfl := Option.some.inj hn
    have hrun : NgRun.Inv { info := s, live := live } := ⟨h, hsound, fun n hn => absurd hn List.not_mem_nil⟩
    have hstep : ({ info := s, live := live } : NgRun).step (.allocate a) =
        some { info := s', live := Insert.insert n₁ live, returned := [n₁] } := by
      unfold NgRun.step
      dsimp only
      rw [heq, hs]
    obtain ⟨hinv, hsound', -⟩ := NgRun.inv_step hrun hstep
    unfold NgInfo.allocateNode at heq
    rw [hfree] at heq
    dsimp only at heq
    split at heq
    · cases heq
    · next k hk =>
      rw [hs] at heq
      obtain ⟨rfl, g, halloc, hgroups⟩ := allocateFrom_groups (Option.some.inj heq)
      obtain ⟨-, hchain, hprev, hnext⟩ := NodeGroup.allocateNode_attrs halloc
      refine ⟨hinv, hsound', hnot, ?_, fun m hm hne => ?_⟩
      · unfold nextNodeId
        rw [hgroups, Function.update_self, hchain, Function.update_self]
      · have hsame : s₁.groups m.owner = s.groups m.owner := withFreeNG_groups hfree m.owner hm
        by_cases howner : m.owner = n₁.owner
        · have hindex : m.index ≠ n₁.index := by
            intro hi
            obtain ⟨mo, mi⟩ := m
            obtain ⟨no, ni⟩ := n₁
            exact hne (CNode.mk.injEq .. ▸ ⟨howner, hi⟩)
          unfold Kept nextNodeId lruNext lruPrev
          rw [hgroups, ← hsame, howner, Function.update_self, hchain, hprev, hnext, Function.update_of_ne hindex,
            Function.update_of_ne hindex, Function.update_of_ne hindex]
          exact ⟨rfl, rfl, rfl⟩
        · refine kept_of_groups ?_
          rw [hgroups, Function.update_of_ne howner, hsame]

theorem releaseNode_kept (s : NgInfo) {n m : CNode} (hne : m ≠ n) : Kept s (s.releaseNode n) m := by
  have hgroups : (s.releaseNode n).groups = Function.update s.groups n.owner ((s.groups n.owner).releaseNode n.index) := by
    unfold NgInfo.releaseNode
    dsimp only
    split <;> rfl
  by_cases howner : m.owner = n.owner
  · have hindex : m.index ≠ n.index := by
      intro hi
      obtain ⟨mo, mi⟩ := m
      obtain ⟨no, ni⟩ := n
      exact hne (CNode.mk.injEq .. ▸ ⟨howner, hi⟩)
    unfold Kept nextNodeId lruNext lruPrev
    rw [hgroups, howner, Function.update_self]
    exact ⟨Function.update_of_ne hindex _ _, Function.update_of_ne hindex _ _, Function.update_of_ne hindex _ _⟩
  · refine kept_of_groups ?_
    rw [hgroups, Function.update_of_ne howner]

theorem Inv.releaseNode_sound (h : Inv s live) (hsound : s.IndexSound) (hn : n ∈ live) :
    Inv (s.releaseNode n) (live.erase n) ∧ (s.releaseNode n).IndexSound := by
  have hrun : NgRun.Inv { info := s, live := live } := ⟨h, hsound, fun n hn => absurd hn List.not_mem_nil⟩
  have hstep : ({ info := s, live := live } : NgRun).step (.release n) =
      some { info := s.releaseNode n, live := live.erase n } := by
    unfold NgRun.step
    dsimp only
    rw [if_pos hn]
  obtain ⟨hinv, hsound', -⟩ := NgRun.inv_step hrun hstep
  exact ⟨hinv, hsound'⟩

theorem allocateHead_unlinked (hs : s.allocateHead = some s') (h : (s.groups 0).Unlinked) : (s'.groups 0).Unlinked := by
  unfold NgInfo.allocateHead at hs
  split at hs
  · cases hs
  · next i g halloc =>
    obtain rfl := Option.some.inj hs
    obtain ⟨fiH, hins⟩ := insert_fiH (s := s.setGroup 0 (g.initNodeListHead i)) ⟨0, i⟩ true
    rw [hins]
    change NodeGroup.Unlinked (Function.update s.groups 0 (g.initNodeListHead i) 0)
    rw [Function.update_self]
    intro j
    change Function.update g.lruPrev i (g.nodeID i) j = g.nodeID j ∧ Function.update g.lruNext i (g.nodeID i) j = g.nodeID j
    by_cases hj : j = i
    · rw [hj, Function.update_self, Function.update_self]
      exact ⟨rfl, rfl⟩
    · rw [Function.update_of_ne hj, Function.update_of_ne hj]
      exact h.allocateNode halloc j

theorem init_unlinked {memSize step : Nat} (hs : NgInfo.init memSize step = some s) : (s.groups 0).Unlinked := by
  unfold NgInfo.init at hs
  obtain ⟨s₀, h₀, hs⟩ := Option.bind_eq_some_iff.mp hs
  obtain ⟨s₁, h₁, hs⟩ := Option.bind_eq_some_iff.mp hs
  obtain ⟨s₂, h₂, hs⟩ := Option.bind_eq_some_iff.mp hs
  obtain ⟨s₃, h₃, hs⟩ := Option.bind_eq_some_iff.mp hs
  obtain rfl := Option.some.inj hs
  change (s₃.groups 0).Unlinked
  refine allocateHead_unlinked h₃ (allocateHead_unlinked h₂ (allocateHead_unlinked h₁ ?_))
  obtain ⟨-, rfl⟩ := allocateNG_eq h₀
  intro i
  exact ⟨rfl, rfl⟩

theorem ringed_init (h : Inv s ∅) (hs : (s.groups 0).Unlinked) : s.Ringed ∅ (fun _ => []) := by
  have hown : ∀ l : LruList, s.idNext l.head.id = l.head.id ∧ s.idPrev l.head.id = l.head.id := by
    intro l
    have hid := nodeID_node h (head_node h l)
    obtain ⟨howner, hi⟩ := head_index l
    rw [idNext_id hi, idPrev_id hi, ← hid]
    unfold nodeID lruNext lruPrev
    rw [howner]
    exact (hs _).symm
  refine ⟨⟨fun l => ?_, fun l => List.nodup_singleton _, fun l l' x hx hx' => ?_⟩, fun n hn => absurd hn (Finset.notMem_empty n),
    fun x => iff_of_false (fun ⟨_, hx⟩ => absurd hx List.not_mem_nil) (fun ⟨n, hn, _⟩ => absurd hn (Finset.notMem_empty n))⟩
  · exact List.isChain_cons_cons.mpr ⟨hown l, List.isChain_singleton _⟩
  · rw [List.mem_singleton] at hx hx'
    have he : l.head = l'.head := id_inj (head_index l).2 (head_index l').2 (hx.symm.trans hx')
    cases l <;> cases l' <;> first | rfl | exact absurd he (by decide)

def toAttribute : NodeWrite → Bool
  | .lruPrev _ => false
  | .lruNext _ => false
  | _ => true

theorem writeNode_links {w : NodeWrite} (hw : toAttribute w = true) (n m : CNode) :
    (s.writeNode n w).lruNext m = s.lruNext m ∧ (s.writeNode n w).lruPrev m = s.lruPrev m := by
  unfold lruNext lruPrev writeNode setGroup
  dsimp only
  by_cases hm : m.owner = n.owner
  · rw [hm, Function.update_self]
    cases w with
    | lruPrev id => cases hw
    | lruNext id => cases hw
    | nextNodeId id => exact ⟨rfl, rfl⟩
    | vdHandle handle => exact ⟨rfl, rfl⟩
    | dirty d => exact ⟨rfl, rfl⟩
  · rw [Function.update_of_ne hm]
    exact ⟨rfl, rfl⟩

theorem writeNode_nextNodeId (n m : CNode) (w : NodeWrite) :
    (s.writeNode n w).nextNodeId m = s.nextNodeId m ∨ m = n ∧ w = .nextNodeId ((s.writeNode n w).nextNodeId m) := by
  unfold nextNodeId writeNode setGroup
  dsimp only
  by_cases hm : m.owner = n.owner
  · rw [hm, Function.update_self]
    cases w with
    | nextNodeId id =>
      by_cases hi : m.index = n.index
      · refine .inr ⟨?_, ?_⟩
        · obtain ⟨mo, mi⟩ := m
          obtain ⟨no, ni⟩ := n
          exact CNode.mk.injEq .. ▸ ⟨hm, hi⟩
        · rw [hi]
          exact congrArg NodeWrite.nextNodeId (Function.update_self n.index id (s.groups n.owner).nextNodeId).symm
      · exact .inl (Function.update_of_ne hi _ _)
    | lruPrev id => exact .inl rfl
    | lruNext id => exact .inl rfl
    | vdHandle handle => exact .inl rfl
    | dirty d => exact .inl rfl
  · rw [Function.update_of_ne hm]
    exact .inl rfl

end NgInfo

open NgInfo

namespace LruRun

variable {r r' : LruRun} {n : CNode}

/-- A node in use that is in no chain is a time marker, on the dirty list. -/
def Marked (r : LruRun) (lists : LruList → List Nat) : Prop :=
  ∀ n ∈ r.live, n ∉ r.chained → r.info.nextNodeId n = timeMarkerNextNodeId ∧ n.id ∈ lists .dirty

structure Inv (r : LruRun) : Prop where
  info : NgInfo.Inv r.info r.live
  sound : r.info.IndexSound
  chained : ∀ n ∈ r.chained, n ∈ r.live ∧ r.info.nextNodeId n ≠ timeMarkerNextNodeId
  stNode : ∀ n, r.stNode = some n → n ∈ r.chained
  rings : ∃ lists, r.info.Ringed r.live lists ∧ r.Marked lists

theorem inv_start (h : lruMachine.start r) : Inv r := by
  obtain ⟨memSize, step, info, hconf, hinit, rfl⟩ := h
  obtain ⟨s, hs, hinv, hsound, -, -⟩ := init_spec hconf
  obtain rfl := Option.some.inj (hinit.symm.trans hs)
  exact ⟨hinv, hsound, fun n hn => absurd hn (Finset.notMem_empty n), fun n hn => (nomatch hn),
    _, ringed_init hinv (init_unlinked hinit), fun n hn => absurd hn (Finset.notMem_empty n)⟩

theorem ne_of_owner (hn : 1 ≤ n.owner) (l : LruList) : l.head ≠ n := by
  rintro rfl
  rw [(head_index l).1] at hn
  exact absurd hn (by decide)

theorem mem_update_erase {lists : LruList → List Nat} {l l' : LruList} {x y : Nat} (hne : y ≠ x) (hy : y ∈ lists l') :
    y ∈ Function.update lists l ((lists l).erase x) l' := by
  by_cases hl : l' = l
  · subst hl
    rw [Function.update_self]
    exact (List.mem_erase_of_ne hne).mpr hy
  · rw [Function.update_of_ne hl]
    exact hy

theorem mem_update_cons {lists : LruList → List Nat} {l l' : LruList} {x y : Nat} (hy : y ∈ lists l') :
    y ∈ Function.update lists l (x :: lists l) l' := by
  by_cases hl : l' = l
  · subst hl
    rw [Function.update_self]
    exact List.mem_cons_of_mem _ hy
  · rw [Function.update_of_ne hl]
    exact hy

theorem Inv.id_ne (h : Inv r) {m : CNode} (hn : n ∈ r.live) (hm : m ∈ r.live) (hne : m ≠ n) : m.id ≠ n.id :=
  fun he => hne (id_inj (h.info.index_lt hm) (h.info.index_lt hn) he)

theorem inv_move {dest : LruList} (h : Inv r) (hn : n ∈ r.chained) (hs : r.move n dest = some r') : Inv r' := by
  unfold move at hs
  obtain ⟨s', hmoved, rfl⟩ := Option.map_eq_some_iff.mp hs
  obtain ⟨s, hrem, hins⟩ := Option.bind_eq_some_iff.mp hmoved
  obtain ⟨lists, hr, hmark⟩ := h.rings
  have hlive := (h.chained n hn).1
  obtain ⟨hrel, l, -, hr'⟩ := hr.removeFromLru h.info h.sound hlive hlive hrem
  have hsound := hrel.sound h.sound
  obtain ⟨hrel', hr''⟩ := hr'.insert2Lru hrel.inv hsound hlive (Finset.notMem_erase n r.live) hins
  rw [Finset.insert_erase hlive] at hr''
  refine ⟨hrel'.inv, hrel'.sound hsound, fun m hm => ?_, h.stNode, _, hr'', fun m hm hout => ?_⟩
  · rw [hrel'.next, hrel.next]
    exact h.chained m hm
  · obtain ⟨hnext, hmem⟩ := hmark m hm hout
    rw [hrel'.next, hrel.next]
    exact ⟨hnext, mem_update_cons (mem_update_erase (h.id_ne hlive hm (fun he => hout (he ▸ hn))) hmem)⟩

theorem released (h : Inv r) {s : NgInfo} (hn : n ∈ r.live) (hrem : r.info.removeFromLru n = some s) :
    NgInfo.Inv (s.releaseNode n) (r.live.erase n) ∧ (s.releaseNode n).IndexSound ∧
      (∀ m, m ≠ n → (s.releaseNode n).nextNodeId m = r.info.nextNodeId m) ∧
      ∀ lists, r.info.Ringed r.live lists → ∃ l, n.id ∈ lists l ∧
        (s.releaseNode n).Ringed (r.live.erase n) (Function.update lists l ((lists l).erase n.id)) := by
  obtain ⟨lists₀, hr₀, -⟩ := h.rings
  have hrel := (hr₀.removeFromLru h.info h.sound hn hn hrem).1
  obtain ⟨hinv, hsound⟩ := hrel.inv.releaseNode_sound (hrel.sound h.sound) hn
  refine ⟨hinv, hsound, fun m hm => (releaseNode_kept s hm).1.trans (hrel.next m), fun lists hr => ?_⟩
  obtain ⟨-, l, hl, hr'⟩ := hr.removeFromLru h.info h.sound hn hn hrem
  refine ⟨l, hl, hr'.congr (fun l => ?_) (fun m hm => ?_)⟩
  · exact (releaseNode_kept s (ne_of_owner (h.info.owner n hn).1 l)).2
  · exact (releaseNode_kept s (Finset.ne_of_mem_erase hm)).2

theorem Inv.marked_erase (h : Inv r) {s : NgInfo} {lists : LruList → List Nat} {l : LruList} (hn : n ∈ r.live)
    (hmark : r.Marked lists) (hnext : ∀ m, m ≠ n → s.nextNodeId m = r.info.nextNodeId m) :
    ∀ m ∈ r.live.erase n, m ∉ r.chained →
      s.nextNodeId m = timeMarkerNextNodeId ∧ m.id ∈ Function.update lists l ((lists l).erase n.id) .dirty := by
  intro m hm hout
  obtain ⟨hne, hlive⟩ := Finset.mem_erase.mp hm
  obtain ⟨hm1, hm2⟩ := hmark m hlive hout
  rw [hnext m hne]
  exact ⟨hm1, mem_update_erase (h.id_ne hn hlive hne) hm2⟩

theorem purge_ringed (h : Inv r) (hn : n ∈ r.live) (hs : r.purge n = some r') {lists : LruList → List Nat}
    (hr : r.info.Ringed r.live lists) (hmark : r.Marked lists) :
    ∃ l, n.id ∈ lists l ∧ r'.info.Ringed r'.live (Function.update lists l ((lists l).erase n.id)) ∧
      r'.Marked (Function.update lists l ((lists l).erase n.id)) := by
  unfold purge at hs
  obtain ⟨s, hrem, rfl⟩ := Option.map_eq_some_iff.mp hs
  obtain ⟨-, -, hnext, hrings⟩ := released h hn hrem
  obtain ⟨l, hl, hr'⟩ := hrings lists hr
  refine ⟨l, hl, hr', fun m hm hout => ?_⟩
  have hne := (Finset.mem_erase.mp hm).1
  exact h.marked_erase hn hmark hnext m hm (fun hm' => hout (Finset.mem_erase.mpr ⟨hne, hm'⟩))

theorem inv_purge (h : Inv r) (hn : n ∈ r.live) (hs : r.purge n = some r') : Inv r' := by
  obtain ⟨lists, hr, hmark⟩ := h.rings
  obtain ⟨l, -, hr', hmark'⟩ := purge_ringed h hn hs hr hmark
  unfold purge at hs
  obtain ⟨s, hrem, rfl⟩ := Option.map_eq_some_iff.mp hs
  obtain ⟨hinv, hsound, hnext, -⟩ := released h hn hrem
  refine ⟨hinv, hsound, fun m hm => ?_, fun m hm => ?_, _, hr', hmark'⟩
  · obtain ⟨hne, hm⟩ := Finset.mem_erase.mp hm
    obtain ⟨hlive, hmark⟩ := h.chained m hm
    refine ⟨Finset.mem_erase.mpr ⟨hne, hlive⟩, ?_⟩
    rw [hnext m hne]
    exact hmark
  · dsimp only at hm
    split at hm
    · cases hm
    · next hne => exact Finset.mem_erase.mpr ⟨fun he => hne (he ▸ hm), h.stNode m hm⟩

theorem added (h : Inv r) {a : Answers} {s s' s'' : NgInfo} {l : LruList} (hs : r.info.allocateNode a = some (s, some n))
    (hwrite : ∀ live, n ∈ live → NgInfo.Inv s live → NgInfo.Inv s' live) (hsound : s.IndexSound → s'.IndexSound)
    (hlinks : ∀ m, s'.lruNext m = s.lruNext m ∧ s'.lruPrev m = s.lruPrev m) (hins : s'.insert2Lru n l = some s'') :
    NgInfo.Inv s'' (insert n r.live) ∧ s''.IndexSound ∧ n ∉ r.live ∧ (∀ m, s''.nextNodeId m = s'.nextNodeId m) ∧
      s.nextNodeId n = invalidNodeId ∧ (∀ m ∈ r.live, s.nextNodeId m = r.info.nextNodeId m) ∧
      ∃ lists, r.Marked lists ∧ s''.Ringed (insert n r.live) (Function.update lists l (n.id :: lists l)) := by
  obtain ⟨lists, hr, hmark⟩ := h.rings
  obtain ⟨hinv, hsound₁, hnot, hnext, hkept⟩ := h.info.allocateNode_kept h.sound hs
  have hn := Finset.mem_insert_self n r.live
  have howner := (hinv.owner n hn).1
  have hne : ∀ m ∈ r.live, m ≠ n := fun m hm he => hnot (he ▸ hm)
  have hr' : s'.Ringed r.live lists := by
    refine hr.congr (fun l => ?_) (fun m hm => ?_)
    · have hk := hkept l.head ((head_node h.info l).1) (ne_of_owner howner l)
      rw [(hlinks l.head).1, (hlinks l.head).2]
      exact hk.2
    · have hk := hkept m (h.info.owner m hm).2 (hne m hm)
      rw [(hlinks m).1, (hlinks m).2]
      exact hk.2
  obtain ⟨hrel, hr''⟩ := hr'.insert2Lru (hwrite _ hn hinv) (hsound hsound₁) hn hnot hins
  exact ⟨hrel.inv, hrel.sound (hsound hsound₁), hnot, hrel.next, hnext,
    fun m hm => (hkept m (h.info.owner m hm).2 (hne m hm)).1, lists, hmark, hr''⟩

theorem nodeAt_live (h : Inv r) {l : LruList} {k : Nat} (hn : r.info.nodeAt l k = some n) : n ∈ r.live := by
  obtain ⟨lists, hr, -⟩ := h.rings
  obtain ⟨hmem, hi⟩ := hr.nodeAt h.info h.sound k hn
  exact hr.mem hi hmem

theorem inv_cacheAllocate {a : Answers} (h : Inv r) (hs : r.step (.cacheAllocate a) = some r') : Inv r' := by
  unfold step at hs
  dsimp only at hs
  split at hs
  · split at hs
    · cases hs
    · next s halloc =>
      obtain rfl := Option.some.inj hs
      rcases h.info.allocateNode a with ⟨heq, -⟩ | ⟨_, t, n, -, -, -, heq, -⟩
      · rw [halloc] at heq
        obtain ⟨rfl, -⟩ := Prod.mk.inj (Option.some.inj heq)
        exact h
      · rw [halloc] at heq
        cases (Prod.mk.inj (Option.some.inj heq)).2
    · next s n halloc =>
      obtain ⟨s', hins, rfl⟩ := Option.map_eq_some_iff.mp hs
      obtain ⟨hinv, hsound, hnot, hsame, hnext, hkept, lists, hmarked, hr⟩ :=
        added h halloc (fun _ _ hinv => hinv) id (fun _ => ⟨rfl, rfl⟩) hins
      refine ⟨hinv, hsound, fun m hm => ?_, fun m hm => ?_, _, hr, fun m hm hout => ?_⟩
      · dsimp only
        rw [hsame m]
        rcases Finset.mem_insert.mp hm with rfl | hm
        · refine ⟨Finset.mem_insert_self _ _, ?_⟩
          rw [hnext]
          decide
        · obtain ⟨hlive, hmark⟩ := h.chained m hm
          refine ⟨Finset.mem_insert_of_mem hlive, ?_⟩
          rw [hkept m hlive]
          exact hmark
      · obtain rfl := Option.some.inj hm
        exact Finset.mem_insert_self _ _
      · dsimp only at hm hout ⊢
        rw [Finset.mem_insert, not_or] at hout
        have hlive := Finset.mem_of_mem_insert_of_ne hm hout.1
        obtain ⟨hm1, hm2⟩ := hmarked m hlive hout.2
        rw [hsame m, hkept m hlive]
        exact ⟨hm1, mem_update_cons hm2⟩
  · cases hs

theorem inv_insertTimeMarker {a : Answers} {t : Nat} (h : Inv r) (hs : r.step (.insertTimeMarker a t) = some r') : Inv r' := by
  unfold step at hs
  dsimp only at hs
  split at hs
  · cases hs
  · next s halloc =>
    obtain rfl := Option.some.inj hs
    rcases h.info.allocateNode a with ⟨heq, -⟩ | ⟨_, t, n, -, -, -, heq, -⟩
    · rw [halloc] at heq
      obtain ⟨rfl, -⟩ := Prod.mk.inj (Option.some.inj heq)
      exact h
    · rw [halloc] at heq
      cases (Prod.mk.inj (Option.some.inj heq)).2
  · next s n halloc =>
    obtain ⟨s', hins, rfl⟩ := Option.map_eq_some_iff.mp hs
    have hlinks : ∀ m, ((s.writeNode n (.nextNodeId timeMarkerNextNodeId)).writeNode n (.vdHandle t)).lruNext m = s.lruNext m ∧
        ((s.writeNode n (.nextNodeId timeMarkerNextNodeId)).writeNode n (.vdHandle t)).lruPrev m = s.lruPrev m := by
      intro m
      obtain ⟨h₁, h₂⟩ := writeNode_links (s := s) (w := .nextNodeId timeMarkerNextNodeId) rfl n m
      obtain ⟨h₃, h₄⟩ := writeNode_links (s := s.writeNode n (.nextNodeId timeMarkerNextNodeId)) (w := .vdHandle t) rfl n m
      exact ⟨h₃.trans h₁, h₄.trans h₂⟩
    have hwrite : ∀ live, n ∈ live → NgInfo.Inv s live →
        NgInfo.Inv ((s.writeNode n (.nextNodeId timeMarkerNextNodeId)).writeNode n (.vdHandle t)) live :=
      fun _ hn hinv => (hinv.write (w := .nextNodeId timeMarkerNextNodeId) (.inl rfl)).write (.inr hn)
    obtain ⟨hinv, hsound, hnot, hsame, -, hkept, lists, hmarked, hr⟩ := added h halloc hwrite id hlinks hins
    have hself : (s.writeNode n (.nextNodeId timeMarkerNextNodeId)).nextNodeId n = timeMarkerNextNodeId := by
      unfold nextNodeId writeNode setGroup
      dsimp only
      rw [Function.update_self]
      exact Function.update_self ..
    have hothers : ∀ m ∈ r.live, s'.nextNodeId m = r.info.nextNodeId m := by
      intro m hlive
      have hne : m ≠ n := fun he => hnot (he ▸ hlive)
      rw [hsame m]
      rcases writeNode_nextNodeId (s := s.writeNode n (.nextNodeId timeMarkerNextNodeId)) n m (.vdHandle t) with he | ⟨he, -⟩
      · rw [he]
        rcases writeNode_nextNodeId (s := s) n m (.nextNodeId timeMarkerNextNodeId) with he | ⟨he, -⟩
        · rw [he, hkept m hlive]
        · exact absurd he hne
      · exact absurd he hne
    refine ⟨hinv, hsound, fun m hm => ?_, h.stNode, _, hr, fun m hm hout => ?_⟩
    · obtain ⟨hlive, hmark⟩ := h.chained m hm
      refine ⟨Finset.mem_insert_of_mem hlive, ?_⟩
      dsimp only
      rw [hothers m hlive]
      exact hmark
    · rcases Finset.mem_insert.mp hm with rfl | hlive
      · refine ⟨?_, ?_⟩
        · dsimp only
          rw [hsame m]
          rcases writeNode_nextNodeId (s := s.writeNode m (.nextNodeId timeMarkerNextNodeId)) m m (.vdHandle t) with he | ⟨-, he⟩
          · rw [he, hself]
          · cases he
        · rw [Function.update_self]
          exact List.mem_cons_self
      · obtain ⟨hm1, hm2⟩ := hmarked m hlive hout
        dsimp only
        rw [hothers m hlive]
        exact ⟨hm1, mem_update_cons hm2⟩

theorem inv_removeTimeMarker {k : Nat} (h : Inv r) (hs : r.step (.removeTimeMarker k) = some r') : Inv r' := by
  unfold step at hs
  dsimp only at hs
  obtain ⟨n, hat, hs⟩ := Option.bind_eq_some_iff.mp hs
  have hn := nodeAt_live h hat
  split at hs
  · next hmarker =>
    obtain ⟨s, hrem, rfl⟩ := Option.map_eq_some_iff.mp hs
    obtain ⟨hinv, hsound, hnext, hr⟩ := released h hn hrem
    obtain ⟨lists, hr₀, hmarked⟩ := h.rings
    obtain ⟨l, -, hr⟩ := hr lists hr₀
    refine ⟨hinv, hsound, fun m hm => ?_, h.stNode, _, hr, h.marked_erase hn hmarked hnext⟩
    obtain ⟨hlive, hmark⟩ := h.chained m hm
    have hne : m ≠ n := fun he => hmark (of_decide_eq_true (he ▸ hmarker))
    refine ⟨Finset.mem_erase.mpr ⟨hne, hlive⟩, ?_⟩
    rw [hnext m hne]
    exact hmark
  · obtain rfl := Option.some.inj hs
    exact h

theorem inv_write {w : NodeWrite} (h : Inv r) (hs : r.step (.write n w) = some r') : Inv r' := by
  unfold step at hs
  dsimp only at hs
  split at hs
  · next hn =>
    obtain ⟨hn, hw⟩ := hn
    obtain rfl := Option.some.inj hs
    have hlive := (h.chained n hn).1
    have hattr : toAttribute w = true := by
      cases w with
      | lruPrev id => exact hw.elim
      | lruNext id => exact hw.elim
      | nextNodeId id => rfl
      | vdHandle handle => rfl
      | dirty d => rfl
    obtain ⟨lists, hr, hmarked⟩ := h.rings
    refine ⟨h.info.write (.inr hlive), h.sound, fun m hm => ⟨(h.chained m hm).1, ?_⟩, h.stNode, lists,
      hr.congr (fun l => writeNode_links hattr n l.head) (fun m _ => writeNode_links hattr n m), fun m hm hout => ?_⟩
    · rcases writeNode_nextNodeId (s := r.info) n m w with he | ⟨-, hid⟩
      · dsimp only
        rw [he]
        exact (h.chained m hm).2
      · rw [hid] at hw
        dsimp only
        rcases hw with he | ⟨x, hx, he⟩
        · rw [he]
          decide
        · have hxlive := (h.chained x hx).1
          have hng := h.info.usedNg_lt
          rw [he, h.info.nodeID_eq (h.info.owner x hxlive).2 (h.info.index_lt hxlive)]
          have hi := h.info.index_lt hxlive
          have ho := (h.info.owner x hxlive).2
          unfold timeMarkerNextNodeId invalidNodeId
          omega
    · obtain ⟨hm1, hm2⟩ := hmarked m hm hout
      refine ⟨?_, hm2⟩
      rcases writeNode_nextNodeId (s := r.info) n m w with he | ⟨rfl, -⟩
      · exact he.trans hm1
      · exact absurd hn hout
  · cases hs

theorem inv_step {e : LruEvent} (h : Inv r) (hs : r.step e = some r') : Inv r' := by
  cases e with
  | find n isLocal =>
    unfold step at hs
    dsimp only at hs
    split at hs
    · next hn =>
      obtain rfl := Option.some.inj hs
      exact ⟨h.info, h.sound, h.chained, hn, h.rings⟩
    · cases hs
  | free =>
    obtain rfl := Option.some.inj hs
    exact ⟨h.info, h.sound, h.chained, fun _ hm => (nomatch hm), h.rings⟩
  | cacheAllocate a => exact inv_cacheAllocate h hs
  | moveToLru l =>
    obtain ⟨n, hn, hs⟩ := Option.bind_eq_some_iff.mp hs
    exact inv_move h (h.stNode n hn) hs
  | purgeNode =>
    obtain ⟨n, hn, hs⟩ := Option.bind_eq_some_iff.mp hs
    exact inv_purge h (h.chained n (h.stNode n hn)).1 hs
  | cachePurge n =>
    unfold step at hs
    dsimp only at hs
    split at hs
    · next hn =>
      obtain ⟨t, ht, rfl⟩ := Option.map_eq_some_iff.mp hs
      have hinv := inv_purge h (h.chained n hn).1 ht
      split
      · exact ⟨hinv.info, hinv.sound, hinv.chained, fun _ hm => (nomatch hm), hinv.rings⟩
      · exact hinv
    · cases hs
  | tryPurge k =>
    obtain ⟨n, hat, hs⟩ := Option.bind_eq_some_iff.mp hs
    split at hs
    · obtain rfl := Option.some.inj hs
      exact h
    · exact inv_purge h (nodeAt_live h hat) hs
  | purgeAt l k =>
    unfold step at hs
    dsimp only at hs
    split at hs
    · obtain ⟨n, hat, hs⟩ := Option.bind_eq_some_iff.mp hs
      exact inv_purge h (nodeAt_live h hat) hs
    · cases hs
  | moveAt l k dest =>
    obtain ⟨n, hat, hs⟩ := Option.bind_eq_some_iff.mp hs
    split at hs
    · cases hs
    · next hnot =>
      have hchained : n ∈ r.chained := by
        by_contra hout
        obtain ⟨_, _, hmarked⟩ := h.rings
        exact hnot (decide_eq_true (hmarked n (nodeAt_live h hat) hout).1)
      exact inv_move h hchained hs
  | insertTimeMarker a t => exact inv_insertTimeMarker h hs
  | removeTimeMarker k => exact inv_removeTimeMarker h hs
  | write n w => exact inv_write h hs

theorem inv_of_reachable (h : lruMachine.Reachable r) : Inv r :=
  lruMachine.reachable_induct (fun _ => inv_start) (fun _ _ _ hinv hs => inv_step hinv hs) h

end LruRun

/-- **The LRU lists of a state**: rings through their heads, by the ids in the links; each node in use is on one of them,
once, and no other node is. -/
structure LruLists (r : LruRun) (lists : LruList → List CNode) : Prop where
  ring : ∀ l, Ring r.info.idNext r.info.idPrev (r.info.nodeID l.head) ((lists l).map r.info.nodeID)
  one : ∀ n ∈ r.live, ∃! l, n ∈ lists l
  others : ∀ l, ∀ n ∈ lists l, n ∈ r.live
  nodup : ∀ l, (lists l).Nodup
  heads : ∀ l l' : LruList, l.head ∉ lists l'
  handler : ∀ n, r.stNode = some n → n ∈ r.live

/-- **The LRU rings** in every run. -/
theorem lruMachine_rings {r : LruRun} (h : lruMachine.Reachable r) : ∃ lists, LruLists r lists := by
  have hinv := LruRun.inv_of_reachable h
  obtain ⟨ids, hr, -⟩ := hinv.rings
  have hnode : ∀ l, ∀ x ∈ ids l, (⟨x / 256, x % 256⟩ : CNode) ∈ r.live ∧ CNode.id ⟨x / 256, x % 256⟩ = x := by
    intro l x hx
    obtain ⟨n, hn, rfl⟩ := (hr.all x).mp ⟨l, hx⟩
    rw [node_of_id (hr.nodes n hn).2]
    exact ⟨hn, rfl⟩
  have hmem : ∀ l n, n ∈ (ids l).map (fun x => (⟨x / 256, x % 256⟩ : CNode)) ↔ n ∈ r.live ∧ n.id ∈ ids l := by
    intro l n
    constructor
    · intro hn
      obtain ⟨x, hx, rfl⟩ := List.mem_map.mp hn
      obtain ⟨hlive, hid⟩ := hnode l x hx
      exact ⟨hlive, hid.symm ▸ hx⟩
    · rintro ⟨hn, hx⟩
      exact List.mem_map.mpr ⟨n.id, hx, node_of_id (hr.nodes n hn).2⟩
  refine ⟨fun l => (ids l).map fun x => ⟨x / 256, x % 256⟩, fun l => ?_, fun n hn => ?_, fun l n hn => ((hmem l n).mp hn).1,
    fun l => ?_, fun l l' hx => ?_, fun n hn => (hinv.chained n (hinv.stNode n hn)).1⟩
  · have hids : ((ids l).map fun x => (⟨x / 256, x % 256⟩ : CNode)).map r.info.nodeID = ids l := by
      rw [List.map_map]
      refine (List.map_congr_left fun x hx => ?_).trans (List.map_id _)
      obtain ⟨hlive, hid⟩ := hnode l x hx
      exact (nodeID_node hinv.info ⟨(hinv.info.owner _ hlive).2, hinv.info.index_lt hlive⟩).trans hid
    rw [hids, nodeID_node hinv.info (head_node hinv.info l)]
    exact hr.family.ring l
  · obtain ⟨l, hx⟩ := (hr.all n.id).mpr ⟨n, hn, rfl⟩
    refine ⟨l, (hmem l n).mpr ⟨hn, hx⟩, fun l' hl' => ?_⟩
    exact hr.family.disjoint l' l n.id (List.mem_cons_of_mem _ ((hmem l' n).mp hl').2) (List.mem_cons_of_mem _ hx)
  · refine List.Nodup.map_on (fun x hx y hy he => ?_) (List.nodup_cons.mp (hr.family.nodup l)).2
    rw [← (hnode l x hx).2, ← (hnode l y hy).2, he]
  · have hlive := ((hmem l' l.head).mp hx).1
    exact LruRun.ne_of_owner (hinv.info.owner _ hlive).1 l rfl

/-- A node is allocated and becomes dirty, a time marker is put before it, and the node is flushed. -/
theorem lruMachine_rings_flushed :
    ∃ r, (NgInfo.init (2 ^ 26) 1).bind (fun info => lruMachine.run { info := info }
        [.find none false, .cacheAllocate {}, .moveToLru .dirty, .free, .insertTimeMarker {} 10, .moveAt .dirty 0 .clean]) =
          some r ∧
      r.live = {⟨1, 1⟩, ⟨1, 0⟩} ∧ ∃ lists, LruLists r lists := by
  have hlive : ((NgInfo.init (2 ^ 26) 1).bind (fun info => lruMachine.run { info := info }
      [.find none false, .cacheAllocate {}, .moveToLru .dirty, .free, .insertTimeMarker {} 10, .moveAt .dirty 0 .clean])).map
        LruRun.live = some {⟨1, 1⟩, ⟨1, 0⟩} := by
    decide +kernel
  obtain ⟨r, hr, hlive⟩ := Option.map_eq_some_iff.mp hlive
  obtain ⟨info, hinit, hrun⟩ := Option.bind_eq_some_iff.mp hr
  have hconf : NgInfo.ConfigOk (2 ^ 26) 1 := by
    unfold NgInfo.ConfigOk
    decide
  exact ⟨r, hr, hlive, lruMachine_rings ⟨{ info := info }, _, ⟨2 ^ 26, 1, info, hconf, hinit, rfl⟩, hrun⟩⟩

end Dtc
