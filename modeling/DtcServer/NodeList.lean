import DtcServer.NodeRun
import DtcServer.CachePool
/-!
# NodeList — the LRU lists through the nodes

The nodes of the dirty, the clean and the empty LRU list are linked in rings by their ids, through the heads in the
reserved group.  A neighbour is looked up in the index (`CNode::Next`, `CNode::Prev`), and a call that finds none follows
a null pointer.
-/
namespace Dtc

open Rings

/-- `DirtyNodeHead`, `CleanNodeHead` and `EmptyNodeHead`. -/
def LruList.head : LruList → CNode
  | .dirty => ⟨0, 0⟩
  | .clean => ⟨0, 1⟩
  | .empty => ⟨0, 2⟩

def timeMarkerNextNodeId : Nat := invalidNodeId - 1

/-- The id of a node, in a group that has the base it should have. -/
def CNode.id (n : CNode) : Nat := 256 * n.owner + n.index

namespace NgInfo

variable (s : NgInfo)

def lruPrev (n : CNode) : Nat := (s.groups n.owner).lruPrev n.index

def lruNext (n : CNode) : Nat := (s.groups n.owner).lruNext n.index

def nextNodeId (n : CNode) : Nat := (s.groups n.owner).nextNodeId n.index

/-- `CNode::Prev` -/
def prevNode (n : CNode) : Option CNode := s.search (s.lruPrev n)

/-- `CNode::Next` -/
def nextNode (n : CNode) : Option CNode := s.search (s.lruNext n)

def isTimeMarker (n : CNode) : Bool := s.nextNodeId n = timeMarkerNextNodeId

def writeNode (n : CNode) (w : NodeWrite) : NgInfo := s.setGroup n.owner ((s.groups n.owner).write n.index w)

/-- `__NODE_LIST_ADD` -/
def nodeListAddBetween (p prev next : CNode) : NgInfo :=
  let s := s.writeNode next (.lruPrev (s.nodeID p))
  let s := s.writeNode p (.lruNext (s.nodeID next))
  let s := s.writeNode p (.lruPrev (s.nodeID prev))
  s.writeNode prev (.lruNext (s.nodeID p))

def nodeListAdd (p head : CNode) : Option NgInfo := (s.nextNode head).map (s.nodeListAddBetween p head)

/-- `__NODE_LIST_DEL` -/
def nodeListDelBetween (prev next : CNode) : NgInfo :=
  let s := s.writeNode next (.lruPrev (s.nodeID prev))
  s.writeNode prev (.lruNext (s.nodeID next))

def nodeListDel (p : CNode) : Option NgInfo :=
  (s.prevNode p).bind fun prev => (s.nextNode p).map fun next =>
    let s := s.nodeListDelBetween prev next
    let s := s.writeNode p (.lruPrev (s.nodeID p))
    s.writeNode p (.lruNext (s.nodeID p))

/-- `Insert2DirtyLru`, `Insert2CleanLru` and `Insert2EmptyLru` of `CNGInfo`. -/
def insert2Lru (n : CNode) (l : LruList) : Option NgInfo := s.nodeListAdd n l.head

def removeFromLru (n : CNode) : Option NgInfo := s.nodeListDel n

/-- The loops along a list go from its tail to its head: the node they meet after `k` others. -/
def nodeAt (l : LruList) : Nat → Option CNode
  | 0 => (s.prevNode l.head).filter (· ≠ l.head)
  | k + 1 => (nodeAt l k).bind fun n => (s.prevNode n).filter (· ≠ l.head)

/-! ## The links by ids -/

def idNext (id : Nat) : Nat := s.lruNext ⟨id / 256, id % 256⟩

def idPrev (id : Nat) : Nat := s.lruPrev ⟨id / 256, id % 256⟩

variable {s} {s' : NgInfo} {live : Finset CNode} {n m p : CNode}

theorem id_inj (hn : n.index < 256) (hm : m.index < 256) (h : n.id = m.id) : n = m := by
  obtain ⟨no, ni⟩ := n
  obtain ⟨mo, mi⟩ := m
  unfold CNode.id at h
  dsimp only at hn hm h
  have howner : no = mo := by omega
  have hindex : ni = mi := by omega
  rw [howner, hindex]

theorem node_of_id (hn : n.index < 256) : (⟨n.id / 256, n.id % 256⟩ : CNode) = n := by
  obtain ⟨no, ni⟩ := n
  unfold CNode.id
  dsimp only at hn ⊢
  have howner : (256 * no + ni) / 256 = no := by omega
  have hindex : (256 * no + ni) % 256 = ni := by omega
  rw [howner, hindex]

theorem idNext_id (hn : n.index < 256) : s.idNext n.id = s.lruNext n := by
  unfold idNext
  rw [node_of_id hn]

theorem idPrev_id (hn : n.index < 256) : s.idPrev n.id = s.lruPrev n := by
  unfold idPrev
  rw [node_of_id hn]

/-- The groups and the index are as they were, but for writes to the links. -/
structure Relinked (s s' : NgInfo) (live : Finset CNode) : Prop where
  inv : Inv s' live
  usedNg : s'.usedNg = s.usedNg
  fiH : s'.fiH = s.fiH
  next : ∀ n, s'.nextNodeId n = s.nextNodeId n

theorem Relinked.refl (h : Inv s live) : Relinked s s live := ⟨h, rfl, rfl, fun _ => rfl⟩

theorem Relinked.sound (h : Relinked s s' live) (hs : s.IndexSound) : s'.IndexSound := by
  intro k k' hk
  unfold indexed at hk
  rw [h.fiH] at hk
  rw [h.usedNg]
  exact hs k k' hk

theorem Relinked.write (h : Relinked s s' live) (n : CNode) {w : NodeWrite} (hw : ∃ id, w = .lruPrev id ∨ w = .lruNext id) :
    Relinked s (s'.writeNode n w) live := by
  have hhandle : w.toHandle = false := by
    obtain ⟨id, rfl | rfl⟩ := hw <;> rfl
  refine ⟨h.inv.write (.inl hhandle), h.usedNg, h.fiH, fun m => ?_⟩
  rw [← h.next m]
  unfold nextNodeId writeNode setGroup
  dsimp only
  by_cases hm : m.owner = n.owner
  · rw [hm, Function.update_self]
    obtain ⟨id, rfl | rfl⟩ := hw <;> rfl
  · rw [Function.update_of_ne hm]

theorem nodeID_writeNode (n m : CNode) (w : NodeWrite) : (s.writeNode n w).nodeID m = s.nodeID m := by
  unfold nodeID writeNode setGroup
  dsimp only
  by_cases hm : m.owner = n.owner
  · rw [hm, Function.update_self]
    cases w <;> rfl
  · rw [Function.update_of_ne hm]

theorem id_eq_iff (hn : n.index < 256) {x : Nat} : x = n.id ↔ x / 256 = n.owner ∧ x % 256 = n.index := by
  unfold CNode.id
  omega

theorem idNext_writeNext (hn : n.index < 256) (id : Nat) :
    (s.writeNode n (.lruNext id)).idNext = Function.update s.idNext n.id id := by
  funext x
  unfold idNext lruNext writeNode setGroup
  dsimp only
  by_cases hx : x = n.id
  · obtain ⟨howner, hindex⟩ := (id_eq_iff hn).mp hx
    rw [hx, Function.update_self, ← hx, howner, hindex, Function.update_self]
    exact Function.update_self ..
  · rw [Function.update_of_ne hx]
    by_cases howner : x / 256 = n.owner
    · rw [howner, Function.update_self]
      exact Function.update_of_ne (fun hindex => hx ((id_eq_iff hn).mpr ⟨howner, hindex⟩)) _ _
    · rw [Function.update_of_ne howner]

theorem idPrev_writePrev (hn : n.index < 256) (id : Nat) :
    (s.writeNode n (.lruPrev id)).idPrev = Function.update s.idPrev n.id id := by
  funext x
  unfold idPrev lruPrev writeNode setGroup
  dsimp only
  by_cases hx : x = n.id
  · obtain ⟨howner, hindex⟩ := (id_eq_iff hn).mp hx
    rw [hx, Function.update_self, ← hx, howner, hindex, Function.update_self]
    exact Function.update_self ..
  · rw [Function.update_of_ne hx]
    by_cases howner : x / 256 = n.owner
    · rw [howner, Function.update_self]
      exact Function.update_of_ne (fun hindex => hx ((id_eq_iff hn).mpr ⟨howner, hindex⟩)) _ _
    · rw [Function.update_of_ne howner]

theorem idNext_writePrev (n : CNode) (id : Nat) : (s.writeNode n (.lruPrev id)).idNext = s.idNext := by
  funext x
  unfold idNext lruNext writeNode setGroup
  dsimp only
  by_cases howner : x / 256 = n.owner
  · rw [howner, Function.update_self]
    rfl
  · rw [Function.update_of_ne howner]

theorem idPrev_writeNext (n : CNode) (id : Nat) : (s.writeNode n (.lruNext id)).idPrev = s.idPrev := by
  funext x
  unfold idPrev lruPrev writeNode setGroup
  dsimp only
  by_cases howner : x / 256 = n.owner
  · rw [howner, Function.update_self]
    rfl
  · rw [Function.update_of_ne howner]

theorem search_some (hs : s.IndexSound) (h : Inv s live) {id : Nat} (hm : s.search id = some m) :
    m.id = id ∧ m.owner < s.usedNg ∧ m.index < 256 := by
  by_cases hid : id = invalidNodeId
  · unfold NgInfo.search at hm
    rw [if_pos hid] at hm
    cases hm
  · rw [search_eq hid] at hm
    obtain ⟨k, hk, hm⟩ := Option.bind_eq_some_iff.mp hm
    obtain ⟨rfl, hlt⟩ := hs _ k hk
    have hindex : (s.groups (id / 256)).indexOf id = id % 256 := by
      have hsum : id = 256 * (id / 256) + id % 256 := (Nat.div_add_mod id 256).symm
      have hof := NodeGroup.indexOf_eq (h.nid _ hlt) (Nat.mod_lt id (by decide : 0 < 256))
      rwa [← hsum] at hof
    rw [hindex, if_neg (by have := Nat.mod_lt id (by decide : 0 < 256); omega)] at hm
    obtain rfl := Option.some.inj hm
    exact ⟨Nat.div_add_mod id 256, hlt, Nat.mod_lt id (by decide)⟩

def Node (s : NgInfo) (n : CNode) : Prop := n.owner < s.usedNg ∧ n.index < 256

theorem head_node (h : Inv s live) (l : LruList) : s.Node l.head := by
  refine ⟨Nat.lt_of_lt_of_le ?_ h.ng, ?_⟩
  · cases l <;> exact Nat.zero_lt_one
  · cases l <;> decide

theorem nodeID_node (h : Inv s live) (hn : s.Node n) : s.nodeID n = n.id := h.nodeID_eq hn.1 hn.2

theorem nodeListAdd_spec (h : Inv s live) (hs : s.IndexSound) (hp : s.Node p) (hn : s.Node n)
    (hadd : s.nodeListAdd p n = some s') :
    Relinked s s' live ∧
      s'.idNext = Function.update (Function.update s.idNext p.id (s.idNext n.id)) n.id p.id ∧
      s'.idPrev = Function.update (Function.update s.idPrev (s.idNext n.id) p.id) p.id n.id := by
  unfold nodeListAdd at hadd
  obtain ⟨next, hnext, rfl⟩ := Option.map_eq_some_iff.mp hadd
  obtain ⟨hid, hng, hi⟩ := search_some hs h hnext
  rw [idNext_id hn.2, ← hid]
  unfold nodeListAddBetween
  simp only [nodeID_writeNode, nodeID_node h hp, nodeID_node h hn, nodeID_node h ⟨hng, hi⟩]
  refine ⟨((((Relinked.refl h).write next ⟨_, .inl rfl⟩).write p ⟨_, .inr rfl⟩).write p ⟨_, .inl rfl⟩).write n ⟨_, .inr rfl⟩,
    ?_, ?_⟩
  · rw [idNext_writeNext hn.2, idNext_writePrev, idNext_writeNext hp.2, idNext_writePrev]
  · rw [idPrev_writeNext, idPrev_writePrev hp.2, idPrev_writeNext, idPrev_writePrev hi]

theorem nodeListDel_spec (h : Inv s live) (hs : s.IndexSound) (hp : s.Node p) (hdel : s.nodeListDel p = some s') :
    Relinked s s' live ∧
      s'.idNext = Function.update (Function.update s.idNext (s.idPrev p.id) (s.idNext p.id)) p.id p.id ∧
      s'.idPrev = Function.update (Function.update s.idPrev (s.idNext p.id) (s.idPrev p.id)) p.id p.id := by
  unfold nodeListDel at hdel
  obtain ⟨prev, hprev, hdel⟩ := Option.bind_eq_some_iff.mp hdel
  obtain ⟨next, hnext, rfl⟩ := Option.map_eq_some_iff.mp hdel
  obtain ⟨hpid, hpng, hpi⟩ := search_some hs h hprev
  obtain ⟨hnid, hnng, hni⟩ := search_some hs h hnext
  rw [idNext_id hp.2, idPrev_id hp.2, ← hpid, ← hnid]
  unfold nodeListDelBetween
  simp only [nodeID_writeNode, nodeID_node h hp, nodeID_node h ⟨hpng, hpi⟩, nodeID_node h ⟨hnng, hni⟩]
  refine ⟨((((Relinked.refl h).write next ⟨_, .inl rfl⟩).write prev ⟨_, .inr rfl⟩).write p ⟨_, .inl rfl⟩).write p
    ⟨_, .inr rfl⟩, ?_, ?_⟩
  · rw [idNext_writeNext hp.2, idNext_writePrev, idNext_writeNext hpi, idNext_writePrev]
  · rw [idPrev_writeNext, idPrev_writePrev hp.2, idPrev_writeNext, idPrev_writePrev hni]

/-! ## The rings -/

/-- **The LRU lists**, by the ids of their nodes: the rings of the heads, with these nodes and no others. -/
structure Ringed (s : NgInfo) (on : Finset CNode) (lists : LruList → List Nat) : Prop where
  family : Family s.idNext s.idPrev (fun l => l.head.id) lists
  nodes : ∀ n ∈ on, 1 ≤ n.owner ∧ n.index < 256
  all : ∀ x, (∃ l, x ∈ lists l) ↔ ∃ n ∈ on, n.id = x

variable {on : Finset CNode} {lists : LruList → List Nat} {l : LruList}

theorem head_index (l : LruList) : l.head.owner = 0 ∧ l.head.index < 256 := by
  cases l <;> exact ⟨rfl, by decide⟩

theorem ne_head (hn : 1 ≤ n.owner ∧ n.index < 256) (l : LruList) : n.id ≠ l.head.id := by
  intro he
  have hnode := id_inj hn.2 (head_index l).2 he
  rw [hnode, (head_index l).1] at hn
  exact absurd hn.1 (by decide)

theorem Ringed.mem (h : s.Ringed on lists) (hn : n.index < 256) (hx : n.id ∈ lists l) : n ∈ on := by
  obtain ⟨m, hm, hid⟩ := (h.all n.id).mp ⟨l, hx⟩
  rwa [← id_inj (h.nodes m hm).2 hn hid]

theorem Ringed.not_has (h : s.Ringed on lists) (hn : 1 ≤ n.owner ∧ n.index < 256) (hout : n ∉ on) :
    ¬ Family.Has (fun l : LruList => l.head.id) lists n.id := by
  rintro ⟨l, hx⟩
  rcases List.mem_cons.mp hx with hx | hx
  · exact ne_head hn l hx
  · exact hout (h.mem hn.2 hx)

theorem Ringed.congr (h : s.Ringed on lists) (hhead : ∀ l : LruList, s'.lruNext l.head = s.lruNext l.head ∧ s'.lruPrev l.head = s.lruPrev l.head)
    (hon : ∀ n ∈ on, s'.lruNext n = s.lruNext n ∧ s'.lruPrev n = s.lruPrev n) : s'.Ringed on lists := by
  refine ⟨h.family.congr fun x hx => ?_, h.nodes, h.all⟩
  obtain ⟨l, hx⟩ := hx
  rcases List.mem_cons.mp hx with rfl | hx
  · rw [idNext_id (head_index l).2, idPrev_id (head_index l).2, idNext_id (head_index l).2, idPrev_id (head_index l).2]
    exact hhead l
  · obtain ⟨n, hn, rfl⟩ := (h.all x).mp ⟨l, hx⟩
    have hi := (h.nodes n hn).2
    rw [idNext_id hi, idPrev_id hi, idNext_id hi, idPrev_id hi]
    exact hon n hn

theorem Ringed.insert2Lru (hr : s.Ringed on lists) (h : Inv s live) (hs : s.IndexSound) (hn : n ∈ live) (hout : n ∉ on)
    (hins : s.insert2Lru n l = some s') :
    Relinked s s' live ∧ s'.Ringed (Insert.insert n on) (Function.update lists l (n.id :: lists l)) := by
  have howner := h.owner n hn
  have hnode : 1 ≤ n.owner ∧ n.index < 256 := ⟨howner.1, h.index_lt hn⟩
  obtain ⟨hrel, hnext, hprev⟩ := nodeListAdd_spec h hs ⟨howner.2, hnode.2⟩ (head_node h l) hins
  refine ⟨hrel, ⟨?_, fun m hm => ?_, fun x => ?_⟩⟩
  · rw [hnext, hprev]
    exact hr.family.link l (hr.not_has hnode hout)
  · rcases Finset.mem_insert.mp hm with rfl | hm
    · exact hnode
    · exact hr.nodes m hm
  · rw [Finset.exists_mem_insert, ← hr.all x]
    constructor
    · rintro ⟨l', hx⟩
      by_cases hl : l' = l
      · subst hl
        rw [Function.update_self, List.mem_cons] at hx
        exact hx.imp Eq.symm (fun hx => ⟨l', hx⟩)
      · rw [Function.update_of_ne hl] at hx
        exact .inr ⟨l', hx⟩
    · rintro (rfl | ⟨l', hx⟩)
      · exact ⟨l, by rw [Function.update_self]; exact List.mem_cons_self⟩
      · refine ⟨l', ?_⟩
        by_cases hl : l' = l
        · subst hl
          rw [Function.update_self]
          exact List.mem_cons_of_mem _ hx
        · rw [Function.update_of_ne hl]
          exact hx

theorem Ringed.removeFromLru (hr : s.Ringed on lists) (h : Inv s live) (hs : s.IndexSound) (hn : n ∈ live) (hon : n ∈ on)
    (hrem : s.removeFromLru n = some s') :
    Relinked s s' live ∧ ∃ l, n.id ∈ lists l ∧
      s'.Ringed (on.erase n) (Function.update lists l ((lists l).erase n.id)) := by
  have howner := h.owner n hn
  obtain ⟨hrel, hnext, hprev⟩ := nodeListDel_spec h hs ⟨howner.2, h.index_lt hn⟩ hrem
  obtain ⟨l, hl⟩ := (hr.all n.id).mpr ⟨n, hon, rfl⟩
  have hnodup : ∀ l, (lists l).Nodup := fun l => (List.nodup_cons.mp (hr.family.nodup l)).2
  refine ⟨hrel, l, hl, ⟨?_, fun m hm => hr.nodes m (Finset.mem_of_mem_erase hm), fun x => ?_⟩⟩
  · rw [hnext, hprev]
    exact hr.family.unlink hl n.id n.id
  · have hsplit : (∃ l', x ∈ Function.update lists l ((lists l).erase n.id) l') ↔ x ≠ n.id ∧ ∃ l', x ∈ lists l' := by
      constructor
      · rintro ⟨l', hx⟩
        by_cases hl' : l' = l
        · subst hl'
          rw [Function.update_self, (hnodup l').mem_erase_iff] at hx
          exact ⟨hx.1, l', hx.2⟩
        · rw [Function.update_of_ne hl'] at hx
          refine ⟨fun he => hl' ?_, l', hx⟩
          exact hr.family.disjoint l' l n.id (List.mem_cons_of_mem _ (he ▸ hx)) (List.mem_cons_of_mem _ hl)
      · rintro ⟨hne, l', hx⟩
        refine ⟨l', ?_⟩
        by_cases hl' : l' = l
        · subst hl'
          rw [Function.update_self, (hnodup l').mem_erase_iff]
          exact ⟨hne, hx⟩
        · rw [Function.update_of_ne hl']
          exact hx
    rw [hsplit, hr.all x]
    constructor
    · rintro ⟨hne, m, hm, rfl⟩
      exact ⟨m, Finset.mem_erase.mpr ⟨fun he => hne (congrArg CNode.id he), hm⟩, rfl⟩
    · rintro ⟨m, hm, rfl⟩
      obtain ⟨hne, hm⟩ := Finset.mem_erase.mp hm
      exact ⟨fun he => hne (id_inj (hr.nodes m hm).2 (hr.nodes n hon).2 he), m, hm, rfl⟩

theorem Ringed.nodeAt (hr : s.Ringed on lists) (h : Inv s live) (hs : s.IndexSound) :
    ∀ (k : Nat) {n : CNode}, s.nodeAt l k = some n → n.id ∈ lists l ∧ n.index < 256
  | 0, n, hn => by
    obtain ⟨hprev, hne⟩ := Option.filter_eq_some_iff.mp hn
    obtain ⟨hid, -, hi⟩ := search_some hs h hprev
    refine ⟨?_, hi⟩
    rw [← idPrev_id (head_index l).2, (hr.family.ring l).prev_root] at hid
    rcases List.eq_nil_or_concat' (lists l) with hl | ⟨xs, x, hl⟩
    · rw [hl] at hid
      exact absurd (id_inj hi (head_index l).2 hid) (of_decide_eq_true hne)
    · rw [hl, List.getLastD_concat] at hid
      rw [hl, hid]
      exact List.mem_append_right _ List.mem_cons_self
  | k + 1, n, hn => by
    obtain ⟨m, hm, hn⟩ := Option.bind_eq_some_iff.mp hn
    obtain ⟨hprev, hne⟩ := Option.filter_eq_some_iff.mp hn
    obtain ⟨hid, -, hi⟩ := search_some hs h hprev
    obtain ⟨hmem, hmi⟩ := hr.nodeAt h hs k hm
    refine ⟨?_, hi⟩
    rw [← idPrev_id hmi] at hid
    obtain ⟨hprev, -, -, -⟩ := (hr.family.ring l).neighbours (hr.family.nodup l) hmem
    rw [← hid] at hprev
    rcases List.mem_cons.mp hprev with he | hmem
    · exact absurd (id_inj hi (head_index l).2 he) (of_decide_eq_true hne)
    · exact hmem

end NgInfo

end Dtc
