import DtcServer.NodeListRun
import DtcServer.BinMalloc
/-!
# PurgeLoops — `TryPurgeSize` and `PrePurgeNodes` along the clean list

The loops go from the tail of the clean list to its head. They look up the neighbour of a node before they purge it, and the
purge takes the node out of the ring: the neighbour stays.
-/
namespace Dtc

open Rings

/-- A node that a loop purges, with the states before and after, and the node that the loop goes on with. -/
structure PurgeStep where
  before : LruRun
  node : CNode
  after : LruRun
  next : Option CNode

def NgInfo.vdHandle (s : NgInfo) (n : CNode) : Nat := (s.groups n.owner).vdHandle n.index

namespace LruRun

/-- `check_cross_linked_lru` -/
def crossLinked (r : LruRun) (n : CNode) : Bool := r.info.prevNode n == some n

/-- The loop of `PrePurgeNodes` from a node on; the outer `none` is a null pointer followed. -/
def prePurgeLoop (reserve : Option CNode) : Nat → Option CNode → LruRun → Option (LruRun × List PurgeStep)
  | 0, _, r => some (r, [])
  | _ + 1, none, r => some (r, [])
  | count + 1, some n, r =>
    if n = LruList.clean.head then some (r, [])
    else
      let pos := r.info.prevNode n
      if reserve = some n then prePurgeLoop reserve count pos r
      -- `PurgeNodeEverything` leaves a node without a chunk
      else if r.info.vdHandle n = invalidHandle then prePurgeLoop reserve count pos r
      else
        (r.purge n).bind fun r' =>
          (prePurgeLoop reserve count pos r').map fun out => (out.1, ⟨r, n, r', pos⟩ :: out.2)

def prePurgeNodes (r : LruRun) (count : Nat) (reserve : Option CNode) : Option (LruRun × List PurgeStep) :=
  prePurgeLoop reserve count (r.info.prevNode LruList.clean.head) r

/-- The loop of `TryPurgeSize`; `combineSize` is what `AskForDestroySize` answers for the chunk of a node. -/
def tryPurgeLoop (combineSize : LruRun → CNode → Nat) (size : Nat) (reserve : Option CNode) (r : LruRun) :
    Nat → Option CNode → Option (LruRun × List PurgeStep × Int)
  | 0, _ => some (r, [], -1)
  | _ + 1, none => some (r, [], -1)
  | iter + 1, some n =>
    if n = LruList.clean.head then some (r, [], -1)
    else if r.info.usedNode < 10 then some (r, [], -1)
    else if r.crossLinked n then some (r, [], -1)
    else
      let pos := r.info.prevNode n
      if reserve = some n then tryPurgeLoop combineSize size reserve r iter pos
      else if r.info.vdHandle n = invalidHandle then tryPurgeLoop combineSize size reserve r iter pos
      else if size ≤ combineSize r n then (r.purge n).map fun r' => (r', [⟨r, n, r', pos⟩], 0)
      else tryPurgeLoop combineSize size reserve r iter pos

/-- `TryPurgeSize`; `prePurge` is `_pre_purge_nodes`. -/
def tryPurgeSize (r : LruRun) (disableTryPurge : Bool) (prePurge count : Nat) (reserve : Option CNode)
    (combineSize : LruRun → CNode → Nat) (size : Nat) : Option (LruRun × List PurgeStep × Int) :=
  if disableTryPurge then some (r, [], -1)
  else
    (r.prePurgeNodes prePurge reserve).bind fun pre =>
      (tryPurgeLoop combineSize size reserve pre.1 count (pre.1.info.prevNode LruList.clean.head)).map fun out =>
        (out.1, pre.2 ++ out.2.1, out.2.2)

end LruRun

/-! ## The nodes of a list by their places -/

namespace NgInfo

variable {s s' : NgInfo} {live on : Finset CNode} {lists : LruList → List Nat} {l : LruList} {n m : CNode}

/-- The index has an entry for the heads and for every node in use. -/
def Indexed (s : NgInfo) (live : Finset CNode) : Prop :=
  s.indexed 0 = some 0 ∧ ∀ n ∈ live, s.indexed n.owner = some n.owner

theorem Indexed.congr (h : s.Indexed live) (hfiH : s'.fiH = s.fiH) : s'.Indexed live := by
  unfold Indexed indexed at h ⊢
  rw [hfiH]
  exact h

theorem search_id (h : Inv s live) (hs : s.IndexSound) (hn : s.Node n) (hi : s.indexed n.owner = some n.owner) :
    s.search n.id = some n := by
  have hrun : NgRun.Inv { info := s, live := live } := ⟨h, hs, fun n hn => absurd hn List.not_mem_nil⟩
  have hsearch := NgRun.search_of_indexed hrun hn
  rw [hi] at hsearch
  rwa [show ({ info := s, live := live } : NgRun).info.nodeID n = n.id from nodeID_node h hn] at hsearch

theorem Ringed.search (hr : s.Ringed live lists) (h : Inv s live) (hs : s.IndexSound) (hi : s.Indexed live) {x : Nat}
    (hx : x ∈ l.head.id :: lists l) : ∃ m, s.search x = some m ∧ m.id = x ∧ s.Node m := by
  rcases List.mem_cons.mp hx with rfl | hx
  · have hhead : s.indexed l.head.owner = some l.head.owner := by
      rw [(head_index l).1]
      exact hi.1
    exact ⟨l.head, search_id h hs (head_node h l) hhead, rfl, head_node h l⟩
  · obtain ⟨m, hm, rfl⟩ := (hr.all x).mp ⟨l, hx⟩
    have hnode : s.Node m := ⟨(h.owner m hm).2, h.index_lt hm⟩
    exact ⟨m, search_id h hs hnode (hi.2 m hm), rfl, hnode⟩

theorem Ringed.prevNode (hr : s.Ringed live lists) (h : Inv s live) (hs : s.IndexSound) (hi : s.Indexed live)
    (hn : n.index < 256) (hx : n.id ∈ l.head.id :: lists l) :
    ∃ m, s.prevNode n = some m ∧ m.id = s.idPrev n.id ∧ s.Node m ∧ m.id ∈ l.head.id :: lists l ∧ (n ≠ l.head → m ≠ n) := by
  have hprev : s.idPrev n.id ∈ l.head.id :: lists l ∧ (n ≠ l.head → s.idPrev n.id ≠ n.id) := by
    rcases List.mem_cons.mp hx with he | hx
    · rw [he, (hr.family.ring l).prev_root]
      refine ⟨?_, fun hne => absurd (id_inj hn (head_index l).2 he) hne⟩
      rcases List.eq_nil_or_concat' (lists l) with hl | ⟨xs, x, hl⟩ <;> rw [hl]
      · exact List.mem_cons_self
      · rw [List.getLastD_concat]
        exact List.mem_cons_of_mem _ (List.mem_append_right _ List.mem_cons_self)
    · obtain ⟨hmem, -, hne, -⟩ := (hr.family.ring l).neighbours (hr.family.nodup l) hx
      exact ⟨hmem, fun _ => hne⟩
  obtain ⟨m, hm, hid, hnode⟩ := hr.search h hs hi hprev.1
  refine ⟨m, ?_, hid, hnode, hid ▸ hprev.1, fun hne he => hprev.2 hne (hid.symm.trans (congrArg CNode.id he))⟩
  unfold NgInfo.prevNode
  rw [← idPrev_id hn]
  exact hm

theorem Ringed.ne_head (hr : s.Ringed live lists) (hx : n.id ∈ lists l) : n ≠ l.head := by
  rintro rfl
  exact (List.nodup_cons.mp (hr.family.nodup l)).1 hx

theorem Ringed.nodeAt_split (hr : s.Ringed live lists) (h : Inv s live) (hs : s.IndexSound) (hi : s.Indexed live) :
    ∀ (ys : List Nat) {xs : List Nat} {x : Nat}, lists l = xs ++ x :: ys → ∃ n, s.nodeAt l ys.length = some n ∧ n.id = x
  | [], xs, x, hl => by
    obtain ⟨m, hm, hid, -, -, -⟩ := hr.prevNode h hs hi (head_index l).2 (l := l) List.mem_cons_self
    rw [(hr.family.ring l).prev_root, hl, List.getLastD_concat] at hid
    refine ⟨m, Option.filter_eq_some_iff.mpr ⟨hm, decide_eq_true (hr.ne_head ?_)⟩, hid⟩
    rw [hid, hl]
    exact List.mem_append_right _ List.mem_cons_self
  | y :: ys, xs, x, hl => by
    have hl' : lists l = (xs ++ [x]) ++ y :: ys := by rw [hl, List.append_assoc, List.singleton_append]
    obtain ⟨n, hn, rfl⟩ := hr.nodeAt_split h hs hi ys hl'
    obtain ⟨hmem, hni⟩ := hr.nodeAt h hs ys.length hn
    obtain ⟨m, hm, hid, -, -, -⟩ := hr.prevNode h hs hi hni (List.mem_cons_of_mem _ hmem)
    have hring := hr.family.ring l
    rw [hl'] at hring
    obtain ⟨front, u, v, back, hu, -, -, hux, -, -⟩ := hring.around
    have hxu : u = x := by
      rw [← List.cons_append] at hu
      exact (List.append_singleton_inj.mp hu).2.symm
    rw [hux.2, hxu] at hid
    refine ⟨m, ?_, hid⟩
    show ((s.nodeAt l ys.length).bind fun n => (s.prevNode n).filter (· ≠ l.head)) = some m
    rw [hn, Option.bind_some]
    refine Option.filter_eq_some_iff.mpr ⟨hm, decide_eq_true (hr.ne_head ?_)⟩
    rw [hid, hl]
    exact List.mem_append_right _ List.mem_cons_self

theorem Ringed.nodeAt_of_mem (hr : s.Ringed live lists) (h : Inv s live) (hs : s.IndexSound) (hi : s.Indexed live)
    (hn : n.index < 256) (hx : n.id ∈ lists l) : ∃ k < live.card, s.nodeAt l k = some n := by
  obtain ⟨xs, ys, hl⟩ := List.append_of_mem hx
  obtain ⟨m, hm, hid⟩ := hr.nodeAt_split h hs hi ys hl
  refine ⟨ys.length, ?_, ?_⟩
  · have hsub : (lists l).toFinset ⊆ live.image CNode.id := by
      intro y hy
      obtain ⟨c, hc, rfl⟩ := (hr.all y).mp ⟨l, List.mem_toFinset.mp hy⟩
      exact Finset.mem_image_of_mem _ hc
    have hcard := Nat.le_trans (Finset.card_le_card hsub) Finset.card_image_le
    rw [List.toFinset_card_of_nodup (List.nodup_cons.mp (hr.family.nodup l)).2, hl, List.length_append, List.length_cons] at hcard
    omega
  · rw [hm, id_inj (hr.nodeAt h hs ys.length hm).2 hn hid]

end NgInfo

/-! ## One purge -/

namespace LruRun

variable {r r' : LruRun} {n : CNode} {lists : LruList → List Nat}

open NgInfo

theorem removeFromLru_fiH {s s' : NgInfo} (h : s.removeFromLru n = some s') : s'.fiH = s.fiH := by
  unfold NgInfo.removeFromLru NgInfo.nodeListDel at h
  obtain ⟨prev, -, h⟩ := Option.bind_eq_some_iff.mp h
  obtain ⟨next, -, rfl⟩ := Option.map_eq_some_iff.mp h
  rfl

/-- What a loop has of the state: the lists of the clean nodes, with an index that is complete. -/
structure Walked (r : LruRun) (lists : LruList → List Nat) : Prop where
  inv : Inv r
  indexed : r.info.Indexed r.live
  ringed : r.info.Ringed r.live lists
  marked : r.Marked lists

theorem Walked.live (h : r.Walked lists) {l : LruList} (hn : n.index < 256) (hx : n.id ∈ lists l) : n ∈ r.live :=
  h.ringed.mem hn hx

theorem Walked.purge {l : LruList} (h : r.Walked lists) (hn : n.index < 256) (hx : n.id ∈ lists l) :
    ∃ r' lists', r.purge n = some r' ∧ r'.Walked lists' ∧ n ∉ r'.live ∧
      (∀ l y, y ∈ lists' l → y ∈ lists l) ∧ ∀ l y, y ≠ n.id → y ∈ lists l → y ∈ lists' l := by
  have hlive := h.live hn hx
  obtain ⟨prev, hprev, -⟩ := h.ringed.prevNode h.inv.info h.inv.sound h.indexed hn (List.mem_cons_of_mem _ hx)
  obtain ⟨-, hnextmem, -, -⟩ := (h.ringed.family.ring l).neighbours (h.ringed.family.nodup l) hx
  obtain ⟨next, hnext, -, -⟩ := h.ringed.search h.inv.info h.inv.sound h.indexed hnextmem
  rw [idNext_id hn] at hnext
  obtain ⟨s, hrem⟩ : ∃ s, r.info.removeFromLru n = some s := by
    unfold NgInfo.removeFromLru NgInfo.nodeListDel
    rw [hprev, Option.bind_some, show r.info.nextNode n = some next from hnext]
    exact ⟨_, rfl⟩
  have hpurge : r.purge n = some { r with
      info := s.releaseNode n
      live := r.live.erase n
      chained := r.chained.erase n
      stNode := if r.stNode = some n then none else r.stNode } := by
    unfold LruRun.purge
    rw [hrem]
    rfl
  obtain ⟨l', hl', hringed, hmarked⟩ := purge_ringed h.inv hlive hpurge h.ringed h.marked
  refine ⟨_, _, hpurge, ⟨inv_purge h.inv hlive hpurge, ?_, hringed, hmarked⟩, Finset.notMem_erase n r.live,
    fun l y hy => ?_, fun l y hne hy => mem_update_erase hne hy⟩
  · have hfiH := (releaseNode_index (s := s) n).1.trans (removeFromLru_fiH hrem)
    exact ⟨(h.indexed.congr hfiH).1, fun m hm => (h.indexed.congr hfiH).2 m (Finset.mem_of_mem_erase hm)⟩
  · by_cases hl : l = l'
    · subst hl
      rw [Function.update_self] at hy
      exact List.mem_of_mem_erase hy
    · rwa [Function.update_of_ne hl] at hy

theorem Walked.notMarker (h : r.Walked lists) (hn : n.index < 256) (hx : n.id ∈ lists .clean) :
    r.info.isTimeMarker n = false := by
  have hchained : n ∈ r.chained := by
    by_contra hout
    have hdirty := (h.marked n (h.live hn hx) hout).2
    have he := h.ringed.family.disjoint .clean .dirty n.id (List.mem_cons_of_mem _ hx) (List.mem_cons_of_mem _ hdirty)
    cases he
  exact decide_eq_false (h.inv.chained n hchained).2

end LruRun

/-- **A purge that does no harm**: of a node on the clean list that is not the reserve node, no head and no time marker; and
the loop goes on from a node that is still on the list, or from the head. -/
structure PurgeStep.Safe (x : PurgeStep) (reserve : Option CNode) : Prop where
  purged : x.before.purge x.node = some x.after
  clean : ∃ k, x.before.info.nodeAt .clean k = some x.node
  notReserve : reserve ≠ some x.node
  notHead : ∀ l : LruList, x.node ≠ l.head
  notMarker : x.before.info.isTimeMarker x.node = false
  gone : x.node ∉ x.after.live
  goesOn : x.next = some LruList.clean.head ∨ ∃ n k, x.next = some n ∧ x.after.info.nodeAt .clean k = some n

namespace LruRun

open NgInfo

variable {r r' : LruRun} {n : CNode} {lists lists' : LruList → List Nat} {reserve : Option CNode}

/-- Where a loop is: at the head or at a node of the clean list. -/
def At (lists : LruList → List Nat) (pos : Option CNode) : Prop :=
  ∃ n, pos = some n ∧ n.index < 256 ∧ n.id ∈ LruList.clean.head.id :: lists .clean

theorem Walked.start (h : r.Walked lists) : At lists (r.info.prevNode LruList.clean.head) := by
  obtain ⟨m, hm, -, hnode, hmem, -⟩ :=
    h.ringed.prevNode (l := .clean) h.inv.info h.inv.sound h.indexed (head_index .clean).2 List.mem_cons_self
  exact ⟨m, hm, hnode.2, hmem⟩

theorem Walked.meets (h : r.Walked lists) (hn : n.index < 256) (hx : n.id ∈ LruList.clean.head.id :: lists .clean)
    (hne : n ≠ LruList.clean.head) :
    n.id ∈ lists .clean ∧ ∃ m, r.info.prevNode n = some m ∧ m.index < 256 ∧
      m.id ∈ LruList.clean.head.id :: lists .clean ∧ m.id ≠ n.id := by
  have hmem : n.id ∈ lists .clean :=
    (List.mem_cons.mp hx).resolve_left (fun he => hne (id_inj hn (head_index .clean).2 he))
  obtain ⟨m, hm, -, hnode, hmm, hself⟩ := h.ringed.prevNode h.inv.info h.inv.sound h.indexed hn hx
  exact ⟨hmem, m, hm, hnode.2, hmm, fun he => hself hne (id_inj hnode.2 hn he)⟩

theorem Walked.purgeStep {m : CNode} (h : r.Walked lists) (hn : n.index < 256) (hx : n.id ∈ lists .clean)
    (hm : m.index < 256) (hmem : m.id ∈ LruList.clean.head.id :: lists .clean) (hne : m.id ≠ n.id)
    (hres : reserve ≠ some n) :
    ∃ r' lists', r.purge n = some r' ∧ r'.Walked lists' ∧ At lists' (some m) ∧ (∀ y ∈ lists' .clean, y ∈ lists .clean) ∧
      PurgeStep.Safe ⟨r, n, r', some m⟩ reserve := by
  obtain ⟨r', lists', hpurge, h', hgone, hsub, hkept⟩ := h.purge hn hx
  have hat : m.id ∈ LruList.clean.head.id :: lists' .clean := by
    rcases List.mem_cons.mp hmem with he | hmem
    · exact List.mem_cons.mpr (.inl he)
    · exact List.mem_cons_of_mem _ (hkept .clean _ hne hmem)
  obtain ⟨k, -, hk⟩ := h.ringed.nodeAt_of_mem h.inv.info h.inv.sound h.indexed hn hx
  refine ⟨r', lists', hpurge, h', ⟨m, rfl, hm, hat⟩, hsub .clean, hpurge, ⟨k, hk⟩, hres, fun l he => ?_, h.notMarker hn hx,
    hgone, ?_⟩
  · exact ne_of_owner (h.inv.info.owner n (h.live hn hx)).1 l he.symm
  · rcases List.mem_cons.mp hat with he | hmem
    · exact .inl (congrArg some (id_inj hm (head_index .clean).2 he))
    · obtain ⟨k, -, hk⟩ := h'.ringed.nodeAt_of_mem h'.inv.info h'.inv.sound h'.indexed hm hmem
      exact .inr ⟨m, k, rfl, hk⟩

theorem prePurgeLoop_spec : ∀ (count : Nat) {pos : Option CNode} {r : LruRun} {lists : LruList → List Nat},
    r.Walked lists → At lists pos →
    ∃ r' trace lists', prePurgeLoop reserve count pos r = some (r', trace) ∧ r'.Walked lists' ∧
      (∀ y ∈ lists' .clean, y ∈ lists .clean) ∧
      ∀ x ∈ trace, x.Safe reserve ∧ x.node.index < 256 ∧ x.node.id ∈ lists .clean
  | 0, pos, r, lists, h, _ => ⟨r, [], lists, rfl, h, fun _ hy => hy, fun _ hx => absurd hx List.not_mem_nil⟩
  | count + 1, pos, r, lists, h, hpos => by
    obtain ⟨n, rfl, hn, hx⟩ := hpos
    unfold prePurgeLoop
    by_cases hhead : n = LruList.clean.head
    · rw [if_pos hhead]
      exact ⟨r, [], lists, rfl, h, fun _ hy => hy, fun _ hx => absurd hx List.not_mem_nil⟩
    · obtain ⟨hmem, m, hprev, hm, hmm, hne⟩ := h.meets hn hx hhead
      rw [if_neg hhead, hprev]
      dsimp only
      by_cases hres : reserve = some n
      · rw [if_pos hres]
        exact prePurgeLoop_spec count h ⟨m, rfl, hm, hmm⟩
      · rw [if_neg hres]
        by_cases hhandle : r.info.vdHandle n = invalidHandle
        · rw [if_pos hhandle]
          exact prePurgeLoop_spec count h ⟨m, rfl, hm, hmm⟩
        · rw [if_neg hhandle]
          obtain ⟨r₁, lists₁, hpurge, h₁, hat, hsub, hsafe⟩ := h.purgeStep hn hmem hm hmm hne hres
          obtain ⟨r₂, trace, lists₂, hloop, h₂, hsub₂, htrace⟩ := prePurgeLoop_spec count h₁ hat
          rw [hpurge, Option.bind_some, hloop]
          refine ⟨r₂, ⟨r, n, r₁, some m⟩ :: trace, lists₂, rfl, h₂, fun y hy => hsub y (hsub₂ y hy), fun x hx => ?_⟩
          rcases List.mem_cons.mp hx with rfl | hx
          · exact ⟨hsafe, hn, hmem⟩
          · obtain ⟨h1, h2, h3⟩ := htrace x hx
            exact ⟨h1, h2, hsub _ h3⟩

theorem tryPurgeLoop_spec {combineSize : LruRun → CNode → Nat} {size : Nat} (h : r.Walked lists) :
    ∀ (iter : Nat) {pos : Option CNode}, At lists pos →
      ∃ out, tryPurgeLoop combineSize size reserve r iter pos = some out ∧
        ∀ x ∈ out.2.1, x.Safe reserve ∧ x.node.index < 256 ∧ x.node.id ∈ lists .clean
  | 0, pos, _ => ⟨(r, [], -1), rfl, fun _ hx => absurd hx List.not_mem_nil⟩
  | iter + 1, pos, hpos => by
    obtain ⟨n, rfl, hn, hx⟩ := hpos
    have hends : ∀ x ∈ (r, ([] : List PurgeStep), (-1 : Int)).2.1,
        x.Safe reserve ∧ x.node.index < 256 ∧ x.node.id ∈ lists .clean := fun _ hx => absurd hx List.not_mem_nil
    unfold tryPurgeLoop
    by_cases hhead : n = LruList.clean.head
    · rw [if_pos hhead]
      exact ⟨_, rfl, hends⟩
    · obtain ⟨hmem, m, hprev, hm, hmm, hne⟩ := h.meets hn hx hhead
      have hgoesOn := @tryPurgeLoop_spec combineSize size h iter (some m) ⟨m, rfl, hm, hmm⟩
      rw [if_neg hhead]
      by_cases hfew : r.info.usedNode < 10
      · rw [if_pos hfew]
        exact ⟨_, rfl, hends⟩
      rw [if_neg hfew]
      by_cases hcross : r.crossLinked n = true
      · rw [if_pos hcross]
        exact ⟨_, rfl, hends⟩
      rw [if_neg hcross, hprev]
      dsimp only
      by_cases hres : reserve = some n
      · rw [if_pos hres]
        exact hgoesOn
      rw [if_neg hres]
      by_cases hhandle : r.info.vdHandle n = invalidHandle
      · rw [if_pos hhandle]
        exact hgoesOn
      rw [if_neg hhandle]
      by_cases hsize : size ≤ combineSize r n
      · obtain ⟨r₁, lists₁, hpurge, -, -, -, hsafe⟩ := h.purgeStep hn hmem hm hmm hne hres
        rw [if_pos hsize, hpurge]
        refine ⟨_, rfl, fun x hx => ?_⟩
        obtain rfl := List.mem_singleton.mp hx
        exact ⟨hsafe, hn, hmem⟩
      · rw [if_neg hsize]
        exact hgoesOn

theorem prePurgeNodes_spec (count : Nat) (h : r.Walked lists) :
    ∃ r' trace lists', r.prePurgeNodes count reserve = some (r', trace) ∧ r'.Walked lists' ∧
      (∀ y ∈ lists' .clean, y ∈ lists .clean) ∧
      ∀ x ∈ trace, x.Safe reserve ∧ x.node.index < 256 ∧ x.node.id ∈ lists .clean :=
  prePurgeLoop_spec count h h.start

theorem tryPurgeSize_spec {combineSize : LruRun → CNode → Nat} {size : Nat} (disableTryPurge : Bool) (prePurge count : Nat)
    (h : r.Walked lists) :
    ∃ out, r.tryPurgeSize disableTryPurge prePurge count reserve combineSize size = some out ∧
      ∀ x ∈ out.2.1, x.Safe reserve ∧ x.node.index < 256 ∧ x.node.id ∈ lists .clean := by
  unfold LruRun.tryPurgeSize
  by_cases hd : disableTryPurge = true
  · rw [if_pos hd]
    exact ⟨_, rfl, fun _ hx => absurd hx List.not_mem_nil⟩
  · obtain ⟨r₁, pre, lists₁, hpre, h₁, hsub, hsafe⟩ := @prePurgeNodes_spec r lists reserve prePurge h
    obtain ⟨out, hout, hsafe₁⟩ := @tryPurgeLoop_spec r₁ lists₁ reserve combineSize size h₁ count _ h₁.start
    rw [if_neg hd, hpre, Option.bind_some, hout]
    refine ⟨_, rfl, fun x hx => ?_⟩
    rcases List.mem_append.mp hx with hx | hx
    · exact hsafe x hx
    · obtain ⟨h1, h2, h3⟩ := hsafe₁ x hx
      exact ⟨h1, h2, hsub _ h3⟩

end LruRun

end Dtc
