import DtcServer.CachePool
/-!
# CachePoolSpec — what the operations of the pool do to its chains

`ChainsRep` gives every bucket the list of its nodes; `PoolInv` adds the key each node was allocated for.  The operations
take lists to lists: insertion pushes, removal erases, the loop of a lookup erases the nodes without data it meets.
-/
namespace Dtc

open Chains

variable {Key : Type} {n : Nat} (slot : Bool → Key → Fin n)

theorem NodeIndex.search_insert {x : NodeIndex} {node id : NodeId} {got : Bool}
    (hgot : (x.blocks (node >>> 24) || got) = true) (h : id = node ∨ x.search id = some id) :
    (x.insert node got).search id = some id := by
  unfold NodeIndex.insert NodeIndex.search at *
  rw [if_pos hgot]
  refine if_pos ?_
  simp only [Function.update_apply]
  rcases h with rfl | h
  · simp
  · split at h
    · next hs =>
      rw [Bool.and_eq_true] at hs
      simp [hs]
    · cases h

namespace CachePool

variable {slot} {p p' : CachePool Key n} {key : Key} {node : NodeId}

/-- A removal from the table changes the table and the nodes' pointers. -/
theorem removeFromHashBase_frame {newhash : Bool} (hr : p.removeFromHashBase slot key node newhash = some p') :
    p' = { p with buckets := p'.buckets, hhNode := p'.hhNode, hhFree := p'.hhFree, next := p'.next } := by
  unfold removeFromHashBase at hr
  dsimp only at hr
  split at hr
  · obtain rfl := Option.some.inj hr
    rfl
  split at hr
  · obtain rfl := Option.some.inj hr
    rfl
  split at hr
  · cases hr
  split at hr
  · cases hr
  · obtain rfl := Option.some.inj hr
    rfl
  · obtain rfl := Option.some.inj hr
    rfl

theorem removeFromHash_frame (hr : p.removeFromHash slot key node = some p') :
    p' = { p with buckets := p'.buckets, hhNode := p'.hhNode, hhFree := p'.hhFree, next := p'.next } := by
  unfold removeFromHash at hr
  split at hr
  · obtain ⟨q, hq, hr⟩ := Option.bind_eq_some_iff.mp hr
    rw [removeFromHashBase_frame hr, removeFromHashBase_frame hq]
  · exact removeFromHashBase_frame hr

theorem purgeNode_index (hr : p.purgeNode slot key node = some p') : p'.index = p.index := by
  obtain ⟨q, hq, rfl⟩ := Option.map_eq_some_iff.mp hr
  have hindex : q.index = p.index := by rw [removeFromHash_frame hq]
  exact hindex

theorem moveToNewHash_index (hr : p.moveToNewHash slot key node = some p') : p'.index = p.index := by
  obtain ⟨q, hq, rfl⟩ := Option.map_eq_some_iff.mp hr
  have hindex : q.index = p.index := by rw [removeFromHash_frame hq]
  exact hindex

variable [DecidableEq Key]

theorem findLoop_index : ∀ (fuel : Nat) {p p' : CachePool Key n} {iter r : Option NodeId},
    findLoop slot key fuel p iter = some (p', r) → p'.index = p.index
  | 0, _, _, _, _, hr => by cases hr
  | fuel + 1, p, p', iter, r, hr => by
    unfold findLoop at hr
    split at hr
    · cases hr
      rfl
    split at hr
    · obtain ⟨q, hq, hr⟩ := Option.bind_eq_some_iff.mp hr
      exact (findLoop_index fuel hr).trans (purgeNode_index hq)
    split at hr
    · cases hr
      rfl
    · exact findLoop_index fuel hr

theorem cacheFindAutoChoseHash_index {r : Option NodeId} (hr : p.cacheFindAutoChoseHash slot key = some (p', r)) :
    p'.index = p.index := by
  unfold cacheFindAutoChoseHash at hr
  split at hr
  · obtain ⟨q, hq, hr⟩ := Option.bind_eq_some_iff.mp hr
    have hindex := findLoop_index _ hq
    split at hr
    · exact (findLoop_index _ hr).trans hindex
    · obtain ⟨q', hq', he⟩ := Option.map_eq_some_iff.mp hr
      cases he
      exact (moveToNewHash_index hq').trans hindex
  · exact findLoop_index _ hr

end CachePool

/-- The buckets' chains, whose nodes the index has, and the counters of the table. -/
structure ChainsRep (p : CachePool Key n) (chains : Fin n → List NodeId) : Prop where
  linked : ∀ s, Linked p.next (p.buckets s) (chains s)
  nodup : ∀ s, (chains s).Nodup
  disjoint : ∀ s t node, node ∈ chains s → node ∈ chains t → s = t
  used : ∀ s, ∀ node ∈ chains s, node ∈ p.used
  indexed : ∀ node ∈ p.used, p.index.search node = some node
  nodes : p.hhNode = ∑ s, ((chains s).length : Int)
  free : p.hhFree = ∑ s, (if chains s = [] then 1 else 0 : Int)

namespace ChainsRep

variable {slot} {p : CachePool Key n} {chains : Fin n → List NodeId}

theorem bucket_none (h : ChainsRep p chains) (s : Fin n) : p.buckets s = none ↔ chains s = [] := by
  rw [linked_head (h.linked s), List.head?_eq_none_iff]

theorem length_le (h : ChainsRep p chains) (s : Fin n) : (chains s).length ≤ p.used.length :=
  (List.subperm_of_subset (h.nodup s) (h.used s)).length_le

theorem search_head (h : ChainsRep p chains) {xs : List NodeId} (hx : ∀ x ∈ xs, x ∈ p.used) :
    xs.head?.bind p.index.search = xs.head? := by
  cases xs with
  | nil => rfl
  | cons x xs => exact h.indexed x (hx x List.mem_cons_self)

theorem nextNodes (h : ChainsRep p chains) : ∀ {xs : List NodeId} {hd : Option NodeId}, (∀ x ∈ xs, x ∈ p.used) →
    Linked p.next hd xs → Linked p.nextNode hd xs
  | [], _, _, hl => hl
  | x :: xs, _, hx, hl => by
    have hxs := fun y hy => hx y (List.mem_cons_of_mem x hy)
    refine ⟨hl.1, ?_⟩
    rw [CachePool.nextNode, linked_head hl.2, h.search_head hxs, ← linked_head hl.2]
    exact h.nextNodes hxs hl.2

theorem change (h : ChainsRep p chains) (p' : CachePool Key n) (s : Fin n) (xs : List NodeId)
    (hs : Linked p'.next (p'.buckets s) xs) (ho : ∀ t, t ≠ s → Linked p'.next (p'.buckets t) (chains t))
    (hnd : xs.Nodup) (hd : ∀ t, t ≠ s → ∀ node ∈ xs, node ∉ chains t) (hu : p'.used = p.used) (hi : p'.index = p.index)
    (hx : ∀ node ∈ xs, node ∈ p.used) (hn : p'.hhNode = p.hhNode + (xs.length - (chains s).length))
    (hf : p'.hhFree = p.hhFree + ((if xs = [] then 1 else 0) - if chains s = [] then 1 else 0)) :
    ChainsRep p' (Function.update chains s xs) := by
  refine ⟨fun t => ?_, fun t => ?_, fun t u node ht hu' => ?_, fun t node ht => ?_, ?_, ?_, ?_⟩
  · by_cases hts : t = s
    · subst hts
      rw [Function.update_self]
      exact hs
    · rw [Function.update_of_ne hts]
      exact ho t hts
  · by_cases hts : t = s
    · subst hts
      rw [Function.update_self]
      exact hnd
    · rw [Function.update_of_ne hts]
      exact h.nodup t
  · by_cases hts : t = s
    · by_cases hus : u = s
      · rw [hts, hus]
      · rw [hts, Function.update_self] at ht
        rw [Function.update_of_ne hus] at hu'
        exact absurd hu' (hd u hus node ht)
    · rw [Function.update_of_ne hts] at ht
      by_cases hus : u = s
      · rw [hus, Function.update_self] at hu'
        exact absurd ht (hd t hts node hu')
      · rw [Function.update_of_ne hus] at hu'
        exact h.disjoint t u node ht hu'
  · rw [hu]
    by_cases hts : t = s
    · rw [hts, Function.update_self] at ht
      exact hx node ht
    · rw [Function.update_of_ne hts] at ht
      exact h.used t node ht
  · rw [hu, hi]
    exact h.indexed
  · rw [hn, h.nodes, sum_change s (f := fun t => ((chains t).length : Int)) (g := fun t =>
      ((Function.update chains s xs t).length : Int)) (fun t ht => by rw [Function.update_of_ne ht])]
    simp only [Function.update_self]
  · rw [hf, h.free, sum_change s (f := fun t => if chains t = [] then (1 : Int) else 0) (g := fun t =>
      if Function.update chains s xs t = [] then (1 : Int) else 0) (fun t ht => by rw [Function.update_of_ne ht])]
    simp only [Function.update_self]

theorem insert2Hash (h : ChainsRep p chains) (slot : Bool → Key → Fin n) (key : Key) {node : NodeId}
    (hnot : ∀ s, node ∉ chains s) (hu : node ∈ p.used) :
    ChainsRep (p.insert2Hash slot key node)
      (Function.update chains (slot p.config.targetNewHash key) (node :: chains (slot p.config.targetNewHash key))) := by
  refine h.change _ _ _ ?_ (fun t ht => ?_) ?_ (fun t ht x hx => ?_) rfl rfl (fun x hx => ?_) ?_ ?_
  · simp only [CachePool.insert2Hash, Function.update_self]
    exact linked_push (hnot _) (h.linked _)
  · simp only [CachePool.insert2Hash, Function.update_of_ne ht]
    exact linked_update (hnot t) (h.linked t)
  · exact List.nodup_cons.mpr ⟨hnot _, h.nodup _⟩
  · rcases List.mem_cons.mp hx with rfl | hx
    · exact hnot t
    · exact fun hxt => ht (h.disjoint t _ x hxt hx)
  · rcases List.mem_cons.mp hx with rfl | hx
    · exact hu
    · exact h.used _ x hx
  · simp only [CachePool.insert2Hash, List.length_cons]
    omega
  · simp only [CachePool.insert2Hash, h.bucket_none, List.cons_ne_nil, if_false]
    split <;> omega

theorem removeFromHashBase (h : ChainsRep p chains) (key : Key) (node : NodeId) (newhash : Bool) :
    ∃ p', p.removeFromHashBase slot key node newhash = some p' ∧
      ChainsRep p' (Function.update chains (slot newhash key) ((chains (slot newhash key)).erase node)) ∧
      p' = { p with buckets := p'.buckets, hhNode := p'.hhNode, hhFree := p'.hhFree, next := p'.next } := by
  generalize hs : slot newhash key = s
  have hlink := h.linked s
  have hnd := h.nodup s
  have hsub : ∀ x ∈ (chains s).erase node, x ∈ chains s := fun x hx => List.mem_of_mem_erase hx
  have hchange := fun (p' : CachePool Key n) (hu : p'.used = p.used) (hi : p'.index = p.index) h1 h2 h3 h4 =>
    h.change p' s ((chains s).erase node) h1 h2 (hnd.erase node)
      (fun t ht x hx hxt => ht (h.disjoint t s x hxt (hsub x hx))) hu hi (fun x hx => h.used s x (hsub x hx)) h3 h4
  have hsame : node ∉ chains s → ChainsRep p (Function.update chains s ((chains s).erase node)) := fun hnot => by
    rw [List.erase_of_not_mem hnot, Function.update_eq_self]
    exact h
  unfold CachePool.removeFromHashBase
  simp only [hs]
  cases hc : chains s with
  | nil =>
    rw [hc] at hlink
    simp only [show p.buckets s = none from hlink]
    refine ⟨p, rfl, ?_, rfl⟩
    rw [← hc]
    exact hsame (by rw [hc]; exact List.not_mem_nil)
  | cons head rest =>
    rw [hc] at hlink hnd
    have hused : ∀ x ∈ head :: rest, x ∈ p.used := hc ▸ h.used s
    have hnext := (h.nextNodes hused hlink).2
    simp only [hlink.1]
    rw [List.nodup_cons] at hnd
    rw [← hc]
    by_cases hhead : head = node
    · subst hhead
      rw [if_pos rfl]
      refine ⟨_, rfl, ?_, rfl⟩
      have herase : (chains s).erase head = rest := by rw [hc, List.erase_cons_head]
      have hrest : p.next head = none ↔ rest = [] := by rw [linked_head hlink.2, List.head?_eq_none_iff]
      refine hchange _ rfl rfl ?_ (fun t ht => ?_) ?_ ?_
      · simp only [Function.update_self, herase]
        exact hlink.2
      · simp only [Function.update_of_ne ht]
        exact h.linked t
      · rw [herase, hc, List.length_cons]
        dsimp only
        omega
      · rw [herase, hc, if_neg (List.cons_ne_nil head rest)]
        simp only [hrest]
        split <;> omega
    · rw [if_neg hhead, h.indexed head (hused head List.mem_cons_self)]
      dsimp only
      have hlen := h.length_le s
      rw [hc, List.length_cons] at hlen
      rcases searchPrev_spec (x := node) hnext (n := p.used.length + 1) (by omega) with
        ⟨hsearch, hnot⟩ | ⟨prev, front, back, hsearch, hsplit⟩
      · rw [hsearch]
        refine ⟨p, rfl, hsame (fun hm => ?_), rfl⟩
        rw [hc] at hm
        exact (List.mem_cons.mp hm).elim (fun he => hhead he.symm) hnot
      · rw [hsearch]
        refine ⟨_, rfl, ?_, rfl⟩
        have hwhole : chains s = front ++ prev :: node :: back := hc.trans hsplit
        have hnd' : (front ++ prev :: node :: back).Nodup := hwhole ▸ h.nodup s
        have hprev : prev ∈ chains s := by
          rw [hwhole]
          simp
        have herase : (chains s).erase node = front ++ prev :: back := by
          have hfront : node ∉ front ++ [prev] := by
            rw [List.append_cons, ← List.append_cons front, List.append_cons] at hnd'
            exact fun hm => (List.nodup_append.mp hnd').2.2 node hm node List.mem_cons_self rfl
          rw [hwhole, List.append_cons, List.erase_append_right _ hfront, List.erase_cons_head, ← List.append_cons]
        refine hchange _ rfl rfl ?_ (fun t ht => ?_) ?_ ?_
        · rw [herase]
          exact linked_unlink hnd' (hwhole ▸ h.linked s)
        · exact linked_update (fun hm => ht (h.disjoint t s prev hm hprev)) (h.linked t)
        · rw [herase, hwhole]
          simp only [List.length_append, List.length_cons]
          omega
        · rw [herase, hwhole, if_neg (by simp), if_neg (by simp)]
          dsimp only
          omega

theorem removeFromHash (h : ChainsRep p chains) {key : Key} {node : NodeId}
    (hs : ∀ t, node ∈ chains t → ∃ newhash, p.config.allows newhash ∧ t = slot newhash key) :
    ∃ p', p.removeFromHash slot key node = some p' ∧ ChainsRep p' (fun t => (chains t).erase node) ∧
      p' = { p with buckets := p'.buckets, hhNode := p'.hhNode, hhFree := p'.hhFree, next := p'.next } := by
  -- erasing from one slot is erasing everywhere, when the node is not elsewhere
  have hall : ∀ (c : Fin n → List NodeId) (s : Fin n), (∀ t, t ≠ s → node ∉ c t) →
      Function.update c s ((c s).erase node) = fun t => (c t).erase node := fun c s hc => by
    funext t
    by_cases ht : t = s
    · rw [ht, Function.update_self]
    · rw [Function.update_of_ne ht, List.erase_of_not_mem (hc t ht)]
  unfold CachePool.removeFromHash
  cases hch : p.config.hashChanging with
  | false =>
    simp only [Bool.false_eq_true, if_false]
    obtain ⟨p', h1, h2, h3⟩ := h.removeFromHashBase key node p.config.targetNewHash
    refine ⟨p', h1, ?_, h3⟩
    rw [hall] at h2
    · exact h2
    · intro t ht hm
      obtain ⟨newhash, hal, rfl⟩ := hs t hm
      rcases hal with hal | rfl
      · rw [hch] at hal
        cases hal
      · exact ht rfl
  | true =>
    simp only [if_true]
    obtain ⟨p₁, h1, h2, h3⟩ := h.removeFromHashBase key node true
    obtain ⟨p₂, i1, i2, i3⟩ := h2.removeFromHashBase key node false
    refine ⟨p₂, ?_, ?_, ?_⟩
    · rw [h1]
      exact i1
    · rw [hall] at i2
      · have hfun : (fun t => (Function.update chains (slot true key) ((chains (slot true key)).erase node) t).erase
            node) = fun t => (chains t).erase node := by
          funext t
          by_cases ht : t = slot true key
          · subst ht
            rw [Function.update_self, List.erase_of_not_mem ((h.nodup _).not_mem_erase)]
          · rw [Function.update_of_ne ht]
        rw [hfun] at i2
        exact i2
      · intro t ht hm
        by_cases htn : t = slot true key
        · subst htn
          rw [Function.update_self] at hm
          exact (h.nodup _).not_mem_erase hm
        · rw [Function.update_of_ne htn] at hm
          obtain ⟨newhash, -, rfl⟩ := hs t hm
          cases newhash with
          | false => exact ht rfl
          | true => exact htn rfl
    · rw [i3, h3]

end ChainsRep

/-- **The pool**: every node in use is in one chain, the slot of the key it was allocated for; no two of them have one
key; a chunk has its node's key. -/
structure PoolInv (p : CachePool Key n) (owner : NodeId → Option Key) (chains : Fin n → List NodeId) : Prop where
  rep : ChainsRep p chains
  chained : ∀ node ∈ p.used, ∃ s, node ∈ chains s
  place : ∀ s, ∀ node ∈ chains s, ∃ key newhash, owner node = some key ∧ p.config.allows newhash ∧ s = slot newhash key
  handle : ∀ node key, p.vdHandle node = some key → node ∈ p.used ∧ owner node = some key
  unique : ∀ node node', node ∈ p.used → node' ∈ p.used → owner node = owner node' → node = node'
  lru : ∀ node, node ∈ p.cleanLru ∨ node ∈ p.dirtyLru ∨ node ∈ p.emptyLru → node ∈ p.used

namespace PoolInv

variable {slot} {p : CachePool Key n} {owner : NodeId → Option Key} {chains : Fin n → List NodeId}

theorem slot_of_owner (h : PoolInv slot p owner chains) {node : NodeId} {key : Key} (ho : owner node = some key) :
    ∀ t, node ∈ chains t → ∃ newhash, p.config.allows newhash ∧ t = slot newhash key := by
  intro t ht
  obtain ⟨k, newhash, hk, hal, hs⟩ := h.place t node ht
  obtain rfl : key = k := Option.some.inj (ho.symm.trans hk)
  exact ⟨newhash, hal, hs⟩

theorem purgeNode (h : PoolInv slot p owner chains) {key : Key} {node : NodeId}
    (hs : ∀ t, node ∈ chains t → ∃ newhash, p.config.allows newhash ∧ t = slot newhash key) :
    ∃ p', p.purgeNode slot key node = some p' ∧ PoolInv slot p' owner (fun t => (chains t).erase node) ∧
      p'.config = p.config ∧ p'.used = p.used.filter (· ≠ node) ∧
      p'.vdHandle = Function.update p.vdHandle node none := by
  obtain ⟨p₁, h1, h2, h3⟩ := h.rep.removeFromHash hs
  have hu : p₁.used = p.used := by rw [h3]
  have hc : p₁.config = p.config := by rw [h3]
  have hv : p₁.vdHandle = p.vdHandle := by rw [h3]
  have hnot : ∀ t, node ∉ (chains t).erase node := fun t => (h.rep.nodup t).not_mem_erase
  refine ⟨(p₁.removeFromLru node).releaseNode node, ?_, ⟨?_, ?_, ?_, ?_, ?_, ?_⟩, ?_, ?_, ?_⟩
  · unfold CachePool.purgeNode
    rw [h1]
    rfl
  · refine ⟨fun t => linked_update (hnot t) (h2.linked t), h2.nodup, h2.disjoint, fun t x hx => ?_,
      fun x hx => h2.indexed x (List.mem_filter.mp hx).1, h2.nodes, h2.free⟩
    have hne : x ≠ node := fun he => hnot t (he ▸ hx)
    simp only [CachePool.releaseNode, CachePool.removeFromLru, List.mem_filter, decide_not, Bool.not_eq_true',
      decide_eq_false_iff_not]
    exact ⟨h2.used t x hx, hne⟩
  · intro x hx
    simp only [CachePool.releaseNode, CachePool.removeFromLru, List.mem_filter, decide_not, Bool.not_eq_true',
      decide_eq_false_iff_not, hu] at hx
    obtain ⟨s, hxs⟩ := h.chained x hx.1
    exact ⟨s, (List.mem_erase_of_ne hx.2).mpr hxs⟩
  · intro s x hx
    have hcfg : ((p₁.removeFromLru node).releaseNode node).config = p.config := hc
    rw [hcfg]
    exact h.place s x (List.mem_of_mem_erase hx)
  · intro x k hk
    simp only [CachePool.releaseNode, CachePool.removeFromLru, hv, hu, List.mem_filter, decide_not, Bool.not_eq_true',
      decide_eq_false_iff_not] at hk ⊢
    by_cases hx : x = node
    · rw [hx, Function.update_self] at hk
      cases hk
    · rw [Function.update_of_ne hx] at hk
      exact ⟨⟨(h.handle x k hk).1, hx⟩, (h.handle x k hk).2⟩
  · intro x y hx hy
    simp only [CachePool.releaseNode, CachePool.removeFromLru, hu, List.mem_filter] at hx hy
    exact h.unique x y hx.1 hy.1
  · intro x hx
    simp only [CachePool.releaseNode, CachePool.removeFromLru, List.mem_filter, decide_not, Bool.not_eq_true',
      decide_eq_false_iff_not, hu] at hx ⊢
    rw [h3] at hx
    refine ⟨h.lru x ?_, ?_⟩
    · exact hx.imp And.left (Or.imp And.left And.left)
    · rcases hx with hx | hx | hx <;> exact hx.2
  · exact hc
  · simp only [CachePool.releaseNode, CachePool.removeFromLru, hu]
  · simp only [CachePool.releaseNode, CachePool.removeFromLru, hv]

theorem cacheAllocate (h : PoolInv slot p owner chains) {key : Key} {node : NodeId} (hnew : node ∉ p.used)
    (hkey : ∀ x ∈ p.used, owner x ≠ some key) {got : Bool} (hgot : (p.index.blocks (node >>> 24) || got) = true) :
    PoolInv slot (p.cacheAllocate slot key node got) (Function.update owner node (some key))
      (Function.update chains (slot p.config.targetNewHash key) (node :: chains (slot p.config.targetNewHash key))) := by
  have hnot : ∀ s, node ∉ chains s := fun s hs => hnew (h.rep.used s node hs)
  have hown : ∀ x ∈ p.used, Function.update owner node (some key) x = owner x := by
    intro x hx
    have hne : x ≠ node := fun he => hnew (he ▸ hx)
    rw [Function.update_of_ne hne]
  -- the node is there and in no chain yet
  have hbase : ChainsRep { p with
      index := p.index.insert node got
      used := node :: p.used
      next := Function.update p.next node none
      vdHandle := Function.update p.vdHandle node none } chains :=
    ⟨fun s => linked_update (hnot s) (h.rep.linked s), h.rep.nodup, h.rep.disjoint,
      fun s x hx => List.mem_cons_of_mem _ (h.rep.used s x hx),
      fun x hx => NodeIndex.search_insert hgot ((List.mem_cons.mp hx).imp_right (h.rep.indexed x)), h.rep.nodes, h.rep.free⟩
  have hrep := hbase.insert2Hash slot key hnot List.mem_cons_self
  refine ⟨⟨hrep.linked, hrep.nodup, hrep.disjoint, hrep.used, hrep.indexed, hrep.nodes, hrep.free⟩, ?_, ?_, ?_, ?_, ?_⟩
  · intro x hx
    rcases List.mem_cons.mp hx with rfl | hx
    · exact ⟨slot p.config.targetNewHash key, by rw [Function.update_self]; exact List.mem_cons_self⟩
    · obtain ⟨s, hs⟩ := h.chained x hx
      refine ⟨s, ?_⟩
      by_cases hss : s = slot p.config.targetNewHash key
      · rw [hss, Function.update_self]
        exact List.mem_cons_of_mem _ (hss ▸ hs)
      · rw [Function.update_of_ne hss]
        exact hs
  · intro s x hx
    by_cases hxn : x = node
    · subst hxn
      refine ⟨key, p.config.targetNewHash, Function.update_self .., .inr rfl, ?_⟩
      by_contra hss
      rw [Function.update_of_ne hss] at hx
      exact hnot s hx
    · have hxs : x ∈ chains s := by
        by_cases hss : s = slot p.config.targetNewHash key
        · rw [hss, Function.update_self] at hx
          exact hss ▸ (List.mem_cons.mp hx).resolve_left hxn
        · rwa [Function.update_of_ne hss] at hx
      rw [Function.update_of_ne hxn]
      exact h.place s x hxs
  · intro x k hk
    simp only [CachePool.cacheAllocate, CachePool.insert2Hash] at hk ⊢
    by_cases hxn : x = node
    · rw [hxn, Function.update_self] at hk
      cases hk
    · rw [Function.update_of_ne hxn] at hk ⊢
      exact ⟨List.mem_cons_of_mem _ (h.handle x k hk).1, (h.handle x k hk).2⟩
  · intro x y hx hy hxy
    have hx' : x = node ∨ x ∈ p.used := List.mem_cons.mp hx
    have hy' : y = node ∨ y ∈ p.used := List.mem_cons.mp hy
    rcases hx' with rfl | hx' <;> rcases hy' with hy' | hy'
    · exact hy'.symm
    · rw [Function.update_self, hown y hy'] at hxy
      exact absurd hxy.symm (hkey y hy')
    · rw [hy', Function.update_self, hown x hx'] at hxy
      exact absurd hxy (hkey x hx')
    · rw [hown x hx', hown y hy'] at hxy
      exact h.unique x y hx' hy' hxy
  · intro x hx
    simp only [CachePool.cacheAllocate, CachePool.insert2Hash, List.mem_cons] at hx ⊢
    rcases hx with (hx | hx) | hx
    · exact .inl hx
    · exact .inr (h.lru x (.inl hx))
    · exact .inr (h.lru x (.inr hx))

theorem moveToNewHash (h : PoolInv slot p owner chains) {key : Key} {node : NodeId} (hu : node ∈ p.used)
    (ho : owner node = some key) :
    ∃ p' chains', p.moveToNewHash slot key node = some p' ∧ PoolInv slot p' owner chains' ∧ p'.config = p.config ∧
      p'.used = p.used ∧ p'.vdHandle = p.vdHandle := by
  obtain ⟨p₁, h1, h2, h3⟩ := h.rep.removeFromHash (h.slot_of_owner ho)
  have hu₁ : p₁.used = p.used := by rw [h3]
  have hc₁ : p₁.config = p.config := by rw [h3]
  have hv₁ : p₁.vdHandle = p.vdHandle := by rw [h3]
  have hnot : ∀ t, node ∉ (chains t).erase node := fun t => (h.rep.nodup t).not_mem_erase
  have hrep := h2.insert2Hash slot key hnot (hu₁ ▸ hu)
  rw [hc₁] at hrep
  refine ⟨p₁.insert2Hash slot key node, _, ?_, ⟨hrep, ?_, ?_, ?_, ?_, ?_⟩, hc₁, hu₁, hv₁⟩
  · unfold CachePool.moveToNewHash
    rw [h1]
    rfl
  · intro x hx
    by_cases hxn : x = node
    · subst hxn
      exact ⟨slot p.config.targetNewHash key, by rw [Function.update_self]; exact List.mem_cons_self⟩
    · obtain ⟨s, hs⟩ := h.chained x (hu₁ ▸ hx)
      have hs' : x ∈ (chains s).erase node := (List.mem_erase_of_ne hxn).mpr hs
      refine ⟨s, ?_⟩
      by_cases hss : s = slot p.config.targetNewHash key
      · rw [hss, Function.update_self]
        exact List.mem_cons_of_mem _ (hss ▸ hs')
      · rw [Function.update_of_ne hss]
        exact hs'
  · intro s x hx
    have hcfg : (p₁.insert2Hash slot key node).config = p.config := hc₁
    rw [hcfg]
    by_cases hxn : x = node
    · subst hxn
      refine ⟨key, p.config.targetNewHash, ho, .inr rfl, ?_⟩
      by_contra hss
      rw [Function.update_of_ne hss] at hx
      exact hnot s hx
    · have hxs : x ∈ (chains s).erase node := by
        by_cases hss : s = slot p.config.targetNewHash key
        · rw [hss, Function.update_self] at hx
          exact hss ▸ (List.mem_cons.mp hx).resolve_left hxn
        · rwa [Function.update_of_ne hss] at hx
      exact h.place s x (List.mem_of_mem_erase hxs)
  · intro x k hk
    have hk' : p.vdHandle x = some k := hv₁ ▸ hk
    exact ⟨hu₁ ▸ (h.handle x k hk').1, (h.handle x k hk').2⟩
  · intro x y hx hy
    exact h.unique x y (hu₁ ▸ hx) (hu₁ ▸ hy)
  · intro x hx
    have hx' : x ∈ p₁.cleanLru ∨ x ∈ p₁.dirtyLru ∨ x ∈ p₁.emptyLru := hx
    rw [h3] at hx'
    exact hu₁ ▸ h.lru x hx'

end PoolInv

/-- Only nodes without data are gone. -/
structure Discards (p p' : CachePool Key n) : Prop where
  config : p'.config = p.config
  vdHandle : p'.vdHandle = p.vdHandle
  sub : ∀ node ∈ p'.used, node ∈ p.used
  keeps : ∀ node ∈ p.used, p.vdHandle node ≠ none → node ∈ p'.used

theorem Discards.refl (p : CachePool Key n) : Discards p p := ⟨rfl, rfl, fun _ h => h, fun _ h _ => h⟩

theorem Discards.trans {p p' p'' : CachePool Key n} (h : Discards p p') (h' : Discards p' p'') : Discards p p'' :=
  ⟨h'.config.trans h.config, h'.vdHandle.trans h.vdHandle, fun node hn => h.sub node (h'.sub node hn),
    fun node hn hd => h'.keeps node (h.keeps node hn hd) (by rwa [h.vdHandle])⟩

namespace PoolInv

variable {slot} {p : CachePool Key n} {owner : NodeId → Option Key} {chains : Fin n → List NodeId}

theorem absent (h : PoolInv slot p owner chains) {key : Key}
    (hc : ∀ newhash, p.config.allows newhash → ∀ x ∈ chains (slot newhash key), owner x ≠ some key) :
    ∀ x ∈ p.used, owner x ≠ some key := by
  intro x hx ho
  obtain ⟨s, hs⟩ := h.chained x hx
  obtain ⟨newhash, hal, rfl⟩ := h.slot_of_owner ho s hs
  exact hc newhash hal x hs ho

theorem found_iff (h : PoolInv slot p owner chains) {p' : CachePool Key n} {key : Key} {r : Option NodeId}
    (hd : Discards p p') (hf : ∀ node, r = some node → p.vdHandle node = some key)
    (ha : r = none → ∀ x ∈ p'.used, owner x ≠ some key) (node : NodeId) :
    r = some node ↔ p.vdHandle node = some key := by
  refine ⟨hf node, fun hv => ?_⟩
  obtain ⟨hu, ho⟩ := h.handle node key hv
  cases hr : r with
  | none => exact absurd ho (ha hr node (hd.keeps node hu (by rw [hv]; exact Option.some_ne_none key)))
  | some x =>
    obtain ⟨hux, hox⟩ := h.handle x key (hf x hr)
    rw [h.unique x node hux hu (hox.trans ho.symm)]

variable [DecidableEq Key]

theorem findLoop (key : Key) (newhash : Bool) : ∀ (fuel : Nat) {p : CachePool Key n} {chains : Fin n → List NodeId}
    (front : List NodeId) {rest : List NodeId}, PoolInv slot p owner chains → p.config.allows newhash →
    chains (slot newhash key) = front ++ rest → (∀ x ∈ front, ∃ k, p.vdHandle x = some k ∧ k ≠ key) →
    rest.length < fuel →
    ∃ p' chains' r, CachePool.findLoop slot key fuel p rest.head? = some (p', r) ∧ PoolInv slot p' owner chains' ∧
      Discards p p' ∧ (∀ s, ∀ x ∈ chains' s, x ∈ chains s) ∧ (∀ node, r = some node → p.vdHandle node = some key) ∧
      (r = none → ∀ x ∈ chains' (slot newhash key), owner x ≠ some key)
  | 0, _, _, _, _, _, _, _, _, hf => absurd hf (Nat.not_lt_zero _)
  | fuel + 1, p, chains, front, [], h, _, hsplit, hfront, _ => by
    refine ⟨p, chains, none, rfl, h, Discards.refl p, fun _ _ hx => hx, fun _ hr => (by cases hr), fun _ x hx ho => ?_⟩
    rw [hsplit, List.append_nil] at hx
    obtain ⟨k, hk, hne⟩ := hfront x hx
    exact hne (Option.some.inj ((h.handle x k hk).2.symm.trans ho))
  | fuel + 1, p, chains, front, node :: rest, h, hal, hsplit, hfront, hf => by
    have hlink := h.rep.linked (slot newhash key)
    rw [hsplit] at hlink
    have hused : ∀ x ∈ rest, x ∈ p.used := fun x hx => h.rep.used (slot newhash key) x (by simp [hsplit, hx])
    have hnext : p.nextNode node = rest.head? := by
      rw [CachePool.nextNode, linked_head (linked_suffix hlink).2]
      exact h.rep.search_head hused
    have hmem : node ∈ chains (slot newhash key) := by
      rw [hsplit]
      simp
    unfold CachePool.findLoop
    simp only [List.head?_cons, hnext]
    cases hv : p.vdHandle node with
    | none =>
      -- the node is in a slot of the key looked up, whichever key it was allocated for
      have hslot : ∀ t, node ∈ chains t → ∃ nh, p.config.allows nh ∧ t = slot nh key :=
        fun t ht => ⟨newhash, hal, h.rep.disjoint _ _ node ht hmem⟩
      obtain ⟨p₁, h1, hinv, hc, hu, hvd⟩ := h.purgeNode hslot
      have hvd' : p₁.vdHandle = p.vdHandle := by
        rw [hvd, ← hv, Function.update_eq_self]
      have hdis : Discards p p₁ := by
        refine ⟨hc, hvd', fun x hx => ?_, fun x hx hd => ?_⟩
        · rw [hu] at hx
          exact (List.mem_filter.mp hx).1
        · rw [hu, List.mem_filter]
          refine ⟨hx, ?_⟩
          have hne : x ≠ node := fun he => hd (he ▸ hv)
          simpa using hne
      have hnot : node ∉ front := fun hm => by
        obtain ⟨k, hk, -⟩ := hfront node hm
        rw [hv] at hk
        cases hk
      have hsplit' : (chains (slot newhash key)).erase node = front ++ rest := by
        rw [hsplit, List.erase_append_right _ hnot, List.erase_cons_head]
      obtain ⟨p', chains', r, i1, i2, i3, i4, i5, i6⟩ := findLoop key newhash fuel front hinv
        (hc ▸ hal) hsplit' (fun x hx => by rw [hvd']; exact hfront x hx) (Nat.lt_of_succ_lt_succ hf)
      refine ⟨p', chains', r, ?_, i2, hdis.trans i3, fun s x hx => List.mem_of_mem_erase (i4 s x hx), fun x hx => ?_, i6⟩
      · simp only [h1]
        exact i1
      · rw [← hvd']
        exact i5 x hx
    | some k =>
      simp only []
      by_cases hk : k = key
      · rw [if_pos hk]
        refine ⟨p, chains, some node, rfl, h, Discards.refl p, fun _ _ hx => hx, fun x hx => ?_, fun hr => by cases hr⟩
        rw [← Option.some.inj hx, hv, hk]
      · rw [if_neg hk]
        refine findLoop key newhash fuel (front ++ [node]) h hal ?_ (fun x hx => ?_)
          (Nat.lt_of_succ_lt_succ hf)
        · rw [hsplit, List.append_cons]
        · rcases List.mem_append.mp hx with hx | hx
          · exact hfront x hx
          · rw [List.mem_singleton.mp hx]
            exact ⟨k, hv, hk⟩

theorem cacheFind (h : PoolInv slot p owner chains) (key : Key) (newhash : Bool) (hal : p.config.allows newhash) :
    ∃ p' chains' r, p.cacheFind slot key newhash = some (p', r) ∧ PoolInv slot p' owner chains' ∧ Discards p p' ∧
      (∀ s, ∀ x ∈ chains' s, x ∈ chains s) ∧ (∀ node, r = some node → p.vdHandle node = some key) ∧
      (r = none → ∀ x ∈ chains' (slot newhash key), owner x ≠ some key) := by
  have hhead : p.buckets (slot newhash key) = (chains (slot newhash key)).head? := linked_head (h.rep.linked _)
  unfold CachePool.cacheFind
  rw [hhead, h.rep.search_head (h.rep.used _)]
  exact findLoop key newhash (p.used.length + 1) [] h hal rfl (fun x hx => absurd hx List.not_mem_nil)
    (Nat.lt_succ_of_le (h.rep.length_le _))

theorem cacheFind_both (h : PoolInv slot p owner chains) (key : Key) (first : Bool)
    (hch : p.config.hashChanging = true) :
    ∃ p₁ chains₁ r, p.cacheFind slot key first = some (p₁, r) ∧ PoolInv slot p₁ owner chains₁ ∧ Discards p p₁ ∧
      (∀ node, r = some node → p.vdHandle node = some key) ∧
      (r = none → ∃ p' chains' r', p₁.cacheFind slot key (!first) = some (p', r') ∧ PoolInv slot p' owner chains' ∧
        Discards p p' ∧ (∀ node, r' = some node → p.vdHandle node = some key) ∧
        (r' = none → ∀ x ∈ p'.used, owner x ≠ some key)) := by
  obtain ⟨p₁, chains₁, r, h1, h2, h3, h4, h5, h6⟩ := h.cacheFind key first (.inl hch)
  refine ⟨p₁, chains₁, r, h1, h2, h3, h5, fun hr => ?_⟩
  have hch₁ : p₁.config.hashChanging = true := by rw [h3.config, hch]
  obtain ⟨p', chains', r', i1, i2, i3, i4, i5, i6⟩ := h2.cacheFind key (!first) (.inl hch₁)
  refine ⟨p', chains', r', i1, i2, h3.trans i3, fun node hn => ?_, fun hr' => i2.absent (fun nh _ x hx => ?_)⟩
  · rw [← h3.vdHandle]
    exact i5 node hn
  · by_cases hnh : nh = first
    · subst hnh
      exact h6 hr x (i4 _ x hx)
    · obtain rfl : nh = !first := by
        cases nh <;> cases first <;> simp_all
      exact i6 hr' x hx

theorem cacheFindAutoChoseHash (h : PoolInv slot p owner chains) (key : Key) :
    ∃ p' chains' r, p.cacheFindAutoChoseHash slot key = some (p', r) ∧ PoolInv slot p' owner chains' ∧ Discards p p' ∧
      (∀ node, r = some node ↔ p.vdHandle node = some key) ∧ (r = none → ∀ x ∈ p'.used, owner x ≠ some key) := by
  unfold CachePool.cacheFindAutoChoseHash
  cases hch : p.config.hashChanging with
  | false =>
    simp only [Bool.false_eq_true, if_false]
    obtain ⟨p', chains', r, h1, h2, h3, -, h5, h6⟩ := h.cacheFind key p.config.targetNewHash (.inr rfl)
    have habs : r = none → ∀ x ∈ p'.used, owner x ≠ some key := by
      intro hr
      refine h2.absent (fun nh hal x hx => ?_)
      rw [h3.config] at hal
      rcases hal with hal | rfl
      · rw [hch] at hal
        cases hal
      · exact h6 hr x hx
    exact ⟨p', chains', r, h1, h2, h3, h.found_iff h3 h5 habs, habs⟩
  | true =>
    simp only [if_true]
    obtain ⟨p₁, chains₁, r, h1, h2, h3, h4, h5⟩ := h.cacheFind_both key (!p.config.targetNewHash) hch
    rw [h1]
    cases hr : r with
    | none =>
      obtain ⟨p', chains', r', i1, i2, i3, i4, i5⟩ := h5 hr
      rw [Bool.not_not] at i1
      exact ⟨p', chains', r', i1, i2, i3, h.found_iff i3 i4 i5, i5⟩
    | some node =>
      have hv := h4 node hr
      obtain ⟨hu, ho⟩ := h.handle node key hv
      have hu₁ : node ∈ p₁.used := h3.keeps node hu (by rw [hv]; exact Option.some_ne_none key)
      obtain ⟨p', chains', i1, i2, i3, i4, i5⟩ := h2.moveToNewHash hu₁ ho
      have hd : Discards p p' := by
        refine h3.trans ⟨i3, i5, fun x hx => ?_, fun x hx _ => ?_⟩
        · rwa [i4] at hx
        · rwa [i4]
      refine ⟨p', chains', some node, ?_, i2, hd, ?_, fun hn => by cases hn⟩
      · simp only [Option.bind_some, i1, Option.map_some]
      · exact h.found_iff hd (fun x hx => Option.some.inj hx ▸ hv) (fun hn => by cases hn)

end PoolInv

/-- Only the nodes of `gone` are gone, as far as they had data. -/
structure Evicts (gone : NodeId → Prop) (p p' : CachePool Key n) : Prop where
  config : p'.config = p.config
  sub : ∀ node ∈ p'.used, node ∈ p.used
  keeps : ∀ node ∈ p.used, ¬ gone node → node ∈ p'.used
  handle : ∀ node, ¬ gone node → p'.vdHandle node = p.vdHandle node
  lost : ∀ node, gone node → p'.vdHandle node = none
  freed : ∀ node, gone node → p.vdHandle node ≠ none → node ∉ p'.used

theorem Evicts.refl (p : CachePool Key n) {gone : NodeId → Prop} (h : ∀ node, gone node → p.vdHandle node = none) :
    Evicts gone p p :=
  ⟨rfl, fun _ hn => hn, fun _ hn _ => hn, fun _ _ => rfl, h, fun node hg hd => absurd (h node hg) hd⟩

theorem Evicts.trans {p p' p'' : CachePool Key n} {gone gone' : NodeId → Prop} (h : Evicts gone p p')
    (h' : Evicts gone' p' p'') : Evicts (fun node => gone node ∨ gone' node) p p'' := by
  refine ⟨h'.config.trans h.config, fun node hn => h.sub node (h'.sub node hn), fun node hn hg => ?_,
    fun node hg => ?_, fun node hg => ?_, fun node hg hd => ?_⟩
  · rw [not_or] at hg
    exact h'.keeps node (h.keeps node hn hg.1) hg.2
  · rw [not_or] at hg
    rw [h'.handle node hg.2, h.handle node hg.1]
  · by_cases hg' : gone' node
    · exact h'.lost node hg'
    · rw [h'.handle node hg', h.lost node (hg.resolve_right hg')]
  · by_cases hg' : gone node
    · exact fun hu => h.freed node hg' hd (h'.sub node hu)
    · exact h'.freed node (hg.resolve_left hg') (by rwa [h.handle node hg'])

namespace PoolInv

variable {slot} {p : CachePool Key n} {owner : NodeId → Option Key} {chains : Fin n → List NodeId}

theorem purgeNode_evicts (h : PoolInv slot p owner chains) {key : Key} {node : NodeId} (ho : owner node = some key) :
    ∃ p' chains', p.purgeNode slot key node = some p' ∧ PoolInv slot p' owner chains' ∧ Evicts (· = node) p p' ∧
      node ∉ p'.used := by
  obtain ⟨p', h1, h2, hc, hu, hv⟩ := h.purgeNode (h.slot_of_owner ho)
  have hfree : node ∉ p'.used := by
    rw [hu, List.mem_filter]
    simp
  refine ⟨p', _, h1, h2, ⟨hc, fun x hx => ?_, fun x hx hne => ?_, fun x hne => ?_, fun x he => ?_, fun x he _ => ?_⟩, hfree⟩
  · rw [hu] at hx
    exact (List.mem_filter.mp hx).1
  · rw [hu, List.mem_filter]
    exact ⟨hx, by simpa using hne⟩
  · rw [hv, Function.update_of_ne hne]
  · rw [hv, he, Function.update_self]
  · rw [he]
    exact hfree

theorem purgeNodeEverything (h : PoolInv slot p owner chains) (node : NodeId) :
    ∃ p' chains', p.purgeNodeEverything slot node = some p' ∧ PoolInv slot p' owner chains' ∧ Evicts (· = node) p p' := by
  unfold CachePool.purgeNodeEverything
  cases hv : p.vdHandle node with
  | none => exact ⟨p, chains, rfl, h, Evicts.refl p (fun x hx => hx ▸ hv)⟩
  | some key =>
    obtain ⟨p', chains', h1, h2, h3, -⟩ := h.purgeNode_evicts (h.handle node key hv).2
    exact ⟨p', chains', h1, h2, h3⟩

theorem purgeNodes : ∀ (nodes : List NodeId) {p : CachePool Key n} {chains : Fin n → List NodeId},
    PoolInv slot p owner chains →
    ∃ p' chains', p.purgeNodes slot nodes = some p' ∧ PoolInv slot p' owner chains' ∧ Evicts (· ∈ nodes) p p'
  | [], p, chains, h => ⟨p, chains, rfl, h, Evicts.refl p (fun _ hx => absurd hx List.not_mem_nil)⟩
  | node :: nodes, p, chains, h => by
    obtain ⟨p₁, chains₁, h1, h2, h3⟩ := h.purgeNodeEverything node
    obtain ⟨p', chains', i1, i2, i3⟩ := purgeNodes nodes h2
    refine ⟨p', chains', ?_, i2, ?_⟩
    · unfold CachePool.purgeNodes
      rw [h1]
      exact i1
    · simpa only [List.mem_cons] using h3.trans i3

theorem tryPurgeSize (h : PoolInv slot p owner chains) (prePurge count : Nat) (reserve : Option NodeId)
    (fits : NodeId → Bool) :
    ∃ p' chains', ∃ gone : List NodeId, p.tryPurgeSize slot prePurge count reserve fits = some p' ∧
      PoolInv slot p' owner chains' ∧
      Evicts (· ∈ gone) p p' ∧ ∀ node ∈ gone, reserve ≠ some node := by
  obtain ⟨p₁, chains₁, h1, h2, h3⟩ := purgeNodes (p.prePurgeNodes prePurge reserve) h
  have hpre : ∀ node ∈ p.prePurgeNodes prePurge reserve, reserve ≠ some node := by
    intro node hn
    simpa using (List.mem_filter.mp hn).2
  unfold CachePool.tryPurgeSize
  rw [h1]
  simp only [Option.bind_some]
  cases hcand : p₁.purgeCandidate count reserve fits with
  | none => exact ⟨p₁, chains₁, _, rfl, h2, h3, hpre⟩
  | some node =>
    obtain ⟨p', chains', i1, i2, i3⟩ := h2.purgeNodeEverything node
    have hres : reserve ≠ some node := by
      unfold CachePool.purgeCandidate at hcand
      split at hcand
      · cases hcand
      · have hfound := List.find?_some hcand
        simp only [Bool.and_eq_true, decide_eq_true_eq] at hfound
        exact hfound.1.1
    refine ⟨p', chains', p.prePurgeNodes prePurge reserve ++ [node], i1, i2, ?_, fun x hx => ?_⟩
    · simpa only [List.mem_append, List.mem_singleton] using h3.trans i3
    · rcases List.mem_append.mp hx with hx | hx
      · exact hpre x hx
      · rw [List.mem_singleton.mp hx]
        exact hres

theorem chain_eq (h : PoolInv slot p owner chains) (s : Fin n) : p.chain s = chains s :=
  follow_eq (h.rep.linked s) (h.rep.length_le s)

theorem setData (h : PoolInv slot p owner chains) {key : Key} {node : NodeId} (hu : node ∈ p.used)
    (ho : owner node = some key) :
    PoolInv slot { p with vdHandle := Function.update p.vdHandle node (some key) } owner chains := by
  refine ⟨⟨h.rep.linked, h.rep.nodup, h.rep.disjoint, h.rep.used, h.rep.indexed, h.rep.nodes, h.rep.free⟩, h.chained,
    h.place, ?_, h.unique, h.lru⟩
  intro x k hk
  by_cases hx : x = node
  · subst hx
    simp only [Function.update_self, Option.some.injEq] at hk
    exact ⟨hu, hk ▸ ho⟩
  · simp only [Function.update_of_ne hx] at hk
    exact h.handle x k hk

theorem moveToLru (h : PoolInv slot p owner chains) {node : NodeId} (hu : node ∈ p.used) (list : LruList) :
    PoolInv slot (p.moveToLru node list) owner chains := by
  cases list <;>
    refine ⟨⟨h.rep.linked, h.rep.nodup, h.rep.disjoint, h.rep.used, h.rep.indexed, h.rep.nodes, h.rep.free⟩, h.chained,
      h.place, h.handle, h.unique, fun x hx => ?_⟩ <;>
    simp only [CachePool.moveToLru, CachePool.removeFromLru, List.mem_cons, List.mem_filter] at hx ⊢
  · rcases hx with (rfl | hx) | hx | hx
    · exact hu
    · exact h.lru x (.inl hx.1)
    · exact h.lru x (.inr (.inl hx.1))
    · exact h.lru x (.inr (.inr hx.1))
  · rcases hx with hx | (rfl | hx) | hx
    · exact h.lru x (.inl hx.1)
    · exact hu
    · exact h.lru x (.inr (.inl hx.1))
    · exact h.lru x (.inr (.inr hx.1))
  · rcases hx with hx | hx | rfl | hx
    · exact h.lru x (.inl hx.1)
    · exact h.lru x (.inr (.inl hx.1))
    · exact hu
    · exact h.lru x (.inr (.inr hx.1))

theorem configure (h : PoolInv slot p owner chains) {config : HashConfig}
    (hc : (config.hashChanging || p.stableIn slot config.targetNewHash) = true) :
    PoolInv slot { p with config := config } owner chains := by
  refine ⟨⟨h.rep.linked, h.rep.nodup, h.rep.disjoint, h.rep.used, h.rep.indexed, h.rep.nodes, h.rep.free⟩, h.chained, ?_,
    h.handle, h.unique, h.lru⟩
  intro s node hs
  obtain ⟨key, newhash, ho, -, hslot⟩ := h.place s node hs
  rcases (Bool.or_eq_true _ _).mp hc with hch | hst
  · exact ⟨key, newhash, ho, .inl hch, hslot⟩
  · have hnode := List.all_eq_true.mp hst node (h.rep.used s node hs)
    split at hnode
    · cases hnode
    · rename_i k hk
      obtain rfl : key = k := Option.some.inj (ho.symm.trans (h.handle node k hk).2)
      rw [List.contains_iff_mem, h.chain_eq] at hnode
      exact ⟨key, config.targetNewHash, ho, .inr rfl, h.rep.disjoint _ _ node hs hnode⟩

theorem purgeFound (h : PoolInv slot p owner chains) {p₁ : CachePool Key n} {chains₁ : Fin n → List NodeId}
    (h₁ : PoolInv slot p₁ owner chains₁) (hd : Discards p p₁) {key : Key} {node : NodeId}
    (hv : p.vdHandle node = some key) :
    ∃ p' chains', p₁.purgeNode slot key node = some p' ∧ PoolInv slot p' owner chains' ∧ p'.config = p.config ∧
      ∀ x k, p'.vdHandle x = some k ↔ p.vdHandle x = some k ∧ k ≠ key := by
  have ho := (h.handle node key hv).2
  obtain ⟨p', chains', h1, h2, h3, -⟩ := h₁.purgeNode_evicts ho
  refine ⟨p', chains', h1, h2, h3.config.trans hd.config, fun x k => ⟨fun hx => ?_, fun hx => ?_⟩⟩
  · have hne : x ≠ node := fun he => by
      rw [h3.lost x he] at hx
      cases hx
    rw [h3.handle x hne, hd.vdHandle] at hx
    refine ⟨hx, fun hk => hne ?_⟩
    obtain ⟨hux, hox⟩ := h.handle x k hx
    exact h.unique x node hux (h.handle node key hv).1 (by rw [hox, ho, hk])
  · have hne : x ≠ node := fun he => by
      rw [he, hv] at hx
      exact hx.2 (Option.some.inj hx.1).symm
    rw [h3.handle x hne, hd.vdHandle]
    exact hx.1

theorem handle_of_absent (h : PoolInv slot p owner chains) {p' : CachePool Key n} {key : Key} (hd : Discards p p')
    (ha : ∀ x ∈ p'.used, owner x ≠ some key) (x : NodeId) (k : Key) :
    p'.vdHandle x = some k ↔ p.vdHandle x = some k ∧ k ≠ key := by
  rw [hd.vdHandle]
  refine ⟨fun hx => ⟨hx, fun hk => ?_⟩, And.left⟩
  obtain ⟨hux, hox⟩ := h.handle x k hx
  exact ha x (hd.keeps x hux (by rw [hx]; exact Option.some_ne_none k)) (hk ▸ hox)

theorem cachePurge [DecidableEq Key] (h : PoolInv slot p owner chains) (key : Key) :
    ∃ p' chains', p.cachePurge slot key = some p' ∧ PoolInv slot p' owner chains' ∧ p'.config = p.config ∧
      ∀ x k, p'.vdHandle x = some k ↔ p.vdHandle x = some k ∧ k ≠ key := by
  unfold CachePool.cachePurge
  cases hch : p.config.hashChanging with
  | false =>
    simp only [Bool.false_eq_true, if_false]
    have hauto := h.cacheFindAutoChoseHash key
    unfold CachePool.cacheFindAutoChoseHash at hauto
    rw [hch] at hauto
    simp only [Bool.false_eq_true, if_false] at hauto
    obtain ⟨p₁, chains₁, r, h1, h2, h3, h4, h5⟩ := hauto
    rw [h1]
    simp only [Option.bind_some]
    cases hr : r with
    | none => exact ⟨p₁, chains₁, rfl, h2, h3.config, h.handle_of_absent h3 (h5 hr)⟩
    | some node => exact h.purgeFound h2 h3 ((h4 node).mp hr)
  | true =>
    simp only [if_true]
    obtain ⟨p₁, chains₁, r, h1, h2, h3, h4, h5⟩ := h.cacheFind_both key false hch
    rw [h1]
    simp only [Option.bind_some]
    cases hr : r with
    | none =>
      obtain ⟨p', chains', r', i1, i2, i3, i4, i5⟩ := h5 hr
      rw [Bool.not_false] at i1
      simp only [i1, Option.bind_some]
      cases hr' : r' with
      | none => exact ⟨p', chains', rfl, i2, i3.config, h.handle_of_absent i3 (i5 hr')⟩
      | some node => exact h.purgeFound i2 i3 (i4 node hr')
    | some node => exact h.purgeFound h2 h3 (h4 node hr)

end PoolInv

end Dtc
