import DtcServer.KeyRoute
/-!
# ConsistentHash — the ring of `CConsistentHashSelector` and the order of its nodes The ring is the one of the points of all
nodes, so it is the same for every order of `AddNode`, collisions or not, and one more node takes keys only for itself.
-/
namespace Dtc

namespace CConsistentHashSelector

variable (hash : List UInt8 → UInt32)

theorem selectHash_eq (s : CConsistentHashSelector) (value : UInt32) :
    s.selectHash value = (HashRing.select value s.ring).getD [] := by
  rw [ring, HashRing.select_map]
  rfl

theorem addNodeBy_new {s : CConsistentHashSelector} {name : NodeName} (h : name ∉ s.nodeNames) :
    ∃ s', s.addNodeBy hash name = some s' := by
  unfold addNodeBy
  rw [if_neg h]
  exact ⟨_, rfl⟩

theorem addNodesBy_new : ∀ (names : List NodeName) {s : CConsistentHashSelector}, s.Indexed → names.Nodup →
    (∀ name ∈ names, name ∉ s.nodeNames) →
    ∃ s', names.foldlM (addNodeBy hash) s = some s' ∧ s'.Indexed ∧ s'.nodeNames = s.nodeNames ++ names
  | [], s, hs, _, _ => ⟨s, rfl, hs, (List.append_nil _).symm⟩
  | name :: names, s, hs, hn, hnew => by
    obtain ⟨hname, hn⟩ := List.nodup_cons.mp hn
    obtain ⟨s₁, h₁⟩ := addNodeBy_new hash (hnew name List.mem_cons_self)
    obtain ⟨hs₁, hnames₁, -⟩ := addNodeBy_spec hash hs h₁
    have hnew₁ : ∀ n ∈ names, n ∉ s₁.nodeNames := by
      intro n hin hmem
      rw [hnames₁] at hmem
      rcases List.mem_append.mp hmem with h | h
      · exact hnew n (List.mem_cons_of_mem name hin) h
      · exact hname (List.mem_singleton.mp h ▸ hin)
    obtain ⟨s', h', hs', hnames'⟩ := addNodesBy_new names hs₁ hn hnew₁
    refine ⟨s', ?_, hs', ?_⟩
    · rw [List.foldlM_cons]
      exact Option.bind_eq_some_iff.mpr ⟨s₁, h₁, h'⟩
    · rw [hnames', hnames₁, List.append_assoc, List.singleton_append]

theorem indexed_empty : Indexed {} := fun _ hx => absurd hx List.not_mem_nil

theorem ofNodesBy_nodup {names : List NodeName} (hn : names.Nodup) :
    ∃ s, ofNodesBy hash names = some s ∧ s.Indexed ∧ s.nodeNames = names ∧
      s.ring = (ringPointsBy hash names).foldl HashRing.place [] := by
  obtain ⟨s, hs, hidx, hnames⟩ := addNodesBy_new hash names indexed_empty hn (fun _ _ => List.not_mem_nil)
  exact ⟨s, hs, hidx, hnames, ofNodesBy_spec hash names indexed_empty hs⟩

theorem ring_perm {names names' : List NodeName} (hp : names.Perm names') {s s' : CConsistentHashSelector}
    (hs : s.ring = (ringPointsBy hash names).foldl HashRing.place [])
    (hs' : s'.ring = (ringPointsBy hash names').foldl HashRing.place []) : s.ring = s'.ring := by
  rw [hs, hs']
  exact HashRing.foldl_place_perm (hp.flatMap_right _) List.Pairwise.nil

theorem selectHash_addNodeBy {s s' : CConsistentHashSelector} (hs : s.Indexed) {name : NodeName}
    (h : s.addNodeBy hash name = some s') (value : UInt32) :
    s'.selectHash value = name ∨ s'.selectHash value = s.selectHash value := by
  obtain ⟨-, -, hring⟩ := addNodeBy_spec hash hs h
  have hpoints : ∀ x ∈ (List.range virtualNodeCount).map (fun i => (hash (virtualName name i), name)), x.2 = name := by
    intro x hx
    obtain ⟨i, -, rfl⟩ := List.mem_map.mp hx
    rfl
  rw [selectHash_eq, selectHash_eq, hring]
  rcases HashRing.select_foldl_place value _ s.ring hpoints with hv | hv
  · rw [hv]
    exact .inl rfl
  · rw [hv]
    exact .inr rfl

end CConsistentHashSelector

/-- **The selector is one of a set of nodes**: for any hash function and names that differ, all are added, every order of
them selects alike, and one more node takes hash values only for itself. -/
theorem select_anyOrder (hash : List UInt8 → UInt32) {names : List NodeName} (hn : names.Nodup) :
    ∃ s, CConsistentHashSelector.ofNodesBy hash names = some s ∧
      (∀ names', names'.Perm names → ∃ s', CConsistentHashSelector.ofNodesBy hash names' = some s' ∧
        ∀ value, s'.selectHash value = s.selectHash value) ∧
      ∀ name, name ∉ names → ∃ s', s.addNodeBy hash name = some s' ∧
        ∀ value, s'.selectHash value ≠ s.selectHash value → s'.selectHash value = name := by
  obtain ⟨s, hs, hidx, hnames, hring⟩ := CConsistentHashSelector.ofNodesBy_nodup hash hn
  refine ⟨s, hs, fun names' hp => ?_, fun name hname => ?_⟩
  · obtain ⟨s', hs', -, -, hring'⟩ := CConsistentHashSelector.ofNodesBy_nodup hash (hp.nodup_iff.mpr hn)
    refine ⟨s', hs', fun value => ?_⟩
    rw [CConsistentHashSelector.selectHash_eq, CConsistentHashSelector.selectHash_eq,
      CConsistentHashSelector.ring_perm hash hp hring' hring]
  · obtain ⟨s', hs'⟩ := CConsistentHashSelector.addNodeBy_new hash (hnames ▸ hname)
    refine ⟨s', hs', fun value hne => ?_⟩
    exact (CConsistentHashSelector.selectHash_addNodeBy hash hidx hs' value).resolve_right hne

/-- A hash function that gives all virtual nodes one point: of three names, the smallest has it in every order. -/
theorem select_anyOrder_collision : ∃ s, CConsistentHashSelector.ofNodesBy (fun _ => 7) [[50], [49], [51]] = some s ∧
    (∃ s', CConsistentHashSelector.ofNodesBy (fun _ => 7) [[51], [50], [49]] = some s' ∧
      ∀ value, s'.selectHash value = s.selectHash value) ∧
    ∃ s', s.addNodeBy (fun _ => 7) [48] = some s' ∧
      ∀ value, s'.selectHash value ≠ s.selectHash value → s'.selectHash value = [48] := by
  have hnodup : ([[50], [49], [51]] : List NodeName).Nodup := by decide
  obtain ⟨s, hs, hperm, hadd⟩ := select_anyOrder (fun _ => 7) hnodup
  exact ⟨s, hs, hperm _ (by decide), hadd [48] (by decide)⟩

end Dtc
