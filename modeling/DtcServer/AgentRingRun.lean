import DtcServer.AgentRing
/-!
# AgentRingRun — the agent's ring in every run of additions and removals

Beside the module stands the list of the virtual nodes that were added and not removed.  Each of them has one place in the
queue of its point, as long as no server wants a point twice and a virtual node is removed only where its server has the point.
-/
namespace Dtc

/-- The ring of one thread, and the virtual nodes that are live. -/
structure RingRun where
  ring : RingModule := {}
  live : List (NodeName × Nat) := []

inductive RingAction
  | add (name : NodeName) (virtualNode : Int)
  | remove (name : NodeName) (virtualNode : Int)

namespace RingRun

variable (hash : NodeName → Nat → UInt32)

def addLive (name : NodeName) (is : List Nat) (live : List (NodeName × Nat)) : List (NodeName × Nat) :=
  is.foldl (fun live i => (name, i) :: live) live

def removeLive (name : NodeName) (is : List Nat) (live : List (NodeName × Nat)) : List (NodeName × Nat) :=
  is.foldl (fun live i => live.filter (fun x => x ≠ (name, i))) live

def step (s : RingRun) : RingAction → RingRun
  | .add name virtualNode =>
    ⟨(s.ring.addCacheServer hash name virtualNode).1, addLive name (RingModule.virtualNodes virtualNode) s.live⟩
  | .remove name virtualNode =>
    ⟨(s.ring.removeCacheServer hash name virtualNode).1, removeLive name (RingModule.virtualNodes virtualNode) s.live⟩

/-- The server has no live virtual node at the points of the new ones, which are all different. -/
def AddOk (name : NodeName) : List Nat → List (NodeName × Nat) → Prop
  | [], _ => True
  | i :: is, live => (∀ x ∈ live, x.1 = name → hash x.1 x.2 ≠ hash name i) ∧ AddOk name is ((name, i) :: live)

/-- Each of the virtual nodes is live and has its point, unless its point is nobody's. -/
def RemoveOk (name : NodeName) : List Nat → List (NodeName × Nat) → Prop
  | [], _ => True
  | i :: is, live => (∀ x ∈ live, hash x.1 x.2 = hash name i → (name, i) ∈ live ∧ ¬ x.1 < name) ∧
      RemoveOk name is (live.filter (fun x => x ≠ (name, i)))

instance decidableAddOk (name : NodeName) : ∀ is live, Decidable (AddOk hash name is live)
  | [], _ => isTrue trivial
  | i :: is, live => have := decidableAddOk name is ((name, i) :: live); inferInstanceAs (Decidable (_ ∧ _))

instance decidableRemoveOk (name : NodeName) : ∀ is live, Decidable (RemoveOk hash name is live)
  | [], _ => isTrue trivial
  | i :: is, live =>
    have := decidableRemoveOk name is (live.filter (fun x => x ≠ (name, i)))
    inferInstanceAs (Decidable (_ ∧ _))

def StepOk (s : RingRun) : RingAction → Prop
  | .add name virtualNode => AddOk hash name (RingModule.virtualNodes virtualNode) s.live
  | .remove name virtualNode => RemoveOk hash name (RingModule.virtualNodes virtualNode) s.live

instance (s : RingRun) : ∀ a, Decidable (s.StepOk hash a)
  | .add _ _ => inferInstanceAs (Decidable (AddOk ..))
  | .remove _ _ => inferInstanceAs (Decidable (RemoveOk ..))

def Wants (s : RingRun) (point : UInt32) (name : NodeName) : Prop := ∃ i, (name, i) ∈ s.live ∧ hash name i = point

/-- The queues are those of the live virtual nodes. -/
structure Inv (s : RingRun) : Prop where
  sound : s.ring.Sound
  names : ∀ point name, name ∈ s.ring.names point ↔ s.Wants hash point name
  single : ∀ name i j, (name, i) ∈ s.live → (name, j) ∈ s.live → hash name i = hash name j → i = j
  range : ∀ x ∈ s.live, x.2 < virtualNodeCount
  fresh : ∀ id, s.ring.freed id = true → id < s.ring.made

variable {hash} {s : RingRun} {name : NodeName} {i : Nat}

theorem virtualNodes_lt (virtualNode : Int) : ∀ i ∈ RingModule.virtualNodes virtualNode, i < virtualNodeCount := by
  intro i hi
  unfold RingModule.virtualNodes at hi
  split at hi
  · exact List.mem_range.mp hi
  · split at hi
    · cases hi
    · obtain rfl := List.mem_singleton.mp hi
      omega

theorem Inv.newServer (h : s.Inv hash) (name : NodeName) : Inv hash { s with ring := s.ring.newServer name } := by
  have hzero : s.ring.refs s.ring.made = 0 := by
    refine Nat.eq_zero_of_not_pos (fun hpos => ?_)
    exact Nat.lt_irrefl _ (h.sound.alive _ hpos).1
  refine ⟨⟨h.sound.selector, h.sound.duplicateKeys, fun id => ?_, fun id hpos => ?_, h.sound.owned, h.sound.ordered⟩,
    h.names, h.single, h.range, fun id hid => Nat.lt_succ_of_lt (h.fresh id hid)⟩
  · change Function.update s.ring.refCnt s.ring.made 0 id = s.ring.refs id
    by_cases hid : id = s.ring.made
    · rw [hid, Function.update_self, hzero]
      rfl
    · rw [Function.update_of_ne hid, h.sound.counted]
  · obtain ⟨h1, h2⟩ := h.sound.alive id hpos
    exact ⟨Nat.lt_succ_of_lt h1, h2⟩

theorem Inv.addOne (h : s.Inv hash) {o : CCacheServer} (ho : s.ring.cacheServers.lookup name = some o) (hname : o.1 = name)
    (hmade : o.2 < s.ring.made) (hfreed : s.ring.freed o.2 = false) (hi : i < virtualNodeCount)
    (ok : ∀ x ∈ s.live, x.1 = name → hash x.1 x.2 ≠ hash name i) :
    RingModule.Gains s.ring (s.ring.addVirtualNode hash name i) o (hash name i) ∧
      Inv hash ⟨s.ring.addVirtualNode hash name i, (name, i) :: s.live⟩ := by
  have hnew : name ∉ s.ring.names (hash name i) := by
    intro hmem
    obtain ⟨j, hj, hpoint⟩ := (h.names _ _).mp hmem
    exact ok (name, j) hj rfl hpoint
  have hg := RingModule.addVirtualNode_spec hash h.sound ho hname hmade hfreed hnew
  refine ⟨hg, hg.sound, fun point n => ?_, fun n j k hj hk he => ?_, fun x hx => ?_, fun id hid => ?_⟩
  · rw [(hg.names point).mem_iff]
    constructor
    · intro hmem
      split at hmem
      · rename_i hp
        rcases List.mem_cons.mp hmem with rfl | hmem
        · exact ⟨i, by rw [hname]; exact List.mem_cons_self, by rw [hname, hp]⟩
        · obtain ⟨j, hj, hpoint⟩ := (h.names _ _).mp hmem
          exact ⟨j, List.mem_cons_of_mem _ hj, hpoint⟩
      · obtain ⟨j, hj, hpoint⟩ := (h.names _ _).mp hmem
        exact ⟨j, List.mem_cons_of_mem _ hj, hpoint⟩
    · rintro ⟨j, hj, hpoint⟩
      rcases List.mem_cons.mp hj with hj | hj
      · obtain ⟨rfl, rfl⟩ := Prod.mk.inj hj
        rw [if_pos hpoint.symm, hname]
        exact List.mem_cons_self
      · have hmem := (h.names point n).mpr ⟨j, hj, hpoint⟩
        split
        · exact List.mem_cons_of_mem _ hmem
        · exact hmem
  · rcases List.mem_cons.mp hj with hj | hj <;> rcases List.mem_cons.mp hk with hk | hk
    · exact (Prod.mk.inj hj).2.trans (Prod.mk.inj hk).2.symm
    · obtain ⟨hn, hi⟩ := Prod.mk.inj hj
      exact absurd (he.symm.trans (by rw [hn, hi])) (ok (n, k) hk hn)
    · obtain ⟨hn, hi⟩ := Prod.mk.inj hk
      exact absurd (he.trans (by rw [hn, hi])) (ok (n, j) hj hn)
    · exact h.single n j k hj hk he
  · rcases List.mem_cons.mp hx with rfl | hx
    · exact hi
    · exact h.range x hx
  · rw [hg.made]
    exact h.fresh id (by rw [← hg.freed]; exact hid)

theorem Inv.addLoop {o : CCacheServer} (hname : o.1 = name) : ∀ {is : List Nat} {s : RingRun}, s.Inv hash →
    s.ring.cacheServers.lookup name = some o → o.2 < s.ring.made → s.ring.freed o.2 = false →
      (∀ i ∈ is, i < virtualNodeCount) → AddOk hash name is s.live →
        Inv hash ⟨is.foldl (fun m i => m.addVirtualNode hash name i) s.ring, addLive name is s.live⟩ ∧
          (is.foldl (fun m i => m.addVirtualNode hash name i) s.ring).freed = s.ring.freed ∧
            ∀ id, s.ring.refs id ≤ (is.foldl (fun m i => m.addVirtualNode hash name i) s.ring).refs id := by
  intro is
  induction is with
  | nil => exact fun h _ _ _ _ _ => ⟨h, rfl, fun _ => Nat.le_refl _⟩
  | cons i is ih =>
    intro s h ho hmade hfreed hlt ok
    obtain ⟨hg, h'⟩ := h.addOne ho hname hmade hfreed (hlt i List.mem_cons_self) ok.1
    obtain ⟨h1, h2, h3⟩ := ih (s := ⟨s.ring.addVirtualNode hash name i, (name, i) :: s.live⟩) h' (hg.cacheServers ▸ ho)
      (by rw [hg.made]; exact hmade) (by rw [hg.freed]; exact hfreed) (fun j hj => hlt j (List.mem_cons_of_mem _ hj)) ok.2
    refine ⟨h1, h2.trans hg.freed, fun id => Nat.le_trans ?_ (h3 id)⟩
    rw [hg.refs]
    exact Nat.le_add_right _ _

theorem Inv.removeOne (h : s.Inv hash)
    (ok : ∀ x ∈ s.live, hash x.1 x.2 = hash name i → (name, i) ∈ s.live ∧ ¬ x.1 < name) :
    Inv hash ⟨s.ring.removeVirtualNode hash name i, s.live.filter (fun x => x ≠ (name, i))⟩ ∧
      (∀ id, (s.ring.removeVirtualNode hash name i).refs id ≤ s.ring.refs id) ∧
        ∀ id, (s.ring.removeVirtualNode hash name i).freed id = true ↔
          s.ring.freed id = true ∨ 0 < s.ring.refs id ∧ (s.ring.removeVirtualNode hash name i).refs id = 0 := by
  cases hf : HashRing.find (hash name i) s.ring.selector with
  | none =>
    -- nobody is at the point, so the virtual node is not live
    have hsame : s.ring.removeVirtualNode hash name i = s.ring := by
      unfold RingModule.removeVirtualNode
      dsimp only
      rw [hf]
    have hnames : s.ring.names (hash name i) = [] := RingModule.names_eq hf (h.sound.owned _ hf)
    have hlive : s.live.filter (fun x => x ≠ (name, i)) = s.live := by
      refine List.filter_eq_self.mpr (fun x hx => decide_eq_true (fun he => ?_))
      subst he
      have hmem := (h.names (hash name i) name).mpr ⟨i, hx, rfl⟩
      rw [hnames] at hmem
      cases hmem
    rw [hsame, hlive]
    refine ⟨h, fun _ => Nat.le_refl _, fun id => ⟨.inl, fun hor => hor.resolve_right ?_⟩⟩
    rintro ⟨hpos, h0⟩
    omega
  | some o =>
    have hnm := RingModule.names_eq hf (rfl : s.ring.waiting (hash name i) = s.ring.waiting (hash name i))
    have hord := h.sound.ordered (hash name i)
    rw [hnm] at hord
    obtain ⟨hfirst, -⟩ := List.pairwise_cons.mp hord
    -- the first of the point is the virtual node's server
    have ho : o.1 ∈ s.ring.names (hash name i) := by
      rw [hnm]
      exact List.mem_cons_self
    obtain ⟨j₀, hj₀, hpoint₀⟩ := (h.names _ _).mp ho
    obtain ⟨hlive, hnlt⟩ := ok _ hj₀ hpoint₀
    have hname : o.1 = name := by
      have hmem := (h.names (hash name i) name).mpr ⟨i, hlive, rfl⟩
      rw [hnm] at hmem
      rcases List.mem_cons.mp hmem with he | hmem
      · exact he.symm
      · exact absurd (hfirst name hmem) hnlt
    have hl := RingModule.removeVirtualNode_spec hash h.sound hf
    rw [hname] at hl
    have hnodup : ∀ point, (s.ring.names point).Nodup := by
      intro point
      refine List.Pairwise.imp ?_ (h.sound.ordered point)
      intro a b hlt he
      rw [he] at hlt
      exact Std.lt_irrefl hlt
    refine ⟨⟨hl.sound, fun point n => ?_, fun n j k hj hk he => ?_, fun x hx => ?_, fun id hid => ?_⟩, hl.refs, hl.freed⟩
    · have hperm := hl.names point
      have hwants : n ∈ s.ring.names point ↔ s.Wants hash point n := h.names point n
      rw [hperm.mem_iff] at hwants
      by_cases hp : point = hash name i
      · rw [if_pos hp] at hwants hperm
        have hnot := (List.nodup_cons.mp (hperm.nodup_iff.mp (hnodup point))).1
        constructor
        · intro hmem
          obtain ⟨j, hj, hpoint⟩ := hwants.mp (List.mem_cons_of_mem _ hmem)
          refine ⟨j, List.mem_filter.mpr ⟨hj, decide_eq_true (fun he => hnot ?_)⟩, hpoint⟩
          obtain ⟨rfl, rfl⟩ := Prod.mk.inj he
          exact hmem
        · rintro ⟨j, hj, hpoint⟩
          obtain ⟨hmemj, hne⟩ := List.mem_filter.mp hj
          rcases List.mem_cons.mp (hwants.mpr ⟨j, hmemj, hpoint⟩) with hn | hmem
          · have he := h.single n j i hmemj (by rw [hn]; exact hlive) (by rw [hpoint, hp, hn])
            rw [he, hn] at hne
            exact absurd rfl (of_decide_eq_true hne)
          · exact hmem
      · rw [if_neg hp] at hwants
        rw [hwants]
        constructor
        · rintro ⟨j, hj, hpoint⟩
          refine ⟨j, List.mem_filter.mpr ⟨hj, decide_eq_true (fun he => hp ?_)⟩, hpoint⟩
          obtain ⟨rfl, rfl⟩ := Prod.mk.inj he
          exact hpoint.symm
        · rintro ⟨j, hj, hpoint⟩
          exact ⟨j, List.mem_of_mem_filter hj, hpoint⟩
    · exact h.single n j k (List.mem_of_mem_filter hj) (List.mem_of_mem_filter hk) he
    · exact h.range x (List.mem_of_mem_filter hx)
    · change id < (s.ring.removeVirtualNode hash name i).made
      rw [hl.made]
      rcases (hl.freed id).mp hid with hid | ⟨hpos, -⟩
      · exact h.fresh id hid
      · exact (h.sound.alive id hpos).1

theorem Inv.removeLoop : ∀ {is : List Nat} {s : RingRun}, s.Inv hash → RemoveOk hash name is s.live →
    Inv hash ⟨is.foldl (fun m i => m.removeVirtualNode hash name i) s.ring, removeLive name is s.live⟩ ∧
      (∀ id, (is.foldl (fun m i => m.removeVirtualNode hash name i) s.ring).refs id ≤ s.ring.refs id) ∧
        ∀ id, (is.foldl (fun m i => m.removeVirtualNode hash name i) s.ring).freed id = true ↔
          s.ring.freed id = true ∨
            0 < s.ring.refs id ∧ (is.foldl (fun m i => m.removeVirtualNode hash name i) s.ring).refs id = 0 := by
  intro is
  induction is with
  | nil =>
    intro s h _
    refine ⟨h, fun _ => Nat.le_refl _, fun id => ⟨.inl, fun hor => hor.resolve_right ?_⟩⟩
    rintro ⟨hpos, h0⟩
    change s.ring.refs id = 0 at h0
    omega
  | cons i is ih =>
    intro s h ok
    obtain ⟨h', hle, hfreed⟩ := h.removeOne ok.1
    obtain ⟨h1, hle', hfreed'⟩ := ih (s := ⟨s.ring.removeVirtualNode hash name i, s.live.filter (fun x => x ≠ (name, i))⟩) h' ok.2
    rw [List.foldl_cons]
    refine ⟨h1, fun id => Nat.le_trans (hle' id) (hle id), fun id => (hfreed' id).trans ?_⟩
    have h2 := hle id
    have h3 := hle' id
    rw [hfreed id, or_assoc]
    refine or_congr_right ?_
    change _ ∨ 0 < (s.ring.removeVirtualNode hash name i).refs id ∧ _ ↔ _
    change _ ≤ (s.ring.removeVirtualNode hash name i).refs id at h3
    generalize (List.foldl _ (s.ring.removeVirtualNode hash name i) is).refs id = after at h3 ⊢
    omega

theorem Inv.step (h : s.Inv hash) {a : RingAction} (ok : s.StepOk hash a) :
    (s.step hash a).Inv hash ∧ ∀ id, (s.step hash a).ring.freed id = true ↔
      s.ring.freed id = true ∨ 0 < s.ring.refs id ∧ (s.step hash a).ring.refs id = 0 := by
  cases a with
  | add name virtualNode =>
    have hfresh : s.ring.freed s.ring.made = false := by
      refine Bool.eq_false_iff.mpr (fun hid => ?_)
      exact Nat.lt_irrefl _ (h.fresh _ hid)
    obtain ⟨h', hfreed, hrefs⟩ := Inv.addLoop (o := (name, s.ring.made)) rfl (h.newServer name)
      List.lookup_cons_self (Nat.lt_succ_self _) hfresh (virtualNodes_lt virtualNode) ok
    refine ⟨h', fun id => ?_⟩
    change (List.foldl _ (s.ring.newServer name) (RingModule.virtualNodes virtualNode)).freed id = true ↔ _ ∨
      _ ∧ (List.foldl _ (s.ring.newServer name) (RingModule.virtualNodes virtualNode)).refs id = 0
    rw [hfreed]
    refine ⟨.inl, fun hor => hor.resolve_right ?_⟩
    rintro ⟨hpos, h0⟩
    exact absurd (Nat.lt_of_lt_of_le hpos (Nat.le_trans (hrefs id) (Nat.le_of_eq h0))) (Nat.lt_irrefl 0)
  | remove name virtualNode =>
    obtain ⟨h', -, hfreed⟩ := h.removeLoop ok
    exact ⟨h', hfreed⟩

theorem mem_removeLive {x : NodeName × Nat} : ∀ {is : List Nat} {live : List (NodeName × Nat)},
    x ∈ removeLive name is live → x ∈ live ∧ ∀ i ∈ is, x ≠ (name, i)
  | [], _, h => ⟨h, fun _ hi => absurd hi List.not_mem_nil⟩
  | i :: is, live, h => by
    obtain ⟨h1, h2⟩ : x ∈ live.filter (· ≠ (name, i)) ∧ ∀ j ∈ is, x ≠ (name, j) := mem_removeLive h
    obtain ⟨h1, hne⟩ := List.mem_filter.mp h1
    refine ⟨h1, fun j hj => ?_⟩
    rcases List.mem_cons.mp hj with rfl | hj
    · exact of_decide_eq_true hne
    · exact h2 j hj

theorem Inv.holder (h : s.Inv hash) {o : CCacheServer} (ho : o ∈ s.ring.holders) : ∃ point, s.Wants hash point o.1 := by
  rcases List.mem_append.mp ho with ho | ho
  · obtain ⟨x, hx, rfl⟩ := List.mem_map.mp ho
    refine ⟨x.1, (h.names _ _).mp ?_⟩
    rw [RingModule.names_eq (HashRing.find_of_mem h.sound.selector hx) rfl]
    exact List.mem_cons_self
  · obtain ⟨set, hset, ho⟩ := List.mem_flatten.mp ho
    obtain ⟨x, hx, rfl⟩ := List.mem_map.mp hset
    refine ⟨x.1, (h.names _ _).mp ?_⟩
    unfold RingModule.names RingModule.waiting
    rw [HashRing.find_of_mem h.sound.duplicateKeys hx]
    exact List.mem_map_of_mem (List.mem_append_right _ ho)

def owner (s : RingRun) (point : UInt32) : Option NodeName := (HashRing.find point s.ring.selector).map Prod.fst

/-- What the ring is to be: the first of the servers that want a point has it and the others wait for it, once each; there is
no reference to a server without virtual nodes; the counts are those of the references, and no object of them is freed. -/
structure Kept (hash : NodeName → Nat → UInt32) (s : RingRun) : Prop where
  owner : ∀ point name, s.owner point = some name ↔
    s.Wants hash point name ∧ ∀ other, s.Wants hash point other → ¬ other < name
  waiting : ∀ point name, name ∈ (s.ring.waiting point).map Prod.fst ↔ s.Wants hash point name ∧ s.owner point ≠ some name
  once : ∀ point, ((s.ring.waiting point).map Prod.fst).Nodup
  holders : ∀ o ∈ s.ring.holders, ∃ i, (o.1, i) ∈ s.live
  counted : ∀ id, s.ring.refCnt id = s.ring.refs id
  alive : ∀ o ∈ s.ring.holders, s.ring.freed o.2 = false

theorem Inv.names_cases (h : s.Inv hash) (point : UInt32) :
    s.owner point = none ∧ s.ring.names point = [] ∧ s.ring.waiting point = [] ∨
      ∃ first, s.owner point = some first ∧ s.ring.names point = first :: (s.ring.waiting point).map Prod.fst ∧
        (∀ n ∈ (s.ring.waiting point).map Prod.fst, first < n) ∧
          ((s.ring.waiting point).map Prod.fst).Pairwise (· < ·) := by
  unfold owner
  cases hf : HashRing.find point s.ring.selector with
  | none =>
    have hw := h.sound.owned _ hf
    exact .inl ⟨rfl, RingModule.names_eq hf hw, hw⟩
  | some o =>
    have hnm := RingModule.names_eq hf (rfl : s.ring.waiting point = s.ring.waiting point)
    have hord := h.sound.ordered point
    rw [hnm] at hord
    obtain ⟨hfirst, hrest⟩ := List.pairwise_cons.mp hord
    exact .inr ⟨o.1, rfl, hnm, hfirst, hrest⟩

theorem Inv.kept (h : s.Inv hash) : s.Kept hash := by
  refine ⟨fun point name => ?_, fun point name => ?_, fun point => ?_, fun o ho => ?_, h.sound.counted, fun o ho => ?_⟩
  · rcases h.names_cases point with ⟨howner, hnames, -⟩ | ⟨first, howner, hnames, hlt, -⟩
    · rw [howner]
      refine iff_of_false (nomatch ·) (fun hw => ?_)
      have hmem := (h.names point name).mpr hw.1
      rw [hnames] at hmem
      cases hmem
    · rw [howner]
      constructor
      · intro he
        obtain rfl := Option.some.inj he
        refine ⟨(h.names point first).mp (by rw [hnames]; exact List.mem_cons_self), fun other ho hlt' => ?_⟩
        have hmem := (h.names point other).mpr ho
        rw [hnames] at hmem
        rcases List.mem_cons.mp hmem with rfl | hmem
        · exact Std.lt_irrefl hlt'
        · exact Std.lt_irrefl (Std.lt_trans hlt' (hlt _ hmem))
      · rintro ⟨hw, hmin⟩
        have hmem := (h.names point name).mpr hw
        rw [hnames] at hmem
        rcases List.mem_cons.mp hmem with rfl | hmem
        · rfl
        · exact absurd (hlt _ hmem) (hmin first ((h.names point first).mp (by rw [hnames]; exact List.mem_cons_self)))
  · rcases h.names_cases point with ⟨howner, hnames, hw⟩ | ⟨first, howner, hnames, hlt, -⟩
    · rw [hw]
      refine iff_of_false List.not_mem_nil (fun hor => ?_)
      have hmem := (h.names point name).mpr hor.1
      rw [hnames] at hmem
      cases hmem
    · rw [howner, ← h.names point name, hnames]
      constructor
      · intro hmem
        refine ⟨List.mem_cons_of_mem _ hmem, fun he => ?_⟩
        rw [Option.some.inj he] at hlt
        exact Std.lt_irrefl (hlt name hmem)
      · rintro ⟨hmem, hne⟩
        exact (List.mem_cons.mp hmem).resolve_left (fun he => hne (congrArg some he.symm))
  · rcases h.names_cases point with ⟨-, -, hw⟩ | ⟨first, -, -, -, hord⟩
    · rw [hw]
      exact List.nodup_nil
    · refine List.Pairwise.imp ?_ hord
      intro a b hlt he
      rw [he] at hlt
      exact Std.lt_irrefl hlt
  · obtain ⟨-, i, hi, -⟩ := h.holder ho
    exact ⟨i, hi⟩
  · exact (h.sound.alive o.2 (RingModule.refsIn_pos ho)).2

theorem mem_virtualNodes_all (hi : i < virtualNodeCount) : i ∈ RingModule.virtualNodes (-1) := by
  rw [RingModule.virtualNodes, if_pos rfl]
  exact List.mem_range.mpr hi

theorem step_remove_live (virtualNode : Int) :
    (s.step hash (.remove name virtualNode)).live = removeLive name (RingModule.virtualNodes virtualNode) s.live := rfl

theorem Inv.removed (h : s.Inv hash) (ok : s.StepOk hash (.remove name (-1))) {o : CCacheServer}
    (ho : o ∈ (s.step hash (.remove name (-1))).ring.holders) : o.1 ≠ name := by
  obtain ⟨i, hi⟩ := ((h.step ok).1.kept).holders o ho
  rw [step_remove_live] at hi
  obtain ⟨hin, hne⟩ := mem_removeLive hi
  intro he
  exact hne i (mem_virtualNodes_all (h.range _ hin)) (congrArg (·, i) he)

theorem Inv.route_congr {s t : RingRun} (hs : s.Inv hash) (ht : t.Inv hash) (hlive : ∀ x, x ∈ s.live ↔ x ∈ t.live)
    (key : UInt32) : (s.ring.route key).map Prod.fst = (t.ring.route key).map Prod.fst := by
  have hwants : ∀ point name, s.Wants hash point name ↔ t.Wants hash point name := fun point name =>
    exists_congr (fun i => and_congr_left (fun _ => hlive (name, i)))
  have howner : ∀ point, s.owner point = t.owner point := by
    intro point
    refine Option.ext (fun name => ?_)
    rw [hs.kept.owner, ht.kept.owner, hwants]
    exact and_congr_right (fun _ => forall_congr' (fun other => by rw [hwants]))
  have hring : s.ring.selector.map (Prod.map id Prod.fst) = t.ring.selector.map (Prod.map id Prod.fst) := by
    refine HashRing.sorted_ext (List.pairwise_map.mpr hs.sound.selector) (List.pairwise_map.mpr ht.sound.selector) (fun k => ?_)
    rw [HashRing.find_map, HashRing.find_map]
    exact howner k
  unfold RingModule.route
  rw [← HashRing.select_map, ← HashRing.select_map, hring]

end RingRun

def ringMachine (hash : NodeName → Nat → UInt32) : Machine RingRun RingAction where
  start s := s.ring = {} ∧ s.live = []
  step s a := some (s.step hash a)

theorem ringMachine_inv {hash : NodeName → Nat → UInt32} {s : RingRun}
    (h : (ringMachine hash).ReachableMeeting (RingRun.StepOk hash) s) : s.Inv hash := by
  refine Machine.reachableMeeting_induct _ ?_ ?_ h
  · rintro ⟨ring, live⟩ ⟨hring, hlive⟩
    dsimp only at hring hlive
    subst hring hlive
    refine ⟨⟨List.Pairwise.nil, List.Pairwise.nil, fun _ => rfl, fun id hpos => absurd hpos (Nat.lt_irrefl 0),
      fun _ _ => rfl, fun _ => List.Pairwise.nil⟩, fun point name => ?_, fun _ _ _ hj => absurd hj List.not_mem_nil,
      fun _ hx => absurd hx List.not_mem_nil, fun _ hid => (nomatch hid)⟩
    refine iff_of_false List.not_mem_nil ?_
    rintro ⟨i, hi, -⟩
    exact absurd hi List.not_mem_nil
  · intro s a s' hs ok hst
    obtain rfl := Option.some.inj hst
    exact (hs.step ok).1

/-- **The ring of the live virtual nodes.**  In every run that adds no server to a point where it is already, and removes
virtual nodes only where they have their point, the ring is what the live virtual nodes say; a step frees the objects whose
last reference it drops; a server that is removed leaves nothing behind; and the way of a request does not depend on the order
of the steps. -/
theorem ringMachine_kept {hash : NodeName → Nat → UInt32} {s : RingRun}
    (hs : (ringMachine hash).ReachableMeeting (RingRun.StepOk hash) s) :
    s.Kept hash ∧
      (∀ a, s.StepOk hash a → ∀ id, (s.step hash a).ring.freed id = true ↔
        s.ring.freed id = true ∨ 0 < s.ring.refs id ∧ (s.step hash a).ring.refs id = 0) ∧
      (∀ name, s.StepOk hash (.remove name (-1)) → ∀ o ∈ (s.step hash (.remove name (-1))).ring.holders, o.1 ≠ name) ∧
      ∀ t, (ringMachine hash).ReachableMeeting (RingRun.StepOk hash) t → (∀ x, x ∈ s.live ↔ x ∈ t.live) →
        ∀ key, (s.ring.route key).map Prod.fst = (t.ring.route key).map Prod.fst := by
  have h := ringMachine_inv hs
  exact ⟨h.kept, fun a ok => (h.step ok).2, fun name ok o ho => h.removed ok ho, fun t ht hlive key =>
    h.route_congr (ringMachine_inv ht) hlive key⟩

/-- A hash that looks at the number of the virtual node alone. -/
def numberHash (_ : NodeName) (i : Nat) : UInt32 := UInt32.ofNat i

theorem ringMachine_kept_two : ∃ s, (ringMachine numberHash).run {}
    [.add [49] 0, .add [50] 0, .remove [49] 0] = some s ∧ s.owner 0 = some [50] := by
  refine ⟨_, rfl, ?_⟩
  have hmeets : (ringMachine numberHash).RunMeets (RingRun.StepOk numberHash) {}
      [.add [49] 0, .add [50] 0, .remove [49] 0] := by decide
  refine ((ringMachine_kept ⟨{}, _, ⟨rfl, rfl⟩, hmeets, rfl⟩).1.owner 0 [50]).mpr ⟨⟨0, ?_, rfl⟩, ?_⟩
  · decide
  · rintro other ⟨i, hi, -⟩
    obtain ⟨rfl, -⟩ := Prod.mk.inj (List.mem_singleton.mp (show (other, i) ∈ [(([50] : NodeName), 0)] from hi))
    decide

/-- Two servers at one point, and the one that waits is removed: it has the point then, and the other one is nowhere. -/
theorem ringMachine_stays : ∃ s, (ringMachine numberHash).run {} [.add [49] 0, .add [50] 0, .remove [50] 0] = some s ∧
    s.live = [([49], 0)] ∧ s.owner 0 = some [50] ∧ s.ring.waiting 0 = [] :=
  ⟨_, rfl, by decide, by decide, by decide⟩

end Dtc
