import DtcServer.NodeGroup
import DtcServer.Rings
import Mathlib.Data.Finset.Card
/-!
# NodeAlloc — which nodes are free

In a group the nodes below `ng_free` are allocated, but for those on the chain of released nodes. The groups behind the
reserved one are in the list their state asks for.
-/
namespace Dtc

open Rings

namespace NodeGroup

def Deleted (g : NodeGroup) : Nat → List Nat → Prop
  | _, [] => True
  | top, x :: xs => top = x ∧ g.Deleted (g.vdHandle x % 2 ^ 8) xs

/-- The nodes of the group in use, and those on the chain. -/
structure Frees (g : NodeGroup) (used : Nat → Prop) (dele : List Nat) : Prop where
  count : g.deleCount = dele.length
  chain : g.Deleted g.deleTop dele
  nodup : dele.Nodup
  below : ∀ i ∈ dele, i < g.free
  free_le : g.free ≤ includeNodes
  used : ∀ i, used i ↔ i < g.free ∧ i ∉ dele

variable {g g' : NodeGroup} {used : Nat → Prop} {dele : List Nat}

theorem Deleted.congr : ∀ {dele : List Nat} {top : Nat}, (∀ x ∈ dele, g'.vdHandle x = g.vdHandle x) →
    g.Deleted top dele → g'.Deleted top dele
  | [], _, _, _ => trivial
  | x :: xs, _, heq, h => by
    refine ⟨h.1, ?_⟩
    rw [heq x List.mem_cons_self]
    exact Deleted.congr (fun y hy => heq y (List.mem_cons_of_mem x hy)) h.2

theorem Frees.congr (h : g.Frees used dele)
    (hsame : g'.deleTop = g.deleTop ∧ g'.deleCount = g.deleCount ∧ g'.free = g.free)
    (hhandle : ∀ i, ¬ used i → g'.vdHandle i = g.vdHandle i) : g'.Frees used dele := by
  obtain ⟨htop, hcount, hfree⟩ := hsame
  refine ⟨hcount.trans h.count, ?_, h.nodup, ?_, ?_, ?_⟩
  · rw [htop]
    exact h.chain.congr (fun x hx => hhandle x (fun hu => ((h.used x).mp hu).2 hx))
  · rw [hfree]
    exact h.below
  · rw [hfree]
    exact h.free_le
  · rw [hfree]
    exact h.used

theorem Frees.lt (h : g.Frees used dele) {i : Nat} (hi : used i) : i < includeNodes :=
  Nat.lt_of_lt_of_le ((h.used i).mp hi).1 h.free_le

theorem Frees.isFull_iff (h : g.Frees used dele) : g.isFull = true ↔ ∀ i < includeNodes, used i := by
  have hfull : g.isFull = true ↔ g.deleCount = 0 ∧ includeNodes ≤ g.free := by
    unfold isFull
    rw [Bool.and_eq_true, decide_eq_true_iff, decide_eq_true_iff]
  rw [hfull, h.count, List.length_eq_zero_iff]
  constructor
  · rintro ⟨rfl, hfree⟩ i hi
    exact (h.used i).mpr ⟨Nat.lt_of_lt_of_le hi hfree, List.not_mem_nil⟩
  · intro hall
    have hnil : dele = [] := by
      refine List.eq_nil_iff_forall_not_mem.mpr (fun i hi => ?_)
      have hlt := Nat.lt_of_lt_of_le (h.below i hi) h.free_le
      exact ((h.used i).mp (hall i hlt)).2 hi
    refine ⟨hnil, Nat.not_lt.mp (fun hlt => ?_)⟩
    exact Nat.lt_irrefl _ ((h.used g.free).mp (hall g.free hlt)).1

theorem Frees.allocateNode (h : g.Frees used dele) (hroom : g.isFull = false) :
    ∃ i g' dele', g.allocateNode = some (i, g') ∧ ¬ used i ∧ i < includeNodes ∧
      g'.Frees (fun j => j = i ∨ used j) dele' ∧ g'.nid = g.nid := by
  unfold NodeGroup.allocateNode
  rw [if_neg (by rw [hroom]; exact Bool.false_ne_true)]
  cases dele with
  | nil =>
    have hcount : ¬ 0 < g.deleCount := by rw [h.count]; exact Nat.lt_irrefl 0
    have hlt : g.free < includeNodes := by
      by_contra hge
      refine Bool.false_ne_true (hroom.symm.trans ?_)
      unfold isFull
      rw [decide_eq_true (Nat.eq_zero_of_not_pos hcount), decide_eq_true (Nat.not_lt.mp hge)]
      rfl
    rw [if_neg hcount]
    refine ⟨_, _, [], rfl, fun hu => Nat.lt_irrefl _ ((h.used _).mp hu).1, hlt, ?_, rfl⟩
    refine ⟨h.count, trivial, List.nodup_nil, fun i hi => absurd hi List.not_mem_nil, hlt, fun i => ?_⟩
    have hfree : ({ g.reset g.free with free := g.free + 1 } : NodeGroup).free = g.free + 1 := rfl
    rw [h.used, hfree, Nat.lt_succ_iff_lt_or_eq]
    simp only [List.not_mem_nil, not_false_eq_true, and_true]
    exact or_comm
  | cons x xs =>
    have hcount : g.deleCount = xs.length + 1 := h.count
    obtain ⟨htop, hchain⟩ := h.chain
    obtain ⟨hx, hnodup⟩ := List.nodup_cons.mp h.nodup
    rw [if_pos (by omega), htop]
    have hbelow := h.below x List.mem_cons_self
    refine ⟨x, _, xs, rfl, fun hu => ((h.used x).mp hu).2 List.mem_cons_self, Nat.lt_of_lt_of_le hbelow h.free_le, ?_, rfl⟩
    refine ⟨?_, ?_, hnodup, fun i hi => h.below i (List.mem_cons_of_mem x hi), h.free_le, fun i => ?_⟩
    · dsimp only
      omega
    · refine Deleted.congr (g := g) (fun _ _ => rfl) ?_
      exact hchain
    · rw [h.used, List.mem_cons]
      by_cases hi : i = x
      · subst hi
        exact iff_of_true (.inl rfl) ⟨hbelow, hx⟩
      · simp only [hi, false_or]
        rfl

theorem Frees.releaseNode (h : g.Frees used dele) {i : Nat} (hi : used i) :
    (g.releaseNode i).Frees (fun j => used j ∧ j ≠ i) (i :: dele) := by
  obtain ⟨hfree, hnot⟩ := (h.used i).mp hi
  refine ⟨congrArg (· + 1) h.count, ⟨rfl, ?_⟩, List.nodup_cons.mpr ⟨hnot, h.nodup⟩, ?_, h.free_le, fun j => ?_⟩
  · have hhandle : (g.releaseNode i).vdHandle = Function.update g.vdHandle i g.deleTop := rfl
    rw [hhandle, Function.update_self]
    have htop : dele = [] ∨ g.deleTop % 2 ^ 8 = g.deleTop := by
      cases dele with
      | nil => exact .inl rfl
      | cons x xs =>
        have hx := h.below x List.mem_cons_self
        have hle : g.free ≤ 2 ^ 8 := h.free_le
        rw [h.chain.1]
        exact .inr (Nat.mod_eq_of_lt (Nat.lt_of_lt_of_le hx hle))
    rcases htop with rfl | htop
    · trivial
    · rw [htop]
      refine h.chain.congr (fun x hx => ?_)
      have hne : x ≠ i := fun he => hnot (he ▸ hx)
      rw [hhandle, Function.update_of_ne hne]
  · intro j hj
    rcases List.mem_cons.mp hj with rfl | hj
    · exact hfree
    · exact h.below j hj
  · rw [h.used, List.mem_cons, not_or, and_assoc, and_comm (a := j ∉ dele)]
    rfl

end NodeGroup

inductive NgList
  | free
  | full
  deriving DecidableEq, Repr

def NgList.head : NgList → NgLink
  | .free => .freeHead
  | .full => .fullHead

namespace NgInfo

def InLists (s : NgInfo) (lists : NgList → List Nat) : Prop :=
  Family s.next s.prev NgList.head (fun l => (lists l).map NgLink.group)

/-- **The free and the full groups** behind the reserved one. -/
structure Listed (s : NgInfo) (lists : NgList → List Nat) : Prop where
  family : s.InLists lists
  all : ∀ k, (∃ l, k ∈ lists l) ↔ 1 ≤ k ∧ k < s.usedNg
  state : ∀ l, ∀ k ∈ lists l, (s.groups k).isFull = decide (l = .full)

/-- **The groups with the nodes in use**; the reserved group has the three heads. -/
structure Inv (s : NgInfo) (live : Finset CNode) : Prop where
  small : s.memSize ≤ 2 ^ 36
  memory : s.usedNg * NodeGroup.size ≤ s.memSize
  step : 1 ≤ s.step
  ng : 1 ≤ s.usedNg
  minId : s.minId = 256 * s.usedNg
  nid : ∀ k < s.usedNg, (s.groups k).nid = 256 * k
  reserved : (s.groups 0).Frees (· < 3) []
  frees : ∀ k, 1 ≤ k → k < s.usedNg → ∃ dele, (s.groups k).Frees (fun i => ⟨k, i⟩ ∈ live) dele
  owner : ∀ n ∈ live, 1 ≤ n.owner ∧ n.owner < s.usedNg
  lists : ∃ lists, s.Listed lists
  count : s.usedNode = live.card

variable {s : NgInfo} {live : Finset CNode} {lists : NgList → List Nat} {k : Nat}

theorem Inv.usedNg_lt (h : Inv s live) : s.usedNg < 2 ^ 24 - 1 := by
  have hmem := Nat.le_trans h.memory h.small
  unfold NodeGroup.size at hmem
  omega

theorem Inv.index_lt (h : Inv s live) {n : CNode} (hn : n ∈ live) : n.index < 256 := by
  obtain ⟨dele, hfrees⟩ := h.frees n.owner (h.owner n hn).1 (h.owner n hn).2
  exact hfrees.lt hn

/-! ## Lists -/

theorem InLists.add (h : s.InLists lists) (hk : ∀ l, k ∉ lists l) (l : NgList) :
    (s.listAdd k l.head).InLists (Function.update lists l (k :: lists l)) := by
  have hout : ¬ Family.Has NgList.head (fun l => (lists l).map NgLink.group) (.group k) := by
    rintro ⟨l', hm⟩
    rcases List.mem_cons.mp hm with he | hm
    · cases l' <;> cases he
    · obtain ⟨k', hk', he⟩ := List.mem_map.mp hm
      exact hk l' (NgLink.group.inj he ▸ hk')
  have hlink := Family.link h l hout
  have hmembers : Function.update (fun l => (lists l).map NgLink.group) l (.group k :: (lists l).map NgLink.group) =
      fun l' => (Function.update lists l (k :: lists l) l').map NgLink.group := by
    funext l'
    by_cases hl : l' = l
    · rw [hl, Function.update_self, Function.update_self, List.map_cons]
    · rw [Function.update_of_ne hl, Function.update_of_ne hl]
  rw [hmembers] at hlink
  exact hlink

theorem InLists.del (h : s.InLists lists) {l : NgList} (hk : k ∈ lists l) :
    (s.listDel k).InLists (Function.update lists l ((lists l).erase k)) := by
  have hunlink := Family.unlink h (List.mem_map_of_mem (f := NgLink.group) hk) .invalid .invalid
  have hmembers : Function.update (fun l => (lists l).map NgLink.group) l (((lists l).map NgLink.group).erase (.group k)) =
      fun l' => (Function.update lists l ((lists l).erase k) l').map NgLink.group := by
    funext l'
    by_cases hl : l' = l
    · rw [hl, Function.update_self, Function.update_self]
      exact (List.map_erase (fun _ _ he => NgLink.group.inj he) (lists l)).symm
    · rw [Function.update_of_ne hl, Function.update_of_ne hl]
  rw [hmembers] at hunlink
  exact hunlink

theorem InLists.nodup (h : s.InLists lists) (l : NgList) : (lists l).Nodup :=
  (List.nodup_cons.mp (Family.nodup h l)).2.of_map _

theorem InLists.unique (h : s.InLists lists) {l l' : NgList} (hl : k ∈ lists l) (hl' : k ∈ lists l') : l = l' :=
  Family.disjoint h l l' (.group k) (List.mem_cons_of_mem _ (List.mem_map_of_mem hl))
    (List.mem_cons_of_mem _ (List.mem_map_of_mem hl'))

theorem InLists.move (h : s.InLists lists) {l : NgList} (hk : k ∈ lists l) (l' : NgList) :
    ∃ lists', ((s.listDel k).listAdd k l'.head).InLists lists' ∧ (∀ m, m ∈ lists' l' ↔ m = k ∨ m ∈ lists l') ∧
      ∀ l₁, l₁ ≠ l' → ∀ m, m ∈ lists' l₁ ↔ m ∈ lists l₁ ∧ m ≠ k := by
  have hdel := h.del hk
  have hmem : ∀ l₁ m, m ∈ Function.update lists l ((lists l).erase k) l₁ ↔ m ∈ lists l₁ ∧ m ≠ k := by
    intro l₁ m
    by_cases hl : l₁ = l
    · rw [hl, Function.update_self, (h.nodup l).mem_erase_iff, and_comm]
    · rw [Function.update_of_ne hl]
      exact ⟨fun hm => ⟨hm, fun he => hl (h.unique hm (he ▸ hk))⟩, And.left⟩
  refine ⟨_, hdel.add (fun l₁ hm => ((hmem l₁ k).mp hm).2 rfl) l', fun m => ?_, fun l₁ hl₁ m => ?_⟩
  · rw [Function.update_self, List.mem_cons, hmem]
    by_cases hm : m = k
    · exact iff_of_true (.inl hm) (.inl hm)
    · simp [hm]
  · rw [Function.update_of_ne hl₁, hmem]

theorem Listed.findFreeNG (h : s.Listed lists) : s.findFreeNG = (lists .free).head? := by
  have hnext := (Family.ring h.family .free).next_root
  unfold NgInfo.findFreeNG
  change s.next NgLink.freeHead = _ at hnext
  rw [hnext]
  cases lists .free with
  | nil => rfl
  | cons k ks => rfl

/-! ## New groups -/

/-- Groups were added, and nothing else was done to the nodes and the index. -/
structure Grows (s s' : NgInfo) : Prop where
  memSize : s'.memSize = s.memSize
  fiH : s'.fiH = s.fiH
  usedNg : s.usedNg ≤ s'.usedNg
  usedNode : s'.usedNode = s.usedNode

theorem Grows.refl (s : NgInfo) : Grows s s := ⟨rfl, rfl, Nat.le_refl _, rfl⟩

theorem Grows.trans {s s' s'' : NgInfo} (h : Grows s s') (h' : Grows s' s'') : Grows s s'' :=
  ⟨h'.memSize.trans h.memSize, h'.fiH.trans h.fiH, Nat.le_trans h.usedNg h'.usedNg, h'.usedNode.trans h.usedNode⟩

theorem allocateNG_eq {got : Bool} {s' : NgInfo} (hs : s.allocateNG got = some s') :
    (s.usedNg + 1) * NodeGroup.size ≤ s.memSize ∧
      s' = { s.setGroup s.usedNg (NodeGroup.init s.minId) with
        minId := (s.minId + NodeGroup.includeNodes) % 2 ^ 32
        usedNg := s.usedNg + 1 } := by
  unfold NgInfo.allocateNG at hs
  split at hs
  · next hroom => exact ⟨hroom.2, (Option.some.inj hs).symm⟩
  · cases hs

theorem frees_init (id : Nat) : (NodeGroup.init id).Frees (fun _ => False) [] :=
  ⟨rfl, trivial, List.nodup_nil, fun _ hi => absurd hi List.not_mem_nil, Nat.zero_le _,
    fun _ => iff_of_false not_false (fun h => absurd h.1 (Nat.not_lt_zero _))⟩

theorem Inv.allocateNG (h : Inv s live) {got : Bool} {s' : NgInfo} (hs : s.allocateNG got = some s') :
    Inv (s'.freeListAdd s.usedNg) live ∧ Grows s (s'.freeListAdd s.usedNg) ∧
      (s'.freeListAdd s.usedNg).findFreeNG = some s.usedNg := by
  obtain ⟨hroom, rfl⟩ := allocateNG_eq hs
  obtain ⟨lists, hlisted⟩ := h.lists
  have hlt := h.usedNg_lt
  have hnew : ∀ l, s.usedNg ∉ lists l := fun l hm => Nat.lt_irrefl _ ((hlisted.all _).mp ⟨l, hm⟩).2
  generalize hs₁ : ({ s.setGroup s.usedNg (NodeGroup.init s.minId) with
    minId := (s.minId + NodeGroup.includeNodes) % 2 ^ 32
    usedNg := s.usedNg + 1 } : NgInfo) = s₁
  have hgroup : ∀ k < s.usedNg, s₁.groups k = s.groups k := by
    intro k hk
    rw [← hs₁]
    exact Function.update_of_ne (Nat.ne_of_lt hk) _ _
  have hlast : s₁.groups s.usedNg = NodeGroup.init s.minId := by
    rw [← hs₁]
    exact Function.update_self _ _ _
  have hng : s₁.usedNg = s.usedNg + 1 := by rw [← hs₁]
  have hin : s₁.InLists lists := by
    rw [← hs₁]
    exact hlisted.family
  have hlisted' : (s₁.freeListAdd s.usedNg).Listed (Function.update lists .free (s.usedNg :: lists .free)) := by
    refine ⟨hin.add hnew .free, fun k => ?_, fun l k hk => ?_⟩
    · change _ ↔ 1 ≤ k ∧ k < s₁.usedNg
      rw [hng, Nat.lt_succ_iff_lt_or_eq]
      have hng := h.ng
      constructor
      · rintro ⟨l, hm⟩
        by_cases hl : l = .free
        · rw [hl, Function.update_self, List.mem_cons] at hm
          rcases hm with rfl | hm
          · exact ⟨hng, .inr rfl⟩
          · have := (hlisted.all k).mp ⟨_, hm⟩
            exact ⟨this.1, .inl this.2⟩
        · rw [Function.update_of_ne hl] at hm
          have := (hlisted.all k).mp ⟨_, hm⟩
          exact ⟨this.1, .inl this.2⟩
      · rintro ⟨hk, hlt | rfl⟩
        · obtain ⟨l, hm⟩ := (hlisted.all k).mpr ⟨hk, hlt⟩
          refine ⟨l, ?_⟩
          by_cases hl : l = .free
          · rw [hl, Function.update_self]
            exact List.mem_cons_of_mem _ (hl ▸ hm)
          · rwa [Function.update_of_ne hl]
        · exact ⟨.free, by rw [Function.update_self]; exact List.mem_cons_self⟩
    · change (s₁.groups k).isFull = _
      by_cases hl : l = .free
      · subst hl
        rw [Function.update_self, List.mem_cons] at hk
        rcases hk with rfl | hk
        · rw [hlast]
          rfl
        · rw [hgroup k ((hlisted.all k).mp ⟨_, hk⟩).2]
          exact hlisted.state _ k hk
      · rw [Function.update_of_ne hl] at hk
        rw [hgroup k ((hlisted.all k).mp ⟨_, hk⟩).2]
        exact hlisted.state _ k hk
  refine ⟨⟨?_, ?_, ?_, ?_, ?_, fun k hk => ?_, ?_, fun k hk1 hk => ?_, fun n hn => ?_, ⟨_, hlisted'⟩, ?_⟩, ⟨?_, ?_, ?_, ?_⟩, ?_⟩
  · rw [← hs₁]
    exact h.small
  · rw [← hs₁]
    exact hroom
  · rw [← hs₁]
    exact h.step
  · rw [← hs₁]
    exact Nat.le_add_left 1 _
  · rw [← hs₁]
    change (s.minId + 256) % 2 ^ 32 = 256 * (s.usedNg + 1)
    rw [h.minId]
    omega
  · change k < s₁.usedNg at hk
    rw [hng, Nat.lt_succ_iff_lt_or_eq] at hk
    change (s₁.groups k).nid = _
    rcases hk with hk | rfl
    · rw [hgroup k hk]
      exact h.nid k hk
    · rw [hlast]
      exact h.minId
  · change (s₁.groups 0).Frees _ _
    rw [hgroup 0 h.ng]
    exact h.reserved
  · change k < s₁.usedNg at hk
    rw [hng, Nat.lt_succ_iff_lt_or_eq] at hk
    change ∃ dele, (s₁.groups k).Frees _ dele
    rcases hk with hk | rfl
    · rw [hgroup k hk]
      exact h.frees k hk1 hk
    · rw [hlast]
      refine ⟨[], (frees_init s.minId).count, trivial, List.nodup_nil, (frees_init s.minId).below, Nat.zero_le _, fun i => ?_⟩
      refine iff_of_false (fun hm => Nat.lt_irrefl _ (h.owner _ hm).2) (fun hf => absurd hf.1 (Nat.not_lt_zero _))
  · have := h.owner n hn
    change 1 ≤ n.owner ∧ n.owner < s₁.usedNg
    rw [hng]
    exact ⟨this.1, Nat.lt_succ_of_lt this.2⟩
  · rw [← hs₁]
    exact h.count
  · rw [← hs₁]
    rfl
  · rw [← hs₁]
    rfl
  · change s.usedNg ≤ s₁.usedNg
    rw [hng]
    exact Nat.le_succ _
  · rw [← hs₁]
    rfl
  · rw [hlisted'.findFreeNG, Function.update_self]
    rfl

theorem Inv.setStep (h : Inv s live) {step : Nat} (hstep : 1 ≤ step) (fail : Bool) :
    Inv { s with fail := fail, step := step } live :=
  ⟨h.small, h.memory, hstep, h.ng, h.minId, h.nid, h.reserved, h.frees, h.owner, h.lists.imp fun _ hl => ⟨hl.1, hl.2, hl.3⟩,
    h.count⟩

theorem Inv.preAllocate (group : Nat → Bool) : ∀ (n i : Nat) {s : NgInfo}, Inv s live → 0 < i + n →
    (0 < i → s.findFreeNG.isSome) →
    (NgInfo.preAllocate group n i s = none ∧ i = 0 ∧ s.allocateNG (group 0) = none) ∨
      ∃ s', NgInfo.preAllocate group n i s = some s' ∧ Inv s' live ∧ Grows s s' ∧ s'.findFreeNG.isSome
  | 0, i, s, h, hi, hfree => .inr ⟨s, rfl, h, Grows.refl s, hfree hi⟩
  | n + 1, i, s, h, _, hfree => by
    rw [NgInfo.preAllocate]
    rcases halloc : s.allocateNG (group i) with _ | s'
    · by_cases hi : i = 0
      · subst hi
        exact .inl ⟨rfl, rfl, halloc⟩
      · dsimp only
        rw [if_neg hi]
        exact .inr ⟨_, rfl, h.setStep (Nat.le_refl 1) true, ⟨rfl, rfl, Nat.le_refl _, rfl⟩, hfree (Nat.pos_of_ne_zero hi)⟩
    · obtain ⟨hinv, hgrows, hfound⟩ := h.allocateNG halloc
      have hsome : (s'.freeListAdd s.usedNg).findFreeNG.isSome := by rw [hfound]; rfl
      rcases Inv.preAllocate group n (i + 1) hinv (by omega) (fun _ => hsome) with ⟨-, hi, -⟩ | ⟨s₂, heq, hinv₂, hgrows₂, hsome₂⟩
      · exact absurd hi (Nat.succ_ne_zero i)
      · exact .inr ⟨s₂, heq, hinv₂, hgrows.trans hgrows₂, hsome₂⟩

theorem Inv.withFreeNG (h : Inv s live) (a : Answers) :
    (s.withFreeNG a = none ∧ s.findFreeNG = none ∧ s.allocateNG (a.group 0) = none) ∨
      ∃ s' k, s.withFreeNG a = some s' ∧ Inv s' live ∧ Grows s s' ∧ s'.findFreeNG = some k := by
  unfold NgInfo.withFreeNG
  rcases hfind : s.findFreeNG with _ | k
  · have hstep := h.step
    rcases h.preAllocate a.group s.step 0 (by omega) (fun hi => absurd hi (Nat.lt_irrefl 0)) with
      ⟨hnone, -, halloc⟩ | ⟨s', heq, hinv, hgrows, hsome⟩
    · rw [hnone]
      exact .inl ⟨rfl, rfl, halloc⟩
    · obtain ⟨k, hk⟩ := Option.isSome_iff_exists.mp hsome
      rw [heq]
      refine .inr ⟨_, k, rfl, ?_, ?_, ?_⟩
      · split
        · exact hinv.setStep (Nat.le_trans hinv.step (Nat.le_mul_of_pos_right _ (by decide))) s'.fail
        · exact hinv
      · split
        · exact hgrows.trans ⟨rfl, rfl, Nat.le_refl _, rfl⟩
        · exact hgrows
      · split
        · exact hk
        · exact hk
  · exact .inr ⟨s, k, rfl, h, Grows.refl s, hfind⟩

/-! ## A node is allocated or released -/

theorem card_le_of_range {u : Nat} {nodes : Finset CNode}
    (h : ∀ n ∈ nodes, 1 ≤ n.owner ∧ n.owner < u ∧ n.index < 256) : nodes.card ≤ 256 * (u - 1) := by
  have hinj : Set.InjOn (fun n : CNode => 256 * (n.owner - 1) + n.index) nodes := by
    rintro ⟨no, ni⟩ hn ⟨mo, mi⟩ hm heq
    obtain ⟨hn1, -, hni⟩ := h _ hn
    obtain ⟨hm1, -, hmi⟩ := h _ hm
    dsimp only at hn1 hm1 hni hmi heq
    have howner : no = mo := by omega
    have hindex : ni = mi := by omega
    rw [howner, hindex]
  have hmaps : ∀ n ∈ nodes, 256 * (n.owner - 1) + n.index ∈ Finset.range (256 * (u - 1)) := by
    intro n hn
    obtain ⟨hn1, hlt, hi⟩ := h n hn
    rw [Finset.mem_range]
    omega
  have hcard := Finset.card_le_card_of_injOn _ hmaps hinj
  rwa [Finset.card_range] at hcard

theorem Inv.card_le (h : Inv s live) : live.card ≤ 256 * (s.usedNg - 1) :=
  card_le_of_range fun n hn => ⟨(h.owner n hn).1, (h.owner n hn).2, h.index_lt hn⟩

theorem Listed.keep (h : s.Listed lists) {g : NodeGroup} (hsame : g.isFull = (s.groups k).isFull) :
    (s.setGroup k g).Listed lists := by
  refine ⟨h.family, h.all, fun l m hm => ?_⟩
  change (Function.update s.groups k g m).isFull = _
  by_cases hmk : m = k
  · rw [hmk, Function.update_self, hsame, ← hmk]
    exact h.state l m hm
  · rw [Function.update_of_ne hmk]
    exact h.state l m hm

theorem Listed.move (h : s.Listed lists) (hk : 1 ≤ k ∧ k < s.usedNg) {g : NodeGroup} (l : NgList)
    (hfull : g.isFull = decide (l = .full)) (hne : (s.groups k).isFull ≠ g.isFull) :
    ∃ lists', (((s.setGroup k g).listDel k).listAdd k l.head).Listed lists' := by
  obtain ⟨l₀, hmem⟩ := (h.all k).mpr hk
  obtain ⟨lists', hin, hl, hother⟩ := InLists.move h.family hmem l
  have hl₀ : l₀ ≠ l := by
    rintro rfl
    exact hne ((h.state l₀ k hmem).trans hfull.symm)
  refine ⟨lists', hin, fun m => ?_, fun l₁ m hm => ?_⟩
  · rw [show ((((s.setGroup k g).listDel k).listAdd k l.head).usedNg) = s.usedNg from rfl, ← h.all]
    constructor
    · rintro ⟨l₁, hm⟩
      by_cases hl₁ : l₁ = l
      · subst hl₁
        rcases (hl m).mp hm with rfl | hm
        · exact ⟨l₀, hmem⟩
        · exact ⟨l₁, hm⟩
      · exact ⟨l₁, ((hother l₁ hl₁ m).mp hm).1⟩
    · rintro ⟨l₁, hm⟩
      by_cases hmk : m = k
      · exact ⟨l, (hl m).mpr (.inl hmk)⟩
      · by_cases hl₁ : l₁ = l
        · subst hl₁
          exact ⟨l₁, (hl m).mpr (.inr hm)⟩
        · exact ⟨l₁, (hother l₁ hl₁ m).mpr ⟨hm, hmk⟩⟩
  · change (Function.update s.groups k g m).isFull = _
    by_cases hmk : m = k
    · have hl₁ : l₁ = l := by
        by_contra hl₁
        exact ((hother l₁ hl₁ m).mp hm).2 hmk
      rw [hmk, Function.update_self, hl₁]
      exact hfull
    · rw [Function.update_of_ne hmk]
      refine h.state l₁ m ?_
      by_cases hl₁ : l₁ = l
      · subst hl₁
        exact ((hl m).mp hm).resolve_left hmk
      · exact ((hother l₁ hl₁ m).mp hm).1

theorem Inv.change (h : Inv s live) (hk : 1 ≤ k) {g : NodeGroup} {dele : List Nat} (hnid : g.nid = (s.groups k).nid)
    {live' : Finset CNode} (hfrees : g.Frees (fun i => ⟨k, i⟩ ∈ live') dele) (hlt : k < s.usedNg)
    (hother : ∀ n : CNode, n.owner ≠ k → (n ∈ live' ↔ n ∈ live)) {t : NgInfo}
    (ht : t.memSize = s.memSize ∧ t.step = s.step ∧ t.usedNg = s.usedNg ∧ t.minId = s.minId ∧
      t.groups = Function.update s.groups k g) (hlists : ∃ lists, t.Listed lists) (hcount : t.usedNode = live'.card) :
    Inv t live' := by
  obtain ⟨hmem, hstep, hng, hmin, hgroups⟩ := ht
  refine ⟨?_, ?_, ?_, ?_, ?_, fun m hm => ?_, ?_, fun m hm1 hm => ?_, fun n hn => ?_, hlists, hcount⟩
  · rw [hmem]
    exact h.small
  · rw [hmem, hng]
    exact h.memory
  · rw [hstep]
    exact h.step
  · rw [hng]
    exact h.ng
  · rw [hmin, hng]
    exact h.minId
  · rw [hng] at hm
    rw [hgroups]
    by_cases hmk : m = k
    · rw [hmk, Function.update_self, hnid]
      exact h.nid k hlt
    · rw [Function.update_of_ne hmk]
      exact h.nid m hm
  · rw [hgroups, Function.update_of_ne (by omega)]
    exact h.reserved
  · rw [hng] at hm
    rw [hgroups]
    by_cases hmk : m = k
    · rw [hmk, Function.update_self]
      exact ⟨dele, hfrees⟩
    · rw [Function.update_of_ne hmk]
      obtain ⟨dele', hfrees'⟩ := h.frees m hm1 hm
      have hsame : (fun i => (⟨m, i⟩ : CNode) ∈ live') = fun i => ⟨m, i⟩ ∈ live := funext fun i => propext (hother ⟨m, i⟩ hmk)
      rw [hsame]
      exact ⟨dele', hfrees'⟩
  · rw [hng]
    by_cases hnk : n.owner = k
    · rw [hnk]
      exact ⟨hk, hlt⟩
    · exact h.owner n ((hother n hnk).mp hn)

theorem Inv.insert (h : Inv s live) (n : CNode) (got : Bool) : Inv (s.insert n got).1 live := by
  have hput : ∀ fiH, Inv { s with fiH := fiH } live := fun _ =>
    ⟨h.small, h.memory, h.step, h.ng, h.minId, h.nid, h.reserved, h.frees, h.owner,
      h.lists.imp fun _ hl => ⟨hl.1, hl.2, hl.3⟩, h.count⟩
  unfold NgInfo.insert
  dsimp only
  split
  · exact hput _
  · split
    · exact hput _
    · exact h

theorem Inv.allocateFrom (h : Inv s live) (hfind : s.findFreeNG = some k) (got : Bool) :
    ∃ i t, s.allocateFrom k got = ((t.insert ⟨k, i⟩ got).1, some ⟨k, i⟩) ∧ ⟨k, i⟩ ∉ live ∧
      Inv t (Insert.insert ⟨k, i⟩ live) ∧ t.memSize = s.memSize ∧ t.fiH = s.fiH ∧ t.usedNg = s.usedNg := by
  obtain ⟨lists, hlisted⟩ := h.lists
  have hmem : k ∈ lists .free := List.mem_of_head? (hlisted.findFreeNG.symm.trans hfind)
  obtain ⟨hk, hlt⟩ := (hlisted.all k).mp ⟨_, hmem⟩
  have hroom : (s.groups k).isFull = false := hlisted.state _ k hmem
  obtain ⟨dele, hfrees⟩ := h.frees k hk hlt
  obtain ⟨i, g, dele', halloc, hnot, -, hfrees', hnid⟩ := hfrees.allocateNode hroom
  have hused : (fun j => j = i ∨ (⟨k, j⟩ : CNode) ∈ live) = fun j => ⟨k, j⟩ ∈ Insert.insert (⟨k, i⟩ : CNode) live := by
    funext j
    rw [Finset.mem_insert, CNode.mk.injEq, eq_self, true_and]
  rw [hused] at hfrees'
  have hcount : (s.usedNode + 1) % 2 ^ 32 = (Insert.insert (⟨k, i⟩ : CNode) live).card := by
    have hle := h.card_le
    have hng := h.usedNg_lt
    rw [Finset.card_insert_of_notMem hnot, h.count]
    exact Nat.mod_eq_of_lt (by omega)
  have hother : ∀ n : CNode, n.owner ≠ k → (n ∈ Insert.insert (⟨k, i⟩ : CNode) live ↔ n ∈ live) := by
    intro n hn
    rw [Finset.mem_insert]
    exact or_iff_right (fun he => hn (congrArg CNode.owner he))
  unfold NgInfo.allocateFrom
  rw [halloc]
  dsimp only
  split
  · next hfull =>
    obtain ⟨lists', hlisted'⟩ := hlisted.move ⟨hk, hlt⟩ .full (g := g) hfull (by rw [hroom, hfull]; exact Bool.false_ne_true)
    exact ⟨i, _, rfl, hnot, h.change hk hnid hfrees' hlt hother ⟨rfl, rfl, rfl, rfl, rfl⟩
      ⟨lists', hlisted'.1, hlisted'.2, hlisted'.3⟩ hcount, rfl, rfl, rfl⟩
  · next hfull =>
    have hlisted' := hlisted.keep (k := k) (g := g) ((Bool.not_eq_true _ ▸ hfull : g.isFull = false).trans hroom.symm)
    exact ⟨i, _, rfl, hnot, h.change hk hnid hfrees' hlt hother ⟨rfl, rfl, rfl, rfl, rfl⟩
      ⟨lists, hlisted'.1, hlisted'.2, hlisted'.3⟩ hcount, rfl, rfl, rfl⟩

theorem Inv.releaseNode (h : Inv s live) {n : CNode} (hn : n ∈ live) : Inv (s.releaseNode n) (live.erase n) := by
  obtain ⟨hk, hlt⟩ := h.owner n hn
  obtain ⟨lists, hlisted⟩ := h.lists
  obtain ⟨dele, hfrees⟩ := h.frees n.owner hk hlt
  have hfrees' := hfrees.releaseNode hn
  have hused : (fun j => (⟨n.owner, j⟩ : CNode) ∈ live ∧ j ≠ n.index) = fun j => ⟨n.owner, j⟩ ∈ live.erase n := by
    funext j
    rw [Finset.mem_erase, and_comm]
    refine congrArg (· ∧ _) (propext ⟨fun hj he => hj (congrArg CNode.index he), fun hj he => hj ?_⟩)
    rw [he]
  rw [hused] at hfrees'
  have hroom : ((s.groups n.owner).releaseNode n.index).isFull = false := by
    rw [← Bool.not_eq_true, hfrees'.isFull_iff]
    intro hall
    exact (Finset.notMem_erase n live) (hall n.index (h.index_lt hn))
  have hcount : (if s.usedNode = 0 then 2 ^ 32 - 1 else s.usedNode - 1) = (live.erase n).card := by
    have hpos : 0 < live.card := Finset.card_pos.mpr ⟨n, hn⟩
    rw [Finset.card_erase_of_mem hn, h.count, if_neg (Nat.ne_of_gt hpos)]
  have hother : ∀ m : CNode, m.owner ≠ n.owner → (m ∈ live.erase n ↔ m ∈ live) := by
    intro m hm
    rw [Finset.mem_erase]
    exact and_iff_right (fun he => hm (congrArg CNode.owner he))
  generalize hg : (s.groups n.owner).releaseNode n.index = g at hfrees' hroom
  have hnid : g.nid = (s.groups n.owner).nid := by rw [← hg]; rfl
  unfold NgInfo.releaseNode
  dsimp only
  split
  · next hfull =>
    obtain ⟨lists', hlisted'⟩ := hlisted.move ⟨hk, hlt⟩ .free hroom (by rw [hroom, hfull]; exact Bool.noConfusion)
    refine h.change hk hnid hfrees' hlt hother ⟨rfl, rfl, rfl, rfl, ?_⟩ ⟨lists', hlisted'.1, hlisted'.2, ?_⟩ hcount
    · rw [← hg]
      rfl
    · rw [← hg] at hlisted'
      exact hlisted'.3
  · next hfull =>
    have hlisted' := hlisted.keep (hroom.trans (Bool.not_eq_true _ ▸ hfull : (s.groups n.owner).isFull = false).symm)
    refine h.change hk hnid hfrees' hlt hother ⟨rfl, rfl, rfl, rfl, ?_⟩ ⟨lists, hlisted'.1, hlisted'.2, ?_⟩ hcount
    · rw [← hg]
      rfl
    · rw [← hg] at hlisted'
      exact hlisted'.3

end NgInfo

end Dtc
