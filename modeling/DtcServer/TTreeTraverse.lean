import DtcServer.TTree
import Mathlib.Order.Defs.LinearOrder
import Mathlib.Order.Basic
import Mathlib.Order.Fin.Basic
import Mathlib.Data.List.Perm.Basic
/-!
# TTreeTraverse — the traversals of a T-tree (`t_tree`)

Every traversal goes through a node in three steps, its branches and its records, and leaves out what the bounds exclude.
-/
namespace Dtc

/-! ## The traversals -/

/-- A step through a node: a branch that is entered under a test of the node, or the wanted ones of its records, from the
first on or from the last. -/
inductive VisitStep (Record : Type) where
  | left (enter : CTtreeNode Record → Bool)
  | right (enter : CTtreeNode Record → Bool)
  | items (backward : Bool) (loop : CTtreeNode Record → Bool) (want : Record → Bool)

section Traverse

variable {Key Record σ : Type} (visit : Record → σ → Int × σ) (mem : TreeMem Record)

/-- A loop over records: the visitor's first error ends it. -/
def visitItems : List Record → σ → Int × σ
  | [], s => (0, s)
  | r :: rs, s => if (visit r s).1 ≠ 0 then visit r s else visitItems rs (visit r s).2

/-- A step through a node; `go` traverses a branch. -/
def visitStep (go : Nat → σ → Option (Int × σ)) (node : CTtreeNode Record) (s : σ) : VisitStep Record → Option (Int × σ)
  | .left enter => if node.hLeft ≠ invalidHandle ∧ enter node then go node.hLeft s else some (0, s)
  | .right enter => if node.hRight ≠ invalidHandle ∧ enter node then go node.hRight s else some (0, s)
  | .items backward loop want =>
    if loop node then some (visitItems visit ((if backward then node.items.reverse else node.items).filter want) s)
    else some (0, s)

def visitNode (go : Nat → σ → Option (Int × σ)) (node : CTtreeNode Record) : List (VisitStep Record) → σ → Option (Int × σ)
  | [], s => some (0, s)
  | step :: steps, s => do
    let (iRet, s) ← visitStep visit go node s step
    if iRet ≠ 0 then some (iRet, s) else visitNode go node steps s

/-- A traversal of the nodes below a handle; `fuel` bounds the recursion. -/
def CTtreeNode.traverse (steps : List (VisitStep Record)) : Nat → Nat → σ → Option (Int × σ)
  | 0, _, _ => none
  | fuel + 1, h, s => do
    let node ← mem h
    visitNode visit (fun h s => traverse steps fuel h s) node steps s

/-- A traversal of `CTtree`. -/
def CTtree.traverse (steps : List (VisitStep Record)) (fuel hRoot : Nat) (s : σ) : Option (Int × σ) :=
  if hRoot ≠ invalidHandle then CTtreeNode.traverse visit mem steps fuel hRoot s else some (0, s)

end Traverse

section Steps

variable {Key Record : Type}

def traverseForward : List (VisitStep Record) :=
  [.left fun _ => true, .items false (fun _ => true) fun _ => true, .right fun _ => true]

def traverseBackward : List (VisitStep Record) :=
  [.right fun _ => true, .items true (fun _ => true) fun _ => true, .left fun _ => true]

def postOrderTraverse : List (VisitStep Record) :=
  [.right fun _ => true, .left fun _ => true, .items true (fun _ => true) fun _ => true]

variable (o : TreeOrder Key Record) (key key1 : Key)

/-- The test in front of the loops over `[key, key1]`. -/
def rangeLoop (n : CTtreeNode Record) : Bool := !(o.diff key1 n.first < 0 || o.diff key n.last > 0)

def rangeWant (r : Record) : Bool := o.diff key r ≤ 0 && o.diff key1 r ≥ 0

/-- `TraverseForward` of `[key, key1]` -/
def traverseForwardRange : List (VisitStep Record) :=
  [.left fun n => o.diff key n.first < 0, .items false (rangeLoop o key key1) (rangeWant o key key1),
    .right fun n => o.diff key1 n.last ≥ 0]

/-- `TraverseForward` of the records from `key` on -/
def traverseForwardGE : List (VisitStep Record) :=
  [.left fun n => o.diff key n.first < 0, .items false (fun n => o.diff key n.last ≤ 0) fun r => o.diff key r ≤ 0,
    .right fun _ => true]

/-- `TraverseBackward` of `[key, key1]` -/
def traverseBackwardRange : List (VisitStep Record) :=
  [.right fun n => o.diff key1 n.last > 0, .items true (rangeLoop o key key1) (rangeWant o key key1),
    .left fun n => o.diff key n.first ≤ 0]

/-- `TraverseBackward` of the records up to `key` -/
def traverseBackwardLE : List (VisitStep Record) :=
  [.right fun n => o.diff key n.last > 0, .items true (fun n => o.diff key n.first ≥ 0) fun r => o.diff key r ≥ 0,
    .left fun _ => true]

/-- `PostOrderTraverse` of `[key, key1]` -/
def postOrderTraverseRange : List (VisitStep Record) :=
  [.left fun n => o.diff key n.first < 0, .right fun n => o.diff key1 n.last ≥ 0,
    .items false (rangeLoop o key key1) (rangeWant o key key1)]

def postOrderTraverseGE : List (VisitStep Record) :=
  [.left fun n => o.diff key n.first < 0, .right fun _ => true,
    .items false (fun n => o.diff key n.last ≤ 0) fun r => o.diff key r ≤ 0]

def postOrderTraverseLE : List (VisitStep Record) :=
  [.right fun n => o.diff key n.last > 0, .left fun _ => true,
    .items true (fun n => o.diff key n.first ≥ 0) fun r => o.diff key r ≥ 0]

end Steps

/-! ## The tree in memory -/

/-- A T-tree: the records of its nodes. -/
inductive TTree (Record : Type) where
  | null
  | node (left : TTree Record) (items : List Record) (right : TTree Record)

namespace TTree

variable {Key Record : Type}

def Stored (mem : TreeMem Record) : TTree Record → Nat → Prop
  | null, h => h = invalidHandle
  | node left items right, h => h ≠ invalidHandle ∧ ∃ n, mem h = some n ∧ n.items = items ∧
      left.Stored mem n.hLeft ∧ right.Stored mem n.hRight

def records : TTree Record → List Record
  | null => []
  | node left items right => left.records ++ items ++ right.records

def height : TTree Record → Nat
  | null => 0
  | node left _ right => max left.height right.height + 1

def Ordered [LinearOrder Key] (key : Record → Key) (t : TTree Record) : Prop :=
  t.records.Pairwise (fun r r' => key r < key r')

def stepWalk (left items right : List Record) : VisitStep Record → List Record
  | .left _ => left
  | .right _ => right
  | .items backward _ _ => if backward then items.reverse else items

def walk (steps : List (VisitStep Record)) : TTree Record → List Record
  | null => []
  | node left items right => steps.flatMap fun step => stepWalk (left.walk steps) items (right.walk steps) step

end TTree

/-! ## What a traversal visits -/

section Visit

variable {Key Record σ : Type} (visit : Record → σ → Int × σ) {mem : TreeMem Record}

@[simp] theorem visitItems_nil (s : σ) : visitItems visit [] s = (0, s) := rfl

theorem visitItems_append : ∀ (rs rs' : List Record) (s : σ), visitItems visit (rs ++ rs') s =
    if (visitItems visit rs s).1 ≠ 0 then visitItems visit rs s else visitItems visit rs' (visitItems visit rs s).2
  | [], rs', s => by simp
  | r :: rs, rs', s => by
    rw [List.cons_append, visitItems, visitItems]
    by_cases h : (visit r s).1 = 0
    · simp only [h, ne_eq, not_true_eq_false, if_false]
      exact visitItems_append rs rs' (visit r s).2
    · simp only [h, ne_eq, not_false_eq_true, if_true]

/-- What a step visits of a node whose branches give these records. -/
def stepVisits (node : CTtreeNode Record) (left right : List Record) : VisitStep Record → List Record
  | .left enter => if enter node then left else []
  | .right enter => if enter node then right else []
  | .items backward loop want =>
    if loop node then (if backward then node.items.reverse else node.items).filter want else []

theorem visitNode_eq {go : Nat → σ → Option (Int × σ)} {node : CTtreeNode Record} {left right : List Record}
    (hl : ∀ s, (if node.hLeft ≠ invalidHandle then go node.hLeft s else some (0, s)) = some (visitItems visit left s))
    (hr : ∀ s, (if node.hRight ≠ invalidHandle then go node.hRight s else some (0, s)) = some (visitItems visit right s)) :
    ∀ (steps : List (VisitStep Record)) (s : σ), visitNode visit go node steps s =
      some (visitItems visit (steps.flatMap (stepVisits node left right)) s)
  | [], s => rfl
  | step :: steps, s => by
    have hstep : visitStep visit go node s step = some (visitItems visit (stepVisits node left right step) s) := by
      cases step with
      | left enter =>
        cases he : enter node with
        | false => simp [visitStep, stepVisits, he]
        | true => simpa [visitStep, stepVisits, he] using hl s
      | right enter =>
        cases he : enter node with
        | false => simp [visitStep, stepVisits, he]
        | true => simpa [visitStep, stepVisits, he] using hr s
      | items backward loop want =>
        cases he : loop node with
        | false => simp [visitStep, stepVisits, he]
        | true => simp [visitStep, stepVisits, he]
    rw [visitNode, hstep, List.flatMap_cons, visitItems_append]
    dsimp only [bind, Option.bind]
    split
    · rfl
    · exact visitNode_eq hl hr steps _

end Visit

/-! ## The tests of the nodes leave out nothing -/

section Sound

variable {Key Record : Type} [LinearOrder Key] (key : Record → Key) (want : Record → Bool)

def VisitStep.Sound : VisitStep Record → Prop
  | .left enter => ∀ n, enter n = false → ∀ r, key r < key n.first → want r = false
  | .right enter => ∀ n, enter n = false → ∀ r, key n.last < key r → want r = false
  | .items _ loop want' => want' = want ∧
      ∀ n, loop n = false → ∀ r, key n.first ≤ key r → key r ≤ key n.last → want r = false

variable {key want}

theorem TTree.ordered_node {left right : TTree Record} {items : List Record} :
    (TTree.node left items right).Ordered key ↔ left.Ordered key ∧ right.Ordered key ∧
      items.Pairwise (fun r r' => key r < key r') ∧ (∀ r ∈ left.records, ∀ r' ∈ items, key r < key r') ∧
      (∀ r ∈ items, ∀ r' ∈ right.records, key r < key r') ∧ ∀ r ∈ left.records, ∀ r' ∈ right.records, key r < key r' := by
  simp only [TTree.Ordered, TTree.records, List.pairwise_append, List.mem_append]
  constructor
  · rintro ⟨⟨hl, hi, hli⟩, hr, hx⟩
    exact ⟨hl, hr, hi, hli, fun r h => hx r (Or.inr h), fun r h => hx r (Or.inl h)⟩
  · rintro ⟨hl, hr, hi, hli, hir, hlr⟩
    exact ⟨⟨hl, hi, hli⟩, hr, fun r h => h.elim (hlr r) (hir r)⟩

theorem first_le {n : CTtreeNode Record} (h : n.items.Pairwise (fun r r' => key r < key r')) {r : Record}
    (hr : r ∈ n.items) : key n.first ≤ key r := by
  obtain ⟨items, hne⟩ : ∃ items, items = n.items := ⟨_, rfl⟩
  have hfirst : n.first = n.items.head n.nonempty := rfl
  cases items with
  | nil => exact absurd hne.symm n.nonempty
  | cons a as =>
    have hhead : n.first = a := by
      rw [hfirst]
      simp [← hne]
    rw [← hne] at h hr
    rw [hhead]
    rcases List.mem_cons.mp hr with rfl | hr
    · exact le_refl _
    · exact le_of_lt (List.rel_of_pairwise_cons h hr)

theorem le_last {n : CTtreeNode Record} (h : n.items.Pairwise (fun r r' => key r < key r')) {r : Record}
    (hr : r ∈ n.items) : key r ≤ key n.last := by
  have hsplit : n.items = n.items.dropLast ++ [n.last] := (List.dropLast_append_getLast n.nonempty).symm
  rw [hsplit] at h hr
  rcases List.mem_append.mp hr with hr | hr
  · exact le_of_lt ((List.pairwise_append.mp h).2.2 r hr _ (List.mem_singleton_self _))
  · rw [List.mem_singleton.mp hr]

theorem filter_eq_nil_of {rs : List Record} (h : ∀ r ∈ rs, want r = false) : rs.filter want = [] :=
  List.filter_eq_nil_iff.mpr fun r hr => by simp [h r hr]

theorem stepVisits_eq {n : CTtreeNode Record} {left right : List Record} {step : VisitStep Record}
    (hs : step.Sound key want) (hi : n.items.Pairwise (fun r r' => key r < key r'))
    (hl : ∀ r ∈ left, key r < key n.first) (hr : ∀ r ∈ right, key n.last < key r) :
    stepVisits n (left.filter want) (right.filter want) step = (TTree.stepWalk left n.items right step).filter want := by
  cases step with
  | left enter =>
    cases he : enter n with
    | true => simp [stepVisits, TTree.stepWalk, he]
    | false =>
      have hnone : left.filter want = [] := filter_eq_nil_of fun r h => hs n he r (hl r h)
      simp [stepVisits, TTree.stepWalk, he, hnone]
  | right enter =>
    cases he : enter n with
    | true => simp [stepVisits, TTree.stepWalk, he]
    | false =>
      have hnone : right.filter want = [] := filter_eq_nil_of fun r h => hs n he r (hr r h)
      simp [stepVisits, TTree.stepWalk, he, hnone]
  | items backward loop want' =>
    obtain ⟨rfl, hloop⟩ := hs
    cases he : loop n with
    | true => simp [stepVisits, TTree.stepWalk, he]
    | false =>
      have hnone : (if backward then n.items.reverse else n.items).filter want' = [] := by
        apply filter_eq_nil_of
        intro r h
        have hmem : r ∈ n.items := by
          split at h
          · exact List.mem_reverse.mp h
          · exact h
        exact hloop n he r (first_le hi hmem) (le_last hi hmem)
      simp [stepVisits, TTree.stepWalk, he, hnone]

theorem TTree.mem_walk {steps : List (VisitStep Record)} {r : Record} : ∀ {t : TTree Record}, r ∈ t.walk steps → r ∈ t.records
  | .null, h => h
  | .node left items right, h => by
    obtain ⟨step, -, h⟩ := List.mem_flatMap.mp h
    rw [TTree.records, List.mem_append, List.mem_append]
    cases step with
    | left enter => exact Or.inl (Or.inl (mem_walk h))
    | right enter => exact Or.inr (mem_walk h)
    | items backward loop want =>
      refine Or.inl (Or.inr ?_)
      cases backward with
      | false => exact h
      | true => exact List.mem_reverse.mp h

theorem CTtree.traverse_eq {σ : Type} (visit : Record → σ → Int × σ) {mem : TreeMem Record}
    {steps : List (VisitStep Record)} (hs : ∀ step ∈ steps, step.Sound key want) :
    ∀ {t : TTree Record} {h fuel : Nat}, t.Stored mem h → t.Ordered key → t.height ≤ fuel → ∀ s,
      CTtree.traverse visit mem steps fuel h s = some (visitItems visit ((t.walk steps).filter want) s)
  | .null, h, fuel, hst, _, _, s => by
    obtain rfl : h = invalidHandle := hst
    rfl
  | .node left items right, h, 0, _, _, hf, s => absurd hf (Nat.not_succ_le_zero _)
  | .node left items right, h, fuel + 1, hst, ho, hf, s => by
    obtain ⟨hne, n, hn, rfl, hleft, hright⟩ := hst
    obtain ⟨hol, hor, hoi, hli, hir, -⟩ := TTree.ordered_node.mp ho
    have hheight : left.height ≤ fuel ∧ right.height ≤ fuel := by
      have hf' : max left.height right.height + 1 ≤ fuel + 1 := hf
      omega
    have hnode := visitNode_eq visit (fun s => traverse_eq visit hs hleft hol hheight.1 s)
      (fun s => traverse_eq visit hs hright hor hheight.2 s) steps s
    rw [CTtree.traverse, if_pos hne, CTtreeNode.traverse, hn]
    refine hnode.trans ?_
    rw [TTree.walk, List.filter_flatMap]
    congr 2
    apply List.flatMap_congr
    intro step hstep
    apply stepVisits_eq (hs step hstep) hoi
    · exact fun r hr => hli r (TTree.mem_walk hr) _ (List.head_mem _)
    · exact fun r hr => hir _ (List.getLast_mem _) r (TTree.mem_walk hr)

theorem CTtree.traverse_three {σ : Type} (visit : Record → σ → Int × σ) {mem : TreeMem Record} {t : TTree Record}
    {h fuel : Nat} (hst : t.Stored mem h) (ho : t.Ordered key) (hf : t.height ≤ fuel) {a b d : VisitStep Record}
    (ha : a.Sound key want) (hb : b.Sound key want) (hd : d.Sound key want) (s : σ) :
    CTtree.traverse visit mem [a, b, d] fuel h s = some (visitItems visit ((t.walk [a, b, d]).filter want) s) :=
  traverse_eq visit (by simpa using ⟨ha, hb, hd⟩) hst ho hf s

theorem VisitStep.sound_left : (VisitStep.left fun _ => true).Sound key want := fun _ he => absurd he (by simp)

theorem VisitStep.sound_right : (VisitStep.right fun _ => true).Sound key want := fun _ he => absurd he (by simp)

theorem VisitStep.sound_items (backward : Bool) :
    (VisitStep.items backward (fun _ => true) fun _ => true).Sound key fun _ => true :=
  ⟨rfl, fun _ he => absurd he (by simp)⟩

end Sound

section Walk

variable {Record : Type} (a b d : CTtreeNode Record → Bool) (c : Record → Bool)

theorem TTree.walk_forward : ∀ t : TTree Record, t.walk [.left a, .items false b c, .right d] = t.records
  | .null => rfl
  | .node left items right => by
    simp [TTree.walk, TTree.stepWalk, TTree.records, walk_forward left, walk_forward right]

theorem TTree.walk_backward : ∀ t : TTree Record, t.walk [.right a, .items true b c, .left d] = t.records.reverse
  | .null => rfl
  | .node left items right => by
    simp [TTree.walk, TTree.stepWalk, TTree.records, walk_backward left, walk_backward right]

theorem TTree.walk_leftFirst : ∀ t : TTree Record, (t.walk [.left a, .right d, .items false b c]).Perm t.records
  | .null => List.Perm.refl _
  | .node left items right => by
    have h : (TTree.node left items right).walk [.left a, .right d, .items false b c] =
        left.walk [.left a, .right d, .items false b c] ++
          (right.walk [.left a, .right d, .items false b c] ++ items) := by
      simp [TTree.walk, TTree.stepWalk]
    rw [h, TTree.records, List.append_assoc]
    exact (walk_leftFirst left).append (((walk_leftFirst right).append_right items).trans List.perm_append_comm)

theorem TTree.walk_rightFirst : ∀ t : TTree Record, (t.walk [.right a, .left d, .items true b c]).Perm t.records
  | .null => List.Perm.refl _
  | .node left items right => by
    have h : (TTree.node left items right).walk [.right a, .left d, .items true b c] =
        right.walk [.right a, .left d, .items true b c] ++
          (left.walk [.right a, .left d, .items true b c] ++ items.reverse) := by
      simp [TTree.walk, TTree.stepWalk]
    rw [h, TTree.records]
    refine List.perm_append_comm.trans (List.Perm.append ?_ (walk_rightFirst right))
    exact (walk_rightFirst left).append (List.reverse_perm items)

end Walk

/-! ## The traversals over a comparator -/

/-- A comparator whose sign is the order of the keys. -/
structure KeyComparator (Key Record : Type) [LinearOrder Key] extends TreeOrder Key Record where
  neg_iff : ∀ k r, (comp k r).toInt < 0 ↔ k < key r
  zero_iff : ∀ k r, (comp k r).toInt = 0 ↔ k = key r

section Comparator

variable {Key Record : Type} [LinearOrder Key]

/-- **The `int` has the sign of the 64 bits** it is taken from. -/
def KeyComparator.SignKept (c : KeyComparator Key Record) : Prop :=
  ∀ k r, (c.diff k r).sign = (c.comp k r).toInt.sign

/-- The traversals of a tree visit, in their order and up to the visitor's first error, the records their bounds leave,
each of them once. -/
def TreeOrder.TraversalsRight (o : TreeOrder Key Record) : Prop :=
  ∀ (mem : TreeMem Record) (t : TTree Record) (hRoot fuel : Nat), t.Stored mem hRoot → t.Ordered o.key →
    t.height ≤ fuel → ∀ (σ : Type) (visit : Record → σ → Int × σ) (s : σ) (k k1 : Key),
    let run := fun steps => CTtree.traverse visit mem steps fuel hRoot s
    let all := t.records
    let range := t.records.filter fun r => k ≤ o.key r ∧ o.key r ≤ k1
    let ge := t.records.filter fun r => k ≤ o.key r
    let le := t.records.filter fun r => o.key r ≤ k
    run traverseForward = some (visitItems visit all s) ∧
    run traverseBackward = some (visitItems visit all.reverse s) ∧
    (∃ rs, rs.Perm all ∧ run postOrderTraverse = some (visitItems visit rs s)) ∧
    run (traverseForwardGE o k) = some (visitItems visit ge s) ∧
    run (traverseBackwardLE o k) = some (visitItems visit le.reverse s) ∧
    (∃ rs, rs.Perm ge ∧ run (postOrderTraverseGE o k) = some (visitItems visit rs s)) ∧
    (∃ rs, rs.Perm le ∧ run (postOrderTraverseLE o k) = some (visitItems visit rs s)) ∧
    run (traverseForwardRange o k k1) = some (visitItems visit range s) ∧
    run (traverseBackwardRange o k k1) = some (visitItems visit range.reverse s) ∧
    ∃ rs, rs.Perm range ∧ run (postOrderTraverseRange o k k1) = some (visitItems visit rs s)

namespace KeyComparator

variable {c : KeyComparator Key Record}

theorem SignKept.diff_neg (hk : c.SignKept) (k : Key) (r : Record) : c.diff k r < 0 ↔ k < c.key r := by
  rw [← Int.sign_eq_neg_one_iff_neg, hk k r, Int.sign_eq_neg_one_iff_neg]
  exact c.neg_iff k r

theorem SignKept.diff_zero (hk : c.SignKept) (k : Key) (r : Record) : c.diff k r = 0 ↔ k = c.key r := by
  rw [← Int.sign_eq_zero_iff_zero, hk k r, Int.sign_eq_zero_iff_zero]
  exact c.zero_iff k r

theorem SignKept.diff_pos (hk : c.SignKept) (k : Key) (r : Record) : 0 < c.diff k r ↔ c.key r < k := by
  have hneg := hk.diff_neg k r
  have hzero := hk.diff_zero k r
  constructor
  · intro h
    exact lt_of_le_of_ne (not_lt.mp fun hlt => by have := hneg.mpr hlt; omega)
      (fun he => by have := hzero.mpr he.symm; omega)
  · intro h
    have h1 : ¬ c.diff k r < 0 := fun hd => absurd (hneg.mp hd) (not_lt.mpr (le_of_lt h))
    have h2 : c.diff k r ≠ 0 := fun hd => absurd (hzero.mp hd) (ne_of_gt h)
    omega

theorem SignKept.diff_le (hk : c.SignKept) (k : Key) (r : Record) : c.diff k r ≤ 0 ↔ k ≤ c.key r := by
  rw [← Int.not_lt, hk.diff_pos k r, not_lt]

theorem SignKept.diff_ge (hk : c.SignKept) (k : Key) (r : Record) : 0 ≤ c.diff k r ↔ c.key r ≤ k := by
  rw [← Int.not_lt, hk.diff_neg k r, not_lt]

theorem sound_of {want : Record → Bool} {r : Record} (h : want r = true → False) : want r = false :=
  Bool.eq_false_iff.mpr h

section Sound

variable (hk : c.SignKept) {want : Record → Bool} {k k1 : Key}

include hk

theorem sound_leftBelow (hw : ∀ r, want r = true → k ≤ c.key r) :
    (VisitStep.left fun n => decide (c.diff k n.first < 0)).Sound c.key want := by
  intro n he r hr
  rw [decide_eq_false_iff_not, hk.diff_neg, not_lt] at he
  exact sound_of fun h => absurd (hw r h) (not_le.mpr (lt_of_lt_of_le hr he))

theorem sound_leftUpTo (hw : ∀ r, want r = true → k ≤ c.key r) :
    (VisitStep.left fun n => decide (c.diff k n.first ≤ 0)).Sound c.key want := by
  intro n he r hr
  rw [decide_eq_false_iff_not, hk.diff_le, not_le] at he
  exact sound_of fun h => absurd (hw r h) (not_le.mpr (lt_trans hr he))

theorem sound_rightAbove (hw : ∀ r, want r = true → c.key r ≤ k) :
    (VisitStep.right fun n => decide (c.diff k n.last > 0)).Sound c.key want := by
  intro n he r hr
  rw [decide_eq_false_iff_not, gt_iff_lt, hk.diff_pos, not_lt] at he
  exact sound_of fun h => absurd (hw r h) (not_le.mpr (lt_of_le_of_lt he hr))

theorem sound_rightFrom (hw : ∀ r, want r = true → c.key r ≤ k) :
    (VisitStep.right fun n => decide (c.diff k n.last ≥ 0)).Sound c.key want := by
  intro n he r hr
  rw [decide_eq_false_iff_not, ge_iff_le, hk.diff_ge, not_le] at he
  exact sound_of fun h => absurd (hw r h) (not_le.mpr (lt_trans he hr))

theorem sound_itemsGE (backward : Bool) :
    (VisitStep.items backward (fun n => decide (c.diff k n.last ≤ 0)) fun r => decide (c.diff k r ≤ 0)).Sound c.key
      fun r => decide (k ≤ c.key r) := by
  refine ⟨funext fun r => decide_eq_decide.mpr (hk.diff_le k r), fun n he r _ hr => ?_⟩
  rw [decide_eq_false_iff_not, hk.diff_le, not_le] at he
  exact decide_eq_false (not_le.mpr (lt_of_le_of_lt hr he))

theorem sound_itemsLE (backward : Bool) :
    (VisitStep.items backward (fun n => decide (c.diff k n.first ≥ 0)) fun r => decide (c.diff k r ≥ 0)).Sound c.key
      fun r => decide (c.key r ≤ k) := by
  refine ⟨funext fun r => decide_eq_decide.mpr (hk.diff_ge k r), fun n he r hr _ => ?_⟩
  rw [decide_eq_false_iff_not, ge_iff_le, hk.diff_ge, not_le] at he
  exact decide_eq_false (not_le.mpr (lt_of_lt_of_le he hr))

theorem sound_itemsRange (backward : Bool) :
    (VisitStep.items backward (rangeLoop c.toTreeOrder k k1) (rangeWant c.toTreeOrder k k1)).Sound c.key
      fun r => decide (k ≤ c.key r ∧ c.key r ≤ k1) := by
  constructor
  · funext r
    rw [rangeWant, Bool.decide_and, decide_eq_decide.mpr (hk.diff_le k r), decide_eq_decide.mpr (hk.diff_ge k1 r)]
  · intro n he r hfirst hlast
    simp only [rangeLoop, Bool.not_eq_false', Bool.or_eq_true, decide_eq_true_eq, gt_iff_lt, hk.diff_neg, hk.diff_pos] at he
    apply decide_eq_false
    rintro ⟨hlo, hhi⟩
    rcases he with he | he
    · exact absurd (le_trans hfirst hhi) (not_le.mpr he)
    · exact absurd (le_trans hlo hlast) (not_le.mpr he)

theorem SignKept.traversalsRight : c.toTreeOrder.TraversalsRight := by
  intro mem t hRoot fuel hst ho hf σ visit s k k1
  have hge : ∀ r, decide (k ≤ c.key r) = true → k ≤ c.key r := fun r h => of_decide_eq_true h
  have hle : ∀ r, decide (c.key r ≤ k) = true → c.key r ≤ k := fun r h => of_decide_eq_true h
  have hlo : ∀ r, decide (k ≤ c.key r ∧ c.key r ≤ k1) = true → k ≤ c.key r := fun r h => (of_decide_eq_true h).1
  have hhi : ∀ r, decide (k ≤ c.key r ∧ c.key r ≤ k1) = true → c.key r ≤ k1 := fun r h => (of_decide_eq_true h).2
  have hno : ∀ rs : List Record, rs.filter (fun _ => true) = rs := fun rs => List.filter_eq_self.mpr fun _ _ => rfl
  have hrun : ∀ {want : Record → Bool} {a b d : VisitStep Record}, a.Sound c.key want → b.Sound c.key want →
      d.Sound c.key want → CTtree.traverse visit mem [a, b, d] fuel hRoot s =
        some (visitItems visit ((t.walk [a, b, d]).filter want) s) :=
    fun ha hb hd => CTtree.traverse_three visit hst ho hf ha hb hd s
  refine ⟨?_, ?_, ?_, ?_, ?_, ?_, ?_, ?_, ?_, ?_⟩
  · have h := hrun VisitStep.sound_left (VisitStep.sound_items false) VisitStep.sound_right
    rwa [TTree.walk_forward, hno] at h
  · have h := hrun VisitStep.sound_right (VisitStep.sound_items true) VisitStep.sound_left
    rwa [TTree.walk_backward, hno] at h
  · have h := hrun VisitStep.sound_right VisitStep.sound_left (VisitStep.sound_items true)
    rw [hno] at h
    exact ⟨_, TTree.walk_rightFirst _ _ _ _ t, h⟩
  · have h := hrun (sound_leftBelow hk hge) (sound_itemsGE hk false) VisitStep.sound_right
    rwa [TTree.walk_forward] at h
  · have h := hrun (sound_rightAbove hk hle) (sound_itemsLE hk true) VisitStep.sound_left
    rwa [TTree.walk_backward, List.filter_reverse] at h
  · have h := hrun (sound_leftBelow hk hge) VisitStep.sound_right (sound_itemsGE hk false)
    exact ⟨_, (TTree.walk_leftFirst _ _ _ _ t).filter _, h⟩
  · have h := hrun (sound_rightAbove hk hle) VisitStep.sound_left (sound_itemsLE hk true)
    exact ⟨_, (TTree.walk_rightFirst _ _ _ _ t).filter _, h⟩
  · have h := hrun (sound_leftBelow hk hlo) (sound_itemsRange hk false) (sound_rightFrom hk hhi)
    rwa [TTree.walk_forward] at h
  · have h := hrun (sound_rightAbove hk hhi) (sound_itemsRange hk true) (sound_leftUpTo hk hlo)
    rwa [TTree.walk_backward, List.filter_reverse] at h
  · have h := hrun (sound_leftBelow hk hlo) (sound_rightFrom hk hhi) (sound_itemsRange hk false)
    exact ⟨_, (TTree.walk_leftFirst _ _ _ _ t).filter _, h⟩

end Sound

end KeyComparator

def loneRecord (r : Record) : TreeMem Record := fun h => if h = 1 then some { items := [r], nonempty := by simp } else none

omit [LinearOrder Key] in
theorem loneRecord_stored (r : Record) : (TTree.node .null [r] .null).Stored (loneRecord r) 1 :=
  ⟨by decide, _, rfl, rfl, rfl, rfl⟩

omit [LinearOrder Key] in
theorem loneRecord_traverse {σ : Type} (visit : Record → σ → Int × σ) (r : Record) (steps : List (VisitStep Record))
    (s : σ) : CTtree.traverse visit (loneRecord r) steps 1 1 s =
      some (visitItems visit (steps.flatMap (stepVisits { items := [r], nonempty := by simp } [] [])) s) :=
  visitNode_eq visit (fun _ => rfl) (fun _ => rfl) steps s

def collect (r : Record) (seen : List Record) : Int × List Record := (0, r :: seen)

omit [LinearOrder Key] in
theorem visitItems_collect : ∀ (rs seen : List Record), visitItems collect rs seen = (0, rs.reverse ++ seen)
  | [], seen => rfl
  | r :: rs, seen => by
    rw [visitItems, collect, if_neg (by simp), visitItems_collect rs (r :: seen)]
    simp

namespace KeyComparator

variable {c : KeyComparator Key Record}

theorem signKept_of (h : c.toTreeOrder.TraversalsRight) : c.SignKept := by
  intro k r
  obtain ⟨-, -, -, hge, hle, -⟩ := h (loneRecord r) (.node .null [r] .null) 1 1 (loneRecord_stored r)
    (List.pairwise_singleton _ r) (Nat.le_refl 1) (List Record) collect [] k k
  dsimp only at hge hle
  rw [loneRecord_traverse, visitItems_collect, visitItems_collect] at hge hle
  have hfrom : c.diff k r ≤ 0 ↔ k ≤ c.key r := by
    by_cases h1 : c.diff k r ≤ 0 <;> by_cases h2 : k ≤ c.key r <;>
      simp [traverseForwardGE, stepVisits, CTtreeNode.last, TTree.records, h1, h2] at hge ⊢
  have hupTo : 0 ≤ c.diff k r ↔ c.key r ≤ k := by
    by_cases h1 : 0 ≤ c.diff k r <;> by_cases h2 : c.key r ≤ k <;>
      simp [traverseBackwardLE, stepVisits, CTtreeNode.first, TTree.records, h1, h2] at hle ⊢
  have hneg := c.neg_iff k r
  have hzero := c.zero_iff k r
  rcases lt_trichotomy k (c.key r) with hlt | heq | hgt
  · have hd : c.diff k r < 0 := Int.not_le.mp fun hd => absurd (hupTo.mp hd) (not_le.mpr hlt)
    rw [Int.sign_eq_neg_one_of_neg hd, Int.sign_eq_neg_one_of_neg (hneg.mpr hlt)]
  · have hd : c.diff k r = 0 := Int.le_antisymm (hfrom.mpr (le_of_eq heq)) (hupTo.mpr (ge_of_eq heq))
    rw [hd, hzero.mpr heq]
  · have hd : 0 < c.diff k r := Int.not_le.mp fun hd => absurd (hfrom.mp hd) (not_le.mpr hgt)
    have hc : 0 < (c.comp k r).toInt := by
      have h1 : ¬ (c.comp k r).toInt < 0 := fun hc => absurd (hneg.mp hc) (not_lt.mpr (le_of_lt hgt))
      have h2 : (c.comp k r).toInt ≠ 0 := fun hc => absurd (hzero.mp hc) (ne_of_gt hgt)
      omega
    rw [Int.sign_eq_one_of_pos hd, Int.sign_eq_one_of_pos hc]

/-- **The traversals of a comparator are right exactly when its results keep their signs in an `int`.** -/
theorem traversalsRight_iff (c : KeyComparator Key Record) : c.toTreeOrder.TraversalsRight ↔ c.SignKept :=
  ⟨signKept_of, SignKept.traversalsRight⟩

end KeyComparator

end Comparator

def differenceComparator : KeyComparator (Fin (2 ^ 62)) (Fin (2 ^ 62)) where
  comp k r := BitVec.ofInt 64 ((k.val : Int) - r.val)
  key r := r
  neg_iff k r := by
    have hk := k.isLt
    have hr := r.isLt
    rw [BitVec.toInt_ofInt_eq_self (by decide) (by omega) (by omega), Fin.lt_def]
    omega
  zero_iff k r := by
    have hk := k.isLt
    have hr := r.isLt
    rw [BitVec.toInt_ofInt_eq_self (by decide) (by omega) (by omega), Fin.ext_iff]
    omega

/-- From the key 2³² on, the record 0 is visited. -/
theorem differenceComparator_wrong : ¬ differenceComparator.toTreeOrder.TraversalsRight := by
  intro h
  obtain ⟨-, -, -, hge, -⟩ := h (loneRecord 0) (.node .null [0] .null) 1 1 (loneRecord_stored 0)
    (List.pairwise_singleton _ 0) (Nat.le_refl 1) (List (Fin (2 ^ 62))) collect [] ⟨2 ^ 32, by decide⟩ 0
  dsimp only at hge
  rw [loneRecord_traverse, visitItems_collect, visitItems_collect] at hge
  exact absurd hge (by decide)

end Dtc
