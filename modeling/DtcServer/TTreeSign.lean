import DtcServer.TTreeTraverse
/-!
# TTreeSign — finding and deleting in a T-tree, and the signs of its comparisons (`t_tree`)

The comparator gives 64 bits, the functions of the tree keep them in an `int`.  They only look at the sign of it, so that
all of them are those of the comparator that gives −1, 0 or 1 exactly when no sign is lost.
-/
namespace Dtc

def minItems : Nat := pageSize - 2

section Find

variable {Key Record : Type} (o : TreeOrder Key Record)

def CTtreeNode.findItems (node : CTtreeNode Record) (key : Key) (iLeft iRight : Nat) : Option Record :=
  if iLeft < iRight then
    let i := (iLeft + iRight) / 2
    let iDiff := o.diff key (node.items.getD i node.first)
    if iDiff = 0 then some (node.items.getD i node.first)
    else if iDiff > 0 then findItems node key (i + 1) iRight
    else findItems node key iLeft i
  else none
termination_by iRight - iLeft

/-- `_CTtreeNode::Find`: the record, if there is one. -/
def CTtreeNode.find : Nat → TreeMem Record → Nat → Key → Option (Option Record)
  | 0, _, _, _ => none
  | fuel + 1, mem, h, key => do
    let node ← mem h
    let iDiff := o.diff key node.first
    if iDiff = 0 then some (some node.first)
    else if iDiff > 0 then
      let iDiff := o.diff key node.last
      if iDiff = 0 then some (some node.last)
      else if iDiff > 0 then if node.hRight = invalidHandle then some none else find fuel mem node.hRight key
      else some (node.findItems o key 1 (node.items.length - 1))
    else if node.hLeft = invalidHandle then some none
    else find fuel mem node.hLeft key

def CTtree.find (fuel : Nat) (mem : TreeMem Record) (hRoot : Nat) (key : Key) : Option (Option Record) :=
  if hRoot = invalidHandle then some none else CTtreeNode.find o fuel mem hRoot key

end Find

/-! ## The deletion -/

section Balance

variable {Record : Type}

/-- `BalanceLeftBranch`: the left branch has become lower. -/
def CTtreeNode.balanceLeftBranch (mem : TreeMem Record) (hNode : Nat) : Option (Int × TreeMem Record × Nat) := do
  let node ← mem hNode
  if node.balance < 0 then some (1, mem.set hNode { node with balance := 0 }, hNode)
  else if node.balance = 0 then some (0, mem.set hNode { node with balance := 1 }, hNode)
  else
    let hRight := node.hRight
    let right ← mem hRight
    if right.balance ≥ 0 then
      let mem := mem.modify hNode fun n => { n with hRight := right.hLeft, balance := if right.balance = 0 then 1 else 0 }
      let mem := mem.modify hRight fun n => { n with hLeft := hNode, balance := if right.balance = 0 then -1 else 0 }
      some (if right.balance = 0 then 0 else 1, mem, hRight)
    else
      let hLeft := right.hLeft
      let left ← mem hLeft
      let mem := mem.modify hRight fun n =>
        { n with hLeft := left.hRight, balance := if left.balance < 0 then 1 else 0 }
      let mem := mem.modify hNode fun n =>
        { n with hRight := left.hLeft, balance := if left.balance > 0 then -1 else 0 }
      some (1, mem.modify hLeft fun n => { n with hRight := hRight, hLeft := hNode, balance := 0 }, hLeft)

def CTtreeNode.balanceRightBranch (mem : TreeMem Record) (hNode : Nat) : Option (Int × TreeMem Record × Nat) := do
  let node ← mem hNode
  if node.balance > 0 then some (1, mem.set hNode { node with balance := 0 }, hNode)
  else if node.balance = 0 then some (0, mem.set hNode { node with balance := -1 }, hNode)
  else
    let hLeft := node.hLeft
    let left ← mem hLeft
    if left.balance ≤ 0 then
      let mem := mem.modify hNode fun n => { n with hLeft := left.hRight, balance := if left.balance = 0 then -1 else 0 }
      let mem := mem.modify hLeft fun n => { n with hRight := hNode, balance := if left.balance = 0 then 1 else 0 }
      some (if left.balance = 0 then 0 else 1, mem, hLeft)
    else
      let hRight := left.hRight
      let right ← mem hRight
      let mem := mem.modify hLeft fun n =>
        { n with hRight := right.hLeft, balance := if right.balance > 0 then -1 else 0 }
      let mem := mem.modify hNode fun n =>
        { n with hLeft := right.hRight, balance := if right.balance < 0 then 1 else 0 }
      some (1, mem.modify hRight fun n => { n with hLeft := hLeft, hRight := hNode, balance := 0 }, hRight)

def CTtreeNode.rightmost : Nat → TreeMem Record → Nat → Option (CTtreeNode Record)
  | 0, _, _ => none
  | fuel + 1, mem, h => do
    let node ← mem h
    if node.hRight ≠ invalidHandle then rightmost fuel mem node.hRight else some node

def CTtreeNode.leftmost : Nat → TreeMem Record → Nat → Option (CTtreeNode Record)
  | 0, _, _ => none
  | fuel + 1, mem, h => do
    let node ← mem h
    if node.hLeft ≠ invalidHandle then leftmost fuel mem node.hLeft else some node

end Balance

section Delete

variable {Key Record : Type} (o : TreeOrder Key Record)

/-- What `Delete` does when it has gone down the left branch: the code of the recursion, the nodes and the branch. -/
def CTtreeNode.leftDeleted (hNode : Nat) (r : Int × TreeMem Record × Nat) : Option (Int × TreeMem Record × Nat) :=
  if r.1 < -1 then some (r.1, r.2.1, hNode)
  else
    let mem := r.2.1.modify hNode fun n => { n with hLeft := r.2.2 }
    if r.1 > 0 then CTtreeNode.balanceLeftBranch mem hNode else some (r.1, mem, hNode)

def CTtreeNode.rightDeleted (hNode : Nat) (r : Int × TreeMem Record × Nat) : Option (Int × TreeMem Record × Nat) :=
  if r.1 < -1 then some (r.1, r.2.1, hNode)
  else
    let mem := r.2.1.modify hNode fun n => { n with hRight := r.2.2 }
    if r.1 > 0 then CTtreeNode.balanceRightBranch mem hNode else some (r.1, mem, hNode)

/-- The record at place `i` of a node goes; `del` deletes from a branch. -/
def CTtreeNode.deleteItem (del : TreeMem Record → Nat → Key → Option (Int × TreeMem Record × Nat)) (fuel : Nat)
    (mem : TreeMem Record) (hNode : Nat) (node : CTtreeNode Record) (i : Nat) : Option (Int × TreeMem Record × Nat) :=
  if node.items.length = 1 ∧ node.hRight = invalidHandle then some (1, Function.update mem hNode none, node.hLeft)
  else if node.items.length = 1 ∧ node.hLeft = invalidHandle then some (1, Function.update mem hNode none, node.hRight)
  else if node.items.length ≤ minItems ∧ node.hLeft ≠ invalidHandle ∧ node.balance ≤ 0 then do
    -- the greatest record of the left branch moves up
    let left ← CTtreeNode.rightmost fuel mem node.hLeft
    let mem := mem.set hNode (node.withItems (left.last :: node.items.eraseIdx i) (List.cons_ne_nil _ _))
    let r ← del mem node.hLeft (o.key left.last)
    CTtreeNode.leftDeleted hNode r
  else if node.items.length ≤ minItems ∧ node.hRight ≠ invalidHandle then do
    let right ← CTtreeNode.leftmost fuel mem node.hRight
    let mem := mem.set hNode (node.withItems (node.items.eraseIdx i ++ [right.first]) (by simp))
    let r ← del mem node.hRight (o.key right.first)
    CTtreeNode.rightDeleted hNode r
  -- a node of one record has been left by now
  else if h : node.items.eraseIdx i ≠ [] then some (0, mem.set hNode (node.withItems (node.items.eraseIdx i) h), hNode)
  else none

/-- `Delete` from the second comparison on. -/
def CTtreeNode.deleteHere (del : TreeMem Record → Nat → Key → Option (Int × TreeMem Record × Nat)) (fuel : Nat)
    (mem : TreeMem Record) (hNode : Nat) (key : Key) : Option (Int × TreeMem Record × Nat) := do
  let node ← mem hNode
  -- this loop compares all 64 bits
  let found := if o.diff key node.last ≤ 0 then node.items.findIdx? (fun r => o.comp key r = 0) else none
  match found with
  | some i => node.deleteItem o del fuel mem hNode i
  | none =>
    if node.hRight ≠ invalidHandle then
      let r ← del mem node.hRight key
      CTtreeNode.rightDeleted hNode r
    else some (-1, mem, hNode)

/-- `_CTtreeNode::Delete`: the code, the nodes and the root of the subtree.  A left branch without the key sends the
function on to the node itself. -/
def CTtreeNode.delete : Nat → TreeMem Record → Nat → Key → Option (Int × TreeMem Record × Nat)
  | 0, _, _, _ => none
  | fuel + 1, mem, hNode, key => do
    let node ← mem hNode
    if o.diff key node.first < 0 ∧ node.hLeft ≠ invalidHandle then
      let r ← delete fuel mem node.hLeft key
      let (iRet, mem, hRoot) ← CTtreeNode.leftDeleted hNode r
      if r.1 = -1 then CTtreeNode.deleteHere o (fun mem h key => delete fuel mem h key) fuel mem hNode key
      else some (iRet, mem, hRoot)
    else CTtreeNode.deleteHere o (fun mem h key => delete fuel mem h key) fuel mem hNode key

/-- `CTtree::Delete`: the code, the nodes and `m_hRoot`. -/
def CTtree.delete (fuel : Nat) (mem : TreeMem Record) (hRoot : Nat) (key : Key) : Option (Int × TreeMem Record × Nat) :=
  if hRoot = invalidHandle then some (0, mem, hRoot)
  else do
    let (iRet, mem, hNode) ← CTtreeNode.delete o fuel mem hRoot key
    if iRet ≤ -1 then some (-1, mem, hRoot) else some (0, mem, hNode)

end Delete

/-! ## The functions look at the signs -/

/-- Two orders whose comparisons have the same signs, in the `int` and against 0. -/
structure TreeOrder.SameSigns {Key Record : Type} (o o' : TreeOrder Key Record) : Prop where
  key : o.key = o'.key
  sign : ∀ k r, (o.diff k r).sign = (o'.diff k r).sign
  zero : ∀ k r, o.comp k r = 0 ↔ o'.comp k r = 0

section Congr

variable {Key Record : Type} {o o' : TreeOrder Key Record}

namespace TreeOrder.SameSigns

variable (h : o.SameSigns o') (k : Key) (r : Record)

include h

theorem diff_zero : (o.diff k r = 0) = (o'.diff k r = 0) := by
  rw [← Int.sign_eq_zero_iff_zero, h.sign, Int.sign_eq_zero_iff_zero]

theorem diff_neg : (o.diff k r < 0) = (o'.diff k r < 0) := by
  rw [← Int.sign_eq_neg_one_iff_neg, h.sign, Int.sign_eq_neg_one_iff_neg]

theorem diff_pos : (0 < o.diff k r) = (0 < o'.diff k r) := by
  rw [← Int.sign_eq_one_iff_pos, h.sign, Int.sign_eq_one_iff_pos]

theorem diff_le : (o.diff k r ≤ 0) = (o'.diff k r ≤ 0) := by
  rw [← Int.not_lt, h.diff_pos, Int.not_lt]

theorem diff_ge : (0 ≤ o.diff k r) = (0 ≤ o'.diff k r) := by
  rw [← Int.not_lt, h.diff_neg, Int.not_lt]

end TreeOrder.SameSigns

variable (h : o.SameSigns o')

include h

theorem rangeLoop_congr (k k1 : Key) : rangeLoop o k k1 = rangeLoop o' k k1 := by
  funext n
  simp only [rangeLoop, gt_iff_lt, h.diff_neg, h.diff_pos]

theorem rangeWant_congr (k k1 : Key) : rangeWant o k k1 = rangeWant o' k k1 := by
  funext r
  simp only [rangeWant, ge_iff_le, h.diff_le, h.diff_ge]

theorem CTtreeNode.searchItems_congr (node : CTtreeNode Record) (key : Key) (iLeft iRight : Nat) :
    node.searchItems o key iLeft iRight = node.searchItems o' key iLeft iRight := by
  fun_induction CTtreeNode.searchItems o node key iLeft iRight with
  | case1 iLeft iRight hlt i iDiff hz =>
    rw [CTtreeNode.searchItems, if_pos hlt]
    exact (if_pos ((h.diff_zero _ _).mp hz)).symm
  | case2 iLeft iRight hlt i iDiff hz hpos ih =>
    rw [ih, CTtreeNode.searchItems.eq_1 o' node key iLeft iRight, if_pos hlt]
    exact ((if_neg fun hz' => hz ((h.diff_zero _ _).mpr hz')).trans (if_pos ((h.diff_pos _ _).mp hpos))).symm
  | case3 iLeft iRight hlt i iDiff hz hpos ih =>
    rw [ih, CTtreeNode.searchItems.eq_1 o' node key iLeft iRight, if_pos hlt]
    exact ((if_neg fun hz' => hz ((h.diff_zero _ _).mpr hz')).trans
      (if_neg fun hpos' => hpos ((h.diff_pos _ _).mpr hpos'))).symm
  | case4 iLeft iRight hge => rw [CTtreeNode.searchItems, if_neg hge]

theorem CTtreeNode.findItems_congr (node : CTtreeNode Record) (key : Key) (iLeft iRight : Nat) :
    node.findItems o key iLeft iRight = node.findItems o' key iLeft iRight := by
  fun_induction CTtreeNode.findItems o node key iLeft iRight with
  | case1 iLeft iRight hlt i iDiff hz =>
    rw [CTtreeNode.findItems, if_pos hlt]
    exact (if_pos ((h.diff_zero _ _).mp hz)).symm
  | case2 iLeft iRight hlt i iDiff hz hpos ih =>
    rw [ih, CTtreeNode.findItems.eq_1 o' node key iLeft iRight, if_pos hlt]
    exact ((if_neg fun hz' => hz ((h.diff_zero _ _).mpr hz')).trans (if_pos ((h.diff_pos _ _).mp hpos))).symm
  | case3 iLeft iRight hlt i iDiff hz hpos ih =>
    rw [ih, CTtreeNode.findItems.eq_1 o' node key iLeft iRight, if_pos hlt]
    exact ((if_neg fun hz' => hz ((h.diff_zero _ _).mpr hz')).trans
      (if_neg fun hpos' => hpos ((h.diff_pos _ _).mpr hpos'))).symm
  | case4 iLeft iRight hge => rw [CTtreeNode.findItems, if_neg hge]

theorem CTtreeNode.insert_congr (malloc : TreeMem Record → Option Nat) : ∀ (fuel : Nat) (mem : TreeMem Record)
    (hNode : Nat) (key : Key) (record : Record),
    CTtreeNode.insert o malloc fuel mem hNode key record = CTtreeNode.insert o' malloc fuel mem hNode key record
  | 0, _, _, _, _ => rfl
  | fuel + 1, mem, hNode, key, record => by
    simp only [CTtreeNode.insert, gt_iff_lt, h.diff_zero, h.diff_neg, h.diff_pos, h.key, searchItems_congr h,
      insert_congr malloc fuel]

theorem CTtreeNode.find_congr : ∀ (fuel : Nat) (mem : TreeMem Record) (hNode : Nat) (key : Key),
    CTtreeNode.find o fuel mem hNode key = CTtreeNode.find o' fuel mem hNode key
  | 0, _, _, _ => rfl
  | fuel + 1, mem, hNode, key => by
    simp only [CTtreeNode.find, gt_iff_lt, h.diff_zero, h.diff_pos, findItems_congr h, find_congr fuel]

theorem CTtreeNode.deleteHere_congr {del : TreeMem Record → Nat → Key → Option (Int × TreeMem Record × Nat)} (fuel : Nat)
    (mem : TreeMem Record) (hNode : Nat) (key : Key) :
    CTtreeNode.deleteHere o del fuel mem hNode key = CTtreeNode.deleteHere o' del fuel mem hNode key := by
  simp only [CTtreeNode.deleteHere, CTtreeNode.deleteItem, h.diff_le, h.zero, h.key]

theorem CTtreeNode.delete_congr : ∀ (fuel : Nat) (mem : TreeMem Record) (hNode : Nat) (key : Key),
    CTtreeNode.delete o fuel mem hNode key = CTtreeNode.delete o' fuel mem hNode key
  | 0, _, _, _ => rfl
  | fuel + 1, mem, hNode, key => by
    simp only [CTtreeNode.delete, h.diff_neg, delete_congr fuel, deleteHere_congr h]

theorem CTtree.insert_congr (malloc : TreeMem Record → Option Nat) :
    CTtree.insert o malloc = CTtree.insert o' malloc := by
  funext fuel mem hRoot key record
  simp only [CTtree.insert, CTtreeNode.insert_congr h]

theorem CTtree.delete_congr : CTtree.delete o = CTtree.delete o' := by
  funext fuel mem hRoot key
  simp only [CTtree.delete, CTtreeNode.delete_congr h]

theorem CTtree.find_congr : CTtree.find o = CTtree.find o' := by
  funext fuel mem hRoot key
  simp only [CTtree.find, CTtreeNode.find_congr h]

end Congr

/-! ## The comparator that gives −1, 0 or 1 -/

section Normalised

variable {Key Record : Type} [LinearOrder Key]

theorem toInt_ofInt_sign (x : Int) : (BitVec.ofInt 64 x.sign).toInt = x.sign := by
  rcases Int.sign_trichotomy x with h | h | h <;> rw [h] <;> decide

theorem narrow_ofInt_sign (x : Int) : narrow (BitVec.ofInt 64 x.sign) = x.sign := by
  rcases Int.sign_trichotomy x with h | h | h <;> rw [h] <;> decide

namespace KeyComparator

variable (c : KeyComparator Key Record)

def normalised : KeyComparator Key Record where
  comp k r := BitVec.ofInt 64 (c.comp k r).toInt.sign
  key := c.key
  neg_iff k r := by rw [toInt_ofInt_sign, Int.sign_neg_iff, c.neg_iff]
  zero_iff k r := by rw [toInt_ofInt_sign, Int.sign_eq_zero_iff_zero, c.zero_iff]

/-- Insertion, deletion, search and the bounded traversals are those of another comparator. -/
structure Behaves (c c' : KeyComparator Key Record) : Prop where
  insert : ∀ malloc, CTtree.insert c.toTreeOrder malloc = CTtree.insert c'.toTreeOrder malloc
  delete : CTtree.delete c.toTreeOrder = CTtree.delete c'.toTreeOrder
  find : CTtree.find c.toTreeOrder = CTtree.find c'.toTreeOrder
  forwardGE : ∀ {σ : Type} (visit : Record → σ → Int × σ) mem k,
    CTtree.traverse visit mem (traverseForwardGE c.toTreeOrder k) =
      CTtree.traverse visit mem (traverseForwardGE c'.toTreeOrder k)
  backwardLE : ∀ {σ : Type} (visit : Record → σ → Int × σ) mem k,
    CTtree.traverse visit mem (traverseBackwardLE c.toTreeOrder k) =
      CTtree.traverse visit mem (traverseBackwardLE c'.toTreeOrder k)
  postOrderGE : ∀ {σ : Type} (visit : Record → σ → Int × σ) mem k,
    CTtree.traverse visit mem (postOrderTraverseGE c.toTreeOrder k) =
      CTtree.traverse visit mem (postOrderTraverseGE c'.toTreeOrder k)
  postOrderLE : ∀ {σ : Type} (visit : Record → σ → Int × σ) mem k,
    CTtree.traverse visit mem (postOrderTraverseLE c.toTreeOrder k) =
      CTtree.traverse visit mem (postOrderTraverseLE c'.toTreeOrder k)
  forwardRange : ∀ {σ : Type} (visit : Record → σ → Int × σ) mem k k1,
    CTtree.traverse visit mem (traverseForwardRange c.toTreeOrder k k1) =
      CTtree.traverse visit mem (traverseForwardRange c'.toTreeOrder k k1)
  backwardRange : ∀ {σ : Type} (visit : Record → σ → Int × σ) mem k k1,
    CTtree.traverse visit mem (traverseBackwardRange c.toTreeOrder k k1) =
      CTtree.traverse visit mem (traverseBackwardRange c'.toTreeOrder k k1)
  postOrderRange : ∀ {σ : Type} (visit : Record → σ → Int × σ) mem k k1,
    CTtree.traverse visit mem (postOrderTraverseRange c.toTreeOrder k k1) =
      CTtree.traverse visit mem (postOrderTraverseRange c'.toTreeOrder k k1)

theorem normalised_signKept : c.normalised.SignKept := by
  intro k r
  have hdiff : c.normalised.diff k r = (c.comp k r).toInt.sign := narrow_ofInt_sign _
  have hcomp : (c.normalised.comp k r).toInt = (c.comp k r).toInt.sign := toInt_ofInt_sign _
  rw [hdiff, hcomp]

variable {c}

theorem SignKept.sameSigns (hk : c.SignKept) : c.toTreeOrder.SameSigns c.normalised.toTreeOrder where
  key := rfl
  sign k r := by
    have hdiff : c.normalised.diff k r = (c.comp k r).toInt.sign := narrow_ofInt_sign _
    rw [hk k r, hdiff, Int.sign_sign]
  zero k r := by
    have hcomp : (c.normalised.comp k r).toInt = (c.comp k r).toInt.sign := toInt_ofInt_sign _
    have h0 : (0 : BitVec 64).toInt = 0 := BitVec.toInt_zero
    rw [← BitVec.toInt_inj, ← BitVec.toInt_inj, hcomp, h0, Int.sign_eq_zero_iff_zero]

theorem behaves_of {c' : KeyComparator Key Record} (h : c.toTreeOrder.SameSigns c'.toTreeOrder) : c.Behaves c' where
  insert := CTtree.insert_congr h
  delete := CTtree.delete_congr h
  find := CTtree.find_congr h
  forwardGE visit mem k := by simp only [traverseForwardGE, h.diff_neg, h.diff_le]
  backwardLE visit mem k := by simp only [traverseBackwardLE, gt_iff_lt, ge_iff_le, h.diff_pos, h.diff_ge]
  postOrderGE visit mem k := by simp only [postOrderTraverseGE, h.diff_neg, h.diff_le]
  postOrderLE visit mem k := by simp only [postOrderTraverseLE, gt_iff_lt, ge_iff_le, h.diff_pos, h.diff_ge]
  forwardRange visit mem k k1 := by
    simp only [traverseForwardRange, ge_iff_le, h.diff_neg, h.diff_ge, rangeLoop_congr h, rangeWant_congr h]
  backwardRange visit mem k k1 := by
    simp only [traverseBackwardRange, gt_iff_lt, h.diff_pos, h.diff_le, rangeLoop_congr h, rangeWant_congr h]
  postOrderRange visit mem k k1 := by
    simp only [postOrderTraverseRange, ge_iff_le, h.diff_neg, h.diff_ge, rangeLoop_congr h, rangeWant_congr h]

theorem Behaves.traversalsRight {c' : KeyComparator Key Record} (h : c.Behaves c') (hkey : c.key = c'.key)
    (hr : c'.toTreeOrder.TraversalsRight) : c.toTreeOrder.TraversalsRight := by
  intro mem t hRoot fuel hst ho hf σ visit s k k1
  have hr' := hr mem t hRoot fuel hst (hkey ▸ ho) hf σ visit s k k1
  dsimp only at hr' ⊢
  rw [h.forwardGE, h.backwardLE, h.postOrderGE, h.postOrderLE, h.forwardRange, h.backwardRange, h.postOrderRange, hkey]
  exact hr'

/-- **The tree behaves as with the comparator that gives −1, 0 or 1 exactly when the results keep their signs in an
`int`.** -/
theorem behaves_normalised_iff (c : KeyComparator Key Record) : c.Behaves c.normalised ↔ c.SignKept := by
  constructor
  · intro h
    exact signKept_of (h.traversalsRight rfl c.normalised_signKept.traversalsRight)
  · intro hk
    exact behaves_of hk.sameSigns

end KeyComparator

end Normalised

/-- The key 2³² finds the record 0. -/
theorem differenceComparator_find : ¬ differenceComparator.Behaves differenceComparator.normalised := by
  intro h
  have hfind := congrFun (congrFun (congrFun (congrFun h.find 1) (loneRecord 0)) 1) ⟨2 ^ 32, by decide⟩
  have hfound : CTtree.find differenceComparator.toTreeOrder 1 (loneRecord 0) 1 ⟨2 ^ 32, by decide⟩ = some (some 0) := by
    decide
  have hnone : CTtree.find differenceComparator.normalised.toTreeOrder 1 (loneRecord 0) 1 ⟨2 ^ 32, by decide⟩ =
      some none := by
    decide
  rw [hfound, hnone] at hfind
  exact absurd hfind (by simp)

end Dtc
