import DtcServer.BinMalloc
import DtcServer.RawData
/-!
# TTree — the nodes of a T-tree and their insertion (`t_tree`)

A node holds up to twenty records in the order of the tree.  A record that belongs into a full node takes the place of
the node's first or last one, which is inserted again; what fails below puts the record back.
-/
namespace Dtc

def ecKeyExist : Int := 2042

def pageSize : Nat := 20

/-- `CTtreeNode`; it always holds a record. -/
structure CTtreeNode (Record : Type) where
  hLeft : Nat := invalidHandle
  hRight : Nat := invalidHandle
  balance : Int := 0
  items : List Record
  nonempty : items ≠ []

namespace CTtreeNode

variable {Record : Type} (node : CTtreeNode Record)

/-- `m_ahItems[0]` -/
def first : Record := node.items.head node.nonempty

/-- `m_ahItems[m_ushNItems - 1]` -/
def last : Record := node.items.getLast node.nonempty

def withItems (items : List Record) (h : items ≠ []) : CTtreeNode Record := { node with items := items, nonempty := h }

end CTtreeNode

/-- The nodes in memory, by their handles. -/
abbrev TreeMem (Record : Type) := Nat → Option (CTtreeNode Record)

namespace TreeMem

variable {Record : Type}

def set (mem : TreeMem Record) (h : Nat) (node : CTtreeNode Record) : TreeMem Record :=
  Function.update mem h (some node)

def modify (mem : TreeMem Record) (h : Nat) (f : CTtreeNode Record → CTtreeNode Record) : TreeMem Record :=
  Function.update mem h ((mem h).map f)

theorem set_self {mem : TreeMem Record} {h : Nat} {n : CTtreeNode Record} (hn : mem h = some n) : mem.set h n = mem := by
  rw [set, ← hn]
  exact Function.update_eq_self h mem

theorem modify_set (mem : TreeMem Record) (h : Nat) (n : CTtreeNode Record) (f : CTtreeNode Record → CTtreeNode Record) :
    (mem.set h n).modify h f = mem.set h (f n) := by
  unfold modify set
  rw [Function.update_self, Option.map_some, Function.update_idem]

end TreeMem

/-- A 64-bit result of a comparison in an `int`. -/
def narrow (diff : BitVec 64) : Int := (diff.setWidth 32).toInt

/-- What the functions of a tree are given: `KeyComparator` with its cookie, and `CDataChunk::Key`. -/
structure TreeOrder (Key Record : Type) where
  comp : Key → Record → BitVec 64
  key : Record → Key

namespace TreeOrder

variable {Key Record : Type} (o : TreeOrder Key Record)

/-- `iDiff`: what the comparison gives is kept in an `int`. -/
def diff (k : Key) (r : Record) : Int := narrow (o.comp k r)

end TreeOrder

section Insert

variable {Key Record : Type} (o : TreeOrder Key Record) (malloc : TreeMem Record → Option Nat)

/-- `Alloc`: a node with one record. -/
def CTtreeNode.alloc (mem : TreeMem Record) (record : Record) : Option (Nat × TreeMem Record) :=
  (malloc mem).map fun h => (h, mem.set h { items := [record], nonempty := List.cons_ne_nil _ _ })

/-- What `Insert` does when the left branch has grown: the balance, or a turn. -/
def CTtreeNode.leftGrown (mem : TreeMem Record) (hNode hLeft : Nat) : Option (Int × TreeMem Record × Nat) := do
  let node ← mem hNode
  if node.balance > 0 then some (0, mem.set hNode { node with balance := 0 }, hNode)
  else if node.balance = 0 then some (1, mem.set hNode { node with balance := -1 }, hNode)
  else
    let left ← mem hLeft
    if left.balance < 0 then
      let mem := mem.modify hNode fun n => { n with hLeft := left.hRight, balance := 0 }
      some (0, mem.modify hLeft fun n => { n with hRight := hNode, balance := 0 }, hLeft)
    else
      let hRight := left.hRight
      let right ← mem hRight
      let mem := mem.modify hLeft fun n =>
        { n with hRight := right.hLeft, balance := if right.balance > 0 then -1 else 0 }
      let mem := mem.modify hNode fun n =>
        { n with hLeft := right.hRight, balance := if right.balance < 0 then 1 else 0 }
      some (0, mem.modify hRight fun n => { n with hLeft := hLeft, hRight := hNode, balance := 0 }, hRight)

def CTtreeNode.rightGrown (mem : TreeMem Record) (hNode hRight : Nat) : Option (Int × TreeMem Record × Nat) := do
  let node ← mem hNode
  if node.balance < 0 then some (0, mem.set hNode { node with balance := 0 }, hNode)
  else if node.balance = 0 then some (1, mem.set hNode { node with balance := 1 }, hNode)
  else
    let right ← mem hRight
    if right.balance > 0 then
      let mem := mem.modify hNode fun n => { n with hRight := right.hLeft, balance := 0 }
      some (0, mem.modify hRight fun n => { n with hLeft := hNode, balance := 0 }, hRight)
    else
      let hLeft := right.hLeft
      let left ← mem hLeft
      let mem := mem.modify hRight fun n =>
        { n with hLeft := left.hRight, balance := if left.balance < 0 then 1 else 0 }
      let mem := mem.modify hNode fun n =>
        { n with hRight := left.hLeft, balance := if left.balance > 0 then -1 else 0 }
      some (0, mem.modify hLeft fun n => { n with hRight := hRight, hLeft := hNode, balance := 0 }, hLeft)

/-- The search between the first and the last record: where the key belongs, `none` if it is there already. -/
def CTtreeNode.searchItems (node : CTtreeNode Record) (key : Key) (iLeft iRight : Nat) : Option Nat :=
  if iLeft < iRight then
    let i := (iLeft + iRight) / 2
    let iDiff := o.diff key (node.items.getD i node.first)
    if iDiff = 0 then none
    else if iDiff > 0 then searchItems node key (i + 1) iRight
    else searchItems node key iLeft i
  else some iRight
termination_by iRight - iLeft

/-- A full node takes a record at a place inside: the record that leaves it and the records it has then. -/
def CTtreeNode.displace (node : CTtreeNode Record) (iRight : Nat) (record : Record) : Record × List Record :=
  if node.balance ≥ 0 then
    (node.first, (node.items.take iRight).tail ++ record :: node.items.drop iRight)
  else (node.last, node.items.take iRight ++ record :: (node.items.drop iRight).dropLast)

theorem CTtreeNode.displace_nonempty (node : CTtreeNode Record) (iRight : Nat) (record : Record) :
    (node.displace iRight record).2 ≠ [] := by
  unfold displace
  split <;> simp

/-- `_CTtreeNode::Insert`: the code, the nodes and the root of the subtree.  The recursion goes down a branch, or once
more into the node whose record was displaced; `fuel` bounds it. -/
def CTtreeNode.insert : Nat → TreeMem Record → Nat → Key → Record → Option (Int × TreeMem Record × Nat)
  | 0, _, _, _, _ => none
  | fuel + 1, mem, hNode, key, record => do
    let node ← mem hNode
    let iDiff := o.diff key node.first
    if iDiff = 0 then some (-2, mem, hNode)
    else if iDiff < 0 then
      if node.hLeft = invalidHandle ∧ node.items.length < pageSize then
        some (0, mem.set hNode (node.withItems (record :: node.items) (List.cons_ne_nil _ _)), hNode)
      else if node.hLeft = invalidHandle then
        match CTtreeNode.alloc malloc mem record with
        | none => some (-1, mem, hNode)
        | some (hLeft, mem) => CTtreeNode.leftGrown (mem.modify hNode fun n => { n with hLeft := hLeft }) hNode hLeft
      else
        let (iGrow, mem, hChild) ← insert fuel mem node.hLeft key record
        if iGrow < 0 then some (iGrow, mem, hNode)
        else
          let mem := mem.modify hNode fun n => { n with hLeft := hChild }
          if iGrow = 0 then some (0, mem, hNode) else CTtreeNode.leftGrown mem hNode hChild
    else
      let iDiff := o.diff key node.last
      if iDiff = 0 then some (-2, mem, hNode)
      else if iDiff > 0 then
        if node.hRight = invalidHandle ∧ node.items.length < pageSize then
          some (0, mem.set hNode (node.withItems (node.items ++ [record]) (by simp)), hNode)
        else if node.hRight = invalidHandle then
          match CTtreeNode.alloc malloc mem record with
          | none => some (-1, mem, hNode)
          | some (hRight, mem) =>
            CTtreeNode.rightGrown (mem.modify hNode fun n => { n with hRight := hRight }) hNode hRight
        else
          let (iGrow, mem, hChild) ← insert fuel mem node.hRight key record
          if iGrow < 0 then some (iGrow, mem, hNode)
          else
            let mem := mem.modify hNode fun n => { n with hRight := hChild }
            if iGrow = 0 then some (0, mem, hNode) else CTtreeNode.rightGrown mem hNode hChild
      else
        match node.searchItems o key 1 (node.items.length - 1) with
        | none => some (-2, mem, hNode)
        | some iRight =>
          if node.items.length < pageSize then
            some (0, mem.set hNode (node.withItems (node.items.take iRight ++ record :: node.items.drop iRight) (by simp)),
              hNode)
          else
            let hReInsert := (node.displace iRight record).1
            let mem := mem.set hNode (node.withItems (node.displace iRight record).2 (node.displace_nonempty iRight record))
            let (iRet, mem, hRoot) ← insert fuel mem hNode (o.key hReInsert) hReInsert
            if iRet < 0 then
              -- the array gets its backup, the node's other members stay
              some (iRet, mem.modify hNode fun n => n.withItems node.items node.nonempty, hRoot)
            else some (iRet, mem, hRoot)

/-- `CTtree::Insert`: the code, the nodes and `m_hRoot`. -/
def CTtree.insert (fuel : Nat) (mem : TreeMem Record) (hRoot : Nat) (key : Key) (record : Record) :
    Option (Int × TreeMem Record × Nat) :=
  if hRoot = invalidHandle then
    match CTtreeNode.alloc malloc mem record with
    | none => some (ecNoMem, mem, hRoot)
    | some (hNode, mem) => some (0, mem, hNode)
  else do
    let (iRet, mem, hNode) ← CTtreeNode.insert o malloc fuel mem hRoot key record
    if iRet = -2 then some (ecKeyExist, mem, hRoot)
    else if iRet = -1 then some (ecNoMem, mem, hRoot)
    else if iRet < 0 then some (-1, mem, hRoot)
    else some (0, mem, hNode)

end Insert

/-! ## An insertion that fails leaves the tree alone -/

section Atomic

variable {Key Record : Type} {o : TreeOrder Key Record} {malloc : TreeMem Record → Option Nat}

theorem CTtreeNode.leftGrown_code {mem mem' : TreeMem Record} {hNode hLeft hRoot : Nat} {iRet : Int}
    (h : CTtreeNode.leftGrown mem hNode hLeft = some (iRet, mem', hRoot)) : 0 ≤ iRet := by
  unfold leftGrown at h
  obtain ⟨node, -, h⟩ := Option.bind_eq_some_iff.mp h
  split at h
  · cases h
    exact Int.le_refl 0
  · split at h
    · cases h
      decide
    · obtain ⟨left, -, h⟩ := Option.bind_eq_some_iff.mp h
      split at h
      · cases h
        exact Int.le_refl 0
      · obtain ⟨right, -, h⟩ := Option.bind_eq_some_iff.mp h
        cases h
        exact Int.le_refl 0

theorem CTtreeNode.rightGrown_code {mem mem' : TreeMem Record} {hNode hRight hRoot : Nat} {iRet : Int}
    (h : CTtreeNode.rightGrown mem hNode hRight = some (iRet, mem', hRoot)) : 0 ≤ iRet := by
  unfold rightGrown at h
  obtain ⟨node, -, h⟩ := Option.bind_eq_some_iff.mp h
  split at h
  · cases h
    exact Int.le_refl 0
  · split at h
    · cases h
      decide
    · obtain ⟨right, -, h⟩ := Option.bind_eq_some_iff.mp h
      split at h
      · cases h
        exact Int.le_refl 0
      · obtain ⟨left, -, h⟩ := Option.bind_eq_some_iff.mp h
        cases h
        exact Int.le_refl 0

theorem TreeMem.restore {mem : TreeMem Record} {h : Nat} {node : CTtreeNode Record} (hn : mem h = some node)
    (items : List Record) (hne : items ≠ []) :
    ((mem.set h (node.withItems items hne)).modify h fun n => n.withItems node.items node.nonempty) = mem := by
  rw [modify_set]
  exact set_self hn

theorem CTtreeNode.insert_failed : ∀ (fuel : Nat) {mem mem' : TreeMem Record} {hNode hRoot : Nat} {key : Key}
    {record : Record} {iRet : Int}, CTtreeNode.insert o malloc fuel mem hNode key record = some (iRet, mem', hRoot) →
    iRet < 0 → mem' = mem ∧ hRoot = hNode
  | 0, _, _, _, _, _, _, _, h, _ => by cases h
  | fuel + 1, mem, mem', hNode, hRoot, key, record, iRet, h, hneg => by
    unfold insert at h
    obtain ⟨node, hnode, h⟩ := Option.bind_eq_some_iff.mp h
    dsimp only at h
    split at h
    · cases h
      exact ⟨rfl, rfl⟩
    split at h
    -- the left branch
    · split at h
      · cases h
        exact absurd hneg (by decide)
      split at h
      · split at h
        · cases h
          exact ⟨rfl, rfl⟩
        · exact absurd (leftGrown_code h) (by omega)
      obtain ⟨⟨iGrow, mem₁, hChild⟩, hrec, h⟩ := Option.bind_eq_some_iff.mp h
      dsimp only at h
      split at h
      · cases h
        exact ⟨(insert_failed fuel hrec hneg).1, rfl⟩
      split at h
      · cases h
        exact absurd hneg (by decide)
      · exact absurd (leftGrown_code h) (by omega)
    split at h
    · cases h
      exact ⟨rfl, rfl⟩
    split at h
    -- the right branch
    · split at h
      · cases h
        exact absurd hneg (by decide)
      split at h
      · split at h
        · cases h
          exact ⟨rfl, rfl⟩
        · exact absurd (rightGrown_code h) (by omega)
      obtain ⟨⟨iGrow, mem₁, hChild⟩, hrec, h⟩ := Option.bind_eq_some_iff.mp h
      dsimp only at h
      split at h
      · cases h
        exact ⟨(insert_failed fuel hrec hneg).1, rfl⟩
      split at h
      · cases h
        exact absurd hneg (by decide)
      · exact absurd (rightGrown_code h) (by omega)
    -- the node itself
    split at h
    · cases h
      exact ⟨rfl, rfl⟩
    split at h
    · cases h
      exact absurd hneg (by decide)
    obtain ⟨⟨iGrow, mem₁, hChild⟩, hrec, h⟩ := Option.bind_eq_some_iff.mp h
    dsimp only at h
    split at h
    · next hlt =>
      obtain ⟨rfl, rfl⟩ := insert_failed fuel hrec hlt
      cases h
      exact ⟨TreeMem.restore hnode _ _, rfl⟩
    · next hge =>
      cases h
      exact absurd hneg hge

/-- **An insertion that finds no room for a node leaves the tree alone**: every node, with its records, their order and
its balance, and the root. -/
theorem CTtree.insert_noMem (o : TreeOrder Key Record) (malloc : TreeMem Record → Option Nat) (fuel : Nat)
    (mem mem' : TreeMem Record) (hRoot hRoot' : Nat) (key : Key) (record : Record)
    (h : CTtree.insert o malloc fuel mem hRoot key record = some (ecNoMem, mem', hRoot')) :
    mem' = mem ∧ hRoot' = hRoot := by
  unfold CTtree.insert at h
  split at h
  · split at h
    · cases h
      exact ⟨rfl, rfl⟩
    · exact absurd (Option.some.inj h) (by simp [ecNoMem])
  obtain ⟨⟨iRet, mem₁, hNode⟩, hrec, h⟩ := Option.bind_eq_some_iff.mp h
  dsimp only at h
  split at h
  · exact absurd (Option.some.inj h) (by simp [ecNoMem, ecKeyExist])
  split at h
  · next hret =>
    cases h
    exact ⟨(CTtreeNode.insert_failed fuel hrec (hret ▸ by decide)).1, rfl⟩
  split at h
  · exact absurd (Option.some.inj h) (by simp [ecNoMem])
  · exact absurd (Option.some.inj h) (by simp [ecNoMem])

def numberOrder : TreeOrder Nat Nat where
  comp k r := BitVec.ofInt 64 ((k : Int) - r)
  key r := r

/-- A full node over a left branch that is full too: the record 21 takes the place of 20, and 20 that of 0. -/
def fullNodes : TreeMem Nat := fun h =>
  if h = 1 then some { hLeft := 2, items := (List.range 20).map (fun i => 20 + 2 * i), nonempty := by decide }
  else if h = 2 then some { items := List.range 20, nonempty := by decide }
  else none

theorem CTtree.insert_noMem_full : ∃ mem' hRoot',
    CTtree.insert numberOrder (fun _ => none) 4 fullNodes 1 21 21 = some (ecNoMem, mem', hRoot') ∧
      mem' = fullNodes ∧ hRoot' = 1 := by
  have hrun : (CTtree.insert numberOrder (fun _ => none) 4 fullNodes 1 21 21).map (fun r => r.1) = some ecNoMem := by
    decide +kernel
  obtain ⟨⟨code, mem', hRoot'⟩, hr, hcode⟩ := Option.map_eq_some_iff.mp hrun
  dsimp only at hcode
  subst hcode
  exact ⟨mem', hRoot', hr, CTtree.insert_noMem numberOrder (fun _ => none) 4 fullNodes mem' 1 hRoot' 21 21 hr⟩

end Atomic

end Dtc
