import DtcServer.KeyRoute
import DtcServer.Machine
import Mathlib.Data.List.Count
import Mathlib.Logic.Function.Basic
/-!
# AgentRing — the agent's ring while servers come and go

A point of the ring belongs to the server with the smallest name that wants it, and the others wait for it, in the order of
their names.
-/
namespace Dtc

/-- A server object: its name, and its number among the objects that were made. -/
abbrev CCacheServer := NodeName × Nat

/-- `CModule` of one thread, with the references to its server objects.  A set of holders is in the order of their names. -/
structure RingModule where
  cacheServers : List (NodeName × CCacheServer) := []
  selector : List (UInt32 × CCacheServer) := []
  duplicateKeys : List (UInt32 × List CCacheServer) := []
  refCnt : Nat → Int := fun _ => 0
  freed : Nat → Bool := fun _ => false
  /-- how many objects were made -/
  made : Nat := 0

namespace RingModule

/-! A holder counts a reference while it lives; one that is copied from another and then destroyed changes nothing. -/

def addRef (m : RingModule) (s : CCacheServer) : RingModule :=
  { m with refCnt := Function.update m.refCnt s.2 (m.refCnt s.2 + 1) }

def release (m : RingModule) (s : CCacheServer) : RingModule :=
  { m with refCnt := Function.update m.refCnt s.2 (m.refCnt s.2 - 1) }

/-- `m_selector[hash] = holder` -/
def setSelector (m : RingModule) (hash : UInt32) (s : CCacheServer) : RingModule :=
  let m' := { m.addRef s with selector := HashRing.insert hash s m.selector }
  match HashRing.find hash m.selector with
  | some old => m'.release old
  | none => m'

/-- `m_duplicateKeys[hash].insert(holder)`: a name that is in the set already is not inserted. -/
def insertDuplicate (m : RingModule) (hash : UInt32) (s : CCacheServer) : RingModule :=
  let set := (HashRing.find hash m.duplicateKeys).getD []
  match HashRing.find s.1 set with
  | some _ => m
  | none => { m.addRef s with
      duplicateKeys := HashRing.insert hash (HashRing.insert s.1 s.2 set) m.duplicateKeys }

/-- The first of the servers that wait for a point is taken out of its set. -/
def eraseDuplicate (m : RingModule) (hash : UInt32) (first : CCacheServer) (rest : List CCacheServer) : RingModule :=
  { m.release first with
    duplicateKeys := if rest = [] then HashRing.erase hash m.duplicateKeys else HashRing.insert hash rest m.duplicateKeys }

/-- The point that its server has left goes to the first that waits for it. -/
def promote (m : RingModule) (point : UInt32) : RingModule :=
  match HashRing.find point m.duplicateKeys with
  | some (first :: rest) => (m.setSelector point first).eraseDuplicate point first rest
  | _ => m

variable (hash : NodeName → Nat → UInt32)

def addVirtualNode (m : RingModule) (name : NodeName) (virtualNode : Nat) : RingModule :=
  match m.cacheServers.lookup name with
  -- not so: `AddCacheServer` has just set it
  | none => m
  | some s =>
    let point := hash name virtualNode
    match HashRing.find point m.selector with
    | some first =>
      if first.1 < name then m.insertDuplicate point s
      else (m.insertDuplicate point first).setSelector point s
    | none => m.setSelector point s

def removeVirtualNode (m : RingModule) (name : NodeName) (virtualNode : Nat) : RingModule :=
  let point := hash name virtualNode
  match HashRing.find point m.selector with
  | none => m
  | some s =>
    let m : RingModule := { m.release s with selector := HashRing.erase point m.selector }
    let m := m.promote point
    if m.refCnt s.2 = 0 then { m with
      freed := Function.update m.freed s.2 true
      cacheServers := m.cacheServers.filter (fun x => x.1 ≠ s.1) }
    else m

/-- The virtual nodes that are meant: all of them (`ADMIN_ALL_POINTERS`), one, or none when there is no such one. -/
def virtualNodes (virtualNode : Int) : List Nat :=
  if virtualNode = -1 then List.range virtualNodeCount
  else if virtualNode < 0 ∨ virtualNodeCount ≤ virtualNode then []
  else [virtualNode.toNat]

/-- `AddCacheServer` and `RemoveCacheServer` fail with the same test. -/
def rejects (virtualNode : Int) : Bool := virtualNode ≠ -1 ∧ (virtualNode < 0 ∨ virtualNodeCount ≤ virtualNode)

def newServer (m : RingModule) (name : NodeName) : RingModule :=
  { m with
    cacheServers := (name, (name, m.made)) :: m.cacheServers.filter (fun x => x.1 ≠ name)
    refCnt := Function.update m.refCnt m.made 0
    made := m.made + 1 }

def addCacheServer (m : RingModule) (name : NodeName) (virtualNode : Int) : RingModule × Bool :=
  ((virtualNodes virtualNode).foldl (fun m i => m.addVirtualNode hash name i) (m.newServer name), rejects virtualNode)

def removeCacheServer (m : RingModule) (name : NodeName) (virtualNode : Int) : RingModule × Bool :=
  ((virtualNodes virtualNode).foldl (fun m i => m.removeVirtualNode hash name i) m, rejects virtualNode)

def route (m : RingModule) (key : UInt32) : Option CCacheServer := HashRing.select key m.selector

/-! ## Queues and references -/

def waiting (m : RingModule) (point : UInt32) : List CCacheServer := (HashRing.find point m.duplicateKeys).getD []

/-- The names of the servers of a point, the one that has it first. -/
def names (m : RingModule) (point : UInt32) : List NodeName :=
  ((HashRing.find point m.selector).toList ++ m.waiting point).map Prod.fst

/-- The servers that the ring refers to, with a place for each reference. -/
def holders (m : RingModule) : List CCacheServer := m.selector.map Prod.snd ++ (m.duplicateKeys.map Prod.snd).flatten

def refsIn (l : List CCacheServer) (id : Nat) : Nat := (l.map Prod.snd).count id

def refs (m : RingModule) (id : Nat) : Nat := refsIn m.holders id

/-- What is so in every state: the maps are in order, the reference counts are those of the holders, no holder's object is
freed, a point that nobody has is waited for by nobody, and the servers of a point stand in the order of their names. -/
structure Sound (m : RingModule) : Prop where
  selector : HashRing.Sorted m.selector
  duplicateKeys : HashRing.Sorted m.duplicateKeys
  counted : ∀ id, m.refCnt id = m.refs id
  alive : ∀ id, 0 < m.refs id → id < m.made ∧ m.freed id = false
  owned : ∀ point, HashRing.find point m.selector = none → m.waiting point = []
  ordered : ∀ point, (m.names point).Pairwise (· < ·)

/-! ### References -/

section

variable (s : CCacheServer) (l l' : List CCacheServer) (id : Nat)

theorem refsIn_cons : refsIn (s :: l) id = refsIn l id + refsIn [s] id := by
  unfold refsIn
  rw [List.map_cons, List.count_cons, List.map_singleton, List.count_singleton]

theorem refsIn_append : refsIn (l ++ l') id = refsIn l id + refsIn l' id := by
  unfold refsIn
  rw [List.map_append, List.count_append]

end

theorem refsIn_perm {l l' : List CCacheServer} (h : l.Perm l') (id : Nat) : refsIn l id = refsIn l' id :=
  (h.map Prod.snd).count_eq id

theorem refsIn_pos {s : CCacheServer} {l : List CCacheServer} (h : s ∈ l) : 0 < refsIn l s.2 :=
  List.count_pos_iff.mpr (List.mem_map_of_mem h)

theorem exists_of_refsIn_pos {l : List CCacheServer} {id : Nat} (h : 0 < refsIn l id) : ∃ s ∈ l, s.2 = id :=
  List.mem_map.mp (List.count_pos_iff.mp h)

def setRefs (sets : List (UInt32 × List CCacheServer)) (id : Nat) : Nat := refsIn (sets.map Prod.snd).flatten id

section

variable (point : UInt32) (set : List CCacheServer) (sets : List (UInt32 × List CCacheServer)) (id : Nat)

theorem setRefs_erase :
    setRefs (HashRing.erase point sets) id + refsIn ((HashRing.find point sets).getD []) id = setRefs sets id := by
  cases hf : HashRing.find point sets with
  | none =>
    rw [HashRing.erase_of_none hf]
    exact Nat.add_zero _
  | some set =>
    have h := refsIn_perm ((HashRing.perm_of_find hf).map Prod.snd).flatten id
    rw [List.map_cons, List.flatten_cons, refsIn_append, Nat.add_comm] at h
    exact h.symm

theorem setRefs_insert : setRefs (HashRing.insert point set sets) id + refsIn ((HashRing.find point sets).getD []) id =
    setRefs sets id + refsIn set id := by
  have h := refsIn_perm ((HashRing.insert_perm point set sets).map Prod.snd).flatten id
  rw [List.map_cons, List.flatten_cons, refsIn_append] at h
  have he := setRefs_erase point sets id
  unfold setRefs at he ⊢
  dsimp only at h
  omega

theorem selectorRefs_erase (selector : List (UInt32 × CCacheServer)) :
    refsIn ((HashRing.erase point selector).map Prod.snd) id + refsIn (HashRing.find point selector).toList id =
      refsIn (selector.map Prod.snd) id := by
  cases hf : HashRing.find point selector with
  | none =>
    rw [HashRing.erase_of_none hf]
    exact Nat.add_zero _
  | some s =>
    have h := refsIn_perm ((HashRing.perm_of_find hf).map Prod.snd) id
    rw [List.map_cons, refsIn_cons] at h
    exact h.symm

theorem selectorRefs_insert (s : CCacheServer) (selector : List (UInt32 × CCacheServer)) :
    refsIn ((HashRing.insert point s selector).map Prod.snd) id + refsIn (HashRing.find point selector).toList id =
      refsIn (selector.map Prod.snd) id + refsIn [s] id := by
  have h := refsIn_perm ((HashRing.insert_perm point s selector).map Prod.snd) id
  rw [List.map_cons, refsIn_cons] at h
  have he := selectorRefs_erase point id selector
  dsimp only at h
  omega

end

variable {m : RingModule} {point : UInt32} {s first : CCacheServer} {rest : List CCacheServer}

theorem refs_eq (m : RingModule) (id : Nat) :
    m.refs id = refsIn (m.selector.map Prod.snd) id + setRefs m.duplicateKeys id :=
  refsIn_append _ _ _

theorem addRef_refCnt (m : RingModule) (s : CCacheServer) (id : Nat) :
    (m.addRef s).refCnt id = m.refCnt id + refsIn [s] id := by
  unfold addRef refsIn
  rw [List.map_singleton, List.count_singleton]
  dsimp only
  by_cases h : s.2 = id
  · rw [if_pos (beq_iff_eq.mpr h), ← h, Function.update_self]
    rfl
  · rw [if_neg (fun he => h (beq_iff_eq.mp he)), Function.update_of_ne (Ne.symm h)]
    exact (Int.add_zero _).symm

theorem release_refCnt (m : RingModule) (s : CCacheServer) (id : Nat) :
    (m.release s).refCnt id = m.refCnt id - refsIn [s] id := by
  unfold release refsIn
  rw [List.map_singleton, List.count_singleton]
  dsimp only
  by_cases h : s.2 = id
  · rw [if_pos (beq_iff_eq.mpr h), ← h, Function.update_self]
    rfl
  · rw [if_neg (fun he => h (beq_iff_eq.mp he)), Function.update_of_ne (Ne.symm h)]
    exact (Int.sub_zero _).symm

/-! ### What the steps on a point do -/

section

variable (m point s)

theorem setSelector_fields : (m.setSelector point s).selector = HashRing.insert point s m.selector ∧
    (m.setSelector point s).duplicateKeys = m.duplicateKeys ∧ (m.setSelector point s).freed = m.freed ∧
      (m.setSelector point s).made = m.made ∧ (m.setSelector point s).cacheServers = m.cacheServers := by
  unfold setSelector
  cases HashRing.find point m.selector with
  | none => exact ⟨rfl, rfl, rfl, rfl, rfl⟩
  | some old => exact ⟨rfl, rfl, rfl, rfl, rfl⟩

theorem setSelector_refs (id : Nat) : (m.setSelector point s).refs id + refsIn (HashRing.find point m.selector).toList id =
    m.refs id + refsIn [s] id := by
  obtain ⟨hsel, hdup, -⟩ := setSelector_fields m point s
  have h := selectorRefs_insert point id s m.selector
  rw [refs_eq, refs_eq, hsel, hdup]
  omega

theorem setSelector_refCnt (id : Nat) : (m.setSelector point s).refCnt id +
    (refsIn (HashRing.find point m.selector).toList id : Nat) = m.refCnt id + refsIn [s] id := by
  unfold setSelector
  have h1 := addRef_refCnt m s id
  cases HashRing.find point m.selector with
  | none => exact (Int.add_zero _).trans h1
  | some old =>
    have h2 := release_refCnt { m.addRef s with selector := HashRing.insert point s m.selector } old id
    dsimp only at h1 h2 ⊢
    rw [h2, h1]
    exact Int.sub_add_cancel _ _

theorem setSelector_counted (h : ∀ id, m.refCnt id = m.refs id) (id : Nat) :
    (m.setSelector point s).refCnt id = (m.setSelector point s).refs id := by
  have h1 := setSelector_refs m point s id
  have h2 := setSelector_refCnt m point s id
  have h3 := h id
  omega

theorem setSelector_find (h : HashRing.Sorted m.selector) (k : UInt32) :
    HashRing.find k (m.setSelector point s).selector = if k = point then some s else HashRing.find k m.selector := by
  rw [(setSelector_fields m point s).1, HashRing.find_insert _ _ _ h]

theorem setSelector_waiting (k : UInt32) : (m.setSelector point s).waiting k = m.waiting k := by
  unfold waiting
  rw [(setSelector_fields m point s).2.1]

theorem insertDuplicate_new (hnew : HashRing.find s.1 (m.waiting point) = none) :
    m.insertDuplicate point s = { m.addRef s with
      duplicateKeys := HashRing.insert point (HashRing.insert s.1 s.2 (m.waiting point)) m.duplicateKeys } := by
  unfold insertDuplicate
  dsimp only
  change (match HashRing.find s.1 (m.waiting point) with
    | some _ => m
    | none => _) = _
  rw [hnew]
  rfl

theorem insertDuplicate_refs (hnew : HashRing.find s.1 (m.waiting point) = none) (id : Nat) :
    (m.insertDuplicate point s).refs id = m.refs id + refsIn [s] id := by
  have hset := refsIn_perm (HashRing.insert_perm s.1 s.2 (m.waiting point)) id
  rw [refsIn_cons, HashRing.erase_of_none hnew] at hset
  have h := setRefs_insert point (HashRing.insert s.1 s.2 (m.waiting point)) m.duplicateKeys id
  rw [insertDuplicate_new m point s hnew, refs_eq, refs_eq]
  change _ = _ + refsIn [s] id at hset
  change _ + refsIn (m.waiting point) id = _ at h
  change refsIn (m.selector.map Prod.snd) id + setRefs (HashRing.insert point _ m.duplicateKeys) id = _
  omega

theorem insertDuplicate_counted (hnew : HashRing.find s.1 (m.waiting point) = none) (h : ∀ id, m.refCnt id = m.refs id)
    (id : Nat) : (m.insertDuplicate point s).refCnt id = (m.insertDuplicate point s).refs id := by
  rw [insertDuplicate_refs m point s hnew, insertDuplicate_new m point s hnew]
  show (m.addRef s).refCnt id = _
  rw [addRef_refCnt, h, Int.natCast_add]

theorem insertDuplicate_waiting (h : HashRing.Sorted m.duplicateKeys) (hnew : HashRing.find s.1 (m.waiting point) = none)
    (k : UInt32) : (m.insertDuplicate point s).waiting k =
      if k = point then HashRing.insert s.1 s.2 (m.waiting point) else m.waiting k := by
  rw [insertDuplicate_new m point s hnew]
  unfold waiting
  dsimp only
  rw [HashRing.find_insert _ _ _ h]
  split <;> rfl

theorem eraseDuplicate_refs (hfind : HashRing.find point m.duplicateKeys = some (first :: rest)) (id : Nat) :
    (m.eraseDuplicate point first rest).refs id + refsIn [first] id = m.refs id := by
  have hset := refsIn_cons first rest id
  rw [refs_eq, refs_eq]
  unfold eraseDuplicate
  dsimp only
  change refsIn (m.selector.map Prod.snd) id + _ + _ = _
  split
  · rename_i hrest
    have h := setRefs_erase point m.duplicateKeys id
    rw [hfind, Option.getD_some, hrest] at h
    omega
  · have h := setRefs_insert point rest m.duplicateKeys id
    rw [hfind, Option.getD_some] at h
    omega

theorem eraseDuplicate_counted (hfind : HashRing.find point m.duplicateKeys = some (first :: rest))
    (h : ∀ id, m.refCnt id = m.refs id) (id : Nat) :
    (m.eraseDuplicate point first rest).refCnt id = (m.eraseDuplicate point first rest).refs id := by
  have h1 := eraseDuplicate_refs m point hfind id
  have h2 := release_refCnt m first id
  have h3 := h id
  change (m.release first).refCnt id = _
  omega

theorem eraseDuplicate_waiting (h : HashRing.Sorted m.duplicateKeys) (k : UInt32) :
    (m.eraseDuplicate point first rest).waiting k = if k = point then rest else m.waiting k := by
  unfold eraseDuplicate waiting
  dsimp only
  split
  · rename_i hrest
    rw [HashRing.find_erase _ _ h, hrest]
    split <;> rfl
  · rw [HashRing.find_insert _ _ _ h]
    split <;> rfl

end

/-! ### Adding and removing one virtual node -/

theorem names_eq {k : UInt32} {o : Option CCacheServer} {l : List CCacheServer} (hsel : HashRing.find k m.selector = o)
    (hw : m.waiting k = l) : m.names k = (o.toList ++ l).map Prod.fst := by
  unfold names
  rw [hsel, hw]

theorem find_waiting_none {l : List CCacheServer} {name : NodeName} (h : name ∉ l.map Prod.fst) : HashRing.find name l = none := by
  cases hf : HashRing.find name l with
  | none => rfl
  | some id =>
    have hmem := (HashRing.perm_of_find hf).mem_iff.mpr List.mem_cons_self
    exact absurd (List.mem_map.mpr ⟨_, hmem, rfl⟩) h

theorem insert_names {l : List CCacheServer} (hl : (l.map Prod.fst).Pairwise (· < ·)) (h : s.1 ∉ l.map Prod.fst) :
    ((HashRing.insert s.1 s.2 l).map Prod.fst).Perm (s.1 :: l.map Prod.fst) ∧
      ((HashRing.insert s.1 s.2 l).map Prod.fst).Pairwise (· < ·) := by
  have hp := (HashRing.insert_perm s.1 s.2 l).map Prod.fst
  rw [HashRing.erase_of_none (find_waiting_none h)] at hp
  exact ⟨hp, List.pairwise_map.mpr (HashRing.sorted_insert _ _ (List.pairwise_map.mp hl))⟩

/-- A server gets a place at a point, and its object a reference. -/
structure Gains (m m' : RingModule) (s : CCacheServer) (point : UInt32) : Prop where
  sound : m'.Sound
  names : ∀ k, (m'.names k).Perm (if k = point then s.1 :: m.names k else m.names k)
  refs : ∀ id, m'.refs id = m.refs id + refsIn [s] id
  freed : m'.freed = m.freed
  made : m'.made = m.made
  cacheServers : m'.cacheServers = m.cacheServers

theorem alive_of_refs (h : m.Sound) (hmade : s.2 < m.made) (hfreed : m.freed s.2 = false) {id : Nat}
    (hpos : 0 < m.refs id + refsIn [s] id) : id < m.made ∧ m.freed id = false := by
  rcases Nat.eq_zero_or_pos (m.refs id) with h0 | h0
  · have hone : 0 < refsIn [s] id := by omega
    obtain ⟨s', hs', rfl⟩ := exists_of_refsIn_pos hone
    obtain rfl := List.mem_singleton.mp hs'
    exact ⟨hmade, hfreed⟩
  · exact h.alive id h0

theorem gains_free (h : m.Sound) (hmade : s.2 < m.made) (hfreed : m.freed s.2 = false)
    (hf : HashRing.find point m.selector = none) : Gains m (m.setSelector point s) s point := by
  have hw := h.owned point hf
  obtain ⟨hsel, hdup, hfr, hmd, hcs⟩ := setSelector_fields m point s
  have hrefs : ∀ id, (m.setSelector point s).refs id = m.refs id + refsIn [s] id := by
    intro id
    have hr := setSelector_refs m point s id
    rw [hf] at hr
    exact hr
  have hnames : ∀ k, (m.setSelector point s).names k = if k = point then s.1 :: m.names k else m.names k := by
    intro k
    rw [names_eq (setSelector_find m point s h.selector k) (setSelector_waiting m point s k)]
    by_cases hk : k = point
    · rw [if_pos hk, if_pos hk, hk, names_eq hf hw, hw]
      rfl
    · rw [if_neg hk, if_neg hk]
      rfl
  refine ⟨⟨?_, ?_, setSelector_counted m point s h.counted, ?_, ?_, ?_⟩, fun k => ?_, hrefs, hfr, hmd, hcs⟩
  · rw [hsel]
    exact HashRing.sorted_insert _ _ h.selector
  · rw [hdup]
    exact h.duplicateKeys
  · intro id hpos
    rw [hfr, hmd]
    exact alive_of_refs h hmade hfreed (hrefs id ▸ hpos)
  · intro k hk
    rw [setSelector_find m point s h.selector] at hk
    split at hk
    · cases hk
    · rw [setSelector_waiting]
      exact h.owned k hk
  · intro k
    rw [hnames]
    split
    · rename_i hk
      rw [hk, names_eq hf hw]
      exact List.pairwise_singleton _ _
    · exact h.ordered k
  · rw [hnames]

theorem gains_waits (h : m.Sound) (hmade : s.2 < m.made) (hfreed : m.freed s.2 = false)
    (hf : HashRing.find point m.selector = some first) (hlt : first.1 < s.1) (hnew : s.1 ∉ (m.waiting point).map Prod.fst) :
    Gains m (m.insertDuplicate point s) s point := by
  have hnm := names_eq hf (rfl : m.waiting point = m.waiting point)
  have hord := h.ordered point
  rw [hnm] at hord
  obtain ⟨hfirst, hwait⟩ := List.pairwise_cons.mp hord
  have hnone := find_waiting_none hnew
  obtain ⟨hperm, hsorted⟩ := insert_names hwait hnew
  have hrefs := insertDuplicate_refs m point s hnone
  have hwaiting := insertDuplicate_waiting m point s h.duplicateKeys hnone
  have heq := insertDuplicate_new m point s hnone
  have hsel : (m.insertDuplicate point s).selector = m.selector := by
    rw [heq]
    rfl
  have hnames : ∀ k, (m.insertDuplicate point s).names k = if k = point then
      first.1 :: (HashRing.insert s.1 s.2 (m.waiting point)).map Prod.fst else m.names k := by
    intro k
    rw [names_eq rfl (hwaiting k), hsel]
    by_cases hk : k = point
    · rw [if_pos hk, if_pos hk, hk, hf]
      rfl
    · rw [if_neg hk, if_neg hk]
      rfl
  refine ⟨⟨?_, ?_, insertDuplicate_counted m point s hnone h.counted, ?_, ?_, ?_⟩, fun k => ?_, hrefs, ?_, ?_, ?_⟩
  · rw [hsel]
    exact h.selector
  · rw [heq]
    exact HashRing.sorted_insert _ _ h.duplicateKeys
  · intro id hpos
    rw [hrefs] at hpos
    rw [heq]
    exact alive_of_refs h hmade hfreed hpos
  · intro k hk
    rw [hsel] at hk
    rw [hwaiting]
    split
    · rename_i hkp
      rw [hkp, hf] at hk
      cases hk
    · exact h.owned k hk
  · intro k
    rw [hnames]
    split
    · refine List.pairwise_cons.mpr ⟨fun n hn => ?_, hsorted⟩
      rcases List.mem_cons.mp (hperm.mem_iff.mp hn) with rfl | hn
      · exact hlt
      · exact hfirst n hn
    · exact h.ordered k
  · rw [hnames]
    split
    · rename_i hk
      rw [hk, hnm]
      exact (hperm.cons _).trans (List.Perm.swap _ _ _)
    · exact List.Perm.refl _
  · rw [heq]
    rfl
  · rw [heq]
    rfl
  · rw [heq]
    rfl

theorem gains_takes (h : m.Sound) (hmade : s.2 < m.made) (hfreed : m.freed s.2 = false)
    (hf : HashRing.find point m.selector = some first) (hgt : s.1 < first.1) :
    Gains m ((m.insertDuplicate point first).setSelector point s) s point := by
  have hnm := names_eq hf (rfl : m.waiting point = m.waiting point)
  have hord := h.ordered point
  rw [hnm] at hord
  obtain ⟨hfirst, hwait⟩ := List.pairwise_cons.mp hord
  have hfirstnot : first.1 ∉ (m.waiting point).map Prod.fst := fun hm => Std.lt_irrefl (hfirst _ hm)
  have hnone := find_waiting_none hfirstnot
  obtain ⟨hperm, hsorted⟩ := insert_names hwait hfirstnot
  have heq := insertDuplicate_new m point first hnone
  have hsel₁ : (m.insertDuplicate point first).selector = m.selector := by
    rw [heq]
    rfl
  have hsorted₁ : HashRing.Sorted (m.insertDuplicate point first).selector := hsel₁ ▸ h.selector
  have hfind₁ : HashRing.find point (m.insertDuplicate point first).selector = some first := by rw [hsel₁, hf]
  obtain ⟨hsel, hdup, hfr, hmd, hcs⟩ := setSelector_fields (m.insertDuplicate point first) point s
  have hrefs : ∀ id, ((m.insertDuplicate point first).setSelector point s).refs id = m.refs id + refsIn [s] id := by
    intro id
    have h1 := setSelector_refs (m.insertDuplicate point first) point s id
    have h2 := insertDuplicate_refs m point first hnone id
    rw [hfind₁] at h1
    change _ + refsIn [first] id = _ at h1
    omega
  have hwaiting : ∀ k, ((m.insertDuplicate point first).setSelector point s).waiting k =
      if k = point then HashRing.insert first.1 first.2 (m.waiting point) else m.waiting k := by
    intro k
    rw [setSelector_waiting, insertDuplicate_waiting m point first h.duplicateKeys hnone]
  have hfind : ∀ k, HashRing.find k ((m.insertDuplicate point first).setSelector point s).selector =
      if k = point then some s else HashRing.find k m.selector := by
    intro k
    rw [setSelector_find _ _ _ hsorted₁, hsel₁]
  have hnames : ∀ k, ((m.insertDuplicate point first).setSelector point s).names k = if k = point then
      s.1 :: (HashRing.insert first.1 first.2 (m.waiting point)).map Prod.fst else m.names k := by
    intro k
    rw [names_eq (hfind k) (hwaiting k)]
    by_cases hk : k = point
    · rw [if_pos hk, if_pos hk, if_pos hk]
      rfl
    · rw [if_neg hk, if_neg hk, if_neg hk]
      rfl
  have hcounted := insertDuplicate_counted m point first hnone h.counted
  refine ⟨⟨?_, ?_, setSelector_counted _ point s hcounted, ?_, ?_, ?_⟩, fun k => ?_, hrefs, ?_, ?_, ?_⟩
  · rw [hsel]
    exact HashRing.sorted_insert _ _ hsorted₁
  · rw [hdup, heq]
    exact HashRing.sorted_insert _ _ h.duplicateKeys
  · intro id hpos
    rw [hrefs] at hpos
    rw [hfr, hmd, heq]
    exact alive_of_refs h hmade hfreed hpos
  · intro k hk
    rw [hfind] at hk
    split at hk
    · cases hk
    · rename_i hkp
      rw [hwaiting, if_neg hkp]
      exact h.owned k hk
  · intro k
    rw [hnames]
    split
    · refine List.pairwise_cons.mpr ⟨fun n hn => ?_, hsorted⟩
      rcases List.mem_cons.mp (hperm.mem_iff.mp hn) with rfl | hn
      · exact hgt
      · exact Std.lt_trans hgt (hfirst n hn)
    · exact h.ordered k
  · rw [hnames]
    split
    · rename_i hk
      rw [hk, hnm]
      exact hperm.cons _
    · exact List.Perm.refl _
  · rw [hfr, heq]
    rfl
  · rw [hmd, heq]
    rfl
  · rw [hcs, heq]
    rfl

section

variable (hash : NodeName → Nat → UInt32) {name : NodeName} {i : Nat}

theorem addVirtualNode_spec (h : m.Sound) (hs : m.cacheServers.lookup name = some s) (hname : s.1 = name)
    (hmade : s.2 < m.made) (hfreed : m.freed s.2 = false) (hnew : name ∉ m.names (hash name i)) :
    Gains m (m.addVirtualNode hash name i) s (hash name i) := by
  subst hname
  unfold addVirtualNode
  rw [hs]
  dsimp only
  generalize hash s.1 i = point at hnew
  cases hf : HashRing.find point m.selector with
  | none => exact gains_free h hmade hfreed hf
  | some first =>
    have hnm := names_eq hf (rfl : m.waiting point = m.waiting point)
    rw [hnm] at hnew
    dsimp only
    by_cases hlt : first.1 < s.1
    · rw [if_pos hlt]
      exact gains_waits h hmade hfreed hf hlt (fun hm => hnew (List.mem_cons_of_mem _ hm))
    · rw [if_neg hlt]
      have hne : s.1 ≠ first.1 := fun he => hnew (he ▸ List.mem_cons_self)
      exact gains_takes h hmade hfreed hf (Std.lt_of_le_of_ne (Std.not_lt.mp hlt) hne)

/-- A server loses its place at a point, and its object a reference: without one it is freed. -/
structure Loses (m m' : RingModule) (name : NodeName) (point : UInt32) : Prop where
  sound : m'.Sound
  names : ∀ k, (m.names k).Perm (if k = point then name :: m'.names k else m'.names k)
  refs : ∀ id, m'.refs id ≤ m.refs id
  freed : ∀ id, m'.freed id = true ↔ m.freed id = true ∨ 0 < m.refs id ∧ m'.refs id = 0
  made : m'.made = m.made

theorem left_spec (h : m.Sound) (hf : HashRing.find point m.selector = some s) {m' : RingModule}
    (hsel : HashRing.Sorted m'.selector) (hdup : HashRing.Sorted m'.duplicateKeys)
    (hcounted : ∀ id, m'.refCnt id = m'.refs id) (hrefs : ∀ id, m'.refs id + refsIn [s] id = m.refs id)
    (hfind : ∀ k, HashRing.find k m'.selector = if k = point then (m.waiting point).head? else HashRing.find k m.selector)
    (hwaiting : ∀ k, m'.waiting k = if k = point then (m.waiting point).tail else m.waiting k)
    (hfreed : m'.freed = m.freed) (hmade : m'.made = m.made) :
    Loses m (if m'.refCnt s.2 = 0 then { m' with
      freed := Function.update m'.freed s.2 true
      cacheServers := m'.cacheServers.filter (fun x => x.1 ≠ s.1) }
      else m') s.1 point := by
  have hnames : ∀ k, m'.names k = if k = point then (m.waiting point).map Prod.fst else m.names k := by
    intro k
    rw [names_eq (hfind k) (hwaiting k)]
    by_cases hk : k = point
    · rw [if_pos hk, if_pos hk, if_pos hk]
      cases m.waiting point with
      | nil => rfl
      | cons first rest => rfl
    · rw [if_neg hk, if_neg hk, if_neg hk]
      rfl
  have hnm := names_eq hf (rfl : m.waiting point = m.waiting point)
  have hold : ∀ k, (m.names k).Perm (if k = point then s.1 :: m'.names k else m'.names k) := by
    intro k
    rw [hnames]
    split
    · rename_i hk
      rw [hk, hnm]
      exact List.Perm.refl _
    · exact List.Perm.refl _
  have howned : ∀ k, HashRing.find k m'.selector = none → m'.waiting k = [] := by
    intro k hk
    rw [hfind] at hk
    rw [hwaiting]
    split at hk
    · rename_i hkp
      rw [if_pos hkp, List.head?_eq_none_iff.mp hk]
      rfl
    · rename_i hkp
      rw [if_neg hkp]
      exact h.owned k hk
  have hordered : ∀ k, (m'.names k).Pairwise (· < ·) := by
    intro k
    rw [hnames]
    split
    · have hord := h.ordered point
      rw [hnm] at hord
      exact (List.pairwise_cons.mp hord).2
    · exact h.ordered k
  have halive : ∀ id, 0 < m'.refs id → id < m'.made ∧ m'.freed id = false := by
    intro id hpos
    rw [hfreed, hmade]
    exact h.alive id (by have := hrefs id; omega)
  have hle : ∀ id, m'.refs id ≤ m.refs id := fun id => by have := hrefs id; omega
  -- only the object of this server can have lost its last reference
  have hlost : ∀ id, 0 < m.refs id → m'.refs id = 0 → id = s.2 := by
    intro id hpos h0
    have hone : 0 < refsIn [s] id := by
      have := hrefs id
      omega
    obtain ⟨s', hs', rfl⟩ := exists_of_refsIn_pos hone
    rw [List.mem_singleton.mp hs']
  have hself : 0 < m.refs s.2 := by
    have h1 := hrefs s.2
    have h2 := refsIn_pos (List.mem_singleton.mpr (rfl : s = s))
    omega
  by_cases h0 : m'.refCnt s.2 = 0
  · rw [if_pos h0]
    have hzero : m'.refs s.2 = 0 := by
      rw [hcounted] at h0
      exact Int.ofNat_eq_zero.mp h0
    refine ⟨⟨hsel, hdup, hcounted, fun id hpos => ?_, howned, hordered⟩, hold, hle, fun id => ?_, hmade⟩
    · change 0 < m'.refs id at hpos
      have hne : id ≠ s.2 := fun he => by rw [he] at hpos; omega
      obtain ⟨h1, h2⟩ := halive id hpos
      exact ⟨h1, (Function.update_of_ne hne _ _).trans h2⟩
    · change Function.update m'.freed s.2 true id = true ↔ _ ∨ _ ∧ m'.refs id = 0
      by_cases hid : id = s.2
      · rw [hid, Function.update_self]
        exact iff_of_true rfl (.inr ⟨hself, hzero⟩)
      · rw [Function.update_of_ne hid, hfreed]
        exact ⟨.inl, fun hor => hor.resolve_right (fun hp => hid (hlost id hp.1 hp.2))⟩
  · rw [if_neg h0]
    have hpos : m'.refs s.2 ≠ 0 := by
      intro hz
      rw [hcounted, hz] at h0
      exact h0 rfl
    refine ⟨⟨hsel, hdup, hcounted, halive, howned, hordered⟩, hold, hle, fun id => ?_, hmade⟩
    rw [hfreed]
    exact ⟨.inl, fun hor => hor.resolve_right (fun hp => hpos (hlost id hp.1 hp.2 ▸ hp.2))⟩

theorem removeVirtualNode_spec (h : m.Sound) (hf : HashRing.find (hash name i) m.selector = some s) :
    Loses m (m.removeVirtualNode hash name i) s.1 (hash name i) := by
  unfold removeVirtualNode
  dsimp only
  rw [hf]
  dsimp only
  generalize hash name i = point at hf
  -- the holder of the point is taken out
  have hcnt := release_refCnt m s
  have herase : ∀ id, ({ m.release s with selector := HashRing.erase point m.selector } : RingModule).refs id + refsIn [s] id =
      m.refs id := by
    intro id
    have hr := selectorRefs_erase point id m.selector
    rw [hf] at hr
    change _ + refsIn [s] id = _ at hr
    rw [refs_eq, refs_eq]
    change refsIn ((HashRing.erase point m.selector).map Prod.snd) id + setRefs m.duplicateKeys id + _ = _
    omega
  have hcounted : ∀ id, ({ m.release s with selector := HashRing.erase point m.selector } : RingModule).refCnt id =
      ({ m.release s with selector := HashRing.erase point m.selector } : RingModule).refs id := by
    intro id
    have h1 := herase id
    have h2 := h.counted id
    have h3 := hcnt id
    change (m.release s).refCnt id = _
    omega
  have hsel := HashRing.sorted_erase point h.selector
  have hfind : ∀ k, HashRing.find k (HashRing.erase point m.selector) =
      if k = point then none else HashRing.find k m.selector := fun k => HashRing.find_erase _ _ h.selector
  generalize hm₁ : ({ m.release s with selector := HashRing.erase point m.selector } : RingModule) = m₁ at herase hcounted
  have hsel₁ : m₁.selector = HashRing.erase point m.selector := hm₁ ▸ rfl
  have hdup₁ : m₁.duplicateKeys = m.duplicateKeys := hm₁ ▸ rfl
  have hfreed₁ : m₁.freed = m.freed := hm₁ ▸ rfl
  have hmade₁ : m₁.made = m.made := hm₁ ▸ rfl
  rw [← hsel₁] at hsel hfind
  cases hd : m.waiting point with
  | nil =>
    -- nobody waits for the point
    have hmatch : m₁.promote point = m₁ := by
      unfold promote
      rw [hdup₁]
      unfold waiting at hd
      split
      · rename_i first rest hfd
        rw [hfd] at hd
        cases hd
      · rfl
    rw [hmatch]
    refine left_spec h hf hsel (hdup₁ ▸ h.duplicateKeys) hcounted herase (fun k => ?_) (fun k => ?_) hfreed₁ hmade₁
    · rw [hfind, hd]
      rfl
    · rw [hd]
      unfold waiting at hd ⊢
      rw [hdup₁]
      split
      · rename_i hk
        rw [hk, hd]
        rfl
      · rfl
  | cons first rest =>
    -- the first that waits for the point gets it
    have hfd : HashRing.find point m₁.duplicateKeys = some (first :: rest) := by
      rw [hdup₁]
      unfold waiting at hd
      cases hfd : HashRing.find point m.duplicateKeys with
      | none =>
        rw [hfd] at hd
        cases hd
      | some set =>
        rw [hfd] at hd
        exact congrArg some hd
    have hmatch : m₁.promote point = (m₁.setSelector point first).eraseDuplicate point first rest := by
      unfold promote
      rw [hfd]
    rw [hmatch]
    obtain ⟨hsel₂, hdup₂, hfreed₂, hmade₂, -⟩ := setSelector_fields m₁ point first
    have hfd₂ : HashRing.find point (m₁.setSelector point first).duplicateKeys = some (first :: rest) := by rw [hdup₂, hfd]
    have hsorted₂ : HashRing.Sorted (m₁.setSelector point first).duplicateKeys := by
      rw [hdup₂, hdup₁]
      exact h.duplicateKeys
    have hrefs : ∀ id, ((m₁.setSelector point first).eraseDuplicate point first rest).refs id + refsIn [s] id = m.refs id := by
      intro id
      have h1 := eraseDuplicate_refs (m₁.setSelector point first) point hfd₂ id
      have h2 := setSelector_refs m₁ point first id
      have h3 := herase id
      rw [hfind, if_pos rfl] at h2
      change _ + 0 = _ at h2
      omega
    refine left_spec h hf ?_ ?_
      (eraseDuplicate_counted _ point hfd₂ (setSelector_counted m₁ point first hcounted)) hrefs (fun k => ?_) (fun k => ?_) ?_ ?_
    · change HashRing.Sorted (m₁.setSelector point first).selector
      rw [hsel₂]
      exact HashRing.sorted_insert _ _ hsel
    · unfold eraseDuplicate
      dsimp only
      split
      · exact HashRing.sorted_erase _ hsorted₂
      · exact HashRing.sorted_insert _ _ hsorted₂
    · change HashRing.find k (m₁.setSelector point first).selector = _
      rw [setSelector_find _ _ _ hsel, hfind, hd]
      split <;> rfl
    · rw [eraseDuplicate_waiting _ _ hsorted₂, setSelector_waiting, hd]
      unfold waiting
      rw [hdup₁]
      rfl
    · exact hfreed₂.trans hfreed₁
    · exact hmade₂.trans hmade₁

end

end RingModule

end Dtc
