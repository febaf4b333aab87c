import DtcServer.NodeAlloc
import Mathlib.Data.Finset.Prod
/-!
# NodeRun — nodes are allocated, released and looked up by their ids

The runs are of the calls of `AllocateNode` and `ReleaseNode`, with what the allocator of the shared memory answers, and of
writes to the attributes of nodes.  A node in use has its data handle written by its owner only.
-/
namespace Dtc

open Rings

/-- The nodes in use beside `CNGInfo`, and every node that was ever returned. -/
structure NgRun where
  info : NgInfo
  live : Finset CNode := ∅
  returned : List CNode := []

/-- A write to an attribute of a node. -/
inductive NodeWrite
  | nextNodeId (id : Nat)
  | lruPrev (id : Nat)
  | lruNext (id : Nat)
  | vdHandle (handle : Nat)
  | dirty (d : Bool)
  deriving DecidableEq, Repr

def NodeWrite.toHandle : NodeWrite → Bool
  | .vdHandle _ => true
  | _ => false

inductive NgEvent
  | allocate (a : Answers)
  | release (n : CNode)
  | write (n : CNode) (w : NodeWrite)

def NodeGroup.write (g : NodeGroup) (i : Nat) : NodeWrite → NodeGroup
  | .nextNodeId id => { g with nextNodeId := Function.update g.nextNodeId i id }
  | .lruPrev id => { g with lruPrev := Function.update g.lruPrev i id }
  | .lruNext id => { g with lruNext := Function.update g.lruNext i id }
  | .vdHandle handle => { g with vdHandle := Function.update g.vdHandle i handle }
  | .dirty d => { g with dirty := Function.update g.dirty i d }

namespace NgRun

def step (r : NgRun) : NgEvent → Option NgRun
  | .allocate a =>
    match r.info.allocateNode a with
    | none => none
    | some (s, none) => some { r with info := s }
    | some (s, some n) => some { info := s, live := insert n r.live, returned := n :: r.returned }
  | .release n => if n ∈ r.live then some { r with info := r.info.releaseNode n, live := r.live.erase n } else none
  | .write n w =>
    -- the handle of a released node is the chain of its group
    if w.toHandle = false ∨ n ∈ r.live then
      some { r with info := r.info.setGroup n.owner ((r.info.groups n.owner).write n.index w) }
    else none

end NgRun

def ngMachine : Machine NgRun NgEvent where
  start r := ∃ memSize step info, NgInfo.ConfigOk memSize step ∧ NgInfo.init memSize step = some info ∧ r = { info := info }
  step := NgRun.step

theorem NodeGroup.indexOf_eq {g : NodeGroup} {base i : Nat} (hnid : g.nid = base) (hi : i < 256) :
    g.indexOf (base + i) = i := by
  unfold NodeGroup.indexOf
  rw [hnid]
  omega

namespace NgInfo

variable {s : NgInfo} {live : Finset CNode} {k : Nat}

/-! ## The index -/

/-- The group that the index has for the ids of group `k`. -/
def indexed (s : NgInfo) (k : Nat) : Option Nat := (s.fiH (k / 65536)).bind (fun block => block (k % 65536))

theorem offset1_eq (id : Nat) : id >>> 24 = id / 256 / 65536 := by
  rw [Nat.shiftRight_eq_div_pow]
  omega

theorem offset2_eq (id : Nat) : (id &&& 0xFFFF00) >>> 8 = id / 256 % 65536 := by
  have hmask : 0xFFFF00 >>> 8 = 2 ^ 16 - 1 := by decide
  rw [Nat.shiftRight_and_distrib, Nat.shiftRight_eq_div_pow, hmask, Nat.and_two_pow_sub_one_eq_mod]

theorem search_eq {id : Nat} (hid : id ≠ invalidNodeId) :
    s.search id = (s.indexed (id / 256)).bind fun k =>
      if 255 < (s.groups k).indexOf id then none else some ⟨k, (s.groups k).indexOf id⟩ := by
  unfold search indexed
  rw [if_neg hid, offset1_eq, offset2_eq]
  rcases s.fiH (id / 256 / 65536) with _ | block
  · rfl
  · rw [Option.bind_some]
    dsimp only
    rcases block (id / 256 % 65536) with _ | k
    · rw [Option.bind_none]
    · rw [Option.bind_some]

theorem insert_fiH (n : CNode) (got : Bool) : ∃ fiH, (s.insert n got).1 = { s with fiH := fiH } := by
  unfold insert
  dsimp only
  split
  · exact ⟨_, rfl⟩
  · split
    · exact ⟨_, rfl⟩
    · exact ⟨s.fiH, rfl⟩

theorem indexed_insert {n : CNode} (hid : s.nodeID n / 256 = n.owner) (got : Bool) (k : Nat) :
    (s.insert n got).1.indexed k =
      if k = n.owner ∧ (s.insert n got).2 = 0 then some n.owner else s.indexed k := by
  have hput : ∀ block : Nat → Option Nat, (∀ k, k / 65536 = n.owner / 65536 → block (k % 65536) = s.indexed k) →
      (insert.put s n (s.nodeID n) block).indexed k = if k = n.owner then some n.owner else s.indexed k := by
    intro block hblock
    unfold indexed insert.put
    dsimp only
    rw [offset1_eq, offset2_eq, hid]
    by_cases h1 : k / 65536 = n.owner / 65536
    · rw [h1, Function.update_self, Option.bind_some]
      by_cases h2 : k % 65536 = n.owner % 65536
      · rw [h2, Function.update_self, if_pos (by omega)]
      · rw [Function.update_of_ne h2, if_neg (fun h => h2 (congrArg (· % 65536) h)), hblock k h1, ← h1]
        rfl
    · rw [Function.update_of_ne h1, if_neg (fun h => h1 (congrArg (· / 65536) h))]
  have hblk : s.nodeID n >>> 24 = n.owner / 65536 := by rw [offset1_eq, hid]
  rcases hf : s.fiH (n.owner / 65536) with _ | block
  · cases got with
    | false =>
      have hins : s.insert n false = (s, -1) := by
        unfold insert
        dsimp only
        rw [hblk, hf]
        rfl
      rw [hins, if_neg (fun h => nomatch h.2)]
    | true =>
      have hins : s.insert n true = (insert.put s n (s.nodeID n) (fun _ => none), 0) := by
        unfold insert
        dsimp only
        rw [hblk, hf]
        rfl
      have hsame : ∀ k, k / 65536 = n.owner / 65536 → (none : Option Nat) = s.indexed k := by
        intro k hk
        rw [indexed, hk, hf, Option.bind_none]
      simp only [hins, hput (fun _ => none) hsame, and_true]
  · have hins : s.insert n got = (insert.put s n (s.nodeID n) block, 0) := by
      unfold insert
      dsimp only
      rw [hblk, hf]
    have hsame : ∀ k, k / 65536 = n.owner / 65536 → block (k % 65536) = s.indexed k := by
      intro k hk
      rw [indexed, hk, hf, Option.bind_some]
    simp only [hins, hput block hsame, and_true]

theorem insert_code (n : CNode) (got : Bool) :
    (s.insert n got).2 = 0 ↔ got = true ∨ (s.fiH (s.nodeID n >>> 24)).isSome := by
  unfold insert
  dsimp only
  rcases s.fiH (s.nodeID n >>> 24) with _ | block
  · cases got with
    | false => exact iff_of_false (fun h => nomatch h) (fun h => h.elim Bool.false_ne_true Bool.false_ne_true)
    | true => exact iff_of_true rfl (.inl rfl)
  · exact iff_of_true rfl (.inr rfl)

theorem fiH_insert (n : CNode) (got : Bool) {b : Nat} (hb : b ≠ s.nodeID n >>> 24) :
    (s.insert n got).1.fiH b = s.fiH b := by
  unfold insert
  dsimp only
  rcases s.fiH (s.nodeID n >>> 24) with _ | block
  · cases got with
    | false => rfl
    | true => exact Function.update_of_ne hb _ _
  · exact Function.update_of_ne hb _ _

/-- The entries are of groups that are there, each for its own ids. -/
def IndexSound (s : NgInfo) : Prop := ∀ k k', s.indexed k = some k' → k' = k ∧ k < s.usedNg

/-! ## The formatted memory -/

/-- The reserved group while its heads are allocated. -/
structure Formatting (memSize step i : Nat) (s : NgInfo) : Prop where
  same : s = { memSize := memSize, step := step, groups := s.groups, minId := 256, usedNg := 1, fiH := s.fiH }
  nid : (s.groups 0).nid = 0
  count : (s.groups 0).deleCount = 0
  free : (s.groups 0).free = i
  sound : s.IndexSound
  blocks : ∀ b, preIndex memSize ≤ b → s.fiH b = none

theorem preIndex_pos (memSize : Nat) : 0 < preIndex memSize := by
  unfold preIndex
  omega

theorem Formatting.allocateHead {memSize step i : Nat} (h : Formatting memSize step i s) (hi : i < 256) :
    ∃ s', s.allocateHead = some s' ∧ Formatting memSize step (i + 1) s' := by
  have hnot : (s.groups 0).isFull = false := by
    unfold NodeGroup.isFull
    rw [h.count, h.free]
    exact Bool.and_eq_false_imp.mpr (fun _ => decide_eq_false (Nat.not_le.mpr hi))
  have halloc : (s.groups 0).allocateNode =
      some (i, { (s.groups 0).reset i with free := i + 1 }) := by
    unfold NodeGroup.allocateNode
    rw [hnot, if_neg Bool.false_ne_true, h.count, if_neg (Nat.lt_irrefl 0), h.free]
  unfold NgInfo.allocateHead
  rw [halloc]
  refine ⟨_, rfl, ?_⟩
  dsimp only
  generalize hg : ({ (s.groups 0).reset i with free := i + 1 } : NodeGroup).initNodeListHead i = g
  have hnid : g.nid = 0 := by
    rw [← hg]
    exact h.nid
  have hid : (s.setGroup 0 g).nodeID ⟨0, i⟩ = i := by
    change (((Function.update s.groups 0 g) 0).nid + i) % 2 ^ 32 = i
    rw [Function.update_self, hnid, Nat.zero_add]
    exact Nat.mod_eq_of_lt (by omega)
  have hentry := indexed_insert (s := s.setGroup 0 g) (n := ⟨0, i⟩) (by rw [hid]; exact Nat.div_eq_of_lt hi) true
  have hsame := h.same
  obtain ⟨fiH, hfiH⟩ := insert_fiH (s := s.setGroup 0 g) ⟨0, i⟩ true
  refine ⟨?_, ?_, ?_, ?_, ?_, ?_⟩
  · rw [hfiH]
    unfold setGroup
    rw [hsame]
  · rw [hfiH]
    change ((Function.update s.groups 0 g) 0).nid = 0
    rw [Function.update_self, hnid]
  · rw [hfiH]
    change ((Function.update s.groups 0 g) 0).deleCount = 0
    rw [Function.update_self, ← hg]
    exact h.count
  · rw [hfiH]
    change ((Function.update s.groups 0 g) 0).free = i + 1
    rw [Function.update_self, ← hg]
    rfl
  · intro k k' hk
    have hng : ((s.setGroup 0 g).insert ⟨0, i⟩ true).1.usedNg = s.usedNg := by
      rw [hfiH]
      rfl
    rw [hng]
    rw [hentry] at hk
    split at hk
    · next hk0 =>
      obtain rfl := Option.some.inj hk
      rw [hk0.1, hsame]
      exact ⟨rfl, Nat.zero_lt_one⟩
    · exact h.sound k k' hk
  · intro b hb
    have hpos := preIndex_pos memSize
    rw [fiH_insert]
    · exact h.blocks b hb
    · rw [hid, offset1_eq, Nat.div_eq_of_lt hi]
      omega

theorem formatting_start {memSize step : Nat} (hmem : 2 ^ 26 ≤ memSize) :
    ∃ s, ({ memSize := memSize, step := step,
            fiH := fun i => if i < preIndex memSize then some (fun _ => none) else none } : NgInfo).allocateNG true = some s ∧
      Formatting memSize step 0 s := by
  unfold NgInfo.allocateNG
  rw [if_pos ⟨rfl, by unfold NodeGroup.size; dsimp only; omega⟩]
  refine ⟨_, rfl, ⟨rfl, rfl, rfl, rfl, fun k k' hk => ?_, fun b hb => if_neg (Nat.not_lt.mpr hb)⟩⟩
  have hk : Option.bind (if k / 65536 < preIndex memSize then some (fun _ : Nat => (none : Option Nat)) else none)
      (fun block => block (k % 65536)) = some k' := hk
  split at hk <;> cases hk

theorem init_spec {memSize step : Nat} (hconf : ConfigOk memSize step) :
    ∃ s, init memSize step = some s ∧ Inv s ∅ ∧ s.IndexSound ∧ s.memSize = memSize ∧
      ∀ b, preIndex memSize ≤ b → s.fiH b = none := by
  obtain ⟨s₀, h₀, hf₀⟩ := @formatting_start _ step hconf.1
  obtain ⟨s₁, h₁, hf₁⟩ := hf₀.allocateHead (by decide)
  obtain ⟨s₂, h₂, hf₂⟩ := hf₁.allocateHead (by decide)
  obtain ⟨s₃, h₃, hf₃⟩ := hf₂.allocateHead (by decide)
  have hsame : ({ s₃ with usedNg := 1, usedNode := 0 } : NgInfo) = s₃ := by
    rw [hf₃.same]
  refine ⟨s₃, ?_, ?_, hf₃.sound, by rw [hf₃.same], hf₃.blocks⟩
  · unfold init
    dsimp only
    rw [h₀, Option.bind_some, h₁, Option.bind_some, h₂, Option.bind_some, h₃, Option.bind_some, hsame]
  · have hng : s₃.usedNg = 1 := by rw [hf₃.same]
    have hmem : s₃.memSize = memSize := by rw [hf₃.same]
    refine ⟨?_, ?_, ?_, ?_, ?_, fun k hk => ?_, ?_, fun k hk1 hk => ?_, fun n hn => absurd hn (Finset.notMem_empty n), ?_, ?_⟩
    · rw [hmem]
      exact hconf.2.1
    · rw [hmem, hng]
      have := hconf.1
      unfold NodeGroup.size
      omega
    · rw [hf₃.same]
      exact hconf.2.2.1
    · rw [hng]
    · rw [hf₃.same]
      rfl
    · rw [hng] at hk
      rw [Nat.lt_one_iff.mp hk]
      exact hf₃.nid
    · refine ⟨hf₃.count, trivial, List.nodup_nil, fun _ hi => absurd hi List.not_mem_nil, ?_, fun i => ?_⟩
      · rw [hf₃.free]
        decide
      · rw [hf₃.free]
        exact (and_iff_left List.not_mem_nil).symm
    · omega
    · refine ⟨fun _ => [], ⟨fun l => ?_, fun l => List.nodup_singleton _, fun l l' x hx hx' => ?_⟩, fun k => ?_,
        fun _ k hk => absurd hk List.not_mem_nil⟩
      · rw [hf₃.same]
        exact List.isChain_cons_cons.mpr ⟨⟨rfl, rfl⟩, List.isChain_singleton _⟩
      · rw [List.map_nil, List.mem_singleton] at hx hx'
        rw [hx] at hx'
        cases l <;> cases l' <;> first | rfl | cases hx'
      · rw [hng]
        exact iff_of_false (fun ⟨_, hk⟩ => absurd hk List.not_mem_nil) (by omega)
    · rw [hf₃.same]
      rfl

/-! ## One call -/

theorem Inv.allocateNode (h : Inv s live) (a : Answers) :
    (s.allocateNode a = some (s, none) ∧ s.findFreeNG = none ∧ s.allocateNG (a.group 0) = none) ∨
      ∃ s' t n, s.withFreeNG a = some s' ∧ s'.findFreeNG = some n.owner ∧ Inv s' live ∧
        s.allocateNode a = some ((t.insert n a.index).1, some n) ∧ n ∉ live ∧ Inv t (Insert.insert n live) ∧
        Grows s s' ∧ t.memSize = s'.memSize ∧ t.fiH = s'.fiH ∧ t.usedNg = s'.usedNg := by
  unfold NgInfo.allocateNode
  rcases h.withFreeNG a with ⟨hnone, hfind, halloc⟩ | ⟨s', k, heq, hinv, hgrows, hfind⟩
  · rw [hnone]
    exact .inl ⟨rfl, hfind, halloc⟩
  · obtain ⟨i, t, hfrom, hnot, hinv', hsame⟩ := hinv.allocateFrom hfind a.index
    refine .inr ⟨s', t, ⟨k, i⟩, heq, hfind, hinv, ?_, hnot, hinv', hgrows, hsame⟩
    rw [heq]
    dsimp only
    rw [hfind]
    dsimp only
    rw [hfrom]

theorem Inv.nodeID_eq (h : Inv s live) {n : CNode} (hn : n.owner < s.usedNg) (hi : n.index < 256) :
    s.nodeID n = 256 * n.owner + n.index := by
  have hlt := h.usedNg_lt
  unfold NgInfo.nodeID NodeGroup.nodeID
  rw [h.nid n.owner hn]
  exact Nat.mod_eq_of_lt (by omega)

theorem releaseNode_index (n : CNode) : (s.releaseNode n).fiH = s.fiH ∧ (s.releaseNode n).usedNg = s.usedNg := by
  unfold NgInfo.releaseNode
  dsimp only
  split <;> exact ⟨rfl, rfl⟩

theorem Inv.write (h : Inv s live) {n : CNode} {w : NodeWrite} (hw : w.toHandle = false ∨ n ∈ live) :
    Inv (s.setGroup n.owner ((s.groups n.owner).write n.index w)) live := by
  have hsame : ∀ g : NodeGroup, (g.write n.index w).deleTop = g.deleTop ∧ (g.write n.index w).deleCount = g.deleCount ∧
      (g.write n.index w).free = g.free ∧ (g.write n.index w).nid = g.nid := by
    intro g
    cases w <;> exact ⟨rfl, rfl, rfl, rfl⟩
  have hhandle : ∀ (g : NodeGroup) i, i ≠ n.index ∨ w.toHandle = false → (g.write n.index w).vdHandle i = g.vdHandle i := by
    intro g i hi
    cases w with
    | vdHandle handle => exact Function.update_of_ne (hi.resolve_right Bool.noConfusion) _ _
    | nextNodeId id => rfl
    | lruPrev id => rfl
    | lruNext id => rfl
    | dirty d => rfl
  have hgroup : ∀ k, (Function.update s.groups n.owner ((s.groups n.owner).write n.index w) k).nid = (s.groups k).nid ∧
      ∀ used dele, (k = n.owner → w.toHandle = false ∨ used n.index) → (s.groups k).Frees used dele →
        (Function.update s.groups n.owner ((s.groups n.owner).write n.index w) k).Frees used dele := by
    intro k
    by_cases hk : k = n.owner
    · subst hk
      rw [Function.update_self]
      obtain ⟨htop, hcount, hfree, hnid⟩ := hsame (s.groups n.owner)
      refine ⟨hnid, fun used dele hu hfrees => hfrees.congr ⟨htop, hcount, hfree⟩ (fun i hi => hhandle _ i ?_)⟩
      rcases hu rfl with hu | hu
      · exact .inr hu
      · exact .inl (fun he => hi (he ▸ hu))
    · rw [Function.update_of_ne hk]
      exact ⟨rfl, fun _ _ _ hfrees => hfrees⟩
  refine ⟨h.small, h.memory, h.step, h.ng, h.minId, fun k hk => (hgroup k).1.trans (h.nid k hk), ?_, fun k hk1 hk => ?_,
    h.owner, ?_, h.count⟩
  · refine (hgroup 0).2 _ _ (fun h0 => hw.imp_right (fun hn => ?_)) h.reserved
    have := (h.owner n hn).1
    omega
  · obtain ⟨dele, hfrees⟩ := h.frees k hk1 hk
    refine ⟨dele, (hgroup k).2 _ _ (fun hkn => hw.imp_right (fun hn => ?_)) hfrees⟩
    subst hkn
    exact hn
  · obtain ⟨lists, hlisted⟩ := h.lists
    refine ⟨lists, hlisted.keep ?_⟩
    obtain ⟨-, hcount, hfree, -⟩ := hsame (s.groups n.owner)
    unfold NodeGroup.isFull
    rw [hcount, hfree]

end NgInfo

namespace NgRun

open NgInfo

variable {r r' : NgRun}

structure Inv (r : NgRun) : Prop where
  info : NgInfo.Inv r.info r.live
  sound : r.info.IndexSound
  returned : ∀ n ∈ r.returned, n.owner < r.info.usedNg ∧ n.index < 256

theorem inv_start (h : ngMachine.start r) : Inv r := by
  obtain ⟨memSize, step, info, hconf, hinit, rfl⟩ := h
  obtain ⟨s, hs, hinv, hsound, -, -⟩ := init_spec hconf
  obtain rfl := Option.some.inj (hinit.symm.trans hs)
  exact ⟨hinv, hsound, fun n hn => absurd hn List.not_mem_nil⟩

theorem step_allocate (h : Inv r) {a : Answers} (hs : r.step (.allocate a) = some r') :
    r' = r ∨ ∃ s' t n, r.info.withFreeNG a = some s' ∧ s'.findFreeNG = some n.owner ∧ NgInfo.Inv s' r.live ∧
      r' = { info := (t.insert n a.index).1, live := insert n r.live, returned := n :: r.returned } ∧ n ∉ r.live ∧
      NgInfo.Inv t (insert n r.live) ∧ Grows r.info s' ∧ t.memSize = s'.memSize ∧ t.fiH = s'.fiH ∧ t.usedNg = s'.usedNg := by
  unfold step at hs
  dsimp only at hs
  rcases h.info.allocateNode a with ⟨heq, -⟩ | ⟨s', t, n, hfree, hfind, hinv', heq, hnot, hinv, hgrows, hsame⟩
  · rw [heq] at hs
    exact .inl (Option.some.inj hs).symm
  · rw [heq] at hs
    exact .inr ⟨s', t, n, hfree, hfind, hinv', (Option.some.inj hs).symm, hnot, hinv, hgrows, hsame⟩

theorem usedNg_insert (t : NgInfo) (n : CNode) (got : Bool) : (t.insert n got).1.usedNg = t.usedNg := by
  obtain ⟨fiH, h⟩ := insert_fiH (s := t) n got
  rw [h]

theorem indexed_step {s s' t : NgInfo} {live : Finset CNode} {n : CNode} (hinv : NgInfo.Inv t (insert n live))
    (hgrows : Grows s s') (hfiH : t.fiH = s'.fiH) (got : Bool) (k : Nat) :
    (t.insert n got).1.indexed k = if k = n.owner ∧ (t.insert n got).2 = 0 then some n.owner else s.indexed k := by
  have hmem := Finset.mem_insert_self n live
  have hid : t.nodeID n / 256 = n.owner := by
    rw [hinv.nodeID_eq (hinv.owner n hmem).2 (hinv.index_lt hmem)]
    have := hinv.index_lt hmem
    omega
  rw [indexed_insert hid]
  unfold indexed
  rw [hfiH, hgrows.fiH]

theorem inv_step {e : NgEvent} (h : Inv r) (hs : r.step e = some r') : Inv r' := by
  cases e with
  | allocate a =>
    rcases step_allocate h hs with rfl | ⟨s', t, n, -, -, -, rfl, -, hinv, hgrows, -, hfiH, hng⟩
    · exact h
    · have hle : r.info.usedNg ≤ (t.insert n a.index).1.usedNg := by
        rw [usedNg_insert, hng]
        exact hgrows.usedNg
      have hmem := Finset.mem_insert_self n r.live
      have hlt : n.owner < (t.insert n a.index).1.usedNg := by
        rw [usedNg_insert]
        exact (hinv.owner n hmem).2
      refine ⟨hinv.insert n a.index, fun k k' hk => ?_, fun m hm => ?_⟩
      · change (t.insert n a.index).1.indexed k = some k' at hk
        rw [indexed_step hinv hgrows hfiH] at hk
        split at hk
        · next hkn =>
          obtain rfl := Option.some.inj hk
          exact ⟨hkn.1.symm, hkn.1 ▸ hlt⟩
        · obtain ⟨hk', hlt'⟩ := h.sound k k' hk
          exact ⟨hk', Nat.lt_of_lt_of_le hlt' hle⟩
      · rcases List.mem_cons.mp hm with rfl | hm
        · exact ⟨hlt, hinv.index_lt hmem⟩
        · exact ⟨Nat.lt_of_lt_of_le (h.returned m hm).1 hle, (h.returned m hm).2⟩
  | release n =>
    unfold step at hs
    dsimp only at hs
    split at hs
    · next hn =>
      obtain rfl := Option.some.inj hs
      obtain ⟨hfiH, hng⟩ := releaseNode_index (s := r.info) n
      refine ⟨h.info.releaseNode hn, fun k k' hk => ?_, fun m hm => ?_⟩
      · change (r.info.releaseNode n).indexed k = some k' at hk
        change k' = k ∧ k < (r.info.releaseNode n).usedNg
        unfold indexed at hk
        rw [hfiH] at hk
        rw [hng]
        exact h.sound k k' hk
      · change m.owner < (r.info.releaseNode n).usedNg ∧ _
        rw [hng]
        exact h.returned m hm
    · cases hs
  | write n w =>
    unfold step at hs
    dsimp only at hs
    split at hs
    · next hw =>
      obtain rfl := Option.some.inj hs
      exact ⟨h.info.write hw, h.sound, h.returned⟩
    · cases hs

theorem inv_of_reachable (h : ngMachine.Reachable r) : Inv r :=
  ngMachine.reachable_induct (fun _ => inv_start) (fun _ _ _ hinv hs => inv_step hinv hs) h

end NgRun

/-! ## Free nodes are found -/

/-- Calls of `AllocateNode` one after another, with the nodes returned. -/
def NgInfo.allocations : List Answers → NgInfo → Option (NgInfo × List CNode)
  | [], s => some (s, [])
  | a :: as, s => (s.allocateNode a).bind fun r => (NgInfo.allocations as r.1).map fun q => (q.1, r.2.toList ++ q.2)

namespace NgInfo

variable {s : NgInfo} {live : Finset CNode} {n : CNode}

theorem Inv.allocations : ∀ (as : List Answers) {s : NgInfo} {live : Finset CNode}, Inv s live →
    ∃ q, NgInfo.allocations as s = some q
  | [], s, _, _ => ⟨(s, []), rfl⟩
  | a :: as, s, live, h => by
    rw [NgInfo.allocations]
    rcases h.allocateNode a with ⟨heq, -⟩ | ⟨s', t, n, -, -, -, heq, -, hinv, -⟩
    · obtain ⟨q, hq⟩ := Inv.allocations as h
      rw [heq, Option.bind_some, hq]
      exact ⟨_, rfl⟩
    · obtain ⟨q, hq⟩ := Inv.allocations as (hinv.insert n a.index)
      rw [heq, Option.bind_some, hq]
      exact ⟨_, rfl⟩

/-- A node that is not in use, behind the reserved group. -/
def Free (s : NgInfo) (live : Finset CNode) (n : CNode) : Prop :=
  1 ≤ n.owner ∧ n.owner < s.usedNg ∧ n.index < NodeGroup.includeNodes ∧ n ∉ live

theorem Inv.state_of_free (h : Inv s live) {lists : NgList → List Nat} (hlisted : s.Listed lists) {k : Nat}
    (hk : 1 ≤ k ∧ k < s.usedNg) :
    (k ∈ lists .free ↔ ∃ i < NodeGroup.includeNodes, ⟨k, i⟩ ∉ live) ∧
      (k ∈ lists .full ↔ ∀ i < NodeGroup.includeNodes, ⟨k, i⟩ ∈ live) := by
  obtain ⟨dele, hfrees⟩ := h.frees k hk.1 hk.2
  have hfull := hfrees.isFull_iff
  have hsome : ∀ l, k ∈ lists l ↔ (s.groups k).isFull = decide (l = .full) := by
    intro l
    refine ⟨fun hm => hlisted.state l k hm, fun hstate => ?_⟩
    obtain ⟨l', hm⟩ := (hlisted.all k).mpr hk
    have hstate' := hlisted.state l' k hm
    rw [hstate, decide_eq_decide] at hstate'
    have hl : l = l' := by
      cases l <;> cases l' <;> first | rfl | exact absurd hstate' (by decide)
    exact hl ▸ hm
  constructor
  · rw [hsome, decide_eq_false (by decide), ← Bool.not_eq_true, hfull]
    simp only [not_forall, exists_prop]
  · rw [hsome, decide_eq_true rfl, hfull]

theorem Inv.findFreeNG_of_free (h : Inv s live) (hn : s.Free live n) : s.findFreeNG.isSome := by
  obtain ⟨lists, hlisted⟩ := h.lists
  have hmem := (h.state_of_free hlisted ⟨hn.1, hn.2.1⟩).1.mpr ⟨n.index, hn.2.2.1, hn.2.2.2⟩
  rw [hlisted.findFreeNG]
  cases hl : lists .free with
  | nil =>
    rw [hl] at hmem
    exact absurd hmem List.not_mem_nil
  | cons k ks => rfl

theorem Inv.card_lt_of_free (h : Inv s live) (hn : s.Free live n) : live.card < 256 * (s.usedNg - 1) := by
  have hle := card_le_of_range (u := s.usedNg) (fun m (hm : m ∈ Insert.insert n live) => by
    rcases Finset.mem_insert.mp hm with rfl | hm
    · exact ⟨hn.1, hn.2.1, hn.2.2.1⟩
    · exact ⟨(h.owner m hm).1, (h.owner m hm).2, h.index_lt hm⟩)
  rw [Finset.card_insert_of_notMem hn.2.2.2] at hle
  exact hle

theorem Inv.allocations_of_free : ∀ (as : List Answers) {s : NgInfo} {live : Finset CNode}, Inv s live → s.Free live n →
    256 * (s.usedNg - 1) - live.card ≤ as.length → ∃ t ns, NgInfo.allocations as s = some (t, ns) ∧ n ∈ ns
  | [], s, live, h, hn, hlen => by
    have hlt := h.card_lt_of_free hn
    rw [List.length_nil] at hlen
    omega
  | a :: as, s, live, h, hn, hlen => by
    have hfound := h.findFreeNG_of_free hn
    rw [NgInfo.allocations]
    rcases h.allocateNode a with ⟨-, hnone, -⟩ | ⟨s', t, m, hfree, -, -, heq, hnot, hinv, -, -, -, hng⟩
    · rw [hnone] at hfound
      exact absurd hfound Bool.false_ne_true
    · have hs' : s' = s := by
        obtain ⟨k, hk⟩ := Option.isSome_iff_exists.mp hfound
        unfold NgInfo.withFreeNG at hfree
        rw [hk] at hfree
        exact (Option.some.inj hfree).symm
      rw [heq, Option.bind_some]
      have hinv' := hinv.insert m a.index
      have hng' : (t.insert m a.index).1.usedNg = s.usedNg := by
        rw [NgRun.usedNg_insert, hng, hs']
      by_cases hm : m = n
      · obtain ⟨q, hq⟩ := hinv'.allocations as
        rw [hq]
        exact ⟨q.1, _, rfl, List.mem_append_left _ (Option.mem_toList.mpr (congrArg some hm))⟩
      · have hn' : (t.insert m a.index).1.Free (Insert.insert m live) n := by
          refine ⟨hn.1, by rw [hng']; exact hn.2.1, hn.2.2.1, fun hmem => ?_⟩
          rcases Finset.mem_insert.mp hmem with he | hmem
          · exact hm he.symm
          · exact hn.2.2.2 hmem
        have hcard := Finset.card_insert_of_notMem hnot
        have hlt := h.card_lt_of_free hn
        rw [List.length_cons] at hlen
        obtain ⟨t', ns, hns, hmem⟩ := Inv.allocations_of_free as hinv' hn' (by rw [hng', hcard]; omega)
        rw [hns]
        exact ⟨t', _, rfl, List.mem_append_right _ hmem⟩

end NgInfo

open NgInfo

/-- **The allocation of nodes**: a node that is returned was not allocated; a node that is not allocated is returned again
after as many calls as there are free nodes, at the latest; every group behind the reserved one is in the free list if it
has a free node and else in the full list; `ni_used_node` counts the allocated nodes. -/
structure NodesAllocated (r : NgRun) : Prop where
  fresh : ∀ a s n, r.info.allocateNode a = some (s, some n) → n ∉ r.live
  again : ∀ n, r.info.Free r.live n → ∀ as : List Answers, 256 * (r.info.usedNg - 1) - r.live.card ≤ as.length →
    ∃ s ns, NgInfo.allocations as r.info = some (s, ns) ∧ n ∈ ns
  lists : ∃ lists, r.info.InLists lists ∧ (∀ k, (∃ l, k ∈ lists l) ↔ 1 ≤ k ∧ k < r.info.usedNg) ∧
    ∀ k, 1 ≤ k → k < r.info.usedNg →
      (k ∈ lists .free ↔ ∃ i < NodeGroup.includeNodes, ⟨k, i⟩ ∉ r.live) ∧
      (k ∈ lists .full ↔ ∀ i < NodeGroup.includeNodes, ⟨k, i⟩ ∈ r.live)
  owner : ∀ n ∈ r.live, 1 ≤ n.owner ∧ n.owner < r.info.usedNg ∧ n.index < NodeGroup.includeNodes
  count : r.info.usedNode = r.live.card

theorem ngMachine_nodesAllocated {r : NgRun} (h : ngMachine.Reachable r) : NodesAllocated r := by
  have hinv := (NgRun.inv_of_reachable h).info
  obtain ⟨lists, hlisted⟩ := hinv.lists
  refine ⟨fun a s n hs => ?_, fun n hn as hlen => hinv.allocations_of_free as hn hlen,
    ⟨lists, hlisted.family, hlisted.all, fun k hk1 hk => hinv.state_of_free hlisted ⟨hk1, hk⟩⟩,
    fun n hn => ⟨(hinv.owner n hn).1, (hinv.owner n hn).2, hinv.index_lt hn⟩, hinv.count⟩
  rcases hinv.allocateNode a with ⟨heq, -⟩ | ⟨s', t, m, -, -, -, heq, hnot, -⟩
  · rw [heq] at hs
    cases hs
  · rw [heq] at hs
    obtain ⟨-, hn⟩ := Prod.mk.inj (Option.some.inj hs)
    exact Option.some.inj hn ▸ hnot

def twoGroups (es : List NgEvent) : Option NgRun :=
  (NgInfo.init (2 ^ 26) 1).bind fun info => ngMachine.run { info := info } es

theorem reachable_twoGroups {es : List NgEvent} {r : NgRun} (h : twoGroups es = some r) : ngMachine.Reachable r := by
  obtain ⟨info, hinit, hrun⟩ := Option.bind_eq_some_iff.mp h
  exact ⟨{ info := info }, es, ⟨2 ^ 26, 1, info, by unfold ConfigOk; decide, hinit, rfl⟩, hrun⟩

theorem ngMachine_nodesAllocated_released :
    ∃ r, twoGroups [.allocate {}, .allocate {}, .release ⟨1, 0⟩] = some r ∧ r.live = {⟨1, 1⟩} ∧ NodesAllocated r := by
  have hlive : (twoGroups [.allocate {}, .allocate {}, .release ⟨1, 0⟩]).map NgRun.live = some {⟨1, 1⟩} := by rfl
  obtain ⟨r, hr, hlive⟩ := Option.map_eq_some_iff.mp hlive
  exact ⟨r, hr, hlive, ngMachine_nodesAllocated (reachable_twoGroups hr)⟩

/-- The reserved group has free nodes, and it is not in the free list. -/
theorem ngMachine_reservedGroup :
    ∃ r, twoGroups [] = some r ∧ 0 < r.info.usedNg ∧ (r.info.groups 0).isFull = false ∧
      ∀ lists, r.info.InLists lists → 0 ∉ lists .free := by
  have hstate : (twoGroups []).map (fun r => (r.info.usedNg, (r.info.groups 0).isFull, r.info.next .freeHead)) =
      some (1, false, .freeHead) := by rfl
  obtain ⟨r, hr, hstate⟩ := Option.map_eq_some_iff.mp hstate
  obtain ⟨hng, hrest⟩ := Prod.mk.inj hstate
  obtain ⟨hfull, hnext⟩ := Prod.mk.inj hrest
  refine ⟨r, hr, by rw [hng]; exact Nat.zero_lt_one, hfull, fun lists hin hmem => ?_⟩
  have hring := (Family.ring hin .free).next_root
  change r.info.next .freeHead = _ at hring
  rw [hnext] at hring
  cases hl : lists .free with
  | nil =>
    rw [hl] at hmem
    exact absurd hmem List.not_mem_nil
  | cons k ks =>
    rw [hl] at hring
    cases hring

/-! ## Ids resolve -/

/-- The allocator has a block for the index when one is asked for. -/
def IndexGranted (r : NgRun) : NgEvent → Prop
  | .allocate a => a.index = true ∨
      ∀ s k, r.info.withFreeNG a = some s → s.findFreeNG = some k → (s.fiH ((s.groups k).nid >>> 24)).isSome
  | _ => True

/-- **The index of node ids**: every node ever returned is found by its id, no two have one id, and no id behind the groups
that were created is found. -/
structure IdsResolve (r : NgRun) : Prop where
  search : ∀ n ∈ r.returned, r.info.search (r.info.nodeID n) = some n
  distinct : ∀ n ∈ r.returned, ∀ m ∈ r.returned, r.info.nodeID n = r.info.nodeID m → n = m
  outside : ∀ id < 2 ^ 32, 256 * r.info.usedNg ≤ id → r.info.search id = none

namespace NgRun

variable {r r' : NgRun}

def Indexed (r : NgRun) : Prop := ∀ n ∈ r.returned, r.info.indexed n.owner = some n.owner

theorem indexed_allocate (h : Inv r) (hi : Indexed r) {a : Answers} (hok : IndexGranted r (.allocate a))
    (hs : r.step (.allocate a) = some r') : Indexed r' := by
  rcases step_allocate h hs with rfl | ⟨s', t, n, hfree, hfind, hinv', rfl, -, hinv, hgrows, -, hfiH, hng⟩
  · exact hi
  · have hmem := Finset.mem_insert_self n r.live
    have hcode : (t.insert n a.index).2 = 0 := by
      rw [insert_code]
      rcases hok with hgot | hthere
      · exact .inl hgot
      · refine .inr ?_
        have hthere := hthere s' n.owner hfree hfind
        have howner := (hinv.owner n hmem).2
        have hi := hinv.index_lt hmem
        have hblk : t.nodeID n >>> 24 = (s'.groups n.owner).nid >>> 24 := by
          rw [hinv.nodeID_eq howner hi, hinv'.nid n.owner (hng ▸ howner), offset1_eq, offset1_eq]
          omega
        rwa [hblk, hfiH]
    intro m hm
    change (t.insert n a.index).1.indexed m.owner = some m.owner
    rw [indexed_step hinv hgrows hfiH]
    split
    · next hkn => rw [hkn.1]
    · next hkn =>
      rcases List.mem_cons.mp hm with rfl | hm
      · exact absurd ⟨rfl, hcode⟩ hkn
      · exact hi m hm

theorem indexed_step_meeting {e : NgEvent} (h : Inv r ∧ Indexed r) (hok : IndexGranted r e) (hs : r.step e = some r') :
    Inv r' ∧ Indexed r' := by
  refine ⟨inv_step h.1 hs, ?_⟩
  cases e with
  | allocate a => exact indexed_allocate h.1 h.2 hok hs
  | release n =>
    unfold step at hs
    dsimp only at hs
    split at hs
    · obtain rfl := Option.some.inj hs
      intro m hm
      change (r.info.releaseNode n).indexed m.owner = _
      unfold indexed
      rw [(releaseNode_index n).1]
      exact h.2 m hm
    · cases hs
  | write n w =>
    unfold step at hs
    dsimp only at hs
    split at hs
    · obtain rfl := Option.some.inj hs
      exact h.2
    · cases hs

theorem search_of_indexed (h : Inv r) {n : CNode} (hn : n.owner < r.info.usedNg ∧ n.index < 256) :
    r.info.search (r.info.nodeID n) = (r.info.indexed n.owner).bind fun _ => some n := by
  have hlt := h.info.usedNg_lt
  have hid := h.info.nodeID_eq hn.1 hn.2
  have hdiv : (256 * n.owner + n.index) / 256 = n.owner := by omega
  rw [hid, search_eq (by unfold invalidNodeId; omega), hdiv]
  rcases he : r.info.indexed n.owner with _ | k
  · rw [Option.bind_none, Option.bind_none]
  · obtain ⟨rfl, -⟩ := h.sound n.owner k he
    have hindex : (r.info.groups n.owner).indexOf (256 * n.owner + n.index) = n.index :=
      NodeGroup.indexOf_eq (h.info.nid n.owner hn.1) hn.2
    rw [Option.bind_some, Option.bind_some, hindex, if_neg (Nat.not_lt.mpr (Nat.le_of_lt_succ hn.2))]

theorem Inv.distinct (h : Inv r) {n m : CNode} (hn : n ∈ r.returned) (hm : m ∈ r.returned)
    (hid : r.info.nodeID n = r.info.nodeID m) : n = m := by
  obtain ⟨hno, hni⟩ := h.returned n hn
  obtain ⟨hmo, hmi⟩ := h.returned m hm
  rw [h.info.nodeID_eq hno hni, h.info.nodeID_eq hmo hmi] at hid
  obtain ⟨no, ni⟩ := n
  obtain ⟨mo, mi⟩ := m
  dsimp only at hid hni hmi
  have howner : no = mo := by omega
  have hindex : ni = mi := by omega
  rw [howner, hindex]

theorem Inv.outside (h : Inv r) {id : Nat} (hbehind : 256 * r.info.usedNg ≤ id) :
    r.info.search id = none := by
  by_cases hinvalid : id = invalidNodeId
  · unfold NgInfo.search
    rw [if_pos hinvalid]
  · rw [search_eq hinvalid]
    rcases he : r.info.indexed (id / 256) with _ | k
    · rfl
    · have := (h.sound _ k he).2
      omega

end NgRun

/-- **Ids resolve in every run in which no block of the index fails to be allocated.** -/
theorem ngMachine_idsResolve {r : NgRun} (h : ngMachine.ReachableMeeting IndexGranted r) : IdsResolve r := by
  have hstart : ∀ r, ngMachine.start r → r.Inv ∧ r.Indexed := by
    intro r hr
    refine ⟨NgRun.inv_start hr, ?_⟩
    obtain ⟨-, -, info, -, -, rfl⟩ := hr
    exact fun n hn => absurd hn List.not_mem_nil
  obtain ⟨hinv, hindexed⟩ := ngMachine.reachableMeeting_induct hstart
    (fun _ _ _ hr hok hs => NgRun.indexed_step_meeting hr hok hs) h
  refine ⟨fun n hn => ?_, fun n hn m hm => hinv.distinct hn hm, fun id _ hbehind => hinv.outside hbehind⟩
  rw [NgRun.search_of_indexed hinv (hinv.returned n hn), hindexed n hn]
  rfl

theorem ngMachine_idsResolve_again :
    ∃ r, twoGroups [.allocate {}, .release ⟨1, 0⟩, .allocate {}] = some r ∧ r.returned = [⟨1, 0⟩, ⟨1, 0⟩] ∧ IdsResolve r := by
  have hreturned : (twoGroups [.allocate {}, .release ⟨1, 0⟩, .allocate {}]).map NgRun.returned =
      some [⟨1, 0⟩, ⟨1, 0⟩] := by rfl
  obtain ⟨r, hr, hreturned⟩ := Option.map_eq_some_iff.mp hreturned
  obtain ⟨info, hinit, hrun⟩ := Option.bind_eq_some_iff.mp hr
  refine ⟨r, hr, hreturned, ngMachine_idsResolve ⟨{ info := info }, _, ⟨2 ^ 26, 1, info, ?_, hinit, rfl⟩, ?_, hrun⟩⟩
  · unfold ConfigOk
    decide
  · exact ⟨.inl rfl, fun _ _ => ⟨trivial, fun _ _ => ⟨.inl rfl, fun _ _ => trivial⟩⟩⟩

/-! ## A block of the index is refused -/

namespace NgRun

variable {r : NgRun}

theorem card_of_full (h : Inv r) (hfind : r.info.findFreeNG = none) : 256 * (r.info.usedNg - 1) ≤ r.live.card := by
  have hsub : ((Finset.range (r.info.usedNg - 1)) ×ˢ (Finset.range 256)).image
      (fun p : Nat × Nat => (⟨p.1 + 1, p.2⟩ : CNode)) ⊆ r.live := by
    intro n hn
    obtain ⟨⟨k, i⟩, hp, rfl⟩ := Finset.mem_image.mp hn
    rw [Finset.mem_product, Finset.mem_range, Finset.mem_range] at hp
    by_contra hnot
    have hfree : r.info.Free r.live ⟨k + 1, i⟩ := ⟨Nat.le_add_left 1 k, by have := hp.1; dsimp only at this ⊢; omega, hp.2, hnot⟩
    have hfound := h.info.findFreeNG_of_free hfree
    rw [hfind] at hfound
    exact Bool.false_ne_true hfound
  have hcard := Finset.card_le_card hsub
  rw [Finset.card_image_of_injective, Finset.card_product, Finset.card_range, Finset.card_range] at hcard
  · omega
  · rintro ⟨k, i⟩ ⟨k', i'⟩ heq
    obtain ⟨hk, hi⟩ := CNode.mk.inj heq
    dsimp only at hk hi
    rw [Nat.succ.inj hk, hi]

/-- Only the first block of the index is there, and the memory has room for more groups than it serves. -/
structure Refusing (r : NgRun) : Prop where
  inv : Inv r
  room : ∀ u ≤ 65537, (u + 1) * NodeGroup.size ≤ r.info.memSize
  blocks : ∀ b, 1 ≤ b → r.info.fiH b = none
  live : ∀ n ∈ r.live, n ∈ r.returned

theorem memSize_insert (t : NgInfo) (n : CNode) (got : Bool) : (t.insert n got).1.memSize = t.memSize := by
  obtain ⟨fiH, h⟩ := insert_fiH (s := t) n got
  rw [h]

theorem fiH_insert_refused {t : NgInfo} {b : Nat} (h : t.fiH b = none) (n : CNode) : (t.insert n false).1.fiH b = none := by
  by_cases hblk : b = t.nodeID n >>> 24
  · unfold NgInfo.insert
    dsimp only
    rw [← hblk, h]
    exact h
  · rw [fiH_insert n false hblk]
    exact h

theorem Refusing.allocate (h : Refusing r) (hcard : r.live.card ≤ 256 * 65536) :
    ∃ r', r.step (.allocate { index := false }) = some r' ∧ Refusing r' ∧ r'.live.card = r.live.card + 1 := by
  rcases h.inv.info.allocateNode { index := false } with
    ⟨-, hfind, halloc⟩ | ⟨s', t, n, -, -, -, heq, hnot, -, hgrows, hmem, hfiH, -⟩
  · have hfull := card_of_full h.inv hfind
    unfold NgInfo.allocateNG at halloc
    rw [if_pos ⟨rfl, h.room _ (by omega)⟩] at halloc
    cases halloc
  · have hstep : r.step (.allocate { index := false }) =
        some { info := (t.insert n false).1, live := insert n r.live, returned := n :: r.returned } := by
      unfold step
      dsimp only
      rw [heq]
    refine ⟨_, hstep, ⟨inv_step h.inv hstep, fun u hu => ?_, fun b hb => ?_, fun m hm => ?_⟩,
      Finset.card_insert_of_notMem hnot⟩
    · rw [memSize_insert, hmem, hgrows.memSize]
      exact h.room u hu
    · refine fiH_insert_refused ?_ n
      rw [hfiH, hgrows.fiH]
      exact h.blocks b hb
    · rcases Finset.mem_insert.mp hm with rfl | hm
      · exact List.mem_cons_self
      · exact List.mem_cons_of_mem _ (h.live m hm)

theorem Refusing.allocations : ∀ (k : Nat) {r : NgRun}, Refusing r → r.live.card + k ≤ 256 * 65536 + 1 →
    ∃ r', ngMachine.run r (List.replicate k (.allocate { index := false })) = some r' ∧ Refusing r' ∧
      r'.live.card = r.live.card + k
  | 0, r, h, _ => ⟨r, rfl, h, rfl⟩
  | k + 1, r, h, hcard => by
    obtain ⟨r₁, hstep, h₁, hcard₁⟩ := h.allocate (by omega)
    obtain ⟨r₂, hrun, h₂, hcard₂⟩ := Refusing.allocations k h₁ (by omega)
    refine ⟨r₂, ?_, h₂, by omega⟩
    have hfirst : ngMachine.step r (.allocate { index := false }) = some r₁ := hstep
    rw [List.replicate_succ, Machine.run, hfirst, Option.bind_some]
    exact hrun

theorem refusing_start : ∃ r, ngMachine.start r ∧ Refusing r ∧ r.live = ∅ := by
  have hconf : ConfigOk (2 ^ 29) 1 := ⟨by omega, by omega, by omega, by omega⟩
  obtain ⟨s, hinit, hinv, hsound, hmem, hblocks⟩ := init_spec hconf
  refine ⟨{ info := s }, ⟨2 ^ 29, 1, s, hconf, hinit, rfl⟩,
    ⟨⟨hinv, hsound, fun n hn => absurd hn List.not_mem_nil⟩, fun u hu => ?_, fun b hb => ?_,
      fun n hn => absurd hn (Finset.notMem_empty n)⟩, rfl⟩
  · rw [hmem]
    unfold NodeGroup.size
    omega
  · refine hblocks b (Nat.le_trans ?_ hb)
    unfold preIndex
    omega

theorem Refusing.not_found (h : Refusing r) (hcard : r.live.card = 256 * 65536) :
    ∃ n ∈ r.returned, r.info.search (r.info.nodeID n) = none := by
  have hbeyond : ∃ n ∈ r.live, 65536 ≤ n.owner := by
    by_contra hnot
    have hle := @card_le_of_range 65536 r.live fun n hn =>
      ⟨(h.inv.info.owner n hn).1, Nat.lt_of_not_le fun hge => hnot ⟨n, hn, hge⟩, h.inv.info.index_lt hn⟩
    omega
  obtain ⟨n, hn, hge⟩ := hbeyond
  refine ⟨n, h.live n hn, ?_⟩
  rw [search_of_indexed h.inv ⟨(h.inv.info.owner n hn).2, h.inv.info.index_lt hn⟩]
  unfold indexed
  rw [h.blocks _ ((Nat.one_le_div_iff (by decide)).mpr hge)]
  rfl

end NgRun

/-- **A node is returned and not found**: `AllocateNode` does not look at what `I_INSERT` returns. -/
theorem ngMachine_indexRefused :
    ∃ r, ngMachine.Reachable r ∧ ∃ n ∈ r.returned, r.info.search (r.info.nodeID n) = none := by
  obtain ⟨r₀, hstart, hrefusing, hlive⟩ := NgRun.refusing_start
  obtain ⟨r, hrun, h, hcard⟩ := hrefusing.allocations (256 * 65536) (by rw [hlive, Finset.card_empty]; omega)
  rw [hlive, Finset.card_empty, Nat.zero_add] at hcard
  exact ⟨r, ⟨r₀, _, hstart, hrun⟩, h.not_found hcard⟩

end Dtc
