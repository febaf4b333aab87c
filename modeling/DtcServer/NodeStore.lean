import DtcServer.BinMallocEvict
import DtcServer.EmptyFilter
import DtcServer.RawDataHeader
/-!
# NodeStore — nodes with their chunks in the shared memory

A node has the handle of its chunk.  A process has one row object for all its requests; from one request to the next it keeps
the address of the chunk it was attached to, whatever has become of that chunk.
-/
namespace Dtc

open Memory CBinMalloc Bytes

/-- What `m_stRawData` keeps: `_handle`, `m_pchContent` (0 for a null pointer), `_size` and `m_uiTimeStampOffSet`. -/
structure RowObject where
  handle : Nat := invalidHandle
  pchContent : Nat := 0
  size : Nat := 0
  timeStampOffset : Nat := 0
  deriving DecidableEq, Repr

/-- The shared memory, the nodes' handles, and `CRawDataProcess` with its object and its counts. -/
structure NodeStore (Node : Type) where
  heap : HeapState
  vdHandle : Node → Nat := fun _ => invalidHandle
  rawData : RowObject := {}
  rowsInc : Int := 0
  dirtyRowsInc : Int := 0

/-! ## Steps of the allocator -/

namespace HeapState

variable {s s' s'' : HeapState} {x : Nat}

theorem Keeps.refl (hx : x ∈ s.live) : s.Keeps s x := ⟨hx, rfl, fun _ _ => rfl⟩

theorem Keeps.trans (h : s.Keeps s' x) (h' : s'.Keeps s'' x) : s.Keeps s'' x := by
  refine ⟨h'.1, h'.2.1.trans h.2.1, fun i hi => ?_⟩
  rw [h'.2.2 i (by rw [h.2.1]; exact hi), h.2.2 i hi]

theorem reachable_step (hs : heapMachine.Reachable s) {op : HeapOp} (hst : s.step op = some s') : heapMachine.Reachable s' :=
  Machine.Reachable.next hs hst

theorem chunkSize_live (hs : heapMachine.Reachable s) (hx : x ∈ s.live) :
    x ≠ invalidHandle ∧ 20 ≤ s.heap.chunkSize x ∧ s.heap.chunkSize x < 2 ^ 32 := by
  obtain ⟨bs, hbs⟩ := has_of_reachable hs
  obtain ⟨B, hB, rfl⟩ := hbs.block hx
  have hsize := (hbs.sees hB).1
  obtain ⟨⟨bins, cs, H, rfl, -⟩, -⟩ := hbs
  obtain ⟨-, hend, hB24, -⟩ := usedOf_bounds H.segBack hB
  have hroom := H.room
  have hbound := H.bound
  rw [hsize]
  exact ⟨Nat.succ_ne_zero _, by omega, by omega⟩

theorem malloc_spec (hs : heapMachine.Reachable s) (req : Nat) : ∃ h' r, s.heap.malloc req = some (h', r) ∧
    heapMachine.Reachable (s.received (h', r)) ∧ (∀ x ∈ s.live, s.Keeps (s.received (h', r)) x) ∧
    (r ≠ invalidHandle ↔ s.heap.Gives req) ∧
    (r ≠ invalidHandle → r ∉ s.live ∧ r ∈ (s.received (h', r)).live ∧ req ≤ h'.chunkSize r) := by
  obtain ⟨bs, hbs⟩ := has_of_reachable hs
  obtain ⟨h', r, bs', e, R', hcase⟩ := hbs.1.malloc req
  have hst : s.step (.malloc req) = some (s.received (h', r)) := by
    unfold HeapState.step
    dsimp only
    rw [e]
    rfl
  have hs' : heapMachine.Reachable (s.received (h', r)) := reachable_step hs hst
  obtain ⟨⟨bs'', hbs''⟩, hframe⟩ := hbs.frame hst
  have hgives : r ≠ invalidHandle ↔ s.heap.Gives req := by
    constructor
    · exact fun hr => ⟨h', r, e, hr⟩
    · rintro ⟨h₁, r₁, e₁, hr₁⟩
      rw [e] at e₁
      obtain ⟨-, rfl⟩ := Prod.mk.inj (Option.some.inj e₁)
      exact hr₁
  refine ⟨h', r, e, hs', fun x hx => hframe x hx ?_, hgives, fun hr => ?_⟩
  · exact (chunkSize_live hs hx).1
  · have hlive : (s.received (h', r)).live = r :: s.live := if_pos hr
    have hnd := hbs''.liveNodup
    rw [hlive] at hnd ⊢
    refine ⟨(List.nodup_cons.mp hnd).1, List.mem_cons_self, ?_⟩
    rcases hcase with ⟨hno, -⟩ | ⟨N, hrN, hsize, hperm⟩
    · exact absurd hno hr
    · have hN : N ∈ bs' := hperm.mem_iff.mpr List.mem_cons_self
      have hsees := ((hbs.received R' hrN hperm).sees hN).1
      rw [← hrN] at hsees
      have hreq : (s.received (h', r)).heap = h' := rfl
      rw [hreq] at hsees
      rw [hsees]
      unfold request2size minSize at hsize
      split at hsize <;> omega

theorem free_spec (hs : heapMachine.Reachable s) (hx : x ∈ s.live) : ∃ s', s.step (.free x) = some s' ∧
    (s.heap.free x) = (s'.heap, 0) ∧ heapMachine.Reachable s' ∧ s'.live = s.live.erase x ∧
    ∀ y ∈ s.live, y ≠ x → s.Keeps s' y := by
  obtain ⟨bs, hbs⟩ := has_of_reachable hs
  obtain ⟨B, hB, rfl⟩ := hbs.block hx
  obtain ⟨h', bs', e, -, -⟩ := hbs.1.free hB
  have hst : s.step (.free B.handle) = some ⟨h', s.live.erase B.handle⟩ := by
    refine (if_pos hx).trans ?_
    rw [e]
    rfl
  exact ⟨_, hst, e, reachable_step hs hst, rfl, (hbs.frame hst).2⟩

theorem written_spec (hs : heapMachine.Reachable s) (hx : x ∈ s.live) {bytes : List UInt8}
    (hle : bytes.length ≤ s.heap.chunkSize x) : heapMachine.Reachable (s.written x bytes) ∧
    (∀ y ∈ s.live, (s.written x bytes).heap.chunkSize y = s.heap.chunkSize y) ∧
    ∀ y ∈ s.live, y ≠ x → s.Keeps (s.written x bytes) y := by
  obtain ⟨bs, hbs⟩ := has_of_reachable hs
  have hroom : 0 + bytes.length ≤ s.heap.chunkSize x := by rwa [Nat.zero_add]
  have hst : s.step (.write x 0 bytes) = some (s.written x bytes) := if_pos ⟨hx, hroom⟩
  obtain ⟨-, hsizes, hkeeps⟩ := hbs.written hx hroom
  exact ⟨reachable_step hs hst, hsizes, hkeeps⟩

theorem apart (hs : heapMachine.Reachable s) {y : Nat} (hx : x ∈ s.live) (hy : y ∈ s.live) (hne : x ≠ y) : s.Disjoint x y := by
  obtain ⟨bs, hbs⟩ := has_of_reachable hs
  have hsymm : Std.Symm s.Disjoint := ⟨fun _ _ hd => Or.symm hd⟩
  exact hbs.disjoint.forall hx hy hne

end HeapState

namespace NodeStore

variable {Node : Type} (s : NodeStore Node)

/-- The chunk of a handle, and a row object that is attached to it. -/
def chunk (handle : Nat) : List UInt8 := readBytes s.heap.heap.mem handle (s.heap.heap.chunkSize handle)

def attached (l : RowLayout) (handle : Nat) : Int × RawData := RawData.attach l { handle := true, content := s.chunk handle }

def malloc (size : Nat) : Option (NodeStore Node × Nat) :=
  (s.heap.heap.malloc size).map fun r => ({ s with heap := s.heap.received r }, r.2)

/-- `Free` with its return code; a handle that is not in use is no handle to free. -/
def free (handle : Nat) : Option (Int × NodeStore Node) :=
  (s.heap.step (.free handle)).map fun heap => ((s.heap.heap.free handle).2, { s with heap := heap })

def write (a : Nat) (bytes : List UInt8) : NodeStore Node := { s with heap := s.heap.written a bytes }

/-- **The nodes own their chunks**: no handle is one of freed memory, and no two nodes have one handle. -/
structure Owns : Prop where
  reachable : heapMachine.Reachable s.heap
  live : ∀ node, s.vdHandle node ≠ invalidHandle → s.vdHandle node ∈ s.heap.live
  own : ∀ node node', s.vdHandle node ≠ invalidHandle → s.vdHandle node = s.vdHandle node' → node = node'

/-- **Nodes that have a chunk** have the same one as before, with the same bytes. -/
def Kept (s s' : NodeStore Node) : Prop :=
  ∀ node, s'.vdHandle node ≠ invalidHandle → s'.vdHandle node = s.vdHandle node ∧ s.heap.Keeps s'.heap (s'.vdHandle node)

variable {s} {s' s'' : NodeStore Node} {node : Node} {handle : Nat}

theorem Kept.refl (h : s.Owns) : s.Kept s := fun node hn => ⟨rfl, HeapState.Keeps.refl (h.live node hn)⟩

theorem Kept.trans (h : s.Kept s') (h' : s'.Kept s'') : s.Kept s'' := by
  intro node hn
  obtain ⟨he', hk'⟩ := h' node hn
  obtain ⟨he, hk⟩ := h node (he' ▸ hn)
  rw [he'] at hk' ⊢
  exact ⟨he, hk.trans hk'⟩

theorem Owns.free (h : s.Owns) (hlive : handle ∈ s.heap.live) : ∃ s', s.free handle = some (0, s') ∧
    s'.vdHandle = s.vdHandle ∧ s'.rawData = s.rawData ∧ s.heap.heap.free handle = (s'.heap.heap, 0) ∧
    heapMachine.Reachable s'.heap ∧ s'.heap.live = s.heap.live.erase handle ∧
    ∀ x ∈ s.heap.live, x ≠ handle → s.heap.Keeps s'.heap x := by
  obtain ⟨heap, hst, he, hreach, herase, hkeeps⟩ := HeapState.free_spec h.reachable hlive
  refine ⟨{ s with heap := heap }, ?_, rfl, rfl, he, hreach, herase, hkeeps⟩
  unfold NodeStore.free
  rw [hst, he]
  rfl

theorem Owns.malloc (h : s.Owns) (size : Nat) : ∃ s' r, s.malloc size = some (s', r) ∧ s'.Owns ∧ s.Kept s' ∧
    s'.vdHandle = s.vdHandle ∧ s'.rawData = s.rawData ∧ (r ≠ invalidHandle ↔ s.heap.heap.Gives size) ∧
    (r ≠ invalidHandle → r ∈ s'.heap.live ∧ (∀ node, s'.vdHandle node ≠ r) ∧ size ≤ s'.heap.heap.chunkSize r) := by
  obtain ⟨h', r, e, hreach, hkeeps, hgives, hnew⟩ := HeapState.malloc_spec h.reachable size
  refine ⟨{ s with heap := s.heap.received (h', r) }, r, ?_, ⟨hreach, fun node hn => ?_, h.own⟩, fun node hn => ?_, rfl, rfl,
    hgives, fun hr => ?_⟩
  · unfold NodeStore.malloc
    rw [e]
    rfl
  · exact (hkeeps _ (h.live node hn)).1
  · exact ⟨rfl, hkeeps _ (h.live node hn)⟩
  · obtain ⟨hfresh, hlive, hsize⟩ := hnew hr
    refine ⟨hlive, fun node he => ?_, hsize⟩
    dsimp only at he
    have hne : s.vdHandle node ≠ invalidHandle := by rwa [he]
    exact hfresh (he ▸ h.live node hne)

theorem Owns.write_spare (h : s.Owns) (hlive : handle ∈ s.heap.live) (hspare : ∀ node, s.vdHandle node ≠ handle)
    {bytes : List UInt8} (hle : bytes.length ≤ s.heap.heap.chunkSize handle) :
    (s.write handle bytes).Owns ∧ s.Kept (s.write handle bytes) ∧
      (s.write handle bytes).heap.heap.chunkSize handle = s.heap.heap.chunkSize handle := by
  obtain ⟨hreach, hsizes, hkeeps⟩ := HeapState.written_spec h.reachable hlive hle
  exact ⟨⟨hreach, h.live, h.own⟩, fun node hn => ⟨rfl, hkeeps _ (h.live node hn) (hspare node)⟩, hsizes handle hlive⟩

/-! ## The nodes' handles -/

variable [DecidableEq Node]

def setVDHandle (s : NodeStore Node) (node : Node) (handle : Nat) : NodeStore Node :=
  { s with vdHandle := Function.update s.vdHandle node handle }

/-- What `PurgeNodeEverything` does to the chunk of a node. -/
def purgeNode (s : NodeStore Node) (node : Node) : Option (NodeStore Node) :=
  if s.vdHandle node = invalidHandle then some s
  else (s.free (s.vdHandle node)).map fun r => r.2.setVDHandle node invalidHandle

/-- What `TryPurgeSize` does to the chunks, where `nodes` are those its loops come to; the reserved node is passed over. -/
def tryPurgeSize (reserve : Node) : List Node → NodeStore Node → Option (NodeStore Node)
  | [], s => some s
  | node :: nodes, s =>
    if node = reserve then tryPurgeSize reserve nodes s else (s.purgeNode node).bind (tryPurgeSize reserve nodes)

theorem Owns.release (h : s.Owns) (hn : s.vdHandle node ≠ invalidHandle) :
    ∃ s', s.free (s.vdHandle node) = some (0, s') ∧ (s'.setVDHandle node invalidHandle).Owns ∧
      s.Kept (s'.setVDHandle node invalidHandle) ∧ s'.vdHandle = s.vdHandle ∧ s'.rawData = s.rawData ∧
      ∀ x ∈ s.heap.live, x ≠ s.vdHandle node → x ∈ s'.heap.live ∧ s.heap.Keeps s'.heap x := by
  obtain ⟨s', hf, hvd, hraw, -, hreach, herase, hkeeps⟩ := h.free (h.live node hn)
  have hother : ∀ x, (s'.setVDHandle node invalidHandle).vdHandle x ≠ invalidHandle →
      (s'.setVDHandle node invalidHandle).vdHandle x = s.vdHandle x ∧ s.vdHandle x ≠ s.vdHandle node := by
    intro x hx
    unfold setVDHandle at hx ⊢
    dsimp only at hx ⊢
    by_cases hxn : x = node
    · rw [hxn, Function.update_self] at hx
      exact absurd rfl hx
    · rw [Function.update_of_ne hxn] at hx ⊢
      exact ⟨congrFun hvd x, fun he => hxn (h.own node x hn he.symm).symm⟩
  refine ⟨s', hf, ⟨hreach, fun x hx => ?_, fun a b ha hab => ?_⟩, fun x hx => ?_, hvd, hraw, fun x hx hne => ?_⟩
  · obtain ⟨he, hne⟩ := hother x hx
    rw [he] at hx ⊢
    show s.vdHandle x ∈ s'.heap.live
    rw [herase]
    exact (List.mem_erase_of_ne hne).mpr (h.live x hx)
  · obtain ⟨hea, -⟩ := hother a ha
    obtain ⟨heb, -⟩ := hother b (hab ▸ ha)
    rw [hea] at ha hab
    exact h.own a b ha (hab.trans heb)
  · obtain ⟨he, hne⟩ := hother x hx
    rw [he] at hx ⊢
    exact ⟨rfl, hkeeps _ (h.live x hx) hne⟩
  · have hmem := (List.mem_erase_of_ne hne).mpr hx
    rw [← herase] at hmem
    exact ⟨hmem, hkeeps x hx hne⟩

theorem Owns.purgeNode (h : s.Owns) (node : Node) : ∃ s', s.purgeNode node = some s' ∧ s'.Owns ∧ s.Kept s' ∧
    s'.vdHandle = Function.update s.vdHandle node invalidHandle ∧ s'.rawData = s.rawData := by
  unfold NodeStore.purgeNode
  by_cases hn : s.vdHandle node = invalidHandle
  · rw [if_pos hn]
    exact ⟨s, rfl, h, Kept.refl h, by rw [← hn, Function.update_eq_self], rfl⟩
  · obtain ⟨s', hf, ho, hk, hvd, hraw, -⟩ := h.release hn
    rw [if_neg hn, hf]
    exact ⟨_, rfl, ho, hk, by rw [← hvd]; rfl, hraw⟩

theorem Owns.tryPurgeSize (reserve : Node) : ∀ (nodes : List Node) {s : NodeStore Node}, s.Owns →
    ∃ s', NodeStore.tryPurgeSize reserve nodes s = some s' ∧ s'.Owns ∧ s.Kept s' ∧ s'.rawData = s.rawData ∧
      ∀ node, s'.vdHandle node = if node ∈ nodes ∧ node ≠ reserve then invalidHandle else s.vdHandle node
  | [], s, h => ⟨s, rfl, h, Kept.refl h, rfl, fun node => (if_neg (fun hm => absurd hm.1 List.not_mem_nil)).symm⟩
  | first :: nodes, s, h => by
    by_cases hr : first = reserve
    · obtain ⟨s', hs', ho, hk, hraw, hvd⟩ := Owns.tryPurgeSize reserve nodes h
      refine ⟨s', (if_pos hr).trans hs', ho, hk, hraw, fun node => (hvd node).trans (if_congr ?_ rfl rfl)⟩
      rw [List.mem_cons]
      exact and_congr_left (fun hne => (or_iff_right (fun he => hne (he.trans hr))).symm)
    · obtain ⟨s₁, hs₁, ho₁, hk₁, hvd₁, hraw₁⟩ := h.purgeNode first
      obtain ⟨s', hs', ho, hk, hraw, hvd⟩ := Owns.tryPurgeSize reserve nodes ho₁
      refine ⟨s', (if_neg hr).trans ((Option.bind_eq_some_iff).mpr ⟨s₁, hs₁, hs'⟩), ho, hk₁.trans hk, hraw.trans hraw₁,
        fun node => ?_⟩
      rw [hvd node, hvd₁]
      by_cases hf : node = first
      · rw [hf, Function.update_self, ite_self, if_pos ⟨List.mem_cons_self, hr⟩]
      · rw [Function.update_of_ne hf]
        refine if_congr (and_congr_left (fun _ => ?_)) rfl rfl
        rw [List.mem_cons, or_iff_right hf]

end NodeStore

end Dtc
