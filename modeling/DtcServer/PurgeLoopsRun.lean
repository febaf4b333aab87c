import DtcServer.PurgeLoops
import DtcServer.CacheDirtyRun
/-!
# PurgeLoopsRun — the purge loops in every state of the pool

The lists through the node ids and the nodes with their rows are two views of one memory: a step of the pool changes both, and
the nodes of the clean list are those that the handlers have put there.
-/
namespace Dtc

/-! ## The index over whole runs -/

namespace NgInfo

variable {s s' : NgInfo} {live : Finset CNode} {l : LruList} {n : CNode}

theorem insert2Lru_fiH (h : s.insert2Lru n l = some s') : s'.fiH = s.fiH := by
  unfold NgInfo.insert2Lru NgInfo.nodeListAdd at h
  obtain ⟨next, -, rfl⟩ := Option.map_eq_some_iff.mp h
  rfl

theorem writeNode_fiH (n : CNode) (w : NodeWrite) : (s.writeNode n w).fiH = s.fiH := rfl

theorem Indexed.mono (h : s.Indexed live) {live' : Finset CNode} (hsub : live' ⊆ live) : s.Indexed live' :=
  ⟨h.1, fun n hn => h.2 n (hsub hn)⟩

theorem Indexed.allocateNode (hi : s.Indexed live) (h : Inv s live) (hs : s.IndexSound) {a : Answers}
    (ok : IndexGranted { info := s, live := live } (.allocate a)) (ha : s.allocateNode a = some (s', some n)) :
    s'.Indexed (Insert.insert n live) := by
  have hrun : NgRun.Inv { info := s, live := live, returned := ⟨0, 1⟩ :: live.toList } := by
    refine ⟨h, hs, List.forall_mem_cons.mpr ⟨⟨h.ng, by decide⟩, fun m hm => ?_⟩⟩
    have hm := Finset.mem_toList.mp hm
    exact ⟨(h.owner m hm).2, h.index_lt hm⟩
  have hentries : NgRun.Indexed { info := s, live := live, returned := ⟨0, 1⟩ :: live.toList } :=
    List.forall_mem_cons.mpr ⟨hi.1, fun m hm => hi.2 m (Finset.mem_toList.mp hm)⟩
  have hstep : NgRun.step { info := s, live := live, returned := ⟨0, 1⟩ :: live.toList } (.allocate a) =
      some { info := s', live := Insert.insert n live, returned := n :: ⟨0, 1⟩ :: live.toList } := by
    unfold NgRun.step
    dsimp only
    rw [ha]
  have hall := NgRun.indexed_allocate hrun hentries ok hstep
  obtain ⟨hnew, hold⟩ := List.forall_mem_cons.mp hall
  obtain ⟨hhead, hlive⟩ := List.forall_mem_cons.mp hold
  refine ⟨hhead, fun m hm => ?_⟩
  rcases Finset.mem_insert.mp hm with rfl | hm
  · exact hnew
  · exact hlive m (Finset.mem_toList.mpr hm)

theorem Formatting.indexed {memSize step i : Nat} (h : Formatting memSize step i s) (hi : i < 256)
    (hs : s.allocateHead = some s') : s'.indexed 0 = some 0 := by
  have halloc : (s.groups 0).allocateNode = some (i, { (s.groups 0).reset i with free := i + 1 }) := by
    have hnot : (s.groups 0).isFull = false := by
      unfold NodeGroup.isFull
      rw [h.count, h.free]
      exact Bool.and_eq_false_imp.mpr (fun _ => decide_eq_false (Nat.not_le.mpr hi))
    unfold NodeGroup.allocateNode
    rw [hnot, if_neg Bool.false_ne_true, h.count, if_neg (Nat.lt_irrefl 0), h.free]
  unfold NgInfo.allocateHead at hs
  rw [halloc] at hs
  obtain rfl := Option.some.inj hs
  dsimp only
  generalize hg : ({ (s.groups 0).reset i with free := i + 1 } : NodeGroup).initNodeListHead i = g
  have hid : (s.setGroup 0 g).nodeID ⟨0, i⟩ / 256 = 0 := by
    have hnid : g.nid = 0 := by
      rw [← hg]
      exact h.nid
    show ((Function.update s.groups 0 g 0).nid + i) % 2 ^ 32 / 256 = 0
    rw [Function.update_self, hnid]
    omega
  rw [indexed_insert hid, if_pos ⟨rfl, (insert_code _ true).mpr (.inl rfl)⟩]

theorem init_indexed {memSize step : Nat} (hconf : ConfigOk memSize step) (hinit : NgInfo.init memSize step = some s) :
    s.Indexed ∅ := by
  refine ⟨?_, fun n hn => absurd hn (Finset.notMem_empty n)⟩
  obtain ⟨s₀, h₀, hf₀⟩ := @formatting_start _ step hconf.1
  obtain ⟨s₁, h₁, hf₁⟩ := hf₀.allocateHead (by decide)
  obtain ⟨s₂, h₂, hf₂⟩ := hf₁.allocateHead (by decide)
  obtain ⟨s₃, h₃, -⟩ := hf₂.allocateHead (by decide)
  unfold NgInfo.init at hinit
  dsimp only at hinit
  rw [h₀, Option.bind_some, h₁, Option.bind_some, h₂, Option.bind_some, h₃, Option.bind_some] at hinit
  obtain rfl := Option.some.inj hinit
  show s₃.indexed 0 = some 0
  exact hf₂.indexed (by decide) h₃

end NgInfo

namespace LruRun

open NgInfo

variable {r r' : LruRun} {n : CNode}

/-- The block of the index is there for a node that is allocated. -/
def IndexOk (r : LruRun) : LruEvent → Prop
  | .cacheAllocate a | .insertTimeMarker a _ => IndexGranted { info := r.info, live := r.live } (.allocate a)
  | _ => True

theorem purge_indexed (hi : r.info.Indexed r.live) (hs : r.purge n = some r') : r'.info.Indexed r'.live := by
  unfold LruRun.purge at hs
  obtain ⟨s, hrem, rfl⟩ := Option.map_eq_some_iff.mp hs
  exact (hi.congr ((releaseNode_index n).1.trans (removeFromLru_fiH hrem))).mono (Finset.erase_subset _ _)

theorem move_indexed {dest : LruList} (hi : r.info.Indexed r.live) (hs : r.move n dest = some r') :
    r'.info.Indexed r'.live := by
  unfold LruRun.move at hs
  obtain ⟨s', hmoved, rfl⟩ := Option.map_eq_some_iff.mp hs
  obtain ⟨s, hrem, hins⟩ := Option.bind_eq_some_iff.mp hmoved
  exact hi.congr ((insert2Lru_fiH hins).trans (removeFromLru_fiH hrem))

theorem allocateNode_none (h : Inv r) {a : Answers} {s : NgInfo} (hs : r.info.allocateNode a = some (s, none)) :
    s = r.info := by
  rcases h.info.allocateNode a with ⟨heq, -⟩ | ⟨_, t, n, -, -, -, heq, -⟩
  · rw [hs] at heq
    exact (Prod.mk.inj (Option.some.inj heq)).1
  · rw [hs] at heq
    cases (Prod.mk.inj (Option.some.inj heq)).2

theorem indexed_step {e : LruEvent} (h : Inv r) (hi : r.info.Indexed r.live) (ok : r.IndexOk e) (hs : r.step e = some r') :
    r'.info.Indexed r'.live := by
  cases e with
  | find n isLocal =>
    unfold step at hs
    dsimp only at hs
    split at hs
    · obtain rfl := Option.some.inj hs
      exact hi
    · cases hs
  | free =>
    obtain rfl := Option.some.inj hs
    exact hi
  | cacheAllocate a =>
    unfold step at hs
    dsimp only at hs
    split at hs
    · split at hs
      · cases hs
      · next s halloc =>
        obtain rfl := Option.some.inj hs
        obtain rfl := allocateNode_none h halloc
        exact hi
      · next s n halloc =>
        obtain ⟨s', hins, rfl⟩ := Option.map_eq_some_iff.mp hs
        exact (hi.allocateNode h.info h.sound ok halloc).congr (insert2Lru_fiH hins)
    · cases hs
  | moveToLru l =>
    obtain ⟨n, -, hs⟩ := Option.bind_eq_some_iff.mp hs
    exact move_indexed hi hs
  | purgeNode =>
    obtain ⟨n, -, hs⟩ := Option.bind_eq_some_iff.mp hs
    exact purge_indexed hi hs
  | cachePurge n =>
    unfold step at hs
    dsimp only at hs
    split at hs
    · obtain ⟨t, ht, rfl⟩ := Option.map_eq_some_iff.mp hs
      have ht := purge_indexed hi ht
      split <;> exact ht
    · cases hs
  | tryPurge k =>
    obtain ⟨n, -, hs⟩ := Option.bind_eq_some_iff.mp hs
    split at hs
    · obtain rfl := Option.some.inj hs
      exact hi
    · exact purge_indexed hi hs
  | purgeAt l k =>
    unfold step at hs
    dsimp only at hs
    split at hs
    · obtain ⟨n, -, hs⟩ := Option.bind_eq_some_iff.mp hs
      exact purge_indexed hi hs
    · cases hs
  | moveAt l k dest =>
    obtain ⟨n, -, hs⟩ := Option.bind_eq_some_iff.mp hs
    split at hs
    · cases hs
    · exact move_indexed hi hs
  | insertTimeMarker a t =>
    unfold step at hs
    dsimp only at hs
    split at hs
    · cases hs
    · next s halloc =>
      obtain rfl := Option.some.inj hs
      obtain rfl := allocateNode_none h halloc
      exact hi
    · next s n halloc =>
      obtain ⟨s', hins, rfl⟩ := Option.map_eq_some_iff.mp hs
      have hfiH := (insert2Lru_fiH hins).trans ((writeNode_fiH ..).trans (writeNode_fiH ..))
      exact (hi.allocateNode h.info h.sound ok halloc).congr hfiH
  | removeTimeMarker k =>
    unfold step at hs
    dsimp only at hs
    obtain ⟨n, -, hs⟩ := Option.bind_eq_some_iff.mp hs
    split at hs
    · obtain ⟨s, hrem, rfl⟩ := Option.map_eq_some_iff.mp hs
      exact (hi.congr ((releaseNode_index n).1.trans (removeFromLru_fiH hrem))).mono (Finset.erase_subset _ _)
    · obtain rfl := Option.some.inj hs
      exact hi
  | write n w =>
    unfold step at hs
    dsimp only at hs
    split at hs
    · obtain rfl := Option.some.inj hs
      exact hi
    · cases hs

end LruRun

/-! ## The loops in every state of the pool -/

/-- The pool: the lists through the node ids, the nodes with their rows, and the keys in the chunks of the nodes. -/
structure ListedPool (κ ρ : Type) where
  lru : LruRun
  cache : CacheProcess κ ρ
  keyOf : CNode → κ

/-- What is done to the lists while the handlers do this to the nodes. -/
structure ListedStep (κ ρ : Type) where
  events : List LruEvent
  actions : List (CacheAction κ ρ)
  keyOf : CNode → κ

namespace ListedPool

variable {κ ρ : Type} [DecidableEq κ] (s : ListedPool κ ρ)

/-- The nodes of the clean list are those that the handlers have put there. -/
def agrees : Bool :=
  (List.range s.lru.live.card).all fun k =>
    (s.lru.info.nodeAt .clean k).all fun c => s.cache.nodes.any fun n => decide (n.key = s.keyOf c ∧ n.lru = .clean)

def step (e : ListedStep κ ρ) : Option (ListedPool κ ρ) :=
  (lruMachine.run s.lru e.events).bind fun lru =>
    ((cacheMachine κ ρ).run s.cache e.actions).bind fun cache =>
      let s' : ListedPool κ ρ := { lru := lru, cache := cache, keyOf := e.keyOf }
      if s'.agrees then some s' else none

/-- **The step keeps the index complete and the dirty rows safe.** -/
def StepOk (e : ListedStep κ ρ) : Prop :=
  lruMachine.RunMeets LruRun.IndexOk s.lru e.events ∧
    (cacheMachine κ ρ).RunMeets (fun p a => p.stepDirtyOk a = true) s.cache e.actions

/-- The node is one that the handlers have put on the clean list, and has no dirty row. -/
structure Clean (c : CNode) : Prop where
  listed : ∃ n ∈ s.cache.nodes, n.key = s.keyOf c ∧ n.lru = .clean
  rows : ∀ n ∈ s.cache.nodes, n.key = s.keyOf c → n.lru = .clean → dirtyRows n.rows = 0

end ListedPool

def listedMachine (κ ρ : Type) [DecidableEq κ] : Machine (ListedPool κ ρ) (ListedStep κ ρ) where
  start s := lruMachine.start s.lru ∧ (cacheMachine κ ρ).start s.cache
  step := ListedPool.step

namespace ListedPool

variable {κ ρ : Type} [DecidableEq κ] {s s' : ListedPool κ ρ} {e : ListedStep κ ρ}

structure Inv (s : ListedPool κ ρ) : Prop where
  lru : LruRun.Inv s.lru
  indexed : s.lru.info.Indexed s.lru.live
  safe : CacheProcess.DirtyRowsSafe s.cache
  agrees : s.agrees = true

theorem Inv.start (h : (listedMachine κ ρ).start s) : s.Inv := by
  obtain ⟨hlru, hcache⟩ := h
  refine ⟨LruRun.inv_start hlru, ?_, ?_, ?_⟩
  · obtain ⟨memSize, step, info, hconf, hinit, he⟩ := hlru
    rw [he]
    exact NgInfo.init_indexed hconf hinit
  · obtain ⟨conf, he⟩ := hcache
    rw [he]
    exact fun n hn => absurd hn List.not_mem_nil
  · obtain ⟨memSize, step, info, hconf, hinit, he⟩ := hlru
    unfold ListedPool.agrees
    rw [he]
    rfl

theorem Inv.step (h : s.Inv) (ok : s.StepOk e) (hs : (listedMachine κ ρ).step s e = some s') : s'.Inv := by
  obtain ⟨lru, hlru, hs⟩ := Option.bind_eq_some_iff.mp hs
  obtain ⟨cache, hcache, hs⟩ := Option.bind_eq_some_iff.mp hs
  dsimp only at hs
  split at hs
  · next hagrees =>
    obtain rfl := Option.some.inj hs
    have hrun := @Machine.run_preserves _ _ lruMachine _ (fun r => LruRun.Inv r ∧ r.info.Indexed r.live)
      (fun r a r' hr hok hst => ⟨LruRun.inv_step hr.1 hst, LruRun.indexed_step hr.1 hr.2 hok hst⟩)
      e.events s.lru lru ⟨h.lru, h.indexed⟩ ok.1 hlru
    have hsafe := @Machine.run_preserves _ _ (cacheMachine κ ρ) _ CacheProcess.DirtyRowsSafe
      (fun p a p' hp hok hst => Option.some.inj hst ▸ hp.cacheStep hok) e.actions s.cache cache h.safe ok.2 hcache
    exact ⟨hrun.1, hrun.2, hsafe, hagrees⟩
  · cases hs

theorem Inv.clean (h : s.Inv) {lists : LruList → List Nat} (hr : s.lru.info.Ringed s.lru.live lists) {c : CNode}
    (hc : c.index < 256) (hx : c.id ∈ lists .clean) : s.Clean c := by
  obtain ⟨k, hk, hat⟩ := hr.nodeAt_of_mem h.lru.info h.lru.sound h.indexed hc hx
  have hall := List.all_eq_true.mp h.agrees k (List.mem_range.mpr hk)
  rw [hat] at hall
  obtain ⟨n, hn, hdec⟩ := List.any_eq_true.mp hall
  refine ⟨⟨n, hn, of_decide_eq_true hdec⟩, fun n hn _ hclean => ?_⟩
  rcases CacheProcess.nodeSafe_iff.mp (h.safe n hn) with hzero | ⟨-, hdirty⟩
  · exact hzero
  · rw [hclean] at hdirty
    cases hdirty

end ListedPool

/-- **The purge loops are safe** in every state of the runs whose steps meet the condition, for every request. -/
theorem listedMachine_purges {κ ρ : Type} [DecidableEq κ] {s : ListedPool κ ρ}
    (h : (listedMachine κ ρ).ReachableMeeting ListedPool.StepOk s) (reserve : Option CNode) :
    (∀ count, ∃ out, s.lru.prePurgeNodes count reserve = some out ∧ ∀ x ∈ out.2, x.Safe reserve ∧ s.Clean x.node) ∧
    ∀ disableTryPurge prePurge count combineSize size, ∃ out,
      s.lru.tryPurgeSize disableTryPurge prePurge count reserve combineSize size = some out ∧
      ∀ x ∈ out.2.1, x.Safe reserve ∧ s.Clean x.node := by
  have hinv : s.Inv := (listedMachine κ ρ).reachableMeeting_induct (fun _ => ListedPool.Inv.start)
    (fun _ _ _ hs ok hst => hs.step ok hst) h
  obtain ⟨lists, hr, hmark⟩ := hinv.lru.rings
  have hwalked : s.lru.Walked lists := ⟨hinv.lru, hinv.indexed, hr, hmark⟩
  constructor
  · intro count
    obtain ⟨r', trace, -, hloop, -, -, htrace⟩ := @LruRun.prePurgeNodes_spec _ _ reserve count hwalked
    refine ⟨(r', trace), hloop, fun x hx => ?_⟩
    obtain ⟨hsafe, hi, hmem⟩ := htrace x hx
    exact ⟨hsafe, hinv.clean hr hi hmem⟩
  · intro disableTryPurge prePurge count combineSize size
    obtain ⟨out, hloop, htrace⟩ := @LruRun.tryPurgeSize_spec _ _ reserve combineSize size
      disableTryPurge prePurge count hwalked
    refine ⟨out, hloop, fun x hx => ?_⟩
    obtain ⟨hsafe, hi, hmem⟩ := htrace x hx
    exact ⟨hsafe, hinv.clean hr hi hmem⟩

/-- A get that misses: a node is allocated for key 1, gets a chunk, and the reply of the database is stored. -/
def loadKey : ListedStep Nat Nat where
  events := [.find none false, .cacheAllocate {}, .write ⟨1, 0⟩ (.vdHandle 8), .free]
  actions := [.begin, .reply { numberTask .get with result := [3] }, .finish]
  keyOf _ := 1

/-- The pool after these steps, from a memory with one group behind the reserved one. -/
def listedPool (es : List (ListedStep Nat Nat)) : Option (ListedPool Nat Nat) :=
  (NgInfo.init (2 ^ 26) 1).bind fun info =>
    (listedMachine Nat Nat).run { lru := { info := info }, cache := { conf := asyncConf }, keyOf := fun _ => 1 } es

theorem listedPool_start {info : NgInfo} (h : NgInfo.init (2 ^ 26) 1 = some info) :
    (listedMachine Nat Nat).start { lru := { info := info }, cache := { conf := asyncConf }, keyOf := fun _ => 1 } :=
  ⟨⟨2 ^ 26, 1, info, by unfold NgInfo.ConfigOk; decide, h, rfl⟩, asyncConf, rfl⟩

/-- The node of a key that was loaded is purged; as the reserve node it is not. -/
theorem listedMachine_purges_loaded : ∃ s, listedPool [loadKey] = some s ∧
    (∃ out, s.lru.prePurgeNodes 1 none = some out ∧ out.2.map (·.node) = [⟨1, 0⟩] ∧
      ∀ x ∈ out.2, x.Safe none ∧ s.Clean x.node) ∧
    ∃ out, s.lru.prePurgeNodes 1 (some ⟨1, 0⟩) = some out ∧ out.2.map (·.node) = [] := by
  have hrun : (listedPool [loadKey]).map (fun s => ((s.lru.prePurgeNodes 1 none).map (fun out => out.2.map (·.node)),
      (s.lru.prePurgeNodes 1 (some ⟨1, 0⟩)).map (fun out => out.2.map (·.node)))) = some (some [⟨1, 0⟩], some []) := by
    decide
  obtain ⟨s, hs, he⟩ := Option.map_eq_some_iff.mp hrun
  obtain ⟨hpurged, hreserved⟩ := Prod.mk.inj he
  obtain ⟨info, hinit, hlisted⟩ := Option.bind_eq_some_iff.mp hs
  have hcache : (cacheMachine Nat Nat).RunMeets (fun p a => p.stepDirtyOk a = true) { conf := asyncConf } loadKey.actions := by
    decide
  have hmeets : (listedMachine Nat Nat).RunMeets ListedPool.StepOk
      { lru := { info := info }, cache := { conf := asyncConf }, keyOf := fun _ => 1 } [loadKey] :=
    ⟨⟨⟨trivial, fun _ _ => ⟨.inl rfl, fun _ _ => ⟨trivial, fun _ _ => ⟨trivial, fun _ _ => trivial⟩⟩⟩⟩, hcache⟩,
      fun _ _ => trivial⟩
  obtain ⟨hpre, -⟩ := listedMachine_purges ⟨_, _, listedPool_start hinit, hmeets, hlisted⟩ none
  obtain ⟨out, hout, hsafe⟩ := hpre 1
  rw [hout] at hpurged
  refine ⟨s, hs, ⟨out, hout, Option.some.inj hpurged, hsafe⟩, ?_⟩
  exact Option.map_eq_some_iff.mp hreserved

/-- An update of the key makes its node dirty, and `cache_adjust_lru` moves it to the clean list. -/
def adjustKey : List (ListedStep Nat Nat) :=
  [{ events := [.find (some ⟨1, 0⟩) false, .moveToLru .dirty, .free]
     actions := [.begin, .request { numberTask .update with updateRow := (· + 6) }, .finish]
     keyOf := fun _ => 1 },
   { events := [.find (some ⟨1, 0⟩) true, .moveToLru .clean, .free], actions := [.begin, .adjustLru 1], keyOf := fun _ => 1 }]

/-- The loop of `PrePurgeNodes` purges a node with a row that the database does not have. -/
theorem listedMachine_purgesDirty : ∃ s out, (listedMachine Nat Nat).Reachable s ∧ s.lru.prePurgeNodes 1 none = some out ∧
    out.2.map (·.node) = [⟨1, 0⟩] ∧ s.cache.nodes.map (fun n => (n.key, n.rows)) = [(s.keyOf ⟨1, 0⟩, [⟨true, 9⟩])] := by
  have hrun : (listedPool (loadKey :: adjustKey)).map (fun s =>
      ((s.lru.prePurgeNodes 1 none).map (fun out => out.2.map (·.node)), s.cache.nodes.map (fun n => (n.key, n.rows)),
        s.keyOf ⟨1, 0⟩)) = some (some [⟨1, 0⟩], [(1, [⟨true, 9⟩])], 1) := by decide
  obtain ⟨s, hs, he⟩ := Option.map_eq_some_iff.mp hrun
  obtain ⟨hpurged, he⟩ := Prod.mk.inj he
  obtain ⟨hnodes, hkey⟩ := Prod.mk.inj he
  obtain ⟨info, hinit, hlisted⟩ := Option.bind_eq_some_iff.mp hs
  obtain ⟨out, hout, hpurged⟩ := Option.map_eq_some_iff.mp hpurged
  exact ⟨s, out, ⟨_, _, listedPool_start hinit, hlisted⟩, hout, hpurged, by rw [hkey]; exact hnodes⟩

end Dtc
