import DtcServer.BinMallocRun
/-!
# BinMallocSearch — when `Malloc` finds room

The bit map never misses a bin that has a chunk, so `Malloc` finds every chunk of a bin behind the size's own.  In its own
bin it looks at 99 chunks.
-/
namespace Dtc

open Memory CBinMalloc Rings

namespace CBinMalloc

variable {h h' : CBinMalloc} {i j y size : Nat}

/-! ## The bit map -/

def binBit (h : CBinMalloc) (i : Nat) : Bool := (h.auiBinBitMap (i / 32)).testBit (i % 32)

/-- **The map has the bit of every bin that is not empty.** -/
def MapOk (h : CBinMalloc) : Prop := ∀ i, h.emptyBin i = false → h.binBit i = true

theorem MapOk.of_eq (hm : h.MapOk) (hbin : h'.bin = h.bin) (hmap : h'.auiBinBitMap = h.auiBinBitMap) : h'.MapOk := by
  intro i he
  unfold binBit
  rw [hmap]
  refine hm i ?_
  unfold emptyBin at he ⊢
  rwa [hbin] at he

theorem binBit_setBinBitMap (h : CBinMalloc) (i j : Nat) : (h.setBinBitMap i).binBit j = (h.binBit j || decide (j = i)) := by
  unfold binBit setBinBitMap
  dsimp only
  by_cases hw : j / 32 = i / 32
  · rw [hw, Function.update_self, Nat.testBit_or, Nat.testBit_two_pow]
    have hsame : i % 32 = j % 32 ↔ j = i := by omega
    rw [decide_eq_decide.mpr hsame]
  · rw [Function.update_of_ne hw]
    have hne : ¬ j = i := fun he => hw (by rw [he])
    rw [decide_eq_false hne, Bool.or_false]

theorem binBit_clearBinBitMap (hne : j ≠ i) : (h.clearBinBitMap i).binBit j = h.binBit j := by
  unfold binBit clearBinBitMap
  dsimp only
  by_cases hw : j / 32 = i / 32
  · have hbit : ¬ i % 32 = j % 32 := by omega
    have hlt : 2 ^ (i % 32) < 2 ^ 32 := Nat.pow_lt_pow_right (by decide) (Nat.mod_lt _ (by decide))
    rw [hw, Function.update_self, Nat.testBit_and, Nat.sub_sub, Nat.add_comm 1, Nat.testBit_two_pow_sub_succ hlt,
      Nat.testBit_two_pow, decide_eq_false hbit, decide_eq_true (Nat.mod_lt j (by decide))]
    exact Bool.and_true _
  · rw [Function.update_of_ne hw]

theorem unlinkBin_map (h : CBinMalloc) (i y : Nat) : (h.unlinkBin i y).auiBinBitMap = h.auiBinBitMap ∧
    ∀ j, (h.unlinkBin i y).emptyBin j = false → h.emptyBin j = false := by
  unfold unlinkBin
  split
  · exact ⟨rfl, fun _ he => he⟩
  · split
    · exact ⟨rfl, fun _ he => he⟩
    · next hbin =>
      rw [not_or] at hbin
      have hself : h.emptyBin i = false := beq_false_of_ne hbin.1
      have hother : ∀ (b : CBin) (j : Nat), j ≠ i → (Function.update h.bin i b) j = h.bin j :=
        fun b j hj => Function.update_of_ne hj ..
      have hcase : ∀ (h' : CBinMalloc), (∀ j, j ≠ i → h'.bin j = h.bin j) → ∀ j, h'.emptyBin j = false →
          h.emptyBin j = false := by
        intro h' hb j he
        by_cases hj : j = i
        · rw [hj]
          exact hself
        · unfold emptyBin at he ⊢
          rwa [hb j hj] at he
      dsimp only
      split
      · split
        · refine ⟨rfl, hcase _ (fun j hj => ?_)⟩
          exact (Function.update_of_ne hj ..).trans (hother _ j hj)
        · exact ⟨rfl, hcase _ (fun j hj => hother _ j hj)⟩
      · split
        · exact ⟨rfl, hcase _ (fun j hj => hother _ j hj)⟩
        · exact ⟨rfl, hcase _ (fun _ _ => rfl)⟩

theorem MapOk.unlinkBin (hm : h.MapOk) (i y : Nat) : (h.unlinkBin i y).MapOk := by
  obtain ⟨h1, h2⟩ := unlinkBin_map h i y
  intro j he
  unfold binBit
  rw [h1]
  exact hm j (h2 j he)

theorem MapOk.clearEmpty (hm : h.MapOk) (i : Nat) : (if h.emptyBin i then h.clearBinBitMap i else h).MapOk := by
  split
  · next hempty =>
    intro j he
    have hne : j ≠ i := by
      rintro rfl
      exact Bool.false_ne_true (he.symm.trans hempty)
    rw [binBit_clearBinBitMap hne]
    exact hm j he
  · exact hm

theorem MapOk.unlinkClear (hm : h.MapOk) (i y : Nat) : (h.unlinkClear i y).MapOk := (hm.unlinkBin i y).clearEmpty i

theorem MapOk.linkSet (hm : h.MapOk) (i y : Nat) : ((h.linkBin i y).setBinBitMap i).MapOk := by
  have hlink : (h.linkBin i y).auiBinBitMap = h.auiBinBitMap ∧ ∀ j, j ≠ i → (h.linkBin i y).bin j = h.bin j := by
    unfold linkBin
    split
    · exact ⟨rfl, fun _ _ => rfl⟩
    · dsimp only
      split
      · split
        · exact ⟨rfl, fun _ _ => rfl⟩
        · exact ⟨rfl, fun j hj => Function.update_of_ne hj ..⟩
      · split
        · exact ⟨rfl, fun _ _ => rfl⟩
        · exact ⟨rfl, fun j hj => Function.update_of_ne hj ..⟩
  intro j he
  rw [binBit_setBinBitMap]
  by_cases hj : j = i
  · rw [decide_eq_true hj, Bool.or_true]
  · have hbit : (h.linkBin i y).binBit j = h.binBit j := by
      unfold binBit
      rw [hlink.1]
    have hempty : h.emptyBin j = false := by
      unfold emptyBin at he ⊢
      rwa [← hlink.2 j hj]
    rw [hbit, hm j hempty, Bool.true_or]

theorem MapOk.freeCombinePre (hm : h.MapOk) (p size : Nat) : (h.freeCombinePre p size).1.MapOk := by
  unfold CBinMalloc.freeCombinePre
  split
  · exact (hm.unlinkClear _ _).of_eq rfl rfl
  · exact hm

theorem MapOk.freeCombineNext (hm : h.MapOk) (p size : Nat) : (h.freeCombineNext p size).1.MapOk := by
  unfold CBinMalloc.freeCombineNext
  split
  · exact hm
  · dsimp only
    split
    · exact (hm.unlinkClear _ _).of_eq rfl rfl
    · exact hm

theorem MapOk.freePlace (hm : h.MapOk) (p size : Nat) : (h.freePlace p size).MapOk := by
  unfold CBinMalloc.freePlace
  dsimp only
  split
  · exact hm.of_eq rfl rfl
  · have h1 : (((h.setFreeTags p size).noteFreeSize size).clearInuseBitAtOffset p size).MapOk := hm.of_eq rfl rfl
    exact h1.linkSet _ _

theorem MapOk.interFree (hm : h.MapOk) (handle : Nat) : (h.interFree handle).1.MapOk := by
  have htail : ∀ p size n : Nat, (let pre := h.freeCombinePre p size
      if !pre.1.atTop pre.2.1 pre.2.2 && decide (pre.1.chunkField (pre.2.1 + pre.2.2) < minSize) then (pre.1, -4, n)
      else
        let next := pre.1.freeCombineNext pre.2.1 pre.2.2
        (next.1.freePlace pre.2.1 next.2, (0 : Int), n)).1.MapOk := by
    intro p size n
    have hpre := hm.freeCombinePre p size
    generalize h.freeCombinePre p size = pre at hpre
    dsimp only
    split
    · exact hpre
    · exact (hpre.freeCombineNext _ _).freePlace _ _
  unfold CBinMalloc.interFree
  by_cases h1 : handle = invalidHandle
  · rw [if_pos h1]
    exact hm
  rw [if_neg h1]
  by_cases h2 : h.tSize ≤ handle
  · rw [if_pos h2]
    exact hm
  rw [if_neg h2]
  generalize mem2chunk handle = p
  dsimp only
  generalize h.chunkField p = size
  by_cases h3 : h.tSize ≤ p + size
  · rw [if_pos h3]
    exact hm
  rw [if_neg h3]
  by_cases h4 : (!h.inuseBitAtOffset p size) = true
  · rw [if_pos h4]
    exact hm
  rw [if_neg h4]
  by_cases h5 : p % 8 ≠ 0
  · rw [if_pos h5]
    exact hm
  rw [if_neg h5]
  by_cases h6 : (!h.checkInuseChunk p) = true
  · rw [if_pos h6]
    exact hm
  rw [if_neg h6]
  exact htail p size size

theorem MapOk.free (hm : h.MapOk) (handle : Nat) : (h.free handle).1.MapOk := by
  unfold CBinMalloc.free
  dsimp only
  split
  · exact (hm.interFree handle).of_eq rfl rfl
  · exact hm.interFree handle

theorem MapOk.smallBinMalloc (hm : h.MapOk) (size : Nat) : (h.smallBinMalloc size).1.MapOk := by
  have h1 : (h.binMalloc (smallbinIndex size)).1.MapOk := by
    unfold CBinMalloc.binMalloc
    dsimp only
    split
    · exact hm
    · have h2 : (h.setInuseBitAtOffset (h.bin (smallbinIndex size)).hNextChunk
          (realSize (h.tChunkField (h.bin (smallbinIndex size)).hNextChunk))).MapOk := hm.of_eq rfl rfl
      exact h2.unlinkBin _ _
  exact h1.clearEmpty _

theorem MapOk.topAlloc (hm : h.MapOk) (size : Nat) : (h.topAlloc size).1.MapOk := by
  unfold CBinMalloc.topAlloc
  split
  · exact hm
  · exact hm.of_eq rfl rfl

theorem MapOk.takeChunk (hm : h.MapOk) (p size : Nat) : (h.takeChunk p size).MapOk := by
  unfold CBinMalloc.takeChunk
  dsimp only
  split
  · exact hm.of_eq rfl rfl
  · refine MapOk.interFree ?_ _
    exact hm.of_eq rfl rfl

theorem MapOk.mallocFromBins (hm : h.MapOk) {r : CBinMalloc × Nat} (hr : h.mallocFromBins size = some r) : r.1.MapOk := by
  unfold CBinMalloc.mallocFromBins at hr
  dsimp only at hr
  generalize (if inSmallbinRange size then invalidHandle
    else h.searchBin size 99 (h.bin (binIndex size)).hNextChunk) = v at hr
  split at hr
  · obtain rfl := Option.some.inj hr
    exact (hm.unlinkClear _ _).takeChunk _ _
  · split at hr
    · obtain rfl := Option.some.inj hr
      exact hm.topAlloc size
    · obtain ⟨p, -, rfl⟩ := Option.map_eq_some_iff.mp hr
      exact (hm.unlinkClear _ _).takeChunk _ _

theorem MapOk.interMalloc (hm : h.MapOk) {req : Nat} {r : CBinMalloc × Nat} (hr : h.interMalloc req = some r) :
    r.1.MapOk := by
  unfold CBinMalloc.interMalloc at hr
  split at hr
  · obtain rfl := Option.some.inj hr
    exact hm
  · dsimp only at hr
    have h1 : (if inSmallbinRange (request2size req) then h.smallBinMalloc (request2size req) else (h, 0)).1.MapOk := by
      split
      · exact hm.smallBinMalloc _
      · exact hm
    generalize (if inSmallbinRange (request2size req) then h.smallBinMalloc (request2size req) else (h, 0)) = q at hr h1
    split at hr
    · obtain rfl := Option.some.inj hr
      exact h1
    · exact h1.mallocFromBins hr

theorem MapOk.malloc (hm : h.MapOk) {req : Nat} {r : CBinMalloc × Nat} (hr : h.malloc req = some r) : r.1.MapOk := by
  unfold CBinMalloc.malloc at hr
  dsimp only at hr
  obtain ⟨q, hq, rfl⟩ := Option.map_eq_some_iff.mp hr
  have h0 : MapOk { h with tLastFreeChunkSize := 0 } := hm.of_eq rfl rfl
  have h1 := h0.interMalloc hq
  split
  · exact h1.of_eq rfl rfl
  · exact h1

theorem MapOk.calloc (hm : h.MapOk) {req : Nat} {r : CBinMalloc × Nat} (hr : h.calloc req = some r) : r.1.MapOk := by
  unfold CBinMalloc.calloc at hr
  obtain ⟨q, hq, rfl⟩ := Option.map_eq_some_iff.mp hr
  have h1 := hm.malloc hq
  split
  · exact h1.of_eq rfl rfl
  · exact h1

/-- The map is right in what a fallible operation returns. -/
def GivesMapOk {α : Type} (x : Option (CBinMalloc × α)) : Prop := ∀ r, x = some r → r.1.MapOk

namespace GivesMapOk

variable {α β : Type}

theorem done {r : CBinMalloc × α} (hr : r.1.MapOk) : GivesMapOk (some r) := by
  intro q hq
  obtain rfl := Option.some.inj hq
  exact hr

theorem map {x : Option (CBinMalloc × α)} {f : CBinMalloc × α → CBinMalloc × β} (hx : GivesMapOk x)
    (hf : ∀ r, r.1.MapOk → (f r).1.MapOk) : GivesMapOk (x.map f) := by
  intro q hq
  obtain ⟨r, hr, rfl⟩ := Option.map_eq_some_iff.mp hq
  exact hf r (hx r hr)

theorem choice {c : Prop} [Decidable c] {x y : Option (CBinMalloc × α)} (hx : GivesMapOk x) (hy : GivesMapOk y) :
    GivesMapOk (if c then x else y) := by
  by_cases hc : c
  · rw [if_pos hc]
    exact hx
  · rw [if_neg hc]
    exact hy

end GivesMapOk

theorem freeRemain_succ (n : Nat) (h : CBinMalloc) (p remainder : Nat) : ∃ size handle, ∃ h₁ : CBinMalloc,
    h₁.bin = h.bin ∧ h₁.auiBinBitMap = h.auiBinBitMap ∧
    CBinMalloc.freeRemain (n + 1) h p remainder =
      if 0 < remainder - size then CBinMalloc.freeRemain n (h₁.interFree handle).1 (p + realSize size) (remainder - size)
      else some (h₁.interFree handle).1 := by
  rw [CBinMalloc.freeRemain]
  generalize (if maxAllocSize < remainder then
    (if minSize ≤ remainder - maxAllocSize then realSize maxAllocSize else realSize (allocSize (remainder - minSize)))
    else allocSize remainder) = size
  refine ⟨size, _, _, ?_, ?_, rfl⟩
  · rfl
  · rfl

theorem MapOk.freeRemain : ∀ (n : Nat) {h : CBinMalloc} {p remainder : Nat}, h.MapOk →
    CBinMalloc.freeRemain n h p remainder = some h' → h'.MapOk
  | 0, _, _, _, _, hr => nomatch hr
  | n + 1, h, p, remainder, hm, hr => by
    obtain ⟨size, handle, h₁, hbin, hmap, he⟩ := freeRemain_succ n h p remainder
    rw [he] at hr
    have h1 := (hm.of_eq hbin hmap).interFree handle
    split at hr
    · exact MapOk.freeRemain n h1 hr
    · obtain rfl := Option.some.inj hr
      exact h1

theorem MapOk.reAllocFinish (hm : h.MapOk) (new newSize size : Nat) (preInUse : Bool) (preSize : Nat) :
    GivesMapOk (h.reAllocFinish new newSize size preInUse preSize) := by
  unfold CBinMalloc.reAllocFinish
  refine GivesMapOk.choice (fun r hr => ?_) (GivesMapOk.done ?_)
  · obtain ⟨q, hq, rfl⟩ := Option.map_eq_some_iff.mp hr
    exact (MapOk.freeRemain _ hm hq).of_eq rfl rfl
  · exact hm.of_eq rfl rfl

theorem MapOk.interReAlloc (hm : h.MapOk) (handle req : Nat) : GivesMapOk (h.interReAlloc handle req) := by
  have hmalloc : GivesMapOk (h.interMalloc req) := fun _ hr => hm.interMalloc hr
  have hsame : ∀ q : Nat × Nat, GivesMapOk (some (h, q)) := fun _ => GivesMapOk.done hm
  unfold CBinMalloc.interReAlloc
  refine GivesMapOk.choice (hmalloc.map (fun _ hr => hr)) (GivesMapOk.choice (GivesMapOk.done (hm.interFree handle)) ?_)
  refine GivesMapOk.choice (hsame _) (GivesMapOk.choice (hsame _) (GivesMapOk.choice (hsame _) ?_))
  refine GivesMapOk.choice (hsame _) (GivesMapOk.choice (hsame _) (GivesMapOk.choice (hsame _) ?_))
  refine GivesMapOk.choice ((hm.reAllocFinish _ _ _ _ _).map (fun _ hr => hr)) (GivesMapOk.choice (GivesMapOk.done ?_) ?_)
  · exact hm.of_eq rfl rfl
  refine GivesMapOk.choice (GivesMapOk.map (MapOk.reAllocFinish (hm.unlinkBin _ _) _ _ _ _ _) (fun _ hr => hr)) ?_
  refine GivesMapOk.choice (GivesMapOk.map (MapOk.reAllocFinish ?_ _ _ _ _ _) (fun _ hr => hr)) ?_
  · exact (hm.unlinkBin _ _).of_eq rfl rfl
  · refine hmalloc.map (fun r hr => ?_)
    by_cases h0 : r.2 = invalidHandle
    · rw [if_pos h0]
      exact hr
    · rw [if_neg h0]
      refine MapOk.interFree ?_ _
      exact hr.of_eq rfl rfl

theorem MapOk.reAlloc (hm : h.MapOk) {handle req : Nat} {r : CBinMalloc × Nat} (hr : h.reAlloc handle req = some r) :
    r.1.MapOk := by
  unfold CBinMalloc.reAlloc at hr
  dsimp only at hr
  obtain ⟨q, hq, rfl⟩ := Option.map_eq_some_iff.mp hr
  have h0 : MapOk { h with tLastFreeChunkSize := 0 } := hm.of_eq rfl rfl
  have h1 := h0.interReAlloc handle req q hq
  split
  · split
    · exact h1.of_eq rfl rfl
    · exact h1.of_eq rfl rfl
  · split
    · exact h1.of_eq rfl rfl
    · exact h1.of_eq rfl rfl

end CBinMalloc

/-- The allocator in a memory of any size that `Init` accepts. -/
def anyHeapMachine : Machine HeapState HeapOp where
  start s := s.live = [] ∧ ∃ headSize mem tSize h, CBinMalloc.init headSize mem tSize = some h ∧
    (s.heap = h ∨ ∃ size < 2 ^ 32, s.heap = h.setMinChunkSize size)
  step := HeapState.step

theorem reachable_any {s : HeapState} (hs : heapMachine.Reachable s) : anyHeapMachine.Reachable s := by
  apply @Machine.reachable_induct _ _ heapMachine (fun s => anyHeapMachine.Reachable s) _ _ _ hs
  · rintro s ⟨hlive, headSize, mem, tSize, h, -, hi, hheap⟩
    exact ⟨s, [], ⟨hlive, headSize, mem, tSize, h, hi, hheap⟩, rfl⟩
  · intro s op s' h hst
    exact h.next hst

theorem mapOk_of_any {s : HeapState} (hs : anyHeapMachine.Reachable s) : s.heap.MapOk := by
  refine @Machine.reachable_induct _ _ anyHeapMachine (fun s => s.heap.MapOk) ?_ ?_ _ hs
  · rintro s ⟨-, headSize, mem, tSize, h, hi, hheap⟩
    have hempty : h.MapOk := by
      unfold CBinMalloc.init at hi
      split at hi
      · cases hi
      · obtain rfl := Option.some.inj hi
        intro i he
        cases he
    rcases hheap with hheap | ⟨size, -, hheap⟩
    · rw [hheap]
      exact hempty
    · rw [hheap]
      exact hempty.of_eq rfl rfl
  · intro s op s' hm hst
    have hst : s.step op = some s' := hst
    cases op with
    | malloc req =>
      obtain ⟨r, hr, rfl⟩ := Option.map_eq_some_iff.mp hst
      exact hm.malloc hr
    | calloc req =>
      obtain ⟨r, hr, rfl⟩ := Option.map_eq_some_iff.mp hst
      exact hm.calloc hr
    | reAlloc handle req =>
      rw [HeapState.step] at hst
      split at hst
      · obtain ⟨r, hr, rfl⟩ := Option.map_eq_some_iff.mp hst
        exact hm.reAlloc hr
      · cases hst
    | free handle =>
      rw [HeapState.step] at hst
      split at hst
      · obtain rfl := Option.some.inj hst
        exact hm.free handle
      · cases hst
    | write handle offset bytes =>
      rw [HeapState.step] at hst
      split at hst
      · obtain rfl := Option.some.inj hst
        exact hm.of_eq rfl rfl
      · cases hst

theorem mapOk_of_reachable {s : HeapState} (hs : heapMachine.Reachable s) : s.heap.MapOk := mapOk_of_any (reachable_any hs)

end Dtc
