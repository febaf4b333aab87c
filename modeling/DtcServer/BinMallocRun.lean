import DtcServer.BinMallocReAlloc
import DtcServer.Machine
/-!
# BinMallocRun — the allocator and its users

A run begins with `Init` and a smallest chunk size; the users allocate, resize, free and write in their blocks. Which chunks
are free is told by the handles the users have.
-/
namespace Dtc

open Memory CBinMalloc Rings

/-- The allocator and the handles its users have. -/
structure HeapState where
  heap : CBinMalloc
  live : List Nat

inductive HeapOp where
  | malloc (req : Nat)
  | calloc (req : Nat)
  | reAlloc (handle req : Nat)
  | free (handle : Nat)
  /-- the user of a handle writes in its block -/
  | write (handle offset : Nat) (bytes : List UInt8)

namespace HeapState

def received (s : HeapState) (r : CBinMalloc × Nat) : HeapState :=
  ⟨r.1, if r.2 ≠ invalidHandle then r.2 :: s.live else s.live⟩

def resized (s : HeapState) (handle req : Nat) (r : CBinMalloc × Nat) : HeapState :=
  ⟨r.1, if r.2 ≠ invalidHandle then r.2 :: s.live.erase handle
    else if req = 0 then s.live.erase handle else s.live⟩

def step (s : HeapState) : HeapOp → Option HeapState
  | .malloc req => (s.heap.malloc req).map s.received
  | .calloc req => (s.heap.calloc req).map s.received
  | .reAlloc handle req =>
    if handle ∈ s.live then (s.heap.reAlloc handle req).map (s.resized handle req) else none
  | .free handle =>
    if handle ∈ s.live then
      let r := s.heap.free handle
      some ⟨r.1, if r.2 = 0 then s.live.erase handle else s.live⟩
    else none
  | .write handle offset bytes =>
    if handle ∈ s.live ∧ offset + bytes.length ≤ s.heap.chunkSize handle then
      some { s with heap := { s.heap with mem := writeBytes s.heap.mem (handle + offset) bytes } }
    else none

end HeapState

/-- The allocator from `Init` on, with the smallest chunk size set or not. -/
def heapMachine : Machine HeapState HeapOp where
  start s := s.live = [] ∧ ∃ headSize mem tSize h, tSize ≤ 2 ^ 32 ∧ CBinMalloc.init headSize mem tSize = some h ∧
    (s.heap = h ∨ ∃ size < 2 ^ 32, s.heap = h.setMinChunkSize size)
  step := HeapState.step

def Block.handle (B : Block) : Nat := B.addr + 8

def sizes (bs : List Block) : Nat := (bs.map Block.size).sum

theorem sizes_cons (B : Block) (bs : List Block) : sizes (B :: bs) = B.size + sizes bs := by
  rw [sizes, List.map_cons, List.sum_cons]
  rfl

theorem sizes_perm {bs bs' : List Block} (hp : bs.Perm bs') : sizes bs = sizes bs' := (hp.map Block.size).sum_nat

/-- **The statistics** are those of the blocks in use. -/
structure Accounts (h : CBinMalloc) (bs : List Block) : Prop where
  size : h.tUserAllocSize = h.hBottom + sizes bs
  count : h.tUserAllocChunkCnt = bs.length
  total : h.statChunkTotal = bs.length
  data : h.statDataSize = h.tUserAllocSize
  min : h.minChunkSize = 1 ∨ 24 ≤ h.minChunkSize ∧ h.minChunkSize < 2 ^ 32

/-- **The allocator has the blocks `bs`.** -/
def HeapRep (h : CBinMalloc) (bs : List Block) : Prop :=
  ∃ bins cs, HeapInv h bins cs ∧ usedOf h.hBottom cs = bs ∧ Accounts h bs

theorem sizes_usedOf {m : Mem} {b : Nat} {q : Bool} : ∀ {cs : List Chunk} {a : Nat} {p : Bool}, Seg m a p cs b q →
    a + sizes (usedOf a cs) ≤ b ∧ 24 * (usedOf a cs).length ≤ sizes (usedOf a cs)
  | [], _, _, h => ⟨Nat.le_of_eq h.1, Nat.le_refl 0⟩
  | c :: cs, a, p, h => by
    obtain ⟨h1, h2⟩ := sizes_usedOf h.2
    have hmin := h.1.min
    rw [usedOf]
    cases c.content with
    | none =>
      dsimp only
      exact ⟨by omega, h2⟩
    | some bytes =>
      dsimp only
      rw [sizes_cons, List.length_cons]
      dsimp only
      exact ⟨by omega, by omega⟩

theorem usedOf_pairwise {m : Mem} {b : Nat} {q : Bool} : ∀ {cs : List Chunk} {a : Nat} {p : Bool}, Seg m a p cs b q →
    (usedOf a cs).Pairwise (fun B C => B.addr + B.size ≤ C.addr)
  | [], _, _, _ => List.Pairwise.nil
  | c :: cs, a, p, h => by
    rw [usedOf]
    cases c.content with
    | none => exact usedOf_pairwise h.2
    | some bytes => exact List.Pairwise.cons (fun C hC => (usedOf_bounds h.2 hC).1) (usedOf_pairwise h.2)

theorem HeapInv.recount {h h' : CBinMalloc} {bins : Nat → List Nat} {cs : List Chunk} (H : HeapInv h bins cs)
    (hmem : h'.mem = h.mem) (hbin : h'.bin = h.bin) (hbot : h'.hBottom = h.hBottom) (htop : h'.hTop = h.hTop)
    (hsize : h'.tSize = h.tSize) : HeapInv h' bins cs := by
  cases h
  cases h'
  dsimp only at hmem hbin hbot htop hsize
  subst hmem hbin hbot htop hsize
  exact ⟨⟨H.segFront, H.segBack, H.top, H.le, H.bottom, H.bottomAlign, H.align, H.room, H.bound⟩,
    ⟨H.bins.ring, H.bins.nodup, H.bins.mem⟩⟩

namespace HeapInv

variable {h : CBinMalloc} {bins : Nat → List Nat} {cs : List Chunk} {B : Block}

theorem chunkField (H : HeapInv h bins cs) (hB : B ∈ usedOf h.hBottom cs) : h.chunkField B.addr = B.size := by
  obtain ⟨front, back, p, -, H₁⟩ := H.cutUsed hB
  exact H₁.chunkField_behind

theorem chunkSize (H : HeapInv h bins cs) (hB : B ∈ usedOf h.hBottom cs) : h.chunkSize (B.addr + 8) = B.size - 4 := by
  obtain ⟨hbot, hend, hB24, -⟩ := usedOf_bounds H.segBack hB
  obtain ⟨front, back, p, -, -, hfield, H₂⟩ := H.takeOut hB
  have hsize : B.addr + B.size - B.addr = B.size := Nat.add_sub_cancel_left _ _
  have hcheck := H₂.checkInuse (Nat.le_refl _) (by omega) H₂.start_mod (by rw [hsize]; exact hfield) H₂.front_inUse
  have hmem : mem2chunk (B.addr + 8) = B.addr := Nat.add_sub_cancel _ 8
  unfold CBinMalloc.chunkSize
  rw [if_neg (by omega), hmem, hcheck, H.chunkField hB]
  rfl

theorem getMinChunkSize (H : HeapInv h bins cs) (A : Accounts h (usedOf h.hBottom cs)) : 24 ≤ h.getMinChunkSize := by
  obtain ⟨hfit, hcount⟩ := sizes_usedOf H.segBack
  have hroom := H.room
  have hbound := H.bound
  unfold CBinMalloc.getMinChunkSize allocSize
  rcases A.min with h1 | ⟨h24, hlt⟩
  · rw [if_pos h1, A.total, A.data, A.size]
    generalize hn : (usedOf h.hBottom cs).length = n at hcount
    by_cases h0 : n = 0
    · rw [if_pos h0]
      decide
    · rw [if_neg h0]
      have hle : 24 ≤ (h.hBottom + sizes (usedOf h.hBottom cs)) / n := by
        rw [Nat.le_div_iff_mul_le (Nat.pos_of_ne_zero h0)]
        omega
      have hdiv := Nat.div_le_self (h.hBottom + sizes (usedOf h.hBottom cs)) n
      rw [Nat.mod_eq_of_lt (by omega)]
      exact hle
  · rw [if_neg (by omega), Nat.mod_eq_of_lt hlt]
    exact h24

end HeapInv

theorem Accounts.same {h h' : CBinMalloc} {bs : List Block} (A : Accounts h bs) (hs : SameHead h h') : Accounts h' bs := by
  refine ⟨?_, ?_, ?_, ?_, ?_⟩
  · rw [hs.userSize, hs.hBottom]
    exact A.size
  · rw [hs.userCnt]
    exact A.count
  · rw [hs.chunkTotal]
    exact A.total
  · rw [hs.dataSize, hs.userSize]
    exact A.data
  · rw [hs.minChunkSize]
    exact A.min

namespace HeapRep

variable {h : CBinMalloc} {bs : List Block} {B : Block}

theorem init {headSize tSize : Nat} {mem : Mem} (hle : tSize ≤ 2 ^ 32) (hi : CBinMalloc.init headSize mem tSize = some h) :
    HeapRep h [] := by
  unfold CBinMalloc.init at hi
  split at hi
  · cases hi
  · rename_i hroom
    obtain rfl := Option.some.inj hi
    have hroom' : headSize + 16 * (128 + 64 + 1) + 4096 + 24 ≤ tSize := Nat.le_of_not_lt hroom
    have hbot : alignUp (alignUp (headSize + 16 * (128 + 64 + 1)) + 4096) % 8 = 0 ∧
        0 < alignUp (alignUp (headSize + 16 * (128 + 64 + 1)) + 4096) ∧
        alignUp (alignUp (headSize + 16 * (128 + 64 + 1)) + 4096) < tSize := by
      unfold alignUp
      omega
    refine ⟨fun _ => [], [], ⟨⟨⟨rfl, rfl⟩, ⟨rfl, rfl⟩, tChunkField_putChunkField (by decide), Nat.le_refl _, hbot.2.1, hbot.1,
      hbot.1, hbot.2.2, hle⟩, ⟨fun i => ?_, fun i => List.nodup_nil, fun i y => ?_⟩⟩, rfl, ?_⟩
    · exact List.IsChain.cons_cons ⟨rfl, rfl⟩ (List.IsChain.singleton _)
    · constructor
      · intro hy
        exact absurd hy List.not_mem_nil
      · rintro ⟨size, hy, -⟩
        exact absurd hy List.not_mem_nil
    · exact ⟨rfl, rfl, rfl, rfl, .inr ⟨Nat.le_refl 24, show 24 < 2 ^ 32 by decide⟩⟩

theorem setMinChunkSize (R : HeapRep h bs) {size : Nat} (hlt : size < 2 ^ 32) : HeapRep (h.setMinChunkSize size) bs := by
  obtain ⟨bins, cs, H, hbs, A⟩ := R
  refine ⟨bins, cs, H.recount rfl rfl rfl rfl rfl, hbs, ⟨A.size, A.count, A.total, A.data, ?_⟩⟩
  unfold CBinMalloc.setMinChunkSize
  dsimp only
  by_cases h1 : size = 1
  · rw [if_pos h1]
    exact .inl rfl
  · rw [if_neg h1]
    split
    · exact .inr ⟨Nat.le_refl 24, by decide⟩
    · rename_i h24
      exact .inr ⟨Nat.le_of_not_lt h24, hlt⟩

theorem forget (R : HeapRep h bs) : HeapRep { h with tLastFreeChunkSize := 0 } bs := by
  obtain ⟨bins, cs, H, hbs, A⟩ := R
  exact ⟨bins, cs, H.recount rfl rfl rfl rfl rfl, hbs, ⟨A.size, A.count, A.total, A.data, A.min⟩⟩

theorem malloc (R : HeapRep h bs) (req : Nat) :
    ∃ h' r bs', h.malloc req = some (h', r) ∧ HeapRep h' bs' ∧ ((r = invalidHandle ∧ bs' = bs) ∨
      ∃ N : Block, r = N.handle ∧ request2size req ≤ N.size ∧ bs'.Perm (N :: bs)) := by
  have R₀ := R.forget
  unfold CBinMalloc.malloc
  dsimp only
  generalize { h with tLastFreeChunkSize := 0 } = h₀ at R₀ ⊢
  obtain ⟨bins, cs, H, rfl, A⟩ := R₀
  obtain ⟨h₁, r, e, ha⟩ := H.interMalloc (H.getMinChunkSize A) req
  have hhead := ha.1
  have A₁ := A.same hhead
  rw [e, Option.map_some]
  obtain ⟨bins₁, cs₁, H₁, ⟨rfl, rfl⟩ | ⟨N, rfl, hN, hperm⟩⟩ := ha.blocks
  · refine ⟨h₁, invalidHandle, _, rfl, ⟨bins₁, cs₁, H₁, ?_, A₁⟩, .inl ⟨rfl, rfl⟩⟩
    rw [hhead.hBottom]
  · dsimp only
    rw [if_pos (Nat.succ_ne_zero _)]
    have hN₁ : N ∈ usedOf h₁.hBottom cs₁ := hperm.mem_iff.mpr List.mem_cons_self
    have hmem : mem2chunk (N.addr + 8) = N.addr := Nat.add_sub_cancel _ 8
    obtain ⟨hfit, hcount⟩ := sizes_usedOf H₁.segBack
    have hroom := H₁.room
    have hbound := H₁.bound
    have hlen := hperm.length_eq
    have hsum := sizes_perm hperm
    rw [List.length_cons] at hlen
    rw [sizes_cons] at hsum
    rw [hmem, H₁.chunkField hN₁]
    refine ⟨_, _, _, rfl, ⟨bins₁, cs₁, H₁.recount rfl rfl rfl rfl rfl, rfl, ?_⟩, .inr ⟨N, rfl, hN, hperm⟩⟩
    refine ⟨?_, ?_, ?_, rfl, A₁.min⟩
    · dsimp only
      rw [A₁.size, interSize]
      omega
    · dsimp only
      rw [A₁.count, interSize]
      omega
    · dsimp only
      rw [A₁.total, statItem]
      omega

theorem write (R : HeapRep h bs) (hB : B ∈ bs) {offset : Nat} {bytes : List UInt8}
    (hle : offset + bytes.length ≤ B.size - 4) :
    ∃ bs' B', HeapRep { h with mem := writeBytes h.mem (B.handle + offset) bytes } bs' ∧ B'.addr = B.addr ∧
      B'.size = B.size ∧ (B :: bs').Perm (B' :: bs) := by
  obtain ⟨bins, cs, H, rfl, A⟩ := R
  obtain ⟨-, -, hB24, -⟩ := usedOf_bounds H.segBack hB
  generalize hh' : { h with mem := writeBytes h.mem (B.handle + offset) bytes } = h'
  have hhead : SameHead h h' := by
    rw [← hh']
    exact ⟨rfl, rfl, rfl, rfl, rfl, rfl, rfl⟩
  obtain ⟨cs', B', H', haddr, hsize, -, hperm⟩ := H.writeUsed hB hhead (by rw [← hh']) (by rw [← hh']) (fun x hx => by
    rw [← hh']
    refine writeBytes_outside ?_
    unfold Block.handle
    omega)
  have hlen := hperm.length_eq
  have hsum := sizes_perm hperm
  rw [List.length_cons, List.length_cons] at hlen
  rw [sizes_cons, sizes_cons, hsize] at hsum
  have A' := A.same hhead
  refine ⟨_, B', ⟨bins, cs', H', rfl, ⟨?_, ?_, ?_, A'.data, A'.min⟩⟩, haddr, hsize, hperm⟩
  · rw [A'.size]
    omega
  · rw [A'.count]
    omega
  · rw [A'.total]
    omega

theorem calloc (R : HeapRep h bs) (req : Nat) :
    ∃ h' r bs', h.calloc req = some (h', r) ∧ HeapRep h' bs' ∧ ((r = invalidHandle ∧ bs' = bs) ∨
      ∃ N : Block, r = N.handle ∧ request2size req ≤ N.size ∧ bs'.Perm (N :: bs)) := by
  obtain ⟨h₁, r, bs₁, e, R₁, hcase⟩ := R.malloc req
  unfold CBinMalloc.calloc
  rw [e, Option.map_some]
  obtain ⟨rfl, rfl⟩ | ⟨N, rfl, hN, hperm⟩ := hcase
  · exact ⟨h₁, invalidHandle, bs₁, rfl, R₁, .inl ⟨rfl, rfl⟩⟩
  · obtain ⟨-, -, hreq, -⟩ := request2size_spec req
    have hne : N.handle ≠ invalidHandle := Nat.succ_ne_zero _
    rw [if_pos hne]
    obtain ⟨bs₂, N', R₂, haddr, hsize, hperm₂⟩ := R₁.write (hperm.mem_iff.mpr List.mem_cons_self)
      (show 0 + (List.replicate req (0 : UInt8)).length ≤ N.size - 4 by rw [List.length_replicate]; omega)
    refine ⟨_, _, bs₂, rfl, R₂, .inr ⟨N', ?_, ?_, ?_⟩⟩
    · rw [Block.handle, Block.handle, haddr]
    · rw [hsize]
      exact hN
    · exact (hperm₂.trans ((List.Perm.cons N' hperm).trans (List.Perm.swap _ _ _))).cons_inv

theorem uncount {h' : CBinMalloc} {bins : Nat → List Nat} {cs : List Chunk} (A : Accounts h bs)
    (H : HeapInv h' bins cs) (hhead : SameHead h h') (hperm : bs.Perm (B :: usedOf h'.hBottom cs)) :
    HeapRep { h' with
      tUserAllocSize := interSize (h'.tUserAllocSize - B.size)
      tUserAllocChunkCnt := interSize (h'.tUserAllocChunkCnt - 1)
      statChunkTotal := statItem (h'.statChunkTotal - 1)
      statDataSize := interSize (h'.tUserAllocSize - B.size) } (usedOf h'.hBottom cs) := by
  have A' := A.same hhead
  have hlen := hperm.length_eq
  have hsum := sizes_perm hperm
  obtain ⟨hfit, hcount⟩ := sizes_usedOf H.segBack
  have hroom := H.room
  have hbound := H.bound
  rw [List.length_cons] at hlen
  rw [sizes_cons] at hsum
  refine ⟨bins, cs, H.recount rfl rfl rfl rfl rfl, rfl, ⟨?_, ?_, ?_, rfl, A'.min⟩⟩
  · dsimp only
    rw [A'.size, interSize]
    omega
  · dsimp only
    rw [A'.count, interSize]
    omega
  · dsimp only
    rw [A'.total, statItem]
    omega

theorem free (R : HeapRep h bs) (hB : B ∈ bs) :
    ∃ h' bs', h.free B.handle = (h', 0) ∧ HeapRep h' bs' ∧ bs.Perm (B :: bs') := by
  obtain ⟨bins, cs, H, rfl, A⟩ := R
  obtain ⟨h', bins', cs', e, H', hperm, hhead⟩ := H.interFree hB
  unfold CBinMalloc.free Block.handle
  rw [e]
  exact ⟨_, _, rfl, uncount A H' hhead hperm, hperm⟩

/-- **`ReAlloc`** of a block: with 0 it is freed, else it fails and nothing has changed, or the new block has the old
one's first bytes. -/
theorem reAlloc (R : HeapRep h bs) (hB : B ∈ bs) (req : Nat) :
    ∃ h' r bs', h.reAlloc B.handle req = some (h', r) ∧ HeapRep h' bs' ∧
      ((req = 0 ∧ r = invalidHandle ∧ bs.Perm (B :: bs')) ∨ (req ≠ 0 ∧ r = invalidHandle ∧ bs' = bs) ∨
        (req ≠ 0 ∧ ∃ N : Block, r = N.handle ∧ request2size req ≤ N.size ∧ (B :: bs').Perm (N :: bs) ∧
          N.content.take (min (B.size - 4) req) = B.content.take (min (B.size - 4) req))) := by
  have R₀ := R.forget
  unfold CBinMalloc.reAlloc
  dsimp only
  generalize { h with tLastFreeChunkSize := 0 } = h₀ at R₀ ⊢
  obtain ⟨bins, cs, H, rfl, A⟩ := R₀
  by_cases hreq : req = 0
  · obtain ⟨h', bins', cs', e, H', hperm, hhead⟩ := H.interFree hB
    have hre : h₀.interReAlloc B.handle req = some (h', invalidHandle, B.size) := by
      unfold CBinMalloc.interReAlloc Block.handle
      rw [if_neg (Nat.succ_ne_zero _), if_pos hreq, e]
    rw [hre, Option.map_some, if_neg (fun hne => hne rfl), if_pos hreq]
    exact ⟨_, _, _, rfl, uncount A H' hhead hperm, .inl ⟨hreq, rfl, hperm⟩⟩
  · obtain ⟨h', r, old, e, ⟨hhead, bins', cs', H', hcase⟩, hold⟩ := H.interReAlloc hB (H.getMinChunkSize A) hreq
    have A' := A.same hhead
    rw [Block.handle, e, Option.map_some]
    obtain ⟨rfl, hused⟩ | ⟨N, rfl, hN, hperm, hcontent⟩ := hcase
    · rw [if_neg (fun hne => hne rfl), if_neg hreq]
      exact ⟨_, _, _, rfl, ⟨bins', cs', H', hused, A'⟩, .inr (.inl ⟨hreq, rfl, rfl⟩)⟩
    · obtain rfl := hold (Nat.succ_ne_zero _)
      have hN' : N ∈ usedOf h'.hBottom cs' := by
        rcases List.mem_cons.mp (hperm.mem_iff.mpr List.mem_cons_self) with rfl | hN'
        · exact hperm.cons_inv.mem_iff.mpr hB
        · exact hN'
      have hlen := hperm.length_eq
      have hsum := sizes_perm hperm
      rw [List.length_cons, List.length_cons] at hlen
      rw [sizes_cons, sizes_cons] at hsum
      have hmem : mem2chunk (N.addr + 8) = N.addr := Nat.add_sub_cancel _ 8
      have hB0 : ¬ B.addr + 8 = invalidHandle := Nat.succ_ne_zero _
      dsimp only
      rw [if_pos (Nat.succ_ne_zero _), if_neg hB0, hmem, H'.chunkField hN']
      refine ⟨_, _, _, rfl, ⟨bins', cs', H'.recount rfl rfl rfl rfl rfl, rfl, ?_⟩,
        .inr (.inr ⟨hreq, N, rfl, hN, hperm, hcontent⟩)⟩
      obtain ⟨hfit, -⟩ := sizes_usedOf H'.segBack
      have hroom := H'.room
      have hbound := H'.bound
      refine ⟨?_, ?_, ?_, rfl, A'.min⟩
      · dsimp only
        rw [A'.size, interSize]
        omega
      · dsimp only
        rw [A'.count]
        omega
      · dsimp only
        rw [A'.total]
        omega

end HeapRep

/-- The allocator has the blocks `bs`, and their handles are the users'. -/
def HeapState.Has (s : HeapState) (bs : List Block) : Prop := HeapRep s.heap bs ∧ s.live.Perm (bs.map Block.handle)

/-- An operation on handles the users have, a write within its block. -/
def HeapState.Possible (s : HeapState) : HeapOp → Prop
  | .malloc _ => True
  | .calloc _ => True
  | .reAlloc handle _ => handle ∈ s.live
  | .free handle => handle ∈ s.live
  | .write handle offset bytes => handle ∈ s.live ∧ offset + bytes.length ≤ s.heap.chunkSize handle

def HeapOp.target : HeapOp → Nat
  | .malloc _ => invalidHandle
  | .calloc _ => invalidHandle
  | .reAlloc handle _ => handle
  | .free handle => handle
  | .write handle _ _ => handle

namespace HeapState

variable {s s' : HeapState} {bs : List Block} {op : HeapOp}

theorem Has.block (hs : s.Has bs) {handle : Nat} (hlive : handle ∈ s.live) : ∃ B ∈ bs, B.handle = handle :=
  List.mem_map.mp (hs.2.mem_iff.mp hlive)

theorem Has.mem_live (hs : s.Has bs) {B : Block} (hB : B ∈ bs) : B.handle ∈ s.live :=
  hs.2.mem_iff.mpr (List.mem_map_of_mem hB)

theorem Has.sees (hs : s.Has bs) {B : Block} (hB : B ∈ bs) :
    s.heap.chunkSize B.handle = B.size - 4 ∧ readBytes s.heap.mem B.handle (B.size - 4) = B.content := by
  obtain ⟨⟨bins, cs, H, rfl, -⟩, -⟩ := hs
  obtain ⟨-, -, -, hread⟩ := usedOf_bounds H.segBack hB
  exact ⟨H.chunkSize hB, hread⟩

theorem Has.received (hs : s.Has bs) {h' : CBinMalloc} {r : Nat} {bs' : List Block} {N : Block} (R' : HeapRep h' bs')
    (hr : r = N.handle) (hperm : bs'.Perm (N :: bs)) : (s.received (h', r)).Has bs' := by
  have hne : r ≠ invalidHandle := by
    rw [hr]
    exact Nat.succ_ne_zero _
  refine ⟨R', ?_⟩
  unfold HeapState.received
  rw [if_pos hne, hr]
  refine (List.Perm.cons _ hs.2).trans ?_
  exact (hperm.map Block.handle).symm

theorem Has.erase (hs : s.Has bs) {B : Block} {bs' : List Block} (hperm : bs.Perm (B :: bs')) :
    (s.live.erase B.handle).Perm (bs'.map Block.handle) := by
  have hp := (hs.2.trans (hperm.map Block.handle)).erase B.handle
  rwa [List.map_cons, List.erase_cons_head] at hp

theorem Has.exchange (hs : s.Has bs) {B N : Block} {bs' : List Block} (hB : B ∈ bs) (hperm : (B :: bs').Perm (N :: bs)) :
    (N.handle :: s.live.erase B.handle).Perm (bs'.map Block.handle) := by
  have h1 := hperm.map Block.handle
  rw [List.map_cons, List.map_cons] at h1
  have h2 : (N.handle :: bs.map Block.handle).Perm (B.handle :: N.handle :: s.live.erase B.handle) :=
    (List.Perm.cons _ (hs.2.symm.trans (List.perm_cons_erase (hs.mem_live hB)))).trans (List.Perm.swap _ _ _)
  exact (h1.trans h2).cons_inv.symm

theorem Has.step (hs : s.Has bs) (hop : s.Possible op) :
    ∃ s' bs', s.step op = some s' ∧ s'.Has bs' ∧ ∀ C ∈ bs, C.handle ≠ op.target → C ∈ bs' := by
  cases op with
  | malloc req =>
    obtain ⟨h', r, bs', e, R', ⟨rfl, rfl⟩ | ⟨N, hr, -, hperm⟩⟩ := hs.1.malloc req
    · exact ⟨⟨h', s.live⟩, bs', by rw [HeapState.step, e]; rfl, ⟨R', hs.2⟩, fun C hC _ => hC⟩
    · exact ⟨_, bs', by rw [HeapState.step, e]; rfl, hs.received R' hr hperm,
        fun C hC _ => hperm.mem_iff.mpr (List.mem_cons_of_mem _ hC)⟩
  | calloc req =>
    obtain ⟨h', r, bs', e, R', ⟨rfl, rfl⟩ | ⟨N, hr, -, hperm⟩⟩ := hs.1.calloc req
    · exact ⟨⟨h', s.live⟩, bs', by rw [HeapState.step, e]; rfl, ⟨R', hs.2⟩, fun C hC _ => hC⟩
    · exact ⟨_, bs', by rw [HeapState.step, e]; rfl, hs.received R' hr hperm,
        fun C hC _ => hperm.mem_iff.mpr (List.mem_cons_of_mem _ hC)⟩
  | reAlloc handle req =>
    have hlive : handle ∈ s.live := hop
    obtain ⟨B, hB, rfl⟩ := hs.block hlive
    obtain ⟨h', r, bs', e, R', hcase⟩ := hs.1.reAlloc hB req
    have hst : s.step (.reAlloc B.handle req) = some (s.resized B.handle req (h', r)) := by
      rw [HeapState.step, if_pos hlive, e, Option.map_some]
    refine ⟨_, bs', hst, ?_⟩
    unfold resized
    dsimp only
    obtain ⟨h0, rfl, hperm⟩ | ⟨h0, rfl, rfl⟩ | ⟨-, N, rfl, -, hperm, -⟩ := hcase
    · rw [if_neg (fun hne => hne rfl), if_pos h0]
      refine ⟨⟨R', hs.erase hperm⟩, fun C hC hne => ?_⟩
      rcases List.mem_cons.mp (hperm.mem_iff.mp hC) with rfl | hC
      · exact absurd rfl hne
      · exact hC
    · rw [if_neg (fun hne => hne rfl), if_neg h0]
      exact ⟨⟨R', hs.2⟩, fun C hC _ => hC⟩
    · have hne : N.handle ≠ invalidHandle := Nat.succ_ne_zero _
      rw [if_pos hne]
      refine ⟨⟨R', hs.exchange hB hperm⟩, fun C hC hne => ?_⟩
      rcases List.mem_cons.mp (hperm.mem_iff.mpr (List.mem_cons_of_mem _ hC)) with rfl | hC
      · exact absurd rfl hne
      · exact hC
  | free handle =>
    have hlive : handle ∈ s.live := hop
    obtain ⟨B, hB, rfl⟩ := hs.block hlive
    obtain ⟨h', bs', e, R', hperm⟩ := hs.1.free hB
    refine ⟨⟨h', s.live.erase B.handle⟩, bs', ?_, ⟨R', hs.erase hperm⟩, fun C hC hne => ?_⟩
    · rw [HeapState.step, if_pos hlive, e]
      rfl
    · rcases List.mem_cons.mp (hperm.mem_iff.mp hC) with rfl | hC
      · exact absurd rfl hne
      · exact hC
  | write handle offset bytes =>
    have hcan : handle ∈ s.live ∧ offset + bytes.length ≤ s.heap.chunkSize handle := hop
    obtain ⟨B, hB, rfl⟩ := hs.block hcan.1
    have hlen := hcan.2
    rw [(hs.sees hB).1] at hlen
    obtain ⟨bs', B', R', haddr, -, hperm⟩ := hs.1.write hB hlen
    refine ⟨_, bs', by rw [HeapState.step, if_pos hcan], ⟨R', ?_⟩, fun C hC hne => ?_⟩
    · have h1 := hperm.map Block.handle
      have hh : B'.handle = B.handle := by rw [Block.handle, Block.handle, haddr]
      rw [List.map_cons, List.map_cons, hh] at h1
      exact hs.2.trans h1.cons_inv.symm
    · rcases List.mem_cons.mp (hperm.mem_iff.mpr (List.mem_cons_of_mem _ hC)) with rfl | hC
      · exact absurd rfl hne
      · exact hC

theorem possible_of_step (hst : s.step op = some s') : s.Possible op := by
  cases op with
  | malloc req => trivial
  | calloc req => trivial
  | reAlloc handle req =>
    rw [HeapState.step] at hst
    split at hst
    · assumption
    · cases hst
  | free handle =>
    rw [HeapState.step] at hst
    split at hst
    · assumption
    · cases hst
  | write handle offset bytes =>
    rw [HeapState.step] at hst
    split at hst
    · assumption
    · cases hst

theorem has_of_reachable (hs : heapMachine.Reachable s) : ∃ bs, s.Has bs := by
  refine @Machine.reachable_induct _ _ heapMachine (fun s => ∃ bs, s.Has bs) ?_ ?_ _ hs
  · rintro s ⟨hlive, headSize, mem, tSize, h, hle, hi, hheap⟩
    have R := HeapRep.init hle hi
    refine ⟨[], ?_, by rw [hlive]; exact List.Perm.nil⟩
    rcases hheap with hheap | ⟨size, hlt, hheap⟩
    · rw [hheap]
      exact R
    · rw [hheap]
      exact R.setMinChunkSize hlt
  · rintro s op s' ⟨bs, hs⟩ hst
    obtain ⟨s₁, bs', e, hs', -⟩ := hs.step (possible_of_step hst)
    have he : s.step op = some s' := hst
    rw [he] at e
    obtain rfl := Option.some.inj e
    exact ⟨bs', hs'⟩

end HeapState

/-- **The chunks from `a` up to the top**, of the given sizes: what the tags of each say, where `live` tells which are
in use. -/
def Tiled (h : CBinMalloc) (live : List Nat) : Nat → List Nat → Prop
  | a, [] => a = h.hTop
  | a, size :: sizes =>
    h.chunkField a = size ∧ size % 8 = 0 ∧ minSize ≤ size ∧ (h.prevInuse (a + size) = false ↔ a + 8 ∉ live) ∧
      (a + 8 ∉ live → h.tPreSize (a + size) = size ∧ a + size + 8 ∈ live) ∧ Tiled h live (a + size) sizes

def chunkStarts : Nat → List Nat → List Nat
  | _, [] => []
  | a, size :: sizes => a :: chunkStarts (a + size) sizes

/-- **A well-formed heap**: the chunks tile it, every handle is one's, and the bins are rings of the free ones. -/
structure HeapState.WellFormed (s : HeapState) (chunks : List Nat) (bins : Nat → List Nat) : Prop where
  tiled : Tiled s.heap s.live s.heap.hBottom chunks
  live : ∀ x ∈ s.live, ∃ a ∈ chunkStarts s.heap.hBottom chunks, x = a + 8
  liveNodup : s.live.Nodup
  ring : ∀ i, Ring (s.heap.ringNext i) (s.heap.ringPre i) invalidHandle (bins i)
  binNodup : ∀ i, (bins i).Nodup
  bin : ∀ i a, a ∈ bins i ↔
    a ∈ chunkStarts s.heap.hBottom chunks ∧ a + 8 ∉ s.live ∧ binIndex (s.heap.chunkField a) = i

/-- The chunks of a list that begins at `a`, and whether they are in use. -/
def cellsOf : Nat → List Chunk → List (Nat × Bool)
  | _, [] => []
  | a, c :: cs => (a, c.inUse) :: cellsOf (a + c.size) cs

theorem map_fst_cellsOf : ∀ (cs : List Chunk) (a : Nat), (cellsOf a cs).map Prod.fst = chunkStarts a (cs.map Chunk.size)
  | [], _ => rfl
  | c :: cs, a => by rw [cellsOf, List.map_cons, map_fst_cellsOf cs, List.map_cons, chunkStarts]

theorem cellsOf_le {m : Mem} {b : Nat} {q : Bool} : ∀ {cs : List Chunk} {a : Nat} {p : Bool} {d : Nat × Bool},
    Seg m a p cs b q → d ∈ cellsOf a cs → a ≤ d.1
  | [], _, _, _, _, hd => absurd hd List.not_mem_nil
  | c :: cs, a, p, d, h, hd => by
    rcases List.mem_cons.mp hd with rfl | hd
    · exact Nat.le_refl a
    · exact Nat.le_trans (Nat.le_add_right a c.size) (cellsOf_le h.2 hd)

theorem cellsOf_used {m : Mem} {b : Nat} {q : Bool} : ∀ {cs : List Chunk} {a : Nat} {p : Bool} {d : Nat × Bool},
    Seg m a p cs b q → d ∈ cellsOf a cs → ((∃ B ∈ usedOf a cs, B.addr = d.1) ↔ d.2 = true)
  | [], _, _, _, _, hd => absurd hd List.not_mem_nil
  | c :: cs, a, p, d, h, hd => by
    have hmin := h.1.min
    have htail : ∀ B ∈ usedOf (a + c.size) cs, a + c.size ≤ B.addr := fun B hB => (usedOf_bounds h.2 hB).1
    rw [usedOf]
    rcases List.mem_cons.mp hd with rfl | hd
    · cases hc : c.content with
      | none =>
        dsimp only
        rw [Chunk.inUse, hc]
        constructor
        · rintro ⟨B, hB, he⟩
          have := htail B hB
          omega
        · intro hf
          cases hf
      | some bytes =>
        dsimp only
        rw [Chunk.inUse, hc]
        exact ⟨fun _ => rfl, fun _ => ⟨_, List.mem_cons_self, rfl⟩⟩
    · have hle := cellsOf_le h.2 hd
      rw [← cellsOf_used h.2 hd]
      cases c.content with
      | none => exact Iff.rfl
      | some bytes =>
        dsimp only
        constructor
        · rintro ⟨B, hB, he⟩
          rcases List.mem_cons.mp hB with rfl | hB
          · dsimp only at he
            omega
          · exact ⟨B, hB, he⟩
        · rintro ⟨B, hB, he⟩
          exact ⟨B, List.mem_cons_of_mem _ hB, he⟩

theorem usedOf_cells : ∀ (cs : List Chunk) (a : Nat) (B : Block), B ∈ usedOf a cs → (B.addr, true) ∈ cellsOf a cs
  | [], _, _, hB => absurd hB List.not_mem_nil
  | c :: cs, a, B, hB => by
    rw [cellsOf]
    rw [usedOf] at hB
    split at hB
    · exact List.mem_cons_of_mem _ (usedOf_cells cs _ B hB)
    · rename_i bytes hc
      rcases List.mem_cons.mp hB with rfl | hB
      · rw [Chunk.inUse, hc]
        exact List.mem_cons_self
      · exact List.mem_cons_of_mem _ (usedOf_cells cs _ B hB)

theorem freeOf_cells : ∀ (cs : List Chunk) (a y : Nat), (∃ size, (y, size) ∈ freeOf a cs) ↔ (y, false) ∈ cellsOf a cs
  | [], _, _ => by
    constructor
    · rintro ⟨size, hy⟩
      exact absurd hy List.not_mem_nil
    · intro hy
      exact absurd hy List.not_mem_nil
  | c :: cs, a, y => by
    rw [freeOf, cellsOf, List.mem_cons, ← freeOf_cells cs (a + c.size) y]
    by_cases hu : c.inUse = true
    · rw [if_pos hu, hu]
      simp
    · rw [if_neg hu]
      simp only [List.mem_cons, Prod.mk.injEq]
      constructor
      · rintro ⟨size, ⟨rfl, -⟩ | hy⟩
        · exact .inl ⟨rfl, by simpa using hu⟩
        · exact .inr ⟨size, hy⟩
      · rintro (⟨rfl, -⟩ | ⟨size, hy⟩)
        · exact ⟨c.size, .inl ⟨rfl, rfl⟩⟩
        · exact ⟨size, .inr hy⟩

theorem Holed.advance {h : CBinMalloc} {bins : Nat → List Nat} {front back : List Chunk} {a : Nat} {p : Bool} {c : Chunk}
    (H : Holed h bins front a p a p (c :: back)) :
    Holed h bins (front ++ [c]) (a + c.size) c.inUse (a + c.size) c.inUse back := by
  have hseg : Seg h.mem h.hBottom true (front ++ [c]) (a + c.size) c.inUse :=
    seg_append.mpr ⟨a, p, H.segFront, H.segBack.1, rfl, rfl⟩
  have hmod := H.segBack.1.align
  have hamod := H.start_mod
  refine ⟨⟨hseg, H.segBack.2, H.top, Nat.le_refl _, H.bottom, H.bottomAlign, by omega, H.room, H.bound⟩, ?_⟩
  rw [← freeOf_append hseg, List.append_assoc, freeOf_append H.segFront]
  exact H.bins

theorem Holed.tiled {h : CBinMalloc} {bins : Nat → List Nat} {live : List Nat} : ∀ (back : List Chunk) {front : List Chunk}
    {a : Nat} {p : Bool}, Holed h bins front a p a p back → (∀ d ∈ cellsOf a back, d.1 + 8 ∈ live ↔ d.2 = true) →
    Tiled h live a (back.map Chunk.size)
  | [], _, _, _, H, _ => H.segBack.1
  | c :: back, front, a, p, H, hlive => by
    have H' := H.advance
    have hcell := H.segBack.1
    have hin : h.prevInuse (a + c.size) = c.inUse := H'.prevInuse_behind
    have ha : a + 8 ∈ live ↔ c.inUse = true := hlive (a, c.inUse) List.mem_cons_self
    refine ⟨H.chunkField_behind, hcell.align, hcell.min, ?_, fun hfree => ?_,
      Holed.tiled back H' (fun d hd => hlive d (List.mem_cons_of_mem _ hd))⟩
    · rw [hin, ha, Bool.not_eq_true]
    · rw [ha, Bool.not_eq_true] at hfree
      rw [hfree] at H'
      obtain ⟨d, ds, rfl, hd⟩ := H'.headUsed
      have hc : c.content = none := by rwa [Chunk.inUse, Option.isSome_eq_false_iff, Option.isNone_iff_eq_none] at hfree
      refine ⟨(hcell.free hc).2, (hlive (a + c.size, d.inUse) ?_).mpr hd⟩
      exact List.mem_cons_of_mem _ List.mem_cons_self

namespace HeapState

variable {s : HeapState} {bs : List Block}

theorem Has.liveNodup (hs : s.Has bs) : s.live.Nodup := by
  obtain ⟨⟨bins, cs, H, rfl, -⟩, hperm⟩ := hs
  rw [hperm.nodup_iff, List.nodup_iff_pairwise_ne, List.pairwise_map]
  refine (usedOf_pairwise H.segBack).imp_of_mem (fun {B C} hB _ hle he => ?_)
  have hmin := (usedOf_bounds H.segBack hB).2.2.1
  unfold Block.handle at he
  omega

theorem Has.wellFormed (hs : s.Has bs) : ∃ chunks bins, s.WellFormed chunks bins := by
  have hnd := hs.liveNodup
  obtain ⟨⟨bins, cs, H, rfl, -⟩, hperm⟩ := hs
  have hcells : ∀ d ∈ cellsOf s.heap.hBottom cs, d.1 + 8 ∈ s.live ↔ d.2 = true := by
    intro d hd
    rw [← cellsOf_used H.segBack hd, hperm.mem_iff, List.mem_map]
    constructor
    · rintro ⟨B, hB, he⟩
      exact ⟨B, hB, Nat.add_right_cancel he⟩
    · rintro ⟨B, hB, he⟩
      exact ⟨B, hB, by rw [Block.handle, he]⟩
  have hstarts : ∀ a, a ∈ chunkStarts s.heap.hBottom (cs.map Chunk.size) ↔ ∃ u, (a, u) ∈ cellsOf s.heap.hBottom cs := by
    intro a
    rw [← map_fst_cellsOf, List.mem_map]
    constructor
    · rintro ⟨d, hd, rfl⟩
      exact ⟨d.2, hd⟩
    · rintro ⟨u, hu⟩
      exact ⟨(a, u), hu, rfl⟩
  refine ⟨cs.map Chunk.size, bins, ⟨Holed.tiled cs H hcells, fun x hx => ?_, hnd, H.bins.ring, H.bins.nodup, fun i a => ?_⟩⟩
  · obtain ⟨B, hB, rfl⟩ := List.mem_map.mp (hperm.mem_iff.mp hx)
    exact ⟨B.addr, (hstarts B.addr).mpr ⟨true, usedOf_cells cs _ B hB⟩, rfl⟩
  · constructor
    · intro ha
      obtain ⟨size, hd, -⟩ := (H.bins.mem i a).mp ha
      have hcell := (freeOf_cells cs s.heap.hBottom a).mp ⟨size, hd⟩
      refine ⟨(hstarts a).mpr ⟨false, hcell⟩, ?_, H.chunkField_free ha⟩
      rw [hcells _ hcell]
      exact Bool.false_ne_true
    · rintro ⟨ha, hfree, hi⟩
      obtain ⟨u, hcell⟩ := (hstarts a).mp ha
      obtain rfl : u = false := by
        rw [hcells _ hcell] at hfree
        exact Bool.not_eq_true _ ▸ hfree
      obtain ⟨size, hd⟩ := (freeOf_cells cs s.heap.hBottom a).mpr hcell
      have hmem : a ∈ bins (binIndex size) := (H.bins.mem _ a).mpr ⟨size, hd, rfl⟩
      rw [← hi, H.chunkField_free hmem]
      exact hmem

end HeapState

def HeapState.Disjoint (s : HeapState) (x y : Nat) : Prop :=
  x + s.heap.chunkSize x ≤ y ∨ y + s.heap.chunkSize y ≤ x

/-- What the user of a handle sees is the same after a step. -/
def HeapState.Keeps (s s' : HeapState) (x : Nat) : Prop :=
  x ∈ s'.live ∧ s'.heap.chunkSize x = s.heap.chunkSize x ∧
    ∀ i, i < s.heap.chunkSize x → s'.heap.mem (x + i) = s.heap.mem (x + i)

namespace HeapState

variable {s s' : HeapState} {bs bs' : List Block}

theorem Has.disjoint (hs : s.Has bs) : s.live.Pairwise s.Disjoint := by
  have hsymm : ∀ {x y : Nat}, s.Disjoint x y → s.Disjoint y x := fun hd => Or.symm hd
  rw [hs.2.pairwise_iff hsymm, List.pairwise_map]
  have hsees : ∀ B ∈ bs, s.heap.chunkSize B.handle = B.size - 4 := fun B hB => (hs.sees hB).1
  obtain ⟨⟨bins, cs, H, rfl, -⟩, -⟩ := hs
  refine (usedOf_pairwise H.segBack).imp_of_mem (fun {B C} hB hC hle => .inl ?_)
  have hmin := (usedOf_bounds H.segBack hB).2.2.1
  rw [hsees B hB]
  unfold Block.handle
  omega

theorem Has.keeps (hs : s.Has bs) (hs' : s'.Has bs') {B : Block} (hB : B ∈ bs) (hB' : B ∈ bs') : s.Keeps s' B.handle := by
  obtain ⟨hsize, hread⟩ := hs.sees hB
  obtain ⟨hsize', hread'⟩ := hs'.sees hB'
  refine ⟨hs'.mem_live hB', by rw [hsize, hsize'], fun i hi => ?_⟩
  rw [hsize] at hi
  exact eq_of_readBytes_eq (hread'.trans hread.symm) hi

theorem Has.frame (hs : s.Has bs) {o : HeapOp} (hst : s.step o = some s') :
    (∃ bs', s'.Has bs') ∧ ∀ x ∈ s.live, x ≠ o.target → s.Keeps s' x := by
  obtain ⟨s₁, bs', e, hs', hframe⟩ := hs.step (possible_of_step hst)
  rw [hst] at e
  obtain rfl := Option.some.inj e
  refine ⟨⟨bs', hs'⟩, fun x hx hne => ?_⟩
  obtain ⟨B, hB, rfl⟩ := hs.block hx
  exact hs.keeps hs' hB (hframe B hB hne)

theorem Has.reAlloc (hs : s.Has bs) {handle req r : Nat} {h' : CBinMalloc} (hlive : handle ∈ s.live) (hreq : req ≠ 0)
    (he : s.heap.reAlloc handle req = some (h', r)) :
    (r = invalidHandle → s.Keeps (s.resized handle req (h', r)) handle) ∧
      (r ≠ invalidHandle → r ∈ (s.resized handle req (h', r)).live ∧ req ≤ h'.chunkSize r ∧
        ∀ i, i < min (s.heap.chunkSize handle) req → h'.mem (r + i) = s.heap.mem (handle + i)) := by
  obtain ⟨B, hB, rfl⟩ := hs.block hlive
  obtain ⟨h₁, r₁, bs', e, R', hcase⟩ := hs.1.reAlloc hB req
  rw [he] at e
  obtain ⟨rfl, rfl⟩ := Prod.mk.inj (Option.some.inj e)
  unfold resized
  obtain ⟨h0, -⟩ | ⟨-, rfl, rfl⟩ | ⟨-, N, rfl, hN, hperm, hcontent⟩ := hcase
  · exact absurd h0 hreq
  · rw [if_neg (fun hne => hne rfl), if_neg hreq]
    refine ⟨fun _ => hs.keeps (show HeapState.Has ⟨h', s.live⟩ _ from ⟨R', hs.2⟩) hB hB, fun hne => absurd rfl hne⟩
  · have hne : N.handle ≠ invalidHandle := Nat.succ_ne_zero _
    refine ⟨fun h0 => absurd h0 hne, fun _ => ?_⟩
    rw [if_pos hne]
    have hs' : HeapState.Has ⟨h', N.handle :: s.live.erase B.handle⟩ bs' := ⟨R', hs.exchange hB hperm⟩
    have hN' : N ∈ bs' := by
      rcases List.mem_cons.mp (hperm.mem_iff.mpr List.mem_cons_self) with rfl | hN'
      · exact hperm.cons_inv.mem_iff.mpr hB
      · exact hN'
    obtain ⟨-, -, hle, -⟩ := request2size_spec req
    obtain ⟨hsize, hread⟩ := hs.sees hB
    obtain ⟨hsize', hread'⟩ := hs'.sees hN'
    dsimp only at hsize' hread'
    refine ⟨List.mem_cons_self, by omega, fun i hi => ?_⟩
    rw [hsize] at hi
    refine eq_of_readBytes_eq (n := min (B.size - 4) req) ?_ hi
    rw [← hread, ← hread', take_readBytes _ _ _ _ (by omega), take_readBytes _ _ _ _ (by omega)] at hcontent
    exact hcontent

end HeapState

/-- A memory of 16 KiB after `Init`, with the average size as the smallest chunk. -/
def firstHeap : HeapState := ⟨((CBinMalloc.init 256 (fun _ => 0) 16384).get rfl).setMinChunkSize 1, []⟩

theorem firstHeap_start : heapMachine.start firstHeap :=
  ⟨rfl, 256, fun _ => 0, 16384, _, by decide, (Option.some_get _).symm, .inr ⟨1, by decide, rfl⟩⟩

def threeBlocks : List HeapOp := [.malloc 100, .malloc 20, .malloc 40, .write 7560 0 [1, 2, 3], .free 7448]

theorem threeBlocks_run : ∃ s, heapMachine.run firstHeap threeBlocks = some s ∧ s.live = [7592, 7560] := by
  have hrun : (heapMachine.run firstHeap threeBlocks).map HeapState.live = some [7592, 7560] := by decide
  exact Option.map_eq_some_iff.mp hrun

/-- **The heap is well formed** in every reachable state, and every operation on live handles returns. -/
theorem heapMachine_wellFormed {s : HeapState} (hs : heapMachine.Reachable s) :
    (∃ chunks bins, s.WellFormed chunks bins) ∧ ∀ op, s.Possible op → ∃ s', s.step op = some s' := by
  obtain ⟨bs, hbs⟩ := HeapState.has_of_reachable hs
  refine ⟨hbs.wellFormed, fun op hop => ?_⟩
  obtain ⟨s', -, hst, -⟩ := hbs.step hop
  exact ⟨s', hst⟩

theorem heapMachine_wellFormed_threeBlocks : ∃ s, s.live = [7592, 7560] ∧ heapMachine.Reachable s ∧
    (∃ chunks bins, s.WellFormed chunks bins) ∧ ∀ op, s.Possible op → ∃ s', s.step op = some s' := by
  obtain ⟨s, hrun, hlive⟩ := threeBlocks_run
  have hs : heapMachine.Reachable s := ⟨firstHeap, threeBlocks, firstHeap_start, hrun⟩
  exact ⟨s, hlive, hs, heapMachine_wellFormed hs⟩

end Dtc
