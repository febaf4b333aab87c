import DtcServer.BinMallocCalls
import DtcServer.Bits
import Mathlib.Logic.Function.Basic
/-!
# EmptyFilter — the filter of keys without rows (`CEmptyNodeFilter`)

A key has a bit in the table of its remainder by `enf_mod`.  The tables are blocks of the allocator; a table that is too short
for a key grows by `ReAlloc`, in steps.
-/
namespace Dtc

open Memory CBinMalloc

/-- `__set_b`, on its byte -/
def setB (b : UInt8) (shift : Nat) : UInt8 := b ||| (1 <<< UInt8.ofNat shift)

def clrB (b : UInt8) (shift : Nat) : UInt8 := b &&& ~~~(1 <<< UInt8.ofNat shift)

def issetB (b : UInt8) (shift : Nat) : Bool := decide ((0 : UInt8) < b &&& (1 <<< UInt8.ofNat shift))

/-- Bytes are written behind a pointer into the shared memory. -/
def HeapState.written (s : HeapState) (a : Nat) (bytes : List UInt8) : HeapState :=
  ⟨{ s.heap with mem := writeBytes s.heap.mem a bytes }, s.live⟩

/-- `ENF_TABLE_T` -/
structure EnfTable where
  tHandle : Nat := invalidHandle
  tSize : Nat := 0
  deriving DecidableEq, Repr

/-- The filter with its header (at the handle `header`) and the allocator that it shares with others.  `lastSet` says of a
key whether the last successful call was `SET`; `crashed` is set when the code follows a null pointer. -/
structure EmptyNodeFilter where
  heap : HeapState
  header : Nat
  enfStep : Nat
  enfMod : Nat
  enfTables : Nat → EnfTable := fun _ => {}
  lastSet : UInt32 → Bool := fun _ => false
  crashed : Bool := false

namespace EmptyNodeFilter

/-- `Init`: the header is for `enf_mod` tables. -/
def init (heap : HeapState) (step mod : UInt32) : Option EmptyNodeFilter :=
  let mod := if mod = 0 then 30000 else mod.toNat
  let step := if step = 0 then 512 else step.toNat
  match heap.heap.calloc ((16 + 16 * mod) % 2 ^ 32) with
  | none => none
  | some r =>
    if r.2 = invalidHandle then none
    else some { heap := heap.received r, header := r.2, enfStep := step, enfMod := mod }

variable (s : EmptyNodeFilter)

def index (key : UInt32) : Nat := key.toNat % s.enfMod

def offset (key : UInt32) : Nat := key.toNat / s.enfMod

def table (key : UInt32) : EnfTable := s.enfTables (s.index key)

/-- `ISSET`; `none` is a null pointer followed. -/
def isset (key : UInt32) : Option Bool :=
  if (s.table key).tSize < s.offset key / 8 + 1 then some false
  else if (s.table key).tHandle = invalidHandle then none
  else some (issetB (s.heap.heap.mem ((s.table key).tHandle + s.offset key / 8)) (s.offset key % 8))

def change (key : UInt32) (f : UInt8 → UInt8) (last : Bool) : Option EmptyNodeFilter :=
  if (s.table key).tHandle = invalidHandle then none
  else
    let a := (s.table key).tHandle + s.offset key / 8
    some { s with
      heap := s.heap.written a [f (s.heap.heap.mem a)]
      lastSet := Function.update s.lastSet key last }

/-- The size of a table that is to grow for a key, in the arithmetic of the code. -/
def growSize (key : UInt32) : Nat :=
  let incbyte := s.offset key / 8 + 1 - (s.table key).tSize
  let how := (incbyte + s.enfStep - 1) % 2 ^ 32 / s.enfStep
  ((s.table key).tSize + how * s.enfStep) % 2 ^ 32

/-- The table of a key, with another handle and size, after `ReAlloc` gave `r`. -/
def moved (key : UInt32) (size : Nat) (r : CBinMalloc × Nat) (tSize : Nat) : EmptyNodeFilter :=
  { s with
    heap := s.heap.resized (s.table key).tHandle size r
    enfTables := Function.update s.enfTables (s.index key) ⟨r.2, tSize⟩ }

/-- `SET`: a growth that fails is not tried again. -/
def set (key : UInt32) : Option EmptyNodeFilter :=
  if (s.table key).tSize < s.offset key / 8 + 1 then
    match s.heap.heap.reAlloc (s.table key).tHandle (s.growSize key) with
    | none => none
    | some r =>
      if r.2 = invalidHandle then some (s.moved key (s.growSize key) r (s.table key).tSize)
      else (s.moved key (s.growSize key) r (s.growSize key)).change key (fun b => setB b (s.offset key % 8)) true
  else s.change key (fun b => setB b (s.offset key % 8)) true

/-- `CLR`: a key behind its table has no bit. -/
def clr (key : UInt32) : Option EmptyNodeFilter :=
  if (s.table key).tSize < s.offset key / 8 + 1 then some { s with lastSet := Function.update s.lastSet key false }
  else s.change key (fun b => clrB b (s.offset key % 8)) false

def Owns (handle : Nat) : Prop :=
  handle = s.header ∨ handle ≠ invalidHandle ∧ ∃ i < s.enfMod, (s.enfTables i).tHandle = handle

instance (handle : Nat) : Decidable (s.Owns handle) := inferInstanceAs (Decidable (_ ∨ _ ∧ _))

end EmptyNodeFilter

/-- Calls of the filter, and of the other users of the allocator with handles of their own. -/
inductive FilterEvent where
  | set (key : UInt32)
  | clr (key : UInt32)
  | other (op : HeapOp)

namespace EmptyNodeFilter

def orCrash (s : EmptyNodeFilter) (r : Option EmptyNodeFilter) : EmptyNodeFilter := r.getD { s with crashed := true }

def step (s : EmptyNodeFilter) (a : FilterEvent) : Option EmptyNodeFilter :=
  if s.crashed then none
  else
    match a with
    | .set key => some (s.orCrash (s.set key))
    | .clr key => some (s.orCrash (s.clr key))
    | .other op => if s.Owns op.target then none else (s.heap.step op).map (fun heap => { s with heap := heap })

end EmptyNodeFilter

/-- The filter from `Init` on, in an allocator that others use before and meanwhile; neither the size of the header nor that
of a table that grows by a step exceeds 32 bits. -/
def filterMachine : Machine EmptyNodeFilter FilterEvent where
  start s := ∃ heap step mod, heapMachine.Reachable heap ∧ EmptyNodeFilter.init heap step mod = some s ∧
    16 + 16 * s.enfMod < 2 ^ 32 ∧ s.enfStep ≤ 2 ^ 32 - 2 ^ 29
  step := EmptyNodeFilter.step

/-- **A growth without harm**: a table that has bits gets a block for more of them, and in its new bytes the bits of the other
keys are 0. -/
def EmptyNodeFilter.GrowsWell (s : EmptyNodeFilter) (key : UInt32) (r : CBinMalloc × Nat) : Prop :=
  (r.2 = invalidHandle → (s.table key).tSize = 0) ∧
    (r.2 ≠ invalidHandle → ∀ off < 8 * s.growSize key, 8 * (s.table key).tSize ≤ off → off ≠ s.offset key →
      off * s.enfMod + s.index key < 2 ^ 32 → issetB (r.1.mem (r.2 + off / 8)) (off % 8) = false)

def EmptyNodeFilter.StepOk (s : EmptyNodeFilter) : FilterEvent → Prop
  | .set key => (s.table key).tSize < s.offset key / 8 + 1 →
    ∀ r ∈ s.heap.heap.reAlloc (s.table key).tHandle (s.growSize key), s.GrowsWell key r
  | .clr _ => True
  | .other _ => True

instance (s : EmptyNodeFilter) (key : UInt32) (r : CBinMalloc × Nat) : Decidable (s.GrowsWell key r) :=
  inferInstanceAs (Decidable ((_ → _) ∧ (_ → _)))

instance (s : EmptyNodeFilter) : ∀ a, Decidable (s.StepOk a)
  | .set _ => inferInstanceAs (Decidable (_ → _))
  | .clr _ => isTrue trivial
  | .other _ => isTrue trivial

/-! ## Bits of a byte -/

theorem issetB_eq (b : UInt8) {n : Nat} (hn : n < 8) : issetB b n = b.toBitVec.getLsbD n := by
  have hpos : (0 : UInt8) < b &&& (1 : UInt8) <<< UInt8.ofNat n ↔ b.toBitVec &&& 1#8 <<< n ≠ 0#8 := by
    rw [UInt8.pos_iff_ne_zero, ← Bits.toBitVec_oneBit hn, ← UInt8.toBitVec_and, Ne, ← UInt8.toBitVec_inj]
    rfl
  rw [issetB, Bool.eq_iff_iff, decide_eq_true_iff, hpos, Bits.and_oneBit_ne_zero hn]

theorem issetB_setB (b : UInt8) {m n : Nat} (hm : m < 8) (hn : n < 8) :
    issetB (setB b n) m = (issetB b m || decide (m = n)) := by
  rw [issetB_eq _ hm, issetB_eq _ hm, setB, UInt8.toBitVec_or, Bits.toBitVec_oneBit hn, Bits.getLsbD_set hn]

theorem issetB_clrB (b : UInt8) {m n : Nat} (hm : m < 8) (hn : n < 8) :
    issetB (clrB b n) m = (issetB b m && decide (m ≠ n)) := by
  rw [issetB_eq _ hm, issetB_eq _ hm, clrB, UInt8.toBitVec_and, UInt8.toBitVec_not, Bits.toBitVec_oneBit hn,
    Bits.getLsbD_clear hn]

/-! ## The allocator under the filter -/

namespace HeapState

variable {s s' : HeapState} {bs : List Block}

theorem Has.written (hs : s.Has bs) {handle offset : Nat} {bytes : List UInt8} (hlive : handle ∈ s.live)
    (hle : offset + bytes.length ≤ s.heap.chunkSize handle) :
    (∃ bs', (s.written (handle + offset) bytes).Has bs') ∧
      (∀ x ∈ s.live, (s.written (handle + offset) bytes).heap.chunkSize x = s.heap.chunkSize x) ∧
      ∀ x ∈ s.live, x ≠ handle → s.Keeps (s.written (handle + offset) bytes) x := by
  have hst : s.step (.write handle offset bytes) = some (s.written (handle + offset) bytes) := if_pos ⟨hlive, hle⟩
  obtain ⟨hhas', hframe⟩ := hs.frame hst
  refine ⟨hhas', fun x hx => ?_, hframe⟩
  by_cases hxh : x = handle
  · subst hxh
    obtain ⟨B, hB, rfl⟩ := hs.block hx
    rw [(hs.sees hB).1] at hle ⊢
    obtain ⟨bs', B', R', haddr, hsize, hperm⟩ := hs.1.write hB hle
    have hB' : B' ∈ bs' := by
      rcases List.mem_cons.mp (hperm.mem_iff.mpr List.mem_cons_self) with rfl | hB'
      · exact hperm.cons_inv.mem_iff.mpr hB
      · exact hB'
    have hhandle : B'.handle = B.handle := by rw [Block.handle, Block.handle, haddr]
    obtain ⟨bins, cs, H, rfl, -⟩ := R'
    rw [← hhandle, ← hsize]
    rw [← hhandle] at H hB'
    exact H.chunkSize hB'
  · exact (hframe x hx hxh).2.1

theorem Has.reAlloc_total (hs : s.Has bs) {handle req : Nat} (hreq : req ≠ 0)
    (hlive : handle = invalidHandle ∨ handle ∈ s.live) : ∃ r, s.heap.reAlloc handle req = some r := by
  rcases hlive with rfl | hlive
  · rw [reAlloc_invalidHandle (.inl hreq)]
    obtain ⟨h', r, bs', e, -⟩ := hs.1.malloc req
    exact ⟨_, e⟩
  · obtain ⟨B, hB, rfl⟩ := hs.block hlive
    obtain ⟨h', r, bs', e, -⟩ := hs.1.reAlloc hB req
    exact ⟨_, e⟩

theorem Has.grown (hs : s.Has bs) {handle req r : Nat} {h' : CBinMalloc} (hreq : req ≠ 0)
    (hlive : handle = invalidHandle ∨ handle ∈ s.live) (hr : s.heap.reAlloc handle req = some (h', r))
    (hne : r ≠ invalidHandle) :
    r ∈ (s.resized handle req (h', r)).live ∧ req ≤ h'.chunkSize r ∧ (∀ x ∈ s.live, x ≠ handle → x ≠ r) ∧
      (handle ≠ invalidHandle → ∀ i, i < min (s.heap.chunkSize handle) req → h'.mem (r + i) = s.heap.mem (handle + i)) := by
  have hlive' : (s.resized handle req (h', r)).live = r :: s.live.erase handle := if_pos hne
  have hfresh : ∀ x ∈ s.live, x ≠ handle → x ≠ r := by
    obtain ⟨op, -, hst⟩ := hs.resized_step (hlive.imp_left (fun h => ⟨h, .inl hreq⟩)) hr
    obtain ⟨⟨bs', hs'⟩, -⟩ := hs.frame hst
    have hnodup := hs'.liveNodup
    rw [hlive', List.nodup_cons] at hnodup
    rintro x hx hxh rfl
    exact hnodup.1 ((List.mem_erase_of_ne hxh).mpr hx)
  have hmem : r ∈ (s.resized handle req (h', r)).live := by
    rw [hlive']
    exact List.mem_cons_self
  rcases hlive with rfl | hlive
  · refine ⟨hmem, ?_, hfresh, fun h0 => absurd rfl h0⟩
    rw [reAlloc_invalidHandle (.inl hreq)] at hr
    obtain ⟨h₁, r₁, bs', e, R', hcase⟩ := hs.1.malloc req
    rw [hr] at e
    obtain ⟨rfl, rfl⟩ := Prod.mk.inj (Option.some.inj e)
    obtain ⟨h0, -⟩ | ⟨N, rfl, hN, hperm⟩ := hcase
    · exact absurd h0 hne
    · obtain ⟨hsize, -⟩ := (hs.received R' rfl hperm).sees (hperm.mem_iff.mpr List.mem_cons_self)
      obtain ⟨-, -, hle, -⟩ := request2size_spec req
      unfold HeapState.received at hsize
      dsimp only at hsize
      omega
  · obtain ⟨-, h2⟩ := hs.reAlloc hlive hreq hr
    obtain ⟨-, hle, hbytes⟩ := h2 hne
    exact ⟨hmem, hle, hfresh, fun _ => hbytes⟩

end HeapState

namespace EmptyNodeFilter

variable {s : EmptyNodeFilter} {key k : UInt32}

/-! ## Keys and bits -/

theorem index_lt (hmod : 0 < s.enfMod) (k : UInt32) : s.index k < s.enfMod := Nat.mod_lt _ hmod

theorem key_inj (hi : s.index k = s.index key) (ho : s.offset k = s.offset key) : k = key := by
  have h1 := Nat.div_add_mod k.toNat s.enfMod
  have h2 := Nat.div_add_mod key.toNat s.enfMod
  unfold index at hi
  unfold offset at ho
  rw [hi, ho] at h1
  exact UInt32.toNat_inj.mp (h1.symm.trans h2)

theorem offset_lt (k : UInt32) : s.offset k / 8 + 1 ≤ 2 ^ 29 := by
  have hlt : k.toNat < 2 ^ 32 := k.toNat_lt
  have hle : s.offset k ≤ k.toNat := Nat.div_le_self _ _
  omega

theorem growSize_spec (hpos : 0 < s.enfStep) (hstep : s.enfStep ≤ 2 ^ 32 - 2 ^ 29)
    (hshort : (s.table key).tSize < s.offset key / 8 + 1) :
    (s.table key).tSize < s.growSize key ∧ s.offset key / 8 + 1 ≤ s.growSize key := by
  have hoff := s.offset_lt key
  unfold growSize
  dsimp only
  generalize (s.table key).tSize = t at hshort ⊢
  generalize s.offset key / 8 + 1 = need at hshort hoff ⊢
  have h1 : (need - t + s.enfStep - 1) % 2 ^ 32 = need - t + s.enfStep - 1 := Nat.mod_eq_of_lt (by omega)
  have h2 := Nat.div_add_mod (need - t + s.enfStep - 1) s.enfStep
  have h3 := Nat.mod_lt (need - t + s.enfStep - 1) hpos
  rw [h1, Nat.mul_comm]
  generalize s.enfStep * ((need - t + s.enfStep - 1) / s.enfStep) = grow at h2 ⊢
  have h4 : (t + grow) % 2 ^ 32 = t + grow := Nat.mod_eq_of_lt (by omega)
  rw [h4]
  omega

/-! ## What holds of the tables -/

/-- **The tables are blocks of the filter's own**, each long enough for the bits it is said to have. -/
structure Sound (s : EmptyNodeFilter) : Prop where
  has : ∃ bs, s.heap.Has bs
  stepPos : 0 < s.enfStep
  stepLe : s.enfStep ≤ 2 ^ 32 - 2 ^ 29
  modPos : 0 < s.enfMod
  header : s.header ∈ s.heap.live
  empty : ∀ i < s.enfMod, ((s.enfTables i).tHandle = invalidHandle ↔ (s.enfTables i).tSize = 0)
  block : ∀ i < s.enfMod, (s.enfTables i).tHandle ≠ invalidHandle →
    (s.enfTables i).tHandle ∈ s.heap.live ∧ (s.enfTables i).tHandle ≠ s.header ∧
      (s.enfTables i).tSize ≤ s.heap.heap.chunkSize (s.enfTables i).tHandle
  apart : ∀ i < s.enfMod, ∀ j < s.enfMod, i ≠ j → (s.enfTables i).tHandle ≠ invalidHandle →
    (s.enfTables i).tHandle ≠ (s.enfTables j).tHandle

/-- The query answers the last successful call, for every key. -/
def Refines (s : EmptyNodeFilter) : Prop := ∀ key, s.isset key = some (s.lastSet key)

theorem isset_of_fits (hsize : s.offset k / 8 + 1 ≤ (s.table k).tSize) (hne : (s.table k).tHandle ≠ invalidHandle) :
    s.isset k = some (issetB (s.heap.heap.mem ((s.table k).tHandle + s.offset k / 8)) (s.offset k % 8)) := by
  unfold isset
  rw [if_neg (Nat.not_lt_of_le hsize), if_neg hne]

theorem isset_of_short (hsize : (s.table k).tSize < s.offset k / 8 + 1) : s.isset k = some false := if_pos hsize

theorem isset_of_byte (s' : EmptyNodeFilter) (hoff : s'.offset k = s.offset k)
    (hsize : s.offset k / 8 + 1 ≤ (s.table k).tSize) (hne : (s.table k).tHandle ≠ invalidHandle)
    (hsize' : s.offset k / 8 + 1 ≤ (s'.table k).tSize) (hne' : (s'.table k).tHandle ≠ invalidHandle)
    (hbyte : s'.heap.heap.mem ((s'.table k).tHandle + s.offset k / 8) =
      s.heap.heap.mem ((s.table k).tHandle + s.offset k / 8)) : s'.isset k = s.isset k := by
  rw [isset_of_fits hsize hne, isset_of_fits (hoff.symm ▸ hsize') hne', hoff, hbyte]

theorem Sound.tHandle_ne (hs : s.Sound) (hsize : s.offset k / 8 + 1 ≤ (s.table k).tSize) :
    (s.table k).tHandle ≠ invalidHandle := by
  intro h0
  have h1 := (hs.empty _ (index_lt hs.modPos k)).mp h0
  unfold table at hsize
  rw [h1] at hsize
  exact absurd hsize (Nat.not_succ_le_zero _)

theorem Sound.owns (hs : s.Sound) {i : Nat} (hi : i < s.enfMod) (hne : (s.enfTables i).tHandle ≠ invalidHandle) :
    (s.enfTables i).tHandle ∈ s.heap.live ∧ s.Owns (s.enfTables i).tHandle :=
  ⟨(hs.block i hi hne).1, .inr ⟨hne, i, hi, rfl⟩⟩

theorem Sound.inHeap {heap' : HeapState} (hs : s.Sound) (hhas : ∃ bs, heap'.Has bs)
    (hkeep : ∀ x ∈ s.heap.live, s.Owns x → x ∈ heap'.live ∧ heap'.heap.chunkSize x = s.heap.heap.chunkSize x) :
    Sound { s with heap := heap' } := by
  refine ⟨hhas, hs.stepPos, hs.stepLe, hs.modPos, (hkeep _ hs.header (.inl rfl)).1, hs.empty, fun i hi hne => ?_, hs.apart⟩
  obtain ⟨hlive, hown⟩ := hs.owns hi hne
  obtain ⟨-, hhead, hle⟩ := hs.block i hi hne
  obtain ⟨hlive', hsize'⟩ := hkeep _ hlive hown
  exact ⟨hlive', hhead, hle.trans (Nat.le_of_eq hsize'.symm)⟩

theorem Sound.isset_congr {heap' : HeapState} (hs : s.Sound)
    (hbyte : s.offset k / 8 + 1 ≤ (s.table k).tSize →
      heap'.heap.mem ((s.table k).tHandle + s.offset k / 8) = s.heap.heap.mem ((s.table k).tHandle + s.offset k / 8)) :
    isset { s with heap := heap' } k = s.isset k := by
  by_cases hsize : (s.table k).tSize < s.offset k / 8 + 1
  · rw [isset_of_short hsize]
    exact isset_of_short hsize
  · have hfit := Nat.le_of_not_lt hsize
    have hne := hs.tHandle_ne hfit
    exact isset_of_byte { s with heap := heap' } rfl hfit hne hfit hne (hbyte hfit)

theorem Sound.kept {heap' : HeapState} (hs : s.Sound) (hhas : ∃ bs, heap'.Has bs)
    (hkeep : ∀ x ∈ s.heap.live, s.Owns x → s.heap.Keeps heap' x) :
    Sound { s with heap := heap' } ∧ ∀ k, isset { s with heap := heap' } k = s.isset k := by
  refine ⟨hs.inHeap hhas (fun x hx hown => ⟨(hkeep x hx hown).1, (hkeep x hx hown).2.1⟩),
    fun k => hs.isset_congr (fun hfit => ?_)⟩
  have hi := index_lt hs.modPos k
  have hne := hs.tHandle_ne hfit
  obtain ⟨hlive, hown⟩ := hs.owns hi hne
  exact (hkeep _ hlive hown).2.2 _ (Nat.lt_of_lt_of_le hfit (hs.block _ hi hne).2.2)

theorem Sound.change (hs : s.Sound) {f : UInt8 → UInt8} {last : Bool}
    (hf : ∀ b n, n < 8 → issetB (f b) n = if n = s.offset key % 8 then last else issetB b n)
    (hfit : s.offset key / 8 + 1 ≤ (s.table key).tSize) :
    ∃ s', s.change key f last = some s' ∧ s'.Sound ∧ s'.isset key = some last ∧ (∀ k, k ≠ key → s'.isset k = s.isset k) ∧
      s'.lastSet = Function.update s.lastSet key last ∧ s'.crashed = s.crashed := by
  have hi := index_lt hs.modPos key
  have hne := hs.tHandle_ne hfit
  obtain ⟨hlive, -, hle⟩ := hs.block _ hi hne
  obtain ⟨bs, hbs⟩ := hs.has
  unfold EmptyNodeFilter.change
  rw [if_neg hne]
  dsimp only
  generalize hb : f (s.heap.heap.mem ((s.table key).tHandle + s.offset key / 8)) = b
  have hlive : (s.table key).tHandle ∈ s.heap.live := hlive
  have hroom : s.offset key / 8 + [b].length ≤ s.heap.heap.chunkSize (s.table key).tHandle := hfit.trans hle
  obtain ⟨hhas', hsizes, hframe⟩ := hbs.written hlive hroom
  have hmem : (s.heap.written ((s.table key).tHandle + s.offset key / 8) [b]).heap.mem =
      writeBytes s.heap.heap.mem ((s.table key).tHandle + s.offset key / 8) [b] := rfl
  have hlive' : (s.heap.written ((s.table key).tHandle + s.offset key / 8) [b]).live = s.heap.live := rfl
  generalize s.heap.written ((s.table key).tHandle + s.offset key / 8) [b] = heap' at hhas' hsizes hframe hmem hlive' ⊢
  have hsound : Sound { s with heap := heap' } := hs.inHeap hhas' (fun x hx _ => ⟨hlive' ▸ hx, hsizes x hx⟩)
  have hbit : heap'.heap.mem ((s.table key).tHandle + s.offset key / 8) = b := by
    rw [hmem]
    exact (List.cons.inj (readBytes_writeBytes s.heap.heap.mem [b] _)).1
  refine ⟨_, rfl, ⟨hsound.has, hsound.stepPos, hsound.stepLe, hsound.modPos, hsound.header, hsound.empty, hsound.block,
    hsound.apart⟩, ?_, fun k hk => ?_, rfl, rfl⟩
  · refine (isset_of_fits (s := { s with heap := heap' }) (k := key) hfit hne).trans ?_
    change some (issetB (heap'.heap.mem ((s.table key).tHandle + s.offset key / 8)) (s.offset key % 8)) = some last
    rw [hbit, ← hb, hf _ _ (Nat.mod_lt _ (by decide)), if_pos rfl]
  · change isset { s with heap := heap' } k = s.isset k
    by_cases hik : s.index k = s.index key
    · have htab : s.table k = s.table key := congrArg s.enfTables hik
      by_cases hbyte : s.offset k / 8 = s.offset key / 8
      · -- the same byte: another bit of it
        have hbitne : ¬ s.offset k % 8 = s.offset key % 8 := fun h => hk (key_inj hik (by omega))
        have hfitk : s.offset k / 8 + 1 ≤ (s.table k).tSize := by rw [hbyte, htab]; exact hfit
        have hnek : (s.table k).tHandle ≠ invalidHandle := by rw [htab]; exact hne
        rw [isset_of_fits hfitk hnek]
        refine (isset_of_fits (s := { s with heap := heap' }) (k := k) hfitk hnek).trans ?_
        change some (issetB (heap'.heap.mem ((s.table k).tHandle + s.offset k / 8)) (s.offset k % 8)) = _
        rw [htab, hbyte, hbit, ← hb, hf _ _ (Nat.mod_lt _ (by decide)), if_neg hbitne]
      · refine hs.isset_congr (fun _ => ?_)
        rw [hmem, htab]
        refine writeBytes_outside ?_
        rw [List.length_singleton]
        omega
    · refine hs.isset_congr (fun hfitk => ?_)
      have hnek := hs.tHandle_ne hfitk
      have hik' := index_lt hs.modPos k
      obtain ⟨hlivek, -, hlek⟩ := hs.block _ hik' hnek
      exact (hframe _ hlivek (hs.apart _ hik' _ hi hik hnek)).2.2 _ (Nat.lt_of_lt_of_le hfitk hlek)

theorem Sound.apart_live (hs : s.Sound) {i : Nat} (hi : i < s.enfMod) :
    ((s.enfTables i).tHandle = invalidHandle ∨ (s.enfTables i).tHandle ∈ s.heap.live) ∧
      s.header ≠ (s.enfTables i).tHandle ∧
      ∀ j < s.enfMod, j ≠ i → (s.enfTables j).tHandle ≠ invalidHandle →
        (s.enfTables j).tHandle ∈ s.heap.live ∧ (s.enfTables j).tHandle ≠ (s.enfTables i).tHandle := by
  obtain ⟨bs, hbs⟩ := hs.has
  refine ⟨?_, ?_, fun j hj hji hne => ⟨(hs.block j hj hne).1, hs.apart j hj i hi hji hne⟩⟩
  · by_cases h0 : (s.enfTables i).tHandle = invalidHandle
    · exact .inl h0
    · exact .inr (hs.block i hi h0).1
  · intro he
    by_cases h0 : (s.enfTables i).tHandle = invalidHandle
    · rw [h0] at he
      exact hbs.invalid_not_live (he ▸ hs.header)
    · exact (hs.block i hi h0).2.1 he.symm

theorem Sound.growSize_spec (hs : s.Sound) (hshort : (s.table key).tSize < s.offset key / 8 + 1) :
    (s.table key).tSize < s.growSize key ∧ s.offset key / 8 + 1 ≤ s.growSize key ∧ s.growSize key ≠ 0 := by
  obtain ⟨h1, h2⟩ := EmptyNodeFilter.growSize_spec hs.stepPos hs.stepLe hshort
  exact ⟨h1, h2, Nat.ne_of_gt (Nat.lt_of_le_of_lt (Nat.zero_le _) h1)⟩

theorem Sound.grow_frame (hs : s.Sound) (hshort : (s.table key).tSize < s.offset key / 8 + 1) {r : CBinMalloc × Nat}
    (hr : s.heap.heap.reAlloc (s.table key).tHandle (s.growSize key) = some r) :
    (∃ bs', (s.heap.resized (s.table key).tHandle (s.growSize key) r).Has bs') ∧
      ∀ x ∈ s.heap.live, x ≠ (s.table key).tHandle →
        s.heap.Keeps (s.heap.resized (s.table key).tHandle (s.growSize key) r) x := by
  obtain ⟨bs, hbs⟩ := hs.has
  obtain ⟨hlive, -, -⟩ := hs.apart_live (index_lt hs.modPos key)
  obtain ⟨op, htarget, hst⟩ := hbs.resized_step (hlive.imp_left (fun h => ⟨h, .inl (hs.growSize_spec hshort).2.2⟩)) hr
  obtain ⟨hhas', hframe⟩ := hbs.frame hst
  refine ⟨hhas', fun x hx hne => hframe x hx ?_⟩
  rw [htarget]
  exact hne

theorem moved_self {size tSize : Nat} {r : CBinMalloc × Nat} :
    (s.moved key size r tSize).enfTables (s.index key) = ⟨r.2, tSize⟩ := Function.update_self ..

theorem moved_table {size tSize : Nat} {r : CBinMalloc × Nat} (hik : s.index k = s.index key) :
    (s.moved key size r tSize).table k = ⟨r.2, tSize⟩ := by
  unfold table
  exact (congrArg _ hik).trans moved_self

theorem moved_other {size tSize i : Nat} {r : CBinMalloc × Nat} (hi : i ≠ s.index key) :
    (s.moved key size r tSize).enfTables i = s.enfTables i := Function.update_of_ne hi ..

theorem Sound.grown (hs : s.Sound) (hshort : (s.table key).tSize < s.offset key / 8 + 1) {r : CBinMalloc × Nat}
    (hr : s.heap.heap.reAlloc (s.table key).tHandle (s.growSize key) = some r) (hne : r.2 ≠ invalidHandle) :
    Sound (s.moved key (s.growSize key) r (s.growSize key)) := by
  obtain ⟨bs, hbs⟩ := hs.has
  obtain ⟨hlive, hheader, hothers⟩ := hs.apart_live (index_lt hs.modPos key)
  have h0 := (hs.growSize_spec hshort).2.2
  obtain ⟨hhas', hframe⟩ := hs.grow_frame hshort hr
  obtain ⟨hrlive, hrsize, hrfresh, -⟩ := hbs.grown h0 hlive hr hne
  refine ⟨hhas', hs.stepPos, hs.stepLe, hs.modPos, (hframe _ hs.header hheader).1, fun j hj => ?_, fun j hj hjne => ?_,
    fun a ha b hb hab hane => ?_⟩
  · by_cases hji : j = s.index key
    · rw [hji, moved_self]
      exact iff_of_false hne h0
    · rw [moved_other hji]
      exact hs.empty j hj
  · by_cases hji : j = s.index key
    · rw [hji, moved_self]
      exact ⟨hrlive, (hrfresh _ hs.header hheader).symm, hrsize⟩
    · rw [moved_other hji] at hjne ⊢
      obtain ⟨hjlive, hjapart⟩ := hothers j hj hji hjne
      obtain ⟨hjlive', hjsize', -⟩ := hframe _ hjlive hjapart
      obtain ⟨-, hjheader, hjsize⟩ := hs.block j hj hjne
      exact ⟨hjlive', hjheader, hjsize.trans (Nat.le_of_eq hjsize'.symm)⟩
  · by_cases hai : a = s.index key
    · subst hai
      rw [moved_self, moved_other (Ne.symm hab)]
      by_cases hb0 : (s.enfTables b).tHandle = invalidHandle
      · rw [hb0]
        exact hne
      · obtain ⟨hblive, hbapart⟩ := hothers b hb (Ne.symm hab) hb0
        exact (hrfresh _ hblive hbapart).symm
    · rw [moved_other hai] at hane ⊢
      by_cases hbi : b = s.index key
      · subst hbi
        rw [moved_self]
        obtain ⟨halive, haapart⟩ := hothers a ha hai hane
        exact hrfresh _ halive haapart
      · rw [moved_other hbi]
        exact hs.apart a ha b hb hab hane

theorem Sound.grown_isset (hs : s.Sound) (hshort : (s.table key).tSize < s.offset key / 8 + 1) {r : CBinMalloc × Nat}
    (hr : s.heap.heap.reAlloc (s.table key).tHandle (s.growSize key) = some r) (hne : r.2 ≠ invalidHandle)
    (hk : s.index k = s.index key → s.offset k / 8 + 1 ≤ (s.table key).tSize) :
    isset (s.moved key (s.growSize key) r (s.growSize key)) k = s.isset k := by
  obtain ⟨bs, hbs⟩ := hs.has
  have hi := index_lt hs.modPos key
  have hik' := index_lt hs.modPos k
  obtain ⟨hlive, -, hothers⟩ := hs.apart_live hi
  by_cases hik : s.index k = s.index key
  · obtain ⟨hlt, -, h0⟩ := hs.growSize_spec hshort
    obtain ⟨-, -, -, hrbytes⟩ := hbs.grown h0 hlive hr hne
    have hfit := hk hik
    have htab : s.table k = s.table key := congrArg s.enfTables hik
    have htab' : (s.moved key (s.growSize key) r (s.growSize key)).table k = ⟨r.2, s.growSize key⟩ := moved_table hik
    have hne₀ : (s.table key).tHandle ≠ invalidHandle := htab ▸ hs.tHandle_ne (htab ▸ hfit)
    have hbyte := hrbytes hne₀ (s.offset k / 8) (Nat.lt_min.mpr ⟨Nat.lt_of_lt_of_le hfit (hs.block _ hi hne₀).2.2,
      Nat.lt_trans (Nat.lt_of_lt_of_le (Nat.lt_succ_self _) hfit) hlt⟩)
    refine isset_of_byte _ rfl (htab ▸ hfit) (htab ▸ hne₀) ?_ ?_ ?_
    · rw [htab']
      exact hfit.trans (Nat.le_of_lt hlt)
    · rw [htab']
      exact hne
    · rw [htab', htab]
      exact hbyte
  · have htab' : (s.moved key (s.growSize key) r (s.growSize key)).table k = s.table k := moved_other hik
    by_cases hsize : (s.table k).tSize < s.offset k / 8 + 1
    · rw [isset_of_short hsize]
      exact isset_of_short (htab' ▸ hsize)
    · have hfit := Nat.le_of_not_lt hsize
      have hnek := hs.tHandle_ne hfit
      obtain ⟨hklive, hkapart⟩ := hothers _ hik' hik hnek
      have hbyte := ((hs.grow_frame hshort hr).2 _ hklive hkapart).2.2 (s.offset k / 8)
        (Nat.lt_of_lt_of_le hfit (hs.block _ hik' hnek).2.2)
      refine isset_of_byte _ rfl hfit hnek ?_ ?_ ?_
      · rw [htab']
        exact hfit
      · rw [htab']
        exact hnek
      · rw [htab']
        exact hbyte

theorem Sound.failed (hs : s.Sound) (hshort : (s.table key).tSize < s.offset key / 8 + 1) {r : CBinMalloc × Nat}
    (hr : s.heap.heap.reAlloc (s.table key).tHandle (s.growSize key) = some r) (hne : r.2 = invalidHandle)
    (h0 : (s.table key).tSize = 0) :
    Sound (s.moved key (s.growSize key) r (s.table key).tSize) ∧
      ∀ k, isset (s.moved key (s.growSize key) r (s.table key).tSize) k = s.isset k := by
  have hhandle : (s.table key).tHandle = invalidHandle := (hs.empty _ (index_lt hs.modPos key)).mpr h0
  obtain ⟨hhas', hframe⟩ := hs.grow_frame hshort hr
  have hsame : s.moved key (s.growSize key) r (s.table key).tSize =
      { s with heap := s.heap.resized (s.table key).tHandle (s.growSize key) r } := by
    have htab : (⟨r.2, (s.table key).tSize⟩ : EnfTable) = s.enfTables (s.index key) := by
      rw [hne, ← hhandle]
      rfl
    unfold moved
    rw [htab, Function.update_eq_self]
  rw [hsame]
  refine hs.kept hhas' (fun x hx _ => hframe x hx ?_)
  rw [hhandle]
  rintro rfl
  obtain ⟨bs, hbs⟩ := hs.has
  exact hbs.invalid_not_live hx

/-! ## Calls -/

/-- What holds of the filter as long as every growth is without harm. -/
structure Inv (s : EmptyNodeFilter) : Prop where
  sound : s.Sound
  refines : s.Refines
  alive : s.crashed = false

theorem refines_update {s' : EmptyNodeFilter} {last : Bool} (hkey : s'.isset key = some last)
    (hrest : ∀ k, k ≠ key → s'.isset k = some (s.lastSet k)) (hlast : s'.lastSet = Function.update s.lastSet key last) :
    s'.Refines := by
  intro k
  rw [hlast]
  by_cases hk : k = key
  · subst hk
    rw [hkey, Function.update_self]
  · rw [hrest k hk, Function.update_of_ne hk]

theorem Inv.change (hs : s.Inv) {f : UInt8 → UInt8} {last : Bool}
    (hf : ∀ b n, n < 8 → issetB (f b) n = if n = s.offset key % 8 then last else issetB b n)
    (hfit : s.offset key / 8 + 1 ≤ (s.table key).tSize) : ∃ s', s.change key f last = some s' ∧ s'.Inv := by
  obtain ⟨s', e, hsound, hkey, hrest, hlast, halive⟩ := hs.sound.change hf hfit
  exact ⟨s', e, hsound, refines_update hkey (fun k hk => (hrest k hk).trans (hs.refines k)) hlast, halive.trans hs.alive⟩

theorem issetB_setB_at (off : Nat) (b : UInt8) (n : Nat) (hn : n < 8) :
    issetB (setB b (off % 8)) n = if n = off % 8 then true else issetB b n := by
  rw [issetB_setB b hn (Nat.mod_lt _ (by decide))]
  by_cases h : n = off % 8
  · rw [if_pos h, decide_eq_true h, Bool.or_true]
  · rw [if_neg h, decide_eq_false h, Bool.or_false]

theorem issetB_clrB_at (off : Nat) (b : UInt8) (n : Nat) (hn : n < 8) :
    issetB (clrB b (off % 8)) n = if n = off % 8 then false else issetB b n := by
  rw [issetB_clrB b hn (Nat.mod_lt _ (by decide))]
  by_cases h : n = off % 8
  · rw [if_pos h, decide_eq_false (fun hne => hne h), Bool.and_false]
  · rw [if_neg h, decide_eq_true h, Bool.and_true]

theorem Inv.clr (hs : s.Inv) (key : UInt32) : ∃ s', s.clr key = some s' ∧ s'.Inv := by
  unfold EmptyNodeFilter.clr
  by_cases hshort : (s.table key).tSize < s.offset key / 8 + 1
  · rw [if_pos hshort]
    refine ⟨_, rfl, ⟨hs.sound.has, hs.sound.stepPos, hs.sound.stepLe, hs.sound.modPos, hs.sound.header, hs.sound.empty,
      hs.sound.block, hs.sound.apart⟩, ?_, hs.alive⟩
    exact refines_update (s := s) (isset_of_short hshort) (fun k _ => hs.refines k) rfl
  · rw [if_neg hshort]
    exact hs.change (issetB_clrB_at (s.offset key)) (Nat.le_of_not_lt hshort)

theorem Inv.setGrown (hs : s.Inv) (hshort : (s.table key).tSize < s.offset key / 8 + 1) {r : CBinMalloc × Nat}
    (hr : s.heap.heap.reAlloc (s.table key).tHandle (s.growSize key) = some r) (hne : r.2 ≠ invalidHandle) :
    ∃ s', s.set key = some s' ∧ s'.Sound ∧ s'.isset key = some true ∧
      (∀ k, k ≠ key → s'.isset k = isset (s.moved key (s.growSize key) r (s.growSize key)) k) ∧
      s'.lastSet = Function.update s.lastSet key true ∧ s'.crashed = false := by
  have hsound := hs.sound.grown hshort hr hne
  have hfit : s.offset key / 8 + 1 ≤ ((s.moved key (s.growSize key) r (s.growSize key)).table key).tSize := by
    rw [moved_table rfl]
    exact (hs.sound.growSize_spec hshort).2.1
  obtain ⟨s', e, hsound', hkey, hrest, hlast, halive⟩ := hsound.change (issetB_setB_at (s.offset key)) hfit
  refine ⟨s', ?_, hsound', hkey, hrest, hlast, halive.trans hs.alive⟩
  unfold EmptyNodeFilter.set
  rw [if_pos hshort, hr]
  dsimp only
  rw [if_neg hne]
  exact e

def keyOf (s : EmptyNodeFilter) (off i : Nat) : UInt32 := UInt32.ofNat (off * s.enfMod + i)

theorem keyOf_spec {off i : Nat} (hi : i < s.enfMod) (hlt : off * s.enfMod + i < 2 ^ 32) :
    s.index (s.keyOf off i) = i ∧ s.offset (s.keyOf off i) = off := by
  have hnat : (s.keyOf off i).toNat = i + s.enfMod * off := by
    rw [keyOf, UInt32.toNat_ofNat_of_lt' hlt, Nat.mul_comm, Nat.add_comm]
  unfold index offset
  rw [hnat]
  constructor
  · rw [Nat.add_mul_mod_self_left, Nat.mod_eq_of_lt hi]
  · rw [Nat.add_mul_div_left _ _ (Nat.lt_of_le_of_lt (Nat.zero_le i) hi), Nat.div_eq_of_lt hi, Nat.zero_add]

theorem isset_grown {r : CBinMalloc × Nat}
    (hne : r.2 ≠ invalidHandle) (hik : s.index k = s.index key) (hfit : s.offset k / 8 < s.growSize key) :
    isset (s.moved key (s.growSize key) r (s.growSize key)) k =
      some (issetB (r.1.mem (r.2 + s.offset k / 8)) (s.offset k % 8)) := by
  have htab : (s.moved key (s.growSize key) r (s.growSize key)).table k = ⟨r.2, s.growSize key⟩ := moved_table hik
  have h := isset_of_fits (s := s.moved key (s.growSize key) r (s.growSize key)) (k := k) (by rw [htab]; exact hfit)
    (by rw [htab]; exact hne)
  rw [htab] at h
  exact h

theorem set_of_failed (hshort : (s.table key).tSize < s.offset key / 8 + 1) {r : CBinMalloc × Nat}
    (hr : s.heap.heap.reAlloc (s.table key).tHandle (s.growSize key) = some r) (hne : r.2 = invalidHandle) :
    s.set key = some (s.moved key (s.growSize key) r (s.table key).tSize) := by
  unfold EmptyNodeFilter.set
  rw [if_pos hshort, hr]
  dsimp only
  rw [if_pos hne]

theorem Inv.set (hs : s.Inv) (hok : s.StepOk (.set key)) : ∃ s', s.set key = some s' ∧ s'.Inv := by
  by_cases hshort : (s.table key).tSize < s.offset key / 8 + 1
  · obtain ⟨bs, hbs⟩ := hs.sound.has
    obtain ⟨hlive, -, -⟩ := hs.sound.apart_live (index_lt hs.sound.modPos key)
    obtain ⟨r, hr⟩ := hbs.reAlloc_total (hs.sound.growSize_spec hshort).2.2 hlive
    change s.heap.heap.reAlloc (s.table key).tHandle (s.growSize key) = some r at hr
    obtain ⟨hfail, hzero⟩ := hok hshort r hr
    by_cases hne : r.2 = invalidHandle
    · obtain ⟨hsound, hisset⟩ := hs.sound.failed hshort hr hne (hfail hne)
      exact ⟨_, set_of_failed hshort hr hne, hsound, fun k => (hisset k).trans (hs.refines k), hs.alive⟩
    · obtain ⟨s', e, hsound, hkey, hrest, hlast, halive⟩ := hs.setGrown hshort hr hne
      refine ⟨s', e, hsound, refines_update hkey (fun k hk => ?_) hlast, halive⟩
      rw [hrest k hk]
      by_cases hold : s.index k = s.index key → s.offset k / 8 + 1 ≤ (s.table key).tSize
      · exact (hs.sound.grown_isset hshort hr hne hold).trans (hs.refines k)
      · -- the key is behind the old table, so its bit is new
        rw [Classical.not_imp, Nat.not_le] at hold
        obtain ⟨hik, hbehind⟩ := hold
        have htab : s.table k = s.table key := congrArg s.enfTables hik
        have hfalse : some false = some (s.lastSet k) := by
          rw [← hs.refines k, isset_of_short (htab ▸ hbehind)]
        rw [← hfalse]
        by_cases hnew : s.offset k / 8 < s.growSize key
        · have hkey' : s.offset k * s.enfMod + s.index key = k.toNat := by
            rw [← hik, Nat.mul_comm]
            exact Nat.div_add_mod k.toNat s.enfMod
          rw [isset_grown hne hik hnew, hzero hne (s.offset k) (by omega) (by omega) (fun ho => hk (key_inj hik ho))
            (by rw [hkey']; exact k.toNat_lt)]
        · refine isset_of_short ?_
          rw [moved_table hik]
          exact Nat.lt_succ_of_le (Nat.le_of_not_lt hnew)
  · unfold EmptyNodeFilter.set
    rw [if_neg hshort]
    exact hs.change (issetB_setB_at (s.offset key)) (Nat.le_of_not_lt hshort)

theorem Inv.set_harm (hs : s.Inv) (hbad : ¬ s.StepOk (.set key)) : ∃ s', s.set key = some s' ∧ ¬ s'.Refines := by
  unfold StepOk at hbad
  simp only [Classical.not_imp, not_forall] at hbad
  obtain ⟨hshort, r, hr, hharm⟩ := hbad
  have hi := index_lt hs.sound.modPos key
  by_cases hne : r.2 = invalidHandle
  · have hsize : (s.table key).tSize ≠ 0 := fun h0 => hharm ⟨fun _ => h0, fun h => absurd hne h⟩
    refine ⟨_, set_of_failed hshort hr hne, fun href => ?_⟩
    -- the first key of the table has no answer
    have hlt : 0 * s.enfMod + s.index key < 2 ^ 32 := by
      have hle : s.index key ≤ key.toNat := Nat.mod_le _ _
      have hkey : key.toNat < 2 ^ 32 := key.toNat_lt
      omega
    obtain ⟨hik, hoff⟩ := keyOf_spec hi hlt
    have hoff' : (s.moved key (s.growSize key) r (s.table key).tSize).offset (s.keyOf 0 (s.index key)) = 0 := hoff
    have hread := href (s.keyOf 0 (s.index key))
    unfold isset at hread
    rw [moved_table hik, hoff', if_neg (Nat.not_lt.mpr (Nat.succ_le_of_lt (Nat.pos_of_ne_zero hsize))), if_pos hne] at hread
    cases hread
  · obtain ⟨s', e, -, -, hrest, hlast, -⟩ := hs.setGrown hshort hr hne
    refine ⟨s', e, fun href => hharm ⟨fun h => absurd h hne, fun _ off hoff hbehind hother hlt => ?_⟩⟩
    obtain ⟨hik, hko⟩ := keyOf_spec hi hlt
    generalize s.keyOf off (s.index key) = k at hik hko
    have hk : k ≠ key := by
      rintro rfl
      exact hother hko.symm
    have htab : s.table k = s.table key := congrArg s.enfTables hik
    have hfalse : some false = some (s.lastSet k) := by
      rw [← hs.refines k, isset_of_short (by rw [htab, hko]; omega)]
    have hread := href k
    rw [hrest k hk, isset_grown hne hik (by rw [hko]; omega), hlast, Function.update_of_ne hk, ← hfalse, hko] at hread
    exact Option.some.inj hread

theorem Inv.other (hs : s.Inv) {op : HeapOp} {heap' : HeapState} (hown : ¬ s.Owns op.target)
    (hst : s.heap.step op = some heap') : Inv { s with heap := heap' } := by
  obtain ⟨bs, hbs⟩ := hs.sound.has
  obtain ⟨hhas', hframe⟩ := hbs.frame hst
  obtain ⟨hsound, hisset⟩ := hs.sound.kept hhas' (fun x hx hx' => hframe x hx (fun he => hown (he ▸ hx')))
  exact ⟨hsound, fun k => (hisset k).trans (hs.refines k), hs.alive⟩

theorem Inv.step (hs : s.Inv) {a : FilterEvent} {s' : EmptyNodeFilter} (hst : s.step a = some s') :
    (s.StepOk a → s'.Inv) ∧ (¬ s.StepOk a → ¬ s'.Refines) := by
  unfold EmptyNodeFilter.step at hst
  rw [if_neg (by rw [hs.alive]; exact Bool.false_ne_true)] at hst
  cases a with
  | set key =>
    obtain rfl := Option.some.inj hst
    constructor
    · intro hok
      obtain ⟨s', e, hinv⟩ := hs.set hok
      rw [e]
      exact hinv
    · intro hbad
      obtain ⟨s', e, href⟩ := hs.set_harm hbad
      rw [e]
      exact href
  | clr key =>
    obtain rfl := Option.some.inj hst
    refine ⟨fun _ => ?_, fun hbad => absurd trivial hbad⟩
    obtain ⟨s', e, hinv⟩ := hs.clr key
    rw [e]
    exact hinv
  | other op =>
    refine ⟨fun _ => ?_, fun hbad => absurd trivial hbad⟩
    dsimp only at hst
    by_cases hown : s.Owns op.target
    · rw [if_pos hown] at hst
      cases hst
    · rw [if_neg hown] at hst
      obtain ⟨heap', hheap, rfl⟩ := Option.map_eq_some_iff.mp hst
      exact hs.other hown hheap

theorem change_lastSet {s' : EmptyNodeFilter} {f : UInt8 → UInt8} {last : Bool} (h : s.change key f last = some s') :
    s'.lastSet = Function.update s.lastSet key last := by
  unfold EmptyNodeFilter.change at h
  split at h
  · cases h
  · obtain rfl := Option.some.inj h
    rfl

theorem set_lastSet {s' : EmptyNodeFilter} (h : s.set key = some s') {k : UInt32} (hk : s'.lastSet k = true) :
    k = key ∨ s.lastSet k = true := by
  have hupdate : s'.lastSet = Function.update s.lastSet key true → k = key ∨ s.lastSet k = true := by
    intro hlast
    by_cases he : k = key
    · exact .inl he
    · rw [hlast, Function.update_of_ne he] at hk
      exact .inr hk
  unfold EmptyNodeFilter.set at h
  split at h
  · split at h
    · cases h
    · split at h
      · obtain rfl := Option.some.inj h
        exact .inr hk
      · next r _ _ => exact hupdate (change_lastSet (s := s.moved key (s.growSize key) r (s.growSize key)) h)
  · exact hupdate (change_lastSet h)

theorem clr_lastSet {s' : EmptyNodeFilter} (h : s.clr key = some s') {k : UInt32} (hk : s'.lastSet k = true) :
    k ≠ key ∧ s.lastSet k = true := by
  have hlast : s'.lastSet = Function.update s.lastSet key false := by
    unfold EmptyNodeFilter.clr at h
    split at h
    · obtain rfl := Option.some.inj h
      rfl
    · exact change_lastSet h
  rw [hlast] at hk
  by_cases he : k = key
  · subst he
    rw [Function.update_self] at hk
    cases hk
  · rw [Function.update_of_ne he] at hk
    exact ⟨he, hk⟩

theorem Inv.init {heap : HeapState} {step mod : UInt32} (hheap : heapMachine.Reachable heap)
    (hi : EmptyNodeFilter.init heap step mod = some s) (hstep : s.enfStep ≤ 2 ^ 32 - 2 ^ 29) : s.Inv := by
  obtain ⟨bs, hbs⟩ := HeapState.has_of_reachable hheap
  unfold EmptyNodeFilter.init at hi
  dsimp only at hi
  obtain ⟨h', r, bs', e, R', hcase⟩ := hbs.1.calloc ((16 + 16 * if mod = 0 then 30000 else mod.toNat) % 2 ^ 32)
  rw [e] at hi
  dsimp only at hi
  by_cases hr : r = invalidHandle
  · rw [if_pos hr] at hi
    cases hi
  · rw [if_neg hr] at hi
    obtain rfl := Option.some.inj hi
    have hpos : ∀ (v : UInt32) (d : Nat), 0 < d → 0 < if v = 0 then d else v.toNat := by
      intro v d hd
      split
      · exact hd
      · rename_i hv
        exact Nat.pos_of_ne_zero (fun h0 => hv (UInt32.toNat_inj.mp h0))
    obtain ⟨h0, -⟩ | ⟨N, hrN, -, hperm⟩ := hcase
    · exact absurd h0 hr
    · have hlive : r ∈ (heap.received (h', r)).live := by
        unfold HeapState.received
        rw [if_pos hr]
        exact List.mem_cons_self
      refine ⟨⟨⟨bs', hbs.received R' hrN hperm⟩, hpos step 512 (by decide), hstep, hpos mod 30000 (by decide), hlive,
        fun i _ => iff_of_true rfl rfl, fun i _ hne => absurd rfl hne, fun i _ j _ _ hne => absurd rfl hne⟩,
        fun k => isset_of_short (Nat.succ_pos _), rfl⟩

end EmptyNodeFilter

open EmptyNodeFilter

/-- **The filter is the set of the keys**: in every run whose growths are without harm a query gives the last successful
call of its key, and the first growth with harm ends that at once. -/
theorem filterMachine_refines {s : EmptyNodeFilter} (hs : filterMachine.ReachableMeeting EmptyNodeFilter.StepOk s) :
    (s.crashed = false ∧ s.Refines) ∧
      ∀ a s', s.step a = some s' → (s'.crashed = false ∧ s'.Refines ↔ s.StepOk a) := by
  have hinv : s.Inv := by
    refine Machine.reachableMeeting_induct filterMachine ?_ ?_ hs
    · rintro s₀ ⟨heap, step, mod, hheap, hi, -, hstep⟩
      exact Inv.init hheap hi hstep
    · intro s₁ a s₂ hs₁ hok hst
      exact (hs₁.step hst).1 hok
  refine ⟨⟨hinv.alive, hinv.refines⟩, fun a s' hst => ?_⟩
  obtain ⟨h1, h2⟩ := hinv.step hst
  exact ⟨fun h => Classical.byContradiction (fun hbad => h2 hbad h.2), fun hok => ⟨(h1 hok).alive, (h1 hok).refines⟩⟩

def firstFilter : EmptyNodeFilter := (EmptyNodeFilter.init firstHeap 8 3).get rfl

theorem firstFilter_start : filterMachine.start firstFilter :=
  ⟨firstHeap, 8, 3, ⟨firstHeap, [], firstHeap_start, rfl⟩, (Option.some_get _).symm, by decide, by decide⟩

/-- Keys in all of the tables, of which one grows and moves while another user gets a block. -/
def someKeys : List FilterEvent :=
  [.set 0, .set 5, .set 1, .other (.malloc 20), .set 250, .clr 5, .clr 4, .set 3]

theorem filterMachine_refines_someKeys : ∃ s, filterMachine.run firstFilter someKeys = some s ∧
    filterMachine.ReachableMeeting EmptyNodeFilter.StepOk s ∧
      s.isset 250 = some true ∧ s.isset 5 = some false ∧ s.Refines := by
  obtain ⟨hrun, hmeets⟩ : (filterMachine.run firstFilter someKeys).map (fun s => (s.isset 250, s.isset 5)) =
        some (some true, some false) ∧ filterMachine.RunMeets EmptyNodeFilter.StepOk firstFilter someKeys := by decide +kernel
  obtain ⟨s, hs, hbits⟩ := Option.map_eq_some_iff.mp hrun
  obtain ⟨h1, h2⟩ := Prod.mk.inj hbits
  have hreach : filterMachine.ReachableMeeting EmptyNodeFilter.StepOk s :=
      ⟨firstFilter, someKeys, firstFilter_start, hmeets, hs⟩
  exact ⟨s, hs, hreach, h1, h2, (filterMachine_refines hreach).1.2⟩

/-- A block that another user wrote and freed becomes a table: the key 3 is in the filter, though no call was made for
it.  And a growth that fails takes the table with it: the key 0 has no answer any more. -/
theorem filterMachine_harm :
    (∃ s, filterMachine.run firstFilter [.other (.malloc 20), .other (.write 7520 0 [255, 255, 255, 255]),
        .other (.free 7520), .set 0] = some s ∧
      filterMachine.Reachable s ∧ s.isset 3 = some true ∧ s.lastSet 3 = false) ∧
      ∃ s, filterMachine.run firstFilter [.set 0, .set 4294967295] = some s ∧
        filterMachine.Reachable s ∧ s.isset 0 = none ∧ s.lastSet 0 = true ∧
        (s.step (.clr 0)).map EmptyNodeFilter.crashed = some true := by
  constructor
  · have hrun : (filterMachine.run firstFilter [.other (.malloc 20), .other (.write 7520 0 [255, 255, 255, 255]),
        .other (.free 7520), .set 0]).map (fun s => (s.isset 3, s.lastSet 3)) = some (some true, false) := by decide +kernel
    obtain ⟨s, hs, hbits⟩ := Option.map_eq_some_iff.mp hrun
    obtain ⟨h1, h2⟩ := Prod.mk.inj hbits
    exact ⟨s, hs, ⟨firstFilter, _, firstFilter_start, hs⟩, h1, h2⟩
  · have hrun : (filterMachine.run firstFilter [.set 0, .set 4294967295]).map (fun s => (s.isset 0, s.lastSet 0,
        (s.step (.clr 0)).map EmptyNodeFilter.crashed)) = some (none, true, some true) := by decide +kernel
    obtain ⟨s, hs, hbits⟩ := Option.map_eq_some_iff.mp hrun
    obtain ⟨h1, hbits⟩ := Prod.mk.inj hbits
    obtain ⟨h2, h3⟩ := Prod.mk.inj hbits
    exact ⟨s, hs, ⟨firstFilter, _, firstFilter_start, hs⟩, h1, h2, h3⟩

end Dtc
