import DtcServer.NodeStore
import DtcServer.RawDataProcessSpec
import DtcServer.RawDataFailure
/-!
# ReplaceNode — `ReplaceData` of a node with raw data

The data goes to a new chunk, the node's old chunk is freed, and the node gets the new handle.  The hours are then written
through `m_stRawData`, which is attached to the old chunk if there was one, and else to whatever an earlier request left.
-/
namespace Dtc

open Memory CBinMalloc Bytes

/-- The hour, the nodes that `TryPurgeSize` comes to, and what it returns. -/
structure NodeReplaceCalls (Node : Type) where
  hour : Nat := 0
  purged : List Node := []
  purgeRet : Int := -1

/-- `tmpRawData`, its handle, and the return value of its last call. -/
structure TmpRawData (Node : Type) where
  store : NodeStore Node
  handle : Nat
  ret : Int
  raw : RawData

namespace TmpRawData

variable {Node : Type} (t : TmpRawData Node)

def destroy : Option (NodeStore Node) :=
  if t.handle = invalidHandle then some t.store else (t.store.free t.handle).map Prod.snd

/-- `memcpy` and `Attach` in `CopyAll`. -/
def takeOver (l : RowLayout) (ref : RawData) : TmpRawData Node :=
  let r := t.raw.takeOver l ref
  { t with store := t.store.write t.handle r.2.content, ret := r.1, raw := r.2 }

def copyAll (l : RowLayout) (ref : RawData) : Option (TmpRawData Node) :=
  if ref.dataSize > t.raw.content.length then
    (t.store.heap.heap.reAlloc t.handle ref.dataSize).map fun r =>
      let store := { t.store with heap := t.store.heap.resized t.handle ref.dataSize r }
      if r.2 = invalidHandle then { t with store := store, ret := ecNoMem }
      else { t with store := store, handle := r.2, raw := { t.raw with content := store.chunk r.2 } }.takeOver l ref
  else some (t.takeOver l ref)

end TmpRawData

namespace NodeStore

section

variable {Node : Type} (s : NodeStore Node) (l : RowLayout)

/-- `Attach` of `m_stRawData` -/
def attachRawData (handle : Nat) : Int × NodeStore Node :=
  let a := s.attached l handle
  let size := s.heap.heap.chunkSize handle
  if a.1 = -1 then (-1, { s with rawData := { s.rawData with size := 0 } })
  else
    -- the offset of the hours is set once the type, the sizes and the get count are read
    let timeStampOffset := if a.1 = -2 ∨ size < 10 then s.rawData.timeStampOffset else 10
    (a.1, { s with rawData := { handle := handle, pchContent := handle, size := size, timeStampOffset := timeStampOffset } })

/-- The hour written through `m_stRawData`, `off` bytes behind its hours' place. -/
def updateHour (off hour : Nat) : NodeStore Node :=
  if s.rawData.pchContent = 0 then s
  else if s.rawData.timeStampOffset + off + 2 > s.rawData.size then s
  else s.write (s.rawData.pchContent + s.rawData.timeStampOffset + off) (leBytes 2 hour)

def updateLastAccessTimeByHour (hour : Nat) : NodeStore Node := s.updateHour 0 hour

def updateLastUpdateTimeByHour (hour : Nat) : NodeStore Node := s.updateHour 2 hour

/-- The size that `Init` asks for. -/
def initSize (ref : RawData) : Nat :=
  (sub32 ref.dataSize ref.dataStart + (16 + packedKeySize l.keySize (ref.key l).bytes)) % 2 ^ 32

/-- `Init` of `tmpRawData` -/
def initTmp (ref : RawData) (hour : Nat) : Option (TmpRawData Node) :=
  (s.malloc (initSize l ref)).map fun r =>
    if r.2 = invalidHandle then ⟨r.1, invalidHandle, ecNoMem, { needSize := initSize l ref }⟩
    else
      let i := RawData.init l (ref.key l) (sub32 ref.dataSize ref.dataStart) hour (some (r.1.chunk r.2))
      ⟨r.1.write r.2 i.2.content, r.2, i.1, i.2⟩

end

variable {Node : Type} [DecidableEq Node] (s : NodeStore Node) (l : RowLayout)

/-- `Init`, and again after `TryPurgeSize` when there was no memory. -/
def initOrPurge (node : Node) (ref : RawData) (calls : NodeReplaceCalls Node) : Option (TmpRawData Node) :=
  (s.initTmp l ref calls.hour).bind fun t =>
    if t.ret = ecNoMem then
      (tryPurgeSize node calls.purged t.store).bind fun s =>
        if calls.purgeRet = 0 then s.initTmp l ref calls.hour else some { t with store := s }
    else some t

def destroyData (node : Node) : Option (Int × NodeStore Node) :=
  let a := s.attachRawData l (s.vdHandle node)
  if a.1 ≠ 0 then some (-1, a.2)
  else
    (a.2.free a.2.rawData.handle).map fun r =>
      (0, { r.2.setVDHandle node invalidHandle with
        rawData := { r.2.rawData with handle := invalidHandle, size := 0 }
        rowsInc := r.2.rowsInc - (s.attached l (s.vdHandle node)).2.rowCnt })

/-- The end of `ReplaceData`: the node gets the chunk of `tmpRawData`. -/
def switchTo (node : Node) (ref : RawData) (hour : Nat) (t : TmpRawData Node) : Option (NodeStore Node) :=
  (if s.vdHandle node = invalidHandle then some s else (s.destroyData l node).map Prod.snd).map fun s =>
    let s := { s.setVDHandle node t.handle with rowsInc := s.rowsInc + ref.rowCnt }
    if 0 < t.raw.rowCnt then (s.updateLastAccessTimeByHour hour).updateLastUpdateTimeByHour hour else s

def begun (s : NodeStore Node) : NodeStore Node := { s with rowsInc := 0, dirtyRowsInc := 0 }

def replaceData (node : Node) (ref : RawData) (calls : NodeReplaceCalls Node) : Option (Int × NodeStore Node) :=
  (s.begun.initOrPurge l node ref calls).bind fun t =>
    if t.ret ≠ 0 then t.destroy.map fun s => (-2, s)
    else
      (t.copyAll l ref).bind fun t =>
        if t.ret ≠ 0 then t.destroy.map fun s => (-3, s)
        else (t.store.switchTo l node ref calls.hour t).map fun s => (0, s)

/-- **Nothing else is touched**: the other nodes that have a chunk have the one they had, with the same bytes; after a failure
the node has what it had; and its handle is never one of freed memory. -/
structure TouchesOnly (s s' : NodeStore Node) (node : Node) (ret : Int) : Prop where
  others : ∀ other, other ≠ node → s'.vdHandle other ≠ invalidHandle → s'.vdHandle other = s.vdHandle other ∧
    ∀ i < s.heap.heap.chunkSize (s.vdHandle other),
      s'.heap.heap.mem (s.vdHandle other + i) = s.heap.heap.mem (s.vdHandle other + i)
  failed : ret ≠ 0 → s'.vdHandle node = s.vdHandle node ∧
    (s.vdHandle node ≠ invalidHandle → s.heap.Keeps s'.heap (s.vdHandle node))
  live : s'.vdHandle node ≠ invalidHandle → s'.vdHandle node ∈ s'.heap.live

/-- There is memory for the new chunk, at once or after `TryPurgeSize`. -/
def HasRoom (s : NodeStore Node) (l : RowLayout) (node : Node) (ref : RawData) (calls : NodeReplaceCalls Node) : Prop :=
  s.heap.heap.Gives (initSize l ref) ∨ calls.purgeRet = 0 ∧ ∃ s₁ s₂, s.malloc (initSize l ref) = some (s₁, invalidHandle) ∧
    tryPurgeSize node calls.purged s₁ = some s₂ ∧ s₂.heap.heap.Gives (initSize l ref)

/-- The hours written through `m_stRawData` leave the byte at `x`: it is in neither of their places, or it is the hour's
already. -/
def LeavesByte (s : NodeStore Node) (hour x : Nat) : Prop :=
  s.rawData.pchContent ≠ 0 → ∀ off, off = 0 ∨ off = 2 → s.rawData.timeStampOffset + off + 2 ≤ s.rawData.size →
    ∀ k < 2, x = s.rawData.pchContent + s.rawData.timeStampOffset + off + k →
      s.heap.heap.mem x = (leBytes 2 hour).getD k 0

/-- `m_stRawData`, as it is before the call, has the hours in no chunk of another node that is not evicted. -/
def HoursApart (s : NodeStore Node) (l : RowLayout) (node : Node) (ref : RawData) (calls : NodeReplaceCalls Node) : Prop :=
  ∀ other, other ≠ node → s.vdHandle other ≠ invalidHandle → s.heap.heap.Gives (initSize l ref) ∨ other ∉ calls.purged →
    ∀ i < s.heap.heap.chunkSize (s.vdHandle other), s.LeavesByte calls.hour (s.vdHandle other + i)

/-- **When a call keeps to its node**: it finds no memory, or frees the node's own chunk, or writes no hours, or these are
apart from the other nodes. -/
def KeepsToNode (s : NodeStore Node) (l : RowLayout) (node : Node) (ref : RawData) (calls : NodeReplaceCalls Node) : Prop :=
  ¬ s.begun.HasRoom l node ref calls ∨ s.vdHandle node ≠ invalidHandle ∨ ref.rowCnt = 0 ∨ s.HoursApart l node ref calls

end NodeStore

/-! ## The hours -/

namespace NodeStore

section

variable {Node : Type} {s : NodeStore Node} {l : RowLayout} {ref : RawData} {off hour x : Nat}

def touched (s : NodeStore Node) (hour : Nat) : NodeStore Node :=
  (s.updateLastAccessTimeByHour hour).updateLastUpdateTimeByHour hour

theorem updateHour_same (s : NodeStore Node) (off hour : Nat) : (s.updateHour off hour).vdHandle = s.vdHandle ∧
    (s.updateHour off hour).rawData = s.rawData ∧ (s.updateHour off hour).heap.live = s.heap.live := by
  unfold updateHour
  split
  · exact ⟨rfl, rfl, rfl⟩
  · split
    · exact ⟨rfl, rfl, rfl⟩
    · exact ⟨rfl, rfl, rfl⟩

theorem updateHour_mem : (s.updateHour off hour).heap.heap.mem x = s.heap.heap.mem x ↔
    (s.rawData.pchContent ≠ 0 → s.rawData.timeStampOffset + off + 2 ≤ s.rawData.size →
      ∀ k < 2, x = s.rawData.pchContent + s.rawData.timeStampOffset + off + k →
        s.heap.heap.mem x = (leBytes 2 hour).getD k 0) := by
  unfold updateHour
  by_cases hnull : s.rawData.pchContent = 0
  · rw [if_pos hnull]
    exact iff_of_true rfl (fun hne => absurd hnull hne)
  · rw [if_neg hnull]
    by_cases hsize : s.rawData.timeStampOffset + off + 2 > s.rawData.size
    · rw [if_pos hsize]
      exact iff_of_true rfl (fun _ hle => absurd hle (Nat.not_le.mpr hsize))
    · rw [if_neg hsize]
      generalize ha : s.rawData.pchContent + s.rawData.timeStampOffset + off = a
      have hlen : (leBytes 2 hour).length = 2 := length_leBytes 2 hour
      have hmem : (s.write a (leBytes 2 hour)).heap.heap.mem = Memory.writeBytes s.heap.heap.mem a (leBytes 2 hour) := rfl
      rw [hmem]
      constructor
      · rintro he - - k hk rfl
        rw [← he]
        unfold Memory.writeBytes
        rw [if_pos (Nat.le_add_right _ _), Nat.add_sub_cancel_left, List.getD_eq_getElem?_getD,
          List.getElem?_eq_getElem (by rw [hlen]; exact hk)]
        rfl
      · intro hall
        by_cases hx : x < a ∨ a + (leBytes 2 hour).length ≤ x
        · exact writeBytes_outside hx
        · rw [hlen] at hx
          have hk := hall hnull (Nat.le_of_not_lt hsize) (x - a) (by omega) (by omega)
          unfold Memory.writeBytes
          rw [if_pos (by omega), hk, List.getD_eq_getElem?_getD,
            List.getElem?_eq_getElem (by rw [hlen]; omega)]
          rfl

theorem touched_same (s : NodeStore Node) (hour : Nat) : (s.touched hour).vdHandle = s.vdHandle ∧
    (s.touched hour).heap.live = s.heap.live := by
  obtain ⟨h1, -, h3⟩ := updateHour_same s 0 hour
  obtain ⟨h1', -, h3'⟩ := updateHour_same (s.updateHour 0 hour) 2 hour
  exact ⟨h1'.trans h1, h3'.trans h3⟩

theorem touched_mem : (s.touched hour).heap.heap.mem x = s.heap.heap.mem x ↔ s.LeavesByte hour x := by
  unfold LeavesByte
  obtain ⟨-, hraw, -⟩ := updateHour_same s 0 hour
  have hfirst := @updateHour_mem Node s 0 hour x
  have hsecond := @updateHour_mem Node (s.updateHour 0 hour) 2 hour x
  rw [hraw] at hsecond
  have htouched : (s.touched hour).heap.heap.mem x = ((s.updateHour 0 hour).updateHour 2 hour).heap.heap.mem x := rfl
  rw [htouched]
  -- an address is in one of the two places at most
  by_cases hin : x < s.rawData.pchContent + s.rawData.timeStampOffset + 2
  · have hskip : ((s.updateHour 0 hour).updateHour 2 hour).heap.heap.mem x = (s.updateHour 0 hour).heap.heap.mem x :=
      hsecond.mpr (fun _ _ k _ hx => by omega)
    rw [hskip, hfirst]
    constructor
    · rintro hall hnull off (rfl | rfl) hsize k hk hx
      · exact hall hnull hsize k hk hx
      · omega
    · exact fun hall hnull hsize => hall hnull 0 (.inl rfl) hsize
  · have hskip : (s.updateHour 0 hour).heap.heap.mem x = s.heap.heap.mem x := hfirst.mpr (fun _ _ k hk hx => by omega)
    rw [← hskip, hsecond, hskip]
    constructor
    · rintro hall hnull off (rfl | rfl) hsize k hk hx
      · omega
      · exact hall hnull hsize k hk hx
    · exact fun hall hnull hsize => hall hnull 2 (.inr rfl) hsize

theorem LeavesByte.congr {s' : NodeStore Node} (hraw : s'.rawData = s.rawData)
    (hmem : s'.heap.heap.mem x = s.heap.heap.mem x) : s'.LeavesByte hour x ↔ s.LeavesByte hour x := by
  unfold LeavesByte
  rw [hraw, hmem]

theorem touched_outside (hx : x < s.rawData.pchContent ∨ s.rawData.pchContent + s.rawData.size ≤ x) :
    (s.touched hour).heap.heap.mem x = s.heap.heap.mem x :=
  touched_mem.mpr (fun _ _ _ _ _ _ _ => by omega)

end

end NodeStore

/-! ## The stages -/

/-- **A new chunk for the data**: it is in use, no node has it, and the data fits in it. -/
structure TmpRawData.Ready {Node : Type} (t : TmpRawData Node) (ref : RawData) : Prop where
  ret : t.ret = 0
  live : t.handle ∈ t.store.heap.live
  spare : ∀ node, t.store.vdHandle node ≠ t.handle
  inside : t.raw.overrun = false
  size : t.raw.content.length = t.store.heap.heap.chunkSize t.handle
  room : ref.dataSize ≤ t.raw.content.length

namespace NodeStore

section

variable {Node : Type} {s : NodeStore Node} {l : RowLayout} {ref : RawData}

theorem initSize_eq (href : ref.Formed l) : initSize l ref = ref.dataSize ∧
    sub32 ref.dataSize ref.dataStart + (16 + packedKeySize l.keySize (ref.key l).bytes) = ref.dataSize := by
  have hkey := href.key_size
  have hstart := href.start_le
  have hle := href.dataSize_le
  have hlt := href.chunk
  have hsub : sub32 ref.dataSize ref.dataStart = ref.dataSize - ref.dataStart := by
    unfold sub32
    omega
  have hsum : sub32 ref.dataSize ref.dataStart + (16 + packedKeySize l.keySize (ref.key l).bytes) = ref.dataSize := by
    rw [hsub, ← hkey]
    exact Nat.sub_add_cancel hstart
  refine ⟨?_, hsum⟩
  unfold initSize
  rw [hsum]
  exact Nat.mod_eq_of_lt (Nat.lt_of_le_of_lt hle hlt)

theorem Owns.stored (h : s.Owns) {r : Nat} (hlive : r ∈ s.heap.live) (hspare : ∀ node, s.vdHandle node ≠ r)
    {i : Int × RawData} (hret : i.1 = 0) (hinside : i.2.overrun = false)
    (hlen : i.2.content.length = s.heap.heap.chunkSize r) (hroom : ref.dataSize ≤ s.heap.heap.chunkSize r) :
    (s.write r i.2.content).Owns ∧ s.Kept (s.write r i.2.content) ∧
      TmpRawData.Ready ⟨s.write r i.2.content, r, i.1, i.2⟩ ref := by
  obtain ⟨ho, hk, hsame⟩ := h.write_spare hlive hspare (Nat.le_of_eq hlen)
  exact ⟨ho, hk, hret, hlive, hspare, hinside, hlen.trans hsame.symm, hroom.trans (Nat.le_of_eq hlen.symm)⟩

theorem Owns.initTmp (h : s.Owns) (href : ref.Formed l) (hour : Nat) : ∃ t, s.initTmp l ref hour = some t ∧ t.store.Owns ∧
    s.Kept t.store ∧ t.store.vdHandle = s.vdHandle ∧ t.store.rawData = s.rawData ∧
    (¬ s.heap.heap.Gives (initSize l ref) ∧ s.malloc (initSize l ref) = some (t.store, invalidHandle) ∧ t.ret = ecNoMem ∧
        t.handle = invalidHandle ∨
      s.heap.heap.Gives (initSize l ref) ∧ t.Ready ref) := by
  obtain ⟨s₁, r, hm, ho, hk, hvd, hraw, hgives, hnew⟩ := h.malloc (initSize l ref)
  obtain ⟨hsize, hsum⟩ := initSize_eq href
  have hunfold : s.initTmp l ref hour = some (if r = invalidHandle then
      ⟨s₁, invalidHandle, ecNoMem, { needSize := initSize l ref }⟩
    else
      ⟨s₁.write r (RawData.init l (ref.key l) (sub32 ref.dataSize ref.dataStart) hour (some (s₁.chunk r))).2.content, r,
        (RawData.init l (ref.key l) (sub32 ref.dataSize ref.dataStart) hour (some (s₁.chunk r))).1,
        (RawData.init l (ref.key l) (sub32 ref.dataSize ref.dataStart) hour (some (s₁.chunk r))).2⟩) := by
    unfold NodeStore.initTmp
    rw [hm, Option.map_some]
  rw [hunfold]
  by_cases hr : r = invalidHandle
  · rw [if_pos hr]
    rw [hr] at hm
    exact ⟨_, rfl, ho, hk, hvd, hraw, .inl ⟨fun hg => hgives.mpr hg hr, hm, rfl, rfl⟩⟩
  · rw [if_neg hr]
    obtain ⟨hlive, hspare, hroom⟩ := hnew hr
    obtain ⟨-, -, hlt⟩ := HeapState.chunkSize_live ho.reachable hlive
    have hlen : (s₁.chunk r).length = s₁.heap.heap.chunkSize r := length_readBytes _ _ _
    rw [hsize] at hroom
    have hle := href.dataSize_le
    have hclt := href.chunk
    have hre : reAlloc [] (sub32 ref.dataSize ref.dataStart + (16 + packedKeySize l.keySize (ref.key l).bytes))
        (some (s₁.chunk r)) = some (s₁.chunk r) := by
      unfold reAlloc
      dsimp only
      rw [hsum, List.take_nil, List.nil_append, List.length_nil, Nat.zero_add, Nat.sub_eq_zero_of_le (by omega),
        List.replicate_zero, List.append_nil, if_pos (by omega)]
    have hinit := @RawData.init_eq l (ref.key l) (sub32 ref.dataSize ref.dataStart) hour (some (s₁.chunk r)) (s₁.chunk r)
      (by omega) hre
    have hhours : (leBytes 2 hour ++ (leBytes 2 hour ++ leBytes 2 hour)).length = 6 := by simp
    have hkey := (ref.key l).size
    have hcontent : (RawData.init l (ref.key l) (sub32 ref.dataSize ref.dataStart) hour
        (some (s₁.chunk r))).2.content.length = s₁.heap.heap.chunkSize r := by
      rw [hinit]
      dsimp only
      rw [List.length_append, length_rawHeader, List.length_append, List.length_cons, hhours, List.length_drop, hkey, hlen]
      omega
    obtain ⟨ho', hk', hready⟩ := ho.stored hlive hspare (congrArg Prod.fst hinit)
      (congrArg (fun i => i.2.overrun) hinit) hcontent hroom
    exact ⟨_, rfl, ho', hk.trans hk', hvd, hraw, .inr ⟨hgives.mp hr, hready⟩⟩

theorem copyAll_ready {t : TmpRawData Node} (ht : t.Ready ref) (h : t.store.Owns) (href : ref.Formed l) :
    ∃ t', t.copyAll l ref = some t' ∧ t'.ret = 0 ∧ t'.handle = t.handle ∧ t'.raw.rowCnt = ref.rowCnt ∧ t'.store.Owns ∧
      t.store.Kept t'.store ∧ t'.store.vdHandle = t.store.vdHandle ∧ t'.store.rawData = t.store.rawData ∧
      t'.handle ∈ t'.store.heap.live := by
  have hroom := ht.room
  have hle := href.dataSize_le
  obtain ⟨-, -, hlt⟩ := HeapState.chunkSize_live h.reachable ht.live
  rw [← ht.size] at hlt
  have htake := href.takeOver_eq ht.inside hlt hroom
  have hcopy : t.copyAll l ref = some (t.takeOver l ref) := if_neg (Nat.not_lt.mpr hroom)
  have hlen : (t.raw.takeOver l ref).2.content.length = t.store.heap.heap.chunkSize t.handle := by
    rw [htake]
    dsimp only
    rw [List.length_append, List.length_take_of_le hle, List.length_drop, ← ht.size]
    omega
  obtain ⟨ho, hk, -⟩ := h.write_spare ht.live ht.spare (Nat.le_of_eq hlen)
  refine ⟨_, hcopy, ?_, rfl, ?_, ho, hk, rfl, rfl, ht.live⟩
  · unfold TmpRawData.takeOver
    rw [htake]
  · unfold TmpRawData.takeOver
    rw [htake]

end

variable {Node : Type} [DecidableEq Node] {s : NodeStore Node} {l : RowLayout} {node : Node} {ref : RawData}
  {calls : NodeReplaceCalls Node}

theorem Owns.initOrPurge (h : s.Owns) (href : ref.Formed l) (node : Node) (calls : NodeReplaceCalls Node) :
    ∃ t, s.initOrPurge l node ref calls = some t ∧ t.store.Owns ∧ s.Kept t.store ∧ t.store.rawData = s.rawData ∧
      (∀ x, x = node ∨ s.heap.heap.Gives (initSize l ref) ∨ x ∉ calls.purged → t.store.vdHandle x = s.vdHandle x) ∧
      (∀ x, x ≠ node → t.store.vdHandle x ≠ invalidHandle → s.heap.heap.Gives (initSize l ref) ∨ x ∉ calls.purged) ∧
      (¬ s.HasRoom l node ref calls ∧ t.ret ≠ 0 ∧ t.handle = invalidHandle ∨
        s.HasRoom l node ref calls ∧ t.Ready ref) := by
  obtain ⟨t, ht, ho, hk, hvd, hraw, ⟨hno, hm, hret, hhandle⟩ | ⟨hgives, hready⟩⟩ := h.initTmp href calls.hour
  · obtain ⟨s₂, hs₂, ho₂, hk₂, hraw₂, hvd₂⟩ := Owns.tryPurgeSize node calls.purged ho
    have hstays : ∀ x, x = node ∨ s.heap.heap.Gives (initSize l ref) ∨ x ∉ calls.purged →
        s₂.vdHandle x = s.vdHandle x := by
      intro x hx
      rw [hvd₂ x, hvd, if_neg]
      rintro ⟨hmem, hne⟩
      exact hx.elim hne (fun hx => hx.elim hno (fun hnot => hnot hmem))
    have hgone : ∀ x, x ≠ node → s₂.vdHandle x ≠ invalidHandle → s.heap.heap.Gives (initSize l ref) ∨ x ∉ calls.purged := by
      refine fun x hne hx => .inr (fun hmem => hx ?_)
      rw [hvd₂ x, if_pos ⟨hmem, hne⟩]
    have hunfold : s.initOrPurge l node ref calls =
        if calls.purgeRet = 0 then s₂.initTmp l ref calls.hour else some { t with store := s₂ } := by
      unfold NodeStore.initOrPurge
      rw [ht, Option.bind_some, if_pos hret, hs₂, Option.bind_some]
    rw [hunfold]
    by_cases hpurge : calls.purgeRet = 0
    · rw [if_pos hpurge]
      obtain ⟨t', ht', ho', hk', hvd', hraw', hcase⟩ := ho₂.initTmp href calls.hour
      refine ⟨t', ht', ho', (hk.trans hk₂).trans hk', hraw'.trans (hraw₂.trans hraw), by rwa [hvd'], by rwa [hvd'], ?_⟩
      rcases hcase with ⟨hno', -, hret', hhandle'⟩ | ⟨hgives', hready'⟩
      · refine .inl ⟨?_, by rw [hret']; decide, hhandle'⟩
        rintro (hg | ⟨-, s₁, s₂', hm', hs₂', hg⟩)
        · exact hno hg
        · rw [hm] at hm'
          obtain ⟨rfl, -⟩ := Prod.mk.inj (Option.some.inj hm')
          rw [hs₂] at hs₂'
          obtain rfl := Option.some.inj hs₂'
          exact hno' hg
      · exact .inr ⟨.inr ⟨hpurge, _, _, hm, hs₂, hgives'⟩, hready'⟩
    · rw [if_neg hpurge]
      refine ⟨_, rfl, ho₂, hk.trans hk₂, hraw₂.trans hraw, hstays, hgone, .inl ⟨?_, ?_, hhandle⟩⟩
      · rintro (hg | ⟨hp, -⟩)
        · exact hno hg
        · exact hpurge hp
      · rw [hret]
        decide
  · refine ⟨t, ?_, ho, hk, hraw, fun x _ => congrFun hvd x, fun _ _ _ => .inl hgives, .inr ⟨.inl hgives, hready⟩⟩
    unfold NodeStore.initOrPurge
    rw [ht, Option.bind_some, if_neg]
    rw [hready.ret]
    decide

theorem Owns.destroyData (h : s.Owns) (l : RowLayout) (hn : s.vdHandle node ≠ invalidHandle) :
    ∃ ret s', s.destroyData l node = some (ret, s') ∧ (∀ other, other ≠ node → s'.vdHandle other = s.vdHandle other) ∧
      (∀ x ∈ s.heap.live, x ≠ s.vdHandle node → x ∈ s'.heap.live ∧ s.heap.Keeps s'.heap x) ∧
      (s'.rawData.size = 0 ∨ s'.rawData.pchContent = s.vdHandle node ∧
        s'.rawData.size = s.heap.heap.chunkSize (s.vdHandle node)) := by
  have hsame : ∀ r : Int × NodeStore Node, r = s.attachRawData l (s.vdHandle node) → r.2.heap = s.heap ∧
      r.2.vdHandle = s.vdHandle ∧ (r.1 = 0 → r.2.rawData.handle = s.vdHandle node) ∧
      (r.2.rawData.size = 0 ∨ r.2.rawData.pchContent = s.vdHandle node ∧
        r.2.rawData.size = s.heap.heap.chunkSize (s.vdHandle node)) := by
    rintro r rfl
    unfold attachRawData
    dsimp only
    split
    · exact ⟨rfl, rfl, fun he => absurd (show (-1 : Int) = 0 from he) (by decide), .inl rfl⟩
    · exact ⟨rfl, rfl, fun _ => rfl, .inr ⟨rfl, rfl⟩⟩
  obtain ⟨hheap, hvd, hhandle, hsize⟩ := hsame _ rfl
  unfold NodeStore.destroyData
  dsimp only
  by_cases hret : (s.attachRawData l (s.vdHandle node)).1 ≠ 0
  · rw [if_pos hret]
    refine ⟨_, _, rfl, fun other _ => congrFun hvd other, fun x hx _ => ?_, hsize⟩
    rw [hheap]
    exact ⟨hx, HeapState.Keeps.refl hx⟩
  · rw [if_neg hret, hhandle (not_not.mp hret)]
    generalize s.attachRawData l (s.vdHandle node) = r at *
    have hr : r.2.Owns := by
      refine ⟨by rw [hheap]; exact h.reachable, fun x hx => ?_, fun a b ha hab => ?_⟩
      · rw [hvd] at hx ⊢
        rw [hheap]
        exact h.live x hx
      · rw [hvd] at ha hab
        exact h.own a b ha hab
    obtain ⟨s', hf, -, -, hvd', -, hkeeps⟩ := @Owns.release Node r.2 node _ hr (by rw [hvd]; exact hn)
    rw [hvd] at hf hkeeps
    rw [hf, Option.map_some]
    refine ⟨_, _, rfl, fun other hne => ?_, fun x hx hne => ?_, .inl rfl⟩
    · exact (Function.update_of_ne hne _ _).trans (congrFun (hvd'.trans hvd) other)
    · rw [hheap] at hkeeps
      exact hkeeps x hx hne

/-- **The node gets the new chunk**: the other nodes have their handles, and of their bytes only those of the hours are not
as they were, when the node had no chunk. -/
theorem Owns.switchTo (h : s.Owns) {t : TmpRawData Node} (hlive : t.handle ∈ s.heap.live)
    (hspare : ∀ node, s.vdHandle node ≠ t.handle) (hour : Nat) :
    ∃ s', s.switchTo l node ref hour t = some s' ∧ s'.vdHandle = Function.update s.vdHandle node t.handle ∧
      t.handle ∈ s'.heap.live ∧
      ∀ other, other ≠ node → s.vdHandle other ≠ invalidHandle →
        ∀ i < s.heap.heap.chunkSize (s.vdHandle other),
          (s'.heap.heap.mem (s.vdHandle other + i) = s.heap.heap.mem (s.vdHandle other + i) ↔
            s.vdHandle node ≠ invalidHandle ∨ t.raw.rowCnt = 0 ∨ s.LeavesByte hour (s.vdHandle other + i)) := by
  -- what is left to do once the node's old chunk is gone
  have hend : ∀ s₁ : NodeStore Node, (∀ x, x ≠ node → s₁.vdHandle x = s.vdHandle x) → t.handle ∈ s₁.heap.live →
      ∃ s', s' = (if 0 < t.raw.rowCnt then
          ({ s₁.setVDHandle node t.handle with rowsInc := s₁.rowsInc + ref.rowCnt } : NodeStore Node).touched hour
        else { s₁.setVDHandle node t.handle with rowsInc := s₁.rowsInc + ref.rowCnt }) ∧
        s'.vdHandle = Function.update s.vdHandle node t.handle ∧ t.handle ∈ s'.heap.live ∧
        ∀ x, s'.heap.heap.mem x = s₁.heap.heap.mem x ↔ t.raw.rowCnt = 0 ∨ s₁.LeavesByte hour x := by
    intro s₁ hvd hlive₁
    have hset : (s₁.setVDHandle node t.handle).vdHandle = Function.update s.vdHandle node t.handle := by
      funext x
      unfold setVDHandle
      dsimp only
      by_cases hx : x = node
      · rw [hx, Function.update_self, Function.update_self]
      · rw [Function.update_of_ne hx, Function.update_of_ne hx, hvd x hx]
    refine ⟨_, rfl, ?_⟩
    by_cases hrows : 0 < t.raw.rowCnt
    · rw [if_pos hrows]
      obtain ⟨hvd', hlive'⟩ := touched_same
        ({ s₁.setVDHandle node t.handle with rowsInc := s₁.rowsInc + ref.rowCnt } : NodeStore Node) hour
      refine ⟨hvd'.trans hset, by rw [hlive']; exact hlive₁, fun x => ?_⟩
      rw [or_iff_right (Nat.ne_of_gt hrows)]
      exact touched_mem
    · rw [if_neg hrows]
      exact ⟨hset, hlive₁, fun x => iff_of_true rfl (.inl (Nat.eq_zero_of_not_pos hrows))⟩
  unfold NodeStore.switchTo
  by_cases hn : s.vdHandle node = invalidHandle
  · rw [if_pos hn, Option.map_some]
    obtain ⟨s', he, hvd', hlive', hmem⟩ := hend s (fun _ _ => rfl) hlive
    refine ⟨s', congrArg some he.symm, hvd', hlive', fun other _ _ i _ => ?_⟩
    rw [hmem, or_iff_right (not_not.mpr hn)]
  · rw [if_neg hn]
    obtain ⟨ret, s₁, hd, hvd, hkeeps, hobject⟩ := h.destroyData l hn
    obtain ⟨hlive₁, -⟩ := hkeeps _ hlive (fun he => hspare node he.symm)
    obtain ⟨s', he, hvd', hlive', hmem⟩ := hend s₁ hvd hlive₁
    rw [hd, Option.map_some, Option.map_some]
    refine ⟨s', congrArg some he.symm, hvd', hlive', fun other hne ho i hi => iff_of_true ?_ (.inl hn)⟩
    have hown : s.vdHandle other ≠ s.vdHandle node := fun he => hne (h.own other node ho he)
    obtain ⟨-, -, hbytes⟩ := (hkeeps _ (h.live other ho) hown).2
    rw [← hbytes i hi]
    -- the object's chunk, if there is one, is the node's old one
    refine (hmem _).mpr (.inr (touched_mem.mp (touched_outside ?_)))
    rcases hobject with hsize | ⟨hpch, hsize⟩
    · omega
    · have hapart := HeapState.apart h.reachable (h.live other ho) (h.live node hn) hown
      unfold HeapState.Disjoint at hapart
      omega

end NodeStore

open NodeStore RawData

/-- **`ReplaceData` touches only its node** exactly when it finds no memory, frees the node's own chunk, writes no hours, or
`m_stRawData` is not attached to another node's chunk. -/
theorem replaceData_touchesOnly {Node : Type} [DecidableEq Node] {s : NodeStore Node} {l : RowLayout} {ref : RawData}
    (hs : s.Owns) (href : ref.Formed l) (node : Node) (calls : NodeReplaceCalls Node) :
    ∃ ret s', s.replaceData l node ref calls = some (ret, s') ∧
      (s.TouchesOnly s' node ret ↔ s.KeepsToNode l node ref calls) := by
  have hbegun : s.begun.Owns := ⟨hs.reachable, hs.live, hs.own⟩
  obtain ⟨t, ht, ho, hk, hraw, hstays, hgone, hcase⟩ := hbegun.initOrPurge href node calls
  have hkept : s.Kept t.store := hk
  have hnode : t.store.vdHandle node = s.vdHandle node := hstays node (.inl rfl)
  unfold NodeStore.replaceData
  rw [ht, Option.bind_some]
  rcases hcase with ⟨hno, hret, hhandle⟩ | ⟨hroom, hready⟩
  · -- no memory: the node and its chunk are as they were
    have hdestroy : t.destroy = some t.store := if_pos hhandle
    rw [if_pos hret, hdestroy]
    refine ⟨_, _, rfl, iff_of_true ⟨fun other _ hother => ?_, fun _ => ⟨hnode, fun hn => ?_⟩, ho.live node⟩ (.inl hno)⟩
    · obtain ⟨he, -, -, hbytes⟩ := hkept other hother
      rw [he] at hbytes
      exact ⟨he, hbytes⟩
    · rw [← hnode] at hn ⊢
      exact (hkept node hn).2
  · obtain ⟨t', ht', hret', hhandle', hrows, ho', hk', hvd', hraw', hlive'⟩ := copyAll_ready hready ho href
    have hall : s.Kept t'.store := hkept.trans hk'
    have hspare : ∀ x, t'.store.vdHandle x ≠ t'.handle := by
      intro x
      rw [hvd', hhandle']
      exact hready.spare x
    obtain ⟨s', hs', hvd, hlive, hbytes⟩ := @Owns.switchTo Node _ t'.store l node ref ho' t' hlive' hspare calls.hour
    rw [if_neg (not_not.mpr hready.ret), ht', Option.bind_some, if_neg (not_not.mpr hret'), hs']
    refine ⟨_, _, rfl, ?_⟩
    -- what a node that keeps its chunk has in it
    have hother : ∀ other, other ≠ node → s'.vdHandle other ≠ invalidHandle → s'.vdHandle other = s.vdHandle other ∧
        ∀ i < s.heap.heap.chunkSize (s.vdHandle other),
          (s'.heap.heap.mem (s.vdHandle other + i) = s.heap.heap.mem (s.vdHandle other + i) ↔
            s.vdHandle node ≠ invalidHandle ∨ ref.rowCnt = 0 ∨ s.LeavesByte calls.hour (s.vdHandle other + i)) := by
      intro other hne hv
      rw [hvd, Function.update_of_ne hne] at hv ⊢
      obtain ⟨he, -, hsize, hsame⟩ := hall other hv
      rw [he] at hsize hsame
      refine ⟨he, fun i hi => ?_⟩
      have hiff := hbytes other hne hv i (by rw [he, hsize]; exact hi)
      rw [he, hvd', hnode, hrows, hsame i hi] at hiff
      rw [hiff, LeavesByte.congr (hraw'.trans hraw) (hsame i hi)]
      rfl
    have hsurvives : ∀ other, other ≠ node → s.vdHandle other ≠ invalidHandle →
        s.heap.heap.Gives (initSize l ref) ∨ other ∉ calls.purged → s'.vdHandle other ≠ invalidHandle := by
      intro other hne hv hkeep
      rw [hvd, Function.update_of_ne hne, hvd', hstays other (.inr hkeep)]
      exact hv
    constructor
    · intro htouch
      by_cases hn : s.vdHandle node = invalidHandle
      · refine .inr (.inr (or_iff_not_imp_left.mpr (fun hsome other hne hv hkeep i hi => ?_)))
        have hv' := hsurvives other hne hv hkeep
        have hsame := (htouch.others other hne hv').2 i hi
        exact ((((hother other hne hv').2 i hi).mp hsame).resolve_left (not_not.mpr hn)).resolve_left hsome
      · exact .inr (.inl hn)
    · intro hkeeps
      refine ⟨fun other hne hv => ?_, fun hne => absurd rfl hne, fun _ => ?_⟩
      · obtain ⟨he, hiff⟩ := hother other hne hv
        refine ⟨he, fun i hi => (hiff i hi).mpr ?_⟩
        rcases hkeeps with hno | hn | hrow | hapart
        · exact absurd hroom hno
        · exact .inl hn
        · exact .inr (.inl hrow)
        · refine .inr (.inr (hapart other hne (by rwa [← he]) (hgone other hne ?_) i hi))
          rwa [hvd, Function.update_of_ne hne, hvd'] at hv
      · rw [hvd, Function.update_self]
        exact hlive

def storedNode (heap : HeapState) : NodeStore Nat where
  heap := heap
  vdHandle node := if node = 0 then 7448 else invalidHandle
  rawData := ⟨7448, 7448, 36, 10⟩

def storedNodeOps : List HeapOp := [.malloc 30, .write 7448 0 oneRow.content]

theorem storedNode_owns {heap : HeapState} (hs : heapMachine.Reachable heap) (hlive : 7448 ∈ heap.live) :
    (storedNode heap).Owns := by
  have hnode : ∀ node, (storedNode heap).vdHandle node ≠ invalidHandle → node = 0 := by
    intro node hn
    by_contra hne
    exact hn (if_neg hne)
  refine ⟨hs, fun node hn => ?_, fun a b ha hab => ?_⟩
  · rw [hnode node hn]
    exact hlive
  · rw [hnode a ha, hnode b (hab ▸ ha)]

theorem replaceData_touchesOnly_ownChunk : ∃ (s s' : NodeStore Nat) (ret : Int), s.Owns ∧ s.vdHandle 0 = 7448 ∧
    s.replaceData exampleLayout 0 oneRow { hour := 5 } = some (ret, s') ∧ s.TouchesOnly s' 0 ret := by
  have hrun : (heapMachine.run firstHeap storedNodeOps).map HeapState.live = some [7448] := by decide
  obtain ⟨heap, hheap, hlive⟩ := Option.map_eq_some_iff.mp hrun
  have hs := storedNode_owns ⟨firstHeap, _, firstHeap_start, hheap⟩ (hlive ▸ List.mem_cons_self)
  obtain ⟨ret, s', he, hiff⟩ := replaceData_touchesOnly hs oneRow_holds.formed 0 { hour := 5 }
  exact ⟨_, s', ret, hs, rfl, he, hiff.mpr (.inr (.inl (show (7448 : Nat) ≠ 0 by decide)))⟩

/-- **Node 1 gets its first chunk**, and node 0 another hour of access. -/
theorem replaceData_touchesOnly_stale : ¬ ∀ (s s' : NodeStore Nat) (node : Nat) (ref : RawData) (calls : NodeReplaceCalls Nat)
    (ret : Int), s.Owns → ref.Formed exampleLayout → s.replaceData exampleLayout node ref calls = some (ret, s') →
      s.TouchesOnly s' node ret := by
  intro hall
  have hrun : ((heapMachine.run firstHeap storedNodeOps).bind (fun heap =>
      ((storedNode heap).replaceData exampleLayout 1 oneRow { hour := 5 }).map (fun r =>
        (heap.live, heap.heap.chunkSize 7448, heap.heap.mem 7458, r.1, r.2.vdHandle 0, r.2.heap.heap.mem 7458)))) =
      some ([7448], 36, 9, 0, 7448, 5) := by decide
  obtain ⟨heap, hheap, hrun⟩ := Option.bind_eq_some_iff.mp hrun
  obtain ⟨⟨ret, s'⟩, he, hrun⟩ := Option.map_eq_some_iff.mp hrun
  simp only [Prod.mk.injEq] at hrun
  obtain ⟨hlive, hsize, hbefore, -, hvd, hafter⟩ := hrun
  have hs := storedNode_owns ⟨firstHeap, _, firstHeap_start, hheap⟩ (hlive ▸ List.mem_cons_self)
  have htouch := hall (storedNode heap) s' 1 oneRow _ ret hs oneRow_holds.formed he
  have hsame := (htouch.others 0 (by decide) (by rw [hvd]; decide)).2 10 (by
    show 10 < heap.heap.chunkSize 7448
    rw [hsize]
    decide)
  have hsame' : s'.heap.heap.mem 7458 = heap.heap.mem 7458 := hsame
  rw [hbefore, hafter] at hsame'
  exact absurd hsame' (by decide)

end Dtc
