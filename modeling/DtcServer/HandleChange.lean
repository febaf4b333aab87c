import DtcServer.ReplaceNode
import DtcServer.RowFormat
/-!
# HandleChange — `cache_nodehandlechange`

The handler copies a node's raw data to a buffer of its own, frees the chunk and asks for a new one of the data's size.
-/
namespace Dtc

open Memory CBinMalloc Bytes

def erKeyNotFound : Int := 1032

namespace NodeStore

variable {Node : Type} [DecidableEq Node] (s : NodeStore Node) (l : RowLayout)

/-- What `cache_nodehandlechange` does with the node it has found; `privateBuff` says that `MALLOC` gives its buffer. -/
def changeHandle (node : Node) (privateBuff : Bool) : Option (Int × NodeStore Node) :=
  let nodeHandle := s.vdHandle node
  if nodeHandle = invalidHandle then some (-ecBadRawData, s)
  else
    -- the return value of `Attach` is not looked at
    let nodeRawData := s.attached l nodeHandle
    if !privateBuff then some (-enomem, s)
    else
      let buff := readBytes s.heap.heap.mem nodeHandle nodeRawData.2.dataSize
      (if nodeRawData.1 = -1 then some (0, s) else s.free nodeHandle).bind fun r =>
        if r.1 ≠ 0 then some (-enomem, r.2)
        else
          (r.2.malloc nodeRawData.2.dataSize).map fun r =>
            if r.2 = invalidHandle then (-enomem, r.1) else (0, (r.1.write r.2 buff).setVDHandle node r.2)

/-- **Moved or kept**: the node has a chunk in use with the same raw data; after a failure it is the one it had. -/
structure MovesOrKeeps (s s' : NodeStore Node) (l : RowLayout) (node : Node) (ret : Int) : Prop where
  live : s'.vdHandle node ∈ s'.heap.live
  attached : (s'.attached l (s'.vdHandle node)).1 = 0
  data : (s'.attached l (s'.vdHandle node)).2.dataSize = (s.attached l (s.vdHandle node)).2.dataSize ∧
    readBytes s'.heap.heap.mem (s'.vdHandle node) (s.attached l (s.vdHandle node)).2.dataSize =
      readBytes s.heap.heap.mem (s.vdHandle node) (s.attached l (s.vdHandle node)).2.dataSize
  rows : ∀ rows, (s.attached l (s.vdHandle node)).2.Holds l rows → (s'.attached l (s'.vdHandle node)).2.Holds l rows
  kept : ret ≠ 0 → s'.vdHandle node = s.vdHandle node ∧ s.heap.Keeps s'.heap (s.vdHandle node)

/-- The room that is left when the node's chunk is freed fits the data. -/
def FitsAgain (s : NodeStore Node) (l : RowLayout) (node : Node) : Prop :=
  requestOutOfRange (s.attached l (s.vdHandle node)).2.dataSize = false ∧
    (s.heap.heap.freedRoom (s.vdHandle node)).Fits (request2size (s.attached l (s.vdHandle node)).2.dataSize)

end NodeStore

/-- `cache_nodehandlechange` for the key of its condition, if there is one. -/
def cacheNodeHandleChange {Key : Type} [DecidableEq Key] {n : Nat} (slot : Bool → Key → Fin n) (l : RowLayout)
    (p : CachePool Key n) (s : NodeStore NodeId) (key : Option Key) (privateBuff : Bool) :
    Option (Int × CachePool Key n × NodeStore NodeId) :=
  match key with
  | none => some (-ecKeyNeeded, p, s)
  | some key =>
    (p.cacheFindAutoChoseHash slot key).bind fun r =>
      match r.2 with
      | none => some (-erKeyNotFound, r.1, s)
      | some node => (s.changeHandle l node privateBuff).map fun out => (out.1, r.1, out.2)

/-! ## The room after a chunk is freed -/

theorem binIndex_lt (size : Nat) : binIndex size < nBins := by
  unfold binIndex inSmallbinRange smallbinIndex largebinIndex nBins
  simp only [decide_eq_true_eq]
  repeat' split
  all_goals omega

theorem HeapRep.joined_spec {h : CBinMalloc} {bs : List Block} {B : Block} (R : HeapRep h bs) (hB : B ∈ bs) :
    ∃ a b, h.joined B.handle = (a, b - a) ∧ a ≤ B.addr ∧ B.addr + B.size ≤ b ∧ b ≤ h.hTop := by
  obtain ⟨bins, cs, H, rfl, -⟩ := R
  obtain ⟨front, back, p, -, hmin, hfield, H2⟩ := H.takeOut hB
  have hsize : B.addr + B.size - B.addr = B.size := Nat.add_sub_cancel_left _ _
  obtain ⟨h₂, bins₂, front', a, b, q', back₂, -, H₃, ha, hb, -, -, -, -, htop, hpre, hnext, -, -⟩ :=
    H2.interFree_joins (by omega) (by rw [hsize]; exact hfield)
  have hle := H₃.le_hTop
  rw [htop] at hle
  rw [hsize] at hpre
  refine ⟨a, b, ?_, ha, hb, hle⟩
  have hmem : mem2chunk B.handle = B.addr := Nat.add_sub_cancel B.addr 8
  unfold CBinMalloc.joined
  rw [hmem, H.chunkField hB, hpre]
  dsimp only
  rw [hnext]

theorem freedRoom_fits {s : HeapState} (hs : heapMachine.Reachable s) {handle size : Nat} (hlive : handle ∈ s.live)
    (hle : size ≤ s.heap.chunkField (mem2chunk handle)) (htop : s.heap.hTop + minSize < s.heap.tSize) :
    (s.heap.freedRoom handle).Fits size := by
  obtain ⟨bs, hbs⟩ := HeapState.has_of_reachable hs
  obtain ⟨B, hB, rfl⟩ := hbs.block hlive
  obtain ⟨a, b, hjoined, ha, hb, hend⟩ := hbs.1.joined_spec hB
  have hmem : mem2chunk B.handle = B.addr := Nat.add_sub_cancel B.addr 8
  obtain ⟨⟨bins, cs, H, rfl, -⟩, -⟩ := hbs
  rw [hmem, H.chunkField hB] at hle
  unfold CBinMalloc.freedRoom
  rw [hjoined]
  dsimp only
  by_cases hat : s.heap.atTop a (b - a) = true
  · rw [if_pos hat]
    refine .inr (.inr ?_)
    have hsum : a + (b - a) = s.heap.hTop := eq_of_beq hat
    dsimp only
    omega
  · rw [if_neg hat]
    rcases Nat.lt_or_ge (binIndex size) (binIndex (b - a)) with hlt | hge
    · refine .inl ⟨binIndex (b - a), binIndex_lt _, hlt, ?_⟩
      unfold binsWith
      dsimp only
      rw [Function.update_self]
      exact List.cons_ne_nil _ _
    · have heq : binIndex size = binIndex (b - a) := Nat.le_antisymm (binIndex_mono (by omega)) hge
      refine .inr (.inl ⟨a, ?_, ?_⟩)
      · unfold binsWith
        dsimp only
        rw [heq, Function.update_self]
        exact List.mem_cons_self
      · dsimp only
        rw [Function.update_self]
        omega

namespace NodeStore

variable {Node : Type} {s : NodeStore Node} {l : RowLayout} {node : Node}

theorem attached_of_data {b : RawData} (hb : b.Formed l) {r : Nat} (hle : b.dataSize ≤ s.heap.heap.chunkSize r)
    (hlt : s.heap.heap.chunkSize r < 2 ^ 32)
    (hdata : readBytes s.heap.heap.mem r b.dataSize = b.content.take b.dataSize) :
    (s.attached l r).1 = 0 ∧ (s.attached l r).2.dataSize = b.dataSize ∧
      ∀ rows, b.Holds l rows → (s.attached l r).2.Holds l rows := by
  obtain ⟨tail, body, ht, hc⟩ := hb.parts
  have htl := ht.length
  have hstart := hb.start_le
  have hlen : (s.chunk r).length = s.heap.heap.chunkSize r := length_readBytes _ _ _
  have htake : (s.chunk r).take b.dataSize = b.content.take b.dataSize := by
    rw [← hdata]
    exact take_readBytes _ _ _ _ hle
  have hsplit : s.chunk r = b.content.take b.dataSize ++ (s.chunk r).drop b.dataSize := by
    rw [← htake]
    exact (List.take_append_drop _ _).symm
  have hhead : (rawHeader b.dataSize b.rowCnt tail).length ≤ b.dataSize := by
    rw [length_rawHeader]
    omega
  have hparts : s.chunk r = rawHeader b.dataSize b.rowCnt tail ++
      (body.take (b.dataSize - (rawHeader b.dataSize b.rowCnt tail).length) ++ (s.chunk r).drop b.dataSize) := by
    rw [hc, List.take_append, List.take_of_length_le hhead, List.append_assoc] at hsplit
    exact hsplit
  have hattach := @RawData.attach_eq l { handle := true, content := s.chunk r } (by rw [hlen]; exact hlt) b.dataSize b.rowCnt
    b.dataStart tail _ hparts ht (by rw [hlen]; exact hle) hb.rowCount
  have hobject : s.attached l r = _ := hattach
  rw [hobject]
  refine ⟨rfl, rfl, fun rows hrows => ?_⟩
  obtain ⟨tail', slack, ht', hc'⟩ := hrows.parts
  have htl' := ht'.length
  have hsize := hrows.dataSize
  have hrowBytes : b.content.take b.dataSize = rawHeader b.dataSize b.rowCnt tail' ++ l.encodeRows rows := by
    rw [hc', ← List.append_assoc (rawHeader _ _ _)]
    exact List.take_left' (by rw [List.length_append, length_rawHeader]; omega)
  rw [hrowBytes, List.append_assoc] at hsplit
  exact ⟨rfl, rfl, by rw [hlen]; exact hlt, ⟨tail', _, ht', hsplit⟩, hrows.rowCount, hsize⟩

theorem Owns.changeHandle [DecidableEq Node] (h : s.Owns) (hn : s.vdHandle node ≠ invalidHandle)
    (hraw : (s.attached l (s.vdHandle node)).2.Formed l) (privateBuff : Bool) :
    ∃ ret s', s.changeHandle l node privateBuff = some (ret, s') ∧
      (s.MovesOrKeeps s' l node ret ↔ privateBuff = false ∨ s.FitsAgain l node) := by
  have hlive := h.live node hn
  obtain ⟨-, hroom, hlt⟩ := HeapState.chunkSize_live h.reachable hlive
  have hlen : (s.chunk (s.vdHandle node)).length = s.heap.heap.chunkSize (s.vdHandle node) := length_readBytes _ _ _
  have hcontent : (s.attached l (s.vdHandle node)).2.content = s.chunk (s.vdHandle node) := RawData.attach_frame.1
  have hle := hraw.dataSize_le
  rw [hcontent, hlen] at hle
  have hdata : readBytes s.heap.heap.mem (s.vdHandle node) (s.attached l (s.vdHandle node)).2.dataSize =
      (s.attached l (s.vdHandle node)).2.content.take (s.attached l (s.vdHandle node)).2.dataSize := by
    rw [hcontent]
    exact (take_readBytes _ _ _ _ hle).symm
  obtain ⟨hret, -, -⟩ := attached_of_data hraw hle hlt hdata
  unfold NodeStore.changeHandle
  rw [if_neg hn]
  cases privateBuff with
  | false =>
    refine ⟨_, _, rfl, iff_of_true ⟨hlive, hret, ⟨rfl, rfl⟩, fun _ hrows => hrows, fun _ => ⟨rfl, ?_⟩⟩ (.inl rfl)⟩
    exact HeapState.Keeps.refl hlive
  | true =>
    rw [or_iff_right (by decide : ¬ true = false)]
    obtain ⟨s₁, hf, hvd, -, he, hreach, herase, -⟩ := h.free hlive
    have hfree : (if (s.attached l (s.vdHandle node)).1 = -1 then some (0, s) else s.free (s.vdHandle node)) =
        some (0, s₁) := by
      rw [hret, if_neg (by decide), hf]
    have hfits : s₁.heap.heap.Gives (s.attached l (s.vdHandle node)).2.dataSize ↔ s.FitsAgain l node := by
      have hgives := gives_after_free h.reachable hlive (s.attached l (s.vdHandle node)).2.dataSize
      rwa [he] at hgives
    obtain ⟨h', r, hm, hreach', hkeeps', hgives, hnew⟩ :=
      HeapState.malloc_spec hreach (s.attached l (s.vdHandle node)).2.dataSize
    have hmalloc : s₁.malloc (s.attached l (s.vdHandle node)).2.dataSize =
        some ({ s₁ with heap := s₁.heap.received (h', r) }, r) := by
      unfold NodeStore.malloc
      rw [hm]
      rfl
    dsimp only
    rw [if_neg (by decide), hfree, Option.bind_some, if_neg (not_not.mpr rfl), hmalloc, Option.map_some]
    dsimp only
    rw [← hfits, ← hgives]
    by_cases hr : r = invalidHandle
    · -- the node has the handle of the chunk that is freed
      rw [if_pos hr]
      refine ⟨_, _, rfl, iff_of_false (fun hmoves => ?_) (not_not.mpr hr)⟩
      have hin : s₁.vdHandle node ∈ (s₁.heap.received (h', r)).live := hmoves.live
      have hsame : (s₁.heap.received (h', r)).live = s₁.heap.live := if_neg (not_not.mpr hr)
      obtain ⟨bs, hbs⟩ := HeapState.has_of_reachable h.reachable
      rw [hsame, herase, hvd] at hin
      exact hbs.liveNodup.not_mem_erase hin
    · rw [if_neg hr]
      obtain ⟨-, hlive', hsize⟩ := hnew hr
      generalize hb : s.attached l (s.vdHandle node) = b at *
      generalize hbuff : readBytes s.heap.heap.mem (s.vdHandle node) b.2.dataSize = buff at *
      have hblen : buff.length = b.2.dataSize := by
        rw [← hbuff]
        exact length_readBytes _ _ _
      have hfit : buff.length ≤ (s₁.heap.received (h', r)).heap.chunkSize r := by
        rw [hblen]
        exact hsize
      obtain ⟨hreach₂, hsizes, -⟩ := HeapState.written_spec hreach' hlive' hfit
      generalize hs₂ : ((({ s₁ with heap := s₁.heap.received (h', r) } : NodeStore Node).write r buff).setVDHandle node r) = s₂
      have hheap : s₂.heap = (s₁.heap.received (h', r)).written r buff := by
        rw [← hs₂]
        rfl
      have hnew : s₂.vdHandle node = r := by
        rw [← hs₂]
        exact Function.update_self _ _ _
      have hread : readBytes s₂.heap.heap.mem r b.2.dataSize = buff := by
        rw [hheap, ← hblen]
        exact readBytes_writeBytes _ _ _
      have hsize₂ : b.2.dataSize ≤ s₂.heap.heap.chunkSize r := by
        rw [hheap, hsizes r hlive', ← hblen]
        exact hfit
      have hlive₂ : r ∈ s₂.heap.live := by
        rw [hheap]
        exact hlive'
      rw [← hheap] at hreach₂
      obtain ⟨-, -, hlt₂⟩ := HeapState.chunkSize_live hreach₂ hlive₂
      obtain ⟨h1, h2, h3⟩ := attached_of_data hraw hsize₂ hlt₂ (hread.trans hdata)
      refine ⟨_, _, rfl, iff_of_true ⟨?_, ?_, ?_, ?_, fun hne => absurd rfl hne⟩ hr⟩
      · rw [hnew]
        exact hlive₂
      · rw [hnew]
        exact h1
      · rw [hnew, hb, hbuff]
        exact ⟨h2, hread⟩
      · rw [hnew, hb]
        exact h3

theorem Owns.fitsAgain (h : s.Owns) (hn : s.vdHandle node ≠ invalidHandle)
    (hsmall : (s.attached l (s.vdHandle node)).2.dataSize + 4 ≤ s.heap.heap.chunkSize (s.vdHandle node))
    (hrange : requestOutOfRange (s.attached l (s.vdHandle node)).2.dataSize = false)
    (htop : s.heap.heap.hTop + minSize < s.heap.heap.tSize) : s.FitsAgain l node := by
  have hlive := h.live node hn
  refine ⟨hrange, freedRoom_fits h.reachable hlive ?_ htop⟩
  obtain ⟨bs, hbs⟩ := HeapState.has_of_reachable h.reachable
  obtain ⟨B, hB, hhandle⟩ := hbs.block hlive
  have hsize := (hbs.sees hB).1
  obtain ⟨⟨bins, cs, H, rfl, -⟩, -⟩ := hbs
  obtain ⟨front, back, q, -, H1⟩ := H.cutUsed hB
  have hB24 : 24 ≤ B.size := H1.segBack.1.min
  have hB8 : B.size % 8 = 0 := H1.segBack.1.align
  rw [← hhandle] at hsmall ⊢
  have hmem : mem2chunk B.handle = B.addr := Nat.add_sub_cancel B.addr 8
  rw [hmem, H.chunkField hB]
  rw [hsize] at hsmall
  unfold request2size minSize
  split <;> omega

end NodeStore

open NodeStore RawData

/-- **`cache_nodehandlechange` moves the data or keeps it** exactly when it has no buffer for it or the room left by the
chunk fits it. -/
theorem cacheNodeHandleChange_moves {Key : Type} [DecidableEq Key] {n : Nat} {slot : Bool → Key → Fin n} {l : RowLayout}
    {p p' : CachePool Key n} {s : NodeStore NodeId} {key : Key} {node : NodeId} (hs : s.Owns)
    (hfind : p.cacheFindAutoChoseHash slot key = some (p', some node)) (hn : s.vdHandle node ≠ invalidHandle)
    (hraw : (s.attached l (s.vdHandle node)).2.Formed l) (privateBuff : Bool) :
    ∃ ret s', cacheNodeHandleChange slot l p s (some key) privateBuff = some (ret, p', s') ∧
      (s.MovesOrKeeps s' l node ret ↔ privateBuff = false ∨ s.FitsAgain l node) := by
  obtain ⟨ret, s', he, hiff⟩ := hs.changeHandle hn hraw privateBuff
  refine ⟨ret, s', ?_, hiff⟩
  unfold cacheNodeHandleChange
  dsimp only
  rw [hfind, Option.bind_some]
  dsimp only
  rw [he]
  rfl

def onePool : CachePool Nat 1 where
  config := {}
  index := ⟨fun _ => true, fun _ => true⟩
  buckets _ := some 0
  vdHandle node := if node = 0 then some 5 else none
  used := [0]

theorem attached_rows {heap : HeapState} {b : RawData} {rows : List (UInt8 × RowValue)} (hb : b.Holds exampleLayout rows)
    (hs : (storedNode heap).Owns) (hle : b.dataSize ≤ heap.heap.chunkSize 7448)
    (hread : readBytes heap.heap.mem 7448 b.dataSize = b.content.take b.dataSize) :
    ((storedNode heap).attached exampleLayout 7448).2.dataSize = b.dataSize ∧
      ((storedNode heap).attached exampleLayout 7448).2.Formed exampleLayout := by
  obtain ⟨-, -, hlt⟩ := HeapState.chunkSize_live hs.reachable (hs.live 0 (show (7448 : Nat) ≠ 0 by decide))
  obtain ⟨-, hsize, hrows⟩ := attached_of_data hb.formed hle hlt hread
  exact ⟨hsize, (hrows rows hb).formed⟩

theorem cacheNodeHandleChange_moves_oneRow : ∃ (s s' : NodeStore NodeId) (ret : Int), s.vdHandle 0 = 7448 ∧
    cacheNodeHandleChange (fun _ _ => 0) exampleLayout onePool s (some 5) true = some (ret, onePool, s') ∧
    s.MovesOrKeeps s' exampleLayout 0 ret := by
  have hrun : (heapMachine.run firstHeap storedNodeOps).map (fun heap => (heap.live, heap.heap.chunkSize 7448,
      readBytes heap.heap.mem 7448 30, decide (heap.heap.hTop + minSize < heap.heap.tSize))) =
      some ([7448], 36, oneRow.content, true) := by decide
  obtain ⟨heap, hheap, hrun⟩ := Option.map_eq_some_iff.mp hrun
  simp only [Prod.mk.injEq] at hrun
  obtain ⟨hlive, hsize, hread, htop⟩ := hrun
  have hs := storedNode_owns ⟨firstHeap, _, firstHeap_start, hheap⟩ (hlive ▸ List.mem_cons_self)
  obtain ⟨hdata, hraw⟩ := attached_rows oneRow_holds hs (by rw [hsize]; decide) (hread.trans (by decide))
  have hn : (storedNode heap).vdHandle 0 ≠ invalidHandle := show (7448 : Nat) ≠ 0 by decide
  have hfits : (storedNode heap).FitsAgain exampleLayout 0 := by
    refine hs.fitsAgain hn ?_ ?_ (of_decide_eq_true htop)
    · show ((storedNode heap).attached exampleLayout 7448).2.dataSize + 4 ≤ heap.heap.chunkSize 7448
      rw [hdata, hsize]
      decide
    · show requestOutOfRange ((storedNode heap).attached exampleLayout 7448).2.dataSize = false
      rw [hdata]
      decide
  obtain ⟨ret, s', he, hiff⟩ := @cacheNodeHandleChange_moves Nat _ 1 (fun _ _ => 0) exampleLayout onePool onePool _ 5 0 hs
    rfl hn hraw true
  exact ⟨_, s', ret, rfl, he, hiff.mpr (.inr hfits)⟩

def fullRow : RawData where
  handle := true
  content := rawHeader 108 1 [1, 9, 0, 9, 0, 9, 0, 1, 0, 0, 0] ++
    ([0x30, 5, 0, 0, 0, 79, 0, 0, 0] ++ List.replicate 79 97)
  dataSize := 108
  rowCnt := 1
  dataStart := 20

theorem fullRow_holds : fullRow.Holds exampleLayout [(0x30, exampleRow 5 (List.replicate 79 97) (by decide))] :=
  ⟨rfl, rfl, by decide, ⟨_, [], ⟨[1, 9, 0, 9, 0, 9, 0], [1, 0, 0, 0], rfl, rfl, rfl, rfl⟩, by decide⟩, rfl,
    by decide⟩

/-- **The data fills its chunk** and no other chunk is large enough: the chunk is freed, and the node has its handle. -/
theorem cacheNodeHandleChange_dangling : ¬ ∀ (s s' : NodeStore NodeId) (p p' : CachePool Nat 1) (key node : Nat) (ret : Int),
    s.Owns → p.cacheFindAutoChoseHash (fun _ _ => 0) key = some (p', some node) → s.vdHandle node ≠ invalidHandle →
    (s.attached exampleLayout (s.vdHandle node)).2.Formed exampleLayout →
    cacheNodeHandleChange (fun _ _ => 0) exampleLayout p s (some key) true = some (ret, p', s') →
      s.MovesOrKeeps s' exampleLayout node ret := by
  intro hall
  have hrun : ((heapMachine.run firstHeap [.malloc 100, .malloc 8792, .write 7448 0 fullRow.content]).bind (fun heap =>
      (cacheNodeHandleChange (fun _ _ => 0) exampleLayout onePool (storedNode heap) (some 5) true).map (fun r =>
        (heap.live, heap.heap.chunkSize 7448, readBytes heap.heap.mem 7448 108, r.2.2.vdHandle 0,
          decide (7448 ∈ r.2.2.heap.live))))) =
      some ([7560, 7448], 108, fullRow.content, 7448, false) := by decide
  obtain ⟨heap, hheap, hrun⟩ := Option.bind_eq_some_iff.mp hrun
  obtain ⟨⟨ret, p', s'⟩, he, hrun⟩ := Option.map_eq_some_iff.mp hrun
  simp only [Prod.mk.injEq] at hrun
  obtain ⟨hlive, hsize, hread, hvd, hafter⟩ := hrun
  have hs := storedNode_owns ⟨firstHeap, _, firstHeap_start, hheap⟩ (hlive ▸ List.mem_cons_of_mem _ List.mem_cons_self)
  obtain ⟨-, hraw⟩ := attached_rows fullRow_holds hs (by rw [hsize]; decide) (hread.trans (by decide))
  have hn : (storedNode heap).vdHandle 0 ≠ invalidHandle := show (7448 : Nat) ≠ 0 by decide
  have hout : ((storedNode heap).changeHandle exampleLayout 0 true).map (fun out => (out.1, onePool, out.2)) =
      some (ret, p', s') := he
  obtain ⟨out, -, hout⟩ := Option.map_eq_some_iff.mp hout
  obtain rfl := congrArg (fun r => r.2.1) hout
  have hin := (hall (storedNode heap) s' onePool onePool 5 0 ret hs rfl hn hraw he).live
  rw [hvd] at hin
  exact of_decide_eq_false hafter hin

end Dtc
