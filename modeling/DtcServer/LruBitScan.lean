import DtcServer.LruBit
import Mathlib.Data.Set.Insert
import Mathlib.Logic.Function.Iterate
/-!
# LruBitScan — what the scan of the node bitmap reports

A call of `Scan` is one or more ticks: an index byte is written out and cleared, or the scan goes on to the next block. A tick
moves the bits at the scan position to the writer and leaves all others.
-/
namespace Dtc

namespace CLruBitObj

def start (stopUntil : Nat) : CLruBitObj where
  scanStopUntil := stopUntil

/-! ## Specification -/

def Ahead (s : CLruBitObj) (v : UInt32) : Prop :=
  s.scanLruBit < bblkOff v ∨ s.scanLruBit = bblkOff v ∧ s.scanIdxOff ≤ idxByteOff v

/-- The blocks that the scan passes before it has written the id. -/
def OnWay (s : CLruBitObj) (v : UInt32) (b : Nat) : Prop :=
  (s.Ahead v ∧ s.scanLruBit ≤ b ∧ b ≤ bblkOff v) ∨
    ¬ s.Ahead v ∧ (s.scanLruBit ≤ b ∧ b ≤ s.maxLruBit ∨ b ≤ bblkOff v)

/-- **The way to the id is free**: the blocks on it are allocated. -/
def Unblocked (s : CLruBitObj) (v : UInt32) : Prop := ∀ b, s.OnWay v b → (s.lruBits b).isSome

/-- Calls of `SetNodeID`, one after another. -/
def setAll (s : CLruBitObj) : List SetCall → CLruBitObj
  | [] => s
  | c :: cs => (s.setNodeID c).1.setAll cs

/-- The set of ids that calls of `SetNodeID` leave of `S`. -/
def left (s : CLruBitObj) (S : Set UInt32) : List SetCall → Set UInt32
  | [] => S
  | c :: cs =>
    (s.setNodeID c).1.left
      (if (s.setNodeID c).2 = 0 then (if c.b then insert c.v S else S \ {c.v}) else S) cs

/-- **Some number of scans reports all of `S`**, every id once and no other, and leaves the bitmap empty. -/
def ReportsAll (s : CLruBitObj) (S : Set UInt32) : Prop :=
  ∃ n ids, (scan^[n] s).written = s.written ++ ids ∧ ids.Nodup ∧ (∀ v, v ∈ ids ↔ v ∈ S) ∧ ∀ v, ¬ (scan^[n] s).Has v

/-- Every scan among the calls finds the block it is to scan. -/
def ScansFind : CLruBitObj → List Call → Prop
  | _, [] => True
  | s, .scan :: cs => (s.lruBits s.scanLruBit).isSome ∧ s.scan.ScansFind cs
  | s, .setNodeID c :: cs => (s.setNodeID c).1.ScansFind cs

/-- **The id is not lost**: whatever is called, it is reported or still set until it is cleared, and scans that find their
blocks come to it within a round of all blocks that can be. -/
def NotLost (s : CLruBitObj) (v : UInt32) : Prop :=
  ∀ cs, (∀ c, Call.setNodeID c ∈ cs → c.v = v → c.b = true) →
    ∃ ids, (s.calls cs).written = s.written ++ ids ∧ (v ∈ ids ∨ (s.calls cs).Has v) ∧
      (s.ScansFind cs → 2048 * (idxSize + 1) < cs.count .scan → v ∈ ids)

/-! ## One call of `SetNodeID` -/

variable {s : CLruBitObj} {v w : UInt32}

structure Inv (s : CLruBitObj) : Prop where
  wf : ∀ b p, s.lruBits b = some p → p.Wf
  max_lt : s.maxLruBit < 2048
  block_le : ∀ b p, s.lruBits b = some p → b ≤ s.maxLruBit
  scan_le : s.scanLruBit ≤ s.maxLruBit
  off_le : s.scanIdxOff ≤ idxSize

theorem inv_start (stopUntil : Nat) : Inv (start stopUntil) where
  wf := fun _ _ h => by cases h
  max_lt := Nat.zero_lt_succ _
  block_le := fun _ _ h => by cases h
  scan_le := Nat.le_refl _
  off_le := Nat.zero_le _

theorem lruBits_put {c : SetCall} {p q : LruBit} {b : Nat} (h : (setNodeID.put c s p).lruBits b = some q) :
    b = bblkOff c.v ∧ q = (p.set c.v c.b).1 ∨ s.lruBits b = some q := by
  change Function.update s.lruBits (bblkOff c.v) (some (p.set c.v c.b).1) b = some q at h
  by_cases hb : b = bblkOff c.v
  · rw [hb, Function.update_self] at h
    exact .inl ⟨hb, (Option.some.inj h).symm⟩
  · rw [Function.update_of_ne hb] at h
    exact .inr h

theorem Inv.put (h : Inv s) (c : SetCall) {p : LruBit} (hp : p.Wf) : Inv (setNodeID.put c s p) := by
  have hmax : (setNodeID.put c s p).maxLruBit = max s.maxLruBit (bblkOff c.v) := by
    unfold setNodeID.put
    dsimp only
    split <;> omega
  refine ⟨fun b q hq => ?_, ?_, fun b q hq => ?_, ?_, h.off_le⟩
  · rcases lruBits_put hq with ⟨-, rfl⟩ | hq
    · exact hp.set c.v c.b
    · exact h.wf b q hq
  · have := h.max_lt
    have := bblkOff_lt c.v
    omega
  · rw [hmax]
    rcases lruBits_put hq with ⟨rfl, -⟩ | hq
    · exact Nat.le_max_right _ _
    · exact Nat.le_trans (h.block_le b q hq) (Nat.le_max_left _ _)
  · rw [hmax]
    exact Nat.le_trans h.scan_le (Nat.le_max_left _ _)

theorem Inv.setNodeID (h : Inv s) (c : SetCall) : Inv (s.setNodeID c).1 := by
  unfold CLruBitObj.setNodeID
  split
  · split
    · exact h.put c LruBit.wf_empty
    · exact h
  · next p hp => exact h.put c (h.wf _ p hp)

theorem has_put {c : SetCall} {p : LruBit} (hp : ∀ w, bblkOff w = bblkOff c.v → (p.Has w ↔ s.Has w)) :
    (setNodeID.put c s p).Has w ↔ if w = c.v then c.b = true else s.Has w := by
  unfold Has setNodeID.put
  dsimp only
  by_cases hblk : bblkOff w = bblkOff c.v
  · rw [hblk, Function.update_self]
    have hsome : (∃ q, some (p.set c.v c.b).1 = some q ∧ q.Has w) ↔ (p.set c.v c.b).1.Has w :=
      ⟨fun ⟨q, hq, hw⟩ => Option.some.inj hq ▸ hw, fun hw => ⟨_, rfl, hw⟩⟩
    rw [hsome, LruBit.has_set]
    by_cases hw : w = c.v
    · rw [if_pos hw, if_pos ⟨congrArg blkByteOff hw, congrArg blkByteShift hw⟩]
    · rw [if_neg hw, if_neg (fun h => hw (eq_of_bit hblk h.1 h.2)), hp w hblk, ← hblk]
      rfl
  · rw [Function.update_of_ne hblk, if_neg (fun hw => hblk (congrArg bblkOff hw))]

theorem has_setNodeID (c : SetCall) :
    (s.setNodeID c).1.Has w ↔ if w = c.v ∧ (s.setNodeID c).2 = 0 then c.b = true else s.Has w := by
  unfold setNodeID
  split
  · next hnone =>
    split
    · have hempty : ∀ w, bblkOff w = bblkOff c.v → (({} : LruBit).Has w ↔ s.Has w) := by
        intro w hw
        refine iff_of_false (LruBit.issetB_zero w) ?_
        rintro ⟨p, hp, -⟩
        rw [hw, hnone] at hp
        cases hp
      simp only [has_put hempty, and_true]
    · rw [if_neg (fun h => nomatch h.2)]
  · next p hp =>
    have hsame : ∀ w, bblkOff w = bblkOff c.v → (p.Has w ↔ s.Has w) := by
      intro w hw
      unfold Has
      rw [hw, hp]
      exact ⟨fun h => ⟨p, rfl, h⟩, fun ⟨q, hq, h⟩ => Option.some.inj hq ▸ h⟩
    simp only [has_put hsame, and_true]

theorem has_setAll : ∀ (cs : List SetCall) {s : CLruBitObj} {S : Set UInt32}, (∀ v, s.Has v ↔ v ∈ S) →
    ∀ v, (s.setAll cs).Has v ↔ v ∈ s.left S cs
  | [], _, _, h => h
  | c :: cs, s, S, h => by
    refine has_setAll cs fun v => ?_
    rw [has_setNodeID]
    by_cases hok : (s.setNodeID c).2 = 0
    · rw [if_pos hok]
      cases hb : c.b with
      | true =>
        rw [if_pos rfl, Set.mem_insert_iff, ← h v]
        split
        · next hv => exact iff_of_true rfl (.inl hv.1)
        · next hv => exact ⟨.inr, fun hor => hor.resolve_left (fun hv' => hv ⟨hv', hok⟩)⟩
      | false =>
        rw [if_neg Bool.false_ne_true, Set.mem_sdiff, Set.mem_singleton_iff, ← h v]
        split
        · next hv => exact iff_of_false Bool.false_ne_true (fun hd => hd.2 hv.1)
        · next hv => exact ⟨fun hs => ⟨hs, fun hv' => hv ⟨hv', hok⟩⟩, And.left⟩
    · rw [if_neg hok, if_neg (fun hv => hok hv.2)]
      exact h v

theorem Inv.setAll : ∀ (cs : List SetCall) {s : CLruBitObj}, Inv s → Inv (s.setAll cs)
  | [], _, h => h
  | c :: cs, _, h => Inv.setAll cs (h.setNodeID c)

/-! ## Ticks -/

def tick (s : CLruBitObj) : CLruBitObj :=
  match s.lruBits s.scanLruBit with
  | none => s
  | some p => if s.scanIdxOff < idxSize then s.scanByte p else s.nextBlock

def AtScan (s : CLruBitObj) (v : UInt32) : Prop := bblkOff v = s.scanLruBit ∧ idxByteOff v = s.scanIdxOff

theorem tick_none (h : s.lruBits s.scanLruBit = none) : s.tick = s := by
  unfold tick
  rw [h]

theorem tick_byte {p : LruBit} (hp : s.lruBits s.scanLruBit = some p) (hoff : s.scanIdxOff < idxSize) :
    s.tick = s.scanByte p := by
  unfold tick
  rw [hp]
  exact if_pos hoff

theorem tick_next {p : LruBit} (hp : s.lruBits s.scanLruBit = some p) (hoff : ¬ s.scanIdxOff < idxSize) :
    s.tick = s.nextBlock := by
  unfold tick
  rw [hp]
  exact if_neg hoff

theorem lruBits_nextBlock : s.nextBlock.lruBits = s.lruBits := by
  unfold nextBlock
  split <;> rfl

theorem written_nextBlock : s.nextBlock.written = s.written := by
  unfold nextBlock
  split <;> rfl

theorem maxLruBit_nextBlock : s.nextBlock.maxLruBit = s.maxLruBit := by
  unfold nextBlock
  split <;> rfl

theorem lruBits_scanByte (p : LruBit) (b : Nat) :
    (s.scanByte p).lruBits b =
      if b = s.scanLruBit ∧ 0 < (p.found s.scanLruBit s.scanIdxOff).length then some (p.clear s.scanIdxOff)
      else s.lruBits b := by
  unfold scanByte
  dsimp only
  by_cases hpos : 0 < (p.found s.scanLruBit s.scanIdxOff).length
  · rw [if_pos hpos]
    by_cases hb : b = s.scanLruBit
    · rw [if_pos ⟨hb, hpos⟩, hb, Function.update_self]
    · rw [if_neg (fun h => hb h.1), Function.update_of_ne hb]
  · rw [if_neg hpos, if_neg (fun h => hpos h.2)]

theorem isSome_tick (b : Nat) : (s.tick.lruBits b).isSome = (s.lruBits b).isSome := by
  rcases hp : s.lruBits s.scanLruBit with _ | p
  · rw [tick_none hp]
  · by_cases hoff : s.scanIdxOff < idxSize
    · rw [tick_byte hp hoff, lruBits_scanByte]
      split
      · next hb => rw [hb.1, hp]; rfl
      · rfl
    · rw [tick_next hp hoff, lruBits_nextBlock]

theorem maxLruBit_tick : s.tick.maxLruBit = s.maxLruBit := by
  rcases hp : s.lruBits s.scanLruBit with _ | p
  · rw [tick_none hp]
  · by_cases hoff : s.scanIdxOff < idxSize
    · rw [tick_byte hp hoff]
      rfl
    · rw [tick_next hp hoff, maxLruBit_nextBlock]

theorem Inv.tick (h : Inv s) : Inv s.tick := by
  rcases hp : s.lruBits s.scanLruBit with _ | p
  · rw [tick_none hp]
    exact h
  · by_cases hoff : s.scanIdxOff < idxSize
    · rw [tick_byte hp hoff]
      refine ⟨fun b q hq => ?_, h.max_lt, fun b q hq => ?_, h.scan_le, hoff⟩
      · rw [lruBits_scanByte] at hq
        split at hq
        · rw [← Option.some.inj hq]
          exact (h.wf _ p hp).clear _
        · exact h.wf b q hq
      · rw [lruBits_scanByte] at hq
        split at hq
        · next hb => exact hb.1 ▸ h.scan_le
        · exact h.block_le b q hq
    · rw [tick_next hp hoff]
      refine ⟨?_, ?_, ?_, ?_, ?_⟩
      · rw [lruBits_nextBlock]
        exact h.wf
      · rw [maxLruBit_nextBlock]
        exact h.max_lt
      · rw [lruBits_nextBlock, maxLruBit_nextBlock]
        exact h.block_le
      · unfold nextBlock
        split
        · exact Nat.zero_le _
        · next hmax => exact Nat.not_lt.mp hmax
      · unfold nextBlock
        split <;> exact Nat.zero_le _

theorem has_iff {p : LruBit} (hp : s.lruBits (bblkOff v) = some p) : s.Has v ↔ p.Has v :=
  ⟨fun ⟨_, hq, h⟩ => Option.some.inj (hp.symm.trans hq) ▸ h, fun h => ⟨p, hp, h⟩⟩

theorem tick_reports (h : Inv s) :
    ∃ ids, s.tick.written = s.written ++ ids ∧ ids.Nodup ∧ (∀ v, v ∈ ids ↔ s.Has v ∧ s.AtScan v) ∧
      ∀ v, s.tick.Has v ↔ s.Has v ∧ ¬ s.AtScan v := by
  have hnone : (∀ v, s.Has v → ¬ s.AtScan v) → s.tick.written = s.written → s.tick.lruBits = s.lruBits →
      ∃ ids, s.tick.written = s.written ++ ids ∧ ids.Nodup ∧ (∀ v, v ∈ ids ↔ s.Has v ∧ s.AtScan v) ∧
        ∀ v, s.tick.Has v ↔ s.Has v ∧ ¬ s.AtScan v := by
    intro hno hwritten hblocks
    refine ⟨[], by rw [hwritten, List.append_nil], List.nodup_nil,
      fun v => iff_of_false List.not_mem_nil (fun hv => hno v hv.1 hv.2), fun v => ?_⟩
    unfold Has
    rw [hblocks]
    exact ⟨fun hv => ⟨hv, hno v hv⟩, And.left⟩
  rcases hp : s.lruBits s.scanLruBit with _ | p
  · refine hnone (fun v hv hat => ?_) (by rw [tick_none hp]) (by rw [tick_none hp])
    obtain ⟨q, hq, -⟩ := hv
    rw [hat.1, hp] at hq
    cases hq
  · by_cases hoff : s.scanIdxOff < idxSize
    · have hwf := h.wf _ p hp
      have hblk : s.scanLruBit < 2048 := Nat.lt_of_le_of_lt h.scan_le h.max_lt
      have hfound : ∀ v, v ∈ p.found s.scanLruBit s.scanIdxOff ↔ s.Has v ∧ s.AtScan v := by
        intro v
        rw [LruBit.mem_found hwf hblk hoff, ← and_assoc]
        constructor
        · rintro ⟨hat, hv⟩
          exact ⟨(has_iff (hat.1 ▸ hp)).mpr hv, hat⟩
        · rintro ⟨hv, hat⟩
          exact ⟨hat, (has_iff (hat.1 ▸ hp)).mp hv⟩
      rw [tick_byte hp hoff]
      refine ⟨_, rfl, LruBit.nodup_found p hblk hoff, hfound, fun v => ?_⟩
      unfold Has
      rw [lruBits_scanByte]
      split
      · next hclear =>
        have hiff : s.Has v ↔ p.Has v := has_iff (hclear.1 ▸ hp)
        have hsome : (∃ q, some (p.clear s.scanIdxOff) = some q ∧ q.Has v) ↔ (p.clear s.scanIdxOff).Has v :=
          ⟨fun ⟨q, hq, hw⟩ => Option.some.inj hq ▸ hw, fun hw => ⟨_, rfl, hw⟩⟩
        rw [hsome, LruBit.has_clear, ← hiff]
        exact ⟨fun hv => ⟨hv.2, fun hat => hv.1 hat.2⟩, fun hv => ⟨fun ho => hv.2 ⟨hclear.1, ho⟩, hv.1⟩⟩
      · next hkeep =>
        refine ⟨fun hv => ⟨hv, fun hat => hkeep ⟨hat.1, ?_⟩⟩, And.left⟩
        exact List.length_pos_of_mem ((hfound v).mpr ⟨hv, hat⟩)
    · refine hnone (fun v _ hat => ?_) (by rw [tick_next hp hoff, written_nextBlock])
        (by rw [tick_next hp hoff, lruBits_nextBlock])
      exact hoff (hat.2 ▸ idxByteOff_lt v)

theorem scanLoop_eq_ticks : ∀ (n foundId : Nat) {s : CLruBitObj}, s.scanIdxOff + n = idxSize →
    (s.lruBits s.scanLruBit).isSome →
    ∃ k, (scanLoop n foundId s).1 = tick^[k] s ∧ ((scanLoop n foundId s).2 = false → 1 ≤ k) ∧
      ((scanLoop n foundId s).2 = true →
        (scanLoop n foundId s).1.scanIdxOff = idxSize ∧
          ((scanLoop n foundId s).1.lruBits (scanLoop n foundId s).1.scanLruBit).isSome)
  | 0, foundId, s, hn, hsome => ⟨0, rfl, fun h => Bool.noConfusion h, fun _ => ⟨hn, hsome⟩⟩
  | n + 1, foundId, s, hn, hsome => by
    obtain ⟨p, hp⟩ := Option.isSome_iff_exists.mp hsome
    have htick : s.tick = s.scanByte p := tick_byte hp (by omega)
    rw [scanLoop, hp]
    dsimp only
    split
    · exact ⟨1, htick.symm, fun _ => Nat.le_refl 1, fun h => Bool.noConfusion h⟩
    · have hsome' : ((s.scanByte p).lruBits (s.scanByte p).scanLruBit).isSome := by
        have hkeep := isSome_tick (s := s) s.scanLruBit
        rw [htick] at hkeep
        exact hkeep.trans hsome
      obtain ⟨k, hloop, hpos, hend⟩ :=
        scanLoop_eq_ticks n (foundId + (p.found s.scanLruBit s.scanIdxOff).length) (s := s.scanByte p)
          (by rw [← hn]; exact Nat.add_right_comm _ _ _) hsome'
      refine ⟨k + 1, ?_, fun _ => Nat.succ_le_succ (Nat.zero_le k), hend⟩
      rw [hloop, Function.iterate_succ_apply, htick]

theorem scan_eq_ticks (h : Inv s) : ∃ k, s.scan = tick^[k + 1] s := by
  unfold scan
  rcases hp : s.lruBits s.scanLruBit with _ | p
  · exact ⟨0, (tick_none hp).symm⟩
  · have hsome : (s.lruBits s.scanLruBit).isSome := by rw [hp]; rfl
    obtain ⟨k, hloop, hpos, hend⟩ := scanLoop_eq_ticks (idxSize - s.scanIdxOff) 0 (Nat.add_sub_cancel' h.off_le) hsome
    generalize scanLoop (idxSize - s.scanIdxOff) 0 s = r at hloop hpos hend
    obtain ⟨s', fin⟩ := r
    dsimp only at hloop hpos hend ⊢
    cases fin with
    | false =>
      obtain ⟨j, rfl⟩ := Nat.exists_eq_add_of_le (hpos rfl)
      exact ⟨j, by rw [hloop, Nat.add_comm]⟩
    | true =>
      obtain ⟨hoff, hsome'⟩ := hend rfl
      obtain ⟨q, hq⟩ := Option.isSome_iff_exists.mp hsome'
      refine ⟨k, ?_⟩
      rw [Function.iterate_succ_apply', ← hloop, tick_next hq (by rw [hoff]; exact Nat.lt_irrefl _)]

/-! ## The way to an id -/

def dist (s : CLruBitObj) (v : UInt32) : Nat :=
  let pos := s.scanLruBit * (idxSize + 1) + s.scanIdxOff
  let place := bblkOff v * (idxSize + 1) + idxByteOff v
  if pos ≤ place then place - pos else 2048 * (idxSize + 1) + place - pos

theorem tick_moves (h : Inv s) (hsome : (s.lruBits s.scanLruBit).isSome) :
    (s.scanIdxOff < idxSize ∧ s.tick.scanLruBit = s.scanLruBit ∧ s.tick.scanIdxOff = s.scanIdxOff + 1) ∨
      (s.scanIdxOff = idxSize ∧ s.tick.scanIdxOff = 0 ∧
        (s.scanLruBit < s.maxLruBit ∧ s.tick.scanLruBit = s.scanLruBit + 1 ∨
          s.scanLruBit = s.maxLruBit ∧ s.tick.scanLruBit = 0)) := by
  obtain ⟨p, hp⟩ := Option.isSome_iff_exists.mp hsome
  by_cases hoff : s.scanIdxOff < idxSize
  · rw [tick_byte hp hoff]
    exact .inl ⟨hoff, rfl, rfl⟩
  · rw [tick_next hp hoff]
    refine .inr ⟨Nat.le_antisymm h.off_le (Nat.not_lt.mp hoff), ?_⟩
    have := h.scan_le
    unfold nextBlock
    split
    · exact ⟨rfl, .inr ⟨by omega, rfl⟩⟩
    · exact ⟨rfl, .inl ⟨by omega, rfl⟩⟩

theorem onWay_scan (h : Inv s) (v : UInt32) : s.OnWay v s.scanLruBit := by
  by_cases hahead : s.Ahead v
  · refine .inl ⟨hahead, Nat.le_refl _, ?_⟩
    rcases hahead with hlt | ⟨heq, -⟩
    · exact Nat.le_of_lt hlt
    · exact Nat.le_of_eq heq
  · exact .inr ⟨hahead, .inl ⟨Nat.le_refl _, h.scan_le⟩⟩

theorem onWay_tick (h : Inv s) (hsome : (s.lruBits s.scanLruBit).isSome) (hv : s.Has v) (hat : ¬ s.AtScan v) (b : Nat) :
    (s.OnWay v b → s.tick.OnWay v b ∨ b = s.scanLruBit) ∧ (s.tick.OnWay v b → s.OnWay v b) := by
  obtain ⟨p, hp, -⟩ := hv
  have hle := h.block_le _ p hp
  have hoff := idxByteOff_lt v
  have hmax : s.tick.maxLruBit = s.maxLruBit := maxLruBit_tick
  have hmoves := tick_moves h hsome
  have hscan := h.scan_le
  unfold AtScan at hat
  unfold OnWay Ahead
  unfold idxSize at hmoves
  rw [hmax]
  omega

theorem dist_tick (h : Inv s) (hsome : (s.lruBits s.scanLruBit).isSome) (hv : s.Has v) (hat : ¬ s.AtScan v) :
    s.tick.dist v < s.dist v := by
  obtain ⟨p, hp, -⟩ := hv
  have hblk := h.block_le _ p hp
  have hoff := idxByteOff_lt v
  have hmoves := tick_moves h hsome
  have hscan := h.scan_le
  have hlt := h.max_lt
  have hle := h.off_le
  unfold AtScan at hat
  unfold dist
  unfold idxSize at hmoves hle ⊢
  dsimp only
  split <;> split <;> omega

theorem unblocked_tick (h : Inv s) (hsome : (s.lruBits s.scanLruBit).isSome) (hv : s.Has v) (hat : ¬ s.AtScan v) :
    s.tick.Unblocked v ↔ s.Unblocked v := by
  unfold Unblocked
  constructor
  · intro hway b hb
    rcases (onWay_tick h hsome hv hat b).1 hb with hb' | rfl
    · rw [← isSome_tick]
      exact hway b hb'
    · exact hsome
  · intro hway b hb
    rw [isSome_tick]
    exact hway b ((onWay_tick h hsome hv hat b).2 hb)

theorem unblocked_of_atScan (hv : s.Has v) (hat : s.AtScan v) : s.Unblocked v := by
  obtain ⟨p, hp, -⟩ := hv
  have hahead : s.Ahead v := .inr ⟨hat.1.symm, Nat.le_of_eq hat.2.symm⟩
  intro b hb
  rcases hb with ⟨-, hlo, hhi⟩ | ⟨hnot, -⟩
  · have hblk : b = bblkOff v := Nat.le_antisymm hhi (hat.1 ▸ hlo)
    rw [hblk, hp]
    rfl
  · exact absurd hahead hnot

/-! ## Many ticks -/

theorem Inv.ticks : ∀ (n : Nat) {s : CLruBitObj}, Inv s → Inv (CLruBitObj.tick^[n] s)
  | 0, _, h => h
  | n + 1, _, h => Inv.ticks n h.tick

theorem ticks_report : ∀ (n : Nat) {s : CLruBitObj}, Inv s →
    ∃ ids, (tick^[n] s).written = s.written ++ ids ∧ ids.Nodup ∧
      (∀ v, v ∈ ids ↔ s.Has v ∧ ¬ (tick^[n] s).Has v) ∧ ∀ v, (tick^[n] s).Has v → s.Has v
  | 0, s, _ => ⟨[], (List.append_nil _).symm, List.nodup_nil,
      fun v => iff_of_false List.not_mem_nil (fun hv => hv.2 hv.1), fun _ hv => hv⟩
  | n + 1, s, h => by
    obtain ⟨ids, hwritten, hnodup, hmem, hhas⟩ := tick_reports h
    obtain ⟨ids', hwritten', hnodup', hmem', hhas'⟩ := ticks_report n h.tick
    rw [Function.iterate_succ_apply]
    refine ⟨ids ++ ids', ?_, ?_, fun v => ?_, fun v hv => ((hhas v).mp (hhas' v hv)).1⟩
    · rw [hwritten', hwritten, List.append_assoc]
    · refine List.nodup_append'.mpr ⟨hnodup, hnodup', fun v hv hv' => ?_⟩
      exact ((hhas v).mp ((hmem' v).mp hv').1).2 ((hmem v).mp hv).2
    · rw [List.mem_append, hmem, hmem', hhas]
      constructor
      · rintro (⟨hv, hat⟩ | ⟨⟨hv, -⟩, hgone⟩)
        · exact ⟨hv, fun hv' => ((hhas v).mp (hhas' v hv')).2 hat⟩
        · exact ⟨hv, hgone⟩
      · rintro ⟨hv, hgone⟩
        by_cases hat : s.AtScan v
        · exact .inl ⟨hv, hat⟩
        · exact .inr ⟨⟨hv, hat⟩, hgone⟩

theorem has_ticks_of_blocked : ∀ (n : Nat) {s : CLruBitObj}, Inv s → s.Has v → ¬ s.Unblocked v → (tick^[n] s).Has v
  | 0, _, _, hv, _ => hv
  | n + 1, s, h, hv, hblocked => by
    rw [Function.iterate_succ_apply]
    rcases hp : s.lruBits s.scanLruBit with _ | p
    · rw [tick_none hp]
      exact has_ticks_of_blocked n h hv hblocked
    · have hsome : (s.lruBits s.scanLruBit).isSome := by rw [hp]; rfl
      have hat : ¬ s.AtScan v := fun hat => hblocked (unblocked_of_atScan hv hat)
      obtain ⟨-, -, -, -, hhas⟩ := tick_reports h
      exact has_ticks_of_blocked n h.tick ((hhas v).mpr ⟨hv, hat⟩)
        (fun hway => hblocked ((unblocked_tick h hsome hv hat).mp hway))

theorem not_has_ticks (n : Nat) (h : Inv s) (hway : s.Unblocked v) (hn : s.dist v < n) : ¬ (tick^[n] s).Has v := by
  induction n generalizing s with
  | zero => exact absurd hn (Nat.not_lt_zero _)
  | succ n ih =>
    rw [Function.iterate_succ_apply]
    obtain ⟨-, -, -, -, hhas⟩ := tick_reports h
    obtain ⟨-, -, -, -, hhas'⟩ := ticks_report n h.tick
    intro hleft
    obtain ⟨hv, hat⟩ := (hhas v).mp (hhas' v hleft)
    have hsome := hway _ (onWay_scan h v)
    have hdist := dist_tick h hsome hv hat
    exact ih h.tick ((unblocked_tick h hsome hv hat).mpr hway) (by omega) hleft

theorem Inv.scan (h : Inv s) : Inv s.scan := by
  obtain ⟨k, hk⟩ := scan_eq_ticks h
  rw [hk]
  exact h.ticks (k + 1)

theorem scans_eq_ticks : ∀ (n : Nat) {s : CLruBitObj}, Inv s → ∃ m, n ≤ m ∧ scan^[n] s = tick^[m] s
  | 0, _, _ => ⟨0, Nat.le_refl 0, rfl⟩
  | n + 1, s, h => by
    obtain ⟨k, hk⟩ := scan_eq_ticks h
    obtain ⟨m, hm, hscans⟩ := scans_eq_ticks n h.scan
    refine ⟨m + (k + 1), by omega, ?_⟩
    rw [Function.iterate_succ_apply, hscans, hk, ← Function.iterate_add_apply]

theorem dist_le (h : Inv s) (hv : s.Has v) : s.dist v ≤ 2048 * (idxSize + 1) := by
  obtain ⟨p, hp, -⟩ := hv
  have hblk := h.block_le _ p hp
  have hoff := idxByteOff_lt v
  have hlt := h.max_lt
  unfold dist idxSize
  dsimp only
  split <;> omega

theorem reportsAll_iff (h : Inv s) : s.ReportsAll {v | s.Has v} ↔ ∀ v, s.Has v → s.Unblocked v := by
  constructor
  · rintro ⟨n, ids, -, -, -, hempty⟩ v hv
    obtain ⟨m, -, hscans⟩ := scans_eq_ticks n h
    by_contra hblocked
    refine hempty v ?_
    rw [hscans]
    exact has_ticks_of_blocked m h hv hblocked
  · intro hways
    obtain ⟨m, hm, hscans⟩ := scans_eq_ticks (2048 * (idxSize + 1) + 1) h
    obtain ⟨ids, hwritten, hnodup, hmem, hhas⟩ := ticks_report m h
    have hgone : ∀ v, ¬ (tick^[m] s).Has v := by
      intro v hleft
      have hv := hhas v hleft
      have hle := dist_le h hv
      exact not_has_ticks m h (hways v hv) (by omega) hleft
    refine ⟨_, ids, by rw [hscans]; exact hwritten, hnodup, fun v => ?_, by rw [hscans]; exact hgone⟩
    rw [hmem]
    exact and_iff_left (hgone v)

/-! ## Calls of both kinds -/

theorem setNodeID_scan (s : CLruBitObj) (c : SetCall) :
    (s.setNodeID c).1.written = s.written ∧ (s.setNodeID c).1.scanLruBit = s.scanLruBit ∧
      (s.setNodeID c).1.scanIdxOff = s.scanIdxOff := by
  unfold setNodeID
  split
  · split <;> exact ⟨rfl, rfl, rfl⟩
  · exact ⟨rfl, rfl, rfl⟩

theorem dist_setNodeID (c : SetCall) : (s.setNodeID c).1.dist v = s.dist v := by
  obtain ⟨-, hblk, hoff⟩ := setNodeID_scan s c
  unfold dist
  rw [hblk, hoff]

theorem Inv.call (h : Inv s) (c : Call) : Inv (s.call c) := by
  cases c with
  | setNodeID c => exact h.setNodeID c
  | scan => exact h.scan

theorem Inv.calls : ∀ (cs : List Call) {s : CLruBitObj}, Inv s → Inv (s.calls cs)
  | [], _, h => h
  | c :: cs, _, h => Inv.calls cs (h.call c)

theorem scan_reports (h : Inv s) :
    ∃ ids, s.scan.written = s.written ++ ids ∧ ∀ v, v ∈ ids ↔ s.Has v ∧ ¬ s.scan.Has v := by
  obtain ⟨k, hk⟩ := scan_eq_ticks h
  obtain ⟨ids, hwritten, -, hmem, -⟩ := ticks_report (k + 1) h
  rw [hk]
  exact ⟨ids, hwritten, hmem⟩

theorem written_calls : ∀ (cs : List Call) {s : CLruBitObj}, Inv s → ∃ ids, (s.calls cs).written = s.written ++ ids
  | [], _, _ => ⟨[], (List.append_nil _).symm⟩
  | .setNodeID c :: cs, s, h => by
    obtain ⟨ids, hwritten⟩ := written_calls cs (h.setNodeID c)
    exact ⟨ids, by rw [← (setNodeID_scan s c).1]; exact hwritten⟩
  | .scan :: cs, s, h => by
    obtain ⟨ids, hwritten, -⟩ := scan_reports h
    obtain ⟨ids', hwritten'⟩ := written_calls cs h.scan
    refine ⟨ids ++ ids', ?_⟩
    rw [← List.append_assoc, ← hwritten]
    exact hwritten'

theorem dist_ticks_le (n : Nat) (h : Inv s) (hleft : (tick^[n] s).Has v) : (tick^[n] s).dist v ≤ s.dist v := by
  induction n generalizing s with
  | zero => exact Nat.le_refl _
  | succ n ih =>
    rw [Function.iterate_succ_apply] at hleft ⊢
    have hle := ih h.tick hleft
    rcases hp : s.lruBits s.scanLruBit with _ | p
    · rwa [tick_none hp] at hle ⊢
    · obtain ⟨-, -, -, -, hhas⟩ := tick_reports h
      obtain ⟨-, -, -, -, hhas'⟩ := ticks_report n h.tick
      obtain ⟨hv, hat⟩ := (hhas v).mp (hhas' v hleft)
      have hdist := dist_tick h (by rw [hp]; rfl) hv hat
      omega

theorem dist_scan (h : Inv s) (hsome : (s.lruBits s.scanLruBit).isSome) (hleft : s.scan.Has v) :
    s.scan.dist v < s.dist v := by
  obtain ⟨k, hk⟩ := scan_eq_ticks h
  rw [hk, Function.iterate_succ_apply] at hleft ⊢
  obtain ⟨-, -, -, -, hhas⟩ := tick_reports h
  obtain ⟨-, -, -, -, hhas'⟩ := ticks_report k h.tick
  obtain ⟨hv, hat⟩ := (hhas v).mp (hhas' v hleft)
  exact Nat.lt_of_le_of_lt (dist_ticks_le k h.tick hleft) (dist_tick h hsome hv hat)

theorem calls_keep (cs : List Call) (h : Inv s) (hv : s.Has v)
    (hkeep : ∀ c, Call.setNodeID c ∈ cs → c.v = v → c.b = true) :
    ∃ ids, (s.calls cs).written = s.written ++ ids ∧ (v ∈ ids ∨ (s.calls cs).Has v) ∧
      (s.ScansFind cs → s.dist v < cs.count .scan → v ∈ ids) := by
  induction cs generalizing s with
  | nil => exact ⟨[], (List.append_nil _).symm, .inr hv, fun _ hlt => absurd hlt (Nat.not_lt_zero _)⟩
  | cons c cs ih =>
    have hkeep' : ∀ c', Call.setNodeID c' ∈ cs → c'.v = v → c'.b = true :=
      fun c' hc' => hkeep c' (List.mem_cons_of_mem _ hc')
    cases c with
    | setNodeID c =>
      have hv' : (s.setNodeID c).1.Has v := by
        rw [has_setNodeID]
        split
        · next heq => exact hkeep c List.mem_cons_self heq.1.symm
        · exact hv
      obtain ⟨ids, hwritten, hor, hfind⟩ := ih (h.setNodeID c) hv' hkeep'
      refine ⟨ids, by rw [← (setNodeID_scan s c).1]; exact hwritten, hor, fun hs hlt => hfind hs ?_⟩
      rw [List.count_cons_of_ne (by simp)] at hlt
      rwa [dist_setNodeID]
    | scan =>
      obtain ⟨ids, hwritten, hmem⟩ := scan_reports h
      by_cases hleft : s.scan.Has v
      · obtain ⟨ids', hwritten', hor, hfind⟩ := ih h.scan hleft hkeep'
        refine ⟨ids ++ ids', ?_, hor.imp_left (List.mem_append_right ids), fun hs hlt => ?_⟩
        · rw [← List.append_assoc, ← hwritten]
          exact hwritten'
        · have hdist := dist_scan h hs.1 hleft
          rw [List.count_cons_self] at hlt
          exact List.mem_append_right ids (hfind hs.2 (by omega))
      · obtain ⟨ids', hwritten'⟩ := written_calls cs h.scan
        have hin : v ∈ ids ++ ids' := List.mem_append_left ids' ((hmem v).mpr ⟨hv, hleft⟩)
        refine ⟨ids ++ ids', ?_, .inl hin, fun _ _ => hin⟩
        rw [← List.append_assoc, ← hwritten]
        exact hwritten'

theorem notLost (h : Inv s) (hv : s.Has v) : s.NotLost v := by
  intro cs hkeep
  obtain ⟨ids, hwritten, hor, hfind⟩ := calls_keep cs h hv hkeep
  have hle := dist_le h hv
  exact ⟨ids, hwritten, hor, fun hs hlt => hfind hs (Nat.lt_of_le_of_lt hle hlt)⟩

end CLruBitObj

open CLruBitObj

/-- **All ids that were set are reported, once each, exactly when the way of the scan to them has no block that was never
allocated**, from every position of the scan; and no id is lost. -/
theorem scan_reports_iff (stopUntil : Nat) (before : List CLruBitObj.Call) (sets : List SetCall) :
    let s := (start stopUntil).calls before
    ((s.setAll sets).ReportsAll (s.left {v | s.Has v} sets) ↔
        ∀ v ∈ s.left {v | s.Has v} sets, (s.setAll sets).Unblocked v) ∧
      ∀ v ∈ s.left {v | s.Has v} sets, (s.setAll sets).NotLost v := by
  intro s
  have hinv : Inv (s.setAll sets) := ((inv_start stopUntil).calls before).setAll sets
  have hleft : ∀ v, (s.setAll sets).Has v ↔ v ∈ s.left {v | s.Has v} sets := has_setAll sets (fun _ => Iff.rfl)
  have hset : s.left {v | s.Has v} sets = {v | (s.setAll sets).Has v} := Set.ext fun v => (hleft v).symm
  constructor
  · rw [hset]
    exact reportsAll_iff hinv
  · intro v hv
    exact notLost hinv ((hleft v).mpr hv)

/-- One id in the second block: the first block is never allocated, and no scan goes on from it. -/
theorem scan_secondBlock :
    ¬ ((start 20).setAll [{ v := 2097152, b := true }]).ReportsAll ((start 20).left ∅ [{ v := 2097152, b := true }]) := by
  have hinv : Inv ((start 20).setAll [{ v := 2097152, b := true }]) := (inv_start 20).setAll _
  have hset : (start 20).left ∅ [{ v := 2097152, b := true }] =
      {v | ((start 20).setAll [{ v := 2097152, b := true }]).Has v} :=
    Set.ext fun v => (has_setAll _ (fun w => iff_of_false (by rintro ⟨p, hp, -⟩; cases hp) (Set.notMem_empty w)) v).symm
  have hmem : (2097152 : UInt32) ∈ (start 20).left ∅ [{ v := 2097152, b := true }] := .inl rfl
  rw [hset] at hmem ⊢
  intro hall
  have hway := (reportsAll_iff hinv).mp hall 2097152 hmem 0 (.inl ⟨.inl (by decide), Nat.le_refl 0, Nat.zero_le _⟩)
  exact absurd hway (by decide)

end Dtc
