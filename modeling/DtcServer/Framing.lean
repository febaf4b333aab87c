import Mathlib.Data.List.Basic
/-!
# Framing — a stream of packets whose headers say how long they are

The complete packets of a stream are a function of its bytes, so it does not matter in which pieces the bytes arrive.
-/

/-- A format of packets: a header of fixed size, from which the length of the whole packet is read, unless it is turned
down. -/
structure PacketFormat (β : Type) where
  header : Nat
  len : List β → Option Nat
  pos : 0 < header
  header_le : ∀ h n, len h = some n → header ≤ n

namespace PacketFormat

variable {β : Type} (F : PacketFormat β)

/-- The first packet, when it is complete, and what comes behind it. -/
def next (s : List β) : Option (List β × List β) :=
  if s.length < F.header then none
  else
    match F.len (s.take F.header) with
    | none => none
    | some n => if s.length < n then none else some (s.take n, s.drop n)

def framesIn : Nat → List β → List (List β) × List β
  | 0, s => ([], s)
  | fuel + 1, s =>
    match F.next s with
    | none => ([], s)
    | some (p, r) => (p :: (framesIn fuel r).1, (framesIn fuel r).2)

/-- The complete packets of a stream, and what comes behind them: a part of a packet, or what is turned down. -/
def frames (s : List β) : List (List β) × List β := F.framesIn s.length s

def IsFrame (p : List β) : Prop := F.header ≤ p.length ∧ F.len (p.take F.header) = some p.length

instance [DecidableEq β] (p : List β) : Decidable (F.IsFrame p) := by unfold IsFrame; infer_instance

variable {F}

theorem IsFrame.ne_nil {p : List β} (h : F.IsFrame p) : 0 < p.length := Nat.lt_of_lt_of_le F.pos h.1

theorem next_append {p : List β} (h : F.IsFrame p) (r : List β) : F.next (p ++ r) = some (p, r) := by
  obtain ⟨hle, hlen⟩ := h
  unfold next
  rw [List.length_append, if_neg (by omega), List.take_append_of_le_length hle, hlen]
  dsimp only
  rw [if_neg (by omega), List.take_left, List.drop_left]

theorem next_some {s p r : List β} (h : F.next s = some (p, r)) : s = p ++ r ∧ F.IsFrame p := by
  unfold next at h
  split at h
  · cases h
  · next hheader =>
    split at h
    · cases h
    · next n hlen =>
      split at h
      · cases h
      · next hn =>
        obtain ⟨rfl, rfl⟩ := Prod.mk.inj (Option.some.inj h)
        have hle := F.header_le _ _ hlen
        have hlength : (s.take n).length = n := by rw [List.length_take]; omega
        refine ⟨(List.take_append_drop n s).symm, by omega, ?_⟩
        rw [List.take_take, Nat.min_eq_left hle, hlen, hlength]

theorem length_le_flatten {ps : List (List β)} (h : ∀ p ∈ ps, F.IsFrame p) : ps.length ≤ ps.flatten.length := by
  induction ps with
  | nil => exact Nat.le_refl _
  | cons p ps ih =>
    obtain ⟨hp, hps⟩ := List.forall_mem_cons.mp h
    have hpos := hp.ne_nil
    have ih := ih hps
    rw [List.flatten_cons, List.length_append, List.length_cons]
    omega

theorem framesIn_flatten {r : List β} (hr : F.next r = none) : ∀ (ps : List (List β)) (fuel : Nat), ps.length ≤ fuel →
    (∀ p ∈ ps, F.IsFrame p) → F.framesIn fuel (ps.flatten ++ r) = (ps, r)
  | [], 0, _, _ => rfl
  | [], fuel + 1, _, _ => by rw [List.flatten_nil, List.nil_append, framesIn, hr]
  | p :: ps, 0, h, _ => absurd h (Nat.not_succ_le_zero _)
  | p :: ps, fuel + 1, h, hps => by
    obtain ⟨hp, hps⟩ := List.forall_mem_cons.mp hps
    rw [List.flatten_cons, List.append_assoc, framesIn, next_append hp]
    dsimp only
    rw [framesIn_flatten hr ps fuel (Nat.le_of_succ_le_succ h) hps]

theorem frames_flatten {ps : List (List β)} {r : List β} (hps : ∀ p ∈ ps, F.IsFrame p) (hr : F.next r = none) :
    F.frames (ps.flatten ++ r) = (ps, r) := by
  refine framesIn_flatten hr ps _ ?_ hps
  rw [List.length_append]
  exact Nat.le_trans (length_le_flatten hps) (Nat.le_add_right _ _)

theorem framesIn_spec : ∀ (fuel : Nat) (s : List β), s.length ≤ fuel →
    (F.framesIn fuel s).1.flatten ++ (F.framesIn fuel s).2 = s ∧ (∀ p ∈ (F.framesIn fuel s).1, F.IsFrame p) ∧
      F.next (F.framesIn fuel s).2 = none
  | 0, s, h => by
    obtain rfl := List.length_eq_zero_iff.mp (Nat.le_zero.mp h)
    exact ⟨rfl, fun _ hp => absurd hp List.not_mem_nil, if_pos F.pos⟩
  | fuel + 1, s, h => by
    rw [framesIn]
    cases hn : F.next s with
    | none => exact ⟨rfl, fun _ hp => absurd hp List.not_mem_nil, hn⟩
    | some x =>
      obtain ⟨p, r⟩ := x
      obtain ⟨rfl, hp⟩ := next_some hn
      have hpos := hp.ne_nil
      rw [List.length_append] at h
      obtain ⟨hbytes, hframes, hrest⟩ := framesIn_spec fuel r (by omega)
      refine ⟨?_, List.forall_mem_cons.mpr ⟨hp, hframes⟩, hrest⟩
      dsimp only
      rw [List.flatten_cons, List.append_assoc, hbytes]

theorem frames_spec (s : List β) : (F.frames s).1.flatten ++ (F.frames s).2 = s ∧ (∀ p ∈ (F.frames s).1, F.IsFrame p) ∧
    F.next (F.frames s).2 = none :=
  framesIn_spec _ s (Nat.le_refl _)

theorem frames_append (s t : List β) :
    F.frames (s ++ t) = ((F.frames s).1 ++ (F.frames ((F.frames s).2 ++ t)).1, (F.frames ((F.frames s).2 ++ t)).2) := by
  obtain ⟨hs, hframes, -⟩ := F.frames_spec s
  obtain ⟨ht, hframes', hnone⟩ := F.frames_spec ((F.frames s).2 ++ t)
  have hall : ∀ p ∈ (F.frames s).1 ++ (F.frames ((F.frames s).2 ++ t)).1, F.IsFrame p := by
    intro p hp
    rcases List.mem_append.mp hp with hp | hp
    · exact hframes p hp
    · exact hframes' p hp
  have h := frames_flatten hall hnone
  rw [List.flatten_append, List.append_assoc, ht, ← List.append_assoc, hs] at h
  exact h

theorem len_of_prefix {r t : List β} {ps : List (List β)} (h : r ++ t = ps.flatten) (hps : ∀ p ∈ ps, F.IsFrame p)
    (hle : F.header ≤ r.length) : ∃ n, F.len (r.take F.header) = some n := by
  cases ps with
  | nil =>
    have hlen := congrArg List.length h
    have hpos := F.pos
    rw [List.length_append, List.flatten_nil, List.length_nil] at hlen
    omega
  | cons p ps =>
    obtain ⟨hheader, hlen⟩ := hps p List.mem_cons_self
    have htake : r.take F.header = p.take F.header := by
      rw [← @List.take_append_of_le_length _ _ t _ hle, h, List.flatten_cons, List.take_append_of_le_length hheader]
    exact ⟨_, htake ▸ hlen⟩

theorem rest_flatten {s t : List β} {ps : List (List β)} (h : s ++ t = ps.flatten) (hps : ∀ p ∈ ps, F.IsFrame p) :
    ∃ qs : List (List β), (F.frames s).2 ++ t = qs.flatten ∧ ∀ p ∈ qs, F.IsFrame p := by
  have hall : F.frames (s ++ t) = (ps, []) := by
    have hf := frames_flatten hps (r := []) (if_pos F.pos)
    rwa [List.append_nil, ← h] at hf
  obtain ⟨hbytes, hframes, -⟩ := F.frames_spec ((F.frames s).2 ++ t)
  rw [frames_append] at hall
  have hnil := (Prod.mk.inj hall).2
  rw [hnil, List.append_nil] at hbytes
  exact ⟨_, hbytes.symm, hframes⟩

end PacketFormat
