import Mathlib.Data.List.Basic
/-!
# Segments — frames read from one segment after another

A reader stands in a segment and has further ones behind it.  It takes elements of one segment: where too few are left they
are dropped and the reader goes on to the next segment, and in the last one it stays.  A frame is a head of fixed length,
which says how long the body is, and the body.
-/
namespace Segments

variable {α : Type}

/-- What is in front of a reader: the rest of its segment, and the later segments. -/
structure View (α : Type) where
  rest : List α
  later : List (List α)

/-- `n` elements of one segment. -/
def takeFrom (n : Nat) : List α → List (List α) → Option (List α) × View α
  | rest, later =>
    if n ≤ rest.length then (some (rest.take n), ⟨rest.drop n, later⟩)
    else
      match later with
      | [] => (none, ⟨rest, []⟩)
      | s :: later => takeFrom n s later

def take (n : Nat) (v : View α) : Option (List α) × View α := takeFrom n v.rest v.later

theorem take_of_le {n : Nat} {v : View α} (h : n ≤ v.rest.length) :
    take n v = (some (v.rest.take n), ⟨v.rest.drop n, v.later⟩) := by
  unfold take takeFrom
  rw [if_pos h]

theorem take_append {n : Nat} {front back : List α} {later : List (List α)} (h : front.length = n) :
    take n ⟨front ++ back, later⟩ = (some front, ⟨back, later⟩) := by
  rw [take_of_le (by rw [List.length_append, h]; exact Nat.le_add_right _ _), List.take_left' h, List.drop_left' h]

theorem take_last {n : Nat} {rest : List α} (h : rest.length < n) : take n ⟨rest, []⟩ = (none, ⟨rest, []⟩) := by
  unfold take takeFrom
  rw [if_neg (Nat.not_le_of_lt h)]

theorem take_next {n : Nat} {rest s : List α} {later : List (List α)} (h : rest.length < n) :
    take n ⟨rest, s :: later⟩ = take n ⟨s, later⟩ := by
  unfold take
  rw [takeFrom, if_neg (Nat.not_le_of_lt h)]

theorem take_none {n : Nat} : ∀ {rest : List α} {later : List (List α)}, rest.length < n → (∀ s ∈ later, s.length < n) →
    take n ⟨rest, later⟩ = (none, ⟨(rest :: later).getLast (List.cons_ne_nil _ _), []⟩)
  | rest, [], h, _ => take_last h
  | rest, s :: later, h, hl => by
    rw [take_next h, take_none (hl s List.mem_cons_self) (fun x hx => hl x (List.mem_cons_of_mem _ hx))]
    rfl

theorem take_first {n : Nat} : ∀ {rest : List α} {later : List (List α)}, rest.length < n → (∃ s ∈ later, n ≤ s.length) →
    ∃ s ∈ later, ∃ v, n ≤ s.length ∧ take n ⟨rest, later⟩ = (some (s.take n), v)
  | _, [], _, h => by
    obtain ⟨s, hs, -⟩ := h
    cases hs
  | rest, s :: later, h, hl => by
    rw [take_next h]
    by_cases hs : n ≤ s.length
    · exact ⟨s, List.mem_cons_self, _, hs, take_of_le hs⟩
    · have hl' : ∃ x ∈ later, n ≤ x.length := by
        obtain ⟨x, hx, hle⟩ := hl
        rcases List.mem_cons.mp hx with rfl | hx
        · exact absurd hle hs
        · exact ⟨x, hx, hle⟩
      obtain ⟨x, hx, v, hle, e⟩ := take_first (Nat.lt_of_not_le hs) hl'
      exact ⟨x, List.mem_cons_of_mem _ hx, v, hle, e⟩

/-! ## Frames -/

section

variable (k : Nat) (len : List α → Option Nat)

/-- A head and the body it tells the length of; the head of an impossible length is not put back. -/
def frame (v : View α) : Option (List α) × View α :=
  match take k v with
  | (none, v) => (none, v)
  | (some head, v) =>
    match len head with
    | none => (none, v)
    | some n =>
      match take n v with
      | (none, v) => (none, v)
      | (some body, v) => (some (head ++ body), v)

def IsFrame (r : List α) : Prop := ∃ head body, r = head ++ body ∧ head.length = k ∧ len head = some body.length

/-- **The view consists of the frames `rs`**, none of them cut by the end of a segment. -/
def Aligned (v : View α) (rs : List (List α)) : Prop :=
  ∃ (now : List (List α)) (next : List (List (List α))), v.rest = now.flatten ∧
    v.later = next.map List.flatten ∧ now ++ next.flatten = rs

variable {k len}

theorem frame_append {r back : List α} {later : List (List α)} (hr : IsFrame k len r) :
    frame k len ⟨r ++ back, later⟩ = (some r, ⟨back, later⟩) := by
  obtain ⟨head, body, rfl, hk, hlen⟩ := hr
  unfold frame
  rw [List.append_assoc, take_append hk]
  dsimp only
  rw [hlen]
  dsimp only
  rw [take_append rfl]

theorem frame_next {rest s : List α} {later : List (List α)} (h : rest.length < k) :
    frame k len ⟨rest, s :: later⟩ = frame k len ⟨s, later⟩ := by
  unfold frame
  rw [take_next h]

theorem frame_congr {v w : View α} (h : take k v = take k w) : frame k len v = frame k len w := by
  unfold frame
  rw [h]

theorem frame_aligned (hk : 0 < k) {r : List α} {rs : List (List α)} (hr : IsFrame k len r) :
    ∀ {next : List (List (List α))} {now : List (List α)}, now ++ next.flatten = r :: rs →
      ∃ v, frame k len ⟨now.flatten, next.map List.flatten⟩ = (some r, v) ∧ Aligned v rs
  | next, x :: now, he => by
    obtain ⟨rfl, hrs⟩ := List.cons.inj he
    rw [List.flatten_cons, frame_append hr]
    exact ⟨_, rfl, now, next, rfl, rfl, hrs⟩
  | [], [], he => by cases he
  | s :: next, [], he => by
    rw [List.flatten_nil, List.map_cons, frame_next hk]
    exact frame_aligned hk hr (by rw [List.nil_append, List.flatten_cons] at he; exact he)

theorem take_aligned_nil (hk : 0 < k) : ∀ {next : List (List (List α))}, next.flatten = [] →
    take k ⟨[], next.map List.flatten⟩ = (none, ⟨[], []⟩)
  | [], _ => take_last hk
  | s :: next, he => by
    rw [List.flatten_cons, List.append_eq_nil_iff] at he
    rw [List.map_cons, take_next hk, he.1, List.flatten_nil]
    exact take_aligned_nil hk he.2

theorem frame_of_take_none {v v' : View α} (h : take k v = (none, v')) : frame k len v = (none, v') := by
  unfold frame
  rw [h]

/-! ### A segment grows -/

theorem Aligned.append_rest {rest e : List α} {rs : List (List α)} (h : Aligned ⟨rest, []⟩ rs) :
    Aligned ⟨rest ++ e, []⟩ (rs ++ [e]) := by
  obtain ⟨now, next, hrest, hlater, he⟩ := h
  obtain rfl := List.map_eq_nil_iff.mp hlater.symm
  rw [List.flatten_nil, List.append_nil] at he
  subst he
  refine ⟨now ++ [e], [], ?_, rfl, by rw [List.flatten_nil, List.append_nil]⟩
  dsimp only at hrest ⊢
  rw [hrest, List.flatten_concat]

theorem Aligned.append_last {rest c e : List α} {later rs : List (List α)} (h : Aligned ⟨rest, later ++ [c]⟩ rs) :
    Aligned ⟨rest, later ++ [c ++ e]⟩ (rs ++ [e]) := by
  obtain ⟨now, next, hrest, hlater, he⟩ := h
  obtain ⟨front, back, rfl, hfront, hback⟩ := List.map_eq_append_iff.mp hlater.symm
  obtain ⟨last, rfl, rfl⟩ := List.map_eq_singleton_iff.mp hback
  refine ⟨now, front ++ [last ++ [e]], hrest, ?_, ?_⟩
  · rw [List.map_append, hfront, List.map_singleton, List.flatten_concat]
  · rw [← he, List.flatten_concat, List.flatten_concat, List.append_assoc, List.append_assoc]

theorem Aligned.append_empty {rest : List α} {later rs : List (List α)} (h : Aligned ⟨rest, later⟩ rs) :
    Aligned ⟨rest, later ++ [[]]⟩ rs := by
  obtain ⟨now, next, hrest, hlater, he⟩ := h
  refine ⟨now, next ++ [[]], hrest, ?_, ?_⟩
  · dsimp only at hlater ⊢
    rw [List.map_append, hlater]
    rfl
  · rw [List.flatten_concat, List.append_nil, he]

/-! ### A tail that is cut off -/

/-- **The frames `rs` are in front of a tail that is cut off**, with other segments behind it. -/
def AlignedTo (v : View α) (rs : List (List α)) (torn : List α) (post : List (List α)) : Prop :=
  ∃ (pre : List (List (List α))) (now : List (List α)),
    v.rest :: v.later = pre.map List.flatten ++ (now.flatten ++ torn) :: post ∧ pre.flatten ++ now = rs

variable {torn : List α} {post : List (List α)}

theorem take_alignedTo_nil (hk : 0 < k) : ∀ {pre : List (List (List α))} {v : View α}, pre.flatten = [] →
    v.rest :: v.later = pre.map List.flatten ++ torn :: post → take k v = take k ⟨torn, post⟩
  | [], ⟨rest, later⟩, _, hv => by
    obtain ⟨rfl, rfl⟩ := List.cons.inj hv
    rfl
  | s :: pre, ⟨rest, later⟩, hpre, hv => by
    rw [List.flatten_cons, List.append_eq_nil_iff] at hpre
    obtain ⟨rfl, hpre⟩ := hpre
    obtain ⟨rfl, hlater⟩ := List.cons.inj hv
    dsimp only at hlater
    cases later with
    | nil =>
      cases pre with
      | nil => cases hlater
      | cons s' pre => cases hlater
    | cons x later =>
      rw [List.flatten_nil, take_next hk]
      exact take_alignedTo_nil hk (v := ⟨x, later⟩) hpre hlater

theorem AlignedTo.take_nil (hk : 0 < k) {v : View α} (h : AlignedTo v [] torn post) : take k v = take k ⟨torn, post⟩ := by
  obtain ⟨pre, now, hv, he⟩ := h
  obtain ⟨hpre, rfl⟩ := List.append_eq_nil_iff.mp he
  exact take_alignedTo_nil hk hpre hv

theorem frame_alignedTo (hk : 0 < k) {r : List α} {rs : List (List α)} (hr : IsFrame k len r) :
    ∀ {pre : List (List (List α))} {now : List (List α)} {v : View α}, pre.flatten ++ now = r :: rs →
      v.rest :: v.later = pre.map List.flatten ++ (now.flatten ++ torn) :: post →
      ∃ v', frame k len v = (some r, v') ∧ AlignedTo v' rs torn post
  | [], now, ⟨rest, later⟩, he, hv => by
    obtain rfl : now = r :: rs := he
    obtain ⟨rfl, rfl⟩ := List.cons.inj hv
    rw [List.flatten_cons, List.append_assoc, frame_append hr]
    exact ⟨_, rfl, [], rs, rfl, rfl⟩
  | (x :: s) :: pre, now, ⟨rest, later⟩, he, hv => by
    obtain ⟨rfl, hrs⟩ := List.cons.inj he
    obtain ⟨rfl, hlater⟩ := List.cons.inj hv
    dsimp only at hlater
    rw [List.flatten_cons, frame_append hr]
    refine ⟨_, rfl, s :: pre, now, ?_, hrs⟩
    rw [hlater]
    rfl
  | [] :: pre, now, ⟨rest, later⟩, he, hv => by
    obtain ⟨rfl, hlater⟩ := List.cons.inj hv
    dsimp only at hlater
    cases later with
    | nil =>
      cases pre with
      | nil => cases hlater
      | cons s' pre => cases hlater
    | cons x later =>
      rw [List.flatten_nil, frame_next hk]
      exact frame_alignedTo hk hr (v := ⟨x, later⟩) (show pre.flatten ++ now = r :: rs from he) hlater

end

end Segments
