import Mathlib.Data.List.Forall2
/-!
# Vectors — a queue of byte vectors that is sent in pieces

A partial send ends anywhere in the queue: it finishes vectors and cuts the first of the others.  What is left of the queue
is what was there without the bytes that were sent.
-/
namespace Vectors

variable {β : Type}

/-- How many vectors the next `n` bytes finish, and the vectors that are left, the first of them cut. -/
def advance : Nat → List (List β) → Nat × List (List β)
  | n, v :: vs => if v.length ≤ n then ((advance (n - v.length) vs).1 + 1, (advance (n - v.length) vs).2) else (0, v.drop n :: vs)
  | _, [] => (0, [])

theorem advance_flatten : ∀ (vs : List (List β)) (n : Nat), (advance n vs).2.flatten = vs.flatten.drop n
  | [], n => List.drop_nil.symm
  | v :: vs, n => by
    rw [advance, List.flatten_cons]
    split
    · next hle => rw [advance_flatten vs, List.drop_append, List.drop_eq_nil_of_le hle, List.nil_append]
    · next hlt => rw [List.flatten_cons, List.drop_append_of_le_length (by omega)]

theorem advance_length : ∀ (vs : List (List β)) (n : Nat), (advance n vs).1 + (advance n vs).2.length = vs.length
  | [], _ => rfl
  | v :: vs, n => by
    rw [advance]
    split
    · have ih := advance_length vs (n - v.length)
      rw [List.length_cons]
      dsimp only
      omega
    · rw [List.length_cons, List.length_cons]
      omega

theorem advance_shorter : ∀ (vs : List (List β)) (n : Nat),
    List.Forall₂ (fun v w => v.length ≤ w.length) (advance n vs).2 (vs.drop (advance n vs).1)
  | [], _ => List.Forall₂.nil
  | v :: vs, n => by
    rw [advance]
    split
    · exact advance_shorter vs (n - v.length)
    · refine List.Forall₂.cons ?_ (List.forall₂_same.mpr fun _ _ => Nat.le_refl _)
      rw [List.length_drop]
      exact Nat.sub_le _ _

theorem advance_flatten_take (vs : List (List β)) (n : Nat) :
    vs.flatten.take n ++ (advance n vs).2.flatten = vs.flatten := by
  rw [advance_flatten, List.take_append_drop]

theorem shorter_trans {α : Type} {f : α → List β} : ∀ {us vs : List (List β)} {ws : List α},
    List.Forall₂ (fun u v => u.length ≤ v.length) us vs → List.Forall₂ (fun v w => v.length ≤ (f w).length) vs ws →
    List.Forall₂ (fun u w => u.length ≤ (f w).length) us ws
  | [], [], [], _, _ => List.Forall₂.nil
  | u :: us, v :: vs, w :: ws, h, h' => by
    obtain ⟨huv, h⟩ := List.forall₂_cons.mp h
    obtain ⟨hvw, h'⟩ := List.forall₂_cons.mp h'
    exact List.Forall₂.cons (Nat.le_trans huv hvw) (shorter_trans h h')

theorem flatten_length_le {α : Type} {f : α → List β} : ∀ {vs : List (List β)} {ws : List α},
    List.Forall₂ (fun v w => v.length ≤ (f w).length) vs ws → vs.flatten.length ≤ ((ws.map f).flatten).length
  | [], [], _ => Nat.le_refl _
  | v :: vs, w :: ws, h => by
    obtain ⟨hv, hvs⟩ := List.forall₂_cons.mp h
    have ih := flatten_length_le hvs
    rw [List.map_cons, List.flatten_cons, List.flatten_cons, List.length_append, List.length_append]
    omega

end Vectors
