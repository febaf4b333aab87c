import Mathlib.Data.Set.Card
import Mathlib.Tactic.Ring
/-!
# Tally — how a count changes with one of the things that are counted

A counter that a program keeps by hand is compared with the number of things it stands for.  When one thing changes, the
number changes by what the thing counted for before and after.  The things are those of a set, each counted once, or
those of a list, each with a weight.
-/
namespace Tally

variable {α : Type}

open Classical in
/-- What a thing counts for. -/
noncomputable def unit (A : Set α) (a : α) : Int := if a ∈ A then 1 else 0

theorem unit_of_mem {A : Set α} {a : α} (h : a ∈ A) : unit A a = 1 := if_pos h

theorem unit_of_notMem {A : Set α} {a : α} (h : a ∉ A) : unit A a = 0 := if_neg h

theorem ncard_eq_others {A : Set α} (hA : A.Finite) (a : α) : (A.ncard : Int) = (A \ {a}).ncard + unit A a := by
  by_cases h : a ∈ A
  · rw [unit_of_mem h, ← Set.ncard_sdiff_singleton_add_one h hA]
    push_cast
    rfl
  · rw [unit_of_notMem h, Set.sdiff_singleton_eq_self h, add_zero]

theorem ncard_change {A B : Set α} {a : α} (hA : A.Finite) (h : ∀ b, b ≠ a → (b ∈ B ↔ b ∈ A)) :
    (B.ncard : Int) = A.ncard - unit A a + unit B a := by
  have hsame : B \ {a} = A \ {a} := by
    ext b
    rw [Set.mem_sdiff, Set.mem_sdiff, Set.mem_singleton_iff]
    constructor
    · rintro ⟨hb, hne⟩
      exact ⟨(h b hne).mp hb, hne⟩
    · rintro ⟨hb, hne⟩
      exact ⟨(h b hne).mpr hb, hne⟩
  have hB : B.Finite := by
    refine (hA.insert a).subset (fun b hb => ?_)
    by_cases hba : b = a
    · exact Set.mem_insert_iff.mpr (.inl hba)
    · exact Set.mem_insert_of_mem a ((h b hba).mp hb)
  rw [ncard_eq_others hA a, ncard_eq_others hB a, hsame]
  ring

def total (w : α → Nat) (l : List α) : Nat := (l.map w).sum

variable {w : α → Nat}

@[simp] theorem total_nil : total w [] = 0 := rfl

@[simp] theorem total_cons (a : α) (l : List α) : total w (a :: l) = w a + total w l := rfl

@[simp] theorem total_append (l l' : List α) : total w (l ++ l') = total w l + total w l' := by
  unfold total
  rw [List.map_append, List.sum_append]

theorem total_perm {l l' : List α} (h : l.Perm l') : total w l = total w l' := (h.map w).sum_eq

theorem total_eq_zero {l : List α} : total w l = 0 ↔ ∀ a ∈ l, w a = 0 := by
  induction l with
  | nil => simp
  | cons a l ih => rw [total_cons, Nat.add_eq_zero_iff, ih, List.forall_mem_cons]

theorem total_sublist {l l' : List α} : l.Sublist l' → total w l ≤ total w l'
  | .slnil => Nat.le_refl _
  | .cons a h => Nat.le_trans (total_sublist h) (Nat.le_add_left _ _)
  | .cons_cons a h => Nat.add_le_add_left (total_sublist h) _

theorem total_eraseIdx : ∀ {l : List α} {i : Nat} {a : α}, l[i]? = some a → total w l = w a + total w (l.eraseIdx i)
  | b :: l, 0, a, h => by
    obtain rfl : b = a := Option.some.inj h
    rfl
  | b :: l, i + 1, a, h => by
    rw [List.eraseIdx_cons_succ, total_cons, total_cons, total_eraseIdx (l := l) h]
    omega

theorem total_set : ∀ {l : List α} {i : Nat} {a : α} (b : α), l[i]? = some a → total w (l.set i b) + w a = total w l + w b
  | c :: l, 0, a, b, h => by
    obtain rfl : c = a := Option.some.inj h
    rw [List.set_cons_zero, total_cons, total_cons]
    omega
  | c :: l, i + 1, a, b, h => by
    rw [List.set_cons_succ, total_cons, total_cons]
    have := total_set (l := l) b h
    omega

end Tally
