import Mathlib.Logic.ExistsUnique
import Mathlib.Tactic.ByContra
/-!
# Places — things that are in one place at a time

A system moves things between places: queues, owners, lists of finished things.  `at_ x p` says that the thing `x` is in the
place `p`.  A step takes one thing from its place and puts it into another; every thing stays in
exactly one place.
-/
namespace Places

variable {α P : Type} {at_ at' : α → P → Prop}

def Once (at_ : α → P → Prop) : Prop := ∀ x, ∃! p, at_ x p

theorem Once.eq (h : Once at_) {x : α} {p q : P} (hp : at_ x p) (hq : at_ x q) : p = q := (h x).unique hp hq

theorem once_of_fun (f : α → P) (h : ∀ x p, at_ x p ↔ f x = p) : Once at_ :=
  fun x => ⟨f x, (h x _).mpr rfl, fun _ hp => ((h x _).mp hp).symm⟩

/-- Every thing but `x` is in exactly one place, and `x` is in none. -/
def But (at_ : α → P → Prop) (x : α) : Prop := (∀ p, ¬ at_ x p) ∧ ∀ y, y ≠ x → ∃! p, at_ y p

theorem Once.take (h : Once at_) {x : α} {p : P} (hp : at_ x p) (hgone : ¬ at' x p)
    (hself : ∀ r, r ≠ p → at' x r → at_ x r) (hother : ∀ y r, y ≠ x → (at' y r ↔ at_ y r)) : But at' x := by
  refine ⟨fun r hr => ?_, fun y hy => ?_⟩
  · by_cases hrp : r = p
    · rw [hrp] at hr
      exact hgone hr
    · exact hrp (h.eq (hself r hrp hr) hp)
  · obtain ⟨r, hr, hu⟩ := h y
    exact ⟨r, (hother y r hy).mpr hr, fun r' hr' => hu r' ((hother y r' hy).mp hr')⟩

theorem But.put {x : α} (h : But at_ x) {q : P} (hq : at' x q) (hself : ∀ r, r ≠ q → at' x r → at_ x r)
    (hother : ∀ y r, y ≠ x → (at' y r ↔ at_ y r)) : Once at' := by
  intro y
  by_cases hy : y = x
  · subst hy
    refine ⟨q, hq, fun r hr => ?_⟩
    by_contra hne
    exact h.1 r (hself r hne hr)
  · obtain ⟨r, hr, hu⟩ := h.2 y hy
    exact ⟨r, (hother y r hy).mpr hr, fun r' hr' => hu r' ((hother y r' hy).mp hr')⟩

end Places
