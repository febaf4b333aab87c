import Mathlib.Logic.Basic
/-!
# Lives — one automaton for each of many things

A history is a list of acts, each on one thing.  The acts on a thing are its life when an automaton accepts them.
-/
namespace Lives

variable {ι A L : Type} [DecidableEq ι] (next : L → A → Option L) (start : L)

/-- Where the life of `i` is after a history, the last act first; `none` when the acts on `i` are none of a life. -/
def life : List (ι × A) → ι → Option L
  | [], _ => some start
  | (j, a) :: h, i => if j = i then (life h i).bind (fun l => next l a) else life h i

theorem life_self (h : List (ι × A)) (i : ι) (a : A) :
    life next start ((i, a) :: h) i = (life next start h i).bind (fun l => next l a) := if_pos rfl

theorem life_ne (h : List (ι × A)) {i j : ι} (hij : i ≠ j) (a : A) :
    life next start ((j, a) :: h) i = life next start h i := if_neg (Ne.symm hij)

end Lives
