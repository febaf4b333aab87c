import Mathlib.Data.List.Nodup
import Mathlib.Data.Fintype.BigOperators
import Mathlib.Algebra.BigOperators.Group.Finset.Basic
/-!
# Chains — singly linked chains over one store of next pointers

A chain is a head and the pointers that follow it to an end (`Linked`).  Many chains share one store; an update of a
pointer touches the chain its node is in and leaves the others (`linked_update`).  Chains of a finite table are counted
by `sum_change`.
-/
namespace Chains

variable {ι : Type}

/-- The pointers from `hd` on pass the nodes of the list and end. -/
def Linked (next : ι → Option ι) : Option ι → List ι → Prop
  | hd, [] => hd = none
  | hd, x :: xs => hd = some x ∧ Linked next (next x) xs

variable {next : ι → Option ι}

theorem linked_head : ∀ {xs : List ι} {hd : Option ι}, Linked next hd xs → hd = xs.head?
  | [], _, h => h
  | _ :: _, _, h => h.1

theorem linked_suffix : ∀ {front back : List ι} {hd : Option ι}, Linked next hd (front ++ back) →
    Linked next back.head? back
  | [], back, _, h => by
    have hhd := linked_head h
    rw [List.nil_append] at h hhd
    rwa [hhd] at h
  | y :: front, back, _, h => by
    have hrest : Linked next (next y) (front ++ back) := h.2
    exact linked_suffix hrest

/-- The nodes the pointers pass, at most `n` of them. -/
def follow (next : ι → Option ι) : Nat → Option ι → List ι
  | n + 1, some x => x :: follow next n (next x)
  | _, _ => []

theorem follow_eq : ∀ {xs : List ι} {hd : Option ι} {n : Nat}, Linked next hd xs → xs.length ≤ n → follow next n hd = xs
  | [], _, n, h, _ => by
    rw [show _ = none from h]
    cases n <;> rfl
  | x :: xs, _, 0, _, hn => absurd hn (Nat.not_succ_le_zero _)
  | x :: xs, _, n + 1, h, hn => by
    rw [h.1, follow, follow_eq h.2 (Nat.le_of_succ_le_succ hn)]

variable [DecidableEq ι]

theorem linked_update {x : ι} {v : Option ι} : ∀ {xs : List ι} {hd : Option ι}, x ∉ xs → Linked next hd xs →
    Linked (Function.update next x v) hd xs
  | [], _, _, h => h
  | y :: ys, _, hx, h => by
    rw [List.mem_cons, not_or] at hx
    refine ⟨h.1, ?_⟩
    rw [Function.update_of_ne (Ne.symm hx.1)]
    exact linked_update hx.2 h.2

theorem linked_push {x : ι} {xs : List ι} {hd : Option ι} (hx : x ∉ xs) (h : Linked next hd xs) :
    Linked (Function.update next x hd) (some x) (x :: xs) := by
  refine ⟨rfl, ?_⟩
  rw [Function.update_self]
  exact linked_update hx h

theorem linked_unlink {p x : ι} {back : List ι} : ∀ {front : List ι} {hd : Option ι},
    (front ++ p :: x :: back).Nodup → Linked next hd (front ++ p :: x :: back) →
    Linked (Function.update next p (next x)) hd (front ++ p :: back)
  | [], hd, hnd, h => by
    refine ⟨h.1, ?_⟩
    rw [Function.update_self]
    rw [List.nil_append, List.nodup_cons, List.nodup_cons] at hnd
    exact linked_update (fun hp => hnd.1 (List.mem_cons_of_mem _ hp)) h.2.2
  | y :: front, hd, hnd, h => by
    rw [List.cons_append, List.nodup_cons] at hnd
    have hne : y ≠ p := fun he => hnd.1 (by simp [he])
    refine ⟨h.1, ?_⟩
    rw [Function.update_of_ne hne]
    exact linked_unlink hnd.2 h.2

/-- The search for the predecessor of `x`, from a node on; `none` says that the bound was too small. -/
def searchPrev (next : ι → Option ι) (x : ι) : Nat → ι → Option (Option ι)
  | 0, _ => none
  | n + 1, prev =>
    match next prev with
    | none => some none
    | some y => if y = x then some (some prev) else searchPrev next x n y

theorem searchPrev_spec {x : ι} : ∀ {xs : List ι} {prev : ι} {n : Nat}, Linked next (next prev) xs → xs.length < n →
    (searchPrev next x n prev = some none ∧ x ∉ xs) ∨
      ∃ p front back, searchPrev next x n prev = some (some p) ∧ prev :: xs = front ++ p :: x :: back
  | _, _, 0, _, hn => absurd hn (Nat.not_lt_zero _)
  | [], prev, n + 1, h, _ => by
    refine .inl ⟨?_, List.not_mem_nil⟩
    rw [searchPrev, show next prev = none from h]
  | y :: ys, prev, n + 1, h, hn => by
    rw [searchPrev, h.1]
    by_cases hy : y = x
    · subst hy
      exact .inr ⟨prev, [], ys, by simp, rfl⟩
    · simp only [if_neg hy]
      rcases searchPrev_spec h.2 (Nat.lt_of_succ_lt_succ hn) with ⟨h1, h2⟩ | ⟨p, front, back, h1, h2⟩
      · exact .inl ⟨h1, fun hm => (List.mem_cons.mp hm).elim (fun he => hy he.symm) h2⟩
      · exact .inr ⟨p, prev :: front, back, h1, by rw [h2, List.cons_append]⟩

theorem sum_change {n : Nat} {f g : Fin n → Int} (s : Fin n) (h : ∀ t, t ≠ s → g t = f t) :
    ∑ t, g t = ∑ t, f t + (g s - f s) := by
  have hf : ∑ t, f t = f s + ∑ t ∈ Finset.univ.erase s, f t := (Finset.add_sum_erase _ _ (Finset.mem_univ s)).symm
  have hg : ∑ t, g t = g s + ∑ t ∈ Finset.univ.erase s, g t := (Finset.add_sum_erase _ _ (Finset.mem_univ s)).symm
  have hrest : ∑ t ∈ Finset.univ.erase s, g t = ∑ t ∈ Finset.univ.erase s, f t :=
    Finset.sum_congr rfl (fun t ht => h t (Finset.ne_of_mem_erase ht))
  omega

end Chains
