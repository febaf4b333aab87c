import Mathlib.Data.List.Chain
import Mathlib.Data.List.Nodup
import Mathlib.Logic.Function.Basic
/-!
# Rings — circular doubly linked lists

A ring is a root and its members: the `next` pointers lead from the root through the members back to the root, the `prev`
pointers the other way.  Taking a member out and putting one in behind the root are two pointer updates each.
-/
namespace Rings

variable {ι : Type}

/-- `y` comes right after `x`. -/
def Linked (next prev : ι → ι) (x y : ι) : Prop := next x = y ∧ prev y = x

/-- The members of the ring of `root`, in the order of `next`. -/
def Ring (next prev : ι → ι) (root : ι) (xs : List ι) : Prop :=
  List.IsChain (Linked next prev) (root :: (xs ++ [root]))

variable {next prev next' prev' : ι → ι} {root : ι} {xs : List ι}

theorem Ring.congr (h : Ring next prev root xs) (hr : next' root = next root ∧ prev' root = prev root)
    (hx : ∀ x ∈ xs, next' x = next x ∧ prev' x = prev x) : Ring next' prev' root xs := by
  have hall : ∀ x ∈ root :: (xs ++ [root]), next' x = next x ∧ prev' x = prev x := by
    intro x hm
    rcases List.mem_cons.mp hm with rfl | hm
    · exact hr
    · rcases List.mem_append.mp hm with hm | hm
      · exact hx x hm
      · rw [List.mem_singleton.mp hm]
        exact hr
  refine List.IsChain.imp_of_mem_imp (fun x y hmx hmy hl => ?_) h
  exact ⟨(hall x hmx).1.trans hl.1, (hall y hmy).2.trans hl.2⟩

theorem Ring.around {l r : List ι} {x : ι} (h : Ring next prev root (l ++ x :: r)) :
    ∃ front u v back, root :: l = front ++ [u] ∧ r ++ [root] = v :: back ∧
      List.IsChain (Linked next prev) (front ++ [u]) ∧ Linked next prev u x ∧ Linked next prev x v ∧
      List.IsChain (Linked next prev) (v :: back) := by
  obtain ⟨front, u, hu⟩ : ∃ front u, root :: l = front ++ [u] :=
    (List.eq_nil_or_concat' (root :: l)).resolve_left (List.cons_ne_nil root l)
  obtain ⟨v, back, hv⟩ : ∃ v back, r ++ [root] = v :: back := List.exists_cons_of_ne_nil (by simp)
  have hchain : List.IsChain (Linked next prev) (front ++ u :: x :: v :: back) := by
    have heq : front ++ u :: x :: v :: back = root :: (l ++ x :: r ++ [root]) := by
      rw [List.append_cons, ← hu, ← hv]
      simp
    rw [heq]
    exact h
  obtain ⟨h1, hux, h2⟩ := List.isChain_append_cons_cons.mp hchain
  obtain ⟨hxv, h3⟩ := List.isChain_cons_cons.mp h2
  exact ⟨front, u, v, back, hu, hv, h1, hux, hxv, h3⟩

theorem Ring.neighbours {x : ι} (h : Ring next prev root xs) (hnd : (root :: xs).Nodup) (hx : x ∈ xs) :
    prev x ∈ root :: xs ∧ next x ∈ root :: xs ∧ prev x ≠ x ∧ next x ≠ x := by
  obtain ⟨l, r, rfl⟩ := List.append_of_mem hx
  obtain ⟨front, u, v, back, hu, hv, -, hux, hxv, -⟩ := h.around
  have humem : u ∈ root :: l := by simp [hu]
  have hvmem : v ∈ r ++ [root] := by simp [hv]
  rw [hux.2, hxv.1]
  refine ⟨?_, ?_, ?_, ?_⟩
  · rcases List.mem_cons.mp humem with rfl | hm
    · exact List.mem_cons_self
    · exact List.mem_cons_of_mem _ (List.mem_append_left _ hm)
  · rcases List.mem_append.mp hvmem with hm | hm
    · exact List.mem_cons_of_mem _ (List.mem_append_right _ (List.mem_cons_of_mem x hm))
    · rw [List.mem_singleton.mp hm]
      exact List.mem_cons_self
  · rintro rfl
    rw [← List.cons_append] at hnd
    exact (List.nodup_append.mp hnd).2.2 u humem u List.mem_cons_self rfl
  · rintro rfl
    rw [List.nodup_cons] at hnd
    rcases List.mem_append.mp hvmem with hm | hm
    · exact (List.nodup_cons.mp (List.nodup_append.mp hnd.2).2.1).1 hm
    · exact hnd.1 (by rw [← List.mem_singleton.mp hm]; simp)

theorem Ring.next_root (h : Ring next prev root xs) : next root = xs.headD root := by
  cases xs with
  | nil => exact (List.isChain_cons_cons.mp h).1.1
  | cons x xs => exact (List.isChain_cons_cons.mp h).1.1

theorem Ring.prev_root (h : Ring next prev root xs) : prev root = xs.getLastD root := by
  rcases List.eq_nil_or_concat' xs with rfl | ⟨l, x, rfl⟩
  · exact (List.isChain_cons_cons.mp h).1.2
  · obtain ⟨front, u, v, back, -, hv, -, -, hxv, -⟩ := h.around
    obtain ⟨rfl, -⟩ := List.cons.inj hv
    rw [List.getLastD_concat]
    exact hxv.2

/-- The nodes from `x` on, up to the root, at most `n`. -/
def walk [DecidableEq ι] (next : ι → ι) (root : ι) : Nat → ι → List ι
  | 0, _ => []
  | n + 1, x => if x = root then [] else x :: walk next root n (next x)

theorem walk_chain [DecidableEq ι] : ∀ (n : Nat) {ys : List ι} {x : ι},
    List.IsChain (Linked next prev) (x :: (ys ++ [root])) → (∀ y ∈ ys, y ≠ root ∧ next' y = next y) →
    walk next' root n (next x) = ys.take n
  | 0, _, _, _, _ => rfl
  | n + 1, [], x, h, _ => by
    rw [(List.isChain_cons_cons.mp h).1.1, walk, if_pos rfl, List.take_nil]
  | n + 1, y :: ys, x, h, hy => by
    obtain ⟨hxy, hrest⟩ := List.isChain_cons_cons.mp h
    obtain ⟨hne, hnext⟩ := hy y List.mem_cons_self
    rw [hxy.1, walk, if_neg hne, hnext, walk_chain n hrest (fun z hz => hy z (List.mem_cons_of_mem _ hz)), List.take_succ_cons]

theorem chain_congr : ∀ {l : List ι} {a : ι}, List.IsChain (Linked next prev) (a :: l) →
    (∀ x ∈ (a :: l).dropLast, next' x = next x) → (∀ y ∈ l, prev' y = prev y) → List.IsChain (Linked next' prev') (a :: l)
  | [], a, _, _, _ => List.isChain_singleton a
  | b :: l, a, h, hn, hp => by
    obtain ⟨hab, hl⟩ := List.isChain_cons_cons.mp h
    refine List.isChain_cons_cons.mpr ⟨⟨?_, ?_⟩, chain_congr hl (fun x hx => ?_) (fun y hy => ?_)⟩
    · rw [hn a List.mem_cons_self]
      exact hab.1
    · rw [hp b List.mem_cons_self]
      exact hab.2
    · exact hn x (List.mem_cons_of_mem a hx)
    · exact hp y (List.mem_cons_of_mem b hy)

variable [DecidableEq ι]

theorem Ring.unlink {l r : List ι} {x : ι} (h : Ring next prev root (l ++ x :: r)) (hnd : (root :: (l ++ x :: r)).Nodup) :
    Ring (Function.update next (prev x) (next x)) (Function.update prev (next x) (prev x)) root (l ++ r) := by
  obtain ⟨front, u, v, back, hu, hv, h1, hux, hxv, h3⟩ := h.around
  rw [hux.2, hxv.1]
  have hmem : u ∈ root :: l := by simp [hu]
  have hvmem : v ∈ r ++ [root] := by simp [hv]
  have hndl : (root :: l).Nodup := by
    rw [← List.cons_append] at hnd
    exact (List.nodup_append.mp hnd).1
  have hndr : (r ++ [root]).Nodup := by
    have hsub : (root :: r).Nodup := hnd.sublist (by simp)
    rw [List.nodup_append_comm]
    simpa using hsub
  have hlr : ∀ y ∈ l, y ∉ r ++ [root] := by
    intro y hy hyr
    rw [List.nodup_cons] at hnd
    rcases List.mem_append.mp hyr with hyr | hyr
    · exact (List.nodup_append.mp hnd.2).2.2 y hy y (List.mem_cons_of_mem x hyr) rfl
    · exact hnd.1 (by rw [← List.mem_singleton.mp hyr]; simp [hy])
  have hgoal : root :: (l ++ r ++ [root]) = front ++ u :: v :: back := by
    rw [List.append_cons front u, ← hu, ← hv]
    simp
  unfold Ring
  rw [hgoal, List.isChain_append_cons_cons]
  refine ⟨?_, ⟨Function.update_self .., Function.update_self ..⟩, ?_⟩
  · rw [← hu] at h1 ⊢
    refine chain_congr h1 (fun y hy => ?_) (fun y hy => ?_)
    · have hne : y ≠ u := by
        rintro rfl
        rw [hu, List.dropLast_concat] at hy
        rw [hu] at hndl
        exact (List.nodup_append.mp hndl).2.2 y hy y List.mem_cons_self rfl
      rw [Function.update_of_ne hne]
    · have hne : y ≠ v := fun he => hlr y hy (he ▸ hvmem)
      rw [Function.update_of_ne hne]
  · refine chain_congr h3 (fun y hy => ?_) (fun y hy => ?_)
    · rw [← hv, List.dropLast_concat] at hy
      have hne : y ≠ u := by
        rintro rfl
        rcases List.mem_cons.mp hmem with rfl | hm
        · exact (List.nodup_append.mp hndr).2.2 y hy y List.mem_cons_self rfl
        · exact hlr y hm (List.mem_append_left _ hy)
      rw [Function.update_of_ne hne]
    · rw [hv, List.nodup_cons] at hndr
      have hne : y ≠ v := fun he => hndr.1 (he ▸ hy)
      rw [Function.update_of_ne hne]

theorem Ring.link {x : ι} (h : Ring next prev root xs) (hnd : (root :: xs).Nodup) (hx : x ∉ root :: xs) :
    Ring (Function.update (Function.update next x (next root)) root x)
      (Function.update (Function.update prev x root) (next root) x) root (x :: xs) := by
  obtain ⟨v, back, hv⟩ : ∃ v back, xs ++ [root] = v :: back := List.exists_cons_of_ne_nil (by simp)
  unfold Ring at h ⊢
  rw [List.cons_append]
  rw [hv] at h ⊢
  obtain ⟨hrv, hback⟩ := List.isChain_cons_cons.mp h
  rw [hrv.1]
  rw [List.mem_cons, not_or] at hx
  have hxv : x ≠ v := by
    rintro rfl
    have hm : x ∈ xs ++ [root] := by simp [hv]
    rcases List.mem_append.mp hm with hm | hm
    · exact hx.2 hm
    · exact hx.1 (List.mem_singleton.mp hm)
  have hndr : (v :: back).Nodup := by
    rw [← hv, List.nodup_append_comm]
    simpa using hnd
  refine List.isChain_cons_cons.mpr ⟨⟨Function.update_self .., ?_⟩, List.isChain_cons_cons.mpr ⟨⟨?_, ?_⟩, ?_⟩⟩
  · rw [Function.update_of_ne hxv, Function.update_self]
  · rw [Function.update_of_ne hx.1, Function.update_self]
  · rw [Function.update_self]
  · refine chain_congr hback (fun y hy => ?_) (fun y hy => ?_)
    · rw [← hv, List.dropLast_concat] at hy
      have hyr : y ≠ root := fun he => (List.nodup_cons.mp hnd).1 (he ▸ hy)
      have hyx : y ≠ x := fun he => hx.2 (he ▸ hy)
      rw [Function.update_of_ne hyr, Function.update_of_ne hyx]
    · have hyv : y ≠ v := fun he => (List.nodup_cons.mp hndr).1 (he ▸ hy)
      have hyx : y ≠ x := by
        rintro rfl
        have hm : y ∈ xs ++ [root] := by rw [hv]; exact List.mem_cons_of_mem v hy
        rcases List.mem_append.mp hm with hm | hm
        · exact hx.2 hm
        · exact hx.1 (List.mem_singleton.mp hm)
      rw [Function.update_of_ne hyv, Function.update_of_ne hyx]

/-! ## Several rings -/

variable {ρ : Type} {roots : ρ → ι} {members : ρ → List ι}

/-- Rings of several roots over the same pointers, with nothing in common. -/
structure Family (next prev : ι → ι) (roots : ρ → ι) (members : ρ → List ι) : Prop where
  ring : ∀ r, Ring next prev (roots r) (members r)
  nodup : ∀ r, (roots r :: members r).Nodup
  disjoint : ∀ r r' x, x ∈ roots r :: members r → x ∈ roots r' :: members r' → r = r'

namespace Family

def Has (roots : ρ → ι) (members : ρ → List ι) (x : ι) : Prop := ∃ r, x ∈ roots r :: members r

omit [DecidableEq ι] in
theorem congr (h : Family next prev roots members)
    (heq : ∀ x, Has roots members x → next' x = next x ∧ prev' x = prev x) : Family next' prev' roots members :=
  ⟨fun r => (h.ring r).congr (heq _ ⟨r, List.mem_cons_self⟩) (fun _ hx => heq _ ⟨r, List.mem_cons_of_mem _ hx⟩), h.nodup,
    h.disjoint⟩

variable [DecidableEq ρ]

theorem unlink (h : Family next prev roots members) {r : ρ} {x : ι} (hx : x ∈ members r) (a b : ι) :
    Family (Function.update (Function.update next (prev x) (next x)) x a)
      (Function.update (Function.update prev (next x) (prev x)) x b) roots
      (Function.update members r ((members r).erase x)) := by
  obtain ⟨hprev, hnext, -, -⟩ := (h.ring r).neighbours (h.nodup r) hx
  have hmem : x ∈ roots r :: members r := List.mem_cons_of_mem _ hx
  have hsub : ∀ r', (roots r' :: Function.update members r ((members r).erase x) r').Sublist (roots r' :: members r') := by
    intro r'
    by_cases hr : r' = r
    · subst hr
      rw [Function.update_self]
      exact List.erase_sublist.cons_cons _
    · rw [Function.update_of_ne hr]
  refine ⟨fun r' => ?_, fun r' => (h.nodup r').sublist (hsub r'), fun r₁ r₂ y h₁ h₂ => ?_⟩
  · by_cases hr : r' = r
    · subst hr
      rw [Function.update_self]
      have hnd := h.nodup r'
      have hring := h.ring r'
      obtain ⟨hroot, hndm⟩ := List.nodup_cons.mp hnd
      have hout : ∀ y ∈ roots r' :: (members r').erase x, y ≠ x := by
        rintro y hy rfl
        rcases List.mem_cons.mp hy with rfl | hy
        · exact hroot hx
        · exact hndm.not_mem_erase hy
      obtain ⟨l, r, hlr⟩ := List.append_of_mem hx
      have herase : (members r').erase x = l ++ r := by
        rw [hlr] at hndm ⊢
        have hl : x ∉ l := fun hl => (List.nodup_append.mp hndm).2.2 x hl x List.mem_cons_self rfl
        rw [List.erase_append_right _ hl, List.erase_cons_head]
      rw [hlr] at hring hnd
      rw [herase] at hout ⊢
      refine (hring.unlink hnd).congr ?_ (fun y hy => ?_)
      · rw [Function.update_of_ne (hout _ List.mem_cons_self), Function.update_of_ne (hout _ List.mem_cons_self)]
        exact ⟨rfl, rfl⟩
      · rw [Function.update_of_ne (hout y (List.mem_cons_of_mem _ hy)),
          Function.update_of_ne (hout y (List.mem_cons_of_mem _ hy))]
        exact ⟨rfl, rfl⟩
    · rw [Function.update_of_ne hr]
      have hout : ∀ y ∈ roots r' :: members r', y ≠ x ∧ y ≠ prev x ∧ y ≠ next x := by
        intro y hy
        refine ⟨?_, ?_, ?_⟩
        · rintro rfl
          exact hr (h.disjoint r' r y hy hmem)
        · rintro rfl
          exact hr (h.disjoint r' r _ hy hprev)
        · rintro rfl
          exact hr (h.disjoint r' r _ hy hnext)
      have heq : ∀ y ∈ roots r' :: members r',
          Function.update (Function.update next (prev x) (next x)) x a y = next y ∧
            Function.update (Function.update prev (next x) (prev x)) x b y = prev y := by
        intro y hy
        obtain ⟨h₁, h₂, h₃⟩ := hout y hy
        rw [Function.update_of_ne h₁, Function.update_of_ne h₂, Function.update_of_ne h₁, Function.update_of_ne h₃]
        exact ⟨rfl, rfl⟩
      exact (h.ring r').congr (heq _ List.mem_cons_self) (fun y hy => heq y (List.mem_cons_of_mem _ hy))
  · exact h.disjoint r₁ r₂ y ((hsub r₁).subset h₁) ((hsub r₂).subset h₂)

theorem link (h : Family next prev roots members) (r : ρ) {x : ι} (hx : ¬ Has roots members x) :
    Family (Function.update (Function.update next x (next (roots r))) (roots r) x)
      (Function.update (Function.update prev (next (roots r)) x) x (roots r)) roots
      (Function.update members r (x :: members r)) := by
  have hout : ∀ r', x ∉ roots r' :: members r' := fun r' hm => hx ⟨r', hm⟩
  have hnext : next (roots r) ∈ roots r :: members r := by
    rw [(h.ring r).next_root]
    cases members r with
    | nil => exact List.mem_cons_self
    | cons y ys => exact List.mem_cons_of_mem _ List.mem_cons_self
  have hne : next (roots r) ≠ x := fun he => hout r (he ▸ hnext)
  rw [Function.update_comm hne]
  have hcases : ∀ r' y, y ∈ roots r' :: Function.update members r (x :: members r) r' →
      r' = r ∧ y = x ∨ y ∈ roots r' :: members r' := by
    intro r' y hy
    by_cases hr : r' = r
    · subst hr
      rw [Function.update_self] at hy
      rcases List.mem_cons.mp hy with rfl | hy
      · exact .inr List.mem_cons_self
      · rcases List.mem_cons.mp hy with rfl | hy
        · exact .inl ⟨rfl, rfl⟩
        · exact .inr (List.mem_cons_of_mem _ hy)
    · rw [Function.update_of_ne hr] at hy
      exact .inr hy
  refine ⟨fun r' => ?_, fun r' => ?_, fun r₁ r₂ y h₁ h₂ => ?_⟩
  · by_cases hr : r' = r
    · subst hr
      rw [Function.update_self]
      exact (h.ring r').link (h.nodup r') (hout r')
    · rw [Function.update_of_ne hr]
      have heq : ∀ y ∈ roots r' :: members r',
          Function.update (Function.update next x (next (roots r))) (roots r) x y = next y ∧
            Function.update (Function.update prev x (roots r)) (next (roots r)) x y = prev y := by
        intro y hy
        have h₁ : y ≠ x := fun he => hout r' (he ▸ hy)
        have h₂ : y ≠ roots r := fun he => hr (h.disjoint r' r y hy (he ▸ List.mem_cons_self))
        have h₃ : y ≠ next (roots r) := fun he => hr (h.disjoint r' r y hy (he ▸ hnext))
        rw [Function.update_of_ne h₂, Function.update_of_ne h₁, Function.update_of_ne h₃, Function.update_of_ne h₁]
        exact ⟨rfl, rfl⟩
      exact (h.ring r').congr (heq _ List.mem_cons_self) (fun y hy => heq y (List.mem_cons_of_mem _ hy))
  · by_cases hr : r' = r
    · subst hr
      rw [Function.update_self]
      have hperm : (roots r' :: x :: members r').Perm (x :: roots r' :: members r') := List.Perm.swap _ _ _
      exact hperm.nodup_iff.mpr (List.nodup_cons.mpr ⟨hout r', h.nodup r'⟩)
    · rw [Function.update_of_ne hr]
      exact h.nodup r'
  · rcases hcases r₁ y h₁ with ⟨rfl, rfl⟩ | hy₁
    · rcases hcases r₂ y h₂ with ⟨rfl, -⟩ | hy₂
      · rfl
      · exact absurd hy₂ (hout r₂)
    · rcases hcases r₂ y h₂ with ⟨-, rfl⟩ | hy₂
      · exact absurd hy₁ (hout r₁)
      · exact h.disjoint r₁ r₂ y hy₁ hy₂

end Family

end Rings
