import Mathlib.Data.List.Perm.Basic
/-!
# HashRing — consistent hashing on an ordered map

A ring is an ordered map from points to nodes.  A key goes to the node of the next point, and behind the last one to the
first.  Where two nodes want the same point the smaller one has it, so the ring does not depend on the order in which
the points are placed.
-/
namespace HashRing

open Std

variable {κ ν μ : Type} [LT κ] [DecidableLT κ]

/-- The entry of a point, in a map whose entries are in the order of their points. -/
def find (k : κ) : List (κ × ν) → Option ν
  | [] => none
  | x :: r => if x.1 < k then find k r else if k < x.1 then none else some x.2

def insert (k : κ) (v : ν) : List (κ × ν) → List (κ × ν)
  | [] => [(k, v)]
  | x :: r => if x.1 < k then x :: insert k v r else if k < x.1 then (k, v) :: x :: r else (k, v) :: r

def erase (k : κ) : List (κ × ν) → List (κ × ν)
  | [] => []
  | x :: r => if x.1 < k then x :: erase k r else if k < x.1 then x :: r else r

def upperBound (k : κ) (r : List (κ × ν)) : Option (κ × ν) := r.find? (fun x => decide (k < x.1))

/-- The node of a key: that of the next point, around the ring. -/
def select (k : κ) (r : List (κ × ν)) : Option ν := ((upperBound k r).or r.head?).map Prod.snd

def place [LT ν] [DecidableLT ν] (r : List (κ × ν)) (x : κ × ν) : List (κ × ν) :=
  match find x.1 r with
  | some n => if n < x.2 then r else insert x.1 x.2 r
  | none => insert x.1 x.2 r

def Sorted (r : List (κ × ν)) : Prop := r.Pairwise (fun x y => x.1 < y.1)

/-- The smaller of the node that has a point and the one that wants it. -/
def least [LT ν] [DecidableLT ν] (o : Option ν) (n : ν) : Option ν :=
  match o with
  | some m => if m < n then some m else some n
  | none => some n

theorem find_cons (k : κ) (x : κ × ν) (r : List (κ × ν)) :
    find k (x :: r) = if x.1 < k then find k r else if k < x.1 then none else some x.2 := rfl

theorem mem_insert {k : κ} {v : ν} {y : κ × ν} : ∀ {r : List (κ × ν)}, y ∈ insert k v r → y = (k, v) ∨ y ∈ r
  | [], h => .inl (List.mem_singleton.mp h)
  | x :: r, h => by
    rw [insert] at h
    split at h
    · rcases List.mem_cons.mp h with rfl | h
      · exact .inr List.mem_cons_self
      · exact (mem_insert h).imp_right (List.mem_cons_of_mem x)
    · split at h
      · exact List.mem_cons.mp h
      · exact (List.mem_cons.mp h).imp_right (List.mem_cons_of_mem x)

theorem erase_of_none {k : κ} : ∀ {r : List (κ × ν)}, find k r = none → erase k r = r
  | [], _ => rfl
  | x :: r, h => by
    rw [find] at h
    rw [erase]
    split
    · rename_i hlt
      rw [if_pos hlt] at h
      rw [erase_of_none h]
    · rename_i hge
      rw [if_neg hge] at h
      split
      · rfl
      · rename_i hle
        rw [if_neg hle] at h
        cases h

theorem insert_perm (k : κ) (v : ν) : ∀ r : List (κ × ν), (insert k v r).Perm ((k, v) :: erase k r)
  | [] => List.Perm.refl _
  | x :: r => by
    rw [insert, erase]
    split
    · exact ((insert_perm k v r).cons x).trans (List.Perm.swap _ _ _)
    · split <;> exact List.Perm.refl _

theorem erase_sublist (k : κ) : ∀ r : List (κ × ν), (erase k r).Sublist r
  | [] => List.Sublist.refl _
  | x :: r => by
    rw [erase]
    split
    · exact (erase_sublist k r).cons_cons x
    · split
      · exact List.Sublist.refl _
      · exact List.sublist_cons_self x r

theorem sorted_erase (k : κ) {r : List (κ × ν)} (h : Sorted r) : Sorted (erase k r) := h.sublist (erase_sublist k r)

theorem insert_ne_nil (k : κ) (v : ν) (r : List (κ × ν)) : insert k v r ≠ [] := by
  cases r with
  | nil => exact List.cons_ne_nil _ _
  | cons x r =>
    rw [insert]
    split
    · exact List.cons_ne_nil _ _
    · split
      · exact List.cons_ne_nil _ _
      · exact List.cons_ne_nil _ _

theorem place_ne_nil [LT ν] [DecidableLT ν] (r : List (κ × ν)) (x : κ × ν) : place r x ≠ [] := by
  unfold place
  split
  · rename_i n hn
    split
    · rintro rfl
      cases hn
    · exact insert_ne_nil _ _ _
  · exact insert_ne_nil _ _ _

theorem foldl_place_ne_nil [LT ν] [DecidableLT ν] : ∀ (l : List (κ × ν)) {r : List (κ × ν)}, r ≠ [] → l.foldl place r ≠ []
  | [], _, h => h
  | x :: l, r, _ => foldl_place_ne_nil l (place_ne_nil r x)

theorem select_isSome (k : κ) {r : List (κ × ν)} (hr : r ≠ []) : ∃ n, select k r = some n := by
  unfold select
  cases upperBound k r with
  | some x => exact ⟨x.2, rfl⟩
  | none =>
    cases r with
    | nil => exact absurd rfl hr
    | cons x r => exact ⟨x.2, rfl⟩

theorem mem_of_select {k : κ} {r : List (κ × ν)} {v : ν} (h : select k r = some v) : ∃ x ∈ r, x.2 = v := by
  unfold select at h
  obtain ⟨x, hx, rfl⟩ := Option.map_eq_some_iff.mp h
  refine ⟨x, ?_, rfl⟩
  rcases Option.or_eq_some_iff.mp hx with hx | ⟨-, hx⟩
  · exact List.mem_of_find?_eq_some hx
  · exact List.mem_of_mem_head? hx

theorem least_some [LT ν] [DecidableLT ν] (m n : ν) : least (some m) n = if m < n then some m else some n := rfl

theorem upperBound_cons (k : κ) (x : κ × ν) (r : List (κ × ν)) :
    upperBound k (x :: r) = if k < x.1 then some x else upperBound k r := by
  unfold upperBound
  rw [List.find?_cons]
  by_cases h : k < x.1
  · rw [decide_eq_true h, if_pos h]
  · rw [decide_eq_false h, if_neg h]

theorem head?_insert (p : κ) (v : ν) (r : List (κ × ν)) :
    (insert p v r).head? = some (p, v) ∨ (insert p v r).head? = r.head? := by
  cases r with
  | nil => exact .inl rfl
  | cons x r =>
    rw [insert]
    split
    · exact .inr rfl
    · split
      · exact .inl rfl
      · exact .inl rfl

section Values

variable (f : μ → ν)

theorem find_map (k : κ) : ∀ r : List (κ × μ), find k (r.map (Prod.map id f)) = (find k r).map f
  | [] => rfl
  | x :: r => by
    rw [List.map_cons, find, find, Prod.map_fst, id, find_map k r]
    split
    · rfl
    · split <;> rfl

theorem insert_map (k : κ) (v : μ) : ∀ r : List (κ × μ),
    insert k (f v) (r.map (Prod.map id f)) = (insert k v r).map (Prod.map id f)
  | [] => rfl
  | x :: r => by
    rw [List.map_cons, insert, insert, Prod.map_fst, id, insert_map k v r]
    split
    · rfl
    · split <;> rfl

theorem select_map (k : κ) (r : List (κ × μ)) : select k (r.map (Prod.map id f)) = (select k r).map f := by
  have hub : upperBound k (r.map (Prod.map id f)) = (upperBound k r).map (Prod.map id f) := by
    unfold upperBound
    rw [List.find?_map]
    rfl
  unfold select
  rw [hub, List.head?_map]
  cases upperBound k r with
  | some x => rfl
  | none =>
    cases r with
    | nil => rfl
    | cons x r => rfl

end Values

section Order

variable [LE κ] [IsLinearOrder κ] [LawfulOrderLT κ]


omit [Std.IsLinearOrder κ] in
theorem find_of_mem {x : κ × ν} : ∀ {r : List (κ × ν)}, Sorted r → x ∈ r → find x.1 r = some x.2
  | y :: r, h, hx => by
    obtain ⟨hy, hr⟩ := List.pairwise_cons.mp h
    rw [find]
    rcases List.mem_cons.mp hx with rfl | hx
    · rw [if_neg Std.lt_irrefl, if_neg Std.lt_irrefl]
    · rw [if_pos (hy x hx), find_of_mem hr hx]

theorem find_eq_none_of_lt {k : κ} : ∀ {r : List (κ × ν)}, (∀ x ∈ r, k < x.1) → find k r = none
  | [], _ => rfl
  | x :: r, h => by
    have hx := h x List.mem_cons_self
    rw [find, if_pos hx]
    split
    · rename_i hlt
      exact absurd hx (Std.not_lt.mpr (Std.le_of_lt hlt))
    · rfl

theorem perm_of_find {k : κ} {v : ν} : ∀ {r : List (κ × ν)}, find k r = some v → r.Perm ((k, v) :: erase k r)
  | [], h => by cases h
  | x :: r, h => by
    rw [find] at h
    rw [erase]
    split
    · rename_i hlt
      rw [if_pos hlt] at h
      exact ((perm_of_find h).cons x).trans (List.Perm.swap _ _ _)
    · rename_i hge
      rw [if_neg hge] at h
      split
      · rename_i hlt
        rw [if_pos hlt] at h
        cases h
      · rename_i hle
        rw [if_neg hle] at h
        have hx : x = (k, v) := Prod.ext (Std.le_antisymm (Std.not_lt.mp hle) (Std.not_lt.mp hge)) (Option.some.inj h)
        rw [hx]

omit [Std.IsLinearOrder κ] in
theorem insert_middle {k : κ} (v w : ν) {r₂ : List (κ × ν)} : ∀ {r₁ : List (κ × ν)}, Sorted (r₁ ++ (k, v) :: r₂) →
    insert k w (r₁ ++ (k, v) :: r₂) = r₁ ++ (k, w) :: r₂
  | [], _ => by
    rw [List.nil_append, insert]
    dsimp only
    rw [if_neg Std.lt_irrefl, if_neg Std.lt_irrefl, List.nil_append]
  | x :: r₁, h => by
    obtain ⟨hx, hr⟩ := List.pairwise_cons.mp h
    have hlt : x.1 < k := hx (k, v) (List.mem_append_right _ List.mem_cons_self)
    rw [List.cons_append, insert, if_pos hlt, insert_middle v w hr, List.cons_append]

theorem map_insert {k : κ} {v w : ν} {f : κ × ν → μ} (hf : f (k, v) = f (k, w)) {r : List (κ × ν)} (hs : Sorted r)
    (h : find k r = some v) : (insert k w r).map f = r.map f := by
  obtain ⟨r₁, r₂, rfl⟩ := List.append_of_mem ((perm_of_find h).mem_iff.mpr List.mem_cons_self)
  rw [insert_middle v w hs, List.map_append, List.map_append, List.map_cons, List.map_cons, hf]

theorem find_erase (k j : κ) [Decidable (j = k)] : ∀ {r : List (κ × ν)}, Sorted r →
    find j (erase k r) = if j = k then none else find j r
  | [], _ => by
    rw [erase, find]
    split <;> rfl
  | x :: r, h => by
    obtain ⟨hx, hr⟩ := List.pairwise_cons.mp h
    rw [erase]
    split
    · rename_i hlt
      rw [find_cons, find_erase k j hr, find_cons]
      by_cases hj : j = k
      · rw [if_pos hj, if_pos (hj ▸ hlt), if_pos hj]
      · rw [if_neg hj, if_neg hj]
    · rename_i hge
      split
      · rename_i hlt
        by_cases hj : j = k
        · rw [if_pos hj, hj, find_cons, if_neg hge, if_pos hlt]
        · rw [if_neg hj]
      · rename_i hle
        have hk : x.1 = k := Std.le_antisymm (Std.not_lt.mp hle) (Std.not_lt.mp hge)
        by_cases hj : j = k
        · rw [if_pos hj, hj, find_eq_none_of_lt (fun y hy => hk ▸ hx y hy)]
        · rw [if_neg hj, find_cons]
          by_cases hlt : x.1 < j
          · rw [if_pos hlt]
          · have hjk : j < x.1 := by
              refine Std.not_le.mp (fun hle' => hj ?_)
              exact (Std.le_antisymm hle' (Std.not_lt.mp hlt)).symm.trans hk
            rw [if_neg hlt, if_pos hjk, find_eq_none_of_lt (fun y hy => Std.lt_trans hjk (hx y hy))]

theorem sorted_insert (k : κ) (v : ν) : ∀ {r : List (κ × ν)}, Sorted r → Sorted (insert k v r)
  | [], _ => List.pairwise_singleton _ _
  | x :: r, h => by
    obtain ⟨hx, hr⟩ := List.pairwise_cons.mp h
    rw [insert]
    split
    · rename_i hlt
      refine List.pairwise_cons.mpr ⟨fun y hy => ?_, sorted_insert k v hr⟩
      rcases mem_insert hy with rfl | hy
      · exact hlt
      · exact hx y hy
    · rename_i hge
      split
      · rename_i hlt
        refine List.pairwise_cons.mpr ⟨fun y hy => ?_, h⟩
        rcases List.mem_cons.mp hy with rfl | hy
        · exact hlt
        · exact Std.lt_trans hlt (hx y hy)
      · rename_i hle
        have hk : x.1 = k := Std.le_antisymm (Std.not_lt.mp hle) (Std.not_lt.mp hge)
        refine List.pairwise_cons.mpr ⟨fun y hy => ?_, hr⟩
        rw [← hk]
        exact hx y hy

theorem find_insert (k : κ) (v : ν) (j : κ) [Decidable (j = k)] : ∀ {r : List (κ × ν)}, Sorted r →
    find j (insert k v r) = if j = k then some v else find j r
  | [], _ => by
    rw [insert, find_cons]
    split
    · rename_i hlt
      rw [if_neg (fun he => Std.lt_irrefl (he ▸ hlt))]
    · rename_i hge
      split
      · rename_i hlt
        rw [if_neg (fun he => Std.lt_irrefl (he ▸ hlt))]
        rfl
      · rename_i hle
        rw [if_pos (Std.le_antisymm (Std.not_lt.mp hge) (Std.not_lt.mp hle))]
  | x :: r, h => by
    obtain ⟨hx, hr⟩ := List.pairwise_cons.mp h
    have ih := find_insert k v j hr
    rw [insert]
    split
    · rename_i hlt
      rw [find_cons, ih, find_cons]
      by_cases hj : j = k
      · rw [if_pos hj, if_pos (hj ▸ hlt), if_pos hj]
      · rw [if_neg hj, if_neg hj]
    · rename_i hge
      split
      · rename_i hlt
        rw [find_cons]
        split
        · rename_i hkj
          rw [if_neg (fun he => Std.lt_irrefl (he ▸ hkj))]
        · rename_i hkj
          split
          · rename_i hjk
            rw [if_neg (fun he => Std.lt_irrefl (he ▸ hjk)), find_cons, if_neg (Std.not_gt_of_lt (Std.lt_trans hjk hlt)),
              if_pos (Std.lt_trans hjk hlt)]
          · rename_i hjk
            rw [if_pos (Std.le_antisymm (Std.not_lt.mp hkj) (Std.not_lt.mp hjk))]
      · rename_i hle
        have hk : x.1 = k := Std.le_antisymm (Std.not_lt.mp hle) (Std.not_lt.mp hge)
        rw [find_cons, find_cons, hk]
        split
        · rename_i hkj
          rw [if_neg (fun he => Std.lt_irrefl (he ▸ hkj))]
        · rename_i hkj
          split
          · rename_i hjk
            rw [if_neg (fun he => Std.lt_irrefl (he ▸ hjk))]
          · rename_i hjk
            rw [if_pos (Std.le_antisymm (Std.not_lt.mp hkj) (Std.not_lt.mp hjk))]

theorem upperBound_insert (k p : κ) (v : ν) : ∀ r : List (κ × ν),
    upperBound k (insert p v r) = some (p, v) ∨ upperBound k (insert p v r) = upperBound k r
  | [] => by
    rw [insert, upperBound_cons]
    split
    · exact .inl rfl
    · exact .inr rfl
  | x :: r => by
    rw [insert]
    split
    · rw [upperBound_cons, upperBound_cons]
      split
      · exact .inr rfl
      · exact upperBound_insert k p v r
    · rename_i hge
      split
      · rw [upperBound_cons]
        split
        · exact .inl rfl
        · exact .inr rfl
      · rename_i hle
        have hp : x.1 = p := Std.le_antisymm (Std.not_lt.mp hle) (Std.not_lt.mp hge)
        rw [upperBound_cons, upperBound_cons, hp]
        split
        · exact .inl rfl
        · exact .inr rfl

theorem select_insert (k p : κ) (v : ν) (r : List (κ × ν)) :
    select k (insert p v r) = some v ∨ select k (insert p v r) = select k r := by
  unfold select
  rcases upperBound_insert k p v r with hu | hu
  · rw [hu]
    exact .inl rfl
  · rw [hu]
    cases upperBound k r with
    | some x => exact .inr rfl
    | none =>
      rw [Option.none_or, Option.none_or]
      rcases head?_insert p v r with hh | hh
      · rw [hh]
        exact .inl rfl
      · rw [hh]
        exact .inr rfl

theorem sorted_ext : ∀ {r s : List (κ × ν)}, Sorted r → Sorted s → (∀ k, find k r = find k s) → r = s
  | [], [], _, _, _ => rfl
  | [], y :: s, _, _, h => by
    have hy := h y.1
    rw [find, find, if_neg Std.lt_irrefl, if_neg Std.lt_irrefl] at hy
    cases hy
  | x :: r, [], _, _, h => by
    have hx := h x.1
    rw [find, find, if_neg Std.lt_irrefl, if_neg Std.lt_irrefl] at hx
    cases hx
  | x :: r, y :: s, hr, hs, h => by
    obtain ⟨hxr, hr'⟩ := List.pairwise_cons.mp hr
    obtain ⟨hys, hs'⟩ := List.pairwise_cons.mp hs
    -- the smaller of the first points has an entry in one map only, unless they are equal
    have hx := h x.1
    have hy := h y.1
    rw [find, find, if_neg Std.lt_irrefl, if_neg Std.lt_irrefl] at hx
    rw [find, find, if_neg Std.lt_irrefl, if_neg Std.lt_irrefl] at hy
    have hyx : ¬ x.1 < y.1 := by
      intro hlt
      rw [if_neg (Std.not_gt_of_lt hlt), if_pos hlt] at hx
      cases hx
    have hxy : ¬ y.1 < x.1 := by
      intro hlt
      rw [if_neg (Std.not_gt_of_lt hlt), if_pos hlt] at hy
      cases hy
    have hk : x.1 = y.1 := Std.le_antisymm (Std.not_lt.mp hxy) (Std.not_lt.mp hyx)
    rw [if_neg hxy, if_neg hyx] at hx
    have he : x = y := Prod.ext hk (Option.some.inj hx)
    subst he
    congr 1
    refine sorted_ext hr' hs' (fun k => ?_)
    by_cases hlt : x.1 < k
    · have hf := h k
      rwa [find, find, if_pos hlt, if_pos hlt] at hf
    · have hle : k ≤ x.1 := Std.not_lt.mp hlt
      rw [find_eq_none_of_lt (fun z hz => Std.lt_of_le_of_lt hle (hxr z hz)),
        find_eq_none_of_lt (fun z hz => Std.lt_of_le_of_lt hle (hys z hz))]

variable [LT ν] [DecidableLT ν]

theorem sorted_place {r : List (κ × ν)} (h : Sorted r) (x : κ × ν) : Sorted (place r x) := by
  unfold place
  split
  · split
    · exact h
    · exact sorted_insert _ _ h
  · exact sorted_insert _ _ h

theorem find_place [DecidableEq κ] {r : List (κ × ν)} (h : Sorted r) (x : κ × ν) (k : κ) :
    find k (place r x) = if x.1 = k then least (find k r) x.2 else find k r := by
  by_cases hk : x.1 = k
  · rw [if_pos hk, ← hk]
    unfold place
    cases hf : find x.1 r with
    | none =>
      dsimp only
      rw [find_insert _ _ _ h, if_pos rfl]
      rfl
    | some n =>
      dsimp only
      rw [least]
      split
      · exact hf
      · rw [find_insert _ _ _ h, if_pos rfl]
  · rw [if_neg hk]
    unfold place
    split
    · split
      · rfl
      · rw [find_insert _ _ _ h, if_neg (fun he => hk he.symm)]
    · rw [find_insert _ _ _ h, if_neg (fun he => hk he.symm)]

theorem select_place (k : κ) (r : List (κ × ν)) (x : κ × ν) :
    select k (place r x) = some x.2 ∨ select k (place r x) = select k r := by
  unfold place
  split
  · split
    · exact .inr rfl
    · exact select_insert k x.1 x.2 r
  · exact select_insert k x.1 x.2 r

theorem select_foldl_place (k : κ) {v : ν} : ∀ (l : List (κ × ν)) (r : List (κ × ν)), (∀ x ∈ l, x.2 = v) →
    select k (l.foldl place r) = some v ∨ select k (l.foldl place r) = select k r
  | [], _, _ => .inr rfl
  | x :: l, r, h => by
    rw [List.foldl_cons]
    rcases select_foldl_place k l (place r x) (fun y hy => h y (List.mem_cons_of_mem x hy)) with hv | hs
    · exact .inl hv
    · rw [hs, ← h x List.mem_cons_self]
      exact select_place k r x

theorem sorted_foldl_place : ∀ (l : List (κ × ν)) {r : List (κ × ν)}, Sorted r → Sorted (l.foldl place r)
  | [], _, h => h
  | x :: l, _, h => sorted_foldl_place l (sorted_place h x)

theorem find_foldl_place [DecidableEq κ] (k : κ) : ∀ (l : List (κ × ν)) {r : List (κ × ν)}, Sorted r →
    find k (l.foldl place r) = ((l.filter (fun x => x.1 = k)).map Prod.snd).foldl least (find k r)
  | [], _, _ => rfl
  | x :: l, r, h => by
    rw [List.foldl_cons, find_foldl_place k l (sorted_place h x), find_place h]
    by_cases hk : x.1 = k
    · rw [if_pos hk, List.filter_cons_of_pos (by simpa using hk), List.map_cons, List.foldl_cons]
    · rw [if_neg hk, List.filter_cons_of_neg (by simpa using hk)]

end Order

section Perm

variable [LE κ] [IsLinearOrder κ] [LawfulOrderLT κ] [LT ν] [DecidableLT ν] [LE ν] [IsLinearOrder ν] [LawfulOrderLT ν]

theorem least_comm (o : Option ν) (a b : ν) : least (least o a) b = least (least o b) a := by
  have hab : ∀ a b : ν, least (some a) b = least (some b) a := by
    intro a b
    rw [least_some, least_some]
    by_cases h : a < b
    · rw [if_pos h, if_neg (Std.not_gt_of_lt h)]
    · rw [if_neg h]
      by_cases h' : b < a
      · rw [if_pos h']
      · rw [if_neg h', Std.le_antisymm (Std.not_lt.mp h) (Std.not_lt.mp h')]
  cases o with
  | none => exact hab a b
  | some m =>
    rw [least_some, least_some]
    by_cases ha : m < a <;> by_cases hb : m < b
    · rw [if_pos ha, if_pos hb, least_some, if_pos hb, least_some, if_pos ha]
    · rw [if_pos ha, if_neg hb, least_some, if_neg hb, least_some,
        if_pos (Std.lt_of_le_of_lt (Std.not_lt.mp hb) ha)]
    · rw [if_neg ha, if_pos hb, least_some, least_some, if_neg ha,
        if_pos (Std.lt_of_le_of_lt (Std.not_lt.mp ha) hb)]
    · rw [if_neg ha, if_neg hb]
      exact hab a b

theorem foldl_place_perm [DecidableEq κ] {l l' : List (κ × ν)} (hp : l.Perm l') {r : List (κ × ν)} (h : Sorted r) :
    l.foldl place r = l'.foldl place r := by
  refine sorted_ext (sorted_foldl_place l h) (sorted_foldl_place l' h) (fun k => ?_)
  rw [find_foldl_place k l h, find_foldl_place k l' h]
  exact ((hp.filter _).map Prod.snd).foldl_eq' (fun a _ b _ o => least_comm o a b) _

end Perm

end HashRing
