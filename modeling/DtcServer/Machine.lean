import Mathlib.Algebra.GroupWithZero.Nat
import Mathlib.Algebra.Ring.Int.Defs
import Mathlib.Logic.Basic
/-!
# Machine — runs of a transition system

A `Machine` has start states and a partial step for every action; what the environment may decide (which message is
handled next, how a foreign call ends) is in the action.  The rules here turn what one step preserves into what every
run preserves, with and without a condition on the steps that are taken.
-/

/-- A transition system: `step s a = none` says that the action `a` is not possible in `s`. -/
structure Machine (σ α : Type) where
  start : σ → Prop
  step : σ → α → Option σ

namespace Machine

variable {σ α : Type} (M : Machine σ α)

/-- The state after the actions of a list, taken one after another. -/
def run : σ → List α → Option σ
  | s, [] => some s
  | s, a :: as => (M.step s a).bind (fun s' => run s' as)

/-- **Every step of the run meets `ok`**, read at the state before it. -/
def RunMeets (ok : σ → α → Prop) : σ → List α → Prop
  | _, [] => True
  | s, a :: as => ok s a ∧ ∀ s', M.step s a = some s' → RunMeets ok s' as

/-- The states of the runs that begin in a start state. -/
def Reachable (s : σ) : Prop := ∃ s₀ as, M.start s₀ ∧ M.run s₀ as = some s

/-- The states of the runs that begin in a start state and whose steps all meet `ok`. -/
def ReachableMeeting (ok : σ → α → Prop) (s : σ) : Prop :=
  ∃ s₀ as, M.start s₀ ∧ M.RunMeets ok s₀ as ∧ M.run s₀ as = some s

theorem run_cons {s s' : σ} {a : α} {as : List α} (h : M.run s (a :: as) = some s') :
    ∃ t, M.step s a = some t ∧ M.run t as = some s' :=
  Option.bind_eq_some_iff.mp h

theorem run_append {t : σ} {bs : List α} : ∀ (as : List α) {s : σ}, M.run s as = some t →
    M.run s (as ++ bs) = M.run t bs
  | [], s, h => by
    obtain rfl := Option.some.inj h
    rfl
  | a :: as, s, h => by
    obtain ⟨u, hu, h⟩ := M.run_cons h
    rw [List.cons_append, run, hu]
    exact run_append as h

theorem run_snoc {s' s'' : σ} {a : α} (hst : M.step s' a = some s'') (as : List α) {s : σ} (h : M.run s as = some s') :
    M.run s (as ++ [a]) = some s'' := by
  rw [M.run_append as h]
  exact Option.bind_eq_some_iff.mpr ⟨s'', hst, rfl⟩

theorem Reachable.next {M : Machine σ α} {s s' : σ} {a : α} (h : M.Reachable s) (hst : M.step s a = some s') :
    M.Reachable s' := by
  obtain ⟨s₀, as, h0, hr⟩ := h
  exact ⟨s₀, as ++ [a], h0, M.run_snoc hst as hr⟩

theorem RunMeets.cons {M : Machine σ α} {ok : σ → α → Prop} {s t : σ} {a : α} {as : List α} (hok : ok s a)
    (hst : M.step s a = some t) (h : M.RunMeets ok t as) : M.RunMeets ok s (a :: as) := by
  refine ⟨hok, fun s' hs' => ?_⟩
  rw [hst] at hs'
  obtain rfl := Option.some.inj hs'
  exact h

/-- Whether a run meets a decidable condition can be computed. -/
instance decidableRunMeets {ok : σ → α → Prop} [∀ s a, Decidable (ok s a)] :
    ∀ (as : List α) (s : σ), Decidable (M.RunMeets ok s as)
  | [], _ => isTrue trivial
  | a :: as, s =>
    match h : M.step s a with
    | none => decidable_of_iff (ok s a) ⟨fun hok => ⟨hok, fun s' hs' => by rw [h] at hs'; cases hs'⟩, fun hr => hr.1⟩
    | some t =>
      have : Decidable (M.RunMeets ok t as) := decidableRunMeets as t
      decidable_of_iff (ok s a ∧ M.RunMeets ok t as) ⟨fun hr => RunMeets.cons hr.1 h hr.2, fun hr => ⟨hr.1, hr.2 t h⟩⟩

theorem run_preserves {ok : σ → α → Prop} {Inv : σ → Prop}
    (hstep : ∀ s a s', Inv s → ok s a → M.step s a = some s' → Inv s') :
    ∀ (as : List α) (s s' : σ), Inv s → M.RunMeets ok s as → M.run s as = some s' → Inv s'
  | [], s, s', hs, _, hr => by
    obtain rfl : s = s' := Option.some.inj hr
    exact hs
  | a :: as, s, s', hs, hok, hr => by
    obtain ⟨t, ht, hr'⟩ := M.run_cons hr
    exact run_preserves hstep as t s' (hstep s a t hs hok.1 ht) (hok.2 t ht) hr'

theorem runMeets_true : ∀ (as : List α) (s : σ), M.RunMeets (fun _ _ => True) s as
  | [], _ => trivial
  | _ :: as, _ => ⟨trivial, fun s' _ => runMeets_true as s'⟩

theorem reachable_induct {Inv : σ → Prop} (hinit : ∀ s, M.start s → Inv s)
    (hstep : ∀ s a s', Inv s → M.step s a = some s' → Inv s') {s : σ} (h : M.Reachable s) : Inv s := by
  obtain ⟨s₀, as, h0, hr⟩ := h
  exact M.run_preserves (fun s a s' hs _ ht => hstep s a s' hs ht) as s₀ s (hinit s₀ h0) (M.runMeets_true as s₀) hr

theorem reachableMeeting_induct {ok : σ → α → Prop} {Inv : σ → Prop} (hinit : ∀ s, M.start s → Inv s)
    (hstep : ∀ s a s', Inv s → ok s a → M.step s a = some s' → Inv s') {s : σ} (h : M.ReachableMeeting ok s) :
    Inv s := by
  obtain ⟨s₀, as, h0, hok, hr⟩ := h
  exact M.run_preserves hstep as s₀ s (hinit s₀ h0) hok hr

theorem run_length_le {Inv : σ → Prop} {μ : σ → Nat} (hstep : ∀ s a s', Inv s → M.step s a = some s' → Inv s')
    (hdec : ∀ s a s', Inv s → M.step s a = some s' → μ s' < μ s) :
    ∀ (as : List α) (s s' : σ), Inv s → M.run s as = some s' → as.length ≤ μ s
  | [], s, _, _, _ => Nat.zero_le _
  | a :: as, s, s', hs, hr => by
    obtain ⟨t, ht, hr'⟩ := M.run_cons hr
    have hlt := hdec s a t hs ht
    have hle := run_length_le hstep hdec as t s' (hstep s a t hs ht) hr'
    rw [List.length_cons]
    omega

end Machine
