import Mathlib.Data.List.Basic
/-!
# Decoding — readers of a stretch of bytes

A reader takes bytes from the front of a stretch.  It ends early with an error of its own, or where it leaves its bounds:
at a byte behind the end of the stretch, at an entry that a table does not have.  `Ends` is the weakest precondition of a
reader: it stays in its bounds, and what it gives meets a condition.
-/

/-- How a reader ends early. -/
inductive DecodeStop (ε : Type) where
  | error (e : ε)
  | outside
  | noEntry
  deriving DecidableEq, Repr

abbrev Decoding (ε : Type) := Except (DecodeStop ε)

namespace Decoding

variable {ε α β : Type}

def fail (e : ε) : Decoding ε α := .error (.error e)

def next : List UInt8 → Decoding ε (UInt8 × List UInt8)
  | [] => .error .outside
  | b :: bin => .ok (b, bin)

def byteAt (bin : List UInt8) (i : Nat) : Decoding ε UInt8 :=
  match bin[i]? with
  | none => .error .outside
  | some b => .ok b

def bytes (bin : List UInt8) (n : Nat) : Decoding ε (List UInt8) :=
  if bin.length < n then .error .outside else .ok (bin.take n)

def skip (bin : List UInt8) (n : Nat) : Decoding ε (List UInt8) :=
  if bin.length < n then .error .outside else .ok (bin.drop n)

def lookup (table : List α) (i : Nat) : Decoding ε α :=
  match table[i]? with
  | none => .error .noEntry
  | some a => .ok a

def lift : Except ε α → Decoding ε α
  | .ok a => .ok a
  | .error e => fail e

/-- An error leaves `s` behind. -/
def leaving {σ : Type} (s : σ) : Decoding ε α → Decoding (ε × σ) α
  | .ok a => .ok a
  | .error (.error e) => fail (e, s)
  | .error .outside => .error .outside
  | .error .noEntry => .error .noEntry

def handle {ε' : Type} (r : Decoding ε α) (h : ε → Decoding ε' β) (f : α → Decoding ε' β) : Decoding ε' β :=
  match r with
  | .ok a => f a
  | .error (.error e) => h e
  | .error .outside => .error .outside
  | .error .noEntry => .error .noEntry

section Steps

variable {b : UInt8} {bin rest : List UInt8} {n : Nat}

@[simp] theorem ok_bind (a : α) (f : α → Decoding ε β) : ((.ok a : Decoding ε α) >>= f) = f a := rfl

@[simp] theorem pure_eq_ok (a : α) : (pure a : Decoding ε α) = .ok a := rfl

theorem bind_eq_ok {r : Decoding ε α} {f : α → Decoding ε β} {y : β} (h : (r >>= f) = .ok y) : ∃ a, r = .ok a ∧ f a = .ok y := by
  cases r with
  | ok a => exact ⟨a, rfl, h⟩
  | error e => cases h

@[simp] theorem handle_ok {ε' : Type} (a : α) (h : ε → Decoding ε' β) (f : α → Decoding ε' β) :
    handle (.ok a : Decoding ε α) h f = f a := rfl

@[simp] theorem handle_fail {ε' : Type} (e : ε) (h : ε → Decoding ε' β) (f : α → Decoding ε' β) :
    handle (fail e : Decoding ε α) h f = h e := rfl

@[simp] theorem next_cons : (next (b :: bin) : Decoding ε _) = .ok (b, bin) := rfl

@[simp] theorem byteAt_zero : (byteAt (b :: bin) 0 : Decoding ε _) = .ok b := rfl

@[simp] theorem byteAt_succ : (byteAt (b :: bin) (n + 1) : Decoding ε _) = byteAt bin n := rfl

@[simp] theorem skip_zero : (skip bin 0 : Decoding ε _) = .ok bin := by
  simp [skip]

@[simp] theorem skip_succ : (skip (b :: bin) (n + 1) : Decoding ε _) = skip bin n := by
  simp [skip]

theorem skip_append (h : bin.length = n) : (skip (bin ++ rest) n : Decoding ε _) = .ok rest := by
  subst h
  simp [skip]

theorem bytes_append (h : bin.length = n) : (bytes (bin ++ rest) n : Decoding ε _) = .ok bin := by
  subst h
  simp [bytes]

theorem byteAt_append (h : bin.length = n) : (byteAt (bin ++ b :: rest) n : Decoding ε _) = .ok b := by
  subst h
  simp [byteAt]

end Steps

/-- **The reader stays in its bounds**: what it gives meets `Q`, and an error of its own meets `E`. -/
def Ends (r : Decoding ε α) (Q : α → Prop) (E : ε → Prop) : Prop :=
  match r with
  | .ok a => Q a
  | .error (.error e) => E e
  | .error _ => False

section Rules

variable {r : Decoding ε α} {Q R : α → Prop} {E : ε → Prop} {f : α → Decoding ε β} {S : β → Prop} {bin : List UInt8}
  {n : Nat}

theorem Ends.mono (h : Ends r Q E) (hQR : ∀ a, Q a → R a) : Ends r R E := by
  unfold Ends at h ⊢
  split at h
  · exact hQR _ h
  · exact h
  · exact h

theorem Ends.bind (h : Ends r Q E) (hf : ∀ a, Q a → Ends (f a) S E) : Ends (r >>= f) S E := by
  unfold Ends at h
  split at h
  · exact hf _ h
  · exact h
  · exact h.elim

theorem ends_fail {e : ε} (h : E e) : Ends (fail e : Decoding ε α) Q E := h

theorem Ends.leaving {σ : Type} {s : σ} {E' : ε × σ → Prop} (h : Ends r Q E) (hE : ∀ e, E e → E' (e, s)) :
    Ends (r.leaving s) Q E' := by
  unfold Ends at h
  split at h
  · exact h
  · exact hE _ h
  · exact h.elim

theorem ends_lift {r : Except ε α} (hE : ∀ e, r = .error e → E e) : Ends (lift r) (fun a => r = .ok a) E := by
  cases r with
  | ok a => rfl
  | error e => exact hE e rfl

theorem ends_next (h : bin ≠ []) : Ends (next bin) (fun r => bin = r.1 :: r.2) E := by
  cases bin with
  | nil => exact absurd rfl h
  | cons b bin => rfl

theorem ends_byteAt (h : n < bin.length) : Ends (byteAt bin n) (fun b => bin[n]? = some b) E := by
  unfold byteAt
  rw [List.getElem?_eq_getElem h]
  rfl

theorem ends_bytes (h : n ≤ bin.length) : Ends (bytes bin n) (fun bs => bs = bin.take n) E := by
  unfold bytes
  rw [if_neg (Nat.not_lt.mpr h)]
  rfl

theorem ends_skip (h : n ≤ bin.length) : Ends (skip bin n) (fun rest => rest = bin.drop n) E := by
  unfold skip
  rw [if_neg (Nat.not_lt.mpr h)]
  rfl

theorem ends_lookup {table : List α} (h : n < table.length) : Ends (lookup table n) (fun a => table[n]? = some a) E := by
  unfold lookup
  rw [List.getElem?_eq_getElem h]
  rfl

theorem Ends.ok_or_fail (h : Ends r Q E) : (∃ a, r = .ok a ∧ Q a) ∨ ∃ e, r = fail e ∧ E e := by
  unfold Ends at h
  split at h
  · exact .inl ⟨_, rfl, h⟩
  · exact .inr ⟨_, rfl, h⟩
  · exact h.elim

end Rules

end Decoding
