import Mathlib.Algebra.GroupWithZero.Nat
import Mathlib.Algebra.Ring.Int.Defs
import Mathlib.Data.List.Basic
/-!
# Bytes — little-endian numbers and buffers of bytes

A buffer is a list of bytes of fixed length.  `splice` overwrites bytes in place and `slice` reads them; a buffer that is
written out as an append of its parts is changed and read part by part (`splice_append`, `slice_append`).
-/
namespace Bytes

/-- The number in the first `n` bytes, lowest byte first. -/
def leNat : Nat → List UInt8 → Nat
  | 0, _ => 0
  | n + 1, bytes => (bytes.headD 0).toNat + 256 * leNat n bytes.tail

/-- The lowest `n` bytes of a number, lowest byte first. -/
def leBytes : Nat → Nat → List UInt8
  | 0, _ => []
  | n + 1, v => UInt8.ofNat (v % 256) :: leBytes n (v / 256)

theorem leNat_lt : ∀ (n : Nat) (bytes : List UInt8), leNat n bytes < 256 ^ n
  | 0, _ => by simp [leNat]
  | n + 1, bytes => by
    have h1 := leNat_lt n bytes.tail
    have h2 := (bytes.headD 0).toNat_lt
    rw [leNat, Nat.pow_succ]
    omega

@[simp] theorem length_leBytes : ∀ (n v : Nat), (leBytes n v).length = n
  | 0, _ => rfl
  | n + 1, v => by rw [leBytes, List.length_cons, length_leBytes n (v / 256)]

theorem leNat_leBytes_append : ∀ (n v : Nat) (rest : List UInt8), leNat n (leBytes n v ++ rest) = v % 256 ^ n
  | 0, v, _ => by simp [leNat, Nat.mod_one]
  | n + 1, v, rest => by
    rw [leBytes, List.cons_append, leNat, List.headD_cons, List.tail_cons, leNat_leBytes_append n (v / 256) rest,
      UInt8.toNat_ofNat', Nat.mod_eq_of_lt (Nat.mod_lt v (by decide)), Nat.pow_succ, Nat.mul_comm (256 ^ n) 256,
      Nat.mod_mul]

theorem leNat_leBytes (n v : Nat) : leNat n (leBytes n v) = v % 256 ^ n := by
  have h := leNat_leBytes_append n v []
  rwa [List.append_nil] at h

theorem leNat_leBytes_of_lt {n v : Nat} (h : v < 256 ^ n) (rest : List UInt8) :
    leNat n (leBytes n v ++ rest) = v := by
  rw [leNat_leBytes_append, Nat.mod_eq_of_lt h]

theorem leBytes_leNat : ∀ {n : Nat} {bytes : List UInt8}, bytes.length = n → leBytes n (leNat n bytes) = bytes
  | 0, bytes, h => by rw [List.length_eq_zero_iff.mp h]; rfl
  | n + 1, [], h => by cases h
  | n + 1, b :: bytes, h => by
    have hb := b.toNat_lt
    rw [leNat, leBytes, List.headD_cons, List.tail_cons, Nat.add_mul_mod_self_left, Nat.add_mul_div_left _ _ (by decide),
      Nat.mod_eq_of_lt hb, Nat.div_eq_of_lt hb, Nat.zero_add, leBytes_leNat (Nat.succ.inj h), UInt8.ofNat_toNat]

/-- The buffer with `bytes` written at `off`. -/
def splice (buf : List UInt8) (off : Nat) (bytes : List UInt8) : List UInt8 :=
  buf.take off ++ bytes ++ buf.drop (off + bytes.length)

/-- `n` bytes of the buffer from `off` on. -/
def slice (buf : List UInt8) (off n : Nat) : List UInt8 := (buf.drop off).take n

theorem splice_append {pre old bytes post : List UInt8} {off : Nat} (ho : pre.length = off)
    (hl : old.length = bytes.length) : splice (pre ++ (old ++ post)) off bytes = pre ++ (bytes ++ post) := by
  subst ho
  unfold splice
  have hdrop : (pre ++ (old ++ post)).drop (pre.length + bytes.length) = post := by
    rw [← hl, ← List.drop_drop, List.drop_left' rfl, List.drop_left' rfl]
  rw [List.take_left' rfl, hdrop, List.append_assoc]

theorem slice_append {pre mid post : List UInt8} {off n : Nat} (ho : pre.length = off) (hl : mid.length = n) :
    slice (pre ++ (mid ++ post)) off n = mid := by
  subst ho hl
  unfold slice
  rw [List.drop_left' rfl, List.take_left' rfl]

theorem splice_front {old bytes post : List UInt8} (hl : old.length = bytes.length) :
    splice (old ++ post) 0 bytes = bytes ++ post := by
  rw [splice, List.take_zero, List.nil_append, Nat.zero_add, ← hl, List.drop_left' rfl]

theorem length_splice {buf : List UInt8} {off : Nat} {bytes : List UInt8} (h : off + bytes.length ≤ buf.length) :
    (splice buf off bytes).length = buf.length := by
  simp only [splice, List.length_append, List.length_take, List.length_drop]
  omega

theorem splice_nil (buf : List UInt8) (off : Nat) : splice buf off [] = buf := by
  rw [splice, List.append_nil, List.length_nil, Nat.add_zero, List.take_append_drop]

theorem splice_splice {buf : List UInt8} {off : Nat} {a b : List UInt8} (h : off + a.length ≤ buf.length) :
    splice (splice buf off a) (off + a.length) b = splice buf off (a ++ b) := by
  have hpre : (buf.take off ++ a).length = off + a.length := by
    rw [List.length_append, List.length_take]
    omega
  have htake : (splice buf off a).take (off + a.length) = buf.take off ++ a := by
    unfold splice
    rw [List.take_left' hpre]
  have hdrop : (splice buf off a).drop (off + a.length + b.length) = buf.drop (off + (a ++ b).length) := by
    unfold splice
    rw [← List.drop_drop, List.drop_left' hpre, List.drop_drop, List.length_append, Nat.add_assoc]
  rw [splice, htake, hdrop, splice, List.append_assoc (buf.take off)]

theorem exists_split (bytes : List UInt8) {n : Nat} (h : n ≤ bytes.length) :
    ∃ a b, bytes = a ++ b ∧ a.length = n :=
  ⟨bytes.take n, bytes.drop n, (List.take_append_drop n bytes).symm, by rw [List.length_take]; omega⟩

end Bytes
