import Mathlib.Tactic.IntervalCases
/-!
# Bits — single bits and masks of a word

A word of any width, its bits by `getLsbD`: one bit set, cleared or tested through `1 <<< k`, and the masks of the low bits.
-/
namespace Bits

variable {w k : Nat}

/-! ## One bit -/

theorem getLsbD_oneBit (hk : k < w) (i : Nat) : (1#w <<< k).getLsbD i = decide (i = k) := by
  rw [BitVec.getLsbD_shiftLeft, BitVec.getLsbD_one]
  by_cases hi : i = k
  · subst hi
    simp [hk]
    omega
  · by_cases hlt : i < k
    · simp [hi, hlt]
    · have hrest : i - k ≠ 0 := by omega
      simp [hi, hrest]

theorem getLsbD_set (hk : k < w) (x : BitVec w) (i : Nat) : (x ||| 1#w <<< k).getLsbD i = (x.getLsbD i || decide (i = k)) := by
  rw [BitVec.getLsbD_or, getLsbD_oneBit hk]

theorem getLsbD_clear (hk : k < w) (x : BitVec w) (i : Nat) :
    (x &&& ~~~(1#w <<< k)).getLsbD i = (x.getLsbD i && decide (i ≠ k)) := by
  rw [BitVec.getLsbD_and, BitVec.getLsbD_not, getLsbD_oneBit hk, decide_not]
  by_cases hi : i < w
  · rw [decide_eq_true hi, Bool.true_and]
  · rw [BitVec.getLsbD_of_ge x i (Nat.not_lt.mp hi), Bool.false_and, Bool.false_and]

theorem and_oneBit_ne_zero (hk : k < w) (x : BitVec w) : x &&& 1#w <<< k ≠ 0#w ↔ x.getLsbD k = true := by
  constructor
  · intro hne
    by_contra hbit
    apply hne
    apply BitVec.eq_of_getLsbD_eq
    intro i _
    rw [BitVec.getLsbD_and, getLsbD_oneBit hk, BitVec.getLsbD_zero]
    by_cases hi : i = k
    · rw [hi, Bool.eq_false_iff.mpr hbit, Bool.false_and]
    · rw [decide_eq_false hi, Bool.and_false]
  · intro hbit hzero
    have h : (x &&& 1#w <<< k).getLsbD k = false := by rw [hzero, BitVec.getLsbD_zero]
    rw [BitVec.getLsbD_and, getLsbD_oneBit hk, hbit, decide_eq_true rfl] at h
    cases h

theorem toBitVec_oneBit (hk : k < 8) : ((1 : UInt8) <<< UInt8.ofNat k).toBitVec = 1#8 <<< k := by
  interval_cases k <;> rfl

/-! ## Masks -/

theorem getLsbD_mask (size off i : Nat) :
    (BitVec.ofNat w (2 ^ size - 1) <<< off).getLsbD i = (decide (i < w) && decide (off ≤ i ∧ i < off + size)) := by
  rw [BitVec.getLsbD_shiftLeft, BitVec.getLsbD_ofNat, Nat.testBit_two_pow_sub_one]
  grind

theorem and_allOnes_shiftLeft_eq_zero {x : BitVec w} : x &&& BitVec.allOnes w <<< k = 0#w ↔ x.toNat < 2 ^ k := by
  constructor
  · intro h
    apply Nat.lt_pow_two_of_testBit
    intro i hi
    by_cases hiw : i < w
    · have hbit : (x &&& BitVec.allOnes w <<< k).getLsbD i = false := by rw [h, BitVec.getLsbD_zero]
      have hnot : ¬ i < k := Nat.not_lt.mpr hi
      have hrest : i - k < w := by omega
      rw [BitVec.getLsbD_and, BitVec.getLsbD_shiftLeft, BitVec.getLsbD_allOnes, decide_eq_true hiw, decide_eq_false hnot,
        decide_eq_true hrest] at hbit
      have hx : x.getLsbD i = false := by simpa using hbit
      exact hx
    · exact BitVec.getLsbD_of_ge x i (Nat.not_lt.mp hiw)
  · intro h
    apply BitVec.eq_of_getLsbD_eq
    intro i hi
    by_cases hk : i < k
    · simp [hk]
    · have hbit : x.getLsbD i = false :=
        Nat.testBit_lt_two_pow (Nat.lt_of_lt_of_le h (Nat.pow_le_pow_right (by decide) (Nat.not_lt.mp hk)))
      simp [hbit]

theorem eq_lowBits {x : BitVec w} {n : Nat} (h : ∀ i < w, x.getLsbD i = true ↔ i < n) : x = BitVec.ofNat w (2 ^ n - 1) := by
  apply BitVec.eq_of_getLsbD_eq
  intro i hi
  rw [BitVec.getLsbD_ofNat, Nat.testBit_two_pow_sub_one, decide_eq_true hi, Bool.true_and, Bool.eq_iff_iff, h i hi,
    decide_eq_true_eq]

end Bits
