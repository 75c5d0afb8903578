import Mathlib.Data.Nat.Bitwise

/-!
# Powers of two by bit operations

Or-ing a number with its right shifts by 1, 2, 4, … sets every bit below its
leading one, and masking off low bits rounds down to a multiple of a power of two.
-/

namespace EverDb.Foundation.Bits

/-- Every bit of `smeared` stands for the `width` bits of `x` from it upwards. -/
def Smeared (x width smeared : Nat) : Prop :=
  ∀ i, smeared.testBit i = true ↔ ∃ step, step < width ∧ x.testBit (i + step) = true

theorem smeared_self (x : Nat) : Smeared x 1 x := by
  intro i
  constructor
  · intro bit
    exact ⟨0, by decide, bit⟩
  · rintro ⟨step, small, bit⟩
    obtain rfl : step = 0 := by omega
    exact bit

/-- Or-ing with a shift by the width doubles the width. -/
theorem Smeared.double {x width smeared : Nat} (covers : Smeared x width smeared) :
    Smeared x (2 * width) (smeared ||| smeared >>> width) := by
  intro i
  rw [Nat.testBit_or, Nat.testBit_shiftRight, Bool.or_eq_true, covers, covers]
  constructor
  · rintro (⟨step, small, bit⟩ | ⟨step, small, bit⟩)
    · exact ⟨step, by omega, bit⟩
    · exact ⟨width + step, by omega, by rwa [← Nat.add_assoc, Nat.add_comm i width]⟩
  · rintro ⟨step, small, bit⟩
    by_cases low : step < width
    · exact .inl ⟨step, low, bit⟩
    · refine .inr ⟨step - width, by omega, ?_⟩
      rwa [show width + i + (step - width) = i + step by omega]

/-- Once the width reaches the leading bit, all bits below it are set. -/
theorem Smeared.eq_two_pow {x width smeared : Nat} (covers : Smeared x width smeared)
    (bounded : x < 2 ^ width) : ∃ k, k ≤ width ∧ smeared + 1 = 2 ^ k ∧
    2 ^ k ≤ 2 * x + 1 ∧ x < 2 ^ k := by
  by_cases zero : x = 0
  · subst zero
    refine ⟨0, Nat.zero_le _, ?_, by decide, by decide⟩
    have : smeared = 0 := by
      apply Nat.eq_of_testBit_eq
      intro i
      rw [Nat.zero_testBit, Bool.eq_false_iff]
      intro bit
      obtain ⟨step, _, bit⟩ := (covers i).mp bit
      simp at bit
    rw [this]
    rfl
  · have leading := Nat.testBit_log2 zero
    have below : x < 2 ^ (x.log2 + 1) := Nat.lt_log2_self
    have inside : x.log2 < width := by
      rw [Nat.log2_lt zero]
      exact bounded
    refine ⟨x.log2 + 1, inside, ?_, by
      have lower := Nat.log2_self_le zero
      rw [Nat.pow_succ]
      omega, below⟩
    have filled : smeared = 2 ^ (x.log2 + 1) - 1 := by
      apply Nat.eq_of_testBit_eq
      intro i
      rw [Nat.testBit_two_pow_sub_one, Bool.eq_iff_iff, decide_eq_true_eq, covers]
      constructor
      · rintro ⟨step, _, bit⟩
        by_contra high
        rw [Nat.testBit_lt_two_pow (Nat.lt_of_lt_of_le below
          (Nat.pow_le_pow_right (by decide) (by omega)))] at bit
        cases bit
      · intro low
        exact ⟨x.log2 - i, by omega, by rwa [show i + (x.log2 - i) = x.log2 by omega]⟩
    have positive := Nat.two_pow_pos (x.log2 + 1)
    omega

/-- No smaller power of two exceeds a number that is at least half of one. -/
theorem least_two_pow {x k j : Nat} (half : 2 ^ k ≤ 2 * x + 1) (exceeds : x < 2 ^ j) : k ≤ j := by
  by_contra smaller
  have steps : 2 ^ (j + 1) ≤ 2 ^ k := Nat.pow_le_pow_right (by decide) (by omega)
  rw [Nat.pow_succ] at steps
  omega

/-- Masking off the low `k` bits of a number below `2 ^ width`. -/
theorem clear_low {x k width : Nat} (bounded : x < 2 ^ width) (small : k ≤ width) :
    x &&& (2 ^ width - 2 ^ k) = x / 2 ^ k * 2 ^ k := by
  have mask : 2 ^ width - 2 ^ k = (2 ^ (width - k) - 1) <<< k := by
    rw [Nat.shiftLeft_eq, Nat.sub_mul, ← Nat.pow_add, Nat.sub_add_cancel small, Nat.one_mul]
  rw [mask, ← Nat.shiftRight_eq_div_pow, ← Nat.shiftLeft_eq]
  apply Nat.eq_of_testBit_eq
  intro i
  rw [Nat.testBit_and, Nat.testBit_shiftLeft, Nat.testBit_shiftLeft, Nat.testBit_two_pow_sub_one,
    Nat.testBit_shiftRight]
  by_cases low : k ≤ i
  · rw [show k + (i - k) = i by omega]
    by_cases high : i < width
    · have : i - k < width - k := by omega
      simp [low, this]
    · rw [Nat.testBit_lt_two_pow (Nat.lt_of_lt_of_le bounded
        (Nat.pow_le_pow_right (by decide) (by omega)))]
      simp
  · simp [low]

end EverDb.Foundation.Bits
