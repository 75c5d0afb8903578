import Mathlib.Data.Fintype.EquivFin
import Mathlib.Data.Nat.ModEq
import Mathlib.Data.Nat.Prime.Basic
import Mathlib.Tactic.Ring
import Mathlib.Tactic.Linarith

/-!
# Triangular numbers modulo a power of two

The triangular numbers below `2 ^ (k + 1)` take every residue modulo `2 ^ k`
exactly once, so triangular probing with wrapping arithmetic reaches every
distance before it repeats.
-/

namespace EverDb.Foundation.Triangular

/-- The `i`th triangular number as wrapping arithmetic computes it: the product
is reduced before it is halved. -/
def wrapped (bits i : Nat) : Nat := (i * i + i) % 2 ^ (bits + 1) / 2

theorem product_even (i : Nat) : (i * i + i) % 2 = 0 := by
  have factored : i * i + i = i * (i + 1) := by ring
  rw [factored, Nat.mul_mod]
  rcases Nat.mod_two_eq_zero_or_one i with even | odd
  · simp [even]
  · have next : (i + 1) % 2 = 0 := by omega
    simp [next]

theorem wrapped_lt (bits i : Nat) : wrapped bits i < 2 ^ bits := by
  have reduced : (i * i + i) % 2 ^ (bits + 1) < 2 ^ (bits + 1) :=
    Nat.mod_lt _ (Nat.two_pow_pos _)
  rw [pow_succ] at reduced
  simp only [wrapped]
  rw [pow_succ]
  omega

/-- Halving loses nothing: the reduced product is even. -/
theorem double_wrapped (bits i : Nat) :
    2 * wrapped bits i = (i * i + i) % 2 ^ (bits + 1) := by
  have even := product_even i
  have reducedEven : (i * i + i) % 2 ^ (bits + 1) % 2 = 0 := by
    rw [Nat.mod_mod_of_dvd _ (Dvd.intro_left (2 ^ bits) (pow_succ 2 bits).symm)]
    exact even
  simp only [wrapped]
  omega

/-- Two triangular numbers differ by a product of two factors, one of them odd. -/
theorem difference_factors {i j : Nat} (ordered : i ≤ j) :
    j * j + j - (i * i + i) = (j - i) * (j + i + 1) := by
  obtain ⟨gap, rfl⟩ := Nat.exists_eq_add_of_le ordered
  have expanded : (i + gap) * (i + gap) + (i + gap) = i * i + i + gap * (i + gap + i + 1) := by ring
  rw [expanded]
  simp

/-- No two rounds below `2 ^ bits` have the same wrapped triangular number. -/
theorem wrapped_injective {bits i j : Nat} (low : i < j) (high : j < 2 ^ bits) :
    wrapped bits i ≠ wrapped bits j := by
  intro same
  have congruent : i * i + i ≡ j * j + j [MOD 2 ^ (bits + 1)] := by
    unfold Nat.ModEq
    rw [← double_wrapped, ← double_wrapped, same]
  have smaller : i * i + i ≤ j * j + j := by nlinarith
  have divides : 2 ^ (bits + 1) ∣ (j - i) * (j + i + 1) := by
    rw [← difference_factors (Nat.le_of_lt low)]
    exact (Nat.modEq_iff_dvd' smaller).mp congruent
  rw [pow_succ] at divides
  rcases Nat.even_or_odd (j - i) with even | odd
  · -- the gap is even, so the other factor is odd and the gap takes the whole power
    have sumOdd : Nat.Coprime (2 ^ bits * 2) (j + i + 1) := by
      rw [← pow_succ]
      apply Nat.Coprime.pow_left
      rw [Nat.coprime_two_left]
      rw [Nat.even_iff] at even
      rw [Nat.odd_iff]
      omega
    have bound := Nat.le_of_dvd (by omega) (sumOdd.dvd_of_dvd_mul_right divides)
    omega
  · have gapOdd : Nat.Coprime (2 ^ bits * 2) (j - i) := by
      rw [← pow_succ]
      exact Nat.Coprime.pow_left _ ((Nat.coprime_two_left).mpr odd)
    have bound := Nat.le_of_dvd (by omega) (gapOdd.dvd_of_dvd_mul_left divides)
    omega

/-- Every residue is reached within `2 ^ bits` rounds. -/
theorem wrapped_surjective {bits target : Nat} (bounded : target < 2 ^ bits) :
    ∃ i, i < 2 ^ bits ∧ wrapped bits i = target := by
  let round : Fin (2 ^ bits) → Fin (2 ^ bits) := fun i => ⟨wrapped bits i, wrapped_lt bits i⟩
  have injective : Function.Injective round := by
    intro i j same
    have values : wrapped bits i = wrapped bits j := congrArg Fin.val same
    rcases Nat.lt_trichotomy i.val j.val with low | equal | high
    · exact absurd values (wrapped_injective low j.isLt)
    · exact Fin.ext equal
    · exact absurd values.symm (wrapped_injective high i.isLt)
  obtain ⟨i, reached⟩ := Finite.injective_iff_surjective.mp injective ⟨target, bounded⟩
  exact ⟨i.val, i.isLt, congrArg Fin.val reached⟩

/-- Two triangular numbers that agree modulo a prime, from any start. -/
theorem congruent_dvd {prime start i j : Nat} (isPrime : prime.Prime) (ordered : i ≤ j)
    (same : start + (i * i + i) / 2 ≡ start + (j * j + j) / 2 [MOD prime]) :
    prime ∣ j - i ∨ prime ∣ j + i + 1 := by
  have halves := (Nat.ModEq.add_left_cancel' start same).mul_left 2
  have evenI := product_even i
  have evenJ := product_even j
  rw [show 2 * ((i * i + i) / 2) = i * i + i by omega, show 2 * ((j * j + j) / 2) =
    j * j + j by omega] at halves
  have smaller : i * i + i ≤ j * j + j := by nlinarith
  have divides := (Nat.modEq_iff_dvd' smaller).mp halves
  rw [difference_factors ordered] at divides
  exact isPrime.dvd_mul.mp divides

end EverDb.Foundation.Triangular
