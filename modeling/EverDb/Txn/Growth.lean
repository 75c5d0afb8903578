import EverDb.Foundation.Bits
import EverDb.Txn.Model

/-!
# How far the file grows

`freelist_allocate_block` asks for the next multiple of a power of two above the
current number of blocks, so the file grows.
-/

namespace EverDb

open Foundation

theorem nextPowerOfTwo_eq {x : Nat} (small : x < 2147483648) :
    ∃ k, k ≤ 32 ∧ nextPowerOfTwo x = 2 ^ k ∧ 2 ^ k ≤ 2 * x + 1 ∧ x < 2 ^ k := by
  have smeared := (((((Bits.smeared_self x).double).double).double).double).double
  obtain ⟨k, inside, filled, least⟩ := smeared.eq_two_pow (show x < 2 ^ 32 by omega)
  refine ⟨k, inside, ?_, least⟩
  change u32 (_ + 1) = _
  exact (congrArg u32 filled).trans (u32_of_lt (by omega))

/-- The request for a step of `2 ^ k`: the wrapped sum, rounded down to a multiple. -/
theorem grownBlocks_eq {nblocks k : Nat} (step : nextPowerOfTwo (nblocks >>> 3) = 2 ^ k)
    (inside : k ≤ 32)
    (small : 2 ^ k < 4294967296) : grownBlocks nblocks = u32 (nblocks + 2 ^ k) / 2 ^ k * 2 ^ k := by
  have positive := Nat.two_pow_pos k
  have mask : 4294967296 - 1 - sub32 (2 ^ k) 1 = 2 ^ 32 - 2 ^ k := by
    rw [sub32_of_le (by omega) (by omega)]
    omega
  unfold grownBlocks
  simp only [step]
  rw [mask, Bits.clear_low (u32_lt _) inside]

/-- A file of fewer than `2 ^ 20` blocks grows by at least one block. -/
theorem lt_grownBlocks {nblocks : Nat} (small : nblocks < 1048576) :
    nblocks < grownBlocks nblocks := by
  have eighth : nblocks >>> 3 < 131072 := by
    rw [Nat.shiftRight_eq_div_pow]
    omega
  obtain ⟨k, inside, step, least, _⟩ := nextPowerOfTwo_eq (show nblocks >>> 3 < 2147483648 by omega)
  rw [grownBlocks_eq step inside (by omega), u32_of_lt (by omega),
    Nat.add_div_right _ (Nat.two_pow_pos k), Nat.succ_mul]
  exact Nat.lt_div_mul_add (Nat.two_pow_pos k)

/-- Growing by the step gives a multiple of the step, the least power of two above an
eighth of the blocks there are: more blocks, and at most the step more, or a number that
`io_resize` rejects. -/
structure GrowsFile (nblocks : Nat) : Prop where
  power : ∃ k, nextPowerOfTwo (nblocks >>> 3) = 2 ^ k ∧ nblocks >>> 3 < 2 ^ k ∧
    ∀ j, nblocks >>> 3 < 2 ^ j → k ≤ j
  multiple : nextPowerOfTwo (nblocks >>> 3) ∣ grownBlocks nblocks
  grows : nblocks < grownBlocks nblocks ∧
    grownBlocks nblocks ≤ nblocks + nextPowerOfTwo (nblocks >>> 3) ∨
    0xffffff00 ≤ grownBlocks nblocks

/-- The file grows exactly when the sum stays below `2 ^ 32`; from there on it wraps, and
the file is cut to nothing. -/
theorem growsFile_iff {nblocks : Nat} (admitted : nblocks < 0xffffff00) :
    GrowsFile nblocks ↔ nblocks < 0xe0000000 := by
  have eighth : nblocks >>> 3 = nblocks / 8 := Nat.shiftRight_eq_div_pow _ 3
  obtain ⟨k, inside, step, half, exceeds⟩ :=
    nextPowerOfTwo_eq (show nblocks >>> 3 < 2147483648 by omega)
  have positive := Nat.two_pow_pos k
  have masked := grownBlocks_eq step inside (by omega)
  have divided := Nat.div_mul_le_self (nblocks + 2 ^ k) (2 ^ k)
  constructor
  · rintro ⟨_, _, grows⟩
    by_contra large
    -- the step is `2 ^ 29` there
    have top : k = 29 := by
      have above := Bits.least_two_pow half (show nblocks >>> 3 < 2 ^ 29 by omega)
      by_contra other
      have steps : 2 ^ k ≤ 2 ^ 28 := Nat.pow_le_pow_right (by decide) (by omega)
      omega
    subst top
    have wrapped : u32 (nblocks + 2 ^ 29) = nblocks + 2 ^ 29 - 4294967296 := by
      unfold u32
      omega
    rw [masked, wrapped] at grows
    omega
  · intro small
    have fits : nblocks + 2 ^ k < 4294967296 := by
      have bounded : k ≤ 29 := Bits.least_two_pow half (show nblocks >>> 3 < 2 ^ 29 by omega)
      have steps : 2 ^ k ≤ 2 ^ 29 := Nat.pow_le_pow_right (by decide) bounded
      omega
    rw [u32_of_lt fits] at masked
    refine ⟨⟨k, step, exceeds, fun j above => Bits.least_two_pow half above⟩, ?_, .inl ⟨?_, ?_⟩⟩
    · rw [step, masked]
      exact Nat.dvd_mul_left _ _
    · rw [masked, Nat.add_div_right _ positive, Nat.succ_mul]
      exact Nat.lt_div_mul_add positive
    · rw [masked, step]
      exact divided

/-- A file of ten blocks grows to twelve. -/
theorem growsFile_ten : GrowsFile 10 := (growsFile_iff (by decide)).mpr (by decide)

/-- From `0xe0000001` blocks the request is for none at all. -/
theorem grownBlocks_wraps : ¬GrowsFile 0xe0000001 := by
  have none : grownBlocks 0xe0000001 = 0 := by decide +kernel
  rintro ⟨_, _, grows⟩
  rw [none] at grows
  omega

end EverDb
