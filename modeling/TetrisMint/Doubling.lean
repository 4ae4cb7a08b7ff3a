import Mathlib.Data.Nat.Size
import Mathlib.Tactic

/-! Buffers that grow by doubling: the capacity that is reached for a given fill. -/
namespace Doubling

/-- The first doubling of `base` that is above `used`. -/
def capacity (base used : ℕ) : ℕ := base * 2 ^ (used / base).size

variable {base used used' k : ℕ}

/-- A doubling is above the fill from the capacity on. -/
theorem lt_mul_pow_iff (hbase : 0 < base) : used < base * 2 ^ k ↔ (used / base).size ≤ k := by
  rw [Nat.size_le, Nat.div_lt_iff_lt_mul hbase, Nat.mul_comm]

theorem lt_capacity (hbase : 0 < base) : used < capacity base used :=
  (lt_mul_pow_iff hbase).mpr (le_refl _)

theorem capacity_le_iff (hbase : 0 < base) : capacity base used ≤ base * 2 ^ k ↔ used < base * 2 ^ k := by
  rw [lt_mul_pow_iff hbase, capacity, Nat.mul_le_mul_left_iff hbase]
  exact Nat.pow_le_pow_iff_right (le_refl 2)

theorem capacity_mono (h : used ≤ used') : capacity base used ≤ capacity base used' := by
  apply Nat.mul_le_mul_left
  apply Nat.pow_le_pow_right (by decide)
  apply Nat.size_le_size
  exact Nat.div_le_div_right h

/-- Below one doubling more the capacity is reached. -/
theorem capacity_eq (hbase : 0 < base) (hlow : base * 2 ^ k ≤ used) (hhigh : used < base * 2 ^ (k + 1)) :
    capacity base used = base * 2 ^ (k + 1) := by
  have hsize : (used / base).size = k + 1 := by
    apply le_antisymm
    · exact (lt_mul_pow_iff hbase).mp hhigh
    · by_contra hless
      have hlt := (@lt_mul_pow_iff base used k hbase).mpr (by omega)
      omega
  rw [capacity, hsize]

end Doubling
