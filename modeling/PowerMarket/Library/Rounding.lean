import Mathlib.Data.Rat.Floor
import Mathlib.Algebra.Order.BigOperators.Group.List
import Mathlib.Tactic.Linarith
import Mathlib.Tactic.FieldSimp

/-!
# Rounding to a grid

Numbers are rounded to the nearest multiple of one part in a scale, halves away from zero
(`roundAway`). Rounding keeps the order (`roundAway_mono`) and leaves the numbers on the grid alone
(`roundAway_of_grid`), so that a rounded mean of numbers on the grid still lies between the least and
the greatest of them (`roundAway_mean`).
-/

set_option autoImplicit false

namespace PowerMarket.Library

variable {scale : ℚ}

/-- The nearest multiple of one part in the scale, halves away from zero. -/
def roundAway (scale number : ℚ) : ℚ :=
  let parts := Int.floor (|number| * scale + 1 / 2) / scale
  if number < 0 then -parts else parts

theorem parts_nonneg (positive : 0 < scale) (number : ℚ) :
    (0 : ℚ) ≤ Int.floor (|number| * scale + 1 / 2) / scale := by
  have nonneg : 0 ≤ |number| * scale + 1 / 2 := by positivity
  have floor : (0 : ℤ) ≤ Int.floor (|number| * scale + 1 / 2) := Int.floor_nonneg.mpr nonneg
  exact div_nonneg (by exact_mod_cast floor) positive.le

theorem parts_mono (positive : 0 < scale) {a b : ℚ} (le : |a| ≤ |b|) :
    (Int.floor (|a| * scale + 1 / 2) / scale : ℚ) ≤ Int.floor (|b| * scale + 1 / 2) / scale := by
  have scaled : |a| * scale + 1 / 2 ≤ |b| * scale + 1 / 2 := by gcongr
  have floors : Int.floor (|a| * scale + 1 / 2) ≤ Int.floor (|b| * scale + 1 / 2) :=
    Int.floor_le_floor scaled
  have cast : (Int.floor (|a| * scale + 1 / 2) : ℚ) ≤ Int.floor (|b| * scale + 1 / 2) := by
    exact_mod_cast floors
  gcongr

/-- **Rounding keeps the order.** -/
theorem roundAway_mono (positive : 0 < scale) : Monotone (roundAway scale) := by
  intro a b le
  have atA := parts_nonneg positive a
  have atB := parts_nonneg positive b
  unfold roundAway
  dsimp only
  split_ifs with negA negB negB
  · refine neg_le_neg (parts_mono positive ?_)
    rw [abs_of_neg negA, abs_of_neg negB]
    exact neg_le_neg le
  · linarith
  · exact absurd (lt_of_le_of_lt le negB) negA
  · refine parts_mono positive ?_
    rw [abs_of_nonneg (not_lt.mp negA), abs_of_nonneg (not_lt.mp negB)]
    exact le

/-- **A number on the grid stays as it is.** -/
theorem roundAway_of_grid (positive : 0 < scale) {number : ℚ} {n : ℤ} (grid : number * scale = n) :
    roundAway scale number = number := by
  have magnitude : |number| * scale = ((|n| : ℤ) : ℚ) := by
    rw [Int.cast_abs, ← grid, abs_mul, abs_of_pos positive]
  have floor : Int.floor (|number| * scale + 1 / 2) = |n| := by
    rw [magnitude, Int.floor_eq_iff]
    constructor <;> norm_num
  have parts : (Int.floor (|number| * scale + 1 / 2) / scale : ℚ) = |number| := by
    rw [floor, ← magnitude]
    field_simp
  unfold roundAway
  dsimp only
  rw [parts]
  split_ifs with negative
  · rw [abs_of_neg negative, neg_neg]
  · exact abs_of_nonneg (not_lt.mp negative)

/-- **A rounded mean** of numbers on the grid lies between two bounds on the grid that the numbers
have. -/
theorem roundAway_mean (positive : 0 < scale) {numbers : List ℚ} (nonempty : numbers ≠ [])
    {least greatest : ℚ} {n m : ℤ} (gridLeast : least * scale = n)
    (gridGreatest : greatest * scale = m) (lower : ∀ number ∈ numbers, least ≤ number)
    (upper : ∀ number ∈ numbers, number ≤ greatest) :
    least ≤ roundAway scale (numbers.sum / numbers.length) ∧
      roundAway scale (numbers.sum / numbers.length) ≤ greatest := by
  have count : (0 : ℚ) < numbers.length := by
    exact_mod_cast List.length_pos_iff.mpr nonempty
  have below := List.card_nsmul_le_sum numbers least lower
  have above := List.sum_le_card_nsmul numbers greatest upper
  rw [nsmul_eq_mul] at below above
  constructor
  · calc least = roundAway scale least := (roundAway_of_grid positive gridLeast).symm
      _ ≤ _ := roundAway_mono positive ((le_div_iff₀ count).mpr (by linarith))
  · calc _ ≤ roundAway scale greatest :=
          roundAway_mono positive ((div_le_iff₀ count).mpr (by linarith))
      _ = greatest := roundAway_of_grid positive gridGreatest

end PowerMarket.Library
