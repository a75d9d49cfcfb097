import Mathlib.Algebra.Order.Field.Power
import PowerMarket.Decimals
import PowerMarket.Warehouse.Model

/-!
# The decimal column type

The check of a decimal counts the digits of its canonical text. A decimal passes it exactly when the
column type, with 38 digits and nine of them after the point, has its value (`storable_iff`): the
check neither lets a value through that would be rounded or would overflow nor rejects another one.
-/

set_option autoImplicit false

namespace PowerMarket

open Library DecimalText

/-- The numbers of the decimal column type: 38 digits, nine of them after the point. -/
def Representable (number : ℚ) : Prop := ∃ n : Int, number = n / 10 ^ 9 ∧ |n| < 10 ^ 38

theorem representable_iff {number : ℚ} :
    Representable number ↔ ∃ n : Int, number * 10 ^ 9 = n ∧ |n| < 10 ^ 38 := by
  have units : ∀ n : Int, number = n / 10 ^ 9 ↔ number * 10 ^ 9 = n := fun n =>
    eq_div_iff (by norm_num)
  simp only [Representable, units]

theorem representable_signed (negative : Bool) (number : ℚ) :
    Representable ((if negative then -1 else 1) * number) ↔ Representable number := by
  have negated : ∀ {number : ℚ}, Representable number → Representable (-number) := by
    rintro number ⟨n, rfl, bound⟩
    exact ⟨-n, by push_cast; ring, by rwa [abs_neg]⟩
  cases negative with
  | false => simp
  | true =>
      rw [if_pos rfl, neg_one_mul]
      exact ⟨fun has => neg_neg number ▸ negated has, negated⟩

theorem representable_nonneg {number : ℚ} (nonneg : 0 ≤ number) :
    Representable number ↔ ∃ n : Nat, number * 10 ^ 9 = n ∧ n < 10 ^ (29 + 9) := by
  rw [representable_iff]
  constructor
  · rintro ⟨n, units, bound⟩
    have positive : (0 : ℚ) ≤ n := units ▸ mul_nonneg nonneg (by norm_num)
    obtain ⟨count, rfl⟩ := Int.eq_ofNat_of_zero_le (Int.cast_nonneg_iff.mp positive)
    rw [abs_of_nonneg (Int.natCast_nonneg count)] at bound
    exact ⟨count, by exact_mod_cast units, by exact_mod_cast bound⟩
  · rintro ⟨count, units, bound⟩
    refine ⟨count, by exact_mod_cast units, ?_⟩
    rw [abs_of_nonneg (Int.natCast_nonneg count)]
    exact_mod_cast bound

/-! ## The check -/

theorem decimalChars_parts {d : Decimal} (nonzero : d.coefficient ≠ 0) :
    wholePart ((decimalChars d).dropWhile (· == '-')) = d.wholeDigits ∧
      fractionPart ((decimalChars d).dropWhile (· == '-')) = trimmed d.fractionDigits := by
  obtain ⟨c, later, shape, unsigned⟩ := @written_unsigned d.wholeDigits (trimmed d.fractionDigits)
    d.wholeDigits_ne_nil fun c member => Decimal.isDigit_of_mem (List.mem_append_left _ member)
  have bare : (decimalChars d).dropWhile (· == '-') =
      written d.wholeDigits (trimmed d.fractionDigits) := by
    rw [decimalChars_eq nonzero, shape]
    cases d.negative <;> simp [unsigned]
  rw [bare]
  exact ⟨wholePart_written d.point_not_mem.1, fractionPart_written d.point_not_mem.1⟩

theorem numeric_cases (d : Decimal) :
    numeric d = .ok d ∨ numeric d = .error (.new .warehouseError
      "source decimal cannot be stored exactly as BigQuery NUMERIC(38,9)") := by
  unfold numeric
  dsimp only
  split_ifs
  · exact .inr rfl
  · exact .inl rfl

theorem storable_digits {d : Decimal} (nonzero : d.coefficient ≠ 0) : Storable d ↔
    (d.wholeDigits.dropWhile (· == '0')).length ≤ 29 ∧ (trimmed d.fractionDigits).length ≤ 9 := by
  obtain ⟨whole, fraction⟩ := decimalChars_parts nonzero
  have counted : numeric d = if 29 < (d.wholeDigits.dropWhile (· == '0')).length ∨
      9 < (trimmed d.fractionDigits).length then .error (.new .warehouseError
        "source decimal cannot be stored exactly as BigQuery NUMERIC(38,9)") else .ok d := by
    rw [← whole, ← fraction]
    rfl
  rw [Storable, counted]
  split_ifs with many
  · exact iff_of_false (by simp) (by omega)
  · exact iff_of_true rfl (by omega)

/-- **A decimal passes its check exactly when the column type has its value.** -/
theorem storable_iff {d : Decimal} : Storable d ↔ Representable d.value := by
  by_cases zero : d.coefficient = 0
  · have passes : Storable d := by
      rw [Storable, numeric, decimalChars, if_pos zero]
      rfl
    rw [Decimal.value_eq_zero_iff.mpr zero]
    exact iff_of_true passes ⟨0, by norm_num, by norm_num⟩
  · have size : (0 : ℚ) ≤ d.coefficient * (10 : ℚ) ^ d.exponent := by positivity
    rw [Decimal.value, mul_assoc, representable_signed, representable_nonneg size,
      storable_digits zero, few_digits_iff fun c => Decimal.isDigit_of_mem, d.digits_value]

/-- **A decimal that passes its check** fits the column type. -/
theorem numeric_representable {d d' : Decimal} (checked : numeric d = .ok d') :
    Representable d.value := by
  obtain rfl := numeric_eq_ok checked
  exact storable_iff.mp checked

/-- **The check is exact.** A decimal comes back unchanged exactly when it is a whole number of
units in the ninth place after the point, fewer than `10 ^ 38`, and is refused otherwise. -/
theorem numeric_exact (d : Decimal) :
    (numeric d = .ok d ↔ ∃ n : Int, d.value * 10 ^ 9 = n ∧ |n| < 10 ^ 38) ∧
      (¬ (∃ n : Int, d.value * 10 ^ 9 = n ∧ |n| < 10 ^ 38) →
        ∃ e, numeric d = .error e ∧ e.error.kind = .warehouseError) := by
  have passes : numeric d = .ok d ↔ ∃ n : Int, d.value * 10 ^ 9 = n ∧ |n| < 10 ^ 38 :=
    storable_iff.trans representable_iff
  refine ⟨passes, fun other => ?_⟩
  rcases numeric_cases d with passed | refused
  · exact absurd (passes.mp passed) other
  · exact ⟨_, refused, rfl⟩

example : numeric ⟨false, 1, 28⟩ = .ok ⟨false, 1, 28⟩ ∧
    numeric ⟨false, 1230000000000, -12⟩ = .ok ⟨false, 1230000000000, -12⟩ := by decide

end PowerMarket
