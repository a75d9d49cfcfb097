import Mathlib.Algebra.Field.Rat
import Mathlib.Data.List.DropRight
import Mathlib.Tactic.FieldSimp
import Mathlib.Tactic.Linarith
import Mathlib.Tactic.Ring

/-!
# Fixed-point texts

A fixed-point text is a whole part and, when there is one, a point with a fraction. `trim` removes
the trailing zeros of the fraction and then a trailing point, which does not change the number
that the text writes (`numberOf_written_trimmed`). How many digits it leaves says how large the
number is and in which units it is a whole number (`few_digits_iff`).
-/

set_option autoImplicit false

namespace PowerMarket.Library.DecimalText

/-! ## Digits -/

/-- The number that decimal digits write. -/
def digitsValue (digits : List Char) : Nat := Nat.ofDigitChars 10 digits 0

@[simp] theorem digitsValue_toDigits (n : Nat) : digitsValue (Nat.toDigits 10 n) = n :=
  Nat.ofDigitChars_ten_toDigits

@[simp] theorem digitsValue_zeros (count : Nat) : digitsValue (List.replicate count '0') = 0 := by
  simp [digitsValue]

theorem digitsValue_append (front back : List Char) :
    digitsValue (front ++ back) = 10 ^ back.length * digitsValue front + digitsValue back := by
  rw [digitsValue, Nat.ofDigitChars_append, Nat.ofDigitChars_eq_ofDigitChars_zero]
  rfl

theorem digitsValue_lt {digits : List Char} (only : ∀ c ∈ digits, c.isDigit = true) :
    digitsValue digits < 10 ^ digits.length := by
  induction digits using List.reverseRecOn with
  | nil => decide
  | append_singleton front last ih =>
      have before := ih fun c member => only c (List.mem_append_left _ member)
      have digit := Char.isDigit_iff_toNat.mp (only last (by simp))
      have value : digitsValue [last] = last.toNat - 48 := by simp [digitsValue, Nat.ofDigitChars]
      rw [digitsValue_append, value, List.length_append, List.length_singleton, Nat.pow_succ]
      have nine : '9'.toNat = 57 := rfl
      omega

theorem digitsValue_dropZeros (digits : List Char) :
    digitsValue (digits.dropWhile (· == '0')) = digitsValue digits := by
  induction digits with
  | nil => rfl
  | cons c digits ih =>
      by_cases zero : c = '0'
      · subst zero
        rw [List.dropWhile_cons_of_pos (by rfl), ih]
        exact (Nat.zero_add _).symm.trans (by
          rw [← List.singleton_append, digitsValue_append]
          rfl)
      · rw [List.dropWhile_cons_of_neg (by simpa using zero)]

theorem digitsValue_singleton (c : Char) : digitsValue [c] = c.toNat - 48 := by
  simp [digitsValue, Nat.ofDigitChars]

theorem le_digitsValue {c : Char} {rest : List Char} (digit : c.isDigit = true)
    (leading : c ≠ '0') : 10 ^ rest.length ≤ digitsValue (c :: rest) := by
  have positive : 1 ≤ digitsValue [c] := by
    have least := (Char.isDigit_iff_toNat.mp digit).1
    have zero : '0'.toNat = 48 := rfl
    have other : c.toNat ≠ 48 := fun same => leading (Char.toNat_inj.mp (same.trans zero.symm))
    rw [digitsValue_singleton]
    omega
  calc 10 ^ rest.length
      ≤ 10 ^ rest.length * digitsValue [c] := Nat.le_mul_of_pos_right _ positive
    _ ≤ 10 ^ rest.length * digitsValue [c] + digitsValue rest := Nat.le_add_right _ _
    _ = digitsValue (c :: rest) := (digitsValue_append [c] rest).symm

/-- **How many digits count** says how large the number is. -/
theorem length_dropZeros_le_iff {digits : List Char} {size : Nat}
    (only : ∀ c ∈ digits, c.isDigit = true) :
    (digits.dropWhile (· == '0')).length ≤ size ↔ digitsValue digits < 10 ^ size := by
  have only' : ∀ c ∈ digits.dropWhile (· == '0'), c.isDigit = true := fun c member =>
    only c ((List.dropWhile_suffix _).subset member)
  rw [← digitsValue_dropZeros]
  constructor
  · intro few
    exact (digitsValue_lt only').trans_le (Nat.pow_le_pow_right (by decide) few)
  · intro small
    by_contra many
    cases shape : digits.dropWhile (· == '0') with
    | nil => simp [shape] at many
    | cons c rest =>
        have leading : c ≠ '0' := by
          have kept := List.dropWhile_get_zero_not (· == '0') digits (by simp [shape])
          simpa [shape] using kept
        have large := @le_digitsValue c rest (only' c (by simp [shape])) leading
        rw [shape] at small many
        have enough : size ≤ rest.length := by
          rw [List.length_cons] at many
          omega
        exact absurd small (not_lt.mpr ((Nat.pow_le_pow_right (by decide) enough).trans large))

theorem digitsValue_append_lt_iff {front back : List Char} {size : Nat}
    (only : ∀ c ∈ back, c.isDigit = true) :
    digitsValue (front ++ back) < 10 ^ (size + back.length) ↔ digitsValue front < 10 ^ size := by
  have positive : 0 < 10 ^ back.length := Nat.pow_pos (by decide)
  rw [digitsValue_append, Nat.pow_add, ← Nat.div_lt_iff_lt_mul positive, Nat.mul_add_div positive,
    Nat.div_eq_of_lt (digitsValue_lt only), Nat.add_zero]

/-! ## Texts -/

/-- The text with the given whole part and fraction, without a point when there is no fraction. -/
def written (whole fraction : List Char) : List Char :=
  if fraction = [] then whole else whole ++ '.' :: fraction

/-- A fraction without its trailing zeros. -/
def trimmed (fraction : List Char) : List Char := fraction.rdropWhile (· == '0')

/-- A text without trailing zeros and then without a trailing point. -/
def trim (text : List Char) : List Char :=
  (text.rdropWhile (· == '0')).rdropWhile (· == '.')

theorem trimmed_append (fraction : List Char) :
    ∃ count, fraction = trimmed fraction ++ List.replicate count '0' := by
  have zeros : ∀ c ∈ fraction.rtakeWhile (· == '0'), c = '0' := fun c member => by
    simpa using List.mem_rtakeWhile_imp member
  refine ⟨(fraction.rtakeWhile (· == '0')).length, ?_⟩
  rw [← List.eq_replicate_of_mem zeros, trimmed, List.rdropWhile_append_rtakeWhile]

theorem trimmed_subset {fraction : List Char} : trimmed fraction ⊆ fraction :=
  (List.rdropWhile_prefix _ _).subset

@[simp] theorem trimmed_concat_zero (fraction : List Char) :
    trimmed (fraction ++ ['0']) = trimmed fraction :=
  List.rdropWhile_concat_pos _ _ _ rfl

theorem rdropWhile_point (whole fraction : List Char) :
    (whole ++ '.' :: fraction).rdropWhile (· == '0') = whole ++ '.' :: trimmed fraction := by
  induction fraction using List.reverseRecOn with
  | nil => exact List.rdropWhile_concat_neg _ _ _ (by decide)
  | append_singleton front last ih =>
      rw [← List.cons_append, ← List.append_assoc, List.rdropWhile_concat]
      by_cases zero : last = '0'
      · subst zero
        rw [if_pos (by rfl), ih, trimmed_concat_zero]
      · have kept : ¬ (last == '0') = true := by simpa using zero
        rw [if_neg kept, trimmed, List.rdropWhile_concat, if_neg kept, List.append_assoc]
        rfl

/-- **What trimming leaves**: the whole part and the trimmed fraction. -/
theorem trim_point {whole fraction : List Char} (point : '.' ∉ whole) (point' : '.' ∉ fraction) :
    trim (whole ++ '.' :: fraction) = written whole (trimmed fraction) := by
  rw [trim, rdropWhile_point, written]
  split_ifs with empty
  · rw [empty, List.rdropWhile_concat_pos _ _ _ rfl, List.rdropWhile_eq_self_iff]
    intro nonempty last
    exact point (by simpa using (beq_iff_eq.mp last) ▸ List.getLast_mem nonempty)
  · rw [List.rdropWhile_eq_self_iff]
    intro nonempty last
    rw [List.getLast_append_of_right_ne_nil _ _ (by simp), List.getLast_cons empty] at last
    exact point' (trimmed_subset (beq_iff_eq.mp last ▸ List.getLast_mem empty))

/-! ## Reading -/

/-- The text before the point. -/
def wholePart (text : List Char) : List Char := text.takeWhile (· ≠ '.')

/-- The text after the point. -/
def fractionPart (text : List Char) : List Char := (text.dropWhile (· ≠ '.')).drop 1

theorem wholePart_written {whole fraction : List Char} (point : '.' ∉ whole) :
    wholePart (written whole fraction) = whole := by
  have all : ∀ c ∈ whole, decide (c ≠ '.') = true := fun c member =>
    decide_eq_true fun same => point (same ▸ member)
  unfold wholePart written
  split_ifs with empty
  · exact List.takeWhile_eq_self_iff.mpr all
  · rw [List.takeWhile_append_of_pos all, List.takeWhile_cons_of_neg (by simp), List.append_nil]

theorem fractionPart_written {whole fraction : List Char} (point : '.' ∉ whole) :
    fractionPart (written whole fraction) = fraction := by
  have all : ∀ c ∈ whole, decide (c ≠ '.') = true := fun c member =>
    decide_eq_true fun same => point (same ▸ member)
  unfold fractionPart written
  split_ifs with empty
  · rw [List.dropWhile_eq_nil_iff.mpr all, empty]
    rfl
  · rw [List.dropWhile_append_of_pos all, List.dropWhile_cons_of_neg (by simp)]
    rfl

/-- The number that a fixed-point text writes. -/
def numberOf (text : List Char) : ℚ :=
  digitsValue (wholePart text ++ fractionPart text) / 10 ^ (fractionPart text).length

theorem digitsValue_trimmed (whole fraction : List Char) :
    (digitsValue (whole ++ fraction) / 10 ^ fraction.length : ℚ) =
      digitsValue (whole ++ trimmed fraction) / 10 ^ (trimmed fraction).length := by
  obtain ⟨count, split⟩ := trimmed_append fraction
  conv_lhs => rw [split, ← List.append_assoc, digitsValue_append (whole ++ trimmed fraction),
    digitsValue_zeros, List.length_append, List.length_replicate]
  push_cast
  rw [pow_add]
  field_simp
  ring

/-- **Trimming the fraction does not change the number.** -/
theorem numberOf_written_trimmed {whole fraction : List Char} (point : '.' ∉ whole) :
    numberOf (written whole (trimmed fraction)) =
      digitsValue (whole ++ fraction) / 10 ^ fraction.length := by
  rw [numberOf, wholePart_written point, fractionPart_written point, ← digitsValue_trimmed]

/-! ## Digits that count -/

theorem not_dvd_digitsValue_trimmed {whole fraction : List Char}
    (only : ∀ c ∈ fraction, c.isDigit = true) (nonempty : trimmed fraction ≠ []) :
    ¬ 10 ∣ digitsValue (whole ++ trimmed fraction) := by
  have kept : (trimmed fraction).getLast nonempty ≠ '0' := by
    have last := List.rdropWhile_last_not (· == '0') fraction nonempty
    rwa [beq_iff_eq] at last
  have digit := Char.isDigit_iff_toNat.mp
    (only _ (trimmed_subset (List.getLast_mem nonempty)))
  have other : ((trimmed fraction).getLast nonempty).toNat ≠ 48 := fun same =>
    kept (Char.toNat_inj.mp same)
  have zero : '0'.toNat = 48 := rfl
  have nine : '9'.toNat = 57 := rfl
  rw [← List.dropLast_append_getLast nonempty, ← List.append_assoc, digitsValue_append,
    digitsValue_singleton, List.length_singleton]
  omega

/-- A number with a last digit that counts has a whole number of units in the last place exactly
when it has no more digits after the point. -/
theorem whole_units_iff {digits used size places : Nat} (last : 0 < used → ¬ 10 ∣ digits) :
    digits < 10 ^ (size + used) ∧ used ≤ places ↔
      ∃ n : Nat, (digits / 10 ^ used : ℚ) * 10 ^ places = n ∧ n < 10 ^ (size + places) := by
  have scaled : ∀ {more : Nat}, digits * 10 ^ more < 10 ^ (size + (used + more)) ↔
      digits < 10 ^ (size + used) := by
    intro more
    rw [← Nat.add_assoc, Nat.pow_add 10 (size + used)]
    exact Nat.mul_lt_mul_right (Nat.pow_pos (by decide))
  have units : ∀ more : Nat, (digits / 10 ^ used : ℚ) * 10 ^ (used + more) =
      (digits * 10 ^ more : Nat) := by
    intro more
    push_cast
    rw [pow_add]
    field_simp
  constructor
  · rintro ⟨small, fits⟩
    obtain ⟨more, rfl⟩ := Nat.exists_eq_add_of_le fits
    exact ⟨digits * 10 ^ more, units more, scaled.mpr small⟩
  · rintro ⟨n, exact, small⟩
    have fits : used ≤ places := by
      by_contra beyond
      obtain ⟨more, rfl⟩ := Nat.exists_eq_add_of_lt (not_le.mp beyond)
      -- A unit of the last place is a multiple of ten of the units that the digits count.
      have tenfold : digits = n * 10 ^ more * 10 := by
        have power : (10 : ℚ) ^ places ≠ 0 := pow_ne_zero _ (by norm_num)
        have counted : (digits : ℚ) = n * 10 ^ more * 10 := by
          rw [pow_succ, pow_add] at exact
          field_simp at exact
          linarith
        exact_mod_cast counted
      exact last (Nat.succ_pos _) ⟨n * 10 ^ more, tenfold.trans (Nat.mul_comm _ _)⟩
    obtain ⟨more, rfl⟩ := Nat.exists_eq_add_of_le fits
    have count : digits * 10 ^ more = n := by
      exact_mod_cast (units more).symm.trans exact
    exact ⟨scaled.mp (count ▸ small), fits⟩

/-- **The digits that count.** At most `size` digits before the point and at most `places` after it
are written exactly for a whole number of units in the last place, fewer than a power of ten. -/
theorem few_digits_iff {whole fraction : List Char} {size places : Nat}
    (only : ∀ c ∈ whole ++ fraction, c.isDigit = true) :
    (whole.dropWhile (· == '0')).length ≤ size ∧ (trimmed fraction).length ≤ places ↔
      ∃ n : Nat, (digitsValue (whole ++ fraction) / 10 ^ fraction.length : ℚ) * 10 ^ places = n ∧
        n < 10 ^ (size + places) := by
  have before : ∀ c ∈ whole, c.isDigit = true := fun c member =>
    only c (List.mem_append_left _ member)
  have after : ∀ c ∈ fraction, c.isDigit = true := fun c member =>
    only c (List.mem_append_right _ member)
  rw [length_dropZeros_le_iff before, digitsValue_trimmed,
    ← digitsValue_append_lt_iff fun c member => after c (trimmed_subset member)]
  exact whole_units_iff fun nonempty =>
    not_dvd_digitsValue_trimmed after (List.ne_nil_of_length_pos nonempty)

end PowerMarket.Library.DecimalText
