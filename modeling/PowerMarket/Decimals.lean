import PowerMarket.Identity
import PowerMarket.Library.DecimalText

/-!
# Decimals as numbers

The canonical text of a decimal and the number that the decimal stands for determine each other
(`decimalText_eq_iff`), so digests of decimals depend on their values alone. The text is also read
back as a decimal of the same value (`Decimal.ofText_decimalText`).
-/

set_option autoImplicit false

namespace PowerMarket

open Library DecimalText

namespace Decimal

/-- The number that a decimal stands for. -/
def value (d : Decimal) : ℚ :=
  (if d.negative then -1 else 1) * d.coefficient * (10 : ℚ) ^ d.exponent

theorem value_eq_zero_iff {d : Decimal} : d.value = 0 ↔ d.coefficient = 0 := by
  have power : (10 : ℚ) ^ d.exponent ≠ 0 := zpow_ne_zero _ (by decide)
  cases sign : d.negative <;> simp [value, sign, power]

/-- The digits of a coefficient, with one at least before the last places. -/
def filled (d : Decimal) (places : Nat) : List Char :=
  List.replicate (places + 1 - (Nat.toDigits 10 d.coefficient).length) '0' ++
    Nat.toDigits 10 d.coefficient

/-- The digits before the point. -/
def wholeDigits (d : Decimal) : List Char :=
  match d.exponent with
  | .ofNat zeros => Nat.toDigits 10 d.coefficient ++ List.replicate zeros '0'
  | .negSucc fewer => (d.filled (fewer + 1)).take ((d.filled (fewer + 1)).length - (fewer + 1))

/-- The digits after the point. -/
def fractionDigits (d : Decimal) : List Char :=
  match d.exponent with
  | .ofNat _ => []
  | .negSucc fewer => (d.filled (fewer + 1)).drop ((d.filled (fewer + 1)).length - (fewer + 1))

theorem isDigit_of_mem_filled {d : Decimal} {places : Nat} {c : Char}
    (member : c ∈ d.filled places) : c.isDigit = true := by
  rcases List.mem_append.mp member with zero | digit
  · rw [List.eq_of_mem_replicate zero]
    rfl
  · exact Nat.isDigit_of_mem_toDigits (by decide) (by decide) digit

theorem isDigit_of_mem {d : Decimal} {c : Char} (member : c ∈ d.wholeDigits ++ d.fractionDigits) :
    c.isDigit = true := by
  obtain ⟨negative, coefficient, exponent⟩ := d
  cases exponent with
  | ofNat zeros =>
      simp only [wholeDigits, fractionDigits, List.append_nil] at member
      rcases List.mem_append.mp member with digit | zero
      · exact Nat.isDigit_of_mem_toDigits (by decide) (by decide) digit
      · rw [List.eq_of_mem_replicate zero]
        rfl
  | negSucc fewer =>
      simp only [wholeDigits, fractionDigits, List.take_append_drop] at member
      exact isDigit_of_mem_filled member

theorem point_not_mem {d : Decimal} : '.' ∉ d.wholeDigits ∧ '.' ∉ d.fractionDigits := by
  constructor
  · intro member
    exact absurd (isDigit_of_mem (List.mem_append_left _ member)) (by decide)
  · intro member
    exact absurd (isDigit_of_mem (List.mem_append_right d.wholeDigits member)) (by decide)

theorem digitsValue_filled (d : Decimal) (places : Nat) :
    digitsValue (d.filled places) = d.coefficient := by
  rw [filled, digitsValue_append, digitsValue_zeros, digitsValue_toDigits, Nat.mul_zero,
    Nat.zero_add]

theorem length_filled (d : Decimal) (places : Nat) : places + 1 ≤ (d.filled places).length := by
  simp only [filled, List.length_append, List.length_replicate]
  omega

theorem digits_value (d : Decimal) :
    (digitsValue (d.wholeDigits ++ d.fractionDigits) : ℚ) / 10 ^ d.fractionDigits.length =
      d.coefficient * (10 : ℚ) ^ d.exponent := by
  obtain ⟨negative, coefficient, exponent⟩ := d
  cases exponent with
  | ofNat zeros =>
      simp only [wholeDigits, fractionDigits, List.append_nil, List.length_nil, pow_zero, div_one,
        digitsValue_append, digitsValue_zeros, digitsValue_toDigits, List.length_replicate]
      push_cast
      simp [mul_comm]
  | negSucc fewer =>
      have length := length_filled ⟨negative, coefficient, .negSucc fewer⟩ (fewer + 1)
      simp only [wholeDigits, fractionDigits, List.take_append_drop, digitsValue_filled,
        List.length_drop, zpow_negSucc]
      rw [Nat.sub_sub_self (by omega), div_eq_mul_inv]

end Decimal

/-- **The canonical text** of a decimal other than zero: a sign, the digits before the point and
the trimmed digits after it. -/
theorem decimalChars_eq {d : Decimal} (nonzero : d.coefficient ≠ 0) :
    decimalChars d = (if d.negative then ['-'] else []) ++
      written d.wholeDigits (trimmed d.fractionDigits) := by
  obtain ⟨point, point'⟩ := d.point_not_mem
  obtain ⟨negative, coefficient, exponent⟩ := d
  have unsigned : '.' ∉ if negative = true then ['-'] else [] := by cases negative <;> decide
  cases exponent with
  | ofNat zeros =>
      have absent : '.' ∉ (if negative = true then ['-'] else []) ++
          fixedDigits ⟨negative, coefficient, .ofNat zeros⟩ := fun member =>
        (List.mem_append.mp member).elim unsigned point
      simp only [decimalChars, nonzero, if_false, if_neg absent]
      rfl
  | negSucc fewer =>
      have pointed : (if negative = true then ['-'] else []) ++
          fixedDigits ⟨negative, coefficient, .negSucc fewer⟩ =
          ((if negative = true then ['-'] else []) ++
            Decimal.wholeDigits ⟨negative, coefficient, .negSucc fewer⟩) ++
            '.' :: Decimal.fractionDigits ⟨negative, coefficient, .negSucc fewer⟩ :=
        (List.append_assoc ..).symm
      have present : '.' ∈ (if negative = true then ['-'] else []) ++
          fixedDigits ⟨negative, coefficient, .negSucc fewer⟩ := by
        rw [pointed]
        exact List.mem_append_right _ List.mem_cons_self
      have trims := trim_point (fun member => (List.mem_append.mp member).elim unsigned point)
        point'
      rw [← pointed] at trims
      simp only [decimalChars, nonzero, if_false, if_pos present]
      refine Eq.trans trims ?_
      unfold written
      split_ifs <;> simp

/-! ## Texts and values -/

/-- The number that a text with a sign writes. -/
def signedNumberOf : List Char → ℚ
  | '-' :: text => -numberOf text
  | text => numberOf text

theorem written_head {c : Char} {rest fraction : List Char} :
    ∃ later, written (c :: rest) fraction = c :: later := by
  unfold written
  split_ifs
  · exact ⟨rest, rfl⟩
  · exact ⟨rest ++ '.' :: fraction, rfl⟩

theorem written_unsigned {whole fraction : List Char} (nonempty : whole ≠ [])
    (digits : ∀ c ∈ whole, c.isDigit = true) :
    ∃ c later, written whole fraction = c :: later ∧ c ≠ '-' := by
  obtain ⟨c, rest, rfl⟩ := List.exists_cons_of_ne_nil nonempty
  obtain ⟨later, shape⟩ := @written_head c rest fraction
  refine ⟨c, later, shape, ?_⟩
  rintro rfl
  exact absurd (digits '-' List.mem_cons_self) (by decide)

theorem signedNumberOf_written {whole fraction : List Char} (nonempty : whole ≠ [])
    (digits : ∀ c ∈ whole, c.isDigit = true) :
    signedNumberOf (written whole fraction) = numberOf (written whole fraction) := by
  obtain ⟨c, later, shape, unsigned⟩ := @written_unsigned whole fraction nonempty digits
  rw [shape, signedNumberOf]
  intro text same
  exact unsigned (List.cons.inj same).1

theorem Decimal.wholeDigits_ne_nil (d : Decimal) : d.wholeDigits ≠ [] := by
  obtain ⟨negative, coefficient, exponent⟩ := d
  cases exponent with
  | ofNat zeros => simp [wholeDigits]
  | negSucc fewer =>
      have length := length_filled ⟨negative, coefficient, .negSucc fewer⟩ (fewer + 1)
      refine List.ne_nil_of_length_pos ?_
      simp only [wholeDigits, List.length_take]
      omega

/-- **The canonical text writes the value.** -/
theorem signedNumberOf_decimalChars (d : Decimal) : signedNumberOf (decimalChars d) = d.value := by
  by_cases zero : d.coefficient = 0
  · have nothing : numberOf ['0'] = 0 := by
      simp [numberOf, wholePart, fractionPart, digitsValue, Nat.ofDigitChars]
    rw [Decimal.value_eq_zero_iff.mpr zero, decimalChars, if_pos zero]
    exact nothing
  · have whole : ∀ c ∈ d.wholeDigits, c.isDigit = true := fun c member =>
      Decimal.isDigit_of_mem (List.mem_append_left _ member)
    have number := (numberOf_written_trimmed d.point_not_mem.1).trans d.digits_value
    rw [decimalChars_eq zero]
    cases sign : d.negative with
    | false =>
        rw [if_neg (by decide), List.nil_append,
          signedNumberOf_written d.wholeDigits_ne_nil whole, number]
        simp [Decimal.value, sign]
    | true =>
        rw [if_pos rfl, List.singleton_append, signedNumberOf, number]
        simp [Decimal.value, sign]

/-- A zero at the end of the coefficient counts as a higher exponent. -/
theorem decimalChars_shift {negative : Bool} {coefficient : Nat} (nonzero : coefficient ≠ 0)
    (exponent : Int) :
    decimalChars ⟨negative, 10 * coefficient, exponent⟩ =
      decimalChars ⟨negative, coefficient, exponent + 1⟩ := by
  have digits : Nat.toDigits 10 (10 * coefficient) = Nat.toDigits 10 coefficient ++ ['0'] := by
    rw [← Nat.toDigits_zero 10]
    exact (Nat.toDigits_append_toDigits (Nat.succ_lt_succ (Nat.succ_pos 8)) (Nat.pos_of_ne_zero nonzero)
      (Nat.succ_pos 9)).symm
  have filled : ∀ places, Decimal.filled ⟨negative, 10 * coefficient, exponent⟩ (places + 1) =
      Decimal.filled ⟨negative, coefficient, exponent + 1⟩ places ++ ['0'] := by
    intro places
    simp only [Decimal.filled, digits, List.length_append, List.length_singleton,
      Nat.add_sub_add_right, List.append_assoc]
  have tenfold : 10 * coefficient ≠ 0 := by omega
  rw [decimalChars_eq (by exact tenfold), decimalChars_eq (by exact nonzero)]
  refine congrArg _ ?_
  cases exponent with
  | ofNat zeros =>
      have next : Int.ofNat zeros + 1 = .ofNat (zeros + 1) := rfl
      simp only [next, Decimal.wholeDigits, Decimal.fractionDigits, digits, List.append_assoc,
        List.singleton_append, List.replicate_succ]
  | negSucc fewer =>
      cases fewer with
      | zero =>
          have length : 0 < (Nat.toDigits 10 coefficient).length := Nat.length_toDigits_pos
          have single : Decimal.filled ⟨negative, coefficient, Int.negSucc 0 + 1⟩ 0 =
              Nat.toDigits 10 coefficient := by
            rw [Decimal.filled, Nat.sub_eq_zero_of_le (by exact length)]
            rfl
          simp only [Decimal.wholeDigits, Decimal.fractionDigits, filled, single]
          rw [List.length_append, List.length_singleton, Nat.add_sub_cancel, List.take_left,
            List.drop_left, ← List.nil_append ['0'], trimmed_concat_zero]
          exact congrArg (fun whole => written whole (trimmed [])) (List.append_nil _).symm
      | succ fewer =>
          have next : Int.negSucc (fewer + 1) + 1 = .negSucc fewer := rfl
          have places := Decimal.length_filled
            ⟨negative, coefficient, Int.negSucc (fewer + 1) + 1⟩ (fewer + 1)
          simp only [Decimal.wholeDigits, Decimal.fractionDigits, filled, List.length_append,
            List.length_singleton, Nat.add_sub_add_right]
          rw [List.take_append_of_le_length (by omega), List.drop_append_of_le_length (by omega),
            trimmed_concat_zero]
          rfl

/-- Zeros at the end of the coefficient count as a higher exponent. -/
theorem decimalChars_shifts {negative : Bool} {coefficient : Nat} (nonzero : coefficient ≠ 0)
    (exponent : Int) (zeros : Nat) :
    decimalChars ⟨negative, 10 ^ zeros * coefficient, exponent⟩ =
      decimalChars ⟨negative, coefficient, exponent + zeros⟩ := by
  induction zeros generalizing exponent with
  | zero => simp
  | succ zeros ih =>
      have positive : 0 < 10 ^ zeros * coefficient :=
        Nat.mul_pos (Nat.pow_pos (by decide)) (Nat.pos_of_ne_zero nonzero)
      rw [Nat.pow_succ', Nat.mul_assoc, decimalChars_shift positive.ne', ih]
      congr 2
      push_cast
      ring

theorem decimalChars_of_value {a b : Decimal} (nonzero : b.coefficient ≠ 0)
    (less : a.exponent ≤ b.exponent) (same : a.value = b.value) :
    decimalChars a = decimalChars b := by
  obtain ⟨negative, coefficient, exponent⟩ := a
  obtain ⟨negative', coefficient', exponent'⟩ := b
  obtain ⟨zeros, rfl⟩ := Int.le.dest less
  have positive : (0 : ℚ) < 10 ^ zeros * coefficient' := by
    have : 0 < coefficient' := Nat.pos_of_ne_zero nonzero
    positivity
  have nonneg : (0 : ℚ) ≤ coefficient := Nat.cast_nonneg _
  have power : (10 : ℚ) ^ exponent ≠ 0 := zpow_ne_zero _ (by norm_num)
  have cancelled : (if negative then (-1 : ℚ) else 1) * coefficient =
      (if negative' then (-1 : ℚ) else 1) * (10 ^ zeros * coefficient') := by
    refine mul_right_cancel₀ power (same.trans ?_)
    simp only [Decimal.value]
    rw [zpow_add₀ (by norm_num), zpow_natCast]
    ring
  have signs : negative = negative' := by
    cases negative <;> cases negative' <;>
      simp only [if_true, Bool.false_eq_true, if_false, one_mul, neg_one_mul] at cancelled <;>
      first | rfl | linarith
  subst signs
  have coefficients : coefficient = 10 ^ zeros * coefficient' := by
    have equal : (coefficient : ℚ) = 10 ^ zeros * coefficient' := by
      refine mul_left_cancel₀ ?_ cancelled
      split_ifs <;> norm_num
    exact_mod_cast equal
  rw [coefficients]
  exact decimalChars_shifts nonzero exponent zeros

/-- **The canonical text is the text of the value.** -/
theorem decimalText_eq_iff {a b : Decimal} : decimalText a = decimalText b ↔ a.value = b.value := by
  constructor
  · intro same
    have chars : decimalChars a = decimalChars b := String.ofList_injective same
    rw [← signedNumberOf_decimalChars, chars, signedNumberOf_decimalChars]
  · intro same
    refine congrArg String.ofList ?_
    by_cases zero : a.coefficient = 0
    · have zero' : b.coefficient = 0 :=
        Decimal.value_eq_zero_iff.mp (same ▸ Decimal.value_eq_zero_iff.mpr zero)
      rw [decimalChars, decimalChars, if_pos zero, if_pos zero']
    · have nonzero : b.coefficient ≠ 0 := fun zero' =>
        zero (Decimal.value_eq_zero_iff.mp (same ▸ Decimal.value_eq_zero_iff.mpr zero'))
      rcases le_total a.exponent b.exponent with less | less
      · exact decimalChars_of_value nonzero less same
      · exact (decimalChars_of_value zero less same.symm).symm

/-! ## Reading a text back -/

namespace Decimal

/-- The decimal of digits with at most one point among them. -/
def ofDigits (negative : Bool) (text : List Char) : Option Decimal :=
  let digits := wholePart text ++ fractionPart text
  if digits.isEmpty = false ∧ digits.all Char.isDigit = true then
    some ⟨negative, digitsValue digits, -(fractionPart text).length⟩
  else none

/-- The decimal that a fixed-point text writes: digits with at most one point, after an optional
sign. Any other text is refused. -/
def ofText (text : String) : Option Decimal :=
  match text.toList with
  | '-' :: digits => ofDigits true digits
  | digits => ofDigits false digits

theorem ofDigits_value {negative : Bool} {text : List Char} {d : Decimal}
    (accepted : ofDigits negative text = some d) :
    d.value = (if negative then -1 else 1) * numberOf text := by
  unfold ofDigits at accepted
  dsimp only at accepted
  split_ifs at accepted
  obtain rfl := Option.some.inj accepted
  rw [value, numberOf, zpow_neg, zpow_natCast, mul_assoc, div_eq_mul_inv]

theorem ofText_value {text : String} {d : Decimal} (accepted : ofText text = some d) :
    d.value = signedNumberOf text.toList := by
  unfold ofText at accepted
  unfold signedNumberOf
  split at accepted
  · next digits shape =>
      rw [ofDigits_value accepted, if_pos rfl, neg_one_mul]
  · next unsigned =>
      rw [ofDigits_value accepted, if_neg (by decide), one_mul]

theorem ofDigits_written {whole fraction : List Char} (negative : Bool) (nonempty : whole ≠ [])
    (only : ∀ c ∈ whole ++ fraction, c.isDigit = true) :
    ∃ d, ofDigits negative (written whole fraction) = some d := by
  have point : '.' ∉ whole := fun member =>
    absurd (only _ (List.mem_append_left _ member)) (by decide)
  rw [ofDigits, wholePart_written point, fractionPart_written point]
  refine ⟨_, if_pos ⟨?_, List.all_eq_true.mpr only⟩⟩
  rw [List.isEmpty_eq_false_iff]
  exact List.append_ne_nil_of_left_ne_nil nonempty _

/-- Digits with a point and a sign are accepted. -/
theorem ofText_written {whole fraction : List Char} (negative : Bool) (nonempty : whole ≠ [])
    (only : ∀ c ∈ whole ++ fraction, c.isDigit = true) :
    ∃ d, ofText (String.ofList ((if negative then ['-'] else []) ++ written whole fraction)) =
      some d := by
  obtain ⟨c, later, shape, unsigned⟩ := @written_unsigned whole fraction nonempty fun c member =>
    only c (List.mem_append_left _ member)
  have accepted := ofDigits_written negative nonempty only
  rw [ofText, String.toList_ofList]
  rw [shape] at accepted ⊢
  cases negative with
  | true => exact accepted
  | false => simpa [unsigned] using accepted

/-- **The canonical text is read back** as a decimal of the same value. -/
theorem ofText_decimalText (d : Decimal) :
    ∃ d' : Decimal, ofText (decimalText d) = some d' ∧ d'.value = d.value := by
  have accepted : ∃ d', ofText (decimalText d) = some d' := by
    by_cases zero : d.coefficient = 0
    · rw [decimalText, decimalChars, if_pos zero]
      exact @ofText_written ['0'] [] false (by simp) (by simp)
    · rw [decimalText, decimalChars_eq zero]
      refine ofText_written d.negative d.wholeDigits_ne_nil fun c member => ?_
      refine @isDigit_of_mem d c ?_
      rcases List.mem_append.mp member with front | back
      · exact List.mem_append_left _ front
      · exact List.mem_append_right _ (trimmed_subset back)
  obtain ⟨d', accepted⟩ := accepted
  refine ⟨d', accepted, ?_⟩
  rw [ofText_value accepted, decimalText, String.toList_ofList, signedNumberOf_decimalChars]

end Decimal

/-- **The canonical text is exact**: it is read back as a decimal of the same value, and two
decimals have one text exactly when they have one value. -/
theorem decimalText_exact (a b : Decimal) :
    (∃ a' : Decimal, Decimal.ofText (decimalText a) = some a' ∧ a'.value = a.value) ∧
      (decimalText a = decimalText b ↔ a.value = b.value) :=
  ⟨a.ofText_decimalText, decimalText_eq_iff⟩

end PowerMarket
