import Mathlib.Data.List.Basic
import Mathlib.Data.Nat.Basic
import Mathlib.Tactic.Ring
import Mathlib.Tactic.SplitIfs

/-!
# The proleptic Gregorian calendar

Days are counted from the first day of year one, which has ordinal one. `ofOrdinal` finds the
year, month and day of an ordinal by splitting it into cycles of four hundred, one hundred,
four and one years, and `toOrdinal` counts the days back (`toOrdinal_ofOrdinal`), so
different days have different dates (`ofOrdinal_injective`). Numbers are written with a fixed
count of decimal digits, which determines them below the matching power of ten
(`padded_injective`).
-/

set_option autoImplicit false

namespace PowerMarket.Library.CivilCalendar

/-! ## Fixed-width decimals -/

/-- The decimal digits of a number, padded with zeros to a fixed width. -/
def padded : Nat → Nat → List Char
  | 0, _ => []
  | width + 1, n => padded width (n / 10) ++ [Char.ofNat (48 + n % 10)]

theorem digit_injective : ∀ a < 10, ∀ b < 10, Char.ofNat (48 + a) = Char.ofNat (48 + b) →
    a = b := by decide

@[simp] theorem length_padded (width n : Nat) : (padded width n).length = width := by
  induction width generalizing n with
  | zero => rfl
  | succ width ih => simp [padded, ih]

theorem padded_injective {width : Nat} {a b : Nat} (ha : a < 10 ^ width) (hb : b < 10 ^ width)
    (same : padded width a = padded width b) : a = b := by
  induction width generalizing a b with
  | zero =>
      simp only [Nat.pow_zero, Nat.lt_one_iff] at ha hb
      rw [ha, hb]
  | succ width ih =>
      rw [Nat.pow_succ] at ha hb
      obtain ⟨front, last⟩ := List.append_inj same (by simp)
      have quotients := ih (Nat.div_lt_of_lt_mul (by omega)) (Nat.div_lt_of_lt_mul (by omega)) front
      have digits := digit_injective (a % 10) (Nat.mod_lt _ (by decide)) (b % 10)
        (Nat.mod_lt _ (by decide)) (List.singleton_inj.mp last)
      omega

/-! ## Dates -/

/-- Whether a year has a leap day. -/
def isLeap (year : Nat) : Bool :=
  year % 4 = 0 ∧ (year % 100 ≠ 0 ∨ year % 400 = 0)

/-- The days before the first day of a year. -/
def daysBeforeYear (year : Nat) : Nat :=
  (year - 1) * 365 + (year - 1) / 4 - (year - 1) / 100 + (year - 1) / 400

/-- The days of a common year before the first day of each month. -/
def daysBeforeMonthTable : List Nat :=
  [0, 0, 31, 59, 90, 120, 151, 181, 212, 243, 273, 304, 334]

/-- The days of each month of a common year. -/
def daysInMonthTable : List Nat := [0, 31, 28, 31, 30, 31, 30, 31, 31, 30, 31, 30, 31]

/-- The days of a year before the first day of a month. -/
def daysBeforeMonth (leap : Bool) (month : Nat) : Nat :=
  daysBeforeMonthTable.getD month 0 + if 2 < month ∧ leap then 1 else 0

/-- The days of a month. -/
def daysInMonth (leap : Bool) (month : Nat) : Nat :=
  daysInMonthTable.getD month 0 + if month = 2 ∧ leap then 1 else 0

/-- A calendar date. -/
structure Civil where
  year : Nat
  month : Nat
  day : Nat
  deriving DecidableEq, Repr

/-- The ordinal of a date. -/
def toOrdinal (date : Civil) : Nat :=
  daysBeforeYear date.year + daysBeforeMonth (isLeap date.year) date.month + date.day

/-- The month and day at a day of the year, counted from zero. The estimate of the month is
exact or one too large. -/
def monthAndDay (leap : Bool) (n : Nat) : Nat × Nat :=
  let month := (n + 50) / 32
  let preceding := daysBeforeMonth leap month
  if n < preceding then
    (month - 1, n - (preceding - daysInMonth leap (month - 1)) + 1)
  else (month, n - preceding + 1)

/-- The date of an ordinal. The last day of a cycle that ends in a leap day is the only one
that does not fall into a year of the split. -/
def ofOrdinal (ordinal : Nat) : Civil :=
  let n := ordinal - 1
  let n400 := n / 146097
  let n100 := n % 146097 / 36524
  let n4 := n % 146097 % 36524 / 1461
  let n1 := n % 146097 % 36524 % 1461 / 365
  let year := n400 * 400 + 1 + (n100 * 100 + n4 * 4 + n1)
  if n1 = 4 ∨ n100 = 4 then ⟨year - 1, 12, 31⟩
  else
    let leap : Bool := n1 = 3 ∧ (n4 ≠ 24 ∨ n100 = 3)
    let date := monthAndDay leap (n % 146097 % 36524 % 1461 % 365)
    ⟨year, date.1, date.2⟩

theorem monthAndDay_sound : ∀ leap : Bool, ∀ n < 365,
    daysBeforeMonth leap (monthAndDay leap n).1 + (monthAndDay leap n).2 = n + 1 ∧
      (monthAndDay leap n).1 < 100 ∧ (monthAndDay leap n).2 < 100 := by
  decide +kernel

theorem daysBeforeYear_split {a b c d : Nat} (hb : b < 4) (hc : c < 25) (hd : d < 4) :
    daysBeforeYear (a * 400 + 1 + (b * 100 + c * 4 + d)) =
      a * 146097 + b * 36524 + c * 1461 + d * 365 := by
  unfold daysBeforeYear
  omega

/-- A year of the split is a leap year when it closes a cycle of four that is not the last of
a century, or closes four centuries. -/
theorem isLeap_split {a b c d : Nat} (hb : b < 4) (hc : c < 25) (hd : d < 4) :
    isLeap (a * 400 + 1 + (b * 100 + c * 4 + d)) = decide (d = 3 ∧ (c ≠ 24 ∨ b = 3)) := by
  unfold isLeap
  congr 1
  apply propext
  omega

theorem toOrdinal_lastDay {a b c : Nat} (hb : b < 4) (hc : c < 25) (leap : c ≠ 24 ∨ b = 3) :
    toOrdinal ⟨a * 400 + 1 + (b * 100 + c * 4 + 3), 12, 31⟩ =
      a * 146097 + b * 36524 + c * 1461 + 1461 := by
  have isLeapYear : isLeap (a * 400 + 1 + (b * 100 + c * 4 + 3)) = true := by
    rw [isLeap_split hb hc (by decide)]
    simpa using leap
  have beforeDecember : daysBeforeMonth true 12 = 335 := rfl
  unfold toOrdinal
  simp only
  rw [isLeapYear, beforeDecember, daysBeforeYear_split hb hc (by decide)]

/-- **Counting the days of the date of an ordinal gives the ordinal back.** -/
theorem toOrdinal_ofOrdinal {ordinal : Nat} (positive : 0 < ordinal) :
    toOrdinal (ofOrdinal ordinal) = ordinal := by
  have hb : (ordinal - 1) % 146097 / 36524 ≤ 4 := by omega
  have hc : (ordinal - 1) % 146097 % 36524 / 1461 < 25 := by omega
  have hd : (ordinal - 1) % 146097 % 36524 % 1461 / 365 ≤ 4 := by omega
  unfold ofOrdinal
  simp only
  split_ifs with last
  · by_cases hundredth : (ordinal - 1) % 146097 / 36524 = 4
    · have year : (ordinal - 1) / 146097 * 400 + 1 + ((ordinal - 1) % 146097 / 36524 * 100 +
          (ordinal - 1) % 146097 % 36524 / 1461 * 4 +
          (ordinal - 1) % 146097 % 36524 % 1461 / 365) - 1 =
          (ordinal - 1) / 146097 * 400 + 1 + (3 * 100 + 24 * 4 + 3) := by omega
      rw [year, toOrdinal_lastDay (b := 3) (c := 24) (by decide) (by decide) (.inr rfl)]
      omega
    · have year : (ordinal - 1) / 146097 * 400 + 1 + ((ordinal - 1) % 146097 / 36524 * 100 +
          (ordinal - 1) % 146097 % 36524 / 1461 * 4 +
          (ordinal - 1) % 146097 % 36524 % 1461 / 365) - 1 =
          (ordinal - 1) / 146097 * 400 + 1 + ((ordinal - 1) % 146097 / 36524 * 100 +
            (ordinal - 1) % 146097 % 36524 / 1461 * 4 + 3) := by omega
      rw [year, toOrdinal_lastDay (by omega) hc (.inl (by omega))]
      omega
  · have sound := (monthAndDay_sound
      (decide ((ordinal - 1) % 146097 % 36524 % 1461 / 365 = 3 ∧
        ((ordinal - 1) % 146097 % 36524 / 1461 ≠ 24 ∨ (ordinal - 1) % 146097 / 36524 = 3)))
      ((ordinal - 1) % 146097 % 36524 % 1461 % 365) (Nat.mod_lt _ (by decide))).1
    unfold toOrdinal
    simp only
    rw [daysBeforeYear_split (by omega) hc (by omega), isLeap_split (by omega) hc (by omega),
      Nat.add_assoc, sound]
    omega

theorem ofOrdinal_injective {a b : Nat} (ha : 0 < a) (hb : 0 < b)
    (same : ofOrdinal a = ofOrdinal b) : a = b := by
  rw [← toOrdinal_ofOrdinal ha, same, toOrdinal_ofOrdinal hb]

theorem ofOrdinal_fits {ordinal : Nat} (positive : 0 < ordinal) (small : ordinal ≤ 3652059) :
    (ofOrdinal ordinal).year < 10 ^ 4 ∧ (ofOrdinal ordinal).month < 10 ^ 2 ∧
      (ofOrdinal ordinal).day < 10 ^ 2 := by
  unfold ofOrdinal
  simp only
  split_ifs with last
  · simp only
    omega
  · have sound := (monthAndDay_sound
      (decide ((ordinal - 1) % 146097 % 36524 % 1461 / 365 = 3 ∧
        ((ordinal - 1) % 146097 % 36524 / 1461 ≠ 24 ∨ (ordinal - 1) % 146097 / 36524 = 3)))
      ((ordinal - 1) % 146097 % 36524 % 1461 % 365) (Nat.mod_lt _ (by decide))).2
    exact ⟨by simp only; omega, sound.1, sound.2⟩

example : ofOrdinal 738886 = ⟨2024, 1, 1⟩ := by decide +kernel

end PowerMarket.Library.CivilCalendar
