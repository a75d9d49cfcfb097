import PowerMarket.Identity
import PowerMarket.Library.CivilCalendar
import Mathlib.Order.Lattice

/-!
# Dates and instants

A date is its ordinal in the calendar of the years 1 to 9999. An instant is a count of
microseconds in which the day number is the ordinal of its date in universal time, so that it
lies in the same years. `utcText` is the canonical text of an instant, which determines it
(`utcText_injective`).
-/

set_option autoImplicit false

namespace PowerMarket

open Library

/-- The ordinal of the last date. -/
def maxOrdinal : Nat := 3652059

/-- A calendar date. -/
structure Date where
  ordinal : Nat
  positive : 0 < ordinal
  bounded : ordinal ≤ maxOrdinal
  deriving DecidableEq

theorem Date.ordinal_injective : Function.Injective Date.ordinal := by
  rintro ⟨a, _, _⟩ ⟨b, _, _⟩ same
  cases same
  rfl

/-- An instant in universal time. -/
structure UtcTime where
  micros : Nat
  positive : dayMicros ≤ micros
  bounded : micros < (maxOrdinal + 1) * dayMicros
  deriving DecidableEq

theorem UtcTime.micros_injective : Function.Injective UtcTime.micros := by
  rintro ⟨a, _, _⟩ ⟨b, _, _⟩ same
  cases same
  rfl

instance : LinearOrder UtcTime := LinearOrder.lift' UtcTime.micros UtcTime.micros_injective

theorem UtcTime.le_iff {a b : UtcTime} : a ≤ b ↔ a.micros ≤ b.micros := Iff.rfl

/-! ## Texts -/

/-- A date as year, month and day, separated by hyphens. -/
def dateChars (ordinal : Nat) : List Char :=
  let date := CivilCalendar.ofOrdinal ordinal
  CivilCalendar.padded 4 date.year ++ '-' :: (CivilCalendar.padded 2 date.month ++
    '-' :: CivilCalendar.padded 2 date.day)

/-- The text of a date. -/
def Date.text (date : Date) : String := String.ofList (dateChars date.ordinal)

/-- A time of day with six digits of fraction. -/
def clockChars (micros : Nat) : List Char :=
  CivilCalendar.padded 2 (micros / 3600000000) ++
    ':' :: (CivilCalendar.padded 2 (micros / 60000000 % 60) ++
    ':' :: (CivilCalendar.padded 2 (micros / 1000000 % 60) ++
    '.' :: CivilCalendar.padded 6 (micros % 1000000)))

/-- Canonical timestamp encoding with a fixed microsecond precision. -/
def utcText (time : UtcTime) : String :=
  String.ofList (dateChars (time.micros / dayMicros) ++
    'T' :: (clockChars (time.micros % dayMicros) ++ ['Z']))

theorem dateChars_length (ordinal : Nat) : (dateChars ordinal).length = 10 := by
  simp [dateChars]

theorem clockChars_length (micros : Nat) : (clockChars micros).length = 15 := by
  simp [clockChars]

theorem dateChars_injective {a b : Nat} (ha : 0 < a) (hb : 0 < b) (ba : a ≤ maxOrdinal)
    (bb : b ≤ maxOrdinal) (same : dateChars a = dateChars b) : a = b := by
  obtain ⟨yearA, monthA, dayA⟩ := CivilCalendar.ofOrdinal_fits ha ba
  obtain ⟨yearB, monthB, dayB⟩ := CivilCalendar.ofOrdinal_fits hb bb
  obtain ⟨years, rest⟩ := List.append_inj same (by simp)
  obtain ⟨months, days⟩ := List.append_inj (List.cons.inj rest).2 (by simp)
  refine CivilCalendar.ofOrdinal_injective ha hb ?_
  have year := CivilCalendar.padded_injective yearA yearB years
  have month := CivilCalendar.padded_injective monthA monthB months
  have day := CivilCalendar.padded_injective dayA dayB (List.cons.inj days).2
  cases eA : CivilCalendar.ofOrdinal a
  cases eB : CivilCalendar.ofOrdinal b
  simp only [eA, eB] at year month day
  rw [year, month, day]

theorem clockChars_injective {a b : Nat} (ha : a < dayMicros) (hb : b < dayMicros)
    (same : clockChars a = clockChars b) : a = b := by
  unfold dayMicros at ha hb
  obtain ⟨hours, rest⟩ := List.append_inj same (by simp)
  obtain ⟨minutes, rest⟩ := List.append_inj (List.cons.inj rest).2 (by simp)
  obtain ⟨seconds, fraction⟩ := List.append_inj (List.cons.inj rest).2 (by simp)
  have hour := CivilCalendar.padded_injective (by omega) (by omega) hours
  have minute := CivilCalendar.padded_injective (by omega) (by omega) minutes
  have second := CivilCalendar.padded_injective (by omega) (by omega) seconds
  have micro := CivilCalendar.padded_injective (by omega) (by omega) (List.cons.inj fraction).2
  omega

/-- **The canonical text determines the instant.** -/
theorem utcText_injective : Function.Injective utcText := by
  intro a b same
  have chars := congrArg String.toList same
  rw [utcText, utcText, String.toList_ofList, String.toList_ofList] at chars
  obtain ⟨dates, rest⟩ := List.append_inj chars (by simp [dateChars_length])
  obtain ⟨clocks, _⟩ := List.append_inj (List.cons.inj rest).2 (by simp [clockChars_length])
  have positive : 0 < dayMicros := by decide
  have day : a.micros / dayMicros = b.micros / dayMicros :=
    dateChars_injective (Nat.div_pos a.positive positive) (Nat.div_pos b.positive positive)
      (Nat.le_of_lt_succ (Nat.div_lt_of_lt_mul (by rw [Nat.mul_comm]; exact a.bounded)))
      (Nat.le_of_lt_succ (Nat.div_lt_of_lt_mul (by rw [Nat.mul_comm]; exact b.bounded))) dates
  have time : a.micros % dayMicros = b.micros % dayMicros :=
    clockChars_injective (Nat.mod_lt _ positive) (Nat.mod_lt _ positive) clocks
  apply UtcTime.micros_injective
  calc a.micros = dayMicros * (a.micros / dayMicros) + a.micros % dayMicros :=
        (Nat.div_add_mod ..).symm
    _ = dayMicros * (b.micros / dayMicros) + b.micros % dayMicros := by rw [day, time]
    _ = b.micros := Nat.div_add_mod ..

end PowerMarket
