import Mathlib.Logic.Basic
import Mathlib.Data.List.Basic

/-!
# Errors that leak

A program announces the errors by which it fails. An error that leaks is another one. What leaks
from a sequence of steps leaks from the first of them that does not succeed (`leaks_bind`), so
that the failures of a program are found step by step.
-/

set_option autoImplicit false

namespace PowerMarket.Library

variable {ε ε' : Type} {α β : Type} {announced : ε → Prop} {step : Except ε α}
  {rest : α → Except ε β}

/-- A step that fails with an error that is not announced. -/
def Leaks (announced : ε → Prop) (step : Except ε α) : Prop :=
  ∃ e, step = .error e ∧ ¬ announced e

theorem not_leaks_iff : ¬ Leaks announced step ↔ ∀ e, step = .error e → announced e := by
  simp only [Leaks, not_exists, not_and, not_not]

theorem not_leaks_ok (a : α) : ¬ Leaks announced (.ok a) := by
  rintro ⟨_, impossible, _⟩
  cases impossible

theorem leaks_error {e : ε} :
    Leaks announced (.error e : Except ε α) ↔ ¬ announced e := by
  constructor
  · rintro ⟨_, same, foreign⟩
    rwa [← Except.error.inj same] at foreign
  · exact fun foreign => ⟨e, rfl, foreign⟩

theorem not_leaks_error {e : ε} (isAnnounced : announced e) :
    ¬ Leaks announced (.error e : Except ε α) :=
  fun leaks => leaks_error.mp leaks isAnnounced

/-- **An error leaks from the first step that does not succeed.** -/
theorem leaks_bind : Leaks announced (step >>= rest) ↔
    Leaks announced step ∨ ∃ a, step = .ok a ∧ Leaks announced (rest a) := by
  cases step with
  | error e =>
      have failed : (Except.error e >>= rest : Except ε β) = .error e := rfl
      rw [failed, leaks_error, leaks_error]
      exact ⟨Or.inl, fun either => either.elim id fun later => by
        obtain ⟨_, impossible, _⟩ := later
        cases impossible⟩
  | ok a =>
      have passed : (Except.ok a >>= rest) = rest a := rfl
      rw [passed]
      constructor
      · exact fun later => .inr ⟨a, rfl, later⟩
      · rintro (impossible | ⟨_, same, later⟩)
        · exact absurd impossible (not_leaks_ok a)
        · rwa [Except.ok.inj same]

theorem leaks_mapError {announced' : ε' → Prop} {translate : ε → ε'}
    (keeps : ∀ e, announced' (translate e) ↔ announced e) :
    Leaks announced' (step.mapError translate) ↔ Leaks announced step := by
  cases step with
  | ok a => exact iff_of_false (not_leaks_ok a) (not_leaks_ok a)
  | error e => rw [Except.mapError, leaks_error, leaks_error, keeps]

theorem not_leaks_forM {check : α → Except ε Unit} {items : List α}
    (each : ∀ item ∈ items, ¬ Leaks announced (check item)) :
    ¬ Leaks announced (items.forM check) := by
  induction items with
  | nil => exact not_leaks_ok ()
  | cons item items ih =>
      have steps : (item :: items).forM check = (check item >>= fun _ => items.forM check) := rfl
      rw [List.forall_mem_cons] at each
      rw [steps, leaks_bind]
      rintro (first | ⟨_, _, later⟩)
      · exact each.1 first
      · exact ih each.2 later

end PowerMarket.Library
