import Mathlib.Algebra.BigOperators.Group.List.Basic
import Mathlib.Algebra.Order.Field.Basic
import Mathlib.Data.List.Chain
import Mathlib.Tactic.Linarith
import Mathlib.Tactic.Ring

/-!
# Accumulated drift

A chain of steps takes a level from a value before each step to a value after it, by a gain that it
states. When every step is off its stated gain by at most a tolerance, the whole chain is off the
sum of its gains by at most as many tolerances as it has steps (`drift_le`).
-/

set_option autoImplicit false

namespace PowerMarket.Library

universe u v

variable {K : Type u} [Field K] [LinearOrder K] [IsStrictOrderedRing K] {α : Type v}

/-- **The drift of a chain of steps** is at most its length times the tolerance of a step. -/
theorem drift_le {before after : α → K} (gain : α → K) {tol : K} {steps : List α}
    (chain : steps.IsChain fun a b => after a = before b)
    (close : ∀ step ∈ steps, |before step + gain step - after step| ≤ tol) {first last : α}
    (head : steps.head? = some first) (final : steps.getLast? = some last) :
    |before first + (steps.map gain).sum - after last| ≤ steps.length * tol := by
  induction steps generalizing first with
  | nil => cases head
  | cons step steps ih =>
      obtain rfl := Option.some.inj head
      have here := close step List.mem_cons_self
      cases steps with
      | nil =>
          obtain rfl := Option.some.inj final
          simpa using here
      | cons next steps =>
          obtain ⟨joined, chain⟩ := List.isChain_cons_cons.mp chain
          have rest := ih chain (fun step member => close step (List.mem_cons_of_mem _ member)) rfl
            (by simpa using final)
          have split : before step + ((step :: next :: steps).map gain).sum - after last =
              (before step + gain step - after step) +
                (before next + ((next :: steps).map gain).sum - after last) := by
            rw [List.map_cons, List.sum_cons, joined]
            ring
          calc |before step + ((step :: next :: steps).map gain).sum - after last|
              ≤ |before step + gain step - after step| +
                |before next + ((next :: steps).map gain).sum - after last| := by
                rw [split]
                exact abs_add_le _ _
            _ ≤ tol + (next :: steps).length * tol := add_le_add here rest
            _ = (step :: next :: steps).length * tol := by
                simp only [List.length_cons]
                push_cast
                ring

end PowerMarket.Library
