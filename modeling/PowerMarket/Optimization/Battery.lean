import PowerMarket.Optimization.Energy
import Mathlib.Algebra.Order.Round
import Mathlib.Data.Rat.Floor

/-!
# The optimization model

The program that is stated to the solver: its variables with their shapes and attributes, its
constraints as vector expressions, and its objective. `Satisfies` reads the constraints with a
tolerance. A point that satisfies them exactly makes a dispatch that the checker accepts, and an
accepted dispatch satisfies each of them up to the tolerance of the checker
(`checker_agrees`).
-/

set_option autoImplicit false

namespace PowerMarket.Optimization

/-! ## Vectors -/

/-- A vector whose entries are all one number. -/
def constant (n : ℕ) (value : ℚ) : List ℚ := List.replicate n value

/-! ## Constraints -/

/-- A constraint on vectors, entry by entry. -/
inductive Constraint where
  | le (lhs rhs : List ℚ)
  | eq (lhs rhs : List ℚ)

/-- A constraint holds up to a tolerance in every entry. -/
def Constraint.Holds (tol : ℚ) : Constraint → Prop
  | le lhs rhs => List.Forall₂ (fun a b => a ≤ b + tol) lhs rhs
  | eq lhs rhs => List.Forall₂ (fun a b => |a - b| ≤ tol) lhs rhs

/-- Values of the variables. -/
structure Point where
  charge : List ℚ
  discharge : List ℚ
  soc : List ℚ
  mode : List ℚ

/-- The constraints that are stated to the solver. -/
def constraints (n : ℕ) (config : BatteryConfig) (x : Point) : List Constraint :=
  let dt := config.intervalHours
  [.le (constant (n + 1) 0) x.soc,
    .le x.soc (constant (n + 1) config.energyCapacityMwh),
    .le x.charge (x.mode.map (config.maxChargeMw * ·)),
    .le x.discharge (x.mode.map fun z => config.maxDischargeMw * (1 - z)),
    .eq [x.soc.headD 0] [config.initialSocMwh],
    .eq [x.soc.getLastD 0] [config.terminalSocMwh],
    .eq x.soc.tail (List.zipWith (· - ·)
      (List.zipWith (· + ·) x.soc.dropLast
        (x.charge.map fun c => config.chargeEfficiency * c * dt))
      (x.discharge.map fun d => d * dt / config.dischargeEfficiency))]

/-- A point of the right shape, with the attributes of its variables, that satisfies the
constraints up to a tolerance. -/
structure Satisfies (tol : ℚ) (n : ℕ) (config : BatteryConfig) (x : Point) : Prop where
  charge_length : x.charge.length = n
  discharge_length : x.discharge.length = n
  soc_length : x.soc.length = n + 1
  mode_length : x.mode.length = n
  charge_nonneg : (Constraint.le (constant n 0) x.charge).Holds tol
  discharge_nonneg : (Constraint.le (constant n 0) x.discharge).Holds tol
  boolean : ∀ z ∈ x.mode, |z| ≤ tol ∨ |z - 1| ≤ tol
  holds : ∀ constraint ∈ constraints n config x, constraint.Holds tol

/-- The objective at a point: the cash flow less the cost. -/
def objectiveAt (prices : List PriceInterval) (config : BatteryConfig) (x : Point) : ℚ :=
  let dt := config.intervalHours
  let priceVector := prices.map fun interval => interval.price.value
  let cashFlow := (List.zipWith (· * ·) priceVector
    (List.zipWith (· - ·) x.discharge x.charge)).sum * dt
  let cost := config.throughputCostUsdPerMwh *
    (List.zipWith (· + ·) x.charge x.discharge).sum * dt
  cashFlow - cost

/-! ## Solving -/

/-- What the solver returns. -/
structure Solution where
  status : String
  value : ℚ
  point : Option Point
  solveSeconds : Option ℚ
  mipGap : Option ℚ
  mipNodeCount : Option ℤ

/-- The horizons that are solved: at most 25 intervals, each starting where the one before it
ends. -/
def checkHorizon (intervals : List PriceInterval) : Except Exn Unit :=
  if ¬ (1 ≤ intervals.length ∧ intervals.length ≤ 25) then
    .error (.new .validationError "optimizer horizon must contain 1 through 25 hourly intervals")
  else if ∃ pair ∈ intervals.zip intervals.tail, pair.1.interval.stop ≠ pair.2.interval.start then
    .error (.new .validationError "optimizer intervals must be sorted, unique and continuous")
  else .ok ()

/-- The dispatch that a point makes: the money is recomputed from its vectors, and its modes are
rounded once they are near to integers. -/
def dispatchOf (prices : List PriceInterval) (config : BatteryConfig) (solution : Solution)
    (x : Point) : Except Exn DispatchResult :=
  if ∃ z ∈ x.mode, physicalTolerance < |z - round z| then
    .error (optimizationError "solver returned a nonintegral operating mode")
  else .ok {
    solver := "HIGHS"
    status := solution.status
    objectiveUsd := solution.value
    grossArbitrageValueUsd := grossValue prices config x.charge x.discharge
    throughputCostUsd := throughputCost config x.charge x.discharge
    solveSeconds := solution.solveSeconds
    mipGap := solution.mipGap
    mipNodeCount := solution.mipNodeCount
    chargeMw := x.charge
    dischargeMw := x.discharge
    socMwh := x.soc
    chargingMode := x.mode.map round }

/-- Solve a horizon with a solver. Only an optimal solution that passes the independent check is
returned. -/
def solveBatteryDispatch (solver : List PriceInterval → BatteryConfig → ℚ → Except Exn Solution)
    (prices : List PriceInterval) (config : BatteryConfig) (timeLimitSeconds : ℚ) :
    Except Exn DispatchResult := do
  checkHorizon prices
  if ¬ (0 < timeLimitSeconds ∧ timeLimitSeconds ≤ 60) then
    .error (.new .validationError "solver time limit must be in (0, 60] seconds")
  else do
    let solution ← solver prices config timeLimitSeconds
    if solution.status ≠ "optimal" then
      .error (optimizationError ("HiGHS returned " ++ solution.status ++ "; no dispatch accepted"))
    else match solution.point with
      | none => .error (optimizationError "optimal solution lacks dispatch vectors")
      | some x => do
        let result ← dispatchOf prices config solution x
        validateDispatch prices config result
        return result

/-! ## The objective -/

theorem sum_zipWith_add {xs ys : List ℚ} (length : xs.length = ys.length) :
    (List.zipWith (· + ·) xs ys).sum = (xs ++ ys).sum := by
  induction xs generalizing ys with
  | nil =>
      rw [List.length_nil] at length
      rw [List.length_eq_zero_iff.mp length.symm]
      rfl
  | cons x xs ih =>
      cases ys with
      | nil => cases length
      | cons y ys =>
          have rest := ih (Nat.succ.inj length)
          simp only [List.zipWith_cons_cons, List.sum_cons, List.cons_append, List.sum_append]
            at rest ⊢
          rw [rest]
          ring

/-- The value of a horizon as a product of vectors. -/
theorem grossValue_eq (config : BatteryConfig) {prices : List PriceInterval}
    {charge discharge : List ℚ} (charge_length : charge.length = prices.length)
    (discharge_length : discharge.length = prices.length) :
    grossValue prices config charge discharge =
      (List.zipWith (· * ·) (prices.map fun interval => interval.price.value)
        (List.zipWith (· - ·) discharge charge)).sum * config.intervalHours := by
  unfold grossValue
  induction prices generalizing charge discharge with
  | nil => simp
  | cons price prices ih =>
      cases charge with
      | nil => cases charge_length
      | cons c charge =>
          cases discharge with
          | nil => cases discharge_length
          | cons d discharge =>
              have rest := ih (Nat.succ.inj charge_length) (Nat.succ.inj discharge_length)
              simp only [List.zip_cons_cons, List.map_cons, List.sum_cons, List.zipWith_cons_cons,
                rest]
              ring

/-- **The objective of the model** is the value less the cost that the checker recomputes. -/
theorem objectiveAt_eq {prices : List PriceInterval} (config : BatteryConfig) {x : Point}
    (charge_length : x.charge.length = prices.length)
    (discharge_length : x.discharge.length = prices.length) :
    objectiveAt prices config x = grossValue prices config x.charge x.discharge -
      throughputCost config x.charge x.discharge := by
  rw [grossValue_eq config charge_length discharge_length, throughputCost,
    ← sum_zipWith_add (charge_length.trans discharge_length.symm), objectiveAt]
  ring

/-! ## Constraints, interval by interval -/

theorem forall₂_constant {related : ℚ → ℚ → Prop} {bound : ℚ} {n : ℕ} {xs : List ℚ}
    (length : xs.length = n) :
    List.Forall₂ related (constant n bound) xs ↔ ∀ x ∈ xs, related bound x := by
  subst length
  induction xs with
  | nil => simp [constant]
  | cons x xs ih =>
      rw [constant, List.length_cons, List.replicate_succ, List.forall₂_cons, List.forall_mem_cons]
      exact and_congr_right fun _ => ih

theorem holds_constant_le {tol bound : ℚ} {n : ℕ} {xs : List ℚ} (length : xs.length = n) :
    (Constraint.le (constant n bound) xs).Holds tol ↔ ∀ x ∈ xs, bound ≤ x + tol :=
  forall₂_constant length

theorem holds_le_constant {tol bound : ℚ} {n : ℕ} {xs : List ℚ} (length : xs.length = n) :
    (Constraint.le xs (constant n bound)).Holds tol ↔ ∀ x ∈ xs, x ≤ bound + tol :=
  ⟨fun holds => (forall₂_constant length).mp holds.flip,
    fun each => ((forall₂_constant length).mpr each).flip⟩

theorem holds_le_columns {tol : ℚ} {steps : List Step} {f g : Step → ℚ} :
    (Constraint.le (steps.map f) (steps.map g)).Holds tol ↔
      ∀ step ∈ steps, f step ≤ g step + tol := by
  rw [Constraint.Holds, List.forall₂_map_left_iff, List.forall₂_map_right_iff, List.forall₂_same]

theorem holds_eq_columns {tol : ℚ} {steps : List Step} {f g : Step → ℚ} :
    (Constraint.eq (steps.map f) (steps.map g)).Holds tol ↔
      ∀ step ∈ steps, |f step - g step| ≤ tol := by
  rw [Constraint.Holds, List.forall₂_map_left_iff, List.forall₂_map_right_iff, List.forall₂_same]

theorem holds_eq_single {tol a b : ℚ} : (Constraint.eq [a] [b]).Holds tol ↔ |a - b| ≤ tol := by
  rw [Constraint.Holds, List.forall₂_cons]
  exact and_iff_left .nil

theorem zipWith_columns {α : Type} (combine : ℚ → ℚ → ℚ) (rows : List α) (f g : α → ℚ) :
    List.zipWith combine (rows.map f) (rows.map g) = rows.map fun row => combine (f row) (g row) := by
  induction rows with
  | nil => rfl
  | cons row rows ih => exact congrArg (combine (f row) (g row) :: ·) ih

/-- The constraints of an interval, up to a tolerance. -/
structure StepHolds (tol : ℚ) (config : BatteryConfig) (step : Step) : Prop where
  charge_nonneg : 0 ≤ step.charge + tol
  discharge_nonneg : 0 ≤ step.discharge + tol
  boolean : |(step.mode : ℚ)| ≤ tol ∨ |(step.mode : ℚ) - 1| ≤ tol
  charge_le : step.charge ≤ config.maxChargeMw * step.mode + tol
  discharge_le : step.discharge ≤ config.maxDischargeMw * (1 - step.mode) + tol
  transition : |step.after - expectedSoc config step| ≤ tol

/-- The values of the variables in a dispatch. -/
def DispatchResult.point (result : DispatchResult) : Point :=
  ⟨result.chargeMw, result.dischargeMw, result.socMwh, result.chargingMode.map Int.cast⟩

/-- **The constraints at a dispatch** bound its stored energy and hold in each of its intervals. -/
theorem DispatchResult.satisfies_iff {tol : ℚ} {n : ℕ} {config : BatteryConfig}
    {result : DispatchResult} (charge_length : result.chargeMw.length = n)
    (discharge_length : result.dischargeMw.length = n)
    (soc_length : result.socMwh.length = n + 1) (mode_length : result.chargingMode.length = n) :
    Satisfies tol n config result.point ↔
      (∀ value ∈ result.socMwh, 0 ≤ value + tol ∧ value ≤ config.energyCapacityMwh + tol) ∧
      |result.socMwh.headD 0 - config.initialSocMwh| ≤ tol ∧
      |result.socMwh.getLastD 0 - config.terminalSocMwh| ≤ tol ∧
      ∀ step ∈ result.steps, StepHolds tol config step := by
  have charges : result.chargeMw = result.steps.map Step.charge :=
    (stepsOf_charge charge_length discharge_length mode_length soc_length).symm
  have discharges : result.dischargeMw = result.steps.map Step.discharge :=
    (stepsOf_discharge charge_length discharge_length mode_length soc_length).symm
  have modes : result.chargingMode = result.steps.map Step.mode :=
    (stepsOf_mode charge_length discharge_length mode_length soc_length).symm
  have befores : result.socMwh.dropLast = result.steps.map Step.before :=
    (stepsOf_before charge_length discharge_length mode_length soc_length).symm
  have afters : result.socMwh.tail = result.steps.map Step.after :=
    (stepsOf_after charge_length discharge_length mode_length soc_length).symm
  have mode : result.point.mode = result.steps.map fun step => (step.mode : ℚ) := by
    rw [DispatchResult.point, modes, List.map_map]
    rfl
  -- Each vector is a column of the steps, and so is each side of a constraint.
  have charge_nonneg : (Constraint.le (constant n 0) result.chargeMw).Holds tol ↔
      ∀ step ∈ result.steps, 0 ≤ step.charge + tol := by
    rw [holds_constant_le charge_length, charges, List.forall_mem_map]
  have discharge_nonneg : (Constraint.le (constant n 0) result.dischargeMw).Holds tol ↔
      ∀ step ∈ result.steps, 0 ≤ step.discharge + tol := by
    rw [holds_constant_le discharge_length, discharges, List.forall_mem_map]
  have boolean : (∀ z ∈ result.point.mode, |z| ≤ tol ∨ |z - 1| ≤ tol) ↔
      ∀ step ∈ result.steps, |(step.mode : ℚ)| ≤ tol ∨ |(step.mode : ℚ) - 1| ≤ tol := by
    rw [mode, List.forall_mem_map]
  have charge_le : (Constraint.le result.chargeMw
      (result.point.mode.map (config.maxChargeMw * ·))).Holds tol ↔
        ∀ step ∈ result.steps, step.charge ≤ config.maxChargeMw * step.mode + tol := by
    rw [charges, mode, List.map_map, holds_le_columns]
    rfl
  have discharge_le : (Constraint.le result.dischargeMw
      (result.point.mode.map fun z => config.maxDischargeMw * (1 - z))).Holds tol ↔
        ∀ step ∈ result.steps,
          step.discharge ≤ config.maxDischargeMw * (1 - step.mode) + tol := by
    rw [discharges, mode, List.map_map, holds_le_columns]
    rfl
  have transition : (Constraint.eq result.socMwh.tail (List.zipWith (· - ·)
      (List.zipWith (· + ·) result.socMwh.dropLast
        (result.chargeMw.map fun c => config.chargeEfficiency * c * config.intervalHours))
      (result.dischargeMw.map fun d =>
        d * config.intervalHours / config.dischargeEfficiency))).Holds tol ↔
        ∀ step ∈ result.steps, |step.after - expectedSoc config step| ≤ tol := by
    rw [afters, befores, charges, discharges, List.map_map, List.map_map, zipWith_columns,
      zipWith_columns, holds_eq_columns]
    rfl
  constructor
  · intro satisfies
    have holds := satisfies.holds
    simp only [constraints, List.forall_mem_cons, List.not_mem_nil, false_imp_iff, implies_true,
      and_true] at holds
    obtain ⟨low, high, charges_le, discharges_le, first, last, transitions⟩ := holds
    have low := (holds_constant_le soc_length).mp low
    have high := (holds_le_constant soc_length).mp high
    exact ⟨fun value member => ⟨low value member, high value member⟩, holds_eq_single.mp first,
      holds_eq_single.mp last, fun step member =>
        ⟨charge_nonneg.mp satisfies.charge_nonneg step member,
          discharge_nonneg.mp satisfies.discharge_nonneg step member,
          boolean.mp satisfies.boolean step member, charge_le.mp charges_le step member,
          discharge_le.mp discharges_le step member, transition.mp transitions step member⟩⟩
  · rintro ⟨stored, first, last, steps⟩
    refine ⟨charge_length, discharge_length, soc_length, ?_, ?_, ?_, ?_, ?_⟩
    · rw [DispatchResult.point, List.length_map, mode_length]
    · exact charge_nonneg.mpr fun step member => (steps step member).charge_nonneg
    · exact discharge_nonneg.mpr fun step member => (steps step member).discharge_nonneg
    · exact boolean.mpr fun step member => (steps step member).boolean
    · simp only [constraints, List.forall_mem_cons, List.not_mem_nil, false_imp_iff, implies_true,
        and_true]
      exact ⟨(holds_constant_le soc_length).mpr fun value member => (stored value member).1,
        (holds_le_constant soc_length).mpr fun value member => (stored value member).2,
        charge_le.mpr fun step member => (steps step member).charge_le,
        discharge_le.mpr fun step member => (steps step member).discharge_le,
        holds_eq_single.mpr first, holds_eq_single.mpr last,
        transition.mpr fun step member => (steps step member).transition⟩

/-! ## Agreement -/

theorem StepHolds.accepted {config : BatteryConfig} {step : Step}
    (holds : StepHolds 0 config step) : StepAccepted config step := by
  have tolerance := physicalTolerance_pos.le
  have binary : step.mode = 0 ∨ step.mode = 1 := by
    refine holds.boolean.imp (fun zero => ?_) (fun one => ?_)
    · exact Int.cast_eq_zero.mp (abs_nonpos_iff.mp zero)
    · exact Int.cast_eq_one.mp (sub_eq_zero.mp (abs_nonpos_iff.mp one))
  have transition := holds.transition
  rw [abs_sub_comm] at transition
  exact ⟨binary, by linarith [holds.charge_nonneg], by linarith [holds.discharge_nonneg],
    by linarith [holds.charge_le], by linarith [holds.discharge_le], transition.trans tolerance⟩

theorem StepAccepted.holds {config : BatteryConfig} {step : Step}
    (accepted : StepAccepted config step) : StepHolds physicalTolerance config step := by
  have tolerance := physicalTolerance_pos.le
  refine ⟨by linarith [accepted.charge_nonneg], by linarith [accepted.discharge_nonneg], ?_,
    accepted.charge_le, accepted.discharge_le, ?_⟩
  · refine accepted.binary.imp (fun zero => ?_) (fun one => ?_)
    · rw [zero, Int.cast_zero, abs_zero]
      exact tolerance
    · rw [one, Int.cast_one, sub_self, abs_zero]
      exact tolerance
  · rw [abs_sub_comm]
    exact accepted.reconciles

theorem IsClose.refl (amount : ℚ) : IsClose amount amount := by
  rw [IsClose, sub_self, abs_zero]
  exact le_max_of_le_right (by decide +kernel)

/-- A point whose modes are integral makes a dispatch with its vectors. -/
theorem dispatchOf_eq_ok {prices : List PriceInterval} {config : BatteryConfig}
    {solution : Solution} {x : Point} (boolean : ∀ z ∈ x.mode, |z| ≤ 0 ∨ |z - 1| ≤ 0) :
    ∃ result, dispatchOf prices config solution x = .ok result ∧ result.point = x ∧
      result.objectiveUsd = solution.value ∧
      result.grossArbitrageValueUsd = grossValue prices config x.charge x.discharge ∧
      result.throughputCostUsd = throughputCost config x.charge x.discharge := by
  have integral : ∀ z ∈ x.mode, ((round z : ℤ) : ℚ) = z := by
    intro z member
    rcases boolean z member with zero | one
    · rw [abs_nonpos_iff.mp zero, round_zero, Int.cast_zero]
    · rw [sub_eq_zero.mp (abs_nonpos_iff.mp one), round_one, Int.cast_one]
  have near : ¬ ∃ z ∈ x.mode, physicalTolerance < |z - round z| := by
    rintro ⟨z, member, far⟩
    rw [integral z member, sub_self, abs_zero] at far
    exact far.not_gt physicalTolerance_pos
  rw [dispatchOf, if_neg near]
  refine ⟨_, rfl, ?_, rfl, rfl, rfl⟩
  have modes : (x.mode.map round).map (Int.cast : ℤ → ℚ) = x.mode := by
    rw [List.map_map]
    exact (List.map_congr_left integral).trans (List.map_id _)
  rw [DispatchResult.point, modes]

/-- A point that satisfies the constraints makes a dispatch that is accepted. -/
theorem Satisfies.accepted {prices : List PriceInterval} {config : BatteryConfig}
    {result : DispatchResult} (satisfies : Satisfies 0 prices.length config result.point)
    (objective : result.objectiveUsd = objectiveAt prices config result.point)
    (gross : result.grossArbitrageValueUsd =
      grossValue prices config result.chargeMw result.dischargeMw)
    (cost : result.throughputCostUsd =
      throughputCost config result.chargeMw result.dischargeMw) :
    Accepted prices config result := by
  have tolerance := physicalTolerance_pos.le
  have mode_length : result.chargingMode.length = prices.length := by
    rw [← satisfies.mode_length, DispatchResult.point, List.length_map]
  obtain ⟨stored, first, last, steps⟩ := (DispatchResult.satisfies_iff satisfies.charge_length
    satisfies.discharge_length satisfies.soc_length mode_length).mp satisfies
  have value := objectiveAt_eq config satisfies.charge_length satisfies.discharge_length
  refine ⟨satisfies.charge_length, satisfies.discharge_length, satisfies.soc_length, mode_length,
    fun value member => ?_, first.trans tolerance, last.trans tolerance,
    fun step member => (steps step member).accepted, ?_, ?_, ?_⟩
  · obtain ⟨low, high⟩ := stored value member
    constructor <;> linarith
  · rw [gross]
    exact .refl _
  · rw [cost]
    exact .refl _
  · rw [objective, value]
    exact .refl _

theorem Accepted.satisfies {prices : List PriceInterval} {config : BatteryConfig}
    {result : DispatchResult} (accepted : Accepted prices config result) :
    Satisfies physicalTolerance prices.length config result.point := by
  rw [DispatchResult.satisfies_iff accepted.charge_length accepted.discharge_length
    accepted.soc_length accepted.mode_length]
  refine ⟨fun value member => ?_, accepted.initial, accepted.terminal,
    fun step member => (accepted.steps step member).holds⟩
  obtain ⟨low, high⟩ := accepted.stored value member
  exact ⟨by linarith, high⟩

/-- A point that satisfies the constraints, with its objective, makes a dispatch that passes the
check. -/
theorem Satisfies.dispatch {prices : List PriceInterval} {config : BatteryConfig} {x : Point}
    (satisfies : Satisfies 0 prices.length config x) {solution : Solution}
    (objective : solution.value = objectiveAt prices config x) :
    ∃ result, dispatchOf prices config solution x = .ok result ∧ result.point = x ∧
      validateDispatch prices config result = .ok () := by
  obtain ⟨result, made, point, value, gross, cost⟩ := dispatchOf_eq_ok satisfies.boolean
  subst point
  exact ⟨result, made, rfl, validateDispatch_eq_ok.mpr
    (satisfies.accepted (value.trans objective) gross cost)⟩

/-- **A solved horizon.** When the solver returns an optimal point that satisfies the constraints,
with its objective, the horizon has a dispatch. -/
theorem solveBatteryDispatch_eq_ok
    {solver : List PriceInterval → BatteryConfig → ℚ → Except Exn Solution}
    {prices : List PriceInterval} {config : BatteryConfig} {limit : ℚ} {solution : Solution}
    {x : Point} (horizon : checkHorizon prices = .ok ()) (time : 0 < limit ∧ limit ≤ 60)
    (solved : solver prices config limit = .ok solution) (optimal : solution.status = "optimal")
    (vectors : solution.point = some x) (satisfies : Satisfies 0 prices.length config x)
    (objective : solution.value = objectiveAt prices config x) :
    ∃ result, solveBatteryDispatch solver prices config limit = .ok result ∧ result.point = x := by
  obtain ⟨result, made, point, accepted⟩ := satisfies.dispatch objective
  refine ⟨result, ?_, point⟩
  refine bind_eq_ok.mpr ⟨(), horizon, ?_⟩
  rw [if_neg (not_not.mpr time)]
  refine bind_eq_ok.mpr ⟨solution, solved, ?_⟩
  rw [if_neg (not_not.mpr optimal), vectors]
  exact bind_eq_ok.mpr ⟨result, made, bind_eq_ok.mpr ⟨(), accepted, rfl⟩⟩

/-- **The checker agrees with the model.** A point that satisfies the constraints that are stated
to the solver makes a dispatch that is accepted. An accepted dispatch satisfies each of them up to
the tolerance, and its objective is close to its value less its cost. -/
theorem checker_agrees (prices : List PriceInterval) (config : BatteryConfig) :
    (∀ (solution : Solution) (x : Point), Satisfies 0 prices.length config x →
      solution.value = objectiveAt prices config x →
      ∃ result, dispatchOf prices config solution x = .ok result ∧ result.point = x ∧
        validateDispatch prices config result = .ok ()) ∧
    ∀ result, validateDispatch prices config result = .ok () →
      Satisfies physicalTolerance prices.length config result.point ∧
      |result.objectiveUsd - (grossValue prices config result.chargeMw result.dischargeMw -
          throughputCost config result.chargeMw result.dischargeMw)| ≤
        max (1 / 100000) (1 / 100000000 * max |result.objectiveUsd|
          |grossValue prices config result.chargeMw result.dischargeMw -
            throughputCost config result.chargeMw result.dischargeMw|) := by
  constructor
  · intro solution x satisfies objective
    exact satisfies.dispatch objective
  · intro result passes
    have accepted := validateDispatch_eq_ok.mp passes
    have objective := accepted.objective
    rw [IsClose, max_comm] at objective
    exact ⟨accepted.satisfies, objective⟩

/-- The dispatch of two hours, as its solver returned it. -/
def sampleSolution : Solution := ⟨"optimal", 27 / 2, some sampleResult.point, none, none, none⟩

theorem sampleResult_satisfies : Satisfies 0 2 sampleConfig sampleResult.point := by
  refine (@DispatchResult.satisfies_iff 0 2 sampleConfig sampleResult rfl rfl rfl rfl).mpr ?_
  refine ⟨by decide +kernel, by decide +kernel, by decide +kernel, ?_⟩
  have steps : sampleResult.steps = [⟨1, 0, 1, 2, 3⟩, ⟨0, 1 / 2, 0, 3, 2⟩] := rfl
  rw [steps, List.forall_mem_cons, List.forall_mem_singleton]
  constructor <;> constructor <;> decide +kernel

/-- The dispatch of two hours agrees with the model. -/
theorem checker_agrees_sample :
    (∃ result, dispatchOf [sampleInterval 0, sampleInterval 1] sampleConfig sampleSolution
        sampleResult.point = .ok result ∧ result.point = sampleResult.point ∧
      validateDispatch [sampleInterval 0, sampleInterval 1] sampleConfig result = .ok ()) ∧
    Satisfies physicalTolerance 2 sampleConfig sampleResult.point := by
  obtain ⟨solved, accepted⟩ := checker_agrees [sampleInterval 0, sampleInterval 1] sampleConfig
  exact ⟨solved sampleSolution sampleResult.point sampleResult_satisfies (by decide +kernel),
    (accepted sampleResult sampleResult_accepted).1⟩

end PowerMarket.Optimization
