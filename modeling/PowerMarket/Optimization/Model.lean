import PowerMarket.Backtesting.Inputs
import Mathlib.Algebra.BigOperators.Group.List.Basic

/-!
# Batteries and dispatches

The numerical contracts of a bounded hourly horizon, read over the exact rationals. A
`BatteryConfig` carries what its constructor checks. `validateDispatch` reconciles a dispatch with
its prices and its battery step by step; `validateDispatch_eq_ok` says what it accepts.
-/

set_option autoImplicit false

namespace PowerMarket.Optimization

/-- The absolute tolerance for power and energy. -/
def physicalTolerance : ℚ := 1 / 1000000

/-- The absolute tolerance for money. -/
def objectiveTolerance : ℚ := 1 / 100000

theorem physicalTolerance_pos : 0 < physicalTolerance := by decide +kernel

/-- A dispatch that failed its contract. -/
def optimizationError (message : String) : Exn :=
  ⟨⟨.powerMarketDataError, "OptimizationError", message⟩, []⟩

/-! ## Batteries -/

/-- A battery and its operation over one horizon. -/
structure BatteryConfig where
  energyCapacityMwh : ℚ
  maxChargeMw : ℚ
  maxDischargeMw : ℚ
  chargeEfficiency : ℚ
  dischargeEfficiency : ℚ
  initialSocMwh : ℚ
  terminalSocMwh : ℚ
  throughputCostUsdPerMwh : ℚ
  intervalHours : ℚ
  capacity : 0 < energyCapacityMwh
  power : 0 ≤ maxChargeMw ∧ 0 ≤ maxDischargeMw
  charging : 0 < chargeEfficiency ∧ chargeEfficiency ≤ 1
  discharging : 0 < dischargeEfficiency ∧ dischargeEfficiency ≤ 1
  initial : 0 ≤ initialSocMwh ∧ initialSocMwh ≤ energyCapacityMwh
  terminal : 0 ≤ terminalSocMwh ∧ terminalSocMwh ≤ energyCapacityMwh
  cost : 0 ≤ throughputCostUsdPerMwh
  hourly : intervalHours = 1

/-- Check the parts of a battery. -/
def BatteryConfig.create (energyCapacityMwh maxChargeMw maxDischargeMw chargeEfficiency
    dischargeEfficiency initialSocMwh terminalSocMwh throughputCostUsdPerMwh intervalHours : ℚ) :
    Except Exn BatteryConfig :=
  if capacity : ¬ 0 < energyCapacityMwh then
    .error (.new .validationError "energy capacity must be positive MWh")
  else if power : ¬ (0 ≤ maxChargeMw ∧ 0 ≤ maxDischargeMw) then
    .error (.new .validationError "power limits must be nonnegative MW")
  else if efficiencies : ¬ ((0 < chargeEfficiency ∧ chargeEfficiency ≤ 1) ∧
      0 < dischargeEfficiency ∧ dischargeEfficiency ≤ 1) then
    .error (.new .validationError "efficiencies must be in (0, 1]")
  else if socs : ¬ ((0 ≤ initialSocMwh ∧ initialSocMwh ≤ energyCapacityMwh) ∧
      0 ≤ terminalSocMwh ∧ terminalSocMwh ≤ energyCapacityMwh) then
    .error (.new .validationError "initial and terminal SOC must be inside energy capacity")
  else if cost : throughputCostUsdPerMwh < 0 then
    .error (.new .validationError "throughput cost must be nonnegative")
  else if hourly : intervalHours ≠ 1 then
    .error (.new .validationError "only one-hour intervals are supported")
  else
    .ok {
      energyCapacityMwh, maxChargeMw, maxDischargeMw, chargeEfficiency, dischargeEfficiency
      initialSocMwh, terminalSocMwh, throughputCostUsdPerMwh, intervalHours
      capacity := not_not.mp capacity
      power := not_not.mp power
      charging := (not_not.mp efficiencies).1
      discharging := (not_not.mp efficiencies).2
      initial := (not_not.mp socs).1
      terminal := (not_not.mp socs).2
      cost := not_lt.mp cost
      hourly := not_not.mp hourly }

/-- A battery of four hours. -/
def sampleConfig : BatteryConfig where
  energyCapacityMwh := 4
  maxChargeMw := 1
  maxDischargeMw := 1
  chargeEfficiency := 1
  dischargeEfficiency := 1 / 2
  initialSocMwh := 2
  terminalSocMwh := 2
  throughputCostUsdPerMwh := 1
  intervalHours := 1
  capacity := by norm_num
  power := by norm_num
  charging := by norm_num
  discharging := by norm_num
  initial := by norm_num
  terminal := by norm_num
  cost := by norm_num
  hourly := rfl

/-! ## Dispatches -/

/-- What a solver returned for a horizon. -/
structure DispatchResult where
  solver : String
  status : String
  objectiveUsd : ℚ
  grossArbitrageValueUsd : ℚ
  throughputCostUsd : ℚ
  solveSeconds : Option ℚ
  mipGap : Option ℚ
  mipNodeCount : Option ℤ
  chargeMw : List ℚ
  dischargeMw : List ℚ
  socMwh : List ℚ
  chargingMode : List ℤ

/-- One interval of a dispatch, with the stored energy before and after it. -/
structure Step where
  charge : ℚ
  discharge : ℚ
  mode : ℤ
  before : ℚ
  after : ℚ

/-- The intervals of vectors of power and mode, with the stored energy at their boundaries. -/
def stepsOf (charge discharge : List ℚ) (mode : List ℤ) (soc : List ℚ) : List Step :=
  ((charge.zip (discharge.zip mode)).zip (soc.zip soc.tail)).map fun row =>
    ⟨row.1.1, row.1.2.1, row.1.2.2, row.2.1, row.2.2⟩

/-- The intervals of a dispatch. -/
def DispatchResult.steps (result : DispatchResult) : List Step :=
  stepsOf result.chargeMw result.dischargeMw result.chargingMode result.socMwh

/-- The stored energy that an interval leads to. -/
def expectedSoc (config : BatteryConfig) (step : Step) : ℚ :=
  step.before + config.chargeEfficiency * step.charge * config.intervalHours -
    step.discharge * config.intervalHours / config.dischargeEfficiency

/-- Check one interval. -/
def checkStep (config : BatteryConfig) (step : Step) : Except Exn Unit :=
  let tol := physicalTolerance
  if step.mode ≠ 0 ∧ step.mode ≠ 1 then .error (optimizationError "operating mode must be binary")
  else if step.charge < -tol ∨ step.discharge < -tol ∨
      config.maxChargeMw * step.mode + tol < step.charge ∨
      config.maxDischargeMw * (1 - step.mode) + tol < step.discharge then
    .error (optimizationError "dispatch violates power/exclusivity bounds")
  else if tol < |expectedSoc config step - step.after| then
    .error (optimizationError "SOC transition does not reconcile")
  else .ok ()

/-- The value of the energy that a horizon sells less the value of the energy that it buys. -/
def grossValue (prices : List PriceInterval) (config : BatteryConfig) (charge discharge : List ℚ) :
    ℚ :=
  ((prices.zip (charge.zip discharge)).map fun row =>
    row.1.price.value * (row.2.2 - row.2.1) * config.intervalHours).sum

/-- The cost of the energy that passes through the grid side. -/
def throughputCost (config : BatteryConfig) (charge discharge : List ℚ) : ℚ :=
  (charge ++ discharge).sum * config.intervalHours * config.throughputCostUsdPerMwh

/-- Two amounts of money are close. -/
def IsClose (actual expected : ℚ) : Prop :=
  |actual - expected| ≤ max (1 / 100000000 * max |actual| |expected|) objectiveTolerance

instance (actual expected : ℚ) : Decidable (IsClose actual expected) := Rat.instDecidableLe _ _

/-- Check a dispatch against its prices and its battery. -/
def validateDispatch (prices : List PriceInterval) (config : BatteryConfig)
    (result : DispatchResult) : Except Exn Unit :=
  let n := prices.length
  let tol := physicalTolerance
  if ¬ (result.chargeMw.length = n ∧ result.dischargeMw.length = n ∧
      result.socMwh.length = n + 1 ∧ result.chargingMode.length = n) then
    .error (optimizationError "dispatch vector lengths do not match the horizon")
  else if ∃ value ∈ result.socMwh, value < -tol ∨ config.energyCapacityMwh + tol < value then
    .error (optimizationError "SOC violates energy bounds")
  else if tol < |result.socMwh.headD 0 - config.initialSocMwh| ∨
      tol < |result.socMwh.getLastD 0 - config.terminalSocMwh| then
    .error (optimizationError "dispatch violates initial/terminal SOC")
  else do
    result.steps.forM (checkStep config)
    let gross := grossValue prices config result.chargeMw result.dischargeMw
    let cost := throughputCost config result.chargeMw result.dischargeMw
    [(result.grossArbitrageValueUsd, gross), (result.throughputCostUsd, cost),
      (result.objectiveUsd, gross - cost)].forM fun pair =>
        if IsClose pair.1 pair.2 then .ok ()
        else .error (optimizationError "dispatch objective does not reconcile")

/-! ## What is accepted -/

/-- What the check of an interval establishes. -/
structure StepAccepted (config : BatteryConfig) (step : Step) : Prop where
  binary : step.mode = 0 ∨ step.mode = 1
  charge_nonneg : -physicalTolerance ≤ step.charge
  discharge_nonneg : -physicalTolerance ≤ step.discharge
  charge_le : step.charge ≤ config.maxChargeMw * step.mode + physicalTolerance
  discharge_le : step.discharge ≤ config.maxDischargeMw * (1 - step.mode) + physicalTolerance
  reconciles : |expectedSoc config step - step.after| ≤ physicalTolerance

/-- What the check of a dispatch establishes. -/
structure Accepted (prices : List PriceInterval) (config : BatteryConfig)
    (result : DispatchResult) : Prop where
  charge_length : result.chargeMw.length = prices.length
  discharge_length : result.dischargeMw.length = prices.length
  soc_length : result.socMwh.length = prices.length + 1
  mode_length : result.chargingMode.length = prices.length
  stored : ∀ value ∈ result.socMwh,
    -physicalTolerance ≤ value ∧ value ≤ config.energyCapacityMwh + physicalTolerance
  initial : |result.socMwh.headD 0 - config.initialSocMwh| ≤ physicalTolerance
  terminal : |result.socMwh.getLastD 0 - config.terminalSocMwh| ≤ physicalTolerance
  steps : ∀ step ∈ result.steps, StepAccepted config step
  gross : IsClose result.grossArbitrageValueUsd
    (grossValue prices config result.chargeMw result.dischargeMw)
  cost : IsClose result.throughputCostUsd
    (throughputCost config result.chargeMw result.dischargeMw)
  objective : IsClose result.objectiveUsd
    (grossValue prices config result.chargeMw result.dischargeMw -
      throughputCost config result.chargeMw result.dischargeMw)

theorem checkStep_eq_ok {config : BatteryConfig} {step : Step} :
    checkStep config step = .ok () ↔ StepAccepted config step := by
  unfold checkStep
  dsimp only
  constructor
  · intro passes
    split_ifs at passes with mode bounds transition
    push Not at bounds
    exact ⟨by tauto, bounds.1, bounds.2.1, bounds.2.2.1, bounds.2.2.2, not_lt.mp transition⟩
  · intro accepted
    have mode : ¬ (step.mode ≠ 0 ∧ step.mode ≠ 1) := by
      have := accepted.binary
      tauto
    rw [if_neg mode, if_neg, if_neg (not_lt.mpr accepted.reconciles)]
    push Not
    exact ⟨accepted.charge_nonneg, accepted.discharge_nonneg, accepted.charge_le,
      accepted.discharge_le⟩

/-- **What the checker accepts.** -/
theorem validateDispatch_eq_ok {prices : List PriceInterval} {config : BatteryConfig}
    {result : DispatchResult} :
    validateDispatch prices config result = .ok () ↔ Accepted prices config result := by
  have closes : ∀ pairs : List (ℚ × ℚ), (pairs.forM fun pair =>
      if IsClose pair.1 pair.2 then .ok ()
      else .error (optimizationError "dispatch objective does not reconcile")) =
        (Except.ok () : Except Exn Unit) ↔ ∀ pair ∈ pairs, IsClose pair.1 pair.2 := by
    intro pairs
    rw [forM_eq_ok]
    refine forall₂_congr fun pair _ => ?_
    split_ifs with close <;> simp [close]
  unfold validateDispatch
  dsimp only
  constructor
  · intro passes
    split_ifs at passes with lengths stored ends
    obtain ⟨_, each, money⟩ := bind_eq_ok.mp passes
    have close := (closes _).mp money
    push Not at stored ends
    simp only [List.forall_mem_cons, List.not_mem_nil, false_imp_iff, forall_const, and_true]
      at close
    exact ⟨lengths.1, lengths.2.1, lengths.2.2.1, lengths.2.2.2, stored, ends.1, ends.2,
      fun step member => checkStep_eq_ok.mp (forM_eq_ok.mp each step member),
      close.1, close.2.1, close.2.2⟩
  · intro accepted
    rw [if_neg, if_neg, if_neg, bind_eq_ok]
    · refine ⟨(), forM_eq_ok.mpr fun step member => checkStep_eq_ok.mpr
        (accepted.steps step member), (closes _).mpr ?_⟩
      simp only [List.forall_mem_cons, List.not_mem_nil, false_imp_iff, forall_const, and_true]
      exact ⟨accepted.gross, accepted.cost, accepted.objective⟩
    · push Not
      exact ⟨accepted.initial, accepted.terminal⟩
    · push Not
      exact accepted.stored
    · exact not_not.mpr ⟨accepted.charge_length, accepted.discharge_length, accepted.soc_length,
        accepted.mode_length⟩

end PowerMarket.Optimization
