import PowerMarket.Optimization.Model
import PowerMarket.Library.Drift
import Mathlib.Tactic.FieldSimp

/-!
# The energy of a dispatch

The checker tests one interval at a time, each with its tolerance. Its intervals form a chain
(`stepsOf_chain`), so that over a whole horizon, or over a part of it, the stored energy follows the
energy at the grid up to one tolerance for each interval and one for each end (`Accepted.balance`,
`Accepted.window`). No accepted dispatch creates energy (`no_energy_created`).
-/

set_option autoImplicit false

namespace PowerMarket.Optimization

open Library

/-! ## The steps of a dispatch -/

/-- The boundaries at which the intervals of a vector start. -/
theorem map_fst_zip_tail : ∀ values : List ℚ,
    (values.zip values.tail).map Prod.fst = values.dropLast
  | [] => rfl
  | [_] => rfl
  | first :: second :: rest => by
      rw [List.tail_cons, List.zip_cons_cons, List.map_cons, List.dropLast_cons_cons]
      exact congrArg (first :: ·) (map_fst_zip_tail (second :: rest))

section Steps

variable {charge discharge : List ℚ} {mode : List ℤ} {soc : List ℚ}

theorem stepsOf_chain :
    (stepsOf charge discharge mode soc).IsChain fun a b => a.after = b.before := by
  have zipped : ∀ rows : List (ℚ × ℚ × ℤ), ((rows.zip (soc.zip soc.tail)).map fun row =>
      (⟨row.1.1, row.1.2.1, row.1.2.2, row.2.1, row.2.2⟩ : Step)).IsChain
        fun a b => a.after = b.before := by
    intro rows
    induction soc generalizing rows with
    | nil => simp
    | cons first soc ih =>
        cases soc with
        | nil => simp
        | cons second soc =>
            cases rows with
            | nil => simp
            | cons row rows =>
                refine List.isChain_cons.mpr ⟨fun next isNext => ?_, ih rows⟩
                cases rows <;> cases soc <;> simp at isNext
                subst isNext
                rfl
  exact zipped _

theorem mem_stepsOf {step : Step} (member : step ∈ stepsOf charge discharge mode soc) :
    step.before ∈ soc ∧ step.after ∈ soc := by
  obtain ⟨row, zipped, rfl⟩ := List.mem_map.mp member
  obtain ⟨before, after⟩ := List.of_mem_zip (List.of_mem_zip zipped).2
  exact ⟨before, List.mem_of_mem_tail after⟩

theorem stepsOf_first {first : Step}
    (isFirst : (stepsOf charge discharge mode soc).head? = some first) :
    first.before = soc.headD 0 := by
  cases charge <;> cases discharge <;> cases mode <;> rcases soc with _ | ⟨start, _ | ⟨next, rest⟩⟩ <;>
    simp [stepsOf] at isFirst
  subst isFirst
  rfl

variable {n : ℕ} (ofCharge : charge.length = n) (ofDischarge : discharge.length = n)
  (ofMode : mode.length = n) (ofSoc : soc.length = n + 1)

include ofCharge ofDischarge ofMode ofSoc

theorem stepsOf_length : (stepsOf charge discharge mode soc).length = n := by
  simp [stepsOf, ofCharge, ofDischarge, ofMode, ofSoc]

theorem stepsOf_powers : (stepsOf charge discharge mode soc).map
    (fun step => (step.charge, step.discharge, step.mode)) = charge.zip (discharge.zip mode) := by
  rw [stepsOf, List.map_map]
  exact List.map_fst_zip (by simp_all)

theorem stepsOf_boundaries : (stepsOf charge discharge mode soc).map
    (fun step => (step.before, step.after)) = soc.zip soc.tail := by
  rw [stepsOf, List.map_map]
  exact List.map_snd_zip (by simp_all)

theorem stepsOf_charge : (stepsOf charge discharge mode soc).map Step.charge = charge := by
  have powers := congrArg (List.map Prod.fst)
    (stepsOf_powers ofCharge ofDischarge ofMode ofSoc)
  rw [List.map_map, List.map_fst_zip (by simp_all)] at powers
  exact powers

theorem stepsOf_discharge :
    (stepsOf charge discharge mode soc).map Step.discharge = discharge := by
  have others : (charge.zip (discharge.zip mode)).map Prod.snd = discharge.zip mode :=
    List.map_snd_zip (by simp_all)
  have powers := congrArg (fun rows => (rows.map Prod.snd).map Prod.fst)
    (stepsOf_powers ofCharge ofDischarge ofMode ofSoc)
  rw [others, List.map_fst_zip (by simp_all), List.map_map, List.map_map] at powers
  exact powers

theorem stepsOf_mode : (stepsOf charge discharge mode soc).map Step.mode = mode := by
  have others : (charge.zip (discharge.zip mode)).map Prod.snd = discharge.zip mode :=
    List.map_snd_zip (by simp_all)
  have powers := congrArg (fun rows => (rows.map Prod.snd).map Prod.snd)
    (stepsOf_powers ofCharge ofDischarge ofMode ofSoc)
  rw [others, List.map_snd_zip (by simp_all), List.map_map, List.map_map] at powers
  exact powers

theorem stepsOf_before : (stepsOf charge discharge mode soc).map Step.before = soc.dropLast := by
  have boundaries := congrArg (List.map Prod.fst)
    (stepsOf_boundaries ofCharge ofDischarge ofMode ofSoc)
  rw [List.map_map, map_fst_zip_tail] at boundaries
  exact boundaries

theorem stepsOf_after : (stepsOf charge discharge mode soc).map Step.after = soc.tail := by
  have boundaries := congrArg (List.map Prod.snd)
    (stepsOf_boundaries ofCharge ofDischarge ofMode ofSoc)
  rw [List.map_map, List.map_snd_zip (by simp)] at boundaries
  exact boundaries

end Steps

/-! ## The balance of a chain of steps -/

/-- What a step adds to the stored energy. -/
def cellGain (config : BatteryConfig) (step : Step) : ℚ :=
  config.chargeEfficiency * (step.charge * config.intervalHours) -
    step.discharge * config.intervalHours / config.dischargeEfficiency

/-- The energy that steps store is that of their total charge and discharge. -/
theorem sum_cellGain (config : BatteryConfig) (steps : List Step) :
    (steps.map (cellGain config)).sum =
      config.chargeEfficiency * ((steps.map Step.charge).sum * config.intervalHours) -
        (steps.map Step.discharge).sum * config.intervalHours / config.dischargeEfficiency := by
  induction steps with
  | nil => simp
  | cons step steps ih =>
      simp only [List.map_cons, List.sum_cons, ih, cellGain]
      ring

theorem StepAccepted.close {config : BatteryConfig} {step : Step}
    (accepted : StepAccepted config step) :
    |step.before + cellGain config step - step.after| ≤ physicalTolerance := by
  have same : step.before + cellGain config step - step.after =
      expectedSoc config step - step.after := by
    unfold cellGain expectedSoc
    ring
  rw [same]
  exact accepted.reconciles

/-- **No interval is counted twice**: the bounds of the check leave one of both powers at the
tolerance. -/
theorem StepAccepted.exclusive {config : BatteryConfig} {step : Step}
    (accepted : StepAccepted config step) :
    ¬ (physicalTolerance < step.charge ∧ physicalTolerance < step.discharge) := by
  rintro ⟨charging, discharging⟩
  rcases accepted.binary with zero | one
  · have bound := accepted.charge_le
    rw [zero, Int.cast_zero, mul_zero, zero_add] at bound
    exact absurd charging (not_lt.mpr bound)
  · have bound := accepted.discharge_le
    rw [one, Int.cast_one, sub_self, mul_zero, zero_add] at bound
    exact absurd discharging (not_lt.mpr bound)

section Accepted

variable {prices : List PriceInterval} {config : BatteryConfig} {result : DispatchResult}

/-- The grid energy that charged the battery. -/
def DispatchResult.charged (config : BatteryConfig) (result : DispatchResult) : ℚ :=
  result.chargeMw.sum * config.intervalHours

/-- The grid energy that the battery discharged. -/
def DispatchResult.discharged (config : BatteryConfig) (result : DispatchResult) : ℚ :=
  result.dischargeMw.sum * config.intervalHours

/-- The grid energy that charged the battery in a part of the horizon. -/
def DispatchResult.chargedIn (config : BatteryConfig) (result : DispatchResult) (start m : ℕ) : ℚ :=
  ((result.chargeMw.drop start).take m).sum * config.intervalHours

/-- The grid energy that the battery discharged in a part of the horizon. -/
def DispatchResult.dischargedIn (config : BatteryConfig) (result : DispatchResult)
    (start m : ℕ) : ℚ :=
  ((result.dischargeMw.drop start).take m).sum * config.intervalHours

/-- The columns of the steps of an accepted dispatch. -/
theorem Accepted.columns (accepted : Accepted prices config result) :
    result.steps.length = prices.length ∧ result.steps.map Step.charge = result.chargeMw ∧
      result.steps.map Step.discharge = result.dischargeMw ∧
      result.steps.map Step.after = result.socMwh.tail :=
  ⟨stepsOf_length accepted.charge_length accepted.discharge_length accepted.mode_length
      accepted.soc_length,
    stepsOf_charge accepted.charge_length accepted.discharge_length accepted.mode_length
      accepted.soc_length,
    stepsOf_discharge accepted.charge_length accepted.discharge_length accepted.mode_length
      accepted.soc_length,
    stepsOf_after accepted.charge_length accepted.discharge_length accepted.mode_length
      accepted.soc_length⟩

/-- The balance of a whole horizon, between its first and its last stored energy. -/
theorem Accepted.balance (accepted : Accepted prices config result) :
    |result.socMwh.headD 0 + (config.chargeEfficiency * result.charged config -
        result.discharged config / config.dischargeEfficiency) - result.socMwh.getLastD 0| ≤
      prices.length * physicalTolerance := by
  obtain ⟨length, charges, discharges, afters⟩ := accepted.columns
  have gains := sum_cellGain config result.steps
  rw [charges, discharges] at gains
  have chain : result.steps.IsChain fun a b => a.after = b.before := stepsOf_chain
  have close : ∀ step ∈ result.steps,
      |step.before + cellGain config step - step.after| ≤ physicalTolerance :=
    fun step member => (accepted.steps step member).close
  cases head : result.steps.head? with
  | none =>
      -- Without intervals there is one boundary.
      rw [List.head?_eq_none_iff] at head
      rw [head] at length gains
      obtain ⟨only, single⟩ := List.length_eq_one_iff.mp
        (accepted.soc_length.trans (congrArg (· + 1) length.symm))
      rw [single, DispatchResult.charged, DispatchResult.discharged, ← gains, ← length]
      simp
  | some first =>
      obtain ⟨last, final⟩ : ∃ last, result.steps.getLast? = some last := by
        rw [← Option.isSome_iff_exists, List.getLast?_isSome]
        rintro empty
        rw [empty] at head
        cases head
      have drift := drift_le (cellGain config) chain close head final
      have after : last.after = result.socMwh.getLastD 0 := by
        have ends : result.socMwh.tail.getLast? = some last.after := by
          rw [← afters, List.getLast?_map, final, Option.map_some]
        cases soc : result.socMwh with
        | nil =>
            rw [soc] at ends
            cases ends
        | cons start rest =>
            rw [soc, List.tail_cons] at ends
            rw [List.getLastD_cons, List.getLastD_eq_getLast?, ends, Option.getD_some]
      rw [gains, length, stepsOf_first head, after] at drift
      exact drift

theorem Accepted.between (accepted : Accepted prices config result) {a b : ℚ}
    (inSoc : a ∈ result.socMwh) (inSoc' : b ∈ result.socMwh) :
    |a - b| ≤ config.energyCapacityMwh + 2 * physicalTolerance := by
  obtain ⟨low, high⟩ := accepted.stored a inSoc
  obtain ⟨low', high'⟩ := accepted.stored b inSoc'
  rw [abs_le]
  constructor <;> linarith

/-- **The balance of a part of the horizon.** What it stores or takes is at most the capacity. -/
theorem Accepted.window (accepted : Accepted prices config result) {start m : ℕ}
    (inside : start + m ≤ prices.length) :
    |config.chargeEfficiency * result.chargedIn config start m -
        result.dischargedIn config start m / config.dischargeEfficiency| ≤
      config.energyCapacityMwh + (m + 2) * physicalTolerance := by
  obtain ⟨length, charges, discharges, _⟩ := accepted.columns
  have tolerance := physicalTolerance_pos
  have capacity := config.capacity
  have gains := sum_cellGain config ((result.steps.drop start).take m)
  have charging : ((result.steps.drop start).take m).map Step.charge =
      (result.chargeMw.drop start).take m := by rw [List.map_take, List.map_drop, charges]
  have discharging : ((result.steps.drop start).take m).map Step.discharge =
      (result.dischargeMw.drop start).take m := by rw [List.map_take, List.map_drop, discharges]
  rw [charging, discharging] at gains
  have whole : result.steps.IsChain fun a b => a.after = b.before := stepsOf_chain
  have chain := (whole.drop start).take m
  have part : ∀ step ∈ (result.steps.drop start).take m, step ∈ result.steps :=
    fun step member => List.mem_of_mem_drop (List.mem_of_mem_take member)
  have partLength : ((result.steps.drop start).take m).length = m := by
    rw [List.length_take, List.length_drop, length]
    omega
  rw [DispatchResult.chargedIn, DispatchResult.dischargedIn, ← gains]
  cases head : ((result.steps.drop start).take m).head? with
  | none =>
      rw [List.head?_eq_none_iff] at head
      rw [head, List.map_nil, List.sum_nil, abs_zero]
      positivity
  | some first =>
      obtain ⟨last, final⟩ : ∃ last, ((result.steps.drop start).take m).getLast? = some last := by
        rw [← Option.isSome_iff_exists, List.getLast?_isSome]
        rintro empty
        rw [empty] at head
        cases head
      have drift := drift_le (cellGain config) chain
        (fun step member => (accepted.steps step (part step member)).close) head final
      rw [partLength] at drift
      have apart := accepted.between
        (mem_stepsOf (part last (List.mem_of_getLast? final))).2
        (mem_stepsOf (part first (List.mem_of_head? head))).1
      rw [abs_le] at drift apart ⊢
      constructor <;> linarith

/-- **The balance of a whole horizon**, between the ends that its battery asks for. -/
theorem Accepted.total (accepted : Accepted prices config result) :
    |config.initialSocMwh + config.chargeEfficiency * result.charged config -
        result.discharged config / config.dischargeEfficiency - config.terminalSocMwh| ≤
      (prices.length + 2) * physicalTolerance := by
  have balance := accepted.balance
  have first := accepted.initial
  have last := accepted.terminal
  rw [abs_le] at balance first last ⊢
  constructor <;> linarith

end Accepted

/-- **An accepted dispatch creates no energy.** The stored energy follows the grid energy up to a
tolerance for each interval and each end of the horizon. So a battery that ends as it started
discharges at most what it charged less the losses, and no part of the horizon stores more than the
capacity. -/
theorem no_energy_created {prices : List PriceInterval} {config : BatteryConfig}
    {result : DispatchResult} (accepted : validateDispatch prices config result = .ok ()) :
    |config.initialSocMwh + config.chargeEfficiency * result.charged config -
        result.discharged config / config.dischargeEfficiency - config.terminalSocMwh| ≤
      (prices.length + 2) * physicalTolerance ∧
    (config.initialSocMwh = config.terminalSocMwh → result.discharged config ≤
      config.chargeEfficiency * config.dischargeEfficiency * result.charged config +
        (prices.length + 2) * physicalTolerance) ∧
    ∀ start m, start + m ≤ prices.length →
      |config.chargeEfficiency * result.chargedIn config start m -
          result.dischargedIn config start m / config.dischargeEfficiency| ≤
        config.energyCapacityMwh + (m + 2) * physicalTolerance := by
  have accepted := validateDispatch_eq_ok.mp accepted
  have total := accepted.total
  refine ⟨total, fun same => ?_, fun start m inside => accepted.window inside⟩
  obtain ⟨positive, atMost⟩ := config.discharging
  have tolerance := physicalTolerance_pos
  have slack : 0 ≤ (prices.length + 2) * physicalTolerance := by positivity
  have drawn : result.discharged config / config.dischargeEfficiency ≤
      config.chargeEfficiency * result.charged config +
        (prices.length + 2) * physicalTolerance := by
    rw [abs_le] at total
    linarith [total.1]
  calc result.discharged config
      = config.dischargeEfficiency * (result.discharged config / config.dischargeEfficiency) := by
        rw [mul_div_cancel₀ _ positive.ne']
    _ ≤ config.dischargeEfficiency * (config.chargeEfficiency * result.charged config +
          (prices.length + 2) * physicalTolerance) :=
        mul_le_mul_of_nonneg_left drawn positive.le
    _ = config.chargeEfficiency * config.dischargeEfficiency * result.charged config +
          config.dischargeEfficiency * ((prices.length + 2) * physicalTolerance) := by ring
    _ ≤ config.chargeEfficiency * config.dischargeEfficiency * result.charged config +
          (prices.length + 2) * physicalTolerance := by
        have := mul_le_of_le_one_left slack atMost
        linarith

/-! ## A small dispatch -/

/-- A dispatch that charges in the cheap hour and discharges half of that in the dear one. -/
def sampleResult : DispatchResult where
  solver := "HIGHS"
  status := "optimal"
  objectiveUsd := 27 / 2
  grossArbitrageValueUsd := 15
  throughputCostUsd := 3 / 2
  solveSeconds := none
  mipGap := none
  mipNodeCount := none
  chargeMw := [1, 0]
  dischargeMw := [0, 1 / 2]
  socMwh := [2, 3, 2]
  chargingMode := [1, 0]

theorem sampleResult_accepted :
    validateDispatch [sampleInterval 0, sampleInterval 1] sampleConfig sampleResult = .ok () := by
  decide +kernel

/-- The small dispatch creates no energy. -/
theorem no_energy_created_sample :
    validateDispatch [sampleInterval 0, sampleInterval 1] sampleConfig sampleResult = .ok () ∧
      sampleResult.discharged sampleConfig ≤ sampleConfig.chargeEfficiency *
        sampleConfig.dischargeEfficiency * sampleResult.charged sampleConfig +
          (2 + 2) * physicalTolerance := by
  obtain ⟨_, round, _⟩ := no_energy_created sampleResult_accepted
  exact ⟨sampleResult_accepted, round rfl⟩

end PowerMarket.Optimization
