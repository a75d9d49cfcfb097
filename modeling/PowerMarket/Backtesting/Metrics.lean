import PowerMarket.Backtesting.Engine
import PowerMarket.Optimization.Battery
import Mathlib.Algebra.Order.BigOperators.Group.List

/-!
# The metrics of the benchmark

After its checks the benchmark solves each day and describes the dispatch. A `SolvedDay` carries
the acceptance of its dispatch by the independent check, so that every day of a benchmark has it. An
interval is counted as charging or as discharging when its power exceeds the tolerance; the bounds
of the check meet that threshold for both modes (`StepAccepted.exclusive`), so that no interval is
counted twice. The metrics of a day, and the percentages over days of different lengths, are then
consistent (`metrics_consistent`).
-/

set_option autoImplicit false

namespace PowerMarket.Backtesting

open Optimization

/-! ## Days -/

/-- What is recomputed from the dispatch of a day. -/
structure DayMetrics where
  chargedMwh : ℚ
  dischargedMwh : ℚ
  gridThroughputMwh : ℚ
  cellThroughputMwh : ℚ
  equivalentFullCycles : ℚ
  initialSocMwh : ℚ
  terminalSocMwh : ℚ
  minimumSocMwh : ℚ
  maximumSocMwh : ℚ
  chargingIntervals : ℤ
  dischargingIntervals : ℤ
  idleIntervals : ℤ

/-- The metrics of a dispatch over a number of intervals. -/
def dayMetrics (config : Optimization.BatteryConfig) (count : ℕ) (result : DispatchResult) :
    DayMetrics :=
  let charged := result.charged config
  let discharged := result.discharged config
  let cell := charged * config.chargeEfficiency + discharged / config.dischargeEfficiency
  let charging := result.chargeMw.countP (physicalTolerance < ·)
  let discharging := result.dischargeMw.countP (physicalTolerance < ·)
  { chargedMwh := charged
    dischargedMwh := discharged
    gridThroughputMwh := charged + discharged
    cellThroughputMwh := cell
    equivalentFullCycles := cell / (2 * config.energyCapacityMwh)
    initialSocMwh := result.socMwh.headD 0
    terminalSocMwh := result.socMwh.getLastD 0
    minimumSocMwh := result.socMwh.tail.foldl min (result.socMwh.headD 0)
    maximumSocMwh := result.socMwh.tail.foldl max (result.socMwh.headD 0)
    chargingIntervals := charging
    dischargingIntervals := discharging
    idleIntervals := count - charging - discharging }

section Days

variable [Platform]

/-- A day with its inputs, its dispatch and its metrics. -/
structure DayResult where
  marketDate : Date
  location : String
  intervalCount : ℕ
  minimumPriceUsdPerMwh : Decimal
  maximumPriceUsdPerMwh : Decimal
  inputs : List MarketPrice
  dispatch : DispatchResult
  metrics : DayMetrics

/-- The prices of a day with a dispatch that the check accepts. -/
structure SolvedDay (config : Optimization.BatteryConfig) where
  first : MarketPrice
  rest : List MarketPrice
  dispatch : DispatchResult
  accepted : validateDispatch ((first :: rest).map (·.interval)) config dispatch = .ok ()

variable {config : Optimization.BatteryConfig}

/-- The inputs of a solved day. -/
def SolvedDay.inputs (day : SolvedDay config) : List MarketPrice := day.first :: day.rest

/-- The price that comes first in an order on numbers. -/
def extremePrice (before : ℚ → ℚ → Bool) (first : Decimal) (rest : List Decimal) : Decimal :=
  rest.foldl (fun best price => if before price.value best.value then price else best) first

/-- The result of a solved day. -/
def SolvedDay.result (location : String) (day : SolvedDay config) : DayResult where
  marketDate := day.first.marketDate
  location := location
  intervalCount := day.inputs.length
  minimumPriceUsdPerMwh :=
    extremePrice (· < ·) day.first.interval.price (day.rest.map (·.interval.price))
  maximumPriceUsdPerMwh :=
    extremePrice (· > ·) day.first.interval.price (day.rest.map (·.interval.price))
  inputs := day.inputs
  dispatch := day.dispatch
  metrics := dayMetrics config day.inputs.length day.dispatch

/-! ## Aggregates -/

/-- What is recomputed from all days. -/
structure Aggregate where
  totalGrossArbitrageValueUsd : ℚ
  averageDailyGrossValueUsd : ℚ
  medianDailyGrossValueUsd : ℚ
  bestDay : Date
  worstDay : Date
  totalObjectiveUsd : ℚ
  totalThroughputCostUsd : ℚ
  gridThroughputMwh : ℚ
  cellThroughputMwh : ℚ
  equivalentFullCycles : ℚ
  chargingPercent : ℚ
  dischargingPercent : ℚ
  idlePercent : ℚ

/-- The middle of some numbers in order, or the mean of the two in the middle. -/
def median (values : List ℚ) : ℚ :=
  let ordered := values.insertionSort (· ≤ ·)
  let n := ordered.length
  if n % 2 = 1 then ordered.getD (n / 2) 0
  else (ordered.getD (n / 2 - 1) 0 + ordered.getD (n / 2) 0) / 2

/-- The first day whose value comes first in an order on numbers. -/
def extremeDay (before : ℚ → ℚ → Bool) (first : DayResult) (rest : List DayResult) : DayResult :=
  rest.foldl (fun best day =>
    if before day.dispatch.grossArbitrageValueUsd best.dispatch.grossArbitrageValueUsd then day
    else best) first

/-- A part of all intervals in percent. -/
def percent (part : ℤ) (count : ℕ) : ℚ := 100 * part / count

/-- The aggregate of some days. -/
def aggregateOf : List DayResult → Except Exn Aggregate
  | [] => .error ⟨⟨.other, "StatisticsError", "mean requires at least one data point"⟩, []⟩
  | first :: rest =>
    let days := first :: rest
    let values := days.map (·.dispatch.grossArbitrageValueUsd)
    let count := (days.map (·.intervalCount)).sum
    if count = 0 then .error ⟨⟨.other, "ZeroDivisionError", "division by zero"⟩, []⟩
    else .ok {
      totalGrossArbitrageValueUsd := values.sum
      averageDailyGrossValueUsd := values.sum / values.length
      medianDailyGrossValueUsd := median values
      bestDay := (extremeDay (· > ·) first rest).marketDate
      worstDay := (extremeDay (· < ·) first rest).marketDate
      totalObjectiveUsd := (days.map (·.dispatch.objectiveUsd)).sum
      totalThroughputCostUsd := (days.map (·.dispatch.throughputCostUsd)).sum
      gridThroughputMwh := (days.map (·.metrics.gridThroughputMwh)).sum
      cellThroughputMwh := (days.map (·.metrics.cellThroughputMwh)).sum
      equivalentFullCycles := (days.map (·.metrics.equivalentFullCycles)).sum
      chargingPercent := percent (days.map (·.metrics.chargingIntervals)).sum count
      dischargingPercent :=
        percent (days.map (·.metrics.dischargingIntervals)).sum count
      idlePercent := percent (days.map (·.metrics.idleIntervals)).sum count }

/-! ## The benchmark -/

end Days

/-! ## Consistency -/

theorem countP_add_le {α : Type} {items : List α} {p q : α → Bool}
    (exclusive : ∀ item ∈ items, ¬ (p item = true ∧ q item = true)) :
    items.countP p + items.countP q ≤ items.length := by
  have others : items.countP q ≤ items.countP fun item => !p item := by
    refine List.countP_mono_left fun item member counted => ?_
    rw [Bool.not_eq_true']
    exact Bool.eq_false_iff.mpr fun also => exclusive item member ⟨also, counted⟩
  rw [List.length_eq_countP_add_countP p]
  simpa using others

/-- The counts of the intervals of a day. -/
structure DayMetrics.Counts (metrics : DayMetrics) (count : ℕ) : Prop where
  charging : 0 ≤ metrics.chargingIntervals
  discharging : 0 ≤ metrics.dischargingIntervals
  idle : 0 ≤ metrics.idleIntervals
  total : metrics.chargingIntervals + metrics.dischargingIntervals + metrics.idleIntervals = count

section Accepted

variable {prices : List PriceInterval} {config : Optimization.BatteryConfig}
  {result : DispatchResult}

/-- **No interval is counted twice** in an accepted dispatch. -/
theorem Accepted.countedOnce (accepted : Optimization.Accepted prices config result) :
    ∀ pair ∈ result.chargeMw.zip result.dischargeMw,
      ¬ (physicalTolerance < pair.1 ∧ physicalTolerance < pair.2) := by
  obtain ⟨_, charges, discharges, _⟩ := accepted.columns
  rw [← charges, ← discharges, List.zip_map', List.forall_mem_map]
  exact fun step member => (accepted.steps step member).exclusive

/-- **The counts of a day** cover its intervals. -/
theorem dayMetrics_counts (accepted : Optimization.Accepted prices config result) :
    (dayMetrics config prices.length result).Counts prices.length := by
  obtain ⟨length, charges, discharges, _⟩ := accepted.columns
  have once := @countP_add_le _ result.steps (fun step => physicalTolerance < step.charge)
    (fun step => physicalTolerance < step.discharge) fun step member both =>
      (accepted.steps step member).exclusive (by simpa using both)
  have counted : result.chargeMw.countP (physicalTolerance < ·) +
      result.dischargeMw.countP (physicalTolerance < ·) ≤ prices.length := by
    rw [← charges, ← discharges, List.countP_map, List.countP_map, ← length]
    exact once
  refine ⟨?_, ?_, ?_, ?_⟩ <;> dsimp only [dayMetrics] <;> omega

/-- **The cycles of a day** are those of the energy that charged it. -/
theorem dayMetrics_cycles (accepted : Optimization.Accepted prices config result)
    (balanced : config.initialSocMwh = config.terminalSocMwh) (count : ℕ) :
    |(dayMetrics config count result).equivalentFullCycles -
        config.chargeEfficiency * result.charged config / config.energyCapacityMwh| ≤
      (prices.length + 2) * physicalTolerance / (2 * config.energyCapacityMwh) := by
  have capacity := config.capacity
  have total := accepted.total
  have apart : (dayMetrics config count result).equivalentFullCycles -
      config.chargeEfficiency * result.charged config / config.energyCapacityMwh =
        -(config.initialSocMwh + config.chargeEfficiency * result.charged config -
          result.discharged config / config.dischargeEfficiency - config.terminalSocMwh) /
            (2 * config.energyCapacityMwh) := by
    have nonzero := capacity.ne'
    dsimp only [dayMetrics]
    rw [balanced]
    field_simp
    ring
  rw [apart, abs_div, abs_neg, abs_of_pos (by positivity : 0 < 2 * config.energyCapacityMwh)]
  gcongr

end Accepted

/-! ## Percentages -/

section Aggregates

variable [Platform] {config : Optimization.BatteryConfig}

/-- The percentages of an aggregate share all intervals. -/
structure Aggregate.Shares (aggregate : Aggregate) : Prop where
  charging : 0 ≤ aggregate.chargingPercent
  discharging : 0 ≤ aggregate.dischargingPercent
  idle : 0 ≤ aggregate.idlePercent
  total : aggregate.chargingPercent + aggregate.dischargingPercent + aggregate.idlePercent = 100

omit [Platform] in
theorem sum_nonneg_of_map {α : Type} {items : List α} {part : α → ℤ}
    (each : ∀ item ∈ items, 0 ≤ part item) : 0 ≤ (items.map part).sum := by
  refine List.sum_nonneg fun value member => ?_
  obtain ⟨item, inItems, rfl⟩ := List.mem_map.mp member
  exact each item inItems

/-- Some days have as many intervals as are counted in them. -/
theorem sum_counts {days : List DayResult}
    (each : ∀ day ∈ days, day.metrics.Counts day.intervalCount) :
    (days.map fun day => day.metrics.chargingIntervals).sum +
        (days.map fun day => day.metrics.dischargingIntervals).sum +
        (days.map fun day => day.metrics.idleIntervals).sum =
      (days.map fun day => day.intervalCount).sum := by
  induction days with
  | nil => rfl
  | cons day days ih =>
      rw [List.forall_mem_cons] at each
      have first := each.1.total
      have rest := ih each.2
      simp only [List.map_cons, List.sum_cons, Nat.cast_add] at rest ⊢
      linarith

/-- **The percentages of days** of different lengths share their intervals. -/
theorem aggregateOf_shares {first : DayResult} {rest : List DayResult}
    (positive : 0 < first.intervalCount)
    (each : ∀ day ∈ first :: rest, day.metrics.Counts day.intervalCount) :
    ∃ aggregate, aggregateOf (first :: rest) = .ok aggregate ∧ aggregate.Shares := by
  have total := sum_counts each
  have some_interval : 0 < ((first :: rest).map fun day => day.intervalCount).sum := by
    rw [List.map_cons, List.sum_cons]
    omega
  refine ⟨_, if_neg some_interval.ne', ?_, ?_, ?_, ?_⟩
  all_goals dsimp only [percent]
  · have charging := sum_nonneg_of_map fun day member => (each day member).charging
    positivity
  · have discharging := sum_nonneg_of_map fun day member => (each day member).discharging
    positivity
  · have idle := sum_nonneg_of_map fun day member => (each day member).idle
    positivity
  · have whole : ((((first :: rest).map fun day => day.intervalCount).sum : ℕ) : ℚ) ≠ 0 :=
      Nat.cast_ne_zero.mpr some_interval.ne'
    rw [← add_div, ← add_div, ← mul_add, ← mul_add, ← Int.cast_add, ← Int.cast_add, total,
      Int.cast_natCast, mul_div_assoc, div_self whole, mul_one]

/-- **The metrics are consistent** with accepted dispatches. No interval is counted as charging and
as discharging, the counts of a day cover its intervals, and its cycles are those of the energy that
charged it up to the tolerances. Over days of different lengths the percentages share all
intervals. -/
theorem metrics_consistent (location : String) (days : List (SolvedDay config)) :
    (∀ day ∈ days,
      (∀ pair ∈ day.dispatch.chargeMw.zip day.dispatch.dischargeMw,
        ¬ (physicalTolerance < pair.1 ∧ physicalTolerance < pair.2)) ∧
      (day.result location).metrics.Counts day.inputs.length ∧
      (config.initialSocMwh = config.terminalSocMwh →
        |(day.result location).metrics.equivalentFullCycles -
            config.chargeEfficiency * day.dispatch.charged config / config.energyCapacityMwh| ≤
          (day.inputs.length + 2) * physicalTolerance / (2 * config.energyCapacityMwh))) ∧
    (days ≠ [] → ∃ aggregate, aggregateOf (days.map (·.result location)) = .ok aggregate ∧
      aggregate.Shares) := by
  have counts : ∀ day : SolvedDay config,
      (day.result location).metrics.Counts (day.result location).intervalCount := by
    intro day
    have counted := dayMetrics_counts (validateDispatch_eq_ok.mp day.accepted)
    rw [List.length_map] at counted
    exact counted
  refine ⟨fun day _ => ⟨?_, counts day, fun balanced => ?_⟩, fun nonempty => ?_⟩
  · exact Accepted.countedOnce (validateDispatch_eq_ok.mp day.accepted)
  · have cycles := dayMetrics_cycles (validateDispatch_eq_ok.mp day.accepted) balanced
      day.inputs.length
    rw [List.length_map] at cycles
    exact cycles
  · obtain ⟨first, rest, rfl⟩ := List.exists_cons_of_ne_nil nonempty
    rw [List.map_cons]
    refine aggregateOf_shares (Nat.succ_pos _) ?_
    rw [← List.map_cons, List.forall_mem_map]
    exact fun day _ => counts day

end Aggregates

/-- Two hours of a day, a cheap one and a dear one, with their dispatch. -/
def sampleDay (first second : Fin 48) (accepted : validateDispatch
    [sampleInterval first, sampleInterval second] sampleConfig sampleResult = .ok ()) :
    @SolvedDay Platform.plain sampleConfig :=
  @SolvedDay.mk Platform.plain sampleConfig (sampleHourPrice first) [sampleHourPrice second]
    sampleResult accepted

theorem sampleDay_accepted :
    validateDispatch [sampleInterval 30, sampleInterval 31] sampleConfig sampleResult = .ok () := by
  decide +kernel

/-- Hours of two days. -/
def sampleDays : List (@SolvedDay Platform.plain sampleConfig) :=
  [sampleDay 0 1 sampleResult_accepted, sampleDay 30 31 sampleDay_accepted]

/-- The metrics of two small days are consistent: each has a quarter of a cycle. -/
theorem metrics_consistent_sample :
    letI := Platform.plain
    (∀ day ∈ sampleDays, |(day.result "").metrics.equivalentFullCycles - 1 / 4| ≤
        (2 + 2) * physicalTolerance / (2 * 4)) ∧
      ∃ aggregate, aggregateOf (sampleDays.map (·.result "")) = .ok aggregate ∧
        aggregate.Shares := by
  let _ := Platform.plain
  obtain ⟨each, shares⟩ := metrics_consistent "" sampleDays
  have small : ∀ day ∈ sampleDays, day.inputs.length = 2 ∧ sampleConfig.chargeEfficiency *
      day.dispatch.charged sampleConfig / sampleConfig.energyCapacityMwh = 1 / 4 := by
    decide +kernel
  refine ⟨fun day member => ?_, shares (List.cons_ne_nil _ _)⟩
  obtain ⟨_, _, cycles⟩ := each day member
  have close := cycles rfl
  rw [(small day member).1, (small day member).2] at close
  exact close

end PowerMarket.Backtesting
