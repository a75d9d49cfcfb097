import PowerMarket.Analytics.Marts
import PowerMarket.Backtesting.Acceptance
import PowerMarket.Library.Slots
import PowerMarket.Optimization.Model

/-!
# The inputs of the daily benchmark

The benchmark reads the prices of one hub for at most seven days and checks all of them before it
solves any day: every day must have exactly one price for each of its hours, in a row from its first
instant on. What the solver does later is left out.
-/

set_option autoImplicit false

namespace PowerMarket

open Library

/-- The microseconds of an hour. -/
def hourMicros : Int := 3600000000

/-- The requests for the inclusive days between two dates. -/
def requests (today start stop : Date) (location : String) : Except Exn (List Request) :=
  let days : Int := stop.ordinal - start.ordinal + 1
  if 1 ≤ days ∧ days ≤ 7 then
    (List.range days.toNat).mapM fun i => do
      Request.create today "lmp" (← start.plus i) (some location)
  else .error (.new .validationError "backtest requires 1 through 7 inclusive Pacific days")

variable [Platform]

/-- Whether the prices follow one another hour by hour. -/
def continuous (first : UtcTime) (rows : List MarketPrice) : Bool :=
  rows.zipIdx.all fun row =>
    (row.1.interval.interval.start.micros : Int) = first.micros + row.2 * hourMicros &&
      (row.1.interval.interval.stop.micros : Int) = first.micros + (row.2 + 1) * hourMicros

/-- The prices of a requested day, which must cover it. -/
def coveredDay (inputs : List MarketPrice) (request : Request) : Except Exn (List MarketPrice) := do
  let rows := (inputs.filter (·.marketDate = request.day)).insertionSort fun a b =>
    a.interval.interval.start ≤ b.interval.interval.start
  let bounds ← request.bounds
  let count := ((bounds.2.micros : Int) - bounds.1.micros).tdiv hourMicros
  if rows.length = count ∧ continuous bounds.1 rows then return rows
  else throw (.new .validationError
    (request.day.text ++ ": expected " ++ toString count ++ " continuous hourly intervals"))

/-- The checks of the benchmark before any day is solved, with the prices of each day. -/
def dailyGroups (today : Date) (inputs : List MarketPrice) (start stop : Date) (location : String)
    (config : Optimization.BatteryConfig) : Except Exn (List (List MarketPrice)) := do
  let plan ← requests today start stop location
  if config.initialSocMwh ≠ config.terminalSocMwh then
    throw (.new .validationError "daily benchmark requires equal initial and terminal SOC")
  if inputs.any fun row => row.location.text ≠ location ||
      !(start.ordinal ≤ row.marketDate.ordinal && row.marketDate.ordinal ≤ stop.ordinal) then
    throw (.new .validationError "input lies outside the requested dates/hub")
  if (inputs.map (·.logicalKey)).dedup.length ≠ inputs.length then
    throw (.new .validationError "duplicate logical key in optimization input")
  plan.mapM (coveredDay inputs)

/-- The rows of the mart for one hub and the days between two dates, in the order of their
intervals. -/
def selectedInputs (mart : List BatteryInput) (start stop : Date) (location : String) :
    List BatteryInput :=
  (mart.filter fun input => start.ordinal ≤ input.marketDate.ordinal &&
    input.marketDate.ordinal ≤ stop.ordinal && input.location = location).insertionSort
      fun a b => a.intervalStartUtc ≤ b.intervalStartUtc

/-- The prices that are read from the mart. -/
def readPrices (readers : TextReaders) (column : NumericColumn) (mart : List BatteryInput)
    (start stop : Date) (location : String) : Except Exn (List MarketPrice) :=
  (selectedInputs mart start stop location).mapM fun input =>
    fromRow readers (input.delivered column)

/-! ## The prices of two days -/

omit [Platform] in
theorem sampleOrdinal_positive (hour : Fin 48) : 0 < 738000 + hour.val / 24 := by
  omega

omit [Platform] in
theorem sampleOrdinal_bounded (hour : Fin 48) : 738000 + hour.val / 24 ≤ maxOrdinal := by
  have := hour.isLt
  rw [maxOrdinal]
  omega

/-- The Pacific date of an hour. -/
def sampleDate (hour : Fin 48) : Date :=
  ⟨738000 + hour.val / 24, sampleOrdinal_positive hour, sampleOrdinal_bounded hour⟩

omit [Platform] in
theorem sampleHour_dated (hour : Fin 48) :
    @pacificDate Platform.plain (sampleHour hour).start = .ok (sampleDate hour) := by
  revert hour
  decide

omit [Platform] in
theorem sampleHour_legible (hour : Fin 48) : ∀ text ∈ [toString hour.val, toString hour.val,
    toString hour.val, toString hour.val, "run"], isBlank text = false := by
  revert hour
  decide

/-- The row of an hour. -/
def sampleHourPrice (hour : Fin 48) : @MarketPrice Platform.plain :=
  let key := toString hour.val
  @MarketPrice.mk Platform.plain (sampleInterval hour) (sampleDate hour) .np15 key key key key "run"
    1 1 sampleStart sampleStart (sampleHour_dated hour) (sampleHour_legible hour) ⟨le_rfl, le_rfl⟩

end PowerMarket
