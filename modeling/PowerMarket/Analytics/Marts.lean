import PowerMarket.Analytics.Models
import PowerMarket.Decimals
import PowerMarket.PacificDays
import Mathlib.Data.Rat.Floor

/-!
# The marts of the prices

The two marts over the price fact: its projection to the inputs of the battery benchmark, and the
summary of each hub and market date. A row of the fact has the columns of a price
(`HistoryRow.price`); the mart of the inputs leaves nothing else out.
-/

set_option autoImplicit false

namespace PowerMarket

open Library

/-! ## The inputs of the battery benchmark -/

/-- The columns that only a price has. -/
structure PriceColumns where
  market : String
  location : String
  lmp : Decimal
  energy : Decimal
  congestion : Decimal
  loss : Decimal
  deriving DecidableEq

/-- The price columns of a row. -/
def Values.price : Values → Option PriceColumns
  | .lmp market location total energy congestion loss =>
    some ⟨market, location, total, energy, congestion, loss⟩
  | .load _ _ => none

/-- The rows of the price fact with their price columns. -/
def priceRows (fact : List HistoryRow) : List (HistoryRow × PriceColumns) :=
  fact.filterMap fun row => row.values.price.map (Prod.mk row)

/-- A row of the mart of inputs. -/
structure BatteryInput where
  source : String
  market : String
  unit : String
  marketDate : Date
  location : String
  intervalStartUtc : UtcTime
  intervalEndUtc : UtcTime
  lmp : Decimal
  logicalKey : String
  contentId : String
  contentHash : String
  logicalKeySchema : String
  contentHashSchema : String
  transitionId : String
  stateRunId : String
  stateOrdinal : Nat
  commitSequence : Nat
  firstSeenAt : Option UtcTime
  stateKnownAt : Option UtcTime
  deriving DecidableEq

/-- The projection of a row of the price fact. -/
def batteryInput (row : HistoryRow) (price : PriceColumns) : BatteryInput where
  source := row.source
  market := price.market
  unit := row.unit
  marketDate := row.marketDate
  location := price.location
  intervalStartUtc := row.intervalStartUtc
  intervalEndUtc := row.intervalEndUtc
  lmp := price.lmp
  logicalKey := row.logicalKey
  contentId := row.contentId
  contentHash := row.contentHash
  logicalKeySchema := row.logicalKeySchema
  contentHashSchema := row.contentHashSchema
  transitionId := row.transitionId
  stateRunId := row.stateRunId
  stateOrdinal := row.stateOrdinal
  commitSequence := row.commitSequence
  firstSeenAt := row.firstSeenAt
  stateKnownAt := row.stateKnownAt

def martBatteryOptimizationInputs (fact : List HistoryRow) : List BatteryInput :=
  (priceRows fact).map fun row => batteryInput row.1 row.2

/-! ## The daily summary -/

/-- A number rounded to the nine places of the decimal column type, halves away from zero. -/
def numericRound (number : ℚ) : ℚ :=
  let places := Int.floor (|number| * 10 ^ 9 + 1 / 2) / (10 : ℚ) ^ 9
  if number < 0 then -places else places

/-- A row of the daily summary. -/
structure DailySummary where
  source : String
  market : String
  location : String
  marketDate : Date
  observationCount : Nat
  averageLmpUsdPerMwh : ℚ
  minimumLmpUsdPerMwh : Option ℚ
  maximumLmpUsdPerMwh : Option ℚ
  negativePriceIntervalCount : Nat
  expectedHourCount : Int
  deriving DecidableEq

variable [Platform]

/-- The hours between the first instants of a day and of the next one. -/
def expectedHourCount (day : Date) : Int :=
  (Platform.pacific.midnight dayMicros (day.ordinal + 1) -
    Platform.pacific.midnight dayMicros day.ordinal).tdiv 3600000000

/-- The summary of the rows of one group. -/
def dailySummary (key : String × String × String × Date) (prices : List ℚ) : DailySummary where
  source := key.1
  market := key.2.1
  location := key.2.2.1
  marketDate := key.2.2.2
  observationCount := prices.length
  averageLmpUsdPerMwh := numericRound (prices.sum / prices.length)
  minimumLmpUsdPerMwh := prices.min?
  maximumLmpUsdPerMwh := prices.max?
  negativePriceIntervalCount := prices.countP (· < 0)
  expectedHourCount := expectedHourCount key.2.2.2

/-- What the daily summary groups by. -/
def summaryKey (row : HistoryRow × PriceColumns) : String × String × String × Date :=
  (row.1.source, row.2.market, row.2.location, row.1.marketDate)

def martDailyLmpSummary (fact : List HistoryRow) : List DailySummary :=
  (groupBy summaryKey (priceRows fact)).map fun group =>
    dailySummary group.1 (group.2.map (·.2.lmp.value))

end PowerMarket
