import PowerMarket.Analytics.Reconciliation
import PowerMarket.Analytics.Health
import PowerMarket.Backtesting.Coverage
import PowerMarket.Orchestration.Verification
import PowerMarket.Library.Rounding
import PowerMarket.Library.TableTests
import PowerMarket.Warehouse.Appearances

/-!
# The data tests

The tests that dbt runs after a build: the ones that the tables, models and columns declare, and the
queries for violations of the facts and of the marts over them. The reconciliation apart, none of
them looks at how recent a fact is. So they pass in every state that ingestion and builds reach, for
whatever facts the last builds have left, also while runs commit and finalize between the builds and
the tests (`data_tests_pass`).

A row of a maintained fact is a row of the present history, which is all that most of the tests need.
The tests of the marts need that the hours of one hub and day do not overlap, and that a rounded mean
of prices lies between them.
-/

set_option autoImplicit false

namespace PowerMarket

open Library

/-! ## The tests of a fact -/

/-- The columns that only a load has. -/
structure LoadColumns where
  area : String
  load : Decimal
  deriving DecidableEq

/-- The load columns of a row. -/
def Values.system : Values → Option LoadColumns
  | .lmp .. => none
  | .load area demand => some ⟨area, demand⟩

/-- Whether a row of the load fact violates a condition, beside the run of its transition, the
run that saw its content first and the content in the raw table. A row without the columns of a
load does. -/
def invalidLoadFact [Platform] (f : HistoryRow) (r cr : Option RunRow) (c : Option ContentRow) :
    Bool :=
  match f.values.system with
  | none => true
  | some system =>
    let raw := c.bind (·.values.system)
    r.map (·.status) ≠ some .succeeded
      || cr.map (·.status) ≠ some .succeeded
      || c.isNone
      || some f.logicalKey ≠ c.map (·.logicalKey) || some f.contentHash ≠ c.map (·.contentHash)
      || f.source ≠ "CAISO"
      || f.logicalKeySchema ≠ "observation-key/v1"
      || f.contentHashSchema ≠ "observation-content/v1"
      || secondsBetween f.intervalStartUtc f.intervalEndUtc ≠ 300
      || (unixSeconds f.intervalStartUtc).tmod 300 ≠ 0
      || pacificDate f.intervalStartUtc ≠ .ok f.marketDate
      || f.stateKnownAt.isNone || f.firstSeenAt.isNone
      || f.stateKnownAt ≠ r.bind (·.knowledgeAt) || f.firstSeenAt ≠ cr.bind (·.knowledgeAt)
      || laterThan f.firstSeenAt f.stateKnownAt
      || numbersDiffer system.load (raw.map (·.load))
      || f.unit ≠ "MW" || system.area ≠ "CAISO" || decide (system.load.value < 0)
      || some f.source ≠ c.map (·.source)
      || some f.product ≠ c.map (·.product)
      || some f.sourceDataset ≠ c.map (·.sourceDataset)
      || some f.marketDate ≠ c.map (·.marketDate)
      || some f.intervalStartUtc ≠ c.map (·.intervalStartUtc)
      || some f.intervalEndUtc ≠ c.map (·.intervalEndUtc)
      || some f.unit ≠ c.map (·.unit)
      || some system.area ≠ raw.map (·.area)

/-- The keys of the rows of the load fact that violate a condition. -/
def validLoadFacts [Platform] : List HistoryRow → Database → List String :=
  validFacts invalidLoadFact .load

/-! ## The tests of the marts -/

section Marts

variable [Platform]

/-- Whether a row of the mart of inputs violates a condition. -/
def invalidInput (row : BatteryInput) : Bool :=
  row.firstSeenAt.isNone || row.stateKnownAt.isNone
    || row.source ≠ "CAISO" || row.market ≠ "DAY_AHEAD_HOURLY" || row.unit ≠ "USD/MWh"
    || secondsBetween row.intervalStartUtc row.intervalEndUtc ≠ 3600
    || row.intervalStartUtc.micros % 3600000000 ≠ 0
    || pacificDate row.intervalStartUtc ≠ .ok row.marketDate
    || row.logicalKeySchema ≠ "observation-key/v1"
    || row.contentHashSchema ≠ "observation-content/v1"

/-- The different rows of one table that another does not have. -/
def exceptDistinct {α : Type} [DecidableEq α] (rows others : List α) : List α :=
  rows.dedup.filter (· ∉ others)

/-- The differences between the price fact and the mart of inputs, and the violations of the mart. -/
def reconcileBatteryInputs (fact : List HistoryRow) : List String :=
  let expected := (priceRows fact).map fun row => batteryInput row.1 row.2
  let actual := martBatteryOptimizationInputs fact
  (exceptDistinct expected actual).map (fun _ => "missing_or_changed") ++
    (exceptDistinct actual expected).map (fun _ => "extra_or_changed") ++
    (actual.filter invalidInput).map (fun _ => "invalid") ++
    ((groupBy (fun row => (row.location, row.intervalStartUtc)) actual).filter
      (·.2.length ≠ 1)).map fun _ => "duplicate_grain"

/-- Whether a first number is below a second one that is known. -/
def belowKnown (number : ℚ) (other : Option ℚ) : Bool := other.any (number < ·)

/-- Whether a first number is above a second one that is known. -/
def aboveKnown (number : ℚ) (other : Option ℚ) : Bool := other.any (· < number)

/-- The days and hubs whose summary violates a condition. -/
def validDailyLmpSummary (summaries : List DailySummary) : List (Date × String) :=
  (summaries.filter fun row =>
    row.observationCount < 1 || decide (row.expectedHourCount < row.observationCount)
      || row.expectedHourCount ∉ [23, 24, 25]
      || row.observationCount < row.negativePriceIntervalCount
      || belowKnown row.averageLmpUsdPerMwh row.minimumLmpUsdPerMwh
      || aboveKnown row.averageLmpUsdPerMwh row.maximumLmpUsdPerMwh).map fun row =>
        (row.marketDate, row.location)

end Marts

/-! ## All tests -/

/-- The raw tables and the models before the facts violate nothing. -/
structure SourceTests (db : Database) : Prop where
  runIds : duplicates (·.runId) db.runs = []
  contentIds : ∀ product, duplicates (·.contentId) (db.contents product) = []
  transitionIds : ∀ product, duplicates (·.transitionId) (db.transitions product) = []
  statuses : unexpected (·.status.text) ["STARTED", "COMMITTED", "SUCCEEDED", "FAILED"]
    (stgIngestionRuns db) = []
  lmpUnits : unexpected (·.unit) ["USD/MWh"] (stgLmpContents db) = []
  loadUnits : unexpected (·.unit) ["MW"] (stgLoadContents db) = []
  seen : ∀ product, missing (·.firstSeenAt) (stgContents product db) = []
  known : ∀ product, missing (·.knownAt) (stgStateTransitions product db) = []
  historyIds : ∀ product, duplicates (·.transitionId) (intRevisionHistory product db) = []
  historyContents : ∀ product, orphans (·.contentId)
    ((stgContents product db).map (·.contentId)) (intRevisionHistory product db) = []
  healthGrain : duplicates (fun row => (row.source, row.product, row.requestedDate,
    row.requestedLocation)) (martIngestionHealth db) = []

/-- A fact violates nothing that its columns declare. -/
structure FactTests (product : Product) (db : Database) (fact : List HistoryRow) : Prop where
  keys : duplicates (·.logicalKey) fact = []
  contents : orphans (·.contentId) ((stgContents product db).map (·.contentId)) fact = []
  transitions : orphans (·.transitionId)
    ((intRevisionHistory product db).map (·.transitionId)) fact = []

/-- The marts over the price fact violate nothing. -/
structure MartTests [Platform] (fact : List HistoryRow) : Prop where
  inputKeys : duplicates (·.logicalKey) (martBatteryOptimizationInputs fact) = []
  inputs : reconcileBatteryInputs fact = []
  summaryGrain : duplicates (fun row => (row.marketDate, row.location))
    (martDailyLmpSummary fact) = []
  summaries : validDailyLmpSummary (martDailyLmpSummary fact) = []

/-- **All data tests but the reconciliations with the raw transitions pass.** -/
structure DataTests [Platform] (db : Database) (price load : List HistoryRow) : Prop where
  sources : SourceTests db
  priceFact : FactTests .lmp db price
  loadFact : FactTests .load db load
  validPrices : validLmpFacts price db = []
  validLoads : validLoadFacts load db = []
  marts : MartTests price

/-! ## Rows of the history pass -/

section Facts

variable [Platform] {db : Database} {product : Product} {transition : TransitionRow}
  {content : ContentRow} {request : Request} {state first : RunRow}

theorem Traced.load {record : Observation}
    (traced : Traced .load db transition content request record state first) :
    ∃ load : LoadObservation, record = .load load := by
  cases record with
  | load load => exact ⟨load, rfl⟩
  | lmp price =>
      have ofProduct := traced.admissible.product.mp rfl
      rw [traced.ofProduct] at ofProduct
      cases ofProduct

omit [Platform] in
theorem value_nonneg {number : Decimal} (nonneg : number.isNegative = false) :
    0 ≤ number.value := by
  have power : (0 : ℚ) ≤ 10 ^ number.exponent := zpow_nonneg (by norm_num) _
  rw [Decimal.value]
  by_cases negative : number.negative = true
  · have zero : number.coefficient = 0 := by simpa [Decimal.isNegative, negative] using nonneg
    rw [zero, Nat.cast_zero, mul_zero, zero_mul]
  · rw [if_neg negative, one_mul]
    exact mul_nonneg (Nat.cast_nonneg _) power

/-- **A traced row of the load fact satisfies every condition** beside its own runs and content. -/
theorem Traced.validLoad {load : LoadObservation}
    (traced : Traced .load db transition content request (.load load) state first)
    (good : Good db) (ordered : Platform.pacific.Ordered)
    (keeps : Platform.pacific.KeepsMidnights dayMicros)
    (clocks : ∀ seen known, content.firstSeenAt = some seen → transition.knownAt = some known →
      seen ≤ known) :
    invalidLoadFact (historyRow transition content) (some state) (some first) (some content) =
      false := by
  obtain ⟨seen, known, isSeen, firstKnown, isKnown, stateKnown⟩ := traced.clocks good
  have inOrder : ¬ known < seen := not_lt.mpr (clocks seen known isSeen isKnown)
  have dated : pacificDate load.interval.start = .ok request.day :=
    (pacificDate_iff ordered keeps).mp ⟨traced.admissible.start_le, traced.admissible.start_lt⟩
  have length : secondsBetween load.interval.start load.interval.stop = 300 := by
    rw [secondsBetween, load.interval.length]
    push_cast
    rw [add_sub_cancel_left]
    rfl
  have aligned : (unixSeconds load.interval.start).tmod 300 = 0 := by
    have whole := load.interval.aligned
    apply Int.tmod_eq_zero_of_dvd
    unfold unixSeconds epochMicros dayMicros
    omega
  have nonneg : ¬ load.load.value < 0 := not_lt.mpr (value_nonneg load.nonneg)
  have values : (valuesOf (.load load)).system = some ⟨"CAISO", load.load⟩ := rfl
  have row := traced.row
  obtain ⟨batch, firstRunId, firstSeenAt⟩ := content
  obtain rfl : batch = rowOf request (.load load) := row
  dsimp only at isSeen
  subst isSeen
  simp [invalidLoadFact, historyRow, rowOf, values, traced.stateSucceeded,
    traced.firstSucceeded, isKnown, stateKnown, firstKnown, laterThan, inOrder, numbersDiffer_self,
    Observation.source, Observation.unit, Observation.intervalStartUtc,
    Observation.intervalEndUtc, keySchema, contentSchema, length, aligned, dated, nonneg]

end Facts

/-! ## The raw tables and the models pass -/

section Sources

variable [Platform] {db : Database} {product : Product}

theorem Good.occurs_first (noCollisions : NoCollisions) (good : Good db) {content : ContentRow}
    (member : content ∈ stgContents product db) :
    ∃ transition, Occurs product db transition content := by
  obtain ⟨inContents, first⟩ := mem_eligible.mp member
  obtain ⟨transition, inTransitions, ofRun, refers⟩ := good.appears noCollisions inContents
  exact ⟨transition, inTransitions, ofRun ▸ first, inContents, first, refers⟩

theorem Good.unit_eq (noCollisions : NoCollisions) (good : Good db) {content : ContentRow}
    (member : content ∈ stgContents product db) :
    content.unit = match product with | .lmp => "USD/MWh" | .load => "MW" := by
  obtain ⟨transition, occurs⟩ := good.occurs_first noCollisions member
  obtain ⟨request, record, state, first, traced⟩ := occurs.traced noCollisions good
  have isUnit : content.unit = record.unit := congrArg BatchRow.unit traced.row
  rw [isUnit]
  cases product with
  | lmp =>
      obtain ⟨price, rfl⟩ := traced.lmp
      rfl
  | load =>
      obtain ⟨load, rfl⟩ := traced.load
      rfl

/-- **The raw tables and the models before the facts pass.** -/
theorem Good.sourceTests (noCollisions : NoCollisions) (good : Good db) : SourceTests db where
  runIds := duplicates_nil_iff.mpr good.unique
  contentIds product := duplicates_nil_iff.mpr (good.ids noCollisions product).1
  transitionIds product := duplicates_nil_iff.mpr (good.ids noCollisions product).2
  statuses := unexpected_nil_iff.mpr fun run _ => by cases run.status <;> decide
  lmpUnits := unexpected_nil_iff.mpr fun content member =>
    List.mem_singleton.mpr (good.unit_eq noCollisions member)
  loadUnits := unexpected_nil_iff.mpr fun content member =>
    List.mem_singleton.mpr (good.unit_eq noCollisions member)
  seen product := by
    refine missing_nil_iff.mpr fun content member => ?_
    obtain ⟨transition, occurs⟩ := good.occurs_first noCollisions member
    obtain ⟨_, _, _, _, traced⟩ := occurs.traced noCollisions good
    obtain ⟨seen, _, isSeen, _⟩ := traced.clocks good
    rw [isSeen]
    rfl
  known product := by
    refine missing_nil_iff.mpr fun transition member => ?_
    obtain ⟨inTransitions, run⟩ := mem_eligible.mp member
    obtain ⟨content, occurs⟩ := good.occurs noCollisions inTransitions run
    obtain ⟨_, _, _, _, traced⟩ := occurs.traced noCollisions good
    obtain ⟨_, known, _, _, isKnown, _⟩ := traced.clocks good
    rw [isKnown]
    rfl
  historyIds product := by
    refine duplicates_nil_iff.mpr ?_
    have ids : (intRevisionHistory product db).map (·.transitionId) =
        (stgStateTransitions product db).map (·.transitionId) := by
      rw [← good.history_single noCollisions, intRevisionHistory, List.map_map, List.map_map]
      rfl
    rw [ids, stgStateTransitions, good.eligible_eq]
    exact (List.filter_sublist.map _).nodup (good.ids noCollisions product).2
  historyContents product := by
    refine orphans_nil_iff.mpr fun row member => ?_
    obtain ⟨transition, content, occurs, rfl⟩ := mem_intRevisionHistory.mp member
    exact List.mem_map_of_mem (mem_eligible.mpr ⟨occurs.inContents, occurs.first⟩)
  healthGrain := by
    refine duplicates_nil_iff.mpr ?_
    rw [martIngestionHealth, List.map_map]
    exact groupBy_keys healthKey db.runs

omit [Platform] in
/-- **A fact with different keys passes when its rows are rows of the history.** -/
theorem factTests_of_drawn {fact : List HistoryRow} (keys : (fact.map (·.logicalKey)).Nodup)
    (drawn : fact ⊆ intRevisionHistory product db) : FactTests product db fact where
  keys := duplicates_nil_iff.mpr keys
  contents := by
    refine orphans_nil_iff.mpr fun row member => ?_
    obtain ⟨transition, content, occurs, rfl⟩ := mem_intRevisionHistory.mp (drawn member)
    exact List.mem_map_of_mem (mem_eligible.mpr ⟨occurs.inContents, occurs.first⟩)
  transitions := orphans_nil_iff.mpr fun row member => List.mem_map_of_mem (drawn member)

end Sources

/-! ## The marts pass -/

section Marts

variable [Platform] {db : Database} {fact : List HistoryRow}

/-- A row of the price fact is traced to a price. -/
theorem CurrentFacts.tracedPrice (noCollisions : NoCollisions) (good : Good db)
    (facts : CurrentFacts .lmp db fact) {row : HistoryRow × PriceColumns}
    (member : row ∈ priceRows fact) :
    ∃ transition content request price state first, row = (historyRow transition content,
        ⟨"DAY_AHEAD_HOURLY", price.location.text, price.lmp, price.energy, price.congestion,
          price.loss⟩) ∧
      Traced .lmp db transition content request (.lmp price) state first := by
  obtain ⟨history, inFact, found⟩ := List.mem_filterMap.mp member
  obtain ⟨transition, content, request, record, state, first, rfl, traced⟩ :=
    facts.traced noCollisions good inFact
  obtain ⟨price, rfl⟩ := traced.lmp
  rw [traced.price, Option.map_some] at found
  exact ⟨transition, content, request, price, state, first, (Option.some.inj found).symm, traced⟩

/-- **The grain of the mart of inputs**: one row for each hub and hour. -/
theorem CurrentFacts.grain (noCollisions : NoCollisions) (good : Good db)
    (facts : CurrentFacts .lmp db fact) :
    ((martBatteryOptimizationInputs fact).map fun row =>
      (row.location, row.intervalStartUtc)).Nodup := by
  rw [martBatteryOptimizationInputs, List.map_map]
  refine List.pairwise_map.mpr (facts.priceKeys.imp_of_mem ?_)
  intro a b inA inB different same
  obtain ⟨request, price, priced⟩ := facts.priceRow noCollisions good inA
  obtain ⟨request', price', priced'⟩ := facts.priceRow noCollisions good inB
  obtain ⟨locations, starts⟩ := Prod.mk.inj same
  have hubs : price.location = price'.location := Hub.text_injective
    (priced.location.symm.trans (Eq.trans locations priced'.location))
  have grain : (Observation.lmp price).SameGrain (.lmp price') :=
    ⟨rfl, priced.start.symm.trans (Eq.trans starts priced'.start), congrArg some hubs⟩
  exact different (priced.logicalKey.trans
    (((logicalKey_eq_iff noCollisions).mpr grain).trans priced'.logicalKey.symm))

theorem CurrentFacts.validInput (noCollisions : NoCollisions) (good : Good db)
    (ordered : Platform.pacific.Ordered) (keeps : Platform.pacific.KeepsMidnights dayMicros)
    (facts : CurrentFacts .lmp db fact) {row : HistoryRow × PriceColumns}
    (member : row ∈ priceRows fact) : invalidInput (batteryInput row.1 row.2) = false := by
  obtain ⟨transition, content, request, price, state, first, rfl, traced⟩ :=
    facts.tracedPrice noCollisions good member
  obtain ⟨seen, known, isSeen, _, isKnown, _⟩ := traced.clocks good
  have dated : pacificDate price.interval.start = .ok request.day :=
    (pacificDate_iff ordered keeps).mp ⟨traced.admissible.start_le, traced.admissible.start_lt⟩
  have length : secondsBetween price.interval.start price.interval.stop = 3600 := by
    rw [secondsBetween, price.interval.length]
    push_cast
    rw [add_sub_cancel_left]
    rfl
  have aligned : price.interval.start.micros % 3600000000 = 0 := price.interval.aligned
  have row := traced.row
  obtain ⟨batch, firstRunId, firstSeenAt⟩ := content
  obtain rfl : batch = rowOf request (.lmp price) := row
  dsimp only at isSeen
  subst isSeen
  simp [invalidInput, batteryInput, historyRow, rowOf, isKnown, Observation.source,
    Observation.unit, Observation.intervalStartUtc, Observation.intervalEndUtc, keySchema,
    contentSchema, length, aligned, dated]

/-- **The reconciliation of the mart of inputs finds nothing.** -/
theorem CurrentFacts.inputs_reconciled (noCollisions : NoCollisions) (good : Good db)
    (ordered : Platform.pacific.Ordered) (keeps : Platform.pacific.KeepsMidnights dayMicros)
    (facts : CurrentFacts .lmp db fact) : reconcileBatteryInputs fact = [] := by
  have same : ∀ {α : Type} [DecidableEq α] (rows : List α), exceptDistinct rows rows = [] := by
    intro α _ rows
    exact List.filter_eq_nil_iff.mpr fun row member outside =>
      of_decide_eq_true outside (List.mem_dedup.mp member)
  have valid : (martBatteryOptimizationInputs fact).filter invalidInput = [] := by
    refine List.filter_eq_nil_iff.mpr fun input member => ?_
    obtain ⟨row, inRows, rfl⟩ := List.mem_map.mp member
    rw [facts.validInput noCollisions good ordered keeps inRows]
    exact Bool.false_ne_true
  have single : (groupBy (fun row => (row.location, row.intervalStartUtc))
      (martBatteryOptimizationInputs fact)).filter (fun group => group.2.length ≠ 1) = [] := by
    refine List.filter_eq_nil_iff.mpr fun group member => ?_
    rw [groupBy_single (facts.grain noCollisions good) member]
    exact of_decide_eq_false rfl
  simp only [reconcileBatteryInputs, valid, single]
  rw [martBatteryOptimizationInputs, same]
  rfl

/-- The groups of the daily summary are the hours of a hub and a day. -/
theorem CurrentFacts.summary_group (noCollisions : NoCollisions) (good : Good db)
    (facts : CurrentFacts .lmp db fact) {key : String × String × String × Date}
    {rows : List (HistoryRow × PriceColumns)}
    (member : (key, rows) ∈ groupBy summaryKey (priceRows fact)) :
    key = ("CAISO", "DAY_AHEAD_HOURLY", key.2.2.1, key.2.2.2) ∧
      rows = hourRows fact key.2.2.1 key.2.2.2 ∧ rows ≠ [] := by
  have keyOf : ∀ row ∈ priceRows fact,
      summaryKey row = ("CAISO", "DAY_AHEAD_HOURLY", row.2.location, row.1.marketDate) := by
    intro row member
    obtain ⟨request, price, priced⟩ := facts.priceRow noCollisions good member
    rw [priced.location, priced.marketDate]
    exact priced.summaryKey
  obtain ⟨occurs, isGroup⟩ := mem_groupBy.mp member
  obtain ⟨row, inRows, rfl⟩ := List.mem_map.mp occurs
  have own := keyOf row inRows
  refine ⟨by rw [own], ?_, groupBy_ne_nil member⟩
  rw [isGroup, own]
  refine List.filter_congr fun other inOthers => ?_
  rw [keyOf other inOthers]
  simp

/-- **The rounded average of a group** lies between its least and its greatest price. -/
theorem CurrentFacts.average_between (noCollisions : NoCollisions) (good : Good db)
    (facts : CurrentFacts .lmp db fact) {key : String × String × String × Date}
    {rows : List (HistoryRow × PriceColumns)}
    (member : (key, rows) ∈ groupBy summaryKey (priceRows fact)) {prices : List ℚ}
    (isPrices : prices = rows.map fun row => row.2.lmp.value) {least greatest : ℚ}
    (isLeast : prices.min? = some least) (isGreatest : prices.max? = some greatest) :
    least ≤ numericRound (prices.sum / prices.length) ∧
      numericRound (prices.sum / prices.length) ≤ greatest := by
  have grid : ∀ number ∈ prices, ∃ n : ℤ, number * 10 ^ 9 = n := by
    intro number at_number
    rw [isPrices] at at_number
    obtain ⟨row, inRows, rfl⟩ := List.mem_map.mp at_number
    obtain ⟨_, _, _, price, _, _, rfl, traced⟩ :=
      facts.tracedPrice noCollisions good (key_of_mem_groupBy member inRows).1
    obtain ⟨n, isUnits, _⟩ := representable_iff.mp (traced.exact price.lmp List.mem_cons_self)
    exact ⟨n, isUnits⟩
  obtain ⟨inLeast, lower⟩ := List.min?_eq_some_iff.mp isLeast
  obtain ⟨inGreatest, upper⟩ := List.max?_eq_some_iff.mp isGreatest
  obtain ⟨n, gridLeast⟩ := grid least inLeast
  obtain ⟨m, gridGreatest⟩ := grid greatest inGreatest
  exact roundAway_mean (by norm_num) (List.ne_nil_of_mem inLeast) gridLeast gridGreatest lower upper

/-- **The daily summary violates no condition**, on a zone whose days have 23, 24 or 25 hours. -/
theorem CurrentFacts.summaries_valid (noCollisions : NoCollisions) (good : Good db)
    (ordered : Platform.pacific.Ordered) (keeps : Platform.pacific.KeepsMidnights dayMicros)
    (hours : ∀ day : Date, expectedHourCount day ∈ [23, 24, 25])
    (facts : CurrentFacts .lmp db fact) : validDailyLmpSummary (martDailyLmpSummary fact) = [] := by
  rw [validDailyLmpSummary, List.map_eq_nil_iff, List.filter_eq_nil_iff]
  intro summary member
  obtain ⟨⟨key, rows⟩, at_group, rfl⟩ := List.mem_map.mp member
  obtain ⟨_, isGroup, nonempty⟩ := facts.summary_group noCollisions good at_group
  have few := (facts.covered noCollisions ordered keeps good key.2.2.1 key.2.2.2).few
  rw [← isGroup] at few
  dsimp only
  generalize isPrices : rows.map (fun row => row.2.lmp.value) = prices
  have count : prices.length = rows.length := by rw [← isPrices, List.length_map]
  have positive : 0 < rows.length := List.length_pos_iff.mpr nonempty
  have some_ : prices ≠ [] := List.length_pos_iff.mp (count ▸ positive)
  obtain ⟨least, isLeast⟩ := Option.isSome_iff_exists.mp (List.isSome_min?_of_ne_nil some_)
  obtain ⟨greatest, isGreatest⟩ := Option.isSome_iff_exists.mp (List.isSome_max?_of_ne_nil some_)
  obtain ⟨above, below⟩ :=
    facts.average_between noCollisions good at_group isPrices.symm isLeast isGreatest
  have negatives : ¬ prices.length < prices.countP (· < 0) := Nat.not_lt.mpr List.countP_le_length
  have known : ¬ prices.length < 1 := by omega
  have within : ¬ expectedHourCount key.2.2.2 < (prices.length : ℤ) := by
    rw [count]
    exact not_lt.mpr few
  simp [dailySummary, isLeast, isGreatest, belowKnown, aboveKnown, above, below, hours key.2.2.2,
    negatives, known, within]

/-- **The marts over the price fact pass.** -/
theorem CurrentFacts.martTests (noCollisions : NoCollisions) (good : Good db)
    (ordered : Platform.pacific.Ordered) (keeps : Platform.pacific.KeepsMidnights dayMicros)
    (hours : ∀ day : Date, expectedHourCount day ∈ [23, 24, 25])
    (facts : CurrentFacts .lmp db fact) : MartTests fact where
  inputKeys := by
    refine duplicates_nil_iff.mpr ?_
    rw [martBatteryOptimizationInputs, List.map_map]
    exact List.pairwise_map.mpr facts.priceKeys
  inputs := facts.inputs_reconciled noCollisions good ordered keeps
  summaryGrain := by
    refine duplicates_nil_iff.mpr ?_
    rw [martDailyLmpSummary, List.map_map]
    have keys := groupBy_keys summaryKey (priceRows fact)
    refine List.pairwise_map.mpr ((List.pairwise_map.mp keys).imp_of_mem ?_)
    rintro ⟨key, rows⟩ ⟨key', rows'⟩ member member' different same
    obtain ⟨isKey, _⟩ := facts.summary_group noCollisions good member
    obtain ⟨isKey', _⟩ := facts.summary_group noCollisions good member'
    obtain ⟨days, locations⟩ := Prod.mk.inj same
    have sameDay : key.2.2.2 = key'.2.2.2 := days
    have sameLocation : key.2.2.1 = key'.2.2.1 := locations
    refine different ?_
    calc key = ("CAISO", "DAY_AHEAD_HOURLY", key.2.2.1, key.2.2.2) := isKey
      _ = ("CAISO", "DAY_AHEAD_HOURLY", key'.2.2.1, key'.2.2.2) := by rw [sameDay, sameLocation]
      _ = key' := isKey'.symm
  summaries := facts.summaries_valid noCollisions good ordered keeps hours

end Marts

/-! ## Every reachable state passes -/

variable [Platform]

/-- **The data tests pass in every reachable state.** Whatever was ingested and built in whatever
order, and however much is ingested between the builds and the tests, no test of the raw tables, the
models, the facts and the marts finds a violation, the reconciliations with the raw transitions
apart. -/
theorem data_tests_pass (noCollisions : NoCollisions) (ordered : Platform.pacific.Ordered)
    (keeps : Platform.pacific.KeepsMidnights dayMicros)
    (hours : ∀ day : Date, expectedHourCount day ∈ [23, 24, 25]) {s : Analytics}
    (reachable : AnalyticsReachable s) {price load : FactTable}
    (at_price : s.facts .lmp = some price) (at_load : s.facts .load = some load) :
    DataTests s.store price.rows load.rows := by
  have orderly := reachable.orderly noCollisions
  obtain ⟨priceKeys, priceDrawn⟩ := reachable.drawn noCollisions at_price
  obtain ⟨loadKeys, loadDrawn⟩ := reachable.drawn noCollisions at_load
  obtain ⟨read, _⟩ := (reachable.maintained noCollisions).table .lmp price at_price
  have facts := (reachable.refreshed noCollisions at_price).current
  refine {
    sources := orderly.good.sourceTests noCollisions
    priceFact := factTests_of_drawn priceKeys priceDrawn
    loadFact := factTests_of_drawn loadKeys loadDrawn
    validPrices := validLmpFacts_nil noCollisions orderly ordered keeps priceDrawn
    validLoads := ?validLoads
    marts := facts.martTests noCollisions read.good ordered keeps hours }
  case validLoads =>
    refine validFacts_nil noCollisions orderly loadDrawn ?_
    intro transition content request record state first traced clocks
    obtain ⟨load, rfl⟩ := traced.load
    exact traced.validLoad orderly.good ordered keeps clocks

omit [Platform] in
/-- The tests pass after both facts were built from one run for prices. -/
theorem data_tests_pass_sample :
    letI := Platform.plain
    ∃ (s : Analytics) (price load : FactTable), s.facts .lmp = some price ∧
      s.facts .load = some load ∧ DataTests s.store price.rows load.rows := by
  let _ := Platform.plain
  obtain ⟨price, at_price, _⟩ := priced.builtBoth_facts .lmp
  obtain ⟨load, at_load, _⟩ := priced.builtBoth_facts .load
  have keeps : Platform.pacific.KeepsMidnights dayMicros := fun _ => trivial
  have hours : ∀ day : Date, expectedHourCount day = 24 := by
    intro day
    have length : Platform.pacific.midnight dayMicros (day.ordinal + 1) -
        Platform.pacific.midnight dayMicros day.ordinal = dayMicros :=
      Zone.midnight_succ_of_constant (-28800000000) dayMicros day.ordinal
    rw [expectedHourCount, length]
    rfl
  exact ⟨_, price, load, at_price, at_load, @data_tests_pass Platform.plain noCollisions_plain
    List.Pairwise.nil keeps (fun day => by rw [hours day]; decide) _ priced_reachable.builtBoth _ _
    at_price at_load⟩

end PowerMarket
