import PowerMarket.Backtesting.Engine

/-!
# Complete days

The daily summary counts the rows of a hub and a day; the benchmark asks for exactly one price in
each hour. Both agree (`coverage_agrees`): the rows of a day lie in it and do not overlap, so that
there are at most as many as the day has hours, and when there are as many each of them stands in
its hour.
-/

set_option autoImplicit false

namespace PowerMarket

open Library

variable [Platform]

/-! ## The rows of a hub and a day -/

/-- The rows of the price fact for a hub and a market date. -/
def hourRows (fact : List HistoryRow) (location : String) (day : Date) :
    List (HistoryRow × PriceColumns) :=
  (priceRows fact).filter fun row => row.2.location = location && row.1.marketDate = day

/-- The start of an hour as a number. -/
def startMicros (row : HistoryRow × PriceColumns) : ℤ := row.1.intervalStartUtc.micros

/-- A row of the price fact with the request and the price that it holds. -/
structure PriceRow (db : Database) (row : HistoryRow × PriceColumns) (request : Request)
    (price : LmpObservation) : Prop where
  summaryKey : summaryKey row = ("CAISO", "DAY_AHEAD_HOURLY", price.location.text, request.day)
  start : row.1.intervalStartUtc = price.interval.start
  stop : row.1.intervalEndUtc = price.interval.stop
  logicalKey : row.1.logicalKey = (Observation.lmp price).logicalKey
  admissible : Admissible request (.lmp price)
  requested : ∃ run ∈ db.runs, run.requestedDate = request.day

section Rows

variable {db : Database} {row : HistoryRow × PriceColumns} {request : Request}
  {price : LmpObservation} {fact : List HistoryRow}

theorem PriceRow.location (priced : PriceRow db row request price) :
    row.2.location = price.location.text :=
  congrArg (fun key => key.2.2.1) priced.summaryKey

theorem PriceRow.marketDate (priced : PriceRow db row request price) :
    row.1.marketDate = request.day :=
  congrArg (fun key => key.2.2.2) priced.summaryKey

theorem CurrentFacts.priceRow (noCollisions : NoCollisions) (good : Good db)
    (facts : CurrentFacts .lmp db fact) (member : row ∈ priceRows fact) :
    ∃ request price, PriceRow db row request price := by
  obtain ⟨history, inFact, found⟩ := List.mem_filterMap.mp member
  obtain ⟨transition, content, request, record, state, first, rfl, traced⟩ :=
    facts.traced noCollisions good inFact
  obtain ⟨price, rfl⟩ := traced.lmp
  rw [traced.price, Option.map_some] at found
  obtain rfl := Option.some.inj found
  have columns := traced.row
  obtain ⟨batch, firstRunId, firstSeenAt⟩ := content
  obtain rfl : batch = rowOf request (.lmp price) := columns
  exact ⟨request, price, rfl, rfl, rfl, rfl, traced.admissible,
    first, traced.firstMember, traced.firstDate⟩

omit [Platform] in
theorem CurrentFacts.priceKeys (facts : CurrentFacts .lmp db fact) :
    (priceRows fact).Pairwise fun a b => a.1.logicalKey ≠ b.1.logicalKey := by
  have keys := List.pairwise_map.mp facts.keys
  refine keys.filterMap _ ?_
  rintro a b different ⟨a', columns⟩ found ⟨b', columns'⟩ found'
  obtain ⟨_, _, same⟩ := Option.map_eq_some_iff.mp found
  obtain ⟨_, _, same'⟩ := Option.map_eq_some_iff.mp found'
  cases same
  cases same'
  exact different

/-- **The hours of one hub and day do not overlap.** -/
theorem CurrentFacts.apart (noCollisions : NoCollisions) (good : Good db)
    (facts : CurrentFacts .lmp db fact) (location : String) (day : Date) :
    Apart hourMicros ((hourRows fact location day).map startMicros) := by
  refine List.pairwise_map.mpr ((facts.priceKeys.filter _).imp_of_mem ?_)
  intro a b inA inB different
  obtain ⟨inA, atA⟩ := List.mem_filter.mp inA
  obtain ⟨inB, atB⟩ := List.mem_filter.mp inB
  obtain ⟨request, price, priced⟩ := facts.priceRow noCollisions good inA
  obtain ⟨request', price', priced'⟩ := facts.priceRow noCollisions good inB
  simp only [Bool.and_eq_true, decide_eq_true_eq] at atA atB
  have hubs : price.location = price'.location := Hub.text_injective
    (priced.location.symm.trans (atA.1.trans (atB.1.symm.trans priced'.location)))
  have starts : price.interval.start ≠ price'.interval.start := by
    intro same
    have grain : (Observation.lmp price).SameGrain (.lmp price') :=
      ⟨rfl, same, congrArg some hubs⟩
    exact different (priced.logicalKey.trans
      (((logicalKey_eq_iff noCollisions).mpr grain).trans priced'.logicalKey.symm))
  have micros : price.interval.start.micros ≠ price'.interval.start.micros := fun same =>
    starts (UtcTime.micros_injective same)
  have aligned := price.interval.aligned
  have aligned' := price'.interval.aligned
  rw [startMicros, startMicros, priced.start, priced'.start, hourMicros]
  omega

/-- The hours of one hub and day lie in the day. -/
theorem CurrentFacts.inside (noCollisions : NoCollisions) (good : Good db)
    (facts : CurrentFacts .lmp db fact) {location : String} {day : Date}
    (member : row ∈ hourRows fact location day) :
    Platform.pacific.midnight dayMicros day.ordinal ≤ row.1.intervalStartUtc.micros ∧
      (row.1.intervalEndUtc.micros : ℤ) = row.1.intervalStartUtc.micros + hourMicros ∧
      (row.1.intervalEndUtc.micros : ℤ) ≤
        Platform.pacific.midnight dayMicros (day.ordinal + 1) := by
  obtain ⟨member, at_row⟩ := List.mem_filter.mp member
  simp only [Bool.and_eq_true, decide_eq_true_eq] at at_row
  obtain ⟨request, price, priced⟩ := facts.priceRow noCollisions good member
  have start_le := priced.admissible.start_le
  have stop_le := priced.admissible.stop_le
  have length := price.interval.length
  rw [Request.start] at start_le
  rw [Request.stop] at stop_le
  rw [← at_row.2, priced.marketDate, priced.start, priced.stop, hourMicros]
  exact ⟨start_le, by omega, stop_le⟩

/-- The slots of one hub and day lie in the day. -/
theorem CurrentFacts.slots (noCollisions : NoCollisions) (good : Good db)
    (facts : CurrentFacts .lmp db fact) {location : String} {day : Date} {start : ℤ}
    (member : start ∈ ((hourRows fact location day).map startMicros).insertionSort (· ≤ ·)) :
    Platform.pacific.midnight dayMicros day.ordinal ≤ start ∧
      start + hourMicros ≤ Platform.pacific.midnight dayMicros (day.ordinal + 1) := by
  obtain ⟨row, inRows, rfl⟩ := List.mem_map.mp ((List.mem_insertionSort _).mp member)
  obtain ⟨first, stop, last⟩ := facts.inside noCollisions good inRows
  rw [stop] at last
  exact ⟨first, last⟩

/-- A price that the facts hold stands among the hours of its hub and its day. -/
theorem CurrentFacts.hour_mem (noCollisions : NoCollisions) (good : Good db)
    (facts : CurrentFacts .lmp db fact) (admissible : Admissible request (.lmp price))
    (held : ∃ row ∈ fact, row.logicalKey = (Observation.lmp price).logicalKey) :
    ∃ row ∈ hourRows fact price.location.text request.day,
      row.1.logicalKey = (Observation.lmp price).logicalKey := by
  obtain ⟨history, inFact, sameKey⟩ := held
  obtain ⟨transition, content, _, _, _, _, rfl, traced⟩ := facts.traced noCollisions good inFact
  obtain ⟨_, rfl⟩ := traced.lmp
  have inRows : (historyRow transition content, _) ∈ priceRows fact :=
    List.mem_filterMap.mpr ⟨_, inFact, by rw [traced.price, Option.map_some]⟩
  obtain ⟨request', price', priced⟩ := facts.priceRow noCollisions good inRows
  have keys := priced.logicalKey.symm.trans sameKey
  have hubs : price'.location = price.location :=
    Option.some.inj ((logicalKey_eq_iff noCollisions).mp keys).hub
  have days : request'.day = request.day := priced.admissible.day_eq noCollisions admissible keys
  refine ⟨_, List.mem_filter.mpr ⟨inRows, ?_⟩, sameKey⟩
  rw [priced.location, priced.marketDate, hubs, days]
  simp

/-- There are at least as many hours of a hub and a day as prices for them in the facts. -/
theorem CurrentFacts.hours_ge (noCollisions : NoCollisions) (good : Good db)
    (facts : CurrentFacts .lmp db fact) {hub : Hub} {prices : List LmpObservation}
    (keys : (prices.map fun price => (Observation.lmp price).logicalKey).Nodup)
    (each : ∀ price ∈ prices, price.location = hub ∧ Admissible request (.lmp price) ∧
      ∃ row ∈ fact, row.logicalKey = (Observation.lmp price).logicalKey) :
    prices.length ≤ (hourRows fact hub.text request.day).length := by
  have inside : prices.map (fun price => (Observation.lmp price).logicalKey) ⊆
      (hourRows fact hub.text request.day).map (·.1.logicalKey) := by
    intro key member
    obtain ⟨price, inPrices, rfl⟩ := List.mem_map.mp member
    obtain ⟨rfl, admissible, held⟩ := each price inPrices
    obtain ⟨row, inRows, sameKey⟩ := facts.hour_mem noCollisions good admissible held
    exact List.mem_map.mpr ⟨row, inRows, sameKey⟩
  have fewer := (List.subperm_of_subset keys inside).length_le
  rwa [List.length_map, List.length_map] at fewer

/-- Facts that hold exactly these prices have as many hours of their hub and day. -/
theorem CurrentFacts.hours_eq (noCollisions : NoCollisions) (good : Good db)
    (facts : CurrentFacts .lmp db fact) {hub : Hub} {prices : List LmpObservation}
    (keys : (prices.map fun price => (Observation.lmp price).logicalKey).Nodup)
    (each : ∀ price ∈ prices, price.location = hub ∧ Admissible request (.lmp price))
    (holds : shown (·.logicalKey) (·.contentHash) fact = valueOf (prices.map fun price =>
      ((Observation.lmp price).logicalKey, (Observation.lmp price).contentHash))) :
    (hourRows fact hub.text request.day).length = prices.length := by
  let puts := prices.map fun price =>
    ((Observation.lmp price).logicalKey, (Observation.lmp price).contentHash)
  have putKeys : puts.map Prod.fst =
      prices.map fun price => (Observation.lmp price).logicalKey := List.map_map
  apply le_antisymm
  · have inside : fact.map (·.logicalKey) ⊆ puts.map Prod.fst := by
      intro key member
      obtain ⟨row, inFact, rfl⟩ := List.mem_map.mp member
      have found : shown (·.logicalKey) (·.contentHash) fact row.logicalKey =
          some row.contentHash := (shown_eq_some facts.keys).mpr ⟨row, inFact, rfl, rfl⟩
      rw [holds] at found
      exact List.mem_map_of_mem (mem_of_valueOf found)
    have fewer := (List.subperm_of_subset facts.keys inside).length_le
    rw [putKeys, List.length_map, List.length_map] at fewer
    exact ((List.length_filter_le _ _).trans (List.length_filterMap_le _ _)).trans fewer
  · refine facts.hours_ge noCollisions good keys fun price member => ?_
    obtain ⟨location, admissible⟩ := each price member
    have put : ((Observation.lmp price).logicalKey, (Observation.lmp price).contentHash) ∈ puts :=
      List.mem_map_of_mem member
    have found := congrFun holds (Observation.lmp price).logicalKey
    rw [(valueOf_eq_some (putKeys ▸ keys)).mpr put] at found
    obtain ⟨row, inFact, sameKey, _⟩ := (shown_eq_some facts.keys).mp found
    exact ⟨location, admissible, row, inFact, sameKey⟩

end Rows

/-- The hours of a hub and a day are in order. -/
structure Covered (rows : List (HistoryRow × PriceColumns)) (day : Date) : Prop where
  disjoint : rows.Pairwise fun a b => a.1.intervalEndUtc ≤ b.1.intervalStartUtc ∨
    b.1.intervalEndUtc ≤ a.1.intervalStartUtc
  inside : ∀ row ∈ rows,
    Platform.pacific.midnight dayMicros day.ordinal ≤ row.1.intervalStartUtc.micros ∧
      (row.1.intervalEndUtc.micros : ℤ) ≤ Platform.pacific.midnight dayMicros (day.ordinal + 1)
  few : rows.length ≤ expectedHourCount day

/-- **A day has at most as many rows of a hub as it has hours.** -/
theorem CurrentFacts.covered (noCollisions : NoCollisions) (ordered : Platform.pacific.Ordered)
    (keeps : Platform.pacific.KeepsMidnights dayMicros) {db : Database} (good : Good db)
    {fact : List HistoryRow} (facts : CurrentFacts .lmp db fact) (location : String) (day : Date) :
    Covered (hourRows fact location day) day := by
  have apart := facts.apart noCollisions good location day
  refine ⟨?_, fun row member => ?_, ?_⟩
  · refine (List.pairwise_map.mp apart).imp_of_mem ?_
    intro a b inA inB separate
    obtain ⟨_, stop, _⟩ := facts.inside noCollisions good inA
    obtain ⟨_, stop', _⟩ := facts.inside noCollisions good inB
    rw [startMicros, startMicros] at separate
    rw [UtcTime.le_iff, UtcTime.le_iff]
    omega
  · obtain ⟨first, _, last⟩ := facts.inside noCollisions good member
    exact ⟨first, last⟩
  · have positive : (0 : ℤ) < hourMicros := by decide
    have longer := Zone.midnight_lt_next ordered keeps (by decide) day.ordinal
    have fits := slots_le apart.sorted (fun _ => facts.slots noCollisions good) longer.le
    rw [List.length_insertionSort, List.length_map] at fits
    rw [expectedHourCount, Int.tdiv_eq_ediv_of_nonneg (by linarith)]
    exact (Int.le_ediv_iff_mul_le positive).mpr fits

/-! ## Modern days -/

/-- A day whose midnights are whole hours of universal time inside the calendar, 23 to 25 hours
apart. -/
structure ModernDay (day : Date) : Prop where
  followed : day.ordinal < maxOrdinal
  first : hourMicros ∣ Platform.pacific.midnight dayMicros day.ordinal
  last : hourMicros ∣ Platform.pacific.midnight dayMicros (day.ordinal + 1)
  from_first : dayMicros ≤ Platform.pacific.midnight dayMicros day.ordinal
  to_last : Platform.pacific.midnight dayMicros (day.ordinal + 1) <
    (maxOrdinal + 1 : Nat) * dayMicros
  hours : 23 ≤ expectedHourCount day ∧ expectedHourCount day ≤ 25

section Days

variable {request : Request}

/-- The hours of a modern day make up the day. -/
theorem ModernDay.exact {day : Date} (modern : ModernDay day) :
    expectedHourCount day * hourMicros =
      Platform.pacific.midnight dayMicros (day.ordinal + 1) -
        Platform.pacific.midnight dayMicros day.ordinal :=
  Int.tdiv_mul_cancel (Int.dvd_sub modern.last modern.first)

/-- A request for a modern day has bounds. -/
theorem ModernDay.bounds (modern : ModernDay request.day) :
    ∃ first stop, request.bounds = .ok (first, stop) ∧
      (first.micros : ℤ) = Platform.pacific.midnight dayMicros request.day.ordinal ∧
      (stop.micros : ℤ) = Platform.pacific.midnight dayMicros (request.day.ordinal + 1) := by
  have exact := modern.exact
  have hours := modern.hours.1
  have from_first := modern.from_first
  have to_last := modern.to_last
  rw [hourMicros] at exact
  obtain ⟨first, isFirst⟩ : ∃ first : UtcTime,
      (first.micros : ℤ) = Platform.pacific.midnight dayMicros request.day.ordinal :=
    ⟨⟨(Platform.pacific.midnight dayMicros request.day.ordinal).toNat, by omega, by omega⟩,
      Int.toNat_of_nonneg (by omega)⟩
  obtain ⟨stop, isStop⟩ : ∃ stop : UtcTime,
      (stop.micros : ℤ) = Platform.pacific.midnight dayMicros (request.day.ordinal + 1) :=
    ⟨⟨(Platform.pacific.midnight dayMicros (request.day.ordinal + 1)).toNat, by omega, by omega⟩,
      Int.toNat_of_nonneg (by omega)⟩
  exact ⟨first, stop, Request.bounds_eq_ok.mpr ⟨modern.followed, isFirst, isStop⟩, isFirst, isStop⟩

/-- The starts of the prices of a day. -/
def priceStarts (prices : List MarketPrice) (day : Date) : List ℤ :=
  (prices.filter (·.marketDate = day)).map fun price => price.interval.interval.start.micros

/-- **Separate hours that fill a day follow one another.** -/
theorem continuous_of_full {first : UtcTime} {rows : List MarketPrice} (last : ℤ)
    (separated : Separated hourMicros
      (rows.map fun price => (price.interval.interval.start.micros : ℤ)))
    (inside : ∀ price ∈ rows, (first.micros : ℤ) ≤ price.interval.interval.start.micros ∧
      price.interval.interval.start.micros + hourMicros ≤ last)
    (full : rows.length * hourMicros = last - first.micros) : continuous first rows = true := by
  refine List.all_eq_true.mpr ?_
  rintro ⟨price, i⟩ member
  have at_i := List.mem_zipIdx_iff_getElem?.mp member
  have slots : ∀ x ∈ rows.map fun price => (price.interval.interval.start.micros : ℤ),
      (first.micros : ℤ) ≤ x ∧ x + hourMicros ≤ last := by
    intro x inStarts
    obtain ⟨price, inRows, rfl⟩ := List.mem_map.mp inStarts
    exact inside price inRows
  have placed : (price.interval.interval.start.micros : ℤ) = first.micros + i * hourMicros :=
    slots_full separated slots (by rw [List.length_map]; exact full)
      (by rw [List.getElem?_map, at_i]; rfl)
  have length := price.interval.interval.length
  rw [Bool.and_eq_true, decide_eq_true_eq, decide_eq_true_eq]
  refine ⟨placed, ?_⟩
  rw [length]
  push_cast
  rw [placed, hourMicros]
  ring

/-- **A modern day whose prices lie in it and do not overlap is covered** exactly when there are as
many prices as hours. -/
theorem coveredDay_iff {inputs : List MarketPrice} (modern : ModernDay request.day)
    (apart : Apart hourMicros (priceStarts inputs request.day))
    (inside : ∀ start ∈ priceStarts inputs request.day,
      Platform.pacific.midnight dayMicros request.day.ordinal ≤ start ∧
        start + hourMicros ≤ Platform.pacific.midnight dayMicros (request.day.ordinal + 1)) :
    (∃ rows, coveredDay inputs request = .ok rows) ↔
      (priceStarts inputs request.day).length = expectedHourCount request.day := by
  obtain ⟨first, stop, bounds, isFirst, isStop⟩ := modern.bounds
  have count : ((stop.micros : ℤ) - first.micros).tdiv hourMicros =
      expectedHourCount request.day := by
    rw [isFirst, isStop]
    rfl
  rw [coveredDay, bounds]
  dsimp only [bind, Except.bind]
  rw [count, List.length_insertionSort, priceStarts, List.length_map]
  split_ifs with complete
  · exact ⟨fun _ => complete.1, fun _ => ⟨_, rfl⟩⟩
  · refine ⟨fun impossible => (nomatch impossible), fun full => ?_⟩
    refine absurd ⟨full, ?_⟩ complete
    have sorted : (((inputs.filter (·.marketDate = request.day)).insertionSort fun a b =>
        a.interval.interval.start ≤ b.interval.interval.start).map fun price =>
          (price.interval.interval.start.micros : ℤ)) =
        (priceStarts inputs request.day).insertionSort (· ≤ ·) :=
      List.map_insertionSort _ _ _ _ fun a _ b _ => by rw [UtcTime.le_iff, Nat.cast_le]
    refine continuous_of_full (Platform.pacific.midnight dayMicros (request.day.ordinal + 1))
      ?_ ?_ ?_
    · rw [sorted]
      exact apart.sorted
    · intro price member
      rw [isFirst]
      exact inside _ (List.mem_map.mpr ⟨price, (List.mem_insertionSort _).mp member, rfl⟩)
    · rw [List.length_insertionSort, full, modern.exact, isFirst]

end Days

/-! ## The counts of the summary -/

section Summary

variable {db : Database} {fact : List HistoryRow} {location : String} {day : Date}

/-- **The summary counts the rows of a hub and a day.** -/
theorem CurrentFacts.summary (noCollisions : NoCollisions) (good : Good db)
    (facts : CurrentFacts .lmp db fact) :
    (∃ summary ∈ martDailyLmpSummary fact, summary.location = location ∧
      summary.marketDate = day ∧ summary.observationCount = summary.expectedHourCount) ↔
    hourRows fact location day ≠ [] ∧
      (hourRows fact location day).length = expectedHourCount day := by
  have keyOf : ∀ row ∈ priceRows fact,
      summaryKey row = ("CAISO", "DAY_AHEAD_HOURLY", row.2.location, row.1.marketDate) := by
    intro row member
    obtain ⟨request, price, priced⟩ := facts.priceRow noCollisions good member
    rw [priced.location, priced.marketDate]
    exact priced.summaryKey
  have grouped : (priceRows fact).filter (summaryKey · =
      ("CAISO", "DAY_AHEAD_HOURLY", location, day)) = hourRows fact location day := by
    refine List.filter_congr fun row member => ?_
    rw [keyOf row member]
    simp
  constructor
  · rintro ⟨summary, member, ofLocation, ofDate, complete⟩
    obtain ⟨⟨key, group⟩, at_group, rfl⟩ := List.mem_map.mp member
    obtain ⟨occurs, rfl⟩ := mem_groupBy.mp at_group
    obtain ⟨row, inRows, rfl⟩ := List.mem_map.mp occurs
    dsimp only [dailySummary] at ofLocation ofDate complete
    rw [keyOf row inRows] at ofLocation ofDate complete
    obtain rfl : row.2.location = location := ofLocation
    obtain rfl : row.1.marketDate = day := ofDate
    rw [grouped, List.length_map] at complete
    exact ⟨List.ne_nil_of_mem (List.mem_filter.mpr ⟨inRows, by simp⟩), complete⟩
  · rintro ⟨nonempty, complete⟩
    obtain ⟨row, member⟩ := List.exists_mem_of_ne_nil _ nonempty
    obtain ⟨inRows, at_row⟩ := List.mem_filter.mp member
    simp only [Bool.and_eq_true, decide_eq_true_eq] at at_row
    refine ⟨_, List.mem_map.mpr ⟨(("CAISO", "DAY_AHEAD_HOURLY", location, day),
      hourRows fact location day), mem_groupBy.mpr ⟨?_, grouped.symm⟩, rfl⟩, rfl, rfl, ?_⟩
    · refine List.mem_map.mpr ⟨row, inRows, ?_⟩
      rw [keyOf row inRows, at_row.1, at_row.2]
    · dsimp only [dailySummary]
      rw [List.length_map]
      exact complete

end Summary

/-! ## The prices that are read -/

section Reading

variable {db : Database} {fact : List HistoryRow} {start stop : Date} {location : String}
  {prices : List MarketPrice}

/-- The prices of a hub and some days are read from the mart. -/
theorem CurrentFacts.readPrices (noCollisions : NoCollisions) (good : Good db)
    (legible : LegibleDigests) (ordered : Platform.pacific.Ordered)
    (keeps : Platform.pacific.KeepsMidnights dayMicros) (readers : TextReaders)
    (column : NumericColumn) (facts : CurrentFacts .lmp db fact) (start stop : Date)
    (location : String) :
    ∃ prices, readPrices readers column (martBatteryOptimizationInputs fact) start stop location =
        .ok prices ∧
      List.Forall₂ ReadsAs
        (selectedInputs (martBatteryOptimizationInputs fact) start stop location) prices := by
  refine mapM_ok fun input member => ?_
  have inMart := List.mem_of_mem_filter ((List.mem_insertionSort _).mp member)
  exact facts.reads noCollisions good legible ordered keeps readers column inMart

omit [Platform] in
/-- A selected input lies in the requested days and is for the requested hub. -/
theorem mem_selectedInputs {mart : List BatteryInput} {input : BatteryInput} :
    input ∈ selectedInputs mart start stop location ↔ input ∈ mart ∧
      start.ordinal ≤ input.marketDate.ordinal ∧ input.marketDate.ordinal ≤ stop.ordinal ∧
      input.location = location := by
  rw [selectedInputs, List.mem_insertionSort, List.mem_filter]
  simp only [Bool.and_eq_true, decide_eq_true_eq, and_assoc]

/-- **The prices of a requested day are the rows of the fact.** -/
theorem priceStarts_perm
    (read : List.Forall₂ ReadsAs
      (selectedInputs (martBatteryOptimizationInputs fact) start stop location) prices)
    {day : Date} (after : start.ordinal ≤ day.ordinal) (before : day.ordinal ≤ stop.ordinal) :
    (priceStarts prices day).Perm ((hourRows fact location day).map startMicros) := by
  have dated : List.Forall₂ ReadsAs
      ((selectedInputs (martBatteryOptimizationInputs fact) start stop location).filter
        (·.marketDate = day)) (prices.filter (·.marketDate = day)) :=
    List.rel_filter (fun input price reads => by
      dsimp only
      rw [reads.marketDate]) read
  have starts : List.Forall₂ (· = ·)
      (((selectedInputs (martBatteryOptimizationInputs fact) start stop location).filter
        (·.marketDate = day)).map fun input => (input.intervalStartUtc.micros : ℤ))
      (priceStarts prices day) := by
    rw [priceStarts, List.forall₂_map_left_iff, List.forall₂_map_right_iff]
    exact dated.imp fun input price reads => by rw [reads.start]
  rw [List.forall₂_eq_eq_eq] at starts
  have rows : (((martBatteryOptimizationInputs fact).filter fun input =>
      start.ordinal ≤ input.marketDate.ordinal && input.marketDate.ordinal ≤ stop.ordinal &&
        input.location = location).filter (·.marketDate = day)) =
      (hourRows fact location day).map fun row => batteryInput row.1 row.2 := by
    rw [List.filter_filter, martBatteryOptimizationInputs, List.filter_map, hourRows]
    congr 1
    refine List.filter_congr fun row _ => ?_
    simp only [Function.comp_apply, batteryInput]
    by_cases onDay : row.1.marketDate = day
    · simp [onDay, after, before]
    · simp [onDay]
  rw [← starts]
  refine (((List.perm_insertionSort _ _).filter _).map _).trans ?_
  rw [rows, List.map_map]
  exact .refl _

end Reading

/-! ## The requests of the benchmark -/

section Plans

variable {today start stop : Date} {location : String} {plan : List Request}

omit [Platform] in
/-- **The plan has a request for each of the days**, which are one to seven. -/
theorem requests_eq_ok : requests today start stop location = .ok plan ↔
    (start.ordinal ≤ stop.ordinal ∧ stop.ordinal < start.ordinal + 7) ∧
      List.Forall₂ (fun i request => ∃ day, start.plus i = .ok day ∧
        Request.create today "lmp" day (some location) = .ok request)
        (List.range (stop.ordinal + 1 - start.ordinal)) plan := by
  have count : ((stop.ordinal : ℤ) - start.ordinal + 1).toNat =
      stop.ordinal + 1 - start.ordinal := by omega
  unfold requests
  dsimp only
  rw [count]
  split_ifs with week
  · rw [mapM_eq_ok]
    simp only [bind_eq_ok]
    exact ⟨fun each => ⟨by omega, each⟩, fun each => each.2⟩
  · refine ⟨fun impossible => (nomatch impossible), fun each => ?_⟩
    exact absurd (by omega) week

omit [Platform] in
theorem requests_complete (planned : requests today start stop location = .ok plan) {day : Date}
    (after : start.ordinal ≤ day.ordinal) (before : day.ordinal ≤ stop.ordinal) :
    ∃ request ∈ plan, request.day = day := by
  obtain ⟨_, each⟩ := requests_eq_ok.mp planned
  obtain ⟨request, inPlan, day', plus, created⟩ :=
    forall₂_left each (List.mem_range.mpr (by omega : day.ordinal - start.ordinal < _))
  have ordinal := Date.plus_eq_ok.mp plus
  obtain ⟨_, _, _⟩ := day
  obtain ⟨_, _, _⟩ := day'
  obtain ⟨_, isDay, _⟩ := Request.create_eq_ok.mp created
  refine ⟨request, inPlan, isDay.trans (Date.mk.injEq .. ▸ ?_)⟩
  dsimp only at ordinal after
  omega

omit [Platform] in
theorem requests_sound (planned : requests today start stop location = .ok plan)
    {request : Request} (member : request ∈ plan) :
    start.ordinal ≤ request.day.ordinal ∧ request.day.ordinal ≤ stop.ordinal := by
  obtain ⟨_, each⟩ := requests_eq_ok.mp planned
  obtain ⟨i, inRange, day, plus, created⟩ := forall₂_right each member
  have ordinal := Date.plus_eq_ok.mp plus
  have early := List.mem_range.mp inRange
  obtain ⟨_, isDay, _⟩ := Request.create_eq_ok.mp created
  rw [isDay]
  omega

omit [Platform] in
theorem requests_exist {hub : Hub} (week : start.ordinal ≤ stop.ordinal ∧
    stop.ordinal < start.ordinal + 7) (completed : stop.ordinal < today.ordinal) :
    ∃ plan, requests today start stop hub.text = .ok plan := by
  have each : ∀ i ∈ List.range (stop.ordinal + 1 - start.ordinal), ∃ request,
      (do Request.create today "lmp" (← start.plus i) (some hub.text)) = .ok request ∧ True := by
    intro i member
    have early := List.mem_range.mp member
    have positive := start.positive
    have bounded := stop.bounded
    obtain ⟨day, ordinal⟩ : ∃ day : Date, day.ordinal = start.ordinal + i :=
      ⟨⟨start.ordinal + i, by omega, by omega⟩, rfl⟩
    have created : Request.create today "lmp" day (some hub.text) =
        .ok ⟨.lmp, day, some hub, by simp⟩ :=
      Request.create_eq_ok.mpr ⟨by omega, rfl, rfl, rfl⟩
    exact ⟨_, bind_eq_ok.mpr ⟨day, Date.plus_eq_ok.mpr ordinal, created⟩, trivial⟩
  obtain ⟨plan, planned, _⟩ := mapM_ok each
  rw [mapM_eq_ok] at planned
  exact ⟨plan, requests_eq_ok.mpr ⟨week, planned.imp fun _ _ => bind_eq_ok.mp⟩⟩

/-- **The checks before any solve**, one by one. -/
theorem dailyGroups_eq_ok {inputs : List MarketPrice} {config : Optimization.BatteryConfig}
    {groups : List (List MarketPrice)} :
    dailyGroups today inputs start stop location config = .ok groups ↔
      ∃ plan, requests today start stop location = .ok plan ∧
        config.initialSocMwh = config.terminalSocMwh ∧
        (∀ row ∈ inputs, row.location.text = location ∧
          start.ordinal ≤ row.marketDate.ordinal ∧ row.marketDate.ordinal ≤ stop.ordinal) ∧
        (inputs.map (·.logicalKey)).Nodup ∧ plan.mapM (coveredDay inputs) = .ok groups := by
  have outside : (inputs.any fun row => row.location.text ≠ location ||
      !(start.ordinal ≤ row.marketDate.ordinal && row.marketDate.ordinal ≤ stop.ordinal)) = false ↔
      ∀ row ∈ inputs, row.location.text = location ∧
        start.ordinal ≤ row.marketDate.ordinal ∧ row.marketDate.ordinal ≤ stop.ordinal := by
    simp only [List.any_eq_false, Bool.or_eq_true, Bool.not_eq_true', not_or, Bool.not_eq_false,
      Bool.and_eq_true, decide_eq_true_eq, ne_eq, not_not]
  have distinct : (inputs.map (·.logicalKey)).dedup.length = inputs.length ↔
      (inputs.map (·.logicalKey)).Nodup := by
    have same := (List.dedup_sublist (inputs.map (·.logicalKey))).length_eq
    rw [List.length_map] at same
    rw [same, List.dedup_eq_self]
  rw [← distinct]
  simp only [← outside, dailyGroups, bind_eq_ok]
  refine exists_congr fun plan => and_congr_right fun _ => ?_
  by_cases soc : config.initialSocMwh = config.terminalSocMwh
  · rw [if_neg (not_not.mpr soc)]
    cases inside : inputs.any fun row => row.location.text ≠ location ||
        !(start.ordinal ≤ row.marketDate.ordinal && row.marketDate.ordinal ≤ stop.ordinal) with
    | true =>
        rw [if_pos rfl]
        exact ⟨fun impossible => (nomatch impossible), fun checks => nomatch checks.2.1⟩
    | false =>
        rw [if_neg Bool.false_ne_true]
        by_cases keys : (inputs.map (·.logicalKey)).dedup.length = inputs.length
        · rw [if_neg (not_not.mpr keys)]
          exact ⟨fun covered => ⟨soc, rfl, keys, covered⟩, fun checks => checks.2.2.2⟩
        · rw [if_pos keys]
          exact ⟨fun impossible => (nomatch impossible), fun checks => absurd checks.2.2.1 keys⟩
  · rw [if_pos soc]
    exact ⟨fun impossible => (nomatch impossible), fun checks => absurd checks.1 soc⟩

end Plans

/-! ## Both sides agree -/

section Agreement

variable {db : Database} {fact : List HistoryRow} {today start stop : Date} {location : String}
  {prices : List MarketPrice}

/-- **The benchmark accepts the prices of a modern day** exactly when the summary of the day counts
as many rows as hours. -/
theorem CurrentFacts.coveredDay_iff_summary (noCollisions : NoCollisions) (good : Good db)
    (facts : CurrentFacts .lmp db fact)
    (read : List.Forall₂ ReadsAs
      (selectedInputs (martBatteryOptimizationInputs fact) start stop location) prices)
    {request : Request} (modern : ModernDay request.day)
    (after : start.ordinal ≤ request.day.ordinal) (before : request.day.ordinal ≤ stop.ordinal) :
    (∃ rows, coveredDay prices request = .ok rows) ↔
      ∃ summary ∈ martDailyLmpSummary fact, summary.location = location ∧
        summary.marketDate = request.day ∧
        summary.observationCount = summary.expectedHourCount := by
  have perm := priceStarts_perm read after before
  have apart := (facts.apart noCollisions good location request.day).perm perm.symm
  have inside : ∀ first ∈ priceStarts prices request.day,
      Platform.pacific.midnight dayMicros request.day.ordinal ≤ first ∧
        first + hourMicros ≤ Platform.pacific.midnight dayMicros (request.day.ordinal + 1) :=
    fun _ member => facts.slots noCollisions good
      ((List.mem_insertionSort _).mpr (perm.subset member))
  rw [coveredDay_iff modern apart inside, facts.summary noCollisions good, perm.length_eq,
    List.length_map]
  refine ⟨fun full => ⟨?_, full⟩, fun full => full.2⟩
  intro empty
  have hours := modern.hours.1
  rw [← full, empty] at hours
  exact absurd hours (by decide)

/-- The prices that are read are for the requested hub and days. -/
theorem requested_prices {mart : List BatteryInput}
    (read : List.Forall₂ ReadsAs (selectedInputs mart start stop location) prices) :
    ∀ row ∈ prices, row.location.text = location ∧
      start.ordinal ≤ row.marketDate.ordinal ∧ row.marketDate.ordinal ≤ stop.ordinal := by
  intro row member
  obtain ⟨input, selected, reads⟩ := forall₂_right read member
  obtain ⟨_, after, before, here⟩ := mem_selectedInputs.mp selected
  rw [reads.location, reads.marketDate]
  exact ⟨here, after, before⟩

/-- The prices that are read have different keys. -/
theorem CurrentFacts.distinct_prices (facts : CurrentFacts .lmp db fact)
    (read : List.Forall₂ ReadsAs
      (selectedInputs (martBatteryOptimizationInputs fact) start stop location) prices) :
    (prices.map (·.logicalKey)).Nodup := by
  have mart : ((martBatteryOptimizationInputs fact).map (·.logicalKey)).Nodup := by
    rw [martBatteryOptimizationInputs, List.map_map]
    exact List.pairwise_map.mpr facts.priceKeys
  have selected : ((selectedInputs (martBatteryOptimizationInputs fact) start stop location).map
      (·.logicalKey)).Nodup :=
    ((List.perm_insertionSort _ _).map _).nodup_iff.mpr (mart.sublist (List.filter_sublist.map _))
  have keys : List.Forall₂ (· = ·)
      ((selectedInputs (martBatteryOptimizationInputs fact) start stop location).map
        (·.logicalKey)) (prices.map (·.logicalKey)) := by
    rw [List.forall₂_map_left_iff, List.forall₂_map_right_iff]
    exact read.imp fun _ _ reads => reads.logicalKey.symm
  rw [List.forall₂_eq_eq_eq] at keys
  rwa [← keys]

/-- A hub and a day with a complete summary can be requested. -/
theorem CurrentFacts.summarized (noCollisions : NoCollisions) (good : Good db)
    (facts : CurrentFacts .lmp db fact)
    (completed : ∀ run ∈ db.runs, run.requestedDate.ordinal < today.ordinal) {day : Date}
    (complete : ∃ summary ∈ martDailyLmpSummary fact, summary.location = location ∧
      summary.marketDate = day ∧ summary.observationCount = summary.expectedHourCount) :
    (∃ hub : Hub, location = hub.text) ∧ day.ordinal < today.ordinal := by
  obtain ⟨nonempty, _⟩ := (facts.summary noCollisions good).mp complete
  obtain ⟨row, member⟩ := List.exists_mem_of_ne_nil _ nonempty
  obtain ⟨inRows, at_row⟩ := List.mem_filter.mp member
  simp only [Bool.and_eq_true, decide_eq_true_eq] at at_row
  obtain ⟨request, price, priced⟩ := facts.priceRow noCollisions good inRows
  obtain ⟨run, at_run, requested⟩ := priced.requested
  refine ⟨⟨price.location, at_row.1.symm.trans priced.location⟩, ?_⟩
  rw [← at_row.2, priced.marketDate, ← requested]
  exact completed run at_run

end Agreement

/-- **Coverage on both sides of the warehouse agrees.** In every price fact, the hours of a hub and
a day do not overlap, lie in the day and are at most as many as the day has. For a hub and one to
seven modern days the benchmark accepts the prices that it reads from the mart exactly when the
daily summary counts every hour of each of the days. -/
theorem coverage_agrees (noCollisions : NoCollisions) (legible : LegibleDigests)
    (ordered : Platform.pacific.Ordered) (keeps : Platform.pacific.KeepsMidnights dayMicros)
    {s : Analytics} (reachable : AnalyticsReachable s) {fact : FactTable}
    (at_fact : s.facts .lmp = some fact) (readers : TextReaders) (column : NumericColumn) :
    (∀ location day, Covered (hourRows fact.rows location day) day) ∧
    ∀ (today start stop : Date) (location : String) (config : Optimization.BatteryConfig),
      start.ordinal ≤ stop.ordinal → stop.ordinal < start.ordinal + 7 →
      (∀ run ∈ fact.readPoint.runs, run.requestedDate.ordinal < today.ordinal) →
      (∀ day : Date, start.ordinal ≤ day.ordinal → day.ordinal ≤ stop.ordinal → ModernDay day) →
      config.initialSocMwh = config.terminalSocMwh →
      ∃ prices,
        readPrices readers column (martBatteryOptimizationInputs fact.rows) start stop location =
          .ok prices ∧
        ((∃ groups, dailyGroups today prices start stop location config = .ok groups) ↔
          ∀ day : Date, start.ordinal ≤ day.ordinal → day.ordinal ≤ stop.ordinal →
            ∃ summary ∈ martDailyLmpSummary fact.rows, summary.location = location ∧
              summary.marketDate = day ∧
              summary.observationCount = summary.expectedHourCount) := by
  have good := (((reachable.maintained noCollisions).table .lmp fact at_fact).1).good
  have facts := (reachable.refreshed noCollisions at_fact).current
  refine ⟨facts.covered noCollisions ordered keeps good, ?_⟩
  intro today start stop location config first last completed modern soc
  obtain ⟨prices, isRead, read⟩ := facts.readPrices noCollisions good legible ordered keeps readers
    column start stop location
  have agrees : ∀ {request : Request}, start.ordinal ≤ request.day.ordinal →
      request.day.ordinal ≤ stop.ordinal → ((∃ rows, coveredDay prices request = .ok rows) ↔ _) :=
    fun after before => facts.coveredDay_iff_summary noCollisions good read
      (modern _ after before) after before
  refine ⟨prices, isRead, ?_⟩
  constructor
  · rintro ⟨groups, accepted⟩ day after before
    obtain ⟨plan, planned, _, _, _, covered⟩ := dailyGroups_eq_ok.mp accepted
    obtain ⟨request, inPlan, rfl⟩ := requests_complete planned after before
    obtain ⟨rows, _, isCovered⟩ := forall₂_left (mapM_eq_ok.mp covered) inPlan
    exact (agrees after before).mp ⟨rows, isCovered⟩
  · intro complete
    obtain ⟨⟨hub, rfl⟩, ended⟩ :=
      facts.summarized noCollisions good completed (complete stop first le_rfl)
    obtain ⟨plan, planned⟩ := requests_exist ⟨first, last⟩ ended
    have each : ∀ request ∈ plan, ∃ rows, coveredDay prices request = .ok rows ∧ True := by
      intro request inPlan
      obtain ⟨after, before⟩ := requests_sound planned inPlan
      obtain ⟨rows, covered⟩ := (agrees after before).mpr (complete _ after before)
      exact ⟨rows, covered, trivial⟩
    obtain ⟨groups, covered, _⟩ := mapM_ok each
    exact ⟨groups, dailyGroups_eq_ok.mpr ⟨plan, planned, soc, requested_prices read,
      facts.distinct_prices read, covered⟩⟩

omit [Platform] in
/-- In a zone that never changes its clock the day of the sample is modern. -/
theorem sampleDay_modern : @ModernDay Platform.plain samplePriceRequest.day :=
  @ModernDay.mk Platform.plain _ (by decide) (by decide) (by decide) (by decide) (by decide)
    (by decide)

/-- The price of an hour of the day. -/
def hourPrice (hour : Fin 24) : LmpObservation :=
  ⟨.np15, sampleHour (Fin.castAdd 24 hour), ⟨false, 4200, -2⟩, ⟨false, 40, 0⟩, ⟨false, 1, 0⟩,
    ⟨false, 1, 0⟩, samplePrice.provenance⟩

/-- The prices of the first hours of the day. -/
def hourPrices (n : Nat) : List LmpObservation := ((List.finRange 24).take n).map hourPrice

/-- A run that accepts them. -/
def hoursEntry (n : Nat) : Entry :=
  .own sampleRunId samplePriceRequest ((hourPrices n).map .lmp) sampleStart (some sampleHourEnd)

omit [Platform] in
theorem hourPrices_length {n : Nat} (few : n ≤ 24) : (hourPrices n).length = n := by
  rw [hourPrices, List.length_map, List.length_take, List.length_finRange, min_eq_left few]

theorem hourPrices_keys (noCollisions : NoCollisions) (n : Nat) :
    ((hourPrices n).map fun price => (Observation.lmp price).logicalKey).Nodup := by
  rw [hourPrices, List.map_map]
  refine ((List.nodup_finRange 24).sublist (List.take_sublist n _)).map fun a b same => ?_
  have start := congrArg UtcTime.micros ((logicalKey_eq_iff noCollisions).mp same).start
  have micros : sampleMicros a = sampleMicros b := start
  rw [sampleMicros, sampleMicros] at micros
  omega

omit [Platform] in
theorem hourPrice_admissible (hour : Fin 24) :
    @Admissible Platform.plain samplePriceRequest (.lmp (hourPrice hour)) := by
  let _ := Platform.plain
  have inside : ∀ hour : Fin 24, let interval := sampleHour (Fin.castAdd 24 hour)
      samplePriceRequest.start ≤ interval.start.micros ∧
        interval.start.micros < samplePriceRequest.stop ∧
        interval.stop.micros ≤ samplePriceRequest.stop := by
    decide +kernel
  obtain ⟨start_le, start_lt, stop_le⟩ := inside hour
  exact ⟨iff_of_true rfl rfl, start_le, start_lt, stop_le, rfl⟩

omit [Platform] in
theorem hourPrice_stored (hour : Fin 24) :
    ∀ value ∈ decimalsOf (.lmp (hourPrice hour)), Storable value := by
  have decimals : decimalsOf (.lmp (hourPrice hour)) =
      [⟨false, 4200, -2⟩, ⟨false, 40, 0⟩, ⟨false, 1, 0⟩, ⟨false, 1, 0⟩] := rfl
  rw [decimals, List.forall_mem_cons, List.forall_mem_cons, List.forall_mem_cons,
    List.forall_mem_singleton]
  exact ⟨rfl, rfl, rfl, rfl⟩

omit [Platform] in
theorem hoursEntry_batch {n : Nat} (few : n ≤ 24) : letI := Platform.plain
    ∃ batch, batchRows samplePriceRequest ((hourPrices n).map .lmp) = .ok batch := by
  let _ := Platform.plain
  have length := hourPrices_length few
  refine ⟨_, batchRows_eq_ok.mpr ⟨rfl, ?_, ?_, ?_⟩⟩
  · rw [List.length_map, length, maxBatchRows]
    omega
  · rw [List.forall_mem_map, hourPrices, List.forall_mem_map]
    exact fun hour _ => ⟨hourPrice_admissible hour, hourPrice_stored hour⟩
  · rw [List.map_map]
    exact hourPrices_keys noCollisions_plain n

/-- After some runs were executed one after another, the manifests are those of their requests. -/
theorem Replays.requested (noCollisions : NoCollisions) {db : Database} {s : WarehouseSystem}
    (replays : Replays db s) {entries : List Entry}
    (accepted : acceptAll entries Database.seeded = .ok db) : ∀ row ∈ s.world.store.runs,
      ∃ entry ∈ entries, row.runId = entry.runId ∧ row.requestedDate = entry.request.day := by
  intro row member
  obtain ⟨c, sound⟩ := replays.sound
  obtain ⟨_, other, inSerial, ofRun, bound⟩ := replays.runs row member
  obtain ⟨request, requestId, _, date, _⟩ := sound.bound row member
  have listed := List.mem_map_of_mem (f := fun row : RunRow => (row.runId, row.requestId)) inSerial
  rw [acceptAll_bound accepted] at listed
  obtain ⟨entry, inEntries, same⟩ := List.mem_map.mp listed
  obtain ⟨sameRun, sameRequest⟩ := Prod.mk.inj same
  have requested : request = entry.request := Request.requestId_injective noCollisions
    (requestId.symm.trans (bound.symm.trans sameRequest.symm))
  exact ⟨entry, inEntries, ofRun.symm.trans sameRun.symm, requested ▸ date⟩

omit [Platform] in
/-- The first hours of the day are ingested and the fact is built. -/
theorem exists_hours {n : Nat} (few : n ≤ 24) : letI := Platform.plain
    ∃ (s : Analytics) (fact : FactTable), AnalyticsReachable s ∧ s.facts .lmp = some fact ∧
      (hourRows fact.rows Hub.np15.text samplePriceRequest.day).length = n ∧
      ∀ run ∈ fact.readPoint.runs, run.requestedDate = samplePriceRequest.day := by
  let _ := Platform.plain
  obtain ⟨batch, batched⟩ := hoursEntry_batch few
  have distinct : ([hoursEntry n].map (·.runId)).Nodup := List.nodup_singleton _
  have passes : isRunId sampleRunId = true ∧ (hoursEntry n).finalization ≠ none :=
    ⟨by decide, Option.some_ne_none _⟩
  obtain ⟨_, db, accepted, _⟩ := acceptAll_ok noCollisions_plain distinct
    (List.forall_mem_singleton.mpr ⟨passes.1, passes.2, batch, batched⟩)
  obtain ⟨s, _, replays⟩ := bootstrapped_replays.run serial_seeded accepted
  obtain ⟨fact, at_fact, read⟩ := s.built_fact .lmp
  have built := replays.reachable.built .lmp
  have facts : CurrentFacts .lmp s.world.store fact.rows :=
    read ▸ (built.refreshed noCollisions_plain at_fact).current
  refine ⟨_, fact, built, at_fact, ?_, fun run member => ?_⟩
  · have holds := replays.shows noCollisions_plain facts accepted
    have put : storeAfter .lmp [hoursEntry n] = valueOf ((hoursEntry n).puts .lmp) := by
      funext key
      exact (putAll_apply (Entry.puts_keys batched .lmp) _ key).trans Option.or_none
    have puts : (hoursEntry n).puts .lmp = (hourPrices n).map fun price =>
        ((Observation.lmp price).logicalKey, (Observation.lmp price).contentHash) :=
      (if_pos rfl).trans List.map_map
    rw [put, puts] at holds
    rw [facts.hours_eq noCollisions_plain replays.reachable.orderly.good
      (hourPrices_keys noCollisions_plain n) (fun price member => ?_) holds, hourPrices_length few]
    obtain ⟨hour, _, rfl⟩ := List.mem_map.mp member
    exact ⟨rfl, hourPrice_admissible hour⟩
  · obtain ⟨entry, inEntries, _, date⟩ :=
      replays.requested noCollisions_plain accepted run (read ▸ member)
    obtain rfl := List.mem_singleton.mp inEntries
    exact date

omit [Platform] in
/-- A day with an hour missing is refused by the benchmark, and a whole day is accepted. -/
theorem coverage_agrees_sample :
    letI := Platform.plain
    (∃ (s : Analytics) (fact : FactTable) (prices : List MarketPrice), s.facts .lmp = some fact ∧
      (hourRows fact.rows Hub.np15.text samplePriceRequest.day).length = 23 ∧
      readPrices noReaders ninePlacesColumn (martBatteryOptimizationInputs fact.rows)
        samplePriceRequest.day samplePriceRequest.day Hub.np15.text = .ok prices ∧
      ¬∃ groups, dailyGroups sampleNextDay prices samplePriceRequest.day samplePriceRequest.day
        Hub.np15.text Optimization.sampleConfig = .ok groups) ∧
    ∃ (s : Analytics) (fact : FactTable) (prices : List MarketPrice), s.facts .lmp = some fact ∧
      (hourRows fact.rows Hub.np15.text samplePriceRequest.day).length = 24 ∧
      readPrices noReaders ninePlacesColumn (martBatteryOptimizationInputs fact.rows)
        samplePriceRequest.day samplePriceRequest.day Hub.np15.text = .ok prices ∧
      ∃ groups, dailyGroups sampleNextDay prices samplePriceRequest.day samplePriceRequest.day
        Hub.np15.text Optimization.sampleConfig = .ok groups := by
  let _ := Platform.plain
  have keeps : Platform.pacific.KeepsMidnights dayMicros := fun _ => trivial
  have each : ∀ n ≤ 24, ∃ (s : Analytics) (fact : FactTable) (prices : List MarketPrice),
      s.facts .lmp = some fact ∧
      (hourRows fact.rows Hub.np15.text samplePriceRequest.day).length = n ∧
      readPrices noReaders ninePlacesColumn (martBatteryOptimizationInputs fact.rows)
        samplePriceRequest.day samplePriceRequest.day Hub.np15.text = .ok prices ∧
      ((∃ groups, dailyGroups sampleNextDay prices samplePriceRequest.day samplePriceRequest.day
        Hub.np15.text Optimization.sampleConfig = .ok groups) ↔ n = 24) := by
    intro n few
    obtain ⟨s, fact, reachable, at_fact, hours, requested⟩ := exists_hours few
    have good := ((reachable.maintained noCollisions_plain).table .lmp fact at_fact).1.good
    have facts := (reachable.refreshed noCollisions_plain at_fact).current
    have expected : expectedHourCount samplePriceRequest.day = 24 := by decide
    have onlyDay : ∀ day : Date, samplePriceRequest.day.ordinal ≤ day.ordinal →
        day.ordinal ≤ samplePriceRequest.day.ordinal → day = samplePriceRequest.day :=
      fun day after before => Date.ordinal_injective (le_antisymm before after)
    obtain ⟨_, agrees⟩ := coverage_agrees noCollisions_plain legibleDigests_plain
      List.Pairwise.nil keeps reachable at_fact noReaders ninePlacesColumn
    obtain ⟨prices, read, accepts⟩ := agrees sampleNextDay samplePriceRequest.day
      samplePriceRequest.day Hub.np15.text Optimization.sampleConfig le_rfl
      (Nat.lt_add_of_pos_right (by decide))
      (fun run member => by rw [requested run member]; decide)
      (fun day after before => onlyDay day after before ▸ sampleDay_modern) rfl
    refine ⟨s, fact, prices, at_fact, hours, read, accepts.trans ⟨fun complete => ?_, ?_⟩⟩
    · obtain ⟨_, whole⟩ :=
        (facts.summary noCollisions_plain good).mp (complete samplePriceRequest.day le_rfl le_rfl)
      rw [hours, expected] at whole
      exact_mod_cast whole
    · rintro rfl day after before
      obtain rfl := onlyDay day after before
      refine (facts.summary noCollisions_plain good).mpr
        ⟨List.ne_nil_of_length_pos (hours ▸ by decide), ?_⟩
      rw [hours, expected]
      rfl
  obtain ⟨s, fact, prices, at_fact, hours, read, accepts⟩ := each 23 (by decide)
  obtain ⟨s', fact', prices', at_fact', hours', read', accepts'⟩ := each 24 le_rfl
  exact ⟨⟨s, fact, prices, at_fact, hours, read, fun accepted => absurd (accepts.mp accepted)
    (by decide)⟩, s', fact', prices', at_fact', hours', read', accepts'.mpr rfl⟩

end PowerMarket
