import PowerMarket.Analytics.Builds
import PowerMarket.Analytics.Checks
import PowerMarket.Backtesting.Inputs

/-!
# What the writer produces, the reader accepts

The rows of the input mart pass every check of the reader, which finds in them the price, the
interval, the hub, the date and the lineage of the fact (`Traced.reads`), and the tests of the
price models find no violation (`writer_accepted`).
-/

set_option autoImplicit false

namespace PowerMarket

open Library

/-! ## Delivered rows -/

/-- A clock as the client returns it. -/
def Object.ofClock : Option UtcTime → Object
  | .some time => .datetime ⟨time, .some 0⟩
  | .none => Object.none

/-- A row of the input mart as the client returns it: timestamps are in universal time, and the
decimal column keeps values. -/
def BatteryInput.delivered (column : NumericColumn) (input : BatteryInput) : Mapping :=
  [("source", .text input.source),
    ("market", .text input.market),
    ("unit", .text input.unit),
    ("market_date", .date input.marketDate),
    ("location", .text input.location),
    ("interval_start_utc", .ofClock (some input.intervalStartUtc)),
    ("interval_end_utc", .ofClock (some input.intervalEndUtc)),
    ("lmp", .decimal (.finite (column.store input.lmp))),
    ("logical_key", .text input.logicalKey),
    ("content_id", .text input.contentId),
    ("content_hash", .text input.contentHash),
    ("logical_key_schema", .text input.logicalKeySchema),
    ("content_hash_schema", .text input.contentHashSchema),
    ("transition_id", .text input.transitionId),
    ("state_run_id", .text input.stateRunId),
    ("state_ordinal", .integer input.stateOrdinal),
    ("commit_sequence", .integer input.commitSequence),
    ("first_seen_at", .ofClock input.firstSeenAt),
    ("state_known_at", .ofClock input.stateKnownAt)]

variable [Platform]

/-- The price that was read has the values of the row. -/
structure ReadsAs (input : BatteryInput) (price : MarketPrice) : Prop where
  lmp : price.interval.price.value = input.lmp.value
  start : price.interval.interval.start = input.intervalStartUtc
  stop : price.interval.interval.stop = input.intervalEndUtc
  location : price.location.text = input.location
  marketDate : price.marketDate = input.marketDate
  logicalKey : price.logicalKey = input.logicalKey
  contentId : price.contentId = input.contentId
  contentHash : price.contentHash = input.contentHash
  transitionId : price.transitionId = input.transitionId
  stateRunId : price.stateRunId = input.stateRunId
  stateOrdinal : price.stateOrdinal = input.stateOrdinal
  commitSequence : price.commitSequence = input.commitSequence
  firstSeenAt : some price.firstSeenAt = input.firstSeenAt
  stateKnownAt : some price.stateKnownAt = input.stateKnownAt

/-- The assumption that digests, which are hexadecimal, are not blank. -/
def LegibleDigests : Prop := ∀ schema fields, isBlank (digest schema fields) = false

omit [Platform] in
theorem isRunId_legible {runId : String} (valid : isRunId runId = true) :
    isBlank runId = false := by
  have visible : hexDigits.all (fun c => !isSpace c) = true := by rfl
  have length := isRunId_length valid
  simp only [isRunId, Bool.and_eq_true, List.all_eq_true] at valid
  obtain ⟨c, member⟩ : ∃ c, c ∈ runId.toList :=
    List.exists_mem_of_length_pos (by rw [length]; decide)
  have seen := List.all_eq_true.mp visible c (of_decide_eq_true (valid.2 c member))
  rw [isBlank, ← Bool.not_eq_true]
  intro blank
  rw [List.all_eq_true.mp blank c member] at seen
  cases seen

omit [Platform] in
theorem fitsSolver_of_representable {d : Decimal} (fits : Representable d.value) :
    fitsSolver d = true := by
  obtain ⟨n, same, bounded⟩ := fits
  have small : |(n : ℚ)| < 10 ^ 38 := by exact_mod_cast bounded
  rw [fitsSolver, decide_eq_true_iff, same, abs_div]
  have scale : |(10 : ℚ) ^ 9| = 10 ^ 9 := abs_of_pos (by positivity)
  rw [scale, div_lt_iff₀ (by positivity)]
  have small' : (10 : ℚ) ^ 38 < 2 ^ 127 := by norm_num
  have large : (2 : ℚ) ^ 127 ≤ 2 ^ 970 := pow_le_pow_right₀ (by norm_num) (by norm_num)
  have limit : (2 : ℚ) ^ 1024 = 2 ^ 970 * 2 ^ 54 := by rw [← pow_add]
  rw [limit]
  generalize (2 : ℚ) ^ 970 = p at large ⊢
  generalize (2 : ℚ) ^ 127 = q at large small'
  have room : p * 2 ≤ p * 2 ^ 54 := mul_le_mul_of_nonneg_left (by norm_num) (by linarith)
  linarith

/-- The fields of a delivered row are read as they are. -/
theorem readFields_delivered (readers : TextReaders) (column : NumericColumn)
    {input : BatteryInput} {seen known : UtcTime} (isSeen : input.firstSeenAt = some seen)
    (isKnown : input.stateKnownAt = some known) :
    readFields readers (input.delivered column) =
      (PriceInterval.create ⟨input.intervalStartUtc, some 0⟩ ⟨input.intervalEndUtc, some 0⟩
        (.finite (column.store input.lmp))).bind fun interval =>
          MarketPrice.create interval input.marketDate input.location input.logicalKey
            input.contentId input.contentHash input.transitionId input.stateRunId
            input.stateOrdinal input.commitSequence ⟨seen, some 0⟩ ⟨known, some 0⟩ := by
  simp [readFields, Mapping.marketDate, Mapping.rawPrice, Mapping.timestamp, Mapping.text,
    Mapping.integer, Mapping.value, BatteryInput.delivered, List.lookup_cons, Object.ofClock,
    isSeen, isKnown, bind, Except.bind]

section Reading

variable {db : Database} {transition : TransitionRow} {content : ContentRow} {request : Request}
  {state first : RunRow}

/-- **The reader accepts the row of a traced price** and finds its values. -/
theorem Traced.reads {price : LmpObservation}
    (traced : Traced .lmp db transition content request (.lmp price) state first)
    (good : Good db) (legible : LegibleDigests) (ordered : Platform.pacific.Ordered)
    (keeps : Platform.pacific.KeepsMidnights dayMicros) (readers : TextReaders)
    (column : NumericColumn) {columns : PriceColumns}
    (found : (historyRow transition content).values.price = some columns) :
    ∃ read, fromRow readers
        ((batteryInput (historyRow transition content) columns).delivered column) = .ok read ∧
      ReadsAs (batteryInput (historyRow transition content) columns) read := by
  obtain ⟨seen, known, isSeen, _, isKnown, _⟩ := traced.clocks good
  have dated : pacificDate price.interval.start = .ok request.day :=
    (pacificDate_iff ordered keeps).mp ⟨traced.admissible.start_le, traced.admissible.start_lt⟩
  have exact : (column.store price.lmp).value = price.lmp.value :=
    column.exact _ (traced.exact _ List.mem_cons_self)
  have fits : fitsSolver (column.store price.lmp) = true := by
    refine fitsSolver_of_representable ?_
    rw [exact]
    exact traced.exact _ List.mem_cons_self
  have ids : ∀ text ∈ [content.logicalKey, content.contentId, content.contentHash,
      transition.transitionId, transition.runId], isBlank text = false := by
    obtain ⟨fields, identity⟩ := traced.identity
    have row := traced.row
    simp only [List.forall_mem_cons, List.not_mem_nil, false_implies, implies_true, and_true]
    refine ⟨?_, ?_, ?_, ?_, isRunId_legible traced.runId⟩
    · rw [row]
      exact legible _ _
    · rw [row]
      exact legible _ _
    · rw [row]
      exact legible _ _
    · rw [identity]
      exact legible _ _
  have positive : (1 : Int) ≤ transition.ordinal ∧ (1 : Int) ≤ transition.commitSequence :=
    ⟨by exact_mod_cast traced.ordinal, by exact_mod_cast traced.positive⟩
  rw [traced.price] at found
  cases found
  have row := traced.row
  obtain ⟨batch, firstRunId, firstSeenAt⟩ := content
  obtain rfl : batch = rowOf request (.lmp price) := row
  dsimp only at isSeen
  subst isSeen
  refine ⟨⟨⟨price.interval, column.store price.lmp, fits⟩, request.day, price.location,
    _, _, _, transition.transitionId, transition.runId, transition.ordinal,
    transition.commitSequence, seen, known, dated, ids, positive⟩,
    fromRow_eq_ok.mpr ⟨?_, ?_, ?_⟩, ?_⟩
  · simp [Mapping.missingOrNull, columns, Mapping.value, BatteryInput.delivered, List.lookup_cons,
      batteryInput, historyRow, Object.ofClock, isKnown]
  · simp [fixedColumns, Mapping.value, BatteryInput.delivered, List.lookup_cons, batteryInput,
      historyRow, rowOf, Observation.source, Observation.unit]
  · rw [readFields_delivered readers column rfl isKnown]
    exact bind_eq_ok.mpr ⟨_, PriceInterval.create_ok price.interval fits,
      MarketPrice.create_ok dated ids positive⟩
  · exact ⟨exact, rfl, rfl, rfl, rfl, rfl, rfl, rfl, rfl, rfl, rfl, rfl, rfl, isKnown.symm⟩

end Reading

/-! ## Every row of the mart -/

omit [Platform] in
theorem mem_martBatteryOptimizationInputs {fact : List HistoryRow} {input : BatteryInput} :
    input ∈ martBatteryOptimizationInputs fact ↔
      ∃ row ∈ fact, ∃ columns, row.values.price = some columns ∧
        input = batteryInput row columns := by
  constructor
  · intro member
    obtain ⟨⟨row, columns⟩, at_pair, rfl⟩ := List.mem_map.mp member
    obtain ⟨other, at_other, found⟩ := List.mem_filterMap.mp at_pair
    obtain ⟨_, isColumns, same⟩ := Option.map_eq_some_iff.mp found
    cases same
    exact ⟨row, at_other, columns, isColumns, rfl⟩
  · rintro ⟨row, inFact, columns, isColumns, rfl⟩
    refine List.mem_map.mpr ⟨(row, columns), List.mem_filterMap.mpr ⟨row, inFact, ?_⟩, rfl⟩
    rw [isColumns, Option.map_some]

theorem CurrentFacts.mart_length (noCollisions : NoCollisions) {db : Database} (good : Good db)
    {fact : List HistoryRow} (facts : CurrentFacts .lmp db fact) :
    (martBatteryOptimizationInputs fact).length = fact.length := by
  rw [martBatteryOptimizationInputs, List.length_map, priceRows, List.filterMap_length_eq_length]
  intro row member
  obtain ⟨transition, content, request, record, state, first, rfl, traced⟩ :=
    facts.traced noCollisions good member
  obtain ⟨price, rfl⟩ := traced.lmp
  rw [traced.price]
  rfl

/-- The reader accepts every row of the mart. -/
theorem CurrentFacts.reads (noCollisions : NoCollisions) {db : Database} (good : Good db)
    (legible : LegibleDigests) (ordered : Platform.pacific.Ordered)
    (keeps : Platform.pacific.KeepsMidnights dayMicros) (readers : TextReaders)
    (column : NumericColumn) {fact : List HistoryRow} (facts : CurrentFacts .lmp db fact)
    {input : BatteryInput} (member : input ∈ martBatteryOptimizationInputs fact) :
    ∃ price, fromRow readers (input.delivered column) = .ok price ∧ ReadsAs input price := by
  obtain ⟨row, inFact, columns, isColumns, rfl⟩ := mem_martBatteryOptimizationInputs.mp member
  obtain ⟨transition, content, request, record, state, first, rfl, traced⟩ :=
    facts.traced noCollisions good inFact
  obtain ⟨price, rfl⟩ := traced.lmp
  exact traced.reads good legible ordered keeps readers column isColumns

/-- **Everything the writer produces, the reader accepts.** After a build of the price fact that no
ingestion followed, every row of the fact has its row in the input mart, the reader accepts it and
finds the price, the interval, the hub, the date and the lineage of the row, and the tests of the
price fact find no violation. -/
theorem writer_accepted (noCollisions : NoCollisions) (legible : LegibleDigests)
    (ordered : Platform.pacific.Ordered) (keeps : Platform.pacific.KeepsMidnights dayMicros)
    {s : Analytics} (reachable : AnalyticsReachable s) {fact : FactTable}
    (at_fact : s.facts .lmp = some fact) (still : fact.readPoint = s.store)
    (readers : TextReaders) (column : NumericColumn) :
    (martBatteryOptimizationInputs fact.rows).length = fact.rows.length ∧
      (∀ input ∈ martBatteryOptimizationInputs fact.rows, ∃ price,
        fromRow readers (input.delivered column) = .ok price ∧ ReadsAs input price) ∧
      validLmpFacts fact.rows s.store = [] ∧ reconcileLmp fact.rows s.store = [] := by
  have orderly := reachable.orderly noCollisions
  have facts := (reachable.refreshed noCollisions at_fact).current
  rw [still] at facts
  exact ⟨facts.mart_length noCollisions orderly.good,
    fun input member =>
      facts.reads noCollisions orderly.good legible ordered keeps readers column member,
    validLmpFacts_nil noCollisions orderly ordered keeps facts.drawn,
    reconcileLmp_nil noCollisions orderly.good facts⟩

/-! ## A small mart -/

omit [Platform] in
/-- Where texts are their own digests, a digest starts with a brace. -/
theorem legibleDigests_plain : @LegibleDigests Platform.plain := by
  intro schema fields
  have brace : isSpace '\x7b' = false := by decide
  have text : @digest Platform.plain schema fields =
      JsonText.canonicalText (payload schema fields) := rfl
  rw [isBlank, text, JsonText.canonicalText, String.toList_ofList]
  cases JsonText.sortedEntries (payload schema fields) with
  | nil => rfl
  | cons entry entries => rw [JsonText.objectText, List.all_cons, brace, Bool.false_and]

/-- Readers that read nothing. -/
def noReaders : TextReaders :=
  ⟨fun _ => .error (.new .other ""), fun _ => .error (.new .other ""),
    fun _ => .error (.new .other "")⟩

omit [Platform] in
/-- The price of one run is read from the mart. -/
theorem writer_accepted_sample :
    letI := Platform.plain
    ∃ (s : Analytics) (fact : FactTable), s.facts .lmp = some fact ∧ fact.rows ≠ [] ∧
      (martBatteryOptimizationInputs fact.rows).length = fact.rows.length ∧
      (∀ input ∈ martBatteryOptimizationInputs fact.rows, ∃ price,
        fromRow noReaders (input.delivered ninePlacesColumn) = .ok price ∧ ReadsAs input price) ∧
      validLmpFacts fact.rows s.store = [] ∧ reconcileLmp fact.rows s.store = [] := by
  obtain ⟨fact, at_fact, read, nonempty⟩ := priced_fact
  have keeps : (@Platform.pacific Platform.plain).KeepsMidnights dayMicros := fun _ => trivial
  exact ⟨_, fact, at_fact, nonempty, @writer_accepted Platform.plain noCollisions_plain
    legibleDigests_plain List.Pairwise.nil keeps _
    (@Reachable.built Platform.plain _ (@priced_reachable Platform.plain) .lmp) fact at_fact read
    noReaders ninePlacesColumn⟩

end PowerMarket
