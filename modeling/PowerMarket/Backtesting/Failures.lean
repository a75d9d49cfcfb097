import PowerMarket.Backtesting.Engine
import PowerMarket.Library.Leaks

/-!
# Failures of the rows that the backtest reads

A malformed row of the mart is refused with a validation error, whatever its values are, with one
exception: the date of a price is found on the Pacific clock, and an interval in the first hours of
the calendar has no such date. `fromRow_exact` says that this is the only way in which another
exception leaves `fromRow`, and what a price that it returns satisfies.
-/

set_option autoImplicit false

namespace PowerMarket

open Library

/-! ## Errors -/

/-- The error of a malformed row. -/
def Refusal (e : Exn) : Prop := e.error.kind = .validationError

/-- An error while the fields of a row are read that makes the row malformed. -/
def Caught (e : Exn) : Prop :=
  Refusal e ∨ e.error.kind = .valueError ∨ e.error.kind = .invalidOperation

/-- Texts are refused as the readers document: dates and timestamps with a value error, decimals
with an invalid operation. -/
structure TextReaders.Documented (readers : TextReaders) : Prop where
  date : ∀ text e, readers.date text = .error e → e.error.kind = .valueError
  datetime : ∀ text e, readers.datetime text = .error e → e.error.kind = .valueError
  decimal : ∀ text e, readers.decimal text = .error e → e.error.kind = .invalidOperation

theorem malformed_refusal (e : Exn) : Refusal (malformed e) ↔ Caught e := by
  rw [malformed, Caught]
  split_ifs with caught
  · exact iff_of_true rfl (.inr caught)
  · exact ⟨Or.inl, fun either => either.resolve_right caught⟩

theorem not_leaks_refuse {α : Type} (message : String) :
    ¬ Leaks Caught (.error (.new .validationError message) : Except Exn α) :=
  not_leaks_error (.inl rfl)

/-! ## Fields -/

section Fields

variable {readers : TextReaders} {row : Mapping} {field : String}

theorem Mapping.not_leaks_text : ¬ Leaks Caught (row.text field) := by
  unfold Mapping.text
  split
  · exact not_leaks_ok _
  · exact not_leaks_refuse _

theorem Mapping.not_leaks_integer : ¬ Leaks Caught (row.integer field) := by
  unfold Mapping.integer
  split
  · exact not_leaks_ok _
  · exact not_leaks_refuse _

theorem Mapping.not_leaks_rawPrice : ¬ Leaks Caught row.rawPrice := by
  unfold Mapping.rawPrice
  split
  · exact not_leaks_ok _
  · exact not_leaks_ok _
  · exact not_leaks_refuse _

theorem Mapping.text_eq_ok {text : String} :
    row.text field = .ok text ↔ row.value field = .text text := by
  rw [Mapping.text]
  constructor
  · intro read
    split at read
    · rename_i value same
      rw [same, Except.ok.inj read]
    · cases read
  · intro same
    rw [same]

section Documented

variable (documented : readers.Documented)

include documented

theorem Mapping.not_leaks_timestamp : ¬ Leaks Caught (row.timestamp readers field) := by
  unfold Mapping.timestamp
  split
  · exact not_leaks_ok _
  · exact not_leaks_iff.mpr fun e failed => .inr (.inl (documented.datetime _ e failed))
  · exact not_leaks_refuse _

theorem Mapping.not_leaks_marketDate : ¬ Leaks Caught (row.marketDate readers) := by
  unfold Mapping.marketDate
  split
  · exact not_leaks_iff.mpr fun e failed => .inr (.inl (documented.date _ e failed))
  · exact not_leaks_ok _
  · exact not_leaks_refuse _

theorem not_leaks_price (raw : String ⊕ DecimalObject) :
    ¬ Leaks Caught (raw.elim readers.decimal .ok) := by
  cases raw with
  | inl text =>
      exact not_leaks_iff.mpr fun e failed => .inr (.inr (documented.decimal text e failed))
  | inr value => exact not_leaks_ok value

end Documented

end Fields

/-! ## Price intervals -/

section Intervals

variable {start stop : DateTime} {price : DecimalObject}

theorem not_leaks_hourly : ¬ Leaks Caught (hourly start) := by
  unfold hourly
  split
  · exact not_leaks_refuse _
  · split_ifs
    · exact not_leaks_refuse _
    · exact not_leaks_ok _
    · exact not_leaks_refuse _

theorem not_leaks_finiteNumber {name : String} : ¬ Leaks Caught (finiteNumber price name) := by
  cases price with
  | finite d =>
      rw [finiteNumber]
      split_ifs
      · exact not_leaks_ok _
      · exact not_leaks_refuse _
  | infinite | quietNan => exact not_leaks_refuse _
  | signalingNan => exact not_leaks_error (.inr (.inl rfl))

theorem PriceInterval.not_leaks_create :
    ¬ Leaks Caught (PriceInterval.create start stop price) := by
  simp only [create, leaks_bind, not_leaks_hourly, false_or]
  rintro ⟨first, _, last, _, leaks⟩
  split_ifs at leaks
  · rcases leaks_bind.mp leaks with impossible | ⟨_, _, impossible⟩
    · exact not_leaks_finiteNumber impossible
    · exact not_leaks_ok _ impossible
  · exact not_leaks_refuse _ leaks

theorem hourly_eq_ok {time : { time : UtcTime // time.micros % (3600 * 1000000) = 0 }} :
    hourly start = .ok time ↔ start.offset = some 0 ∧ start.wall = time.val := by
  obtain ⟨wall, offset⟩ := start
  obtain ⟨time, aligned⟩ := time
  rw [hourly]
  cases offset with
  | none => exact iff_of_false (fun impossible => (by cases impossible)) (by simp)
  | some offset =>
      dsimp only
      split_ifs with shifted aligned'
      · exact iff_of_false (fun impossible => (by cases impossible)) (by simp [shifted])
      · simp [not_not.mp shifted]
      · refine iff_of_false (fun impossible => (by cases impossible)) ?_
        rintro ⟨_, rfl⟩
        exact aligned' aligned

theorem finiteNumber_eq_ok {name : String} {checked : { d : Decimal // fitsSolver d = true }}
    (passed : finiteNumber price name = .ok checked) : price = .finite checked.val := by
  cases price with
  | finite d =>
      rw [finiteNumber] at passed
      split_ifs at passed
      obtain rfl := Except.ok.inj passed
      rfl
  | _ => cases passed

/-- **What makes a price interval**: two instants in universal time that bound an interval of the
domain, and a finite number that the solver can represent. -/
theorem PriceInterval.create_eq_ok {interval : PriceInterval} :
    PriceInterval.create start stop price = .ok interval ↔
      (start.offset = some 0 ∧ start.wall = interval.interval.start) ∧
        (stop.offset = some 0 ∧ stop.wall = interval.interval.stop) ∧
          price = .finite interval.price := by
  obtain ⟨⟨first, last, length, aligned⟩, value, fits⟩ := interval
  constructor
  · intro made
    rw [create, bind_eq_ok] at made
    obtain ⟨first', isFirst, fromFirst⟩ := made
    obtain ⟨last', isLast, fromLast⟩ := bind_eq_ok.mp fromFirst
    split_ifs at fromLast with hour
    obtain ⟨checked, isFinite, same⟩ := bind_eq_ok.mp fromLast
    cases Except.ok.inj same
    exact ⟨hourly_eq_ok.mp isFirst, hourly_eq_ok.mp isLast, finiteNumber_eq_ok isFinite⟩
  · rintro ⟨⟨inUtc, rfl⟩, ⟨inUtc', rfl⟩, rfl⟩
    obtain ⟨wall, offset⟩ := start
    obtain ⟨wall', offset'⟩ := stop
    obtain rfl : offset = some 0 := inUtc
    obtain rfl : offset' = some 0 := inUtc'
    exact PriceInterval.create_ok ⟨wall, wall', length, aligned⟩ fits

end Intervals

/-! ## Prices -/

section Prices

variable [Platform]

/-- The Pacific clock shows no date at an instant. -/
def Undated (time : UtcTime) : Prop := ∀ day, pacificDate time ≠ .ok day

omit [Platform] in
theorem not_leaks_knowledgeClock {clock : DateTime} :
    ¬ Leaks Caught (knowledgeClock clock) := by
  rw [knowledgeClock]
  split_ifs
  · exact not_leaks_ok _
  · exact not_leaks_refuse _

omit [Platform] in
theorem knowledgeClock_eq_ok {clock : DateTime} {time : UtcTime} :
    knowledgeClock clock = .ok time ↔ clock.offset = some 0 ∧ clock.wall = time := by
  rw [knowledgeClock]
  split_ifs with inUtc
  · simp [inUtc]
  · exact iff_of_false (fun impossible => (by cases impossible)) fun both => inUtc both.1

/-- **What leaks from the parts of a price** is the date of an interval that has none. -/
theorem MarketPrice.leaks_create {interval : PriceInterval} {marketDate : Date}
    {location logicalKey contentId contentHash transitionId stateRunId : String}
    {stateOrdinal commitSequence : Int} {firstSeenAt stateKnownAt : DateTime} :
    Leaks Caught (MarketPrice.create interval marketDate location logicalKey contentId contentHash
        transitionId stateRunId stateOrdinal commitSequence firstSeenAt stateKnownAt) ↔
      (∃ hub : Hub, location = hub.text) ∧ Undated interval.interval.start := by
  unfold create
  split
  · rename_i unknown
    refine iff_of_false (not_leaks_refuse _) ?_
    rintro ⟨⟨hub, rfl⟩, _⟩
    rw [Hub.ofText_text] at unknown
    cases unknown
  · rename_i hub found
    have known : ∃ hub : Hub, location = hub.text := ⟨hub, Hub.ofText_eq_some.mp found⟩
    split
    · rename_i e failed
      have overflow : e = dateOverflow := by
        unfold pacificDate at failed
        dsimp only at failed
        split_ifs at failed
        exact (Except.error.inj failed).symm
      subst overflow
      refine iff_of_true (leaks_error.mpr (by simp [Caught, Refusal, dateOverflow])) ⟨known, ?_⟩
      intro day dated
      rw [dated] at failed
      cases failed
    · rename_i day dated
      refine iff_of_false ?_ fun both => both.2 day dated
      split_ifs
      · exact not_leaks_refuse _
      · simp only [leaks_bind, not_leaks_knowledgeClock, false_or]
        rintro ⟨_, _, _, _, impossible⟩
        exact not_leaks_ok _ impossible
      · exact not_leaks_refuse _
      · exact not_leaks_refuse _

/-- **The parts of a price** are those that it was made from. -/
theorem MarketPrice.create_parts {interval : PriceInterval} {marketDate : Date}
    {location logicalKey contentId contentHash transitionId stateRunId : String}
    {stateOrdinal commitSequence : Int} {firstSeenAt stateKnownAt : DateTime} {price : MarketPrice}
    (made : MarketPrice.create interval marketDate location logicalKey contentId contentHash
      transitionId stateRunId stateOrdinal commitSequence firstSeenAt stateKnownAt = .ok price) :
    (price.interval = interval ∧ price.marketDate = marketDate ∧ location = price.location.text) ∧
      (price.logicalKey = logicalKey ∧ price.contentId = contentId ∧
        price.contentHash = contentHash ∧ price.transitionId = transitionId ∧
        price.stateRunId = stateRunId) ∧
      (price.stateOrdinal = stateOrdinal ∧ price.commitSequence = commitSequence) ∧
      (firstSeenAt.offset = some 0 ∧ firstSeenAt.wall = price.firstSeenAt) ∧
      (stateKnownAt.offset = some 0 ∧ stateKnownAt.wall = price.stateKnownAt) := by
  unfold create at made
  split at made
  · cases made
  · rename_i hub found
    split at made
    · cases made
    · split_ifs at made
      obtain ⟨seen, isSeen, made⟩ := bind_eq_ok.mp made
      obtain ⟨known, isKnown, same⟩ := bind_eq_ok.mp made
      obtain rfl := Except.ok.inj same
      exact ⟨⟨rfl, rfl, Hub.ofText_eq_some.mp found⟩, ⟨rfl, rfl, rfl, rfl, rfl⟩, ⟨rfl, rfl⟩,
        knowledgeClock_eq_ok.mp isSeen, knowledgeClock_eq_ok.mp isKnown⟩

/-! ## Rows -/

/-- A timestamp of a row that is an instant in universal time. -/
def Mapping.Shows (readers : TextReaders) (row : Mapping) (field : String) (time : UtcTime) :
    Prop :=
  row.timestamp readers field = .ok ⟨time, some 0⟩

/-- What a price that is read from a row satisfies: each of its parts is that of the row and within
its constraints. -/
structure ReadFrom (readers : TextReaders) (row : Mapping) (price : MarketPrice) : Prop where
  location : row.value "location" = .text price.location.text
  date : row.marketDate readers = .ok price.marketDate
  dated : pacificDate price.interval.interval.start = .ok price.marketDate
  start : row.Shows readers "interval_start_utc" price.interval.interval.start
  stop : row.Shows readers "interval_end_utc" price.interval.interval.stop
  hour : price.interval.interval.stop.micros = price.interval.interval.start.micros + 3600000000
  aligned : price.interval.interval.start.micros % 3600000000 = 0
  amount : ∃ raw, row.rawPrice = .ok raw ∧
    raw.elim readers.decimal .ok = .ok (.finite price.interval.price)
  finite : fitsSolver price.interval.price = true
  lineage : row.value "logical_key" = .text price.logicalKey ∧
    row.value "content_id" = .text price.contentId ∧
    row.value "content_hash" = .text price.contentHash ∧
    row.value "transition_id" = .text price.transitionId ∧
    row.value "state_run_id" = .text price.stateRunId
  legible : ∀ text ∈ [price.logicalKey, price.contentId, price.contentHash, price.transitionId,
    price.stateRunId], isBlank text = false
  ordinals : row.value "state_ordinal" = .integer price.stateOrdinal ∧
    row.value "commit_sequence" = .integer price.commitSequence
  positive : 1 ≤ price.stateOrdinal ∧ 1 ≤ price.commitSequence
  firstSeenAt : row.Shows readers "first_seen_at" price.firstSeenAt
  stateKnownAt : row.Shows readers "state_known_at" price.stateKnownAt

omit [Platform] in
theorem Mapping.integer_eq_ok {row : Mapping} {field : String} {n : Int} :
    row.integer field = .ok n ↔ row.value field = .integer n := by
  rw [Mapping.integer]
  constructor
  · intro read
    split at read
    · rename_i value same
      rw [same, Except.ok.inj read]
    · cases read
  · intro same
    rw [same]

omit [Platform] in
theorem Mapping.shows_of_parts {readers : TextReaders} {row : Mapping} {field : String}
    {clock : DateTime} {time : UtcTime} (read : row.timestamp readers field = .ok clock)
    (parts : clock.offset = some 0 ∧ clock.wall = time) : row.Shows readers field time := by
  obtain ⟨wall, offset⟩ := clock
  obtain ⟨rfl, rfl⟩ := parts
  exact read

/-- **A price that is returned satisfies its constraints.** -/
theorem readFields_sound {readers : TextReaders} {row : Mapping} {price : MarketPrice}
    (read : readFields readers row = .ok price) : ReadFrom readers row price := by
  simp only [readFields, bind_eq_ok, Mapping.text_eq_ok, Mapping.integer_eq_ok] at read
  obtain ⟨day, date, raw, isRaw, start, isStart, stop, isStop, value, isPrice, interval, isInterval,
    location, isLocation, logicalKey, isKey, contentId, isContent, contentHash, isHash,
    transitionId, isTransition, stateRunId, isRun, stateOrdinal, isOrdinal, commitSequence,
    isSequence, firstSeenAt, isSeen, stateKnownAt, isKnown, made⟩ := read
  obtain ⟨⟨rfl, rfl, rfl⟩, ⟨rfl, rfl, rfl, rfl, rfl⟩, ⟨rfl, rfl⟩, seen, known⟩ :=
    MarketPrice.create_parts made
  obtain ⟨first, last, rfl⟩ := PriceInterval.create_eq_ok.mp isInterval
  exact {
    location := isLocation
    date := date
    dated := price.dated
    start := Mapping.shows_of_parts isStart first
    stop := Mapping.shows_of_parts isStop last
    hour := price.interval.interval.length
    aligned := price.interval.interval.aligned
    amount := ⟨raw, isRaw, isPrice⟩
    finite := price.interval.finite
    lineage := ⟨isKey, isContent, isHash, isTransition, isRun⟩
    legible := price.legible
    ordinals := ⟨isOrdinal, isSequence⟩
    positive := price.positive
    firstSeenAt := Mapping.shows_of_parts isSeen seen
    stateKnownAt := Mapping.shows_of_parts isKnown known }

/-- A row that is well formed up to the date of its interval, which has none: every field is there
and of its type, and the interval and the hub are valid. -/
structure OutsideCalendar (readers : TextReaders) (row : Mapping) : Prop where
  complete : row.missingOrNull = []
  fixed : ∀ column ∈ fixedColumns, row.value column.1 = .text column.2
  date : ∃ day, row.marketDate readers = .ok day
  interval : ∃ interval : Interval 3600, row.Shows readers "interval_start_utc" interval.start ∧
    row.Shows readers "interval_end_utc" interval.stop ∧ Undated interval.start
  price : ∃ raw value, row.rawPrice = .ok raw ∧ raw.elim readers.decimal .ok = .ok (.finite value) ∧
    fitsSolver value = true
  location : ∃ hub : Hub, row.value "location" = .text hub.text
  lineage : ∀ field ∈ ["logical_key", "content_id", "content_hash", "transition_id",
    "state_run_id"], ∃ text, row.value field = .text text
  ordinals : ∀ field ∈ ["state_ordinal", "commit_sequence"], ∃ n, row.value field = .integer n
  clocks : ∀ field ∈ ["first_seen_at", "state_known_at"], ∃ clock,
    row.timestamp readers field = .ok clock

/-- **What leaks from the fields of a row.** -/
theorem leaks_readFields {readers : TextReaders} (documented : readers.Documented)
    {row : Mapping} (complete : row.missingOrNull = [])
    (fixed : ∀ column ∈ fixedColumns, row.value column.1 = .text column.2) :
    Leaks Caught (readFields readers row) ↔ OutsideCalendar readers row := by
  simp only [readFields, leaks_bind, Mapping.not_leaks_marketDate documented,
    Mapping.not_leaks_rawPrice, Mapping.not_leaks_timestamp documented,
    not_leaks_price documented, PriceInterval.not_leaks_create, Mapping.not_leaks_text,
    Mapping.not_leaks_integer, MarketPrice.leaks_create, false_or, Mapping.text_eq_ok,
    Mapping.integer_eq_ok]
  constructor
  · rintro ⟨day, date, raw, isRaw, start, isStart, stop, isStop, value, isPrice, interval,
      isInterval, location, isLocation, logicalKey, isKey, contentId, isContent, contentHash,
      isHash, transitionId, isTransition, stateRunId, isRun, stateOrdinal, isOrdinal, commitSequence,
      isSequence, firstSeenAt, isSeen, stateKnownAt, isKnown, ⟨hub, rfl⟩, undated⟩
    obtain ⟨first, last, rfl⟩ := PriceInterval.create_eq_ok.mp isInterval
    refine ⟨complete, fixed, ⟨day, date⟩, ⟨interval.interval, Mapping.shows_of_parts isStart first,
      Mapping.shows_of_parts isStop last, undated⟩, ⟨raw, _, isRaw, isPrice, interval.finite⟩,
      ⟨hub, isLocation⟩, ?_, ?_, ?_⟩
    · simp only [List.forall_mem_cons, List.not_mem_nil, false_imp_iff, implies_true, and_true]
      exact ⟨⟨_, isKey⟩, ⟨_, isContent⟩, ⟨_, isHash⟩, ⟨_, isTransition⟩, ⟨_, isRun⟩⟩
    · simp only [List.forall_mem_cons, List.not_mem_nil, false_imp_iff, implies_true, and_true]
      exact ⟨⟨_, isOrdinal⟩, ⟨_, isSequence⟩⟩
    · simp only [List.forall_mem_cons, List.not_mem_nil, false_imp_iff, implies_true, and_true]
      exact ⟨⟨_, isSeen⟩, ⟨_, isKnown⟩⟩
  · rintro ⟨_, _, ⟨day, date⟩, ⟨interval, isStart, isStop, undated⟩,
      ⟨raw, value, isRaw, isPrice, fits⟩, ⟨hub, isLocation⟩, lineage, ordinals, clocks⟩
    simp only [List.forall_mem_cons, List.not_mem_nil, false_imp_iff, implies_true, and_true]
      at lineage ordinals clocks
    obtain ⟨⟨_, isKey⟩, ⟨_, isContent⟩, ⟨_, isHash⟩, ⟨_, isTransition⟩, ⟨_, isRun⟩⟩ := lineage
    obtain ⟨⟨_, isOrdinal⟩, ⟨_, isSequence⟩⟩ := ordinals
    obtain ⟨⟨_, isSeen⟩, ⟨_, isKnown⟩⟩ := clocks
    exact ⟨day, date, raw, isRaw, _, isStart, _, isStop, _, isPrice, ⟨interval, value, fits⟩,
      PriceInterval.create_ok interval fits, _, isLocation, _, isKey, _, isContent, _, isHash, _,
      isTransition, _, isRun, _, isOrdinal, _, isSequence, _, isSeen, _, isKnown, ⟨hub, rfl⟩,
      undated⟩

/-- **What leaks from a row.** -/
theorem leaks_fromRow {readers : TextReaders} (documented : readers.Documented) {row : Mapping} :
    Leaks Refusal (fromRow readers row) ↔ OutsideCalendar readers row := by
  unfold fromRow
  by_cases complete : row.missingOrNull = []
  · have fixedChecks : ¬ Leaks Refusal (fixedColumns.forM fun column =>
        if row.value column.1 ≠ .text column.2 then
          (.error (.new .validationError
            ("optimization input " ++ column.1 ++ " must equal " ++ column.2)) : Except Exn Unit)
        else .ok ()) := by
      refine not_leaks_forM fun column _ => ?_
      split_ifs
      · exact not_leaks_error rfl
      · exact not_leaks_ok ()
    have kept := @leaks_mapError _ _ _ _ (readFields readers row) _ _ malformed_refusal
    simp only [complete, ne_eq, not_true_eq_false, if_false, leaks_bind, kept]
    constructor
    · rintro (impossible | ⟨_, passed, leaks⟩)
      · exact absurd impossible fixedChecks
      · refine (leaks_readFields documented complete fun column member => ?_).mp leaks
        have passes := forM_eq_ok.mp passed column member
        split_ifs at passes with same
        exact same
    · intro outside
      exact .inr ⟨(), forM_eq_ok.mpr fun column member => if_neg
        (not_not.mpr (outside.fixed column member)),
        (leaks_readFields documented complete outside.fixed).mpr outside⟩
  · refine iff_of_false ?_ fun outside => complete outside.complete
    simp only [ne_eq, complete, not_false_eq_true, if_true]
    exact not_leaks_error rfl

/-- A row makes a price with its parts, within their constraints, or it is refused. -/
def ReadOrRefused (readers : TextReaders) (row : Mapping) : Prop :=
  (∀ price, fromRow readers row = .ok price → ReadFrom readers row price) ∧
    ∀ e, fromRow readers row = .error e → Refusal e

/-- **Rows are read or refused unless their interval has no Pacific date.** With readers of texts
that fail as they document, a row makes a price whose parts are those of the row and within their
constraints, or it is refused with a validation error, exactly when it is not a row that is valid up
to the date of an interval outside the Pacific calendar. -/
theorem fromRow_exact {readers : TextReaders} (documented : readers.Documented) (row : Mapping) :
    ReadOrRefused readers row ↔ ¬ OutsideCalendar readers row := by
  have sound : ∀ price, fromRow readers row = .ok price → ReadFrom readers row price :=
    fun price read => readFields_sound (fromRow_eq_ok.mp read).2.2
  rw [ReadOrRefused, ← not_leaks_iff, leaks_fromRow documented]
  exact ⟨fun both => both.2, fun inside => ⟨sound, inside⟩⟩

end Prices

/-! ## Rows of known hours -/

/-- Readers that refuse every text. -/
def refusingReaders : TextReaders :=
  ⟨fun text => .error (.new .valueError ("Invalid isoformat string: " ++ text)),
    fun text => .error (.new .valueError ("Invalid isoformat string: " ++ text)),
    fun _ => .error (.new .invalidOperation "[<class 'decimal.ConversionSyntax'>]")⟩

theorem refusingReaders_documented : refusingReaders.Documented := by
  constructor
  · intro text e failed
    obtain rfl := Except.error.inj failed
    rfl
  · intro text e failed
    obtain rfl := Except.error.inj failed
    rfl
  · intro text e failed
    obtain rfl := Except.error.inj failed
    rfl

/-- A row of the mart with the price of an hour. -/
def hourRow (hour : Interval 3600) (day : Date) : Mapping :=
  [("source", .text "CAISO"), ("market", .text "DAY_AHEAD_HOURLY"), ("unit", .text "USD/MWh"),
    ("market_date", .date day), ("location", .text Hub.np15.text),
    ("interval_start_utc", .datetime ⟨hour.start, some 0⟩),
    ("interval_end_utc", .datetime ⟨hour.stop, some 0⟩), ("lmp", .decimal (.finite ⟨false, 10, 0⟩)),
    ("logical_key", .text "key"), ("content_id", .text "content"), ("content_hash", .text "hash"),
    ("logical_key_schema", .text keySchema), ("content_hash_schema", .text contentSchema),
    ("transition_id", .text "transition"), ("state_run_id", .text "run"),
    ("state_ordinal", .integer 1), ("commit_sequence", .integer 1),
    ("first_seen_at", .datetime ⟨hour.stop, some 0⟩),
    ("state_known_at", .datetime ⟨hour.stop, some 0⟩)]

/-- The row of an hour of the sample day is read or refused. -/
theorem fromRow_exact_sample : letI := Platform.plain
    ReadOrRefused refusingReaders (hourRow (sampleHour 0) sampleRequest.day) := by
  let _ := Platform.plain
  refine (@fromRow_exact Platform.plain _ refusingReaders_documented _).mpr fun outside => ?_
  obtain ⟨interval, isStart, _, undated⟩ := outside.interval
  have shown : (⟨(sampleHour 0).start, some 0⟩ : DateTime) = ⟨interval.start, some 0⟩ :=
    Except.ok.inj isStart
  have start : (sampleHour 0).start = interval.start := congrArg DateTime.wall shown
  exact undated sampleRequest.day (start ▸ sampleHour_dated 0)

/-- The first hour of the calendar. -/
def firstHour : Interval 3600 :=
  ⟨⟨dayMicros, by decide, by decide⟩, ⟨dayMicros + 3600000000, by decide, by decide⟩, by decide,
    by decide⟩

/-- The first date of the calendar. -/
def firstDate : Date := ⟨1, by decide, by decide⟩

/-- **An overflow leaves the row of the first hour**, which is not refused. -/
theorem firstHour_leaks : letI := Platform.plain
    ∃ e, fromRow refusingReaders (hourRow firstHour firstDate) = .error e ∧
      e.error.kind ≠ .validationError := by
  let _ := Platform.plain
  have undated : Undated firstHour.start := by
    intro day dated
    have shown := pacificDate_eq_ok.mp dated
    have before : Platform.pacific.dayOf dayMicros firstHour.start.micros = 0 := by decide
    have positive := day.positive
    omega
  refine (@leaks_fromRow Platform.plain _ refusingReaders_documented _).mpr
    ⟨by decide, by decide, ⟨_, rfl⟩, ⟨firstHour, rfl, rfl, undated⟩,
      ⟨_, _, rfl, rfl, sampleDecimal_fits 0⟩, ⟨.np15, rfl⟩, ?_, ?_, ?_⟩
  · simp only [List.forall_mem_cons, List.not_mem_nil, false_imp_iff, implies_true, and_true]
    exact ⟨⟨_, rfl⟩, ⟨_, rfl⟩, ⟨_, rfl⟩, ⟨_, rfl⟩, ⟨_, rfl⟩⟩
  · simp only [List.forall_mem_cons, List.not_mem_nil, false_imp_iff, implies_true, and_true]
    exact ⟨⟨_, rfl⟩, ⟨_, rfl⟩⟩
  · simp only [List.forall_mem_cons, List.not_mem_nil, false_imp_iff, implies_true, and_true]
    exact ⟨⟨_, rfl⟩, ⟨_, rfl⟩⟩

end PowerMarket
