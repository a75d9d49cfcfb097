import PowerMarket.PacificDays
import PowerMarket.Warehouse.Columns

/-!
# The rows that the backtest reads

A row of the mart arrives as a map from column names to values of any type. `fromRow` checks it
and makes a `MarketPrice`, which carries everything that was checked: an hourly interval on the
hour, a price that the solver can represent, a known hub, the Pacific date of the interval, legible
identifiers, positive ordinals and clocks in universal time.

Texts can stand for dates, timestamps and decimals. How they are read is a parameter
(`TextReaders`), since the warehouse client returns typed values.
-/

set_option autoImplicit false

namespace PowerMarket

open Library

/-! ## Values of any type -/

/-- A wall time of the calendar, with its offset to universal time if it has a zone. -/
structure DateTime where
  wall : UtcTime
  offset : Option Int
  deriving DecidableEq

/-- A decimal number or one of the special values. -/
inductive DecimalObject where
  | finite (value : Decimal)
  | infinite
  | quietNan
  | signalingNan
  deriving DecidableEq

/-- A value of a row. -/
inductive Object where
  | none
  | text (value : String)
  | boolean (value : Bool)
  | integer (value : Int)
  | decimal (value : DecimalObject)
  | datetime (value : DateTime)
  | date (value : Date)
  | other
  deriving DecidableEq

/-- A row as a map from column names. -/
abbrev Mapping := List (String × Object)

/-- The value under a name; a missing one counts as none. -/
def Mapping.value (row : Mapping) (field : String) : Object := (row.lookup field).getD .none

/-- How texts are read as dates, timestamps and decimals. -/
structure TextReaders where
  date : String → Except Exn Date
  datetime : String → Except Exn DateTime
  decimal : String → Except Exn DecimalObject

/-! ## Price intervals -/

/-- Whether the nearest number of the solver is finite. -/
def fitsSolver (value : Decimal) : Bool := |value.value| < 2 ^ 1024 - 2 ^ 970

/-- A price in an hour. -/
structure PriceInterval where
  interval : Interval 3600
  price : Decimal
  finite : fitsSolver price = true

/-- A decimal that the solver can represent. -/
def finiteNumber (value : DecimalObject) (name : String) :
    Except Exn { d : Decimal // fitsSolver d = true } :=
  match value with
  | .finite d =>
    if fits : fitsSolver d = true then .ok ⟨d, fits⟩
    else .error (.new .validationError (name ++ " must be a finite number"))
  | .infinite | .quietNan => .error (.new .validationError (name ++ " must be a finite number"))
  | .signalingNan =>
    .error (.new .valueError "cannot convert signaling NaN to float")

/-- An aware timestamp in universal time, on the hour. -/
def hourly (timestamp : DateTime) :
    Except Exn { time : UtcTime // time.micros % (3600 * 1000000) = 0 } :=
  match timestamp.offset with
  | none => .error (.new .validationError "price interval timestamps must be aware UTC")
  | some offset =>
    if offset ≠ 0 then .error (.new .validationError "price interval timestamps must be UTC")
    else if aligned : timestamp.wall.micros % (3600 * 1000000) = 0 then
      .ok ⟨timestamp.wall, aligned⟩
    else .error (.new .validationError "price intervals must start/end on an hourly boundary")

/-- Check the parts of a price interval. -/
def PriceInterval.create (start stop : DateTime) (price : DecimalObject) :
    Except Exn PriceInterval := do
  let first ← hourly start
  let last ← hourly stop
  if length : last.val.micros = first.val.micros + 3600 * 1000000 then
    let checked ← finiteNumber price "price"
    return ⟨⟨first.val, last.val, length, first.property⟩, checked.val, checked.property⟩
  else throw (.new .validationError "price interval must last exactly one hour")

/-- An interval of the domain and a price that fits pass the checks. -/
theorem PriceInterval.create_ok (interval : Interval 3600) {price : Decimal}
    (finite : fitsSolver price = true) :
    PriceInterval.create ⟨interval.start, some 0⟩ ⟨interval.stop, some 0⟩ (.finite price) =
      .ok ⟨interval, price, finite⟩ := by
  have aligned := interval.aligned
  have length := interval.length
  simp [create, hourly, finiteNumber, aligned, length, finite, bind, Except.bind, pure, Except.pure]

/-! ## Market prices -/

/-- The white space that stripping a text removes. -/
def isSpace (c : Char) : Bool :=
  (9 ≤ c.toNat && c.toNat ≤ 13) || (28 ≤ c.toNat && c.toNat ≤ 32) ||
    (0x2000 ≤ c.toNat && c.toNat ≤ 0x200A) ||
    c.toNat ∈ [0x85, 0xA0, 0x1680, 0x2028, 0x2029, 0x202F, 0x205F, 0x3000]

/-- Whether a text is empty once it is stripped. -/
def isBlank (text : String) : Bool := text.toList.all isSpace

section Prices

variable [Platform]

/-- A price with its place in the market and its lineage. -/
structure MarketPrice where
  interval : PriceInterval
  marketDate : Date
  location : Hub
  logicalKey : String
  contentId : String
  contentHash : String
  transitionId : String
  stateRunId : String
  stateOrdinal : Int
  commitSequence : Int
  firstSeenAt : UtcTime
  stateKnownAt : UtcTime
  dated : pacificDate interval.interval.start = .ok marketDate
  legible : ∀ text ∈ [logicalKey, contentId, contentHash, transitionId, stateRunId],
    isBlank text = false
  positive : 1 ≤ stateOrdinal ∧ 1 ≤ commitSequence

/-- A knowledge clock. -/
def knowledgeClock (clock : DateTime) : Except Exn UtcTime :=
  if clock.offset = some 0 then .ok clock.wall
  else .error (.new .validationError "knowledge timestamps must be aware UTC")

/-- Check the parts of a price. -/
def MarketPrice.create (interval : PriceInterval) (marketDate : Date)
    (location logicalKey contentId contentHash transitionId stateRunId : String)
    (stateOrdinal commitSequence : Int) (firstSeenAt stateKnownAt : DateTime) :
    Except Exn MarketPrice :=
  match Hub.ofText location with
  | none => .error (.new .validationError "unknown LMP hub")
  | some hub =>
    match shown : pacificDate interval.interval.start with
    | .error e => .error e
    | .ok day =>
      if dated : day ≠ marketDate then
        .error (.new .validationError "market_date must be the Pacific interval-start date")
      else if legible : ∀ text ∈ [logicalKey, contentId, contentHash, transitionId, stateRunId],
          isBlank text = false then
        if positive : 1 ≤ stateOrdinal ∧ 1 ≤ commitSequence then do
          let seen ← knowledgeClock firstSeenAt
          let known ← knowledgeClock stateKnownAt
          return {
            interval, marketDate, location := hub, logicalKey, contentId, contentHash
            transitionId, stateRunId, stateOrdinal, commitSequence
            firstSeenAt := seen, stateKnownAt := known
            dated := shown.trans (congrArg _ (not_not.mp dated)), legible, positive }
        else .error (.new .validationError "input state ordering must be a positive integer")
      else .error (.new .validationError "input lineage identifiers must be nonempty strings")

/-- Parts that satisfy the checks make a price. -/
theorem MarketPrice.create_ok {interval : PriceInterval} {marketDate : Date} {hub : Hub}
    {logicalKey contentId contentHash transitionId stateRunId : String}
    {stateOrdinal commitSequence : Int} {firstSeenAt stateKnownAt : UtcTime}
    (dated : pacificDate interval.interval.start = .ok marketDate)
    (legible : ∀ text ∈ [logicalKey, contentId, contentHash, transitionId, stateRunId],
      isBlank text = false)
    (positive : 1 ≤ stateOrdinal ∧ 1 ≤ commitSequence) :
    MarketPrice.create interval marketDate hub.text logicalKey contentId contentHash transitionId
        stateRunId stateOrdinal commitSequence ⟨firstSeenAt, some 0⟩ ⟨stateKnownAt, some 0⟩ =
      .ok { interval, marketDate, location := hub, logicalKey, contentId, contentHash, transitionId
            stateRunId, stateOrdinal, commitSequence, firstSeenAt, stateKnownAt, dated, legible
            positive } := by
  unfold create
  rw [Hub.ofText_text]
  dsimp only
  split
  · rename_i e shown
    rw [dated] at shown
    cases shown
  · rename_i day shown
    rw [dated] at shown
    obtain rfl := Except.ok.inj shown
    simp only [ne_eq, not_true_eq_false, dite_false, dif_pos legible, dif_pos positive,
      knowledgeClock, if_true, bind, Except.bind, pure, Except.pure]

/-! ## Rows -/

/-- The columns of the mart. -/
def columns : List String :=
  ["source", "market", "unit", "market_date", "location", "interval_start_utc",
    "interval_end_utc", "lmp", "logical_key", "content_id", "content_hash", "logical_key_schema",
    "content_hash_schema", "transition_id", "state_run_id", "state_ordinal", "commit_sequence",
    "first_seen_at", "state_known_at"]

/-- The columns that have one value. -/
def fixedColumns : List (String × String) :=
  [("source", "CAISO"), ("market", "DAY_AHEAD_HOURLY"), ("unit", "USD/MWh"),
    ("logical_key_schema", keySchema), ("content_hash_schema", contentSchema)]

/-- A list of names as it is printed. -/
def printedNames (names : List String) : String :=
  "[" ++ String.intercalate ", " (names.map fun name => "'" ++ name ++ "'") ++ "]"

namespace Mapping

/-- The columns that are missing or none. -/
def missingOrNull (row : Mapping) : List String := columns.filter fun field => row.value field = .none

/-- The timestamp under a name. -/
def timestamp (readers : TextReaders) (row : Mapping) (field : String) : Except Exn DateTime :=
  match row.value field with
  | .datetime value => .ok value
  | .text value => readers.datetime value
  | _ => .error (.new .validationError (field ++ " must be an ISO timestamp or datetime"))

/-- The text under a name. -/
def text (row : Mapping) (field : String) : Except Exn String :=
  match row.value field with
  | .text value => .ok value
  | _ => .error (.new .validationError (field ++ " must be a string"))

/-- The integer under a name. -/
def integer (row : Mapping) (field : String) : Except Exn Int :=
  match row.value field with
  | .integer value => .ok value
  | _ => .error (.new .validationError (field ++ " must be an integer"))

/-- The market date. A timestamp is not a date. -/
def marketDate (readers : TextReaders) (row : Mapping) : Except Exn Date :=
  match row.value "market_date" with
  | .text value => readers.date value
  | .date value => .ok value
  | _ => .error (.new .validationError "market_date must be a calendar date")

/-- The price as it stands in the row, which must be exact. -/
def rawPrice (row : Mapping) : Except Exn (String ⊕ DecimalObject) :=
  match row.value "lmp" with
  | .text value => .ok (.inl value)
  | .decimal value => .ok (.inr value)
  | _ => .error (.new .validationError "lmp must be Decimal or an exact decimal string")

end Mapping

/-- The fields of a row, in the order in which they are read. -/
def readFields (readers : TextReaders) (row : Mapping) : Except Exn MarketPrice := do
  let day ← row.marketDate readers
  let raw ← row.rawPrice
  let start ← row.timestamp readers "interval_start_utc"
  let stop ← row.timestamp readers "interval_end_utc"
  let price ← raw.elim readers.decimal .ok
  let interval ← PriceInterval.create start stop price
  let location ← row.text "location"
  let logicalKey ← row.text "logical_key"
  let contentId ← row.text "content_id"
  let contentHash ← row.text "content_hash"
  let transitionId ← row.text "transition_id"
  let stateRunId ← row.text "state_run_id"
  let stateOrdinal ← row.integer "state_ordinal"
  let commitSequence ← row.integer "commit_sequence"
  let firstSeenAt ← row.timestamp readers "first_seen_at"
  let stateKnownAt ← row.timestamp readers "state_known_at"
  MarketPrice.create interval day location logicalKey contentId contentHash transitionId stateRunId
    stateOrdinal commitSequence firstSeenAt stateKnownAt

/-- A field that cannot be read makes the row malformed. -/
def malformed (e : Exn) : Exn :=
  if e.error.kind = .valueError ∨ e.error.kind = .invalidOperation then
    .newFrom .validationError ("malformed optimization input: " ++ e.error.message) e
  else e

/-- Check a row of the mart. -/
def fromRow (readers : TextReaders) (row : Mapping) : Except Exn MarketPrice := do
  if row.missingOrNull ≠ [] then
    throw (.new .validationError ("optimization input has missing/null fields: " ++
      printedNames (row.missingOrNull.insertionSort (· ≤ ·))))
  fixedColumns.forM fun column =>
    if row.value column.1 ≠ .text column.2 then
      .error (.new .validationError
        ("optimization input " ++ column.1 ++ " must equal " ++ column.2))
    else .ok ()
  (readFields readers row).mapError malformed

/-- **When a row is accepted.** -/
theorem fromRow_eq_ok {readers : TextReaders} {row : Mapping} {price : MarketPrice} :
    fromRow readers row = .ok price ↔
      row.missingOrNull = [] ∧ (∀ column ∈ fixedColumns, row.value column.1 = .text column.2) ∧
        readFields readers row = .ok price := by
  unfold fromRow
  by_cases complete : row.missingOrNull = []
  · simp only [complete, ne_eq, not_true_eq_false, if_false, bind_eq_ok, true_and,
      mapError_eq_ok]
    constructor
    · rintro ⟨_, fixed, read⟩
      refine ⟨fun column member => ?_, read⟩
      have passes := forM_eq_ok.mp fixed column member
      split_ifs at passes with same
      exact same
    · rintro ⟨fixed, read⟩
      refine ⟨(), forM_eq_ok.mpr fun column member => ?_, read⟩
      exact if_neg (not_not.mpr (fixed column member))
  · simp [complete, bind, Except.bind, throw, throwThe, MonadExceptOf.throw]

end Prices

/-! ## The hours of two days -/

/-- The microseconds at which an hour starts, counted from the first Pacific midnight. -/
def sampleMicros (hour : ℕ) : ℕ := 63763228800000000 + hour * 3600000000

theorem sampleMicros_inside {hour : ℕ} (less : hour < 49) :
    dayMicros ≤ sampleMicros hour ∧ sampleMicros hour < (maxOrdinal + 1) * dayMicros := by
  rw [sampleMicros, dayMicros, maxOrdinal]
  omega

/-- The instant at which an hour starts, or at which the last one ends. -/
def sampleInstant (hour : ℕ) (less : hour < 49) : UtcTime :=
  ⟨sampleMicros hour, (sampleMicros_inside less).1, (sampleMicros_inside less).2⟩

theorem sampleMicros_next (hour : ℕ) :
    sampleMicros (hour + 1) = sampleMicros hour + 3600 * 1000000 := by
  rw [sampleMicros, sampleMicros]
  omega

theorem sampleMicros_aligned (hour : ℕ) : sampleMicros hour % (3600 * 1000000) = 0 := by
  rw [sampleMicros]
  omega

def sampleHour (hour : Fin 48) : Interval 3600 :=
  ⟨sampleInstant hour (Nat.lt_succ_of_lt hour.isLt),
    sampleInstant (hour + 1) (Nat.succ_lt_succ hour.isLt), sampleMicros_next hour,
    sampleMicros_aligned hour⟩

/-- The price of an hour: low in every other hour, and high in those between. -/
def sampleDecimal (hour : Fin 48) : Decimal := ⟨false, if hour.val % 2 = 0 then 10 else 50, 0⟩

theorem sampleDecimal_fits (hour : Fin 48) : fitsSolver (sampleDecimal hour) = true := by
  rw [sampleDecimal]
  split_ifs <;> decide +kernel

def sampleInterval (hour : Fin 48) : PriceInterval :=
  ⟨sampleHour hour, sampleDecimal hour, sampleDecimal_fits hour⟩

end PowerMarket
