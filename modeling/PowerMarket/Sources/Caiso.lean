import PowerMarket.Backtesting.Inputs
import PowerMarket.Library.Sorting
import Mathlib.Data.Prod.Lex

/-!
# The source adapter

The adapter turns the rows of a foreign table into observations. The cells of a row hold values of
any type; each of them is read by `timestamp` or `number`, and a row by `lmpRecord` or `loadRecord`.
The rows of one table are read one after another, with the logical keys that were seen
(`collect`), and the observations are sorted (`normalize`). The source library, which returns the
table for a day, is a parameter of `fetchLmp` and `fetchLoad` (`Upstream`).
-/

set_option autoImplicit false

namespace PowerMarket.Sources

open Library

/-! ## Tables -/

/-- The value of a cell. A float stands for the number that its text shows, and an instance of
another numeric class for the outcome of its conversion from its text. A value may also raise as soon
as its class is asked for. -/
inductive Cell where
  | none
  | text (value : String)
  | boolean (value : Bool)
  | integer (value : Int)
  | float (shown : DecimalObject)
  | decimal (value : DecimalObject)
  | numeric (converted : Except Exn DecimalObject)
  | timestamp (value : LocalTime) (nanosecond : Nat)
  | raising (e : Exn)
  | other

/-- A row with its cells by column. -/
abbrev Row := List (String × Cell)

/-- The cell of a row in a column. -/
def Row.cell (row : Row) (column : String) : Cell := (List.lookup column row).getD .none

/-- A name of a column, or another value in its place. -/
inductive Column where
  | name (text : String)
  | other
  deriving DecidableEq

/-- A row of a converted table, or another value in its place. -/
inductive Record where
  | fields (row : Row)
  | other

/-- What the conversion of a table returned. -/
inductive Records where
  | list (records : List Record)
  | other

/-- An upstream object: a table with the outcomes of its two operations, or another object. -/
inductive Frame where
  | table (columns : Except Exn (List Column)) (records : Except Exn Records)
  | other

def lmpColumns : List String :=
  ["Time", "Interval Start", "Interval End", "Market", "Location", "Location Type", "LMP",
    "Energy", "Congestion", "Loss"]

def loadColumns : List String := ["Time", "Interval Start", "Interval End", "Load"]

def schemaError (message : String) : Exn := .new .schemaError message

/-- The columns of a table must be different names, with the required ones among them. -/
def checkColumns (required : List String) (columns : List Column) : Except Exn Unit :=
  let missing := required.filter (Column.name · ∉ columns)
  if Column.other ∈ columns then .error (schemaError "upstream column names must be strings")
  else if columns.length ≠ columns.dedup.length then
    .error (schemaError "upstream response contains duplicate columns")
  else if missing ≠ [] then
    .error (schemaError
      ("missing required columns: " ++ ", ".intercalate (missing.insertionSort (· ≤ ·))))
  else .ok ()

/-- A converted row must have the required fields. -/
def checkRecord (required : List String) (index : Nat) : Record → Except Exn Row
  | .other =>
    .error (schemaError ("row " ++ toString index ++ ": expected string-keyed source fields"))
  | .fields row =>
    if required.any fun column => (List.lookup column row).isNone then
      .error (schemaError ("row " ++ toString index ++ ": missing required source fields"))
    else .ok row

/-- A failure of the table, if the adapter expects its type. -/
def expected (kinds : List ErrorClass) (message : Exn → String) (e : Exn) : Exn :=
  if e.error.kind ∈ kinds then .newFrom .schemaError (message e) e else e

/-- The rows of a table. -/
def rowsOf (frame : Frame) (required : List String) : Except Exn (List Row) :=
  match frame with
  | .other => .error (schemaError "expected a gridstatus DataFrame with columns and to_dict")
  | .table columns records => do
    checkColumns required (← columns.mapError
      (expected [.typeError] fun _ => "upstream columns are not iterable"))
    match ← records.mapError (expected [.typeError, .valueError] fun e =>
        "upstream row conversion failed: " ++ e.error.message) with
    | .other => .error (schemaError "DataFrame conversion did not produce a list of rows")
    | .list records => do
      let rows ← records.zipIdx.mapM fun record => checkRecord required record.2 record.1
      if rows = [] then
        .error (.new .upstreamRequestError "CAISO returned no observations")
      else .ok rows

/-! ## Cells -/

def validationError (message : String) : Exn := .new .validationError message

/-- The most digits of an integer that can be written as a text. -/
def maxStrDigits : Nat := 4300

/-- An integer whose text would be too long. -/
def digitLimit : Exn :=
  .new .valueError ("Exceeds the limit (4300 digits) for integer string conversion; " ++
    "use sys.set_int_max_str_digits() to increase the limit")

/-- A finite decimal. -/
def finite (name : String) : DecimalObject → Except Exn Decimal
  | .finite value => .ok value
  | _ => .error (validationError (name ++ " must be finite and non-null"))

/-- The number to which the text of an instance of another numeric class is converted. -/
def convertedNumber (name : String) : Except Exn DecimalObject → Except Exn Decimal
  | .ok shown => finite name shown
  | .error e =>
    if e.error.kind = .invalidOperation then
      .error (.newFrom .validationError (name ++ " cannot be represented as a decimal") e)
    else .error e

/-- The number in a cell. A number is read from its text. -/
def number (value : Cell) (name : String) : Except Exn Decimal :=
  match value with
  | .integer n =>
    if 10 ^ maxStrDigits ≤ n.natAbs then .error digitLimit
    else .ok ⟨decide (n < 0), n.natAbs, 0⟩
  | .float shown => finite name shown
  | .decimal d => finite name d
  | .numeric converted => convertedNumber name converted
  | .raising e => .error e
  | _ => .error (validationError (name ++ " must be numeric and non-null"))

/-- The instant in a cell. -/
def timestamp (value : Cell) (name : String) : Except Exn UtcTime :=
  match value with
  | .timestamp value nanosecond =>
    if nanosecond ≠ 0 then
      .error (validationError (name ++ " has unsupported sub-microsecond precision"))
    else value.asUtc.mapError fun e =>
      if e.error.kind = .validationError then
        .newFrom .validationError (name ++ ": " ++ e.error.message) e
      else e
  | .raising e => .error e
  | _ => .error (validationError (name ++ " must be a non-null timezone-aware datetime"))

/-! ## Rows -/

/-- The interval of a row, which its time must label. -/
def times (row : Row) : Except Exn (UtcTime × UtcTime) := do
  let start ← timestamp (row.cell "Interval Start") "Interval Start"
  let stop ← timestamp (row.cell "Interval End") "Interval End"
  let label ← timestamp (row.cell "Time") "Time"
  if label ≠ start then
    .error (validationError "Time must label Interval Start in this gridstatus contract")
  else .ok (start, stop)

/-- An interval of the length of a product. -/
def interval (seconds : Nat) (duration : String) (start stop : UtcTime) :
    Except Exn (Interval seconds) :=
  if length : stop.micros = start.micros + seconds * 1000000 then
    if aligned : start.micros % (seconds * 1000000) = 0 then .ok ⟨start, stop, length, aligned⟩
    else .error (validationError "interval start is not aligned to the product frequency")
  else .error (validationError ("interval must be positive and exactly " ++ duration))

/-- The hub of a row. -/
def hub (value : Cell) : Except Exn Hub :=
  match value with
  | .text location =>
    match Hub.ofText location with
    | some hub => .ok hub
    | none => .error (validationError "Location must be one of the supported trading hubs")
  | .raising e => .error e
  | _ => .error (validationError "Location must be one of the supported trading hubs")

/-- The labels of the market and of the place of a price. -/
def checkLabels (market locationType : Cell) : Except Exn Unit :=
  match market, locationType with
  | .raising e, _ => .error e
  | .text _, .raising e => .error e
  | .text "DAY_AHEAD_HOURLY", .text "Trading Hub" => .ok ()
  | _, _ => .error (validationError "expected DAY_AHEAD_HOURLY at a Trading Hub")

/-- The price in a row. -/
def lmpRecord (provenance : Provenance) (row : Row) : Except Exn LmpObservation := do
  let (start, stop) ← times row
  let location ← hub (row.cell "Location")
  checkLabels (row.cell "Market") (row.cell "Location Type")
  let lmp ← number (row.cell "LMP") "LMP"
  let energy ← number (row.cell "Energy") "Energy"
  let congestion ← number (row.cell "Congestion") "Congestion"
  let loss ← number (row.cell "Loss") "Loss"
  let interval ← interval 3600 "1:00:00" start stop
  return { location, interval, lmp, energy, congestion, loss, provenance }

section Load

variable [Platform]

/-- Refuse the days on which the clock is put back. -/
def checkLoadDay (day : Date) : Except Exn Unit := do
  let (start, stop) ← dayBounds day
  if start.micros + dayMicros < stop.micros then
    .error (validationError
      ("fall-back load dates are unsupported: gridstatus 0.36.0 guesses the first " ++
        "offset for repeated local labels; reliable disambiguation is unavailable"))
  else .ok ()

/-- The demand in a row. -/
def loadRecord (provenance : Provenance) (row : Row) : Except Exn LoadObservation := do
  let (start, stop) ← times row
  checkLoadDay (← pacificDate start)
  let load ← number (row.cell "Load") "Load"
  let interval ← interval 300 "0:05:00" start stop
  if nonneg : load.isNegative = false then
    return { interval, load, nonneg, provenance }
  else .error (validationError "system demand must be nonnegative; this is not net load")

end Load

/-! ## Normalization -/

/-- A failure in a row, with its place. -/
def rowError (label : String) (index : Nat) (e : Exn) : Exn :=
  if e.error.kind = .validationError then
    .newFrom .validationError (label ++ " row " ++ toString index ++ ": " ++ e.error.message) e
  else e

/-- Refuse a record whose key was seen. -/
def fresh {α : Type} (key : α → String) (seen : List String) (record : α) : Except Exn α :=
  if key record ∈ seen then
    .error (validationError "duplicate logical observation within response")
  else .ok record

/-- The records of rows, one after another. -/
def collect {α : Type} (label : String) (read : Row → Except Exn α) (key : α → String) :
    Nat → List String → List Row → Except Exn (List α)
  | _, _, [] => .ok []
  | index, seen, row :: rows => do
    let record ← (read row >>= fresh key seen).mapError (rowError label index)
    let records ← collect label read key (index + 1) (key record :: seen) rows
    return record :: records

/-- The records of a table, in order. -/
def normalize {α κ : Type} [LinearOrder κ] (required : List String) (label : String)
    (read : Row → Except Exn α) (key : α → String) (order : α → κ) (frame : Frame) :
    Except Exn (List α) := do
  let rows ← rowsOf frame required
  let records ← collect label read key 0 [] rows
  return sortOn order records

section Normalization

variable [Platform]

/-- The logical key of a price. -/
def lmpKey (record : LmpObservation) : String := (Observation.lmp record).logicalKey

/-- The logical key of a demand. -/
def loadKey (record : LoadObservation) : String := (Observation.load record).logicalKey

/-- The start and the hub of a price, in the order in which prices are sorted. -/
def lmpOrder (record : LmpObservation) : UtcTime ×ₗ String :=
  toLex (record.interval.start, record.location.text)

/-- The start of a demand. -/
def loadOrder (record : LoadObservation) : UtcTime := record.interval.start

/-- Validate the returned table and convert it to prices. -/
def normalizeLmp (frame : Frame) (provenance : Provenance) : Except Exn (List LmpObservation) :=
  normalize lmpColumns "LMP" (lmpRecord provenance) lmpKey lmpOrder frame

/-- Validate the returned table and convert it to demands. -/
def normalizeLoad (frame : Frame) (provenance : Provenance) :
    Except Exn (List LoadObservation) :=
  normalize loadColumns "load" (loadRecord provenance) loadKey loadOrder frame

end Normalization

/-! ## Fetching -/

/-- The operations of the source library: the prices between two dates at a hub and the demands of
a date. -/
structure Upstream where
  getLmp : String → String → String → Except Exn Frame
  getLoad : String → Except Exn Frame

/-- Only a day that has ended can be fetched. -/
def checkDay (today day : Date) : Except Exn Unit :=
  if today.ordinal ≤ day.ordinal then
    .error (.new .unsupportedRequestError "only completed historical Pacific dates are supported")
  else .ok ()

/-- A failure of a call to the source library. -/
def requestError (context : String) (e : Exn) : Exn :=
  if e.error.kind = .keyError ∨ e.error.kind = .typeError then
    .newFrom .schemaError
      (context ++ ": upstream parsing/schema failure: " ++ e.error.message) e
  else
    .newFrom .upstreamRequestError
      (context ++ ": " ++ e.error.name ++ ": " ++ e.error.message) e

def request (call : Except Exn Frame) (context : String) : Except Exn Frame :=
  call.mapError (requestError context)

def oasisUrl : String := "http://oasis.caiso.com/oasisapi/SingleZip"

/-- The page of the demands of a day. -/
def historyUrl (day : Date) : String :=
  "https://www.caiso.com/outlook/history/" ++
    String.ofList ((dateChars day.ordinal).filter (· ≠ '-')) ++ "/demand.csv"

/-- Whether an instant lies between the bounds of a day. -/
def within (bounds : UtcTime × UtcTime) (time : UtcTime) : Bool :=
  bounds.1 ≤ time && time < bounds.2

section Fetching

variable [Platform]

/-- Retrieval metadata of a call at an instant. -/
def provenance (now : UtcTime) (method url : String) : Except Exn Provenance :=
  if present : url ≠ "" ∧ method ≠ "" ∧ Platform.libraryVersion ≠ "" then
    .ok ⟨now, url, method, Platform.libraryVersion, present⟩
  else .error (validationError "provenance fields must be present")

/-- Fetch the prices of one completed Pacific day at one hub. -/
def fetchLmp (upstream : Upstream) (today : Date) (now : UtcTime) (day : Date)
    (location : String) : Except Exn (List LmpObservation) := do
  checkDay today day
  match Hub.ofText location with
  | none => .error (.new .unsupportedRequestError ("unsupported trading hub: " ++ location))
  | some hub => do
    let frame ← request (do upstream.getLmp day.text (← day.next).text location)
      ("CAISO day-ahead LMP for " ++ location ++ " on " ++ day.text)
    let records ← normalizeLmp frame (← provenance now "CAISO.get_lmp" oasisUrl)
    let bounds ← dayBounds day
    if records.any fun record => record.location ≠ hub || !within bounds record.interval.start then
      .error (validationError "LMP response contains observations outside the requested hub/day")
    else .ok records

/-- Fetch the demands of one completed Pacific day on which the clock is not put back. -/
def fetchLoad (upstream : Upstream) (today : Date) (now : UtcTime) (day : Date) :
    Except Exn (List LoadObservation) := do
  checkDay today day
  checkLoadDay day
  let frame ← request (upstream.getLoad day.text) ("CAISO load on " ++ day.text)
  let records ← normalizeLoad frame (← provenance now "CAISO.get_load" (historyUrl day))
  let bounds ← dayBounds day
  if records.any fun record => !within bounds record.interval.start then
    .error (validationError "load response contains observations outside the requested day")
  else .ok records

end Fetching

end PowerMarket.Sources
