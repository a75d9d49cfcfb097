import PowerMarket.Warehouse.BigQuery

/-!
# Ingestion and the orchestrated unit

`ingest` joins a source call and the warehouse client. `executeUnit` runs it once for one unit
of a backfill and decides, from the type of a failure, its explicit causes and the manifest,
whether a repetition of the same run is safe.
-/

set_option autoImplicit false

namespace PowerMarket

open Library JobService

variable [Platform]

/-! ## Ingestion -/

/-- Record the failure of a source call and stop. -/
def sourceFailed (runId : String) (e : Exn) : Client RunRow := do
  tryCatch (fail runId e none) fun failure =>
    throw (.newFrom .warehouseError
      ("run " ++ runId ++ ": source failed and failure recording failed") failure)
  throw (.newFrom .warehouseError
    ("run " ++ runId ++ ": " ++ e.error.name ++ ": " ++ e.error.message) e)

/-- Begin a run, settle what it already did, and otherwise fetch its records and persist
them. -/
def ingest (request : Request) (runId : String) : Client RunRow := do
  let _ ← begin request runId
  match ← reconcile runId with
  | some prior => return prior
  | none =>
    (call (.outside (.fetch request))).attempt fun
      | .error e => sourceFailed runId e
      | .ok records => persist request records runId

/-! ## Retries -/

/-- The types that rule out a retry wherever they occur in a chain. -/
def deterministic : ErrorClass → Bool
  | .badRequest | .forbidden | .tooManyRequests | .unauthorized | .googleAuthError
  | .schemaError | .validationError | .unsupportedRequestError | .commitUnconfirmed => true
  | _ => false

/-- The types of transient failures. -/
def passing : ErrorClass → Bool
  | .serviceUnavailable | .internalServerError | .badGateway | .gatewayTimeout
  | .requestConnectionError | .requestTimeout => true
  | _ => false

/-- Use exception types, never the text of a message. -/
def transient (error : Exn) : Bool :=
  if error.chain.any fun e => deterministic e.kind then false
  else error.chain.any fun e => passing e.kind

/-- What the manifest read after a failure says. -/
inductive ManifestState where
  | unknown
  | absent
  | found (status : Status)
  deriving DecidableEq

/-- The text of the manifest state in the message of a stop. -/
def ManifestState.text : ManifestState → String
  | .unknown => "UNKNOWN"
  | .absent => "ABSENT"
  | .found status => status.text

/-- A run may be entered again automatically only when it is started or absent and the failure
is transient. -/
def retryable (error : Exn) (manifest : ManifestState) : Bool :=
  error.error.kind ≠ .commitUnconfirmed &&
    (manifest = .absent || manifest = .found .started) && transient error

/-- One request of a backfill with its run id. The day stands for its date text. -/
structure IngestionUnit where
  day : Date
  product : String
  location : String
  runId : String

namespace IngestionUnit

/-- The request of a unit, given the current Pacific date. -/
def request (unit : IngestionUnit) (today : Date) : Except Exn Request :=
  Request.create today unit.product unit.day
    (if unit.location = "" then none else some unit.location)

def label (unit : IngestionUnit) : String :=
  unit.day.text ++ "/" ++ unit.product ++ "/" ++
    if unit.location = "" then "CAISO" else unit.location

end IngestionUnit

/-- The compact result of a unit. -/
structure IngestionResult where
  unit : IngestionUnit
  status : Status
  acceptedRows : Nat
  newContents : Nat
  newTransitions : Nat
  reusedSuccess : Bool

/-- A count column of a manifest as a number. -/
def countOf : Option Nat → Except Exn Nat
  | some n => .ok n
  | none => .error (.new .valueError "invalid literal for int() with base 10: 'None'")

/-- The result of a unit whose manifest succeeded. -/
def resultOf (unit : IngestionUnit) (prior : Option RunRow) (manifest : RunRow) :
    Except Exn IngestionResult := do
  let reused := prior.map (·.status) = some .succeeded
  let accepted ← countOf manifest.rowsAccepted
  let contents ← if reused then .ok 0 else countOf manifest.newContents
  let transitions ← if reused then .ok 0 else countOf manifest.newTransitions
  return ⟨unit, .succeeded, accepted, contents, transitions, reused⟩

/-- The failure of the first manifest read of a unit. -/
def readFailed (unit : IngestionUnit) (e : Exn) : Exn :=
  if transient e then
    .newFrom .retryableIngestionError (unit.label ++ ": transient manifest read") e
  else
    .newFrom .warehouseError (unit.label ++ ": manifest read failed; run=" ++ unit.runId) e

/-- The failure of the ingestion of a unit, given the manifest state read after it. -/
def ingestFailed (unit : IngestionUnit) (e : Exn) (state : ManifestState) : Exn :=
  if retryable e state then
    .newFrom .retryableIngestionError (unit.label ++ ": retry same run=" ++ unit.runId) e
  else
    .newFrom .warehouseError
      (unit.label ++ ": stopped; run=" ++ unit.runId ++ "; status=" ++ state.text ++ "; " ++
        e.error.name ++ ". Resume uncertain/STARTED runs with the same backfill ID; " ++
        "a terminal FAILED run requires a new backfill ID.") e

/-- Read the manifest state of a run; a failed read leaves it unknown. -/
def manifestState (runId : String) : Client ManifestState :=
  (getRun runId).attempt fun
    | .error _ => return .unknown
    | .ok none => return .absent
    | .ok (some row) => return .found row.status

/-- Execute one unit: delegate recovery to the warehouse client, classify only narrowly safe
retries. -/
def executeUnit (today : Date) (unit : IngestionUnit) : Client IngestionResult := do
  let request ← Program.ofExcept (unit.request today)
  let _ ← Program.ofExcept (validateRunId unit.runId)
  let prior ← tryCatch (getRun unit.runId) fun e => throw (readFailed unit e)
  let manifest ← tryCatch (ingest request unit.runId) fun e => do
    let state ← manifestState unit.runId
    throw (ingestFailed unit e state)
  if manifest.status ≠ .succeeded then
    throw (.new .warehouseError (unit.label ++ ": ingestion did not finalize SUCCEEDED"))
  else Program.ofExcept (resultOf unit prior manifest)

end PowerMarket
