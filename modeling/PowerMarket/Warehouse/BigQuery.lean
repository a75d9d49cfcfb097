import PowerMarket.Warehouse.Schema
import PowerMarket.Library.JobService

/-!
# The warehouse client

The programs of the warehouse client. A program submits scripts as jobs, some of them under
an identifier that is derived from the run id, waits for jobs and looks them up. An exception
of a call is an ordinary reply here, so that every handler of the client stands in the
program.
-/

set_option autoImplicit false

namespace PowerMarket

open Library JobService

/-- What a program asks of the world outside the job service: the records of a request, and the
dataset and the tables, created when they are missing. -/
inductive Outside where
  | fetch (request : Request)
  | createDataset
  | createTable (name : String)

/-- The replies from outside. -/
@[reducible] def Outside.Reply : Outside → Type
  | .fetch _ => List Observation
  | .createDataset => DatasetInfo
  | .createTable _ => TableInfo

/-- The calls of the client. -/
abbrev ClientCall := Call String Script Outside

/-- The answers of the client's calls. -/
abbrev ClientAnswer := Answer String Script Outside Rows UtcTime Outside.Reply

/-- A program of the client. -/
abbrev Client (α : Type) := Program ClientCall ClientAnswer Exn α

/-- Make one call. -/
def call (c : ClientCall) : Client (ClientAnswer c) := Program.perform c

/-- A job as the client sees it. -/
abbrev JobView := View Rows UtcTime

/-- The query service as a job service. -/
def bigQuery : Engine Database Script Rows Exn UtcTime where
  execute := Script.execute
  writes := Script.writes
  conflictingUpdate :=
    .new .badRequest "Transaction is aborted due to concurrent update against table"
  alreadyExists := .new .conflict "Already Exists: Job"
  notFound := .new .notFound "Not found: Job"
  reads_only := by
    intro script t store store' rows reads executed
    cases script <;> simp only [Script.writes, reduceCtorEq] at reads <;>
      · cases executed
        rfl

/-- The manifests among the rows of a job. -/
def manifestRows (view : JobView) : List RunRow :=
  match view.rows with
  | some (.runs rows) => rows
  | _ => []

/-- The snapshot rows among the rows of a job. -/
def snapshotRows (view : JobView) : List SnapshotRow :=
  match view.rows with
  | some (.snapshot rows) => rows
  | _ => []

section Client

variable [Platform]

/-- The identifier of a job that a run submits at most once. -/
def jobId (runId operation : String) : String :=
  let namespaced := digest "warehouse-job/v1"
    [("project", Platform.config.project), ("dataset", Platform.config.dataset),
      ("location", Platform.config.location)]
  "pmd_" ++ String.ofList (namespaced.toList.take 16) ++ "_" ++ runId ++ "_" ++ operation

/-- Job identifiers of run ids of one length tell the run and the operation apart. -/
theorem jobId_inj {runId runId' operation operation' : String}
    (lengths : runId.toList.length = runId'.toList.length)
    (same : jobId runId operation = jobId runId' operation') :
    runId = runId' ∧ operation = operation' := by
  have chars := congrArg String.toList same
  simp only [jobId, String.toList_append, List.append_assoc] at chars
  have tails := List.append_cancel_left (List.append_cancel_left (List.append_cancel_left chars))
  obtain ⟨runs, rest⟩ := List.append_inj tails lengths
  exact ⟨String.toList_inj.mp runs, String.toList_inj.mp (List.append_cancel_left rest)⟩

/-- The job identifiers of runs determine the run and the operation. -/
theorem jobId_injective {runId runId' operation operation' : String}
    (valid : isRunId runId = true) (valid' : isRunId runId' = true)
    (same : jobId runId operation = jobId runId' operation') :
    runId = runId' ∧ operation = operation' :=
  jobId_inj ((isRunId_length valid).trans (isRunId_length valid').symm) same

theorem jobId_bootstrap {runId operation : String} (valid : isRunId runId = true) :
    jobId "bootstrap" "v1" ≠ jobId runId operation := by
  intro same
  have chars := congrArg String.toList same
  simp only [jobId, String.toList_append, List.append_assoc] at chars
  have tails := List.append_cancel_left (List.append_cancel_left (List.append_cancel_left chars))
  have lengths := congrArg List.length tails
  simp [isRunId_length valid] at lengths
  omega

/-- Submit a script. An identifier in use gives the job that uses it. -/
def query (script : Script) (name : Option String) : Client (JobId String) :=
  tryCatch (call (.query name script)) fun e =>
    if e.error.kind = .conflict then
      match name with
      | none => throw e
      | some name => call (.getJob name)
    else throw e

/-- Wait for the end of a job. -/
def wait (job : JobId String) : Client JobView := call (.result job)

/-- Create the tables that are missing and check each. -/
def checkTables : List (String × List Field) → Client Unit
  | [] => return ()
  | table :: rest => do
    let actual ← (call (.outside (.createTable table.1)) : Client TableInfo)
    Program.ofExcept (checkTable table.1 table.2 actual)
    checkTables rest

/-- Create the dataset, the tables and the control row, unless they exist. -/
def bootstrap : Client Unit :=
  tryCatch (do
      let dataset ← (call (.outside .createDataset) : Client DatasetInfo)
      Program.ofExcept (checkDataset dataset)
      checkTables tables
      let job ← query .seedControl (some (jobId "bootstrap" "v1"))
      let _ ← wait job
      return ())
    fun e =>
      if e.error.kind.isGoogleApiCallError then
        throw (.newFrom .warehouseError ("BigQuery bootstrap failed: " ++ e.error.name) e)
      else throw e

/-- Read the manifest of a run. -/
def getRun (runId : String) : Client (Option RunRow) := do
  let _ ← Program.ofExcept (validateRunId runId)
  let job ← query (.getRun runId) none
  let view ← wait job
  match manifestRows view with
  | [] => return none
  | [row] => return some row
  | _ =>
    throw (.new .warehouseError "duplicate manifest IDs; warehouse requires investigation")

/-- The manifest values of a request. -/
def newRun (request : Request) (runId : String) : NewRun where
  runId := runId
  requestId := request.requestId
  product := request.product
  requestedDate := request.day
  requestedLocation := request.location
  packageVersion := Platform.packageVersion
  libraryVersion := Platform.libraryVersion
  codeRevision := Platform.codeRevision

/-- Create the manifest of a run for a request. -/
def begin (request : Request) (runId : String) : Client RunRow := do
  let _ ← Program.ofExcept (validateRunId runId)
  let job ← query (.beginRun (newRun request runId)) (some (jobId runId "begin"))
  let _ ← wait job
  match ← getRun runId with
  | none =>
    throw (.new .warehouseError "run ID is bound to a different request or manifest is absent")
  | some manifest =>
    if manifest.requestId ≠ request.requestId then
      throw (.new .warehouseError "run ID is bound to a different request or manifest is absent")
    else return manifest

/-- Check the rows of the snapshot query. -/
def readSnapshot (rows : List SnapshotRow) : Except Exn Snapshot :=
  match rows with
  | [row] =>
    if row.warehouseSchema ≠ warehouseSchema then
      .error (.new .warehouseError "incompatible warehouse schema")
    else match row.activeRunId with
    | some active =>
      .error (.new .warehouseError ("run " ++ active ++ " requires warehouse resume"))
    | none =>
      if row.contents.any fun content =>
          content.2.1 ≠ keySchema ∨ content.2.2 ≠ contentSchema then
        .error (.new .warehouseError
          "incompatible identity schemas; explicit migration required")
      else if ¬ (row.contents.map Prod.fst).Nodup then
        .error (.new .warehouseError
          "duplicate content IDs; warehouse requires investigation")
      else .ok ⟨row.sequence, row.contents.map Prod.fst, row.latest⟩
  | _ =>
    .error (.new .warehouseError "missing/duplicate warehouse control row; bootstrap first")

/-- Read what a plan for the request depends on. -/
def snapshot (request : Request) : Client Snapshot := do
  let job ← query (.snapshot request.product request.day) none
  let view ← wait job
  Program.ofExcept (readSnapshot (snapshotRows view))

/-- Record the failure of a run. Detailed exceptions stay local. The update is guarded, so it
can be submitted again after a failed recording job and has no fixed identifier. -/
def fail (runId : String) (error : Exn) (commitJobId : Option String) : Client Unit := do
  let message :=
    if error.error.kind.isGoogleApiCallError then
      "BigQuery job failed; inspect its job ID and authenticated job diagnostics."
    else "Source/normalization/warehouse validation failed; inspect the invoking CLI error."
  let job ← query (.failure ⟨runId, error.error.name, message, commitJobId⟩) none
  let _ ← wait job
  return ()

/-- Look up the commit job of a run. -/
def commitJob (runId : String) : Client (Option (JobId String)) :=
  tryCatch (do
      let job ← (call (.getJob (jobId runId "commit")) : Client (JobId String))
      return some job)
    fun e => if e.error.kind = .notFound then return none else throw e

/-- The outcome of the commit job is not known. -/
def outcomeUnknown (runId : String) (cause : Exn) : Exn :=
  .newFrom .commitUnconfirmed ("job outcome unknown; resume run " ++ runId) cause

/-- After waiting for the commit job failed: only a confirmed terminal failure permits a failed
manifest. -/
def settleFailure (runId : String) (job : JobId String) (cause : Exn) :
    Client (Option RunRow) := do
  let view ← tryCatch (call (.reload job) : Client JobView)
    fun _ => throw (outcomeUnknown runId cause)
  if view.done && view.failed then do
    tryCatch (fail runId cause (some (jobId runId "commit"))) fun recordingError =>
      throw (.newFrom .warehouseError
        ("commit failed; failure status pending; resume run " ++ runId) recordingError)
    throw (.newFrom .warehouseError
      ("commit job failed for run " ++ runId ++ ": " ++ jobId runId "commit") cause)
  else throw (outcomeUnknown runId cause)

/-- Finalize a run whose commit job has ended, and read its manifest. -/
def finalize (runId : String) (product : Product) (ended : UtcTime) (usage : Usage) :
    Client RunRow := do
  tryCatch (do
      let job ← query
        (.finalize product ⟨runId, ended, usage.processed, usage.billed⟩) none
      let _ ← wait job
      return ())
    fun e => throw
      (.newFrom .commitUnconfirmed ("data committed; finalization pending for run " ++ runId) e)
  match ← getRun runId with
  | none =>
    throw (.new .commitUnconfirmed ("success confirmation unavailable; resume run " ++ runId))
  | some result =>
    if result.status ≠ .succeeded then
      throw (.new .commitUnconfirmed ("success confirmation unavailable; resume run " ++ runId))
    else return result

/-- Follow up a commit job that exists. -/
def followJob (runId : String) (product : Product) (job : JobId String) :
    Client (Option RunRow) :=
  (wait job).attempt fun
    | .error e => settleFailure runId job e
    | .ok view =>
      match view.ended with
      | none =>
        throw (.new .commitUnconfirmed
          ("job completion timestamp unavailable; resume run " ++ runId))
      | some ended => some <$> finalize runId product ended view.usage

/-- Bring a run to its end as far as its commit job allows. Without a commit job there is
nothing to bring to an end. -/
def reconcile (runId : String) : Client (Option RunRow) := do
  match ← getRun runId with
  | none => throw (.new .warehouseError "unknown run ID")
  | some manifest =>
    match manifest.status with
    | .succeeded => return some manifest
    | .failed =>
      throw (.new .warehouseError
        ("run " ++ runId ++ " failed; use a new run ID for a new attempt"))
    | .started => do
      match ← commitJob runId with
      | none => return none
      | some job => followJob runId manifest.product job
    | .committed => do
      match ← commitJob runId with
      | none =>
        throw (.new .commitUnconfirmed
          "commit job metadata unavailable; manual reconciliation required")
      | some job => followJob runId manifest.product job

/-- The parameters that commit a plan. -/
def commitParameters (runId : String) (plan : WritePlan) : CommitParameters where
  runId := runId
  expectedSequence := plan.expectedSequence
  batchHash := plan.batchHash
  accepted := plan.accepted
  commitJobId := jobId runId "commit"
  contents := plan.contents
  transitions := plan.transitions

/-- Plan the batch of a run on a snapshot read now. -/
def plan (request : Request) (records : List Observation) (runId : String) :
    Client WritePlan := do
  let rows ← Program.ofExcept (batchRows request records)
  let current ← snapshot request
  Program.ofExcept (planWrite runId rows current)

/-- Submit the planned batch of a run and follow its commit job. -/
def submitPlan (product : Product) (runId : String) (plan : WritePlan) : Client RunRow := do
  let _ ← tryCatch
    (query (.commit product (commitParameters runId plan)) (some (jobId runId "commit")))
    fun e => throw
      (.newFrom .commitUnconfirmed ("submission outcome unknown; resume run " ++ runId) e)
  match ← reconcile runId with
  | none =>
    throw (.new .commitUnconfirmed ("commit job not yet visible; resume run " ++ runId))
  | some result => return result

/-- Accept the records of a run, unless the run has a result. -/
def persist (request : Request) (records : List Observation) (runId : String) :
    Client RunRow := do
  let manifest ← getRun runId
  if manifest.map (·.requestId) ≠ some request.requestId then
    throw (.new .warehouseError
      "run ID is not bound to this request; begin the correct run first")
  else do
    match ← reconcile runId with
    | some prior => return prior
    | none => do
      let planned ← tryCatch (plan request records runId) fun e => do
        fail runId e none
        throw e
      submitPlan request.product runId planned

end Client

end PowerMarket
