import PowerMarket.Warehouse.Model
import Mathlib.Data.List.Dedup
import Mathlib.Data.List.MinMax

/-!
# The warehouse scripts

The tables and the scripts that read and change them. A script that fails an assertion raises
and leaves no trace, since its statements run inside one transaction. Assertions and
comparisons follow the three-valued logic of the query language: an assertion on an unknown
value fails, and a condition on one is not taken. A subquery that should give one value is
unknown on no row and an error on several.

`execute` runs a script at a time on a database. For a seeded database, one whose control
table has its single row, the lemmas `beginRun_ok`, `commitQuery_ok`, `finalizeQuery_ok` and
`failureQuery_ok` say when each script passes its assertions and what it leaves.
-/

set_option autoImplicit false

namespace PowerMarket

/-! ## Tables -/

/-- The life of a run. -/
inductive Status where
  | started
  | committed
  | succeeded
  | failed
  deriving DecidableEq

/-- The text of a status. -/
def Status.text : Status → String
  | .started => "STARTED"
  | .committed => "COMMITTED"
  | .succeeded => "SUCCEEDED"
  | .failed => "FAILED"

/-- A row of the control table: the count of commits and the run that still has to be
finalized. -/
@[ext]
structure ControlRow where
  singleton : Int
  sequence : Nat
  warehouseSchema : String
  activeRunId : Option String
  deriving DecidableEq

/-- A manifest: a row of the runs table. -/
structure RunRow where
  runId : String
  requestId : String
  source : String
  product : Product
  requestedDate : Date
  requestedLocation : Option Hub
  startedAt : UtcTime
  status : Status
  commitCompleted : Bool
  packageVersion : String
  libraryVersion : String
  warehouseSchema : String
  logicalKeySchema : String
  contentHashSchema : String
  completedAt : Option UtcTime
  knowledgeAt : Option UtcTime
  rowsFetched : Option Nat
  rowsNormalized : Option Nat
  rowsAccepted : Option Nat
  rowsRejected : Option Nat
  newContents : Option Nat
  newTransitions : Option Nat
  batchHash : Option String
  errorClass : Option String
  errorMessage : Option String
  commitJobId : Option String
  commitSequence : Option Nat
  queryBytesProcessed : Option Nat
  queryBytesBilled : Option Nat
  codeRevision : Option String
  deriving DecidableEq

/-- The tables of the warehouse, the contents and transitions by product. -/
@[ext]
structure Database where
  control : List ControlRow
  runs : List RunRow
  contents : Product → List ContentRow
  transitions : Product → List TransitionRow

/-- The tables right after they were created. -/
def Database.created : Database := ⟨[], [], fun _ => [], fun _ => []⟩

/-- A row that the snapshot query returns. -/
structure SnapshotRow where
  sequence : Nat
  activeRunId : Option String
  warehouseSchema : String
  contents : List (String × String × String)
  latest : List (String × Latest)
  deriving DecidableEq

/-- The rows of a finished script. -/
inductive Rows where
  | none
  | runs (rows : List RunRow)
  | snapshot (rows : List SnapshotRow)
  deriving DecidableEq

/-! ## Parameters -/

/-- What a caller sends to create a manifest. -/
structure NewRun where
  runId : String
  requestId : String
  product : Product
  requestedDate : Date
  requestedLocation : Option Hub
  packageVersion : String
  libraryVersion : String
  codeRevision : Option String
  deriving DecidableEq

/-- The manifest of a run that starts at a time. -/
def NewRun.row (run : NewRun) (startedAt : UtcTime) : RunRow where
  runId := run.runId
  requestId := run.requestId
  source := "CAISO"
  product := run.product
  requestedDate := run.requestedDate
  requestedLocation := run.requestedLocation
  startedAt := startedAt
  status := .started
  commitCompleted := false
  packageVersion := run.packageVersion
  libraryVersion := run.libraryVersion
  warehouseSchema := warehouseSchema
  logicalKeySchema := keySchema
  contentHashSchema := contentSchema
  completedAt := none
  knowledgeAt := none
  rowsFetched := none
  rowsNormalized := none
  rowsAccepted := none
  rowsRejected := none
  newContents := none
  newTransitions := none
  batchHash := none
  errorClass := none
  errorMessage := none
  commitJobId := none
  commitSequence := none
  queryBytesProcessed := none
  queryBytesBilled := none
  codeRevision := run.codeRevision

/-- The parameters of a commit. -/
structure CommitParameters where
  runId : String
  expectedSequence : Nat
  batchHash : String
  accepted : Nat
  commitJobId : String
  contents : List ContentRow
  transitions : List TransitionRow
  deriving DecidableEq

/-- The parameters of a finalization. -/
structure FinalizeParameters where
  runId : String
  knowledgeAt : UtcTime
  processed : Option Nat
  billed : Option Nat
  deriving DecidableEq

/-- The parameters of the recording of a failure. -/
structure FailureParameters where
  runId : String
  errorClass : String
  errorMessage : String
  commitJobId : Option String
  deriving DecidableEq

/-! ## Statements -/

/-- An assertion passes only when its condition is known to be true. -/
def assertThat (condition : Option Bool) (message : String) : Except Exn Unit :=
  if condition = some true then .ok () else .error (.new .badRequest message)

/-- A scalar subquery: unknown on no row, an error on several. -/
def scalar {α : Type} : List (Option α) → Except Exn (Option α)
  | [] => .ok none
  | [value] => .ok value
  | _ => .error (.new .badRequest "Scalar subquery produced more than one element")

/-- The control rows that the scripts address. -/
def controlRows (db : Database) : List ControlRow := db.control.filter (·.singleton = 1)

/-- Change the addressed control rows. -/
def updateControl (db : Database) (change : ControlRow → ControlRow) : Database :=
  { db with control := db.control.map fun row => if row.singleton = 1 then change row else row }

/-- The manifests with a run id. -/
def runRows (db : Database) (runId : String) : List RunRow := db.runs.filter (·.runId = runId)

/-- Change the manifests that satisfy a condition. -/
def updateRuns (db : Database) (condition : RunRow → Bool) (change : RunRow → RunRow) :
    Database :=
  { db with runs := db.runs.map fun row => if condition row then change row else row }

/-- Insert the source rows whose key is not in the target. Both the source rows and their
matches are those before the insertion. -/
def mergeRows {α : Type} (key : α → String) (target source : List α) : List α :=
  target ++ source.filter fun row => key row ∉ target.map key

/-- The checks on the control table that every changing script starts with. -/
def guard (db : Database) : Except Exn Unit := do
  assertThat (some (decide ((controlRows db).length = 1)))
    "warehouse control must have exactly one row"
  let schema ← scalar ((controlRows db).map fun row => some row.warehouseSchema)
  assertThat (schema.map fun schema => decide (schema = warehouseSchema))
    "incompatible warehouse schema"

/-! ## Scripts -/

/-- Seed the control row. -/
def seedControl (db : Database) : Except Exn Database := do
  let seeded : Database :=
    if (controlRows db).isEmpty then
      { db with control := db.control ++ [⟨1, 0, warehouseSchema, none⟩] }
    else db
  assertThat (some (decide (seeded.control.length = 1))) "invalid warehouse control"
  return seeded

/-- Create the manifest of a run, unless it exists. -/
def beginRun (run : NewRun) (now : UtcTime) (db : Database) : Except Exn Database := do
  guard db
  assertThat (some (!(runRows db run.runId).any (·.requestId ≠ run.requestId)))
    "run ID already belongs to another request"
  return if (runRows db run.runId).isEmpty then { db with runs := db.runs ++ [run.row now] } else db

/-- The latest transition of each key: its row with the greatest ordinal, the first of them in
the table. -/
def latestRows (rows : List TransitionRow) : List (String × Latest) :=
  (rows.map (·.logicalKey)).dedup.filterMap fun key =>
    ((rows.filter (·.logicalKey = key)).argmax (·.ordinal)).map fun row =>
      (key, ⟨row.contentHash, row.ordinal⟩)

/-- The control row with the content ids and the latest transitions of one day. -/
def snapshotQuery (product : Product) (day : Date) (db : Database) : List SnapshotRow :=
  (controlRows db).map fun row => {
    sequence := row.sequence
    activeRunId := row.activeRunId
    warehouseSchema := row.warehouseSchema
    contents := ((db.contents product).filter (·.marketDate = day)).map fun content =>
      (content.contentId, content.logicalKeySchema, content.contentHashSchema)
    latest := latestRows ((db.transitions product).filter (·.marketDate = day)) }

/-- Insert a planned batch. -/
def insertRows (product : Product) (p : CommitParameters) (db : Database) : Database :=
  { db with
    contents := Function.update db.contents product
      (mergeRows (·.contentId) (db.contents product) p.contents)
    transitions := Function.update db.transitions product
      (mergeRows (·.transitionId) (db.transitions product) p.transitions) }

/-- The manifest of a committed run. -/
def RunRow.commit (p : CommitParameters) (row : RunRow) : RunRow :=
  { row with
    status := .committed, commitCompleted := true, batchHash := some p.batchHash,
    commitJobId := some p.commitJobId, commitSequence := some (p.expectedSequence + 1),
    rowsFetched := some p.accepted, rowsNormalized := some p.accepted,
    rowsAccepted := some p.accepted, rowsRejected := some 0,
    newContents := some p.contents.length, newTransitions := some p.transitions.length }

/-- Commit a planned batch and take the gate. -/
def commitQuery (product : Product) (p : CommitParameters) (db : Database) :
    Except Exn Database := do
  guard db
  assertThat (some (decide (((runRows db p.runId).filter (·.status = .started)).length = 1)))
    "run is not started"
  let sequence ← scalar ((controlRows db).map fun row => some row.sequence)
  assertThat (sequence.map fun sequence => decide (sequence = p.expectedSequence))
    "stale snapshot: another batch committed; start a new attempt"
  let free ← scalar ((controlRows db).map fun row => some row.activeRunId.isNone)
  assertThat free "an earlier commit requires finalization"
  let gated := updateControl db fun row =>
    { row with sequence := row.sequence + 1, activeRunId := some p.runId }
  return updateRuns (insertRows product p gated) (·.runId = p.runId) (RunRow.commit p)

/-- Set the missing clocks of a run. -/
def fillClocks (product : Product) (p : FinalizeParameters) (db : Database) : Database :=
  { db with
    contents := Function.update db.contents product ((db.contents product).map fun row =>
      if row.firstRunId = p.runId ∧ row.firstSeenAt = none then
        { row with firstSeenAt := some p.knowledgeAt } else row)
    transitions := Function.update db.transitions product ((db.transitions product).map fun row =>
      if row.runId = p.runId ∧ row.knownAt = none then
        { row with knownAt := some p.knowledgeAt } else row) }

/-- The manifest of a finalized run. -/
def RunRow.succeed (p : FinalizeParameters) (now : UtcTime) (row : RunRow) : RunRow :=
  { row with
    status := .succeeded, completedAt := some now, knowledgeAt := some p.knowledgeAt,
    queryBytesProcessed := p.processed, queryBytesBilled := p.billed }

/-- Finalize a committed run and release the gate. A finalized run is left alone. -/
def finalizeQuery (product : Product) (p : FinalizeParameters) (now : UtcTime) (db : Database) :
    Except Exn Database := do
  guard db
  let status ← scalar ((runRows db p.runId).map fun row => some row.status)
  if status.map (fun status => decide (status ≠ .succeeded)) = some true then
    let active ← scalar ((controlRows db).map (·.activeRunId))
    assertThat (active.map fun active => decide (active = p.runId))
      "run does not own the finalization gate"
    assertThat (status.map fun status => decide (status = .committed))
      "run has not durably committed"
    let finalized := updateRuns (fillClocks product p db) (·.runId = p.runId)
      (RunRow.succeed p now)
    return updateControl finalized fun row => { row with activeRunId := none }
  else return db

/-- The manifest of a failed run. -/
def RunRow.fail (p : FailureParameters) (now : UtcTime) (row : RunRow) : RunRow :=
  { row with
    status := .failed, completedAt := some now, errorClass := some p.errorClass,
    errorMessage := some p.errorMessage, rowsAccepted := some 0,
    commitJobId := p.commitJobId.or row.commitJobId }

/-- Whether a run can still be recorded as failed. -/
def RunRow.canFail (runId : String) (row : RunRow) : Bool :=
  row.runId = runId && row.status = .started && !row.commitCompleted

/-- Record the failure of a run that has not committed. -/
def failureQuery (p : FailureParameters) (now : UtcTime) (db : Database) :
    Except Exn Database := do
  guard db
  return updateRuns db (RunRow.canFail p.runId) (RunRow.fail p now)

/-- The scripts with their parameters. -/
inductive Script where
  | seedControl
  | getRun (runId : String)
  | beginRun (run : NewRun)
  | snapshot (product : Product) (day : Date)
  | commit (product : Product) (parameters : CommitParameters)
  | finalize (product : Product) (parameters : FinalizeParameters)
  | failure (parameters : FailureParameters)
  deriving DecidableEq

/-- Whether a script changes tables. -/
def Script.writes : Script → Bool
  | .getRun _ | .snapshot _ _ => false
  | _ => true

/-- Run a script at a time. -/
def Script.execute : Script → UtcTime → Database → Except Exn (Database × Rows)
  | .seedControl, _, db => return (← PowerMarket.seedControl db, .none)
  | .getRun runId, _, db => return (db, .runs (runRows db runId))
  | .beginRun run, now, db => return (← PowerMarket.beginRun run now db, .none)
  | .snapshot product day, _, db => return (db, .snapshot (snapshotQuery product day db))
  | .commit product p, _, db => return (← commitQuery product p db, .none)
  | .finalize product p, now, db => return (← finalizeQuery product p now db, .none)
  | .failure p, now, db => return (← failureQuery p now db, .none)

/-! ## Seeded databases -/

/-- The control table has its single row. -/
structure Seeded (db : Database) (c : ControlRow) : Prop where
  control : db.control = [c]
  singleton : c.singleton = 1
  schema : c.warehouseSchema = warehouseSchema

/-- The control row after a commit. -/
def ControlRow.take (runId : String) (c : ControlRow) : ControlRow :=
  { c with sequence := c.sequence + 1, activeRunId := some runId }

/-- The control row after a finalization. -/
def ControlRow.release (c : ControlRow) : ControlRow := { c with activeRunId := none }

/-- What a commit leaves. -/
def committedDatabase (product : Product) (p : CommitParameters) (c : ControlRow)
    (db : Database) : Database :=
  updateRuns (insertRows product p { db with control := [c.take p.runId] }) (·.runId = p.runId)
    (RunRow.commit p)

/-- What a finalization leaves. -/
def finalizedDatabase (product : Product) (p : FinalizeParameters) (now : UtcTime)
    (c : ControlRow) (db : Database) : Database :=
  updateRuns (fillClocks product p { db with control := [c.release] }) (·.runId = p.runId)
    (RunRow.succeed p now)

section Seeded

variable {db : Database} {c : ControlRow}

theorem assertThat_ok {condition : Option Bool} {message : String} :
    assertThat condition message = .ok () ↔ condition = some true := by
  unfold assertThat
  split_ifs with holds <;> simp [holds]

theorem controlRows_of_seeded (seeded : Seeded db c) : controlRows db = [c] := by
  simp [controlRows, seeded.control, seeded.singleton]

theorem guard_of_seeded (seeded : Seeded db c) : guard db = .ok () := by
  simp [guard, controlRows_of_seeded seeded, assertThat, scalar, seeded.schema, bind, Except.bind]

theorem guard_of_empty (empty : db.control = []) : ∃ e, guard db = .error e := by
  simp [guard, controlRows, empty, assertThat, bind, Except.bind]

theorem updateControl_of_seeded (seeded : Seeded db c) (change : ControlRow → ControlRow) :
    updateControl db change = { db with control := [change c] } := by
  simp [updateControl, seeded.control, seeded.singleton]

/-- **When a manifest can be created.** -/
theorem beginRun_ok (seeded : Seeded db c) {run : NewRun} {now : UtcTime} {db' : Database} :
    beginRun run now db = .ok db' ↔
      (∀ row ∈ db.runs, row.runId = run.runId → row.requestId = run.requestId) ∧
        db' = if (runRows db run.runId).isEmpty then { db with runs := db.runs ++ [run.row now] }
          else db := by
  unfold beginRun
  rw [guard_of_seeded seeded]
  by_cases same : ∀ row ∈ db.runs, row.runId = run.runId → row.requestId = run.requestId
  · have none_other : (runRows db run.runId).any (·.requestId ≠ run.requestId) = false := by
      simpa [runRows] using same
    simp only [bind, Except.bind, none_other, Bool.not_false, assertThat, ↓reduceIte, pure,
      Except.pure, Except.ok.injEq]
    exact ⟨fun left => ⟨same, left.symm⟩, fun right => right.2.symm⟩
  · have some_other : (runRows db run.runId).any (·.requestId ≠ run.requestId) = true := by
      push Not at same
      simpa [runRows] using same
    simp only [bind, Except.bind, some_other, Bool.not_true, assertThat, Option.some.injEq,
      Bool.false_eq_true, ↓reduceIte, reduceCtorEq, false_iff, not_and]
    exact fun all => absurd all same

/-- **When a plan commits**: its run is started once, no other commit came since its snapshot
and the gate is free. -/
theorem commitQuery_ok (seeded : Seeded db c) {product : Product} {p : CommitParameters}
    {db' : Database} :
    commitQuery product p db = .ok db' ↔
      ((runRows db p.runId).filter (·.status = .started)).length = 1 ∧
        c.sequence = p.expectedSequence ∧ c.activeRunId = none ∧
        db' = committedDatabase product p c db := by
  unfold commitQuery
  rw [guard_of_seeded seeded, controlRows_of_seeded seeded, updateControl_of_seeded seeded]
  by_cases started : ((runRows db p.runId).filter (·.status = .started)).length = 1
  · by_cases sequence : c.sequence = p.expectedSequence
    · by_cases free : c.activeRunId = none
      · simp only [bind, Except.bind, assertThat, scalar, started, sequence, free, pure,
          Except.pure, decide_true, ↓reduceIte, List.map_cons, List.map_nil, Option.map_some,
          Option.isNone_none, Except.ok.injEq, true_and, committedDatabase, ControlRow.take]
        exact eq_comm
      · simp [bind, Except.bind, assertThat, scalar, started, sequence, free]
    · simp [bind, Except.bind, assertThat, scalar, started, sequence]
  · simp [bind, Except.bind, assertThat, started]

/-- Recording a failure always succeeds on a seeded database. -/
theorem failureQuery_ok (seeded : Seeded db c) {p : FailureParameters} {now : UtcTime}
    {db' : Database} :
    failureQuery p now db = .ok db' ↔
      db' = updateRuns db (RunRow.canFail p.runId) (RunRow.fail p now) := by
  simp [failureQuery, guard_of_seeded seeded, bind, Except.bind, pure, Except.pure, eq_comm]

/-- **When a run is finalized**: it owns the gate and has committed. A run that is finalized or
unknown is left alone. -/
theorem finalizeQuery_ok (seeded : Seeded db c) {product : Product} {p : FinalizeParameters}
    {now : UtcTime} {db' : Database} (unique : (runRows db p.runId).length ≤ 1) :
    finalizeQuery product p now db = .ok db' ↔
      ((∃ row, runRows db p.runId = [row] ∧ row.status = .committed ∧
          c.activeRunId = some p.runId) ∧ db' = finalizedDatabase product p now c db) ∨
        (∀ row ∈ runRows db p.runId, row.status = .succeeded) ∧ db' = db := by
  unfold finalizeQuery
  rw [guard_of_seeded seeded, controlRows_of_seeded seeded]
  match rows : runRows db p.runId with
  | [] => simp [bind, Except.bind, scalar, pure, Except.pure, eq_comm]
  | [row] =>
      have gated : ∀ gated : Database, gated.control = [c] →
          updateControl gated (fun row => { row with activeRunId := none }) =
            { gated with control := [c.release] } := by
        intro gated control
        simp [updateControl, control, seeded.singleton, ControlRow.release]
      by_cases done : row.status = .succeeded
      · simp [bind, Except.bind, scalar, pure, Except.pure, done, eq_comm]
      · by_cases active : c.activeRunId = some p.runId
        · by_cases committed : row.status = .committed
          · simp only [bind, Except.bind, scalar, List.map_cons, List.map_nil, committed,
              Option.map_some, active, assertThat, decide_true, ↓reduceIte, pure, Except.pure,
              ne_eq, reduceCtorEq, not_false_eq_true, List.cons.injEq, and_true, true_and,
              exists_eq_left', List.mem_singleton, forall_eq, false_and, or_false,
              Except.ok.injEq]
            rw [gated (updateRuns (fillClocks product p db) (·.runId = p.runId)
              (RunRow.succeed p now)) seeded.control]
            exact eq_comm
          · simp [bind, Except.bind, scalar, done, active, committed, assertThat]
        · have differs : c.activeRunId.map (fun active => decide (active = p.runId)) ≠ some true := by
            simpa using active
          simp [bind, Except.bind, scalar, done, active, assertThat]
  | first :: second :: rest =>
      rw [rows] at unique
      simp at unique

end Seeded

end PowerMarket
