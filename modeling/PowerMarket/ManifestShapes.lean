import PowerMarket.RunStates
import PowerMarket.Submissions

/-!
# The shapes of manifests

A manifest is created with its outcome unknown, and every script that moves it fills its own
columns. So the status tells which columns a manifest has (`Shape`): the counts, the batch hash and
the place in the order of commits stand together in the manifests of the runs that have committed,
and an error stands in the failed ones only. Every reachable manifest has the shape of its status
(`manifest_shapes`).

Exceptions are not copied. The programs choose the error text from two fixed ones (`Discreet`),
whatever the exception says that the source, the network or the warehouse raised, so that no text of
an exception ever reaches the tables.
-/

set_option autoImplicit false

namespace PowerMarket

open Library JobService

/-! ## Fixed error texts -/

/-- A script that records a failure has one of the fixed texts. -/
def Discreet : Script → Prop
  | .failure p => p.errorMessage ∈ failureTexts
  | _ => True

theorem discreet_serves : Serves Discreet where
  getRun _ := trivial
  beginRun _ := trivial
  snapshot _ _ := trivial
  commit _ _ := trivial
  finalize _ _ := trivial
  failure _ fixed := fixed

/-- A program whose calls submit such scripts only. -/
abbrev IsDiscreet {α : Type} (program : Client α) : Prop :=
  program.Calls (SubmitsOnly Discreet)

section Programs

theorem isDiscreet_of_within {α : Type} {program : Client α}
    (within : program.Calls (Within Discreet)) : IsDiscreet program :=
  within.mono fun _ allowed => allowed.2

theorem isDiscreet_outside (request : Outside) : IsDiscreet (call (.outside request)) :=
  ⟨fun _ _ impossible => (by cases impossible), fun _ => trivial⟩

theorem checkTables_isDiscreet (declared : List (String × List Field)) :
    IsDiscreet (checkTables declared) := by
  induction declared with
  | nil => trivial
  | cons table rest ih =>
      exact .bind (isDiscreet_outside _) fun _ => .bind (by trivial) fun _ => ih

variable [Platform]

theorem bootstrap_isDiscreet : IsDiscreet bootstrap := by
  refine .tryCatch (.bind (isDiscreet_outside _) fun _ => .bind (by trivial) fun _ =>
    .bind (checkTables_isDiscreet _) fun _ =>
      .bind (isDiscreet_of_within (query_within trivial)) fun _ =>
        .bind (isDiscreet_of_within wait_within) fun _ => trivial) fun e => ?_
  split_ifs <;> trivial

/-- **No program submits the text of an exception.** -/
theorem Launch.isDiscreet (launch : Launch) : IsDiscreet launch.start := by
  by_cases creates : launch = .bootstrap
  · subst creates
    exact .bind bootstrap_isDiscreet fun _ => trivial
  · exact (Launch.working discreet_serves creates).mono fun _ working => working.1

end Programs

/-! ## Shapes -/

variable [Platform]

/-- The columns that the begin of a run fills, whatever comes after it. -/
structure Stamped (row : RunRow) : Prop where
  source : row.source = "CAISO"
  packageVersion : row.packageVersion = Platform.packageVersion
  libraryVersion : row.libraryVersion = Platform.libraryVersion
  codeRevision : row.codeRevision = Platform.codeRevision
  warehouseSchema : row.warehouseSchema = PowerMarket.warehouseSchema
  logicalKeySchema : row.logicalKeySchema = keySchema
  contentHashSchema : row.contentHashSchema = contentSchema
  commitCompleted : row.commitCompleted = row.status.hasCommitted

/-- The columns that the commit of a batch fills are unknown. -/
structure Uncommitted (row : RunRow) : Prop where
  rowsFetched : row.rowsFetched = none
  rowsNormalized : row.rowsNormalized = none
  rowsRejected : row.rowsRejected = none
  newContents : row.newContents = none
  newTransitions : row.newTransitions = none
  batchHash : row.batchHash = none
  commitSequence : row.commitSequence = none

/-- The columns that the commit of a batch fills are known: nothing that was fetched was rejected,
and the job is the one whose identifier the run determines. -/
structure Counts (row : RunRow) : Prop where
  rowsFetched : row.rowsFetched = row.rowsAccepted
  rowsNormalized : row.rowsNormalized = row.rowsAccepted
  rowsAccepted : row.rowsAccepted.isSome = true
  rowsRejected : row.rowsRejected = some 0
  newContents : row.newContents.isSome = true
  newTransitions : row.newTransitions.isSome = true
  batchHash : row.batchHash.isSome = true
  commitSequence : row.commitSequence.isSome = true
  commitJobId : row.commitJobId = some (jobId row.runId "commit")

/-- The columns that the finalization of a run fills are unknown. -/
structure Unfinalized (row : RunRow) : Prop where
  knowledgeAt : row.knowledgeAt = none
  queryBytesProcessed : row.queryBytesProcessed = none
  queryBytesBilled : row.queryBytesBilled = none

/-- The columns that the recording of a failure fills are unknown. -/
structure Faultless (row : RunRow) : Prop where
  errorClass : row.errorClass = none
  errorMessage : row.errorMessage = none

/-- **The shape of a manifest**, by its status. -/
inductive Shape (row : RunRow) : Prop where
  | started (status : row.status = .started) (uncommitted : Uncommitted row)
      (unfinalized : Unfinalized row) (faultless : Faultless row)
      (rowsAccepted : row.rowsAccepted = none) (commitJobId : row.commitJobId = none)
      (completedAt : row.completedAt = none)
  | committed (status : row.status = .committed) (counts : Counts row)
      (unfinalized : Unfinalized row) (faultless : Faultless row)
      (completedAt : row.completedAt = none)
  | succeeded (status : row.status = .succeeded) (counts : Counts row) (faultless : Faultless row)
      (completedAt : row.completedAt.isSome = true) (knowledgeAt : row.knowledgeAt.isSome = true)
  | failed (status : row.status = .failed) (uncommitted : Uncommitted row)
      (unfinalized : Unfinalized row) (rowsAccepted : row.rowsAccepted = some 0)
      (completedAt : row.completedAt.isSome = true) (errorClass : row.errorClass.isSome = true)
      (errorMessage : ∃ text ∈ failureTexts, row.errorMessage = some text)

/-- A manifest whose columns are those that its status tells. -/
structure Shaped (row : RunRow) : Prop where
  stamped : Stamped row
  shape : Shape row

theorem shaped_begun (request : Request) (runId : String) (startedAt : UtcTime) :
    Shaped ((newRun request runId).row startedAt) where
  stamped := ⟨rfl, rfl, rfl, rfl, rfl, rfl, rfl, rfl⟩
  shape := .started rfl ⟨rfl, rfl, rfl, rfl, rfl, rfl, rfl⟩ ⟨rfl, rfl, rfl⟩ ⟨rfl, rfl⟩ rfl rfl rfl

section Moves

variable {row : RunRow}

theorem Shaped.of_started (shaped : Shaped row) (started : row.status = .started) :
    Uncommitted row ∧ Unfinalized row ∧ Faultless row ∧ row.completedAt = none := by
  cases shaped.shape with
  | started _ uncommitted unfinalized faultless _ _ completedAt =>
      exact ⟨uncommitted, unfinalized, faultless, completedAt⟩
  | committed status | succeeded status | failed status =>
      rw [started] at status
      cases status

theorem Shaped.commit (shaped : Shaped row) (started : row.status = .started)
    {p : CommitParameters} (ofJob : p.commitJobId = jobId row.runId "commit") :
    Shaped (row.commit p) := by
  obtain ⟨_, unfinalized, faultless, completedAt⟩ := shaped.of_started started
  exact ⟨{ shaped.stamped with commitCompleted := rfl }, .committed rfl
    ⟨rfl, rfl, rfl, rfl, rfl, rfl, rfl, rfl, congrArg some ofJob⟩ { unfinalized with }
    { faultless with } completedAt⟩

theorem Shaped.succeed (shaped : Shaped row) (committed : row.status = .committed)
    (p : FinalizeParameters) (now : UtcTime) : Shaped (row.succeed p now) := by
  refine ⟨{ shaped.stamped with commitCompleted := ?_ }, ?_⟩
  · exact shaped.stamped.commitCompleted.trans (by rw [committed]; rfl)
  · cases shaped.shape with
    | committed _ counts _ faultless =>
        exact .succeeded rfl { counts with } { faultless with } rfl rfl
    | started status | succeeded status | failed status =>
        rw [committed] at status
        cases status

theorem Shaped.fail (shaped : Shaped row) (started : row.status = .started)
    {p : FailureParameters} (discreet : p.errorMessage ∈ failureTexts) (now : UtcTime) :
    Shaped (row.fail p now) := by
  obtain ⟨uncommitted, unfinalized, _⟩ := shaped.of_started started
  refine ⟨{ shaped.stamped with commitCompleted := ?_ }, .failed rfl { uncommitted with }
    { unfinalized with } rfl rfl rfl ⟨_, discreet, rfl⟩⟩
  exact shaped.stamped.commitCompleted.trans (by rw [started]; rfl)

end Moves

theorem Planned.commitJobId {db : Database} {product : Product} {p : CommitParameters}
    (planned : Planned db product p) : p.commitJobId = jobId p.runId "commit" := by
  obtain ⟨_, _, _, _, _, _, parameters, _, _, _⟩ := planned
  rw [parameters]
  rfl

/-- **One effect keeps the shapes.** -/
theorem TakesEffect.shaped {w w' : Cloud} {id : JobId String} {script : Script} {rows : Rows}
    {time : UtcTime} {usage : Usage} (takes : TakesEffect w w' id script rows time usage)
    (orderly : Orderly w) (only : w.Only Discreet) (shaped : ∀ row ∈ w.store.runs, Shaped row) :
    ∀ row ∈ w'.store.runs, Shaped row := by
  intro row member
  obtain ⟨started, running⟩ := takes.running
  have discreet : Discreet script := only id _ running
  obtain ⟨permitted, _⟩ := takes.submittable
  have origin := takes.effect.origin orderly.good.unique row member
  cases origin with
  | kept before => exact shaped row before
  | begun now =>
      obtain ⟨request, runId, _, rfl⟩ := permitted
      exact shaped_begun request runId now
  | committed before seeded ofRun started current free =>
      exact (shaped _ before).commit started (ofRun ▸ permitted.commitJobId)
  | finalized now before seeded ofRun committed gate =>
      exact (shaped _ before).succeed committed _ now
  | failed now before ofRun started opened => exact (shaped _ before).fail started discreet now

theorem Reachable.discreet {s : WarehouseSystem} (reachable : Reachable s) :
    s.world.Only Discreet := by
  obtain ⟨clock, run⟩ := reachable
  exact System.Run.submits Launch.isDiscreet (fun _ => rfl) run

theorem Reachable.shaped {s : WarehouseSystem} (reachable : Reachable s) :
    ∀ row ∈ s.world.store.runs, Shaped row := by
  obtain ⟨clock, run⟩ := reachable
  induction run with
  | refl => exact fun row member => (by cases member)
  | tail before step ih =>
      have earlier : Reachable _ := ⟨clock, before⟩
      rcases step_effect earlier step with same | ⟨id, script, rows, time, usage, takes⟩
      · rw [same]
        exact ih
      · exact takes.shaped earlier.orderly earlier.discreet ih

/-- **Every manifest has the shape of its status.** In every reachable state the manifest of a run
that has not committed has no counts, batch hash and place in the order of commits, that of a run
that has committed has all of them and no error, and a failed one has the type of an exception and
one of two fixed texts. No text of an exception is ever written. -/
theorem manifest_shapes {s : WarehouseSystem} (reachable : Reachable s) :
    ∀ row ∈ s.world.store.runs, Shaped row :=
  reachable.shaped

omit [Platform] in
/-- The manifests of four runs that succeeded have their counts. -/
theorem manifest_shapes_sample :
    letI := Platform.plain
    ∃ s : WarehouseSystem, Revised s.world.store ∧ ∀ row ∈ s.world.store.runs, Shaped row := by
  let _ := Platform.plain
  obtain ⟨s, reachable, revised⟩ := exists_revised
  exact ⟨s, revised, manifest_shapes reachable⟩

end PowerMarket
