import PowerMarket.Ingestion

/-!
# Programs against given replies

Which replies lead the programs of the client to which result, whatever the state of the
service. A job without an identifier takes two calls (`runs_job`): it fails (`JobFails`) or
answers (`JobAnswers`).
-/

set_option autoImplicit false

namespace PowerMarket

open Library JobService

/-- A call of the client with its reply. -/
abbrev ClientEvent := Event ClientCall ClientAnswer Exn

/-! ## Jobs without an identifier -/

/-- A job without an identifier failed: its submission, or waiting for it. -/
def JobFails (script : Script) (e : Exn) (events : List ClientEvent) : Prop :=
  events = [⟨.query none script, .error e⟩] ∨
    ∃ job, events = [⟨.query none script, .ok job⟩, ⟨.result job, .error e⟩]

/-- A job without an identifier ended, and its rows were read. -/
def JobAnswers (script : Script) (view : JobView) (events : List ClientEvent) : Prop :=
  ∃ job, events = [⟨.query none script, .ok job⟩, ⟨.result job, .ok view⟩]

theorem runs_query_none {script : Script} {events : List ClientEvent}
    {result : Except Exn (JobId String)} :
    Program.Runs (query script none) events result ↔ events = [⟨.query none script, result⟩] := by
  have raised : ∀ (e : Exn) (later : List ClientEvent),
      Program.Runs (if e.error.kind = .conflict then throw e else throw e : Client (JobId String))
        later result ↔ later = [] ∧ result = .error e := by
    intro e later
    rw [ite_self]
    exact Program.runs_done
  refine Program.runs_tryCatch.trans ?_
  constructor
  · rintro (⟨job, run, rfl⟩ | ⟨first, later, e, rfl, run, failed⟩)
    · exact Program.runs_perform.mp run
    · obtain rfl := Program.runs_perform.mp run
      obtain ⟨rfl, rfl⟩ := (raised e later).mp failed
      rfl
  · rintro rfl
    cases result with
    | ok job => exact .inl ⟨job, Program.runs_perform.mpr rfl, rfl⟩
    | error e =>
        exact .inr ⟨[_], [], e, rfl, Program.runs_perform.mpr rfl, (raised e []).mpr ⟨rfl, rfl⟩⟩

/-- **A job without an identifier** fails, or the program continues with its rows. -/
theorem runs_job {α : Type} {script : Script} {rest : JobView → Client α}
    {events : List ClientEvent} {result : Except Exn α} :
    Program.Runs (query script none >>= fun job => wait job >>= rest) events result ↔
      (∃ e, JobFails script e events ∧ result = .error e) ∨
        ∃ first later view, events = first ++ later ∧ JobAnswers script view first ∧
          Program.Runs (rest view) later result := by
  rw [Program.runs_bind]
  constructor
  · rintro (⟨e, asked, rfl⟩ | ⟨first, later, job, rfl, asked, run⟩)
    · exact .inl ⟨e, .inl (runs_query_none.mp asked), rfl⟩
    · obtain rfl := runs_query_none.mp asked
      rcases Program.runs_bind.mp run with ⟨e, waited, rfl⟩ | ⟨_, later, view, rfl, waited, ran⟩
      · obtain rfl := Program.runs_perform.mp waited
        exact .inl ⟨e, .inr ⟨job, rfl⟩, rfl⟩
      · obtain rfl := Program.runs_perform.mp waited
        exact .inr ⟨_, later, view, rfl, ⟨job, rfl⟩, ran⟩
  · rintro (⟨e, rfl | ⟨job, rfl⟩, rfl⟩ | ⟨_, later, view, rfl, ⟨job, rfl⟩, run⟩)
    · exact .inl ⟨e, runs_query_none.mpr rfl, rfl⟩
    · refine .inr ⟨[_], [_], job, rfl, runs_query_none.mpr rfl, ?_⟩
      exact Program.runs_bind.mpr (.inl ⟨e, Program.runs_perform.mpr rfl, rfl⟩)
    · refine .inr ⟨[_], ⟨.result job, .ok view⟩ :: later, job, rfl, runs_query_none.mpr rfl, ?_⟩
      exact Program.runs_bind.mpr (.inr ⟨[_], later, view, rfl, Program.runs_perform.mpr rfl, run⟩)

/-! ## Manifests -/

/-- What reading a manifest makes of the rows of its job. -/
def foundRun : List RunRow → Except Exn (Option RunRow)
  | [] => .ok none
  | [row] => .ok (some row)
  | _ => .error
      (.new .warehouseError "duplicate manifest IDs; warehouse requires investigation")

/-- The rows of a manifest read. -/
def RunsRead (runId : String) (rows : List RunRow) (events : List ClientEvent) : Prop :=
  ∃ view, JobAnswers (.getRun runId) view events ∧ manifestRows view = rows

/-- **Reading a manifest** against given replies. -/
theorem runs_getRun {runId : String} (valid : isRunId runId = true) {events : List ClientEvent}
    {result : Except Exn (Option RunRow)} :
    Program.Runs (getRun runId) events result ↔
      (∃ e, JobFails (.getRun runId) e events ∧ result = .error e) ∨
        ∃ rows, RunsRead runId rows events ∧ result = foundRun rows := by
  have checked : getRun runId = query (.getRun runId) none >>= fun job => wait job >>= fun view =>
      (.done (foundRun (manifestRows view)) : Client (Option RunRow)) := by
    rw [getRun, validateRunId_ok valid]
    refine congrArg (query (.getRun runId) none >>= ·) (funext fun job => ?_)
    refine congrArg (wait job >>= ·) (funext fun view => ?_)
    rcases manifestRows view with _ | ⟨row, _ | ⟨other, rows⟩⟩ <;> rfl
  rw [checked, runs_job]
  refine or_congr_right ⟨?_, ?_⟩
  · rintro ⟨first, later, view, rfl, answered, run⟩
    obtain ⟨rfl, rfl⟩ := Program.runs_done.mp run
    rw [List.append_nil]
    exact ⟨_, ⟨view, answered, rfl⟩, rfl⟩
  · rintro ⟨_, ⟨view, answered, rfl⟩, rfl⟩
    exact ⟨events, [], view, (List.append_nil _).symm, answered, .here _⟩

theorem runs_getRun_ok {runId : String} (valid : isRunId runId = true) {events : List ClientEvent}
    {found : Option RunRow} :
    Program.Runs (getRun runId) events (.ok found) ↔ RunsRead runId found.toList events := by
  rw [runs_getRun valid]
  constructor
  · rintro (⟨_, _, impossible⟩ | ⟨rows, read, same⟩)
    · cases impossible
    · rcases rows with _ | ⟨row, _ | ⟨other, rows⟩⟩
      · cases same
        exact read
      · cases same
        exact read
      · cases same
  · intro read
    refine .inr ⟨_, read, ?_⟩
    cases found <;> rfl

/-- What the manifest state says of the rows that were read. -/
def stateOf (rows : List RunRow) : ManifestState :=
  match rows with
  | [] => .absent
  | [row] => .found row.status
  | _ => .unknown

/-- **Reading the state of a manifest** against given replies. -/
theorem runs_manifestState {runId : String} (valid : isRunId runId = true)
    {events : List ClientEvent} {result : Except Exn ManifestState} :
    Program.Runs (manifestState runId) events result ↔
      (∃ e, JobFails (.getRun runId) e events ∧ result = .ok .unknown) ∨
        ∃ rows, RunsRead runId rows events ∧ result = .ok (stateOf rows) := by
  rw [manifestState, Program.runs_attempt]
  constructor
  · rintro ⟨first, later, middle, rfl, read, run⟩
    rcases (runs_getRun valid).mp read with ⟨e, failed, rfl⟩ | ⟨rows, answered, rfl⟩
    · obtain ⟨rfl, rfl⟩ := Program.runs_done.mp run
      rw [List.append_nil]
      exact .inl ⟨e, failed, rfl⟩
    · rcases rows with _ | ⟨row, _ | ⟨other, rows⟩⟩ <;>
      · obtain ⟨rfl, rfl⟩ := Program.runs_done.mp run
        rw [List.append_nil]
        exact .inr ⟨_, answered, rfl⟩
  · rintro (⟨e, failed, rfl⟩ | ⟨rows, answered, rfl⟩)
    · exact ⟨events, [], .error e, (List.append_nil _).symm,
        (runs_getRun valid).mpr (.inl ⟨e, failed, rfl⟩), .here _⟩
    · refine ⟨events, [], foundRun rows, (List.append_nil _).symm,
        (runs_getRun valid).mpr (.inr ⟨rows, answered, rfl⟩), ?_⟩
      rcases rows with _ | ⟨row, _ | ⟨other, rows⟩⟩ <;> exact .here _

/-! ## Failures -/

/-- The text that a recorded failure shows. -/
def failureMessage (error : Exn) : String :=
  if error.error.kind.isGoogleApiCallError then
    "BigQuery job failed; inspect its job ID and authenticated job diagnostics."
  else "Source/normalization/warehouse validation failed; inspect the invoking CLI error."

/-- The script that records a failure. -/
def failureScript (runId : String) (error : Exn) (commitJobId : Option String) : Script :=
  .failure ⟨runId, error.error.name, failureMessage error, commitJobId⟩

/-- **Recording a failure** against given replies. -/
theorem runs_fail {runId : String} {error : Exn} {commitJobId : Option String}
    {events : List ClientEvent} {result : Except Exn Unit} :
    Program.Runs (fail runId error commitJobId) events result ↔
      (∃ e, JobFails (failureScript runId error commitJobId) e events ∧ result = .error e) ∨
        ∃ view, JobAnswers (failureScript runId error commitJobId) view events ∧
          result = .ok () := by
  refine runs_job.trans (or_congr_right ⟨?_, ?_⟩)
  · rintro ⟨first, later, view, rfl, answered, run⟩
    obtain ⟨rfl, rfl⟩ := Program.runs_done.mp run
    rw [List.append_nil]
    exact ⟨view, answered, rfl⟩
  · rintro ⟨view, answered, rfl⟩
    exact ⟨events, [], view, (List.append_nil _).symm, answered, .here _⟩

/-- How recording a failure fails. -/
theorem fails_fail {kind : Exn → Prop} {runId : String} {error : Exn}
    {commitJobId : Option String} {events : List ClientEvent} :
    Program.Fails kind (fail runId error commitJobId) events ↔
      ∃ e, JobFails (failureScript runId error commitJobId) e events ∧ kind e := by
  constructor
  · rintro ⟨e, run, holds⟩
    rcases runs_fail.mp run with ⟨_, failing, same⟩ | ⟨_, _, impossible⟩
    · cases same
      exact ⟨e, failing, holds⟩
    · cases impossible
  · rintro ⟨e, failing, holds⟩
    exact ⟨e, runs_fail.mpr (.inl ⟨e, failing, rfl⟩), holds⟩

/-! ## Commit jobs -/

variable [Platform]

/-- **Looking up the commit job of a run** against given replies. -/
theorem runs_commitJob {runId : String} {events : List ClientEvent}
    {result : Except Exn (Option (JobId String))} :
    Program.Runs (commitJob runId) events result ↔
      (∃ job, events = [⟨.getJob (jobId runId "commit"), .ok job⟩] ∧ result = .ok (some job)) ∨
        ∃ e, events = [⟨.getJob (jobId runId "commit"), .error e⟩] ∧
          result = if e.error.kind = .notFound then .ok none else .error e := by
  have handled : ∀ (e : Exn) (later : List ClientEvent),
      Program.Runs (if e.error.kind = .notFound then return none else throw e :
        Client (Option (JobId String))) later result ↔
          later = [] ∧ result = if e.error.kind = .notFound then .ok none else .error e := by
    intro e later
    split_ifs <;> exact Program.runs_done
  refine Program.runs_tryCatch.trans ?_
  constructor
  · rintro (⟨found, run, rfl⟩ | ⟨first, later, e, rfl, run, recovered⟩)
    · rcases Program.runs_bind.mp run with ⟨_, _, impossible⟩ | ⟨_, _, job, rfl, looked, rest⟩
      · cases impossible
      · obtain rfl := Program.runs_perform.mp looked
        obtain ⟨rfl, same⟩ := Program.runs_done.mp rest
        exact .inl ⟨job, rfl, same⟩
    · obtain ⟨rfl, rfl⟩ := (handled e later).mp recovered
      rcases Program.runs_bind.mp run with ⟨_, looked, same⟩ | ⟨_, _, _, rfl, _, rest⟩
      · cases same
        obtain rfl := Program.runs_perform.mp looked
        exact .inr ⟨e, rfl, rfl⟩
      · obtain ⟨_, impossible⟩ := Program.runs_done.mp rest
        cases impossible
  · rintro (⟨job, rfl, rfl⟩ | ⟨e, rfl, rfl⟩)
    · refine .inl ⟨some job, Program.runs_bind.mpr (.inr ⟨[_], [], job, rfl, ?_, .here _⟩), rfl⟩
      exact Program.runs_perform.mpr rfl
    · refine .inr ⟨[_], [], e, rfl, Program.runs_bind.mpr (.inl ⟨e, ?_, rfl⟩),
        (handled e []).mpr ⟨rfl, rfl⟩⟩
      exact Program.runs_perform.mpr rfl

end PowerMarket
