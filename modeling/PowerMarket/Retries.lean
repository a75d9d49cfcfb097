import PowerMarket.System
import PowerMarket.Warehouse.Results
import PowerMarket.Warehouse.Replies
import PowerMarket.Warehouse.Calls

/-!
# Automatic retries

Which units ask to be repeated automatically. The client turns most failures after a submitted
commit into an unconfirmed commit, which is never transient; `Escapes` lists the calls whose
failures it lets through, and `fails_submitted` says that these are all. A unit that submitted a
commit job is repeated exactly when such a failure is transient and the manifest still reads as
started (`retry_after_commit_iff`), and one whose source failed for good exactly when recording
that fails with a transient exception (`retry_of_deterministic_iff`). Both happen
(`commit_retried`, `deterministic_retried`).
-/

set_option autoImplicit false

namespace PowerMarket

open Library JobService

/-! ## Transient failures -/

/-- The classification as a property of exceptions. -/
abbrev Transient (e : Exn) : Prop := transient e = true

theorem transient_newFrom {kind : ErrorClass} (neutral : deterministic kind = false)
    (unlisted : passing kind = false) (message : String) (cause : Exn) :
    transient (.newFrom kind message cause) = transient cause := by
  simp [transient, neutral, unlisted]

theorem not_transient_of_deterministic {e : Exn} {error : Error} (member : error ∈ e.chain)
    (listed : deterministic error.kind = true) : ¬ Transient e := by
  have found : (e.chain.any fun error => deterministic error.kind) = true :=
    List.any_eq_true.mpr ⟨error, member, listed⟩
  simp [transient, found]

theorem not_transient_unconfirmed (message : String) (cause : Exn) :
    ¬ Transient (.newFrom .commitUnconfirmed message cause) :=
  not_transient_of_deterministic List.mem_cons_self rfl

theorem not_transient_new {kind : ErrorClass} (unlisted : passing kind = false)
    (message : String) : ¬ Transient (.new kind message) := by
  simp [transient, unlisted]

variable {runId : String}

theorem fails_getRun (valid : isRunId runId = true) {events : List ClientEvent} :
    Program.Fails Transient (getRun runId) events ↔
      ∃ e, JobFails (.getRun runId) e events ∧ Transient e := by
  constructor
  · rintro ⟨e, run, holds⟩
    rcases (runs_getRun valid).mp run with ⟨_, failing, same⟩ | ⟨rows, _, same⟩
    · cases same
      exact ⟨e, failing, holds⟩
    · rcases rows with _ | ⟨row, _ | ⟨other, rows⟩⟩
      · cases same
      · cases same
      · cases same
        exact absurd holds (not_transient_new rfl _)
  · rintro ⟨e, failing, holds⟩
    exact ⟨e, (runs_getRun valid).mpr (.inl ⟨e, failing, rfl⟩), holds⟩

/-! ## After a commit was submitted -/

/-- A commit job ended and the run was finalized, but the last manifest read fails with `e`. -/
def ConfirmationFails (runId : String) (product : Product) (ended : UtcTime) (usage : Usage)
    (e : Exn) (events : List ClientEvent) : Prop :=
  ∃ finalization reading view, events = finalization ++ reading ∧
    JobAnswers (.finalize product ⟨runId, ended, usage.processed, usage.billed⟩) view
      finalization ∧
    JobFails (.getRun runId) e reading

theorem fails_finalize (valid : isRunId runId = true) {product : Product} {ended : UtcTime}
    {usage : Usage} {events : List ClientEvent} :
    Program.Fails Transient (finalize runId product ended usage) events ↔
      ∃ e, ConfirmationFails runId product ended usage e events ∧ Transient e := by
  have pending : ∀ message, ¬ Transient (.new .commitUnconfirmed message) :=
    not_transient_new rfl
  refine Program.fails_bind.trans ?_
  constructor
  · rintro (finalizing | ⟨finalization, reading, _, rfl, finalized, fails⟩)
    · obtain ⟨_, _, holds⟩ := Program.fails_rethrow.mp finalizing
      exact absurd holds (not_transient_unconfirmed _ _)
    · rcases runs_job.mp (Program.runs_rethrow_ok.mp finalized) with
        ⟨_, _, impossible⟩ | ⟨first, later, view, rfl, answered, run⟩
      · cases impossible
      · obtain ⟨rfl, _⟩ := Program.runs_done.mp run
        rw [List.append_nil]
        rcases Program.fails_bind.mp fails with failing | ⟨_, _, found, _, _, raised⟩
        · obtain ⟨e, failing, holds⟩ := (fails_getRun valid).mp failing
          exact ⟨e, ⟨first, reading, view, rfl, answered, failing⟩, holds⟩
        · cases found with
          | none =>
              obtain ⟨_, _, same, holds⟩ := Program.fails_done.mp raised
              cases same
              exact absurd holds (pending _)
          | some row =>
              simp only at raised
              split_ifs at raised with unfinished
              · obtain ⟨_, _, same, holds⟩ := Program.fails_done.mp raised
                cases same
                exact absurd holds (pending _)
              · obtain ⟨_, _, impossible, _⟩ := Program.fails_done.mp raised
                cases impossible
  · rintro ⟨e, ⟨finalization, reading, view, rfl, answered, failing⟩, holds⟩
    refine .inr ⟨finalization, reading, (), rfl, Program.runs_rethrow_ok.mpr ?_, ?_⟩
    · exact runs_job.mpr (.inr ⟨finalization, [], view, (List.append_nil _).symm, answered, .here _⟩)
    · exact Program.fails_bind.mpr (.inl ((fails_getRun valid).mpr ⟨e, failing, holds⟩))

section Commits

variable [Platform]

/-- A commit job is known to have failed. Recording that fails with `e`, or it succeeds and `e`
is the failure. -/
def SettledWith (runId : String) (job : JobId String) (cause e : Exn)
    (events : List ClientEvent) : Prop :=
  ∃ view recording, events = ⟨.reload job, .ok view⟩ :: recording ∧ view.done = true ∧
    view.failed = true ∧
    (JobFails (failureScript runId cause (some (jobId runId "commit"))) e recording ∨
      e = cause ∧ ∃ rows,
        JobAnswers (failureScript runId cause (some (jobId runId "commit"))) rows recording)

theorem fails_settleFailure {job : JobId String} {cause : Exn} {events : List ClientEvent} :
    Program.Fails Transient (settleFailure runId job cause) events ↔
      ∃ e, SettledWith runId job cause e events ∧ Transient e := by
  have unknown : ¬ Transient (outcomeUnknown runId cause) := not_transient_unconfirmed _ _
  have wrapped : ∀ message e, transient (.newFrom .warehouseError message e) = transient e :=
    transient_newFrom rfl rfl
  refine Program.fails_bind.trans ?_
  constructor
  · rintro (reloading | ⟨first, recording, view, rfl, reloaded, fails⟩)
    · obtain ⟨_, _, holds⟩ := Program.fails_rethrow.mp reloading
      exact absurd holds unknown
    · obtain rfl := Program.runs_perform.mp (Program.runs_rethrow_ok.mp reloaded)
      split_ifs at fails with terminal
      · obtain ⟨done, failed⟩ := Bool.and_eq_true_iff.mp terminal
        rcases Program.fails_bind.mp fails with lost | ⟨first, later, _, rfl, recorded, raised⟩
        · obtain ⟨e, failing, holds⟩ := fails_fail.mp (Program.fails_rethrow.mp lost)
          rw [Transient, wrapped] at holds
          exact ⟨e, ⟨view, recording, rfl, done, failed, .inl failing⟩, holds⟩
        · obtain ⟨rfl, _, same, holds⟩ := Program.fails_done.mp raised
          cases same
          rw [Transient, wrapped] at holds
          rcases runs_fail.mp (Program.runs_rethrow_ok.mp recorded) with
            ⟨_, _, impossible⟩ | ⟨rows, answered, _⟩
          · cases impossible
          · rw [List.append_nil]
            exact ⟨cause, ⟨view, first, rfl, done, failed, .inr ⟨rfl, rows, answered⟩⟩, holds⟩
      · obtain ⟨_, _, same, holds⟩ := Program.fails_done.mp fails
        cases same
        exact absurd holds unknown
  · rintro ⟨e, ⟨view, recording, rfl, done, failed, recorded⟩, holds⟩
    have terminal : (view.done && view.failed) = true := Bool.and_eq_true_iff.mpr ⟨done, failed⟩
    refine .inr ⟨[_], recording, view, rfl,
      Program.runs_rethrow_ok.mpr (Program.runs_perform.mpr rfl), ?_⟩
    rw [if_pos terminal]
    rcases recorded with failing | ⟨rfl, rows, answered⟩
    · refine Program.fails_bind.mpr (.inl (Program.fails_rethrow.mpr ?_))
      exact fails_fail.mpr ⟨e, failing, (wrapped _ e).trans holds⟩
    · refine Program.fails_bind.mpr (.inr ⟨recording, [], (), (List.append_nil _).symm, ?_, ?_⟩)
      · exact Program.runs_rethrow_ok.mpr (runs_fail.mpr (.inr ⟨rows, answered, rfl⟩))
      · exact Program.fails_done.mpr ⟨rfl, _, rfl, (wrapped _ e).trans holds⟩

/-- What a reconciliation does after it found the commit job fails with `e`: the job failed and
was settled with `e`, or it ended and the confirmation fails with `e`. -/
def FollowFails (runId : String) (product : Product) (job : JobId String) (e : Exn)
    (events : List ClientEvent) : Prop :=
  (∃ cause settling, events = ⟨.result job, .error cause⟩ :: settling ∧
      SettledWith runId job cause e settling) ∨
    ∃ view ended confirming, events = ⟨.result job, .ok view⟩ :: confirming ∧
      view.ended = some ended ∧ ConfirmationFails runId product ended view.usage e confirming

theorem fails_followJob (valid : isRunId runId = true) {product : Product} {job : JobId String}
    {events : List ClientEvent} :
    Program.Fails Transient (followJob runId product job) events ↔
      ∃ e, FollowFails runId product job e events ∧ Transient e := by
  constructor
  · rintro ⟨e, run, holds⟩
    obtain ⟨first, later, reply, rfl, waited, followed⟩ := Program.runs_attempt.mp run
    obtain rfl := Program.runs_perform.mp waited
    cases reply with
    | error cause =>
        obtain ⟨e', settled, holds'⟩ := fails_settleFailure.mp ⟨e, followed, holds⟩
        exact ⟨e', .inl ⟨cause, later, rfl, settled⟩, holds'⟩
    | ok view =>
        cases ended : view.ended with
        | none =>
            simp only [ended] at followed
            obtain ⟨_, same⟩ := Program.runs_done.mp followed
            cases same
            exact absurd holds (not_transient_new rfl _)
        | some time =>
            simp only [ended] at followed
            obtain ⟨e', failing, holds'⟩ :=
              (fails_finalize valid).mp (Program.fails_map.mp ⟨e, followed, holds⟩)
            exact ⟨e', .inr ⟨view, time, later, rfl, ended, failing⟩, holds'⟩
  · rintro ⟨e, ⟨cause, settling, rfl, settled⟩ | ⟨view, ended, confirming, rfl, at_end, failing⟩,
      holds⟩
    · obtain ⟨e', run, holds'⟩ := fails_settleFailure.mpr ⟨e, settled, holds⟩
      exact ⟨e', Program.runs_attempt.mpr ⟨[_], settling, .error cause, rfl,
        Program.runs_perform.mpr rfl, run⟩, holds'⟩
    · obtain ⟨e', run, holds'⟩ := Program.fails_map.mpr
        ((fails_finalize valid).mpr ⟨e, failing, holds⟩)
      refine ⟨e', Program.runs_attempt.mpr ⟨[_], confirming, .ok view, rfl,
        Program.runs_perform.mpr rfl, ?_⟩, holds'⟩
      simp only [at_end]
      exact run

/-- **What a reconciliation lets through**: a call fails with `e`, and no handler turns that
into an unconfirmed commit. -/
inductive Escapes (runId : String) (e : Exn) : List ClientEvent → Prop where
  | read {events : List ClientEvent} (failing : JobFails (.getRun runId) e events) :
      Escapes runId e events
  | lookup {reading : List ClientEvent} {row : RunRow} (read : RunsRead runId [row] reading)
      (opened : row.status = .started ∨ row.status = .committed)
      (found : e.error.kind ≠ .notFound) :
      Escapes runId e (reading ++ [⟨.getJob (jobId runId "commit"), .error e⟩])
  | follow {reading following : List ClientEvent} {row : RunRow} {job : JobId String}
      (read : RunsRead runId [row] reading)
      (opened : row.status = .started ∨ row.status = .committed)
      (failing : FollowFails runId row.product job e following) :
      Escapes runId e (reading ++ ⟨.getJob (jobId runId "commit"), .ok job⟩ :: following)

/-- How looking up the commit job and following it fails. -/
theorem fails_commitJob (valid : isRunId runId = true) {product : Product}
    {rest : Option (JobId String) → Client (Option RunRow)} {events : List ClientEvent}
    (follows : ∀ job, rest (some job) = followJob runId product job)
    (absent : ∀ later, ¬ Program.Fails Transient (rest none) later) :
    Program.Fails Transient (commitJob runId >>= rest) events ↔
      (∃ e, events = [⟨.getJob (jobId runId "commit"), .error e⟩] ∧ e.error.kind ≠ .notFound ∧
          Transient e) ∨
        ∃ e job following, events = ⟨.getJob (jobId runId "commit"), .ok job⟩ :: following ∧
          FollowFails runId product job e following ∧ Transient e := by
  rw [Program.fails_bind]
  constructor
  · rintro (⟨e, looked, holds⟩ | ⟨first, following, found, rfl, looked, fails⟩)
    · rcases runs_commitJob.mp looked with ⟨_, _, impossible⟩ | ⟨_, rfl, same⟩
      · cases impossible
      · split_ifs at same with missing
        cases same
        exact .inl ⟨e, rfl, missing, holds⟩
    · rcases runs_commitJob.mp looked with ⟨job, rfl, same⟩ | ⟨_, _, same⟩
      · cases same
        rw [follows] at fails
        obtain ⟨e, failing, holds⟩ := (fails_followJob valid).mp fails
        exact .inr ⟨e, job, following, rfl, failing, holds⟩
      · split_ifs at same with missing
        cases same
        exact absurd fails (absent following)
  · rintro (⟨e, rfl, found, holds⟩ | ⟨e, job, following, rfl, failing, holds⟩)
    · exact .inl ⟨e, runs_commitJob.mpr (.inr ⟨e, rfl, (if_neg found).symm⟩), holds⟩
    · refine .inr ⟨[_], following, some job, rfl, runs_commitJob.mpr (.inl ⟨job, rfl, rfl⟩), ?_⟩
      rw [follows]
      exact (fails_followJob valid).mpr ⟨e, failing, holds⟩

/-- **How a reconciliation fails with a transient exception.** -/
theorem fails_reconcile (valid : isRunId runId = true) {events : List ClientEvent} :
    Program.Fails Transient (reconcile runId) events ↔
      ∃ e, Escapes runId e events ∧ Transient e := by
  have stops : ∀ {kind message later}, passing kind = false →
      ¬ Program.Fails Transient (throw (.new kind message) : Client (Option RunRow)) later := by
    rintro kind message later unlisted fails
    obtain ⟨_, _, same, holds⟩ := Program.fails_done.mp fails
    cases same
    exact not_transient_new unlisted _ holds
  have returns : ∀ {found later},
      ¬ Program.Fails Transient (return found : Client (Option RunRow)) later := by
    rintro found later fails
    obtain ⟨_, _, impossible, _⟩ := Program.fails_done.mp fails
    cases impossible
  refine Program.fails_bind.trans ?_
  constructor
  · rintro (failing | ⟨reading, later, found, rfl, read, fails⟩)
    · obtain ⟨e, failing, holds⟩ := (fails_getRun valid).mp failing
      exact ⟨e, .read failing, holds⟩
    · have rows := (runs_getRun_ok valid).mp read
      cases found with
      | none => exact absurd fails (stops rfl)
      | some row =>
          have looked : row.status = .started ∨ row.status = .committed →
              ((∃ e, later = [⟨.getJob (jobId runId "commit"), .error e⟩] ∧
                  e.error.kind ≠ .notFound ∧ Transient e) ∨
                ∃ e job following, later = ⟨.getJob (jobId runId "commit"), .ok job⟩ :: following ∧
                  FollowFails runId row.product job e following ∧ Transient e) →
              ∃ e, Escapes runId e (reading ++ later) ∧ Transient e := by
            rintro opened (⟨e, rfl, present, holds⟩ | ⟨e, job, following, rfl, failing, holds⟩)
            · exact ⟨e, .lookup rows opened present, holds⟩
            · exact ⟨e, .follow rows opened failing, holds⟩
          simp only at fails
          split at fails
          · exact absurd fails returns
          · exact absurd fails (stops rfl)
          · rename_i status
            exact looked (.inl status)
              ((fails_commitJob valid (fun _ => rfl) fun _ => returns).mp fails)
          · rename_i status
            exact looked (.inr status)
              ((fails_commitJob valid (fun _ => rfl) fun _ => stops rfl).mp fails)
  · rintro ⟨e, escapes, holds⟩
    cases escapes with
    | read failing => exact .inl ((fails_getRun valid).mpr ⟨e, failing, holds⟩)
    | @lookup reading row read opened present =>
        refine .inr ⟨reading, _, some row, rfl, (runs_getRun_ok valid).mpr read, ?_⟩
        rcases opened with status | status <;> simp only [status]
        · exact (fails_commitJob valid (fun _ => rfl) fun _ => returns).mpr
            (.inl ⟨e, rfl, present, holds⟩)
        · exact (fails_commitJob valid (fun _ => rfl) fun _ => stops rfl).mpr
            (.inl ⟨e, rfl, present, holds⟩)
    | @follow reading following row job read opened failing =>
        refine .inr ⟨reading, _, some row, rfl, (runs_getRun_ok valid).mpr read, ?_⟩
        rcases opened with status | status <;> simp only [status]
        · exact (fails_commitJob valid (fun _ => rfl) fun _ => returns).mpr
            (.inr ⟨e, job, following, rfl, failing, holds⟩)
        · exact (fails_commitJob valid (fun _ => rfl) fun _ => stops rfl).mpr
            (.inr ⟨e, job, following, rfl, failing, holds⟩)

/-- What resolves a submission: the job it created, or the job that uses its identifier. -/
def resolved (name : String) (reply : Except Exn (JobId String)) : Client (JobId String) :=
  match reply with
  | .ok job => return job
  | .error e => if e.error.kind = .conflict then call (.getJob name) else throw e

/-- What the client does after it submitted the commit job of a run. -/
def submitted (runId : String) (reply : Except Exn (JobId String)) : Client RunRow := do
  let _ ← tryCatch (resolved (jobId runId "commit") reply) fun e => throw
    (.newFrom .commitUnconfirmed ("submission outcome unknown; resume run " ++ runId) e)
  match ← reconcile runId with
  | none =>
    throw (.new .commitUnconfirmed ("commit job not yet visible; resume run " ++ runId))
  | some result => return result

theorem submitPlan_eq (product : Product) (runId : String) (plan : WritePlan) :
    submitPlan product runId plan =
      .call (.query (some (jobId runId "commit")) (.commit product (commitParameters runId plan)))
        (submitted runId) := by
  refine congrArg (Program.call _) (funext fun reply => ?_)
  cases reply <;> rfl

/-- A submission gave its job: it was accepted, or its identifier was in use and the job was
found. -/
inductive Accepts (name : String) : Except Exn (JobId String) → List ClientEvent → Prop where
  | created (job : JobId String) : Accepts name (.ok job) []
  | found {e : Exn} (job : JobId String) (conflict : e.error.kind = .conflict) :
      Accepts name (.error e) [⟨.getJob name, .ok job⟩]

omit [Platform] in
theorem runs_resolved {name : String} {reply : Except Exn (JobId String)}
    {events : List ClientEvent} :
    (∃ job, Program.Runs (resolved name reply) events (.ok job)) ↔ Accepts name reply events := by
  constructor
  · rintro ⟨job, run⟩
    cases reply with
    | ok job' =>
        obtain ⟨rfl, _⟩ := Program.runs_done.mp run
        exact .created job'
    | error e =>
        simp only [resolved] at run
        split_ifs at run with conflict
        · obtain rfl := Program.runs_perform.mp run
          exact .found job conflict
        · obtain ⟨_, impossible⟩ := Program.runs_done.mp run
          cases impossible
  · intro accepts
    cases accepts with
    | created job => exact ⟨job, .here _⟩
    | @found e job conflict =>
        refine ⟨job, ?_⟩
        simp only [resolved, if_pos conflict]
        exact Program.runs_perform.mpr rfl

/-- **How a unit that submitted its commit job fails with a transient exception.** -/
theorem fails_submitted (valid : isRunId runId = true) {reply : Except Exn (JobId String)}
    {events : List ClientEvent} :
    Program.Fails Transient (submitted runId reply) events ↔
      ∃ e first later, events = first ++ later ∧ Accepts (jobId runId "commit") reply first ∧
        Escapes runId e later ∧ Transient e := by
  refine Program.fails_bind.trans ?_
  constructor
  · rintro (unknown | ⟨first, later, job, rfl, accepted, fails⟩)
    · obtain ⟨_, _, holds⟩ := Program.fails_rethrow.mp unknown
      exact absurd holds (not_transient_unconfirmed _ _)
    · have accepts := runs_resolved.mp ⟨job, Program.runs_rethrow_ok.mp accepted⟩
      rcases Program.fails_bind.mp fails with reconciling | ⟨_, _, found, _, _, raised⟩
      · obtain ⟨e, escapes, holds⟩ := (fails_reconcile valid).mp reconciling
        exact ⟨e, first, later, rfl, accepts, escapes, holds⟩
      · cases found with
        | none =>
            obtain ⟨_, _, same, holds⟩ := Program.fails_done.mp raised
            cases same
            exact absurd holds (not_transient_new rfl _)
        | some row =>
            obtain ⟨_, _, impossible, _⟩ := Program.fails_done.mp raised
            cases impossible
  · rintro ⟨e, first, later, rfl, accepts, escapes, holds⟩
    obtain ⟨job, run⟩ := runs_resolved.mpr accepts
    refine .inr ⟨first, later, job, rfl, Program.runs_rethrow_ok.mpr run, ?_⟩
    exact Program.fails_bind.mpr (.inl ((fails_reconcile valid).mpr ⟨e, escapes, holds⟩))

/-! ## The end of a unit -/

/-- A unit ended with the request to repeat it automatically. -/
def Retried (result : Except Exn IngestionResult) : Prop :=
  ∃ e, result = .error e ∧ e.error.kind = .retryableIngestionError

/-- A manifest that a repetition would find is absent or started. -/
def Reopens (rows : List RunRow) : Prop := rows = [] ∨ ∃ row, rows = [row] ∧ row.status = .started

omit [Platform] in
theorem ingestFailed_kind {unit : IngestionUnit} {e : Exn} {rows : List RunRow} :
    (ingestFailed unit e (stateOf rows)).error.kind = .retryableIngestionError ↔
      Transient e ∧ Reopens rows := by
  have unconfirmed : Transient e → e.error.kind ≠ .commitUnconfirmed := by
    intro holds same
    exact not_transient_of_deterministic List.mem_cons_self (by rw [same]; rfl) holds
  have state : (stateOf rows = .absent ∨ stateOf rows = .found .started) ↔ Reopens rows := by
    rcases rows with _ | ⟨row, _ | ⟨other, rows⟩⟩ <;> simp [stateOf, Reopens]
  rw [← state]
  by_cases again : retryable e (stateOf rows) = true
  · simp only [ingestFailed, again, if_true, Exn.newFrom_kind, true_iff]
    simp only [retryable, Bool.and_eq_true, Bool.or_eq_true, decide_eq_true_eq] at again
    exact ⟨again.2, again.1.2⟩
  · simp only [ingestFailed, again]
    refine iff_of_false (by simp) fun both => again ?_
    simp only [retryable, Bool.and_eq_true, Bool.or_eq_true, decide_eq_true_eq]
    exact ⟨⟨unconfirmed both.1, both.2⟩, both.1⟩

omit [Platform] in
theorem not_retried_unknown {unit : IngestionUnit} {e : Exn} :
    (ingestFailed unit e .unknown).error.kind ≠ .retryableIngestionError := by
  simp [ingestFailed, retryable]

omit [Platform] in
theorem countOf_error {count : Option Nat} {e : Exn} (failed : countOf count = .error e) :
    e.error.kind = .valueError ∧ e.causes = [] := by
  cases count with
  | none =>
      cases failed
      exact ⟨rfl, rfl⟩
  | some n => cases failed

omit [Platform] in
theorem resultOf_error {unit : IngestionUnit} {prior : Option RunRow} {row : RunRow} {e : Exn}
    (failed : resultOf unit prior row = .error e) : e.error.kind = .valueError ∧ e.causes = [] := by
  rcases bind_eq_error.mp failed with raised | ⟨accepted, _, rest⟩
  · exact countOf_error raised
  · by_cases reused : prior.map (·.status) = some .succeeded
    · simp only [reused, if_true] at rest
      cases rest
    · simp only [reused, if_false] at rest
      rcases bind_eq_error.mp rest with raised | ⟨contents, _, rest⟩
      · exact countOf_error raised
      · rcases bind_eq_error.mp rest with raised | ⟨transitions, _, impossible⟩
        · exact countOf_error raised
        · cases impossible

omit [Platform] in
/-- **When a unit is repeated**: its ingestion fails with a transient exception, and the manifest
read after it shows no run, or one that has only started. -/
theorem unitRest_retried {unit : IngestionUnit} (valid : isRunId unit.runId = true)
    {prior : Option RunRow} {ingestion : Client RunRow} {events : List ClientEvent}
    {result : Except Exn IngestionResult}
    (run : Program.Runs (unitRest unit prior ingestion) events result) :
    Retried result ↔ ∃ first reading rows, events = first ++ reading ∧
      Program.Fails Transient ingestion first ∧ RunsRead unit.runId rows reading ∧
      Reopens rows := by
  constructor
  · rintro ⟨stop, rfl, kind⟩
    rcases Program.runs_bind.mp run with ⟨_, failed, same⟩ | ⟨_, _, row, rfl, _, finished⟩
    · cases same
      rcases Program.runs_tryCatch.mp failed with ⟨_, _, impossible⟩ | ⟨first, later, e, rfl, ran,
        handled⟩
      · cases impossible
      · rcases Program.runs_bind.mp handled with ⟨_, reading, same⟩ | ⟨reading, _, state, rfl, read,
          raised⟩
        · cases same
          rcases (runs_manifestState valid).mp reading with ⟨_, _, impossible⟩ | ⟨_, _, impossible⟩ <;>
            cases impossible
        · obtain ⟨rfl, same⟩ := Program.runs_done.mp raised
          cases same
          rw [List.append_nil]
          rcases (runs_manifestState valid).mp read with ⟨_, _, same⟩ | ⟨rows, answered, same⟩
          · cases same
            exact absurd kind not_retried_unknown
          · cases same
            obtain ⟨holds, reopens⟩ := ingestFailed_kind.mp kind
            exact ⟨first, reading, rows, rfl, ⟨e, ran, holds⟩, answered, reopens⟩
    · split_ifs at finished with unfinished
      · obtain ⟨_, same⟩ := Program.runs_done.mp finished
        cases same
        cases kind
      · obtain ⟨_, same⟩ := Program.runs_done.mp finished
        rw [(resultOf_error same.symm).1] at kind
        cases kind
  · rintro ⟨first, reading, rows, rfl, ⟨e, ran, holds⟩, read, reopens⟩
    have state : Program.Runs (manifestState unit.runId) reading (.ok (stateOf rows)) :=
      (runs_manifestState valid).mpr (.inr ⟨rows, read, rfl⟩)
    have stops : Program.Runs (unitRest unit prior ingestion) (first ++ reading)
        (.error (ingestFailed unit e (stateOf rows))) := by
      refine Program.runs_bind.mpr (.inl ⟨_, Program.runs_tryCatch.mpr (.inr ?_), rfl⟩)
      refine ⟨first, reading, e, rfl, ran, Program.runs_bind.mpr (.inr ?_)⟩
      exact ⟨reading, [], _, (List.append_nil _).symm, state, .here _⟩
    exact ⟨_, run.result_unique stops, ingestFailed_kind.mpr ⟨holds, reopens⟩⟩

end Commits

/-! ## The turning points of a unit -/

/-- A script that commits. -/
def Script.isCommit : Script → Prop
  | .commit _ _ => True
  | _ => False

/-- A call that submits a commit job. -/
def commits : ClientCall → Bool
  | .query _ (.commit _ _) => true
  | _ => false

theorem commits_iff {c : ClientCall} :
    commits c = true ↔ ∃ name product p, c = .query name (.commit product p) := by
  cases c with
  | query name script => cases script <;> simp [commits]
  | _ => simp [commits]

/-- After a call that submits a commit job, and after a fetch, the program goes on in these ways. -/
def Turns {α : Type} (onCommit : Except Exn (JobId String) → Client α)
    (onFetch : Except Exn (List Observation) → Client α) :
    (c : ClientCall) → (Except Exn (ClientAnswer c) → Client α) → Prop
  | .query _ (.commit _ _), next => next = onCommit
  | .outside (.fetch _), next => next = onFetch
  | _, _ => True

section Turns

variable {α β : Type} {onCommit : Except Exn (JobId String) → Client α}
  {onFetch : Except Exn (List Observation) → Client α}

theorem turns_other {c : ClientCall} {next : Except Exn (ClientAnswer c) → Client α}
    (within : Within (fun script => ¬ script.isCommit) c) : Turns onCommit onFetch c next := by
  cases c with
  | query name script =>
      cases script with
      | commit product p => exact absurd trivial (within.2 _ _ rfl)
      | _ => trivial
  | outside request => exact absurd rfl (within.1 request)
  | _ => trivial

theorem turns_within {program : Client α}
    (within : program.Calls (Within fun script => ¬ script.isCommit)) :
    program.Continues (Turns onCommit onFetch) :=
  within.continues fun _ _ allowed => turns_other allowed

/-- A first part without a turning point. -/
theorem turns_bind {first : Client β} {second : β → Client α}
    (within : first.Calls (Within fun script => ¬ script.isCommit))
    (continues : ∀ b, (second b).Continues (Turns onCommit onFetch)) :
    (first >>= second).Continues (Turns onCommit onFetch) := by
  refine (within.continues fun _ _ allowed => allowed).attempt
    (fun _ _ allowed => turns_other allowed) fun result => ?_
  cases result with
  | ok b => exact continues b
  | error e => trivial

/-- A first part with turning points is followed by the second. -/
theorem turns_attempt {first : Client α} {second : Except Exn α → Client β}
    (continues : first.Continues (Turns onCommit onFetch))
    (within : ∀ result, (second result).Calls (Within fun script => ¬ script.isCommit)) :
    (first.attempt second).Continues
      (Turns (fun reply => (onCommit reply).attempt second)
        fun reply => (onFetch reply).attempt second) := by
  refine continues.attempt (fun c next described => ?_) fun result => turns_within (within result)
  cases c with
  | query name script =>
      cases script with
      | commit product p =>
          have same : next = onCommit := described
          rw [same]
          rfl
      | _ => trivial
  | outside request =>
      cases request with
      | fetch request =>
          have same : next = onFetch := described
          rw [same]
          rfl
      | _ => trivial
  | _ => trivial

/-- A unit goes on with the end of its ingestion. -/
theorem unitRest_turns {unit : IngestionUnit} {prior : Option RunRow}
    {onCommit : Except Exn (JobId String) → Client RunRow}
    {onFetch : Except Exn (List Observation) → Client RunRow} {ingestion : Client RunRow}
    (continues : ingestion.Continues (Turns onCommit onFetch)) :
    (unitRest unit prior ingestion).Continues
      (Turns (fun reply => unitRest unit prior (onCommit reply))
        fun reply => unitRest unit prior (onFetch reply)) := by
  refine turns_attempt (turns_attempt continues fun result => ?_) fun result => ?_
  · cases result with
    | ok row => trivial
    | error e => exact .bind (manifestState_within id) fun _ => trivial
  · cases result with
    | ok row =>
        simp only [Program.afterValue_ok]
        split_ifs <;> trivial
    | error e => trivial

end Turns

variable [Platform]

theorem reconcile_noCommit :
    (reconcile runId).Calls (Within fun script => ¬ script.isCommit) :=
  reconcile_within id (fun _ _ _ => id) fun _ _ => id

theorem submitted_noCommit {reply : Except Exn (JobId String)} :
    (submitted runId reply).Calls (Within fun script => ¬ script.isCommit) := by
  unfold submitted
  refine .bind (.tryCatch ?_ fun _ => trivial) fun _ => .bind reconcile_noCommit fun found => ?_
  · cases reply with
    | ok job => trivial
    | error e =>
        simp only [resolved]
        split_ifs
        · exact within_passive (fun _ impossible => by cases impossible)
            fun _ _ impossible => by cases impossible
        · trivial
  · cases found <;> trivial

theorem persist_turns {request : Request} {records : List Observation}
    {onFetch : Except Exn (List Observation) → Client RunRow} :
    (persist request records runId).Continues (Turns (submitted runId) onFetch) := by
  unfold persist
  refine turns_bind (getRun_within id) fun manifest => ?_
  split_ifs
  · trivial
  · refine turns_bind reconcile_noCommit fun prior => ?_
    cases prior with
    | some prior => trivial
    | none =>
        refine turns_bind (.tryCatch (plan_within id) fun e => ?_) fun planned => ?_
        · exact .bind (fail_within fun _ _ => id) fun _ => trivial
        · rw [submitPlan_eq]
          exact ⟨rfl, fun reply => turns_within submitted_noCommit⟩

/-- What an ingestion does after its fetch. -/
def fetched (request : Request) (runId : String) (reply : Except Exn (List Observation)) :
    Client RunRow :=
  match reply with
  | .error e => sourceFailed runId e
  | .ok records => persist request records runId

theorem ingest_turns {request : Request} :
    (ingest request runId).Continues (Turns (submitted runId) (fetched request runId)) := by
  unfold ingest
  refine turns_bind (begin_within id id) fun _ => turns_bind reconcile_noCommit
    fun prior => ?_
  cases prior with
  | some prior => trivial
  | none =>
      refine ⟨?_, fun reply => ?_⟩
      · funext reply
        cases reply <;> rfl
      · cases reply with
        | error e => exact turns_within (sourceFailed_within fun _ _ => id)
        | ok records => exact persist_turns

/-- **The turning points of a unit.** After it submitted its commit job, and after its fetch, a
unit does what the client does then, and ends. -/
theorem executeUnit_turns {today : Date} {unit : IngestionUnit} {request : Request}
    (requested : unit.request today = .ok request) (valid : isRunId unit.runId = true) :
    (executeUnit today unit).Continues fun c next => ∃ prior,
      Turns (fun reply => unitRest unit prior (submitted unit.runId reply))
        (fun reply => unitRest unit prior (fetched request unit.runId reply)) c next := by
  rw [executeUnit_eq requested valid]
  have reads : (tryCatchThe Exn (getRun unit.runId) fun e => throw (readFailed unit e)).Calls
      (Within fun script => ¬ script.isCommit) := .tryCatch (getRun_within id) fun _ => trivial
  refine (reads.continues fun _ _ allowed => allowed).attempt
    (fun _ _ allowed => ⟨none, turns_other allowed⟩) fun prior => ?_
  cases prior with
  | error e => trivial
  | ok prior => exact (unitRest_turns ingest_turns).mono fun _ _ described => ⟨prior, described⟩

/-! ## No automatic retry after a commit -/

/-- After the submission of a commit job a call failed with a transient exception that no handler
of the client turned into an unconfirmed commit, and the manifest read after that shows no run or
one that has only started. -/
def LetsThrough (runId : String) (reply : Except Exn (JobId String)) (after : List ClientEvent) :
    Prop :=
  ∃ e accepting following reading rows, after = (accepting ++ following) ++ reading ∧
    Accepts (jobId runId "commit") reply accepting ∧ Escapes runId e following ∧ Transient e ∧
    RunsRead runId rows reading ∧ Reopens rows

/-- A unit stopped and asks for an explicit repetition with the same identifier. -/
structure AsksToResume (unit : IngestionUnit) (e : Exn) : Prop where
  kind : e.error.kind = .warehouseError
  message : ∃ status cause, e.error.message =
    unit.label ++ ": stopped; run=" ++ unit.runId ++ "; status=" ++ status ++ "; " ++ cause ++
      ". Resume uncertain/STARTED runs with the same backfill ID; " ++
      "a terminal FAILED run requires a new backfill ID."

/-- What a unit that submitted a commit job may end with. -/
structure StopsAfterCommit (unit : IngestionUnit) (result : Except Exn Returned) : Prop where
  not_retried : ∀ e, result = .error e → e.error.kind ≠ .retryableIngestionError
  ends : (∃ r, result = .ok (.result r) ∧ r.status = .succeeded) ∨
    ∃ e, result = .error e ∧ AsksToResume unit e

omit [Platform] in
theorem ingestFailed_asks {unit : IngestionUnit} {e : Exn} {state : ManifestState}
    (kind : (ingestFailed unit e state).error.kind ≠ .retryableIngestionError) :
    AsksToResume unit (ingestFailed unit e state) := by
  by_cases again : retryable e state = true
  · simp [ingestFailed, again] at kind
  · rw [ingestFailed, if_neg again]
    exact ⟨rfl, state.text, e.error.name, rfl⟩

omit [Platform] in
/-- How the end of a unit can fail. -/
theorem unitRest_error {unit : IngestionUnit} (valid : isRunId unit.runId = true)
    {prior : Option RunRow} {ingestion : Client RunRow} {events : List ClientEvent} {e : Exn}
    (run : Program.Runs (unitRest unit prior ingestion) events (.error e)) :
    (∃ cause state, e = ingestFailed unit cause state) ∨ e.causes = [] := by
  rcases Program.runs_bind.mp run with ⟨_, failed, same⟩ | ⟨_, _, row, rfl, _, finished⟩
  · cases same
    rcases Program.runs_tryCatch.mp failed with ⟨_, _, impossible⟩ | ⟨_, _, cause, rfl, _, handled⟩
    · cases impossible
    · rcases Program.runs_bind.mp handled with ⟨_, reading, same⟩ | ⟨_, _, state, rfl, _, raised⟩
      · cases same
        rcases (runs_manifestState valid).mp reading with ⟨_, _, impossible⟩ | ⟨_, _, impossible⟩ <;>
          cases impossible
      · obtain ⟨_, same⟩ := Program.runs_done.mp raised
        cases same
        exact .inl ⟨cause, state, rfl⟩
  · split_ifs at finished
    · obtain ⟨_, same⟩ := Program.runs_done.mp finished
      cases same
      exact .inr rfl
    · obtain ⟨_, same⟩ := Program.runs_done.mp finished
      exact .inr (resultOf_error same.symm).2

theorem executeUnit_valid {today : Date} {unit : IngestionUnit} {events : List ClientEvent}
    {result : Except Exn IngestionResult} (run : Program.Runs (executeUnit today unit) events result)
    (called : events ≠ []) :
    isRunId unit.runId = true ∧ ∃ request, unit.request today = .ok request := by
  cases requested : unit.request today with
  | error e =>
      rw [executeUnit, requested] at run
      exact absurd (Program.runs_done.mp run).1 called
  | ok request =>
      refine ⟨?_, request, rfl⟩
      by_contra invalid
      rw [executeUnit, requested, validateRunId, if_neg invalid] at run
      exact absurd (Program.runs_done.mp run).1 called

/-- The events of a unit that has ended lead to its result. -/
theorem Reachable.unitRuns {s : WarehouseSystem} (reachable : Reachable s) {i : Nat} {today : Date}
    {unit : IngestionUnit} {history : List ClientEvent} {result : Except Exn Returned}
    (at_i : s.processes i = some ⟨.executeUnit today unit, history, some (.done result)⟩) :
    ∃ ended, Program.Runs (executeUnit today unit) history ended ∧ result = ended.map .result ∧
      ∃ base, UnitEnded today unit base ended s.world := by
  obtain ⟨ended, run, rfl⟩ := Program.runs_map.mp (reachable.recorded i _ _ _ at_i)
  obtain ⟨clock, before⟩ := reachable
  have initial : Reachable (System.initial (Cloud.created clock)) := ⟨clock, .refl⟩
  obtain ⟨base, ended', _, known, same⟩ := initial.unitEnded rfl before at_i
  refine ⟨ended, run, rfl, base, ?_⟩
  cases ended with
  | ok r =>
      cases ended' with
      | ok r' =>
          cases same
          exact known
      | error e => cases same
  | error e =>
      cases ended' with
      | ok r => cases same
      | error e' =>
          cases same
          exact known

/-- **No automatic retry after a commit.** A unit that submitted a commit job ends with its result
or stops and asks to be resumed, unless a transient failure after the submission is let through
while the manifest still reads as started. Then, and only then, it asks to be repeated
automatically. -/
theorem retry_after_commit_iff {s : WarehouseSystem} (reachable : Reachable s) {i : Nat}
    {today : Date} {unit : IngestionUnit} {before after : List ClientEvent} {name : Option String}
    {product : Product} {p : CommitParameters} {reply : Except Exn (JobId String)}
    {result : Except Exn Returned}
    (ended : s.processes i = some ⟨.executeUnit today unit,
      before ++ ⟨.query name (.commit product p), reply⟩ :: after, some (.done result)⟩) :
    StopsAfterCommit unit result ↔ ¬ LetsThrough unit.runId reply after := by
  obtain ⟨ended', run, rfl, base, known⟩ := reachable.unitRuns ended
  obtain ⟨valid, request, requested⟩ := executeUnit_valid run (by simp)
  obtain ⟨next, ⟨prior, same⟩, rest⟩ := run.continues (executeUnit_turns requested valid)
  have next_eq : next = fun reply => unitRest unit prior (submitted unit.runId reply) := same
  rw [next_eq] at rest
  have through : Retried ended' ↔ LetsThrough unit.runId reply after := by
    rw [unitRest_retried valid rest]
    constructor
    · rintro ⟨first, reading, rows, rfl, fails, read, reopens⟩
      obtain ⟨e, accepting, following, rfl, accepts, escapes, holds⟩ := (fails_submitted valid).mp fails
      exact ⟨e, accepting, following, reading, rows, rfl, accepts, escapes, holds, read, reopens⟩
    · rintro ⟨e, accepting, following, reading, rows, rfl, accepts, escapes, holds, read, reopens⟩
      exact ⟨_, reading, rows, rfl,
        (fails_submitted valid).mpr ⟨e, accepting, following, rfl, accepts, escapes, holds⟩, read,
        reopens⟩
  rw [← through]
  constructor
  · rintro stops ⟨e, rfl, kind⟩
    exact stops.not_retried e rfl kind
  · intro notRetried
    cases ended' with
    | ok r =>
        exact ⟨fun _ impossible => (by cases impossible),
          .inl ⟨r, rfl, ((known.returned r rfl).2).1⟩⟩
    | error e =>
        have kind : e.error.kind ≠ .retryableIngestionError := fun same => notRetried ⟨e, rfl, same⟩
        refine ⟨fun e' same => (by cases same; exact kind), .inr ⟨e, rfl, ?_⟩⟩
        rcases unitRest_error valid rest with ⟨cause, state, rfl⟩ | uncaused
        · exact ingestFailed_asks kind
        · rcases known.raised e rfl uncaused with refused | refused
          · rw [requested] at refused
            cases refused
          · rw [validateRunId_ok valid] at refused
            cases refused

/-! ## No automatic retry of a deterministic failure -/

/-- An exception that is, or is caused by, one of the types that rule out a retry. -/
def Deterministic (e : Exn) : Prop := ∃ error ∈ e.chain, deterministic error.kind = true

/-- After a failure of the source, recording it failed with a transient exception, and the
manifest read after that shows no run or one that has only started. -/
def LosesFailure (runId : String) (e : Exn) (after : List ClientEvent) : Prop :=
  ∃ f recording reading rows, after = recording ++ reading ∧
    JobFails (failureScript runId e none) f recording ∧ Transient f ∧
    RunsRead runId rows reading ∧ Reopens rows

omit [Platform] in
/-- A deterministic failure of the source becomes a transient one when recording it fails. -/
theorem fails_sourceFailed {runId : String} {e : Exn} (listed : Deterministic e)
    {events : List ClientEvent} :
    Program.Fails Transient (sourceFailed runId e) events ↔
      ∃ f, JobFails (failureScript runId e none) f events ∧ Transient f := by
  have wrapped : ∀ message cause, transient (.newFrom .warehouseError message cause) =
      transient cause := transient_newFrom rfl rfl
  obtain ⟨error, member, kind⟩ := listed
  refine Program.fails_bind.trans ?_
  constructor
  · rintro (lost | ⟨recording, _, _, rfl, _, raised⟩)
    · obtain ⟨f, failing, holds⟩ := fails_fail.mp (Program.fails_rethrow.mp lost)
      rw [Transient, wrapped] at holds
      exact ⟨f, failing, holds⟩
    · obtain ⟨_, _, same, holds⟩ := Program.fails_done.mp raised
      cases same
      rw [Transient, wrapped] at holds
      exact absurd holds (not_transient_of_deterministic member kind)
  · rintro ⟨f, failing, holds⟩
    exact .inl (Program.fails_rethrow.mpr (fails_fail.mpr ⟨f, failing, (wrapped _ f).trans holds⟩))

/-- **No automatic retry of a deterministic failure.** A unit whose source fails in a way that
rules out a retry does not ask to be repeated automatically, exactly unless recording the failure
fails with a transient exception and the manifest still reads as started. -/
theorem retry_of_deterministic_iff {s : WarehouseSystem} (reachable : Reachable s) {i : Nat}
    {today : Date} {unit : IngestionUnit} {before after : List ClientEvent} {request : Request}
    {e : Exn} {result : Except Exn Returned} (listed : Deterministic e)
    (ended : s.processes i = some ⟨.executeUnit today unit,
      before ++ ⟨.outside (.fetch request), .error e⟩ :: after, some (.done result)⟩) :
    (∀ stop, result = .error stop → stop.error.kind ≠ .retryableIngestionError) ↔
      ¬ LosesFailure unit.runId e after := by
  obtain ⟨ended', run, rfl, _⟩ := reachable.unitRuns ended
  obtain ⟨valid, request', requested⟩ := executeUnit_valid run (by simp)
  obtain ⟨next, ⟨prior, same⟩, rest⟩ := run.continues (executeUnit_turns requested valid)
  have next_eq : next =
      fun reply => unitRest unit prior (fetched request' unit.runId reply) := same
  rw [next_eq] at rest
  have loses : Retried ended' ↔ LosesFailure unit.runId e after := by
    rw [unitRest_retried valid rest]
    constructor
    · rintro ⟨recording, reading, rows, rfl, fails, read, reopens⟩
      obtain ⟨f, failing, holds⟩ := (fails_sourceFailed listed).mp fails
      exact ⟨f, recording, reading, rows, rfl, failing, holds, read, reopens⟩
    · rintro ⟨f, recording, reading, rows, rfl, failing, holds, read, reopens⟩
      exact ⟨recording, reading, rows, rfl, (fails_sourceFailed listed).mpr ⟨f, failing, holds⟩,
        read, reopens⟩
  rw [← loses]
  cases ended' with
  | ok r => simp [Retried, Except.map]
  | error stop => simp [Retried, Except.map]

/-! ## A commit and a deterministic failure that are retried -/

/-- The unit of the small batch. -/
def sampleUnit : IngestionUnit := ⟨sampleRequest.day, "load", "", sampleRunId⟩

/-- The unit for the prices of the day. -/
def samplePriceUnit : IngestionUnit :=
  ⟨sampleRequest.day, "lmp", "TH_NP15_GEN-APND", "1123456789abcdef0123456789abcdef"⟩

/-- The day after the small batch. -/
def sampleToday : Date := sampleNextDay

/-- A unit that ran alone, some of whose calls failed. -/
def unitRun (outside : (request : Outside) → Except Exn request.Reply)
    (faults : List (Option Exn)) : Program.Outcome ClientCall ClientAnswer Exn Cloud Returned :=
  alone outside faults (Launch.start (.executeUnit sampleToday sampleUnit)) bootstrapped.world

/-- The system after that run. -/
def afterUnit (outside : (request : Outside) → Except Exn request.Reply)
    (faults : List (Option Exn)) : WarehouseSystem :=
  bootstrapped.finish 1 (.executeUnit sampleToday sampleUnit) [] (unitRun outside faults)

theorem afterUnit_reachable (outside : (request : Outside) → Except Exn request.Reply)
    (faults : List (Option Exn)) : Reachable (afterUnit outside faults) := by
  have unused : bootstrapped.processes 1 = none := rfl
  exact (bootstrapped_reachable.run (bootstrapped_reachable.launched unused
    (.executeUnit sampleToday sampleUnit) outside faults)).1

/-- A result that asks for an automatic repetition. -/
def asksAgain : Except Exn Returned → Bool
  | .error e => e.error.kind = .retryableIngestionError
  | .ok _ => false

omit [Platform] in
theorem asksAgain_iff {result : Except Exn Returned} : asksAgain result = true ↔
    ∃ e, result = .error e ∧ e.error.kind = .retryableIngestionError := by
  cases result <;> simp [asksAgain]

/-- The returned result of a unit that succeeded. -/
def succeeds : Except Exn Returned → Bool
  | .ok (.result r) => r.status = .succeeded
  | _ => false

omit [Platform] in
theorem succeeds_iff {result : Except Exn Returned} :
    succeeds result = true ↔ ∃ r, result = .ok (.result r) ∧ r.status = .succeeded := by
  rcases result with e | r
  · simp [succeeds]
  · cases r <;> simp [succeeds]

/-- The service is unavailable right after the commit job was submitted. -/
def unavailableAfterCommit : List (Option Exn) :=
  List.replicate 18 none ++ [some (.new .serviceUnavailable "")]

/-- The unit that ran alone submitted a commit job. -/
theorem afterUnit_commits {outside : (request : Outside) → Except Exn request.Reply}
    {faults : List (Option Exn)}
    (submits : ((unitRun outside faults).events.any fun event => commits event.call) = true) :
    ∃ before name product p reply after, (afterUnit outside faults).processes 1 =
      some ⟨.executeUnit sampleToday sampleUnit,
        before ++ ⟨.query name (.commit product p), reply⟩ :: after,
        some (.done (unitRun outside faults).result)⟩ := by
  obtain ⟨⟨c, reply⟩, member, submission⟩ := List.any_eq_true.mp submits
  obtain ⟨name, product, p, rfl⟩ := commits_iff.mp submission
  obtain ⟨before, after, split⟩ := List.append_of_mem member
  refine ⟨before, name, product, p, reply, after, ?_⟩
  rw [← split]
  simp [afterUnit, WarehouseSystem.finish]

omit [Platform] in
set_option maxRecDepth 4000 in
/-- A unit that commits and finishes. -/
theorem retry_after_commit_sample :
    letI := Platform.plain
    ∃ before name product p reply after, (afterUnit sampleOutside []).processes 1 =
        some ⟨.executeUnit sampleToday sampleUnit,
          before ++ ⟨.query name (.commit product p), reply⟩ :: after,
          some (.done (unitRun sampleOutside []).result)⟩ ∧
      StopsAfterCommit sampleUnit (unitRun sampleOutside []).result ∧
      ¬ LetsThrough sampleRunId reply after := by
  have submits : ((@unitRun Platform.plain (@sampleOutside Platform.plain) []).events.any
      fun event => commits event.call) = true := by rfl
  have finishes : succeeds (@unitRun Platform.plain (@sampleOutside Platform.plain) []).result =
      true := by rfl
  obtain ⟨before, name, product, p, reply, after, ended⟩ :=
    @afterUnit_commits Platform.plain _ _ submits
  have stops : StopsAfterCommit sampleUnit
      (@unitRun Platform.plain (@sampleOutside Platform.plain) []).result := by
    obtain ⟨r, same, succeeded⟩ := succeeds_iff.mp finishes
    rw [same]
    exact ⟨fun _ impossible => (by cases impossible), .inl ⟨r, rfl, succeeded⟩⟩
  exact ⟨before, name, product, p, reply, after, ended, stops, (@retry_after_commit_iff Platform.plain
    _ (@afterUnit_reachable Platform.plain _ _) _ _ _ _ _ _ _ _ _ _ ended).mp stops⟩

omit [Platform] in
set_option maxRecDepth 4000 in
/-- **A commit that is retried.** The service is unavailable for the first manifest read after the
commit job was submitted. The unit asks to be repeated automatically, although its commit may
have happened. -/
theorem commit_retried :
    letI := Platform.plain
    ∃ s : WarehouseSystem, Reachable s ∧ ∃ before name product p reply after e,
      s.processes 1 = some ⟨.executeUnit sampleToday sampleUnit,
        before ++ ⟨.query name (.commit product p), reply⟩ :: after, some (.done (.error e))⟩ ∧
      e.error.kind = .retryableIngestionError := by
  have submits : ((@unitRun Platform.plain (@sampleOutside Platform.plain)
      unavailableAfterCommit).events.any fun event => commits event.call) = true := by rfl
  have again : asksAgain (@unitRun Platform.plain (@sampleOutside Platform.plain)
      unavailableAfterCommit).result = true := by rfl
  obtain ⟨before, name, product, p, reply, after, ended⟩ :=
    @afterUnit_commits Platform.plain _ _ submits
  obtain ⟨e, result, kind⟩ := asksAgain_iff.mp again
  rw [result] at ended
  exact ⟨_, @afterUnit_reachable Platform.plain _ _, before, name, product, p, reply, after, e, ended,
    kind⟩

/-- A fetch that failed in a way that rules out a retry. -/
def failsForGood : ClientEvent → Bool
  | ⟨.outside (.fetch _), .error e⟩ => e.chain.any fun error => deterministic error.kind
  | _ => false

omit [Platform] in
theorem failsForGood_iff {event : ClientEvent} : failsForGood event = true ↔
    ∃ request e, event = ⟨.outside (.fetch request), .error e⟩ ∧ Deterministic e := by
  obtain ⟨c, reply⟩ := event
  cases c with
  | outside request =>
      cases request with
      | fetch request => cases reply <;> simp [failsForGood, Deterministic]
      | _ => simp [failsForGood]
  | _ => simp [failsForGood]

/-- A source whose records have another schema than expected. -/
def changedOutside : (request : Outside) → Except Exn request.Reply
  | .fetch _ => .error (.new .schemaError "unexpected columns")
  | .createDataset => sampleOutside .createDataset
  | .createTable name => sampleOutside (.createTable name)

/-- The service is unavailable when the failure of the source is recorded. -/
def unavailableAfterFetch : List (Option Exn) :=
  List.replicate 10 none ++ [some (.new .serviceUnavailable "")]

/-- The source of the unit that ran alone failed. -/
theorem afterUnit_failed {outside : (request : Outside) → Except Exn request.Reply}
    {faults : List (Option Exn)}
    (failed : (unitRun outside faults).events.any failsForGood = true) :
    ∃ before request e after, Deterministic e ∧ (afterUnit outside faults).processes 1 =
      some ⟨.executeUnit sampleToday sampleUnit,
        before ++ ⟨.outside (.fetch request), .error e⟩ :: after,
        some (.done (unitRun outside faults).result)⟩ := by
  obtain ⟨event, member, failure⟩ := List.any_eq_true.mp failed
  obtain ⟨request, e, rfl, listed⟩ := failsForGood_iff.mp failure
  obtain ⟨before, after, split⟩ := List.append_of_mem member
  refine ⟨before, request, e, after, listed, ?_⟩
  rw [← split]
  simp [afterUnit, WarehouseSystem.finish]

omit [Platform] in
set_option maxRecDepth 4000 in
/-- A source fails for good, and the failure is recorded. -/
theorem retry_of_deterministic_sample :
    letI := Platform.plain
    ∃ before request e after, Deterministic e ∧ (afterUnit changedOutside []).processes 1 =
        some ⟨.executeUnit sampleToday sampleUnit,
          before ++ ⟨.outside (.fetch request), .error e⟩ :: after,
          some (.done (unitRun changedOutside []).result)⟩ ∧
      ¬ LosesFailure sampleRunId e after := by
  have failed : (@unitRun Platform.plain (@changedOutside Platform.plain) []).events.any
      failsForGood = true := by rfl
  have stops : asksAgain (@unitRun Platform.plain (@changedOutside Platform.plain) []).result =
      false := by rfl
  obtain ⟨before, request, e, after, listed, ended⟩ := @afterUnit_failed Platform.plain _ _ failed
  refine ⟨before, request, e, after, listed, ended, (@retry_of_deterministic_iff Platform.plain _
    (@afterUnit_reachable Platform.plain _ _) _ _ _ _ _ _ _ _ listed ended).mp ?_⟩
  rintro stop same
  rw [same] at stops
  exact of_decide_eq_false stops

omit [Platform] in
set_option maxRecDepth 4000 in
/-- **A deterministic failure that is retried.** The records of the source have another schema,
and the service is unavailable when that is recorded. The unit asks to be repeated
automatically. -/
theorem deterministic_retried :
    letI := Platform.plain
    ∃ s : WarehouseSystem, Reachable s ∧ ∃ before request e after stop, Deterministic e ∧
      s.processes 1 = some ⟨.executeUnit sampleToday sampleUnit,
        before ++ ⟨.outside (.fetch request), .error e⟩ :: after, some (.done (.error stop))⟩ ∧
      stop.error.kind = .retryableIngestionError := by
  have failed : (@unitRun Platform.plain (@changedOutside Platform.plain)
      unavailableAfterFetch).events.any failsForGood = true := by rfl
  have again : asksAgain (@unitRun Platform.plain (@changedOutside Platform.plain)
      unavailableAfterFetch).result = true := by rfl
  obtain ⟨before, request, e, after, listed, ended⟩ := @afterUnit_failed Platform.plain _ _ failed
  obtain ⟨stop, result, kind⟩ := asksAgain_iff.mp again
  rw [result] at ended
  exact ⟨_, @afterUnit_reachable Platform.plain _ _, before, request, e, after, stop, listed, ended,
    kind⟩

end PowerMarket
