import PowerMarket.Orchestration.Pipeline
import PowerMarket.Orchestration.Resumption
import PowerMarket.RunBinding
import PowerMarket.Warehouse.Calls

/-!
# Where the records of a unit come from

A unit whose source is honest submits no commit but that of a plan for the records which the source
has for its request (`executeUnit_sources`), and when it returns, its run has succeeded and is bound
to that request (`executeUnit_finishes`). Both hold whatever the other processes and the service do.
-/

set_option autoImplicit false

namespace PowerMarket

open Library JobService

variable [Platform]

/-! ## Commits from a source -/

/-- A call that submits a commit submits one of this run, planned for these records. -/
def CommitsFrom (request : Request) (records : List Observation) (runId : String) (w : Cloud)
    (c : ClientCall) : Prop :=
  ∀ name product p, c = .query name (.commit product p) →
    p.runId = runId ∧ PlannedFrom request records w.store product p

/-- A script that commits nothing. -/
def NoCommit (script : Script) : Prop := ∀ product p, script ≠ .commit product p

section CommitsFrom

variable {request : Request} {records : List Observation} {runId : String} {w : Cloud}

theorem commitsFrom_passive : Passive (CommitsFrom request records runId) :=
  fun _ _ notQuery name _ _ same => absurd same (notQuery name _)

theorem commitsFrom_of_within {α : Type} {program : Client α}
    (within : program.Calls (Within NoCommit)) :
    protocol.Safe (CommitsFrom request records runId) (fun _ _ => True) program w :=
  .of_calls within fun _ _ inside name _ _ same => absurd rfl (inside.2 name _ same _ _)

omit [Platform] in
theorem noCommit_getRun : NoCommit (.getRun runId) := fun _ _ impossible => by cases impossible

omit [Platform] in
theorem noCommit_failure (p : FailureParameters) : NoCommit (.failure p) :=
  fun _ _ impossible => by cases impossible

theorem reconcile_within_noCommit : (reconcile runId).Calls (Within NoCommit) :=
  reconcile_within noCommit_getRun (fun _ _ _ _ _ impossible => by cases impossible)
    fun p _ => noCommit_failure p

/-- Planning commits nothing, and gives a plan for the records. -/
theorem plan_sources : protocol.Safe (CommitsFrom request records runId)
    (fun result v => ∀ planned, result = .ok planned →
      PlannedFrom request records v.store request.product (commitParameters runId planned))
    (plan request records runId) w := by
  have within : (plan request records runId).Calls (Within NoCommit) :=
    plan_within fun _ _ impossible => by cases impossible
  exact (plan_from.both (commitsFrom_of_within within)).weaken (fun _ _ _ both => both.2)
    fun _ _ _ _ holds => holds.1

/-- Submitting a plan for the records. -/
theorem submitPlan_sources {planned : WritePlan}
    (from_ : PlannedFrom request records w.store request.product (commitParameters runId planned)) :
    protocol.Safe (CommitsFrom request records runId) (fun _ _ => True)
      (submitPlan request.product runId planned) w := by
  have commits : ∀ v, Future w v → CommitsFrom request records runId v
      (.query (some (jobId runId "commit"))
        (.commit request.product (commitParameters runId planned))) := by
    intro v toV name product p same
    cases same
    exact ⟨rfl, from_.mono toV.before⟩
  unfold submitPlan
  refine .bind (Q := fun _ _ => True) ?_ (fun _ _ _ _ _ => ?_) (fun _ _ _ => trivial)
  · exact .tryCatch (query_some_safe commitsFrom_passive fun v toV _ => commits v toV)
      (fun _ _ _ _ _ _ _ _ => trivial) (fun _ _ _ _ _ => .done fun _ _ _ => trivial)
  · refine .bind (commitsFrom_of_within reconcile_within_noCommit) (fun result _ _ _ _ => ?_)
      (fun _ _ _ => trivial)
    cases result <;> exact .done fun _ _ _ => trivial

/-- **Persisting records** commits a plan for these records only. -/
theorem persist_sources : protocol.Safe (CommitsFrom request records runId) (fun _ _ => True)
    (persist request records runId) w := by
  have fails : ∀ (e : Exn) {u : Cloud}, protocol.Safe (CommitsFrom request records runId)
      (fun _ _ => True) (fail runId e none) u :=
    fun e u => commitsFrom_of_within (fail_within fun p _ => noCommit_failure p)
  unfold persist
  refine .bind (commitsFrom_of_within (getRun_within noCommit_getRun)) (fun manifest _ _ _ _ => ?_)
    (fun _ _ _ => trivial)
  split_ifs
  · exact .done fun _ _ _ => trivial
  · refine .bind (commitsFrom_of_within reconcile_within_noCommit) (fun prior _ _ _ _ => ?_)
      (fun _ _ _ => trivial)
    cases prior with
    | some prior => exact .done fun _ _ _ => trivial
    | none =>
        refine .bind (Q := fun result v => ∀ planned, result = .ok planned →
            PlannedFrom request records v.store request.product (commitParameters runId planned))
          ?_ (fun planned _ _ _ from_ => submitPlan_sources (from_ planned rfl))
          (fun _ _ _ => trivial)
        refine .tryCatch plan_sources (fun planned v _ _ from_ v' toV' _ planned' same => ?_)
          (fun e v _ _ _ => ?_)
        · exact (from_ planned' same).mono toV'.before
        · exact .bind (fails e)
            (fun _ _ _ _ _ => .done fun _ _ _ _ impossible => by cases impossible)
            (fun _ _ _ _ impossible => by cases impossible)

end CommitsFrom

/-! ## Honest replies -/

variable {source : Request → List Observation}

/-- The rules of the service, for processes whose source is honest. -/
abbrev sourcing (source : Request → List Observation) :
    Protocol (cloudService.accepting (Honest source)) :=
  protocol.accepting (Honest source)

/-- **Ingesting a request** commits a plan for the records of the source only. -/
theorem ingest_sources {request : Request} {runId : String} {w : Cloud} :
    (sourcing source).Safe (CommitsFrom request (source request) runId) (fun _ _ => True)
      (ingest request runId) w := by
  have begins : (begin request runId).Calls (Within NoCommit) :=
    begin_within noCommit_getRun fun _ _ impossible => by cases impossible
  have fails : ∀ e : Exn, (sourceFailed runId e).Calls (Within NoCommit) :=
    fun e => sourceFailed_within fun p _ => noCommit_failure p
  unfold ingest
  refine .bind (commitsFrom_of_within begins).accepting (fun _ _ _ _ _ => ?_) (fun _ _ _ => trivial)
  refine .bind (commitsFrom_of_within reconcile_within_noCommit).accepting (fun prior _ _ _ _ => ?_)
    (fun _ _ _ => trivial)
  cases prior with
  | some prior => exact .done fun _ _ _ => trivial
  | none =>
      refine Protocol.Safe.sequence (Q := fun result _ => ∀ records, result = .ok records →
        records = source request) (fun v _ _ => ⟨commitsFrom_passive _ _ (by simp), ?_⟩)
        fun result _ _ _ honest => ?_
      · exact fun reply v' acted _ _ _ _ _ => acted.2
      · cases result with
        | error e => exact (commitsFrom_of_within (fails e)).accepting
        | ok records =>
            rw [honest records rfl]
            exact persist_sources.accepting

/-- **Executing a unit** commits a plan for the records of its request only. -/
theorem executeUnit_sources {today : Date} {unit : IngestionUnit} {request : Request} {w : Cloud}
    (isShown : Shows unit request) :
    (sourcing source).Safe (CommitsFrom request (source request) unit.runId) (fun _ _ => True)
      (executeUnit today unit) w := by
  have reads : ∀ {α : Type} {program : Client α}, program.Calls (Within NoCommit) → ∀ {u : Cloud},
      (sourcing source).Safe (CommitsFrom request (source request) unit.runId) (fun _ _ => True)
        program u := fun within => (commitsFrom_of_within within).accepting
  cases requested : unit.request today with
  | error e =>
      rw [executeUnit, requested]
      exact .done fun _ _ _ => trivial
  | ok request' =>
      obtain rfl : request' = request := (Shows.of_request requested).unique isShown
      rw [executeUnit, requested]
      refine .bind (Q := fun result _ => ∀ a, result = .ok a → a = request')
        (.done fun _ _ _ a same => (Except.ok.inj same).symm) (fun a _ _ _ same => ?_)
        (fun _ _ _ => trivial)
      obtain rfl := same a rfl
      refine .bind (Q := fun _ _ => True) (.done fun _ _ _ => trivial) (fun _ _ _ _ _ => ?_)
        (fun _ _ _ => trivial)
      have prior : (tryCatchThe Exn (getRun unit.runId) fun e => throw (readFailed unit e)).Calls
          (Within NoCommit) := .tryCatch (getRun_within noCommit_getRun) fun _ => trivial
      refine .bind (reads prior) (fun prior _ _ _ _ => ?_) (fun _ _ _ => trivial)
      refine .bind (Q := fun _ _ => True) ?_ (fun manifest _ _ _ _ => ?_) (fun _ _ _ => trivial)
      · refine .tryCatch ingest_sources (fun _ _ _ _ _ _ _ _ => trivial) (fun e _ _ _ _ => ?_)
        exact .bind (reads (manifestState_within noCommit_getRun))
          (fun _ _ _ _ _ => .done fun _ _ _ => trivial) (fun _ _ _ => trivial)
      · split_ifs <;> exact .done fun _ _ _ => trivial

/-! ## The end of a unit -/

/-- **A unit that returns** has brought its run to success for its request. -/
theorem executeUnit_finishes {today : Date} {unit : IngestionUnit} {request : Request} {w : Cloud}
    (isShown : Shows unit request) :
    protocol.Safe (fun _ _ => True) (fun result v => ∀ r, result = .ok r →
      Finished v unit.runId request.requestId) (executeUnit today unit) w := by
  refine (executeUnit_result.and executeUnit_bound).weaken (fun _ _ _ allowed => allowed)
    fun result v _ orderly ⟨ended, bound⟩ r same => ?_
  obtain ⟨_, _, ⟨row, succeeded, _⟩, _⟩ := ended.returned r same
  obtain ⟨request', requested, row', member, ofRun, ofRequest⟩ := bound r same
  obtain rfl : request' = request := (Shows.of_request requested).unique isShown
  have only := run_unique orderly.good.unique member succeeded.member
    (ofRun.trans succeeded.ofRun.symm)
  exact ⟨row, succeeded.member, succeeded.ofRun, only ▸ ofRequest, succeeded.status⟩

end PowerMarket
