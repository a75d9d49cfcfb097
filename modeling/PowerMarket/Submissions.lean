import PowerMarket.Library.Submissions
import PowerMarket.System
import PowerMarket.Warehouse.Calls

/-!
# What the programs submit

Every program but the one that creates the warehouse asks the world outside for records only, and
submits the scripts of a run: it reads, begins, commits, finalizes and records failures
(`Launch.working`). Exceptions are not copied. The programs choose the text of a recorded failure
from two fixed ones, whatever the exception says that the source, the network or the warehouse
raised.
-/

set_option autoImplicit false

namespace PowerMarket

open Library JobService

/-- The error texts that the client writes. -/
def failureTexts : List String :=
  ["BigQuery job failed; inspect its job ID and authenticated job diagnostics.",
    "Source/normalization/warehouse validation failed; inspect the invoking CLI error."]

/-- The scripts of runs are among these, failures with one of the fixed texts. -/
structure Serves (scripts : Script → Prop) : Prop where
  getRun : ∀ runId, scripts (.getRun runId)
  beginRun : ∀ run, scripts (.beginRun run)
  snapshot : ∀ product day, scripts (.snapshot product day)
  commit : ∀ product p, scripts (.commit product p)
  finalize : ∀ product p, scripts (.finalize product p)
  failure : ∀ p, p.errorMessage ∈ failureTexts → scripts (.failure p)

/-- A call that submits one of these scripts, if it submits any, and asks the world outside for
records only. -/
def Working (scripts : Script → Prop) (c : ClientCall) : Prop :=
  SubmitsOnly scripts c ∧ ∀ request, c = .outside request → ∃ wanted, request = .fetch wanted

section Programs

variable {scripts : Script → Prop}

theorem working_of_within {α : Type} {program : Client α}
    (within : program.Calls (Within scripts)) : program.Calls (Working scripts) :=
  within.mono fun _ allowed => ⟨allowed.2, fun request same => absurd same (allowed.1 request)⟩

theorem fetch_working (request : Request) :
    (call (.outside (.fetch request))).Calls (Working scripts) := by
  refine ⟨⟨fun _ _ impossible => (by cases impossible), fun _ same => ?_⟩, fun _ => trivial⟩
  cases same
  exact ⟨request, rfl⟩

variable (serves : Serves scripts)

include serves

theorem fail_working {runId : String} {e : Exn} {commitJobId : Option String} :
    (fail runId e commitJobId).Calls (Working scripts) := by
  refine .bind (working_of_within (query_within (serves.failure _ ?_))) fun _ =>
    .bind (working_of_within wait_within) fun _ => trivial
  show (if _ then _ else _) ∈ failureTexts
  split_ifs
  · exact List.mem_cons_self
  · exact List.mem_cons_of_mem _ List.mem_cons_self

theorem sourceFailed_working {runId : String} {e : Exn} :
    (sourceFailed runId e).Calls (Working scripts) :=
  .bind (.tryCatch (fail_working serves) fun _ => trivial) fun _ => trivial

variable [Platform]

theorem settleFailure_working {runId : String} {job : JobId String} {e : Exn} :
    (settleFailure runId job e).Calls (Working scripts) := by
  have reloaded : (call (.reload job)).Calls (Working scripts) :=
    working_of_within (within_passive (fun _ impossible => by cases impossible)
      fun _ _ impossible => by cases impossible)
  refine .bind (.tryCatch reloaded fun _ => trivial) fun view => ?_
  split_ifs
  · exact .bind (.tryCatch (fail_working serves) fun _ => trivial) fun _ => trivial
  · trivial

theorem followJob_working {runId : String} {product : Product} {job : JobId String} :
    (followJob runId product job).Calls (Working scripts) := by
  refine Program.Calls.attempt (working_of_within wait_within) fun result => ?_
  cases result with
  | error e => exact settleFailure_working serves
  | ok view =>
      cases ended : view.ended with
      | none =>
          simp only [ended]
          trivial
      | some time =>
          simp only [ended]
          exact .bind (working_of_within (finalize_within (serves.getRun _)
            fun p _ => serves.finalize _ p)) fun _ => trivial

theorem reconcile_working {runId : String} : (reconcile runId).Calls (Working scripts) := by
  refine .bind (working_of_within (getRun_within (serves.getRun _))) fun found => ?_
  cases found with
  | none => trivial
  | some row =>
      cases status : row.status with
      | succeeded | failed =>
          simp only [status]
          trivial
      | started | committed =>
          simp only [status]
          refine .bind (working_of_within commitJob_within) fun job => ?_
          cases job with
          | none => trivial
          | some job => exact followJob_working serves

theorem begin_working {request : Request} {runId : String} :
    (begin request runId).Calls (Working scripts) :=
  working_of_within (begin_within (serves.getRun _) (serves.beginRun _))

theorem submitPlan_working {product : Product} {runId : String} {plan : WritePlan} :
    (submitPlan product runId plan).Calls (Working scripts) := by
  refine .bind (.tryCatch (working_of_within (query_within (serves.commit _ _))) fun _ => trivial)
    fun _ => .bind (reconcile_working serves) fun result => ?_
  cases result <;> trivial

theorem persist_working {request : Request} {records : List Observation} {runId : String} :
    (persist request records runId).Calls (Working scripts) := by
  refine .bind (working_of_within (getRun_within (serves.getRun _))) fun manifest => ?_
  split_ifs
  · trivial
  · refine .bind (reconcile_working serves) fun prior => ?_
    cases prior with
    | some prior => trivial
    | none =>
        refine .bind (.tryCatch (working_of_within (plan_within (serves.snapshot _ _))) fun e => ?_)
          fun planned => submitPlan_working serves
        exact .bind (fail_working serves) fun _ => trivial

theorem ingest_working {request : Request} {runId : String} :
    (ingest request runId).Calls (Working scripts) := by
  refine .bind (begin_working serves) fun _ => .bind (reconcile_working serves) fun prior => ?_
  cases prior with
  | some prior => trivial
  | none =>
      refine (fetch_working _).attempt fun result => ?_
      cases result with
      | error e => exact sourceFailed_working serves
      | ok records => exact persist_working serves

theorem executeUnit_working {today : Date} {unit : IngestionUnit} :
    (executeUnit today unit).Calls (Working scripts) := by
  have reads : ∀ {α : Type} (result : Except Exn α),
      (Program.ofExcept result : Client α).Calls (Working scripts) := fun _ => trivial
  refine .bind (reads _) fun request => .bind (reads _) fun _ =>
    .bind (.tryCatch (working_of_within (getRun_within (serves.getRun _))) fun _ => trivial)
      fun prior => .bind (.tryCatch (ingest_working serves) fun e => ?_) fun manifest => ?_
  · exact .bind (working_of_within (manifestState_within (serves.getRun _))) fun _ => trivial
  · split_ifs <;> trivial

/-- **What every program but one submits**: the scripts of runs. -/
theorem Launch.working {launch : Launch} (works : launch ≠ .bootstrap) :
    launch.start.Calls (Working scripts) := by
  have mapped : ∀ {α : Type} {program : Client α} {f : α → Returned},
      program.Calls (Working scripts) → (f <$> program).Calls (Working scripts) :=
    fun working => .bind working fun _ => trivial
  cases launch with
  | bootstrap => exact absurd rfl works
  | begin request runId => exact mapped (begin_working serves)
  | ingest request runId => exact mapped (ingest_working serves)
  | persist request records runId => exact mapped (persist_working serves)
  | reconcile runId => exact mapped (reconcile_working serves)
  | fail runId error commitJobId => exact .bind (fail_working serves) fun _ => trivial
  | executeUnit today unit => exact mapped (executeUnit_working serves)

end Programs

end PowerMarket
