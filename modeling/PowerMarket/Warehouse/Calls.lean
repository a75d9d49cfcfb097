import PowerMarket.Ingestion

/-!
# The calls of the programs

Which scripts a program of the client can submit at all, and that it asks nothing of the world
outside the job service (`Within`), whatever the replies are.
-/

set_option autoImplicit false

namespace PowerMarket

open Library JobService

/-- A call inside the job service, of one of these scripts if it submits one. -/
def Within (scripts : Script → Prop) (c : ClientCall) : Prop :=
  (∀ request, c ≠ .outside request) ∧ ∀ name script, c = .query name script → scripts script

section Calls

variable {scripts : Script → Prop}

theorem query_within {script : Script} {name : Option String} (allowed : scripts script) :
    (query script name).Calls (Within scripts) := by
  refine .tryCatch ⟨⟨fun _ impossible => (by cases impossible), ?_⟩, fun _ => trivial⟩ fun e => ?_
  · rintro _ _ ⟨⟩
    exact allowed
  · split_ifs
    · cases name with
      | none => trivial
      | some name =>
          exact ⟨⟨fun _ impossible => (by cases impossible),
            fun _ _ impossible => (by cases impossible)⟩, fun _ => trivial⟩
    · trivial

theorem within_passive {c : ClientCall} (inside : ∀ request, c ≠ .outside request)
    (submitsNothing : ∀ name script, c ≠ .query name script) :
    (call c).Calls (Within scripts) :=
  ⟨⟨inside, fun name script same => absurd same (submitsNothing name script)⟩, fun _ => trivial⟩

theorem wait_within {job : JobId String} : (wait job).Calls (Within scripts) :=
  within_passive (fun _ impossible => by cases impossible) fun _ _ impossible => by cases impossible

theorem getRun_within {runId : String} (allowed : scripts (.getRun runId)) :
    (getRun runId).Calls (Within scripts) := by
  unfold getRun
  refine .bind (by trivial) fun _ => .bind (query_within allowed) fun _ =>
    .bind wait_within fun view => ?_
  split <;> trivial

theorem fail_within {runId : String} {e : Exn} {commitJobId : Option String}
    (allowed : ∀ p : FailureParameters, p.runId = runId → scripts (.failure p)) :
    (fail runId e commitJobId).Calls (Within scripts) :=
  .bind (query_within (allowed _ rfl)) fun _ => .bind wait_within fun _ => trivial

theorem sourceFailed_within {runId : String} {e : Exn}
    (allowed : ∀ p : FailureParameters, p.runId = runId → scripts (.failure p)) :
    (sourceFailed runId e).Calls (Within scripts) :=
  .bind (.tryCatch (fail_within allowed) fun _ => trivial) fun _ => trivial

theorem manifestState_within {runId : String} (allowed : scripts (.getRun runId)) :
    (manifestState runId).Calls (Within scripts) := by
  refine (getRun_within allowed).attempt fun result => ?_
  rcases result with e | _ | row <;> trivial

variable [Platform]

theorem commitJob_within {runId : String} : (commitJob runId).Calls (Within scripts) := by
  refine .tryCatch (.bind (within_passive (fun _ impossible => by cases impossible)
    fun _ _ impossible => by cases impossible) fun _ => trivial) fun e => ?_
  split_ifs <;> trivial

theorem settleFailure_within {runId : String} {job : JobId String} {e : Exn}
    (allowed : ∀ p : FailureParameters, p.runId = runId → scripts (.failure p)) :
    (settleFailure runId job e).Calls (Within scripts) := by
  unfold settleFailure
  refine .bind (.tryCatch (within_passive (fun _ impossible => by cases impossible)
    fun _ _ impossible => by cases impossible) fun _ => trivial) fun view => ?_
  split_ifs
  · exact .bind (.tryCatch (fail_within allowed) fun _ => trivial) fun _ => trivial
  · trivial

omit [Platform] in
theorem finalize_within {runId : String} {product : Product} {ended : UtcTime} {usage : Usage}
    (read : scripts (.getRun runId))
    (allowed : ∀ p : FinalizeParameters, p.runId = runId → scripts (.finalize product p)) :
    (finalize runId product ended usage).Calls (Within scripts) := by
  unfold finalize
  refine .bind (.tryCatch (.bind (query_within (allowed _ rfl)) fun _ =>
    .bind wait_within fun _ => trivial) fun _ => trivial) fun _ =>
    .bind (getRun_within read) fun found => ?_
  cases found with
  | none => trivial
  | some row =>
      simp only
      split_ifs <;> trivial

theorem followJob_within {runId : String} {product : Product} {job : JobId String}
    (read : scripts (.getRun runId))
    (finalizes : ∀ p : FinalizeParameters, p.runId = runId → scripts (.finalize product p))
    (fails : ∀ p : FailureParameters, p.runId = runId → scripts (.failure p)) :
    (followJob runId product job).Calls (Within scripts) := by
  refine wait_within.attempt fun result => ?_
  cases result with
  | error e => exact settleFailure_within fails
  | ok view =>
      cases ended : view.ended with
      | none =>
          simp only [ended]
          trivial
      | some time =>
          simp only [ended]
          exact .bind (finalize_within read finalizes) fun _ => trivial

/-- **Reconciling** submits reads, finalizations and failures of its run. -/
theorem reconcile_within {runId : String} (read : scripts (.getRun runId))
    (finalizes : ∀ product, ∀ p : FinalizeParameters, p.runId = runId →
      scripts (.finalize product p))
    (fails : ∀ p : FailureParameters, p.runId = runId → scripts (.failure p)) :
    (reconcile runId).Calls (Within scripts) := by
  refine .bind (getRun_within read) fun found => ?_
  cases found with
  | none => trivial
  | some row =>
      cases status : row.status with
      | succeeded | failed =>
          simp only [status]
          trivial
      | started | committed =>
          simp only [status]
          refine .bind commitJob_within fun job => ?_
          cases job with
          | none => trivial
          | some job => exact followJob_within read (finalizes _) fails

theorem begin_within {request : Request} {runId : String} (read : scripts (.getRun runId))
    (begins : scripts (.beginRun (newRun request runId))) :
    (begin request runId).Calls (Within scripts) := by
  unfold begin
  refine .bind (by trivial) fun _ => .bind (query_within begins) fun _ =>
    .bind wait_within fun _ => .bind (getRun_within read) fun found => ?_
  cases found with
  | none => trivial
  | some row =>
      simp only
      split_ifs <;> trivial

theorem plan_within {request : Request} {records : List Observation} {runId : String}
    (reads : scripts (.snapshot request.product request.day)) :
    (plan request records runId).Calls (Within scripts) :=
  .bind (by trivial) fun _ => .bind (.bind (query_within reads) fun _ =>
    .bind wait_within fun _ => trivial) fun _ => trivial

end Calls

end PowerMarket
