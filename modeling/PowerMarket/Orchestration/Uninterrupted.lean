import PowerMarket.Orchestration.Pipeline
import PowerMarket.Uninterrupted

/-!
# Units without interruptions

What ingesting the units of a plan does when every call is answered at once and nobody else acts. A
unit whose run can be started is worked off (`Startable.ingest`), and so are all units of a plan, one
after another (`ingestAll_all`).
-/

set_option autoImplicit false

namespace PowerMarket

open Library JobService

variable [Platform] {w : Cloud}
  {runId : String} {request : Request} {row : RunRow} {c : ControlRow}
  {source : Request → List Observation} {ledger : Ledger}

/-! ## Ingesting all units -/

/-- A run that ingesting brings to success: it is new, or it was begun for the request and has no
commit job, or it has succeeded for the request. -/
inductive Startable (w : Cloud) (runId requestId : String) : Prop where
  | new (absent : ∀ row ∈ w.store.runs, row.runId ≠ runId)
      (unbegun : w.jobs (.named (jobId runId "begin")) = none)
      (unused : w.jobs (.named (jobId runId "commit")) = none)
  | begun {row : RunRow} (member : row ∈ w.store.runs) (ofRun : row.runId = runId)
      (bound : row.requestId = requestId) (started : row.status = .started)
      (unused : w.jobs (.named (jobId runId "commit")) = none)
  | done {row : RunRow} (member : row ∈ w.store.runs) (ofRun : row.runId = runId)
      (bound : row.requestId = requestId) (succeeded : row.status = .succeeded)

section Ingests

variable {w' : Cloud} {requestId : String}

theorem Ingests.startable (ingests : Ingests w w' runId requestId ledger)
    (valid : isRunId runId = true) {other otherId : String} (valid' : isRunId other = true)
    (startable : Startable w other otherId) (same : other = runId → otherId = requestId) :
    Startable w' other otherId := by
  by_cases here : other = runId
  · obtain ⟨final, member, ofRun, bound, succeeded⟩ := ingests.final
    exact .done member (ofRun.trans here.symm) (bound.trans (same here).symm) succeeded
  · have unchanged := ingests.jobs_other valid valid' here
    have kept : ∀ {row : RunRow}, row ∈ w.store.runs → row.runId = other → row ∈ w'.store.runs :=
      fun member ofRun => (ingests.others _ fun clash => here (ofRun.symm.trans clash)).mpr member
    cases startable with
    | new absent unbegun unused =>
        refine .new (fun row member ofRun => absent row ?_ ofRun) ((unchanged _).trans unbegun)
          ((unchanged _).trans unused)
        exact (ingests.others row fun clash => here (ofRun.symm.trans clash)).mp member
    | begun member ofRun bound started unused =>
        exact .begun (kept member ofRun) ofRun bound started ((unchanged _).trans unused)
    | done member ofRun bound succeeded => exact .done (kept member ofRun) ofRun bound succeeded

theorem Ingests.describes {progress after : Progress String Ledger}
    (describes : Describes progress w.store) (ingests : Ingests w w' runId requestId after.state)
    (ids : ∀ id, id ∈ after.ids ↔ id = runId ∨ id ∈ progress.ids) : Describes after w'.store := by
  refine ⟨ingests.ledger.symm, fun id => ?_⟩
  rw [ids, describes.ids]
  by_cases here : id = runId
  · obtain ⟨final, member, ofRun, _, succeeded⟩ := ingests.final
    have committed : final.status.hasCommitted = true := by rw [succeeded]; rfl
    exact iff_of_true (.inl here) ⟨final, member, ofRun.trans here.symm, committed⟩
  · rw [or_iff_right here]
    refine exists_congr fun row => and_congr_left fun both => ?_
    exact (ingests.others row fun clash => here (both.1.symm.trans clash)).symm

end Ingests

/-- **Ingesting one unit** that can be started works it off. -/
theorem Startable.ingest {today : Date} {unit : IngestionUnit}
    {progress after : Progress String Ledger}
    (startable : Startable w unit.runId request.requestId) (orderly : Orderly w)
    (sound : Sound c w.store) (free : w.store.gate = none) (valid : isRunId unit.runId = true)
    (requested : unit.request today = .ok request) (describes : Describes progress w.store)
    (worked : Resumable.one (·.runId) (acceptUnit source today) unit progress = .ok after) :
    ∃ final w', runNow (fetching source) (ingest request unit.runId) w = (.ok final, w') ∧
      Ingests w w' unit.runId request.requestId after.state := by
  -- A run that has not committed is not done, and the ledger accepts its records.
  have accepts : (∀ row ∈ w.store.runs, row.runId = unit.runId → row.status.hasCommitted ≠ true) →
      w.store.ledger.accept unit.runId request (source request) = .ok after.state := by
    intro idle
    rcases Resumable.one_eq_ok.mp worked with ⟨done, _⟩ | ⟨_, state, applied, rfl⟩
    · obtain ⟨row, member, ofRun, committed⟩ := (describes.ids _).mp done
      exact absurd committed (idle row member ofRun)
    · rw [acceptUnit, requested, describes.state] at applied
      exact applied
  cases startable with
  | new absent unbegun unused =>
      exact runNow_ingest_new orderly valid sound free absent unbegun unused
        (accepts fun row member ofRun => absurd ofRun (absent row member))
  | begun member ofRun bound started unused =>
      rw [← ofRun] at unused accepts ⊢
      refine runNow_ingest_started orderly free member started bound unused (accepts ?_)
      intro row' member' same
      rw [run_unique sound.unique member' member same, started]
      exact Bool.false_ne_true
  | done member ofRun bound succeeded =>
      have committed : unit.runId ∈ progress.ids :=
        (describes.ids _).mpr ⟨_, member, ofRun, by rw [succeeded]; rfl⟩
      rw [Resumable.one_of_done committed] at worked
      cases worked
      rw [describes.state, ← ofRun]
      obtain ⟨w', ingested, ingests⟩ := runNow_ingest_again orderly member succeeded bound
      exact ⟨_, w', ingested, ingests⟩

/-- The runs of units that ingesting brings to success, one after another. -/
structure Ingestible (today : Date) (units : List IngestionUnit) (w : Cloud) : Prop where
  startable : ∀ unit ∈ units, ∃ request, unit.request today = .ok request ∧
    isRunId unit.runId = true ∧ Startable w unit.runId request.requestId
  bound : ∀ unit ∈ units, ∀ other ∈ units, other.runId = unit.runId → ∀ request request',
    unit.request today = .ok request → other.request today = .ok request' →
      request'.requestId = request.requestId

/-- **Ingesting all units without interruptions** works them off. -/
theorem ingestAll_all {today : Date} {units : List IngestionUnit}
    {progress after : Progress String Ledger} (ingestible : Ingestible today units w)
    (orderly : Orderly w) (sound : Sound c w.store) (free : w.store.gate = none)
    (describes : Describes progress w.store)
    (worked : Resumable.all (·.runId) (acceptUnit source today) units progress = .ok after) :
    ∃ w', ingestAll source today units w = .ok w' ∧ w'.store.ledger = after.state := by
  induction units generalizing w c progress with
  | nil =>
      cases worked
      exact ⟨w, rfl, describes.state.symm⟩
  | cons unit units ih =>
      obtain ⟨middle, first, others⟩ := Resumable.all_cons.mp worked
      obtain ⟨request, requested, valid, startable⟩ :=
        ingestible.startable unit List.mem_cons_self
      obtain ⟨final, w', ingested, ingests⟩ :=
        startable.ingest orderly sound free valid requested describes first
      have orderly' : Orderly w' := by
        have safe : protocol.Safe Permits (fun _ _ => True) (ingest request unit.runId) w :=
          ingest_safe
        have kept := runNow_orderly (fetching source) orderly safe
        rw [ingested] at kept
        exact kept
      have free' := ingests.free orderly orderly' free
      obtain ⟨row, member, _⟩ := ingests.final
      obtain ⟨c', sound'⟩ := orderly'.good.sound member
      have rest : Ingestible today units w' := by
        refine ⟨fun other inRest => ?_, fun u inRest v inRest' => ingestible.bound u
          (List.mem_cons_of_mem _ inRest) v (List.mem_cons_of_mem _ inRest')⟩
        obtain ⟨request', requested', valid', startable'⟩ :=
          ingestible.startable other (List.mem_cons_of_mem _ inRest)
        exact ⟨request', requested', valid', ingests.startable valid valid' startable' fun same =>
          ingestible.bound unit List.mem_cons_self other (List.mem_cons_of_mem _ inRest) same _ _
            requested requested'⟩
      have describes' : Describes middle w'.store :=
        ingests.describes describes fun id => Resumable.mem_one_ids first
      obtain ⟨w'', rest_ingested, ledger_eq⟩ :=
        ih rest orderly' sound' free' describes' others
      refine ⟨w'', ?_, ledger_eq⟩
      rw [ingestAll, requested]
      show (do
        let ran := runNow (fetching source) (ingest request unit.runId) w
        let _ ← ran.1
        ingestAll source today units ran.2) = _
      rw [ingested]
      exact rest_ingested

end PowerMarket
