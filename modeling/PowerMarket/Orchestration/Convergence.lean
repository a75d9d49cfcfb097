import PowerMarket.Orchestration.Interruptions
import PowerMarket.Orchestration.Uninterrupted
import PowerMarket.Retries

/-!
# Interrupted backfills converge

A backfill that was interrupted, retried and invoked again, as often as it may be, leaves the ledger
of one uninterrupted `ingest` of each unit, in the order of the plan, once some invocation has
completed its ingestion loop. The analytics are not built before all units have succeeded
(`backfills_converge`).

What an interrupted backfill has finished in the end, an uninterrupted one could start with
(`startable_of_finished`). The two work off the same units, so they lead to the same ledger.
-/

set_option autoImplicit false

namespace PowerMarket

open Library JobService

variable [Platform]

/-! ## From the end to the start -/

section Start

variable {w w' : Cloud} {runId requestId : String}

omit [Platform] in
/-- A job that ends with success has done so at a time without unfinished jobs, or comes later. -/
theorem job_of_success {name : String} {script : Script} {rows : Rows} {time : UtcTime}
    {usage : Usage} (future : Future w w')
    (ended : ∀ job, w.jobs (.named name) = some job → job.phase.isEnded = true)
    (success : w'.jobs (.named name) = some ⟨script, .ended (.ok rows) time usage⟩) :
    w.jobs (.named name) = none ∨
      w.jobs (.named name) = some ⟨script, .ended (.ok rows) time usage⟩ := by
  cases recorded : w.jobs (.named name) with
  | none => exact .inl rfl
  | some job =>
      obtain ⟨job', recorded', _, still⟩ := future.progress.jobs recorded
      rw [still (ended job recorded), success] at recorded'
      exact .inr recorded'.symm

/-- **A run that has succeeded for a request in the end** could be ingested at the start. -/
theorem startable_of_finished (orderly : Orderly w) (orderly' : Orderly w') (future : Future w w')
    (free : w.store.gate = none)
    (ended : ∀ name job, w.jobs (.named name) = some job → job.phase.isEnded = true)
    (finished : Finished w' runId requestId) : Startable w runId requestId := by
  obtain ⟨final, inFinal, rfl, rfl, succeeded⟩ := finished
  have valid := orderly'.good.valid inFinal
  by_cases present : ∃ row ∈ w.store.runs, row.runId = final.runId
  · obtain ⟨row, member, ofRun⟩ := present
    obtain ⟨row', member', progress⟩ := future.before.run member
    obtain rfl : row' = final :=
      run_unique orderly'.good.unique member' inFinal (progress.runId.trans ofRun)
    cases status : row.status with
    | succeeded => exact .done member ofRun progress.requestId.symm status
    | failed =>
        rw [progress.final (.inr status), status] at succeeded
        cases succeeded
    | committed => exact absurd status (orderly.good.gate_eq_none.mp free row member)
    | started =>
        obtain ⟨time, ⟨product, p, rows, usage, ofCommit, job⟩, _⟩ :=
          orderly'.committed row' inFinal (by rw [succeeded]; rfl)
        refine .begun member ofRun progress.requestId.symm status
          ((job_of_success future (ended _) job).resolve_right fun before => ?_)
        -- The commit job would have committed the run before.
        have committed : CommitEnded w row'.runId time :=
          ⟨product, p, rows, usage, ofCommit, before⟩
        obtain ⟨other, inRuns, ofOther, hasCommitted⟩ := committed.hasCommitted orderly
        rw [run_unique orderly.good.unique inRuns member (ofOther.trans ofRun.symm), status]
          at hasCommitted
        cases hasCommitted
  · push Not at present
    obtain ⟨run, rows, time, usage, job⟩ := orderly'.begun final inFinal
    refine .new present ((job_of_success future (ended _) job).resolve_right fun before => ?_) ?_
    · obtain ⟨request, same⟩ := (orderly.fixedJob before).of_begin valid
      rw [same] at before
      obtain ⟨row, member, ofRun⟩ := orderly.begun_of_ended before
      exact present row member ofRun
    · cases recorded : w.jobs (.named (jobId final.runId "commit")) with
      | none => rfl
      | some job =>
          obtain ⟨script, phase⟩ := job
          obtain ⟨product, p, rfl, ofRun⟩ := (orderly.fixedJob recorded).of_commit valid
          obtain ⟨_, _, _, _, _, _, _, member, ofRow, _⟩ :=
            (orderly.submittable _ _ recorded).1
          exact absurd (ofRow.trans ofRun) (present _ member)

end Start

/-! ## The same ledger -/

section Convergence

variable {uuid5 : String → String → String} {source : Request → List Observation}
  {spec : Backfill} {today : Date} {units : List IngestionUnit} {s : WarehouseSystem}
  {b b' : Pipeline}

theorem Converging.finished {start : Progress String Ledger}
    (converging : Converging source today units start b) (ingested : b.stage.Ingested) :
    ∀ unit ∈ units, UnitFinished b.system.world unit := by
  obtain ⟨system, stage⟩ := b
  cases stage with
  | idle | ingesting results rest retried task => exact ingested.elim
  | ingested results | buildingAnalytics results => exact converging.achieved

theorem Converging.complete {start : Progress String Ledger}
    (converging : Converging source today units start b)
    (finished : ∀ unit ∈ units, UnitFinished b.system.world unit) :
    ∃ progress, progress.state = b.system.world.store.ledger ∧
      Resumable.all (·.runId) (acceptUnit source today) units start = .ok progress := by
  obtain ⟨progress, describes, reached⟩ := converging.reached
  refine ⟨progress, describes.state, reached.complete fun unit member => ?_⟩
  obtain ⟨_, _, final, inRuns, ofRun, _, succeeded⟩ := finished unit member
  exact (describes.ids _).mpr ⟨final, inRuns, ofRun, by rw [succeeded]; rfl⟩

theorem AtRest.ingestible (atRest : AtRest s.world) (reachable : Reachable s)
    (planned : expand uuid5 today spec = .ok units) (run : SystemRun s b.system)
    (finished : ∀ unit ∈ units, UnitFinished b.system.world unit) :
    Ingestible today units s.world := by
  obtain ⟨reachable', future⟩ := reachable.run run
  obtain ⟨c, seeded, free⟩ := atRest.free
  have gate : s.world.store.gate = none := seeded.gate.trans free
  have requests : ∀ unit ∈ units, ∀ request, Shows unit request →
      unit.request today = .ok request :=
    fun unit member request isShown => isShown.request (expand_units planned unit member).1
  constructor
  case startable =>
    intro unit member
    obtain ⟨request, isShown, final, inFinal, ofRun, rest⟩ := finished unit member
    exact ⟨request, requests unit member request isShown,
      ofRun ▸ reachable'.orderly.good.valid inFinal,
      startable_of_finished reachable.orderly reachable'.orderly future gate atRest.ended
        ⟨final, inFinal, ofRun, rest⟩⟩
  case bound =>
    intro unit member other member' same request request' requested requested'
    obtain ⟨shown, isShown, final, inFinal, ofRun, bound, _⟩ := finished unit member
    obtain ⟨shown', isShown', final', inFinal', ofRun', bound', _⟩ := finished other member'
    obtain rfl := isShown.unique (Shows.of_request requested)
    obtain rfl := isShown'.unique (Shows.of_request requested')
    rw [← bound, ← bound', run_unique reachable'.orderly.good.unique inFinal' inFinal
      (ofRun'.trans (same.trans ofRun.symm))]

/-- **Interrupted backfills converge to the uninterrupted result.** A single writer invokes a
backfill again and again, from a warehouse at rest. Once an invocation has completed its ingestion
loop, the ledger is, and stays, the one that `ingest` leaves when it is called once for each unit,
in the order of the plan, on the same warehouse. The analytics are built only when the manifests of
all units say that they have succeeded. -/
theorem backfills_converge (reachable : Reachable s) (atRest : AtRest s.world)
    (planned : expand uuid5 today spec = .ok units)
    (run : PipelineRun uuid5 source spec ⟨s, .idle⟩ b) :
    (b.stage.Ingested → ∃ w, ingestAll source today units s.world = .ok w ∧
      ∀ b', PipelineRun uuid5 source spec b b' → b'.system.world.store.ledger = w.store.ledger) ∧
    ∀ results, b.stage = .buildingAnalytics results → ∀ unit ∈ units,
      ∃ row ∈ b.system.world.store.runs, row.runId = unit.runId ∧ row.status = .succeeded := by
  have converging : Converging source today units s.world.store.progress b :=
    (atRest.converging reachable).run planned run
  constructor
  · intro ingested
    have finished := converging.finished ingested
    obtain ⟨progress, _, worked⟩ := converging.complete finished
    obtain ⟨c, seeded, free⟩ := atRest.free
    obtain ⟨sound, _⟩ := reachable.orderly.good.of_seeded seeded
    obtain ⟨w, ingestedAll, ledger⟩ := ingestAll_all
      (atRest.ingestible reachable planned run.system finished) reachable.orderly sound
      (seeded.gate.trans free) (describes_progress _) worked
    refine ⟨w, ingestedAll, fun b' later => ?_⟩
    -- Finished units stay finished, and are worked off to the same ledger.
    have future := (converging.reachable.run (PipelineRun.system later)).2
    obtain ⟨progress', ledger', worked'⟩ := (converging.run planned later).complete
      fun unit member => (finished unit member).mono future
    rw [worked] at worked'
    cases worked'
    exact ledger'.symm.trans ledger.symm
  · intro results building unit member
    have ingested : b.stage.Ingested := by
      rw [building]
      trivial
    obtain ⟨_, _, row, inRuns, ofRun, _, succeeded⟩ := converging.finished ingested unit member
    exact ⟨row, inRuns, ofRun, succeeded⟩

end Convergence

/-! ## A small backfill -/

section Alone

variable {uuid5 : String → String → String} {source : Request → List Observation}
  {spec : Backfill} {s : WarehouseSystem} {results : List IngestionResult}
  {unit : IngestionUnit} {rest : List IngestionUnit} {retried : Bool}

omit [Platform] in
theorem honest_error (c : ClientCall) (e : Exn) : Honest source c (.error e) := by
  cases c with
  | query name script | getJob name | result id | reload id => trivial
  | outside request =>
      cases request with
      | fetch request => exact fun records impossible => by cases impossible
      | createDataset | createTable name => trivial

omit [Platform] in
theorem honest_answer {outside : (request : Outside) → Except Exn request.Reply}
    (honest : ∀ request, outside (.fetch request) = .ok (source request)) (c : ClientCall)
    (w : Cloud) : Honest source c (answer outside c w).1 := by
  cases c with
  | query name script | getJob name | result id | reload id => trivial
  | outside request =>
      cases request with
      | fetch request =>
          intro records same
          exact (Except.ok.inj ((honest request).symm.trans same)).symm
      | createDataset | createTable name => trivial

/-- **A task that runs alone** is a run of the pipeline. -/
theorem task_alone (reachable : Reachable s) {i : Nat} (unused : s.processes i = none) (day : Date)
    {outside : (request : Outside) → Except Exn request.Reply}
    (honest : ∀ request, outside (.fetch request) = .ok (source request))
    (faults : List (Option Exn)) :
    PipelineRun uuid5 source spec ⟨s, .ingesting results (unit :: rest) retried none⟩
      ⟨s.finish i (.executeUnit day unit) []
          (alone outside faults (Launch.start (.executeUnit day unit)) s.world),
        .ingesting results (unit :: rest) retried (some i)⟩ := by
  let stage : Stage := .ingesting results (unit :: rest) retried (some i)
  let launched : WarehouseSystem := ⟨s.world, Function.update s.processes i
    (some ⟨.executeUnit day unit, [], some (Launch.start (.executeUnit day unit))⟩)⟩
  have drives : Drives
      (fun s s' => PipelineStep uuid5 source spec ⟨s, stage⟩ ⟨s', stage⟩) i (Honest source) :=
    ⟨fun step => step.system, fun moved => .background moved,
      fun running acted accepted => .act running acted accepted⟩
  have step : PipelineStep uuid5 source spec ⟨s, .ingesting results (unit :: rest) retried none⟩
      ⟨launched, stage⟩ := .ingestDay i day unused
  have reached : Reachable launched := (reachable.run step.system).1
  have ran := reached.driven drives (Function.update_self ..) outside faults
    (honest_answer honest) honest_error
  have run := ran.lift (fun s => (⟨s, stage⟩ : Pipeline)) fun _ _ step => step
  simpa [WarehouseSystem.finish, Function.update_idem, launched] using
    Relation.ReflTransGen.head step run

end Alone

omit [Platform] in
/-- The warehouse is at rest after it was created. -/
theorem bootstrapped_atRest :
    letI := Platform.plain
    AtRest bootstrapped.world := by
  have ready : Seeded (@bootstrapped Platform.plain).world.store _ :=
    bootstrapped_plain.1.symm ▸ seeded_seeded
  refine ⟨⟨_, ready, rfl⟩, fun name job present => ?_⟩
  rw [bootstrapped_jobs, Function.update_idem, Function.update_apply] at present
  split_ifs at present with bootstrapping
  cases present
  rfl

/-- The run of the unit in the next invocation, after the reply to its commit was lost. -/
def resumedRun : Program.Outcome ClientCall ClientAnswer Exn Cloud Returned :=
  alone sampleOutside [] (Launch.start (.executeUnit sampleToday sampleUnit))
    (afterUnit sampleOutside unavailableAfterCommit).world

/-- The system after that run. -/
def resumed : WarehouseSystem :=
  (afterUnit sampleOutside unavailableAfterCommit).finish 2 (.executeUnit sampleToday sampleUnit) []
    resumedRun

theorem invoked_twice {uuid5 : String → String → String} {spec : Backfill}
    (planned : expand uuid5 sampleToday spec = .ok [sampleUnit]) {result : IngestionResult}
    (returned : resumedRun.result = .ok (.result result)) (succeeded : result.status = .succeeded) :
    PipelineRun uuid5 (fun _ => [sampleObservation]) spec ⟨bootstrapped, .idle⟩
      ⟨resumed, .ingested [result]⟩ := by
  let source : Request → List Observation := fun _ => [sampleObservation]
  let first := afterUnit sampleOutside unavailableAfterCommit
  have first_ran : PipelineRun uuid5 source spec
      ⟨bootstrapped, .ingesting [] [sampleUnit] false none⟩
      ⟨first, .ingesting [] [sampleUnit] false (some 1)⟩ :=
    task_alone bootstrapped_reachable rfl sampleToday (fun _ => rfl) unavailableAfterCommit
  have stopped : ¬ first.Running 1 := by
    rintro ⟨l, history, c, next, running⟩
    simp [first, afterUnit, WarehouseSystem.finish] at running
  have second_ran : PipelineRun uuid5 source spec ⟨first, .ingesting [] [sampleUnit] false none⟩
      ⟨resumed, .ingesting [] [sampleUnit] false (some 2)⟩ :=
    task_alone (afterUnit_reachable _ _) rfl sampleToday (fun _ => rfl) []
  have ended : resumed.processes 2 = some ⟨.executeUnit sampleToday sampleUnit,
      resumedRun.events, some (.done (.ok (.result result)))⟩ := by
    simp [resumed, WarehouseSystem.finish, returned]
  have stop : PipelineStep uuid5 source spec ⟨first, .ingesting [] [sampleUnit] false (some 1)⟩
      ⟨first, .idle⟩ := .stop fun i task => by cases task; exact stopped
  have finish : PipelineRun uuid5 source spec ⟨resumed, .ingesting [] [sampleUnit] false (some 2)⟩
      ⟨resumed, .ingested [result]⟩ := .head (.succeeded ended succeeded) (.single .ingested)
  have lost : PipelineRun uuid5 source spec ⟨bootstrapped, .idle⟩ ⟨first, .idle⟩ :=
    .head (.backfill planned) (first_ran.tail stop)
  exact lost.trans (.head (.backfill planned) (second_ran.trans finish))

omit [Platform] in
set_option maxRecDepth 10000 in
/-- A backfill that is interrupted after its commit was submitted, and invoked again, leaves what
an uninterrupted one leaves. -/
theorem backfills_converge_sample :
    letI := Platform.plain
    ∃ (b : Pipeline) (w : Cloud), b.stage.Ingested ∧
      ingestAll (fun _ => [sampleObservation]) sampleToday [sampleUnit] bootstrapped.world = .ok w ∧
      b.system.world.store.ledger = w.store.ledger := by
  have planned : letI := Platform.plain
      expand (fun _ _ => sampleRunId) sampleToday sampleBackfill = .ok [sampleUnit] := by rfl
  have finishes : succeeds (@resumedRun Platform.plain).result = true := by rfl
  obtain ⟨result, returned, succeeded⟩ := succeeds_iff.mp finishes
  have run := @invoked_twice Platform.plain _ _ planned _ returned succeeded
  obtain ⟨w, ingestedAll, ledger⟩ := (@backfills_converge Platform.plain _ _ _ _ _ _ _
    (@bootstrapped_reachable Platform.plain) bootstrapped_atRest planned run).1 trivial
  exact ⟨⟨@resumed Platform.plain, .ingested [result]⟩, w, trivial, ingestedAll, ledger _ .refl⟩

end PowerMarket
