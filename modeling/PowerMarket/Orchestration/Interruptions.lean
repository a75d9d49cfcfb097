import PowerMarket.Orchestration.Pipeline
import PowerMarket.Orchestration.Sourcing

/-!
# Interrupted backfills

What holds whatever happens to the invocations of a backfill (`Converging`): every commit that can
still take effect is planned for the records of a unit whose predecessors have all succeeded, and
the tables show that some first part of the units was worked off. Each step of the pipeline keeps
this (`Converging.step`), so every run does (`Converging.run`).
-/

set_option autoImplicit false

namespace PowerMarket

open Library JobService

/-! ## What an effect does to the progress -/

section Progress

variable {db after : Database} {progress : Progress String Ledger} {script : Script}

theorem Effect.hasCommitted (effect : Effect db script after) (unique : UniqueRuns db)
    (other : ∀ product p, script ≠ .commit product p) (id : String) :
    (∃ row ∈ after.runs, row.runId = id ∧ row.status.hasCommitted = true) ↔
      ∃ row ∈ db.runs, row.runId = id ∧ row.status.hasCommitted = true := by
  cases effect with
  | idle => exact Iff.rfl
  | seeded unseeded =>
      rw [unseeded]
      rfl
  | @begun c run now seeded fresh =>
      constructor
      · rintro ⟨row, member, ofRun, committed⟩
        rcases List.mem_append.mp member with before | new
        · exact ⟨row, before, ofRun, committed⟩
        · rw [List.mem_singleton.mp new] at committed
          cases committed
      · rintro ⟨row, member, rest⟩
        exact ⟨row, List.mem_append_left _ member, rest⟩
  | committed seeded atRow started current free => exact absurd rfl (other _ _)
  | @finalized c product p row now seeded atRow committed gate =>
      have replaces : Replaces db.runs (finalizedDatabase product p now c db).runs row
          (row.succeed p now) := updateRuns_replaces unique atRow fun _ => rfl
      refine replaces.exists_iff unique (and_congr_right fun _ => ?_)
      rw [committed]
      rfl
  | @failed c p row now seeded atRow canFail =>
      refine (failure_replaces unique now atRow canFail).exists_iff unique
        (and_congr_right fun _ => ?_)
      simp only [RunRow.canFail, Bool.and_eq_true, decide_eq_true_eq] at canFail
      rw [canFail.1.2]
      rfl

/-- **Only a commit changes the progress.** -/
theorem Describes.effect (describes : Describes progress db) (effect : Effect db script after)
    (unique : UniqueRuns db) (other : ∀ product p, script ≠ .commit product p) :
    Describes progress after :=
  ⟨describes.state.trans (effect.ledger other).symm,
    fun id => (describes.ids id).trans (effect.hasCommitted unique other id).symm⟩

theorem Describes.committed {product : Product} {p : CommitParameters} {c : ControlRow}
    {row : RunRow} (describes : Describes progress db) (unique : UniqueRuns db)
    (atRow : runRows db p.runId = [row]) :
    Describes ⟨p.runId :: progress.ids, (committedDatabase product p c db).ledger⟩
      (committedDatabase product p c db) := by
  have replaces : Replaces db.runs (committedDatabase product p c db).runs row (row.commit p) :=
    updateRuns_replaces unique atRow fun _ => rfl
  have ofRun : row.runId = p.runId := (mem_runRows.mp (atRow ▸ List.mem_singleton_self row)).2
  refine ⟨rfl, fun id => ?_⟩
  rw [List.mem_cons, describes.ids]
  by_cases here : id = p.runId
  · exact iff_of_true (.inl here) ⟨row.commit p, replaces.member', ofRun.trans here.symm, rfl⟩
  · rw [or_iff_right here]
    refine exists_congr fun x => and_congr_left fun both => ?_
    exact (replaces.others fun clash => here (both.1.symm.trans (clash.trans ofRun))).symm

end Progress

/-! ## The invariant -/

variable [Platform] {uuid5 : String → String → String} {source : Request → List Observation}
  {spec : Backfill} {today : Date} {units : List IngestionUnit}

/-- A unit has succeeded for its request. -/
def UnitFinished (w : Cloud) (unit : IngestionUnit) : Prop :=
  ∃ request, Shows unit request ∧ Finished w unit.runId request.requestId

theorem UnitFinished.mono {w w' : Cloud} {unit : IngestionUnit} (finished : UnitFinished w unit)
    (future : Future w w') : UnitFinished w' unit := by
  obtain ⟨request, isShown, done⟩ := finished
  exact ⟨request, isShown, done.mono future⟩

/-- A commit is planned for the records of a unit, and the units before it have succeeded. -/
inductive Sourced (source : Request → List Observation) (units : List IngestionUnit) (w : Cloud)
    (product : Product) (p : CommitParameters) : Prop where
  | intro {before rest : List IngestionUnit} {unit : IngestionUnit} {request : Request}
      (split : units = before ++ unit :: rest) (isShown : Shows unit request)
      (ofRun : p.runId = unit.runId)
      (from_ : PlannedFrom request (source request) w.store product p)
      (done : ∀ earlier ∈ before, UnitFinished w earlier)

theorem Sourced.mono {w w' : Cloud} {product : Product} {p : CommitParameters}
    (sourced : Sourced source units w product p) (future : Future w w') :
    Sourced source units w' product p := by
  obtain ⟨split, isShown, ofRun, from_, done⟩ := sourced
  exact .intro split isShown ofRun (from_.mono future.before) fun earlier member =>
    (done earlier member).mono future

/-- The process of the current task executes the first of the units that are left. -/
inductive Executes (source : Request → List Observation) (s : WarehouseSystem)
    (rest : List IngestionUnit) (i : Nat) : Prop where
  | intro {unit : IngestionUnit} {later : List IngestionUnit} {request : Request} {day : Date}
      {history : List (Event ClientCall ClientAnswer Exn)} {program : Option (Client Returned)}
      (first : rest = unit :: later) (isShown : Shows unit request)
      (running : s.processes i = some ⟨.executeUnit day unit, history, program⟩)
      (safe : ∀ still, program = some still → (sourcing source).Safe
        (CommitsFrom request (source request) unit.runId)
        (fun result v => ∀ r, result = .ok (.result r) → Finished v unit.runId request.requestId)
        still s.world)

/-- What an invocation has achieved. -/
def Achieved (source : Request → List Observation) (units : List IngestionUnit)
    (s : WarehouseSystem) : Stage → Prop
  | .idle => True
  | .ingesting _ rest _ task => ∃ before, units = before ++ rest ∧
      (∀ unit ∈ before, UnitFinished s.world unit) ∧
      ∀ i, task = some i → Executes source s rest i
  | .ingested _ | .buildingAnalytics _ => ∀ unit ∈ units, UnitFinished s.world unit

/-- **What holds in every run** of the pipeline from tables with some progress. -/
structure Converging (source : Request → List Observation) (today : Date)
    (units : List IngestionUnit) (start : Progress String Ledger) (b : Pipeline) : Prop where
  reachable : Reachable b.system
  waiting : ∀ id product p phase, b.system.world.jobs id = some ⟨.commit product p, phase⟩ →
    phase.isEnded = false → Sourced source units b.system.world product p
  reached : ∃ progress, Describes progress b.system.world.store ∧
    Resumable.Reached (·.runId) (acceptUnit source today) units start progress
  achieved : Achieved source units b.system b.stage

/-! ## One step -/

section Step

variable {start : Progress String Ledger} {w w' : Cloud}

/-- A commit that takes effect accepts the records of its unit. -/
theorem Sourced.committed {product : Product} {p : CommitParameters} {c : ControlRow}
    {row : RunRow} {progress : Progress String Ledger} (sourced : Sourced source units w product p)
    (completed : ∀ unit ∈ units, unit.day.ordinal < today.ordinal) (orderly : Orderly w)
    (seeded : Seeded w.store c) (atRow : runRows w.store p.runId = [row])
    (started : row.status = .started) (current : c.sequence = p.expectedSequence)
    (free : c.activeRunId = none) (describes : Describes progress w.store)
    (reached : Resumable.Reached (·.runId) (acceptUnit source today) units start progress) :
    Resumable.Reached (·.runId) (acceptUnit source today) units start
      ⟨p.runId :: progress.ids, (committedDatabase product p c w.store).ledger⟩ := by
  obtain @⟨before, rest, unit, request, split, isShown, ofRun, from_, done⟩ := sourced
  obtain ⟨member, ofRow⟩ := mem_runRows.mp (atRow ▸ List.mem_singleton_self row)
  obtain ⟨sound, _⟩ := orderly.good.of_seeded seeded
  obtain ⟨plan, planned, parameters, product_eq⟩ := from_.current sound current free
  have applied : acceptUnit source today unit progress.state =
      .ok (committedDatabase product p c w.store).ledger := by
    have inUnits : unit ∈ units := split ▸ List.mem_append_right _ List.mem_cons_self
    rw [acceptUnit, isShown.request (completed unit inUnits), describes.state]
    have accepted := accept_committed seeded free planned
    rw [← parameters, product_eq, ofRun] at accepted
    exact accepted
  rw [ofRun]
  refine reached.next split (fun earlier inBefore => ?_) ?_ applied
  · obtain ⟨_, _, final, inRuns, ofFinal, _, succeeded⟩ := done earlier inBefore
    exact (describes.ids _).mpr ⟨final, inRuns, ofFinal, by rw [succeeded]; rfl⟩
  · intro committed
    obtain ⟨other, inRuns, ofOther, hasCommitted⟩ := (describes.ids _).mp committed
    rw [run_unique sound.unique inRuns member (ofOther.trans (ofRun.symm.trans ofRow.symm)),
      started] at hasCommitted
    cases hasCommitted

/-- An effect keeps the tables at some first part of the units. -/
theorem reached_effect {script : Script} {after : Database} (orderly : Orderly w)
    (completed : ∀ unit ∈ units, unit.day.ordinal < today.ordinal)
    (sourced : ∀ product p, script = .commit product p → Sourced source units w product p)
    (effect : Effect w.store script after)
    (reached : ∃ progress, Describes progress w.store ∧
      Resumable.Reached (·.runId) (acceptUnit source today) units start progress) :
    ∃ progress, Describes progress after ∧
      Resumable.Reached (·.runId) (acceptUnit source today) units start progress := by
  obtain ⟨progress, describes, reached⟩ := reached
  have unique := orderly.good.unique
  by_cases commits : ∃ product p, script = .commit product p
  · obtain ⟨product, p, rfl⟩ := commits
    cases effect with
    | idle => exact ⟨progress, describes, reached⟩
    | committed seeded atRow started current free =>
        exact ⟨_, describes.committed unique atRow, (sourced product p rfl).committed completed
          orderly seeded atRow started current free describes reached⟩
  · exact ⟨progress,
      describes.effect effect unique fun product p same => commits ⟨product, p, same⟩,
      reached⟩

theorem Achieved.mono {s s' : WarehouseSystem} {stage : Stage}
    (achieved : Achieved source units s stage) (future : Future s.world s'.world)
    (rests : ∀ i, stage.task = some i → s'.processes i = s.processes i) :
    Achieved source units s' stage := by
  cases stage with
  | idle => trivial
  | ingested results | buildingAnalytics results =>
      exact fun unit member => (achieved unit member).mono future
  | ingesting results rest retried task =>
      obtain ⟨before, split, done, executes⟩ := achieved
      refine ⟨before, split, fun unit member => (done unit member).mono future, fun i isTask => ?_⟩
      obtain ⟨first, isShown, running, safe⟩ := executes i isTask
      exact .intro first isShown ((rests i isTask).trans running) fun still same =>
        (safe still same).mono future

theorem Converging.background {s : WarehouseSystem} {stage : Stage}
    (converging : Converging source today units start ⟨s, stage⟩)
    (completed : ∀ unit ∈ units, unit.day.ordinal < today.ordinal)
    (moved : Background bigQuery s.world w) :
    Converging source today units start ⟨{ s with world := w }, stage⟩ := by
  have step : SystemStep s { s with world := w } := .background moved
  obtain ⟨reachable', future⟩ := converging.reachable.run (.single step)
  refine ⟨reachable', fun id product p phase recorded unended => ?_, ?_,
    converging.achieved.mono future fun _ _ => rfl⟩
  · obtain ⟨⟨script, phase'⟩, before, same⟩ := moved.scripts recorded
    cases same
    refine (converging.waiting id product p phase' before ?_).mono future
    by_contra ended
    obtain ⟨job', recorded', _, still⟩ := moved.progress.jobs before
    rw [recorded] at recorded'
    cases recorded'
    have phases : phase = phase' := by
      have same := still (Bool.eq_true_of_not_eq_false ended)
      cases same
      rfl
    exact ended (phases ▸ unended)
  · rcases step_effect converging.reachable step with same | ⟨id, script, _, _, _, takes⟩
    · rw [same]
      exact converging.reached
    · refine reached_effect converging.reachable.orderly completed (fun product p same => ?_)
        takes.effect converging.reached
      obtain ⟨started, running⟩ := takes.running
      rw [same] at running
      exact converging.waiting id product p _ running rfl

/-- A call of the task keeps the invariant. -/
theorem Converging.act {s : WarehouseSystem} {results : List IngestionResult}
    {rest : List IngestionUnit} {retried : Bool} {i : Nat} {l : Launch}
    {history : List (Event ClientCall ClientAnswer Exn)} {c : ClientCall}
    {next : Except Exn (ClientAnswer c) → Client Returned} {reply : Except Exn (ClientAnswer c)}
    (converging : Converging source today units start ⟨s, .ingesting results rest retried (some i)⟩)
    (running : s.processes i = some ⟨l, history, some (.call c next)⟩)
    (acted : cloudService.act c s.world reply w) (honest : Honest source c reply) :
    Converging source today units start
      ⟨⟨w, Function.update s.processes i (some ⟨l, history ++ [⟨c, reply⟩], some (next reply)⟩)⟩,
        .ingesting results rest retried (some i)⟩ := by
  have step : SystemStep s ⟨w, Function.update s.processes i
      (some ⟨l, history ++ [⟨c, reply⟩], some (next reply)⟩)⟩ := .act i running acted
  obtain ⟨reachable', future⟩ := converging.reachable.run (.single step)
  obtain ⟨before, split, done, executes⟩ := converging.achieved
  obtain @⟨unit, later, request, day, _, _, first, isShown, isRunning, safe⟩ := executes i rfl
  rw [running] at isRunning
  cases isRunning
  obtain ⟨commits, continues⟩ :=
    safe _ rfl s.world (.refl _) converging.reachable.orderly
  have idle : w.store = s.world.store := by
    rcases act_cases acted with same | ⟨_, _, _, _, same⟩
    · rw [same]
    · rw [same]
      rfl
  refine ⟨reachable', fun id product p phase recorded unended => ?_, ?_, before, split,
    fun unit member => (done unit member).mono future, fun j same => ?_⟩
  · refine Sourced.mono (w := s.world) ?_ future
    rcases act_cases acted with same | ⟨name, script, called, unused, submitted⟩
    · rw [same] at recorded
      exact converging.waiting id product p phase recorded unended
    · by_cases here : id = s.world.submissionId name
      · -- The commit was just submitted, and is for the current unit.
        rw [submitted, here, World.submit_self] at recorded
        cases recorded
        obtain ⟨ofRun, from_⟩ := commits name product p called
        exact .intro (split.trans (congrArg (before ++ ·) first)) isShown ofRun from_ done
      · rw [submitted, World.submit_ne _ _ here] at recorded
        exact converging.waiting id product p phase recorded unended
  · rw [idle]
    exact converging.reached
  · cases same
    refine .intro first isShown (Function.update_self ..) fun still same => ?_
    cases same
    exact continues reply w ⟨acted, honest⟩ future reachable'.orderly

/-- A task that was launched for a unit commits its records only, and returns when it has
succeeded. -/
theorem task_safe {day : Date} {unit : IngestionUnit} {request : Request}
    (isShown : Shows unit request) :
    (sourcing source).Safe (CommitsFrom request (source request) unit.runId)
      (fun result v => ∀ r, result = .ok (.result r) → Finished v unit.runId request.requestId)
      (Launch.start (.executeUnit day unit)) w := by
  have mapped : Launch.start (.executeUnit day unit) =
      executeUnit day unit >>= fun r => return .result r := rfl
  rw [mapped]
  have sources : (sourcing source).Safe (CommitsFrom request (source request) unit.runId)
      (fun _ _ => True) (executeUnit day unit) w := executeUnit_sources isShown
  have finishes : (sourcing source).Safe (fun _ _ => True) (fun result v => ∀ r, result = .ok r →
      Finished v unit.runId request.requestId) (executeUnit day unit) w :=
    (executeUnit_finishes isShown).accepting
  refine .bind ((sources.both finishes).weaken (fun _ _ _ allowed => allowed.1)
      fun _ _ _ _ holds => holds.2)
    (fun r v _ _ finished => ?_) (fun _ _ _ _ impossible => by cases impossible)
  exact .done fun v' later _ _ _ => (finished r rfl).mono later

/-- **Every step of the pipeline** keeps the invariant. -/
theorem Converging.step {b b' : Pipeline} (converging : Converging source today units start b)
    (planned : expand uuid5 today spec = .ok units) (step : PipelineStep uuid5 source spec b b') :
    Converging source today units start b' := by
  have completed : ∀ unit ∈ units, unit.day.ordinal < today.ordinal :=
    fun unit member => (expand_units planned unit member).1
  have still : ∀ {stage : Stage} {s : WarehouseSystem} {stage' : Stage},
      Converging source today units start ⟨s, stage⟩ → Achieved source units s stage' →
      Converging source today units start ⟨s, stage'⟩ :=
    fun converging achieved =>
      ⟨converging.reachable, converging.waiting, converging.reached, achieved⟩
  cases step with
  | background moved => exact converging.background completed moved
  | backfill planned' =>
      refine still converging ⟨[], ?_, by simp, fun i impossible => by cases impossible⟩
      rw [expand_today planned planned', List.nil_append]
  | @ingestDay s results unit rest retried i day unused =>
      have launched : SystemStep s ⟨s.world, Function.update s.processes i
          (some ⟨.executeUnit day unit, [], some (Launch.start (.executeUnit day unit))⟩)⟩ :=
        .launch i _ unused
      obtain ⟨before, split, done, _⟩ := converging.achieved
      have inUnits : unit ∈ units := split ▸ List.mem_append_right _ List.mem_cons_self
      obtain ⟨request, isShown⟩ := (expand_units planned unit inUnits).2
      refine ⟨(converging.reachable.run (.single launched)).1, converging.waiting,
        converging.reached, before, split, done, fun j same => ?_⟩
      cases same
      refine .intro rfl isShown (Function.update_self ..) fun program same => ?_
      cases same
      exact task_safe isShown
  | act running acted honest => exact converging.act running acted honest
  | @crash s results rest retried i l history program running =>
      have crashed : SystemStep s ⟨s.world, Function.update s.processes i
          (some ⟨l, history, none⟩)⟩ := .crash i running
      obtain ⟨before, split, done, executes⟩ := converging.achieved
      refine ⟨(converging.reachable.run (.single crashed)).1, converging.waiting,
        converging.reached, before, split, done, fun j same => ?_⟩
      cases same
      obtain ⟨first, isShown, isRunning, _⟩ := executes i rfl
      rw [running] at isRunning
      cases isRunning
      exact .intro first isShown (Function.update_self ..) fun program impossible => by
        cases impossible
  | retry repeats =>
      obtain ⟨before, split, done, _⟩ := converging.achieved
      exact still converging ⟨before, split, done, fun i impossible => by cases impossible⟩
  | @succeeded s results unit rest retried i l history result returned status =>
      obtain ⟨before, split, done, executes⟩ := converging.achieved
      obtain ⟨first, isShown, isRunning, safe⟩ := executes i rfl
      rw [returned] at isRunning
      cases isRunning
      cases first
      have finished := safe _ rfl s.world (.refl _) converging.reachable.orderly result rfl
      refine still converging ⟨before ++ [unit], by rw [split, List.append_assoc]; rfl, ?_,
        fun i impossible => by cases impossible⟩
      intro earlier member
      rcases List.mem_append.mp member with inBefore | last
      · exact done earlier inBefore
      · rw [List.mem_singleton.mp last]
        exact ⟨_, isShown, finished⟩
  | ingested =>
      obtain ⟨before, split, done, _⟩ := converging.achieved
      rw [List.append_nil] at split
      exact still converging (split ▸ done)
  | buildAnalytics runDbt => exact still converging converging.achieved
  | stop stopped => exact still converging trivial

/-- **Every run of the pipeline** keeps the invariant. -/
theorem Converging.run {b b' : Pipeline} (converging : Converging source today units start b)
    (planned : expand uuid5 today spec = .ok units) (run : PipelineRun uuid5 source spec b b') :
    Converging source today units start b' := by
  induction run with
  | refl => exact converging
  | tail _ step ih => exact ih.step planned step

theorem AtRest.converging {s : WarehouseSystem} (reachable : Reachable s)
    (atRest : AtRest s.world) :
    Converging source today units s.world.store.progress ⟨s, .idle⟩ where
  reachable := reachable
  waiting id product p phase recorded unended := by
    have named := reachable.orderly.named id _ recorded
    cases id with
    | named name =>
        have ended := atRest.ended name _ recorded
        rw [unended] at ended
        cases ended
    | generated n => cases named
  reached := ⟨_, describes_progress _, .none _ _⟩
  achieved := trivial

end Step

end PowerMarket
