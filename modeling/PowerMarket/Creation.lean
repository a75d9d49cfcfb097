import PowerMarket.System

/-!
# Creating the manifest and the control row

The scripts that create a manifest and that seed the control row run under fixed job identifiers.
A job under such an identifier that has ended with an error stays what every later submission
finds, so that the creation can never be retried. `creation_iff` says when a creation has its
effect: exactly when no earlier job stands in its way (`CanRun`). `creation_stuck` is a warehouse
in which the service aborted both jobs.
-/

set_option autoImplicit false

namespace PowerMarket

open Library JobService

/-! ## Jobs under fixed identifiers -/

/-- The job under an identifier, if there is one, has a fitting script and can still run on the
current tables: it waits, or it runs on their version. -/
def CanRun (w : Cloud) (name : String) (fits : Script → Prop) : Prop :=
  ∀ script phase, w.jobs (.named name) = some ⟨script, phase⟩ → fits script ∧
    (phase = .pending ∨ ∃ snapshot started, phase = .running snapshot w.version started)

section Jobs

variable (outside : (request : Outside) → Except Exn request.Reply) {w : Cloud}

theorem endNow_fresh {name : String} {script : Script} {store : Database}
    {outcome : Except Exn Rows} (fresh : w.Fresh) :
    (endNow w (.named name) script store outcome).Fresh := by
  intro n bound
  rw [endNow, World.setJob_issued, World.install_issued] at bound
  rw [endNow, World.setJob_ne _ _ (by simp), World.install_jobs]
  exact fresh n bound

/-- Waiting for a job that can still run, when its script succeeds at any time. -/
theorem runNow_wait_current {name : String} {script : Script}
    {phase : Phase Database Rows Exn UtcTime} (fresh : w.Fresh)
    (job : w.jobs (.named name) = some ⟨script, phase⟩)
    (current : phase = .pending ∨ ∃ started, phase = .running w.store w.version started)
    {after : UtcTime → Database} {rows : Rows}
    (executes : ∀ t, script.execute t w.store = .ok (after t, rows)) :
    ∃ t view w', runNow outside (wait (.named name)) w = (.ok view, w') ∧ w'.store = after t ∧
      w'.Fresh := by
  rcases current with rfl | ⟨started, rfl⟩
  · exact ⟨w.clock, _, _, runNow_wait_ok outside job (executes w.clock),
      endNow_store (executes w.clock), endNow_fresh fresh⟩
  · exact ⟨started, _, _, runNow_wait_running outside job (executes started),
      endNow_store (executes started), endNow_fresh fresh⟩

/-- Waiting for a job that can no longer run. -/
theorem runNow_wait_lost {id : JobId String} {script : Script}
    {phase : Phase Database Rows Exn UtcTime} (job : w.jobs id = some ⟨script, phase⟩)
    (writes : script.writes = true)
    (unfinished : ∀ rows time usage, phase ≠ .ended (.ok rows) time usage)
    (lost : ¬ (phase = .pending ∨ ∃ snapshot started, phase = .running snapshot w.version started)) :
    ∃ e w', runNow outside (wait id) w = (.error e, w') ∧ w'.store = w.store := by
  cases phase with
  | pending => exact absurd (.inl rfl) lost
  | running snapshot version started =>
      have stale : version ≠ w.version := by
        rintro rfl
        exact lost (.inr ⟨snapshot, started, rfl⟩)
      exact ⟨_, _, runNow_wait_stale outside job writes stale, rfl⟩
  | ended outcome time usage =>
      cases outcome with
      | ok rows => exact absurd rfl (unfinished rows time usage)
      | error e => exact ⟨_, _, runNow_wait_failed outside job, rfl⟩

end Jobs

variable [Platform] {w : Cloud}

/-! ## Creating a manifest -/

section Begin

variable (outside : (request : Outside) → Except Exn request.Reply) {request request' : Request}
  {runId : String} {c : ControlRow}

/-- A script that creates a manifest, on tables without one. -/
theorem executes_begin (seeded : Seeded w.store c)
    (absent : ∀ row ∈ w.store.runs, row.runId ≠ runId) (t : UtcTime) :
    (Script.beginRun (newRun request runId)).execute t w.store =
      .ok (withRun w.store ((newRun request runId).row t), .none) := by
  have created : beginRun (newRun request runId) t w.store =
      .ok (withRun w.store ((newRun request runId).row t)) := beginRun_fresh seeded absent
  rw [Script.execute, created]
  rfl

/-- Beginning a run, when the job under its identifier can run. -/
theorem runNow_begin_current (fresh : w.Fresh) (valid : isRunId runId = true)
    (seeded : Seeded w.store c) (absent : ∀ row ∈ w.store.runs, row.runId ≠ runId)
    {phase : Phase Database Rows Exn UtcTime}
    (job : (w.jobs (.named (jobId runId "begin"))).or
      (some ⟨.beginRun (newRun request runId), .pending⟩) =
        some ⟨.beginRun (newRun request' runId), phase⟩)
    (current : phase = .pending ∨ ∃ started, phase = .running w.store w.version started) :
    ∃ t, (runNow outside (begin request runId) w).2.store =
      withRun w.store ((newRun request' runId).row t) := by
  obtain ⟨w₁, asked, store₁, version₁, fresh₁, jobs₁⟩ :=
    runNow_query_some outside (w := w) (.beginRun (newRun request runId)) (jobId runId "begin")
  have executes : ∀ t, (Script.beginRun (newRun request' runId)).execute t w₁.store =
      .ok (withRun w.store ((newRun request' runId).row t), .none) := by
    rw [store₁]
    exact executes_begin seeded absent
  rw [← store₁, ← version₁] at current
  obtain ⟨t, view, w₂, waited, store₂, fresh₂⟩ :=
    runNow_wait_current outside (fresh₁ fresh) (jobs₁.trans job) current executes
  have only : runRows (withRun w.store ((newRun request' runId).row t)) runId =
      (some ((newRun request' runId).row t)).toList := runRows_withRun absent
  obtain ⟨w₃, ran, read⟩ := runNow_getRun outside fresh₂ valid (store₂ ▸ only)
  refine ⟨t, ?_⟩
  rw [runNow, begin, validateRunId_ok valid, Program.runIn_bind_ok _ rfl,
    Program.runIn_bind_ok _ asked, Program.runIn_bind_ok _ waited, Program.runIn_bind_ok _ read]
  simp only
  split_ifs <;> exact ran.store_eq.trans store₂

/-- Beginning a run, when the job under its identifier can no longer run. -/
theorem runNow_begin_lost (valid : isRunId runId = true) {script : Script}
    {phase : Phase Database Rows Exn UtcTime}
    (job : w.jobs (.named (jobId runId "begin")) = some ⟨script, phase⟩)
    (writes : script.writes = true)
    (unfinished : ∀ rows time usage, phase ≠ .ended (.ok rows) time usage)
    (lost : ¬ (phase = .pending ∨ ∃ snapshot started, phase = .running snapshot w.version started)) :
    (runNow outside (begin request runId) w).2.store = w.store := by
  obtain ⟨w₁, asked, store₁, version₁, _, jobs₁⟩ :=
    runNow_query_some outside (w := w) (.beginRun (newRun request runId)) (jobId runId "begin")
  rw [job, Option.some_or] at jobs₁
  rw [← version₁] at lost
  obtain ⟨e, w₂, waited, store₂⟩ := runNow_wait_lost outside jobs₁ writes unfinished lost
  rw [runNow, begin, validateRunId_ok valid, Program.runIn_bind_ok _ rfl,
    Program.runIn_bind_ok _ asked, Program.runIn_bind_error _ waited]
  exact store₂.trans store₁

/-- A begin job that ended without error has left a manifest. -/
theorem Orderly.begun_of_ended (orderly : Orderly w) {id : JobId String} {rows : Rows}
    {time : UtcTime} {usage : Usage}
    (ended : w.jobs id = some ⟨.beginRun (newRun request runId), .ended (.ok rows) time usage⟩) :
    ∃ row ∈ w.store.runs, row.runId = runId := by
  obtain ⟨past, after, started, ⟨good, _⟩, _, before, executed⟩ :=
    orderly.consistent.answered ended
  have created : ∃ row ∈ after.runs, row.runId = runId := by
    have result : beginRun (newRun request runId) started past = .ok after := of_execute executed
    rcases good with rfl | ⟨c, sound, _⟩
    · obtain ⟨e, rejected⟩ := guard_of_empty (rfl : Database.created.control = [])
      rw [beginRun, rejected] at result
      cases result
    · obtain ⟨_, rfl⟩ := (beginRun_ok sound.seeded).mp result
      split_ifs with empty
      · exact ⟨_, List.mem_append_right _ (List.mem_singleton_self _), rfl⟩
      · obtain ⟨row, at_row⟩ := List.exists_mem_of_ne_nil _ (mt List.isEmpty_iff.mpr empty)
        obtain ⟨member, ofRun⟩ := mem_runRows.mp at_row
        exact ⟨row, member, ofRun⟩
  obtain ⟨row, member, ofRun⟩ := created
  obtain ⟨row', member', progress⟩ := before.run member
  exact ⟨row', member', progress.runId.trans ofRun⟩

/-- The scripts that create the manifest of a run for the same request. -/
def SameRequest (request : Request) (script : Script) : Prop :=
  ∃ run, script = .beginRun run ∧ run.requestId = request.requestId

/-- **When beginning a run creates its manifest.** -/
theorem Orderly.begins_iff (orderly : Orderly w) (valid : isRunId runId = true)
    (absent : ∀ row ∈ w.store.runs, row.runId ≠ runId)
    (succeeds : ∃ db, beginRun (newRun request runId) w.clock w.store = .ok db) :
    (∃ row ∈ (runNow outside (begin request runId) w).2.store.runs, row.runId = runId ∧
        row.requestId = request.requestId ∧ row.status = .started) ↔
      CanRun w (jobId runId "begin") (SameRequest request) := by
  have fresh : w.Fresh := fun n bound => orderly.consistent.fresh bound
  obtain ⟨c, seeded⟩ : ∃ c, Seeded w.store c := by
    rcases orderly.good with created | ⟨c, sound, _⟩
    · obtain ⟨db, result⟩ := succeeds
      obtain ⟨e, rejected⟩ := guard_of_empty (rfl : Database.created.control = [])
      rw [created, beginRun, rejected] at result
      cases result
    · exact ⟨c, sound.seeded⟩
  -- The snapshot of a running job of the current version is the current one.
  have snapshots : ∀ {script phase}, w.jobs (.named (jobId runId "begin")) = some ⟨script, phase⟩ →
      (phase = .pending ∨ ∃ snapshot started, phase = .running snapshot w.version started) →
      phase = .pending ∨ ∃ started, phase = .running w.store w.version started := by
    rintro script phase job (rfl | ⟨snapshot, started, rfl⟩)
    · exact .inl rfl
    · rw [(orderly.consistent.running job).2.1 rfl]
      exact .inr ⟨started, rfl⟩
  constructor
  · rintro ⟨row, member, ofRun, ofRequest, started⟩ script phase job
    obtain ⟨request', rfl⟩ := (orderly.fixedJob job).of_begin valid
    by_cases current : phase = .pending ∨ ∃ snapshot started, phase = .running snapshot w.version started
    · refine ⟨⟨_, rfl, ?_⟩, current⟩
      obtain ⟨t, after⟩ : ∃ t, (runNow outside (begin request runId) w).2.store =
          withRun w.store ((newRun request' runId).row t) :=
        runNow_begin_current outside fresh valid seeded absent (by rw [job, Option.some_or])
          (snapshots job current)
      rw [after] at member
      rcases List.mem_append.mp member with before | new
      · exact absurd ofRun (absent row before)
      · rw [List.mem_singleton.mp new] at ofRequest
        exact ofRequest
    · have unfinished : ∀ rows time usage, phase ≠ .ended (.ok rows) time usage := by
        rintro rows time usage rfl
        obtain ⟨row', member', ofRun'⟩ := orderly.begun_of_ended job
        exact absent row' member' ofRun'
      have same : (runNow outside (begin request runId) w).2.store = w.store :=
        runNow_begin_lost outside valid job rfl unfinished current
      rw [same] at member
      exact absurd ofRun (absent row member)
  · intro canRun
    obtain ⟨request', phase, job, sameRequest, current⟩ : ∃ request' phase,
        (w.jobs (.named (jobId runId "begin"))).or
          (some ⟨.beginRun (newRun request runId), .pending⟩) =
            some ⟨.beginRun (newRun request' runId), phase⟩ ∧
        request'.requestId = request.requestId ∧
        (phase = .pending ∨ ∃ started, phase = .running w.store w.version started) := by
      cases job : w.jobs (.named (jobId runId "begin")) with
      | none => exact ⟨request, .pending, rfl, rfl, .inl rfl⟩
      | some other =>
          obtain ⟨script, phase⟩ := other
          obtain ⟨request', rfl⟩ := (orderly.fixedJob job).of_begin valid
          obtain ⟨⟨run, same, sameRequest⟩, current⟩ := canRun _ _ job
          cases same
          exact ⟨request', phase, rfl, sameRequest, snapshots job current⟩
    obtain ⟨t, after⟩ := runNow_begin_current outside fresh valid seeded absent job current
    rw [after]
    exact ⟨_, List.mem_append_right _ (List.mem_singleton_self _), rfl, sameRequest, rfl⟩

end Begin

/-! ## Seeding the control row -/

section Seed

variable (outside : (request : Outside) → Except Exn request.Reply)

/-- The dataset is the project's own, and its tables are as declared. -/
structure Owned : Prop where
  dataset : ∃ info, outside .createDataset = .ok info ∧ checkDataset info = .ok ()
  tables : ∀ table ∈ tables, ∃ info, outside (.createTable table.1) = .ok info ∧
    checkTable table.1 table.2 info = .ok ()

omit [Platform] in
theorem runNow_checkTables {declared : List (String × List Field)}
    (correct : ∀ table ∈ declared, ∃ info, outside (.createTable table.1) = .ok info ∧
      checkTable table.1 table.2 info = .ok ()) :
    runNow outside (checkTables declared) w = (.ok (), w) := by
  induction declared with
  | nil => rfl
  | cons table declared ih =>
      obtain ⟨info, created, checked⟩ := correct table List.mem_cons_self
      have asked : runNow outside (call (.outside (.createTable table.1)) : Client TableInfo) w =
          (.ok info, w) := congrArg (fun reply => (reply, w)) created
      rw [runNow, checkTables, Program.runIn_bind_ok _ asked, checked, Program.runIn_bind_ok _ rfl]
      exact ih fun table member => correct table (List.mem_cons_of_mem _ member)

/-- On an owned dataset, creating the warehouse comes down to its seed job. -/
theorem runNow_bootstrap (owned : Owned outside) {w₁ : Cloud}
    (asked : runNow outside (query .seedControl (some (jobId "bootstrap" "v1"))) w =
      (.ok (.named (jobId "bootstrap" "v1")), w₁)) :
    (runNow outside bootstrap w).2 =
      (runNow outside (wait (.named (jobId "bootstrap" "v1"))) w₁).2 := by
  obtain ⟨info, created, checked⟩ := owned.dataset
  have first : runNow outside (call (.outside .createDataset) : Client DatasetInfo) w =
      (.ok info, w) := congrArg (fun reply => (reply, w)) created
  have block : runNow outside (do
      let dataset ← (call (.outside .createDataset) : Client DatasetInfo)
      Program.ofExcept (checkDataset dataset)
      checkTables tables
      let job ← query .seedControl (some (jobId "bootstrap" "v1"))
      let _ ← wait job
      return ()) w = runNow outside (do
        let _ ← wait (.named (jobId "bootstrap" "v1"))
        return ()) w₁ := by
    rw [runNow, Program.runIn_bind_ok _ first, checked, Program.runIn_bind_ok _ rfl,
      Program.runIn_bind_ok _ (runNow_checkTables outside owned.tables),
      Program.runIn_bind_ok _ asked]
  rw [runNow, bootstrap]
  cases waited : runNow outside (wait (.named (jobId "bootstrap" "v1"))) w₁ with
  | mk result w₂ =>
      cases result with
      | ok view =>
          have done := block.trans (Program.runIn_bind_ok _ waited)
          exact congrArg Prod.snd (Program.runIn_tryCatch_ok _ done)
      | error e =>
          have failed := block.trans (Program.runIn_bind_error _ waited)
          refine (congrArg Prod.snd (Program.runIn_tryCatch_error _ failed)).trans ?_
          split_ifs <;> rfl

omit [Platform] in
theorem seedControl_control {db after : Database} (seeded : seedControl db = .ok after) :
    after.control ≠ [] := by
  intro empty
  unfold seedControl at seeded
  obtain ⟨_, passed, same⟩ := bind_eq_ok.mp seeded
  have length := assertThat_ok.mp passed
  cases same
  rw [empty] at length
  cases length

/-- **When creating the warehouse seeds the control row.** -/
theorem Orderly.seeds_iff (orderly : Orderly w) (missing : w.store.control = [])
    (owned : Owned outside) :
    (runNow outside bootstrap w).2.store = .seeded ↔
      CanRun w (jobId "bootstrap" "v1") fun _ => True := by
  have fresh : w.Fresh := fun n bound => orderly.consistent.fresh bound
  have created : w.store = .created := by
    rcases orderly.good with created | ⟨c, sound, _⟩
    · exact created
    · rw [sound.seeded.control] at missing
      cases missing
  obtain ⟨w₁, asked, store₁, version₁, fresh₁, jobs₁⟩ :=
    runNow_query_some outside (w := w) .seedControl (jobId "bootstrap" "v1")
  rw [runNow_bootstrap outside owned asked]
  constructor
  · intro seeded script phase job
    obtain rfl := (orderly.fixedJob job).of_seed
    refine ⟨trivial, ?_⟩
    by_contra lost
    have unfinished : ∀ rows time usage, phase ≠ .ended (.ok rows) time usage := by
      rintro rows time usage rfl
      obtain ⟨past, after, started, _, _, before, executed⟩ := orderly.consistent.answered job
      exact before.seeded (seedControl_control (of_execute executed)) missing
    rw [job, Option.some_or] at jobs₁
    rw [← version₁] at lost
    obtain ⟨e, w₂, waited, store₂⟩ := runNow_wait_lost outside jobs₁ rfl unfinished lost
    rw [waited, store₂, store₁, created] at seeded
    cases seeded
  · intro canRun
    obtain ⟨phase, job, current⟩ : ∃ phase, w₁.jobs (.named (jobId "bootstrap" "v1")) =
        some ⟨.seedControl, phase⟩ ∧
        (phase = .pending ∨ ∃ started, phase = .running w₁.store w₁.version started) := by
      rw [jobs₁, store₁, version₁]
      cases job : w.jobs (.named (jobId "bootstrap" "v1")) with
      | none => exact ⟨.pending, rfl, .inl rfl⟩
      | some other =>
          obtain ⟨script, phase⟩ := other
          obtain rfl := (orderly.fixedJob job).of_seed
          refine ⟨phase, rfl, ?_⟩
          rcases (canRun _ _ job).2 with rfl | ⟨snapshot, started, rfl⟩
          · exact .inl rfl
          · rw [(orderly.consistent.running job).2.1 rfl]
            exact .inr ⟨started, rfl⟩
    have executes : ∀ t, Script.seedControl.execute t w₁.store = .ok (.seeded, .none) := by
      rw [store₁, created]
      exact fun _ => rfl
    obtain ⟨t, view, w₂, waited, store₂, _⟩ :=
      runNow_wait_current outside (fresh₁ fresh) job current executes
    rw [waited, store₂]

end Seed

/-! ## Both scripts -/

/-- **When a manifest or the control row can be created.** In every reachable state, when the
script of `begin` would succeed on tables without a manifest of the run, the call leaves a
started manifest for its request exactly when no job under its identifier stands in the way, and
in the same way `bootstrap` seeds an owned warehouse without a control row. -/
theorem creation_iff {s : WarehouseSystem} (reachable : Reachable s)
    (outside : (request : Outside) → Except Exn request.Reply) :
    (∀ request runId, isRunId runId = true →
      (∀ row ∈ s.world.store.runs, row.runId ≠ runId) →
      (∃ db, beginRun (newRun request runId) s.world.clock s.world.store = .ok db) →
      ((∃ row ∈ (runNow outside (begin request runId) s.world).2.store.runs, row.runId = runId ∧
          row.requestId = request.requestId ∧ row.status = .started) ↔
        CanRun s.world (jobId runId "begin") (SameRequest request))) ∧
    (s.world.store.control = [] → Owned outside →
      ((runNow outside bootstrap s.world).2.store = .seeded ↔
        CanRun s.world (jobId "bootstrap" "v1") fun _ => True)) :=
  ⟨fun _ _ valid absent succeeds => reachable.orderly.begins_iff outside valid absent succeeds,
    fun missing owned => reachable.orderly.seeds_iff outside missing owned⟩

/-! ## A creation that cannot be retried -/

theorem sampleOutside_owned : Owned sampleOutside := by
  refine ⟨⟨_, rfl, by simp [checkDataset]⟩, fun table member => ⟨_, rfl, ?_⟩⟩
  have columns : ∀ table ∈ tables, (tables.lookup table.1).getD [] = table.2 ∧
      table.2.map Field.normalize = table.2 := by decide
  obtain ⟨found, normal⟩ := columns table member
  simp [checkTable, found, normal]

omit [Platform] in
/-- Nothing has happened after the warehouse was created. -/
theorem bootstrapped_plain :
    letI := Platform.plain
    bootstrapped.world.store = .seeded ∧
      bootstrapped.world.jobs (.named (jobId sampleRunId "begin")) = none :=
  ⟨by rfl, by rfl⟩

omit [Platform] in
set_option maxRecDepth 10000 in
/-- The job that seeded the control row is the only one with an identifier. -/
theorem bootstrapped_jobs : letI := Platform.plain
    bootstrapped.world.jobs = Function.update (Function.update (fun _ => none)
      (.named (jobId "bootstrap" "v1")) (some ⟨.seedControl, .pending⟩))
      (.named (jobId "bootstrap" "v1"))
      (some ⟨.seedControl, .ended (.ok .none) sampleStop ⟨none, none⟩⟩) := by rfl

omit [Platform] in
/-- A manifest is created and a control row is seeded. -/
theorem creation_iff_sample :
    letI := Platform.plain
    (∃ row ∈ (runNow sampleOutside (begin sampleRequest sampleRunId)
        bootstrapped.world).2.store.runs, row.runId = sampleRunId ∧
        row.requestId = sampleRequest.requestId ∧ row.status = .started) ∧
      (runNow sampleOutside bootstrap sampleInitial.world).2.store = .seeded := by
  obtain ⟨seeded, unused⟩ := bootstrapped_plain
  have absent : ∀ row ∈ (@bootstrapped Platform.plain).world.store.runs,
      row.runId ≠ sampleRunId := by
    rw [seeded]
    exact fun _ impossible => by cases impossible
  constructor
  · refine ((@creation_iff Platform.plain _ (@bootstrapped_reachable Platform.plain)
      (@sampleOutside Platform.plain)).1 sampleRequest sampleRunId (by decide) absent ?_).mpr
      fun script phase job => ?_
    · have ready : Seeded (@bootstrapped Platform.plain).world.store _ :=
        seeded.symm ▸ seeded_seeded
      exact ⟨_, beginRun_fresh ready absent⟩
    · rw [unused] at job
      cases job
  · have initial : @Reachable Platform.plain sampleInitial := ⟨sampleStop, .refl⟩
    refine ((@creation_iff Platform.plain _ initial (@sampleOutside Platform.plain)).2 rfl
      (@sampleOutside_owned Platform.plain)).mpr fun script phase job => ?_
    cases job

/-- The system after a submitted job was aborted by the service. -/
def WarehouseSystem.abort (s : WarehouseSystem) (name : String) (script : Script) :
    WarehouseSystem :=
  ⟨s.world.setJob (.named name)
    ⟨script, .ended (.error bigQuery.conflictingUpdate) s.world.clock ⟨none, none⟩⟩, s.processes⟩

theorem Reachable.abort {s : WarehouseSystem} (reachable : Reachable s) {name : String}
    {script : Script} (waiting : s.world.jobs (.named name) = some ⟨script, .pending⟩) :
    Reachable (s.abort name script) := by
  have aborted : SystemStep s (s.abort name script) :=
    .background (.abort waiting rfl (le_refl _))
  exact (reachable.run (.single aborted)).1

/-- A process has submitted the job that creates a manifest. -/
def beginAsked : WarehouseSystem :=
  bootstrapped.finish 1 (.begin sampleRequest sampleRunId) []
    (alone sampleOutside [none, some (.new .serviceUnavailable "")]
      (Launch.start (.begin sampleRequest sampleRunId)) bootstrapped.world)

/-- A process has submitted the job that seeds the control row. -/
def seedAsked : WarehouseSystem :=
  sampleInitial.finish 0 .bootstrap []
    (alone sampleOutside (List.replicate 8 none ++ [some (.new .serviceUnavailable "")])
      (Launch.start .bootstrap) sampleInitial.world)

theorem beginAsked_reachable : Reachable beginAsked := by
  have unused : bootstrapped.processes 1 = none := rfl
  exact (bootstrapped_reachable.run (bootstrapped_reachable.launched unused
    (.begin sampleRequest sampleRunId) sampleOutside _)).1

theorem seedAsked_reachable : Reachable seedAsked := by
  have initial : Reachable sampleInitial := ⟨sampleStop, .refl⟩
  exact (initial.run (initial.launched rfl .bootstrap sampleOutside _)).1

/-- The service has aborted the job that creates a manifest. -/
def unbegun : WarehouseSystem :=
  beginAsked.abort (jobId sampleRunId "begin") (.beginRun (newRun sampleRequest sampleRunId))

/-- The service has aborted the job that seeds the control row. -/
def unseeded : WarehouseSystem :=
  seedAsked.abort (jobId "bootstrap" "v1") .seedControl

omit [Platform] in
theorem unbegun_reachable : @Reachable Platform.plain (@unbegun Platform.plain) :=
  @Reachable.abort Platform.plain _ (@beginAsked_reachable Platform.plain) _ _ (by rfl)

omit [Platform] in
theorem unseeded_reachable : @Reachable Platform.plain (@unseeded Platform.plain) :=
  @Reachable.abort Platform.plain _ (@seedAsked_reachable Platform.plain) _ _ (by rfl)

omit [Platform] in
/-- **A creation that cannot be retried.** After an aborted job nothing is created, although the
script would succeed. -/
theorem creation_stuck :
    letI := Platform.plain
    (Reachable unbegun ∧ unbegun.world.store.runs = [] ∧
      (∃ db, beginRun (newRun sampleRequest sampleRunId) unbegun.world.clock unbegun.world.store =
        .ok db) ∧
      (runNow sampleOutside (begin sampleRequest sampleRunId) unbegun.world).2.store.runs = []) ∧
    (Reachable unseeded ∧ unseeded.world.store.control = [] ∧ Owned sampleOutside ∧
      (runNow sampleOutside bootstrap unseeded.world).2.store.control = []) :=
  ⟨⟨unbegun_reachable, by rfl, ⟨_, by rfl⟩, by rfl⟩,
    ⟨unseeded_reachable, by rfl, @sampleOutside_owned Platform.plain, by rfl⟩⟩

end PowerMarket
