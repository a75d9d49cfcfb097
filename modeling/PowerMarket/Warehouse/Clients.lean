import PowerMarket.Warehouse.Service
import PowerMarket.Ingestion

/-!
# The programs keep to the rules

Every program of the client only submits scripts that are permitted, under the identifiers of
their scripts, whatever the other processes and the service do between its calls. For each
program there is one lemma that says what is known when it returns.
-/

set_option autoImplicit false

namespace PowerMarket

open Library JobService

/-! ## Jobs -/

/-- A job that was submitted when the tables were at least as late as `base`. -/
structure Asked (base : Database) (w : Cloud) (id : JobId String) (script : Script) : Prop where
  before : Precedes base w.store
  job : ∃ phase, w.jobs id = some ⟨script, phase⟩ ∧
    Advances bigQuery Precedes base script .pending phase

theorem Asked.mono {base : Database} {w w' : Cloud} {id : JobId String} {script : Script}
    (asked : Asked base w id script) (future : Future w w') : Asked base w' id script := by
  obtain ⟨phase, recorded, advances⟩ := asked.job
  obtain ⟨⟨script', phase'⟩, recorded', same, _⟩ := future.progress.jobs recorded
  cases same
  have compose : ∀ x y z, Precedes x y → Precedes y z → Precedes x z := fun _ _ _ => .trans
  exact ⟨asked.before.trans future.before, phase', recorded',
    advances.trans compose asked.before (future.advances recorded recorded')⟩

/-- A job that has ended without error, as a client has seen it. -/
structure Seen (w : Cloud) (id : JobId String) (view : JobView) (script : Script) (rows : Rows)
    (time : UtcTime) : Prop where
  job : w.jobs id = some ⟨script, .ended (.ok rows) time view.usage⟩
  past : time ≤ w.clock
  rows_eq : view.rows = some rows
  ended : view.ended = some time ∨ view.ended = none

theorem Seen.mono {w w' : Cloud} {id : JobId String} {view : JobView} {script : Script}
    {rows : Rows} {time : UtcTime} (seen : Seen w id view script rows time)
    (future : Future w w') : Seen w' id view script rows time :=
  ⟨future.progress.ended seen.job, le_trans seen.past future.progress.clock_le, seen.rows_eq,
    seen.ended⟩

variable [Platform]

/-- The rows of a job come from a good state before the current one. -/
theorem Seen.answered {w : Cloud} (orderly : Orderly w) {id : JobId String} {view : JobView}
    {script : Script} {rows : Rows} {time : UtcTime} (seen : Seen w id view script rows time) :
    ∃ past after started, Ready script past ∧ Precedes past w.store ∧ Precedes after w.store ∧
      script.execute started past = .ok (after, rows) :=
  orderly.consistent.answered seen.job

section Safety

variable {allowed : Cloud → ClientCall → Prop}

/-- Calls that submit nothing are allowed. -/
def Passive (allowed : Cloud → ClientCall → Prop) : Prop :=
  ∀ w c, (∀ name script, c ≠ .query name script) → allowed w c

/-- A submission without an identifier gives a new job. -/
theorem query_none_safe {script : Script} {w : Cloud}
    (allow : ∀ v, Future w v → Orderly v → allowed v (.query none script)) :
    protocol.Safe allowed (fun result v => ∀ id, result = .ok id → Asked w.store v id script)
      (query script none) w := by
  unfold query
  refine .tryCatch (Q := fun result v => ∀ id, result = .ok id → Asked w.store v id script)
    ?_ (fun id v _ _ asked v' future _ => fun id' same => (asked id' same).mono future) ?_
  · refine .perform fun v future orderly => ⟨allow v future orderly, ?_⟩
    rintro reply v' acted _ _ v'' future'' _ id rfl
    rcases acted with ⟨unused, rfl, same | ⟨e, impossible⟩⟩ | ⟨⟨e, impossible⟩, _⟩
    · cases same
      have asked : Asked w.store (v.submit (.generated v.issued) script) (.generated v.issued)
          script := ⟨future.before, .pending, World.submit_self .., .same⟩
      exact asked.mono future''
    · cases impossible
    · cases impossible
  · intro e v _ _ _
    split_ifs <;> exact .done fun _ _ _ _ impossible => by cases impossible

/-- A submission under an identifier gives the job with that identifier. -/
theorem query_some_safe (passive : Passive allowed) {script : Script} {name : String} {w : Cloud}
    (allow : ∀ v, Future w v → Orderly v → allowed v (.query (some name) script)) :
    protocol.Safe allowed (fun result _ => ∀ id, result = .ok id → id = .named name)
      (query script (some name)) w := by
  unfold query
  refine .tryCatch (Q := fun result _ => ∀ id, result = .ok id → id = .named name)
    ?_ (fun id v _ _ named v' _ _ => named) ?_
  · refine .perform fun v future orderly => ⟨allow v future orderly, ?_⟩
    rintro reply v' acted _ _ v'' _ _ id rfl
    rcases acted with ⟨_, _, same | ⟨e, impossible⟩⟩ | ⟨⟨e, impossible⟩, _⟩
    · cases same
      rfl
    · cases impossible
    · cases impossible
  · intro e v _ _ _
    split_ifs
    · refine .perform fun v _ _ => ⟨passive _ _ (by simp), ?_⟩
      rintro reply v' ⟨_, ⟨same, _⟩ | ⟨e, impossible⟩⟩ _ _ v'' _ _ id rfl
      · cases same
        rfl
      · cases impossible
    · exact .done fun _ _ _ _ impossible => by cases impossible

/-- Waiting returns only for a job that has ended without error. -/
theorem wait_safe (passive : Passive allowed) {id : JobId String} {w : Cloud} :
    protocol.Safe allowed (fun result v => ∀ view, result = .ok view →
      ∃ script rows time, Seen v id view script rows time) (wait id) w := by
  refine .perform fun v _ _ => ⟨passive _ _ (by simp), ?_⟩
  rintro reply v' ⟨rfl, ⟨script, rows, time, usage, ended, job, past, reported, rfl⟩ |
    ⟨e, rfl⟩⟩ _ _ v'' future _ view same
  · cases same
    have seen : Seen v' id ⟨some rows, true, false, ended, usage⟩ script rows time :=
      ⟨job, past, rfl, reported⟩
    exact ⟨script, rows, time, seen.mono future⟩
  · cases same

theorem outside_safe (passive : Passive allowed) {request : Outside} {w : Cloud} :
    protocol.Safe allowed (fun _ _ => True) (call (.outside request)) w :=
  .perform fun _ _ _ => ⟨passive _ _ (by simp), fun _ _ _ _ _ _ _ _ => trivial⟩

/-! ## Reading manifests -/

/-- What is known of a manifest that was read from tables at least as late as `base`. -/
structure ManifestRead (base : Database) (w : Cloud) (runId : String) (found : Option RunRow) :
    Prop where
  valid : isRunId runId = true
  past : ∀ row, found = some row → row.runId = runId ∧
    ∃ past, Good past ∧ Precedes past w.store ∧ row ∈ past.runs
  recent : ∃ snapshot, Precedes base snapshot ∧ runRows snapshot runId = found.toList

theorem ManifestRead.mono {base : Database} {w w' : Cloud} {runId : String}
    {found : Option RunRow} (read : ManifestRead base w runId found) (future : Future w w') :
    ManifestRead base w' runId found := by
  refine ⟨read.valid, fun row same => ?_, read.recent⟩
  obtain ⟨ofRun, past, good, before, member⟩ := read.past row same
  exact ⟨ofRun, past, good, before.trans future.before, member⟩

/-- The run of a manifest that was read is still there, with the same request. -/
theorem ManifestRead.current {base : Database} {w : Cloud} {runId : String} {row : RunRow}
    (read : ManifestRead base w runId (some row)) :
    ∃ row' ∈ w.store.runs, row'.runId = runId ∧ row'.requestId = row.requestId ∧
      row'.product = row.product := by
  obtain ⟨ofRun, past, _, before, member⟩ := read.past row rfl
  obtain ⟨row', member', progress⟩ := before.run member
  exact ⟨row', member', progress.runId.trans ofRun,
    congrArg (fun b => b.2.1) progress.binding, congrArg (fun b => b.2.2.1) progress.binding⟩

/-- The manifests that a job has read are those of a good state, and those of a state that is not
older than its submission. -/
theorem Asked.manifests {base : Database} {w : Cloud} {id : JobId String} {runId : String}
    (asked : Asked base w id (.getRun runId)) (orderly : Orderly w) {view : JobView}
    {script : Script} {rows : Rows} {time : UtcTime} (seen : Seen w id view script rows time) :
    ∃ past, Good past ∧ Precedes past w.store ∧ manifestRows view = runRows past runId ∧
      ∃ snapshot, Precedes base snapshot ∧ runRows snapshot runId = runRows past runId := by
  obtain ⟨phase, recorded, advances⟩ := asked.job
  rw [seen.job] at recorded
  cases recorded
  obtain ⟨past, after, started, ⟨good, _⟩, before, _, executed⟩ := seen.answered orderly
  have rows_eq : rows = .runs (runRows past runId) := by
    cases executed
    rfl
  refine ⟨past, good, before, by rw [manifestRows, seen.rows_eq, rows_eq], ?_⟩
  cases advances with
  | @answer snapshot _ _ _ _ _ later executed' =>
      have same : rows = .runs (runRows snapshot runId) := by
        cases executed'
        rfl
      rw [rows_eq] at same
      exact ⟨snapshot, later, (Rows.runs.inj same).symm⟩

theorem validate_safe {runId : String} {w : Cloud} :
    protocol.Safe allowed (fun result _ => ∀ r, result = .ok r → isRunId runId = true)
      (Program.ofExcept (validateRunId runId)) w := by
  refine .done fun v _ _ r same => ?_
  unfold validateRunId at same
  split_ifs at same with valid
  exact valid

/-- **Reading a manifest.** -/
theorem getRun_safe (passive : Passive allowed) {runId : String} {w : Cloud}
    (allow : ∀ v, Future w v → Orderly v → allowed v (.query none (.getRun runId))) :
    protocol.Safe allowed (fun result v => ∀ found, result = .ok found →
      ManifestRead w.store v runId found) (getRun runId) w := by
  unfold getRun
  refine .bind validate_safe (fun r v toV _ valid => ?_) (fun _ _ _ _ impossible => by cases impossible)
  refine .bind (query_none_safe fun v' later orderly => allow v' (toV.trans later) orderly)
    (fun id v₁ toV₁ _ asked => ?_) (fun _ _ _ _ impossible => by cases impossible)
  refine .bind (wait_safe passive) (fun view v₂ toV₂ orderly seen => ?_)
    (fun _ _ _ _ impossible => by cases impossible)
  obtain ⟨script, rows, time, seen⟩ := seen view rfl
  obtain ⟨past, good, before, manifests, snapshot, later, same⟩ :=
    ((asked id rfl).mono toV₂).manifests orderly seen
  have read : ∀ found : Option RunRow, runRows past runId = found.toList →
      ManifestRead w.store v₂ runId found := by
    intro found rows
    refine ⟨valid r rfl, fun row is_row => ?_, snapshot, toV.before.trans later, same.trans rows⟩
    subst is_row
    have at_row : row ∈ runRows past runId := by simp [rows]
    obtain ⟨member, ofRun⟩ := mem_runRows.mp at_row
    exact ⟨ofRun, past, good, before, member⟩
  rw [manifests]
  match found : runRows past runId with
  | [] =>
      exact .done fun v' toV' _ result same => by
        cases same
        exact (read none found).mono toV'
  | [row] =>
      exact .done fun v' toV' _ result same => by
        cases same
        exact (read (some row) found).mono toV'
  | _ :: _ :: _ => exact .done fun _ _ _ _ impossible => by cases impossible

end Safety

/-! ## The rules of the service -/

theorem permits_passive : Passive Permits := by
  intro w c notQuery
  cases c with
  | query name script => exact absurd rfl (notQuery name script)
  | getJob name | result id | reload id | outside request => trivial

theorem permits_getRun {runId : String} {w : Cloud} : Permits w (.query none (.getRun runId)) :=
  ⟨rfl, trivial, fun _ _ impossible => by cases impossible⟩

theorem permits_failure {p : FailureParameters} {w : Cloud} :
    Permits w (.query none (.failure p)) :=
  ⟨rfl, trivial, fun _ _ impossible => by cases impossible⟩

theorem permits_snapshot {product : Product} {day : Date} {w : Cloud} :
    Permits w (.query none (.snapshot product day)) :=
  ⟨rfl, trivial, fun _ _ impossible => by cases impossible⟩

theorem permits_begin {request : Request} {runId : String} (valid : isRunId runId = true)
    {w : Cloud} :
    Permits w (.query (some (jobId runId "begin")) (.beginRun (newRun request runId))) :=
  ⟨rfl, ⟨request, runId, valid, rfl⟩, fun _ _ impossible => by cases impossible⟩

/-- **Beginning a run.** -/
theorem begin_safe {allowed : Cloud → ClientCall → Prop} (passive : Passive allowed)
    {request : Request} {runId : String} {w : Cloud}
    (allowRead : ∀ v, Future w v → Orderly v → allowed v (.query none (.getRun runId)))
    (allowBegin : isRunId runId = true → ∀ v, Future w v → Orderly v → allowed v
      (.query (some (jobId runId "begin")) (.beginRun (newRun request runId)))) :
    protocol.Safe allowed (fun result v => ∀ manifest, result = .ok manifest →
      ManifestRead w.store v runId (some manifest) ∧ manifest.requestId = request.requestId)
      (begin request runId) w := by
  unfold begin
  refine .bind validate_safe (fun r v toV _ valid => ?_) (fun _ _ _ _ impossible => by cases impossible)
  refine .bind (query_some_safe passive fun v' later orderly =>
      allowBegin (valid r rfl) v' (toV.trans later) orderly)
    (fun id v₁ toV₁ _ _ => ?_) (fun _ _ _ _ impossible => by cases impossible)
  refine .bind (wait_safe passive) (fun view v₂ toV₂ _ _ => ?_)
    (fun _ _ _ _ impossible => by cases impossible)
  have toHere := toV.trans (toV₁.trans toV₂)
  refine .bind (getRun_safe passive fun v' later orderly => allowRead v' (toHere.trans later) orderly)
    (fun found v₃ toV₃ _ read => ?_) (fun _ _ _ _ impossible => by cases impossible)
  have readHere := read found rfl
  cases found with
  | none => exact .done fun _ _ _ _ impossible => by cases impossible
  | some manifest =>
      simp only
      split_ifs with differs
      · exact .done fun _ _ _ _ impossible => by cases impossible
      · refine .done fun v' toV' _ result same => ?_
        cases same
        obtain ⟨valid', past, snapshot, later, rows⟩ := readHere.mono toV'
        exact ⟨⟨valid', past, snapshot, toHere.before.trans later, rows⟩, not_not.mp differs⟩

/-! ## Jobs under fixed identifiers -/

/-- The scripts under fixed identifiers. -/
inductive FixedJob : String → Script → Prop where
  | seed : FixedJob (jobId "bootstrap" "v1") .seedControl
  | begin {request : Request} {runId : String} (valid : isRunId runId = true) :
      FixedJob (jobId runId "begin") (.beginRun (newRun request runId))
  | commit {product : Product} {p : CommitParameters} (valid : isRunId p.runId = true) :
      FixedJob (jobId p.runId "commit") (.commit product p)

theorem Orderly.fixedJob {w : Cloud} (orderly : Orderly w) {name : String} {script : Script}
    {phase : Phase Database Rows Exn UtcTime}
    (job : w.jobs (.named name) = some ⟨script, phase⟩) : FixedJob name script := by
  have named : script.jobName = some name := orderly.named _ _ job
  have submittable : Submittable w script := orderly.submittable _ _ job
  cases script with
  | getRun _ | snapshot _ _ | finalize _ _ | failure _ => cases named
  | seedControl =>
      cases named
      exact .seed
  | beginRun run =>
      obtain ⟨request, runId, valid, rfl⟩ := submittable.1
      cases named
      exact .begin valid
  | commit product p =>
      obtain ⟨_, _, _, _, _, planned, _, _, _, _⟩ := submittable.1
      cases named
      exact .commit (planWrite_eq planned).1

theorem FixedJob.of_commit {runId : String} {script : Script} (valid : isRunId runId = true)
    (fixed : FixedJob (jobId runId "commit") script) :
    ∃ product p, script = .commit product p ∧ p.runId = runId := by
  generalize same : jobId runId "commit" = name at fixed
  cases fixed with
  | seed => exact absurd same.symm (jobId_bootstrap valid)
  | begin valid' =>
      have clash := (jobId_injective valid valid' same).2
      simp at clash
  | commit valid' => exact ⟨_, _, rfl, (jobId_injective valid valid' same).1.symm⟩

theorem FixedJob.of_begin {runId : String} {script : Script} (valid : isRunId runId = true)
    (fixed : FixedJob (jobId runId "begin") script) :
    ∃ request, script = .beginRun (newRun request runId) := by
  generalize same : jobId runId "begin" = name at fixed
  cases fixed with
  | seed => exact absurd same.symm (jobId_bootstrap valid)
  | @begin request _ valid' =>
      exact ⟨request, congrArg (fun r => Script.beginRun (newRun request r))
        (jobId_injective valid valid' same).1.symm⟩
  | commit valid' =>
      have clash := (jobId_injective valid valid' same).2
      simp at clash

theorem FixedJob.of_seed {script : Script} (fixed : FixedJob (jobId "bootstrap" "v1") script) :
    script = .seedControl := by
  generalize same : jobId "bootstrap" "v1" = name at fixed
  cases fixed with
  | seed => rfl
  | begin valid | commit valid => exact absurd same (jobId_bootstrap valid)

/-- Recording a failure. -/
theorem fail_safe {runId : String} {e : Exn} {commitJobId : Option String} {w : Cloud} :
    protocol.Safe Permits (fun _ _ => True) (fail runId e commitJobId) w := by
  refine .bind (query_none_safe fun _ _ _ => permits_failure) (fun id v _ _ _ => ?_)
    (fun _ _ _ => trivial)
  exact .bind (wait_safe permits_passive) (fun _ _ _ _ _ => .done fun _ _ _ => trivial)
    (fun _ _ _ => trivial)

theorem commitJob_safe {runId : String} {w : Cloud} :
    protocol.Safe Permits (fun result _ => ∀ id, result = .ok (some id) →
      id = .named (jobId runId "commit")) (commitJob runId) w := by
  unfold commitJob
  refine .tryCatch (Q := fun result _ => ∀ id, result = .ok (some id) →
    id = .named (jobId runId "commit")) ?_ (fun _ _ _ _ named _ _ _ => named) ?_
  · refine .bind (Q := fun result _ => ∀ id, result = .ok id →
      id = .named (jobId runId "commit")) ?_ (fun id v _ _ named => ?_)
      (fun _ _ _ _ impossible => by cases impossible)
    · refine .perform fun v _ _ => ⟨trivial, ?_⟩
      rintro reply v' ⟨_, ⟨same, _⟩ | ⟨e, impossible⟩⟩ _ _ v'' _ _ id rfl
      · cases same
        rfl
      · cases impossible
    · refine .done fun _ _ _ id' same => ?_
      cases same
      exact named id rfl
  · intro e v _ _ _
    split_ifs <;> exact .done fun _ _ _ _ impossible => by cases impossible

theorem settleFailure_safe {runId : String} {job : JobId String} {cause : Exn} {w : Cloud} :
    protocol.Safe Permits (fun _ _ => True) (settleFailure runId job cause) w := by
  unfold settleFailure
  refine .bind (Q := fun _ _ => True) ?_ (fun view v _ _ _ => ?_) (fun _ _ _ => trivial)
  · refine .tryCatch (Q := fun _ _ => True) ?_ (fun _ _ _ _ _ _ _ _ => trivial)
      (fun _ _ _ _ _ => .done fun _ _ _ => trivial)
    exact .perform fun _ _ _ => ⟨trivial, fun _ _ _ _ _ _ _ _ => trivial⟩
  · split_ifs
    · refine .bind (Q := fun _ _ => True) ?_ (fun _ _ _ _ _ => .done fun _ _ _ => trivial)
        (fun _ _ _ => trivial)
      exact .tryCatch fail_safe (fun _ _ _ _ _ _ _ _ => trivial)
        (fun _ _ _ _ _ => .done fun _ _ _ => trivial)
    · exact .done fun _ _ _ => trivial

theorem getRun_permitted {runId : String} {w : Cloud} :
    protocol.Safe Permits (fun result v => ∀ found, result = .ok found →
      ManifestRead w.store v runId found) (getRun runId) w :=
  getRun_safe permits_passive fun _ _ _ => permits_getRun

/-- **Finalizing** uses the product of the manifest and the end of the commit job. -/
theorem finalize_safe {runId : String} {product : Product} {ended : UtcTime} {usage : Usage}
    {w : Cloud} (manifest : ∃ row ∈ w.store.runs, row.runId = runId ∧ row.product = product)
    (committed : CommitEnded w runId ended) (past : ended ≤ w.clock) :
    protocol.Safe Permits (fun _ _ => True) (finalize runId product ended usage) w := by
  have submittable : Submittable w
      (.finalize product ⟨runId, ended, usage.processed, usage.billed⟩) := by
    refine ⟨manifest, fun product' p same => ?_⟩
    cases same
    exact ⟨committed, past⟩
  unfold finalize
  refine .bind (Q := fun _ _ => True) ?_ (fun _ v _ _ _ => ?_) (fun _ _ _ => trivial)
  · refine .tryCatch (Q := fun _ _ => True) ?_ (fun _ _ _ _ _ _ _ _ => trivial)
      (fun _ _ _ _ _ => .done fun _ _ _ => trivial)
    refine .bind (query_none_safe fun v later _ => ⟨rfl, submittable.mono later⟩)
      (fun id v _ _ _ => ?_) (fun _ _ _ => trivial)
    exact .bind (wait_safe permits_passive) (fun _ _ _ _ _ => .done fun _ _ _ => trivial)
      (fun _ _ _ => trivial)
  · refine .bind getRun_permitted (fun found v _ _ _ => ?_) (fun _ _ _ => trivial)
    cases found with
    | none => exact .done fun _ _ _ => trivial
    | some row =>
        simp only
        split_ifs <;> exact .done fun _ _ _ => trivial

/-- Following the commit job of a run. -/
theorem followJob_safe {runId : String} {product : Product} {w : Cloud}
    (valid : isRunId runId = true)
    (manifest : ∃ row ∈ w.store.runs, row.runId = runId ∧ row.product = product) :
    protocol.Safe Permits (fun _ _ => True)
      (followJob runId product (.named (jobId runId "commit"))) w := by
  unfold followJob
  refine .sequence (wait_safe permits_passive) fun result v toV orderly seen => ?_
  cases result with
  | error e => exact settleFailure_safe
  | ok view =>
      obtain ⟨script, rows, time, seen⟩ := seen view rfl
      cases reported : view.ended with
      | none =>
          simp only [reported]
          exact .done fun _ _ _ => trivial
      | some ended =>
          have ended_eq : ended = time := by
            rcases seen.ended with same | missing
            · rw [reported] at same
              exact Option.some.inj same
            · rw [reported] at missing
              cases missing
          subst ended_eq
          obtain ⟨product', p, rfl, ofRun⟩ := (orderly.fixedJob seen.job).of_commit valid
          obtain ⟨row, member, ofRow, product_eq⟩ := manifest
          obtain ⟨row', member', progress⟩ := toV.before.run member
          have manifest' : ∃ row ∈ v.store.runs, row.runId = runId ∧ row.product = product :=
            ⟨row', member', progress.runId.trans ofRow,
              (congrArg (fun b => b.2.2.1) progress.binding).trans product_eq⟩
          simp only [reported]
          exact .bind (finalize_safe manifest' ⟨product', p, rows, view.usage, ofRun, seen.job⟩
              seen.past)
            (fun _ _ _ _ _ => .done fun _ _ _ => trivial) (fun _ _ _ => trivial)

/-- **Reconciling a run.** -/
theorem reconcile_safe {runId : String} {w : Cloud} :
    protocol.Safe Permits (fun _ _ => True) (reconcile runId) w := by
  unfold reconcile
  refine .bind getRun_permitted (fun found v _ _ read => ?_) (fun _ _ _ => trivial)
  have readHere := read found rfl
  -- A started and a committed manifest both lead to the commit job.
  have follow : ∀ (row : RunRow) (rest : Option (JobId String) → Client (Option RunRow)),
      found = some row → (∀ u, protocol.Safe Permits (fun _ _ => True) (rest none) u) →
      (∀ job, rest (some job) = followJob runId row.product job) →
      protocol.Safe Permits (fun _ _ => True) (commitJob runId >>= rest) v := by
    intro row rest same missing follows
    subst same
    refine .bind commitJob_safe (fun job u toU _ named => ?_) (fun _ _ _ => trivial)
    cases job with
    | none => exact missing u
    | some job =>
        rw [follows, named job rfl]
        obtain ⟨row', member, ofRun, _, product_eq⟩ := (readHere.mono toU).current
        exact followJob_safe readHere.valid ⟨row', member, ofRun, product_eq⟩
  cases found with
  | none => exact .done fun _ _ _ => trivial
  | some row =>
      cases status : row.status with
      | succeeded | failed =>
          simp only [status]
          exact .done fun _ _ _ => trivial
      | started | committed =>
          simp only [status]
          exact follow row _ rfl (fun _ => .done fun _ _ _ => trivial) fun _ => rfl

/-- The snapshot of a request comes from a seeded state before the current one. -/
theorem snapshot_safe {request : Request} {w : Cloud} :
    protocol.Safe Permits (fun result v => ∀ current, result = .ok current →
      ∃ past c, Seeded past c ∧ Precedes past v.store ∧
        readSnapshot (snapshotQuery request.product request.day past) = .ok current)
      (snapshot request) w := by
  unfold snapshot
  refine .bind (query_none_safe fun _ _ _ => permits_snapshot) (fun id v _ _ asked => ?_)
    (fun _ _ _ _ impossible => by cases impossible)
  refine .bind (wait_safe permits_passive) (fun view u toU orderly seen => ?_)
    (fun _ _ _ _ impossible => by cases impossible)
  obtain ⟨script, rows, time, seen⟩ := seen view rfl
  obtain ⟨phase, recorded, _⟩ := ((asked id rfl).mono toU).job
  rw [seen.job] at recorded
  cases recorded
  obtain ⟨past, after, started, ⟨good, _⟩, before, _, executed⟩ := seen.answered orderly
  refine .done fun u' toU' _ current same => ?_
  have rows_eq : snapshotRows view = snapshotQuery request.product request.day past := by
    cases executed
    rw [snapshotRows, seen.rows_eq]
  rw [rows_eq] at same
  rcases good with rfl | ⟨c, sound, _⟩
  · cases same
  · exact ⟨past, c, sound.seeded, before.trans toU'.before, same⟩

/-- **Planning** reads a snapshot of an earlier state. -/
theorem plan_from {request : Request} {records : List Observation} {runId : String} {w : Cloud} :
    protocol.Safe Permits (fun result v => ∀ planned, result = .ok planned →
      PlannedFrom request records v.store request.product (commitParameters runId planned))
      (plan request records runId) w := by
  unfold plan
  refine .bind (Q := fun result _ => ∀ batch, result = .ok batch →
      batchRows request records = .ok batch) (.done fun _ _ _ _ same => same)
    (fun batch v _ _ batched => ?_) (fun _ _ _ _ impossible => by cases impossible)
  refine .bind snapshot_safe (fun current u _ _ read => ?_)
    (fun _ _ _ _ impossible => by cases impossible)
  obtain ⟨past, c, seeded, before, reading⟩ := read current rfl
  exact .done fun u' toU' _ planned same =>
    .intro rfl (batched batch rfl) seeded (before.trans toU'.before) reading same rfl

/-- A plan may commit its run while the run is bound to the request. -/
theorem plan_safe {request : Request} {records : List Observation} {runId : String} {w : Cloud}
    (manifest : ∃ row ∈ w.store.runs, row.runId = runId ∧ row.requestId = request.requestId) :
    protocol.Safe Permits (fun result v => ∀ planned, result = .ok planned →
      Planned v.store request.product (commitParameters runId planned))
      (plan request records runId) w := by
  refine plan_from.weaken (fun _ _ _ allowed => allowed) fun result v toV _ from_ planned same => ?_
  obtain ⟨row, member, ofRun, ofRequest⟩ := manifest
  obtain ⟨row', member', progress⟩ := toV.before.run member
  exact (from_ planned same).planned member' (progress.runId.trans ofRun)
    ((congrArg (fun b => b.2.1) progress.binding).trans ofRequest)

theorem submitPlan_safe {product : Product} {runId : String} {planned : WritePlan} {w : Cloud}
    (permitted : Planned w.store product (commitParameters runId planned)) :
    protocol.Safe Permits (fun _ _ => True) (submitPlan product runId planned) w := by
  have submittable : Submittable w (.commit product (commitParameters runId planned)) :=
    ⟨permitted, fun _ _ impossible => by cases impossible⟩
  unfold submitPlan
  refine .bind (Q := fun _ _ => True) ?_ (fun _ v _ _ _ => ?_) (fun _ _ _ => trivial)
  · exact .tryCatch (query_some_safe permits_passive fun v later _ =>
        ⟨rfl, submittable.mono later⟩) (fun _ _ _ _ _ _ _ _ => trivial)
      (fun _ _ _ _ _ => .done fun _ _ _ => trivial)
  · refine .bind reconcile_safe (fun result _ _ _ _ => ?_) (fun _ _ _ => trivial)
    cases result <;> exact .done fun _ _ _ => trivial

/-- **Persisting records.** -/
theorem persist_safe {request : Request} {records : List Observation} {runId : String}
    {w : Cloud} :
    protocol.Safe Permits (fun _ _ => True) (persist request records runId) w := by
  unfold persist
  refine .bind getRun_permitted (fun found v _ _ read => ?_) (fun _ _ _ => trivial)
  have readHere := read found rfl
  split_ifs with bound
  · exact .done fun _ _ _ => trivial
  · refine .bind reconcile_safe (fun prior u toU _ _ => ?_) (fun _ _ _ => trivial)
    cases prior with
    | some prior => exact .done fun _ _ _ => trivial
    | none =>
        obtain ⟨row, rfl, ofRequest⟩ : ∃ row, found = some row ∧
            row.requestId = request.requestId := by
          cases found with
          | none => simp at bound
          | some row => exact ⟨row, rfl, by simpa using bound⟩
        obtain ⟨row', member, ofRun, sameRequest, _⟩ := (readHere.mono toU).current
        refine .bind (Q := fun result v => ∀ planned, result = .ok planned →
            Planned v.store request.product (commitParameters runId planned)) ?_
          (fun planned v _ _ permitted => submitPlan_safe (permitted planned rfl))
          (fun _ _ _ => trivial)
        refine .tryCatch (plan_safe ⟨row', member, ofRun, sameRequest.trans ofRequest⟩)
          (fun planned v _ _ permitted v' toV' _ planned' same => ?_) (fun e v _ _ _ => ?_)
        · exact (permitted planned' same).mono toV'.before
        · exact .bind fail_safe (fun _ _ _ _ _ => .done fun _ _ _ _ impossible => by cases impossible)
            (fun _ _ _ _ impossible => by cases impossible)

/-- **Ingesting a request.** -/
theorem ingest_safe {request : Request} {runId : String} {w : Cloud} :
    protocol.Safe Permits (fun _ _ => True) (ingest request runId) w := by
  unfold ingest
  refine .bind (begin_safe permits_passive (fun _ _ _ => permits_getRun)
    fun valid _ _ _ => permits_begin valid) (fun _ _ _ _ _ => ?_) (fun _ _ _ => trivial)
  refine .bind reconcile_safe (fun prior _ _ _ _ => ?_) (fun _ _ _ => trivial)
  cases prior with
  | some prior => exact .done fun _ _ _ => trivial
  | none =>
      refine .sequence (outside_safe permits_passive) fun result _ _ _ _ => ?_
      cases result with
      | ok records => exact persist_safe
      | error e =>
          refine .bind (Q := fun _ _ => True) ?_ (fun _ _ _ _ _ => .done fun _ _ _ => trivial)
            (fun _ _ _ => trivial)
          exact .tryCatch fail_safe (fun _ _ _ _ _ _ _ _ => trivial)
            (fun _ _ _ _ _ => .done fun _ _ _ => trivial)

theorem checkTables_safe (declared : List (String × List Field)) {w : Cloud} :
    protocol.Safe Permits (fun _ _ => True) (checkTables declared) w := by
  induction declared generalizing w with
  | nil => exact .done fun _ _ _ => trivial
  | cons table declared ih =>
      refine .bind (outside_safe permits_passive) (fun _ _ _ _ _ => ?_) (fun _ _ _ => trivial)
      exact .bind (Q := fun _ _ => True) (.done fun _ _ _ => trivial) (fun _ _ _ _ _ => ih)
        (fun _ _ _ => trivial)

/-- **Creating the warehouse.** -/
theorem bootstrap_safe {w : Cloud} :
    protocol.Safe Permits (fun _ _ => True) bootstrap w := by
  unfold bootstrap
  refine .tryCatch (Q := fun _ _ => True) ?_ (fun _ _ _ _ _ _ _ _ => trivial) ?_
  · refine .bind (outside_safe permits_passive) (fun dataset _ _ _ _ => ?_) (fun _ _ _ => trivial)
    refine .bind (Q := fun _ _ => True) (.done fun _ _ _ => trivial) (fun _ _ _ _ _ => ?_)
      (fun _ _ _ => trivial)
    refine .bind (checkTables_safe tables) (fun _ _ _ _ _ => ?_) (fun _ _ _ => trivial)
    refine .bind (query_some_safe permits_passive fun _ _ _ =>
        ⟨rfl, trivial, fun _ _ impossible => by cases impossible⟩) (fun _ _ _ _ _ => ?_)
      (fun _ _ _ => trivial)
    exact .bind (wait_safe permits_passive) (fun _ _ _ _ _ => .done fun _ _ _ => trivial)
      (fun _ _ _ => trivial)
  · intro e v _ _ _
    split_ifs <;> exact .done fun _ _ _ => trivial

/-- **Executing a unit.** -/
theorem executeUnit_safe {today : Date} {unit : IngestionUnit} {w : Cloud} :
    protocol.Safe Permits (fun _ _ => True) (executeUnit today unit) w := by
  have trivially : ∀ {α : Type} {result : Except Exn α} {u : Cloud},
      protocol.Safe Permits (fun _ _ => True) (Program.done result : Client α) u :=
    .done fun _ _ _ => trivial
  unfold executeUnit
  refine .bind (Q := fun _ _ => True) trivially (fun request _ _ _ _ => ?_) (fun _ _ _ => trivial)
  refine .bind (Q := fun _ _ => True) trivially (fun _ _ _ _ _ => ?_) (fun _ _ _ => trivial)
  refine .bind (Q := fun _ _ => True) ?_ (fun prior _ _ _ _ => ?_) (fun _ _ _ => trivial)
  · exact .tryCatch getRun_permitted (fun _ _ _ _ _ _ _ _ => trivial)
      (fun _ _ _ _ _ => trivially)
  · refine .bind (Q := fun _ _ => True) ?_ (fun manifest _ _ _ _ => ?_) (fun _ _ _ => trivial)
    · refine .tryCatch ingest_safe (fun _ _ _ _ _ _ _ _ => trivial) (fun e _ _ _ _ => ?_)
      refine .bind (Q := fun _ _ => True) ?_ (fun _ _ _ _ _ => trivially) (fun _ _ _ => trivial)
      refine .sequence getRun_permitted fun result _ _ _ _ => ?_
      match result with
      | .error _ | .ok none | .ok (some _) => exact trivially
    · split_ifs <;> exact trivially

end PowerMarket
