import PowerMarket.Warehouse.Linearization

/-!
# The warehouse on the job service

`Orderly` joins the tables and the job table: the tables are good, the jobs were submitted
under the identifiers of their scripts and as permitted, a run has committed exactly when its
commit job has ended without error, and its knowledge time is the end of that job. The ends of
commit jobs and the knowledge times follow the order of the sequence numbers, because a commit
needs the gate that the run before it releases only after the end of its own job was seen.

`protocol` collects this as the rules of the service (`Orderly.background`, `Orderly.act`).
-/

set_option autoImplicit false

namespace PowerMarket

open Library JobService

/-- The job service with the warehouse tables. -/
abbrev Cloud := World String Database Script Rows Exn UtcTime

/-- A later state of the service. -/
abbrev Future : Cloud → Cloud → Prop := World.Later bigQuery Precedes

theorem Future.refl (w : Cloud) : Future w w := World.Later.refl Precedes.refl w

theorem Future.trans {a b c : Cloud} (ab : Future a b) (bc : Future b c) : Future a c :=
  have compose : ∀ x y z, Precedes x y → Precedes y z → Precedes x z := fun _ _ _ => .trans
  World.Later.trans compose ab bc

variable [Platform]

/-! ## Scripts and their jobs -/

/-- The identifier that a script is submitted under, if it is a fixed one. -/
def Script.jobName : Script → Option String
  | .seedControl => some (jobId "bootstrap" "v1")
  | .beginRun run => some (jobId run.runId "begin")
  | .commit _ p => some (jobId p.runId "commit")
  | _ => none

/-- The commit job of a run has ended without error. -/
def CommitEnded (w : Cloud) (runId : String) (time : UtcTime) : Prop :=
  ∃ product p rows usage, p.runId = runId ∧
    w.jobs (.named (jobId runId "commit")) = some ⟨.commit product p, .ended (.ok rows) time usage⟩

/-- A script may be submitted: it is permitted, and a finalization uses the end of the commit
job, which has been seen. -/
def Submittable (w : Cloud) (script : Script) : Prop :=
  Permitted w.store script ∧ ∀ product p, script = .finalize product p →
    CommitEnded w p.runId p.knowledgeAt ∧ p.knowledgeAt ≤ w.clock

/-- The tables on which the job of a script may run. -/
def Ready (script : Script) (db : Database) : Prop := Good db ∧ Permitted db script

/-- The calls that the programs make. -/
def Permits (w : Cloud) : ClientCall → Prop
  | .query name script => name = script.jobName ∧ Submittable w script
  | _ => True

theorem CommitEnded.mono {w w' : Cloud} {runId : String} {time : UtcTime}
    (ended : CommitEnded w runId time) (progress : w.Progress w') : CommitEnded w' runId time := by
  obtain ⟨product, p, rows, usage, same, job⟩ := ended
  exact ⟨product, p, rows, usage, same, progress.ended job⟩

theorem CommitEnded.unique {w : Cloud} {runId : String} {time time' : UtcTime}
    (ended : CommitEnded w runId time) (ended' : CommitEnded w runId time') : time = time' := by
  obtain ⟨_, _, _, _, _, job⟩ := ended
  obtain ⟨_, _, _, _, _, job'⟩ := ended'
  rw [job] at job'
  cases job'
  rfl

theorem Planned.mono {a b : Database} {product : Product} {p : CommitParameters}
    (permitted : Planned a product p) (precedes : Precedes a b) : Planned b product p := by
  obtain ⟨product_eq, batched, seeded, earlier, read, planned, parameters, member, ofRun,
    ofRequest⟩ := permitted
  obtain ⟨row', member', progress⟩ := precedes.run member
  exact .intro product_eq batched seeded (earlier.trans precedes) read planned parameters
    member' (progress.runId.trans ofRun)
    ((congrArg (fun b => b.2.1) progress.binding).trans ofRequest)

theorem Permitted.mono {a b : Database} {script : Script} (permitted : Permitted a script)
    (precedes : Precedes a b) : Permitted b script := by
  cases script with
  | seedControl | getRun _ | snapshot _ _ | failure _ => trivial
  | beginRun run => exact permitted
  | commit product p => exact Planned.mono permitted precedes
  | finalize product p =>
      obtain ⟨row, member, ofRun, product_eq⟩ := permitted
      obtain ⟨row', member', progress⟩ := precedes.run member
      exact ⟨row', member', progress.runId.trans ofRun,
        (congrArg (fun b => b.2.2.1) progress.binding).trans product_eq⟩

theorem Submittable.mono {w w' : Cloud} {script : Script} (submittable : Submittable w script)
    (future : Future w w') : Submittable w' script :=
  ⟨submittable.1.mono future.before, fun product p same =>
    ⟨(submittable.2 product p same).1.mono future.progress,
      le_trans (submittable.2 product p same).2 future.progress.clock_le⟩⟩

/-! ## The invariant of the service -/

/-- The identifier of a job is the one of its script. -/
def Named (id : JobId String) (script : Script) : Prop :=
  match id with
  | .named name => script.jobName = some name
  | .generated _ => script.jobName = none

/-- What holds of the service at all times. -/
structure Orderly (w : Cloud) : Prop where
  good : Good w.store
  consistent : w.Consistent bigQuery Ready Precedes
  named : ∀ id job, w.jobs id = some job → Named id job.script
  submittable : ∀ id job, w.jobs id = some job → Submittable w job.script
  begun : ∀ row ∈ w.store.runs, ∃ run rows time usage,
    w.jobs (.named (jobId row.runId "begin")) = some ⟨.beginRun run, .ended (.ok rows) time usage⟩
  committed : ∀ row ∈ w.store.runs, row.status.hasCommitted = true →
    ∃ time, CommitEnded w row.runId time ∧ (row.status = .succeeded → row.knowledgeAt = some time) ∧
      ∀ other ∈ w.store.runs, other.status = .succeeded → ∀ n m, other.commitSequence = some n →
        row.commitSequence = some m → n < m → ∀ t, other.knowledgeAt = some t → t ≤ time
  known : ∀ row ∈ w.store.runs, ∀ t, row.knowledgeAt = some t → t ≤ w.clock

/-- A service in which the tables were just created and no job was submitted. -/
def Cloud.created (clock : UtcTime) : Cloud := ⟨clock, .created, 0, fun _ => none, 0⟩

theorem orderly_created (clock : UtcTime) : Orderly (Cloud.created clock) where
  good := good_created
  consistent := ⟨fun impossible => (by cases impossible), fun impossible => (by cases impossible),
    fun _ => rfl⟩
  named := fun _ _ impossible => by cases impossible
  submittable := fun _ _ impossible => by cases impossible
  begun := by simp [Cloud.created, Database.created]
  committed := by simp [Cloud.created, Database.created]
  known := by simp [Cloud.created, Database.created]

/-- A step that leaves the tables alone keeps the invariant. -/
theorem Orderly.idle {w w' : Cloud} (orderly : Orderly w) (future : Future w w')
    (store : w'.store = w.store) (consistent : w'.Consistent bigQuery Ready Precedes)
    (jobs : ∀ id job', w'.jobs id = some job' → (∃ job, w.jobs id = some job ∧
      job.script = job'.script) ∨ Named id job'.script ∧ Submittable w job'.script) :
    Orderly w' := by
  have progress := future.progress
  refine ⟨store ▸ orderly.good, consistent, fun id job' recorded => ?_,
    fun id job' recorded => ?_, fun row member => ?_, fun row member committed => ?_,
    fun row member t known => ?_⟩
  · rcases jobs id job' recorded with ⟨job, before, same⟩ | ⟨named, _⟩
    · exact same ▸ orderly.named id job before
    · exact named
  · rcases jobs id job' recorded with ⟨job, before, same⟩ | ⟨_, submittable⟩
    · exact same ▸ (orderly.submittable id job before).mono future
    · exact submittable.mono future
  · rw [store] at member
    obtain ⟨run, rows, time, usage, job⟩ := orderly.begun row member
    exact ⟨run, rows, time, usage, progress.ended job⟩
  · rw [store] at member ⊢
    obtain ⟨time, ended, knowledge, order⟩ := orderly.committed row member committed
    exact ⟨time, ended.mono progress, knowledge, order⟩
  · rw [store] at member
    exact le_trans (orderly.known row member t known) progress.clock_le

/-- **What a client call does.** -/
theorem Orderly.act {w w' : Cloud} (orderly : Orderly w) {c : ClientCall}
    {reply : Except Exn (ClientAnswer c)} (permits : Permits w c)
    (acted : JobService.act c w reply w') : Orderly w' ∧ Future w w' := by
  rcases act_cases acted with rfl | ⟨name, script, rfl, unused, rfl⟩
  · exact ⟨orderly, .refl _⟩
  · obtain ⟨name_eq, submittable⟩ := permits
    have future : Future w (w.submit (w.submissionId name) script) := by
      refine ⟨.refl _, .submit unused, fun {id job job'} recorded recorded' => ?_⟩
      have differs : id ≠ w.submissionId name := fun same => by
        rw [same, unused] at recorded
        cases recorded
      rw [World.submit_ne _ _ differs, recorded] at recorded'
      cases recorded'
      exact .same
    refine ⟨orderly.idle future rfl (orderly.consistent.submit script fun n same => ?_)
      fun id job' recorded => ?_, future⟩
    · cases name with
      | none => cases same; rfl
      | some name => cases same
    · by_cases here : id = w.submissionId name
      · subst here
        rw [World.submit_self] at recorded
        cases recorded
        refine .inr ⟨?_, submittable⟩
        cases name with
        | none => exact name_eq.symm
        | some name => exact name_eq.symm
      · rw [World.submit_ne _ _ here] at recorded
        exact .inl ⟨job', recorded, rfl⟩

/-- The job that is about to take effect, and the job table after it. -/
structure TakesEffect (w w' : Cloud) (id : JobId String) (script : Script) (rows : Rows)
    (time : UtcTime) (usage : Usage) : Prop where
  running : ∃ started, w.jobs id = some ⟨script, .running w.store w.version started⟩
  later : w.clock ≤ time
  clock : w'.clock = w.clock
  named : Named id script
  submittable : Submittable w script
  effect : Effect w.store script w'.store
  future : Future w w'
  jobs : w'.jobs = Function.update w.jobs id (some ⟨script, .ended (.ok rows) time usage⟩)

namespace TakesEffect

variable {w w' : Cloud} {id : JobId String} {script : Script} {rows : Rows} {time : UtcTime}
  {usage : Usage}

/-- The job has ended with its rows. -/
theorem self (takes : TakesEffect w w' id script rows time usage) :
    w'.jobs id = some ⟨script, .ended (.ok rows) time usage⟩ := by
  rw [takes.jobs, Function.update_self]

/-- The jobs after the effect have the scripts of the jobs before it. -/
theorem scripts (takes : TakesEffect w w' id script rows time usage) (orderly : Orderly w) :
    ∀ id' job', w'.jobs id' = some job' → Named id' job'.script ∧ Submittable w job'.script := by
  intro id' job' recorded
  rw [takes.jobs] at recorded
  by_cases here : id' = id
  · subst here
    rw [Function.update_self] at recorded
    cases recorded
    exact ⟨takes.named, takes.submittable⟩
  · rw [Function.update_of_ne here] at recorded
    exact ⟨orderly.named id' job' recorded, orderly.submittable id' job' recorded⟩

/-- A run that has succeeded after the effect had done so before, or has just been finalized. -/
theorem succeeded (takes : TakesEffect w w' id script rows time usage) (orderly : Orderly w) :
    ∀ other ∈ w'.store.runs, other.status = .succeeded →
      other ∈ w.store.runs ∨ ∃ c, Seeded w.store c ∧ c.activeRunId ≠ none ∧
        other.commitSequence = some c.sequence := by
  intro other member done
  have from_ := takes.effect.origin orderly.good.unique other member
  generalize script = s at from_
  cases from_ with
  | kept before => exact .inl before
  | begun now => cases done
  | committed before seeded ofRun started current free => cases done
  | @finalized c product p row₀ now before seeded ofRun committed gate =>
      obtain ⟨sound, _⟩ := orderly.good.of_seeded seeded
      exact .inr ⟨c, seeded, by simp [gate], sound.newest row₀ before committed⟩
  | failed now before ofRun started opened => cases done

/-- Every run after the effect was begun by its job. -/
theorem begun (takes : TakesEffect w w' id script rows time usage) (orderly : Orderly w) :
    ∀ row ∈ w'.store.runs, ∃ run rows time usage, w'.jobs (.named (jobId row.runId "begin")) =
      some ⟨.beginRun run, .ended (.ok rows) time usage⟩ := by
  intro row member
  have from_ := takes.effect.origin orderly.good.unique row member
  have self := takes.self
  have named := takes.named
  have kept : ∀ row ∈ w.store.runs, ∃ run rows time usage,
      w'.jobs (.named (jobId row.runId "begin")) =
        some ⟨.beginRun run, .ended (.ok rows) time usage⟩ := by
    intro row member
    obtain ⟨run, rows, time, usage, job⟩ := orderly.begun row member
    exact ⟨run, rows, time, usage, takes.future.progress.ended job⟩
  cases from_ with
  | kept before => exact kept row before
  | @begun run now =>
      refine ⟨run, rows, time, usage, ?_⟩
      cases id with
      | named name =>
          cases named
          exact self
      | generated n => cases named
  | @committed c product p row₀ before seeded ofRun started current free => exact kept row₀ before
  | @finalized c product p row₀ now before seeded ofRun committed gate => exact kept row₀ before
  | @failed p row₀ now before ofRun started opened => exact kept row₀ before

/-- A run that had committed before keeps its job, and no run with a smaller number has finished
since. -/
theorem committed_before (takes : TakesEffect w w' id script rows time usage)
    (orderly : Orderly w) {row : RunRow} (member : row ∈ w.store.runs)
    (committed : row.status.hasCommitted = true) :
    ∃ time, CommitEnded w' row.runId time ∧
      (row.status = .succeeded → row.knowledgeAt = some time) ∧
      ∀ other ∈ w'.store.runs, other.status = .succeeded → ∀ n m,
        other.commitSequence = some n → row.commitSequence = some m → n < m →
        ∀ t, other.knowledgeAt = some t → t ≤ time := by
  obtain ⟨time₀, ended, knowledge, order⟩ := orderly.committed row member committed
  refine ⟨time₀, ended.mono takes.future.progress, knowledge, ?_⟩
  intro other at_other done n m number number' less t clock
  rcases takes.succeeded orderly other at_other done with before | ⟨c, seeded, _, last⟩
  · exact order other before done n m number number' less t clock
  · obtain ⟨sound, _⟩ := orderly.good.of_seeded seeded
    obtain ⟨k, bound, at_k⟩ := sound.numbered row member committed
    rw [number'] at at_k
    rw [last] at number
    cases at_k
    cases number
    omega

/-- Every run that has committed after the effect has a commit job that ended with its knowledge
time, and later than the runs with a smaller number were finished. -/
theorem committed (takes : TakesEffect w w' id script rows time usage) (orderly : Orderly w) :
    ∀ row ∈ w'.store.runs, row.status.hasCommitted = true →
      ∃ time, CommitEnded w' row.runId time ∧
        (row.status = .succeeded → row.knowledgeAt = some time) ∧
        ∀ other ∈ w'.store.runs, other.status = .succeeded → ∀ n m,
          other.commitSequence = some n → row.commitSequence = some m → n < m →
          ∀ t, other.knowledgeAt = some t → t ≤ time := by
  intro row member committed
  have from_ := takes.effect.origin orderly.good.unique row member
  have self := takes.self
  have named := takes.named
  have submittable := takes.submittable
  have succeeded := takes.succeeded orderly
  cases from_ with
  | kept before => exact takes.committed_before orderly before committed
  | begun now => cases committed
  | @committed c product p row₀ member₀ seeded ofRun started current free =>
      refine ⟨time, ?_, fun impossible => (by cases impossible), ?_⟩
      · refine ⟨product, p, rows, usage, ofRun.symm, ?_⟩
        cases id with
        | named name =>
            cases named
            rw [RunRow.commit, ofRun]
            exact self
        | generated n => cases named
      · intro other at_other done n m number _ less t clock
        rcases succeeded other at_other done with before | ⟨c', seeded', held, _⟩
        · exact le_trans (orderly.known other before t clock) takes.later
        · rw [← seeded.control_unique seeded' rfl] at held
          exact absurd free held
  | @finalized c product p row₀ now member₀ seeded ofRun committed₀ gate =>
      obtain ⟨time₀, ended, _, order⟩ :=
        takes.committed_before orderly member₀ (by rw [committed₀]; rfl)
      refine ⟨time₀, ended, fun _ => ?_, order⟩
      obtain ⟨ended', _⟩ := submittable.2 product p rfl
      rw [← ofRun] at ended'
      exact congrArg some ((ended'.mono takes.future.progress).unique ended)
  | failed now before ofRun started opened => cases committed

/-- No knowledge time is later than the clock. -/
theorem known (takes : TakesEffect w w' id script rows time usage) (orderly : Orderly w) :
    ∀ row ∈ w'.store.runs, ∀ t, row.knowledgeAt = some t → t ≤ w'.clock := by
  intro row member t clock
  have from_ := takes.effect.origin orderly.good.unique row member
  have submittable := takes.submittable
  rw [takes.clock]
  cases from_ with
  | kept before => exact orderly.known row before t clock
  | begun now => cases clock
  | committed before seeded ofRun started current free => exact orderly.known _ before t clock
  | finalized now before seeded ofRun committed gate =>
      cases clock
      exact (submittable.2 _ _ rfl).2
  | failed now before ofRun started opened => exact orderly.known _ before t clock

/-- The service keeps its invariant when a job takes effect. -/
theorem orderly (takes : TakesEffect w w' id script rows time usage) (orderly : Orderly w)
    (good : Good w'.store) (consistent : w'.Consistent bigQuery Ready Precedes) : Orderly w' where
  good := good
  consistent := consistent
  named id' job' recorded := (takes.scripts orderly id' job' recorded).1
  submittable id' job' recorded := (takes.scripts orderly id' job' recorded).2.mono takes.future
  begun := takes.begun orderly
  committed := takes.committed orderly
  known := takes.known orderly

end TakesEffect

/-- **What the service does by itself**: a job takes effect, or the tables stay as they are. -/
theorem Orderly.background {w w' : Cloud} (orderly : Orderly w)
    (step : Background bigQuery w w') : Orderly w' ∧ Future w w' ∧
      (w'.store = w.store ∨
        ∃ id script rows time usage, TakesEffect w w' id script rows time usage) := by
  have progress := step.progress
  rcases step.effect orderly.consistent with ⟨store, version⟩ |
    ⟨id, script, started, rows, time, usage, running, _, later, executed, clock, version, issued,
      jobs⟩
  · have consistent := step.consistent_of_idle .refl
      (fun recorded => ⟨orderly.good, (orderly.submittable _ _ recorded).1⟩)
      orderly.consistent store version
    have future : Future w w' :=
      ⟨store ▸ .refl _, progress, fun recorded recorded' =>
        step.advances Precedes.refl recorded recorded'⟩
    exact ⟨orderly.idle future store consistent fun id job' recorded =>
      .inl (step.scripts recorded), future, .inl store⟩
  · have submittable : Submittable w script := orderly.submittable id _ running
    obtain ⟨good, precedes⟩ := orderly.good.execute submittable.1 executed
    have future : Future w w' :=
      ⟨precedes, progress, fun recorded recorded' =>
        step.advances Precedes.refl recorded recorded'⟩
    have consistent : w'.Consistent bigQuery Ready Precedes :=
      orderly.consistent.install .refl .trans ⟨orderly.good, submittable.1⟩ running executed
        version jobs issued precedes
    have takes : TakesEffect w w' id script rows time usage :=
      ⟨⟨started, running⟩, later, clock, orderly.named id _ running, submittable,
        orderly.good.effect executed, future, jobs⟩
    exact ⟨takes.orderly orderly good consistent, future, .inr ⟨_, _, _, _, _, takes⟩⟩

/-- The query service and its clients. -/
abbrev cloudService : Library.Service Cloud ClientCall ClientAnswer Exn :=
  JobService.service bigQuery

/-- The rules of the service. -/
def protocol : Protocol cloudService where
  Inv := Orderly
  Future := Future
  permits := Permits
  refl := .refl
  trans := .trans
  act_step orderly permits acted := orderly.act permits acted
  background_step orderly step :=
    have ⟨orderly', future, _⟩ := orderly.background step
    ⟨orderly', future⟩

end PowerMarket
