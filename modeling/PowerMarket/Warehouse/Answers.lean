import PowerMarket.Warehouse.Service

/-!
# Programs whose calls are answered

What the programs of the client do when every call is answered at once and nobody else acts
(`runNow`). A job without an identifier runs its script on the current tables (`runNow_job`), so
that each program is followed by rewriting with one lemma for each of its parts. Between the
parts only the tables, the jobs with an identifier and the clock matter (`Ran`).
-/

set_option autoImplicit false

namespace PowerMarket

open Library JobService

/-- The service and the source answer at once. -/
abbrev answer (outside : (request : Outside) → Except Exn request.Reply) (c : ClientCall)
    (w : Cloud) : Except Exn (ClientAnswer c) × Cloud :=
  respond bigQuery outside c w

/-- What a program returns and leaves when every call is answered at once. -/
abbrev runNow {α : Type} (outside : (request : Outside) → Except Exn request.Reply)
    (program : Client α) (w : Cloud) : Except Exn α × Cloud :=
  Program.runIn (answer outside) program w

/-- A source that answers every request with its records. Ingesting asks for nothing else. -/
def fetching (source : Request → List Observation) : (request : Outside) → Except Exn request.Reply
  | .fetch request => .ok (source request)
  | .createDataset => .error (.new .other "not asked")
  | .createTable _ => .error (.new .other "not asked")

/-- The world after jobs without an identifier have run and have left these tables. -/
structure Ran (w w' : Cloud) (store : Database) : Prop where
  store_eq : w'.store = store
  clock_le : w.clock ≤ w'.clock
  named : ∀ name, w'.jobs (.named name) = w.jobs (.named name)
  fresh : w'.Fresh

theorem Ran.trans {a b c : Cloud} {store store' : Database} (ab : Ran a b store)
    (bc : Ran b c store') : Ran a c store' :=
  ⟨bc.store_eq, le_trans ab.clock_le bc.clock_le, fun name => (bc.named name).trans (ab.named name),
    bc.fresh⟩

section RunNow

variable {α : Type} (outside : (request : Outside) → Except Exn request.Reply) {w : Cloud}

/-! ## Jobs -/

theorem runNow_query {script : Script} :
    runNow outside (query script none) w =
      (.ok (.generated w.issued), w.submit (.generated w.issued) script) :=
  Program.runIn_tryCatch_ok _ rfl

/-- The world after a job ended now. -/
def endNow (w : Cloud) (id : JobId String) (script : Script) (store : Database)
    (outcome : Except Exn Rows) : Cloud :=
  (w.install bigQuery script store).setJob id ⟨script, .ended outcome w.clock ⟨none, none⟩⟩

theorem endNow_store {id : JobId String} {script : Script} {time : UtcTime} {store : Database}
    {rows : Rows} (executed : script.execute time w.store = .ok (store, rows)) :
    (endNow w id script store (.ok rows)).store = store := by
  by_cases writes : script.writes = true
  · rw [endNow, World.install_of_writes (E := bigQuery) w store writes]
    rfl
  · have reads : bigQuery.writes script = false := Bool.eq_false_of_not_eq_true writes
    rw [endNow, World.install_of_reads w store reads]
    exact (bigQuery.reads_only reads executed).symm

/-- Waiting for a job that was just submitted, when its script succeeds. -/
theorem runNow_wait_ok {id : JobId String} {script : Script} {store : Database} {rows : Rows}
    (waiting : w.jobs id = some ⟨script, .pending⟩)
    (executed : script.execute w.clock w.store = .ok (store, rows)) :
    runNow outside (wait id) w = (.ok ⟨some rows, true, false, some w.clock, ⟨none, none⟩⟩,
      endNow w id script store (.ok rows)) := by
  have settled : settle bigQuery w id = endNow w id script store (.ok rows) := by
    have run : bigQuery.execute script w.clock w.store = .ok (store, rows) := executed
    simp only [settle, waiting, conclude, run]
    rfl
  have ended : (endNow w id script store (.ok rows)).jobs id =
      some ⟨script, .ended (.ok rows) w.clock ⟨none, none⟩⟩ := World.setJob_self ..
  simp only [wait, call, Program.perform, runNow, Program.runIn_call, Program.runIn_done, answer,
    respond, settled, ended]

/-- Waiting for a job that runs on the current tables, when its script succeeds. -/
theorem runNow_wait_running {id : JobId String} {script : Script} {started : UtcTime}
    {store : Database} {rows : Rows}
    (running : w.jobs id = some ⟨script, .running w.store w.version started⟩)
    (executed : script.execute started w.store = .ok (store, rows)) :
    runNow outside (wait id) w = (.ok ⟨some rows, true, false, some w.clock, ⟨none, none⟩⟩,
      endNow w id script store (.ok rows)) := by
  have settled : settle bigQuery w id = endNow w id script store (.ok rows) := by
    have run : bigQuery.execute script started w.store = .ok (store, rows) := executed
    have current : ¬ (bigQuery.writes script = true ∧ w.version ≠ w.version) :=
      fun stale => stale.2 rfl
    simp only [settle, running, if_neg current, conclude, run]
    rfl
  have ended : (endNow w id script store (.ok rows)).jobs id =
      some ⟨script, .ended (.ok rows) w.clock ⟨none, none⟩⟩ := World.setJob_self ..
  simp only [wait, call, Program.perform, runNow, Program.runIn_call, Program.runIn_done, answer,
    respond, settled, ended]

/-- Waiting for a job whose snapshot is stale. -/
theorem runNow_wait_stale {id : JobId String} {script : Script} {snapshot : Database}
    {version : Nat} {started : UtcTime}
    (running : w.jobs id = some ⟨script, .running snapshot version started⟩)
    (writes : script.writes = true) (stale : version ≠ w.version) :
    runNow outside (wait id) w = (.error bigQuery.conflictingUpdate,
      w.setJob id ⟨script, .ended (.error bigQuery.conflictingUpdate) w.clock ⟨none, none⟩⟩) := by
  have both : bigQuery.writes script = true ∧ version ≠ w.version := ⟨writes, stale⟩
  simp only [wait, call, Program.perform, runNow, Program.runIn_call, Program.runIn_done, answer,
    respond, settle, running, if_pos both, World.setJob_self]

theorem runNow_wait_failed {id : JobId String} {script : Script} {e : Exn} {time : UtcTime}
    {usage : Usage} (ended : w.jobs id = some ⟨script, .ended (.error e) time usage⟩) :
    runNow outside (wait id) w = (.error e, { w with clock := max w.clock time }) := by
  have settled : settle bigQuery w id = { w with clock := max w.clock time } := by
    simp only [settle, ended]
  simp only [wait, call, Program.perform, runNow, Program.runIn_call, Program.runIn_done, answer,
    respond, settled, ended]

theorem runNow_query_new {script : Script} {name : String} (unused : w.jobs (.named name) = none) :
    runNow outside (query script (some name)) w =
      (.ok (.named name), w.submit (.named name) script) := by
  refine Program.runIn_tryCatch_ok _ ?_
  simp only [call, Program.perform, Program.runIn_call, Program.runIn_done, answer, respond,
    unused, Option.isSome_none, Bool.false_eq_true, ↓reduceIte]

theorem runNow_query_used {script : Script} {name : String}
    (used : (w.jobs (.named name)).isSome = true) :
    runNow outside (query script (some name)) w = (.ok (.named name), w) := by
  have conflict : runNow outside (call (.query (some name) script)) w =
      (.error bigQuery.alreadyExists, w) := by
    simp only [call, Program.perform, runNow, Program.runIn_call, Program.runIn_done, answer,
      respond, used, ↓reduceIte]
  have found : runNow outside (call (.getJob name)) w = (.ok (.named name), w) := by
    simp only [call, Program.perform, runNow, Program.runIn_call, Program.runIn_done, answer,
      respond, used, ↓reduceIte]
  refine (Program.runIn_tryCatch_error _ conflict).trans ?_
  exact found

/-- A submission under an identifier gives its job, be it a new one or the one that is there. -/
theorem runNow_query_some (script : Script) (name : String) :
    ∃ w', runNow outside (query script (some name)) w = (.ok (.named name), w') ∧
      w'.store = w.store ∧ w'.version = w.version ∧ (w.Fresh → w'.Fresh) ∧
      w'.jobs (.named name) = (w.jobs (.named name)).or (some ⟨script, .pending⟩) := by
  cases used : w.jobs (.named name) with
  | none =>
      refine ⟨w.submit (.named name) script, runNow_query_new outside used, rfl, rfl,
        fun fresh n bound => ?_, World.submit_self ..⟩
      rw [World.submit_ne _ _ (by simp)]
      exact fresh n bound
  | some job => exact ⟨w, runNow_query_used outside (by rw [used]; rfl), rfl, rfl, id, used⟩

/-- Waiting for a job that has ended without error. -/
theorem runNow_wait_ended {id : JobId String} {script : Script} {rows : Rows} {time : UtcTime}
    {usage : Usage} (ended : w.jobs id = some ⟨script, .ended (.ok rows) time usage⟩) :
    runNow outside (wait id) w =
      (.ok ⟨some rows, true, false, some time, usage⟩, { w with clock := max w.clock time }) := by
  have settled : settle bigQuery w id = { w with clock := max w.clock time } := by
    simp only [settle, ended]
  simp only [wait, call, Program.perform, runNow, Program.runIn_call, Program.runIn_done, answer,
    respond, settled, ended]

/-- **A job without an identifier** runs its script on the current tables. -/
theorem runNow_job {script : Script} {store : Database} {rows : Rows} (fresh : w.Fresh)
    (executed : script.execute w.clock w.store = .ok (store, rows)) :
    ∃ view w', view.rows = some rows ∧ Ran w w' store ∧ ∀ rest : JobView → Client α,
      runNow outside (query script none >>= fun job => wait job >>= rest) w =
        runNow outside (rest view) w' := by
  let asked := w.submit (.generated w.issued) script
  have waiting : asked.jobs (.generated w.issued) = some ⟨script, .pending⟩ :=
    World.submit_self ..
  refine ⟨⟨some rows, true, false, some w.clock, ⟨none, none⟩⟩,
    endNow asked (.generated w.issued) script store (.ok rows), rfl, ?_, fun rest => ?_⟩
  · refine ⟨endNow_store executed, ?_, fun name => ?_, fun n bound => ?_⟩
    · rw [endNow, World.setJob_clock, World.install_clock]
      exact le_refl _
    · rw [endNow, World.setJob_ne _ _ (by simp), World.install_jobs,
        World.submit_ne _ _ (by simp)]
    · have issued : w.issued + 1 ≤ n := by
        have same : (endNow asked (.generated w.issued) script store (.ok rows)).issued =
            w.issued + 1 := by
          rw [endNow, World.setJob_issued, World.install_issued]
          rfl
        omega
      have differs : JobId.generated n ≠ (JobId.generated w.issued : JobId String) := by
        simp only [ne_eq, JobId.generated.injEq]
        omega
      rw [endNow, World.setJob_ne _ _ differs, World.install_jobs, World.submit_ne _ _ differs]
      exact fresh n (by omega)
  · rw [runNow, Program.runIn_bind_ok _ (runNow_query outside),
      Program.runIn_bind_ok _ (runNow_wait_ok outside waiting executed)]
    rfl

/-! ## Manifests -/

/-- **Reading a manifest** gives the manifest of the current tables. -/
theorem runNow_getRun {runId : String} {found : Option RunRow} (fresh : w.Fresh)
    (valid : isRunId runId = true) (rows : runRows w.store runId = found.toList) :
    ∃ w', Ran w w' w.store ∧ runNow outside (getRun runId) w = (.ok found, w') := by
  have executed : (Script.getRun runId).execute w.clock w.store =
      .ok (w.store, .runs (runRows w.store runId)) := rfl
  obtain ⟨view, w', view_rows, ran, continues⟩ := runNow_job outside fresh executed
  refine ⟨w', ran, ?_⟩
  have checked : runNow outside (Program.ofExcept (validateRunId runId)) w = (.ok runId, w) := by
    rw [validateRunId_ok valid]
    rfl
  rw [runNow, getRun, Program.runIn_bind_ok _ checked]
  refine (continues _).trans ?_
  have manifests : manifestRows view = found.toList := by
    rw [manifestRows, view_rows, rows]
  rw [manifests]
  cases found <;> rfl

variable [Platform]

theorem runNow_commitJob {runId : String}
    (known : (w.jobs (.named (jobId runId "commit"))).isSome = true) :
    runNow outside (commitJob runId) w = (.ok (some (.named (jobId runId "commit"))), w) := by
  have found : runNow outside (call (.getJob (jobId runId "commit"))) w =
      (.ok (.named (jobId runId "commit")), w) := by
    simp only [call, Program.perform, runNow, Program.runIn_call, Program.runIn_done, answer,
      respond, known, ↓reduceIte]
  refine Program.runIn_tryCatch_ok _ ?_
  exact Program.runIn_bind_ok _ found

end RunNow

end PowerMarket
