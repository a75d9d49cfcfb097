import PowerMarket.Creation
import PowerMarket.GateRelease
import PowerMarket.Warehouse.Ledger

/-!
# Ingestion without interruptions

What ingesting a request does when every call is answered at once and nobody else acts. A run that
was not begun, or was begun for the request and has no commit job, is brought to success, and the
ledger accepts its records (`runNow_ingest_new`). A run that has succeeded is only read again
(`runNow_ingest_again`). The other runs, their jobs and the gate are as before (`Ingests`).
-/

set_option autoImplicit false

namespace PowerMarket

open Library JobService

/-! ## Jobs with an identifier -/

/-- The world after jobs without an identifier and jobs under these have run and have left these
tables. -/
structure RanNamed (names : List String) (w w' : Cloud) (store : Database) : Prop where
  store_eq : w'.store = store
  others : ∀ name, name ∉ names → w'.jobs (.named name) = w.jobs (.named name)
  fresh : w'.Fresh

section RanNamed

variable {names names' : List String} {a b c : Cloud} {store store' : Database}

theorem Ran.ranNamed (ran : Ran a b store) : RanNamed names a b store :=
  ⟨ran.store_eq, fun name _ => ran.named name, ran.fresh⟩

theorem RanNamed.trans (ab : RanNamed names a b store) (bc : RanNamed names b c store') :
    RanNamed names a c store' :=
  ⟨bc.store_eq, fun name other => (bc.others name other).trans (ab.others name other), bc.fresh⟩

end RanNamed

section Jobs

variable (outside : (request : Outside) → Except Exn request.Reply) {w : Cloud} {name : String}
  {script : Script} {store : Database} {rows : Rows}

theorem ranNamed_submit (fresh : w.Fresh) :
    RanNamed [name] w (w.submit (.named name) script) w.store := by
  refine ⟨rfl, fun other differs => World.submit_ne _ _ ?_, fun n bound => ?_⟩
  · simpa using differs
  · rw [World.submit_ne _ _ (by simp)]
    exact fresh n bound

theorem ranNamed_endNow (fresh : w.Fresh)
    (executed : script.execute w.clock w.store = .ok (store, rows)) :
    RanNamed [name] w (endNow w (.named name) script store (.ok rows)) store := by
  refine ⟨endNow_store executed, fun other differs => ?_, endNow_fresh fresh⟩
  rw [endNow, World.setJob_ne _ _ (by simpa using differs), World.install_jobs]

/-- Waiting for a waiting job under an identifier. -/
theorem runNow_wait_named (fresh : w.Fresh)
    (waiting : w.jobs (.named name) = some ⟨script, .pending⟩)
    (executed : script.execute w.clock w.store = .ok (store, rows)) :
    ∃ w', runNow outside (wait (.named name)) w =
        (.ok ⟨some rows, true, false, some w.clock, ⟨none, none⟩⟩, w') ∧
      RanNamed [name] w w' store :=
  ⟨_, runNow_wait_ok outside waiting executed, ranNamed_endNow fresh executed⟩

end Jobs

variable [Platform] (outside : (request : Outside) → Except Exn request.Reply) {w : Cloud}
  {runId : String} {request : Request} {row : RunRow} {c : ControlRow}

/-! ## Beginning a run -/

omit [Platform] in
theorem runNow_getRun_some (fresh : w.Fresh) (valid : isRunId runId = true)
    (atRow : runRows w.store runId = [row]) :
    ∃ w', Ran w w' w.store ∧ runNow outside (getRun runId) w = (.ok (some row), w') := by
  have rows : runRows w.store runId = (some row).toList := atRow
  exact runNow_getRun outside fresh valid rows

/-- **Beginning a run** for the first time. -/
theorem runNow_begin_new (fresh : w.Fresh) (valid : isRunId runId = true)
    (seeded : Seeded w.store c) (absent : ∀ row ∈ w.store.runs, row.runId ≠ runId)
    (unused : w.jobs (.named (jobId runId "begin")) = none) :
    ∃ t w', runNow outside (begin request runId) w = (.ok ((newRun request runId).row t), w') ∧
      RanNamed [jobId runId "begin"] w w' (withRun w.store ((newRun request runId).row t)) := by
  obtain ⟨w₂, waited, ran₂⟩ := runNow_wait_named outside
    (w := w.submit (.named (jobId runId "begin")) (.beginRun (newRun request runId)))
    (ranNamed_submit fresh).fresh (World.submit_self ..) (executes_begin seeded absent w.clock)
  have atRow : runRows w₂.store runId = [(newRun request runId).row w.clock] := by
    rw [ran₂.store_eq]
    exact runRows_withRun absent
  obtain ⟨w₃, ran₃, read⟩ := runNow_getRun_some outside ran₂.fresh valid atRow
  refine ⟨w.clock, w₃, ?_, ?_⟩
  · rw [runNow, begin, validateRunId_ok valid, Program.runIn_bind_ok _ rfl,
      Program.runIn_bind_ok _ (runNow_query_new outside unused), Program.runIn_bind_ok _ waited,
      Program.runIn_bind_ok _ read]
    have bound : ((newRun request runId).row w.clock).requestId = request.requestId := rfl
    simp only [bound, ne_eq, not_true_eq_false, ↓reduceIte]
    rfl
  · rw [ran₂.store_eq] at ran₃
    exact (ranNamed_submit fresh).trans (ran₂.trans ran₃.ranNamed)

/-- **Beginning a run again** for its request. -/
theorem runNow_begin_again (orderly : Orderly w) (member : row ∈ w.store.runs)
    (bound : row.requestId = request.requestId) :
    ∃ w', runNow outside (begin request row.runId) w = (.ok row, w') ∧
      RanNamed [] w w' w.store := by
  have fresh : w.Fresh := fun n bound => orderly.consistent.fresh bound
  obtain ⟨run, rows, time, usage, job⟩ := orderly.begun row member
  have used : (w.jobs (.named (jobId row.runId "begin"))).isSome = true := by rw [job]; rfl
  obtain ⟨c, sound⟩ := orderly.good.sound member
  have valid := sound.valid row member
  let w₁ : Cloud := { w with clock := max w.clock time }
  have ran₁ : RanNamed [] w w₁ w.store := ⟨rfl, fun _ _ => rfl, fresh⟩
  have waited : runNow outside (wait (.named (jobId row.runId "begin"))) w = (_, w₁) :=
    runNow_wait_ended outside job
  obtain ⟨w₂, ran₂, read⟩ := runNow_getRun_some outside ran₁.fresh valid
    (runRows_eq sound.unique member)
  refine ⟨w₂, ?_, ran₁.trans ran₂.ranNamed⟩
  rw [runNow, begin, validateRunId_ok valid, Program.runIn_bind_ok _ rfl,
    Program.runIn_bind_ok _ (runNow_query_used outside used), Program.runIn_bind_ok _ waited,
    Program.runIn_bind_ok _ read]
  simp only [bound, ne_eq, not_true_eq_false, ↓reduceIte]
  rfl

/-! ## Reconciling a run -/

theorem runNow_commitJob_none (unused : w.jobs (.named (jobId runId "commit")) = none) :
    runNow outside (commitJob runId) w = (.ok none, w) := by
  have missing : runNow outside (call (.getJob (jobId runId "commit"))) w =
      (.error bigQuery.notFound, w) := by
    simp only [call, Program.perform, runNow, Program.runIn_call, Program.runIn_done, answer,
      respond, unused, Option.isSome_none, Bool.false_eq_true, ↓reduceIte]
  refine (Program.runIn_tryCatch_error _ (Program.runIn_bind_error _ missing)).trans ?_
  rfl

/-- Reconciling a started run without a commit job finds nothing to do. -/
theorem runNow_reconcile_open (fresh : w.Fresh) (valid : isRunId runId = true)
    (atRow : runRows w.store runId = [row]) (started : row.status = .started)
    (unused : w.jobs (.named (jobId runId "commit")) = none) :
    ∃ w', Ran w w' w.store ∧ runNow outside (reconcile runId) w = (.ok none, w') := by
  obtain ⟨w', ran, read⟩ := runNow_getRun_some outside fresh valid atRow
  refine ⟨w', ran, ?_⟩
  rw [runNow, reconcile, Program.runIn_bind_ok _ read]
  simp only [started]
  have none_found := runNow_commitJob_none outside ((ran.named _).trans unused)
  rw [Program.runIn_bind_ok _ none_found]
  rfl

theorem runNow_reconcile_done (fresh : w.Fresh) (valid : isRunId runId = true)
    (atRow : runRows w.store runId = [row]) (succeeded : row.status = .succeeded) :
    ∃ w', Ran w w' w.store ∧ runNow outside (reconcile runId) w = (.ok (some row), w') := by
  obtain ⟨w', ran, read⟩ := runNow_getRun_some outside fresh valid atRow
  refine ⟨w', ran, ?_⟩
  rw [runNow, reconcile, Program.runIn_bind_ok _ read]
  simp only [succeeded]
  rfl

/-! ## Persisting records -/

/-- **Planning** on the current tables. -/
theorem runNow_plan {records : List Observation} {writes : WritePlan} (fresh : w.Fresh)
    (planned : planOn runId request records w.store = .ok writes) :
    ∃ w', Ran w w' w.store ∧ runNow outside (plan request records runId) w = (.ok writes, w') := by
  obtain ⟨batch, batched, rest⟩ := bind_eq_ok.mp planned
  obtain ⟨current, reading, written⟩ := bind_eq_ok.mp rest
  have executed : (Script.snapshot request.product request.day).execute w.clock w.store =
      .ok (w.store, .snapshot (snapshotQuery request.product request.day w.store)) := rfl
  obtain ⟨view, w', view_rows, ran, continues⟩ := runNow_job outside fresh executed
  refine ⟨w', ran, ?_⟩
  have read : runNow outside (snapshot request) w = (.ok current, w') := by
    refine (continues _).trans ?_
    rw [snapshotRows, view_rows]
    exact congrArg (·, w') reading
  have checked : runNow outside (Program.ofExcept (batchRows request records)) w =
      (.ok batch, w) := congrArg (·, w) batched
  rw [runNow, plan, Program.runIn_bind_ok _ checked, Program.runIn_bind_ok _ read]
  exact congrArg (·, w') written

/-- What is left when a started run was committed and finalized. -/
def acceptedTables (product : Product) (writes : WritePlan) (row : RunRow) (time now : UtcTime)
    (c : ControlRow) (db : Database) : Database :=
  finalizedDatabase row.product ⟨row.runId, time, none, none⟩ now (c.take row.runId)
    (committedDatabase product (commitParameters row.runId writes) c db)

/-- The manifest of a run that was committed and finalized. -/
def acceptedRow (writes : WritePlan) (row : RunRow) (time now : UtcTime) : RunRow :=
  (row.commit (commitParameters row.runId writes)).succeed ⟨row.runId, time, none, none⟩ now

section Tables

variable {db : Database} {product : Product} {writes : WritePlan}

/-- The commit of a started run replaces its manifest. -/
theorem committed_replaces (product : Product) (writes : WritePlan) (c : ControlRow)
    (unique : UniqueRuns db) (member : row ∈ db.runs) :
    Replaces db.runs
      (committedDatabase product (commitParameters row.runId writes) c db).runs row
      (row.commit (commitParameters row.runId writes)) :=
  updateRuns_replaces unique (runRows_eq unique member) fun _ => rfl

theorem runRows_committed (unique : UniqueRuns db) (member : row ∈ db.runs) :
    runRows (committedDatabase product (commitParameters row.runId writes) c db) row.runId =
      [row.commit (commitParameters row.runId writes)] := by
  have replaces := committed_replaces product writes c unique member
  exact runRows_eq (replaces.unique unique) replaces.member'

/-- The commit of a plan that the current tables give. -/
theorem executes_commit (seeded : Seeded db c) (unique : UniqueRuns db) (member : row ∈ db.runs)
    (started : row.status = .started) (current : c.sequence = writes.expectedSequence)
    (free : c.activeRunId = none) (t : UtcTime) :
    (Script.commit product (commitParameters row.runId writes)).execute t db =
      .ok (committedDatabase product (commitParameters row.runId writes) c db, .none) := by
  have committed : commitQuery product (commitParameters row.runId writes) db =
      .ok (committedDatabase product (commitParameters row.runId writes) c db) := by
    refine (commitQuery_ok seeded).mpr ⟨?_, current, free, rfl⟩
    show ((runRows db row.runId).filter (·.status = .started)).length = 1
    rw [runRows_eq unique member]
    simp [started]
  rw [Script.execute, committed]
  rfl

/-- The finalization of a run that was just committed. -/
theorem executes_finalize (seeded : Seeded db c) (unique : UniqueRuns db) (member : row ∈ db.runs)
    (time now : UtcTime) :
    (Script.finalize row.product ⟨row.runId, time, none, none⟩).execute now
        (committedDatabase product (commitParameters row.runId writes) c db) =
      .ok (acceptedTables product writes row time now c db, .none) := by
  have holds : Seeded (committedDatabase product (commitParameters row.runId writes) c db)
      (c.take row.runId) := ⟨rfl, seeded.singleton, seeded.schema⟩
  have unique' := (committed_replaces product writes c unique member).unique unique
  have finalized : finalizeQuery row.product ⟨row.runId, time, none, none⟩ now
      (committedDatabase product (commitParameters row.runId writes) c db) =
        .ok (acceptedTables product writes row time now c db) :=
    (finalizeQuery_ok holds (runRows_length_le unique' _)).mpr
      (.inl ⟨⟨_, runRows_committed unique member, rfl, rfl⟩, rfl⟩)
  rw [Script.execute, finalized]
  rfl

/-- Accepting a run replaces its manifest. -/
theorem accepted_replaces (product : Product) (writes : WritePlan) (c : ControlRow)
    (unique : UniqueRuns db) (member : row ∈ db.runs) (time now : UtcTime) :
    Replaces (committedDatabase product (commitParameters row.runId writes) c db).runs
      (acceptedTables product writes row time now c db).runs
      (row.commit (commitParameters row.runId writes)) (acceptedRow writes row time now) :=
  updateRuns_replaces ((committed_replaces product writes c unique member).unique unique)
    (runRows_committed unique member) fun _ => rfl

end Tables

section Persist

variable {product : Product} {writes : WritePlan}

/-- Reconciling a started run whose commit job can run. -/
theorem runNow_reconcile_submitted (fresh : w.Fresh) (valid : isRunId row.runId = true)
    (seeded : Seeded w.store c) (unique : UniqueRuns w.store) (member : row ∈ w.store.runs)
    (started : row.status = .started) (current : c.sequence = writes.expectedSequence)
    (free : c.activeRunId = none)
    (waiting : w.jobs (.named (jobId row.runId "commit")) =
      some ⟨.commit product (commitParameters row.runId writes), .pending⟩) :
    ∃ time now w', runNow outside (reconcile row.runId) w =
        (.ok (some (acceptedRow writes row time now)), w') ∧
      RanNamed [jobId row.runId "commit"] w w'
        (acceptedTables product writes row time now c w.store) := by
  obtain ⟨w₁, ran₁, read⟩ := runNow_getRun_some outside fresh valid (runRows_eq unique member)
  have waiting₁ := (ran₁.named _).trans waiting
  have executed : (Script.commit product (commitParameters row.runId writes)).execute w₁.clock
      w₁.store = .ok (committedDatabase product (commitParameters row.runId writes) c w.store,
        .none) := by
    rw [ran₁.store_eq]
    exact executes_commit seeded unique member started current free w₁.clock
  obtain ⟨w₂, waited, ran₂⟩ := runNow_wait_named outside ran₁.fresh waiting₁ executed
  -- The run holds the gate now, and is finalized.
  have finalizes : (Script.finalize row.product ⟨row.runId, w₁.clock, none, none⟩).execute w₂.clock
      w₂.store = .ok (acceptedTables product writes row w₁.clock w₂.clock c w.store, .none) := by
    rw [ran₂.store_eq]
    exact executes_finalize seeded unique member w₁.clock w₂.clock
  have replaces := accepted_replaces product writes c unique member w₁.clock w₂.clock
  have unique' :=
    replaces.unique ((committed_replaces product writes c unique member).unique unique)
  have atRow : runRows (acceptedTables product writes row w₁.clock w₂.clock c w.store) row.runId =
      [acceptedRow writes row w₁.clock w₂.clock] := runRows_eq unique' replaces.member'
  obtain ⟨w₃, ran₃, finalized⟩ : ∃ w₃,
      Ran w₂ w₃ (acceptedTables product writes row w₁.clock w₂.clock c w.store) ∧
      runNow outside (finalize row.runId row.product w₁.clock ⟨none, none⟩) w₂ =
        (.ok (acceptedRow writes row w₁.clock w₂.clock), w₃) :=
    runNow_finalize outside ran₂.fresh valid finalizes atRow rfl
  have followed : runNow outside (followJob row.runId row.product
      (.named (jobId row.runId "commit"))) w₁ =
        (.ok (some (acceptedRow writes row w₁.clock w₂.clock)), w₃) := by
    simp only [runNow, followJob, Program.runIn_attempt, waited]
    exact Program.runIn_bind_ok _ finalized
  have known : (w₁.jobs (.named (jobId row.runId "commit"))).isSome = true := by rw [waiting₁]; rfl
  refine ⟨w₁.clock, w₂.clock, w₃, ?_, ran₁.ranNamed.trans (ran₂.trans ran₃.ranNamed)⟩
  rw [runNow, reconcile, Program.runIn_bind_ok _ read]
  simp only [started]
  rw [Program.runIn_bind_ok _ (runNow_commitJob outside known)]
  exact followed

/-- **Submitting a plan** that the current tables give. -/
theorem runNow_submitPlan (product : Product) (fresh : w.Fresh)
    (valid : isRunId row.runId = true) (seeded : Seeded w.store c) (unique : UniqueRuns w.store)
    (member : row ∈ w.store.runs) (started : row.status = .started)
    (current : c.sequence = writes.expectedSequence) (free : c.activeRunId = none)
    (unused : w.jobs (.named (jobId row.runId "commit")) = none) :
    ∃ time now w', runNow outside (submitPlan product row.runId writes) w =
        (.ok (acceptedRow writes row time now), w') ∧
      RanNamed [jobId row.runId "commit"] w w'
        (acceptedTables product writes row time now c w.store) := by
  let asked := w.submit (.named (jobId row.runId "commit"))
    (.commit product (commitParameters row.runId writes))
  have ranAsked : RanNamed [jobId row.runId "commit"] w asked w.store := ranNamed_submit fresh
  have waiting : asked.jobs (.named (jobId row.runId "commit")) =
      some ⟨.commit product (commitParameters row.runId writes), .pending⟩ := World.submit_self ..
  obtain ⟨time, now, w', reconciled, ran⟩ := runNow_reconcile_submitted outside ranAsked.fresh valid
    seeded unique member started current free waiting
  refine ⟨time, now, w', ?_, ranAsked.trans ran⟩
  rw [runNow, submitPlan]
  refine (Program.runIn_bind_ok _
    (Program.runIn_tryCatch_ok _ (runNow_query_new outside unused))).trans ?_
  rw [Program.runIn_bind_ok _ reconciled]
  rfl

/-- **Persisting records** for a started run without a commit job. -/
theorem runNow_persist {records : List Observation} (fresh : w.Fresh)
    (valid : isRunId row.runId = true) (seeded : Seeded w.store c) (unique : UniqueRuns w.store)
    (member : row ∈ w.store.runs) (started : row.status = .started)
    (bound : row.requestId = request.requestId) (free : c.activeRunId = none)
    (unused : w.jobs (.named (jobId row.runId "commit")) = none)
    (planned : planOn row.runId request records w.store = .ok writes) :
    ∃ time now w', runNow outside (persist request records row.runId) w =
        (.ok (acceptedRow writes row time now), w') ∧
      RanNamed [jobId row.runId "commit"] w w'
        (acceptedTables request.product writes row time now c w.store) := by
  have current : c.sequence = writes.expectedSequence := by
    obtain ⟨batch, _, rest⟩ := bind_eq_ok.mp planned
    obtain ⟨snapshot, reading, written⟩ := bind_eq_ok.mp rest
    obtain ⟨_, _, _, rfl⟩ := (readSnapshot_ok seeded).mp reading
    rw [(planWrite_eq written).2]
  have atRow := runRows_eq unique member
  obtain ⟨w₁, ran₁, read⟩ := runNow_getRun_some outside fresh valid atRow
  obtain ⟨w₂, ran₂, reconciled⟩ := runNow_reconcile_open outside ran₁.fresh valid
    (ran₁.store_eq ▸ atRow) started ((ran₁.named _).trans unused)
  have ran : Ran w w₂ w.store := ran₁.trans (ran₁.store_eq ▸ ran₂)
  obtain ⟨w₃, ran₃, plans⟩ := runNow_plan outside ran.fresh (ran.store_eq ▸ planned)
  have toPlan : Ran w w₃ w.store := ran.trans (ran.store_eq ▸ ran₃)
  obtain ⟨time, now, w₄, submitted, ran₄⟩ := runNow_submitPlan outside request.product
    toPlan.fresh valid (toPlan.store_eq ▸ seeded) (toPlan.store_eq ▸ unique)
    (toPlan.store_eq ▸ member) started current free ((toPlan.named _).trans unused)
  refine ⟨time, now, w₄, ?_, toPlan.ranNamed.trans (toPlan.store_eq ▸ ran₄)⟩
  rw [runNow, persist, Program.runIn_bind_ok _ read]
  simp only [Option.map_some, bound, ne_eq, not_true_eq_false, ↓reduceIte]
  rw [Program.runIn_bind_ok _ reconciled]
  refine (Program.runIn_bind_ok _ (Program.runIn_tryCatch_ok _ plans)).trans ?_
  exact submitted

end Persist

/-! ## Ingesting a request -/

/-- A run was ingested: it has succeeded for its request and led to this ledger, and the other runs
and their jobs are as before. -/
structure Ingests (w w' : Cloud) (runId requestId : String) (ledger : Ledger) : Prop where
  ledger : w'.store.ledger = ledger
  final : Finished w' runId requestId
  others : ∀ row, row.runId ≠ runId → (row ∈ w'.store.runs ↔ row ∈ w.store.runs)
  jobs : ∀ name, name ∉ [jobId runId "begin", jobId runId "commit"] →
    w'.jobs (.named name) = w.jobs (.named name)

variable {source : Request → List Observation} {ledger : Ledger}

/-- The tables after a run was accepted have the ledger that accepts its records. -/
theorem accepted_ledger {db : Database} (seeded : Seeded db c) (unique : UniqueRuns db)
    (member : row ∈ db.runs) (free : c.activeRunId = none) {records : List Observation}
    (accepted : db.ledger.accept row.runId request records = .ok ledger) :
    ∃ writes, planOn row.runId request records db = .ok writes ∧
      ∀ time now, (acceptedTables request.product writes row time now c db).ledger = ledger := by
  obtain ⟨writes, planned, _⟩ := Ledger.accept_eq_ok.mp accepted
  rw [planOn_ledger seeded free] at planned
  refine ⟨writes, planned, fun time now => ?_⟩
  have holds : Seeded (committedDatabase request.product (commitParameters row.runId writes) c db)
      (c.take row.runId) := ⟨rfl, seeded.singleton, seeded.schema⟩
  have effect : Effect
      (committedDatabase request.product (commitParameters row.runId writes) c db)
      (.finalize row.product ⟨row.runId, time, none, none⟩)
      (acceptedTables request.product writes row time now c db) :=
    .finalized now holds (runRows_committed unique member) rfl rfl
  rw [effect.ledger fun _ _ impossible => by cases impossible]
  exact Except.ok.inj ((accept_committed seeded free planned).symm.trans accepted)

/-- Ingesting a run that was just begun and has no commit job. -/
theorem runNow_ingest_begun {w₁ : Cloud}
    (begun : runNow (fetching source) (begin request row.runId) w = (.ok row, w₁))
    (fresh : w₁.Fresh) (valid : isRunId row.runId = true) (seeded : Seeded w₁.store c)
    (unique : UniqueRuns w₁.store) (member : row ∈ w₁.store.runs) (started : row.status = .started)
    (bound : row.requestId = request.requestId) (free : c.activeRunId = none)
    (unused : w₁.jobs (.named (jobId row.runId "commit")) = none)
    (accepted : w₁.store.ledger.accept row.runId request (source request) = .ok ledger) :
    ∃ final w', runNow (fetching source) (ingest request row.runId) w = (.ok final, w') ∧
      Ingests w₁ w' row.runId request.requestId ledger := by
  obtain ⟨writes, planned, ledger_eq⟩ := accepted_ledger seeded unique member free accepted
  obtain ⟨w₂, ran₂, reconciled⟩ := runNow_reconcile_open (fetching source) fresh valid
    (runRows_eq unique member) started unused
  obtain ⟨time, now, w₃, persisted, ran₃⟩ := runNow_persist (fetching source) ran₂.fresh valid
    (ran₂.store_eq ▸ seeded) (ran₂.store_eq ▸ unique) (ran₂.store_eq ▸ member) started bound free
    ((ran₂.named _).trans unused) (ran₂.store_eq ▸ planned)
  rw [ran₂.store_eq] at ran₃
  have first := committed_replaces request.product writes c unique member
  have second := accepted_replaces request.product writes c unique member time now
  refine ⟨acceptedRow writes row time now, w₃, ?_, ?_, ?_, fun other differs => ?_,
    fun name other => ?_⟩
  · rw [runNow, ingest, Program.runIn_bind_ok _ begun, Program.runIn_bind_ok _ reconciled]
    exact persisted
  · rw [ran₃.store_eq]
    exact ledger_eq time now
  · refine ⟨acceptedRow writes row time now, ?_, rfl, bound, rfl⟩
    rw [ran₃.store_eq]
    exact second.member'
  · rw [ran₃.store_eq]
    exact (second.others differs).trans (first.others differs)
  · refine (ran₃.others name fun inside => other ?_).trans (ran₂.named name)
    exact List.mem_cons_of_mem _ inside

/-- **Ingesting a run that was begun** for the request and has no commit job. -/
theorem runNow_ingest_started (orderly : Orderly w) (free : w.store.gate = none)
    (member : row ∈ w.store.runs) (started : row.status = .started)
    (bound : row.requestId = request.requestId)
    (unused : w.jobs (.named (jobId row.runId "commit")) = none)
    (accepted : w.store.ledger.accept row.runId request (source request) = .ok ledger) :
    ∃ final w', runNow (fetching source) (ingest request row.runId) w = (.ok final, w') ∧
      Ingests w w' row.runId request.requestId ledger := by
  obtain ⟨c, sound⟩ := orderly.good.sound member
  obtain ⟨w₁, begun, ran⟩ := runNow_begin_again (fetching source) orderly member bound
  obtain ⟨final, w', ingested, ingests⟩ := runNow_ingest_begun begun ran.fresh
    (sound.valid row member) (ran.store_eq ▸ sound.seeded) (ran.store_eq ▸ sound.unique)
    (ran.store_eq ▸ member) started bound (sound.seeded.gate ▸ free)
    ((ran.others _ List.not_mem_nil).trans unused) (ran.store_eq ▸ accepted)
  refine ⟨final, w', ingested, ingests.ledger, ingests.final, fun other differs => ?_,
    fun name other => ?_⟩
  · rw [ingests.others other differs, ran.store_eq]
  · exact (ingests.jobs name other).trans (ran.others name List.not_mem_nil)

/-- **Ingesting a new run.** -/
theorem runNow_ingest_new (orderly : Orderly w) (valid : isRunId runId = true)
    (sound : Sound c w.store) (free : w.store.gate = none)
    (absent : ∀ row ∈ w.store.runs, row.runId ≠ runId)
    (unbegun : w.jobs (.named (jobId runId "begin")) = none)
    (unused : w.jobs (.named (jobId runId "commit")) = none)
    (accepted : w.store.ledger.accept runId request (source request) = .ok ledger) :
    ∃ final w', runNow (fetching source) (ingest request runId) w = (.ok final, w') ∧
      Ingests w w' runId request.requestId ledger := by
  have fresh : w.Fresh := fun n bound => orderly.consistent.fresh bound
  obtain ⟨t, w₁, begun, ran⟩ :=
    runNow_begin_new (fetching source) fresh valid sound.seeded absent unbegun
  let row := (newRun request runId).row t
  have sound₁ : Sound c (withRun w.store row) :=
    sound.begun t absent ⟨request, runId, valid, rfl⟩
  have accepted₁ : w₁.store.ledger.accept row.runId request (source request) = .ok ledger := by
    rw [ran.store_eq]
    exact accepted
  have differs : jobId runId "commit" ∉ [jobId runId "begin"] := by
    rw [List.mem_singleton]
    intro same
    exact absurd (jobId_injective valid valid same).2 (by decide)
  have created : runNow (fetching source) (begin request row.runId) w = (.ok row, w₁) := begun
  obtain ⟨final, w', ingested, ingests⟩ := runNow_ingest_begun created ran.fresh valid
    (ran.store_eq ▸ sound₁.seeded) (ran.store_eq ▸ sound₁.unique)
    (ran.store_eq ▸ List.mem_append_right _ (List.mem_singleton_self row)) rfl rfl
    (sound.seeded.gate ▸ free) ((ran.others _ differs).trans unused) accepted₁
  refine ⟨final, w', ingested, ingests.ledger, ingests.final, fun other differs => ?_,
    fun name other => ?_⟩
  · rw [ingests.others other differs, ran.store_eq, withRun, List.mem_append, List.mem_singleton]
    refine or_iff_left ?_
    rintro rfl
    exact differs rfl
  · refine (ingests.jobs name other).trans (ran.others name fun inside => other ?_)
    rw [List.mem_singleton.mp inside]
    exact List.mem_cons_self

/-- **Ingesting a run again** that has succeeded for the request. -/
theorem runNow_ingest_again (orderly : Orderly w) (member : row ∈ w.store.runs)
    (succeeded : row.status = .succeeded) (bound : row.requestId = request.requestId) :
    ∃ w', runNow (fetching source) (ingest request row.runId) w = (.ok row, w') ∧
      Ingests w w' row.runId request.requestId w.store.ledger := by
  obtain ⟨c, sound⟩ := orderly.good.sound member
  have atRow := runRows_eq sound.unique member
  obtain ⟨w₁, begun, ran₁⟩ := runNow_begin_again (fetching source) orderly member bound
  obtain ⟨w₂, ran₂, reconciled⟩ := runNow_reconcile_done (fetching source) ran₁.fresh
    (sound.valid row member) (ran₁.store_eq ▸ atRow) succeeded
  have ran : RanNamed [] w w₂ w.store := ran₁.trans (ran₁.store_eq ▸ ran₂.ranNamed)
  refine ⟨w₂, ?_, ?_, ?_, fun other differs => ?_, fun name other => ?_⟩
  · rw [runNow, ingest, Program.runIn_bind_ok _ begun, Program.runIn_bind_ok _ reconciled]
    rfl
  · rw [ran.store_eq]
  · exact ⟨row, ran.store_eq ▸ member, rfl, bound, succeeded⟩
  · rw [ran.store_eq]
  · exact ran.others name List.not_mem_nil

/-! ## What ingesting keeps -/

theorem runNow_orderly {α : Type} {program : Client α} (orderly : Orderly w)
    {post : Except Exn α → Cloud → Prop} (safe : protocol.Safe Permits post program w) :
    Orderly (runNow outside program w).2 := by
  have answers : ∀ (c : ClientCall) (v : Cloud), Orderly v → ∃ v',
      Relation.ReflTransGen (Background bigQuery) v v' ∧
        act c v' (answer outside c v).1 (answer outside c v).2 :=
    fun c v orderly => respond_sound outside c fun n bound => orderly.consistent.fresh bound
  exact (safe.runIn answers orderly).1

theorem Good.gate_eq_none {db : Database} (good : Good db) :
    db.gate = none ↔ ∀ row ∈ db.runs, row.status ≠ .committed := by
  rcases good with rfl | ⟨c, sound, _⟩
  · refine ⟨fun _ row member => ?_, fun _ => rfl⟩
    cases member
  · rw [sound.seeded.gate]
    constructor
    · intro free row member committed
      rw [(sound.gate row member).mp committed] at free
      cases free
    · intro idle
      cases held : c.activeRunId with
      | none => rfl
      | some runId =>
          obtain ⟨row, member, rfl⟩ := sound.holder runId held
          exact absurd ((sound.gate row member).mpr held) (idle row member)

section Ingests

variable {w' : Cloud} {requestId : String}

theorem Ingests.free (ingests : Ingests w w' runId requestId ledger) (orderly : Orderly w)
    (orderly' : Orderly w') (free : w.store.gate = none) : w'.store.gate = none := by
  refine orderly'.good.gate_eq_none.mpr fun row member committed => ?_
  obtain ⟨final, inFinal, ofRun, _, succeeded⟩ := ingests.final
  by_cases same : row.runId = runId
  · rw [run_unique orderly'.good.unique member inFinal (same.trans ofRun.symm), succeeded]
      at committed
    cases committed
  · exact orderly.good.gate_eq_none.mp free row ((ingests.others row same).mp member) committed

/-- The jobs of the other runs are as before. -/
theorem Ingests.jobs_other (ingests : Ingests w w' runId requestId ledger)
    (valid : isRunId runId = true) {other : String} (valid' : isRunId other = true)
    (differs : other ≠ runId) (operation : String) :
    w'.jobs (.named (jobId other operation)) = w.jobs (.named (jobId other operation)) := by
  refine ingests.jobs _ ?_
  simp only [List.mem_cons, List.not_mem_nil, or_false, not_or]
  exact ⟨fun clash => differs (jobId_injective valid' valid clash).1,
    fun clash => differs (jobId_injective valid' valid clash).1⟩

end Ingests

end PowerMarket
