import PowerMarket.Replays

/-!
# Cooperating writers are serializable

In every reachable state the contents, the transitions and the control row are those that the
committed runs leave when they are executed one at a time in the order of their commit sequence
numbers, each reading the snapshot and planning its batch again on what its predecessor left
(`serializable`). A commit takes effect only with the plan that the snapshot of the state it
meets gives, whatever state its own snapshot was read in.
-/

set_option autoImplicit false

namespace PowerMarket

open Library JobService

variable [Platform]

/-! ## The manifests of a serial execution -/

/-- What the manifest of the run with a place in the order says: the request, the number of the
commit, the batch that was accepted and the clock of its finalization. -/
structure Documents (entry : Entry) (n : Nat) (row : RunRow) : Prop where
  runId : row.runId = entry.runId
  request : row.requestId = entry.request.requestId
  committed : row.status.hasCommitted = true
  number : row.commitSequence = some (n + 1)
  clock : row.knowledgeAt = entry.finalization
  batch : ∃ batch, batchRows entry.request entry.records = .ok batch ∧
    row.rowsAccepted = some batch.length ∧ row.batchHash = some (batchHash batch)

theorem Documents.congr {entry : Entry} {n : Nat} {row row' : RunRow}
    (documents : Documents entry n row) (same : row.outcome = row'.outcome) :
    Documents entry n row' := by
  obtain ⟨runId, request, committed, number, clock, batch, batched, accepted, hash⟩ := documents
  simp only [RunRow.outcome, RunOutcome.mk.injEq] at same
  obtain ⟨binding, status, _, _, rowsAccepted, _, _, _, batchHash, _, sequence, knowledge⟩ := same
  refine ⟨?_, ?_, status ▸ committed, sequence ▸ number, knowledge ▸ clock, batch, batched,
    rowsAccepted ▸ accepted, batchHash ▸ hash⟩
  · exact (congrArg (fun b => b.1) binding).symm.trans runId
  · exact (congrArg (fun b => b.2.1) binding).symm.trans request

theorem manifest_documents {entry : Entry} {c : ControlRow} {db : Database}
    {batch : List BatchRow} {current : Snapshot} {plan : WritePlan} (serial : Serial c db)
    (commits : Commits entry c db batch current plan) :
    Documents entry c.sequence (entry.manifest plan) := by
  obtain ⟨_, _, _, current_eq⟩ := (readSnapshot_ok serial.sound.seeded).mp commits.read
  have plan_eq := (planWrite_eq commits.planned).2
  have committed : Documents { entry with finalization := none } c.sequence
      (entry.row.commit (commitParameters entry.runId plan)) := by
    refine ⟨rfl, entry.bound.symm, rfl, ?_, rfl, batch, commits.batched, ?_, ?_⟩
    · rw [plan_eq, current_eq]
      rfl
    · rw [plan_eq]
      rfl
    · rw [plan_eq]
      rfl
  unfold Entry.manifest
  cases finalization : entry.finalization with
  | none => exact ⟨rfl, committed.request, rfl, committed.number, finalization.symm, committed.batch⟩
  | some knowledgeAt =>
      exact ⟨rfl, committed.request, rfl, committed.number, finalization.symm, committed.batch⟩

/-- **A serial execution leaves one manifest for each run, in its order.** -/
theorem acceptAll_documents {entries : List Entry} {after : Database}
    (accepted : acceptAll entries Database.seeded = .ok after) {c : ControlRow}
    (serial : Serial c after) :
    c.sequence = entries.length ∧ after.runs.length = entries.length ∧
      ∀ n entry, entries[n]? = some entry →
        ∃ row, after.runs[n]? = some row ∧ Documents entry n row := by
  induction entries using List.reverseRecOn generalizing after c with
  | nil =>
      cases accepted
      obtain rfl := serial.sound.seeded.control_unique seeded_seeded rfl
      simp [Database.seeded, Database.created]
  | append_singleton entries last ih =>
      obtain ⟨before, earlier, accept⟩ := acceptAll_snoc.mp accepted
      obtain ⟨c', serial'⟩ := acceptAll_serial earlier
      obtain ⟨batch, current, plan, commits, rfl⟩ := (acceptRun_iff serial').mp accept
      obtain ⟨sequence, length, documented⟩ := ih earlier serial'
      have control := serial.sound.seeded.control_unique
        (afterRun_serial serial' commits).sound.seeded rfl
      have advanced : (afterControl last c').sequence = c'.sequence + 1 := by
        unfold afterControl
        cases last.finalization <;> rfl
      rw [afterRun_runs commits]
      refine ⟨?_, ?_, fun n entry at_n => ?_⟩
      · rw [control, advanced, sequence, List.length_append, List.length_singleton]
      · rw [List.length_append, List.length_append, length, List.length_singleton,
          List.length_singleton]
      · rcases Nat.lt_or_ge n entries.length with within | beyond
        · rw [List.getElem?_append_left within] at at_n
          obtain ⟨row, at_row, documents⟩ := documented n entry at_n
          exact ⟨row, by rw [List.getElem?_append_left (length ▸ within), at_row], documents⟩
        · obtain ⟨here, rfl⟩ : n = entries.length ∧ last = entry := by
            rw [List.getElem?_append_right beyond, List.getElem?_singleton] at at_n
            split_ifs at at_n with here
            exact ⟨by omega, Option.some.inj at_n⟩
          subst here
          refine ⟨last.manifest plan, ?_, sequence ▸ manifest_documents serial' commits⟩
          rw [← length, List.getElem?_append_right le_rfl, Nat.sub_self, List.getElem?_cons_zero]

/-! ## The order of the committed runs -/

/-- The runs of the list are the runs that have committed, in the order of their commit sequence
numbers, and executing them one at a time gives the tables. -/
structure SerialOrder (entries : List Entry) (db : Database) : Prop where
  executes : ∃ serial, acceptAll entries Database.seeded = .ok serial ∧
    serial.contents = db.contents ∧ serial.transitions = db.transitions ∧
    serial.control = db.control
  documented : ∀ n entry, entries[n]? = some entry → ∃ row ∈ db.runs, Documents entry n row
  complete : ∀ row ∈ db.runs, row.status.hasCommitted = true →
    ∃ n entry, entries[n]? = some entry ∧ Documents entry n row

theorem Linearized.serialOrder {db : Database} (linear : Linearized db) :
    ∃ entries, SerialOrder entries db := by
  obtain ⟨entries, serial, accepted, mirrors⟩ := linear
  obtain ⟨c, isSerial⟩ := acceptAll_serial accepted
  obtain ⟨_, length, documented⟩ := acceptAll_documents accepted isSerial
  refine ⟨entries, ⟨serial, accepted, mirrors.contents, mirrors.transitions, mirrors.control⟩,
    fun n entry at_n => ?_, fun row member committed => ?_⟩
  · obtain ⟨row, at_row, documents⟩ := documented n entry at_n
    obtain ⟨row', member, _, same⟩ := mirrors.sub row (List.mem_of_getElem? at_row)
    exact ⟨row', member, documents.congr same⟩
  · obtain ⟨row', member', same⟩ := mirrors.sup row member committed
    obtain ⟨n, at_row⟩ := List.mem_iff_getElem?.mp member'
    have within : n < entries.length := length ▸ (List.getElem?_eq_some_iff.mp at_row).1
    obtain ⟨found, at_found, documents⟩ :=
      documented n entries[n] (List.getElem?_eq_getElem within)
    rw [at_row] at at_found
    cases at_found
    exact ⟨n, entries[n], List.getElem?_eq_getElem within, documents.congr same⟩

/-- **The history of the tables.** Seeded tables have a serial order of their committed runs, and
the histories of all keys are those that its runs observe. -/
theorem Good.history (noCollisions : NoCollisions) {db : Database} (good : Good db)
    (seeded : db ≠ .created) : ∃ c entries, Sound c db ∧ SerialOrder entries db ∧
      ∀ product, ProductHistory product entries db := by
  obtain ⟨c, sound, linear⟩ := good.resolve_left seeded
  obtain ⟨entries, order⟩ := linear.serialOrder
  refine ⟨c, entries, sound, order, fun product => ?_⟩
  obtain ⟨serial, accepted, contents, transitions, _⟩ := order.executes
  have law := acceptAll_history noCollisions accepted product
  have same : SameButClocks product serial db :=
    .of_eq (congrFun contents product).symm (congrFun transitions product).symm
  exact ⟨law.catalogue.of_clocks same, fun key => (law.history key).of_clocks same⟩

/-! ## Commits -/

/-- What a commit that takes effect did: its job wrote the plan for a batch of its run that the
snapshot of the tables it met gives. -/
structure CommitsCurrent (w w' : Cloud) (runId : String) (plan : WritePlan) (request : Request)
    (records : List Observation) : Prop where
  replanned : planOn runId request records w.store = .ok plan
  job : ∃ rows time usage, w'.jobs (.named (jobId runId "commit")) =
    some ⟨.commit request.product (commitParameters runId plan), .ended (.ok rows) time usage⟩
  wrote : ∃ c, Seeded w.store c ∧ w'.store =
    committedDatabase request.product (commitParameters runId plan) c w.store

omit [Platform] in
theorem RunOrigin.commit_of_started {db : Database} {script : Script} {row row' : RunRow}
    (origin : RunOrigin db script row') (unique : UniqueRuns db) (member : row ∈ db.runs)
    (started : row.status = .started) (ofRun : row'.runId = row.runId)
    (committed : row'.status = .committed) :
    ∃ product p, script = .commit product p ∧ p.runId = row.runId := by
  cases origin with
  | kept before =>
      rw [run_unique unique before member ofRun, started] at committed
      cases committed
  | begun now => cases committed
  | committed before seeded ofRun' started' current free =>
      exact ⟨_, _, rfl, ofRun'.symm.trans ofRun⟩
  | finalized now before seeded ofRun' committed' gate => cases committed
  | failed now before ofRun' started' opened => cases committed

omit [Platform] in
theorem Effect.committed_of_moved {db after : Database} {product : Product}
    {p : CommitParameters} (effect : Effect db (.commit product p) after)
    (moved : after.runs ≠ db.runs) :
    ∃ c, Seeded db c ∧ c.sequence = p.expectedSequence ∧ c.activeRunId = none ∧
      after = committedDatabase product p c db := by
  cases effect with
  | idle => exact absurd rfl moved
  | committed seeded atRow started current free => exact ⟨_, seeded, current, free, rfl⟩

/-- **A run commits with a current plan only.** -/
theorem step_commits {s s' : WarehouseSystem} (reachable : Reachable s) (step : SystemStep s s')
    {row row' : RunRow} (member : row ∈ s.world.store.runs) (started : row.status = .started)
    (member' : row' ∈ s'.world.store.runs) (ofRun : row'.runId = row.runId)
    (committed : row'.status = .committed) :
    ∃ request records plan, row.requestId = request.requestId ∧
      CommitsCurrent s.world s'.world row.runId plan request records ∧
      ∀ earlier, Reachable earlier → SystemRun earlier s → ∀ product day snapshot,
        readSnapshot (snapshotQuery product day earlier.world.store) = .ok snapshot →
        snapshot.sequence = plan.expectedSequence →
        readSnapshot (snapshotQuery product day s.world.store) = .ok snapshot := by
  have unique := reachable.orderly.good.unique
  rcases step_effect reachable step with same | ⟨id, script, rows, time, usage, takes⟩
  · rw [same] at member'
    rw [run_unique unique member' member ofRun, started] at committed
    cases committed
  · obtain ⟨product, p, rfl, runId⟩ :=
      (takes.effect.origin unique row' member').commit_of_started unique member started ofRun
        committed
    have moved : s'.world.store.runs ≠ s.world.store.runs := by
      intro same
      rw [same] at member'
      rw [run_unique unique member' member ofRun, started] at committed
      cases committed
    obtain ⟨c, seeded, current, free, wrote⟩ := takes.effect.committed_of_moved moved
    obtain ⟨sound, _⟩ := reachable.orderly.good.of_seeded seeded
    obtain ⟨request, records, batch, snapshot, plan, product_eq, batched, read, planned,
      parameters, other, at_other, ofOther, ofRequest⟩ :=
      takes.submittable.1.replanned sound current free
    have same := run_unique unique at_other member (ofOther.trans runId)
    subst same
    subst product_eq
    rw [runId] at planned parameters
    have job : s'.world.jobs id =
        some ⟨.commit request.product p, .ended (.ok rows) time usage⟩ := by
      rw [takes.jobs, Function.update_self]
    refine ⟨request, records, plan, ofRequest, ⟨?_, ⟨rows, time, usage, ?_⟩, ⟨c, seeded, ?_⟩⟩, ?_⟩
    · simp only [planOn, batched, read, planned, bind, Except.bind]
    · have named := takes.named
      cases id with
      | generated n => cases named
      | named name =>
          cases named
          rw [← parameters, ← runId]
          exact job
    · rw [← parameters]
      exact wrote
    · intro earlier reachable' run product day past read' same
      have later := (reachable'.run run).2.before
      rcases reachable'.orderly.good with created | ⟨c', sound', _⟩
      · rw [created] at read'
        cases read'
      · refine sound.snapshot_current free sound'.seeded later read' ?_
        rw [same, current, parameters]
        rfl

/-- **Serializability of cooperating writers.** In every reachable state the tables are those
of the committed runs executed one at a time in the order of their commit sequence numbers.
Whenever a run commits, its plan is the one for its batch on the snapshot of the state that the
commit meets, and any snapshot of an earlier state that shows the sequence number of the plan
is still the current one. -/
theorem serializable {s : WarehouseSystem} (reachable : Reachable s) :
    (s.world.store = .created ∨ ∃ entries, SerialOrder entries s.world.store) ∧
    ∀ s', SystemStep s s' → ∀ row ∈ s.world.store.runs, row.status = .started →
      ∀ row' ∈ s'.world.store.runs, row'.runId = row.runId → row'.status = .committed →
      ∃ request records plan, row.requestId = request.requestId ∧
        CommitsCurrent s.world s'.world row.runId plan request records ∧
        ∀ earlier, Reachable earlier → SystemRun earlier s → ∀ product day snapshot,
          readSnapshot (snapshotQuery product day earlier.world.store) = .ok snapshot →
          snapshot.sequence = plan.expectedSequence →
          readSnapshot (snapshotQuery product day s.world.store) = .ok snapshot := by
  constructor
  · rcases reachable.orderly.good with created | ⟨c, _, linear⟩
    · exact .inl created
    · exact .inr linear.serialOrder
  · intro s' step row member started row' member' ofRun committed
    exact step_commits reachable step member started member' ofRun committed

omit [Platform] in
/-- The serial order of a load that was revised and corrected back. -/
theorem serializable_sample :
    letI := Platform.plain
    ∃ s : WarehouseSystem, Revised s.world.store ∧
      ∃ entries, SerialOrder entries s.world.store := by
  let _ := Platform.plain
  obtain ⟨s, reachable, revised⟩ := exists_revised
  obtain ⟨orders, _⟩ := serializable reachable
  exact ⟨s, revised, orders.resolve_left revised.ne_created⟩

end PowerMarket
