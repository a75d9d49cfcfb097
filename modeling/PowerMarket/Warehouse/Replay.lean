import PowerMarket.Warehouse.Invariant

/-!
# One run at a time

`acceptRun` is the life of one run without anyone else around: its manifest is created, its
snapshot is read, its batch is planned and committed, and it may be finalized. `acceptAll`
executes a list of runs one after another. It is built from the same scripts as the concurrent
system, and is what that system is compared with.

`acceptRun_inv` says what an accepted run did. `acceptAll_serial` is the run lemma for the
invariant of the tables.
-/

set_option autoImplicit false

namespace PowerMarket

variable [Platform]

/-- One run: the request its manifest was created for, the request and records it was
persisted with, and the time of its finalization, if it is finalized. -/
structure Entry where
  runId : String
  begun : Request
  request : Request
  records : List Observation
  startedAt : UtcTime
  finalization : Option UtcTime
  bound : request.requestId = begun.requestId

/-- A run that submits the request with which it began. -/
def Entry.own (runId : String) (request : Request) (records : List Observation)
    (startedAt : UtcTime) (finalization : Option UtcTime) : Entry :=
  ⟨runId, request, request, records, startedAt, finalization, rfl⟩

/-- Plan a batch on the snapshot of a database. -/
def planOn (runId : String) (request : Request) (records : List Observation) (db : Database) :
    Except Exn WritePlan := do
  let batch ← batchRows request records
  let current ← readSnapshot (snapshotQuery request.product request.day db)
  planWrite runId batch current

/-- Create the manifest of a run and commit its batch. -/
def commitRun (entry : Entry) (db : Database) : Except Exn Database := do
  let begun ← beginRun (newRun entry.begun entry.runId) entry.startedAt db
  let plan ← planOn entry.runId entry.request entry.records begun
  commitQuery entry.request.product (commitParameters entry.runId plan) begun

/-- Finalize a run, if it is finalized. -/
def finishRun (entry : Entry) (db : Database) : Except Exn Database :=
  match entry.finalization with
  | none => .ok db
  | some knowledgeAt =>
    finalizeQuery entry.begun.product ⟨entry.runId, knowledgeAt, none, none⟩ knowledgeAt db

/-- Execute one run. -/
def acceptRun (entry : Entry) (db : Database) : Except Exn Database :=
  commitRun entry db >>= finishRun entry

/-- Execute runs one after another. -/
def acceptAll (entries : List Entry) (db : Database) : Except Exn Database :=
  entries.foldlM (fun db entry => acceptRun entry db) db

theorem acceptAll_snoc {entries : List Entry} {entry : Entry} {db after : Database} :
    acceptAll (entries ++ [entry]) db = .ok after ↔
      ∃ before, acceptAll entries db = .ok before ∧ acceptRun entry before = .ok after := by
  unfold acceptAll
  rw [List.foldlM_append]
  cases entries.foldlM (fun db entry => acceptRun entry db) db with
  | error e => simp [bind, Except.bind]
  | ok before => simp [bind, Except.bind, pure, Except.pure]; cases acceptRun entry before <;> simp

/-! ## What an accepted run did -/

/-- A warehouse in which every manifest has committed. -/
structure Serial (c : ControlRow) (db : Database) : Prop where
  sound : Sound c db
  committed : ∀ row ∈ db.runs, row.status.hasCommitted = true

theorem serial_seeded : Serial ⟨1, 0, warehouseSchema, none⟩ Database.seeded :=
  ⟨sound_seeded, by simp [Database.seeded, Database.created]⟩

/-- The manifest that a run starts with. -/
def Entry.row (entry : Entry) : RunRow := (newRun entry.begun entry.runId).row entry.startedAt

/-- The database in which the manifest of a run was added. -/
def withRun (db : Database) (row : RunRow) : Database := { db with runs := db.runs ++ [row] }

/-- What is known about a run that committed in a serial execution. -/
structure Commits (entry : Entry) (c : ControlRow) (db : Database) (batch : List BatchRow)
    (current : Snapshot) (plan : WritePlan) : Prop where
  batched : batchRows entry.request entry.records = .ok batch
  read : readSnapshot (snapshotQuery entry.request.product entry.request.day db) = .ok current
  planned : planWrite entry.runId batch current = .ok plan
  fresh : ∀ row ∈ db.runs, row.runId ≠ entry.runId
  free : c.activeRunId = none

omit [Platform] in
/-- What a successful reading of the snapshot says. -/
theorem readSnapshot_ok {db : Database} {c : ControlRow} (seeded : Seeded db c)
    {product : Product} {day : Date} {current : Snapshot} :
    readSnapshot (snapshotQuery product day db) = .ok current ↔
      c.activeRunId = none ∧
      (∀ content ∈ db.contents product, content.marketDate = day →
        content.logicalKeySchema = keySchema ∧ content.contentHashSchema = contentSchema) ∧
      (((db.contents product).filter (·.marketDate = day)).map (·.contentId)).Nodup ∧
      current = ⟨c.sequence, ((db.contents product).filter (·.marketDate = day)).map (·.contentId),
        latestRows ((db.transitions product).filter (·.marketDate = day))⟩ := by
  unfold readSnapshot snapshotQuery
  rw [controlRows_of_seeded seeded]
  simp only [List.map_cons, List.map_nil, seeded.schema, ne_eq, not_true_eq_false, ↓reduceIte,
    List.map_map, Function.comp_def]
  cases gate : c.activeRunId with
  | some active => simp
  | none =>
      by_cases schemas : ∀ content ∈ db.contents product, content.marketDate = day →
          content.logicalKeySchema = keySchema ∧ content.contentHashSchema = contentSchema
      · have compatible : (((db.contents product).filter (·.marketDate = day)).map fun content =>
            (content.contentId, content.logicalKeySchema, content.contentHashSchema)).any
              (fun content => content.2.1 ≠ keySchema ∨ content.2.2 ≠ contentSchema) = false := by
          simpa using schemas
        simp only [compatible, Bool.false_eq_true, ↓reduceIte]
        by_cases distinct : (((db.contents product).filter (·.marketDate = day)).map
            (·.contentId)).Nodup
        · simp only [distinct, not_true_eq_false, ↓reduceIte, Except.ok.injEq, true_and]
          exact ⟨fun same => ⟨schemas, same.symm⟩, fun both => both.2.symm⟩
        · simp [distinct]
      · have incompatible : (((db.contents product).filter (·.marketDate = day)).map fun content =>
            (content.contentId, content.logicalKeySchema, content.contentHashSchema)).any
              (fun content => content.2.1 ≠ keySchema ∨ content.2.2 ≠ contentSchema) = true := by
          push Not at schemas
          obtain ⟨content, member, day_eq, differs⟩ := schemas
          simp only [List.any_map, List.any_filter, List.any_eq_true, Bool.and_eq_true,
            decide_eq_true_eq, Function.comp_apply]
          exact ⟨content, member, day_eq, by tauto⟩
        simp only [incompatible, ↓reduceIte, reduceCtorEq, schemas, false_and, and_false]

/-- The plan of a run was made for its own request, on the database that it commits to. -/
theorem Commits.permitted {entry : Entry} {c : ControlRow} {db : Database}
    {batch : List BatchRow} {current : Snapshot} {plan : WritePlan}
    (commits : Commits entry c db batch current plan) (serial : Serial c db) :
    Planned (withRun db entry.row) entry.request.product
      (commitParameters entry.runId plan) := by
  have seeded : Seeded (withRun db entry.row) c :=
    ⟨serial.sound.seeded.control, serial.sound.seeded.singleton, serial.sound.seeded.schema⟩
  exact .intro rfl commits.batched seeded (.refl _) commits.read commits.planned rfl
    (List.mem_append_right _ (List.mem_singleton_self entry.row)) rfl entry.bound.symm

omit [Platform] in
theorem runRows_withRun {db : Database} {row : RunRow}
    (fresh : ∀ other ∈ db.runs, other.runId ≠ row.runId) :
    runRows (withRun db row) row.runId = [row] := by
  have none_before : db.runs.filter (·.runId = row.runId) = [] := by
    rw [List.filter_eq_nil_iff]
    simpa using fresh
  simp [runRows, withRun, none_before]

omit [Platform] in
theorem beginRun_fresh {c : ControlRow} {db : Database} (seeded : Seeded db c) {run : NewRun}
    {now : UtcTime} (fresh : ∀ row ∈ db.runs, row.runId ≠ run.runId) :
    beginRun run now db = .ok (withRun db (run.row now)) := by
  have absent : runRows db run.runId = [] := by
    rw [runRows, List.filter_eq_nil_iff]
    simpa using fresh
  exact (beginRun_ok seeded).mpr
    ⟨fun row member same => absurd same (fresh row member), by simp [absent, withRun]⟩

/-- **What committing a run did.** -/
theorem commitRun_iff {entry : Entry} {c : ControlRow} {db after : Database}
    (serial : Serial c db) :
    commitRun entry db = .ok after ↔
      ∃ batch current plan, Commits entry c db batch current plan ∧
        after = committedDatabase entry.request.product (commitParameters entry.runId plan) c
          (withRun db entry.row) := by
  have seeded := serial.sound.seeded
  constructor
  · intro committed
    obtain ⟨begunDb, begun, rest⟩ := bind_eq_ok.mp committed
    obtain ⟨plan, planned, result⟩ := bind_eq_ok.mp rest
    obtain ⟨_, created⟩ := (beginRun_ok seeded).mp begun
    have control : Seeded begunDb c := by
      rw [created]
      split_ifs
      · exact ⟨seeded.control, seeded.singleton, seeded.schema⟩
      · exact seeded
    obtain ⟨startedOnce, _, free, rfl⟩ := (commitQuery_ok control).mp result
    have fresh : ∀ row ∈ db.runs, row.runId ≠ entry.runId := by
      intro row member same
      -- A manifest that exists has committed, so it cannot commit again.
      have at_row : row ∈ runRows db entry.runId := mem_runRows.mpr ⟨member, same⟩
      have present : (runRows db (newRun entry.begun entry.runId).runId).isEmpty = false :=
        List.isEmpty_eq_false_iff.mpr (List.ne_nil_of_mem at_row)
      rw [present, if_neg Bool.false_ne_true] at created
      rw [created] at startedOnce
      obtain ⟨first, only⟩ := List.length_eq_one_iff.mp startedOnce
      obtain ⟨found, started⟩ := List.mem_filter.mp (only ▸ List.mem_singleton_self first)
      have hasCommitted := serial.committed first (mem_runRows.mp found).1
      rw [of_decide_eq_true started] at hasCommitted
      cases hasCommitted
    rw [beginRun_fresh seeded fresh] at begun
    cases begun
    obtain ⟨batch, batched, rest⟩ := bind_eq_ok.mp planned
    obtain ⟨current, read, planned⟩ := bind_eq_ok.mp rest
    exact ⟨batch, current, plan, ⟨batched, read, planned, fresh, free⟩, rfl⟩
  · rintro ⟨batch, current, plan, ⟨batched, read, planned, fresh, free⟩, rfl⟩
    have control : Seeded (withRun db entry.row) c :=
      ⟨seeded.control, seeded.singleton, seeded.schema⟩
    have readHere : readSnapshot (snapshotQuery entry.request.product entry.request.day
        (withRun db entry.row)) = .ok current := read
    obtain ⟨_, _, _, rfl⟩ := (readSnapshot_ok control).mp readHere
    obtain ⟨_, rfl⟩ := planWrite_eq planned
    have begun : beginRun (newRun entry.begun entry.runId) entry.startedAt db =
        .ok (withRun db entry.row) := beginRun_fresh seeded fresh
    have rows : runRows (withRun db entry.row) entry.runId = [entry.row] :=
      runRows_withRun fresh
    simp only [commitRun, begun, planOn, batched, readHere, planned, bind, Except.bind]
    refine (commitQuery_ok control).mpr ⟨?_, rfl, free, rfl⟩
    simp only [commitParameters, rows]
    rfl

/-! ## The run lemma -/

/-- The database after the batch of a run was committed. -/
def afterCommit (entry : Entry) (plan : WritePlan) (c : ControlRow) (db : Database) : Database :=
  committedDatabase entry.request.product (commitParameters entry.runId plan) c
    (withRun db entry.row)

/-- The parameters of the finalization of a run. -/
def Entry.clocks (entry : Entry) (knowledgeAt : UtcTime) : FinalizeParameters :=
  ⟨entry.runId, knowledgeAt, none, none⟩

/-- The database after a run was finalized, if it is finalized. -/
def afterRun (entry : Entry) (plan : WritePlan) (c : ControlRow) (db : Database) : Database :=
  match entry.finalization with
  | none => afterCommit entry plan c db
  | some knowledgeAt =>
    finalizedDatabase entry.begun.product (entry.clocks knowledgeAt) knowledgeAt
      (c.take entry.runId) (afterCommit entry plan c db)

/-- The control row after a run. -/
def afterControl (entry : Entry) (c : ControlRow) : ControlRow :=
  match entry.finalization with
  | none => c.take entry.runId
  | some _ => (c.take entry.runId).release

section Accepted

variable {entry : Entry} {c : ControlRow} {db : Database} {batch : List BatchRow}
  {current : Snapshot} {plan : WritePlan}

omit [Platform] in
/-- Changing the manifest that was added last. -/
theorem updateRuns_last {db : Database} {before : List RunRow} {row : RunRow} {runId : String}
    (runs : db.runs = before ++ [row]) (ofRun : row.runId = runId)
    (fresh : ∀ other ∈ before, other.runId ≠ runId) (change : RunRow → RunRow) :
    (updateRuns db (·.runId = runId) change).runs = before ++ [change row] := by
  have others : before.map (fun row => if row.runId = runId then change row else row) = before := by
    conv_rhs => rw [← List.map_id before]
    refine List.map_congr_left fun other member => ?_
    rw [if_neg (fresh other member), id]
  simp only [updateRuns, runs, List.map_append, List.map_cons, List.map_nil, decide_eq_true_eq,
    others, if_pos ofRun]

theorem afterCommit_runs (commits : Commits entry c db batch current plan) :
    (afterCommit entry plan c db).runs =
      db.runs ++ [entry.row.commit (commitParameters entry.runId plan)] := by
  have runs : (insertRows entry.request.product (commitParameters entry.runId plan)
      { withRun db entry.row with control := [c.take entry.runId] }).runs =
      db.runs ++ [entry.row] := rfl
  have ofRun : entry.row.runId = entry.runId := rfl
  exact updateRuns_last runs ofRun commits.fresh _

/-- The manifest that a run leaves. -/
def Entry.manifest (entry : Entry) (plan : WritePlan) : RunRow :=
  match entry.finalization with
  | none => entry.row.commit (commitParameters entry.runId plan)
  | some knowledgeAt =>
    (entry.row.commit (commitParameters entry.runId plan)).succeed (entry.clocks knowledgeAt)
      knowledgeAt

@[simp] theorem Entry.manifest_runId (entry : Entry) (plan : WritePlan) :
    (entry.manifest plan).runId = entry.runId := by
  unfold Entry.manifest
  cases entry.finalization <;> rfl

@[simp] theorem Entry.manifest_requestId (entry : Entry) (plan : WritePlan) :
    (entry.manifest plan).requestId = entry.request.requestId := by
  unfold Entry.manifest
  cases entry.finalization <;> exact entry.bound.symm

theorem afterRun_runs (commits : Commits entry c db batch current plan) :
    (afterRun entry plan c db).runs = db.runs ++ [entry.manifest plan] := by
  unfold afterRun Entry.manifest
  cases entry.finalization with
  | none => exact afterCommit_runs commits
  | some knowledgeAt =>
      have ofRun : (entry.row.commit (commitParameters entry.runId plan)).runId = entry.runId := rfl
      have runs : (fillClocks entry.begun.product (entry.clocks knowledgeAt)
          { afterCommit entry plan c db with control := [(c.take entry.runId).release] }).runs =
          db.runs ++ [entry.row.commit (commitParameters entry.runId plan)] :=
        afterCommit_runs commits
      exact updateRuns_last runs ofRun commits.fresh _

theorem afterCommit_sound (serial : Serial c db)
    (commits : Commits entry c db batch current plan) :
    Serial (c.take entry.runId) (afterCommit entry plan c db) := by
  have sound : Sound c (withRun db entry.row) :=
    serial.sound.begun entry.startedAt commits.fresh
      ⟨entry.begun, entry.runId, (planWrite_eq commits.planned).1, rfl⟩
  have rows : runRows (withRun db entry.row) entry.runId = [entry.row] :=
    runRows_withRun commits.fresh
  have read : readSnapshot (snapshotQuery entry.request.product entry.request.day
      (withRun db entry.row)) = .ok current := commits.read
  obtain ⟨_, _, _, same⟩ := (readSnapshot_ok sound.seeded).mp read
  have sequence : c.sequence = (commitParameters entry.runId plan).expectedSequence := by
    rw [(planWrite_eq commits.planned).2, same]
    rfl
  refine ⟨sound.committed rows rfl sequence commits.free (commits.permitted serial), ?_⟩
  rw [afterCommit_runs commits]
  intro row member
  rcases List.mem_append.mp member with before | last
  · exact serial.committed row before
  · rw [List.mem_singleton.mp last]
    rfl

/-- The manifest of a run right after its commit. -/
theorem afterCommit_row (serial : Serial c db)
    (commits : Commits entry c db batch current plan) :
    runRows (afterCommit entry plan c db) entry.runId =
      [entry.row.commit (commitParameters entry.runId plan)] := by
  have unique := (afterCommit_sound serial commits).sound.unique
  have member : entry.row.commit (commitParameters entry.runId plan) ∈
      (afterCommit entry plan c db).runs := by
    rw [afterCommit_runs commits]
    exact List.mem_append_right _ (List.mem_singleton_self _)
  exact runRows_eq unique member

theorem finishRun_eq (serial : Serial c db) (commits : Commits entry c db batch current plan) :
    finishRun entry (afterCommit entry plan c db) = .ok (afterRun entry plan c db) := by
  have after := (afterCommit_sound serial commits).sound
  unfold finishRun afterRun
  cases finalization : entry.finalization with
  | none => rfl
  | some knowledgeAt =>
      refine (finalizeQuery_ok after.seeded (runRows_length_le after.unique _)).mpr (.inl ⟨?_, rfl⟩)
      exact ⟨_, afterCommit_row serial commits, rfl, rfl⟩

/-- **What accepting a run did.** -/
theorem acceptRun_iff (serial : Serial c db) {after : Database} :
    acceptRun entry db = .ok after ↔
      ∃ batch current plan, Commits entry c db batch current plan ∧
        after = afterRun entry plan c db := by
  unfold acceptRun
  rw [bind_eq_ok]
  constructor
  · rintro ⟨mid, committed, finished⟩
    obtain ⟨batch, current, plan, commits, rfl⟩ := (commitRun_iff serial).mp committed
    have done := finishRun_eq serial commits
    rw [afterCommit, finished] at done
    cases done
    exact ⟨batch, current, plan, commits, rfl⟩
  · rintro ⟨batch, current, plan, commits, rfl⟩
    exact ⟨afterCommit entry plan c db, (commitRun_iff serial).mpr ⟨_, _, _, commits, rfl⟩,
      finishRun_eq serial commits⟩

/-- **The step lemma of the serial execution.** -/
theorem afterRun_serial (serial : Serial c db) (commits : Commits entry c db batch current plan) :
    Serial (afterControl entry c) (afterRun entry plan c db) := by
  have committed := afterCommit_sound serial commits
  unfold afterRun afterControl
  cases finalization : entry.finalization with
  | none => exact committed
  | some knowledgeAt =>
      have rows := afterCommit_row serial commits
      have replaces : Replaces (afterCommit entry plan c db).runs
          (finalizedDatabase entry.begun.product (entry.clocks knowledgeAt) knowledgeAt
            (c.take entry.runId) (afterCommit entry plan c db)).runs _ _ :=
        updateRuns_replaces committed.sound.unique rows fun _ => rfl
      refine ⟨committed.sound.finalized knowledgeAt rows rfl rfl rfl, ?_⟩
      exact replaces.forall (fun row member _ => committed.committed row member) rfl

end Accepted

/-- **The run lemma of the serial execution.** Executing runs one after another keeps the
invariant of the tables, and every manifest has committed. -/
theorem acceptAll_serial {entries : List Entry} {after : Database}
    (accepted : acceptAll entries Database.seeded = .ok after) : ∃ c, Serial c after := by
  induction entries using List.reverseRecOn generalizing after with
  | nil =>
      cases accepted
      exact ⟨_, serial_seeded⟩
  | append_singleton entries entry ih =>
      obtain ⟨before, earlier, last⟩ := acceptAll_snoc.mp accepted
      obtain ⟨c, serial⟩ := ih earlier
      obtain ⟨batch, current, plan, commits, rfl⟩ := (acceptRun_iff serial).mp last
      exact ⟨_, afterRun_serial serial commits⟩

/-- A serial execution leaves the manifests of its runs, in their order. -/
theorem acceptAll_bound {entries : List Entry} {after : Database}
    (accepted : acceptAll entries Database.seeded = .ok after) :
    after.runs.map (fun row => (row.runId, row.requestId)) =
      entries.map fun entry => (entry.runId, entry.request.requestId) := by
  induction entries using List.reverseRecOn generalizing after with
  | nil =>
      cases accepted
      rfl
  | append_singleton entries entry ih =>
      obtain ⟨before, earlier, last⟩ := acceptAll_snoc.mp accepted
      obtain ⟨c, serial⟩ := acceptAll_serial earlier
      obtain ⟨batch, current, plan, commits, rfl⟩ := (acceptRun_iff serial).mp last
      rw [afterRun_runs commits, List.map_append, List.map_append, ih earlier, List.map_singleton,
        List.map_singleton, Entry.manifest_runId, Entry.manifest_requestId]

theorem acceptAll_ids {entries : List Entry} {after : Database}
    (accepted : acceptAll entries Database.seeded = .ok after) :
    after.runs.map (·.runId) = entries.map (·.runId) := by
  have bound := congrArg (List.map Prod.fst) (acceptAll_bound accepted)
  rwa [List.map_map, List.map_map] at bound

end PowerMarket
