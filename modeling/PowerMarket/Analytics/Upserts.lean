import PowerMarket.Analytics.LastWriter
import PowerMarket.Orchestration.Uninterrupted

/-!
# Ingesting is an upsert

What one call of `ingest` does when nobody else acts and every call is answered. It succeeds exactly
when the records pass the checks of a batch, whatever was ingested before. The facts then show the
store from before with the records put into it, and the manifest counts the records whose content was
not the current one of their key (`ingest_alone`). When a check fails the run is recorded as failed
and nothing else changes.
-/

set_option autoImplicit false

namespace PowerMarket

open Library JobService

/-! ## Planning succeeds -/

variable [Platform]

section Planning

variable {c : ControlRow} {db : Database} {runId : String} {request : Request}
  {records : List Observation} {batch : List BatchRow}

/-- **The plan of an accepted batch** exists in every good state with a free gate. -/
theorem Good.planned (noCollisions : NoCollisions) (good : Good db) (sound : Sound c db)
    (free : c.activeRunId = none) (valid : isRunId runId = true)
    (batched : batchRows request records = .ok batch) :
    ∃ current plan, readSnapshot (snapshotQuery request.product request.day db) = .ok current ∧
      planWrite runId batch current = .ok plan ∧
      planOn runId request records db = .ok plan := by
  have seeded : db ≠ .created := by
    rintro rfl
    cases sound.seeded.control
  obtain ⟨_, _, _, _, law⟩ := good.history noCollisions seeded
  obtain ⟨current, read⟩ :=
    (law request.product).catalogue.snapshot sound.seeded free request.day
  have plans : ∀ current, ∃ plan, planWrite runId batch current = .ok plan := by
    intro current
    rw [planWrite, validateRunId_ok valid]
    exact ⟨_, rfl⟩
  obtain ⟨plan, written⟩ := plans current
  exact ⟨current, plan, read, written, by simp only [planOn, batched, read, bind, Except.bind, written]⟩

end Planning

/-! ## The calls -/

section Calls

variable (outside : (request : Outside) → Except Exn request.Reply)
  {source : Request → List Observation} {w : Cloud} {c : ControlRow} {runId : String}
  {request : Request} {writes : WritePlan} {e : Exn}

/-- A run that was begun alone. -/
structure BegunAlone (request : Request) (runId : String) (c : ControlRow) (w w' : Cloud)
    (t : UtcTime) : Prop where
  begun : runNow outside (begin request runId) w = (.ok ((newRun request runId).row t), w')
  store : w'.store = withRun w.store ((newRun request runId).row t)
  fresh : w'.Fresh
  sound : Sound c w'.store
  unused : w'.jobs (.named (jobId runId "commit")) = none

theorem runNow_begin_alone (request : Request) (orderly : Orderly w) (valid : isRunId runId = true)
    (sound : Sound c w.store) (absent : ∀ row ∈ w.store.runs, row.runId ≠ runId)
    (unbegun : w.jobs (.named (jobId runId "begin")) = none)
    (unused : w.jobs (.named (jobId runId "commit")) = none) :
    ∃ t w', BegunAlone outside request runId c w w' t := by
  have fresh : w.Fresh := fun n bound => orderly.consistent.fresh bound
  obtain ⟨t, w', begun, ran⟩ :=
    @runNow_begin_new _ outside _ _ request _ fresh valid sound.seeded absent unbegun
  have differs : jobId runId "commit" ∉ [jobId runId "begin"] := by
    rw [List.mem_singleton]
    intro same
    exact absurd (jobId_injective valid valid same).2 (by decide)
  refine ⟨t, w', begun, ran.store_eq, ran.fresh, ?_, (ran.others _ differs).trans unused⟩
  rw [ran.store_eq]
  exact sound.begun t absent ⟨request, runId, valid, rfl⟩

/-- A run that was just begun and whose plan the tables give is committed and finalized. -/
theorem runNow_ingest_settled {row : RunRow} {w₁ : Cloud}
    (begun : runNow (fetching source) (begin request row.runId) w = (.ok row, w₁))
    (fresh : w₁.Fresh) (valid : isRunId row.runId = true) (seeded : Seeded w₁.store c)
    (unique : UniqueRuns w₁.store) (member : row ∈ w₁.store.runs) (started : row.status = .started)
    (bound : row.requestId = request.requestId) (free : c.activeRunId = none)
    (unused : w₁.jobs (.named (jobId row.runId "commit")) = none)
    (planned : planOn row.runId request (source request) w₁.store = .ok writes) :
    ∃ time now w', runNow (fetching source) (ingest request row.runId) w =
        (.ok (acceptedRow writes row time now), w') ∧
      RanNamed [jobId row.runId "commit"] w₁ w'
        (acceptedTables request.product writes row time now c w₁.store) := by
  obtain ⟨w₂, ran₂, reconciled⟩ := runNow_reconcile_open (fetching source) fresh valid
    (runRows_eq unique member) started unused
  obtain ⟨time, now, w₃, persisted, ran₃⟩ := runNow_persist (fetching source) ran₂.fresh valid
    (ran₂.store_eq ▸ seeded) (ran₂.store_eq ▸ unique) (ran₂.store_eq ▸ member) started bound free
    ((ran₂.named _).trans unused) (ran₂.store_eq ▸ planned)
  rw [ran₂.store_eq] at ran₃
  refine ⟨time, now, w₃, ?_, ran₃.store_eq, fun name other => ?_, ran₃.fresh⟩
  · rw [runNow, ingest, Program.runIn_bind_ok _ begun, Program.runIn_bind_ok _ reconciled]
    exact persisted
  · exact (ran₃.others name other).trans (ran₂.named name)

/-- **A new run whose plan the tables give** is committed and finalized. -/
theorem runNow_ingest_planned (orderly : Orderly w) (valid : isRunId runId = true)
    (sound : Sound c w.store) (free : c.activeRunId = none)
    (absent : ∀ row ∈ w.store.runs, row.runId ≠ runId)
    (unbegun : w.jobs (.named (jobId runId "begin")) = none)
    (unused : w.jobs (.named (jobId runId "commit")) = none)
    (planned : planOn runId request (source request) w.store = .ok writes) :
    ∃ t time now w', runNow (fetching source) (ingest request runId) w =
        (.ok (acceptedRow writes ((newRun request runId).row t) time now), w') ∧
      w'.store = acceptedTables request.product writes ((newRun request runId).row t) time now c
        (withRun w.store ((newRun request runId).row t)) := by
  obtain ⟨t, w₁, alone⟩ :=
    runNow_begin_alone (fetching source) request orderly valid sound absent unbegun unused
  have member : (newRun request runId).row t ∈ w₁.store.runs := by
    rw [alone.store]
    exact List.mem_append_right _ (List.mem_singleton_self _)
  have planned₁ : planOn runId request (source request) w₁.store = .ok writes := by
    rw [alone.store]
    exact planned
  have begun : runNow (fetching source) (begin request ((newRun request runId).row t).runId) w =
      (.ok ((newRun request runId).row t), w₁) := alone.begun
  obtain ⟨time, now, w', ingested, ran⟩ := runNow_ingest_settled begun alone.fresh valid
    alone.sound.seeded alone.sound.unique member rfl rfl free alone.unused planned₁
  exact ⟨t, time, now, w', ingested, by rw [ran.store_eq, alone.store]⟩

omit [Platform] in
theorem runNow_fail (runId : String) (e : Exn) (fresh : w.Fresh) (seeded : Seeded w.store c) :
    ∃ message now w', Ran w w' (updateRuns w.store (RunRow.canFail runId)
        (RunRow.fail ⟨runId, e.error.name, message, none⟩ now)) ∧
      runNow outside (fail runId e none) w = (.ok (), w') := by
  let message := if e.error.kind.isGoogleApiCallError then
      "BigQuery job failed; inspect its job ID and authenticated job diagnostics."
    else "Source/normalization/warehouse validation failed; inspect the invoking CLI error."
  have executed : (Script.failure ⟨runId, e.error.name, message, none⟩).execute w.clock w.store =
      .ok (updateRuns w.store (RunRow.canFail runId)
        (RunRow.fail ⟨runId, e.error.name, message, none⟩ w.clock), .none) := by
    rw [Script.execute, (failureQuery_ok seeded).mpr rfl]
    rfl
  obtain ⟨view, w', _, ran, continues⟩ := runNow_job outside fresh executed
  exact ⟨message, w.clock, w', ran, continues fun _ => return ()⟩

/-- A run that was just begun and whose records a check rejects is recorded as failed. -/
theorem runNow_ingest_refused {row : RunRow} {w₁ : Cloud}
    (begun : runNow (fetching source) (begin request row.runId) w = (.ok row, w₁))
    (fresh : w₁.Fresh) (valid : isRunId row.runId = true) (seeded : Seeded w₁.store c)
    (unique : UniqueRuns w₁.store) (member : row ∈ w₁.store.runs) (started : row.status = .started)
    (bound : row.requestId = request.requestId)
    (unused : w₁.jobs (.named (jobId row.runId "commit")) = none)
    (rejected : batchRows request (source request) = .error e) :
    ∃ message now w', runNow (fetching source) (ingest request row.runId) w = (.error e, w') ∧
      Ran w₁ w' (updateRuns w₁.store (RunRow.canFail row.runId)
        (RunRow.fail ⟨row.runId, e.error.name, message, none⟩ now)) := by
  have atRow : runRows w₁.store row.runId = [row] := runRows_eq unique member
  obtain ⟨w₂, ran₂, reconciled⟩ := runNow_reconcile_open (fetching source) fresh valid atRow
    started unused
  obtain ⟨w₃, ran₃, read⟩ := runNow_getRun_some (fetching source) ran₂.fresh valid
    (ran₂.store_eq ▸ atRow)
  have ran : Ran w₁ w₃ w₁.store := ran₂.trans (ran₂.store_eq ▸ ran₃)
  obtain ⟨w₄, ran₄, reconciled'⟩ := runNow_reconcile_open (fetching source) ran.fresh valid
    (ran.store_eq ▸ atRow) started ((ran.named _).trans unused)
  have toPlan : Ran w₁ w₄ w₁.store := ran.trans (ran.store_eq ▸ ran₄)
  obtain ⟨message, now, w₅, ran₅, failed⟩ := runNow_fail (fetching source) row.runId e toPlan.fresh
    (toPlan.store_eq ▸ seeded)
  have checked : runNow (fetching source) (plan request (source request) row.runId) w₄ =
      (.error e, w₄) := by
    have batched : runNow (fetching source) (Program.ofExcept (batchRows request (source request)))
        w₄ = (.error e, w₄) := congrArg (·, w₄) rejected
    rw [runNow, plan, Program.runIn_bind_error _ batched]
  have persisted : runNow (fetching source) (persist request (source request) row.runId) w₂ =
      (.error e, w₅) := by
    rw [runNow, persist, Program.runIn_bind_ok _ read]
    simp only [Option.map_some, bound, ne_eq, not_true_eq_false, ↓reduceIte]
    rw [Program.runIn_bind_ok _ reconciled']
    refine Program.runIn_bind_error _ ((Program.runIn_tryCatch_error _ checked).trans ?_)
    rw [Program.runIn_bind_ok _ failed]
    rfl
  refine ⟨message, now, w₅, ?_, toPlan.trans (toPlan.store_eq ▸ ran₅)⟩
  rw [runNow, ingest, Program.runIn_bind_ok _ begun, Program.runIn_bind_ok _ reconciled]
  exact persisted

/-- **A new run whose records a check rejects** is recorded as failed, and the error of the check is
raised again. -/
theorem runNow_ingest_rejected (orderly : Orderly w) (valid : isRunId runId = true)
    (sound : Sound c w.store) (absent : ∀ row ∈ w.store.runs, row.runId ≠ runId)
    (unbegun : w.jobs (.named (jobId runId "begin")) = none)
    (unused : w.jobs (.named (jobId runId "commit")) = none)
    (rejected : batchRows request (source request) = .error e) :
    ∃ t message now w', runNow (fetching source) (ingest request runId) w = (.error e, w') ∧
      w'.store = updateRuns (withRun w.store ((newRun request runId).row t))
        (RunRow.canFail runId) (RunRow.fail ⟨runId, e.error.name, message, none⟩ now) := by
  obtain ⟨t, w₁, alone⟩ :=
    runNow_begin_alone (fetching source) request orderly valid sound absent unbegun unused
  have member : (newRun request runId).row t ∈ w₁.store.runs := by
    rw [alone.store]
    exact List.mem_append_right _ (List.mem_singleton_self _)
  have begun : runNow (fetching source) (begin request ((newRun request runId).row t).runId) w =
      (.ok ((newRun request runId).row t), w₁) := alone.begun
  obtain ⟨message, now, w', ingested, ran⟩ := runNow_ingest_refused begun alone.fresh valid
    alone.sound.seeded alone.sound.unique member rfl rfl alone.unused rejected
  refine ⟨t, message, now, w', ingested, ?_⟩
  rw [ran.store_eq, alone.store]
  rfl

end Calls

/-! ## What is left -/

/-- What a run leaves whose records were accepted: a manifest that has succeeded and counts the new
contents and the records that differ from the facts, a free gate, and facts into which the records
were put. -/
structure Upserted (request : Request) (records : List Observation) (runId : String)
    (db db' : Database) (final : RunRow) : Prop where
  member : final ∈ db'.runs
  runId : final.runId = runId
  requestId : final.requestId = request.requestId
  succeeded : final.status = .succeeded
  accepted : final.rowsAccepted = some records.length
  newContents : final.newContents = some (records.countP fun record =>
    contentId record ∉ (db.contents request.product).map (·.contentId))
  newTransitions : ∀ table, CurrentFacts request.product db table →
    final.newTransitions = some (records.countP fun record =>
      shown (·.logicalKey) (·.contentHash) table record.logicalKey ≠ some record.contentHash)
  free : db'.gate = none
  facts : ∀ product table table', CurrentFacts product db table → CurrentFacts product db' table' →
    shown (·.logicalKey) (·.contentHash) table' =
      if product = request.product then
        putAll (shown (·.logicalKey) (·.contentHash) table)
          (records.map fun record => (record.logicalKey, record.contentHash))
      else shown (·.logicalKey) (·.contentHash) table

/-- What a run leaves whose records a check has rejected: a manifest that has failed, and all else as
before. -/
structure Rejected (e : Exn) (runId : String) (db db' : Database) : Prop where
  failed : ∃ row ∈ db'.runs, row.runId = runId ∧ row.status = .failed ∧
    row.errorClass = some e.error.name
  others : ∀ row, row.runId ≠ runId → (row ∈ db'.runs ↔ row ∈ db.runs)
  control : db'.control = db.control
  contents : db'.contents = db.contents
  transitions : db'.transitions = db.transitions

section Left

variable {w : Cloud} {c : ControlRow} {serial : Database} {entries : List Entry} {entry : Entry}
  {batch : List BatchRow} {current : Snapshot} {writes : WritePlan}

theorem Commits.count_contents (noCollisions : NoCollisions) (isSerial : Serial c serial)
    (commits : Commits entry c serial batch current writes)
    (catalogue : Catalogue entry.request.product serial) :
    writes.contents.length = entry.records.countP fun record =>
      contentId record ∉ (serial.contents entry.request.product).map (·.contentId) := by
  obtain ⟨_, rfl⟩ := planWrite_eq commits.planned
  have spec := batchRows_spec commits.batched
  rw [List.length_filterMap_eq_countP, spec.perm.countP_eq, List.countP_map]
  refine List.countP_congr fun record member => ?_
  have inBatch := spec.perm.mem_iff.mpr (List.mem_map_of_mem member)
  have unknown : (newContent entry.runId current (rowOf entry.request record)).isSome = true ↔
      (rowOf entry.request record).contentId ∉ current.contents := by
    unfold newContent
    split_ifs with known <;> simp [known]
  rw [Function.comp_apply, unknown, decide_eq_true_iff, not_iff_not,
    commits.known_iff noCollisions isSerial catalogue inBatch]
  constructor
  · rintro ⟨content, at_content, hash⟩
    obtain ⟨inTable, key⟩ := mem_keyContents.mp at_content
    exact List.mem_map.mpr ⟨content, inTable, catalogue.id_of_same inTable key hash⟩
  · intro known
    obtain ⟨content, inTable, same⟩ := List.mem_map.mp known
    obtain ⟨key, hash⟩ := catalogue.same_of_id noCollisions inTable same
    exact ⟨content, mem_keyContents.mpr ⟨inTable, key⟩, hash⟩

theorem Commits.count_transitions (noCollisions : NoCollisions) (isSerial : Serial c serial)
    (commits : Commits entry c serial batch current writes)
    (accepted : acceptAll entries Database.seeded = .ok serial) :
    writes.transitions.length = entry.records.countP fun record =>
      storeAfter entry.request.product entries record.logicalKey ≠ some record.contentHash := by
  obtain ⟨_, rfl⟩ := planWrite_eq commits.planned
  have spec := batchRows_spec commits.batched
  have law := acceptAll_history noCollisions accepted entry.request.product
  rw [List.length_filterMap_eq_countP, spec.perm.countP_eq, List.countP_map]
  refine List.countP_congr fun record member => ?_
  have inBatch := spec.perm.mem_iff.mpr (List.mem_map_of_mem member)
  have history := law.history record.logicalKey
  have latest := commits.latest noCollisions isSerial law.catalogue inBatch history
  rw [storeAfter_eq (acceptAll_puts_keys accepted _), ← List.getLast?_map,
    ← history.revised.last_value, Function.comp_apply, newTransition, Option.isSome_map, nextOrdinal,
    latest]
  have keys : (rowOf entry.request record).logicalKey = record.logicalKey := rfl
  have hashes : (rowOf entry.request record).contentHash = record.contentHash := rfl
  rw [keys, hashes]
  cases (keyTransitions entry.request.product record.logicalKey serial).getLast? with
  | none => simp
  | some transition =>
      by_cases same : transition.contentHash = record.contentHash <;> simp [same]

/-- **The tables after an accepted run** show the records put into the facts. -/
theorem Good.upserted (noCollisions : NoCollisions) {db : Database} (good : Good db)
    (sound : Sound c db) (free : c.activeRunId = none) {request : Request}
    {records : List Observation} {runId : String} {t time now : UtcTime}
    (absent : ∀ row ∈ db.runs, row.runId ≠ runId)
    (batched : batchRows request records = .ok batch)
    (read : readSnapshot (snapshotQuery request.product request.day db) = .ok current)
    (planned : planWrite runId batch current = .ok writes)
    (planned_on : planOn runId request records db = .ok writes)
    (good' : Good (acceptedTables request.product writes ((newRun request runId).row t) time now c
      (withRun db ((newRun request runId).row t)))) :
    Upserted request records runId db
      (acceptedTables request.product writes ((newRun request runId).row t) time now c
        (withRun db ((newRun request runId).row t)))
      (acceptedRow writes ((newRun request runId).row t) time now) := by
  let row := (newRun request runId).row t
  let begun := withRun db row
  have sound_begun : Sound c begun :=
    sound.begun t absent ⟨request, runId, (planWrite_eq planned).1, rfl⟩
  have member : row ∈ begun.runs := List.mem_append_right _ (List.mem_singleton_self row)
  obtain ⟨_, linear⟩ := good.of_seeded sound.seeded
  obtain ⟨entries, serial, accepted, mirrors⟩ := linear
  obtain ⟨c', isSerial⟩ := acceptAll_serial accepted
  obtain rfl : c' = c := isSerial.sound.seeded.control_unique sound.seeded mirrors.control
  -- The run is the next one of the serial execution.
  let entry : Entry := ⟨runId, request, request, records, t, none, rfl⟩
  have commits : Commits entry c' serial batch current writes := by
    refine ⟨batched, ?_, planned, fun x at_x => ?_, free⟩
    · rw [snapshotQuery_congr isSerial.sound.seeded sound.seeded mirrors.contents
        mirrors.transitions]
      exact read
    · obtain ⟨x', at_x', _, same⟩ := mirrors.sub x at_x
      rw [RunRow.outcome_runId same]
      exact absent x' at_x'
  have next : acceptAll (entries ++ [entry]) Database.seeded = .ok (afterRun entry writes c' serial) :=
    acceptAll_snoc.mpr ⟨serial, accepted, (acceptRun_iff isSerial).mpr
      ⟨batch, current, writes, commits, rfl⟩⟩
  have planned_serial : planOn runId request records (withRun serial row) = .ok writes := by
    rw [← planned_on, planOn, planOn]
    have same : snapshotQuery request.product request.day (withRun serial row) =
        snapshotQuery request.product request.day db :=
      snapshotQuery_congr isSerial.sound.seeded sound.seeded mirrors.contents mirrors.transitions _ _
    rw [same]
  have seeded_serial : Seeded (withRun serial row) c' :=
    ⟨isSerial.sound.seeded.control, isSerial.sound.seeded.singleton, isSerial.sound.seeded.schema⟩
  have enters : begun.ledger.accept runId request records =
      .ok (afterRun entry writes c' serial).ledger := by
    have same : begun.ledger = (withRun serial row).ledger := mirrors.ledger.symm
    rw [same]
    exact accept_committed seeded_serial free planned_serial
  obtain ⟨writes', planned', ledger⟩ := accepted_ledger sound_begun.seeded sound_begun.unique
    member free enters
  have sameWrites : writes' = writes := Except.ok.inj (planned'.symm.trans planned_on)
  subst sameWrites
  have after_seeded : Seeded (acceptedTables request.product writes' row time now c' begun)
      ((c'.take runId).release) :=
    ⟨rfl, sound.seeded.singleton, sound.seeded.schema⟩
  obtain ⟨sound', _⟩ := good'.of_seeded after_seeded
  refine {
    member := ?member
    runId := rfl
    requestId := rfl
    succeeded := rfl
    accepted := ?accepted
    newContents := ?newContents
    newTransitions := ?newTransitions
    free := after_seeded.gate.trans rfl
    facts := ?facts }
  case member =>
    exact (accepted_replaces request.product writes' c' sound_begun.unique member time now).member'
  case accepted =>
    have spec := batchRows_spec batched
    have count : writes'.accepted = records.length := by
      rw [(planWrite_eq planned).2, spec.perm.length_eq, List.length_map]
    exact congrArg some count
  case newContents =>
    have law := acceptAll_history noCollisions accepted request.product
    rw [← mirrors.contents]
    exact congrArg some (commits.count_contents noCollisions isSerial law.catalogue)
  case newTransitions =>
    intro table facts
    rw [facts.shown_ledger noCollisions good sound free accepted mirrors.ledger]
    exact congrArg some (commits.count_transitions noCollisions isSerial accepted)
  case facts =>
    intro product table table' facts facts'
    rw [facts.shown_ledger noCollisions good sound free accepted mirrors.ledger,
      facts'.shown_ledger noCollisions good' sound' rfl next (ledger time now).symm, storeAfter,
      List.foldl_append, List.foldl_cons, List.foldl_nil, Entry.puts]
    by_cases ofProduct : request.product = product
    · rw [if_pos ofProduct, if_pos ofProduct.symm]
      rfl
    · rw [if_neg ofProduct, if_neg (Ne.symm ofProduct)]
      rfl

omit [Platform] in
/-- **The tables after a rejected run** that was begun: recording the failure changes its manifest
and nothing else. -/
theorem rejected_of_begun {db begun : Database} {row : RunRow} (member : row ∈ begun.runs)
    (started : row.status = .started)
    (others : ∀ other, other.runId ≠ row.runId → (other ∈ begun.runs ↔ other ∈ db.runs))
    (unique : UniqueRuns begun) (control : begun.control = db.control)
    (contents : begun.contents = db.contents) (transitions : begun.transitions = db.transitions)
    (completed : row.commitCompleted = false) (e : Exn) (now : UtcTime) (message : String) :
    Rejected e row.runId db (updateRuns begun (RunRow.canFail row.runId)
      (RunRow.fail ⟨row.runId, e.error.name, message, none⟩ now)) := by
  have fails : row.canFail row.runId = true := by simp [RunRow.canFail, started, completed]
  let p : FailureParameters := ⟨row.runId, e.error.name, message, none⟩
  have replaces : Replaces begun.runs
      (updateRuns begun (RunRow.canFail p.runId) (RunRow.fail p now)).runs row (row.fail p now) :=
    failure_replaces unique now (runRows_eq unique member) fails
  exact ⟨⟨row.fail p now, replaces.member', rfl, rfl, rfl⟩,
    fun other differs => (replaces.others differs).trans (others other differs), control, contents,
    transitions⟩

theorem Sound.rejected {db : Database} (sound : Sound c db) {request : Request} {runId : String}
    (absent : ∀ row ∈ db.runs, row.runId ≠ runId) (valid : isRunId runId = true) (e : Exn)
    (t now : UtcTime) (message : String) :
    Rejected e runId db (updateRuns (withRun db ((newRun request runId).row t))
      (RunRow.canFail runId) (RunRow.fail ⟨runId, e.error.name, message, none⟩ now)) := by
  let row := (newRun request runId).row t
  have sound_begun : Sound c (withRun db row) := sound.begun t absent ⟨request, runId, valid, rfl⟩
  have member : row ∈ (withRun db row).runs := List.mem_append_right _ (List.mem_singleton_self row)
  have others : ∀ other, other.runId ≠ row.runId →
      (other ∈ (withRun db row).runs ↔ other ∈ db.runs) := by
    intro other differs
    rw [withRun, List.mem_append, List.mem_singleton]
    exact or_iff_left fun same => differs (congrArg RunRow.runId same)
  exact rejected_of_begun member rfl others sound_begun.unique rfl rfl rfl rfl e now message

end Left

/-- **Ingesting is an upsert.** In every reachable state that was created and has a free gate, calling
`ingest` with a new run id, when nobody else acts and every call is answered, succeeds if the records
of the source pass the checks of a batch. The facts show the records put into the facts from before,
and the manifest counts the contents that were not known and the records that differ from the facts.
If a check rejects the records, its error is raised, the run has failed, and all else is as
before. -/
theorem ingest_alone (noCollisions : NoCollisions) {s : WarehouseSystem} (reachable : Reachable s)
    (created : s.world.store ≠ .created) (free : s.world.store.gate = none) (request : Request)
    {runId : String} (valid : isRunId runId = true)
    (absent : ∀ row ∈ s.world.store.runs, row.runId ≠ runId)
    (unbegun : s.world.jobs (.named (jobId runId "begin")) = none)
    (unused : s.world.jobs (.named (jobId runId "commit")) = none)
    (source : Request → List Observation) :
    (∀ batch, batchRows request (source request) = .ok batch →
      ∃ final w', runNow (fetching source) (ingest request runId) s.world = (.ok final, w') ∧
        Upserted request (source request) runId s.world.store w'.store final) ∧
    ∀ e, batchRows request (source request) = .error e →
      ∃ w', runNow (fetching source) (ingest request runId) s.world = (.error e, w') ∧
        Rejected e runId s.world.store w'.store := by
  have orderly := reachable.orderly
  obtain ⟨c, sound, _⟩ := orderly.good.resolve_left created
  have open_ : c.activeRunId = none := sound.seeded.gate.symm.trans free
  constructor
  · intro batch batched
    obtain ⟨current, writes, read, written, planned⟩ :=
      orderly.good.planned noCollisions sound open_ valid batched
    obtain ⟨t, time, now, w', ingested, store⟩ :=
      runNow_ingest_planned orderly valid sound open_ absent unbegun unused planned
    have kept : Orderly w' := by
      have safe : protocol.Safe Permits (fun _ _ => True) (ingest request runId) s.world :=
        ingest_safe
      have after := runNow_orderly (fetching source) orderly safe
      rwa [ingested] at after
    refine ⟨_, w', ingested, ?_⟩
    rw [store]
    exact orderly.good.upserted noCollisions sound open_ absent batched read written planned
      (store ▸ kept.good)
  · intro e rejected
    obtain ⟨t, message, now, w', ingested, store⟩ :=
      runNow_ingest_rejected orderly valid sound absent unbegun unused rejected
    refine ⟨w', ingested, ?_⟩
    rw [store]
    exact sound.rejected absent valid e t now message

omit [Platform] in
set_option maxRecDepth 10000 in
/-- One load observation is put into the facts of a warehouse that was just created. -/
theorem ingest_alone_sample :
    letI := Platform.plain
    ∃ final w', runNow (fetching fun _ => [sampleObservation]) (ingest sampleRequest sampleRunId)
        bootstrapped.world = (.ok final, w') ∧
      Upserted sampleRequest [sampleObservation] sampleRunId bootstrapped.world.store w'.store
        final := by
  obtain ⟨store, unbegun⟩ := bootstrapped_plain
  have created : (@bootstrapped Platform.plain).world.store ≠ .created := by
    rw [store]
    exact fun same => by cases congrArg Database.control same
  have absent : ∀ row ∈ (@bootstrapped Platform.plain).world.store.runs,
      row.runId ≠ sampleRunId := by
    rw [store]
    exact fun row member => by cases member
  have free : (@bootstrapped Platform.plain).world.store.gate = none := by
    rw [store]
    rfl
  have unused : letI := Platform.plain
      bootstrapped.world.jobs (.named (jobId sampleRunId "commit")) = none := by rfl
  have batched : letI := Platform.plain
      batchRows sampleRequest [sampleObservation] =
        .ok [rowOf sampleRequest sampleObservation] := by rfl
  exact (@ingest_alone Platform.plain noCollisions_plain _ (@bootstrapped_reachable Platform.plain)
    created free sampleRequest _ (by decide) absent unbegun unused fun _ => [sampleObservation]).1 _
      batched

end PowerMarket
