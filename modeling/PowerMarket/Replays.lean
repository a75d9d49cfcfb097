import PowerMarket.Uninterrupted

/-!
# Serial executions in the system

Every serial execution of runs happens in the system, by one process after another that ingests the
records of a run alone (`Replays.run`). So the serial executions are not only what the system can be
explained by, but all of them are reached. What a key went through in a serial execution is then in
the tables that the system reaches (`Replays.hashes`).
-/

set_option autoImplicit false

namespace PowerMarket

open Library JobService

variable [Platform]

/-- A state that was reached by executing the runs of serial tables, one after another: exactly
these have succeeded, nothing is left to do for another run, and there is room for a process. -/
structure Replays (db : Database) (s : WarehouseSystem) : Prop where
  reachable : Reachable s
  sound : ∃ c, Sound c s.world.store
  free : s.world.store.gate = none
  ledger : s.world.store.ledger = db.ledger
  finished : ∀ row ∈ db.runs, Finished s.world row.runId row.requestId
  runs : ∀ row ∈ s.world.store.runs, row.status = .succeeded ∧
    ∃ other ∈ db.runs, other.runId = row.runId ∧ other.requestId = row.requestId
  unused : ∀ runId, isRunId runId = true → (∀ row ∈ db.runs, row.runId ≠ runId) →
    ∀ operation ∈ ["begin", "commit"], s.world.jobs (.named (jobId runId operation)) = none
  room : ∃ n, ∀ i, n ≤ i → s.processes i = none

section Steps

variable {s : WarehouseSystem} {runId : String} {request : Request}
  {records : List Observation} {ledger : Ledger}

/-- **A process that ingests a new run alone** is a run of the system. -/
theorem Reachable.ingests (reachable : Reachable s) {c : ControlRow} (sound : Sound c s.world.store)
    (free : s.world.store.gate = none) {i : Nat} (room : s.processes i = none)
    (valid : isRunId runId = true) (absent : ∀ row ∈ s.world.store.runs, row.runId ≠ runId)
    (unused : ∀ operation ∈ ["begin", "commit"],
      s.world.jobs (.named (jobId runId operation)) = none)
    (accepted : s.world.store.ledger.accept runId request records = .ok ledger) :
    ∃ w process, SystemRun s ⟨w, Function.update s.processes i (some process)⟩ ∧
      Ingests s.world w runId request.requestId ledger := by
  let source : Request → List Observation := fun _ => records
  have fetched : s.world.store.ledger.accept runId request (source request) = .ok ledger := accepted
  obtain ⟨final, w, ingested, ingests⟩ := runNow_ingest_new reachable.orderly valid sound free
    absent (unused _ (by simp)) (unused _ (by simp)) fetched
  have run := reachable.launched room (.ingest request runId) (fetching source) []
  rw [WarehouseSystem.finish, PowerMarket.alone, Program.runWith_nil] at run
  have returned : Program.runIn (answer (fetching source)) (Launch.ingest request runId).start
      s.world = (.ok (.manifest final), w) := Program.runIn_bind_ok _ ingested
  rw [returned] at run
  exact ⟨w, _, run, ingests⟩

end Steps

namespace Replays

variable {db : Database} {s : WarehouseSystem}

/-- **One more run** of a serial execution is executed by one more process. -/
theorem next (replays : Replays db s) {c : ControlRow} {entry : Entry} {batch : List BatchRow}
    {current : Snapshot} {plan : WritePlan} (serial : Serial c db)
    (commits : Commits entry c db batch current plan) :
    ∃ s', SystemRun s s' ∧ Replays (afterRun entry plan c db) s' := by
  obtain ⟨control, sound⟩ := replays.sound
  obtain ⟨n, room⟩ := replays.room
  have valid : isRunId entry.runId = true := (planWrite_eq commits.planned).1
  have absent : ∀ row ∈ s.world.store.runs, row.runId ≠ entry.runId := by
    intro row member same
    obtain ⟨_, other, before, ofRun, _⟩ := replays.runs row member
    exact commits.fresh other before (ofRun.trans same)
  have accepted : s.world.store.ledger.accept entry.runId entry.request entry.records = .ok
      (afterRun entry plan c db).ledger := by
    rw [replays.ledger]
    exact commits.accepts serial
  obtain ⟨w, process, run, ingests⟩ := replays.reachable.ingests sound replays.free
    (room n le_rfl) valid absent (replays.unused _ valid commits.fresh) accepted
  obtain ⟨reachable, future⟩ := replays.reachable.run run
  obtain ⟨final, member, ofRun, bound, succeeded⟩ := ingests.final
  have id : (entry.manifest plan).runId = entry.runId := entry.manifest_runId plan
  have runs : (afterRun entry plan c db).runs = db.runs ++ [entry.manifest plan] :=
    afterRun_runs commits
  refine ⟨_, run, reachable, reachable.orderly.good.sound member,
    ingests.free replays.reachable.orderly reachable.orderly replays.free, ingests.ledger, ?_, ?_,
    ?_, ?_⟩
  · rw [runs, List.forall_mem_append, List.forall_mem_singleton, id, entry.manifest_requestId]
    exact ⟨fun row before => (replays.finished row before).mono future, ingests.final⟩
  · intro row present
    rw [runs]
    by_cases same : row.runId = entry.runId
    · rw [run_unique reachable.orderly.good.unique present member (same.trans ofRun.symm)]
      exact ⟨succeeded, _, List.mem_append_right _ (List.mem_singleton_self _), id.trans ofRun.symm,
        (entry.manifest_requestId plan).trans bound.symm⟩
    · obtain ⟨done, other, before, ofOther⟩ :=
        replays.runs row ((ingests.others row same).mp present)
      exact ⟨done, other, List.mem_append_left _ before, ofOther⟩
  · intro other valid' fresh operation inList
    rw [runs, List.forall_mem_append, List.forall_mem_singleton, id] at fresh
    exact (ingests.jobs_other valid valid' fresh.2.symm operation).trans
      (replays.unused other valid' fresh.1 operation inList)
  · refine ⟨n + 1, fun i later => ?_⟩
    exact (Function.update_of_ne (by omega) ..).trans (room i (by omega))

/-- **Every serial execution is a run of the system.** -/
theorem run (replays : Replays db s) {c : ControlRow} (serial : Serial c db) {entries : List Entry}
    {after : Database} (accepted : acceptAll entries db = .ok after) :
    ∃ s', SystemRun s s' ∧ Replays after s' := by
  induction entries generalizing db s c with
  | nil =>
      cases accepted
      exact ⟨s, .refl, replays⟩
  | cons entry entries ih =>
      rw [acceptAll, List.foldlM_cons] at accepted
      obtain ⟨middle, first, rest⟩ := bind_eq_ok.mp accepted
      obtain ⟨batch, current, plan, commits, rfl⟩ := (acceptRun_iff serial).mp first
      obtain ⟨s₁, begun, replays₁⟩ := replays.next serial commits
      obtain ⟨s₂, continued, replays₂⟩ := ih replays₁ (afterRun_serial serial commits) rest
      exact ⟨s₂, begun.trans continued, replays₂⟩

omit [Platform] in
theorem hashes_ledger {a b : Database} (same : a.ledger = b.ledger) (product : Product)
    (key : String) : (keyTransitions product key a).map (·.contentHash) =
      (keyTransitions product key b).map (·.contentHash) := by
  have shown : ∀ db : Database, (keyTransitions product key db).map (·.contentHash) =
      ((db.ledger.transitions product).filter (·.logicalKey = key)).map (·.contentHash) := by
    intro db
    rw [keyTransitions, Database.ledger, List.filter_map, List.map_map]
    rfl
  rw [shown, shown, same]

/-- **What a key went through** in a serial execution is in the tables of the system. -/
theorem hashes (replays : Replays db s) (noCollisions : NoCollisions) {entries : List Entry}
    (accepted : acceptAll entries Database.seeded = .ok db) (product : Product) (key : String) :
    (keyTransitions product key s.world.store).map (·.contentHash) =
      revisions ((observations product key entries).map Prod.snd) := by
  rw [hashes_ledger replays.ledger]
  exact ((acceptAll_history noCollisions accepted product).history key).revised.values

end Replays

/-! ## A load that is revised and corrected back -/

omit [Platform] in
/-- Nothing has happened after the warehouse was created. -/
theorem bootstrapped_replays : letI := Platform.plain
    Replays Database.seeded bootstrapped := by
  let _ := Platform.plain
  have store := bootstrapped_plain.1
  refine ⟨bootstrapped_reachable, ⟨_, store ▸ sound_seeded⟩, store ▸ rfl, congrArg _ store,
    List.forall_mem_nil _, store ▸ List.forall_mem_nil _, fun runId valid _ operation _ => ?_,
    1, fun i later => Function.update_of_ne (by omega) ..⟩
  rw [bootstrapped_jobs, Function.update_idem, Function.update_of_ne]
  intro same
  exact jobId_bootstrap valid (JobId.named.inj same).symm

omit [Platform] in
/-- The first runs of the history succeed in the system, one after another, and then some more. -/
theorem sampleHistory_replays {m n : Nat} (le : m ≤ n) :
    letI := Platform.plain
    ∃ db db' s s', acceptAll (sampleHistory.take m) Database.seeded = .ok db ∧
      acceptAll (sampleHistory.take n) Database.seeded = .ok db' ∧
      Replays db s ∧ Replays db' s' ∧ SystemRun s s' := by
  let _ := Platform.plain
  obtain ⟨distinct, passes⟩ := sampleHistory_passes
  obtain ⟨_, db', accepted, _⟩ := acceptAll_ok noCollisions_plain
    (distinct.sublist ((List.take_sublist n _).map _))
    fun entry member => passes entry (List.mem_of_mem_take member)
  have split : sampleHistory.take n =
      sampleHistory.take m ++ (sampleHistory.take n).drop m := by
    conv_lhs => rw [← List.take_append_drop m (sampleHistory.take n), List.take_take,
      min_eq_left le]
  have parts := accepted
  rw [split, acceptAll, List.foldlM_append] at parts
  obtain ⟨db, first, rest⟩ := bind_eq_ok.mp parts
  obtain ⟨c, serial⟩ := acceptAll_serial first
  obtain ⟨s, _, replays⟩ := bootstrapped_replays.run serial_seeded first
  obtain ⟨s', run, replays'⟩ := replays.run serial rest
  exact ⟨db, db', s, s', first, accepted, replays, replays', run⟩

/-- Tables in which the runs of the history have succeeded: the load was revised and corrected back,
and the load after it was not revised. -/
structure Revised (db : Database) : Prop where
  runs : ∀ entry ∈ sampleHistory, ∃ row ∈ db.runs, row.runId = entry.runId
  succeeded : ∀ row ∈ db.runs, row.status = .succeeded
  hashes : (keyTransitions .load sampleObservation.logicalKey db).map (·.contentHash) =
    [sampleObservation.contentHash, sampleRevision.contentHash, sampleObservation.contentHash]
  others : (keyTransitions .load sampleSuccessor.logicalKey db).map (·.contentHash) =
    [sampleSuccessor.contentHash]

theorem Revised.ne_created {db : Database} (revised : Revised db) : db ≠ .created := by
  rintro rfl
  obtain ⟨row, member, _⟩ := revised.runs sampleEntry List.mem_cons_self
  cases member

theorem Replays.revised (noCollisions : NoCollisions) {db : Database} {s : WarehouseSystem}
    (replays : Replays db s) (accepted : acceptAll sampleHistory Database.seeded = .ok db) :
    Revised s.world.store := by
  refine ⟨fun entry member => ?_, fun row member => (replays.runs row member).1, ?_, ?_⟩
  · have inRuns := List.mem_map_of_mem (f := (·.runId)) member
    rw [← acceptAll_ids accepted] at inRuns
    obtain ⟨row, present, ofRun⟩ := List.mem_map.mp inRuns
    obtain ⟨final, inStore, ofFinal, _⟩ := replays.finished row present
    exact ⟨final, inStore, ofFinal.trans ofRun⟩
  · rw [replays.hashes noCollisions accepted, sampleHistory_observed noCollisions,
      sampleHistory_revisions noCollisions]
  · rw [replays.hashes noCollisions accepted, sampleHistory_others noCollisions]
    rfl

omit [Platform] in
/-- A state after the whole history is reached. -/
theorem exists_revised : letI := Platform.plain
    ∃ s, Reachable s ∧ Revised s.world.store := by
  let _ := Platform.plain
  obtain ⟨_, _, _, s, _, accepted, _, replays, _⟩ :=
    sampleHistory_replays (m := 0) (n := 4) (by omega)
  exact ⟨s, replays.reachable, replays.revised noCollisions_plain accepted⟩

end PowerMarket
