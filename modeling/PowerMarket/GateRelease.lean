import PowerMarket.System
import PowerMarket.Warehouse.Calls

/-!
# The finalization gate can be released

Whoever holds the gate has committed, and its commit job has ended without error. A finalization
of the holder passes its assertions in every later state (`finalization_passes`), and
reconciling the holder releases the gate, alone or among other processes (`gate_releasable`). The
scripts that reconciling submits change nothing but the manifest of the run, the gate, and the
missing clocks of its own rows (`Released`).
-/

set_option autoImplicit false

namespace PowerMarket

open Library JobService

/-! ## What a finalization changes -/

/-- Between the two databases a run was finalized: it has succeeded, the gate is free, and apart
from that only the missing clocks of its own rows were set. -/
structure Released (product : Product) (runId : String) (knowledgeAt : UtcTime)
    (db after : Database) : Prop where
  gate : after.gate = none
  sequence : after.sequence = db.sequence
  succeeded : ∃ row ∈ after.runs, row.runId = runId ∧ row.status = .succeeded ∧
    row.knowledgeAt = some knowledgeAt
  others : ∀ row, row.runId ≠ runId → (row ∈ after.runs ↔ row ∈ db.runs)
  contents : ∀ product', after.contents product' = (db.contents product').map fun row =>
    if product' = product ∧ row.firstRunId = runId ∧ row.firstSeenAt = none then
      { row with firstSeenAt := some knowledgeAt } else row
  transitions : ∀ product', after.transitions product' = (db.transitions product').map fun row =>
    if product' = product ∧ row.runId = runId ∧ row.knownAt = none then
      { row with knownAt := some knowledgeAt } else row

variable {c : ControlRow} {db : Database} {product : Product} {p : FinalizeParameters}
  {row : RunRow}

theorem released_finalized (seeded : Seeded db c) (unique : UniqueRuns db)
    (atRow : runRows db p.runId = [row]) (now : UtcTime) :
    Released product p.runId p.knowledgeAt db (finalizedDatabase product p now c db) := by
  have ofRun : row.runId = p.runId := (mem_runRows.mp (atRow ▸ List.mem_singleton_self row)).2
  have replaces : Replaces db.runs (finalizedDatabase product p now c db).runs row
      (row.succeed p now) := updateRuns_replaces unique atRow fun _ => rfl
  refine ⟨rfl, seeded.sequence.symm, ⟨row.succeed p now, replaces.member', ofRun, rfl, rfl⟩,
    fun x differs => replaces.others fun same => differs (same.trans ofRun),
    fun product' => ?_, fun product' => ?_⟩
  · by_cases same : product' = product
    · subst same
      simp [finalizedDatabase, updateRuns, fillClocks]
    · simp [finalizedDatabase, updateRuns, fillClocks, same]
  · by_cases same : product' = product
    · subst same
      simp [finalizedDatabase, updateRuns, fillClocks]
    · simp [finalizedDatabase, updateRuns, fillClocks, same]

/-- The scripts that reconciling a run submits. -/
inductive Resumes (runId : String) : Script → Prop where
  | read : Resumes runId (.getRun runId)
  | finalize (product : Product) (p : FinalizeParameters) (ofRun : p.runId = runId) :
      Resumes runId (.finalize product p)
  | fail (p : FailureParameters) (ofRun : p.runId = runId) : Resumes runId (.failure p)

/-- **What reconciling can change** once its run has committed: nothing, or the run is
finalized. -/
theorem Effect.resumed {after : Database} {script : Script} (effect : Effect db script after)
    (unique : UniqueRuns db) (member : row ∈ db.runs)
    (committed : row.status.hasCommitted = true) (resumes : Resumes row.runId script) :
    after = db ∨ ∃ product knowledgeAt, Released product row.runId knowledgeAt db after := by
  cases resumes with
  | read =>
      cases effect
      exact .inl rfl
  | finalize product p ofRun =>
      cases effect with
      | idle => exact .inl rfl
      | finalized now seeded atRow status gate =>
          exact .inr ⟨product, p.knowledgeAt, ofRun ▸ released_finalized seeded unique atRow now⟩
  | fail p ofRun =>
      cases effect with
      | idle => exact .inl rfl
      | @failed c _ other now seeded atRow canFail =>
          rw [ofRun, runRows_eq unique member] at atRow
          cases atRow
          simp only [RunRow.canFail, Bool.and_eq_true, decide_eq_true_eq] at canFail
          rw [canFail.1.2] at committed
          cases committed

variable [Platform] {w : Cloud}

/-- **A finalization passes its assertions** in every state in which its commit job has ended. It
releases the gate, or its run has been finalized before and nothing changes. -/
theorem Orderly.finalization (orderly : Orderly w)
    (submittable : Submittable w (.finalize product p)) (now : UtcTime) :
    ∃ after, (Script.finalize product p).execute now w.store = .ok (after, .none) ∧
      (w.store.gate = some p.runId → Released product p.runId p.knowledgeAt w.store after) ∧
      (w.store.gate ≠ some p.runId → after = w.store) := by
  obtain ⟨ended, _⟩ := submittable.2 product p rfl
  obtain ⟨row, member, ofRun, committed⟩ := ended.hasCommitted orderly
  obtain ⟨c, sound⟩ := orderly.good.sound member
  have atRow : runRows w.store p.runId = [row] := ofRun ▸ runRows_eq sound.unique member
  have held : w.store.gate = some p.runId ↔ row.status = .committed := by
    rw [sound.seeded.gate, sound.gate row member, ofRun]
  have few := runRows_length_le sound.unique p.runId
  have executes : ∀ after, finalizeQuery product p now w.store = .ok after →
      (Script.finalize product p).execute now w.store = .ok (after, .none) := by
    intro after result
    rw [Script.execute, result]
    rfl
  rcases Status.hasCommitted_iff.mp committed with status | status
  · have gate := (sound.gate row member).mp status
    refine ⟨finalizedDatabase product p now c w.store, executes _
      ((finalizeQuery_ok sound.seeded few).mpr
        (.inl ⟨⟨row, atRow, status, ofRun ▸ gate⟩, rfl⟩)), fun _ => ?_, fun free => ?_⟩
    · exact released_finalized sound.seeded sound.unique atRow now
    · exact absurd (held.mpr status) free
  · have done : ∀ x ∈ runRows w.store p.runId, x.status = .succeeded := by
      intro x at_x
      rw [atRow, List.mem_singleton] at at_x
      rw [at_x, status]
    refine ⟨w.store, executes _ ((finalizeQuery_ok sound.seeded few).mpr (.inr ⟨done, rfl⟩)),
      fun gate => ?_, fun _ => rfl⟩
    rw [held.mp gate] at status
    cases status

/-! ## The calls of reconciling -/

/-- A call that submits a script submits one of these. -/
def Submits (scripts : Script → Prop) (c : ClientCall) : Prop :=
  ∀ name script, c = .query name script → scripts script

/-- **Reconciling** submits reads, finalizations and failures of its run. -/
theorem reconcile_calls (runId : String) :
    (reconcile runId).Calls (Submits (Resumes runId)) :=
  (reconcile_within .read (fun _ p ofRun => .finalize _ p ofRun) fun p ofRun => .fail p ofRun).mono
    fun _ within => within.2

/-! ## Reconciling alone -/

section Alone

variable (outside : (request : Outside) → Except Exn request.Reply)

omit [Platform] in
/-- Finalizing alone, when the script passes and leaves a manifest that has succeeded. -/
theorem runNow_finalize {runId : String} {ended : UtcTime} {usage : Usage} (fresh : w.Fresh)
    (valid : isRunId runId = true) {after : Database}
    (executed : (Script.finalize product ⟨runId, ended, usage.processed, usage.billed⟩).execute
      w.clock w.store = .ok (after, .none))
    (rows : runRows after runId = [row]) (succeeded : row.status = .succeeded) :
    ∃ w', Ran w w' after ∧
      runNow outside (finalize runId product ended usage) w = (.ok row, w') := by
  obtain ⟨view, w₁, _, ran₁, continues⟩ := runNow_job outside fresh executed
  have found : runRows w₁.store runId = (some row).toList := ran₁.store_eq ▸ rows
  obtain ⟨w₂, ran₂, read⟩ := runNow_getRun outside ran₁.fresh valid found
  refine ⟨w₂, ran₁.trans (ran₁.store_eq ▸ ran₂), ?_⟩
  have finished := continues fun _ => return ()
  rw [runNow, finalize]
  refine (Program.runIn_bind_ok _ (Program.runIn_tryCatch_ok _ finished)).trans ?_
  rw [Program.runIn_bind_ok _ read]
  simp only [succeeded, ne_eq, not_true_eq_false, ↓reduceIte]
  rfl

/-- Following a commit job that has ended, when the finalization passes at any time. -/
theorem runNow_followJob {runId : String} {id : JobId String} {script : Script} {rows : Rows}
    {time : UtcTime} {usage : Usage} (fresh : w.Fresh) (valid : isRunId runId = true)
    (job : w.jobs id = some ⟨script, .ended (.ok rows) time usage⟩)
    {after : UtcTime → Database} {final : UtcTime → RunRow}
    (executed : ∀ now, (Script.finalize product ⟨runId, time, usage.processed,
      usage.billed⟩).execute now w.store = .ok (after now, .none))
    (manifest : ∀ now, runRows (after now) runId = [final now])
    (succeeded : ∀ now, (final now).status = .succeeded) :
    ∃ now w', Ran w w' (after now) ∧
      runNow outside (followJob runId product id) w = (.ok (some (final now)), w') := by
  let w₁ : Cloud := { w with clock := max w.clock time }
  have fresh₁ : w₁.Fresh := fresh
  have waited : runNow outside (wait id) w = (_, w₁) := runNow_wait_ended outside job
  obtain ⟨w₂, ran, finalized⟩ := runNow_finalize outside fresh₁ valid
    (executed w₁.clock) (manifest w₁.clock) (succeeded w₁.clock)
  refine ⟨w₁.clock, w₂, ⟨ran.store_eq, le_trans (le_max_left _ _) ran.clock_le, ran.named,
    ran.fresh⟩, ?_⟩
  simp only [runNow, followJob, Program.runIn_attempt, waited]
  exact Program.runIn_bind_ok _ finalized

/-- **Reconciling alone** finalizes a committed run. -/
theorem runNow_reconcile (orderly : Orderly w) (member : row ∈ w.store.runs)
    (committed : row.status = .committed) :
    ∃ row' product knowledgeAt w',
      runNow outside (reconcile row.runId) w = (.ok (some row'), w') ∧ row'.runId = row.runId ∧
        row'.status = .succeeded ∧
        Released product row.runId knowledgeAt w.store w'.store := by
  have fresh : w.Fresh := fun n bound => orderly.consistent.fresh bound
  obtain ⟨c, sound⟩ := orderly.good.sound member
  have valid := sound.valid row member
  have gate := (sound.gate row member).mp committed
  have atRow := runRows_eq sound.unique member
  obtain ⟨time, ⟨_, p, rows, usage, _, job⟩, _⟩ :=
    orderly.committed row member (by rw [committed]; rfl)
  -- The manifest says that the run has committed, and its commit job is found to have ended.
  have found : runRows w.store row.runId = (some row).toList := atRow
  obtain ⟨w₁, ran₁, read⟩ := runNow_getRun outside fresh valid found
  have job₁ := (ran₁.named (jobId row.runId "commit")).trans job
  have known : (w₁.jobs (.named (jobId row.runId "commit"))).isSome = true := by rw [job₁]; rfl
  -- The finalization passes on the tables as they are.
  let q : FinalizeParameters := ⟨row.runId, time, usage.processed, usage.billed⟩
  have executed : ∀ now, (Script.finalize row.product q).execute now w₁.store =
      .ok (finalizedDatabase row.product q now c w.store, .none) := by
    intro now
    have result : finalizeQuery row.product q now w.store =
        .ok (finalizedDatabase row.product q now c w.store) :=
      (finalizeQuery_ok sound.seeded (runRows_length_le sound.unique _)).mpr
        (.inl ⟨⟨row, atRow, committed, gate⟩, rfl⟩)
    rw [ran₁.store_eq, Script.execute, result]
    rfl
  have manifest : ∀ now, runRows (finalizedDatabase row.product q now c w.store) row.runId =
      [row.succeed q now] := by
    intro now
    have replaces : Replaces w.store.runs (finalizedDatabase row.product q now c w.store).runs row
        (row.succeed q now) := updateRuns_replaces sound.unique atRow fun _ => rfl
    exact runRows_eq (replaces.unique sound.unique) replaces.member'
  obtain ⟨now, w₂, ran₂, followed⟩ := runNow_followJob outside ran₁.fresh valid job₁ executed
    manifest fun _ => rfl
  refine ⟨row.succeed q now, row.product, time, w₂, ?_, rfl, rfl, ?_⟩
  · rw [runNow, reconcile, Program.runIn_bind_ok _ read]
    simp only [committed]
    rw [Program.runIn_bind_ok _ (runNow_commitJob outside known)]
    exact followed
  · rw [ran₂.store_eq]
    have released : Released row.product q.runId q.knowledgeAt w.store
        (finalizedDatabase row.product q now c w.store) :=
      released_finalized sound.seeded sound.unique atRow now
    exact released

end Alone

/-! ## Releasing the gate -/

/-- What is known, and what can be done, about the run that holds the gate. -/
structure Releasable (s : WarehouseSystem) (runId : String) : Prop where
  committed : ∃ row ∈ s.world.store.runs, row.runId = runId ∧ row.status = .committed
  ended : ∃ time, CommitEnded s.world runId time
  only : ∀ id job product p, s.world.jobs id = some job → job.script = .commit product p →
    p.runId = runId → id = .named (jobId runId "commit")
  passes : ∀ s', SystemRun s s' → ∀ id job product p, s'.world.jobs id = some job →
    job.script = .finalize product p → p.runId = runId → ∀ now, ∃ after,
      job.script.execute now s'.world.store = .ok (after, .none) ∧ after.gate ≠ some runId
  submits : (reconcile runId).Calls (Submits (Resumes runId))
  effects : ∀ s' s'', SystemRun s s' → SystemStep s' s'' → ∀ id script rows time usage,
    TakesEffect s'.world s''.world id script rows time usage → Resumes runId script →
      s''.world.store = s'.world.store ∨ ∃ product knowledgeAt,
        Released product runId knowledgeAt s'.world.store s''.world.store
  reconciled : ∀ s' i history result, SystemRun s s' → s.processes i = none →
    s'.processes i = some ⟨.reconcile runId, history, some (.done result)⟩ →
    (∀ event ∈ history, Answered event.call event.reply) →
      s'.world.store.gate ≠ some runId ∧ ∃ row ∈ s'.world.store.runs,
        result = .ok (.prior (some row)) ∧ row.runId = runId ∧ row.status = .succeeded
  alone : ∀ outside, ∃ row product knowledgeAt w',
    runNow outside (reconcile runId) s.world = (.ok (some row), w') ∧ row.runId = runId ∧
      row.status = .succeeded ∧ Released product runId knowledgeAt s.world.store w'.store

theorem Good.gate_of_succeeded (good : Good db) (member : row ∈ db.runs)
    (succeeded : row.status = .succeeded) : db.gate ≠ some row.runId := by
  obtain ⟨c, sound⟩ := good.sound member
  intro held
  rw [sound.seeded.gate, ← sound.gate row member, succeeded] at held
  cases held

/-- **The finalization gate can always be released.** In every reachable state in which a run
holds the gate, the run has committed, its commit job is the only job that commits it and has
ended without error, every finalization of the run passes its assertions from now on, and
reconciling the run, alone or among other processes, ends with its success and the gate
released, and changes nothing else but the missing clocks of the rows of the run. -/
theorem gate_releasable {s : WarehouseSystem} (reachable : Reachable s) {runId : String}
    (held : s.world.store.gate = some runId) : Releasable s runId := by
  have orderly := reachable.orderly
  obtain ⟨row, member, rfl, committed⟩ : ∃ row ∈ s.world.store.runs, row.runId = runId ∧
      row.status = .committed := by
    rcases orderly.good with created | ⟨c, sound, _⟩
    · rw [created] at held
      cases held
    · rw [sound.seeded.gate] at held
      obtain ⟨row, member, rfl⟩ := sound.holder runId held
      exact ⟨row, member, rfl, (sound.gate row member).mpr held⟩
  have hasCommitted : row.status.hasCommitted = true := by rw [committed]; rfl
  have later : ∀ {w : Cloud}, Future s.world w → ∃ row' ∈ w.store.runs,
      row'.runId = row.runId ∧ row'.status.hasCommitted = true := by
    intro w future
    obtain ⟨row', member', progress⟩ := future.before.run member
    exact ⟨row', member', progress.runId, progress.hasCommitted hasCommitted⟩
  refine ⟨⟨row, member, rfl, committed⟩, ?_, ?_, ?_, reconcile_calls row.runId, ?_, ?_, ?_⟩
  · obtain ⟨time, ended, _⟩ := orderly.committed row member hasCommitted
    exact ⟨time, ended⟩
  · rintro id ⟨script, phase⟩ product p recorded rfl ofRun
    have named := orderly.named id _ recorded
    cases id with
    | named name =>
        rw [← ofRun]
        exact congrArg JobId.named (Option.some.inj named).symm
    | generated n => cases named
  · rintro s' run id ⟨script, phase⟩ product p recorded rfl ofRun now
    have orderly' := (reachable.run run).1.orderly
    obtain ⟨after, executed, released, same⟩ :=
      orderly'.finalization (orderly'.submittable id _ recorded) now
    refine ⟨after, executed, ?_⟩
    by_cases holds : s'.world.store.gate = some p.runId
    · rw [(released holds).gate]
      exact fun impossible => by cases impossible
    · rw [same holds, ← ofRun]
      exact holds
  · intro s' s'' run step id script rows time usage takes resumes
    obtain ⟨reachable', future⟩ := reachable.run run
    obtain ⟨row', member', same, committed'⟩ := later future
    rw [← same] at resumes ⊢
    exact takes.effect.resumed reachable'.orderly.good.unique member' committed' resumes
  · intro s' i history result run unused at_i answered
    have achieves : ∀ w, Future s.world w → Orderly w →
        Achieves (Launch.reconcile row.runId).start w fun returned v => ∃ row' ∈ v.store.runs,
          returned = .prior (some row') ∧ row'.runId = row.runId ∧ row'.status = .succeeded := by
      intro w future orderly'
      obtain ⟨row', member', same, committed'⟩ := later future
      refine Achieves.bind (same ▸ reconcile_answers orderly' member' committed')
        fun found v _ _ reached => ?_
      obtain ⟨row'', rfl, member'', ofRun, succeeded⟩ := reached
      exact .done fun v' toV' _ =>
        ⟨row'', toV'.before.final member'' (.inl succeeded), rfl, ofRun, succeeded⟩
    obtain ⟨_, rfl, row', member', rfl, ofRun, succeeded⟩ :=
      reachable.achieves unused run at_i achieves answered
    refine ⟨?_, row', member', rfl, ofRun, succeeded⟩
    rw [← ofRun]
    exact (reachable.run run).1.orderly.good.gate_of_succeeded member' succeeded
  · exact fun outside => runNow_reconcile outside orderly member committed

omit [Platform] in
/-- The gate that an interrupted run holds. -/
theorem gate_releasable_sample :
    letI := Platform.plain
    ∃ s : WarehouseSystem, s.world.store.gate = some sampleRunId ∧ Releasable s sampleRunId := by
  obtain ⟨s, reachable, held⟩ := exists_interrupted
  exact ⟨s, held, @gate_releasable Platform.plain s reachable sampleRunId held⟩

end PowerMarket
