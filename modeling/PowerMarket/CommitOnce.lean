import PowerMarket.Replays
import PowerMarket.Warehouse.Manifests

/-!
# A run commits at most once

Two commits of one run would have to run under the same job identifier, which a service uses only
once (`commits_once`). After a run has succeeded, ingesting, persisting and reconciling it again
only read its manifest or try to begin it again: they change no table and return that manifest
(`Settled`). The manifest is truthful about the batch and the rows of the run (`commit_once`).
-/

set_option autoImplicit false

namespace PowerMarket

open Library JobService

variable [Platform]

/-! ## One commit -/

/-- **At most one commit of a run takes effect.** -/
theorem commits_once {s s₁ s₂ s₃ : WarehouseSystem} (reachable : Reachable s)
    (step : SystemStep s s₁) (run : SystemRun s₁ s₂) {id id' : JobId String}
    {product product' : Product} {p p' : CommitParameters} {rows rows' : Rows}
    {time time' : UtcTime} {usage usage' : Usage}
    (first : TakesEffect s.world s₁.world id (.commit product p) rows time usage)
    (second : TakesEffect s₂.world s₃.world id' (.commit product' p') rows' time' usage') :
    p'.runId ≠ p.runId := by
  intro same
  have names : ∀ {id : JobId String} {product : Product} {p : CommitParameters},
      Named id (.commit product p) → id = .named (jobId p.runId "commit") := by
    intro id product p named
    cases id with
    | named name => exact congrArg JobId.named (Option.some.inj named).symm
    | generated n => cases named
  have reachable₁ := (reachable.run (.single step)).1
  have ended : s₁.world.jobs id = some ⟨.commit product p, .ended (.ok rows) time usage⟩ := by
    rw [first.jobs, Function.update_self]
  have still := (reachable₁.run run).2.progress.ended ended
  obtain ⟨started, running⟩ := second.running
  rw [names second.named, same, ← names first.named, still] at running
  cases running

/-! ## Calls after success -/

/-- A call that submits nothing but a reading of the manifest of a run, or an attempt to begin the
run. -/
def Rereads (runId : String) (_ : Cloud) (c : ClientCall) : Prop :=
  ∀ name script, c = .query name script →
    script = .getRun runId ∨ ∃ request, script = .beginRun (newRun request runId)

theorem rereads_passive (runId : String) : Passive (Rereads runId) :=
  fun _ _ notQuery name script same => absurd same (notQuery name script)

theorem rereads_getRun {runId : String} (w : Cloud) :
    Rereads runId w (.query none (.getRun runId)) := by
  rintro _ _ ⟨⟩
  exact .inl rfl

/-- Rereading changes no table once the run has a manifest. -/
theorem Effect.reread {db after : Database} {runId : String} {script : Script}
    (effect : Effect db script after) {row : RunRow} (member : row ∈ db.runs)
    (ofRun : row.runId = runId) (rereads : script = .getRun runId ∨
      ∃ request, script = .beginRun (newRun request runId)) : after = db := by
  rcases rereads with rfl | ⟨request, rfl⟩
  · cases effect
    rfl
  · cases effect with
    | idle => rfl
    | begun now seeded fresh => exact absurd ofRun (fresh row member)

section Settled

variable {row : RunRow} {w : Cloud}

theorem ManifestRead.settled {w' : Cloud} {found : Option RunRow}
    (read : ManifestRead w.store w' row.runId found) (member : row ∈ w.store.runs)
    (succeeded : row.status = .succeeded) : found = some row := by
  obtain ⟨row', rfl, progress⟩ := read.later member rfl
  rw [progress.final (.inl succeeded)]

theorem getRun_settled (member : row ∈ w.store.runs) (succeeded : row.status = .succeeded) :
    protocol.Safe (Rereads row.runId) (fun result _ => ∀ found, result = .ok found →
      found = some row) (getRun row.runId) w := by
  refine (getRun_safe (rereads_passive _) fun v _ _ => rereads_getRun v).weaken
    (fun _ _ _ allowed => allowed) ?_
  intro result v _ _ read found same
  exact (read found same).settled member succeeded

theorem reconcile_settled (member : row ∈ w.store.runs) (succeeded : row.status = .succeeded) :
    protocol.Safe (Rereads row.runId) (fun result _ => ∀ found, result = .ok found →
      found = some row) (reconcile row.runId) w := by
  unfold reconcile
  refine .bind (getRun_settled member succeeded) (fun found v _ _ read => ?_)
    (fun _ _ _ _ impossible => by cases impossible)
  rw [read found rfl]
  simp only [succeeded]
  exact .done fun _ _ _ found same => (Except.ok.inj same).symm

/-- Persisting records for a run that has succeeded only reads its manifest. -/
theorem persist_settled (member : row ∈ w.store.runs) (succeeded : row.status = .succeeded)
    (request : Request) (records : List Observation) :
    protocol.Safe (Rereads row.runId) (fun result _ => ∀ manifest, result = .ok manifest →
      manifest = row) (persist request records row.runId) w := by
  unfold persist
  refine .bind (getRun_settled member succeeded) (fun found v toV _ read => ?_)
    (fun _ _ _ _ impossible => by cases impossible)
  rw [read found rfl]
  split_ifs
  · exact .done fun _ _ _ _ impossible => by cases impossible
  · refine .bind (reconcile_settled (toV.before.final member (.inl succeeded)) succeeded)
      (fun prior u _ _ same => ?_) (fun _ _ _ _ impossible => by cases impossible)
    rw [same prior rfl]
    exact .done fun _ _ _ manifest same => (Except.ok.inj same).symm

/-- Ingesting a run that has succeeded only tries to begin it and reads its manifest. -/
theorem ingest_settled (member : row ∈ w.store.runs) (succeeded : row.status = .succeeded)
    (request : Request) :
    protocol.Safe (Rereads row.runId) (fun result _ => ∀ manifest, result = .ok manifest →
      manifest = row) (ingest request row.runId) w := by
  have begins : ∀ v, Rereads row.runId v (.query (some (jobId row.runId "begin"))
      (.beginRun (newRun request row.runId))) := by
    rintro v _ _ ⟨⟩
    exact .inr ⟨request, rfl⟩
  unfold ingest
  refine .bind (begin_safe (rereads_passive _) (fun v _ _ => rereads_getRun v)
    fun _ v _ _ => begins v) (fun _ v toV _ _ => ?_)
    (fun _ _ _ _ impossible => by cases impossible)
  refine .bind (reconcile_settled (toV.before.final member (.inl succeeded)) succeeded)
    (fun prior u _ _ same => ?_) (fun _ _ _ _ impossible => by cases impossible)
  rw [same prior rfl]
  exact .done fun _ _ _ manifest same => (Except.ok.inj same).symm

theorem begin_answers (valid : isRunId row.runId = true) (member : row ∈ w.store.runs)
    {request : Request} (bound : request.requestId = row.requestId) :
    Achieves (begin request row.runId) w fun _ _ => True := by
  unfold begin
  rw [validateRunId_ok valid]
  refine Achieves.bind (Achieves.done fun _ _ _ => trivial : Achieves _ w fun _ _ => True)
    fun _ v toV _ _ => ?_
  refine query_some_answers.bind fun job v₁ toV₁ _ _ => ?_
  refine wait_answers.bind fun view v₂ toV₂ _ _ => ?_
  obtain ⟨row', member', progress⟩ := (toV.trans (toV₁.trans toV₂)).before.run member
  refine (getRun_answers valid).bind fun found v₃ _ _ read => ?_
  obtain ⟨row'', rfl, progress'⟩ := read.later member' progress.runId
  have same : row''.requestId = request.requestId :=
    (congrArg (fun b => b.2.1) (RunProgress.binding (progress.trans progress'))).trans bound.symm
  simp only [same, ne_eq, not_true_eq_false, ↓reduceIte]
  exact .done fun _ _ _ => trivial

theorem reconcile_returns (orderly : Orderly w) (member : row ∈ w.store.runs)
    (succeeded : row.status = .succeeded) :
    Achieves (reconcile row.runId) w fun found _ => found = some row := by
  have returns := reconcile_answers orderly member (by rw [succeeded]; rfl)
  have returned := (reconcile_settled member succeeded).weaken (fun _ _ _ _ => trivial)
    fun _ _ _ _ known => known
  exact .of_safe (returns.weaken (fun _ _ _ allowed => allowed)
    fun _ _ _ _ ⟨a, same, _⟩ => ⟨a, same, trivial⟩) returned

/-- Persisting records for a run that has succeeded returns its manifest. -/
theorem persist_returns (valid : isRunId row.runId = true) (member : row ∈ w.store.runs)
    (succeeded : row.status = .succeeded) {request : Request}
    (bound : request.requestId = row.requestId) (records : List Observation) :
    Achieves (persist request records row.runId) w fun manifest _ => manifest = row := by
  unfold persist
  refine (getRun_answers valid).bind fun found v toV orderly' read => ?_
  rw [read.settled member succeeded]
  simp only [Option.map_some, bound, ne_eq, not_true_eq_false, ↓reduceIte]
  refine (reconcile_returns orderly' (toV.before.final member (.inl succeeded)) succeeded).bind
    fun prior u _ _ same => ?_
  rw [same]
  exact .done fun _ _ _ => rfl

/-- Ingesting a run that has succeeded returns its manifest. -/
theorem ingest_returns (valid : isRunId row.runId = true) (member : row ∈ w.store.runs)
    (succeeded : row.status = .succeeded) {request : Request}
    (bound : request.requestId = row.requestId) :
    Achieves (ingest request row.runId) w fun manifest _ => manifest = row := by
  unfold ingest
  refine (begin_answers valid member bound).bind fun _ v toV orderly _ => ?_
  refine (reconcile_returns orderly (toV.before.final member (.inl succeeded)) succeeded).bind
    fun prior u _ _ same => ?_
  rw [same]
  exact .done fun _ _ _ => rfl

end Settled

/-- The calls that ingest, persist or resume a run. -/
inductive ForRun (runId : String) : Launch → Prop where
  | ingest (request : Request) : ForRun runId (.ingest request runId)
  | persist (request : Request) (records : List Observation) :
      ForRun runId (.persist request records runId)
  | reconcile : ForRun runId (.reconcile runId)

/-- A call for the request that a manifest is bound to. -/
def Launch.bound (row : RunRow) : Launch → Prop
  | .ingest request _ | .persist request _ _ => request.requestId = row.requestId
  | _ => True

/-- What a call returns when it returns a manifest. -/
def Launch.original (row : RunRow) : Launch → Returned
  | .reconcile _ => .prior (some row)
  | _ => .manifest row

/-- Whatever happens, a call for a run that has succeeded only rereads it. -/
theorem ForRun.safe {row : RunRow} {w : Cloud} {l : Launch} (forRun : ForRun row.runId l)
    (member : row ∈ w.store.runs) (succeeded : row.status = .succeeded) :
    protocol.Safe (Rereads row.runId) (fun result _ => ∀ a, result = .ok a → a = l.original row)
      l.start w := by
  cases forRun with
  | ingest request =>
      refine .bind (ingest_settled member succeeded request) (fun manifest v _ _ same => ?_)
        (fun _ _ _ _ impossible => by cases impossible)
      rw [same manifest rfl]
      exact .done fun _ _ _ a same => (Except.ok.inj same).symm
  | persist request records =>
      refine .bind (persist_settled member succeeded request records)
        (fun manifest v _ _ same => ?_) (fun _ _ _ _ impossible => by cases impossible)
      rw [same manifest rfl]
      exact .done fun _ _ _ a same => (Except.ok.inj same).symm
  | reconcile =>
      refine .bind (reconcile_settled member succeeded) (fun prior v _ _ same => ?_)
        (fun _ _ _ _ impossible => by cases impossible)
      rw [same prior rfl]
      exact .done fun _ _ _ a same => (Except.ok.inj same).symm

theorem ForRun.returns {row : RunRow} {w : Cloud} {l : Launch} (forRun : ForRun row.runId l)
    (orderly : Orderly w) (member : row ∈ w.store.runs) (succeeded : row.status = .succeeded)
    (bound : l.bound row) : Achieves l.start w fun a _ => a = l.original row := by
  have valid := orderly.good.valid member
  cases forRun with
  | ingest request =>
      refine (ingest_returns valid member succeeded bound).bind fun manifest v _ _ same => ?_
      rw [same]
      exact .done fun _ _ _ => rfl
  | persist request records =>
      refine (persist_returns valid member succeeded bound records).bind
        fun manifest v _ _ same => ?_
      rw [same]
      exact .done fun _ _ _ => rfl
  | reconcile =>
      refine (reconcile_returns orderly member succeeded).bind fun prior v _ _ same => ?_
      rw [same]
      exact .done fun _ _ _ => rfl

/-- **Calls for a run that has succeeded.** In every later run of the system, the scripts that such
a call submits change no table; it returns nothing but the manifest, and does so when it is for
the request of the run and none of its calls fails. -/
structure Settled (s : WarehouseSystem) (row : RunRow) : Prop where
  unchanged : ∀ s' i l history c next, SystemRun s s' → s.processes i = none →
    ForRun row.runId l → s'.processes i = some ⟨l, history, some (.call c next)⟩ →
    ∀ name script, c = .query name script → ∀ t t', SystemRun s' t → SystemStep t t' →
      ∀ id rows time usage, TakesEffect t.world t'.world id script rows time usage →
        t'.world.store = t.world.store
  original : ∀ s' i l history result, SystemRun s s' → s.processes i = none →
    ForRun row.runId l → s'.processes i = some ⟨l, history, some (.done result)⟩ →
    ∀ a, result = .ok a → a = l.original row
  returns : ∀ s' i l history result, SystemRun s s' → s.processes i = none →
    ForRun row.runId l → l.bound row →
    s'.processes i = some ⟨l, history, some (.done result)⟩ →
    (∀ event ∈ history, Answered event.call event.reply) → result = .ok (l.original row)

theorem Reachable.settled {s : WarehouseSystem} (reachable : Reachable s) {row : RunRow}
    (member : row ∈ s.world.store.runs) (succeeded : row.status = .succeeded) :
    Settled s row := by
  have later : ∀ {w : Cloud}, Future s.world w → row ∈ w.store.runs :=
    fun future => future.before.final member (.inl succeeded)
  constructor
  case unchanged =>
    rintro s' i l history c next run unused forRun at_i name script rfl t t' run' step id rows time
      usage takes
    obtain ⟨reachable', future⟩ := reachable.run run
    have rereads := (reachable.launched_safe unused run at_i rfl fun w future' _ =>
      forRun.safe (later future') succeeded) s'.world (.refl _) reachable'.orderly
    have future' := (reachable'.run run').2
    exact takes.effect.reread (later (future.trans future')) rfl (rereads.1 name script rfl)
  case original =>
    intro s' i l history result run unused forRun at_i
    have reached := (reachable.run run).1.orderly
    exact reachable.launched_safe unused run at_i rfl (fun w future' _ =>
      forRun.safe (later future') succeeded) s'.world (.refl _) reached
  case returns =>
    intro s' i l history result run unused forRun bound at_i answered
    obtain ⟨a, same, rfl⟩ := reachable.achieves unused run at_i (fun w future' orderly =>
      forRun.returns orderly (later future') succeeded bound) answered
    exact same

/-! ## One commit with a truthful manifest -/

/-- **At most one commit for a run, with a truthful manifest.** No two commits of a run take
effect; once the run has succeeded, calls for it change no table and return its manifest; and that
manifest documents the batch whose plan was written, counts the contents and the transitions of the
run, and the counts are ordered. -/
theorem commit_once (noCollisions : NoCollisions) {s : WarehouseSystem} (reachable : Reachable s) :
    (∀ s₁ s₂ s₃, SystemStep s s₁ → SystemRun s₁ s₂ → SystemStep s₂ s₃ →
      ∀ id id' product product' p p' rows rows' time time' usage usage',
        TakesEffect s.world s₁.world id (.commit product p) rows time usage →
        TakesEffect s₂.world s₃.world id' (.commit product' p') rows' time' usage' →
          p'.runId ≠ p.runId) ∧
    ∀ row ∈ s.world.store.runs, row.status = .succeeded → Settled s row ∧
      ∃ request records batch current plan contents transitions,
        Truthful s.world.store row request records batch current plan ∧
        contents = (ownContents .lmp row.runId s.world.store).length +
          (ownContents .load row.runId s.world.store).length ∧
        transitions = (ownTransitions .lmp row.runId s.world.store).length +
          (ownTransitions .load row.runId s.world.store).length ∧
        row.newContents = some contents ∧ row.newTransitions = some transitions ∧
        row.rowsAccepted = some batch.length ∧
        contents ≤ transitions ∧ transitions ≤ batch.length := by
  constructor
  · intro s₁ s₂ s₃ step run _ id id' product product' p p' rows rows' time time' usage usage' first
      second
    exact commits_once reachable step run first second
  · intro row member succeeded
    refine ⟨reachable.settled member succeeded, ?_⟩
    obtain ⟨request, records, batch, current, plan, truthful⟩ :=
      reachable.orderly.good.truthful noCollisions member (by rw [succeeded]; rfl)
    have contents := truthful.contents_count
    have transitions := truthful.transitions_count
    refine ⟨request, records, batch, current, plan, _, _, truthful, rfl, rfl, ?_, ?_,
      truthful.rowsAccepted, ?_, ?_⟩
    · rw [contents, truthful.newContents]
    · rw [transitions, truthful.newTransitions]
    · rw [contents, transitions]
      exact truthful.ordered
    · rw [transitions]
      exact truthful.bounded

omit [Platform] in
/-- The runs of a load that was revised and corrected back are settled. -/
theorem commit_once_sample :
    letI := Platform.plain
    ∃ s : WarehouseSystem, Revised s.world.store ∧ ∀ row ∈ s.world.store.runs, Settled s row := by
  let _ := Platform.plain
  obtain ⟨s, reachable, revised⟩ := exists_revised
  obtain ⟨_, settled⟩ := commit_once noCollisions_plain reachable
  exact ⟨s, revised, fun row member => (settled row member (revised.succeeded row member)).1⟩

end PowerMarket
