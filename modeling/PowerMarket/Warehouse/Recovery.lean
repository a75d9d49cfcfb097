import PowerMarket.Warehouse.Clients

/-!
# Programs whose calls succeed

What the programs of the client achieve when none of their own calls fails, whatever the other
processes and the service do between the calls. A call that submits a job under an identifier in
use is answered with a conflict, which is no failure, and the service reports the end of the jobs
that were waited for (`Answered`).

A run whose commit job has ended without error has committed (`CommitEnded.hasCommitted`), so
that reconciling it always brings it to success (`reconcile_answers`).
-/

set_option autoImplicit false

namespace PowerMarket

open Library JobService

/-- A call was answered and has not failed. -/
def Answered : (c : ClientCall) → Except Exn (ClientAnswer c) → Prop
  | .query (some _) _, reply => reply = .error bigQuery.alreadyExists ∨ ∃ id, reply = .ok id
  | .result _, reply => ∃ view : JobView, reply = .ok view ∧ view.ended ≠ none
  | _, reply => ∃ answer, reply = .ok answer

variable [Platform]

/-! ## Jobs that ended -/

/-- **A commit job that ended without error has committed its run.** -/
theorem CommitEnded.hasCommitted {w : Cloud} (orderly : Orderly w) {runId : String}
    {time : UtcTime} (ended : CommitEnded w runId time) :
    ∃ row ∈ w.store.runs, row.runId = runId ∧ row.status.hasCommitted = true := by
  obtain ⟨product, p, rows, usage, rfl, job⟩ := ended
  obtain ⟨past, after, started, ⟨good, planned⟩, _, before, executed⟩ :=
    orderly.consistent.answered job
  obtain ⟨_, _, _, _, _, _, _, member, _, _⟩ := planned
  obtain ⟨c, sound⟩ := good.sound member
  obtain ⟨startedOnce, _, _, rfl⟩ := (commitQuery_ok sound.seeded).mp (of_execute executed)
  obtain ⟨row, only⟩ := List.length_eq_one_iff.mp startedOnce
  have at_row : row ∈ (runRows past p.runId).filter (·.status = .started) := by simp [only]
  obtain ⟨inRuns, ofRun⟩ := mem_runRows.mp (List.mem_filter.mp at_row).1
  have atRow : runRows past p.runId = [row] := ofRun ▸ runRows_eq sound.unique inRuns
  have replaces : Replaces past.runs (committedDatabase product p c past).runs row
      (row.commit p) := updateRuns_replaces sound.unique atRow fun _ => rfl
  obtain ⟨row', member', progress⟩ := before.run replaces.member'
  exact ⟨row', member', progress.runId.trans ofRun, progress.hasCommitted rfl⟩

/-- **A finalization that ended without error has finalized its run.** -/
theorem Orderly.finalized {w : Cloud} (orderly : Orderly w) {id : JobId String}
    {product : Product} {p : FinalizeParameters} {rows : Rows} {time : UtcTime} {usage : Usage}
    (ended : w.jobs id = some ⟨.finalize product p, .ended (.ok rows) time usage⟩) :
    ∃ row ∈ w.store.runs, row.runId = p.runId ∧ row.status = .succeeded := by
  obtain ⟨past, after, started, ⟨good, row, member, ofRun, _⟩, precedes, before, executed⟩ :=
    orderly.consistent.answered ended
  obtain ⟨c, sound⟩ := good.sound member
  have final : ∀ {db : Database} {x : RunRow}, Precedes db w.store → x ∈ db.runs →
      x.runId = p.runId → x.status = .succeeded →
      ∃ row ∈ w.store.runs, row.runId = p.runId ∧ row.status = .succeeded := by
    intro db x earlier at_x same succeeded
    exact ⟨x, earlier.final at_x (.inl succeeded), same, succeeded⟩
  rcases (finalizeQuery_ok sound.seeded (runRows_length_le sound.unique _)).mp
    (of_execute executed) with ⟨⟨x, atRow, _, _⟩, rfl⟩ | ⟨done, rfl⟩
  · have replaces : Replaces past.runs (finalizedDatabase product p started c past).runs x
        (x.succeed p started) := updateRuns_replaces sound.unique atRow fun _ => rfl
    have same : x.runId = p.runId := (mem_runRows.mp (atRow ▸ List.mem_singleton_self x)).2
    exact final before replaces.member' same rfl
  · exact final precedes member ofRun (done row (mem_runRows.mpr ⟨member, ofRun⟩))

/-! ## Reading a manifest -/

section Reading

variable {base : Database} {w : Cloud} {runId : String} {found : Option RunRow} {row : RunRow}

theorem ManifestRead.later (read : ManifestRead base w runId found) (member : row ∈ base.runs)
    (ofRun : row.runId = runId) : ∃ row', found = some row' ∧ RunProgress row row' := by
  obtain ⟨snapshot, later, rows⟩ := read.recent
  obtain ⟨row', member', progress⟩ := later.run member
  have at_row : row' ∈ runRows snapshot runId :=
    mem_runRows.mpr ⟨member', progress.runId.trans ofRun⟩
  rw [rows, Option.mem_toList] at at_row
  exact ⟨row', at_row, progress⟩

theorem ManifestRead.final (read : ManifestRead base w runId (some row))
    (final : row.status = .succeeded ∨ row.status = .failed) : row ∈ w.store.runs := by
  obtain ⟨_, past, _, before, member⟩ := read.past row rfl
  exact before.final member final

end Reading

/-! ## Programs -/

/-- The rules of the service, for a process none of whose calls fails. -/
abbrev answering : Protocol (cloudService.accepting Answered) := protocol.accepting Answered

/-- A program that keeps to this returns with such a value, unless one of its calls fails. -/
abbrev Achieves {α : Type} (program : Client α) (w : Cloud) (post : α → Cloud → Prop) : Prop :=
  answering.Safe (fun _ _ => True) (fun result v => ∃ a, result = .ok a ∧ post a v) program w

theorem Achieves.bind {α β : Type} {program : Client α} {rest : α → Client β} {w : Cloud}
    {post : α → Cloud → Prop} {post' : β → Cloud → Prop} (first : Achieves program w post)
    (second : ∀ a v, Future w v → Orderly v → post a v → Achieves (rest a) v post') :
    Achieves (program >>= rest) w post' := by
  refine Protocol.Safe.sequence first fun result v future orderly reached => ?_
  obtain ⟨a, rfl, holds⟩ := reached
  exact second a v future orderly holds

theorem Achieves.tryCatch {α : Type} {program : Client α} {handler : Exn → Client α} {w : Cloud}
    {post : α → Cloud → Prop} (block : Achieves program w post)
    (keeps : ∀ a v v', Future v v' → post a v → post a v') :
    Achieves (tryCatchThe Exn program handler) w post := by
  refine Protocol.Safe.sequence block fun result v _ _ reached => ?_
  obtain ⟨a, rfl, holds⟩ := reached
  exact .done fun v' later _ => ⟨a, rfl, keeps a v v' later holds⟩

theorem Achieves.done {α : Type} {a : α} {w : Cloud} {post : α → Cloud → Prop}
    (holds : ∀ v, Future w v → Orderly v → post a v) :
    Achieves (.done (.ok a)) w post :=
  Protocol.Safe.done fun v future orderly => ⟨a, rfl, holds v future orderly⟩

/-- A single call. -/
theorem Achieves.call {c : ClientCall} {w : Cloud} {post : ClientAnswer c → Cloud → Prop}
    (holds : ∀ v reply v', act c v reply v' → Answered c reply →
      ∃ a, reply = .ok a ∧ ∀ v'', Future v' v'' → post a v'') :
    Achieves (call c) w post := by
  intro v _ _
  refine ⟨trivial, fun reply v' acted _ _ v'' future _ => ?_⟩
  obtain ⟨a, same, reached⟩ := holds v reply v' acted.1 acted.2
  exact ⟨a, same, reached v'' future⟩

/-- What is known of the value of a safe program is known when the program achieves one. -/
theorem Achieves.of_safe {α : Type} {program : Client α} {w : Cloud} {post : α → Cloud → Prop}
    (returns : Achieves program w fun _ _ => True)
    (safe : protocol.Safe (fun _ _ => True) (fun result v => ∀ a, result = .ok a → post a v)
      program w) : Achieves program w post := by
  refine (returns.and safe.accepting).weaken (fun _ _ _ allowed => allowed) ?_
  rintro result v _ _ ⟨⟨a, rfl, _⟩, known⟩
  exact ⟨a, rfl, known a rfl⟩

omit [Platform] in
theorem passive_any : Passive fun _ _ => True := fun _ _ _ => trivial

theorem query_none_answers {script : Script} {w : Cloud} :
    Achieves (query script none) w fun id v => Asked w.store v id script := by
  refine .of_safe (.tryCatch ?_ fun _ _ _ _ _ => trivial) (query_none_safe fun _ _ _ => trivial)
  refine .call fun v reply v' _ answered => ?_
  obtain ⟨id, rfl⟩ := answered
  exact ⟨id, rfl, fun _ _ => trivial⟩

theorem getJob_answers {name : String} {w : Cloud} :
    Achieves (call (.getJob name)) w fun id _ => id = .named name := by
  refine .call fun v reply v' acted answered => ?_
  obtain ⟨id, rfl⟩ := answered
  obtain ⟨_, ⟨same, _⟩ | ⟨e, impossible⟩⟩ := acted
  · exact ⟨id, rfl, fun _ _ => Except.ok.inj same⟩
  · cases impossible

/-- A submission under an identifier gives the job with that identifier, whether it is new or
not. -/
theorem query_some_answers {script : Script} {name : String} {w : Cloud} :
    Achieves (query script (some name)) w fun id _ => id = .named name := by
  refine .of_safe ?_ (query_some_safe passive_any fun _ _ _ => trivial)
  have submitted : answering.Safe (fun _ _ => True)
      (fun reply _ => reply = .error bigQuery.alreadyExists ∨ ∃ id, reply = .ok id)
      (call (.query (some name) script)) w :=
    fun _ _ _ => ⟨trivial, fun _ _ acted _ _ _ _ _ => acted.2⟩
  refine Protocol.Safe.sequence submitted fun reply v _ _ answered => ?_
  rcases answered with rfl | ⟨id, rfl⟩
  · exact Protocol.Safe.weaken getJob_answers (fun _ _ _ allowed => allowed)
      fun result _ _ _ ⟨id, same, _⟩ => ⟨id, same, trivial⟩
  · exact Achieves.done fun _ _ _ => trivial

theorem wait_answers {id : JobId String} {w : Cloud} :
    Achieves (wait id) w fun view v => ∃ script rows time,
      Seen v id view script rows time ∧ view.ended = some time := by
  have returns : Achieves (wait id) w fun view _ => view.ended ≠ none := by
    refine .call fun v reply v' _ answered => ?_
    obtain ⟨view, rfl, reported⟩ := answered
    exact ⟨view, rfl, fun _ _ => reported⟩
  refine (returns.and (wait_safe passive_any).accepting).weaken (fun _ _ _ allowed => allowed) ?_
  rintro result v _ _ ⟨⟨view, rfl, reported⟩, known⟩
  obtain ⟨script, rows, time, seen⟩ := known view rfl
  exact ⟨view, rfl, script, rows, time, seen, seen.ended.resolve_right reported⟩

/-- **Reading a manifest.** -/
theorem getRun_answers {runId : String} (valid : isRunId runId = true) {w : Cloud} :
    Achieves (getRun runId) w fun found v => ManifestRead w.store v runId found := by
  refine .of_safe ?_ (getRun_safe passive_any fun _ _ _ => trivial)
  unfold getRun
  rw [validateRunId_ok valid]
  refine Achieves.bind (Achieves.done fun _ _ _ => trivial : Achieves _ w fun _ _ => True)
    fun _ v _ _ _ => ?_
  refine query_none_answers.bind fun id v₁ _ _ asked => ?_
  refine wait_answers.bind fun view v₂ toV₂ orderly seen => ?_
  obtain ⟨script, rows, time, seen, _⟩ := seen
  obtain ⟨past, good, _, manifests, _⟩ := (asked.mono toV₂).manifests orderly seen
  have few := runRows_length_le good.unique runId
  rw [manifests]
  match found : runRows past runId with
  | [] | [_] => exact .done fun _ _ _ => trivial
  | _ :: _ :: _ =>
      rw [found] at few
      simp at few

theorem commitJob_answers {runId : String} {w : Cloud} :
    Achieves (commitJob runId) w fun job _ => job = some (.named (jobId runId "commit")) := by
  unfold commitJob
  refine .tryCatch (getJob_answers.bind fun id v _ _ named => ?_) fun _ _ _ _ found => found
  exact .done fun _ _ _ => congrArg some named

/-- **Finalizing a run** ends with its manifest, which says that it succeeded. -/
theorem finalize_answers {runId : String} {product : Product} {ended : UtcTime} {usage : Usage}
    (valid : isRunId runId = true) {w : Cloud} :
    Achieves (finalize runId product ended usage) w fun row v =>
      row ∈ v.store.runs ∧ row.runId = runId ∧ row.status = .succeeded := by
  unfold finalize
  have finalized : Achieves (do
      let job ← query
        (.finalize product ⟨runId, ended, usage.processed, usage.billed⟩) none
      let _ ← wait job
      return ()) w fun _ v => ∃ row ∈ v.store.runs, row.runId = runId ∧ row.status = .succeeded := by
    refine query_none_answers.bind fun id v _ _ asked => ?_
    refine wait_answers.bind fun view v₁ toV₁ orderly seen => ?_
    obtain ⟨script, rows, time, seen, _⟩ := seen
    obtain ⟨phase, recorded, _⟩ := (asked.mono toV₁).job
    have job := seen.job
    rw [job] at recorded
    cases recorded
    obtain ⟨row, member, ofRun, succeeded⟩ := orderly.finalized job
    exact .done fun v₂ toV₂ _ =>
      ⟨row, toV₂.before.final member (.inl succeeded), ofRun, succeeded⟩
  refine (finalized.tryCatch ?_).bind fun _ v _ _ done => ?_
  · rintro _ v v' later ⟨row, member, ofRun, succeeded⟩
    exact ⟨row, later.before.final member (.inl succeeded), ofRun, succeeded⟩
  · obtain ⟨row, member, ofRun, succeeded⟩ := done
    refine (getRun_answers valid).bind fun found v₁ _ _ read => ?_
    obtain ⟨row', rfl, progress⟩ := read.later member ofRun
    rw [progress.final (.inl succeeded)] at read ⊢
    have here := read.final (.inl succeeded)
    simp only [succeeded, ne_eq, not_true_eq_false, ↓reduceIte]
    exact .done fun v₂ toV₂ _ => ⟨toV₂.before.final here (.inl succeeded), ofRun, succeeded⟩

/-- Following the commit job of a run. -/
theorem followJob_answers {runId : String} {product : Product} {job : JobId String}
    (valid : isRunId runId = true) {w : Cloud} :
    Achieves (followJob runId product job) w fun found v => ∃ row, found = some row ∧
      row ∈ v.store.runs ∧ row.runId = runId ∧ row.status = .succeeded := by
  unfold followJob
  refine Protocol.Safe.sequence wait_answers fun result v _ _ seen => ?_
  obtain ⟨view, rfl, script, rows, time, seen, reported⟩ := seen
  simp only [reported]
  refine (finalize_answers valid).bind fun row v₁ _ _ succeeded => ?_
  exact .done fun v₂ toV₂ _ =>
    ⟨row, rfl, toV₂.before.final succeeded.1 (.inl succeeded.2.2), succeeded.2⟩

/-- **Reconciling a run that has committed** brings it to success. -/
theorem reconcile_answers {w : Cloud} (orderly : Orderly w) {row : RunRow}
    (member : row ∈ w.store.runs) (committed : row.status.hasCommitted = true) :
    Achieves (reconcile row.runId) w fun found v => ∃ row', found = some row' ∧
      row' ∈ v.store.runs ∧ row'.runId = row.runId ∧ row'.status = .succeeded := by
  have valid := orderly.good.valid member
  unfold reconcile
  refine (getRun_answers valid).bind fun found v toV _ read => ?_
  obtain ⟨row', rfl, progress⟩ := read.later member rfl
  rcases Status.hasCommitted_iff.mp (progress.hasCommitted committed) with status | status
  · simp only [status]
    refine commitJob_answers.bind fun job v₁ _ _ found => ?_
    rw [found]
    exact followJob_answers valid
  · simp only [status]
    have here := read.final (.inl status)
    exact .done fun v₁ toV₁ _ =>
      ⟨row', rfl, toV₁.before.final here (.inl status), progress.runId, status⟩

end PowerMarket
