import PowerMarket.Warehouse.Replay

/-!
# The concurrent tables as a serial execution

`Mirrors` compares a serial execution with the tables of the concurrent system: the control
row, the contents and the transitions are the same, and the manifests of the serial execution
agree with those manifests of the system whose runs have committed.

A plan commits only while nothing that it depends on has changed since its snapshot, so a
commit of the system is a run accepted at the end of the serial execution, which re-reads the
snapshot and plans again (`Linearized.committed`). A finalization belongs to the last run,
since it holds the gate (`Linearized.finalized`).
-/

set_option autoImplicit false

namespace PowerMarket

variable [Platform]

/-- The columns of a manifest that the commit and the finalization of its run decide, together
with its request. -/
structure RunOutcome where
  binding : String × String × Product × Date × Option Hub
  status : Status
  rowsFetched : Option Nat
  rowsNormalized : Option Nat
  rowsAccepted : Option Nat
  rowsRejected : Option Nat
  newContents : Option Nat
  newTransitions : Option Nat
  batchHash : Option String
  commitJobId : Option String
  commitSequence : Option Nat
  knowledgeAt : Option UtcTime

/-- The outcome that a manifest records. -/
def RunRow.outcome (row : RunRow) : RunOutcome where
  binding := row.binding
  status := row.status
  rowsFetched := row.rowsFetched
  rowsNormalized := row.rowsNormalized
  rowsAccepted := row.rowsAccepted
  rowsRejected := row.rowsRejected
  newContents := row.newContents
  newTransitions := row.newTransitions
  batchHash := row.batchHash
  commitJobId := row.commitJobId
  commitSequence := row.commitSequence
  knowledgeAt := row.knowledgeAt

omit [Platform] in
theorem RunRow.outcome_runId {row row' : RunRow} (same : row.outcome = row'.outcome) :
    row.runId = row'.runId :=
  congrArg (fun outcome : RunOutcome => outcome.binding.1) same

/-- A database of the serial execution shows what the concurrent one shows. -/
structure Mirrors (serial db : Database) : Prop where
  control : serial.control = db.control
  contents : serial.contents = db.contents
  transitions : serial.transitions = db.transitions
  sub : ∀ row ∈ serial.runs, ∃ row' ∈ db.runs, row'.status.hasCommitted = true ∧
    row.outcome = row'.outcome
  sup : ∀ row' ∈ db.runs, row'.status.hasCommitted = true → ∃ row ∈ serial.runs,
    row.outcome = row'.outcome

/-- The tables are those of a serial execution. -/
def Linearized (db : Database) : Prop :=
  ∃ entries serial, acceptAll entries Database.seeded = .ok serial ∧ Mirrors serial db

theorem linearized_seeded : Linearized Database.seeded :=
  ⟨[], _, rfl, rfl, rfl, rfl, by simp [Database.seeded, Database.created],
    by simp [Database.seeded, Database.created]⟩

omit [Platform] in
theorem Seeded.control_unique {db db' : Database} {c c' : ControlRow} (seeded : Seeded db c)
    (seeded' : Seeded db' c') (same : db.control = db'.control) : c = c' := by
  have both := seeded.control.symm.trans (same.trans seeded'.control)
  exact (List.cons.inj both).1

omit [Platform] in
/-- The snapshot depends on the control row and on the contents and transitions. -/
theorem snapshotQuery_congr {db db' : Database} {c : ControlRow} (seeded : Seeded db c)
    (seeded' : Seeded db' c) (contents : db.contents = db'.contents)
    (transitions : db.transitions = db'.transitions) (product : Product) (day : Date) :
    snapshotQuery product day db = snapshotQuery product day db' := by
  simp only [snapshotQuery, controlRows_of_seeded seeded, controlRows_of_seeded seeded', contents,
    transitions]

section Steps

variable {c : ControlRow} {db : Database}

omit [Platform] in
theorem Mirrors.begun {serial : Database} (mirrors : Mirrors serial db) {row : RunRow}
    (started : row.status = .started) : Mirrors serial (withRun db row) := by
  refine ⟨mirrors.control, mirrors.contents, mirrors.transitions, ?_, ?_⟩
  · intro x member
    obtain ⟨x', member', rest⟩ := mirrors.sub x member
    exact ⟨x', List.mem_append_left _ member', rest⟩
  · intro x member committed
    rcases List.mem_append.mp member with before | last
    · exact mirrors.sup x before committed
    · rw [List.mem_singleton.mp last, started] at committed
      cases committed

theorem Linearized.begun (linear : Linearized db) {row : RunRow} (started : row.status = .started) :
    Linearized (withRun db row) := by
  obtain ⟨entries, serial, accepted, mirrors⟩ := linear
  exact ⟨entries, serial, accepted, mirrors.begun started⟩

/-- Recording a failure is not visible. -/
theorem Linearized.failed (linear : Linearized db) (unique : UniqueRuns db) {after : Database}
    {row row' : RunRow} (replaces : Replaces db.runs after.runs row row')
    (started : row.status = .started) (failed : row'.status = .failed)
    (control : after.control = db.control) (contents : after.contents = db.contents)
    (transitions : after.transitions = db.transitions) : Linearized after := by
  obtain ⟨entries, serial, accepted, mirrors⟩ := linear
  refine ⟨entries, serial, accepted, mirrors.control.trans control.symm,
    mirrors.contents.trans contents.symm, mirrors.transitions.trans transitions.symm, ?_, ?_⟩
  · intro x member
    obtain ⟨x', member', committed, same⟩ := mirrors.sub x member
    refine ⟨x', (replaces.mem x').mpr (.inl ⟨member', fun clash => ?_⟩), committed, same⟩
    rw [run_unique unique member' replaces.member clash, started] at committed
    cases committed
  · intro x member committed
    rcases (replaces.mem x).mp member with ⟨before, _⟩ | rfl
    · exact mirrors.sup x before committed
    · rw [failed] at committed
      cases committed

/-- **A snapshot with the current sequence number is current.** Nothing that a snapshot shows has
changed while the sequence stayed the same and the gate is free. -/
theorem Sound.snapshot_current (sound : Sound c db) (free : c.activeRunId = none)
    {past : Database} {pastControl : ControlRow} (seeded : Seeded past pastControl)
    (earlier : Precedes past db) {product : Product} {day : Date} {snapshot : Snapshot}
    (read : readSnapshot (snapshotQuery product day past) = .ok snapshot)
    (same : snapshot.sequence = c.sequence) :
    readSnapshot (snapshotQuery product day db) = .ok snapshot := by
  obtain ⟨pastFree, _, _, snapshot_eq⟩ := (readSnapshot_ok seeded).mp read
  have pastSequence : pastControl.sequence = c.sequence := by
    rw [← same, snapshot_eq]
  obtain ⟨_, contents, transitions⟩ := earlier.frozen
    (by rw [seeded.sequence, sound.seeded.sequence, pastSequence])
    (by rw [seeded.gate, pastFree])
  have sameControl : pastControl = c :=
    ControlRow.ext (seeded.singleton.trans sound.seeded.singleton.symm) pastSequence
      (seeded.schema.trans sound.seeded.schema.symm) (pastFree.trans free.symm)
  subst sameControl
  rw [snapshotQuery_congr sound.seeded seeded contents transitions, read]

/-- **A plan for these records that may commit** is the one that the current snapshot gives. -/
theorem PlannedFrom.current {request : Request} {records : List Observation} {product : Product}
    {p : CommitParameters} (permitted : PlannedFrom request records db product p)
    (sound : Sound c db) (current : c.sequence = p.expectedSequence) (free : c.activeRunId = none) :
    ∃ plan, planOn p.runId request records db = .ok plan ∧ p = commitParameters p.runId plan ∧
      request.product = product := by
  obtain @⟨batch, past, pastControl, snapshot, plan, product_eq, batched, seeded, earlier, read,
    planned, parameters⟩ := permitted
  have same : snapshot.sequence = c.sequence := by
    rw [current, parameters, (planWrite_eq planned).2]
    rfl
  have readNow := sound.snapshot_current free seeded earlier read same
  refine ⟨plan, ?_, parameters, product_eq⟩
  simp only [planOn, batched, product_eq, readNow, bind, Except.bind, planned]

/-- A commit whose parameters are those of the plan for a batch of its run on the current
snapshot. -/
structure Replanned (db : Database) (product : Product) (p : CommitParameters)
    (request : Request) (records : List Observation) (batch : List BatchRow)
    (current : Snapshot) (plan : WritePlan) : Prop where
  product_eq : request.product = product
  batched : batchRows request records = .ok batch
  read : readSnapshot (snapshotQuery product request.day db) = .ok current
  planned : planWrite p.runId batch current = .ok plan
  parameters : p = commitParameters p.runId plan
  ofRequest : ∃ row ∈ db.runs, row.runId = p.runId ∧ row.requestId = request.requestId

/-- **A plan that may commit is the one that the current snapshot gives.** -/
theorem Planned.replanned {product : Product} {p : CommitParameters}
    (permitted : Planned db product p) (sound : Sound c db)
    (current : c.sequence = p.expectedSequence) (free : c.activeRunId = none) :
    ∃ request records batch snapshot plan,
      Replanned db product p request records batch snapshot plan := by
  obtain @⟨request, records, batch, past, pastControl, snapshot, plan, row, product_eq, batched,
    seeded, earlier, read, planned, parameters, member, ofRun, ofRequest⟩ := permitted
  have same : snapshot.sequence = c.sequence := by
    rw [current, parameters, (planWrite_eq planned).2]
    rfl
  exact ⟨request, records, batch, snapshot, plan, product_eq, batched,
    sound.snapshot_current free seeded earlier read same, planned, parameters,
    row, member, ofRun, ofRequest⟩

omit [Platform] in
theorem Mirrors.fresh {serial : Database} (mirrors : Mirrors serial db) (unique : UniqueRuns db)
    {row : RunRow} (member : row ∈ db.runs) (started : row.status = .started) :
    ∀ x ∈ serial.runs, x.runId ≠ row.runId := by
  intro x at_x same
  obtain ⟨x', at_x', committed, outcome⟩ := mirrors.sub x at_x
  have clash : x'.runId = row.runId := (RunRow.outcome_runId outcome).symm.trans same
  rw [run_unique unique at_x' member clash, started] at committed
  cases committed

/-- A commit of a started run on both sides. -/
theorem Mirrors.committed {serial : Database} (mirrors : Mirrors serial db)
    (unique : UniqueRuns db) {product : Product} {p : CommitParameters} {row : RunRow}
    (replaces : Replaces db.runs (committedDatabase product p c db).runs row (row.commit p))
    (started : row.status = .started) {entry : Entry} {batch : List BatchRow}
    {snapshot : Snapshot} {plan : WritePlan} (commits : Commits entry c serial batch snapshot plan)
    (product_eq : entry.request.product = product)
    (parameters : p = commitParameters entry.runId plan)
    (outcome : (entry.row.commit (commitParameters entry.runId plan)).outcome =
      (row.commit p).outcome) :
    Mirrors (afterCommit entry plan c serial) (committedDatabase product p c db) := by
  refine ⟨by rw [parameters]; rfl, ?_, ?_, ?_, ?_⟩
  · simp only [afterCommit, committedDatabase, updateRuns, insertRows, withRun,
      mirrors.contents, product_eq, ← parameters]
  · simp only [afterCommit, committedDatabase, updateRuns, insertRows, withRun,
      mirrors.transitions, product_eq, ← parameters]
  · rw [afterCommit_runs commits]
    intro x at_x
    rcases List.mem_append.mp at_x with before | last
    · obtain ⟨x', at_x', committed, same⟩ := mirrors.sub x before
      refine ⟨x', (replaces.mem x').mpr (.inl ⟨at_x', fun clash => ?_⟩), committed, same⟩
      rw [run_unique unique at_x' replaces.member clash, started] at committed
      cases committed
    · rw [List.mem_singleton.mp last]
      exact ⟨row.commit p, replaces.member', rfl, outcome⟩
  · rw [afterCommit_runs commits]
    intro x at_x committed
    rcases (replaces.mem x).mp at_x with ⟨before, _⟩ | rfl
    · obtain ⟨x', at_x', same⟩ := mirrors.sup x before committed
      exact ⟨x', List.mem_append_left _ at_x', same⟩
    · exact ⟨_, List.mem_append_right _ (List.mem_singleton_self _), outcome⟩

theorem Sound.commit_outcome (sound : Sound c db) {row : RunRow} (member : row ∈ db.runs)
    (started : row.status = .started) {entry : Entry} (binding : entry.row.binding = row.binding)
    (p : CommitParameters) : (entry.row.commit p).outcome = (row.commit p).outcome := by
  have clockless : row.knowledgeAt = none := by
    rw [← Option.not_isSome_iff_eq_none, sound.timed row member, started]
    exact fun impossible => by cases impossible
  simp only [RunRow.outcome, RunRow.commit, clockless, RunOutcome.mk.injEq, true_and]
  exact ⟨binding, rfl⟩

/-- **A commit of the system is the next run of the serial execution.** -/
theorem Linearized.committed (sound : Sound c db) (linear : Linearized db) {product : Product}
    {p : CommitParameters} {row : RunRow} (atRow : runRows db p.runId = [row])
    (started : row.status = .started) (current : c.sequence = p.expectedSequence)
    (free : c.activeRunId = none) (permitted : Planned db product p) :
    Linearized (committedDatabase product p c db) := by
  have ofRun : row.runId = p.runId := (mem_runRows.mp (atRow ▸ List.mem_singleton_self row)).2
  have replaces : Replaces db.runs (committedDatabase product p c db).runs row (row.commit p) :=
    updateRuns_replaces sound.unique atRow fun _ => rfl
  obtain ⟨request, records, batch, snapshot, plan, product_eq, batched, readNow, planned,
    parameters, row', member, ofRun', ofRequest⟩ := permitted.replanned sound current free
  rw [run_unique sound.unique member replaces.member (ofRun'.trans ofRun.symm)] at ofRequest
  obtain ⟨entries, serial, accepted, mirrors⟩ := linear
  obtain ⟨c', isSerial⟩ := acceptAll_serial accepted
  obtain rfl := isSerial.sound.seeded.control_unique sound.seeded mirrors.control
  obtain ⟨begun, requestId, product', day, location⟩ := sound.bound row replaces.member
  let entry : Entry := ⟨p.runId, begun, request, records, row.startedAt, none,
    ofRequest.symm.trans requestId⟩
  have binding : entry.row.binding = row.binding := by
    simp only [RunRow.binding, Entry.row, newRun, NewRun.row, entry, ofRun, requestId, product',
      day, location]
  have commits : Commits entry c' serial batch snapshot plan := by
    refine ⟨batched, ?_, planned, fun x at_x same => ?_, free⟩
    · rw [snapshotQuery_congr isSerial.sound.seeded sound.seeded mirrors.contents
        mirrors.transitions, product_eq]
      exact readNow
    · exact mirrors.fresh sound.unique replaces.member started x at_x (same.trans ofRun.symm)
  have outcome : (entry.row.commit (commitParameters p.runId plan)).outcome =
      (row.commit p).outcome := by
    rw [← parameters]
    exact sound.commit_outcome replaces.member started binding p
  exact ⟨entries ++ [entry], afterRun entry plan c' serial, acceptAll_snoc.mpr ⟨serial, accepted,
    (acceptRun_iff isSerial).mpr ⟨_, _, _, commits, rfl⟩⟩,
    mirrors.committed sound.unique replaces started commits product_eq parameters outcome⟩

/-- When the gate is held, the last run of a serial execution holds it and is not finalized. -/
theorem gate_last {entries : List Entry} {serial : Database} {runId : String}
    (accepted : acceptAll entries Database.seeded = .ok serial) (isSerial : Serial c serial)
    (held : c.activeRunId = some runId) :
    ∃ init last before c' batch snapshot plan, entries = init ++ [last] ∧
      acceptAll init Database.seeded = .ok before ∧ Serial c' before ∧
      Commits last c' before batch snapshot plan ∧ last.runId = runId ∧
      last.finalization = none ∧ serial = afterCommit last plan c' before ∧
      c = c'.take last.runId := by
  rcases List.eq_nil_or_concat entries with rfl | ⟨init, last, rfl⟩
  · cases accepted
    have seeded := isSerial.sound.seeded.control_unique seeded_seeded rfl
    subst seeded
    cases held
  · rw [List.concat_eq_append] at accepted ⊢
    obtain ⟨before, earlier, accept⟩ := acceptAll_snoc.mp accepted
    obtain ⟨c', isSerial'⟩ := acceptAll_serial earlier
    obtain ⟨batch, snapshot, plan, commits, rfl⟩ := (acceptRun_iff isSerial').mp accept
    have after := (afterRun_serial isSerial' commits).sound.seeded
    have control := isSerial.sound.seeded.control_unique after rfl
    cases finalization : last.finalization with
    | none =>
        rw [control, afterControl, finalization] at held
        refine ⟨init, last, before, c', batch, snapshot, plan, rfl, earlier, isSerial', commits,
          Option.some.inj held, finalization, ?_, ?_⟩
        · rw [afterRun, finalization]
        · rw [control, afterControl, finalization]
    | some knowledgeAt =>
        rw [control, afterControl, finalization] at held
        cases held

/-- A finalization on both sides of the run that committed last. -/
theorem Mirrors.finalized (sound : Sound c db) {product : Product} {p : FinalizeParameters}
    {row : RunRow} (now : UtcTime) (atRow : runRows db p.runId = [row])
    (product_eq : row.product = product) {last : Entry} {before : Database} {c₀ : ControlRow}
    {batch : List BatchRow} {snapshot : Snapshot} {plan : WritePlan} (isSerial : Serial c₀ before)
    (commits : Commits last c₀ before batch snapshot plan) (runId : last.runId = p.runId)
    (mirrors : Mirrors (afterCommit last plan c₀ before) db) (control : c = c₀.take last.runId) :
    Mirrors (afterRun { last with finalization := some p.knowledgeAt } plan c₀ before)
      (finalizedDatabase product p now c db) := by
  have ofRun : row.runId = p.runId := (mem_runRows.mp (atRow ▸ List.mem_singleton_self row)).2
  have replaces : Replaces db.runs (finalizedDatabase product p now c db).runs row
      (row.succeed p now) := updateRuns_replaces sound.unique atRow fun _ => rfl
  let entry : Entry := { last with finalization := some p.knowledgeAt }
  have after : afterRun entry plan c₀ before =
      finalizedDatabase last.begun.product (last.clocks p.knowledgeAt) p.knowledgeAt
        (c₀.take last.runId) (afterCommit last plan c₀ before) := rfl
  -- The manifest of the run in the serial execution.
  have rows := afterCommit_row isSerial commits
  have unique := (afterCommit_sound isSerial commits).sound.unique
  have replaces' : Replaces (afterCommit last plan c₀ before).runs
      (afterRun entry plan c₀ before).runs (last.row.commit (commitParameters last.runId plan)) _ :=
    updateRuns_replaces unique rows fun _ => rfl
  obtain ⟨other, at_other, _, outcome⟩ := mirrors.sub _ replaces'.member
  have same := run_unique sound.unique at_other replaces.member
    ((RunRow.outcome_runId outcome).symm.trans (runId.trans ofRun.symm))
  subst same
  have product' : last.begun.product = product := by
    rw [← product_eq]
    exact congrArg (fun o : RunOutcome => o.binding.2.2.1) outcome
  have finished : ((last.row.commit (commitParameters last.runId plan)).succeed
      (last.clocks p.knowledgeAt) p.knowledgeAt).outcome = (other.succeed p now).outcome := by
    simp only [RunRow.outcome, RunOutcome.mk.injEq] at outcome ⊢
    obtain ⟨binding, _, fetched, normalized, accepted, rejected, contents, transitions, batch,
      job, sequence, _⟩ := outcome
    exact ⟨binding, rfl, fetched, normalized, accepted, rejected, contents, transitions, batch,
      job, sequence, rfl⟩
  refine ⟨by rw [after, control]; rfl, ?_, ?_, ?_, ?_⟩
  · rw [after]
    simp only [finalizedDatabase, updateRuns, fillClocks, Entry.clocks, mirrors.contents, product',
      runId]
  · rw [after]
    simp only [finalizedDatabase, updateRuns, fillClocks, Entry.clocks, mirrors.transitions,
      product', runId]
  · refine replaces'.forall (fun x at_x differs => ?_) ⟨_, replaces.member', rfl, finished⟩
    obtain ⟨x', at_x', hasCommitted, sameOutcome⟩ := mirrors.sub x at_x
    refine ⟨x', (replaces.mem x').mpr (.inl ⟨at_x', fun clash => differs ?_⟩), hasCommitted,
      sameOutcome⟩
    exact (RunRow.outcome_runId sameOutcome).trans (clash.trans (ofRun.trans runId.symm))
  · refine replaces.forall (fun x at_x differs hasCommitted => ?_)
      fun _ => ⟨_, replaces'.member', finished⟩
    obtain ⟨x', at_x', sameOutcome⟩ := mirrors.sup x at_x hasCommitted
    refine ⟨x', (replaces'.mem x').mpr (.inl ⟨at_x', fun clash => differs ?_⟩), sameOutcome⟩
    exact (RunRow.outcome_runId sameOutcome).symm.trans (clash.trans (runId.trans ofRun.symm))

/-- **A finalization of the system finalizes the last run of the serial execution.** -/
theorem Linearized.finalized (sound : Sound c db) (linear : Linearized db) {product : Product}
    {p : FinalizeParameters} {row : RunRow} (now : UtcTime) (atRow : runRows db p.runId = [row])
    (gate : c.activeRunId = some p.runId) (product_eq : row.product = product) :
    Linearized (finalizedDatabase product p now c db) := by
  obtain ⟨entries, serial, accepted, mirrors⟩ := linear
  obtain ⟨c', isSerial⟩ := acceptAll_serial accepted
  obtain rfl := isSerial.sound.seeded.control_unique sound.seeded mirrors.control
  obtain ⟨init, last, before, c₀, batch, snapshot, plan, rfl, earlier, isSerial₀, commits, runId,
    _, rfl, control⟩ := gate_last accepted isSerial gate
  have commits' : Commits { last with finalization := some p.knowledgeAt } c₀ before batch snapshot
      plan := ⟨commits.batched, commits.read, commits.planned, commits.fresh, commits.free⟩
  exact ⟨init ++ [{ last with finalization := some p.knowledgeAt }], _,
    acceptAll_snoc.mpr ⟨before, earlier, (acceptRun_iff isSerial₀).mpr ⟨_, _, _, commits', rfl⟩⟩,
    mirrors.finalized sound now atRow product_eq isSerial₀ commits runId control⟩

end Steps

/-! ## The states of the tables -/

/-- What holds of the tables at all times: they were just created, or they are sound and those
of a serial execution. -/
def Good (db : Database) : Prop := db = .created ∨ ∃ c, Sound c db ∧ Linearized db

theorem good_created : Good .created := .inl rfl

theorem Good.sound {db : Database} (good : Good db) {row : RunRow} (member : row ∈ db.runs) :
    ∃ c, Sound c db := by
  rcases good with rfl | ⟨c, sound, _⟩
  · cases member
  · exact ⟨c, sound⟩

theorem Good.valid {db : Database} (good : Good db) {row : RunRow} (member : row ∈ db.runs) :
    isRunId row.runId = true := by
  obtain ⟨_, sound⟩ := good.sound member
  exact sound.valid row member

theorem Good.of_seeded {db : Database} (good : Good db) {c : ControlRow} (seeded : Seeded db c) :
    Sound c db ∧ Linearized db := by
  rcases good with rfl | ⟨c', sound, linear⟩
  · cases seeded.control
  · obtain rfl := sound.seeded.control_unique seeded rfl
    exact ⟨sound, linear⟩

theorem Good.unique {db : Database} (good : Good db) : UniqueRuns db := by
  rcases good with rfl | ⟨c, sound, _⟩
  · exact List.nodup_nil
  · exact sound.unique

theorem Good.effect {db after : Database} (good : Good db) {script : Script} {now : UtcTime}
    {rows : Rows} (executed : script.execute now db = .ok (after, rows)) :
    Effect db script after := by
  rcases good with rfl | ⟨c, sound, _⟩
  · exact execute_created executed
  · exact execute_seeded sound.seeded sound.unique executed

/-- **A permitted script leads from a good state to a later good state.** -/
theorem Good.execute {db after : Database} (good : Good db) {script : Script} {now : UtcTime}
    {rows : Rows} (permitted : Permitted db script)
    (executed : script.execute now db = .ok (after, rows)) : Good after ∧ Precedes db after := by
  have effect := good.effect executed
  have precedes : Precedes db after := by
    refine effect.precedes good.unique fun product p same => ?_
    subst same
    exact Planned.wellPlanned permitted
  refine ⟨?_, precedes⟩
  cases effect with
  | idle => exact good
  | seeded unseeded => exact .inr ⟨_, sound_seeded, linearized_seeded⟩
  | @begun c _ now seeded fresh =>
      obtain ⟨sound, linear⟩ := good.of_seeded seeded
      exact .inr ⟨c, sound.begun now fresh permitted, linear.begun rfl⟩
  | @committed c' product p row seeded atRow started current free =>
      obtain ⟨sound, linear⟩ := good.of_seeded seeded
      exact .inr ⟨_, sound.committed atRow started current free permitted,
        linear.committed sound atRow started current free permitted⟩
  | @finalized c' product p row now seeded atRow committed gate =>
      obtain ⟨sound, linear⟩ := good.of_seeded seeded
      obtain ⟨other, member, ofRun, product_eq⟩ := permitted
      have here : other ∈ runRows db p.runId := mem_runRows.mpr ⟨member, ofRun⟩
      rw [atRow] at here
      obtain rfl := List.mem_singleton.mp here
      exact .inr ⟨_, sound.finalized now atRow committed gate product_eq,
        linear.finalized sound now atRow gate product_eq⟩
  | @failed c' p row now seeded atRow canFail =>
      obtain ⟨sound, linear⟩ := good.of_seeded seeded
      have replaces := failure_replaces sound.unique now atRow canFail
      simp only [RunRow.canFail, Bool.and_eq_true, decide_eq_true_eq, Bool.not_eq_true'] at canFail
      exact .inr ⟨c', sound.failed replaces canFail.1.2 canFail.2 rfl rfl rfl,
        linear.failed sound.unique replaces canFail.1.2 rfl rfl rfl rfl⟩

end PowerMarket
