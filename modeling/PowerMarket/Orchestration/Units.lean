import PowerMarket.Orchestration.Refreshes

/-!
# Units that are left alone

What executing one unit does when every call is answered at once and nobody else acts. A unit that has
succeeded is reused and changes no table (`UnitReady.reuse`). A unit that can be started is ingested if
its records pass the checks of a batch, and its result counts the rows that were added to the tables
(`UnitReady.accept`). If a check rejects them, its run fails (`UnitReady.refuse`), and no later call
revives it (`runNow_executeUnit_failed`).
-/

set_option autoImplicit false

namespace PowerMarket

open Library JobService

variable [Platform]

section Unit

variable {source : Request → List Observation} {w w' : Cloud} {c : ControlRow}
  {today : Date} {unit : IngestionUnit} {request : Request} {row : RunRow} {writes : WritePlan}

/-! ## Opening a run -/

variable (source) in
/-- A run that is begun, or was begun before, and has no commit job. Only its manifest is new. -/
structure Opens (c : ControlRow) (request : Request) (row : RunRow) (w w' : Cloud) : Prop where
  begun : runNow (fetching source) (begin request row.runId) w = (.ok row, w')
  fresh : w'.Fresh
  sound : Sound c w'.store
  member : row ∈ w'.store.runs
  started : row.status = .started
  bound : row.requestId = request.requestId
  unused : w'.jobs (.named (jobId row.runId "commit")) = none
  contents : w'.store.contents = w.store.contents
  transitions : w'.store.transitions = w.store.transitions
  others : ∀ other, other.runId ≠ row.runId → (other ∈ w'.store.runs ↔ other ∈ w.store.runs)
  jobs : ∀ name, name ≠ jobId row.runId "begin" → w'.jobs (.named name) = w.jobs (.named name)

variable (source) in
/-- **A run that can be started and has not succeeded** is opened. -/
theorem Startable.opens {runId : String} (startable : Startable w runId request.requestId)
    (orderly : Orderly w) (sound : Sound c w.store) (valid : isRunId runId = true)
    (unfinished : ∀ row ∈ w.store.runs, row.runId = runId → row.status ≠ .succeeded) :
    ∃ row w', row.runId = runId ∧ Opens source c request row w w' := by
  cases startable with
  | new absent unbegun unused =>
      have fresh : w.Fresh := fun n bound => orderly.consistent.fresh bound
      obtain ⟨t, w', begun, ran⟩ :=
        @runNow_begin_new _ (fetching source) _ _ request _ fresh valid sound.seeded absent unbegun
      have differs : jobId runId "commit" ∉ [jobId runId "begin"] := by
        rw [List.mem_singleton]
        intro same
        exact absurd (jobId_injective valid valid same).2 (by decide)
      refine ⟨(newRun request runId).row t, w', rfl, ?_⟩
      constructor
      case begun => exact begun
      case fresh => exact ran.fresh
      case sound =>
        rw [ran.store_eq]
        exact sound.begun t absent ⟨request, runId, valid, rfl⟩
      case member =>
        rw [ran.store_eq]
        exact List.mem_append_right _ (List.mem_singleton_self _)
      case started => rfl
      case bound => rfl
      case unused => exact (ran.others _ differs).trans unused
      case contents => rw [ran.store_eq, withRun]
      case transitions => rw [ran.store_eq, withRun]
      case others =>
        intro other different
        rw [ran.store_eq, withRun, List.mem_append, List.mem_singleton]
        exact or_iff_left fun same => different (congrArg RunRow.runId same)
      case jobs =>
        intro name other
        exact ran.others name fun inside => other (List.mem_singleton.mp inside)
  | @begun row member ofRun bound started unused =>
      obtain ⟨w', begun, ran⟩ := runNow_begin_again (fetching source) orderly member bound
      refine ⟨row, w', ofRun, ?_⟩
      subst ofRun
      exact ⟨begun, ran.fresh, ran.store_eq ▸ sound, ran.store_eq ▸ member, started, bound,
        (ran.others _ List.not_mem_nil).trans unused, by rw [ran.store_eq], by rw [ran.store_eq],
        fun other _ => by rw [ran.store_eq], fun name _ => ran.others name List.not_mem_nil⟩
  | done member ofRun bound succeeded => exact absurd succeeded (unfinished _ member ofRun)

theorem Startable.ran {runId requestId : String} (startable : Startable w runId requestId)
    (ran : Ran w w' w.store) : Startable w' runId requestId := by
  cases startable with
  | new absent unbegun unused =>
      exact .new (ran.store_eq ▸ absent) ((ran.named _).trans unbegun) ((ran.named _).trans unused)
  | begun member ofRun bound started unused =>
      exact .begun (ran.store_eq ▸ member) ofRun bound started ((ran.named _).trans unused)
  | done member ofRun bound succeeded =>
      exact .done (ran.store_eq ▸ member) ofRun bound succeeded

theorem Opens.ledger (opens : Opens source c request row w w') (sound : Sound c w.store) :
    w'.store.ledger = w.store.ledger := by
  refine Ledger.ext ?_ (funext fun product => ?_) (funext fun product => ?_)
  · show w'.store.sequence = w.store.sequence
    rw [opens.sound.seeded.sequence, sound.seeded.sequence]
  · simp only [Database.ledger, opens.contents]
  · simp only [Database.ledger, opens.transitions]

theorem Opens.orderly (opens : Opens source c request row w w') (orderly : Orderly w) :
    Orderly w' := by
  have safe : protocol.Safe Permits (fun result v => ∀ manifest, result = .ok manifest →
      ManifestRead w.store v row.runId (some manifest) ∧
        manifest.requestId = request.requestId) (begin request row.runId) w :=
    begin_safe permits_passive (fun _ _ _ => permits_getRun) fun valid _ _ _ => permits_begin valid
  have kept := runNow_orderly (fetching source) orderly safe
  rw [opens.begun] at kept
  exact kept

/-! ## Accepted records -/

/-- Rows were added to the tables of a product. -/
structure Grown (product : Product) (contents transitions : Nat) (db db' : Database) : Prop where
  contents : ∀ p, (db'.contents p).length =
    (db.contents p).length + if p = product then contents else 0
  transitions : ∀ p, (db'.transitions p).length =
    (db.transitions p).length + if p = product then transitions else 0

/-- Setting clocks adds no rows. -/
theorem acceptedTables_length (product : Product) (writes : WritePlan) (row : RunRow)
    (time now : UtcTime) (c : ControlRow) (db : Database) :
    (∀ p, ((acceptedTables product writes row time now c db).contents p).length =
      ((committedDatabase product (commitParameters row.runId writes) c db).contents p).length) ∧
    ∀ p, ((acceptedTables product writes row time now c db).transitions p).length =
      ((committedDatabase product (commitParameters row.runId writes) c db).transitions p).length := by
  constructor
  all_goals
    intro p
    simp only [acceptedTables, finalizedDatabase, updateRuns, fillClocks]
    by_cases ofProduct : p = row.product
    · rw [ofProduct, Function.update_self, List.length_map]
    · rw [Function.update_of_ne ofProduct]

/-- **An accepted run** adds the rows of its plan to the tables. -/
theorem Good.grown (noCollisions : NoCollisions) {db : Database} (good : Good db)
    (sound : Sound c db) (free : c.activeRunId = none) {records : List Observation}
    (uncommitted : ∀ other ∈ db.runs, other.runId = row.runId → other.status.hasCommitted ≠ true)
    (planned : planOn row.runId request records db = .ok writes) (time now : UtcTime) :
    Grown request.product writes.contents.length writes.transitions.length db
      (acceptedTables request.product writes row time now c db) := by
  obtain ⟨_, entries, serial, accepted, mirrors⟩ := good.of_seeded sound.seeded
  obtain ⟨c', isSerial⟩ := acceptAll_serial accepted
  obtain rfl : c' = c := isSerial.sound.seeded.control_unique sound.seeded mirrors.control
  obtain ⟨batch, batched, rest⟩ := bind_eq_ok.mp planned
  obtain ⟨current, read, written⟩ := bind_eq_ok.mp rest
  have catalogue := (acceptAll_history noCollisions accepted request.product).catalogue
  let entry : Entry := ⟨row.runId, request, request, records, time, none, rfl⟩
  have commits : Commits entry c' serial batch current writes := by
    refine ⟨batched, ?_, written, fun x at_x => ?_, free⟩
    · rw [snapshotQuery_congr isSerial.sound.seeded sound.seeded mirrors.contents
        mirrors.transitions]
      exact read
    · obtain ⟨x', at_x', committed, same⟩ := mirrors.sub x at_x
      rw [RunRow.outcome_runId same]
      exact fun ofRun => uncommitted x' at_x' ofRun committed
  have plan_eq := (planWrite_eq written).2
  have contents : (mergeRows (·.contentId) (db.contents request.product) writes.contents).length =
      (db.contents request.product).length + writes.contents.length := by
    have grown := congrArg List.length (commits.contents noCollisions isSerial catalogue)
    simp only [afterCommit, committedDatabase, updateRuns, insertRows, withRun, commitParameters,
      Function.update_self, List.length_append, entry] at grown
    rw [← mirrors.contents, grown, plan_eq]
  have transitions :
      (mergeRows (·.transitionId) (db.transitions request.product) writes.transitions).length =
        (db.transitions request.product).length + writes.transitions.length := by
    have grown := congrArg List.length (commits.transitions noCollisions isSerial catalogue)
    simp only [afterCommit, committedDatabase, updateRuns, insertRows, withRun, commitParameters,
      Function.update_self, List.length_append, entry] at grown
    rw [← mirrors.transitions, grown, plan_eq]
  obtain ⟨clocked_contents, clocked_transitions⟩ := acceptedTables_length request.product writes row
    time now c' db
  constructor
  · intro p
    rw [clocked_contents p]
    show (Function.update db.contents request.product _ p).length = _
    by_cases ofProduct : p = request.product
    · rw [ofProduct, Function.update_self, if_pos rfl]
      exact contents
    · rw [Function.update_of_ne ofProduct, if_neg ofProduct, add_zero]
  · intro p
    rw [clocked_transitions p]
    show (Function.update db.transitions request.product _ p).length = _
    by_cases ofProduct : p = request.product
    · rw [ofProduct, Function.update_self, if_pos rfl]
      exact transitions
    · rw [Function.update_of_ne ofProduct, if_neg ofProduct, add_zero]

variable (source) in
/-- What ingesting an opened run with accepted records leaves. -/
structure AcceptsRun (request : Request) (row : RunRow) (w w' : Cloud) (writes : WritePlan)
    (final : RunRow) : Prop where
  ran : runNow (fetching source) (ingest request row.runId) w = (.ok final, w')
  ofRun : final.runId = row.runId
  bound : final.requestId = request.requestId
  succeeded : final.status = .succeeded
  rowsAccepted : final.rowsAccepted = some (source request).length
  newContents : final.newContents = some writes.contents.length
  newTransitions : final.newTransitions = some writes.transitions.length
  member : final ∈ w'.store.runs
  entered : w.store.ledger.accept row.runId request (source request) = .ok w'.store.ledger
  others : ∀ other, other.runId ≠ row.runId → (other ∈ w'.store.runs ↔ other ∈ w.store.runs)
  jobs : ∀ name, name ∉ [jobId row.runId "begin", jobId row.runId "commit"] →
    w'.jobs (.named name) = w.jobs (.named name)
  grown : Grown request.product writes.contents.length writes.transitions.length w.store w'.store

/-- **Ingesting an opened run** whose records are accepted. -/
theorem Opens.accept (noCollisions : NoCollisions) {w₁ : Cloud}
    (opens : Opens source c request row w w₁) (orderly : Orderly w) (sound : Sound c w.store)
    (free : c.activeRunId = none) {batch : List BatchRow}
    (batched : batchRows request (source request) = .ok batch) :
    ∃ w' writes final, AcceptsRun source request row w w' writes final := by
  have good₁ := (opens.orderly orderly).good
  have valid := good₁.valid opens.member
  have seeded₁ := opens.sound.seeded
  obtain ⟨_, writes, _, written, planned⟩ :=
    good₁.planned noCollisions opens.sound free valid batched
  obtain ⟨time, now, w', ran, named⟩ := runNow_ingest_settled opens.begun opens.fresh valid
    seeded₁ opens.sound.unique opens.member opens.started opens.bound free opens.unused planned
  have entered := accept_committed seeded₁ free planned
  obtain ⟨writes', planned', ledger⟩ :=
    accepted_ledger seeded₁ opens.sound.unique opens.member free entered
  obtain rfl : writes' = writes := Except.ok.inj (planned'.symm.trans planned)
  have first := committed_replaces request.product writes' c opens.sound.unique opens.member
  have second := accepted_replaces request.product writes' c opens.sound.unique opens.member time now
  have grown : Grown request.product writes'.contents.length writes'.transitions.length w₁.store
      w'.store := by
    rw [named.store_eq]
    refine good₁.grown noCollisions opens.sound free (fun other member ofRun => ?_) planned time now
    rw [run_unique opens.sound.unique member opens.member ofRun, opens.started]
    exact Bool.false_ne_true
  refine ⟨w', writes', acceptedRow writes' row time now, ?_⟩
  constructor
  case ran => exact ran
  case ofRun => rfl
  case bound => exact opens.bound
  case succeeded => rfl
  case rowsAccepted =>
    have spec := batchRows_spec batched
    have count : writes'.accepted = (source request).length := by
      rw [(planWrite_eq written).2, spec.perm.length_eq, List.length_map]
    exact congrArg some count
  case newContents => rfl
  case newTransitions => rfl
  case member =>
    rw [named.store_eq]
    exact second.member'
  case entered => rw [← opens.ledger sound, entered, named.store_eq, ledger time now]
  case others =>
    intro other differs
    rw [named.store_eq]
    exact (second.others differs).trans ((first.others differs).trans (opens.others other differs))
  case jobs =>
    intro name outside
    rw [List.mem_cons, not_or] at outside
    exact (named.others name outside.2).trans (opens.jobs name outside.1)
  case grown =>
    exact ⟨fun p => by rw [grown.contents, opens.contents],
      fun p => by rw [grown.transitions, opens.transitions]⟩

/-! ## The calls of a unit -/

theorem runNow_prior (outside : (request : Outside) → Except Exn request.Reply) {runId : String}
    (orderly : Orderly w) (valid : isRunId runId = true) :
    ∃ prior w', (∀ row, prior = some row ↔ row ∈ w.store.runs ∧ row.runId = runId) ∧
      Ran w w' w.store ∧ Orderly w' ∧ runNow outside (getRun runId) w = (.ok prior, w') := by
  have fresh : w.Fresh := fun n bound => orderly.consistent.fresh bound
  have few := runRows_length_le orderly.good.unique runId
  obtain ⟨prior, found⟩ : ∃ prior : Option RunRow, runRows w.store runId = prior.toList := by
    match rows : runRows w.store runId with
    | [] => exact ⟨none, rfl⟩
    | [row] => exact ⟨some row, rfl⟩
    | _ :: _ :: _ => simp [rows] at few
  obtain ⟨w', ran, read⟩ := runNow_getRun outside fresh valid found
  have orderly' : Orderly (runNow outside (getRun runId) w).2 :=
    runNow_orderly outside orderly getRun_permitted
  rw [read] at orderly'
  refine ⟨prior, w', fun row => ?_, ran, orderly', read⟩
  rw [← mem_runRows, found, Option.mem_toList]

/-- A unit whose ingestion succeeds. -/
theorem runNow_executeUnit_ok {outside : (request : Outside) → Except Exn request.Reply}
    {w₁ : Cloud} {prior : Option RunRow} {final : RunRow} {result : IngestionResult}
    (requested : unit.request today = .ok request) (valid : isRunId unit.runId = true)
    (read : runNow outside (getRun unit.runId) w = (.ok prior, w₁))
    (ingested : runNow outside (ingest request unit.runId) w₁ = (.ok final, w'))
    (succeeded : final.status = .succeeded) (reported : resultOf unit prior final = .ok result) :
    runNow outside (executeUnit today unit) w = (.ok result, w') := by
  rw [runNow, executeUnit_eq requested valid]
  refine (Program.runIn_bind_ok _ (Program.runIn_tryCatch_ok _ read)).trans ?_
  refine (Program.runIn_bind_ok _ (Program.runIn_tryCatch_ok _ ingested)).trans ?_
  rw [if_neg (not_not.mpr succeeded), reported]
  rfl

/-- A unit whose ingestion fails. -/
theorem runNow_executeUnit_error {outside : (request : Outside) → Except Exn request.Reply}
    {w₁ w₂ : Cloud} {prior : Option RunRow} {e : Exn}
    (requested : unit.request today = .ok request) (valid : isRunId unit.runId = true)
    (read : runNow outside (getRun unit.runId) w = (.ok prior, w₁))
    (ingested : runNow outside (ingest request unit.runId) w₁ = (.error e, w₂)) (fresh : w₂.Fresh)
    (atRow : runRows w₂.store unit.runId = [row]) :
    ∃ w', Ran w₂ w' w₂.store ∧ runNow outside (executeUnit today unit) w =
      (.error (ingestFailed unit e (.found row.status)), w') := by
  have rows : runRows w₂.store unit.runId = (some row).toList := atRow
  obtain ⟨w', ran, reread⟩ := runNow_getRun outside fresh valid rows
  refine ⟨w', ran, ?_⟩
  have state : runNow outside (manifestState unit.runId) w₂ = (.ok (.found row.status), w') := by
    have continued : runNow outside (manifestState unit.runId) w₂ = _ := Program.runIn_attempt ..
    rw [continued, show Program.runIn (answer outside) (getRun unit.runId) w₂ = _ from reread]
    rfl
  rw [runNow, executeUnit_eq requested valid]
  refine (Program.runIn_bind_ok _ (Program.runIn_tryCatch_ok _ read)).trans ?_
  refine Program.runIn_bind_error _ ((Program.runIn_tryCatch_error _ ingested).trans ?_)
  rw [Program.runIn_bind_ok _ state]
  rfl

variable (source) in
theorem runNow_ingest_reread (orderly : Orderly w) (member : row ∈ w.store.runs)
    (succeeded : row.status = .succeeded) (bound : row.requestId = request.requestId) :
    ∃ w', runNow (fetching source) (ingest request row.runId) w = (.ok row, w') ∧
      RanNamed [] w w' w.store := by
  obtain ⟨c, sound⟩ := orderly.good.sound member
  obtain ⟨w₁, begun, ran₁⟩ := runNow_begin_again (fetching source) orderly member bound
  obtain ⟨w₂, ran₂, reconciled⟩ := runNow_reconcile_done (fetching source) ran₁.fresh
    (sound.valid row member) (ran₁.store_eq ▸ runRows_eq sound.unique member) succeeded
  refine ⟨w₂, ?_, ran₁.trans (ran₁.store_eq ▸ ran₂.ranNamed)⟩
  rw [runNow, ingest, Program.runIn_bind_ok _ begun, Program.runIn_bind_ok _ reconciled]
  rfl

variable (source) in
/-- **A unit that has succeeded** is reused: its manifest is read again, and no table changes. -/
theorem runNow_executeUnit_again (orderly : Orderly w) (requested : unit.request today = .ok request)
    (member : row ∈ w.store.runs) (ofRun : row.runId = unit.runId)
    (succeeded : row.status = .succeeded) (bound : row.requestId = request.requestId) {n : Nat}
    (accepted : row.rowsAccepted = some n) :
    ∃ w', runNow (fetching source) (executeUnit today unit) w =
        (.ok ⟨unit, .succeeded, n, 0, 0, true⟩, w') ∧ RanNamed [] w w' w.store ∧ Orderly w' := by
  have valid : isRunId unit.runId = true := ofRun ▸ orderly.good.valid member
  obtain ⟨prior, w₁, found, ran₁, orderly₁, read⟩ :=
    runNow_prior (fetching source) orderly valid
  obtain rfl : prior = some row := (found row).mpr ⟨member, ofRun⟩
  obtain ⟨w', ingested, ran₂⟩ := runNow_ingest_reread source orderly₁
    (ran₁.store_eq ▸ member) succeeded bound
  have reported : resultOf unit (some row) row = .ok ⟨unit, .succeeded, n, 0, 0, true⟩ := by
    simp only [resultOf, accepted, countOf, Option.map_some, succeeded, ↓reduceIte]
    rfl
  rw [ofRun] at ingested
  have ran := runNow_executeUnit_ok requested valid read ingested succeeded reported
  refine ⟨w', ran, ran₁.ranNamed.trans (ran₁.store_eq ▸ ran₂), ?_⟩
  have orderly' : Orderly (runNow (fetching source) (executeUnit today unit) w).2 :=
    runNow_orderly (fetching source) orderly executeUnit_safe
  rw [ran] at orderly'
  exact orderly'

/-! ## Executing a unit -/

variable (source today unit request) in
/-- A unit was executed: its run has succeeded, and the result says what was added to the tables. -/
structure UnitExecuted (w w' : Cloud) (before after : Progress String Ledger)
    (result : IngestionResult) : Prop where
  ran : runNow (fetching source) (executeUnit today unit) w = (.ok result, w')
  orderly : Orderly w'
  worked : Resumable.one (·.runId) (acceptUnit source today) unit before = .ok after
  ingests : Ingests w w' unit.runId request.requestId after.state
  ofUnit : result.unit = unit
  succeeded : result.status = .succeeded
  manifest : ∃ row ∈ w'.store.runs, row.runId = unit.runId ∧ row.requestId = request.requestId ∧
    row.status = .succeeded ∧ row.rowsAccepted = some result.acceptedRows
  reused : result.reusedSuccess = true ↔ unit.runId ∈ before.ids
  fresh : unit.runId ∉ before.ids → result.acceptedRows = (source request).length
  grown : Grown request.product result.newContents result.newTransitions w.store w'.store

/-- The state in which a unit is executed. -/
structure UnitReady (c : ControlRow) (w : Cloud) (today : Date) (unit : IngestionUnit)
    (request : Request) (before : Progress String Ledger) : Prop where
  orderly : Orderly w
  sound : Sound c w.store
  free : c.activeRunId = none
  describes : Describes before w.store
  requested : unit.request today = .ok request
  valid : isRunId unit.runId = true
  startable : Startable w unit.runId request.requestId

theorem UnitReady.done_iff {before : Progress String Ledger}
    (ready : UnitReady c w today unit request before) :
    unit.runId ∈ before.ids ↔
      ∃ row ∈ w.store.runs, row.runId = unit.runId ∧ row.status = .succeeded := by
  have gate : w.store.gate = none := ready.sound.seeded.gate.trans ready.free
  rw [ready.describes.ids]
  refine exists_congr fun row => and_congr_right fun member => and_congr_right fun _ => ?_
  exact ready.orderly.good.committed_iff gate member

/-- **Executing a unit that has succeeded** reuses it. -/
theorem UnitReady.reuse (noCollisions : NoCollisions) {before : Progress String Ledger}
    (ready : UnitReady c w today unit request before) (done : unit.runId ∈ before.ids) :
    ∃ w' result, UnitExecuted source today unit request w w' before before result := by
  obtain ⟨row, member, ofRun, succeeded⟩ := ready.done_iff.mp done
  have bound : row.requestId = request.requestId := by
    cases ready.startable with
    | new absent unbegun unused => exact absurd ofRun (absent row member)
    | begun member' ofRun' bound started unused =>
        rw [run_unique ready.sound.unique member member' (ofRun.trans ofRun'.symm), started]
          at succeeded
        cases succeeded
    | done member' ofRun' bound succeeded' =>
        rw [run_unique ready.sound.unique member member' (ofRun.trans ofRun'.symm)]
        exact bound
  obtain ⟨_, _, batch, _, _, truthful⟩ :=
    ready.orderly.good.truthful noCollisions member (by rw [succeeded]; rfl)
  obtain ⟨w', ran, named, orderly'⟩ := runNow_executeUnit_again source ready.orderly
    ready.requested member ofRun succeeded bound truthful.rowsAccepted
  refine ⟨w', _, ⟨ran, orderly', Resumable.one_of_done done, ?_, rfl, rfl, ?_, ?_,
    fun fresh => absurd done fresh, ?_⟩⟩
  · refine ⟨?_, ⟨row, named.store_eq ▸ member, ofRun, bound, succeeded⟩, fun other _ => ?_,
      fun name _ => named.others name List.not_mem_nil⟩
    · rw [named.store_eq, ready.describes.state]
    · rw [named.store_eq]
  · exact ⟨row, named.store_eq ▸ member, ofRun, bound, succeeded, truthful.rowsAccepted⟩
  · exact iff_of_true rfl done
  · rw [named.store_eq]
    exact ⟨fun p => by simp, fun p => by simp⟩

/-- **Executing a unit whose records are accepted** ingests them. -/
theorem UnitReady.accept (noCollisions : NoCollisions) {before : Progress String Ledger}
    (ready : UnitReady c w today unit request before) (pending : unit.runId ∉ before.ids)
    {batch : List BatchRow} (batched : batchRows request (source request) = .ok batch) :
    ∃ w' after result, UnitExecuted source today unit request w w' before after result := by
  obtain ⟨prior, w₁, found, ran₁, orderly₁, read⟩ :=
    runNow_prior (fetching source) ready.orderly ready.valid
  have unfinished : ∀ row ∈ w.store.runs, row.runId = unit.runId → row.status ≠ .succeeded :=
    fun row member ofRun succeeded => pending (ready.done_iff.mpr ⟨row, member, ofRun, succeeded⟩)
  have sound₁ : Sound c w₁.store := ran₁.store_eq ▸ ready.sound
  have startable₁ : Startable w₁ unit.runId request.requestId := ready.startable.ran ran₁
  obtain ⟨row, w₂, ofRun, opens⟩ := startable₁.opens source orderly₁ sound₁ ready.valid
    (ran₁.store_eq ▸ unfinished)
  obtain ⟨w', writes, final, accepts⟩ :=
    opens.accept noCollisions orderly₁ sound₁ ready.free batched
  have fresh : prior.map (·.status) ≠ some .succeeded := by
    intro done
    obtain ⟨other, isPrior, succeeded⟩ := Option.map_eq_some_iff.mp done
    obtain ⟨member, ofUnit⟩ := (found other).mp isPrior
    exact unfinished other member ofUnit succeeded
  have reported : resultOf unit prior final = .ok ⟨unit, .succeeded, (source request).length,
      writes.contents.length, writes.transitions.length, false⟩ := by
    simp only [resultOf, accepts.rowsAccepted, accepts.newContents, accepts.newTransitions, countOf,
      fresh, ↓reduceIte, decide_false]
    rfl
  have ingested := accepts.ran
  rw [ofRun] at ingested
  have ran := runNow_executeUnit_ok ready.requested ready.valid read ingested accepts.succeeded
    reported
  have orderly' : Orderly (runNow (fetching source) (executeUnit today unit) w).2 :=
    runNow_orderly (fetching source) ready.orderly executeUnit_safe
  rw [ran] at orderly'
  have applied : acceptUnit source today unit before.state = .ok w'.store.ledger := by
    rw [acceptUnit, ready.requested, ready.describes.state, ← ran₁.store_eq, ← ofRun]
    exact accepts.entered
  refine ⟨w', ⟨unit.runId :: before.ids, w'.store.ledger⟩, _,
    ⟨ran, orderly', Resumable.one_of_apply pending applied, ?_, rfl, rfl, ?_, ?_,
      fun _ => rfl, ?_⟩⟩
  · refine ⟨rfl, ⟨final, accepts.member, accepts.ofRun.trans ofRun, accepts.bound,
      accepts.succeeded⟩, fun other differs => ?_, fun name outside => ?_⟩
    · rw [accepts.others other fun same => differs (same.trans ofRun), ran₁.store_eq]
    · rw [accepts.jobs name (ofRun ▸ outside)]
      exact ran₁.named name
  · exact ⟨final, accepts.member, accepts.ofRun.trans ofRun, accepts.bound, accepts.succeeded,
      accepts.rowsAccepted⟩
  · exact iff_of_false Bool.false_ne_true pending
  · rw [← ran₁.store_eq]
    exact accepts.grown

/-! ## Failed units -/

/-- A run that failed in the end, with the manifest that says so. -/
def FailedRun (w : Cloud) (runId requestId : String) : Prop :=
  ∃ row ∈ w.store.runs, row.runId = runId ∧ row.requestId = requestId ∧ row.status = .failed

/-- **Executing a unit whose records a check rejects** stops it for good. -/
theorem UnitReady.refuse {before : Progress String Ledger}
    (ready : UnitReady c w today unit request before) (pending : unit.runId ∉ before.ids) {e : Exn}
    (rejected : batchRows request (source request) = .error e) :
    ∃ w', runNow (fetching source) (executeUnit today unit) w =
        (.error (ingestFailed unit e (.found .failed)), w') ∧ Orderly w' ∧
      Rejected e unit.runId w.store w'.store ∧ FailedRun w' unit.runId request.requestId := by
  obtain ⟨prior, w₁, found, ran₁, orderly₁, read⟩ :=
    runNow_prior (fetching source) ready.orderly ready.valid
  have unfinished : ∀ row ∈ w.store.runs, row.runId = unit.runId → row.status ≠ .succeeded :=
    fun row member ofRun succeeded => pending (ready.done_iff.mpr ⟨row, member, ofRun, succeeded⟩)
  have sound₁ : Sound c w₁.store := ran₁.store_eq ▸ ready.sound
  obtain ⟨row, w₂, ofRun, opens⟩ := (ready.startable.ran ran₁).opens source orderly₁ sound₁
    ready.valid (ran₁.store_eq ▸ unfinished)
  have valid : isRunId row.runId = true := ofRun ▸ ready.valid
  obtain ⟨message, now, w₃, ingested, ran₃⟩ := runNow_ingest_refused opens.begun opens.fresh valid
    opens.sound.seeded opens.sound.unique opens.member opens.started opens.bound opens.unused rejected
  have completed : row.commitCompleted = false := by
    rw [opens.sound.completed row opens.member, opens.started]
    rfl
  have failing : RunRow.canFail row.runId row = true := by
    simp [RunRow.canFail, opens.started, completed]
  let p : FailureParameters := ⟨row.runId, e.error.name, message, none⟩
  have tables : w₃.store = updateRuns w₂.store (RunRow.canFail p.runId) (RunRow.fail p now) :=
    ran₃.store_eq
  have replaces : Replaces w₂.store.runs w₃.store.runs row (row.fail p now) := by
    rw [tables]
    exact failure_replaces opens.sound.unique now (runRows_eq opens.sound.unique opens.member)
      failing
  have atRow : runRows w₃.store unit.runId = [row.fail p now] := by
    rw [← ofRun]
    exact runRows_eq (replaces.unique opens.sound.unique) replaces.member'
  have left : Rejected e unit.runId w.store w₃.store := by
    have control : w₂.store.control = w₁.store.control := by
      rw [opens.sound.seeded.control, sound₁.seeded.control]
    have rejected' := rejected_of_begun opens.member opens.started opens.others opens.sound.unique
      control opens.contents opens.transitions completed e now message
    rw [← ran₁.store_eq, ← ofRun, ran₃.store_eq]
    exact rejected'
  rw [ofRun] at ingested
  obtain ⟨w', ran₄, ran⟩ := runNow_executeUnit_error ready.requested ready.valid read ingested
    ran₃.fresh atRow
  have orderly' : Orderly (runNow (fetching source) (executeUnit today unit) w).2 :=
    runNow_orderly (fetching source) ready.orderly executeUnit_safe
  rw [ran] at orderly'
  exact ⟨w', ran, orderly', ran₄.store_eq ▸ left, row.fail p now,
    ran₄.store_eq ▸ replaces.member', ofRun, opens.bound, rfl⟩

/-- The error of a run that has failed before. -/
def failedBefore (runId : String) : Exn :=
  .new .warehouseError ("run " ++ runId ++ " failed; use a new run ID for a new attempt")

variable (source) in
/-- **A unit that has failed stays failed**: no later call of its run revives it. -/
theorem runNow_executeUnit_failed (orderly : Orderly w) (requested : unit.request today = .ok request)
    (failed : FailedRun w unit.runId request.requestId) :
    ∃ w', runNow (fetching source) (executeUnit today unit) w =
        (.error (ingestFailed unit (failedBefore unit.runId) (.found .failed)), w') ∧
      w'.store = w.store := by
  obtain ⟨row, member, ofRun, bound, status⟩ := failed
  have valid : isRunId unit.runId = true := ofRun ▸ orderly.good.valid member
  obtain ⟨prior, w₁, _, ran₁, orderly₁, read⟩ := runNow_prior (fetching source) orderly valid
  have member₁ : row ∈ w₁.store.runs := ran₁.store_eq ▸ member
  have atRow := runRows_eq orderly₁.good.unique member₁
  obtain ⟨w₂, begun, ran₂⟩ := runNow_begin_again (fetching source) orderly₁ member₁ bound
  obtain ⟨w₃, ran₃, reread⟩ := runNow_getRun_some (fetching source) ran₂.fresh
    (orderly₁.good.valid member₁) (ran₂.store_eq ▸ atRow)
  have reconciled : runNow (fetching source) (reconcile row.runId) w₂ =
      (.error (failedBefore row.runId), w₃) := by
    rw [runNow, reconcile, Program.runIn_bind_ok _ reread]
    simp only [status]
    rfl
  have ingested : runNow (fetching source) (ingest request row.runId) w₁ =
      (.error (failedBefore row.runId), w₃) := by
    rw [runNow, ingest, Program.runIn_bind_ok _ begun]
    exact Program.runIn_bind_error _ reconciled
  have store₃ : w₃.store = w₁.store := ran₃.store_eq.trans ran₂.store_eq
  rw [ofRun] at ingested atRow
  obtain ⟨w', ran₄, ran⟩ := runNow_executeUnit_error requested valid read ingested ran₃.fresh
    (store₃ ▸ atRow)
  refine ⟨w', ?_, ran₄.store_eq.trans (store₃.trans ran₁.store_eq)⟩
  rw [ran, status]

end Unit

end PowerMarket
