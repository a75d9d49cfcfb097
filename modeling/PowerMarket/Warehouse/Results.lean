import PowerMarket.Warehouse.Clients
import PowerMarket.Warehouse.Recovery
import PowerMarket.Warehouse.Manifests

/-!
# What the programs return

A program of the client that returns a manifest returns that of a run that has succeeded, and a
unit returns the counts of that manifest (`executeUnit_result`).
-/

set_option autoImplicit false

namespace PowerMarket

open Library JobService

variable [Platform]

/-- The manifest of a run that has succeeded. -/
structure Succeeded (w : Cloud) (runId : String) (row : RunRow) : Prop where
  member : row ∈ w.store.runs
  ofRun : row.runId = runId
  status : row.status = .succeeded

omit [Platform] in
theorem Succeeded.mono {w w' : Cloud} {runId : String} {row : RunRow}
    (succeeded : Succeeded w runId row) (future : Future w w') : Succeeded w' runId row :=
  ⟨future.before.final succeeded.member (.inl succeeded.status), succeeded.ofRun, succeeded.status⟩

theorem ManifestRead.succeeded {base : Database} {w : Cloud} {runId : String} {row : RunRow}
    (read : ManifestRead base w runId (some row)) (status : row.status = .succeeded) :
    Succeeded w runId row :=
  ⟨read.final (.inl status), (read.past row rfl).1, status⟩

/-- A program that returns nothing but manifests of runs that have succeeded. -/
abbrev ReturnsSucceeded (runId : String) (program : Client RunRow) (w : Cloud) : Prop :=
  protocol.Safe (fun _ _ => True) (fun result v => ∀ row, result = .ok row →
    Succeeded v runId row) program w

theorem getRun_reads {runId : String} {w : Cloud} :
    protocol.Safe (fun _ _ => True) (fun result v => ∀ found, result = .ok found →
      ManifestRead w.store v runId found) (getRun runId) w :=
  getRun_safe passive_any fun _ _ _ => trivial

theorem finalize_result {runId : String} {product : Product} {ended : UtcTime} {usage : Usage}
    {w : Cloud} : ReturnsSucceeded runId (finalize runId product ended usage) w := by
  unfold finalize
  refine .bind (.unrestricted _) (fun _ v _ _ _ => ?_) (fun _ _ _ _ impossible => by cases impossible)
  refine .bind getRun_reads (fun found v _ _ read => ?_) (fun _ _ _ _ impossible => by cases impossible)
  cases found with
  | none => exact .done fun _ _ _ _ impossible => by cases impossible
  | some row =>
      simp only
      split_ifs with unfinished
      · exact .done fun _ _ _ _ impossible => by cases impossible
      · refine .done fun v' later _ row' same => ?_
        cases same
        exact ((read _ rfl).succeeded (not_not.mp unfinished)).mono later

/-- A program that finds nothing or the manifest of a run that has succeeded. -/
abbrev FindsSucceeded (runId : String) (program : Client (Option RunRow)) (w : Cloud) : Prop :=
  protocol.Safe (fun _ _ => True) (fun result v => ∀ row, result = .ok (some row) →
    Succeeded v runId row) program w

theorem settleFailure_result {runId : String} {job : JobId String} {cause : Exn} {w : Cloud} :
    protocol.Safe (fun _ _ => True) (fun result _ => ∀ found, result ≠ .ok found)
      (settleFailure runId job cause) w := by
  unfold settleFailure
  refine .bind (.unrestricted _) (fun view _ _ _ _ => ?_) (fun _ _ _ _ impossible => by cases impossible)
  split_ifs
  · exact .bind (.unrestricted _) (fun _ _ _ _ _ => .done fun _ _ _ _ impossible => by cases impossible)
      (fun _ _ _ _ impossible => by cases impossible)
  · exact .done fun _ _ _ _ impossible => by cases impossible

theorem followJob_result {runId : String} {product : Product} {job : JobId String} {w : Cloud} :
    FindsSucceeded runId (followJob runId product job) w := by
  unfold followJob
  refine .sequence (.unrestricted _) fun result v _ _ _ => ?_
  cases result with
  | error e =>
      exact settleFailure_result.weaken (fun _ _ _ _ => trivial)
        fun _ _ _ _ never row same => absurd same (never (some row))
  | ok view =>
      cases reported : view.ended with
      | none =>
          simp only [reported]
          exact .done fun _ _ _ _ impossible => by cases impossible
      | some ended =>
          simp only [reported]
          refine .bind finalize_result (fun row _ _ _ returned => ?_)
            (fun _ _ _ _ impossible => by cases impossible)
          refine .done fun _ later _ row' same => ?_
          cases same
          exact (returned row rfl).mono later

/-- **Reconciling a run** returns nothing or its manifest, which says that it succeeded. -/
theorem reconcile_result {runId : String} {w : Cloud} :
    FindsSucceeded runId (reconcile runId) w := by
  unfold reconcile
  refine .bind getRun_reads (fun found v _ _ read => ?_) (fun _ _ _ _ impossible => by cases impossible)
  have follow : ∀ (product : Product) (rest : Option (JobId String) → Client (Option RunRow)),
      (∀ u, FindsSucceeded runId (rest none) u) →
      (∀ job, rest (some job) = followJob runId product job) →
      FindsSucceeded runId (commitJob runId >>= rest) v := by
    intro product rest missing follows
    refine .bind (.unrestricted _) (fun job u _ _ _ => ?_)
      (fun _ _ _ _ impossible => by cases impossible)
    cases job with
    | none => exact missing u
    | some job =>
        rw [follows]
        exact followJob_result
  cases found with
  | none => exact .done fun _ _ _ _ impossible => by cases impossible
  | some row =>
      cases status : row.status with
      | succeeded =>
          simp only [status]
          refine .done fun _ later _ row' same => ?_
          cases same
          exact ((read _ rfl).succeeded status).mono later
      | failed =>
          simp only [status]
          exact .done fun _ _ _ _ impossible => by cases impossible
      | started | committed =>
          simp only [status]
          exact follow row.product _ (fun _ => .done fun _ _ _ _ impossible => by cases impossible)
            fun _ => rfl

theorem submitPlan_result {product : Product} {runId : String} {plan : WritePlan} {w : Cloud} :
    ReturnsSucceeded runId (submitPlan product runId plan) w := by
  unfold submitPlan
  refine .bind (.unrestricted _) (fun _ _ _ _ _ => ?_) (fun _ _ _ _ impossible => by cases impossible)
  refine .bind reconcile_result (fun found _ _ _ found_ => ?_)
    (fun _ _ _ _ impossible => by cases impossible)
  cases found with
  | none => exact .done fun _ _ _ _ impossible => by cases impossible
  | some row =>
      refine .done fun _ later _ row' same => ?_
      cases same
      exact (found_ row rfl).mono later

/-- **Persisting records** returns the manifest of a run that succeeded. -/
theorem persist_result {request : Request} {records : List Observation} {runId : String}
    {w : Cloud} : ReturnsSucceeded runId (persist request records runId) w := by
  unfold persist
  refine .bind (.unrestricted _) (fun manifest _ _ _ _ => ?_)
    (fun _ _ _ _ impossible => by cases impossible)
  split_ifs
  · exact .done fun _ _ _ _ impossible => by cases impossible
  · refine .bind reconcile_result (fun prior _ _ _ found => ?_)
      (fun _ _ _ _ impossible => by cases impossible)
    cases prior with
    | some row =>
        refine .done fun _ later _ row' same => ?_
        cases same
        exact (found row rfl).mono later
    | none =>
        exact .bind (.unrestricted _) (fun _ _ _ _ _ => submitPlan_result)
          (fun _ _ _ _ impossible => by cases impossible)

/-- **Ingesting a request** returns the manifest of a run that succeeded. -/
theorem ingest_result {request : Request} {runId : String} {w : Cloud} :
    ReturnsSucceeded runId (ingest request runId) w := by
  unfold ingest
  refine .bind (.unrestricted _) (fun _ _ _ _ _ => ?_) (fun _ _ _ _ impossible => by cases impossible)
  refine .bind reconcile_result (fun prior _ _ _ found => ?_)
    (fun _ _ _ _ impossible => by cases impossible)
  cases prior with
  | some row =>
      refine .done fun _ later _ row' same => ?_
      cases same
      exact (found row rfl).mono later
  | none =>
      refine .sequence (.unrestricted _) fun result _ _ _ _ => ?_
      cases result with
      | ok records => exact persist_result
      | error e =>
          exact .bind (.unrestricted _)
            (fun _ _ _ _ _ => .done fun _ _ _ _ impossible => by cases impossible)
            (fun _ _ _ _ impossible => by cases impossible)

/-! ## Units -/

/-- What a unit reports of the manifest of its run. -/
structure Reports (row : RunRow) (result : IngestionResult) : Prop where
  accepted : row.rowsAccepted = some result.acceptedRows
  counts : if result.reusedSuccess then result.newContents = 0 ∧ result.newTransitions = 0
    else row.newContents = some result.newContents ∧
      row.newTransitions = some result.newTransitions

/-- What is known of the end of a unit that was launched on the tables of `base`. -/
structure UnitEnded (today : Date) (unit : IngestionUnit) (base : Database)
    (result : Except Exn IngestionResult) (w : Cloud) : Prop where
  returned : ∀ r, result = .ok r → r.unit = unit ∧ r.status = .succeeded ∧
    (∃ row, Succeeded w unit.runId row ∧ Reports row r) ∧
    (r.reusedSuccess = false →
      ∀ row ∈ base.runs, row.runId = unit.runId → row.status ≠ .succeeded)
  raised : ∀ e, result = .error e → e.causes = [] →
    unit.request today = .error e ∨ validateRunId unit.runId = .error e

omit [Platform] in
theorem UnitEnded.mono {today : Date} {unit : IngestionUnit} {base : Database}
    {result : Except Exn IngestionResult} {w w' : Cloud} (ended : UnitEnded today unit base result w)
    (future : Future w w') : UnitEnded today unit base result w' := by
  refine ⟨fun r same => ?_, ended.raised⟩
  obtain ⟨ofUnit, done, ⟨row, succeeded, reports⟩, fresh⟩ := ended.returned r same
  exact ⟨ofUnit, done, ⟨row, succeeded.mono future, reports⟩, fresh⟩

omit [Platform] in
/-- The result of a unit whose manifest has its counts. -/
theorem resultOf_ok (unit : IngestionUnit) (prior : Option RunRow) {row : RunRow}
    (counted : Counted row) : ∃ result, resultOf unit prior row = .ok result ∧
      result.unit = unit ∧ result.status = .succeeded ∧
      result.reusedSuccess = decide (prior.map (·.status) = some .succeeded) ∧
      Reports row result := by
  obtain ⟨⟨accepted, rowsAccepted⟩, ⟨contents, newContents⟩, transitions, newTransitions⟩ := counted
  by_cases reused : prior.map (·.status) = some .succeeded
  · refine ⟨⟨unit, .succeeded, accepted, 0, 0, true⟩, ?_, rfl, rfl, (decide_eq_true reused).symm,
      rowsAccepted, rfl, rfl⟩
    simp [resultOf, rowsAccepted, countOf, reused, bind, Except.bind, pure, Except.pure]
  · refine ⟨⟨unit, .succeeded, accepted, contents, transitions, false⟩, ?_, rfl, rfl,
      (decide_eq_false reused).symm, rowsAccepted, newContents, newTransitions⟩
    simp [resultOf, rowsAccepted, newContents, newTransitions, countOf, reused, bind, Except.bind,
      pure, Except.pure]

/-- What a unit does with its ingestion. -/
def unitRest (unit : IngestionUnit) (prior : Option RunRow) (ingestion : Client RunRow) :
    Client IngestionResult := do
  let manifest ← tryCatch ingestion fun e => do
    let state ← manifestState unit.runId
    throw (ingestFailed unit e state)
  if manifest.status ≠ .succeeded then
    throw (.new .warehouseError (unit.label ++ ": ingestion did not finalize SUCCEEDED"))
  else Program.ofExcept (resultOf unit prior manifest)

/-- A unit with a valid request and run id. -/
theorem executeUnit_eq {today : Date} {unit : IngestionUnit} {request : Request}
    (requested : unit.request today = .ok request) (valid : isRunId unit.runId = true) :
    executeUnit today unit = (do
      let prior ← tryCatch (getRun unit.runId) fun e => throw (readFailed unit e)
      unitRest unit prior (ingest request unit.runId)) := by
  rw [executeUnit, requested, validateRunId_ok valid]
  rfl

omit [Platform] in
theorem ingestFailed_causes (unit : IngestionUnit) (e : Exn) (state : ManifestState) :
    (ingestFailed unit e state).causes ≠ [] := by
  unfold ingestFailed
  split_ifs <;> simp [Exn.newFrom]

omit [Platform] in
theorem readFailed_causes (unit : IngestionUnit) (e : Exn) : (readFailed unit e).causes ≠ [] := by
  unfold readFailed
  split_ifs <;> simp [Exn.newFrom]

theorem manifestState_result {runId : String} {w : Cloud} :
    protocol.Safe (fun _ _ => True) (fun result _ => ∃ state, result = .ok state)
      (manifestState runId) w := by
  refine .sequence (.unrestricted _) fun result _ _ _ _ => ?_
  rcases result with e | _ | row
  · exact .done fun _ _ _ => ⟨_, rfl⟩
  · exact .done fun _ _ _ => ⟨_, rfl⟩
  · exact .done fun _ _ _ => ⟨_, rfl⟩

/-- What a unit does with an ingestion that returns manifests of runs that have succeeded. -/
theorem unitRest_result {today : Date} {unit : IngestionUnit} {prior : Option RunRow}
    {ingestion : Client RunRow} {base : Database} {w : Cloud}
    (read : ∀ row ∈ base.runs, row.runId = unit.runId → row.status = .succeeded →
      prior.map (·.status) = some .succeeded)
    (ingests : ReturnsSucceeded unit.runId ingestion w) :
    protocol.Safe (fun _ _ => True) (UnitEnded today unit base) (unitRest unit prior ingestion)
      w := by
  have caused : ∀ {e : Exn} {v : Cloud}, e.causes ≠ [] →
      UnitEnded today unit base (.error e) v := by
    intro e v caused
    exact ⟨fun _ impossible => (by cases impossible), fun e' same uncaused =>
      absurd uncaused (by cases same; exact caused)⟩
  have block : protocol.Safe (fun _ _ => True) (fun result v =>
      (∀ row, result = .ok row → Succeeded v unit.runId row) ∧
        ∀ e, result = .error e → e.causes ≠ [])
      (tryCatchThe Exn ingestion fun e => do
        let state ← manifestState unit.runId
        throw (ingestFailed unit e state)) w := by
    refine .tryCatch ingests (fun row v _ _ returned v' later _ => ?_) (fun e v _ _ _ => ?_)
    · exact ⟨fun row' same => (returned row' same).mono later,
        fun _ impossible => by cases impossible⟩
    · refine .sequence manifestState_result fun result v' _ _ ⟨state, same⟩ => ?_
      subst same
      refine .done fun _ _ _ => ⟨fun _ impossible => (by cases impossible), fun e' same => ?_⟩
      cases same
      exact ingestFailed_causes unit e state
  refine .sequence block fun result v _ orderly ⟨returned, raised⟩ => ?_
  cases result with
  | error e => exact .done fun _ _ _ => caused (raised e rfl)
  | ok row =>
      have succeeded := returned row rfl
      have status := succeeded.status
      simp only [Program.afterValue_ok, status, ne_eq, not_true_eq_false, ↓reduceIte]
      obtain ⟨r, same, ofUnit, done, reused, reports⟩ := resultOf_ok unit prior
        (orderly.good.counted succeeded.member (by rw [status]; rfl))
      rw [same]
      refine .done fun v' later _ => ⟨fun r' same => ?_, fun _ impossible => by cases impossible⟩
      cases same
      refine ⟨ofUnit, done, ⟨row, succeeded.mono later, reports⟩,
        fun fresh row member ofRun status => ?_⟩
      rw [reused, read row member ofRun status] at fresh
      cases fresh

/-- **Executing a unit** reports the manifest of a run that has succeeded. -/
theorem executeUnit_result {today : Date} {unit : IngestionUnit} {w : Cloud} :
    protocol.Safe (fun _ _ => True) (UnitEnded today unit w.store) (executeUnit today unit) w := by
  have refused : ∀ {e : Exn} {v : Cloud}, (e.causes = [] → unit.request today = .error e ∨
      validateRunId unit.runId = .error e) → UnitEnded today unit w.store (.error e) v := by
    intro e v classified
    exact ⟨fun _ impossible => (by cases impossible), fun e' same uncaused =>
      by cases same; exact classified uncaused⟩
  cases requested : unit.request today with
  | error e =>
      rw [executeUnit, requested]
      exact .done fun _ _ _ => refused fun _ => .inl requested
  | ok request =>
      by_cases valid : isRunId unit.runId = true
      · rw [executeUnit_eq requested valid]
        have reads : protocol.Safe (fun _ _ => True) (fun result v =>
            (∀ found, result = .ok found → ManifestRead w.store v unit.runId found) ∧
              ∀ e, result = .error e → e.causes ≠ [])
            (tryCatchThe Exn (getRun unit.runId) fun e => throw (readFailed unit e)) w := by
          refine .tryCatch getRun_reads (fun found v _ _ read v' later _ => ?_) (fun e _ _ _ _ => ?_)
          · exact ⟨fun found' same => (read found' same).mono later,
              fun _ impossible => by cases impossible⟩
          · refine .done fun _ _ _ => ⟨fun _ impossible => (by cases impossible), fun e' same => ?_⟩
            cases same
            exact readFailed_causes unit e
        refine .sequence reads fun result v toV _ ⟨read, raised⟩ => ?_
        cases result with
        | error e => exact .done fun _ _ _ => refused fun uncaused => absurd uncaused (raised e rfl)
        | ok prior =>
            refine unitRest_result (fun row member ofRun status => ?_) ingest_result
            obtain ⟨row', same, progress⟩ := (read prior rfl).later member ofRun
            rw [same, progress.final (.inl status), Option.map_some, status]
      · have rejected : ∃ e, validateRunId unit.runId = .error e := by
          rw [validateRunId, if_neg valid]
          exact ⟨_, rfl⟩
        obtain ⟨e, rejected⟩ := rejected
        rw [executeUnit, requested, rejected]
        exact .done fun _ _ _ => refused fun _ => .inr rejected

end PowerMarket
