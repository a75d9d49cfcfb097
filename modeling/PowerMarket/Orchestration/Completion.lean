import Mathlib.Algebra.GroupWithZero.Nat
import PowerMarket.Orchestration.Units

/-!
# Backfills that are left alone

What the ingestion loop of a backfill does when every call is answered at once and nobody else acts.
It completes exactly when the records of every pending unit pass the checks of a batch. Its report
then counts what was added to the tables, and invoking it again reuses every unit and changes no table.
Otherwise it stops at the first unit whose records a check rejects: the units before it are ingested,
its run has failed, nothing after it was touched, and invoking it again stops there again
(`backfill_alone`).
-/

set_option autoImplicit false

namespace PowerMarket

open Library JobService

variable [Platform]

/-! ## The ingestion loop -/

omit [Platform] in
/-- The error that stops a task for good. -/
def nonRecoverable (message : String) (causes : List Error) : Exn :=
  ⟨⟨.nonRecoverableError, "NonRecoverableError", message⟩, causes⟩

/-- One unit: only a failure that is safe to repeat is passed on as it is. -/
def ingestDay (today : Date) (unit : IngestionUnit) : Client IngestionResult :=
  tryCatch (executeUnit today unit) fun e =>
    if e.error.kind = .retryableIngestionError then throw e
    else throw (nonRecoverable e.error.message e.chain)

/-- The task of one unit: it is repeated once, unless its failure stops it for good. -/
def ingestDayTask (today : Date) (unit : IngestionUnit) : Client IngestionResult :=
  tryCatch (ingestDay today unit) fun e =>
    if e.error.kind = .nonRecoverableError then throw e else ingestDay today unit

/-- The tasks of the units, one after another, until one fails. -/
def ingestDays (today : Date) : List IngestionUnit → Client (List IngestionResult)
  | [] => return []
  | unit :: units => do
    let result ← ingestDayTask today unit
    if result.status ≠ .succeeded then
      throw (nonRecoverable (unit.label ++ ": required ingestion failed") [])
    else do
      let results ← ingestDays today units
      return result :: results

/-! ## The report -/

/-- The numbers of a report about the units of a product. -/
structure ProductTotals where
  requests : Nat
  acceptedRows : Nat
  newContents : Nat
  newTransitions : Nat
  reusedSuccesses : Nat

/-- Add up the results of a product. -/
def productTotals (product : Product) (results : List IngestionResult) : ProductTotals :=
  let rows := results.filter (·.unit.product = product.text)
  ⟨rows.length, (rows.map (·.acceptedRows)).sum, (rows.map (·.newContents)).sum,
    (rows.map (·.newTransitions)).sum, rows.countP (·.reusedSuccess)⟩

/-- The line of a product in a report. -/
def ProductTotals.line (product : Product) (totals : ProductTotals) : String :=
  product.text.toUpper ++ ": successful requests=" ++ toString totals.requests ++
    ", failed requests=0, accepted rows=" ++ toString totals.acceptedRows ++
    ", new contents=" ++ toString totals.newContents ++
    ", new transitions=" ++ toString totals.newTransitions ++
    ", reused successes=" ++ toString totals.reusedSuccesses

/-- The report of a backfill, with the status of the build and of its verification. -/
structure BackfillReport where
  backfillId : String
  startDate : String
  endDate : String
  ingestions : List IngestionResult
  dbt : String
  verification : String

/-- The text of a report. -/
def BackfillReport.text (report : BackfillReport) : String :=
  "\n".intercalate (["Backfill " ++ report.backfillId,
    report.startDate ++ " through " ++ report.endDate] ++
    [Product.lmp, Product.load].map (fun product =>
      (productTotals product report.ingestions).line product) ++
    ["dbt: " ++ report.dbt, "verification: " ++ report.verification])

/-! ## The loop -/

section Loop

variable {source : Request → List Observation} {today : Date} {w w₁ w' : Cloud} {c : ControlRow}
  {unit : IngestionUnit} {units rest : List IngestionUnit} {result : IngestionResult}
  {results : List IngestionResult} {before after : Progress String Ledger} {e : Exn}

/-- The error of a unit that is stopped for good. -/
def stopped (unit : IngestionUnit) (e : Exn) : Exn :=
  nonRecoverable (ingestFailed unit e (.found .failed)).error.message
    (ingestFailed unit e (.found .failed)).chain

theorem runNow_task_ok (ran : runNow (fetching source) (executeUnit today unit) w =
    (.ok result, w')) : runNow (fetching source) (ingestDayTask today unit) w = (.ok result, w') :=
  Program.runIn_tryCatch_ok _ (Program.runIn_tryCatch_ok _ ran)

theorem runNow_task_stopped (ran : runNow (fetching source) (executeUnit today unit) w =
    (.error (ingestFailed unit e (.found .failed)), w')) :
    runNow (fetching source) (ingestDayTask today unit) w = (.error (stopped unit e), w') := by
  have final : retryable e (.found .failed) = false := by simp [retryable]
  have kind : (ingestFailed unit e (.found .failed)).error.kind ≠ .retryableIngestionError := by
    simp [ingestFailed, final]
  have once : runNow (fetching source) (ingestDay today unit) w = (.error (stopped unit e), w') := by
    refine (Program.runIn_tryCatch_error _ ran).trans ?_
    rw [if_neg kind]
    rfl
  exact Program.runIn_tryCatch_error _ once

/-- The loop after its first task. -/
theorem runNow_loop_cons (ran : runNow (fetching source) (ingestDayTask today unit) w =
    (.ok result, w₁)) (succeeded : result.status = .succeeded)
    (continued : runNow (fetching source) (ingestDays today units) w₁ = (.ok results, w')) :
    runNow (fetching source) (ingestDays today (unit :: units)) w =
      (.ok (result :: results), w') := by
  rw [runNow, ingestDays, Program.runIn_bind_ok _ ran, if_neg (not_not.mpr succeeded),
    Program.runIn_bind_ok _ continued]
  rfl

theorem runNow_loop_stop (ran : runNow (fetching source) (ingestDayTask today unit) w =
    (.error e, w')) :
    runNow (fetching source) (ingestDays today (unit :: units)) w = (.error e, w') :=
  Program.runIn_bind_error _ ran

/-- The loop whose tasks after the first fail. -/
theorem runNow_loop_error (ran : runNow (fetching source) (ingestDayTask today unit) w =
    (.ok result, w₁)) (succeeded : result.status = .succeeded)
    (failed : runNow (fetching source) (ingestDays today units) w₁ = (.error e, w')) :
    runNow (fetching source) (ingestDays today (unit :: units)) w = (.error e, w') := by
  rw [runNow, ingestDays, Program.runIn_bind_ok _ ran, if_neg (not_not.mpr succeeded)]
  exact Program.runIn_bind_error _ failed

/-! ## Again -/

/-- The result of a unit when it is reused. -/
def IngestionResult.again (result : IngestionResult) : IngestionResult :=
  { result with newContents := 0, newTransitions := 0, reusedSuccess := true }

variable (today) in
/-- A result of a unit whose manifest says so. -/
structure Attests (w : Cloud) (unit : IngestionUnit) (result : IngestionResult) : Prop where
  ofUnit : result.unit = unit
  succeeded : result.status = .succeeded
  manifest : ∀ request, unit.request today = .ok request → ∃ row ∈ w.store.runs,
    row.runId = unit.runId ∧ row.requestId = request.requestId ∧ row.status = .succeeded ∧
      row.rowsAccepted = some result.acceptedRows
  requested : ∃ request, unit.request today = .ok request

theorem Attests.mono (attests : Attests today w unit result)
    (kept : ∀ row ∈ w.store.runs, row.runId = unit.runId → row ∈ w'.store.runs) :
    Attests today w' unit result := by
  refine ⟨attests.ofUnit, attests.succeeded, fun request requested => ?_, attests.requested⟩
  obtain ⟨row, member, ofRun, others⟩ := attests.manifest request requested
  exact ⟨row, kept row member ofRun, ofRun, others⟩

variable (source) in
theorem Attests.again (attests : Attests today w unit result) (orderly : Orderly w) :
    ∃ w', runNow (fetching source) (ingestDayTask today unit) w = (.ok result.again, w') ∧
      w'.store = w.store ∧ Orderly w' := by
  obtain ⟨request, requested⟩ := attests.requested
  obtain ⟨row, member, ofRun, bound, succeeded, accepted⟩ := attests.manifest request requested
  obtain ⟨w', ran, named, orderly'⟩ :=
    runNow_executeUnit_again source orderly requested member ofRun succeeded bound accepted
  have same : result.again = ⟨unit, .succeeded, result.acceptedRows, 0, 0, true⟩ := by
    rw [IngestionResult.again, attests.ofUnit, attests.succeeded]
  exact ⟨w', same ▸ runNow_task_ok ran, named.store_eq, orderly'⟩

/-- A loop that has come to its last units: whatever they return is what the loop returns. -/
structure Continues (source : Request → List Observation) (today : Date)
    (units : List IngestionUnit) (results : List IngestionResult) (w w₁ : Cloud) : Prop where
  ok : ∀ {rest more w'}, runNow (fetching source) (ingestDays today rest) w₁ = (.ok more, w') →
    runNow (fetching source) (ingestDays today (units ++ rest)) w = (.ok (results ++ more), w')
  error : ∀ {rest e w'}, runNow (fetching source) (ingestDays today rest) w₁ = (.error e, w') →
    runNow (fetching source) (ingestDays today (units ++ rest)) w = (.error e, w')

theorem Continues.nil (source : Request → List Observation) (today : Date) (w : Cloud) :
    Continues source today [] [] w w :=
  ⟨fun ran => ran, fun ran => ran⟩

theorem Continues.cons {w₂ : Cloud} (ran : runNow (fetching source) (ingestDayTask today unit) w =
    (.ok result, w₁)) (succeeded : result.status = .succeeded)
    (continued : Continues source today units results w₁ w₂) :
    Continues source today (unit :: units) (result :: results) w w₂ :=
  ⟨fun others => runNow_loop_cons ran succeeded (continued.ok others),
    fun others => runNow_loop_error ran succeeded (continued.error others)⟩

/-- **Units that have succeeded are reused**, and no table changes. -/
theorem runNow_loop_again (attested : List.Forall₂ (Attests today w) units results)
    (orderly : Orderly w) :
    ∃ w', Continues source today units (results.map (·.again)) w w' ∧ w'.store = w.store ∧
      Orderly w' := by
  induction units generalizing w results with
  | nil =>
      cases attested
      exact ⟨w, .nil source today w, rfl, orderly⟩
  | cons unit units ih =>
      cases attested with
      | cons first others =>
          obtain ⟨w₁, ran, store, orderly₁⟩ := first.again source orderly
          obtain ⟨w', continued, store', orderly'⟩ := ih
            (others.imp fun _ _ attests => attests.mono fun row member _ => store ▸ member) orderly₁
          exact ⟨w', .cons ran first.succeeded continued, store'.trans store, orderly'⟩

/-! ## Forward -/

variable (source today) in
/-- The records of the pending units pass the checks of a batch. -/
def PendingAccepted (done : List String) (units : List IngestionUnit) : Prop :=
  ∀ unit ∈ units, unit.runId ∉ done → ∀ request, unit.request today = .ok request →
    ∃ batch, batchRows request (source request) = .ok batch

variable (today) in
/-- The state in which units are executed one after another. -/
structure LoopReady (units : List IngestionUnit) (w : Cloud) (before : Progress String Ledger) :
    Prop where
  orderly : Orderly w
  gate : ∃ c, Sound c w.store ∧ c.activeRunId = none
  describes : Describes before w.store
  ingestible : Ingestible today units w
  distinct : units.Pairwise fun a b => a.runId ≠ b.runId

theorem LoopReady.first (ready : LoopReady today (unit :: units) w before) :
    ∃ c request, UnitReady c w today unit request before := by
  obtain ⟨c, sound, free⟩ := ready.gate
  obtain ⟨request, requested, valid, startable⟩ :=
    ready.ingestible.startable unit List.mem_cons_self
  exact ⟨c, request, ready.orderly, sound, free, ready.describes, requested, valid, startable⟩

/-- **After the first unit** the others are ready. -/
theorem LoopReady.next (ready : LoopReady today (unit :: units) w before) {request : Request}
    (requested : unit.request today = .ok request)
    (executed : UnitExecuted source today unit request w w₁ before after result) :
    LoopReady today units w₁ after := by
  have orderly' := executed.orderly
  obtain ⟨c, sound, free⟩ := ready.gate
  have gate := executed.ingests.free ready.orderly orderly' (sound.seeded.gate.trans free)
  obtain ⟨row, member, _⟩ := executed.ingests.final
  obtain ⟨c', sound'⟩ := orderly'.good.sound member
  refine ⟨orderly', ⟨c', sound', sound'.seeded.gate.symm.trans gate⟩,
    executed.ingests.describes ready.describes fun id => Resumable.mem_one_ids executed.worked, ?_,
    (List.pairwise_cons.mp ready.distinct).2⟩
  obtain ⟨_, _, valid, _⟩ := ready.ingestible.startable unit List.mem_cons_self
  refine ⟨fun other inRest => ?_, fun u inRest v inRest' =>
    ready.ingestible.bound u (List.mem_cons_of_mem _ inRest) v (List.mem_cons_of_mem _ inRest')⟩
  obtain ⟨request', requested', valid', startable'⟩ :=
    ready.ingestible.startable other (List.mem_cons_of_mem _ inRest)
  exact ⟨request', requested', valid', executed.ingests.startable valid valid' startable' fun same =>
    ready.ingestible.bound unit List.mem_cons_self other (List.mem_cons_of_mem _ inRest) same _ _
      requested requested'⟩

variable (source today) in
/-- What a unit of a loop reports. -/
structure ReportsUnit (done : List String) (w : Cloud) (unit : IngestionUnit)
    (result : IngestionResult) : Prop where
  attests : Attests today w unit result
  reused : result.reusedSuccess = true ↔ unit.runId ∈ done
  fresh : unit.runId ∉ done → ∀ request, unit.request today = .ok request →
    result.acceptedRows = (source request).length

variable (source today) in
/-- What a loop over units has done. -/
structure LoopDone (units : List IngestionUnit) (w w' : Cloud)
    (before after : Progress String Ledger) (results : List IngestionResult) : Prop where
  continues : Continues source today units results w w'
  worked : Resumable.all (·.runId) (acceptUnit source today) units before = .ok after
  reports : List.Forall₂ (ReportsUnit source today before.ids w') units results
  contents : ∀ product, (w'.store.contents product).length =
    (w.store.contents product).length + (productTotals product results).newContents
  transitions : ∀ product, (w'.store.transitions product).length =
    (w.store.transitions product).length + (productTotals product results).newTransitions
  others : ∀ row, (∀ unit ∈ units, row.runId ≠ unit.runId) →
    (row ∈ w'.store.runs ↔ row ∈ w.store.runs)

omit [Platform] in
/-- A result counts for the product of its unit. -/
theorem productTotals_cons {request : Request} (ofUnit : result.unit = unit)
    (requested : unit.request today = .ok request) (product : Product) :
    (productTotals product (result :: results)).newContents =
        (if product = request.product then result.newContents else 0) +
          (productTotals product results).newContents ∧
      (productTotals product (result :: results)).newTransitions =
        (if product = request.product then result.newTransitions else 0) +
          (productTotals product results).newTransitions := by
  have text : result.unit.product = request.product.text := by
    rw [ofUnit, (Shows.of_request requested).product]
  have same : result.unit.product = product.text ↔ product = request.product := by
    rw [text]
    constructor
    · intro texts
      cases product <;> cases ofProduct : request.product <;> simp_all [Product.text]
    · rintro rfl
      rfl
  by_cases ofProduct : product = request.product
  · have counted : decide (result.unit.product = product.text) = true :=
      decide_eq_true (same.mpr ofProduct)
    simp only [productTotals, List.filter_cons, counted, if_pos ofProduct, ↓reduceIte, List.map_cons,
      List.sum_cons, and_self]
  · have other : decide (result.unit.product = product.text) = false :=
      decide_eq_false fun texts => ofProduct (same.mp texts)
    simp only [productTotals, List.filter_cons, other, if_neg ofProduct, Bool.false_eq_true,
      ↓reduceIte, zero_add, and_self]

omit [Platform] in
/-- A report counts the units of a product, and those of them that were done before. -/
theorem productTotals_units {done : List String}
    (reports : List.Forall₂ (fun (unit : IngestionUnit) (result : IngestionResult) =>
      result.unit = unit ∧ (result.reusedSuccess = true ↔ unit.runId ∈ done)) units results)
    (product : Product) :
    (productTotals product results).requests = units.countP (·.product = product.text) ∧
      (productTotals product results).reusedSuccesses +
        (units.filter (·.runId ∉ done)).countP (·.product = product.text) =
          units.countP (·.product = product.text) := by
  induction reports with
  | nil => exact ⟨rfl, rfl⟩
  | @cons unit result units results first others ih =>
      obtain ⟨rfl, reused⟩ := first
      obtain ⟨requests, successes⟩ := ih
      simp only [productTotals, decide_not] at requests successes ⊢
      by_cases ofProduct : result.unit.product = product.text
      · by_cases isDone : result.unit.runId ∈ done
        · have isReused := reused.mpr isDone
          simp [ofProduct, isDone, isReused, requests]
          omega
        · have notReused : result.reusedSuccess = false :=
            Bool.eq_false_of_not_eq_true fun isReused => isDone (reused.mp isReused)
          simp [ofProduct, isDone, notReused, requests]
          omega
      · by_cases isDone : result.unit.runId ∈ done
        all_goals simp [ofProduct, isDone, requests, successes]

/-- **Units whose pending records are accepted** are executed one after another. -/
theorem LoopReady.run (noCollisions : NoCollisions)
    (ready : LoopReady today (units ++ rest) w before)
    (accepted : PendingAccepted source today before.ids units) :
    ∃ results w' after, LoopDone source today units w w' before after results ∧
      LoopReady today rest w' after := by
  induction units generalizing w before with
  | nil =>
      exact ⟨[], w, before, ⟨.nil source today w, rfl, .nil, fun _ => rfl, fun _ => rfl,
        fun _ _ => Iff.rfl⟩, ready⟩
  | cons unit units ih =>
      obtain ⟨c, request, first⟩ := ready.first
      obtain ⟨w₁, middle, result, executed⟩ : ∃ w₁ middle result,
          UnitExecuted source today unit request w w₁ before middle result := by
        by_cases done : unit.runId ∈ before.ids
        · obtain ⟨w₁, result, executed⟩ := first.reuse noCollisions done
          exact ⟨w₁, before, result, executed⟩
        · obtain ⟨batch, batched⟩ :=
            accepted unit List.mem_cons_self done request first.requested
          exact first.accept noCollisions done batched
      have different := (List.pairwise_cons.mp ready.distinct).1
      have ids : ∀ other ∈ units, other.runId ∈ middle.ids ↔ other.runId ∈ before.ids := by
        intro other inRest
        rw [Resumable.mem_one_ids executed.worked]
        refine or_iff_right fun same => ?_
        exact different other (List.mem_append_left _ inRest) same.symm
      obtain ⟨results, w', after, loop, last⟩ := ih (ready.next first.requested executed)
        fun other inRest pending =>
          accepted other (List.mem_cons_of_mem _ inRest)
            fun done => pending ((ids other inRest).mpr done)
      -- The manifest of the first unit is not touched by the others.
      have attests : Attests today w' unit result := by
        refine ⟨executed.ofUnit, executed.succeeded, fun request' requested' => ?_,
          ⟨request, first.requested⟩⟩
        obtain rfl : request' = request :=
          Except.ok.inj (requested'.symm.trans first.requested)
        obtain ⟨row, member, ofRun, others⟩ := executed.manifest
        refine ⟨row, (loop.others row fun other inRest same => ?_).mpr member, ofRun, others⟩
        exact different other (List.mem_append_left _ inRest) (ofRun.symm.trans same)
      refine ⟨result :: results, w', after, ⟨?_, ?_, ?_, fun product => ?_, fun product => ?_,
        fun row apart => ?_⟩, last⟩
      · exact .cons (runNow_task_ok executed.ran) executed.succeeded loop.continues
      · exact Resumable.all_cons.mpr ⟨middle, executed.worked, loop.worked⟩
      · have fresh : unit.runId ∉ before.ids → ∀ request', unit.request today = .ok request' →
            result.acceptedRows = (source request').length := by
          intro pending request' requested'
          rw [Except.ok.inj (requested'.symm.trans first.requested)]
          exact executed.fresh pending
        have reports := (List.forall₂_and_left units results).mpr ⟨ids, loop.reports⟩
        exact .cons ⟨attests, executed.reused, fresh⟩ (reports.imp fun _ _ both =>
          ⟨both.2.attests, both.2.reused.trans both.1,
            fun pending => both.2.fresh fun done => pending (both.1.mp done)⟩)
      · rw [loop.contents, executed.grown.contents,
          (productTotals_cons executed.ofUnit first.requested product).1, add_assoc]
      · rw [loop.transitions, executed.grown.transitions,
          (productTotals_cons executed.ofUnit first.requested product).2, add_assoc]
      · rw [loop.others row fun other inRest => apart other (List.mem_cons_of_mem _ inRest),
          executed.ingests.others row (apart unit List.mem_cons_self)]

/-! ## A backfill alone -/

variable (source today) in
/-- **What a loop has done that completed**: one result for each unit, in their order. Pending units
were ingested and the others reused, and the results add up to the rows that were added to the
tables. The facts show the records of the pending units put into those from before. Executing the
units again reuses all of them and changes no table. -/
structure LoopCompleted (units : List IngestionUnit) (w w' : Cloud)
    (results : List IngestionResult) : Prop where
  ran : runNow (fetching source) (ingestDays today units) w = (.ok results, w')
  ofUnits : results.map (·.unit) = units
  succeeded : ∀ unit ∈ units, ∃ row ∈ w'.store.runs,
    row.runId = unit.runId ∧ row.status = .succeeded
  free : w'.store.gate = none
  reused : ∀ result ∈ results,
    result.reusedSuccess = true ↔ result.unit ∉ pendingUnits w.store units
  accepted : ∀ result ∈ results, result.unit ∈ pendingUnits w.store units → ∀ request,
    result.unit.request today = .ok request → result.acceptedRows = (source request).length
  contents : ∀ product, (w'.store.contents product).length =
    (w.store.contents product).length + (productTotals product results).newContents
  transitions : ∀ product, (w'.store.transitions product).length =
    (w.store.transitions product).length + (productTotals product results).newTransitions
  requests : ∀ product, (productTotals product results).requests =
    units.countP (·.product = product.text)
  reusedSuccesses : ∀ product, (productTotals product results).reusedSuccesses +
    (pendingUnits w.store units).countP (·.product = product.text) =
      (productTotals product results).requests
  facts : ∀ product rows rows', CurrentFacts product w.store rows →
    CurrentFacts product w'.store rows' → shown (·.logicalKey) (·.contentHash) rows' =
      (pendingUnits w.store units).foldl
        (fun store unit => putAll store (unit.puts source today product))
        (shown (·.logicalKey) (·.contentHash) rows)
  again : ∃ w'', runNow (fetching source) (ingestDays today units) w' =
    (.ok (results.map (·.again)), w'') ∧ w''.store = w'.store

variable (source today) in
/-- **What a loop has done that stopped** at a unit whose records a check rejects: the units before
it were executed, its run has failed with the error of the check, and no other manifest and no table
was changed. Executing the units again stops there again and changes no table. -/
structure LoopStopped (done : List IngestionUnit) (unit : IngestionUnit)
    (rest : List IngestionUnit) (e : Exn) (w w' : Cloud) : Prop where
  ran : runNow (fetching source) (ingestDays today (done ++ unit :: rest)) w =
    (.error (stopped unit e), w')
  before : ∃ results w₁, LoopCompleted source today done w w₁ results ∧
    Rejected e unit.runId w₁.store w'.store
  again : ∃ w'', runNow (fetching source) (ingestDays today (done ++ unit :: rest)) w' =
    (.error (stopped unit (failedBefore unit.runId)), w'') ∧ w''.store = w'.store

theorem mem_pendingUnits {db : Database} (good : Good db) (free : db.gate = none) :
    unit ∈ pendingUnits db units ↔ unit ∈ units ∧ unit.runId ∉ db.progress.ids := by
  rw [← pendingUnits_eq good free, List.mem_filter, decide_eq_true_iff]

variable {uuid5 : String → String → String} {spec : Backfill}

/-- A loop over a first part of the plan has completed. -/
theorem LoopDone.completed (noCollisions : NoCollisions) (injective : UuidInjective uuid5)
    (planned : expand uuid5 today spec = .ok (units ++ rest))
    (ready : LoopReady today (units ++ rest) w w.store.progress)
    (done : LoopDone source today units w w' w.store.progress after results)
    (last : LoopReady today rest w' after) : LoopCompleted source today units w w' results := by
  obtain ⟨c, sound, free⟩ := ready.gate
  obtain ⟨c', sound', free'⟩ := last.gate
  have good := ready.orderly.good
  have gate : w.store.gate = none := sound.seeded.gate.trans free
  have pending := fun {unit : IngestionUnit} =>
    @mem_pendingUnits _ unit units w.store good gate
  have member : ∀ result ∈ results, ∃ unit ∈ units,
      ReportsUnit source today w.store.progress.ids w' unit result :=
    fun result inResults => forall₂_right done.reports inResults
  have counted := done.reports.imp fun unit result reports =>
    (⟨reports.attests.ofUnit, reports.reused⟩ : result.unit = unit ∧
      (result.reusedSuccess = true ↔ unit.runId ∈ w.store.progress.ids))
  constructor
  case ran =>
    have ran : runNow (fetching source) (ingestDays today (units ++ [])) w =
        (.ok (results ++ []), w') := done.continues.ok rfl
    rwa [List.append_nil, List.append_nil] at ran
  case ofUnits =>
    have same : List.Forall₂ (· = ·) units (results.map (·.unit)) :=
      List.forall₂_map_right_iff.mpr (done.reports.imp fun _ _ reports => reports.attests.ofUnit.symm)
    rw [List.forall₂_eq_eq_eq] at same
    exact same.symm
  case succeeded =>
    intro unit inUnits
    obtain ⟨result, _, reports⟩ := forall₂_left done.reports inUnits
    obtain ⟨request, requested⟩ := reports.attests.requested
    obtain ⟨row, inRuns, ofRun, _, succeeded, _⟩ := reports.attests.manifest request requested
    exact ⟨row, inRuns, ofRun, succeeded⟩
  case free => exact sound'.seeded.gate.trans free'
  case reused =>
    intro result inResults
    obtain ⟨unit, inUnits, reports⟩ := member result inResults
    rw [reports.reused, reports.attests.ofUnit, pending, not_and, not_not]
    exact ⟨fun isDone _ => isDone, fun isDone => isDone inUnits⟩
  case accepted =>
    intro result inResults isPending request requested
    obtain ⟨unit, _, reports⟩ := member result inResults
    rw [reports.attests.ofUnit] at isPending requested
    exact reports.fresh (pending.mp isPending).2 request requested
  case contents => exact done.contents
  case transitions => exact done.transitions
  case requests => exact fun product => (productTotals_units counted product).1
  case reusedSuccesses =>
    intro product
    rw [← pendingUnits_eq good gate, (productTotals_units counted product).2,
      (productTotals_units counted product).1]
  case facts =>
    intro product rows rows' facts facts'
    exact facts.worked noCollisions injective planned good sound free last.orderly.good sound' free'
      (List.prefix_append units rest) done.worked last.describes.state facts'
  case again =>
    obtain ⟨w'', continues, store, _⟩ :=
      runNow_loop_again (done.reports.imp fun _ _ reports => reports.attests) last.orderly
    have ran : runNow (fetching source) (ingestDays today (units ++ [])) w' =
        (.ok (results.map (·.again) ++ []), w'') := continues.ok rfl
    rw [List.append_nil, List.append_nil] at ran
    exact ⟨w'', ran, store⟩

/-- A loop that has come to a unit whose records a check rejects stops there. -/
theorem LoopDone.stopped (noCollisions : NoCollisions) (injective : UuidInjective uuid5)
    (planned : expand uuid5 today spec = .ok (units ++ unit :: rest))
    (ready : LoopReady today (units ++ unit :: rest) w w.store.progress)
    (done : LoopDone source today units w w₁ w.store.progress after results)
    (last : LoopReady today (unit :: rest) w₁ after)
    (isPending : unit.runId ∉ w.store.progress.ids) {request : Request}
    (requested : unit.request today = .ok request)
    (rejected : batchRows request (source request) = .error e) :
    ∃ w', LoopStopped source today units unit rest e w w' := by
  have completed := done.completed noCollisions injective planned ready last
  obtain ⟨c, other, first⟩ := last.first
  obtain rfl : request = other := Except.ok.inj (requested.symm.trans first.requested)
  have apart : ∀ other ∈ units, other.runId ≠ unit.runId := fun other inUnits =>
    (List.pairwise_append.mp ready.distinct).2.2 other inUnits unit List.mem_cons_self
  have fresh : unit.runId ∉ after.ids := by
    rw [Resumable.mem_all_ids done.worked, not_or]
    exact ⟨isPending, fun ⟨other, inUnits, same⟩ => apart other inUnits same⟩
  obtain ⟨w', ran, orderly', left, failed⟩ := first.refuse fresh rejected
  -- The manifests of the units before are as they were.
  have attested : List.Forall₂ (Attests today w') units results := by
    have reports := (List.forall₂_and_left units results).mpr ⟨apart, done.reports⟩
    refine reports.imp fun other result both => both.2.attests.mono fun row inRuns ofRun => ?_
    exact (left.others row fun same => both.1 (ofRun.symm.trans same)).mpr inRuns
  obtain ⟨w₂, continues, store, orderly₂⟩ := runNow_loop_again attested orderly'
  have failed₂ : FailedRun w₂ unit.runId request.requestId := by
    rw [FailedRun, store]
    exact failed
  obtain ⟨w'', reran, store'⟩ := runNow_executeUnit_failed source orderly₂ requested failed₂
  exact ⟨w', done.continues.error (runNow_loop_stop (runNow_task_stopped ran)),
    ⟨results, w₁, completed, left⟩, w'',
    continues.error (runNow_loop_stop (runNow_task_stopped reran)), store'.trans store⟩

/-- The units of a plan that can be started are ready. -/
theorem loopReady_of_startable (noCollisions : NoCollisions) (injective : UuidInjective uuid5)
    (planned : expand uuid5 today spec = .ok units) (orderly : Orderly w) (seeded : Seeded w.store c)
    (free : c.activeRunId = none) (valid : ∀ unit ∈ units, isRunId unit.runId = true)
    (startable : ∀ unit ∈ units, ∀ request, unit.request today = .ok request →
      Startable w unit.runId request.requestId) :
    LoopReady today units w w.store.progress := by
  have distinct := expand_distinct noCollisions injective planned
  refine ⟨orderly, ⟨c, (orderly.good.of_seeded seeded).1, free⟩, describes_progress _, ⟨?_, ?_⟩,
    distinct⟩
  · intro unit inUnits
    obtain ⟨completed, request, isShown⟩ := expand_units planned unit inUnits
    have requested := isShown.request completed
    exact ⟨request, requested, valid unit inUnits, startable unit inUnits request requested⟩
  · intro unit inUnits other inUnits' same request request' requested requested'
    obtain rfl : other = unit :=
      List.inj_on_of_nodup_map (List.pairwise_map.mpr distinct) inUnits' inUnits same
    rw [Except.ok.inj (requested.symm.trans requested')]

/-- **A backfill that is left alone** completes or stops at the first unit whose records a check
rejects. In every reachable state whose gate is free and in which every unit can be started (it has
no manifest and no jobs, was begun for its request and has no commit job, or has succeeded), with no
other writer and every call answered: if the records of all pending units pass the checks of a batch,
the ingestion loop completes (`LoopCompleted`); if those of a pending unit do not and those of the
pending units before it do, it stops at that unit (`LoopStopped`). -/
theorem backfill_alone (noCollisions : NoCollisions) (injective : UuidInjective uuid5)
    {s : WarehouseSystem} (reachable : Reachable s) (seeded : Seeded s.world.store c)
    (free : c.activeRunId = none) (planned : expand uuid5 today spec = .ok units)
    (valid : ∀ unit ∈ units, isRunId unit.runId = true)
    (startable : ∀ unit ∈ units, ∀ request, unit.request today = .ok request →
      Startable s.world unit.runId request.requestId) (source : Request → List Observation) :
    ((∀ unit ∈ pendingUnits s.world.store units, ∀ request, unit.request today = .ok request →
        ∃ batch, batchRows request (source request) = .ok batch) →
      ∃ results w', LoopCompleted source today units s.world w' results) ∧
    ∀ done unit rest request e, units = done ++ unit :: rest →
      unit ∈ pendingUnits s.world.store units → unit.request today = .ok request →
      batchRows request (source request) = .error e →
      (∀ unit ∈ pendingUnits s.world.store done, ∀ request, unit.request today = .ok request →
        ∃ batch, batchRows request (source request) = .ok batch) →
      ∃ w', LoopStopped source today done unit rest e s.world w' := by
  have ready := loopReady_of_startable noCollisions injective planned reachable.orderly seeded free
    valid startable
  have pending := fun {unit : IngestionUnit} {part : List IngestionUnit} =>
    @mem_pendingUnits _ unit part s.world.store reachable.orderly.good (seeded.gate.trans free)
  have accepts : ∀ {part : List IngestionUnit}, (∀ unit ∈ pendingUnits s.world.store part,
      ∀ request, unit.request today = .ok request →
        ∃ batch, batchRows request (source request) = .ok batch) →
      PendingAccepted source today s.world.store.progress.ids part :=
    fun each unit inPart fresh => each unit (pending.mpr ⟨inPart, fresh⟩)
  constructor
  · intro each
    rw [← List.append_nil units] at ready planned
    obtain ⟨results, w', after, done, last⟩ := ready.run noCollisions (accepts each)
    exact ⟨results, w', done.completed noCollisions injective planned ready last⟩
  · rintro done unit rest request e rfl isPending requested rejected each
    obtain ⟨results, w₁, after, loop, last⟩ := ready.run noCollisions (accepts each)
    exact loop.stopped noCollisions injective planned ready last (pending.mp isPending).2 requested
      rejected

end Loop

theorem Replays.startable {db : Database} {s : WarehouseSystem} (replays : Replays db s)
    {runId requestId : String} (valid : isRunId runId = true)
    (fresh : ∀ row ∈ db.runs, row.runId ≠ runId) : Startable s.world runId requestId := by
  have unused := replays.unused runId valid fresh
  refine .new (fun row member ofRun => ?_) (unused "begin" (by simp)) (unused "commit" (by simp))
  obtain ⟨_, other, inSerial, same, _⟩ := replays.runs row member
  exact fresh other inSerial (same.trans ofRun)

/-- A source with one price and one load. -/
def sampleSource (request : Request) : List Observation :=
  match request.product with
  | .lmp => [samplePrice]
  | .load => [sampleObservation]

omit [Platform] in
set_option maxRecDepth 10000 in
theorem sampleUnits_planned : letI := Platform.plain
    expand sampleUuid sampleToday { sampleBackfill with ingestLmp := true } =
      .ok [samplePriceUnit, sampleUnit] := by rfl

omit [Platform] in
set_option maxRecDepth 10000 in
theorem sampleUnits_batched : letI := Platform.plain
    (∃ batch, batchRows samplePriceRequest [samplePrice] = .ok batch) ∧
      ∃ batch, batchRows sampleRequest [sampleObservation] = .ok batch :=
  ⟨⟨[@rowOf Platform.plain samplePriceRequest samplePrice], by rfl⟩,
    [@rowOf Platform.plain sampleRequest sampleObservation], by rfl⟩

omit [Platform] in
/-- A backfill of the prices and the load of one day in a warehouse that was just created. -/
theorem backfill_alone_sample :
    letI := Platform.plain
    ∃ results w', LoopCompleted sampleSource sampleToday [samplePriceUnit, sampleUnit]
      bootstrapped.world w' results := by
  let _ := Platform.plain
  have store := bootstrapped_plain.1
  have ready : Seeded bootstrapped.world.store ⟨1, 0, warehouseSchema, none⟩ := by
    rw [store]
    exact seeded_seeded
  have valid : ∀ unit ∈ [samplePriceUnit, sampleUnit], isRunId unit.runId = true := by decide
  have startable : ∀ unit ∈ [samplePriceUnit, sampleUnit], ∀ request,
      unit.request sampleToday = .ok request →
        Startable bootstrapped.world unit.runId request.requestId := fun unit member _ _ =>
    bootstrapped_replays.startable (valid unit member) (List.forall_mem_nil _)
  have prices : samplePriceUnit.request sampleToday = .ok samplePriceRequest := by rfl
  have load : sampleUnit.request sampleToday = .ok sampleRequest := by rfl
  have accepted : ∀ unit ∈ [samplePriceUnit, sampleUnit], ∀ request,
      unit.request sampleToday = .ok request →
        ∃ batch, batchRows request (sampleSource request) = .ok batch := by
    rw [List.forall_mem_cons, List.forall_mem_singleton, prices, load]
    constructor <;> rintro _ ⟨⟩
    · exact sampleUnits_batched.1
    · exact sampleUnits_batched.2
  obtain ⟨completes, _⟩ := backfill_alone noCollisions_plain sampleUuid_injective
    bootstrapped_reachable ready rfl sampleUnits_planned valid startable sampleSource
  exact completes fun unit member => accepted unit (List.mem_filter.mp member).1

end PowerMarket
