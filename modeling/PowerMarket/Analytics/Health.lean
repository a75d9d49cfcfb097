import PowerMarket.Analytics.Lineage
import PowerMarket.RunBinding
import PowerMarket.ManifestShapes
import PowerMarket.Library.Groups
import Mathlib.Algebra.Order.BigOperators.Group.List

/-!
# The summary of ingestion

The summary of ingestion (`martIngestionHealth`) reads the manifests and nothing else: it counts the
runs of a product, a day and a hub by their status and adds up what the manifests of the successful
ones say. The theorem `ingestion_health` compares it with the tables that the models read. Its
numbers of new contents and transitions are the numbers of eligible contents and of rows of the
revision history, although manifests and rows are written by different statements, and its latest
knowledge time bounds the clocks of these rows.

The proof counts every row at the run that wrote it (`sum_owned`). A run writes only for its own
product, day and hub (`InRequest`), and its manifest counts its rows (`Truthful`).
-/

set_option autoImplicit false

namespace PowerMarket

open Library

/-! ## The model -/

/-- A row of the summary of ingestion. -/
structure IngestionHealth where
  source : String
  product : Product
  requestedDate : Date
  requestedLocation : Option Hub
  runCount : Nat
  succeededRunCount : Nat
  failedRunCount : Nat
  startedRunCount : Nat
  unfinalizedRunCount : Nat
  latestSuccessfulKnowledgeAt : Option UtcTime
  successfulRowsAccepted : Option Nat
  successfulNewContents : Option Nat
  successfulNewTransitions : Option Nat
  deriving DecidableEq

/-- The sum of a column. Unknown values are left out, and the sum of unknown values only is
unknown. -/
def sumOf (values : List (Option Nat)) : Option Nat :=
  if values.all (·.isNone) then none else some (values.filterMap id).sum

/-- What the summary groups by. -/
def healthKey (run : RunRow) : String × Product × Date × Option Hub :=
  (run.source, run.product, run.requestedDate, run.requestedLocation)

/-- The column of a run that has succeeded, and zero for the others. -/
def ifSucceeded (column : RunRow → Option Nat) (run : RunRow) : Option Nat :=
  if run.status = .succeeded then column run else some 0

/-- The summary of the runs of one group. -/
def ingestionHealth (key : String × Product × Date × Option Hub) (runs : List RunRow) :
    IngestionHealth where
  source := key.1
  product := key.2.1
  requestedDate := key.2.2.1
  requestedLocation := key.2.2.2
  runCount := runs.length
  succeededRunCount := runs.countP (·.status = .succeeded)
  failedRunCount := runs.countP (·.status = .failed)
  startedRunCount := runs.countP (·.status = .started)
  unfinalizedRunCount := runs.countP (·.status = .committed)
  latestSuccessfulKnowledgeAt :=
    (runs.filterMap fun run => if run.status = .succeeded then run.knowledgeAt else none).max?
  successfulRowsAccepted := sumOf (runs.map (ifSucceeded (·.rowsAccepted)))
  successfulNewContents := sumOf (runs.map (ifSucceeded (·.newContents)))
  successfulNewTransitions := sumOf (runs.map (ifSucceeded (·.newTransitions)))

def martIngestionHealth (db : Database) : List IngestionHealth :=
  (groupBy healthKey (stgIngestionRuns db)).map fun group => ingestionHealth group.1 group.2

/-! ## Sums of known values -/

theorem sumOf_known {values : List Nat} (nonempty : values ≠ []) :
    sumOf (values.map some) = some values.sum := by
  have known : (values.map some).all (·.isNone) = false := by
    cases values with
    | nil => exact absurd rfl nonempty
    | cons value values => rfl
  rw [sumOf, known, if_neg Bool.false_ne_true, List.filterMap_map]
  exact congrArg (fun values => some (List.sum values)) List.filterMap_some

/-- **The sum of a column over the runs that have succeeded**, which know it. -/
theorem sumOf_ifSucceeded {runs : List RunRow} (nonempty : runs ≠ [])
    {column : RunRow → Option Nat} {value : RunRow → Nat}
    (known : ∀ run ∈ runs, run.status = .succeeded → column run = some (value run)) :
    sumOf (runs.map (ifSucceeded column)) =
      some ((runs.filter (·.status = .succeeded)).map value).sum := by
  have values : runs.map (ifSucceeded column) =
      (runs.map fun run => if decide (run.status = .succeeded) then value run else 0).map some := by
    rw [List.map_map]
    refine List.map_congr_left fun run member => ?_
    rw [ifSucceeded, Function.comp_apply]
    by_cases succeeded : run.status = .succeeded
    · rw [if_pos succeeded, known run member succeeded, if_pos (decide_eq_true succeeded)]
    · rw [if_neg succeeded, if_neg (by simpa using succeeded)]
  rw [values, sumOf_known (by simpa using nonempty), sum_ite]

theorem length_by_status (runs : List RunRow) : runs.length =
    runs.countP (·.status = .succeeded) + runs.countP (·.status = .failed) +
      runs.countP (·.status = .started) + runs.countP (·.status = .committed) := by
  induction runs with
  | nil => rfl
  | cons run runs ih =>
      simp only [List.length_cons, List.countP_cons, ih]
      cases run.status <;> simp <;> omega

/-! ## Joins by run -/

section Eligible

variable [Platform] {db : Database} {product : Product}

/-- **A staging model is a part of its table**, row by row. -/
theorem Good.eligible_eq (good : Good db) {α : Type} (runId : α → String) (rows : List α) :
    eligible runId db rows =
      rows.filter fun row => db.runs.any fun run =>
        decide (runId row = run.runId) && decide (run.status = .succeeded) := by
  have joined : (innerJoin (fun row run => decide (runId row = run.runId)) rows db.runs).filter
      (fun pair => decide (pair.2.status = .succeeded)) =
        innerJoin (fun row run => decide (runId row = run.runId) &&
          decide (run.status = .succeeded)) rows db.runs :=
    innerJoin_filter fun run : RunRow => decide (run.status = .succeeded)
  rw [eligible, stgIngestionRuns, joined]
  refine innerJoin_single fun row _ => ?_
  have fewer : (db.runs.filter fun run => decide (runId row = run.runId) &&
      decide (run.status = .succeeded)).length ≤ (runRows db (runId row)).length := by
    rw [← List.countP_eq_length_filter, runRows, ← List.countP_eq_length_filter]
    refine List.countP_mono_left fun run _ holds => ?_
    rw [Bool.and_eq_true, decide_eq_true_eq] at holds
    exact decide_eq_true holds.1.symm
  exact fewer.trans (runRows_length_le good.unique (runId row))

/-- A row of a staging model is a row whose run has succeeded. -/
theorem Good.eligible_filter (good : Good db) {α : Type} (runId : α → String) (rows : List α)
    {owners : List RunRow} {covers : α → Bool}
    (owned : ∀ row ∈ rows, EligibleRun db (runId row) →
      (covers row = true ↔ runId row ∈ owners.map (·.runId)))
    (succeeded : ∀ run ∈ owners, run ∈ db.runs ∧ run.status = .succeeded) :
    (eligible runId db rows).filter covers =
      rows.filter fun row => decide (runId row ∈ owners.map (·.runId)) := by
  rw [good.eligible_eq, List.filter_filter]
  refine List.filter_congr fun row member => ?_
  rw [Bool.eq_iff_iff, Bool.and_eq_true, List.any_eq_true, decide_eq_true_eq]
  constructor
  · rintro ⟨covered, run, at_run, holds⟩
    rw [Bool.and_eq_true, decide_eq_true_eq, decide_eq_true_eq] at holds
    exact (owned row member ⟨run, at_run, holds.1.symm, holds.2⟩).mp covered
  · intro listed
    obtain ⟨run, at_run, ofRun⟩ := List.mem_map.mp listed
    obtain ⟨inRuns, done⟩ := succeeded run at_run
    refine ⟨(owned row member ⟨run, inRuns, ofRun, done⟩).mpr listed, run, inRuns, ?_⟩
    rw [Bool.and_eq_true, decide_eq_true_eq, decide_eq_true_eq]
    exact ⟨ofRun.symm, done⟩

end Eligible

/-! ## The rows of a group -/

/-- The contents of a product, a day and a hub. -/
def contentsOf (product : Product) (day : Date) (hub : Option Hub) (db : Database) :
    List ContentRow :=
  (stgContents product db).filter fun content =>
    decide (content.marketDate = day) && decide (content.values.hub = hub.map Hub.text)

/-- The revision history of a product, a day and a hub. -/
def historyOf (product : Product) (day : Date) (hub : Option Hub) (db : Database) :
    List HistoryRow :=
  (intRevisionHistory product db).filter fun row =>
    decide (row.marketDate = day) && decide (row.values.hub = hub.map Hub.text)

section Groups

variable [Platform] {db : Database} {product : Product}

omit [Platform] in
theorem hub_text_inj {a b : Option Hub} (same : a.map Hub.text = b.map Hub.text) : a = b :=
  Option.map_injective Hub.text_injective same

/-- A transition and its content are in the request of the run that made the transition. -/
theorem Occurs.inRequest (noCollisions : NoCollisions) (good : Good db)
    {transition : TransitionRow} {content : ContentRow}
    (occurs : Occurs product db transition content) {run : RunRow} (member : run ∈ db.runs)
    (ofRun : transition.runId = run.runId) :
    product = run.product ∧ content.marketDate = run.requestedDate ∧
      content.values.hub = run.requestedLocation.map Hub.text := by
  obtain ⟨ofProduct, day, other, at_other, refers, hub⟩ :=
    (good.inRequest noCollisions member).transitions product transition occurs.inTransitions ofRun
  obtain rfl : other = content :=
    List.inj_on_of_nodup_map (good.ids noCollisions product).1 at_other occurs.inContents
      (refers.trans occurs.refers)
  refine ⟨ofProduct, ?_, hub⟩
  obtain ⟨request, record, _, _, traced⟩ := occurs.traced noCollisions good
  obtain ⟨row, request', record', _, _, written, planned, _⟩ :=
    good.transition_origin noCollisions occurs.inTransitions
  have keys : record.logicalKey = record'.logicalKey :=
    (congrArg BatchRow.logicalKey traced.row).symm.trans
      ((occurs.same noCollisions good).1.trans (congrArg TransitionRow.logicalKey planned))
  have sameDay : transition.marketDate = request'.day :=
    congrArg TransitionRow.marketDate planned
  calc other.marketDate = request.day := congrArg BatchRow.marketDate traced.row
    _ = request'.day := traced.admissible.day_eq noCollisions written.admissible keys
    _ = run.requestedDate := sameDay.symm.trans day

/-- **What a successful manifest counts**: the rows of its run in the tables of its product. -/
theorem Good.counts (noCollisions : NoCollisions) (good : Good db) {run : RunRow}
    (member : run ∈ db.runs) (committed : run.status.hasCommitted = true) :
    run.newContents = some (ownContents run.product run.runId db).length ∧
      run.newTransitions = some (ownTransitions run.product run.runId db).length ∧
      (ownContents run.product run.runId db).length ≤
        (ownTransitions run.product run.runId db).length ∧
      ∃ accepted, run.rowsAccepted = some accepted ∧
        (ownTransitions run.product run.runId db).length ≤ accepted := by
  obtain ⟨request, records, batch, current, plan, truthful⟩ :=
    good.truthful noCollisions member committed
  have inRequest := good.inRequest noCollisions member
  have contents : (ownContents run.product run.runId db).length = plan.contents.length := by
    rw [← truthful.contents_count]
    have others : ∀ other, other ≠ run.product → ownContents other run.runId db = [] := by
      intro other differs
      refine List.filter_eq_nil_iff.mpr fun content at_content own => differs ?_
      exact (inRequest.contents other content at_content (of_decide_eq_true own)).1
    cases isProduct : run.product with
    | lmp => rw [others .load (by rw [isProduct]; decide), List.length_nil, Nat.add_zero]
    | load => rw [others .lmp (by rw [isProduct]; decide), List.length_nil, Nat.zero_add]
  have transitions : (ownTransitions run.product run.runId db).length =
      plan.transitions.length := by
    rw [← truthful.transitions_count]
    have others : ∀ other, other ≠ run.product → ownTransitions other run.runId db = [] := by
      intro other differs
      refine List.filter_eq_nil_iff.mpr fun transition at_transition own => differs ?_
      exact (inRequest.transitions other transition at_transition (of_decide_eq_true own)).1
    cases isProduct : run.product with
    | lmp => rw [others .load (by rw [isProduct]; decide), List.length_nil, Nat.add_zero]
    | load => rw [others .lmp (by rw [isProduct]; decide), List.length_nil, Nat.zero_add]
  rw [contents, transitions]
  exact ⟨truthful.newContents, truthful.newTransitions, truthful.ordered, _, truthful.rowsAccepted,
    truthful.bounded⟩

/-- The runs of a group, and those of them that have succeeded. -/
structure Group (db : Database) (product : Product) (day : Date) (hub : Option Hub)
    (runs : List RunRow) : Prop where
  members : ∀ run ∈ runs, run ∈ db.runs ∧ run.product = product ∧ run.requestedDate = day ∧
    run.requestedLocation = hub
  complete : ∀ run ∈ db.runs, run.product = product → run.requestedDate = day →
    run.requestedLocation = hub → run ∈ runs
  distinct : (runs.map (·.runId)).Nodup

section Group

variable {day : Date} {hub : Option Hub} {runs : List RunRow}

omit [Platform] in
theorem Group.succeeded_distinct (group : Group db product day hub runs) :
    ((runs.filter (·.status = .succeeded)).map (·.runId)).Nodup :=
  (List.filter_sublist.map _).nodup group.distinct

omit [Platform] in
theorem Group.succeeded_member (group : Group db product day hub runs) :
    ∀ run ∈ runs.filter (·.status = .succeeded), run ∈ db.runs ∧ run.status = .succeeded := by
  intro run member
  obtain ⟨inRuns, succeeded⟩ := List.mem_filter.mp member
  exact ⟨(group.members run inRuns).1, of_decide_eq_true succeeded⟩

/-- A row whose run is in the request of the group has its run in the group. -/
theorem Group.owner_iff (group : Group db product day hub runs) (good : Good db) {runId : String}
    (eligible : EligibleRun db runId) {date : Date} {place : Option String}
    (inRequest : ∀ run ∈ db.runs, runId = run.runId → product = run.product ∧
      date = run.requestedDate ∧ place = run.requestedLocation.map Hub.text) :
    (decide (date = day) && decide (place = hub.map Hub.text)) = true ↔
      runId ∈ (runs.filter (·.status = .succeeded)).map (·.runId) := by
  obtain ⟨run, at_run, ofRun, succeeded⟩ := eligible
  obtain ⟨ofProduct, isDate, isPlace⟩ := inRequest run at_run ofRun.symm
  rw [Bool.and_eq_true, decide_eq_true_eq, decide_eq_true_eq]
  constructor
  · rintro ⟨sameDay, sameHub⟩
    refine List.mem_map.mpr ⟨run, List.mem_filter.mpr ⟨?_, decide_eq_true succeeded⟩, ofRun⟩
    exact group.complete run at_run ofProduct.symm (isDate.symm.trans sameDay)
      (hub_text_inj (isPlace.symm.trans sameHub))
  · intro listed
    obtain ⟨other, at_other, ofOther⟩ := List.mem_map.mp listed
    obtain ⟨inRuns, _, otherDay, otherHub⟩ := group.members other (List.mem_filter.mp at_other).1
    obtain rfl := run_unique good.unique inRuns at_run (ofOther.trans ofRun.symm)
    exact ⟨isDate.trans otherDay, isPlace.trans (congrArg _ otherHub)⟩

/-- **The contents of a group** are those that its successful runs were the first to see. -/
theorem Group.contents (group : Group db product day hub runs) (noCollisions : NoCollisions)
    (good : Good db) : ((runs.filter (·.status = .succeeded)).map fun run =>
      (ownContents run.product run.runId db).length).sum = (contentsOf product day hub db).length := by
  have same : contentsOf product day hub db = (db.contents product).filter fun content =>
      decide (content.firstRunId ∈ (runs.filter (·.status = .succeeded)).map (·.runId)) := by
    refine good.eligible_filter _ _ (fun content member eligible => ?_) group.succeeded_member
    exact group.owner_iff good eligible fun run at_run ofRun =>
      (good.inRequest noCollisions at_run).contents product content member ofRun
  rw [same, ← sum_owned group.succeeded_distinct]
  refine congrArg List.sum (List.map_congr_left fun run member => ?_)
  rw [ownContents, (group.members run (List.mem_filter.mp member).1).2.1]

theorem Good.history_single (noCollisions : NoCollisions) (good : Good db) :
    ((innerJoin (fun transition content => decide (transition.contentId = content.contentId))
      (stgStateTransitions product db) (stgContents product db)).map Prod.fst) =
        stgStateTransitions product db := by
  rw [innerJoin_single fun transition member => ?_, List.filter_eq_self]
  · intro transition member
    obtain ⟨inTransitions, run⟩ := mem_eligible.mp member
    obtain ⟨content, occurs⟩ := good.occurs noCollisions inTransitions run
    exact List.any_eq_true.mpr ⟨content, mem_eligible.mpr ⟨occurs.inContents, occurs.first⟩,
      decide_eq_true occurs.refers⟩
  · have ids : ((stgContents product db).map (·.contentId)).Nodup := by
      rw [stgContents, good.eligible_eq]
      exact (List.filter_sublist.map _).nodup (good.ids noCollisions product).1
    have count : ((stgContents product db).map (·.contentId)).count transition.contentId ≤ 1 :=
      List.nodup_iff_count_le_one.mp ids _
    rw [List.count_eq_countP, List.countP_map, List.countP_eq_length_filter] at count
    simpa [Function.comp_def, beq_eq_decide, eq_comm] using count

/-- **The history of a group** is made of the transitions of its successful runs. -/
theorem Group.transitions (group : Group db product day hub runs) (noCollisions : NoCollisions)
    (good : Good db) : ((runs.filter (·.status = .succeeded)).map fun run =>
      (ownTransitions run.product run.runId db).length).sum =
        (historyOf product day hub db).length := by
  have owned : ∀ transition ∈ stgStateTransitions product db, ∀ content,
      Occurs product db transition content →
      ((decide (content.marketDate = day) && decide (content.values.hub = hub.map Hub.text)) =
        decide (transition.runId ∈ (runs.filter (·.status = .succeeded)).map (·.runId))) := by
    intro transition member content occurs
    rw [Bool.eq_iff_iff, decide_eq_true_eq]
    exact group.owner_iff good (mem_eligible.mp member).2 fun run at_run ofRun =>
      occurs.inRequest noCollisions good at_run ofRun
  have same : (historyOf product day hub db).length =
      ((stgStateTransitions product db).filter fun transition =>
        decide (transition.runId ∈ (runs.filter (·.status = .succeeded)).map (·.runId))).length := by
    refine Eq.trans ?_ (congrArg (fun rows => (rows.filter fun transition => decide
      (transition.runId ∈ (runs.filter (·.status = .succeeded)).map (·.runId))).length)
        (good.history_single noCollisions))
    simp only [historyOf, intRevisionHistory, List.filter_map, List.length_map]
    refine congrArg List.length (List.filter_congr fun pair joined => ?_)
    obtain ⟨transition, content⟩ := pair
    obtain ⟨at_transition, at_content, refers⟩ := mem_innerJoin.mp joined
    obtain ⟨inTransitions, run⟩ := mem_eligible.mp at_transition
    obtain ⟨inContents, first⟩ := mem_eligible.mp at_content
    exact owned transition at_transition content
      ⟨inTransitions, run, inContents, first, of_decide_eq_true refers⟩
  rw [same, stgStateTransitions, good.eligible_filter _ _ (fun _ _ _ => decide_eq_true_iff)
    group.succeeded_member, ← sum_owned group.succeeded_distinct]
  refine congrArg List.sum (List.map_congr_left fun run member => ?_)
  rw [ownTransitions, (group.members run (List.mem_filter.mp member).1).2.1]

end Group

/-! ## The summary -/

/-- What a row of the summary says about the runs and the rows of its product, day and hub. -/
structure Summarized (db : Database) (row : IngestionHealth) : Prop where
  source : row.source = "CAISO"
  nonempty : 0 < row.runCount
  partition : row.runCount = row.succeededRunCount + row.failedRunCount + row.startedRunCount +
    row.unfinalizedRunCount
  contents : row.successfulNewContents =
    some (contentsOf row.product row.requestedDate row.requestedLocation db).length
  transitions : row.successfulNewTransitions =
    some (historyOf row.product row.requestedDate row.requestedLocation db).length
  ordered : (contentsOf row.product row.requestedDate row.requestedLocation db).length ≤
    (historyOf row.product row.requestedDate row.requestedLocation db).length
  accepted : ∃ accepted, row.successfulRowsAccepted = some accepted ∧
    (historyOf row.product row.requestedDate row.requestedLocation db).length ≤ accepted
  succeeded : row.latestSuccessfulKnowledgeAt.isSome = true ↔ 0 < row.succeededRunCount
  known : ∀ state ∈ historyOf row.product row.requestedDate row.requestedLocation db,
    ∃ known latest, state.stateKnownAt = some known ∧
      row.latestSuccessfulKnowledgeAt = some latest ∧ known ≤ latest

/-- What the summary says about all runs and rows. -/
structure Healthy (db : Database) (mart : List IngestionHealth) : Prop where
  keys : (mart.map fun row =>
    (row.product, row.requestedDate, row.requestedLocation)).Nodup
  rows : ∀ row ∈ mart, Summarized db row
  runs : (mart.map (·.runCount)).sum = db.runs.length
  unfinalized : (mart.map (·.unfinalizedRunCount)).sum = if db.gate.isSome then 1 else 0
  complete : ∀ product, ∀ state ∈ intRevisionHistory product db, ∃ row ∈ mart,
    row.product = product ∧
      state ∈ historyOf row.product row.requestedDate row.requestedLocation db

omit [Platform] in
/-- The runs of a group of the summary. -/
theorem exists_group_of (sources : ∀ run ∈ db.runs, run.source = "CAISO") (unique : UniqueRuns db)
    {key : String × Product × Date × Option Hub} {runs : List RunRow}
    (member : (key, runs) ∈ groupBy healthKey db.runs) :
    runs ≠ [] ∧ key.1 = "CAISO" ∧ Group db key.2.1 key.2.2.1 key.2.2.2 runs := by
  obtain ⟨_, isGroup⟩ := mem_groupBy.mp member
  have nonempty := groupBy_ne_nil member
  have source : key.1 = "CAISO" := by
    obtain ⟨run, inRuns⟩ := List.exists_mem_of_ne_nil _ nonempty
    obtain ⟨at_run, ofKey⟩ := key_of_mem_groupBy member inRuns
    exact (congrArg Prod.fst ofKey).symm.trans (sources run at_run)
  refine ⟨nonempty, source, fun run inRuns => ?_, fun run at_run product day hub => ?_, ?_⟩
  · obtain ⟨at_run, rfl⟩ := key_of_mem_groupBy member inRuns
    exact ⟨at_run, rfl, rfl, rfl⟩
  · rw [isGroup]
    refine List.mem_filter.mpr ⟨at_run, decide_eq_true ?_⟩
    rw [healthKey, sources run at_run, product, day, hub, ← source]
  · rw [isGroup]
    exact (List.filter_sublist.map _).nodup unique

/-- **A row of the summary agrees with the tables.** -/
theorem Group.summarized {key : String × Product × Date × Option Hub} {runs : List RunRow}
    (group : Group db key.2.1 key.2.2.1 key.2.2.2 runs) (noCollisions : NoCollisions)
    (good : Good db) (nonempty : runs ≠ []) (source : key.1 = "CAISO") :
    Summarized db (ingestionHealth key runs) := by
  have counts : ∀ run ∈ runs, run.status = .succeeded → _ := fun run inRuns succeeded =>
    good.counts noCollisions (group.members run inRuns).1 (by rw [succeeded]; rfl)
  have latest : ∀ {time : UtcTime} {run : RunRow}, run ∈ runs → run.status = .succeeded →
      run.knowledgeAt = some time →
      time ∈ runs.filterMap fun run =>
        if run.status = .succeeded then run.knowledgeAt else none := by
    intro time run inRuns succeeded isTime
    exact List.mem_filterMap.mpr ⟨run, inRuns, by rw [if_pos succeeded, isTime]⟩
  refine {
    source
    nonempty := List.length_pos_iff.mpr nonempty
    partition := length_by_status runs
    contents := ?contents
    transitions := ?transitions
    ordered := ?ordered
    accepted := ?accepted
    succeeded := ?succeeded
    known := ?known }
  case contents =>
    exact (sumOf_ifSucceeded nonempty fun run inRuns succeeded =>
      (counts run inRuns succeeded).1).trans (congrArg some (group.contents noCollisions good))
  case transitions =>
    exact (sumOf_ifSucceeded nonempty fun run inRuns succeeded =>
      (counts run inRuns succeeded).2.1).trans (congrArg some (group.transitions noCollisions good))
  case ordered =>
    refine (group.contents noCollisions good).symm.le.trans
      (le_trans ?_ (group.transitions noCollisions good).le)
    refine List.sum_le_sum fun run member => ?_
    obtain ⟨inRuns, succeeded⟩ := List.mem_filter.mp member
    exact (counts run inRuns (of_decide_eq_true succeeded)).2.2.1
  case accepted =>
    have total : sumOf (runs.map (ifSucceeded (·.rowsAccepted))) =
        some ((runs.filter (·.status = .succeeded)).map fun run => run.rowsAccepted.getD 0).sum := by
      refine sumOf_ifSucceeded nonempty fun run inRuns succeeded => ?_
      obtain ⟨_, _, _, accepted, isAccepted, _⟩ := counts run inRuns succeeded
      rw [isAccepted, Option.getD_some]
    refine ⟨_, total, ?_⟩
    refine (group.transitions noCollisions good).symm.le.trans (List.sum_le_sum fun run member => ?_)
    obtain ⟨inRuns, succeeded⟩ := List.mem_filter.mp member
    obtain ⟨_, _, _, accepted, isAccepted, le⟩ := counts run inRuns (of_decide_eq_true succeeded)
    rw [isAccepted, Option.getD_some]
    exact le
  case succeeded =>
    rw [ingestionHealth, List.isSome_max?_iff, List.countP_pos_iff]
    constructor
    · intro some_
      obtain ⟨time, member⟩ := List.exists_mem_of_ne_nil _ some_
      obtain ⟨run, inRuns, isTime⟩ := List.mem_filterMap.mp member
      split_ifs at isTime with succeeded
      exact ⟨run, inRuns, decide_eq_true succeeded⟩
    · rintro ⟨run, inRuns, succeeded⟩
      obtain ⟨time, isTime⟩ := Option.isSome_iff_exists.mp
        ((good.timed (group.members run inRuns).1).mpr (of_decide_eq_true succeeded))
      exact List.ne_nil_of_mem (latest inRuns (of_decide_eq_true succeeded) isTime)
  case known =>
    intro state member
    obtain ⟨inHistory, covered⟩ := List.mem_filter.mp member
    obtain ⟨transition, content, occurs, rfl⟩ := mem_intRevisionHistory.mp inHistory
    obtain ⟨request, record, run, first, traced⟩ := occurs.traced noCollisions good
    obtain ⟨_, known, _, _, isKnown, ofRun⟩ := traced.clocks good
    have listed := (group.owner_iff good occurs.run fun run at_run ofRun =>
      occurs.inRequest noCollisions good at_run ofRun).mp covered
    obtain ⟨other, at_other, ofOther⟩ := List.mem_map.mp listed
    obtain ⟨inRuns, succeeded⟩ := List.mem_filter.mp at_other
    obtain rfl := run_unique good.unique (group.members other inRuns).1 traced.stateMember
      (ofOther.trans traced.stateRun.symm)
    have inTimes := latest inRuns (of_decide_eq_true succeeded) ofRun
    obtain ⟨greatest, isGreatest⟩ := Option.isSome_iff_exists.mp (List.isSome_max?_of_mem inTimes)
    exact ⟨known, greatest, isKnown, isGreatest,
      (List.max?_eq_some_iff.mp isGreatest).2 known inTimes⟩

theorem Good.unfinalized (good : Good db) :
    db.runs.countP (·.status = .committed) = if db.gate.isSome then 1 else 0 := by
  rcases id good with rfl | ⟨c, sound, _⟩
  · rfl
  rw [sound.seeded.gate, List.countP_eq_length_filter]
  cases gate : c.activeRunId with
  | none =>
      refine List.length_eq_zero_iff.mpr (List.filter_eq_nil_iff.mpr fun run member committed => ?_)
      have held := (sound.gate run member).mp (of_decide_eq_true committed)
      rw [gate] at held
      cases held
  | some runId =>
      obtain ⟨run, member, rfl⟩ := sound.holder runId gate
      have only : db.runs.filter (fun run => decide (run.status = .committed)) =
          runRows db run.runId := by
        refine List.filter_congr fun other at_other => ?_
        rw [Bool.eq_iff_iff, decide_eq_true_eq, decide_eq_true_eq, sound.gate other at_other, gate,
          Option.some.injEq]
        exact eq_comm
      rw [only, runRows_eq sound.unique member]
      rfl

/-- **The summary of ingestion agrees with the tables.** -/
theorem Good.healthy (noCollisions : NoCollisions) (good : Good db)
    (sources : ∀ run ∈ db.runs, run.source = "CAISO") : Healthy db (martIngestionHealth db) := by
  have grouped : ∀ key runs, (key, runs) ∈ groupBy healthKey db.runs → _ := fun _ _ member =>
    exists_group_of sources good.unique member
  refine {
    keys := ?keys
    rows := ?rows
    runs := ?runs
    unfinalized := ?unfinalized
    complete := ?complete }
  case keys =>
    rw [martIngestionHealth, List.map_map]
    refine List.Nodup.of_map (Prod.mk "CAISO") ?_
    rw [List.map_map]
    have same : (groupBy healthKey (stgIngestionRuns db)).map Prod.fst =
        (groupBy healthKey (stgIngestionRuns db)).map (Prod.mk "CAISO" ∘
          (fun row : IngestionHealth => (row.product, row.requestedDate, row.requestedLocation)) ∘
            fun group => ingestionHealth group.1 group.2) := by
      refine List.map_congr_left fun group member => ?_
      obtain ⟨_, source, _⟩ := grouped group.1 group.2 member
      exact Prod.ext source rfl
    exact same ▸ groupBy_keys healthKey db.runs
  case rows =>
    intro row member
    obtain ⟨⟨key, runs⟩, at_group, rfl⟩ := List.mem_map.mp member
    obtain ⟨nonempty, source, group⟩ := grouped key runs at_group
    exact group.summarized noCollisions good nonempty source
  case runs =>
    rw [martIngestionHealth, List.map_map]
    have total := countP_groupBy healthKey (fun _ => true) db.runs
    simp only [List.countP_true] at total
    exact total
  case unfinalized =>
    rw [martIngestionHealth, List.map_map, ← good.unfinalized]
    exact countP_groupBy healthKey (fun run => decide (run.status = .committed)) db.runs
  case complete =>
    intro product state member
    obtain ⟨transition, content, occurs, rfl⟩ := mem_intRevisionHistory.mp member
    obtain ⟨run, at_run, ofRun, succeeded⟩ := occurs.run
    obtain ⟨rfl, day, hub⟩ := occurs.inRequest noCollisions good at_run ofRun.symm
    have inGroups : (healthKey run, _) ∈ groupBy healthKey db.runs := exists_group at_run
    refine ⟨_, List.mem_map_of_mem inGroups, rfl, ?_⟩
    refine List.mem_filter.mpr ⟨member, ?_⟩
    rw [Bool.and_eq_true, decide_eq_true_eq, decide_eq_true_eq]
    exact ⟨day, hub⟩

end Groups

variable [Platform]

/-- **The summary of ingestion agrees with the tables** in every reachable state, although it reads
the manifests only. Its rows count every run once and the run that holds the gate as unfinalized. In
each row the new contents and transitions of the successful runs are the eligible contents and the
revisions of the product, the day and the hub, and the latest knowledge time is at or after the
clocks of all of them. -/
theorem ingestion_health (noCollisions : NoCollisions) {s : WarehouseSystem}
    (reachable : Reachable s) :
    Healthy s.world.store (martIngestionHealth s.world.store) :=
  reachable.orderly.good.healthy noCollisions fun run member =>
    (reachable.shaped run member).stamped.source

omit [Platform] in
/-- The summary of a load that was revised and corrected back. -/
theorem ingestion_health_sample :
    letI := Platform.plain
    ∃ s : WarehouseSystem, Revised s.world.store ∧
      Healthy s.world.store (martIngestionHealth s.world.store) := by
  let _ := Platform.plain
  obtain ⟨s, reachable, revised⟩ := exists_revised
  exact ⟨s, revised, ingestion_health noCollisions_plain reachable⟩

end PowerMarket
