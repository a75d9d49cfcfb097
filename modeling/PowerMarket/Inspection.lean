import PowerMarket.Analytics.Health
import PowerMarket.Warehouse.Appearances
import PowerMarket.Library.Sorting
import Mathlib.Order.OrderDual

/-!
# Inspecting a request

An inspection counts the contents and the transitions of a request, and then lists its last runs
(`inspectContents`, `inspectTransitions`, `inspectRuns`). The two queries are two jobs, between which
other jobs can take effect. So the counts may be older than the list, and `inspect_agrees` says what
holds nevertheless: the counts are those of the models at the time of the first query, the listed
manifests are the newest of the request at the time of the second, and a list that is not full
accounts for everything that was counted.
-/

set_option autoImplicit false

namespace PowerMarket

open Library

/-! ## The queries -/

/-- Whether a content is at the location of the request, which only requests for prices ask. -/
def atLocation (request : Request) (content : ContentRow) : Bool :=
  decide (request.product ≠ .lmp) ||
    decide (content.values.hub = request.location.map Hub.text)

/-- The contents of the day whose original run has succeeded. -/
def inspectContents (request : Request) (db : Database) : Nat :=
  ((innerJoin (fun content run => decide (content.firstRunId = run.runId))
    (db.contents request.product) db.runs).filter fun row =>
      decide (row.1.marketDate = request.day) && decide (row.2.status = .succeeded) &&
        atLocation request row.1).length

/-- The transitions of the day whose run has succeeded, to contents of the day. -/
def inspectTransitions (request : Request) (db : Database) : Nat :=
  ((innerJoin (fun pair run => decide (pair.1.runId = run.runId))
    (innerJoin (fun transition content => decide (transition.contentId = content.contentId))
      (db.transitions request.product) (db.contents request.product)) db.runs).filter fun row =>
        decide (row.1.1.marketDate = request.day) && decide (row.1.2.marketDate = request.day) &&
          decide (row.2.status = .succeeded) && atLocation request row.1.2).length

/-- How many runs are listed at most. -/
def inspectLimit (limit : Int) : Nat := (min (max limit 1) 100).toNat

/-- The last runs of the request. -/
def inspectRuns [Platform] (request : Request) (limit : Int) (db : Database) : List RunRow :=
  (sortOn (fun run => OrderDual.toDual run.startedAt) (db.runs.filter fun run =>
    decide (run.requestedDate = request.day) && decide (run.requestId = request.requestId))).take
      (inspectLimit limit)

/-! ## The counts -/

variable [Platform] {db : Database} {product : Product}

/-- The location of a content in the table of the product of a request. -/
theorem Good.atLocation_eq (noCollisions : NoCollisions) (good : Good db) {request : Request}
    {content : ContentRow} (member : content ∈ db.contents request.product) :
    atLocation request content =
      decide (content.values.hub = request.location.map Hub.text) := by
  by_cases isLmp : request.product = .lmp
  · rw [atLocation, decide_eq_false (not_not.mpr isLmp), Bool.false_or]
  · obtain ⟨row, written, record, origin, _, isRow, _⟩ := good.content_origin noCollisions member
    have unlocated : ∀ other : Request, other.product = request.product → other.location = none := by
      intro other ofProduct
      cases located : other.location with
      | none => rfl
      | some hub => exact absurd (ofProduct.symm.trans (other.supported.mp (by rw [located]; rfl))) isLmp
    have noHub : content.values.hub = none := by
      refine (congrArg (fun batch => batch.values.hub) isRow).trans ?_
      rw [rowOf, hub_of_admissible origin.admissible, unlocated written origin.product]
      rfl
    rw [atLocation, decide_eq_true isLmp, Bool.true_or, noHub, unlocated request rfl]
    rfl

omit [Platform] in
/-- Counting the rows of a join to the successful runs counts the rows of the staging model. -/
theorem length_joined {α : Type} (runId : α → String) (rows : List α) (holds : α → Bool) :
    ((innerJoin (fun row run => decide (runId row = run.runId)) rows db.runs).filter fun pair =>
      holds pair.1 && decide (pair.2.status = .succeeded)).length =
        ((eligible runId db rows).filter holds).length := by
  rw [eligible, stgIngestionRuns, List.filter_map, List.length_map, List.filter_filter]
  rfl

/-- **The counted contents** are those of the staging model. -/
theorem Good.inspectContents_eq (noCollisions : NoCollisions) (good : Good db) (request : Request) :
    inspectContents request db =
      (contentsOf request.product request.day request.location db).length := by
  rw [inspectContents, contentsOf, stgContents, ← length_joined]
  refine congrArg List.length (List.filter_congr fun pair joined => ?_)
  obtain ⟨inContents, _, _⟩ := mem_innerJoin.mp joined
  rw [good.atLocation_eq noCollisions inContents, Bool.and_right_comm]

/-- Only eligible contents are joined to eligible transitions. -/
theorem Good.joined_eligible (noCollisions : NoCollisions) (good : Good db) :
    eligible (fun pair => pair.1.runId) db
      (innerJoin (fun transition content => decide (transition.contentId = content.contentId))
        (db.transitions product) (db.contents product)) =
      innerJoin (fun transition content => decide (transition.contentId = content.contentId))
        (stgStateTransitions product db) (stgContents product db) := by
  rw [good.eligible_eq, innerJoin_filter_left fun transition : TransitionRow => db.runs.any fun run =>
    decide (transition.runId = run.runId) && decide (run.status = .succeeded),
    ← good.eligible_eq fun transition : TransitionRow => transition.runId, innerJoin, innerJoin]
  refine List.flatMap_congr fun transition member => congrArg _ ?_
  obtain ⟨inTransitions, run⟩ := mem_eligible.mp member
  obtain ⟨content, occurs⟩ := good.occurs noCollisions inTransitions run
  rw [stgContents, good.eligible_eq, List.filter_filter]
  refine List.filter_congr fun other at_other => ?_
  by_cases refers : transition.contentId = other.contentId
  · obtain rfl : other = content :=
      List.inj_on_of_nodup_map (good.ids noCollisions product).1 at_other occurs.inContents
        (refers.symm.trans occurs.refers)
    obtain ⟨first, at_first, ofFirst, succeeded⟩ := occurs.first
    have found : (db.runs.any fun run =>
        decide (other.firstRunId = run.runId) && decide (run.status = .succeeded)) = true :=
      List.any_eq_true.mpr ⟨first, at_first, by simp [ofFirst, succeeded]⟩
    rw [found, Bool.and_true]
  · rw [decide_eq_false refers, Bool.false_and]

/-- **The counted transitions** are the rows of the revision history. -/
theorem Good.inspectTransitions_eq (noCollisions : NoCollisions) (good : Good db)
    (request : Request) : inspectTransitions request db =
      (historyOf request.product request.day request.location db).length := by
  have counted : inspectTransitions request db =
      ((eligible (fun pair => pair.1.runId) db
        (innerJoin (fun transition content => decide (transition.contentId = content.contentId))
          (db.transitions request.product) (db.contents request.product))).filter fun pair =>
            decide (pair.1.marketDate = request.day) && decide (pair.2.marketDate = request.day) &&
              atLocation request pair.2).length := by
    rw [← length_joined, inspectTransitions]
    exact congrArg List.length (List.filter_congr fun row _ => Bool.and_right_comm ..)
  rw [counted, good.joined_eligible noCollisions, historyOf, intRevisionHistory, List.filter_map,
    List.length_map]
  refine congrArg List.length (List.filter_congr fun pair joined => ?_)
  obtain ⟨transition, content⟩ := pair
  obtain ⟨at_transition, at_content, refers⟩ := mem_innerJoin.mp joined
  obtain ⟨inTransitions, run, at_run, ofRun, succeeded⟩ := mem_eligible.mp at_transition
  obtain ⟨inContents, first⟩ := mem_eligible.mp at_content
  have occurs : Occurs request.product db transition content :=
    ⟨inTransitions, ⟨run, at_run, ofRun, succeeded⟩, inContents, first, of_decide_eq_true refers⟩
  obtain ⟨_, day, _⟩ := occurs.inRequest noCollisions good at_run ofRun.symm
  obtain ⟨_, sameDay, _⟩ := (good.inRequest noCollisions at_run).transitions request.product
    transition inTransitions ofRun.symm
  show (decide (transition.marketDate = request.day) && decide (content.marketDate = request.day) &&
    atLocation request content) = _
  rw [good.atLocation_eq noCollisions inContents, sameDay.trans day.symm, Bool.and_self]
  rfl

/-! ## Two points in time -/

section Later

variable {after : Database}

theorem Good.contents_kept (noCollisions : NoCollisions) (good : Good db)
    (precedes : Precedes db after) {content : ContentRow}
    (member : content ∈ stgContents product db) : content ∈ stgContents product after := by
  obtain ⟨inContents, first⟩ := mem_eligible.mp member
  obtain ⟨transition, inTransitions, ofRun, refers⟩ := good.appears noCollisions inContents
  have occurs : Occurs product db transition content :=
    ⟨inTransitions, ofRun ▸ first, inContents, first, refers⟩
  have later := occurs.later noCollisions good precedes
  exact mem_eligible.mpr ⟨later.inContents, later.first⟩

theorem Good.eligible_nodup (noCollisions : NoCollisions) (good : Good db) :
    (stgContents product db).Nodup ∧ (intRevisionHistory product db).Nodup := by
  obtain ⟨contentIds, transitionIds⟩ := good.ids noCollisions product
  constructor
  · refine List.Nodup.of_map (fun content : ContentRow => content.contentId) ?_
    rw [stgContents, good.eligible_eq]
    exact (List.filter_sublist.map _).nodup contentIds
  · refine List.Nodup.of_map HistoryRow.transitionId ?_
    have ids : (intRevisionHistory product db).map HistoryRow.transitionId =
        (stgStateTransitions product db).map (·.transitionId) := by
      rw [← good.history_single noCollisions, intRevisionHistory, List.map_map, List.map_map]
      rfl
    rw [ids, stgStateTransitions, good.eligible_eq]
    exact (List.filter_sublist.map _).nodup transitionIds

/-- **Later counts are not smaller.** -/
theorem Good.inspected_le (noCollisions : NoCollisions) (good : Good db) (good' : Good after)
    (precedes : Precedes db after) (request : Request) :
    inspectContents request db ≤ inspectContents request after ∧
      inspectTransitions request db ≤ inspectTransitions request after := by
  rw [good.inspectContents_eq noCollisions, good'.inspectContents_eq noCollisions,
    good.inspectTransitions_eq noCollisions, good'.inspectTransitions_eq noCollisions]
  obtain ⟨contents, history⟩ := good.eligible_nodup noCollisions
  constructor
  · refine (List.subperm_of_subset (contents.filter _) fun content member => ?_).length_le
    obtain ⟨inContents, covered⟩ := List.mem_filter.mp member
    exact List.mem_filter.mpr ⟨good.contents_kept noCollisions precedes inContents, covered⟩
  · refine (List.subperm_of_subset (history.filter _) fun state member => ?_).length_le
    obtain ⟨inHistory, covered⟩ := List.mem_filter.mp member
    exact List.mem_filter.mpr
      ⟨(good.extension noCollisions good' precedes request.product).kept inHistory, covered⟩

end Later

/-! ## The listed runs -/

/-- What the manifests of successful runs report in a column. -/
def reported (column : RunRow → Option Nat) (runs : List RunRow) : Nat :=
  ((runs.filter (·.status = .succeeded)).map fun run => (column run).getD 0).sum

omit [Platform] in
theorem reported_perm (column : RunRow → Option Nat) {runs runs' : List RunRow}
    (perm : runs.Perm runs') : reported column runs = reported column runs' :=
  ((perm.filter _).map _).sum_eq

/-- The runs of a request, in any order. -/
def requestRuns (request : Request) (db : Database) : List RunRow :=
  db.runs.filter fun run =>
    decide (run.requestedDate = request.day) && decide (run.requestId = request.requestId)

theorem Good.requestRuns_group (noCollisions : NoCollisions) (good : Good db) (request : Request) :
    Group db request.product request.day request.location (requestRuns request db) := by
  have bound : ∀ run ∈ db.runs, ∃ other : Request, run.requestId = other.requestId ∧
      run.product = other.product ∧ run.requestedDate = other.day ∧
        run.requestedLocation = other.location := by
    intro run member
    rcases id good with rfl | ⟨c, sound, _⟩
    · cases member
    · exact sound.bound run member
  refine ⟨fun run member => ?_, fun run at_run product day location => ?_,
    (List.filter_sublist.map _).nodup good.unique⟩
  · obtain ⟨at_run, holds⟩ := List.mem_filter.mp member
    rw [Bool.and_eq_true, decide_eq_true_eq, decide_eq_true_eq] at holds
    obtain ⟨other, requestId, product, day, location⟩ := bound run at_run
    obtain rfl := Request.requestId_injective noCollisions (requestId.symm.trans holds.2)
    exact ⟨at_run, product, day, location⟩
  · obtain ⟨other, requestId, product', day', location'⟩ := bound run at_run
    have same : other = request := by
      refine Request.eq_of_parts (product'.symm.trans product) (day'.symm.trans day) ?_
      rw [← location', location]
    refine List.mem_filter.mpr ⟨at_run, ?_⟩
    rw [Bool.and_eq_true, decide_eq_true_eq, decide_eq_true_eq]
    exact ⟨day, same ▸ requestId⟩

/-- **The manifests of a request report what is counted.** -/
theorem Good.reported_eq (noCollisions : NoCollisions) (good : Good db) (request : Request) :
    reported (·.newContents) (requestRuns request db) = inspectContents request db ∧
      reported (·.newTransitions) (requestRuns request db) = inspectTransitions request db := by
  have group := good.requestRuns_group noCollisions request
  have counts := fun run member => good.counts noCollisions (group.succeeded_member run member).1
    (by rw [(group.succeeded_member run member).2]; rfl)
  rw [good.inspectContents_eq noCollisions, good.inspectTransitions_eq noCollisions,
    ← group.contents noCollisions good, ← group.transitions noCollisions good]
  constructor
  · refine congrArg List.sum (List.map_congr_left fun run member => ?_)
    exact congrArg (·.getD 0) (counts run member).1
  · refine congrArg List.sum (List.map_congr_left fun run member => ?_)
    exact congrArg (·.getD 0) (counts run member).2.1

/-- What an inspection shows that counts at one time and lists the runs at another. -/
structure Inspected (request : Request) (limit : Int) (counted listed : Database) : Prop where
  contents : inspectContents request counted =
    (contentsOf request.product request.day request.location counted).length
  transitions : inspectTransitions request counted =
    (historyOf request.product request.day request.location counted).length
  grown : inspectContents request counted ≤ inspectContents request listed ∧
    inspectTransitions request counted ≤ inspectTransitions request listed
  few : (inspectRuns request limit listed).length ≤ 100
  newest : ∀ run ∈ requestRuns request listed, run ∈ inspectRuns request limit listed ∨
    (inspectRuns request limit listed).length = inspectLimit limit ∧
      ∀ shown ∈ inspectRuns request limit listed, run.startedAt ≤ shown.startedAt
  accounted : (inspectRuns request limit listed).length < inspectLimit limit →
    reported (·.newContents) (inspectRuns request limit listed) =
        inspectContents request listed ∧
      reported (·.newTransitions) (inspectRuns request limit listed) =
        inspectTransitions request listed

/-- **An inspection agrees with the tables.** The counts are those of the models at the time of the
first query and can only be smaller than at the time of the second. The list has at most one hundred
runs, a run that it leaves out is not newer than a listed one, and when it is not full, the new
contents and transitions of its successful runs add up to the counts at the time of the list. -/
theorem inspect_agrees (noCollisions : NoCollisions) {s s' : WarehouseSystem}
    (reachable : Reachable s) (run : SystemRun s s') (request : Request) (limit : Int) :
    Inspected request limit s.world.store s'.world.store := by
  obtain ⟨reachable', future⟩ := reachable.run run
  have good := reachable.orderly.good
  have good' := reachable'.orderly.good
  have perm := sortOn_perm (fun run : RunRow => OrderDual.toDual run.startedAt)
    (requestRuns request s'.world.store)
  have sorted := sortOn_sorted (fun run : RunRow => OrderDual.toDual run.startedAt)
    (requestRuns request s'.world.store)
  have isList : inspectRuns request limit s'.world.store =
      (sortOn (fun run => OrderDual.toDual run.startedAt)
        (requestRuns request s'.world.store)).take (inspectLimit limit) := rfl
  refine {
    contents := good.inspectContents_eq noCollisions request
    transitions := good.inspectTransitions_eq noCollisions request
    grown := good.inspected_le noCollisions good' future.before request
    few := ?few
    newest := ?newest
    accounted := ?accounted }
  case few =>
    have atMost : inspectLimit limit ≤ 100 := by
      unfold inspectLimit
      omega
    exact (isList ▸ List.length_take_le _ _).trans atMost
  case newest =>
    intro run member
    have listed := perm.mem_iff.mpr member
    rw [← List.take_append_drop (inspectLimit limit) (sortOn _ _)] at listed sorted
    rcases List.mem_append.mp listed with shown | left_out
    · exact .inl shown
    · refine .inr ⟨?_, fun shown at_shown => ?_⟩
      · rw [isList, List.length_take]
        have nonempty := List.length_pos_of_mem left_out
        rw [List.length_drop] at nonempty
        omega
      · exact (List.pairwise_append.mp sorted).2.2 shown at_shown run left_out
  case accounted =>
    intro notFull
    rw [isList, List.length_take] at notFull
    have whole : inspectRuns request limit s'.world.store =
        sortOn (fun run => OrderDual.toDual run.startedAt) (requestRuns request s'.world.store) :=
      isList.trans (List.take_of_length_le (by omega))
    rw [whole, reported_perm _ perm, reported_perm _ perm]
    exact good'.reported_eq noCollisions request

omit [Platform] in
/-- An inspection between whose reads a load was corrected back. -/
theorem inspect_agrees_sample :
    letI := Platform.plain
    ∃ s s' : WarehouseSystem,
      (∀ row ∈ s.world.store.runs, row.runId ≠ "3123456789abcdef0123456789abcdef") ∧
      Revised s'.world.store ∧ Inspected sampleRequest 5 s.world.store s'.world.store := by
  let _ := Platform.plain
  obtain ⟨_, _, s, s', first, accepted, before, after, run⟩ :=
    sampleHistory_replays (m := 3) (n := 4) (by omega)
  refine ⟨s, s', fun row member => ?_, after.revised noCollisions_plain accepted,
    inspect_agrees noCollisions_plain before.reachable run sampleRequest 5⟩
  obtain ⟨_, other, present, ofRun, _⟩ := before.runs row member
  have listed := List.mem_map_of_mem (f := (·.runId)) present
  rw [acceptAll_ids first, ofRun] at listed
  intro same
  rw [same] at listed
  revert listed
  decide

end PowerMarket
