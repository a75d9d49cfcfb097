import PowerMarket.Analytics.Builds
import PowerMarket.Analytics.Lineage
import PowerMarket.Orchestration.Plan
import PowerMarket.Retries
import PowerMarket.RunBinding
import PowerMarket.Warehouse.Batches

/-!
# Verification after a build

After the facts were built, a backfill counts the rows of its days and hubs in them and compares the
counts with the rows that its units accepted. The comparison raises no false alarm
(`verify_succeeds`): every row that a unit accepted, whether it was new or not, has its key in the
fact of its day and hub.
-/

set_option autoImplicit false

namespace PowerMarket

open Library JobService

/-! ## The query -/

/-- The column of a fact that the verification calls the hub. -/
def factHub (product : Product) (row : HistoryRow) : String :=
  match product with
  | .lmp => row.values.hub.getD ""
  | .load => ""

/-- A row of the bounded query: a market date and a hub with the numbers of rows, of keys and of
rows whose run has not succeeded. -/
structure BoundedCount where
  marketDate : Date
  hub : String
  n : Nat
  keys : Nat
  ineligible : Nat

/-- Whether a row of a fact lies in the days and, for prices, at the hubs. -/
def bounded (product : Product) (start stop : Date) (hubs : List String) (row : HistoryRow) :
    Bool :=
  start.ordinal ≤ row.marketDate.ordinal && row.marketDate.ordinal ≤ stop.ordinal &&
    (product ≠ .lmp || row.values.hub.any (· ∈ hubs))

/-- The counts of the groups of a fact, joined to the manifests. -/
def boundedCounts (product : Product) (fact : List HistoryRow) (runs : List RunRow)
    (start stop : Date) (hubs : List String) : List BoundedCount :=
  (groupBy (fun joined => (joined.1.marketDate, factHub product joined.1))
    ((leftJoin (fun row run => row.stateRunId = run.runId) fact runs).filter fun joined =>
      bounded product start stop hubs joined.1)).map fun group =>
    ⟨group.1.1, group.1.2, group.2.length, (group.2.map (·.1.logicalKey)).dedup.length,
      group.2.countP fun joined => joined.2.map (·.status) ≠ some .succeeded⟩

/-! ## The verification -/

/-- The label of a date, a product and a hub. -/
def coverageLabel (day : Date) (product hub : String) : String :=
  day.text ++ "/" ++ product ++ "/" ++ if hub = "" then "CAISO" else hub

/-- The names of the facts. -/
def factTable : Product → String
  | .lmp => "fct_hourly_lmp"
  | .load => "fct_system_load_5min"

/-- The counts by label. -/
abbrev RequestCounts := String → Option Nat

/-- The label of a row of the bounded query. -/
def BoundedCount.label (product : Product) (row : BoundedCount) : String :=
  coverageLabel row.marketDate product.text row.hub

/-- Keep the count of a row of the bounded query. -/
def keepCount (product : Product) (counts : RequestCounts) (row : BoundedCount) : RequestCounts :=
  Function.update counts (row.label product) (some row.n)

/-- Check one row of the bounded query and keep its count. -/
def countRow (product : Product) (counts : RequestCounts) (row : BoundedCount) :
    Except Exn RequestCounts :=
  if row.n ≠ row.keys ∨ row.ineligible ≠ 0 then
    .error (.new .warehouseError
      ("bounded analytical uniqueness/eligibility failed: " ++ factTable product))
  else .ok (keepCount product counts row)

/-- The exception of the client for a table that does not exist. -/
def tableNotFound (product : Product) : Exn :=
  ⟨⟨.googleApiCallError, "NotFound", factTable product⟩, []⟩

/-- The counts of the units of one product. -/
def verifyProduct (today : Date) (units : List IngestionUnit) (s : Analytics) (product : Product)
    (counts : RequestCounts) : Except Exn RequestCounts :=
  let selected := units.filter (·.product = product.text)
  match selected.head?, selected.getLast? with
  | some first, some last => do
    let fact ← (s.facts product).elim (.error (tableNotFound product)) .ok
    let start ← first.request today
    let stop ← last.request today
    (boundedCounts product fact.rows s.store.runs start.day stop.day
      (selected.map (·.location))).foldlM (countRow product) counts
  | _, _ => .ok counts

/-- Give a label without a count the count zero. -/
def setDefault (counts : RequestCounts) (label : String) : RequestCounts :=
  Function.update counts label (some ((counts label).getD 0))

/-- Compare the count of one unit with the rows that it accepted. -/
def checkResult (counts : RequestCounts) (result : IngestionResult) : Except Exn RequestCounts :=
  if (counts result.unit.label).getD 0 < result.acceptedRows then
    .error (.new .warehouseError
      ("accepted observations missing from facts: " ++ result.unit.label))
  else .ok (setDefault counts result.unit.label)

/-- Count the rows of the facts and compare the counts with the results of the units. The metrics of
the queries are left out. -/
def verify (today : Date) (units : List IngestionUnit) (results : List IngestionResult)
    (s : Analytics) : Except Exn RequestCounts := do
  let prices ← verifyProduct today units s .lmp fun _ => none
  let counts ← verifyProduct today units s .load prices
  results.foldlM checkResult counts

/-! ## Executed units -/

section Executed

variable [Platform]

/-- A process of the warehouse has executed a unit and returned a result. -/
def Executed (s : WarehouseSystem) (result : IngestionResult) : Prop :=
  ∃ i today unit history,
    s.processes i = some ⟨.executeUnit today unit, history, some (.done (.ok (.result result)))⟩

/-- **What an executed unit left.** Its run has succeeded, for the request of the unit, and accepted
as many rows as the result says. -/
structure Ingested (db : Database) (result : IngestionResult) (request : Request) (row : RunRow) :
    Prop where
  requested : Shows result.unit request
  member : row ∈ db.runs
  succeeded : row.status = .succeeded
  requestId : row.requestId = request.requestId
  accepted : row.rowsAccepted = some result.acceptedRows

/-- **The result of an executed unit** is that of a run that has succeeded. -/
theorem Reachable.ingested {s : WarehouseSystem} (reachable : Reachable s)
    {result : IngestionResult} (executed : Executed s result) :
    ∃ request row, Ingested s.world.store result request row := by
  obtain ⟨i, today, unit, history, at_i⟩ := executed
  have orderly := reachable.orderly
  obtain ⟨clock, run⟩ := reachable
  have initial : Reachable (System.initial (Cloud.created clock)) := ⟨clock, .refl⟩
  obtain ⟨_, ended, _, known, same⟩ := initial.unitEnded rfl run at_i
  have bound : ∃ request, unit.request today = .ok request ∧ BoundTo request unit.runId s.world := by
    have mapped : Launch.start (.executeUnit today unit) =
        executeUnit today unit >>= fun r => return .result r := rfl
    have safe : (protocol.accepting fun _ _ => True).Safe (fun _ _ => True)
        (fun result v => ∀ r, result = .ok r →
          ∃ request, unit.request today = .ok request ∧ BoundTo request unit.runId v)
        (.done (.ok (Returned.result result))) s.world := by
      refine initial.launched_safe rfl run at_i rfl fun w _ _ => ?_
      rw [mapped]
      refine Protocol.Safe.sequence executeUnit_bound fun ended v _ _ bound => ?_
      cases ended with
      | error e => exact .done fun _ _ _ _ impossible => by cases impossible
      | ok r =>
          refine .done fun v' later _ _ _ => ?_
          obtain ⟨request, requested, isBound⟩ := bound r rfl
          exact ⟨request, requested, isBound.mono later⟩
    exact safe s.world (.refl _) orderly _ rfl
  cases ended with
  | error e => cases same
  | ok r =>
      cases same
      obtain ⟨rfl, _, ⟨row, succeeded, reports⟩, _⟩ := known.returned _ rfl
      obtain ⟨request, requested, row', member', ofRun', requestId⟩ := bound
      obtain rfl := run_unique orderly.good.unique member' succeeded.member
        (ofRun'.trans succeeded.ofRun.symm)
      exact ⟨request, row', Shows.of_request requested, succeeded.member, succeeded.status,
        requestId, reports.accepted⟩

end Executed

/-! ## Accepted rows -/

section Accepted

variable [Platform] {db : Database} {product : Product} {fact : List HistoryRow}

/-- The rows of a fact for a date and a hub. -/
def dayRows (fact : List HistoryRow) (day : Date) (hub : Option String) : List HistoryRow :=
  fact.filter fun row => row.marketDate = day && row.values.hub = hub

/-- **A transition that is not newer than that of a run that has succeeded** is of a run that has
succeeded. -/
theorem Good.eligible_before (good : Good db) {row : RunRow} (member : row ∈ db.runs)
    (succeeded : row.status = .succeeded) {number : Nat} (numbered : row.commitSequence = some number)
    {transition : TransitionRow} (inTable : transition ∈ db.transitions product)
    (atMost : transition.commitSequence ≤ number) : EligibleRun db transition.runId := by
  have seeded : db ≠ .created := by
    rintro rfl
    cases member
  obtain ⟨c, sound, _⟩ := good.resolve_left seeded
  obtain ⟨owner, wrote, ofRun, ofOwner, _⟩ := sound.transitions product transition inTable
  refine ⟨owner, wrote.member, ofRun, ?_⟩
  refine (Status.hasCommitted_iff.mp wrote.committed).resolve_left fun committed => ?_
  -- Only the newest run is committed and not finalized, so the run would be the newest.
  have isCommitted : row.status.hasCommitted = true := by rw [succeeded]; rfl
  have newest := sound.newest owner wrote.member committed
  obtain ⟨n, below, numbered'⟩ := sound.numbered row member isCommitted
  have first := Option.some.inj (ofOwner.symm.trans newest)
  have second := Option.some.inj (numbered.symm.trans numbered')
  have numbers : row.commitSequence = owner.commitSequence := by
    rw [numbered, newest]
    exact congrArg some (by omega)
  have same := sound.distinct row member owner wrote.member isCommitted wrote.committed numbers
  rw [same, committed] at succeeded
  cases succeeded

/-- **Every row that a run accepted** has its key in the fact of its day and hub. -/
theorem CurrentFacts.accepted (noCollisions : NoCollisions) (good : Good db)
    (facts : CurrentFacts product db fact) {row : RunRow} (member : row ∈ db.runs)
    (succeeded : row.status = .succeeded) {request : Request} (ofProduct : request.product = product)
    {records : List Observation} {batch : List BatchRow}
    (landed : Landed db row request records batch) :
    batch.length ≤ (dayRows fact request.day (request.location.map Hub.text)).length := by
  subst ofProduct
  have accepted := batchRows_spec landed.batched
  have keys : batch.map (·.logicalKey) ⊆
      (dayRows fact request.day (request.location.map Hub.text)).map (·.logicalKey) := by
    intro key inBatch
    obtain ⟨batchRow, at_row, rfl⟩ := List.mem_map.mp inBatch
    obtain ⟨record, at_record, rfl⟩ := List.mem_map.mp (accepted.perm.mem_iff.mp at_row)
    obtain ⟨transition, inTable, key, number, numbered, atMost⟩ := landed.stated _ at_row
    have eligible := good.eligible_before member succeeded numbered inTable atMost
    obtain ⟨current, inFact, ofKey⟩ := facts.complete transition inTable eligible
    refine List.mem_map.mpr ⟨current, List.mem_filter.mpr ⟨inFact, ?_⟩, ofKey.trans key⟩
    obtain ⟨transition', content, request', record', _, _, rfl, traced⟩ :=
      facts.traced noCollisions good inFact
    have isRow := traced.row
    have keys : record'.logicalKey = record.logicalKey :=
      (congrArg BatchRow.logicalKey isRow).symm.trans (ofKey.trans key)
    have admissible := accepted.admissible record at_record
    have day := traced.admissible.day_eq noCollisions admissible keys
    rw [Bool.and_eq_true, decide_eq_true_eq, decide_eq_true_eq]
    constructor
    · exact (congrArg BatchRow.marketDate isRow).trans day
    · have values : content.values = valuesOf record' := congrArg BatchRow.values isRow
      rw [← hub_of_admissible admissible, ← hub_of_key noCollisions keys, ← values]
      rfl
  have within := (List.subperm_of_subset accepted.distinct keys).length_le
  rwa [List.length_map, List.length_map] at within

/-- **An executed unit accepted at most as many rows** as the fact has for its day and hub. -/
theorem CurrentFacts.ingested (noCollisions : NoCollisions) (good : Good db)
    (facts : CurrentFacts product db fact) {result : IngestionResult} {request : Request}
    {row : RunRow} (ingested : Ingested db result request row)
    (ofProduct : request.product = product) :
    result.acceptedRows ≤ (dayRows fact request.day (request.location.map Hub.text)).length := by
  obtain ⟨request', records, batch, landed⟩ :=
    good.landed noCollisions ingested.member (by rw [ingested.succeeded]; rfl)
  obtain rfl := Request.requestId_injective noCollisions
    (landed.requestId.symm.trans ingested.requestId)
  have counted := Option.some.inj (ingested.accepted.symm.trans landed.rowsAccepted)
  rw [counted]
  exact facts.accepted noCollisions good ingested.member ingested.succeeded ofProduct landed

end Accepted

/-! ## The counts of the query -/

section Counts

variable [Platform] {db : Database} {product : Product} {fact : List HistoryRow}
  {start stop : Date} {hubs : List String} {counted : BoundedCount}

theorem CurrentFacts.run (good : Good db) (facts : CurrentFacts product db fact) {row : HistoryRow}
    (member : row ∈ fact) : ∃ run, db.runs.filter (fun run => row.stateRunId = run.runId) = [run] ∧
      run.status = .succeeded := by
  obtain ⟨transition, content, occurs, rfl, _⟩ := facts.rows row member
  obtain ⟨run, at_run, ofRun, succeeded⟩ := occurs.run
  refine ⟨run, ?_, succeeded⟩
  rw [← runRows_eq good.unique at_run, runRows]
  refine List.filter_congr fun other _ => ?_
  rw [ofRun]
  exact decide_eq_decide.mpr eq_comm

/-- What the query counts in one group. -/
structure CountsGroup (product : Product) (fact : List HistoryRow) (start stop : Date)
    (hubs : List String) (counted : BoundedCount) : Prop where
  n : counted.n = ((fact.filter (bounded product start stop hubs)).filter fun row =>
    (row.marketDate, factHub product row) = (counted.marketDate, counted.hub)).length
  unique : counted.n = counted.keys
  eligible : counted.ineligible = 0
  occurs : ∃ row ∈ fact, bounded product start stop hubs row = true ∧
    row.marketDate = counted.marketDate ∧ factHub product row = counted.hub

/-- The joined rows of a fact are its rows. -/
theorem CurrentFacts.joined (good : Good db) (facts : CurrentFacts product db fact)
    (keep : HistoryRow → Bool) :
    ((leftJoin (fun row run => row.stateRunId = run.runId) fact db.runs).filter fun joined =>
      keep joined.1).map Prod.fst = fact.filter keep := by
  have single : ∀ row ∈ fact, ∃ run,
      db.runs.filter (fun run => row.stateRunId = run.runId) = [run] := by
    intro row member
    obtain ⟨run, only, _⟩ := facts.run good member
    exact ⟨run, only⟩
  conv_rhs => rw [← leftJoin_single single, List.filter_map]
  rfl

/-- **The query counts the rows of each group**, finds their keys different and their runs
successful. -/
theorem CurrentFacts.counts (good : Good db) (facts : CurrentFacts product db fact)
    (member : counted ∈ boundedCounts product fact db.runs start stop hubs) :
    CountsGroup product fact start stop hubs counted := by
  obtain ⟨⟨⟨day, hub⟩, group⟩, at_group, rfl⟩ := List.mem_map.mp member
  obtain ⟨occurs, isGroup⟩ := mem_groupBy.mp at_group
  have rows : group.map Prod.fst = (fact.filter (bounded product start stop hubs)).filter fun row =>
      (row.marketDate, factHub product row) = (day, hub) := by
    rw [isGroup, List.filter_filter, List.filter_filter]
    exact facts.joined good fun row => decide ((row.marketDate, factHub product row) = (day, hub)) &&
      bounded product start stop hubs row
  have length := congrArg List.length rows
  rw [List.length_map] at length
  refine ⟨length, ?_, ?_, ?_⟩
  · have keys : (group.map (·.1.logicalKey)).Nodup := by
      have mapped : group.map (·.1.logicalKey) = (group.map Prod.fst).map (·.logicalKey) := by
        rw [List.map_map]
        rfl
      rw [mapped, rows]
      exact facts.keys.sublist ((List.filter_sublist.trans List.filter_sublist).map _)
    dsimp only
    rw [keys.dedup, List.length_map]
  · refine List.countP_eq_zero.mpr fun joined inGroup => ?_
    rw [isGroup] at inGroup
    have inJoin := List.mem_of_mem_filter (List.mem_of_mem_filter inGroup)
    obtain ⟨row, found⟩ := joined
    obtain ⟨run, only, succeeded⟩ := facts.run good (leftJoin_left inJoin)
    obtain ⟨inRuns, ofRun⟩ := List.mem_filter.mp (only ▸ List.mem_singleton_self run)
    obtain ⟨_, run', inRuns', ofRun', rfl⟩ := leftJoin_matched inJoin ⟨run, inRuns, ofRun⟩
    have same : run' ∈ db.runs.filter fun run => row.stateRunId = run.runId :=
      List.mem_filter.mpr ⟨inRuns', ofRun'⟩
    rw [only, List.mem_singleton] at same
    simp [same, succeeded]
  · obtain ⟨⟨row, found⟩, inJoin, same⟩ := List.mem_map.mp occurs
    obtain ⟨inJoin, isBounded⟩ := List.mem_filter.mp inJoin
    obtain ⟨ofDay, ofHub⟩ := Prod.mk.inj same
    exact ⟨row, leftJoin_left inJoin, isBounded, ofDay, ofHub⟩

/-- **The query has a group** for every row of the fact in its bounds. -/
theorem CurrentFacts.group_counted (good : Good db) (facts : CurrentFacts product db fact)
    {row : HistoryRow} (member : row ∈ fact) (isBounded : bounded product start stop hubs row = true) :
    ∃ counted ∈ boundedCounts product fact db.runs start stop hubs,
      counted.marketDate = row.marketDate ∧ counted.hub = factHub product row := by
  have kept : row ∈ ((leftJoin (fun row run => row.stateRunId = run.runId) fact db.runs).filter
      fun joined => bounded product start stop hubs joined.1).map Prod.fst := by
    rw [facts.joined good]
    exact List.mem_filter.mpr ⟨member, isBounded⟩
  obtain ⟨joined, inJoin, rfl⟩ := List.mem_map.mp kept
  exact ⟨_, List.mem_map.mpr ⟨_, mem_groupBy.mpr
    ⟨List.mem_map.mpr ⟨joined, inJoin, rfl⟩, rfl⟩, rfl⟩, rfl, rfl⟩

end Counts

/-! ## Labels and counts -/

/-- **A label determines its date and its product**, and the hub unless it is missing. -/
theorem coverageLabel_injective {day day' : Date} {product product' : Product} {hub hub' : String}
    (same : coverageLabel day product.text hub = coverageLabel day' product'.text hub') :
    day = day' ∧ product = product' ∧
      (if hub = "" then "CAISO" else hub) = if hub' = "" then "CAISO" else hub' := by
  have chars := congrArg String.toList same
  simp only [coverageLabel, String.toList_append, List.append_assoc, Date.text,
    String.toList_ofList] at chars
  obtain ⟨dates, rest⟩ := List.append_inj chars (by simp only [dateChars_length])
  have days : day = day' := Date.text_injective (congrArg String.ofList dates)
  refine ⟨days, ?_⟩
  cases product <;> cases product'
  case lmp.lmp | load.load =>
    exact ⟨rfl, String.toList_injective (List.append_cancel_left (List.append_cancel_left
      (List.append_cancel_left rest)))⟩
  all_goals simp [Product.text] at rest

section Folds

variable {product : Product} {rows : List BoundedCount} {label : String}

/-- The count of a label is that of a row with the label. -/
theorem counts_atLeast (least : Nat)
    (atLeast : ∀ row ∈ rows, row.label product = label → least ≤ row.n)
    (found : ∃ row ∈ rows, row.label product = label) (counts : RequestCounts) :
    ∃ n, rows.foldl (keepCount product) counts label = some n ∧ least ≤ n := by
  induction rows using List.reverseRecOn with
  | nil =>
      obtain ⟨_, impossible, _⟩ := found
      cases impossible
  | append_singleton rows last ih =>
      rw [List.foldl_append, List.foldl_cons, List.foldl_nil, keepCount]
      by_cases isLast : label = last.label product
      · rw [isLast, Function.update_self]
        exact ⟨last.n, rfl,
          atLeast last (List.mem_append_right _ (List.mem_singleton_self last)) isLast.symm⟩
      · rw [Function.update_of_ne isLast]
        refine ih (fun row member => atLeast row (List.mem_append_left _ member)) ?_
        obtain ⟨row, member, labelled⟩ := found
        rcases List.mem_append.mp member with inRows | inLast
        · exact ⟨row, inRows, labelled⟩
        · rw [List.mem_singleton.mp inLast] at labelled
          exact absurd labelled.symm isLast

theorem counts_other (others : ∀ row ∈ rows, row.label product ≠ label) (counts : RequestCounts) :
    rows.foldl (keepCount product) counts label = counts label := by
  induction rows generalizing counts with
  | nil => rfl
  | cons row rows ih =>
      have differs := others row List.mem_cons_self
      rw [List.foldl_cons, ih (fun row' member => others row' (List.mem_cons_of_mem row member)),
        keepCount, Function.update_of_ne differs.symm]

theorem setDefault_getD (counts : RequestCounts) (label label' : String) :
    (setDefault counts label label').getD 0 = (counts label').getD 0 := by
  rw [setDefault]
  by_cases here : label' = label
  · rw [here, Function.update_self, Option.getD_some]
  · rw [Function.update_of_ne here]

theorem setDefault_isSome (counts : RequestCounts) (label label' : String) :
    (setDefault counts label label').isSome = true ↔
      label' = label ∨ (counts label').isSome = true := by
  rw [setDefault]
  by_cases here : label' = label
  · rw [here, Function.update_self]
    exact ⟨fun _ => .inl rfl, fun _ => rfl⟩
  · rw [Function.update_of_ne here]
    exact ⟨.inr, fun either => either.resolve_left here⟩

/-- **Results that are covered pass the check.** Their labels are counted afterwards, and the counts
stay as they are. -/
theorem checkResults_ok {results : List IngestionResult} {counts : RequestCounts}
    (covered : ∀ r ∈ results, r.acceptedRows ≤ (counts r.unit.label).getD 0) :
    ∃ counts', results.foldlM checkResult counts = .ok counts' ∧
      (∀ label, (counts' label).getD 0 = (counts label).getD 0) ∧
      (∀ label, (counts label).isSome = true → (counts' label).isSome = true) ∧
      ∀ r ∈ results, (counts' r.unit.label).isSome = true := by
  induction results generalizing counts with
  | nil =>
      exact ⟨counts, rfl, fun _ => rfl, fun _ isSome => isSome,
        fun _ impossible => by cases impossible⟩
  | cons r results ih =>
      have passes : checkResult counts r = .ok (setDefault counts r.unit.label) :=
        if_neg (not_lt.mpr (covered r List.mem_cons_self))
      have rest : ∀ r' ∈ results,
          r'.acceptedRows ≤ (setDefault counts r.unit.label r'.unit.label).getD 0 := by
        intro r' member
        rw [setDefault_getD]
        exact covered r' (List.mem_cons_of_mem r member)
      obtain ⟨counts', checked, stays, kept, labelled⟩ := ih rest
      refine ⟨counts', ?_, fun label => ?_, fun label isSome => ?_, fun r' member => ?_⟩
      · rw [List.foldlM_cons, passes]
        exact checked
      · rw [stays, setDefault_getD]
      · exact kept label ((setDefault_isSome ..).mpr (.inr isSome))
      · rcases List.mem_cons.mp member with rfl | member
        · exact kept _ ((setDefault_isSome ..).mpr (.inl rfl))
        · exact labelled r' member

end Folds

/-! ## No false alarm -/

section Verify

variable [Platform] {db : Database} {product : Product} {fact : List HistoryRow}
  {units : List IngestionUnit} {first last : IngestionUnit}

omit [Platform] in
/-- The units of a product lie between its first and its last one. -/
theorem selected_between (sorted : units.Pairwise fun a b => a.day.ordinal ≤ b.day.ordinal)
    (isFirst : units.head? = some first) (isLast : units.getLast? = some last)
    {unit : IngestionUnit} (member : unit ∈ units) :
    first.day.ordinal ≤ unit.day.ordinal ∧ unit.day.ordinal ≤ last.day.ordinal := by
  constructor
  · obtain ⟨rest, rfl⟩ := List.head?_eq_some_iff.mp isFirst
    rcases List.mem_cons.mp member with rfl | inRest
    · exact le_rfl
    · exact (List.pairwise_cons.mp sorted).1 unit inRest
  · obtain ⟨init, rfl⟩ := List.getLast?_eq_some_iff.mp isLast
    rcases List.mem_append.mp member with inInit | inLast
    · exact (List.pairwise_append.mp sorted).2.2 unit inInit last (List.mem_singleton_self last)
    · rw [List.mem_singleton.mp inLast]

omit [Platform] in
theorem Shows.location_ne {unit : IngestionUnit} {request : Request} (isShown : Shows unit request)
    (isLmp : request.product = .lmp) :
    request.location.map Hub.text = some unit.location ∧ unit.location ≠ "" := by
  obtain ⟨hub, isHub⟩ := Option.isSome_iff_exists.mp (request.supported.mpr isLmp)
  have named := isShown.location
  rw [isHub] at named ⊢
  rw [named]
  exact ⟨rfl, by cases hub <;> decide⟩

omit [Platform] in
theorem Shows.location_load {unit : IngestionUnit} {request : Request}
    (isShown : Shows unit request) (isLoad : request.product = .load) :
    request.location = none ∧ unit.location = "" := by
  have unlocated : request.location = none := by
    cases location : request.location with
    | none => rfl
    | some hub =>
        have isLmp := request.supported.mp (by rw [location]; rfl)
        rw [isLoad] at isLmp
        cases isLmp
  have named := isShown.location
  rw [unlocated] at named
  exact ⟨unlocated, named⟩

/-- The group of a unit in the bounds of the selected units. -/
structure InGroup (product : Product) (fact : List HistoryRow) (selected : List IngestionUnit)
    (start stop : Date) (unit : IngestionUnit) (request : Request) : Prop where
  rows : ∀ row ∈ dayRows fact request.day (request.location.map Hub.text),
    bounded product start stop (selected.map (·.location)) row = true ∧
      row.marketDate = unit.day ∧ factHub product row = unit.location
  hub : ∀ row, bounded product start stop (selected.map (·.location)) row = true →
    ((if factHub product row = "" then "CAISO" else factHub product row) =
      if unit.location = "" then "CAISO" else unit.location) →
    factHub product row = unit.location

omit [Platform] in
/-- The rows of the day and hub of a selected unit make up one group. -/
theorem selected_inGroup {selected : List IngestionUnit} {start stop : Date}
    (located : ∀ unit ∈ selected, ∃ request, Shows unit request ∧ request.product = product)
    {unit : IngestionUnit} (member : unit ∈ selected) {request : Request}
    (isShown : Shows unit request) (ofProduct : request.product = product)
    (after : start.ordinal ≤ unit.day.ordinal) (before : unit.day.ordinal ≤ stop.ordinal) :
    InGroup product fact selected start stop unit request := by
  have ofDay : ∀ row ∈ dayRows fact request.day (request.location.map Hub.text),
      row.marketDate = unit.day ∧ row.values.hub = request.location.map Hub.text := by
    intro row inRows
    have at_row := (List.mem_filter.mp inRows).2
    rw [Bool.and_eq_true, decide_eq_true_eq, decide_eq_true_eq] at at_row
    exact ⟨at_row.1.trans isShown.day, at_row.2⟩
  cases product with
  | lmp =>
      obtain ⟨isHub, named⟩ := isShown.location_ne ofProduct
      constructor
      · intro row inRows
        obtain ⟨day, hub⟩ := ofDay row inRows
        rw [isHub] at hub
        refine ⟨?_, day, by rw [factHub, hub]; rfl⟩
        have inHubs : ∃ other ∈ selected, other.location = unit.location := ⟨unit, member, rfl⟩
        simp [bounded, day, hub, after, before, inHubs]
      · intro row isBounded same
        rw [if_neg named] at same
        simp only [bounded, Bool.and_eq_true, Bool.or_eq_true, decide_eq_true_eq, ne_eq,
          not_true_eq_false, decide_false, Bool.false_eq_true, false_or] at isBounded
        obtain ⟨hub, isHub', inHubs⟩ := (Option.any_eq_true ..).mp isBounded.2
        obtain ⟨other, inSelected, rfl⟩ := List.mem_map.mp (of_decide_eq_true inHubs)
        obtain ⟨request', isShown', ofProduct'⟩ := located other inSelected
        rw [factHub, isHub', Option.getD_some, if_neg (isShown'.location_ne ofProduct').2] at same
        rw [factHub, isHub', Option.getD_some, same]
  | load =>
      obtain ⟨_, unnamed⟩ := isShown.location_load ofProduct
      constructor
      · intro row inRows
        obtain ⟨day, hub⟩ := ofDay row inRows
        refine ⟨?_, day, by rw [factHub, unnamed]⟩
        simp [bounded, day, after, before]
      · intro row _ _
        rw [factHub, unnamed]

section Groups

variable {selected : List IngestionUnit} {start stop : Date} {unit : IngestionUnit}
  {request : Request}

omit [Platform] in
theorem Shows.label (isShown : Shows unit request) (ofProduct : request.product = product) :
    unit.label = coverageLabel unit.day product.text unit.location := by
  rw [IngestionUnit.label, ← isShown.product, ofProduct]
  rfl

/-- A group with the label of a unit has all rows of its day and hub. -/
theorem CurrentFacts.group_rows (good : Good db) (facts : CurrentFacts product db fact)
    (group : InGroup product fact selected start stop unit request)
    (isShown : Shows unit request) (ofProduct : request.product = product) {counted : BoundedCount}
    (inCounts : counted ∈ boundedCounts product fact db.runs start stop
      (selected.map (·.location))) (labelled : counted.label product = unit.label) :
    (dayRows fact request.day (request.location.map Hub.text)).length ≤ counted.n := by
  have counts := facts.counts good inCounts
  rw [isShown.label ofProduct] at labelled
  obtain ⟨day, _, hubs⟩ := coverageLabel_injective labelled
  obtain ⟨row, _, isBounded, _, ofHub⟩ := counts.occurs
  rw [← ofHub] at hubs
  have hub := ofHub.symm.trans (group.hub row isBounded hubs)
  rw [counts.n, List.filter_filter, day, hub, dayRows, ← List.countP_eq_length_filter,
    ← List.countP_eq_length_filter]
  refine List.countP_mono_left fun row inFact at_row => ?_
  obtain ⟨isBounded, ofDay, ofHub⟩ := group.rows row (List.mem_filter.mpr ⟨inFact, at_row⟩)
  rw [ofDay, ofHub, isBounded]
  simp

/-- A row of the day and hub of a unit is in a group with its label. -/
theorem CurrentFacts.group_exists (good : Good db) (facts : CurrentFacts product db fact)
    (group : InGroup product fact selected start stop unit request)
    (isShown : Shows unit request) (ofProduct : request.product = product) {row : HistoryRow}
    (inRows : row ∈ dayRows fact request.day (request.location.map Hub.text)) :
    ∃ counted ∈ boundedCounts product fact db.runs start stop (selected.map (·.location)),
      counted.label product = unit.label := by
  obtain ⟨isBounded, day, hub⟩ := group.rows row inRows
  obtain ⟨counted, inCounts, ofDay, ofHub⟩ :=
    facts.group_counted good (List.mem_of_mem_filter inRows) isBounded
  refine ⟨counted, inCounts, ?_⟩
  rw [isShown.label ofProduct, BoundedCount.label, ofDay, ofHub, day, hub]

/-- **The counts of one product** pass the checks. The label of each unit counts at least as many
rows as the fact has for its day and hub, and the labels of the other product stay as they are. -/
theorem CurrentFacts.verified (good : Good db) (facts : CurrentFacts product db fact)
    (located : ∀ unit ∈ selected, ∃ request, Shows unit request ∧ request.product = product)
    (within : ∀ unit ∈ selected, start.ordinal ≤ unit.day.ordinal ∧
      unit.day.ordinal ≤ stop.ordinal) (counts : RequestCounts) :
    ∃ counts', (boundedCounts product fact db.runs start stop
        (selected.map (·.location))).foldlM (countRow product) counts = .ok counts' ∧
      (∀ label, (∀ day hub, label ≠ coverageLabel day product.text hub) →
        counts' label = counts label) ∧
      ∀ unit ∈ selected, ∀ request, Shows unit request → request.product = product →
        (dayRows fact request.day (request.location.map Hub.text)).length ≤
          (counts' unit.label).getD 0 := by
  have passes : ∀ counted ∈ boundedCounts product fact db.runs start stop
      (selected.map (·.location)), ∀ counts, countRow product counts counted =
        .ok (keepCount product counts counted) := by
    intro counted member counts
    have group := facts.counts good member
    refine if_neg ?_
    rintro (differs | ineligible)
    · exact differs group.unique
    · exact ineligible group.eligible
  refine ⟨_, foldlM_ok passes counts, ?_, ?_⟩
  · intro label other
    exact counts_other (fun counted _ => (other counted.marketDate counted.hub).symm) counts
  · intro unit member request isShown ofProduct
    obtain ⟨after, before⟩ := within unit member
    have group : InGroup product fact selected start stop unit request :=
      selected_inGroup located member isShown ofProduct after before
    rcases Nat.eq_zero_or_pos (dayRows fact request.day (request.location.map Hub.text)).length with
      empty | nonempty
    · rw [empty]
      exact Nat.zero_le _
    · obtain ⟨row, inRows⟩ := List.exists_mem_of_length_pos nonempty
      obtain ⟨n, isCounted, atLeast⟩ := counts_atLeast _
        (fun counted inCounts => facts.group_rows good group isShown ofProduct inCounts)
        (facts.group_exists good group isShown ofProduct inRows) counts
      rw [isCounted]
      exact atLeast

end Groups

/-- **The verification of one product** passes. -/
theorem verifyProduct_ok {s : Analytics} (good : Good s.store) {table : FactTable}
    (at_table : s.facts product = some table) (facts : CurrentFacts product s.store table.rows)
    {today : Date}
    (shown : ∀ unit ∈ units, unit.day.ordinal < today.ordinal ∧ ∃ request, Shows unit request)
    (sorted : units.Pairwise fun a b => a.day.ordinal ≤ b.day.ordinal) (counts : RequestCounts) :
    ∃ counts', verifyProduct today units s product counts = .ok counts' ∧
      (∀ label, (∀ day hub, label ≠ coverageLabel day product.text hub) →
        counts' label = counts label) ∧
      ∀ unit ∈ units, ∀ request, Shows unit request → request.product = product →
        (dayRows table.rows request.day (request.location.map Hub.text)).length ≤
          (counts' unit.label).getD 0 := by
  have isSelected : ∀ unit ∈ units, ∀ request, Shows unit request → request.product = product →
      unit ∈ units.filter (·.product = product.text) := by
    intro unit member request isShown ofProduct
    refine List.mem_filter.mpr ⟨member, decide_eq_true ?_⟩
    rw [← isShown.product, ofProduct]
  have located : ∀ unit ∈ units.filter (·.product = product.text),
      ∃ request, Shows unit request ∧ request.product = product := by
    intro unit member
    obtain ⟨inUnits, named⟩ := List.mem_filter.mp member
    obtain ⟨_, request, isShown⟩ := shown unit inUnits
    exact ⟨request, isShown,
      Product.text_injective (isShown.product.trans (of_decide_eq_true named))⟩
  have requested : ∀ unit ∈ units.filter (·.product = product.text),
      ∃ request, unit.request today = .ok request ∧ request.day = unit.day := by
    intro unit member
    obtain ⟨request, isShown, _⟩ := located unit member
    exact ⟨request, isShown.request (shown unit (List.mem_of_mem_filter member)).1, isShown.day⟩
  rcases selected : units.filter (·.product = product.text) with _ | ⟨head, tail⟩
  · refine ⟨counts, ?_, fun _ _ => rfl, fun unit member request isShown ofProduct => ?_⟩
    · dsimp only [verifyProduct]
      rw [selected]
      rfl
    · have impossible := isSelected unit member request isShown ofProduct
      rw [selected] at impossible
      cases impossible
  · obtain ⟨last, isLast⟩ : ∃ last, (units.filter (·.product = product.text)).getLast? = some last :=
      Option.isSome_iff_exists.mp (by rw [selected]; rfl)
    have isFirst : (units.filter (·.product = product.text)).head? = some head := by
      rw [selected]
      rfl
    obtain ⟨start, isStart, startDay⟩ := requested head (List.mem_of_head? isFirst)
    obtain ⟨stop, isStop, stopDay⟩ := requested last (List.mem_of_getLast? isLast)
    have within : ∀ unit ∈ units.filter (·.product = product.text),
        start.day.ordinal ≤ unit.day.ordinal ∧ unit.day.ordinal ≤ stop.day.ordinal := by
      intro unit member
      rw [startDay, stopDay]
      exact selected_between (sorted.filter _) isFirst isLast member
    obtain ⟨counts', passed, others, covered⟩ := facts.verified good located within counts
    refine ⟨counts', ?_, others, fun unit member request isShown ofProduct =>
      covered unit (isSelected unit member request isShown ofProduct) request isShown ofProduct⟩
    dsimp only [verifyProduct]
    rw [isFirst, isLast]
    dsimp only
    rw [at_table, isStart, isStop]
    exact passed

/-- **The verification raises no false alarm.** After both facts were built and nothing was written
since, the verification of a plan with results of its units passes and counts, for every unit with a
result, at least the rows that the result says were accepted. -/
theorem verify_succeeds (noCollisions : NoCollisions) {uuid5 : String → String → String}
    {planned today : Date} {spec : Backfill} (expanded : expand uuid5 planned spec = .ok units)
    (later : planned.ordinal ≤ today.ordinal) {s : Analytics} (reachable : AnalyticsReachable s)
    (built : ∀ product, ∃ table, s.facts product = some table ∧ table.readPoint = s.store)
    {results : List IngestionResult}
    (executed : ∀ r ∈ results, r.unit ∈ units ∧ Executed s.warehouse r) :
    ∃ counts, verify today units results s = .ok counts ∧
      ∀ r ∈ results, ∃ n, counts r.unit.label = some n ∧ r.acceptedRows ≤ n := by
  have good := (reachable.orderly noCollisions).good
  have current : ∀ product, ∃ table, s.facts product = some table ∧
      CurrentFacts product s.store table.rows := by
    intro product
    obtain ⟨table, at_table, still⟩ := built product
    exact ⟨table, at_table, still ▸ (reachable.refreshed noCollisions at_table).current⟩
  have shown : ∀ unit ∈ units, unit.day.ordinal < today.ordinal ∧ ∃ request, Shows unit request :=
    fun unit member =>
      ⟨(expand_units expanded unit member).1.trans_le later, (expand_units expanded unit member).2⟩
  have sorted := expand_sorted expanded
  obtain ⟨lmp, at_lmp, lmpFacts⟩ := current .lmp
  obtain ⟨load, at_load, loadFacts⟩ := current .load
  obtain ⟨prices, pricesOk, _, pricesCover⟩ :=
    verifyProduct_ok good at_lmp lmpFacts shown sorted fun _ => none
  obtain ⟨counts, countsOk, others, loadCover⟩ :=
    verifyProduct_ok good at_load loadFacts shown sorted prices
  have covered : ∀ r ∈ results, r.acceptedRows ≤ (counts r.unit.label).getD 0 := by
    intro r member
    obtain ⟨inUnits, isExecuted⟩ := executed r member
    obtain ⟨request, row, ingested⟩ :=
      (reachable.maintained noCollisions).reachable.ingested isExecuted
    have isShown := ingested.requested
    cases product : request.product with
    | lmp =>
        have other : counts r.unit.label = prices r.unit.label := by
          refine others _ fun day hub same => ?_
          rw [isShown.label product] at same
          cases (coverageLabel_injective same).2.1
        rw [other]
        exact (lmpFacts.ingested noCollisions good ingested product).trans
          (pricesCover _ inUnits request isShown product)
    | load =>
        exact (loadFacts.ingested noCollisions good ingested product).trans
          (loadCover _ inUnits request isShown product)
  obtain ⟨counts', checked, stays, _, labelled⟩ := checkResults_ok covered
  refine ⟨counts', ?_, fun r member => ?_⟩
  · rw [verify, pricesOk]
    dsimp only [bind, Except.bind]
    rw [countsOk]
    exact checked
  · obtain ⟨n, isCounted⟩ := Option.isSome_iff_exists.mp (labelled r member)
    have atLeast := covered r member
    rw [← stays, isCounted, Option.getD_some] at atLeast
    exact ⟨n, isCounted, atLeast⟩

end Verify

/-! ## A small backfill -/

section Sample

variable [Platform]

/-- A warehouse whose two facts were built once. -/
def WarehouseSystem.builtBoth (warehouse : WarehouseSystem) : Analytics :=
  ((warehouse.built .lmp).select .load false).write .load
    ((warehouse.built .lmp).selection .load false)

theorem Reachable.builtBoth {warehouse : WarehouseSystem} (reachable : Reachable warehouse) :
    AnalyticsReachable warehouse.builtBoth :=
  ((reachable.built .lmp).step (.select .load false rfl)).step
    (.write (by rw [Analytics.select_building, Function.update_self]))

omit [Platform] in
theorem WarehouseSystem.builtBoth_facts (warehouse : WarehouseSystem) (product : Product) :
    ∃ table, warehouse.builtBoth.facts product = some table ∧
      table.readPoint = warehouse.builtBoth.store := by
  rw [builtBoth, Analytics.write_facts]
  cases product with
  | lmp =>
      obtain ⟨table, at_table, read⟩ := warehouse.built_fact .lmp
      refine ⟨table, ?_, read⟩
      rw [Function.update_of_ne (by decide)]
      exact at_table
  | load => exact ⟨_, Function.update_self .., rfl⟩

end Sample

/-- The returned result of a unit that accepted a number of rows. -/
def acceptsRows (count : Nat) : Except Exn Returned → Bool
  | .ok (.result r) => r.acceptedRows = count
  | _ => false

theorem acceptsRows_iff {count : Nat} {result : Except Exn Returned} :
    acceptsRows count result = true ↔ ∃ r, result = .ok (.result r) ∧ r.acceptedRows = count := by
  rcases result with e | r
  · simp [acceptsRows]
  · cases r <;> simp [acceptsRows]

set_option maxRecDepth 10000 in
/-- A unit that accepted one row is counted. -/
theorem verify_succeeds_sample :
    letI := Platform.plain
    ∃ (s : Analytics) (results : List IngestionResult) (counts : RequestCounts),
      results.map (·.acceptedRows) = [1] ∧
      verify sampleToday [sampleUnit] results s = .ok counts ∧
      ∀ r ∈ results, ∃ n, counts r.unit.label = some n ∧ r.acceptedRows ≤ n := by
  have expanded : @expand Platform.plain (fun _ _ => sampleRunId) sampleToday sampleBackfill =
      .ok [sampleUnit] := by rfl
  have accepts : acceptsRows 1
      (@unitRun Platform.plain (@sampleOutside Platform.plain) []).result = true := by rfl
  obtain ⟨r, result, one⟩ := acceptsRows_iff.mp accepts
  have at_end : (@afterUnit Platform.plain (@sampleOutside Platform.plain) []).processes 1 =
      some ⟨.executeUnit sampleToday sampleUnit,
        (@unitRun Platform.plain (@sampleOutside Platform.plain) []).events,
        some (.done (.ok (.result r)))⟩ := by
    rw [← result]
    simp [afterUnit, WarehouseSystem.finish]
  have launched := @Reachable.launched Platform.plain _ (@bootstrapped_reachable Platform.plain) 1
    rfl (.executeUnit sampleToday sampleUnit) (@sampleOutside Platform.plain) []
  have ofUnit : r.unit = sampleUnit := by
    obtain ⟨_, ended, _, known, same⟩ := @Reachable.unitEnded Platform.plain _ _
      (@bootstrapped_reachable Platform.plain) 1 rfl launched _ _ _ _ at_end
    cases ended with
    | error e => cases same
    | ok r' =>
        cases same
        exact (known.returned _ rfl).1
  have reachable := @afterUnit_reachable Platform.plain (@sampleOutside Platform.plain) []
  obtain ⟨counts, verified, covered⟩ := @verify_succeeds Platform.plain [sampleUnit]
    noCollisions_plain _ _ sampleToday sampleBackfill expanded le_rfl _
    (@Reachable.builtBoth Platform.plain _ reachable)
    (WarehouseSystem.builtBoth_facts _) [r] (fun r' member => by
      obtain rfl := List.mem_singleton.mp member
      exact ⟨List.mem_singleton.mpr ofUnit, 1, _, _, _, at_end⟩)
  exact ⟨_, [r], counts, by rw [List.map_singleton, one], verified, covered⟩

end PowerMarket
