import PowerMarket.Analytics.Stores

/-!
# Builds beside ingestion

A dbt writer builds the facts while any number of processes ingest. A build selects its rows in one
query, which sees the raw tables of one moment, and later writes them; ingestion goes on in
between. `AnalyticsStep` lists what can happen, and `incremental_facts` says that every build,
whether incremental or not, leaves the result of the query on the whole history of the moment that
it read.
-/

set_option autoImplicit false

namespace PowerMarket

open Library

/-! ## Steps -/

/-- A build that has selected its rows: the raw tables that it read, whether it is incremental,
and the rows. -/
structure Build where
  readPoint : Database
  incremental : Bool
  selected : List HistoryRow

/-- A fact table, with the raw tables that the build that wrote it last had read. -/
structure FactTable where
  readPoint : Database
  rows : List HistoryRow

/-- The warehouse with its writers, the fact tables and the builds that still have to write. -/
structure Analytics where
  warehouse : WarehouseSystem
  facts : Product → Option FactTable
  building : Product → Option Build

/-- Before anything was launched or built. -/
def Analytics.initial (clock : UtcTime) : Analytics :=
  ⟨System.initial (Cloud.created clock), fun _ => none, fun _ => none⟩

/-- The raw tables. -/
abbrev Analytics.store (s : Analytics) : Database := s.warehouse.world.store

/-- A build is incremental when its table exists, unless a full refresh was asked for. -/
def isIncremental (fullRefresh : Bool) (table : Option FactTable) : Bool :=
  table.isSome && !fullRefresh

/-- What an incremental query reads of its own table. -/
def thisTable (incremental : Bool) (table : Option FactTable) : Option (List HistoryRow) :=
  if incremental then table.map (·.rows) else none

/-- What a build of a fact selects. -/
def Analytics.selection (s : Analytics) (product : Product) (fullRefresh : Bool) : Build where
  readPoint := s.store
  incremental := isIncremental fullRefresh (s.facts product)
  selected := factQuery product
    (thisTable (isIncremental fullRefresh (s.facts product)) (s.facts product)) s.store

/-- What a build leaves. -/
def Analytics.written (s : Analytics) (product : Product) (build : Build) : FactTable where
  readPoint := build.readPoint
  rows := materialize (thisTable build.incremental (s.facts product)) build.selected

/-- A build selects its rows. -/
def Analytics.select (s : Analytics) (product : Product) (fullRefresh : Bool) : Analytics :=
  { s with building :=
      Function.update s.building product (some (s.selection product fullRefresh)) }

/-- A build writes its rows. -/
def Analytics.write (s : Analytics) (product : Product) (build : Build) : Analytics :=
  { s with
    facts := Function.update s.facts product (some (s.written product build))
    building := Function.update s.building product none }

@[simp] theorem Analytics.select_building (s : Analytics) (product : Product)
    (fullRefresh : Bool) : (s.select product fullRefresh).building =
      Function.update s.building product (some (s.selection product fullRefresh)) := rfl

@[simp] theorem Analytics.write_facts (s : Analytics) (product : Product) (build : Build) :
    (s.write product build).facts =
      Function.update s.facts product (some (s.written product build)) := rfl

@[simp] theorem Analytics.write_building (s : Analytics) (product : Product) (build : Build) :
    (s.write product build).building = Function.update s.building product none := rfl

variable [Platform]

/-- What can happen: a step of ingestion, and of one build of a fact after another. -/
inductive AnalyticsStep : Analytics → Analytics → Prop where
  | ingest {s : Analytics} {warehouse : WarehouseSystem}
      (step : SystemStep s.warehouse warehouse) :
      AnalyticsStep s { s with warehouse := warehouse }
  | select {s : Analytics} (product : Product) (fullRefresh : Bool)
      (idle : s.building product = none) : AnalyticsStep s (s.select product fullRefresh)
  | write {s : Analytics} {product : Product} {build : Build}
      (selected : s.building product = some build) : AnalyticsStep s (s.write product build)

/-- A state that is reached from the empty project. -/
def AnalyticsReachable (s : Analytics) : Prop :=
  ∃ clock, Relation.ReflTransGen AnalyticsStep (.initial clock) s

theorem AnalyticsReachable.step {s s' : Analytics} (reachable : AnalyticsReachable s)
    (step : AnalyticsStep s s') : AnalyticsReachable s' := by
  obtain ⟨clock, run⟩ := reachable
  exact ⟨clock, run.tail step⟩

/-- What happens from a state on: steps of ingestion and of builds in any order. -/
abbrev AnalyticsRun : Analytics → Analytics → Prop := Relation.ReflTransGen AnalyticsStep

theorem AnalyticsReachable.run {s s' : Analytics} (reachable : AnalyticsReachable s)
    (run : AnalyticsRun s s') : AnalyticsReachable s' := by
  obtain ⟨clock, start⟩ := reachable
  exact ⟨clock, start.trans run⟩

/-- A warehouse without facts. -/
def WarehouseSystem.unbuilt (warehouse : WarehouseSystem) : Analytics :=
  ⟨warehouse, fun _ => none, fun _ => none⟩

theorem Reachable.unbuilt {warehouse : WarehouseSystem} (reachable : Reachable warehouse) :
    AnalyticsReachable warehouse.unbuilt := by
  obtain ⟨clock, run⟩ := reachable
  refine ⟨clock, ?_⟩
  induction run with
  | refl => exact .refl
  | tail _ step ih => exact ih.tail (.ingest step)

/-! ## The invariant -/

/-- A state of the raw tables that was passed. -/
structure Passed (s : Analytics) (db : Database) : Prop where
  good : Good db
  before : Precedes db s.store

/-- The tables are maintained: each shows the query on the whole history that its last build had
read, and a build that has selected its rows read the raw tables no earlier. -/
structure Maintained (s : Analytics) : Prop where
  reachable : Reachable s.warehouse
  table : ∀ product table, s.facts product = some table → Passed s table.readPoint ∧
    table.rows.Perm (factQuery product none table.readPoint)
  build : ∀ product build, s.building product = some build → Passed s build.readPoint ∧
    build.selected =
      factQuery product (thisTable build.incremental (s.facts product)) build.readPoint ∧
    ∀ table, s.facts product = some table → Precedes table.readPoint build.readPoint

theorem maintained_initial (clock : UtcTime) : Maintained (.initial clock) where
  reachable := ⟨clock, .refl⟩
  table _ _ impossible := by cases impossible
  build _ _ impossible := by cases impossible

theorem Maintained.ingested {s : Analytics} (maintained : Maintained s)
    {warehouse : WarehouseSystem} (step : SystemStep s.warehouse warehouse) :
    Maintained { s with warehouse := warehouse } := by
  obtain ⟨reachable, future⟩ := maintained.reachable.run (.single step)
  have passed : ∀ {db : Database}, Passed s db → Passed { s with warehouse := warehouse } db :=
    fun passed => ⟨passed.good, passed.before.trans future.before⟩
  refine ⟨reachable, fun product table at_table => ?_, fun product build at_build => ?_⟩
  · obtain ⟨read, same⟩ := maintained.table product table at_table
    exact ⟨passed read, same⟩
  · obtain ⟨read, rest⟩ := maintained.build product build at_build
    exact ⟨passed read, rest⟩

theorem Maintained.selected {s : Analytics} (maintained : Maintained s) (product : Product)
    (fullRefresh : Bool) : Maintained (s.select product fullRefresh) := by
  have passed : ∀ {db : Database}, Passed s db → Passed (s.select product fullRefresh) db :=
    fun passed => ⟨passed.good, passed.before⟩
  refine ⟨maintained.reachable, fun product' table at_table => ?_, fun product' build at_build => ?_⟩
  · obtain ⟨read, same⟩ := maintained.table product' table at_table
    exact ⟨passed read, same⟩
  · by_cases same : product' = product
    · subst same
      rw [Analytics.select_building, Function.update_self] at at_build
      obtain rfl := Option.some.inj at_build
      refine ⟨⟨maintained.reachable.orderly.good, .refl _⟩, rfl, fun table at_table => ?_⟩
      exact (maintained.table product' table at_table).1.before
    · rw [Analytics.select_building, Function.update_of_ne same] at at_build
      obtain ⟨read, rest⟩ := maintained.build product' build at_build
      exact ⟨passed read, rest⟩

/-- **A build leaves the query on the whole history that it read.** -/
theorem Maintained.materialized (noCollisions : NoCollisions) {s : Analytics}
    (maintained : Maintained s) {product : Product} {build : Build}
    (at_build : s.building product = some build) :
    (materialize (thisTable build.incremental (s.facts product)) build.selected).Perm
      (factQuery product none build.readPoint) := by
  obtain ⟨read, selected, later⟩ := maintained.build product build at_build
  rw [selected]
  cases this : thisTable build.incremental (s.facts product) with
  | none => exact .refl _
  | some rows =>
      obtain ⟨table, at_table, rfl⟩ : ∃ table, s.facts product = some table ∧ table.rows = rows := by
        unfold thisTable at this
        split_ifs at this
        exact Option.map_eq_some_iff.mp this
      obtain ⟨read', same⟩ := maintained.table product table at_table
      exact merge_latestByKey
        (read'.good.extension noCollisions read.good (later table at_table) product)
        (read.good.rankedApart noCollisions product) same

theorem Maintained.written (noCollisions : NoCollisions) {s : Analytics}
    (maintained : Maintained s) {product : Product} {build : Build}
    (at_build : s.building product = some build) : Maintained (s.write product build) := by
  have passed : ∀ {db : Database}, Passed s db → Passed (s.write product build) db :=
    fun passed => ⟨passed.good, passed.before⟩
  refine ⟨maintained.reachable, fun product' table at_table => ?_,
    fun product' build' at_build' => ?_⟩
  · by_cases same : product' = product
    · subst same
      rw [Analytics.write_facts, Function.update_self] at at_table
      obtain rfl := Option.some.inj at_table
      exact ⟨passed (maintained.build product' build at_build).1,
        maintained.materialized noCollisions at_build⟩
    · rw [Analytics.write_facts, Function.update_of_ne same] at at_table
      obtain ⟨read, rest⟩ := maintained.table product' table at_table
      exact ⟨passed read, rest⟩
  · by_cases same : product' = product
    · subst same
      rw [Analytics.write_building, Function.update_self] at at_build'
      cases at_build'
    · rw [Analytics.write_building, Function.update_of_ne same] at at_build'
      rw [Analytics.write_facts, Function.update_of_ne same]
      obtain ⟨read, rest⟩ := maintained.build product' build' at_build'
      exact ⟨passed read, rest⟩

/-- **The tables are maintained in every reachable state.** -/
theorem AnalyticsReachable.maintained (noCollisions : NoCollisions) {s : Analytics}
    (reachable : AnalyticsReachable s) : Maintained s := by
  obtain ⟨clock, run⟩ := reachable
  induction run with
  | refl => exact maintained_initial clock
  | tail _ step ih =>
      cases step with
      | ingest step => exact ih.ingested step
      | select product fullRefresh idle => exact ih.selected product fullRefresh
      | write selected => exact ih.written noCollisions selected

theorem AnalyticsReachable.orderly (noCollisions : NoCollisions) {s : Analytics}
    (reachable : AnalyticsReachable s) : Orderly s.warehouse.world :=
  (reachable.maintained noCollisions).reachable.orderly

/-! ## Facts after a build -/

/-- A table that a build wrote, with the state of the raw tables that it had read: a permutation of
what the query selects from the whole history of that state, the current facts. -/
structure Refreshed (product : Product) (table : FactTable) : Prop where
  rows : table.rows.Perm (factQuery product none table.readPoint)
  current : CurrentFacts product table.readPoint table.rows

theorem AnalyticsReachable.refreshed (noCollisions : NoCollisions) {s : Analytics}
    (reachable : AnalyticsReachable s) {product : Product} {table : FactTable}
    (at_table : s.facts product = some table) : Refreshed product table := by
  obtain ⟨read, same⟩ := (reachable.maintained noCollisions).table product table at_table
  exact ⟨same, (read.good.currentFacts noCollisions product).perm same.symm⟩

/-- **Incremental facts equal a full refresh.** Whatever was ingested and built before, when a
build writes the rows that it had selected, the table has the rows, column for column, of the
query without its incremental part on the raw tables that the build had read: one row for each key
that has a transition of a successful run, the one with the greatest ordinal. The raw tables that
the build read are those of the moment in which it selected, which are not later than the present
ones. -/
theorem incremental_facts (noCollisions : NoCollisions) {s : Analytics}
    (reachable : AnalyticsReachable s) :
    (∀ product fullRefresh, s.building product = none →
      ∃ build, (s.select product fullRefresh).building product = some build ∧
        build.readPoint = s.store) ∧
    ∀ product build, s.building product = some build →
      Precedes build.readPoint s.store ∧
      ∃ table, (s.write product build).facts product = some table ∧
        table.readPoint = build.readPoint ∧ Refreshed product table := by
  refine ⟨fun product fullRefresh _ => ?_, fun product build at_build => ?_⟩
  · exact ⟨s.selection product fullRefresh,
      by rw [Analytics.select_building, Function.update_self], rfl⟩
  · have written : AnalyticsReachable (s.write product build) := by
      obtain ⟨clock, run⟩ := reachable
      exact ⟨clock, run.tail (.write at_build)⟩
    have at_table : (s.write product build).facts product = some (s.written product build) := by
      rw [Analytics.write_facts, Function.update_self]
    exact ⟨((reachable.maintained noCollisions).build product build at_build).1.before,
      s.written product build, at_table, rfl, written.refreshed noCollisions at_table⟩

/-! ## Small builds -/

omit [Platform] in
/-- A fact with an eligible transition has a row. -/
theorem Refreshed.nonempty {product : Product} {table : FactTable}
    (refreshed : Refreshed product table) {runId : String}
    (transitions : (table.readPoint.transitions product).map (·.runId) = [runId])
    (runs : table.readPoint.runs.map (fun run => (run.runId, run.status)) =
      [(runId, .succeeded)]) : table.rows ≠ [] := by
  obtain ⟨transition, member, ofRun⟩ :=
    List.mem_map.mp (transitions ▸ List.mem_singleton_self runId)
  obtain ⟨run, at_run, same⟩ :=
    List.mem_map.mp (runs ▸ List.mem_singleton_self (runId, Status.succeeded))
  obtain ⟨ofId, succeeded⟩ := Prod.mk.inj same
  obtain ⟨row, inTable, _⟩ := refreshed.current.complete transition member
    ⟨run, at_run, ofId.trans ofRun.symm, succeeded⟩
  exact List.ne_nil_of_mem inTable

/-- A warehouse whose facts of a product were built once. -/
def WarehouseSystem.built (warehouse : WarehouseSystem) (product : Product) : Analytics :=
  (warehouse.unbuilt.select product false).write product
    (warehouse.unbuilt.selection product false)

theorem Reachable.built {warehouse : WarehouseSystem} (reachable : Reachable warehouse)
    (product : Product) : AnalyticsReachable (warehouse.built product) :=
  (reachable.unbuilt.step (.select product false rfl)).step
    (.write (by rw [Analytics.select_building, Function.update_self]))

omit [Platform] in
theorem WarehouseSystem.built_fact (warehouse : WarehouseSystem) (product : Product) :
    ∃ fact, (warehouse.built product).facts product = some fact ∧
      fact.readPoint = warehouse.world.store := by
  refine ⟨(warehouse.unbuilt.select product false).written product
    (warehouse.unbuilt.selection product false), ?_, rfl⟩
  rw [built, Analytics.write_facts, Function.update_self]

theorem AnalyticsRun.ingested {s : Analytics} {later : WarehouseSystem}
    (run : SystemRun s.warehouse later) : AnalyticsRun s { s with warehouse := later } :=
  run.lift (fun warehouse => { s with warehouse := warehouse }) fun _ _ step => .ingest step

/-- A load fact was built, the load was revised, and the next build has selected its rows. -/
structure Rebuilding (s t : Analytics) (old : FactTable) (build : Build) : Prop where
  reachable : AnalyticsReachable s
  run : AnalyticsRun s t
  before : s.facts .load = some old
  read_old : old.readPoint = s.store
  shows : ShowsLoad sampleObservation.contentHash old.rows
  kept : t.facts .load = some old
  building : t.building .load = some build
  incremental : build.incremental = true
  read : build.readPoint = t.store
  revised : ∀ table, CurrentFacts .load t.store table → ShowsLoad sampleRevision.contentHash table

omit [Platform] in
theorem exists_rebuilding : letI := Platform.plain
    ∃ s t old build, Rebuilding s t old build := by
  let _ := Platform.plain
  obtain ⟨before, after, reachable, run, first, second⟩ := exists_revision
  obtain ⟨old, at_old, read⟩ := before.built_fact .load
  have built := reachable.built .load
  have shows := first old.rows (read ▸ (built.refreshed noCollisions_plain at_old).current)
  let stale : Analytics := { before.built .load with warehouse := after }
  have idle : stale.building .load = none := by
    show (before.built .load).building .load = none
    rw [WarehouseSystem.built, Analytics.write_building, Function.update_self]
  have selected : (stale.select .load false).building .load =
      some (stale.selection .load false) := by
    rw [Analytics.select_building, Function.update_self]
  have incremental : (stale.selection .load false).incremental = true := by
    show isIncremental false ((before.built .load).facts .load) = true
    rw [at_old]
    rfl
  exact ⟨before.built .load, stale.select .load false, old, stale.selection .load false, built,
    (AnalyticsRun.ingested run).tail (.select .load false idle), at_old, read, shows, at_old,
    selected, incremental, rfl, second⟩

/-- The build writes the rows with the revision. -/
theorem Rebuilding.written (noCollisions : NoCollisions) {s t : Analytics} {old : FactTable}
    {build : Build} (rebuilding : Rebuilding s t old build) :
    AnalyticsRun s (t.write .load build) ∧
    ∃ table, (t.write .load build).facts .load = some table ∧ Refreshed .load table ∧
      ShowsLoad sampleRevision.contentHash table.rows := by
  have run := rebuilding.run.tail (.write rebuilding.building)
  have at_table : (t.write .load build).facts .load = some (t.written .load build) := by
    rw [Analytics.write_facts, Function.update_self]
  have refreshed := (rebuilding.reachable.run run).refreshed noCollisions at_table
  exact ⟨run, _, at_table, refreshed, rebuilding.revised _ (rebuilding.read ▸ refreshed.current)⟩

omit [Platform] in
/-- An incremental build after a revision shows it. -/
theorem incremental_facts_sample :
    letI := Platform.plain
    ∃ (s : Analytics) (build : Build) (old table : FactTable), s.facts .load = some old ∧
      ShowsLoad sampleObservation.contentHash old.rows ∧ s.building .load = some build ∧
      build.incremental = true ∧ (s.write .load build).facts .load = some table ∧
      Refreshed .load table ∧ ShowsLoad sampleRevision.contentHash table.rows := by
  let _ := Platform.plain
  obtain ⟨_, t, old, build, rebuilding⟩ := exists_rebuilding
  obtain ⟨_, written⟩ := incremental_facts noCollisions_plain
    (rebuilding.reachable.run rebuilding.run)
  obtain ⟨_, table, at_table, same, refreshed⟩ := written .load build rebuilding.building
  exact ⟨t, build, old, table, rebuilding.kept, rebuilding.shows, rebuilding.building,
    rebuilding.incremental, at_table, refreshed,
    rebuilding.revised _ (rebuilding.read ▸ same ▸ refreshed.current)⟩

/-- The warehouse after one run for prices. -/
def priced : WarehouseSystem :=
  bootstrapped.finish 1 (.ingest samplePriceRequest sampleRunId) []
    (alone priceOutside [] (Launch.start (.ingest samplePriceRequest sampleRunId))
      bootstrapped.world)

theorem priced_reachable : Reachable priced := by
  have unused : bootstrapped.processes 1 = none := rfl
  exact (bootstrapped_reachable.run (bootstrapped_reachable.launched unused
    (.ingest samplePriceRequest sampleRunId) priceOutside [])).1

set_option maxRecDepth 4000 in
omit [Platform] in
theorem priced_fact :
    letI := Platform.plain
    ∃ fact : FactTable, (priced.built .lmp).facts .lmp = some fact ∧
      fact.readPoint = priced.world.store ∧ fact.rows ≠ [] := by
  obtain ⟨fact, at_fact, read⟩ := (@priced Platform.plain).built_fact .lmp
  have refreshed := @AnalyticsReachable.refreshed Platform.plain noCollisions_plain _
    (@Reachable.built Platform.plain _ (@priced_reachable Platform.plain) .lmp) _ _ at_fact
  have transitions : ((@priced Platform.plain).world.store.transitions .lmp).map (·.runId) =
      [sampleRunId] := by rfl
  have runs : (@priced Platform.plain).world.store.runs.map
      (fun run => (run.runId, run.status)) = [(sampleRunId, .succeeded)] := by rfl
  rw [← read] at transitions runs
  exact ⟨fact, at_fact, read, refreshed.nonempty transitions runs⟩

end PowerMarket
