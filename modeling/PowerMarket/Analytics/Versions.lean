import PowerMarket.Warehouse.Appearances
import PowerMarket.Analytics.Lineage
import PowerMarket.Analytics.Reconciliation

/-!
# Versions of a fact

A build overwrites the rows of a fact, incrementally or in a full refresh, while ingestion goes on.
From one version of the table to a later one no key disappears, and a row either stays as it is or
gives way to a row with a greater ordinal and a greater commit sequence number, which was known no
earlier (`facts_advance`).

What a version had is not lost when the table is overwritten. The rows of the history up to the
greatest commit sequence number in the version are those that its build had read, whatever was
ingested since, so that the version is the query on this part of the present history
(`facts_recovered`).
-/

set_option autoImplicit false

namespace PowerMarket

open Library

variable [Platform]

/-! ## Later versions -/

/-- There is a table that was built from raw tables no earlier than those of another table. -/
def Rebuilt (product : Product) (table : FactTable) (s : Analytics) : Prop :=
  ∃ table', s.facts product = some table' ∧ Precedes table.readPoint table'.readPoint

/-- **A step keeps a table or rebuilds it from later raw tables.** -/
theorem Rebuilt.step {s s' : Analytics} (maintained : Maintained s) {product : Product}
    {table : FactTable} (rebuilt : Rebuilt product table s) (step : AnalyticsStep s s') :
    Rebuilt product table s' := by
  cases step with
  | ingest step => exact rebuilt
  | select product' fullRefresh idle => exact rebuilt
  | @write product' build selected =>
      by_cases same : product = product'
      · subst same
        obtain ⟨table', at_table', before⟩ := rebuilt
        obtain ⟨_, _, later⟩ := maintained.build product build selected
        exact ⟨s.written product build, by rw [Analytics.write_facts, Function.update_self],
          before.trans (later table' at_table')⟩
      · obtain ⟨table', at_table', before⟩ := rebuilt
        exact ⟨table', by rw [Analytics.write_facts, Function.update_of_ne same, at_table'], before⟩

/-- **A run keeps a table or rebuilds it from later raw tables.** -/
theorem AnalyticsReachable.rebuilt (noCollisions : NoCollisions) {s s' : Analytics}
    (reachable : AnalyticsReachable s) (run : AnalyticsRun s s') {product : Product}
    {table : FactTable} (at_table : s.facts product = some table) : Rebuilt product table s' := by
  induction run with
  | refl => exact ⟨table, at_table, .refl _⟩
  | tail before step ih => exact ih.step ((reachable.run before).maintained noCollisions) step

/-! ## Rows of later versions -/

/-- A row of one version and the row of its key in a later one. -/
structure Advances (row row' : HistoryRow) : Prop where
  key : row'.logicalKey = row.logicalKey
  moved : row' = row ∨ row.stateOrdinal < row'.stateOrdinal ∧
    row.commitSequence < row'.commitSequence ∧
    ∃ known known', row.stateKnownAt = some known ∧ row'.stateKnownAt = some known' ∧ known ≤ known'

/-- Of one key the eligible occurrence with the greater ordinal has the greater number and was known
no earlier. -/
theorem Occurs.advances (noCollisions : NoCollisions) {w : Cloud} (orderly : Orderly w)
    {product : Product} {transition other : TransitionRow} {content content' : ContentRow}
    (occurs : Occurs product w.store transition content)
    (occurs' : Occurs product w.store other content')
    (sameKey : other.logicalKey = transition.logicalKey)
    (atLeast : transition.ordinal ≤ other.ordinal) :
    Advances (historyRow transition content) (historyRow other content') := by
  have good := orderly.good
  refine ⟨(occurs'.same noCollisions good).1.trans
    (sameKey.trans (occurs.same noCollisions good).1.symm), ?_⟩
  rcases Nat.lt_trichotomy transition.commitSequence other.commitSequence with less | same | greater
  · refine .inr ⟨good.ordinal_lt noCollisions occurs.inTransitions occurs'.inTransitions
      sameKey.symm less, less, ?_⟩
    obtain ⟨_, _, state, _, traced⟩ := occurs.traced noCollisions good
    obtain ⟨_, _, state', _, traced'⟩ := occurs'.traced noCollisions good
    obtain ⟨_, known, _, _, isKnown, ofState⟩ := traced.clocks good
    obtain ⟨_, known', _, _, isKnown', ofState'⟩ := traced'.clocks good
    exact ⟨known, known', isKnown, isKnown', orderly.knowledge_ordered traced.stateMember
      traced'.stateMember traced.number traced'.number less.le ofState ofState'⟩
  · obtain rfl := good.number_inj noCollisions occurs.inTransitions occurs'.inTransitions
      sameKey.symm same
    rw [occurs.unique noCollisions good occurs']
    exact .inl rfl
  · have ordinals := good.ordinal_lt noCollisions occurs'.inTransitions occurs.inTransitions
      sameKey greater
    exact absurd ordinals (Nat.not_lt.mpr atLeast)

/-- **A row of the current facts advances** to the row of its key in the current facts of later raw
tables. -/
theorem CurrentFacts.advances (noCollisions : NoCollisions) {w : Cloud} (orderly : Orderly w)
    {product : Product} {db after : Database} {table table' : List HistoryRow} (good : Good db)
    (good' : Good after) (before : Precedes db after) (before' : Precedes after w.store)
    (facts : CurrentFacts product db table) (facts' : CurrentFacts product after table') :
    ∀ row ∈ table, ∃ row' ∈ table', Advances row row' := by
  intro row member
  obtain ⟨transition, content, occurs, rfl, _⟩ := facts.rows row member
  have later := occurs.later noCollisions good before
  obtain ⟨row', member', key⟩ := facts'.complete transition later.inTransitions later.run
  obtain ⟨other, content', occurs', rfl, ofOther, greatest⟩ := facts'.rows row' member'
  have sameKey : other.logicalKey = transition.logicalKey := ofOther.symm.trans key
  exact ⟨_, member', (later.later noCollisions good' before').advances noCollisions orderly
    (occurs'.later noCollisions good' before') sameKey
    (greatest transition later.inTransitions sameKey.symm later.run)⟩

/-- **Facts only advance.** From a reachable state on, whatever is ingested and built in whatever
order, a fact that exists stays, no key of it disappears, and each of its rows either stays as it is
or gives way to a row with a greater ordinal and a greater commit sequence number, known no
earlier. -/
theorem facts_advance (noCollisions : NoCollisions) {s s' : Analytics}
    (reachable : AnalyticsReachable s) (run : AnalyticsRun s s') {product : Product}
    {table : FactTable} (at_table : s.facts product = some table) :
    ∃ table', s'.facts product = some table' ∧
      Precedes table.readPoint table'.readPoint ∧
      ∀ row ∈ table.rows, ∃ row' ∈ table'.rows, Advances row row' := by
  have reachable' := reachable.run run
  obtain ⟨table', at_table', before⟩ := reachable.rebuilt noCollisions run at_table
  obtain ⟨read, _⟩ := (reachable.maintained noCollisions).table product table at_table
  obtain ⟨read', _⟩ := (reachable'.maintained noCollisions).table product table' at_table'
  exact ⟨table', at_table', before, (reachable.refreshed noCollisions at_table).current.advances
    noCollisions (reachable'.orderly noCollisions) read.good read'.good before read'.before
    (reachable'.refreshed noCollisions at_table').current⟩

omit [Platform] in
/-- A load fact that is built again after a revision advances. -/
theorem facts_advance_sample :
    letI := Platform.plain
    ∃ (s s' : Analytics) (table table' : FactTable), AnalyticsRun s s' ∧
      s.facts .load = some table ∧ ShowsLoad sampleObservation.contentHash table.rows ∧
      s'.facts .load = some table' ∧ ShowsLoad sampleRevision.contentHash table'.rows ∧
      ∀ row ∈ table.rows, ∃ row' ∈ table'.rows, Advances row row' := by
  let _ := Platform.plain
  obtain ⟨s, t, old, build, rebuilding⟩ := exists_rebuilding
  obtain ⟨run, table, at_table, _, shows⟩ := rebuilding.written noCollisions_plain
  obtain ⟨table', at_table', _, advances⟩ :=
    facts_advance noCollisions_plain rebuilding.reachable run rebuilding.before
  obtain rfl := Option.some.inj (at_table.symm.trans at_table')
  exact ⟨s, _, old, table, run, rebuilding.before, rebuilding.shows, at_table, shows, advances⟩

/-! ## Earlier versions -/

/-- The query of a fact on the part of the history up to a commit sequence number. -/
def factAsOf (product : Product) (n : Nat) (db : Database) : List HistoryRow :=
  latestByKey (·.logicalKey) (·.rank)
    ((intRevisionHistory product db).filter (·.commitSequence ≤ n))

/-- **Every version of a fact can be recovered.** From a reachable state on, whatever is ingested and
built in whatever order, the rows of a fact are those that its query selects from the part of the
history at the end up to the greatest commit sequence number in the fact. -/
theorem facts_recovered (noCollisions : NoCollisions) {s s' : Analytics}
    (reachable : AnalyticsReachable s) (run : AnalyticsRun s s') {product : Product}
    {table : FactTable} (at_table : s.facts product = some table) :
    table.rows.Perm
      (factAsOf product (watermark (·.commitSequence) table.rows) s'.store) := by
  have reachable' := reachable.run run
  obtain ⟨table', at_table', before⟩ := reachable.rebuilt noCollisions run at_table
  obtain ⟨read, same⟩ := (reachable.maintained noCollisions).table product table at_table
  obtain ⟨read', _⟩ := (reachable'.maintained noCollisions).table product table' at_table'
  have good' := (reachable'.orderly noCollisions).good
  exact (read.good.extension noCollisions good' (before.trans read'.before) product).latest_upTo
    (good'.rankedApart noCollisions product) same

omit [Platform] in
/-- The rows of a load fact can be recovered after it was built again with a revision. -/
theorem facts_recovered_sample :
    letI := Platform.plain
    ∃ (s s' : Analytics) (table table' : FactTable), AnalyticsRun s s' ∧
      s.facts .load = some table ∧ ShowsLoad sampleObservation.contentHash table.rows ∧
      s'.facts .load = some table' ∧ ShowsLoad sampleRevision.contentHash table'.rows ∧
      table.rows.Perm (factAsOf .load (watermark (·.commitSequence) table.rows) s'.store) := by
  let _ := Platform.plain
  obtain ⟨s, t, old, build, rebuilding⟩ := exists_rebuilding
  obtain ⟨run, table, at_table, _, shows⟩ := rebuilding.written noCollisions_plain
  exact ⟨s, _, old, table, run, rebuilding.before, rebuilding.shows, at_table, shows,
    facts_recovered noCollisions_plain rebuilding.reachable run rebuilding.before⟩

end PowerMarket
