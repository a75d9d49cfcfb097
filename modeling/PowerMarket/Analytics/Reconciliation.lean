import PowerMarket.Analytics.Builds
import PowerMarket.Analytics.Checks

/-!
# Reconciliation is an exact test of staleness

The reconciliation of a fact compares it with the raw transitions of the moment in which the test
runs, while the fact shows the moment that its last build had read. In every reachable state of
ingestion and builds a fact table has different keys and rows of the history, so that
`reconciliation_exact` says when the test of a maintained fact passes: if and only if no run with a
transition of the product has succeeded since the last build read the tables, and if and only if a
full refresh would change nothing.
-/

set_option autoImplicit false

namespace PowerMarket

open Library

section Tables

variable [Platform] {db : Database} {product : Product} {fact : List HistoryRow}

theorem CurrentFacts.unique (noCollisions : NoCollisions) (good : Good db)
    {fact' : List HistoryRow} (facts : CurrentFacts product db fact)
    (facts' : CurrentFacts product db fact') : fact.Perm fact' := by
  have within : ∀ {table other : List HistoryRow}, CurrentFacts product db table →
      CurrentFacts product db other → ∀ row ∈ table, row ∈ other := by
    intro table other inTable inOther row member
    obtain ⟨transition, content, occurs, rfl, key, greatest⟩ := inTable.rows row member
    obtain ⟨row', member', sameKey⟩ := inOther.complete transition occurs.inTransitions occurs.run
    obtain ⟨transition', content', occurs', rfl, key', greatest'⟩ := inOther.rows row' member'
    have ofKey : transition'.logicalKey = transition.logicalKey := key'.symm.trans sameKey
    obtain rfl := good.ordinal_inj noCollisions occurs'.inTransitions occurs.inTransitions ofKey
      (le_antisymm (greatest transition' occurs'.inTransitions ofKey occurs'.run)
        (greatest' transition occurs.inTransitions ofKey.symm occurs.run))
    rwa [← occurs'.unique noCollisions good occurs]
  exact perm_of_keys facts.keys facts'.keys fun row =>
    ⟨within facts facts' row, within facts' facts row⟩

end Tables

/-! ## Maintained facts -/

section Later

variable [Platform] {db after : Database} {product : Product} {fact : List HistoryRow}

theorem Good.transition_settled (good : Good db) (good' : Good after)
    (precedes : Precedes db after) {transition : TransitionRow}
    (member : transition ∈ after.transitions product) (settled : EligibleRun db transition.runId) :
    ∃ before ∈ db.transitions product, TransitionMove before transition := by
  obtain ⟨run, at_run, ofRun, succeeded⟩ := settled
  rcases (precedes.transitions product).origin member with ⟨before, at_before, move⟩ | late
  · exact ⟨before, at_before, move⟩
  · have seeded : db ≠ .created := by
      rintro rfl
      cases at_run
    have seeded' : after ≠ .created := by
      rintro rfl
      cases member
    obtain ⟨c, sound, _⟩ := good.resolve_left seeded
    obtain ⟨_, sound', _⟩ := good'.resolve_left seeded'
    obtain ⟨owner, wrote, ofOwner, number, _⟩ := sound'.transitions product transition member
    obtain rfl := run_unique sound'.unique wrote.member (precedes.final at_run (.inl succeeded))
      (ofOwner.trans ofRun.symm)
    obtain ⟨n, below, numbered⟩ := sound.numbered owner at_run wrote.committed
    have same : transition.commitSequence = n + 1 := Option.some.inj (number.symm.trans numbered)
    rw [sound.seeded.sequence] at late
    omega

/-- **When the current facts are still current**: no run with a transition of the product has
succeeded since. -/
theorem CurrentFacts.still_iff (noCollisions : NoCollisions) (good : Good db) (good' : Good after)
    (precedes : Precedes db after) (facts : CurrentFacts product db fact) :
    CurrentFacts product after fact ↔
      ∀ transition ∈ after.transitions product, EligibleRun after transition.runId →
        EligibleRun db transition.runId := by
  constructor
  · intro still transition member succeeded
    obtain ⟨row, inFact, sameKey⟩ := still.complete transition member succeeded
    obtain ⟨latest, content, occurs, rfl, key, greatest⟩ := still.rows row inFact
    obtain ⟨old, content', occursOld, same, _⟩ := facts.rows _ inFact
    have ids : old.transitionId = latest.transitionId :=
      (congrArg HistoryRow.transitionId same).symm
    obtain rfl : old = latest :=
      List.inj_on_of_nodup_map (good'.ids noCollisions product).2
        (occursOld.later noCollisions good precedes).inTransitions occurs.inTransitions ids
    have ofKey : transition.logicalKey = old.logicalKey := sameKey.symm.trans key
    have small : transition.commitSequence ≤ old.commitSequence := by
      by_contra later
      have less := good'.ordinal_lt noCollisions occurs.inTransitions member ofKey.symm
        (Nat.lt_of_not_le later)
      exact absurd (greatest transition member ofKey succeeded) (Nat.not_le.mpr less)
    obtain ⟨_, occursNow⟩ := good'.occurs noCollisions member succeeded
    exact (good.occurs_late noCollisions good' precedes occursOld occursNow small).run
  · intro nothingNew
    refine ⟨facts.keys, fun row member => ?_, fun transition member succeeded => ?_⟩
    · obtain ⟨transition, content, occurs, isRow, key, greatest⟩ := facts.rows row member
      refine ⟨transition, content, occurs.later noCollisions good precedes, isRow, key,
        fun other at_other sameKey succeeded => ?_⟩
      have settled := nothingNew other at_other succeeded
      obtain ⟨before, at_before, move⟩ := good.transition_settled good' precedes at_other settled
      rcases move with rfl | ⟨_, _, rfl⟩
      · exact greatest other at_before sameKey settled
      · exact greatest before at_before sameKey settled
    · have settled := nothingNew transition member succeeded
      obtain ⟨before, at_before, move⟩ := good.transition_settled good' precedes member settled
      rcases move with rfl | ⟨_, _, rfl⟩
      · exact facts.complete transition at_before settled
      · exact facts.complete before at_before settled

end Later

variable [Platform]

/-- A fact table of a reachable state has different keys, and its rows are rows of the present
history. -/
theorem AnalyticsReachable.drawn (noCollisions : NoCollisions) {s : Analytics}
    (reachable : AnalyticsReachable s) {product : Product} {table : FactTable}
    (at_table : s.facts product = some table) :
    (table.rows.map (·.logicalKey)).Nodup ∧ table.rows ⊆ intRevisionHistory product s.store := by
  obtain ⟨read, _⟩ := (reachable.maintained noCollisions).table product table at_table
  have current := (reachable.refreshed noCollisions at_table).current
  have good := (reachable.orderly noCollisions).good
  exact ⟨current.keys, fun row member =>
    (read.good.extension noCollisions good read.before product).kept (current.drawn member)⟩

/-- **Reconciliation is an exact test of staleness.** In every state that ingestion and builds reach
in any order, the reconciliation of a fact finds nothing if and only if no run with a transition of
the product has succeeded since the last build read the raw tables, and if and only if the table has
the rows that a full refresh would now give. -/
theorem reconciliation_exact (noCollisions : NoCollisions) {s : Analytics}
    (reachable : AnalyticsReachable s) {product : Product} {table : FactTable}
    (at_table : s.facts product = some table) :
    (reconcileStates product table.rows s.store = [] ↔
      ∀ transition ∈ s.store.transitions product, EligibleRun s.store transition.runId →
        EligibleRun table.readPoint transition.runId) ∧
    (reconcileStates product table.rows s.store = [] ↔
      table.rows.Perm (factQuery product none s.store)) := by
  obtain ⟨keys, drawn⟩ := reachable.drawn noCollisions at_table
  obtain ⟨read, _⟩ := (reachable.maintained noCollisions).table product table at_table
  have current := (reachable.refreshed noCollisions at_table).current
  have good := (reachable.orderly noCollisions).good
  have full := good.currentFacts noCollisions product
  rw [reconcileStates_nil_iff noCollisions good keys drawn]
  exact ⟨current.still_iff noCollisions read.good good read.before,
    fun still => still.unique noCollisions good full, fun perm => full.perm perm.symm⟩

omit [Platform] in
/-- A load fact passes after its build, and no longer after a revision. -/
theorem reconciliation_exact_sample :
    letI := Platform.plain
    ∃ (s s' : Analytics) (table : FactTable), s.facts .load = some table ∧
      reconcileStates .load table.rows s.store = [] ∧ AnalyticsRun s s' ∧
      s'.facts .load = some table ∧ reconcileStates .load table.rows s'.store ≠ [] := by
  let _ := Platform.plain
  obtain ⟨s, t, old, build, rebuilding⟩ := exists_rebuilding
  obtain ⟨passes, _⟩ := reconciliation_exact noCollisions_plain rebuilding.reachable rebuilding.before
  have reachable := rebuilding.reachable.run rebuilding.run
  obtain ⟨_, exactly⟩ := reconciliation_exact noCollisions_plain reachable rebuilding.kept
  refine ⟨s, t, old, rebuilding.before, passes.mpr fun _ _ succeeded => ?_, rebuilding.run,
    rebuilding.kept, fun nothing => ?_⟩
  · exact rebuilding.read_old ▸ succeeded
  · -- Rows that were still current would show the revision.
    have current : CurrentFacts .load t.store old.rows :=
      ((reachable.orderly noCollisions_plain).good.currentFacts noCollisions_plain .load).perm
        (exactly.mp nothing).symm
    exact sampleRevision_hash noCollisions_plain
      (rebuilding.shows.unique (rebuilding.revised _ current))

end PowerMarket
