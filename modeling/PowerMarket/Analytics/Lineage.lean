import PowerMarket.Analytics.Eligible
import PowerMarket.Analytics.Marts
import PowerMarket.Warehouse.Origins

/-!
# Where the rows of a fact come from

Every eligible occurrence is traced to its two runs, the one that saw the content first and the one
that made the transition, and to the record that a request accepted (`Occurs.traced`). Both runs
have succeeded, so that both clocks are set. A row of the price fact therefore has the columns of a
price (`Traced.price`).
-/

set_option autoImplicit false

namespace PowerMarket

open Library

variable [Platform] {db : Database} {product : Product}

/-- An occurrence with the request and the record of its content, the run that made the transition
and the run that was the first to see the content. -/
structure Traced (product : Product) (db : Database) (transition : TransitionRow)
    (content : ContentRow) (request : Request) (record : Observation) (state first : RunRow) :
    Prop where
  occurs : Occurs product db transition content
  ofProduct : request.product = product
  row : content.toBatchRow = rowOf request record
  admissible : Admissible request record
  exact : ∀ d ∈ decimalsOf record, Representable d.value
  stateMember : state ∈ db.runs
  stateRun : state.runId = transition.runId
  stateSucceeded : state.status = .succeeded
  known : transition.knownAt = state.knowledgeAt
  firstMember : first ∈ db.runs
  firstRun : first.runId = content.firstRunId
  firstSucceeded : first.status = .succeeded
  seen : content.firstSeenAt = first.knowledgeAt
  firstDate : first.requestedDate = request.day
  runId : isRunId transition.runId = true
  ordinal : 0 < transition.ordinal
  number : state.commitSequence = some transition.commitSequence
  positive : 0 < transition.commitSequence
  identity : ∃ fields, transition.transitionId = digest "state-transition/v1" fields

/-- **Every eligible occurrence is traced.** -/
theorem Occurs.traced (noCollisions : NoCollisions) (good : Good db) {transition : TransitionRow}
    {content : ContentRow} (occurs : Occurs product db transition content) :
    ∃ request record state first,
      Traced product db transition content request record state first := by
  have seeded : db ≠ .created := by
    rintro rfl
    cases occurs.inTransitions
  obtain ⟨c, sound, _⟩ := good.resolve_left seeded
  have clockOf : ∀ {row : RunRow} {request : Request} {record : Observation} {runId : String},
      Written db product row request record → row.runId = runId → EligibleRun db runId →
      row.status = .succeeded ∧ row.clock product = row.knowledgeAt := by
    rintro row request record runId written ofRow ⟨run, at_run, ofRun, succeeded⟩
    obtain rfl := run_unique sound.unique written.member at_run (ofRow.trans ofRun.symm)
    exact ⟨succeeded,
      if_pos ⟨succeeded, written.runProduct.trans written.product⟩⟩
  obtain ⟨first, request, record, written, ofFirst, isRow, seen⟩ :=
    good.content_origin noCollisions occurs.inContents
  obtain ⟨firstSucceeded, firstClock⟩ := clockOf written ofFirst.symm occurs.first
  obtain ⟨state, request', record', sequence, ordinal, written', planned, positive, number, known⟩ :=
    good.transition_origin noCollisions occurs.inTransitions
  have ofState : transition.runId = state.runId := congrArg TransitionRow.runId planned
  obtain ⟨stateSucceeded, stateClock⟩ := clockOf written' ofState.symm occurs.run
  have isOrdinal : transition.ordinal = ordinal := congrArg TransitionRow.ordinal planned
  obtain ⟨_, _, _, _, _, isPositive, _⟩ := occurs.numbered sound
  exact ⟨request, record, state, first, {
    occurs
    ofProduct := written.product
    row := isRow
    admissible := written.admissible
    exact := written.exact
    stateMember := written'.member
    stateRun := ofState.symm
    stateSucceeded
    known := known.trans stateClock
    firstMember := written.member
    firstRun := ofFirst.symm
    firstSucceeded
    seen := seen.trans firstClock
    firstDate := written.date
    runId := ofState ▸ sound.valid state written'.member
    ordinal := isOrdinal ▸ positive
    number
    positive := isPositive
    identity := ⟨_, congrArg TransitionRow.transitionId planned⟩ }⟩

section Prices

variable {transition : TransitionRow} {content : ContentRow} {request : Request}
  {record : Observation} {state first : RunRow}

theorem Traced.lmp (traced : Traced .lmp db transition content request record state first) :
    ∃ price : LmpObservation, record = .lmp price := by
  cases record with
  | lmp price => exact ⟨price, rfl⟩
  | load load =>
      have isLmp := traced.admissible.product.mpr traced.ofProduct
      cases isLmp

/-- **A row of the price fact has the columns of a price.** -/
theorem Traced.price {price : LmpObservation}
    (traced : Traced .lmp db transition content request (.lmp price) state first) :
    (historyRow transition content).values.price = some ⟨"DAY_AHEAD_HOURLY",
      price.location.text, price.lmp, price.energy, price.congestion, price.loss⟩ := by
  have values : content.values = valuesOf (.lmp price) := congrArg BatchRow.values traced.row
  rw [historyRow, values]
  rfl

theorem Traced.clocks (traced : Traced product db transition content request record state first)
    (good : Good db) : ∃ seen known, content.firstSeenAt = some seen ∧
      first.knowledgeAt = some seen ∧ transition.knownAt = some known ∧
      state.knowledgeAt = some known := by
  obtain ⟨seen, isSeen⟩ := Option.isSome_iff_exists.mp
    ((good.timed traced.firstMember).mpr traced.firstSucceeded)
  obtain ⟨known, isKnown⟩ := Option.isSome_iff_exists.mp
    ((good.timed traced.stateMember).mpr traced.stateSucceeded)
  exact ⟨seen, known, traced.seen.trans isSeen, isSeen, traced.known.trans isKnown, isKnown⟩

end Prices

/-- **The rows of a fact are traced.** -/
theorem CurrentFacts.traced (noCollisions : NoCollisions) (good : Good db)
    {table : List HistoryRow} (facts : CurrentFacts product db table) {row : HistoryRow}
    (member : row ∈ table) :
    ∃ transition content request record state first, row = historyRow transition content ∧
      Traced product db transition content request record state first := by
  obtain ⟨transition, content, occurs, same, _⟩ := facts.rows row member
  obtain ⟨request, record, state, first, traced⟩ := occurs.traced noCollisions good
  exact ⟨transition, content, request, record, state, first, same, traced⟩

end PowerMarket
