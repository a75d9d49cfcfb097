import PowerMarket.Analytics.Lineage
import PowerMarket.Library.Groups

/-!
# The tests of the price models

The tests that run after a build are queries for violations, and a test passes when its query
gives no row. `validLmpFacts` looks at every row of the price fact beside its runs and its content
in the raw tables: no row of the history violates a condition (`validFacts_nil`). `reconcileLmp`
compares the history and the fact with the raw transitions. For a table with different keys whose
rows come from the history, nothing differs exactly when the table has the current facts
(`reconcileStates_nil_iff`).
-/

set_option autoImplicit false

namespace PowerMarket

open Library

variable [Platform]

/-! ## Valid facts -/

/-- The first instant of 1970 in universal time. -/
def epochMicros : Int := 719163 * dayMicros

/-- The whole seconds since 1970. -/
def unixSeconds (time : UtcTime) : Int := (time.micros - epochMicros) / 1000000

/-- The whole seconds from one instant to another. -/
def secondsBetween (start stop : UtcTime) : Int := ((stop.micros : Int) - start.micros).tdiv 1000000

/-- Both times are known and the first is later. -/
def laterThan (time other : Option UtcTime) : Bool :=
  match time, other with
  | some t, some u => u < t
  | _, _ => false

/-- Both numbers are known and differ. -/
def numbersDiffer (number : Decimal) (other : Option Decimal) : Bool :=
  match other with
  | some d => number.value ≠ d.value
  | none => false

/-- Whether a row of the price fact violates a condition, beside the run of its transition, the
run that saw its content first and the content in the raw table. A row without the columns of a
price does. -/
def invalidLmpFact (f : HistoryRow) (r cr : Option RunRow) (c : Option ContentRow) : Bool :=
  match f.values.price with
  | none => true
  | some price =>
    let raw := c.bind (·.values.price)
    r.map (·.status) ≠ some .succeeded
      || cr.map (·.status) ≠ some .succeeded
      || c.isNone
      || some f.logicalKey ≠ c.map (·.logicalKey) || some f.contentHash ≠ c.map (·.contentHash)
      || f.source ≠ "CAISO"
      || f.logicalKeySchema ≠ "observation-key/v1"
      || f.contentHashSchema ≠ "observation-content/v1"
      || secondsBetween f.intervalStartUtc f.intervalEndUtc ≠ 3600
      || (unixSeconds f.intervalStartUtc).tmod 3600 ≠ 0
      || pacificDate f.intervalStartUtc ≠ .ok f.marketDate
      || f.stateKnownAt.isNone || f.firstSeenAt.isNone
      || f.stateKnownAt ≠ r.bind (·.knowledgeAt) || f.firstSeenAt ≠ cr.bind (·.knowledgeAt)
      || laterThan f.firstSeenAt f.stateKnownAt
      || numbersDiffer price.lmp (raw.map (·.lmp))
      || f.unit ≠ "USD/MWh" || price.market ≠ "DAY_AHEAD_HOURLY"
      || price.location ∉ ["TH_NP15_GEN-APND", "TH_SP15_GEN-APND", "TH_ZP26_GEN-APND"]
      || numbersDiffer price.energy (raw.map (·.energy))
      || numbersDiffer price.congestion (raw.map (·.congestion))
      || numbersDiffer price.loss (raw.map (·.loss))
      || some f.source ≠ c.map (·.source)
      || some f.product ≠ c.map (·.product)
      || some f.sourceDataset ≠ c.map (·.sourceDataset)
      || some f.marketDate ≠ c.map (·.marketDate)
      || some f.intervalStartUtc ≠ c.map (·.intervalStartUtc)
      || some f.intervalEndUtc ≠ c.map (·.intervalEndUtc)
      || some f.unit ≠ c.map (·.unit)
      || some price.market ≠ raw.map (·.market)
      || some price.location ≠ raw.map (·.location)

/-- The keys of the rows of a fact that violate a condition. -/
def validFacts
    (invalid : HistoryRow → Option RunRow → Option RunRow → Option ContentRow → Bool)
    (product : Product) (fact : List HistoryRow) (db : Database) : List String :=
  let withRun := leftJoin (fun f r => f.stateRunId = r.runId) fact db.runs
  let withFirst := leftJoin (fun row cr => row.1.firstRunId = cr.runId) withRun db.runs
  let withContent := leftJoin (fun row c => row.1.1.contentId = c.contentId) withFirst
    (db.contents product)
  (withContent.filter fun row => invalid row.1.1.1 row.1.1.2 row.1.2 row.2).map
    (·.1.1.1.logicalKey)

/-- The keys of the rows of the price fact that violate a condition. -/
def validLmpFacts : List HistoryRow → Database → List String :=
  validFacts invalidLmpFact .lmp

/-! ## Reconciliation -/

/-- What the raw transitions are ranked by. -/
def TransitionRow.rank (row : TransitionRow) : ℕ ×ₗ ℕ ×ₗ String :=
  toLex (row.ordinal, toLex (row.commitSequence, row.transitionId))

/-- Whether the state of a raw transition differs from that of a row of a model. -/
def stateDiffers (e : TransitionRow) (h : HistoryRow) : Bool :=
  e.contentId ≠ h.contentId || e.contentHash ≠ h.contentHash || e.ordinal ≠ h.stateOrdinal
    || e.commitSequence ≠ h.commitSequence || e.knownAt ≠ h.stateKnownAt

/-- Whether the two sides of a row of the history comparison differ. -/
def historyError : Option TransitionRow × Option HistoryRow → Bool
  | (some e, some h) => e.logicalKey ≠ h.logicalKey || stateDiffers e h
  | _ => true

/-- Whether the two sides of a row of the comparison of current states differ. -/
def currentError : Option TransitionRow × Option HistoryRow → Bool
  | (some e, some f) => e.transitionId ≠ f.transitionId || stateDiffers e f
  | _ => true

/-- The differences between the raw transitions of a product, the history and its fact. -/
def reconcileStates (product : Product) (fact : List HistoryRow) (db : Database) :
    List (String × Option String) :=
  let states := eligible (·.runId) db (db.transitions product)
  let expectedCurrent := latestByKey (·.logicalKey) TransitionRow.rank states
  let historyErrors := (fullOuterJoin (fun e h => e.transitionId = h.transitionId)
    states (intRevisionHistory product db)).filter historyError
  let currentErrors := (fullOuterJoin (fun e f => e.logicalKey = f.logicalKey)
    expectedCurrent fact).filter currentError
  historyErrors.map (fun row =>
      ("history", (row.1.map (·.transitionId)).or (row.2.map (·.transitionId)))) ++
    currentErrors.map fun row =>
      ("current", (row.1.map (·.logicalKey)).or (row.2.map (·.logicalKey)))

/-- The differences between the raw transitions, the history and the price fact. -/
def reconcileLmp : List HistoryRow → Database → List (String × Option String) :=
  reconcileStates .lmp

/-- The differences between the raw transitions, the history and the load fact. -/
def reconcileLoad : List HistoryRow → Database → List (String × Option String) :=
  reconcileStates .load

/-! ## The current facts pass -/

section Passes

variable {db : Database} {product : Product} {fact : List HistoryRow} {transition : TransitionRow}
  {content : ContentRow} {request : Request} {state first : RunRow}

omit [Platform] in
theorem numbersDiffer_self (number : Decimal) : numbersDiffer number (some number) = false := by
  simp [numbersDiffer]

/-- **A traced row of the price fact satisfies every condition** beside its own runs and
content. -/
theorem Traced.valid {price : LmpObservation}
    (traced : Traced .lmp db transition content request (.lmp price) state first)
    (good : Good db) (ordered : Platform.pacific.Ordered)
    (keeps : Platform.pacific.KeepsMidnights dayMicros)
    (clocks : ∀ seen known, content.firstSeenAt = some seen → transition.knownAt = some known →
      seen ≤ known) :
    invalidLmpFact (historyRow transition content) (some state) (some first) (some content) =
      false := by
  obtain ⟨seen, known, isSeen, firstKnown, isKnown, stateKnown⟩ := traced.clocks good
  have inOrder : ¬ known < seen := not_lt.mpr (clocks seen known isSeen isKnown)
  have dated : pacificDate price.interval.start = .ok request.day :=
    (pacificDate_iff ordered keeps).mp ⟨traced.admissible.start_le, traced.admissible.start_lt⟩
  have length : secondsBetween price.interval.start price.interval.stop = 3600 := by
    rw [secondsBetween, price.interval.length]
    push_cast
    rw [add_sub_cancel_left]
    rfl
  have aligned : (unixSeconds price.interval.start).tmod 3600 = 0 := by
    have whole := price.interval.aligned
    apply Int.tmod_eq_zero_of_dvd
    unfold unixSeconds epochMicros dayMicros
    omega
  have named : price.location.text = "TH_NP15_GEN-APND" ∨
      price.location.text = "TH_SP15_GEN-APND" ∨ price.location.text = "TH_ZP26_GEN-APND" := by
    cases price.location <;> simp [Hub.text]
  have values : (valuesOf (.lmp price)).price = some ⟨"DAY_AHEAD_HOURLY", price.location.text,
    price.lmp, price.energy, price.congestion, price.loss⟩ := rfl
  have row := traced.row
  obtain ⟨batch, firstRunId, firstSeenAt⟩ := content
  obtain rfl : batch = rowOf request (.lmp price) := row
  dsimp only at isSeen
  subst isSeen
  simp [invalidLmpFact, historyRow, rowOf, values, traced.stateSucceeded,
    traced.firstSucceeded, isKnown, stateKnown, firstKnown, laterThan, inOrder, numbersDiffer_self,
    Observation.source, Observation.unit, Observation.intervalStartUtc,
    Observation.intervalEndUtc, keySchema, contentSchema, length, aligned, dated, named]

/-- A left join to the manifests finds the manifest of each row. -/
theorem joined_run (good : Good db) {α : Type} {runId : α → String} {rows : List α} {a : α}
    {found : Option RunRow} {run : RunRow}
    (member : (a, found) ∈ leftJoin (fun a run => runId a = run.runId) rows db.runs)
    (at_run : run ∈ db.runs) (ofRun : run.runId = runId a) : a ∈ rows ∧ found = some run := by
  obtain ⟨inRows, other, at_other, same, rfl⟩ :=
    leftJoin_matched member ⟨run, at_run, decide_eq_true ofRun.symm⟩
  have isRun := run_unique good.unique at_other at_run
    ((of_decide_eq_true same).symm.trans ofRun.symm)
  exact ⟨inRows, congrArg some isRun⟩

/-- **No row of the history violates a condition** that rows beside their own runs and contents
satisfy. -/
theorem validFacts_nil (noCollisions : NoCollisions) {w : Cloud} (orderly : Orderly w)
    (drawn : fact ⊆ intRevisionHistory product w.store)
    {invalid : HistoryRow → Option RunRow → Option RunRow → Option ContentRow → Bool}
    (valid : ∀ transition content request record state first,
      Traced product w.store transition content request record state first →
      (∀ seen known, content.firstSeenAt = some seen → transition.knownAt = some known →
        seen ≤ known) →
      invalid (historyRow transition content) (some state) (some first) (some content) = false) :
    validFacts invalid product fact w.store = [] := by
  have good := orderly.good
  rw [validFacts, List.map_eq_nil_iff, List.filter_eq_nil_iff]
  rintro ⟨⟨⟨f, r⟩, cr⟩, c⟩ member
  have inFact : f ∈ fact := leftJoin_left (leftJoin_left (leftJoin_left member))
  obtain ⟨transition, content, occurs, rfl⟩ := mem_intRevisionHistory.mp (drawn inFact)
  obtain ⟨request, record, state, first, traced⟩ := occurs.traced noCollisions good
  obtain ⟨withFirst, raw, at_raw, sameId, rfl⟩ :=
    leftJoin_matched member ⟨content, occurs.inContents, decide_eq_true rfl⟩
  obtain ⟨withRun, rfl⟩ := joined_run good withFirst traced.firstMember traced.firstRun
  obtain ⟨_, rfl⟩ := joined_run good withRun traced.stateMember traced.stateRun
  obtain rfl : content = raw :=
    List.inj_on_of_nodup_map (good.ids noCollisions product).1 occurs.inContents at_raw
      (of_decide_eq_true sameId)
  rw [valid transition content request record state first traced fun seen known isSeen isKnown => ?_]
  · exact Bool.false_ne_true
  · obtain ⟨other, at_other, sameContent, seen', known', isSeen', isKnown', le⟩ :=
      orderly.content_seen noCollisions occurs.inTransitions traced.stateMember
        traced.stateRun traced.stateSucceeded
    obtain rfl : other = content :=
      List.inj_on_of_nodup_map (good.ids noCollisions product).1 at_other occurs.inContents
        (sameContent.trans occurs.refers)
    rw [isSeen] at isSeen'
    rw [isKnown] at isKnown'
    cases isSeen'
    cases isKnown'
    exact le

/-- **No row of the price fact violates a condition**, wherever in the history it comes from. -/
theorem validLmpFacts_nil (noCollisions : NoCollisions) {w : Cloud} (orderly : Orderly w)
    (ordered : Platform.pacific.Ordered) (keeps : Platform.pacific.KeepsMidnights dayMicros)
    {fact : List HistoryRow} (drawn : fact ⊆ intRevisionHistory .lmp w.store) :
    validLmpFacts fact w.store = [] := by
  refine validFacts_nil noCollisions orderly drawn ?_
  intro transition content request record state first traced clocks
  obtain ⟨price, rfl⟩ := traced.lmp
  exact traced.valid orderly.good ordered keeps clocks

theorem Occurs.stateDiffers (noCollisions : NoCollisions) (good : Good db)
    (occurs : Occurs product db transition content) :
    stateDiffers transition (historyRow transition content) = false := by
  obtain ⟨_, hash⟩ := occurs.same noCollisions good
  simp [PowerMarket.stateDiffers, historyRow, occurs.refers, hash]

omit [Platform] in
/-- The raw transitions of runs that have succeeded. -/
theorem mem_states {transition : TransitionRow} :
    transition ∈ eligible (·.runId) db (db.transitions product) ↔
      transition ∈ db.transitions product ∧ EligibleRun db transition.runId := mem_eligible

/-- The history agrees with the raw transitions. -/
theorem Good.history_reconciled (noCollisions : NoCollisions) (good : Good db) :
    (fullOuterJoin (fun e h => decide (e.transitionId = h.transitionId))
      (eligible (fun t : TransitionRow => t.runId) db (db.transitions product))
      (intRevisionHistory product db)).filter historyError = [] := by
  refine (fullOuterJoin_filter_nil_iff (fun _ => rfl) fun _ => rfl).mpr ⟨?_, ?_, ?_⟩
  · intro e at_e
    obtain ⟨inTransitions, succeeded⟩ := mem_states.mp at_e
    obtain ⟨content, occurs⟩ := good.occurs noCollisions inTransitions succeeded
    exact ⟨historyRow e content, mem_intRevisionHistory.mpr ⟨e, content, occurs, rfl⟩,
      decide_eq_true rfl⟩
  · intro h at_h
    obtain ⟨transition, content, occurs, rfl⟩ := mem_intRevisionHistory.mp at_h
    exact ⟨transition, mem_states.mpr ⟨occurs.inTransitions, occurs.run⟩, decide_eq_true rfl⟩
  · intro e at_e h at_h same
    obtain ⟨transition, content, occurs, rfl⟩ := mem_intRevisionHistory.mp at_h
    obtain rfl : e = transition :=
      List.inj_on_of_nodup_map (good.ids noCollisions product).2 (mem_states.mp at_e).1
        occurs.inTransitions (of_decide_eq_true same)
    have key : e.logicalKey = (historyRow e content).logicalKey :=
      (occurs.same noCollisions good).1.symm
    simp [historyError, occurs.stateDiffers noCollisions good, ← key]

/-- **A table passes exactly when it has the current facts.** -/
theorem reconcileStates_nil_iff (noCollisions : NoCollisions) (good : Good db)
    (keys : (fact.map (·.logicalKey)).Nodup) (drawn : fact ⊆ intRevisionHistory product db) :
    reconcileStates product fact db = [] ↔ CurrentFacts product db fact := by
  have current : reconcileStates product fact db = [] ↔
      (fullOuterJoin (fun e f => decide (e.logicalKey = f.logicalKey))
        (latestByKey (fun t : TransitionRow => t.logicalKey) TransitionRow.rank
          (eligible (fun t : TransitionRow => t.runId) db (db.transitions product))) fact).filter
            currentError = [] := by
    rw [reconcileStates]
    simp only [good.history_reconciled noCollisions, List.map_nil, List.nil_append,
      List.map_eq_nil_iff]
  rw [current, fullOuterJoin_filter_nil_iff (fun _ => rfl) fun _ => rfl]
  constructor
  · rintro ⟨lefts, rights, same⟩
    refine ⟨keys, fun row member => ?_, fun transition at_transition succeeded => ?_⟩
    · obtain ⟨transition, content, occurs, rfl⟩ := mem_intRevisionHistory.mp (drawn member)
      obtain ⟨e, at_e, sameKey⟩ := rights _ member
      obtain ⟨inStates, greatest⟩ := latestByKey_sound at_e
      have agrees := same e at_e _ member sameKey
      have ids : e.transitionId = transition.transitionId := by
        rw [currentError, Bool.or_eq_false_iff] at agrees
        exact not_not.mp (of_decide_eq_false agrees.1)
      obtain rfl : e = transition :=
        List.inj_on_of_nodup_map (good.ids noCollisions product).2 (mem_states.mp inStates).1
          occurs.inTransitions ids
      refine ⟨e, content, occurs, rfl, (occurs.same noCollisions good).1,
        fun other at_other key succeeded => ?_⟩
      exact Prod.Lex.monotone_fst _ _ (greatest other (mem_states.mpr ⟨at_other, succeeded⟩) key)
    · obtain ⟨e, at_e, sameKey⟩ := latestByKey_complete (fun t : TransitionRow => t.logicalKey)
        TransitionRow.rank (mem_states.mpr ⟨at_transition, succeeded⟩)
      obtain ⟨row, member, ofKey⟩ := lefts e at_e
      exact ⟨row, member, (of_decide_eq_true ofKey).symm.trans sameKey⟩
  · intro facts
    refine ⟨fun e at_e => ?_, fun f at_f => ?_, fun e at_e f at_f sameKey => ?_⟩
    · obtain ⟨inTransitions, succeeded⟩ := mem_states.mp (latestByKey_sound at_e).1
      obtain ⟨f, at_f, key⟩ := facts.complete e inTransitions succeeded
      exact ⟨f, at_f, decide_eq_true key.symm⟩
    · obtain ⟨transition, content, occurs, rfl, key, _⟩ := facts.rows f at_f
      obtain ⟨e, at_e, sameKey⟩ := latestByKey_complete (fun t : TransitionRow => t.logicalKey)
        TransitionRow.rank (mem_states.mpr ⟨occurs.inTransitions, occurs.run⟩)
      exact ⟨e, at_e, decide_eq_true (sameKey.trans key.symm)⟩
    · obtain ⟨transition, content, occurs, rfl, key, greatest⟩ := facts.rows f at_f
      obtain ⟨inStates, greatest'⟩ := latestByKey_sound at_e
      obtain ⟨inTransitions, succeeded⟩ := mem_states.mp inStates
      have ofKey : e.logicalKey = transition.logicalKey := (of_decide_eq_true sameKey).trans key
      have ge := Prod.Lex.monotone_fst _ _ (greatest' transition
        (mem_states.mpr ⟨occurs.inTransitions, occurs.run⟩) ofKey.symm)
      obtain rfl := good.ordinal_inj noCollisions inTransitions occurs.inTransitions ofKey
        (le_antisymm (greatest e inTransitions ofKey succeeded) ge)
      have ids : e.transitionId = (historyRow e content).transitionId := rfl
      simp [currentError, occurs.stateDiffers noCollisions good, ← ids]

omit [Platform] in
theorem CurrentFacts.drawn (facts : CurrentFacts product db fact) :
    fact ⊆ intRevisionHistory product db := by
  intro row member
  obtain ⟨transition, content, occurs, same, _⟩ := facts.rows row member
  exact mem_intRevisionHistory.mpr ⟨transition, content, occurs, same⟩

theorem reconcileLmp_nil (noCollisions : NoCollisions) (good : Good db)
    (facts : CurrentFacts .lmp db fact) : reconcileLmp fact db = [] :=
  (reconcileStates_nil_iff noCollisions good facts.keys facts.drawn).mpr facts

end Passes

end PowerMarket
