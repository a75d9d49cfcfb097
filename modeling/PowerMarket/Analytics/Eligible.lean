import PowerMarket.Analytics.Models
import PowerMarket.Warehouse.Origins
import PowerMarket.KnowledgeClocks

/-!
# The eligible history

The revision history has one row for each transition whose run has succeeded, joined to the one
content that it refers to (`Occurs`, `Good.occurs`). Of one key the rows with greater commit
sequence numbers have greater ordinals, and a run that had not succeeded has a greater number than
every run that had (`Good.extension`). That is all that an incremental build needs.
-/

set_option autoImplicit false

namespace PowerMarket

open Library

/-! ## Joins -/

/-- The run with an id has succeeded. -/
def EligibleRun (db : Database) (runId : String) : Prop :=
  ∃ run ∈ db.runs, run.runId = runId ∧ run.status = .succeeded

/-- **A staging model** keeps the rows of the runs that have succeeded. -/
theorem mem_eligible {α : Type} {runId : α → String} {db : Database} {rows : List α} {row : α} :
    row ∈ eligible runId db rows ↔
      row ∈ rows ∧ EligibleRun db (runId row) := by
  unfold eligible stgIngestionRuns
  constructor
  · intro member
    obtain ⟨⟨other, run⟩, joined, rfl⟩ := List.mem_map.mp member
    obtain ⟨at_pair, succeeded⟩ := List.mem_filter.mp joined
    obtain ⟨inRows, inRuns, ofRun⟩ := mem_innerJoin.mp at_pair
    exact ⟨inRows, run, inRuns, (of_decide_eq_true ofRun).symm, of_decide_eq_true succeeded⟩
  · rintro ⟨member, run, inRuns, ofRun, succeeded⟩
    refine List.mem_map.mpr ⟨(row, run), List.mem_filter.mpr ⟨?_, decide_eq_true succeeded⟩, rfl⟩
    exact mem_innerJoin.mpr ⟨member, inRuns, decide_eq_true ofRun.symm⟩

/-- A transition to a content, each of a run that has succeeded. -/
structure Occurs (product : Product) (db : Database) (transition : TransitionRow)
    (content : ContentRow) : Prop where
  inTransitions : transition ∈ db.transitions product
  run : EligibleRun db transition.runId
  inContents : content ∈ db.contents product
  first : EligibleRun db content.firstRunId
  refers : transition.contentId = content.contentId

/-- **The rows of the revision history.** -/
theorem mem_intRevisionHistory {product : Product} {db : Database} {row : HistoryRow} :
    row ∈ intRevisionHistory product db ↔
      ∃ transition content, Occurs product db transition content ∧
        row = historyRow transition content := by
  constructor
  · intro member
    obtain ⟨⟨transition, content⟩, joined, rfl⟩ := List.mem_map.mp member
    obtain ⟨at_transition, at_content, refers⟩ := mem_innerJoin.mp joined
    obtain ⟨inTransitions, run⟩ := mem_eligible.mp at_transition
    obtain ⟨inContents, first⟩ := mem_eligible.mp at_content
    exact ⟨transition, content, ⟨inTransitions, run, inContents, first, of_decide_eq_true refers⟩,
      rfl⟩
  · rintro ⟨transition, content, occurs, rfl⟩
    refine List.mem_map.mpr ⟨(transition, content), mem_innerJoin.mpr ⟨?_, ?_, ?_⟩, rfl⟩
    · exact mem_eligible.mpr ⟨occurs.inTransitions, occurs.run⟩
    · exact mem_eligible.mpr ⟨occurs.inContents, occurs.first⟩
    · exact decide_eq_true occurs.refers

section Good

variable [Platform] {db : Database} {product : Product}

theorem Good.ids (noCollisions : NoCollisions) (good : Good db) (product : Product) :
    ((db.contents product).map (·.contentId)).Nodup ∧
      ((db.transitions product).map (·.transitionId)).Nodup := by
  rcases id good with rfl | ⟨c, _, _⟩
  · exact ⟨List.nodup_nil, List.nodup_nil⟩
  · by_cases created : db = .created
    · rw [created]
      exact ⟨List.nodup_nil, List.nodup_nil⟩
    · obtain ⟨_, _, _, _, law⟩ := good.history noCollisions created
      exact ⟨(law product).catalogue.contentIds, (law product).catalogue.transitionIds⟩

theorem Good.occurs (noCollisions : NoCollisions) (good : Good db) {transition : TransitionRow}
    (member : transition ∈ db.transitions product)
    (run : EligibleRun db transition.runId) : ∃ content, Occurs product db transition content := by
  obtain ⟨row, at_row, ofRun, succeeded⟩ := id run
  obtain ⟨content, at_content, sameId, first, at_first, _, _, _, ofFirst, firstSucceeded, _⟩ :=
    good.content_first noCollisions member at_row ofRun succeeded
  exact ⟨content, member, run, at_content, ⟨first, at_first, ofFirst, firstSucceeded⟩, sameId.symm⟩

theorem Occurs.unique (noCollisions : NoCollisions) (good : Good db) {transition : TransitionRow}
    {content other : ContentRow} (occurs : Occurs product db transition content)
    (occurs' : Occurs product db transition other) : content = other :=
  List.inj_on_of_nodup_map (good.ids noCollisions product).1 occurs.inContents occurs'.inContents
    (occurs.refers.symm.trans occurs'.refers)

theorem Occurs.same (noCollisions : NoCollisions) (good : Good db) {transition : TransitionRow}
    {content : ContentRow} (occurs : Occurs product db transition content) :
    content.logicalKey = transition.logicalKey ∧ content.contentHash = transition.contentHash := by
  have seeded : db ≠ .created := by
    rintro rfl
    cases occurs.inTransitions
  obtain ⟨_, _, _, _, law⟩ := good.history noCollisions seeded
  obtain ⟨other, at_other, sameId, key, hash⟩ :=
    (law product).catalogue.references transition occurs.inTransitions
  have same : other = content :=
    List.inj_on_of_nodup_map (law product).catalogue.contentIds at_other occurs.inContents
      (sameId.trans occurs.refers)
  exact same ▸ ⟨key, hash⟩

/-- The number of an eligible transition is that of its run, positive and at most the number of
commits so far. -/
theorem Occurs.numbered {c : ControlRow} (sound : Sound c db) {transition : TransitionRow}
    {content : ContentRow} (occurs : Occurs product db transition content) :
    ∃ run ∈ db.runs, run.runId = transition.runId ∧ run.status = .succeeded ∧
      run.commitSequence = some transition.commitSequence ∧
      0 < transition.commitSequence ∧ transition.commitSequence ≤ c.sequence := by
  obtain ⟨run, at_run, ofRun, succeeded⟩ := occurs.run
  obtain ⟨row, wrote, ofRow, number, _⟩ := sound.transitions product transition occurs.inTransitions
  obtain rfl := run_unique sound.unique wrote.member at_run (ofRow.trans ofRun.symm)
  obtain ⟨n, below, numbered⟩ := sound.numbered row at_run wrote.committed
  have same : transition.commitSequence = n + 1 := Option.some.inj (number.symm.trans numbered)
  exact ⟨row, at_run, ofRun, succeeded, number, by omega, by omega⟩

/-- **Of one key, later transitions have greater ordinals.** -/
theorem Good.ordinal_lt (noCollisions : NoCollisions) (good : Good db)
    {transition other : TransitionRow} (member : transition ∈ db.transitions product)
    (member' : other ∈ db.transitions product) (key : transition.logicalKey = other.logicalKey)
    (earlier : transition.commitSequence < other.commitSequence) :
    transition.ordinal < other.ordinal := by
  have seeded : db ≠ .created := by
    rintro rfl
    cases member
  obtain ⟨_, _, _, _, law⟩ := good.history noCollisions seeded
  have history := (law product).history other.logicalKey
  have both := history.revised.increasing.and history.increasing
  obtain ⟨i, within, at_i⟩ := List.mem_iff_getElem.mp (mem_keyTransitions.mpr ⟨member, key⟩)
  obtain ⟨j, within', at_j⟩ := List.mem_iff_getElem.mp (mem_keyTransitions.mpr ⟨member', rfl⟩)
  rcases Nat.lt_trichotomy i j with before | rfl | after
  · have ordered := (List.pairwise_iff_getElem.mp both) i j within within' before
    rw [at_i, at_j] at ordered
    exact ordered.1
  · rw [at_i] at at_j
    rw [at_j] at earlier
    exact absurd earlier (Nat.lt_irrefl _)
  · have ordered := (List.pairwise_iff_getElem.mp both) j i within' within after
    rw [at_i, at_j] at ordered
    exact absurd (ordered.2.trans earlier) (Nat.lt_irrefl _)

/-- Of one key, a transition is determined by its ordinal. -/
theorem Good.ordinal_inj (noCollisions : NoCollisions) (good : Good db)
    {transition other : TransitionRow} (member : transition ∈ db.transitions product)
    (member' : other ∈ db.transitions product) (key : transition.logicalKey = other.logicalKey)
    (same : transition.ordinal = other.ordinal) : transition = other := by
  have seeded : db ≠ .created := by
    rintro rfl
    cases member
  obtain ⟨_, _, _, _, law⟩ := good.history noCollisions seeded
  have distinct : ((keyTransitions product other.logicalKey db).map (·.ordinal)).Nodup := by
    rw [((law product).history other.logicalKey).revised.numbers]
    exact List.nodup_range'
  exact List.inj_on_of_nodup_map distinct (mem_keyTransitions.mpr ⟨member, key⟩)
    (mem_keyTransitions.mpr ⟨member', rfl⟩) same

theorem Good.rankedApart (noCollisions : NoCollisions) (good : Good db) (product : Product) :
    RankedApart (·.logicalKey) (·.rank) (intRevisionHistory product db) := by
  intro a at_a b at_b _ rank
  obtain ⟨transition, content, occurs, rfl⟩ := mem_intRevisionHistory.mp at_a
  obtain ⟨transition', content', occurs', rfl⟩ := mem_intRevisionHistory.mp at_b
  have ids : transition.transitionId = transition'.transitionId :=
    congrArg (fun rank => (ofLex (ofLex rank).2).2) rank
  obtain rfl := List.inj_on_of_nodup_map (good.ids noCollisions product).2 occurs.inTransitions
    occurs'.inTransitions ids
  rw [occurs.unique noCollisions good occurs']

theorem Occurs.later (noCollisions : NoCollisions) (good : Good db) {after : Database}
    (precedes : Precedes db after) {transition : TransitionRow} {content : ContentRow}
    (occurs : Occurs product db transition content) : Occurs product after transition content := by
  have kept := precedes.clocksKept fun row member set => (good.timed member).mp set
  have stays : ∀ {runId : String}, EligibleRun db runId → EligibleRun after runId := by
    rintro runId ⟨run, at_run, ofRun, succeeded⟩
    exact ⟨run, precedes.final at_run (.inl succeeded), ofRun, succeeded⟩
  have clockSet : ∀ {clock : Option UtcTime} {run row : RunRow}, run ∈ db.runs → row ∈ db.runs →
      row.runId = run.runId → run.status = .succeeded → Clocked clock row → clock.isSome := by
    intro clock run row at_run at_row same succeeded clocked
    obtain rfl := run_unique good.unique at_row at_run same
    rw [clocked.known (by rw [succeeded]; exact fun impossible => by cases impossible)]
    exact (good.timed at_run).mpr succeeded
  refine ⟨?_, stays occurs.run, ?_, stays occurs.first, occurs.refers⟩
  · obtain ⟨run, at_run, ofRun, succeeded⟩ := occurs.run
    obtain ⟨row, at_row, ofRow, clocked⟩ :=
      good.transitions_clocked noCollisions occurs.inTransitions
    exact kept.transitions product transition occurs.inTransitions
      (clockSet at_run at_row (ofRow.trans ofRun.symm) succeeded clocked)
  · obtain ⟨run, at_run, ofRun, succeeded⟩ := occurs.first
    obtain ⟨row, at_row, ofRow, clocked⟩ := good.contents_clocked noCollisions occurs.inContents
    exact kept.contents product content occurs.inContents
      (clockSet at_run at_row (ofRow.trans ofRun.symm) succeeded clocked)

/-- **A run that had not succeeded has a greater number than every run that had.** An eligible
transition whose number is not above that of an earlier eligible one was eligible then. -/
theorem Good.occurs_late (noCollisions : NoCollisions) (good : Good db) {after : Database}
    (good' : Good after) (precedes : Precedes db after) {transition other : TransitionRow}
    {content content' : ContentRow} (occurs : Occurs product db transition content)
    (occurs' : Occurs product after other content')
    (small : other.commitSequence ≤ transition.commitSequence) :
    Occurs product db other content' := by
  have seeded : db ≠ .created := by
    rintro rfl
    cases occurs.inTransitions
  obtain ⟨c, sound, _⟩ := good.resolve_left seeded
  obtain ⟨run, at_run, _, succeeded, number, _, bounded⟩ := occurs.numbered sound
  rcases (precedes.transitions product).origin occurs'.inTransitions with
    ⟨before, at_before, move⟩ | late
  · have sameNumber : before.commitSequence = other.commitSequence := by
      rcases move with rfl | ⟨_, _, rfl⟩ <;> rfl
    obtain ⟨row, wrote, ofRow, number', clock⟩ := sound.transitions product before at_before
    have rowSucceeded : row.status = .succeeded := by
      refine (Status.hasCommitted_iff.mp wrote.committed).resolve_left fun committed => ?_
      have last := sound.newest row wrote.member committed
      rw [number', Option.some.injEq] at last
      have same : row.commitSequence = run.commitSequence := by
        rw [number, number']
        exact congrArg some (by omega)
      have isRun := sound.distinct row wrote.member run at_run wrote.committed
        (by rw [succeeded]; rfl) same
      rw [isRun, succeeded] at committed
      cases committed
    have unchanged : other = before := by
      rcases move with rfl | ⟨missing, _, _⟩
      · rfl
      · have clocked := wrote.clocked noCollisions sound
        rw [← clock] at clocked
        rw [clocked.missing.mp missing] at rowSucceeded
        cases rowSucceeded
    obtain ⟨first, occursFirst⟩ := good.occurs noCollisions at_before
      ⟨row, wrote.member, ofRow, rowSucceeded⟩
    rw [← unchanged] at occursFirst
    rwa [(occursFirst.later noCollisions good precedes).unique noCollisions good' occurs']
      at occursFirst
  · rw [sound.seeded.sequence] at late
    omega

/-- **The history only gets longer at its end.** -/
theorem Good.extension (noCollisions : NoCollisions) (good : Good db) {after : Database}
    (good' : Good after) (precedes : Precedes db after) (product : Product) :
    Extension (·.logicalKey) (·.rank) (·.commitSequence) (intRevisionHistory product db)
      (intRevisionHistory product after) where
  kept := by
    intro row member
    obtain ⟨transition, content, occurs, rfl⟩ := mem_intRevisionHistory.mp member
    exact mem_intRevisionHistory.mpr
      ⟨transition, content, occurs.later noCollisions good precedes, rfl⟩
  positive := by
    intro row member
    obtain ⟨transition, content, occurs, rfl⟩ := mem_intRevisionHistory.mp member
    have seeded : after ≠ .created := by
      rintro rfl
      cases occurs.inTransitions
    obtain ⟨c, sound, _⟩ := good'.resolve_left seeded
    obtain ⟨_, _, _, _, _, positive, _⟩ := occurs.numbered sound
    exact positive
  late := by
    intro row member other member' small
    obtain ⟨transition, content, occurs, rfl⟩ := mem_intRevisionHistory.mp member
    obtain ⟨transition', content', occurs', rfl⟩ := mem_intRevisionHistory.mp member'
    exact mem_intRevisionHistory.mpr ⟨transition', content',
      good.occurs_late noCollisions good' precedes occurs occurs' small, rfl⟩
  ranked := by
    intro row member other member' key earlier
    obtain ⟨transition, content, occurs, rfl⟩ := mem_intRevisionHistory.mp member
    obtain ⟨transition', content', occurs', rfl⟩ := mem_intRevisionHistory.mp member'
    have keys : transition.logicalKey = transition'.logicalKey :=
      (occurs.same noCollisions good').1.symm.trans
        (key.trans (occurs'.same noCollisions good').1)
    exact Prod.Lex.left _ _ (good'.ordinal_lt noCollisions occurs.inTransitions occurs'.inTransitions
      keys earlier)

/-! ## The current facts -/

/-- The table has one row for each key with a transition whose run has succeeded: the transition
of the key with the greatest ordinal among these, joined to its content. -/
structure CurrentFacts (product : Product) (db : Database) (table : List HistoryRow) : Prop where
  keys : (table.map (·.logicalKey)).Nodup
  rows : ∀ row ∈ table, ∃ transition content, Occurs product db transition content ∧
    row = historyRow transition content ∧ row.logicalKey = transition.logicalKey ∧
    ∀ other ∈ db.transitions product, other.logicalKey = transition.logicalKey →
      EligibleRun db other.runId → other.ordinal ≤ transition.ordinal
  complete : ∀ transition ∈ db.transitions product,
    EligibleRun db transition.runId → ∃ row ∈ table, row.logicalKey = transition.logicalKey

/-- **The query on the whole history selects the current facts.** -/
theorem Good.currentFacts (noCollisions : NoCollisions) (good : Good db) (product : Product) :
    CurrentFacts product db (factQuery product none db) where
  keys := latestByKey_keys _ _ _
  rows := by
    intro row member
    obtain ⟨inHistory, greatest⟩ := latestByKey_sound member
    obtain ⟨transition, content, occurs, rfl⟩ := mem_intRevisionHistory.mp inHistory
    refine ⟨transition, content, occurs, rfl, (occurs.same noCollisions good).1, ?_⟩
    intro other at_other key succeeded
    obtain ⟨content', occurs'⟩ := good.occurs noCollisions at_other succeeded
    have le := greatest (historyRow other content')
      (mem_intRevisionHistory.mpr ⟨other, content', occurs', rfl⟩)
      ((occurs'.same noCollisions good).1.trans
        (key.trans (occurs.same noCollisions good).1.symm))
    exact Prod.Lex.monotone_fst _ _ le
  complete := by
    intro transition at_transition succeeded
    obtain ⟨content, occurs⟩ := good.occurs noCollisions at_transition succeeded
    obtain ⟨row, isLatest, key⟩ := latestByKey_complete (·.logicalKey) (·.rank)
      (mem_intRevisionHistory.mpr ⟨transition, content, occurs, rfl⟩)
    exact ⟨row, isLatest, key.trans (occurs.same noCollisions good).1⟩

omit [Platform] in
theorem CurrentFacts.perm {table table' : List HistoryRow} (facts : CurrentFacts product db table)
    (perm : table.Perm table') : CurrentFacts product db table' where
  keys := (perm.map _).nodup_iff.mp facts.keys
  rows row member := facts.rows row (perm.mem_iff.mpr member)
  complete transition at_transition succeeded := by
    obtain ⟨row, member, key⟩ := facts.complete transition at_transition succeeded
    exact ⟨row, perm.mem_iff.mp member, key⟩

end Good

end PowerMarket
