import PowerMarket.Warehouse.History
import PowerMarket.Warehouse.Linearization

/-!
# What a manifest says about the rows of its run

The manifest of a committed run counts the rows that the run wrote and documents the batch whose
plan was written (`Truthful`). A new content is a new state of its key, so that a run has at most
as many contents as transitions (`Commits.ordered`). `acceptAll_truthful` proves this of a serial
execution, and `Good.truthful` of the tables of the concurrent system.
-/

set_option autoImplicit false

namespace PowerMarket

open Library

/-! ## The rows of a run -/

/-- The contents that a run was the first to see. -/
def ownContents (product : Product) (runId : String) (db : Database) : List ContentRow :=
  (db.contents product).filter (·.firstRunId = runId)

/-- The transitions of a run. -/
def ownTransitions (product : Product) (runId : String) (db : Database) : List TransitionRow :=
  (db.transitions product).filter (·.runId = runId)

theorem ownContents_of_clocks {product : Product} {db after : Database}
    (clocks : SameButClocks product db after) (runId : String) :
    (ownContents product runId after).map (·.setClock none) =
      (ownContents product runId db).map (·.setClock none) := by
  obtain ⟨clock, contents⟩ := clocks.contents
  rw [ownContents, contents, List.filter_map, List.map_map]
  rfl

theorem ownTransitions_of_clocks {product : Product} {db after : Database}
    (clocks : SameButClocks product db after) (runId : String) :
    (ownTransitions product runId after).map (·.setClock none) =
      (ownTransitions product runId db).map (·.setClock none) := by
  obtain ⟨clock, transitions⟩ := clocks.transitions
  rw [ownTransitions, transitions, List.filter_map, List.map_map]
  rfl

variable [Platform]

/-- **A truthful manifest.** It documents a batch of its request, and the rows of its run in the
tables are the rows of the plan for that batch, apart from their clocks. -/
structure Truthful (db : Database) (row : RunRow) (request : Request)
    (records : List Observation) (batch : List BatchRow) (current : Snapshot) (plan : WritePlan) :
    Prop where
  requestId : row.requestId = request.requestId
  batched : batchRows request records = .ok batch
  planned : planWrite row.runId batch current = .ok plan
  rowsAccepted : row.rowsAccepted = some batch.length
  batchHash : row.batchHash = some (PowerMarket.batchHash batch)
  contents : ∀ product, (ownContents product row.runId db).map (·.setClock none) =
    if product = request.product then plan.contents else []
  transitions : ∀ product, (ownTransitions product row.runId db).map (·.setClock none) =
    if product = request.product then plan.transitions else []
  newContents : row.newContents = some plan.contents.length
  newTransitions : row.newTransitions = some plan.transitions.length
  ordered : plan.contents.length ≤ plan.transitions.length
  bounded : plan.transitions.length ≤ batch.length

section Counts

variable {db : Database} {row : RunRow} {request : Request} {records : List Observation}
  {batch : List BatchRow} {current : Snapshot} {plan : WritePlan}

theorem Truthful.contents_count (truthful : Truthful db row request records batch current plan) :
    (ownContents .lmp row.runId db).length + (ownContents .load row.runId db).length =
      plan.contents.length := by
  have lmp := congrArg List.length (truthful.contents .lmp)
  have load := congrArg List.length (truthful.contents .load)
  rw [List.length_map] at lmp load
  rw [lmp, load]
  cases request.product <;> simp

theorem Truthful.transitions_count
    (truthful : Truthful db row request records batch current plan) :
    (ownTransitions .lmp row.runId db).length + (ownTransitions .load row.runId db).length =
      plan.transitions.length := by
  have lmp := congrArg List.length (truthful.transitions .lmp)
  have load := congrArg List.length (truthful.transitions .load)
  rw [List.length_map] at lmp load
  rw [lmp, load]
  cases request.product <;> simp

end Counts

/-! ## One more run -/

section Commit

variable {entry : Entry} {c : ControlRow} {db : Database} {batch : List BatchRow}
  {current : Snapshot} {plan : WritePlan}

/-- **A new content is a new state of its key.** A run adds at most as many contents as
transitions. -/
theorem Commits.ordered (noCollisions : NoCollisions) (serial : Serial c db)
    (commits : Commits entry c db batch current plan) {entries : List Entry}
    (law : ProductHistory entry.request.product entries db) :
    (added entry current batch).length ≤ (moves entry current batch).length := by
  refine length_filterMap_le fun row member isNew => ?_
  obtain ⟨content, new⟩ := Option.isSome_iff_exists.mp isNew
  obtain ⟨unknown, _⟩ := newContent_eq_some.mp new
  have latest := commits.latest noCollisions serial law.catalogue member
    (law.history row.logicalKey)
  have known := commits.known_iff noCollisions serial law.catalogue member
  rw [newTransition, Option.isSome_map, nextOrdinal, latest]
  cases last : (keyTransitions entry.request.product row.logicalKey db).getLast? with
  | none => rfl
  | some transition =>
      obtain ⟨inTable, key⟩ := mem_keyTransitions.mp (List.mem_of_getLast? last)
      obtain ⟨content', at_content, _, key', hash⟩ := law.catalogue.references transition inTable
      have differs : transition.contentHash ≠ row.contentHash := fun same =>
        unknown (known.mpr ⟨content', mem_keyContents.mpr ⟨at_content, key'.trans key⟩,
          hash.trans same⟩)
      simp only [Option.map_some, ne_eq, differs, not_false_eq_true, ↓reduceIte, Option.isSome_some]

/-- **The contents of a run after one more run.** Only the run itself has new ones. -/
theorem Commits.ownContents (noCollisions : NoCollisions) (serial : Serial c db)
    (commits : Commits entry c db batch current plan)
    (catalogue : Catalogue entry.request.product db) (product : Product) (runId : String) :
    (ownContents product runId (afterRun entry plan c db)).map (·.setClock none) =
      (PowerMarket.ownContents product runId db).map (·.setClock none) ++
        if runId = entry.runId ∧ product = entry.request.product then plan.contents else [] := by
  rw [ownContents_of_clocks (afterRun_sameButClocks product entry plan c db)]
  by_cases same : product = entry.request.product
  · subst same
    rw [PowerMarket.ownContents, commits.contents noCollisions serial catalogue, List.filter_append,
      List.map_append, PowerMarket.ownContents]
    congr 1
    have plan_eq : plan.contents = added entry current batch := by
      rw [(planWrite_eq commits.planned).2]
    have ofEntry : ∀ content ∈ added entry current batch,
        content.firstRunId = entry.runId ∧ content.setClock none = content := by
      intro content member
      obtain ⟨row, _, isNew⟩ := List.mem_filterMap.mp member
      obtain ⟨_, rfl⟩ := newContent_eq_some.mp isNew
      exact ⟨rfl, rfl⟩
    by_cases mine : runId = entry.runId
    · rw [if_pos ⟨mine, rfl⟩, plan_eq, List.filter_eq_self.mpr fun content member =>
        decide_eq_true ((ofEntry content member).1.trans mine.symm)]
      exact (List.map_congr_left fun content member => (ofEntry content member).2).trans
        (List.map_id _)
    · rw [if_neg fun both => mine both.1, List.filter_eq_nil_iff.mpr fun content member same =>
        mine ((of_decide_eq_true same).symm.trans (ofEntry content member).1), List.map_nil]
  · rw [ownContents_of_clocks (afterCommit_other same), if_neg fun both => same both.2,
      List.append_nil]

/-- **The transitions of a run after one more run.** Only the run itself has new ones. -/
theorem Commits.ownTransitions (noCollisions : NoCollisions) (serial : Serial c db)
    (commits : Commits entry c db batch current plan)
    (catalogue : Catalogue entry.request.product db) (product : Product) (runId : String) :
    (ownTransitions product runId (afterRun entry plan c db)).map (·.setClock none) =
      (PowerMarket.ownTransitions product runId db).map (·.setClock none) ++
        if runId = entry.runId ∧ product = entry.request.product then plan.transitions else [] := by
  rw [ownTransitions_of_clocks (afterRun_sameButClocks product entry plan c db)]
  by_cases same : product = entry.request.product
  · subst same
    rw [PowerMarket.ownTransitions, commits.transitions noCollisions serial catalogue,
      List.filter_append, List.map_append, PowerMarket.ownTransitions]
    congr 1
    have plan_eq : plan.transitions = moves entry current batch := by
      rw [(planWrite_eq commits.planned).2]
    have ofEntry : ∀ transition ∈ moves entry current batch,
        transition.runId = entry.runId ∧ transition.setClock none = transition := by
      intro transition member
      obtain ⟨row, _, isNew⟩ := List.mem_filterMap.mp member
      obtain ⟨_, _, rfl⟩ := newTransition_eq_some.mp isNew
      exact ⟨rfl, rfl⟩
    by_cases mine : runId = entry.runId
    · rw [if_pos ⟨mine, rfl⟩, plan_eq, List.filter_eq_self.mpr fun transition member =>
        decide_eq_true ((ofEntry transition member).1.trans mine.symm)]
      exact (List.map_congr_left fun transition member => (ofEntry transition member).2).trans
        (List.map_id _)
    · rw [if_neg fun both => mine both.1, List.filter_eq_nil_iff.mpr fun transition member same =>
        mine ((of_decide_eq_true same).symm.trans (ofEntry transition member).1), List.map_nil]
  · rw [ownTransitions_of_clocks (afterCommit_other same), if_neg fun both => same both.2,
      List.append_nil]

theorem Sound.owns_nothing {runId : String} (sound : Sound c db)
    (fresh : ∀ row ∈ db.runs, row.runId ≠ runId) (product : Product) :
    PowerMarket.ownContents product runId db = [] ∧
      PowerMarket.ownTransitions product runId db = [] := by
  constructor
  · refine List.filter_eq_nil_iff.mpr fun content member same => ?_
    obtain ⟨owner, wrote, ofRun, _⟩ := sound.contents product content member
    exact fresh owner wrote.member (ofRun.trans (of_decide_eq_true same))
  · refine List.filter_eq_nil_iff.mpr fun transition member same => ?_
    obtain ⟨owner, wrote, ofRun, _⟩ := sound.transitions product transition member
    exact fresh owner wrote.member (ofRun.trans (of_decide_eq_true same))

/-- **The manifest of the last run is truthful.** -/
theorem Commits.truthful (noCollisions : NoCollisions) (serial : Serial c db)
    (commits : Commits entry c db batch current plan) {entries : List Entry}
    (law : ProductHistory entry.request.product entries db) :
    Truthful (afterRun entry plan c db) (entry.manifest plan) entry.request entry.records batch
      current plan := by
  have plan_eq := (planWrite_eq commits.planned).2
  have ofRun : (entry.manifest plan).runId = entry.runId := entry.manifest_runId plan
  have own := serial.sound.owns_nothing commits.fresh
  constructor
  case requestId => exact entry.manifest_requestId plan
  case batched => exact commits.batched
  case planned => exact ofRun ▸ commits.planned
  case contents =>
    intro product
    rw [ofRun, commits.ownContents noCollisions serial law.catalogue, (own product).1]
    simp
  case transitions =>
    intro product
    rw [ofRun, commits.ownTransitions noCollisions serial law.catalogue, (own product).2]
    simp
  case ordered =>
    rw [plan_eq]
    exact commits.ordered noCollisions serial law
  case bounded =>
    rw [plan_eq]
    exact List.length_filterMap_le _ _
  all_goals
    unfold Entry.manifest
    cases entry.finalization <;> simp [RunRow.commit, RunRow.succeed, commitParameters, plan_eq]

/-- One more run leaves the other manifests truthful. -/
theorem Truthful.accepted (noCollisions : NoCollisions) (serial : Serial c db)
    (commits : Commits entry c db batch current plan)
    (catalogue : Catalogue entry.request.product db) {row : RunRow} {request : Request}
    {records : List Observation} {batch' : List BatchRow} {current' : Snapshot}
    {plan' : WritePlan} (truthful : Truthful db row request records batch' current' plan')
    (member : row ∈ db.runs) :
    Truthful (afterRun entry plan c db) row request records batch' current' plan' := by
  have other : ∀ product, ¬ (row.runId = entry.runId ∧ product = entry.request.product) :=
    fun _ both => commits.fresh row member both.1
  refine { truthful with contents := fun product => ?_, transitions := fun product => ?_ }
  · rw [commits.ownContents noCollisions serial catalogue, if_neg (other product), List.append_nil,
      truthful.contents product]
  · rw [commits.ownTransitions noCollisions serial catalogue, if_neg (other product),
      List.append_nil, truthful.transitions product]

end Commit

/-! ## The run lemma -/

/-- **The run lemma.** After any number of runs every manifest is truthful. -/
theorem acceptAll_truthful (noCollisions : NoCollisions) {entries : List Entry} {db : Database}
    (accepted : acceptAll entries Database.seeded = .ok db) :
    ∀ row ∈ db.runs, ∃ request records batch current plan,
      Truthful db row request records batch current plan := by
  induction entries using List.reverseRecOn generalizing db with
  | nil =>
      cases accepted
      simp [Database.seeded, Database.created]
  | append_singleton entries entry ih =>
      obtain ⟨before, earlier, last⟩ := acceptAll_snoc.mp accepted
      obtain ⟨c, serial⟩ := acceptAll_serial earlier
      obtain ⟨batch, current, plan, commits, rfl⟩ := (acceptRun_iff serial).mp last
      have law := acceptAll_history noCollisions earlier entry.request.product
      intro row member
      rw [afterRun_runs commits] at member
      rcases List.mem_append.mp member with before | isLast
      · obtain ⟨_, _, _, _, _, truthful⟩ := ih earlier row before
        exact ⟨_, _, _, _, _, truthful.accepted noCollisions serial commits law.catalogue before⟩
      · rw [List.mem_singleton.mp isLast]
        exact ⟨_, _, _, _, _, commits.truthful noCollisions serial law⟩

/-- **The manifest of a run that has committed is truthful** in every good state. -/
theorem Good.truthful (noCollisions : NoCollisions) {db : Database} (good : Good db)
    {row : RunRow} (member : row ∈ db.runs) (committed : row.status.hasCommitted = true) :
    ∃ request records batch current plan, Truthful db row request records batch current plan := by
  rcases good with rfl | ⟨_, _, entries, serial, accepted, mirrors⟩
  · cases member
  · obtain ⟨row', member', same⟩ := mirrors.sup row member committed
    obtain ⟨request, records, batch, current, plan, truthful⟩ :=
      acceptAll_truthful noCollisions accepted row' member'
    have ofRun := RunRow.outcome_runId same
    refine ⟨request, records, batch, current, plan, ?_⟩
    simp only [RunRow.outcome, RunOutcome.mk.injEq] at same
    obtain ⟨binding, _, _, _, accepted', _, newContents, newTransitions, hash, _⟩ := same
    exact {
      truthful with
      requestId := (congrArg (fun b => b.2.1) binding).symm.trans truthful.requestId
      planned := ofRun ▸ truthful.planned
      rowsAccepted := accepted'.symm.trans truthful.rowsAccepted
      batchHash := hash.symm.trans truthful.batchHash
      newContents := newContents.symm.trans truthful.newContents
      newTransitions := newTransitions.symm.trans truthful.newTransitions
      contents := by
        intro product
        rw [← truthful.contents product, ofRun, PowerMarket.ownContents, ← mirrors.contents]
        rfl
      transitions := by
        intro product
        rw [← truthful.transitions product, ofRun, PowerMarket.ownTransitions, ← mirrors.transitions]
        rfl }

/-! ## Counts -/

/-- The counts of a manifest are filled in. -/
structure Counted (row : RunRow) : Prop where
  rowsAccepted : ∃ n, row.rowsAccepted = some n
  newContents : ∃ n, row.newContents = some n
  newTransitions : ∃ n, row.newTransitions = some n

theorem acceptAll_counted {entries : List Entry} {db : Database}
    (accepted : acceptAll entries Database.seeded = .ok db) : ∀ row ∈ db.runs, Counted row := by
  induction entries using List.reverseRecOn generalizing db with
  | nil =>
      cases accepted
      simp [Database.seeded, Database.created]
  | append_singleton entries entry ih =>
      obtain ⟨before, earlier, last⟩ := acceptAll_snoc.mp accepted
      obtain ⟨c, serial⟩ := acceptAll_serial earlier
      obtain ⟨batch, current, plan, commits, rfl⟩ := (acceptRun_iff serial).mp last
      intro row member
      rw [afterRun_runs commits] at member
      rcases List.mem_append.mp member with before | isLast
      · exact ih earlier row before
      · rw [List.mem_singleton.mp isLast]
        unfold Entry.manifest
        cases entry.finalization <;> exact ⟨⟨_, rfl⟩, ⟨_, rfl⟩, ⟨_, rfl⟩⟩

/-- **The manifest of a run that has committed has counts.** -/
theorem Good.counted {db : Database} (good : Good db) {row : RunRow} (member : row ∈ db.runs)
    (committed : row.status.hasCommitted = true) : Counted row := by
  rcases good with rfl | ⟨_, _, entries, serial, accepted, mirrors⟩
  · cases member
  · obtain ⟨row', member', same⟩ := mirrors.sup row member committed
    obtain ⟨accepted', contents, transitions⟩ := acceptAll_counted accepted row' member'
    simp only [RunRow.outcome, RunOutcome.mk.injEq] at same
    obtain ⟨_, _, _, _, rowsAccepted, _, newContents, newTransitions, _⟩ := same
    exact ⟨rowsAccepted ▸ accepted', newContents ▸ contents, newTransitions ▸ transitions⟩

end PowerMarket
