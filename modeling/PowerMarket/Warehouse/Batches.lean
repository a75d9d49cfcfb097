import PowerMarket.Warehouse.Manifests

/-!
# The keys of a batch

A row of a batch that is not new adds nothing to the tables, but then the tables already had a
transition of its key. Either way the key of every accepted row has a transition of its run or of an
earlier one (`Landed`). `acceptAll_landed` proves this of a serial execution and `Good.landed` of
the tables of the concurrent system.
-/

set_option autoImplicit false

namespace PowerMarket

open Library

variable [Platform]

/-- **A batch that has landed.** The manifest counts its rows, and each of their keys has a
transition whose number is at most that of the run. -/
structure Landed (db : Database) (row : RunRow) (request : Request) (records : List Observation)
    (batch : List BatchRow) : Prop where
  requestId : row.requestId = request.requestId
  batched : batchRows request records = .ok batch
  rowsAccepted : row.rowsAccepted = some batch.length
  stated : ∀ accepted ∈ batch, ∃ transition ∈ db.transitions request.product,
    transition.logicalKey = accepted.logicalKey ∧
    ∃ number, row.commitSequence = some number ∧ transition.commitSequence ≤ number

section Commit

variable {entry : Entry} {c : ControlRow} {db : Database} {batch : List BatchRow}
  {current : Snapshot} {plan : WritePlan}

omit [Platform] in
theorem SameButClocks.transition {product : Product} {after : Database}
    (clocks : SameButClocks product db after) {transition : TransitionRow}
    (member : transition ∈ db.transitions product) :
    ∃ later ∈ after.transitions product, later.logicalKey = transition.logicalKey ∧
      later.commitSequence = transition.commitSequence := by
  obtain ⟨clock, transitions⟩ := clocks.transitions
  refine ⟨transition.setClock (clock transition), ?_, rfl, rfl⟩
  rw [transitions]
  exact List.mem_map_of_mem member

/-- A transition is still there after one more run. -/
theorem Commits.transition_kept (noCollisions : NoCollisions) (serial : Serial c db)
    (commits : Commits entry c db batch current plan)
    (catalogue : Catalogue entry.request.product db) {product : Product}
    {transition : TransitionRow} (member : transition ∈ db.transitions product) :
    ∃ later ∈ (afterRun entry plan c db).transitions product,
      later.logicalKey = transition.logicalKey ∧
      later.commitSequence = transition.commitSequence := by
  have clocks := afterRun_sameButClocks product entry plan c db
  by_cases same : product = entry.request.product
  · subst same
    refine clocks.transition ?_
    rw [commits.transitions noCollisions serial catalogue]
    exact List.mem_append_left _ member
  · obtain ⟨later, inCommit, key, number⟩ := (afterCommit_other same).transition member
    obtain ⟨last, inRun, key', number'⟩ := clocks.transition inCommit
    exact ⟨last, inRun, key'.trans key, number'.trans number⟩

theorem Commits.commitSequence (serial : Serial c db)
    (commits : Commits entry c db batch current plan) :
    (entry.manifest plan).commitSequence = some (c.sequence + 1) := by
  have plan_eq := (planWrite_eq commits.planned).2
  have current_eq := commits.current_eq serial
  unfold Entry.manifest
  cases entry.finalization <;>
    simp [RunRow.commit, RunRow.succeed, commitParameters, plan_eq, current_eq]

/-- **The batch of the last run has landed.** -/
theorem Commits.landed (noCollisions : NoCollisions) (serial : Serial c db)
    (commits : Commits entry c db batch current plan) {entries : List Entry}
    (law : ProductHistory entry.request.product entries db) :
    Landed (afterRun entry plan c db) (entry.manifest plan) entry.request entry.records batch := by
  have truthful := commits.truthful noCollisions serial law
  refine ⟨truthful.requestId, commits.batched, truthful.rowsAccepted, fun accepted member => ?_⟩
  cases next : newTransition entry.runId current accepted with
  | some transition =>
      have moved : transition ∈ (afterCommit entry plan c db).transitions entry.request.product := by
        rw [commits.transitions noCollisions serial law.catalogue]
        exact List.mem_append_right _ (List.mem_filterMap.mpr ⟨accepted, member, next⟩)
      obtain ⟨later, inRun, key, number⟩ :=
        (afterRun_sameButClocks _ entry plan c db).transition moved
      refine ⟨later, inRun, key.trans (newTransition_key next), _, commits.commitSequence serial, ?_⟩
      obtain ⟨_, _, rfl⟩ := newTransition_eq_some.mp next
      rw [number, commits.current_eq serial]
      exact le_rfl
  | none =>
      -- The row repeats the latest transition of its key.
      have latest := commits.latest noCollisions serial law.catalogue member
        (law.history accepted.logicalKey)
      rw [newTransition, Option.map_eq_none_iff, nextOrdinal, latest] at next
      cases last : (keyTransitions entry.request.product accepted.logicalKey db).getLast? with
      | none =>
          rw [last] at next
          cases next
      | some transition =>
          obtain ⟨inTable, key⟩ := mem_keyTransitions.mp (List.mem_of_getLast? last)
          obtain ⟨later, inRun, key', number⟩ :=
            commits.transition_kept noCollisions serial law.catalogue inTable
          obtain ⟨owner, wrote, _, numbered, _⟩ := serial.sound.transitions _ transition inTable
          obtain ⟨n, below, numbered'⟩ := serial.sound.numbered owner wrote.member wrote.committed
          have same := Option.some.inj (numbered.symm.trans numbered')
          exact ⟨later, inRun, key'.trans key, _, commits.commitSequence serial, by omega⟩

/-- One more run leaves the batches landed. -/
theorem Landed.accepted (noCollisions : NoCollisions) (serial : Serial c db)
    (commits : Commits entry c db batch current plan)
    (catalogue : Catalogue entry.request.product db) {row : RunRow} {request : Request}
    {records : List Observation} {batch' : List BatchRow}
    (landed : Landed db row request records batch') :
    Landed (afterRun entry plan c db) row request records batch' := by
  refine { landed with stated := fun accepted member => ?_ }
  obtain ⟨transition, inTable, key, number, numbered, atMost⟩ := landed.stated accepted member
  obtain ⟨later, inRun, key', same⟩ :=
    commits.transition_kept noCollisions serial catalogue inTable
  exact ⟨later, inRun, key'.trans key, number, numbered, same ▸ atMost⟩

end Commit

/-- **The run lemma.** After any number of runs every batch has landed. -/
theorem acceptAll_landed (noCollisions : NoCollisions) {entries : List Entry} {db : Database}
    (accepted : acceptAll entries Database.seeded = .ok db) :
    ∀ row ∈ db.runs, ∃ request records batch, Landed db row request records batch := by
  induction entries using List.reverseRecOn generalizing db with
  | nil =>
      cases accepted
      simp [Database.seeded, Database.created]
  | append_singleton entries entry ih =>
      obtain ⟨before, earlier, last⟩ := acceptAll_snoc.mp accepted
      obtain ⟨c, serial⟩ := acceptAll_serial earlier
      obtain ⟨batch, current, plan, commits, rfl⟩ := (acceptRun_iff serial).mp last
      have law := acceptAll_history noCollisions earlier entry.request.product
      intro row member
      rw [afterRun_runs commits] at member
      rcases List.mem_append.mp member with before | isLast
      · obtain ⟨_, _, _, landed⟩ := ih earlier row before
        exact ⟨_, _, _, landed.accepted noCollisions serial commits law.catalogue⟩
      · rw [List.mem_singleton.mp isLast]
        exact ⟨_, _, _, commits.landed noCollisions serial law⟩

/-- **The batch of a run that has committed has landed** in every good state. -/
theorem Good.landed (noCollisions : NoCollisions) {db : Database} (good : Good db) {row : RunRow}
    (member : row ∈ db.runs) (committed : row.status.hasCommitted = true) :
    ∃ request records batch, Landed db row request records batch := by
  rcases good with rfl | ⟨_, _, entries, serial, accepted, mirrors⟩
  · cases member
  · obtain ⟨row', member', same⟩ := mirrors.sup row member committed
    obtain ⟨request, records, batch, landed⟩ := acceptAll_landed noCollisions accepted row' member'
    simp only [RunRow.outcome, RunOutcome.mk.injEq] at same
    obtain ⟨binding, _, _, _, accepted', _, _, _, _, _, number, _⟩ := same
    refine ⟨request, records, batch, ⟨?_, landed.batched, accepted'.symm.trans landed.rowsAccepted,
      fun accepted inBatch => ?_⟩⟩
    · exact (congrArg (fun b => b.2.1) binding).symm.trans landed.requestId
    · obtain ⟨transition, inTable, key, n, numbered, atMost⟩ := landed.stated accepted inBatch
      exact ⟨transition, mirrors.transitions ▸ inTable, key, n, number.symm.trans numbered, atMost⟩

end PowerMarket
