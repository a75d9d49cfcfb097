import PowerMarket.Warehouse.Effects
import PowerMarket.Warehouse.BigQuery

/-!
# The invariant of the tables

`Sound` is what holds of the tables of a seeded warehouse at all times: manifests are unique
and bound to their requests, the gate is held by the one committed run, the sequence numbers
of the runs that have committed are exactly the numbers from one to the control sequence, and
every content and transition belongs to a run that has committed and carries the clock of that
run. One step lemma for each effect says that permitted scripts keep it.

A commit is permitted when its parameters come from a plan on a snapshot of some earlier
database (`Planned`). Nothing is said about how much earlier.
-/

set_option autoImplicit false

namespace PowerMarket

open Library

variable [Platform]

/-! ## Permitted scripts -/

/-- The parameters of a commit come from a plan for the request of its run, on a snapshot of an
earlier database. -/
inductive Planned (db : Database) (product : Product) (p : CommitParameters) : Prop where
  | intro {request : Request} {records : List Observation} {batch : List BatchRow}
      {past : Database} {c : ControlRow} {current : Snapshot} {plan : WritePlan} {row : RunRow}
      (product_eq : request.product = product)
      (batched : batchRows request records = .ok batch)
      (seeded : Seeded past c) (earlier : Precedes past db)
      (read : readSnapshot (snapshotQuery product request.day past) = .ok current)
      (planned : planWrite p.runId batch current = .ok plan)
      (parameters : p = commitParameters p.runId plan)
      (member : row ∈ db.runs) (ofRun : row.runId = p.runId)
      (ofRequest : row.requestId = request.requestId)

/-- The parameters of a commit come from a plan for these records of a request, on a snapshot of an
earlier database. -/
inductive PlannedFrom (request : Request) (records : List Observation) (db : Database)
    (product : Product) (p : CommitParameters) : Prop where
  | intro {batch : List BatchRow} {past : Database} {c : ControlRow} {current : Snapshot}
      {plan : WritePlan} (product_eq : request.product = product)
      (batched : batchRows request records = .ok batch)
      (seeded : Seeded past c) (earlier : Precedes past db)
      (read : readSnapshot (snapshotQuery product request.day past) = .ok current)
      (planned : planWrite p.runId batch current = .ok plan)
      (parameters : p = commitParameters p.runId plan)

theorem PlannedFrom.mono {request : Request} {records : List Observation} {a b : Database}
    {product : Product} {p : CommitParameters} (planned : PlannedFrom request records a product p)
    (precedes : Precedes a b) : PlannedFrom request records b product p := by
  obtain ⟨product_eq, batched, seeded, earlier, read, planned, parameters⟩ := planned
  exact .intro product_eq batched seeded (earlier.trans precedes) read planned parameters

/-- A plan for the records of a request may commit a run that is bound to the request. -/
theorem PlannedFrom.planned {request : Request} {records : List Observation} {db : Database}
    {product : Product} {p : CommitParameters} (from_ : PlannedFrom request records db product p)
    {row : RunRow} (member : row ∈ db.runs) (ofRun : row.runId = p.runId)
    (ofRequest : row.requestId = request.requestId) : Planned db product p := by
  obtain ⟨product_eq, batched, seeded, earlier, read, planned, parameters⟩ := from_
  exact .intro product_eq batched seeded earlier read planned parameters member ofRun ofRequest

/-- What the programs promise about the scripts that they submit. -/
def Permitted (db : Database) : Script → Prop
  | .beginRun run => ∃ request runId, isRunId runId = true ∧ run = newRun request runId
  | .commit product p => Planned db product p
  | .finalize product p => ∃ row ∈ db.runs, row.runId = p.runId ∧ row.product = product
  | _ => True

theorem wellPlanned_of_plan {runId : String} {batch : List BatchRow} {current : Snapshot}
    {plan : WritePlan} (planned : planWrite runId batch current = .ok plan) :
    WellPlanned (commitParameters runId plan) := by
  obtain ⟨_, rfl⟩ := planWrite_eq planned
  constructor
  · intro content member
    obtain ⟨row, _, added⟩ := List.mem_filterMap.mp member
    obtain ⟨_, rfl⟩ := newContent_eq_some.mp added
    exact ⟨rfl, rfl⟩
  · intro transition member
    obtain ⟨row, _, added⟩ := List.mem_filterMap.mp member
    obtain ⟨ordinal, _, rfl⟩ := newTransition_eq_some.mp added
    exact ⟨rfl, rfl, rfl⟩

theorem Planned.wellPlanned {db : Database} {product : Product} {p : CommitParameters}
    (planned : Planned db product p) : WellPlanned p := by
  obtain ⟨_, _, _, _, _, plan, parameters, _, _, _⟩ := planned
  rw [parameters]
  exact wellPlanned_of_plan plan

/-! ## The invariant -/

/-- The clock that a run gives to its rows in the tables of a product. -/
def RunRow.clock (product : Product) (row : RunRow) : Option UtcTime :=
  if row.status = .succeeded ∧ row.product = product then row.knowledgeAt else none

/-- A run that has committed and wrote for a request of its own into a product's tables. -/
structure Wrote (db : Database) (product : Product) (row : RunRow) : Prop where
  member : row ∈ db.runs
  committed : row.status.hasCommitted = true
  request : ∃ request : Request, request.product = product ∧ row.requestId = request.requestId

/-- What holds of the tables of a seeded warehouse. -/
structure Sound (c : ControlRow) (db : Database) : Prop where
  seeded : Seeded db c
  unique : UniqueRuns db
  valid : ∀ row ∈ db.runs, isRunId row.runId = true
  bound : ∀ row ∈ db.runs, ∃ request : Request, row.requestId = request.requestId ∧
    row.product = request.product ∧ row.requestedDate = request.day ∧
    row.requestedLocation = request.location
  gate : ∀ row ∈ db.runs, row.status = .committed ↔ c.activeRunId = some row.runId
  holder : ∀ runId, c.activeRunId = some runId → ∃ row ∈ db.runs, row.runId = runId
  completed : ∀ row ∈ db.runs, row.commitCompleted = row.status.hasCommitted
  numbered : ∀ row ∈ db.runs, row.status.hasCommitted = true →
    ∃ n < c.sequence, row.commitSequence = some (n + 1)
  distinct : ∀ row ∈ db.runs, ∀ other ∈ db.runs, row.status.hasCommitted = true →
    other.status.hasCommitted = true → row.commitSequence = other.commitSequence → row = other
  complete : ∀ n < c.sequence, ∃ row ∈ db.runs, row.status.hasCommitted = true ∧
    row.commitSequence = some (n + 1)
  newest : ∀ row ∈ db.runs, row.status = .committed → row.commitSequence = some c.sequence
  timed : ∀ row ∈ db.runs, row.knowledgeAt.isSome = true ↔ row.status = .succeeded
  contents : ∀ product, ∀ content ∈ db.contents product, ∃ row, Wrote db product row ∧
    row.runId = content.firstRunId ∧ content.firstSeenAt = row.clock product
  transitions : ∀ product, ∀ transition ∈ db.transitions product, ∃ row, Wrote db product row ∧
    row.runId = transition.runId ∧ row.commitSequence = some transition.commitSequence ∧
    transition.knownAt = row.clock product

theorem sound_seeded : Sound ⟨1, 0, warehouseSchema, none⟩ Database.seeded where
  seeded := seeded_seeded
  unique := List.nodup_nil
  valid := by simp [Database.seeded, Database.created]
  bound := by simp [Database.seeded, Database.created]
  gate := by simp [Database.seeded, Database.created]
  holder := by simp
  completed := by simp [Database.seeded, Database.created]
  numbered := by simp [Database.seeded, Database.created]
  distinct := by simp [Database.seeded, Database.created]
  complete := by simp
  newest := by simp [Database.seeded, Database.created]
  timed := by simp [Database.seeded, Database.created]
  contents := by simp [Database.seeded, Database.created]
  transitions := by simp [Database.seeded, Database.created]


/-! ## The step lemma -/

section Steps

variable {c : ControlRow} {db : Database}

theorem Wrote.replaced {after : Database} {product : Product} {x row row' : RunRow}
    (wrote : Wrote db product x) (replaces : Replaces db.runs after.runs row row')
    (differs : x.runId ≠ row.runId) : Wrote after product x :=
  ⟨(replaces.mem x).mpr (.inl ⟨wrote.member, differs⟩), wrote.committed, wrote.request⟩

/-- Creating a manifest keeps the invariant. -/
theorem Sound.begun (sound : Sound c db) {run : NewRun} (now : UtcTime)
    (fresh : ∀ row ∈ db.runs, row.runId ≠ run.runId)
    (permitted : Permitted db (.beginRun run)) :
    Sound c { db with runs := db.runs ++ [run.row now] } := by
  obtain ⟨request, runId, valid, rfl⟩ := permitted
  have each : ∀ {P : RunRow → Prop}, (∀ row ∈ db.runs, P row) →
      P ((newRun request runId).row now) →
      ∀ row ∈ db.runs ++ [(newRun request runId).row now], P row := by
    intro P old new row member
    rcases List.mem_append.mp member with before | last
    · exact old row before
    · exact List.mem_singleton.mp last ▸ new
  have wrote : ∀ {product row}, Wrote db product row →
      Wrote { db with runs := db.runs ++ [(newRun request runId).row now] } product row :=
    fun wrote => ⟨List.mem_append_left _ wrote.member, wrote.committed, wrote.request⟩
  have idle : ((newRun request runId).row now).status.hasCommitted = false := rfl
  exact {
    seeded := ⟨sound.seeded.control, sound.seeded.singleton, sound.seeded.schema⟩
    unique := by
      have ids : ((db.runs ++ [(newRun request runId).row now]).map (·.runId)) =
          db.runs.map (·.runId) ++ [runId] := by simp [NewRun.row, newRun]
      unfold UniqueRuns
      rw [ids]
      refine List.nodup_append.mpr ⟨sound.unique, by simp, fun id member other last clash => ?_⟩
      obtain ⟨row, at_row, rfl⟩ := List.mem_map.mp member
      exact fresh row at_row (clash.trans (List.mem_singleton.mp last))
    valid := each sound.valid valid
    bound := each sound.bound ⟨request, rfl, rfl, rfl, rfl⟩
    gate := by
      refine each (P := fun row => row.status = .committed ↔ c.activeRunId = some row.runId)
        sound.gate ⟨fun impossible => (by cases impossible), fun held => ?_⟩
      obtain ⟨row, at_row, same⟩ := sound.holder _ held
      exact absurd same (fresh row at_row)
    holder := fun id held => by
      obtain ⟨row, at_row, same⟩ := sound.holder id held
      exact ⟨row, List.mem_append_left _ at_row, same⟩
    completed := each sound.completed rfl
    numbered := each sound.numbered fun committed => by rw [idle] at committed; cases committed
    distinct := by
      refine each (fun row at_row => each (sound.distinct row at_row) ?_) (fun _ _ committed => ?_)
      · intro _ committed
        rw [idle] at committed
        cases committed
      · rw [idle] at committed
        cases committed
    complete := fun n below => by
      obtain ⟨row, at_row, rest⟩ := sound.complete n below
      exact ⟨row, List.mem_append_left _ at_row, rest⟩
    newest := each sound.newest fun committed => by cases committed
    timed := each (P := fun row => row.knowledgeAt.isSome = true ↔ row.status = .succeeded)
      sound.timed ⟨fun impossible => (by cases impossible), fun impossible => (by cases impossible)⟩
    contents := fun product content member => by
      obtain ⟨row, owner, rest⟩ := sound.contents product content member
      exact ⟨row, wrote owner, rest⟩
    transitions := fun product transition member => by
      obtain ⟨row, owner, rest⟩ := sound.transitions product transition member
      exact ⟨row, wrote owner, rest⟩ }

/-- Recording a failure keeps the invariant. -/
theorem Sound.failed (sound : Sound c db) {after : Database} {row : RunRow}
    {p : FailureParameters} {now : UtcTime}
    (replaces : Replaces db.runs after.runs row (row.fail p now))
    (started : row.status = .started) (open_ : row.commitCompleted = false)
    (control : after.control = db.control)
    (contents : after.contents = db.contents) (transitions : after.transitions = db.transitions) :
    Sound c after := by
  have notGate : c.activeRunId ≠ some row.runId := fun held => by
    have committed := (sound.gate row replaces.member).mpr held
    rw [started] at committed
    cases committed
  have wrote : ∀ {product x}, Wrote db product x → Wrote after product x := by
    intro product x wrote
    refine wrote.replaced replaces fun same => ?_
    have committed := wrote.committed
    rw [run_unique sound.unique wrote.member replaces.member same, started] at committed
    cases committed
  exact {
    seeded := ⟨control.trans sound.seeded.control, sound.seeded.singleton, sound.seeded.schema⟩
    unique := replaces.unique sound.unique
    valid := replaces.forall (fun x at_x _ => sound.valid x at_x) (sound.valid row replaces.member)
    bound := replaces.forall (fun x at_x _ => sound.bound x at_x) (sound.bound row replaces.member)
    gate := replaces.forall (P := fun row => row.status = .committed ↔ c.activeRunId = some row.runId)
      (fun x at_x _ => sound.gate x at_x)
      ⟨fun impossible => (by cases impossible), fun held => absurd held notGate⟩
    holder := fun id held => by
      obtain ⟨x, at_x, same⟩ := sound.holder id held
      refine ⟨x, (replaces.mem x).mpr (.inl ⟨at_x, fun clash => notGate ?_⟩), same⟩
      rw [held, ← same, clash]
    completed := replaces.forall (fun x at_x _ => sound.completed x at_x) open_
    numbered := replaces.forall (fun x at_x _ => sound.numbered x at_x)
      fun committed => by cases committed
    distinct := by
      refine replaces.forall (fun x at_x _ => replaces.forall
        (fun y at_y _ => sound.distinct x at_x y at_y) ?_) ?_
      · intro _ committed
        cases committed
      · intro _ _ committed
        cases committed
    complete := fun n below => by
      obtain ⟨x, at_x, committed, number⟩ := sound.complete n below
      refine ⟨x, (replaces.mem x).mpr (.inl ⟨at_x, fun clash => ?_⟩), committed, number⟩
      rw [run_unique sound.unique at_x replaces.member clash, started] at committed
      cases committed
    newest := replaces.forall (fun x at_x _ => sound.newest x at_x)
      fun committed => by cases committed
    timed := by
      refine replaces.forall (P := fun row => row.knowledgeAt.isSome = true ↔ row.status = .succeeded)
        (fun x at_x _ => sound.timed x at_x) ⟨fun present => ?_, fun impossible => (by cases impossible)⟩
      have succeeded := (sound.timed row replaces.member).mp present
      rw [started] at succeeded
      cases succeeded
    contents := fun product content member => by
      rw [contents] at member
      obtain ⟨x, owner, rest⟩ := sound.contents product content member
      exact ⟨x, wrote owner, rest⟩
    transitions := fun product transition member => by
      rw [transitions] at member
      obtain ⟨x, owner, rest⟩ := sound.transitions product transition member
      exact ⟨x, wrote owner, rest⟩ }

/-- A planned commit keeps the invariant. -/
theorem Sound.committed (sound : Sound c db) {product : Product} {p : CommitParameters}
    {row : RunRow} (atRow : runRows db p.runId = [row]) (started : row.status = .started)
    (current : c.sequence = p.expectedSequence) (free : c.activeRunId = none)
    (permitted : Planned db product p) :
    Sound (c.take p.runId) (committedDatabase product p c db) := by
  have ofRun : row.runId = p.runId := (mem_runRows.mp (atRow ▸ List.mem_singleton_self row)).2
  have replaces : Replaces db.runs (committedDatabase product p c db).runs row (row.commit p) :=
    updateRuns_replaces sound.unique atRow fun _ => rfl
  have wellPlanned := permitted.wellPlanned
  obtain ⟨product_eq, _, _, _, _, _, _, member', ofRun', ofRequest⟩ := permitted
  have member := replaces.member
  rw [run_unique sound.unique member' member (ofRun'.trans ofRun.symm)] at ofRequest
  have number : (row.commit p).commitSequence = some (c.sequence + 1) := by rw [current]; rfl
  have differs : ∀ x ∈ db.runs, x.status.hasCommitted = true → x.runId ≠ row.runId := by
    intro x at_x committed clash
    rw [run_unique sound.unique at_x member clash, started] at committed
    cases committed
  have below : ∀ x ∈ db.runs, x.status.hasCommitted = true →
      x.commitSequence ≠ some (c.sequence + 1) := by
    intro x at_x committed last
    obtain ⟨n, less, number⟩ := sound.numbered x at_x committed
    rw [number] at last
    cases last
    omega
  have wrote : ∀ {product' x}, Wrote db product' x →
      Wrote (committedDatabase product p c db) product' x := fun wrote =>
    wrote.replaced replaces (differs _ wrote.member wrote.committed)
  have owner : Wrote (committedDatabase product p c db) product (row.commit p) :=
    ⟨replaces.member', rfl, ⟨_, product_eq, ofRequest⟩⟩
  exact {
    seeded := ⟨rfl, sound.seeded.singleton, sound.seeded.schema⟩
    unique := replaces.unique sound.unique
    valid := replaces.forall (fun x at_x _ => sound.valid x at_x) (sound.valid row member)
    bound := replaces.forall (fun x at_x _ => sound.bound x at_x) (sound.bound row member)
    gate := by
      refine replaces.forall (fun x at_x other => ?_) ?_
      · rw [sound.gate x at_x, free, ControlRow.take]
        simp only [reduceCtorEq, Option.some.injEq, false_iff]
        exact fun clash => other (clash.symm.trans ofRun.symm)
      · exact ⟨fun _ => congrArg some ofRun.symm, fun _ => rfl⟩
    holder := fun id held => by
      cases held
      exact ⟨row.commit p, replaces.member', ofRun⟩
    completed := replaces.forall (fun x at_x _ => sound.completed x at_x) rfl
    numbered := by
      refine replaces.forall (fun x at_x _ committed => ?_) fun _ => ⟨c.sequence, ?_, number⟩
      · obtain ⟨n, less, number⟩ := sound.numbered x at_x committed
        exact ⟨n, Nat.lt_succ_of_lt less, number⟩
      · exact Nat.lt_succ_self _
    distinct := by
      refine replaces.forall (fun x at_x _ => replaces.forall
        (fun y at_y _ => sound.distinct x at_x y at_y) ?_) (replaces.forall ?_ ?_)
      · intro committed _ same
        exact absurd (same.trans number) (below x at_x committed)
      · intro y at_y _ _ committed same
        exact absurd (same.symm.trans number) (below y at_y committed)
      · intro _ _ _
        rfl
    complete := fun n less => by
      rcases Nat.lt_succ_iff_lt_or_eq.mp less with before | rfl
      · obtain ⟨x, at_x, committed, number⟩ := sound.complete n before
        exact ⟨x, (replaces.mem x).mpr (.inl ⟨at_x, differs x at_x committed⟩), committed, number⟩
      · exact ⟨row.commit p, replaces.member', rfl, number⟩
    newest := by
      refine replaces.forall (fun x at_x _ committed => ?_) fun _ => number
      rw [sound.gate x at_x, free] at committed
      cases committed
    timed := by
      refine replaces.forall (P := fun x => x.knowledgeAt.isSome = true ↔ x.status = .succeeded)
        (fun x at_x _ => sound.timed x at_x) ⟨fun present => ?_, fun impossible => (by cases impossible)⟩
      have succeeded := (sound.timed row member).mp present
      rw [started] at succeeded
      cases succeeded
    contents := fun product' content found => by
      by_cases same : product' = product
      · subst same
        simp only [committedDatabase, updateRuns, insertRows, Function.update_self,
          mergeRows] at found
        rcases List.mem_append.mp found with before | added
        · obtain ⟨x, wrote', rest⟩ := sound.contents product' content before
          exact ⟨x, wrote wrote', rest⟩
        · obtain ⟨ofRow, unset⟩ := wellPlanned.contents content (List.mem_filter.mp added).1
          exact ⟨row.commit p, owner, ofRun.trans ofRow.symm, unset⟩
      · simp only [committedDatabase, updateRuns, insertRows, Function.update_of_ne same] at found
        obtain ⟨x, wrote', rest⟩ := sound.contents product' content found
        exact ⟨x, wrote wrote', rest⟩
    transitions := fun product' transition found => by
      by_cases same : product' = product
      · subst same
        simp only [committedDatabase, updateRuns, insertRows, Function.update_self,
          mergeRows] at found
        rcases List.mem_append.mp found with before | added
        · obtain ⟨x, wrote', rest⟩ := sound.transitions product' transition before
          exact ⟨x, wrote wrote', rest⟩
        · obtain ⟨ofRow, sequence, unset⟩ :=
            wellPlanned.transitions transition (List.mem_filter.mp added).1
          exact ⟨row.commit p, owner, ofRun.trans ofRow.symm, congrArg some sequence.symm, unset⟩
      · simp only [committedDatabase, updateRuns, insertRows, Function.update_of_ne same] at found
        obtain ⟨x, wrote', rest⟩ := sound.transitions product' transition found
        exact ⟨x, wrote wrote', rest⟩ }

/-- A finalization with the product of its manifest keeps the invariant. -/
theorem Sound.finalized (sound : Sound c db) {product : Product} {p : FinalizeParameters}
    {row : RunRow} (now : UtcTime) (atRow : runRows db p.runId = [row])
    (committed : row.status = .committed) (gate : c.activeRunId = some p.runId)
    (product_eq : row.product = product) :
    Sound c.release (finalizedDatabase product p now c db) := by
  have ofRun : row.runId = p.runId := (mem_runRows.mp (atRow ▸ List.mem_singleton_self row)).2
  have replaces : Replaces db.runs (finalizedDatabase product p now c db).runs row
      (row.succeed p now) := updateRuns_replaces sound.unique atRow fun _ => rfl
  have member := replaces.member
  have hasCommitted : row.status.hasCommitted = true := by rw [committed]; rfl
  have notCommitted : ∀ x ∈ db.runs, x.runId ≠ row.runId → x.status ≠ .committed := by
    intro x at_x differs clash
    rw [sound.gate x at_x, gate] at clash
    exact differs ((Option.some.inj clash).symm.trans ofRun.symm)
  -- The owner of a row, after the step: it has the clock that the step leaves in the row.
  have owner : ∀ {product' x}, Wrote db product' x →
      ∃ x', Wrote (finalizedDatabase product p now c db) product' x' ∧ x'.runId = x.runId ∧
        x'.commitSequence = x.commitSequence ∧ x'.clock product' =
          if product' = product ∧ x.runId = p.runId ∧ x.clock product' = none then
            some p.knowledgeAt else x.clock product' := by
    intro product' x wrote
    by_cases same : x.runId = row.runId
    · have here := run_unique sound.unique wrote.member member same
      subst here
      refine ⟨x.succeed p now, ⟨replaces.member', rfl, wrote.request⟩, rfl, rfl, ?_⟩
      simp [RunRow.clock, RunRow.succeed, committed, ofRun, product_eq, eq_comm]
    · refine ⟨x, wrote.replaced replaces same, rfl, rfl, ?_⟩
      rw [if_neg fun all => same (all.2.1.trans ofRun.symm)]
  exact {
    seeded := ⟨rfl, sound.seeded.singleton, sound.seeded.schema⟩
    unique := replaces.unique sound.unique
    valid := replaces.forall (fun x at_x _ => sound.valid x at_x) (sound.valid row member)
    bound := replaces.forall (fun x at_x _ => sound.bound x at_x) (sound.bound row member)
    gate := by
      refine replaces.forall
        (P := fun x => x.status = .committed ↔ c.release.activeRunId = some x.runId)
        (fun x at_x differs => ?_) ⟨fun impossible => ?_, fun impossible => ?_⟩
      · exact ⟨fun clash => absurd clash (notCommitted x at_x differs),
          fun impossible => by cases impossible⟩
      · cases impossible
      · cases impossible
    holder := fun id held => by cases held
    completed := replaces.forall (fun x at_x _ => sound.completed x at_x) (by
      have completed := sound.completed row member
      rw [committed] at completed
      exact completed)
    numbered := replaces.forall (fun x at_x _ => sound.numbered x at_x)
      fun _ => sound.numbered row member hasCommitted
    distinct := by
      refine replaces.forall (fun x at_x differs => replaces.forall
        (fun y at_y _ => sound.distinct x at_x y at_y) ?_) (replaces.forall ?_ ?_)
      · intro atX _ same
        have clash := sound.distinct x at_x row member atX hasCommitted same
        exact absurd (congrArg RunRow.runId clash) differs
      · intro y at_y differs _ atY same
        have clash := sound.distinct row member y at_y hasCommitted atY same
        exact absurd (congrArg RunRow.runId clash).symm differs
      · intro _ _ _
        rfl
    complete := fun n less => by
      obtain ⟨x, at_x, atX, number⟩ := sound.complete n less
      by_cases same : x.runId = row.runId
      · have here := run_unique sound.unique at_x member same
        subst here
        exact ⟨x.succeed p now, replaces.member', rfl, number⟩
      · exact ⟨x, (replaces.mem x).mpr (.inl ⟨at_x, same⟩), atX, number⟩
    newest := replaces.forall (fun x at_x _ => sound.newest x at_x)
      fun impossible => by cases impossible
    timed := replaces.forall (P := fun x => x.knowledgeAt.isSome = true ↔ x.status = .succeeded)
      (fun x at_x _ => sound.timed x at_x) ⟨fun _ => rfl, fun _ => rfl⟩
    contents := fun product' content found => by
      by_cases same : product' = product
      · subst same
        simp only [finalizedDatabase, updateRuns, fillClocks, Function.update_self] at found
        obtain ⟨before, at_before, rfl⟩ := List.mem_map.mp found
        obtain ⟨x, wrote, ofX, clock⟩ := sound.contents product' before at_before
        obtain ⟨x', wrote', sameId, _, clock'⟩ := owner wrote
        refine ⟨x', wrote', ?_⟩
        rw [clock', ofX, ← clock]
        by_cases fills : before.firstRunId = p.runId ∧ before.firstSeenAt = none
        · rw [if_pos fills, if_pos ⟨rfl, fills⟩]
          exact ⟨sameId.trans ofX, rfl⟩
        · rw [if_neg fills, if_neg fun all => fills all.2]
          exact ⟨sameId.trans ofX, rfl⟩
      · simp only [finalizedDatabase, updateRuns, fillClocks, Function.update_of_ne same] at found
        obtain ⟨x, wrote, ofX, clock⟩ := sound.contents product' content found
        obtain ⟨x', wrote', sameId, _, clock'⟩ := owner wrote
        rw [if_neg fun all => same all.1] at clock'
        exact ⟨x', wrote', sameId.trans ofX, clock.trans clock'.symm⟩
    transitions := fun product' transition found => by
      by_cases same : product' = product
      · subst same
        simp only [finalizedDatabase, updateRuns, fillClocks, Function.update_self] at found
        obtain ⟨before, at_before, rfl⟩ := List.mem_map.mp found
        obtain ⟨x, wrote, ofX, sequence, clock⟩ := sound.transitions product' before at_before
        obtain ⟨x', wrote', sameId, sameSequence, clock'⟩ := owner wrote
        refine ⟨x', wrote', ?_⟩
        rw [clock', ofX, ← clock]
        by_cases fills : before.runId = p.runId ∧ before.knownAt = none
        · rw [if_pos fills, if_pos ⟨rfl, fills⟩]
          exact ⟨sameId.trans ofX, sameSequence.trans sequence, rfl⟩
        · rw [if_neg fills, if_neg fun all => fills all.2]
          exact ⟨sameId.trans ofX, sameSequence.trans sequence, rfl⟩
      · simp only [finalizedDatabase, updateRuns, fillClocks, Function.update_of_ne same] at found
        obtain ⟨x, wrote, ofX, sequence, clock⟩ := sound.transitions product' transition found
        obtain ⟨x', wrote', sameId, sameSequence, clock'⟩ := owner wrote
        rw [if_neg fun all => same all.1] at clock'
        exact ⟨x', wrote', sameId.trans ofX, sameSequence.trans sequence,
          clock.trans clock'.symm⟩ }

end Steps

end PowerMarket
