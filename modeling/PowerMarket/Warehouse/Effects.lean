import PowerMarket.Warehouse.Sql
import PowerMarket.Library.Growth
import Mathlib.Logic.Relation

/-!
# What the scripts do

`Effect` lists everything that a script can do to a database in which manifests are unique,
with the conditions under which it does it, and `execute_created` and `execute_seeded` say
that nothing else happens. What follows is derived from this list.

`Precedes` relates a database to the later ones: manifests move along the life of a run,
contents and transitions only gain their clocks, new transitions carry later sequence numbers,
and while the sequence stays the same and the gate was free, nothing that a plan depends on
changes. That last part is what makes a snapshot outside the transaction sound
(`Precedes.frozen`).
-/

set_option autoImplicit false

namespace PowerMarket

open Library

/-! ## Effects -/

/-- The database right after the control row was seeded. -/
def Database.seeded : Database := { Database.created with control := [⟨1, 0, warehouseSchema, none⟩] }

theorem seeded_seeded : Seeded Database.seeded ⟨1, 0, warehouseSchema, none⟩ := ⟨rfl, rfl, rfl⟩

/-- What a script does to a database. -/
inductive Effect (db : Database) : Script → Database → Prop where
  | idle (script : Script) : Effect db script db
  | seeded (unseeded : db = .created) : Effect db .seedControl .seeded
  | begun {c : ControlRow} {run : NewRun} (now : UtcTime) (seeded : Seeded db c)
      (fresh : ∀ row ∈ db.runs, row.runId ≠ run.runId) :
      Effect db (.beginRun run) { db with runs := db.runs ++ [run.row now] }
  | committed {c : ControlRow} {product : Product} {p : CommitParameters} {row : RunRow}
      (seeded : Seeded db c) (atRow : runRows db p.runId = [row])
      (started : row.status = .started) (current : c.sequence = p.expectedSequence)
      (free : c.activeRunId = none) :
      Effect db (.commit product p) (committedDatabase product p c db)
  | finalized {c : ControlRow} {product : Product} {p : FinalizeParameters} {row : RunRow}
      (now : UtcTime) (seeded : Seeded db c) (atRow : runRows db p.runId = [row])
      (committed : row.status = .committed) (gate : c.activeRunId = some p.runId) :
      Effect db (.finalize product p) (finalizedDatabase product p now c db)
  | failed {c : ControlRow} {p : FailureParameters} {row : RunRow} (now : UtcTime)
      (seeded : Seeded db c) (atRow : runRows db p.runId = [row])
      (canFail : row.canFail p.runId = true) :
      Effect db (.failure p) (updateRuns db (RunRow.canFail p.runId) (RunRow.fail p now))

/-- Run ids are unique. -/
def UniqueRuns (db : Database) : Prop := (db.runs.map (·.runId)).Nodup

theorem runRows_length_le {db : Database} (unique : UniqueRuns db) (runId : String) :
    (runRows db runId).length ≤ 1 := by
  have count : (db.runs.map (·.runId)).count runId ≤ 1 := List.nodup_iff_count_le_one.mp unique _
  rw [List.count_eq_countP, List.countP_map, List.countP_eq_length_filter] at count
  simpa [runRows, Function.comp_def, beq_eq_decide] using count

theorem mem_runRows {db : Database} {runId : String} {row : RunRow} :
    row ∈ runRows db runId ↔ row ∈ db.runs ∧ row.runId = runId := by
  simp [runRows]

/-- The manifest of a run is the only one with its id. -/
theorem runRows_eq {db : Database} (unique : UniqueRuns db) {row : RunRow}
    (member : row ∈ db.runs) : runRows db row.runId = [row] := by
  have at_row : row ∈ runRows db row.runId := mem_runRows.mpr ⟨member, rfl⟩
  match rows : runRows db row.runId with
  | [] => simp [rows] at at_row
  | [other] =>
      rw [rows] at at_row
      rw [List.mem_singleton.mp at_row]
  | _ :: _ :: _ =>
      have few := runRows_length_le unique row.runId
      simp [rows] at few

/-- Two manifests with one id are the same. -/
theorem run_unique {db : Database} (unique : UniqueRuns db) {row other : RunRow}
    (member : row ∈ db.runs) (member' : other ∈ db.runs) (same : row.runId = other.runId) :
    row = other := by
  have rows := runRows_eq unique member'
  have at_row : row ∈ runRows db other.runId := mem_runRows.mpr ⟨member, same⟩
  rw [rows] at at_row
  exact List.mem_singleton.mp at_row

theorem updateRuns_of_none {db : Database} {condition : RunRow → Bool}
    {change : RunRow → RunRow} (none : ∀ row ∈ db.runs, condition row = false) :
    updateRuns db condition change = db := by
  have unchanged : db.runs.map (fun row => if condition row then change row else row) =
      db.runs := by
    conv_rhs => rw [← List.map_id db.runs]
    refine List.map_congr_left fun row member => ?_
    simp [none row member]
  simp [updateRuns, unchanged]

/-- A script without rows leaves what its statements leave. -/
theorem of_execute {result : Except Exn Database} {after : Database} {rows : Rows}
    (executed : (do return (← result, Rows.none) : Except Exn (Database × Rows)) =
      .ok (after, rows)) : result = .ok after := by
  cases result with
  | error e => cases executed
  | ok db => cases executed; rfl

theorem execute_created {script : Script} {now : UtcTime} {after : Database} {rows : Rows}
    (executed : script.execute now .created = .ok (after, rows)) :
    Effect .created script after := by
  obtain ⟨e, rejected⟩ := guard_of_empty (rfl : Database.created.control = [])
  cases script with
  | seedControl =>
      have result : seedControl .created = .ok after := of_execute executed
      have same : Database.seeded = after := by
        simpa [seedControl, Database.created, Database.seeded, controlRows, assertThat, bind,
          Except.bind, pure, Except.pure] using result
      rw [← same]
      exact .seeded rfl
  | getRun runId | snapshot product day =>
      cases executed
      exact .idle _
  | beginRun run =>
      have result : beginRun run now .created = .ok after := of_execute executed
      rw [beginRun, rejected] at result
      cases result
  | commit product p =>
      have result : commitQuery product p .created = .ok after := of_execute executed
      rw [commitQuery, rejected] at result
      cases result
  | finalize product p =>
      have result : finalizeQuery product p now .created = .ok after := of_execute executed
      rw [finalizeQuery, rejected] at result
      cases result
  | failure p =>
      have result : failureQuery p now .created = .ok after := of_execute executed
      rw [failureQuery, rejected] at result
      cases result

/-- **Nothing else happens.** Executing a script on a seeded database with unique manifests has
one of the listed effects. -/
theorem execute_seeded {db after : Database} {c : ControlRow} (seeded : Seeded db c)
    (unique : UniqueRuns db) {script : Script} {now : UtcTime} {rows : Rows}
    (executed : script.execute now db = .ok (after, rows)) : Effect db script after := by
  cases script with
  | seedControl =>
      have result : seedControl db = .ok after := of_execute executed
      have same : db = after := by
        simpa [seedControl, controlRows_of_seeded seeded, seeded.control, assertThat, bind,
          Except.bind, pure, Except.pure] using result
      rw [← same]
      exact .idle _
  | getRun runId | snapshot product day =>
      cases executed
      exact .idle _
  | beginRun run =>
      obtain ⟨_, rfl⟩ := (beginRun_ok seeded).mp (of_execute executed)
      split_ifs with absent
      · refine .begun now seeded fun row member same => ?_
        have at_row : row ∈ runRows db run.runId := mem_runRows.mpr ⟨member, same⟩
        rw [List.isEmpty_iff.mp absent] at at_row
        cases at_row
      · exact .idle _
  | commit product p =>
      obtain ⟨startedOnce, current, free, rfl⟩ := (commitQuery_ok seeded).mp (of_execute executed)
      obtain ⟨row, only⟩ := List.length_eq_one_iff.mp startedOnce
      have at_row : row ∈ (runRows db p.runId).filter (·.status = .started) := by simp [only]
      obtain ⟨member, started⟩ := List.mem_filter.mp at_row
      obtain ⟨inRuns, same⟩ := mem_runRows.mp member
      have atRow := runRows_eq unique inRuns
      rw [same] at atRow
      exact .committed seeded atRow (by simpa using started) current free
  | finalize product p =>
      rcases (finalizeQuery_ok seeded (runRows_length_le unique _)).mp (of_execute executed) with
        ⟨⟨row, atRow, committed, gate⟩, rfl⟩ | ⟨_, rfl⟩
      · exact .finalized now seeded atRow committed gate
      · exact .idle _
  | failure p =>
      obtain rfl := (failureQuery_ok seeded).mp (of_execute executed)
      by_cases someRow : ∃ row ∈ db.runs, row.canFail p.runId = true
      · obtain ⟨row, member, canFail⟩ := someRow
        have same : row.runId = p.runId := by
          simp only [RunRow.canFail, Bool.and_eq_true, decide_eq_true_eq] at canFail
          exact canFail.1.1
        have atRow := runRows_eq unique member
        rw [same] at atRow
        exact .failed now seeded atRow canFail
      · push Not at someRow
        rw [updateRuns_of_none (by simpa using someRow)]
        exact .idle _

/-! ## Replacing a manifest -/

/-- The second list of manifests is the first with one manifest replaced. -/
structure Replaces (runs after : List RunRow) (row row' : RunRow) : Prop where
  member : row ∈ runs
  ids : after.map (·.runId) = runs.map (·.runId)
  same : row'.runId = row.runId
  mem : ∀ x, x ∈ after ↔ (x ∈ runs ∧ x.runId ≠ row.runId) ∨ x = row'

theorem updateRuns_replaces {db : Database} (unique : UniqueRuns db) {runId : String}
    {row : RunRow} (atRow : runRows db runId = [row]) {change : RunRow → RunRow}
    (keeps : ∀ x, (change x).runId = x.runId) :
    Replaces db.runs (updateRuns db (·.runId = runId) change).runs row (change row) := by
  obtain ⟨member, same⟩ : row ∈ db.runs ∧ row.runId = runId := mem_runRows.mp (by simp [atRow])
  refine ⟨member, ?_, keeps row, fun x => ?_⟩
  · simp only [updateRuns, List.map_map]
    refine List.map_congr_left fun x _ => ?_
    simp only [Function.comp_apply]
    split_ifs
    · exact keeps x
    · rfl
  · simp only [updateRuns, List.mem_map, decide_eq_true_eq]
    constructor
    · rintro ⟨old, at_old, rfl⟩
      split_ifs with ofRun
      · rw [run_unique unique at_old member (ofRun.trans same.symm)]
        exact .inr rfl
      · exact .inl ⟨at_old, fun clash => ofRun (clash.trans same)⟩
    · rintro (⟨at_x, differs⟩ | rfl)
      · exact ⟨x, at_x, if_neg fun clash => differs (clash.trans same.symm)⟩
      · exact ⟨row, member, if_pos same⟩

theorem Replaces.member' {runs after : List RunRow} {row row' : RunRow}
    (replaces : Replaces runs after row row') : row' ∈ after :=
  (replaces.mem row').mpr (.inr rfl)

theorem Replaces.others {runs after : List RunRow} {row row' x : RunRow}
    (replaces : Replaces runs after row row') (differs : x.runId ≠ row.runId) :
    x ∈ after ↔ x ∈ runs := by
  rw [replaces.mem]
  constructor
  · rintro (⟨member, _⟩ | rfl)
    · exact member
    · exact absurd replaces.same differs
  · exact fun member => .inl ⟨member, differs⟩

/-- Whether some manifest satisfies a condition does not depend on a replacement by one for which
the condition says the same. -/
theorem Replaces.exists_iff {db : Database} {after : List RunRow} {row row' : RunRow}
    (replaces : Replaces db.runs after row row') (unique : UniqueRuns db) {P : RunRow → Prop}
    (same : P row' ↔ P row) : (∃ x ∈ after, P x) ↔ ∃ x ∈ db.runs, P x := by
  constructor
  · rintro ⟨x, member, holds⟩
    rcases (replaces.mem x).mp member with ⟨before, _⟩ | rfl
    · exact ⟨x, before, holds⟩
    · exact ⟨row, replaces.member, same.mp holds⟩
  · rintro ⟨x, member, holds⟩
    by_cases ofRun : x.runId = row.runId
    · rw [run_unique unique member replaces.member ofRun] at holds
      exact ⟨row', (replaces.mem row').mpr (.inr rfl), same.mpr holds⟩
    · exact ⟨x, (replaces.others ofRun).mpr member, holds⟩

/-- A condition on manifests holds after a replacement when it holds of the other manifests and
of the new one. -/
theorem Replaces.forall {runs after : List RunRow} {row row' : RunRow}
    (replaces : Replaces runs after row row') {P : RunRow → Prop}
    (others : ∀ x ∈ runs, x.runId ≠ row.runId → P x) (new : P row') : ∀ x ∈ after, P x := by
  intro x member
  rcases (replaces.mem x).mp member with ⟨at_x, differs⟩ | rfl
  · exact others x at_x differs
  · exact new

theorem Replaces.unique {db after : Database} {row row' : RunRow}
    (replaces : Replaces db.runs after.runs row row') (unique : UniqueRuns db) :
    UniqueRuns after := by
  unfold UniqueRuns
  rw [replaces.ids]
  exact unique

/-- A recorded failure replaces the manifest of its run. -/
theorem failure_replaces {db : Database} (unique : UniqueRuns db) {p : FailureParameters}
    {row : RunRow} (now : UtcTime) (atRow : runRows db p.runId = [row])
    (canFail : row.canFail p.runId = true) :
    Replaces db.runs (updateRuns db (RunRow.canFail p.runId) (RunRow.fail p now)).runs row
      (row.fail p now) := by
  have conditions : updateRuns db (RunRow.canFail p.runId) (RunRow.fail p now) =
      updateRuns db (·.runId = p.runId) (RunRow.fail p now) := by
    unfold updateRuns
    congr 1
    refine List.map_congr_left fun x at_x => ?_
    by_cases ofRun : x.runId = p.runId
    · have here : x ∈ runRows db p.runId := mem_runRows.mpr ⟨at_x, ofRun⟩
      rw [atRow] at here
      obtain rfl := List.mem_singleton.mp here
      simp [canFail, ofRun]
    · simp [RunRow.canFail, ofRun]
  rw [conditions]
  exact updateRuns_replaces unique atRow fun _ => rfl

/-- Where a manifest after an effect comes from. -/
inductive RunOrigin (db : Database) : Script → RunRow → Prop where
  | kept {script : Script} {row : RunRow} (member : row ∈ db.runs) : RunOrigin db script row
  | begun {run : NewRun} (now : UtcTime) : RunOrigin db (.beginRun run) (run.row now)
  | committed {c : ControlRow} {product : Product} {p : CommitParameters} {row : RunRow}
      (member : row ∈ db.runs) (seeded : Seeded db c) (ofRun : row.runId = p.runId)
      (started : row.status = .started) (current : c.sequence = p.expectedSequence)
      (free : c.activeRunId = none) : RunOrigin db (.commit product p) (row.commit p)
  | finalized {c : ControlRow} {product : Product} {p : FinalizeParameters} {row : RunRow}
      (now : UtcTime) (member : row ∈ db.runs) (seeded : Seeded db c)
      (ofRun : row.runId = p.runId) (committed : row.status = .committed)
      (gate : c.activeRunId = some p.runId) :
      RunOrigin db (.finalize product p) (row.succeed p now)
  | failed {p : FailureParameters} {row : RunRow} (now : UtcTime) (member : row ∈ db.runs)
      (ofRun : row.runId = p.runId) (started : row.status = .started)
      (opened : row.commitCompleted = false) : RunOrigin db (.failure p) (row.fail p now)

/-- **The manifests after an effect.** -/
theorem Effect.origin {db after : Database} {script : Script} (effect : Effect db script after)
    (unique : UniqueRuns db) : ∀ row ∈ after.runs, RunOrigin db script row := by
  cases effect with
  | idle => exact fun row member => .kept member
  | seeded unseeded => simp [Database.seeded, Database.created]
  | begun now seeded fresh =>
      intro row member
      rcases List.mem_append.mp member with before | last
      · exact .kept before
      · rw [List.mem_singleton.mp last]
        exact .begun now
  | @committed c product p row seeded atRow started current free =>
      have ofRun : row.runId = p.runId := (mem_runRows.mp (atRow ▸ List.mem_singleton_self row)).2
      have replaces : Replaces db.runs (committedDatabase product p c db).runs row
          (row.commit p) := updateRuns_replaces unique atRow fun _ => rfl
      exact replaces.forall (fun x at_x _ => .kept at_x)
        (.committed replaces.member seeded ofRun started current free)
  | @finalized c product p row now seeded atRow committed gate =>
      have ofRun : row.runId = p.runId := (mem_runRows.mp (atRow ▸ List.mem_singleton_self row)).2
      have replaces : Replaces db.runs (finalizedDatabase product p now c db).runs row
          (row.succeed p now) := updateRuns_replaces unique atRow fun _ => rfl
      exact replaces.forall (fun x at_x _ => .kept at_x)
        (.finalized now replaces.member seeded ofRun committed gate)
  | @failed c p row now seeded atRow canFail =>
      have replaces := failure_replaces unique now atRow canFail
      simp only [RunRow.canFail, Bool.and_eq_true, decide_eq_true_eq, Bool.not_eq_true'] at canFail
      exact replaces.forall (fun x at_x _ => .kept at_x)
        (.failed now replaces.member canFail.1.1 canFail.1.2 canFail.2)

/-! ## The order of databases -/

/-- One move in the life of a run. -/
inductive RunStep : RunRow → RunRow → Prop where
  | commit {row : RunRow} (p : CommitParameters) (started : row.status = .started) :
      RunStep row (row.commit p)
  | succeed {row : RunRow} (p : FinalizeParameters) (now : UtcTime)
      (committed : row.status = .committed) : RunStep row (row.succeed p now)
  | fail {row : RunRow} (p : FailureParameters) (now : UtcTime)
      (started : row.status = .started) : RunStep row (row.fail p now)

/-- The life of a run from one manifest on. -/
abbrev RunProgress : RunRow → RunRow → Prop := Relation.ReflTransGen RunStep

/-- What a manifest says about the request it was created for. -/
def RunRow.binding (row : RunRow) : String × String × Product × Date × Option Hub :=
  (row.runId, row.requestId, row.product, row.requestedDate, row.requestedLocation)

/-- Whether a status is that of a run whose batch was written. -/
def Status.hasCommitted : Status → Bool
  | .committed | .succeeded => true
  | .started | .failed => false

theorem Status.hasCommitted_iff {status : Status} :
    status.hasCommitted = true ↔ status = .committed ∨ status = .succeeded := by
  cases status <;> simp [Status.hasCommitted]

theorem RunProgress.binding {row row' : RunRow} (progress : RunProgress row row') :
    row'.binding = row.binding := by
  induction progress with
  | refl => rfl
  | tail _ step ih => cases step <;> exact ih

theorem RunProgress.runId {row row' : RunRow} (progress : RunProgress row row') :
    row'.runId = row.runId := congrArg Prod.fst progress.binding

theorem RunProgress.final {row row' : RunRow} (progress : RunProgress row row')
    (final : row.status = .succeeded ∨ row.status = .failed) : row' = row := by
  induction progress with
  | refl => rfl
  | tail _ step ih =>
      subst ih
      cases step <;> simp_all

theorem RunProgress.of_committed {row row' : RunRow} (progress : RunProgress row row')
    (committed : row.status = .committed) :
    row' = row ∨ ∃ p now, row' = row.succeed p now := by
  induction progress with
  | refl => exact .inl rfl
  | tail before step ih =>
      rcases ih with rfl | ⟨p, now, rfl⟩
      · cases step with
        | succeed p now _ => exact .inr ⟨p, now, rfl⟩
        | commit p started => simp_all
        | fail p now started => simp_all
      · have final : (row.succeed p now).status = .succeeded := rfl
        cases step <;> simp_all

theorem RunProgress.hasCommitted {row row' : RunRow} (progress : RunProgress row row')
    (committed : row.status.hasCommitted = true) : row'.status.hasCommitted = true := by
  cases status : row.status with
  | started | failed => simp [status, Status.hasCommitted] at committed
  | succeeded => rw [progress.final (.inl status), status, Status.hasCommitted]
  | committed =>
      rcases progress.of_committed status with rfl | ⟨p, now, rfl⟩
      · exact committed
      · rfl

/-- A content keeps everything but a missing clock. -/
def ContentMove (row row' : ContentRow) : Prop :=
  row' = row ∨ row.firstSeenAt = none ∧ ∃ time, row' = { row with firstSeenAt := some time }

/-- A transition keeps everything but a missing clock. -/
def TransitionMove (row row' : TransitionRow) : Prop :=
  row' = row ∨ row.knownAt = none ∧ ∃ time, row' = { row with knownAt := some time }

theorem ContentMove.trans {a b c : ContentRow} (ab : ContentMove a b) (bc : ContentMove b c) :
    ContentMove a c := by
  rcases ab with rfl | ⟨missing, time, rfl⟩
  · exact bc
  · rcases bc with rfl | ⟨missing', _⟩
    · exact .inr ⟨missing, time, rfl⟩
    · cases missing'

theorem TransitionMove.trans {a b c : TransitionRow} (ab : TransitionMove a b)
    (bc : TransitionMove b c) : TransitionMove a c := by
  rcases ab with rfl | ⟨missing, time, rfl⟩
  · exact bc
  · rcases bc with rfl | ⟨missing', _⟩
    · exact .inr ⟨missing, time, rfl⟩
    · cases missing'

/-- The commits so far. -/
def Database.sequence (db : Database) : Nat := (db.control.head?.map (·.sequence)).getD 0

/-- The run that holds the gate. -/
def Database.gate (db : Database) : Option String := db.control.head?.bind (·.activeRunId)

/-- The first database comes before the second. -/
structure Precedes (a b : Database) : Prop where
  seeded : a.control ≠ [] → b.control ≠ []
  sequence_le : a.sequence ≤ b.sequence
  frozen : a.sequence = b.sequence → a.gate = none →
    b.gate = none ∧ b.contents = a.contents ∧ b.transitions = a.transitions
  runs : Grows RunProgress (fun _ => True) a.runs b.runs
  contents : ∀ product, Grows ContentMove (fun _ => True) (a.contents product) (b.contents product)
  transitions : ∀ product, Grows TransitionMove (fun row => a.sequence < row.commitSequence)
    (a.transitions product) (b.transitions product)

namespace Precedes

theorem refl (db : Database) : Precedes db db where
  seeded present := present
  sequence_le := le_refl _
  frozen _ free := ⟨free, rfl, rfl⟩
  runs := .refl (fun _ => .refl) _
  contents _ := .refl (fun _ => .inl rfl) _
  transitions _ := .refl (fun _ => .inl rfl) _

theorem trans {a b c : Database} (ab : Precedes a b) (bc : Precedes b c) : Precedes a c where
  seeded present := bc.seeded (ab.seeded present)
  sequence_le := le_trans ab.sequence_le bc.sequence_le
  frozen same free := by
    have middle : a.sequence = b.sequence :=
      le_antisymm ab.sequence_le (same ▸ bc.sequence_le)
    obtain ⟨free', contents, transitions⟩ := ab.frozen middle free
    obtain ⟨free'', contents', transitions'⟩ := bc.frozen (middle ▸ same) free'
    exact ⟨free'', contents'.trans contents, transitions'.trans transitions⟩
  runs := ab.runs.trans (fun _ _ _ => .trans) (fun _ _ _ _ => trivial) (fun _ _ => trivial) bc.runs
  contents product := (ab.contents product).trans (fun _ _ _ => .trans)
    (fun _ _ _ _ => trivial) (fun _ _ => trivial) (bc.contents product)
  transitions product := by
    refine (ab.transitions product).trans (fun _ _ _ => .trans) ?_ ?_ (bc.transitions product)
    · rintro row row' later (rfl | ⟨_, _, rfl⟩) <;> exact later
    · exact fun row later => lt_of_le_of_lt ab.sequence_le later

/-- A manifest is still there later, further along the life of its run. -/
theorem run {a b : Database} (precedes : Precedes a b) {row : RunRow} (member : row ∈ a.runs) :
    ∃ row' ∈ b.runs, RunProgress row row' := precedes.runs.moved member

/-- The manifest of a run that succeeded or failed stays as it is. -/
theorem final {a b : Database} (precedes : Precedes a b) {row : RunRow} (member : row ∈ a.runs)
    (final : row.status = .succeeded ∨ row.status = .failed) : row ∈ b.runs := by
  obtain ⟨row', member', progress⟩ := precedes.run member
  rwa [progress.final final] at member'

end Precedes

/-- The rows of a plan belong to its run and have no clocks yet. -/
structure WellPlanned (p : CommitParameters) : Prop where
  contents : ∀ row ∈ p.contents, row.firstRunId = p.runId ∧ row.firstSeenAt = none
  transitions : ∀ row ∈ p.transitions, row.runId = p.runId ∧
    row.commitSequence = p.expectedSequence + 1 ∧ row.knownAt = none

theorem Seeded.sequence {db : Database} {c : ControlRow} (seeded : Seeded db c) :
    db.sequence = c.sequence := by
  simp [Database.sequence, seeded.control]

theorem Seeded.gate {db : Database} {c : ControlRow} (seeded : Seeded db c) :
    db.gate = c.activeRunId := by
  simp [Database.gate, seeded.control]

theorem updateRuns_grows {db : Database} {condition : RunRow → Bool} {change : RunRow → RunRow}
    (moves : ∀ row ∈ db.runs, condition row = true → RunStep row (change row)) :
    Grows RunProgress (fun _ => True) db.runs (updateRuns db condition change).runs := by
  refine .map fun row member => ?_
  split_ifs with holds
  · exact .single (moves row member holds)
  · exact .refl

theorem mergeRows_grows {α : Type} {Moves : α → α → Prop} {New : α → Prop} (key : α → String)
    (refl : ∀ x, Moves x x) (target : List α) {source : List α} (all : ∀ x ∈ source, New x) :
    Grows Moves New target (mergeRows key target source) :=
  .append refl target fun x member => all x (List.mem_filter.mp member).1

/-- **Every effect leads to a later database.** -/
theorem Effect.precedes {db after : Database} {script : Script}
    (effect : Effect db script after) (unique : UniqueRuns db)
    (planned : ∀ product p, script = .commit product p → WellPlanned p) : Precedes db after := by
  have statusOf : ∀ {runId : String} {row other : RunRow}, runRows db runId = [row] →
      other ∈ db.runs → other.runId = runId → other = row := by
    intro runId row other atRow member same
    have at_other : other ∈ runRows db runId := mem_runRows.mpr ⟨member, same⟩
    rw [atRow] at at_other
    exact List.mem_singleton.mp at_other
  cases effect with
  | idle => exact .refl db
  | seeded unseeded =>
      subst unseeded
      exact ⟨fun _ => by simp [Database.seeded], le_refl _, fun _ _ => ⟨rfl, rfl, rfl⟩,
        .added (by simp), fun _ => .added (by simp [Database.seeded, Database.created]),
        fun _ => .added (by simp [Database.seeded, Database.created])⟩
  | begun now seeded fresh =>
      exact ⟨fun present => present, le_refl _, fun _ free => ⟨free, rfl, rfl⟩,
        .append (fun _ => .refl) _ (by simp), fun _ => .refl (fun _ => .inl rfl) _,
        fun _ => .refl (fun _ => .inl rfl) _⟩
  | @committed c product p row seeded atRow started current free =>
      have wellPlanned := planned product p rfl
      have later : (committedDatabase product p c db).sequence = db.sequence + 1 := by
        simp [committedDatabase, updateRuns, insertRows, Database.sequence, ControlRow.take,
          seeded.control]
      refine ⟨fun _ => by simp [committedDatabase, updateRuns, insertRows], by omega,
        fun same => by omega, updateRuns_grows fun other member holds => ?_,
        fun product' => ?_, fun product' => ?_⟩
      · have same := statusOf atRow member (by simpa using holds)
        exact .commit p (same ▸ started)
      · by_cases same : product' = product
        · subst same
          simp only [committedDatabase, updateRuns, insertRows, Function.update_self]
          exact mergeRows_grows _ (fun _ => .inl rfl) _ (by simp)
        · simp only [committedDatabase, updateRuns, insertRows, Function.update_of_ne same]
          exact .refl (fun _ => .inl rfl) _
      · by_cases same : product' = product
        · subst same
          simp only [committedDatabase, updateRuns, insertRows, Function.update_self]
          refine mergeRows_grows _ (fun _ => .inl rfl) _ fun added member => ?_
          rw [(wellPlanned.transitions added member).2.1, ← current, seeded.sequence]
          exact Nat.lt_succ_self _
        · simp only [committedDatabase, updateRuns, insertRows, Function.update_of_ne same]
          exact .refl (fun _ => .inl rfl) _
  | @finalized c product p row now seeded atRow committed gate =>
      refine ⟨fun _ => by simp [finalizedDatabase, updateRuns, fillClocks], ?_, ?_,
        updateRuns_grows fun other member holds => ?_, fun product' => ?_, fun product' => ?_⟩
      · simp [finalizedDatabase, updateRuns, fillClocks, Database.sequence, seeded.control,
          ControlRow.release]
      · intro _ free
        rw [seeded.gate, gate] at free
        cases free
      · have same := statusOf atRow member (by simpa using holds)
        exact .succeed p now (same ▸ committed)
      · by_cases same : product' = product
        · subst same
          simp only [finalizedDatabase, updateRuns, fillClocks, Function.update_self]
          refine .map fun content member => ?_
          split_ifs with missing
          · exact .inr ⟨missing.2, p.knowledgeAt, rfl⟩
          · exact .inl rfl
        · simp only [finalizedDatabase, updateRuns, fillClocks, Function.update_of_ne same]
          exact .refl (fun _ => .inl rfl) _
      · by_cases same : product' = product
        · subst same
          simp only [finalizedDatabase, updateRuns, fillClocks, Function.update_self]
          refine .map fun transition member => ?_
          split_ifs with missing
          · exact .inr ⟨missing.2, p.knowledgeAt, rfl⟩
          · exact .inl rfl
        · simp only [finalizedDatabase, updateRuns, fillClocks, Function.update_of_ne same]
          exact .refl (fun _ => .inl rfl) _
  | @failed c p row now seeded atRow canFail =>
      refine ⟨fun present => present, le_refl _, fun _ free => ⟨free, rfl, rfl⟩,
        updateRuns_grows fun other member holds => ?_, fun _ => .refl (fun _ => .inl rfl) _,
        fun _ => .refl (fun _ => .inl rfl) _⟩
      simp only [RunRow.canFail, Bool.and_eq_true, decide_eq_true_eq] at holds
      exact .fail p now holds.1.2

end PowerMarket
