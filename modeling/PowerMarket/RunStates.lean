import PowerMarket.Replays

/-!
# The run state machine

Every reachable state of the system keeps the contract of the manifests: a run moves from
started to committed to succeeded or from started to failed, the gate is held by the one
committed run, only runs that have committed own rows, and their sequence numbers are the
numbers from one to the control sequence (`run_states`).
-/

set_option autoImplicit false

namespace PowerMarket

open Library

variable [Platform]

/-- The moves between the states of a run, or none. -/
inductive Status.Moves : Status → Status → Prop where
  | stay (status : Status) : Moves status status
  | commit : Moves .started .committed
  | succeed : Moves .committed .succeeded
  | fail : Moves .started .failed

/-- The contract of the manifests in a seeded warehouse. -/
structure RunStates (c : ControlRow) (db : Database) : Prop where
  control : db.control = [c]
  unique : (db.runs.map (·.runId)).Nodup
  gate : ∀ runId, c.activeRunId = some runId ↔
    ∃ row ∈ db.runs, row.runId = runId ∧ row.status = .committed
  single : ∀ row ∈ db.runs, ∀ other ∈ db.runs, row.status = .committed →
    other.status = .committed → row = other
  contents : ∀ product, ∀ content ∈ db.contents product, ∃ row ∈ db.runs,
    row.runId = content.firstRunId ∧ (row.status = .committed ∨ row.status = .succeeded)
  transitions : ∀ product, ∀ transition ∈ db.transitions product, ∃ row ∈ db.runs,
    row.runId = transition.runId ∧ (row.status = .committed ∨ row.status = .succeeded)
  count : (db.runs.filter (·.status.hasCommitted)).length = c.sequence
  numbers : ((db.runs.filter (·.status.hasCommitted)).map (·.commitSequence)).Perm
    ((List.range c.sequence).map fun n => some (n + 1))

theorem Sound.numbers {c : ControlRow} {db : Database} (sound : Sound c db) :
    ((db.runs.filter (·.status.hasCommitted)).map (·.commitSequence)).Perm
      ((List.range c.sequence).map fun n => some (n + 1)) := by
  have distinct : ((db.runs.filter (·.status.hasCommitted)).map (·.commitSequence)).Nodup := by
    refine List.Nodup.map_on ?_ (List.Nodup.of_map _ sound.unique |>.filter _)
    intro row at_row other at_other same
    obtain ⟨member, committed⟩ := List.mem_filter.mp at_row
    obtain ⟨member', committed'⟩ := List.mem_filter.mp at_other
    exact sound.distinct row member other member' committed committed' same
  have distinct' : ((List.range c.sequence).map fun n => some (n + 1)).Nodup :=
    List.Nodup.map (fun a b same => by simpa using same) List.nodup_range
  refine (List.perm_ext_iff_of_nodup distinct distinct').mpr fun number => ?_
  simp only [List.mem_map, List.mem_filter, List.mem_range]
  constructor
  · rintro ⟨row, ⟨member, committed⟩, rfl⟩
    obtain ⟨n, less, number⟩ := sound.numbered row member committed
    exact ⟨n, less, number.symm⟩
  · rintro ⟨n, less, rfl⟩
    obtain ⟨row, member, committed, number⟩ := sound.complete n less
    exact ⟨row, ⟨member, committed⟩, number⟩

theorem Sound.runStates {c : ControlRow} {db : Database} (sound : Sound c db) :
    RunStates c db where
  control := sound.seeded.control
  unique := sound.unique
  gate runId := by
    constructor
    · intro held
      obtain ⟨row, member, rfl⟩ := sound.holder runId held
      exact ⟨row, member, rfl, (sound.gate row member).mpr held⟩
    · rintro ⟨row, member, rfl, committed⟩
      exact (sound.gate row member).mp committed
  single row member other member' committed committed' := by
    have held := (sound.gate row member).mp committed
    have held' := (sound.gate other member').mp committed'
    rw [held] at held'
    exact run_unique sound.unique member member' (Option.some.inj held')
  contents product content member := by
    obtain ⟨row, wrote, ofRun, _⟩ := sound.contents product content member
    exact ⟨row, wrote.member, ofRun, Status.hasCommitted_iff.mp wrote.committed⟩
  transitions product transition member := by
    obtain ⟨row, wrote, ofRun, _⟩ := sound.transitions product transition member
    exact ⟨row, wrote.member, ofRun, Status.hasCommitted_iff.mp wrote.committed⟩
  count := by
    have lengths := sound.numbers.length_eq
    simpa using lengths
  numbers := sound.numbers

theorem Good.owns_nothing {db : Database} (good : Good db) {row : RunRow} (member : row ∈ db.runs)
    (idle : row.status = .started ∨ row.status = .failed) (product : Product) :
    (∀ content ∈ db.contents product, content.firstRunId ≠ row.runId) ∧
      ∀ transition ∈ db.transitions product, transition.runId ≠ row.runId := by
  obtain ⟨c, sound⟩ := good.sound member
  have clash : ∀ other, Wrote db product other → other.runId ≠ row.runId := by
    intro other wrote same
    have committed := wrote.committed
    rw [run_unique sound.unique wrote.member member same] at committed
    rcases idle with started | failed
    · rw [started] at committed
      cases committed
    · rw [failed] at committed
      cases committed
  constructor
  · intro content at_content
    obtain ⟨other, wrote, ofRun, _⟩ := sound.contents product content at_content
    exact ofRun ▸ clash other wrote
  · intro transition at_transition
    obtain ⟨other, wrote, ofRun, _⟩ := sound.transitions product transition at_transition
    exact ofRun ▸ clash other wrote

theorem Effect.moves {db after : Database} {script : Script} (effect : Effect db script after)
    (unique : UniqueRuns db) (permitted : Permitted db script) {row row' : RunRow}
    (member : row ∈ db.runs) (member' : row' ∈ after.runs) (ofRun : row'.runId = row.runId) :
    row.status.Moves row'.status := by
  have same : ∀ other ∈ db.runs, other.runId = row'.runId → other = row :=
    fun other at_other ofRun' => run_unique unique at_other member (ofRun'.trans ofRun)
  have origin := effect.origin unique row' member'
  cases origin with
  | kept before =>
      rw [same row' before rfl]
      exact .stay _
  | @begun run now =>
      cases effect with
      | idle =>
          rw [same _ member' rfl]
          exact .stay _
      | begun now' seeded fresh => exact absurd ofRun.symm (fresh row member)
  | @committed c product p other before seeded ofRun' started current free =>
      rw [← same other before rfl, started]
      exact .commit
  | @finalized c product p other now before seeded ofRun' committed gate =>
      rw [← same other before rfl, committed]
      exact .succeed
  | @failed p other now before ofRun' started opened =>
      rw [← same other before rfl, started]
      exact .fail

/-- One step of the system moves a run by one move at most. -/
theorem step_moves {s s' : WarehouseSystem} (reachable : Reachable s) (step : SystemStep s s')
    {row : RunRow} (member : row ∈ s.world.store.runs) :
    ∃ row' ∈ s'.world.store.runs, row'.runId = row.runId ∧ row.status.Moves row'.status := by
  have unique := reachable.orderly.good.unique
  obtain ⟨row', member', progress⟩ := (reachable.run (.single step)).2.before.run member
  refine ⟨row', member', progress.runId, ?_⟩
  rcases step_effect reachable step with same | ⟨_, _, _, _, _, takes⟩
  · rw [same] at member'
    rw [run_unique unique member' member progress.runId]
    exact .stay _
  · exact takes.effect.moves unique takes.submittable.1 member member' progress.runId

/-- **The run state machine.** In every reachable state, a step moves each run by one of the
moves, the tables were just created or keep the contract of the manifests, a started or failed
run owns no rows, and a failed run never acquires any. -/
theorem run_states {s : WarehouseSystem} (reachable : Reachable s) :
    (∀ s', SystemStep s s' → ∀ row ∈ s.world.store.runs, ∃ row' ∈ s'.world.store.runs,
      row'.runId = row.runId ∧ row.status.Moves row'.status) ∧
    (s.world.store = .created ∨ ∃ c, RunStates c s.world.store) ∧
    (∀ row ∈ s.world.store.runs, row.status = .started ∨ row.status = .failed → ∀ product,
      (∀ content ∈ s.world.store.contents product, content.firstRunId ≠ row.runId) ∧
        ∀ transition ∈ s.world.store.transitions product, transition.runId ≠ row.runId) ∧
    ∀ row ∈ s.world.store.runs, row.status = .failed → ∀ s', SystemRun s s' → ∀ product,
      (∀ content ∈ s'.world.store.contents product, content.firstRunId ≠ row.runId) ∧
        ∀ transition ∈ s'.world.store.transitions product, transition.runId ≠ row.runId := by
  have good := reachable.orderly.good
  refine ⟨fun s' step row member => step_moves reachable step member, ?_,
    fun row member idle product => good.owns_nothing member idle product, ?_⟩
  · rcases good with created | ⟨c, sound, _⟩
    · exact .inl created
    · exact .inr ⟨c, sound.runStates⟩
  · intro row member failed s' run product
    obtain ⟨reachable', later⟩ := reachable.run run
    obtain ⟨row', member', progress⟩ := later.before.run member
    obtain rfl := progress.final (.inr failed)
    exact reachable'.orderly.good.owns_nothing member' (.inr failed) product

omit [Platform] in
/-- The contract after a load was revised and corrected back. -/
theorem run_states_sample :
    letI := Platform.plain
    ∃ s : WarehouseSystem, Revised s.world.store ∧ ∃ c, RunStates c s.world.store := by
  let _ := Platform.plain
  obtain ⟨s, reachable, revised⟩ := exists_revised
  obtain ⟨_, states, _⟩ := run_states reachable
  exact ⟨s, revised, states.resolve_left revised.ne_created⟩

end PowerMarket
