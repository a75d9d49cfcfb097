import Mathlib.Tactic.SplitIfs

/-!
# Resumable lists of tasks

Tasks with identifiers are worked off in a fixed order, and none is applied a second time. How far
the work has come is a list of the identifiers that were done with the state they have led to
(`Progress`).

`Resumable.Reached` says that some first part of the list has been worked off. It is the relation
that a process establishes which may be interrupted anywhere and starts again from the first task:
it passes over what was done and applies one more task (`Reached.next`). Once every task was done,
the state is that of the whole list (`Reached.complete`).
-/

set_option autoImplicit false

namespace PowerMarket.Library

/-- The identifiers of the tasks that were done, and the state they have led to. -/
structure Progress (Id σ : Type) where
  ids : List Id
  state : σ

namespace Resumable

variable {Task Id σ ε : Type} [DecidableEq Id] (key : Task → Id) (effect : Task → σ → Except ε σ)

/-- Apply one task, unless it was done before. -/
def one (task : Task) (progress : Progress Id σ) : Except ε (Progress Id σ) :=
  if key task ∈ progress.ids then .ok progress
  else (effect task progress.state).map fun state => ⟨key task :: progress.ids, state⟩

/-- Work off tasks in their order. -/
def all : List Task → Progress Id σ → Except ε (Progress Id σ)
  | [], progress => .ok progress
  | task :: tasks, progress =>
    match one key effect task progress with
    | .ok progress => all tasks progress
    | .error e => .error e

variable {key effect} {task : Task} {tasks before rest : List Task}
  {start progress after : Progress Id σ}

theorem one_of_done (done : key task ∈ progress.ids) : one key effect task progress = .ok progress :=
  if_pos done

theorem one_of_apply {state : σ} (fresh : key task ∉ progress.ids)
    (applied : effect task progress.state = .ok state) :
    one key effect task progress = .ok ⟨key task :: progress.ids, state⟩ := by
  rw [one, if_neg fresh, applied]
  rfl

/-- What working off one task did. -/
theorem one_eq_ok : one key effect task progress = .ok after ↔
    key task ∈ progress.ids ∧ after = progress ∨ key task ∉ progress.ids ∧
      ∃ state, effect task progress.state = .ok state ∧
        after = ⟨key task :: progress.ids, state⟩ := by
  unfold one
  split_ifs with done
  · simp [done, eq_comm]
  · cases effect task progress.state with
    | error e => simp [done, Except.map]
    | ok state => simp [done, Except.map, eq_comm]

/-- The first task is worked off first. -/
theorem all_cons : all key effect (task :: tasks) start = .ok after ↔
    ∃ progress, one key effect task start = .ok progress ∧
      all key effect tasks progress = .ok after := by
  rw [all]
  cases one key effect task start with
  | error e => simp
  | ok progress => simp

/-- The second part of a list is worked off after the first. -/
theorem all_append : all key effect (before ++ rest) start = .ok after ↔
    ∃ progress, all key effect before start = .ok progress ∧
      all key effect rest progress = .ok after := by
  induction before generalizing start with
  | nil => simp [all]
  | cons task before ih =>
      rw [List.cons_append, all_cons]
      constructor
      · rintro ⟨middle, first, others⟩
        obtain ⟨progress, worked, later⟩ := ih.mp others
        exact ⟨progress, all_cons.mpr ⟨middle, first, worked⟩, later⟩
      · rintro ⟨progress, worked, later⟩
        obtain ⟨middle, first, others⟩ := all_cons.mp worked
        exact ⟨middle, first, ih.mpr ⟨progress, others, later⟩⟩

theorem mem_one_ids (worked : one key effect task progress = .ok after) {i : Id} :
    i ∈ after.ids ↔ i = key task ∨ i ∈ progress.ids := by
  rcases one_eq_ok.mp worked with ⟨done, rfl⟩ | ⟨_, state, _, rfl⟩
  · constructor
    · exact .inr
    · rintro (rfl | member)
      · exact done
      · exact member
  · exact List.mem_cons

/-- All tasks of a list that was worked off are done. -/
theorem all_ids (worked : all key effect tasks start = .ok after) :
    (∀ task ∈ tasks, key task ∈ after.ids) ∧ ∀ i ∈ start.ids, i ∈ after.ids := by
  induction tasks generalizing start with
  | nil =>
      cases worked
      exact ⟨by simp, fun _ member => member⟩
  | cons task tasks ih =>
      obtain ⟨progress, first, others⟩ := all_cons.mp worked
      obtain ⟨done, still⟩ := ih others
      exact ⟨List.forall_mem_cons.mpr ⟨still _ ((mem_one_ids first).mpr (.inl rfl)), done⟩,
        fun i member => still i ((mem_one_ids first).mpr (.inr member))⟩

theorem all_of_done (done : ∀ task ∈ tasks, key task ∈ progress.ids) :
    all key effect tasks progress = .ok progress := by
  induction tasks with
  | nil => rfl
  | cons task tasks ih =>
      obtain ⟨first, others⟩ := List.forall_mem_cons.mp done
      exact all_cons.mpr ⟨progress, one_of_done first, ih others⟩

theorem mem_all_ids (worked : all key effect tasks start = .ok after) {i : Id} :
    i ∈ after.ids ↔ i ∈ start.ids ∨ ∃ task ∈ tasks, key task = i := by
  induction tasks generalizing start with
  | nil =>
      cases worked
      simp
  | cons task tasks ih =>
      obtain ⟨progress, first, others⟩ := all_cons.mp worked
      rw [ih others, mem_one_ids first]
      simp only [List.mem_cons, exists_eq_or_imp]
      rw [or_assoc, or_left_comm, eq_comm]

/-- **What working off a list does**: the tasks that were not done before are applied one after
another. -/
theorem all_pending (distinct : tasks.Pairwise fun a b => key a ≠ key b)
    (worked : all key effect tasks start = .ok after) :
    (tasks.filter fun task => key task ∉ start.ids).foldlM (fun state task => effect task state)
      start.state = .ok after.state := by
  induction tasks generalizing start with
  | nil =>
      cases worked
      rfl
  | cons task tasks ih =>
      obtain ⟨different, rest⟩ := List.pairwise_cons.mp distinct
      obtain ⟨progress, first, others⟩ := all_cons.mp worked
      have later := ih rest others
      rcases one_eq_ok.mp first with ⟨done, rfl⟩ | ⟨fresh, state, applied, rfl⟩
      · rwa [List.filter_cons_of_neg (by simpa using done)]
      · rw [List.filter_cons_of_pos (by simpa using fresh), List.foldlM_cons, applied]
        have same : (tasks.filter fun other => key other ∉ key task :: start.ids) =
            tasks.filter fun other => key other ∉ start.ids := by
          refine List.filter_congr fun other member => ?_
          simp [(different other member).symm]
        rw [same] at later
        exact later

/-! ## Interrupted work -/

variable (key effect) in
/-- Some first part of the tasks has been worked off. -/
def Reached (tasks : List Task) (start progress : Progress Id σ) : Prop :=
  ∃ before rest, tasks = before ++ rest ∧ all key effect before start = .ok progress

theorem Reached.none (tasks : List Task) (start : Progress Id σ) :
    Reached key effect tasks start start :=
  ⟨[], tasks, rfl, rfl⟩

/-- **One more task.** Whoever starts again from the first task, finds that all tasks before one
were done and applies that one, continues the work. -/
theorem Reached.next (reached : Reached key effect tasks start progress)
    (split : tasks = before ++ task :: rest) (done : ∀ task ∈ before, key task ∈ progress.ids)
    (fresh : key task ∉ progress.ids) {state : σ} (applied : effect task progress.state = .ok state) :
    Reached key effect tasks start ⟨key task :: progress.ids, state⟩ := by
  obtain ⟨worked, open_, tasks_eq, worked_off⟩ := reached
  have last : all key effect [task] progress = .ok ⟨key task :: progress.ids, state⟩ :=
    all_cons.mpr ⟨_, one_of_apply fresh applied, rfl⟩
  refine ⟨before ++ [task], rest, by rw [split, List.append_assoc, List.singleton_append],
    all_append.mpr ⟨progress, ?_, last⟩⟩
  rcases List.append_eq_append_iff.mp (tasks_eq.symm.trans split) with
    ⟨between, before_eq, _⟩ | ⟨between, worked_eq, rest_eq⟩
  · -- The tasks between were done before, and are passed over.
    rw [before_eq] at done ⊢
    exact all_append.mpr ⟨progress, worked_off,
      all_of_done fun task member => done task (List.mem_append_right _ member)⟩
  · cases between with
    | nil =>
        rw [List.append_nil] at worked_eq
        rw [← worked_eq]
        exact worked_off
    | cons first between =>
        rw [List.cons_append, List.cons.injEq] at rest_eq
        have member : task ∈ worked := by
          rw [worked_eq, rest_eq.1]
          exact List.mem_append_right _ List.mem_cons_self
        exact absurd ((all_ids worked_off).1 task member) fresh

/-- **All tasks were done.** Then they were worked off as by someone who was never interrupted. -/
theorem Reached.complete (reached : Reached key effect tasks start progress)
    (done : ∀ task ∈ tasks, key task ∈ progress.ids) : all key effect tasks start = .ok progress := by
  obtain ⟨worked, open_, rfl, worked_off⟩ := reached
  exact all_append.mpr ⟨progress, worked_off,
    all_of_done fun task member => done task (List.mem_append_right _ member)⟩

end Resumable

end PowerMarket.Library
