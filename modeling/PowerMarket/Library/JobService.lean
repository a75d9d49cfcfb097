import PowerMarket.Library.Programs
import Mathlib.Order.Basic
import Mathlib.Order.Lattice

/-!
# An asynchronous job service over a versioned store

Clients submit scripts as jobs. A job has an identifier, given by the client or generated, and
an identifier is used at most once: a second submission under it is refused. A submitted job
waits, then runs on a snapshot of the store, and ends at most once, with its rows or with an
error. A script either takes effect as a whole or not at all, and a script that writes takes
effect only when no other write came between its snapshot and its end, so that of two writing
scripts that read the same version at most one takes effect. Everything else is left open: a
job may run at any later moment or never, may fail for reasons of the service, and a client
call may fail before or after it reached the service.

A job reports the time it ended. That time is not before its effect, and a client sees the
job as ended only from that time on.

`Consistent` says what the snapshots and results in the job table have to do with the store,
`Background.effect` that the store changes only by a script executed on the current store,
and `respond` is the service that answers a client at once, one of its possible behaviours
(`respond_sound`).
-/

set_option autoImplicit false

namespace PowerMarket.Library.JobService

/-! ## Jobs -/

/-- The identifier of a job: a name given by the client, or one that the client library
generates. -/
inductive JobId (Name : Type) where
  | named (name : Name)
  | generated (n : Nat)
  deriving DecidableEq

/-- What a script does, whether it writes, and the errors of the service itself. A script
that does not write leaves the store alone. -/
structure Engine (σ Script Rows ε T : Type) where
  execute : Script → T → σ → Except ε (σ × Rows)
  writes : Script → Bool
  conflictingUpdate : ε
  alreadyExists : ε
  notFound : ε
  reads_only : ∀ {script t store store' rows}, writes script = false →
    execute script t store = .ok (store', rows) → store' = store

/-- The bytes that a job reports. -/
structure Usage where
  processed : Option Nat
  billed : Option Nat
  deriving DecidableEq

/-- The life of a job. A running job works on the store as it was when it started. -/
inductive Phase (σ Rows ε T : Type) where
  | pending
  | running (snapshot : σ) (version : Nat) (started : T)
  | ended (outcome : Except ε Rows) (time : T) (usage : Usage)

/-- Whether a job has ended. -/
def Phase.isEnded {σ Rows ε T : Type} : Phase σ Rows ε T → Bool
  | .ended .. => true
  | _ => false

structure Job (σ Script Rows ε T : Type) where
  script : Script
  phase : Phase σ Rows ε T

/-- The state of the service: its clock, the store with its version, the jobs by identifier
and how many identifiers have been generated. -/
structure World (Name σ Script Rows ε T : Type) where
  clock : T
  store : σ
  version : Nat
  jobs : JobId Name → Option (Job σ Script Rows ε T)
  issued : Nat

/-- What a client sees of a job: its rows when it asked for them, whether the job is done,
whether it is done with an error, and the reported end. -/
structure View (Rows T : Type) where
  rows : Option Rows
  done : Bool
  failed : Bool
  ended : Option T
  usage : Usage

/-- The calls of a client: submit a script, look up a job, wait for its result, refresh it,
or do something outside the service. -/
inductive Call (Name Script X : Type) where
  | query (name : Option Name) (script : Script)
  | getJob (name : Name)
  | result (id : JobId Name)
  | reload (id : JobId Name)
  | outside (request : X)

/-- What a call answers when it does not fail. -/
@[reducible] def Answer (Name Script X Rows T : Type) (Y : X → Type) :
    Call Name Script X → Type
  | .query _ _ => JobId Name
  | .getJob _ => JobId Name
  | .result _ => View Rows T
  | .reload _ => View Rows T
  | .outside request => Y request

variable {Name σ Script Rows ε T X : Type} {Y : X → Type}

namespace World

/-- Take over the store that a script leaves, when the script writes. -/
def install (E : Engine σ Script Rows ε T) (w : World Name σ Script Rows ε T) (script : Script)
    (store : σ) : World Name σ Script Rows ε T :=
  if E.writes script then { w with store := store, version := w.version + 1 } else w

@[simp] theorem install_clock (E : Engine σ Script Rows ε T) (w : World Name σ Script Rows ε T)
    (script : Script) (store : σ) : (w.install E script store).clock = w.clock := by
  unfold install
  split <;> rfl

@[simp] theorem install_jobs (E : Engine σ Script Rows ε T) (w : World Name σ Script Rows ε T)
    (script : Script) (store : σ) : (w.install E script store).jobs = w.jobs := by
  unfold install
  split <;> rfl

@[simp] theorem install_issued (E : Engine σ Script Rows ε T) (w : World Name σ Script Rows ε T)
    (script : Script) (store : σ) : (w.install E script store).issued = w.issued := by
  unfold install
  split <;> rfl

theorem install_of_writes {E : Engine σ Script Rows ε T} (w : World Name σ Script Rows ε T)
    {script : Script} (store : σ) (writes : E.writes script = true) :
    w.install E script store = { w with store := store, version := w.version + 1 } := by
  simp [install, writes]

theorem install_of_reads {E : Engine σ Script Rows ε T} (w : World Name σ Script Rows ε T)
    {script : Script} (store : σ) (reads : E.writes script = false) :
    w.install E script store = w := by
  simp [install, reads]

variable [DecidableEq Name]

/-- Record a job. -/
def setJob (w : World Name σ Script Rows ε T) (id : JobId Name) (job : Job σ Script Rows ε T) :
    World Name σ Script Rows ε T :=
  { w with jobs := Function.update w.jobs id (some job) }

@[simp] theorem setJob_clock (w : World Name σ Script Rows ε T) (id : JobId Name)
    (job : Job σ Script Rows ε T) : (w.setJob id job).clock = w.clock := rfl

@[simp] theorem setJob_store (w : World Name σ Script Rows ε T) (id : JobId Name)
    (job : Job σ Script Rows ε T) : (w.setJob id job).store = w.store := rfl

@[simp] theorem setJob_version (w : World Name σ Script Rows ε T) (id : JobId Name)
    (job : Job σ Script Rows ε T) : (w.setJob id job).version = w.version := rfl

@[simp] theorem setJob_issued (w : World Name σ Script Rows ε T) (id : JobId Name)
    (job : Job σ Script Rows ε T) : (w.setJob id job).issued = w.issued := rfl

@[simp] theorem setJob_self (w : World Name σ Script Rows ε T) (id : JobId Name)
    (job : Job σ Script Rows ε T) : (w.setJob id job).jobs id = some job :=
  Function.update_self ..

theorem setJob_ne (w : World Name σ Script Rows ε T) {id other : JobId Name}
    (job : Job σ Script Rows ε T) (differs : other ≠ id) :
    (w.setJob id job).jobs other = w.jobs other :=
  Function.update_of_ne differs ..

/-- Accept a submission under an identifier. -/
def submit (w : World Name σ Script Rows ε T) (id : JobId Name) (script : Script) :
    World Name σ Script Rows ε T :=
  { w.setJob id ⟨script, .pending⟩ with
    issued := match id with
      | .named _ => w.issued
      | .generated _ => w.issued + 1 }

@[simp] theorem submit_clock (w : World Name σ Script Rows ε T) (id : JobId Name)
    (script : Script) : (w.submit id script).clock = w.clock := rfl

@[simp] theorem submit_store (w : World Name σ Script Rows ε T) (id : JobId Name)
    (script : Script) : (w.submit id script).store = w.store := rfl

@[simp] theorem submit_version (w : World Name σ Script Rows ε T) (id : JobId Name)
    (script : Script) : (w.submit id script).version = w.version := rfl

@[simp] theorem submit_self (w : World Name σ Script Rows ε T) (id : JobId Name)
    (script : Script) : (w.submit id script).jobs id = some ⟨script, .pending⟩ :=
  Function.update_self ..

theorem submit_ne (w : World Name σ Script Rows ε T) {id other : JobId Name} (script : Script)
    (differs : other ≠ id) : (w.submit id script).jobs other = w.jobs other :=
  Function.update_of_ne differs ..

/-- The view of a job: it counts as done from its reported end on. -/
def view [LE T] [DecidableLE T] (w : World Name σ Script Rows ε T) (job : Job σ Script Rows ε T) :
    View Rows T :=
  match job.phase with
  | .ended outcome time usage =>
    if time ≤ w.clock then
      ⟨none, true, match outcome with
        | .ok _ => false
        | .error _ => true, some time, usage⟩
    else ⟨none, false, false, none, ⟨none, none⟩⟩
  | _ => ⟨none, false, false, none, ⟨none, none⟩⟩

end World

/-! ## How a job advances -/

/-- How far a job has come, seen from the store at an earlier time: a job that was waiting then
has not run on an older store than that. -/
inductive Advances (E : Engine σ Script Rows ε T) (Before : σ → σ → Prop) (earlier : σ)
    (script : Script) : Phase σ Rows ε T → Phase σ Rows ε T → Prop where
  | same {phase : Phase σ Rows ε T} : Advances E Before earlier script phase phase
  | start {snapshot : σ} {version : Nat} {started : T} (later : Before earlier snapshot) :
      Advances E Before earlier script .pending (.running snapshot version started)
  | answer {snapshot after : σ} {started : T} {rows : Rows} {time : T} {usage : Usage}
      (later : Before earlier snapshot)
      (executed : E.execute script started snapshot = .ok (after, rows)) :
      Advances E Before earlier script .pending (.ended (.ok rows) time usage)
  | finish {snapshot after : σ} {version : Nat} {started : T} {rows : Rows} {time : T}
      {usage : Usage} (executed : E.execute script started snapshot = .ok (after, rows)) :
      Advances E Before earlier script (.running snapshot version started)
        (.ended (.ok rows) time usage)
  | error {phase : Phase σ Rows ε T} {e : ε} {time : T} {usage : Usage}
      (unfinished : phase.isEnded = false) :
      Advances E Before earlier script phase (.ended (.error e) time usage)

theorem Advances.trans {E : Engine σ Script Rows ε T} {Before : σ → σ → Prop}
    (compose : ∀ x y z, Before x y → Before y z → Before x z) {earlier later : σ}
    (before : Before earlier later) {script : Script} {a b c : Phase σ Rows ε T}
    (ab : Advances E Before earlier script a b) (bc : Advances E Before later script b c) :
    Advances E Before earlier script a c := by
  cases ab with
  | same =>
      cases bc with
      | same => exact .same
      | start from_ => exact .start (compose _ _ _ before from_)
      | answer from_ executed => exact .answer (compose _ _ _ before from_) executed
      | finish executed => exact .finish executed
      | error unfinished => exact .error unfinished
  | start from_ =>
      cases bc with
      | same => exact .start from_
      | finish executed => exact .answer from_ executed
      | error _ => exact .error rfl
  | answer from_ executed =>
      cases bc with
      | same => exact .answer from_ executed
      | error unfinished => cases unfinished
  | finish executed =>
      cases bc with
      | same => exact .finish executed
      | error unfinished => cases unfinished
  | error unfinished =>
      cases bc with
      | same => exact .error unfinished
      | error ended => cases ended

/-! ## Jobs only progress -/

section Progress

variable [LinearOrder T]

/-- In a later world the clock has advanced, scripts are the same, and what has ended stays as
it is. -/
structure World.Progress (w w' : World Name σ Script Rows ε T) : Prop where
  clock_le : w.clock ≤ w'.clock
  jobs : ∀ {id job}, w.jobs id = some job →
    ∃ job', w'.jobs id = some job' ∧ job'.script = job.script ∧
      (job.phase.isEnded = true → job' = job)

namespace World.Progress

theorem refl (w : World Name σ Script Rows ε T) : Progress w w :=
  ⟨le_refl _, fun recorded => ⟨_, recorded, rfl, fun _ => rfl⟩⟩

theorem trans {a b c : World Name σ Script Rows ε T} (ab : Progress a b) (bc : Progress b c) :
    Progress a c := by
  refine ⟨le_trans ab.clock_le bc.clock_le, fun recorded => ?_⟩
  obtain ⟨job', recorded', script, still⟩ := ab.jobs recorded
  obtain ⟨job'', recorded'', script', still'⟩ := bc.jobs recorded'
  refine ⟨job'', recorded'', script'.trans script, fun ended => ?_⟩
  have same := still ended
  subst same
  exact still' ended

/-- A job that has ended is found unchanged in every later world. -/
theorem ended {w w' : World Name σ Script Rows ε T} (progress : Progress w w') {id : JobId Name}
    {script : Script} {outcome : Except ε Rows} {time : T} {usage : Usage}
    (before : w.jobs id = some ⟨script, .ended outcome time usage⟩) :
    w'.jobs id = some ⟨script, .ended outcome time usage⟩ := by
  obtain ⟨job', recorded, _, still⟩ := progress.jobs before
  rw [recorded, still rfl]

end World.Progress

/-! ### Later states -/

/-- In a later state the store comes later, jobs have progressed, and those that were waiting
have run on a later store only. -/
structure World.Later (E : Engine σ Script Rows ε T) (Before : σ → σ → Prop)
    (w w' : World Name σ Script Rows ε T) : Prop where
  before : Before w.store w'.store
  progress : w.Progress w'
  advances : ∀ {id job job'}, w.jobs id = some job → w'.jobs id = some job' →
    Advances E Before w.store job.script job.phase job'.phase

namespace World.Later

variable {E : Engine σ Script Rows ε T} {Before : σ → σ → Prop}

theorem refl (reflexive : ∀ s, Before s s) (w : World Name σ Script Rows ε T) :
    Later E Before w w := by
  refine ⟨reflexive _, .refl w, fun recorded recorded' => ?_⟩
  rw [recorded] at recorded'
  cases recorded'
  exact .same

theorem trans (compose : ∀ x y z, Before x y → Before y z → Before x z)
    {a b c : World Name σ Script Rows ε T} (ab : Later E Before a b) (bc : Later E Before b c) :
    Later E Before a c := by
  refine ⟨compose _ _ _ ab.before bc.before, ab.progress.trans bc.progress, fun recorded recorded' => ?_⟩
  obtain ⟨middle, found, script, _⟩ := ab.progress.jobs recorded
  have second := bc.advances found recorded'
  rw [script] at second
  exact (ab.advances recorded found).trans compose ab.before second

end World.Later

end Progress

/-! ## What can happen -/

section Steps

variable [DecidableEq Name] [LinearOrder T] (E : Engine σ Script Rows ε T)

/-- What the service does by itself. -/
inductive Background : World Name σ Script Rows ε T → World Name σ Script Rows ε T → Prop where
  | tick {w : World Name σ Script Rows ε T} {t : T} (later : w.clock ≤ t) :
      Background w { w with clock := t }
  | start {w : World Name σ Script Rows ε T} {id : JobId Name} {script : Script}
      (waiting : w.jobs id = some ⟨script, .pending⟩) :
      Background w (w.setJob id ⟨script, .running w.store w.version w.clock⟩)
  | finish {w : World Name σ Script Rows ε T} {id : JobId Name} {script : Script}
      {snapshot : σ} {version : Nat} {started : T} {store : σ} {rows : Rows} {time : T}
      {usage : Usage} (running : w.jobs id = some ⟨script, .running snapshot version started⟩)
      (executed : E.execute script started snapshot = .ok (store, rows))
      (current : E.writes script = true → version = w.version) (later : w.clock ≤ time) :
      Background w ((w.install E script store).setJob id ⟨script, .ended (.ok rows) time usage⟩)
  | reject {w : World Name σ Script Rows ε T} {id : JobId Name} {script : Script}
      {snapshot : σ} {version : Nat} {started : T} {e : ε} {time : T} {usage : Usage}
      (running : w.jobs id = some ⟨script, .running snapshot version started⟩)
      (failed : E.execute script started snapshot = .error e) (later : w.clock ≤ time) :
      Background w (w.setJob id ⟨script, .ended (.error e) time usage⟩)
  | abort {w : World Name σ Script Rows ε T} {id : JobId Name} {job : Job σ Script Rows ε T}
      {e : ε} {time : T} {usage : Usage} (recorded : w.jobs id = some job)
      (unfinished : job.phase.isEnded = false) (later : w.clock ≤ time) :
      Background w (w.setJob id ⟨job.script, .ended (.error e) time usage⟩)

/-- A submission under an unused identifier: it may be accepted, or it may be accepted while
the client only sees an error. Any call may fail without reaching the service. -/
def Submitted (w : World Name σ Script Rows ε T) (id : JobId Name) (script : Script)
    (reply : Except ε (JobId Name)) (w' : World Name σ Script Rows ε T) : Prop :=
  w.jobs id = none ∧ w' = w.submit id script ∧ (reply = .ok id ∨ ∃ e, reply = .error e)

/-- What a client call may do and answer. Rows are answered from the reported end of a job
on, and the reported end may be missing from the answer. -/
def act : (c : Call Name Script X) → World Name σ Script Rows ε T →
    Except ε (Answer Name Script X Rows T Y c) → World Name σ Script Rows ε T → Prop
  | .query none script, w, reply, w' =>
      Submitted w (.generated w.issued) script reply w' ∨ (∃ e, reply = .error e) ∧ w' = w
  | .query (some name) script, w, reply, w' =>
      Submitted w (.named name) script reply w' ∨ (∃ e, reply = .error e) ∧ w' = w
  | .getJob name, w, reply, w' =>
      w' = w ∧ (reply = .ok (.named name) ∧ (w.jobs (.named name)).isSome ∨
        ∃ e, reply = .error e)
  | .result id, w, reply, w' =>
      w' = w ∧ ((∃ script rows time usage ended,
          w.jobs id = some ⟨script, .ended (.ok rows) time usage⟩ ∧ time ≤ w.clock ∧
          (ended = some time ∨ ended = none) ∧ reply = .ok ⟨some rows, true, false, ended, usage⟩) ∨
        ∃ e, reply = .error e)
  | .reload id, w, reply, w' =>
      w' = w ∧ ((∃ job, w.jobs id = some job ∧ reply = .ok (w.view job)) ∨
        ∃ e, reply = .error e)
  | .outside _, w, _, w' => w' = w

/-- The job service as a service of client programs. -/
def service : Service (World Name σ Script Rows ε T) (Call Name Script X)
    (Answer Name Script X Rows T Y) ε where
  act := act
  background := Background E

namespace World.Progress

theorem setJob {w : World Name σ Script Rows ε T} {id : JobId Name}
    {job job' : Job σ Script Rows ε T} (recorded : w.jobs id = some job)
    (script : job'.script = job.script) (unfinished : job.phase.isEnded = false) :
    Progress w (w.setJob id job') := by
  refine ⟨le_refl _, fun {other found} at_other => ?_⟩
  by_cases same : other = id
  · subst same
    rw [recorded] at at_other
    cases at_other
    exact ⟨job', setJob_self .., script, fun ended => by rw [unfinished] at ended; cases ended⟩
  · exact ⟨found, by rw [setJob_ne _ _ same, at_other], rfl, fun _ => rfl⟩

theorem submit {w : World Name σ Script Rows ε T} {id : JobId Name} {script : Script}
    (unused : w.jobs id = none) : Progress w (w.submit id script) := by
  refine ⟨le_refl _, fun {other found} at_other => ?_⟩
  have differs : other ≠ id := fun same => by
    rw [same, unused] at at_other
    cases at_other
  exact ⟨found, by rw [submit_ne _ _ differs, at_other], rfl, fun _ => rfl⟩

end World.Progress

variable {E}

theorem Background.progress {w w' : World Name σ Script Rows ε T} (step : Background E w w') :
    w.Progress w' := by
  cases step with
  | tick later => exact ⟨later, fun recorded => ⟨_, recorded, rfl, fun _ => rfl⟩⟩
  | start waiting => exact .setJob waiting rfl rfl
  | @finish id script snapshot version started store rows time usage running executed current
      later =>
      have before : (w.install E script store).jobs id =
          some ⟨script, .running snapshot version started⟩ := by
        rw [World.install_jobs]
        exact running
      have progress : (w.install E script store).Progress
          ((w.install E script store).setJob id ⟨script, .ended (.ok rows) time usage⟩) :=
        .setJob before rfl rfl
      exact ⟨by simp, fun recorded =>
        progress.jobs (by rw [World.install_jobs]; exact recorded)⟩
  | reject running failed later => exact .setJob running rfl rfl
  | abort recorded unfinished later => exact .setJob recorded rfl unfinished

theorem Background.scripts {w w' : World Name σ Script Rows ε T} (step : Background E w w')
    {id : JobId Name} {job' : Job σ Script Rows ε T} (recorded : w'.jobs id = some job') :
    ∃ job, w.jobs id = some job ∧ job.script = job'.script := by
  have updated : ∀ {other : JobId Name} {before after : Job σ Script Rows ε T},
      w.jobs other = some before → Function.update w.jobs other (some after) id = some job' →
      before.script = after.script →
      ∃ job, w.jobs id = some job ∧ job.script = job'.script := by
    intro other before after known written same
    by_cases here : id = other
    · subst here
      rw [Function.update_self] at written
      cases written
      exact ⟨before, known, same⟩
    · rw [Function.update_of_ne here] at written
      exact ⟨job', written, rfl⟩
  cases step with
  | tick later => exact ⟨job', recorded, rfl⟩
  | start waiting => exact updated waiting recorded rfl
  | finish running executed current later =>
      simp only [World.setJob, World.install_jobs] at recorded
      exact updated running recorded rfl
  | reject running failed later => exact updated running recorded rfl
  | abort known unfinished later => exact updated known recorded rfl

/-- The identifier of a submission. -/
def World.submissionId (w : World Name σ Script Rows ε T) : Option Name → JobId Name
  | none => .generated w.issued
  | some name => .named name

/-- A call changes nothing but the job table, and that only by a submission. -/
theorem act_cases {c : Call Name Script X} {w w' : World Name σ Script Rows ε T}
    {reply : Except ε (Answer Name Script X Rows T Y c)} (acted : act c w reply w') :
    w' = w ∨ ∃ name script, c = .query name script ∧ w.jobs (w.submissionId name) = none ∧
      w' = w.submit (w.submissionId name) script := by
  cases c with
  | query name script =>
      cases name with
      | none =>
          rcases acted with ⟨unused, submitted, _⟩ | ⟨_, same⟩
          · exact .inr ⟨none, script, rfl, unused, submitted⟩
          · exact .inl same
      | some name =>
          rcases acted with ⟨unused, submitted, _⟩ | ⟨_, same⟩
          · exact .inr ⟨some name, script, rfl, unused, submitted⟩
          · exact .inl same
  | getJob name => exact .inl acted.1
  | result id => exact .inl acted.1
  | reload id => exact .inl acted.1
  | outside request => exact .inl acted

/-- Every call may fail without reaching the service. -/
theorem act_fault (c : Call Name Script X) (w : World Name σ Script Rows ε T) (e : ε) :
    act (Y := Y) c w (.error e) w := by
  cases c with
  | query name script =>
      cases name with
      | none => exact .inr ⟨⟨e, rfl⟩, rfl⟩
      | some name => exact .inr ⟨⟨e, rfl⟩, rfl⟩
  | getJob name => exact ⟨rfl, .inr ⟨e, rfl⟩⟩
  | result id => exact ⟨rfl, .inr ⟨e, rfl⟩⟩
  | reload id => exact ⟨rfl, .inr ⟨e, rfl⟩⟩
  | outside request => exact rfl

/-- What the service does by itself lets every job advance. -/
theorem Background.advances {Before : σ → σ → Prop} (reflexive : ∀ s, Before s s)
    {w w' : World Name σ Script Rows ε T} (step : Background E w w') {id : JobId Name}
    {job job' : Job σ Script Rows ε T} (recorded : w.jobs id = some job)
    (recorded' : w'.jobs id = some job') :
    Advances E Before w.store job.script job.phase job'.phase := by
  have updated : ∀ {other : JobId Name} {before after : Job σ Script Rows ε T},
      w.jobs other = some before → Function.update w.jobs other (some after) id = some job' →
      Advances E Before w.store before.script before.phase after.phase →
      Advances E Before w.store job.script job.phase job'.phase := by
    intro other before after known written advance
    by_cases here : id = other
    · subst here
      rw [Function.update_self] at written
      rw [recorded] at known
      cases written
      cases known
      exact advance
    · rw [Function.update_of_ne here, recorded] at written
      cases written
      exact .same
  cases step with
  | tick later =>
      rw [recorded] at recorded'
      cases recorded'
      exact .same
  | start waiting => exact updated waiting recorded' (.start (reflexive _))
  | finish running executed current later =>
      simp only [World.setJob, World.install_jobs] at recorded'
      exact updated running recorded' (.finish executed)
  | reject running failed later => exact updated running recorded' (.error rfl)
  | abort known unfinished later => exact updated known recorded' (.error unfinished)

/-! ## Snapshots and results -/

/-- What the job table has to do with the store. A snapshot of the current version is the
current store; every snapshot, and every store that the rows of an ended job were computed
from, is good for the script and came before the current store; generated identifiers are not
reused. -/
structure World.Consistent (E : Engine σ Script Rows ε T) (Good : Script → σ → Prop)
    (Before : σ → σ → Prop) (w : World Name σ Script Rows ε T) : Prop where
  running : ∀ {id script snapshot version started},
    w.jobs id = some ⟨script, .running snapshot version started⟩ →
      version ≤ w.version ∧ (version = w.version → snapshot = w.store) ∧
        Good script snapshot ∧ Before snapshot w.store
  answered : ∀ {id script rows time usage},
    w.jobs id = some ⟨script, .ended (.ok rows) time usage⟩ →
      ∃ past after started, Good script past ∧ Before past w.store ∧ Before after w.store ∧
        E.execute script started past = .ok (after, rows)
  fresh : ∀ {n}, w.issued ≤ n → w.jobs (.generated n) = none

/-- **The store changes only by a script executed on the current store.** Otherwise the store,
its version and every ended job stay as they are. -/
theorem Background.effect {Good : Script → σ → Prop} {Before : σ → σ → Prop}
    {w w' : World Name σ Script Rows ε T} (consistent : w.Consistent E Good Before)
    (step : Background E w w') :
    (w'.store = w.store ∧ w'.version = w.version) ∨
      ∃ id script started rows time usage,
        w.jobs id = some ⟨script, .running w.store w.version started⟩ ∧
        E.writes script = true ∧ w.clock ≤ time ∧
        E.execute script started w.store = .ok (w'.store, rows) ∧
        w'.clock = w.clock ∧ w'.version = w.version + 1 ∧ w'.issued = w.issued ∧
        w'.jobs = Function.update w.jobs id (some ⟨script, .ended (.ok rows) time usage⟩) := by
  cases step with
  | tick later => exact .inl ⟨rfl, rfl⟩
  | start waiting => exact .inl ⟨rfl, rfl⟩
  | reject running failed later => exact .inl ⟨rfl, rfl⟩
  | abort recorded unfinished later => exact .inl ⟨rfl, rfl⟩
  | @finish id script snapshot version started store rows time usage running executed current
      later =>
      by_cases writes : E.writes script = true
      · have same := current writes
        subst same
        have here := (consistent.running running).2.1 rfl
        subst here
        refine .inr ⟨id, script, started, rows, time, usage, running, writes, later, ?_, ?_, ?_,
          ?_, ?_⟩
        · simpa [World.install_of_writes _ _ writes] using executed
        · simp
        · simp [World.install_of_writes _ _ writes]
        · simp
        · simp [World.setJob, World.install_of_writes _ _ writes]
      · rw [Bool.not_eq_true] at writes
        left
        simp [World.install_of_reads _ _ writes]

/-- A step that leaves the store alone keeps the snapshots and results in order. -/
theorem Background.consistent_of_idle {Good : Script → σ → Prop} {Before : σ → σ → Prop}
    (refl : ∀ s, Before s s) {w w' : World Name σ Script Rows ε T}
    (good : ∀ {id job}, w.jobs id = some job → Good job.script w.store)
    (consistent : w.Consistent E Good Before) (step : Background E w w')
    (store : w'.store = w.store) (version : w'.version = w.version) :
    w'.Consistent E Good Before := by
  have transfer : ∀ {id job}, w'.jobs = Function.update w.jobs id (some job) →
      w'.issued = w.issued → (w.jobs id).isSome →
      (∀ {script snapshot v started}, job = ⟨script, .running snapshot v started⟩ →
        v ≤ w.version ∧ (v = w.version → snapshot = w.store) ∧
          Good script snapshot ∧ Before snapshot w.store) →
      (∀ {script rows time usage}, job = ⟨script, .ended (.ok rows) time usage⟩ →
        ∃ past after started, Good script past ∧ Before past w.store ∧ Before after w.store ∧
          E.execute script started past = .ok (after, rows)) →
      w'.Consistent E Good Before := by
    intro id job jobs issued used isRunning isEnded
    refine ⟨fun {other _ _ _ _} at_other => ?_, fun {other _ _ _ _} at_other => ?_,
      fun {n} above => ?_⟩
    · rw [store, version]
      rw [jobs] at at_other
      by_cases same : other = id
      · subst same
        rw [Function.update_self] at at_other
        exact isRunning (Option.some.inj at_other)
      · rw [Function.update_of_ne same] at at_other
        exact consistent.running at_other
    · rw [store]
      rw [jobs] at at_other
      by_cases same : other = id
      · subst same
        rw [Function.update_self] at at_other
        exact isEnded (Option.some.inj at_other)
      · rw [Function.update_of_ne same] at at_other
        exact consistent.answered at_other
    · rw [jobs]
      rw [issued] at above
      have unused := consistent.fresh above
      have differs : (JobId.generated n : JobId Name) ≠ id := fun same => by
        rw [← same, unused] at used
        cases used
      rw [Function.update_of_ne differs, unused]
  cases step with
  | tick later =>
      exact ⟨consistent.running, consistent.answered, consistent.fresh⟩
  | start waiting =>
      refine transfer rfl rfl (by rw [waiting]; rfl) ?_ ?_
      · rintro _ _ _ _ ⟨⟩
        exact ⟨le_refl _, fun _ => rfl, good waiting, refl _⟩
      · rintro _ _ _ _ ⟨⟩
  | @finish id script snapshot v started after rows time usage running executed current later =>
      have reads : E.writes script = false := by
        by_contra writes
        rw [Bool.not_eq_false] at writes
        simp [World.install_of_writes _ _ writes] at version
      rw [World.install_of_reads _ _ reads] at store version transfer ⊢
      refine transfer rfl rfl (by rw [running]; rfl) ?_ ?_
      · rintro _ _ _ _ ⟨⟩
      · rintro _ _ _ _ ⟨⟩
        obtain ⟨_, _, goodSnapshot, before⟩ := consistent.running running
        have unchanged := E.reads_only reads executed
        subst unchanged
        exact ⟨_, _, started, goodSnapshot, before, before, executed⟩
  | reject running failed later =>
      refine transfer rfl rfl (by rw [running]; rfl) ?_ ?_ <;> rintro _ _ _ _ ⟨⟩
  | abort recorded unfinished later =>
      refine transfer rfl rfl (by rw [recorded]; rfl) ?_ ?_ <;> rintro _ _ _ _ ⟨⟩

omit [LinearOrder T] in
/-- A script that takes effect keeps the snapshots and results in order, when the store it
leaves comes after the one it found. -/
theorem World.Consistent.install {Good : Script → σ → Prop} {Before : σ → σ → Prop}
    (refl : ∀ s, Before s s) (trans : ∀ {a b c}, Before a b → Before b c → Before a c)
    {w w' : World Name σ Script Rows ε T} (consistent : w.Consistent E Good Before)
    {id : JobId Name} {script : Script} {started : T} {rows : Rows} {time : T} {usage : Usage}
    {job : Job σ Script Rows ε T} (good : Good script w.store)
    (recorded : w.jobs id = some job)
    (executed : E.execute script started w.store = .ok (w'.store, rows))
    (version : w'.version = w.version + 1)
    (jobs : w'.jobs = Function.update w.jobs id (some ⟨script, .ended (.ok rows) time usage⟩))
    (issued : w'.issued = w.issued) (after : Before w.store w'.store) :
    w'.Consistent E Good Before := by
  refine ⟨fun {other _ _ v _} at_other => ?_, fun {other _ _ _ _} at_other => ?_,
    fun {n} above => ?_⟩
  · rw [jobs] at at_other
    by_cases same : other = id
    · subst same
      rw [Function.update_self] at at_other
      cases at_other
    · rw [Function.update_of_ne same] at at_other
      obtain ⟨bound, _, goodSnapshot, before⟩ := consistent.running at_other
      exact ⟨by omega, fun stale => by omega, goodSnapshot, trans before after⟩
  · rw [jobs] at at_other
    by_cases same : other = id
    · subst same
      rw [Function.update_self] at at_other
      cases at_other
      exact ⟨w.store, w'.store, started, good, after, refl _, executed⟩
    · rw [Function.update_of_ne same] at at_other
      obtain ⟨past, later, started', goodPast, before, beforeLater, executed'⟩ :=
        consistent.answered at_other
      exact ⟨past, later, started', goodPast, trans before after, trans beforeLater after,
        executed'⟩
  · rw [jobs]
    rw [issued] at above
    have unused := consistent.fresh above
    have differs : (JobId.generated n : JobId Name) ≠ id := fun same => by
      rw [← same, unused] at recorded
      cases recorded
    rw [Function.update_of_ne differs, unused]

omit [LinearOrder T] in
/-- A submission keeps the snapshots and results in order. -/
theorem World.Consistent.submit {Good : Script → σ → Prop} {Before : σ → σ → Prop}
    {w : World Name σ Script Rows ε T} (consistent : w.Consistent E Good Before)
    {id : JobId Name} (script : Script)
    (named : ∀ n, id = .generated n → n = w.issued) :
    (w.submit id script).Consistent E Good Before := by
  refine ⟨fun {other _ _ _ _} at_other => ?_, fun {other _ _ _ _} at_other => ?_,
    fun {n} above => ?_⟩
  · by_cases same : other = id
    · subst same
      rw [submit_self] at at_other
      cases at_other
    · rw [submit_ne _ _ same] at at_other
      exact consistent.running at_other
  · by_cases same : other = id
    · subst same
      rw [submit_self] at at_other
      cases at_other
    · rw [submit_ne _ _ same] at at_other
      exact consistent.answered at_other
  · cases id with
    | named name =>
        rw [submit_ne _ _ (by simp)]
        exact consistent.fresh above
    | generated m =>
        have bound : w.issued + 1 ≤ n := above
        have issued := named m rfl
        rw [submit_ne _ _ (by simp only [ne_eq, JobId.generated.injEq]; omega)]
        exact consistent.fresh (by omega)

end Steps

/-! ## The service that answers at once -/

section Respond

variable [DecidableEq Name] [LinearOrder T] (E : Engine σ Script Rows ε T)

/-- Execute a script on a snapshot and end its job now. -/
def conclude (w : World Name σ Script Rows ε T) (id : JobId Name) (script : Script)
    (snapshot : σ) (started : T) : World Name σ Script Rows ε T :=
  match E.execute script started snapshot with
  | .ok (store, rows) =>
    (w.install E script store).setJob id ⟨script, .ended (.ok rows) w.clock ⟨none, none⟩⟩
  | .error e => w.setJob id ⟨script, .ended (.error e) w.clock ⟨none, none⟩⟩

/-- Let a job come to its end: a waiting job runs now, a running job ends unless the store has
moved on, and for an ended job its reported end is waited for. -/
def settle (w : World Name σ Script Rows ε T) (id : JobId Name) : World Name σ Script Rows ε T :=
  match w.jobs id with
  | some ⟨script, .pending⟩ => conclude E w id script w.store w.clock
  | some ⟨script, .running snapshot version started⟩ =>
    if E.writes script = true ∧ version ≠ w.version then
      w.setJob id ⟨script, .ended (.error E.conflictingUpdate) w.clock ⟨none, none⟩⟩
    else conclude E w id script snapshot started
  | some ⟨_, .ended _ time _⟩ => { w with clock := max w.clock time }
  | none => w

/-- Answer a call without any fault and without anyone else moving. -/
def respond (outside : (request : X) → Except ε (Y request)) : (c : Call Name Script X) →
    World Name σ Script Rows ε T →
    Except ε (Answer Name Script X Rows T Y c) × World Name σ Script Rows ε T
  | .query none script, w =>
      (.ok (.generated w.issued), w.submit (.generated w.issued) script)
  | .query (some name) script, w =>
      if (w.jobs (.named name)).isSome then (.error E.alreadyExists, w)
      else (.ok (.named name), w.submit (.named name) script)
  | .getJob name, w =>
      if (w.jobs (.named name)).isSome then (.ok (.named name), w) else (.error E.notFound, w)
  | .result id, w =>
      match (settle E w id).jobs id with
      | some ⟨_, .ended (.ok rows) time usage⟩ =>
        (.ok ⟨some rows, true, false, some time, usage⟩, settle E w id)
      | some ⟨_, .ended (.error e) _ _⟩ => (.error e, settle E w id)
      | _ => (.error E.notFound, settle E w id)
  | .reload id, w =>
      match w.jobs id with
      | some job => (.ok (w.view job), w)
      | none => (.error E.notFound, w)
  | .outside request, w => (outside request, w)

variable {E}

/-- Identifiers are not generated twice. -/
def World.Fresh (w : World Name σ Script Rows ε T) : Prop :=
  ∀ n, w.issued ≤ n → w.jobs (.generated n) = none

theorem conclude_background {w : World Name σ Script Rows ε T} {id : JobId Name}
    {script : Script} {snapshot : σ} {version : Nat} {started : T}
    (running : w.jobs id = some ⟨script, .running snapshot version started⟩)
    (current : E.writes script = true → version = w.version) :
    Background E w (conclude E w id script snapshot started) := by
  unfold conclude
  split
  · next store rows executed => exact .finish running executed current (le_refl _)
  · next e failed => exact .reject running failed (le_refl _)

theorem settle_background (w : World Name σ Script Rows ε T) (id : JobId Name) :
    Relation.ReflTransGen (Background E) w (settle E w id) := by
  unfold settle
  split
  · next script waiting =>
      have started : Background E w (w.setJob id ⟨script, .running w.store w.version w.clock⟩) :=
        .start waiting
      have running : (w.setJob id ⟨script, .running w.store w.version w.clock⟩).jobs id =
          some ⟨script, .running w.store w.version w.clock⟩ := World.setJob_self ..
      have concluded : Background E (w.setJob id ⟨script, .running w.store w.version w.clock⟩)
          (conclude E (w.setJob id ⟨script, .running w.store w.version w.clock⟩) id script
            w.store w.clock) := conclude_background running fun _ => rfl
      have same : conclude E (w.setJob id ⟨script, .running w.store w.version w.clock⟩) id script
          w.store w.clock = conclude E w id script w.store w.clock := by
        unfold conclude
        split
        · simp only [World.setJob, World.install]
          split <;> simp
        · simp [World.setJob]
      rw [same] at concluded
      exact (Relation.ReflTransGen.single started).tail concluded
  · next script snapshot version started running =>
      split_ifs with stale
      · exact .single (.abort running rfl (le_refl _))
      · refine .single (conclude_background running fun writes => ?_)
        by_contra moved
        exact stale ⟨writes, moved⟩
  · exact .single (.tick (le_max_left _ _))
  · exact .refl

theorem settle_ended_le {w : World Name σ Script Rows ε T} {id : JobId Name} {script : Script}
    {outcome : Except ε Rows} {time : T} {usage : Usage}
    (ended : (settle E w id).jobs id = some ⟨script, .ended outcome time usage⟩) :
    time ≤ (settle E w id).clock := by
  have concluded : ∀ {script' snapshot started},
      (conclude E w id script' snapshot started).jobs id =
        some ⟨script, .ended outcome time usage⟩ →
      time ≤ (conclude E w id script' snapshot started).clock := by
    intro script' snapshot started
    unfold conclude
    split <;> simp only [World.setJob_self, Option.some.injEq, Job.mk.injEq, Phase.ended.injEq,
      World.setJob_clock, World.install_clock] <;> rintro ⟨_, _, rfl, _⟩ <;> exact le_refl _
  revert ended
  unfold settle
  split
  · exact concluded
  · split_ifs
    · simp only [World.setJob_self, Option.some.injEq, Job.mk.injEq, Phase.ended.injEq,
        World.setJob_clock]
      rintro ⟨_, _, rfl, _⟩
      exact le_refl _
    · exact concluded
  · next found =>
      intro ended
      have : w.jobs id = _ := ended
      rw [found] at this
      cases this
      exact le_max_right _ _
  · next missing =>
      intro ended
      rw [missing] at ended
      cases ended

/-- **Answering at once is one of the behaviours of the service.** -/
theorem respond_sound (outside : (request : X) → Except ε (Y request)) (c : Call Name Script X)
    {w : World Name σ Script Rows ε T} (fresh : w.Fresh) :
    ∃ w', Relation.ReflTransGen (Background E) w w' ∧
      act (Y := Y) c w' (respond E outside c w).1 (respond E outside c w).2 := by
  cases c with
  | query name script =>
      refine ⟨w, .refl, ?_⟩
      cases name with
      | none => exact .inl ⟨fresh _ (Nat.le_refl _), rfl, .inl rfl⟩
      | some name =>
          by_cases used : (w.jobs (.named name)).isSome
          · simp only [respond, act, if_pos used]
            exact .inr ⟨⟨_, rfl⟩, trivial⟩
          · simp only [respond, act, if_neg used]
            exact .inl ⟨by simpa using used, rfl, .inl rfl⟩
  | getJob name =>
      refine ⟨w, .refl, ?_⟩
      by_cases used : (w.jobs (.named name)).isSome
      · simp only [respond, act, if_pos used]
        exact ⟨trivial, .inl ⟨trivial, used⟩⟩
      · simp only [respond, act, if_neg used]
        exact ⟨trivial, .inr ⟨_, rfl⟩⟩
  | result id =>
      refine ⟨settle E w id, settle_background w id, ?_⟩
      match found : (settle E w id).jobs id with
      | some ⟨script, .ended (.ok rows) time usage⟩ =>
          simp only [respond, act, found]
          exact ⟨trivial, .inl ⟨script, rows, time, usage, _, rfl, settle_ended_le found, .inl rfl,
            rfl⟩⟩
      | some ⟨_, .ended (.error _) _ _⟩ | some ⟨_, .pending⟩ | some ⟨_, .running ..⟩ | none =>
          simp only [respond, act, found]
          exact ⟨trivial, .inr ⟨_, rfl⟩⟩
  | reload id =>
      refine ⟨w, .refl, ?_⟩
      match found : w.jobs id with
      | some job =>
          simp only [respond, act, found]
          exact ⟨trivial, .inl ⟨job, rfl, rfl⟩⟩
      | none =>
          simp only [respond, act, found]
          exact ⟨trivial, .inr ⟨_, rfl⟩⟩
  | outside request => exact ⟨w, .refl, rfl⟩

end Respond

end PowerMarket.Library.JobService
