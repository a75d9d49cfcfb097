import Mathlib.Logic.Function.Basic
import Mathlib.Logic.Relation

/-!
# Client programs over a shared service

A client program stops with a result or an exception, or makes one call and continues with
the reply. Many programs run against one service: between any two calls of a program, the
other programs and the service itself may move the shared state.

The safety of a program is stated over possible worlds (`Protocol.Safe`). At each call the
state is some later state in which the invariant holds, so the only facts a program can rely
on are those that survive every other participant. `Protocol.Safe.attempt` is the sequencing
rule, for normal results and for exceptions at once, and `Protocol.run_safe` is the run
lemma: when every program that may be launched is safe, the invariant holds in every
reachable state and every process stays safe.

`Runs` forgets the state and keeps the replies: a program and the list of its replies
determine its result (`Runs.result_unique`). `runWith` is the executable run in which the service
answers every call, except those that a schedule of faults makes fail.
-/

set_option autoImplicit false

namespace PowerMarket.Library

/-- A client program: it stops with a result or an exception, or makes a call and continues
with the reply. -/
inductive Program (Call : Type) (Answer : Call → Type) (ε α : Type) where
  | done (result : Except ε α)
  | call (c : Call) (next : Except ε (Answer c) → Program Call Answer ε α)

/-- One call of a client together with the reply it received. -/
structure Event (Call : Type) (Answer : Call → Type) (ε : Type) where
  call : Call
  reply : Except ε (Answer call)

variable {Call : Type} {Answer : Call → Type} {ε α β σ : Type}

namespace Program

/-! ## Sequencing -/

/-- Run a program, then continue with its result, be it a value or an exception. -/
def attempt : Program Call Answer ε α → (Except ε α → Program Call Answer ε β) →
    Program Call Answer ε β
  | .done result, rest => rest result
  | .call c next, rest => .call c fun reply => (next reply).attempt rest

/-- Stop with an exception. -/
def raise (e : ε) : Program Call Answer ε α := .done (.error e)

/-- Make one call and return its answer. -/
def perform (c : Call) : Program Call Answer ε (Answer c) := .call c .done

/-- The rest of a program after a statement: an exception skips it. -/
def afterValue (rest : α → Program Call Answer ε β) : Except ε α → Program Call Answer ε β
  | .ok a => rest a
  | .error e => raise e

/-- The rest of a program inside an exception handler: a value skips it. -/
def afterError (handler : ε → Program Call Answer ε α) : Except ε α → Program Call Answer ε α
  | .ok a => .done (.ok a)
  | .error e => handler e

instance : Monad (Program Call Answer ε) where
  pure a := .done (.ok a)
  bind program rest := program.attempt (afterValue rest)

instance : MonadExceptOf ε (Program Call Answer ε) where
  throw e := raise e
  tryCatch program handler := program.attempt (afterError handler)

/-- Lift a computation that makes no call. -/
def ofExcept (result : Except ε α) : Program Call Answer ε α := .done result

theorem bind_eq (program : Program Call Answer ε α) (rest : α → Program Call Answer ε β) :
    program >>= rest = program.attempt (afterValue rest) := rfl

theorem tryCatch_eq (program : Program Call Answer ε α)
    (handler : ε → Program Call Answer ε α) :
    tryCatchThe ε program handler = program.attempt (afterError handler) := rfl

@[simp] theorem attempt_done (result : Except ε α)
    (rest : Except ε α → Program Call Answer ε β) :
    (Program.done result).attempt rest = rest result := rfl

@[simp] theorem attempt_call (c : Call) (next : Except ε (Answer c) → Program Call Answer ε α)
    (rest : Except ε α → Program Call Answer ε β) :
    (Program.call c next).attempt rest = .call c fun reply => (next reply).attempt rest := rfl

@[simp] theorem afterValue_ok (rest : α → Program Call Answer ε β) (a : α) :
    afterValue rest (.ok a) = rest a := rfl

@[simp] theorem afterValue_error (rest : α → Program Call Answer ε β) (e : ε) :
    afterValue rest (.error e) = .done (.error e) := rfl

@[simp] theorem afterError_ok (handler : ε → Program Call Answer ε α) (a : α) :
    afterError handler (.ok a) = .done (.ok a) := rfl

@[simp] theorem afterError_error (handler : ε → Program Call Answer ε α) (e : ε) :
    afterError handler (.error e) = handler e := rfl

/-! ## Runs against given replies -/

/-- `Follows program events rest`: after the calls and replies of `events`, `rest` is what
remains of `program`. -/
inductive Follows : Program Call Answer ε α → List (Event Call Answer ε) →
    Program Call Answer ε α → Prop where
  | here (program : Program Call Answer ε α) : Follows program [] program
  | call {c : Call} {next : Except ε (Answer c) → Program Call Answer ε α}
      {reply : Except ε (Answer c)} {events : List (Event Call Answer ε)}
      {rest : Program Call Answer ε α} (later : Follows (next reply) events rest) :
      Follows (.call c next) (⟨c, reply⟩ :: events) rest

/-- A complete run of a program against the replies of `events`. -/
abbrev Runs (program : Program Call Answer ε α) (events : List (Event Call Answer ε))
    (result : Except ε α) : Prop :=
  Follows program events (.done result)

/-- Every call that a program can make, whatever the replies, is allowed. -/
def Calls (allowed : Call → Prop) : Program Call Answer ε α → Prop
  | .done _ => True
  | .call c next => allowed c ∧ ∀ reply, (next reply).Calls allowed

theorem Calls.attempt {allowed : Call → Prop} {program : Program Call Answer ε α}
    {rest : Except ε α → Program Call Answer ε β} (first : program.Calls allowed)
    (second : ∀ result, (rest result).Calls allowed) : (program.attempt rest).Calls allowed := by
  induction program with
  | done result => exact second result
  | call c next ih => exact ⟨first.1, fun reply => ih reply (first.2 reply)⟩

theorem Calls.bind {allowed : Call → Prop} {program : Program Call Answer ε α}
    {rest : α → Program Call Answer ε β} (first : program.Calls allowed)
    (second : ∀ a, (rest a).Calls allowed) : (program >>= rest).Calls allowed := by
  refine first.attempt fun result => ?_
  cases result with
  | ok a => exact second a
  | error e => trivial

theorem Calls.tryCatch {allowed : Call → Prop} {program : Program Call Answer ε α}
    {handler : ε → Program Call Answer ε α} (block : program.Calls allowed)
    (handles : ∀ e, (handler e).Calls allowed) :
    (tryCatchThe ε program handler).Calls allowed := by
  refine block.attempt fun result => ?_
  cases result with
  | ok a => trivial
  | error e => exact handles e

theorem Calls.mono {allowed allowed' : Call → Prop} {program : Program Call Answer ε α}
    (calls : program.Calls allowed) (weaker : ∀ c, allowed c → allowed' c) :
    program.Calls allowed' := by
  induction program with
  | done result => trivial
  | call c next ih => exact ⟨weaker c calls.1, fun reply => ih reply (calls.2 reply)⟩

/-- Every call of a program, with what the program does after it, is as described. -/
def Continues (describes : (c : Call) → (Except ε (Answer c) → Program Call Answer ε α) → Prop) :
    Program Call Answer ε α → Prop
  | .done _ => True
  | .call c next => describes c next ∧ ∀ reply, (next reply).Continues describes

theorem Continues.mono
    {describes describes' : (c : Call) → (Except ε (Answer c) → Program Call Answer ε α) → Prop}
    {program : Program Call Answer ε α} (continues : program.Continues describes)
    (weaker : ∀ c next, describes c next → describes' c next) : program.Continues describes' := by
  induction program with
  | done result => trivial
  | call c next ih => exact ⟨weaker c next continues.1, fun reply => ih reply (continues.2 reply)⟩

/-- A description of the allowed calls describes what follows them, too. -/
theorem Calls.continues {allowed : Call → Prop}
    {describes : (c : Call) → (Except ε (Answer c) → Program Call Answer ε α) → Prop}
    {program : Program Call Answer ε α} (calls : program.Calls allowed)
    (described : ∀ c next, allowed c → describes c next) : program.Continues describes := by
  induction program with
  | done result => trivial
  | call c next ih => exact ⟨described c next calls.1, fun reply => ih reply (calls.2 reply)⟩

/-- In a sequence, each call of the first part is followed by the rest of that part and then by
the second part. -/
theorem Continues.attempt
    {describes : (c : Call) → (Except ε (Answer c) → Program Call Answer ε α) → Prop}
    {describes' : (c : Call) → (Except ε (Answer c) → Program Call Answer ε β) → Prop}
    {program : Program Call Answer ε α} {rest : Except ε α → Program Call Answer ε β}
    (first : program.Continues describes)
    (sequenced : ∀ c next, describes c next → describes' c fun reply => (next reply).attempt rest)
    (second : ∀ result, (rest result).Continues describes') :
    (program.attempt rest).Continues describes' := by
  induction program with
  | done result => exact second result
  | call c next ih => exact ⟨sequenced c next first.1, fun reply => ih reply (first.2 reply)⟩

/-- After any call of a run, the program does what its description says. -/
theorem Follows.continues
    {describes : (c : Call) → (Except ε (Answer c) → Program Call Answer ε α) → Prop}
    {program rest : Program Call Answer ε α} {before after : List (Event Call Answer ε)} {c : Call}
    {reply : Except ε (Answer c)} (follows : Follows program (before ++ ⟨c, reply⟩ :: after) rest)
    (continues : program.Continues describes) :
    ∃ next, describes c next ∧ Follows (next reply) after rest := by
  induction before generalizing program with
  | nil =>
      cases follows with
      | call later => exact ⟨_, continues.1, later⟩
  | cons event before ih =>
      cases follows with
      | call later => exact ih later (continues.2 _)

/-- One more reply extends a run by one call. -/
theorem Follows.snoc {program : Program Call Answer ε α} {events : List (Event Call Answer ε)}
    {c : Call} {next : Except ε (Answer c) → Program Call Answer ε α}
    (follows : Follows program events (.call c next)) (reply : Except ε (Answer c)) :
    Follows program (events ++ [⟨c, reply⟩]) (next reply) := by
  generalize reached : Program.call c next = rest at follows
  induction follows with
  | here program =>
      subst reached
      exact .call (.here _)
  | call _ ih => exact .call (ih reached)

@[simp] theorem runs_done {stopped result : Except ε α} {events : List (Event Call Answer ε)} :
    Runs (.done stopped) events result ↔ events = [] ∧ result = stopped := by
  constructor
  · intro run
    cases run with
    | here => exact ⟨rfl, rfl⟩
  · rintro ⟨rfl, rfl⟩
    exact .here _

@[simp] theorem runs_call {c : Call} {next : Except ε (Answer c) → Program Call Answer ε α}
    {events : List (Event Call Answer ε)} {result : Except ε α} :
    Runs (.call c next) events result ↔
      ∃ reply later, events = ⟨c, reply⟩ :: later ∧ Runs (next reply) later result := by
  constructor
  · intro run
    cases run with
    | call later => exact ⟨_, _, rfl, later⟩
  · rintro ⟨reply, later, rfl, run⟩
    exact .call run

/-- **A run of a sequence is a run of its first part followed by a run of what that part's
result continues with.** -/
theorem runs_attempt {program : Program Call Answer ε α}
    {rest : Except ε α → Program Call Answer ε β} {events : List (Event Call Answer ε)}
    {result : Except ε β} :
    Runs (program.attempt rest) events result ↔
      ∃ first later middle, events = first ++ later ∧ Runs program first middle ∧
        Runs (rest middle) later result := by
  induction program generalizing events with
  | done stopped =>
      constructor
      · exact fun run => ⟨[], events, stopped, rfl, .here _, run⟩
      · rintro ⟨first, later, middle, rfl, run, continued⟩
        obtain ⟨rfl, rfl⟩ := runs_done.mp run
        exact continued
  | call c next ih =>
      simp only [attempt_call, runs_call, ih]
      constructor
      · rintro ⟨reply, _, rfl, first, later, middle, rfl, run, continued⟩
        exact ⟨⟨c, reply⟩ :: first, later, middle, rfl, ⟨reply, first, rfl, run⟩, continued⟩
      · rintro ⟨_, later, middle, rfl, ⟨reply, first, rfl, run⟩, continued⟩
        exact ⟨reply, _, rfl, first, later, middle, rfl, run, continued⟩

/-- A run of a block: an exception of its first statement stops it, or the rest continues with
the value. -/
theorem runs_bind {program : Program Call Answer ε α} {rest : α → Program Call Answer ε β}
    {events : List (Event Call Answer ε)} {result : Except ε β} :
    Runs (program >>= rest) events result ↔
      (∃ e, Runs program events (.error e) ∧ result = .error e) ∨
        ∃ first later a, events = first ++ later ∧ Runs program first (.ok a) ∧
          Runs (rest a) later result := by
  rw [bind_eq, runs_attempt]
  constructor
  · rintro ⟨first, later, middle, rfl, run, continued⟩
    cases middle with
    | ok a => exact .inr ⟨first, later, a, rfl, run, continued⟩
    | error e =>
        obtain ⟨rfl, rfl⟩ := runs_done.mp continued
        rw [List.append_nil]
        exact .inl ⟨e, run, rfl⟩
  · rintro (⟨e, run, rfl⟩ | ⟨first, later, a, rfl, run, continued⟩)
    · exact ⟨events, [], .error e, (List.append_nil _).symm, run, .here _⟩
    · exact ⟨first, later, .ok a, rfl, run, continued⟩

/-- A run of a block with a handler: the block returns, or the handler continues with its
exception. -/
theorem runs_tryCatch {program : Program Call Answer ε α}
    {handler : ε → Program Call Answer ε α} {events : List (Event Call Answer ε)}
    {result : Except ε α} :
    Runs (tryCatchThe ε program handler) events result ↔
      (∃ a, Runs program events (.ok a) ∧ result = .ok a) ∨
        ∃ first later e, events = first ++ later ∧ Runs program first (.error e) ∧
          Runs (handler e) later result := by
  rw [tryCatch_eq, runs_attempt]
  constructor
  · rintro ⟨first, later, middle, rfl, run, continued⟩
    cases middle with
    | ok a =>
        obtain ⟨rfl, rfl⟩ := runs_done.mp continued
        rw [List.append_nil]
        exact .inl ⟨a, run, rfl⟩
    | error e => exact .inr ⟨first, later, e, rfl, run, continued⟩
  · rintro (⟨a, run, rfl⟩ | ⟨first, later, e, rfl, run, continued⟩)
    · exact ⟨events, [], .ok a, (List.append_nil _).symm, run, .here _⟩
    · exact ⟨first, later, .error e, rfl, run, continued⟩

/-- A run with a changed value. -/
theorem runs_map {program : Program Call Answer ε α} {f : α → β}
    {events : List (Event Call Answer ε)} {result : Except ε β} :
    Runs (f <$> program) events result ↔
      ∃ result', Runs program events result' ∧ result = result'.map f := by
  have mapped : f <$> program = program >>= fun a => pure (f a) := rfl
  rw [mapped, runs_bind]
  constructor
  · rintro (⟨e, run, rfl⟩ | ⟨first, later, a, rfl, run, returned⟩)
    · exact ⟨.error e, run, rfl⟩
    · obtain ⟨rfl, rfl⟩ := runs_done.mp returned
      rw [List.append_nil]
      exact ⟨.ok a, run, rfl⟩
  · rintro ⟨result', run, rfl⟩
    cases result' with
    | ok a => exact .inr ⟨events, [], a, (List.append_nil _).symm, run, .here _⟩
    | error e => exact .inl ⟨e, run, rfl⟩

theorem runs_perform {c : Call} {events : List (Event Call Answer ε)}
    {result : Except ε (Answer c)} :
    Runs (perform c) events result ↔ events = [⟨c, result⟩] := by
  rw [perform, runs_call]
  constructor
  · rintro ⟨reply, later, rfl, run⟩
    obtain ⟨rfl, rfl⟩ := runs_done.mp run
    rfl
  · rintro rfl
    exact ⟨result, [], rfl, .here _⟩

/-- The program stops, against the replies of `events`, with an exception of a kind. -/
def Fails (kind : ε → Prop) (program : Program Call Answer ε α)
    (events : List (Event Call Answer ε)) : Prop :=
  ∃ e, Runs program events (.error e) ∧ kind e

section Fails

variable {kind : ε → Prop} {events : List (Event Call Answer ε)}

@[simp] theorem fails_done {result : Except ε α} :
    Fails kind (.done result : Program Call Answer ε α) events ↔
      events = [] ∧ ∃ e, result = .error e ∧ kind e := by
  constructor
  · rintro ⟨e, run, holds⟩
    obtain ⟨rfl, rfl⟩ := runs_done.mp run
    exact ⟨rfl, e, rfl, holds⟩
  · rintro ⟨rfl, e, rfl, holds⟩
    exact ⟨e, .here _, holds⟩

/-- A block fails in its first statement, or in the rest after the value of that statement. -/
theorem fails_bind {program : Program Call Answer ε α} {rest : α → Program Call Answer ε β} :
    Fails kind (program >>= rest) events ↔ Fails kind program events ∨
      ∃ first later a, events = first ++ later ∧ Runs program first (.ok a) ∧
        Fails kind (rest a) later := by
  constructor
  · rintro ⟨e, run, holds⟩
    rcases runs_bind.mp run with ⟨_, failed, same⟩ | ⟨first, later, a, rfl, ran, failed⟩
    · cases same
      exact .inl ⟨e, failed, holds⟩
    · exact .inr ⟨first, later, a, rfl, ran, e, failed, holds⟩
  · rintro (⟨e, failed, holds⟩ | ⟨first, later, a, rfl, ran, e, failed, holds⟩)
    · exact ⟨e, runs_bind.mpr (.inl ⟨e, failed, rfl⟩), holds⟩
    · exact ⟨e, runs_bind.mpr (.inr ⟨first, later, a, rfl, ran, failed⟩), holds⟩

/-- A block with a handler fails in the handler. -/
theorem fails_tryCatch {program : Program Call Answer ε α}
    {handler : ε → Program Call Answer ε α} :
    Fails kind (tryCatchThe ε program handler) events ↔
      ∃ first later e, events = first ++ later ∧ Runs program first (.error e) ∧
        Fails kind (handler e) later := by
  constructor
  · rintro ⟨e, run, holds⟩
    rcases runs_tryCatch.mp run with ⟨_, _, impossible⟩ | ⟨first, later, e', rfl, ran, failed⟩
    · cases impossible
    · exact ⟨first, later, e', rfl, ran, e, failed, holds⟩
  · rintro ⟨first, later, e', rfl, ran, e, failed, holds⟩
    exact ⟨e, runs_tryCatch.mpr (.inr ⟨first, later, e', rfl, ran, failed⟩), holds⟩

theorem fails_rethrow {program : Program Call Answer ε α} {wrap : ε → ε} :
    Fails kind (tryCatchThe ε program fun e => throw (wrap e)) events ↔
      Fails (fun e => kind (wrap e)) program events := by
  rw [fails_tryCatch]
  constructor
  · rintro ⟨first, later, e, rfl, ran, raised⟩
    obtain ⟨rfl, _, same, holds⟩ := fails_done.mp raised
    cases same
    rw [List.append_nil]
    exact ⟨e, ran, holds⟩
  · rintro ⟨e, ran, holds⟩
    exact ⟨events, [], e, (List.append_nil _).symm, ran, fails_done.mpr ⟨rfl, _, rfl, holds⟩⟩

theorem runs_rethrow_ok {program : Program Call Answer ε α} {wrap : ε → ε} {a : α} :
    Runs (tryCatchThe ε program fun e => throw (wrap e)) events (.ok a) ↔
      Runs program events (.ok a) := by
  rw [runs_tryCatch]
  constructor
  · rintro (⟨_, ran, same⟩ | ⟨_, _, _, _, _, raised⟩)
    · cases same
      exact ran
    · obtain ⟨_, impossible⟩ := runs_done.mp raised
      cases impossible
  · exact fun ran => .inl ⟨a, ran, rfl⟩

/-- Changing the value changes no failure. -/
theorem fails_map {program : Program Call Answer ε α} {f : α → β} :
    Fails kind (f <$> program) events ↔ Fails kind program events := by
  have mapped : f <$> program = program >>= fun a => pure (f a) := rfl
  rw [mapped, fails_bind]
  constructor
  · rintro (failing | ⟨_, _, _, _, _, impossible⟩)
    · exact failing
    · obtain ⟨_, _, impossible, _⟩ := fails_done.mp impossible
      cases impossible
  · exact .inl

end Fails

/-- The replies determine the result. -/
theorem Runs.result_unique {program : Program Call Answer ε α}
    {events : List (Event Call Answer ε)} {first second : Except ε α}
    (run : Runs program events first) (other : Runs program events second) :
    first = second := by
  induction program generalizing events with
  | done stopped => rw [(runs_done.mp run).2, (runs_done.mp other).2]
  | call c next ih =>
      obtain ⟨reply, later, rfl, run'⟩ := runs_call.mp run
      obtain ⟨reply', later', same, other'⟩ := runs_call.mp other
      cases same
      exact ih reply run' other'

/-! ## Runs with a schedule of faults -/

/-- What an executed run leaves: the calls with their replies, the result and the state. -/
structure Outcome (Call : Type) (Answer : Call → Type) (ε σ α : Type) where
  events : List (Event Call Answer ε)
  result : Except ε α
  state : σ

/-- Run a program against a service that answers by `respond`. Each entry of the schedule
belongs to one call: a fault makes that call fail without reaching the service. Calls past
the end of the schedule are answered. -/
def runWith (respond : (c : Call) → σ → Except ε (Answer c) × σ) :
    List (Option ε) → Program Call Answer ε α → σ → Outcome Call Answer ε σ α
  | _, .done result, state => ⟨[], result, state⟩
  | some fault :: faults, .call c next, state =>
      let later := runWith respond faults (next (.error fault)) state
      { later with events := ⟨c, .error fault⟩ :: later.events }
  | none :: faults, .call c next, state =>
      let answered := respond c state
      let later := runWith respond faults (next answered.1) answered.2
      { later with events := ⟨c, answered.1⟩ :: later.events }
  | [], .call c next, state =>
      let answered := respond c state
      let later := runWith respond [] (next answered.1) answered.2
      { later with events := ⟨c, answered.1⟩ :: later.events }

/-- The run in which the service answers every call. -/
def runIn (respond : (c : Call) → σ → Except ε (Answer c) × σ)
    (program : Program Call Answer ε α) (state : σ) : Except ε α × σ :=
  match program with
  | .done result => (result, state)
  | .call c next => runIn respond (next (respond c state).1) (respond c state).2

section RunIn

variable (respond : (c : Call) → σ → Except ε (Answer c) × σ)

@[simp] theorem runIn_done (result : Except ε α) (state : σ) :
    runIn respond (.done result : Program Call Answer ε α) state = (result, state) := rfl

@[simp] theorem runIn_call (c : Call) (next : Except ε (Answer c) → Program Call Answer ε α)
    (state : σ) :
    runIn respond (.call c next) state =
      runIn respond (next (respond c state).1) (respond c state).2 := rfl

theorem runIn_attempt (program : Program Call Answer ε α)
    (rest : Except ε α → Program Call Answer ε β) (state : σ) :
    runIn respond (program.attempt rest) state =
      runIn respond (rest (runIn respond program state).1) (runIn respond program state).2 := by
  induction program generalizing state with
  | done result => rfl
  | call c next ih => exact ih _ _

theorem runWith_nil (program : Program Call Answer ε α) (state : σ) :
    (runWith respond [] program state).state = (runIn respond program state).2 := by
  induction program generalizing state with
  | done result => rfl
  | call c next ih => exact ih _ _

theorem runIn_bind_ok {program : Program Call Answer ε α} {rest : α → Program Call Answer ε β}
    {state state' : σ} {a : α} (ran : runIn respond program state = (.ok a, state')) :
    runIn respond (program >>= rest) state = runIn respond (rest a) state' := by
  rw [bind_eq, runIn_attempt, ran, afterValue_ok]

theorem runIn_bind_error {program : Program Call Answer ε α}
    {rest : α → Program Call Answer ε β} {state state' : σ} {e : ε}
    (ran : runIn respond program state = (.error e, state')) :
    runIn respond (program >>= rest) state = (.error e, state') := by
  rw [bind_eq, runIn_attempt, ran, afterValue_error, runIn_done]

theorem runIn_tryCatch_ok {program : Program Call Answer ε α}
    {handler : ε → Program Call Answer ε α} {state state' : σ} {a : α}
    (ran : runIn respond program state = (.ok a, state')) :
    runIn respond (tryCatchThe ε program handler) state = (.ok a, state') := by
  rw [tryCatch_eq, runIn_attempt, ran, afterError_ok, runIn_done]

theorem runIn_tryCatch_error {program : Program Call Answer ε α}
    {handler : ε → Program Call Answer ε α} {state state' : σ} {e : ε}
    (ran : runIn respond program state = (.error e, state')) :
    runIn respond (tryCatchThe ε program handler) state = runIn respond (handler e) state' := by
  rw [tryCatch_eq, runIn_attempt, ran, afterError_error]

end RunIn

end Program

/-! ## Programs sharing a service -/

/-- A shared service: what a client call may do to the state and reply, and what the service
may do to the state by itself. -/
structure Service (σ Call : Type) (Answer : Call → Type) (ε : Type) where
  act : (c : Call) → σ → Except ε (Answer c) → σ → Prop
  background : σ → σ → Prop

/-- The service as far as its replies are accepted. -/
def Service.accepting (S : Service σ Call Answer ε)
    (accepts : (c : Call) → Except ε (Answer c) → Prop) : Service σ Call Answer ε where
  act c w reply w' := S.act c w reply w' ∧ accepts c reply
  background := S.background

/-- A launched program: which launch it came from, the replies received so far and what
remains of it. A crashed process has nothing left to run. -/
structure Process (Launch Call : Type) (Answer : Call → Type) (ε α : Type) where
  launch : Launch
  history : List (Event Call Answer ε)
  program : Option (Program Call Answer ε α)

/-- The shared state and the processes, by process number. -/
structure System (σ Launch Call : Type) (Answer : Call → Type) (ε α : Type) where
  world : σ
  processes : Nat → Option (Process Launch Call Answer ε α)

variable {Launch : Type}

theorem update_eq_some {γ : Type} {table : Nat → Option γ} {i j : Nat} {written found : γ} :
    Function.update table i (some written) j = some found ↔
      j = i ∧ written = found ∨ j ≠ i ∧ table j = some found := by
  by_cases same : j = i
  · subst same
    simp
  · simp [same]

/-- One step of the system, in any order: the service moves, a program is launched, a process
makes its next call, or a process crashes. -/
inductive System.Step (S : Service σ Call Answer ε)
    (start : Launch → Program Call Answer ε α) :
    System σ Launch Call Answer ε α → System σ Launch Call Answer ε α → Prop where
  | background {s : System σ Launch Call Answer ε α} {w : σ} (moved : S.background s.world w) :
      Step S start s { s with world := w }
  | launch {s : System σ Launch Call Answer ε α} (i : Nat) (l : Launch)
      (unused : s.processes i = none) :
      Step S start s
        { s with processes := Function.update s.processes i (some ⟨l, [], some (start l)⟩) }
  | act {s : System σ Launch Call Answer ε α} (i : Nat) {l : Launch}
      {history : List (Event Call Answer ε)} {c : Call}
      {next : Except ε (Answer c) → Program Call Answer ε α} {reply : Except ε (Answer c)}
      {w : σ} (running : s.processes i = some ⟨l, history, some (.call c next)⟩)
      (acted : S.act c s.world reply w) :
      Step S start s
        ⟨w, Function.update s.processes i
          (some ⟨l, history ++ [⟨c, reply⟩], some (next reply)⟩)⟩
  | crash {s : System σ Launch Call Answer ε α} (i : Nat) {l : Launch}
      {history : List (Event Call Answer ε)} {program : Program Call Answer ε α}
      (running : s.processes i = some ⟨l, history, some program⟩) :
      Step S start s
        { s with processes := Function.update s.processes i (some ⟨l, history, none⟩) }

/-- Finitely many steps of the system. -/
abbrev System.Run (S : Service σ Call Answer ε) (start : Launch → Program Call Answer ε α) :
    System σ Launch Call Answer ε α → System σ Launch Call Answer ε α → Prop :=
  Relation.ReflTransGen (System.Step S start)

/-- A process that was not there before was launched on the way. -/
theorem System.Run.launch_point {S : Service σ Call Answer ε}
    {start : Launch → Program Call Answer ε α} {s s' : System σ Launch Call Answer ε α}
    (run : System.Run S start s s') {i : Nat} (unused : s.processes i = none)
    {process : Process Launch Call Answer ε α} (at_i : s'.processes i = some process) :
    ∃ s₁, System.Run S start s s₁ ∧ s₁.processes i = none ∧
      System.Run S start ⟨s₁.world, Function.update s₁.processes i
        (some ⟨process.launch, [], some (start process.launch)⟩)⟩ s' := by
  induction run generalizing process with
  | refl =>
      rw [unused] at at_i
      cases at_i
  | @tail s₁ s₂ before step ih =>
      have extend : ∀ {process' : Process Launch Call Answer ε α}, s₁.processes i = some process' →
          process'.launch = process.launch → ∃ s₀, System.Run S start s s₀ ∧
            s₀.processes i = none ∧
            System.Run S start ⟨s₀.world, Function.update s₀.processes i
              (some ⟨process.launch, [], some (start process.launch)⟩)⟩ s₂ := by
        intro process' at_i' same
        obtain ⟨s₀, earlier, absent, later⟩ := ih at_i'
        rw [same] at later
        exact ⟨s₀, earlier, absent, later.tail step⟩
      cases step with
      | background moved => exact extend at_i rfl
      | launch j l free =>
          rcases update_eq_some.mp at_i with ⟨rfl, launched⟩ | ⟨_, earlier⟩
          · cases launched
            exact ⟨s₁, before, free, .refl⟩
          · exact extend earlier rfl
      | act j running acted =>
          rcases update_eq_some.mp at_i with ⟨rfl, advanced⟩ | ⟨_, earlier⟩
          · cases advanced
            exact extend running rfl
          · exact extend earlier rfl
      | crash j running =>
          rcases update_eq_some.mp at_i with ⟨rfl, crashed⟩ | ⟨_, earlier⟩
          · cases crashed
            exact extend running rfl
          · exact extend earlier rfl

/-- A service with no process launched yet. -/
def System.initial (w : σ) : System σ Launch Call Answer ε α := ⟨w, fun _ => none⟩

/-- The rules of a service: an invariant of its states, an order on states that every step
respects, and the calls that a client may make in a state. -/
structure Protocol (S : Service σ Call Answer ε) where
  Inv : σ → Prop
  Future : σ → σ → Prop
  permits : σ → Call → Prop
  refl : ∀ w, Future w w
  trans : ∀ {a b c}, Future a b → Future b c → Future a c
  act_step : ∀ {c w reply w'}, Inv w → permits w c → S.act c w reply w' →
    Inv w' ∧ Future w w'
  background_step : ∀ {w w'}, Inv w → S.background w w' → Inv w' ∧ Future w w'

namespace Protocol

variable {S : Service σ Call Answer ε} (P : Protocol S)

/-- Whatever the other participants do, every call of the program satisfies `allowed` in the
state it is made in, and its result satisfies `post` from then on. -/
def Safe (allowed : σ → Call → Prop) (post : Except ε α → σ → Prop) :
    Program Call Answer ε α → σ → Prop
  | .done result, w => ∀ w', P.Future w w' → P.Inv w' → post result w'
  | .call c next, w => ∀ w', P.Future w w' → P.Inv w' → allowed w' c ∧
      ∀ reply w'', S.act c w' reply w'' → P.Future w' w'' → P.Inv w'' →
        Safe allowed post (next reply) w''

variable {P} {allowed : σ → Call → Prop}

theorem Safe.mono {post : Except ε α → σ → Prop} {program : Program Call Answer ε α} {w w' : σ}
    (safe : P.Safe allowed post program w) (later : P.Future w w') :
    P.Safe allowed post program w' := by
  cases program with
  | done result => exact fun v future inv => safe v (P.trans later future) inv
  | call c next => exact fun v future inv => safe v (P.trans later future) inv

theorem Safe.of_future {post : Except ε α → σ → Prop} {program : Program Call Answer ε α}
    {w : σ} (safe : ∀ w', P.Future w w' → P.Inv w' → P.Safe allowed post program w') :
    P.Safe allowed post program w := by
  cases program with
  | done result => exact fun v future inv => safe v future inv v (P.refl v) inv
  | call c next => exact fun v future inv => safe v future inv v (P.refl v) inv

/-- A weaker postcondition and weaker demands on the calls are satisfied as well. -/
theorem Safe.weaken {allowed' : σ → Call → Prop} {post post' : Except ε α → σ → Prop}
    {program : Program Call Answer ε α} {w : σ} (safe : P.Safe allowed post program w)
    (calls : ∀ w' c, P.Inv w' → allowed w' c → allowed' w' c)
    (weaker : ∀ result w', P.Future w w' → P.Inv w' → post result w' → post' result w') :
    P.Safe allowed' post' program w := by
  induction program generalizing w with
  | done result =>
      exact fun v future inv => weaker result v future inv (safe v future inv)
  | call c next ih =>
      intro v future inv
      obtain ⟨permitted, continues⟩ := safe v future inv
      refine ⟨calls v c inv permitted, fun reply v' acted later inv' => ?_⟩
      exact ih reply (continues reply v' acted later inv') fun result u up invU holds =>
        weaker result u (P.trans future (P.trans later up)) invU holds

/-- **Sequencing.** A sequence is safe when its first part is, with a postcondition that makes
whatever follows safe. -/
theorem Safe.attempt {post : Except ε β → σ → Prop} {program : Program Call Answer ε α}
    {rest : Except ε α → Program Call Answer ε β} {w : σ}
    (safe : P.Safe allowed (fun result v => P.Safe allowed post (rest result) v) program w) :
    P.Safe allowed post (program.attempt rest) w := by
  induction program generalizing w with
  | done result => exact Safe.of_future safe
  | call c next ih =>
      intro v future inv
      obtain ⟨permitted, continues⟩ := safe v future inv
      exact ⟨permitted, fun reply v' acted later inv' => ih reply (continues reply v' acted later inv')⟩

/-- Sequencing through an intermediate postcondition. -/
theorem Safe.sequence {Q : Except ε α → σ → Prop} {post : Except ε β → σ → Prop}
    {program : Program Call Answer ε α} {rest : Except ε α → Program Call Answer ε β} {w : σ}
    (safe : P.Safe allowed Q program w)
    (continues : ∀ result v, P.Future w v → P.Inv v → Q result v →
      P.Safe allowed post (rest result) v) :
    P.Safe allowed post (program.attempt rest) w :=
  .attempt (safe.weaken (fun _ _ _ permitted => permitted) continues)

/-- A statement followed by the rest of its block: an exception skips the rest. -/
theorem Safe.bind {Q : Except ε α → σ → Prop} {post : Except ε β → σ → Prop}
    {program : Program Call Answer ε α} {rest : α → Program Call Answer ε β} {w : σ}
    (safe : P.Safe allowed Q program w)
    (value : ∀ a v, P.Future w v → P.Inv v → Q (.ok a) v → P.Safe allowed post (rest a) v)
    (error : ∀ e v, P.Inv v → post (.error e) v) : P.Safe allowed post (program >>= rest) w := by
  refine Safe.sequence safe fun result v future inv holds => ?_
  cases result with
  | ok a => exact value a v future inv holds
  | error e => exact fun v' _ inv' => error e v' inv'

/-- A block with a handler: a value skips the handler. -/
theorem Safe.tryCatch {Q post : Except ε α → σ → Prop}
    {program : Program Call Answer ε α} {handler : ε → Program Call Answer ε α} {w : σ}
    (safe : P.Safe allowed Q program w)
    (value : ∀ a v, P.Future w v → P.Inv v → Q (.ok a) v →
      ∀ v', P.Future v v' → P.Inv v' → post (.ok a) v')
    (handles : ∀ e v, P.Future w v → P.Inv v → Q (.error e) v →
      P.Safe allowed post (handler e) v) :
    P.Safe allowed post (tryCatchThe ε program handler) w := by
  refine Safe.sequence safe fun result v future inv holds => ?_
  cases result with
  | ok a => exact value a v future inv holds
  | error e => exact handles e v future inv holds

theorem Safe.done {post : Except ε α → σ → Prop} {result : Except ε α} {w : σ}
    (holds : ∀ w', P.Future w w' → P.Inv w' → post result w') :
    P.Safe allowed post (.done result) w := holds

/-- A single call is safe when it is allowed and its reply establishes the postcondition. -/
theorem Safe.perform {c : Call} {post : Except ε (Answer c) → σ → Prop} {w : σ}
    (holds : ∀ w', P.Future w w' → P.Inv w' → allowed w' c ∧
      ∀ reply w'', S.act c w' reply w'' → P.Future w' w'' → P.Inv w'' →
        ∀ v, P.Future w'' v → P.Inv v → post reply v) :
    P.Safe allowed post (Program.perform c : Program Call Answer ε (Answer c)) w :=
  fun w' future inv =>
    ⟨(holds w' future inv).1, fun reply w'' acted later inv' =>
      (holds w' future inv).2 reply w'' acted later inv'⟩

/-- A program is safe when from now on every call is allowed and every result satisfies the
postcondition. -/
theorem Safe.always {post : Except ε α → σ → Prop} (program : Program Call Answer ε α) {w : σ}
    (allow : ∀ v c, P.Future w v → P.Inv v → allowed v c)
    (holds : ∀ result v, P.Future w v → P.Inv v → post result v) :
    P.Safe allowed post program w := by
  induction program generalizing w with
  | done result => exact fun v future inv => holds result v future inv
  | call c next ih =>
      intro v future inv
      refine ⟨allow v c future inv, fun reply v' _ later _ => ih reply ?_ ?_⟩
      · exact fun u c' toU => allow u c' (P.trans future (P.trans later toU))
      · exact fun result u toU => holds result u (P.trans future (P.trans later toU))

theorem Safe.unrestricted (program : Program Call Answer ε α) {w : σ} :
    P.Safe (fun _ _ => True) (fun _ _ => True) program w :=
  .always program (fun _ _ _ _ => trivial) (fun _ _ _ _ => trivial)

/-- What is safe for two reasons is safe for both. -/
theorem Safe.both {allowed' : σ → Call → Prop} {post post' : Except ε α → σ → Prop}
    {program : Program Call Answer ε α} {w : σ} (safe : P.Safe allowed post program w)
    (safe' : P.Safe allowed' post' program w) :
    P.Safe (fun v c => allowed v c ∧ allowed' v c) (fun result v => post result v ∧ post' result v)
      program w := by
  induction program generalizing w with
  | done result => exact fun v future inv => ⟨safe v future inv, safe' v future inv⟩
  | call c next ih =>
      intro v future inv
      obtain ⟨permitted, continues⟩ := safe v future inv
      obtain ⟨permitted', continues'⟩ := safe' v future inv
      exact ⟨⟨permitted, permitted'⟩, fun reply v' acted later inv' =>
        ih reply (continues reply v' acted later inv') (continues' reply v' acted later inv')⟩

theorem Safe.and {post post' : Except ε α → σ → Prop} {program : Program Call Answer ε α} {w : σ}
    (safe : P.Safe allowed post program w) (safe' : P.Safe allowed post' program w) :
    P.Safe allowed (fun result v => post result v ∧ post' result v) program w :=
  (safe.both safe').weaken (fun _ _ _ permitted => permitted.1) fun _ _ _ _ holds => holds

theorem Safe.of_calls {calls : Call → Prop} {program : Program Call Answer ε α} {w : σ}
    (makes : program.Calls calls) (allow : ∀ v c, calls c → allowed v c) :
    P.Safe allowed (fun _ _ => True) program w := by
  induction program generalizing w with
  | done result => exact fun _ _ _ => trivial
  | call c next ih =>
      exact fun v _ _ => ⟨allow v c makes.1, fun reply _ _ _ _ => ih reply (makes.2 reply)⟩

/-! ## A program that is answered -/

theorem background_run {w w' : σ} (inv : P.Inv w)
    (moved : Relation.ReflTransGen S.background w w') : P.Inv w' ∧ P.Future w w' := by
  induction moved with
  | refl => exact ⟨inv, P.refl w⟩
  | tail _ step ih =>
      obtain ⟨inv', future⟩ := P.background_step ih.1 step
      exact ⟨inv', P.trans ih.2 future⟩

/-- **A safe program that is answered** by a behaviour of the service keeps the invariant and ends
with its postcondition. -/
theorem Safe.runIn {respond : (c : Call) → σ → Except ε (Answer c) × σ}
    (answers : ∀ c w, P.Inv w → ∃ w', Relation.ReflTransGen S.background w w' ∧
      S.act c w' (respond c w).1 (respond c w).2)
    {post : Except ε α → σ → Prop} {program : Program Call Answer ε α} {w : σ} (inv : P.Inv w)
    (safe : P.Safe P.permits post program w) :
    P.Inv (program.runIn respond w).2 ∧ P.Future w (program.runIn respond w).2 ∧
      post (program.runIn respond w).1 (program.runIn respond w).2 := by
  induction program generalizing w with
  | done result => exact ⟨inv, P.refl w, safe w (P.refl w) inv⟩
  | call c next ih =>
      obtain ⟨v, moved, acted⟩ := answers c w inv
      obtain ⟨invV, toV⟩ := background_run inv moved
      obtain ⟨permitted, continues⟩ := safe v toV invV
      obtain ⟨inv', future⟩ := P.act_step invV permitted acted
      obtain ⟨ended, later, holds⟩ := ih _ inv' (continues _ _ acted future inv')
      exact ⟨ended, P.trans toV (P.trans future later), holds⟩

/-! ## Considering only some replies -/

variable {accepts : (c : Call) → Except ε (Answer c) → Prop}

/-- The same rules, for the accepted replies. -/
def accepting (P : Protocol S) (accepts : (c : Call) → Except ε (Answer c) → Prop) :
    Protocol (S.accepting accepts) where
  Inv := P.Inv
  Future := P.Future
  permits := P.permits
  refl := P.refl
  trans := P.trans
  act_step inv permitted acted := P.act_step inv permitted acted.1
  background_step inv moved := P.background_step inv moved

theorem Safe.accepting {post : Except ε α → σ → Prop} {program : Program Call Answer ε α} {w : σ}
    (safe : P.Safe allowed post program w) :
    (P.accepting accepts).Safe allowed post program w := by
  induction program generalizing w with
  | done result => exact safe
  | call c next ih =>
      intro v future inv
      obtain ⟨permitted, continues⟩ := safe v future inv
      exact ⟨permitted, fun reply v' acted later inv' =>
        ih reply (continues reply v' acted.1 later inv')⟩

/-! ## Runs of the whole system -/

section Runs

variable (P) {start : Launch → Program Call Answer ε α}

/-- What holds of the system: the invariant, and that every process still keeps to the
permitted calls. -/
structure Respected (s : System σ Launch Call Answer ε α) : Prop where
  inv : P.Inv s.world
  safe : ∀ i l history program, s.processes i = some ⟨l, history, some program⟩ →
    P.Safe P.permits (fun _ _ => True) program s.world

variable {P}

/-- **The step lemma.** A step of a respected system leads to a respected system, and to a
later state of the service. -/
theorem Respected.step
    (launches : ∀ l w, P.Inv w → P.Safe P.permits (fun _ _ => True) (start l) w)
    {s s' : System σ Launch Call Answer ε α} (respected : P.Respected s)
    (step : System.Step S start s s') : P.Respected s' ∧ P.Future s.world s'.world := by
  cases step with
  | background moved =>
      obtain ⟨inv, future⟩ := P.background_step respected.inv moved
      exact ⟨⟨inv, fun i l history program at_i =>
        (respected.safe i l history program at_i).mono future⟩, future⟩
  | launch i l unused =>
      refine ⟨⟨respected.inv, fun j l' history program at_j => ?_⟩, P.refl _⟩
      rcases update_eq_some.mp at_j with ⟨rfl, launched⟩ | ⟨_, before⟩
      · cases launched
        exact launches _ _ respected.inv
      · exact respected.safe j l' history program before
  | act i running acted =>
      obtain ⟨permitted, continues⟩ :=
        respected.safe i _ _ _ running s.world (P.refl _) respected.inv
      obtain ⟨inv, future⟩ := P.act_step respected.inv permitted acted
      refine ⟨⟨inv, fun j l' history' program at_j => ?_⟩, future⟩
      rcases update_eq_some.mp at_j with ⟨rfl, advanced⟩ | ⟨_, before⟩
      · cases advanced
        exact continues _ _ acted future inv
      · exact (respected.safe j l' history' program before).mono future
  | crash i running =>
      refine ⟨⟨respected.inv, fun j l' history' program at_j => ?_⟩, P.refl _⟩
      rcases update_eq_some.mp at_j with ⟨_, crashed⟩ | ⟨_, before⟩
      · cases crashed
      · exact respected.safe j l' history' program before

/-- **The run lemma.** From a respected system, every run reaches respected systems only, and
the service only moves to later states. -/
theorem Respected.run
    (launches : ∀ l w, P.Inv w → P.Safe P.permits (fun _ _ => True) (start l) w)
    {s s' : System σ Launch Call Answer ε α} (respected : P.Respected s)
    (run : System.Run S start s s') : P.Respected s' ∧ P.Future s.world s'.world := by
  induction run with
  | refl => exact ⟨respected, P.refl _⟩
  | tail _ step ih =>
      obtain ⟨reached, future⟩ := ih
      obtain ⟨next, later⟩ := reached.step launches step
      exact ⟨next, P.trans future later⟩

theorem Respected.initial {w : σ} (inv : P.Inv w) :
    P.Respected (System.initial w : System σ Launch Call Answer ε α) :=
  ⟨inv, fun _ _ _ _ at_i => by simp [System.initial] at at_i⟩

/-- What one process keeps to, besides the permitted calls. -/
def Keeps (P : Protocol S) (allowed : σ → Call → Prop) (post : Except ε α → σ → Prop) (i : Nat)
    (s : System σ Launch Call Answer ε α) : Prop :=
  ∃ process, s.processes i = some process ∧
    ∀ program, process.program = some program → P.Safe allowed post program s.world

/-- **Following one process.** A process whose replies were all accepted is as safe as it was
for accepted replies, in every run of the system around it. -/
theorem Respected.keeps {accepts : (c : Call) → Except ε (Answer c) → Prop}
    (launches : ∀ l w, P.Inv w → P.Safe P.permits (fun _ _ => True) (start l) w)
    {s s' : System σ Launch Call Answer ε α} (respected : P.Respected s)
    {post : Except ε α → σ → Prop} {i : Nat}
    (keeps : (P.accepting accepts).Keeps allowed post i s) (run : System.Run S start s s')
    (accepted : ∀ process, s'.processes i = some process →
      ∀ event ∈ process.history, accepts event.call event.reply) :
    (P.accepting accepts).Keeps allowed post i s' := by
  induction run with
  | refl => exact keeps
  | @tail s₁ s₂ before step ih =>
      have reached := (respected.run launches before).1
      obtain ⟨next, future⟩ := reached.step launches step
      cases step with
      | background moved =>
          obtain ⟨process, at_i, safe⟩ := ih accepted
          exact ⟨process, at_i, fun program still => (safe program still).mono future⟩
      | launch j l unused =>
          have others : ∀ process, s₁.processes i = some process →
              Function.update s₁.processes j (some ⟨l, [], some (start l)⟩) i = some process := by
            intro process at_i
            have differs : i ≠ j := fun same => by
              rw [same, unused] at at_i
              cases at_i
            rw [Function.update_of_ne differs, at_i]
          obtain ⟨process, at_i, safe⟩ := ih fun process at_i => accepted process (others _ at_i)
          exact ⟨process, others process at_i, safe⟩
      | @act j l history c _ reply w running acted =>
          by_cases same : i = j
          · subst same
            have replies := accepted _ (Function.update_self ..)
            obtain ⟨process, at_i, safe⟩ := ih fun process at_i event member => by
              rw [running] at at_i
              cases at_i
              exact replies event (List.mem_append_left _ member)
            rw [running] at at_i
            cases at_i
            refine ⟨_, Function.update_self .., fun program still => ?_⟩
            cases still
            have here := replies ⟨c, reply⟩ (List.mem_append_right _ (List.mem_singleton_self _))
            exact ((safe _ rfl) _ (P.refl _) reached.inv).2 _ _ ⟨acted, here⟩ future next.inv
          · obtain ⟨process, at_i, safe⟩ := ih fun process at_i =>
              accepted process ((Function.update_of_ne same ..).trans at_i)
            exact ⟨process, (Function.update_of_ne same ..).trans at_i,
              fun program still => (safe program still).mono future⟩
      | @crash j l history program running =>
          by_cases same : i = j
          · subst same
            exact ⟨_, Function.update_self .., fun program still => by cases still⟩
          · obtain ⟨process, at_i, safe⟩ := ih fun process at_i =>
              accepted process ((Function.update_of_ne same ..).trans at_i)
            exact ⟨process, (Function.update_of_ne same ..).trans at_i, safe⟩

/-- **A process launched later.** Until its end it is as safe for accepted replies as its program
is in every later state. -/
theorem Respected.launched {accepts : (c : Call) → Except ε (Answer c) → Prop}
    (launches : ∀ l w, P.Inv w → P.Safe P.permits (fun _ _ => True) (start l) w)
    {s s' : System σ Launch Call Answer ε α} (respected : P.Respected s)
    {post : Except ε α → σ → Prop} {i : Nat} (unused : s.processes i = none)
    (run : System.Run S start s s') {process : Process Launch Call Answer ε α}
    (at_i : s'.processes i = some process)
    (safe : ∀ w, P.Future s.world w → P.Inv w →
      (P.accepting accepts).Safe allowed post (start process.launch) w)
    (accepted : ∀ event ∈ process.history, accepts event.call event.reply)
    {program : Program Call Answer ε α} (still : process.program = some program) :
    (P.accepting accepts).Safe allowed post program s'.world := by
  obtain ⟨s₁, before, absent, after⟩ := run.launch_point unused at_i
  obtain ⟨reached, future⟩ := respected.run launches before
  have launched := (reached.step launches (.launch i process.launch absent)).1
  have start_safe := safe s₁.world future reached.inv
  have kept := launched.keeps launches
    ⟨_, Function.update_self .., fun program still => by cases still; exact start_safe⟩ after
    fun process' at_i' => by
      rw [at_i] at at_i'
      cases at_i'
      exact accepted
  obtain ⟨process', at_i', safe'⟩ := kept
  rw [at_i] at at_i'
  cases at_i'
  exact safe' program still

end Runs

end Protocol

/-! ## Histories of processes -/

section Histories

variable {S : Service σ Call Answer ε} {start : Launch → Program Call Answer ε α}

/-- Every process is what its launched program leaves after the replies it has received. -/
def System.Recorded (start : Launch → Program Call Answer ε α)
    (s : System σ Launch Call Answer ε α) : Prop :=
  ∀ i l history program, s.processes i = some ⟨l, history, some program⟩ →
    Program.Follows (start l) history program

theorem System.Recorded.step {s s' : System σ Launch Call Answer ε α}
    (recorded : s.Recorded start) (step : System.Step S start s s') : s'.Recorded start := by
  intro j l' history' program at_j
  cases step with
  | background moved => exact recorded j l' history' program at_j
  | launch i l unused =>
      rcases update_eq_some.mp at_j with ⟨rfl, launched⟩ | ⟨_, before⟩
      · cases launched
        exact .here _
      · exact recorded j l' history' program before
  | act i running acted =>
      rcases update_eq_some.mp at_j with ⟨rfl, advanced⟩ | ⟨_, before⟩
      · cases advanced
        exact (recorded _ _ _ _ running).snoc _
      · exact recorded j l' history' program before
  | crash i running =>
      rcases update_eq_some.mp at_j with ⟨_, crashed⟩ | ⟨_, before⟩
      · cases crashed
      · exact recorded j l' history' program before

/-- **Every process of a reachable system runs its launched program against the replies it
has received.** -/
theorem System.Recorded.run {s s' : System σ Launch Call Answer ε α}
    (recorded : s.Recorded start) (run : System.Run S start s s') : s'.Recorded start := by
  induction run with
  | refl => exact recorded
  | tail _ step ih => exact ih.step step

theorem System.recorded_initial (w : σ) :
    (System.initial w : System σ Launch Call Answer ε α).Recorded start := by
  intro i l history program at_i
  simp [System.initial] at at_i

/-- **A process keeps its launch, and its history grows.** -/
theorem System.Run.history_grows {s s' : System σ Launch Call Answer ε α}
    (run : System.Run S start s s') {i : Nat} {process : Process Launch Call Answer ε α}
    (at_i : s.processes i = some process) :
    ∃ process', s'.processes i = some process' ∧ process'.launch = process.launch ∧
      process.history <+: process'.history := by
  induction run with
  | refl => exact ⟨process, at_i, rfl, List.prefix_refl _⟩
  | @tail s₁ s₂ _ step ih =>
      obtain ⟨process', at_i', launch, grows⟩ := ih
      cases step with
      | background moved => exact ⟨process', at_i', launch, grows⟩
      | launch j l unused =>
          have differs : i ≠ j := fun same => by
            rw [same, unused] at at_i'
            cases at_i'
          exact ⟨process', (Function.update_of_ne differs ..).trans at_i', launch, grows⟩
      | act j running acted =>
          by_cases same : i = j
          · subst same
            rw [running] at at_i'
            cases at_i'
            exact ⟨_, Function.update_self .., launch, grows.trans (List.prefix_append _ _)⟩
          · exact ⟨process', (Function.update_of_ne same ..).trans at_i', launch, grows⟩
      | crash j running =>
          by_cases same : i = j
          · subst same
            rw [running] at at_i'
            cases at_i'
            exact ⟨_, Function.update_self .., launch, grows⟩
          · exact ⟨process', (Function.update_of_ne same ..).trans at_i', launch, grows⟩

/-- A condition on the state and an event holds of all events of all processes. -/
def System.Attests (known : σ → Event Call Answer ε → Prop)
    (s : System σ Launch Call Answer ε α) : Prop :=
  ∀ i process, s.processes i = some process → ∀ event ∈ process.history, known s.world event

/-- **What replies attest.** A condition that every call establishes of its reply and that lasts
holds of all events of all processes. -/
theorem Protocol.Respected.attests {P : Protocol S} {known : σ → Event Call Answer ε → Prop}
    (lasts : ∀ w w' event, P.Future w w' → known w event → known w' event)
    (establishes : ∀ c w reply w', P.Inv w → S.act c w reply w' → P.Future w w' →
      known w' ⟨c, reply⟩)
    (launches : ∀ l w, P.Inv w → P.Safe P.permits (fun _ _ => True) (start l) w)
    {s s' : System σ Launch Call Answer ε α} (respected : P.Respected s)
    (attests : s.Attests known) (run : System.Run S start s s') : s'.Attests known := by
  induction run with
  | refl => exact attests
  | @tail s₁ s₂ before step ih =>
      have reached := (respected.run launches before).1
      obtain ⟨next, future⟩ := reached.step launches step
      intro j process at_j event member
      cases step with
      | background moved => exact lasts _ _ _ future (ih j process at_j event member)
      | launch i l unused =>
          rcases update_eq_some.mp at_j with ⟨_, rfl⟩ | ⟨_, earlier⟩
          · cases member
          · exact ih j process earlier event member
      | act i running acted =>
          rcases update_eq_some.mp at_j with ⟨_, rfl⟩ | ⟨_, earlier⟩
          · rcases List.mem_append.mp member with before | last
            · exact lasts _ _ _ future (ih _ _ running event before)
            · rw [List.mem_singleton.mp last]
              exact establishes _ _ _ _ reached.inv acted future
          · exact lasts _ _ _ future (ih j process earlier event member)
      | crash i running =>
          rcases update_eq_some.mp at_j with ⟨_, rfl⟩ | ⟨_, earlier⟩
          · exact ih _ _ running event member
          · exact ih j process earlier event member

end Histories

end PowerMarket.Library
