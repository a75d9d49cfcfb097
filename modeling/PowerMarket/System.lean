import PowerMarket.Warehouse.Clients
import PowerMarket.Warehouse.Answers
import PowerMarket.Warehouse.Recovery
import PowerMarket.Warehouse.Results

/-!
# The system

Any number of processes run the programs of the client and the orchestrated unit against the
query service, in any order, with crashes, lost replies and jobs that run long after their
submission. `Reachable` collects the states that the system reaches from freshly created
tables, `Reachable.orderly` is the invariant, and `step_effect` says what one step does to the
tables: nothing, or the effect of one job.
-/

set_option autoImplicit false

namespace PowerMarket

open Library JobService

variable [Platform]

/-- The programs that may be launched, with any arguments, any number of times. -/
inductive Launch where
  | bootstrap
  | begin (request : Request) (runId : String)
  | ingest (request : Request) (runId : String)
  | persist (request : Request) (records : List Observation) (runId : String)
  | reconcile (runId : String)
  | fail (runId : String) (error : Exn) (commitJobId : Option String)
  | executeUnit (today : Date) (unit : IngestionUnit)

/-- What a launched program returns. -/
inductive Returned where
  | nothing
  | manifest (row : RunRow)
  | prior (row : Option RunRow)
  | result (result : IngestionResult)

/-- The program of a launch. -/
def Launch.start : Launch → Client Returned
  | .bootstrap => do
    PowerMarket.bootstrap
    return .nothing
  | .begin request runId => .manifest <$> PowerMarket.begin request runId
  | .ingest request runId => .manifest <$> PowerMarket.ingest request runId
  | .persist request records runId => .manifest <$> PowerMarket.persist request records runId
  | .reconcile runId => .prior <$> PowerMarket.reconcile runId
  | .fail runId error commitJobId => do
    PowerMarket.fail runId error commitJobId
    return .nothing
  | .executeUnit today unit => .result <$> PowerMarket.executeUnit today unit

/-- **Every launched program keeps to the rules.** -/
theorem Launch.safe (launch : Launch) {w : Cloud} :
    protocol.Safe Permits (fun _ _ => True) launch.start w := by
  have mapped : ∀ {α β : Type} {f : α → β} {program : Client α} {Q : Except Exn α → Cloud → Prop},
      protocol.Safe Permits Q program w →
      protocol.Safe Permits (fun _ _ => True) (f <$> program) w :=
    fun safe => .bind safe (fun _ _ _ _ _ => .done fun _ _ _ => trivial) (fun _ _ _ => trivial)
  cases launch with
  | bootstrap =>
      exact .bind bootstrap_safe (fun _ _ _ _ _ => .done fun _ _ _ => trivial)
        (fun _ _ _ => trivial)
  | begin request runId =>
      exact mapped (begin_safe permits_passive (fun _ _ _ => permits_getRun)
        fun valid _ _ _ => permits_begin valid)
  | ingest request runId => exact mapped ingest_safe
  | persist request records runId => exact mapped persist_safe
  | reconcile runId => exact mapped reconcile_safe
  | fail runId error commitJobId =>
      exact .bind fail_safe (fun _ _ _ _ _ => .done fun _ _ _ => trivial) (fun _ _ _ => trivial)
  | executeUnit today unit => exact mapped executeUnit_safe

/-- The processes of the system with the service they share. -/
abbrev WarehouseSystem := System Cloud Launch ClientCall ClientAnswer Exn Returned

/-- One step of the system. -/
abbrev SystemStep : WarehouseSystem → WarehouseSystem → Prop :=
  System.Step cloudService Launch.start

/-- Finitely many steps of the system. -/
abbrev SystemRun : WarehouseSystem → WarehouseSystem → Prop :=
  System.Run cloudService Launch.start

/-- A state that the system reaches from freshly created tables, without any job. -/
def Reachable (s : WarehouseSystem) : Prop :=
  ∃ clock, SystemRun (System.initial (Cloud.created clock)) s

theorem Reachable.respected {s : WarehouseSystem} (reachable : Reachable s) :
    protocol.Respected s := by
  obtain ⟨clock, run⟩ := reachable
  exact ((Protocol.Respected.initial (orderly_created clock)).run
    (fun launch _ _ => launch.safe) run).1

/-- **The invariant holds in every reachable state.** -/
theorem Reachable.orderly {s : WarehouseSystem} (reachable : Reachable s) : Orderly s.world :=
  reachable.respected.inv

theorem Reachable.run {s s' : WarehouseSystem} (reachable : Reachable s) (run : SystemRun s s') :
    Reachable s' ∧ Future s.world s'.world := by
  refine ⟨?_, (reachable.respected.run (fun launch _ _ => launch.safe) run).2⟩
  obtain ⟨clock, before⟩ := reachable
  exact ⟨clock, before.trans run⟩

/-- A run has succeeded for a request. -/
def Finished (w : Cloud) (runId requestId : String) : Prop :=
  ∃ row ∈ w.store.runs, row.runId = runId ∧ row.requestId = requestId ∧ row.status = .succeeded

omit [Platform] in
theorem Finished.mono {w w' : Cloud} {runId requestId : String}
    (finished : Finished w runId requestId) (future : Future w w') :
    Finished w' runId requestId := by
  obtain ⟨row, member, ofRun, bound, succeeded⟩ := finished
  exact ⟨row, future.before.final member (.inl succeeded), ofRun, bound, succeeded⟩

/-- **One step of the system**: a job takes effect, or the tables stay as they are. -/
theorem step_effect {s s' : WarehouseSystem} (reachable : Reachable s) (step : SystemStep s s') :
    s'.world.store = s.world.store ∨
      ∃ id script rows time usage, TakesEffect s.world s'.world id script rows time usage := by
  cases step with
  | background moved => exact (reachable.orderly.background moved).2.2
  | launch i launch unused => exact .inl rfl
  | crash i running => exact .inl rfl
  | act i running acted =>
      left
      rcases act_cases acted with same | ⟨_, _, _, _, same⟩
      · exact congrArg World.store same
      · show World.store _ = _
        rw [same]
        rfl

/-- What a program keeps to in every later state, it keeps to when it is launched later. -/
theorem Reachable.launched_safe {s s' : WarehouseSystem} (reachable : Reachable s) {i : Nat}
    (unused : s.processes i = none) (run : SystemRun s s')
    {process : Process Launch ClientCall ClientAnswer Exn Returned}
    (at_i : s'.processes i = some process) {program : Client Returned}
    (still : process.program = some program) {allowed : Cloud → ClientCall → Prop}
    {post : Except Exn Returned → Cloud → Prop}
    (safe : ∀ w, Future s.world w → Orderly w →
      protocol.Safe allowed post process.launch.start w) :
    (protocol.accepting fun _ _ => True).Safe allowed post program s'.world :=
  reachable.respected.launched (fun launch _ _ => launch.safe) unused run at_i
    (fun w future orderly => (safe w future orderly).accepting) (fun _ _ => trivial) still

theorem Reachable.recorded {s : WarehouseSystem} (reachable : Reachable s) :
    s.Recorded Launch.start := by
  obtain ⟨clock, run⟩ := reachable
  exact (System.recorded_initial _).run run

/-- **The end of a unit** that was launched after a state. -/
theorem Reachable.unitEnded {s s' : WarehouseSystem} (reachable : Reachable s) {i : Nat}
    (unused : s.processes i = none) (run : SystemRun s s') {today : Date} {unit : IngestionUnit}
    {history : List (Event ClientCall ClientAnswer Exn)} {result : Except Exn Returned}
    (at_i : s'.processes i = some ⟨.executeUnit today unit, history, some (.done result)⟩) :
    ∃ base ended, Precedes s.world.store base ∧ UnitEnded today unit base ended s'.world ∧
      result = ended.map .result := by
  have reached := (reachable.run run).1.orderly
  suffices safe : (protocol.accepting fun _ _ => True).Safe (fun _ _ => True)
      (fun result v => ∃ base ended, Precedes s.world.store base ∧
        UnitEnded today unit base ended v ∧ result = ended.map .result) (.done result) s'.world from
    safe s'.world (.refl _) reached
  refine reachable.launched_safe unused run at_i rfl fun w future _ => ?_
  have mapped : Launch.start (.executeUnit today unit) =
      executeUnit today unit >>= fun r => return .result r := rfl
  rw [mapped]
  refine Protocol.Safe.sequence executeUnit_result fun ended v _ _ holds => ?_
  cases ended with
  | ok r => exact .done fun v' later _ => ⟨w.store, .ok r, future.before, holds.mono later, rfl⟩
  | error e =>
      exact .done fun v' later _ => ⟨w.store, .error e, future.before, holds.mono later, rfl⟩

/-- **A program that is launched later** and none of whose calls fails ends with what it
achieves. -/
theorem Reachable.achieves {s s' : WarehouseSystem} (reachable : Reachable s) {i : Nat}
    (unused : s.processes i = none) (run : SystemRun s s') {l : Launch}
    {history : List (Event ClientCall ClientAnswer Exn)} {result : Except Exn Returned}
    (at_i : s'.processes i = some ⟨l, history, some (.done result)⟩)
    {post : Returned → Cloud → Prop}
    (achieves : ∀ w, Future s.world w → Orderly w → Achieves l.start w post)
    (answered : ∀ event ∈ history, Answered event.call event.reply) :
    ∃ a, result = .ok a ∧ post a s'.world := by
  have reached := (reachable.run run).1.orderly
  exact reachable.respected.launched (fun launch _ _ => launch.safe) unused run at_i achieves
    answered rfl s'.world (.refl _) reached

/-! ## Runs of one process -/

/-- A program runs alone against the service that answers at once, except for the calls that a
schedule of faults makes fail. -/
abbrev alone {α : Type} (outside : (request : Outside) → Except Exn request.Reply)
    (faults : List (Option Exn)) (program : Client α) (w : Cloud) :
    Program.Outcome ClientCall ClientAnswer Exn Cloud α :=
  Program.runWith (answer outside) faults program w

/-- The system after a process has run alone to its end. -/
def WarehouseSystem.finish (s : WarehouseSystem) (i : Nat) (l : Launch)
    (history : List (Event ClientCall ClientAnswer Exn))
    (outcome : Program.Outcome ClientCall ClientAnswer Exn Cloud Returned) : WarehouseSystem :=
  ⟨outcome.state, Function.update s.processes i
    (some ⟨l, history ++ outcome.events, some (.done outcome.result)⟩)⟩

/-- A relation that lets the service move, and one process make its next call when the reply is
accepted. -/
structure Drives (R : WarehouseSystem → WarehouseSystem → Prop) (i : Nat)
    (accepts : (c : ClientCall) → Except Exn (ClientAnswer c) → Prop) : Prop where
  run : ∀ {s s'}, R s s' → SystemRun s s'
  background : ∀ {s w}, Background bigQuery s.world w → R s { s with world := w }
  act : ∀ {s l history c next reply w},
    s.processes i = some ⟨l, history, some (.call c next)⟩ →
    JobService.act c s.world reply w → accepts c reply →
    R s ⟨w, Function.update s.processes i (some ⟨l, history ++ [⟨c, reply⟩], some (next reply)⟩)⟩

/-- **A process that runs alone** takes only steps that drive it. -/
theorem Reachable.driven {R : WarehouseSystem → WarehouseSystem → Prop} {i : Nat}
    {accepts : (c : ClientCall) → Except Exn (ClientAnswer c) → Prop} (drives : Drives R i accepts)
    {s : WarehouseSystem} (reachable : Reachable s) {l : Launch}
    {history : List (Event ClientCall ClientAnswer Exn)} {program : Client Returned}
    (running : s.processes i = some ⟨l, history, some program⟩)
    (outside : (request : Outside) → Except Exn request.Reply) (faults : List (Option Exn))
    (answers : ∀ c w, accepts c (answer outside c w).1) (fails : ∀ c e, accepts c (.error e)) :
    Relation.ReflTransGen R s (s.finish i l history (alone outside faults program s.world)) := by
  induction program generalizing s history faults with
  | done result =>
      have same : s.finish i l history (PowerMarket.alone outside faults (.done result) s.world) =
          s := by
        have outcome : PowerMarket.alone outside faults (.done result : Client Returned) s.world =
            ⟨[], result, s.world⟩ := by cases faults <;> rfl
        rw [outcome, WarehouseSystem.finish, List.append_nil, ← running, Function.update_eq_self]
      rw [same]
  | call c next ih =>
      -- After its next call the process runs alone from the state that the call leaves.
      have continues : ∀ (reply : Except Exn (ClientAnswer c)) (w : Cloud) (faults' : _)
          (outcome : Program.Outcome ClientCall ClientAnswer Exn Cloud Returned),
          Relation.ReflTransGen R s ⟨w, Function.update s.processes i
            (some ⟨l, history ++ [⟨c, reply⟩], some (next reply)⟩)⟩ →
          outcome = { PowerMarket.alone outside faults' (next reply) w with
            events := ⟨c, reply⟩ :: (PowerMarket.alone outside faults' (next reply) w).events } →
          Relation.ReflTransGen R s (s.finish i l history outcome) := by
        rintro reply w faults' outcome called rfl
        have reachable' : Reachable ⟨w, Function.update s.processes i
            (some ⟨l, history ++ [⟨c, reply⟩], some (next reply)⟩)⟩ := by
          refine Relation.ReflTransGen.rec reachable (fun _ step reached => ?_) called
          exact (reached.run (drives.run step)).1
        have run := called.trans (ih reply reachable' (Function.update_self ..) faults')
        simpa [WarehouseSystem.finish, Function.update_idem] using run
      have answered : Relation.ReflTransGen R s ⟨(answer outside c s.world).2,
          Function.update s.processes i (some ⟨l, history ++ [⟨c, (answer outside c s.world).1⟩],
            some (next (answer outside c s.world).1)⟩)⟩ := by
        obtain ⟨w, moved, acted⟩ := respond_sound outside c
          (fun n bound => reachable.orderly.consistent.fresh bound : s.world.Fresh)
        have moves : Relation.ReflTransGen R s { s with world := w } :=
          moved.lift (fun w => { s with world := w }) fun _ _ step => drives.background step
        exact moves.tail (drives.act running acted (answers c _))
      match faults with
      | [] => exact continues _ _ [] _ answered rfl
      | none :: faults => exact continues _ _ faults _ answered rfl
      | some e :: faults =>
          exact continues (.error e) s.world faults _
            (.single (drives.act running (act_fault c s.world e) (fails c e))) rfl

/-- **A process that runs alone is a run of the system.** -/
theorem Reachable.alone {s : WarehouseSystem} (reachable : Reachable s) {i : Nat} {l : Launch}
    {history : List (Event ClientCall ClientAnswer Exn)} {program : Client Returned}
    (running : s.processes i = some ⟨l, history, some program⟩)
    (outside : (request : Outside) → Except Exn request.Reply) (faults : List (Option Exn)) :
    SystemRun s (s.finish i l history (alone outside faults program s.world)) := by
  have drives : Drives SystemStep i fun _ _ => True :=
    ⟨.single, fun moved => .background moved, fun running acted _ => .act i running acted⟩
  exact reachable.driven drives running outside faults (fun _ _ => trivial) fun _ _ => trivial

/-- **A launch that runs alone is a run of the system.** -/
theorem Reachable.launched {s : WarehouseSystem} (reachable : Reachable s) {i : Nat}
    (unused : s.processes i = none) (l : Launch)
    (outside : (request : Outside) → Except Exn request.Reply) (faults : List (Option Exn)) :
    SystemRun s (s.finish i l [] (PowerMarket.alone outside faults l.start s.world)) := by
  have launched : SystemRun s
      { s with processes := Function.update s.processes i (some ⟨l, [], some l.start⟩) } :=
    .single (.launch i l unused)
  have run := launched.trans
    ((reachable.run launched).1.alone (Function.update_self ..) outside faults)
  simpa [WarehouseSystem.finish, Function.update_idem] using run

/-! ## A small system -/

/-- A source with the small batch, and a dataset and tables as declared. -/
def sampleOutside : (request : Outside) → Except Exn request.Reply
  | .fetch _ => .ok [sampleObservation]
  | .createDataset => .ok ⟨Platform.config.location, some "power-market-data-platform", none, none⟩
  | .createTable name => .ok ⟨(tables.lookup name).getD [], false, false, false, false⟩

/-- A source with one price, and the same. -/
def priceOutside : (request : Outside) → Except Exn request.Reply
  | .fetch _ => .ok [samplePrice]
  | .createDataset => .ok ⟨Platform.config.location, some "power-market-data-platform", none, none⟩
  | .createTable name => .ok ⟨(tables.lookup name).getD [], false, false, false, false⟩

/-- The system before anything was launched. -/
def sampleInitial : WarehouseSystem := System.initial (Cloud.created sampleStop)

/-- The warehouse after it was created. -/
def bootstrapped : WarehouseSystem :=
  sampleInitial.finish 0 .bootstrap []
    (alone sampleOutside [] (Launch.start .bootstrap) sampleInitial.world)

/-- The warehouse after one run. -/
def ingested : WarehouseSystem :=
  bootstrapped.finish 1 (.ingest sampleRequest sampleRunId) []
    (alone sampleOutside [] (Launch.start (.ingest sampleRequest sampleRunId)) bootstrapped.world)

theorem bootstrapped_reachable : Reachable bootstrapped := by
  have initial : Reachable sampleInitial := ⟨sampleStop, .refl⟩
  exact (initial.run (initial.launched rfl .bootstrap sampleOutside [])).1

theorem ingested_reachable : Reachable ingested := by
  have unused : bootstrapped.processes 1 = none := rfl
  exact (bootstrapped_reachable.run (bootstrapped_reachable.launched unused
    (.ingest sampleRequest sampleRunId) sampleOutside [])).1

/-- The warehouse after a run whose finalization was not submitted. -/
def interrupted : WarehouseSystem :=
  bootstrapped.finish 1 (.ingest sampleRequest sampleRunId) []
    (alone sampleOutside (List.replicate 20 none ++ [some (.new .serviceUnavailable "")])
      (Launch.start (.ingest sampleRequest sampleRunId)) bootstrapped.world)

theorem interrupted_reachable : Reachable interrupted := by
  have unused : bootstrapped.processes 1 = none := rfl
  exact (bootstrapped_reachable.run (bootstrapped_reachable.launched unused
    (.ingest sampleRequest sampleRunId) sampleOutside _)).1

omit [Platform] in
/-- A state in which a run holds the gate is reached. -/
theorem exists_interrupted :
    letI := Platform.plain
    ∃ s, Reachable s ∧ s.world.store.gate = some sampleRunId :=
  ⟨@interrupted Platform.plain, @interrupted_reachable Platform.plain, by rfl⟩

end PowerMarket
