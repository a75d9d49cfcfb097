import PowerMarket.System
import PowerMarket.Orchestration.Plan
import PowerMarket.Library.Resumable
import PowerMarket.Warehouse.Ledger

/-!
# The backfill pipeline

One writer invokes a backfill, again and again. An invocation plans its units and executes a task
for each, one after another, in the order of the plan. A task that stops with a transient failure,
or whose process crashed, is repeated once. The analytics are built only after the last task. Any
invocation may be cut off anywhere: its process may crash between any two calls, any call may fail
before or after it reached the service, and the jobs it has submitted may run long after it is gone.

`PipelineStep` lists what can happen. Every run of the pipeline is a run of the warehouse system in
which only the tasks act (`PipelineRun.system`). What the source returns for a request is always the
same (`Honest`).

`ingestAll` is what an interrupted backfill is compared with: one call of `ingest` for each unit, in
the order of the plan, with every call answered at once.
-/

set_option autoImplicit false

namespace PowerMarket

open Library JobService

variable [Platform]

/-! ## Invocations -/

/-- Where an invocation of a backfill is: which units have results, which are left, whether the
task of the first of them was repeated, and the process of that task. -/
inductive Stage where
  | idle
  | ingesting (results : List IngestionResult) (rest : List IngestionUnit) (retried : Bool)
      (task : Option Nat)
  | ingested (results : List IngestionResult)
  | buildingAnalytics (results : List IngestionResult)

/-- The process of the current task. -/
def Stage.task : Stage → Option Nat
  | .ingesting _ _ _ task => task
  | _ => none

/-- The ingestion loop of the invocation is complete. -/
def Stage.Ingested : Stage → Prop
  | .ingested _ | .buildingAnalytics _ => True
  | _ => False

/-- The warehouse system with the invocation that uses it. -/
structure Pipeline where
  system : WarehouseSystem
  stage : Stage

/-- A process has a call to make. -/
def WarehouseSystem.Running (s : WarehouseSystem) (i : Nat) : Prop :=
  ∃ l history c next, s.processes i = some ⟨l, history, some (.call c next)⟩

/-- A task is repeated when its process crashed or asked for it. -/
inductive Repeats (s : WarehouseSystem) (i : Nat) : Prop where
  | crashed {l : Launch} {history : List (Event ClientCall ClientAnswer Exn)}
      (stopped : s.processes i = some ⟨l, history, none⟩)
  | asked {l : Launch} {history : List (Event ClientCall ClientAnswer Exn)} {e : Exn}
      (stopped : s.processes i = some ⟨l, history, some (.done (.error e))⟩)
      (retryable : e.error.kind = .retryableIngestionError)

/-- A reply of a source that returns the same records for the same request. -/
def Honest (source : Request → List Observation) : (c : ClientCall) →
    Except Exn (ClientAnswer c) → Prop
  | .outside (.fetch request), reply => ∀ records, reply = .ok records → records = source request
  | _, _ => True

variable (uuid5 : String → String → String) (source : Request → List Observation)
  (spec : Backfill)

/-- **What can happen** between the invocations of a backfill and while one is running. -/
inductive PipelineStep : Pipeline → Pipeline → Prop where
  | background {s : WarehouseSystem} {stage : Stage} {w : Cloud}
      (moved : Background bigQuery s.world w) :
      PipelineStep ⟨s, stage⟩ ⟨{ s with world := w }, stage⟩
  | backfill {s : WarehouseSystem} {today : Date} {units : List IngestionUnit}
      (planned : expand uuid5 today spec = .ok units) :
      PipelineStep ⟨s, .idle⟩ ⟨s, .ingesting [] units false none⟩
  | ingestDay {s : WarehouseSystem} {results : List IngestionResult} {unit : IngestionUnit}
      {rest : List IngestionUnit} {retried : Bool} (i : Nat) (today : Date)
      (unused : s.processes i = none) :
      PipelineStep ⟨s, .ingesting results (unit :: rest) retried none⟩
        ⟨⟨s.world, Function.update s.processes i
            (some ⟨.executeUnit today unit, [], some (Launch.start (.executeUnit today unit))⟩)⟩,
          .ingesting results (unit :: rest) retried (some i)⟩
  | act {s : WarehouseSystem} {results : List IngestionResult} {rest : List IngestionUnit}
      {retried : Bool} {i : Nat} {l : Launch} {history : List (Event ClientCall ClientAnswer Exn)}
      {c : ClientCall} {next : Except Exn (ClientAnswer c) → Client Returned}
      {reply : Except Exn (ClientAnswer c)} {w : Cloud}
      (running : s.processes i = some ⟨l, history, some (.call c next)⟩)
      (acted : cloudService.act c s.world reply w) (honest : Honest source c reply) :
      PipelineStep ⟨s, .ingesting results rest retried (some i)⟩
        ⟨⟨w, Function.update s.processes i
            (some ⟨l, history ++ [⟨c, reply⟩], some (next reply)⟩)⟩,
          .ingesting results rest retried (some i)⟩
  | crash {s : WarehouseSystem} {results : List IngestionResult} {rest : List IngestionUnit}
      {retried : Bool} {i : Nat} {l : Launch} {history : List (Event ClientCall ClientAnswer Exn)}
      {program : Client Returned} (running : s.processes i = some ⟨l, history, some program⟩) :
      PipelineStep ⟨s, .ingesting results rest retried (some i)⟩
        ⟨⟨s.world, Function.update s.processes i (some ⟨l, history, none⟩)⟩,
          .ingesting results rest retried (some i)⟩
  | retry {s : WarehouseSystem} {results : List IngestionResult} {rest : List IngestionUnit}
      {i : Nat} (repeats : Repeats s i) :
      PipelineStep ⟨s, .ingesting results rest false (some i)⟩
        ⟨s, .ingesting results rest true none⟩
  | succeeded {s : WarehouseSystem} {results : List IngestionResult} {unit : IngestionUnit}
      {rest : List IngestionUnit} {retried : Bool} {i : Nat} {l : Launch}
      {history : List (Event ClientCall ClientAnswer Exn)} {result : IngestionResult}
      (returned : s.processes i = some ⟨l, history, some (.done (.ok (.result result)))⟩)
      (status : result.status = .succeeded) :
      PipelineStep ⟨s, .ingesting results (unit :: rest) retried (some i)⟩
        ⟨s, .ingesting (results ++ [result]) rest false none⟩
  | ingested {s : WarehouseSystem} {results : List IngestionResult} {retried : Bool} :
      PipelineStep ⟨s, .ingesting results [] retried none⟩ ⟨s, .ingested results⟩
  | buildAnalytics {s : WarehouseSystem} {results : List IngestionResult}
      (runDbt : spec.runDbt = true) :
      PipelineStep ⟨s, .ingested results⟩ ⟨s, .buildingAnalytics results⟩
  | stop {s : WarehouseSystem} {stage : Stage}
      (stopped : ∀ i, stage.task = some i → ¬ s.Running i) :
      PipelineStep ⟨s, stage⟩ ⟨s, .idle⟩

/-- Finitely many steps of the pipeline. -/
abbrev PipelineRun : Pipeline → Pipeline → Prop :=
  Relation.ReflTransGen (PipelineStep uuid5 source spec)

variable {uuid5 source spec}

theorem PipelineStep.system {b b' : Pipeline} (step : PipelineStep uuid5 source spec b b') :
    SystemRun b.system b'.system := by
  cases step with
  | background moved => exact .single (.background moved)
  | backfill planned => exact .refl
  | ingestDay i today unused => exact .single (.launch i _ unused)
  | act running acted honest => exact .single (.act _ running acted)
  | crash running => exact .single (.crash _ running)
  | retry repeats => exact .refl
  | succeeded returned status => exact .refl
  | ingested => exact .refl
  | buildAnalytics runDbt => exact .refl
  | stop stopped => exact .refl

/-- **A run of the pipeline is a run of the warehouse system.** -/
theorem PipelineRun.system {b b' : Pipeline} (run : PipelineRun uuid5 source spec b b') :
    SystemRun b.system b'.system := by
  induction run with
  | refl => exact .refl
  | tail _ step ih => exact ih.trans step.system

/-! ## The start and the end -/

omit [Platform] in
/-- The warehouse before a single writer starts: its gate is free, and no other writer has left a
job in flight that could still create a run or commit one. ADR 007 asks to inspect the jobs in
flight before another writer starts, since a submitted job survives the process that stopped. -/
structure AtRest (w : Cloud) : Prop where
  free : ∃ c, Seeded w.store c ∧ c.activeRunId = none
  ended : ∀ name job, w.jobs (.named name) = some job → job.phase.isEnded = true

/-! ## Without interruptions -/

/-- Call `ingest` once for each unit, in their order. -/
def ingestAll (source : Request → List Observation) (today : Date) :
    List IngestionUnit → Cloud → Except Exn Cloud
  | [], w => .ok w
  | unit :: units, w => do
    let request ← unit.request today
    let ran := runNow (fetching source) (ingest request unit.runId) w
    let _ ← ran.1
    ingestAll source today units ran.2

/-- Accept the records of the request of a unit. -/
def acceptUnit (source : Request → List Observation) (today : Date) (unit : IngestionUnit)
    (ledger : Ledger) : Except Exn Ledger := do
  let request ← unit.request today
  ledger.accept unit.runId request (source request)

/-- How far the runs have come, and the ledger they have led to. -/
def Database.progress (db : Database) : Progress String Ledger :=
  ⟨(db.runs.filter (·.status.hasCommitted)).map (·.runId), db.ledger⟩

/-- The tables show a progress: which runs have committed, and the ledger. -/
structure Describes (progress : Progress String Ledger) (db : Database) : Prop where
  state : progress.state = db.ledger
  ids : ∀ id, id ∈ progress.ids ↔ ∃ row ∈ db.runs, row.runId = id ∧ row.status.hasCommitted = true

omit [Platform] in
theorem describes_progress (db : Database) : Describes db.progress db := by
  refine ⟨rfl, fun id => ?_⟩
  simp only [Database.progress, List.mem_map, List.mem_filter]
  exact exists_congr fun row => by tauto

end PowerMarket
