import PowerMarket.Analytics.Upserts
import PowerMarket.Orchestration.Convergence
import PowerMarket.Orchestration.Resumption
import PowerMarket.Orchestration.Verification

/-!
# What a backfill does to the facts

A backfill refreshes the facts. However often it was interrupted, retried and invoked again, the
facts always show what they showed before, with the records of the source put into them for a first
part of the plan, unit by unit, and for all units once its ingestion loop is complete
(`backfill_refreshes`). A unit whose run had succeeded before puts nothing.

The ledger that an interrupted backfill has led to is the one of some units worked off one after
another (`Converging.reached`). It is reproduced by a serial execution (`serial_units`), and the
facts are those of any serial execution with the same ledger (`CurrentFacts.shown_settled`).
-/

set_option autoImplicit false

namespace PowerMarket

open Library

variable [Platform]

/-! ## Units one after another -/

/-- What a unit puts into the facts of a product: the content hashes of the records of the source by
their keys. -/
def IngestionUnit.puts (source : Request → List Observation) (today : Date) (product : Product)
    (unit : IngestionUnit) : List (String × String) :=
  match unit.request today with
  | .ok request =>
    if request.product = product then
      (source request).map fun record => (record.logicalKey, record.contentHash)
    else []
  | .error _ => []

/-- The units whose runs have not succeeded. -/
def pendingUnits (db : Database) (units : List IngestionUnit) : List IngestionUnit :=
  units.filter fun unit => !db.runs.any fun row =>
    row.runId = unit.runId && row.status = .succeeded

section Serial

variable {c : ControlRow} {serial : Database} {entries : List Entry} {entry : Entry}
  {batch : List BatchRow} {current : Snapshot} {writes : WritePlan}

/-- **The next run of a serial execution** whose gate is free: accepting records on its ledger is
executing a run with them. -/
theorem acceptAll_entered (accepted : acceptAll entries Database.seeded = .ok serial)
    (isSerial : Serial c serial) (free : c.activeRunId = none) {runId : String} {request : Request}
    {records : List Observation} {after : Ledger} (fresh : ∀ row ∈ serial.runs, row.runId ≠ runId)
    (entered : serial.ledger.accept runId request records = .ok after) (now : UtcTime) :
    ∃ serial' c', acceptAll (entries ++ [⟨runId, request, request, records, now, some now, rfl⟩])
        Database.seeded = .ok serial' ∧ Serial c' serial' ∧ c'.activeRunId = none ∧
      serial'.ledger = after ∧
      ∀ row ∈ serial'.runs, row.runId = runId ∨ ∃ row' ∈ serial.runs, row'.runId = row.runId := by
  obtain ⟨writes, planned, _⟩ := Ledger.accept_eq_ok.mp entered
  have seeded := isSerial.sound.seeded
  rw [planOn_ledger seeded free] at planned
  obtain ⟨batch, batched, rest⟩ := bind_eq_ok.mp planned
  obtain ⟨current, read, written⟩ := bind_eq_ok.mp rest
  let entry : Entry := ⟨runId, request, request, records, now, some now, rfl⟩
  have commits : Commits entry c serial batch current writes :=
    ⟨batched, read, written, fresh, free⟩
  refine ⟨afterRun entry writes c serial, afterControl entry c,
    acceptAll_snoc.mpr ⟨serial, accepted, (acceptRun_iff isSerial).mpr ⟨_, _, _, commits, rfl⟩⟩,
    afterRun_serial isSerial commits, rfl, ?_, ?_⟩
  · exact Except.ok.inj ((commits.accepts isSerial).symm.trans entered)
  · intro row member
    rw [afterRun_runs commits, List.mem_append, List.mem_singleton] at member
    rcases member with before | rfl
    · exact .inr ⟨row, before, rfl⟩
    · exact .inl rfl

/-- **Units that are accepted one after another** continue a serial execution. -/
theorem serial_units {source : Request → List Observation} {today : Date}
    {units : List IngestionUnit} {ledger : Ledger}
    (accepted : acceptAll entries Database.seeded = .ok serial) (isSerial : Serial c serial)
    (free : c.activeRunId = none) (distinct : units.Pairwise fun a b => a.runId ≠ b.runId)
    (fresh : ∀ unit ∈ units, ∀ row ∈ serial.runs, row.runId ≠ unit.runId)
    (worked : units.foldlM (fun ledger unit => acceptUnit source today unit ledger) serial.ledger =
      .ok ledger) (now : UtcTime) :
    ∃ more serial', acceptAll (entries ++ more) Database.seeded = .ok serial' ∧
      serial'.ledger = ledger ∧ List.Forall₂ (fun unit entry =>
        ∀ product, entry.puts product = unit.puts source today product) units more := by
  induction units generalizing entries serial c with
  | nil =>
      cases worked
      exact ⟨[], serial, by rwa [List.append_nil], rfl, .nil⟩
  | cons unit units ih =>
      obtain ⟨different, rest⟩ := List.pairwise_cons.mp distinct
      obtain ⟨fresh_unit, fresh_rest⟩ := List.forall_mem_cons.mp fresh
      rw [List.foldlM_cons] at worked
      obtain ⟨middle, first, others⟩ := bind_eq_ok.mp worked
      obtain ⟨request, requested, entered⟩ := bind_eq_ok.mp first
      obtain ⟨serial₁, c₁, accepted₁, isSerial₁, free₁, rfl, runs⟩ :=
        acceptAll_entered accepted isSerial free fresh_unit entered now
      obtain ⟨more, serial', accepted', same, puts⟩ := ih accepted₁ isSerial₁ free₁ rest
        (fun other member row at_row => by
          rcases runs row at_row with ofUnit | ⟨row', at_row', ofRow⟩
          · rw [ofUnit]
            exact different other member
          · rw [← ofRow]
            exact fresh_rest other member row' at_row') others
      refine ⟨⟨unit.runId, request, request, source request, now, some now, rfl⟩ :: more, serial',
        ?_, same, .cons (fun product => ?_) puts⟩
      · rwa [List.append_cons]
      · rw [Entry.puts, IngestionUnit.puts, requested]

/-- Runs and units that put the same lead to the same store. -/
theorem foldl_puts {source : Request → List Observation} {today : Date} {product : Product}
    {units : List IngestionUnit} {more : List Entry} (puts : List.Forall₂ (fun unit entry =>
      ∀ product, Entry.puts product entry = unit.puts source today product) units more)
    (store : KeyedStore String String) :
    more.foldl (fun store entry => putAll store (entry.puts product)) store =
      units.foldl (fun store unit => putAll store (unit.puts source today product)) store := by
  induction puts generalizing store with
  | nil => rfl
  | cons same _ ih => rw [List.foldl_cons, List.foldl_cons, same product, ih]

end Serial

/-! ## The facts before and after -/

section Facts

variable {uuid5 : String → String → String} {source : Request → List Observation}
  {spec : Backfill} {today : Date} {units : List IngestionUnit} {s : WarehouseSystem}
  {b : Pipeline}

theorem expand_distinct (noCollisions : NoCollisions) (injective : UuidInjective uuid5)
    (planned : expand uuid5 today spec = .ok units) :
    units.Pairwise fun a b => a.runId ≠ b.runId := by
  refine (expand_ordered planned).imp_of_mem fun {a b} inUnits inUnits' before runIds => ?_
  exact before.key_ne
    ((runId_eq_iff noCollisions injective planned planned inUnits inUnits').mp runIds).2

omit [Platform] in
theorem Good.committed_iff [Platform] {db : Database} (good : Good db) (free : db.gate = none)
    {row : RunRow} (member : row ∈ db.runs) :
    row.status.hasCommitted = true ↔ row.status = .succeeded := by
  rw [Status.hasCommitted_iff, or_iff_right (good.gate_eq_none.mp free row member)]

theorem pendingUnits_eq {db : Database} (good : Good db) (free : db.gate = none)
    (units : List IngestionUnit) :
    (units.filter fun unit => unit.runId ∉ db.progress.ids) = pendingUnits db units := by
  refine List.filter_congr fun unit _ => ?_
  rw [Bool.eq_iff_iff, decide_eq_true_iff, Bool.not_eq_true', ← Bool.not_eq_true, not_iff_not,
    (describes_progress db).ids, List.any_eq_true]
  refine exists_congr fun row => and_congr_right fun member => ?_
  rw [Bool.and_eq_true, decide_eq_true_iff, decide_eq_true_iff, good.committed_iff free member]

/-- **When all units have succeeded, the gate is free**: only units have committed since the
start. -/
theorem Converging.gate (reachable : Reachable s) (free : s.world.store.gate = none)
    (converging : Converging source today units s.world.store.progress b)
    (future : Future s.world b.system.world)
    (finished : ∀ unit ∈ units, UnitFinished b.system.world unit) :
    b.system.world.store.gate = none := by
  have good := converging.reachable.orderly.good
  obtain ⟨progress, describes, reached⟩ := converging.reached
  have worked := reached.complete fun unit member => by
    obtain ⟨_, _, final, inRuns, ofRun, _, succeeded⟩ := finished unit member
    exact (describes.ids _).mpr ⟨final, inRuns, ofRun, by rw [succeeded]; rfl⟩
  rw [good.gate_eq_none]
  intro row member isCommitted
  have done := (describes.ids row.runId).mpr ⟨row, member, rfl, by rw [isCommitted]; rfl⟩
  obtain ⟨final, inRuns, ofRun, succeeded⟩ : ∃ final ∈ b.system.world.store.runs,
      final.runId = row.runId ∧ final.status = .succeeded := by
    rcases (Resumable.mem_all_ids worked).mp done with before | ⟨unit, inUnits, same⟩
    · obtain ⟨old, at_old, ofOld, committed⟩ := ((describes_progress _).ids _).mp before
      have settled := (reachable.orderly.good.committed_iff free at_old).mp committed
      exact ⟨old, future.before.final at_old (.inl settled), ofOld, settled⟩
    · obtain ⟨_, _, final, inRuns, ofRun, _, succeeded⟩ := finished unit inUnits
      exact ⟨final, inRuns, ofRun.trans same, succeeded⟩
  rw [run_unique good.unique inRuns member ofRun, isCommitted] at succeeded
  cases succeeded

/-- The runs that had committed at the start are eligible at the end. -/
theorem start_settled {c : ControlRow} {serial : Database} {entries : List Entry} {n : Nat}
    (good : Good s.world.store) (free : s.world.store.gate = none)
    (future : Future s.world b.system.world)
    (accepted : acceptAll entries Database.seeded = .ok serial) (isSerial : Serial c serial)
    (mirrors : Mirrors serial s.world.store) (settled : SettledUpTo b.system.world.store n) :
    entries.length ≤ n := by
  cases length : entries.length with
  | zero => exact Nat.zero_le n
  | succ i =>
      obtain ⟨_, _, documented⟩ := acceptAll_documents accepted isSerial
      have inside : i < entries.length := by omega
      obtain ⟨row, at_row, documents⟩ :=
        documented i entries[i] (List.getElem?_eq_getElem inside)
      obtain ⟨row', at_row', committed, same⟩ := mirrors.sub row (List.mem_of_getElem? at_row)
      have succeeded := (good.committed_iff free at_row').mp committed
      exact (settled.succeeded row' (future.before.final at_row' (.inl succeeded)) committed _
        (documents.congr same).number).mp succeeded

/-- **Units that are worked off on a warehouse with a free gate** continue the serial execution whose
tables it has. -/
theorem continue_units (noCollisions : NoCollisions) (injective : UuidInjective uuid5)
    (planned : expand uuid5 today spec = .ok units) {db : Database} (good : Good db)
    (gate : db.gate = none) {c : ControlRow} {serial : Database} {entries : List Entry}
    (accepted : acceptAll entries Database.seeded = .ok serial) (isSerial : Serial c serial)
    (free : c.activeRunId = none) (mirrors : Mirrors serial db) {part : List IngestionUnit}
    {progress : Progress String Ledger} (isPart : part <+: units)
    (worked : Resumable.all (·.runId) (acceptUnit source today) part db.progress = .ok progress) :
    ∃ more serial', acceptAll (entries ++ more) Database.seeded = .ok serial' ∧
      serial'.ledger = progress.state ∧
      List.Forall₂ (fun unit entry => ∀ product, Entry.puts product entry =
        unit.puts source today product) (pendingUnits db part) more := by
  have distinct := (expand_distinct noCollisions injective planned).sublist isPart.sublist
  have applied := Resumable.all_pending distinct worked
  have start : db.progress.state = serial.ledger := mirrors.ledger.symm
  have pending := pendingUnits_eq good gate part
  rw [pending, start] at applied
  refine serial_units accepted isSerial free (distinct.sublist List.filter_sublist) ?_ applied
    sampleStart
  intro unit member row at_row same
  rw [← pending] at member
  obtain ⟨row', at_row', committed, outcome⟩ := mirrors.sub row at_row
  refine of_decide_eq_true (List.mem_filter.mp member).2 (((describes_progress _).ids _).mpr ?_)
  exact ⟨row', at_row', (RunRow.outcome_runId outcome).symm.trans same, committed⟩

/-- **The facts after units were worked off**, while the gate is free again: the records of the
pending units were put into those from before. -/
theorem CurrentFacts.worked (noCollisions : NoCollisions) (injective : UuidInjective uuid5)
    (planned : expand uuid5 today spec = .ok units) {db db' : Database} {c c' : ControlRow}
    (good : Good db) (sound : Sound c db) (free : c.activeRunId = none) (good' : Good db')
    (sound' : Sound c' db') (free' : c'.activeRunId = none) {part : List IngestionUnit}
    {progress : Progress String Ledger} (isPart : part <+: units)
    (worked : Resumable.all (·.runId) (acceptUnit source today) part db.progress = .ok progress)
    (ledger : progress.state = db'.ledger) {product : Product} {rows rows' : List HistoryRow}
    (before : CurrentFacts product db rows) (after : CurrentFacts product db' rows') :
    shown (·.logicalKey) (·.contentHash) rows' =
      (pendingUnits db part).foldl
        (fun store unit => putAll store (unit.puts source today product))
        (shown (·.logicalKey) (·.contentHash) rows) := by
  obtain ⟨_, entries, serial, accepted, mirrors⟩ := good.of_seeded sound.seeded
  obtain ⟨c₀, isSerial⟩ := acceptAll_serial accepted
  obtain rfl : c₀ = c := isSerial.sound.seeded.control_unique sound.seeded mirrors.control
  obtain ⟨more, serial', accepted', same, puts⟩ := continue_units noCollisions injective planned good
    (sound.seeded.gate.trans free) accepted isSerial free mirrors isPart worked
  rw [after.shown_ledger noCollisions good' sound' free' accepted' (same.trans ledger),
    before.shown_ledger noCollisions good sound free accepted mirrors.ledger, storeAfter,
    List.foldl_append, foldl_puts puts]
  rfl

/-- **A backfill refreshes the facts.** A single writer invokes a backfill again and again, from a
warehouse at rest, whatever interrupts it. At any moment a fact that is built from the warehouse
shows what it showed at the start, with the records of the source put into it for the units of a
first part of the plan that had not succeeded before, whole unit by whole unit in the order of the
plan. Once an invocation has completed its ingestion loop, these are all units. -/
theorem backfill_refreshes (noCollisions : NoCollisions) (injective : UuidInjective uuid5)
    (reachable : Reachable s) (atRest : AtRest s.world)
    (planned : expand uuid5 today spec = .ok units)
    (run : PipelineRun uuid5 source spec ⟨s, .idle⟩ b) {first last : Analytics}
    (built : AnalyticsReachable first) (rebuilt : AnalyticsReachable last) {product : Product}
    {table table' : FactTable} (at_table : first.facts product = some table)
    (at_table' : last.facts product = some table') (read : table.readPoint = s.world.store)
    (read' : table'.readPoint = b.system.world.store) :
    ∃ done, done <+: units ∧ (b.stage.Ingested → done = units) ∧
      shown (·.logicalKey) (·.contentHash) table'.rows =
        (pendingUnits s.world.store done).foldl
          (fun store unit => putAll store (unit.puts source today product))
          (shown (·.logicalKey) (·.contentHash) table.rows) := by
  have before := (built.refreshed noCollisions at_table).current
  have after := (rebuilt.refreshed noCollisions at_table').current
  rw [read] at before
  rw [read'] at after
  obtain ⟨c, seeded, free⟩ := atRest.free
  have gate := seeded.gate.trans free
  obtain ⟨reachable', future⟩ := reachable.run run.system
  have good := reachable.orderly.good
  have good' := reachable'.orderly.good
  obtain ⟨sound, entries, serial, accepted, mirrors⟩ := good.of_seeded seeded
  obtain ⟨c', isSerial⟩ := acceptAll_serial accepted
  obtain rfl : c' = c := isSerial.sound.seeded.control_unique seeded mirrors.control
  obtain ⟨c'', sound', _⟩ := good'.resolve_left fun created => by
    have still := future.before.seeded (by rw [seeded.control]; exact List.cons_ne_nil _ _)
    rw [created] at still
    exact still rfl
  have converging : Converging source today units s.world.store.progress b :=
    (atRest.converging reachable).run planned run
  by_cases ingested : b.stage.Ingested
  · have finished := converging.finished ingested
    obtain ⟨progress, ledger, worked⟩ := converging.complete finished
    have gate' := converging.gate reachable gate future finished
    refine ⟨units, List.prefix_refl units, fun _ => rfl, ?_⟩
    exact before.worked noCollisions injective planned good sound free good' sound'
      (sound'.seeded.gate.symm.trans gate') (List.prefix_refl units) worked ledger after
  · obtain ⟨progress, describes, part, rest, split, worked⟩ := converging.reached
    have isPart : part <+: units := ⟨rest, split.symm⟩
    -- Some first part of the plan has led to the ledger; its runs continue those of the start.
    obtain ⟨more, serial', accepted', same, puts⟩ := continue_units noCollisions injective planned
      good gate accepted isSerial free mirrors isPart worked
    obtain ⟨n, within, settled⟩ := sound'.settled
    have least := start_settled good gate future accepted isSerial mirrors settled
    -- The run that holds the gate is the last one and is not shown.
    obtain ⟨done, isDone, pending⟩ := List.prefix_filter_iff.mp
      (List.take_prefix (n - entries.length) (pendingUnits s.world.store part))
    refine ⟨done, isDone.trans isPart, fun complete => absurd complete ingested, ?_⟩
    have taken : (entries ++ more).take n = entries ++ more.take (n - entries.length) := by
      rw [List.take_append, List.take_of_length_le least]
    rw [after.shown_settled noCollisions good' sound' settled within accepted'
        (same.trans describes.state),
      before.shown_ledger noCollisions good sound free accepted mirrors.ledger, taken, storeAfter,
      List.foldl_append, foldl_puts (List.forall₂_take _ puts), pending]
    rfl

end Facts

/-! ## A small backfill -/

/-- Run ids with valid ids for the load and the prices of the day in the small backfill. -/
def sampleUuid (id name : String) : String :=
  if id ++ name = sampleRunId ++ ("backfill-unit/v1:" ++ sampleRequest.requestId) then sampleRunId
  else if id ++ name = sampleRunId ++ ("backfill-unit/v1:" ++ samplePriceRequest.requestId) then
    "1123456789abcdef0123456789abcdef"
  else "u" ++ (id ++ name)

theorem sampleUuid_injective : UuidInjective sampleUuid := by
  intro id id' name name' isId isId' same
  have apart : ∀ text : String, sampleRunId ≠ "u" ++ text ∧
      "1123456789abcdef0123456789abcdef" ≠ "u" ++ text := by
    intro text
    constructor <;> intro clash <;> have chars := congrArg String.toList clash <;>
      rw [String.toList_append] at chars <;> cases congrArg List.head? chars
  have different : sampleRunId ≠ "1123456789abcdef0123456789abcdef" := by decide
  have append : ∀ a b : String, "u" ++ a = "u" ++ b → a = b :=
    fun a b => (String.append_right_inj _).mp
  refine uuidInjective_append id id' name name' isId isId' ?_
  unfold sampleUuid at same
  -- Each of the names is one of the two in the backfill, or another one.
  split_ifs at same <;> grind

omit [Platform] in
set_option maxRecDepth 10000 in
/-- A backfill that was interrupted after its commit was submitted, and invoked again, has put the
record of its unit into the facts once. -/
theorem backfill_refreshes_sample :
    letI := Platform.plain
    ∃ (b : Pipeline) (table' : FactTable), b.stage.Ingested ∧
      (WarehouseSystem.builtBoth b.system).facts .load = some table' ∧
      shown (·.logicalKey) (·.contentHash) table'.rows =
        putAll (fun _ => none) [(sampleObservation.logicalKey, sampleObservation.contentHash)] := by
  have planned : letI := Platform.plain
      expand sampleUuid sampleToday sampleBackfill = .ok [sampleUnit] := by rfl
  have finishes : succeeds (@resumedRun Platform.plain).result = true := by rfl
  obtain ⟨result, returned, succeeded⟩ := succeeds_iff.mp finishes
  have run := @invoked_twice Platform.plain _ _ planned _ returned succeeded
  have reachable := @bootstrapped_reachable Platform.plain
  have reachable' := (@Reachable.run Platform.plain _ _ reachable
    (@PipelineRun.system Platform.plain _ _ _ _ _ run)).1
  obtain ⟨table, at_table, read⟩ := WarehouseSystem.builtBoth_facts
    (@bootstrapped Platform.plain) .load
  obtain ⟨table', at_table', read'⟩ := WarehouseSystem.builtBoth_facts
    (@resumed Platform.plain) .load
  obtain ⟨done, _, complete, refreshed⟩ := @backfill_refreshes Platform.plain _ _ _ _ _ _ _
    noCollisions_plain (@sampleUuid_injective Platform.plain) reachable bootstrapped_atRest planned
    run _ _ (@Reachable.builtBoth Platform.plain _ reachable)
    (@Reachable.builtBoth Platform.plain _ reachable') .load _ _ at_table at_table' read read'
  obtain rfl := complete trivial
  refine ⟨⟨@resumed Platform.plain, .ingested [result]⟩, table', trivial, at_table',
    refreshed.trans ?_⟩
  have store := bootstrapped_plain.1
  have nothing : shown (·.logicalKey) (·.contentHash) table.rows = fun _ => none := by
    have current := (@AnalyticsReachable.refreshed Platform.plain noCollisions_plain _
      (@Reachable.builtBoth Platform.plain _ reachable) _ _ at_table).current
    have at_start : table.readPoint = Database.seeded := read.trans store
    rw [at_start] at current
    funext key
    refine shown_eq_none.mpr fun row member => ?_
    obtain ⟨_, _, occurs, _⟩ := current.rows row member
    cases occurs.inTransitions
  have pending : pendingUnits (@bootstrapped Platform.plain).world.store [sampleUnit] =
      [sampleUnit] := by
    rw [store]
    rfl
  have puts : @IngestionUnit.puts Platform.plain (fun _ => [sampleObservation]) sampleToday .load
      sampleUnit = letI := Platform.plain
        [(sampleObservation.logicalKey, sampleObservation.contentHash)] := by rfl
  rw [nothing, pending, List.foldl_cons, List.foldl_nil, puts]

end PowerMarket
