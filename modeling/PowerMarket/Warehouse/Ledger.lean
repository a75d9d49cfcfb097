import PowerMarket.Warehouse.History

/-!
# The ledger of a warehouse

What the tables record apart from manifests and clocks: how many batches were committed, and the
contents and transitions they brought (`Database.ledger`). Accepting the records of a request
writes a plan made on the ledger itself (`Ledger.accept`).

Only a commit changes the ledger of the tables (`Effect.ledger`), and a commit of the plan that the
current snapshot gives changes it as accepting the records does (`accept_committed`). So the ledger
does not show when a run was begun, how often it was tried, or when it was finalized.
-/

set_option autoImplicit false

namespace PowerMarket

open Library

/-- How many batches were committed, and the rows they brought, without clocks. -/
@[ext]
structure Ledger where
  sequence : Nat
  contents : Product → List ContentRow
  transitions : Product → List TransitionRow

/-- The ledger of the tables. -/
def Database.ledger (db : Database) : Ledger where
  sequence := db.sequence
  contents product := (db.contents product).map (·.setClock none)
  transitions product := (db.transitions product).map (·.setClock none)

namespace Ledger

/-- The tables with a ledger, before any run and with a free gate. -/
def tables (ledger : Ledger) : Database where
  control := [⟨1, ledger.sequence, warehouseSchema, none⟩]
  runs := []
  contents := ledger.contents
  transitions := ledger.transitions

/-- Enter the rows of a planned batch. -/
def write (product : Product) (p : CommitParameters) (ledger : Ledger) : Ledger where
  sequence := ledger.sequence + 1
  contents := Function.update ledger.contents product
    (mergeRows (·.contentId) (ledger.contents product) p.contents)
  transitions := Function.update ledger.transitions product
    (mergeRows (·.transitionId) (ledger.transitions product) p.transitions)

/-- Accept the records of a request: plan them on the ledger and enter the plan. -/
def accept [Platform] (runId : String) (request : Request) (records : List Observation)
    (ledger : Ledger) : Except Exn Ledger :=
  (planOn runId request records ledger.tables).map fun plan =>
    ledger.write request.product (commitParameters runId plan)

/-- Records are accepted with the plan that the ledger gives. -/
theorem accept_eq_ok [Platform] {runId : String} {request : Request} {records : List Observation}
    {ledger after : Ledger} : ledger.accept runId request records = .ok after ↔
      ∃ plan, planOn runId request records ledger.tables = .ok plan ∧
        after = ledger.write request.product (commitParameters runId plan) := by
  rw [accept]
  cases planOn runId request records ledger.tables with
  | error e => simp [Except.map]
  | ok plan => simp [Except.map, eq_comm]

end Ledger

/-! ## What changes the ledger -/

theorem ledger_of_clocks {db after : Database} (clocks : ∀ product, SameButClocks product db after)
    (sequence : after.sequence = db.sequence) : after.ledger = db.ledger := by
  refine Ledger.ext sequence (funext fun product => ?_) (funext fun product => ?_)
  · obtain ⟨clock, contents⟩ := (clocks product).contents
    show (after.contents product).map _ = (db.contents product).map _
    rw [contents, List.map_map]
    rfl
  · obtain ⟨clock, transitions⟩ := (clocks product).transitions
    show (after.transitions product).map _ = (db.transitions product).map _
    rw [transitions, List.map_map]
    rfl

/-- **Only a commit changes the ledger.** -/
theorem Effect.ledger {db after : Database} {script : Script} (effect : Effect db script after)
    (other : ∀ product p, script ≠ .commit product p) : after.ledger = db.ledger := by
  cases effect with
  | idle => rfl
  | seeded unseeded =>
      rw [unseeded]
      rfl
  | begun now seeded fresh => rfl
  | committed seeded atRow started current free => exact absurd rfl (other _ _)
  | @finalized c product p row now seeded atRow committed gate =>
      refine ledger_of_clocks (fun product' => finalized_sameButClocks ..) ?_
      rw [seeded.sequence]
      rfl
  | failed now seeded atRow canFail => rfl

theorem mergeRows_map {α : Type} (key : α → String) {change : α → α} {target source : List α}
    (keeps : ∀ x, key (change x) = key x) (fixed : ∀ x ∈ source, change x = x) :
    (mergeRows key target source).map change = mergeRows key (target.map change) source := by
  have keys : (target.map change).map key = target.map key := by
    rw [List.map_map]
    exact List.map_congr_left fun x _ => keeps x
  have kept : ∀ x ∈ source.filter fun row => key row ∉ target.map key, change x = x :=
    fun x member => fixed x (List.mem_filter.mp member).1
  rw [mergeRows, mergeRows, keys, List.map_append, List.map_congr_left kept, List.map_id']

/-- **A commit enters its rows in the ledger.** -/
theorem ledger_committed {db : Database} {c : ControlRow} (seeded : Seeded db c)
    {product : Product} {p : CommitParameters} (planned : WellPlanned p) :
    (committedDatabase product p c db).ledger = db.ledger.write product p := by
  refine Ledger.ext ?_ (funext fun product' => ?_) (funext fun product' => ?_)
  · show c.sequence + 1 = db.sequence + 1
    rw [seeded.sequence]
  · show ((Function.update db.contents product _) product').map _ =
      Function.update db.ledger.contents product _ product'
    by_cases same : product' = product
    · subst same
      rw [Function.update_self, Function.update_self]
      refine mergeRows_map _ (fun _ => rfl) fun content member => ?_
      rw [ContentRow.setClock, ← (planned.contents content member).2]
    · rw [Function.update_of_ne same, Function.update_of_ne same]
      rfl
  · show ((Function.update db.transitions product _) product').map _ =
      Function.update db.ledger.transitions product _ product'
    by_cases same : product' = product
    · subst same
      rw [Function.update_self, Function.update_self]
      refine mergeRows_map _ (fun _ => rfl) fun transition member => ?_
      rw [TransitionRow.setClock, ← (planned.transitions transition member).2.2]
    · rw [Function.update_of_ne same, Function.update_of_ne same]
      rfl

/-! ## Planning on the ledger -/

/-- The greatest element of a list whose elements were changed is the changed greatest element. -/
theorem argmax_map {α β γ : Type} [LinearOrder γ] (value : β → γ) (change : α → β) (items : List α) :
    (items.map change).argmax value = (items.argmax (value ∘ change)).map change := by
  induction items using List.reverseRecOn with
  | nil => rfl
  | append_singleton items item ih =>
      rw [List.map_append, List.map_cons, List.map_nil, List.argmax_concat, List.argmax_concat, ih]
      cases items.argmax (value ∘ change) with
      | none => rfl
      | some best =>
          simp only [Option.map_some, Function.comp_apply]
          split_ifs <;> rfl

theorem latestRows_clocks (rows : List TransitionRow) :
    latestRows (rows.map (·.setClock none)) = latestRows rows := by
  have keys : (rows.map (·.setClock none)).map (·.logicalKey) = rows.map (·.logicalKey) := by
    rw [List.map_map]
    rfl
  unfold latestRows
  rw [keys]
  refine congrArg (fun latest => (rows.map (·.logicalKey)).dedup.filterMap latest)
    (funext fun key => ?_)
  rw [List.filter_map, argmax_map, Option.map_map]
  rfl

/-- **The snapshot of the ledger** is the snapshot of the tables while the gate is free. -/
theorem snapshot_ledger {db : Database} {c : ControlRow} (seeded : Seeded db c)
    (free : c.activeRunId = none) (product : Product) (day : Date) :
    snapshotQuery product day db.ledger.tables = snapshotQuery product day db := by
  have control : controlRows db.ledger.tables = [⟨1, c.sequence, warehouseSchema, none⟩] := by
    rw [← seeded.sequence]
    rfl
  have contents : (db.ledger.tables.contents product).filter (·.marketDate = day) =
      ((db.contents product).filter (·.marketDate = day)).map (·.setClock none) := List.filter_map ..
  have transitions : (db.ledger.tables.transitions product).filter (·.marketDate = day) =
      ((db.transitions product).filter (·.marketDate = day)).map (·.setClock none) :=
    List.filter_map ..
  simp only [snapshotQuery, control, controlRows_of_seeded seeded, contents, transitions,
    latestRows_clocks, List.map_cons, List.map_nil, List.map_map, free, seeded.schema]
  rfl

variable [Platform]

/-- **A plan on the ledger** is the plan on the tables while the gate is free. -/
theorem planOn_ledger {db : Database} {c : ControlRow} (seeded : Seeded db c)
    (free : c.activeRunId = none) (runId : String) (request : Request)
    (records : List Observation) :
    planOn runId request records db.ledger.tables = planOn runId request records db := by
  unfold planOn
  rw [snapshot_ledger seeded free]

/-- **A commit of the current plan** accepts the records of its run. -/
theorem accept_committed {db : Database} {c : ControlRow} (seeded : Seeded db c)
    (free : c.activeRunId = none) {runId : String} {request : Request}
    {records : List Observation} {plan : WritePlan}
    (planned : planOn runId request records db = .ok plan) :
    db.ledger.accept runId request records =
      .ok (committedDatabase request.product (commitParameters runId plan) c db).ledger := by
  obtain ⟨batch, _, rest⟩ := bind_eq_ok.mp planned
  obtain ⟨current, _, written⟩ := bind_eq_ok.mp rest
  rw [ledger_committed seeded (wellPlanned_of_plan written)]
  exact Ledger.accept_eq_ok.mpr ⟨plan, (planOn_ledger seeded free ..).trans planned, rfl⟩

section Serial

variable {c : ControlRow} {serial : Database} {entry : Entry} {batch : List BatchRow}
  {current : Snapshot} {writes : WritePlan}

theorem afterRun_ledger (isSerial : Serial c serial)
    (commits : Commits entry c serial batch current writes) :
    (afterRun entry writes c serial).ledger = (afterCommit entry writes c serial).ledger := by
  refine ledger_of_clocks (fun product => afterRun_sameButClocks ..) ?_
  rw [(afterRun_serial isSerial commits).sound.seeded.sequence,
    (afterCommit_sound isSerial commits).sound.seeded.sequence, afterControl]
  cases entry.finalization <;> rfl

/-- **An executed run** enters what its records give on the ledger. -/
theorem Commits.accepts (isSerial : Serial c serial)
    (commits : Commits entry c serial batch current writes) :
    serial.ledger.accept entry.runId entry.request entry.records =
      .ok (afterRun entry writes c serial).ledger := by
  -- The manifest that is added before the commit is no part of the ledger.
  have sameLedger : (withRun serial entry.row).ledger = serial.ledger := rfl
  have seeded := isSerial.sound.seeded
  have seededRun : Seeded (withRun serial entry.row) c :=
    ⟨seeded.control, seeded.singleton, seeded.schema⟩
  have planned : planOn entry.runId entry.request entry.records (withRun serial entry.row) =
      .ok writes := by
    rw [← planOn_ledger seededRun commits.free, sameLedger, planOn_ledger seeded commits.free]
    simp only [planOn, commits.batched, commits.read, commits.planned, bind, Except.bind]
  rw [afterRun_ledger isSerial commits]
  exact accept_committed seededRun commits.free planned

end Serial

end PowerMarket
