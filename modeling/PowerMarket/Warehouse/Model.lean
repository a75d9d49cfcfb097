import PowerMarket.Domain
import PowerMarket.Library.Sorting

/-!
# Requests, batches and write plans

The decisions of the warehouse that need no cloud: which records a request accepts
(`batchRows`) and which rows a batch adds to a snapshot (`planWrite`). A request carries the
match of product and hub that its constructor checks. `batchRows_spec` says what an accepted
batch is: the rows of the records, in the order of their keys, with different keys, all of
them inside the day of the request.
-/

set_option autoImplicit false

namespace PowerMarket

open Library

def keySchema : String := "observation-key/v1"
def contentSchema : String := "observation-content/v1"
def warehouseSchema : String := "warehouse/v1"
def maxBatchRows : Nat := 300

/-- The two products of the warehouse. -/
inductive Product where
  | lmp
  | load
  deriving DecidableEq

/-- The name of a product in requests, manifests and table names. -/
def Product.text : Product → String
  | .lmp => "lmp"
  | .load => "load"

/-! ## Requests -/

/-- One product and day, with a hub exactly for prices. -/
structure Request where
  product : Product
  day : Date
  location : Option Hub
  supported : location.isSome = true ↔ product = .lmp
  deriving DecidableEq

namespace Request

/-- Check the parts of a request, given the current Pacific date. -/
def create (today : Date) (product : String) (day : Date) (location : Option String) :
    Except Exn Request :=
  if product ≠ "lmp" ∧ product ≠ "load" then
    .error (.new .warehouseError "warehouse product must be lmp or load")
  else if today.ordinal ≤ day.ordinal then
    .error (.new .warehouseError "request must be a completed Pacific day")
  else if product = "lmp" then
    match [Hub.np15, Hub.sp15, Hub.zp26].find? fun hub => location = some hub.text with
    | some hub => .ok ⟨.lmp, day, some hub, by simp⟩
    | none => .error (.new .warehouseError "LMP requires a supported trading hub")
  else if location.isSome then
    .error (.new .warehouseError "system load does not have a requested hub")
  else .ok ⟨.load, day, none, by simp⟩

/-- **A request of a completed day has the parts that it was made from.** -/
theorem create_eq_ok {today day : Date} {product : String} {location : Option String}
    {request : Request} : create today product day location = .ok request ↔
      day.ordinal < today.ordinal ∧ request.day = day ∧ request.product.text = product ∧
        request.location.map Hub.text = location := by
  constructor
  · intro created
    unfold create at created
    split_ifs at created with _ future isLmp
    · cases found : [Hub.np15, Hub.sp15, Hub.zp26].find? fun hub => location = some hub.text with
      | none =>
          rw [found] at created
          cases created
      | some hub =>
          rw [found] at created
          cases created
          have same := List.find?_some found
          rw [decide_eq_true_eq] at same
          exact ⟨not_le.mp future, rfl, isLmp.symm, same.symm⟩
    · cases created
      have isLoad : product = "load" := by tauto
      have noHub : location = none := by simpa using ‹¬location.isSome = true›
      exact ⟨not_le.mp future, rfl, isLoad.symm, noHub.symm⟩
  · rintro ⟨completed, rfl, rfl, rfl⟩
    obtain ⟨product, day, location, supported⟩ := request
    have known : ¬ (product.text ≠ "lmp" ∧ product.text ≠ "load") := by cases product <;> decide
    dsimp only at completed ⊢
    unfold create
    rw [if_neg known, if_neg (not_le.mpr completed)]
    cases product with
    | lmp =>
        rw [if_pos (show Product.lmp.text = "lmp" from rfl)]
        cases location with
        | none => exact absurd (supported.mpr rfl) (by decide)
        | some hub => cases hub <;> rfl
    | load =>
        rw [if_neg (show ¬ Product.load.text = "lmp" by decide)]
        cases location with
        | none => rfl
        | some hub => exact absurd (supported.mp rfl) (by decide)

/-- The first instant of the Pacific day. -/
def start [Platform] (request : Request) : Int :=
  Platform.pacific.midnight dayMicros request.day.ordinal

/-- The first instant of the next Pacific day. -/
def stop [Platform] (request : Request) : Int :=
  Platform.pacific.midnight dayMicros (request.day.ordinal + 1)

/-- The digest of what is requested. -/
def requestId [Platform] (request : Request) : String :=
  digest "bounded-request/v1"
    [("source", "CAISO"), ("product", request.product.text), ("date", request.day.text),
      ("location", (request.location.map Hub.text).getD "")]

/-- **The request id determines the product.** -/
theorem requestId_product [Platform] (noCollisions : NoCollisions) {request request' : Request}
    (same : request.requestId = request'.requestId) : request.product = request'.product := by
  have entries := digest_perm noCollisions (by simp) (by simp) same
  have texts : request.product.text = request'.product.text :=
    value_eq_of_perm "product" entries (by simp) (by simp) (by simp)
  cases first : request.product <;> cases second : request'.product <;>
    simp_all [Product.text]

end Request

/-! ## Run ids -/

/-- The characters of a run id. -/
def hexDigits : List Char := "0123456789abcdef".toList

/-- A run id is the 32 lowercase hexadecimal characters of a UUID, which is when the UUID it
reads as has it as its text. -/
def isRunId (runId : String) : Bool :=
  runId.toList.length = 32 && runId.toList.all fun c => c ∈ hexDigits

theorem isRunId_length {runId : String} (valid : isRunId runId = true) :
    runId.toList.length = 32 := by
  simp only [isRunId, Bool.and_eq_true, decide_eq_true_eq] at valid
  exact valid.1

def validateRunId (runId : String) : Except Exn String :=
  if isRunId runId then .ok runId
  else .error
    (.new .warehouseError "run ID must be a UUID's 32 lowercase hexadecimal characters")

@[simp] theorem validateRunId_ok {runId : String} (valid : isRunId runId = true) :
    validateRunId runId = .ok runId := by
  simp [validateRunId, valid]

/-! ## Rows -/

/-- The measured values of a row, with the fields that only its product has. -/
inductive Values where
  | lmp (market location : String) (lmp energy congestion loss : Decimal)
  | load (area : String) (load : Decimal)
  deriving DecidableEq

/-- A record as a row, before it belongs to a run. -/
structure BatchRow where
  contentId : String
  logicalKey : String
  contentHash : String
  logicalKeySchema : String
  contentHashSchema : String
  source : String
  product : String
  sourceDataset : String
  marketDate : Date
  intervalStartUtc : UtcTime
  intervalEndUtc : UtcTime
  unit : String
  retrievedAtUtc : UtcTime
  sourceUrl : String
  sourceMethod : String
  libraryVersion : String
  values : Values
  deriving DecidableEq

/-- A row of a contents table. -/
structure ContentRow extends BatchRow where
  firstRunId : String
  firstSeenAt : Option UtcTime
  deriving DecidableEq

/-- A row of a transitions table. -/
structure TransitionRow where
  transitionId : String
  runId : String
  logicalKey : String
  contentId : String
  contentHash : String
  logicalKeySchema : String
  contentHashSchema : String
  marketDate : Date
  intervalStartUtc : UtcTime
  ordinal : Nat
  commitSequence : Nat
  knownAt : Option UtcTime
  retrievedAtUtc : UtcTime
  deriving DecidableEq

/-- The digest of a content together with its key. -/
def contentId [Platform] (record : Observation) : String :=
  digest "warehouse-content/v1"
    [("logical_key", record.logicalKey), ("content_hash", record.contentHash),
      ("logical_key_schema", keySchema), ("content_hash_schema", contentSchema)]

/-- Reject decimals that the column type would overflow or round. -/
def numeric (value : Decimal) : Except Exn Decimal :=
  let text := (decimalChars value).dropWhile (· == '-')
  let whole := text.takeWhile (· ≠ '.')
  let fraction := (text.dropWhile (· ≠ '.')).drop 1
  if 29 < (whole.dropWhile (· == '0')).length ∨ 9 < fraction.length then
    .error (.new .warehouseError
      "source decimal cannot be stored exactly as BigQuery NUMERIC(38,9)")
  else .ok value

/-- A decimal that the column type holds. -/
def Storable (value : Decimal) : Prop := numeric value = .ok value

theorem numeric_eq_ok {value result : Decimal} (checked : numeric value = .ok result) :
    result = value := by
  unfold numeric at checked
  dsimp only at checked
  split_ifs at checked
  exact (Except.ok.inj checked).symm

theorem numeric_checked {value : Decimal} :
    ((numeric value).map fun _ => ()) = .ok () ↔ Storable value := by
  rw [Storable]
  cases checked : numeric value with
  | error e =>
      exact ⟨fun impossible => (by cases impossible), fun impossible => (by cases impossible)⟩
  | ok result =>
      rw [numeric_eq_ok checked]
      exact ⟨fun _ => rfl, fun _ => rfl⟩

/-! ## Batches -/

section Batches

variable [Platform]

/-- The measured values of a record. -/
def valuesOf : Observation → Values
  | .lmp record => .lmp "DAY_AHEAD_HOURLY" record.location.text record.lmp record.energy
      record.congestion record.loss
  | .load record => .load "CAISO" record.load

/-- The decimals of a record, which must fit the column type. -/
def decimalsOf : Observation → List Decimal
  | .lmp record => [record.lmp, record.energy, record.congestion, record.loss]
  | .load record => [record.load]

/-- The row of a record accepted for a request. -/
def rowOf (request : Request) (record : Observation) : BatchRow where
  contentId := contentId record
  logicalKey := record.logicalKey
  contentHash := record.contentHash
  logicalKeySchema := keySchema
  contentHashSchema := contentSchema
  source := record.source
  product := record.product
  sourceDataset := record.sourceDataset
  marketDate := request.day
  intervalStartUtc := record.intervalStartUtc
  intervalEndUtc := record.intervalEndUtc
  unit := record.unit
  retrievedAtUtc := record.provenance.retrievedAtUtc
  sourceUrl := record.provenance.sourceUrl
  sourceMethod := record.provenance.sourceMethod
  libraryVersion := record.provenance.libraryVersion
  values := valuesOf record

/-- Whether the hub of a price is another one than requested. -/
def outsideHub (request : Request) : Observation → Bool
  | .lmp record => request.location ≠ some record.location
  | .load _ => false

/-- Check the records one after another, with the keys seen so far. -/
def collectRows (request : Request) : List String → List Observation →
    Except Exn (List BatchRow)
  | _, [] => .ok []
  | seen, record :: records =>
    if record.isLmp ≠ (request.product = .lmp) then
      .error (.new .warehouseError "observation product differs from request")
    else if ¬ (request.start ≤ record.intervalStartUtc.micros ∧
        record.intervalStartUtc.micros < request.stop) ∨
        request.stop < record.intervalEndUtc.micros then
      .error (.new .warehouseError "observation lies outside the bounded Pacific day")
    else if outsideHub request record then
      .error (.new .warehouseError "observation lies outside the requested hub")
    else if record.logicalKey ∈ seen then
      .error (.new .warehouseError "duplicate logical key in batch")
    else do
      (decimalsOf record).forM fun value => (numeric value).map fun _ => ()
      let rows ← collectRows request (record.logicalKey :: seen) records
      return rowOf request record :: rows

/-- The rows of a batch in the order of their keys. -/
def batchRows (request : Request) (records : List Observation) : Except Exn (List BatchRow) :=
  if maxBatchRows < records.length then
    .error (.new .warehouseError "batch exceeds the 300-observation daily safety limit")
  else do
    let rows ← collectRows request [] records
    return rows.insertionSort fun a b => a.logicalKey ≤ b.logicalKey

/-- What the checks of a batch establish about a record. -/
structure Admissible (request : Request) (record : Observation) : Prop where
  product : record.isLmp = true ↔ request.product = .lmp
  start_le : request.start ≤ record.intervalStartUtc.micros
  start_lt : record.intervalStartUtc.micros < request.stop
  stop_le : record.intervalEndUtc.micros ≤ request.stop
  hub : outsideHub request record = false

/-- What an accepted batch is. -/
structure Accepted (request : Request) (records : List Observation) (rows : List BatchRow) :
    Prop where
  perm : rows.Perm (records.map (rowOf request))
  few : records.length ≤ maxBatchRows
  admissible : ∀ record ∈ records, Admissible request record
  distinct : (rows.map (·.logicalKey)).Nodup

/-- **What the checks of a batch accept.** -/
theorem collectRows_eq_ok {request : Request} {records : List Observation} {seen : List String}
    {rows : List BatchRow} : collectRows request seen records = .ok rows ↔
    rows = records.map (rowOf request) ∧
      (∀ record ∈ records,
        Admissible request record ∧ ∀ value ∈ decimalsOf record, Storable value) ∧
      (records.map Observation.logicalKey).Nodup ∧
      ∀ record ∈ records, record.logicalKey ∉ seen := by
  induction records generalizing seen rows with
  | nil =>
      rw [collectRows]
      constructor
      · intro same
        obtain rfl := Except.ok.inj same
        simp
      · rintro ⟨rfl, _⟩
        rfl
  | cons record records ih =>
      have here : Admissible request record ↔ ¬ record.isLmp ≠ (request.product = .lmp) ∧
          ¬ (¬ (request.start ≤ record.intervalStartUtc.micros ∧
            record.intervalStartUtc.micros < request.stop) ∨
              request.stop < record.intervalEndUtc.micros) ∧ ¬ outsideHub request record := by
        constructor
        · intro fits
          refine ⟨not_not.mpr (propext fits.product), ?_, by simp [fits.hub]⟩
          push Not
          exact ⟨⟨fits.start_le, fits.start_lt⟩, fits.stop_le⟩
        · rintro ⟨product, bounds, hub⟩
          push Not at bounds
          exact ⟨iff_of_eq (not_not.mp product), bounds.1.1, bounds.1.2, bounds.2,
            by simpa using hub⟩
      rw [collectRows]
      constructor
      · intro collected
        split_ifs at collected with product bounds hub known
        obtain ⟨_, checked, collected⟩ := bind_eq_ok.mp collected
        obtain ⟨later, rest, same⟩ := bind_eq_ok.mp collected
        obtain rfl := Except.ok.inj same
        obtain ⟨rfl, each, distinct, unseen⟩ := ih.mp rest
        refine ⟨rfl, List.forall_mem_cons.mpr ⟨⟨here.mpr ⟨product, bounds, hub⟩, fun value member =>
          numeric_checked.mp (forM_eq_ok.mp checked value member)⟩, each⟩, ?_, ?_⟩
        · refine List.nodup_cons.mpr ⟨fun member => ?_, distinct⟩
          obtain ⟨other, inRest, same⟩ := List.mem_map.mp member
          exact unseen other inRest (same ▸ List.mem_cons_self)
        · exact List.forall_mem_cons.mpr ⟨known, fun other inRest member =>
            unseen other inRest (List.mem_cons_of_mem _ member)⟩
      · rintro ⟨rfl, each, distinct, unseen⟩
        obtain ⟨⟨first, storable⟩, each⟩ := List.forall_mem_cons.mp each
        obtain ⟨known, unseen⟩ := List.forall_mem_cons.mp unseen
        obtain ⟨fresh, distinct⟩ := List.nodup_cons.mp distinct
        obtain ⟨product, bounds, hub⟩ := here.mp first
        rw [if_neg product, if_neg bounds, if_neg hub, if_neg known, bind_eq_ok]
        refine ⟨(), forM_eq_ok.mpr fun value member => numeric_checked.mpr (storable value member),
          bind_eq_ok.mpr ⟨_, ih.mpr ⟨rfl, each, distinct, fun other inRest member => ?_⟩, rfl⟩⟩
        rcases List.mem_cons.mp member with same | seen
        · exact fresh (List.mem_map.mpr ⟨other, inRest, same⟩)
        · exact unseen other inRest seen

/-- **When a batch is accepted**: few records with different keys, each of them admissible and with
decimals that can be stored. -/
theorem batchRows_eq_ok {request : Request} {records : List Observation} {rows : List BatchRow} :
    batchRows request records = .ok rows ↔
    rows = sortOn BatchRow.logicalKey (records.map (rowOf request)) ∧
      records.length ≤ maxBatchRows ∧
      (∀ record ∈ records,
        Admissible request record ∧ ∀ value ∈ decimalsOf record, Storable value) ∧
      (records.map Observation.logicalKey).Nodup := by
  rw [batchRows]
  constructor
  · intro batched
    split_ifs at batched with many
    obtain ⟨unsorted, collected, same⟩ := bind_eq_ok.mp batched
    obtain ⟨rfl, each, distinct, _⟩ := collectRows_eq_ok.mp collected
    exact ⟨(Except.ok.inj same).symm, Nat.le_of_not_lt many, each, distinct⟩
  · rintro ⟨rfl, few, each, distinct⟩
    rw [if_neg (Nat.not_lt.mpr few), bind_eq_ok]
    exact ⟨_, collectRows_eq_ok.mpr
      ⟨rfl, each, distinct, fun _ _ impossible => (by cases impossible)⟩, rfl⟩

/-- **An accepted batch** holds the rows of its records, which lie inside the requested day and
have different keys. -/
theorem batchRows_spec {request : Request} {records : List Observation} {rows : List BatchRow}
    (batched : batchRows request records = .ok rows) : Accepted request records rows := by
  obtain ⟨rfl, few, each, distinct⟩ := batchRows_eq_ok.mp batched
  have perm := sortOn_perm BatchRow.logicalKey (records.map (rowOf request))
  refine ⟨perm, few, fun record member => (each record member).1, ?_⟩
  refine (perm.map _).nodup_iff.mpr ?_
  rw [List.map_map]
  exact distinct

end Batches

/-! ## Write plans -/

/-- The current content of a key and its place in the revision history. -/
structure Latest where
  contentHash : String
  ordinal : Nat
  deriving DecidableEq

/-- What a write plan depends on: the control sequence, the content ids of the day and the
latest transition of each key of the day. -/
structure Snapshot where
  sequence : Nat
  contents : List String
  latest : List (String × Latest)
  deriving DecidableEq

/-- The rows to insert and the expected control sequence. -/
structure WritePlan where
  contents : List ContentRow
  transitions : List TransitionRow
  batchHash : String
  accepted : Nat
  expectedSequence : Nat
  deriving DecidableEq

/-- The content row that a batch row adds, unless its content is known. -/
def newContent (runId : String) (snapshot : Snapshot) (row : BatchRow) : Option ContentRow :=
  if row.contentId ∈ snapshot.contents then none
  else some { row with firstRunId := runId, firstSeenAt := none }

/-- What a planned content row is. -/
theorem newContent_eq_some {runId : String} {current : Snapshot} {row : BatchRow}
    {content : ContentRow} :
    newContent runId current row = some content ↔
      row.contentId ∉ current.contents ∧
        content = { row with firstRunId := runId, firstSeenAt := none } := by
  unfold newContent
  split_ifs with known <;> simp [known, eq_comm]

/-- The ordinal of the transition that a batch row adds, if its content is not the latest. -/
def nextOrdinal (snapshot : Snapshot) (row : BatchRow) : Option Nat :=
  match snapshot.latest.lookup row.logicalKey with
  | none => some 1
  | some latest => if latest.contentHash ≠ row.contentHash then some (latest.ordinal + 1) else none

section Plans

variable [Platform]

/-- The transition of a run to the content of a batch row. -/
def transitionOf (runId : String) (sequence : Nat) (row : BatchRow) (ordinal : Nat) :
    TransitionRow where
  transitionId := digest "state-transition/v1" [("run_id", runId), ("key", row.logicalKey)]
  runId := runId
  logicalKey := row.logicalKey
  contentId := row.contentId
  contentHash := row.contentHash
  logicalKeySchema := keySchema
  contentHashSchema := contentSchema
  marketDate := row.marketDate
  intervalStartUtc := row.intervalStartUtc
  ordinal := ordinal
  commitSequence := sequence + 1
  knownAt := none
  retrievedAtUtc := row.retrievedAtUtc

/-- The transition row that a batch row adds. -/
def newTransition (runId : String) (snapshot : Snapshot) (row : BatchRow) :
    Option TransitionRow :=
  (nextOrdinal snapshot row).map (transitionOf runId snapshot.sequence row)

/-- What a planned transition row is. -/
theorem newTransition_eq_some {runId : String} {current : Snapshot} {row : BatchRow}
    {transition : TransitionRow} :
    newTransition runId current row = some transition ↔
      ∃ ordinal, nextOrdinal current row = some ordinal ∧
        transition = transitionOf runId current.sequence row ordinal := by
  simp [newTransition, eq_comm]

/-- The digest of the hashes of a batch by key. -/
def batchHash (rows : List BatchRow) : String :=
  digest "batch-content/v1" (rows.foldl (fun entries row =>
    dictSet entries row.logicalKey row.contentHash) [])

/-- Only a material change creates a transition; a reappearance reuses its content. -/
def planWrite (runId : String) (rows : List BatchRow) (snapshot : Snapshot) :
    Except Exn WritePlan := do
  let _ ← validateRunId runId
  return {
    contents := rows.filterMap (newContent runId snapshot)
    transitions := rows.filterMap (newTransition runId snapshot)
    batchHash := batchHash rows
    accepted := rows.length
    expectedSequence := snapshot.sequence }

/-- What `planWrite` returns. -/
theorem planWrite_eq {runId : String} {batch : List BatchRow} {current : Snapshot}
    {plan : WritePlan} (planned : planWrite runId batch current = .ok plan) :
    isRunId runId = true ∧ plan =
      ⟨batch.filterMap (newContent runId current), batch.filterMap (newTransition runId current),
        batchHash batch, batch.length, current.sequence⟩ := by
  unfold planWrite validateRunId at planned
  split_ifs at planned with valid
  · cases planned
    exact ⟨valid, rfl⟩
  · cases planned

end Plans

/-! ## A small batch -/

/-- A day with one load observation. -/
def sampleRequest : Request := ⟨.load, ⟨738000, by decide, by decide⟩, none, by decide⟩

/-- The day after it. -/
def sampleNextDay : Date := ⟨738001, by decide, by decide⟩

/-- The first instant of the day, eight hours behind universal time. -/
def sampleStart : UtcTime := ⟨738000 * dayMicros + 28800000000, by decide, by decide⟩

/-- The end of the first five minutes of the day. -/
def sampleStop : UtcTime := ⟨738000 * dayMicros + 29100000000, by decide, by decide⟩

/-- The load of the first five minutes of the day. -/
def sampleObservation : Observation :=
  .load ⟨⟨sampleStart, sampleStop, by decide, by decide⟩, ⟨false, 25000, 0⟩, rfl,
    ⟨sampleStop, "https://www.caiso.com/outlook", "csv", "0.30.0", by decide⟩⟩

/-- A revision of that load. -/
def sampleRevision : Observation :=
  .load ⟨⟨sampleStart, sampleStop, by decide, by decide⟩, ⟨false, 26000, 0⟩, rfl,
    ⟨sampleStop, "https://www.caiso.com/outlook", "csv", "0.30.0", by decide⟩⟩

/-- The load of the next five minutes. -/
def sampleSuccessor : Observation :=
  .load ⟨⟨sampleStop, ⟨738000 * dayMicros + 29400000000, by decide, by decide⟩, by decide,
      by decide⟩, ⟨false, 25500, 0⟩, rfl,
    ⟨sampleStop, "https://www.caiso.com/outlook", "csv", "0.30.0", by decide⟩⟩

/-- The prices of the same day for one hub. -/
def samplePriceRequest : Request := ⟨.lmp, sampleRequest.day, some .np15, by decide⟩

/-- The end of the first hour of the day. -/
def sampleHourEnd : UtcTime := ⟨738000 * dayMicros + 32400000000, by decide, by decide⟩

/-- The price of the first hour of the day. -/
def samplePrice : Observation :=
  .lmp ⟨.np15, ⟨sampleStart, sampleHourEnd, by decide, by decide⟩, ⟨false, 4200, -2⟩,
    ⟨false, 40, 0⟩, ⟨false, 1, 0⟩, ⟨false, 1, 0⟩,
    ⟨sampleStop, "https://oasis.caiso.com", "zip", "0.30.0", by decide⟩⟩

def sampleRunId : String := "0123456789abcdef0123456789abcdef"

end PowerMarket
