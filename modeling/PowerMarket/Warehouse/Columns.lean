import PowerMarket.Identities
import PowerMarket.Warehouse.Numeric
import PowerMarket.Warehouse.Schema

/-!
# Rows as columns

A row of the client is a map from column names to values: the encoded fields of a record, some of
them overwritten by typed values. It is narrowed to the declared columns of its table and stored,
where decimals keep their value but not their text. `stored_rows_rederive` says that the stored
columns of an accepted record make up an observation with the stored identities, and that no
required column is missing.
-/

set_option autoImplicit false

namespace PowerMarket

open Library DecimalText

/-! ## Exact decimals -/

/-- A column of decimals: values of the type keep their value, though not their text. -/
structure NumericColumn where
  store : Decimal → Decimal
  exact : ∀ d : Decimal, Representable d.value → (store d).value = d.value

/-! ## Rows -/

/-- A value of a row. -/
inductive Value where
  | null
  | text (text : String)
  | integer (n : Nat)
  | date (date : Date)
  | time (time : UtcTime)
  | decimal (decimal : Decimal)
  deriving DecidableEq

/-- A map from column names to values that keeps its insertion order. -/
abbrev Row := List (String × Value)

namespace Row

/-- The value under a name. -/
def get (row : Row) (name : String) : Value := (row.lookup name).getD .null

/-- Set the value under a name. -/
def set (row : Row) (name : String) (value : Value) : Row :=
  if (row.lookup name).isSome then
    row.map fun entry => if entry.1 = name then (name, value) else entry
  else row ++ [(name, value)]

/-- Set several values, one after another. -/
def update (row entries : Row) : Row :=
  entries.foldl (fun row entry => row.set entry.1 entry.2) row

end Row

/-- The declared columns of a row, by name. -/
def struct (fields : List Field) (row : Row) : Row :=
  fields.map fun field => (field.name, row.get field.name)

/-- Storing a value keeps texts, dates and instants. -/
def Value.store (column : NumericColumn) : Value → Value
  | .decimal d => .decimal (column.store d)
  | value => value

/-- A row as it is stored in a table. -/
def stored (column : NumericColumn) (fields : List Field) (row : Row) : Row :=
  (struct fields row).map fun entry => (entry.1, entry.2.store column)

section Rows

variable [Platform]

/-- The decimal columns of a record. -/
def decimalColumns : Observation → List (String × Decimal)
  | .lmp record => [("lmp", record.lmp), ("energy", record.energy),
      ("congestion", record.congestion), ("loss", record.loss)]
  | .load record => [("load", record.load)]

/-- The row of a record: its encoded content, partly overwritten by typed values. -/
def recordRow (request : Request) (record : Observation) : Row :=
  (Row.update (record.contentFields.map fun field => (field.1, .text field.2))
    [("content_id", .text (contentId record)),
      ("logical_key", .text record.logicalKey),
      ("content_hash", .text record.contentHash),
      ("logical_key_schema", .text keySchema),
      ("content_hash_schema", .text contentSchema),
      ("market_date", .date request.day),
      ("interval_start_utc", .time record.intervalStartUtc),
      ("interval_end_utc", .time record.intervalEndUtc),
      ("retrieved_at_utc", .time record.provenance.retrievedAtUtc),
      ("source_url", .text record.provenance.sourceUrl),
      ("source_method", .text record.provenance.sourceMethod),
      ("library_version", .text record.provenance.libraryVersion),
      ("source_dataset", .text record.sourceDataset)]).update
    ((decimalColumns record).map fun column => (column.1, .decimal column.2))

/-- The planned content row of a run. -/
def contentRow (runId : String) (row : Row) : Row :=
  row.update [("first_run_id", .text runId), ("first_seen_at", .null)]

/-- The planned transition row of a run. -/
def transitionRow (runId : String) (sequence ordinal : Nat) (row : Row) (key hash : String) : Row :=
  [("transition_id", .text (digest "state-transition/v1" [("run_id", runId), ("key", key)])),
    ("run_id", .text runId),
    ("logical_key", .text key),
    ("content_id", row.get "content_id"),
    ("content_hash", .text hash),
    ("logical_key_schema", .text keySchema),
    ("content_hash_schema", .text contentSchema),
    ("market_date", row.get "market_date"),
    ("interval_start_utc", row.get "interval_start_utc"),
    ("ordinal", .integer ordinal),
    ("commit_sequence", .integer (sequence + 1)),
    ("known_at", .null),
    ("retrieved_at_utc", row.get "retrieved_at_utc")]

end Rows

/-- An instant that may be missing. -/
def Value.ofTime : Option UtcTime → Value
  | some t => .time t
  | none => .null

/-- The values that only one product has. -/
def Values.columns : Values → Row
  | .lmp market location price energy congestion loss => [("market", .text market),
      ("location", .text location), ("lmp", .decimal price), ("energy", .decimal energy),
      ("congestion", .decimal congestion), ("loss", .decimal loss)]
  | .load area demand => [("area", .text area), ("load", .decimal demand)]

/-- A row of a contents table, column by column. -/
def ContentRow.columns (content : ContentRow) : Row :=
  [("content_id", .text content.contentId),
    ("logical_key", .text content.logicalKey),
    ("content_hash", .text content.contentHash),
    ("logical_key_schema", .text content.logicalKeySchema),
    ("content_hash_schema", .text content.contentHashSchema),
    ("source", .text content.source),
    ("product", .text content.product),
    ("source_dataset", .text content.sourceDataset),
    ("market_date", .date content.marketDate),
    ("interval_start_utc", .time content.intervalStartUtc),
    ("interval_end_utc", .time content.intervalEndUtc),
    ("unit", .text content.unit),
    ("retrieved_at_utc", .time content.retrievedAtUtc),
    ("source_url", .text content.sourceUrl),
    ("source_method", .text content.sourceMethod),
    ("library_version", .text content.libraryVersion),
    ("first_run_id", .text content.firstRunId),
    ("first_seen_at", .ofTime content.firstSeenAt)] ++ content.values.columns

/-- A row of a transitions table, column by column. -/
def TransitionRow.columns (transition : TransitionRow) : Row :=
  [("transition_id", .text transition.transitionId),
    ("run_id", .text transition.runId),
    ("logical_key", .text transition.logicalKey),
    ("content_id", .text transition.contentId),
    ("content_hash", .text transition.contentHash),
    ("logical_key_schema", .text transition.logicalKeySchema),
    ("content_hash_schema", .text transition.contentHashSchema),
    ("market_date", .date transition.marketDate),
    ("interval_start_utc", .time transition.intervalStartUtc),
    ("ordinal", .integer transition.ordinal),
    ("commit_sequence", .integer transition.commitSequence),
    ("retrieved_at_utc", .time transition.retrievedAtUtc),
    ("known_at", .ofTime transition.knownAt)]

section Narrowing

variable [Platform]

/-- The overwritten row of a load record. -/
theorem recordRow_load (request : Request) (record : LoadObservation) :
    recordRow request (.load record) =
      [("source", .text "CAISO"), ("product", .text "system_load_5min"), ("area", .text "CAISO"),
        ("interval_start_utc", .time record.interval.start),
        ("interval_end_utc", .time record.interval.stop),
        ("unit", .text "MW"), ("load", .decimal record.load),
        ("content_id", .text (contentId (.load record))),
        ("logical_key", .text (Observation.logicalKey (.load record))),
        ("content_hash", .text (Observation.contentHash (.load record))),
        ("logical_key_schema", .text keySchema), ("content_hash_schema", .text contentSchema),
        ("market_date", .date request.day),
        ("retrieved_at_utc", .time record.provenance.retrievedAtUtc),
        ("source_url", .text record.provenance.sourceUrl),
        ("source_method", .text record.provenance.sourceMethod),
        ("library_version", .text record.provenance.libraryVersion),
        ("source_dataset", .text "todays_outlook_demand")] := by
  simp [recordRow, Row.update, Row.set, Observation.contentFields, Observation.identityFields,
    decimalColumns, List.lookup_cons, Observation.intervalStartUtc, Observation.intervalEndUtc,
    Observation.provenance, Observation.sourceDataset]

/-- The overwritten row of a price record. -/
theorem recordRow_lmp (request : Request) (record : LmpObservation) :
    recordRow request (.lmp record) =
      [("source", .text "CAISO"), ("product", .text "day_ahead_hourly_lmp"),
        ("market", .text "DAY_AHEAD_HOURLY"), ("location", .text record.location.text),
        ("interval_start_utc", .time record.interval.start),
        ("interval_end_utc", .time record.interval.stop),
        ("unit", .text "USD/MWh"), ("lmp", .decimal record.lmp),
        ("energy", .decimal record.energy), ("congestion", .decimal record.congestion),
        ("loss", .decimal record.loss),
        ("content_id", .text (contentId (.lmp record))),
        ("logical_key", .text (Observation.logicalKey (.lmp record))),
        ("content_hash", .text (Observation.contentHash (.lmp record))),
        ("logical_key_schema", .text keySchema), ("content_hash_schema", .text contentSchema),
        ("market_date", .date request.day),
        ("retrieved_at_utc", .time record.provenance.retrievedAtUtc),
        ("source_url", .text record.provenance.sourceUrl),
        ("source_method", .text record.provenance.sourceMethod),
        ("library_version", .text record.provenance.libraryVersion),
        ("source_dataset", .text "PRC_LMP")] := by
  simp [recordRow, Row.update, Row.set, Observation.contentFields, Observation.identityFields,
    decimalColumns, List.lookup_cons, Observation.intervalStartUtc, Observation.intervalEndUtc,
    Observation.provenance, Observation.sourceDataset]

/-- **Narrowing a planned content row** to the columns of its table leaves exactly the planned
row. -/
theorem struct_contentRow {request : Request} {record : Observation}
    (product : record.isLmp = true ↔ request.product = .lmp) (runId : String) :
    struct (contentsFields request.product) (contentRow runId (recordRow request record)) =
      ContentRow.columns { rowOf request record with firstRunId := runId, firstSeenAt := none } := by
  cases record with
  | lmp record =>
      have lmp : request.product = .lmp := product.mp rfl
      rw [recordRow_lmp, lmp]
      simp [struct, contentsFields, common, required, nullable, contentRow, Row.update, Row.set,
        Row.get, List.lookup_cons, ContentRow.columns, Values.columns, rowOf, valuesOf, Value.ofTime,
        Observation.source, Observation.product, Observation.sourceDataset, Observation.unit,
        Observation.intervalStartUtc, Observation.intervalEndUtc, Observation.provenance]
  | load record =>
      have load : request.product = .load := by
        cases same : request.product with
        | lmp => exact absurd (product.mpr same) (by simp [Observation.isLmp])
        | load => rfl
      rw [recordRow_load, load]
      simp [struct, contentsFields, common, required, nullable, contentRow, Row.update, Row.set,
        Row.get, List.lookup_cons, ContentRow.columns, Values.columns, rowOf, valuesOf, Value.ofTime,
        Observation.source, Observation.product, Observation.sourceDataset, Observation.unit,
        Observation.intervalStartUtc, Observation.intervalEndUtc, Observation.provenance]

/-- **Narrowing a planned transition row** leaves exactly the planned row. -/
theorem struct_transitionRow (request : Request) (record : Observation) (runId : String)
    (sequence ordinal : Nat) :
    struct transitionFields (transitionRow runId sequence ordinal (recordRow request record)
        record.logicalKey record.contentHash) =
      (transitionOf runId sequence (rowOf request record) ordinal).columns := by
  cases record with
  | lmp record =>
      rw [recordRow_lmp]
      simp [struct, transitionFields, required, nullable, transitionRow, Row.get, List.lookup_cons,
        TransitionRow.columns, transitionOf, rowOf, Value.ofTime, Observation.intervalStartUtc,
        Observation.provenance]
  | load record =>
      rw [recordRow_load]
      simp [struct, transitionFields, required, nullable, transitionRow, Row.get, List.lookup_cons,
        TransitionRow.columns, transitionOf, rowOf, Value.ofTime, Observation.intervalStartUtc,
        Observation.provenance]

end Narrowing

/-! ## Observations from stored rows -/

/-- An interval between two instants that has the length and the alignment of its product. -/
def Interval.ofBounds (seconds : Nat) (start stop : UtcTime) : Option (Interval seconds) :=
  if fits : stop.micros = start.micros + seconds * 1000000 ∧
      start.micros % (seconds * 1000000) = 0 then
    some ⟨start, stop, fits.1, fits.2⟩
  else none

@[simp] theorem Interval.ofBounds_self {seconds : Nat} (interval : Interval seconds) :
    Interval.ofBounds seconds interval.start interval.stop = some interval := by
  rw [ofBounds, dif_pos ⟨interval.length, interval.aligned⟩]

/-- The hub of a name. -/
def Hub.ofText (text : String) : Option Hub :=
  [Hub.np15, Hub.sp15, Hub.zp26].find? fun hub => hub.text = text

@[simp] theorem Hub.ofText_text (hub : Hub) : Hub.ofText hub.text = some hub := by
  cases hub <;> decide

theorem Hub.ofText_eq_some {text : String} {hub : Hub} :
    Hub.ofText text = some hub ↔ text = hub.text := by
  constructor
  · intro found
    have same := List.find?_some found
    exact (of_decide_eq_true same).symm
  · rintro rfl
    exact Hub.ofText_text hub

namespace Row

/-- The text under a name. -/
def text? (row : Row) (name : String) : Option String :=
  match row.get name with
  | .text t => some t
  | _ => none

/-- The instant under a name. -/
def time? (row : Row) (name : String) : Option UtcTime :=
  match row.get name with
  | .time t => some t
  | _ => none

/-- The decimal under a name. -/
def decimal? (row : Row) (name : String) : Option Decimal :=
  match row.get name with
  | .decimal d => some d
  | _ => none

/-- The provenance columns. -/
def provenance? (row : Row) : Option Provenance := do
  let retrievedAtUtc ← row.time? "retrieved_at_utc"
  let sourceUrl ← row.text? "source_url"
  let sourceMethod ← row.text? "source_method"
  let libraryVersion ← row.text? "library_version"
  if present : sourceUrl ≠ "" ∧ sourceMethod ≠ "" ∧ libraryVersion ≠ "" then
    some ⟨retrievedAtUtc, sourceUrl, sourceMethod, libraryVersion, present⟩
  else none

/-- A price record from its columns. -/
def lmp? (row : Row) : Option LmpObservation := do
  let location ← row.text? "location"
  let hub ← Hub.ofText location
  let start ← row.time? "interval_start_utc"
  let stop ← row.time? "interval_end_utc"
  let interval ← Interval.ofBounds 3600 start stop
  let lmp ← row.decimal? "lmp"
  let energy ← row.decimal? "energy"
  let congestion ← row.decimal? "congestion"
  let loss ← row.decimal? "loss"
  let provenance ← row.provenance?
  return ⟨hub, interval, lmp, energy, congestion, loss, provenance⟩

/-- A load record from its columns. -/
def load? (row : Row) : Option LoadObservation := do
  let start ← row.time? "interval_start_utc"
  let stop ← row.time? "interval_end_utc"
  let interval ← Interval.ofBounds 300 start stop
  let load ← row.decimal? "load"
  let provenance ← row.provenance?
  if nonneg : load.isNegative = false then some ⟨interval, load, nonneg, provenance⟩ else none

/-- The observation of a row whose fixed columns are those of a product. -/
def observation? (row : Row) : Option Observation :=
  if row.get "source" = .text "CAISO" ∧ row.get "product" = .text "day_ahead_hourly_lmp" ∧
      row.get "market" = .text "DAY_AHEAD_HOURLY" ∧ row.get "unit" = .text "USD/MWh" ∧
      row.get "source_dataset" = .text "PRC_LMP" then
    row.lmp?.map .lmp
  else if row.get "source" = .text "CAISO" ∧ row.get "product" = .text "system_load_5min" ∧
      row.get "area" = .text "CAISO" ∧ row.get "unit" = .text "MW" ∧
      row.get "source_dataset" = .text "todays_outlook_demand" then
    row.load?.map .load
  else none

end Row

theorem Decimal.isNegative_iff {d : Decimal} : d.isNegative = true ↔ d.value < 0 := by
  have power : (0 : ℚ) < (10 : ℚ) ^ d.exponent := zpow_pos (by norm_num) _
  rw [value, isNegative, mul_neg_iff]
  cases d.negative <;> simp [power, power.le, Nat.pos_iff_ne_zero]

section Storage

variable [Platform] (column : NumericColumn)

/-- The record with the decimals that its columns return. -/
def LmpObservation.restored (record : LmpObservation) : LmpObservation :=
  { record with
    lmp := column.store record.lmp
    energy := column.store record.energy
    congestion := column.store record.congestion
    loss := column.store record.loss }

theorem observation_lmp (request : Request) (record : LmpObservation) (runId : String) :
    Row.observation? ((ContentRow.columns { rowOf request (.lmp record) with
        firstRunId := runId, firstSeenAt := none }).map fun entry =>
          (entry.1, entry.2.store column)) =
      some (.lmp (record.restored column)) := by
  simp [Row.observation?, Row.lmp?, Row.provenance?, Row.text?, Row.time?, Row.decimal?, Row.get,
    List.lookup_cons, ContentRow.columns, Values.columns, rowOf, valuesOf, Value.ofTime, Value.store,
    Observation.source, Observation.product, Observation.sourceDataset, Observation.unit,
    Observation.intervalStartUtc, Observation.intervalEndUtc, Observation.provenance,
    LmpObservation.restored, record.provenance.present]

/-- The record with the decimal that its column returns. -/
def LoadObservation.restored (record : LoadObservation)
    (same : (column.store record.load).value = record.load.value) : LoadObservation :=
  { record with
    load := column.store record.load
    nonneg := by
      rw [Bool.eq_false_iff, ne_eq, Decimal.isNegative_iff, same, ← Decimal.isNegative_iff]
      simp [record.nonneg] }

/-- The columns of a stored load record make up the record. -/
theorem observation_load (request : Request) (record : LoadObservation) (runId : String)
    (same : (column.store record.load).value = record.load.value) :
    Row.observation? ((ContentRow.columns { rowOf request (.load record) with
        firstRunId := runId, firstSeenAt := none }).map fun entry =>
          (entry.1, entry.2.store column)) =
      some (.load (record.restored column same)) := by
  have nonneg := (record.restored column same).nonneg
  have restored : (record.restored column same).load = column.store record.load := rfl
  rw [restored] at nonneg
  simp [Row.observation?, Row.load?, Row.provenance?, Row.text?, Row.time?, Row.decimal?, Row.get,
    List.lookup_cons, ContentRow.columns, Values.columns, rowOf, valuesOf, Value.ofTime, Value.store,
    Observation.source, Observation.product, Observation.sourceDataset, Observation.unit,
    Observation.intervalStartUtc, Observation.intervalEndUtc, Observation.provenance,
    LoadObservation.restored, record.provenance.present, nonneg]

/-- **Stored columns make up the record**, with decimals of the same value. -/
theorem observation_stored (request : Request) (record : Observation) (runId : String)
    (exact : ∀ d ∈ decimalsOf record, (column.store d).value = d.value) :
    ∃ rebuilt, Row.observation? ((ContentRow.columns { rowOf request record with
        firstRunId := runId, firstSeenAt := none }).map fun entry =>
          (entry.1, entry.2.store column)) = some rebuilt ∧
      rebuilt.SameGrain record ∧ rebuilt.measured = record.measured := by
  cases record with
  | lmp record =>
      refine ⟨_, observation_lmp column request record runId, ⟨rfl, rfl, rfl⟩, ?_⟩
      simp only [decimalsOf, List.mem_cons, List.not_mem_nil, or_false, forall_eq_or_imp,
        forall_eq] at exact
      obtain ⟨price, energy, congestion, loss⟩ := exact
      simp only [Observation.measured, decimalsOf, LmpObservation.restored, List.map_cons,
        List.map_nil, price, energy, congestion, loss]
  | load record =>
      have same := exact record.load (by simp [decimalsOf])
      refine ⟨_, observation_load column request record runId same, ⟨rfl, rfl, rfl⟩, ?_⟩
      simp only [Observation.measured, decimalsOf, LoadObservation.restored, List.map_cons,
        List.map_nil, same]

end Storage

/-! ## Accepted records -/

section Accepted

variable [Platform]

theorem collectRows_numeric {request : Request} {records : List Observation} {seen : List String}
    {rows : List BatchRow} (collected : collectRows request seen records = .ok rows) :
    ∀ record ∈ records, ∀ d ∈ decimalsOf record, Representable d.value := by
  induction records generalizing seen rows with
  | nil => simp
  | cons record records ih =>
      unfold collectRows at collected
      split_ifs at collected
      obtain ⟨_, checked, rest⟩ := bind_eq_ok.mp collected
      obtain ⟨later, collected, _⟩ := bind_eq_ok.mp rest
      refine List.forall_mem_cons.mpr ⟨fun d member => ?_, ih collected⟩
      have passed := forM_eq_ok.mp checked d member
      cases result : numeric d with
      | error e =>
          rw [result] at passed
          cases passed
      | ok d' => exact numeric_representable result

theorem batchRows_numeric {request : Request} {records : List Observation}
    {rows : List BatchRow} (batched : batchRows request records = .ok rows) :
    ∀ record ∈ records, ∀ d ∈ decimalsOf record, Representable d.value := by
  unfold batchRows at batched
  split_ifs at batched
  obtain ⟨_, collected, _⟩ := bind_eq_ok.mp batched
  exact collectRows_numeric collected

/-- The required columns of a content row are present. -/
theorem content_required {request : Request} {record : Observation}
    (product : record.isLmp = true ↔ request.product = .lmp) (runId : String) :
    ∀ field ∈ contentsFields request.product, field.mode = "REQUIRED" →
      Row.get (ContentRow.columns { rowOf request record with
        firstRunId := runId, firstSeenAt := none }) field.name ≠ .null := by
  cases record with
  | lmp record =>
      rw [product.mp rfl]
      simp [contentsFields, common, required, nullable, Row.get, List.lookup_cons, ContentRow.columns,
        Values.columns, rowOf, valuesOf]
  | load record =>
      have load : request.product = .load := by
        cases same : request.product with
        | lmp => exact absurd (product.mpr same) (by simp [Observation.isLmp])
        | load => rfl
      rw [load]
      simp [contentsFields, common, required, nullable, Row.get, List.lookup_cons, ContentRow.columns,
        Values.columns, rowOf, valuesOf]

omit [Platform] in
theorem transition_required (transition : TransitionRow) :
    ∀ field ∈ transitionFields, field.mode = "REQUIRED" →
      transition.columns.get field.name ≠ .null := by
  simp [transitionFields, required, nullable, Row.get, List.lookup_cons, TransitionRow.columns]

/-- What a planned content row of a record is worth in its table. -/
structure Rederives (column : NumericColumn) (request : Request) (runId : String)
    (record : Observation) (content : ContentRow) : Prop where
  planned : content = { rowOf request record with firstRunId := runId, firstSeenAt := none }
  narrowed : struct (contentsFields request.product)
    (contentRow runId (recordRow request record)) = content.columns
  rebuilt : ∃ rebuilt, Row.observation? (stored column (contentsFields request.product)
      (contentRow runId (recordRow request record))) = some rebuilt ∧
    rebuilt.logicalKey = content.logicalKey ∧ rebuilt.contentHash = content.contentHash ∧
    contentId rebuilt = content.contentId
  required : ∀ field ∈ contentsFields request.product, field.mode = "REQUIRED" →
    content.columns.get field.name ≠ .null

/-- **Stored rows re-derive their own hashes.** Every content row that is planned for an accepted
batch, narrowed to the columns of its table and stored with exact decimals, makes up an
observation with the stored key, hash and content id, and no required column of a planned row is
missing. -/
theorem stored_rows_rederive (column : NumericColumn) {request : Request}
    {records : List Observation} {batch : List BatchRow} {runId : String} {current : Snapshot}
    {plan : WritePlan} (batched : batchRows request records = .ok batch)
    (planned : planWrite runId batch current = .ok plan) :
    (∀ content ∈ plan.contents, ∃ record ∈ records,
      Rederives column request runId record content) ∧
    ∀ transition ∈ plan.transitions,
      (∃ record ∈ records, ∃ ordinal, struct transitionFields
        (transitionRow runId current.sequence ordinal (recordRow request record)
          record.logicalKey record.contentHash) = transition.columns) ∧
      ∀ field ∈ transitionFields, field.mode = "REQUIRED" →
        transition.columns.get field.name ≠ .null := by
  have accepted := batchRows_spec batched
  obtain ⟨_, rfl⟩ := planWrite_eq planned
  have recorded : ∀ row ∈ batch, ∃ record ∈ records, row = rowOf request record := by
    intro row member
    obtain ⟨record, at_record, same⟩ := List.mem_map.mp (accepted.perm.mem_iff.mp member)
    exact ⟨record, at_record, same.symm⟩
  constructor
  · intro content member
    obtain ⟨row, at_row, new⟩ := List.mem_filterMap.mp member
    obtain ⟨record, at_record, rfl⟩ := recorded row at_row
    obtain ⟨_, rfl⟩ := newContent_eq_some.mp new
    have product := (accepted.admissible record at_record).product
    have narrowed := struct_contentRow product runId
    have exact : ∀ d ∈ decimalsOf record, (column.store d).value = d.value := fun d at_d =>
      column.exact d (batchRows_numeric batched record at_record d at_d)
    obtain ⟨rebuilt, restores, grain, values⟩ := observation_stored column request record runId exact
    have key : rebuilt.logicalKey = record.logicalKey := by
      rw [Observation.logicalKey, grain.identityFields, Observation.logicalKey]
    have hash : rebuilt.contentHash = record.contentHash := by
      rw [Observation.contentHash, grain.contentFields values, Observation.contentHash]
    refine ⟨record, at_record, rfl, narrowed, ⟨rebuilt, ?_, key, hash, ?_⟩,
      content_required product runId⟩
    · rw [stored, narrowed]
      exact restores
    · rw [contentId, key, hash]
      rfl
  · intro transition member
    obtain ⟨row, at_row, new⟩ := List.mem_filterMap.mp member
    obtain ⟨record, at_record, rfl⟩ := recorded row at_row
    obtain ⟨ordinal, _, rfl⟩ := newTransition_eq_some.mp new
    exact ⟨⟨record, at_record, ordinal,
      struct_transitionRow request record runId current.sequence ordinal⟩, transition_required _⟩

end Accepted

/-! ## A column with nine places -/

/-- A decimal with nine digits after the point, the later ones cut off. -/
def ninePlaces (d : Decimal) : Decimal :=
  match d.exponent + 9 with
  | .ofNat zeros => ⟨d.negative, d.coefficient * 10 ^ zeros, -9⟩
  | .negSucc fewer => ⟨d.negative, d.coefficient / 10 ^ (fewer + 1), -9⟩

theorem ninePlaces_value {d : Decimal} (fits : Representable d.value) :
    (ninePlaces d).value = d.value := by
  have ten : (10 : ℚ) ≠ 0 := by norm_num
  cases shift : d.exponent + 9 with
  | ofNat zeros =>
      have exponent : d.exponent = zeros + (-9) := by
        rw [← Int.ofNat_eq_natCast, ← shift]
        ring
      rw [ninePlaces, shift, Decimal.value, Decimal.value, exponent, zpow_add₀ ten, zpow_natCast]
      push_cast
      ring
  | negSucc fewer =>
      have exponent : d.exponent = -((fewer + 1 : Nat) : Int) + (-9) := by
        have places : Int.negSucc fewer = -((fewer + 1 : Nat) : Int) := rfl
        rw [← places, ← shift]
        ring
      have power : (10 : ℚ) ^ (fewer + 1) ≠ 0 := pow_ne_zero _ ten
      have formula : d.value = (if d.negative then -1 else 1) * d.coefficient *
          ((10 ^ (fewer + 1))⁻¹ * (10 : ℚ) ^ (-9 : Int)) := by
        rw [Decimal.value, exponent, zpow_add₀ ten, zpow_neg, zpow_natCast]
      obtain ⟨n, same, _⟩ := fits
      rw [formula] at same
      -- The cut digits are zeros, because the number has nine places.
      have multiple : (if d.negative then (-1 : Int) else 1) * d.coefficient =
          n * 10 ^ (fewer + 1) := by
        have scaled : (if d.negative then (-1 : ℚ) else 1) * d.coefficient =
            n * 10 ^ (fewer + 1) := by
          field_simp at same
          norm_num at same
          split_ifs at same ⊢ <;> linarith
        exact_mod_cast scaled
      have divides : 10 ^ (fewer + 1) ∣ d.coefficient := by
        have size := congrArg Int.natAbs multiple
        rw [Int.natAbs_mul, Int.natAbs_mul, Int.natAbs_pow, Int.natAbs_natCast] at size
        have sign : Int.natAbs (if d.negative then (-1 : Int) else 1) = 1 := by split_ifs <;> rfl
        rw [sign, Nat.one_mul] at size
        exact ⟨n.natAbs, size.trans (Nat.mul_comm ..)⟩
      obtain ⟨quotient, split⟩ := divides
      have cut : ninePlaces d = ⟨d.negative, quotient, -9⟩ := by
        simp only [ninePlaces, shift, split,
          Nat.mul_div_cancel_left quotient (Nat.pow_pos (Nat.succ_pos 9))]
      rw [cut, formula, Decimal.value, split]
      push_cast
      field_simp

/-- A column that returns all its numbers with nine places. -/
def ninePlacesColumn : NumericColumn := ⟨ninePlaces, fun _ => ninePlaces_value⟩

/-- The small batch, stored with nine places. -/
theorem stored_rows_rederive_sample :
    letI := Platform.plain
    ∃ batch plan, batchRows sampleRequest [sampleObservation] = .ok batch ∧
      planWrite sampleRunId batch ⟨0, [], []⟩ = .ok plan ∧ plan.contents.length = 1 ∧
      ∀ content ∈ plan.contents, ∃ record ∈ [sampleObservation],
        Rederives ninePlacesColumn sampleRequest sampleRunId record content := by
  have batched : @batchRows Platform.plain sampleRequest [sampleObservation] =
      .ok [@rowOf Platform.plain sampleRequest sampleObservation] := by rfl
  obtain ⟨plan, planned, single⟩ : ∃ plan, @planWrite Platform.plain sampleRunId
      [@rowOf Platform.plain sampleRequest sampleObservation] ⟨0, [], []⟩ = .ok plan ∧
      plan.contents.length = 1 := ⟨_, by rfl, by rfl⟩
  exact ⟨_, plan, batched, planned, single,
    (@stored_rows_rederive Platform.plain ninePlacesColumn _ _ _ _ _ _ batched planned).1⟩

end PowerMarket
