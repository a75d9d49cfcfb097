import PowerMarket.Warehouse.Sql

/-!
# Table contracts

The declared columns of every table. Bootstrapping compares them with the columns that the
tables have.
-/

set_option autoImplicit false

namespace PowerMarket

/-- A declared column: its name, its type and whether it may be missing. -/
structure Field where
  name : String
  kind : String
  mode : String
  deriving DecidableEq

/-- Columns that must be present. -/
def required (fields : List (String × String)) : List Field :=
  fields.map fun field => ⟨field.1, field.2, "REQUIRED"⟩

/-- Columns that may be missing. -/
def nullable (fields : List (String × String)) : List Field :=
  fields.map fun field => ⟨field.1, field.2, "NULLABLE"⟩

/-- The columns that both contents tables have. -/
def common : List Field :=
  required [("content_id", "STRING"), ("logical_key", "STRING"), ("content_hash", "STRING"),
    ("logical_key_schema", "STRING"), ("content_hash_schema", "STRING"), ("source", "STRING"),
    ("product", "STRING"), ("source_dataset", "STRING"), ("market_date", "DATE"),
    ("interval_start_utc", "TIMESTAMP"), ("interval_end_utc", "TIMESTAMP"), ("unit", "STRING"),
    ("retrieved_at_utc", "TIMESTAMP"), ("source_url", "STRING"), ("source_method", "STRING"),
    ("library_version", "STRING"), ("first_run_id", "STRING")] ++
  nullable [("first_seen_at", "TIMESTAMP")]

/-- The columns of the contents table of a product. -/
def contentsFields : Product → List Field
  | .lmp => common ++ required [("market", "STRING"), ("location", "STRING"), ("lmp", "NUMERIC"),
      ("energy", "NUMERIC"), ("congestion", "NUMERIC"), ("loss", "NUMERIC")]
  | .load => common ++ required [("area", "STRING"), ("load", "NUMERIC")]

/-- The columns of a transitions table. -/
def transitionFields : List Field :=
  required [("transition_id", "STRING"), ("run_id", "STRING"), ("logical_key", "STRING"),
    ("content_id", "STRING"), ("content_hash", "STRING"), ("logical_key_schema", "STRING"),
    ("content_hash_schema", "STRING"), ("market_date", "DATE"),
    ("interval_start_utc", "TIMESTAMP"), ("ordinal", "INT64"), ("commit_sequence", "INT64"),
    ("retrieved_at_utc", "TIMESTAMP")] ++
  nullable [("known_at", "TIMESTAMP")]

/-- The columns of the manifests. -/
def runFields : List Field :=
  required [("run_id", "STRING"), ("request_id", "STRING"), ("source", "STRING"),
    ("product", "STRING"), ("requested_date", "DATE"), ("started_at", "TIMESTAMP"),
    ("status", "STRING"), ("commit_completed", "BOOL"), ("package_version", "STRING"),
    ("library_version", "STRING"), ("warehouse_schema", "STRING"),
    ("logical_key_schema", "STRING"), ("content_hash_schema", "STRING")] ++
  nullable [("requested_location", "STRING"), ("completed_at", "TIMESTAMP"),
    ("knowledge_at", "TIMESTAMP"), ("rows_fetched", "INT64"), ("rows_normalized", "INT64"),
    ("rows_accepted", "INT64"), ("rows_rejected", "INT64"), ("new_contents", "INT64"),
    ("new_transitions", "INT64"), ("batch_hash", "STRING"), ("error_class", "STRING"),
    ("error_message", "STRING"), ("commit_job_id", "STRING"), ("commit_sequence", "INT64"),
    ("query_bytes_processed", "INT64"), ("query_bytes_billed", "INT64"),
    ("code_revision", "STRING")]

/-- All tables with their columns. -/
def tables : List (String × List Field) :=
  [("warehouse_control",
      required [("singleton", "INT64"), ("sequence", "INT64"), ("warehouse_schema", "STRING")] ++
        nullable [("active_run_id", "STRING")]),
    ("ingestion_runs", runFields),
    ("lmp_contents", contentsFields .lmp),
    ("load_contents", contentsFields .load),
    ("lmp_state_transitions", transitionFields),
    ("load_state_transitions", transitionFields)]

/-- The dataset as the service describes it. -/
structure DatasetInfo where
  location : String
  managedBy : Option String
  tableExpiration : Option Nat
  partitionExpiration : Option Nat

/-- A table as the service describes it. -/
structure TableInfo where
  fields : List Field
  expires : Bool
  timePartitioning : Bool
  rangePartitioning : Bool
  clustering : Bool

/-- The type names that the service returns for two aliases. -/
def Field.normalize (field : Field) : Field :=
  { field with kind := match field.kind with
    | "INTEGER" => "INT64"
    | "BOOLEAN" => "BOOL"
    | kind => kind }

/-- Check the dataset before any table is touched. -/
def checkDataset [Platform] (dataset : DatasetInfo) : Except Exn Unit :=
  if Platform.lower dataset.location ≠ Platform.lower Platform.config.location then
    .error (.new .warehouseError "existing dataset location differs from BQ_LOCATION")
  else if dataset.managedBy ≠ some "power-market-data-platform" then
    .error (.new .warehouseError "refusing to bootstrap an unrelated dataset")
  else if dataset.tableExpiration.getD 0 ≠ 0 ∨ dataset.partitionExpiration.getD 0 ≠ 0 then
    .error (.new .warehouseError "raw retention contract forbids dataset default expirations")
  else .ok ()

/-- Check a table against its declaration. -/
def checkTable (name : String) (declared : List Field) (table : TableInfo) : Except Exn Unit :=
  if table.fields.map Field.normalize ≠ declared then
    .error (.new .warehouseError
      ("incompatible schema for " ++ name ++ "; no destructive migration"))
  else if table.expires ∨ table.timePartitioning ∨ table.rangePartitioning ∨ table.clustering then
    .error (.new .warehouseError ("unexpected retention/physical layout for " ++ name))
  else .ok ()

end PowerMarket
