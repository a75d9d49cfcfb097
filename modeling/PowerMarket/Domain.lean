import PowerMarket.Time

/-!
# Observations

A price observation belongs to a trading hub and an hour, a load observation to an interval of
five minutes. The structures carry what their constructors check: the length and the alignment
of the interval, and that load is not negative. The logical key of an observation is the
digest of its identity fields, and it determines the product and the interval when there are no
hash collisions (`logicalKey_interval`).
-/

set_option autoImplicit false

namespace PowerMarket

/-- The supported trading hubs. -/
inductive Hub where
  | np15
  | sp15
  | zp26
  deriving DecidableEq

/-- The name of a hub. -/
def Hub.text : Hub → String
  | .np15 => "TH_NP15_GEN-APND"
  | .sp15 => "TH_SP15_GEN-APND"
  | .zp26 => "TH_ZP26_GEN-APND"

/-- A numerical comparison with zero. -/
def Decimal.isNegative (value : Decimal) : Bool := value.negative && value.coefficient ≠ 0

/-- An interval of a fixed length in seconds, whose start is aligned to the length. -/
structure Interval (seconds : Nat) where
  start : UtcTime
  stop : UtcTime
  length : stop.micros = start.micros + seconds * 1000000
  aligned : start.micros % (seconds * 1000000) = 0
  deriving DecidableEq

/-- Retrieval metadata, not a durable knowledge time. -/
structure Provenance where
  retrievedAtUtc : UtcTime
  sourceUrl : String
  sourceMethod : String
  libraryVersion : String
  present : sourceUrl ≠ "" ∧ sourceMethod ≠ "" ∧ libraryVersion ≠ ""
  deriving DecidableEq

/-- One day-ahead hourly price at one supported hub. -/
structure LmpObservation where
  location : Hub
  interval : Interval 3600
  lmp : Decimal
  energy : Decimal
  congestion : Decimal
  loss : Decimal
  provenance : Provenance
  deriving DecidableEq

/-- One system demand observation over five minutes. -/
structure LoadObservation where
  interval : Interval 300
  load : Decimal
  nonneg : load.isNegative = false
  provenance : Provenance
  deriving DecidableEq

/-- An observation of either product. -/
inductive Observation where
  | lmp (record : LmpObservation)
  | load (record : LoadObservation)
  deriving DecidableEq

namespace Observation

/-- Whether the observation is a price. -/
def isLmp : Observation → Bool
  | lmp _ => true
  | load _ => false

def source (_ : Observation) : String := "CAISO"

def product : Observation → String
  | lmp _ => "day_ahead_hourly_lmp"
  | load _ => "system_load_5min"

def unit : Observation → String
  | lmp _ => "USD/MWh"
  | load _ => "MW"

def sourceDataset : Observation → String
  | lmp _ => "PRC_LMP"
  | load _ => "todays_outlook_demand"

def intervalStartUtc : Observation → UtcTime
  | lmp record => record.interval.start
  | load record => record.interval.start

def intervalEndUtc : Observation → UtcTime
  | lmp record => record.interval.stop
  | load record => record.interval.stop

def provenance : Observation → Provenance
  | lmp record => record.provenance
  | load record => record.provenance

/-- The fields that identify what was observed. -/
def identityFields : Observation → List (String × String)
  | lmp record =>
    [("source", "CAISO"), ("product", "day_ahead_hourly_lmp"), ("market", "DAY_AHEAD_HOURLY"),
      ("location", record.location.text),
      ("interval_start_utc", utcText record.interval.start),
      ("interval_end_utc", utcText record.interval.stop)]
  | load record =>
    [("source", "CAISO"), ("product", "system_load_5min"), ("area", "CAISO"),
      ("interval_start_utc", utcText record.interval.start),
      ("interval_end_utc", utcText record.interval.stop)]

/-- The identity fields with the unit and the measured values. -/
def contentFields : Observation → List (String × String)
  | lmp record =>
    identityFields (lmp record) ++ [("unit", "USD/MWh"), ("lmp", decimalText record.lmp),
      ("energy", decimalText record.energy), ("congestion", decimalText record.congestion),
      ("loss", decimalText record.loss)]
  | load record =>
    identityFields (load record) ++ [("unit", "MW"), ("load", decimalText record.load)]

/-- The digest of the identity. -/
def logicalKey [Platform] (record : Observation) : String :=
  digest "observation-key/v1" record.identityFields

/-- The digest of the content. -/
def contentHash [Platform] (record : Observation) : String :=
  digest "observation-content/v1" record.contentFields

theorem identityFields_distinct (record : Observation) :
    ("schema" :: record.identityFields.map Prod.fst).Nodup := by
  cases record <;> simp [identityFields]

/-- **The logical key determines the product and the start of the interval.** -/
theorem logicalKey_interval [Platform] (noCollisions : NoCollisions)
    {record record' : Observation} (same : record.logicalKey = record'.logicalKey) :
    record.isLmp = record'.isLmp ∧ record.intervalStartUtc = record'.intervalStartUtc := by
  have entries := digest_perm noCollisions (identityFields_distinct record)
    (identityFields_distinct record') same
  have distinct : ((("schema", "observation-key/v1") :: record'.identityFields).map
      Prod.fst).Nodup := identityFields_distinct record'
  have product : record.product = record'.product :=
    value_eq_of_perm "product" entries distinct
      (by cases record <;> simp [identityFields, Observation.product])
      (by cases record' <;> simp [identityFields, Observation.product])
  have start : utcText record.intervalStartUtc = utcText record'.intervalStartUtc :=
    value_eq_of_perm "interval_start_utc" entries distinct
      (by cases record <;> simp [identityFields, intervalStartUtc])
      (by cases record' <;> simp [identityFields, intervalStartUtc])
  refine ⟨?_, utcText_injective start⟩
  cases record <;> cases record' <;> simp_all [Observation.product, isLmp]

end Observation

end PowerMarket
