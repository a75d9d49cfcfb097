import PowerMarket.Warehouse.Sql
import PowerMarket.Library.Incremental
import PowerMarket.Library.Joins
import Mathlib.Data.Prod.Lex

/-!
# The analytical models

The queries between the raw tables and the marts, one model of the two products at a time. A
staging model keeps the rows whose run has succeeded, the revision history joins the transitions
that are left to the contents that are left, and a fact keeps of each key the row with the
greatest ordinal. An incremental build reads only the rows above the greatest commit sequence
number in the fact and merges its result by the logical key.

An inner join gives a row for every pair of rows that match, so that nothing in the queries
presupposes that ids are unique.
-/

set_option autoImplicit false

namespace PowerMarket

open Library

/-! ## Staging -/

/-- The manifests, whatever their status. -/
def stgIngestionRuns (db : Database) : List RunRow := db.runs

/-- The rows of a raw table joined to their runs that have succeeded. -/
def eligible {α : Type} (runId : α → String) (db : Database) (rows : List α) : List α :=
  ((innerJoin (fun row run => runId row = run.runId) rows (stgIngestionRuns db)).filter
    (·.2.status = .succeeded)).map Prod.fst

/-- The contents whose original run has succeeded. -/
def stgContents (product : Product) (db : Database) : List ContentRow :=
  eligible (·.firstRunId) db (db.contents product)

def stgLmpContents : Database → List ContentRow := stgContents .lmp

def stgLoadContents : Database → List ContentRow := stgContents .load

/-- The transitions whose run has succeeded. -/
def stgStateTransitions (product : Product) (db : Database) : List TransitionRow :=
  eligible (·.runId) db (db.transitions product)

def stgLmpStateTransitions : Database → List TransitionRow := stgStateTransitions .lmp

def stgLoadStateTransitions : Database → List TransitionRow := stgStateTransitions .load

/-! ## The revision history -/

/-- A row of the revision history: the columns of a content, whose time of retrieval is here
`content_retrieved_at_utc`, and those of a transition to it. -/
structure HistoryRow extends ContentRow where
  transitionId : String
  stateRunId : String
  stateOrdinal : Nat
  commitSequence : Nat
  stateKnownAt : Option UtcTime
  stateRetrievedAtUtc : UtcTime
  deriving DecidableEq

/-- The row that joins a transition to a content. -/
def historyRow (transition : TransitionRow) (content : ContentRow) : HistoryRow :=
  { content with
    transitionId := transition.transitionId
    stateRunId := transition.runId
    stateOrdinal := transition.ordinal
    commitSequence := transition.commitSequence
    stateKnownAt := transition.knownAt
    stateRetrievedAtUtc := transition.retrievedAtUtc }

/-- Every eligible occurrence of an eligible content. -/
def intRevisionHistory (product : Product) (db : Database) : List HistoryRow :=
  (innerJoin (fun transition content => transition.contentId = content.contentId)
    (stgStateTransitions product db) (stgContents product db)).map fun pair =>
      historyRow pair.1 pair.2

def intLmpRevisionHistory : Database → List HistoryRow := intRevisionHistory .lmp

def intLoadRevisionHistory : Database → List HistoryRow := intRevisionHistory .load

/-! ## Facts -/

/-- What a window over a key is ordered by, the greatest first. -/
def HistoryRow.rank (row : HistoryRow) : ℕ ×ₗ ℕ ×ₗ String :=
  toLex (row.stateOrdinal, toLex (row.commitSequence, row.transitionId))

/-- The history that a build reads: all of it, or in an incremental build the part above the
watermark of the table. -/
def candidateStates (this : Option (List HistoryRow)) (history : List HistoryRow) :
    List HistoryRow :=
  match this with
  | none => history
  | some table => history.filter (watermark (·.commitSequence) table < ·.commitSequence)

/-- The rows that the query of a fact selects. -/
def factQuery (product : Product) (this : Option (List HistoryRow)) (db : Database) :
    List HistoryRow :=
  latestByKey (·.logicalKey) (·.rank) (candidateStates this (intRevisionHistory product db))

def fctHourlyLmp : Option (List HistoryRow) → Database → List HistoryRow := factQuery .lmp

def fctSystemLoad5min : Option (List HistoryRow) → Database → List HistoryRow := factQuery .load

/-- The table that a build leaves: the selected rows, or in an incremental build the table with the
selected rows merged into it by the logical key. -/
def materialize (this : Option (List HistoryRow)) (selected : List HistoryRow) : List HistoryRow :=
  match this with
  | none => selected
  | some table => mergeByKey (·.logicalKey) table selected

end PowerMarket
