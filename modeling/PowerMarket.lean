import PowerMarket.Library.Programs
import PowerMarket.Library.JsonText
import PowerMarket.Library.CivilCalendar
import PowerMarket.Library.JobService
import PowerMarket.Library.Zones
import PowerMarket.Errors
import PowerMarket.Identity
import PowerMarket.Time
import PowerMarket.Domain
import PowerMarket.Warehouse.Model
import PowerMarket.Warehouse.Sql
import PowerMarket.Warehouse.Schema
import PowerMarket.Warehouse.BigQuery
import PowerMarket.Ingestion
import PowerMarket.Library.Growth
import PowerMarket.Library.Revisions
import PowerMarket.Warehouse.Effects
import PowerMarket.Warehouse.Invariant
import PowerMarket.Warehouse.Replay
import PowerMarket.Warehouse.History
import PowerMarket.Warehouse.Linearization
import PowerMarket.Warehouse.Manifests
import PowerMarket.Warehouse.Service
import PowerMarket.Warehouse.Clients
import PowerMarket.Warehouse.Answers
import PowerMarket.Warehouse.Recovery
import PowerMarket.Warehouse.Results
import PowerMarket.Warehouse.Replies
import PowerMarket.Warehouse.Calls
import PowerMarket.System
import PowerMarket.RunStates
import PowerMarket.Serializability
import PowerMarket.KnowledgeClocks
import PowerMarket.GateRelease
import PowerMarket.CommitOnce
import PowerMarket.Creation
import PowerMarket.Retries
import PowerMarket.PacificDays
import PowerMarket.Library.DecimalText
import PowerMarket.Decimals
import PowerMarket.Identities
import PowerMarket.Warehouse.Numeric
import PowerMarket.Warehouse.Columns
import PowerMarket.Warehouse.Origins
import PowerMarket.RunBinding
import PowerMarket.UnitReports
import PowerMarket.Library.Incremental
import PowerMarket.Library.Joins
import PowerMarket.Analytics.Models
import PowerMarket.Analytics.Eligible
import PowerMarket.Analytics.Stores
import PowerMarket.Analytics.Builds
import PowerMarket.Analytics.Marts
import PowerMarket.Backtesting.Inputs
import PowerMarket.Analytics.Lineage
import PowerMarket.Analytics.Checks
import PowerMarket.Backtesting.Acceptance
import PowerMarket.Library.Slots
import PowerMarket.Library.Resumable
import PowerMarket.Backtesting.Engine
import PowerMarket.Backtesting.Coverage
import PowerMarket.Warehouse.Batches
import PowerMarket.Orchestration.Plan
import PowerMarket.Orchestration.Verification
import PowerMarket.Library.Reorderings
import PowerMarket.Warehouse.Extensions
import PowerMarket.Reorderings
import PowerMarket.Library.Drift
import PowerMarket.Optimization.Model
import PowerMarket.Optimization.Energy
import PowerMarket.Optimization.Battery
import PowerMarket.Backtesting.Metrics
import PowerMarket.Library.Blocks
import PowerMarket.Library.LocalTimes
import PowerMarket.LocalTimes
import PowerMarket.Backtesting.Partition
import PowerMarket.Orchestration.Resumption
import PowerMarket.Library.Sorting
import PowerMarket.Sources.Caiso
import PowerMarket.Warehouse.Permutations
import PowerMarket.Payloads
import PowerMarket.Sources.Contracts
import PowerMarket.Sources.Normalization
import PowerMarket.Library.Leaks
import PowerMarket.Sources.Leaks
import PowerMarket.Sources.Fetches
import PowerMarket.Backtesting.Failures
import PowerMarket.Warehouse.Ledger
import PowerMarket.Uninterrupted
import PowerMarket.Replays
import PowerMarket.Orchestration.Pipeline
import PowerMarket.Orchestration.Sourcing
import PowerMarket.Orchestration.Interruptions
import PowerMarket.Orchestration.Uninterrupted
import PowerMarket.Orchestration.Convergence
import PowerMarket.Warehouse.Appearances
import PowerMarket.Warehouse.States
import PowerMarket.Library.Groups
import PowerMarket.Library.Submissions
import PowerMarket.Submissions
import PowerMarket.ManifestShapes
import PowerMarket.Analytics.Health
import PowerMarket.Inspection
import PowerMarket.Analytics.Reconciliation
import PowerMarket.Library.Rounding
import PowerMarket.Library.TableTests
import PowerMarket.Analytics.DataTests
import PowerMarket.Analytics.Versions
import PowerMarket.Library.KeyedStore
import PowerMarket.Analytics.LastWriter
import PowerMarket.Analytics.Upserts
import PowerMarket.Library.Trajectories
import PowerMarket.Optimization.Feasibility
import PowerMarket.Backtesting.Optimum
import PowerMarket.Orchestration.Refreshes
import PowerMarket.Orchestration.Units
import PowerMarket.Orchestration.Completion
import PowerMarket.Library.Views
import PowerMarket.Library.Registries
import PowerMarket.Provisioning
import PowerMarket.Bootstrapping
