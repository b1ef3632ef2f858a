import JobManager.Core.Acceptance
import JobManager.Core.Basic
import JobManager.Core.Cascade
import JobManager.Core.Closing
import JobManager.Core.Creations
import JobManager.Core.Definition
import JobManager.Core.Derived
import JobManager.Core.Entry
import JobManager.Core.Job
import JobManager.Core.Lifecycle
import JobManager.Core.Local
import JobManager.Core.Merge
import JobManager.Core.Merging
import JobManager.Core.Refusal
import JobManager.Core.Registry
import JobManager.Core.Settle
import JobManager.Core.Settlement
import JobManager.Core.Task
import JobManager.Execution.Atomic
import JobManager.Execution.Attempts
import JobManager.Execution.Builder
import JobManager.Execution.Cleaner
import JobManager.Execution.Executor
import JobManager.Execution.Reconciliation
import JobManager.Execution.Record
import JobManager.Execution.Retention
import JobManager.Execution.Run
import JobManager.Execution.Served
import JobManager.Execution.Sweep
import JobManager.Execution.Waiting
import JobManager.Execution.Worker
import JobManager.Library.Chunks
import JobManager.Library.Decimal
import JobManager.Library.Elimination
import JobManager.Library.KeyedMap
import JobManager.Library.Mutation
import JobManager.Library.OrderedIndex
import JobManager.Library.Percent
import JobManager.Library.Program
import JobManager.Library.Retry
import JobManager.Library.Spread
import JobManager.Library.Transition
import JobManager.Library.Triple
import JobManager.Library.Utf8
import JobManager.Library.VersionLog
import JobManager.Library.Watch
import JobManager.Library.Window
import JobManager.Pool.Polling
import JobManager.Pool.Requests
import JobManager.Pool.Scheduler
import JobManager.Pool.Waits
import JobManager.Pool.Workers
import JobManager.Protocol.Conformance
import JobManager.Protocol.Copies
import JobManager.Protocol.Creators
import JobManager.Protocol.Deadlock
import JobManager.Protocol.Findings
import JobManager.Protocol.Invariant
import JobManager.Protocol.Linear
import JobManager.Protocol.Merges
import JobManager.Protocol.Moments
import JobManager.Protocol.Moves
import JobManager.Protocol.Oracle
import JobManager.Protocol.Order
import JobManager.Protocol.Ownership
import JobManager.Protocol.Pedigree
import JobManager.Protocol.Pickups
import JobManager.Protocol.Replay
import JobManager.Protocol.Reports
import JobManager.Protocol.Results
import JobManager.Protocol.Runtime
import JobManager.Protocol.SaveLoop
import JobManager.Protocol.Saving
import JobManager.Protocol.Skips
import JobManager.Protocol.Structure
import JobManager.Protocol.System
import JobManager.Scheduling.Fates
import JobManager.Scheduling.Schedule
import JobManager.Scheduling.Verdict
import JobManager.Storage.Cached
import JobManager.Storage.Container
import JobManager.Storage.Deletion
import JobManager.Storage.GcsClient
import JobManager.Storage.InMemory
import JobManager.Storage.Listing
import JobManager.Storage.ObjectStorage
import JobManager.Storage.Outdated
import JobManager.Storage.Paths
import JobManager.Storage.Preservation
import JobManager.Storage.Refinement
import JobManager.Storage.Repeats
import JobManager.Storage.Signing
import JobManager.Storage.State
import JobManager.Storage.Transparency
import JobManager.Storage.Wire
