import RpaCore.Checkpoint.Audit
import RpaCore.Checkpoint.Basic
import RpaCore.Checkpoint.CreationTime
import RpaCore.Checkpoint.Reload
import RpaCore.Checkpoint.Saved
import RpaCore.Checkpoint.Snapshots
import RpaCore.Cursor.Base64
import RpaCore.Cursor.Basic
import RpaCore.Cursor.Binding
import RpaCore.Effects.Alike
import RpaCore.Effects.Pool
import RpaCore.Effects.Proc
import RpaCore.Effects.Project
import RpaCore.Engine.Basic
import RpaCore.Engine.Boundaries
import RpaCore.Engine.Discipline
import RpaCore.Engine.Execution
import RpaCore.Engine.Finalise
import RpaCore.Engine.Frame
import RpaCore.Engine.Halting
import RpaCore.Engine.History
import RpaCore.Engine.Interrupt
import RpaCore.Engine.Lifecycle
import RpaCore.Engine.Outcome
import RpaCore.Engine.Rerun
import RpaCore.Engine.Results
import RpaCore.Engine.Rules
import RpaCore.Engine.Saves
import RpaCore.Engine.Transient
import RpaCore.Engine.Transitions
import RpaCore.Engine.WriteAhead
import RpaCore.Execute.Basic
import RpaCore.Execute.Crash
import RpaCore.Graph.Reach
import RpaCore.Json.Compact
import RpaCore.Json.Dict
import RpaCore.Logging.Format
import RpaCore.Logging.Values
import RpaCore.Manifest.Entrypoint
import RpaCore.Manifest.Rollback
import RpaCore.Model.JsonState
import RpaCore.Model.Timestamp
import RpaCore.Model.Value
import RpaCore.Persistence.Accepted
import RpaCore.Persistence.Basic
import RpaCore.Persistence.Listing
import RpaCore.Persistence.Migration
import RpaCore.Persistence.Paging
import RpaCore.Persistence.Query
import RpaCore.Persistence.RoundTrip
import RpaCore.Persistence.Stored
import RpaCore.Persistence.UtcKeys
import RpaCore.Persistence.Windows
import RpaCore.Queue.Attempts
import RpaCore.Queue.Basic
import RpaCore.Queue.Budget
import RpaCore.Queue.Claims
import RpaCore.Queue.Deadlines
import RpaCore.Queue.Effects
import RpaCore.Queue.Fifo
import RpaCore.Queue.Intake
import RpaCore.Queue.Leases
import RpaCore.Queue.Methods
import RpaCore.Queue.Pages
import RpaCore.Queue.Read
import RpaCore.Queue.Retries
import RpaCore.Queue.Rows
import RpaCore.Queue.Selection
import RpaCore.Recovery.Basic
import RpaCore.Recovery.Halted
import RpaCore.Recovery.Independence
import RpaCore.Recovery.Lifecycle
import RpaCore.Recovery.Repeated
import RpaCore.Recovery.Resume
import RpaCore.Relational.Batches
import RpaCore.Relational.Table
import RpaCore.Report.Classification
import RpaCore.Report.Markup
import RpaCore.Report.Objects
import RpaCore.Runner.Basic
import RpaCore.Runner.Counters
import RpaCore.Runner.Dispatch
import RpaCore.Runner.Loop
import RpaCore.Runner.Notifiers
import RpaCore.Runner.PostProcessing
import RpaCore.Runner.Summary
import RpaCore.Workers.Basic
import RpaCore.Workers.Execution
import RpaCore.Workers.Fencing
import RpaCore.Workers.Fleet
import RpaCore.Workers.Runs
import RpaCore.Workers.Sends
import RpaCore.Workers.Turns
import RpaCore.Engine.Outcomes
