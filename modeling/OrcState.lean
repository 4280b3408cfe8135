import OrcState.Foundation.Transition
import OrcState.Foundation.Transaction
import OrcState.Foundation.Table
import OrcState.Foundation.Ownership
import OrcState.Foundation.Sweep
import OrcState.Contract.Types
import OrcState.Contract.Event
import OrcState.Contract.Command
import OrcState.Store.EventsDb
import OrcState.Command.Delivery
import OrcState.Command.Lifecycle
import OrcState.Command.Refinement
import OrcState.Command.System
import OrcState.Command.Safety
import OrcState.Lock.StateLock
import OrcState.Lock.CoordinatorLock
import OrcState.Cursor.Offsets
import OrcState.Cursor.System
import OrcState.Cursor.Safety
import OrcState.Contract.Task
import OrcState.Store.ProjectTaskStore
import OrcState.Store.ProjectTasks
import OrcState.Store.RunStore
import OrcState.Foundation.Effect
import OrcState.Lifecycle.ClaimManager
import OrcState.Lifecycle.Leases
import OrcState.Lifecycle.Reconcile
import OrcState.Lifecycle.ClaimState
import OrcState.Lifecycle.Operator
import OrcState.Lifecycle.WorkerLifecycle
import OrcState.Lifecycle.Views
import OrcState.Lifecycle.System
import OrcState.Lifecycle.Outcomes
import OrcState.Lifecycle.Passes
import OrcState.Store.TaskRows
import OrcState.Lifecycle.Session
import OrcState.Lifecycle.Invariant
import OrcState.Lifecycle.Coherence
import OrcState.Lifecycle.Agreement
import OrcState.Lifecycle.Atomicity
import OrcState.Lifecycle.Residue
import OrcState.Coordinator.Reducer
import OrcState.Lifecycle.Ledger
import OrcState.Lifecycle.Endings
import OrcState.Coordinator.Announcement
import OrcState.Lifecycle.History
import OrcState.Lifecycle.Commits
import OrcState.Lifecycle.Recovery
import OrcState.Lifecycle.Crash
import OrcState.Foundation.History
import OrcState.Store.Operations
import OrcState.Store.TransitionHistory
import OrcState.Contract.Spec
import OrcState.Store.Revisions
import OrcState.Store.RevisionSafety
import OrcState.Store.RevisionViews
import OrcState.Coordinator.Deliveries
import OrcState.Coordinator.Renewal
import OrcState.Finalization.GitHost
import OrcState.Finalization.Machine
import OrcState.Finalization.Handoff
import OrcState.Finalization.Moves
import OrcState.Finalization.Graph
import OrcState.Finalization.MergeSafety
import OrcState.Finalization.PullRequests
import OrcState.Control.Stream
import OrcState.Control.StreamDelivery
import OrcState.Terminal.Broker
import OrcState.Terminal.Leases
import OrcState.Contract.Agent
import OrcState.Supervision.Sessions
import OrcState.Supervision.OneLive
import OrcState.Messaging.Mailbox
import OrcState.Messaging.InputAnswers
import OrcState.Supervision.SessionReset
import OrcState.Store.TaskSlices
import OrcState.Supervision.TaskRollback
import OrcState.Supervision.SessionRollback
import OrcState.Supervision.Rollback
import OrcState.Store.CommittedRows
import OrcState.Store.ReadBack
import OrcState.Store.LegacyEvents
import OrcState.Lifecycle.OnePass
import OrcState.Lifecycle.Attempts
import OrcState.Lifecycle.Budget
import OrcState.Coordinator.Redelivery
import OrcState.Coordinator.Timestamps
import OrcState.Lifecycle.Diagnostics
import OrcState.Finalization.RebaseBudget
import OrcState.Lifecycle.Claiming
import OrcState.Command.Acknowledgement
import OrcState.Command.Deadlines
import OrcState.Messaging.Unaddressed
import OrcState.Coordinator.DispatchPlan
import OrcState.Coordinator.DispatchProgress
import OrcState.Provider.CodexAppServer
import OrcState.Provider.TurnAttribution
import OrcState.Coordinator.Hydration
import OrcState.Foundation.Utf8
import OrcState.Terminal.Output
import OrcState.Foundation.JsonString
import OrcState.Markdown.Frontmatter
import OrcState.Markdown.Block
import OrcState.Markdown.ScalarLines
import OrcState.Markdown.ScalarRoundTrip
import OrcState.Markdown.TaskMarkdown
import OrcState.Authoring.Import
import OrcState.Foundation.JsonValue
import OrcState.Provider.JsonLines
import OrcState.Terminal.LeaseTerm
import OrcState.Terminal.InputTokens
import OrcState.Memory.Drawers
import OrcState.Registry.ProjectRegistry
import OrcState.Backlog.SpecSync
import OrcState.Markdown.Titles
import OrcState.Authoring.Definition
import OrcState.Authoring.ImportSafety
import OrcState.Supervision.SessionReuse
import OrcState.Coordinator.Watchdog
import OrcState.Coordinator.WatchdogCalls
import OrcState.Coordinator.WatchdogBudget
import OrcState.Coordinator.WatchdogWarnings
import OrcState.Coordinator.WatchdogProgress
import OrcState.Foundation.Migrations
import OrcState.Foundation.RelationalRebuild
import OrcState.Foundation.RelationalScript
import OrcState.Store.RuntimeSchema
import OrcState.Store.RuntimeUpgrade
import OrcState.Foundation.Paths
import OrcState.Foundation.JsonArray
import OrcState.Provider.Writes
import OrcState.Control.Dispatch
import OrcState.Control.AtMostOnce
