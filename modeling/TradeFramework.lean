import TradeFramework.Data.Json
import TradeFramework.Library.Raising
import TradeFramework.Data.Schema
import TradeFramework.Data.Semantics
import TradeFramework.Data.Validate
import TradeFramework.Data.Encoding
import TradeFramework.Data.CompiledValidation
import TradeFramework.Data.Normalize
import TradeFramework.Data.SchemaContext
import TradeFramework.Data.Disjoint
import TradeFramework.Data.Compatibility
import TradeFramework.Data.CompatibilitySound
import TradeFramework.Data.NormalForm
import TradeFramework.Contracts.ChildSchema
import TradeFramework.Data.DataPath
import TradeFramework.Contracts.Expansion
import TradeFramework.Contracts.RuntimeTypes
import TradeFramework.Contracts.Reducer
import TradeFramework.Contracts.ReducerSound
import TradeFramework.Contracts.ExpandedRoots
import TradeFramework.Contracts.ChildNormal
import TradeFramework.Contracts.MemberTree
import TradeFramework.Contracts.Resolution
import TradeFramework.Library.Table
import TradeFramework.Library.Transitions
import TradeFramework.Mining.Pages
import TradeFramework.Mining.Store
import TradeFramework.Mining.Leases
import TradeFramework.Mining.Refills
import TradeFramework.Jobs.Request
import TradeFramework.Library.Program
import TradeFramework.Jobs.Manager
import TradeFramework.Jobs.Lifecycle
import TradeFramework.Library.CrashLogic
import TradeFramework.Archive.Transaction
import TradeFramework.Archive.CrashSafety
import TradeFramework.Data.PythonValue
import TradeFramework.Data.FastValidation
import TradeFramework.Library.Lines
import TradeFramework.Library.UniqueScan
import TradeFramework.Results.Frames
import TradeFramework.Library.Substitution
import TradeFramework.Results.Cycle
import TradeFramework.Results.Verification
import TradeFramework.Results.ShardEquivalence
import TradeFramework.UiSync.Hub
import TradeFramework.UiSync.Operations
import TradeFramework.UiSync.Registry
import TradeFramework.Library.JsonText
import TradeFramework.EventStore.EventJson
import TradeFramework.EventStore.Disk
import TradeFramework.EventStore.LogText
import TradeFramework.EventStore.Lifetimes
import TradeFramework.EventStore.Compaction
import TradeFramework.EventStore.Contents
import TradeFramework.EventStore.Conflicts
import TradeFramework.EventStore.Operations
import TradeFramework.EventStore.Replay
import TradeFramework.BasicWorkflow.Dataset
import TradeFramework.BasicWorkflow.Sampler
import TradeFramework.BasicWorkflow.Account
import TradeFramework.BasicWorkflow.Fills
import TradeFramework.Analysis.PerformanceMetrics
import TradeFramework.BasicWorkflow.Brokerage
import TradeFramework.Service.PreparedSubmissions
import TradeFramework.Service.Authorities
import TradeFramework.Library.SingleWriter
import TradeFramework.Control.Auth
import TradeFramework.Control.PasswordChanges
import TradeFramework.Contracts.Reexpansion
import TradeFramework.Contracts.SegmentNames
import TradeFramework.Contracts.NamedWrites
import TradeFramework.Data.PlanMeaning
import TradeFramework.Sampling.RowMap
import TradeFramework.Sampling.WrittenState
import TradeFramework.Sampling.RowMapSound
import TradeFramework.Mining.Ownership
import TradeFramework.EventStore.Creation
import TradeFramework.EventStore.Failures
import TradeFramework.EventStore.ActiveTurns
import TradeFramework.EventStore.Recovery
import TradeFramework.Library.FittingSuffix
import TradeFramework.AgentSession.SessionRestore
import TradeFramework.AgentSession.RestoreCut
import TradeFramework.Contracts.SchemaCaches
import TradeFramework.Contracts.DeclaredData
import TradeFramework.Library.SurrogateText
import TradeFramework.Runtime.OutputSnapshots
import TradeFramework.Runtime.ReusableOutputs
import TradeFramework.AgentSession.PromptAttribution
import TradeFramework.Library.ConsecutiveRuns
import TradeFramework.Mining.Versions
import TradeFramework.Library.AdjacentPairs
import TradeFramework.Mining.Gaps
import TradeFramework.Library.GeneralFormat
import TradeFramework.Mining.GapIdentifiers
import TradeFramework.Contracts.ObservationInput
import TradeFramework.Data.CompatibilityAnswers
import TradeFramework.Editor.ModuleGraph
import TradeFramework.Editor.Lossless
import TradeFramework.Results.TemporaryPlan
import TradeFramework.Results.TemporarySound
import TradeFramework.Chart.RangeInput
import TradeFramework.AgentBridge.ResultQuery
import TradeFramework.Folders.State
import TradeFramework.Folders.Operations
import TradeFramework.Folders.Placement
import TradeFramework.Folders.Rearrange
import TradeFramework.Folders.OperationsSound
import TradeFramework.Folders.Migration
import TradeFramework.Folders.MigrationSound
import TradeFramework.Editor.ConfigForm
import TradeFramework.Editor.FormRoundTrip
