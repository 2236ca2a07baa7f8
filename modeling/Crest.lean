import Crest.JsString
import Crest.JsMap
import Crest.Json
import Crest.Runs
import Crest.WriterLease
import Crest.WriterLeaseInvariant
import Crest.WriterLeaseEvents
import Crest.WriterLeaseSafety
import Crest.SnapshotQuota
import Crest.SnapshotQuotaInvariant
import Crest.SnapshotQuotaSafety
import Crest.SnapshotQuotaRuns
import Crest.SessionEntry
import Crest.EntryTransaction
import Crest.TransactionVisibility
import Crest.SessionAppend
import Crest.CapturedPath
import Crest.Interruption
import Crest.ApplyDirectory
import Crest.ApplyWorker
import Crest.ApplyWorkerSteps
import Crest.ArtifactReconcile
import Crest.ArtifactRecovery
import Crest.Utf16
import Crest.JsonRecord
import Crest.Base64
import Crest.WorkspacePath
import Crest.WorkspaceTypes
import Crest.WorkspaceValidation
import Crest.WorkspaceRoundTrip
import Crest.SnapshotStore
import Crest.PendingRestore
import Crest.RestoreState
import Crest.CheckpointRoundTrip
import Crest.SessionBranch
import Crest.SessionState
import Crest.TurnRestorePlan
import Crest.TurnWindow
import Crest.TurnTransactions
import Crest.TurnOffers
import Crest.TurnAgreement
import Crest.TurnDivergence
import Crest.StreamReader
import Crest.StreamWriter
import Crest.StreamLink
import Crest.StreamLinkPackets
import Crest.StreamLinkReceive
import Crest.StreamLinkDelivery
import Crest.StreamLinkFlow
import Crest.StreamLinkSafety
import Crest.PendingBoundary
import Crest.SnapshotOwners
import Crest.SnapshotRetention
import Crest.SnapshotRetentionSafety
import Crest.Ring
import Crest.CirBuf
import Crest.StreamManager
import Crest.StreamManagerInvariant
import Crest.StreamManagerSafety
import Crest.SessionLog
import Crest.SessionConcurrency
import Crest.Faults
import Crest.CheckpointManager
import Crest.CheckpointManagerInvariant
import Crest.CheckpointManagerRules
import Crest.CheckpointManagerTurns
import Crest.CheckpointManagerRecovery
import Crest.CheckpointManagerSafety
import Crest.SliceSort
import Crest.QuickReorderQueue
import Crest.QuickReorderQueueRuns
import Crest.QuickReorderQueueOrder
import Crest.QuickReorderQueueSequence
import Crest.QuickReorderQueueSession
import Crest.QuickReorderQueueContract
import Crest.IJson
import Crest.IJsonFrontend
import Crest.IJsonAgreement
import Crest.IJsonCommands
import Crest.WorkspaceLock
import Crest.WorkspaceLockInvariant
import Crest.WorkspaceLockExclusion
import Crest.WorkspaceLockTurns
import Crest.OscParser
import Crest.CommandBlocks
import Crest.CommandBlocksTable
import Crest.CommandBlocksInvariant
import Crest.CommandBlocksEvents
import Crest.CommandBlocksSafety
import Crest.WorkspaceLockCalm
import Crest.WorkspaceLockContention
import Crest.WorkspaceLockRecovery
import Crest.Compaction
import Crest.CompactionCut
import Crest.CompactionContext
import Crest.CompactionSafety
import Crest.PendingBoundaryJson
import Crest.PendingBoundaryStore
import Crest.PendingBoundaryInvariant
import Crest.PendingBoundarySteps
import Crest.PendingBoundaryRecovery
import Crest.PendingBoundaryCrashes
import Crest.JournalPublication
import Crest.JournalPublicationInvariant
import Crest.JournalPublicationReaders
import Crest.JournalPublicationSteps
import Crest.JournalPublicationSafety
import Crest.JobController
import Crest.JobControllerInvariant
import Crest.JobControllerSteps
import Crest.JobControllerSafety
import Crest.JobControllerLife
import Crest.FileRuntime
import Crest.FileRuntimeInvariant
import Crest.FileRuntimeSafety
import Crest.CodeUnits
import Crest.TopTabPath
import Crest.TopTabContent
import Crest.TopTabHydrate
import Crest.TopTabReducer
import Crest.TopTabAgreement
import Crest.TopTabNormalize
import Crest.TopTabRoundTrip
import Crest.Utf8
import Crest.TopTabStore
import Crest.TopTabQueue
import Crest.TopTabQueueMerge
import Crest.TopTabQueueInvariant
import Crest.TopTabQueueSafety
import Crest.TopTabQueueRuns
import Crest.CirBufQueue
import Crest.StreamAcks
import Crest.StreamAcksSafety
import Crest.MutationLog
import Crest.MutationLogOverlap
import Crest.ShadowIndex
import Crest.ShadowIndexUpdate
import Crest.Double
import Crest.NumberText
import Crest.JsonText
import Crest.JsonCanonical
import Crest.CanonicalJson
import Crest.ShadowIndexSafety
import Crest.Layout
import Crest.LayoutBalance
import Crest.LayoutOrder
import Crest.IJsonPaths
import Crest.ChangeFeed
import Crest.ChangeFeedSafety
import Crest.LowerBound
import Crest.PathRoots
import Crest.GitBaseline
import Crest.GitBaselineSafety
import Crest.GitBaselineCapture
import Crest.OscGrammar
import Crest.TruncateTail
import Crest.OutputAccumulator
import Crest.OutputSnapshots
import Crest.RouterBacklog
import Crest.RouterBacklogSafety
import Crest.TrackerRegistry
import Crest.TrackerInvariant
import Crest.TrackerSharing
import Crest.RpcResponses
import Crest.RpcResponsesSafety
import Crest.RpcResponsesRuns
import Crest.FirstFit
import Crest.ContextSummary
import Crest.ContextSummaryChunks
import Crest.Splices
import Crest.EditDiff
import Crest.EditFuzzy
import Crest.EditMatches
import Crest.Utf16Cut
import Crest.EditTool
import Crest.DormantRing
import Crest.ContextReferences
import Crest.WaveObjectCache
import Crest.EventBroker
import Crest.GoStrings
import Crest.GitParser
import Crest.GitReadBack
import Crest.CommandTail
import Crest.LayoutInsert
import Crest.Slots
import Crest.ReadTail
import Crest.ShellQuote
import Crest.RpcLines
