import Harness.Foundation.Except
import Harness.Foundation.Machine
import Harness.Foundation.Json
import Harness.Foundation.SafeInteger
import Harness.Foundation.OrderedMap
import Harness.Foundation.JsonDecimal
import Harness.Foundation.JsonText
import Harness.Foundation.Utf8
import Harness.Foundation.Lines
import Harness.Foundation.Splice
import Harness.Session.Event
import Harness.Session.Surface
import Harness.Session.SurfaceHistory
import Harness.Session.Session
import Harness.Session.EventLog
import Harness.Session.Projections
import Harness.Session.Invariant
import Harness.Session.Repair
import Harness.Session.OpenCalls
import Harness.Session.RepairAgrees
import Harness.Session.RepairSound
import Harness.Session.Envelope
import Harness.Session.ChunkRows
import Harness.Session.ChunkDelta
import Harness.Session.ChunkRowShape
import Harness.Session.ChunkRowsSound
import Harness.Session.ChunkRowCanonical
import Harness.Jsonl.Format
import Harness.Jsonl.ScanBytes
import Harness.Jsonl.LogSound
import Harness.Sqlite.Codec
import Harness.Sqlite.Compression
import Harness.Sqlite.SourceSeqs
import Harness.Sqlite.CodecSound
import Harness.Sqlite.BatchSound
import Harness.Sqlite.Store
import Harness.Sqlite.Laid
import Harness.Sqlite.StoreSound
import Harness.Agent.Inbox
import Harness.Agent.InboxSound
import Harness.Meter.TokenMeter
import Harness.Compaction.Region
import Harness.Meter.MeterSound
import Harness.Compaction.Transaction
import Harness.Compaction.TransactionSound
import Harness.Foundation.Text
import Harness.Goal.Fold
import Harness.Goal.Service
import Harness.Goal.FoldSound
import Harness.Goal.ServiceSound
import Harness.Foundation.JsonRecord
import Harness.Persistence.Migration
import Harness.Persistence.MigrationSound
import Harness.Persistence.Reads
import Harness.Persistence.ReadsSound
import Harness.Persistence.Backends
import Harness.Persistence.KeyOrder
import Harness.Persistence.Adoption
import Harness.Persistence.Preparations
import Harness.Persistence.PreparationTable
import Harness.Persistence.PreparationsSound
import Harness.Foundation.DepthFirst
import Harness.AgentTeam.TaskGraph
import Harness.AgentTeam.Fold
import Harness.AgentTeam.TaskBoard
import Harness.AgentTeam.TaskBoardSound
import Harness.Account.BackendRuns
import Harness.Account.ConnectionsSound
import Harness.Schedule.RuntimeSound
import Harness.Projection.Delivery
import Harness.Projection.CacheRuns
import Harness.Scope.LayersSound
import Harness.Attachments.StoreSound
import Harness.LlmRetry.ExecutorSound
import Harness.Settings.StoreSound
import Harness.Jobs.RegistryRuns
import Harness.RemoteAccess.ProjectPeerGrantRuns
import Harness.Compaction.ToolPairingSound
import Harness.RemoteAccess.EndpointPairingMailboxRuns
import Harness.RemoteAccess.RelayDirectory
import Harness.RemoteProtocol.RelaySound
import Harness.Schedule.EveryOccurrence
import Harness.Compaction.SelectionSound
import Harness.Compaction.ToolResultPruner
import Harness.OutputRetention.TextRetainerSound
import Harness.ToolFs.ReadRenderSound
import Harness.RemoteAccess.RelayReady
import Harness.FsLocal.EditSound
import Harness.Llm.AssemblerSound
import Harness.Llm.TranslateSound
import Harness.JsonBoundary.Slots
import Harness.Sqlite.SourceSeqsExact
import Harness.Client.ProjectionStore
import Harness.SessionQuery.WhereSound
import Harness.SessionQuery.SnippetSound
import Harness.FsSearch.GlobSound
import Harness.Jsonl.ZstdFramesSound
import Harness.Redaction.Sound
import Harness.Client.LocationSound
import Harness.Persistence.WriteBehindSound
import Harness.AgentLoop.ToolCallsProgress
