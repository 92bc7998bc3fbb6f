import MicewriterEngine.Lib.Runs
import MicewriterEngine.Lib.SortedMap
import MicewriterEngine.Lib.BigEndian
import MicewriterEngine.Model.RocksDb
import MicewriterEngine.Model.RocksdbStore
import MicewriterEngine.Model.LogStore
import MicewriterEngine.Model.History
import MicewriterEngine.Model.Json
import MicewriterEngine.Model.FieldType
import MicewriterEngine.Model.SchemaFile
import MicewriterEngine.Model.Decoding
import MicewriterEngine.Model.GrpcServer
import MicewriterEngine.Model.FlushEngine
import MicewriterEngine.Proofs.StoreSteps
import MicewriterEngine.Proofs.StoreInvariant
import MicewriterEngine.Proofs.FifoLog
import MicewriterEngine.Proofs.CrashRecovery
import MicewriterEngine.Proofs.SchemaAgreement
import MicewriterEngine.Proofs.Registration
import MicewriterEngine.Proofs.Compile
import MicewriterEngine.Proofs.FlushCycle
import MicewriterEngine.Model.Pipeline
import MicewriterEngine.Proofs.PipelineInvariant
import MicewriterEngine.Proofs.Conservation
import MicewriterEngine.Proofs.PipelineRuns
import MicewriterEngine.Proofs.PipelineStore
import MicewriterEngine.Lib.Waiting
import MicewriterEngine.Model.Locks
import MicewriterEngine.Proofs.LockWaits
import MicewriterEngine.Proofs.LockProgress
import MicewriterEngine.Model.IcebergSchema
import MicewriterEngine.Proofs.ColumnAgreement
import MicewriterEngine.Proofs.RegistrationRules
import MicewriterEngine.Proofs.ReadErrors
import MicewriterEngine.Model.IcebergWriter
import MicewriterEngine.Proofs.CommitRetry
import MicewriterEngine.Model.Committer
import MicewriterEngine.Proofs.CommitterBatch
import MicewriterEngine.Proofs.RetentionLimit
import MicewriterEngine.Model.IngestLoop
import MicewriterEngine.Proofs.IngestAnswers
import MicewriterEngine.Model.TableCreation
import MicewriterEngine.Proofs.TableRace
import MicewriterEngine.Model.Shutdown
import MicewriterEngine.Proofs.ShutdownDrain
import MicewriterEngine.Lib.MapTotal
import MicewriterEngine.Model.ByteAccounting
import MicewriterEngine.Proofs.ByteBalance
import MicewriterEngine.Proofs.FieldIds
import MicewriterEngine.Proofs.JitterWindow
import MicewriterEngine.Proofs.ChunkedCompile
import MicewriterEngine.Proofs.TypeGrammar
import MicewriterEngine.Proofs.OwnSchema
import MicewriterEngine.Proofs.ReopenCounter
import MicewriterEngine.Proofs.SizeTrigger
import MicewriterEngine.Model.ExistenceCaches
import MicewriterEngine.Proofs.CacheSoundness
import MicewriterEngine.Proofs.LossyDecoding
import MicewriterEngine.Proofs.FrameCheck
import MicewriterEngine.Model.Pod
import MicewriterEngine.Proofs.PodInvariant
import MicewriterEngine.Proofs.PodDelivery
import MicewriterEngine.Proofs.PodDrain
import MicewriterEngine.Lib.Numbered
import MicewriterEngine.Model.ConcurrentAppends
import MicewriterEngine.Proofs.ConcurrentAppends
import MicewriterEngine.Proofs.FlushPermits
import MicewriterEngine.Lib.Traversal
import MicewriterEngine.Proofs.FrozenLogs
import MicewriterEngine.Model.FlushTrigger
import MicewriterEngine.Proofs.FlushTrigger
import MicewriterEngine.Model.Config
import MicewriterEngine.Proofs.ConfigChecks
import MicewriterEngine.Model.CfHandles
import MicewriterEngine.Proofs.CfHandles
