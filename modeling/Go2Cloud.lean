import Go2Cloud.Lib.Bytes
import Go2Cloud.Lib.Incremental
import Go2Cloud.Lib.ByteStore
import Go2Cloud.Lib.Table
import Go2Cloud.Lib.SharedTable
import Go2Cloud.Lib.Transition
import Go2Cloud.Lib.Framing
import Go2Cloud.Lib.Channels
import Go2Cloud.Lib.CrashLog
import Go2Cloud.Protocol
import Go2Cloud.Client.Msgpack
import Go2Cloud.Client.Wire
import Go2Cloud.Client.Pool
import Go2Cloud.Client.Queue
import Go2Cloud.Server.Decoder
import Go2Cloud.Server.Segmentation
import Go2Cloud.RoundTrip
import Go2Cloud.Server.BlockWriter
import Go2Cloud.Server.Receiver
import Go2Cloud.Server.ResponseStream
import Go2Cloud.Client.AckStream
import Go2Cloud.Client.Reader
import Go2Cloud.Client.FullSync
import Go2Cloud.Client.Hash
import Go2Cloud.Lib.Words
import Go2Cloud.Client.HashChange
import Go2Cloud.Client.Tracker
import Go2Cloud.Client.Round
import Go2Cloud.Migration.Model
import Go2Cloud.Migration.InFlight
import Go2Cloud.Migration.FullMode
import Go2Cloud.Migration.TailSend
import Go2Cloud.Migration.Barrier
import Go2Cloud.Mirror
import Go2Cloud.Migration.LastVersion
import Go2Cloud.Migration.AckVersion
import Go2Cloud.Migration.CrashResume
import Go2Cloud.Migration.FullRun
import Go2Cloud.Migration.Snapshot
import Go2Cloud.Migration.Retransmit
import Go2Cloud.Migration.Remotes
import Go2Cloud.Migration.Incsync
import Go2Cloud.Migration.IncrementalLoop
import Go2Cloud.Migration.Convergence
import Go2Cloud.Migration.WriteCapture
import Go2Cloud.Client.QueueRun
import Go2Cloud.Client.PoolRun
import Go2Cloud.Client.PoolRing
import Go2Cloud.Server.Grammar
import Go2Cloud.Server.DecoderMemory
import Go2Cloud.Migration.Enqueue
import Go2Cloud.Server.WriteSchedule
import Go2Cloud.Server.BinlogAlert
import Go2Cloud.Migration.ReaderTable
import Go2Cloud.Migration.BlockBounds
import Go2Cloud.Migration.TailLoop
import Go2Cloud.Migration.Finishing
import Go2Cloud.Migration.FullSyncRows
import Go2Cloud.Migration.NoResend
import Go2Cloud.Migration.IncsyncSound
import Go2Cloud.Lib.Runs
import Go2Cloud.Lib.CStrings
import Go2Cloud.Client.WriterCalls
import Go2Cloud.Client.Shuffle
import Go2Cloud.Client.SkipList
import Go2Cloud.Server.Sessions
import Go2Cloud.Client.Timer
import Go2Cloud.Lib.Calls
import Go2Cloud.Lib.Json
import Go2Cloud.Lib.JsonLexemes
import Go2Cloud.Migration.DryRun
import Go2Cloud.Migration.Cooldown
import Go2Cloud.Server.DiskConfig
import Go2Cloud.Server.DiskLexemes
import Go2Cloud.Server.ServerRun
import Go2Cloud.Server.LoopRefinement
import Go2Cloud.Server.LoopStreams
import Go2Cloud.Server.LoopWaiting
import Go2Cloud.Migration.Transport
import Go2Cloud.Migration.RoundFairness
import Go2Cloud.Migration.RoundBudget
import Go2Cloud.Migration.CrashWindow
import Go2Cloud.Migration.DryTracker
import Go2Cloud.Lib.Binary64
import Go2Cloud.Migration.RateLimit
import Go2Cloud.Client.Volume
import Go2Cloud.Migration.Setup
import Go2Cloud.Client.QueueHeap
import Go2Cloud.Client.Target
import Go2Cloud.Migration.Versions
import Go2Cloud.Migration.LoopSystem
