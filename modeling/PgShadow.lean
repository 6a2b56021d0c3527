import PgShadow.Lib.Machine
import PgShadow.Lib.Decoder
import PgShadow.Lib.BigEndian
import PgShadow.Lib.ConnString
import PgShadow.Lib.Reader
import PgShadow.Lib.Scan
import PgShadow.Lib.Spans
import PgShadow.Lib.Regex
import PgShadow.Lib.FramedLog
import PgShadow.Lib.BoundedQueue
import PgShadow.Lib.Monitor
import PgShadow.Lib.Tickets
import PgShadow.Core
import PgShadow.Protocol.Framing
import PgShadow.Protocol.Chunks
import PgShadow.Protocol.Collaborators
import PgShadow.Protocol.CopyHistory
import PgShadow.Protocol.BindRoundTrip
import PgShadow.Protocol.Resilience
import PgShadow.Filter.Classifier
import PgShadow.Filter.Decide
import PgShadow.Filter.TxControl
import PgShadow.Filter.TxLex
import PgShadow.Filter.TxClassify
import PgShadow.Filter.Lexemes
import PgShadow.Filter.Split
import PgShadow.Filter.Batch
import PgShadow.Filter.Elements
import PgShadow.Pipeline.Processor
import PgShadow.Pipeline.Session
import PgShadow.Pipeline.Refinement
import PgShadow.Pipeline.Trace
import PgShadow.Pipeline.Startup
import PgShadow.Pipeline.Statements
import PgShadow.Pipeline.Isolation
import PgShadow.Pipeline.Order
import PgShadow.Pipeline.Transactions
import PgShadow.Pipeline.Pooler
import PgShadow.Pipeline.Grouping
import PgShadow.Pipeline.Autocommit
import PgShadow.Pipeline.Timing
import PgShadow.Pipeline.Release
import PgShadow.Capture.Reassembler
import PgShadow.Capture.Open
import PgShadow.Lib.Acquire
import PgShadow.Capture.Sources
import PgShadow.Config.Load
import PgShadow.Capture.Ssl
import PgShadow.Capture.SslSeq
import PgShadow.Capture.SslPlaintext
import PgShadow.Capture.SslIdentity
import PgShadow.Capture.Xdp
import PgShadow.Queue.Codec
import PgShadow.Queue.FileQueue
import PgShadow.Queue.Producers
import PgShadow.Queue.RingBuffer
import PgShadow.Queue.Kafka
import PgShadow.Replayer.Params
import PgShadow.Go.Netip
import PgShadow.Go.Runes
import PgShadow.Replayguard.Guard
import PgShadow.Replayguard.New
import PgShadow.Replayer.Run
import PgShadow.Replayer.Backpressure
import PgShadow.Lib.Ownership
import PgShadow.Replayer.Pool
import PgShadow.Replayer.Leases
import PgShadow.Replayer.Executor
import PgShadow.Sql.Scan
import PgShadow.Replayer.Target
import PgShadow.Replayer.Transaction
import PgShadow.Replayguard.ReadOnly
import PgShadow.Replayer.Dialect
import PgShadow.Replayer.Dsn
import PgShadow.Replayer.Pacing
import PgShadow.Replayguard.Users
import PgShadow.Replayguard.Ddl
import PgShadow.Cmd.Pipeline
import PgShadow.Cmd.Failover
import PgShadow.Control.Server
import PgShadow.Cmd.SourceHost
import PgShadow.Lib.Circular
import PgShadow.Queue.Poison
import PgShadow.Queue.RingFifo
import PgShadow.Queue.CodecSafety
import PgShadow.Queue.FileLoss
import PgShadow.Queue.RoundTrip
import PgShadow.Filter.CaseFold
import PgShadow.Filter.Invocation
import PgShadow.Filter.NameScan
import PgShadow.Filter.NameContext
import PgShadow.Filter.NameRole
import PgShadow.Go.Regexp
import PgShadow.Go.TimeFormat
import PgShadow.Replayguard.Literals
import PgShadow.Replayguard.Outside
import PgShadow.Replayguard.External
import PgShadow.Replayguard.TimePatterns
import PgShadow.Replayguard.TimeStages
import PgShadow.Replayguard.Rewriting
import PgShadow.Replayguard.Times
import PgShadow.Cmd.Producer
import PgShadow.Cmd.Drain
import PgShadow.Queue.KafkaConsumer
import PgShadow.Replayer.UnboundedLane
import PgShadow.Cmd.Lifecycle
