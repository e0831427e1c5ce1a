import PolymarketIndexer.Library.Machine
import PolymarketIndexer.Library.Simulation
import PolymarketIndexer.Library.Completion
import PolymarketIndexer.Library.Attempt
import PolymarketIndexer.Library.Loop
import PolymarketIndexer.Library.StableSort
import PolymarketIndexer.Library.DecimalText
import PolymarketIndexer.Library.HexText
import PolymarketIndexer.Library.DelimitedText
import PolymarketIndexer.Library.Unordered
import PolymarketIndexer.Library.SegmentedLog
import PolymarketIndexer.Library.LastWins
import PolymarketIndexer.Library.Tiling
import PolymarketIndexer.Library.Parts
import PolymarketIndexer.Library.Feed
import PolymarketIndexer.Library.Reader
import PolymarketIndexer.Library.Windows
import PolymarketIndexer.Library.Semaphore
import PolymarketIndexer.Library.TopUp
import PolymarketIndexer.Library.SlidingWindow
import PolymarketIndexer.Library.Backoff
import PolymarketIndexer.Library.Avro
import PolymarketIndexer.Decode
import PolymarketIndexer.Reference
import PolymarketIndexer.Normalisation
import PolymarketIndexer.Storage.Disk
import PolymarketIndexer.Storage.Parquet
import PolymarketIndexer.Storage.Segments
import PolymarketIndexer.Storage.Crash
import PolymarketIndexer.Storage.Interrupted
import PolymarketIndexer.Storage.FileSets
import PolymarketIndexer.Storage.Schemas
import PolymarketIndexer.Storage.Attempts
import PolymarketIndexer.Storage.Closing
import PolymarketIndexer.Storage.Atomicity
import PolymarketIndexer.Storage.Confinement
import PolymarketIndexer.Storage.Kafka
import PolymarketIndexer.Storage.TwoSinks
import PolymarketIndexer.Metrics
import PolymarketIndexer.Metrics.Rates
import PolymarketIndexer.Metrics.Server
import PolymarketIndexer.Frontfill.Config
import PolymarketIndexer.Frontfill.Machine
import PolymarketIndexer.Frontfill.Steps
import PolymarketIndexer.Frontfill.Metering
import PolymarketIndexer.Frontfill.Ingest
import PolymarketIndexer.Frontfill.Sinks
import PolymarketIndexer.Frontfill.Success
import PolymarketIndexer.Frontfill.Rotation
import PolymarketIndexer.Frontfill.Shutdown
import PolymarketIndexer.Frontfill.History
import PolymarketIndexer.Frontfill.Durability
import PolymarketIndexer.Frontfill.Counters
import PolymarketIndexer.Frontfill.Health
import PolymarketIndexer.Frontfill.Reconnect
import PolymarketIndexer.Frontfill.Backoff
import PolymarketIndexer.Frontfill.Verdict
import PolymarketIndexer.Frontfill.Interrupted
import PolymarketIndexer.Frontfill.Crash
import PolymarketIndexer.Frontfill.Broker
import PolymarketIndexer.Frontfill.Transparency
import PolymarketIndexer.Frontfill.Progress
import PolymarketIndexer.Frontfill.Stopping
import PolymarketIndexer.Frontfill.Runtime
import PolymarketIndexer.Frontfill.Teardown
import PolymarketIndexer.Frontfill.Interference
import PolymarketIndexer.Frontfill.Rates
import PolymarketIndexer.Backfill.ChunkRanges
import PolymarketIndexer.Backfill.Planning
import PolymarketIndexer.Backfill.Chunk
import PolymarketIndexer.Backfill.WriteParquet
import PolymarketIndexer.Backfill.Run
import PolymarketIndexer.Backfill.Accounting
import PolymarketIndexer.Backfill.Progress
import PolymarketIndexer.Backfill.Termination
import PolymarketIndexer.Backfill.Confluence
import PolymarketIndexer.Backfill.Limiter
import PolymarketIndexer.Backfill.Queue
import PolymarketIndexer.Backfill.Fairness
import PolymarketIndexer.Backfill.Requests
import PolymarketIndexer.Backfill.Chunking
import PolymarketIndexer.Backfill.Completeness
import PolymarketIndexer.Backfill.Retry
import PolymarketIndexer.UnknownLogs
import PolymarketIndexer.Agreement
import PolymarketIndexer.SchemaDiscipline
import PolymarketIndexer.SharedDirectory
import PolymarketIndexer.Archive.Reading
import PolymarketIndexer.Archive.Readers
import PolymarketIndexer.Backfill.Archive
import PolymarketIndexer.Frontfill.Archive
import PolymarketIndexer.Frontfill.Resources
import PolymarketIndexer.Frontfill.Restart
import PolymarketIndexer.Repair
