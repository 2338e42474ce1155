import S4Logs.Lib.Run
import S4Logs.Lib.Assoc
import S4Logs.Lib.Bytes
import S4Logs.Lib.Json
import S4Logs.Lib.Text
import S4Logs.Lib.Bounds
import S4Logs.Core.Deps
import S4Logs.Core.Record
import S4Logs.Core.TsIndex
import S4Logs.Core.Layout
import S4Logs.Core.Chunk
import S4Logs.Core.Read
import S4Logs.Core.Sink
import S4Logs.Core.Concrete
import S4Logs.Laws.Core.Chunk
import S4Logs.Laws.Core.Layout
import S4Logs.Laws.Core.Keys
import S4Logs.Laws.Core.Dates
import S4Logs.Lib.Sorting
import S4Logs.Laws.Core.Frames
import S4Logs.Laws.Core.Roundtrip
import S4Logs.Drain.Window
import S4Logs.Drain.Manifest
import S4Logs.Drain.Retention
import S4Logs.Drain.Shard
import S4Logs.Drain.Job
import S4Logs.Drain.Reconcile
import S4Logs.Drain.Task
import S4Logs.Drain.Run
import S4Logs.Drain.Concrete
import S4Logs.Laws.Drain.Window
import S4Logs.Laws.Drain.Retention
import S4Logs.Laws.Drain.Naming
import S4Logs.Laws.Drain.Task
import S4Logs.Laws.Drain.Slots
import S4Logs.Laws.Drain.Filed
import S4Logs.Laws.Drain.Run
import S4Logs.Laws.Drain.Covered
import S4Logs.Laws.Drain.Paging
import S4Logs.Laws.Drain.Sharded
import S4Logs.Laws.Drain.Filing
import S4Logs.Laws.Drain.Sound
import S4Logs.Laws.Drain.Integrity
import S4Logs.Laws.Drain.Clobber
import S4Logs.Laws.Drain.Retained
import S4Logs.Gateway.Wal
import S4Logs.Gateway.Buffer
import S4Logs.Gateway.Machine
import S4Logs.Gateway.Concrete
import S4Logs.Gateway.Auth
import S4Logs.Laws.Gateway.Wal
import S4Logs.Laws.Gateway.Buffer
import S4Logs.Laws.Gateway.Machine
import S4Logs.Laws.Gateway.Ledger
import S4Logs.Laws.Gateway.Rule
import S4Logs.Laws.Gateway.Dated
import S4Logs.Laws.Gateway.Cap
import S4Logs.Laws.Gateway.Conserved
import S4Logs.Laws.Gateway.Section
import S4Logs.Laws.Gateway.Disk
import S4Logs.Laws.Gateway.Atomic
import S4Logs.Laws.Gateway.Once
import S4Logs.Laws.Gateway.Mirror
import S4Logs.Laws.Gateway.Durable
import S4Logs.Laws.Gateway.Cancelled
import S4Logs.Laws.Drain.Fidelity
import S4Logs.Laws.Drain.Repair
import S4Logs.Laws.Drain.Laid
import S4Logs.Laws.Drain.Merged
import S4Logs.Laws.Drain.Quiet
import S4Logs.Laws.Drain.Converge
import S4Logs.Laws.Drain.Orphans
import S4Logs.Laws.Drain.Regroup
import S4Logs.Laws.Drain.Grid
import S4Logs.Laws.Drain.Plan
import S4Logs.Core.Store
import S4Logs.Cli.Merge
import S4Logs.Cli.Scan
import S4Logs.Cli.Concrete
import S4Logs.Laws.Cli.Merge
import S4Logs.Laws.Cli.Dates
import S4Logs.Laws.Cli.Clusters
import S4Logs.Laws.Cli.Source
import S4Logs.Laws.Cli.Paths
import S4Logs.Laws.Cli.Listing
import S4Logs.Laws.Gateway.Auth
import S4Logs.Laws.Core.TsIndex
import S4Logs.Core.Put
import S4Logs.Laws.Cli.Object
import S4Logs.Lib.Fallible
import S4Logs.Laws.Cli.Overwrite
import S4Logs.Laws.Drain.ManifestKeys
import S4Logs.Cli.Restore
import S4Logs.Laws.Cli.Batches
import S4Logs.Lib.Calendar
import S4Logs.Laws.Gateway.AmzDate
import S4Logs.Lib.OrdMap
import S4Logs.Lib.Intervals
import S4Logs.Cli.Report
import S4Logs.Laws.Cli.Coverage
import S4Logs.Lib.Runs
import S4Logs.Laws.Core.Coalesce
import S4Logs.Lib.Paging
import S4Logs.Gateway.Registry
import S4Logs.Laws.Gateway.Describe
import S4Logs.Laws.Cli.Whole
import S4Logs.Drain.Report
import S4Logs.Lib.Erasure
import S4Logs.Laws.Drain.DryStep
import S4Logs.Laws.Drain.DryRun
import S4Logs.Lib.Digest
import S4Logs.Laws.Drain.Identity
import S4Logs.Laws.Drain.Shards
import S4Logs.Laws.Core.Preview
import S4Logs.Laws.Gateway.Civil
import S4Logs.Laws.Drain.Attempts
import S4Logs.Lib.Parts
import S4Logs.Laws.Cli.Exact
import S4Logs.Laws.Core.Torn
import S4Logs.Laws.Core.Partition
import S4Logs.Laws.Gateway.Written
import S4Logs.Laws.Gateway.Received
import S4Logs.Laws.Drain.Received
import S4Logs.Laws.Partitions
import S4Logs.Lib.Simulation
import S4Logs.Lib.Retry
import S4Logs.Lib.Tokens
import S4Logs.Drain.Cw
import S4Logs.Drain.Discover
import S4Logs.Laws.Drain.Cw
import S4Logs.Laws.Drain.Discover
import S4Logs.Drain.Groups
import S4Logs.Laws.Drain.Owned
import S4Logs.Laws.Drain.Groups
import S4Logs.Laws.Drain.Alone
import S4Logs.Laws.Drain.Expiry
import S4Logs.Laws.Drain.Accounted
import S4Logs.Cli.Drain
import S4Logs.Laws.Cli.Drain
import S4Logs.Gateway.Routing
import S4Logs.Gateway.Handlers
import S4Logs.Gateway.Service
import S4Logs.Laws.Gateway.Service
import S4Logs.Laws.Gateway.Answers
import S4Logs.Laws.Gateway.Told
import S4Logs.Laws.Gateway.LetIn
import S4Logs.Cli.Reingest
import S4Logs.Laws.Cli.Reingest
import S4Logs.Laws.Cli.Restored
import S4Logs.Laws.Drain.Scanned
import S4Logs.Laws.Gateway.Scanned
import S4Logs.Laws.Gateway.Safeguarded
import S4Logs.Laws.Gateway.Server
import S4Logs.Gateway.Server
