/- FunWithDragonflyDB
   digest: The rule router over Redis hashes, its Python and Go versions, and what they guarantee. -/

import FunWithDragonflyDB.Lib.Words
import FunWithDragonflyDB.Lib.Search
import FunWithDragonflyDB.Lib.FloorPartition
import FunWithDragonflyDB.Lib.CeilLog
import FunWithDragonflyDB.Lib.HashStore
import FunWithDragonflyDB.Lib.Outcome
import FunWithDragonflyDB.Lib.Interleaving
import FunWithDragonflyDB.Lib.Distinct
import FunWithDragonflyDB.Lib.Lines
import FunWithDragonflyDB.Lib.NearestRank
import FunWithDragonflyDB.Lib.Replication
import FunWithDragonflyDB.Lib.Snapshots
import FunWithDragonflyDB.Lib.Spans
import FunWithDragonflyDB.Lib.LeastScan
import FunWithDragonflyDB.Fqdn.Strings
import FunWithDragonflyDB.Fqdn.Pattern
import FunWithDragonflyDB.Fqdn.Candidates
import FunWithDragonflyDB.Fqdn.Slots
import FunWithDragonflyDB.Fqdn.BucketTable
import FunWithDragonflyDB.Fqdn.TokenSearch
import FunWithDragonflyDB.Fqdn.SlotCoverage
import FunWithDragonflyDB.Fqdn.TableTotal
import FunWithDragonflyDB.Fqdn.Script
import FunWithDragonflyDB.Fqdn.Router
import FunWithDragonflyDB.Fqdn.Keys
import FunWithDragonflyDB.Fqdn.Placement
import FunWithDragonflyDB.Fqdn.Lookup
import FunWithDragonflyDB.Fqdn.Writes
import FunWithDragonflyDB.Fqdn.Reference
import FunWithDragonflyDB.Fqdn.Refinement
import FunWithDragonflyDB.Fqdn.GoPattern
import FunWithDragonflyDB.Fqdn.GoSlots
import FunWithDragonflyDB.Fqdn.ServiceSlots
import FunWithDragonflyDB.Fqdn.GoRouter
import FunWithDragonflyDB.Fqdn.ServiceStore
import FunWithDragonflyDB.Fqdn.SlotParity
import FunWithDragonflyDB.Fqdn.GoStores
import FunWithDragonflyDB.Fqdn.WireLayout
import FunWithDragonflyDB.Fqdn.GoLookup
import FunWithDragonflyDB.Fqdn.Clients
import FunWithDragonflyDB.Fqdn.ReplicaAgreement
import FunWithDragonflyDB.Fqdn.StableRule
import FunWithDragonflyDB.Lib.Trimming
import FunWithDragonflyDB.Fqdn.Ascii
import FunWithDragonflyDB.Fqdn.NameParity
import FunWithDragonflyDB.Fqdn.Grpc
import FunWithDragonflyDB.Fqdn.CandidateSpec
import FunWithDragonflyDB.Fqdn.Counts
import FunWithDragonflyDB.Fqdn.BulkLoad
import FunWithDragonflyDB.Fqdn.RecordUpkeep
import FunWithDragonflyDB.Lib.Chunks
import FunWithDragonflyDB.Cdc.Listener
import FunWithDragonflyDB.Cdc.Items
import FunWithDragonflyDB.Cdc.Acknowledge
import FunWithDragonflyDB.Cdc.RowKeys
import FunWithDragonflyDB.Cdc.Mirror
import FunWithDragonflyDB.Bench.Layout
import FunWithDragonflyDB.Bench.Mix
import FunWithDragonflyDB.Bench.Workload
import FunWithDragonflyDB.Bench.WritePhase
import FunWithDragonflyDB.Bench.GroundTruth
import FunWithDragonflyDB.Fqdn.BucketGuard
import FunWithDragonflyDB.Fqdn.ModeOrder
import FunWithDragonflyDB.Lib.Pipeline
import FunWithDragonflyDB.Lib.Batches
import FunWithDragonflyDB.Fqdn.Rejection
import FunWithDragonflyDB.Fqdn.CanonicalName
import FunWithDragonflyDB.Fqdn.TierTags
import FunWithDragonflyDB.Lib.Crc
import FunWithDragonflyDB.Fqdn.CrcPolynomial
import FunWithDragonflyDB.Bench.PyLayout
import FunWithDragonflyDB.Bench.RuleSpace
import FunWithDragonflyDB.Cdc.Flush
import FunWithDragonflyDB.Lib.Greatest
import FunWithDragonflyDB.Bench.TopSlow
import FunWithDragonflyDB.Lib.Binary64
import FunWithDragonflyDB.Lib.Shortest
import FunWithDragonflyDB.Lib.JsonValues
import FunWithDragonflyDB.Cdc.Documents
import FunWithDragonflyDB.Cdc.Preserved
import FunWithDragonflyDB.Cdc.Conversions
import FunWithDragonflyDB.Cdc.Refinement
import FunWithDragonflyDB.Fqdn.ModuloMatch
import FunWithDragonflyDB.Fqdn.SlotRanges
import FunWithDragonflyDB.Bench.Latency
import FunWithDragonflyDB.Bench.QueryFile
import FunWithDragonflyDB.Memory.Configs
import FunWithDragonflyDB.Memory.Sweep
import FunWithDragonflyDB.Memory.Populate
import FunWithDragonflyDB.Lib.Patterns
import FunWithDragonflyDB.Lib.Calendar
import FunWithDragonflyDB.Lib.Doubles
import FunWithDragonflyDB.Lib.FixedWidth
import FunWithDragonflyDB.Bench.SlowReport
import FunWithDragonflyDB.Bench.Correlate
import FunWithDragonflyDB.Bench.TimeStamps
import FunWithDragonflyDB.Bench.SlowRows
import FunWithDragonflyDB.Bench.ReportReadBack
import FunWithDragonflyDB.Lib.WorkerPool
import FunWithDragonflyDB.Bench.Sampling
import FunWithDragonflyDB.Bench.QueryPhase
import FunWithDragonflyDB.Bench.PyQueryPhase
import FunWithDragonflyDB.Fqdn.Footprint
import FunWithDragonflyDB.Lib.Sections
import FunWithDragonflyDB.Bench.IoStat
import FunWithDragonflyDB.Bench.NearestSample
import FunWithDragonflyDB.Lib.Runs
import FunWithDragonflyDB.Bench.WarmUp
