import DtcServer.Machine
import DtcServer.Bytes
import DtcServer.Protocol
import DtcServer.TaskKey
import DtcServer.Barrier
import DtcServer.BarrierRun
import DtcServer.MultiKey
import DtcServer.MultiKeyDecode
import DtcServer.Multiplexer
import DtcServer.Flush
import DtcServer.RowLayout
import DtcServer.RawData
import DtcServer.RawDataSpec
import DtcServer.RawDataCursor
import DtcServer.RawDataRun
import DtcServer.RowFormat
import DtcServer.FieldSet
import DtcServer.Chains
import DtcServer.CacheHash
import DtcServer.CachePool
import DtcServer.CachePoolSpec
import DtcServer.CachePoolRun
import DtcServer.Memory
import DtcServer.Rings
import DtcServer.BinMalloc
import DtcServer.BinMallocBins
import DtcServer.BinMallocHeap
import DtcServer.BinMallocFree
import DtcServer.BinMallocAlloc
import DtcServer.BinMallocReAlloc
import DtcServer.BinMallocRun
import DtcServer.BinMallocCalls
import DtcServer.EmptyFilter
import DtcServer.HashRing
import DtcServer.KeyRoute
import DtcServer.ConsistentHash
import DtcServer.DbRoute
import DtcServer.AsyncFileRun
import DtcServer.Places
import DtcServer.HelperPoolRun
import DtcServer.ClientResourceRun
import DtcServer.NcPoolAccounts
import DtcServer.NcPoolStale
import DtcServer.Segments
import DtcServer.Binlog
import DtcServer.BinlogRead
import DtcServer.BinlogTorn
import DtcServer.BinlogRun
import DtcServer.CacheData
import DtcServer.CacheProcess
import DtcServer.CacheCounters
import DtcServer.CacheRowsRun
import DtcServer.CacheNodesRun
import DtcServer.CacheDirtyRun
import DtcServer.Decoding
import DtcServer.ValueCodec
import DtcServer.ValueEncode
import DtcServer.RequestDecode
import DtcServer.ResultDecode
import DtcServer.LruBit
import DtcServer.LruBitScan
import DtcServer.NodeListRun
import DtcServer.TimeMarker
import DtcServer.EmptyCountRun
import DtcServer.FilterRun
import DtcServer.BinlogSeek
import DtcServer.AgentRingRun
import DtcServer.MigrationRun
import DtcServer.BinMallocEvict
import DtcServer.RowMatching
import DtcServer.RawDataProcess
import DtcServer.RawDataHeader
import DtcServer.UpdateFailure
import DtcServer.RawDataReplace
import DtcServer.RowReplacing
import DtcServer.FlushRows
import DtcServer.ReportedDeltas
import DtcServer.PurgeRequest
import DtcServer.PurgeLoops
import DtcServer.PurgeLoopsRun
import DtcServer.NodeStore
import DtcServer.ReplaceNode
import DtcServer.HandleChange
import DtcServer.TTree
import DtcServer.TTreeTraverse
import DtcServer.TTreeSign
import DtcServer.TaskPendList
import DtcServer.SectionCodec
import DtcServer.FieldListCodec
import DtcServer.FieldUpdate
import DtcServer.FieldBits
import DtcServer.Bits
import DtcServer.KeyPacking
import DtcServer.KeyBuilders
import DtcServer.KeyMemory
import DtcServer.KeyOwnership
import DtcServer.MigrateBarrier
import DtcServer.Vectors
import DtcServer.AgentSendQueue
import DtcServer.AgentReplies
import DtcServer.Framing
import DtcServer.FrontReceiver
import DtcServer.AgentReceiver
import DtcServer.FrontWorker
import DtcServer.AsyncFileWrite
import DtcServer.AsyncFileCrash
import DtcServer.SqlStatements
import DtcServer.HelperSql
import DtcServer.HelperSqlText
import DtcServer.HelperSqlRows
import DtcServer.Defragment
import DtcServer.KeyGuard
import DtcServer.TimerUnit
import DtcServer.LockFreeQueue
import DtcServer.RowConditions
import DtcServer.DbConfigText
import DtcServer.TableDefinition
import DtcServer.TableExchange
import DtcServer.BinMallocFit
import DtcServer.GroupMatrix
import DtcServer.BinMallocSizes
import DtcServer.ClientAsync
import DtcServer.ClientAsyncRun
