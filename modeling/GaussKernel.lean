import GaussKernel.Adt.BiDiv
import GaussKernel.Adt.BiOut
import GaussKernel.Adt.BigInteger
import GaussKernel.Adt.Convert
import GaussKernel.Adt.Format
import GaussKernel.Adt.HashBi
import GaussKernel.Adt.Like
import GaussKernel.Adt.LikeMatch
import GaussKernel.Adt.Var
import GaussKernel.CStore.ColumnUnit
import GaussKernel.CStore.Delta
import GaussKernel.CStore.Delta2
import GaussKernel.CStore.Dictionary
import GaussKernel.CStore.IntegerCoder
import GaussKernel.CStore.Rle
import GaussKernel.CStore.StringCoder
import GaussKernel.CStore.XorBound
import GaussKernel.CStore.XorCodec
import GaussKernel.Cbb.BloomBuilt
import GaussKernel.Cbb.BloomFilter
import GaussKernel.Cbb.BloomIncluded
import GaussKernel.Cbb.BloomTables
import GaussKernel.Cbb.Hll
import GaussKernel.Cbb.HllPack
import GaussKernel.Cbb.HllSize
import GaussKernel.Cbb.HllUnion
import GaussKernel.Cbb.SparseCode
import GaussKernel.Cbb.SparseForm
import GaussKernel.Cfs.Extent
import GaussKernel.Cfs.ExtentMap
import GaussKernel.Cfs.ExtentRun
import GaussKernel.Freespace.FreeSpace
import GaussKernel.Freespace.FreeSpaceRun
import GaussKernel.Freespace.FsmPage
import GaussKernel.Heap.XidBase
import GaussKernel.Ipc.SinvalQueue
import GaussKernel.Ipc.SinvalRun
import GaussKernel.Ledger.Balance
import GaussKernel.Ledger.Numbers
import GaussKernel.Ledger.Tables
import GaussKernel.Lib.Bits
import GaussKernel.Lib.Bytes
import GaussKernel.Lib.Circular
import GaussKernel.Lib.Collect
import GaussKernel.Lib.Decimal
import GaussKernel.Lib.Dense
import GaussKernel.Lib.Fifo
import GaussKernel.Lib.Follow
import GaussKernel.Lib.Ieee
import GaussKernel.Lib.Issued
import GaussKernel.Lib.Ledger
import GaussKernel.Lib.Linked
import GaussKernel.Lib.MaxTree
import GaussKernel.Lib.OrderStat
import GaussKernel.Lib.PagedTable
import GaussKernel.Lib.Pieces
import GaussKernel.Lib.Prefix
import GaussKernel.Lib.Probe
import GaussKernel.Lib.Radix
import GaussKernel.Lib.RangeList
import GaussKernel.Lib.Redo
import GaussKernel.Lib.Registers
import GaussKernel.Lib.Replay
import GaussKernel.Lib.Resume
import GaussKernel.Lib.Rounding
import GaussKernel.Lib.Runs
import GaussKernel.Lib.Share
import GaussKernel.Lib.Slide
import GaussKernel.Lib.Trace
import GaussKernel.Lib.UpTo
import GaussKernel.Lib.Wildcard
import GaussKernel.Mot.Column
import GaussKernel.Mot.FloatKey
import GaussKernel.Mot.GcChain
import GaussKernel.Mot.GcQueue
import GaussKernel.Mot.GcReclaim
import GaussKernel.Mot.KeyOrder
import GaussKernel.Mot.LimboGroup
import GaussKernel.Partition.ColumnRange
import GaussKernel.Partition.IntervalBound
import GaussKernel.Partition.ListRouting
import GaussKernel.Partition.PartitionKey
import GaussKernel.Partition.PartitionMap
import GaussKernel.Partition.RangeRouting
import GaussKernel.Partition.TupleLocate
import GaussKernel.Replication.ShmQueue
import GaussKernel.Replication.SyncRep
import GaussKernel.Replication.SyncRepArray
import GaussKernel.Replication.SyncRepLoops
import GaussKernel.Replication.SyncRepPlaces
import GaussKernel.Replication.SyncRepQueue
import GaussKernel.Replication.SyncRepWait
import GaussKernel.Security.IpRange
import GaussKernel.Security.IpRangeParse
import GaussKernel.Security.IpRangePrefix
import GaussKernel.Security.IpRangeSearch
import GaussKernel.Security.IpRangeSet
import GaussKernel.Security.IpRangeText
import GaussKernel.Segment.BlockMap
import GaussKernel.Segment.BlockMapInv
import GaussKernel.Segment.BlockMapRun
import GaussKernel.Segment.BlockMapStep
import GaussKernel.Segment.BucketDrop
import GaussKernel.Segment.BucketMove
import GaussKernel.Segment.ExtentAddress
import GaussKernel.Segment.ExtentBit
import GaussKernel.Segment.ExtentGroup
import GaussKernel.Segment.ExtentGrow
import GaussKernel.Segment.ExtentInvariant
import GaussKernel.Segment.ExtentLayout
import GaussKernel.Segment.ExtentRedo
import GaussKernel.Segment.ExtentSearch
import GaussKernel.Segment.ExtentUse
import GaussKernel.Segment.GrownSegment
import GaussKernel.Segment.InversePtr
import GaussKernel.Segment.PackedGroup
import GaussKernel.Segment.PointerOwner
import GaussKernel.Segment.SegStore
import GaussKernel.Segment.SegXlog
import GaussKernel.Segment.ShrinkTarget
import GaussKernel.Segment.SlotBounds
import GaussKernel.Segment.Writeback
import GaussKernel.Transam.CsnExtend
import GaussKernel.Transam.CsnLog
import GaussKernel.Transam.SpscFifo
import GaussKernel.Transam.SpscQueue
import GaussKernel.Transam.SpscRing
import GaussKernel.Transam.TreeCommit
import GaussKernel.UHeap.AddItem
import GaussKernel.UHeap.Compactify
import GaussKernel.UHeap.InplaceUpdate
import GaussKernel.UHeap.PageLayout
import GaussKernel.UHeap.PageRows
import GaussKernel.UHeap.SlotReuse
import GaussKernel.UHeap.TransSlot
import GaussKernel.Undo.Meta
import GaussKernel.Undo.Ptr
import GaussKernel.Undo.Record
import GaussKernel.Undo.RecordLoad
import GaussKernel.Undo.RecordVec
import GaussKernel.Undo.Recycle
import GaussKernel.Undo.Rollback
import GaussKernel.Undo.RollbackRun
import GaussKernel.Undo.RoundTrip
import GaussKernel.Undo.SlotCache
import GaussKernel.Undo.SlotWalk
import GaussKernel.Undo.SpaceMeta
import GaussKernel.Undo.SpaceSize
import GaussKernel.Undo.Walk
import GaussKernel.Undo.Xlog
import GaussKernel.Undo.Zone
import GaussKernel.Undo.ZoneReach
import GaussKernel.Undo.ZoneSwitch
