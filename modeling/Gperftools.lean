import Gperftools.Lib.List
import Gperftools.ProfileData
import Gperftools.ProfileData.Session
import Gperftools.Lib.Word
import Gperftools.Common
import Gperftools.PackedCache
import Gperftools.PageHeap.Basic
import Gperftools.PageHeap.Ops
import Gperftools.PageHeap.Carve
import Gperftools.SizeMap
import Gperftools.SizeMap.Classes
import Gperftools.SizeMap.ClassArray
import Gperftools.SizeMap.Tables
import Gperftools.SizeMap.Builds
import Gperftools.CentralFreeList
import Gperftools.Malloc
import Gperftools.Lib.Scan
import Gperftools.PageMap
import Gperftools.PageMap.Two
import Gperftools.PageMap.Three
import Gperftools.PageHeap.Ranges
import Gperftools.PageHeap.Inv
import Gperftools.PageHeap.Merge
import Gperftools.PageHeap.Release
import Gperftools.PageHeap.Grow
import Gperftools.MallocHook
import Gperftools.ProfileHandler
import Gperftools.StaticVars
import Gperftools.GenericWriter.String
import Gperftools.GenericWriter.Chunked
import Gperftools.ForEachLine
import Gperftools.Lib.Chain
import Gperftools.AddressMap
import Gperftools.AddressMap.Refine
import Gperftools.AddressMap.FindInside
import Gperftools.HeapProfileTable
import Gperftools.HeapProfileTable.Accounting
import Gperftools.StackTraceTable
import Gperftools.ReleaseToSystem
import Gperftools.Sampler
import Gperftools.DebugAllocation.FreeQueue
import Gperftools.DebugAllocation.Memalign
import Gperftools.StacktraceGenericFp
import Gperftools.ProcMapsIterator
import Gperftools.ProcMapsIterator.Iterate
import Gperftools.Lib.Intervals
import Gperftools.Lib.Except
import Gperftools.LowLevelAlloc
import Gperftools.LowLevelAlloc.FreeList
import Gperftools.LowLevelAlloc.Arena
import Gperftools.LowLevelAlloc.Teardown
import Gperftools.LowLevelAlloc.Blocks
import Gperftools.PageHeapAllocator
import Gperftools.StackTraceTable.Table
import Gperftools.SystemAlloc
import Gperftools.SystemAlloc.Fresh
import Gperftools.SystemAlloc.Release
import Gperftools.Lib.Ring
import Gperftools.Span
import Gperftools.PageHeap.SpanLists
import Gperftools.Lib.Reach
import Gperftools.SpinLock
import Gperftools.SpinLock.Once
