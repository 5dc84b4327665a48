import ScudoMte.Library.Word
import ScudoMte.Library.ByteMemory
import ScudoMte.Library.Ownership
import ScudoMte.Library.TransitionSystem
import ScudoMte.Library.RingLog
import ScudoMte.Library.Slots
import ScudoMte.Library.PackedWord
import ScudoMte.Library.BlockGrid
import ScudoMte.Common
import ScudoMte.Memtag
import ScudoMte.Checksum
import ScudoMte.Chunk
import ScudoMte.SizeClassMap.Basic
import ScudoMte.SizeClassMap.Fixed
import ScudoMte.SizeClassMap.Table
import ScudoMte.SizeClassMap.Exact
import ScudoMte.Options
import ScudoMte.Combined.Tagging
import ScudoMte.Combined.InitChunk
import ScudoMte.Combined.SpatialTags
import ScudoMte.Combined.OddEvenTags
import ScudoMte.Secondary.Cache
import ScudoMte.Secondary.MapAllocator
import ScudoMte.Secondary.Geometry
import ScudoMte.Secondary.LargeBlock
import ScudoMte.Secondary.Concurrent
import ScudoMte.Secondary.ListSafety
import ScudoMte.Secondary.DisableTagging
import ScudoMte.Secondary.Serve
import ScudoMte.Combined.Allocate
import ScudoMte.Combined.AllocateFrame
import ScudoMte.Combined.Deallocate
import ScudoMte.Combined.DeallocateFrame
import ScudoMte.Heap.State
import ScudoMte.Heap.Step
import ScudoMte.Heap.Frame
import ScudoMte.Heap.Cache
import ScudoMte.Heap.Invariant
import ScudoMte.Heap.Allocate
import ScudoMte.Heap.Deallocate
import ScudoMte.Heap.Reallocate
import ScudoMte.Heap.Quarantine
import ScudoMte.Heap.Primary
import ScudoMte.Heap.Reachable
import ScudoMte.Heap.LiveChunks
import ScudoMte.Heap.HeaderAgreement
import ScudoMte.Heap.RequestedSize
import ScudoMte.Heap.UseAfterFree
import ScudoMte.Heap.SecondaryTags
import ScudoMte.Heap.ZeroContents
import ScudoMte.Shuffle
import ScudoMte.Quarantine.Cache
import ScudoMte.Quarantine.Global
import ScudoMte.StackDepot.Basic
import ScudoMte.StackDepot.RoundTrip
import ScudoMte.Release.PageMap
import ScudoMte.Release.RangeTracker
import ScudoMte.Release.Context
import ScudoMte.Release.Marks
import ScudoMte.Release.Pages
import ScudoMte.Release.MarkBlocks
import ScudoMte.Release.WholeRegion
import ScudoMte.Release.MarkRange
import ScudoMte.Release.Groups
import ScudoMte.Release.GroupWise
import ScudoMte.Heap.CacheFrame
import ScudoMte.Heap.ActFrame
import ScudoMte.Heap.Contents
import ScudoMte.StoreTags
import ScudoMte.Heap.ResizedTags
import ScudoMte.Flags.Unknown
import ScudoMte.HybridMutex
import ScudoMte.Secondary.ReleaseAge
import ScudoMte.Secondary.Retrieval
import ScudoMte.Secondary.Placement
import ScudoMte.Stats.Runs
import ScudoMte.Primary.FreeListRuns
import ScudoMte.HeaderCorruption
import ScudoMte.Release.PageMapRuns
import ScudoMte.Tsd.Shared
import ScudoMte.ErrorReport.RingBuffer
import ScudoMte.ErrorReport.NearestBlock
import ScudoMte.ErrorReport.Inline
import ScudoMte.Secondary.TaggableRuns
import ScudoMte.Primary.RefillRuns
import ScudoMte.Wrappers.HeapHooks
import ScudoMte.Strings.Printf
import ScudoMte.Strings.OutOfMemory
import ScudoMte.Release.TrackerRuns
import ScudoMte.Release.PoolRuns
import ScudoMte.Lists.Refinement
import ScudoMte.Primary.RegionRuns32
import ScudoMte.FrontEnd.Accounting
import ScudoMte.FrontEnd.Addresses
import ScudoMte.Locks.Deadlock
import ScudoMte.Heap.DoubleFree
import ScudoMte.AtomicOptions
import ScudoMte.Tsd.Lifecycle
