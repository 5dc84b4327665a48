import ScudoMte.Release.MarkRange
import ScudoMte.Release.WholeRegion

namespace ScudoMte.Release

open BlockGrid

/-- `BatchGroup`: the compact base of the group and its batches of compact pointers. -/
structure BatchGroup where
  compactPtrGroupBase : Nat
  maxCachedPerBatch : Nat
  batches : List (List Nat)

/-- What `markFreeBlocks` takes from the allocator and the region; `groupSize` is
`1UL << GroupSizeLog`, and `regionBeg` is also the base of the compact pointers. -/
structure GroupedRegion where
  pageSizeLog : Nat
  groupSize : Nat
  compactPtrScale : Nat
  regionBeg : Nat
  allocatedUser : Nat
  blockSize : Nat

namespace GroupedRegion

def decompactPtr (a : GroupedRegion) (compactPtr : Nat) : Nat :=
  a.regionBeg + compactPtr <<< a.compactPtrScale

def decompactGroupBase (a : GroupedRegion) (g : BatchGroup) : Nat :=
  a.regionBeg + g.compactPtrGroupBase <<< a.compactPtrScale

def allocatedUserEnd (a : GroupedRegion) : Nat := a.allocatedUser + a.regionBeg

/-- One group of `markFreeBlocks`. -/
def markGroup (a : GroupedRegion) (mapped : Bool) (c : PageReleaseContext) (bg : BatchGroup) :
    Option PageReleaseContext :=
  let batchGroupBase := a.decompactGroupBase bg
  let batchGroupEnd := batchGroupBase + a.groupSize
  let allocatedGroupSize := if a.allocatedUserEnd ≥ batchGroupEnd then a.groupSize
    else a.allocatedUserEnd - batchGroupBase
  let batchGroupUsedEnd := batchGroupBase + allocatedGroupSize
  let mayContainLastBlockInRegion : Bool := batchGroupUsedEnd = a.allocatedUserEnd
  let blockAlignedWithUsedEnd := (batchGroupUsedEnd - a.regionBeg) % a.blockSize = 0
  let maxContainedBlocks := if blockAlignedWithUsedEnd then allocatedGroupSize / a.blockSize
    else allocatedGroupSize / a.blockSize + 1
  let numBlocks := (bg.batches.length - 1) * bg.maxCachedPerBatch + (bg.batches.headD []).length
  if numBlocks = maxContainedBlocks then
    c.markRangeAsAllCounted a.pageSizeLog mapped batchGroupBase batchGroupUsedEnd a.regionBeg 0
      a.allocatedUser
  else
    c.markFreeBlocksInRegion a.pageSizeLog mapped bg.batches a.decompactPtr a.regionBeg 0
      a.allocatedUser mayContainLastBlockInRegion

/-- `markFreeBlocks`; `none` where there is no group or a debug check of the page map fails. -/
def markFreeBlocks (a : GroupedRegion) (mapped : Bool) (groupsToRelease : List BatchGroup) :
    Option PageReleaseContext := do
  let front ← groupsToRelease.head?
  let back ← groupsToRelease.getLast?
  let releaseBase := a.decompactGroupBase front
  let lastGroupEnd := min (a.decompactGroupBase back + a.groupSize) a.allocatedUserEnd
  let releaseEnd := roundUpSlow (lastGroupEnd - a.regionBeg) a.blockSize + a.regionBeg
  let releaseRangeSize := releaseEnd - releaseBase
  let releaseOffset := releaseBase - a.regionBeg
  let c := (PageReleaseContext.new a.pageSizeLog a.blockSize 1 releaseRangeSize
    releaseOffset).ensurePageMapAllocated mapped
  if !c.hasBlockMarked then some c
  else groupsToRelease.foldlM (a.markGroup mapped) c

/-- Block `i` of the region is in the free list of a group. -/
def FreeIn (a : GroupedRegion) (g : BatchGroup) (i : Nat) : Prop :=
  ∃ ptr ∈ g.batches.flatten, a.decompactPtr ptr = a.regionBeg + i * a.blockSize

/-- A group of free blocks: all batches but the front one are full, and the blocks are distinct
ones of the region that start in the group. -/
structure HoldsFree (a : GroupedRegion) (g : BatchGroup) : Prop where
  base : a.groupSize ∣ g.compactPtrGroupBase <<< a.compactPtrScale
  full : ∀ b ∈ g.batches.tail, b.length = g.maxCachedPerBatch
  nonempty : g.batches.flatten ≠ []
  nodup : (g.batches.flatten.map a.decompactPtr).Nodup
  block : ∀ ptr ∈ g.batches.flatten, ∃ i, (i+1) * a.blockSize ≤ a.allocatedUser ∧
    a.decompactPtr ptr = a.regionBeg + i * a.blockSize ∧
    a.decompactGroupBase g ≤ a.decompactPtr ptr ∧
    a.decompactPtr ptr < a.decompactGroupBase g + a.groupSize

/-- A byte range of the region that is released overlaps free blocks of the groups only. -/
def ReleasesFree (a : GroupedRegion) (groups : List BatchGroup) (offset : Nat) (r : Nat × Nat) :
    Prop :=
  ∀ i, (i+1) * a.blockSize ≤ a.allocatedUser →
    i * a.blockSize < offset + r.2 → offset + r.1 < (i+1) * a.blockSize →
    ∃ g ∈ groups, a.FreeIn g i

end GroupedRegion

end ScudoMte.Release
