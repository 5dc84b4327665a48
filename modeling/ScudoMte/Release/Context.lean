import ScudoMte.Release.PageMap
import ScudoMte.Release.RangeTracker

namespace ScudoMte.Release

/-- `PageReleaseContext`. The page map is there once its buffer is allocated. -/
structure PageReleaseContext where
  blockSize : Nat
  numberOfRegions : Nat
  releasePageOffset : Nat
  pagesCount : Nat
  fullPagesBlockCountMax : Nat
  sameBlockCountPerPage : Bool
  pageMap : Option RegionPageMap

/-- How far the slow path of `releaseFreeMemoryToOS` has come: the end of the last page, and the
first block boundary that is not before it. -/
structure PageCursor where
  prevPageBoundary : Nat
  currentBoundary : Nat

namespace PageReleaseContext

/-- The expected number of blocks on a page, and whether it is the same for all pages. -/
def blockCountPerPage (pageSizeLog blockSize : Nat) : Nat × Bool :=
  let pageSize := 2^pageSizeLog
  if blockSize ≤ pageSize then
    if pageSize % blockSize = 0 then (pageSize / blockSize, true)
    else if blockSize % (pageSize % blockSize) = 0 then (pageSize / blockSize + 1, true)
    else (pageSize / blockSize + 2, false)
  else if blockSize &&& (pageSize - 1) = 0 then (1, true)
  else (2, false)

/-- The constructor. -/
def new (pageSizeLog blockSize numberOfRegions releaseSize releaseOffset : Nat) :
    PageReleaseContext where
  blockSize := blockSize
  numberOfRegions := numberOfRegions
  releasePageOffset := releaseOffset >>> pageSizeLog
  pagesCount := roundUp releaseSize (2^pageSizeLog) >>> pageSizeLog
  fullPagesBlockCountMax := (blockCountPerPage pageSizeLog blockSize).1
  sameBlockCountPerPage := (blockCountPerPage pageSizeLog blockSize).2
  pageMap := none

def hasBlockMarked (c : PageReleaseContext) : Bool := c.pageMap.isSome

/-- `ensurePageMapAllocated`; `mapped` says whether a buffer can be had. -/
def ensurePageMapAllocated (c : PageReleaseContext) (mapped : Bool) : PageReleaseContext :=
  if c.pageMap.isSome ∨ !mapped then c
  else { c with pageMap := some (.reset c.numberOfRegions c.pagesCount c.fullPagesBlockCountMax) }

def getPageIndex (pageSizeLog : Nat) (c : PageReleaseContext) (p : Nat) : Nat :=
  wrapSub (p >>> pageSizeLog) c.releasePageOffset

def getReleaseOffset (pageSizeLog : Nat) (c : PageReleaseContext) : Nat :=
  c.releasePageOffset <<< pageSizeLog

/-- The first page of `markRangeAsAllCounted`, if a block may cross its start: where the range
goes on. -/
def markFirstPage (pageSizeLog : Nat) (c : PageReleaseContext) (m : RegionPageMap)
    (regionIndex firstBlockInRange : Nat) : Option (Nat × RegionPageMap) :=
  let pageSize := 2^pageSizeLog
  let fromInRegion := roundDown firstBlockInRange pageSize
  if firstBlockInRange ≠ fromInRegion then
    let numBlocksInFirstPage :=
      (fromInRegion + pageSize - firstBlockInRange + c.blockSize - 1) / c.blockSize
    (m.incN regionIndex (c.getPageIndex pageSizeLog fromInRegion) numBlocksInFirstPage).map
      fun m => (roundUp (fromInRegion + 1) pageSize, m)
  else some (fromInRegion, m)

/-- The last block of `markRangeAsAllCounted`, which may cross the end of the range: where the
range ends. -/
def markLastBlock (pageSizeLog : Nat) (c : PageReleaseContext) (m : RegionPageMap)
    (toInRegion regionIndex regionSize : Nat) : Option (Nat × RegionPageMap) :=
  let lastBlockInRange := roundDownSlow (toInRegion - 1) c.blockSize
  if lastBlockInRange + c.blockSize ≠ regionSize then
    if lastBlockInRange + c.blockSize ≠ toInRegion then
      (m.incRange regionIndex (c.getPageIndex pageSizeLog toInRegion)
        (c.getPageIndex pageSizeLog (lastBlockInRange + c.blockSize - 1))).map
          fun m => (toInRegion, m)
    else some (toInRegion, m)
  else some (regionSize, m)

/-- `markRangeAsAllCounted`, once the page map is there. -/
def markRange (pageSizeLog : Nat) (c : PageReleaseContext) (m : RegionPageMap)
    (fromInRegion toInRegion regionIndex regionSize : Nat) : Option RegionPageMap :=
  let firstBlockInRange := roundUpSlow fromInRegion c.blockSize
  if firstBlockInRange ≥ toInRegion then some m
  else do
    let (fromInRegion, m) ← c.markFirstPage pageSizeLog m regionIndex firstBlockInRange
    let (toInRegion, m) ← c.markLastBlock pageSizeLog m toInRegion regionIndex regionSize
    if fromInRegion < toInRegion then
      m.setAsAllCountedRange regionIndex (c.getPageIndex pageSizeLog fromInRegion)
        (c.getPageIndex pageSizeLog (toInRegion - 1))
    else some m

/-- `markRangeAsAllCounted` on `[lo, hi)`; `none` where a debug check of the page map fails. -/
def markRangeAsAllCounted (pageSizeLog : Nat) (c : PageReleaseContext) (mapped : Bool)
    (lo hi base regionIndex regionSize : Nat) : Option PageReleaseContext :=
  let c := c.ensurePageMapAllocated mapped
  match c.pageMap with
  | none => some c
  | some m =>
      (c.markRange pageSizeLog m (lo - base) (hi - base) regionIndex regionSize).map
        fun m => { c with pageMap := some m }

/-- The "pretend" blocks behind the last block of the region. -/
def markTrailingBlocks (pageSizeLog : Nat) (c : PageReleaseContext) (m : RegionPageMap)
    (regionIndex regionSize : Nat) : Option RegionPageMap :=
  let pageSize := 2^pageSizeLog
  let lastBlockInRegion := (regionSize / c.blockSize - 1) * c.blockSize
  let roundedRegionSize := roundUp regionSize pageSize
  let trailingBlockBase := lastBlockInRegion + c.blockSize
  let numTrailingBlocks :=
    (roundUpSlow (roundedRegionSize - trailingBlockBase) c.blockSize + c.blockSize - 1) /
      c.blockSize
  if numTrailingBlocks > 0 then
    m.incN regionIndex (c.getPageIndex pageSizeLog trailingBlockBase) numTrailingBlocks
  else some m

/-- The pages that a free block affects. -/
def markBlock (pageSizeLog : Nat) (c : PageReleaseContext) (regionIndex : Nat) (m : RegionPageMap)
    (pInRegion : Nat) : Option RegionPageMap :=
  let pageSize := 2^pageSizeLog
  if c.blockSize ≤ pageSize ∧ pageSize % c.blockSize = 0 then
    m.inc regionIndex (c.getPageIndex pageSizeLog pInRegion)
  else
    m.incRange regionIndex (c.getPageIndex pageSizeLog pInRegion)
      (c.getPageIndex pageSizeLog (pInRegion + c.blockSize - 1))

/-- `markFreeBlocksInRegion` on a list of batches; `none` where a debug check of the page map
fails. -/
def markFreeBlocksInRegion {κ : Type*} (pageSizeLog : Nat) (c : PageReleaseContext) (mapped : Bool)
    (freeList : List (List κ)) (decompactPtr : κ → Nat) (base regionIndex regionSize : Nat)
    (mayContainLastBlockInRegion : Bool) : Option PageReleaseContext :=
  let c := c.ensurePageMapAllocated mapped
  match c.pageMap with
  | none => some c
  | some m => do
      let m ← if mayContainLastBlockInRegion then
          c.markTrailingBlocks pageSizeLog m regionIndex regionSize
        else some m
      let m ← freeList.foldlM (fun m batch =>
        batch.foldlM (fun m ptr =>
          c.markBlock pageSizeLog regionIndex m (decompactPtr ptr - base)) m) m
      some { c with pageMap := some m }

/-- A page of `releaseFreeMemoryToOS` on which `blocksPerPage` blocks are expected. -/
def releasePage (pageSizeLog region j blocksPerPage : Nat)
    (s : RegionPageMap × FreePagesRangeTracker) : Option (RegionPageMap × FreePagesRangeTracker) :=
  (s.1.updateAsAllCountedIf region j blocksPerPage).map
    fun (canRelease, m) => (m, s.2.processNextPage pageSizeLog canRelease)

/-- The fast path: every page has the same number of blocks. -/
def releaseRegionFast (pageSizeLog : Nat) (c : PageReleaseContext) (region : Nat)
    (s : RegionPageMap × FreePagesRangeTracker) : Option (RegionPageMap × FreePagesRangeTracker) :=
  (List.range c.pagesCount).foldlM
    (fun s j => releasePage pageSizeLog region j c.fullPagesBlockCountMax s) s

/-- The blocks on the next page, counted from block boundary to block boundary. -/
def countNextPage (pageSizeLog blockSize : Nat) (cur : PageCursor) : Nat × PageCursor :=
  let pageSize := 2^pageSizeLog
  let pn := if blockSize < pageSize then pageSize / blockSize else 1
  let pnc := pn * blockSize
  let pageBoundary := cur.prevPageBoundary + pageSize
  if cur.currentBoundary < pageBoundary then
    let blocksPerPage := if cur.currentBoundary > cur.prevPageBoundary then pn+1 else pn
    let currentBoundary := cur.currentBoundary + pnc
    if currentBoundary < pageBoundary then
      (blocksPerPage+1, ⟨pageBoundary, currentBoundary + blockSize⟩)
    else (blocksPerPage, ⟨pageBoundary, currentBoundary⟩)
  else (pn, ⟨pageBoundary, cur.currentBoundary⟩)

/-- The slow path: it keeps count of how many blocks affect each page. -/
def releaseRegionSlow (pageSizeLog : Nat) (c : PageReleaseContext) (region : Nat)
    (s : RegionPageMap × FreePagesRangeTracker) : Option (RegionPageMap × FreePagesRangeTracker) :=
  let start := c.releasePageOffset <<< pageSizeLog
  let cur : PageCursor :=
    if c.releasePageOffset > 0 then ⟨start, roundUpSlow start c.blockSize⟩ else ⟨0, 0⟩
  ((List.range c.pagesCount).foldlM (fun (s, cur) j =>
    let (blocksPerPage, cur) := countNextPage pageSizeLog c.blockSize cur
    (releasePage pageSizeLog region j blocksPerPage s).map fun s => (s, cur)) (s, cur)).map Prod.fst

/-- `releaseFreeMemoryToOS`, with the ranges that the recorder is told; `none` where there is no
page map or one of its debug checks fails. -/
def releaseFreeMemoryToOS (pageSizeLog : Nat) (c : PageReleaseContext) (skipRegion : Nat → Bool) :
    Option (PageReleaseContext × List (Nat × Nat)) := do
  let m ← c.pageMap
  let (m, t) ← (List.range c.numberOfRegions).foldlM (fun (m, t) region =>
    if skipRegion region then some (m, FreePagesRangeTracker.skipPages pageSizeLog t c.pagesCount)
    else if c.sameBlockCountPerPage then c.releaseRegionFast pageSizeLog region (m, t)
    else c.releaseRegionSlow pageSizeLog region (m, t)) (m, {})
  some ({ c with pageMap := some m }, (t.finish pageSizeLog).recorder)

end PageReleaseContext

end ScudoMte.Release
