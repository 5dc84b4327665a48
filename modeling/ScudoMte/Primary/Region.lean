import ScudoMte.Common
import ScudoMte.Primary.FreeList

namespace ScudoMte.Primary

/-- `RegionInfo`: the free list, the memory of the region, and what the release of pages keeps. -/
structure Region where
  blockList : List BatchGroup
  poppedBlocks : BitVec 64
  pushedBlocks : BitVec 64
  regionBeg : Nat
  memMapBase : Nat
  mappedUser : Nat
  allocatedUser : Nat
  randState : Nat
  exhausted : Bool
  tryReleaseThreshold : Nat

/-- The page size and `SmallerBlockReleasePageDelta`. -/
structure ReleaseConfig where
  pageSize : Nat
  smallerBlockReleasePageDelta : Nat

namespace ReleaseConfig

def isSmallBlock (env : ReleaseConfig) (blockSize : Nat) : Bool := blockSize < env.pageSize / 16

def getMinReleaseAttemptSize (env : ReleaseConfig) (blockSize : Nat) : Nat :=
  roundUp blockSize env.pageSize

end ReleaseConfig

namespace Region

variable {σ : Type*} (cfg : PrimaryConfig) (ops : BatchClassOps σ)

def pushBlocksImpl (r : Region) (array : List Nat) (sameGroup : Bool) (s : σ) :
    Option (Region × σ) := do
  let (blockList, s) ← pushToList cfg ops r.blockList array sameGroup s
  return ({ r with blockList, pushedBlocks := r.pushedBlocks + BitVec.ofNat 64 array.length }, s)

/-- `pushBlocks` of a class that is not the batch class. -/
def pushBlocks (r : Region) (array : List Nat) (s : σ) : Option (Region × σ) :=
  let (array, sameGroup) := prepareArray cfg array
  r.pushBlocksImpl cfg ops array sameGroup s

/-- `popBlocksImpl`: the blocks for `ToArray`. A batch of the batch class is taken whole, and it and
its group are among the blocks that it records. -/
def popBlocksImpl (r : Region) (isBatchClass : Bool) (maxBlockCount : Nat) (s : σ) :
    List Nat × Region × σ :=
  match r.blockList with
  | [] => ([], r, s)
  | bg :: groups =>
    match bg.batches with
    | [] =>
      ([bg.addr], { r with blockList := groups, poppedBlocks := r.poppedBlocks + 1 }, s)
    | b :: batches =>
      let popCount := if isBatchClass then b.blocks.length else min maxBlockCount b.blocks.length
      let left := b.blocks.take (b.blocks.length - popCount)
      let toArray := b.blocks.drop (b.blocks.length - popCount)
      let popped := fun blockList => { r with
        blockList, poppedBlocks := r.poppedBlocks + BitVec.ofNat 64 popCount }
      if left = [] then
        let s := if isBatchClass then s else ops.deallocate s b.addr
        if batches = [] then
          (toArray, popped groups, if isBatchClass then s else ops.deallocate s bg.addr)
        else (toArray, popped ({ bg with batches } :: groups), s)
      else
        (toArray, popped ({ bg with batches := { b with blocks := left } :: batches } :: groups), s)

/-- The blocks that `populateFreeListAndPopBlocks` carves, as compact pointers. -/
def carvedBlocks (r : Region) (size numberOfBlocks : Nat) : List Nat :=
  (List.range numberOfBlocks).map fun i => (r.allocatedUser + i * size) >>> cfg.compactPtrScale

/-- The carved blocks of each group are shuffled and pushed. -/
def pushCarved : List (List Nat) → Region → σ → Option (Region × σ)
  | [], r, s => some (r, s)
  | segment :: segments, r, s => do
    let (segment, randState) := shuffle segment r.randState
    let (r, s) ← { r with randState }.pushBlocksImpl cfg ops segment true s
    pushCarved segments r s

/-- The memory that `populateFreeListAndPopBlocks` maps for more blocks, where `remapped` says
whether the system gives it; `false` where there is none. -/
def mapForBlocks (r : Region) (size maxCount : Nat) (remapped : Bool) : Region × Bool :=
  let totalUserBytes := r.allocatedUser + maxCount * size
  if totalUserBytes > r.mappedUser then
    let mapSize := roundUp (totalUserBytes - r.mappedUser) cfg.mapSizeIncrement
    let regionBase := r.regionBeg - r.memMapBase
    if regionBase + r.mappedUser + mapSize > 2^cfg.regionSizeLog then
      ({ r with exhausted := true }, false)
    else if !remapped then (r, false)
    else ({ r with mappedUser := r.mappedUser + mapSize }, true)
  else (r, true)

/-- `populateFreeListAndPopBlocks` of a class that is not the batch class and has its memory
reserved. -/
def populateFreeListAndPopBlocks (r : Region) (size maxCount maxBlockCount : Nat) (remapped : Bool)
    (s : σ) : Option (List Nat × Region × σ) :=
  let (r, mapped) := r.mapForBlocks cfg size maxCount remapped
  if !mapped then some ([], r, s)
  else do
    let numberOfBlocks := min (cfg.maxNumBatches * maxCount) ((r.mappedUser - r.allocatedUser) / size)
    let segments := segmentsOf cfg (r.carvedBlocks cfg size numberOfBlocks) false
    let (r, s) ← pushCarved cfg ops segments r s
    let (blocks, r, s) := r.popBlocksImpl ops false maxBlockCount s
    return (blocks, { r with
      pushedBlocks := r.pushedBlocks - BitVec.ofNat 64 numberOfBlocks
      allocatedUser := r.allocatedUser + size * numberOfBlocks }, s)

section Collect

variable (env : ReleaseConfig) (r : Region) (blockSize : Nat)

/-- One group of `collectGroupsToRelease`: the group, whether it is to be released, and the distance
to the next threshold. -/
def examineGroup (bg : BatchGroup) (minDistToThreshold : Nat) : BatchGroup × Bool × Nat :=
  let groupSize := 1 <<< cfg.groupSizeLog
  let allocatedUserEnd := r.allocatedUser + r.regionBeg
  let batchGroupBase := r.regionBeg + bg.compactPtrGroupBase <<< cfg.compactPtrScale
  let bytesInBG := bg.numBlocks * blockSize
  if bytesInBG ≤ bg.bytesInBGAtLastCheckpoint then
    ({ bg with bytesInBGAtLastCheckpoint := bytesInBG }, false, minDistToThreshold)
  else
    let pushedBytesDelta := bytesInBG - bg.bytesInBGAtLastCheckpoint
    if pushedBytesDelta < env.getMinReleaseAttemptSize blockSize then (bg, false, minDistToThreshold)
    else if env.isSmallBlock blockSize then
      let batchGroupEnd := batchGroupBase + groupSize
      let allocatedGroupSize := if allocatedUserEnd ≥ batchGroupEnd then groupSize
        else allocatedUserEnd - batchGroupBase
      let releaseThreshold :=
        allocatedGroupSize * ((2^64 + 99 - blockSize / 16) % 2^64) % 2^64 / 100
      let highDensity : Bool := bytesInBG ≥ releaseThreshold
      let mayHaveReleasedAll : Bool := bg.numBlocks ≥ groupSize / blockSize
      let releaseDelta := env.pageSize * env.smallerBlockReleasePageDelta
      let reachReleaseDelta := mayHaveReleasedAll || decide (pushedBytesDelta ≥ releaseDelta)
      let minDistToThreshold := if !highDensity then
          min minDistToThreshold (releaseThreshold - bytesInBG + pushedBytesDelta)
        else min minDistToThreshold releaseDelta
      if !highDensity || !reachReleaseDelta then (bg, false, minDistToThreshold)
      else ({ bg with bytesInBGAtLastCheckpoint := bytesInBG }, true, minDistToThreshold)
    else ({ bg with bytesInBGAtLastCheckpoint := bytesInBG }, true, minDistToThreshold)

/-- The loop of `collectGroupsToRelease`: the groups that stay, and those that are extracted. -/
def collectLoop : List BatchGroup → Nat → List BatchGroup × List BatchGroup × Nat
  | [], d => ([], [], d)
  | bg :: groups, d =>
    let (bg, release, d) := r.examineGroup cfg env blockSize bg d
    let (kept, groupsToRelease, d) := collectLoop groups d
    if release then (kept, bg :: groupsToRelease, d) else (bg :: kept, groupsToRelease, d)

def collectGroupsToRelease : List BatchGroup × Region :=
  let groupSize := 1 <<< cfg.groupSizeLog
  let (blockList, groupsToRelease, d) := r.collectLoop cfg env blockSize r.blockList groupSize
  let releaseDelta := env.pageSize * env.smallerBlockReleasePageDelta
  let tryReleaseThreshold := if !env.isSmallBlock blockSize then r.tryReleaseThreshold
    else if d = groupSize then releaseDelta else d
  (groupsToRelease, { r with blockList, tryReleaseThreshold })

end Collect

end Region

end ScudoMte.Primary
