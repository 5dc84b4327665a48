import ScudoMte.Library.KeyRuns
import ScudoMte.Library.Word
import ScudoMte.Shuffle

namespace ScudoMte.Primary

/-- The parameters of `SizeClassAllocator64` that shape a free list. -/
structure PrimaryConfig where
  compactPtrScale : Nat
  groupSizeLog : Nat
  regionSizeLog : Nat
  mapSizeIncrement : Nat
  maxNumBatches : Nat
  maxNumBlocksInBatch : Nat
  groupSizeLog_le : groupSizeLog ≤ regionSizeLog
  maxNumBlocksInBatch_pos : 0 < maxNumBlocksInBatch

namespace PrimaryConfig

def groupScale (cfg : PrimaryConfig) : Nat := cfg.groupSizeLog - cfg.compactPtrScale

def compactPtrGroup (cfg : PrimaryConfig) (compactPtr : Nat) : Nat :=
  compactPtr &&& (2^64 - 1 <<< cfg.groupScale)

end PrimaryConfig

/-- `Batch`: the block of the batch class that it is built in, and the blocks that it records. -/
structure Batch where
  addr : Nat
  blocks : List Nat
  deriving DecidableEq

/-- `BatchGroup`, with the block of the batch class that it is built in. -/
structure BatchGroup where
  addr : Nat
  compactPtrGroupBase : Nat
  bytesInBGAtLastCheckpoint : Nat
  batches : List Batch
  maxCachedPerBatch : Nat
  deriving DecidableEq

namespace BatchGroup

/-- The free blocks of a group. -/
def blocks (bg : BatchGroup) : List Nat := bg.batches.flatMap Batch.blocks

/-- The count of free blocks that the release of pages goes by. -/
def numBlocks (bg : BatchGroup) : Nat :=
  (bg.batches.length - 1) * bg.maxCachedPerBatch + ((bg.batches.map fun b => b.blocks.length).headD 0)

end BatchGroup

/-- What the thread cache and the region of the batch class do for the other regions, in a state of
their own. `getBatchClassBlock` ends the program where it is out of memory. -/
structure BatchClassOps (σ : Type*) where
  getBatchClassBlock : σ → Option (Nat × σ)
  deallocate : σ → Nat → σ
  pushBatchClassBlocks : σ → List Nat → σ

section Push

variable {σ : Type*} (cfg : PrimaryConfig) (ops : BatchClassOps σ)

/-- The loop of `InsertBlocks`, with fuel. -/
def insertLoop (maxCachedPerBatch : Nat) :
    Nat → List Batch → List Nat → σ → Option (List Batch × σ)
  | _, batches, [], s => some (batches, s)
  | fuel+1, cur :: batches, array, s =>
    let unusedSlots := maxCachedPerBatch - cur.blocks.length
    if unusedSlots = 0 then do
      let (addr, s) ← ops.getBatchClassBlock s
      let appendSize := min maxCachedPerBatch array.length
      insertLoop maxCachedPerBatch fuel
        ({ addr, blocks := array.take appendSize } :: cur :: batches) (array.drop appendSize) s
    else
      let appendSize := min unusedSlots array.length
      insertLoop maxCachedPerBatch fuel
        ({ cur with blocks := cur.blocks ++ array.take appendSize } :: batches)
        (array.drop appendSize) s
  | _, _, _, _ => none

def insertBlocks (bg : BatchGroup) (array : List Nat) (s : σ) : Option (BatchGroup × σ) := do
  let (batches, s) ← insertLoop ops bg.maxCachedPerBatch array.length bg.batches array s
  return ({ bg with batches }, s)

def createGroup (compactPtrGroupBase : Nat) (s : σ) : Option (BatchGroup × σ) := do
  let (addr, s) ← ops.getBatchClassBlock s
  let (batchAddr, s) ← ops.getBatchClassBlock s
  return ({
    addr
    compactPtrGroupBase
    bytesInBGAtLastCheckpoint := 0
    batches := [{ addr := batchAddr, blocks := [] }]
    maxCachedPerBatch := cfg.maxNumBlocksInBatch }, s)

/-- `Cur` for a group base, found at the front of the rest of the list or created there; and what
comes after it. -/
def findGroup (groupBase : Nat) (rest : List BatchGroup) (s : σ) :
    Option (BatchGroup × List BatchGroup × σ) :=
  match rest with
  | cur :: tail =>
    if groupBase ≠ cur.compactPtrGroupBase then do
      let (bg, s) ← createGroup cfg ops groupBase s
      return (bg, rest, s)
    else some (cur, tail, s)
  | [] => do
    let (bg, s) ← createGroup cfg ops groupBase s
    return (bg, [], s)

/-- The loops of `pushBlocksImpl` over the segments of the array. `passed` are the groups up to
`Prev`, `rest` those from `Cur` on. -/
def pushSegments : List BatchGroup → List BatchGroup → List (List Nat) → σ →
    Option (List BatchGroup × σ)
  | passed, rest, [], s => some (passed ++ rest, s)
  | passed, rest, segment :: segments, s => do
    let groupBase := cfg.compactPtrGroup (segment.headD 0)
    let smaller := fun bg : BatchGroup => decide (groupBase > bg.compactPtrGroupBase)
    let (cur, tail, s) ← findGroup cfg ops groupBase (rest.dropWhile smaller) s
    let (cur, s) ← insertBlocks ops cur segment s
    pushSegments (passed ++ rest.takeWhile smaller) (cur :: tail) segments s

/-- The maximal runs of blocks of one group; with `sameGroup` the array is not looked at. -/
def segmentsOf (array : List Nat) (sameGroup : Bool) : List (List Nat) :=
  if sameGroup then [array] else KeyRuns.runs cfg.compactPtrGroup array

/-- The free list of `pushBlocksImpl`. -/
def pushToList (groups : List BatchGroup) (array : List Nat) (sameGroup : Bool) (s : σ) :
    Option (List BatchGroup × σ) :=
  pushSegments cfg ops [] groups (segmentsOf cfg array sameGroup) s

/-- The insertion sort of `pushBlocks`. What is sorted is kept from its end. -/
def sortByGroup : List Nat → Bool → List Nat → List Nat × Bool
  | sorted, sameGroup, [] => (sorted.reverse, sameGroup)
  | sorted, sameGroup, cur :: array =>
    sortByGroup (sorted.orderedInsert (KeyRuns.keyGE cfg.compactPtrGroup) cur)
      (sameGroup && cfg.compactPtrGroup (sorted.headD cur) == cfg.compactPtrGroup cur) array

/-- What `pushBlocks` makes of its array: the blocks by group, and whether they are of one group. -/
def prepareArray (array : List Nat) : List Nat × Bool :=
  if cfg.groupSizeLog < cfg.regionSizeLog then sortByGroup cfg [] true array else (array, true)

end Push

section Merge

/-- The batches of two groups of one base put together, and the batch that is left over. -/
def mergeBatches (bg cur : BatchGroup) : BatchGroup × Option Nat :=
  let merged := fun batches => { bg with
    bytesInBGAtLastCheckpoint := cur.bytesInBGAtLastCheckpoint, batches }
  match cur.batches with
  | [] => (merged bg.batches, none)
  | nonFull :: curBatches =>
    if nonFull.blocks.length = bg.maxCachedPerBatch then (merged (bg.batches ++ cur.batches), none)
    else
      match bg.batches ++ curBatches with
      | [] => (merged [nonFull], none)
      | front :: batches =>
        if front.blocks.length = bg.maxCachedPerBatch then
          (merged (nonFull :: front :: batches), none)
        else
          let numBlocksToMove :=
            min (bg.maxCachedPerBatch - front.blocks.length) nonFull.blocks.length
          let kept := nonFull.blocks.length - numBlocksToMove
          let front := { front with blocks := front.blocks ++ nonFull.blocks.drop kept }
          if nonFull.blocks.take kept = [] then (merged (front :: batches), some nonFull.addr)
          else (merged ({ nonFull with blocks := nonFull.blocks.take kept } :: front :: batches), none)

def maxUnusedSize : Nat := 8

variable {σ : Type*} (ops : BatchClassOps σ)

/-- Unused groups and batches wait in an array until it is full. -/
def addUnused (unused : List Nat) (bg : Nat) (batch : Option Nat) (s : σ) : List Nat × σ :=
  let needed := bg :: batch.toList
  if unused.length + needed.length > maxUnusedSize then
    (needed, ops.pushBatchClassBlocks s unused)
  else (unused ++ needed, s)

/-- The loop of `mergeGroupsToReleaseBack`. `passed` are the groups up to `Prev`, `rest` those from
`BG` on. -/
def mergeLoop : List BatchGroup → List BatchGroup → List BatchGroup → List Nat → σ →
    List BatchGroup × List Nat × σ
  | passed, rest, [], unused, s => (passed ++ rest, unused, s)
  | passed, rest, cur :: groupsToRelease, unused, s =>
    let smaller := fun bg : BatchGroup => decide (bg.compactPtrGroupBase < cur.compactPtrGroupBase)
    let passed := passed ++ rest.takeWhile smaller
    match rest.dropWhile smaller with
    | [] => (passed ++ cur :: groupsToRelease, unused, s)
    | bg :: rest =>
      if bg.compactPtrGroupBase = cur.compactPtrGroupBase then
        let (merged, unusedBatch) := mergeBatches bg cur
        let (unused, s) := addUnused ops unused cur.addr unusedBatch s
        mergeLoop (passed ++ [merged]) rest groupsToRelease unused s
      else mergeLoop (passed ++ [cur]) (bg :: rest) groupsToRelease unused s

def mergeGroupsToReleaseBack (groups groupsToRelease : List BatchGroup) (s : σ) :
    List BatchGroup × σ :=
  let (groups, unused, s) := mergeLoop ops [] groups groupsToRelease [] s
  (groups, if unused = [] then s else ops.pushBatchClassBlocks s unused)

end Merge

end ScudoMte.Primary
