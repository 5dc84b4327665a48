import ScudoMte.Primary.Region

namespace ScudoMte.Primary

/-- What the thread caches and the region of the batch class are configured with. `getSizeByClassId`
has the size of the batch class at 0. -/
structure ClassConfig extends PrimaryConfig where
  numClasses : Nat
  getSizeByClassId : Nat → Nat
  maxBytesCachedLog : Nat
  mapSizeIncrementLog : Nat
  mapSizeIncrement_eq : mapSizeIncrement = 2^mapSizeIncrementLog
  scale_dvd : ∀ c < numClasses, 2^compactPtrScale ∣ getSizeByClassId c ∧ 0 < getSizeByClassId c
  regionSizeLog_lt : regionSizeLog < 63
  mapSizeIncrementLog_lt : mapSizeIncrementLog < 62
  maxBytesCachedLog_lt : maxBytesCachedLog < 32
  maxNumBatches_pos : 0 < maxNumBatches
  batchClass_lt : 0 < numClasses
  /-- A batch of the batch class has room for itself and its group. -/
  two_le_batch : 2 ≤ maxNumBlocksInBatch ∧ 2 * getSizeByClassId 0 ≤ 2^maxBytesCachedLog

def batchClassId : Nat := 0

namespace ClassConfig

def getMaxCachedHint (cfg : ClassConfig) (size : Nat) : Nat :=
  max 1 (min cfg.maxNumBlocksInBatch ((1 <<< cfg.maxBytesCachedLog) / size))

/-- `getMaxCached` of the blocks of a class; `MaxNumBlocksInBatch` is `MaxNumCachedHint`. -/
def getMaxCached (cfg : ClassConfig) (classId : Nat) : Nat :=
  min cfg.maxNumBlocksInBatch (cfg.getMaxCachedHint (cfg.getSizeByClassId classId))

end ClassConfig

namespace Region

/-! The blocks of the batch class are named by their compact pointers, also where a group or a batch is
built in one. -/

/-- The loop of `pushBatchClassBlocks`, with fuel. A new batch is built in the first of the blocks
that it records. -/
def appendBatchClassBlocks (maxCachedPerBatch : Nat) : Nat → List Batch → List Nat → List Batch
  | fuel+1, cur :: batches, p :: array =>
    let unusedSlots := maxCachedPerBatch - cur.blocks.length
    if unusedSlots = 0 then
      let appendSize := min (maxCachedPerBatch - 1) array.length
      appendBatchClassBlocks maxCachedPerBatch fuel
        ({ addr := p, blocks := p :: array.take appendSize } :: cur :: batches)
        (array.drop appendSize)
    else
      let appendSize := min unusedSlots (p :: array).length
      appendBatchClassBlocks maxCachedPerBatch fuel
        ({ cur with blocks := cur.blocks ++ (p :: array).take appendSize } :: batches)
        ((p :: array).drop appendSize)
  | _, batches, _ => batches

/-- The group that `pushBatchClassBlocks` pushes to, built in the last block if there is none. -/
def batchClassGroup (maxCached : Nat) (groups : List BatchGroup) (array : List Nat) :
    BatchGroup × List BatchGroup × List Nat :=
  match groups with
  | bg :: groups => (bg, groups, array)
  | [] => ({
      addr := array.getLastD 0
      compactPtrGroupBase := 0
      bytesInBGAtLastCheckpoint := 0
      batches := []
      maxCachedPerBatch := maxCached }, [], array.dropLast)

/-- The batches that are pushed to. The batch that is built for a group without one records the block
of the group. -/
def firstBatches (bg : BatchGroup) (array : List Nat) : List Batch × List Nat :=
  match bg.batches with
  | [] =>
    let tb := array.getLastD 0
    ([{ addr := tb, blocks := [tb, bg.addr] }], array.dropLast)
  | batches => (batches, array)

/-- The blocks that are left are pushed to the group. -/
def pushToBatchClassGroup (bg : BatchGroup) (array : List Nat) : BatchGroup :=
  if array = [] then bg
  else
    let (batches, array) := firstBatches bg array
    { bg with batches := appendBatchClassBlocks bg.maxCachedPerBatch array.length batches array }

def pushBatchClassBlocks (maxCached : Nat) (r : Region) (array : List Nat) : Region :=
  let (bg, groups, rest) := batchClassGroup maxCached r.blockList array
  { r with
    pushedBlocks := r.pushedBlocks + BitVec.ofNat 64 array.length
    blockList := pushToBatchClassGroup bg rest :: groups }

def noBatchClass : BatchClassOps Unit where
  getBatchClassBlock _ := none
  deallocate s _ := s
  pushBatchClassBlocks s _ := s

/-- `popBlocksImpl` of the batch class, which needs no other class. -/
def popBatchClassBlocks (r : Region) : List Nat × Region :=
  let (toArray, r, _) := r.popBlocksImpl noBatchClass true 0 ()
  (toArray, r)

/-- `populateFreeListAndPopBlocks` of the batch class. -/
def populateBatchClass (cfg : ClassConfig) (r : Region) (remapped : Bool) : List Nat × Region :=
  let size := cfg.getSizeByClassId batchClassId
  let maxCount := cfg.getMaxCached batchClassId
  let (r, mapped) := r.mapForBlocks cfg.toPrimaryConfig size maxCount remapped
  if !mapped then ([], r)
  else
    let numberOfBlocks := min (cfg.maxNumBatches * maxCount) ((r.mappedUser - r.allocatedUser) / size)
    let r := r.pushBatchClassBlocks maxCount (r.carvedBlocks cfg.toPrimaryConfig size numberOfBlocks)
    let (toArray, r) := r.popBatchClassBlocks
    (toArray, { r with
      pushedBlocks := r.pushedBlocks - BitVec.ofNat 64 numberOfBlocks
      allocatedUser := r.allocatedUser + size * numberOfBlocks })

/-- `popBlocks` of the batch class. -/
def popBatchClass (cfg : ClassConfig) (r : Region) (remapped : Bool) : List Nat × Region :=
  let (toArray, popped) := r.popBatchClassBlocks
  if toArray ≠ [] then (toArray, popped)
  else if r.exhausted then ([], r)
  else r.populateBatchClass cfg remapped

/-- `popBlocks` of another class. -/
def popBlocks {σ : Type*} (cfg : ClassConfig) (ops : BatchClassOps σ) (r : Region) (classId : Nat)
    (maxBlockCount : Nat) (remapped : Bool) (s : σ) : Option (List Nat × Region × σ) :=
  let (toArray, popped, s') := r.popBlocksImpl ops false maxBlockCount s
  if toArray ≠ [] then some (toArray, popped, s')
  else if r.exhausted then some ([], r, s)
  else r.populateFreeListAndPopBlocks cfg.toPrimaryConfig ops (cfg.getSizeByClassId classId)
    (cfg.getMaxCached classId) maxBlockCount remapped s

end Region

end ScudoMte.Primary
