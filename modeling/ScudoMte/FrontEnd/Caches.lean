import ScudoMte.Primary.BatchClass

namespace ScudoMte.FrontEnd

open Primary

/-- `SizeClassAllocatorLocalCache` and `SizeClassAllocatorNoCache`. -/
inductive Kind
  | localCache
  | noCache
  deriving DecidableEq

/-- `MaxCount` of a class. -/
def maxCount (cfg : ClassConfig) : Kind → Nat → Nat
  | .localCache, classId => 2 * cfg.getMaxCached classId
  | .noCache, classId =>
    if classId = batchClassId then cfg.maxNumBlocksInBatch else 2 * cfg.getMaxCached classId

/-- The region of the batch class, the blocks of it that a front end keeps, and what the system will
answer when more memory is asked for. -/
structure BatchClass where
  region : Region
  chunks : List Nat
  remaps : List Bool

namespace BatchClass

variable (cfg : ClassConfig) (s : BatchClass)

/-- `getBatchClassBlock` of either front end; without a block the program ends. -/
def getBatchClassBlock : Option (Nat × BatchClass) :=
  match s.chunks.getLast? with
  | some p => some (p, { s with chunks := s.chunks.dropLast })
  | none =>
    let (blocks, region) := s.region.popBatchClass cfg (s.remaps.headD false)
    blocks.getLast?.map fun p => (p, ⟨region, blocks.dropLast, s.remaps.tail⟩)

def pushBatchClassBlocks (array : List Nat) : BatchClass :=
  { s with region := s.region.pushBatchClassBlocks (cfg.getMaxCached batchClassId) array }

/-- `drain` of `SizeClassAllocatorLocalCache` for the batch class. -/
def drainLocal : BatchClass :=
  let count := min (maxCount cfg .localCache batchClassId / 2) s.chunks.length
  { s.pushBatchClassBlocks cfg (s.chunks.take count) with chunks := s.chunks.drop count }

/-- `drain` of `SizeClassAllocatorNoCache`. -/
def drainStorage : BatchClass :=
  if s.chunks = [] then s else { s.pushBatchClassBlocks cfg s.chunks with chunks := [] }

/-- `deallocate` of a block of the batch class. -/
def deallocate (kind : Kind) (p : Nat) : BatchClass :=
  let s := match kind with
    | .localCache =>
      if s.chunks.length = maxCount cfg .localCache batchClassId then s.drainLocal cfg else s
    | .noCache =>
      if s.chunks.length ≥ maxCount cfg .noCache batchClassId then s.drainStorage cfg else s
  { s with chunks := s.chunks ++ [p] }

/-- What the primary asks of a front end, and of the region of the batch class. -/
def ops (kind : Kind) : BatchClassOps BatchClass where
  getBatchClassBlock s := s.getBatchClassBlock cfg
  deallocate s p := s.deallocate cfg kind p
  pushBatchClassBlocks s array := s.pushBatchClassBlocks cfg array

/-- `while (Count > 0) drain(..)`, with fuel. -/
def drainLoop : Nat → BatchClass → BatchClass
  | 0, s => s
  | fuel+1, s => if s.chunks = [] then s else drainLoop fuel (s.drainLocal cfg)

end BatchClass

/-- What a call on a front end works on: the regions and the blocks that the front end keeps. -/
structure Front where
  regions : Nat → Region
  chunks : Nat → List Nat
  remaps : List Bool

namespace Front

variable (cfg : ClassConfig) (kind : Kind) (f : Front)

def batchClass : BatchClass := ⟨f.regions batchClassId, f.chunks batchClassId, f.remaps⟩

def setBatchClass (s : BatchClass) : Front where
  regions := Function.update f.regions batchClassId s.region
  chunks := Function.update f.chunks batchClassId s.chunks
  remaps := s.remaps

def setRegion (classId : Nat) (r : Region) : Front :=
  { f with regions := Function.update f.regions classId r }

def setChunks (classId : Nat) (chunks : List Nat) : Front :=
  { f with chunks := Function.update f.chunks classId chunks }

/-- `pushBlocks` of the primary for a class that is not the batch class. -/
def pushBlocks (classId : Nat) (array : List Nat) : Option Front := do
  let (r, s) ← (f.regions classId).pushBlocks cfg.toPrimaryConfig (BatchClass.ops cfg kind) array
    f.batchClass
  return (f.setBatchClass s).setRegion classId r

/-- `popBlocks` of the primary for a class that is not the batch class. -/
def popBlocks (classId maxBlockCount : Nat) : Option (List Nat × Front) := do
  let (toArray, r, s) ← (f.regions classId).popBlocks cfg (BatchClass.ops cfg kind) classId
    maxBlockCount (f.remaps.headD false) { f.batchClass with remaps := f.remaps.tail }
  return (toArray, (f.setBatchClass s).setRegion classId r)

/-- `allocate`: a block, or none where the class has no more. -/
def allocate (classId : Nat) : Option (Option Nat × Front) :=
  match kind with
  | .localCache =>
    match (f.chunks classId).getLast? with
    | some p => some (some p, f.setChunks classId (f.chunks classId).dropLast)
    | none => do
      let (blocks, f) ← f.popBlocks cfg kind classId (maxCount cfg kind classId / 2)
      return (blocks.getLast?, f.setChunks classId blocks.dropLast)
  | .noCache => do
    let (blocks, f) ← f.popBlocks cfg kind classId 1
    return (blocks.head?, f)

/-- `drain` of one class. -/
def drainClass (classId : Nat) : Option Front := do
  let count := min (maxCount cfg kind classId / 2) (f.chunks classId).length
  let f' ← f.pushBlocks cfg kind classId ((f.chunks classId).take count)
  return f'.setChunks classId ((f.chunks classId).drop count)

def deallocate (classId p : Nat) : Option Front :=
  if classId = batchClassId then some (f.setBatchClass (f.batchClass.deallocate cfg kind p))
  else
    match kind with
    | .localCache => do
      let f ← (if (f.chunks classId).length = maxCount cfg kind classId then
        f.drainClass cfg kind classId else some f)
      return f.setChunks classId (f.chunks classId ++ [p])
    | .noCache => f.pushBlocks cfg kind classId [p]

/-- `while (PerClassArray[I].Count > 0) drain(..)`, with fuel. -/
def drainLoop (classId : Nat) : Nat → Front → Option Front
  | 0, f => if f.chunks classId = [] then some f else none
  | fuel+1, f =>
    if f.chunks classId = [] then some f
    else do drainLoop classId fuel (← f.drainClass cfg kind classId)

/-- The classes but for the batch class. -/
def classes : List Nat := (List.range cfg.numClasses).filter (· ≠ batchClassId)

def drainClasses : List Nat → Front → Option Front
  | [], f => some f
  | c :: classes, f => do
    drainClasses classes (← drainLoop cfg kind c (f.chunks c).length f)

/-- The batch class is drained last. -/
def drain : Option Front :=
  match kind with
  | .localCache => do
    let f ← drainClasses cfg kind (classes cfg) f
    return f.setBatchClass (f.batchClass.drainLoop cfg f.batchClass.chunks.length)
  | .noCache => some (f.setBatchClass (f.batchClass.drainStorage cfg))

/-- `destroy`, which unlinks the statistics besides. -/
def destroy : Option Front :=
  match kind with
  | .localCache => f.drain cfg kind
  | .noCache => some f

end Front

end ScudoMte.FrontEnd
