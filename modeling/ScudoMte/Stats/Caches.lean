import ScudoMte.Library.TransitionSystem
import ScudoMte.SizeClassMap.Fixed
import ScudoMte.Stats.Basic

namespace ScudoMte.Stats

/-- What the thread caches take from the primary allocator. `getMaxCached` is by class. -/
structure CacheConfig where
  sizeClassMap : SizeClassMap
  sizeOfBatchClass : Nat
  getMaxCached : Nat → Nat

def batchClassId : Nat := 0

namespace CacheConfig

def numClasses (cfg : CacheConfig) : Nat := cfg.sizeClassMap.largestClassId + 1

def maxCount (cfg : CacheConfig) (c : Nat) : Nat := 2 * cfg.getMaxCached c

/-- `SizeClassAllocator64::getSizeByClassId`. -/
def getSizeByClassId (cfg : CacheConfig) (c : Nat) : Nat :=
  if c = batchClassId then cfg.sizeOfBatchClass else cfg.sizeClassMap.getSizeByClassId c

/-- `PerClass::ClassSize`, which is zero for the blocks of the free lists themselves. -/
def classSize (cfg : CacheConfig) (c : Nat) : Nat :=
  if c = batchClassId then 0 else cfg.getSizeByClassId c

end CacheConfig

structure Block where
  classId : Nat
  ptr : Nat
  deriving DecidableEq

/-- `SizeClassAllocatorLocalCache`: the pointers cached for each class, and the counters. -/
structure LocalCache where
  chunks : Nat → List Nat
  stats : LocalStats

namespace LocalCache

/-- The end of `allocate`: the last block of the class is taken out. -/
def takeBlock (cfg : CacheConfig) (x : LocalCache) (c : Nat) : LocalCache where
  chunks := Function.update x.chunks c (x.chunks c).dropLast
  stats := (x.stats.add .allocated (cfg.classSize c)).sub .free (cfg.classSize c)

/-- The end of `deallocate`. -/
def putBlock (cfg : CacheConfig) (x : LocalCache) (b : Block) : LocalCache where
  chunks := Function.update x.chunks b.classId (x.chunks b.classId ++ [b.ptr])
  stats := (x.stats.sub .allocated (cfg.classSize b.classId)).add .free (cfg.classSize b.classId)

def setChunks (x : LocalCache) (c : Nat) (blocks : List Nat) : LocalCache :=
  { x with chunks := Function.update x.chunks c blocks }

/-- The counters at the end of `populateFreeListAndPopBlocks`. -/
def addPopulated (x : LocalCache) (mapSize allocatedUser : Nat) : LocalCache :=
  { x with stats := (x.stats.add .mapped mapSize).add .free allocatedUser }

end LocalCache

inductive InitState
  | notInitialized | initialized | tornDown
  deriving DecidableEq

/-- Whose counters are linked: those of a thread, those of the fallback cache, or those of the
secondary. -/
inductive Holder (ι : Type*)
  | cache (id : Option ι)
  | secondary
  deriving DecidableEq

/-- The caches of the threads `ι`, the fallback cache (`none`), and what they share. A quarantined
block is with the cache that put it there, or in the global quarantine. -/
structure System (ι : Type*) where
  stats : GlobalStats (Holder ι)
  initState : ι → InitState
  caches : Option ι → LocalCache
  freeBlocks : Nat → List Nat
  allocatedUser : Nat → Nat
  live : List Block
  quarantine : List (Option (Option ι) × Block)
  inUseBlocks : List (Nat × Nat)
  secondaryStats : LocalStats

inductive CacheAct (ι : Type*)
  | initThread (t : ι)
  | teardownThread (t : ι)
  | refill (id : Option ι) (c : Nat) (blocks rest : List Nat)
  | populate (id : Option ι) (c : Nat) (blocks : List Nat) (mapSize : Nat)
  | allocate (id : Option ι) (c : Nat)
  | deallocate (id : Option ι) (b : Block)
  | drain (id : Option ι) (c : Nat)
  | quarantine (id : Option ι) (b : Block)
  | drainQuarantine (id : Option ι)
  | recycle (id : Option ι) (b : Block)
  | allocateSecondary (commitSize capacity : Nat)
  | deallocateSecondary (commitSize capacity : Nat)

namespace System

variable {ι : Type*} [DecidableEq ι]

def localStats (s : System ι) : Holder ι → LocalStats
  | .cache id => (s.caches id).stats
  | .secondary => s.secondaryStats

/-- `GlobalStats::get`. -/
def getStats (s : System ι) (i : StatType) : Nat := s.stats.get s.localStats i

def setCache (s : System ι) (id : Option ι) (x : LocalCache) : System ι :=
  { s with caches := Function.update s.caches id x }

def allocate (cfg : CacheConfig) (s : System ι) (id : Option ι) (c p : Nat) : System ι :=
  { s.setCache id ((s.caches id).takeBlock cfg c) with live := ⟨c, p⟩ :: s.live }

def drain (cfg : CacheConfig) (s : System ι) (id : Option ι) (c : Nat) : System ι :=
  let chunks := (s.caches id).chunks c
  let count := min (cfg.maxCount c / 2) chunks.length
  { s.setCache id ((s.caches id).setChunks c (chunks.drop count)) with
    freeBlocks := Function.update s.freeBlocks c (chunks.take count ++ s.freeBlocks c) }

/-- `populateFreeListAndPopBlocks` up to the blocks that it pops. -/
def populate (cfg : CacheConfig) (s : System ι) (id : Option ι) (c : Nat) (blocks : List Nat)
    (mapSize : Nat) : System ι :=
  let allocatedUser := cfg.getSizeByClassId c * blocks.length
  { s.setCache id ((s.caches id).addPopulated mapSize allocatedUser) with
    freeBlocks := Function.update s.freeBlocks c (s.freeBlocks c ++ blocks)
    allocatedUser := Function.update s.allocatedUser c (s.allocatedUser c + allocatedUser) }

def step (cfg : CacheConfig) (s : System ι) : CacheAct ι → System ι
  | .initThread t =>
      { s with
        initState := Function.update s.initState t .initialized
        stats := s.stats.link (.cache (some t)) }
  | .teardownThread t =>
      { s with
        initState := Function.update s.initState t .tornDown
        stats := s.stats.unlink (.cache (some t)) (s.caches (some t)).stats }
  | .refill id c blocks rest =>
      { s.setCache id ((s.caches id).setChunks c ((s.caches id).chunks c ++ blocks)) with
        freeBlocks := Function.update s.freeBlocks c rest }
  | .populate id c blocks mapSize => s.populate cfg id c blocks mapSize
  | .allocate id c =>
      match ((s.caches id).chunks c).getLast? with
      | none => s
      | some p => s.allocate cfg id c p
  | .deallocate id b =>
      { s.setCache id ((s.caches id).putBlock cfg b) with live := s.live.erase b }
  | .drain id c => s.drain cfg id c
  | .quarantine id b =>
      { s with live := s.live.erase b, quarantine := (some id, b) :: s.quarantine }
  | .drainQuarantine id =>
      { s with
        quarantine := s.quarantine.map fun q => if q.1 = some id then (none, q.2) else q }
  | .recycle id b =>
      { s.setCache id ((s.caches id).putBlock cfg b) with
        quarantine := s.quarantine.erase (none, b) }
  | .allocateSecondary commitSize capacity =>
      { s with
        inUseBlocks := (commitSize, capacity) :: s.inUseBlocks
        secondaryStats := (s.secondaryStats.add .allocated commitSize).add .mapped capacity }
  | .deallocateSecondary commitSize capacity =>
      { s with
        inUseBlocks := s.inUseBlocks.erase (commitSize, capacity)
        secondaryStats := (s.secondaryStats.sub .allocated commitSize).sub .mapped capacity }

/-- The cache of a thread serves its calls from its initialization to its teardown, the fallback
cache those of the others. -/
def Usable (s : System ι) (id : Option ι) : Prop := ∀ t, id = some t → s.initState t = .initialized

/-- `drainCaches` takes the cache of the calling thread also after the teardown. -/
def Drainable (s : System ι) (id : Option ι) : Prop :=
  ∀ t, id = some t → s.initState t ≠ .notInitialized

/-- A call runs on the cache: one of its thread, or the free lists take blocks for themselves while
others are drained. -/
def Runs (s : System ι) (id : Option ι) (c : Nat) : Prop :=
  s.Usable id ∨ c = batchClassId ∧ s.Drainable id ∧ ∃ c, (s.caches id).chunks c ≠ []

def Enabled (cfg : CacheConfig) (s : System ι) : CacheAct ι → Prop
  | .initThread t => s.initState t = .notInitialized
  | .teardownThread t =>
      s.initState t = .initialized ∧ (∀ c, (s.caches (some t)).chunks c = []) ∧
        ∀ q ∈ s.quarantine, q.1 ≠ some (some t)
  | .refill id c blocks rest =>
      s.Runs id c ∧ c < cfg.numClasses ∧ (s.caches id).chunks c = [] ∧
        blocks.length ≤ cfg.maxCount c / 2 ∧ (s.freeBlocks c).Perm (blocks ++ rest)
  | .populate id c _ _ => s.Runs id c ∧ c < cfg.numClasses
  | .allocate id c => s.Runs id c ∧ c < cfg.numClasses ∧ (s.caches id).chunks c ≠ []
  | .deallocate id b =>
      s.Runs id b.classId ∧ b.classId < cfg.numClasses ∧ b ∈ s.live ∧
        ((s.caches id).chunks b.classId).length ≠ cfg.maxCount b.classId
  | .drain id c => s.Drainable id ∧ c < cfg.numClasses
  | .quarantine id b => s.Usable id ∧ b ∈ s.live
  | .drainQuarantine id => s.Drainable id
  | .recycle id b =>
      s.Drainable id ∧ b.classId < cfg.numClasses ∧ (none, b) ∈ s.quarantine ∧
        ((s.caches id).chunks b.classId).length ≠ cfg.maxCount b.classId
  | .allocateSecondary _ _ => True
  | .deallocateSecondary commitSize capacity => (commitSize, capacity) ∈ s.inUseBlocks

/-- The allocator once it is initialized: the fallback cache and the secondary are linked. -/
structure Init (s : System ι) : Prop where
  stats : ∀ i, s.stats.stats i = 0
  statsList : s.stats.statsList = [.secondary, .cache none]
  initState : ∀ t, s.initState t = .notInitialized
  chunks : ∀ id c, (s.caches id).chunks c = []
  localStats : ∀ h i, s.localStats h i = 0
  freeBlocks : ∀ c, s.freeBlocks c = []
  allocatedUser : ∀ c, s.allocatedUser c = 0
  live : s.live = []
  quarantine : s.quarantine = []
  inUseBlocks : s.inUseBlocks = []

/-- The states that any interleaving of the threads reaches with steps that also meet a condition. -/
abbrev Reachable (cfg : CacheConfig) (ok : System ι → CacheAct ι → Prop) : System ι → Prop :=
  TransitionSystem.Reachable Init (fun s a => s.Enabled cfg a ∧ ok s a) fun s a s' => s' = s.step cfg a

/-- The bytes of blocks, by class. -/
def bytes (cfg : CacheConfig) (blocks : Nat → List Nat) : Nat :=
  ((List.range cfg.numClasses).map fun c => cfg.classSize c * (blocks c).length).sum

/-- The bytes of the blocks that are handed out of the caches, batches of the free lists apart. -/
def handedOut (cfg : CacheConfig) (s : System ι) : Nat :=
  (s.live.map fun b => cfg.classSize b.classId).sum +
    (s.quarantine.map fun q => cfg.classSize q.2.classId).sum

/-- The committed bytes of the blocks that the secondary has in use. -/
def committed (s : System ι) : Nat := (s.inUseBlocks.map Prod.fst).sum

/-- The bytes that are carved from all regions. -/
def carved (cfg : CacheConfig) (s : System ι) : Nat :=
  ((List.range cfg.numClasses).map s.allocatedUser).sum

/-- No chunk is recycled into the cache of a thread that is torn down. -/
def RecyclesLinked (s : System ι) : CacheAct ι → Prop
  | .recycle id _ => ∀ t, id = some t → s.initState t ≠ .tornDown
  | _ => True

end System

end ScudoMte.Stats
