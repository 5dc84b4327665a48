import ScudoMte.Locks.Primary

namespace ScudoMte.Locks

open LockOrder

/-- `link` and `unlink` of the statistics, and `get`. -/
def statsLocked : Code Lock := .locked .stats .skip

namespace Config

variable (cfg : Config)

/-- A block of some class is allocated. -/
def allocateAny : Code Lock := .oneOf (cfg.classes.map cfg.allocateBlock)

/-- A block of some class is given back. -/
def deallocateAny : Code Lock := .oneOf (cfg.classes.map cfg.deallocateBlock)

/-- `doRecycle`: the blocks of chunks, and of the batches that recorded them. -/
def doRecycle : Code Lock := .loop cfg.deallocateAny

/-- `recycle`, which is called with `RecycleMutex` and lets it go. -/
def recycle : Code Lock :=
  .all [.locked .cacheMutex .skip, .unlock .recycleMutex, cfg.doRecycle]

def quarantineDrain : Code Lock :=
  .seq (.locked .cacheMutex .skip) (.maybe (.tryLock .recycleMutex cfg.recycle .skip))

def quarantineDrainAndRecycle : Code Lock :=
  .all [.locked .cacheMutex .skip, .lock .recycleMutex, cfg.recycle]

/-- `put`, which may need a block for a new batch. -/
def quarantinePut : Code Lock := .seq (.maybe cfg.allocateAny) (.maybe cfg.quarantineDrain)

/-- Code that a configuration without quarantine does not have. -/
def quarantined (c : Code Lock) : Code Lock := if cfg.quarantineDisabled then .skip else c

def cacheStore : Code Lock :=
  .seq (.locked .secondaryCache .skip)
    (.maybe (.tryLock .secondaryCache (.unlock .secondaryCache) .skip))

/-- `tryAllocateFromCache`. -/
def allocateFromCache : Code Lock :=
  .seq (.locked .secondaryCache .skip) (.maybe (.locked .secondary .skip))

def secondaryAllocate : Code Lock :=
  .seq (.maybe allocateFromCache) (.maybe (.locked .secondary .skip))

def secondaryDeallocate : Code Lock := .seq (.locked .secondary .skip) (.maybe cacheStore)

def secondaryGetStats : Code Lock := .locked .secondary (.locked .secondaryCache .skip)

/-- `insert`, where the allocation is tracked and its trace is not there yet. -/
def storeStackMaybe : Code Lock := .maybe (.locked .ringEnd .skip)

/-- What the thread that initialises the allocator does under `Mutex`: the secondary and the TSDs
link their statistics, and the shared registry counts its TSDs. -/
def registryInit : Code Lock :=
  match cfg.registry with
  | .exclusive => .seq statsLocked statsLocked
  | .shared n => .all [statsLocked, .all (List.replicate n statsLocked), .locked .mutexTSDs .skip]

def initOnceMaybe : Code Lock := .locked .registry (.maybe cfg.registryInit)

/-- `initThreadMaybe`; the exclusive registry links the statistics of the thread, unless the
initialisation is minimal. -/
def initThreadMaybe (initialized : Bool) : Code Lock :=
  if initialized then .skip
  else .seq cfg.initOnceMaybe (match cfg.registry with
    | .exclusive => .maybe statsLocked
    | .shared _ => .skip)

/-- Code under some TSD of the shared registry after so many more tries. -/
def probe (n : Nat) (c : Code Lock) : Nat → Code Lock
  | 0 => .oneOf ((List.range n).map fun i => .locked (.tsd i) c)
  | tries+1 => .choose (probe n c 0) (.oneOf ((List.range n).map fun i =>
      .tryLock (.tsd i) (.seq c (.unlock (.tsd i))) (probe n c tries)))

/-- Code under a `ScopedTSD`. The exclusive registry takes the thread's own TSD without a lock, or
the fallback; the shared one the current TSD, or one that `getTSDAndLockSlow` finds. -/
def withTSD (c : Code Lock) : Code Lock :=
  match cfg.registry with
  | .exclusive => .choose c (.locked (.tsd 0) c)
  | .shared n => .oneOf ((List.range n).map fun i =>
      .tryLock (.tsd i) (.seq c (.unlock (.tsd i)))
        (if n = 1 then .locked (.tsd i) c else .seq (.locked .mutexTSDs .skip) (probe n c 4)))

def drainCache : Code Lock :=
  .seq (cfg.quarantined cfg.quarantineDrainAndRecycle) cfg.drainFrontEnd

def commitBack : Code Lock :=
  .all [cfg.quarantined cfg.quarantineDrain, cfg.drainFrontEnd, statsLocked]

def drainCaches : Code Lock :=
  match cfg.registry with
  | .exclusive => .seq cfg.drainCache (.locked (.tsd 0) cfg.drainCache)
  | .shared n => .locked .mutexTSDs
      (.all ((List.range n).map fun i => .maybe (.locked (.tsd i) cfg.drainCache)))

def registryGetStats : Code Lock :=
  match cfg.registry with
  | .exclusive => .skip
  | .shared n => .locked .mutexTSDs
      (.all ((List.range n).map fun i => .maybe (.locked (.tsd i) .skip)))

/-- `setOption`, of which `setNumberOfTSDs` takes a lock. -/
def registrySetOption : Code Lock :=
  match cfg.registry with
  | .exclusive => .skip
  | .shared _ => .maybe (.locked .mutexTSDs .skip)

/-- How many TSDs there are to lock. -/
def numTSDs : Nat :=
  match cfg.registry with
  | .exclusive => 1
  | .shared n => n

def registryDisable : List (Code Lock) :=
  .lock .registry :: (List.range cfg.numTSDs).map fun i => .lock (.tsd i)

def registryEnable : List (Code Lock) :=
  ((List.range cfg.numTSDs).reverse.map fun i => .unlock (.tsd i)) ++ [.unlock .registry]

def getStats : Code Lock :=
  .all [cfg.primaryGetStats, secondaryGetStats, cfg.quarantined (.locked .cacheMutex .skip),
    cfg.registryGetStats]

/-- `allocate`; where no memory is left, statistics are printed. -/
def allocate (initialized : Bool) : Code Lock :=
  .all [cfg.initThreadMaybe initialized,
    .maybe (cfg.withTSD (.seq cfg.allocateAny (.loop cfg.allocateAny))), .maybe secondaryAllocate,
    .maybe cfg.getStats, storeStackMaybe]

def quarantineOrDeallocateChunk : Code Lock :=
  let bypass := .choose (.seq (cfg.withTSD cfg.deallocateAny)
    (.maybe (.oneOf (cfg.classes.map tryReleaseToOS)))) secondaryDeallocate
  .seq storeStackMaybe
    (if cfg.quarantineDisabled then bypass else .choose bypass (cfg.withTSD cfg.quarantinePut))

def deallocate (initialized : Bool) : Code Lock :=
  .seq (cfg.initThreadMaybe initialized) cfg.quarantineOrDeallocateChunk

def reallocate (initialized : Bool) : Code Lock :=
  .seq (cfg.initThreadMaybe initialized)
    (.choose storeStackMaybe (.seq (cfg.allocate true) (.maybe cfg.quarantineOrDeallocateChunk)))

def releaseToOS (initialized : Bool) : Code Lock :=
  .all [cfg.initThreadMaybe initialized, .maybe cfg.drainCaches, cfg.primaryReleaseToOS,
    .locked .secondaryCache .skip]

def setOption (initialized : Bool) : Code Lock :=
  .seq (cfg.initThreadMaybe initialized) cfg.registrySetOption

def disableMemoryTagging : Code Lock :=
  .seq cfg.initOnceMaybe (.locked .secondaryCache .skip)

def setTrackAllocationStacks (initialized : Bool) : Code Lock :=
  .seq (cfg.initThreadMaybe initialized) (.maybe (.locked .ringBufferInit .skip))

/-- `disableRingBuffer`; as long as it holds `RingBufferInitLock` there is a ring buffer, or none. -/
def disableRingBuffer (ringBuffer : Bool) : List (Code Lock) :=
  .lock .ringBufferInit :: if ringBuffer then [.lock .ringEnd] else []

def enableRingBuffer (ringBuffer : Bool) : List (Code Lock) :=
  (if ringBuffer then [.unlock .ringEnd] else []) ++ [.unlock .ringBufferInit]

def disable (initialized ringBuffer : Bool) : Code Lock :=
  .seq (cfg.initThreadMaybe initialized)
    (.all (cfg.registryDisable ++ [.lock .stats] ++
      (if cfg.quarantineDisabled then [] else [.lock .recycleMutex, .lock .cacheMutex]) ++
      cfg.primaryDisable ++ [.lock .secondary, .lock .secondaryCache] ++
      disableRingBuffer ringBuffer))

/-- `enable`, of a thread that has called `disable`. -/
def enable (ringBuffer : Bool) : Code Lock :=
  .seq (cfg.initThreadMaybe true)
    (.all (enableRingBuffer ringBuffer ++ [.unlock .secondaryCache, .unlock .secondary] ++
      cfg.primaryEnable ++
      (if cfg.quarantineDisabled then [] else [.unlock .cacheMutex, .unlock .recycleMutex]) ++
      [.unlock .stats] ++ cfg.registryEnable))

/-- `iterateOverChunks`, of a thread that has called `disable`. -/
def iterateOverChunks : Code Lock :=
  .all [cfg.initThreadMaybe true, cfg.primaryIterateOverBlocks, .assertHeld .secondary]

/-- What is left to a thread when `disable` has returned. -/
def disabled (ringBuffer : Bool) : List (Code Lock) :=
  [.loop cfg.iterateOverChunks, cfg.enable ringBuffer]

/-- The calls of a thread. Between `disable` and `enable` it only iterates over chunks. -/
inductive Call : Code Lock → Prop
  | allocate (initialized : Bool) : Call (cfg.allocate initialized)
  | deallocate (initialized : Bool) : Call (cfg.deallocate initialized)
  | reallocate (initialized : Bool) : Call (cfg.reallocate initialized)
  | releaseToOS (initialized : Bool) : Call (cfg.releaseToOS initialized)
  | getStats : Call cfg.getStats
  | getStatCounters (initialized : Bool) : Call (.seq (cfg.initThreadMaybe initialized) statsLocked)
  | getFragmentationInfo : Call cfg.primaryGetFragmentationInfo
  | setOption (initialized : Bool) : Call (cfg.setOption initialized)
  | disableMemoryTagging : Call cfg.disableMemoryTagging
  | setTrackAllocationStacks (initialized : Bool) : Call (cfg.setTrackAllocationStacks initialized)
  | initThread (initialized : Bool) : Call (cfg.initThreadMaybe initialized)
  | teardownThread : Call cfg.commitBack
  | disabled (initialized ringBuffer : Bool) :
      Call (.seq (.seq (cfg.disable initialized ringBuffer) (.loop cfg.iterateOverChunks))
        (cfg.enable ringBuffer))

end Config

end ScudoMte.Locks
