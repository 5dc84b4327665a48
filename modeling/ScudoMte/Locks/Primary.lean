import ScudoMte.Library.LockOrder
import ScudoMte.Primary.BatchClass

namespace ScudoMte.Locks

open LockOrder
open Primary (batchClassId)

/-- The mutexes of the allocator; the exclusive registry has one `tsd`, its fallback. -/
inductive Lock
  | registry
  | mutexTSDs
  | tsd (i : Nat)
  | stats
  | recycleMutex
  | cacheMutex
  | mmLock (classId : Nat)
  | flLock (classId : Nat)
  | bufferPool
  | secondary
  | secondaryCache
  | ringBufferInit
  | ringEnd
  deriving DecidableEq

inductive Registry
  | exclusive
  | shared (tsdsArraySize : Nat)

/-- The condition variable, where there is one, is `ConditionVariableDummy`. -/
structure Config where
  numClasses : Nat
  numClasses_pos : 0 < numClasses
  conditionVariable : Bool
  quarantineDisabled : Bool
  registry : Registry

namespace Config

variable (cfg : Config)

/-- The classes but for the batch class. -/
def classes : List Nat := (List.range cfg.numClasses).filter (· ≠ batchClassId)

/-- `wait` of `ConditionVariableDummy`. -/
def wait (classId : Nat) : Code Lock :=
  .seq (.unlock (.flLock classId)) (.lock (.flLock classId))

/-- The loop of `popBlocksWithCV`: rounds that end with a wait, and the one that populates. -/
def popBlocksWithCV (classId : Nat) (popBlocksImpl populateFreeList : Code Lock) : Code Lock :=
  let isPopulating := .locked (.flLock classId) .skip
  .seq
    (.loop (.seq isPopulating
      (.locked (.flLock classId) (.seq popBlocksImpl (.maybe (.seq (wait classId) popBlocksImpl))))))
    (.maybe (.seq isPopulating
      (.locked (.mmLock classId) (.seq (.maybe populateFreeList) (.locked (.flLock classId) .skip)))))

/-- `popBlocks` of a class, over the two functions that do its work. -/
def popBlocksOf (classId : Nat) (popBlocksImpl populateFreeList : Code Lock) : Code Lock :=
  .seq (.locked (.flLock classId) popBlocksImpl) (.maybe (
    if cfg.conditionVariable then popBlocksWithCV classId popBlocksImpl populateFreeList
    else .locked (.mmLock classId)
      (.seq (.locked (.flLock classId) popBlocksImpl) (.maybe populateFreeList))))

/-- `populateFreeListAndPopBlocks`, which may end before it reaches the freelist. -/
def populateFreeListAndPopBlocks (classId : Nat) (pushBlocksImpl popBlocksImpl : Code Lock) :
    Code Lock :=
  .maybe (.locked (.flLock classId) (.seq pushBlocksImpl popBlocksImpl))

/-- `popBlocks` of the batch class. -/
def popBatchClassBlocks : Code Lock :=
  cfg.popBlocksOf batchClassId .skip (populateFreeListAndPopBlocks batchClassId .skip .skip)

/-- `pushBlocks` of the batch class. -/
def pushBatchClassBlocks : Code Lock := .locked (.flLock batchClassId) .skip

/-- A front end asks for more blocks of the batch class where it has none left. -/
def getBatchClassBlock : Code Lock := .maybe cfg.popBatchClassBlocks

/-- A front end gives blocks of the batch class back where it has too many. -/
def deallocateBatchClassBlock : Code Lock := .maybe pushBatchClassBlocks

def popBlocksImpl : Code Lock :=
  .seq (.maybe deallocateBatchClassBlock) (.maybe deallocateBatchClassBlock)

def pushBlocksImpl : Code Lock := .loop cfg.getBatchClassBlock

def popBlocks (classId : Nat) : Code Lock :=
  if classId = batchClassId then cfg.popBatchClassBlocks
  else cfg.popBlocksOf classId popBlocksImpl
    (populateFreeListAndPopBlocks classId (.loop cfg.pushBlocksImpl) popBlocksImpl)

def pushBlocks (classId : Nat) : Code Lock :=
  if classId = batchClassId then pushBatchClassBlocks
  else .locked (.flLock classId) cfg.pushBlocksImpl

/-- `getBuffer` and `releaseBuffer` of the page map, where the buffer is a static one. -/
def pageMapBuffer : Code Lock := .maybe (.locked .bufferPool .skip)

def mergeGroupsToReleaseBack (classId : Nat) : Code Lock :=
  .locked (.flLock classId) (.seq (.loop pushBatchClassBlocks) (.maybe pushBatchClassBlocks))

/-- What is done with the groups that were taken from the freelist: `markFreeBlocks`, the release
itself, and the groups back. -/
def releaseGroups (classId : Nat) : Code Lock :=
  .all [pageMapBuffer, mergeGroupsToReleaseBack classId, pageMapBuffer]

def releaseToOSMaybe (classId : Nat) : Code Lock :=
  .seq (.locked (.flLock classId) .skip) (.maybe (releaseGroups classId))

def tryReleaseToOS (classId : Nat) : Code Lock :=
  .tryLock (.mmLock classId) (.seq (releaseToOSMaybe classId) (.unlock (.mmLock classId))) .skip

def primaryReleaseToOS : Code Lock :=
  .all (cfg.classes.map fun c => .locked (.mmLock c) (releaseToOSMaybe c))

def primaryGetStats : Code Lock :=
  .seq
    (.all ((List.range cfg.numClasses).map fun c =>
      .seq (.locked (.mmLock c) .skip) (.locked (.flLock c) .skip)))
    (.all ((List.range cfg.numClasses).map fun c => .locked (.mmLock c) (.locked (.flLock c) .skip)))

def getRegionFragmentationInfo (classId : Nat) : Code Lock :=
  .all [.locked (.flLock classId) .skip, .maybe (releaseGroups classId),
    .locked (.flLock classId) .skip]

def primaryGetFragmentationInfo : Code Lock :=
  .all (cfg.classes.map fun c => .locked (.mmLock c) (getRegionFragmentationInfo c))

/-- The statements of `disable`; the batch class is locked last. -/
def primaryDisable : List (Code Lock) :=
  (cfg.classes.reverse ++ [batchClassId]).flatMap fun c => [.lock (.mmLock c), .lock (.flLock c)]

def primaryEnable : List (Code Lock) :=
  (batchClassId :: cfg.classes).flatMap fun c => [.unlock (.flLock c), .unlock (.mmLock c)]

def primaryIterateOverBlocks : Code Lock :=
  .all (cfg.classes.flatMap fun c => [.assertHeld (.flLock c), .assertHeld (.mmLock c)])

def allocateBlock (classId : Nat) : Code Lock := .maybe (cfg.popBlocks classId)

def deallocateBlock (classId : Nat) : Code Lock := .maybe (cfg.pushBlocks classId)

/-- `drain`, of as many blocks as there are. -/
def drainFrontEnd : Code Lock :=
  .seq (.all (cfg.classes.map fun c => .loop (cfg.pushBlocks c))) (.loop pushBatchClassBlocks)

end Config

end ScudoMte.Locks
