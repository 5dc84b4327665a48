import ScudoMte.Options
import Mathlib.Logic.Function.Basic

namespace ScudoMte.Secondary

/-- `MemMapT`: the base and the capacity of a mapping. -/
structure MemMap where
  base : Nat
  capacity : Nat
  deriving DecidableEq

structure CachedBlock where
  commitBase : Nat
  commitSize : Nat
  blockBegin : Nat
  memMap : MemMap
  time : Nat
  deriving DecidableEq

def CachedBlock.empty : CachedBlock :=
  { commitBase := 0, commitSize := 0, blockBegin := 0, memMap := ⟨0, 0⟩, time := 0 }

def CachedBlock.isValid (e : CachedBlock) : Bool := e.commitBase ≠ 0

def CachedBlock.invalidate (e : CachedBlock) : CachedBlock := { e with commitBase := 0 }

def maxReleasedCachePages : Nat := 4
def maxUnreleasedCachePages : Nat := 4

/-- `MapAllocatorCache`. The lists hold indices of the entry array, the least recently used
entry last. -/
structure Cache where
  entries : Nat → CachedBlock
  lruEntries : List Nat
  availEntries : List Nat
  oldestPresentEntry : Option Nat
  quarantine : Nat → CachedBlock
  quarantinePos : Nat
  maxEntriesCount : Nat
  maxEntrySize : Nat
  releaseToOsIntervalMs : Int

/-- What the secondary takes from outside: the address of a new reservation, if there is one,
the clock, and whether `tryLock` succeeds. -/
structure SecondaryEnv where
  mapBase : Option Nat
  clock : Nat
  tryLock : Bool

/-- `mapSecondary`: with tagging on, the pages behind the first four are remapped without the
tagging flag, in a call of their own. -/
def mapSecondary (cfg : Config) (opts : Options) (m : Mem) (commitBase commitSize allocPos : Nat) :
    Mem :=
  let maxUnreleasedCacheBytes := maxUnreleasedCachePages * cfg.pageSize
  if opts.useMemoryTagging ∧ commitSize > maxUnreleasedCacheBytes then
    let untaggedPos := max allocPos (commitBase + maxUnreleasedCacheBytes)
    (m.zeroPages commitBase (untaggedPos - commitBase)).zeroPages untaggedPos
      (commitBase + commitSize - untaggedPos)
  else m.zeroPages commitBase commitSize

namespace Cache

/-- `LRUEntries.getPrev`. -/
def getPrev : List Nat → Nat → Option Nat
  | a::b::l, i => if b = i then some a else getPrev (b::l) i
  | _, _ => none

def canCache (c : Cache) (size : Nat) : Bool := c.maxEntriesCount ≠ 0 ∧ size ≤ c.maxEntrySize

def insert (c : Cache) (e : CachedBlock) : Cache :=
  match c.availEntries with
  | [] => c
  | i::rest =>
      { c with
        entries := Function.update c.entries i e
        lruEntries := i::c.lruEntries
        availEntries := rest
        oldestPresentEntry :=
          if c.oldestPresentEntry = none ∧ e.time ≠ 0 then some i else c.oldestPresentEntry }

def remove (c : Cache) (i : Nat) : Cache :=
  { c with
    entries := Function.update c.entries i (c.entries i).invalidate
    lruEntries := c.lruEntries.erase i
    availEntries := i::c.availEntries
    oldestPresentEntry :=
      if c.oldestPresentEntry = some i then getPrev c.lruEntries i else c.oldestPresentEntry }

/-- The eviction loop of `store`: the cache and the mappings to unmap. -/
def evict : Nat → Cache → List MemMap → Cache × List MemMap
  | 0, c, maps => (c, maps)
  | fuel+1, c, maps =>
      match c.lruEntries.getLast? with
      | some i =>
          if c.lruEntries.length ≥ c.maxEntriesCount then
            evict fuel (c.remove i) (maps ++ [(c.entries i).memMap])
          else (c, maps)
      | none => (c, maps)

def releaseEntry (m : Mem) (e : CachedBlock) : Mem := m.zeroPages e.commitBase e.commitSize

/-- The quarantine loop of `releaseOlderThan`, up to index `n`. -/
def releaseQuarantine (releaseTime : Nat) : Nat → Cache → Mem → Cache × Mem
  | 0, c, m => (c, m)
  | n+1, c, m =>
      let (c, m) := releaseQuarantine releaseTime n c m
      let e := c.quarantine n
      if !e.isValid ∨ e.time = 0 ∨ e.time > releaseTime then (c, m)
      else ({ c with quarantine := Function.update c.quarantine n { e with time := 0 } },
        releaseEntry m e)

/-- The LRU loop of `releaseOlderThan`, from an entry towards the most recent one. -/
def releaseFrom (releaseTime : Nat) : Nat → Option Nat → Cache → Mem → Cache × Mem
  | fuel+1, some i, c, m =>
      let e := c.entries i
      if e.time > releaseTime then ({ c with oldestPresentEntry := some i }, m)
      else releaseFrom releaseTime fuel (getPrev c.lruEntries i)
        { c with entries := Function.update c.entries i { e with time := 0 } } (releaseEntry m e)
  | _, _, c, m => ({ c with oldestPresentEntry := none }, m)

def releaseOlderThan (cfg : Config) (releaseTime : Nat) (c : Cache) (m : Mem) : Cache × Mem :=
  let (c, m) := if !cfg.quarantineDisabled
    then releaseQuarantine releaseTime cfg.cacheQuarantineSize c m else (c, m)
  releaseFrom releaseTime (c.lruEntries.length + 1) c.oldestPresentEntry c m

/-- The end of `store`: it makes room for an entry, inserts it, and releases old ones. -/
def insertEntry (cfg : Config) (env : SecondaryEnv) (c : Cache) (m : Mem) (e : CachedBlock) :
    Cache × Mem × List MemMap :=
  let (c1, unmapped) := evict c.lruEntries.length c []
  let c2 := c1.insert e
  if c.releaseToOsIntervalMs ≥ 0 ∧ env.tryLock then
    let (c3, m') := releaseOlderThan cfg
      (wrapSub env.clock (c.releaseToOsIntervalMs.toNat * 1000000)) c2 m
    (c3, m', unmapped)
  else (c2, m, unmapped)

/-- `store`: the cache, the memory and the mappings that were unmapped. The source checks the
tagging option again under the lock, on the same copy of the options. -/
def store (cfg : Config) (opts : Options) (env : SecondaryEnv) (c : Cache) (m : Mem)
    (commitBase commitSize blockBegin : Nat) (memMap : MemMap) : Cache × Mem × List MemMap :=
  let released := opts.useMemoryTagging ∧ c.releaseToOsIntervalMs = 0
  let m1 := if released then mapSecondary cfg opts m commitBase commitSize commitBase else m
  let entry : CachedBlock :=
    { commitBase, commitSize, blockBegin, memMap, time := if released then 0 else env.clock }
  if !cfg.quarantineDisabled ∧ cfg.cacheQuarantineSize ≠ 0 then
    let pos := (c.quarantinePos + 1) % 2^32 % max cfg.cacheQuarantineSize 1
    let prev := c.quarantine pos
    let c1 :=
      { c with quarantinePos := pos, quarantine := Function.update c.quarantine pos entry }
    if !prev.isValid then (c1, m1, []) else c1.insertEntry cfg env m1 prev
  else c.insertEntry cfg env m1 entry

/-- The search of `retrieve`: the entry chosen so far, its `MinDiff` and its header position. -/
def retrieveLoop (cfg : Config) (entries : Nat → CachedBlock)
    (maxAllowedFragmentedPages size alignment headersSize : Nat) :
    List Nat → Option Nat → Nat → Nat → Option Nat × Nat
  | [], best, _, headerPos => (best, headerPos)
  | i::is, best, minDiff, entryHeaderPos =>
      let commitBase := (entries i).commitBase
      let commitSize := (entries i).commitSize
      let allocPos := roundDown (wrapSub (commitBase + commitSize) size) alignment
      let headerPos := wrapSub allocPos headersSize
      let next := retrieveLoop cfg entries maxAllowedFragmentedPages size alignment headersSize is
      if headerPos > commitBase + commitSize then next best minDiff entryHeaderPos
      else if headerPos < commitBase ∨
          allocPos > (commitBase + maxAllowedFragmentedPages * cfg.pageSize) % 2^64 then
        next best minDiff entryHeaderPos
      else
        let diff := wrapSub (roundDown headerPos cfg.pageSize) commitBase
        if diff ≥ minDiff then next best minDiff entryHeaderPos
        else if diff ≤ (commitBase + commitSize - headerPos) / 10 then (some i, headerPos)
        else next (some i) diff headerPos

/-- `retrieve`: the entry with its header position, if one fits. -/
def retrieve (cfg : Config) (c : Cache) (m : Mem)
    (maxAllowedFragmentedPages size alignment headersSize : Nat) :
    Option (CachedBlock × Nat) × Cache × Mem :=
  match retrieveLoop cfg c.entries maxAllowedFragmentedPages size alignment headersSize
      c.lruEntries none (2^64-1) 0 with
  | (none, _) => (none, c, m)
  | (some i, headerPos) =>
      let e := c.entries i
      let fragmentedBytes := roundDown headerPos cfg.pageSize - e.commitBase
      let maxUnreleasedCacheBytes := maxUnreleasedCachePages * cfg.pageSize
      let m1 := if e.time ≠ 0 ∧ fragmentedBytes > maxUnreleasedCacheBytes then
          m.zeroPages e.commitBase (roundUp (min (maxReleasedCachePages * cfg.pageSize)
            (fragmentedBytes - maxUnreleasedCacheBytes)) cfg.pageSize)
        else m
      (some (e, headerPos), c.remove i, m1)

def releaseToOS (cfg : Config) (c : Cache) (m : Mem) : Cache × Mem :=
  releaseOlderThan cfg (2^64-1) c m

/-- `disableMemoryTagging`: the cache quarantine is unmapped. -/
def disableMemoryTagging (cfg : Config) (c : Cache) : Cache :=
  if !cfg.quarantineDisabled then
    { c with
      quarantine := fun i =>
        if i < cfg.cacheQuarantineSize then (c.quarantine i).invalidate else c.quarantine i
      quarantinePos := 2^32-1 }
  else c

/-- `setOption(MaxCacheEntriesCount)`. -/
def setMaxEntriesCount (cfg : Config) (c : Cache) (value : Int) : Cache :=
  if value < 0 then c
  else { c with maxEntriesCount := min (value.toNat % 2^32) cfg.entriesArraySize }

/-- `setOption(MaxCacheEntrySize)`. -/
def setMaxEntrySize (c : Cache) (value : Int) : Cache :=
  { c with maxEntrySize := (value % 2^64).toNat }

/-- `setOption(ReleaseInterval)`, for the default bounds of the interval. -/
def setReleaseInterval (c : Cache) (value : Int) : Cache :=
  { c with releaseToOsIntervalMs := value }

/-- `init`, with no entry cached. -/
def init (cfg : Config) (maxEntriesCount maxEntrySize : Nat) (interval : Int) : Cache where
  entries := fun _ => .empty
  lruEntries := []
  availEntries := List.range cfg.entriesArraySize
  oldestPresentEntry := none
  quarantine := fun _ => .empty
  quarantinePos := 0
  maxEntriesCount := min maxEntriesCount cfg.entriesArraySize
  maxEntrySize := maxEntrySize
  releaseToOsIntervalMs := interval

end Cache

end ScudoMte.Secondary
