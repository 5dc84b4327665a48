import ScudoMte.Library.TransitionSystem
import ScudoMte.Secondary.MapAllocator

namespace ScudoMte.Secondary

/-- A null pointer that a thread dereferences. -/
inductive Fault
  | emptyLruEntries
  | emptyAvailEntries
  deriving DecidableEq

/-- What the part of `store` under the lock leaves behind: the cache, the eviction vector, what
was unmapped under the lock, and whether the call returns at once. -/
structure Stored where
  cache : Cache
  evicted : List MemMap
  unmapped : List MemMap
  returned : Bool

namespace Cache

/-- The eviction loop of `store` as it runs when the limit may be anything. -/
def evictLoop : Nat → Cache → List MemMap → Except Fault (Cache × List MemMap)
  | 0, _, _ => .error .emptyLruEntries
  | fuel+1, c, maps =>
      if c.lruEntries.length ≥ c.maxEntriesCount then
        match c.lruEntries.getLast? with
        | none => .error .emptyLruEntries
        | some i => evictLoop fuel (c.remove i) (maps ++ [(c.entries i).memMap])
      else .ok (c, maps)

def evictAndInsert (c : Cache) (e : CachedBlock) : Except Fault Stored :=
  match evictLoop (c.lruEntries.length + 1) c [] with
  | .error f => .error f
  | .ok (c, evicted) =>
      if c.availEntries = [] then .error .emptyAvailEntries
      else .ok { cache := c.insert e, evicted, unmapped := [], returned := false }

/-- The part of `store` under the lock. Both tests of the tagging option are of the copy that
the caller made. -/
def storeLocked (cfg : Config) (opts : Options) (clock : Nat) (c : Cache) (e : CachedBlock) :
    Except Fault Stored :=
  let e := if e.time ≠ 0 then { e with time := clock } else e
  if opts.useMemoryTagging ∧ !opts.useMemoryTagging then
    .ok { cache := c, evicted := [], unmapped := [e.memMap], returned := false }
  else if !cfg.quarantineDisabled ∧ cfg.cacheQuarantineSize ≠ 0 then
    let pos := (c.quarantinePos + 1) % 2^32 % max cfg.cacheQuarantineSize 1
    let prev := c.quarantine pos
    let c := { c with quarantinePos := pos, quarantine := Function.update c.quarantine pos e }
    if !prev.isValid then .ok { cache := c, evicted := [], unmapped := [], returned := true }
    else c.evictAndInsert prev
  else c.evictAndInsert e

/-- The mappings of the cache quarantine. -/
def quarantineMaps (cfg : Config) (c : Cache) : List MemMap :=
  if cfg.quarantineDisabled then []
  else (((List.range cfg.cacheQuarantineSize).map c.quarantine).filter (·.isValid)).map (·.memMap)

/-- The mappings of the LRU list. -/
def lruMaps (c : Cache) : List MemMap := c.lruEntries.map fun i => (c.entries i).memMap

end Cache

/-- Where a thread stands in a call of the secondary. -/
inductive Call
  | idle
  | loaded (opts : Options)
  | cacheable (opts : Options) (entry : CachedBlock)
  | storing (opts : Options) (interval : Int) (entry : CachedBlock)
  | unlocked (evicted : List MemMap) (interval : Int) (time : Nat)
  deriving DecidableEq

/-- The mapping that a freeing thread has not handed to the cache yet. -/
def Call.held : Call → List MemMap
  | .cacheable _ e => [e.memMap]
  | .storing _ _ e => [e.memMap]
  | _ => []

/-- The mappings that a thread is about to unmap. -/
def Call.evicted : Call → List MemMap
  | .unlocked evicted _ _ => evicted
  | _ => []

/-- How far `Allocator::disableMemoryTagging` has come. -/
inductive DisablePhase
  | before | swept | done
  deriving DecidableEq

/-- The cache shared by threads `ι`, with the options of the allocator and the mappings that
are inaccessible; and what was stored, retrieved and unmapped so far. -/
structure System (ι : Type*) where
  cache : Cache
  options : Options
  mem : Mem
  noAccess : MemMap → Bool
  calls : ι → Call
  phase : DisablePhase
  fault : Option Fault
  stored : List MemMap
  returned : List MemMap
  unmapped : List MemMap

inductive CacheAct (ι : Type*)
  | load (t : ι)
  | canCache (t : ι) (commitBase commitSize blockBegin : Nat) (memMap : MemMap)
  | beginStore (t : ι)
  | store (t : ι) (clock : Nat)
  | unmapEvicted (t : ι)
  | release (t : ι) (tryLock : Bool)
  | retrieve (t : ι) (size alignment : Nat)
  | releaseToOS
  | setMaxEntriesCount (value : Int)
  | setMaxEntrySize (value : Int)
  | setReleaseInterval (value : Int)
  | sweep
  | clear

namespace System

variable {ι : Type*} [DecidableEq ι]

def setCall (s : System ι) (t : ι) (call : Call) : System ι :=
  { s with calls := Function.update s.calls t call }

/-- `munmap`: what is mapped there later on is accessible. -/
def unmap (s : System ι) (maps : List MemMap) : System ι :=
  { s with
    unmapped := s.unmapped ++ maps
    noAccess := fun map => if map ∈ maps then false else s.noAccess map }

/-- `canCache` in `deallocate`: a mapping that cannot be cached is unmapped. -/
def canCache (s : System ι) (t : ι) (opts : Options) (e : CachedBlock) : System ι :=
  if s.cache.canCache e.commitSize then s.setCall t (.cacheable opts e) else s.setCall t .idle

/-- The part of `store` before the lock. -/
def beginStore (cfg : Config) (s : System ι) (t : ι) (opts : Options) (e : CachedBlock) :
    System ι :=
  let interval := s.cache.releaseToOsIntervalMs
  if opts.useMemoryTagging then
    let s := { s with noAccess := Function.update s.noAccess e.memMap true }
    if interval = 0 then
      { s with mem := mapSecondary cfg opts s.mem e.commitBase e.commitSize e.commitBase }.setCall t
        (.storing opts interval { e with time := 0 })
    else s.setCall t (.storing opts interval e)
  else s.setCall t (.storing opts interval e)

def store (cfg : Config) (s : System ι) (t : ι) (opts : Options) (interval : Int)
    (e : CachedBlock) (clock : Nat) : System ι :=
  match s.cache.storeLocked cfg opts clock e with
  | .error f => { s with fault := some f }
  | .ok r =>
      ({ s with cache := r.cache, stored := s.stored ++ [e.memMap] }.unmap r.unmapped).setCall t
        (if r.returned then .idle else .unlocked r.evicted interval clock)

/-- The end of `store`, once the eviction vector is unmapped. -/
def release (cfg : Config) (s : System ι) (t : ι) (interval : Int) (time : Nat) (tryLock : Bool) :
    System ι :=
  if interval ≥ 0 ∧ tryLock then
    let (cache, mem) :=
      s.cache.releaseOlderThan cfg (wrapSub time (interval.toNat * 1000000)) s.mem
    { s with cache, mem }.setCall t .idle
  else s.setCall t .idle

/-- `tryAllocateFromCache`, up to the change of the permissions. -/
def retrieve (cfg : Config) (s : System ι) (t : ι) (opts : Options) (size alignment : Nat) :
    System ι :=
  let maxAllowedFragmentedPages :=
    if !opts.useMemoryTagging then maxUnreleasedCachePages + maxReleasedCachePages
    else maxUnreleasedCachePages
  match s.cache.retrieve cfg s.mem maxAllowedFragmentedPages size alignment getHeadersSize with
  | (none, _, _) => s.setCall t .idle
  | (some (e, _), cache, mem) =>
      { s with
        cache
        mem
        returned := s.returned ++ [e.memMap]
        noAccess := if opts.useMemoryTagging then Function.update s.noAccess e.memMap false
          else s.noAccess }.setCall t .idle

/-- `MapAllocatorCache::disableMemoryTagging`. -/
def sweep (cfg : Config) (s : System ι) : System ι :=
  let s' := s.unmap (s.cache.quarantineMaps cfg)
  { s' with
    cache := s.cache.disableMemoryTagging cfg
    noAccess := fun map => if map ∈ s.cache.lruMaps then false else s'.noAccess map
    phase := .swept }

/-- One atomic step; `none` where it is not that thread's turn. -/
def fire (cfg : Config) (s : System ι) : CacheAct ι → Option (System ι)
  | .load t =>
      match s.calls t with
      | .idle => some (s.setCall t (.loaded s.options))
      | _ => none
  | .canCache t commitBase commitSize blockBegin memMap =>
      match s.calls t with
      | .loaded opts =>
          some (s.canCache t opts { commitBase, commitSize, blockBegin, memMap, time := 2^64-1 })
      | _ => none
  | .beginStore t =>
      match s.calls t with
      | .cacheable opts e => some (s.beginStore cfg t opts e)
      | _ => none
  | .store t clock =>
      match s.calls t with
      | .storing opts interval e => some (s.store cfg t opts interval e clock)
      | _ => none
  | .unmapEvicted t =>
      match s.calls t with
      | .unlocked (map::maps) interval time =>
          some ((s.unmap [map]).setCall t (.unlocked maps interval time))
      | _ => none
  | .release t tryLock =>
      match s.calls t with
      | .unlocked [] interval time => some (s.release cfg t interval time tryLock)
      | _ => none
  | .retrieve t size alignment =>
      match s.calls t with
      | .loaded opts => some (s.retrieve cfg t opts size alignment)
      | _ => none
  | .releaseToOS =>
      some { s with
        cache := (s.cache.releaseToOS cfg s.mem).1
        mem := (s.cache.releaseToOS cfg s.mem).2 }
  | .setMaxEntriesCount value => some { s with cache := s.cache.setMaxEntriesCount cfg value }
  | .setMaxEntrySize value => some { s with cache := s.cache.setMaxEntrySize value }
  | .setReleaseInterval value => some { s with cache := s.cache.setReleaseInterval value }
  | .sweep => if s.phase = .before then some (s.sweep cfg) else none
  | .clear =>
      if s.phase = .swept then
        some { s with options := { s.options with useMemoryTagging := false }, phase := .done }
      else none

/-- No thread goes on after a fault. -/
def step (cfg : Config) (s : System ι) (act : CacheAct ι) : Option (System ι) :=
  if s.fault = none then s.fire cfg act else none

/-- What a freeing thread brings along: a mapping in use, hence accessible and in nobody else's
hands. -/
def InUse (cfg : Config) (s : System ι) (commitBase : Nat) (memMap : MemMap) : Prop :=
  commitBase ≠ 0 ∧ s.noAccess memMap = false ∧ memMap ∉ s.cache.lruMaps ∧
    memMap ∉ s.cache.quarantineMaps cfg ∧ ∀ t, memMap ∉ (s.calls t).held

def Enabled (cfg : Config) (s : System ι) : CacheAct ι → Prop
  | .canCache _ commitBase _ _ memMap => s.InUse cfg commitBase memMap
  | _ => True

/-- The steps that the system can take, with what each of them does. -/
inductive Fired (cfg : Config) (s : System ι) : CacheAct ι → System ι → Prop
  | load {t : ι} (h : s.calls t = .idle) : Fired cfg s (.load t) (s.setCall t (.loaded s.options))
  | canCache {t : ι} {opts : Options} {commitBase commitSize blockBegin : Nat} {memMap : MemMap}
      (h : s.calls t = .loaded opts) :
      Fired cfg s (.canCache t commitBase commitSize blockBegin memMap)
        (s.canCache t opts { commitBase, commitSize, blockBegin, memMap, time := 2^64-1 })
  | beginStore {t : ι} {opts : Options} {e : CachedBlock} (h : s.calls t = .cacheable opts e) :
      Fired cfg s (.beginStore t) (s.beginStore cfg t opts e)
  | store {t : ι} {opts : Options} {interval : Int} {e : CachedBlock} {clock : Nat}
      (h : s.calls t = .storing opts interval e) :
      Fired cfg s (.store t clock) (s.store cfg t opts interval e clock)
  | unmapEvicted {t : ι} {map : MemMap} {maps : List MemMap} {interval : Int} {time : Nat}
      (h : s.calls t = .unlocked (map::maps) interval time) :
      Fired cfg s (.unmapEvicted t)
        ((s.unmap [map]).setCall t (.unlocked maps interval time))
  | release {t : ι} {interval : Int} {time : Nat} {tryLock : Bool}
      (h : s.calls t = .unlocked [] interval time) :
      Fired cfg s (.release t tryLock) (s.release cfg t interval time tryLock)
  | retrieve {t : ι} {opts : Options} {size alignment : Nat} (h : s.calls t = .loaded opts) :
      Fired cfg s (.retrieve t size alignment) (s.retrieve cfg t opts size alignment)
  | releaseToOS : Fired cfg s .releaseToOS
      { s with cache := (s.cache.releaseToOS cfg s.mem).1, mem := (s.cache.releaseToOS cfg s.mem).2 }
  | setMaxEntriesCount {value : Int} : Fired cfg s (.setMaxEntriesCount value)
      { s with cache := s.cache.setMaxEntriesCount cfg value }
  | setMaxEntrySize {value : Int} : Fired cfg s (.setMaxEntrySize value)
      { s with cache := s.cache.setMaxEntrySize value }
  | setReleaseInterval {value : Int} : Fired cfg s (.setReleaseInterval value)
      { s with cache := s.cache.setReleaseInterval value }
  | sweep (h : s.phase = .before) : Fired cfg s .sweep (s.sweep cfg)
  | clear (h : s.phase = .swept) : Fired cfg s .clear
      { s with options := { s.options with useMemoryTagging := false }, phase := .done }

theorem step_fired {cfg : Config} {s s' : System ι} {act : CacheAct ι}
    (h : s.step cfg act = some s') : s.fault = none ∧ Fired cfg s act s' := by
  rw [step] at h
  split at h
  · next hf =>
    refine ⟨hf, ?_⟩
    cases act <;> rw [fire] at h
    case load t =>
      split at h <;> cases h
      exact .load ‹_›
    case canCache t commitBase commitSize blockBegin memMap =>
      split at h <;> cases h
      exact .canCache ‹_›
    case beginStore t =>
      split at h <;> cases h
      exact .beginStore ‹_›
    case store t clock =>
      split at h <;> cases h
      exact .store ‹_›
    case unmapEvicted t =>
      split at h <;> cases h
      exact .unmapEvicted ‹_›
    case release t tryLock =>
      split at h <;> cases h
      exact .release ‹_›
    case retrieve t size alignment =>
      split at h <;> cases h
      exact .retrieve ‹_›
    case releaseToOS =>
      cases h
      exact .releaseToOS
    case setMaxEntriesCount value =>
      cases h
      exact .setMaxEntriesCount
    case setMaxEntrySize value =>
      cases h
      exact .setMaxEntrySize
    case setReleaseInterval value =>
      cases h
      exact .setReleaseInterval
    case sweep =>
      split at h <;> cases h
      exact .sweep ‹_›
    case clear =>
      split at h <;> cases h
      exact .clear ‹_›
  · cases h

/-- The cache after `init`, with no call in progress. -/
structure Start (cfg : Config) (s : System ι) : Prop where
  cache : ∃ maxEntriesCount maxEntrySize interval,
    s.cache = .init cfg maxEntriesCount maxEntrySize interval
  calls : ∀ t, s.calls t = .idle
  phase : s.phase = .before
  fault : s.fault = none
  history : s.stored = [] ∧ s.returned = [] ∧ s.unmapped = []

/-- The states of all interleavings of enabled steps that `ok` admits. -/
def ReachableWith (cfg : Config) (ok : System ι → CacheAct ι → Prop) : System ι → Prop :=
  TransitionSystem.Reachable (Start cfg) (fun s act => s.Enabled cfg act ∧ ok s act)
    fun s act s' => s.step cfg act = some s'

end System

end ScudoMte.Secondary
