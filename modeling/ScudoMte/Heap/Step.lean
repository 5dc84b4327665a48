import ScudoMte.Heap.State
import ScudoMte.Secondary.Serve
import ScudoMte.Library.TransitionSystem

namespace ScudoMte

open ByteMemory Ownership Chunk Combined

variable {cfg : Config}

/-- The chunk of a new allocation; the large header tells the mapping of a secondary one. -/
def Holding.ofAllocation (opts : Options) (m : Mem) (a : Allocation) : Holding where
  toAllocation := a
  headerTag := Combined.headerTag opts a.classId
  map := if a.classId ≠ 0 then ⟨a.block, a.blockEnd - a.block⟩
    else Secondary.headerMemMap m (Secondary.getHeader a.block)
  status := .live

/-- The chunk of a batch of the quarantine. -/
def Holding.ofBatch (cfg : Config) (ptr block : Nat) : Holding where
  ptr := ptr
  size := quarantineBatchSize
  classId := quarantineClassId cfg
  block := block
  blockEnd := block + cfg.sizeClassMap.getSizeByClassId (quarantineClassId cfg)
  headerTag := 0
  map := ⟨block, cfg.sizeClassMap.getSizeByClassId (quarantineClassId cfg)⟩
  status := .batch

namespace Heap

def addAllocation (h : Heap) (s : Secondary) (m : Mem) (a : Allocation) : Heap :=
  { h with
    mem := m
    secondary := s
    free := h.free.erase (a.classId, a.block)
    chunks := .ofAllocation h.opts m a :: h.chunks }

/-- A chunk goes where its deallocation sent it. -/
def dispose (h : Heap) (r : Holding) (m : Mem) : Disposal → Heap
  | .toPrimary c block =>
      { h with mem := m, chunks := h.chunks.erase r, free := (c, block)::h.free }
  | .toSecondary s => { h with mem := m, chunks := h.chunks.erase r, secondary := s }
  | .toQuarantine ptr _ =>
      { h with mem := m, chunks := { r with ptr, status := .quarantined } :: h.chunks.erase r }

def allocate (cfg : Config) (h : Heap) (env : AllocEnv) (size : Nat) (origin : Origin) (k : Nat)
    (zeroContents : Bool) : Except Report Heap := do
  match ← Combined.allocate cfg h.opts env h.secondary h.mem size origin (2^k) zeroContents with
  | (none, s, m) => .ok { h with mem := m, secondary := s }
  | (some a, s, m) => .ok (h.addAllocation s m a)

def deallocate (cfg : Config) (h : Heap) (r : Holding) (env : FreeEnv) (origin : Origin)
    (deleteSize : Nat) : Except Report Heap := do
  match ← Combined.deallocate cfg h.opts env h.secondary h.mem r.ptr origin deleteSize with
  | (none, m) => .ok { h with mem := m }
  | (some d, m) => .ok (h.dispose r m d)

def reallocate (cfg : Config) (h : Heap) (r : Holding) (alloc : AllocEnv) (free : FreeEnv)
    (newSize k : Nat) : Except Report Heap := do
  match ← Combined.reallocate cfg h.opts alloc free h.secondary h.mem r.ptr newSize (2^k) with
  | (.null, s, m) => .ok { h with mem := m, secondary := s }
  | (.inPlace, s, m) =>
      .ok { h with mem := m, secondary := s, chunks := { r with size := newSize } :: h.chunks.erase r }
  | (.moved a d, s, m) => .ok ((h.addAllocation s m a).dispose r m d)

/-- The quarantine recycles a chunk. -/
def recycle (cfg : Config) (h : Heap) (r : Holding) : Except Report Heap := do
  let (p, m) ← Combined.recycle cfg h.mem r.ptr
  .ok { h with mem := m, chunks := h.chunks.erase r, free := p::h.free }

/-- The quarantine takes a block for a batch. -/
def allocateBatch (cfg : Config) (h : Heap) (block : Nat) : Heap :=
  let (ptr, m) := allocateQuarantineBatch cfg h.opts h.mem block
  { h with
    mem := m
    free := h.free.erase (quarantineClassId cfg, block)
    chunks := .ofBatch cfg ptr block :: h.chunks }

def deallocateBatch (cfg : Config) (h : Heap) (r : Holding) : Except Report Heap := do
  let (block, m) ← deallocateQuarantineBatch cfg h.mem r.ptr
  .ok { h with
    mem := m, chunks := h.chunks.erase r, free := (quarantineClassId cfg, block)::h.free }

end Heap

/-- What can happen to the heap from one call to the next: the calls of the program, its writes,
what the quarantine does, and what the primary and the secondary do with free memory. -/
inductive Act
  | allocate (env : AllocEnv) (size : Nat) (origin : Origin) (k : Nat) (zeroContents : Bool)
  | deallocate (r : Holding) (env : FreeEnv) (origin : Origin) (deleteSize : Nat)
  | reallocate (r : Holding) (alloc : AllocEnv) (free : FreeEnv) (newSize k : Nat)
  | write (r : Holding) (i : Nat) (b : UInt8)
  | recycle (r : Holding)
  | allocateBatch (block : Nat)
  | deallocateBatch (r : Holding)
  | populate (classId : Nat)
  | releasePages (lo n : Nat)
  | releaseToOS
  | setCache (maxEntriesCount maxEntrySize interval : Int)
  | setOddEvenTags (value : Bool)
  | setTrackAllocationStacks (value : Bool)
  | setFillContents (value : FillContentsMode)
  | setAddLargeAllocationSlack (value : Bool)
  | disableMemoryTagging

/-- What an allocation may be given from outside: free blocks of the primary, and a new mapping
in the user half of the address space that no part of the heap is in. -/
structure Combined.AllocEnv.Ok (R : Regions cfg) (h : Heap) (env : AllocEnv) (size k : Nat) : Prop where
  primaryBlock : ∀ c block, env.primaryBlock c = some block → (c, block) ∈ h.free
  mapBase : ∀ b, env.secondary.mapBase = some b → 0 < b ∧ cfg.pageSize ∣ b ∧ b < 2^47 ∧
    ∀ o ∈ h.owners R, (Secondary.reservation cfg h.opts size (2^(max k 4)) b).range.Disjoint
      (o.zone cfg)

/-- The acts that can happen in a state. The program passes live pointers only and writes inside
its chunks, the clock has started, and the pages that the primary gives back lie in free blocks. -/
def Enabled (R : Regions cfg) (h : Heap) : Act → Prop
  | .allocate env size _ k _ => env.Ok R h size k
  | .deallocate r env _ _ => r ∈ h.chunks ∧ r.status = .live ∧ env.secondary.clock ≠ 0
  | .reallocate r alloc free newSize k => r ∈ h.chunks ∧ r.status = .live ∧
      alloc.Ok R h newSize k ∧ free.secondary.clock ≠ 0
  | .write r i _ => r ∈ h.chunks ∧ r.status ≠ .quarantined ∧ i < r.size
  | .recycle r => r ∈ h.chunks ∧ r.status = .quarantined
  | .allocateBatch block => (quarantineClassId cfg, block) ∈ h.free ∧
      quarantineBatchSize + getHeaderSize ≤ cfg.sizeClassMap.maxSize
  | .deallocateBatch r => r ∈ h.chunks ∧ r.status = .batch
  | .populate c => c ∈ classIds cfg ∧
      (h.carved c + 1) * cfg.sizeClassMap.getSizeByClassId c ≤ R.regionSize c
  | .releasePages lo n => cfg.pageSize ∣ lo ∧ cfg.pageSize ∣ n ∧
      (∀ r ∈ h.chunks, Range.Disjoint ⟨lo, lo+n⟩ r.map.range) ∧
      ∀ e ∈ h.secondary.cache.cached cfg, Range.Disjoint ⟨lo, lo+n⟩ e.memMap.range
  | _ => True

def step (R : Regions cfg) (h : Heap) : Act → Except Report Heap
  | .allocate env size origin k zeroContents => h.allocate cfg env size origin k zeroContents
  | .deallocate r env origin deleteSize => h.deallocate cfg r env origin deleteSize
  | .reallocate r alloc free newSize k => h.reallocate cfg r alloc free newSize k
  | .write r i b => .ok { h with mem := h.mem.memset (r.user + i) b 1 }
  | .recycle r => h.recycle cfg r
  | .allocateBatch block => .ok (h.allocateBatch cfg block)
  | .deallocateBatch r => h.deallocateBatch cfg r
  | .populate c => .ok { h with
      carved := Function.update h.carved c (h.carved c + 1)
      free := (c, R.blockAt c (h.carved c)) :: h.free }
  | .releasePages lo n => .ok { h with mem := h.mem.zeroPages lo n }
  | .releaseToOS =>
      let (cache, mem) := h.secondary.cache.releaseToOS cfg h.mem
      .ok { h with mem, secondary := { h.secondary with cache } }
  | .setCache count size interval => .ok { h with
      secondary := { h.secondary with
        cache := ((h.secondary.cache.setMaxEntriesCount cfg count).setMaxEntrySize
          size).setReleaseInterval interval } }
  | .setOddEvenTags value => .ok { h with opts := { h.opts with useOddEvenTags := value } }
  | .setTrackAllocationStacks value =>
      .ok { h with opts := { h.opts with trackAllocationStacks := value } }
  | .setFillContents value => .ok { h with opts := { h.opts with fillContents := value } }
  | .setAddLargeAllocationSlack value =>
      .ok { h with opts := { h.opts with addLargeAllocationSlack := value } }
  | .disableMemoryTagging => .ok { h with
      secondary := { h.secondary with cache := h.secondary.cache.disableMemoryTagging cfg }
      opts := { h.opts with useMemoryTagging := false } }

/-- The heap after `init`: nothing carved, no chunk, no cached mapping, and zero pages in the
regions. -/
structure Init (R : Regions cfg) (h : Heap) : Prop where
  secondary : ∃ count size interval, h.secondary = .init cfg count size interval
  carved : ∀ c, h.carved c = 0
  free : h.free = []
  chunks : h.chunks = []
  zero : ∀ c ∈ classIds cfg, IsZero h.mem.data (R.regionBeg c) (R.regionEnd c)
  tagging : h.opts.useMemoryTagging → cfg.systemSupportsMemoryTagging = true

/-- The states of runs whose acts all satisfy a condition. -/
def ReachableWith (R : Regions cfg) (ok : Heap → Act → Prop) : Heap → Prop :=
  TransitionSystem.Reachable (Init R) (fun h a => Enabled R h a ∧ ok h a)
    (fun h a h' => step R h a = .ok h')

def Reachable (R : Regions cfg) : Heap → Prop := ReachableWith R fun _ _ => True

end ScudoMte
