import ScudoMte.Secondary.Cache

namespace ScudoMte.Secondary

open ByteMemory

/-! The header precedes the block: `Prev`, `Next`, `CommitBase`, `CommitSize` and `MemMap`, eight
bytes each and sixteen for the last. -/

def largeHeaderSize : Nat := 48

/-- `LargeBlock::addHeaderTag`. -/
def addLargeHeaderTag (ptr : Nat) : Nat := addFixedTag ptr 1

/-- `LargeBlock::getHeader`. -/
def getHeader (ptr : Nat) : Nat := addLargeHeaderTag ptr - largeHeaderSize

/-- `MapAllocator::getHeadersSize`. -/
def getHeadersSize : Nat := Chunk.getHeaderSize + largeHeaderSize

def headerCommitBase (m : Mem) (h : Nat) : Nat := load m.data (untagPointer h + 16) 8
def headerCommitSize (m : Mem) (h : Nat) : Nat := load m.data (untagPointer h + 24) 8

def headerMemMap (m : Mem) (h : Nat) : MemMap :=
  ⟨load m.data (untagPointer h + 32) 8, load m.data (untagPointer h + 40) 8⟩

/-- The assignments to the fields of a header. Its list links are not modelled as bytes. -/
def writeHeader (m : Mem) (h commitBase commitSize : Nat) (memMap : MemMap) : Mem :=
  let a := untagPointer h
  (((m.write (a+16) 8 commitBase).write (a+24) 8 commitSize).write (a+32) 8 memMap.base).write
    (a+40) 8 memMap.capacity

/-- `getBlockEnd`. -/
def getBlockEnd (m : Mem) (ptr : Nat) : Nat :=
  headerCommitBase m (getHeader ptr) + headerCommitSize m (getHeader ptr)

def getGuardPageSize (cfg : Config) : Nat := if cfg.enableGuardPages then cfg.pageSize else 0

end Secondary

/-- `MapAllocator`: the cache, and `InUseBlocks` as the list of header pointers. -/
structure Secondary where
  cache : Secondary.Cache
  inUseBlocks : List Nat

namespace Secondary

/-- `init`, with the entry count and size that the configuration sets and the release interval. -/
def init (cfg : Config) (maxEntriesCount maxEntrySize : Nat) (interval : Int) : Secondary where
  cache := .init cfg maxEntriesCount maxEntrySize interval
  inUseBlocks := []

/-- The tags of a cached entry that is handed out again, in `tryAllocateFromCache`. -/
def retagCached (m : Mem) (e : CachedBlock) (newBlockBegin : Nat) : Mem :=
  if e.time = 0 then storeTags m (addLargeHeaderTag e.commitBase) newBlockBegin
  else if e.blockBegin < newBlockBegin then storeTags m e.blockBegin newBlockBegin
  else storeTags m (untagPointer newBlockBegin) (untagPointer e.blockBegin)

def tryAllocateFromCache (cfg : Config) (opts : Options) (s : Secondary) (m : Mem)
    (size alignment : Nat) (fill : FillContentsMode) : Option (Nat × Nat) × Secondary × Mem :=
  let maxAllowedFragmentedPages :=
    if !opts.useMemoryTagging then maxUnreleasedCachePages + maxReleasedCachePages
    else maxUnreleasedCachePages
  match s.cache.retrieve cfg m maxAllowedFragmentedPages size alignment getHeadersSize with
  | (none, _, _) => (none, s, m)
  | (some (e, entryHeaderPos), cache, m1) =>
      let h := addLargeHeaderTag entryHeaderPos
      let zeroed := e.time = 0
      let newBlockBegin := h + largeHeaderSize
      let m2 := if opts.useMemoryTagging then retagCached m1 e newBlockBegin else m1
      let m3 := writeHeader m2 h e.commitBase e.commitSize e.memMap
      let blockEnd := e.commitBase + e.commitSize
      let ptr := untagPointer h + largeHeaderSize
      let m4 := if fill ≠ .noFill ∧ ¬zeroed then m3.memset ptr (fillByte fill) (blockEnd - ptr)
        else m3
      (some (ptr, blockEnd), { cache, inUseBlocks := s.inUseBlocks ++ [h] }, m4)

/-- The size of the mapping that `allocate` reserves, without the guard pages. -/
def roundedSize (cfg : Config) (size alignment : Nat) : Nat :=
  let rounded := roundUp (roundUp size alignment + getHeadersSize) cfg.pageSize
  if alignment > cfg.pageSize then rounded + (alignment - cfg.pageSize) else rounded

/-- `CommitBase` of a mapping at `mapBase`. -/
def commitBaseOf (cfg : Config) (mapBase alignment : Nat) : Nat :=
  if alignment ≥ cfg.pageSize then
    roundUp (mapBase + getGuardPageSize cfg + 1) alignment - cfg.pageSize
  else mapBase + getGuardPageSize cfg

/-- The part of `allocate` that maps new memory, on a 64-bit platform. -/
def allocateFresh (cfg : Config) (opts : Options) (s : Secondary) (m : Mem)
    (size alignment mapBase : Nat) : (Nat × Nat) × Secondary × Mem :=
  let mapSize := roundedSize cfg size alignment + 2 * getGuardPageSize cfg
  let commitBase := commitBaseOf cfg mapBase alignment
  let commitSize := mapBase + mapSize - getGuardPageSize cfg - commitBase
  let allocPos := roundDown (commitBase + commitSize - size) alignment
  let m1 := mapSecondary cfg opts m commitBase commitSize allocPos
  let headerPos := allocPos - getHeadersSize
  let h := addLargeHeaderTag headerPos
  let m2 := if opts.useMemoryTagging then
      storeTags m1 (addLargeHeaderTag commitBase) (h + largeHeaderSize)
    else m1
  let m3 := writeHeader m2 h commitBase commitSize ⟨mapBase, mapSize⟩
  ((headerPos + largeHeaderSize, commitBase + commitSize),
    { s with inUseBlocks := s.inUseBlocks ++ [h] }, m3)

def sizeWithSlack (opts : Options) (size : Nat) : Nat :=
  if opts.addLargeAllocationSlack then size + 1 <<< minAlignmentLog else size

/-- `allocate`: the block and its end, or null when the reservation fails. -/
def allocate (cfg : Config) (opts : Options) (env : SecondaryEnv) (s : Secondary) (m : Mem)
    (size alignment : Nat) (fill : FillContentsMode) : Option (Nat × Nat) × Secondary × Mem :=
  let size := sizeWithSlack opts size
  let alignment := max alignment (1 <<< minAlignmentLog)
  let minNeededSizeForCache := roundUp (size + getHeadersSize) cfg.pageSize
  let cached :=
    if alignment < cfg.pageSize ∧ s.cache.canCache minNeededSizeForCache then
      tryAllocateFromCache cfg opts s m size alignment fill
    else (none, s, m)
  match cached with
  | (some r, s', m') => (some r, s', m')
  | (none, _, _) =>
      match env.mapBase with
      | none => (none, s, m)
      | some mapBase =>
          let (r, s', m') := allocateFresh cfg opts s m size alignment mapBase
          (some r, s', m')

/-- `deallocate`: the secondary, the memory and the mappings that were unmapped. -/
def deallocate (cfg : Config) (opts : Options) (env : SecondaryEnv) (s : Secondary) (m : Mem)
    (ptr : Nat) : Secondary × Mem × List MemMap :=
  let h := getHeader ptr
  let inUseBlocks := s.inUseBlocks.erase h
  if s.cache.canCache (headerCommitSize m h) then
    let (cache, m', unmapped) := s.cache.store cfg opts env m (headerCommitBase m h)
      (headerCommitSize m h) (h + largeHeaderSize) (headerMemMap m h)
    ({ cache, inUseBlocks }, m', unmapped)
  else ({ s with inUseBlocks }, m, [headerMemMap m h])

/-- An allocation fails and changes nothing, takes a cached entry, or maps new memory. -/
theorem allocate_cases {cfg : Config} {opts : Options} {env : SecondaryEnv} {s s' : Secondary}
    {m m' : Mem} {size alignment : Nat} {fill : FillContentsMode} {r : Option (Nat × Nat)}
    (h : allocate cfg opts env s m size alignment fill = (r, s', m')) (hal : 16 ≤ alignment) :
    (r = none ∧ s' = s ∧ m' = m) ∨
    (∃ res, r = some res ∧ alignment < cfg.pageSize ∧
      tryAllocateFromCache cfg opts s m (sizeWithSlack opts size) alignment fill =
        (some res, s', m')) ∨
    (∃ mapBase res, r = some res ∧ env.mapBase = some mapBase ∧
      allocateFresh cfg opts s m (sizeWithSlack opts size) alignment mapBase = (res, s', m')) := by
  have hmax : max alignment (1 <<< minAlignmentLog) = alignment := max_eq_left hal
  simp only [allocate, hmax] at h
  split at h
  · next hc =>
    simp only [Prod.mk.injEq] at h
    obtain ⟨rfl, rfl, rfl⟩ := h
    split at hc
    · next hlt => exact .inr (.inl ⟨_, rfl, hlt.1, hc⟩)
    · simp at hc
  · split at h
    · simp only [Prod.mk.injEq] at h
      obtain ⟨rfl, rfl, rfl⟩ := h
      exact .inl ⟨rfl, rfl, rfl⟩
    · next mapBase hb =>
      simp only [Prod.mk.injEq] at h
      obtain ⟨rfl, rfl, rfl⟩ := h
      exact .inr (.inr ⟨mapBase, _, rfl, hb, rfl⟩)

/-- The blocks that `iterateOverBlocks` visits. -/
def blocks (s : Secondary) : List Nat :=
  s.inUseBlocks.map fun h => untagPointer (h + largeHeaderSize)

end Secondary

end ScudoMte
