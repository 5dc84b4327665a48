import ScudoMte.Combined.Deallocate
import ScudoMte.Secondary.LargeBlock

namespace ScudoMte

open ByteMemory Ownership Chunk Combined

/-- Who uses a chunk: the program, the quarantine for the chunk that it delays, or the quarantine
for a batch of its own. -/
inductive Status
  | live | quarantined | batch
  deriving DecidableEq

/-- The state in the header of a chunk. -/
def Status.state : Status → State
  | live => .allocated
  | quarantined => .quarantined
  | batch => .quarantined

/-- A chunk in use, with the tag of the pointer that keys its header and the memory that it
owns: its block in the primary, or its mapping in the secondary. -/
structure Holding extends Allocation where
  headerTag : Nat
  map : Secondary.MemMap
  status : Status
  deriving DecidableEq

/-- The pointer that keys the header. -/
def Holding.key (r : Holding) : Nat := taggedPtr r.user r.headerTag

/-- The heap between two calls. `carved` counts the blocks of a class that the primary has cut
from its region, `free` holds those that no chunk is in: the caches and free lists of the primary
as one pool. -/
structure Heap where
  mem : Mem
  secondary : Secondary
  opts : Options
  carved : Nat → Nat
  free : List (Nat × Nat)
  chunks : List Holding

/-- The regions of the primary, one for each class. -/
structure Regions (cfg : Config) where
  regionBeg : Nat → Nat
  regionSize : Nat → Nat
  aligned : ∀ c, regionBeg c % 16 = 0
  lt : ∀ c, regionBeg c + regionSize c < 2^47
  disjoint : ∀ c d, c ≠ d →
    Range.Disjoint ⟨regionBeg c, regionBeg c + regionSize c⟩ ⟨regionBeg d, regionBeg d + regionSize d⟩

variable {cfg : Config}

def Regions.regionEnd (R : Regions cfg) (c : Nat) : Nat := R.regionBeg c + R.regionSize c

/-- The `i`-th block of a region. -/
def Regions.blockAt (R : Regions cfg) (c i : Nat) : Nat :=
  R.regionBeg c + i * cfg.sizeClassMap.getSizeByClassId c

/-- The classes that serve allocations. -/
def classIds (cfg : Config) : List Nat := List.range' 1 cfg.sizeClassMap.largestClassId

/-- The blocks of a class that were cut from its region. -/
def Regions.carvedBlocks (R : Regions cfg) (carved : Nat → Nat) (c : Nat) : List (Nat × Nat) :=
  (List.range (carved c)).map fun i => (c, R.blockAt c i)

/-- The parts that the address space of the heap is split into. -/
inductive Owner
  | chunk (r : Holding)
  | cached (e : Secondary.CachedBlock)
  | free (classId block : Nat)
  | reserve (lo hi : Nat)

def Owner.zone (cfg : Config) : Owner → Range
  | chunk r => r.map.range
  | cached e => e.memMap.range
  | free c b => ⟨b, b + cfg.sizeClassMap.getSizeByClassId c⟩
  | reserve lo hi => ⟨lo, hi⟩

/-- The cached mappings: the entries of the LRU list, and the valid ones of the quarantine. -/
def Secondary.Cache.cached (cfg : Config) (c : Secondary.Cache) : List Secondary.CachedBlock :=
  c.lruEntries.map c.entries ++
    ((List.range cfg.cacheQuarantineSize).map c.quarantine).filter (·.isValid)

def chunkOwners (chunks : List Holding) : List Owner := chunks.map .chunk

def cacheOwners (cfg : Config) (c : Secondary.Cache) : List Owner := (c.cached cfg).map .cached

def freeOwners (free : List (Nat × Nat)) : List Owner := free.map fun p => .free p.1 p.2

def reserveOwners (R : Regions cfg) (carved : Nat → Nat) : List Owner :=
  (classIds cfg).map fun c => .reserve (R.blockAt c (carved c)) (R.regionEnd c)

def ownersOf (R : Regions cfg) (chunks : List Holding) (c : Secondary.Cache)
    (free : List (Nat × Nat)) (carved : Nat → Nat) : List Owner :=
  chunkOwners chunks ++ (cacheOwners cfg c ++ (freeOwners free ++ reserveOwners R carved))

def Heap.owners (R : Regions cfg) (h : Heap) : List Owner :=
  ownersOf R h.chunks h.secondary.cache h.free h.carved

/-- The size field of a chunk's header: the size, or for the secondary the bytes left behind it. -/
def Holding.sizeOrUnused (r : Holding) : Nat :=
  if r.classId ≠ 0 then r.size else r.blockEnd - (r.user + r.size)

/-- The fields of the header of a chunk. -/
structure HeaderOf (r : Holding) (h : UnpackedHeader) : Prop where
  classId : (h.classId : Nat) = r.classId
  state : h.state = r.status.state.field
  offset : r.block + 16 + 16 * h.offset.val = r.user
  size : h.sizeOrUnusedBytes = bitField 20 r.sizeOrUnused

/-- The tags of a secondary chunk: twice the tag of the large header up to the block, twice the
header tag on the granule of the chunk header, and none on the user bytes. -/
def ChunkTags (m : Mem) (commitBase : Nat) (r : Holding) : Prop :=
  m.TagsAre commitBase r.block 2 ∧ m.TagsAre r.block r.user 4 ∧ m.TagsAre r.user r.blockEnd 0

/-- What holds of a primary chunk: it owns its block, and the tag of its pointer and the one that
keys its header exclude each other. -/
structure PrimaryChunk (cfg : Config) (r : Holding) : Prop where
  classId_pos : 1 ≤ r.classId
  classId_le : r.classId ≤ cfg.sizeClassMap.largestClassId
  blockEnd : r.blockEnd = r.block + cfg.sizeClassMap.getSizeByClassId r.classId
  map : r.map = ⟨r.block, cfg.sizeClassMap.getSizeByClassId r.classId⟩
  key : r.headerTag = 0 ∨ r.headerTag = 2 ∧ (r.status = .live → r.ptr = r.user)
  batch : r.status = .batch → r.classId = quarantineClassId cfg ∧ r.ptr = r.block + 16

/-- What holds of a secondary chunk: the large header stands in front of its block. -/
structure SecondaryChunk (tagging : Bool) (m : Mem) (r : Holding) : Prop where
  classId : r.classId = 0
  live : r.status = .live
  ptr : r.ptr = r.user
  headerTag : r.headerTag = 2
  user : r.user = r.block + 16
  large : ∃ commitBase, Secondary.LargeBlock m r.map commitBase r.block r.blockEnd ∧
    (tagging → ChunkTags m commitBase r)

/-- A chunk in use is well placed and its header is in memory, sealed with its key. A quarantined
chunk is known by its key. -/
structure Holding.Ok (cfg : Config) (tagging : Bool) (m : Mem) (r : Holding) : Prop where
  block_aligned : r.block % 16 = 0
  user_aligned : r.user % 16 = 0
  header_in : r.block + 16 ≤ r.user
  user_in : r.user + r.size ≤ r.blockEnd
  blockEnd_aligned : r.blockEnd % 16 = 0
  blockEnd_lt : r.blockEnd < 2^56
  offset_lt : r.user - (r.block + 16) < 2^20
  ptr : ∃ t, t < 16 ∧ r.ptr = taggedPtr r.user t
  delayed : r.status ≠ .live → r.ptr = r.key
  place : PrimaryChunk cfg r ∨ SecondaryChunk tagging m r
  header : ∃ h, ChunkStored cfg m r.block r.user r.key h ∧ HeaderOf r h
  headerKey : m.headerKey (r.user - 16) = r.key

/-- The header that the marker of a free block leads to is not that of an allocated chunk. -/
structure Quiet (m : Mem) (block size : Nat) : Prop where
  aligned : getChunkOffsetFromBlock m block % 16 = 0
  le : getChunkOffsetFromBlock m block ≤ size
  state : (unpack (load m.data (block + getChunkOffsetFromBlock m block - 16) 8)).state ≠
    State.allocated.field

structure FreeBlock (cfg : Config) (m : Mem) (classId block : Nat) : Prop where
  classId_pos : 1 ≤ classId
  classId_le : classId ≤ cfg.sizeClassMap.largestClassId
  aligned : block % 16 = 0
  lt : block + cfg.sizeClassMap.getSizeByClassId classId < 2^56
  quiet : Quiet m block (cfg.sizeClassMap.getSizeByClassId classId)

def Owner.Ok (cfg : Config) (tagging : Bool) (m : Mem) : Owner → Prop
  | chunk r => r.Ok cfg tagging m
  | cached e => e.Ok tagging m
  | free c b => FreeBlock cfg m c b
  | reserve lo hi => lo % 16 = 0 ∧ hi < 2^47 ∧ IsZero m.data lo hi

/-- The blocks of the primary that chunks are in. -/
def primaryBlocks (chunks : List Holding) : List (Nat × Nat) :=
  (chunks.filter fun r => r.classId ≠ 0).map fun r => (r.classId, r.block)

/-- The large headers of the chunks of the secondary. -/
def largeHeaders (chunks : List Holding) : List Nat :=
  (chunks.filter fun r => r.classId = 0).map fun r => Secondary.getHeader r.block

/-- The links of the cache: each index is in one list, and the oldest entry with contents, where
the release of pages starts, is in use. -/
structure Linked (c : Secondary.Cache) : Prop where
  nodup : (c.lruEntries ++ c.availEntries).Nodup
  oldest : ∀ i, c.oldestPresentEntry = some i → i ∈ c.lruEntries

structure Heap.Inv (R : Regions cfg) (h : Heap) : Prop where
  owned : Owned (Owner.zone cfg) (Owner.Ok cfg h.opts.useMemoryTagging) h.mem (h.owners R)
  blocks : (primaryBlocks h.chunks ++ h.free).Perm
    ((classIds cfg).flatMap (R.carvedBlocks h.carved))
  fits : ∀ c, h.carved c * cfg.sizeClassMap.getSizeByClassId c ≤ R.regionSize c
  inUse : h.secondary.inUseBlocks.Perm (largeHeaders h.chunks)
  linked : Linked h.secondary.cache
  tagged : h.opts.useMemoryTagging → ∀ r ∈ h.chunks, r.classId ≠ 0 → r.headerTag = 0
  untagged : cfg.systemSupportsMemoryTagging = false →
    h.opts.useMemoryTagging = false ∧ ∀ r ∈ h.chunks, r.status = .live → r.headerTag = 2

end ScudoMte
