import ScudoMte.Combined.Allocate

namespace ScudoMte.Combined

open ByteMemory Chunk

/-- What a deallocation takes from outside. -/
structure FreeEnv where
  secondary : Secondary.SecondaryEnv
  call : CallEnv

/-- Where a freed chunk went: its block back to the primary, its mapping to the secondary, or
the chunk itself, under the pointer that keys its header, to the quarantine. -/
inductive Disposal
  | toPrimary (classId block : Nat)
  | toSecondary (s : Secondary)
  | toQuarantine (ptr size : Nat)

/-- `getSize`: the size of a chunk as requested. -/
def getSize (m : Mem) (ptr : Nat) (h : UnpackedHeader) : Nat :=
  if h.classId ≠ 0 then h.sizeOrUnusedBytes
  else
    let ptr := untagPointer ptr
    wrapSub (wrapSub (Secondary.getBlockEnd m (getBlockBegin ptr h)) ptr) h.sizeOrUnusedBytes

/-- The size that the block of a chunk leaves to the user. -/
def getUsableSizeOf (cfg : Config) (m : Mem) (ptr : Nat) (h : UnpackedHeader) : Nat :=
  let blockBegin := getBlockBegin ptr h
  if h.classId ≠ 0 then
    cfg.sizeClassMap.getSizeByClassId h.classId - (ptr - blockBegin)
  else wrapSub (Secondary.getBlockEnd m (untagPointer blockBegin)) (untagPointer ptr)

/-- The header of a chunk that the caller claims to hold. -/
def loadAllocated (cfg : Config) (m : Mem) (action : AllocatorAction) (ptr : Nat) :
    Except Report UnpackedHeader := do
  let h ← loadHeader cfg.cookie ptr m
  if h.state ≠ State.allocated.field then .error (.invalidChunkState action ptr) else .ok h

def getAllocSize (cfg : Config) (m : Mem) (ptr : Nat) : Except Report Nat := do
  let ptr := getHeaderTaggedPointer ptr
  let h ← loadAllocated cfg m .sizing ptr
  .ok (getSize m ptr h)

/-- `getUsableSize`. -/
def getUsableSize (cfg : Config) (opts : Options) (m : Mem) (ptr : Nat) : Except Report Nat :=
  if ptr = 0 then .ok 0
  else if cfg.exactUsableSize ∨ opts.useMemoryTagging then getAllocSize cfg m ptr
  else do
    let ptr := getHeaderTaggedPointer ptr
    let h ← loadAllocated cfg m .sizing ptr
    .ok (getUsableSizeOf cfg m ptr h)

/-- The condition of `quarantineOrDeallocateChunk`; it underflows on purpose for a size of 0. -/
def bypassQuarantine (cfg : Config) (h : UnpackedHeader) (size : Nat) : Bool :=
  cfg.quarantineDisabled || cfg.quarantineCacheSize == 0 ||
    decide (wrapSub size 1 ≥ cfg.quarantineMaxChunkSize) || h.classId == 0

/-- The header that a freed chunk gets. -/
def freedHeader (cfg : Config) (opts : Options) (env : CallEnv) (h : UnpackedHeader) (size : Nat) :
    UnpackedHeader :=
  { h with
    state := if bypassQuarantine cfg h size then State.available.field
      else State.quarantined.field
    originOrWasZeroed :=
      if !opts.useMemoryTagging then 0
      else if h.classId ≠ 0 ∧ !env.disableMemInit then 1 else 0 }

def quarantineOrDeallocateChunk (cfg : Config) (opts : Options) (env : FreeEnv) (s : Secondary)
    (m : Mem) (taggedPtr : Nat) (h : UnpackedHeader) (size : Nat) : Disposal × Mem :=
  let ptr := getHeaderTaggedPointer taggedPtr
  let h1 := freedHeader cfg opts env.call h size
  let m1 := storeHeader cfg.cookie ptr h1 m
  if bypassQuarantine cfg h size then
    let (blockBegin, m2) :=
      if !opts.useMemoryTagging then (getBlockBegin (untagPointer ptr) h1, m1)
      else retagBlock cfg opts env.call m1 taggedPtr ptr h1 size true
    if h1.classId ≠ 0 then (.toPrimary h1.classId blockBegin, m2)
    else
      let (s', m3, _) := s.deallocate cfg opts env.secondary m2 blockBegin
      (.toSecondary s', m3)
  else if opts.useMemoryTagging then
    -- `retagBlock` takes the pointer by reference and untags it
    (.toQuarantine (untagPointer ptr) size,
      (retagBlock cfg opts env.call m1 taggedPtr ptr h1 size false).2)
  else (.toQuarantine ptr size, m1)

/-- The origin check of `deallocate`: a `memalign` chunk may be freed by `free`. -/
def originMismatch (opts : Options) (h : UnpackedHeader) (origin : Origin) : Bool :=
  opts.deallocTypeMismatch && h.originOrWasZeroed != origin.field &&
    (h.originOrWasZeroed != Origin.memalign.field || origin != .malloc)

/-- `deallocate`; `none` stands for the null pointer, which is ignored. -/
def deallocate (cfg : Config) (opts : Options) (env : FreeEnv) (s : Secondary) (m : Mem)
    (taggedPtr : Nat) (origin : Origin) (deleteSize : Nat) :
    Except Report (Option Disposal × Mem) :=
  if taggedPtr = 0 then .ok (none, m)
  else if !isAligned taggedPtr minAlignment then
    .error (.misalignedPointer .deallocating taggedPtr)
  else do
    let ptr := getHeaderTaggedPointer taggedPtr
    let h ← loadAllocated cfg m .deallocating ptr
    if originMismatch opts h origin then
      .error (.deallocTypeMismatch .deallocating ptr h.originOrWasZeroed origin.field)
    else
      let size := getSize m ptr h
      if deleteSize ≠ 0 ∧ opts.deleteSizeMismatch ∧ deleteSize ≠ size then
        .error (.deleteSizeMismatch ptr deleteSize size)
      else
        let (d, m') := quarantineOrDeallocateChunk cfg opts env s m taggedPtr h size
        .ok (some d, m')

/-- What `reallocate` did: nothing (null), a resize in place, or a move. -/
inductive Realloc
  | null
  | inPlace
  | moved (a : Allocation) (d : Disposal)

/-- The end of the block and the old size, as `reallocate` computes them. -/
def reallocSizes (cfg : Config) (m : Mem) (oldTaggedPtr : Nat) (h : UnpackedHeader) : Nat × Nat :=
  let blockBegin := getBlockBegin oldTaggedPtr h
  if h.classId ≠ 0 then
    (blockBegin + cfg.sizeClassMap.getSizeByClassId h.classId, h.sizeOrUnusedBytes)
  else
    let blockEnd := Secondary.getBlockEnd m blockBegin
    (blockEnd, wrapSub blockEnd (oldTaggedPtr + h.sizeOrUnusedBytes))

/-- The branch of `reallocate` that keeps the block. -/
def reallocateInPlace (cfg : Config) (opts : Options) (env : CallEnv) (m : Mem)
    (oldTaggedPtr oldPtr : Nat) (h : UnpackedHeader) (blockEnd oldSize newSize : Nat) : Mem :=
  let fill := fillContentsMode opts false env.disableMemInit
  let m1 := if newSize < oldSize ∧ fill ≠ .noFill then
      m.memset (untagPointer (oldTaggedPtr + newSize)) (fillByte fill) (oldSize - newSize)
    else m
  let h1 := { h with
    sizeOrUnusedBytes := bitField 20
      (if h.classId ≠ 0 then newSize else wrapSub blockEnd (oldTaggedPtr + newSize)) }
  let m2 := storeHeader cfg.cookie oldPtr h1 m1
  if opts.useMemoryTagging then
    if h.classId ≠ 0 then
      storeAllocationStackMaybe opts env
        (resizeTaggedChunk m2 (oldTaggedPtr + oldSize) (oldTaggedPtr + newSize) newSize
          (untagPointer blockEnd)) oldPtr
    else storeAllocationStackMaybe opts env m2 oldPtr
  else m2

/-- `reallocate` of a pointer to a new size, which the C wrappers keep from being null and 0. -/
def reallocate (cfg : Config) (opts : Options) (alloc : AllocEnv) (free : FreeEnv) (s : Secondary)
    (m : Mem) (oldTaggedPtr newSize alignment : Nat) :
    Except Report (Realloc × Secondary × Mem) :=
  if newSize ≥ maxAllowedMallocSize then
    if opts.mayReturnNull then .ok (.null, s, m)
    else .error (.allocationSizeTooBig newSize 0 maxAllowedMallocSize)
  else
    let oldPtr := getHeaderTaggedPointer oldTaggedPtr
    if !isAligned oldPtr minAlignment then .error (.misalignedPointer .reallocating oldPtr)
    else do
      let h ← loadAllocated cfg m .reallocating oldPtr
      if opts.deallocTypeMismatch ∧ h.originOrWasZeroed ≠ Origin.malloc.field then
        .error (.deallocTypeMismatch .reallocating oldPtr h.originOrWasZeroed Origin.malloc.field)
      else
        let (blockEnd, oldSize) := reallocSizes cfg m oldTaggedPtr h
        if oldTaggedPtr + newSize ≤ blockEnd ∧
            (newSize > oldSize ∨ oldSize - newSize < cfg.pageSize) then
          .ok (.inPlace, s, reallocateInPlace cfg opts alloc.call m oldTaggedPtr oldPtr h blockEnd
            oldSize newSize)
        else
          match ← allocate cfg opts alloc s m newSize .malloc alignment false with
          | (none, s1, m1) => .ok (.null, s1, m1)
          | (some a, s1, m1) =>
              let m2 := m1.memcpy a.user (untagPointer oldTaggedPtr) (min newSize oldSize)
              let (d, m3) := quarantineOrDeallocateChunk cfg opts free s1 m2 oldTaggedPtr h oldSize
              .ok (.moved a d, s1, m3)

/-- `QuarantineCallback::recycle`: the class and the block that go back to the primary. -/
def recycle (cfg : Config) (m : Mem) (ptr : Nat) : Except Report ((Nat × Nat) × Mem) := do
  let h ← loadHeader cfg.cookie ptr m
  if h.state ≠ State.quarantined.field then .error (.invalidChunkState .recycling ptr)
  else
    let h1 := { h with state := State.available.field }
    .ok ((h1.classId, getBlockBegin (untagPointer ptr) h1), storeHeader cfg.cookie ptr h1 m)

/-- `sizeof(QuarantineBatch)`. -/
def quarantineBatchSize : Nat := 8176

def quarantineClassId (cfg : Config) : Nat :=
  cfg.sizeClassMap.getClassIdBySize (quarantineBatchSize + getHeaderSize)

/-- `QuarantineCallback::allocate`, once the primary gave the block. -/
def allocateQuarantineBatch (cfg : Config) (opts : Options) (m : Mem) (block : Nat) : Nat × Mem :=
  let ptr := block + getHeaderSize
  let m1 := storeHeader cfg.cookie ptr
    { classId := bitField 8 (quarantineClassId cfg)
      state := State.quarantined.field
      originOrWasZeroed := 0
      sizeOrUnusedBytes := bitField 20 quarantineBatchSize
      offset := 0
      checksum := 0 } m
  (ptr, if opts.useMemoryTagging then storeTags m1 ptr (ptr + quarantineBatchSize) else m1)

/-- `QuarantineCallback::deallocate`: the block that goes back to the primary. -/
def deallocateQuarantineBatch (cfg : Config) (m : Mem) (ptr : Nat) : Except Report (Nat × Mem) := do
  let h ← loadHeader cfg.cookie ptr m
  if h.state ≠ State.quarantined.field then .error (.invalidChunkState .deallocating ptr)
  else .ok (ptr - getHeaderSize, storeHeader cfg.cookie ptr { h with state := State.available.field } m)

end ScudoMte.Combined
