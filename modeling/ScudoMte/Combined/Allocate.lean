import ScudoMte.Combined.InitChunk
import ScudoMte.Secondary.Geometry

namespace ScudoMte.Combined

open ByteMemory Chunk

/-- What `allocate` takes from outside: the block that the primary has for a class, if any, and
the inputs of the secondary and of the call. -/
structure AllocEnv where
  primaryBlock : Nat → Option Nat
  secondary : Secondary.SecondaryEnv
  call : CallEnv

/-- A chunk that was handed out: the pointer the program got, with the size it asked for, and
where the chunk lies. -/
structure Allocation where
  ptr : Nat
  size : Nat
  classId : Nat
  block : Nat
  blockEnd : Nat
  deriving DecidableEq

/-- The address of the user bytes. -/
def Allocation.user (a : Allocation) : Nat := untagPointer a.ptr

def neededSize (size alignment : Nat) : Nat :=
  (roundUp size minAlignment +
    if alignment > minAlignment then alignment else getHeaderSize) % 2^64

/-- The attempts of `allocate` in each successively larger class, from `classId` on. -/
def allocateFrom (scm : SizeClassMap) (primaryBlock : Nat → Option Nat) :
    Nat → Nat → Option (Nat × Nat)
  | 0, _ => none
  | fuel+1, classId =>
      match primaryBlock classId with
      | some block => some (classId, block)
      | none =>
          if classId < scm.largestClassId then allocateFrom scm primaryBlock fuel (classId+1)
          else none

/-- The class and the block from the primary, if the request can be served there. -/
def allocatePrimary (scm : SizeClassMap) (primaryBlock : Nat → Option Nat) (needed : Nat) :
    Option (Nat × Nat) :=
  if needed ≤ scm.maxSize then
    allocateFrom scm primaryBlock (scm.largestClassId + 1) (scm.getClassIdBySize needed)
  else none

/-- The class, the block and the end of the block for a request: from the primary, or else from
the secondary under class 0. -/
def allocateBlock (cfg : Config) (opts : Options) (env : AllocEnv) (s : Secondary) (m : Mem)
    (size alignment : Nat) (fill : FillContentsMode) :
    Option (Nat × Nat × Nat) × Secondary × Mem :=
  match allocatePrimary cfg.sizeClassMap env.primaryBlock (neededSize size alignment) with
  | some (classId, block) =>
      (some (classId, block, block + cfg.sizeClassMap.getSizeByClassId classId), s, m)
  | none =>
      match s.allocate cfg opts env.secondary m size alignment fill with
      | (some (block, blockEnd), s', m') => (some (0, block, blockEnd), s', m')
      | (none, s', m') => (none, s', m')

/-- The end of `allocate`: the chunk in its block. -/
def initAllocation (cfg : Config) (opts : Options) (env : CallEnv) (m : Mem) (size alignment : Nat)
    (origin : Origin) (fill : FillContentsMode) (classId block blockEnd : Nat) :
    Allocation × Mem :=
  let userPtr := roundUp (block + getHeaderSize) alignment
  let sizeOrUnusedBytes := if classId ≠ 0 then size else wrapSub blockEnd (userPtr + size)
  let (ptr, m') :=
    if !opts.useMemoryTagging then
      initChunk cfg m classId origin block userPtr sizeOrUnusedBytes fill
    else
      initChunkWithMemoryTagging cfg opts env m classId origin block userPtr size
        sizeOrUnusedBytes fill
  ({ ptr, size, classId, block, blockEnd }, m')

/-- `allocate`: null is `none`. -/
def allocate (cfg : Config) (opts : Options) (env : AllocEnv) (s : Secondary) (m : Mem)
    (size : Nat) (origin : Origin) (alignment : Nat) (zeroContents : Bool) :
    Except Report (Option Allocation × Secondary × Mem) :=
  if alignment > maxAlignment then
    if opts.mayReturnNull then .ok (none, s, m)
    else .error (.alignmentTooBig alignment maxAlignment)
  else
    let alignment := max alignment minAlignment
    let fill := fillContentsMode opts zeroContents env.call.disableMemInit
    let needed := neededSize size alignment
    if size ≥ maxAllowedMallocSize then
      if opts.mayReturnNull then .ok (none, s, m)
      else .error (.allocationSizeTooBig size needed maxAllowedMallocSize)
    else
      match allocateBlock cfg opts env s m size alignment fill with
      | (none, s', m') =>
          if opts.mayReturnNull then .ok (none, s', m') else .error (.outOfMemory needed)
      | (some (classId, block, blockEnd), s', m') =>
          let (a, m'') := initAllocation cfg opts env.call m' size alignment origin fill classId
            block blockEnd
          .ok (some a, s', m'')

theorem allocateFrom_some {scm : SizeClassMap} {primaryBlock : Nat → Option Nat} (fuel c : Nat)
    {classId block : Nat} (hc : c ≤ scm.largestClassId)
    (h : allocateFrom scm primaryBlock fuel c = some (classId, block)) :
    c ≤ classId ∧ classId ≤ scm.largestClassId ∧ primaryBlock classId = some block := by
  induction fuel generalizing c with
  | zero => simp [allocateFrom] at h
  | succ fuel ih =>
    rw [allocateFrom] at h
    split at h
    · next b hb =>
      simp only [Option.some.injEq, Prod.mk.injEq] at h
      obtain ⟨rfl, rfl⟩ := h
      exact ⟨le_refl _, hc, hb⟩
    · split at h
      · next hlt =>
        obtain ⟨h1, h2, h3⟩ := ih (c+1) (by omega) h
        exact ⟨by omega, h2, h3⟩
      · simp at h

theorem neededSize_eq {size k : Nat} (hsize : size < 2^40) (hk4 : 4 ≤ k) (hk : k ≤ 24) :
    neededSize size (2^k) = (size+15)/16*16 + 2^k := by
  have hk24 : 2^k ≤ 2^24 := Nat.pow_le_pow_right (by decide) hk
  have hk16 : 2^4 ≤ 2^k := Nat.pow_le_pow_right (by decide) hk4
  have hmin : minAlignment = 16 := by decide
  rw [neededSize, hmin, roundUp_16 _ (by omega), getHeaderSize_eq]
  split
  · omega
  · omega

/-- The block that serves a request has room for it behind its header: the user pointer is
aligned, and the user bytes end inside the block. -/
structure BlockServes (cfg : Config) (size alignment classId block blockEnd : Nat) : Prop where
  block_aligned : block % 16 = 0
  user_aligned : alignment ∣ roundUp (block + getHeaderSize) alignment
  header : block + 16 ≤ roundUp (block + getHeaderSize) alignment
  fits : roundUp (block + getHeaderSize) alignment + size ≤ blockEnd
  end_lt : blockEnd < 2^56
  class_le : classId ≤ cfg.sizeClassMap.largestClassId
  primary : classId ≠ 0 → blockEnd = block + cfg.sizeClassMap.getSizeByClassId classId
  secondary : classId = 0 → roundUp (block + getHeaderSize) alignment = block + 16

/-- The blocks that the primary may have: 16-aligned, and below the tag field. -/
def PrimaryBlocksOk (cfg : Config) (primaryBlock : Nat → Option Nat) : Prop :=
  ∀ c block, primaryBlock c = some block → block % 16 = 0 ∧
    block + cfg.sizeClassMap.getSizeByClassId c < 2^56

theorem allocatePrimary_serves (cfg : Config) {primaryBlock : Nat → Option Nat}
    {size k classId block : Nat} (hsize : size < 2^40) (hk4 : 4 ≤ k) (hk : k ≤ 24)
    (hblocks : PrimaryBlocksOk cfg primaryBlock)
    (h : allocatePrimary cfg.sizeClassMap primaryBlock (neededSize size (2^k)) =
      some (classId, block)) :
    1 ≤ classId ∧ primaryBlock classId = some block ∧
      BlockServes cfg size (2^k) classId block
        (block + cfg.sizeClassMap.getSizeByClassId classId) := by
  have hk16 : 2^4 ≤ 2^k := Nat.pow_le_pow_right (by decide) hk4
  rw [allocatePrimary, neededSize_eq hsize hk4 hk] at h
  split at h
  · next hmax =>
    obtain ⟨hc1, hcl, hfit⟩ := cfg.sizeClassMap.class_spec _ (by omega) hmax
    obtain ⟨hge, hle, hb⟩ := allocateFrom_some _ _ hcl h
    have hmono := cfg.sizeClassMap.size_mono hc1 hge hle
    obtain ⟨hal, hlim⟩ := hblocks classId block hb
    obtain ⟨hlo, hhi, hdvd, hu16⟩ := userPtr_spec hk4 hk (show block < 2^56 by omega)
    have hmul : roundUp (block + getHeaderSize) (2^k) ≤ block + 2^k := by
      have h16 : 2^k % 16 = 0 := mod_16_of_dvd hk4 (dvd_refl _)
      omega
    exact ⟨by omega, hb, hal, hdvd, hlo, by omega, hlim, hle, fun _ => rfl, fun h0 => by omega⟩
  · simp at h

/-- What the secondary relies on from outside: cached mappings and new reservations lie below
the tag field, the latter page aligned and in the user half of the address space. -/
structure SecondaryOk (cfg : Config) (env : Secondary.SecondaryEnv) (s : Secondary) : Prop where
  cached : ∀ i ∈ s.cache.lruEntries,
    (s.cache.entries i).commitBase + (s.cache.entries i).commitSize < 2^56
  mapBase : ∀ b, env.mapBase = some b → cfg.pageSize ∣ b ∧ b < 2^47

/-- The chosen block serves the request, with less than an alignment and the slack to spare. -/
theorem allocateSecondary_serves {cfg : Config} {opts : Options} {env : Secondary.SecondaryEnv}
    {s s' : Secondary} {m m' : Mem} {size k block blockEnd : Nat} {fill : FillContentsMode}
    (hsize : size < 2^40) (hk4 : 4 ≤ k) (hk : k ≤ 24) (hok : SecondaryOk cfg env s)
    (h : s.allocate cfg opts env m size (2^k) fill = (some (block, blockEnd), s', m')) :
    BlockServes cfg size (2^k) 0 block blockEnd ∧ blockEnd < block + 16 + size + 16 + 2^k := by
  have hslack : Secondary.sizeWithSlack opts size ≤ size + 16 ∧
      size ≤ Secondary.sizeWithSlack opts size := by
    have h16 : 1 <<< minAlignmentLog = 16 := by decide
    simp only [Secondary.sizeWithSlack, h16]
    split <;> omega
  have hk16 : 2^4 ≤ 2^k := Nat.pow_le_pow_right (by decide) hk4
  have hk24 : 2^k ≤ 2^24 := Nat.pow_le_pow_right (by decide) hk
  have key {commitBase : Nat} (hp : Secondary.BlockPlaced (Secondary.sizeWithSlack opts size) (2^k)
      commitBase block blockEnd) (hend : blockEnd < 2^56) :
      BlockServes cfg size (2^k) 0 block blockEnd ∧ blockEnd < block + 16 + size + 16 + 2^k := by
    obtain ⟨hal, hhead, hfits, htight⟩ := hp
    have huser : roundUp (block + getHeaderSize) (2^k) = block + 16 := by
      rw [getHeaderSize_eq]
      exact roundUp_of_dvd _ k (by omega) (by omega) hal
    have h16 := mod_16_of_dvd hk4 hal
    refine ⟨⟨by omega, ?_, ?_, ?_, hend, Nat.zero_le _, fun h0 => absurd rfl h0, fun _ => huser⟩,
      by omega⟩ <;> rw [huser]
    · exact hal
    · omega
  rcases Secondary.allocate_cases h hk16 with ⟨hn, -, -⟩ | ⟨res, hr, -, hc⟩ | ⟨mapBase, res, hr, hb, hf⟩
  · simp at hn
  · simp only [Option.some.injEq] at hr
    subst hr
    simp only [Secondary.tryAllocateFromCache] at hc
    split at hc
    · simp at hc
    · next e pos cache m1 hret =>
      simp only [Prod.mk.injEq, Option.some.injEq] at hc
      obtain ⟨⟨rfl, rfl⟩, -, -⟩ := hc
      obtain ⟨i, hi, rfl, -, hfits, -⟩ := Secondary.Cache.retrieve_some hret
      have hend := hok.cached i hi
      obtain ⟨hplaced, -⟩ := hfits.placed hk4 hk (by omega) hend
      have hpos : untagPointer (Secondary.addLargeHeaderTag pos) = pos := by
        have hlt : pos < 2^56 := by have := hfits.hi; omega
        rw [Secondary.addLargeHeaderTag, addFixedTag_of_lt hlt (by decide),
          untagPointer_taggedPtr _ hlt]
      rw [← hpos] at hplaced
      exact key hplaced hend
  · simp only [Option.some.injEq] at hr
    subst hr
    obtain ⟨hbd, hblt⟩ := hok.mapBase mapBase hb
    have hlim := Secondary.roundedSize_lt cfg (Secondary.sizeWithSlack opts size) hk (by omega)
    have hg := Secondary.getGuardPageSize_le cfg
    have hpg := cfg.pageSize_le
    have hplaced := Secondary.allocateFresh_placed cfg opts s m (Secondary.sizeWithSlack opts size)
      hk4 hk (by omega) hbd (by omega)
    obtain ⟨-, -, -, hle, -⟩ := Secondary.allocateFresh_range cfg
      (Secondary.sizeWithSlack opts size) hk4 hk (by omega) hbd (by omega)
    rw [hf] at hplaced
    refine key hplaced ?_
    simp only [Secondary.allocateFresh, Prod.mk.injEq] at hf
    obtain ⟨⟨-, rfl⟩, -, -⟩ := hf
    omega

theorem allocateBlock_serves {cfg : Config} {opts : Options} {env : AllocEnv} {s s' : Secondary}
    {m m' : Mem} {size k classId block blockEnd : Nat} {fill : FillContentsMode}
    (hsize : size < 2^40) (hk4 : 4 ≤ k) (hk : k ≤ 24)
    (hblocks : PrimaryBlocksOk cfg env.primaryBlock) (hok : SecondaryOk cfg env.secondary s)
    (h : allocateBlock cfg opts env s m size (2^k) fill =
      (some (classId, block, blockEnd), s', m')) :
    BlockServes cfg size (2^k) classId block blockEnd := by
  simp only [allocateBlock] at h
  split at h
  · next c b hp =>
    simp only [Prod.mk.injEq, Option.some.injEq] at h
    obtain ⟨⟨rfl, rfl, rfl⟩, -, -⟩ := h
    exact (allocatePrimary_serves cfg hsize hk4 hk hblocks hp).2.2
  · split at h
    · next b e s1 m1 hsec =>
      simp only [Prod.mk.injEq, Option.some.injEq] at h
      obtain ⟨⟨rfl, rfl, rfl⟩, -, -⟩ := h
      exact (allocateSecondary_serves hsize hk4 hk hok hsec).1
    · simp at h

/-- The tag of the pointer that keys the header of a new chunk: none for a tagged primary
chunk, the header tag for every other one. -/
def headerTag (opts : Options) (classId : Nat) : Nat :=
  if opts.useMemoryTagging ∧ classId ≠ 0 then 0 else 2

/-- The tag of the pointer that the program gets. -/
def pointerTag (opts : Options) (env : CallEnv) (classId : Nat) : Nat :=
  if opts.useMemoryTagging ∧ classId ≠ 0 then env.draw % 16 else 0

section InitAllocation

variable {cfg : Config} {opts : Options} {env : CallEnv} {m : Mem} {size alignment : Nat}
  {origin : Origin} {fill : FillContentsMode} {classId block blockEnd : Nat}

theorem initAllocation_ptr (hs : BlockServes cfg size alignment classId block blockEnd) :
    (initAllocation cfg opts env m size alignment origin fill classId block blockEnd).1.ptr =
      taggedPtr (roundUp (block + getHeaderSize) alignment) (pointerTag opts env classId) := by
  have hu : roundUp (block + getHeaderSize) alignment < 2^56 := by
    have := hs.fits
    have := hs.end_lt
    omega
  cases ht : opts.useMemoryTagging with
  | false => simp [initAllocation, initChunk, pointerTag, ht]
  | true =>
    by_cases hc : classId = 0
    · simp [initAllocation, initChunkWithMemoryTagging, pointerTag, ht, hc]
    · rw [getHeaderSize_eq] at hu
      simp [initAllocation, initChunkWithMemoryTagging, pointerTag, ht, hc, initTaggedPrimary_eq,
        prepareTaggedChunk_ptr hu]

/-- The value of the size field of a new chunk. -/
def initialSizeOrUnused (size alignment classId block blockEnd : Nat) : Nat :=
  if classId ≠ 0 then size
  else wrapSub blockEnd (roundUp (block + getHeaderSize) alignment + size)

/-- The last thing that every path stores is the header, with the block marker. -/
theorem initAllocation_mem (hs : BlockServes cfg size alignment classId block blockEnd) :
    ∃ m1 tb, (initAllocation cfg opts env m size alignment origin fill classId block blockEnd).2 =
      storeChunkHeader cfg m1 block (roundUp (block + getHeaderSize) alignment)
        (taggedPtr block tb)
        (taggedPtr (roundUp (block + getHeaderSize) alignment) (headerTag opts classId)) classId
        origin (initialSizeOrUnused size alignment classId block blockEnd) := by
  have hfits := hs.fits
  have hend := hs.end_lt
  have hhead := hs.header
  have hu : addHeaderTag (roundUp (block + getHeaderSize) alignment) =
      taggedPtr (roundUp (block + getHeaderSize) alignment) 2 := addHeaderTag_of_lt (by omega)
  have hb : addHeaderTag block = taggedPtr block 2 := addHeaderTag_of_lt (by omega)
  cases ht : opts.useMemoryTagging with
  | false =>
    simp only [initAllocation, initChunk, headerTag, initialSizeOrUnused, ht, hu, hb,
      Bool.not_false, if_true, Bool.false_eq_true, false_and, if_false]
    exact ⟨_, 2, rfl⟩
  | true =>
    by_cases hc : classId = 0
    · simp only [initAllocation, initChunkWithMemoryTagging, headerTag, initialSizeOrUnused, ht, hu,
        hb, hc, Bool.not_true, Bool.false_eq_true, if_false, ne_eq, not_true_eq_false, and_false]
      exact ⟨_, 2, rfl⟩
    · simp only [initAllocation, initChunkWithMemoryTagging, headerTag, initialSizeOrUnused, ht, hc,
        Bool.not_true, Bool.false_eq_true, if_false, ne_eq, not_false_eq_true, and_self, if_true,
        taggedPtr_zero]
      exact ⟨_, 0, by rw [taggedPtr_zero]⟩

/-- The user pointer is within the reach of the offset field. -/
theorem BlockServes.offset_lt (hs : BlockServes cfg size alignment classId block blockEnd) :
    roundUp (block + getHeaderSize) alignment - (block+16) < 2^20 := by
  have hfits := hs.fits
  by_cases hc : classId = 0
  · have := hs.secondary hc
    omega
  · have hend := hs.primary hc
    have hmax := cfg.sizeClassMap.size_le_max (show 1 ≤ classId by omega) hs.class_le
    omega

theorem BlockServes.user_mod (hs : BlockServes cfg size alignment classId block blockEnd)
    (hal : 16 ∣ alignment) : roundUp (block + getHeaderSize) alignment % 16 = 0 :=
  Nat.mod_eq_zero_of_dvd (hal.trans hs.user_aligned)

/-- The new chunk is in memory, its header keyed by the pointer under the header tag. -/
theorem initAllocation_stored (hs : BlockServes cfg size alignment classId block blockEnd)
    (hal : 16 ∣ alignment) :
    ChunkStored cfg
      (initAllocation cfg opts env m size alignment origin fill classId block blockEnd).2 block
      (roundUp (block + getHeaderSize) alignment)
      (taggedPtr (roundUp (block + getHeaderSize) alignment) (headerTag opts classId))
      (chunkHeader block (roundUp (block + getHeaderSize) alignment) classId origin
        (initialSizeOrUnused size alignment classId block blockEnd)) := by
  have hfits := hs.fits
  have hend := hs.end_lt
  have hoff := hs.offset_lt
  obtain ⟨m1, tb, hm⟩ := @initAllocation_mem cfg opts env m size alignment origin fill classId block
    blockEnd hs
  rw [hm]
  exact storeChunkHeader_stored cfg m1 tb _ classId origin _ hs.header (by omega)
    hs.block_aligned (hs.user_mod hal) (by omega)

end InitAllocation

/-- The offset field leads from the user pointer back to the block. -/
theorem chunkHeader_offset {block user : Nat} (classId : Nat) (origin : Origin) (sizeOrUnused : Nat)
    (hb : block + 16 ≤ user) (hba : block % 16 = 0) (hua : user % 16 = 0)
    (hlim : user - (block+16) < 2^20) :
    block + 16 + 16 * (chunkHeader block user classId origin sizeOrUnused).offset.val = user := by
  have hshift : (user - (block+16)) >>> minAlignmentLog = (user - (block+16)) / 16 :=
    Nat.shiftRight_eq_div_pow _ 4
  simp only [chunkHeader]
  split
  · rw [hshift, bitField_val, Nat.mod_eq_of_lt (by omega)]
    omega
  · simp only [Fin.val_zero]
    omega

theorem getBlockBegin_eq {block user : Nat} {h : UnpackedHeader}
    (ho : block + 16 + 16 * h.offset.val = user) : getBlockBegin user h = block := by
  have hshift : h.offset.val <<< minAlignmentLog = h.offset.val * 16 := Nat.shiftLeft_eq _ 4
  rw [getBlockBegin, hshift, getHeaderSize_eq]
  omega

/-- The geometry of a chunk: an aligned user pointer, the header granule and the user bytes in
the block, and ways from the chunk to the block and back. -/
structure ChunkGeometry (cfg : Config) (opts : Options) (alignment size : Nat) (a : Allocation)
    (m : Mem) : Prop where
  aligned : alignment ∣ a.user
  header_in : a.block + 16 ≤ a.user
  user_in : a.user + size ≤ a.blockEnd
  block_end : a.classId ≠ 0 →
    a.blockEnd = a.block + cfg.sizeClassMap.getSizeByClassId a.classId
  chunk : ∃ h, getChunkFromBlock cfg m (taggedPtr a.block (headerTag opts a.classId)) =
      some (taggedPtr a.user (headerTag opts a.classId), h) ∧
    a.block + 16 + 16 * h.offset.val = a.user ∧ getBlockBegin a.user h = a.block

theorem max_minAlignment (k : Nat) : max (2^k) minAlignment = 2^(max k 4) := by
  have hmin : minAlignment = 2^4 := by decide
  rw [hmin]
  rcases Nat.le_total k 4 with h | h
  · rw [max_eq_right h, max_eq_right (Nat.pow_le_pow_right (by decide) h)]
  · rw [max_eq_left h, max_eq_left (Nat.pow_le_pow_right (by decide) h)]

/-- What a successful allocation did: it found a block that serves the request and put a chunk
into it. -/
theorem allocate_some {cfg : Config} {opts : Options} {env : AllocEnv} {s s' : Secondary}
    {m m' : Mem} {size k : Nat} {origin : Origin} {zeroContents : Bool} {a : Allocation}
    (h : allocate cfg opts env s m size origin (2^k) zeroContents = .ok (some a, s', m')) :
    k ≤ 24 ∧ size < 2^40 ∧ ∃ m1,
      allocateBlock cfg opts env s m size (2^(max k 4))
        (fillContentsMode opts zeroContents env.call.disableMemInit) =
        (some (a.classId, a.block, a.blockEnd), s', m1) ∧
      initAllocation cfg opts env.call m1 size (2^(max k 4)) origin
        (fillContentsMode opts zeroContents env.call.disableMemInit) a.classId a.block a.blockEnd =
        (a, m') := by
  have hmaxal : maxAlignment = 2^24 := by decide
  have hmaxsz : maxAllowedMallocSize = 2^40 := by decide
  simp only [allocate, hmaxal, hmaxsz, max_minAlignment] at h
  split at h
  · split at h <;> simp at h
  · next hk =>
    split at h
    · split at h <;> simp at h
    · next hsz =>
      split at h
      · split at h <;> simp at h
      · next classId block blockEnd s1 m1 hblock =>
        simp only [Except.ok.injEq, Prod.mk.injEq, Option.some.injEq] at h
        obtain ⟨rfl, rfl, rfl⟩ := h
        refine ⟨?_, by omega, m1, hblock, rfl⟩
        exact (Nat.pow_le_pow_iff_right (show 1 < 2 by decide)).mp (by omega)

/-- Every allocation that succeeds has the geometry that the rest of the allocator relies on:
from the class of the needed size or any larger one, in any aligned block, or from the
secondary; with tagging on or off. -/
theorem allocate_geometry (cfg : Config) (opts : Options) (env : AllocEnv) (s s' : Secondary)
    (m m' : Mem) (size k : Nat) (origin : Origin) (zeroContents : Bool) (a : Allocation)
    (hblocks : PrimaryBlocksOk cfg env.primaryBlock) (hok : SecondaryOk cfg env.secondary s)
    (h : allocate cfg opts env s m size origin (2^k) zeroContents = .ok (some a, s', m')) :
    ChunkGeometry cfg opts (2^k) size a m' := by
  obtain ⟨hk, hsize, m1, hblock, hinit⟩ := allocate_some h
  have hserves := allocateBlock_serves hsize (by omega) (by omega) hblocks hok hblock
  have hal : 16 ∣ 2^(max k 4) := Nat.pow_dvd_pow 2 (Nat.le_max_right k 4)
  have hptr := @initAllocation_ptr cfg opts env.call m1 size _ origin
    (fillContentsMode opts zeroContents env.call.disableMemInit) _ _ _ hserves
  have hstored := @initAllocation_stored cfg opts env.call m1 size _ origin
    (fillContentsMode opts zeroContents env.call.disableMemInit) _ _ _ hserves hal
  rw [hinit] at hptr hstored
  have hfits := hserves.fits
  have hend := hserves.end_lt
  have huser : a.user = roundUp (a.block + getHeaderSize) (2^(max k 4)) := by
    rw [Allocation.user, hptr, untagPointer_taggedPtr _ (by omega)]
  have hoff := hserves.offset_lt
  have hhead := hserves.header
  have hmod := hserves.user_mod hal
  have hdvd := hserves.user_aligned
  rw [← huser] at hstored hfits hoff hhead hmod hdvd
  have hback := chunkHeader_offset a.classId origin
    (initialSizeOrUnused size (2^(max k 4)) a.classId a.block a.blockEnd) hhead
    hserves.block_aligned hmod hoff
  refine ⟨(Nat.pow_dvd_pow 2 (Nat.le_max_left k 4)).trans hdvd, hhead, hfits, hserves.primary, _,
    hstored.getChunkFromBlock_self hhead (by omega), hback, getBlockBegin_eq hback⟩

/-- 100 bytes aligned to 64 in a block of 192 bytes: the user pointer is 48 bytes past the
header of the block. -/
theorem allocate_geometry_aligned :
    let env : AllocEnv := ⟨fun c => if c = 6 then some 0x10000 else none, ⟨none, 1, true⟩,
      ⟨5, false, false, 0, 0⟩⟩
    let s := Secondary.init defaultConfig 32 (2^19) 5000
    ∃ a m', allocate defaultConfig defaultOptions env s Mem.fresh 100 .malloc (2^6) false =
        .ok (some a, s, m') ∧
      a.block = 0x10000 ∧ a.ptr = taggedPtr 0x10040 5 ∧
      ChunkGeometry defaultConfig defaultOptions (2^6) 100 a m' := by
  intro env s
  refine ⟨_, _, rfl, by decide, by decide, ?_⟩
  refine allocate_geometry defaultConfig defaultOptions env s s Mem.fresh _ 100 6 .malloc false _
    ?_ ⟨by simp [s, Secondary.init, Secondary.Cache.init], by simp [env]⟩ rfl
  intro c block h
  simp only [env] at h
  split at h
  · next hc =>
    simp only [Option.some.injEq] at h
    subst hc h
    decide
  · simp at h

end ScudoMte.Combined
