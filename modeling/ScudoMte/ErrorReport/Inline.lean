import ScudoMte.Chunk
import ScudoMte.ErrorReport.NearestBlock
import ScudoMte.ErrorReport.RingBuffer

namespace ScudoMte.ErrorReport

open ByteMemory Chunk

/-- The copy of the crashed process' memory, with one tag a granule; both are indexed from
`memoryAddr` on. -/
structure Dump where
  memoryAddr : Nat
  memorySize : Nat
  memory : Bytes
  memoryTags : Nat → UInt8

namespace Dump

/-- The `n` bytes at an address, as a number. -/
def read (d : Dump) (addr n : Nat) : Nat := load d.memory (addr - d.memoryAddr) n

def tagAt (d : Dump) (addr : Nat) : Nat := (d.memoryTags ((addr - d.memoryAddr) / 16)).toNat

/-- The test of `GetGranule`. -/
def HasGranule (d : Dump) (addr : Nat) : Prop :=
  ¬ (addr < d.memoryAddr ∨ (addr + 16) % 2^64 < addr ∨
    (d.memoryAddr + d.memorySize) % 2^64 < (addr + 16) % 2^64)

instance (d : Dump) (addr : Nat) : Decidable (d.HasGranule addr) :=
  inferInstanceAs (Decidable (¬ _))

end Dump

def blockMarker : Nat := 0x44554353

def getChunkOffsetFromBlock (d : Dump) (block : Nat) : Nat :=
  (if d.read block 4 = blockMarker then d.read (block+4) 4 else 0) + getHeaderSize

/-- `ReadBlock`: the address of the chunk, its header and its tag. -/
def readBlock (d : Dump) (addr : Nat) : Option (Nat × UnpackedHeader × Nat) :=
  if d.HasGranule addr then
    let chunkAddr := (addr + getChunkOffsetFromBlock d addr) % 2^64
    if d.HasGranule chunkAddr then
      let header := unpack (d.read (chunkAddr - getHeaderSize) 8)
      let tag := if header.sizeOrUnusedBytes = 0 then d.read chunkAddr 1 else d.tagAt chunkAddr
      some (chunkAddr, header, tag)
    else none
  else none

section

variable (d : Dump) (faultAddr : Nat) (depot : Option (Nat → List Nat))

/-- The report on a chunk; the words before it hold the stack hash and the thread. -/
def chunkReport (chunkAddr size : Nat) : Report :=
  { errorType := if untagPointer faultAddr < chunkAddr then .bufferUnderflow else .bufferOverflow
    allocationAddress := chunkAddr
    allocationSize := size
    allocationTid := d.read (chunkAddr - 4) 4
    allocationTrace :=
      (depot.map fun collectTrace => collectTrace (d.read (chunkAddr - 8) 4)).getD []
    deallocationTid := 0
    deallocationTrace := [] }

/-- What `CheckOOB` has to report on a block. -/
def reportAt (info : BlockInfo) (blockAddr : Nat) : Option Report :=
  if blockAddr < info.regionBegin ∨ info.regionEnd ≤ blockAddr then none
  else
    match readBlock d blockAddr with
    | none => none
    | some (chunkAddr, header, tag) =>
        if header.state ≠ State.allocated.field ∨ tag ≠ extractTag faultAddr then none
        else some (chunkReport d faultAddr depot chunkAddr header.sizeOrUnusedBytes)

/-- `CheckOOB` on one block after the other: a report that is the last to fit ends the loop. -/
def checkOOB (info : BlockInfo) : List Nat → List Report → List Report
  | [], reports => reports
  | blockAddr::blocks, reports =>
      match reportAt d faultAddr depot info blockAddr with
      | none => checkOOB info blocks reports
      | some r =>
          if reports.length + 1 = numErrorReports then reports ++ [r]
          else checkOOB info blocks (reports ++ [r])

/-- The blocks that `getInlineErrorInfo` looks at, from a distance up to before another. -/
def blocksAround (info : BlockInfo) (minDistance maxDistance : Nat) : List Nat :=
  (if minDistance = 0 then [info.blockBegin] else []) ++
    (List.range' (max minDistance 1) (maxDistance - max minDistance 1)).flatMap fun i =>
      [(info.blockBegin + i * info.blockSize) % 2^64,
        wrapSub info.blockBegin (i * info.blockSize)]

def getInlineErrorInfo (info : BlockInfo) (minDistance maxDistance : Nat)
    (reports : List Report) : List Report :=
  if reports.length = numErrorReports then reports
  else checkOOB d faultAddr depot info (blocksAround info minDistance maxDistance) reports

/-- `getErrorInfo` with a valid depot or none; `none` is a search that does not end. -/
def getErrorInfo (scm : SizeClassMap) (infos : Nat → RegionInfo) (pageSize fuel : Nat)
    (ring : Option AllocationRingBuffer) (ringBufferSize : Nat) : Option (List Report) := do
  if d.memoryAddr + d.memorySize ≥ 2^64 then some []
  else
    let info ← findNearestBlock scm infos fuel (untagPointer faultAddr)
    let inner := if extractTag faultAddr ≠ 0 then
      getInlineErrorInfo d faultAddr depot info 0 2 [] else []
    let middle := match depot with
      | none => inner
      | some collectTrace =>
          getRingBufferErrorInfo pageSize faultAddr collectTrace ring ringBufferSize inner
    some (if extractTag faultAddr ≠ 0 then
      getInlineErrorInfo d faultAddr depot info 2 16 middle else middle)

end

/-- A chunk of a block: where it is, its header, and its tag, which is that of the first granule
or, for a chunk of no bytes, the byte stashed there. -/
structure StoredChunk where
  offset : Nat
  header : UnpackedHeader
  tag : Nat

namespace StoredChunk

def chunkAddr (c : StoredChunk) (block : Nat) : Nat := block + (getHeaderSize + c.offset)

/-- No byte of the block is left for the chunk, nor for a stashed tag. -/
def AtBlockEnd (c : StoredChunk) (size : Nat) : Prop :=
  (c.header.sizeOrUnusedBytes : Nat) = 0 ∧ getHeaderSize + c.offset = size

instance (c : StoredChunk) (size : Nat) : Decidable (c.AtBlockEnd size) :=
  inferInstanceAs (Decidable (_ ∧ _))

def memoryTag (c : StoredChunk) (size : Nat) : Option Nat :=
  if c.AtBlockEnd size then none else some c.tag

end StoredChunk

/-- What the allocator leaves in memory for the chunk of a block. -/
structure StoredAt (d : Dump) (block size : Nat) (c : StoredChunk) : Prop where
  aligned : c.offset % 16 = 0
  fits : getHeaderSize + c.offset + c.header.sizeOrUnusedBytes ≤ size
  state : ∃ s : State, c.header.state = s.field
  marker : c.offset ≠ 0 → d.read block 4 = blockMarker ∧ d.read (block+4) 4 = c.offset
  header : d.read (block + c.offset) 8 = pack c.header
  tag : (c.header.sizeOrUnusedBytes : Nat) ≠ 0 → d.tagAt (c.chunkAddr block) = c.tag
  stash : (c.header.sizeOrUnusedBytes : Nat) = 0 → ¬ c.AtBlockEnd size →
    d.read (c.chunkAddr block) 1 = c.tag

namespace BlockInfo

def numBlocks (info : BlockInfo) : Nat := (info.regionEnd - info.regionBegin) / info.blockSize

def blockAt (info : BlockInfo) (q : Nat) : Nat := info.regionBegin + q * info.blockSize

/-- The number of the answer's own block. -/
def index (info : BlockInfo) : Nat := (info.blockBegin - info.regionBegin) / info.blockSize

end BlockInfo

/-- A dump that covers the region of an answer, each of its blocks with a stored chunk. -/
structure Snapshot (d : Dump) (info : BlockInfo) (chunks : Nat → StoredChunk) : Prop where
  noWrap : d.memoryAddr + d.memorySize < 2^64
  covers : ∀ a, info.regionBegin ≤ a → a < info.regionEnd →
    d.memoryAddr ≤ a ∧ a < d.memoryAddr + d.memorySize
  regionEnd_le : info.regionEnd ≤ 2^56
  regionEnd_eq : info.regionEnd = info.blockAt info.numBlocks
  stored : ∀ q < info.numBlocks, StoredAt d (info.blockAt q) info.blockSize (chunks q)

/-- The blocks at most 15 away from one of `n` blocks, by distance and the higher one first. -/
def nearby (n q0 : Nat) : List Nat :=
  (if q0 < n then [q0] else []) ++ (List.range' 1 15).flatMap fun i =>
    (if q0 + i < n then [q0+i] else []) ++ if i ≤ q0 then [q0-i] else []

section

variable (d : Dump) (faultAddr : Nat) (depot : Option (Nat → List Nat)) (info : BlockInfo)
  (chunks : Nat → StoredChunk)

def chunkAt (q : Nat) : Nat := (chunks q).chunkAddr (info.blockAt q)

/-- The chunks to report: allocated, with the tag of the fault. -/
def Guilty (q : Nat) : Prop :=
  (chunks q).header.state = State.allocated.field ∧
    (chunks q).memoryTag info.blockSize = some (extractTag faultAddr)

/-- A chunk at the end of its block whose tag is taken from the byte that follows it. -/
def Misread (q : Nat) : Prop :=
  (chunks q).header.state = State.allocated.field ∧ (chunks q).AtBlockEnd info.blockSize ∧
    d.HasGranule (chunkAt info chunks q) ∧ d.read (chunkAt info chunks q) 1 = extractTag faultAddr

instance (q : Nat) : Decidable (Guilty faultAddr info chunks q) :=
  inferInstanceAs (Decidable (_ ∧ _))

instance (q : Nat) : Decidable (Misread d faultAddr info chunks q) :=
  inferInstanceAs (Decidable (_ ∧ _))

def storedReport (q : Nat) : Report :=
  chunkReport d faultAddr depot (chunkAt info chunks q) (chunks q).header.sizeOrUnusedBytes

/-- The reports are those of the first three chunks to report, each of them once. -/
structure Attributed (reports : List Report) : Prop where
  exact : reports = (((nearby info.numBlocks info.index).filter
    (Guilty faultAddr info chunks)).take numErrorReports).map
      (storedReport d faultAddr depot info chunks)
  once : (reports.map Report.allocationAddress).Nodup

end

section

variable {d : Dump} {block size : Nat} {c : StoredChunk}

theorem hasGranule_iff (hwrap : d.memoryAddr + d.memorySize < 2^64) {addr : Nat}
    (haddr : addr < 2^57) :
    d.HasGranule addr ↔ d.memoryAddr ≤ addr ∧ addr + 16 ≤ d.memoryAddr + d.memorySize := by
  rw [Dump.HasGranule, Nat.mod_eq_of_lt hwrap, Nat.mod_eq_of_lt (show addr + 16 < 2^64 by omega)]
  omega

/-- The word of a header never begins with the marker: its state would be none of the three. -/
theorem pack_ne_blockMarker {h : UnpackedHeader} (hstate : ∃ s : State, h.state = s.field) :
    pack h % 2^32 ≠ blockMarker := by
  have hlt : (h.state : Nat) < 3 := by
    obtain ⟨s, hs⟩ := hstate
    rw [hs]
    cases s <;> decide
  have hclass := h.classId.isLt
  have horigin := h.originOrWasZeroed.isLt
  have hsize := h.sizeOrUnusedBytes.isLt
  have hoffset := h.offset.isLt
  rw [pack, blockMarker]
  omega

theorem StoredAt.getChunkOffsetFromBlock (h : StoredAt d block size c) :
    getChunkOffsetFromBlock d block = getHeaderSize + c.offset := by
  rw [ErrorReport.getChunkOffsetFromBlock]
  by_cases hoff : c.offset = 0
  · have hheader := h.header
    rw [hoff, Nat.add_zero, Dump.read] at hheader
    have hne : d.read block 4 ≠ blockMarker := by
      rw [Dump.read, load_prefix _ _ 4 8 (by decide), hheader]
      exact pack_ne_blockMarker h.state
    rw [if_neg hne, hoff, Nat.zero_add, Nat.add_zero]
  · obtain ⟨hmarker, hoffset⟩ := h.marker hoff
    rw [if_pos hmarker, hoffset, Nat.add_comm]

/-- A chunk that is not at the end of its block has a granule of its own there. -/
theorem StoredAt.granule_le (h : StoredAt d block size c) (hsize : size % 16 = 0)
    (hend : ¬ c.AtBlockEnd size) : c.chunkAddr block + 16 ≤ block + size := by
  have hfits := h.fits
  have haligned := h.aligned
  rw [StoredChunk.AtBlockEnd] at hend
  rw [StoredChunk.chunkAddr]
  rw [getHeaderSize_eq] at *
  omega

theorem StoredAt.readBlock (h : StoredAt d block size c) (hblock : d.HasGranule block)
    (hlt : block + size ≤ 2^56) :
    readBlock d block =
      if d.HasGranule (c.chunkAddr block) then
        some (c.chunkAddr block, c.header, if c.header.sizeOrUnusedBytes = 0 then
          d.read (c.chunkAddr block) 1 else d.tagAt (c.chunkAddr block))
      else none := by
  have hfits := h.fits
  have hchunk : (block + (getHeaderSize + c.offset)) % 2^64 = c.chunkAddr block :=
    Nat.mod_eq_of_lt (by omega)
  have hheader : unpack (d.read (c.chunkAddr block - getHeaderSize) 8) = c.header := by
    rw [StoredChunk.chunkAddr, show block + (getHeaderSize + c.offset) - getHeaderSize =
      block + c.offset by omega, h.header, unpack_pack]
  rw [ErrorReport.readBlock, if_pos hblock, h.getChunkOffsetFromBlock, hchunk]
  simp only [hheader]

end

section

variable {d : Dump} {faultAddr : Nat} {depot : Option (Nat → List Nat)} {info : BlockInfo}
  {chunks : Nat → StoredChunk}

/-- A tag that does not match is passed over. -/
theorem reportAt_of_readBlock {b chunkAddr tag : Nat} {header : UnpackedHeader}
    (hb : ¬ (b < info.regionBegin ∨ info.regionEnd ≤ b))
    (hread : readBlock d b = some (chunkAddr, header, tag)) :
    reportAt d faultAddr depot info b =
      if header.state = State.allocated.field ∧ tag = extractTag faultAddr then
        some (chunkReport d faultAddr depot chunkAddr header.sizeOrUnusedBytes) else none := by
  rw [reportAt, if_neg hb, hread]
  simp only
  by_cases h : header.state = State.allocated.field ∧ tag = extractTag faultAddr
  · rw [if_pos h, if_neg (by rw [not_or, not_not, not_not]; exact h)]
  · rw [if_neg h, if_pos (by rwa [not_and_or] at h)]

/-- The block of an answer that is not empty, in its region. -/
structure Placed (info : BlockInfo) : Prop where
  size_pos : 0 < info.blockSize
  size_le : info.blockSize ≤ 2^20
  size_aligned : info.blockSize % 16 = 0
  index_lt : info.index < info.numBlocks
  blockBegin : info.blockBegin = info.blockAt info.index

theorem BlockInfo.blockAt_succ (info : BlockInfo) (q : Nat) :
    info.blockAt (q+1) = info.blockAt q + info.blockSize := by
  rw [blockAt, blockAt, Nat.succ_mul, Nat.add_assoc]

theorem BlockInfo.blockAt_mono (info : BlockInfo) {q r : Nat} (h : q ≤ r) :
    info.blockAt q ≤ info.blockAt r :=
  Nat.add_le_add_left (Nat.mul_le_mul_right _ h) _

theorem Snapshot.block_le (h : Snapshot d info chunks) {q : Nat} (hq : q < info.numBlocks) :
    info.blockAt q + info.blockSize ≤ info.regionEnd := by
  rw [← info.blockAt_succ, h.regionEnd_eq]
  exact info.blockAt_mono hq

theorem Snapshot.hasGranule_block (h : Snapshot d info chunks) {q : Nat}
    (hq : q < info.numBlocks) : d.HasGranule (info.blockAt q) := by
  have hfits := (h.stored q hq).fits
  rw [getHeaderSize_eq] at hfits
  have hle := h.block_le hq
  have hend := h.regionEnd_le
  have hbegin : info.regionBegin ≤ info.blockAt q := Nat.le_add_right _ _
  have hfirst := h.covers (info.blockAt q) hbegin (by omega)
  have hlast := h.covers (info.blockAt q + info.blockSize - 1) (by omega) (by omega)
  exact (hasGranule_iff h.noWrap (by omega)).mpr ⟨hfirst.1, by omega⟩

theorem Snapshot.hasGranule_chunk (h : Snapshot d info chunks) (hp : Placed info) {q : Nat}
    (hq : q < info.numBlocks) (hat : ¬ (chunks q).AtBlockEnd info.blockSize) :
    d.HasGranule (chunkAt info chunks q) := by
  have hle := (h.stored q hq).granule_le hp.size_aligned hat
  have hge : info.blockAt q ≤ chunkAt info chunks q := Nat.le_add_right _ _
  have hblock := h.block_le hq
  have hend := h.regionEnd_le
  have hsize := hp.size_pos
  have hbegin : info.regionBegin ≤ info.blockAt q := Nat.le_add_right _ _
  have hfirst := h.covers (info.blockAt q) hbegin (by omega)
  have hlast := h.covers (info.blockAt q + info.blockSize - 1) (by omega) (by omega)
  rw [chunkAt] at hge ⊢
  exact (hasGranule_iff h.noWrap (by omega)).mpr ⟨by omega, by omega⟩

/-- The report on a block of the region: none, unless its chunk is to report or misread. -/
theorem Snapshot.reportAt (h : Snapshot d info chunks) (hp : Placed info) {q : Nat}
    (hq : q < info.numBlocks) :
    reportAt d faultAddr depot info (info.blockAt q) =
      if Guilty faultAddr info chunks q ∨ Misread d faultAddr info chunks q then
        some (storedReport d faultAddr depot info chunks q) else none := by
  have hstored := h.stored q hq
  have hle := h.block_le hq
  have hend := h.regionEnd_le
  have hsize := hp.size_pos
  have hbegin : info.regionBegin ≤ info.blockAt q := Nat.le_add_right _ _
  have hbounds : ¬ (info.blockAt q < info.regionBegin ∨ info.regionEnd ≤ info.blockAt q) := by
    omega
  have hread := hstored.readBlock (h.hasGranule_block hq) (by omega)
  rw [show (chunks q).chunkAddr (info.blockAt q) = chunkAt info chunks q from rfl] at hread
  by_cases hat : (chunks q).AtBlockEnd info.blockSize
  · have hguilty : ¬ Guilty faultAddr info chunks q := by
      intro hg
      have htag := hg.2
      rw [StoredChunk.memoryTag, if_pos hat] at htag
      cases htag
    have hzero : (chunks q).header.sizeOrUnusedBytes = 0 := Fin.ext hat.1
    by_cases hgranule : d.HasGranule (chunkAt info chunks q)
    · rw [if_pos hgranule, if_pos hzero] at hread
      rw [reportAt_of_readBlock hbounds hread]
      refine if_congr ?_ rfl rfl
      constructor
      · intro hm
        exact .inr ⟨hm.1, hat, hgranule, hm.2⟩
      · rintro (hg | hm)
        · exact absurd hg hguilty
        · exact ⟨hm.1, hm.2.2.2⟩
    · rw [if_neg hgranule] at hread
      rw [ErrorReport.reportAt, if_neg hbounds, hread, if_neg]
      rintro (hg | hm)
      · exact hguilty hg
      · exact hgranule hm.2.2.1
  · have htag : (if (chunks q).header.sizeOrUnusedBytes = 0 then
        d.read (chunkAt info chunks q) 1 else d.tagAt (chunkAt info chunks q)) = (chunks q).tag := by
      split
      · next hzero => exact hstored.stash (congrArg Fin.val hzero) hat
      · next hne => exact hstored.tag fun hzero => hne (Fin.ext hzero)
    rw [if_pos (h.hasGranule_chunk hp hq hat), htag] at hread
    rw [reportAt_of_readBlock hbounds hread]
    refine if_congr ?_ rfl rfl
    rw [Guilty, StoredChunk.memoryTag, if_neg hat, Option.some_inj]
    constructor
    · exact .inl
    · rintro (hg | hm)
      · exact hg
      · exact absurd hm.2.1 hat

end

section

variable {d : Dump} {faultAddr : Nat} {depot : Option (Nat → List Nat)} {info : BlockInfo}
  {chunks : Nat → StoredChunk}

theorem checkOOB_eq (blocks : List Nat) {reports : List Report}
    (hroom : reports.length < numErrorReports) :
    checkOOB d faultAddr depot info blocks reports = reports ++
      (blocks.filterMap (reportAt d faultAddr depot info)).take
        (numErrorReports - reports.length) := by
  induction blocks generalizing reports with
  | nil => rw [checkOOB, List.filterMap_nil, List.take_nil, List.append_nil]
  | cons b blocks ih =>
    rw [checkOOB, List.filterMap_cons]
    cases hr : reportAt d faultAddr depot info b with
    | none => exact ih hroom
    | some r =>
      simp only
      by_cases hlast : reports.length + 1 = numErrorReports
      · rw [if_pos hlast, ← hlast, Nat.add_sub_cancel_left, List.take_succ_cons, List.take_zero]
      · have hlen : (reports ++ [r]).length = reports.length + 1 := by
          rw [List.length_append, List.length_singleton]
        rw [if_neg hlast, ih (by omega), hlen, List.append_assoc, List.singleton_append,
          ← List.take_succ_cons]
        congr 2
        omega

/-- One pass after the other takes the first reports of both. -/
theorem getInlineErrorInfo_eq (minDistance maxDistance : Nat) {reports : List Report}
    (hroom : reports.length ≤ numErrorReports) :
    getInlineErrorInfo d faultAddr depot info minDistance maxDistance reports = reports ++
      ((blocksAround info minDistance maxDistance).filterMap
        (reportAt d faultAddr depot info)).take (numErrorReports - reports.length) := by
  rw [getInlineErrorInfo]
  by_cases hfull : reports.length = numErrorReports
  · rw [if_pos hfull, hfull, Nat.sub_self, List.take_zero, List.append_nil]
  · rw [if_neg hfull, checkOOB_eq _ (by omega)]

theorem getInlineErrorInfo_passes :
    getInlineErrorInfo d faultAddr depot info 2 16
        (getInlineErrorInfo d faultAddr depot info 0 2 []) =
      ((blocksAround info 0 2 ++ blocksAround info 2 16).filterMap
        (reportAt d faultAddr depot info)).take numErrorReports := by
  rw [getInlineErrorInfo_eq 0 2 (Nat.zero_le _), List.nil_append, List.length_nil, Nat.sub_zero,
    getInlineErrorInfo_eq 2 16 (List.length_take_le _ _), List.filterMap_append, List.take_append,
    List.length_take]
  congr 2
  omega

end

section

variable {scm : SizeClassMap} {infos : Nat → RegionInfo} {fuel ptr : Nat} {info : BlockInfo}

theorem placed_of_findNearestBlock (hptr : ptr < 2^56) (hfuel : 8200 ≤ fuel)
    (hinfo : findNearestBlock scm infos fuel ptr = some info) :
    info = ⟨0, 0, 0, 0⟩ ∨ Placed info := by
  rcases findNearestBlock_answer scm infos hptr hfuel with hnone | ⟨c, ⟨h1, hc⟩, he, q, hq, hsome⟩
  · rw [hnone] at hinfo
    exact .inl (Option.some_inj.mp hinfo).symm
  · rw [hsome] at hinfo
    have hsize := scm.size_pos c h1 hc
    have hfit := (Nat.le_div_iff_mul_le hsize).mpr ((Nat.one_mul _).trans_le he.2)
    rw [RegionInfo.lastBlock] at hq
    obtain rfl := Option.some_inj.mp hinfo
    have hindex : BlockInfo.index
        { blockBegin := (infos c).regionBeg + q * scm.getSizeByClassId c
          blockSize := scm.getSizeByClassId c
          regionBegin := (infos c).regionBeg, regionEnd := (infos c).regionEnd } = q := by
      rw [BlockInfo.index]
      simp only [Nat.add_sub_cancel_left]
      exact Nat.mul_div_cancel q hsize
    refine .inr ⟨hsize, scm.size_le_max h1 hc, scm.size_aligned c h1 hc, ?_, ?_⟩
    · rw [hindex]
      show q < ((infos c).regionEnd - (infos c).regionBeg) / scm.getSizeByClassId c
      omega
    · rw [hindex, BlockInfo.blockAt]

end

/-- The addresses that lie `i` blocks from the answer's block, those outside the region left out. -/
theorem Snapshot.filterMap_pair {d : Dump} {info : BlockInfo} {chunks : Nat → StoredChunk}
    (h : Snapshot d info chunks) (hp : Placed info) {f : Nat → Option Report}
    (hout : ∀ b, b < info.regionBegin ∨ info.regionEnd ≤ b → f b = none) {i : Nat}
    (hi : i ≤ 15) :
    [(info.blockBegin + i * info.blockSize) % 2^64,
        wrapSub info.blockBegin (i * info.blockSize)].filterMap f =
      ((if info.index + i < info.numBlocks then [info.index + i] else []) ++
        if i ≤ info.index then [info.index - i] else []).filterMap fun q => f (info.blockAt q) := by
  have hend := h.regionEnd_le
  have hlast := h.block_le hp.index_lt
  have hsize := hp.size_pos
  have hdist : i * info.blockSize ≤ 15 * 2^20 := Nat.mul_le_mul hi hp.size_le
  rw [hp.blockBegin, List.filterMap_append, ← List.singleton_append, List.filterMap_append]
  refine congrArg₂ (· ++ ·) ?_ ?_
  · have hup : (info.blockAt info.index + i * info.blockSize) % 2^64 =
        info.blockAt (info.index + i) := by
      rw [Nat.mod_eq_of_lt (by omega), BlockInfo.blockAt, BlockInfo.blockAt, Nat.add_mul,
        Nat.add_assoc]
    rw [hup]
    by_cases hn : info.index + i < info.numBlocks
    · rw [if_pos hn]
      rfl
    · have hpast : info.regionEnd ≤ info.blockAt (info.index + i) := by
        rw [h.regionEnd_eq]
        exact info.blockAt_mono (by omega)
      rw [if_neg hn, List.filterMap_nil, List.filterMap_cons, hout _ (.inr hpast)]
      rfl
  · by_cases hle : i ≤ info.index
    · have hdown : wrapSub (info.blockAt info.index) (i * info.blockSize) =
          info.blockAt (info.index - i) := by
        have hmul := Nat.mul_le_mul_right info.blockSize hle
        have hge : i * info.blockSize ≤ info.blockAt info.index :=
          hmul.trans (Nat.le_add_left _ _)
        rw [wrapSub_of_le hge (by omega), BlockInfo.blockAt, BlockInfo.blockAt, Nat.sub_mul,
          Nat.add_sub_assoc hmul]
      rw [if_pos hle, hdown]
      rfl
    · have hmul : (info.index + 1) * info.blockSize ≤ i * info.blockSize :=
        Nat.mul_le_mul_right _ (by omega)
      rw [Nat.succ_mul] at hmul
      have hpast : wrapSub (info.blockAt info.index) (i * info.blockSize) < info.regionBegin ∨
          info.regionEnd ≤ wrapSub (info.blockAt info.index) (i * info.blockSize) := by
        rw [BlockInfo.blockAt] at hlast ⊢
        rcases Nat.lt_or_ge (info.regionBegin + info.index * info.blockSize)
          (i * info.blockSize) with hlt | hge
        · rw [wrapSub_of_lt hlt]
          omega
        · rw [wrapSub_of_le hge (by omega)]
          omega
      rw [if_neg hle, List.filterMap_nil, List.filterMap_cons, hout _ hpast]
      rfl

/-- The two passes scan the blocks of the region in the order of `nearby`. -/
theorem Snapshot.filterMap_blocksAround {d : Dump} {info : BlockInfo}
    {chunks : Nat → StoredChunk} (h : Snapshot d info chunks)
    (hp : info = ⟨0, 0, 0, 0⟩ ∨ Placed info) {f : Nat → Option Report}
    (hout : ∀ b, b < info.regionBegin ∨ info.regionEnd ≤ b → f b = none) :
    (blocksAround info 0 2 ++ blocksAround info 2 16).filterMap f =
      (nearby info.numBlocks info.index).filterMap fun q => f (info.blockAt q) := by
  rcases hp with rfl | hp
  · rw [List.filterMap_eq_nil_iff.mpr fun b _ => hout b (.inr (Nat.zero_le b))]
    rfl
  · have hpasses : blocksAround info 0 2 ++ blocksAround info 2 16 =
        [info.blockBegin] ++ (List.range' 1 15).flatMap fun i =>
          [(info.blockBegin + i * info.blockSize) % 2^64,
            wrapSub info.blockBegin (i * info.blockSize)] := rfl
    rw [hpasses, nearby, if_pos hp.index_lt, List.filterMap_append, List.filterMap_append,
      List.filterMap_flatMap, List.filterMap_flatMap, hp.blockBegin]
    refine congrArg₂ (· ++ ·) rfl (List.flatMap_congr fun i hi => ?_)
    rw [List.mem_range'_1] at hi
    rw [← hp.blockBegin]
    exact h.filterMap_pair hp hout (by omega)

section

variable {n q0 q : Nat}

theorem mem_nearby (hq0 : q0 < n) : q ∈ nearby n q0 ↔ q < n ∧ q ≤ q0 + 15 ∧ q0 ≤ q + 15 := by
  rw [nearby, if_pos hq0, List.mem_append, List.mem_singleton, List.mem_flatMap]
  constructor
  · rintro (rfl | ⟨i, hi, hq⟩)
    · omega
    · rw [List.mem_range'_1] at hi
      rw [List.mem_append] at hq
      rcases hq with hq | hq
      · split at hq
        · rw [List.mem_singleton] at hq
          omega
        · cases hq
      · split at hq
        · rw [List.mem_singleton] at hq
          omega
        · cases hq
  · rintro ⟨hn, hhi, hlo⟩
    rcases Nat.lt_trichotomy q q0 with hlt | rfl | hgt
    · refine .inr ⟨q0 - q, List.mem_range'_1.mpr (by omega), ?_⟩
      rw [List.mem_append, if_pos (show q0 - q ≤ q0 by omega), List.mem_singleton]
      omega
    · exact .inl rfl
    · refine .inr ⟨q - q0, List.mem_range'_1.mpr (by omega), ?_⟩
      rw [List.mem_append, if_pos (show q0 + (q - q0) < n by omega), List.mem_singleton]
      omega

/-- What `nearby` lists at one distance. -/
theorem mem_pair {i : Nat} (h : q ∈ (if q0 + i < n then [q0+i] else []) ++
    if i ≤ q0 then [q0-i] else []) : q = q0 + i ∨ q + i = q0 := by
  rw [List.mem_append] at h
  rcases h with h | h
  · split at h
    · exact .inl (List.mem_singleton.mp h)
    · cases h
  · split at h
    · rw [List.mem_singleton] at h
      omega
    · cases h

theorem nearby_nodup (n q0 : Nat) : (nearby n q0).Nodup := by
  rw [nearby, List.nodup_append]
  refine ⟨?_, ?_, ?_⟩
  · split
    · exact List.nodup_singleton q0
    · exact List.nodup_nil
  · rw [List.nodup_flatMap]
    constructor
    · intro i hi
      rw [List.mem_range'_1] at hi
      split <;> split <;> simp
      omega
    · refine List.Nodup.pairwise_of_forall_ne List.nodup_range' ?_
      intro i hi j hj hij q hqi hqj
      rw [List.mem_range'_1] at hi hj
      have hi' := mem_pair hqi
      have hj' := mem_pair hqj
      omega
  · intro q hq r hr
    obtain ⟨i, hi, hri⟩ := List.mem_flatMap.mp hr
    rw [List.mem_range'_1] at hi
    have hi' := mem_pair hri
    split at hq
    · rw [List.mem_singleton] at hq
      omega
    · cases hq

end

section

variable {α β : Type*} {g s : α → Prop} [DecidablePred g] [DecidablePred s]

theorem filterMap_eq_map_filter {f : α → Option β} {r : α → β} {l : List α}
    (h : ∀ a ∈ l, f a = if g a then some (r a) else none) :
    l.filterMap f = (l.filter g).map r := by
  induction l with
  | nil => rfl
  | cons a l ih =>
    have ih := ih fun b hb => h b (List.mem_cons_of_mem _ hb)
    have ha := h a List.mem_cons_self
    by_cases hg : g a
    · rw [if_pos hg] at ha
      rw [List.filterMap_cons_some ha, List.filter_cons_of_pos (by simpa using hg),
        List.map_cons, ih]
    · rw [if_neg hg] at ha
      rw [List.filterMap_cons_none ha, List.filter_cons_of_neg (by simpa using hg), ih]

theorem forall_split_cons {P : List α → α → Prop} {b : α} {l : List α} :
    (∀ pre a post, b :: l = pre ++ a :: post → P pre a) ↔
      P [] b ∧ ∀ pre a post, l = pre ++ a :: post → P (b::pre) a := by
  constructor
  · intro h
    refine ⟨h [] b l rfl, ?_⟩
    rintro pre a post rfl
    exact h (b::pre) a post rfl
  · rintro ⟨hhead, htail⟩ pre a post heq
    cases pre with
    | nil =>
      obtain ⟨rfl, -⟩ := List.cons_eq_cons.mp heq
      exact hhead
    | cons c pre =>
      obtain ⟨rfl, hl⟩ := List.cons_eq_cons.mp heq
      exact htail pre a post hl

/-- The first `n` elements with `g` or `s` are those with `g`, unless an element with `s` comes
before `n` of them. -/
theorem take_filter_or_iff (hdisj : ∀ a, s a → ¬ g a) (r : α → β) {l : List α}
    (hinj : ∀ a ∈ l, ∀ b ∈ l, r a = r b → a = b) (n : Nat) :
    ((l.filter fun a => g a ∨ s a).take n).map r = ((l.filter g).take n).map r ↔
      ∀ pre a post, l = pre ++ a :: post → s a → n ≤ (pre.filter g).length := by
  induction l generalizing n with
  | nil =>
    refine iff_of_true rfl ?_
    intro pre a post heq
    exact absurd heq.symm (List.append_ne_nil_of_right_ne_nil _ (List.cons_ne_nil _ _))
  | cons b l ih =>
    have ih := ih fun a ha b hb => hinj a (List.mem_cons_of_mem _ ha) b (List.mem_cons_of_mem _ hb)
    rw [forall_split_cons]
    by_cases hg : g b
    · have hs : ¬ s b := fun hs => hdisj b hs hg
      rw [List.filter_cons_of_pos (by simp [hg]), List.filter_cons_of_pos (by simp [hg])]
      cases n with
      | zero => simp
      | succ n =>
        simp only [List.take_succ_cons, List.map_cons, List.cons_inj_right, ih]
        simp [hs, hg]
    · have hskip : (b::l).filter (fun a => g a) = l.filter fun a => g a :=
        List.filter_cons_of_neg (by simp [hg])
      rw [hskip]
      by_cases hs : s b
      · rw [List.filter_cons_of_pos (by simp [hs])]
        cases n with
        | zero => simp
        | succ n =>
          refine iff_of_false ?_ fun h => absurd (h.1 hs) (by simp)
          intro heq
          have hmem : r b ∈ ((l.filter g).take (n+1)).map r := by
            rw [← heq, List.take_succ_cons]
            exact List.mem_cons_self
          obtain ⟨c, hc, hrc⟩ := List.mem_map.mp hmem
          obtain ⟨hcl, hgc⟩ := List.mem_filter.mp (List.mem_of_mem_take hc)
          have hcb := hinj c (List.mem_cons_of_mem _ hcl) b List.mem_cons_self hrc
          exact hg (hcb ▸ of_decide_eq_true hgc)
      · rw [List.filter_cons_of_neg (by simp [hg, hs]), ih]
        simp [hs, hg]

end

section

variable {d : Dump} {faultAddr : Nat} {depot : Option (Nat → List Nat)} {info : BlockInfo}
  {chunks : Nat → StoredChunk}

theorem Snapshot.chunkAt_lt (h : Snapshot d info chunks) {q r : Nat} (hr : r < info.numBlocks)
    (hlt : q < r) : chunkAt info chunks q < chunkAt info chunks r := by
  have hfits := (h.stored q (by omega)).fits
  have hmono := info.blockAt_mono (Nat.succ_le_of_lt hlt)
  rw [Nat.succ_eq_add_one, info.blockAt_succ] at hmono
  rw [chunkAt, chunkAt, StoredChunk.chunkAddr, StoredChunk.chunkAddr]
  rw [getHeaderSize_eq] at *
  omega

theorem Snapshot.chunkAt_inj (h : Snapshot d info chunks) {q r : Nat} (hq : q < info.numBlocks)
    (hr : r < info.numBlocks) (heq : chunkAt info chunks q = chunkAt info chunks r) : q = r := by
  rcases Nat.lt_trichotomy q r with hlt | rfl | hgt
  · exact absurd heq (h.chunkAt_lt hr hlt).ne
  · rfl
  · exact absurd heq (h.chunkAt_lt hq hgt).ne'

theorem lt_of_mem_nearby (hp : info = ⟨0, 0, 0, 0⟩ ∨ Placed info) {q : Nat}
    (hq : q ∈ nearby info.numBlocks info.index) : q < info.numBlocks := by
  rcases hp with rfl | hp
  · cases hq
  · exact ((mem_nearby hp.index_lt).mp hq).1

/-- No address is reported twice. -/
theorem Snapshot.addresses_nodup (h : Snapshot d info chunks)
    (hp : info = ⟨0, 0, 0, 0⟩ ∨ Placed info) {qs : List Nat}
    (hqs : List.Sublist qs (nearby info.numBlocks info.index)) :
    ((qs.map (storedReport d faultAddr depot info chunks)).map Report.allocationAddress).Nodup := by
  rw [List.map_map]
  refine (hqs.nodup (nearby_nodup _ _)).map_on ?_
  intro q hq r hr heq
  exact h.chunkAt_inj (lt_of_mem_nearby hp (hqs.subset hq)) (lt_of_mem_nearby hp (hqs.subset hr)) heq

/-- A ring buffer without entries adds no report. -/
theorem checkEntries_of_blank {pageSize n : Nat} {collectTrace : Nat → List Nat}
    {rb : AllocationRingBuffer} (hblank : ∀ e ∈ rb.entries, e.ptr = 0) (is : List Nat)
    (reports : List Report) :
    checkEntries pageSize faultAddr collectTrace rb n is reports = reports := by
  induction is with
  | nil => rfl
  | cons i is ih =>
    have hentry : (rb.entries.getD (i % n) .blank).ptr = 0 := by
      rw [List.getD_eq_getElem?_getD]
      cases hi : rb.entries[i % n]? with
      | none => rfl
      | some e => exact hblank e (List.mem_of_getElem? hi)
    rw [checkEntries, checkEntry, if_pos hentry, ih, ite_self]

theorem getRingBufferErrorInfo_of_blank {pageSize ringBufferSize : Nat}
    {collectTrace : Nat → List Nat} {ring : Option AllocationRingBuffer}
    (hring : ∀ rb, ring = some rb → ∀ e ∈ rb.entries, e.ptr = 0) (reports : List Report) :
    getRingBufferErrorInfo pageSize faultAddr collectTrace ring ringBufferSize reports =
      reports := by
  cases ring with
  | none => rfl
  | some rb => rw [getRingBufferErrorInfo, checkEntries_of_blank (hring rb rfl), ite_self]

/-- All reports: the first three chunks that are to report or misread. -/
theorem getErrorInfo_eq {scm : SizeClassMap} {infos : Nat → RegionInfo}
    {pageSize fuel ringBufferSize : Nat} {ring : Option AllocationRingBuffer}
    (hp : info = ⟨0, 0, 0, 0⟩ ∨ Placed info)
    (hinfo : findNearestBlock scm infos fuel (untagPointer faultAddr) = some info)
    (hsnap : Snapshot d info chunks) (htag : extractTag faultAddr ≠ 0)
    (hring : ∀ rb, ring = some rb → ∀ e ∈ rb.entries, e.ptr = 0) :
    getErrorInfo d faultAddr depot scm infos pageSize fuel ring ringBufferSize = some
      ((((nearby info.numBlocks info.index).filter fun q =>
        Guilty faultAddr info chunks q ∨ Misread d faultAddr info chunks q).take
          numErrorReports).map (storedReport d faultAddr depot info chunks)) := by
  have hwrap := hsnap.noWrap
  have hmiddle (reports : List Report) : (match depot with
      | none => reports
      | some collectTrace =>
          getRingBufferErrorInfo pageSize faultAddr collectTrace ring ringBufferSize reports) =
      reports := by
    cases depot with
    | none => rfl
    | some collectTrace => exact getRingBufferErrorInfo_of_blank hring reports
  have hout : ∀ b, b < info.regionBegin ∨ info.regionEnd ≤ b →
      reportAt d faultAddr depot info b = none := fun b hb => if_pos hb
  have hreports : (nearby info.numBlocks info.index).filterMap
        (fun q => reportAt d faultAddr depot info (info.blockAt q)) =
      ((nearby info.numBlocks info.index).filter fun q =>
        Guilty faultAddr info chunks q ∨ Misread d faultAddr info chunks q).map
          (storedReport d faultAddr depot info chunks) := by
    apply filterMap_eq_map_filter
    intro q hq
    rcases hp with rfl | hp
    · cases hq
    · exact hsnap.reportAt hp (lt_of_mem_nearby (.inr hp) hq)
  rw [getErrorInfo, if_neg (by omega), hinfo]
  simp only [Option.bind_eq_bind, Option.bind_some, ne_eq, htag, not_false_eq_true, if_true]
  rw [hmiddle, getInlineErrorInfo_passes, hsnap.filterMap_blocksAround hp hout, hreports,
    List.map_take]

/-- The reports are the right ones exactly if each misread chunk comes after three right ones. -/
theorem getErrorInfo_attributed_iff {scm : SizeClassMap} {infos : Nat → RegionInfo}
    {pageSize fuel ringBufferSize : Nat} {ring : Option AllocationRingBuffer}
    (hfuel : 8200 ≤ fuel)
    (hinfo : findNearestBlock scm infos fuel (untagPointer faultAddr) = some info)
    (hsnap : Snapshot d info chunks) (htag : extractTag faultAddr ≠ 0)
    (hring : ∀ rb, ring = some rb → ∀ e ∈ rb.entries, e.ptr = 0) :
    (∃ reports, getErrorInfo d faultAddr depot scm infos pageSize fuel ring ringBufferSize =
        some reports ∧ Attributed d faultAddr depot info chunks reports) ↔
      ∀ nearer q farther, nearby info.numBlocks info.index = nearer ++ q :: farther →
        Misread d faultAddr info chunks q →
          3 ≤ (nearer.filter (Guilty faultAddr info chunks)).length := by
  have hp := placed_of_findNearestBlock (untagPointer_lt faultAddr) hfuel hinfo
  have hdisj (q : Nat) (hm : Misread d faultAddr info chunks q) :
      ¬ Guilty faultAddr info chunks q := by
    intro hg
    have htag := hg.2
    rw [StoredChunk.memoryTag, if_pos hm.2.1] at htag
    cases htag
  have hinj : ∀ q ∈ nearby info.numBlocks info.index, ∀ r ∈ nearby info.numBlocks info.index,
      storedReport d faultAddr depot info chunks q =
        storedReport d faultAddr depot info chunks r → q = r := by
    intro q hq r hr heq
    exact hsnap.chunkAt_inj (lt_of_mem_nearby hp hq) (lt_of_mem_nearby hp hr)
      (congrArg Report.allocationAddress heq)
  rw [getErrorInfo_eq hp hinfo hsnap htag hring]
  refine Iff.trans ?_ (take_filter_or_iff hdisj _ hinj numErrorReports)
  constructor
  · rintro ⟨reports, hsome, hattr⟩
    rw [Option.some_inj] at hsome
    rw [hsome, hattr.exact]
  · intro heq
    refine ⟨_, rfl, heq, ?_⟩
    exact hsnap.addresses_nodup hp ((List.take_sublist _ _).trans List.filter_sublist)

end

/-- A chunk of no bytes, aligned to 32: it ends, and begins, at the end of its block. -/
def endChunk : StoredChunk :=
  { offset := 16, header := ⟨1, 1, 3, 0, 1, 0⟩, tag := 0 }

/-- The block that follows it, with a chunk of 8 bytes. -/
def nextChunk : StoredChunk :=
  { offset := 0, header := ⟨1, 1, 0, 8, 0, 0⟩, tag := 2 }

def twoChunks (q : Nat) : StoredChunk := if q = 0 then endChunk else nextChunk

theorem twoBlocks_begin_lt : 65536 < 2^64 := by decide

theorem noBlocks_lt : 0 < 2^64 := by decide

def twoBlocks (i : Nat) : RegionInfo :=
  if i = 1 then ⟨65536, 64, twoBlocks_begin_lt, by decide⟩ else ⟨0, 0, noBlocks_lt, noBlocks_lt⟩

/-- The memory of the two blocks and the tags of their four granules. -/
def twoBlocksDump : Dump :=
  { memoryAddr := 65536
    memorySize := 64
    memory := store (store (store (store (fun _ => 0) 0 4 blockMarker) 4 4 16) 16 8
      (pack endChunk.header)) 32 8 (pack nextChunk.header)
    memoryTags := fun i => if i = 3 then 2 else 0 }

def nextBlock : BlockInfo := ⟨65568, 32, 65536, 65600⟩

theorem twoBlocks_snapshot : Snapshot twoBlocksDump nextBlock twoChunks := by
  refine ⟨by decide, ?_, by decide, by decide, ?_⟩
  · intro a hlo hhi
    exact ⟨hlo, hhi⟩
  · intro q hq
    have hq : q < 2 := hq
    rcases Nat.lt_succ_iff.mp hq |>.lt_or_eq with hlt | rfl
    · obtain rfl : q = 0 := by omega
      exact ⟨by decide, by decide, ⟨.allocated, by decide⟩, by decide, by decide, by decide,
        by decide⟩
    · exact ⟨by decide, by decide, ⟨.allocated, by decide⟩, by decide, by decide, by decide,
        by decide⟩

theorem twoBlocks_nearest :
    findNearestBlock defaultSizeClassMap twoBlocks 8200 65570 = some nextBlock := by
  decide

theorem getErrorInfo_attributed_twoBlocks :
    ∃ reports, getErrorInfo twoBlocksDump (taggedPtr 65570 2) none defaultSizeClassMap twoBlocks
      4096 8200 none 0 = some reports ∧
        Attributed twoBlocksDump (taggedPtr 65570 2) none nextBlock twoChunks reports := by
  refine (getErrorInfo_attributed_iff le_rfl ?_ twoBlocks_snapshot (by decide) ?_).mpr ?_
  · rw [untagPointer_taggedPtr 2 (by decide)]
    exact twoBlocks_nearest
  · intro rb hrb
    cases hrb
  · intro nearer q farther hsplit hm
    have hq : q ∈ nearby nextBlock.numBlocks nextBlock.index := by
      rw [hsplit]
      exact List.mem_append_right _ List.mem_cons_self
    have hnone : ∀ q ∈ nearby nextBlock.numBlocks nextBlock.index,
        ¬ Misread twoBlocksDump (taggedPtr 65570 2) nextBlock twoChunks q := by decide
    exact absurd hm (hnone q hq)

/-- The fault tag 1 is the first byte of the header of the next block, the class: the chunk at the
end of its block is reported though it never had a tag. -/
theorem endChunk_blamed :
    Snapshot twoBlocksDump nextBlock twoChunks ∧
      findNearestBlock defaultSizeClassMap twoBlocks 8200 65570 = some nextBlock ∧
      getErrorInfo twoBlocksDump (taggedPtr 65570 1) none defaultSizeClassMap twoBlocks
        4096 8200 none 0 = some [chunkReport twoBlocksDump (taggedPtr 65570 1) none 65568 0] ∧
      ¬ Attributed twoBlocksDump (taggedPtr 65570 1) none nextBlock twoChunks
        [chunkReport twoBlocksDump (taggedPtr 65570 1) none 65568 0] := by
  refine ⟨twoBlocks_snapshot, twoBlocks_nearest, by decide, ?_⟩
  intro h
  have hexact := h.exact
  revert hexact
  decide

end ScudoMte.ErrorReport
