import ScudoMte.Combined.Tagging

namespace ScudoMte.Combined

open ByteMemory Chunk

def getChunkOffsetFromBlock (m : Mem) (block : Nat) : Nat :=
  let b := untagPointer block
  let offset := if load m.data b 4 = blockMarker then load m.data (b+4) 4 else 0
  offset + getHeaderSize

/-- The chunk that a block holds, if its header is valid. -/
def getChunkFromBlock (cfg : Config) (m : Mem) (block : Nat) : Option (Nat × UnpackedHeader) :=
  let chunk := block + getChunkOffsetFromBlock m block
  (isValid cfg.cookie chunk m).map fun h => (chunk, h)

/-- The end of `initChunk` and `initChunkWithMemoryTagging`: the block marker, when the user
pointer is not the default one, and the header. `blockPtr` and `ptr` are the block and the
user pointer under the tags with which the memory is accessed. -/
def storeChunkHeader (cfg : Config) (m : Mem) (block userPtr blockPtr ptr classId : Nat)
    (origin : Origin) (sizeOrUnusedBytes : Nat) : Mem :=
  let defaultAlignedPtr := block + getHeaderSize
  let offset := userPtr - defaultAlignedPtr
  let b := untagPointer blockPtr
  let m1 := if defaultAlignedPtr ≠ userPtr then
      (m.write b 4 blockMarker).write (b+4) 4 offset
    else m
  storeHeader cfg.cookie ptr
    { classId := bitField 8 classId
      state := State.allocated.field
      originOrWasZeroed := origin.field
      sizeOrUnusedBytes := bitField 20 sizeOrUnusedBytes
      offset := if defaultAlignedPtr ≠ userPtr then bitField 16 (offset >>> minAlignmentLog) else 0
      checksum := 0 } m1

def initChunk (cfg : Config) (m : Mem) (classId : Nat) (origin : Origin)
    (block userPtr sizeOrUnusedBytes : Nat) (fill : FillContentsMode) : Nat × Mem :=
  let blockPtr := addHeaderTag block
  -- the secondary has filled its own blocks
  let m1 := if classId ≠ 0 ∧ fill ≠ .noFill then
      m.memset (untagPointer blockPtr) (fillByte fill) (cfg.sizeClassMap.getSizeByClassId classId)
    else m
  (userPtr, storeChunkHeader cfg m1 block userPtr blockPtr (addHeaderTag userPtr) classId origin
    sizeOrUnusedBytes)

/-- The branch of `initChunkWithMemoryTagging` that keeps the tag of the previous chunk. -/
def reuseTaggedChunk (cfg : Config) (m : Mem) (taggedUserPtr size blockEnd : Nat)
    (h : UnpackedHeader) (fill : FillContentsMode) : Nat × Mem :=
  let nextPage := roundUp taggedUserPtr cfg.pageSize
  let prevEnd :=
    if nextPage < taggedUserPtr + h.sizeOrUnusedBytes ∧ loadTag nextPage ≠ nextPage then nextPage
    else taggedUserPtr + h.sizeOrUnusedBytes
  let m1 := resizeTaggedChunk m prevEnd (taggedUserPtr + size) size blockEnd
  let user := untagPointer taggedUserPtr
  if fill ≠ .noFill ∧ h.originOrWasZeroed = 0 then
    (taggedUserPtr, m1.memset user 0 (min size (roundUp (prevEnd - taggedUserPtr) 16)))
  else if size ≠ 0 then (taggedUserPtr, m1.memset user 0 16)
  else (taggedUserPtr, m1)

/-- The tags of a primary chunk in `initChunkWithMemoryTagging`. -/
def initTaggedPrimary (cfg : Config) (opts : Options) (env : CallEnv) (m : Mem)
    (classId block userPtr size : Nat) (fill : FillContentsMode) : Nat × Mem :=
  let blockEnd := block + cfg.sizeClassMap.getSizeByClassId classId
  let prepared := prepareTaggedChunk m userPtr size
    (computeOddEvenMaskForPointerMaybe cfg.sizeClassMap opts block classId) blockEnd env.draw
  match getChunkFromBlock cfg m block with
  | some (prevUserPtr, h) =>
      let taggedUserPtr := loadTag userPtr
      if prevUserPtr = userPtr ∧ taggedUserPtr ≠ userPtr then
        reuseTaggedChunk cfg m taggedUserPtr size blockEnd h fill
      else prepared
  | none => prepared

def initChunkWithMemoryTagging (cfg : Config) (opts : Options) (env : CallEnv) (m : Mem)
    (classId : Nat) (origin : Origin) (block userPtr size sizeOrUnusedBytes : Nat)
    (fill : FillContentsMode) : Nat × Mem :=
  if classId ≠ 0 then
    let (taggedPtr, m1) := initTaggedPrimary cfg opts env m classId block userPtr size fill
    let m2 := storeAllocationStackMaybe opts env m1 userPtr
    (taggedPtr, storeChunkHeader cfg m2 block userPtr block userPtr classId origin
      sizeOrUnusedBytes)
  else
    let blockPtr := addHeaderTag block
    let ptr := addHeaderTag userPtr
    let m1 := storeAllocationStackMaybe opts env (storeTags m blockPtr ptr) ptr
    (userPtr, storeChunkHeader cfg m1 block userPtr blockPtr ptr classId origin sizeOrUnusedBytes)

/-- The user pointer of `allocate`: aligned, and past the header of its block. -/
theorem userPtr_spec {block k : Nat} (hk : 4 ≤ k) (hk24 : k ≤ 24) (hb : block < 2^56) :
    block + 16 ≤ roundUp (block + getHeaderSize) (2^k) ∧
      roundUp (block + getHeaderSize) (2^k) < block + 16 + 2^k ∧
      2^k ∣ roundUp (block + getHeaderSize) (2^k) ∧
      roundUp (block + getHeaderSize) (2^k) % 16 = 0 := by
  have hpow : 2^k ≤ 2^24 := Nat.pow_le_pow_right (by decide) hk24
  obtain ⟨hlo, hhi, hdvd⟩ := roundUp_spec (block + getHeaderSize) k (by omega)
    (by rw [getHeaderSize_eq]; omega)
  rw [getHeaderSize_eq] at *
  exact ⟨hlo, hhi, hdvd, mod_16_of_dvd hk hdvd⟩

/-- `loadTag` returns its argument, so the tag of the previous chunk is never kept. -/
theorem initTaggedPrimary_eq (cfg : Config) (opts : Options) (env : CallEnv) (m : Mem)
    (classId block userPtr size : Nat) (fill : FillContentsMode) :
    initTaggedPrimary cfg opts env m classId block userPtr size fill =
      prepareTaggedChunk m userPtr size
        (computeOddEvenMaskForPointerMaybe cfg.sizeClassMap opts block classId)
        (block + cfg.sizeClassMap.getSizeByClassId classId) env.draw := by
  simp only [initTaggedPrimary, loadTag, ne_eq, not_true_eq_false, and_false, if_false]
  split <;> rfl

theorem storeAllocationStackMaybe_tag (opts : Options) (env : CallEnv) (m : Mem) (ptr : Nat) :
    (storeAllocationStackMaybe opts env m ptr).tag = m.tag := by
  unfold storeAllocationStackMaybe
  split
  · rfl
  · split <;> rfl

theorem storeAllocationStackMaybe_agreeOff (opts : Options) (env : CallEnv) (m : Mem) {a t : Nat}
    (ha : a < 2^56) (h16 : 16 ≤ a) :
    m.AgreeOff (storeAllocationStackMaybe opts env m (taggedPtr a t)) (a-8) a := by
  have h8 : untagPointer (taggedPtr a t - 8) = a - 8 := by
    rw [taggedPtr_sub t (by omega), untagPointer_taggedPtr t (by omega)]
  have h4 : untagPointer (taggedPtr a t - 4) = a - 4 := by
    rw [taggedPtr_sub t (by omega), untagPointer_taggedPtr t (by omega)]
  unfold storeAllocationStackMaybe
  split
  · exact .refl _ _ _
  · split
    · exact .refl _ _ _
    · rw [h8, h4]
      exact ((Mem.write_agreeOff _ _ _ _).mono (by omega) (by omega)).trans
        ((Mem.write_agreeOff _ _ _ _).mono (by omega) (by omega))

section StoreChunkHeader

variable {cfg : Config} {m : Mem} {block user tb tp classId sizeOrUnused : Nat} {origin : Origin}

@[simp] theorem storeChunkHeader_tag :
    (storeChunkHeader cfg m block user tb tp classId origin sizeOrUnused).tag = m.tag := by
  simp only [storeChunkHeader, storeHeader_tag]
  split <;> rfl

/-- The marker and the header stay in front of the user pointer. -/
theorem storeChunkHeader_agreeOff (hb : block + 16 ≤ user) (hu : user < 2^56) :
    m.AgreeOff (storeChunkHeader cfg m block user (taggedPtr block tb) (taggedPtr user tp)
      classId origin sizeOrUnused) block (user-8) := by
  have hstore (h : UnpackedHeader) (m' : Mem) :
      m'.AgreeOff (storeHeader cfg.cookie (taggedPtr user tp) h m') block (user-8) :=
    (storeHeader_agreeOff cfg.cookie h m' hu (by omega)).mono (by omega) (le_refl _)
  simp only [storeChunkHeader, untagPointer_taggedPtr tb (show block < 2^56 by omega)]
  refine Mem.AgreeOff.trans ?_ (hstore _ _)
  split
  · next hne =>
    rw [getHeaderSize_eq] at hne
    exact ((Mem.write_agreeOff _ _ _ _).mono (by omega) (by omega)).trans
      ((Mem.write_agreeOff _ _ _ _).mono (by omega) (by omega))
  · exact .refl _ _ _

/-- The header that `storeChunkHeader` stores, before it is sealed. -/
def chunkHeader (block user classId : Nat) (origin : Origin) (sizeOrUnused : Nat) :
    UnpackedHeader where
  classId := bitField 8 classId
  state := State.allocated.field
  originOrWasZeroed := origin.field
  sizeOrUnusedBytes := bitField 20 sizeOrUnused
  offset := if block + 16 ≠ user then bitField 16 ((user - (block+16)) >>> minAlignmentLog) else 0
  checksum := 0

theorem storeChunkHeader_eq (cfg : Config) (m : Mem) {block user : Nat} (tb tp classId : Nat)
    (origin : Origin) (sizeOrUnused : Nat) (hb : block < 2^56) :
    storeChunkHeader cfg m block user (taggedPtr block tb) (taggedPtr user tp) classId origin
      sizeOrUnused =
      storeHeader cfg.cookie (taggedPtr user tp)
        (chunkHeader block user classId origin sizeOrUnused)
        (if block + 16 ≠ user then
          (m.write block 4 blockMarker).write (block+4) 4 (user - (block+16)) else m) := by
  simp only [storeChunkHeader, chunkHeader, getHeaderSize_eq, untagPointer_taggedPtr tb hb]

end StoreChunkHeader

/-- Memory holds the chunk at `user` in the block at `block`: its header, sealed with a key, and
a marker that leads to it, or none if it is at the default place. -/
structure ChunkStored (cfg : Config) (m : Mem) (block user key : Nat) (h : UnpackedHeader) :
    Prop where
  sealed : Sealed cfg.cookie key h m user
  offset : getChunkOffsetFromBlock m block = user - block

theorem getChunkOffsetFromBlock_taggedPtr (m : Mem) {b t : Nat} (hb : b < 2^56) :
    getChunkOffsetFromBlock m (taggedPtr b t) = getChunkOffsetFromBlock m b := by
  simp only [getChunkOffsetFromBlock, untagPointer_taggedPtr t hb, untagPointer_of_lt hb]

/-- The chunk is a matter of the bytes from the block to the header word. -/
theorem ChunkStored.frame {cfg : Config} {m m' : Mem} {block user key : Nat} {h : UnpackedHeader}
    (hs : ChunkStored cfg m block user key h) (hb : block + 16 ≤ user) (hu : user < 2^56)
    (hag : AgreeOn m.data m'.data block (user-8)) : ChunkStored cfg m' block user key h := by
  have hsub {lo hi : Nat} (h1 : block ≤ lo) (h2 : hi ≤ user-8) : AgreeOn m.data m'.data lo hi :=
    fun a ha ha' => hag a (by omega) (by omega)
  refine ⟨?_, ?_⟩
  · exact hs.sealed.frame hu (by omega) (hsub (by omega) (le_refl _))
  · have hoff := hs.offset
    have h0 : load m'.data block 4 = load m.data block 4 :=
      load_congr (hsub (le_refl _) (by omega))
    have h4 : load m'.data (block+4) 4 = load m.data (block+4) 4 :=
      load_congr (hsub (by omega) (by omega))
    simp only [getChunkOffsetFromBlock, untagPointer_of_lt (show block < 2^56 by omega), h0, h4]
      at hoff ⊢
    exact hoff

/-- `getChunkFromBlock`, under any tag, looks at the header of the stored chunk. -/
theorem ChunkStored.getChunkFromBlock {cfg : Config} {m : Mem} {block user key : Nat}
    {h : UnpackedHeader} (hs : ChunkStored cfg m block user key h) (hb : block + 16 ≤ user)
    (hu : user < 2^56) (t : Nat) :
    getChunkFromBlock cfg m (taggedPtr block t) =
      (isValid cfg.cookie (taggedPtr user t) m).map fun h => (taggedPtr user t, h) := by
  have hptr : taggedPtr block t + (user - block) = taggedPtr user t := by
    rw [taggedPtr_add, Nat.add_sub_cancel' (by omega)]
  simp only [Combined.getChunkFromBlock,
    getChunkOffsetFromBlock_taggedPtr m (show block < 2^56 by omega), hs.offset, hptr]

theorem ChunkStored.getChunkFromBlock_self {cfg : Config} {m : Mem} {block user t : Nat}
    {h : UnpackedHeader} (hs : ChunkStored cfg m block user (taggedPtr user t) h)
    (hb : block + 16 ≤ user) (hu : user < 2^56) :
    Combined.getChunkFromBlock cfg m (taggedPtr block t) =
      some (taggedPtr user t, h.seal cfg.cookie (taggedPtr user t)) := by
  rw [hs.getChunkFromBlock hb hu, hs.sealed.isValid_self hu (by omega), Option.map_some]

/-- A header whose state is not the fourth value of its field is not taken for a marker. -/
theorem pack_ne_blockMarker (h : UnpackedHeader) (hst : (h.state : Nat) ≠ 3) :
    pack h % 2^32 ≠ blockMarker := by
  have hc := h.classId.isLt
  have hs := h.state.isLt
  simp only [pack, blockMarker]
  generalize (h.classId : Nat) = c at hc ⊢
  generalize (h.state : Nat) = s at hst hs ⊢
  generalize (h.originOrWasZeroed : Nat) = o
  generalize (h.sizeOrUnusedBytes : Nat) = z
  generalize (h.offset : Nat) = f
  generalize (h.checksum : Nat) = k
  omega

theorem storeChunkHeader_stored (cfg : Config) (m : Mem) {block user : Nat} (tb tp classId : Nat)
    (origin : Origin) (sizeOrUnused : Nat) (hb : block + 16 ≤ user) (hu : user < 2^56)
    (hba : block % 16 = 0) (hua : user % 16 = 0) (hlim : user - block < 2^32) :
    ChunkStored cfg (storeChunkHeader cfg m block user (taggedPtr block tb) (taggedPtr user tp)
      classId origin sizeOrUnused) block user (taggedPtr user tp)
      (chunkHeader block user classId origin sizeOrUnused) := by
  have hseal (m' : Mem) := storeHeader_sealed cfg.cookie
    (chunkHeader block user classId origin sizeOrUnused) m' tp hu (show 16 ≤ user by omega)
  have hkeep (m' : Mem) (lo n : Nat) (hlo : lo + n ≤ user - 16) :
      load (storeHeader cfg.cookie (taggedPtr user tp)
        (chunkHeader block user classId origin sizeOrUnused) m').data lo n = load m'.data lo n :=
    load_congr ((storeHeader_agreeOff cfg.cookie _ m' hu (by omega)).data.on (.inl hlo))
  have hb56 : block < 2^56 := by omega
  rw [storeChunkHeader_eq cfg m tb tp classId origin sizeOrUnused hb56]
  refine ⟨hseal _, ?_⟩
  simp only [getChunkOffsetFromBlock, untagPointer_of_lt hb56, getHeaderSize_eq]
  split
  · next hne =>
    -- the marker and the offset stand in front of the header granule
    have hmark : load ((m.write block 4 blockMarker).write (block+4) 4 (user - (block+16))).data
        block 4 = blockMarker := by
      rw [load_congr ((Mem.write_agreeOff _ (block+4) 4 _).data.on (.inl (le_refl _)))]
      exact load_store _ _ _ _
    have hoff : load ((m.write block 4 blockMarker).write (block+4) 4 (user - (block+16))).data
        (block+4) 4 = user - (block+16) := by
      rw [Mem.write, load_store]
      omega
    rw [hkeep _ block 4 (by omega), hkeep _ (block+4) 4 (by omega), hmark, hoff, if_pos rfl]
    omega
  · next heq =>
    -- the header itself stands at the block begin
    have huser : user = block + 16 := by omega
    have hword := hseal m
    rw [Sealed, headerWord_of_lt _ hu (by omega)] at hword
    have hlow := load_prefix (storeHeader cfg.cookie (taggedPtr user tp)
      (chunkHeader block user classId origin sizeOrUnused) m).data block 4 8 (by decide)
    rw [show user - 16 = block by omega] at hword
    rw [hword] at hlow
    have hst : ((chunkHeader block user classId origin sizeOrUnused).state : Nat) ≠ 3 :=
      show (State.allocated.field : Nat) ≠ 3 by decide
    rw [if_neg (by rw [hlow]; exact pack_ne_blockMarker _ hst)]
    omega

end ScudoMte.Combined
