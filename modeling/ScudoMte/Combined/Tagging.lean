import ScudoMte.Options

namespace ScudoMte.Combined

open ByteMemory

def addHeaderTag (ptr : Nat) : Nat := addFixedTag ptr 2

/-- The pointer with which later calls recompute the checksum of a chunk's header. -/
def getHeaderTaggedPointer (ptr : Nat) : Nat :=
  let untaggedPtr := untagPointer ptr
  if untaggedPtr ≠ ptr then untaggedPtr else addHeaderTag ptr

def computeOddEvenMaskForPointerMaybe (scm : SizeClassMap) (opts : Options) (ptr classId : Nat) :
    Nat :=
  if !opts.useOddEvenTags then 0
  else 0x5555 <<< ((ptr >>> scm.getSizeLSBByClassId classId) &&& 1)

/-- `storeEndMarker`: tag 0 for the granule past the end, unless the end is the block's. -/
def storeEndMarker (m : Mem) (stop size blockEnd : Nat) : Mem :=
  let untaggedEnd := untagPointer stop
  if untaggedEnd ≠ blockEnd then
    let m1 := storeTag m untaggedEnd
    if size = 0 then m1.write untaggedEnd 1 (extractTag stop) else m1
  else m

/-- `prepareTaggedChunk`: the tagged pointer and the memory after the tag stores. -/
def prepareTaggedChunk (m : Mem) (ptr size excludeMask blockEnd draw : Nat) : Nat × Mem :=
  let m1 := storeTag m (ptr - 16)
  let (taggedBegin, taggedEnd, m2) := setRandomTag m1 ptr size excludeMask draw
  (taggedBegin, storeEndMarker m2 taggedEnd size blockEnd)

def resizeTaggedChunk (m : Mem) (oldPtr newPtr newSize blockEnd : Nat) : Mem :=
  let roundOldPtr := roundUp oldPtr 16
  if roundOldPtr ≥ newPtr then
    storeEndMarker m (roundUp newPtr 16) newSize blockEnd
  else
    -- `storeTags` returns its end, which is not rounded
    storeEndMarker (storeTags m roundOldPtr newPtr) newPtr newSize blockEnd

/-- `storePrimaryAllocationStackMaybe`; the secondary variant makes the same two stores and
adds a ring buffer entry. -/
def storeAllocationStackMaybe (opts : Options) (env : CallEnv) (m : Mem) (ptr : Nat) : Mem :=
  if !opts.trackAllocationStacks then m
  else if !env.ringBuffer then m
  else (m.write (untagPointer (ptr-8)) 4 env.trace).write (untagPointer (ptr-4)) 4 env.tid

def getBlockBegin (ptr : Nat) (h : Chunk.UnpackedHeader) : Nat :=
  ptr - Chunk.getHeaderSize - h.offset.val <<< minAlignmentLog

/-- `retagBlock`: the block begin and the memory after the tag stores. `Ptr`, which the source
passes by reference, is untagged by it. -/
def retagBlock (cfg : Config) (opts : Options) (env : CallEnv) (m : Mem) (taggedPtr ptr : Nat)
    (h : Chunk.UnpackedHeader) (size : Nat) (bypassQuarantine : Bool) : Nat × Mem :=
  let prevTag := extractTag taggedPtr
  let m1 :=
    if h.classId ≠ 0 ∧ !env.disableMemInit then
      let oddEvenMask := computeOddEvenMaskForPointerMaybe cfg.sizeClassMap opts
        (getBlockBegin ptr h) h.classId
      (setRandomTag m ptr size (oddEvenMask ||| 1 <<< prevTag) env.draw).2.2
    else m
  let blockBegin := getBlockBegin (untagPointer ptr) h
  if bypassQuarantine ∧ h.classId = 0 then
    (blockBegin, storeTags m1 blockBegin (untagPointer ptr))
  else (blockBegin, m1)

theorem getHeaderTaggedPointer_taggedPtr {a t : Nat} (ha : a < 2^56) :
    getHeaderTaggedPointer (taggedPtr a t) = if t = 0 then taggedPtr a 2 else a := by
  simp only [getHeaderTaggedPointer, untagPointer_taggedPtr t ha, addHeaderTag]
  by_cases ht : t = 0
  · subst ht
    rw [if_neg (by simp), if_pos rfl, taggedPtr_zero]
    exact addFixedTag_of_lt ha (by decide)
  · have hne : a ≠ taggedPtr a t := by simp only [taggedPtr]; omega
    rw [if_pos hne, if_neg ht]

theorem addHeaderTag_of_lt {a : Nat} (ha : a < 2^56) : addHeaderTag a = taggedPtr a 2 :=
  addFixedTag_of_lt ha (by decide)

theorem storeEndMarker_tag (m : Mem) {e t : Nat} (size blockEnd g : Nat) (he : e < 2^56) :
    (storeEndMarker m (taggedPtr e t) size blockEnd).tag g =
      if e ≠ blockEnd ∧ g = e/16 then 0 else m.tag g := by
  have htag := settag_tag (t := 0) m 1 g he (by decide)
  rw [taggedPtr_zero] at htag
  simp only [storeEndMarker, untagPointer_taggedPtr t he, storeTag]
  by_cases hb : e = blockEnd
  · simp [hb]
  · have hg : (e/16 ≤ g ∧ g < e/16+1) ↔ g = e/16 := by omega
    rw [if_pos hb, apply_ite Mem.tag, Mem.write_tag, ite_self, htag]
    simp only [hg, ne_eq, hb, not_false_eq_true, true_and]

theorem storeEndMarker_agreeOff (m : Mem) {e t lo hi : Nat} (size blockEnd : Nat)
    (he : e < 2^56) (hlo : lo ≤ e) (hhi : e ≠ blockEnd → e < hi) (hlo16 : lo % 16 = 0)
    (hhi16 : hi % 16 = 0) :
    m.AgreeOff (storeEndMarker m (taggedPtr e t) size blockEnd) lo hi := by
  simp only [storeEndMarker, untagPointer_taggedPtr t he]
  split
  · next hne =>
    have hlt := hhi hne
    have htag := storeTag_agreeOff m (t := 0) lo hi he (by decide) hlo hlt hlo16 hhi16
    rw [taggedPtr_zero] at htag
    split
    · exact htag.trans ((Mem.write_agreeOff _ _ _ _).mono hlo (by omega))
    · exact htag
  · exact .refl _ _ _

/-- Without a byte to store (the size is not 0), the data is untouched. -/
theorem storeEndMarker_data (m : Mem) (stop size blockEnd : Nat) (hs : size ≠ 0) :
    (storeEndMarker m stop size blockEnd).data = m.data := by
  simp only [storeEndMarker, if_neg hs]
  split <;> rfl

section Prepare

variable {m : Mem} {a size mask blockEnd draw : Nat}

/-- The tag that the pointer had does not matter. -/
theorem setRandomTag_taggedPtr {t : Nat} (ha : a < 2^56) (ht : t < 16) :
    setRandomTag m (taggedPtr a t) size mask draw =
      (taggedPtr a (draw%16), taggedPtr (a+size) (draw%16),
        storeTags m (taggedPtr a (draw%16)) (taggedPtr (a+size) (draw%16))) := by
  simp only [setRandomTag, selectRandomTag, gentag_taggedPtr draw ha ht, taggedPtr_add]

theorem setRandomTag_eq (ha : a < 2^56) :
    setRandomTag m a size mask draw =
      (taggedPtr a (draw%16), taggedPtr (a+size) (draw%16),
        storeTags m (taggedPtr a (draw%16)) (taggedPtr (a+size) (draw%16))) := by
  have h := @setRandomTag_taggedPtr m a size mask draw 0 ha (by decide)
  rwa [taggedPtr_zero] at h

theorem prepareTaggedChunk_ptr (ha : a < 2^56) :
    (prepareTaggedChunk m a size mask blockEnd draw).1 = taggedPtr a (draw%16) := by
  simp only [prepareTaggedChunk, setRandomTag_eq ha]

/-- The tags after `prepareTaggedChunk`, granule by granule. -/
theorem prepareTaggedChunk_tag (g : Nat) (h16 : 16 ≤ a) (hal : a % 16 = 0)
    (hfit : a + size ≤ blockEnd) (hb : blockEnd < 2^56) :
    (prepareTaggedChunk m a size mask blockEnd draw).2.tag g =
      if a + size ≠ blockEnd ∧ g = (a+size)/16 then 0
      else if a/16 ≤ g ∧ g < (a+size+15)/16 then 2*(draw%16)%16
      else if g = a/16-1 then 0 else m.tag g := by
  have ha : a < 2^56 := by omega
  have hu : draw % 16 < 16 := Nat.mod_lt _ (by decide)
  have hhead := settag_tag (t := 0) m 1 g (show a - 16 < 2^56 by omega) (by decide)
  rw [taggedPtr_zero] at hhead
  have hg : ((a-16)/16 ≤ g ∧ g < (a-16)/16+1) ↔ g = a/16-1 := by omega
  simp only [prepareTaggedChunk, setRandomTag_eq ha]
  rw [storeEndMarker_tag _ size blockEnd g (by omega), storeTags_tag _ g ha (by omega) hu hal,
    storeTag, hhead]
  simp only [hg]

theorem prepareTaggedChunk_agreeOff {lo hi : Nat} (h16 : 16 ≤ a) (hal : a % 16 = 0)
    (hfit : a + size ≤ blockEnd) (hb : blockEnd < 2^56) (hlo : lo ≤ a - 16) (hhi : blockEnd ≤ hi)
    (hlo16 : lo % 16 = 0) (hhi16 : hi % 16 = 0) :
    m.AgreeOff (prepareTaggedChunk m a size mask blockEnd draw).2 lo hi := by
  have ha : a < 2^56 := by omega
  have hu : draw % 16 < 16 := Nat.mod_lt _ (by decide)
  have hhead := storeTag_agreeOff m (t := 0) lo hi (show a - 16 < 2^56 by omega) (by decide) hlo
    (by omega) hlo16 hhi16
  rw [taggedPtr_zero] at hhead
  simp only [prepareTaggedChunk, setRandomTag_eq ha]
  have htags := storeTags_agreeOff (storeTag m (a-16)) (b := a+size) lo hi ha (by omega) hu hal
    (by omega) (by omega) hhi16
  refine (hhead.trans htags).trans ?_
  exact storeEndMarker_agreeOff _ size blockEnd (by omega) (by omega) (by omega) hlo16 hhi16

end Prepare

section Retag

variable {cfg : Config} {opts : Options} {env : CallEnv} {m : Mem} {a t p size : Nat}
  {h : Chunk.UnpackedHeader} {bypass : Bool}

theorem retagBlock_block :
    (retagBlock cfg opts env m p (taggedPtr a t) h size bypass).1 =
      getBlockBegin (untagPointer (taggedPtr a t)) h := by
  simp only [retagBlock]
  split <;> rfl

theorem retagBlock_data (ptr : Nat) :
    (retagBlock cfg opts env m p ptr h size bypass).2.data = m.data := by
  have hset (m : Mem) (ptr size mask draw : Nat) :
      (setRandomTag m ptr size mask draw).2.2.data = m.data := storeTags_data _ _ _
  simp only [retagBlock]
  split
  · rw [storeTags_data]
    split
    · exact hset _ _ _ _ _
    · rfl
  · split
    · exact hset _ _ _ _ _
    · rfl

theorem retagBlock_headerKey (ptr : Nat) :
    (retagBlock cfg opts env m p ptr h size bypass).2.headerKey = m.headerKey := by
  have hset (m : Mem) (ptr size mask draw : Nat) :
      (setRandomTag m ptr size mask draw).2.2.headerKey = m.headerKey := storeTags_headerKey _ _ _
  simp only [retagBlock]
  split
  · rw [storeTags_headerKey]
    split
    · exact hset _ _ _ _ _
    · rfl
  · split
    · exact hset _ _ _ _ _
    · rfl

/-- A freed primary chunk takes twice the drawn tag, whatever its pointer's tag was. -/
theorem retagBlock_tag (g : Nat) (hc : h.classId ≠ 0) (hinit : env.disableMemInit = false)
    (ht : t < 16) (hal : a % 16 = 0) (hend : a + size < 2^56) :
    (retagBlock cfg opts env m p (taggedPtr a t) h size bypass).2.tag g =
      if a/16 ≤ g ∧ g < (a+size+15)/16 then 2*(env.draw%16)%16 else m.tag g := by
  have ha : a < 2^56 := by omega
  have hu : env.draw % 16 < 16 := Nat.mod_lt _ (by decide)
  simp only [retagBlock, hc, hinit, ne_eq, not_false_eq_true, Bool.not_false, and_self, if_true,
    and_false, if_false, setRandomTag_taggedPtr ha ht]
  exact storeTags_tag m g ha hend hu hal

end Retag

end ScudoMte.Combined
