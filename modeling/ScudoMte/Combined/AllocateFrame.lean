import ScudoMte.Combined.Allocate

namespace ScudoMte.Combined

open ByteMemory Chunk

section InitAllocation

variable {cfg : Config} {opts : Options} {env : CallEnv} {m : Mem} {size alignment : Nat}
  {origin : Origin} {fill : FillContentsMode} {classId block blockEnd : Nat}

/-- The bytes of a chunk that `initAllocation` writes last: the stack trace and the header. -/
theorem storeChunkHeader_user {cfg : Config} {m : Mem} {block user tb tp classId sizeOrUnused : Nat}
    {origin : Origin} {lo : Nat} (hb : block + 16 ≤ user) (hu : user < 2^56) (hlo : user ≤ lo)
    (hi : Nat) :
    AgreeOn m.data (storeChunkHeader cfg m block user (taggedPtr block tb) (taggedPtr user tp)
      classId origin sizeOrUnused).data lo hi :=
  (storeChunkHeader_agreeOff hb hu).data.on (.inr (by omega))

theorem storeAllocationStackMaybe_user (opts : Options) (env : CallEnv) (m : Mem) {user t lo : Nat}
    (hu : user < 2^56) (h16 : 16 ≤ user) (hlo : user ≤ lo) (hi : Nat) :
    AgreeOn m.data (storeAllocationStackMaybe opts env m (taggedPtr user t)).data lo hi :=
  (storeAllocationStackMaybe_agreeOff opts env m hu h16).data.on (.inr hlo)

/-- A new chunk is written inside its block only. -/
theorem initAllocation_agreeOff (hs : BlockServes cfg size alignment classId block blockEnd)
    (hal : 16 ∣ alignment) (hend16 : blockEnd % 16 = 0) :
    m.AgreeOff (initAllocation cfg opts env m size alignment origin fill classId block blockEnd).2
      block blockEnd := by
  have hfits := hs.fits
  have hend := hs.end_lt
  have hhead := hs.header
  have hb16 := hs.block_aligned
  have hu16 := hs.user_mod hal
  have hprim := hs.primary
  simp only [initAllocation]
  generalize roundUp (block + getHeaderSize) alignment = user at hfits hhead hu16 ⊢
  have hu : addHeaderTag user = taggedPtr user 2 := addHeaderTag_of_lt (by omega)
  have hb : addHeaderTag block = taggedPtr block 2 := addHeaderTag_of_lt (by omega)
  have hstore (m : Mem) (tb tp sizeOrUnused : Nat) : m.AgreeOff (storeChunkHeader cfg m block user
      (taggedPtr block tb) (taggedPtr user tp) classId origin sizeOrUnused) block blockEnd :=
    (storeChunkHeader_agreeOff hhead (by omega)).mono (le_refl _) (by omega)
  have hstack (m : Mem) (t : Nat) : m.AgreeOff
      (storeAllocationStackMaybe opts env m (taggedPtr user t)) block blockEnd :=
    (storeAllocationStackMaybe_agreeOff opts env m (by omega) (by omega)).mono (by omega) (by omega)
  cases ht : opts.useMemoryTagging with
  | false =>
    simp only [Bool.not_false, if_true, initChunk, hu, hb,
      untagPointer_taggedPtr 2 (show block < 2^56 by omega)]
    refine Mem.AgreeOff.trans ?_ (hstore _ _ _ _)
    split
    · next hc =>
      rw [hprim hc.1]
      exact Mem.memset_agreeOff _ _ _ _
    · exact .refl _ _ _
  | true =>
    simp only [Bool.not_true, Bool.false_eq_true, if_false, initChunkWithMemoryTagging, hu, hb]
    split
    · next hc =>
      rw [initTaggedPrimary_eq, ← hprim hc]
      have htags := @prepareTaggedChunk_agreeOff m user size
        (computeOddEvenMaskForPointerMaybe cfg.sizeClassMap opts block classId) blockEnd env.draw
        block blockEnd (by omega) hu16 hfits hend (by omega) (le_refl _) hb16 hend16
      have h2 := hstack (prepareTaggedChunk m user size
        (computeOddEvenMaskForPointerMaybe cfg.sizeClassMap opts block classId) blockEnd env.draw).2 0
      rw [taggedPtr_zero] at h2
      have h3 := hstore (storeAllocationStackMaybe opts env (prepareTaggedChunk m user size
        (computeOddEvenMaskForPointerMaybe cfg.sizeClassMap opts block classId) blockEnd
        env.draw).2 user) 0 0 size
      rw [taggedPtr_zero, taggedPtr_zero] at h3
      exact (htags.trans h2).trans (by simpa only [hc, ne_eq, not_false_eq_true, if_true] using h3)
    · exact ((storeTags_agreeOff m block blockEnd (by omega) (by omega) (by decide) hb16 (le_refl _)
        (by omega) hend16).trans (hstack _ _)).trans (hstore _ _ _ _)

/-- The pointer that keys the header of a new chunk. -/
theorem initAllocation_headerKey (hs : BlockServes cfg size alignment classId block blockEnd) :
    (initAllocation cfg opts env m size alignment origin fill classId block blockEnd).2.headerKey
      (roundUp (block + getHeaderSize) alignment - 16) =
      taggedPtr (roundUp (block + getHeaderSize) alignment) (headerTag opts classId) := by
  have hfits := hs.fits
  have hend := hs.end_lt
  have hhead := hs.header
  obtain ⟨m1, tb, hm⟩ := @initAllocation_mem cfg opts env m size alignment origin fill classId block
    blockEnd hs
  rw [hm, storeChunkHeader_eq cfg m1 tb _ classId origin _ (by omega)]
  exact storeHeader_headerKey _ _ _ (by omega) (by omega)

/-- The tags of a new secondary chunk: twice the header tag on the granule of its header. -/
theorem initAllocation_secondary_tag (hs : BlockServes cfg size alignment 0 block blockEnd)
    (ht : opts.useMemoryTagging) (g : Nat) :
    (initAllocation cfg opts env m size alignment origin fill 0 block blockEnd).2.tag g =
      if g = block/16 then 4 else m.tag g := by
  have hfits := hs.fits
  have hend := hs.end_lt
  have hb16 := hs.block_aligned
  have huser := hs.secondary rfl
  rw [huser] at hfits
  have hu : addHeaderTag (block+16) = taggedPtr (block+16) 2 := addHeaderTag_of_lt (by omega)
  have hb : addHeaderTag block = taggedPtr block 2 := addHeaderTag_of_lt (by omega)
  simp only [initAllocation, ht, Bool.not_true, Bool.false_eq_true, if_false,
    initChunkWithMemoryTagging, ne_eq, not_true_eq_false, huser, hu, hb, storeChunkHeader_tag,
    storeAllocationStackMaybe_tag]
  rw [storeTags_tag m g (by omega) (by omega) (by decide) hb16]
  have hg : (block/16 ≤ g ∧ g < (block+16+15)/16) ↔ g = block/16 := by omega
  simp only [hg]

/-- A secondary chunk keeps the bytes of its block. -/
theorem initAllocation_secondary_user (hs : BlockServes cfg size alignment 0 block blockEnd) :
    AgreeOn m.data
      (initAllocation cfg opts env m size alignment origin fill 0 block blockEnd).2.data
      (block+16) blockEnd := by
  have hfits := hs.fits
  have hend := hs.end_lt
  have huser := hs.secondary rfl
  rw [huser] at hfits
  have hu : addHeaderTag (block+16) = taggedPtr (block+16) 2 := addHeaderTag_of_lt (by omega)
  have hb : addHeaderTag block = taggedPtr block 2 := addHeaderTag_of_lt (by omega)
  intro a h1 h2
  cases ht : opts.useMemoryTagging with
  | false =>
    simp only [initAllocation, ht, Bool.not_false, if_true, initChunk, huser, hu, hb, ne_eq,
      not_true_eq_false, false_and, if_false]
    exact storeChunkHeader_user (le_refl _) (by omega) (le_refl _) _ a h1 h2
  | true =>
    simp only [initAllocation, ht, Bool.not_true, Bool.false_eq_true, if_false,
      initChunkWithMemoryTagging, ne_eq, not_true_eq_false, huser, hu, hb]
    rw [storeChunkHeader_user (le_refl _) (by omega) (le_refl _) _ a h1 h2,
      storeAllocationStackMaybe_user opts env _ (by omega) (by omega) (le_refl _) _ a h1 h2,
      storeTags_data]

/-- With tagging on, a primary chunk keeps the bytes of its block, whatever fill was asked for. -/
theorem initAllocation_tagged_user (hs : BlockServes cfg size alignment classId block blockEnd)
    (ht : opts.useMemoryTagging) (hc : classId ≠ 0) (hsize : size ≠ 0) (hi : Nat) :
    AgreeOn m.data
      (initAllocation cfg opts env m size alignment origin fill classId block blockEnd).2.data
      (roundUp (block + getHeaderSize) alignment) hi := by
  have hfits := hs.fits
  have hend := hs.end_lt
  have hhead := hs.header
  intro a h1 h2
  simp only [initAllocation, ht, Bool.not_true, Bool.false_eq_true, if_false,
    initChunkWithMemoryTagging, ne_eq, hc, not_false_eq_true, if_true, initTaggedPrimary_eq,
    ← hs.primary hc]
  generalize roundUp (block + getHeaderSize) alignment = user at hfits hhead h1 ⊢
  have h3 (m : Mem) := @storeChunkHeader_user cfg m block user 0 0 classId size origin user hhead
    (by omega) (le_refl _) hi a h1 h2
  have h4 (m : Mem) := @storeAllocationStackMaybe_user opts env m user 0 user (by omega) (by omega)
    (le_refl _) hi a h1 h2
  simp only [taggedPtr_zero] at h3 h4
  rw [h3, h4, prepareTaggedChunk, setRandomTag_eq (by omega)]
  rw [storeEndMarker_data _ _ _ _ hsize, storeTags_data]
  rfl

/-- With tagging off, a primary chunk is filled as asked. -/
theorem initAllocation_untagged_user (hs : BlockServes cfg size alignment classId block blockEnd)
    (ht : opts.useMemoryTagging = false) (hc : classId ≠ 0) (hf : fill = .zeroFill) :
    IsZero (initAllocation cfg opts env m size alignment origin fill classId block blockEnd).2.data
      (roundUp (block + getHeaderSize) alignment) blockEnd := by
  have hfits := hs.fits
  have hend := hs.end_lt
  have hhead := hs.header
  have hprim := hs.primary hc
  have hb : addHeaderTag block = taggedPtr block 2 := addHeaderTag_of_lt (by omega)
  have hu : addHeaderTag (roundUp (block + getHeaderSize) alignment) =
      taggedPtr (roundUp (block + getHeaderSize) alignment) 2 := addHeaderTag_of_lt (by omega)
  intro a h1 h2
  simp only [initAllocation, ht, Bool.not_false, if_true, initChunk, hc, hf, hu, hb, ne_eq,
    not_false_eq_true, reduceCtorEq, and_self, untagPointer_taggedPtr 2 (show block < 2^56 by omega)]
  rw [storeChunkHeader_user hhead (by omega) (le_refl _) _ a h1 h2]
  exact fill_isZero m.data block (cfg.sizeClassMap.getSizeByClassId classId) a (by omega) (by omega)

end InitAllocation

end ScudoMte.Combined
