import ScudoMte.Heap.Deallocate

namespace ScudoMte

open ByteMemory Ownership Chunk Combined

variable {cfg : Config} {R : Regions cfg} {h : Heap}

section Leave

variable {tagging : Bool} {m : Mem} {r : Holding}

/-- A quarantined chunk belongs to the primary, and its pointer is the key of its header. -/
theorem Holding.Ok.quarantined (hr : r.Ok cfg tagging m) (hq : r.status ≠ .live) :
    PrimaryChunk cfg r ∧ r.ptr = r.key := by
  refine ⟨?_, hr.delayed hq⟩
  rcases hr.place with hp | hs
  · exact hp
  · exact absurd hs.live hq

/-- The header of a chunk that its owner knows by the key. -/
theorem Holding.Ok.loadHeader (hr : r.Ok cfg tagging m) : ∃ hd, HeaderOf r hd ∧
    ChunkStored cfg m r.block r.user r.key hd ∧
    Chunk.loadHeader cfg.cookie r.key m = .ok (hd.seal cfg.cookie r.key) := by
  obtain ⟨hd, hst, hof⟩ := hr.header
  have hin := hr.header_in
  exact ⟨hd, hof, hst, hst.sealed.loadHeader_self hr.user_lt (by omega)⟩

/-- The header of a chunk whose block goes back to the primary. -/
def availableHeader (cfg : Config) (r : Holding) (hd : UnpackedHeader) : UnpackedHeader :=
  { hd.seal cfg.cookie r.key with state := State.available.field }

/-- The block of a chunk with such a header is a free block. -/
theorem Holding.Ok.available (hr : r.Ok cfg tagging m) (hp : PrimaryChunk cfg r)
    {hd : UnpackedHeader} (hst : ChunkStored cfg m r.block r.user r.key hd) :
    FreeBlock cfg (storeHeader cfg.cookie r.key (availableHeader cfg r hd) m) r.classId r.block ∧
      m.AgreeOff (storeHeader cfg.cookie r.key (availableHeader cfg r hd) m) r.block r.blockEnd := by
  have hu := hr.user_lt
  have hin := hr.header_in
  have hfit := hr.user_in
  have hend := hp.blockEnd
  have hlt := hr.blockEnd_lt
  have hst' := hst.restore (availableHeader cfg r hd) (by simp only [availableHeader]; decide)
    hr.header_at hu
  refine ⟨⟨hp.classId_pos, hp.classId_le, hr.block_aligned, by omega, ?_⟩, ?_⟩
  · exact ChunkStored.quiet hst' (by simp only [availableHeader]; decide) hin hu hr.block_aligned
      hr.user_aligned (by omega)
  · exact (storeHeader_agreeOff cfg.cookie _ m (t := r.headerTag) hu (by omega)).mono (by omega)
      (by omega)

theorem HeaderOf.quarantined {hd : UnpackedHeader} (hof : HeaderOf r hd) (hq : r.status ≠ .live) :
    (hd.seal cfg.cookie r.key).state = State.quarantined.field := by
  have hs : (hd.seal cfg.cookie r.key).state = r.status.state.field := hof.state
  rw [hs]
  cases h : r.status with
  | live => exact absurd h hq
  | quarantined => rfl
  | batch => rfl

/-- Recycling a quarantined chunk reports nothing, and finds its block. -/
theorem Holding.Ok.recycle (hr : r.Ok cfg tagging m) (hq : r.status ≠ .live) :
    ∃ hd, ChunkStored cfg m r.block r.user r.key hd ∧ Combined.recycle cfg m r.ptr =
      .ok ((r.classId, r.block), storeHeader cfg.cookie r.key (availableHeader cfg r hd) m) := by
  obtain ⟨hd, hof, hst, hload⟩ := hr.loadHeader
  have hbegin : getBlockBegin (untagPointer r.key) (availableHeader cfg r hd) = r.block := by
    rw [Holding.key, untagPointer_taggedPtr _ hr.user_lt]
    exact getBlockBegin_eq hof.offset
  refine ⟨hd, hst, ?_⟩
  simp only [Combined.recycle, hr.delayed hq, hload, bind, Except.bind, hof.quarantined hq, ne_eq,
    not_true_eq_false, if_false]
  exact congrArg Except.ok (Prod.ext (Prod.ext hof.classId hbegin) rfl)

/-- So does giving back a batch of the quarantine. -/
theorem Holding.Ok.deallocateBatch (hr : r.Ok cfg tagging m) (hb : r.status = .batch) :
    ∃ hd, ChunkStored cfg m r.block r.user r.key hd ∧ deallocateQuarantineBatch cfg m r.ptr =
      .ok (r.block, storeHeader cfg.cookie r.key (availableHeader cfg r hd) m) := by
  have hq : r.status ≠ .live := by rw [hb]; decide
  obtain ⟨hp, hptr⟩ := hr.quarantined hq
  obtain ⟨hd, hof, hst, hload⟩ := hr.loadHeader
  have hbegin : r.ptr - getHeaderSize = r.block := by
    rw [(hp.batch hb).2, getHeaderSize_eq, Nat.add_sub_cancel]
  refine ⟨hd, hst, ?_⟩
  rw [hptr] at hbegin
  simp only [deallocateQuarantineBatch, hptr, hload, bind, Except.bind, hof.quarantined hq, ne_eq,
    not_true_eq_false, if_false, hbegin]
  rfl

end Leave

theorem quarantineBatch_header (cfg : Config) (opts : Options) (m : Mem) {block : Nat}
    (hb16 : block % 16 = 0) (hlt : block + 16 + quarantineBatchSize < 2^56) :
    ∃ hd, ChunkStored cfg (allocateQuarantineBatch cfg opts m block).2 block (block+16) (block+16)
        hd ∧ hd.classId = bitField 8 (quarantineClassId cfg) ∧ hd.state = State.quarantined.field ∧
      hd.offset = 0 ∧ hd.sizeOrUnusedBytes = bitField 20 quarantineBatchSize ∧
      (allocateQuarantineBatch cfg opts m block).2.headerKey block = block + 16 ∧
      m.AgreeOff (allocateQuarantineBatch cfg opts m block).2 block
        (block + 16 + quarantineBatchSize) := by
  have hsize : quarantineBatchSize = 8176 := rfl
  obtain ⟨hd, hhd⟩ : ∃ hd : UnpackedHeader, hd =
    { classId := bitField 8 (quarantineClassId cfg)
      state := State.quarantined.field
      originOrWasZeroed := 0
      sizeOrUnusedBytes := bitField 20 quarantineBatchSize
      offset := 0
      checksum := 0 } := ⟨_, rfl⟩
  have hmem : (allocateQuarantineBatch cfg opts m block).2 =
      if opts.useMemoryTagging then storeTags (storeHeader cfg.cookie (block+16) hd m) (block+16)
        (block + 16 + quarantineBatchSize) else storeHeader cfg.cookie (block+16) hd m := by
    rw [hhd]
    rfl
  have hstate : (hd.state : Nat) ≠ 3 := by
    rw [hhd]
    exact (by decide : (State.quarantined.field : Nat) ≠ 3)
  have hstored := storeHeader_default cfg m 0 hd hstate (show block + 16 < 2^56 by omega)
  have hkey := storeHeader_headerKey cfg.cookie hd m (a := block+16) (t := 0) (by omega) (by omega)
  have hag := storeHeader_agreeOff cfg.cookie hd m (a := block+16) (t := 0) (by omega) (by omega)
  rw [taggedPtr_zero] at hstored hkey hag
  rw [Nat.add_sub_cancel] at hkey
  have hag' := hag.mono (show block ≤ _ by omega) (show _ ≤ block + 16 + quarantineBatchSize by omega)
  refine ⟨hd, ?_, by rw [hhd], by rw [hhd], by rw [hhd], by rw [hhd], ?_, ?_⟩
  · rw [hmem]
    split
    · exact hstored.frame (le_refl _) (by omega) fun a _ _ => by rw [storeTags_data]
    · exact hstored
  · rw [hmem]
    split
    · rw [storeTags_headerKey]
      exact hkey
    · exact hkey
  · rw [hmem]
    split
    · have htags := storeTags_agreeOff (storeHeader cfg.cookie (block+16) hd m) (a := block+16)
        (b := block + 16 + quarantineBatchSize) (t := 0) block (block + 16 + quarantineBatchSize)
        (by omega) (by omega) (by decide) (by omega) (by omega) (le_refl _) (by omega)
      rw [taggedPtr_zero, taggedPtr_zero] at htags
      exact hag'.trans htags
    · exact hag'

theorem Holding.ofBatch_ok (tagging : Bool) {m : Mem} {block : Nat} {hd : UnpackedHeader}
    (hf : FreeBlock cfg m (quarantineClassId cfg) block)
    (hfit : 16 + quarantineBatchSize ≤ cfg.sizeClassMap.getSizeByClassId (quarantineClassId cfg))
    {m' : Mem} (hst : ChunkStored cfg m' block (block+16) (block+16) hd)
    (hclass : hd.classId = bitField 8 (quarantineClassId cfg))
    (hstate : hd.state = State.quarantined.field) (hoff : hd.offset = 0)
    (hsize : hd.sizeOrUnusedBytes = bitField 20 quarantineBatchSize)
    (hkey : m'.headerKey block = block + 16) :
    (Holding.ofBatch cfg (block+16) block).Ok cfg tagging m' := by
  have hlt := hf.lt
  have hal := hf.aligned
  have hpos : quarantineBatchSize = 8176 := rfl
  have hsize16 := cfg.sizeClassMap.size_aligned _ hf.classId_pos hf.classId_le
  have hclt := cfg.sizeClassMap.largest_lt
  have hcle := hf.classId_le
  have huser : (Holding.ofBatch cfg (block+16) block).user = block + 16 :=
    untagPointer_of_lt (show block + 16 < 2^56 by omega)
  have hkeq : (Holding.ofBatch cfg (block+16) block).key = block + 16 := by
    rw [Holding.key, huser]
    exact taggedPtr_zero _
  have hc : (Holding.ofBatch cfg (block+16) block).classId ≠ 0 := Nat.pos_iff_ne_zero.mp hf.classId_pos
  have hblock : (Holding.ofBatch cfg (block+16) block).block = block := rfl
  have hend : (Holding.ofBatch cfg (block+16) block).blockEnd =
    block + cfg.sizeClassMap.getSizeByClassId (quarantineClassId cfg) := rfl
  have hsz : (Holding.ofBatch cfg (block+16) block).size = quarantineBatchSize := rfl
  refine ⟨hal, ?_, ?_, ?_, ?_, ?_, ?_, ⟨0, by decide, ?_⟩, ?_, .inl ?_, ⟨hd, ?_, ?_⟩, ?_⟩
  · omega
  · omega
  · omega
  · omega
  · omega
  · omega
  · rw [huser, taggedPtr_zero]
    rfl
  · intro _
    rw [hkeq]
    rfl
  · exact ⟨hf.classId_pos, hf.classId_le, rfl, rfl, .inl rfl, fun _ => ⟨rfl, rfl⟩⟩
  · rw [huser, hkeq]
    exact hst
  · refine ⟨?_, hstate, ?_, ?_⟩
    · rw [hclass, bitField_val]
      exact Nat.mod_eq_of_lt (by omega)
    · rw [hoff, huser, hblock]
      rfl
    · rw [hsize, Holding.sizeOrUnused, if_pos hc]
      rfl
  · rw [huser, Nat.add_sub_cancel, hkeq]
    exact hkey

/-- The quarantine takes a free block for a batch. -/
theorem Heap.Inv.allocateBatch (hi : h.Inv R) {block : Nat}
    (hm : (quarantineClassId cfg, block) ∈ h.free)
    (hmax : quarantineBatchSize + getHeaderSize ≤ cfg.sizeClassMap.maxSize) :
    (h.allocateBatch cfg block).Inv R := by
  have hf := hi.free_ok hm
  have hfit : quarantineBatchSize + getHeaderSize ≤
      cfg.sizeClassMap.getSizeByClassId (quarantineClassId cfg) :=
    (cfg.sizeClassMap.class_spec _ (by decide) hmax).2.2
  have hlt := hf.lt
  rw [getHeaderSize_eq] at hfit
  obtain ⟨hd, hst, hclass, hstate, hoff, hsz, hkey, hag⟩ :=
    quarantineBatch_header cfg h.opts h.mem hf.aligned (by omega)
  have hok := Holding.ofBatch_ok h.opts.useMemoryTagging hf (by omega) hst hclass hstate hoff hsz hkey
  have hc : (Holding.ofBatch cfg (block+16) block).classId ≠ 0 := Nat.pos_iff_ne_zero.mp hf.classId_pos
  have hptr : (allocateQuarantineBatch cfg h.opts h.mem block).1 = block + 16 := rfl
  have hown := Owned.perm hi.owned (ownersOf_free hm)
  refine ⟨?_, ?_, hi.fits, ?_, hi.linked, ?_, ?_⟩
  · exact Owns.update hown (hag.mono (le_refl _) (by simp only [Owner.zone]; omega)) hok (.refl _)
  · simp only [Heap.allocateBatch, hptr]
    rw [primaryBlocks_cons_of_ne hc]
    exact (List.perm_middle.symm.trans
      ((List.perm_cons_erase hm).symm.append_left _)).trans hi.blocks
  · simp only [Heap.allocateBatch, hptr]
    rw [largeHeaders_cons_of_ne hc]
    exact hi.inUse
  · intro ht x hx hxc
    rcases List.mem_cons.mp hx with rfl | hx
    · rfl
    · exact hi.tagged ht x hx hxc
  · intro hs
    refine ⟨(hi.untagged hs).1, ?_⟩
    intro x hx hl
    rcases List.mem_cons.mp hx with rfl | hx
    · exact absurd hl (by simp [Holding.ofBatch])
    · exact (hi.untagged hs).2 x hx hl

end ScudoMte
