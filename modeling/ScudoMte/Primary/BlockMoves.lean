import ScudoMte.Primary.BatchBlocks

namespace ScudoMte.Primary.Region

variable {cfg : ClassConfig} {r r' : Region}

theorem pushBatchClassBlocks_moved (size : Nat) {array : List Nat}
    (h : BatchClassList (cfg.getMaxCached batchClassId) r.blockList) (hne : array ≠ []) :
    BatchClassList (cfg.getMaxCached batchClassId)
        (r.pushBatchClassBlocks (cfg.getMaxCached batchClassId) array).blockList ∧
      Moved cfg.toPrimaryConfig size r
        (r.pushBatchClassBlocks (cfg.getMaxCached batchClassId) array) array [] := by
  obtain ⟨hlist, hperm⟩ := pushBatchClassBlocks_list (two_le_getMaxCached cfg) h hne
  refine ⟨hlist, ?_, ?_, rfl⟩
  · rw [List.nil_append, ← List.append_assoc]
    exact hperm.append_right _
  · simp only [pushBatchClassBlocks, List.length_nil]
    grind

/-- The first batch is popped, or a group without one. -/
theorem popBatchClassBlocks_moved (cfg : PrimaryConfig) (size : Nat) {max : Nat}
    (h : BatchClassList max r.blockList) :
    BatchClassList max r.popBatchClassBlocks.2.blockList ∧
      Moved cfg size r r.popBatchClassBlocks.2 [] r.popBatchClassBlocks.1 ∧
      r.popBatchClassBlocks.2.memory = r.memory := by
  rcases h with hnil | ⟨bg, hbg, hok⟩
  · simp only [popBatchClassBlocks, popBlocksImpl, hnil]
    exact ⟨.inl rfl, .refl r, trivial⟩
  · rcases hok.batches with hnil | hself
    · simp only [popBatchClassBlocks, popBlocksImpl, hbg, hnil]
      refine ⟨.inl rfl, ⟨?_, ?_, rfl⟩, rfl⟩
      · rw [hbg, freeOf_cons, BatchGroup.freeBlocks, if_pos hnil, freeOf_nil, List.append_nil]
        rfl
      · simp only [List.length_nil, List.length_singleton]
        grind
    · obtain ⟨b, batches, hbatches⟩ := List.exists_cons_of_ne_nil hself.ne
      have hfree : bg.freeBlocks = b.blocks ++ batches.flatMap Batch.blocks := by
        rw [BatchGroup.freeBlocks, if_neg hself.ne, BatchGroup.blocks, hbatches, List.flatMap_cons]
      have hcounters : ∀ popped pushed : BitVec 64, popped + BitVec.ofNat 64 b.blocks.length - pushed +
          BitVec.ofNat 64 0 = popped - pushed + BitVec.ofNat 64 b.blocks.length := by
        intro popped pushed
        grind
      simp only [popBatchClassBlocks, popBlocksImpl, hbg, hbatches, if_true, Nat.sub_self,
        List.take_zero, List.drop_zero]
      split
      · next hnil =>
        refine ⟨.inl rfl, ⟨?_, hcounters _ _, rfl⟩, rfl⟩
        rw [hbg, freeOf_cons, hfree, hnil, List.flatMap_nil, freeOf_nil, List.append_nil,
          List.append_nil]
        rfl
      · next hne =>
        refine ⟨.inr ⟨_, rfl, hok.max_eq, .inr ⟨hne, ?_, ?_, ?_⟩⟩, ⟨?_, hcounters _ _, rfl⟩, rfl⟩
        · exact fun b' hb' => hself.self b' (hbatches ▸ List.mem_cons_of_mem _ hb')
        · exact fun b' hb' => hself.le b' (hbatches ▸ List.mem_cons_of_mem _ hb')
        · obtain ⟨next, batches, rfl⟩ := List.exists_cons_of_ne_nil hne
          have hlast := hself.last
          rw [hbatches, List.getLast?_cons_cons] at hlast
          exact hlast
        · rw [hbg, freeOf_cons, freeOf_cons, hfree, freeOf_nil, List.append_nil, List.append_nil,
            BatchGroup.freeBlocks, if_neg hne, BatchGroup.blocks, List.append_assoc]
          rfl

theorem popBatchClassBlocks_length {max : Nat} (hmax : 0 < max) (h : BatchClassList max r.blockList) :
    r.popBatchClassBlocks.1.length ≤ max := by
  rcases h with hnil | ⟨bg, hbg, hok⟩
  · simp only [popBatchClassBlocks, popBlocksImpl, hnil]
    exact Nat.zero_le _
  · rcases hok.batches with hnil | hself
    · simp only [popBatchClassBlocks, popBlocksImpl, hbg, hnil]
      exact hmax
    · obtain ⟨b, batches, hbatches⟩ := List.exists_cons_of_ne_nil hself.ne
      have hle := hself.le b (hbatches ▸ List.mem_cons_self)
      simp only [popBatchClassBlocks, popBlocksImpl, hbg, hbatches, if_true, Nat.sub_self,
        List.take_zero, List.drop_zero]
      split <;> exact hle

/-- Only the mapped memory grows, or the region is exhausted. -/
theorem mapForBlocks_spec {size : Nat} (h : MemOk cfg.toPrimaryConfig size r) (maxCount : Nat)
    (remapped : Bool) :
    let out := r.mapForBlocks cfg.toPrimaryConfig size maxCount remapped
    MemOk cfg.toPrimaryConfig size out.1 ∧ out.1.blockList = r.blockList ∧
      out.1.allocatedUser = r.allocatedUser ∧ out.1.poppedBlocks = r.poppedBlocks ∧
      out.1.pushedBlocks = r.pushedBlocks ∧ out.1.place = r.place := by
  rw [mapForBlocks]
  simp only
  split
  · split
    · exact ⟨h.congr rfl, rfl, rfl, rfl, rfl, rfl⟩
    · next hroom =>
      split
      · exact ⟨h, rfl, rfl, rfl, rfl, rfl⟩
      · refine ⟨⟨h.dvd, h.le.trans (Nat.le_add_right _ _), ?_⟩, rfl, rfl, rfl, rfl, rfl⟩
        simp only
        omega
  · exact ⟨h, rfl, rfl, rfl, rfl, rfl⟩

/-- Blocks are carved from what is mapped. -/
theorem MemOk.carve {size : Nat} (h : MemOk cfg.toPrimaryConfig size r) (n : Nat) :
    MemOk cfg.toPrimaryConfig size { r with
      allocatedUser := r.allocatedUser + size * min n ((r.mappedUser - r.allocatedUser) / size) } := by
  have hle := h.le
  have hmul : size * min n ((r.mappedUser - r.allocatedUser) / size) ≤
      r.mappedUser - r.allocatedUser :=
    (Nat.mul_le_mul_left _ (Nat.min_le_right _ _)).trans (Nat.mul_div_le _ _)
  refine ⟨(Nat.dvd_add_right h.dvd).mpr (Nat.dvd_mul_right _ _), ?_, h.inRegion⟩
  simp only
  omega

/-- Where a region has a page for the batch class, it has room for the blocks of a refill. -/
theorem mapForBlocks_room (h : MemOk cfg.toPrimaryConfig (cfg.getSizeByClassId batchClassId) r)
    (remapped : Bool) :
    let out := r.mapForBlocks cfg.toPrimaryConfig (cfg.getSizeByClassId batchClassId)
      (cfg.getMaxCached batchClassId) remapped
    out.2 = true → cfg.getMaxCached batchClassId * cfg.getSizeByClassId batchClassId ≤
      out.1.mappedUser - out.1.allocatedUser := by
  have hpos := (cfg.scale_dvd 0 cfg.batchClass_lt).2
  have hbytes : cfg.getMaxCached batchClassId * cfg.getSizeByClassId batchClassId ≤ 2^32 := by
    have htwo := cfg.two_le_batch.2
    have hle : cfg.getMaxCached batchClassId ≤ 2^cfg.maxBytesCachedLog / cfg.getSizeByClassId 0 := by
      have hhint : 2 ≤ 2^cfg.maxBytesCachedLog / cfg.getSizeByClassId 0 :=
        (Nat.le_div_iff_mul_le hpos).mpr htwo
      rw [ClassConfig.getMaxCached, ClassConfig.getMaxCachedHint, batchClassId, Nat.one_shiftLeft]
      omega
    have hlog : 2^cfg.maxBytesCachedLog ≤ 2^32 :=
      Nat.pow_le_pow_right (by decide) cfg.maxBytesCachedLog_lt.le
    exact ((Nat.mul_le_mul_right _ hle).trans (Nat.div_mul_le_self _ _)).trans hlog
  generalize cfg.getMaxCached batchClassId = maxCount at hbytes ⊢
  generalize cfg.getSizeByClassId batchClassId = size at h hbytes ⊢
  have hregion : 2^cfg.regionSizeLog ≤ 2^62 :=
    Nat.pow_le_pow_right (by decide) (Nat.le_of_lt_succ cfg.regionSizeLog_lt)
  have hincrement : 2^cfg.mapSizeIncrementLog ≤ 2^61 :=
    Nat.pow_le_pow_right (by decide) (Nat.le_of_lt_succ cfg.mapSizeIncrementLog_lt)
  have hle := h.le
  have hin := h.inRegion
  rw [mapForBlocks]
  simp only
  split
  · split
    · simp
    · split
      · simp
      · intro
        have hk : cfg.mapSizeIncrementLog ≤ 64 := by
          have hlt := cfg.mapSizeIncrementLog_lt
          omega
        have hround := (roundUp_spec (r.allocatedUser + maxCount * size - r.mappedUser)
          cfg.mapSizeIncrementLog hk (by omega)).1
        rw [← cfg.mapSizeIncrement_eq] at hround
        simp only
        omega
  · intro
    simp only
    omega

/-- The blocks that are carved are pushed, and then some of the free ones are popped. -/
theorem Moved.populated {size n : Nat} {r1 r2 r3 : Region} {taken : List Nat}
    (hmem : MemOk cfg.toPrimaryConfig size r1) (hsize : 0 < size)
    (hlist : r1.blockList = r.blockList) (hallocated : r1.allocatedUser = r.allocatedUser)
    (hpopped : r1.poppedBlocks = r.poppedBlocks) (hpushed : r1.pushedBlocks = r.pushedBlocks)
    (hplace : r1.place = r.place)
    (hpush : Moved cfg.toPrimaryConfig size r1 r2 (r1.carvedBlocks cfg.toPrimaryConfig size n) [])
    (hpop : Moved cfg.toPrimaryConfig size r2 r3 [] taken)
    (hsame : r3.allocatedUser = r1.allocatedUser) :
    Moved cfg.toPrimaryConfig size r { r3 with
      pushedBlocks := r3.pushedBlocks - BitVec.ofNat 64 n
      allocatedUser := r3.allocatedUser + size * n } [] taken := by
  obtain ⟨hblocks, hcounters, hplaced⟩ := hpush.trans hpop
  have hcarved := hmem.carvedBlocks_eq hsize n
  have hr3 : r3.carved cfg.toPrimaryConfig size = r1.carved cfg.toPrimaryConfig size := by
    rw [carved, carved, hsame]
  have hr : r.carved cfg.toPrimaryConfig size = r1.carved cfg.toPrimaryConfig size := by
    rw [carved, carved, hallocated]
  have hnew : ({ r3 with
      pushedBlocks := r3.pushedBlocks - BitVec.ofNat 64 n
      allocatedUser := r3.allocatedUser + size * n } : Region).carved cfg.toPrimaryConfig size =
      r1.carved cfg.toPrimaryConfig size ++ r1.carvedBlocks cfg.toPrimaryConfig size n := by
    rw [← hcarved, carved, carved]
    simp only [hsame]
  refine ⟨?_, ?_, hplaced.trans hplace⟩
  · rw [hnew, hr, ← hlist]
    rw [hr3] at hblocks
    refine List.perm_iff_count.mpr fun p => ?_
    have hcount := hblocks.count_eq p
    simp only [List.count_append, List.count_nil] at hcount ⊢
    omega
  · have hlength : (r1.carvedBlocks cfg.toPrimaryConfig size n).length = n := by
      rw [carvedBlocks, List.length_map, List.length_range]
    simp only [List.length_append, List.length_nil, hlength, Nat.add_zero, Nat.zero_add,
      hpopped, hpushed] at hcounters ⊢
    grind

/-- A refill of the batch class has blocks. -/
theorem carvedBlocks_ne_nil (hroom : cfg.getMaxCached batchClassId *
    cfg.getSizeByClassId batchClassId ≤ r.mappedUser - r.allocatedUser) :
    r.carvedBlocks cfg.toPrimaryConfig (cfg.getSizeByClassId batchClassId)
      (min (cfg.maxNumBatches * cfg.getMaxCached batchClassId)
        ((r.mappedUser - r.allocatedUser) / cfg.getSizeByClassId batchClassId)) ≠ [] := by
  have htwo := two_le_getMaxCached cfg
  have hpos := Nat.mul_pos cfg.maxNumBatches_pos (by omega : 0 < cfg.getMaxCached batchClassId)
  have hdiv := (Nat.le_div_iff_mul_le (cfg.scale_dvd 0 cfg.batchClass_lt).2).mpr hroom
  have hn := lt_min hpos (Nat.lt_of_lt_of_le (by omega) hdiv)
  rw [carvedBlocks, ne_eq, List.map_eq_nil_iff, List.range_eq_nil]
  exact hn.ne'

theorem populateBatchClass_ok (h : BatchClassOk cfg r) (remapped : Bool) :
    BatchClassOk cfg (r.populateBatchClass cfg remapped).2 ∧
      Moved cfg.toPrimaryConfig (cfg.getSizeByClassId batchClassId) r
        (r.populateBatchClass cfg remapped).2 [] (r.populateBatchClass cfg remapped).1 := by
  have hsize := (cfg.scale_dvd 0 cfg.batchClass_lt).2
  obtain ⟨hmem, hlist, hallocated, hpopped, hpushed, hplace⟩ :=
    mapForBlocks_spec h.mem (cfg.getMaxCached batchClassId) remapped
  have hroom := mapForBlocks_room h.mem remapped
  rw [populateBatchClass]
  generalize r.mapForBlocks cfg.toPrimaryConfig (cfg.getSizeByClassId batchClassId)
    (cfg.getMaxCached batchClassId) remapped = out at *
  obtain ⟨r1, mapped⟩ := out
  cases mapped with
  | false =>
    have hlist1 : BatchClassList (cfg.getMaxCached batchClassId) r1.blockList := hlist ▸ h.list
    exact ⟨⟨hlist1, hmem⟩, .of_eq hlist hallocated hpopped hpushed hplace⟩
  | true =>
    have hcarve := hmem.carve (cfg.maxNumBatches * cfg.getMaxCached batchClassId)
    simp only [Bool.not_true, Bool.false_eq_true, if_false]
    have hne := carvedBlocks_ne_nil (hroom rfl)
    generalize min (cfg.maxNumBatches * cfg.getMaxCached batchClassId)
      ((r1.mappedUser - r1.allocatedUser) / cfg.getSizeByClassId batchClassId) = n at hne hcarve ⊢
    have hlist1 : BatchClassList (cfg.getMaxCached batchClassId) r1.blockList := hlist ▸ h.list
    obtain ⟨hlist2, hpush⟩ :=
      pushBatchClassBlocks_moved (cfg.getSizeByClassId batchClassId) hlist1 hne
    obtain ⟨hlist3, hpop, hmemory⟩ :=
      popBatchClassBlocks_moved cfg.toPrimaryConfig (cfg.getSizeByClassId batchClassId) hlist2
    have hsame := hmemory.trans (show _ = r1.memory from rfl)
    refine ⟨⟨hlist3, hcarve.congr ?_⟩, ?_⟩
    · simp only [memory, Prod.mk.injEq] at hsame ⊢
      exact ⟨hsame.1, hsame.2.1, hsame.2.2.1, by rw [hsame.2.2.2]⟩
    · simp only [memory, Prod.mk.injEq] at hsame
      exact .populated hmem hsize hlist hallocated hpopped hpushed hplace hpush hpop hsame.2.2.2

theorem popBatchClass_length (h : BatchClassOk cfg r) (remapped : Bool) :
    (r.popBatchClass cfg remapped).1.length ≤ cfg.getMaxCached batchClassId := by
  have htwo := two_le_getMaxCached cfg
  rw [popBatchClass]
  simp only
  split
  · exact popBatchClassBlocks_length (by omega) h.list
  · split
    · exact Nat.zero_le _
    · obtain ⟨-, hlist, -⟩ := mapForBlocks_spec h.mem (cfg.getMaxCached batchClassId) remapped
      have hroom := mapForBlocks_room h.mem remapped
      rw [populateBatchClass]
      generalize r.mapForBlocks cfg.toPrimaryConfig (cfg.getSizeByClassId batchClassId)
        (cfg.getMaxCached batchClassId) remapped = out at *
      obtain ⟨r1, mapped⟩ := out
      cases mapped with
      | false => exact Nat.zero_le _
      | true =>
        have hlist1 : BatchClassList (cfg.getMaxCached batchClassId) r1.blockList := hlist ▸ h.list
        have hne := carvedBlocks_ne_nil (hroom rfl)
        exact popBatchClassBlocks_length (by omega) (pushBatchClassBlocks_list htwo hlist1 hne).1

theorem popBatchClass_ok (h : BatchClassOk cfg r) (remapped : Bool) :
    BatchClassOk cfg (r.popBatchClass cfg remapped).2 ∧
      Moved cfg.toPrimaryConfig (cfg.getSizeByClassId batchClassId) r
        (r.popBatchClass cfg remapped).2 [] (r.popBatchClass cfg remapped).1 := by
  obtain ⟨hlist, hmoved, hmemory⟩ :=
    popBatchClassBlocks_moved cfg.toPrimaryConfig (cfg.getSizeByClassId batchClassId) h.list
  rw [popBatchClass]
  simp only
  split
  · exact ⟨⟨hlist, h.mem.congr hmemory⟩, hmoved⟩
  · split
    · exact ⟨h, .refl r⟩
    · exact populateBatchClass_ok h remapped

end ScudoMte.Primary.Region
