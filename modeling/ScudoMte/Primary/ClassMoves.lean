import ScudoMte.Primary.BlockMoves

namespace ScudoMte.Primary.Region

variable {σ : Type*} {cfg : ClassConfig} {ops : BatchClassOps σ} {r r' : Region} {c : Nat} {s s' : σ}

/-- What the region of a class other than the batch class keeps. -/
structure ClassOk (cfg : ClassConfig) (c : Nat) (r : Region) : Prop where
  list : ListOk cfg.toPrimaryConfig r.blockList
  mem : MemOk cfg.toPrimaryConfig (cfg.getSizeByClassId c) r
  range : ∀ p ∈ freeOf r.blockList, InRange cfg.toPrimaryConfig p

theorem MemOk.carved_range {cfg : PrimaryConfig} {size p : Nat} (h : MemOk cfg size r)
    (hp : p ∈ r.carved cfg size) : InRange cfg p := by
  obtain ⟨i, hi, rfl⟩ := List.mem_map.mp hp
  have hpos : 0 < size := Nat.pos_of_ne_zero fun h0 => by
    rw [h0, Nat.div_zero] at hi
    exact absurd (List.mem_range.mp hi) (Nat.not_lt_zero i)
  have hlt : i * size < r.allocatedUser :=
    lt_of_lt_of_le (Nat.mul_lt_mul_of_pos_right (List.mem_range.mp hi) hpos)
      (Nat.div_mul_le_self _ _)
  have hle := h.le
  have hin := h.inRegion
  rw [InRange, Nat.shiftRight_eq_div_pow]
  refine Nat.div_lt_of_lt_mul (lt_of_lt_of_le (by omega : i * size < 2^cfg.regionSizeLog) ?_)
  rw [← Nat.pow_add]
  exact Nat.pow_le_pow_right (by decide) (by omega)

/-- What is taken from a region, and what stays in it, is in its range. -/
theorem Moved.range {cfg : PrimaryConfig} {size : Nat} {given taken : List Nat}
    (h : Moved cfg size r r' given taken) (hmem : MemOk cfg size r')
    (hgiven : ∀ p ∈ given, InRange cfg p) (hfree : ∀ p ∈ freeOf r.blockList, InRange cfg p) :
    (∀ p ∈ taken, InRange cfg p) ∧ ∀ p ∈ freeOf r'.blockList, InRange cfg p := by
  have hall : ∀ p ∈ taken ++ (freeOf r'.blockList ++ r.carved cfg size), InRange cfg p := by
    intro p hp
    rcases List.mem_append.mp (h.blocks.mem_iff.mp hp) with hp | hp
    · exact hgiven p hp
    · rcases List.mem_append.mp hp with hp | hp
      · exact hfree p hp
      · exact hmem.carved_range hp
  refine ⟨fun p hp => hall p (List.mem_append_left _ hp), fun p hp => hall p ?_⟩
  exact List.mem_append_right _ (List.mem_append_left _ hp)

/-- The counters after a push. -/
theorem pushBlocksImpl_counters {cfg : PrimaryConfig} {array : List Nat} {sameGroup : Bool}
    (h : r.pushBlocksImpl cfg ops array sameGroup s = some (r', s')) :
    r'.poppedBlocks = r.poppedBlocks ∧
      r'.pushedBlocks = r.pushedBlocks + BitVec.ofNat 64 array.length ∧ r'.memory = r.memory := by
  obtain ⟨⟨blockList, s1⟩, -, hret⟩ := Option.bind_eq_some_iff.mp h
  cases hret
  exact ⟨rfl, rfl, rfl⟩

theorem pushBlocks_moved {array : List Nat}
    (h : r.pushBlocks cfg.toPrimaryConfig ops array s = some (r', s')) (hok : ClassOk cfg c r)
    (hne : array ≠ []) (hrange : ∀ p ∈ array, InRange cfg.toPrimaryConfig p) :
    ClassOk cfg c r' ∧
      Moved cfg.toPrimaryConfig (cfg.getSizeByClassId c) r r' array [] := by
  obtain ⟨hlist, hperm⟩ := pushBlocks_ok h hok.list hne hrange
  have himpl : r.pushBlocksImpl cfg.toPrimaryConfig ops (prepareArray cfg.toPrimaryConfig array).1
    (prepareArray cfg.toPrimaryConfig array).2 s = some (r', s') := h
  obtain ⟨hpopped, hpushed, hmemory⟩ := pushBlocksImpl_counters himpl
  have hmem := hok.mem.congr hmemory
  have hlength := (prepareArray_spec hrange).1.length_eq
  have hmoved : Moved cfg.toPrimaryConfig (cfg.getSizeByClassId c) r r' array [] := by
    refine ⟨?_, ?_, place_of_memory hmemory⟩
    · simp only [memory, Prod.mk.injEq] at hmemory
      rw [freeOf_eq hlist, freeOf_eq hok.list, List.nil_append, ← List.append_assoc, carved, carved,
        hmemory.2.2.2]
      exact hperm.append_right _
    · rw [hpopped, hpushed, hlength, List.length_nil]
      grind
  exact ⟨⟨hlist, hmem, (hmoved.range hmem hrange hok.range).2⟩, hmoved⟩

theorem popBlocksImpl_counters {cfg : PrimaryConfig} (h : ListOk cfg r.blockList)
    (maxBlockCount : Nat) (s : σ) :
    (r.popBlocksImpl ops false maxBlockCount s).2.1.pushedBlocks = r.pushedBlocks ∧
      (r.popBlocksImpl ops false maxBlockCount s).2.1.poppedBlocks = r.poppedBlocks +
        BitVec.ofNat 64 (r.popBlocksImpl ops false maxBlockCount s).1.length ∧
      (r.popBlocksImpl ops false maxBlockCount s).2.1.memory = r.memory := by
  cases hlist : r.blockList with
  | nil =>
    simp only [popBlocksImpl, hlist, List.length_nil]
    refine ⟨trivial, ?_, trivial⟩
    grind
  | cons bg groups =>
    rw [hlist] at h
    obtain ⟨b, batches, hbatches⟩ :=
      List.exists_cons_of_ne_nil (h.ok bg List.mem_cons_self).batches_ne
    have hlength : b.blocks.length - (b.blocks.length - min maxBlockCount b.blocks.length) =
        min maxBlockCount b.blocks.length := by omega
    simp only [popBlocksImpl, hlist, hbatches, Bool.false_eq_true, if_false]
    split
    · split <;> simp only [List.length_drop, hlength, memory, and_self]
    · simp only [List.length_drop, hlength, memory, and_self]

theorem popBlocksImpl_moves {cfg : PrimaryConfig} (size : Nat) (h : ListOk cfg r.blockList)
    (maxBlockCount : Nat) (s : σ) :
    Moved cfg size r (r.popBlocksImpl ops false maxBlockCount s).2.1 []
      (r.popBlocksImpl ops false maxBlockCount s).1 := by
  obtain ⟨hlist, hperm⟩ := @popBlocksImpl_ok σ cfg ops r h maxBlockCount s
  obtain ⟨hpushed, hpopped, hmemory⟩ := @popBlocksImpl_counters σ ops r cfg h maxBlockCount s
  refine ⟨?_, ?_, place_of_memory hmemory⟩
  · simp only [memory, Prod.mk.injEq] at hmemory
    rw [freeOf_eq hlist, freeOf_eq h, List.nil_append, ← List.append_assoc, carved, carved,
      hmemory.2.2.2]
    exact hperm.symm.append_right _
  · rw [hpopped, hpushed, List.length_nil]
    grind

theorem popBlocksImpl_moved (hok : ClassOk cfg c r) (maxBlockCount : Nat) (s : σ) :
    ClassOk cfg c (r.popBlocksImpl ops false maxBlockCount s).2.1 ∧
      Moved cfg.toPrimaryConfig (cfg.getSizeByClassId c) r
        (r.popBlocksImpl ops false maxBlockCount s).2.1 []
        (r.popBlocksImpl ops false maxBlockCount s).1 := by
  have hlist := (@popBlocksImpl_ok σ cfg.toPrimaryConfig ops r hok.list maxBlockCount s).1
  have hmem := hok.mem.congr (@popBlocksImpl_counters σ ops r _ hok.list maxBlockCount s).2.2
  have hmoved := @popBlocksImpl_moves σ ops r _ (cfg.getSizeByClassId c) hok.list maxBlockCount s
  exact ⟨⟨hlist, hmem, (hmoved.range hmem nofun hok.range).2⟩, hmoved⟩

/-- The carved blocks are pushed. -/
theorem pushCarved_counters {cfg : PrimaryConfig} {segments : List (List Nat)}
    (h : pushCarved cfg ops segments r s = some (r', s')) :
    r'.poppedBlocks = r.poppedBlocks ∧
      r'.pushedBlocks = r.pushedBlocks + BitVec.ofNat 64 segments.flatten.length ∧
      r'.memory = r.memory := by
  induction segments generalizing r s with
  | nil =>
    cases h
    refine ⟨rfl, ?_, rfl⟩
    rw [List.flatten_nil, List.length_nil]
    grind
  | cons segment segments ih =>
    have hperm := shuffle_perm segment r.randState
    rw [pushCarved] at h
    generalize shuffle segment r.randState = shuffled at h hperm
    obtain ⟨array, randState⟩ := shuffled
    obtain ⟨⟨r1, s1⟩, hpush, h⟩ := Option.bind_eq_some_iff.mp h
    obtain ⟨hpopped, hpushed, hmemory⟩ := ih h
    obtain ⟨hpopped1, hpushed1, hmemory1⟩ := pushBlocksImpl_counters hpush
    refine ⟨hpopped.trans hpopped1, ?_, hmemory.trans hmemory1⟩
    rw [hpushed, hpushed1, hperm.length_eq, List.flatten_cons, List.length_append, BitVec.ofNat_add]
    grind

theorem populate_moved {maxCount maxBlockCount : Nat} {remapped : Bool} {toArray : List Nat}
    (hc : c < cfg.numClasses)
    (h : r.populateFreeListAndPopBlocks cfg.toPrimaryConfig ops (cfg.getSizeByClassId c) maxCount
      maxBlockCount remapped s = some (toArray, r', s')) (hok : ClassOk cfg c r) :
    ClassOk cfg c r' ∧
      Moved cfg.toPrimaryConfig (cfg.getSizeByClassId c) r r' [] toArray := by
  have hsize := (cfg.scale_dvd c hc).2
  obtain ⟨hmem, hlist, hallocated, hpopped, hpushed, hplace⟩ :=
    mapForBlocks_spec hok.mem maxCount remapped
  rw [populateFreeListAndPopBlocks] at h
  generalize r.mapForBlocks cfg.toPrimaryConfig (cfg.getSizeByClassId c) maxCount remapped = out at *
  obtain ⟨r1, mapped⟩ := out
  simp only at hmem hlist hallocated hpopped hpushed hplace
  have hok1 : ListOk cfg.toPrimaryConfig r1.blockList := hlist ▸ hok.list
  cases mapped with
  | false =>
    cases h
    exact ⟨⟨hok1, hmem, hlist ▸ hok.range⟩, .of_eq hlist hallocated hpopped hpushed hplace⟩
  | true =>
    have hcarve := hmem.carve (cfg.maxNumBatches * maxCount)
    simp only [Bool.not_true, Bool.false_eq_true, if_false] at h
    generalize min (cfg.maxNumBatches * maxCount)
      ((r1.mappedUser - r1.allocatedUser) / cfg.getSizeByClassId c) = n at h hcarve
    obtain ⟨⟨r2, s2⟩, hpush, hret⟩ := Option.bind_eq_some_iff.mp h
    obtain ⟨hok2, hperm⟩ := pushCarved_ok hpush hok1 fun segment hs =>
      ⟨KeyRuns.ne_nil_of_mem_runs hs, KeyRuns.key_eq_of_mem_runs hs⟩
    obtain ⟨hpopped2, hpushed2, hmemory2⟩ := pushCarved_counters hpush
    rw [segmentsOf_flatten] at hperm hpushed2
    have hmoved2 : Moved cfg.toPrimaryConfig (cfg.getSizeByClassId c) r1 r2
        (r1.carvedBlocks cfg.toPrimaryConfig (cfg.getSizeByClassId c) n) [] := by
      have hplace2 := place_of_memory hmemory2
      simp only [memory, Prod.mk.injEq] at hmemory2
      refine ⟨?_, ?_, hplace2⟩
      · rw [freeOf_eq hok2, freeOf_eq hok1, List.nil_append, ← List.append_assoc, carved, carved,
          hmemory2.2.2.2]
        exact hperm.append_right _
      · rw [hpopped2, hpushed2, List.length_nil]
        grind
    have hok3 := (@popBlocksImpl_ok σ cfg.toPrimaryConfig ops r2 hok2 maxBlockCount s2).1
    have hmemory3 := (@popBlocksImpl_counters σ ops r2 _ hok2 maxBlockCount s2).2.2
    have hmoved3 :=
      @popBlocksImpl_moves σ ops r2 _ (cfg.getSizeByClassId c) hok2 maxBlockCount s2
    cases hret
    generalize r2.popBlocksImpl ops false maxBlockCount s2 = popped at *
    obtain ⟨toArray, r3, s3⟩ := popped
    have hsame := hmemory3.trans hmemory2
    simp only [memory, Prod.mk.injEq] at hsame
    have hmoved := Moved.populated hmem hsize hlist hallocated hpopped hpushed hplace hmoved2
      hmoved3 hsame.2.2.2
    have hmem' : MemOk cfg.toPrimaryConfig (cfg.getSizeByClassId c) { r3 with
        pushedBlocks := r3.pushedBlocks - BitVec.ofNat 64 n
        allocatedUser := r3.allocatedUser + cfg.getSizeByClassId c * n } := by
      refine hcarve.congr ?_
      simp only [memory, Prod.mk.injEq]
      exact ⟨hsame.1, hsame.2.1, hsame.2.2.1, by rw [hsame.2.2.2]⟩
    exact ⟨⟨hok3, hmem', (hmoved.range hmem' (fun _ hp => absurd hp List.not_mem_nil) hok.range).2⟩, hmoved⟩

theorem popBlocks_ok {maxBlockCount : Nat} {remapped : Bool} {toArray : List Nat}
    (hc : c < cfg.numClasses)
    (h : r.popBlocks cfg ops c maxBlockCount remapped s = some (toArray, r', s'))
    (hok : ClassOk cfg c r) :
    ClassOk cfg c r' ∧ Moved cfg.toPrimaryConfig (cfg.getSizeByClassId c) r r' [] toArray := by
  rw [popBlocks] at h
  simp only at h
  split at h
  · cases h
    exact popBlocksImpl_moved hok maxBlockCount s
  · split at h
    · cases h
      exact ⟨hok, .refl r⟩
    · exact populate_moved hc h hok

theorem popBlocksImpl_length {cfg : PrimaryConfig} (h : ListOk cfg r.blockList) (maxBlockCount : Nat)
    (s : σ) : (r.popBlocksImpl ops false maxBlockCount s).1.length ≤ maxBlockCount := by
  cases hlist : r.blockList with
  | nil =>
    simp only [popBlocksImpl, hlist]
    exact Nat.zero_le _
  | cons bg groups =>
    rw [hlist] at h
    obtain ⟨b, batches, hbatches⟩ :=
      List.exists_cons_of_ne_nil (h.ok bg List.mem_cons_self).batches_ne
    simp only [popBlocksImpl, hlist, hbatches, Bool.false_eq_true, if_false]
    split
    · split <;>
      · rw [List.length_drop]
        omega
    · rw [List.length_drop]
      omega

theorem popBlocks_length {maxBlockCount : Nat} {remapped : Bool} {toArray : List Nat}
    (h : r.popBlocks cfg ops c maxBlockCount remapped s = some (toArray, r', s'))
    (hok : ClassOk cfg c r) : toArray.length ≤ maxBlockCount := by
  rw [popBlocks] at h
  simp only at h
  split at h
  · cases h
    exact popBlocksImpl_length hok.list maxBlockCount s
  · split at h
    · cases h
      exact Nat.zero_le _
    · rw [populateFreeListAndPopBlocks] at h
      have hlist := @mapForBlocks_blockList cfg.toPrimaryConfig r (cfg.getSizeByClassId c)
        (cfg.getMaxCached c) remapped
      generalize r.mapForBlocks cfg.toPrimaryConfig (cfg.getSizeByClassId c) (cfg.getMaxCached c)
        remapped = out at h hlist
      obtain ⟨r1, mapped⟩ := out
      cases mapped with
      | false =>
        cases h
        exact Nat.zero_le _
      | true =>
        have hok1 : ListOk cfg.toPrimaryConfig r1.blockList := by
          rw [show r1.blockList = r.blockList from hlist]
          exact hok.list
        obtain ⟨⟨r2, s2⟩, hpush, hret⟩ := Option.bind_eq_some_iff.mp h
        have hok2 := (pushCarved_ok hpush hok1 fun segment hs =>
          ⟨KeyRuns.ne_nil_of_mem_runs hs, KeyRuns.key_eq_of_mem_runs hs⟩).1
        cases hret
        exact popBlocksImpl_length hok2 maxBlockCount s2

theorem parted_all (r : Region) : Parted r { r with blockList := [] } r.blockList := by
  refine ⟨?_, rfl, rfl, rfl, rfl⟩
  rw [freeOf_nil, List.nil_append]

theorem parted_collect {cfg : PrimaryConfig} (env : ReleaseConfig) (blockSize : Nat)
    (h : ListOk cfg r.blockList) :
    Parted r (r.collectGroupsToRelease cfg env blockSize).2
      (r.collectGroupsToRelease cfg env blockSize).1 := by
  obtain ⟨hreleased, hkept, hperm⟩ := collectGroupsToRelease_ok env blockSize h
  refine ⟨?_, rfl, rfl, rfl, rfl⟩
  rw [freeOf_eq h, freeOf_eq hreleased, freeOf_eq hkept]
  exact hperm

/-- What was extracted is back in the list. -/
theorem parted_merge {cfg : PrimaryConfig} {groups : List BatchGroup} (s : σ)
    (h : ListOk cfg r.blockList) (hgroups : ListOk cfg groups) :
    Parted { r with blockList := (mergeGroupsToReleaseBack ops r.blockList groups s).1 } r groups := by
  obtain ⟨hlist, hperm⟩ := @mergeGroupsToReleaseBack_ok σ cfg ops r.blockList groups s h hgroups
  refine ⟨?_, rfl, rfl, rfl, rfl⟩
  rw [freeOf_eq h, freeOf_eq hgroups]
  simp only
  rw [freeOf_eq hlist]
  exact hperm

/-- The region keeps what it has without the groups. -/
theorem ClassOk.parted {groups : List BatchGroup} (h : ClassOk cfg c r) (hparted : Parted r r' groups)
    (hlist : ListOk cfg.toPrimaryConfig r'.blockList) (hmemory : r'.memory = r.memory) :
    ClassOk cfg c r' ∧ ∀ p ∈ freeOf groups, InRange cfg.toPrimaryConfig p := by
  have hall : ∀ p ∈ freeOf r'.blockList ++ freeOf groups, InRange cfg.toPrimaryConfig p :=
    fun p hp => h.range p (hparted.blocks.mem_iff.mpr hp)
  exact ⟨⟨hlist, h.mem.congr hmemory, fun p hp => hall p (List.mem_append_left _ hp)⟩,
    fun p hp => hall p (List.mem_append_right _ hp)⟩

end ScudoMte.Primary.Region
