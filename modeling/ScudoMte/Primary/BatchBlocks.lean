import ScudoMte.Primary.BatchClass
import ScudoMte.Primary.FreeListRuns

namespace ScudoMte.Primary

/-- The blocks that a group records. A group of the batch class without a batch is a block itself. -/
def BatchGroup.freeBlocks (bg : BatchGroup) : List Nat :=
  if bg.batches = [] then [bg.addr] else bg.blocks

def freeOf (groups : List BatchGroup) : List Nat := groups.flatMap BatchGroup.freeBlocks

@[simp] theorem freeOf_nil : freeOf [] = [] := rfl

@[simp] theorem freeOf_cons (bg : BatchGroup) (groups : List BatchGroup) :
    freeOf (bg :: groups) = bg.freeBlocks ++ freeOf groups := List.flatMap_cons

theorem freeOf_eq {cfg : PrimaryConfig} {groups : List BatchGroup} (h : ListOk cfg groups) :
    freeOf groups = blocksOf groups := by
  induction groups with
  | nil => rfl
  | cons bg groups ih =>
    have hne := (h.ok bg List.mem_cons_self).batches_ne
    rw [freeOf_cons, blocksOf_cons, BatchGroup.freeBlocks, if_neg hne,
      ih (h.sublist (List.sublist_cons_self bg groups))]

namespace Region

/-- All blocks that a region has been carved into. -/
def carved (cfg : PrimaryConfig) (size : Nat) (r : Region) : List Nat :=
  (List.range (r.allocatedUser / size)).map fun i => (i * size) >>> cfg.compactPtrScale

/-- Where the region is. -/
def place (r : Region) : Nat × Nat := (r.regionBeg, r.memMapBase)

/-- What was `given` to the region and what was `taken` from it, in the blocks and in the
counters. The region stays where it is. -/
structure Moved (cfg : PrimaryConfig) (size : Nat) (r r' : Region) (given taken : List Nat) :
    Prop where
  blocks : (taken ++ (freeOf r'.blockList ++ r.carved cfg size)).Perm
    (given ++ (freeOf r.blockList ++ r'.carved cfg size))
  counters : r'.poppedBlocks - r'.pushedBlocks + BitVec.ofNat 64 given.length =
    r.poppedBlocks - r.pushedBlocks + BitVec.ofNat 64 taken.length
  place : r'.place = r.place

variable {cfg : PrimaryConfig} {size : Nat} {r r' r'' : Region} {given taken given' taken' : List Nat}

theorem Moved.refl (r : Region) : Moved cfg size r r [] [] := ⟨.refl _, rfl, rfl⟩

theorem Moved.of_eq (hlist : r'.blockList = r.blockList)
    (hallocated : r'.allocatedUser = r.allocatedUser) (hpopped : r'.poppedBlocks = r.poppedBlocks)
    (hpushed : r'.pushedBlocks = r.pushedBlocks) (hplace : r'.place = r.place) :
    Moved cfg size r r' [] [] := by
  refine ⟨?_, ?_, hplace⟩
  · rw [hlist, carved, carved, hallocated]
  · rw [hpopped, hpushed]

theorem Moved.trans (h : Moved cfg size r r' given taken) (h' : Moved cfg size r' r'' given' taken') :
    Moved cfg size r r'' (given ++ given') (taken ++ taken') := by
  refine ⟨List.perm_iff_count.mpr fun p => ?_, ?_, h'.place.trans h.place⟩
  · have hcount := h.blocks.count_eq p
    have hcount' := h'.blocks.count_eq p
    simp only [List.count_append] at hcount hcount' ⊢
    omega
  · have hfirst := h.counters
    have hsecond := h'.counters
    rw [List.length_append, List.length_append, BitVec.ofNat_add, BitVec.ofNat_add]
    grind

/-- The groups are parted from the list of the region, which counts them as before. -/
structure Parted (r r' : Region) (groups : List BatchGroup) : Prop where
  blocks : (freeOf r.blockList).Perm (freeOf r'.blockList ++ freeOf groups)
  allocatedUser : r'.allocatedUser = r.allocatedUser
  poppedBlocks : r'.poppedBlocks = r.poppedBlocks
  pushedBlocks : r'.pushedBlocks = r.pushedBlocks
  place : r'.place = r.place

theorem Parted.refl (r : Region) : Parted r r [] := by
  refine ⟨?_, rfl, rfl, rfl, rfl⟩
  rw [freeOf_nil, List.append_nil]

/-- Blocks are named by their order in the region. -/
structure MemOk (cfg : PrimaryConfig) (size : Nat) (r : Region) : Prop where
  dvd : size ∣ r.allocatedUser
  le : r.allocatedUser ≤ r.mappedUser
  inRegion : r.regionBeg - r.memMapBase + r.mappedUser ≤ 2^cfg.regionSizeLog

/-- Where the region is and what of it is mapped and carved. -/
def memory (r : Region) : Nat × Nat × Nat × Nat :=
  (r.regionBeg, r.memMapBase, r.mappedUser, r.allocatedUser)

theorem place_of_memory (h : r'.memory = r.memory) : r'.place = r.place := by
  simp only [memory, Prod.mk.injEq] at h
  rw [place, place, h.1, h.2.1]

theorem MemOk.congr (h : MemOk cfg size r) (heq : r'.memory = r.memory) : MemOk cfg size r' := by
  simp only [memory, Prod.mk.injEq] at heq
  obtain ⟨hbeg, hbase, hmapped, hallocated⟩ := heq
  obtain ⟨hdvd, hle, hin⟩ := h
  rw [← hallocated] at hdvd hle
  rw [← hmapped] at hle hin
  rw [← hbeg, ← hbase] at hin
  exact ⟨hdvd, hle, hin⟩

/-- A block of the region. -/
def InRange (cfg : PrimaryConfig) (p : Nat) : Prop := p < 2^(cfg.regionSizeLog - cfg.compactPtrScale)

theorem MemOk.carvedBlocks_eq (h : MemOk cfg size r) (hsize : 0 < size) (n : Nat) :
    { r with allocatedUser := r.allocatedUser + size * n }.carved cfg size =
      r.carved cfg size ++ r.carvedBlocks cfg size n := by
  obtain ⟨k, hk⟩ := h.dvd
  have hdiv : (r.allocatedUser + size * n) / size = k + n := by
    rw [hk, ← Nat.mul_add, Nat.mul_div_cancel_left _ hsize]
  have hdiv' : r.allocatedUser / size = k := by rw [hk, Nat.mul_div_cancel_left _ hsize]
  rw [carved, carved, carvedBlocks, hdiv, hdiv', List.range_add, List.map_append, List.map_map]
  refine congrArg _ (List.map_congr_left fun i _ => ?_)
  rw [Function.comp_apply, hk, Nat.add_mul, Nat.mul_comm size k]

/-- Every batch is built in a block that it records, and the block of the group is recorded by the
last one. -/
structure SelfContained (maxCached groupAddr : Nat) (batches : List Batch) : Prop where
  ne : batches ≠ []
  self : ∀ b ∈ batches, b.addr ∈ b.blocks
  le : ∀ b ∈ batches, b.blocks.length ≤ maxCached
  last : ∀ b ∈ batches.getLast?, groupAddr ∈ b.blocks

theorem SelfContained.cons {max addr : Nat} {batches : List Batch} {b : Batch}
    (h : SelfContained max addr batches) (hself : b.addr ∈ b.blocks) (hle : b.blocks.length ≤ max) :
    SelfContained max addr (b :: batches) := by
  obtain ⟨cur, batches, rfl⟩ := List.exists_cons_of_ne_nil h.ne
  refine ⟨List.cons_ne_nil _ _, ?_, ?_, ?_⟩
  · exact List.forall_mem_cons.mpr ⟨hself, h.self⟩
  · exact List.forall_mem_cons.mpr ⟨hle, h.le⟩
  · rw [List.getLast?_cons_cons]
    exact h.last

/-- Blocks are added to the first batch. -/
theorem SelfContained.append {max addr : Nat} {batches : List Batch} {cur : Batch} {array : List Nat}
    (h : SelfContained max addr (cur :: batches)) (hle : cur.blocks.length + array.length ≤ max) :
    SelfContained max addr ({ cur with blocks := cur.blocks ++ array } :: batches) := by
  obtain ⟨hself, hselfs⟩ := List.forall_mem_cons.mp h.self
  refine ⟨List.cons_ne_nil _ _, ?_, ?_, ?_⟩
  · exact List.forall_mem_cons.mpr ⟨List.mem_append_left _ hself, hselfs⟩
  · refine List.forall_mem_cons.mpr ⟨?_, (List.forall_mem_cons.mp h.le).2⟩
    rw [List.length_append]
    exact hle
  · have hlast := h.last
    cases batches with
    | nil =>
      intro b hb
      cases hb
      exact List.mem_append_left _ (hlast cur rfl)
    | cons next batches =>
      rw [List.getLast?_cons_cons] at hlast ⊢
      exact hlast

theorem appendBatchClassBlocks_ok {max addr fuel : Nat} {batches : List Batch} {array : List Nat}
    (hmax : 0 < max) (hfuel : array.length ≤ fuel) (h : SelfContained max addr batches) :
    SelfContained max addr (appendBatchClassBlocks max fuel batches array) ∧
      ((appendBatchClassBlocks max fuel batches array).flatMap Batch.blocks).Perm
        (array ++ batches.flatMap Batch.blocks) := by
  induction fuel generalizing batches array with
  | zero =>
    rw [List.eq_nil_of_length_eq_zero (Nat.le_zero.mp hfuel)]
    exact ⟨h, .refl _⟩
  | succ fuel ih =>
    obtain ⟨cur, batches, rfl⟩ := List.exists_cons_of_ne_nil h.ne
    cases array with
    | nil => exact ⟨h, .refl _⟩
    | cons p array =>
      have hle := h.le cur List.mem_cons_self
      rw [List.length_cons] at hfuel
      simp only [appendBatchClassBlocks]
      split
      · -- the first batch is full
        generalize hn : min (max - 1) array.length = n
        have hnew : SelfContained max addr
            ({ addr := p, blocks := p :: array.take n } :: cur :: batches) := by
          refine h.cons List.mem_cons_self ?_
          rw [List.length_cons, List.length_take]
          omega
        obtain ⟨hok, hperm⟩ := @ih _ (array.drop n) (by
          rw [List.length_drop]
          omega) hnew
        refine ⟨hok, hperm.trans (List.perm_iff_count.mpr fun q => ?_)⟩
        have hsplit := congrArg (List.count q) (List.take_append_drop n array)
        simp only [List.flatMap_cons, List.count_append, List.count_cons] at hsplit ⊢
        omega
      · generalize hn : min (max - cur.blocks.length) (p :: array).length = n
        rw [List.length_cons] at hn
        have hnew : SelfContained max addr
            ({ cur with blocks := cur.blocks ++ (p :: array).take n } :: batches) := by
          refine h.append ?_
          rw [List.length_take, List.length_cons]
          omega
        obtain ⟨hok, hperm⟩ := @ih _ ((p :: array).drop n) (by
          rw [List.length_drop, List.length_cons]
          omega) hnew
        refine ⟨hok, hperm.trans (List.perm_iff_count.mpr fun q => ?_)⟩
        have hsplit := congrArg (List.count q) (List.take_append_drop n (p :: array))
        simp only [List.flatMap_cons, List.count_append] at hsplit ⊢
        omega

structure BatchClassGroup (maxCached : Nat) (bg : BatchGroup) : Prop where
  max_eq : bg.maxCachedPerBatch = maxCached
  batches : bg.batches = [] ∨ SelfContained maxCached bg.addr bg.batches

/-- The free list of the batch class has one group at most. -/
def BatchClassList (maxCached : Nat) (groups : List BatchGroup) : Prop :=
  groups = [] ∨ ∃ bg, groups = [bg] ∧ BatchClassGroup maxCached bg

/-- Blocks are pushed to a group. -/
theorem BatchClassGroup.push {max : Nat} {bg : BatchGroup} (array : List Nat) (hmax : 2 ≤ max)
    (h : BatchClassGroup max bg) : BatchClassGroup max (pushToBatchClassGroup bg array) ∧
      (pushToBatchClassGroup bg array).freeBlocks.Perm (array ++ bg.freeBlocks) := by
  rw [pushToBatchClassGroup]
  split
  · next hnil =>
    rw [hnil]
    exact ⟨h, .refl _⟩
  next hne =>
  have hfirst : SelfContained max bg.addr (firstBatches bg array).1 ∧
      ((firstBatches bg array).2 ++ (firstBatches bg array).1.flatMap Batch.blocks).Perm
        (array ++ bg.freeBlocks) := by
    rcases h.batches with hnil | hself
    · have hlast : array.dropLast ++ [array.getLastD 0] = array := by
        rw [List.getLastD_eq_getLast?, List.getLast?_eq_some_getLast hne, Option.getD_some,
          List.dropLast_concat_getLast]
      simp only [firstBatches, hnil, BatchGroup.freeBlocks, if_true]
      refine ⟨⟨List.cons_ne_nil _ _, ?_, ?_, ?_⟩, ?_⟩
      · exact List.forall_mem_singleton.mpr List.mem_cons_self
      · exact List.forall_mem_singleton.mpr hmax
      · intro b hb
        cases hb
        exact List.mem_cons_of_mem _ List.mem_cons_self
      · rw [List.flatMap_singleton, List.append_cons, hlast]
    · obtain ⟨b, batches, hbatches⟩ := List.exists_cons_of_ne_nil hself.ne
      rw [BatchGroup.freeBlocks, if_neg hself.ne, BatchGroup.blocks]
      rw [hbatches] at hself ⊢
      simp only [firstBatches, hbatches]
      exact ⟨hself, .refl _⟩
  obtain ⟨hself, hperm⟩ := hfirst
  obtain ⟨hok, hperm'⟩ := appendBatchClassBlocks_ok (by omega) (le_refl _) hself
  rw [← h.max_eq] at hok hperm'
  refine ⟨⟨h.max_eq, .inr (h.max_eq ▸ hok)⟩, ?_⟩
  rw [BatchGroup.freeBlocks, if_neg hok.ne]
  exact hperm'.trans hperm

/-- What the region of the batch class keeps. -/
structure BatchClassOk (cfg : ClassConfig) (r : Region) : Prop where
  list : BatchClassList (cfg.getMaxCached batchClassId) r.blockList
  mem : MemOk cfg.toPrimaryConfig (cfg.getSizeByClassId batchClassId) r

theorem two_le_getMaxCached (cfg : ClassConfig) : 2 ≤ cfg.getMaxCached batchClassId := by
  obtain ⟨hN, hsize⟩ := cfg.two_le_batch
  have hpos := (cfg.scale_dvd 0 cfg.batchClass_lt).2
  have hhint : 2 ≤ 2^cfg.maxBytesCachedLog / cfg.getSizeByClassId 0 :=
    (Nat.le_div_iff_mul_le hpos).mpr hsize
  rw [ClassConfig.getMaxCached, ClassConfig.getMaxCachedHint, batchClassId, Nat.one_shiftLeft]
  omega

/-- The pushed blocks are in the list. -/
theorem pushBatchClassBlocks_list {max : Nat} (hmax : 2 ≤ max) {r : Region} {array : List Nat}
    (h : BatchClassList max r.blockList) (hne : array ≠ []) :
    BatchClassList max (r.pushBatchClassBlocks max array).blockList ∧
      (freeOf (r.pushBatchClassBlocks max array).blockList).Perm (array ++ freeOf r.blockList) := by
  rcases h with hnil | ⟨bg, hbg, hok⟩
  · have hlast : array.dropLast ++ [array.getLastD 0] = array := by
      rw [List.getLastD_eq_getLast?, List.getLast?_eq_some_getLast hne, Option.getD_some,
        List.dropLast_concat_getLast]
    have hnew : BatchClassGroup max ⟨array.getLastD 0, 0, 0, [], max⟩ := ⟨rfl, .inl rfl⟩
    obtain ⟨hgroup, hperm⟩ := hnew.push array.dropLast hmax
    simp only [pushBatchClassBlocks, hnil, batchClassGroup, freeOf_cons, freeOf_nil, List.append_nil]
    refine ⟨.inr ⟨_, rfl, hgroup⟩, hperm.trans ?_⟩
    rw [BatchGroup.freeBlocks, if_pos rfl, hlast]
  · obtain ⟨hgroup, hperm⟩ := hok.push array hmax
    simp only [pushBatchClassBlocks, hbg, batchClassGroup, freeOf_cons, freeOf_nil, List.append_nil]
    exact ⟨.inr ⟨_, rfl, hgroup⟩, hperm⟩

end Region

end ScudoMte.Primary
