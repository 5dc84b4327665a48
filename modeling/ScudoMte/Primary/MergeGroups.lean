import ScudoMte.Primary.Groups

namespace ScudoMte.Primary

open Batches

variable {σ : Type*} {cfg : PrimaryConfig} {ops : BatchClassOps σ}

theorem BatchGroup.Ok.of_packed {bg : BatchGroup} (hmax : bg.maxCachedPerBatch = cfg.maxNumBlocksInBatch)
    (hne : bg.batches ≠ []) (hpacked : Packed bg.maxCachedPerBatch (batchBlocks bg.batches))
    (hhead : ∀ b ∈ bg.batches.head?, b.blocks ≠ [])
    (hin : ∀ p ∈ bg.blocks, cfg.compactPtrGroup p = bg.compactPtrGroupBase) : bg.Ok cfg :=
  ⟨⟨hmax, hne, hpacked, hin⟩,
    batch_ne_of_head (by rw [hmax]; exact cfg.maxNumBlocksInBatch_pos) hpacked hhead⟩

namespace Region

/-- The popped blocks leave the free list, which keeps its structure. -/
theorem popBlocksImpl_ok {r : Region} (h : ListOk cfg r.blockList) (maxBlockCount : Nat) (s : σ) :
    ListOk cfg (r.popBlocksImpl ops false maxBlockCount s).2.1.blockList ∧
      (blocksOf r.blockList).Perm ((r.popBlocksImpl ops false maxBlockCount s).1 ++
        blocksOf (r.popBlocksImpl ops false maxBlockCount s).2.1.blockList) := by
  cases hlist : r.blockList with
  | nil =>
    simp only [popBlocksImpl, hlist]
    exact ⟨⟨.nil, nofun⟩, .refl _⟩
  | cons bg groups =>
    rw [hlist] at h
    have hbg := h.ok bg List.mem_cons_self
    have hgroups := h.sublist (List.sublist_cons_self bg groups)
    obtain ⟨b, batches, hbatches⟩ := List.exists_cons_of_ne_nil hbg.batches_ne
    generalize hn : b.blocks.length - min maxBlockCount b.blocks.length = n
    have hsplit := List.take_append_drop n b.blocks
    have hpacked := hbg.packed
    have hin := hbg.inGroup
    rw [hbatches, batchBlocks, List.map_cons] at hpacked
    rw [blocks_eq, hbatches, batchBlocks, List.map_cons, List.flatten_cons] at hin
    have hok (bs : List Batch) (hne : bs ≠ [])
        (hp : Packed bg.maxCachedPerBatch (batchBlocks bs)) (hhead : ∀ b ∈ bs.head?, b.blocks ≠ [])
        (hsub : ∀ p ∈ (batchBlocks bs).flatten,
          p ∈ b.blocks ++ (List.map Batch.blocks batches).flatten) :
        ListOk cfg ({ bg with batches := bs } :: groups) := by
      refine ⟨List.pairwise_cons.mpr (List.pairwise_cons.mp h.ordered), fun bg' hbg' => ?_⟩
      cases hbg' with
      | tail _ hbg' => exact hgroups.ok bg' hbg'
      | head =>
        refine .of_packed hbg.max_eq hne hp hhead fun p hp => ?_
        rw [blocks_eq] at hp
        exact hin p (hsub p hp)
    simp only [popBlocksImpl, hlist, hbatches, Bool.false_eq_true, if_false, hn]
    split
    · next hleft =>
      rw [hleft, List.nil_append] at hsplit
      split
      · next hnil =>
        refine ⟨hgroups, ?_⟩
        rw [hsplit, blocksOf_cons, blocks_eq, hbatches, hnil, batchBlocks, List.map_singleton,
          List.flatten_singleton]
      · next hne =>
        obtain ⟨c, batches, rfl⟩ := List.exists_cons_of_ne_nil hne
        refine ⟨hok _ hne hpacked.tail ?_ ?_, ?_⟩
        · intro d hd
          cases hd
          exact hbg.batch_ne c (by rw [hbatches]; simp)
        · exact fun p hp => List.mem_append_right _ hp
        · rw [hsplit, blocksOf_cons, blocksOf_cons, blocks_eq, blocks_eq, hbatches, batchBlocks,
            batchBlocks, List.map_cons, List.flatten_cons, List.append_assoc]
    · next hleft =>
      have hlen : (b.blocks.take n).length ≤ bg.maxCachedPerBatch :=
        (List.length_take_le' n b.blocks).trans (packed_cons.mp hpacked).1
      refine ⟨hok _ (List.cons_ne_nil _ _) (hpacked.head hlen) ?_ ?_, ?_⟩
      · intro d hd
        cases hd
        exact hleft
      · intro p hp
        rcases List.mem_append.mp hp with hp | hp
        · exact List.mem_append_left _ (List.mem_of_mem_take hp)
        · exact List.mem_append_right _ hp
      · refine List.perm_iff_count.mpr fun p => ?_
        have hcount := congrArg (List.count p) hsplit
        simp only [blocksOf_cons, blocks_eq, hbatches, batchBlocks, List.map_cons, List.flatten_cons,
          List.count_append] at hcount ⊢
        omega

end Region

/-- Two groups of one base make one, with the blocks of both. -/
theorem mergeBatches_ok {bg cur : BatchGroup} (hbg : bg.Ok cfg) (hcur : cur.Ok cfg)
    (hbase : bg.compactPtrGroupBase = cur.compactPtrGroupBase) :
    (mergeBatches bg cur).1.Ok cfg ∧
      (mergeBatches bg cur).1.compactPtrGroupBase = cur.compactPtrGroupBase ∧
      (mergeBatches bg cur).1.blocks.Perm (bg.blocks ++ cur.blocks) := by
  obtain ⟨front, batches, hbatches⟩ := List.exists_cons_of_ne_nil hbg.batches_ne
  obtain ⟨nonFull, curBatches, hcurBatches⟩ := List.exists_cons_of_ne_nil hcur.batches_ne
  have hpacked := hbg.packed
  have hcurPacked := hcur.packed
  have hfront := hbg.batch_ne front (by rw [hbatches]; exact List.mem_cons_self)
  have hnonFull := hcur.batch_ne nonFull (by rw [hcurBatches]; exact List.mem_cons_self)
  rw [hbatches, batchBlocks, List.map_cons] at hpacked
  rw [hcurBatches, batchBlocks, List.map_cons, hcur.max_eq, ← hbg.max_eq] at hcurPacked
  obtain ⟨hnonFullLe, hfull⟩ := packed_cons.mp hcurPacked
  have hfrontLe := (packed_cons.mp hpacked).1
  -- whatever the batches are, they are those of a group if they hold the blocks of both
  have hok (bs : List Batch) (n : Nat) (hne : bs ≠ [])
      (hp : Packed bg.maxCachedPerBatch (batchBlocks bs)) (hhead : ∀ b ∈ bs.head?, b.blocks ≠ [])
      (hperm : (batchBlocks bs).flatten.Perm (bg.blocks ++ cur.blocks)) :
      let merged : BatchGroup := { bg with bytesInBGAtLastCheckpoint := n, batches := bs }
      merged.Ok cfg ∧ merged.compactPtrGroupBase = cur.compactPtrGroupBase ∧
        merged.blocks.Perm (bg.blocks ++ cur.blocks) := by
    intro merged
    have hperm' : merged.blocks.Perm (bg.blocks ++ cur.blocks) := by
      rw [blocks_eq]
      exact hperm
    refine ⟨.of_packed hbg.max_eq hne hp hhead fun p hin => ?_, hbase, hperm'⟩
    rcases List.mem_append.mp (hperm'.mem_iff.mp hin) with hin | hin
    · exact hbg.inGroup p hin
    · exact (hcur.inGroup p hin).trans hbase.symm
  have hbgBlocks : bg.blocks = front.blocks ++ (batches.map Batch.blocks).flatten := by
    rw [blocks_eq, hbatches, batchBlocks, List.map_cons, List.flatten_cons]
  have hcurBlocks : cur.blocks = nonFull.blocks ++ (curBatches.map Batch.blocks).flatten := by
    rw [blocks_eq, hcurBatches, batchBlocks, List.map_cons, List.flatten_cons]
  have happended : Packed bg.maxCachedPerBatch
      (front.blocks :: batchBlocks (batches ++ curBatches)) := by
    rw [batchBlocks, List.map_append]
    exact hpacked.append hfull
  simp only [mergeBatches, hbatches, hcurBatches]
  split
  · next hlen =>
    -- all batches of the other group are full
    refine hok _ _ (List.cons_ne_nil _ _) ?_ ?_ ?_
    · rw [List.cons_append, batchBlocks, List.map_cons, List.map_append, List.map_cons]
      refine hpacked.append fun c hc => ?_
      cases hc with
      | head => exact hlen
      | tail _ hc => exact hfull c hc
    · intro b hb
      cases hb
      exact hfront
    · rw [hbgBlocks, hcurBlocks, batchBlocks, List.map_append, List.map_cons, List.map_cons,
        List.flatten_append, List.flatten_cons, List.flatten_cons]
  · next hlen =>
    rw [List.cons_append]
    simp only
    split
    · next hfrontFull =>
      refine hok _ _ (List.cons_ne_nil _ _) (happended.cons hfrontFull hnonFullLe) ?_ ?_
      · intro b hb
        cases hb
        exact hnonFull
      · refine List.perm_iff_count.mpr fun p => ?_
        simp only [hbgBlocks, hcurBlocks, batchBlocks, List.map_cons, List.map_append,
          List.flatten_cons, List.flatten_append, List.count_append]
        omega
    · next hfrontFull =>
      generalize hmove :
        min (bg.maxCachedPerBatch - front.blocks.length) nonFull.blocks.length = moved
      generalize hkept : nonFull.blocks.length - moved = kept
      have hsplit := List.take_append_drop kept nonFull.blocks
      have hlenFront : (front.blocks ++ nonFull.blocks.drop kept).length =
          front.blocks.length + moved := by
        rw [List.length_append, List.length_drop]
        omega
      have hpackedFront : Packed bg.maxCachedPerBatch
          ((front.blocks ++ nonFull.blocks.drop kept) :: batchBlocks (batches ++ curBatches)) :=
        happended.head (by omega)
      split
      · next hleft =>
        refine hok _ _ (List.cons_ne_nil _ _) hpackedFront ?_ ?_
        · intro b hb
          cases hb
          exact List.append_ne_nil_of_left_ne_nil hfront _
        · rw [hleft, List.nil_append] at hsplit
          refine List.perm_iff_count.mpr fun p => ?_
          simp only [hsplit, hbgBlocks, hcurBlocks, batchBlocks, List.map_cons, List.map_append,
            List.flatten_cons, List.flatten_append, List.count_append]
          omega
      · next hleft =>
        -- the front batch has become full
        have hkeptPos : kept ≠ 0 := fun h0 => hleft (by rw [h0, List.take_zero])
        refine hok _ _ (List.cons_ne_nil _ _) (hpackedFront.cons (by omega) ?_) ?_ ?_
        · exact (List.length_take_le' kept nonFull.blocks).trans hnonFullLe
        · intro b hb
          cases hb
          exact hleft
        · refine List.perm_iff_count.mpr fun p => ?_
          have hcount := congrArg (List.count p) hsplit
          simp only [hbgBlocks, hcurBlocks, batchBlocks, List.map_cons, List.map_append,
            List.flatten_cons, List.flatten_append, List.count_append] at hcount ⊢
          omega

/-- The groups that were extracted go back into the list, whatever has become of it. -/
theorem mergeLoop_ok {passed rest groupsToRelease : List BatchGroup} {unused : List Nat} {s : σ}
    (hok : ListOk cfg (passed ++ rest)) (hrelease : ListOk cfg groupsToRelease)
    (hpassed : ∀ cur ∈ groupsToRelease, ∀ bg ∈ passed,
      bg.compactPtrGroupBase < cur.compactPtrGroupBase) :
    ListOk cfg (mergeLoop ops passed rest groupsToRelease unused s).1 ∧
      (blocksOf (mergeLoop ops passed rest groupsToRelease unused s).1).Perm
        (blocksOf (passed ++ rest) ++ blocksOf groupsToRelease) := by
  induction groupsToRelease generalizing passed rest unused s with
  | nil =>
    rw [mergeLoop]
    refine ⟨hok, ?_⟩
    rw [blocksOf, blocksOf, List.flatMap_nil, List.append_nil]
  | cons cur groupsToRelease ih =>
    have hcur := hrelease.ok cur List.mem_cons_self
    have hlater := (List.pairwise_cons.mp hrelease.ordered).1
    have hmore := hrelease.sublist (List.sublist_cons_self cur groupsToRelease)
    rw [mergeLoop]
    generalize hsmaller : (fun bg : BatchGroup =>
      decide (bg.compactPtrGroupBase < cur.compactPtrGroupBase)) = smaller
    have hsplit : rest.takeWhile smaller ++ rest.dropWhile smaller = rest :=
      List.takeWhile_append_dropWhile
    have hfront : ListOk cfg (passed ++ rest.takeWhile smaller) :=
      hok.sublist ((List.Sublist.refl passed).append (List.takeWhile_sublist smaller))
    have hback : ListOk cfg (rest.dropWhile smaller) :=
      hok.sublist ((List.dropWhile_sublist smaller).trans (List.sublist_append_right passed rest))
    have hlt : ∀ bg ∈ passed ++ rest.takeWhile smaller,
        bg.compactPtrGroupBase < cur.compactPtrGroupBase := by
      intro bg hbg
      rcases List.mem_append.mp hbg with hbg | hbg
      · exact hpassed cur List.mem_cons_self bg hbg
      · have hsmall := List.mem_takeWhile_imp hbg
        rw [← hsmaller] at hsmall
        exact of_decide_eq_true hsmall
    have hnot := List.head?_dropWhile_not smaller rest
    have hcountRest (p : Nat) := congrArg (fun l => List.count p (blocksOf l)) hsplit
    -- what comes next is behind a group of this base
    have hnext {new : BatchGroup} (hbase : new.compactPtrGroupBase = cur.compactPtrGroupBase) :
        ∀ cur' ∈ groupsToRelease, ∀ bg ∈ passed ++ rest.takeWhile smaller ++ [new],
          bg.compactPtrGroupBase < cur'.compactPtrGroupBase := by
      intro cur' hcur' bg hbg
      rcases List.mem_append.mp hbg with hbg | hbg
      · exact (hlt bg hbg).trans (hlater cur' hcur')
      · rw [List.mem_singleton.mp hbg, hbase]
        exact hlater cur' hcur'
    simp only
    cases hdrop : rest.dropWhile smaller with
    | nil =>
      rw [hdrop, List.append_nil] at hsplit
      rw [hsplit] at hlt
      rw [hsplit]
      refine ⟨hok.insert hmore hcur hlt hlater, ?_⟩
      rw [blocksOf_append, blocksOf_append]
    | cons bg tail =>
      rw [hdrop] at hnot hback hcountRest
      have hge : cur.compactPtrGroupBase ≤ bg.compactPtrGroupBase := by
        rw [List.head?_cons] at hnot
        simp only [← hsmaller, decide_eq_false_iff_not, Nat.not_lt] at hnot
        exact hnot
      have htail := hback.sublist (List.sublist_cons_self bg tail)
      have hafter := (List.pairwise_cons.mp hback.ordered).1
      simp only
      split
      · next hbase =>
        obtain ⟨hmerged, hbase', hperm⟩ :=
          mergeBatches_ok (hback.ok bg List.mem_cons_self) hcur hbase
        generalize (mergeBatches bg cur).2 = unusedBatch
        generalize (mergeBatches bg cur).1 = merged at *
        have hlist := hfront.insert htail hmerged (by rw [hbase']; exact hlt) (by
          rw [hbase', ← hbase]
          exact hafter)
        rw [List.append_cons] at hlist
        obtain ⟨hres, hall⟩ := @ih _ tail (addUnused ops unused cur.addr unusedBatch s).1
          (addUnused ops unused cur.addr unusedBatch s).2 hlist hmore (hnext hbase')
        refine ⟨hres, hall.trans (List.perm_iff_count.mpr fun p => ?_)⟩
        have hcount := hperm.count_eq p
        have hrest := hcountRest p
        simp only [blocksOf_append, blocksOf_cons, List.count_append, show blocksOf [] = [] from rfl,
          List.count_nil] at *
        omega
      · next hbase =>
        have hgt : cur.compactPtrGroupBase < bg.compactPtrGroupBase :=
          lt_of_le_of_ne hge (Ne.symm hbase)
        have hlist := hfront.insert hback hcur hlt fun bg' hbg' => by
          cases hbg' with
          | head => exact hgt
          | tail _ hbg' => exact hgt.trans (hafter bg' hbg')
        rw [List.append_cons] at hlist
        obtain ⟨hres, hall⟩ := @ih _ (bg :: tail) unused s hlist hmore (hnext rfl)
        refine ⟨hres, hall.trans (List.perm_iff_count.mpr fun p => ?_)⟩
        have hrest := hcountRest p
        simp only [blocksOf_append, blocksOf_cons, List.count_append, show blocksOf [] = [] from rfl,
          List.count_nil] at *
        omega

theorem mergeGroupsToReleaseBack_ok {groups groupsToRelease : List BatchGroup} (s : σ)
    (hok : ListOk cfg groups) (hrelease : ListOk cfg groupsToRelease) :
    ListOk cfg (mergeGroupsToReleaseBack ops groups groupsToRelease s).1 ∧
      (blocksOf (mergeGroupsToReleaseBack ops groups groupsToRelease s).1).Perm
        (blocksOf groups ++ blocksOf groupsToRelease) :=
  mergeLoop_ok hok hrelease fun _ _ => nofun

theorem Region.examineGroup_eq (env : ReleaseConfig) (r : Region) (blockSize : Nat) (bg : BatchGroup)
    (d : Nat) :
    ∃ n, (r.examineGroup cfg env blockSize bg d).1 = { bg with bytesInBGAtLastCheckpoint := n } := by
  rw [examineGroup]
  simp only
  split
  · exact ⟨_, rfl⟩
  · split
    · exact ⟨_, rfl⟩
    · split
      · split <;> split <;> exact ⟨_, rfl⟩
      · exact ⟨_, rfl⟩

theorem BatchGroup.Ok.checkpoint {bg : BatchGroup} (h : bg.Ok cfg) (n : Nat) :
    { bg with bytesInBGAtLastCheckpoint := n }.Ok cfg :=
  ⟨⟨h.max_eq, h.batches_ne, h.packed, h.inGroup⟩, h.batch_ne⟩

/-- The groups are parted between those that stay and those that are extracted. -/
theorem Region.collectLoop_ok (env : ReleaseConfig) (r : Region) (blockSize : Nat)
    {groups : List BatchGroup} (h : ∀ bg ∈ groups, bg.Ok cfg) (d : Nat) :
    let out := r.collectLoop cfg env blockSize groups d
    (∀ bg ∈ out.1, bg.Ok cfg) ∧ (∀ bg ∈ out.2.1, bg.Ok cfg) ∧
      (out.1.map BatchGroup.compactPtrGroupBase).Sublist
        (groups.map BatchGroup.compactPtrGroupBase) ∧
      (out.2.1.map BatchGroup.compactPtrGroupBase).Sublist
        (groups.map BatchGroup.compactPtrGroupBase) ∧
      (blocksOf groups).Perm (blocksOf out.1 ++ blocksOf out.2.1) := by
  induction groups generalizing d with
  | nil => exact ⟨nofun, nofun, .slnil, .slnil, .nil⟩
  | cons bg groups ih =>
    obtain ⟨n, hn⟩ := @examineGroup_eq cfg env r blockSize bg d
    have hbg := (h bg List.mem_cons_self).checkpoint n
    have hblocks : ({ bg with bytesInBGAtLastCheckpoint := n } : BatchGroup).blocks = bg.blocks := rfl
    have hrest := ih (fun bg hbg => h bg (List.mem_cons_of_mem _ hbg))
      (r.examineGroup cfg env blockSize bg d).2.2
    simp only [collectLoop, hn]
    generalize r.collectLoop cfg env blockSize groups (r.examineGroup cfg env blockSize bg d).2.2 =
      out at hrest
    obtain ⟨kept, released, d'⟩ := out
    obtain ⟨hkept, hreleased, hsub, hsub', hperm⟩ := hrest
    have hcount (p : Nat) := hperm.count_eq p
    simp only [List.count_append] at hcount
    split
    · refine ⟨hkept, List.forall_mem_cons.mpr ⟨hbg, hreleased⟩, hsub.cons _, hsub'.cons_cons _, ?_⟩
      refine List.perm_iff_count.mpr fun p => ?_
      simp only [blocksOf_cons, List.count_append, hblocks, hcount p]
      omega
    · refine ⟨List.forall_mem_cons.mpr ⟨hbg, hkept⟩, hreleased, hsub.cons_cons _, hsub'.cons _, ?_⟩
      refine List.perm_iff_count.mpr fun p => ?_
      simp only [blocksOf_cons, List.count_append, hblocks, hcount p]
      omega

theorem ListOk.of_bases {groups groups' : List BatchGroup} (h : ListOk cfg groups)
    (hok : ∀ bg ∈ groups', bg.Ok cfg)
    (hsub : (groups'.map BatchGroup.compactPtrGroupBase).Sublist
      (groups.map BatchGroup.compactPtrGroupBase)) : ListOk cfg groups' :=
  ⟨List.pairwise_map.mp ((List.pairwise_map.mpr h.ordered).sublist hsub), hok⟩

theorem Region.collectGroupsToRelease_ok (env : ReleaseConfig) {r : Region} (blockSize : Nat)
    (h : ListOk cfg r.blockList) :
    ListOk cfg (r.collectGroupsToRelease cfg env blockSize).1 ∧
      ListOk cfg (r.collectGroupsToRelease cfg env blockSize).2.blockList ∧
      (blocksOf r.blockList).Perm
        (blocksOf (r.collectGroupsToRelease cfg env blockSize).2.blockList ++
          blocksOf (r.collectGroupsToRelease cfg env blockSize).1) := by
  obtain ⟨hkept, hreleased, hsub, hsub', hperm⟩ :=
    r.collectLoop_ok env blockSize h.ok (1 <<< cfg.groupSizeLog)
  exact ⟨h.of_bases hreleased hsub', h.of_bases hkept hsub, hperm⟩

end ScudoMte.Primary
