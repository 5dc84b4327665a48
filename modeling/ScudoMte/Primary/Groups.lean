import Mathlib.Data.List.TakeWhile
import ScudoMte.Library.Batches
import ScudoMte.Primary.Region

namespace ScudoMte.Primary

open Batches

variable {σ : Type*} {cfg : PrimaryConfig} {ops : BatchClassOps σ}

/-- The free blocks of a list of groups. -/
def blocksOf (groups : List BatchGroup) : List Nat := groups.flatMap BatchGroup.blocks

def batchBlocks (batches : List Batch) : List (List Nat) := batches.map Batch.blocks

/-- A group but for the blocks that it is about to get. -/
structure BatchGroup.Fits (cfg : PrimaryConfig) (bg : BatchGroup) : Prop where
  max_eq : bg.maxCachedPerBatch = cfg.maxNumBlocksInBatch
  batches_ne : bg.batches ≠ []
  packed : Packed bg.maxCachedPerBatch (batchBlocks bg.batches)
  inGroup : ∀ p ∈ bg.blocks, cfg.compactPtrGroup p = bg.compactPtrGroupBase

/-- A group of a free list. -/
structure BatchGroup.Ok (cfg : PrimaryConfig) (bg : BatchGroup) : Prop extends
    BatchGroup.Fits cfg bg where
  batch_ne : ∀ b ∈ bg.batches, b.blocks ≠ []

/-- The groups are in the order of their bases. -/
def Ordered (groups : List BatchGroup) : Prop :=
  groups.Pairwise fun a b => a.compactPtrGroupBase < b.compactPtrGroupBase

structure ListOk (cfg : PrimaryConfig) (groups : List BatchGroup) : Prop where
  ordered : Ordered groups
  ok : ∀ bg ∈ groups, bg.Ok cfg

theorem blocks_eq (bg : BatchGroup) : bg.blocks = (batchBlocks bg.batches).flatten := by
  rw [BatchGroup.blocks, batchBlocks, List.flatMap_def]

@[simp] theorem blocksOf_cons (bg : BatchGroup) (groups : List BatchGroup) :
    blocksOf (bg :: groups) = bg.blocks ++ blocksOf groups := List.flatMap_cons

@[simp] theorem blocksOf_append (groups groups' : List BatchGroup) :
    blocksOf (groups ++ groups') = blocksOf groups ++ blocksOf groups' := List.flatMap_append

/-- The count that the release of pages goes by is that of the free blocks. -/
theorem BatchGroup.Fits.numBlocks_eq {bg : BatchGroup} (h : bg.Fits cfg) :
    bg.numBlocks = bg.blocks.length := by
  obtain ⟨b, batches, hbatches⟩ := List.exists_cons_of_ne_nil h.batches_ne
  have hpacked := h.packed
  rw [hbatches, batchBlocks, List.map_cons] at hpacked
  have hlen := hpacked.length_flatten
  rw [List.length_cons, List.length_map] at hlen
  rw [blocks_eq, BatchGroup.numBlocks, hbatches, batchBlocks, List.map_cons, List.map_cons,
    List.headD_cons, List.length_cons]
  exact hlen

theorem perm_take_drop (n : Nat) (array xs ys : List Nat) :
    (array.drop n ++ (xs ++ array.take n ++ ys)).Perm (array ++ (xs ++ ys)) := by
  refine List.perm_iff_count.mpr fun p => ?_
  have hsplit := congrArg (List.count p) (List.take_append_drop n array)
  simp only [List.count_append] at hsplit ⊢
  omega

/-- The batches that `InsertBlocks` leaves are packed, and hold the blocks of the array too. -/
theorem insertLoop_packed {max fuel : Nat} {batches batches' : List Batch} {array : List Nat}
    {s s' : σ} (hmax : 0 < max)
    (h : insertLoop ops max fuel batches array s = some (batches', s'))
    (hpacked : Packed max (batchBlocks batches))
    (hhead : array = [] → ∀ b ∈ batches.head?, b.blocks ≠ []) :
    Packed max (batchBlocks batches') ∧ (∀ b ∈ batches'.head?, b.blocks ≠ []) ∧
      (batchBlocks batches').flatten.Perm (array ++ (batchBlocks batches).flatten) := by
  induction fuel generalizing batches array s with
  | zero =>
    cases array with
    | nil =>
      cases h
      exact ⟨hpacked, hhead rfl, .refl _⟩
    | cons p array => cases h
  | succ fuel ih =>
    cases harray : array with
    | nil =>
      rw [harray] at h hhead
      cases h
      exact ⟨hpacked, hhead rfl, .refl _⟩
    | cons p rest =>
      cases batches with
      | nil =>
        rw [harray] at h
        cases h
      | cons cur batches =>
        rw [batchBlocks, List.map_cons] at hpacked
        have hcur := (packed_cons.mp hpacked).1
        have htake {n : Nat} (hn : 0 < n) : array.take n ≠ [] := by
          rw [harray, Ne, List.take_eq_nil_iff]
          rintro (h0 | h0)
          · omega
          · cases h0
        have hpos : 0 < array.length := by
          rw [harray, List.length_cons]
          exact Nat.succ_pos _
        rw [harray] at h
        simp only [insertLoop] at h
        rw [← harray] at h ⊢
        split at h
        · next hfull =>
          -- a new batch in front of a full one
          obtain ⟨⟨addr, s1⟩, -, h⟩ := Option.bind_eq_some_iff.mp h
          obtain ⟨hp, hh, hperm⟩ := ih h
            (hpacked.cons (by omega) (by rw [List.length_take]; omega)) fun _ b hb => by
              cases hb
              exact htake (by omega)
          exact ⟨hp, hh, hperm.trans (perm_take_drop _ array [] _)⟩
        · next hroom =>
          obtain ⟨hp, hh, hperm⟩ := ih h
            (hpacked.head (by rw [List.length_append, List.length_take]; omega)) fun _ b hb => by
              cases hb
              exact List.append_ne_nil_of_right_ne_nil _ (htake (by omega))
          exact ⟨hp, hh, hperm.trans (perm_take_drop _ array cur.blocks _)⟩

theorem batch_ne_of_head {max : Nat} {batches : List Batch} (hmax : 0 < max)
    (hpacked : Packed max (batchBlocks batches)) (hhead : ∀ b ∈ batches.head?, b.blocks ≠ []) :
    ∀ b ∈ batches, b.blocks ≠ [] := by
  cases batches with
  | nil => exact nofun
  | cons cur batches =>
    intro b hb
    exact Packed.ne_nil hpacked hmax (hhead cur rfl) _ (List.mem_map_of_mem hb)

theorem insertBlocks_ok {bg bg' : BatchGroup} {array : List Nat} {s s' : σ}
    (h : insertBlocks ops bg array s = some (bg', s')) (hbg : bg.Fits cfg) (hne : array ≠ [])
    (harray : ∀ p ∈ array, cfg.compactPtrGroup p = bg.compactPtrGroupBase) :
    bg'.Ok cfg ∧ bg'.compactPtrGroupBase = bg.compactPtrGroupBase ∧
      bg'.blocks.Perm (array ++ bg.blocks) := by
  have hmax : 0 < bg.maxCachedPerBatch := by
    rw [hbg.max_eq]
    exact cfg.maxNumBlocksInBatch_pos
  obtain ⟨⟨batches, s1⟩, hloop, hret⟩ := Option.bind_eq_some_iff.mp h
  cases hret
  obtain ⟨hpacked, hhead, hperm⟩ :=
    insertLoop_packed hmax hloop hbg.packed fun hnil => absurd hnil hne
  have hblocks : { bg with batches }.blocks.Perm (array ++ bg.blocks) := by
    rw [blocks_eq, blocks_eq]
    exact hperm
  refine ⟨⟨⟨hbg.max_eq, ?_, hpacked, ?_⟩, batch_ne_of_head hmax hpacked hhead⟩, rfl, hblocks⟩
  · rintro rfl
    have hnil := hperm.nil_eq
    simp [hne] at hnil
  · intro p hp
    rcases List.mem_append.mp (hblocks.mem_iff.mp hp) with hp | hp
    · exact harray p hp
    · exact hbg.inGroup p hp

theorem createGroup_fits {groupBase : Nat} {bg : BatchGroup} {s s' : σ}
    (h : createGroup cfg ops groupBase s = some (bg, s')) :
    bg.Fits cfg ∧ bg.compactPtrGroupBase = groupBase ∧ bg.blocks = [] := by
  obtain ⟨⟨addr, s1⟩, -, h⟩ := Option.bind_eq_some_iff.mp h
  obtain ⟨⟨batchAddr, s2⟩, -, h⟩ := Option.bind_eq_some_iff.mp h
  cases h
  refine ⟨⟨rfl, nofun, packed_cons.mpr ⟨Nat.zero_le _, nofun⟩, ?_⟩, rfl, rfl⟩
  exact fun p hp => nomatch hp

/-- The group of a base, found or created: the groups after it have larger bases. -/
theorem findGroup_spec {groupBase : Nat} {rest tail : List BatchGroup} {cur : BatchGroup} {s s' : σ}
    (h : findGroup cfg ops groupBase rest s = some (cur, tail, s')) (hrest : ListOk cfg rest)
    (hge : ∀ bg ∈ rest.head?, groupBase ≤ bg.compactPtrGroupBase) :
    cur.Fits cfg ∧ cur.compactPtrGroupBase = groupBase ∧ ListOk cfg tail ∧
      (∀ bg ∈ tail, groupBase < bg.compactPtrGroupBase) ∧ blocksOf (cur :: tail) = blocksOf rest := by
  cases rest with
  | nil =>
    obtain ⟨⟨bg, s1⟩, hcreate, hret⟩ := Option.bind_eq_some_iff.mp h
    cases hret
    obtain ⟨hfits, hbase, hblocks⟩ := createGroup_fits hcreate
    refine ⟨hfits, hbase, hrest, nofun, ?_⟩
    rw [blocksOf_cons, hblocks, List.nil_append]
  | cons first rest =>
    have hafter := (List.pairwise_cons.mp hrest.ordered).1
    rw [findGroup] at h
    split at h
    · next hne =>
      obtain ⟨⟨bg, s1⟩, hcreate, hret⟩ := Option.bind_eq_some_iff.mp h
      cases hret
      obtain ⟨hfits, hbase, hblocks⟩ := createGroup_fits hcreate
      have hlt : groupBase < first.compactPtrGroupBase := lt_of_le_of_ne (hge first rfl) hne
      refine ⟨hfits, hbase, hrest, ?_, ?_⟩
      · intro bg hbg
        cases hbg with
        | head => exact hlt
        | tail _ hbg => exact hlt.trans (hafter bg hbg)
      · rw [blocksOf_cons, hblocks, List.nil_append]
    · next heq =>
      cases h
      have hbase : groupBase = cur.compactPtrGroupBase := not_not.mp heq
      refine ⟨(hrest.ok cur List.mem_cons_self).toFits, hbase.symm, ?_, ?_, rfl⟩
      · exact ⟨(List.pairwise_cons.mp hrest.ordered).2,
          fun bg hbg => hrest.ok bg (List.mem_cons_of_mem _ hbg)⟩
      · intro bg hbg
        rw [hbase]
        exact hafter bg hbg

/-- A part of a sorted array: blocks of one group. -/
structure IsSegment (cfg : PrimaryConfig) (segment : List Nat) : Prop where
  ne : segment ≠ []
  same : ∀ p ∈ segment, cfg.compactPtrGroup p = cfg.compactPtrGroup (segment.headD 0)

theorem ListOk.sublist {groups groups' : List BatchGroup} (h : ListOk cfg groups)
    (hs : groups'.Sublist groups) : ListOk cfg groups' :=
  ⟨h.ordered.sublist hs, fun bg hbg => h.ok bg (hs.subset hbg)⟩

/-- Two lists of groups with one in between. -/
theorem ListOk.insert {passed tail : List BatchGroup} {cur : BatchGroup} (hp : ListOk cfg passed)
    (ht : ListOk cfg tail) (hcur : cur.Ok cfg)
    (hlt : ∀ bg ∈ passed, bg.compactPtrGroupBase < cur.compactPtrGroupBase)
    (hgt : ∀ bg ∈ tail, cur.compactPtrGroupBase < bg.compactPtrGroupBase) :
    ListOk cfg (passed ++ cur :: tail) := by
  refine ⟨List.pairwise_append.mpr ⟨hp.ordered, List.pairwise_cons.mpr ⟨hgt, ht.ordered⟩, ?_⟩, ?_⟩
  · intro a ha b hb
    cases hb with
    | head => exact hlt a ha
    | tail _ hb => exact (hlt a ha).trans (hgt b hb)
  · intro bg hbg
    rcases List.mem_append.mp hbg with hbg | hbg
    · exact hp.ok bg hbg
    · cases hbg with
      | head => exact hcur
      | tail _ hbg => exact ht.ok bg hbg

/-- Segments of increasing groups go into the list, which keeps its order. -/
theorem pushSegments_ok {passed rest groups : List BatchGroup} {segments : List (List Nat)} {s s' : σ}
    (h : pushSegments cfg ops passed rest segments s = some (groups, s'))
    (hok : ListOk cfg (passed ++ rest)) (hseg : ∀ segment ∈ segments, IsSegment cfg segment)
    (horder : segments.Pairwise fun a b =>
      cfg.compactPtrGroup (a.headD 0) < cfg.compactPtrGroup (b.headD 0))
    (hpassed : ∀ segment ∈ segments, ∀ bg ∈ passed,
      bg.compactPtrGroupBase < cfg.compactPtrGroup (segment.headD 0)) :
    ListOk cfg groups ∧ (blocksOf groups).Perm (segments.flatten ++ blocksOf (passed ++ rest)) := by
  induction segments generalizing passed rest s with
  | nil =>
    cases h
    exact ⟨hok, .refl _⟩
  | cons segment segments ih =>
    obtain ⟨hfirst, horder⟩ := List.pairwise_cons.mp horder
    have hsegment := hseg segment List.mem_cons_self
    rw [pushSegments] at h
    generalize hg : cfg.compactPtrGroup (segment.headD 0) = groupBase at *
    generalize hsmaller : (fun bg : BatchGroup => decide (groupBase > bg.compactPtrGroupBase)) =
      smaller at h
    obtain ⟨⟨cur, tail, s1⟩, hfind, h⟩ := Option.bind_eq_some_iff.mp h
    obtain ⟨⟨cur1, s2⟩, hinsert, h⟩ := Option.bind_eq_some_iff.mp h
    have hsplit : rest.takeWhile smaller ++ rest.dropWhile smaller = rest :=
      List.takeWhile_append_dropWhile
    have hfront : (passed ++ rest.takeWhile smaller).Sublist (passed ++ rest) :=
      (List.Sublist.refl passed).append (List.takeWhile_sublist smaller)
    have hback : (rest.dropWhile smaller).Sublist (passed ++ rest) :=
      (List.dropWhile_sublist smaller).trans (List.sublist_append_right passed rest)
    have hge : ∀ bg ∈ (rest.dropWhile smaller).head?, groupBase ≤ bg.compactPtrGroupBase := by
      intro bg hbg
      have hnot := List.head?_dropWhile_not smaller rest
      rw [Option.mem_def.mp hbg] at hnot
      simp only [← hsmaller, decide_eq_false_iff_not, Nat.not_lt] at hnot
      exact hnot
    obtain ⟨hfits, hbase, htail, hgt, hblocks⟩ := findGroup_spec hfind (hok.sublist hback) hge
    obtain ⟨hcur, hbase1, hperm⟩ := insertBlocks_ok hinsert hfits hsegment.ne fun p hp => by
      rw [hsegment.same p hp, hg, hbase]
    have hlt : ∀ bg ∈ passed ++ rest.takeWhile smaller, bg.compactPtrGroupBase < groupBase := by
      intro bg hbg
      rcases List.mem_append.mp hbg with hbg | hbg
      · exact hg ▸ hpassed segment List.mem_cons_self bg hbg
      · have hsmall := List.mem_takeWhile_imp hbg
        rw [← hsmaller] at hsmall
        exact of_decide_eq_true hsmall
    rw [← hbase, ← hbase1] at hlt hgt
    obtain ⟨hgroups, hall⟩ := ih h ((hok.sublist hfront).insert htail hcur hlt hgt)
      (fun segment hs => hseg segment (List.mem_cons_of_mem _ hs)) horder fun segment' hs bg hbg => by
        have hnext := hfirst segment' hs
        have hbg := hlt bg hbg
        rw [hbase1, hbase] at hbg
        exact hbg.trans hnext
    refine ⟨hgroups, hall.trans (List.perm_iff_count.mpr fun p => ?_)⟩
    have hcount := hperm.count_eq p
    have hcountTail := congrArg (List.count p) hblocks
    have hcountRest := congrArg (fun l => List.count p (blocksOf l)) hsplit
    simp only [blocksOf_append, blocksOf_cons, List.count_append, List.flatten_cons] at *
    omega

/-- The insertion sort of `pushBlocks`, and its test for one group. -/
theorem sortByGroup_spec {sorted array : List Nat} {sameGroup : Bool}
    (hsorted : sorted.Pairwise (KeyRuns.keyGE cfg.compactPtrGroup))
    (hsame : sameGroup = true → ∀ a ∈ sorted, ∀ b ∈ sorted,
      cfg.compactPtrGroup a = cfg.compactPtrGroup b) :
    (sortByGroup cfg sorted sameGroup array).1.Perm (sorted ++ array) ∧
      ((sortByGroup cfg sorted sameGroup array).1.Pairwise fun a b =>
        cfg.compactPtrGroup a ≤ cfg.compactPtrGroup b) ∧
        ((sortByGroup cfg sorted sameGroup array).2 = true →
          ∀ a ∈ (sortByGroup cfg sorted sameGroup array).1,
            ∀ b ∈ (sortByGroup cfg sorted sameGroup array).1,
              cfg.compactPtrGroup a = cfg.compactPtrGroup b) := by
  induction array generalizing sorted sameGroup with
  | nil =>
    rw [sortByGroup, List.append_nil]
    refine ⟨List.reverse_perm sorted, List.pairwise_reverse.mpr hsorted, ?_⟩
    intro h a ha b hb
    exact hsame h a (List.mem_reverse.mp ha) b (List.mem_reverse.mp hb)
  | cons cur array ih =>
    have hperm := List.perm_orderedInsert (KeyRuns.keyGE cfg.compactPtrGroup) cur sorted
    have hsame' : (sameGroup && cfg.compactPtrGroup (sorted.headD cur) == cfg.compactPtrGroup cur) =
        true → ∀ a ∈ sorted.orderedInsert (KeyRuns.keyGE cfg.compactPtrGroup) cur,
          cfg.compactPtrGroup a = cfg.compactPtrGroup cur := by
      intro h a ha
      rw [Bool.and_eq_true] at h
      cases hperm.mem_iff.mp ha with
      | head => rfl
      | tail _ ha =>
        cases sorted with
        | nil => cases ha
        | cons first sorted =>
          rw [hsame h.1 a ha first List.mem_cons_self]
          exact eq_of_beq h.2
    rw [sortByGroup]
    obtain ⟨hp, ho, hs⟩ := ih (hsorted.orderedInsert cur sorted) fun h a ha b hb =>
      (hsame' h a ha).trans (hsame' h b hb).symm
    exact ⟨(hp.trans (hperm.append_right array)).trans List.perm_middle.symm, ho, hs⟩

theorem segmentsOf_flatten (array : List Nat) (sameGroup : Bool) :
    (segmentsOf cfg array sameGroup).flatten = array := by
  cases sameGroup with
  | false => exact KeyRuns.runs_flatten
  | true => exact List.append_nil array

theorem IsSegment.of_same {segment : List Nat} (hne : segment ≠ [])
    (h : ∀ a ∈ segment, ∀ b ∈ segment, cfg.compactPtrGroup a = cfg.compactPtrGroup b) :
    IsSegment cfg segment := by
  refine ⟨hne, fun p hp => ?_⟩
  obtain ⟨a, segment, rfl⟩ := List.exists_cons_of_ne_nil hne
  exact h p hp a List.mem_cons_self

/-- An array that is of one group or sorted by group goes into the list. -/
theorem pushToList_ok {groups groups' : List BatchGroup} {array : List Nat} {sameGroup : Bool}
    {s s' : σ} (h : pushToList cfg ops groups array sameGroup s = some (groups', s'))
    (hok : ListOk cfg groups) (hne : array ≠ [])
    (hsame : sameGroup = true → ∀ a ∈ array, ∀ b ∈ array,
      cfg.compactPtrGroup a = cfg.compactPtrGroup b)
    (hsorted : array.Pairwise fun a b => cfg.compactPtrGroup a ≤ cfg.compactPtrGroup b) :
    ListOk cfg groups' ∧ (blocksOf groups').Perm (array ++ blocksOf groups) := by
  have hsegments : (∀ segment ∈ segmentsOf cfg array sameGroup, IsSegment cfg segment) ∧
      (segmentsOf cfg array sameGroup).Pairwise fun a b =>
        cfg.compactPtrGroup (a.headD 0) < cfg.compactPtrGroup (b.headD 0) := by
    cases sameGroup with
    | false =>
      exact ⟨fun _ hs => .of_same (KeyRuns.ne_nil_of_mem_runs hs) (KeyRuns.key_eq_of_mem_runs hs),
        KeyRuns.runs_heads_lt hsorted 0⟩
    | true =>
      refine ⟨fun segment hs => ?_, List.pairwise_singleton _ _⟩
      rw [List.mem_singleton.mp hs]
      exact .of_same hne (hsame rfl)
  obtain ⟨hok', hperm⟩ := pushSegments_ok h hok hsegments.1 hsegments.2 fun _ _ => nofun
  rw [segmentsOf_flatten] at hperm
  exact ⟨hok', hperm⟩

theorem compactPtrGroup_eq_zero {p : Nat} (hp : p < 2^cfg.groupScale) : cfg.compactPtrGroup p = 0 := by
  rw [PrimaryConfig.compactPtrGroup, Nat.shiftLeft_eq, Nat.one_mul]
  by_cases hk : cfg.groupScale ≤ 64
  · have hlt : p < 2^64 := hp.trans_le (Nat.pow_le_pow_right (by decide) hk)
    rw [Word.and_high_mask p cfg.groupScale hlt hk, Nat.div_eq_of_lt hp, Nat.zero_mul]
  · rw [Nat.sub_eq_zero_of_le (Nat.pow_le_pow_right (by decide) (by omega)), Nat.and_zero]

/-- What `pushBlocks` makes of an array of blocks of the region. -/
theorem prepareArray_spec {array : List Nat}
    (hblocks : ∀ p ∈ array, p < 2^(cfg.regionSizeLog - cfg.compactPtrScale)) :
    (prepareArray cfg array).1.Perm array ∧
      ((prepareArray cfg array).1.Pairwise fun a b =>
        cfg.compactPtrGroup a ≤ cfg.compactPtrGroup b) ∧
        ((prepareArray cfg array).2 = true → ∀ a ∈ (prepareArray cfg array).1,
          ∀ b ∈ (prepareArray cfg array).1, cfg.compactPtrGroup a = cfg.compactPtrGroup b) := by
  rw [prepareArray]
  split
  · exact sortByGroup_spec .nil fun _ _ h => nomatch h
  · next hlog =>
    -- the region is one group
    have hle := cfg.groupSizeLog_le
    have hzero : ∀ p ∈ array, cfg.compactPtrGroup p = 0 := by
      intro p hp
      refine compactPtrGroup_eq_zero ?_
      rw [PrimaryConfig.groupScale, show cfg.groupSizeLog = cfg.regionSizeLog by omega]
      exact hblocks p hp
    refine ⟨.refl _, List.Pairwise.imp_of_mem (fun ha hb _ => ?_) (List.pairwise_of_forall
      (R := fun _ _ => True) fun _ _ => trivial), fun _ a ha b hb => ?_⟩
    · rw [hzero _ ha, hzero _ hb]
    · rw [hzero a ha, hzero b hb]

end ScudoMte.Primary
