import ScudoMte.Library.TransitionSystem
import ScudoMte.Primary.MergeGroups

namespace ScudoMte.Primary

variable {σ : Type*} {cfg : PrimaryConfig} {ops : BatchClassOps σ}

theorem Region.pushBlocksImpl_ok {r r' : Region} {array : List Nat} {sameGroup : Bool} {s s' : σ}
    (h : r.pushBlocksImpl cfg ops array sameGroup s = some (r', s')) (hok : ListOk cfg r.blockList)
    (hne : array ≠ [])
    (hsame : sameGroup = true → ∀ a ∈ array, ∀ b ∈ array,
      cfg.compactPtrGroup a = cfg.compactPtrGroup b)
    (hsorted : array.Pairwise fun a b => cfg.compactPtrGroup a ≤ cfg.compactPtrGroup b) :
    ListOk cfg r'.blockList ∧ (blocksOf r'.blockList).Perm (array ++ blocksOf r.blockList) := by
  obtain ⟨⟨blockList, s1⟩, hpush, hret⟩ := Option.bind_eq_some_iff.mp h
  cases hret
  exact pushToList_ok hpush hok hne hsame hsorted

theorem Region.pushBlocks_ok {r r' : Region} {array : List Nat} {s s' : σ}
    (h : r.pushBlocks cfg ops array s = some (r', s')) (hok : ListOk cfg r.blockList)
    (hne : array ≠ []) (hblocks : ∀ p ∈ array, p < 2^(cfg.regionSizeLog - cfg.compactPtrScale)) :
    ListOk cfg r'.blockList ∧ (blocksOf r'.blockList).Perm (array ++ blocksOf r.blockList) := by
  obtain ⟨hperm, hsorted, hsame⟩ := prepareArray_spec hblocks
  have hne' : (prepareArray cfg array).1 ≠ [] := fun hnil => by
    rw [hnil] at hperm
    exact hne hperm.nil_eq.symm
  obtain ⟨hok', hpush⟩ := pushBlocksImpl_ok h hok hne' hsame hsorted
  exact ⟨hok', hpush.trans (hperm.append_right _)⟩

theorem pairwise_of_same {array : List Nat}
    (h : ∀ a ∈ array, ∀ b ∈ array, cfg.compactPtrGroup a = cfg.compactPtrGroup b) :
    array.Pairwise fun a b => cfg.compactPtrGroup a ≤ cfg.compactPtrGroup b := by
  induction array with
  | nil => exact .nil
  | cons p array ih =>
    refine List.pairwise_cons.mpr ⟨fun b hb => ?_, ih fun a ha b hb => ?_⟩
    · exact (h p List.mem_cons_self b (List.mem_cons_of_mem _ hb)).le
    · exact h a (List.mem_cons_of_mem _ ha) b (List.mem_cons_of_mem _ hb)

/-- A shuffled segment is one of its group. -/
theorem shuffle_segment {segment : List Nat} (state : Nat) (hne : segment ≠ [])
    (hsame : ∀ a ∈ segment, ∀ b ∈ segment, cfg.compactPtrGroup a = cfg.compactPtrGroup b) :
    (shuffle segment state).1 ≠ [] ∧ ∀ a ∈ (shuffle segment state).1,
      ∀ b ∈ (shuffle segment state).1, cfg.compactPtrGroup a = cfg.compactPtrGroup b := by
  have hperm := shuffle_perm segment state
  refine ⟨fun hnil => ?_, fun a ha b hb => hsame a (hperm.mem_iff.mp ha) b (hperm.mem_iff.mp hb)⟩
  rw [hnil] at hperm
  exact hne hperm.nil_eq.symm

/-- The carved blocks of the groups are pushed, each group by itself. -/
theorem Region.pushCarved_ok {segments : List (List Nat)} {r r' : Region} {s s' : σ}
    (h : Region.pushCarved cfg ops segments r s = some (r', s')) (hok : ListOk cfg r.blockList)
    (hseg : ∀ segment ∈ segments, segment ≠ [] ∧ ∀ a ∈ segment, ∀ b ∈ segment,
      cfg.compactPtrGroup a = cfg.compactPtrGroup b) :
    ListOk cfg r'.blockList ∧
      (blocksOf r'.blockList).Perm (segments.flatten ++ blocksOf r.blockList) := by
  induction segments generalizing r s with
  | nil =>
    cases h
    exact ⟨hok, .refl _⟩
  | cons segment segments ih =>
    obtain ⟨hne, hsame⟩ := hseg segment List.mem_cons_self
    have hperm := shuffle_perm segment r.randState
    have hshuffled := shuffle_segment r.randState hne hsame
    rw [pushCarved] at h
    generalize shuffle segment r.randState = shuffled at h hperm hshuffled
    obtain ⟨array, randState⟩ := shuffled
    obtain ⟨hne', hsame'⟩ := hshuffled
    obtain ⟨⟨r1, s1⟩, hpush, h⟩ := Option.bind_eq_some_iff.mp h
    obtain ⟨hok1, hpush1⟩ :=
      pushBlocksImpl_ok hpush hok hne' (fun _ => hsame') (pairwise_of_same hsame')
    obtain ⟨hok', hrest⟩ := ih h hok1 fun segment hs => hseg segment (List.mem_cons_of_mem _ hs)
    refine ⟨hok', hrest.trans (List.perm_iff_count.mpr fun p => ?_)⟩
    have hcount := hpush1.count_eq p
    have hcount' := hperm.count_eq p
    simp only [List.flatten_cons, List.count_append] at hcount hcount' ⊢
    omega

theorem Region.mapForBlocks_blockList (r : Region) (size maxCount : Nat) (remapped : Bool) :
    (r.mapForBlocks cfg size maxCount remapped).1.blockList = r.blockList := by
  rw [mapForBlocks]
  simp only
  split
  · split
    · rfl
    · split <;> rfl
  · rfl

theorem Region.populate_ok {r r' : Region} {size maxCount maxBlockCount : Nat} {remapped : Bool}
    {blocks : List Nat} {s s' : σ}
    (h : r.populateFreeListAndPopBlocks cfg ops size maxCount maxBlockCount remapped s =
      some (blocks, r', s')) (hok : ListOk cfg r.blockList) : ListOk cfg r'.blockList := by
  rw [populateFreeListAndPopBlocks] at h
  have hlist := @mapForBlocks_blockList cfg r size maxCount remapped
  generalize r.mapForBlocks cfg size maxCount remapped = mapped at h hlist
  obtain ⟨r1, mapped⟩ := mapped
  cases mapped with
  | false =>
    cases h
    exact hlist ▸ hok
  | true =>
    obtain ⟨⟨r2, s2⟩, hpush, hret⟩ := Option.bind_eq_some_iff.mp h
    cases hret
    have hcarved := pushCarved_ok hpush (by rw [hlist]; exact hok) fun segment hs =>
      ⟨KeyRuns.ne_nil_of_mem_runs hs, KeyRuns.key_eq_of_mem_runs hs⟩
    exact (popBlocksImpl_ok hcarved.1 maxBlockCount s2).1

section Total

variable (hget : ∀ s, (ops.getBatchClassBlock s).isSome)

/-- A group that blocks can be inserted into. -/
structure BatchGroup.Open (bg : BatchGroup) : Prop where
  batches_ne : bg.batches ≠ []
  max_pos : 0 < bg.maxCachedPerBatch

include hget

theorem insertLoop_isSome {max : Nat} (hmax : 0 < max) (fuel : Nat) (batches : List Batch)
    (array : List Nat) (s : σ) (hne : batches ≠ []) (hfuel : array.length ≤ fuel) :
    ∃ out, insertLoop ops max fuel batches array s = some out ∧ out.1 ≠ [] := by
  induction fuel generalizing batches array s with
  | zero =>
    rw [List.eq_nil_of_length_eq_zero (Nat.le_zero.mp hfuel)]
    exact ⟨(batches, s), rfl, hne⟩
  | succ fuel ih =>
    cases array with
    | nil => exact ⟨(batches, s), rfl, hne⟩
    | cons p array =>
      obtain ⟨cur, batches, rfl⟩ := List.exists_cons_of_ne_nil hne
      have hpos : 0 < (p :: array).length := Nat.succ_pos _
      simp only [insertLoop]
      split
      · obtain ⟨⟨addr, s1⟩, hsome⟩ := Option.isSome_iff_exists.mp (hget s)
        rw [hsome]
        refine ih _ _ _ (List.cons_ne_nil _ _) ?_
        rw [List.length_drop]
        omega
      · refine ih _ _ _ (List.cons_ne_nil _ _) ?_
        rw [List.length_drop]
        omega

theorem findGroup_isSome (groupBase : Nat) (rest : List BatchGroup) (s : σ)
    (hopen : ∀ bg ∈ rest, bg.Open) :
    ∃ cur tail s', findGroup cfg ops groupBase rest s = some (cur, tail, s') ∧
      cur.Open ∧ ∀ bg ∈ tail, bg.Open := by
  have hcreate : ∃ bg s', createGroup cfg ops groupBase s = some (bg, s') ∧ bg.Open := by
    obtain ⟨⟨addr, s1⟩, h1⟩ := Option.isSome_iff_exists.mp (hget s)
    obtain ⟨⟨batchAddr, s2⟩, h2⟩ := Option.isSome_iff_exists.mp (hget s1)
    rw [createGroup, h1]
    simp only [Option.bind_eq_bind, Option.bind_some, h2]
    exact ⟨_, _, rfl, List.cons_ne_nil _ _, cfg.maxNumBlocksInBatch_pos⟩
  obtain ⟨bg, s1, h1, hbg⟩ := hcreate
  cases rest with
  | nil =>
    rw [findGroup, h1]
    exact ⟨bg, [], s1, rfl, hbg, fun _ h => absurd h List.not_mem_nil⟩
  | cons first rest =>
    rw [findGroup]
    split
    · rw [h1]
      exact ⟨bg, _, s1, rfl, hbg, hopen⟩
    · exact ⟨first, rest, s, rfl, hopen first List.mem_cons_self,
        fun bg hbg => hopen bg (List.mem_cons_of_mem _ hbg)⟩

theorem pushSegments_isSome (passed rest : List BatchGroup) (segments : List (List Nat)) (s : σ)
    (hopen : ∀ bg ∈ rest, bg.Open) : (pushSegments cfg ops passed rest segments s).isSome := by
  induction segments generalizing passed rest s with
  | nil => rfl
  | cons segment segments ih =>
    rw [pushSegments]
    obtain ⟨cur, tail, s1, hfind, hcur, htail⟩ := @findGroup_isSome σ cfg ops hget
      (cfg.compactPtrGroup (segment.headD 0)) (rest.dropWhile fun bg : BatchGroup =>
        decide (cfg.compactPtrGroup (segment.headD 0) > bg.compactPtrGroupBase)) s
      fun bg hbg => hopen bg ((List.dropWhile_sublist _).subset hbg)
    obtain ⟨⟨batches, s2⟩, hloop, hne⟩ :=
      insertLoop_isSome hget hcur.max_pos segment.length cur.batches segment s1 hcur.batches_ne le_rfl
    simp only [hfind, Option.bind_eq_bind, Option.bind_some, insertBlocks, hloop, Option.pure_def]
    refine ih _ _ s2 fun bg hbg => ?_
    cases hbg with
    | head => exact ⟨hne, hcur.max_pos⟩
    | tail _ hbg => exact htail bg hbg

theorem Region.pushBlocksImpl_isSome {r : Region} (h : ListOk cfg r.blockList) (array : List Nat)
    (sameGroup : Bool) (s : σ) : (r.pushBlocksImpl cfg ops array sameGroup s).isSome := by
  have hsome := @pushSegments_isSome σ cfg ops hget [] r.blockList
    (segmentsOf cfg array sameGroup) s fun bg hbg =>
      ⟨(h.ok bg hbg).batches_ne, by
        rw [(h.ok bg hbg).max_eq]
        exact cfg.maxNumBlocksInBatch_pos⟩
  obtain ⟨out, hout⟩ := Option.isSome_iff_exists.mp hsome
  rw [pushBlocksImpl, pushToList, hout]
  rfl

theorem Region.pushCarved_isSome {segments : List (List Nat)} {r : Region} (s : σ)
    (hok : ListOk cfg r.blockList)
    (hseg : ∀ segment ∈ segments, segment ≠ [] ∧ ∀ a ∈ segment, ∀ b ∈ segment,
      cfg.compactPtrGroup a = cfg.compactPtrGroup b) :
    (Region.pushCarved cfg ops segments r s).isSome := by
  induction segments generalizing r s with
  | nil => rfl
  | cons segment segments ih =>
    obtain ⟨hne, hsame⟩ := hseg segment List.mem_cons_self
    obtain ⟨hne', hsame'⟩ := shuffle_segment r.randState hne hsame
    rw [pushCarved]
    generalize shuffle segment r.randState = shuffled at hne' hsame'
    obtain ⟨array, randState⟩ := shuffled
    obtain ⟨⟨r1, s1⟩, hpush⟩ := Option.isSome_iff_exists.mp
      (@pushBlocksImpl_isSome σ cfg ops hget { r with randState } hok array true s)
    obtain ⟨hok1, -⟩ := pushBlocksImpl_ok hpush hok hne' (fun _ => hsame') (pairwise_of_same hsame')
    simp only [Option.bind_eq_bind, hpush, Option.bind_some]
    exact ih s1 hok1 fun segment hs => hseg segment (List.mem_cons_of_mem _ hs)

end Total

/-- A region of a class that is not the batch class, and the groups that are extracted from its list
while pages are released, under `MMLock`. -/
structure RegionState where
  region : Region
  groupsToRelease : Option (List BatchGroup)

/-- A step has what the batch class does while it runs, in a state that other threads have left. -/
inductive RegionAct (σ : Type*)
  | pushBlocks (ops : BatchClassOps σ) (s : σ) (array : List Nat)
  | popBlocks (ops : BatchClassOps σ) (s : σ) (maxBlockCount : Nat)
  | populate (ops : BatchClassOps σ) (s : σ) (maxCount maxBlockCount : Nat) (remapped : Bool)
  | extractAll
  | collectGroupsToRelease
  | mergeGroupsToReleaseBack (ops : BatchClassOps σ) (s : σ)

namespace RegionState

variable (cfg) (env : ReleaseConfig) (size : Nat)

/-- Without groups the release of pages ends at once. -/
def extracted (r : Region) (groups : List BatchGroup) : RegionState where
  region := r
  groupsToRelease := if groups = [] then none else some groups

def step (st : RegionState) : RegionAct σ → Option RegionState
  | .pushBlocks ops s array =>
      (st.region.pushBlocks cfg ops array s).map fun out => { st with region := out.1 }
  | .popBlocks ops s maxBlockCount =>
      some { st with region := (st.region.popBlocksImpl ops false maxBlockCount s).2.1 }
  | .populate ops s maxCount maxBlockCount remapped =>
      (st.region.populateFreeListAndPopBlocks cfg ops size maxCount maxBlockCount remapped s).map
        fun out => { st with region := out.2.1 }
  | .extractAll =>
      some (extracted { st.region with blockList := [] } st.region.blockList)
  | .collectGroupsToRelease =>
      let out := st.region.collectGroupsToRelease cfg env size
      some (extracted out.2 out.1)
  | .mergeGroupsToReleaseBack ops s =>
      let out := mergeGroupsToReleaseBack ops st.region.blockList (st.groupsToRelease.getD []) s
      some ⟨{ st.region with blockList := out.1 }, none⟩

/-- Any array of blocks of the region may be pushed. `MMLock` keeps apart what populates the region
and what releases its pages. -/
def Enabled (st : RegionState) : RegionAct σ → Prop
  | .pushBlocks _ _ array =>
      array ≠ [] ∧ ∀ p ∈ array, p < 2^(cfg.regionSizeLog - cfg.compactPtrScale)
  | .popBlocks _ _ _ => True
  | .populate _ _ _ _ _ => st.groupsToRelease = none
  | .extractAll => st.groupsToRelease = none
  | .collectGroupsToRelease => st.groupsToRelease = none
  | .mergeGroupsToReleaseBack _ _ => st.groupsToRelease ≠ none

/-- The list of a region starts empty. -/
structure Init (st : RegionState) : Prop where
  blockList : st.region.blockList = []
  groupsToRelease : st.groupsToRelease = none

abbrev Reachable (σ : Type*) : RegionState → Prop :=
  TransitionSystem.Reachable Init (fun st (a : RegionAct σ) => st.Enabled cfg a)
    fun st a st' => st.step cfg env size a = some st'

/-- The list and the groups that are extracted from it. -/
structure Ok (st : RegionState) : Prop where
  list : ListOk cfg st.region.blockList
  extracted : ∀ groups ∈ st.groupsToRelease, ListOk cfg groups

variable {cfg env size} {st st' : RegionState}

theorem extracted_ok {r : Region} {groups : List BatchGroup} (hr : ListOk cfg r.blockList)
    (hg : ListOk cfg groups) : (extracted r groups).Ok cfg := by
  refine ⟨hr, fun groups' h => ?_⟩
  rw [extracted] at h
  simp only at h
  split at h
  · cases h
  · cases h
    exact hg

theorem Ok.step {a : RegionAct σ} (h : st.Ok cfg) (ha : st.Enabled cfg a)
    (hs : st.step cfg env size a = some st') : st'.Ok cfg := by
  cases a with
  | pushBlocks ops s array =>
    obtain ⟨⟨r, s'⟩, hpush, rfl⟩ := Option.map_eq_some_iff.mp hs
    exact ⟨(Region.pushBlocks_ok hpush h.list ha.1 ha.2).1, h.extracted⟩
  | popBlocks ops s maxBlockCount =>
    cases hs
    exact ⟨(Region.popBlocksImpl_ok h.list maxBlockCount s).1, h.extracted⟩
  | populate ops s maxCount maxBlockCount remapped =>
    obtain ⟨⟨blocks, r, s'⟩, hpopulate, rfl⟩ := Option.map_eq_some_iff.mp hs
    exact ⟨Region.populate_ok hpopulate h.list, h.extracted⟩
  | extractAll =>
    cases hs
    exact extracted_ok ⟨.nil, nofun⟩ h.list
  | collectGroupsToRelease =>
    cases hs
    obtain ⟨hreleased, hkept, -⟩ := Region.collectGroupsToRelease_ok env size h.list
    exact extracted_ok hkept hreleased
  | mergeGroupsToReleaseBack ops s =>
    cases hs
    have hgroups : ListOk cfg (st.groupsToRelease.getD []) := by
      cases hst : st.groupsToRelease with
      | none => exact ⟨.nil, nofun⟩
      | some groups => exact h.extracted groups hst
    exact ⟨(mergeGroupsToReleaseBack_ok s h.list hgroups).1, nofun⟩

theorem Reachable.ok (h : Reachable cfg env size σ st) : st.Ok cfg := by
  refine TransitionSystem.Reachable.invariant ?_ ?_ h
  · rintro st ⟨hlist, hnone⟩
    refine ⟨?_, ?_⟩
    · rw [hlist]
      exact ⟨.nil, nofun⟩
    · rw [hnone]
      exact nofun
  · exact fun st a st' hok ha hs => hok.step ha hs

/-- What the batch class does in a step. -/
def opsOf : RegionAct σ → Option (BatchClassOps σ)
  | .pushBlocks ops _ _ | .popBlocks ops _ _ | .populate ops _ _ _ _
  | .mergeGroupsToReleaseBack ops _ => some ops
  | .extractAll | .collectGroupsToRelease => none

/-- A step comes to an end unless the batch class is out of memory. -/
theorem Ok.step_isSome (h : st.Ok cfg) (a : RegionAct σ)
    (hget : ∀ ops ∈ opsOf a, ∀ s, (ops.getBatchClassBlock s).isSome) :
    (st.step cfg env size a).isSome := by
  cases a with
  | pushBlocks ops s array =>
    rw [RegionState.step, Option.isSome_map]
    exact Region.pushBlocksImpl_isSome (hget ops rfl) h.list _ _ s
  | populate ops s maxCount maxBlockCount remapped =>
    rw [RegionState.step, Option.isSome_map, Region.populateFreeListAndPopBlocks]
    have hlist := @Region.mapForBlocks_blockList cfg st.region size maxCount remapped
    generalize st.region.mapForBlocks cfg size maxCount remapped = mapped at hlist
    obtain ⟨r, mapped⟩ := mapped
    cases mapped with
    | false => rfl
    | true =>
      have hok : ListOk cfg r.blockList := by
        rw [show r.blockList = st.region.blockList from hlist]
        exact h.list
      have hsome (n : Nat) :
          (Region.pushCarved cfg ops (segmentsOf cfg (r.carvedBlocks cfg size n) false) r s).isSome :=
        Region.pushCarved_isSome (hget ops rfl) s hok fun segment hs =>
          ⟨KeyRuns.ne_nil_of_mem_runs hs, KeyRuns.key_eq_of_mem_runs hs⟩
      obtain ⟨out, hout⟩ := Option.isSome_iff_exists.mp
        (hsome (min (cfg.maxNumBatches * maxCount) ((r.mappedUser - r.allocatedUser) / size)))
      simp only [Bool.not_true, Bool.false_eq_true, if_false, hout]
      rfl
  | _ => rfl

/-- The free list of a region and the groups that are extracted from it, in any run. -/
theorem freeList_structure (h : Reachable cfg env size σ st) (groups : List BatchGroup)
    (hgroups : groups = st.region.blockList ∨ st.groupsToRelease = some groups) :
    (groups.Pairwise fun a b => a.compactPtrGroupBase < b.compactPtrGroupBase) ∧
      ∀ bg ∈ groups, bg.batches ≠ [] ∧ (∀ b ∈ bg.batches, b.blocks ≠ []) ∧
        (∀ b ∈ bg.batches, b.blocks.length ≤ bg.maxCachedPerBatch) ∧
        (∀ b ∈ bg.batches.tail, b.blocks.length = bg.maxCachedPerBatch) ∧
        (∀ b ∈ bg.batches, ∀ p ∈ b.blocks, cfg.compactPtrGroup p = bg.compactPtrGroupBase) ∧
        bg.numBlocks = (bg.batches.map fun b => b.blocks.length).sum := by
  have hok : ListOk cfg groups := by
    rcases hgroups with rfl | hsome
    · exact h.ok.list
    · exact h.ok.extracted groups hsome
  refine ⟨hok.ordered, fun bg hbg => ?_⟩
  have hgroup := hok.ok bg hbg
  refine ⟨hgroup.batches_ne, hgroup.batch_ne, ?_, ?_, ?_, ?_⟩
  · exact fun b hb => hgroup.packed.le _ (List.mem_map_of_mem hb)
  · intro b hb
    refine hgroup.packed.full _ ?_
    rw [batchBlocks, ← List.map_tail]
    exact List.mem_map_of_mem hb
  · exact fun b hb p hp => hgroup.inGroup p (List.mem_flatMap.mpr ⟨b, hb, hp⟩)
  · rw [hgroup.numBlocks_eq, BatchGroup.blocks, List.length_flatMap]

def twoPerBatch : PrimaryConfig where
  compactPtrScale := 4
  groupSizeLog := 18
  regionSizeLog := 28
  mapSizeIncrement := 2^18
  maxNumBatches := 8
  maxNumBlocksInBatch := 2
  groupSizeLog_le := by decide
  maxNumBlocksInBatch_pos := by decide

/-- A batch class with a new block for every call. -/
def freshBlocks : BatchClassOps Nat where
  getBatchClassBlock n := some (n, n+1)
  deallocate n _ := n
  pushBatchClassBlocks n _ := n

def noBlocks : RegionState where
  region := {
    blockList := [], poppedBlocks := 4, pushedBlocks := 0, regionBeg := 2^32, memMapBase := 2^32
    mappedUser := 2^20, allocatedUser := 2^20, randState := 1, exhausted := false
    tryReleaseThreshold := 0 }
  groupsToRelease := none

/-- Four blocks of two groups, pushed in another order. -/
def fourBlocks : RegionState where
  region := { noBlocks.region with
    pushedBlocks := 4
    blockList := [⟨0, 0, 0, [⟨2, [2]⟩, ⟨1, [0, 1]⟩], 2⟩, ⟨3, 2^14, 0, [⟨4, [2^14]⟩], 2⟩] }
  groupsToRelease := none

theorem freeList_structure_fourBlocks :
    (fourBlocks.region.blockList.Pairwise
      fun a b => a.compactPtrGroupBase < b.compactPtrGroupBase) ∧
      fourBlocks.region.blockList.all
        (fun bg => bg.numBlocks = (bg.batches.map fun b => b.blocks.length).sum) = true := by
  let push : RegionAct Nat := .pushBlocks freshBlocks 0 [0, 2^14, 1, 2]
  have hpush : noBlocks.step twoPerBatch ⟨4096, 1⟩ 16 push = some fourBlocks := rfl
  have henabled : noBlocks.Enabled twoPerBatch push := by
    refine ⟨List.cons_ne_nil _ _, fun p hp => ?_⟩
    have hle : p ≤ 2^14 := by
      simp only [List.mem_cons, List.not_mem_nil, or_false] at hp
      omega
    exact hle.trans_lt (by decide)
  have hreachable : Reachable twoPerBatch ⟨4096, 1⟩ 16 Nat fourBlocks :=
    .next (.start ⟨rfl, rfl⟩) henabled hpush
  obtain ⟨hordered, hgroups⟩ := freeList_structure hreachable _ (.inl rfl)
  refine ⟨hordered, List.all_eq_true.mpr fun bg hbg => ?_⟩
  exact decide_eq_true (hgroups bg hbg).2.2.2.2.2

end RegionState

end ScudoMte.Primary
