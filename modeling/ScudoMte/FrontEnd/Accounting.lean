import ScudoMte.FrontEnd.Ownership

namespace ScudoMte.FrontEnd.Blocks

open Primary Weights

variable {τ : Type*} [Fintype τ] {cfg : ClassConfig} {kind : Kind} {env : ReleaseConfig}
  {st st' : Blocks τ} {c : Nat}

/-- The blocks of a class that are neither in the list of its region nor extracted from it. -/
def inUse (cfg : ClassConfig) (st : Blocks τ) (c : Nat) : Nat :=
  ∑ t, (st.chunks t c).length + (st.heldOf c).length +
    if c = batchClassId then ∑ d ∈ (Front.classes cfg).toFinset,
      ((metaOf (st.regions d).blockList).length + (metaOf (st.groupsOf d)).length)
    else 0

theorem total_counters (st : Blocks τ) (c : Nat) : st.total (counterTally cfg) c =
    (st.regions c).pushedBlocks - (st.regions c).poppedBlocks + BitVec.ofNat 64 (st.inUse cfg c) := by
  simp only [Blocks.total, inUse, counterTally, weigh_one, ← BitVec.ofNat_add, sum_ofNat]
  split
  · rw [BitVec.ofNat_add, BitVec.ofNat_add]
    grind
  · rw [BitVec.ofNat_add, BitVec.ofNat_add]
    grind

/-- `InUseBlocks` of the statistics, from counters that wrap around. -/
theorem inUse_counters [DecidableEq τ] (h : Reachable cfg kind env st) (hc : c < cfg.numClasses) :
    (st.regions c).poppedBlocks - (st.regions c).pushedBlocks =
      BitVec.ofNat 64 (st.inUse cfg c) := by
  have hcounters := h.inv.counters c hc
  rw [total_counters] at hcounters
  grind

theorem inUse_counters_calls : ∃ st : Blocks Bool, st.held = [(1, 3)] ∧
    (st.regions 0).poppedBlocks - (st.regions 0).pushedBlocks =
      BitVec.ofNat 64 (st.inUse smallConfig 0) := by
  obtain ⟨st, hreach, hst⟩ := afterCalls_reachable
  exact ⟨st, afterCalls_held hst, inUse_counters hreach (by decide)⟩

/-- `BatchClassUsedInFreeLists`: the groups and the batches of the other classes. -/
def batchClassUsedInFreeLists (cfg : ClassConfig) (regions : Nat → Region) : Nat :=
  ((Front.classes cfg).map fun c =>
    ((regions c).blockList.map fun bg => bg.batches.length + 1).sum).sum

/-- `TotalBlocks` of a class. A group of the batch class without a batch is a block. -/
def totalBlocks (r : Region) : Nat :=
  (r.blockList.map fun bg =>
    if bg.batches = [] then 1 else (bg.batches.map fun b => b.blocks.length).sum).sum

/-- The equalities that `verifyAllBlocksAreReleasedTestOnly` checks. -/
def verifyAllBlocksAreReleased (cfg : ClassConfig) (regions : Nat → Region) : Bool :=
  let used := batchClassUsedInFreeLists cfg regions
  let batch := regions batchClassId
  (Front.classes cfg).all (fun c =>
      totalBlocks (regions c) = (regions c).allocatedUser / cfg.getSizeByClassId c ∧
        (regions c).pushedBlocks = (regions c).poppedBlocks) &&
    decide (totalBlocks batch + used = batch.allocatedUser / cfg.getSizeByClassId batchClassId) &&
    decide (batch.poppedBlocks - batch.pushedBlocks = BitVec.ofNat 64 used)

omit [Fintype τ] in
theorem totalBlocks_eq (r : Region) : totalBlocks r = (freeOf r.blockList).length := by
  rw [totalBlocks, freeOf, List.length_flatMap]
  refine congrArg List.sum (List.map_congr_left fun bg _ => ?_)
  rw [BatchGroup.freeBlocks]
  split
  · rfl
  · rw [BatchGroup.blocks, List.length_flatMap]

omit [Fintype τ] in
theorem length_metaOf (groups : List BatchGroup) :
    (metaOf groups).length = (groups.map fun bg => bg.batches.length + 1).sum := by
  rw [metaOf, List.length_flatMap]
  refine congrArg List.sum (List.map_congr_left fun bg _ => ?_)
  rw [List.length_cons, List.length_map]

omit [Fintype τ] in
theorem batchClassUsed_eq (cfg : ClassConfig) (regions : Nat → Region) :
    batchClassUsedInFreeLists cfg regions =
      ∑ d ∈ (Front.classes cfg).toFinset, (metaOf (regions d).blockList).length := by
  have hnodup : (Front.classes cfg).Nodup := List.Nodup.filter _ List.nodup_range
  rw [List.sum_toFinset _ hnodup, batchClassUsedInFreeLists]
  simp only [length_metaOf]

/-- The state with every block back in the lists. -/
structure Released (st : Blocks τ) : Prop where
  groups : ∀ c, st.groupsToRelease c = none
  chunks : ∀ t c, st.chunks t c = []
  held : st.held = []

/-- The lists have all that was carved, but for what they are built in. -/
theorem Released.perm [DecidableEq τ] (hreleased : st.Released) (h : Reachable cfg kind env st)
    (hc : c < cfg.numClasses) :
    ((st.regions c).carved cfg.toPrimaryConfig (cfg.getSizeByClassId c)).Perm
      (freeOf (st.regions c).blockList ++ if c = batchClassId then
        (Front.classes cfg).flatMap fun d => metaOf (st.regions d).blockList else []) := by
  have hnodup : (Front.classes cfg).Nodup := List.Nodup.filter _ List.nodup_range
  have hgroupsOf (d : Nat) : st.groupsOf d = [] := by
    rw [groupsOf, hreleased.groups, Option.getD_none]
  refine List.perm_iff_count.mpr fun p => ?_
  have hcount := h.inv.counts c hc p
  rw [total_count, occurrences] at hcount
  simp only [hreleased.chunks, hreleased.held, hgroupsOf, freeOf_nil, metaOf_nil, List.count_nil,
    Finset.sum_const_zero, Nat.add_zero] at hcount
  rw [List.count_append]
  by_cases hc0 : c = batchClassId
  · rw [if_pos hc0, List.sum_toFinset _ hnodup] at hcount
    rw [if_pos hc0, List.count_flatMap]
    simp only [Function.comp_def]
    omega
  · rw [if_neg hc0] at hcount
    rw [if_neg hc0, List.count_nil]
    omega

/-- With all blocks released, the checks pass. -/
theorem Released.verified [DecidableEq τ] (hreleased : st.Released) (h : Reachable cfg kind env st) :
    verifyAllBlocksAreReleased cfg st.regions = true := by
  have hgroupsOf (d : Nat) : st.groupsOf d = [] := by
    rw [groupsOf, hreleased.groups, Option.getD_none]
  have hinUse (c : Nat) : st.inUse cfg c =
      if c = batchClassId then batchClassUsedInFreeLists cfg st.regions else 0 := by
    simp only [inUse, heldOf, hreleased.chunks, hreleased.held, hgroupsOf, metaOf_nil,
      List.length_nil, Finset.sum_const_zero, List.filter_nil, List.map_nil, Nat.add_zero,
      Nat.zero_add, batchClassUsed_eq]
  have hlength {c : Nat} (hc : c < cfg.numClasses) :
      (st.regions c).allocatedUser / cfg.getSizeByClassId c = totalBlocks (st.regions c) +
        if c = batchClassId then batchClassUsedInFreeLists cfg st.regions else 0 := by
    have hperm := (hreleased.perm h hc).length_eq
    rw [Region.carved, List.length_map, List.length_range, List.length_append,
      ← totalBlocks_eq] at hperm
    rw [hperm]
    split
    · rw [List.length_flatMap, batchClassUsedInFreeLists]
      simp only [length_metaOf]
    · rfl
  rw [verifyAllBlocksAreReleased, Bool.and_eq_true, Bool.and_eq_true, List.all_eq_true,
    decide_eq_true_eq, decide_eq_true_eq]
  refine ⟨⟨fun c hc => ?_, ?_⟩, ?_⟩
  · obtain ⟨hlt, hne⟩ := Front.mem_classes.mp hc
    have hcounters := inUse_counters h hlt
    have htotal := hlength hlt
    rw [hinUse, if_neg hne] at hcounters
    rw [if_neg hne] at htotal
    rw [decide_eq_true_eq]
    refine ⟨htotal.symm, ?_⟩
    grind
  · rw [hlength (c := batchClassId) cfg.batchClass_lt, if_pos rfl]
  · rw [inUse_counters (c := batchClassId) h cfg.batchClass_lt, hinUse, if_pos rfl]

/-- A run that drains the front ends one after the other. -/
theorem drained [DecidableEq τ] {ts : List (τ × List Bool)} (h : Reachable cfg kind env st)
    (hrun : TransitionSystem.run (step cfg kind env) st
      (ts.map fun (t, remaps) => .drain t remaps) = some st') :
    Reachable cfg kind env st' ∧ st'.groupsToRelease = st.groupsToRelease ∧ st'.held = st.held ∧
      ∀ t, t ∈ ts.map Prod.fst ∨ (∀ c, st.chunks t c = []) → ∀ c, st'.chunks t c = [] := by
  induction ts generalizing st with
  | nil =>
    cases hrun
    refine ⟨h, rfl, rfl, fun t ht => ?_⟩
    rcases ht with ht | ht
    · cases ht
    · exact ht
  | cons first ts ih =>
    obtain ⟨t0, remaps⟩ := first
    obtain ⟨st1, hstep, hrest⟩ := Option.bind_eq_some_iff.mp hrun
    have henabled : st.Enabled cfg (.drain t0 remaps) := trivial
    have hreach : Reachable cfg kind env st1 := .next h henabled hstep
    obtain ⟨f, hcall, rfl⟩ := Option.map_eq_some_iff.mp hstep
    obtain ⟨-, -, hnil⟩ := drain_keeps (counterTally cfg) h.inv.ok hcall
    obtain ⟨hreach', hgroups, hheld, hempty⟩ := ih hreach hrest
    refine ⟨hreach', hgroups, hheld, fun t ht => hempty t ?_⟩
    by_cases htt : t = t0
    · subst htt
      refine .inr fun c => ?_
      simp only [setFront, Function.update_self]
      exact hnil c
    · rcases ht with ht | ht
      · rw [List.map_cons, List.mem_cons] at ht
        exact .inl (ht.resolve_left htt)
      · refine .inr fun c => ?_
        simp only [setFront, Function.update_of_ne htt]
        exact ht c

/-- Once nothing is handed out, and every front end is drained, all blocks are released. -/
theorem drained_verified [DecidableEq τ] {ts : List (τ × List Bool)}
    (h : Reachable cfg kind env st) (hheld : st.held = [])
    (hgroups : ∀ c ∈ Front.classes cfg, st.groupsToRelease c = none) (hall : ∀ t, t ∈ ts.map Prod.fst)
    (hrun : TransitionSystem.run (step cfg kind env) st
      (ts.map fun (t, remaps) => .drain t remaps) = some st') :
    verifyAllBlocksAreReleased cfg st'.regions = true := by
  obtain ⟨hreach, hgroups', hheld', hempty⟩ := drained h hrun
  refine Released.verified ⟨fun c => ?_, fun t => hempty t (.inl (hall t)), ?_⟩ hreach
  · rw [hgroups']
    cases hc : st.groupsToRelease c with
    | none => rfl
    | some groups =>
      rw [hgroups c (h.inv.ok.groups c groups hc).mem] at hc
      cases hc
  · rw [hheld', hheld]

/-- Each thread gives back the block of the other one. -/
def swapped : Option (Blocks Bool) :=
  TransitionSystem.run (enabledStep smallConfig .localCache smallEnv)
    (initial smallConfig smallEnv 4096 1 true)
    [.allocate false 1 [true, true, true], .allocate true 2 [true, true, true],
      .deallocate true 1 1 [true], .deallocate false 2 0 [true]]

theorem drained_verified_swapped : ∃ st st' : Blocks Bool, swapped = some st ∧
    TransitionSystem.run (step smallConfig .localCache smallEnv) st
      [.drain true [], .drain false []] = some st' ∧
    verifyAllBlocksAreReleased smallConfig st'.regions = true := by
  have hsome : swapped.isSome = true := by decide +kernel
  obtain ⟨st, hst⟩ := Option.isSome_iff_exists.mp hsome
  have hreach : Reachable smallConfig .localCache smallEnv st :=
    .run (.start (initial_init _ _ _ _ _ (by decide))) hst
  have hheld : swapped.map Blocks.held = some [] := by decide +kernel
  have hrun : (swapped.bind fun st => TransitionSystem.run (step smallConfig .localCache smallEnv) st
      [.drain true [], .drain false []]).isSome = true := by decide +kernel
  have hnone : (swapped.map fun st => (Front.classes smallConfig).all fun c =>
      (st.groupsToRelease c).isNone) = some true := by decide +kernel
  rw [hst] at hheld hrun hnone
  obtain ⟨st', hst'⟩ := Option.isSome_iff_exists.mp hrun
  have hgroups : ∀ c ∈ Front.classes smallConfig, st.groupsToRelease c = none := fun c hc =>
    Option.isNone_iff_eq_none.mp (List.all_eq_true.mp (Option.some.inj hnone) c hc)
  refine ⟨st, st', hst, hst', ?_⟩
  exact @drained_verified _ _ _ _ _ _ _ _ [(true, []), (false, [])] hreach (Option.some.inj hheld)
    hgroups (by decide) hst'

end ScudoMte.FrontEnd.Blocks
