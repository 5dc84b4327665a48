import Mathlib.Algebra.BigOperators.Ring.Finset
import ScudoMte.FrontEnd.BlockRuns

namespace ScudoMte.FrontEnd.Blocks

open Primary Weights

variable {τ : Type*} {cfg : ClassConfig} {kind : Kind} {env : ReleaseConfig} {st st' : Blocks τ}
  {c d p : Nat}

theorem mem_classes_lt (hc : c ∈ Front.classes cfg) : c < cfg.numClasses :=
  (Front.mem_classes.mp hc).1

theorem Init.ok (h : st.Init cfg) : st.Ok cfg kind := by
  have hbatch : Region.BatchClassOk cfg (st.regions batchClassId) := by
    have hfresh := h.regions batchClassId cfg.batchClass_lt
    exact ⟨.inl hfresh.blockList, hfresh.memOk _⟩
  have hregions : ∀ c ∈ Front.classes cfg, Region.ClassOk cfg c (st.regions c) := by
    intro c hc
    have hfresh := h.regions c (mem_classes_lt hc)
    refine ⟨?_, hfresh.memOk _, ?_⟩
    · rw [hfresh.blockList]
      exact ⟨.nil, nofun⟩
    · rw [hfresh.blockList]
      exact nofun
  refine ⟨hbatch, hregions, fun t => ?_, fun c groups hg => ?_, fun b hb => ?_⟩
  · have hnil (c : Nat) : (st.front t []).chunks c = [] := h.chunks t c
    refine ⟨⟨hbatch, ?_⟩, hregions, fun c => ?_, fun c _ p hp => ?_, fun c _ _ => hnil c⟩
    · rw [Front.batchClass, hnil]
      exact Nat.zero_le _
    · rw [hnil]
      exact Nat.zero_le _
    · rw [hnil] at hp
      cases hp
  · rw [h.groupsToRelease] at hg
    cases hg
  · rw [h.held] at hb
    cases hb

section Runs

variable {G : Type*} [AddCommGroup G] [Fintype τ]

theorem Init.total (h : st.Init cfg) (T : Tally cfg G) (c : Nat) :
    st.total T c = T.region c (st.regions c) := by
  have hgroupsOf (d : Nat) : st.groupsOf d = [] := by
    rw [groupsOf, h.groupsToRelease, Option.getD_none]
  have hmeta : ∑ d ∈ (Front.classes cfg).toFinset, (weigh T.weight (metaOf (st.regions d).blockList) +
      weigh T.weight (metaOf (st.groupsOf d))) = 0 := by
    refine Finset.sum_eq_zero fun d hd => ?_
    have hlt := mem_classes_lt (List.mem_toFinset.mp hd)
    rw [hgroupsOf, (h.regions d hlt).blockList, metaOf_nil, weigh_nil, add_zero]
  rw [Blocks.total, hmeta, hgroupsOf, T.groups_nil, heldOf, h.held]
  simp only [h.chunks, weigh_nil, Finset.sum_const_zero, List.filter_nil, List.map_nil, ite_self,
    add_zero]

theorem total_place (st : Blocks τ) (c : Nat) :
    st.total (placeTally cfg) c =
      (((st.regions c).regionBeg : ℤ), ((st.regions c).memMapBase : ℤ)) := by
  simp only [Blocks.total, placeTally, weigh_zero, add_zero, Finset.sum_const_zero, ite_self]

/-- What holds in every state that is reached. -/
structure Inv (cfg : ClassConfig) (kind : Kind) (st : Blocks τ) : Prop where
  ok : st.Ok cfg kind
  counts : ∀ c < cfg.numClasses, ∀ p, st.total (countTally cfg p) c = 0
  counters : ∀ c < cfg.numClasses, st.total (counterTally cfg) c = 0
  base_le : ∀ c < cfg.numClasses, (st.regions c).memMapBase ≤ (st.regions c).regionBeg
  apart : ∀ c < cfg.numClasses, ∀ d < cfg.numClasses, c ≠ d →
    Region.Apart cfg.toPrimaryConfig (st.regions c) (st.regions d)

theorem Init.inv (h : st.Init cfg) : st.Inv cfg kind := by
  refine ⟨h.ok, fun c hc p => ?_, fun c hc => ?_, fun c hc => (h.regions c hc).base_le, h.apart⟩
  · have hfresh := h.regions c hc
    simp only [h.total, countTally, Region.carved, hfresh.blockList, hfresh.allocatedUser,
      Nat.zero_div, List.range_zero, List.map_nil, freeOf_nil, List.count_nil, sub_self]
  · have hfresh := h.regions c hc
    simp only [h.total, counterTally, hfresh.poppedBlocks, hfresh.pushedBlocks, sub_self]

variable [DecidableEq τ]

theorem Inv.step {a : BlockAct τ} (h : st.Inv cfg kind) (ha : st.Enabled cfg a)
    (hstep : st.step cfg kind env a = some st') : st'.Inv cfg kind := by
  have hkept {G : Type} [AddCommGroup G] (T : Tally cfg G) :
      st'.Ok cfg kind ∧ ∀ d, st'.total T d = st.total T d := h.ok.step T ha hstep
  have hplace (c : Nat) : (st'.regions c).regionBeg = (st.regions c).regionBeg ∧
      (st'.regions c).memMapBase = (st.regions c).memMapBase := by
    have htotal := (hkept (placeTally cfg)).2 c
    rw [total_place, total_place, Prod.mk.injEq] at htotal
    exact ⟨Int.ofNat.inj htotal.1, Int.ofNat.inj htotal.2⟩
  refine ⟨(hkept (counterTally cfg)).1, fun c hc p => ?_, fun c hc => ?_, fun c hc => ?_,
    fun c hc d hd hne => ?_⟩
  · rw [(hkept (countTally cfg p)).2]
    exact h.counts c hc p
  · rw [(hkept (counterTally cfg)).2]
    exact h.counters c hc
  · rw [(hplace c).1, (hplace c).2]
    exact h.base_le c hc
  · rw [Region.Apart, (hplace c).2, (hplace d).2]
    exact h.apart c hc d hd hne

theorem Reachable.inv (h : Reachable cfg kind env st) : st.Inv cfg kind :=
  h.invariant (fun _ hi => hi.inv) fun _ _ _ hi ha hs => hi.step ha hs

end Runs

/-- How often the block `p` of class `c` is recorded: in the list of its region, among the groups
that are extracted from it, by the front ends, or as handed out. A block of the batch class may be in
use for the list of another class. -/
def occurrences [Fintype τ] (cfg : ClassConfig) (st : Blocks τ) (c p : Nat) : Nat :=
  (freeOf (st.regions c).blockList).count p + (freeOf (st.groupsOf c)).count p +
    ∑ t, (st.chunks t c).count p + st.held.count (c, p) +
    if c = batchClassId then ∑ d ∈ (Front.classes cfg).toFinset,
      ((metaOf (st.regions d).blockList).count p + (metaOf (st.groupsOf d)).count p)
    else 0

theorem count_heldOf (st : Blocks τ) (c p : Nat) : (st.heldOf c).count p = st.held.count (c, p) := by
  rw [heldOf, List.count_eq_countP, List.countP_map, List.countP_filter, List.count_eq_countP]
  refine congrArg (List.countP · _) (funext fun b => ?_)
  rw [Bool.eq_iff_iff, Function.comp_apply]
  simp [Prod.ext_iff, and_comm]

theorem total_count [Fintype τ] (st : Blocks τ) (c p : Nat) : st.total (countTally cfg p) c =
    st.occurrences cfg c p -
      (((st.regions c).carved cfg.toPrimaryConfig (cfg.getSizeByClassId c)).count p : ℤ) := by
  simp only [Blocks.total, occurrences, countTally, weigh_indicator, count_heldOf]
  split
  · push_cast
    abel
  · push_cast
    abel

/-- The blocks that a region is carved into are different ones. -/
theorem carved_nodup (hc : c < cfg.numClasses) (r : Region) :
    (r.carved cfg.toPrimaryConfig (cfg.getSizeByClassId c)).Nodup := by
  obtain ⟨⟨k, hk⟩, hpos⟩ := cfg.scale_dvd c hc
  have hk0 : 0 < k := Nat.pos_of_ne_zero fun h0 => by
    rw [h0, Nat.mul_zero] at hk
    omega
  refine List.Nodup.map (fun i j hij => ?_) List.nodup_range
  simp only [Nat.shiftRight_eq_div_pow, hk, Nat.mul_left_comm _ (2^cfg.compactPtrScale),
    Nat.mul_div_cancel_left _ (Nat.two_pow_pos cfg.compactPtrScale)] at hij
  exact Nat.eq_of_mul_eq_mul_right hk0 hij

/-- Wherever it is, a block that was carved is recorded once, and nothing else is recorded. -/
theorem block_recorded_once [Fintype τ] [DecidableEq τ] (h : Reachable cfg kind env st)
    (hc : c < cfg.numClasses) (p : Nat) : st.occurrences cfg c p =
      if p ∈ (st.regions c).carved cfg.toPrimaryConfig (cfg.getSizeByClassId c) then 1 else 0 := by
  have hcount := h.inv.counts c hc p
  rw [total_count] at hcount
  have heq : st.occurrences cfg c p =
      ((st.regions c).carved cfg.toPrimaryConfig (cfg.getSizeByClassId c)).count p := by omega
  rw [heq]
  split
  · next hmem => exact List.count_eq_one_of_mem (carved_nodup hc _) hmem
  · next hmem => exact List.count_eq_zero_of_not_mem hmem

/-- Two blocks of 16 bytes in a batch, and four in a group. -/
def smallConfig : ClassConfig where
  compactPtrScale := 4
  groupSizeLog := 6
  regionSizeLog := 13
  mapSizeIncrement := 256
  maxNumBatches := 1
  maxNumBlocksInBatch := 2
  groupSizeLog_le := by decide
  maxNumBlocksInBatch_pos := Nat.zero_lt_two
  numClasses := 3
  getSizeByClassId c := 16 * max c 1
  maxBytesCachedLog := 5
  mapSizeIncrementLog := 8
  mapSizeIncrement_eq := by decide
  scale_dvd c _ := ⟨Dvd.intro _ rfl, by omega⟩
  regionSizeLog_lt := by decide
  mapSizeIncrementLog_lt := by decide
  maxBytesCachedLog_lt := by decide
  maxNumBatches_pos := by decide
  batchClass_lt := by decide
  two_le_batch := by decide

def smallEnv : ReleaseConfig := ⟨256, 1⟩

/-- The regions as they are after `init`, and no block in use. -/
def initial (cfg : ClassConfig) (env : ReleaseConfig) (primaryBase seed : Nat)
    (enableRandomOffset : Bool) : Blocks τ where
  regions := getRegionInfo (init cfg env primaryBase seed enableRandomOffset)
  groupsToRelease _ := none
  chunks _ _ := []
  held := []

theorem initial_init (cfg : ClassConfig) (env : ReleaseConfig) (primaryBase seed : Nat)
    (enableRandomOffset : Bool) (hpage : 16 * env.pageSize ≤ 2^cfg.regionSizeLog) :
    (initial cfg env primaryBase seed enableRandomOffset : Blocks τ).Init cfg := by
  obtain ⟨hfresh, hapart⟩ := getRegionInfo_init cfg env primaryBase seed enableRandomOffset hpage
  exact ⟨hfresh, hapart, fun _ => rfl, fun _ _ => rfl, rfl⟩

instance (st : Blocks τ) (a : BlockAct τ) : Decidable (st.Enabled cfg a) :=
  match a with
  | .allocate _ c _ => inferInstanceAs (Decidable (c ∈ Front.classes cfg))
  | .deallocate _ c p _ => inferInstanceAs (Decidable ((c, p) ∈ st.held))
  | .drain _ _ | .destroy _ _ => .isTrue trivial
  | .extractAll c => inferInstanceAs (Decidable (c ∈ Front.classes cfg ∧ st.groupsToRelease c = none))
  | .collectGroupsToRelease c =>
    inferInstanceAs (Decidable (c ∈ Front.classes cfg ∧ st.groupsToRelease c = none))
  | .mergeGroupsToReleaseBack c => inferInstanceAs (Decidable (st.groupsToRelease c ≠ none))

/-- A step that is taken only where it is enabled. -/
def enabledStep [DecidableEq τ] (cfg : ClassConfig) (kind : Kind) (env : ReleaseConfig)
    (st : Blocks τ) (a : BlockAct τ) : Option (Blocks τ) :=
  if st.Enabled cfg a then st.step cfg kind env a else none

theorem Reachable.run [DecidableEq τ] {as : List (BlockAct τ)} (h : Reachable cfg kind env st)
    (hrun : TransitionSystem.run (enabledStep cfg kind env) st as = some st') :
    Reachable cfg kind env st' := by
  refine TransitionSystem.Reachable.run_of_imp h ?_ hrun
  intro s a s' hs
  rw [enabledStep] at hs
  split at hs
  · next ha => exact ⟨ha, hs⟩
  · cases hs

/-- Two threads share the second class, while its groups are extracted once. -/
def calls : List (BlockAct Bool) :=
  [.allocate false 1 [true, true, true], .extractAll 1, .allocate true 1 [true, true, true],
    .mergeGroupsToReleaseBack 1, .deallocate true 1 1 [true], .drain true []]

def afterCalls : Option (Blocks Bool) :=
  TransitionSystem.run (enabledStep smallConfig .noCache smallEnv)
    (initial smallConfig smallEnv 4096 1 true) calls

theorem afterCalls_reachable :
    ∃ st, Reachable smallConfig .noCache smallEnv st ∧ afterCalls = some st := by
  have hsome : afterCalls.isSome = true := by decide +kernel
  obtain ⟨st, hst⟩ := Option.isSome_iff_exists.mp hsome
  exact ⟨st, .run (.start (initial_init _ _ _ _ _ (by decide))) hst, hst⟩

theorem afterCalls_held {st : Blocks Bool} (h : afterCalls = some st) : st.held = [(1, 3)] := by
  have hheld : afterCalls.map Blocks.held = some [(1, 3)] := by decide +kernel
  rw [h] at hheld
  exact Option.some.inj hheld

theorem block_recorded_once_calls :
    ∃ st : Blocks Bool, st.held = [(1, 3)] ∧ st.occurrences smallConfig 1 3 =
      if 3 ∈ (st.regions 1).carved smallConfig.toPrimaryConfig 16 then 1 else 0 := by
  obtain ⟨st, hreach, hst⟩ := afterCalls_reachable
  exact ⟨st, afterCalls_held hst, block_recorded_once hreach (by decide) 3⟩

end ScudoMte.FrontEnd.Blocks
