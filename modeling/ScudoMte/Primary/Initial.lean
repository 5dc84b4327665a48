import Mathlib.Data.List.Perm.Lattice
import ScudoMte.Primary.BatchBlocks

namespace ScudoMte.Primary

/-- `initRegion` for memory that starts at `base`. -/
def initRegion (env : ReleaseConfig) (blockSize base randState : Nat) (enableRandomOffset : Bool) :
    Region :=
  let next := getRandomU32 randState
  { blockList := []
    poppedBlocks := 0
    pushedBlocks := 0
    regionBeg := if enableRandomOffset then base + (next % 16 + 1) * env.pageSize else base
    memMapBase := base
    mappedUser := 0
    allocatedUser := 0
    randState := if enableRandomOffset then next else randState
    exhausted := false
    tryReleaseThreshold :=
      if env.isSmallBlock blockSize then env.pageSize * env.smallerBlockReleasePageDelta
      else env.getMinReleaseAttemptSize blockSize }

/-- The random states of the regions, and the seed that is left. -/
def randStates : Nat → Nat → List Nat × Nat
  | 0, seed => ([], seed)
  | n+1, seed =>
    let state := getRandomU32 seed
    let (states, seed) := randStates n state
    (state :: states, seed)

/-- `init` with contiguous regions, which are shuffled in the end. -/
def init (cfg : ClassConfig) (env : ReleaseConfig) (primaryBase seed : Nat)
    (enableRandomOffset : Bool) : List Region :=
  let (states, seed) := randStates cfg.numClasses seed
  let regionInfoArray := states.mapIdx fun i state =>
    initRegion env (cfg.getSizeByClassId i) (primaryBase + i <<< cfg.regionSizeLog) state
      enableRandomOffset
  (shuffle regionInfoArray seed).1

/-- `getRegionInfo`; nothing is read behind the array. -/
def getRegionInfo (regions : List Region) (classId : Nat) : Region :=
  regions[classId]?.getD ⟨[], 0, 0, 0, 0, 0, 0, 0, false, 0⟩

namespace Region

/-- A region that has not been used. -/
structure Fresh (cfg : PrimaryConfig) (r : Region) : Prop where
  blockList : r.blockList = []
  poppedBlocks : r.poppedBlocks = 0
  pushedBlocks : r.pushedBlocks = 0
  mappedUser : r.mappedUser = 0
  allocatedUser : r.allocatedUser = 0
  base_le : r.memMapBase ≤ r.regionBeg
  inRegion : r.regionBeg - r.memMapBase ≤ 2^cfg.regionSizeLog

/-- The memory that is reserved for two regions does not overlap. -/
def Apart (cfg : PrimaryConfig) (r r' : Region) : Prop :=
  r.memMapBase + 2^cfg.regionSizeLog ≤ r'.memMapBase ∨
    r'.memMapBase + 2^cfg.regionSizeLog ≤ r.memMapBase

theorem Apart.symm {cfg : PrimaryConfig} {r r' : Region} (h : Apart cfg r r') : Apart cfg r' r :=
  Or.symm h

theorem Fresh.memOk {cfg : PrimaryConfig} {r : Region} (h : Fresh cfg r) (size : Nat) :
    MemOk cfg size r := by
  refine ⟨?_, ?_, ?_⟩
  · rw [h.allocatedUser]
    exact Nat.dvd_zero size
  · rw [h.allocatedUser]
    exact Nat.zero_le _
  · rw [h.mappedUser]
    exact h.inRegion

end Region

theorem initRegion_fresh {cfg : ClassConfig} {env : ReleaseConfig}
    (hpage : 16 * env.pageSize ≤ 2^cfg.regionSizeLog) (blockSize base randState : Nat)
    (enableRandomOffset : Bool) :
    (initRegion env blockSize base randState enableRandomOffset).Fresh cfg.toPrimaryConfig := by
  have hoffset : (getRandomU32 randState % 16 + 1) * env.pageSize ≤ 16 * env.pageSize :=
    Nat.mul_le_mul_right _ (Nat.mod_lt _ (by decide))
  refine ⟨rfl, rfl, rfl, rfl, rfl, ?_, ?_⟩
  · simp only [initRegion]
    split <;> omega
  · simp only [initRegion]
    split <;> omega

theorem randStates_length (n seed : Nat) : (randStates n seed).1.length = n := by
  induction n generalizing seed with
  | zero => rfl
  | succ n ih =>
    rw [randStates]
    simp only [List.length_cons, ih]

section Init

variable (cfg : ClassConfig) (env : ReleaseConfig) (primaryBase seed : Nat)
  (enableRandomOffset : Bool)

theorem init_length : (init cfg env primaryBase seed enableRandomOffset).length = cfg.numClasses := by
  rw [init]
  simp only
  rw [(shuffle_perm _ _).length_eq, List.length_mapIdx, randStates_length]

theorem init_fresh (hpage : 16 * env.pageSize ≤ 2^cfg.regionSizeLog) :
    ∀ r ∈ init cfg env primaryBase seed enableRandomOffset, r.Fresh cfg.toPrimaryConfig := by
  intro r hr
  rw [init] at hr
  simp only at hr
  obtain ⟨i, hi, rfl⟩ := List.mem_mapIdx.mp ((shuffle_perm _ _).mem_iff.mp hr)
  exact initRegion_fresh hpage _ _ _ _

/-- The shuffling keeps the regions apart. -/
theorem init_apart : (init cfg env primaryBase seed enableRandomOffset).Pairwise
    (Region.Apart cfg.toPrimaryConfig) := by
  rw [init]
  simp only
  refine ((shuffle_perm _ _).pairwise_iff Region.Apart.symm).mpr ?_
  rw [List.pairwise_iff_getElem]
  intro i j hi hj hij
  rw [List.getElem_mapIdx, List.getElem_mapIdx]
  refine .inl ?_
  simp only [initRegion]
  have hmul : (i + 1) * 2^cfg.regionSizeLog ≤ j * 2^cfg.regionSizeLog :=
    Nat.mul_le_mul_right _ hij
  rw [Nat.add_mul, Nat.one_mul] at hmul
  rw [Nat.shiftLeft_eq, Nat.shiftLeft_eq]
  omega

end Init

/-- Each class gets a region of its own. -/
theorem getRegionInfo_init (cfg : ClassConfig) (env : ReleaseConfig) (primaryBase seed : Nat)
    (enableRandomOffset : Bool) (hpage : 16 * env.pageSize ≤ 2^cfg.regionSizeLog) :
    let regions := getRegionInfo (init cfg env primaryBase seed enableRandomOffset)
    (∀ c < cfg.numClasses, (regions c).Fresh cfg.toPrimaryConfig) ∧
      ∀ c < cfg.numClasses, ∀ d < cfg.numClasses, c ≠ d →
        Region.Apart cfg.toPrimaryConfig (regions c) (regions d) := by
  have hlength := init_length cfg env primaryBase seed enableRandomOffset
  have hfresh := init_fresh cfg env primaryBase seed enableRandomOffset hpage
  have hapart := init_apart cfg env primaryBase seed enableRandomOffset
  generalize init cfg env primaryBase seed enableRandomOffset = l at hlength hfresh hapart
  intro regions
  have hget (c : Nat) (hc : c < cfg.numClasses) : regions c = l[c] := by
    simp only [regions, getRegionInfo, List.getElem?_eq_getElem (hlength ▸ hc), Option.getD_some]
  refine ⟨fun c hc => ?_, fun c hc d hd hne => ?_⟩
  · rw [hget c hc]
    exact hfresh _ (List.getElem_mem _)
  · rw [hget c hc, hget d hd]
    rw [List.pairwise_iff_getElem] at hapart
    rcases Nat.lt_or_gt_of_ne hne with hlt | hlt
    · exact hapart c d (hlength ▸ hc) (hlength ▸ hd) hlt
    · exact (hapart d c (hlength ▸ hd) (hlength ▸ hc) hlt).symm

end ScudoMte.Primary
