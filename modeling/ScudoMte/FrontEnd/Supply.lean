import ScudoMte.FrontEnd.Caches
import ScudoMte.Primary.Metadata

namespace ScudoMte.FrontEnd

open Primary Weights

/-- A weight of blocks, and what a region weighs by the blocks that it was given and that were taken
from it. What groups weigh that are parted from it is told apart. -/
structure Tally (cfg : ClassConfig) (G : Type*) [AddCommGroup G] where
  weight : Nat → G
  region : Nat → Region → G
  groups : List BatchGroup → G
  moved : ∀ {c : Nat} {r r' : Region} {given taken : List Nat},
    Region.Moved cfg.toPrimaryConfig (cfg.getSizeByClassId c) r r' given taken →
      region c r' + weigh weight taken = region c r + weigh weight given
  parted : ∀ {r r' : Region} {l : List BatchGroup}, Region.Parted r r' l →
    ∀ c, region c r' + groups l = region c r

theorem moved_count {cfg : PrimaryConfig} {size : Nat} {r r' : Region} {given taken : List Nat}
    (h : Region.Moved cfg size r r' given taken) (p : Nat) :
    (((freeOf r'.blockList).count p : ℤ) - (r'.carved cfg size).count p) +
        weigh (fun q => if q = p then (1 : ℤ) else 0) taken =
      (((freeOf r.blockList).count p : ℤ) - (r.carved cfg size).count p) +
        weigh (fun q => if q = p then (1 : ℤ) else 0) given := by
  have hcount := h.blocks.count_eq p
  simp only [List.count_append] at hcount
  rw [weigh_indicator, weigh_indicator]
  omega

theorem parted_count {cfg : PrimaryConfig} {r r' : Region} {l : List BatchGroup}
    (h : Region.Parted r r' l) (size p : Nat) :
    (((freeOf r'.blockList).count p : ℤ) - (r'.carved cfg size).count p) + (freeOf l).count p =
      ((freeOf r.blockList).count p : ℤ) - (r.carved cfg size).count p := by
  have hcount := h.blocks.count_eq p
  rw [List.count_append] at hcount
  rw [Region.carved, Region.carved, h.allocatedUser]
  omega

/-- How often a block is recorded as free, less what was carved. -/
def countTally (cfg : ClassConfig) (p : Nat) : Tally cfg ℤ where
  weight q := if q = p then 1 else 0
  region c r := (freeOf r.blockList).count p -
    (r.carved cfg.toPrimaryConfig (cfg.getSizeByClassId c)).count p
  groups l := (freeOf l).count p
  moved h := moved_count h p
  parted h c := parted_count h (cfg.getSizeByClassId c) p

/-- `PushedBlocks` less `PoppedBlocks`. -/
def counterTally (cfg : ClassConfig) : Tally cfg (BitVec 64) where
  weight _ := 1
  region _ r := r.pushedBlocks - r.poppedBlocks
  groups _ := 0
  moved h := by
    have hcounters := h.counters
    rw [weigh_one, weigh_one]
    grind
  parted h _ := by rw [h.poppedBlocks, h.pushedBlocks, add_zero]

/-- Where the regions are. Blocks weigh nothing. -/
def placeTally (cfg : ClassConfig) : Tally cfg (ℤ × ℤ) where
  weight _ := 0
  region _ r := (r.regionBeg, r.memMapBase)
  groups _ := 0
  moved h := by
    have hplace := h.place
    simp only [Region.place, Prod.mk.injEq] at hplace
    rw [weigh_zero, weigh_zero, hplace.1, hplace.2]
  parted h _ := by
    have hplace := h.place
    simp only [Region.place, Prod.mk.injEq] at hplace
    rw [hplace.1, hplace.2, add_zero]

/-- No groups weigh nothing. -/
theorem Tally.groups_nil {G : Type*} [AddCommGroup G] {cfg : ClassConfig} (T : Tally cfg G) :
    T.groups [] = 0 := by
  have hparted := T.parted (Region.Parted.refl ⟨[], 0, 0, 0, 0, 0, 0, 0, false, 0⟩) 0
  exact add_eq_left.mp hparted

variable {G : Type*} [AddCommGroup G] {cfg : ClassConfig} {kind : Kind}

theorem getMaxCached_pos (cfg : ClassConfig) (c : Nat) : 0 < cfg.getMaxCached c := by
  have htwo := cfg.two_le_batch.1
  rw [ClassConfig.getMaxCached, ClassConfig.getMaxCachedHint]
  omega

theorem maxCount_pos (cfg : ClassConfig) (kind : Kind) (c : Nat) : 0 < maxCount cfg kind c := by
  have hpos := getMaxCached_pos cfg c
  have htwo := cfg.two_le_batch.1
  cases kind with
  | localCache =>
    rw [maxCount]
    omega
  | noCache =>
    rw [maxCount]
    split <;> omega

/-- A refill of the batch class fits the front end. -/
theorem getMaxCached_le_maxCount (cfg : ClassConfig) (kind : Kind) :
    cfg.getMaxCached batchClassId ≤ maxCount cfg kind batchClassId := by
  cases kind with
  | localCache =>
    rw [maxCount]
    omega
  | noCache =>
    rw [maxCount, if_pos rfl, ClassConfig.getMaxCached]
    exact Nat.min_le_left _ _

namespace BatchClass

variable {s s' : BatchClass} {p : Nat}

/-- What the batch class keeps. -/
structure Ok (cfg : ClassConfig) (kind : Kind) (s : BatchClass) : Prop where
  region : Region.BatchClassOk cfg s.region
  le : s.chunks.length ≤ maxCount cfg kind batchClassId

/-- What the region and the front end weigh together. -/
def weight (T : Tally cfg G) (s : BatchClass) : G :=
  T.region batchClassId s.region + weigh T.weight s.chunks

theorem pushBatchClassBlocks_weight (T : Tally cfg G) (hs : s.Ok cfg kind) {array : List Nat}
    (hne : array ≠ []) : (s.pushBatchClassBlocks cfg array).Ok cfg kind ∧
      (s.pushBatchClassBlocks cfg array).weight T = s.weight T + weigh T.weight array := by
  obtain ⟨hlist, hmoved⟩ := Region.pushBatchClassBlocks_moved (cfg.getSizeByClassId batchClassId)
    hs.region.list hne
  have hw := T.moved hmoved
  rw [weigh_nil, add_zero] at hw
  refine ⟨⟨⟨hlist, hs.region.mem.congr rfl⟩, hs.le⟩, ?_⟩
  rw [weight, weight, pushBatchClassBlocks, hw]
  abel

theorem getBatchClassBlock_weight (T : Tally cfg G) (hs : s.Ok cfg kind)
    (h : s.getBatchClassBlock cfg = some (p, s')) :
    s'.Ok cfg kind ∧ s'.weight T + T.weight p = s.weight T := by
  rw [getBatchClassBlock] at h
  cases hlast : s.chunks.getLast? with
  | some q =>
    rw [hlast] at h
    cases h
    obtain ⟨rest, hrest⟩ := List.getLast?_eq_some_iff.mp hlast
    refine ⟨⟨hs.region, ?_⟩, ?_⟩
    · have hle := hs.le
      simp only [List.length_dropLast]
      omega
    · simp only [weight, hrest, List.dropLast_concat, weigh_append, weigh_cons, weigh_nil]
      abel
  | none =>
    have hnil := List.getLast?_eq_none_iff.mp hlast
    obtain ⟨hok, hmoved⟩ := Region.popBatchClass_ok hs.region (s.remaps.headD false)
    have hle := Region.popBatchClass_length hs.region (s.remaps.headD false)
    simp only [hlast] at h
    obtain ⟨q, hq, hret⟩ := Option.map_eq_some_iff.mp h
    obtain ⟨rest, hrest⟩ := List.getLast?_eq_some_iff.mp hq
    have hw := T.moved hmoved
    cases hret
    rw [hrest] at hle hw
    refine ⟨⟨hok, ?_⟩, ?_⟩
    · have hmax := getMaxCached_le_maxCount cfg kind
      simp only [hrest, List.dropLast_concat]
      rw [List.length_append] at hle
      omega
    · simp only [weight, hrest, hnil, List.dropLast_concat, weigh_append, weigh_cons, weigh_nil] at hw ⊢
      grind

theorem drainLocal_weight (T : Tally cfg G) (hs : s.Ok cfg kind) (hne : s.chunks ≠ []) :
    (s.drainLocal cfg).Ok cfg kind ∧ (s.drainLocal cfg).weight T = s.weight T ∧
      (s.drainLocal cfg).chunks.length < s.chunks.length := by
  have hpos := maxCount_pos cfg .localCache batchClassId
  have hmax : 0 < maxCount cfg .localCache batchClassId / 2 := by
    have hpos := getMaxCached_pos cfg batchClassId
    rw [maxCount]
    omega
  have hlen := List.length_pos_of_ne_nil hne
  rw [drainLocal]
  generalize hn : min (maxCount cfg .localCache batchClassId / 2) s.chunks.length = n
  have htake : s.chunks.take n ≠ [] := by
    refine List.ne_nil_of_length_pos ?_
    rw [List.length_take]
    omega
  obtain ⟨hok, hw⟩ := pushBatchClassBlocks_weight T hs htake
  refine ⟨⟨hok.region, ?_⟩, ?_, ?_⟩
  · have hle := hs.le
    simp only [List.length_drop]
    omega
  · have hsplit := congrArg (weigh T.weight) (List.take_append_drop n s.chunks)
    simp only [weight, pushBatchClassBlocks, weigh_append] at hw hsplit ⊢
    grind
  · simp only [List.length_drop]
    omega

theorem drainStorage_weight (T : Tally cfg G) (hs : s.Ok cfg kind) :
    (s.drainStorage cfg).Ok cfg kind ∧ (s.drainStorage cfg).weight T = s.weight T ∧
      (s.drainStorage cfg).chunks = [] := by
  rw [drainStorage]
  split
  · next hnil => exact ⟨hs, rfl, hnil⟩
  · next hne =>
    obtain ⟨hok, hw⟩ := pushBatchClassBlocks_weight T hs hne
    refine ⟨⟨hok.region, Nat.zero_le _⟩, ?_, rfl⟩
    simp only [weight, pushBatchClassBlocks, weigh_nil] at hw ⊢
    grind

theorem deallocate_weight (T : Tally cfg G) (p : Nat) (hs : s.Ok cfg kind) :
    (s.deallocate cfg kind p).Ok cfg kind ∧
      (s.deallocate cfg kind p).weight T = s.weight T + T.weight p := by
  have hadd : ∀ {s1 : BatchClass}, s1.Ok cfg kind →
      s1.chunks.length < maxCount cfg kind batchClassId → s1.weight T = s.weight T →
      ({ s1 with chunks := s1.chunks ++ [p] } : BatchClass).Ok cfg kind ∧
        ({ s1 with chunks := s1.chunks ++ [p] } : BatchClass).weight T =
          s.weight T + T.weight p := by
    intro s1 hok hlt hw
    refine ⟨⟨hok.region, ?_⟩, ?_⟩
    · rw [List.length_append]
      exact hlt
    · rw [← hw]
      simp only [weight, weigh_append, weigh_cons, weigh_nil]
      abel
  have hpos := maxCount_pos cfg kind batchClassId
  have hle := hs.le
  cases kind with
  | localCache =>
    simp only [deallocate]
    split
    · next hfull =>
      obtain ⟨hok, hw, hlt⟩ := drainLocal_weight T hs (List.ne_nil_of_length_pos (by omega))
      exact hadd hok (by omega) hw
    · next hroom => exact hadd hs (by omega) rfl
  | noCache =>
    simp only [deallocate]
    split
    · obtain ⟨hok, hw, hnil⟩ := drainStorage_weight T hs
      refine hadd hok ?_ hw
      rw [hnil]
      exact hpos
    · next hroom => exact hadd hs (by omega) rfl

theorem ops_supply (T : Tally cfg G) (kind : Kind) :
    Supply (ops cfg kind) (Ok cfg kind) T.weight (weight T) where
  get hs h := getBatchClassBlock_weight T hs h
  deallocate p hs := deallocate_weight T p hs
  push hs hne := pushBatchClassBlocks_weight T hs hne

theorem drainLoop_weight (T : Tally cfg G) {fuel : Nat} (hs : s.Ok cfg kind)
    (hfuel : s.chunks.length ≤ fuel) : (s.drainLoop cfg fuel).Ok cfg kind ∧
      (s.drainLoop cfg fuel).weight T = s.weight T ∧ (s.drainLoop cfg fuel).chunks = [] := by
  induction fuel generalizing s with
  | zero => exact ⟨hs, rfl, List.eq_nil_of_length_eq_zero (Nat.le_zero.mp hfuel)⟩
  | succ fuel ih =>
    rw [drainLoop]
    split
    · next hnil => exact ⟨hs, rfl, hnil⟩
    · next hne =>
      obtain ⟨hok, hw, hlt⟩ := drainLocal_weight T hs hne
      obtain ⟨hok', hw', hnil⟩ := ih hok (by omega)
      exact ⟨hok', hw'.trans hw, hnil⟩

end BatchClass

end ScudoMte.FrontEnd
