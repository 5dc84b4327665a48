import ScudoMte.FrontEnd.Supply

namespace ScudoMte.FrontEnd.Front

open Primary Weights

variable {G : Type*} [AddCommGroup G] {cfg : ClassConfig} {kind : Kind} {f f' : Front} {c : Nat}

theorem mem_classes : c ∈ classes cfg ↔ c < cfg.numClasses ∧ c ≠ batchClassId := by
  rw [classes, List.mem_filter, List.mem_range, decide_eq_true_eq]

/-- What the regions and a front end keep. -/
structure Ok (cfg : ClassConfig) (kind : Kind) (f : Front) : Prop where
  batchClass : f.batchClass.Ok cfg kind
  regions : ∀ c ∈ classes cfg, Region.ClassOk cfg c (f.regions c)
  le : ∀ c, (f.chunks c).length ≤ maxCount cfg kind c
  range : ∀ c ≠ batchClassId, ∀ p ∈ f.chunks c, Region.InRange cfg.toPrimaryConfig p
  /-- Without a cache, only blocks of the batch class are kept. -/
  empty : ∀ c ≠ batchClassId, c ∉ classes cfg ∨ kind = .noCache → f.chunks c = []

/-- The regions of one front end with the blocks of another. -/
theorem Ok.with_regions (hf : f.Ok cfg kind) (hf' : f'.Ok cfg kind) (remaps : List Bool) :
    (⟨f'.regions, f.chunks, remaps⟩ : Front).Ok cfg kind :=
  ⟨⟨hf'.batchClass.region, hf.batchClass.le⟩, hf'.regions, hf.le, hf.range, hf.empty⟩

/-- The weight of the blocks that the free lists are built in. -/
def metaWeight (T : Tally cfg G) (f : Front) : G :=
  ∑ c ∈ (classes cfg).toFinset, weigh T.weight (metaOf (f.regions c).blockList)

/-- What a class weighs, in its region and in the front end. The free lists are built in blocks of
the batch class. -/
def total (T : Tally cfg G) (f : Front) (c : Nat) : G :=
  T.region c (f.regions c) + weigh T.weight (f.chunks c) +
    if c = batchClassId then f.metaWeight T else 0

/-- Of the class `c`, a call puts in `given` and takes out `taken`. -/
def Serves (T : Tally cfg G) (c : Nat) (given taken : List Nat) (f f' : Front) : Prop :=
  ∀ d, f'.total T d + (if d = c then weigh T.weight taken else 0) =
    f.total T d + (if d = c then weigh T.weight given else 0)

theorem Serves.refl (T : Tally cfg G) (c : Nat) (f : Front) : Serves T c [] [] f f := fun _ => rfl

theorem Serves.trans {T : Tally cfg G} {given taken given' taken' : List Nat} {f'' : Front}
    (h : Serves T c given taken f f') (h' : Serves T c given' taken' f' f'') :
    Serves T c (given ++ given') (taken ++ taken') f f'' := by
  intro d
  have hfirst := h d
  have hsecond := h' d
  by_cases hd : d = c
  · simp only [if_pos hd, weigh_append] at hfirst hsecond ⊢
    grind
  · simp only [if_neg hd] at hfirst hsecond ⊢
    grind

/-- Nothing goes in and nothing comes out, whichever class it is about. -/
theorem Serves.of_class {T : Tally cfg G} (h : Serves T c [] [] f f') (d : Nat) :
    Serves T d [] [] f f' := by
  intro e
  have he := h e
  simp only [weigh_nil, ite_self] at he ⊢
  exact he

/-- A region and the batch class do the work, and the front end keeps its blocks of the class. -/
theorem serves_region (T : Tally cfg G) (hc : c ∈ classes cfg) {r : Region} {s : BatchClass}
    {given taken : List Nat}
    (hclass : T.region c r + weigh T.weight taken = T.region c (f.regions c) + weigh T.weight given)
    (hbatch : s.weight T + weigh T.weight (metaOf r.blockList) =
      f.batchClass.weight T + weigh T.weight (metaOf (f.regions c).blockList)) :
    Serves T c given taken f ((f.setBatchClass s).setRegion c r) := by
  have hne := (mem_classes.mp hc).2
  have hmeta : ((f.setBatchClass s).setRegion c r).metaWeight T +
      weigh T.weight (metaOf (f.regions c).blockList) =
      f.metaWeight T + weigh T.weight (metaOf r.blockList) := by
    have hsum := sum_update_add (List.mem_toFinset.mpr hc)
      (fun d => weigh T.weight (metaOf (f.regions d).blockList)) (weigh T.weight (metaOf r.blockList))
    rw [metaWeight, metaWeight, ← hsum]
    refine congrArg (· + _) (Finset.sum_congr rfl fun d hd => ?_)
    have hd0 := (mem_classes.mp (List.mem_toFinset.mp hd)).2
    by_cases hdc : d = c
    · simp only [hdc, setRegion, Function.update_self]
    · simp only [setRegion, Function.update_of_ne hdc, setBatchClass, Function.update_of_ne hd0]
  intro d
  by_cases hdc : d = c
  · subst hdc
    simp only [total, setRegion, setBatchClass, Function.update_self, Function.update_of_ne hne,
      if_neg hne, if_true]
    grind
  · by_cases hd0 : d = batchClassId
    · subst hd0
      simp only [total, setRegion, setBatchClass, Function.update_self, Function.update_of_ne hdc,
        if_neg hdc, if_true] at hmeta ⊢
      simp only [BatchClass.weight, Front.batchClass] at hbatch
      grind
    · simp only [total, setRegion, setBatchClass, Function.update_of_ne hdc,
        Function.update_of_ne hd0, if_neg hdc, if_neg hd0]

/-- The front end has other blocks of the class. -/
theorem serves_setChunks (T : Tally cfg G) (f : Front) (c : Nat) (chunks : List Nat) :
    Serves T c chunks (f.chunks c) f (f.setChunks c chunks) := by
  have hmeta : (f.setChunks c chunks).metaWeight T = f.metaWeight T := rfl
  intro d
  by_cases hd : d = c
  · subst hd
    simp only [total, hmeta, if_true]
    simp only [setChunks, Function.update_self]
    abel
  · simp only [total, hmeta, if_neg hd]
    simp only [setChunks, Function.update_of_ne hd]

/-- The batch class does the work. -/
theorem serves_batchClass (T : Tally cfg G) {s : BatchClass} {given taken : List Nat}
    (h : s.weight T + weigh T.weight taken = f.batchClass.weight T + weigh T.weight given) :
    Serves T batchClassId given taken f (f.setBatchClass s) := by
  have hmeta : (f.setBatchClass s).metaWeight T = f.metaWeight T := by
    refine Finset.sum_congr rfl fun d hd => ?_
    have hd0 := (mem_classes.mp (List.mem_toFinset.mp hd)).2
    simp only [setBatchClass, Function.update_of_ne hd0]
  intro d
  by_cases hd : d = batchClassId
  · subst hd
    simp only [BatchClass.weight, Front.batchClass] at h
    simp only [total, hmeta, if_true]
    simp only [setBatchClass, Function.update_self]
    grind
  · simp only [total, hmeta, if_neg hd]
    simp only [setBatchClass, Function.update_of_ne hd]

theorem Ok.region_updated (hf : f.Ok cfg kind) (hc : c ∈ classes cfg) {r : Region} {s : BatchClass}
    (hr : Region.ClassOk cfg c r) (hs : s.Ok cfg kind) :
    ((f.setBatchClass s).setRegion c r).Ok cfg kind := by
  have hne := (mem_classes.mp hc).2
  refine ⟨⟨?_, ?_⟩, ?_, ?_, ?_, ?_⟩
  · simp only [Front.batchClass, setRegion, setBatchClass, Function.update_of_ne hne.symm,
      Function.update_self]
    exact hs.region
  · simp only [Front.batchClass, setRegion, setBatchClass, Function.update_self]
    exact hs.le
  · intro d hd
    simp only [setRegion, setBatchClass]
    by_cases hdc : d = c
    · rw [hdc, Function.update_self]
      exact hr
    · rw [Function.update_of_ne hdc, Function.update_of_ne (mem_classes.mp hd).2]
      exact hf.regions d hd
  · intro d
    simp only [setRegion, setBatchClass]
    by_cases hd : d = batchClassId
    · rw [hd, Function.update_self]
      exact hs.le
    · rw [Function.update_of_ne hd]
      exact hf.le d
  · intro d hd
    simp only [setRegion, setBatchClass]
    rw [Function.update_of_ne hd]
    exact hf.range d hd
  · intro d hd
    simp only [setRegion, setBatchClass]
    rw [Function.update_of_ne hd]
    exact hf.empty d hd

theorem Ok.setBatchClass (hf : f.Ok cfg kind) {s : BatchClass} (hs : s.Ok cfg kind) :
    (f.setBatchClass s).Ok cfg kind := by
  refine ⟨⟨?_, ?_⟩, ?_, ?_, ?_, ?_⟩
  · simp only [Front.batchClass, Front.setBatchClass, Function.update_self]
    exact hs.region
  · simp only [Front.batchClass, Front.setBatchClass, Function.update_self]
    exact hs.le
  · intro d hd
    simp only [Front.setBatchClass]
    rw [Function.update_of_ne (mem_classes.mp hd).2]
    exact hf.regions d hd
  · intro d
    simp only [Front.setBatchClass]
    by_cases hd : d = batchClassId
    · rw [hd, Function.update_self]
      exact hs.le
    · rw [Function.update_of_ne hd]
      exact hf.le d
  · intro d hd
    simp only [Front.setBatchClass]
    rw [Function.update_of_ne hd]
    exact hf.range d hd
  · intro d hd
    simp only [Front.setBatchClass]
    rw [Function.update_of_ne hd]
    exact hf.empty d hd

theorem Ok.setChunks (hf : f.Ok cfg .localCache) (hc : c ∈ classes cfg) {chunks : List Nat}
    (hle : chunks.length ≤ maxCount cfg .localCache c)
    (hrange : ∀ p ∈ chunks, Region.InRange cfg.toPrimaryConfig p) :
    (f.setChunks c chunks).Ok cfg .localCache := by
  have hc0 := (mem_classes.mp hc).2
  refine ⟨⟨hf.batchClass.region, ?_⟩, hf.regions, ?_, ?_, ?_⟩
  · simp only [Front.batchClass, Front.setChunks, Function.update_of_ne hc0.symm]
    exact hf.batchClass.le
  · intro d
    simp only [Front.setChunks]
    by_cases hd : d = c
    · rw [hd, Function.update_self]
      exact hle
    · rw [Function.update_of_ne hd]
      exact hf.le d
  · intro d hd0
    simp only [Front.setChunks]
    by_cases hd : d = c
    · rw [hd, Function.update_self]
      exact hrange
    · rw [Function.update_of_ne hd]
      exact hf.range d hd0
  · intro d hd0 hd
    simp only [Front.setChunks]
    by_cases hdc : d = c
    · subst hdc
      rcases hd with hd | hd
      · exact absurd hc hd
      · cases hd
    · rw [Function.update_of_ne hdc]
      exact hf.empty d hd0 hd

theorem pushBlocks_serves (T : Tally cfg G) (hf : f.Ok cfg kind) (hc : c ∈ classes cfg)
    {array : List Nat} (hne : array ≠ [])
    (hrange : ∀ p ∈ array, Region.InRange cfg.toPrimaryConfig p)
    (h : f.pushBlocks cfg kind c array = some f') :
    f'.Ok cfg kind ∧ Serves T c array [] f f' ∧ ∀ d ≠ batchClassId, f'.chunks d = f.chunks d := by
  obtain ⟨⟨r, s⟩, hpush, hret⟩ := Option.bind_eq_some_iff.mp h
  cases hret
  obtain ⟨hr, hmoved⟩ := Region.pushBlocks_moved hpush (hf.regions c hc) hne hrange
  obtain ⟨hs, hw⟩ := Region.pushBlocksImpl_supply (BatchClass.ops_supply T kind) hf.batchClass hpush
  refine ⟨hf.region_updated hc hr hs, serves_region T hc (T.moved hmoved) hw, fun d hd => ?_⟩
  simp only [setRegion, Front.setBatchClass]
  exact Function.update_of_ne hd _ _

theorem popBlocks_serves (T : Tally cfg G) (hf : f.Ok cfg kind) (hc : c ∈ classes cfg)
    {maxBlockCount : Nat} {blocks : List Nat}
    (h : f.popBlocks cfg kind c maxBlockCount = some (blocks, f')) :
    f'.Ok cfg kind ∧ Serves T c [] blocks f f' ∧ (∀ d ≠ batchClassId, f'.chunks d = f.chunks d) ∧
      blocks.length ≤ maxBlockCount ∧ ∀ p ∈ blocks, Region.InRange cfg.toPrimaryConfig p := by
  obtain ⟨⟨toArray, r, s⟩, hpop, hret⟩ := Option.bind_eq_some_iff.mp h
  cases hret
  have hclass := hf.regions c hc
  have hbatch : ({ f.batchClass with remaps := f.remaps.tail } : BatchClass).Ok cfg kind :=
    ⟨hf.batchClass.region, hf.batchClass.le⟩
  obtain ⟨hr, hmoved⟩ := Region.popBlocks_ok (mem_classes.mp hc).1 hpop hclass
  obtain ⟨hs, hw⟩ := Region.popBlocks_supply (BatchClass.ops_supply T kind) hbatch hclass.list hpop
  refine ⟨hf.region_updated hc hr hs, serves_region T hc (T.moved hmoved) hw, fun d hd => ?_,
    Region.popBlocks_length hpop hclass, (hmoved.range hr.mem nofun hclass.range).1⟩
  simp only [setRegion, Front.setBatchClass]
  exact Function.update_of_ne hd _ _

end ScudoMte.FrontEnd.Front
