import ScudoMte.FrontEnd.Blocks

namespace ScudoMte.FrontEnd.Blocks

open Primary Weights

variable {τ G : Type*} [AddCommGroup G] [Fintype τ] {cfg : ClassConfig} {kind : Kind}
  {env : ReleaseConfig} {st st' : Blocks τ} {t : τ} {remaps : List Bool} {f : Front} {c : Nat}

/-- Groups move between the list of a class and those that are extracted from it. The batch class
takes what they were built in. -/
theorem total_groups (T : Tally cfg G) {r batch : Region} {o : Option (List BatchGroup)}
    (hc : c ∈ Front.classes cfg)
    (hregion : T.region c r + T.groups (o.getD []) =
      T.region c (st.regions c) + T.groups (st.groupsOf c))
    (hmeta : T.region batchClassId batch + weigh T.weight (metaOf r.blockList) +
      weigh T.weight (metaOf (o.getD [])) = T.region batchClassId (st.regions batchClassId) +
        weigh T.weight (metaOf (st.regions c).blockList) + weigh T.weight (metaOf (st.groupsOf c)))
    (d : Nat) :
    ({ st with
      regions := Function.update (Function.update st.regions batchClassId batch) c r
      groupsToRelease := Function.update st.groupsToRelease c o } : Blocks τ).total T d =
        st.total T d := by
  have hne := (Front.mem_classes.mp hc).2
  let metaTerm (e : Nat) := weigh T.weight (metaOf (st.regions e).blockList) +
    weigh T.weight (metaOf (st.groupsOf e))
  let metaTerm' (e : Nat) :=
    weigh T.weight (metaOf
      (Function.update (Function.update st.regions batchClassId batch) c r e).blockList) +
      weigh T.weight (metaOf ((Function.update st.groupsToRelease c o e).getD []))
  have hterm : metaTerm' = Function.update metaTerm' c (metaTerm' c) := by
    rw [Function.update_eq_self]
  have hsum : ∑ e ∈ (Front.classes cfg).toFinset, metaTerm' e + metaTerm c =
      ∑ e ∈ (Front.classes cfg).toFinset, metaTerm e + metaTerm' c := by
    have hupdate := sum_update_add (List.mem_toFinset.mpr hc) metaTerm (metaTerm' c)
    rw [← hupdate]
    refine congrArg (· + _) (Finset.sum_congr rfl fun e he => ?_)
    have he0 := (Front.mem_classes.mp (List.mem_toFinset.mp he)).2
    by_cases hec : e = c
    · rw [hec, Function.update_self]
    · simp only [metaTerm', metaTerm, Function.update_of_ne hec, Function.update_of_ne he0]
      rfl
  have hheld : ({ st with
      regions := Function.update (Function.update st.regions batchClassId batch) c r
      groupsToRelease := Function.update st.groupsToRelease c o } : Blocks τ).heldOf d =
        st.heldOf d := rfl
  rw [total, total, hheld]
  simp only [groupsOf] at hregion hmeta ⊢
  simp only [metaTerm, metaTerm', groupsOf, Function.update_self] at hsum
  by_cases hd : d = c
  · subst hd
    simp only [Function.update_self, if_neg hne]
    grind
  · by_cases hd0 : d = batchClassId
    · subst hd0
      simp only [Function.update_of_ne hd, Function.update_self, if_true]
      grind
    · simp only [Function.update_of_ne hd, Function.update_of_ne hd0, if_neg hd0]

omit [Fintype τ] in
/-- The regions of the batch class and of one more are changed, and the groups of the latter. -/
theorem Ok.groups_moved (h : st.Ok cfg kind) (hc : c ∈ Front.classes cfg) {r batch : Region}
    {o : Option (List BatchGroup)} (hbatch : Region.BatchClassOk cfg batch)
    (hr : Region.ClassOk cfg c r) (ho : ∀ groups ∈ o, GroupsOk cfg c groups) :
    ({ st with
      regions := Function.update (Function.update st.regions batchClassId batch) c r
      groupsToRelease := Function.update st.groupsToRelease c o } : Blocks τ).Ok cfg kind := by
  have hne := (Front.mem_classes.mp hc).2
  have hbatch' : Function.update (Function.update st.regions batchClassId batch) c r batchClassId =
      batch := by
    rw [Function.update_of_ne hne.symm, Function.update_self]
  have hregions : ∀ d ∈ Front.classes cfg, Region.ClassOk cfg d
      (Function.update (Function.update st.regions batchClassId batch) c r d) := by
    intro d hd
    by_cases hdc : d = c
    · subst hdc
      rw [Function.update_self]
      exact hr
    · rw [Function.update_of_ne hdc, Function.update_of_ne (Front.mem_classes.mp hd).2]
      exact h.regions d hd
  refine ⟨?_, hregions, fun t => ?_, fun d groups hd => ?_, h.held⟩
  · simp only [hbatch']
    exact hbatch
  · have ht := h.fronts t
    refine ⟨⟨?_, ht.batchClass.le⟩, hregions, ht.le, ht.range, ht.empty⟩
    simp only [Front.batchClass, Blocks.front, hbatch']
    exact hbatch
  · simp only at hd
    by_cases hdc : d = c
    · subst hdc
      rw [Function.update_self] at hd
      exact ho groups hd
    · rw [Function.update_of_ne hdc] at hd
      exact h.groups d groups hd

theorem extract_keeps (T : Tally cfg G) (h : st.Ok cfg kind) (hc : c ∈ Front.classes cfg)
    (hnone : st.groupsToRelease c = none) {r : Region} {groups : List BatchGroup}
    (hparted : Region.Parted (st.regions c) r groups) (hmemory : r.memory = (st.regions c).memory)
    (hlist : ListOk cfg.toPrimaryConfig r.blockList) (hgroups : ListOk cfg.toPrimaryConfig groups)
    (hmeta : weigh T.weight (metaOf r.blockList) + weigh T.weight (metaOf groups) =
      weigh T.weight (metaOf (st.regions c).blockList)) :
    (st.extract c r groups).Ok cfg kind ∧ ∀ d, (st.extract c r groups).total T d = st.total T d := by
  obtain ⟨hr, hrange⟩ := (h.regions c hc).parted hparted hlist hmemory
  have hget : (if groups = [] then none else some groups).getD [] = groups := by
    split
    · next hnil => rw [hnil, Option.getD_none]
    · rw [Option.getD_some]
  have hgroupsOf : st.groupsOf c = [] := by
    rw [groupsOf, hnone, Option.getD_none]
  have hsame : st.extract c r groups = { st with
      regions := Function.update (Function.update st.regions batchClassId (st.regions batchClassId)) c r
      groupsToRelease := Function.update st.groupsToRelease c
        (if groups = [] then none else some groups) } := by
    rw [Function.update_eq_self, extract]
  rw [hsame]
  refine ⟨h.groups_moved hc h.batchClass hr fun groups' ho => ?_, total_groups T hc ?_ ?_⟩
  · split at ho
    · cases ho
    · cases ho
      exact ⟨hc, hgroups, hrange⟩
  · rw [hget, hgroupsOf, T.groups_nil, add_zero]
    exact T.parted hparted c
  · rw [hget, hgroupsOf, metaOf_nil, weigh_nil, add_zero, add_assoc, hmeta]

/-- The groups that go back leave unused batches to the batch class. -/
theorem mergeBack_keeps (T : Tally cfg G) (h : st.Ok cfg kind) (hsome : st.groupsToRelease c ≠ none) :
    (st.mergeBack cfg kind c).Ok cfg kind ∧
      ∀ d, (st.mergeBack cfg kind c).total T d = st.total T d := by
  obtain ⟨groups, hgroups⟩ := Option.ne_none_iff_exists'.mp hsome
  obtain ⟨hc, hlist, hrange⟩ := h.groups c groups hgroups
  have hgroupsOf : st.groupsOf c = groups := by
    rw [groupsOf, hgroups, Option.getD_some]
  have hclass := h.regions c hc
  have hs : BatchClass.Ok cfg kind ⟨st.regions batchClassId, [], []⟩ :=
    ⟨h.batchClass, Nat.zero_le _⟩
  obtain ⟨hs', hw⟩ := mergeGroupsToReleaseBack_supply (BatchClass.ops_supply T kind)
    (st.regions c).blockList groups hs
  have hnil := @mergeGroupsToReleaseBack_pushes _ (BatchClass.ops cfg kind)
    ⟨st.regions batchClassId, [], []⟩ (fun s => s.chunks = []) (fun _ _ hs => hs)
    (st.regions c).blockList groups rfl
  obtain ⟨hmerged, hperm⟩ := @mergeGroupsToReleaseBack_ok _ _ (BatchClass.ops cfg kind) _ _
    (⟨st.regions batchClassId, [], []⟩ : BatchClass) hclass.list hlist
  have hparted := @Region.parted_merge _ (BatchClass.ops cfg kind) (st.regions c) _ groups
    (⟨st.regions batchClassId, [], []⟩ : BatchClass) hclass.list hlist
  rw [mergeBack, hgroupsOf]
  simp only
  generalize Primary.mergeGroupsToReleaseBack (BatchClass.ops cfg kind) (st.regions c).blockList
    groups ⟨st.regions batchClassId, [], []⟩ = out at *
  obtain ⟨blockList, s⟩ := out
  have hnil : s.chunks = [] := hnil
  simp only [BatchClass.weight, hnil, weigh_nil, add_zero] at hw
  have hr : Region.ClassOk cfg c { st.regions c with blockList } := by
    refine ⟨hmerged, hclass.mem.congr rfl, fun p hp => ?_⟩
    rcases List.mem_append.mp (hparted.blocks.mem_iff.mp hp) with hp | hp
    · exact hclass.range p hp
    · exact hrange p hp
  refine ⟨h.groups_moved hc hs'.region hr (fun _ hg => absurd hg (by simp)), total_groups T hc ?_ ?_⟩
  · rw [Option.getD_none, hgroupsOf, T.groups_nil, add_zero]
    exact (T.parted hparted c).symm
  · rw [Option.getD_none, hgroupsOf, metaOf_nil, weigh_nil, add_zero]
    exact hw

variable [DecidableEq τ]

theorem allocate_keeps (T : Tally cfg G) {block : Option Nat} (h : st.Ok cfg kind)
    (hc : c ∈ Front.classes cfg)
    (hcall : (st.front t remaps).allocate cfg kind c = some (block, f)) :
    let st' : Blocks τ := { st.setFront t f with held := block.toList.map (c, ·) ++ st.held }
    st'.Ok cfg kind ∧ ∀ d, st'.total T d = st.total T d := by
  obtain ⟨hf, hserves, hrange⟩ := Front.allocate_serves T (h.front t remaps) hc hcall
  refine ⟨h.setFront hf fun b hb => ?_, total_call T hserves fun d => ?_⟩
  · rcases List.mem_append.mp hb with hb | hb
    · obtain ⟨p, hp, rfl⟩ := List.mem_map.mp hb
      exact ⟨hc, hrange p (Option.mem_toList.mp hp)⟩
    · exact h.held b hb
  · rw [heldOf_append, weigh_append]
    by_cases hd : d = c
    · simp only [if_pos hd, weigh_nil]
      abel
    · simp only [if_neg hd, weigh_nil]
      abel

theorem deallocate_keeps (T : Tally cfg G) {p : Nat} (h : st.Ok cfg kind) (hp : (c, p) ∈ st.held)
    (hcall : (st.front t remaps).deallocate cfg kind c p = some f) :
    let st' : Blocks τ := { st.setFront t f with held := st.held.erase (c, p) }
    st'.Ok cfg kind ∧ ∀ d, st'.total T d = st.total T d := by
  obtain ⟨hf, hserves⟩ := Front.deallocate_serves T (h.front t remaps) (.inr (h.held _ hp)) hcall
  refine ⟨h.setFront hf fun b hb => h.held b (List.mem_of_mem_erase hb),
    total_call T hserves fun d => ?_⟩
  rw [weigh_perm (heldOf_erase st hp d), weigh_append]
  by_cases hd : d = c
  · simp only [if_pos hd, weigh_nil]
    abel
  · simp only [if_neg hd, weigh_nil]
    abel

theorem drain_keeps (T : Tally cfg G) (h : st.Ok cfg kind)
    (hcall : (st.front t remaps).drain cfg kind = some f) :
    (st.setFront t f).Ok cfg kind ∧ (∀ d, (st.setFront t f).total T d = st.total T d) ∧
      ∀ d, f.chunks d = [] := by
  obtain ⟨hf, hserves, hnil⟩ := Front.drain_serves T (h.front t remaps) hcall
  have hheld : ∀ d, weigh T.weight (({ st with held := st.held } : Blocks τ).heldOf d) +
      (if d = batchClassId then weigh T.weight [] else 0) =
        weigh T.weight (st.heldOf d) + if d = batchClassId then weigh T.weight [] else 0 :=
    fun _ => rfl
  have htotal := total_call T hserves hheld
  exact ⟨h.setFront hf h.held, htotal, hnil⟩

theorem destroy_keeps (T : Tally cfg G) (h : st.Ok cfg kind)
    (hcall : (st.front t remaps).destroy cfg kind = some f) :
    (st.setFront t f).Ok cfg kind ∧ ∀ d, (st.setFront t f).total T d = st.total T d := by
  cases kind with
  | localCache =>
    obtain ⟨hok, htotal, -⟩ := drain_keeps T h hcall
    exact ⟨hok, htotal⟩
  | noCache =>
    cases hcall
    have hsame : st.setFront t (st.front t remaps) = st := by
      simp only [setFront, front, Function.update_eq_self]
    rw [hsame]
    exact ⟨h, fun _ => rfl⟩

/-- Every step keeps what every class weighs. -/
theorem Ok.step (T : Tally cfg G) {a : BlockAct τ} (h : st.Ok cfg kind) (ha : st.Enabled cfg a)
    (hstep : st.step cfg kind env a = some st') :
    st'.Ok cfg kind ∧ ∀ d, st'.total T d = st.total T d := by
  cases a with
  | allocate t c remaps =>
    obtain ⟨⟨block, f⟩, hcall, rfl⟩ := Option.map_eq_some_iff.mp hstep
    exact allocate_keeps T h ha hcall
  | deallocate t c p remaps =>
    obtain ⟨f, hcall, rfl⟩ := Option.map_eq_some_iff.mp hstep
    exact deallocate_keeps T h ha hcall
  | drain t remaps =>
    obtain ⟨f, hcall, rfl⟩ := Option.map_eq_some_iff.mp hstep
    obtain ⟨hok, htotal, -⟩ := drain_keeps T h hcall
    exact ⟨hok, htotal⟩
  | destroy t remaps =>
    obtain ⟨f, hcall, rfl⟩ := Option.map_eq_some_iff.mp hstep
    exact destroy_keeps T h hcall
  | extractAll c =>
    cases hstep
    refine extract_keeps T h ha.1 ha.2 (Region.parted_all _) rfl ⟨.nil, nofun⟩
      (h.regions c ha.1).list ?_
    rw [metaOf_nil, weigh_nil, zero_add]
  | collectGroupsToRelease c =>
    cases hstep
    have hlist := (h.regions c ha.1).list
    obtain ⟨hreleased, hkept, -⟩ :=
      Region.collectGroupsToRelease_ok env (cfg.getSizeByClassId c) hlist
    exact extract_keeps T h ha.1 ha.2 (Region.parted_collect env _ hlist) rfl hkept hreleased
      (Region.collectLoop_meta env _ _ _ _)
  | mergeGroupsToReleaseBack c =>
    cases hstep
    exact mergeBack_keeps T h ha

end ScudoMte.FrontEnd.Blocks
