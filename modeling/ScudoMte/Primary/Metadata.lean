import ScudoMte.Library.Weights
import ScudoMte.Primary.ClassMoves

namespace ScudoMte.Primary

open Weights

/-- The blocks of the batch class that a free list is built in. -/
def metaOf (groups : List BatchGroup) : List Nat :=
  groups.flatMap fun bg => bg.addr :: bg.batches.map Batch.addr

@[simp] theorem metaOf_nil : metaOf [] = [] := rfl

@[simp] theorem metaOf_cons (bg : BatchGroup) (groups : List BatchGroup) :
    metaOf (bg :: groups) = bg.addr :: (bg.batches.map Batch.addr ++ metaOf groups) :=
  List.flatMap_cons

@[simp] theorem metaOf_append (groups groups' : List BatchGroup) :
    metaOf (groups ++ groups') = metaOf groups ++ metaOf groups' := List.flatMap_append

/-- What the batch class holds, by weight: a block that it hands out is missing there, and one that
it gets back is there again. -/
structure Supply {σ G : Type*} [AddCommGroup G] (ops : BatchClassOps σ) (Ok : σ → Prop) (w : Nat → G)
    (Φ : σ → G) : Prop where
  get : ∀ {s s' a}, Ok s → ops.getBatchClassBlock s = some (a, s') → Ok s' ∧ Φ s' + w a = Φ s
  deallocate : ∀ {s} a, Ok s → Ok (ops.deallocate s a) ∧ Φ (ops.deallocate s a) = Φ s + w a
  push : ∀ {s l}, Ok s → l ≠ [] →
    Ok (ops.pushBatchClassBlocks s l) ∧ Φ (ops.pushBatchClassBlocks s l) = Φ s + weigh w l

variable {σ G : Type*} [AddCommGroup G] {ops : BatchClassOps σ} {Ok : σ → Prop} {w : Nat → G}
  {Φ : σ → G} {cfg : PrimaryConfig} {s s' : σ}

theorem insertLoop_supply (h : Supply ops Ok w Φ) {max fuel : Nat} {batches batches' : List Batch}
    {array : List Nat} (hs : Ok s) (hrun : insertLoop ops max fuel batches array s = some (batches', s')) :
    Ok s' ∧ Φ s' + weigh w (batches'.map Batch.addr) = Φ s + weigh w (batches.map Batch.addr) := by
  induction fuel generalizing batches array s with
  | zero =>
    cases array with
    | nil =>
      cases hrun
      exact ⟨hs, rfl⟩
    | cons p array => cases hrun
  | succ fuel ih =>
    cases array with
    | nil =>
      cases hrun
      exact ⟨hs, rfl⟩
    | cons p array =>
      cases batches with
      | nil => cases hrun
      | cons cur batches =>
        simp only [insertLoop] at hrun
        split at hrun
        · obtain ⟨⟨a, s1⟩, hget, hrun⟩ := Option.bind_eq_some_iff.mp hrun
          obtain ⟨hs1, hw⟩ := h.get hs hget
          obtain ⟨hs', hw'⟩ := ih hs1 hrun
          refine ⟨hs', hw'.trans ?_⟩
          rw [← hw, List.map_cons, weigh_cons]
          abel
        · obtain ⟨hs', hw'⟩ := ih hs hrun
          exact ⟨hs', hw'⟩

theorem createGroup_supply (h : Supply ops Ok w Φ) {groupBase : Nat} {bg : BatchGroup} (hs : Ok s)
    (hrun : createGroup cfg ops groupBase s = some (bg, s')) :
    Ok s' ∧ Φ s' + weigh w (metaOf [bg]) = Φ s := by
  obtain ⟨⟨a, s1⟩, hget, hrun⟩ := Option.bind_eq_some_iff.mp hrun
  obtain ⟨⟨b, s2⟩, hget', hrun⟩ := Option.bind_eq_some_iff.mp hrun
  obtain ⟨hs1, hw⟩ := h.get hs hget
  obtain ⟨hs2, hw'⟩ := h.get hs1 hget'
  cases hrun
  refine ⟨hs2, ?_⟩
  rw [← hw, ← hw']
  simp only [metaOf_cons, metaOf_nil, List.map_cons, List.map_nil, List.append_nil, weigh_cons,
    weigh_nil]
  abel

theorem findGroup_supply (h : Supply ops Ok w Φ) {groupBase : Nat} {rest tail : List BatchGroup}
    {cur : BatchGroup} (hs : Ok s) (hrun : findGroup cfg ops groupBase rest s = some (cur, tail, s')) :
    Ok s' ∧ Φ s' + weigh w (metaOf (cur :: tail)) = Φ s + weigh w (metaOf rest) := by
  have hcreate : ∀ {bg s'} rest, createGroup cfg ops groupBase s = some (bg, s') →
      Ok s' ∧ Φ s' + weigh w (metaOf (bg :: rest)) = Φ s + weigh w (metaOf rest) := by
    intro bg s' rest hrun
    obtain ⟨hs', hw⟩ := createGroup_supply h hs hrun
    refine ⟨hs', ?_⟩
    rw [← hw, show bg :: rest = [bg] ++ rest from rfl, metaOf_append, weigh_append]
    abel
  cases rest with
  | nil =>
    obtain ⟨⟨bg, s1⟩, hnew, hret⟩ := Option.bind_eq_some_iff.mp hrun
    cases hret
    exact hcreate [] hnew
  | cons first rest =>
    rw [findGroup] at hrun
    split at hrun
    · obtain ⟨⟨bg, s1⟩, hnew, hret⟩ := Option.bind_eq_some_iff.mp hrun
      cases hret
      exact hcreate _ hnew
    · cases hrun
      exact ⟨hs, rfl⟩

theorem pushSegments_supply (h : Supply ops Ok w Φ) {passed rest groups : List BatchGroup}
    {segments : List (List Nat)} (hs : Ok s)
    (hrun : pushSegments cfg ops passed rest segments s = some (groups, s')) :
    Ok s' ∧ Φ s' + weigh w (metaOf groups) = Φ s + weigh w (metaOf (passed ++ rest)) := by
  induction segments generalizing passed rest s with
  | nil =>
    cases hrun
    exact ⟨hs, rfl⟩
  | cons segment segments ih =>
    rw [pushSegments] at hrun
    generalize (fun bg : BatchGroup =>
      decide (cfg.compactPtrGroup (segment.headD 0) > bg.compactPtrGroupBase)) = smaller at hrun
    obtain ⟨⟨cur, tail, s1⟩, hfind, hrun⟩ := Option.bind_eq_some_iff.mp hrun
    obtain ⟨⟨cur', s2⟩, hinsert, hrun⟩ := Option.bind_eq_some_iff.mp hrun
    obtain ⟨⟨batches, s3⟩, hloop, hret⟩ := Option.bind_eq_some_iff.mp hinsert
    cases hret
    obtain ⟨hs1, hw1⟩ := findGroup_supply h hs hfind
    obtain ⟨hs2, hw2⟩ := insertLoop_supply h hs1 hloop
    obtain ⟨hs', hw'⟩ := ih hs2 hrun
    refine ⟨hs', hw'.trans ?_⟩
    have hsplit : rest.takeWhile smaller ++ rest.dropWhile smaller = rest :=
      List.takeWhile_append_dropWhile
    have hrest : weigh w (metaOf rest) =
        weigh w (metaOf (rest.takeWhile smaller)) + weigh w (metaOf (rest.dropWhile smaller)) := by
      rw [← weigh_append, ← metaOf_append, hsplit]
    simp only [metaOf_append, metaOf_cons, weigh_append, weigh_cons, hrest] at hw1 ⊢
    grind

/-- What a region's list and the batch class hold together. -/
theorem Region.pushBlocksImpl_supply (h : Supply ops Ok w Φ) {r r' : Region} {array : List Nat}
    {sameGroup : Bool} (hs : Ok s)
    (hrun : r.pushBlocksImpl cfg ops array sameGroup s = some (r', s')) :
    Ok s' ∧ Φ s' + weigh w (metaOf r'.blockList) = Φ s + weigh w (metaOf r.blockList) := by
  obtain ⟨⟨blockList, s1⟩, hpush, hret⟩ := Option.bind_eq_some_iff.mp hrun
  cases hret
  exact pushSegments_supply h hs hpush

theorem Region.pushCarved_supply (h : Supply ops Ok w Φ) {r r' : Region} {segments : List (List Nat)}
    (hs : Ok s) (hrun : Region.pushCarved cfg ops segments r s = some (r', s')) :
    Ok s' ∧ Φ s' + weigh w (metaOf r'.blockList) = Φ s + weigh w (metaOf r.blockList) := by
  induction segments generalizing r s with
  | nil =>
    cases hrun
    exact ⟨hs, rfl⟩
  | cons segment segments ih =>
    rw [Region.pushCarved] at hrun
    generalize shuffle segment r.randState = shuffled at hrun
    obtain ⟨array, randState⟩ := shuffled
    obtain ⟨⟨r1, s1⟩, hpush, hrun⟩ := Option.bind_eq_some_iff.mp hrun
    obtain ⟨hs1, hw1⟩ := pushBlocksImpl_supply h hs hpush
    obtain ⟨hs', hw'⟩ := ih hs1 hrun
    exact ⟨hs', hw'.trans hw1⟩

theorem Region.popBlocksImpl_supply (h : Supply ops Ok w Φ) {r : Region} (hs : Ok s)
    (hlist : ListOk cfg r.blockList) (maxBlockCount : Nat) :
    let out := r.popBlocksImpl ops false maxBlockCount s
    Ok out.2.2 ∧
      Φ out.2.2 + weigh w (metaOf out.2.1.blockList) = Φ s + weigh w (metaOf r.blockList) := by
  cases hgroups : r.blockList with
  | nil =>
    simp only [popBlocksImpl, hgroups]
    exact ⟨hs, trivial⟩
  | cons bg groups =>
    rw [hgroups] at hlist
    obtain ⟨b, batches, hbatches⟩ :=
      List.exists_cons_of_ne_nil (hlist.ok bg List.mem_cons_self).batches_ne
    obtain ⟨hs1, hw1⟩ := h.deallocate b.addr hs
    obtain ⟨hs2, hw2⟩ := h.deallocate bg.addr hs1
    simp only [popBlocksImpl, hgroups, hbatches, Bool.false_eq_true, if_false]
    split
    · split
      · next hnil =>
        refine ⟨hs2, ?_⟩
        simp only [metaOf_cons, hbatches, hnil, List.map_cons, List.map_nil, weigh_cons, weigh_append,
          weigh_nil, hw2, hw1]
        abel
      · refine ⟨hs1, ?_⟩
        simp only [metaOf_cons, hbatches, List.map_cons, weigh_cons, weigh_append, hw1]
        abel
    · refine ⟨hs, ?_⟩
      simp only [metaOf_cons, hbatches, List.map_cons]

theorem Region.populate_supply (h : Supply ops Ok w Φ) {r r' : Region}
    {size maxCount maxBlockCount : Nat} {remapped : Bool} {toArray : List Nat} (hs : Ok s)
    (hlist : ListOk cfg r.blockList)
    (hrun : r.populateFreeListAndPopBlocks cfg ops size maxCount maxBlockCount remapped s =
      some (toArray, r', s')) :
    Ok s' ∧ Φ s' + weigh w (metaOf r'.blockList) = Φ s + weigh w (metaOf r.blockList) := by
  rw [populateFreeListAndPopBlocks] at hrun
  have hsame := @mapForBlocks_blockList cfg r size maxCount remapped
  generalize r.mapForBlocks cfg size maxCount remapped = out at hrun hsame
  obtain ⟨r1, mapped⟩ := out
  simp only at hsame
  cases mapped with
  | false =>
    cases hrun
    exact ⟨hs, by rw [hsame]⟩
  | true =>
    obtain ⟨⟨r2, s2⟩, hpush, hret⟩ := Option.bind_eq_some_iff.mp hrun
    have hok2 := (pushCarved_ok hpush (by rw [hsame]; exact hlist) fun segment hs =>
      ⟨KeyRuns.ne_nil_of_mem_runs hs, KeyRuns.key_eq_of_mem_runs hs⟩).1
    obtain ⟨hs2, hw2⟩ := pushCarved_supply h hs hpush
    obtain ⟨hs3, hw3⟩ := popBlocksImpl_supply h hs2 hok2 maxBlockCount
    cases hret
    rw [hsame] at hw2
    exact ⟨hs3, hw3.trans hw2⟩

theorem Region.popBlocks_supply (h : Supply ops Ok w Φ) {cfg : ClassConfig} {r r' : Region}
    {c maxBlockCount : Nat} {remapped : Bool} {toArray : List Nat} (hs : Ok s)
    (hlist : ListOk cfg.toPrimaryConfig r.blockList)
    (hrun : r.popBlocks cfg ops c maxBlockCount remapped s = some (toArray, r', s')) :
    Ok s' ∧ Φ s' + weigh w (metaOf r'.blockList) = Φ s + weigh w (metaOf r.blockList) := by
  rw [popBlocks] at hrun
  simp only at hrun
  split at hrun
  · cases hrun
    exact popBlocksImpl_supply h hs hlist maxBlockCount
  · split at hrun
    · cases hrun
      exact ⟨hs, rfl⟩
    · exact populate_supply h hs hlist hrun

/-- Two groups of one base: the blocks that one of them was built in are kept or left over. -/
theorem mergeBatches_meta (bg cur : BatchGroup) :
    weigh w (metaOf [(mergeBatches bg cur).1]) + weigh w (cur.addr :: (mergeBatches bg cur).2.toList) =
      weigh w (metaOf [bg]) + weigh w (metaOf [cur]) := by
  rw [mergeBatches]
  simp only
  split
  · next hnil =>
    simp only [metaOf_cons, metaOf_nil, hnil, Option.toList_none, List.map_nil, List.append_nil,
      weigh_cons, weigh_nil]
  · next nonFull curBatches hcur =>
    split
    · simp only [metaOf_cons, metaOf_nil, hcur, Option.toList_none, List.map_append, List.map_cons,
        List.append_nil, weigh_cons, weigh_append, weigh_nil]
      abel
    · have hall : weigh w ((bg.batches ++ curBatches).map Batch.addr) =
          weigh w (bg.batches.map Batch.addr) + weigh w (curBatches.map Batch.addr) := by
        rw [List.map_append, weigh_append]
      split
      · next hnil =>
        rw [hnil] at hall
        simp only [metaOf_cons, metaOf_nil, hcur, Option.toList_none, List.map_cons, List.map_nil,
          List.append_nil, weigh_cons, weigh_nil] at hall ⊢
        grind
      · next front batches hcons =>
        rw [hcons] at hall
        split
        · simp only [metaOf_cons, metaOf_nil, hcur, Option.toList_none, List.map_cons,
            List.append_nil, weigh_cons, weigh_nil] at hall ⊢
          grind
        · split
          · simp only [metaOf_cons, metaOf_nil, hcur, Option.toList_some, List.map_cons,
              List.append_nil, weigh_cons, weigh_nil] at hall ⊢
            grind
          · simp only [metaOf_cons, metaOf_nil, hcur, Option.toList_none, List.map_cons,
              List.append_nil, weigh_cons, weigh_nil] at hall ⊢
            grind

theorem addUnused_supply (h : Supply ops Ok w Φ) (hs : Ok s) (unused : List Nat) (bg : Nat)
    (batch : Option Nat) :
    let out := addUnused ops unused bg batch s
    Ok out.2 ∧ Φ out.2 + weigh w out.1 = Φ s + weigh w unused + weigh w (bg :: batch.toList) := by
  rw [addUnused]
  simp only
  split
  · next hfull =>
    have hne : unused ≠ [] := by
      intro hnil
      rw [hnil] at hfull
      cases batch <;> simp [maxUnusedSize] at hfull
    obtain ⟨hs', hw'⟩ := h.push hs hne
    exact ⟨hs', by rw [hw']⟩
  · refine ⟨hs, ?_⟩
    rw [weigh_append]
    abel

theorem mergeLoop_supply (h : Supply ops Ok w Φ) {passed rest groupsToRelease : List BatchGroup}
    {unused : List Nat} (hs : Ok s) :
    let out := mergeLoop ops passed rest groupsToRelease unused s
    Ok out.2.2 ∧ Φ out.2.2 + weigh w out.2.1 + weigh w (metaOf out.1) =
      Φ s + weigh w unused + weigh w (metaOf (passed ++ rest)) +
        weigh w (metaOf groupsToRelease) := by
  induction groupsToRelease generalizing passed rest unused s with
  | nil =>
    rw [mergeLoop]
    refine ⟨hs, ?_⟩
    simp only [metaOf_nil, weigh_nil, add_zero]
  | cons cur groupsToRelease ih =>
    rw [mergeLoop]
    generalize (fun bg : BatchGroup =>
      decide (bg.compactPtrGroupBase < cur.compactPtrGroupBase)) = smaller
    have hsplit : rest.takeWhile smaller ++ rest.dropWhile smaller = rest :=
      List.takeWhile_append_dropWhile
    have hrest : weigh w (metaOf rest) =
        weigh w (metaOf (rest.takeWhile smaller)) + weigh w (metaOf (rest.dropWhile smaller)) := by
      rw [← weigh_append, ← metaOf_append, hsplit]
    simp only
    cases hdrop : rest.dropWhile smaller with
    | nil =>
      rw [hdrop] at hrest
      refine ⟨hs, ?_⟩
      simp only [metaOf_append, metaOf_cons, metaOf_nil, weigh_append, weigh_cons, weigh_nil,
        hrest]
      abel
    | cons bg tail =>
      rw [hdrop] at hrest
      simp only
      split
      · have hmerge := @mergeBatches_meta G _ w bg cur
        obtain ⟨hs1, hw1⟩ := addUnused_supply h hs unused cur.addr (mergeBatches bg cur).2
        obtain ⟨hs', hw'⟩ := @ih _ (passed ++ rest.takeWhile smaller ++ [(mergeBatches bg cur).1]) tail
          (addUnused ops unused cur.addr (mergeBatches bg cur).2 s).1 hs1
        refine ⟨hs', hw'.trans ?_⟩
        simp only [metaOf_append, metaOf_cons, metaOf_nil, List.append_nil, weigh_append,
          weigh_cons] at hmerge hrest hw1 ⊢
        grind
      · obtain ⟨hs', hw'⟩ := @ih _ (passed ++ rest.takeWhile smaller ++ [cur]) (bg :: tail) unused hs
        refine ⟨hs', hw'.trans ?_⟩
        simp only [metaOf_append, metaOf_cons, metaOf_nil, List.append_nil, weigh_append,
          weigh_cons] at hrest ⊢
        grind

theorem mergeGroupsToReleaseBack_supply (h : Supply ops Ok w Φ)
    (groups groupsToRelease : List BatchGroup) (hs : Ok s) :
    let out := mergeGroupsToReleaseBack ops groups groupsToRelease s
    Ok out.2 ∧ Φ out.2 + weigh w (metaOf out.1) =
      Φ s + weigh w (metaOf groups) + weigh w (metaOf groupsToRelease) := by
  obtain ⟨hs1, hw1⟩ := @mergeLoop_supply _ _ _ _ _ _ _ _ h [] groups groupsToRelease [] hs
  rw [mergeGroupsToReleaseBack]
  generalize mergeLoop ops [] groups groupsToRelease [] s = out at hs1 hw1
  obtain ⟨merged, unused, s1⟩ := out
  simp only [List.nil_append, weigh_nil, add_zero] at hs1 hw1 ⊢
  split
  · next hnil =>
    rw [hnil, weigh_nil, add_zero] at hw1
    exact ⟨hs1, hw1⟩
  · next hne =>
    obtain ⟨hs2, hw2⟩ := h.push hs1 hne
    exact ⟨hs2, by rw [hw2]; exact hw1⟩

/-- Blocks of the batch class are only pushed while groups are merged. -/
theorem mergeLoop_pushes {P : σ → Prop} (hpush : ∀ s array, P s → P (ops.pushBatchClassBlocks s array))
    {passed rest groupsToRelease : List BatchGroup} {unused : List Nat} (hs : P s) :
    P (mergeLoop ops passed rest groupsToRelease unused s).2.2 := by
  induction groupsToRelease generalizing passed rest unused s with
  | nil =>
    rw [mergeLoop]
    exact hs
  | cons cur groupsToRelease ih =>
    have hadd (batch : Option Nat) : P (addUnused ops unused cur.addr batch s).2 := by
      rw [addUnused]
      split
      · exact hpush _ _ hs
      · exact hs
    rw [mergeLoop]
    split
    · exact hs
    · split
      · exact ih (hadd _)
      · exact ih hs

theorem mergeGroupsToReleaseBack_pushes {P : σ → Prop}
    (hpush : ∀ s array, P s → P (ops.pushBatchClassBlocks s array))
    (groups groupsToRelease : List BatchGroup) (hs : P s) :
    P (mergeGroupsToReleaseBack ops groups groupsToRelease s).2 := by
  have hloop := @mergeLoop_pushes _ ops s P hpush [] groups groupsToRelease [] hs
  rw [mergeGroupsToReleaseBack]
  generalize mergeLoop ops [] groups groupsToRelease [] s = out at hloop
  obtain ⟨merged, unused, s1⟩ := out
  simp only at hloop ⊢
  split
  · exact hloop
  · exact hpush _ _ hloop

/-- The groups that are extracted take their batches with them. -/
theorem Region.collectLoop_meta (env : ReleaseConfig) (r : Region) (blockSize : Nat)
    (groups : List BatchGroup) (d : Nat) :
    let out := r.collectLoop cfg env blockSize groups d
    weigh w (metaOf out.1) + weigh w (metaOf out.2.1) = weigh w (metaOf groups) := by
  induction groups generalizing d with
  | nil => simp only [collectLoop, metaOf_nil, weigh_nil, add_zero]
  | cons bg groups ih =>
    obtain ⟨n, hn⟩ := @examineGroup_eq cfg env r blockSize bg d
    have hrest := ih (r.examineGroup cfg env blockSize bg d).2.2
    simp only [collectLoop, hn]
    generalize r.collectLoop cfg env blockSize groups (r.examineGroup cfg env blockSize bg d).2.2 =
      out at hrest
    obtain ⟨kept, released, d'⟩ := out
    split
    · simp only [metaOf_cons, weigh_append, weigh_cons] at hrest ⊢
      grind
    · simp only [metaOf_cons, weigh_append, weigh_cons] at hrest ⊢
      grind

end ScudoMte.Primary
