import Mathlib.Data.Fintype.BigOperators
import ScudoMte.FrontEnd.Calls
import ScudoMte.Library.TransitionSystem
import ScudoMte.Primary.Initial

namespace ScudoMte.FrontEnd

open Primary Weights

/-- The regions, the groups that are extracted from their lists while pages are released, what the
front ends keep, and the blocks that are handed out, by class. -/
structure Blocks (τ : Type*) where
  regions : Nat → Region
  groupsToRelease : Nat → Option (List BatchGroup)
  chunks : τ → Nat → List Nat
  held : List (Nat × Nat)

/-- A call has what the system answers when it asks for memory. -/
inductive BlockAct (τ : Type*)
  | allocate (t : τ) (classId : Nat) (remaps : List Bool)
  | deallocate (t : τ) (classId p : Nat) (remaps : List Bool)
  | drain (t : τ) (remaps : List Bool)
  | destroy (t : τ) (remaps : List Bool)
  | extractAll (classId : Nat)
  | collectGroupsToRelease (classId : Nat)
  | mergeGroupsToReleaseBack (classId : Nat)

namespace Blocks

variable {τ : Type*}

/-- What a call on the front end of `t` works on. -/
def front (st : Blocks τ) (t : τ) (remaps : List Bool) : Front := ⟨st.regions, st.chunks t, remaps⟩

/-- Without groups the release of pages ends at once. -/
def extract (st : Blocks τ) (classId : Nat) (r : Region) (groups : List BatchGroup) : Blocks τ :=
  { st with
    regions := Function.update st.regions classId r
    groupsToRelease := Function.update st.groupsToRelease classId
      (if groups = [] then none else some groups) }

def groupsOf (st : Blocks τ) (c : Nat) : List BatchGroup := (st.groupsToRelease c).getD []

/-- The blocks of a class that are handed out. -/
def heldOf (st : Blocks τ) (c : Nat) : List Nat := (st.held.filter (·.1 = c)).map Prod.snd

/-- What was extracted from the list of `classId` goes back. -/
def mergeBack (cfg : ClassConfig) (kind : Kind) (st : Blocks τ) (classId : Nat) : Blocks τ :=
  let out := Primary.mergeGroupsToReleaseBack (BatchClass.ops cfg kind)
    (st.regions classId).blockList (st.groupsOf classId) ⟨st.regions batchClassId, [], []⟩
  { st with
    regions := Function.update (Function.update st.regions batchClassId out.2.region) classId
      { st.regions classId with blockList := out.1 }
    groupsToRelease := Function.update st.groupsToRelease classId none }

/-- Only a block that is handed out is given back, and one thread at a time releases the pages of a
class. -/
def Enabled (cfg : ClassConfig) (st : Blocks τ) : BlockAct τ → Prop
  | .allocate _ c _ => c ∈ Front.classes cfg
  | .deallocate _ c p _ => (c, p) ∈ st.held
  | .drain _ _ | .destroy _ _ => True
  | .extractAll c => c ∈ Front.classes cfg ∧ st.groupsToRelease c = none
  | .collectGroupsToRelease c => c ∈ Front.classes cfg ∧ st.groupsToRelease c = none
  | .mergeGroupsToReleaseBack c => st.groupsToRelease c ≠ none

structure Init (cfg : ClassConfig) (st : Blocks τ) : Prop where
  regions : ∀ c < cfg.numClasses, (st.regions c).Fresh cfg.toPrimaryConfig
  apart : ∀ c < cfg.numClasses, ∀ d < cfg.numClasses, c ≠ d →
    Region.Apart cfg.toPrimaryConfig (st.regions c) (st.regions d)
  groupsToRelease : ∀ c, st.groupsToRelease c = none
  chunks : ∀ t c, st.chunks t c = []
  held : st.held = []

section Step

variable [DecidableEq τ] (cfg : ClassConfig) (kind : Kind) (env : ReleaseConfig)

def setFront (st : Blocks τ) (t : τ) (f : Front) : Blocks τ :=
  { st with regions := f.regions, chunks := Function.update st.chunks t f.chunks }

/-- Calls come one after the other, each as a whole. The release of the pages of a class takes two
steps, with calls between them. -/
def step (st : Blocks τ) : BlockAct τ → Option (Blocks τ)
  | .allocate t c remaps =>
    ((st.front t remaps).allocate cfg kind c).map fun (block, f) =>
      { st.setFront t f with held := block.toList.map (c, ·) ++ st.held }
  | .deallocate t c p remaps =>
    ((st.front t remaps).deallocate cfg kind c p).map fun f =>
      { st.setFront t f with held := st.held.erase (c, p) }
  | .drain t remaps => ((st.front t remaps).drain cfg kind).map (st.setFront t)
  | .destroy t remaps => ((st.front t remaps).destroy cfg kind).map (st.setFront t)
  | .extractAll c => some (st.extract c { st.regions c with blockList := [] } (st.regions c).blockList)
  | .collectGroupsToRelease c =>
    let out := (st.regions c).collectGroupsToRelease cfg.toPrimaryConfig env (cfg.getSizeByClassId c)
    some (st.extract c out.2 out.1)
  | .mergeGroupsToReleaseBack c => some (st.mergeBack cfg kind c)

abbrev Reachable : Blocks τ → Prop :=
  TransitionSystem.Reachable (Init cfg) (Enabled cfg) fun st a st' => step cfg kind env st a = some st'

end Step

/-- What is extracted from the list of a class. -/
structure GroupsOk (cfg : ClassConfig) (c : Nat) (groups : List BatchGroup) : Prop where
  mem : c ∈ Front.classes cfg
  list : ListOk cfg.toPrimaryConfig groups
  range : ∀ p ∈ freeOf groups, Region.InRange cfg.toPrimaryConfig p

structure Ok (cfg : ClassConfig) (kind : Kind) (st : Blocks τ) : Prop where
  batchClass : Region.BatchClassOk cfg (st.regions batchClassId)
  regions : ∀ c ∈ Front.classes cfg, Region.ClassOk cfg c (st.regions c)
  fronts : ∀ t, (st.front t []).Ok cfg kind
  groups : ∀ c, ∀ groups ∈ st.groupsToRelease c, GroupsOk cfg c groups
  held : ∀ b ∈ st.held, b.1 ∈ Front.classes cfg ∧ Region.InRange cfg.toPrimaryConfig b.2

variable {cfg : ClassConfig} {kind : Kind} {st : Blocks τ} {t : τ} {remaps : List Bool} {f : Front}
  {c : Nat}

theorem Ok.front (h : st.Ok cfg kind) (t : τ) (remaps : List Bool) :
    (st.front t remaps).Ok cfg kind := (h.fronts t).with_regions (h.fronts t) remaps

theorem Ok.setFront [DecidableEq τ] (h : st.Ok cfg kind) (hf : f.Ok cfg kind)
    {held : List (Nat × Nat)}
    (hheld : ∀ b ∈ held, b.1 ∈ Front.classes cfg ∧ Region.InRange cfg.toPrimaryConfig b.2) :
    ({ st.setFront t f with held } : Blocks τ).Ok cfg kind := by
  refine ⟨hf.batchClass.region, hf.regions, fun u => ?_, h.groups, hheld⟩
  by_cases hu : u = t
  · simp only [Blocks.front, Blocks.setFront, hu, Function.update_self]
    exact hf.with_regions hf []
  · simp only [Blocks.front, Blocks.setFront, Function.update_of_ne hu]
    exact (h.fronts u).with_regions hf []

theorem heldOf_append (st : Blocks τ) (c : Nat) (blocks : List Nat) (d : Nat) :
    ({ st with held := blocks.map (c, ·) ++ st.held } : Blocks τ).heldOf d =
      (if d = c then blocks else []) ++ st.heldOf d := by
  rw [heldOf, heldOf, List.filter_append, List.map_append]
  refine congrArg (· ++ _) ?_
  by_cases hd : d = c
  · rw [if_pos hd, hd, List.filter_map, List.map_map]
    simp [Function.comp_def]
  · rw [if_neg hd, List.filter_map]
    simp [Function.comp_def, Ne.symm hd]

theorem heldOf_erase (st : Blocks τ) {c p : Nat} (hp : (c, p) ∈ st.held) (d : Nat) :
    (st.heldOf d).Perm ((if d = c then [p] else []) ++
      ({ st with held := st.held.erase (c, p) } : Blocks τ).heldOf d) := by
  have hperm := ((List.perm_cons_erase hp).filter (·.1 = d)).map Prod.snd
  rw [List.filter_cons] at hperm
  by_cases hd : d = c
  · simp only [hd, decide_true, if_true, List.map_cons] at hperm ⊢
    exact hperm
  · simp only [Ne.symm hd, decide_false, Bool.false_eq_true, if_false] at hperm
    rw [if_neg hd]
    exact hperm

section Totals

variable {G : Type*} [AddCommGroup G] [Fintype τ]

/-- What a class weighs, wherever its blocks are. -/
def total (T : Tally cfg G) (st : Blocks τ) (c : Nat) : G :=
  T.region c (st.regions c) + T.groups (st.groupsOf c) + ∑ t, weigh T.weight (st.chunks t c) +
    weigh T.weight (st.heldOf c) +
    if c = batchClassId then
      ∑ d ∈ (Front.classes cfg).toFinset, (weigh T.weight (metaOf (st.regions d).blockList) +
        weigh T.weight (metaOf (st.groupsOf d)))
    else 0

variable [DecidableEq τ]

/-- What a call on the front end of `t` does not change. -/
def rest (T : Tally cfg G) (st : Blocks τ) (t : τ) (c : Nat) : G :=
  T.groups (st.groupsOf c) + ∑ u ∈ Finset.univ.erase t, weigh T.weight (st.chunks u c) +
    if c = batchClassId then
      ∑ d ∈ (Front.classes cfg).toFinset, weigh T.weight (metaOf (st.groupsOf d))
    else 0

theorem total_eq_front (T : Tally cfg G) (st : Blocks τ) (t : τ) (remaps : List Bool) (c : Nat) :
    st.total T c = (st.front t remaps).total T c + st.rest T t c + weigh T.weight (st.heldOf c) := by
  have hsum : weigh T.weight (st.chunks t c) + ∑ u ∈ Finset.univ.erase t,
      weigh T.weight (st.chunks u c) = ∑ u, weigh T.weight (st.chunks u c) :=
    Finset.add_sum_erase Finset.univ (fun u => weigh T.weight (st.chunks u c)) (Finset.mem_univ t)
  rw [total, Front.total, rest, front, ← hsum, Front.metaWeight]
  by_cases hc : c = batchClassId
  · simp only [if_pos hc, Finset.sum_add_distrib]
    abel
  · simp only [if_neg hc]
    abel

theorem rest_setFront (T : Tally cfg G) (st : Blocks τ) (t : τ) (f : Front) (c : Nat) :
    (st.setFront t f).rest T t c = st.rest T t c := by
  refine congrArg (fun x => _ + x + _) (Finset.sum_congr rfl fun u hu => ?_)
  simp only [setFront, Function.update_of_ne (Finset.ne_of_mem_erase hu)]

/-- A call moves blocks between the front end and those that are handed out. -/
theorem total_call (T : Tally cfg G) {given taken : List Nat} {held : List (Nat × Nat)}
    (h : Front.Serves T c given taken (st.front t remaps) f)
    (hheld : ∀ d, weigh T.weight (({ st with held } : Blocks τ).heldOf d) +
      (if d = c then weigh T.weight given else 0) =
        weigh T.weight (st.heldOf d) + if d = c then weigh T.weight taken else 0) (d : Nat) :
    ({ st.setFront t f with held } : Blocks τ).total T d = st.total T d := by
  have hrest : ({ st.setFront t f with held } : Blocks τ).rest T t d = st.rest T t d :=
    rest_setFront T st t f d
  have hfront : ({ st.setFront t f with held } : Blocks τ).front t f.remaps = f := by
    simp only [front, setFront, Function.update_self]
  have hsame : ({ st.setFront t f with held } : Blocks τ).heldOf d =
      ({ st with held } : Blocks τ).heldOf d := rfl
  rw [total_eq_front T _ t f.remaps d, total_eq_front T st t remaps d, hrest, hfront, hsame]
  have hserves := h d
  have hmoved := hheld d
  grind

end Totals

end Blocks

end ScudoMte.FrontEnd
