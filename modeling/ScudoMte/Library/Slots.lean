import Mathlib.Algebra.BigOperators.Group.Finset.Basic
import Mathlib.Data.List.Nodup
import Mathlib.Tactic.Abel

namespace ScudoMte.Slots

section Lists

variable {α β : Type*} [DecidableEq α] {l : List α} {i : α}

/-- A list of slots, one of which gets a new value. -/
theorem map_update_perm (hn : l.Nodup) (hi : i ∈ l) (f : α → β) (b : β) :
    (l.map (Function.update f i b)).Perm (b :: (l.erase i).map f) := by
  have hp := (List.perm_cons_erase hi).map (Function.update f i b)
  have hmap : (l.erase i).map (Function.update f i b) = (l.erase i).map f := by
    apply List.map_congr_left
    intro j hj
    apply Function.update_of_ne
    rintro rfl
    exact hn.not_mem_erase hj
  rw [List.map_cons, Function.update_self, hmap] at hp
  exact hp

/-- The sum over slots, one of which gets a new value. -/
theorem sum_map_update [AddCommMonoid β] (hn : l.Nodup) (hi : i ∈ l) (f : α → β) (b : β) :
    (l.map (Function.update f i b)).sum + f i = (l.map f).sum + b := by
  rw [(map_update_perm hn hi f b).sum_eq, ((List.perm_cons_erase hi).map f).sum_eq, List.sum_cons,
    List.map_cons, List.sum_cons]
  abel

theorem map_update_of_notMem (hi : i ∉ l) (f : α → β) (b : β) :
    l.map (Function.update f i b) = l.map f := by
  apply List.map_congr_left
  intro j hj
  apply Function.update_of_ne
  rintro rfl
  exact hi hj

theorem map_erase_perm (hi : i ∈ l) (f : α → β) : (l.map f).Perm (f i :: (l.erase i).map f) :=
  (List.perm_cons_erase hi).map f

end Lists

section Sums

variable {ι κ M : Type*} [Fintype ι] [DecidableEq ι] [AddCommMonoid M]

/-- Updating one slot changes one summand. -/
theorem sum_update (f : κ → M) (g : ι → κ) (i : ι) (c : κ) :
    ∑ j, f (Function.update g i c j) = f c + ∑ j ∈ Finset.univ.erase i, f (g j) := by
  rw [← Finset.add_sum_erase _ _ (Finset.mem_univ i), Function.update_self]
  congr 1
  apply Finset.sum_congr rfl
  intro j hj
  rw [Function.update_of_ne (Finset.ne_of_mem_erase hj)]

theorem sum_split (f : κ → M) (g : ι → κ) (i : ι) :
    ∑ j, f (g j) = f (g i) + ∑ j ∈ Finset.univ.erase i, f (g j) :=
  (Finset.add_sum_erase _ _ (Finset.mem_univ i)).symm

end Sums

end ScudoMte.Slots
