import Mathlib.Algebra.BigOperators.Group.Finset.Piecewise
import Mathlib.Data.BitVec
import Mathlib.Tactic.Abel

namespace ScudoMte.Weights

variable {α G : Type*} [AddCommGroup G] {w : α → G} {l l' : List α}

/-- The sum of the weights of a list. -/
def weigh (w : α → G) (l : List α) : G := (l.map w).sum

@[simp] theorem weigh_nil (w : α → G) : weigh w [] = 0 := rfl

@[simp] theorem weigh_cons (w : α → G) (a : α) (l : List α) : weigh w (a::l) = w a + weigh w l := by
  rw [weigh, List.map_cons, List.sum_cons, weigh]

@[simp] theorem weigh_append (w : α → G) (l l' : List α) :
    weigh w (l ++ l') = weigh w l + weigh w l' := by
  rw [weigh, List.map_append, List.sum_append, weigh, weigh]

theorem weigh_perm (h : l.Perm l') : weigh w l = weigh w l' := (h.map w).sum_eq

/-- Weighing with the indicator of an element counts it. -/
theorem weigh_indicator [DecidableEq α] (a : α) (l : List α) :
    weigh (fun b => if b = a then (1 : ℤ) else 0) l = l.count a := by
  induction l with
  | nil => rfl
  | cons b l ih =>
    rw [weigh_cons, ih, List.count_cons]
    by_cases hb : b = a
    · simp [hb, Int.add_comm]
    · simp [hb]

theorem weigh_one (l : List α) : weigh (fun _ => (1 : BitVec 64)) l = BitVec.ofNat 64 l.length := by
  induction l with
  | nil => rfl
  | cons a l ih =>
    rw [weigh_cons, ih, List.length_cons, BitVec.ofNat_add, add_comm]
    rfl

theorem sum_ofNat {ι : Type*} (s : Finset ι) (f : ι → Nat) :
    ∑ i ∈ s, BitVec.ofNat 64 (f i) = BitVec.ofNat 64 (∑ i ∈ s, f i) := by
  classical
  induction s using Finset.induction_on with
  | empty => rfl
  | insert i s hi ih =>
    rw [Finset.sum_insert hi, Finset.sum_insert hi, ih, BitVec.ofNat_add]

theorem weigh_zero (l : List α) : weigh (fun _ => (0 : G)) l = 0 := by
  induction l with
  | nil => rfl
  | cons a l ih => rw [weigh_cons, ih, add_zero]

/-- One term of a sum is changed. -/
theorem sum_update_add {ι : Type*} [DecidableEq ι] {s : Finset ι} {i : ι} (hi : i ∈ s) (f : ι → G)
    (b : G) : (∑ j ∈ s, Function.update f i b j) + f i = (∑ j ∈ s, f j) + b := by
  rw [Finset.sum_update_of_mem hi, Finset.sum_eq_add_sum_sdiff_singleton_of_mem hi f]
  abel

end ScudoMte.Weights
