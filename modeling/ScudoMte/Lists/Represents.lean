import ScudoMte.Library.TransitionSystem
import ScudoMte.Lists.Singly
import ScudoMte.Lists.Doubly

namespace ScudoMte.Lists

open LinkChain

/-- Lists over the same nodes. -/
structure ListHeap (ι Node Link : Type) where
  nodes : Nodes Node Link
  lists : ι → IntrusiveList Node

section Abstract

variable {Node : Type} [DecidableEq Node]

def insertAfter (p x : Node) : List Node → List Node
  | [] => []
  | y::ys => if y = p then y :: x :: ys else y :: insertAfter p x ys

def insertBefore (x y : Node) : List Node → List Node
  | [] => []
  | z::zs => if z = y then x :: z :: zs else z :: insertBefore x y zs

variable {x y : Node} {pre post : List Node}

theorem insertAfter_eq (hx : x ∉ pre) (y : Node) (post : List Node) :
    insertAfter x y (pre ++ x :: post) = pre ++ x :: y :: post := by
  induction pre with
  | nil => simp [insertAfter]
  | cons z zs ih =>
    rw [List.mem_cons, not_or] at hx
    simp [insertAfter, Ne.symm hx.1, ih hx.2]

theorem insertBefore_eq (hy : y ∉ pre) (x : Node) (post : List Node) :
    insertBefore x y (pre ++ y :: post) = pre ++ x :: y :: post := by
  induction pre with
  | nil => simp [insertBefore]
  | cons z zs ih =>
    rw [List.mem_cons, not_or] at hy
    simp [insertBefore, Ne.symm hy.1, ih hy.2]

theorem erase_eq (hx : x ∉ pre) : (pre ++ x :: post).erase x = pre ++ post := by
  rw [List.erase_append_right _ hx, List.erase_cons_head]

end Abstract

section Represents

variable {ι Node Link : Type} {op : LinkOp Node Link} {valid : Node → Prop}
  {H : Nodes Node Link → IntrusiveList Node → List Node → Prop} {s : ListHeap ι Node Link}
  {ls : ι → List Node} {x : Node} {i j : ι}

/-- Each list is what it should be, and no node is in two places. -/
structure Represents (valid : Node → Prop)
    (H : Nodes Node Link → IntrusiveList Node → List Node → Prop) (s : ListHeap ι Node Link)
    (ls : ι → List Node) : Prop where
  nodup : ∀ i, (ls i).Nodup
  apart : ∀ i j, j ≠ i → ∀ x ∈ ls i, x ∉ ls j
  valid : ∀ i, ∀ x ∈ ls i, valid x
  holds : ∀ i, H s.nodes (s.lists i) (ls i)

/-- What a list is does not depend on nodes that are not on it. -/
def Framed (op : LinkOp Node Link)
    (H : Nodes Node Link → IntrusiveList Node → List Node → Prop) : Prop :=
  ∀ m m' l xs touched, H m l xs → op.Keeps m m' touched → (∀ x ∈ xs, x ∉ touched) → H m' l xs

/-- An operation on one list; it touches no node of another. -/
def ListHeap.onList [DecidableEq ι] (s : ListHeap ι Node Link) (i : ι)
    (f : Nodes Node Link → IntrusiveList Node → Option (Nodes Node Link × IntrusiveList Node)) :
    Option (ListHeap ι Node Link) := do
  let (m, l) ← f s.nodes (s.lists i)
  return ⟨m, Function.update s.lists i l⟩

/-- The node is on no list but `i`. -/
def OnlyOn (ls : ι → List Node) (i : ι) (x : Node) : Prop := ∀ j, j ≠ i → x ∉ ls j

theorem Represents.onlyOn (h : Represents valid H s ls) (hx : x ∈ ls i) : OnlyOn ls i x :=
  fun j hj => h.apart i j hj x hx

theorem Represents.onList [DecidableEq ι] (hH : Framed op H) (h : Represents valid H s ls)
    {f : Nodes Node Link → IntrusiveList Node → Option (Nodes Node Link × IntrusiveList Node)}
    {xs touched : List Node}
    (hf : ∃ m' l', f s.nodes (s.lists i) = some (m', l') ∧ H m' l' xs ∧ op.Keeps s.nodes m' touched)
    (htouched : ∀ x ∈ touched, OnlyOn ls i x) (hn : xs.Nodup)
    (hxs : ∀ x ∈ xs, valid x ∧ OnlyOn ls i x) :
    ∃ s', s.onList i f = some s' ∧ Represents valid H s' (Function.update ls i xs) := by
  obtain ⟨m', l', hrun, hholds, hkeep⟩ := hf
  refine ⟨⟨m', Function.update s.lists i l'⟩, by simp [ListHeap.onList, hrun], ?_, ?_, ?_, ?_⟩
  · intro j
    by_cases hj : j = i
    · subst hj
      rwa [Function.update_self]
    · rw [Function.update_of_ne hj]
      exact h.nodup j
  · intro j k hjk x hx
    by_cases hj : j = i
    · subst hj
      rw [Function.update_self] at hx
      rw [Function.update_of_ne hjk]
      exact (hxs x hx).2 k hjk
    · rw [Function.update_of_ne hj] at hx
      by_cases hk : k = i
      · subst hk
        rw [Function.update_self]
        exact fun hx' => (hxs x hx').2 j hj hx
      · rw [Function.update_of_ne hk]
        exact h.apart j k hjk x hx
  · intro j x hx
    by_cases hj : j = i
    · subst hj
      rw [Function.update_self] at hx
      exact (hxs x hx).1
    · rw [Function.update_of_ne hj] at hx
      exact h.valid j x hx
  · intro j
    by_cases hj : j = i
    · subst hj
      simpa using hholds
    · simp only [Function.update_of_ne hj]
      exact hH _ _ _ _ _ (h.holds j) hkeep fun x hx hx' => htouched x hx' j hj hx

end Represents

end ScudoMte.Lists
