import Mathlib.Order.BooleanAlgebra.Set

namespace ScudoMte.Shares

variable {α ι : Type*} {all range : Set α} {own own' : ι → Set α} {i j : ι}

/-- Everything belongs to exactly one owner. -/
structure Shared (all : Set α) (own : ι → Set α) : Prop where
  cover : ∀ a, a ∈ all ↔ ∃ i, a ∈ own i
  unique : ∀ {i j a}, a ∈ own i → a ∈ own j → i = j

theorem shared_empty (h : ∀ i, own i = ∅) : Shared ∅ own where
  cover a := by simp [h]
  unique {i _ a} ha := by
    rw [h i] at ha
    exact absurd ha (Set.notMem_empty a)

theorem Shared.mem (h : Shared all own) {a : α} (ha : a ∈ own i) : a ∈ all :=
  (h.cover a).mpr ⟨i, ha⟩

/-- What belongs to nobody goes to `i`. -/
theorem Shared.acquire (h : Shared all own) (hfresh : ∀ a ∈ range, a ∉ all)
    (hi : own' i = own i ∪ range) (hrest : ∀ k, k ≠ i → own' k = own k) :
    Shared (all ∪ range) own' := by
  have hmem : ∀ k a, a ∈ own' k ↔ a ∈ own k ∨ (k = i ∧ a ∈ range) := by
    intro k a
    by_cases hk : k = i
    · subst hk
      rw [hi]
      simp
    · rw [hrest k hk]
      simp [hk]
  refine ⟨?_, ?_⟩
  · intro a
    rw [Set.mem_union, h.cover a]
    constructor
    · rintro (⟨k, hk⟩ | ha)
      · exact ⟨k, (hmem k a).mpr (.inl hk)⟩
      · exact ⟨i, (hmem i a).mpr (.inr ⟨rfl, ha⟩)⟩
    · rintro ⟨k, hk⟩
      exact ((hmem k a).mp hk).imp (fun hk => ⟨k, hk⟩) And.right
  · intro k k' a hk hk'
    rcases (hmem k a).mp hk with hk | ⟨rfl, ha⟩
    · rcases (hmem k' a).mp hk' with hk' | ⟨-, ha⟩
      · exact h.unique hk hk'
      · exact absurd (h.mem hk) (hfresh a ha)
    · rcases (hmem k' a).mp hk' with hk' | ⟨rfl, -⟩
      · exact absurd (h.mem hk') (hfresh a ha)
      · rfl

/-- A part of what belongs to `i` is given up. -/
theorem Shared.drop (h : Shared all own) (hrange : range ⊆ own i) (hi : own' i = own i \ range)
    (hrest : ∀ k, k ≠ i → own' k = own k) : Shared (all \ range) own' := by
  have hmem : ∀ k a, a ∈ own' k ↔ a ∈ own k ∧ a ∉ range := by
    intro k a
    by_cases hk : k = i
    · subst hk
      rw [hi]
      rfl
    · rw [hrest k hk]
      exact ⟨fun ha => ⟨ha, fun hr => hk (h.unique ha (hrange hr))⟩, And.left⟩
  refine ⟨?_, ?_⟩
  · intro a
    rw [Set.mem_sdiff, h.cover a]
    constructor
    · intro ⟨⟨k, hk⟩, ha⟩
      exact ⟨k, (hmem k a).mpr ⟨hk, ha⟩⟩
    · intro ⟨k, hk⟩
      obtain ⟨hk, ha⟩ := (hmem k a).mp hk
      exact ⟨⟨k, hk⟩, ha⟩
  · intro k k' a hk hk'
    exact h.unique ((hmem k a).mp hk).1 ((hmem k' a).mp hk').1

/-- A part of what belongs to `i` goes to `j`. -/
theorem Shared.give [DecidableEq ι] (h : Shared all own) (hrange : range ⊆ own i) (hij : i ≠ j)
    (hi : own' i = own i \ range) (hj : own' j = own j ∪ range)
    (hrest : ∀ k, k ≠ i → k ≠ j → own' k = own k) : Shared all own' := by
  have hall : all \ range ∪ range = all :=
    Set.sdiff_union_of_subset fun a ha => h.mem (hrange ha)
  have hdrop : Shared (all \ range) (Function.update own i (own i \ range)) :=
    h.drop hrange (Function.update_self ..) fun k hk => Function.update_of_ne hk ..
  rw [← hall]
  refine hdrop.acquire (i := j) (fun a ha hd => hd.2 ha) ?_ ?_
  · rw [hj, Function.update_of_ne hij.symm]
  · intro k hk
    by_cases hki : k = i
    · subst hki
      rw [hi, Function.update_self]
    · rw [hrest k hki hk, Function.update_of_ne hki]

end ScudoMte.Shares
