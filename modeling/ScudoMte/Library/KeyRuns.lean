import Mathlib.Data.List.Sort
import Mathlib.Data.List.SplitBy

namespace ScudoMte.KeyRuns

variable {α β : Type*} [LinearOrder β] (key : α → β)

/-- The order of the keys, from the largest on. -/
abbrev keyGE (a b : α) : Prop := key b ≤ key a

instance : Std.Total (keyGE key) := ⟨fun a b => le_total (key b) (key a)⟩

instance : IsTrans α (keyGE key) := ⟨fun _ _ _ hab hbc => le_trans hbc hab⟩

/-- The maximal runs of elements of one key. -/
def runs (l : List α) : List (List α) := l.splitBy fun a b => key a == key b

variable {key} {l m : List α}

theorem runs_flatten : (runs key l).flatten = l := List.flatten_splitBy ..

theorem ne_nil_of_mem_runs (h : m ∈ runs key l) : m ≠ [] := List.ne_nil_of_mem_splitBy h

omit [LinearOrder β] in
private theorem key_eq_of_isChain {a : α} (h : (a :: m).IsChain fun a b => key a = key b) :
    ∀ b ∈ a :: m, key b = key a := by
  induction m generalizing a with
  | nil => exact fun b hb => by rw [List.mem_singleton.mp hb]
  | cons c m ih =>
    obtain ⟨hac, hchain⟩ := List.isChain_cons_cons.mp h
    intro b hb
    cases hb with
    | head => rfl
    | tail _ hb => exact (ih hchain b hb).trans hac.symm

theorem key_eq_of_mem_runs (h : m ∈ runs key l) : ∀ a ∈ m, ∀ b ∈ m, key a = key b := by
  have hchain : m.IsChain fun a b => key a = key b :=
    (List.isChain_of_mem_splitBy h).imp fun a b hab => beq_iff_eq.mp hab
  cases m with
  | nil => exact nofun
  | cons c m =>
    intro a ha b hb
    exact (key_eq_of_isChain hchain a ha).trans (key_eq_of_isChain hchain b hb).symm

/-- The runs of a sorted list have larger and larger keys. -/
theorem runs_heads_lt (h : l.Pairwise fun a b => key a ≤ key b) (d : α) :
    (runs key l).Pairwise fun m m' => key (m.headD d) < key (m'.headD d) := by
  rw [← @runs_flatten _ _ _ key l, List.pairwise_flatten] at h
  let headLt (m m' : List α) : Prop := key (m.headD d) < key (m'.headD d)
  have htrans : Trans headLt headLt headLt := ⟨fun hab hbc => lt_trans hab hbc⟩
  refine List.IsChain.pairwise (List.isChain_iff_forall_rel_of_append_cons_cons.mpr ?_)
  intro m m' l1 l2 hl
  have hm : m ∈ runs key l := by rw [hl]; simp
  have hle : ∀ a ∈ m, ∀ b ∈ m', key a ≤ key b := by
    have hpair := h.2
    rw [hl, List.pairwise_append, List.pairwise_cons] at hpair
    exact hpair.2.1.1 m' List.mem_cons_self
  -- the last element of a run and the first of the next one have other keys
  obtain ⟨hne, hne', hother⟩ := List.isChain_iff_forall_rel_of_append_cons_cons.mp
    (List.isChain_getLast_head_splitBy (fun a b => key a == key b) l) hl
  obtain ⟨a, t, rfl⟩ := List.exists_cons_of_ne_nil hne
  obtain ⟨b, t', rfl⟩ := List.exists_cons_of_ne_nil hne'
  have hlast := key_eq_of_mem_runs hm a List.mem_cons_self _ (List.getLast_mem hne)
  rw [beq_eq_false_iff_ne, List.head_cons, ← hlast] at hother
  exact lt_of_le_of_ne (hle a List.mem_cons_self b List.mem_cons_self) hother

end ScudoMte.KeyRuns
