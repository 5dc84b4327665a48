import Mathlib.Data.List.Pairwise

namespace ScudoMte.Ownership

/-- The half-open range `[lo, hi)`. -/
structure Range where
  lo : Nat
  hi : Nat
  deriving DecidableEq

def Range.Disjoint (r s : Range) : Prop := r.hi ≤ s.lo ∨ s.hi ≤ r.lo

def Range.Within (r s : Range) : Prop := s.lo ≤ r.lo ∧ r.hi ≤ s.hi

theorem Range.Disjoint.symm {r s : Range} (h : r.Disjoint s) : s.Disjoint r := Or.symm h

theorem Range.Within.refl (r : Range) : r.Within r := ⟨Nat.le_refl _, Nat.le_refl _⟩

theorem Range.Within.disjoint {r s t : Range} (h : r.Within s) (hd : s.Disjoint t) :
    r.Disjoint t := by
  obtain ⟨h1, h2⟩ := h
  rcases hd with hd | hd
  · exact .inl (Nat.le_trans h2 hd)
  · exact .inr (Nat.le_trans hd h1)

section Owned

variable {M O : Type*} {zone : O → Range} {Ok : M → O → Prop}

/-- Owners of pairwise disjoint ranges, each of which finds its range in order. -/
structure Owned (zone : O → Range) (Ok : M → O → Prop) (m : M) (os : List O) : Prop where
  disjoint : (os.map zone).Pairwise Range.Disjoint
  ok : ∀ o ∈ os, Ok m o

theorem Owned.nil (m : M) : Owned zone Ok m [] := ⟨.nil, fun _ h => nomatch h⟩

theorem Owned.singleton {m : M} {o : O} (h : Ok m o) : Owned zone Ok m [o] := by
  refine ⟨List.pairwise_singleton _ _, ?_⟩
  intro x hx
  rw [List.mem_singleton.mp hx]
  exact h

theorem Owned.perm {m : M} {os os' : List O} (h : Owned zone Ok m os) (hp : os.Perm os') :
    Owned zone Ok m os' :=
  ⟨(hp.map zone).pairwise h.disjoint Range.Disjoint.symm, fun o ho => h.ok o (hp.mem_iff.mpr ho)⟩

/-- Owners that give up their ranges. -/
theorem Owned.sublist {m : M} {os os' : List O} (h : Owned zone Ok m os) (hs : os'.Sublist os) :
    Owned zone Ok m os' :=
  ⟨h.disjoint.sublist (hs.map zone), fun o ho => h.ok o (hs.subset ho)⟩

theorem Owned.tail {m : M} {o : O} {os : List O} (h : Owned zone Ok m (o::os)) :
    Owned zone Ok m os :=
  h.sublist (List.sublist_cons_self o os)

theorem Owned.disjoint_cons {m : M} {o x : O} {os : List O} (h : Owned zone Ok m (o::os))
    (hx : x ∈ os) : (zone o).Disjoint (zone x) := by
  have hd := h.disjoint
  rw [List.map_cons] at hd
  exact List.rel_of_pairwise_cons hd (List.mem_map_of_mem hx)

theorem Owned.append {m : M} {os os' : List O} (h : Owned zone Ok m os)
    (h' : Owned zone Ok m os') (hd : ∀ o ∈ os, ∀ x ∈ os', (zone o).Disjoint (zone x)) :
    Owned zone Ok m (os ++ os') := by
  refine ⟨?_, ?_⟩
  · rw [List.map_append]
    refine List.pairwise_append.mpr ⟨h.disjoint, h'.disjoint, ?_⟩
    intro r hr s hs
    obtain ⟨o, ho, rfl⟩ := List.mem_map.mp hr
    obtain ⟨x, hx, rfl⟩ := List.mem_map.mp hs
    exact hd o ho x hx
  · intro o ho
    rcases List.mem_append.mp ho with ho | ho
    · exact h.ok o ho
    · exact h'.ok o ho

/-- The owners stay where they are while the memory, or what is asked of it, changes. -/
theorem Owned.frame {Ok' : M → O → Prop} {m m' : M} {os : List O} (h : Owned zone Ok m os)
    (hok : ∀ o ∈ os, Ok m o → Ok' m' o) : Owned zone Ok' m' os :=
  ⟨h.disjoint, fun o ho => hok o ho (h.ok o ho)⟩

/-- New owners move into a range that is disjoint from every owner's. -/
theorem Owned.add {m m' : M} {news os : List O} {r : Range} (h : Owned zone Ok m os)
    (hr : ∀ o ∈ os, r.Disjoint (zone o)) (hframe : ∀ o ∈ os, Ok m o → Ok m' o)
    (hnews : Owned zone Ok m' news) (hin : ∀ n ∈ news, (zone n).Within r) :
    Owned zone Ok m' (news ++ os) :=
  hnews.append (h.frame hframe) fun n hn o ho => (hin n hn).disjoint (hr o ho)

/-- An owner is replaced by owners of parts of its range. -/
theorem Owned.replace {m m' : M} {o : O} {news os : List O} (h : Owned zone Ok m (o::os))
    (hframe : ∀ x ∈ os, (zone o).Disjoint (zone x) → Ok m x → Ok m' x)
    (hnews : Owned zone Ok m' news) (hin : ∀ n ∈ news, (zone n).Within (zone o)) :
    Owned zone Ok m' (news ++ os) :=
  h.tail.add (fun _ hx => h.disjoint_cons hx) (fun x hx => hframe x hx (h.disjoint_cons hx)) hnews
    hin

theorem Owned.update {m m' : M} {o o' : O} {os : List O} (h : Owned zone Ok m (o::os))
    (hframe : ∀ x ∈ os, (zone o).Disjoint (zone x) → Ok m x → Ok m' x)
    (ho : Ok m' o') (hin : (zone o').Within (zone o)) : Owned zone Ok m' (o'::os) := by
  refine @Owned.replace _ _ _ _ _ _ _ [o'] _ h hframe (.singleton ho) ?_
  intro n hn
  rw [List.mem_singleton.mp hn]
  exact hin

end Owned

end ScudoMte.Ownership
