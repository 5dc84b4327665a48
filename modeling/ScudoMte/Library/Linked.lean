import Mathlib.Data.List.Nodup
import Mathlib.Logic.Function.Basic

namespace ScudoMte.LinkChain

variable {Node : Type*}

/-- A node stands in one place of a list only. -/
theorem not_mem_of_nodup {pre post : List Node} {x : Node} (hn : (pre ++ x :: post).Nodup) :
    x ∉ pre ∧ x ∉ post := by
  have hx := (List.nodup_cons.mp (List.nodup_middle.mp hn)).1
  rwa [List.mem_append, not_or] at hx

/-- The links `f` lead from each of the nodes to the one behind it, and from the last one to `q`. A
node whose link cannot be followed has none. -/
def Linked (f : Node → Option (Option Node)) : List Node → Option Node → Prop
  | [], _ => True
  | x::xs, q => f x = some (xs.head?.or q) ∧ Linked f xs q

variable {f g : Node → Option (Option Node)} {xs ys : List Node} {x y : Node} {q : Option Node}

@[simp] theorem linked_nil : Linked f [] q := trivial

@[simp] theorem linked_cons : Linked f (x::xs) q ↔ f x = some (xs.head?.or q) ∧ Linked f xs q :=
  Iff.rfl

/-- A chain may be cut anywhere: the first part leads to the head of the second. -/
theorem linked_append :
    Linked f (xs ++ ys) q ↔ Linked f xs (ys.head?.or q) ∧ Linked f ys q := by
  induction xs with
  | nil => simp
  | cons x xs ih =>
    rw [List.cons_append, linked_cons, linked_cons, ih, List.head?_append, Option.or_assoc, and_assoc]

theorem linked_concat : Linked f (xs ++ [x]) q ↔ Linked f xs (some x) ∧ f x = some q := by
  rw [linked_append]
  simp

/-- A chain only depends on the links of its nodes. -/
theorem Linked.congr (h : Linked f xs q) (hg : ∀ x ∈ xs, g x = f x) : Linked g xs q := by
  induction xs with
  | nil => trivial
  | cons x xs ih =>
    obtain ⟨hx, hxs⟩ := h
    exact ⟨(hg x List.mem_cons_self).trans hx, ih hxs fun y hy => hg y (List.mem_cons_of_mem x hy)⟩

/-- The link of a node that is not in the chain may be set. -/
theorem Linked.update [DecidableEq Node] (h : Linked f xs q) (hx : x ∉ xs) (p : Option (Option Node)) :
    Linked (Function.update f x p) xs q := by
  refine h.congr fun y hy => Function.update_of_ne ?_ _ _
  rintro rfl
  exact hx hy

/-- Behind the nodes `pre` and `x` comes the head of the rest. -/
theorem Linked.apply {pre post : List Node} (h : Linked f (pre ++ x :: post) q) :
    f x = some (post.head?.or q) :=
  (linked_append.mp h).2.1

/-- The last node of a chain links to where the chain leads. -/
theorem Linked.getLast (h : Linked f xs q) (hx : xs.getLast? = some x) : f x = some q := by
  obtain ⟨ys, rfl⟩ := List.getLast?_eq_some_iff.mp hx
  exact (linked_concat.mp h).2

section Relink

variable [DecidableEq Node] {pre post : List Node}

/-- The link of the last node of a list is set, if there is one. -/
def setLast (f : Node → Option (Option Node)) (xs : List Node) (p : Option (Option Node)) :
    Node → Option (Option Node) :=
  match xs.getLast? with
  | none => f
  | some z => Function.update f z p

@[simp] theorem setLast_nil (p : Option (Option Node)) : setLast f [] p = f := rfl

@[simp] theorem setLast_concat (p : Option (Option Node)) :
    setLast f (xs ++ [x]) p = Function.update f x p := by
  simp [setLast]

theorem setLast_of_notMem (hy : y ∉ xs) (p : Option (Option Node)) : setLast f xs p y = f y := by
  rcases List.eq_nil_or_concat' xs with rfl | ⟨zs, z, rfl⟩
  · rfl
  · rw [setLast_concat]
    refine Function.update_of_ne ?_ _ _
    rintro rfl
    simp at hy

/-- A node `x` goes in between `pre` and `post`. -/
theorem Linked.link (h : Linked f (pre ++ post) none) (hn : (pre ++ post).Nodup)
    (hx : x ∉ pre ++ post) :
    Linked (setLast (Function.update f x (some post.head?)) pre (some (some x))) (pre ++ x :: post)
      none := by
  rw [List.mem_append, not_or] at hx
  obtain ⟨hpre, hpost⟩ := linked_append.mp h
  rcases List.eq_nil_or_concat' pre with rfl | ⟨zs, z, rfl⟩
  · rw [setLast_nil, List.nil_append, linked_cons, Function.update_self, Option.or_none]
    exact ⟨rfl, hpost.update hx.2 _⟩
  · obtain ⟨hzs, -⟩ := linked_concat.mp hpre
    rw [List.append_assoc] at hn
    obtain ⟨hz, hz'⟩ := not_mem_of_nodup hn
    have hxz : x ∉ zs ∧ x ≠ z := by simpa using hx.1
    rw [setLast_concat, linked_append, linked_concat, linked_cons]
    refine ⟨⟨(hzs.update hxz.1 _).update hz _, Function.update_self ..⟩, ?_,
      (hpost.update hx.2 _).update hz' _⟩
    rw [Function.update_of_ne hxz.2, Function.update_self, Option.or_none]

/-- The node `x` between `pre` and `post` comes out. -/
theorem Linked.unlink (h : Linked f (pre ++ x :: post) none) (hn : (pre ++ x :: post).Nodup) :
    Linked (setLast f pre (some post.head?)) (pre ++ post) none := by
  obtain ⟨hpre, -, hpost⟩ := linked_append.mp h
  rcases List.eq_nil_or_concat' pre with rfl | ⟨zs, z, rfl⟩
  · exact hpost
  · obtain ⟨hzs, -⟩ := linked_concat.mp hpre
    rw [List.append_assoc] at hn
    obtain ⟨hz, hz'⟩ := not_mem_of_nodup hn
    rw [setLast_concat, linked_append, linked_concat, Function.update_self, Option.or_none]
    exact ⟨⟨hzs.update hz _, rfl⟩, hpost.update (fun hmem => hz' (List.mem_cons_of_mem x hmem)) _⟩

/-- The second of two chains is hung behind the first. -/
theorem Linked.join (h : Linked f xs none) (h' : Linked f ys none) (hn : (xs ++ ys).Nodup) :
    Linked (setLast f xs (some ys.head?)) (xs ++ ys) none := by
  rcases List.eq_nil_or_concat' xs with rfl | ⟨zs, z, rfl⟩
  · exact h'
  · obtain ⟨hzs, -⟩ := linked_concat.mp h
    rw [List.append_assoc] at hn
    obtain ⟨hz, hz'⟩ := not_mem_of_nodup hn
    rw [setLast_concat, linked_append, linked_concat, Function.update_self, Option.or_none]
    exact ⟨⟨hzs.update hz _, rfl⟩, h'.update hz' _⟩

end Relink

/-- The link of a node leads to the one that comes next in the list. -/
theorem Linked.apply_eq_some_iff (h : Linked f xs none) (hx : x ∈ xs) :
    f x = some (some y) ↔ [x, y] <:+: xs := by
  constructor
  · intro heq
    obtain ⟨pre, post, rfl⟩ := List.append_of_mem hx
    rw [h.apply, Option.or_none] at heq
    obtain ⟨post', rfl⟩ := List.head?_eq_some_iff.mp (Option.some.inj heq)
    exact ⟨pre, post', by simp⟩
  · rintro ⟨pre, post, rfl⟩
    rw [List.append_assoc] at h
    exact h.apply

end ScudoMte.LinkChain
