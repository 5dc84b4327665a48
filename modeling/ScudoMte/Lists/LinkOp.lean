import Mathlib.Algebra.Group.Nat.Defs
import Mathlib.Data.Option.Basic
import ScudoMte.Library.Linked

namespace ScudoMte.Lists

open LinkChain

theorem some_bind {α β : Type} (a : α) (f : α → Option β) : (some a >>= f) = f a := rfl

/-- How a `Next` or a `Prev` stands for a pointer to a node; `none` where a debug check fails. -/
structure LinkOp (Node Link : Type) where
  endOfListVal : Link
  toPtr : Link → Option (Option Node)
  ofPtr : Option Node → Option Link

/-- The links of nodes that point to each other. -/
def pointerLinks (Node : Type) : LinkOp Node (Option Node) where
  endOfListVal := none
  toPtr := some
  ofPtr := some

/-- What `init` is told, the number of bits of `LinkTy`, and `EndOfListVal`. -/
structure LinkArray where
  linkBits : Nat
  baseSize : Nat
  endOfListVal : Nat

namespace LinkArray

/-- `Size`, a `LinkTy`. -/
def size (c : LinkArray) : Nat := c.baseSize % 2^c.linkBits

/-- The links of nodes in an array, where the node `i` is `Base[i]`. -/
def links (c : LinkArray) : LinkOp Nat Nat where
  endOfListVal := c.endOfListVal
  toPtr link :=
    if link = c.endOfListVal then some none
    else if link < c.size then some (some link)
    else none
  ofPtr
    | none => some c.endOfListVal
    | some x => if x % 2^c.linkBits ≤ c.size then some (x % 2^c.linkBits) else none

/-- The node is in the array, and its index is not taken for the end of a list. -/
def Valid (c : LinkArray) (x : Nat) : Prop := x < c.size ∧ x ≠ c.endOfListVal

end LinkArray

/-- The links of all nodes. -/
structure Nodes (Node Link : Type) where
  next : Node → Link
  prev : Node → Link

namespace LinkOp

variable {Node Link : Type} [DecidableEq Node] (op : LinkOp Node Link)

def nextOf (m : Nodes Node Link) (x : Node) : Option (Option Node) := op.toPtr (m.next x)

def prevOf (m : Nodes Node Link) (x : Node) : Option (Option Node) := op.toPtr (m.prev x)

/-- `X->Next`; `none` also where `X` is null. -/
def getNext (m : Nodes Node Link) (x : Option Node) : Option (Option Node) := x.bind (op.nextOf m)

def getPrev (m : Nodes Node Link) (x : Option Node) : Option (Option Node) := x.bind (op.prevOf m)

def setNext (m : Nodes Node Link) (x next : Option Node) : Option (Nodes Node Link) := do
  let x ← x
  let link ← op.ofPtr next
  return { m with next := Function.update m.next x link }

def setPrev (m : Nodes Node Link) (x prev : Option Node) : Option (Nodes Node Link) := do
  let x ← x
  let link ← op.ofPtr prev
  return { m with prev := Function.update m.prev x link }

/-- A pointer to a valid node is read back as it was set. -/
def Lawful (valid : Node → Prop) : Prop :=
  ∀ p : Option Node, (∀ x, p = some x → valid x) → ∃ link, op.ofPtr p = some link ∧
    op.toPtr link = some p

end LinkOp

theorem pointerLinks_lawful (Node : Type) (valid : Node → Prop) :
    (pointerLinks Node).Lawful valid :=
  fun p _ => ⟨p, rfl, rfl⟩

theorem LinkArray.links_lawful (c : LinkArray) : c.links.Lawful c.Valid := by
  intro p hp
  cases p with
  | none => exact ⟨c.endOfListVal, rfl, if_pos rfl⟩
  | some x =>
    obtain ⟨hlt, hne⟩ := hp x rfl
    have hmod : x % 2^c.linkBits = x :=
      Nat.mod_eq_of_lt (Nat.lt_trans hlt (Nat.mod_lt _ (Nat.two_pow_pos _)))
    refine ⟨x, ?_, ?_⟩
    · simp only [links, hmod, if_pos (Nat.le_of_lt hlt)]
    · simp only [links, if_neg hne, if_pos hlt]

namespace LinkOp

variable {Node Link : Type} [DecidableEq Node] {op : LinkOp Node Link} {valid : Node → Prop}
  {p : Option Node}

theorem Lawful.setNext (hop : op.Lawful valid) (hp : ∀ y, p = some y → valid y)
    (m : Nodes Node Link) (x : Node) : ∃ m', op.setNext m (some x) p = some m' ∧
      op.nextOf m' = Function.update (op.nextOf m) x (some p) ∧ op.prevOf m' = op.prevOf m := by
  obtain ⟨link, hof, hto⟩ := hop p hp
  refine ⟨{ m with next := Function.update m.next x link }, by simp [LinkOp.setNext, hof], ?_, rfl⟩
  funext y
  by_cases hy : y = x
  · subst hy
    simp [nextOf, hto]
  · simp [nextOf, hy]

theorem Lawful.setPrev (hop : op.Lawful valid) (hp : ∀ y, p = some y → valid y)
    (m : Nodes Node Link) (x : Node) : ∃ m', op.setPrev m (some x) p = some m' ∧
      op.prevOf m' = Function.update (op.prevOf m) x (some p) ∧ op.nextOf m' = op.nextOf m := by
  obtain ⟨link, hof, hto⟩ := hop p hp
  refine ⟨{ m with prev := Function.update m.prev x link }, by simp [LinkOp.setPrev, hof], ?_, rfl⟩
  funext y
  by_cases hy : y = x
  · subst hy
    simp [prevOf, hto]
  · simp [prevOf, hy]

end LinkOp

namespace LinkOp

variable {Node Link : Type} {op : LinkOp Node Link} {m m' m'' : Nodes Node Link}
  {touched : List Node}

/-- Nodes that are not touched keep their links. -/
def Keeps (op : LinkOp Node Link) (m m' : Nodes Node Link) (touched : List Node) : Prop :=
  ∀ y ∉ touched, op.nextOf m' y = op.nextOf m y ∧ op.prevOf m' y = op.prevOf m y

theorem Keeps.trans (h : op.Keeps m m' touched) (h' : op.Keeps m' m'' touched) :
    op.Keeps m m'' touched := by
  intro y hy
  exact ⟨(h' y hy).1.trans (h y hy).1, (h' y hy).2.trans (h y hy).2⟩

theorem Keeps.of_next [DecidableEq Node] {x : Node} {p : Option (Option Node)}
    (hnext : op.nextOf m' = Function.update (op.nextOf m) x p) (hprev : op.prevOf m' = op.prevOf m)
    (hx : x ∈ touched) : op.Keeps m m' touched := by
  intro y hy
  have hne : y ≠ x := fun he => hy (he ▸ hx)
  rw [hnext, hprev, Function.update_of_ne hne]
  exact ⟨rfl, rfl⟩

theorem Keeps.of_prev [DecidableEq Node] {x : Node} {p : Option (Option Node)}
    (hprev : op.prevOf m' = Function.update (op.prevOf m) x p) (hnext : op.nextOf m' = op.nextOf m)
    (hx : x ∈ touched) : op.Keeps m m' touched := by
  intro y hy
  have hne : y ≠ x := fun he => hy (he ▸ hx)
  rw [hnext, hprev, Function.update_of_ne hne]
  exact ⟨rfl, rfl⟩

theorem Keeps.of_setLast_next [DecidableEq Node] {xs : List Node} {p : Option (Option Node)}
    (hnext : op.nextOf m' = setLast (op.nextOf m) xs p) (hprev : op.prevOf m' = op.prevOf m)
    (hxs : xs ⊆ touched) : op.Keeps m m' touched := by
  intro y hy
  rw [hnext, hprev, setLast_of_notMem fun hmem => hy (hxs hmem)]
  exact ⟨rfl, rfl⟩

theorem Keeps.of_setLast_prev [DecidableEq Node] {xs : List Node} {p : Option (Option Node)}
    (hprev : op.prevOf m' = setLast (op.prevOf m) xs p) (hnext : op.nextOf m' = op.nextOf m)
    (hxs : xs ⊆ touched) : op.Keeps m m' touched := by
  intro y hy
  rw [hnext, hprev, setLast_of_notMem fun hmem => hy (hxs hmem)]
  exact ⟨rfl, rfl⟩

end LinkOp

namespace LinkOp

variable {Node Link : Type} [DecidableEq Node] {op : LinkOp Node Link} {valid : Node → Prop}
  {p q c : Option Node} {xs : List Node} {m : Nodes Node Link}

/-- The last node of a list, if there is one, is checked to link to `c` and set to link to `p`. -/
theorem Lawful.relinkNext (hop : op.Lawful valid) (hp : ∀ y, p = some y → valid y)
    (hq : q = xs.getLast?) (hc : ∀ z, q = some z → op.nextOf m z = some c) {b : Prop} [Decidable b]
    (hb : b ↔ q = none) :
    ∃ m', (if b then some m else do
        guard ((← op.getNext m q) = c)
        op.setNext m q p) = some m' ∧
      op.nextOf m' = setLast (op.nextOf m) xs (some p) ∧ op.prevOf m' = op.prevOf m := by
  subst hq
  rcases List.eq_nil_or_concat' xs with rfl | ⟨zs, z, rfl⟩
  · exact ⟨m, if_pos (hb.mpr rfl), rfl, rfl⟩
  · rw [List.getLast?_concat] at hb hc ⊢
    obtain ⟨m', hset, hnext, hprev⟩ := hop.setNext hp m z
    refine ⟨m', ?_, by rw [hnext, setLast_concat], hprev⟩
    rw [if_neg fun h => Option.some_ne_none z (hb.mp h)]
    simp only [getNext, Option.bind_some, hc z rfl, Option.bind_eq_bind, hset, guard_true]
    rfl

theorem Lawful.relinkPrev (hop : op.Lawful valid) (hp : ∀ y, p = some y → valid y)
    (hq : q = xs.getLast?) (hc : ∀ z, q = some z → op.prevOf m z = some c) {b : Prop} [Decidable b]
    (hb : b ↔ q = none) :
    ∃ m', (if b then some m else do
        guard ((← op.getPrev m q) = c)
        op.setPrev m q p) = some m' ∧
      op.prevOf m' = setLast (op.prevOf m) xs (some p) ∧ op.nextOf m' = op.nextOf m := by
  subst hq
  rcases List.eq_nil_or_concat' xs with rfl | ⟨zs, z, rfl⟩
  · exact ⟨m, if_pos (hb.mpr rfl), rfl, rfl⟩
  · rw [List.getLast?_concat] at hb hc ⊢
    obtain ⟨m', hset, hprev, hnext⟩ := hop.setPrev hp m z
    refine ⟨m', ?_, by rw [hprev, setLast_concat], hnext⟩
    rw [if_neg fun h => Option.some_ne_none z (hb.mp h)]
    simp only [getPrev, Option.bind_some, hc z rfl, Option.bind_eq_bind, hset, guard_true]
    rfl

end LinkOp

/-- `IntrusiveList`. -/
structure IntrusiveList (Node : Type) where
  size : Nat := 0
  first : Option Node := none
  last : Option Node := none

namespace IntrusiveList

variable {Node Link : Type} {l : IntrusiveList Node} {xs : List Node}

def empty (l : IntrusiveList Node) : Bool := l.size = 0

def clear (_ : IntrusiveList Node) : IntrusiveList Node := { size := 0, first := none, last := none }

/-- The size and the two ends of the list are those of `xs`. -/
structure Ends (l : IntrusiveList Node) (xs : List Node) : Prop where
  size : l.size = xs.length
  first : l.first = xs.head?
  last : l.last = xs.getLast?

theorem Ends.empty_eq (h : l.Ends xs) : l.empty = xs.isEmpty := by
  rw [empty, h.size]
  cases xs <;> simp

theorem Ends.pushFront (h : l.Ends xs) (x : Node) :
    Ends ⟨l.size + 1, some x, if l.empty then some x else l.last⟩ (x :: xs) := by
  refine ⟨by simp [h.size], rfl, ?_⟩
  rw [h.empty_eq, h.last]
  cases xs <;> simp

theorem Ends.pushBack (h : l.Ends xs) (x : Node) :
    Ends ⟨l.size + 1, if l.empty then some x else l.first, some x⟩ (xs ++ [x]) := by
  refine ⟨by simp [h.size], ?_, by simp⟩
  rw [h.empty_eq, h.first]
  cases xs <;> simp

theorem Ends.popFront [DecidableEq Node] {x : Node} (h : l.Ends (x :: xs)) :
    Ends ⟨l.size - 1, xs.head?, if xs.head? = none then none else l.last⟩ xs := by
  refine ⟨by simp [h.size], rfl, ?_⟩
  rw [h.last]
  cases xs <;> simp

theorem getLast?_middle (pre zs : List Node) (x z : Node) :
    (pre ++ x :: (zs ++ [z])).getLast? = some z := by
  rw [← List.cons_append, ← List.append_assoc]
  exact List.getLast?_concat

/-- A node `y` goes in behind `x`. -/
theorem Ends.insert [DecidableEq Node] {pre post : List Node} {x : Node}
    (h : l.Ends (pre ++ x :: post)) (hx : x ∉ post) (y : Node) :
    Ends ⟨l.size + 1, l.first, if l.last = some x then some y else l.last⟩ (pre ++ x :: y :: post) := by
  refine ⟨?_, ?_, ?_⟩
  · simp [h.size]
    omega
  · rw [h.first]
    simp
  · rw [h.last]
    rcases List.eq_nil_or_concat' post with rfl | ⟨zs, z, rfl⟩
    · simp
    · have hz : z ≠ x := fun hzx => hx (hzx ▸ by simp)
      have hlast := getLast?_middle (pre ++ [x]) zs y z
      rw [List.append_assoc] at hlast
      rw [getLast?_middle, if_neg fun he => hz (Option.some.inj he)]
      exact hlast.symm

theorem Ends.first_eq_iff {pre post : List Node} {x : Node} (h : l.Ends (pre ++ x :: post))
    (hx : x ∉ pre) : l.first = some x ↔ pre.getLast? = none := by
  rw [h.first, List.getLast?_eq_none_iff]
  cases pre with
  | nil => simp
  | cons z zs =>
    have hzx : z ≠ x := fun he => hx (he ▸ List.mem_cons_self)
    simp [hzx]

theorem Ends.last_eq_iff {pre post : List Node} {x : Node} (h : l.Ends (pre ++ x :: post))
    (hx : x ∉ post) : l.last = some x ↔ post.head? = none := by
  rw [h.last, List.head?_eq_none_iff]
  rcases List.eq_nil_or_concat' post with rfl | ⟨zs, z, rfl⟩
  · simp
  · have hzx : z ≠ x := fun he => hx (he ▸ by simp)
    rw [getLast?_middle]
    simp [hzx]

/-- The node `x` comes off; its neighbours become ends where it was one. -/
theorem Ends.remove [DecidableEq Node] {pre post : List Node} {x : Node}
    (h : l.Ends (pre ++ x :: post)) (hpre : x ∉ pre) (hpost : x ∉ post) :
    Ends ⟨l.size - 1, if l.first = some x then post.head? else l.first,
      if l.last = some x then pre.getLast? else l.last⟩ (pre ++ post) := by
  refine ⟨?_, ?_, ?_⟩
  · simp [h.size]
  · change (if l.first = some x then post.head? else l.first) = (pre ++ post).head?
    cases pre with
    | nil =>
      have hfirst : l.first = some x := h.first
      rw [if_pos hfirst, List.nil_append]
    | cons z zs =>
      have hfirst : l.first = some z := h.first
      rw [if_neg fun hx => hpre ((Option.some.inj (hfirst.symm.trans hx)) ▸ List.mem_cons_self)]
      exact hfirst
  · change (if l.last = some x then pre.getLast? else l.last) = (pre ++ post).getLast?
    rcases List.eq_nil_or_concat' post with rfl | ⟨zs, z, rfl⟩
    · rw [if_pos (h.last.trans List.getLast?_concat), List.append_nil]
    · have hlast : l.last = some z := h.last.trans (getLast?_middle pre zs x z)
      rw [if_neg fun hx => hpost ((Option.some.inj (hlast.symm.trans hx)) ▸ by simp), hlast,
        ← List.append_assoc, List.getLast?_concat]

/-- The node `x` comes off, and `prev` is the one in front of it. -/
theorem Ends.extract [DecidableEq Node] {pre post : List Node} {prev x : Node}
    (h : l.Ends (pre ++ prev :: x :: post)) (hx : x ∉ post) :
    Ends ⟨l.size - 1, l.first, if l.last = some x then some prev else l.last⟩
      (pre ++ prev :: post) := by
  refine ⟨?_, ?_, ?_⟩
  · simp [h.size]
  · rw [h.first]
    simp
  · rw [h.last]
    rcases List.eq_nil_or_concat' post with rfl | ⟨zs, z, rfl⟩
    · simp
    · have hz : z ≠ x := fun hzx => hx (hzx ▸ by simp)
      have hlast := getLast?_middle (pre ++ [prev]) zs x z
      rw [List.append_assoc] at hlast
      change (pre ++ prev :: x :: (zs ++ [z])).getLast? = some z at hlast
      rw [hlast, if_neg fun he => hz (Option.some.inj he), getLast?_middle]

end IntrusiveList

end ScudoMte.Lists
