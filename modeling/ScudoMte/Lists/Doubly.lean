import ScudoMte.Lists.LinkOp

namespace ScudoMte.Lists

open LinkChain LinkOp

namespace DoublyLinkedList

variable {Node Link : Type} [DecidableEq Node] (op : LinkOp Node Link)

def pushFront (m : Nodes Node Link) (l : IntrusiveList Node) (x : Node) :
    Option (Nodes Node Link × IntrusiveList Node) := do
  let m ← op.setPrev m (some x) none
  let m ← (if l.empty then some m else do
    guard ((← op.getPrev m l.first) = none)
    op.setPrev m l.first (some x))
  let m ← op.setNext m (some x) l.first
  return (m, ⟨l.size + 1, some x, if l.empty then some x else l.last⟩)

/-- Inserts `x` in front of `y`. -/
def insert (m : Nodes Node Link) (l : IntrusiveList Node) (x y : Node) :
    Option (Nodes Node Link × IntrusiveList Node) :=
  if l.first = some y then pushFront op m l x
  else do
    let prev ← op.getPrev m (some y)
    guard ((← op.getNext m prev) = some y)
    let m ← op.setNext m prev (some x)
    let m ← op.setPrev m (some x) prev
    let m ← op.setNext m (some x) (some y)
    let m ← op.setPrev m (some y) (some x)
    return (m, ⟨l.size + 1, l.first, l.last⟩)

def pushBack (m : Nodes Node Link) (l : IntrusiveList Node) (x : Node) :
    Option (Nodes Node Link × IntrusiveList Node) := do
  let m ← op.setNext m (some x) none
  let m ← (if l.empty then some m else do
    guard ((← op.getNext m l.last) = none)
    op.setNext m l.last (some x))
  let m ← op.setPrev m (some x) l.last
  return (m, ⟨l.size + 1, if l.empty then some x else l.first, some x⟩)

def popFront (m : Nodes Node Link) (l : IntrusiveList Node) :
    Option (Nodes Node Link × IntrusiveList Node) := do
  guard (!l.empty)
  let first ← op.getNext m l.first
  let m ← (if first = none then some m else op.setPrev m first none)
  return (m, ⟨l.size - 1, first, if first = none then none else l.last⟩)

/-- Takes `x` off, with the checks of the links of its neighbours. -/
def remove (m : Nodes Node Link) (l : IntrusiveList Node) (x : Node) :
    Option (Nodes Node Link × IntrusiveList Node) := do
  let prev ← op.getPrev m (some x)
  let next ← op.getNext m (some x)
  let m ← (if prev = none then some m else do
    guard ((← op.getNext m prev) = some x)
    op.setNext m prev next)
  let m ← (if next = none then some m else do
    guard ((← op.getPrev m next) = some x)
    op.setPrev m next prev)
  guard (l.first = some x ↔ prev = none)
  guard (l.last = some x ↔ next = none)
  return (m, ⟨l.size - 1, if l.first = some x then next else l.first,
    if l.last = some x then prev else l.last⟩)

/-- The list is `xs`: its nodes are linked in this order and in the reverse one. -/
structure Holds (m : Nodes Node Link) (l : IntrusiveList Node) (xs : List Node) : Prop where
  ends : l.Ends xs
  next : Linked (op.nextOf m) xs none
  prev : Linked (op.prevOf m) xs.reverse none

variable {op} {valid : Node → Prop} {m m' : Nodes Node Link} {l l' : IntrusiveList Node}
  {pre post xs ys : List Node} {x y : Node}

omit [DecidableEq Node] in
/-- `Prev` is the inverse of `Next`. -/
theorem Holds.prev_iff_next (h : Holds op m l xs) (hx : x ∈ xs) (hy : y ∈ xs) :
    op.prevOf m y = some (some x) ↔ op.nextOf m x = some (some y) := by
  rw [h.prev.apply_eq_some_iff (List.mem_reverse.mpr hy), h.next.apply_eq_some_iff hx,
    ← List.reverse_infix, List.reverse_reverse]
  rfl

theorem pushFront_spec (hop : op.Lawful valid) (h : Holds op m l xs) (hn : xs.Nodup)
    (hv : ∀ y ∈ xs, valid y) (hvx : valid x) (hx : x ∉ xs) : ∃ m' l',
      pushFront op m l x = some (m', l') ∧ Holds op m' l' (x :: xs) ∧
      op.Keeps m m' (x :: xs) := by
  have hfirst : l.first = xs.reverse.getLast? := by rw [h.ends.first, List.getLast?_reverse]
  have hvfirst : ∀ z, l.first = some z → valid z := by
    intro z hz
    rw [h.ends.first] at hz
    exact hv z (List.mem_of_head? hz)
  obtain ⟨m1, hset1, hprev1, hnext1⟩ := hop.setPrev (p := none) (fun _ hy => nomatch hy) m x
  have hc : ∀ z, l.first = some z → op.prevOf m1 z = some none := by
    intro z hz
    have hzx : z ≠ x := by
      rintro rfl
      rw [h.ends.first] at hz
      exact hx (List.mem_of_head? hz)
    rw [hprev1, Function.update_of_ne hzx]
    exact h.prev.getLast (hfirst ▸ hz)
  have hb : l.empty = true ↔ l.first = none := by
    rw [h.ends.empty_eq, h.ends.first, List.isEmpty_iff, List.head?_eq_none_iff]
  obtain ⟨m2, hset2, hprev2, hnext2⟩ := hop.relinkPrev (p := some x)
    (fun z hz => Option.some.inj hz ▸ hvx) hfirst hc hb
  obtain ⟨m3, hset3, hnext3, hprev3⟩ := hop.setNext hvfirst m2 x
  have hrun : pushFront op m l x =
      some (m3, ⟨l.size + 1, some x, if l.empty then some x else l.last⟩) := by
    rw [pushFront, hset1, some_bind, hset2, some_bind, hset3]
    rfl
  refine ⟨m3, _, hrun, ⟨h.ends.pushFront x, ?_, ?_⟩, ?_⟩
  · rw [hnext3, hnext2, hnext1, linked_cons, Function.update_self, h.ends.first, Option.or_none]
    exact ⟨rfl, h.next.update hx _⟩
  · have hlink := (show Linked (op.prevOf m) (xs.reverse ++ []) none by
      rw [List.append_nil]; exact h.prev).link (x := x) (by simpa using hn) (by simpa using hx)
    rw [hprev3, hprev2, hprev1, List.reverse_cons]
    exact hlink
  · refine (Keeps.of_prev hprev1 hnext1 List.mem_cons_self).trans
      ((Keeps.of_setLast_prev hprev2 hnext2 ?_).trans (.of_next hnext3 hprev3 List.mem_cons_self))
    intro z hz
    exact List.mem_cons_of_mem x (List.mem_reverse.mp hz)

theorem pushBack_spec (hop : op.Lawful valid) (h : Holds op m l xs) (hn : xs.Nodup)
    (hv : ∀ y ∈ xs, valid y) (hvx : valid x) (hx : x ∉ xs) : ∃ m' l',
      pushBack op m l x = some (m', l') ∧ Holds op m' l' (xs ++ [x]) ∧
      op.Keeps m m' (x :: xs) := by
  have hvlast : ∀ z, l.last = some z → valid z := by
    intro z hz
    rw [h.ends.last] at hz
    exact hv z (List.mem_of_getLast? hz)
  obtain ⟨m1, hset1, hnext1, hprev1⟩ := hop.setNext (p := none) (fun _ hy => nomatch hy) m x
  have hc : ∀ z, l.last = some z → op.nextOf m1 z = some none := by
    intro z hz
    rw [h.ends.last] at hz
    have hzx : z ≠ x := by
      rintro rfl
      exact hx (List.mem_of_getLast? hz)
    rw [hnext1, Function.update_of_ne hzx]
    exact h.next.getLast hz
  have hb : l.empty = true ↔ l.last = none := by
    rw [h.ends.empty_eq, h.ends.last, List.isEmpty_iff, List.getLast?_eq_none_iff]
  obtain ⟨m2, hset2, hnext2, hprev2⟩ := hop.relinkNext (p := some x)
    (fun z hz => Option.some.inj hz ▸ hvx) h.ends.last hc hb
  obtain ⟨m3, hset3, hprev3, hnext3⟩ := hop.setPrev hvlast m2 x
  have hrun : pushBack op m l x =
      some (m3, ⟨l.size + 1, if l.empty then some x else l.first, some x⟩) := by
    rw [pushBack, hset1, some_bind, hset2, some_bind, hset3]
    rfl
  refine ⟨m3, _, hrun, ⟨h.ends.pushBack x, ?_, ?_⟩, ?_⟩
  · have hlink := (show Linked (op.nextOf m) (xs ++ []) none by
      rw [List.append_nil]; exact h.next).link (x := x) (by simpa using hn) (by simpa using hx)
    rw [hnext3, hnext2, hnext1]
    exact hlink
  · rw [hprev3, hprev2, hprev1, List.reverse_concat, linked_cons, Function.update_self,
      h.ends.last, Option.or_none, List.head?_reverse]
    exact ⟨rfl, h.prev.update (fun hmem => hx (List.mem_reverse.mp hmem)) _⟩
  · exact (Keeps.of_next hnext1 hprev1 List.mem_cons_self).trans
      ((Keeps.of_setLast_next hnext2 hprev2 (List.subset_cons_self x xs)).trans
        (.of_prev hprev3 hnext3 List.mem_cons_self))

theorem popFront_spec (hop : op.Lawful valid) (h : Holds op m l (x :: xs)) (hn : (x :: xs).Nodup) :
    ∃ m' l', popFront op m l = some (m', l') ∧ Holds op m' l' xs ∧ op.Keeps m m' (x :: xs) := by
  have hempty : l.empty = false := h.ends.empty_eq
  have hnext : op.getNext m l.first = some xs.head? := by
    rw [h.ends.first, ← @Option.or_none _ xs.head?]
    exact h.next.1
  have hset : ∃ m', (if xs.head? = none then some m else op.setPrev m xs.head? none) = some m' ∧
      op.prevOf m' = setLast (op.prevOf m) xs.reverse (some none) ∧ op.nextOf m' = op.nextOf m := by
    cases xs with
    | nil => exact ⟨m, rfl, rfl, rfl⟩
    | cons y ys =>
      obtain ⟨m', hset, hprev, hnext⟩ := hop.setPrev (p := none) (fun _ hy => nomatch hy) m y
      rw [List.reverse_cons, setLast_concat]
      exact ⟨m', hset, hprev, hnext⟩
  obtain ⟨m', hset, hprev, hnext'⟩ := hset
  have hrun : popFront op m l =
      some (m', ⟨l.size - 1, xs.head?, if xs.head? = none then none else l.last⟩) := by
    simp only [popFront, hempty, hnext, Option.bind_eq_bind, Option.bind_some, hset]
    rfl
  refine ⟨m', _, hrun, ⟨h.ends.popFront, ?_, ?_⟩, ?_⟩
  · rw [hnext']
    exact h.next.2
  · have hunlink := (show Linked (op.prevOf m) (xs.reverse ++ x :: []) none by
      rw [← List.reverse_cons]; exact h.prev).unlink (by
        rw [← List.reverse_cons]
        exact List.nodup_reverse.mpr hn)
    rw [List.append_nil] at hunlink
    rw [hprev]
    exact hunlink
  · exact .of_setLast_prev hprev hnext' fun z hz => List.mem_cons_of_mem x (List.mem_reverse.mp hz)

omit [DecidableEq Node] in
theorem Holds.prev_middle (h : Holds op m l (pre ++ x :: post)) :
    Linked (op.prevOf m) (post.reverse ++ x :: pre.reverse) none := by
  have hprev := h.prev
  rwa [List.reverse_append, List.reverse_cons, List.append_assoc] at hprev

omit [DecidableEq Node] in
theorem Holds.prevOf_eq (h : Holds op m l (pre ++ x :: post)) :
    op.prevOf m x = some pre.getLast? := by
  rw [h.prev_middle.apply, Option.or_none, List.head?_reverse]

omit [DecidableEq Node] in
theorem Holds.nextOf_eq (h : Holds op m l (pre ++ x :: post)) : op.nextOf m x = some post.head? := by
  rw [h.next.apply, Option.or_none]

/-- A node `x` goes in in front of `y`. -/
theorem insert_spec (hop : op.Lawful valid) (h : Holds op m l (pre ++ y :: post))
    (hn : (pre ++ y :: post).Nodup) (hv : ∀ z ∈ pre ++ y :: post, valid z) (hvx : valid x)
    (hx : x ∉ pre ++ y :: post) : ∃ m' l', insert op m l x y = some (m', l') ∧
      Holds op m' l' (pre ++ x :: y :: post) ∧ op.Keeps m m' (x :: (pre ++ y :: post)) := by
  obtain ⟨hypre, -⟩ := not_mem_of_nodup hn
  rcases List.eq_nil_or_concat' pre with rfl | ⟨zs, p, rfl⟩
  · have hrun : insert op m l x y = pushFront op m l x := if_pos h.ends.first
    rw [hrun]
    exact pushFront_spec hop h hn hv hvx hx
  · have hfirst : ¬ l.first = some y := by
      rw [h.ends.first_eq_iff hypre]
      simp
    have hprevy : op.prevOf m y = some (some p) := by rw [h.prevOf_eq, List.getLast?_concat]
    have hnextp : op.nextOf m p = some (some y) := by
      have h' := h
      rw [List.append_assoc] at h'
      exact h'.nextOf_eq
    have hpx : p ≠ x := by
      rintro rfl
      simp at hx
    obtain ⟨m1, hset1, hnext1, hprev1⟩ := hop.setNext (p := some x)
      (fun z hz => Option.some.inj hz ▸ hvx) m p
    obtain ⟨m2, hset2, hprev2, hnext2⟩ := hop.setPrev (p := some p)
      (fun z hz => Option.some.inj hz ▸ hv p (by simp)) m1 x
    obtain ⟨m3, hset3, hnext3, hprev3⟩ := hop.setNext (p := some y)
      (fun z hz => Option.some.inj hz ▸ hv y (by simp)) m2 x
    obtain ⟨m4, hset4, hprev4, hnext4⟩ := hop.setPrev (p := some x)
      (fun z hz => Option.some.inj hz ▸ hvx) m3 y
    have hrun : insert op m l x y = some (m4, ⟨l.size + 1, l.first, l.last⟩) := by
      simp only [insert, if_neg hfirst, LinkOp.getPrev, LinkOp.getNext, Option.bind_eq_bind,
        Option.bind_some, hprevy, hnextp, hset1, hset2, hset3, hset4]
      rfl
    refine ⟨m4, _, hrun, ⟨⟨?_, ?_, ?_⟩, ?_, ?_⟩, ?_⟩
    · simp [h.ends.size]
      omega
    · rw [h.ends.first]
      simp
    · rw [h.ends.last]
      simp [List.getLast?_append]
    · have hlink := h.next.link hn hx
      rw [setLast_concat] at hlink
      rw [hnext4, hnext3, hnext2, hnext1, Function.update_comm hpx]
      exact hlink
    · have hlink := (show Linked (op.prevOf m) ((y :: post).reverse ++ (zs ++ [p]).reverse) none by
        rw [← List.reverse_append]; exact h.prev).link (x := x)
        (by rw [← List.reverse_append]; exact List.nodup_reverse.mpr hn)
        (by rw [← List.reverse_append, List.mem_reverse]; exact hx)
      rw [List.reverse_cons, setLast_concat, List.reverse_concat] at hlink
      rw [hprev4, hprev3, hprev2, hprev1]
      simpa using hlink
    · have hkeep1 : op.Keeps m m1 (x :: (zs ++ [p] ++ y :: post)) := .of_next hnext1 hprev1 (by simp)
      have hkeep2 := hkeep1.trans (.of_prev hprev2 hnext2 List.mem_cons_self)
      have hkeep3 := hkeep2.trans (.of_next hnext3 hprev3 List.mem_cons_self)
      exact hkeep3.trans (.of_prev hprev4 hnext4 (by simp))

/-- The node `x` comes off. -/
theorem remove_spec (hop : op.Lawful valid) (h : Holds op m l (pre ++ x :: post))
    (hn : (pre ++ x :: post).Nodup) (hv : ∀ z ∈ pre ++ x :: post, valid z) :
    ∃ m' l', remove op m l x = some (m', l') ∧ Holds op m' l' (pre ++ post) ∧
      op.Keeps m m' (pre ++ x :: post) := by
  obtain ⟨hxpre, hxpost⟩ := not_mem_of_nodup hn
  have hprevx := h.prevOf_eq
  have hnextx := h.nextOf_eq
  have hcNext : ∀ z, pre.getLast? = some z → op.nextOf m z = some (some x) := by
    intro z hz
    exact (linked_append.mp h.next).1.getLast hz
  have hcPrev : ∀ z, post.head? = some z → op.prevOf m z = some (some x) := by
    intro z hz
    exact (linked_append.mp h.prev_middle).1.getLast (List.getLast?_reverse ▸ hz)
  obtain ⟨m1, hset1, hnext1, hprev1⟩ := hop.relinkNext (p := post.head?)
    (fun z hz => hv z (by simp [List.mem_of_head? hz])) rfl hcNext Iff.rfl
  obtain ⟨m2, hset2, hprev2, hnext2⟩ := hop.relinkPrev (p := pre.getLast?) (m := m1)
    (fun z hz => hv z (by simp [List.mem_of_getLast? hz])) (List.getLast?_reverse.symm)
    (by rw [hprev1]; exact hcPrev) Iff.rfl
  have hrun : remove op m l x = some (m2, ⟨l.size - 1,
      if l.first = some x then post.head? else l.first,
      if l.last = some x then pre.getLast? else l.last⟩) := by
    have hfirst := h.ends.first_eq_iff hxpre
    have hlast := h.ends.last_eq_iff hxpost
    rw [remove, show op.getPrev m (some x) = _ from hprevx, some_bind,
      show op.getNext m (some x) = _ from hnextx, some_bind, hset1, some_bind, hset2, some_bind]
    simp only [guard, if_pos hfirst, if_pos hlast]
    rfl
  refine ⟨m2, _, hrun, ⟨h.ends.remove hxpre hxpost, ?_, ?_⟩, ?_⟩
  · rw [hnext2, hnext1]
    exact h.next.unlink hn
  · have hrev := List.nodup_reverse.mpr hn
    rw [List.reverse_append, List.reverse_cons, List.append_assoc] at hrev
    have hunlink := h.prev_middle.unlink hrev
    rw [hprev2, hprev1, List.reverse_append, ← List.head?_reverse]
    exact hunlink
  · have hpre : pre ⊆ pre ++ x :: post := List.subset_append_left _ _
    have hpost : post.reverse ⊆ pre ++ x :: post := by
      intro z hz
      simp [List.mem_reverse.mp hz]
    exact (Keeps.of_setLast_next hnext1 hprev1 hpre).trans (.of_setLast_prev hprev2 hnext2 hpost)

end DoublyLinkedList

end ScudoMte.Lists
