import ScudoMte.Lists.LinkOp

namespace ScudoMte.Lists

open LinkChain

namespace SinglyLinkedList

variable {Node Link : Type} [DecidableEq Node] (op : LinkOp Node Link)

def pushBack (m : Nodes Node Link) (l : IntrusiveList Node) (x : Node) :
    Option (Nodes Node Link × IntrusiveList Node) := do
  let m ← op.setNext m (some x) none
  let m ← if l.empty then some m else op.setNext m l.last (some x)
  return (m, ⟨l.size + 1, if l.empty then some x else l.first, some x⟩)

def pushFront (m : Nodes Node Link) (l : IntrusiveList Node) (x : Node) :
    Option (Nodes Node Link × IntrusiveList Node) := do
  let m ← op.setNext m (some x) l.first
  return (m, ⟨l.size + 1, some x, if l.empty then some x else l.last⟩)

def popFront (m : Nodes Node Link) (l : IntrusiveList Node) :
    Option (Nodes Node Link × IntrusiveList Node) := do
  guard (!l.empty)
  let first ← op.getNext m l.first
  return (m, ⟨l.size - 1, first, if first = none then none else l.last⟩)

/-- Inserts `x` behind `prev`. -/
def insert (m : Nodes Node Link) (l : IntrusiveList Node) (prev x : Node) :
    Option (Nodes Node Link × IntrusiveList Node) := do
  guard (!l.empty)
  let next ← op.getNext m (some prev)
  let m ← op.setNext m (some x) next
  let m ← op.setNext m (some prev) (some x)
  return (m, ⟨l.size + 1, l.first, if l.last = some prev then some x else l.last⟩)

/-- Takes `x`, which comes behind `prev`, off the list. -/
def extract (m : Nodes Node Link) (l : IntrusiveList Node) (prev x : Node) :
    Option (Nodes Node Link × IntrusiveList Node) := do
  guard (!l.empty)
  guard ((← op.getNext m (some prev)) = some x)
  let next ← op.getNext m (some x)
  let m ← op.setNext m (some prev) next
  return (m, ⟨l.size - 1, l.first, if l.last = some x then some prev else l.last⟩)

/-- `append_back`: both lists, of which the second is cleared. -/
def appendBack (m : Nodes Node Link) (l l' : IntrusiveList Node) :
    Option (Nodes Node Link × IntrusiveList Node × IntrusiveList Node) := do
  if l'.empty then return (m, l, l')
  else if l.empty then return (m, l', l'.clear)
  else
    let m ← op.setNext m l.last l'.first
    return (m, ⟨l.size + l'.size, l.first, l'.last⟩, l'.clear)

/-- The list is `xs`: its nodes are linked in this order. -/
structure Holds (m : Nodes Node Link) (l : IntrusiveList Node) (xs : List Node) : Prop where
  ends : l.Ends xs
  next : Linked (op.nextOf m) xs none

variable {op} {valid : Node → Prop} {m : Nodes Node Link} {l l' : IntrusiveList Node}
  {pre post xs ys : List Node} {x y : Node}

theorem pushFront_spec (hop : op.Lawful valid) (h : Holds op m l xs) (hv : ∀ y ∈ xs, valid y)
    (hx : x ∉ xs) : ∃ m' l', pushFront op m l x = some (m', l') ∧ Holds op m' l' (x :: xs) ∧
      op.Keeps m m' (x :: xs) := by
  obtain ⟨m', hset, hnext, hprev⟩ := hop.setNext (p := l.first) (by
    intro y hy
    rw [h.ends.first] at hy
    exact hv y (List.mem_of_head? hy)) m x
  refine ⟨m', _, by simp only [pushFront, hset]; rfl, ⟨h.ends.pushFront x, ?_⟩, ?_⟩
  · rw [hnext, linked_cons, Function.update_self, h.ends.first, Option.or_none]
    exact ⟨rfl, h.next.update hx _⟩
  · exact .of_next hnext hprev (by simp)

theorem pushBack_spec (hop : op.Lawful valid) (h : Holds op m l xs) (hn : xs.Nodup) (hvx : valid x)
    (hx : x ∉ xs) : ∃ m' l', pushBack op m l x = some (m', l') ∧ Holds op m' l' (xs ++ [x]) ∧
      op.Keeps m m' (x :: xs) := by
  obtain ⟨m1, hset1, hnext1, hprev1⟩ := hop.setNext (p := none) (fun _ hy => nomatch hy) m x
  have hkeep1 : op.Keeps m m1 (x :: xs) := .of_next hnext1 hprev1 List.mem_cons_self
  rcases List.eq_nil_or_concat' xs with rfl | ⟨ys, z, rfl⟩
  · have hempty : l.empty = true := h.ends.empty_eq
    have hrun : pushBack op m l x = some (m1, ⟨l.size + 1, some x, some x⟩) := by
      simp only [pushBack, hset1, hempty, if_true]
      rfl
    refine ⟨m1, _, hrun, ⟨?_, ?_⟩, hkeep1⟩
    · have hends := h.ends.pushBack x
      rwa [hempty] at hends
    · rw [hnext1]
      simp
  · have hempty : l.empty = false := by rw [h.ends.empty_eq]; simp
    have hlast : l.last = some z := by rw [h.ends.last]; simp
    obtain ⟨m2, hset2, hnext2, hprev2⟩ := hop.setNext (p := some x)
      (fun y hy => Option.some.inj hy ▸ hvx) m1 z
    have hrun : pushBack op m l x = some (m2, ⟨l.size + 1, l.first, some x⟩) := by
      simp only [pushBack, hset1, hempty, hlast, Option.bind_eq_bind, Option.bind_some,
        Bool.false_eq_true, if_false, hset2]
      rfl
    refine ⟨m2, _, hrun, ⟨?_, ?_⟩, hkeep1.trans (.of_next hnext2 hprev2 (by simp))⟩
    · have hends := h.ends.pushBack x
      rwa [hempty] at hends
    · have hnext := h.next
      rw [← List.append_nil (ys ++ [z])] at hnext hn hx
      have hlink := hnext.link hn hx
      rw [setLast_concat, List.head?_nil, ← hnext1, ← hnext2] at hlink
      exact hlink

theorem popFront_spec (h : Holds op m l (x :: xs)) :
    ∃ l', popFront op m l = some (m, l') ∧ Holds op m l' xs := by
  obtain ⟨hx, hxs⟩ := linked_cons.mp h.next
  have hempty : l.empty = false := h.ends.empty_eq
  have hnext : op.getNext m l.first = some xs.head? := by
    rw [h.ends.first, ← @Option.or_none _ xs.head?]
    exact hx
  exact ⟨_, by simp only [popFront, hempty, hnext]; rfl, h.ends.popFront, hxs⟩

/-- A node `y` goes in behind `x`. -/
theorem insert_spec (hop : op.Lawful valid) (h : Holds op m l (pre ++ x :: post))
    (hn : (pre ++ x :: post).Nodup) (hv : ∀ z ∈ pre ++ x :: post, valid z) (hvy : valid y)
    (hy : y ∉ pre ++ x :: post) : ∃ m' l', insert op m l x y = some (m', l') ∧
      Holds op m' l' (pre ++ x :: y :: post) ∧ op.Keeps m m' (y :: (pre ++ x :: post)) := by
  have hx : op.nextOf m x = some post.head? := by rw [h.next.apply, Option.or_none]
  have hempty : l.empty = false := by rw [h.ends.empty_eq]; simp
  obtain ⟨m1, hset1, hnext1, hprev1⟩ := hop.setNext (p := post.head?)
    (fun z hz => hv z (by simp [List.mem_of_head? hz])) m y
  obtain ⟨m2, hset2, hnext2, hprev2⟩ := hop.setNext (p := some y)
    (fun z hz => Option.some.inj hz ▸ hvy) m1 x
  have hrun : insert op m l x y =
      some (m2, ⟨l.size + 1, l.first, if l.last = some x then some y else l.last⟩) := by
    simp only [insert, hempty, LinkOp.getNext, Option.bind_eq_bind, Option.bind_some, hx, hset1,
      hset2]
    rfl
  have hkeep1 : op.Keeps m m1 (y :: (pre ++ x :: post)) := .of_next hnext1 hprev1 List.mem_cons_self
  refine ⟨m2, _, hrun, ⟨h.ends.insert (not_mem_of_nodup hn).2 y, ?_⟩,
    hkeep1.trans (.of_next hnext2 hprev2 (by simp))⟩
  have hsplit : pre ++ x :: post = (pre ++ [x]) ++ post := by simp
  have hnext := h.next
  rw [hsplit] at hnext hn hy
  have hlink := hnext.link hn hy
  rw [setLast_concat, ← hnext1, ← hnext2, List.append_assoc] at hlink
  exact hlink

/-- The node `y` behind `x` comes off. -/
theorem extract_spec (hop : op.Lawful valid) (h : Holds op m l (pre ++ x :: y :: post))
    (hn : (pre ++ x :: y :: post).Nodup) (hv : ∀ z ∈ pre ++ x :: y :: post, valid z) :
    ∃ m' l', extract op m l x y = some (m', l') ∧ Holds op m' l' (pre ++ x :: post) ∧
      op.Keeps m m' (pre ++ x :: y :: post) := by
  have hx : op.nextOf m x = some (some y) := h.next.apply
  have hsplit : pre ++ x :: y :: post = (pre ++ [x]) ++ y :: post := by simp
  have hnext := h.next
  rw [hsplit] at hnext
  have hy : op.nextOf m y = some post.head? := by rw [hnext.apply, Option.or_none]
  have hempty : l.empty = false := by rw [h.ends.empty_eq]; simp
  obtain ⟨m', hset, hnext', hprev'⟩ := hop.setNext (p := post.head?)
    (fun z hz => hv z (by simp [List.mem_of_head? hz])) m x
  have hrun : extract op m l x y =
      some (m', ⟨l.size - 1, l.first, if l.last = some y then some x else l.last⟩) := by
    simp only [extract, hempty, LinkOp.getNext, Option.bind_eq_bind, Option.bind_some, hx, hy, hset]
    rfl
  rw [hsplit] at hn
  refine ⟨m', _, hrun, ⟨h.ends.extract (not_mem_of_nodup hn).2, ?_⟩,
    .of_next hnext' hprev' (by simp)⟩
  have hunlink := hnext.unlink hn
  rw [setLast_concat, ← hnext', List.append_assoc] at hunlink
  exact hunlink

/-- The second list is hung behind the first, and left empty. -/
theorem appendBack_spec (hop : op.Lawful valid) (h : Holds op m l xs) (h' : Holds op m l' ys)
    (hn : (xs ++ ys).Nodup) (hv : ∀ z ∈ ys, valid z) :
    ∃ m' l1 l1', appendBack op m l l' = some (m', l1, l1') ∧ Holds op m' l1 (xs ++ ys) ∧
      Holds op m' l1' [] ∧ op.Keeps m m' xs := by
  have hclear : ∀ m, Holds op m l'.clear [] := fun m => ⟨⟨rfl, rfl, rfl⟩, linked_nil⟩
  by_cases hys : ys = []
  · subst hys
    have hempty : l'.empty = true := h'.ends.empty_eq
    refine ⟨m, l, l', by simp only [appendBack, hempty, if_true]; rfl, ?_, h',
      fun _ _ => ⟨rfl, rfl⟩⟩
    rwa [List.append_nil]
  · have hempty' : l'.empty = false := by simp [h'.ends.empty_eq, hys]
    rcases List.eq_nil_or_concat' xs with rfl | ⟨zs, z, rfl⟩
    · have hempty : l.empty = true := h.ends.empty_eq
      have hrun : appendBack op m l l' = some (m, l', l'.clear) := by
        simp only [appendBack, hempty, hempty', Bool.false_eq_true, if_false, if_true]
        rfl
      exact ⟨m, l', l'.clear, hrun, h', hclear m, fun _ _ => ⟨rfl, rfl⟩⟩
    · have hempty : l.empty = false := by rw [h.ends.empty_eq]; simp
      have hlast : l.last = some z := by rw [h.ends.last]; simp
      obtain ⟨m', hset, hnext, hprev⟩ := hop.setNext (p := l'.first) (by
        intro y hy
        rw [h'.ends.first] at hy
        exact hv y (List.mem_of_head? hy)) m z
      have hrun : appendBack op m l l' =
          some (m', ⟨l.size + l'.size, l.first, l'.last⟩, l'.clear) := by
        simp only [appendBack, hempty, hempty', hlast, Bool.false_eq_true, if_false, hset]
        rfl
      refine ⟨m', _, _, hrun, ⟨⟨?_, ?_, ?_⟩, ?_⟩, hclear m', .of_next hnext hprev (by simp)⟩
      · rw [List.length_append, ← h.ends.size, ← h'.ends.size]
      · simp [h.ends.first]
      · rw [List.getLast?_append_of_ne_nil _ hys, ← h'.ends.last]
      · have hjoin := h.next.join h'.next hn
        rw [setLast_concat, ← h'.ends.first, ← hnext] at hjoin
        exact hjoin

end SinglyLinkedList

end ScudoMte.Lists
