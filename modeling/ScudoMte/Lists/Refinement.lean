import ScudoMte.Lists.Represents

namespace ScudoMte.Lists

open LinkChain

variable {ι Node Link : Type} {op : LinkOp Node Link} {valid : Node → Prop}
  {H : Nodes Node Link → IntrusiveList Node → List Node → Prop} {s : ListHeap ι Node Link}
  {ls : ι → List Node} {i : ι} {x : Node}

theorem framed_singly : Framed op (SinglyLinkedList.Holds op) := by
  intro m m' l xs touched h hkeep hxs
  exact ⟨h.ends, h.next.congr fun x hx => (hkeep x (hxs x hx)).1⟩

theorem framed_doubly : Framed op (DoublyLinkedList.Holds op) := by
  intro m m' l xs touched h hkeep hxs
  exact ⟨h.ends, h.next.congr fun x hx => (hkeep x (hxs x hx)).1,
    h.prev.congr fun x hx => (hkeep x (hxs x (List.mem_reverse.mp hx))).2⟩

variable [DecidableEq ι]

/-- An operation that puts the node `x` on the list `i`. -/
theorem Represents.add (hH : Framed op H) (h : Represents valid H s ls) (i : ι)
    (f : Nodes Node Link → IntrusiveList Node → Option (Nodes Node Link × IntrusiveList Node))
    {xs : List Node} (hx : valid x ∧ ∀ j, x ∉ ls j) (hperm : xs.Perm (x :: ls i))
    (hf : ∃ m' l', f s.nodes (s.lists i) = some (m', l') ∧ H m' l' xs ∧
      op.Keeps s.nodes m' (x :: ls i)) :
    ∃ s', s.onList i f = some s' ∧ Represents valid H s' (Function.update ls i xs) := by
  have honly : ∀ y ∈ x :: ls i, valid y ∧ OnlyOn ls i y := by
    intro y hy
    rcases List.mem_cons.mp hy with rfl | hy
    · exact ⟨hx.1, fun j _ => hx.2 j⟩
    · exact ⟨h.valid i y hy, h.onlyOn hy⟩
  refine h.onList hH hf (fun y hy => (honly y hy).2) ?_ fun y hy => honly y (hperm.subset hy)
  exact hperm.nodup_iff.mpr (List.nodup_cons.mpr ⟨hx.2 i, h.nodup i⟩)

/-- An operation that only takes nodes off the list `i`. -/
theorem Represents.drop (hH : Framed op H) (h : Represents valid H s ls) (i : ι)
    (f : Nodes Node Link → IntrusiveList Node → Option (Nodes Node Link × IntrusiveList Node))
    {xs : List Node} (hsub : xs.Sublist (ls i))
    (hf : ∃ m' l', f s.nodes (s.lists i) = some (m', l') ∧ H m' l' xs ∧
      op.Keeps s.nodes m' (ls i)) :
    ∃ s', s.onList i f = some s' ∧ Represents valid H s' (Function.update ls i xs) := by
  refine h.onList hH hf (fun y hy => h.onlyOn hy) ((h.nodup i).sublist hsub) ?_
  intro y hy
  exact ⟨h.valid i y (hsub.subset hy), h.onlyOn (hsub.subset hy)⟩

variable [DecidableEq Node]

/-- The operations of `SinglyLinkedList`. -/
inductive SinglyOp (ι Node : Type)
  | pushFront (i : ι) (x : Node)
  | pushBack (i : ι) (x : Node)
  | popFront (i : ι)
  | insert (i : ι) (prev x : Node)
  | extract (i : ι) (prev x : Node)
  | appendBack (i j : ι)
  | clear (i : ι)

namespace SinglyOp

def run (op : LinkOp Node Link) (s : ListHeap ι Node Link) :
    SinglyOp ι Node → Option (ListHeap ι Node Link)
  | pushFront i x => s.onList i fun m l => SinglyLinkedList.pushFront op m l x
  | pushBack i x => s.onList i fun m l => SinglyLinkedList.pushBack op m l x
  | popFront i => s.onList i fun m l => SinglyLinkedList.popFront op m l
  | insert i prev x => s.onList i fun m l => SinglyLinkedList.insert op m l prev x
  | extract i prev x => s.onList i fun m l => SinglyLinkedList.extract op m l prev x
  | appendBack i j =>
    if i = j then none
    else do
      let (m, l, l') ← SinglyLinkedList.appendBack op s.nodes (s.lists i) (s.lists j)
      return ⟨m, Function.update (Function.update s.lists i l) j l'⟩
  | clear i => s.onList i fun m l => some (m, l.clear)

/-- The same operation on mathematical lists. -/
def apply (ls : ι → List Node) : SinglyOp ι Node → ι → List Node
  | pushFront i x => Function.update ls i (x :: ls i)
  | pushBack i x => Function.update ls i (ls i ++ [x])
  | popFront i => Function.update ls i (ls i).tail
  | insert i prev x => Function.update ls i (insertAfter prev x (ls i))
  | extract i _ x => Function.update ls i ((ls i).erase x)
  | appendBack i j => Function.update (Function.update ls i (ls i ++ ls j)) j []
  | clear i => Function.update ls i []

/-- The precondition: a node that goes in is valid and on no list, one that is given as a place is
on the list, and so on. -/
def Pre (valid : Node → Prop) (ls : ι → List Node) : SinglyOp ι Node → Prop
  | pushFront _ x => valid x ∧ ∀ j, x ∉ ls j
  | pushBack _ x => valid x ∧ ∀ j, x ∉ ls j
  | popFront i => ls i ≠ []
  | insert i prev x => prev ∈ ls i ∧ valid x ∧ ∀ j, x ∉ ls j
  | extract i prev x => [prev, x] <:+: ls i
  | appendBack i j => i ≠ j
  | clear _ => True

end SinglyOp

/-- The operations of `DoublyLinkedList`. -/
inductive DoublyOp (ι Node : Type)
  | pushFront (i : ι) (x : Node)
  | pushBack (i : ι) (x : Node)
  | popFront (i : ι)
  | insert (i : ι) (x y : Node)
  | remove (i : ι) (x : Node)
  | clear (i : ι)

namespace DoublyOp

def run (op : LinkOp Node Link) (s : ListHeap ι Node Link) :
    DoublyOp ι Node → Option (ListHeap ι Node Link)
  | pushFront i x => s.onList i fun m l => DoublyLinkedList.pushFront op m l x
  | pushBack i x => s.onList i fun m l => DoublyLinkedList.pushBack op m l x
  | popFront i => s.onList i fun m l => DoublyLinkedList.popFront op m l
  | insert i x y => s.onList i fun m l => DoublyLinkedList.insert op m l x y
  | remove i x => s.onList i fun m l => DoublyLinkedList.remove op m l x
  | clear i => s.onList i fun m l => some (m, l.clear)

def apply (ls : ι → List Node) : DoublyOp ι Node → ι → List Node
  | pushFront i x => Function.update ls i (x :: ls i)
  | pushBack i x => Function.update ls i (ls i ++ [x])
  | popFront i => Function.update ls i (ls i).tail
  | insert i x y => Function.update ls i (insertBefore x y (ls i))
  | remove i x => Function.update ls i ((ls i).erase x)
  | clear i => Function.update ls i []

def Pre (valid : Node → Prop) (ls : ι → List Node) : DoublyOp ι Node → Prop
  | pushFront _ x => valid x ∧ ∀ j, x ∉ ls j
  | pushBack _ x => valid x ∧ ∀ j, x ∉ ls j
  | popFront i => ls i ≠ []
  | insert i x y => y ∈ ls i ∧ valid x ∧ ∀ j, x ∉ ls j
  | remove i x => x ∈ ls i
  | clear _ => True

end DoublyOp

omit [DecidableEq Node] in
theorem clear_holds (m : Nodes Node Link) (l : IntrusiveList Node) :
    SinglyLinkedList.Holds op m l.clear [] ∧ DoublyLinkedList.Holds op m l.clear [] :=
  ⟨⟨⟨rfl, rfl, rfl⟩, linked_nil⟩, ⟨⟨rfl, rfl, rfl⟩, linked_nil, linked_nil⟩⟩

omit [DecidableEq Node] in
/-- After `append_back` a node is on the list it was on, or on `i` where it was on `j`. -/
theorem mem_append {i j k : ι} (hij : i ≠ j)
    (hx : x ∈ Function.update (Function.update ls i (ls i ++ ls j)) j [] k) :
    k ≠ j ∧ (x ∈ ls k ∨ (k = i ∧ x ∈ ls j)) := by
  by_cases hkj : k = j
  · subst hkj
    rw [Function.update_self] at hx
    exact absurd hx List.not_mem_nil
  · rw [Function.update_of_ne hkj] at hx
    by_cases hki : k = i
    · subst hki
      rw [Function.update_self, List.mem_append] at hx
      exact ⟨hkj, hx.imp_right fun hx => ⟨rfl, hx⟩⟩
    · rw [Function.update_of_ne hki] at hx
      exact ⟨hkj, .inl hx⟩

theorem Represents.append (hop : op.Lawful valid)
    (h : Represents valid (SinglyLinkedList.Holds op) s ls) {i j : ι} (hij : i ≠ j) :
    ∃ s', (SinglyOp.appendBack i j).run op s = some s' ∧
      Represents valid (SinglyLinkedList.Holds op) s' ((SinglyOp.appendBack i j).apply ls) := by
  have hn : (ls i ++ ls j).Nodup := List.nodup_append.mpr ⟨h.nodup i, h.nodup j,
    fun x hx y hy he => h.apart i j hij.symm x hx (he ▸ hy)⟩
  obtain ⟨m', l, l', hrun, hl, hl', hkeep⟩ :=
    SinglyLinkedList.appendBack_spec hop (h.holds i) (h.holds j) hn (h.valid j)
  refine ⟨⟨m', Function.update (Function.update s.lists i l) j l'⟩,
    by simp [SinglyOp.run, hij, hrun], ?_, ?_, ?_, ?_⟩
  · intro k
    simp only [SinglyOp.apply]
    by_cases hkj : k = j
    · subst hkj
      rw [Function.update_self]
      exact List.nodup_nil
    · rw [Function.update_of_ne hkj]
      by_cases hki : k = i
      · subst hki
        rwa [Function.update_self]
      · rw [Function.update_of_ne hki]
        exact h.nodup k
  · intro k k' hne x hx hx'
    obtain ⟨hkj, hk | ⟨hki, hk⟩⟩ := mem_append hij hx
    · obtain ⟨-, hk' | ⟨-, hk'⟩⟩ := mem_append hij hx'
      · exact h.apart k k' hne x hk hk'
      · exact h.apart k j hkj.symm x hk hk'
    · obtain ⟨hkj', hk' | ⟨hki', -⟩⟩ := mem_append hij hx'
      · exact h.apart k' j hkj'.symm x hk' hk
      · exact hne (hki'.trans hki.symm)
  · intro k x hx
    rcases (mem_append hij hx).2 with hx | ⟨-, hx⟩
    · exact h.valid k x hx
    · exact h.valid j x hx
  · intro k
    simp only [SinglyOp.apply]
    by_cases hkj : k = j
    · subst hkj
      rwa [Function.update_self, Function.update_self]
    · rw [Function.update_of_ne hkj, Function.update_of_ne hkj]
      by_cases hki : k = i
      · subst hki
        rwa [Function.update_self, Function.update_self]
      · rw [Function.update_of_ne hki, Function.update_of_ne hki]
        exact framed_singly _ _ _ _ _ (h.holds k) hkeep fun x hx => h.apart k i (Ne.symm hki) x hx

theorem SinglyOp.run_represents (hop : op.Lawful valid)
    (h : Represents valid (SinglyLinkedList.Holds op) s ls) (o : SinglyOp ι Node)
    (hpre : o.Pre valid ls) : ∃ s', o.run op s = some s' ∧
      Represents valid (SinglyLinkedList.Holds op) s' (o.apply ls) := by
  cases o with
  | pushFront i x =>
    exact h.add framed_singly i (fun m l => SinglyLinkedList.pushFront op m l x) hpre
      (List.Perm.refl _) (SinglyLinkedList.pushFront_spec hop (h.holds i) (h.valid i) (hpre.2 i))
  | pushBack i x =>
    exact h.add framed_singly i (fun m l => SinglyLinkedList.pushBack op m l x) hpre
      (List.perm_append_singleton _ _)
      (SinglyLinkedList.pushBack_spec hop (h.holds i) (h.nodup i) hpre.1 (hpre.2 i))
  | popFront i =>
    obtain ⟨x, xs, hxs⟩ := List.exists_cons_of_ne_nil hpre
    have hholds := h.holds i
    rw [hxs] at hholds
    obtain ⟨l', hrun, hholds'⟩ := SinglyLinkedList.popFront_spec hholds
    refine h.drop framed_singly i (fun m l => SinglyLinkedList.popFront op m l)
      (List.tail_sublist _) ⟨s.nodes, l', hrun, ?_, fun _ _ => ⟨rfl, rfl⟩⟩
    rw [hxs]
    exact hholds'
  | insert i prev x =>
    obtain ⟨hprev, hx⟩ := hpre
    obtain ⟨pre, post, hls⟩ := List.append_of_mem hprev
    have hholds := h.holds i
    have hn := h.nodup i
    have hv := h.valid i
    have hxi := hx.2 i
    rw [hls] at hholds hn hv hxi
    have heq := insertAfter_eq (not_mem_of_nodup hn).1 x post
    refine h.add framed_singly i (fun m l => SinglyLinkedList.insert op m l prev x) hx ?_ ?_
    · rw [hls, heq]
      exact (List.Perm.append_left pre (.swap x prev post)).trans List.perm_middle
    · rw [hls, heq]
      exact SinglyLinkedList.insert_spec hop hholds hn hv hx.1 hxi
  | extract i prev x =>
    obtain ⟨pre, post, hls⟩ := hpre
    rw [List.append_assoc] at hls
    have hholds := h.holds i
    have hn := h.nodup i
    have hv := h.valid i
    rw [← hls] at hholds hn hv
    refine h.drop framed_singly i (fun m l => SinglyLinkedList.extract op m l prev x)
      List.erase_sublist ?_
    have hsplit : pre ++ ([prev, x] ++ post) = (pre ++ [prev]) ++ x :: post := by simp
    have heq : (pre ++ ([prev, x] ++ post)).erase x = pre ++ prev :: post := by
      rw [hsplit] at hn ⊢
      rw [erase_eq (not_mem_of_nodup hn).1, List.append_assoc]
      rfl
    rw [← hls, heq]
    exact SinglyLinkedList.extract_spec hop hholds hn hv
  | appendBack i j => exact h.append hop hpre
  | clear i =>
    exact h.drop framed_singly i (fun m l => some (m, l.clear)) (List.nil_sublist _)
      ⟨s.nodes, _, rfl, (clear_holds _ _).1, fun _ _ => ⟨rfl, rfl⟩⟩

theorem DoublyOp.run_represents (hop : op.Lawful valid)
    (h : Represents valid (DoublyLinkedList.Holds op) s ls) (o : DoublyOp ι Node)
    (hpre : o.Pre valid ls) : ∃ s', o.run op s = some s' ∧
      Represents valid (DoublyLinkedList.Holds op) s' (o.apply ls) := by
  cases o with
  | pushFront i x =>
    exact h.add framed_doubly i (fun m l => DoublyLinkedList.pushFront op m l x) hpre
      (List.Perm.refl _) (DoublyLinkedList.pushFront_spec hop (h.holds i) (h.nodup i) (h.valid i)
        hpre.1 (hpre.2 i))
  | pushBack i x =>
    exact h.add framed_doubly i (fun m l => DoublyLinkedList.pushBack op m l x) hpre
      (List.perm_append_singleton _ _) (DoublyLinkedList.pushBack_spec hop (h.holds i) (h.nodup i)
        (h.valid i) hpre.1 (hpre.2 i))
  | popFront i =>
    obtain ⟨x, xs, hxs⟩ := List.exists_cons_of_ne_nil hpre
    have hholds := h.holds i
    have hn := h.nodup i
    rw [hxs] at hholds hn
    refine h.drop framed_doubly i (fun m l => DoublyLinkedList.popFront op m l)
      (List.tail_sublist _) ?_
    rw [hxs]
    exact DoublyLinkedList.popFront_spec hop hholds hn
  | insert i x y =>
    obtain ⟨hy, hx⟩ := hpre
    obtain ⟨pre, post, hls⟩ := List.append_of_mem hy
    have hholds := h.holds i
    have hn := h.nodup i
    have hv := h.valid i
    have hxi := hx.2 i
    rw [hls] at hholds hn hv hxi
    have heq := insertBefore_eq (not_mem_of_nodup hn).1 x post
    refine h.add framed_doubly i (fun m l => DoublyLinkedList.insert op m l x y) hx ?_ ?_
    · rw [hls, heq]
      exact List.perm_middle
    · rw [hls, heq]
      exact DoublyLinkedList.insert_spec hop hholds hn hv hx.1 hxi
  | remove i x =>
    obtain ⟨pre, post, hls⟩ := List.append_of_mem hpre
    have hholds := h.holds i
    have hn := h.nodup i
    have hv := h.valid i
    rw [hls] at hholds hn hv
    refine h.drop framed_doubly i (fun m l => DoublyLinkedList.remove op m l x)
      List.erase_sublist ?_
    rw [hls, erase_eq (not_mem_of_nodup hn).1]
    exact DoublyLinkedList.remove_spec hop hholds hn hv
  | clear i =>
    exact h.drop framed_doubly i (fun m l => some (m, l.clear)) (List.nil_sublist _)
      ⟨s.nodes, _, rfl, (clear_holds _ _).2, fun _ _ => ⟨rfl, rfl⟩⟩

/-- The nodes that an iterator goes through from `p` on, in at most so many steps. -/
def elements (op : LinkOp Node Link) (m : Nodes Node Link) : Nat → Option Node → Option (List Node)
  | _, none => some []
  | 0, some _ => none
  | n+1, some x => do
    let next ← op.getNext m (some x)
    let xs ← elements op m n next
    return x :: xs

omit [DecidableEq Node] in
theorem elements_eq {m : Nodes Node Link} {xs : List Node} (h : Linked (op.nextOf m) xs none) :
    elements op m xs.length xs.head? = some xs := by
  induction xs with
  | nil => rfl
  | cons x xs ih =>
    obtain ⟨hx, hxs⟩ := h
    rw [Option.or_none] at hx
    rw [List.head?_cons, List.length_cons, elements, show op.getNext m (some x) = _ from hx, some_bind,
      ih hxs]
    rfl

/-- The list is `xs`: an iterator goes through it, the size and the ends are right, and nothing
comes behind the last node. -/
structure IsList (op : LinkOp Node Link) (m : Nodes Node Link) (l : IntrusiveList Node)
    (xs : List Node) : Prop where
  elements : elements op m l.size l.first = some xs
  size : l.size = xs.length
  first : l.first = xs.head?
  last : l.last = xs.getLast?
  next : ∀ pre x post, xs = pre ++ x :: post → op.nextOf m x = some post.head?
  last_next : ∀ z, l.last = some z → op.getNext m l.last = some none

omit [DecidableEq Node] in
theorem SinglyLinkedList.Holds.isList {m : Nodes Node Link} {l : IntrusiveList Node}
    {xs : List Node} (h : SinglyLinkedList.Holds op m l xs) : IsList op m l xs := by
  refine ⟨?_, h.ends.size, h.ends.first, h.ends.last, ?_, ?_⟩
  · rw [h.ends.size, h.ends.first]
    exact elements_eq h.next
  · rintro pre x post rfl
    rw [h.next.apply, Option.or_none]
  · intro z hz
    rw [hz]
    exact h.next.getLast (h.ends.last.symm.trans hz)

/-- A doubly linked list: what comes in front of a node is known too, and `Prev` is the inverse of
`Next`. -/
structure IsDoublyList (op : LinkOp Node Link) (m : Nodes Node Link) (l : IntrusiveList Node)
    (xs : List Node) : Prop extends IsList op m l xs where
  prev : ∀ pre x post, xs = pre ++ x :: post → op.prevOf m x = some pre.getLast?
  inverse : ∀ x ∈ xs, ∀ y ∈ xs, op.prevOf m y = some (some x) ↔ op.nextOf m x = some (some y)

omit [DecidableEq Node] in
theorem DoublyLinkedList.Holds.isDoublyList {m : Nodes Node Link} {l : IntrusiveList Node}
    {xs : List Node} (h : DoublyLinkedList.Holds op m l xs) : IsDoublyList op m l xs where
  toIsList := SinglyLinkedList.Holds.isList ⟨h.ends, h.next⟩
  prev := by
    rintro pre x post rfl
    exact h.prevOf_eq
  inverse _ hx _ hy := h.prev_iff_next hx hy

/-- The preconditions hold at every operation of a sequence. -/
def Legal {Op : Type} (pre : (ι → List Node) → Op → Prop)
    (apply : (ι → List Node) → Op → ι → List Node) : (ι → List Node) → List Op → Prop
  | _, [] => True
  | ls, o::os => pre ls o ∧ Legal pre apply (apply ls o) os

omit [DecidableEq Node] [DecidableEq ι] in
/-- Operations that keep what the lists represent may be run in sequence. -/
theorem run_represents {Op : Type} {pre : (ι → List Node) → Op → Prop}
    {apply : (ι → List Node) → Op → ι → List Node}
    {run : ListHeap ι Node Link → Op → Option (ListHeap ι Node Link)}
    (hstep : ∀ s ls o, Represents valid H s ls → pre ls o →
      ∃ s', run s o = some s' ∧ Represents valid H s' (apply ls o))
    (h : Represents valid H s ls) {ops : List Op} (hlegal : Legal pre apply ls ops) :
    ∃ s', TransitionSystem.run run s ops = some s' ∧
      Represents valid H s' (ops.foldl apply ls) := by
  induction ops generalizing s ls with
  | nil => exact ⟨s, rfl, h⟩
  | cons o os ih =>
    obtain ⟨hpre, hrest⟩ := hlegal
    obtain ⟨s1, hrun, h1⟩ := hstep s ls o h hpre
    obtain ⟨s', hrun', h'⟩ := ih h1 hrest
    exact ⟨s', by rw [TransitionSystem.run_cons, hrun, Option.bind_some, hrun'], h'⟩

/-- Lists of either kind, all empty at first, are what the same operations make of mathematical
lists, and no check fails. -/
def Refines (op : LinkOp Node Link) (valid : Node → Prop) (ι : Type) [DecidableEq ι] : Prop :=
  ∀ s : ListHeap ι Node Link, (∀ i, s.lists i = {}) →
    (∀ ops : List (SinglyOp ι Node),
      Legal (SinglyOp.Pre valid) SinglyOp.apply (fun _ => []) ops →
      ∃ s', TransitionSystem.run (SinglyOp.run op) s ops = some s' ∧
        ∀ i, IsList op s'.nodes (s'.lists i) (ops.foldl SinglyOp.apply (fun _ => []) i)) ∧
    ∀ ops : List (DoublyOp ι Node),
      Legal (DoublyOp.Pre valid) DoublyOp.apply (fun _ => []) ops →
      ∃ s', TransitionSystem.run (DoublyOp.run op) s ops = some s' ∧
        ∀ i, IsDoublyList op s'.nodes (s'.lists i) (ops.foldl DoublyOp.apply (fun _ => []) i)

omit [DecidableEq Node] [DecidableEq ι] in
theorem represents_empty (hs : ∀ i, s.lists i = {})
    (hH : ∀ m, H m ({} : IntrusiveList Node) []) : Represents valid H s fun _ => [] where
  nodup _ := List.nodup_nil
  apart _ _ _ _ hx := absurd hx List.not_mem_nil
  valid _ _ hx := absurd hx List.not_mem_nil
  holds i := by rw [hs i]; exact hH s.nodes

theorem LinkOp.Lawful.refines (hop : op.Lawful valid) : Refines op valid ι := by
  intro s hs
  constructor
  · intro ops hlegal
    have h : Represents valid (SinglyLinkedList.Holds op) s fun _ => [] :=
      represents_empty hs fun m => (clear_holds m {}).1
    obtain ⟨s', hrun, h'⟩ := run_represents
      (fun _ _ o h hpre => SinglyOp.run_represents hop h o hpre) h hlegal
    exact ⟨s', hrun, fun i => (h'.holds i).isList⟩
  · intro ops hlegal
    have h : Represents valid (DoublyLinkedList.Holds op) s fun _ => [] :=
      represents_empty hs fun m => (clear_holds m {}).2
    obtain ⟨s', hrun, h'⟩ := run_represents
      (fun _ _ o h hpre => DoublyOp.run_represents hop h o hpre) h hlegal
    exact ⟨s', hrun, fun i => (h'.holds i).isDoublyList⟩

/-- Linked with pointers or with indexes into an array, both kinds of intrusive lists refine
mathematical lists. -/
theorem intrusiveLists_refine :
    (∀ (ι Node : Type) [DecidableEq ι] [DecidableEq Node],
      Refines (pointerLinks Node) (fun _ => True) ι) ∧
    ∀ (ι : Type) [DecidableEq ι] (c : LinkArray), Refines c.links c.Valid ι :=
  ⟨fun _ Node _ _ => (pointerLinks_lawful Node _).refines, fun _ _ c => c.links_lawful.refines⟩

/-- Two empty lists over an array of eight nodes. -/
def smallArray : LinkArray := ⟨32, 8, 2^32 - 1⟩

def noLists : ListHeap Bool Nat Nat := ⟨⟨fun _ => 0, fun _ => 0⟩, fun _ => {}⟩

def singlySteps : List (SinglyOp Bool Nat) :=
  [.pushBack false 1, .insert false 1 2, .pushBack false 3, .extract false 1 2, .pushFront true 4,
    .appendBack false true]

def doublySteps : List (DoublyOp Bool Nat) :=
  [.pushBack false 1, .insert false 2 1, .pushBack false 3, .remove false 1]

theorem intrusiveLists_refine_smallArray :
    (∃ s, TransitionSystem.run (SinglyOp.run smallArray.links) noLists singlySteps = some s ∧
      IsList smallArray.links s.nodes (s.lists false) [1, 3, 4] ∧
      IsList smallArray.links s.nodes (s.lists true) []) ∧
    ∃ s, TransitionSystem.run (DoublyOp.run smallArray.links) noLists doublySteps = some s ∧
      IsDoublyList smallArray.links s.nodes (s.lists false) [2, 3] := by
  obtain ⟨hsingly, hdoubly⟩ := intrusiveLists_refine.2 Bool smallArray noLists fun _ => rfl
  have hvalid : ∀ x < 8, smallArray.Valid x := by
    intro x hx
    have hne : x ≠ 2^32 - 1 := by omega
    exact ⟨hx, hne⟩
  obtain ⟨s, hs, hlists⟩ := hsingly singlySteps
    ⟨⟨hvalid 1 (by decide), by decide⟩, ⟨by decide, hvalid 2 (by decide), by decide⟩,
      ⟨hvalid 3 (by decide), by decide⟩, (by decide : [1, 2] <:+: [1, 2, 3]),
      ⟨hvalid 4 (by decide), by decide⟩, Bool.false_ne_true, trivial⟩
  obtain ⟨s', hs', hlists'⟩ := hdoubly doublySteps
    ⟨⟨hvalid 1 (by decide), by decide⟩, ⟨by decide, hvalid 2 (by decide), by decide⟩,
      ⟨hvalid 3 (by decide), by decide⟩, (by decide : 1 ∈ [2, 1, 3]), trivial⟩
  exact ⟨⟨s, hs, hlists false, hlists true⟩, s', hs', hlists' false⟩

end ScudoMte.Lists
