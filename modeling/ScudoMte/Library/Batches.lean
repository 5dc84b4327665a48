import Mathlib.Algebra.Order.Ring.Nat
import Mathlib.Data.List.Basic

namespace ScudoMte.Batches

variable {α : Type*} {n : Nat} {b : List α} {l l' : List (List α)}

/-- Batches of at most `n` elements; all but the first one are full. -/
structure Packed (n : Nat) (l : List (List α)) : Prop where
  le : ∀ b ∈ l, b.length ≤ n
  full : ∀ b ∈ l.tail, b.length = n

theorem packed_cons : Packed n (b :: l) ↔ b.length ≤ n ∧ ∀ c ∈ l, c.length = n := by
  constructor
  · exact fun h => ⟨h.le b List.mem_cons_self, h.full⟩
  · rintro ⟨hb, hl⟩
    refine ⟨fun c hc => ?_, hl⟩
    cases hc with
    | head => exact hb
    | tail _ hc => exact (hl c hc).le

theorem Packed.tail (h : Packed n (b :: l)) : Packed n l :=
  ⟨fun c hc => h.le c (List.mem_cons_of_mem _ hc), fun c hc => h.full c (List.mem_of_mem_tail hc)⟩

/-- A batch goes in front of a full one. -/
theorem Packed.cons (h : Packed n (b :: l)) (hb : b.length = n) {c : List α} (hc : c.length ≤ n) :
    Packed n (c :: b :: l) := by
  refine packed_cons.mpr ⟨hc, fun d hd => ?_⟩
  cases hd with
  | head => exact hb
  | tail _ hd => exact h.full d hd

/-- Another first batch. -/
theorem Packed.head (h : Packed n (b :: l)) {c : List α} (hc : c.length ≤ n) : Packed n (c :: l) :=
  packed_cons.mpr ⟨hc, h.full⟩

/-- Full batches go to the back. -/
theorem Packed.append (h : Packed n (b :: l)) (hl : ∀ c ∈ l', c.length = n) :
    Packed n (b :: (l ++ l')) := by
  refine packed_cons.mpr ⟨h.le b List.mem_cons_self, fun c hc => ?_⟩
  rcases List.mem_append.mp hc with hc | hc
  · exact h.full c hc
  · exact hl c hc

/-- No batch is empty if the first one is not. -/
theorem Packed.ne_nil (h : Packed n (b :: l)) (hn : 0 < n) (hb : b ≠ []) : ∀ c ∈ b :: l, c ≠ [] := by
  intro c hc
  cases hc with
  | head => exact hb
  | tail _ hc =>
    have hlen := h.full c hc
    exact List.ne_nil_of_length_pos (by omega)

theorem length_flatten_of_full (h : ∀ c ∈ l, c.length = n) : l.flatten.length = l.length * n := by
  induction l with
  | nil => rw [List.flatten_nil, List.length_nil, List.length_nil, Nat.zero_mul]
  | cons c l ih =>
    rw [List.flatten_cons, List.length_append, h c List.mem_cons_self,
      ih fun d hd => h d (List.mem_cons_of_mem _ hd), List.length_cons, Nat.succ_mul, Nat.add_comm]

/-- How many elements there are, from the number of batches and the first one. -/
theorem Packed.length_flatten (h : Packed n (b :: l)) :
    ((b :: l).length - 1) * n + b.length = (b :: l).flatten.length := by
  have hl : l.flatten.length = l.length * n := length_flatten_of_full h.full
  rw [List.flatten_cons, List.length_append, hl, List.length_cons, Nat.add_sub_cancel, Nat.add_comm]

end ScudoMte.Batches
