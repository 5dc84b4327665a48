import Mathlib.Algebra.Order.Ring.Nat
import ScudoMte.Library.Word

namespace ScudoMte.PackedWord

/-- Counter `k` of a word of counters of `b` bits. -/
def counter (b w k : Nat) : Nat := w / 2^(b*k) % 2^b

theorem shift_and_mask (b w k : Nat) : (w >>> (k*b)) &&& (2^b - 1) = counter b w k := by
  rw [Nat.and_two_pow_sub_one_eq_mod, Nat.shiftRight_eq_div_pow, Nat.mul_comm, counter]

theorem testBit_counter (b w k i : Nat) :
    (counter b w k).testBit i = (decide (i < b) && w.testBit (b*k + i)) := by
  rw [counter, Nat.testBit_mod_two_pow, Nat.testBit_div_two_pow, Nat.add_comm]

section Add

variable {b w k n : Nat}

/-- A sum that stays below the bound leaves the quotient alone. -/
theorem add_div_of_mod_add_lt {x d : Nat} (h : x % d + n < d) : (x + n) / d = x / d := by
  have hx : x + n = d * (x/d) + (x % d + n) := by
    have hdiv := Nat.div_add_mod x d
    omega
  rw [hx, Nat.mul_add_div (by omega), Nat.div_eq_of_lt h, Nat.add_zero]

/-- A counter that does not carry grows by what is added to it. -/
theorem counter_add_self (h : counter b w k + n < 2^b) :
    counter b (w + n * 2^(b*k)) k = counter b w k + n := by
  rw [counter, Nat.add_mul_div_right _ _ (Nat.two_pow_pos _), Nat.add_mod, ← counter,
    Nat.mod_eq_of_lt (show n < 2^b by omega), Nat.mod_eq_of_lt h]

/-- The rest of the word, seen from above a counter that does not carry, is unchanged. -/
theorem add_div_of_lt (h : counter b w k + n < 2^b) {m : Nat} (hm : k < m) :
    (w + n * 2^(b*k)) / 2^(b*m) = w / 2^(b*m) := by
  obtain ⟨d, rfl⟩ := Nat.exists_eq_add_of_lt hm
  have hpow : 2^(b*(k+d+1)) = 2^(b*k) * 2^b * 2^(b*d) := by
    rw [← pow_add, ← pow_add]
    ring_nf
  rw [hpow, ← Nat.div_div_eq_div_mul, ← Nat.div_div_eq_div_mul, ← Nat.div_div_eq_div_mul,
    ← Nat.div_div_eq_div_mul, Nat.add_mul_div_right _ _ (Nat.two_pow_pos _),
    add_div_of_mod_add_lt h]

theorem counter_add_of_ne (h : counter b w k + n < 2^b) {j : Nat} (hj : j ≠ k) :
    counter b (w + n * 2^(b*k)) j = counter b w j := by
  rcases Nat.lt_or_gt_of_ne hj with hlt | hgt
  · obtain ⟨d, rfl⟩ := Nat.exists_eq_add_of_lt hlt
    have hpow : n * 2^(b*(j+d+1)) = n * 2^(b*d) * 2^b * 2^(b*j) := by
      rw [Nat.mul_assoc, Nat.mul_assoc, ← pow_add, ← pow_add]
      ring_nf
    rw [counter, counter, hpow, Nat.add_mul_div_right _ _ (Nat.two_pow_pos _),
      Nat.add_mul_mod_self_right]
  · rw [counter, counter, add_div_of_lt h hgt]

/-- A word of `m` counters stays one. -/
theorem add_lt_of_lt (h : counter b w k + n < 2^b) {m : Nat} (hm : k < m) (hw : w < 2^(b*m)) :
    w + n * 2^(b*k) < 2^(b*m) := by
  have hdiv := add_div_of_lt h hm
  rw [Nat.div_eq_of_lt hw] at hdiv
  exact (Nat.div_eq_zero_iff_lt (Nat.two_pow_pos _)).mp hdiv

end Add

section Saturate

variable {b w k : Nat}

/-- A counter with all bits set. -/
theorem counter_or_self : counter b (w ||| (2^b - 1) <<< (b*k)) k = 2^b - 1 := by
  apply Nat.eq_of_testBit_eq
  intro i
  rw [testBit_counter, Nat.testBit_or, Nat.testBit_shiftLeft, Nat.testBit_two_pow_sub_one]
  by_cases hi : i < b <;> simp [hi]

theorem counter_or_of_ne {j : Nat} (hj : j ≠ k) :
    counter b (w ||| (2^b - 1) <<< (b*k)) j = counter b w j := by
  apply Nat.eq_of_testBit_eq
  intro i
  rw [testBit_counter, testBit_counter, Nat.testBit_or, Nat.testBit_shiftLeft,
    Nat.testBit_two_pow_sub_one]
  by_cases hi : i < b
  · have hoff : ¬ (b*k ≤ b*j + i ∧ b*j + i - b*k < b) := by
      rintro ⟨hle, hlt⟩
      rcases Nat.lt_or_gt_of_ne hj with h | h
      · have hmul := Nat.mul_le_mul_left b (Nat.succ_le_of_lt h)
        rw [Nat.mul_succ] at hmul
        omega
      · have hmul := Nat.mul_le_mul_left b (Nat.succ_le_of_lt h)
        rw [Nat.mul_succ] at hmul
        omega
    simp only [hi, decide_true, Bool.true_and, ge_iff_le]
    rw [← Bool.decide_and, decide_eq_false hoff, Bool.or_false]
  · simp [hi]

theorem or_lt_of_lt {m : Nat} (hm : k < m) (hw : w < 2^(b*m)) :
    w ||| (2^b - 1) <<< (b*k) < 2^(b*m) := by
  apply Nat.or_lt_two_pow hw
  rw [Nat.shiftLeft_eq]
  have hpow : 2^b * 2^(b*k) ≤ 2^(b*m) := by
    rw [← pow_add]
    apply Nat.pow_le_pow_right (by decide)
    have hmul := Nat.mul_le_mul_left b (Nat.succ_le_of_lt hm)
    rw [Nat.mul_succ] at hmul
    omega
  refine lt_of_lt_of_le ?_ hpow
  exact Nat.mul_lt_mul_of_pos_right (Nat.sub_lt (Nat.two_pow_pos b) (by decide)) (Nat.two_pow_pos _)

end Saturate

end ScudoMte.PackedWord
