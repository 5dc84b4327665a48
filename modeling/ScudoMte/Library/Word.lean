import Mathlib.Data.Nat.Bitwise
import Mathlib.Tactic.Ring

namespace ScudoMte.Word

/-- Masking with the complement of `2^k - 1`, in words of `w` bits, clears the low `k` bits. -/
theorem and_high_mask_width (w x k : Nat) (hx : x < 2^w) (hk : k ≤ w) :
    x &&& (2^w - 2^k) = x / 2^k * 2^k := by
  have hmask : 2^w - 2^k = 2^k * (2^(w-k) - 1) := by
    rw [Nat.mul_sub, ← pow_add, Nat.add_sub_cancel' hk, Nat.mul_one]
  apply Nat.eq_of_testBit_eq
  intro i
  rw [Nat.testBit_and, hmask, Nat.testBit_two_pow_mul, Nat.testBit_two_pow_sub_one,
    Nat.mul_comm (x / 2^k), Nat.testBit_two_pow_mul, Nat.testBit_div_two_pow]
  by_cases hi : k ≤ i
  · have he : i - k + k = i := Nat.sub_add_cancel hi
    simp only [hi, decide_true, Bool.true_and, he]
    by_cases hb : i < w
    · simp [show i - k < w - k by omega]
    · have hxi : x.testBit i = false :=
        Nat.testBit_lt_two_pow (hx.trans_le (Nat.pow_le_pow_right (by decide) (by omega)))
      simp [hxi]
  · simp [hi]

theorem and_high_mask (x k : Nat) (hx : x < 2^64) (hk : k ≤ 64) :
    x &&& (2^64 - 2^k) = x / 2^k * 2^k :=
  and_high_mask_width 64 x k hx hk

/-- Masking with `2^k - 1` keeps the low `k` bits. -/
theorem and_low_mask (x k : Nat) : x &&& (2^k - 1) = x % 2^k :=
  Nat.and_two_pow_sub_one_eq_mod x k

/-- Setting the low `k` bits. -/
theorem or_low_mask (x k : Nat) : x ||| (2^k - 1) = x / 2^k * 2^k + (2^k - 1) := by
  have hlt : 2^k - 1 < 2^k := Nat.sub_lt (Nat.two_pow_pos k) (by decide)
  apply Nat.eq_of_testBit_eq
  intro i
  rw [Nat.testBit_or, Nat.testBit_two_pow_sub_one, Nat.mul_comm (x / 2^k),
    Nat.testBit_two_pow_mul_add _ hlt, Nat.testBit_two_pow_sub_one, Nat.testBit_div_two_pow]
  by_cases hi : i < k
  · simp [hi]
  · rw [if_neg hi, Nat.sub_add_cancel (not_lt.mp hi)]
    simp [hi]

/-- A multiple of `b` between two consecutive multiples of `b` is the lower one. -/
theorem div_mul_le_lt (x b : Nat) (hb : 0 < b) : x / b * b ≤ x ∧ x < x / b * b + b := by
  have h := Nat.div_add_mod x b
  have hm := Nat.mod_lt x hb
  rw [Nat.mul_comm] at h
  omega

/-- Two multiples of `b` that are less than `b` apart are equal. -/
theorem eq_of_dvd_of_lt {b x y : Nat} (hx : b ∣ x) (hy : b ∣ y)
    (h1 : x < y + b) (h2 : y < x + b) : x = y := by
  obtain ⟨m, rfl⟩ := hx
  obtain ⟨n, rfl⟩ := hy
  have hm : m < n + 1 := by
    apply Nat.lt_of_mul_lt_mul_left (a := b)
    rw [Nat.mul_add, Nat.mul_one]; exact h1
  have hn : n < m + 1 := by
    apply Nat.lt_of_mul_lt_mul_left (a := b)
    rw [Nat.mul_add, Nat.mul_one]; exact h2
  rw [show m = n by omega]

/-- Two different multiples of `b` are at least `b` apart. -/
theorem add_le_of_dvd_of_lt {b x y : Nat} (hx : b ∣ x) (hy : b ∣ y) (h : x < y) : x + b ≤ y := by
  by_contra hlt
  have heq := eq_of_dvd_of_lt hx hy (by omega) (by omega)
  omega

end ScudoMte.Word
