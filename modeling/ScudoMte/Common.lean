import ScudoMte.Library.Word

namespace ScudoMte

open Word

/-- `A - B` on `uptr`. -/
def wrapSub (a b : Nat) : Nat := (a + 2^64 - b) % 2^64

/-- `(X + Boundary - 1) & ~(Boundary - 1)` on `uptr`. -/
def roundUp (x boundary : Nat) : Nat := (x + boundary - 1) % 2^64 &&& (2^64 - boundary)

/-- `X & ~(Boundary - 1)` on `uptr`. -/
def roundDown (x boundary : Nat) : Nat := x &&& (2^64 - boundary)

/-- `(X & (Alignment - 1)) == 0`. -/
def isAligned (x alignment : Nat) : Bool := x &&& (alignment - 1) == 0

/-- `roundUp` for any boundary. -/
def roundUpSlow (x boundary : Nat) : Nat := (x + boundary - 1) / boundary * boundary

def roundDownSlow (x boundary : Nat) : Nat := x / boundary * boundary

def isPowerOfTwo (x : Nat) : Bool := x ≠ 0 ∧ x &&& (x - 1) = 0

def getMostSignificantSetBitIndex (x : Nat) : Nat := Nat.log2 x

/-- `__builtin_ctzl` on a word of `n` bits. -/
def countTrailingZeros : Nat → Nat → Nat
  | 0, _ => 0
  | n+1, x => if x % 2 = 1 then 0 else countTrailingZeros n (x/2) + 1

def getLeastSignificantSetBitIndex (x : Nat) : Nat := countTrailingZeros 64 x

def getLog2 (x : Nat) : Nat := getLeastSignificantSetBitIndex x

def roundUpPowerOfTwo (size : Nat) : Nat :=
  if isPowerOfTwo size then size else 1 <<< (getMostSignificantSetBitIndex size + 1)

theorem wrapSub_of_le {a b : Nat} (hb : b ≤ a) (ha : a < 2^64) : wrapSub a b = a - b := by
  rw [wrapSub, show a + 2^64 - b = a - b + 2^64 by omega, Nat.add_mod_right,
    Nat.mod_eq_of_lt (by omega)]

theorem wrapSub_of_lt {a b : Nat} (hb : a < b) : wrapSub a b = a + 2^64 - b := by
  rw [wrapSub, Nat.mod_eq_of_lt (by omega)]

theorem roundDown_eq (x k : Nat) (hx : x < 2^64) (hk : k ≤ 64) :
    roundDown x (2^k) = x / 2^k * 2^k :=
  and_high_mask x k hx hk

theorem roundUp_eq (x k : Nat) (hk : k ≤ 64) (hx : x + 2^k ≤ 2^64) :
    roundUp x (2^k) = (x + 2^k - 1) / 2^k * 2^k := by
  have hp : 0 < 2^k := Nat.two_pow_pos k
  rw [roundUp, Nat.mod_eq_of_lt (by omega), and_high_mask _ k (by omega) hk]

/-- `roundUp` is the least multiple of the boundary that is not below the argument. -/
theorem roundUp_spec (x k : Nat) (hk : k ≤ 64) (hx : x + 2^k ≤ 2^64) :
    x ≤ roundUp x (2^k) ∧ roundUp x (2^k) < x + 2^k ∧ 2^k ∣ roundUp x (2^k) := by
  have hp : 0 < 2^k := Nat.two_pow_pos k
  have h := div_mul_le_lt (x + 2^k - 1) (2^k) hp
  rw [roundUp_eq x k hk hx]
  exact ⟨by omega, by omega, Nat.dvd_mul_left _ _⟩

theorem roundDown_spec (x k : Nat) (hx : x < 2^64) (hk : k ≤ 64) :
    roundDown x (2^k) ≤ x ∧ x < roundDown x (2^k) + 2^k ∧ 2^k ∣ roundDown x (2^k) := by
  have h := div_mul_le_lt x (2^k) (Nat.two_pow_pos k)
  rw [roundDown_eq x k hx hk]
  exact ⟨h.1, h.2, Nat.dvd_mul_left _ _⟩

theorem roundUp_of_dvd (x k : Nat) (hk : k ≤ 64) (hx : x + 2^k ≤ 2^64) (hd : 2^k ∣ x) :
    roundUp x (2^k) = x := by
  have h := roundUp_spec x k hk hx
  exact eq_of_dvd_of_lt h.2.2 hd h.2.1 (by have := Nat.two_pow_pos k; omega)

theorem roundUp_16 (x : Nat) (hx : x + 16 ≤ 2^64) : roundUp x 16 = (x+15)/16*16 :=
  roundUp_eq x 4 (by decide) hx

/-- A multiple of a power of two from 16 on is a multiple of 16. -/
theorem mod_16_of_dvd {x k : Nat} (hk : 4 ≤ k) (h : 2^k ∣ x) : x % 16 = 0 :=
  Nat.mod_eq_zero_of_dvd ((Nat.pow_dvd_pow 2 hk).trans h)

theorem countTrailingZeros_spec (n x : Nat) (h0 : 0 < x) (hx : x < 2^n) :
    2^(countTrailingZeros n x) ∣ x ∧ x / 2^(countTrailingZeros n x) % 2 = 1 := by
  induction n generalizing x with
  | zero => omega
  | succ n ih =>
    rw [countTrailingZeros]
    split
    · simpa
    · rw [pow_succ] at hx
      obtain ⟨hd, ho⟩ := ih (x/2) (by omega) (by omega)
      refine ⟨?_, ?_⟩
      · obtain ⟨m, hm⟩ := hd
        exact ⟨m, by rw [pow_succ, Nat.mul_right_comm, ← hm]; omega⟩
      · rw [pow_succ, Nat.mul_comm, ← Nat.div_div_eq_div_mul]
        exact ho

/-- The least significant set bit: `x` is that power of two times an odd number. -/
theorem getLeastSignificantSetBitIndex_spec (x : Nat) (h0 : 0 < x) (hx : x < 2^64) :
    2^(getLeastSignificantSetBitIndex x) ∣ x ∧
      x / 2^(getLeastSignificantSetBitIndex x) % 2 = 1 :=
  countTrailingZeros_spec 64 x h0 hx

theorem getLog2_two_pow {k : Nat} (hk : k ≤ 6) : getLog2 (2^k) = k := by
  revert k
  decide

/-- A bit count is rounded up to the bits of a counter. -/
theorem roundUpPowerOfTwo_spec {x : Nat} (h0 : 0 < x) (hx : x ≤ 64) :
    ∃ k ≤ 6, roundUpPowerOfTwo x = 2^k ∧ x ≤ 2^k := by
  have h : ∀ y < 65, 0 < y → ∃ k < 7, roundUpPowerOfTwo y = 2^k ∧ y ≤ 2^k := by
    decide +kernel
  obtain ⟨k, hk, hspec⟩ := h x (by omega) h0
  exact ⟨k, by omega, hspec⟩

end ScudoMte
