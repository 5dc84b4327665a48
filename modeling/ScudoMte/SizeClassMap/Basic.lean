import ScudoMte.Common
import Mathlib.Data.List.Basic

namespace ScudoMte

/-- What the allocators use of a size class map, with what they rely on. Class 0 holds the
free list batches; the other classes are numbered from 1. -/
structure SizeClassMap where
  largestClassId : Nat
  maxSize : Nat
  getSizeByClassId : Nat → Nat
  getClassIdBySize : Nat → Nat
  getSizeLSBByClassId : Nat → Nat
  largest_pos : 1 ≤ largestClassId
  largest_lt : largestClassId < 256
  size_pos : ∀ c, 1 ≤ c → c ≤ largestClassId → 0 < getSizeByClassId c
  size_aligned : ∀ c, 1 ≤ c → c ≤ largestClassId → getSizeByClassId c % 16 = 0
  size_succ : ∀ c, 1 ≤ c → c < largestClassId → getSizeByClassId c ≤ getSizeByClassId (c+1)
  size_largest : getSizeByClassId largestClassId = maxSize
  maxSize_le : maxSize ≤ 2^20
  class_spec : ∀ s, 0 < s → s ≤ maxSize → 1 ≤ getClassIdBySize s ∧
    getClassIdBySize s ≤ largestClassId ∧ s ≤ getSizeByClassId (getClassIdBySize s)
  lsb_spec : ∀ c, 1 ≤ c → c ≤ largestClassId →
    2^(getSizeLSBByClassId c) ∣ getSizeByClassId c ∧
      getSizeByClassId c / 2^(getSizeLSBByClassId c) % 2 = 1

namespace SizeClassMap

theorem size_mono (scm : SizeClassMap) {c d : Nat} (hc : 1 ≤ c) (hcd : c ≤ d)
    (hd : d ≤ scm.largestClassId) : scm.getSizeByClassId c ≤ scm.getSizeByClassId d := by
  induction d, hcd using Nat.le_induction with
  | base => exact le_refl _
  | succ d hcd ih => exact (ih (by omega)).trans (scm.size_succ d (by omega) (by omega))

theorem size_le_max (scm : SizeClassMap) {c : Nat} (hc : 1 ≤ c) (hd : c ≤ scm.largestClassId) :
    scm.getSizeByClassId c ≤ 2^20 := by
  have h := scm.size_mono hc hd (le_refl _)
  rw [scm.size_largest] at h
  exact h.trans scm.maxSize_le

end SizeClassMap

/-- `1 << n` of the `int` 1, converted to `uptr`: the sign bit is extended. -/
def intOneShiftLeft (n : Nat) : Nat := ((1#32 <<< n).signExtend 64).toNat

theorem intOneShiftLeft_eq {n : Nat} (hn : n < 31) : intOneShiftLeft n = 2^n := by
  have h : ∀ n < 31, intOneShiftLeft n = 2^n := by decide
  exact h n hn

def scaledLog2 (size zeroLog logBits : Nat) : Nat :=
  let l := getMostSignificantSetBitIndex size
  let lBits := wrapSub (size >>> (l-logBits)) (intOneShiftLeft logBits)
  let hBits := (l-zeroLog) <<< logBits
  lBits + hBits

/-- The size `2^z * (2^s + j) / 2^s` scaled up by `2^q`: where the geometric part of a size
class map puts the class number `q * 2^s + j`. -/
def scaledSize (z s q j : Nat) : Nat := 2^(z+q-s) * (2^s+j)

theorem scaledSize_carry (z s q : Nat) (hs : s ≤ z) :
    scaledSize z s q (2^s) = scaledSize z s (q+1) 0 := by
  have he : z + (q+1) - s = z + q - s + 1 := by omega
  rw [scaledSize, scaledSize, he, pow_succ]
  ring

theorem scaledSize_lt_succ (z s q j : Nat) : scaledSize z s q j < scaledSize z s q (j+1) :=
  Nat.mul_lt_mul_of_pos_left (by omega) (Nat.two_pow_pos _)

theorem scaledSize_zero (z s : Nat) (hs : s ≤ z) : scaledSize z s 0 0 = 2^z := by
  rw [scaledSize, Nat.add_zero, Nat.add_zero, ← pow_add, Nat.sub_add_cancel hs]

theorem scaledSize_lt_pow {z s r : Nat} (q : Nat) (hs : s ≤ z) (hr : r < 2^s) :
    scaledSize z s q r < 2^(z+q+1) := by
  have hsplit : 2^(z+q+1) = 2^(z+q-s) * (2^s * 2) := by
    rw [← pow_succ, ← pow_add]
    congr 1
    omega
  rw [hsplit, scaledSize]
  exact Nat.mul_lt_mul_of_pos_left (by omega) (Nat.two_pow_pos _)

/-- `scaledLog2` numbers the geometric steps: a size lies in the step it is sent to, and the
step is one of those up to `2^m`. -/
theorem scaledLog2_spec (n z s m : Nat) (hs : s ≤ z) (hs31 : s < 31) (hz : 2^z ≤ n) (hm : n < 2^m) :
    ∃ q r, scaledLog2 n z s = q * 2^s + r ∧ r < 2^s ∧ q + z + 1 ≤ m ∧
      scaledSize z s q r ≤ n ∧ n < scaledSize z s q (r+1) := by
  have hn : n ≠ 0 := by have := Nat.two_pow_pos z; omega
  have hpow := Nat.two_pow_pos s
  have hle := Nat.log2_self_le hn
  have hlt := (Nat.log2_lt hn).mp (Nat.lt_succ_self n.log2)
  have hzl : z ≤ n.log2 := (Nat.le_log2 hn).mpr hz
  have hlm : n.log2 < m := (Nat.log2_lt hn).mpr hm
  -- the bits of `n` under the top one, cut to `s` bits
  have hsplit : 2^(n.log2) = 2^(n.log2-s) * 2^s := by
    rw [← pow_add, Nat.sub_add_cancel (hs.trans hzl)]
  have hcut := Nat.two_pow_pos (n.log2-s)
  have hlow : 2^s ≤ n / 2^(n.log2-s) := by
    rw [Nat.le_div_iff_mul_le hcut, Nat.mul_comm, ← hsplit]
    exact hle
  have hhigh : n / 2^(n.log2-s) < 2 * 2^s := by
    rw [Nat.div_lt_iff_lt_mul hcut, Nat.mul_assoc, Nat.mul_comm (2^s), ← hsplit]
    rw [pow_succ] at hlt
    omega
  have hexp : z + (n.log2 - z) - s = n.log2 - s := by omega
  have hsum : 2^s + (n / 2^(n.log2-s) - 2^s) = n / 2^(n.log2-s) := by omega
  refine ⟨n.log2 - z, n / 2^(n.log2-s) - 2^s, ?_, by omega, by omega, ?_, ?_⟩
  · have hpow31 : 2^s < 2^31 := Nat.pow_lt_pow_right (by decide) hs31
    simp only [scaledLog2, getMostSignificantSetBitIndex, Nat.shiftRight_eq_div_pow,
      Nat.shiftLeft_eq, intOneShiftLeft_eq hs31]
    rw [wrapSub_of_le hlow (by omega)]
    omega
  · rw [scaledSize, hexp, hsum]
    exact Nat.mul_div_le n _
  · rw [scaledSize, hexp, ← Nat.add_assoc, hsum]
    exact Nat.lt_mul_div_succ n hcut

end ScudoMte
