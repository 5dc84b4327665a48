import Mathlib.Algebra.Order.Ring.Nat
import Mathlib.Order.Interval.Finset.Nat
import Mathlib.Tactic.Linarith
import ScudoMte.Library.Word

namespace ScudoMte.BlockGrid

/-- Block `i` of `b` bytes and page `j` of `p` bytes have a byte in common. -/
def Overlaps (b p i j : Nat) : Prop := i*b < (j+1)*p ∧ j*p < (i+1)*b

/-- The first block that has a byte on page `j` or behind it. -/
def firstOn (b p j : Nat) : Nat := j*p / b

/-- The first block that starts on page `j` or behind it. -/
def startOn (b p j : Nat) : Nat := (j*p + b - 1) / b

/-- The blocks that overlap page `j`. -/
def blocksOn (b p j : Nat) : Finset Nat := Finset.Ico (firstOn b p j) (startOn b p (j+1))

section Ceil

variable {b x i : Nat}

theorem lt_ceil_iff (hb : 0 < b) : i < (x + b - 1) / b ↔ i*b < x := by
  rw [← Nat.succ_le_iff, Nat.le_div_iff_mul_le hb, Nat.succ_mul]
  omega

theorem ceil_eq (hb : 0 < b) (hle : x ≤ i*b) (hlt : i*b < x + b) : (x + b - 1) / b = i := by
  apply le_antisymm
  · exact not_lt.mp fun h => absurd ((lt_ceil_iff hb).mp h) (not_lt.mpr hle)
  · rcases Nat.eq_zero_or_pos i with rfl | hi
    · exact Nat.zero_le _
    · have hmul : i*b = (i-1)*b + b := by
        rw [← Nat.succ_mul]
        congr 1
        omega
      have hpred := (lt_ceil_iff (x := x) (i := i-1) hb).mpr (by omega)
      omega

theorem ceil_spec (hb : 0 < b) (x : Nat) :
    x ≤ (x + b - 1) / b * b ∧ (x + b - 1) / b * b < x + b := by
  obtain ⟨hle, hlt⟩ := Word.div_mul_le_lt (x + b - 1) b hb
  omega

end Ceil

variable {b p : Nat}

theorem startOn_spec (hb : 0 < b) (j : Nat) :
    j*p ≤ startOn b p j * b ∧ startOn b p j * b < j*p + b :=
  ceil_spec hb (j*p)

theorem startOn_eq (hb : 0 < b) {j i : Nat} (hle : j*p ≤ i*b) (hlt : i*b < j*p + b) :
    startOn b p j = i :=
  ceil_eq hb hle hlt

theorem lt_startOn_iff (hb : 0 < b) {i j : Nat} : i < startOn b p j ↔ i*b < j*p :=
  lt_ceil_iff hb

theorem firstOn_le_iff (hb : 0 < b) {i j : Nat} : firstOn b p j ≤ i ↔ j*p < (i+1)*b := by
  rw [firstOn, ← Nat.lt_succ_iff, Nat.div_lt_iff_lt_mul hb]

theorem mem_blocksOn (hb : 0 < b) {i j : Nat} : i ∈ blocksOn b p j ↔ Overlaps b p i j := by
  rw [blocksOn, Finset.mem_Ico, firstOn_le_iff hb, lt_startOn_iff hb, Overlaps, and_comm]

theorem card_blocksOn (j : Nat) : (blocksOn b p j).card = startOn b p (j+1) - firstOn b p j :=
  Nat.card_Ico _ _

/-- The first block on a page is the one before the first that starts there, if that one starts
behind the first byte of the page. -/
theorem firstOn_eq (hb : 0 < b) (j : Nat) :
    startOn b p j = firstOn b p j + if j*p < startOn b p j * b then 1 else 0 := by
  obtain ⟨hle, hlt⟩ := Word.div_mul_le_lt (j*p) b hb
  have hsucc : (firstOn b p j + 1) * b = firstOn b p j * b + b := Nat.succ_mul _ _
  rw [← firstOn] at hle hlt
  by_cases h : firstOn b p j * b = j*p
  · have hs := startOn_eq (p := p) hb (le_of_eq h.symm) (by omega)
    rw [hs, if_neg (by omega), Nat.add_zero]
  · have hs := startOn_eq (p := p) hb (i := firstOn b p j + 1) (j := j) (by omega) (by omega)
    rw [hs, if_pos (by omega)]

/-- The blocks on a page: one that starts before it, if there is one, and those that start
there. -/
theorem card_blocksOn_eq (hb : 0 < b) (j : Nat) :
    (blocksOn b p j).card =
      (if j*p < startOn b p j * b then 1 else 0) + (startOn b p (j+1) - startOn b p j) := by
  have hfirst := firstOn_eq (p := p) hb j
  have hmono : startOn b p j ≤ startOn b p (j+1) := by
    apply Nat.div_le_div_right
    rw [Nat.succ_mul]
    omega
  rw [card_blocksOn]
  omega

theorem card_blocksOn_le (hb : 0 < b) (j : Nat) : (blocksOn b p j).card ≤ p/b + 2 := by
  have hfirst := (firstOn_le_iff (p := p) hb (i := firstOn b p j) (j := j)).mp le_rfl
  obtain ⟨-, hq⟩ := Word.div_mul_le_lt p b hb
  have hstart : ¬ firstOn b p j + p/b + 2 < startOn b p (j+1) := by
    rw [lt_startOn_iff hb]
    have hsum : (firstOn b p j + p/b + 2) * b = (firstOn b p j + 1) * b + (p/b * b + b) := by ring
    have hsucc : (j+1)*p = j*p + p := Nat.succ_mul _ _
    omega
  rw [card_blocksOn, Nat.sub_le_iff_le_add', ← Nat.add_assoc]
  exact not_lt.mp hstart

section Step

/-- From page to page, where a page has room for a whole block. -/
theorem startOn_succ_of_lt (hb : 0 < b) (j : Nat) :
    startOn b p (j+1) = if startOn b p j * b + p/b*b < j*p + p
      then startOn b p j + p/b + 1 else startOn b p j + p/b := by
  obtain ⟨hle, hlt⟩ := startOn_spec (p := p) hb j
  obtain ⟨hq, hq'⟩ := Word.div_mul_le_lt p b hb
  have hsucc : (j+1)*p = j*p + p := Nat.succ_mul _ _
  have hmul : (startOn b p j + p/b) * b = startOn b p j * b + p/b*b := Nat.add_mul _ _ _
  have hmul' : (startOn b p j + p/b + 1) * b = startOn b p j * b + p/b*b + b := by
    rw [Nat.succ_mul, hmul]
  split
  · exact startOn_eq hb (by omega) (by omega)
  · exact startOn_eq hb (by omega) (by omega)

/-- From page to page, where a block has room for a whole page. -/
theorem startOn_succ_of_ge (hb : 0 < b) (hle : p ≤ b) (j : Nat) :
    startOn b p (j+1) = if startOn b p j * b < j*p + p then startOn b p j + 1
      else startOn b p j := by
  obtain ⟨hlo, hhi⟩ := startOn_spec (p := p) hb j
  have hsucc : (j+1)*p = j*p + p := Nat.succ_mul _ _
  have hmul : (startOn b p j + 1) * b = startOn b p j * b + b := Nat.succ_mul _ _
  split
  · exact startOn_eq hb (by omega) (by omega)
  · exact startOn_eq hb (by omega) (by omega)

end Step

section Layouts

theorem card_blocksOn_of_dvd (hb : 0 < b) (h : p % b = 0) (j : Nat) :
    (blocksOn b p j).card = p/b := by
  obtain ⟨q, rfl⟩ := Nat.dvd_of_mod_eq_zero h
  have hs (i : Nat) : startOn b (b*q) i = i*q :=
    startOn_eq hb (le_of_eq (by ring)) (by nlinarith)
  have hmul : j * (b*q) = j*q*b := by ring
  rw [card_blocksOn_eq hb, hs, hs, hmul, if_neg (lt_irrefl _), Nat.mul_div_cancel_left q hb,
    Nat.succ_mul]
  omega

/-- Blocks cross page boundaries at offsets that are multiples of `p % b`. -/
theorem card_blocksOn_of_mod_dvd (hb : 0 < b) (hr : p % b ≠ 0) (h : b % (p % b) = 0) (j : Nat) :
    (blocksOn b p j).card = p/b + 1 := by
  obtain ⟨m, hm⟩ := Nat.dvd_of_mod_eq_zero h
  have hp : p = b * (p/b) + p % b := (Nat.div_add_mod p b).symm
  generalize p/b = q at hp ⊢
  generalize p % b = r at hr hm hp
  have hr0 : 0 < r := Nat.pos_of_ne_zero hr
  have hm0 : 0 < m := Nat.pos_of_ne_zero (by rintro rfl; simp at hm; omega)
  -- the page starts `j % m` times `r` bytes into a block
  have hoff : j*p = (j*q + j/m) * b + (j%m) * r := by
    have hj := Nat.div_add_mod j m
    calc j*p = j*q*b + j*r := by rw [hp]; ring
      _ = j*q*b + (m*(j/m) + j%m) * r := by rw [hj]
      _ = (j*q + j/m) * b + (j%m) * r := by rw [hm]; ring
  have hmod : (j%m + 1) * r ≤ b := by
    rw [hm, Nat.mul_comm r m]
    exact Nat.mul_le_mul_right r (Nat.mod_lt j hm0)
  have hfirst : firstOn b p j = j*q + j/m := by
    rw [Nat.succ_mul] at hmod
    rw [firstOn, hoff, Nat.mul_comm, Nat.mul_add_div hb,
      Nat.div_eq_of_lt (show (j%m) * r < b by omega), Nat.add_zero]
  have hstart : startOn b p (j+1) = j*q + j/m + (q+1) := by
    have hsucc : (j+1)*p = (j*q + j/m) * b + (q*b + (j%m + 1) * r) := by
      rw [Nat.succ_mul, hoff, hp]
      ring
    have hexp : (j*q + j/m + (q+1)) * b = (j*q + j/m) * b + (q*b + b) := by ring
    have hpos : 0 < (j%m + 1) * r := Nat.mul_pos (Nat.succ_pos _) hr0
    exact startOn_eq hb (by omega) (by omega)
  rw [card_blocksOn, hfirst, hstart]
  omega

/-- A block covers whole pages. -/
theorem card_blocksOn_of_multiple (hb : 0 < b) (h : b % p = 0) (j : Nat) :
    (blocksOn b p j).card = 1 := by
  obtain ⟨m, rfl⟩ := Nat.dvd_of_mod_eq_zero h
  have hp : 0 < p := Nat.pos_of_mul_pos_right hb
  have hm : 0 < m := Nat.pos_of_mul_pos_left hb
  have hj := Nat.div_add_mod j m
  have hlt := Nat.mod_lt j hm
  have hfirst : firstOn (p*m) p j = j/m := by
    rw [firstOn, Nat.mul_comm j p, Nat.mul_div_mul_left _ _ hp]
  have hstart : startOn (p*m) p (j+1) = j/m + 1 := by
    refine startOn_eq hb ?_ ?_
    · calc (j+1)*p ≤ (m*(j/m) + m)*p := Nat.mul_le_mul_right p (by omega)
        _ = (j/m + 1)*(p*m) := by ring
    · calc (j/m + 1)*(p*m) = (m*(j/m))*p + p*m := by ring
        _ < (j+1)*p + p*m := Nat.add_lt_add_right (Nat.mul_lt_mul_of_pos_right (by omega) hp) _
  rw [card_blocksOn, hfirst, hstart]
  omega

end Layouts

end ScudoMte.BlockGrid
