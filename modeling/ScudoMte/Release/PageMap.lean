import Mathlib.Logic.Function.Basic
import ScudoMte.Common
import ScudoMte.Library.PackedWord

namespace ScudoMte.Release

open PackedWord

/-- `RegionPageMap`: counters packed into the words of a buffer, `2^counterSizeBitsLog` bits
each. -/
structure RegionPageMap where
  regions : Nat
  numCounters : Nat
  counterSizeBitsLog : Nat
  counterMask : Nat
  packingRatioLog : Nat
  bitOffsetMask : Nat
  sizePerRegion : Nat
  bufferNumElements : Nat
  data : Nat → Nat

namespace RegionPageMap

/-- `reset`, once a zeroed buffer is at hand. -/
def reset (numberOfRegion countersPerRegion maxValue : Nat) : RegionPageMap :=
  let maxCounterBits := 64
  let counterSizeBits := roundUpPowerOfTwo (getMostSignificantSetBitIndex maxValue + 1)
  let counterSizeBitsLog := getLog2 counterSizeBits
  let packingRatio := maxCounterBits >>> counterSizeBitsLog
  let packingRatioLog := getLog2 packingRatio
  let sizePerRegion := roundUp countersPerRegion (1 <<< packingRatioLog) >>> packingRatioLog
  { regions := numberOfRegion
    numCounters := countersPerRegion
    counterSizeBitsLog
    counterMask := (2^64 - 1) >>> (maxCounterBits - counterSizeBits)
    packingRatioLog
    bitOffsetMask := packingRatio - 1
    sizePerRegion
    bufferNumElements := sizePerRegion * numberOfRegion % 2^64
    data := fun _ => 0 }

/-- The word that holds a counter. -/
def wordIndex (m : RegionPageMap) (region i : Nat) : Nat :=
  region * m.sizePerRegion + (i >>> m.packingRatioLog)

def bitOffset (m : RegionPageMap) (i : Nat) : Nat := (i &&& m.bitOffsetMask) <<< m.counterSizeBitsLog

def get (m : RegionPageMap) (region i : Nat) : Nat :=
  (m.data (m.wordIndex region i) >>> m.bitOffset i) &&& m.counterMask

/-- The counter is in the map. -/
def InRange (m : RegionPageMap) (region i : Nat) : Prop := region < m.regions ∧ i < m.numCounters

instance (m : RegionPageMap) (region i : Nat) : Decidable (m.InRange region i) :=
  inferInstanceAs (Decidable (_ ∧ _))

def isAllCounted (m : RegionPageMap) (region i : Nat) : Bool := m.get region i = m.counterMask

/-- `+= n << BitOffset` on the word of a counter. -/
def add (m : RegionPageMap) (region i n : Nat) : RegionPageMap :=
  { m with
    data := Function.update m.data (m.wordIndex region i)
      ((m.data (m.wordIndex region i) + n <<< m.bitOffset i) % 2^64) }

/-- `incN`; `none` where one of its debug checks fails: the counter is not in the map, or it
would carry into its neighbour. -/
def incN (m : RegionPageMap) (region i n : Nat) : Option RegionPageMap :=
  if m.InRange region i ∧ 0 < n ∧ n ≤ m.counterMask ∧ m.get region i ≤ m.counterMask - n ∧
      !m.isAllCounted region i then
    some (m.add region i n)
  else none

/-- `inc`, with its debug checks. -/
def inc (m : RegionPageMap) (region i : Nat) : Option RegionPageMap :=
  if m.InRange region i ∧ m.get region i < m.counterMask ∧ !m.isAllCounted region i then
    some (m.add region i 1)
  else none

/-- `incRange`, with its debug checks. -/
def incRange (m : RegionPageMap) (region lo hi : Nat) : Option RegionPageMap :=
  if lo ≤ hi then
    (List.range' lo (min (hi+1) m.numCounters - lo)).foldlM (fun m i => m.inc region i) m
  else none

/-- `setAsAllCounted`, with its debug checks. -/
def setAsAllCounted (m : RegionPageMap) (region i : Nat) : Option RegionPageMap :=
  if m.InRange region i ∧ m.get region i ≤ m.counterMask then
    some { m with
      data := Function.update m.data (m.wordIndex region i)
        (m.data (m.wordIndex region i) ||| m.counterMask <<< m.bitOffset i) }
  else none

/-- `setAsAllCountedRange`, with its debug checks. -/
def setAsAllCountedRange (m : RegionPageMap) (region lo hi : Nat) : Option RegionPageMap :=
  if lo ≤ hi then
    (List.range' lo (min (hi+1) m.numCounters - lo)).foldlM (fun m i => m.setAsAllCounted region i) m
  else none

/-- `updateAsAllCountedIf`, with the debug checks. -/
def updateAsAllCountedIf (m : RegionPageMap) (region i maxCount : Nat) :
    Option (Bool × RegionPageMap) :=
  if m.InRange region i then
    if m.get region i = m.counterMask then some (true, m)
    else if m.get region i = maxCount then
      (m.setAsAllCounted region i).map fun m' => (true, m')
    else some (false, m)
  else none

/-- The layout that `reset` chooses. -/
structure WellFormed (m : RegionPageMap) : Prop where
  layout : ∃ k ≤ 6, m.counterSizeBitsLog = k ∧ m.counterMask = 2^2^k - 1 ∧
    m.packingRatioLog = 6-k ∧ m.bitOffsetMask = 2^(6-k) - 1
  numCounters_le : m.numCounters ≤ m.sizePerRegion * 2^m.packingRatioLog
  word_lt : ∀ w, m.data w < 2^64

/-- Counters of `2^k` bits, `2^(6-k)` of them in a word. -/
theorem reset_layout (regions counters : Nat) {maxValue : Nat} (h0 : 0 < maxValue)
    (hmax : maxValue < 2^64) :
    ∃ k ≤ 6, (reset regions counters maxValue).counterSizeBitsLog = k ∧
      (reset regions counters maxValue).counterMask = 2^2^k - 1 ∧
      (reset regions counters maxValue).packingRatioLog = 6-k ∧
      (reset regions counters maxValue).bitOffsetMask = 2^(6-k) - 1 ∧
      (reset regions counters maxValue).sizePerRegion = roundUp counters (2^(6-k)) / 2^(6-k) ∧
      maxValue < 2^2^k := by
  have hlog : getMostSignificantSetBitIndex maxValue + 1 ≤ 64 :=
    (Nat.log2_lt (Nat.pos_iff_ne_zero.mp h0)).mpr hmax
  obtain ⟨k, hk, hbits, hle⟩ := roundUpPowerOfTwo_spec (Nat.succ_pos _) hlog
  have hratio : (64 >>> k) = 2^(6-k) := by
    rw [Nat.shiftRight_eq_div_pow, show 64 = 2^6 from rfl, Nat.pow_div hk (by decide)]
  have hbits64 : 2^k ≤ 64 := Nat.pow_le_pow_right (by decide : 0 < 2) hk
  have hmask : (2^64 - 1) >>> (64 - 2^k) = 2^2^k - 1 := by
    apply Nat.eq_of_testBit_eq
    intro i
    rw [Nat.testBit_shiftRight, Nat.testBit_two_pow_sub_one, Nat.testBit_two_pow_sub_one]
    congr 1
    exact propext (by omega)
  have hlt : maxValue < 2^2^k :=
    lt_of_lt_of_le Nat.lt_log2_self (Nat.pow_le_pow_right (by decide) hle)
  refine ⟨k, hk, ?_⟩
  simp only [reset, hbits, getLog2_two_pow hk, hratio, getLog2_two_pow (Nat.sub_le 6 k), hmask,
    Nat.one_shiftLeft, Nat.shiftRight_eq_div_pow]
  exact ⟨trivial, trivial, trivial, trivial, trivial, hlt⟩

/-- The word count of a region is right unless the rounding wraps around. -/
theorem reset_wellFormed {regions counters maxValue : Nat} (h0 : 0 < maxValue)
    (hmax : maxValue < 2^64)
    (hcounters : counters + 2^(reset regions counters maxValue).packingRatioLog ≤ 2^64) :
    (reset regions counters maxValue).WellFormed ∧
      maxValue ≤ (reset regions counters maxValue).counterMask := by
  obtain ⟨k, hk, hlog, hmask, hpack, hoff, hsize, hlt⟩ := reset_layout regions counters h0 hmax
  rw [hpack] at hcounters
  obtain ⟨hup, -, hd⟩ := roundUp_spec counters (6-k) (by omega) hcounters
  refine ⟨⟨⟨k, hk, hlog, hmask, hpack, hoff⟩, ?_, fun _ => by simp [reset]⟩, by omega⟩
  rw [hsize, hpack, Nat.div_mul_cancel hd]
  exact hup

theorem reset_packingRatio_le (regions counters : Nat) {maxValue : Nat} (h0 : 0 < maxValue)
    (hmax : maxValue < 2^64) : 2^(reset regions counters maxValue).packingRatioLog ≤ 64 := by
  obtain ⟨k, hk, -, -, hpack, -⟩ := reset_layout regions counters h0 hmax
  rw [hpack]
  exact Nat.pow_le_pow_right (by decide : 0 < 2) (Nat.sub_le 6 k)

theorem reset_get (regions counters maxValue region i : Nat) :
    (reset regions counters maxValue).get region i = 0 := by
  simp [reset, get]

theorem WellFormed.word_lt_sizePerRegion {m : RegionPageMap} (h : m.WellFormed) {i : Nat}
    (hi : i < m.numCounters) : i >>> m.packingRatioLog < m.sizePerRegion := by
  rw [Nat.shiftRight_eq_div_pow, Nat.div_lt_iff_lt_mul (Nat.two_pow_pos _)]
  exact lt_of_lt_of_le hi h.numCounters_le

/-- Counters in one word are of the same region and of the same group of counters. -/
theorem wordIndex_eq {m : RegionPageMap} (h : m.WellFormed) {r i r' j : Nat}
    (hi : i < m.numCounters) (hj : j < m.numCounters) (heq : m.wordIndex r' j = m.wordIndex r i) :
    r' = r ∧ j >>> m.packingRatioLog = i >>> m.packingRatioLog := by
  have hwi := h.word_lt_sizePerRegion hi
  have hwj := h.word_lt_sizePerRegion hj
  rw [wordIndex, wordIndex] at heq
  have hdiv (q z : Nat) (hz : z < m.sizePerRegion) :
      (q * m.sizePerRegion + z) / m.sizePerRegion = q := by
    rw [Nat.mul_comm, Nat.mul_add_div (by omega), Nat.div_eq_of_lt hz, Nat.add_zero]
  have hr : r' = r := by rw [← hdiv r' _ hwj, heq, hdiv r _ hwi]
  subst hr
  exact ⟨rfl, Nat.add_left_cancel heq⟩

/-- The words of the buffer hold all counters of the map. -/
theorem wordIndex_lt {m : RegionPageMap} (h : m.WellFormed) {region i : Nat}
    (hr : m.InRange region i) : m.wordIndex region i < m.sizePerRegion * m.regions := by
  rw [wordIndex, Nat.mul_comm m.sizePerRegion]
  calc region * m.sizePerRegion + (i >>> m.packingRatioLog)
      < region * m.sizePerRegion + m.sizePerRegion :=
        Nat.add_lt_add_left (h.word_lt_sizePerRegion hr.2) _
    _ = (region+1) * m.sizePerRegion := (Nat.succ_mul _ _).symm
    _ ≤ m.regions * m.sizePerRegion := Nat.mul_le_mul_right _ hr.1

/-- A map with one counter changed. -/
structure Updated (m m' : RegionPageMap) (region i v : Nat) : Prop where
  shape : m' = { m with data := m'.data }
  wellFormed : m'.WellFormed
  self : m'.get region i = v
  other : ∀ r j, j < m.numCounters → (r, j) ≠ (region, i) → m'.get r j = m.get r j

section Word

variable {m : RegionPageMap} {k : Nat} (h : m.WellFormed) (hk : k ≤ 6)
  (hlog : m.counterSizeBitsLog = k) (hmask : m.counterMask = 2^2^k - 1)
  (hpack : m.packingRatioLog = 6-k) (hoff : m.bitOffsetMask = 2^(6-k) - 1)

include hlog hoff in
theorem bitOffset_eq (i : Nat) : m.bitOffset i = 2^k * (i % 2^(6-k)) := by
  rw [bitOffset, hlog, hoff, Nat.and_two_pow_sub_one_eq_mod, Nat.shiftLeft_eq, Nat.mul_comm]

include hlog hmask hoff in
theorem get_eq (f : Nat → Nat) (r j : Nat) : RegionPageMap.get { m with data := f } r j =
    counter (2^k) (f (m.wordIndex r j)) (j % 2^(6-k)) := by
  change (f (m.wordIndex r j) >>> m.bitOffset j) &&& m.counterMask = _
  rw [hmask, bitOffset_eq hlog hoff, Nat.mul_comm, shift_and_mask]

include h hk hlog hmask hpack hoff in
/-- A new word in the place of the one that holds a counter. -/
theorem update_word {region i v w : Nat} (hi : i < m.numCounters) (hw : w < 2^64)
    (hself : counter (2^k) w (i % 2^(6-k)) = v)
    (hother : ∀ j, j ≠ i % 2^(6-k) →
      counter (2^k) w j = counter (2^k) (m.data (m.wordIndex region i)) j) :
    Updated m { m with data := Function.update m.data (m.wordIndex region i) w } region i v := by
  have hget := get_eq hlog hmask hoff
  refine ⟨rfl, ⟨⟨k, hk, hlog, hmask, hpack, hoff⟩, h.numCounters_le, ?_⟩,
    ?_, ?_⟩
  · intro x
    simp only [Function.update_apply]
    split
    · exact hw
    · exact h.word_lt x
  · rw [hget, Function.update_self, hself]
  · intro r j hj hne
    have hm := hget m.data r j
    rw [hget, Function.update_apply]
    split
    · next heq =>
      obtain ⟨rfl, hshift⟩ := wordIndex_eq h hi hj heq
      have hpos : j % 2^(6-k) ≠ i % 2^(6-k) := by
        intro hmod
        apply hne
        rw [hpack, Nat.shiftRight_eq_div_pow, Nat.shiftRight_eq_div_pow] at hshift
        rw [← Nat.div_add_mod j (2^(6-k)), hshift, hmod, Nat.div_add_mod]
      rw [hother _ hpos, ← heq]
      exact hm.symm
    · exact hm.symm

include hk in
/-- The counters of a word fill it. -/
theorem word_bits : 2^k * 2^(6-k) = 64 := by
  rw [← pow_add, Nat.add_sub_cancel' hk]
  rfl

end Word

/-- Adding to a counter that stays within its bits. -/
theorem add_updated {m : RegionPageMap} (h : m.WellFormed) {region i n : Nat}
    (hi : i < m.numCounters) (hn : m.get region i + n ≤ m.counterMask) :
    Updated m (m.add region i n) region i (m.get region i + n) := by
  obtain ⟨k, hk, hlog, hmask, hpack, hoff⟩ := h.layout
  have hget : m.get region i = counter (2^k) (m.data (m.wordIndex region i)) (i % 2^(6-k)) :=
    get_eq hlog hmask hoff m.data region i
  have hlt := Nat.mod_lt i (Nat.two_pow_pos (6-k))
  have hfit : counter (2^k) (m.data (m.wordIndex region i)) (i % 2^(6-k)) + n < 2^2^k := by
    have hpos := Nat.two_pow_pos (2^k)
    rw [← hget]
    omega
  have hword : m.data (m.wordIndex region i) < 2^(2^k * 2^(6-k)) := by
    rw [word_bits hk]
    exact h.word_lt _
  have hsum := add_lt_of_lt hfit hlt hword
  rw [word_bits hk] at hsum
  rw [add, bitOffset_eq hlog hoff, Nat.shiftLeft_eq, Nat.mod_eq_of_lt hsum]
  refine update_word h hk hlog hmask hpack hoff hi hsum ?_ fun j hj => counter_add_of_ne hfit hj
  rw [counter_add_self hfit, ← hget]

theorem incN_spec {m : RegionPageMap} (h : m.WellFormed) {region i n : Nat}
    (hr : m.InRange region i) (hpos : 0 < n) (hn : m.get region i + n ≤ m.counterMask) :
    ∃ m', m.incN region i n = some m' ∧ Updated m m' region i (m.get region i + n) := by
  refine ⟨_, if_pos ⟨hr, hpos, by omega, by omega, ?_⟩, add_updated h hr.2 hn⟩
  simp only [isAllCounted, Bool.not_eq_true', decide_eq_false_iff_not]
  omega

theorem inc_spec {m : RegionPageMap} (h : m.WellFormed) {region i : Nat}
    (hr : m.InRange region i) (hn : m.get region i < m.counterMask) :
    ∃ m', m.inc region i = some m' ∧ Updated m m' region i (m.get region i + 1) := by
  refine ⟨_, if_pos ⟨hr, hn, ?_⟩, add_updated h hr.2 hn⟩
  simp only [isAllCounted, Bool.not_eq_true', decide_eq_false_iff_not]
  omega

theorem get_le {m : RegionPageMap} (region i : Nat) : m.get region i ≤ m.counterMask :=
  Nat.and_le_right

theorem setAsAllCounted_spec {m : RegionPageMap} (h : m.WellFormed) {region i : Nat}
    (hr : m.InRange region i) :
    ∃ m', m.setAsAllCounted region i = some m' ∧ Updated m m' region i m.counterMask := by
  refine ⟨_, if_pos ⟨hr, get_le _ _⟩, ?_⟩
  obtain ⟨k, hk, hlog, hmask, hpack, hoff⟩ := h.layout
  have hlt := Nat.mod_lt i (Nat.two_pow_pos (6-k))
  have hword : m.data (m.wordIndex region i) < 2^(2^k * 2^(6-k)) := by
    rw [word_bits hk]
    exact h.word_lt _
  have hor := or_lt_of_lt hlt hword
  rw [word_bits hk] at hor
  have hup := update_word h hk hlog hmask hpack hoff hr.2 hor counter_or_self
    fun j hj => counter_or_of_ne hj
  rw [← hmask, ← bitOffset_eq hlog hoff] at hup
  exact hup

end RegionPageMap

end ScudoMte.Release
