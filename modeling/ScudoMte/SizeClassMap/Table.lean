import ScudoMte.SizeClassMap.Basic

namespace ScudoMte

structure TableSizeClassConfig where
  numBits : Nat
  minSizeLog : Nat
  midSizeLog : Nat
  maxSizeLog : Nat
  sizeDelta : Nat
  classes : List Nat

namespace TableSizeClassMap

variable (config : TableSizeClassConfig)

def s : Nat := config.numBits - 1

def computeClassIdFrom (size : Nat) : List Nat → Nat → Nat
  | [], _ => 255
  | c::cs, i => if size ≤ c then i+1 else computeClassIdFrom size cs (i+1)

def computeClassId (size : Nat) : Nat := computeClassIdFrom size config.classes 0

def getTableSize : Nat := (config.maxSizeLog - config.midSizeLog) <<< s config

/-- One round of the loop that fills the size table: the position and its increment. -/
def sizeTableStep (p : Nat × Nat) : Nat × Nat :=
  let pos := (p.1 + p.2) % 2^64
  (pos, if pos &&& (pos-1) = 0 then p.2 * 2 % 2^64 else p.2)

def sizeTablePos : Nat → Nat × Nat
  | 0 => (intOneShiftLeft config.midSizeLog, intOneShiftLeft (config.midSizeLog - s config))
  | i+1 => sizeTableStep (sizeTablePos i)

/-- `SzTable.Tab[i]`. -/
def sizeTable (i : Nat) : Nat :=
  computeClassId config (((sizeTablePos config (i+1)).1 + config.sizeDelta) % 2^64)

/-- The bit loop of `LSBTable`, from `bit` on. -/
def lowestBit : Nat → Nat → Nat → Nat
  | 0, _, _ => 0
  | fuel+1, bit, x => if x &&& intOneShiftLeft bit ≠ 0 then bit else lowestBit fuel (bit+1) x

def lsbTab : List Nat := config.classes.map (lowestBit 64 0)

def lsbMin : Nat := (lsbTab config).foldl (fun acc bit => if bit < acc then bit else acc) 255
def lsbMax : Nat := (lsbTab config).foldl (fun acc bit => if bit > acc then bit else acc) 0

def useCompressedFormat : Bool :=
  !(lsbMax config - lsbMin config > 3 || config.classes.length > 32)

/-- The packing loop of `LSBTable`, from index `i` on. -/
def compressFrom (min : Nat) : List Nat → Nat → Nat → Nat
  | [], _, acc => acc
  | bit::bits, i, acc => compressFrom min bits (i+1) (acc ||| (bit-min) <<< (i*2))

def compressedValue : Nat := compressFrom (lsbMin config) (lsbTab config) 0 0

def largestClassId : Nat := config.classes.length
def maxSize : Nat := config.classes.getD (largestClassId config - 1) 0

def getSizeByClassId (classId : Nat) : Nat := config.classes.getD (classId-1) 0

def getSizeLSBByClassId (classId : Nat) : Nat :=
  if useCompressedFormat config then
    (compressedValue config >>> ((classId-1)*2) &&& 3) + lsbMin config
  else (lsbTab config).getD (classId-1) 0

def getClassIdBySize (size : Nat) : Nat :=
  if size ≤ config.classes.getD 0 0 then 1
  else
    let sz := size - config.sizeDelta
    if sz ≤ intOneShiftLeft config.midSizeLog then (sz-1) >>> config.minSizeLog + 1
    else sizeTable config (scaledLog2 (sz-1) config.midSizeLog (s config))

/-- The tables that the combined allocator accepts: sorted multiples of the minimum alignment
that fit the header fields, dense up to the middle size and ending at the largest size. -/
structure Accepted : Prop where
  length_pos : 1 ≤ config.classes.length
  length_lt : config.classes.length + 1 < 256
  step_le : s config ≤ config.midSizeLog
  max_ge : config.midSizeLog ≤ config.maxSizeLog
  classes_pos : ∀ c ∈ config.classes, 0 < c
  classes_aligned : ∀ c ∈ config.classes, c % 16 = 0
  classes_le : ∀ c ∈ config.classes, c ≤ 2^20
  sorted : config.classes.Pairwise (· ≤ ·)
  dense : ∀ i, i < 2^(config.midSizeLog - config.minSizeLog) →
    i < config.classes.length ∧
      (i+1) * 2^config.minSizeLog + config.sizeDelta ≤ config.classes.getD i 0
  mid_ge : config.minSizeLog ≤ config.midSizeLog
  last : maxSize config = 2^config.maxSizeLog + config.sizeDelta

/-- What the search of a size relies on: the logs are in order, the shifts of `int` and the sizes do
not overflow, and the classes cover the multiples of the minimum size up to the middle size and end at
the largest size. -/
structure Ordered : Prop where
  length_pos : 1 ≤ config.classes.length
  min_le_mid : config.minSizeLog ≤ config.midSizeLog
  step_le : s config ≤ config.midSizeLog
  midSizeLog_lt : config.midSizeLog < 31
  maxSize_lt : maxSize config < 2^64
  dense : ∀ i, i < 2^(config.midSizeLog - config.minSizeLog) →
    i < config.classes.length ∧
      (i+1) * 2^config.minSizeLog + config.sizeDelta ≤ config.classes.getD i 0
  last : maxSize config = 2^config.maxSizeLog + config.sizeDelta

variable {config}

theorem getD_mem {l : List Nat} {i d : Nat} (hi : i < l.length) : l.getD i d ∈ l := by
  rw [List.getD_eq_getElem _ _ hi]
  exact List.getElem_mem hi

theorem Accepted.ordered (h : Accepted config) : Ordered config := by
  have hlen := h.length_pos
  have hmax := h.max_ge
  have hlast := h.last
  have hle : maxSize config ≤ 2^20 := h.classes_le _ (getD_mem (by rw [largestClassId]; omega))
  have hpow : 2^config.maxSizeLog ≤ 2^20 := by omega
  have hlog := (Nat.pow_le_pow_iff_right (by decide)).mp hpow
  exact ⟨hlen, h.mid_ge, h.step_le, by omega, by omega, h.dense, hlast⟩

theorem Ordered.maxSizeLog_lt (h : Ordered config) : config.maxSizeLog < 64 := by
  have hlt := h.maxSize_lt
  have hlast := h.last
  exact (Nat.pow_lt_pow_iff_right (by decide)).mp (show 2^config.maxSizeLog < 2^64 by omega)

/-- The bit of a number of 31 bits is found before the shift of `int` overflows. -/
theorem lowestBit_spec (fuel bit x : Nat) (hlow : x % 2^bit = 0) (hx : 0 < x) (h31 : x < 2^31)
    (hlt : x < 2^(bit+fuel)) :
    2^(lowestBit fuel bit x) ∣ x ∧ x / 2^(lowestBit fuel bit x) % 2 = 1 := by
  induction fuel generalizing bit with
  | zero =>
    rw [Nat.add_zero] at hlt
    rw [Nat.mod_eq_of_lt hlt] at hlow
    omega
  | succ fuel ih =>
    have hle := Nat.le_of_dvd hx (Nat.dvd_of_mod_eq_zero hlow)
    have hbit31 : bit < 31 := (Nat.pow_lt_pow_iff_right (by decide)).mp (hle.trans_lt h31)
    have hbit : x &&& intOneShiftLeft bit = (x.testBit bit).toNat * 2^bit := by
      rw [intOneShiftLeft_eq hbit31, Nat.and_two_pow]
    rw [lowestBit, hbit, Nat.testBit_eq_decide_div_mod_eq]
    by_cases hb : x / 2^bit % 2 = 1
    · have hp := Nat.two_pow_pos bit
      simp only [hb, decide_true, Bool.toNat_true, Nat.one_mul]
      rw [if_pos (by omega)]
      exact ⟨Nat.dvd_of_mod_eq_zero hlow, hb⟩
    · simp only [hb, decide_false, Bool.toNat_false, Nat.zero_mul, ne_eq, not_true_eq_false,
        if_false]
      refine ih (bit+1) ?_ (by rwa [Nat.add_assoc, Nat.add_comm 1])
      rw [pow_succ, Nat.mod_mul, hlow]
      have h2 := Nat.mod_two_eq_zero_or_one (x / 2^bit)
      have h0 : x / 2^bit % 2 = 0 := by omega
      rw [h0, Nat.mul_zero]

theorem foldl_min_le (l : List Nat) (acc : Nat) :
    l.foldl (fun acc bit => if bit < acc then bit else acc) acc ≤ acc ∧
      ∀ b ∈ l, l.foldl (fun acc bit => if bit < acc then bit else acc) acc ≤ b := by
  induction l generalizing acc with
  | nil => simp
  | cons x l ih =>
    obtain ⟨hacc, hall⟩ := ih (if x < acc then x else acc)
    have hle : (if x < acc then x else acc) ≤ acc ∧ (if x < acc then x else acc) ≤ x := by
      split <;> omega
    rw [List.foldl_cons]
    refine ⟨hacc.trans hle.1, ?_⟩
    intro b hb
    rcases List.mem_cons.mp hb with rfl | hb
    · exact hacc.trans hle.2
    · exact hall b hb

theorem foldl_max_ge (l : List Nat) (acc : Nat) :
    acc ≤ l.foldl (fun acc bit => if bit > acc then bit else acc) acc ∧
      ∀ b ∈ l, b ≤ l.foldl (fun acc bit => if bit > acc then bit else acc) acc := by
  induction l generalizing acc with
  | nil => simp
  | cons x l ih =>
    obtain ⟨hacc, hall⟩ := ih (if x > acc then x else acc)
    have hle : acc ≤ (if x > acc then x else acc) ∧ x ≤ (if x > acc then x else acc) := by
      split <;> omega
    rw [List.foldl_cons]
    refine ⟨hle.1.trans hacc, ?_⟩
    intro b hb
    rcases List.mem_cons.mp hb with rfl | hb
    · exact hle.2.trans hacc
    · exact hall b hb

/-- What the packing loop adds to `acc` does not depend on `acc`; entries are two bits wide. -/
theorem compressFrom_eq (min : Nat) (bits : List Nat) (i acc : Nat) :
    compressFrom min bits i acc = acc ||| compressFrom min bits 0 0 <<< (i*2) := by
  induction bits generalizing i acc with
  | nil => simp [compressFrom]
  | cons bit bits ih =>
    rw [compressFrom, compressFrom, ih, ih (0+1), Nat.shiftLeft_or_distrib,
      ← Nat.shiftLeft_add, Nat.lor_assoc, Nat.zero_or, ← Nat.shiftLeft_add,
      show 0*2 + i*2 = i*2 by omega, show (0+1)*2 + i*2 = (i+1)*2 by omega]

theorem compressFrom_get (min : Nat) (bits : List Nat) (n : Nat) (hn : n < bits.length)
    (hb : ∀ b ∈ bits, b - min ≤ 3) :
    compressFrom min bits 0 0 >>> (n*2) &&& 3 = bits.getD n 0 - min := by
  have hand (x : Nat) : x &&& 3 = x % 4 := Word.and_low_mask x 2
  induction bits generalizing n with
  | nil => simp at hn
  | cons bit bits ih =>
    have hhead := hb bit (by simp)
    have hsplit : compressFrom min (bit::bits) 0 0 =
        compressFrom min bits 0 0 * 4 + (bit-min) := by
      have hlt : bit - min < 2^2 := by omega
      rw [compressFrom, compressFrom_eq, Nat.zero_or, Nat.zero_mul, Nat.shiftLeft_zero,
        Nat.lor_comm, show (0+1)*2 = 2 from rfl, ← Nat.shiftLeft_add_eq_or_of_lt hlt,
        Nat.shiftLeft_eq]
    rw [hsplit, hand, Nat.shiftRight_eq_div_pow]
    cases n with
    | zero =>
      simp only [Nat.zero_mul, pow_zero, Nat.div_one, List.getD_cons_zero]
      omega
    | succ n =>
      have hpow : 2^((n+1)*2) = 4 * 2^(n*2) := by
        rw [Nat.succ_mul, pow_add]; ring
      have hdiv : (compressFrom min bits 0 0 * 4 + (bit-min)) / 4 = compressFrom min bits 0 0 := by
        omega
      rw [hpow, ← Nat.div_div_eq_div_mul, hdiv, List.getD_cons_succ, ← hand,
        ← Nat.shiftRight_eq_div_pow]
      exact ih n (by simpa using hn) fun b hb' => hb b (by simp [hb'])

theorem lsbTab_getD {i : Nat} (hi : i < config.classes.length) :
    (lsbTab config).getD i 0 = lowestBit 64 0 (config.classes.getD i 0) := by
  rw [lsbTab, List.getD_eq_getElem _ _ (by simpa using hi), List.getElem_map,
    List.getD_eq_getElem _ _ hi]

/-- Both formats of the table give the index that the bit loop found. -/
theorem getSizeLSBByClassId_eq (c : Nat) (hc : 1 ≤ c) (hl : c ≤ config.classes.length) :
    getSizeLSBByClassId config c = lowestBit 64 0 (getSizeByClassId config c) := by
  have hi : c - 1 < config.classes.length := by omega
  rw [getSizeLSBByClassId, getSizeByClassId, ← lsbTab_getD hi]
  split
  · next hu =>
    have hrange : lsbMax config - lsbMin config ≤ 3 := by
      simp only [useCompressedFormat, Bool.not_eq_true', Bool.or_eq_false_iff,
        decide_eq_false_iff_not] at hu
      omega
    have hmin := foldl_min_le (lsbTab config) 255
    have hmax := foldl_max_ge (lsbTab config) 0
    have hlen : c - 1 < (lsbTab config).length := by simpa [lsbTab] using hi
    have hmem : (lsbTab config).getD (c-1) 0 ∈ lsbTab config := getD_mem hlen
    have hget := compressFrom_get (lsbMin config) (lsbTab config) (c-1) hlen (by
      intro b hb
      have h1 : lsbMin config ≤ b := hmin.2 b hb
      have h2 : b ≤ lsbMax config := hmax.2 b hb
      omega)
    have hge : lsbMin config ≤ (lsbTab config).getD (c-1) 0 := hmin.2 _ hmem
    rw [compressedValue, hget]
    omega
  · rfl

theorem getSizeLSBByClassId_spec (h : Accepted config) (c : Nat) (hc : 1 ≤ c)
    (hl : c ≤ config.classes.length) :
    2^(getSizeLSBByClassId config c) ∣ getSizeByClassId config c ∧
      getSizeByClassId config c / 2^(getSizeLSBByClassId config c) % 2 = 1 := by
  have hmem : getSizeByClassId config c ∈ config.classes := getD_mem (by omega)
  have hpos := h.classes_pos _ hmem
  have hle := h.classes_le _ hmem
  rw [getSizeLSBByClassId_eq c hc hl]
  exact lowestBit_spec 64 0 _ (Nat.mod_one _) hpos (by omega) (by omega)

private theorem scaledSize_not_pow (z s q r : Nat) (hr : 0 < r) (hlt : r < 2^s) :
    scaledSize z s q r &&& (scaledSize z s q r - 1) ≠ 0 := by
  have hp := Nat.two_pow_pos (z+q-s)
  have hlo : 2^(z+q-s+s) < scaledSize z s q r := by
    rw [pow_add, scaledSize]
    exact Nat.mul_lt_mul_of_pos_left (by omega) hp
  have hhi : scaledSize z s q r < 2^(z+q-s+s+1) := by
    rw [pow_succ, pow_add, scaledSize, Nat.mul_assoc]
    exact Nat.mul_lt_mul_of_pos_left (by omega) hp
  have hne : scaledSize z s q r ≠ 0 := by omega
  rw [Ne, Nat.and_sub_one_eq_zero_iff_isPowerOfTwo hne]
  rintro ⟨k, hk⟩
  rw [hk] at hlo hhi
  have h1 := (Nat.pow_lt_pow_iff_right (by decide)).mp hlo
  have h2 := (Nat.pow_lt_pow_iff_right (by decide)).mp hhi
  omega

/-- The table loop visits the ends of the geometric steps. -/
theorem sizeTablePos_eq (h : Ordered config) (q r : Nat) (hr : r < 2^(s config))
    (hq64 : config.midSizeLog + q < 64) : sizeTablePos config (q * 2^(s config) + r) =
      (scaledSize config.midSizeLog (s config) q r, 2^(config.midSizeLog + q - s config)) := by
  have hs := h.step_le
  have hmid := h.midSizeLog_lt
  have hp := Nat.two_pow_pos (s config)
  have key (i : Nat) (hi : config.midSizeLog + i / 2^(s config) < 64) : sizeTablePos config i =
      (scaledSize config.midSizeLog (s config) (i / 2^(s config)) (i % 2^(s config)),
        2^(config.midSizeLog + i / 2^(s config) - s config)) := by
    induction i with
    | zero =>
      rw [sizeTablePos, Nat.zero_div, Nat.zero_mod, scaledSize_zero _ _ hs, intOneShiftLeft_eq hmid,
        intOneShiftLeft_eq (by omega), Nat.add_zero]
    | succ i ih =>
      have hmod := Nat.mod_lt i hp
      have hle : i / 2^(s config) ≤ (i+1) / 2^(s config) := Nat.div_le_div_right (Nat.le_succ i)
      have hdm := Nat.div_add_mod i (2^(s config))
      have hadd : scaledSize config.midSizeLog (s config) (i / 2^(s config)) (i % 2^(s config)) +
          2^(config.midSizeLog + i / 2^(s config) - s config) =
          scaledSize config.midSizeLog (s config) (i / 2^(s config)) (i % 2^(s config) + 1) := by
        rw [scaledSize, scaledSize]; ring
      rw [sizeTablePos, ih (by omega), sizeTableStep]
      simp only [hadd]
      rcases Nat.lt_or_ge (i % 2^(s config) + 1) (2^(s config)) with hlt | hge
      · have hd : (i+1) / 2^(s config) = i / 2^(s config) := by
          rw [← hdm, Nat.add_assoc, Nat.mul_add_div hp, Nat.div_eq_of_lt hlt, Nat.add_zero,
            Nat.mul_add_div hp, Nat.div_eq_of_lt hmod, Nat.add_zero]
        have hm : (i+1) % 2^(s config) = i % 2^(s config) + 1 := by
          conv_lhs => rw [← hdm, Nat.add_assoc, Nat.mul_add_mod, Nat.mod_eq_of_lt hlt]
        have h64 := (scaledSize_lt_pow (i / 2^(s config)) hs hlt).trans_le
          (Nat.pow_le_pow_right (by decide) (show _ ≤ 64 by omega))
        rw [hd, hm, Nat.mod_eq_of_lt h64, if_neg (scaledSize_not_pow _ _ _ _ (by omega) hlt)]
      · have hfull : i % 2^(s config) + 1 = 2^(s config) := by omega
        have hnext : i + 1 = 2^(s config) * (i / 2^(s config) + 1) := by
          rw [Nat.mul_add, Nat.mul_one]; omega
        have hd : (i+1) / 2^(s config) = i / 2^(s config) + 1 := by
          rw [hnext, Nat.mul_div_cancel_left _ hp]
        have hm : (i+1) % 2^(s config) = 0 := by rw [hnext, Nat.mul_mod_right]
        have hpow : scaledSize config.midSizeLog (s config) (i / 2^(s config) + 1) 0 =
            2^(config.midSizeLog + (i / 2^(s config) + 1)) := by
          rw [scaledSize, Nat.add_zero (2^(s config)), ← pow_add,
            Nat.sub_add_cancel (hs.trans (Nat.le_add_right _ _))]
        have hand : 2^(config.midSizeLog + (i / 2^(s config) + 1)) &&&
            (2^(config.midSizeLog + (i / 2^(s config) + 1)) - 1) = 0 := by
          rw [Word.and_low_mask, Nat.mod_self]
        have hexp : config.midSizeLog + i / 2^(s config) - s config + 1 =
            config.midSizeLog + (i / 2^(s config) + 1) - s config := by
          generalize i / 2^(s config) = d
          omega
        rw [hd] at hi
        have h64 : 2^(config.midSizeLog + (i / 2^(s config) + 1)) < 2^64 :=
          Nat.pow_lt_pow_right (by decide) hi
        have hinc : 2^(config.midSizeLog + (i / 2^(s config) + 1) - s config) < 2^64 :=
          Nat.pow_lt_pow_right (by decide) (by omega)
        rw [hfull, scaledSize_carry _ _ _ hs, hd, hm, hpow, Nat.mod_eq_of_lt h64, if_pos hand,
          ← pow_succ, hexp, Nat.mod_eq_of_lt hinc]
  have hq : (q * 2^(s config) + r) / 2^(s config) = q := by
    rw [Nat.mul_comm, Nat.mul_add_div hp, Nat.div_eq_of_lt hr, Nat.add_zero]
  have hmod : (q * 2^(s config) + r) % 2^(s config) = r := by
    rw [Nat.mul_comm, Nat.mul_add_mod, Nat.mod_eq_of_lt hr]
  rw [key _ (by rw [hq]; exact hq64), hq, hmod]

/-- The search stops at the first class that holds the size. -/
theorem computeClassIdFrom_spec (size : Nat) (cs : List Nat) (i : Nat) (hne : cs ≠ [])
    (hlast : size ≤ cs.getD (cs.length-1) 0) :
    ∃ k, k < cs.length ∧ computeClassIdFrom size cs i = i + k + 1 ∧ size ≤ cs.getD k 0 ∧
      ∀ d, d < k → cs.getD d 0 < size := by
  induction cs generalizing i with
  | nil => exact absurd rfl hne
  | cons c cs ih =>
    rw [computeClassIdFrom]
    split
    · next hle => exact ⟨0, by simp, by omega, by simpa using hle, by simp⟩
    · next hgt =>
      have hcs : cs ≠ [] := by
        rintro rfl
        simp at hlast
        omega
      have hlen : 1 ≤ cs.length := List.length_pos_iff.mpr hcs
      obtain ⟨k, hk, heq, hle, hmin⟩ := ih (i+1) hcs (by
        rw [List.length_cons, show cs.length + 1 - 1 = cs.length - 1 + 1 by omega,
          List.getD_cons_succ] at hlast
        exact hlast)
      refine ⟨k+1, by simpa using hk, by omega, by simpa using hle, ?_⟩
      intro d hd
      cases d with
      | zero => simpa using hgt
      | succ d => simpa using hmin d (by omega)

theorem sizeTablePos_succ (h : Ordered config) (q r : Nat) (hr : r < 2^(s config))
    (hq64 : config.midSizeLog + q + 1 < 64) :
    (sizeTablePos config (q * 2^(s config) + r + 1)).1 =
      scaledSize config.midSizeLog (s config) q (r+1) := by
  have hp := Nat.two_pow_pos (s config)
  rcases Nat.lt_or_eq_of_le (show r + 1 ≤ 2^(s config) from hr) with hlt | heq
  · rw [Nat.add_assoc, sizeTablePos_eq h q (r+1) hlt (by omega)]
  · rw [Nat.add_assoc, heq, scaledSize_carry _ _ _ h.step_le, show q * 2^(s config) + 2^(s config) =
      (q+1) * 2^(s config) + 0 by ring, sizeTablePos_eq h (q+1) 0 hp (by omega)]

/-- Beyond the middle size, the class of a size is found by a search for the end of its
geometric step. -/
theorem getClassIdBySize_high (h : Ordered config) (size : Nat)
    (hmid : config.sizeDelta + 2^config.midSizeLog < size) (hle : size ≤ maxSize config) :
    scaledLog2 (size - config.sizeDelta - 1) config.midSizeLog (s config) < getTableSize config ∧
    ∃ q r, scaledSize config.midSizeLog (s config) q r < size - config.sizeDelta ∧
      size - config.sizeDelta ≤ scaledSize config.midSizeLog (s config) q (r+1) ∧
      scaledSize config.midSizeLog (s config) q (r+1) ≤ 2^config.maxSizeLog ∧
      sizeTable config (scaledLog2 (size - config.sizeDelta - 1) config.midSizeLog (s config)) =
        computeClassId config
          (scaledSize config.midSizeLog (s config) q (r+1) + config.sizeDelta) := by
  have hst := h.step_le
  have hlast := h.last
  have hmid0 := Nat.two_pow_pos config.midSizeLog
  have hmax := Nat.two_pow_pos config.maxSizeLog
  obtain ⟨q, r, hk, hr, hqm, hge, hlt⟩ := scaledLog2_spec (size - config.sizeDelta - 1)
    config.midSizeLog (s config) config.maxSizeLog hst (by have := h.midSizeLog_lt; omega) (by omega)
    (by omega)
  have htop : scaledSize config.midSizeLog (s config) q (r+1) ≤ 2^config.maxSizeLog := by
    have hfull : scaledSize config.midSizeLog (s config) q (r+1) ≤
        2^(config.midSizeLog + q - s config) * (2^(s config) * 2) :=
      Nat.mul_le_mul_left _ (by omega)
    rw [← pow_succ, ← pow_add] at hfull
    exact hfull.trans (Nat.pow_le_pow_right (by decide) (by omega))
  refine ⟨?_, q, r, by omega, by omega, htop, ?_⟩
  · have hq : (q+1) * 2^(s config) ≤ (config.maxSizeLog - config.midSizeLog) * 2^(s config) :=
      Nat.mul_le_mul_right _ (by omega)
    rw [getTableSize, Nat.shiftLeft_eq, hk]
    rw [Nat.add_mul, Nat.one_mul] at hq
    omega
  · have hlog := h.maxSizeLog_lt
    have hlt64 := h.maxSize_lt
    rw [sizeTable, hk, sizeTablePos_succ h q r hr (by omega), Nat.mod_eq_of_lt (by omega)]

/-- All significant bits of `x` are among its `numBits` leading ones. -/
def FewBits (config : TableSizeClassConfig) (x : Nat) : Prop :=
  2^(x.log2 + 1 - config.numBits) ∣ x

/-- A size with few bits is no less than the end of the geometric step that it lies in. -/
theorem FewBits.le {x : Nat} (hx : FewBits config x) (hs : s config ≤ config.midSizeLog)
    {q r : Nat} (hlt : scaledSize config.midSizeLog (s config) q r < x) :
    scaledSize config.midSizeLog (s config) q (r+1) ≤ x := by
  have hlo : 2^(config.midSizeLog + q) ≤ x := by
    have hle : 2^(config.midSizeLog + q - s config) * 2^(s config) ≤
        scaledSize config.midSizeLog (s config) q r :=
      Nat.mul_le_mul_left _ (Nat.le_add_right _ _)
    rw [← pow_add, Nat.sub_add_cancel (hs.trans (Nat.le_add_right _ _))] at hle
    exact hle.trans hlt.le
  have hlog : config.midSizeLog + q ≤ x.log2 := by
    refine (Nat.le_log2 ?_).mpr hlo
    have := Nat.two_pow_pos (config.midSizeLog + q)
    omega
  have hdvd : 2^(config.midSizeLog + q - s config) ∣ x :=
    (pow_dvd_pow 2 (by rw [s]; omega)).trans hx
  obtain ⟨k, rfl⟩ := hdvd
  refine Nat.mul_le_mul_left _ ?_
  have hk := Nat.lt_of_mul_lt_mul_left hlt
  omega

theorem getClassIdBySize_spec (h : Ordered config) (size : Nat) (hle : size ≤ maxSize config) :
    1 ≤ getClassIdBySize config size ∧ getClassIdBySize config size ≤ largestClassId config ∧
      size ≤ getSizeByClassId config (getClassIdBySize config size) := by
  have hlen := h.length_pos
  have hmin := Nat.two_pow_pos config.minSizeLog
  have hlast := h.last
  rw [getClassIdBySize, intOneShiftLeft_eq h.midSizeLog_lt]
  split
  · next h1 => exact ⟨le_refl _, hlen, h1⟩
  · have hfirst := (h.dense 0 (Nat.two_pow_pos _)).2
    simp only []
    split
    · next hmid =>
      have hidx : (size - config.sizeDelta - 1) / 2^config.minSizeLog <
          2^(config.midSizeLog - config.minSizeLog) := by
        rw [Nat.div_lt_iff_lt_mul hmin, ← pow_add, Nat.sub_add_cancel h.min_le_mid]
        omega
      obtain ⟨hk, hcls⟩ := h.dense _ hidx
      have hup := Word.div_mul_le_lt (size - config.sizeDelta - 1) _ hmin
      rw [Nat.shiftRight_eq_div_pow, getSizeByClassId, Nat.add_sub_cancel]
      rw [Nat.add_mul, Nat.one_mul] at hcls
      exact ⟨Nat.le_add_left 1 _, hk, by omega⟩
    · obtain ⟨-, q, r, hlo, hhi, htop, htab⟩ := getClassIdBySize_high h size (by omega) hle
      obtain ⟨k, hk, heq, hfit, -⟩ := computeClassIdFrom_spec
        (scaledSize config.midSizeLog (s config) q (r+1) + config.sizeDelta) config.classes 0
        (List.length_pos_iff.mp hlen) (by rw [← largestClassId, ← maxSize]; omega)
      rw [htab, computeClassId, heq, getSizeByClassId, largestClassId]
      simp only [Nat.zero_add, Nat.add_sub_cancel]
      exact ⟨by omega, by omega, by omega⟩

/-- Every accepted table gives a size class map. -/
def toSizeClassMap (config : TableSizeClassConfig) (h : Accepted config) : SizeClassMap where
  largestClassId := largestClassId config
  maxSize := maxSize config
  getSizeByClassId := getSizeByClassId config
  getClassIdBySize := getClassIdBySize config
  getSizeLSBByClassId := getSizeLSBByClassId config
  largest_pos := h.length_pos
  largest_lt := by have := h.length_lt; rw [largestClassId]; omega
  size_pos c hc hl := h.classes_pos _ (getD_mem (by rw [largestClassId] at hl; omega))
  size_aligned c hc hl := h.classes_aligned _ (getD_mem (by rw [largestClassId] at hl; omega))
  size_succ c hc hl := by
    rw [largestClassId] at hl
    rw [getSizeByClassId, getSizeByClassId, List.getD_eq_getElem _ _ (by omega),
      List.getD_eq_getElem _ _ (by omega)]
    exact List.pairwise_iff_getElem.mp h.sorted _ _ (by omega) (by omega) (by omega)
  size_largest := rfl
  maxSize_le := h.classes_le _ (getD_mem (by
    have := h.length_pos
    rw [largestClassId]; omega))
  class_spec size _ hle := getClassIdBySize_spec h.ordered size hle
  lsb_spec := getSizeLSBByClassId_spec h

end TableSizeClassMap

def androidSizeClassConfig : TableSizeClassConfig :=
  { numBits := 7, minSizeLog := 4, midSizeLog := 6, maxSizeLog := 16, sizeDelta := 16,
    classes := [
      0x00020, 0x00030, 0x00040, 0x00050, 0x00060, 0x00070, 0x00090, 0x000b0,
      0x000c0, 0x000e0, 0x00120, 0x00160, 0x001c0, 0x00250, 0x00320, 0x00450,
      0x00670, 0x00830, 0x00a10, 0x00c30, 0x01010, 0x01210, 0x01bd0, 0x02210,
      0x02d90, 0x03790, 0x04010, 0x04810, 0x05a10, 0x07310, 0x08210, 0x10010] }

theorem androidSizeClassConfig_accepted : TableSizeClassMap.Accepted androidSizeClassConfig := by
  constructor <;> decide

example : TableSizeClassMap.useCompressedFormat androidSizeClassConfig = true := by decide

end ScudoMte
