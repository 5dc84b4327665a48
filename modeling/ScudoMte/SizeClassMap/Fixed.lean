import ScudoMte.SizeClassMap.Basic

namespace ScudoMte

structure FixedSizeClassConfig where
  numBits : Nat
  minSizeLog : Nat
  midSizeLog : Nat
  maxSizeLog : Nat
  sizeDelta : Nat

namespace FixedSizeClassMap

variable (config : FixedSizeClassConfig)

def minSize : Nat := 1 <<< config.minSizeLog
def midSize : Nat := 1 <<< config.midSizeLog
def midClass : Nat := midSize config / minSize config
def s : Nat := config.numBits - 1
def m : Nat := 1 <<< s config - 1
def maxSize : Nat := 1 <<< config.maxSizeLog + config.sizeDelta
def numClasses : Nat :=
  midClass config + (config.maxSizeLog - config.midSizeLog) <<< s config + 1
def largestClassId : Nat := numClasses config - 1

def getSizeByClassId (classId : Nat) : Nat :=
  if classId ≤ midClass config then classId <<< config.minSizeLog + config.sizeDelta
  else
    let c := classId - midClass config
    let t := midSize config <<< (c >>> s config)
    t + (t >>> s config) * (c &&& m config) + config.sizeDelta

def getSizeLSBByClassId (classId : Nat) : Nat :=
  getLeastSignificantSetBitIndex (getSizeByClassId config classId) % 2^8

def getClassIdBySize (size : Nat) : Nat :=
  if size ≤ (config.sizeDelta + intOneShiftLeft config.minSizeLog) % 2^64 then 1
  else
    let sz := size - config.sizeDelta
    if sz ≤ midSize config then (sz + minSize config - 1) >>> config.minSizeLog
    else midClass config + 1 + scaledLog2 (sz - 1) config.midSizeLog (s config)

/-- The logs of a configuration are in order, the geometric steps between two powers of two are
whole numbers, and the shifts of `int` and the sizes do not overflow. -/
structure Ordered : Prop where
  min_le_mid : config.minSizeLog ≤ config.midSizeLog
  mid_le_max : config.midSizeLog ≤ config.maxSizeLog
  step_le : s config ≤ config.midSizeLog
  minSizeLog_lt : config.minSizeLog < 31
  numClasses_le : numClasses config ≤ 256
  maxSize_lt : maxSize config < 2^64

/-- The configurations whose classes the combined allocator accepts: class sizes are
multiples of the minimum alignment and the largest fits the header fields. -/
structure Accepted : Prop where
  min_ge : 4 ≤ config.minSizeLog
  mid_ge : config.minSizeLog ≤ config.midSizeLog
  max_ge : config.midSizeLog ≤ config.maxSizeLog
  step_ge : s config + 4 ≤ config.midSizeLog
  delta_aligned : config.sizeDelta % 16 = 0
  numClasses_le : numClasses config ≤ 256
  maxSize_le : maxSize config ≤ 2^20

variable {config}

theorem Accepted.ordered (h : Accepted config) : Ordered config := by
  have hmin := h.mid_ge
  have hmax := h.max_ge
  have hle := h.maxSize_le
  have hpow : 2^config.maxSizeLog ≤ 2^20 := by
    rw [maxSize, Nat.one_shiftLeft] at hle
    omega
  have hlog := (Nat.pow_le_pow_iff_right (by decide)).mp hpow
  exact ⟨hmin, hmax, (Nat.le_add_right _ 4).trans h.step_ge, by omega, h.numClasses_le, by omega⟩

theorem midClass_eq (h : Ordered config) :
    midClass config = 2^(config.midSizeLog - config.minSizeLog) := by
  have hm := h.min_le_mid
  rw [midClass, midSize, minSize, Nat.one_shiftLeft, Nat.one_shiftLeft,
    Nat.pow_div hm (by decide)]

theorem midClass_mul (h : Ordered config) :
    midClass config * 2^config.minSizeLog = 2^config.midSizeLog := by
  rw [midClass_eq h, ← pow_add, Nat.sub_add_cancel h.min_le_mid]

theorem midClass_pos (h : Ordered config) : 1 ≤ midClass config := by
  rw [midClass_eq h]
  exact Nat.two_pow_pos _

variable (config) in
theorem largestClassId_eq : largestClassId config =
    midClass config + (config.maxSizeLog - config.midSizeLog) * 2^(s config) := by
  rw [largestClassId, numClasses, Nat.shiftLeft_eq, Nat.add_sub_cancel]

/-- Where there are geometric steps, there are few of them between two powers of two. -/
theorem Ordered.s_lt (h : Ordered config) (hlt : config.midSizeLog < config.maxSizeLog) :
    s config < 31 := by
  by_contra hge
  have hnum := h.numClasses_le
  have hpow : 2^31 ≤ 2^(s config) := Nat.pow_le_pow_right (by decide) (by omega)
  have hmul : 1 * 2^(s config) ≤ (config.maxSizeLog - config.midSizeLog) * 2^(s config) :=
    Nat.mul_le_mul_right _ (by omega)
  rw [numClasses, Nat.shiftLeft_eq] at hnum
  omega

theorem getSizeByClassId_low {c : Nat} (hc : c ≤ midClass config) :
    getSizeByClassId config c = c * 2^config.minSizeLog + config.sizeDelta := by
  rw [getSizeByClassId, if_pos hc, Nat.shiftLeft_eq]

private theorem getSizeByClassId_step (h : Ordered config) (q r : Nat) (hr : r < 2^(s config))
    (hpos : 0 < q * 2^(s config) + r) :
    getSizeByClassId config (midClass config + (q * 2^(s config) + r)) =
      scaledSize config.midSizeLog (s config) q r + config.sizeDelta := by
  have hp := Nat.two_pow_pos (s config)
  have hst := h.step_le
  have hq : (q * 2^(s config) + r) / 2^(s config) = q := by
    rw [Nat.mul_comm, Nat.mul_add_div hp, Nat.div_eq_of_lt hr, Nat.add_zero]
  have hmod : (q * 2^(s config) + r) % 2^(s config) = r := by
    rw [Nat.mul_comm, Nat.mul_add_mod, Nat.mod_eq_of_lt hr]
  have hmask : (q * 2^(s config) + r) &&& m config = r := by
    rw [m, Nat.one_shiftLeft, Word.and_low_mask, hmod]
  have ht : midSize config <<< q = 2^(config.midSizeLog + q) := by
    rw [midSize, Nat.one_shiftLeft, Nat.shiftLeft_eq, pow_add]
  have hts : 2^(config.midSizeLog + q) >>> s config = 2^(config.midSizeLog + q - s config) := by
    rw [Nat.shiftRight_eq_div_pow, Nat.pow_div (by omega) (by decide)]
  have hsum : 2^(config.midSizeLog + q) =
      2^(config.midSizeLog + q - s config) * 2^(s config) := by
    rw [← pow_add, Nat.sub_add_cancel (by omega)]
  rw [getSizeByClassId, if_neg (by omega)]
  simp only [Nat.add_sub_cancel_left]
  rw [Nat.shiftRight_eq_div_pow (q * 2^(s config) + r), hq, hmask, ht, hts, scaledSize, Nat.mul_add,
    ← hsum]

/-- Size of the class `q * 2^s + j` steps above the middle class. -/
theorem getSizeByClassId_high (h : Ordered config) (q j : Nat) (hj : j ≤ 2^(s config)) :
    getSizeByClassId config (midClass config + (q * 2^(s config) + j)) =
      scaledSize config.midSizeLog (s config) q j + config.sizeDelta := by
  have hst := h.step_le
  have hp := Nat.two_pow_pos (s config)
  rcases Nat.eq_zero_or_pos (q * 2^(s config) + j) with h0 | hpos
  · have hq : q = 0 := by
      rcases Nat.eq_zero_or_pos q with hq | hq
      · exact hq
      · have := Nat.mul_pos hq hp
        omega
    have hj0 : j = 0 := by omega
    subst hq hj0
    rw [Nat.zero_mul, Nat.add_zero, getSizeByClassId_low (le_refl _), midClass_mul h,
      scaledSize_zero _ _ hst]
  · rcases Nat.lt_or_eq_of_le hj with hlt | heq
    · exact getSizeByClassId_step h q j hlt hpos
    · have hcarry : q * 2^(s config) + j = (q+1) * 2^(s config) + 0 := by
        rw [heq, Nat.add_mul, Nat.one_mul, Nat.add_zero]
      rw [hcarry, heq, scaledSize_carry _ _ _ hst]
      exact getSizeByClassId_step h (q+1) 0 hp (by rw [Nat.add_mul]; omega)

theorem getSizeByClassId_largest (h : Ordered config) :
    getSizeByClassId config (largestClassId config) = maxSize config := by
  have hst := h.step_le
  have hmx := h.mid_le_max
  have hx := getSizeByClassId_high h (config.maxSizeLog - config.midSizeLog) 0 (Nat.zero_le _)
  rw [Nat.add_zero] at hx
  rw [largestClassId_eq config, maxSize, Nat.one_shiftLeft, hx, scaledSize, Nat.add_zero,
    ← pow_add]
  congr 2
  omega

variable (config) in
private theorem high_split (c : Nat) (hc : midClass config ≤ c) :
    ∃ q r, r < 2^(s config) ∧ c = midClass config + (q * 2^(s config) + r) := by
  have hp := Nat.two_pow_pos (s config)
  refine ⟨(c - midClass config) / 2^(s config), (c - midClass config) % 2^(s config),
    Nat.mod_lt _ hp, ?_⟩
  rw [Nat.div_add_mod']
  omega

theorem getSizeByClassId_aligned (h : Accepted config) (c : Nat) :
    getSizeByClassId config c % 16 = 0 := by
  have hd := h.delta_aligned
  have hmin := h.min_ge
  have hst := h.step_ge
  have key (k x : Nat) (hk : 4 ≤ k) : (2^k * x + config.sizeDelta) % 16 = 0 := by
    have he : 2^k = 16 * 2^(k-4) := by
      rw [show (16 : Nat) = 2^4 from rfl, ← pow_add, Nat.add_sub_cancel' hk]
    rw [he, Nat.mul_assoc, Nat.mul_add_mod]
    exact hd
  rcases Nat.lt_or_ge (midClass config) c with hc | hc
  · obtain ⟨q, r, hr, rfl⟩ := high_split config c (by omega)
    rw [getSizeByClassId_high h.ordered q r (by omega)]
    exact key _ _ (by omega)
  · rw [getSizeByClassId_low hc, Nat.mul_comm]
    exact key _ _ hmin

/-- Class sizes are strictly increasing. -/
theorem getSizeByClassId_succ (h : Ordered config) (c : Nat) :
    getSizeByClassId config c < getSizeByClassId config (c+1) := by
  rcases Nat.lt_or_ge c (midClass config) with hc | hc
  · have hmin := Nat.two_pow_pos config.minSizeLog
    rw [getSizeByClassId_low (by omega), getSizeByClassId_low (by omega), Nat.add_mul]
    omega
  · obtain ⟨q, r, hr, rfl⟩ := high_split config c hc
    have hlt := scaledSize_lt_succ config.midSizeLog (s config) q r
    rw [Nat.add_assoc, Nat.add_assoc, getSizeByClassId_high h q (r+1) (by omega),
      getSizeByClassId_high h q r (by omega)]
    omega

theorem getSizeByClassId_strictMono (h : Ordered config) : StrictMono (getSizeByClassId config) :=
  strictMono_nat_of_lt_succ (getSizeByClassId_succ h)

/-- The class of a size is the smallest one that holds it. -/
theorem getClassIdBySize_spec (h : Ordered config) (size : Nat) (hle : size ≤ maxSize config) :
    1 ≤ getClassIdBySize config size ∧ getClassIdBySize config size ≤ largestClassId config ∧
      size ≤ getSizeByClassId config (getClassIdBySize config size) ∧
      (1 < getClassIdBySize config size →
        getSizeByClassId config (getClassIdBySize config size - 1) < size) := by
  have hmid := midClass_pos h
  have hst := h.step_le
  have hmul := midClass_mul h
  have hmin := Nat.two_pow_pos config.minSizeLog
  have hlarge := largestClassId_eq config
  have hlt64 := h.maxSize_lt
  have hmm : 2^config.minSizeLog ≤ 2^config.maxSizeLog :=
    Nat.pow_le_pow_right (by decide) (h.min_le_mid.trans h.mid_le_max)
  rw [maxSize, Nat.one_shiftLeft] at hle hlt64
  rw [getClassIdBySize, intOneShiftLeft_eq h.minSizeLog_lt, Nat.mod_eq_of_lt (by omega)]
  split
  · refine ⟨le_refl _, by omega, ?_, fun hlt => absurd hlt (by decide)⟩
    rw [getSizeByClassId_low hmid]
    omega
  · simp only []
    rw [midSize, minSize, Nat.one_shiftLeft, Nat.one_shiftLeft, Nat.shiftRight_eq_div_pow]
    split
    · -- the multiples of the minimum size: the size is rounded up to one
      have hround := Word.div_mul_le_lt (size - config.sizeDelta + 2^config.minSizeLog - 1)
        (2^config.minSizeLog) hmin
      have hlow : (size - config.sizeDelta + 2^config.minSizeLog - 1) / 2^config.minSizeLog ≤
          midClass config := by
        rw [← Nat.lt_succ_iff, Nat.div_lt_iff_lt_mul hmin, Nat.succ_mul, hmul]
        omega
      refine ⟨?_, by omega, ?_, ?_⟩
      · rw [Nat.le_div_iff_mul_le hmin]
        omega
      · rw [getSizeByClassId_low hlow]
        omega
      · intro hone
        rw [getSizeByClassId_low (by omega), Nat.sub_mul]
        omega
    · -- the geometric steps
      have hmidmax : config.midSizeLog < config.maxSizeLog := by
        by_contra hge
        have hpow : 2^config.maxSizeLog ≤ 2^config.midSizeLog :=
          Nat.pow_le_pow_right (by decide) (Nat.not_lt.mp hge)
        omega
      obtain ⟨q, r, hk, hr, hqm, hge, hlt⟩ := scaledLog2_spec (size - config.sizeDelta - 1)
        config.midSizeLog (s config) config.maxSizeLog hst (h.s_lt hmidmax) (by omega) (by omega)
      have hidx : midClass config + 1 +
          scaledLog2 (size - config.sizeDelta - 1) config.midSizeLog (s config) =
          midClass config + (q * 2^(s config) + (r+1)) := by omega
      have hprev : midClass config + (q * 2^(s config) + (r+1)) - 1 =
          midClass config + (q * 2^(s config) + r) := by omega
      have hbound : q * 2^(s config) + (r+1) ≤
          (config.maxSizeLog - config.midSizeLog) * 2^(s config) := by
        have hq1 : (q+1) * 2^(s config) ≤
            (config.maxSizeLog - config.midSizeLog) * 2^(s config) :=
          Nat.mul_le_mul_right _ (by omega)
        rw [Nat.add_mul] at hq1
        omega
      rw [hidx, hprev, getSizeByClassId_high h q (r+1) hr, getSizeByClassId_high h q r (by omega)]
      exact ⟨by omega, by omega, by omega, fun _ => by omega⟩

theorem getSizeByClassId_pos (h : Ordered config) (c : Nat) (hc : 1 ≤ c) :
    0 < getSizeByClassId config c :=
  (Nat.zero_le _).trans_lt (getSizeByClassId_strictMono h (show 0 < c from hc))

theorem getSizeByClassId_le (h : Accepted config) (c : Nat) (hc : c ≤ largestClassId config) :
    getSizeByClassId config c ≤ 2^20 := by
  have hmono : getSizeByClassId config c ≤ getSizeByClassId config (largestClassId config) :=
    (getSizeByClassId_strictMono h.ordered).monotone hc
  rw [getSizeByClassId_largest h.ordered] at hmono
  exact hmono.trans h.maxSize_le

theorem getSizeLSBByClassId_spec (h : Accepted config) (c : Nat) (hc : 1 ≤ c)
    (hl : c ≤ largestClassId config) :
    2^(getSizeLSBByClassId config c) ∣ getSizeByClassId config c ∧
      getSizeByClassId config c / 2^(getSizeLSBByClassId config c) % 2 = 1 := by
  have hpos := getSizeByClassId_pos h.ordered c hc
  have hle := getSizeByClassId_le h c hl
  have hspec := getLeastSignificantSetBitIndex_spec _ hpos (by omega)
  have hlsb : getLeastSignificantSetBitIndex (getSizeByClassId config c) < 2^8 := by
    by_contra hbig
    have hdvd := Nat.le_of_dvd hpos hspec.1
    have hpow : 2^(2^8) ≤ 2^(getLeastSignificantSetBitIndex (getSizeByClassId config c)) :=
      Nat.pow_le_pow_right (by decide) (by omega)
    have hnum : 2^20 < 2^(2^8) := by decide
    omega
  rw [getSizeLSBByClassId, Nat.mod_eq_of_lt hlsb]
  exact hspec

/-- Every accepted configuration gives a size class map. -/
def toSizeClassMap (config : FixedSizeClassConfig) (h : Accepted config) : SizeClassMap where
  largestClassId := largestClassId config
  maxSize := maxSize config
  getSizeByClassId := getSizeByClassId config
  getClassIdBySize := getClassIdBySize config
  getSizeLSBByClassId := getSizeLSBByClassId config
  largest_pos := by
    rw [largestClassId_eq config]
    have := midClass_pos h.ordered
    omega
  largest_lt := by
    have := h.numClasses_le
    rw [largestClassId]
    omega
  size_pos c hc _ := getSizeByClassId_pos h.ordered c hc
  size_aligned c _ _ := getSizeByClassId_aligned h c
  size_succ c _ _ := (getSizeByClassId_succ h.ordered c).le
  size_largest := getSizeByClassId_largest h.ordered
  maxSize_le := h.maxSize_le
  class_spec size _ hle := by
    obtain ⟨h1, h2, h3, -⟩ := getClassIdBySize_spec h.ordered size hle
    exact ⟨h1, h2, h3⟩
  lsb_spec := getSizeLSBByClassId_spec h

end FixedSizeClassMap

def defaultSizeClassConfig : FixedSizeClassConfig :=
  { numBits := 3, minSizeLog := 5, midSizeLog := 8, maxSizeLog := 17, sizeDelta := 0 }

theorem defaultSizeClassConfig_accepted : FixedSizeClassMap.Accepted defaultSizeClassConfig := by
  constructor <;> decide

def defaultSizeClassMap : SizeClassMap :=
  FixedSizeClassMap.toSizeClassMap defaultSizeClassConfig defaultSizeClassConfig_accepted

end ScudoMte
