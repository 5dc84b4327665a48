import ScudoMte.SizeClassMap.Fixed
import ScudoMte.SizeClassMap.Table

namespace ScudoMte

namespace FixedSizeClassMap

/-- The configurations of the table free map: ordered logs, whole geometric steps, class ids that fit a
byte, and a largest size that is a `uptr`. -/
structure Valid (config : FixedSizeClassConfig) : Prop where
  min_le_mid : config.minSizeLog ≤ config.midSizeLog
  mid_le_max : config.midSizeLog ≤ config.maxSizeLog
  numBits_pos : 1 ≤ config.numBits
  numBits_le : config.numBits - 1 ≤ config.midSizeLog
  numClasses_le : numClasses config ≤ 256
  maxSize_lt : maxSize config < 2^64

theorem Valid.ordered {config : FixedSizeClassConfig} (h : Valid config)
    (hint : config.minSizeLog ≤ 30) : Ordered config :=
  ⟨h.min_le_mid, h.mid_le_max, h.numBits_le, Nat.lt_succ_of_le hint, h.numClasses_le, h.maxSize_lt⟩

/-- Class sizes increase, and a size is sent to the one class that holds it and whose
predecessor does not. -/
structure Exact (config : FixedSizeClassConfig) : Prop where
  increasing : ∀ c d, 1 ≤ c → c < d → d ≤ largestClassId config →
    getSizeByClassId config c < getSizeByClassId config d
  inRange : ∀ size, 1 ≤ size → size ≤ maxSize config →
    1 ≤ getClassIdBySize config size ∧ getClassIdBySize config size ≤ largestClassId config
  holds : ∀ size, 1 ≤ size → size ≤ maxSize config →
    size ≤ getSizeByClassId config (getClassIdBySize config size)
  smallest : ∀ size, 1 ≤ size → size ≤ maxSize config → 1 < getClassIdBySize config size →
    getSizeByClassId config (getClassIdBySize config size - 1) < size

theorem Ordered.exact {config : FixedSizeClassConfig} (h : Ordered config) : Exact config where
  increasing c d _ hlt _ := getSizeByClassId_strictMono h hlt
  inRange size _ hle := by
    obtain ⟨hlo, hhi, -⟩ := getClassIdBySize_spec h size hle
    exact ⟨hlo, hhi⟩
  holds size _ hle := (getClassIdBySize_spec h size hle).2.2.1
  smallest size _ hle := (getClassIdBySize_spec h size hle).2.2.2

end FixedSizeClassMap

namespace TableSizeClassMap

/-- The configurations of the table map: at most 254 sorted classes of `uptr` sizes that start with all
the multiples of the minimum size up to the middle size and end with the largest size. -/
structure Valid (config : TableSizeClassConfig) : Prop where
  min_le_mid : config.minSizeLog ≤ config.midSizeLog
  numBits_pos : 1 ≤ config.numBits
  numBits_le : config.numBits - 1 ≤ config.midSizeLog
  length_le : config.classes.length ≤ 254
  classes_lt : ∀ c ∈ config.classes, c < 2^64
  sorted : config.classes.Pairwise (· ≤ ·)
  dense : ∀ i, i < 2^(config.midSizeLog - config.minSizeLog) →
    config.classes[i]? = some ((i+1) * 2^config.minSizeLog + config.sizeDelta)
  last : config.classes.getLast? = some (2^config.maxSizeLog + config.sizeDelta)

/-- A size is sent to a class that holds it, and to the first such class where the classes
above the middle size have few significant bits; every lookup is inside the size table. -/
structure Exact (config : TableSizeClassConfig) : Prop where
  inTable : ∀ size, config.sizeDelta + 2^config.midSizeLog < size → size ≤ maxSize config →
    scaledLog2 (size - config.sizeDelta - 1) config.midSizeLog (s config) < getTableSize config
  inRange : ∀ size, 1 ≤ size → size ≤ maxSize config →
    1 ≤ getClassIdBySize config size ∧ getClassIdBySize config size ≤ largestClassId config
  holds : ∀ size, 1 ≤ size → size ≤ maxSize config →
    size ≤ getSizeByClassId config (getClassIdBySize config size)
  smallest :
    (∀ x ∈ config.classes, 2^config.midSizeLog < x - config.sizeDelta →
      FewBits config (x - config.sizeDelta)) →
    ∀ size, 1 ≤ size → size ≤ maxSize config →
    ∀ d, 1 ≤ d → d ≤ largestClassId config → size ≤ getSizeByClassId config d →
      getClassIdBySize config size ≤ d ∧
        getSizeByClassId config (getClassIdBySize config size) ≤ getSizeByClassId config d

variable {config : TableSizeClassConfig}

theorem Valid.getD_dense (h : Valid config) {i : Nat}
    (hi : i < 2^(config.midSizeLog - config.minSizeLog)) :
    i < config.classes.length ∧
      config.classes.getD i 0 = (i+1) * 2^config.minSizeLog + config.sizeDelta := by
  obtain ⟨hlen, heq⟩ := List.getElem?_eq_some_iff.mp (h.dense i hi)
  exact ⟨hlen, by rw [List.getD_eq_getElem _ _ hlen, heq]⟩

theorem Valid.ordered (h : Valid config) (hint : config.midSizeLog ≤ 30) : Ordered config where
  length_pos := (Nat.zero_le _).trans_lt (h.getD_dense (Nat.two_pow_pos _)).1
  min_le_mid := h.min_le_mid
  step_le := h.numBits_le
  midSizeLog_lt := Nat.lt_succ_of_le hint
  maxSize_lt := by
    have hlen := (Nat.zero_le _).trans_lt (h.getD_dense (Nat.two_pow_pos _)).1
    exact h.classes_lt _ (getD_mem (by rw [largestClassId]; omega))
  dense i hi := ⟨(h.getD_dense hi).1, (h.getD_dense hi).2.ge⟩
  last := by
    have hlast := h.last
    rw [List.getLast?_eq_getElem?] at hlast
    rw [maxSize, largestClassId, List.getD_eq_getElem?_getD, hlast, Option.getD_some]

theorem Valid.getSizeByClassId_mono (h : Valid config) {c d : Nat} (hc : 1 ≤ c) (hcd : c ≤ d)
    (hd : d ≤ largestClassId config) : getSizeByClassId config c ≤ getSizeByClassId config d := by
  rw [largestClassId] at hd
  rcases Nat.eq_or_lt_of_le hcd with rfl | hlt
  · exact le_refl _
  · rw [getSizeByClassId, getSizeByClassId, List.getD_eq_getElem _ _ (by omega),
      List.getD_eq_getElem _ _ (by omega)]
    exact List.pairwise_iff_getElem.mp h.sorted _ _ (by omega) (by omega) (by omega)

/-- No class before the one found holds the size. -/
theorem Valid.getClassIdBySize_le (h : Valid config) (hint : config.midSizeLog ≤ 30)
    (hbits : ∀ x ∈ config.classes, 2^config.midSizeLog < x - config.sizeDelta →
      FewBits config (x - config.sizeDelta))
    (size : Nat) (hle : size ≤ maxSize config) (d : Nat) (hd : 1 ≤ d)
    (hdl : d ≤ largestClassId config) (hfit : size ≤ getSizeByClassId config d) :
    getClassIdBySize config size ≤ d := by
  have hord := h.ordered hint
  have hmin := Nat.two_pow_pos config.minSizeLog
  have hpow := Nat.two_pow_pos config.midSizeLog
  rw [largestClassId] at hdl
  rw [getSizeByClassId] at hfit
  rw [getClassIdBySize, intOneShiftLeft_eq hord.midSizeLog_lt]
  split
  · exact hd
  · simp only []
    split
    · next hmid =>
      rw [Nat.shiftRight_eq_div_pow]
      by_contra hlt
      -- the classes before the rounded size are the multiples under it
      have hidx : (size - config.sizeDelta - 1) / 2^config.minSizeLog <
          2^(config.midSizeLog - config.minSizeLog) := by
        rw [Nat.div_lt_iff_lt_mul hmin, ← pow_add, Nat.sub_add_cancel h.min_le_mid]
        omega
      have hcls := (h.getD_dense (show d - 1 < _ by omega)).2
      have hmul : d * 2^config.minSizeLog ≤ size - config.sizeDelta - 1 := by
        rw [← Nat.le_div_iff_mul_le hmin]
        omega
      rw [Nat.sub_add_cancel hd] at hcls
      have hdpos := Nat.mul_pos hd hmin
      omega
    · next hmid =>
      obtain ⟨-, q, r, hlo, hhi, htop, htab⟩ := getClassIdBySize_high hord size (by omega) hle
      have hlast := hord.last
      obtain ⟨k, hk, heq, -, hfirst⟩ := computeClassIdFrom_spec
        (scaledSize config.midSizeLog (s config) q (r+1) + config.sizeDelta) config.classes 0
        (List.length_pos_iff.mp hord.length_pos) (by rw [← largestClassId, ← maxSize]; omega)
      rw [htab, computeClassId, heq]
      by_contra hlt
      have hbefore := hfirst (d-1) (by omega)
      have hfew := hbits _ (getD_mem (d := 0) (show d - 1 < config.classes.length by omega))
        (by omega)
      have hstep := hfew.le hord.step_le (q := q) (r := r) (by omega)
      omega

theorem Valid.exact (h : Valid config) (hint : config.midSizeLog ≤ 30) : Exact config where
  inTable size hmid hle := (getClassIdBySize_high (h.ordered hint) size hmid hle).1
  inRange size _ hle := by
    obtain ⟨hlo, hhi, -⟩ := getClassIdBySize_spec (h.ordered hint) size hle
    exact ⟨hlo, hhi⟩
  holds size _ hle := (getClassIdBySize_spec (h.ordered hint) size hle).2.2
  smallest hbits size _ hle d hd hdl hfit := by
    have hfirst := h.getClassIdBySize_le hint hbits size hle d hd hdl hfit
    have hlo := (getClassIdBySize_spec (h.ordered hint) size hle).1
    exact ⟨hfirst, h.getSizeByClassId_mono hlo hfirst hdl⟩

end TableSizeClassMap

/-- Both kinds of size class map are exact for every valid configuration in which no shift of an `int`
reaches the sign bit. -/
theorem sizeClassMaps_exact :
    (∀ config, FixedSizeClassMap.Valid config → config.minSizeLog ≤ 30 →
        FixedSizeClassMap.Exact config) ∧
      ∀ config, TableSizeClassMap.Valid config → config.midSizeLog ≤ 30 →
        TableSizeClassMap.Exact config :=
  ⟨fun _ h hint => (h.ordered hint).exact, fun _ h hint => h.exact hint⟩

theorem sizeClassMaps_exact_default :
    FixedSizeClassMap.Exact defaultSizeClassConfig ∧
      TableSizeClassMap.Exact androidSizeClassConfig :=
  ⟨sizeClassMaps_exact.1 _ (by constructor <;> decide) (by decide),
    sizeClassMaps_exact.2 _ (by constructor <;> decide) (by decide)⟩

/-- A fixed map whose smallest size is 2^31, and a table map whose middle size is. -/
def signBitFixed : FixedSizeClassConfig := ⟨1, 31, 31, 33, 0⟩

def signBitTable : TableSizeClassConfig := ⟨1, 31, 31, 33, 0, [2^31, 2^32, 2^33]⟩

/-- A size of 2^32 is sent to the class of 2^31, as `1 << 31` is compared as 2^64 - 2^31; one of 2^33 is
sent past the last class. -/
theorem sizeClassMaps_signBit :
    (FixedSizeClassMap.Valid signBitFixed ∧ ¬ FixedSizeClassMap.Exact signBitFixed) ∧
      TableSizeClassMap.Valid signBitTable ∧ ¬ TableSizeClassMap.Exact signBitTable := by
  refine ⟨⟨by constructor <;> decide, fun h => ?_⟩, by constructor <;> decide, fun h => ?_⟩
  · exact absurd (h.holds (2^32) (by decide) (by decide)) (by decide)
  · exact absurd (h.inRange (2^33) (by decide) (by decide)) (by decide)

end ScudoMte
