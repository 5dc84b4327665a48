import Mathlib.Data.List.Nodup
import ScudoMte.Library.Shares
import ScudoMte.Primary.Regions32

namespace ScudoMte.Primary32

open Ownership TransitionSystem Shares

variable {l : Layout} {mapBase region : Nat} {stash : List Nat}

namespace Layout

theorem regionSize_eq (l : Layout) : l.regionSize = 2^l.regionSizeLog := Nat.one_shiftLeft _

theorem regionSize_pos (l : Layout) : 0 < l.regionSize := by
  rw [regionSize_eq]
  exact Nat.two_pow_pos _

theorem page_dvd_regionSize (l : Layout) : 2^l.pageSizeLog ∣ l.regionSize := by
  rw [regionSize_eq]
  exact Nat.pow_dvd_pow 2 l.pageSizeLog_le

end Layout

/-- What `mmap` may answer: pages of the range that it maps in. -/
structure MapResult (l : Layout) (mapBase : Nat) : Prop where
  page : 2^l.pageSizeLog ∣ mapBase
  pos : 0 < mapBase
  range : mapBase + 2 * l.regionSize ≤ 2^l.mmapRangeSizeLog

/-- A region as the allocator uses it. -/
structure IsRegion (l : Layout) (region : Nat) : Prop where
  aligned : l.regionSize ∣ region
  pos : 0 < region
  range : region + l.regionSize ≤ 2^l.mmapRangeSizeLog

/-- The index of a region is in the byte map. -/
theorem IsRegion.index_lt (h : IsRegion l region) : region >>> l.regionSizeLog < l.numRegions := by
  have hrange := h.range
  have hpos := l.regionSize_pos
  rw [l.regionSize_eq] at hrange hpos
  rw [Layout.numRegions, Nat.one_shiftLeft, Nat.shiftRight_eq_div_pow, Nat.shiftRight_eq_div_pow,
    Nat.lt_iff_add_one_le, ← Nat.add_div_right _ hpos]
  exact Nat.div_le_div_right hrange

theorem IsRegion.eq_of_index {r x : Nat} (h : IsRegion l r) (h' : IsRegion l x)
    (heq : x >>> l.regionSizeLog = r >>> l.regionSizeLog) : x = r := by
  rw [Nat.shiftRight_eq_div_pow, Nat.shiftRight_eq_div_pow, ← l.regionSize_eq] at heq
  rw [← Nat.div_mul_cancel h.aligned, ← Nat.div_mul_cancel h'.aligned, heq]

theorem IsRegion.disjoint {r x : Nat} (h : IsRegion l r) (h' : IsRegion l x) (hne : r ≠ x) :
    (regionRange l r).Disjoint (regionRange l x) := by
  rcases Nat.lt_or_gt_of_ne hne with hlt | hlt
  · exact .inl (Word.add_le_of_dvd_of_lt h.aligned h'.aligned hlt)
  · exact .inr (Word.add_le_of_dvd_of_lt h'.aligned h.aligned hlt)

theorem isAligned_iff (l : Layout) (x : Nat) :
    isAligned x l.regionSize = true ↔ l.regionSize ∣ x := by
  rw [isAligned, l.regionSize_eq, Word.and_low_mask, beq_iff_eq, Nat.dvd_iff_mod_eq_zero]

/-- New memory is either kept whole, for a region and a stashed one, or for one region with
something left behind it. -/
theorem place_cases (h : MapResult l mapBase) (stash : List Nat) :
    (place l mapBase stash =
        (mapBase, 2 * l.regionSize, stash ++ [mapBase + l.regionSize], none) ∧
      l.regionSize ∣ mapBase ∧ stash.length < maxStashedRegions) ∨
    ∃ region front, place l mapBase stash = (region, l.regionSize, stash, front) ∧
      l.regionSize ∣ region ∧ region < mapBase + l.regionSize ∧
      ((front = none ∧ region = mapBase) ∨
        (front = some ⟨mapBase, region⟩ ∧ mapBase < region)) := by
  have hpos := l.regionSize_pos
  by_cases ha : isAligned mapBase l.regionSize = true
  · have hdvd := (isAligned_iff l mapBase).mp ha
    by_cases hs : stash.length < maxStashedRegions
    · exact .inl ⟨by rw [place, if_pos ha, if_pos hs], hdvd, hs⟩
    · exact .inr ⟨mapBase, none, by rw [place, if_pos ha, if_neg hs], hdvd, by omega,
        .inl ⟨rfl, rfl⟩⟩
  · have hrange := h.range
    have hR : 2^l.mmapRangeSizeLog ≤ 2^64 :=
      Nat.pow_le_pow_right (by decide) l.mmapRangeSizeLog_lt.le
    have hk : l.regionSizeLog ≤ 64 := by
      have h1 := l.regionSizeLog_le
      have h2 := l.mmapRangeSizeLog_lt
      omega
    obtain ⟨hle, hlt, hdvd⟩ := roundUp_spec mapBase l.regionSizeLog hk (by
      rw [← l.regionSize_eq]
      omega)
    rw [← l.regionSize_eq] at hle hlt hdvd
    refine .inr ⟨roundUp mapBase l.regionSize, _, by rw [place, if_neg ha], hdvd, hlt,
      .inr ⟨rfl, lt_of_le_of_ne hle fun heq => ?_⟩⟩
    exact ha ((isAligned_iff l mapBase).mpr (heq ▸ hdvd))

/-- `allocateRegionSlow` with memory at `mapBase`: the region and the one that may be stashed are
regions inside of the memory, and exactly the rest of it is unmapped. -/
structure Exact (l : Layout) (mapBase : Nat) (stash : List Nat) : Prop where
  returned : IsRegion l (allocateRegionSlow l mapBase stash).1 ∧
    (regionRange l (allocateRegionSlow l mapBase stash).1).Within
      ⟨mapBase, mapBase + 2 * l.regionSize⟩
  stashed : (allocateRegionSlow l mapBase stash).2.1 = stash ∨
    ∃ x, (allocateRegionSlow l mapBase stash).2.1 = stash ++ [x] ∧
      stash.length < maxStashedRegions ∧ IsRegion l x ∧
      (regionRange l x).Within ⟨mapBase, mapBase + 2 * l.regionSize⟩ ∧
      (regionRange l (allocateRegionSlow l mapBase stash).1).Disjoint (regionRange l x)
  unmapped : ∀ b, (∃ r ∈ (allocateRegionSlow l mapBase stash).2.2, b ∈ bytes r) ↔
    b ∈ bytes ⟨mapBase, mapBase + 2 * l.regionSize⟩ ∧
    b ∉ bytes (regionRange l (allocateRegionSlow l mapBase stash).1) ∧
    ∀ x, (allocateRegionSlow l mapBase stash).2.1 = stash ++ [x] → b ∉ bytes (regionRange l x)
  pages : ∀ r ∈ (allocateRegionSlow l mapBase stash).2.2, 2^l.pageSizeLog ∣ r.lo ∧ r.lo < r.hi

/-- The memory holds a region and one for the stash. -/
theorem exact_both (h : MapResult l mapBase) (hdvd : l.regionSize ∣ mapBase)
    (hlen : stash.length < maxStashedRegions)
    (hslow : allocateRegionSlow l mapBase stash =
      (mapBase, stash ++ [mapBase + l.regionSize], [])) :
    Exact l mapBase stash := by
  have hrange := h.range
  have h0 := h.pos
  have hdvd' : l.regionSize ∣ mapBase + l.regionSize := Nat.dvd_add hdvd (Nat.dvd_refl _)
  refine ⟨?_, ?_, ?_, ?_⟩
  · rw [hslow]
    exact ⟨⟨hdvd, h0, by omega⟩, ⟨le_refl _, by simp only [regionRange]; omega⟩⟩
  · rw [hslow]
    refine .inr ⟨_, rfl, hlen, ⟨hdvd', by omega, by omega⟩, ⟨?_, ?_⟩, .inl (le_refl _)⟩
    · simp only [regionRange]
      omega
    · simp only [regionRange]
      omega
  · rw [hslow]
    intro b
    constructor
    · intro ⟨r, hr, _⟩
      exact absurd hr List.not_mem_nil
    · intro ⟨⟨h1, h2⟩, h3, h4⟩
      have h5 := h4 _ rfl
      simp only [bytes, regionRange, Set.mem_ofPred_eq] at h1 h2 h3 h5
      omega
  · rw [hslow]
    exact fun r hr => absurd hr List.not_mem_nil

/-- The memory holds one region, with something behind it. -/
theorem exact_one {front : Option Range} (h : MapResult l mapBase) (hdvd : l.regionSize ∣ region)
    (hle : mapBase ≤ region) (hlt : region < mapBase + l.regionSize)
    (hfront : ∀ r, r ∈ front.toList ↔ r = ⟨mapBase, region⟩ ∧ mapBase < region)
    (hslow : allocateRegionSlow l mapBase stash = (region, stash,
      front.toList ++ [⟨region + l.regionSize, mapBase + 2 * l.regionSize⟩])) :
    Exact l mapBase stash := by
  have hrange := h.range
  have h0 := h.pos
  have hpage := dvd_trans l.page_dvd_regionSize hdvd
  refine ⟨?_, ?_, ?_, ?_⟩
  · rw [hslow]
    exact ⟨⟨hdvd, by omega, by omega⟩, ⟨hle, by simp only [regionRange]; omega⟩⟩
  · rw [hslow]
    exact .inl rfl
  · rw [hslow]
    intro b
    simp only [List.mem_append, hfront, List.mem_singleton]
    constructor
    · intro ⟨r, hr, h1, h2⟩
      have hkeep : ∀ x, stash = stash ++ [x] → b ∉ bytes (regionRange l x) := fun x hx =>
        absurd (congrArg List.length hx) (by simp)
      rcases hr with ⟨hr, hlo⟩ | hr
      · rw [hr] at h1 h2
        simp only at h1 h2
        refine ⟨⟨h1, ?_⟩, fun h3 => ?_, hkeep⟩
        · simp only
          omega
        · exact absurd h3.1 (not_le.mpr h2)
      · rw [hr] at h1 h2
        simp only at h1 h2
        refine ⟨⟨?_, h2⟩, fun h3 => ?_, hkeep⟩
        · simp only
          omega
        · exact absurd h3.2 (not_lt.mpr h1)
    · intro ⟨⟨h1, h2⟩, h3, _⟩
      simp only [bytes, regionRange, Set.mem_ofPred_eq] at h1 h2 h3
      by_cases hb : b < region
      · exact ⟨⟨mapBase, region⟩, .inl ⟨rfl, by omega⟩, h1, hb⟩
      · exact ⟨_, .inr rfl, by simp only; omega, h2⟩
  · rw [hslow]
    intro r hr
    simp only [List.mem_append, hfront, List.mem_singleton] at hr
    rcases hr with ⟨rfl, hlo⟩ | rfl
    · exact ⟨h.page, hlo⟩
    · exact ⟨Nat.dvd_add hpage l.page_dvd_regionSize, by simp only; omega⟩

theorem allocateRegionSlow_exact (h : MapResult l mapBase) (stash : List Nat) :
    Exact l mapBase stash := by
  have hpos := l.regionSize_pos
  rcases place_cases h stash with ⟨hplace, hdvd, hlen⟩ | ⟨region, front, hplace, hdvd, hlt, hfront⟩
  · refine exact_both h hdvd hlen ?_
    simp [allocateRegionSlow, hplace, trim]
  · have hback : trim region l.regionSize (mapBase + 2 * l.regionSize) =
        some ⟨region + l.regionSize, mapBase + 2 * l.regionSize⟩ := if_pos (by omega)
    have hslow : allocateRegionSlow l mapBase stash = (region, stash,
        front.toList ++ [⟨region + l.regionSize, mapBase + 2 * l.regionSize⟩]) := by
      simp [allocateRegionSlow, hplace, hback]
    rcases hfront with ⟨rfl, rfl⟩ | ⟨rfl, hne⟩
    · exact exact_one h hdvd (le_refl _) hlt (by simp) hslow
    · exact exact_one h hdvd hne.le hlt (by simp [hne]) hslow

inductive Owner (Thread : Type*)
  | region (r : Nat)
  | thread (t : Thread)
  deriving DecidableEq

/-- The memory that a thread works on. -/
def zone (l : Layout) : Pc → Range
  | .placing _ mapBase => ⟨mapBase, mapBase + 2 * l.regionSize⟩
  | .trimming _ region mapSize mapEnd =>
    if mapSize = 2 * l.regionSize then regionRange l region else ⟨region, mapEnd⟩
  | .recording _ region => regionRange l region
  | _ => ⟨0, 0⟩

/-- What a thread knows about the memory that it works on. -/
def PcOk (l : Layout) : Pc → Prop
  | .placing _ mapBase => MapResult l mapBase
  | .trimming _ region mapSize mapEnd =>
    l.regionSize ∣ region ∧ 0 < region ∧ mapEnd ≤ 2^l.mmapRangeSizeLog ∧
    (mapSize = 2 * l.regionSize ∧ mapEnd = region + 2 * l.regionSize ∨
      mapSize = l.regionSize ∧ region + l.regionSize < mapEnd)
  | .recording _ region => IsRegion l region
  | _ => True

namespace Regions

variable {Thread : Type*} {s s' : Regions Thread} {t : Thread} {q : Pc} {r classId : Nat}

def all (s : Regions Thread) : List Nat := s.stash ++ s.handedOut

def own (l : Layout) (s : Regions Thread) : Owner Thread → Set Nat
  | .region r => {b | r ∈ s.all ∧ b ∈ bytes (regionRange l r)}
  | .thread t => bytes (zone l (s.pc t))

theorem own_region_of_mem (h : r ∈ s.all) : s.own l (.region r) = bytes (regionRange l r) :=
  Set.ext fun _ => and_iff_right h

theorem own_region_of_notMem (h : r ∉ s.all) : s.own l (.region r) = ∅ :=
  Set.eq_empty_of_forall_notMem fun _ hb => h hb.1

theorem own_region_congr (h : r ∈ s'.all ↔ r ∈ s.all) :
    s'.own l (.region r) = s.own l (.region r) :=
  Set.ext fun _ => and_congr_left' h

theorem own_thread_of_eq (h : s'.pc t = q) : s'.own l (.thread t) = bytes (zone l q) := by
  rw [own, h]

/-- Every mapped byte belongs to one region or is worked on by one thread. -/
structure Inv (l : Layout) (s : Regions Thread) : Prop where
  shared : Shared s.mapped (s.own l)
  pcs : ∀ t, PcOk l (s.pc t)
  regions : ∀ r ∈ s.all, IsRegion l r
  nodup : s.all.Nodup
  stash_le : s.stash.length ≤ maxStashedRegions
  recorded : ∀ i, s.possibleRegions i ≠ 0 → ∃ r ∈ s.handedOut, r >>> l.regionSizeLog = i
  alive : s.died = false

theorem bytes_eq_empty {lo hi : Nat} (h : hi ≤ lo) : bytes ⟨lo, hi⟩ = ∅ := by
  refine Set.eq_empty_of_forall_notMem ?_
  intro b ⟨h1, h2⟩
  exact absurd (lt_of_le_of_lt h1 h2) (not_lt.mpr h)

theorem own_thread_empty (h : zone l (s.pc t) = ⟨0, 0⟩) : s.own l (.thread t) = ∅ := by
  rw [own, h]
  exact bytes_eq_empty (le_refl 0)

theorem bytes_sdiff_front {lo m hi : Nat} (h : lo ≤ m) :
    bytes ⟨lo, hi⟩ \ bytes ⟨lo, m⟩ = bytes ⟨m, hi⟩ := by
  ext b
  simp only [bytes, Set.mem_sdiff, Set.mem_ofPred_eq]
  omega

theorem bytes_sdiff_back {lo m hi : Nat} (h : m ≤ hi) :
    bytes ⟨lo, hi⟩ \ bytes ⟨m, hi⟩ = bytes ⟨lo, m⟩ := by
  ext b
  simp only [bytes, Set.mem_sdiff, Set.mem_ofPred_eq]
  omega

theorem bytes_subset {a b : Range} (h : a.Within b) : bytes a ⊆ bytes b :=
  fun _ hx => ⟨le_trans h.1 hx.1, lt_of_lt_of_le hx.2 h.2⟩

theorem Inv.init (h : Init l s) : Inv l s where
  shared := by
    rw [h.mapped]
    refine shared_empty fun i => ?_
    cases i with
    | region r =>
      refine own_region_of_notMem ?_
      rw [all, h.stash, h.handedOut]
      exact List.not_mem_nil
    | thread t =>
      exact own_thread_empty (congrArg (zone l) (h.pc t))
  pcs t := by rw [h.pc t]; trivial
  regions r hr := by
    rw [all, h.stash, h.handedOut] at hr
    exact absurd hr List.not_mem_nil
  nodup := by
    rw [all, h.stash, h.handedOut]
    exact .nil
  stash_le := by
    rw [h.stash]
    exact Nat.zero_le _
  recorded i hi := absurd (h.possibleRegions i) hi
  alive := h.died

/-- A region whose first byte a thread works on is none of the known ones. -/
theorem Inv.notMem (h : Inv l s) (hsub : bytes (regionRange l r) ⊆ bytes (zone l (s.pc t))) :
    r ∉ s.all := by
  intro hr
  have hb : r ∈ bytes (regionRange l r) := ⟨le_refl _, Nat.lt_add_of_pos_right l.regionSize_pos⟩
  have hown : r ∈ s.own l (.region r) := ⟨hr, hb⟩
  exact nomatch h.shared.unique hown (show r ∈ s.own l (.thread t) from hsub hb)

theorem Inv.not_died (h : Inv l s) : ¬ s.died = true := by
  rw [h.alive]
  exact Bool.false_ne_true

theorem Inv.mapped_iff (h : Inv l s) (b : Nat) : b ∈ s.mapped ↔
    (∃ r ∈ s.all, b ∈ bytes (regionRange l r)) ∨ ∃ t, b ∈ bytes (zone l (s.pc t)) := by
  rw [h.shared.cover]
  constructor
  · intro ⟨i, hi⟩
    cases i with
    | region r => exact .inl ⟨r, hi⟩
    | thread t => exact .inr ⟨t, hi⟩
  · rintro (⟨r, hr⟩ | ⟨t, ht⟩)
    · exact ⟨.region r, hr⟩
    · exact ⟨.thread t, ht⟩

/-- No region is handed out twice, and no region is lost. -/
structure Sound (l : Layout) (s : Regions Thread) : Prop where
  alive : s.died = false
  once : s.handedOut.Nodup
  stash_le : s.stash.length ≤ maxStashedRegions
  regions : ∀ r ∈ s.stash ++ s.handedOut, l.regionSize ∣ r ∧ r >>> l.regionSizeLog < l.numRegions
  disjoint : (s.stash ++ s.handedOut).Pairwise fun r r' =>
    (regionRange l r).Disjoint (regionRange l r')
  mapped : ∀ b, b ∈ s.mapped ↔ (∃ r ∈ s.stash ++ s.handedOut, b ∈ bytes (regionRange l r)) ∨
    ∃ t, b ∈ bytes (zone l (s.pc t))
  kept : ∀ r, l.regionSize ∣ r → r ∈ s.mapped → (∀ t, r ∉ bytes (zone l (s.pc t))) →
    s.stash.count r + s.handedOut.count r = 1

theorem Inv.sound (h : Inv l s) : Sound l s := by
  refine ⟨h.alive, List.Nodup.of_append_right h.nodup, h.stash_le, ?_, ?_, h.mapped_iff, ?_⟩
  · exact fun r hr => ⟨(h.regions r hr).aligned, (h.regions r hr).index_lt⟩
  · refine List.Pairwise.imp_of_mem ?_ h.nodup
    exact fun hr hx hne => (h.regions _ hr).disjoint (h.regions _ hx) hne
  · intro r hdvd hmapped hfree
    rw [← List.count_append]
    rcases (h.mapped_iff r).mp hmapped with ⟨x, hx, h1, h2⟩ | ⟨t, ht⟩
    · have hxr : x = r := by
        by_contra hne
        have hlt := lt_of_le_of_ne h1 hne
        exact absurd h2 (not_lt.mpr (Word.add_le_of_dvd_of_lt (h.regions x hx).aligned hdvd hlt))
      exact List.count_eq_one_of_mem h.nodup (hxr ▸ hx)
    · exact absurd ht (hfree t)

variable [DecidableEq Thread]

theorem pcs_update (h : ∀ t, PcOk l (s.pc t)) (hok : PcOk l q) (t t' : Thread) :
    PcOk l (Function.update s.pc t q t') := by
  by_cases ht : t' = t
  · rw [ht, Function.update_self]
    exact hok
  · rw [Function.update_of_ne ht]
    exact h t'

theorem own_thread_of_ne (hpc : s'.pc = Function.update s.pc t q) {t' : Thread} (ht : t' ≠ t) :
    s'.own l (.thread t') = s.own l (.thread t') := by
  rw [own, own, hpc, Function.update_of_ne ht]

theorem own_thread_self (hpc : s'.pc = Function.update s.pc t q) :
    s'.own l (.thread t) = bytes (zone l q) :=
  own_thread_of_eq (by rw [hpc, Function.update_self])

/-- A thread gives up a part of the memory that it works on. -/
theorem Inv.unmap (h : Inv l s) {x : Option Range}
    (hsub : ∀ y ∈ x, y.Within (zone l (s.pc t)))
    (hzone : bytes (zone l q) = Primary32.unmap (bytes (zone l (s.pc t))) x) (hok : PcOk l q) :
    Inv l (goto { s with mapped := Primary32.unmap s.mapped x } t q) := by
  refine ⟨?_, pcs_update h.pcs hok t, h.regions, h.nodup, h.stash_le, h.recorded, h.alive⟩
  set s' := goto { s with mapped := Primary32.unmap s.mapped x } t q with hs'
  have hpc : s'.pc = Function.update s.pc t q := rfl
  have hrest : ∀ i, i ≠ .thread t → s'.own l i = s.own l i := by
    intro i hi
    cases i with
    | region r => exact own_region_congr Iff.rfl
    | thread t' => exact own_thread_of_ne hpc fun ht => hi (ht ▸ rfl)
  cases x with
  | none =>
    have hown : s'.own l = s.own l := by
      funext i
      by_cases hi : i = .thread t
      · rw [hi, own_thread_self hpc, hzone]
        rfl
      · exact hrest i hi
    rw [hown]
    exact h.shared
  | some y =>
    refine h.shared.drop (i := .thread t) (bytes_subset (hsub y rfl)) ?_ hrest
    rw [own_thread_self hpc, hzone]
    rfl

/-- The system call answers with memory. -/
theorem Inv.map (h : Inv l s) (hpc : s.pc t = .mapping classId) {mapBase : Nat}
    (hres : MapResult l mapBase)
    (hfresh : ∀ b ∈ bytes ⟨mapBase, mapBase + 2 * l.regionSize⟩, b ∉ s.mapped) :
    Inv l (goto { s with mapped := s.mapped ∪ bytes ⟨mapBase, mapBase + 2 * l.regionSize⟩ } t
      (.placing classId mapBase)) := by
  have hok : PcOk l (.placing classId mapBase) := hres
  refine ⟨?_, pcs_update h.pcs hok t, h.regions, h.nodup, h.stash_le, h.recorded, h.alive⟩
  refine h.shared.acquire (i := .thread t) hfresh ?_ fun i hi => ?_
  · rw [own_thread_self rfl, own_thread_empty (congrArg (zone l) hpc), Set.empty_union]
    rfl
  · cases i with
    | region r => exact own_region_congr Iff.rfl
    | thread t' => exact own_thread_of_ne rfl fun ht => hi (ht ▸ rfl)

/-- A region that a thread worked on is stashed or handed out. -/
theorem Inv.settle (h : Inv l s) (hr : IsRegion l r)
    (hsub : (regionRange l r).Within (zone l (s.pc t)))
    (hzone : bytes (zone l q) = bytes (zone l (s.pc t)) \ bytes (regionRange l r))
    (hok : PcOk l q) (hpc : s'.pc = Function.update s.pc t q) (hmapped : s'.mapped = s.mapped)
    (hall : s'.all.Perm (r :: s.all)) (hstash : s'.stash.length ≤ maxStashedRegions)
    (hrec : ∀ i, s'.possibleRegions i ≠ 0 → ∃ x ∈ s'.handedOut, x >>> l.regionSizeLog = i)
    (halive : s'.died = false) : Inv l s' := by
  have hnew := h.notMem (bytes_subset hsub)
  have hmem : ∀ x, x ∈ s'.all ↔ x = r ∨ x ∈ s.all := fun x => hall.mem_iff.trans List.mem_cons
  refine ⟨?_, ?_, ?_, ?_, hstash, hrec, halive⟩
  · rw [hmapped]
    refine h.shared.give (i := .thread t) (j := .region r) (bytes_subset hsub) nofun ?_ ?_ ?_
    · rw [own_thread_self hpc, hzone]
      rfl
    · rw [own_region_of_mem ((hmem r).mpr (.inl rfl)), own_region_of_notMem hnew, Set.empty_union]
    · intro i hi hj
      cases i with
      | region x =>
        refine own_region_congr ((hmem x).trans (or_iff_right fun hx => ?_))
        exact hj (hx ▸ rfl)
      | thread t' => exact own_thread_of_ne hpc fun ht => hi (ht ▸ rfl)
  · rw [hpc]
    exact pcs_update h.pcs hok t
  · intro x hx
    rcases (hmem x).mp hx with rfl | hx
    · exact hr
    · exact h.regions x hx
  · exact hall.nodup_iff.mpr (List.nodup_cons.mpr ⟨hnew, h.nodup⟩)

/-- A stashed region is taken. -/
theorem Inv.pop (h : Inv l s) (hpc : s.pc t = .idle) {rest : List Nat}
    (hstash : s.stash = rest ++ [r]) :
    Inv l (goto { s with stash := rest } t (.recording classId r)) := by
  have hall : s.all.Perm (r :: (rest ++ s.handedOut)) := by
    rw [all, hstash, List.append_assoc]
    exact List.perm_middle
  have hmem : ∀ x, x ∈ s.all ↔ x = r ∨ x ∈ rest ++ s.handedOut := fun x =>
    hall.mem_iff.trans List.mem_cons
  have hr := (hmem r).mpr (.inl rfl)
  obtain ⟨hnew, hnodup⟩ := List.nodup_cons.mp (hall.nodup_iff.mp h.nodup)
  have hok : PcOk l (.recording classId r) := h.regions r hr
  refine ⟨?_, pcs_update h.pcs hok t, ?_, hnodup, ?_, h.recorded, h.alive⟩
  · refine h.shared.give (i := .region r) (j := .thread t) (Set.Subset.refl _) nofun ?_ ?_ ?_
    · rw [sdiff_self]
      exact own_region_of_notMem hnew
    · rw [own_thread_self rfl, own_thread_empty (congrArg (zone l) hpc), own_region_of_mem hr,
        Set.empty_union]
      rfl
    · intro i hi hj
      cases i with
      | region x =>
        refine own_region_congr (((hmem x).trans (or_iff_right fun hx => ?_)).symm)
        exact hi (hx ▸ rfl)
      | thread t' => exact own_thread_of_ne rfl fun ht => hj (ht ▸ rfl)
  · exact fun x hx => h.regions x ((hmem x).mpr (.inr hx))
  · have hle := h.stash_le
    rw [hstash, List.length_append] at hle
    exact le_trans (Nat.le_add_right _ _) hle

theorem zone_both (l : Layout) (classId region mapEnd : Nat) :
    zone l (.trimming classId region (2 * l.regionSize) mapEnd) = regionRange l region := if_pos rfl

theorem zone_one (l : Layout) (classId region mapEnd : Nat) :
    zone l (.trimming classId region l.regionSize mapEnd) = ⟨region, mapEnd⟩ := by
  have hpos := l.regionSize_pos
  exact if_neg (by omega)

theorem Inv.allocateRegion_step (h : Inv l s)
    (hs : step l s (.allocateRegion t classId) = some s') : Inv l s' := by
  cases hpc : s.pc t with
  | idle =>
    simp only [step, if_neg h.not_died, hpc, popStash, Option.some.injEq] at hs
    rcases List.eq_nil_or_concat' s.stash with hnil | ⟨rest, r, hstash⟩
    · have hsame : { s with stash := [] } = s := by rw [← hnil]
      rw [hnil] at hs
      simp only [List.getLast?_nil, Option.getD_none, List.dropLast_nil, if_true, hsame] at hs
      rw [← hs]
      exact h.unmap (x := none) nofun (by rw [hpc]; rfl) trivial
    · have hmem : r ∈ s.all := List.mem_append_left _ (hstash ▸ List.mem_concat_self)
      have hr : r ≠ 0 := (h.regions r hmem).pos.ne'
      rw [hstash] at hs
      simp only [List.getLast?_concat, Option.getD_some, List.dropLast_concat, if_neg hr] at hs
      rw [← hs]
      exact h.pop hpc hstash
  | _ => simp [step, h.alive, hpc] at hs

theorem Inv.map_step (h : Inv l s) {os : Option Nat}
    (hok : ∀ mapBase ∈ os, MapResult l mapBase ∧
      ∀ b ∈ bytes ⟨mapBase, mapBase + 2 * l.regionSize⟩, b ∉ s.mapped)
    (hs : step l s (.map t os) = some s') : Inv l s' := by
  cases hpc : s.pc t with
  | mapping classId =>
    simp only [step, if_neg h.not_died, hpc] at hs
    cases os with
    | none =>
      rw [← Option.some.inj hs]
      exact h.unmap (x := none) nofun (by rw [hpc]; rfl) trivial
    | some mapBase =>
      obtain ⟨hres, hfresh⟩ := hok mapBase rfl
      rw [← Option.some.inj hs]
      exact h.map hpc hres hfresh
  | _ => simp [step, h.alive, hpc] at hs

theorem Inv.place_step (h : Inv l s) (hs : step l s (.place t) = some s') : Inv l s' := by
  cases hpc : s.pc t with
  | placing classId mapBase =>
    have hpos := l.regionSize_pos
    have hres : MapResult l mapBase := by
      have hok := h.pcs t
      rwa [hpc] at hok
    have hrange := hres.range
    have h0 := hres.pos
    simp only [step, if_neg h.not_died, hpc] at hs
    rcases place_cases hres s.stash with
      ⟨hplace, hdvd, hlen⟩ | ⟨region, front, hplace, hdvd, hlt, hfront⟩
    · rw [hplace] at hs
      simp only [canUnmap, if_true, Option.some.injEq] at hs
      have hdvd' : l.regionSize ∣ mapBase + l.regionSize := Nat.dvd_add hdvd (Nat.dvd_refl _)
      rw [← hs]
      refine h.settle (r := mapBase + l.regionSize) (t := t)
        (q := .trimming classId mapBase (2 * l.regionSize) (mapBase + 2 * l.regionSize))
        ⟨hdvd', by omega, by omega⟩ ?_ ?_ ⟨hdvd, h0, hrange, .inl ⟨rfl, rfl⟩⟩ rfl rfl ?_ ?_
        h.recorded h.alive
      · rw [hpc]
        constructor <;> simp only [zone, regionRange] <;> omega
      · rw [hpc, zone_both, zone, regionRange, regionRange, Nat.add_assoc, ← Nat.two_mul]
        exact (bytes_sdiff_back (by omega)).symm
      · simp only [all, goto, List.append_assoc]
        exact List.perm_middle
      · simp only [goto, List.length_append, List.length_singleton]
        omega
    · have hcan : canUnmap l front = true := by
        rcases hfront with ⟨rfl, -⟩ | ⟨rfl, hne⟩
        · rfl
        · exact decide_eq_true ⟨Nat.mod_eq_zero_of_dvd hres.page, hne⟩
      have hle : mapBase ≤ region := by
        rcases hfront with ⟨-, rfl⟩ | ⟨-, hne⟩
        · exact le_refl _
        · exact hne.le
      rw [hplace] at hs
      simp only [hcan, if_true, Option.some.injEq] at hs
      rw [← hs]
      refine h.unmap (x := front) ?_ ?_
        ⟨hdvd, by omega, hrange, .inr ⟨rfl, by omega⟩⟩
      · intro y hy
        rw [hpc]
        rcases hfront with ⟨rfl, -⟩ | ⟨rfl, -⟩
        · cases hy
        · cases hy
          exact ⟨le_refl _, by simp only [zone]; omega⟩
      · rw [hpc, zone_one, zone]
        rcases hfront with ⟨rfl, rfl⟩ | ⟨rfl, -⟩
        · rfl
        · exact (bytes_sdiff_front hle).symm
  | _ => simp [step, h.alive, hpc] at hs

theorem Inv.trim_step (h : Inv l s) (hs : step l s (.trim t) = some s') : Inv l s' := by
  cases hpc : s.pc t with
  | trimming classId region mapSize mapEnd =>
    have hpos := l.regionSize_pos
    have hok := h.pcs t
    rw [hpc] at hok
    obtain ⟨hdvd, h0, hend, hsize⟩ := hok
    have hmod := Nat.mod_eq_zero_of_dvd hdvd
    simp only [step, if_neg h.not_died, hpc] at hs
    rcases hsize with ⟨rfl, rfl⟩ | ⟨rfl, hlt⟩
    · have hback : Primary32.trim region (2 * l.regionSize) (region + 2 * l.regionSize) = none :=
        if_neg fun hne => hne rfl
      rw [hback] at hs
      simp only [canUnmap, hmod, and_self, if_true, Option.some.injEq] at hs
      rw [← hs]
      refine h.unmap (x := none) nofun ?_ ⟨hdvd, h0, by omega⟩
      rw [hpc, zone_both]
      rfl
    · have hback : Primary32.trim region l.regionSize mapEnd =
          some ⟨region + l.regionSize, mapEnd⟩ := if_pos (by omega)
      have hpage : 2^l.pageSizeLog ∣ region + l.regionSize :=
        Nat.dvd_add (dvd_trans l.page_dvd_regionSize hdvd) l.page_dvd_regionSize
      have hcan : canUnmap l (some ⟨region + l.regionSize, mapEnd⟩) = true :=
        decide_eq_true ⟨Nat.mod_eq_zero_of_dvd hpage, hlt⟩
      rw [hback] at hs
      simp only [hcan, hmod, and_self, if_true, Option.some.injEq] at hs
      rw [← hs]
      refine h.unmap ?_ ?_ ⟨hdvd, h0, by omega⟩
      · intro y hy
        cases hy
        rw [hpc, zone_one]
        exact ⟨Nat.le_add_right _ _, le_refl _⟩
      · rw [hpc, zone_one]
        exact (bytes_sdiff_back hlt.le).symm
  | _ => simp [step, h.alive, hpc] at hs

theorem Inv.record_step (h : Inv l s) (hs : step l s (.record t) = some s') : Inv l s' := by
  cases hpc : s.pc t with
  | recording classId region =>
    have hreg : IsRegion l region := by
      have hok := h.pcs t
      rwa [hpc] at hok
    have hsub : (regionRange l region).Within (zone l (s.pc t)) := by
      rw [hpc]
      exact .refl _
    have hfree : s.possibleRegions (region >>> l.regionSizeLog) = 0 := by
      by_contra hne
      obtain ⟨x, hx, heq⟩ := h.recorded _ hne
      have hall : x ∈ s.all := List.mem_append_right _ hx
      exact h.notMem (bytes_subset hsub) (hreg.eq_of_index (h.regions x hall) heq ▸ hall)
    simp only [step, if_neg h.not_died, hpc, hfree, hreg.index_lt, and_self,
      if_true, Option.some.injEq] at hs
    rw [← hs]
    refine h.settle (t := t) (q := .idle) hreg hsub ?_ trivial rfl rfl List.perm_middle h.stash_le
      ?_ h.alive
    · rw [hpc]
      exact (bytes_eq_empty (le_refl 0)).trans (sdiff_self).symm
    · intro i hi
      by_cases hir : i = region >>> l.regionSizeLog
      · exact ⟨region, List.mem_cons_self, hir.symm⟩
      · simp only [goto, Function.update_of_ne hir] at hi
        obtain ⟨x, hx, heq⟩ := h.recorded i hi
        exact ⟨x, List.mem_cons_of_mem _ hx, heq⟩
  | _ => simp [step, h.alive, hpc] at hs

/-- `mmap` answers with memory that is not mapped yet, or fails. -/
def Admitted (l : Layout) (s : Regions Thread) : Action Thread → Prop
  | .map _ os => ∀ mapBase ∈ os, MapResult l mapBase ∧
      ∀ b ∈ bytes ⟨mapBase, mapBase + 2 * l.regionSize⟩, b ∉ s.mapped
  | _ => True

theorem inv_of_reachable (l : Layout) {s : Regions Thread}
    (hr : Reachable (Init l) (Admitted l) (fun s a s' => step l s a = some s') s) : Inv l s := by
  refine hr.invariant (fun _ => Inv.init) ?_
  intro s a s' h hok hs
  cases a with
  | allocateRegion t classId => exact h.allocateRegion_step hs
  | map t os => exact h.map_step hok hs
  | place t => exact h.place_step hs
  | trim t => exact h.trim_step hs
  | record t => exact h.record_step hs

end Regions

/-- For every answer of `mmap`, `allocateRegionSlow` keeps regions and unmaps the rest, and in any
order of the steps of any threads no region is handed out twice or lost. -/
theorem allocateRegion_sound (Thread : Type*) [DecidableEq Thread] (l : Layout) :
    (∀ mapBase stash, MapResult l mapBase → Exact l mapBase stash) ∧
    ∀ s : Regions Thread, Reachable (Regions.Init l) (Regions.Admitted l)
      (fun s a s' => s.step l a = some s') s → s.Sound l :=
  ⟨fun _ stash h => allocateRegionSlow_exact h stash,
    fun _ hr => (Regions.inv_of_reachable l hr).sound⟩

/-- Regions of 256 KiB in an address space of 32 bits. -/
def layout32 : Layout := ⟨18, 12, 32, by decide, by decide, by decide⟩

def newRegions : Regions Bool :=
  ⟨[], fun _ => 0, fun _ => 0, fun _ => 0, fun _ => .idle, ∅, [], false⟩

theorem allocateRegion_sound_both : Exact layout32 (2^28 + 2^12) [] ∧
    ∃ s : Regions Bool, s.stash = [2^28 + 2^18] ∧ s.handedOut = [2^28] ∧ s.Sound layout32 := by
  have hres : MapResult layout32 (2^28) := ⟨by decide, by decide, by decide⟩
  have hr := @Reachable.start _ _ (Regions.Init layout32) (Regions.Admitted layout32)
    (fun s a s' => Regions.step layout32 s a = some s') newRegions
    ⟨rfl, fun _ => rfl, fun _ => rfl, rfl, rfl, rfl⟩
  have hr := hr.next (a := Action.allocateRegion true 1) trivial rfl
  have hr := hr.next (a := Action.map true (some (2^28))) ?_ rfl
  · have hr := hr.next (a := Action.place true) trivial rfl
    have hr := hr.next (a := Action.trim true) trivial rfl
    have hr := hr.next (a := Action.record true) trivial rfl
    exact ⟨(allocateRegion_sound Bool layout32).1 _ _ ⟨by decide, by decide, by decide⟩,
      _, rfl, rfl, (allocateRegion_sound Bool layout32).2 _ hr⟩
  · intro mapBase hbase
    cases hbase
    exact ⟨hres, fun b _ => Set.notMem_empty b⟩

end ScudoMte.Primary32
