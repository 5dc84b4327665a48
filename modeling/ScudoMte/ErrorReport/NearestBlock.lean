import ScudoMte.Library.Word
import ScudoMte.SizeClassMap.Fixed

namespace ScudoMte.ErrorReport

/-- What `findNearestBlock` reads of a `RegionInfo`: two words of any content. -/
structure RegionInfo where
  regionBeg : Nat
  allocatedUser : Nat
  regionBeg_lt : regionBeg < 2^64
  allocatedUser_lt : allocatedUser < 2^64

def RegionInfo.regionEnd (r : RegionInfo) : Nat := (r.regionBeg + r.allocatedUser) % 2^64

structure BlockInfo where
  blockBegin : Nat
  blockSize : Nat
  regionBegin : Nat
  regionEnd : Nat
  deriving DecidableEq

/-- A word as an `sptr`. -/
def toSigned (x : Nat) : Int := if x < 2^63 then x else (x : Int) - 2^64

/-- An `sptr` as a word. -/
def toUnsigned (x : Int) : Nat := (x % 2^64).toNat

/-- How far a pointer is from `[lo, hi)`. -/
def distance (lo hi ptr : Nat) : Nat :=
  if lo ≤ ptr then if ptr < hi then 0 else ptr - hi else lo - ptr

/-- `while (cond(x)) x = next(x)`; `none` is a loop that runs on after `fuel` rounds. -/
def loopWhile {α : Type*} (cond : α → Bool) (next : α → α) : Nat → α → Option α
  | 0, x => if cond x then none else some x
  | fuel+1, x => if cond x then loopWhile cond next fuel (next x) else some x

section

variable (scm : SizeClassMap) (infos : Nat → RegionInfo)

/-- A region that the first loop does not skip: its bounds are in order and it holds a block. -/
def Eligible (i : Nat) : Prop :=
  (infos i).regionBeg ≤ (infos i).regionEnd ∧
    scm.getSizeByClassId i ≤ (infos i).regionEnd - (infos i).regionBeg

instance (i : Nat) : Decidable (Eligible scm infos i) := inferInstanceAs (Decidable (_ ∧ _))

/-- A round of the first loop on `ClassId` and `MinDistance`; class 0 is the batch class. -/
def closer (ptr : Nat) (s : Option Nat × Nat) (i : Nat) : Option Nat × Nat :=
  if i ≠ 0 ∧ Eligible scm infos i then
    let regionDistance := distance (infos i).regionBeg (infos i).regionEnd ptr
    if regionDistance < s.2 then (some i, regionDistance) else s
  else s

/-- The first loop over the first `numClasses` regions. -/
def nearestRegion (numClasses ptr : Nat) : Option Nat × Nat :=
  (List.range numClasses).foldl (closer scm infos ptr) (none, 2^64 - 1)

/-- The block of a region: the quotient of the signed distance, moved up and then down. -/
def blockIn (r : RegionInfo) (blockSize fuel ptr : Nat) : Option BlockInfo := do
  let offset := toUnsigned
    ((toSigned (wrapSub ptr r.regionBeg)).tdiv (toSigned blockSize) * toSigned blockSize)
  let up ← loopWhile (fun b => b < r.regionBeg) (fun b => (b + blockSize) % 2^64) fuel
    ((r.regionBeg + offset) % 2^64)
  let down ← loopWhile (fun b => r.regionEnd < (b + blockSize) % 2^64)
    (fun b => wrapSub b blockSize) fuel up
  some { blockBegin := down, blockSize, regionBegin := r.regionBeg, regionEnd := r.regionEnd }

/-- `SizeClassAllocator64::findNearestBlock`. -/
def findNearestBlock (fuel ptr : Nat) : Option BlockInfo :=
  match nearestRegion scm infos (scm.largestClassId + 1) ptr with
  | (some classId, minDistance) =>
      if minDistance ≤ 8192 then
        blockIn (infos classId) (scm.getSizeByClassId classId) fuel ptr
      else some ⟨0, 0, 0, 0⟩
  | (none, _) => some ⟨0, 0, 0, 0⟩

end

section

variable {scm : SizeClassMap} {infos : Nat → RegionInfo} {ptr : Nat}

/-- The state of the first loop after `n` classes. -/
structure Nearest (scm : SizeClassMap) (infos : Nat → RegionInfo) (ptr n : Nat)
    (s : Option Nat × Nat) : Prop where
  least : ∀ i, 1 ≤ i → i < n → Eligible scm infos i →
    s.2 ≤ distance (infos i).regionBeg (infos i).regionEnd ptr
  le : s.2 ≤ 2^64 - 1
  none : s.1 = none → s.2 = 2^64 - 1
  some : ∀ c, s.1 = some c → 1 ≤ c ∧ c < n ∧ Eligible scm infos c ∧
    s.2 = distance (infos c).regionBeg (infos c).regionEnd ptr

theorem Nearest.closer {n : Nat} {s : Option Nat × Nat} (h : Nearest scm infos ptr n s) :
    Nearest scm infos ptr (n+1) (closer scm infos ptr s n) := by
  have hkeep (hold : 1 ≤ n → Eligible scm infos n →
      s.2 ≤ distance (infos n).regionBeg (infos n).regionEnd ptr) :
      Nearest scm infos ptr (n+1) s := by
    refine ⟨?_, h.le, h.none, ?_⟩
    · intro i h1 hi he
      rcases Nat.lt_or_eq_of_le (Nat.lt_succ_iff.mp hi) with hlt | rfl
      · exact h.least i h1 hlt he
      · exact hold h1 he
    · intro c hc
      obtain ⟨h1, hlt, he, hd⟩ := h.some c hc
      exact ⟨h1, by omega, he, hd⟩
  rw [ErrorReport.closer]
  by_cases hn : n ≠ 0 ∧ Eligible scm infos n
  · simp only [if_pos hn]
    by_cases hlt : distance (infos n).regionBeg (infos n).regionEnd ptr < s.2
    · rw [if_pos hlt]
      refine ⟨?_, hlt.le.trans h.le, ?_, ?_⟩
      · intro i h1 hi he
        rcases Nat.lt_or_eq_of_le (Nat.lt_succ_iff.mp hi) with hin | rfl
        · exact hlt.le.trans (h.least i h1 hin he)
        · exact le_rfl
      · intro hnone
        cases hnone
      · intro c hc
        cases hc
        exact ⟨by omega, by omega, hn.2, rfl⟩
    · rw [if_neg hlt]
      exact hkeep fun _ _ => by omega
  · rw [if_neg hn]
    exact hkeep fun h1 he => absurd ⟨by omega, he⟩ hn

theorem nearestRegion_spec (n : Nat) :
    Nearest scm infos ptr n (nearestRegion scm infos n ptr) := by
  induction n with
  | zero =>
    exact ⟨fun i _ hi => absurd hi (Nat.not_lt_zero i), le_rfl, fun _ => rfl, fun c hc => by cases hc⟩
  | succ n ih =>
    rw [nearestRegion, List.range_succ, List.foldl_append]
    exact ih.closer

end

/-- A loop that runs through `f 0`, `f 1`, … and ends at `f n`. -/
theorem loopWhile_eq {α : Type*} {cond : α → Bool} {next : α → α} {f : Nat → α} {n fuel : Nat}
    (hn : n ≤ fuel) (hstep : ∀ k < n, cond (f k) = true ∧ next (f k) = f (k+1))
    (hstop : cond (f n) = false) : loopWhile cond next fuel (f 0) = some (f n) := by
  induction n generalizing f fuel with
  | zero =>
    cases fuel with
    | zero => rw [loopWhile, hstop]; rfl
    | succ fuel => rw [loopWhile, hstop]; rfl
  | succ n ih =>
    cases fuel with
    | zero => omega
    | succ fuel =>
      obtain ⟨hcond, hnext⟩ := hstep 0 (by omega)
      rw [loopWhile, hcond, if_pos rfl, hnext]
      exact ih (f := fun k => f (k+1)) (by omega) (fun k hk => hstep (k+1) (by omega)) hstop

/-- From `k` blocks below the region the loop comes to its first block. -/
theorem loopUp {regionBeg size k fuel : Nat} (hsize : 0 < size) (hk : k * size ≤ regionBeg)
    (hfuel : k ≤ fuel) (hbeg : regionBeg < 2^64) :
    loopWhile (fun b => decide (b < regionBeg)) (fun b => (b + size) % 2^64) fuel
      (regionBeg - k * size) = some regionBeg := by
  have hrun := @loopWhile_eq _ (fun b => decide (b < regionBeg)) (fun b => (b + size) % 2^64)
    (fun j => regionBeg - (k - j) * size) k fuel hfuel ?_ ?_
  · simpa using hrun
  · intro j hj
    have hsub : (k - j) * size = (k - (j+1)) * size + size := by
      rw [← Nat.succ_mul, Nat.succ_eq_add_one, show k - (j+1) + 1 = k - j by omega]
    have hle : (k - j) * size ≤ k * size := Nat.mul_le_mul_right _ (Nat.sub_le k j)
    refine ⟨decide_eq_true (by omega), ?_⟩
    rw [hsub, Nat.mod_eq_of_lt (by omega)]
    omega
  · simp

/-- From block `q` the loop comes down to the last whole block, if it is not there yet. -/
theorem loopDown {regionBeg regionEnd size q last fuel : Nat} (hsize : 0 < size)
    (hfuel : q - last ≤ fuel) (hq : regionBeg + q * size + size < 2^64)
    (hlast : regionBeg + last * size + size ≤ regionEnd)
    (hnext : regionEnd < regionBeg + last * size + size + size) :
    loopWhile (fun b => decide (regionEnd < (b + size) % 2^64)) (fun b => wrapSub b size) fuel
      (regionBeg + q * size) = some (regionBeg + min q last * size) := by
  have hrun := @loopWhile_eq _ (fun b => decide (regionEnd < (b + size) % 2^64))
    (fun b => wrapSub b size) (fun j => regionBeg + (q - j) * size) (q - last) fuel hfuel ?_ ?_
  · rwa [Nat.sub_zero, show q - (q - last) = min q last by omega] at hrun
  · intro j hj
    have hle : (q - j) * size ≤ q * size := Nat.mul_le_mul_right _ (Nat.sub_le q j)
    have hgt : (last+1) * size ≤ (q - j) * size := Nat.mul_le_mul_right _ (by omega)
    have hsub : (q - j) * size = (q - (j+1)) * size + size := by
      rw [← Nat.succ_mul, Nat.succ_eq_add_one, show q - (j+1) + 1 = q - j by omega]
    rw [Nat.succ_mul] at hgt
    constructor
    · rw [Nat.mod_eq_of_lt (by omega)]
      exact decide_eq_true (by omega)
    · rw [wrapSub_of_le (by omega) (by omega)]
      omega
  · have hle : (q - (q - last)) * size ≤ last * size := Nat.mul_le_mul_right _ (by omega)
    have hle' : (q - (q - last)) * size ≤ q * size := Nat.mul_le_mul_right _ (Nat.sub_le _ _)
    rw [Nat.mod_eq_of_lt (by omega)]
    exact decide_eq_false (by omega)

/-- The offset of a pointer into its region. -/
theorem offset_of_le {beg size ptr : Nat} (hle : beg ≤ ptr) (hptr : ptr < 2^56)
    (hsize : size < 2^63) :
    toUnsigned ((toSigned (wrapSub ptr beg)).tdiv (toSigned size) * toSigned size) =
      (ptr - beg) / size * size := by
  have hmul : (ptr - beg) / size * size ≤ ptr - beg := Nat.div_mul_le_self _ _
  rw [wrapSub_of_le hle (by omega), toSigned, toSigned, if_pos (by omega), if_pos hsize,
    ← Int.ofNat_tdiv, ← Int.natCast_mul, toUnsigned]
  generalize (ptr - beg) / size * size = x at hmul
  omega

/-- The offset of a pointer below the region: rounded towards the region. -/
theorem offset_of_lt {beg size ptr : Nat} (hlt : ptr < beg) (hbeg : beg - ptr ≤ 8192)
    (hsize : size < 2^63) :
    toUnsigned ((toSigned (wrapSub ptr beg)).tdiv (toSigned size) * toSigned size) =
      (2^64 - (beg - ptr) / size * size) % 2^64 := by
  have hmul : (beg - ptr) / size * size ≤ beg - ptr := Nat.div_mul_le_self _ _
  have hneg : toSigned (wrapSub ptr beg) = -((beg - ptr : Nat) : Int) := by
    rw [wrapSub_of_lt hlt, toSigned, if_neg (by omega)]
    omega
  rw [hneg, toSigned, if_pos hsize, Int.neg_tdiv, ← Int.ofNat_tdiv, Int.neg_mul,
    ← Int.natCast_mul, toUnsigned]
  generalize (beg - ptr) / size * size = x at hmul
  omega

theorem loopWhile_stop {α : Type*} {cond : α → Bool} {next : α → α} {x : α} (fuel : Nat)
    (h : cond x = false) : loopWhile cond next fuel x = some x :=
  loopWhile_eq (f := fun _ => x) (Nat.zero_le fuel) (fun k hk => absurd hk (Nat.not_lt_zero k)) h

/-- The last whole block of a region. -/
def RegionInfo.lastBlock (r : RegionInfo) (size : Nat) : Nat :=
  (r.regionEnd - r.regionBeg) / size - 1

theorem RegionInfo.lastBlock_spec {r : RegionInfo} {size : Nat} (hsize : 0 < size)
    (hle : r.regionBeg ≤ r.regionEnd) (hfit : size ≤ r.regionEnd - r.regionBeg) :
    r.regionBeg + r.lastBlock size * size + size ≤ r.regionEnd ∧
      r.regionEnd < r.regionBeg + r.lastBlock size * size + size + size := by
  have hone : 1 ≤ (r.regionEnd - r.regionBeg) / size := (Nat.le_div_iff_mul_le hsize).mpr (by omega)
  have hdiv := Word.div_mul_le_lt (r.regionEnd - r.regionBeg) size hsize
  have hsucc : r.lastBlock size * size + size = (r.regionEnd - r.regionBeg) / size * size := by
    rw [← Nat.succ_mul, RegionInfo.lastBlock, Nat.succ_eq_add_one, Nat.sub_add_cancel hone]
  omega

/-- Both loops end, at the block that the pointer falls into or, past the last one, there. -/
theorem blockIn_eq {r : RegionInfo} {size fuel ptr : Nat} (hsize : 0 < size) (hmax : size ≤ 2^20)
    (hle : r.regionBeg ≤ r.regionEnd) (hfit : size ≤ r.regionEnd - r.regionBeg)
    (hptr : ptr < 2^56) (hdist : distance r.regionBeg r.regionEnd ptr ≤ 8192)
    (hfuel : 8200 ≤ fuel) :
    blockIn r size fuel ptr = some
      { blockBegin := r.regionBeg + min ((ptr - r.regionBeg) / size) (r.lastBlock size) * size
        blockSize := size, regionBegin := r.regionBeg, regionEnd := r.regionEnd } := by
  obtain ⟨hlast, hnext⟩ := RegionInfo.lastBlock_spec hsize hle hfit
  have hdown (hq : (ptr - r.regionBeg) / size - r.lastBlock size ≤ fuel)
      (hbeg : r.regionBeg ≤ 2^56 + 8192) :
      loopWhile (fun b => decide (r.regionEnd < (b + size) % 2^64)) (fun b => wrapSub b size) fuel
        (r.regionBeg + (ptr - r.regionBeg) / size * size) = some (r.regionBeg +
          min ((ptr - r.regionBeg) / size) (r.lastBlock size) * size) := by
    have hmul : (ptr - r.regionBeg) / size * size ≤ ptr - r.regionBeg := Nat.div_mul_le_self _ _
    exact loopDown hsize hq (by omega) hlast hnext
  rw [distance] at hdist
  by_cases hin : r.regionBeg ≤ ptr
  · have hmul : (ptr - r.regionBeg) / size * size ≤ ptr - r.regionBeg := Nat.div_mul_le_self _ _
    have hquot : (ptr - r.regionBeg) / size - r.lastBlock size ≤ 8200 := by
      rw [if_pos hin] at hdist
      have hfar : ptr - r.regionBeg < (r.lastBlock size + 8200) * size := by
        have h8192 : 8192 ≤ 8192 * size := Nat.le_mul_of_pos_right _ hsize
        have hsplit : (r.lastBlock size + 8200) * size =
            r.lastBlock size * size + (8192 * size + 8 * size) := by
          rw [Nat.add_mul, ← Nat.add_mul 8192 8]
        split at hdist <;> omega
      have hlt := (Nat.div_lt_iff_lt_mul hsize).mpr hfar
      omega
    have hup : loopWhile (fun b => decide (b < r.regionBeg)) (fun b => (b + size) % 2^64) fuel
        (r.regionBeg + (ptr - r.regionBeg) / size * size) =
          some (r.regionBeg + (ptr - r.regionBeg) / size * size) :=
      loopWhile_stop fuel (decide_eq_false (by omega))
    rw [blockIn, offset_of_le hin hptr (by omega), Nat.mod_eq_of_lt (by omega), hup]
    simp only [Option.bind_eq_bind, Option.bind_some]
    rw [hdown (by omega) (by omega)]
    rfl
  · rw [if_neg hin] at hdist
    have hzero : (ptr - r.regionBeg) / size * size = 0 := by
      rw [Nat.sub_eq_zero_of_le (by omega), Nat.zero_div, Nat.zero_mul]
    have hmul : (r.regionBeg - ptr) / size * size ≤ r.regionBeg - ptr := Nat.div_mul_le_self _ _
    have hstart : (r.regionBeg + (2^64 - (r.regionBeg - ptr) / size * size) % 2^64) % 2^64 =
        r.regionBeg - (r.regionBeg - ptr) / size * size := by
      have hbeg := r.regionBeg_lt
      generalize (r.regionBeg - ptr) / size * size = x at hmul
      omega
    have hrounds : (r.regionBeg - ptr) / size ≤ r.regionBeg - ptr := Nat.div_le_self _ _
    rw [blockIn, offset_of_lt (by omega) hdist (by omega)]
    rw [hstart, loopUp hsize (by omega) (by omega) r.regionBeg_lt]
    simp only [Option.bind_eq_bind, Option.bind_some]
    have hrun := hdown (by
      rw [Nat.sub_eq_zero_of_le (show ptr ≤ r.regionBeg by omega), Nat.zero_div]
      omega) (by omega)
    rw [hzero, Nat.add_zero] at hrun
    rw [hrun]
    rfl

/-- The search returns: an empty answer or a whole block. -/
theorem findNearestBlock_answer (scm : SizeClassMap) (infos : Nat → RegionInfo) {ptr fuel : Nat}
    (hptr : ptr < 2^56) (hfuel : 8200 ≤ fuel) :
    findNearestBlock scm infos fuel ptr = some ⟨0, 0, 0, 0⟩ ∨
      ∃ c, (1 ≤ c ∧ c ≤ scm.largestClassId) ∧ Eligible scm infos c ∧
        ∃ q ≤ (infos c).lastBlock (scm.getSizeByClassId c),
          findNearestBlock scm infos fuel ptr = some
            { blockBegin := (infos c).regionBeg + q * scm.getSizeByClassId c
              blockSize := scm.getSizeByClassId c
              regionBegin := (infos c).regionBeg, regionEnd := (infos c).regionEnd } := by
  have hnearest : Nearest scm infos ptr _ _ := nearestRegion_spec (scm.largestClassId + 1)
  rw [findNearestBlock]
  generalize nearestRegion scm infos (scm.largestClassId + 1) ptr = s at hnearest
  obtain ⟨_ | c, minDistance⟩ := s
  · exact .inl rfl
  · obtain ⟨h1, hc, he, hd⟩ := hnearest.some c rfl
    simp only at hd
    by_cases hnear : minDistance ≤ 8192
    · have hsize := scm.size_pos c h1 (by omega)
      have hmax := scm.size_le_max h1 (show c ≤ scm.largestClassId by omega)
      simp only [if_pos hnear]
      rw [blockIn_eq hsize hmax he.1 he.2 hptr (hd ▸ hnear) hfuel]
      exact .inr ⟨c, ⟨h1, by omega⟩, he, _, Nat.min_le_right _ _, rfl⟩
    · exact .inl (if_neg hnear)

/-- `[b, b + size)` is one of the whole blocks that fill the region from its start. -/
structure WholeBlock (r : RegionInfo) (size b : Nat) : Prop where
  begin_le : r.regionBeg ≤ b
  le_end : b + size ≤ r.regionEnd
  aligned : size ∣ b - r.regionBeg

theorem wholeBlock_iff {r : RegionInfo} {size b : Nat} (hsize : 0 < size)
    (hle : r.regionBeg ≤ r.regionEnd) (hfit : size ≤ r.regionEnd - r.regionBeg) :
    WholeBlock r size b ↔ ∃ q ≤ r.lastBlock size, b = r.regionBeg + q * size := by
  obtain ⟨hlast, hnext⟩ := RegionInfo.lastBlock_spec hsize hle hfit
  constructor
  · rintro ⟨hbeg, hend, q, hq⟩
    rw [Nat.mul_comm] at hq
    refine ⟨q, ?_, by omega⟩
    have hlt : q * size < (r.lastBlock size + 1) * size := by
      rw [Nat.succ_mul]
      omega
    exact Nat.lt_succ_iff.mp (Nat.lt_of_mul_lt_mul_right hlt)
  · rintro ⟨q, hq, rfl⟩
    have hmul := Nat.mul_le_mul_right size hq
    exact ⟨by omega, by omega, by rw [Nat.add_sub_cancel_left]; exact Nat.dvd_mul_left size q⟩

/-- What a non-empty answer says: a whole block of a region of least distance to the pointer. It
holds the pointer if a whole block does, else it is the first or the last one, and the nearest. -/
structure NearestBlock (scm : SizeClassMap) (infos : Nat → RegionInfo) (ptr classId : Nat)
    (b : BlockInfo) : Prop where
  classId_pos : 1 ≤ classId
  classId_le : classId ≤ scm.largestClassId
  eligible : Eligible scm infos classId
  blockSize : b.blockSize = scm.getSizeByClassId classId
  regionBegin : b.regionBegin = (infos classId).regionBeg
  regionEnd : b.regionEnd = (infos classId).regionEnd
  whole : WholeBlock (infos classId) b.blockSize b.blockBegin
  distance_le : distance b.regionBegin b.regionEnd ptr ≤ 8192
  nearest : ∀ i, 1 ≤ i → i ≤ scm.largestClassId → Eligible scm infos i →
    distance b.regionBegin b.regionEnd ptr ≤
      distance (infos i).regionBeg (infos i).regionEnd ptr
  inside : ∀ x, WholeBlock (infos classId) b.blockSize x → x ≤ ptr → ptr < x + b.blockSize →
    b.blockBegin = x
  outside : (∀ x, WholeBlock (infos classId) b.blockSize x →
      ¬ (x ≤ ptr ∧ ptr < x + b.blockSize)) →
    (b.blockBegin = b.regionBegin ∨
      b.blockBegin = b.regionBegin + (infos classId).lastBlock b.blockSize * b.blockSize) ∧
    ∀ x, WholeBlock (infos classId) b.blockSize x →
      distance b.blockBegin (b.blockBegin + b.blockSize) ptr ≤ distance x (x + b.blockSize) ptr

/-- The quotient, cut off at the last block, picks the block that holds the pointer. -/
theorem blockBegin_inside {r : RegionInfo} {size ptr x : Nat} (hsize : 0 < size)
    (hle : r.regionBeg ≤ r.regionEnd) (hfit : size ≤ r.regionEnd - r.regionBeg)
    (hx : WholeBlock r size x) (hlo : x ≤ ptr) (hhi : ptr < x + size) :
    r.regionBeg + min ((ptr - r.regionBeg) / size) (r.lastBlock size) * size = x := by
  obtain ⟨q, hq, rfl⟩ := (wholeBlock_iff hsize hle hfit).mp hx
  have hdiv : (ptr - r.regionBeg) / size = q := by
    apply Nat.div_eq_of_lt_le
    · omega
    · rw [Nat.succ_mul]
      omega
  rw [hdiv, Nat.min_eq_left hq]

/-- Of a pointer that no block holds, the first or the last block is the nearest. -/
theorem blockBegin_outside {r : RegionInfo} {size ptr : Nat} (hsize : 0 < size)
    (hle : r.regionBeg ≤ r.regionEnd) (hfit : size ≤ r.regionEnd - r.regionBeg)
    (hout : ∀ x, WholeBlock r size x → ¬ (x ≤ ptr ∧ ptr < x + size)) :
    (ptr < r.regionBeg ∧ min ((ptr - r.regionBeg) / size) (r.lastBlock size) = 0) ∨
      (r.regionBeg + r.lastBlock size * size + size ≤ ptr ∧
        min ((ptr - r.regionBeg) / size) (r.lastBlock size) = r.lastBlock size) := by
  rcases Nat.lt_or_ge ptr r.regionBeg with hlt | hge
  · refine .inl ⟨hlt, ?_⟩
    rw [Nat.sub_eq_zero_of_le hlt.le, Nat.zero_div, Nat.zero_min]
  · have hdiv := Word.div_mul_le_lt (ptr - r.regionBeg) size hsize
    generalize hq : (ptr - r.regionBeg) / size = q at hdiv
    have hlast : r.lastBlock size < q := by
      by_contra hge'
      have hwhole := (wholeBlock_iff hsize hle hfit).mpr ⟨q, by omega, rfl⟩
      exact hout _ hwhole ⟨by omega, by omega⟩
    have hmul := Nat.mul_le_mul_right size (Nat.succ_le_of_lt hlast)
    rw [Nat.succ_mul] at hmul
    exact .inr ⟨by omega, Nat.min_eq_right hlast.le⟩

/-- The search returns, with both loops done within 8200 rounds: an empty answer, where no region
is near, or the nearest block. -/
theorem findNearestBlock_sound (scm : SizeClassMap) (infos : Nat → RegionInfo) {ptr fuel : Nat}
    (hptr : ptr < 2^56) (hfuel : 8200 ≤ fuel) :
    ∃ b, findNearestBlock scm infos fuel ptr = some b ∧
      ((b = ⟨0, 0, 0, 0⟩ ∧ ∀ i, 1 ≤ i → i ≤ scm.largestClassId → Eligible scm infos i →
          8192 < distance (infos i).regionBeg (infos i).regionEnd ptr) ∨
        (b.blockSize ≠ 0 ∧ ∃ classId, NearestBlock scm infos ptr classId b)) := by
  have hnearest : Nearest scm infos ptr _ _ := nearestRegion_spec (scm.largestClassId + 1)
  rw [findNearestBlock]
  generalize nearestRegion scm infos (scm.largestClassId + 1) ptr = s at hnearest
  obtain ⟨_ | c, minDistance⟩ := s
  · refine ⟨_, rfl, .inl ⟨rfl, ?_⟩⟩
    intro i h1 hi he
    have hleast := hnearest.least i h1 (by omega) he
    have hmax := hnearest.none rfl
    simp only at hleast hmax
    omega
  · obtain ⟨h1, hc, he, hd⟩ := hnearest.some c rfl
    have hleast := hnearest.least
    simp only at hd hleast
    by_cases hnear : minDistance ≤ 8192
    · simp only [if_pos hnear]
      have hsize := scm.size_pos c h1 (by omega)
      have hmax := scm.size_le_max h1 (show c ≤ scm.largestClassId by omega)
      rw [blockIn_eq hsize hmax he.1 he.2 hptr (hd ▸ hnear) hfuel]
      refine ⟨_, rfl, .inr ⟨hsize.ne', c, h1, by omega, he, rfl, rfl, rfl, ?_, hd ▸ hnear, ?_, ?_, ?_⟩⟩
      · exact (wholeBlock_iff hsize he.1 he.2).mpr ⟨_, Nat.min_le_right _ _, rfl⟩
      · intro i hi1 hi hei
        rw [← hd]
        exact hleast i hi1 (by omega) hei
      · intro x hx hlo hhi
        exact blockBegin_inside hsize he.1 he.2 hx hlo hhi
      · intro hout
        have hblock {x : Nat} (hx : WholeBlock (infos c) (scm.getSizeByClassId c) x) :=
          (wholeBlock_iff hsize he.1 he.2).mp hx
        simp only
        rcases blockBegin_outside hsize he.1 he.2 hout with ⟨hlt, hmin⟩ | ⟨hge, hmin⟩
        · rw [hmin, Nat.zero_mul, Nat.add_zero]
          refine ⟨.inl rfl, ?_⟩
          intro x hx
          have hbeg := hx.begin_le
          rw [distance, distance, if_neg (by omega), if_neg (by omega)]
          omega
        · rw [hmin]
          refine ⟨.inr rfl, ?_⟩
          intro x hx
          obtain ⟨q, hq, rfl⟩ := hblock hx
          have hmul := Nat.mul_le_mul_right (scm.getSizeByClassId c) hq
          rw [distance, distance, if_pos (by omega), if_neg (by omega), if_pos (by omega),
            if_neg (by omega)]
          omega
    · simp only [if_neg hnear]
      refine ⟨_, rfl, .inl ⟨rfl, ?_⟩⟩
      intro i hi1 hi hei
      have hle := hleast i hi1 (by omega) hei
      omega

/-- One region, of the class of 32 bytes and with a partial tail. -/
def tailRegion (i : Nat) : RegionInfo :=
  if i = 1 then ⟨65536, 100, by decide, by decide⟩ else ⟨0, 0, by decide, by decide⟩

theorem findNearestBlock_tailRegion :
    ∃ b, findNearestBlock defaultSizeClassMap tailRegion 8200 65640 = some b ∧
      b.blockSize ≠ 0 := by
  obtain ⟨b, hb, ⟨-, hfar⟩ | ⟨hsize, -⟩⟩ :=
    findNearestBlock_sound defaultSizeClassMap tailRegion (show 65640 < 2^56 by decide) le_rfl
  · have hnear := hfar 1 le_rfl (by decide) (by decide)
    exact absurd hnear (by decide)
  · exact ⟨b, hb, hsize⟩

end ScudoMte.ErrorReport
