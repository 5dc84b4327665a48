import ScudoMte.Secondary.Geometry

namespace ScudoMte.Secondary

/-- What the arithmetic of `MapAllocator::allocate` takes from the platform and the configuration. -/
structure Platform where
  wordSize : Nat
  pageSizeLog : Nat
  minAlignmentLog : Nat
  headersSize : Nat
  enableGuardPages : Bool
  wordSize_eq : wordSize = 32 ∨ wordSize = 64
  pageSizeLog_ge : 12 ≤ pageSizeLog
  pageSizeLog_lt : pageSizeLog < wordSize
  minAlignmentLog_le : minAlignmentLog ≤ 12
  headersSize_pos : 0 < headersSize
  headersSize_le : headersSize ≤ 4096

namespace Platform

def pageSize (p : Platform) : Nat := 2^p.pageSizeLog

def getGuardPageSize (p : Platform) : Nat := if p.enableGuardPages then p.pageSize else 0

def add (p : Platform) (a b : Nat) : Nat := (a + b) % 2^p.wordSize

def sub (p : Platform) (a b : Nat) : Nat := (a + 2^p.wordSize - b) % 2^p.wordSize

def roundUp (p : Platform) (x boundary : Nat) : Nat :=
  p.sub (p.add x boundary) 1 &&& (2^p.wordSize - boundary)

def roundDown (p : Platform) (x boundary : Nat) : Nat := x &&& (2^p.wordSize - boundary)

end Platform

/-- The mapping of a block as `allocate` leaves it, what it unmapped of it, and where the block
goes. -/
structure Placement where
  mapBase : Nat
  mapEnd : Nat
  commitBase : Nat
  commitSize : Nat
  allocPos : Nat
  unmapped : List (Nat × Nat)

namespace Platform

def roundedSize (p : Platform) (size alignment : Nat) : Nat :=
  let roundedSize := p.roundUp (p.add (p.roundUp size alignment) p.headersSize) p.pageSize
  if alignment > p.pageSize then p.add roundedSize (p.sub alignment p.pageSize) else roundedSize

def mapSize (p : Platform) (size alignment : Nat) : Nat :=
  p.add (p.roundedSize size alignment) (2 * p.getGuardPageSize % 2^p.wordSize)

/-- The end of the computation, once the mapping is trimmed. -/
def commit (p : Platform) (size alignment mapBase mapEnd commitBase : Nat)
    (unmapped : List (Nat × Nat)) : Placement :=
  let commitSize := p.sub (p.sub mapEnd p.getGuardPageSize) commitBase
  let allocPos := p.roundDown (p.sub (p.add commitBase commitSize) size) alignment
  { mapBase, mapEnd, commitBase, commitSize, allocPos, unmapped }

/-- `MapAllocator::allocate` from the reservation at `mapBase` on. -/
def place (p : Platform) (size alignment mapBase : Nat) : Placement :=
  let mapEnd := p.add mapBase (p.mapSize size alignment)
  if alignment ≥ p.pageSize then
    let commitBase :=
      p.sub (p.roundUp (p.add (p.add mapBase p.getGuardPageSize) 1) alignment) p.pageSize
    if p.wordSize = 32 then
      let newMapBase := p.sub commitBase p.getGuardPageSize
      let front := if newMapBase ≠ mapBase then [(mapBase, p.sub newMapBase mapBase)] else []
      let newMapEnd := p.add (p.add (p.add commitBase p.pageSize) (p.roundUp size p.pageSize))
        p.getGuardPageSize
      let back := if newMapEnd ≠ mapEnd then [(newMapEnd, p.sub mapEnd newMapEnd)] else []
      p.commit size alignment newMapBase newMapEnd commitBase (front ++ back)
    else p.commit size alignment mapBase mapEnd commitBase []
  else p.commit size alignment mapBase mapEnd (p.add mapBase p.getGuardPageSize) []

/-- `Size` as `allocate` first changes it. -/
def sizeWithSlack (p : Platform) (slack : Bool) (size : Nat) : Nat :=
  if slack then p.add size (1 <<< p.minAlignmentLog) else size

/-- `MapAllocator::allocate` where it maps new memory. -/
def allocate (p : Platform) (slack : Bool) (size alignment mapBase : Nat) : Placement :=
  p.place (p.sizeWithSlack slack size) (max alignment (1 <<< p.minAlignmentLog)) mapBase

variable {p : Platform}

theorem add_eq {a b : Nat} (h : a + b < 2^p.wordSize) : p.add a b = a + b := Nat.mod_eq_of_lt h

theorem sub_eq {a b : Nat} (hb : b ≤ a) (ha : a < 2^p.wordSize) : p.sub a b = a - b := by
  rw [sub, show a + 2^p.wordSize - b = a - b + 2^p.wordSize by omega, Nat.add_mod_right,
    Nat.mod_eq_of_lt (by omega)]

theorem roundDown_eq {x k : Nat} (hx : x < 2^p.wordSize) (hk : k < p.wordSize) :
    p.roundDown x (2^k) = roundDownSlow x (2^k) :=
  Word.and_high_mask_width p.wordSize x k hx hk.le

/-- A number that is rounded up to a word is. -/
theorem roundUp_eq {x k : Nat} (hk : k < p.wordSize) (h : roundUpSlow x (2^k) < 2^p.wordSize) :
    p.roundUp x (2^k) = roundUpSlow x (2^k) := by
  have hp := Nat.two_pow_pos k
  have hd : 2^k ∣ 2^p.wordSize := Nat.pow_dvd_pow 2 hk.le
  have hlt : 2^k < 2^p.wordSize := Nat.pow_lt_pow_right (by decide) hk
  have hroom : roundUpSlow x (2^k) + 2^k ≤ 2^p.wordSize :=
    Word.add_le_of_dvd_of_lt (Nat.dvd_mul_left _ _) hd h
  have hx : x ≤ roundUpSlow x (2^k) := by
    have hround := Word.div_mul_le_lt (x + 2^k - 1) (2^k) hp
    rw [roundUpSlow]
    omega
  have hsum : p.sub (p.add x (2^k)) 1 = x + 2^k - 1 := by
    rcases Nat.eq_or_lt_of_le (show x + 2^k ≤ 2^p.wordSize by omega) with heq | hlt
    · rw [add, heq, Nat.mod_self, sub, Nat.zero_add, Nat.mod_eq_of_lt (by omega)]
    · rw [add_eq hlt, sub_eq (by omega) hlt]
  rw [roundUp, hsum, Word.and_high_mask_width p.wordSize _ k (by omega) hk.le, roundUpSlow]

end Platform

theorem roundUpSlow_spec (x : Nat) {b : Nat} (hb : 0 < b) :
    x ≤ roundUpSlow x b ∧ roundUpSlow x b < x + b ∧ b ∣ roundUpSlow x b := by
  have h := Word.div_mul_le_lt (x + b - 1) b hb
  rw [roundUpSlow]
  exact ⟨by omega, by omega, Nat.dvd_mul_left _ _⟩

/-- It is the least multiple from the argument on. -/
theorem roundUpSlow_le {x y b : Nat} (hb : 0 < b) (hd : b ∣ y) (hle : x ≤ y) : roundUpSlow x b ≤ y := by
  obtain ⟨-, hlt, hdvd⟩ := roundUpSlow_spec x hb
  by_contra hcon
  have hgap := Word.add_le_of_dvd_of_lt hd hdvd (by omega)
  omega

theorem le_roundDownSlow {x y b : Nat} (hb : 0 < b) (hd : b ∣ y) (hle : y ≤ x) :
    y ≤ roundDownSlow x b := by
  have h := Word.div_mul_le_lt x b hb
  by_contra hcon
  have hgap := Word.add_le_of_dvd_of_lt (Nat.dvd_mul_left b (x / b)) hd
    (show x / b * b < y by rw [roundDownSlow] at hcon; omega)
  omega

namespace Platform

variable {p : Platform}

/-- The size of the mapping, as a number. -/
def mapSizeOf (p : Platform) (size alignment : Nat) : Nat :=
  roundUpSlow (roundUpSlow size alignment + p.headersSize) p.pageSize +
    (alignment - p.pageSize) + 2 * p.getGuardPageSize

theorem pageSize_dvd_getGuardPageSize : p.pageSize ∣ p.getGuardPageSize := by
  rw [getGuardPageSize]
  split
  · exact dvd_refl _
  · exact dvd_zero _

theorem headersSize_le_pageSize : p.headersSize ≤ p.pageSize :=
  p.headersSize_le.trans (Nat.pow_le_pow_right (by decide : 0 < 2) p.pageSizeLog_ge)

/-- What `mapSize` computes is the size as a number, where that is one of the machine. -/
theorem mapSize_eq {size k : Nat} (hk : k < p.wordSize)
    (h : p.mapSizeOf size (2^k) < 2^p.wordSize) : p.mapSize size (2^k) = p.mapSizeOf size (2^k) := by
  have hpow := Nat.two_pow_pos k
  have hpage : 0 < p.pageSize := Nat.two_pow_pos _
  have hr := roundUpSlow_spec size hpow
  have hq := roundUpSlow_spec (roundUpSlow size (2^k) + p.headersSize) hpage
  rw [mapSizeOf] at h ⊢
  have hk' : 2^k < 2^p.wordSize := Nat.pow_lt_pow_right (by decide) hk
  have hsum : p.add (roundUpSlow size (2^k)) p.headersSize =
      roundUpSlow size (2^k) + p.headersSize := add_eq (by omega)
  have hpage' : p.roundUp (roundUpSlow size (2^k) + p.headersSize) p.pageSize =
      roundUpSlow (roundUpSlow size (2^k) + p.headersSize) p.pageSize :=
    roundUp_eq p.pageSizeLog_lt (by change roundUpSlow _ p.pageSize < _; omega)
  have hrounded : p.roundedSize size (2^k) =
      roundUpSlow (roundUpSlow size (2^k) + p.headersSize) p.pageSize + (2^k - p.pageSize) := by
    rw [roundedSize, roundUp_eq hk (by omega), hsum, hpage']
    split
    · rw [sub_eq (by omega) hk', add_eq (by omega)]
    · omega
  rw [mapSize, hrounded, Nat.mod_eq_of_lt (by omega), add_eq (by omega)]

/-- What `commit` computes. -/
theorem commit_spec {size k mapBase mapEnd commitBase : Nat} (unmapped : List (Nat × Nat))
    (hk : k < p.wordSize) (hend : mapEnd < 2^p.wordSize)
    (hcommit : commitBase + p.getGuardPageSize ≤ mapEnd)
    (hsize : size + p.getGuardPageSize ≤ mapEnd) :
    p.commit size (2^k) mapBase mapEnd commitBase unmapped =
      { mapBase, mapEnd, commitBase
        commitSize := mapEnd - p.getGuardPageSize - commitBase
        allocPos := roundDownSlow (mapEnd - p.getGuardPageSize - size) (2^k)
        unmapped } := by
  rw [commit, sub_eq (show p.getGuardPageSize ≤ mapEnd by omega) hend, sub_eq (by omega) (by omega),
    add_eq (by omega), sub_eq (by omega) (by omega), roundDown_eq (by omega) hk]
  congr 2
  omega

end Platform

/-- A block is where it should be in the mapping that was reserved for it: the commit range is
between the guard pages, with the headers and the user bytes inside, and what was unmapped is a
part of the mapping on either side of what is left. -/
structure Placed (p : Platform) (size alignment mapBase : Nat) (r : Placement) : Prop where
  mapBase_le : mapBase ≤ r.mapBase
  mapEnd_le : r.mapEnd ≤ mapBase + p.mapSizeOf size alignment
  guardBefore : r.mapBase + p.getGuardPageSize ≤ r.commitBase
  guardBehind : r.commitBase + r.commitSize + p.getGuardPageSize = r.mapEnd
  headers : r.commitBase + p.headersSize ≤ r.allocPos
  aligned : alignment ∣ r.allocPos
  user : r.allocPos + size ≤ r.commitBase + r.commitSize
  trims : ∀ u ∈ r.unmapped, mapBase ≤ u.1 ∧ u.1 + u.2 ≤ mapBase + p.mapSizeOf size alignment ∧
    (u.1 + u.2 ≤ r.mapBase ∨ r.mapEnd ≤ u.1)

namespace Platform

variable {p : Platform}

/-- A multiple of the alignment with room on both sides makes the block fit. -/
theorem placed_of_room {size k mapBase newBase newEnd commitBase y : Nat}
    {unmapped : List (Nat × Nat)} (hbase : mapBase ≤ newBase)
    (hend : newEnd ≤ mapBase + p.mapSizeOf size (2^k))
    (hguard : newBase + p.getGuardPageSize ≤ commitBase) (hy : 2^k ∣ y)
    (hroom : commitBase + p.headersSize ≤ y) (hfit : y + size + p.getGuardPageSize ≤ newEnd)
    (htrims : ∀ u ∈ unmapped, mapBase ≤ u.1 ∧ u.1 + u.2 ≤ mapBase + p.mapSizeOf size (2^k) ∧
      (u.1 + u.2 ≤ newBase ∨ newEnd ≤ u.1)) :
    Placed p size (2^k) mapBase
      { mapBase := newBase, mapEnd := newEnd, commitBase
        commitSize := newEnd - p.getGuardPageSize - commitBase
        allocPos := roundDownSlow (newEnd - p.getGuardPageSize - size) (2^k)
        unmapped } := by
  have hpow := Nat.two_pow_pos k
  have hge := @le_roundDownSlow (newEnd - p.getGuardPageSize - size) y (2^k) hpow hy (by omega)
  have hle := (Word.div_mul_le_lt (newEnd - p.getGuardPageSize - size) (2^k) hpow).1
  change roundDownSlow (newEnd - p.getGuardPageSize - size) (2^k) ≤ _ at hle
  refine ⟨hbase, hend, hguard, ?_, ?_, Nat.dvd_mul_left _ _, ?_, htrims⟩
  · change commitBase + (newEnd - p.getGuardPageSize - commitBase) + p.getGuardPageSize = newEnd
    omega
  · change commitBase + p.headersSize ≤ roundDownSlow (newEnd - p.getGuardPageSize - size) (2^k)
    omega
  · change roundDownSlow (newEnd - p.getGuardPageSize - size) (2^k) + size ≤
      commitBase + (newEnd - p.getGuardPageSize - commitBase)
    omega

/-- An alignment below the page size: the end less the rounded size is aligned, and the headers
fit in front of it. -/
theorem place_small {size k mapBase : Nat} (hk : k < p.wordSize) (hbase : p.pageSize ∣ mapBase)
    (hend : mapBase + p.mapSizeOf size (2^k) < 2^p.wordSize) (hlt : 2^k < p.pageSize) :
    Placed p size (2^k) mapBase (p.place size (2^k) mapBase) := by
  have hpage : 0 < p.pageSize := Nat.two_pow_pos _
  have hdvd : 2^k ∣ p.pageSize := Nat.pow_dvd_pow 2 ((Nat.pow_lt_pow_iff_right (by decide)).mp hlt).le
  obtain ⟨hr, -, hrd⟩ := roundUpSlow_spec size (Nat.two_pow_pos k)
  obtain ⟨hq, -, hqd⟩ := roundUpSlow_spec (roundUpSlow size (2^k) + p.headersSize) hpage
  have hsize : p.mapSizeOf size (2^k) =
      roundUpSlow (roundUpSlow size (2^k) + p.headersSize) p.pageSize + 2 * p.getGuardPageSize := by
    rw [mapSizeOf, Nat.sub_eq_zero_of_le hlt.le, Nat.add_zero]
  rw [place, mapSize_eq hk (by omega), add_eq hend]
  simp only
  rw [if_neg (by omega), add_eq (by omega), commit_spec [] hk hend (by omega) (by omega)]
  have haligned : 2^k ∣ mapBase + p.getGuardPageSize +
      roundUpSlow (roundUpSlow size (2^k) + p.headersSize) p.pageSize - roundUpSlow size (2^k) :=
    Nat.dvd_sub (hdvd.trans (Nat.dvd_add (Nat.dvd_add hbase pageSize_dvd_getGuardPageSize) hqd)) hrd
  exact placed_of_room (le_refl _) (le_refl _) (le_refl _) haligned (by omega) (by omega) nofun

/-- The first aligned page behind the guard page: there is a page in front of it, and room for
the rounded size behind it. -/
theorem alignedPage_spec {size k mapBase : Nat} (hbase : p.pageSize ∣ mapBase)
    (hge : p.pageSize ≤ 2^k) :
    mapBase + p.getGuardPageSize + p.pageSize ≤
        roundUpSlow (mapBase + p.getGuardPageSize + 1) (2^k) ∧
      roundUpSlow (mapBase + p.getGuardPageSize + 1) (2^k) + roundUpSlow size (2^k) +
        p.getGuardPageSize ≤ mapBase + p.mapSizeOf size (2^k) := by
  have hpow := Nat.two_pow_pos k
  have hpage : 0 < p.pageSize := Nat.two_pow_pos _
  have hpos := p.headersSize_pos
  have hdvd : p.pageSize ∣ 2^k := Nat.pow_dvd_pow 2 ((Nat.pow_le_pow_iff_right (by decide)).mp hge)
  obtain ⟨-, -, hrd⟩ := roundUpSlow_spec size hpow
  obtain ⟨hq, -, hqd⟩ := roundUpSlow_spec (roundUpSlow size (2^k) + p.headersSize) hpage
  have hgap := Word.add_le_of_dvd_of_lt (hdvd.trans hrd) hqd (by omega)
  have hx : p.pageSize ∣ mapBase + p.getGuardPageSize :=
    Nat.dvd_add hbase pageSize_dvd_getGuardPageSize
  obtain ⟨ha, hal, had⟩ := roundUpSlow_spec (mapBase + p.getGuardPageSize + 1) hpow
  have hax := Word.add_le_of_dvd_of_lt hx (hdvd.trans had) (by omega)
  rw [mapSizeOf]
  exact ⟨hax, by omega⟩

/-- The commit base that leaves a page for the headers in front of the first aligned page. -/
theorem alignedCommitBase_eq {k mapBase : Nat} (hk : k < p.wordSize)
    (hend : roundUpSlow (mapBase + p.getGuardPageSize + 1) (2^k) < 2^p.wordSize)
    (hpage : p.pageSize ≤ roundUpSlow (mapBase + p.getGuardPageSize + 1) (2^k)) :
    p.sub (p.roundUp (p.add (p.add mapBase p.getGuardPageSize) 1) (2^k)) p.pageSize =
      roundUpSlow (mapBase + p.getGuardPageSize + 1) (2^k) - p.pageSize := by
  obtain ⟨ha, -, -⟩ := roundUpSlow_spec (mapBase + p.getGuardPageSize + 1) (Nat.two_pow_pos k)
  rw [add_eq (show mapBase + p.getGuardPageSize < _ by omega), add_eq (by omega),
    roundUp_eq hk hend, sub_eq hpage hend]

/-- An alignment of a page or more: the user bytes start on an aligned page, in front of which
there is one for the headers. -/
theorem place_large {size k mapBase : Nat} (hk : k < p.wordSize) (hbase : p.pageSize ∣ mapBase)
    (hend : mapBase + p.mapSizeOf size (2^k) < 2^p.wordSize) (hge : p.pageSize ≤ 2^k) :
    Placed p size (2^k) mapBase (p.place size (2^k) mapBase) := by
  have hpow := Nat.two_pow_pos k
  have hpage : 0 < p.pageSize := Nat.two_pow_pos _
  have hheaders := @headersSize_le_pageSize p
  have hdvd : p.pageSize ∣ 2^k := Nat.pow_dvd_pow 2 ((Nat.pow_le_pow_iff_right (by decide)).mp hge)
  obtain ⟨hr, -, hrd⟩ := roundUpSlow_spec size hpow
  obtain ⟨hax, hroom⟩ := @alignedPage_spec p size k mapBase hbase hge
  have had : 2^k ∣ roundUpSlow (mapBase + p.getGuardPageSize + 1) (2^k) := Nat.dvd_mul_left _ _
  rw [place, mapSize_eq hk (by omega), add_eq hend]
  simp only
  rw [if_pos hge, alignedCommitBase_eq hk (by omega) (by omega)]
  generalize roundUpSlow (mapBase + p.getGuardPageSize + 1) (2^k) = a at had hax hroom ⊢
  split
  · -- both ends are trimmed
    obtain ⟨hs, -, hsd⟩ := roundUpSlow_spec size hpage
    have hsr := roundUpSlow_le hpage (hdvd.trans hrd) hr
    have hround : p.roundUp size p.pageSize = roundUpSlow size p.pageSize :=
      roundUp_eq p.pageSizeLog_lt (by change roundUpSlow size p.pageSize < _; omega)
    have hnewEnd : p.add (p.add (p.add (a - p.pageSize) p.pageSize) (p.roundUp size p.pageSize))
        p.getGuardPageSize = a + roundUpSlow size p.pageSize + p.getGuardPageSize := by
      rw [hround, add_eq (show a - p.pageSize + p.pageSize < _ by omega), Nat.sub_add_cancel (by omega),
        add_eq (show a + roundUpSlow size p.pageSize < _ by omega), add_eq (by omega)]
    rw [hnewEnd, sub_eq (show p.getGuardPageSize ≤ a - p.pageSize by omega) (by omega),
      sub_eq (by omega) (by omega), sub_eq (by omega) (by omega),
      commit_spec _ hk (by omega) (by omega) (by omega)]
    refine placed_of_room (by omega) (by omega) (by omega) had (by omega) (by omega) ?_
    intro u hu
    rcases List.mem_append.mp hu with hu | hu
    · split at hu
      · rw [List.mem_singleton.mp hu]
        simp only
        omega
      · exact absurd hu List.not_mem_nil
    · split at hu
      · rw [List.mem_singleton.mp hu]
        simp only
        omega
      · exact absurd hu List.not_mem_nil
  · rw [commit_spec [] hk hend (by omega) (by omega)]
    exact placed_of_room (le_refl _) (le_refl _) (by omega) had (by omega) (by omega) nofun

theorem place_placed {size k mapBase : Nat} (hk : k < p.wordSize) (hbase : p.pageSize ∣ mapBase)
    (hend : mapBase + p.mapSizeOf size (2^k) < 2^p.wordSize) :
    Placed p size (2^k) mapBase (p.place size (2^k) mapBase) := by
  rcases Nat.lt_or_ge (2^k) p.pageSize with hlt | hge
  · exact place_small hk hbase hend hlt
  · exact place_large hk hbase hend hge

/-- `Size` with the slack, as a number. -/
def slackSizeOf (p : Platform) (slack : Bool) (size : Nat) : Nat :=
  if slack then size + 1 <<< p.minAlignmentLog else size

/-- A block that is newly mapped is where it should be, on any platform. -/
theorem allocate_placed {slack : Bool} {size k mapBase : Nat} (hk : k < p.wordSize)
    (hbase : p.pageSize ∣ mapBase)
    (hend : mapBase + p.mapSizeOf (p.slackSizeOf slack size) (max (2^k) (1 <<< p.minAlignmentLog)) <
      2^p.wordSize) :
    Placed p (p.slackSizeOf slack size) (max (2^k) (1 <<< p.minAlignmentLog)) mapBase
        (p.allocate slack size (2^k) mapBase) ∧
      2^k ∣ (p.allocate slack size (2^k) mapBase).allocPos := by
  have halign : max (2^k) (1 <<< p.minAlignmentLog) = 2^(max k p.minAlignmentLog) := by
    rw [Nat.one_shiftLeft]
    rcases Nat.le_total k p.minAlignmentLog with hle | hle
    · rw [Nat.max_eq_right hle, Nat.max_eq_right (Nat.pow_le_pow_right (by decide) hle)]
    · rw [Nat.max_eq_left hle, Nat.max_eq_left (Nat.pow_le_pow_right (by decide) hle)]
  have hlog := p.minAlignmentLog_le
  have hk' : max k p.minAlignmentLog < p.wordSize := by
    rcases p.wordSize_eq with hw | hw <;> omega
  rw [halign] at hend
  have hslack : p.sizeWithSlack slack size = p.slackSizeOf slack size := by
    obtain ⟨hr, -, -⟩ := roundUpSlow_spec (p.slackSizeOf slack size)
      (Nat.two_pow_pos (max k p.minAlignmentLog))
    obtain ⟨hq, -, -⟩ := roundUpSlow_spec
      (roundUpSlow (p.slackSizeOf slack size) (2^(max k p.minAlignmentLog)) + p.headersSize)
      (show 0 < p.pageSize from Nat.two_pow_pos _)
    rw [mapSizeOf] at hend
    have hlt : p.slackSizeOf slack size < 2^p.wordSize := by omega
    rw [sizeWithSlack, slackSizeOf] at *
    cases slack with
    | true => exact add_eq hlt
    | false => rfl
  rw [allocate, hslack, halign]
  have hplaced := place_placed hk' hbase hend
  exact ⟨hplaced, (Nat.pow_dvd_pow 2 (Nat.le_max_left _ _)).trans hplaced.aligned⟩

/-- A 32-bit platform with 4 KiB pages and guard pages. -/
def word32 : Platform where
  wordSize := 32
  pageSizeLog := 12
  minAlignmentLog := 3
  headersSize := 32
  enableGuardPages := true
  wordSize_eq := .inl rfl
  pageSizeLog_ge := by decide
  pageSizeLog_lt := by decide
  minAlignmentLog_le := by decide
  headersSize_pos := by decide
  headersSize_le := by decide

/-- A mapping that loses pages on both sides. -/
theorem allocate_placed_trimmed :
    Placed word32 (word32.slackSizeOf true 8192) (max (2^16) (1 <<< 3)) (2^20 - 16384)
        (word32.allocate true 8192 (2^16) (2^20 - 16384)) ∧
      2^16 ∣ (word32.allocate true 8192 (2^16) (2^20 - 16384)).allocPos :=
  allocate_placed (by decide) (by decide) (by decide)

/-- The 64-bit platform of a configuration. -/
def ofConfig (cfg : Config) : Platform where
  wordSize := 64
  pageSizeLog := cfg.pageSizeLog
  minAlignmentLog := ScudoMte.minAlignmentLog
  headersSize := Secondary.getHeadersSize
  enableGuardPages := cfg.enableGuardPages
  wordSize_eq := .inr rfl
  pageSizeLog_ge := cfg.pageSizeLog_ge
  pageSizeLog_lt := cfg.pageSizeLog_le.trans_lt (by decide)
  minAlignmentLog_le := by decide
  headersSize_pos := by decide
  headersSize_le := by decide

theorem ofConfig_roundUp (cfg : Config) (x : Nat) {b : Nat} (hb : 0 < b) :
    (ofConfig cfg).roundUp x b = ScudoMte.roundUp x b := by
  have hsum : (ofConfig cfg).sub ((ofConfig cfg).add x b) 1 = (x + b - 1) % 2^64 := by
    change ((x + b) % 2^64 + 2^64 - 1) % 2^64 = _
    omega
  rw [roundUp, hsum]
  rfl

theorem ofConfig_mapSize (cfg : Config) {size k : Nat} (hk : k < 64)
    (h : (ofConfig cfg).mapSizeOf size (2^k) < 2^64) :
    (ofConfig cfg).mapSizeOf size (2^k) =
      Secondary.roundedSize cfg size (2^k) + 2 * Secondary.getGuardPageSize cfg := by
  have hpow := Nat.two_pow_pos k
  have hpage : 0 < cfg.pageSize := Nat.two_pow_pos _
  obtain ⟨hr, -, -⟩ := roundUpSlow_spec size hpow
  obtain ⟨hq, -, -⟩ := roundUpSlow_spec (roundUpSlow size (2^k) + getHeadersSize) hpage
  have hsize : (ofConfig cfg).mapSizeOf size (2^k) =
      roundUpSlow (roundUpSlow size (2^k) + getHeadersSize) cfg.pageSize + (2^k - cfg.pageSize) +
        2 * Secondary.getGuardPageSize cfg := rfl
  rw [hsize] at h ⊢
  have hinner : ScudoMte.roundUp size (2^k) = roundUpSlow size (2^k) := by
    rw [← ofConfig_roundUp cfg size hpow]
    exact @roundUp_eq (ofConfig cfg) _ _ hk (show _ < 2^64 by omega)
  have houter : ScudoMte.roundUp (roundUpSlow size (2^k) + getHeadersSize) cfg.pageSize =
      roundUpSlow (roundUpSlow size (2^k) + getHeadersSize) cfg.pageSize := by
    rw [← ofConfig_roundUp cfg _ hpage]
    exact @roundUp_eq (ofConfig cfg) _ _ (ofConfig cfg).pageSizeLog_lt
      (show roundUpSlow _ cfg.pageSize < 2^64 by omega)
  rw [Secondary.roundedSize, hinner, houter]
  split <;> omega

/-- The block that a 64-bit allocation returns is the one of this arithmetic. -/
theorem allocateFresh_eq_place (cfg : Config) (opts : Options) (s : Secondary) (m : Mem)
    {size k mapBase : Nat} (hk : k < 64) (hbase : cfg.pageSize ∣ mapBase)
    (hend : mapBase + (ofConfig cfg).mapSizeOf size (2^k) < 2^64) :
    (allocateFresh cfg opts s m size (2^k) mapBase).1 =
      (((ofConfig cfg).place size (2^k) mapBase).allocPos - getHeadersSize + largeHeaderSize,
        ((ofConfig cfg).place size (2^k) mapBase).commitBase +
          ((ofConfig cfg).place size (2^k) mapBase).commitSize) := by
  have hmap := ofConfig_mapSize cfg hk (show (ofConfig cfg).mapSizeOf size (2^k) < 2^64 by omega)
  have hguard : (ofConfig cfg).getGuardPageSize = Secondary.getGuardPageSize cfg := rfl
  have hadd : (ofConfig cfg).add mapBase (Secondary.getGuardPageSize cfg) =
      mapBase + Secondary.getGuardPageSize cfg :=
    @add_eq (ofConfig cfg) _ _ (show _ < 2^64 by omega)
  have hmapEnd : (ofConfig cfg).add mapBase ((ofConfig cfg).mapSizeOf size (2^k)) =
      mapBase + (ofConfig cfg).mapSizeOf size (2^k) := add_eq hend
  have hplace : (ofConfig cfg).place size (2^k) mapBase =
      (ofConfig cfg).commit size (2^k) mapBase (mapBase + (ofConfig cfg).mapSizeOf size (2^k))
        (commitBaseOf cfg mapBase (2^k)) [] := by
    rw [place, mapSize_eq hk (show _ < 2^64 by omega), hmapEnd, commitBaseOf]
    by_cases hge : 2^k ≥ cfg.pageSize
    · obtain ⟨hax, hroom⟩ := @alignedPage_spec (ofConfig cfg) size k mapBase hbase hge
      have hcommit := @alignedCommitBase_eq (ofConfig cfg) k mapBase hk
        (show _ < 2^64 by omega) (by omega)
      have hword : ¬ (ofConfig cfg).wordSize = 32 := show ¬ 64 = 32 by decide
      rw [hguard] at hroom
      have hround : ScudoMte.roundUp (mapBase + Secondary.getGuardPageSize cfg + 1) (2^k) =
          roundUpSlow (mapBase + Secondary.getGuardPageSize cfg + 1) (2^k) := by
        rw [← ofConfig_roundUp cfg _ (Nat.two_pow_pos k)]
        exact @roundUp_eq (ofConfig cfg) _ _ hk (show _ < 2^64 by omega)
      rw [if_pos hge, hround]
      simp only
      rw [if_pos (show 2^k ≥ (ofConfig cfg).pageSize from hge),
        if_neg hword, hcommit]
      rfl
    · rw [if_neg hge]
      simp only
      rw [if_neg (show ¬ 2^k ≥ (ofConfig cfg).pageSize from hge), hguard, hadd]
  have hplaced := @place_placed (ofConfig cfg) size k mapBase hk hbase hend
  rw [hplace] at hplaced ⊢
  have hbehind := hplaced.guardBehind
  have huser := hplaced.user
  change commitBaseOf cfg mapBase (2^k) + _ + Secondary.getGuardPageSize cfg =
    mapBase + (ofConfig cfg).mapSizeOf size (2^k) at hbehind
  change _ + size ≤ commitBaseOf cfg mapBase (2^k) + _ at huser
  have hcommit : commitBaseOf cfg mapBase (2^k) + Secondary.getGuardPageSize cfg ≤
      mapBase + (ofConfig cfg).mapSizeOf size (2^k) := by
    omega
  have hsize : size + Secondary.getGuardPageSize cfg ≤
      mapBase + (ofConfig cfg).mapSizeOf size (2^k) := by
    omega
  rw [commit_spec [] hk hend hcommit hsize, allocateFresh, ← hmap]
  simp only [hguard]
  have hend' : commitBaseOf cfg mapBase (2^k) +
      (mapBase + (ofConfig cfg).mapSizeOf size (2^k) - Secondary.getGuardPageSize cfg -
        commitBaseOf cfg mapBase (2^k)) =
      mapBase + (ofConfig cfg).mapSizeOf size (2^k) - Secondary.getGuardPageSize cfg := by
    omega
  rw [hend', ScudoMte.roundDown_eq _ k (by omega) (by omega)]
  rfl

end Platform

end ScudoMte.Secondary
