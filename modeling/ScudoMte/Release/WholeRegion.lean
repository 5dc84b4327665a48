import ScudoMte.Release.MarkBlocks

namespace ScudoMte.Release

open BlockGrid

theorem MaximalRanges.congr {p n : Nat} {released released' : Nat → Prop}
    {ranges : List (Nat × Nat)} (h : MaximalRanges p n released ranges)
    (heq : ∀ j < n, released' j ↔ released j) : MaximalRanges p n released' ranges where
  aligned := h.aligned
  separated := h.separated
  covered j := by
    rw [h.covered j]
    exact and_congr_right fun hj => (heq j hj).symm

variable {pageSizeLog region : Nat} {c : PageReleaseContext} {m : RegionPageMap}
  {marked : Nat → Finset Nat}

/-- The page map does not matter to what is marked. -/
theorem Marks.withMap (h : Marks pageSizeLog c region m marked) (map : Option RegionPageMap) :
    Marks pageSizeLog { c with pageMap := map } region m marked :=
  ⟨h.wellFormed, h.region_lt, h.numCounters, h.card_le, h.subset, h.counted⟩

/-- Nothing is marked in a new page map. -/
theorem marks_reset {blockSize numberOfRegions releaseSize releaseOffset : Nat}
    (hb : 0 < blockSize) (hlog : pageSizeLog < 64) (hregions : 0 < numberOfRegions)
    (hc : c = .new pageSizeLog blockSize numberOfRegions releaseSize releaseOffset)
    (hcount : c.pagesCount + 64 ≤ 2^64) :
    Marks pageSizeLog c 0
      (.reset c.numberOfRegions c.pagesCount c.fullPagesBlockCountMax) fun _ => ∅ := by
  subst hc
  obtain ⟨hpos, hmax⟩ := blockCountPerPage_bounds hb hlog
  have hratio := RegionPageMap.reset_packingRatio_le numberOfRegions
    (PageReleaseContext.new pageSizeLog blockSize numberOfRegions releaseSize
      releaseOffset).pagesCount hpos hmax
  obtain ⟨hwf, hmask⟩ := RegionPageMap.reset_wellFormed hpos hmax
    ((Nat.add_le_add_left hratio _).trans hcount)
  exact ⟨hwf, hregions, rfl, fun j => (blockCountPerPage_le hb j).trans hmask,
    fun _ _ => Finset.empty_subset _, fun _ _ => .inl (RegionPageMap.reset_get _ _ _ _ _)⟩

/-- The marks after `markFreeBlocksInRegion`: the blocks of the free list, with the "pretend" ones
behind the `n` blocks of the region if it may hold the last. -/
def freeMarks (pageSizeLog : Nat) (c : PageReleaseContext) (marked : Nat → Finset Nat) (n : Nat)
    (last : Bool) (l : List Nat) : Nat → Finset Nat :=
  addBlocks pageSizeLog c (if last then addBlocks pageSizeLog c marked (n ≤ ·) else marked) (· ∈ l)

/-- What `markFreeBlocksInRegion` can rely on: the free list holds the blocks `l`, each new to the
map and starting on one of its pages, in a region of `n` blocks that reaches up to the map's end. -/
structure FreeBlocks {κ : Type*} (pageSizeLog : Nat) (c : PageReleaseContext)
    (marked : Nat → Finset Nat) (freeList : List (List κ)) (decompactPtr : κ → Nat) (base n : Nat)
    (last : Bool) (l : List Nat) : Prop where
  blockSize : 0 < c.blockSize
  blocks : 0 < n
  list : freeList.flatten.map (fun ptr => decompactPtr ptr - base) = l.map (· * c.blockSize)
  nodup : l.Nodup
  lt : ∀ i ∈ l, i < n
  log : pageSizeLog ≤ 64
  fits : n * c.blockSize + 2^pageSizeLog ≤ 2^64
  pages : ∀ i < c.pagesCount, (c.releasePageOffset + i) * 2^pageSizeLog < n * c.blockSize
  lastPage : last → n * c.blockSize % 2^pageSizeLog ≠ 0 →
    c.releasePageOffset ≤ n * c.blockSize / 2^pageSizeLog ∧
      n * c.blockSize / 2^pageSizeLog < c.releasePageOffset + c.pagesCount
  first_ge : ∀ i ∈ l, c.releasePageOffset ≤ i * c.blockSize / 2^pageSizeLog
  first_lt : ∀ i ∈ l, i * c.blockSize / 2^pageSizeLog < c.releasePageOffset + c.pagesCount
  marked_lt : ∀ j < c.pagesCount, ∀ x ∈ marked (c.releasePageOffset + j), x < n
  new : ∀ i ∈ l, ∀ j < c.pagesCount, i ∉ marked (c.releasePageOffset + j)

theorem Marks.markFreeBlocksInRegion {κ : Type*} {freeList : List (List κ)}
    {decompactPtr : κ → Nat} {base n : Nat} {l : List Nat} {last : Bool}
    (h : Marks pageSizeLog c region m marked) (hmap : c.pageMap = some m)
    (hf : FreeBlocks pageSizeLog c marked freeList decompactPtr base n last l) (mapped : Bool) :
    ∃ m', c.markFreeBlocksInRegion pageSizeLog mapped freeList decompactPtr base region
        (n * c.blockSize) last = some { c with pageMap := some m' } ∧
      Marks pageSizeLog c region m' (freeMarks pageSizeLog c marked n last l) := by
  have hensure : c.ensurePageMapAllocated mapped = c := by
    rw [PageReleaseContext.ensurePageMapAllocated, if_pos (.inl (by rw [hmap]; rfl))]
  obtain ⟨m', hm', hmarks⟩ : ∃ m', (if last then
      c.markTrailingBlocks pageSizeLog m region (n * c.blockSize) else some m) = some m' ∧
      Marks pageSizeLog c region m'
        (if last then addBlocks pageSizeLog c marked (n ≤ ·) else marked) := by
    cases last with
    | false => exact ⟨m, rfl, h⟩
    | true =>
      exact h.markTrailingBlocks hf.blockSize hf.blocks hf.log hf.fits hf.pages (hf.lastPage rfl)
        hf.marked_lt
  -- no trailing block is in the free list
  have hnew : ∀ i ∈ l, ∀ j < c.pagesCount, i ∉ (if last then
      addBlocks pageSizeLog c marked (n ≤ ·) else marked) (c.releasePageOffset + j) := by
    intro i hi j hj
    split
    · intro hmem
      rcases Finset.mem_union.mp hmem with hold | htrail
      · exact hf.new i hi j hj hold
      · exact absurd (Finset.mem_filter.mp htrail).2 (not_le.mpr (hf.lt i hi))
    · exact hf.new i hi j hj
  have hfits (i : Nat) (hi : i ∈ l) : i * c.blockSize + c.blockSize ≤ 2^64 := by
    have hmul := Nat.mul_le_mul_right c.blockSize (Nat.succ_le_of_lt (hf.lt i hi))
    have hbound := hf.fits
    have hpos := Nat.two_pow_pos pageSizeLog
    rw [Nat.succ_mul] at hmul
    omega
  obtain ⟨m'', hm'', hmarks'⟩ := hmarks.markBlocks hf.blockSize hf.nodup hfits hf.first_ge
    hf.first_lt hnew
  have hfold (m0 : RegionPageMap) : freeList.foldlM (fun m batch => batch.foldlM (fun m ptr =>
      c.markBlock pageSizeLog region m (decompactPtr ptr - base)) m) m0 =
      l.foldlM (fun m n => c.markBlock pageSizeLog region m (n * c.blockSize)) m0 := by
    rw [foldlM_flatten, ← List.foldlM_map (f := fun ptr => decompactPtr ptr - base)
      (g := fun m p => c.markBlock pageSizeLog region m p), hf.list, List.foldlM_map]
  refine ⟨m'', ?_, hmarks'⟩
  rw [PageReleaseContext.markFreeBlocksInRegion, hensure, hmap]
  simp only [hfold, Option.bind_eq_bind]
  cases last with
  | false =>
    cases hm'
    simp only [Bool.false_eq_true, if_false, hm'', Option.bind_some]
  | true =>
    simp only [if_true] at hm' ⊢
    simp only [hm', hm'', Option.bind_some]

theorem ensurePageMapAllocated_idem (mapped : Bool) :
    (c.ensurePageMapAllocated mapped).ensurePageMapAllocated mapped =
      c.ensurePageMapAllocated mapped := by
  by_cases hmap : c.pageMap.isSome ∨ !mapped
  · have hc : c.ensurePageMapAllocated mapped = c := if_pos hmap
    rw [hc, hc]
  · rw [PageReleaseContext.ensurePageMapAllocated, PageReleaseContext.ensurePageMapAllocated,
      if_neg hmap, if_pos (.inl rfl)]

/-- Marking starts with the allocation of the page map. -/
theorem markFreeBlocksInRegion_ensure {κ : Type*} (freeList : List (List κ))
    (decompactPtr : κ → Nat) (base regionSize : Nat) (last mapped : Bool) :
    c.markFreeBlocksInRegion pageSizeLog mapped freeList decompactPtr base region regionSize last =
      (c.ensurePageMapAllocated mapped).markFreeBlocksInRegion pageSizeLog mapped freeList
        decompactPtr base region regionSize last := by
  rw [PageReleaseContext.markFreeBlocksInRegion, PageReleaseContext.markFreeBlocksInRegion,
    ensurePageMapAllocated_idem]

/-- The pages of a size, the last of them partly used. -/
theorem pagesCount_new {size : Nat} (hlog : pageSizeLog ≤ 64) (hfit : size + 2^pageSizeLog ≤ 2^64)
    (blockSize numberOfRegions releaseOffset : Nat) :
    (PageReleaseContext.new pageSizeLog blockSize numberOfRegions size releaseOffset).pagesCount =
      (size + 2^pageSizeLog - 1) / 2^pageSizeLog := by
  rw [PageReleaseContext.new]
  simp only []
  rw [roundUp_eq size pageSizeLog hlog hfit, Nat.shiftRight_eq_div_pow,
    Nat.mul_div_cancel _ (Nat.two_pow_pos _)]

/-- In a region of `n` blocks, a page is released exactly when all blocks that overlap it are in
the free list, whatever the order of the list and its batches. -/
theorem releaseFreeMemoryToOS_exact {κ : Type*} {blockSize n base : Nat}
    {freeList : List (List κ)} {decompactPtr : κ → Nat} (hb : 0 < blockSize) (hn : 0 < n)
    (hfit : n*blockSize + 2^pageSizeLog + 64 ≤ 2^64)
    (hnodup : (freeList.flatten.map decompactPtr).Nodup)
    (hblock : ∀ ptr ∈ freeList.flatten, ∃ i < n, decompactPtr ptr = base + i*blockSize) :
    ∃ c c' ranges,
      (PageReleaseContext.new pageSizeLog blockSize 1 (n*blockSize) 0).markFreeBlocksInRegion
        pageSizeLog true freeList decompactPtr base 0 (n*blockSize) true = some c ∧
      c.releaseFreeMemoryToOS pageSizeLog (fun _ => false) = some (c', ranges) ∧
      MaximalRanges (2^pageSizeLog) ((n*blockSize + 2^pageSizeLog - 1) / 2^pageSizeLog)
        (fun j => ∀ i < n, Overlaps blockSize (2^pageSizeLog) i j →
          ∃ ptr ∈ freeList.flatten, decompactPtr ptr = base + i*blockSize) ranges := by
  have hpos := Nat.two_pow_pos pageSizeLog
  have hmul : blockSize ≤ n*blockSize := Nat.le_mul_of_pos_left _ hn
  have hlog : pageSizeLog < 64 := (Nat.pow_lt_pow_iff_right (by decide : 1 < 2)).mp (by omega)
  generalize hc0 : PageReleaseContext.new pageSizeLog blockSize 1 (n*blockSize) 0 = c0
  have hcount : c0.pagesCount = (n*blockSize + 2^pageSizeLog - 1) / 2^pageSizeLog := by
    rw [← hc0]
    exact pagesCount_new hlog.le (by omega) _ _ _
  have hsize : c0.blockSize = blockSize := by rw [← hc0]; rfl
  have hoff : c0.releasePageOffset = 0 := by
    rw [← hc0]
    exact Nat.zero_shiftRight _
  have hceil := ceil_spec hpos (n*blockSize)
  rw [← hcount] at hceil
  have hpages : c0.pagesCount ≤ c0.pagesCount * 2^pageSizeLog := Nat.le_mul_of_pos_right _ hpos
  have hmarks := (marks_reset hb hlog (by decide) hc0.symm (by omega)).withMap
    (some (.reset c0.numberOfRegions c0.pagesCount c0.fullPagesBlockCountMax))
  rw [markFreeBlocksInRegion_ensure, show c0.ensurePageMapAllocated true = { c0 with
    pageMap := some (.reset c0.numberOfRegions c0.pagesCount c0.fullPagesBlockCountMax) } by
      rw [← hc0]; rfl]
  generalize hc : ({ c0 with pageMap := some (.reset c0.numberOfRegions c0.pagesCount
    c0.fullPagesBlockCountMax) } : PageReleaseContext) = c at hmarks ⊢
  replace hsize : c.blockSize = blockSize := by rw [← hc]; exact hsize
  replace hoff : c.releasePageOffset = 0 := by rw [← hc]; exact hoff
  replace hcount : c.pagesCount = (n*blockSize + 2^pageSizeLog - 1) / 2^pageSizeLog := by
    rw [← hc]; exact hcount
  obtain ⟨l, hlist, hnodup', hln, hmem, -⟩ := exists_blockNumbers hb hnodup hblock
  have hpage (i : Nat) : i < c.pagesCount ↔ i * 2^pageSizeLog < n*blockSize := by
    rw [hcount]
    exact lt_ceil_iff hpos
  have hdiv (x : Nat) (hx : x < n*blockSize) : x / 2^pageSizeLog < c.pagesCount :=
    (hpage _).mpr (lt_of_le_of_lt (Nat.div_mul_le_self _ _) hx)
  have hfree : FreeBlocks pageSizeLog c (fun _ => ∅) freeList decompactPtr base n true l := by
    constructor
    case blockSize => rwa [hsize]
    case blocks => exact hn
    case list => rwa [hsize]
    case nodup => exact hnodup'
    case lt => exact hln
    case log => exact hlog.le
    case fits =>
      rw [hsize]
      omega
    case pages =>
      intro i hi
      rw [hoff, hsize, Nat.zero_add]
      exact (hpage i).mp hi
    case lastPage =>
      intro _ hmod
      rw [hsize] at hmod ⊢
      rw [hoff, Nat.zero_add]
      have hdm := Nat.div_add_mod (n*blockSize) (2^pageSizeLog)
      rw [Nat.mul_comm (2^pageSizeLog)] at hdm
      exact ⟨Nat.zero_le _, (hpage _).mpr (by omega)⟩
    case first_ge =>
      intro i _
      rw [hoff]
      exact Nat.zero_le _
    case first_lt =>
      intro i hi
      rw [hoff, hsize, Nat.zero_add]
      exact hdiv _ (Nat.mul_lt_mul_of_pos_right (hln i hi) hb)
    case marked_lt => exact fun _ _ x hx => absurd hx (Finset.notMem_empty x)
    case new => exact fun i _ _ _ => Finset.notMem_empty i
  obtain ⟨m', hm', hmarks'⟩ := hmarks.markFreeBlocksInRegion (by rw [← hc]) hfree true
  have hcounts := @countsBlocks_new pageSizeLog _ hb 1 (n*blockSize) 0
  rw [hc0] at hcounts
  obtain ⟨c', ranges, hrel, hranges⟩ := (hmarks'.withMap (some m')).releaseFreeMemoryToOS
    (by rw [← hc]; exact ⟨hcounts.blockSize, hcounts.same⟩) (by rw [← hc, ← hc0]; rfl) rfl
  refine ⟨_, c', ranges, ?_, hrel, ?_⟩
  · rw [← hm', hsize]
  rw [← hcount]
  refine hranges.congr fun j _ => ?_
  simp only [freeMarks, addBlocks, if_true, hoff, Nat.zero_add, hsize, Finset.empty_union]
  constructor
  · intro hall
    ext i
    rw [Finset.mem_union, Finset.mem_filter, Finset.mem_filter]
    constructor
    · rintro (⟨hi, -⟩ | ⟨hi, -⟩) <;> exact hi
    · intro hi
      rcases Nat.lt_or_ge i n with hlt | hge
      · exact .inr ⟨hi, (hmem i).mpr (hall i hlt ((mem_blocksOn hb).mp hi))⟩
      · exact .inl ⟨hi, hge⟩
  · intro heq i hi hover
    have hmem' := (mem_blocksOn hb).mpr hover
    rw [← heq, Finset.mem_union, Finset.mem_filter, Finset.mem_filter] at hmem'
    rcases hmem' with ⟨-, hge⟩ | ⟨-, hfree'⟩
    · exact absurd hi (not_lt.mpr hge)
    · exact (hmem i).mp hfree'

/-- Seven blocks of 5 bytes on pages of 16 bytes, five of them free. -/
theorem releaseFreeMemoryToOS_exact_straddling :
    let freeList := [[1000, 1005], [1010, 1015, 1030]]
    ∃ c c' ranges,
      (PageReleaseContext.new 4 5 1 (7*5) 0).markFreeBlocksInRegion
        4 true freeList id 1000 0 (7*5) true = some c ∧
      c.releaseFreeMemoryToOS 4 (fun _ => false) = some (c', ranges) ∧
      MaximalRanges (2^4) ((7*5 + 2^4 - 1) / 2^4) (fun j => ∀ i < 7, Overlaps 5 (2^4) i j →
        ∃ ptr ∈ freeList.flatten, id ptr = 1000 + i*5) ranges := by
  intro freeList
  have hblock : ∀ ptr ∈ freeList.flatten, (ptr - 1000)/5 < 7 ∧ id ptr = 1000 + (ptr - 1000)/5*5 := by
    decide
  exact releaseFreeMemoryToOS_exact (by decide) (by decide) (by decide) (by decide)
    fun ptr hptr => ⟨(ptr - 1000)/5, hblock ptr hptr⟩

end ScudoMte.Release
