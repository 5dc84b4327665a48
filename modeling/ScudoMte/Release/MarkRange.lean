import ScudoMte.Release.MarkBlocks

namespace ScudoMte.Release

open BlockGrid

variable {pageSizeLog region : Nat} {c : PageReleaseContext} {m : RegionPageMap}
  {marked : Nat → Finset Nat}

/-- What `markRangeAsAllCounted` can rely on for the range `[lo, hi)` of a region of `n` blocks: it
is made of pages, up to the end of the region, and is on the map; and no block that starts in it or
behind it is marked. -/
structure RangeOnMap (pageSizeLog : Nat) (c : PageReleaseContext) (marked : Nat → Finset Nat)
    (n lo hi : Nat) : Prop where
  blockSize : 0 < c.blockSize
  log : pageSizeLog ≤ 64
  fits : n * c.blockSize + 2^pageSizeLog ≤ 2^64
  hi_le : hi ≤ n * c.blockSize
  hi_aligned : 2^pageSizeLog ∣ hi ∨ hi = n * c.blockSize
  offset_le : c.releasePageOffset * 2^pageSizeLog ≤ lo
  le_end : hi ≤ (c.releasePageOffset + c.pagesCount) * 2^pageSizeLog
  marked_lt : ∀ j < c.pagesCount, ∀ i ∈ marked (c.releasePageOffset + j), i * c.blockSize < lo

/-- A block that starts in `[lo, hi)`, or is behind the last block of the region, which starts
there. -/
def StartsIn (c : PageReleaseContext) (n lo hi i : Nat) : Prop :=
  lo ≤ i * c.blockSize ∧
    (i * c.blockSize < hi ∨ n ≤ i ∧ n ≤ (hi + c.blockSize - 1) / c.blockSize)

/-- The page of an address in front of the range's end is on the map. -/
theorem RangeOnMap.page {n lo hi x : Nat} (h : RangeOnMap pageSizeLog c marked n lo hi)
    (hlo : lo ≤ x) (hhi : x < hi) :
    ∃ i < c.pagesCount, x / 2^pageSizeLog = c.releasePageOffset + i := by
  have hpos := Nat.two_pow_pos pageSizeLog
  have hge : c.releasePageOffset ≤ x / 2^pageSizeLog :=
    (Nat.le_div_iff_mul_le hpos).mpr (h.offset_le.trans hlo)
  have hlt : x / 2^pageSizeLog < c.releasePageOffset + c.pagesCount :=
    (Nat.div_lt_iff_lt_mul hpos).mpr (lt_of_lt_of_le hhi h.le_end)
  exact ⟨x / 2^pageSizeLog - c.releasePageOffset, by omega, by omega⟩

/-- The range goes on at page `q`, and all marks on the first page are of blocks of the range. -/
theorem Marks.markFirstPage {n lo hi b : Nat} (h : Marks pageSizeLog c region m marked)
    (hr : RangeOnMap pageSizeLog c marked n lo hi) (hlo : lo ≤ b * c.blockSize)
    (hhi : b * c.blockSize < hi) :
    ∃ q m' marked', c.markFirstPage pageSizeLog m region (b * c.blockSize) =
        some (q * 2^pageSizeLog, m') ∧
      b * c.blockSize ≤ q * 2^pageSizeLog ∧ Marks pageSizeLog c region m' marked' ∧
      ∀ j, ∀ i ∈ marked' j, i ∈ marked j ∨
        b ≤ i ∧ j = b * c.blockSize / 2^pageSizeLog ∧
          i ∈ blocksOn c.blockSize (2^pageSizeLog) j := by
  have hb := hr.blockSize
  have hpos := Nat.two_pow_pos pageSizeLog
  have hbound := hr.hi_le.trans (Nat.le_sub_of_add_le hr.fits)
  obtain ⟨i, hi', hpage⟩ := hr.page hlo hhi
  obtain ⟨hdiv, hdiv'⟩ := Word.div_mul_le_lt (b * c.blockSize) (2^pageSizeLog) hpos
  rw [PageReleaseContext.markFirstPage, roundDown_eq _ _ (by omega) hr.log]
  simp only [hpage] at hdiv hdiv' ⊢
  split
  · next hne =>
    have hsucc : (c.releasePageOffset + i + 1) * 2^pageSizeLog =
        (c.releasePageOffset + i) * 2^pageSizeLog + 2^pageSizeLog := Nat.succ_mul _ _
    -- the blocks from `b` on that start on its page
    have hnum : ((c.releasePageOffset + i) * 2^pageSizeLog + 2^pageSizeLog - b * c.blockSize +
        c.blockSize - 1) / c.blockSize =
        ((blocksOn c.blockSize (2^pageSizeLog) (c.releasePageOffset + i)).filter (b ≤ ·)).card := by
      obtain ⟨hceil, hceil'⟩ := ceil_spec hb
        ((c.releasePageOffset + i) * 2^pageSizeLog + 2^pageSizeLog - b * c.blockSize)
      generalize ((c.releasePageOffset + i) * 2^pageSizeLog + 2^pageSizeLog - b * c.blockSize +
        c.blockSize - 1) / c.blockSize = y at *
      have hmul : (b + y) * c.blockSize = b * c.blockSize + y * c.blockSize := Nat.add_mul _ _ _
      have hend := startOn_eq (p := 2^pageSizeLog) hb (j := c.releasePageOffset + i + 1)
        (i := b + y) (by omega) (by omega)
      rw [filter_le_eq_Ico hb hdiv, Nat.card_Ico, hend]
      omega
    have hmem : b ∈ (blocksOn c.blockSize (2^pageSizeLog) (c.releasePageOffset + i)).filter
        (b ≤ ·) := by
      refine Finset.mem_filter.mpr ⟨(mem_blocksOn hb).mpr ⟨by omega, ?_⟩, le_rfl⟩
      rw [Nat.succ_mul]
      omega
    obtain ⟨m', hm', hmarks⟩ := h.incN hi' ⟨b, hmem⟩ (Finset.filter_subset _ _) (by
      rw [Finset.disjoint_left]
      intro x hx hx'
      have hlt := hr.marked_lt i hi' x hx
      have hle := Nat.mul_le_mul_right c.blockSize (Finset.mem_filter.mp hx').2
      omega)
    have hidx : c.getPageIndex pageSizeLog ((c.releasePageOffset + i) * 2^pageSizeLog) = i := by
      rw [getPageIndex_eq (by omega) (by rw [Nat.mul_div_cancel _ hpos]; omega),
        Nat.mul_div_cancel _ hpos, Nat.add_sub_cancel_left]
    have hround : roundUp ((c.releasePageOffset + i) * 2^pageSizeLog + 1) (2^pageSizeLog) =
        (c.releasePageOffset + i + 1) * 2^pageSizeLog := by
      rw [roundUp_eq _ _ hr.log (by omega)]
      congr 1
      rw [show (c.releasePageOffset + i) * 2^pageSizeLog + 1 + 2^pageSizeLog - 1 =
        (c.releasePageOffset + i + 1) * 2^pageSizeLog by omega, Nat.mul_div_cancel _ hpos]
    refine ⟨c.releasePageOffset + i + 1, m', _, ?_, by omega, hmarks, ?_⟩
    · rw [hidx, hnum, hm', hround]
      rfl
    · intro j x hx
      by_cases hj : j = c.releasePageOffset + i
      · subst hj
        rw [Function.update_self, Finset.mem_union, Finset.mem_filter] at hx
        rcases hx with hold | ⟨hon, hle⟩
        · exact .inl hold
        · exact .inr ⟨hle, rfl, hon⟩
      · rw [Function.update_of_ne hj] at hx
        exact .inl hx
  · next heq =>
    exact ⟨c.releasePageOffset + i, m, marked, rfl, (not_not.mp heq).le, h, fun _ _ => .inl⟩

/-- The range ends where its last block does, if that is the last of the region; else the block
is counted on the pages behind the range. -/
theorem Marks.markLastBlock {n lo hi : Nat} {marked' : Nat → Finset Nat}
    (h : Marks pageSizeLog c region m marked')
    (hr : RangeOnMap pageSizeLog c marked n lo hi) (hlt : lo < hi)
    (hnew : ∀ i < c.pagesCount, hi ≤ (c.releasePageOffset + i) * 2^pageSizeLog →
      (hi - 1) / c.blockSize ∉ marked' (c.releasePageOffset + i)) :
    ∃ t m' marked'', c.markLastBlock pageSizeLog m hi region (n * c.blockSize) = some (t, m') ∧
      (t = hi ∧ 2^pageSizeLog ∣ hi ∨ t = n * c.blockSize ∧ n = (hi - 1) / c.blockSize + 1) ∧
      Marks pageSizeLog c region m' marked'' ∧
      ∀ j, ∀ i ∈ marked'' j, i ∈ marked' j ∨ i = (hi - 1) / c.blockSize := by
  have hb := hr.blockSize
  have hpos := Nat.two_pow_pos pageSizeLog
  have hbound := hr.hi_le.trans (Nat.le_sub_of_add_le hr.fits)
  obtain ⟨hdiv, hdiv'⟩ := Word.div_mul_le_lt (hi - 1) c.blockSize hb
  rw [PageReleaseContext.markLastBlock, roundDownSlow]
  generalize hlast : (hi - 1) / c.blockSize = last at *
  have hsucc : (last+1) * c.blockSize = last * c.blockSize + c.blockSize := Nat.succ_mul _ _
  -- only the last block of the region ends with it
  have hend : last * c.blockSize + c.blockSize ≠ n * c.blockSize → hi ≠ n * c.blockSize := by
    rintro hne rfl
    have hn : last < n := Nat.lt_of_mul_lt_mul_right (a := c.blockSize) (by omega)
    have hle := Nat.mul_le_mul_right c.blockSize (Nat.succ_le_of_lt hn)
    rw [Nat.succ_eq_add_one] at hle
    omega
  split
  · next hne =>
    have haligned := hr.hi_aligned.resolve_right (hend hne)
    split
    · next hcross =>
      have hpage : hi / 2^pageSizeLog * 2^pageSizeLog = hi := Nat.div_mul_cancel haligned
      have hge : c.releasePageOffset ≤ hi / 2^pageSizeLog :=
        (Nat.le_div_iff_mul_le hpos).mpr (hr.offset_le.trans hlt.le)
      have hle : hi / 2^pageSizeLog ≤ (last * c.blockSize + c.blockSize - 1) / 2^pageSizeLog :=
        Nat.div_le_div_right (by omega)
      have hfits := hr.fits
      have hlastn : (last+1) * c.blockSize ≤ n * c.blockSize := by
        apply Nat.mul_le_mul_right
        exact Nat.lt_of_mul_lt_mul_right (a := c.blockSize)
          (show last * c.blockSize < n * c.blockSize by have := hr.hi_le; omega)
      rw [getPageIndex_eq (by omega) hge, getPageIndex_eq (by omega) (hge.trans hle)]
      obtain ⟨m', hm', hmarks⟩ := h.incRange (n := last)
        (Nat.sub_le_sub_right hle c.releasePageOffset) (by
          intro i hlo hhi hi'
          have hfrom : hi / 2^pageSizeLog ≤ c.releasePageOffset + i := by omega
          have hmul := Nat.mul_le_mul_right (2^pageSizeLog) hfrom
          refine ⟨(mem_blocksOn_iff_page hb).mpr ⟨?_, by omega⟩, hnew i hi' (by omega)⟩
          exact (Nat.div_le_div_right (by omega)).trans hfrom)
      refine ⟨hi, m', _, by rw [hm']; rfl, .inl ⟨rfl, haligned⟩, hmarks, ?_⟩
      intro j x hx
      split at hx
      · rcases Finset.mem_insert.mp hx with heq | hold
        · exact .inr heq
        · exact .inl hold
      · exact .inl hx
    · exact ⟨hi, m, marked', rfl, .inl ⟨rfl, haligned⟩, h, fun _ _ => .inl⟩
  · next heq =>
    refine ⟨_, m, marked', rfl, .inr ⟨rfl, ?_⟩, h, fun _ _ => .inl⟩
    rw [not_not, ← hsucc] at heq
    exact (Nat.eq_of_mul_eq_mul_right hb heq).symm

/-- Marking a range marks blocks that start in it only. -/
theorem Marks.markRange {n lo hi : Nat} (h : Marks pageSizeLog c region m marked)
    (hr : RangeOnMap pageSizeLog c marked n lo hi) :
    ∃ m' marked', c.markRange pageSizeLog m lo hi region (n * c.blockSize) = some m' ∧
      Marks pageSizeLog c region m' marked' ∧
      ∀ j < c.pagesCount, ∀ i ∈ marked' (c.releasePageOffset + j),
        i ∈ marked (c.releasePageOffset + j) ∨ StartsIn c n lo hi i := by
  have hb := hr.blockSize
  have hpos := Nat.two_pow_pos pageSizeLog
  have hbound := hr.hi_le.trans (Nat.le_sub_of_add_le hr.fits)
  rw [PageReleaseContext.markRange, roundUpSlow]
  obtain ⟨hlo, -⟩ := ceil_spec hb lo
  generalize (lo + c.blockSize - 1) / c.blockSize = b at *
  split
  · exact ⟨m, marked, rfl, h, fun _ _ _ => .inl⟩
  · next hlt =>
    have hfirst := not_le.mp hlt
    obtain ⟨q, m1, marked1, hm1, hq, hmarks1, hsub1⟩ := h.markFirstPage hr hlo hfirst
    obtain ⟨hdiv, hdiv'⟩ := Word.div_mul_le_lt (hi - 1) c.blockSize hb
    have hlastle : b ≤ (hi - 1) / c.blockSize := (Nat.le_div_iff_mul_le hb).mpr (by omega)
    -- a block on the page of the first block starts before the end of the range
    have hstart (i j : Nat) (hle : b ≤ i) (hi' : i * c.blockSize < (j+1) * 2^pageSizeLog)
        (hj : j * 2^pageSizeLog < hi) : StartsIn c n lo hi i := by
      refine ⟨hlo.trans (Nat.mul_le_mul_right _ hle), ?_⟩
      rcases hr.hi_aligned with ⟨x, hx⟩ | rfl
      · rw [Nat.mul_comm] at hx
        rw [hx] at hj ⊢
        have hle' := Nat.mul_le_mul_right (2^pageSizeLog)
          (Nat.succ_le_of_lt (Nat.lt_of_mul_lt_mul_right hj))
        exact .inl (lt_of_lt_of_le hi' hle')
      · rcases Nat.lt_or_ge i n with hn | hn
        · exact .inl (Nat.mul_lt_mul_of_pos_right hn hb)
        · exact .inr ⟨hn, (ceil_eq hb le_rfl (by omega)).ge⟩
    obtain ⟨t, m2, marked2, hm2, ht, hmarks2, hsub2⟩ := hmarks1.markLastBlock hr
      (lt_of_le_of_lt hlo hfirst) (by
        intro i hi' hge hmem
        rcases hsub1 _ _ hmem with hold | ⟨-, hj, -⟩
        · have hold' := hr.marked_lt i hi' _ hold
          have hmul := Nat.mul_le_mul_right c.blockSize hlastle
          omega
        · rw [hj] at hge
          have hmul := Nat.div_mul_le_self (b * c.blockSize) (2^pageSizeLog)
          omega)
    have hsub (j : Nat) (i : Nat) (hmem : i ∈ marked2 j) : i ∈ marked j ∨ StartsIn c n lo hi i := by
      rcases hsub2 j i hmem with hmem1 | rfl
      · rcases hsub1 j i hmem1 with hold | ⟨hle, rfl, hon⟩
        · exact .inl hold
        · have hmul := Nat.div_mul_le_self (b * c.blockSize) (2^pageSizeLog)
          exact .inr (hstart i _ hle ((mem_blocksOn hb).mp hon).1 (by omega))
      · exact .inr ⟨hlo.trans (Nat.mul_le_mul_right _ hlastle), .inl (by omega)⟩
    simp only [hm1, hm2, Option.bind_eq_bind, Option.bind_some]
    split
    · next hqt =>
      have hfits := hr.fits
      have htbound : t ≤ n * c.blockSize := by
        rcases ht with ⟨rfl, -⟩ | ⟨rfl, -⟩
        · exact hr.hi_le
        · exact le_rfl
      have hoff : c.releasePageOffset ≤ q := by
        apply Nat.le_of_mul_le_mul_right _ hpos
        exact (hr.offset_le.trans hlo).trans hq
      have hqle : q ≤ (t-1) / 2^pageSizeLog := (Nat.le_div_iff_mul_le hpos).mpr (by omega)
      rw [getPageIndex_eq (by omega) (by rw [Nat.mul_div_cancel _ hpos]; exact hoff),
        Nat.mul_div_cancel _ hpos, getPageIndex_eq (by omega) (hoff.trans hqle)]
      obtain ⟨m3, hm3, hmarks3⟩ := hmarks2.setAsAllCountedRange
        (Nat.sub_le_sub_right hqle c.releasePageOffset)
      refine ⟨m3, _, hm3, hmarks3, ?_⟩
      intro j hj i hmem
      split at hmem
      · next hin =>
        obtain ⟨hover, hover'⟩ := (mem_blocksOn hb).mp hmem
        have hqj := Nat.mul_le_mul_right (2^pageSizeLog)
          (show q ≤ c.releasePageOffset + j by omega)
        have hle : b ≤ i := by
          apply Nat.le_of_lt_succ
          apply Nat.lt_of_mul_lt_mul_right (a := c.blockSize)
          rw [Nat.succ_eq_add_one]
          omega
        have hjt : (c.releasePageOffset + j) * 2^pageSizeLog < t := by
          have hmul := Nat.mul_le_mul_right (2^pageSizeLog)
            (show c.releasePageOffset + j ≤ (t-1) / 2^pageSizeLog by omega)
          have hself := Nat.div_mul_le_self (t-1) (2^pageSizeLog)
          omega
        rcases ht with ⟨rfl, -⟩ | ⟨rfl, hn⟩
        · exact .inr (hstart i _ hle hover hjt)
        · refine .inr ⟨hlo.trans (Nat.mul_le_mul_right _ hle), ?_⟩
          rcases Nat.lt_or_ge i n with hin' | hin'
          · have hmul := Nat.mul_le_mul_right c.blockSize
              (show i ≤ (hi - 1) / c.blockSize by omega)
            exact .inl (by omega)
          · refine .inr ⟨hin', ?_⟩
            rw [hn]
            exact (lt_ceil_iff hb).mpr (by omega)
      · exact hsub _ i hmem
    · exact ⟨m2, marked2, rfl, hmarks2, fun j _ i hmem => hsub _ i hmem⟩

end ScudoMte.Release
