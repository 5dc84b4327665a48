import ScudoMte.Release.Marks

namespace ScudoMte.Release

open BlockGrid

theorem blockCountPerPage_le {pageSizeLog blockSize : Nat} (hb : 0 < blockSize) (j : Nat) :
    (blocksOn blockSize (2^pageSizeLog) j).card ≤
      (PageReleaseContext.blockCountPerPage pageSizeLog blockSize).1 := by
  rw [PageReleaseContext.blockCountPerPage]
  split
  · split
    · next hd => exact (card_blocksOn_of_dvd hb hd j).le
    · split
      · next hr hd => exact (card_blocksOn_of_mod_dvd hb hr hd j).le
      · exact card_blocksOn_le hb j
  · next hlt =>
    split
    · next hd =>
      rw [Nat.and_two_pow_sub_one_eq_mod] at hd
      exact (card_blocksOn_of_multiple hb hd j).le
    · have hle := card_blocksOn_le (p := 2^pageSizeLog) hb j
      rw [Nat.div_eq_of_lt (not_le.mp hlt)] at hle
      exact hle

/-- Where the context says so, all pages have the same number of blocks. -/
theorem blockCountPerPage_eq {pageSizeLog blockSize : Nat} (hb : 0 < blockSize)
    (hsame : (PageReleaseContext.blockCountPerPage pageSizeLog blockSize).2 = true) (j : Nat) :
    (blocksOn blockSize (2^pageSizeLog) j).card =
      (PageReleaseContext.blockCountPerPage pageSizeLog blockSize).1 := by
  rw [PageReleaseContext.blockCountPerPage] at hsame ⊢
  split at hsame
  · next hle =>
    rw [if_pos hle]
    split at hsame
    · next hd =>
      rw [if_pos hd]
      exact card_blocksOn_of_dvd hb hd j
    · next hr =>
      split at hsame
      · next hd =>
        rw [if_neg hr, if_pos hd]
        exact card_blocksOn_of_mod_dvd hb hr hd j
      · exact absurd hsame Bool.false_ne_true
  · next hlt =>
    rw [if_neg hlt]
    split at hsame
    · next hd =>
      rw [if_pos hd]
      rw [Nat.and_two_pow_sub_one_eq_mod] at hd
      exact card_blocksOn_of_multiple hb hd j
    · exact absurd hsame Bool.false_ne_true

theorem blockCountPerPage_bounds {pageSizeLog blockSize : Nat} (hb : 0 < blockSize)
    (hlog : pageSizeLog < 64) :
    0 < (PageReleaseContext.blockCountPerPage pageSizeLog blockSize).1 ∧
      (PageReleaseContext.blockCountPerPage pageSizeLog blockSize).1 < 2^64 := by
  have hp : 2^pageSizeLog ≤ 2^63 := Nat.pow_le_pow_right (by decide) (by omega)
  have hdiv : 2^pageSizeLog / blockSize ≤ 2^pageSizeLog := Nat.div_le_self _ _
  rw [PageReleaseContext.blockCountPerPage]
  split
  · next hle =>
    have hpos := Nat.div_pos hle hb
    split
    · exact ⟨hpos, by omega⟩
    · split <;> exact ⟨by omega, by omega⟩
  · split <;> exact ⟨by decide, by decide⟩

/-- The slow path counts the blocks of each page. -/
theorem countNextPage_spec {pageSizeLog b : Nat} (hb : 0 < b) (j : Nat) :
    PageReleaseContext.countNextPage pageSizeLog b
        ⟨j * 2^pageSizeLog, startOn b (2^pageSizeLog) j * b⟩ =
      ((blocksOn b (2^pageSizeLog) j).card,
        ⟨(j+1) * 2^pageSizeLog, startOn b (2^pageSizeLog) (j+1) * b⟩) := by
  have hcard := card_blocksOn_eq (p := 2^pageSizeLog) hb j
  obtain ⟨hle, hlt⟩ := startOn_spec (p := 2^pageSizeLog) hb j
  have hpos := Nat.two_pow_pos pageSizeLog
  have hsucc : (j+1) * 2^pageSizeLog = j * 2^pageSizeLog + 2^pageSizeLog := Nat.succ_mul _ _
  simp only [PageReleaseContext.countNextPage]
  generalize 2^pageSizeLog = p at *
  by_cases hbp : b < p
  · have hstep := startOn_succ_of_lt (p := p) hb j
    obtain ⟨hq, hq'⟩ := Word.div_mul_le_lt p b hb
    have hmul : (startOn b p j + p/b) * b = startOn b p j * b + p/b*b := Nat.add_mul _ _ _
    have hmul' : (startOn b p j + p/b + 1) * b = startOn b p j * b + p/b*b + b := by
      rw [Nat.succ_mul, hmul]
    generalize p/b = q at *
    rw [if_pos hbp, if_pos (by omega), hsucc]
    split
    · next hroom =>
      rw [if_pos hroom] at hstep
      rw [hcard, hstep, hmul']
      split
      · exact Prod.ext (by simp only; omega) rfl
      · exact Prod.ext (by simp only; omega) rfl
    · next hfull =>
      rw [if_neg hfull] at hstep
      rw [hcard, hstep, hmul]
      split
      · exact Prod.ext (by simp only; omega) rfl
      · exact Prod.ext (by simp only; omega) rfl
  · have hstep := startOn_succ_of_ge (p := p) hb (not_lt.mp hbp) j
    have hmul : (startOn b p j + 1) * b = startOn b p j * b + b := Nat.succ_mul _ _
    rw [if_neg hbp, Nat.one_mul, hsucc]
    split
    · next hstart =>
      rw [if_pos hstart] at hstep
      rw [if_neg (by omega), hcard, hstep, hmul]
      split
      · exact Prod.ext (by simp only; omega) rfl
      · exact Prod.ext (by simp only; omega) rfl
    · next hcover =>
      rw [if_neg hcover] at hstep
      rw [hcard, hstep, if_pos (by omega)]
      simp

section Loops

variable {pageSizeLog region : Nat} {c : PageReleaseContext} {m : RegionPageMap}
  {marked : Nat → Finset Nat}

/-- A page is released when all of its blocks are marked, and the marks stay. -/
theorem Marks.releasePage (h : Marks pageSizeLog c region m marked) {i : Nat}
    (hi : i < c.pagesCount) {t : FreePagesRangeTracker} (ht : t.currentPage = i)
    (htracks : t.Tracks (2^pageSizeLog) fun i => marked (c.releasePageOffset + i) =
      blocksOn c.blockSize (2^pageSizeLog) (c.releasePageOffset + i)) :
    ∃ m' t', PageReleaseContext.releasePage pageSizeLog region i
        (blocksOn c.blockSize (2^pageSizeLog) (c.releasePageOffset + i)).card (m, t) = some (m', t') ∧
      Marks pageSizeLog c region m' marked ∧ t'.currentPage = i+1 ∧
      t'.Tracks (2^pageSizeLog) fun i => marked (c.releasePageOffset + i) =
        blocksOn c.blockSize (2^pageSizeLog) (c.releasePageOffset + i) := by
  have hsub := h.subset i hi
  have hle := h.card_le (c.releasePageOffset + i)
  -- a full count says that all blocks of the page are marked
  have hfull := Finset.eq_of_subset_of_card_le hsub
  have hstep (b : Bool) (m' : RegionPageMap) (hm' : Marks pageSizeLog c region m' marked)
      (hup : m.updateAsAllCountedIf region i
        (blocksOn c.blockSize (2^pageSizeLog) (c.releasePageOffset + i)).card = some (b, m'))
      (hb : b = true ↔ marked (c.releasePageOffset + i) =
        blocksOn c.blockSize (2^pageSizeLog) (c.releasePageOffset + i)) :
      ∃ m' t', PageReleaseContext.releasePage pageSizeLog region i
          (blocksOn c.blockSize (2^pageSizeLog) (c.releasePageOffset + i)).card (m, t) =
            some (m', t') ∧
        Marks pageSizeLog c region m' marked ∧ t'.currentPage = i+1 ∧
        t'.Tracks (2^pageSizeLog) fun i => marked (c.releasePageOffset + i) =
          blocksOn c.blockSize (2^pageSizeLog) (c.releasePageOffset + i) := by
    rw [← ht] at hb
    obtain ⟨ht', hpage⟩ := htracks.processNextPage hb
    refine ⟨m', _, ?_, hm', hpage.trans (by rw [ht]), ht'⟩
    rw [PageReleaseContext.releasePage, hup]
    rfl
  by_cases hmask : m.get region i = m.counterMask
  · refine hstep true m h ?_ (iff_of_true rfl ?_)
    · rw [RegionPageMap.updateAsAllCountedIf, if_pos (h.inRange hi), if_pos hmask]
    · rcases h.counted i hi with hcount | ⟨-, hall⟩
      · exact hfull (by omega)
      · exact hall
  · have hcount : m.get region i = (marked (c.releasePageOffset + i)).card :=
      (h.counted i hi).resolve_right fun hall => hmask hall.1
    by_cases hall : m.get region i =
        (blocksOn c.blockSize (2^pageSizeLog) (c.releasePageOffset + i)).card
    · obtain ⟨m', hm', hmarks⟩ := h.setAsAllCounted hi
      have heq := hfull (by omega)
      rw [← heq, Function.update_eq_self] at hmarks
      refine hstep true m' hmarks ?_ (iff_of_true rfl heq)
      rw [RegionPageMap.updateAsAllCountedIf, if_pos (h.inRange hi), if_neg hmask, if_pos hall, hm']
      rfl
    · refine hstep false m h ?_ (iff_of_false Bool.false_ne_true ?_)
      · rw [RegionPageMap.updateAsAllCountedIf, if_pos (h.inRange hi), if_neg hmask, if_neg hall]
      · intro heq
        rw [heq] at hcount
        exact hall hcount

/-- The pages of a region in turn, each against the number of its blocks. -/
def releasePages (pageSizeLog : Nat) (c : PageReleaseContext) (region n : Nat)
    (s : RegionPageMap × FreePagesRangeTracker) : Option (RegionPageMap × FreePagesRangeTracker) :=
  (List.range n).foldlM (fun s i => PageReleaseContext.releasePage pageSizeLog region i
    (blocksOn c.blockSize (2^pageSizeLog) (c.releasePageOffset + i)).card s) s

theorem releasePages_succ (n : Nat) (s : RegionPageMap × FreePagesRangeTracker) :
    releasePages pageSizeLog c region (n+1) s =
      (releasePages pageSizeLog c region n s).bind fun s =>
        PageReleaseContext.releasePage pageSizeLog region n
          (blocksOn c.blockSize (2^pageSizeLog) (c.releasePageOffset + n)).card s := by
  rw [releasePages, releasePages, List.range_succ, List.foldlM_append]
  simp only [List.foldlM_cons, List.foldlM_nil, Option.bind_eq_bind, Option.pure_def,
    Option.bind_fun_some]

theorem Marks.releasePages (h : Marks pageSizeLog c region m marked) {n : Nat}
    (hn : n ≤ c.pagesCount) :
    ∃ m' t', releasePages pageSizeLog c region n (m, {}) = some (m', t') ∧
      Marks pageSizeLog c region m' marked ∧ t'.currentPage = n ∧
      t'.Tracks (2^pageSizeLog) fun i => marked (c.releasePageOffset + i) =
        blocksOn c.blockSize (2^pageSizeLog) (c.releasePageOffset + i) := by
  induction n with
  | zero => exact ⟨m, {}, rfl, h, rfl, FreePagesRangeTracker.tracks_new⟩
  | succ n ih =>
    obtain ⟨m', t', hfold, hm', ht', htracks⟩ := ih (by omega)
    obtain ⟨m'', t'', hstep, hm'', ht'', htracks'⟩ := hm'.releasePage (by omega) ht' htracks
    refine ⟨m'', t'', ?_, hm'', ht'', htracks'⟩
    rw [releasePages_succ, hfold]
    exact hstep

theorem releaseRegionFast_eq (hsame : ∀ j, (blocksOn c.blockSize (2^pageSizeLog) j).card =
    c.fullPagesBlockCountMax) (s : RegionPageMap × FreePagesRangeTracker) :
    c.releaseRegionFast pageSizeLog region s =
      releasePages pageSizeLog c region c.pagesCount s := by
  rw [PageReleaseContext.releaseRegionFast, releasePages]
  simp only [hsame]

/-- The slow path finds the number of blocks of each page as it goes. -/
theorem releaseRegionSlow_eq (hb : 0 < c.blockSize) (s : RegionPageMap × FreePagesRangeTracker) :
    c.releaseRegionSlow pageSizeLog region s =
      releasePages pageSizeLog c region c.pagesCount s := by
  have hstart : (if c.releasePageOffset > 0 then
      (⟨c.releasePageOffset <<< pageSizeLog,
        roundUpSlow (c.releasePageOffset <<< pageSizeLog) c.blockSize⟩ : PageCursor)
      else ⟨0, 0⟩) = ⟨(c.releasePageOffset + 0) * 2^pageSizeLog,
        startOn c.blockSize (2^pageSizeLog) (c.releasePageOffset + 0) * c.blockSize⟩ := by
    split
    · rw [Nat.add_zero, Nat.shiftLeft_eq]
      rfl
    · next h0 =>
      rw [Nat.eq_zero_of_not_pos h0, startOn_eq hb (i := 0) (by omega) (by omega)]
      simp
  have hfold (n : Nat) : (List.range n).foldlM (fun (s, cur) j =>
      (PageReleaseContext.releasePage pageSizeLog region j
        (PageReleaseContext.countNextPage pageSizeLog c.blockSize cur).1 s).map
          fun s => (s, (PageReleaseContext.countNextPage pageSizeLog c.blockSize cur).2))
      (s, (⟨(c.releasePageOffset + 0) * 2^pageSizeLog,
        startOn c.blockSize (2^pageSizeLog) (c.releasePageOffset + 0) * c.blockSize⟩ : PageCursor)) =
      (releasePages pageSizeLog c region n s).map fun s => (s,
        ⟨(c.releasePageOffset + n) * 2^pageSizeLog,
          startOn c.blockSize (2^pageSizeLog) (c.releasePageOffset + n) * c.blockSize⟩) := by
    induction n with
    | zero => rfl
    | succ n ih =>
      rw [List.range_succ, List.foldlM_append, ih, releasePages_succ]
      cases releasePages pageSizeLog c region n s with
      | none => rfl
      | some s' =>
        simp only [Option.map_some, Option.bind_eq_bind, Option.bind_some, List.foldlM_cons,
          List.foldlM_nil, countNextPage_spec hb]
        cases PageReleaseContext.releasePage pageSizeLog region n
          (blocksOn c.blockSize (2^pageSizeLog) (c.releasePageOffset + n)).card s' with
        | none => rfl
        | some s'' => rfl
  rw [PageReleaseContext.releaseRegionSlow]
  simp only [hstart]
  rw [hfold]
  cases releasePages pageSizeLog c region c.pagesCount s with
  | none => rfl
  | some s' => rfl

/-- What the expected block counts of a context are. -/
structure CountsBlocks (pageSizeLog : Nat) (c : PageReleaseContext) : Prop where
  blockSize : 0 < c.blockSize
  same : c.sameBlockCountPerPage → ∀ j, (blocksOn c.blockSize (2^pageSizeLog) j).card =
    c.fullPagesBlockCountMax

theorem countsBlocks_new {blockSize : Nat} (hb : 0 < blockSize)
    (numberOfRegions releaseSize releaseOffset : Nat) :
    CountsBlocks pageSizeLog
      (.new pageSizeLog blockSize numberOfRegions releaseSize releaseOffset) :=
  ⟨hb, fun h j => blockCountPerPage_eq hb h j⟩

/-- In a region, the pages whose blocks are all marked are released. -/
theorem Marks.releaseFreeMemoryToOS (h : Marks pageSizeLog c 0 m marked)
    (hc : CountsBlocks pageSizeLog c) (hregions : c.numberOfRegions = 1)
    (hmap : c.pageMap = some m) :
    ∃ c' ranges, c.releaseFreeMemoryToOS pageSizeLog (fun _ => false) = some (c', ranges) ∧
      MaximalRanges (2^pageSizeLog) c.pagesCount (fun i => marked (c.releasePageOffset + i) =
        blocksOn c.blockSize (2^pageSizeLog) (c.releasePageOffset + i)) ranges := by
  obtain ⟨m', t', hfold, -, ht', htracks⟩ := h.releasePages le_rfl
  have hregion : (if c.sameBlockCountPerPage then c.releaseRegionFast pageSizeLog 0 (m, {})
      else c.releaseRegionSlow pageSizeLog 0 (m, {})) = some (m', t') := by
    split
    · next hsame => rw [releaseRegionFast_eq (hc.same hsame), hfold]
    · rw [releaseRegionSlow_eq hc.blockSize, hfold]
  refine ⟨{ c with pageMap := some m' }, (t'.finish pageSizeLog).recorder, ?_, ?_⟩
  · rw [PageReleaseContext.releaseFreeMemoryToOS, hmap, hregions]
    simp only [List.range_one, List.foldlM_cons, List.foldlM_nil, Bool.false_eq_true, if_false,
      Option.bind_eq_bind, Option.bind_some, hregion]
    rfl
  · rw [← ht']
    exact htracks.finish

end Loops

end ScudoMte.Release
