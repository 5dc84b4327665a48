import ScudoMte.Release.Pages

namespace ScudoMte.Release

open BlockGrid

variable {pageSizeLog region : Nat} {c : PageReleaseContext} {m : RegionPageMap}
  {marked : Nat → Finset Nat}

theorem getPageIndex_eq {p : Nat} (hp : p < 2^64) (hle : c.releasePageOffset ≤ p / 2^pageSizeLog) :
    c.getPageIndex pageSizeLog p = p / 2^pageSizeLog - c.releasePageOffset := by
  rw [PageReleaseContext.getPageIndex, Nat.shiftRight_eq_div_pow]
  exact wrapSub_of_le hle (lt_of_le_of_lt (Nat.div_le_self _ _) hp)

/-- The marks with certain blocks added on all of their pages. -/
def addBlocks (pageSizeLog : Nat) (c : PageReleaseContext) (marked : Nat → Finset Nat)
    (s : Nat → Prop) [DecidablePred s] (j : Nat) : Finset Nat :=
  marked j ∪ (blocksOn c.blockSize (2^pageSizeLog) j).filter s

/-- The pages of a block are those from its first byte to its last. -/
theorem mem_blocksOn_iff_page (hb : 0 < c.blockSize) {n j : Nat} :
    n ∈ blocksOn c.blockSize (2^pageSizeLog) j ↔
      n * c.blockSize / 2^pageSizeLog ≤ j ∧
        j ≤ (n * c.blockSize + c.blockSize - 1) / 2^pageSizeLog := by
  have hpos := Nat.two_pow_pos pageSizeLog
  have hsucc : (n+1) * c.blockSize = n * c.blockSize + c.blockSize := Nat.succ_mul _ _
  rw [mem_blocksOn hb, Overlaps, Nat.le_div_iff_mul_le hpos, ← Nat.lt_succ_iff,
    Nat.div_lt_iff_lt_mul hpos, hsucc]
  exact and_congr Iff.rfl (by omega)

/-- A block that divides the page size does not cross a page boundary. -/
theorem last_page_eq {b p : Nat} (hb : 0 < b) (hd : p % b = 0) (n : Nat) :
    (n*b + b - 1) / p = n*b / p := by
  obtain ⟨q, rfl⟩ := Nat.dvd_of_mod_eq_zero hd
  rw [← Nat.div_div_eq_div_mul, ← Nat.div_div_eq_div_mul, Nat.mul_div_cancel n hb]
  congr 1
  rw [Nat.add_sub_assoc hb, Nat.mul_comm, Nat.mul_add_div hb, Nat.div_eq_of_lt (by omega),
    Nat.add_zero]

/-- A block that was not marked yet. -/
theorem Marks.markBlock (h : Marks pageSizeLog c region m marked) (hb : 0 < c.blockSize) {n : Nat}
    (hfit : n * c.blockSize + c.blockSize ≤ 2^64)
    (hlo : c.releasePageOffset ≤ n * c.blockSize / 2^pageSizeLog)
    (hhi : n * c.blockSize / 2^pageSizeLog < c.releasePageOffset + c.pagesCount)
    (hnew : ∀ i < c.pagesCount, n ∉ marked (c.releasePageOffset + i)) :
    ∃ m', c.markBlock pageSizeLog region m (n * c.blockSize) = some m' ∧
      Marks pageSizeLog c region m' (addBlocks pageSizeLog c marked (· = n)) := by
  have hadd (j : Nat) : addBlocks pageSizeLog c marked (· = n) j =
      if n ∈ blocksOn c.blockSize (2^pageSizeLog) j then insert n (marked j) else marked j := by
    rw [addBlocks, Finset.filter_eq']
    split
    · rw [Finset.union_comm]
      rfl
    · exact Finset.union_empty _
  have hpage (j : Nat) := @mem_blocksOn_iff_page pageSizeLog c hb n j
  have hle : n * c.blockSize / 2^pageSizeLog ≤
      (n * c.blockSize + c.blockSize - 1) / 2^pageSizeLog := Nat.div_le_div_right (by omega)
  have hfirst := getPageIndex_eq (p := n * c.blockSize) (by omega) hlo
  have hlast := getPageIndex_eq (p := n * c.blockSize + c.blockSize - 1) (by omega) (hlo.trans hle)
  rw [PageReleaseContext.markBlock, hfirst, hlast]
  split
  · next hd =>
    simp only [last_page_eq hb hd.2] at hpage
    generalize n * c.blockSize / 2^pageSizeLog = lo at *
    obtain ⟨i, rfl⟩ := Nat.exists_eq_add_of_le hlo
    have hi : i < c.pagesCount := by omega
    rw [Nat.add_sub_cancel_left]
    obtain ⟨m', hm', hmarks⟩ := h.inc hi ((hpage _).mpr ⟨le_rfl, le_rfl⟩) (hnew i hi)
    refine ⟨m', hm', hmarks.congr fun i' hi' => ?_⟩
    rw [hadd]
    by_cases heq : i' = i
    · subst heq
      rw [Function.update_self, if_pos ((hpage _).mpr ⟨le_rfl, le_rfl⟩)]
    · rw [Function.update_of_ne (by omega), if_neg]
      intro hmem
      have hbounds := (hpage _).mp hmem
      omega
  · generalize n * c.blockSize / 2^pageSizeLog = lo at *
    generalize (n * c.blockSize + c.blockSize - 1) / 2^pageSizeLog = hi at *
    obtain ⟨m', hm', hmarks⟩ := h.incRange (n := n) (Nat.sub_le_sub_right hle c.releasePageOffset)
      (by
        intro i hlo' hhi' hi
        exact ⟨(hpage _).mpr ⟨by omega, by omega⟩, hnew i hi⟩)
    refine ⟨m', hm', hmarks.congr fun i hi' => ?_⟩
    rw [hadd]
    by_cases hin : lo ≤ c.releasePageOffset + i ∧ c.releasePageOffset + i ≤ hi
    · rw [if_pos ((hpage _).mpr hin), if_pos (by omega)]
    · rw [if_neg (mt (hpage _).mp hin), if_neg (by omega)]

/-- Distinct blocks in turn. -/
theorem Marks.markBlocks {l : List Nat} (h : Marks pageSizeLog c region m marked)
    (hb : 0 < c.blockSize) (hnodup : l.Nodup)
    (hfit : ∀ n ∈ l, n * c.blockSize + c.blockSize ≤ 2^64)
    (hlo : ∀ n ∈ l, c.releasePageOffset ≤ n * c.blockSize / 2^pageSizeLog)
    (hhi : ∀ n ∈ l, n * c.blockSize / 2^pageSizeLog < c.releasePageOffset + c.pagesCount)
    (hnew : ∀ n ∈ l, ∀ i < c.pagesCount, n ∉ marked (c.releasePageOffset + i)) :
    ∃ m', l.foldlM (fun m n => c.markBlock pageSizeLog region m (n * c.blockSize)) m = some m' ∧
      Marks pageSizeLog c region m' (addBlocks pageSizeLog c marked (· ∈ l)) := by
  induction l generalizing m marked with
  | nil =>
    refine ⟨m, rfl, h.congr fun i _ => ?_⟩
    simp [addBlocks]
  | cons n l ih =>
    obtain ⟨hn, hnodup'⟩ := List.nodup_cons.mp hnodup
    obtain ⟨m', hm', hmarks⟩ := h.markBlock hb (hfit n List.mem_cons_self)
      (hlo n List.mem_cons_self) (hhi n List.mem_cons_self) (hnew n List.mem_cons_self)
    obtain ⟨m'', hm'', hmarks'⟩ := ih hmarks hnodup'
      (fun x hx => hfit x (List.mem_cons_of_mem n hx))
      (fun x hx => hlo x (List.mem_cons_of_mem n hx))
      (fun x hx => hhi x (List.mem_cons_of_mem n hx)) (by
        intro x hx i hi hmem
        rcases Finset.mem_union.mp hmem with hold | hthis
        · exact hnew x (List.mem_cons_of_mem n hx) i hi hold
        · exact hn ((Finset.mem_filter.mp hthis).2 ▸ hx))
    refine ⟨m'', ?_, hmarks'.congr fun i _ => ?_⟩
    · rw [List.foldlM_cons, hm']
      exact hm''
    · ext x
      simp only [addBlocks, Finset.mem_union, Finset.mem_filter, List.mem_cons]
      tauto

/-- A list of pointers to distinct blocks, as block numbers. -/
theorem exists_blockNumbers {κ : Type*} {ptrs : List κ} {f : κ → Nat} {base b : Nat}
    {q : Nat → Prop} (hb : 0 < b) (hnodup : (ptrs.map f).Nodup)
    (hblock : ∀ ptr ∈ ptrs, ∃ i, q i ∧ f ptr = base + i*b) :
    ∃ l : List Nat, ptrs.map (fun ptr => f ptr - base) = l.map (· * b) ∧ l.Nodup ∧ (∀ i ∈ l, q i) ∧
      (∀ i, i ∈ l ↔ ∃ ptr ∈ ptrs, f ptr = base + i*b) ∧ l.length = ptrs.length := by
  have hdiv (i : Nat) : (base + i*b - base) / b = i := by
    rw [Nat.add_sub_cancel_left, Nat.mul_div_cancel i hb]
  have hnum (ptr : κ) (hptr : ptr ∈ ptrs) : f ptr = base + (f ptr - base) / b * b := by
    obtain ⟨i, -, hi⟩ := hblock ptr hptr
    rw [hi, hdiv]
  refine ⟨ptrs.map fun ptr => (f ptr - base) / b, ?_, ?_, ?_, ?_, List.length_map _⟩
  · rw [List.map_map]
    apply List.map_congr_left
    intro ptr hptr
    have heq := hnum ptr hptr
    rw [Function.comp_apply]
    omega
  · have heq : ptrs.map f = (ptrs.map fun ptr => (f ptr - base) / b).map fun i => base + i*b := by
      rw [List.map_map]
      exact List.map_congr_left hnum
    rw [heq] at hnodup
    exact hnodup.of_map
  · intro i hi
    obtain ⟨ptr, hptr, rfl⟩ := List.mem_map.mp hi
    obtain ⟨i, hq, hi'⟩ := hblock ptr hptr
    rwa [hi', hdiv]
  · intro i
    rw [List.mem_map]
    constructor
    · rintro ⟨ptr, hptr, rfl⟩
      exact ⟨ptr, hptr, hnum ptr hptr⟩
    · rintro ⟨ptr, hptr, hi⟩
      exact ⟨ptr, hptr, by rw [hi, hdiv]⟩

theorem foldlM_flatten {σ κ : Type*} (f : σ → κ → Option σ) (batches : List (List κ)) (s : σ) :
    batches.foldlM (fun s batch => batch.foldlM f s) s = batches.flatten.foldlM f s := by
  induction batches generalizing s with
  | nil => rfl
  | cons batch batches ih =>
    rw [List.foldlM_cons, List.flatten_cons, List.foldlM_append]
    congr 1
    funext s'
    exact ih s'

/-- On a page that ends before block `n` starts there is no such block, and none behind it. -/
theorem filter_le_eq_empty (hb : 0 < c.blockSize) {n j : Nat}
    (hend : (j+1) * 2^pageSizeLog ≤ n * c.blockSize) :
    (blocksOn c.blockSize (2^pageSizeLog) j).filter (n ≤ ·) = ∅ := by
  rw [Finset.filter_eq_empty_iff]
  intro x hx hle
  have hstart := ((mem_blocksOn hb).mp hx).1
  have hmul := Nat.mul_le_mul_right c.blockSize hle
  omega

/-- The blocks behind block `n` on the page that it starts on. -/
theorem filter_le_eq_Ico (hb : 0 < c.blockSize) {n j : Nat}
    (hstart : j * 2^pageSizeLog ≤ n * c.blockSize) :
    (blocksOn c.blockSize (2^pageSizeLog) j).filter (n ≤ ·) =
      Finset.Ico n (startOn c.blockSize (2^pageSizeLog) (j+1)) := by
  have hfirst : firstOn c.blockSize (2^pageSizeLog) j ≤ n := by
    rw [firstOn_le_iff hb, Nat.succ_mul]
    omega
  ext x
  rw [Finset.mem_filter, blocksOn, Finset.mem_Ico, Finset.mem_Ico]
  constructor
  · rintro ⟨⟨-, hx⟩, hle⟩
    exact ⟨hle, hx⟩
  · rintro ⟨hle, hx⟩
    exact ⟨⟨hfirst.trans hle, hx⟩, hle⟩

/-- The "pretend" blocks fill the last page of a region of `n` blocks. -/
theorem Marks.markTrailingBlocks (h : Marks pageSizeLog c region m marked) (hb : 0 < c.blockSize)
    {n : Nat} (hn : 0 < n) (hlog : pageSizeLog ≤ 64) (hfit : n * c.blockSize + 2^pageSizeLog ≤ 2^64)
    (hmap : ∀ i < c.pagesCount, (c.releasePageOffset + i) * 2^pageSizeLog < n * c.blockSize)
    (hlast : n * c.blockSize % 2^pageSizeLog ≠ 0 →
      c.releasePageOffset ≤ n * c.blockSize / 2^pageSizeLog ∧
        n * c.blockSize / 2^pageSizeLog < c.releasePageOffset + c.pagesCount)
    (hnew : ∀ i < c.pagesCount, ∀ x ∈ marked (c.releasePageOffset + i), x < n) :
    ∃ m', c.markTrailingBlocks pageSizeLog m region (n * c.blockSize) = some m' ∧
      Marks pageSizeLog c region m' (addBlocks pageSizeLog c marked (n ≤ ·)) := by
  have hpos := Nat.two_pow_pos pageSizeLog
  have hbase : (n * c.blockSize / c.blockSize - 1) * c.blockSize + c.blockSize =
      n * c.blockSize := by
    rw [Nat.mul_div_cancel n hb, ← Nat.succ_mul, Nat.succ_eq_add_one, Nat.sub_add_cancel hn]
  have hdiv := Nat.div_add_mod (n * c.blockSize) (2^pageSizeLog)
  have hmod := Nat.mod_lt (n * c.blockSize) hpos
  rw [Nat.mul_comm] at hdiv
  rw [PageReleaseContext.markTrailingBlocks]
  simp only [hbase]
  by_cases hz : n * c.blockSize % 2^pageSizeLog = 0
  · have hround := roundUp_of_dvd (n * c.blockSize) pageSizeLog hlog hfit
      (Nat.dvd_of_mod_eq_zero hz)
    rw [hround, Nat.sub_self, show roundUpSlow 0 c.blockSize = 0 by
      rw [roundUpSlow, Nat.zero_add, Nat.div_eq_of_lt (by omega), Nat.zero_mul], Nat.zero_add,
      Nat.div_eq_of_lt (by omega), if_neg (lt_irrefl 0)]
    refine ⟨m, rfl, h.congr fun i hi => ?_⟩
    have hpage := hmap i hi
    have hlt : c.releasePageOffset + i < n * c.blockSize / 2^pageSizeLog := by
      rw [← hdiv, hz, Nat.add_zero] at hpage
      exact Nat.lt_of_mul_lt_mul_right hpage
    rw [addBlocks, filter_le_eq_empty hb, Finset.union_empty]
    have hle := Nat.mul_le_mul_right (2^pageSizeLog) (Nat.succ_le_of_lt hlt)
    rw [Nat.succ_eq_add_one] at hle
    omega
  · obtain ⟨hlo, hhi⟩ := hlast hz
    generalize hj : n * c.blockSize / 2^pageSizeLog = j at *
    obtain ⟨i, rfl⟩ := Nat.exists_eq_add_of_le hlo
    have hi : i < c.pagesCount := by omega
    have hsucc : (c.releasePageOffset + i + 1) * 2^pageSizeLog =
        (c.releasePageOffset + i) * 2^pageSizeLog + 2^pageSizeLog := Nat.succ_mul _ _
    have hround : roundUp (n * c.blockSize) (2^pageSizeLog) =
        (c.releasePageOffset + i + 1) * 2^pageSizeLog := by
      obtain ⟨hup, hup', hd⟩ := roundUp_spec (n * c.blockSize) pageSizeLog hlog hfit
      obtain ⟨q, hq⟩ := hd
      rw [Nat.mul_comm (2^pageSizeLog)] at hq
      rw [hq] at hup hup' ⊢
      congr 1
      apply le_antisymm
      · apply Nat.le_of_lt_succ
        apply Nat.lt_of_mul_lt_mul_right (a := 2^pageSizeLog)
        rw [Nat.succ_mul (c.releasePageOffset + i + 1)]
        omega
      · apply Nat.succ_le_of_lt
        apply Nat.lt_of_mul_lt_mul_right (a := 2^pageSizeLog)
        omega
    -- as many blocks start between the end of the region and the end of its last page
    obtain ⟨hceil, hceil'⟩ := ceil_spec hb (roundUp (n * c.blockSize) (2^pageSizeLog) - n * c.blockSize)
    rw [roundUpSlow]
    generalize hy : (roundUp (n * c.blockSize) (2^pageSizeLog) - n * c.blockSize + c.blockSize - 1) /
      c.blockSize = y at *
    have hnum : (y * c.blockSize + c.blockSize - 1) / c.blockSize = y :=
      ceil_eq hb le_rfl (by omega)
    have hend : startOn c.blockSize (2^pageSizeLog) (c.releasePageOffset + i + 1) = n + y := by
      have hmul : (n + y) * c.blockSize = n * c.blockSize + y * c.blockSize := Nat.add_mul _ _ _
      exact startOn_eq hb (by omega) (by omega)
    have hfilter := @filter_le_eq_Ico pageSizeLog c hb n
      (c.releasePageOffset + i) (by omega)
    have hcard : ((blocksOn c.blockSize (2^pageSizeLog) (c.releasePageOffset + i)).filter
        (n ≤ ·)).card = y := by
      rw [hfilter, Nat.card_Ico, hend]
      omega
    have hy0 : 0 < y := by
      apply Nat.pos_of_ne_zero
      rintro rfl
      omega
    obtain ⟨m', hm', hmarks⟩ := h.incN hi (Finset.card_pos.mp (hcard ▸ hy0))
      (Finset.filter_subset _ _) (by
        rw [Finset.disjoint_left]
        intro x hx hx'
        have hlt := hnew i hi x hx
        have hge := (Finset.mem_filter.mp hx').2
        omega)
    rw [hnum, if_pos hy0, getPageIndex_eq (by omega) (by rw [hj]; omega), hj,
      Nat.add_sub_cancel_left]
    rw [hcard] at hm'
    refine ⟨m', hm', hmarks.congr fun i' hi' => ?_⟩
    by_cases heq : i' = i
    · subst heq
      rw [Function.update_self, addBlocks]
    · rw [Function.update_of_ne (by omega), addBlocks]
      have hpage := hmap i' hi'
      have hlt : i' < i := by
        have hlt' : c.releasePageOffset + i' < c.releasePageOffset + i + 1 := by
          apply Nat.lt_of_mul_lt_mul_right (a := 2^pageSizeLog)
          omega
        omega
      rw [filter_le_eq_empty hb, Finset.union_empty]
      have hle := Nat.mul_le_mul_right (2^pageSizeLog)
        (show c.releasePageOffset + i' + 1 ≤ c.releasePageOffset + i by omega)
      omega

end ScudoMte.Release
