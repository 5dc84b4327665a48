import Mathlib.Data.Finset.Card
import ScudoMte.Library.BlockGrid
import ScudoMte.Release.Context

namespace ScudoMte.Release

open BlockGrid

/-- The counters of a map against the blocks that were marked, page by page: a counter is the
number of blocks marked on its page, or saturated where all of them are. -/
structure Marks (pageSizeLog : Nat) (c : PageReleaseContext) (region : Nat) (m : RegionPageMap)
    (marked : Nat → Finset Nat) : Prop where
  wellFormed : m.WellFormed
  region_lt : region < m.regions
  numCounters : m.numCounters = c.pagesCount
  card_le : ∀ j, (blocksOn c.blockSize (2^pageSizeLog) j).card ≤ m.counterMask
  subset : ∀ i < c.pagesCount, marked (c.releasePageOffset + i) ⊆
    blocksOn c.blockSize (2^pageSizeLog) (c.releasePageOffset + i)
  counted : ∀ i < c.pagesCount,
    m.get region i = (marked (c.releasePageOffset + i)).card ∨
      m.get region i = m.counterMask ∧ marked (c.releasePageOffset + i) =
        blocksOn c.blockSize (2^pageSizeLog) (c.releasePageOffset + i)

namespace Marks

variable {pageSizeLog region : Nat} {c : PageReleaseContext} {m : RegionPageMap}
  {marked marked' : Nat → Finset Nat}

theorem congr (h : Marks pageSizeLog c region m marked)
    (heq : ∀ i < c.pagesCount, marked' (c.releasePageOffset + i) =
      marked (c.releasePageOffset + i)) : Marks pageSizeLog c region m marked' where
  wellFormed := h.wellFormed
  region_lt := h.region_lt
  numCounters := h.numCounters
  card_le := h.card_le
  subset i hi := by
    rw [heq i hi]
    exact h.subset i hi
  counted i hi := by
    rw [heq i hi]
    exact h.counted i hi

theorem inRange (h : Marks pageSizeLog c region m marked) {i : Nat} (hi : i < c.pagesCount) :
    m.InRange region i :=
  ⟨h.region_lt, h.numCounters ▸ hi⟩

/-- One counter changes with the blocks on its page. -/
theorem updated (h : Marks pageSizeLog c region m marked) {m' : RegionPageMap} {i v : Nat}
    {s : Finset Nat} (hi : i < c.pagesCount) (hup : m.Updated m' region i v)
    (hs : s ⊆ blocksOn c.blockSize (2^pageSizeLog) (c.releasePageOffset + i))
    (hv : v = s.card ∨ v = m.counterMask ∧
      s = blocksOn c.blockSize (2^pageSizeLog) (c.releasePageOffset + i)) :
    Marks pageSizeLog c region m' (Function.update marked (c.releasePageOffset + i) s) := by
  have hmask : m'.counterMask = m.counterMask := by rw [hup.shape]
  refine ⟨hup.wellFormed, ?_, ?_, ?_, ?_, ?_⟩
  · rw [hup.shape]
    exact h.region_lt
  · rw [hup.shape]
    exact h.numCounters
  · rw [hmask]
    exact h.card_le
  · intro j hj
    by_cases hji : j = i
    · subst hji
      rw [Function.update_self]
      exact hs
    · rw [Function.update_of_ne (by omega)]
      exact h.subset j hj
  · intro j hj
    by_cases hji : j = i
    · subst hji
      rw [Function.update_self, hup.self, hmask]
      exact hv
    · rw [Function.update_of_ne (by omega), hmask,
        hup.other region j (h.numCounters ▸ hj) (by simp [hji])]
      exact h.counted j hj

/-- A counter whose page has a block that is not marked is a count. -/
theorem get_of_not_mem (h : Marks pageSizeLog c region m marked) {i n : Nat}
    (hi : i < c.pagesCount) (hn : n ∈ blocksOn c.blockSize (2^pageSizeLog) (c.releasePageOffset + i))
    (hnew : n ∉ marked (c.releasePageOffset + i)) :
    m.get region i = (marked (c.releasePageOffset + i)).card := by
  rcases h.counted i hi with hcount | ⟨-, hall⟩
  · exact hcount
  · exact absurd (hall ▸ hn) hnew

/-- Blocks of a page that are new to it are counted without a carry. -/
theorem incN (h : Marks pageSizeLog c region m marked) {i : Nat} {s : Finset Nat}
    (hi : i < c.pagesCount) (hne : s.Nonempty)
    (hs : s ⊆ blocksOn c.blockSize (2^pageSizeLog) (c.releasePageOffset + i))
    (hnew : Disjoint (marked (c.releasePageOffset + i)) s) :
    ∃ m', m.incN region i s.card = some m' ∧ Marks pageSizeLog c region m'
      (Function.update marked (c.releasePageOffset + i) (marked (c.releasePageOffset + i) ∪ s)) := by
  obtain ⟨n, hn⟩ := hne
  have hget := h.get_of_not_mem hi (hs hn) (Finset.disjoint_right.mp hnew hn)
  have hunion := Finset.union_subset (h.subset i hi) hs
  have hcard := Finset.card_union_of_disjoint hnew
  have hle := (Finset.card_le_card hunion).trans (h.card_le _)
  obtain ⟨m', hm', hup⟩ := RegionPageMap.incN_spec h.wellFormed (h.inRange hi)
    (Finset.card_pos.mpr ⟨n, hn⟩) (by rw [hget, ← hcard]; exact hle)
  exact ⟨m', hm', h.updated hi hup hunion (.inl (by rw [hget, hcard]))⟩

theorem inc (h : Marks pageSizeLog c region m marked) {i n : Nat} (hi : i < c.pagesCount)
    (hn : n ∈ blocksOn c.blockSize (2^pageSizeLog) (c.releasePageOffset + i))
    (hnew : n ∉ marked (c.releasePageOffset + i)) :
    ∃ m', m.inc region i = some m' ∧ Marks pageSizeLog c region m'
      (Function.update marked (c.releasePageOffset + i)
        (insert n (marked (c.releasePageOffset + i)))) := by
  have hget := h.get_of_not_mem hi hn hnew
  have hinsert := Finset.insert_subset hn (h.subset i hi)
  have hcard := Finset.card_insert_of_notMem hnew
  have hle := (Finset.card_le_card hinsert).trans (h.card_le _)
  obtain ⟨m', hm', hup⟩ := RegionPageMap.inc_spec h.wellFormed (h.inRange hi)
    (by rw [hget]; omega)
  exact ⟨m', hm', h.updated hi hup hinsert (.inl (by rw [hget, hcard]))⟩

theorem setAsAllCounted (h : Marks pageSizeLog c region m marked) {i : Nat}
    (hi : i < c.pagesCount) :
    ∃ m', m.setAsAllCounted region i = some m' ∧ Marks pageSizeLog c region m'
      (Function.update marked (c.releasePageOffset + i)
        (blocksOn c.blockSize (2^pageSizeLog) (c.releasePageOffset + i))) := by
  obtain ⟨m', hm', hup⟩ := RegionPageMap.setAsAllCounted_spec h.wellFormed (h.inRange hi)
  exact ⟨m', hm', h.updated hi hup subset_rfl (.inr ⟨rfl, rfl⟩)⟩

/-- A loop over consecutive counters that changes the blocks on each page by `f`. -/
theorem loop {step : RegionPageMap → Nat → Option RegionPageMap} {f : Nat → Finset Nat}
    {lo n : Nat} (h : Marks pageSizeLog c region m marked) (hn : lo + n ≤ c.pagesCount)
    (hstep : ∀ i m' marked', lo ≤ i → i < lo + n → Marks pageSizeLog c region m' marked' →
      marked' (c.releasePageOffset + i) = marked (c.releasePageOffset + i) →
      ∃ m'', step m' i = some m'' ∧ Marks pageSizeLog c region m''
        (Function.update marked' (c.releasePageOffset + i) (f (c.releasePageOffset + i)))) :
    ∃ m', (List.range' lo n).foldlM step m = some m' ∧ Marks pageSizeLog c region m'
      fun j => if c.releasePageOffset + lo ≤ j ∧ j < c.releasePageOffset + lo + n then f j
        else marked j := by
  induction n with
  | zero =>
    refine ⟨m, rfl, h.congr fun i _ => if_neg (by omega)⟩
  | succ n ih =>
    obtain ⟨m', hm', hmarks⟩ := ih (by omega) fun i m' marked' hlo hhi =>
      hstep i m' marked' hlo (by omega)
    obtain ⟨m'', hm'', hmarks'⟩ := hstep (lo+n) m' _ (by omega) (by omega) hmarks
      (if_neg (by omega))
    refine ⟨m'', ?_, hmarks'.congr ?_⟩
    · rw [List.range'_1_concat, List.foldlM_append, hm']
      simp only [Option.bind_eq_bind, Option.bind_some, List.foldlM_cons, List.foldlM_nil, hm'']
      rfl
    · intro i hi
      by_cases hlast : i = lo + n
      · subst hlast
        rw [Function.update_self, if_pos (by omega)]
      · rw [Function.update_of_ne (by omega)]
        by_cases hin : c.releasePageOffset + lo ≤ c.releasePageOffset + i ∧
            c.releasePageOffset + i < c.releasePageOffset + lo + n
        · rw [if_pos hin, if_pos (by omega)]
        · rw [if_neg hin, if_neg (by omega)]

/-- A block that is new to the pages of a range. -/
theorem incRange (h : Marks pageSizeLog c region m marked) {lo hi n : Nat} (hle : lo ≤ hi)
    (hn : ∀ i, lo ≤ i → i ≤ hi → i < c.pagesCount →
      n ∈ blocksOn c.blockSize (2^pageSizeLog) (c.releasePageOffset + i) ∧
        n ∉ marked (c.releasePageOffset + i)) :
    ∃ m', m.incRange region lo hi = some m' ∧ Marks pageSizeLog c region m'
      fun j => if c.releasePageOffset + lo ≤ j ∧ j ≤ c.releasePageOffset + hi
        then insert n (marked j) else marked j := by
  rcases Nat.lt_or_ge lo c.pagesCount with hlo | hlo
  · obtain ⟨m', hm', hmarks⟩ := @Marks.loop pageSizeLog region c m marked
      (fun m i => m.inc region i) (fun j => insert n (marked j)) lo (min (hi+1) m.numCounters - lo)
      h (by rw [h.numCounters]; omega) (by
        intro i m' marked' hlo' hhi hmarks heq
        rw [h.numCounters] at hhi
        obtain ⟨hin, hnew⟩ := hn i hlo' (by omega) (by omega)
        rw [← heq] at hnew
        simp only [← heq]
        exact hmarks.inc (by omega) hin hnew)
    rw [h.numCounters] at hmarks
    refine ⟨m', (if_pos hle).trans hm', hmarks.congr fun i hi' => ?_⟩
    by_cases hin : c.releasePageOffset + lo ≤ c.releasePageOffset + i ∧
        c.releasePageOffset + i ≤ c.releasePageOffset + hi
    · rw [if_pos hin, if_pos (by omega)]
    · rw [if_neg hin, if_neg (by omega)]
  · refine ⟨m, ?_, h.congr fun i hi' => if_neg (by omega)⟩
    rw [RegionPageMap.incRange, if_pos hle, h.numCounters,
      show min (hi+1) c.pagesCount - lo = 0 by omega]
    rfl

theorem setAsAllCountedRange (h : Marks pageSizeLog c region m marked) {lo hi : Nat}
    (hle : lo ≤ hi) :
    ∃ m', m.setAsAllCountedRange region lo hi = some m' ∧ Marks pageSizeLog c region m'
      fun j => if c.releasePageOffset + lo ≤ j ∧ j ≤ c.releasePageOffset + hi
        then blocksOn c.blockSize (2^pageSizeLog) j else marked j := by
  rcases Nat.lt_or_ge lo c.pagesCount with hlo | hlo
  · obtain ⟨m', hm', hmarks⟩ := @Marks.loop pageSizeLog region c m marked
      (fun m i => m.setAsAllCounted region i) (fun j => blocksOn c.blockSize (2^pageSizeLog) j) lo
      (min (hi+1) m.numCounters - lo) h (by rw [h.numCounters]; omega) (by
        intro i m' marked' hlo' hhi hmarks _
        rw [h.numCounters] at hhi
        exact hmarks.setAsAllCounted (by omega))
    rw [h.numCounters] at hmarks
    refine ⟨m', (if_pos hle).trans hm', hmarks.congr fun i hi' => ?_⟩
    by_cases hin : c.releasePageOffset + lo ≤ c.releasePageOffset + i ∧
        c.releasePageOffset + i ≤ c.releasePageOffset + hi
    · rw [if_pos hin, if_pos (by omega)]
    · rw [if_neg hin, if_neg (by omega)]
  · refine ⟨m, ?_, h.congr fun i hi' => if_neg (by omega)⟩
    rw [RegionPageMap.setAsAllCountedRange, if_pos hle, h.numCounters,
      show min (hi+1) c.pagesCount - lo = 0 by omega]
    rfl

end Marks

end ScudoMte.Release
