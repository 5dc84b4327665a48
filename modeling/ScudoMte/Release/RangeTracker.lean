import Mathlib.Algebra.Order.Ring.Nat
import ScudoMte.Common

namespace ScudoMte.Release

/-- `FreePagesRangeTracker`, with the ranges that it has told its recorder to release. -/
structure FreePagesRangeTracker where
  recorder : List (Nat × Nat) := []
  inRange : Bool := false
  currentPage : Nat := 0
  currentRangeStatePage : Nat := 0

/-- The ranges, of pages of `p` bytes, that hold exactly the pages below `n` that are released:
page aligned and nonempty, in increasing order, and with a page kept between any two. -/
structure MaximalRanges (p n : Nat) (released : Nat → Prop) (ranges : List (Nat × Nat)) : Prop where
  aligned : ∀ r ∈ ranges, p ∣ r.1 ∧ p ∣ r.2 ∧ r.1 < r.2
  separated : ranges.Pairwise fun a b => a.2 < b.1
  covered : ∀ j, (∃ r ∈ ranges, r.1 ≤ j*p ∧ (j+1)*p ≤ r.2) ↔ j < n ∧ released j

/-- A byte of a range is on a page that is released. -/
theorem MaximalRanges.released_of_mem {p n : Nat} {released : Nat → Prop}
    {ranges : List (Nat × Nat)} (h : MaximalRanges p n released ranges) (hp : 0 < p)
    {r : Nat × Nat} (hr : r ∈ ranges) {x : Nat} (hlo : r.1 ≤ x) (hhi : x < r.2) :
    x / p < n ∧ released (x / p) := by
  obtain ⟨⟨first, hfirst⟩, ⟨last, hlast⟩, -⟩ := h.aligned r hr
  refine (h.covered (x/p)).mp ⟨r, hr, ?_, ?_⟩
  · rw [hfirst, Nat.mul_comm p first] at hlo ⊢
    exact Nat.mul_le_mul_right p ((Nat.le_div_iff_mul_le hp).mpr hlo)
  · rw [hlast, Nat.mul_comm p last] at hhi ⊢
    exact Nat.mul_le_mul_right p (Nat.succ_le_of_lt ((Nat.div_lt_iff_lt_mul hp).mpr hhi))

namespace FreePagesRangeTracker

def closeOpenedRange (pageSizeLog : Nat) (t : FreePagesRangeTracker) : FreePagesRangeTracker :=
  if t.inRange then
    { t with
      recorder := t.recorder ++
        [(t.currentRangeStatePage <<< pageSizeLog, t.currentPage <<< pageSizeLog)]
      inRange := false }
  else t

def processNextPage (pageSizeLog : Nat) (t : FreePagesRangeTracker) (released : Bool) :
    FreePagesRangeTracker :=
  let t :=
    if released then
      if !t.inRange then { t with currentRangeStatePage := t.currentPage, inRange := true } else t
    else t.closeOpenedRange pageSizeLog
  { t with currentPage := t.currentPage + 1 }

def skipPages (pageSizeLog : Nat) (t : FreePagesRangeTracker) (n : Nat) : FreePagesRangeTracker :=
  let t := t.closeOpenedRange pageSizeLog
  { t with currentPage := t.currentPage + n }

def finish (pageSizeLog : Nat) (t : FreePagesRangeTracker) : FreePagesRangeTracker :=
  t.closeOpenedRange pageSizeLog

/-- The first page that no closed range accounts for. -/
def openFrom (t : FreePagesRangeTracker) : Nat :=
  if t.inRange then t.currentRangeStatePage else t.currentPage

/-- The closed ranges are right about the pages before the open one, in which all pages are
released. -/
structure Tracks (p : Nat) (released : Nat → Prop) (t : FreePagesRangeTracker) : Prop where
  closed : MaximalRanges p t.openFrom released t.recorder
  before : ∀ r ∈ t.recorder, r.2 < t.openFrom * p
  opened : ∀ j, t.openFrom ≤ j → j < t.currentPage → released j
  nonempty : t.inRange → t.openFrom < t.currentPage

variable {p : Nat} {released : Nat → Prop} {t : FreePagesRangeTracker}

theorem tracks_new : Tracks p released {} where
  closed := ⟨by simp, .nil, by simp [openFrom]⟩
  before := by simp
  opened j _ hj := absurd hj (Nat.not_lt_zero _)
  nonempty h := absurd h Bool.false_ne_true

/-- Nothing is open after `closeOpenedRange`, and all pages so far are accounted for. -/
theorem Tracks.close {pageSizeLog : Nat} (h : t.Tracks (2^pageSizeLog) released) :
    (t.closeOpenedRange pageSizeLog).inRange = false ∧
      (t.closeOpenedRange pageSizeLog).currentPage = t.currentPage ∧
      MaximalRanges (2^pageSizeLog) t.currentPage released (t.closeOpenedRange pageSizeLog).recorder ∧
      ∀ r ∈ (t.closeOpenedRange pageSizeLog).recorder, r.2 ≤ t.currentPage * 2^pageSizeLog := by
  have hpos := Nat.two_pow_pos pageSizeLog
  have hclosed := h.closed
  have hbefore := h.before
  have hopened := h.opened
  have hnonempty := h.nonempty
  rw [closeOpenedRange]
  split
  · next hin =>
    rw [openFrom, if_pos hin] at hclosed hbefore hopened hnonempty
    have hlt := hnonempty hin
    simp only [Nat.shiftLeft_eq]
    generalize 2^pageSizeLog = p at *
    refine ⟨trivial, trivial, ⟨?_, ?_, ?_⟩, ?_⟩
    · intro r hr
      rcases List.mem_append.mp hr with hold | hnew
      · exact hclosed.aligned r hold
      · rw [List.mem_singleton.mp hnew]
        exact ⟨Nat.dvd_mul_left _ _, Nat.dvd_mul_left _ _, Nat.mul_lt_mul_of_pos_right hlt hpos⟩
    · refine List.pairwise_append.mpr ⟨hclosed.separated, List.pairwise_singleton _ _, ?_⟩
      intro a ha b hb
      rw [List.mem_singleton.mp hb]
      exact hbefore a ha
    · intro j
      have hold := hclosed.covered j
      constructor
      · rintro ⟨r, hr, hlo, hhi⟩
        rcases List.mem_append.mp hr with hmem | hnew
        · obtain ⟨hj, hrel⟩ := hold.mp ⟨r, hmem, hlo, hhi⟩
          exact ⟨hj.trans hlt, hrel⟩
        · rw [List.mem_singleton.mp hnew] at hlo hhi
          have hj := Nat.le_of_mul_le_mul_right hlo hpos
          have hj' := Nat.le_of_mul_le_mul_right hhi hpos
          exact ⟨hj', hopened j hj hj'⟩
      · rintro ⟨hj, hrel⟩
        by_cases hs : j < t.currentRangeStatePage
        · obtain ⟨r, hr, hcov⟩ := hold.mpr ⟨hs, hrel⟩
          exact ⟨r, List.mem_append_left _ hr, hcov⟩
        · refine ⟨_, List.mem_append_right _ (List.mem_singleton.mpr rfl), ?_, ?_⟩
          · exact Nat.mul_le_mul_right p (by omega)
          · exact Nat.mul_le_mul_right p hj
    · intro r hr
      rcases List.mem_append.mp hr with hold | hnew
      · exact (hbefore r hold).le.trans (Nat.mul_le_mul_right p hlt.le)
      · rw [List.mem_singleton.mp hnew]
  · next hin =>
    rw [openFrom, if_neg hin] at hclosed hbefore
    exact ⟨by simpa using hin, rfl, hclosed, fun r hr => (hbefore r hr).le⟩

theorem Tracks.processNextPage {pageSizeLog : Nat} (h : t.Tracks (2^pageSizeLog) released)
    {b : Bool} (hb : b = true ↔ released t.currentPage) :
    (t.processNextPage pageSizeLog b).Tracks (2^pageSizeLog) released ∧
      (t.processNextPage pageSizeLog b).currentPage = t.currentPage + 1 := by
  have hpos := Nat.two_pow_pos pageSizeLog
  cases b with
  | true =>
    have hrel := hb.mp rfl
    by_cases hin : t.inRange
    · have hof : t.openFrom = t.currentRangeStatePage := by rw [openFrom, if_pos hin]
      have hclosed := h.closed
      have hbefore := h.before
      have hopened := h.opened
      have hlt := h.nonempty hin
      rw [hof] at hclosed hbefore hopened hlt
      simp only [FreePagesRangeTracker.processNextPage, hin, if_true, Bool.not_true,
        Bool.false_eq_true, if_false]
      refine ⟨⟨hclosed, hbefore, ?_, fun _ => Nat.lt_succ_of_lt hlt⟩, trivial⟩
      intro j hlo hhi
      rcases Nat.lt_succ_iff_lt_or_eq.mp hhi with hj | rfl
      · exact hopened j hlo hj
      · exact hrel
    · have hof : t.openFrom = t.currentPage := by rw [openFrom, if_neg hin]
      have hclosed := h.closed
      have hbefore := h.before
      rw [hof] at hclosed hbefore
      simp only [FreePagesRangeTracker.processNextPage, if_true, hin, Bool.not_false]
      refine ⟨⟨hclosed, hbefore, ?_, ?_⟩, trivial⟩
      · intro j hlo hhi
        rw [show j = t.currentPage from le_antisymm (Nat.lt_succ_iff.mp hhi) hlo]
        exact hrel
      · exact fun _ => Nat.lt_succ_self _
  | false =>
    have hrel : ¬ released t.currentPage := fun hr => absurd (hb.mpr hr) Bool.false_ne_true
    obtain ⟨hin, hpage, hclosed, hle⟩ := h.close
    simp only [FreePagesRangeTracker.processNextPage, Bool.false_eq_true, if_false, hpage]
    generalize t.closeOpenedRange pageSizeLog = t' at *
    generalize 2^pageSizeLog = p at *
    have hof : openFrom { t' with currentPage := t.currentPage + 1 } = t.currentPage + 1 := by
      rw [openFrom, if_neg (by simp [hin])]
    refine ⟨⟨⟨hclosed.aligned, hclosed.separated, ?_⟩, ?_, ?_, ?_⟩, trivial⟩
    · intro j
      rw [hof, hclosed.covered j]
      constructor
      · rintro ⟨hj, hr⟩
        exact ⟨Nat.lt_succ_of_lt hj, hr⟩
      · rintro ⟨hj, hr⟩
        rcases Nat.lt_succ_iff_lt_or_eq.mp hj with hlt | rfl
        · exact ⟨hlt, hr⟩
        · exact absurd hr hrel
    · rw [hof, Nat.succ_mul]
      intro r hr
      have hr' := hle r hr
      omega
    · rw [hof]
      intro j hlo hhi
      exact absurd hhi (not_lt.mpr hlo)
    · simp [hin]

theorem Tracks.finish {pageSizeLog : Nat} (h : t.Tracks (2^pageSizeLog) released) :
    MaximalRanges (2^pageSizeLog) t.currentPage released (t.finish pageSizeLog).recorder :=
  h.close.2.2.1

end FreePagesRangeTracker

end ScudoMte.Release
