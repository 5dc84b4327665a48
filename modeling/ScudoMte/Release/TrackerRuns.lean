import Mathlib.Algebra.Order.BigOperators.Group.List
import Mathlib.Data.List.Induction
import ScudoMte.Release.RangeTracker

namespace ScudoMte.Release

/-- A call of the page release loop on its `FreePagesRangeTracker`. -/
inductive TrackerCall
  | processNextPage (released : Bool)
  | skipPages (n : Nat)
  deriving DecidableEq

/-- The pages a call goes past. -/
def TrackerCall.pages : TrackerCall → Nat
  | processNextPage _ => 1
  | skipPages n => n

def pagesOf (calls : List TrackerCall) : Nat := (calls.map TrackerCall.pages).sum

/-- Some call finds page `k` current. -/
def CallAt (calls : List TrackerCall) (c : TrackerCall) (k : Nat) : Prop :=
  ∃ i, calls[i]? = some c ∧ pagesOf (calls.take i) = k

/-- Page `k` was processed with `b` true. -/
def ReleasedAt (calls : List TrackerCall) (k : Nat) : Prop :=
  CallAt calls (.processNextPage true) k

/-- `skipPages` was called when page `k` was the current one. -/
def SkippedAt (calls : List TrackerCall) (k : Nat) : Prop := ∃ n, CallAt calls (.skipPages n) k

/-- The pages from `r.1` to `r.2` are a run of `released` that is not cut anywhere inside, and that
neither end can be extended without going past a cut. -/
structure IsRun (released cut : Nat → Prop) (r : Nat × Nat) : Prop where
  nonempty : r.1 < r.2
  all : ∀ k, r.1 ≤ k → k < r.2 → released k
  uncut : ∀ k, r.1 < k → k < r.2 → ¬ cut k
  first : ∀ k, k + 1 = r.1 → released k → cut r.1
  last : released r.2 → cut r.2

/-- A maximal run of consecutive pages. -/
def IsMaximalRun (released : Nat → Prop) (r : Nat × Nat) : Prop :=
  IsRun released (fun _ => False) r

namespace FreePagesRangeTracker

def call (pageSizeLog : Nat) (t : FreePagesRangeTracker) : TrackerCall → FreePagesRangeTracker
  | .processNextPage released => t.processNextPage pageSizeLog released
  | .skipPages n => t.skipPages pageSizeLog n

/-- What the machine keeps of the tracker: every number is a `uptr`. -/
def wrapped (t : FreePagesRangeTracker) : FreePagesRangeTracker where
  recorder := t.recorder.map fun r => (r.1 % 2^64, r.2 % 2^64)
  inRange := t.inRange
  currentPage := t.currentPage % 2^64
  currentRangeStatePage := t.currentRangeStatePage % 2^64

/-- The calls on a new tracker, then `finish`, in `uptr` arithmetic. -/
def track (pageSizeLog : Nat) (calls : List TrackerCall) : FreePagesRangeTracker :=
  ((calls.foldl (fun t c => wrapped (call pageSizeLog t c)) {}).finish pageSizeLog).wrapped

end FreePagesRangeTracker

/-- The bytes of a run of pages, as `uptr`s. -/
def bytesOf (pageSizeLog : Nat) (r : Nat × Nat) : Nat × Nat :=
  ((r.1 <<< pageSizeLog) % 2^64, (r.2 <<< pageSizeLog) % 2^64)

section Calls

variable {calls : List TrackerCall} {c d : TrackerCall} {k : Nat}

theorem pagesOf_concat : pagesOf (calls ++ [c]) = pagesOf calls + c.pages := by
  simp [pagesOf]

theorem callAt_concat :
    CallAt (calls ++ [c]) d k ↔ CallAt calls d k ∨ (c = d ∧ k = pagesOf calls) := by
  constructor
  · intro ⟨i, hi, hk⟩
    rcases Nat.lt_or_ge i calls.length with hlt | hge
    · rw [List.getElem?_append_left hlt] at hi
      rw [List.take_append_of_le_length hlt.le] at hk
      exact .inl ⟨i, hi, hk⟩
    · have hlen : i < (calls ++ [c]).length := (List.getElem?_eq_some_iff.mp hi).1
      have hi' : i = calls.length := by simp at hlen; omega
      subst hi'
      rw [List.getElem?_concat_length] at hi
      rw [List.take_left] at hk
      exact .inr ⟨Option.some.inj hi, hk.symm⟩
  · intro h
    rcases h with ⟨i, hi, hk⟩ | ⟨rfl, rfl⟩
    · have hlt := (List.getElem?_eq_some_iff.mp hi).1
      refine ⟨i, ?_, ?_⟩
      · rw [List.getElem?_append_left hlt]
        exact hi
      · rw [List.take_append_of_le_length hlt.le]
        exact hk
    · exact ⟨calls.length, List.getElem?_concat_length, by rw [List.take_left]⟩

theorem pagesOf_take_le {i j : Nat} (hij : i ≤ j) :
    pagesOf (calls.take i) ≤ pagesOf (calls.take j) := by
  have hsub := (List.take_sublist_take_left hij : (calls.take i).Sublist (calls.take j))
  exact (hsub.map TrackerCall.pages).sum_le_sum fun _ _ => Nat.zero_le _

theorem pagesOf_take_succ {i : Nat} (hi : calls[i]? = some c) :
    pagesOf (calls.take (i+1)) = pagesOf (calls.take i) + c.pages := by
  rw [List.take_add_one, hi]
  exact pagesOf_concat

theorem CallAt.le (h : CallAt calls c k) : k + c.pages ≤ pagesOf calls := by
  obtain ⟨i, hi, rfl⟩ := h
  have hlt := (List.getElem?_eq_some_iff.mp hi).1
  rw [← pagesOf_take_succ hi]
  have hle := @pagesOf_take_le calls (i+1) calls.length hlt
  rwa [List.take_length] at hle

/-- A page is gone past by one call only. -/
theorem CallAt.eq (hc : CallAt calls c k) (hd : CallAt calls d k) (hc0 : 0 < c.pages)
    (hd0 : 0 < d.pages) : c = d := by
  obtain ⟨i, hi, hik⟩ := hc
  obtain ⟨j, hj, hjk⟩ := hd
  rcases Nat.lt_trichotomy i j with hlt | rfl | hlt
  · have hle := @pagesOf_take_le calls (i+1) j hlt
    rw [pagesOf_take_succ hi] at hle
    omega
  · rw [hi] at hj
    exact Option.some.inj hj
  · have hle := @pagesOf_take_le calls (j+1) i hlt
    rw [pagesOf_take_succ hj] at hle
    omega

theorem ReleasedAt.lt (h : ReleasedAt calls k) : k < pagesOf calls := CallAt.le h

theorem SkippedAt.le (h : SkippedAt calls k) : k ≤ pagesOf calls := by
  obtain ⟨n, h⟩ := h
  exact Nat.le_of_add_right_le h.le

theorem releasedAt_next {b : Bool} : ReleasedAt (calls ++ [.processNextPage b]) k ↔
    ReleasedAt calls k ∨ (b = true ∧ k = pagesOf calls) := by
  rw [ReleasedAt, callAt_concat, TrackerCall.processNextPage.injEq]
  exact Iff.rfl

theorem releasedAt_skip {n : Nat} :
    ReleasedAt (calls ++ [.skipPages n]) k ↔ ReleasedAt calls k := by
  rw [ReleasedAt, callAt_concat]
  simp [ReleasedAt]

theorem skippedAt_next {b : Bool} :
    SkippedAt (calls ++ [.processNextPage b]) k ↔ SkippedAt calls k := by
  simp [SkippedAt, callAt_concat]

theorem skippedAt_skip {n : Nat} : SkippedAt (calls ++ [.skipPages n]) k ↔
    SkippedAt calls k ∨ k = pagesOf calls := by
  simp only [SkippedAt, callAt_concat, TrackerCall.skipPages.injEq]
  constructor
  · intro ⟨m, h⟩
    exact h.imp (fun h => ⟨m, h⟩) (fun h => h.2)
  · intro h
    rcases h with ⟨m, h⟩ | h
    · exact ⟨m, .inl h⟩
    · exact ⟨n, .inr ⟨rfl, h⟩⟩

/-- When every `skipPages` skips some page, a page that is skipped is not released. -/
theorem SkippedAt.not_released (hpos : ∀ n, .skipPages n ∈ calls → 0 < n) (h : SkippedAt calls k) :
    ¬ ReleasedAt calls k := by
  intro hr
  obtain ⟨n, hs⟩ := h
  obtain ⟨i, hi, -⟩ := id hs
  have hn := hpos n (List.mem_of_getElem? hi)
  exact TrackerCall.noConfusion (CallAt.eq hs hr hn Nat.one_pos)

end Calls

namespace IsRun

variable {released cut released' cut' : Nat → Prop} {r : Nat × Nat} {n : Nat}

theorem le (h : IsRun released cut r) (hlt : ∀ k, released k → k < n) : r.2 ≤ n := by
  have hne := h.nonempty
  have hlast := hlt (r.2-1) (h.all _ (by omega) (by omega))
  omega

/-- A run depends on the pages before its end, and on nothing more than that it does stop there. -/
theorem transfer (h : IsRun released cut r) (hr : ∀ k < r.2, released k ↔ released' k)
    (hc : ∀ k < r.2, cut k ↔ cut' k) (hl : released' r.2 → cut' r.2) : IsRun released' cut' r := by
  have hne := h.nonempty
  refine ⟨hne, ?_, ?_, ?_, hl⟩
  · intro k hk hk'
    exact (hr k hk').mp (h.all k hk hk')
  · intro k hk hk' hcut
    exact h.uncut k hk hk' ((hc k hk').mpr hcut)
  · intro k hk hrel
    exact (hc _ hne).mp (h.first k hk ((hr k (by omega)).mpr hrel))

/-- A run that ends before another one ends does not reach into it. -/
theorem snd_le_fst {s : Nat × Nat} (hr : IsRun released cut r) (hs : IsRun released cut s)
    (h : r.2 < s.2) : r.2 ≤ s.1 := by
  by_contra hlt
  have hrel := hs.all r.2 (by omega) h
  exact hs.uncut r.2 (by omega) h (hr.last hrel)

/-- Two runs that end at the same page are the same. -/
theorem eq_of_snd_eq {s : Nat × Nat} (hr : IsRun released cut r) (hs : IsRun released cut s)
    (h : r.2 = s.2) : r = s := by
  have aux : ∀ {r s : Nat × Nat}, IsRun released cut r → IsRun released cut s → r.2 = s.2 →
      r.1 ≤ s.1 := by
    intro r s hr hs h
    by_contra hlt
    have hne := hr.nonempty
    have hrel := hs.all (r.1-1) (by omega) (by omega)
    exact hs.uncut r.1 (by omega) (by omega) (hr.first _ (by omega) hrel)
  exact Prod.ext (le_antisymm (aux hr hs h) (aux hs hr h.symm)) h

/-- Cuts where no page is released on either side change nothing. -/
theorem isMaximalRun_iff (hc : ∀ k, cut k → ¬ released k) :
    IsRun released cut r ↔ IsMaximalRun released r := by
  constructor
  · intro h
    refine ⟨h.nonempty, h.all, fun _ _ _ => id, ?_, ?_⟩
    · intro k hk hrel
      exact hc _ (h.first k hk hrel) (h.all _ le_rfl h.nonempty)
    · intro hrel
      exact hc _ (h.last hrel) hrel
  · intro h
    refine ⟨h.nonempty, h.all, ?_, ?_, ?_⟩
    · intro k hk hk' hcut
      exact hc k hcut (h.all k hk.le hk')
    · intro k hk hrel
      exact (h.first k hk hrel).elim
    · intro hrel
      exact (h.last hrel).elim

end IsRun

namespace FreePagesRangeTracker

/-- The tracker after some calls: it has reported all runs but the one that it is in. -/
structure Follows (pageSizeLog : Nat) (calls : List TrackerCall) (runs : List (Nat × Nat))
    (t : FreePagesRangeTracker) : Prop where
  page : t.currentPage = pagesOf calls
  recorder : t.recorder = runs.map fun r => (r.1 <<< pageSizeLog, r.2 <<< pageSizeLog)
  sorted : runs.Pairwise fun a b => a.2 ≤ b.1
  exact : ∀ r, r ∈ runs ↔ IsRun (ReleasedAt calls) (SkippedAt calls) r ∧
    ¬ (t.inRange ∧ r.2 = pagesOf calls)
  opened : t.inRange → IsRun (ReleasedAt calls) (SkippedAt calls)
    (t.currentRangeStatePage, pagesOf calls) ∧ ¬ SkippedAt calls (pagesOf calls)
  fresh : t.inRange = false → ∀ k, k + 1 = pagesOf calls → ReleasedAt calls k →
    SkippedAt calls (pagesOf calls)

variable {pageSizeLog : Nat} {calls : List TrackerCall} {runs : List (Nat × Nat)}
  {t : FreePagesRangeTracker}

theorem follows_new : Follows pageSizeLog [] [] {} where
  page := rfl
  recorder := rfl
  sorted := .nil
  exact r := by
    refine ⟨fun h => absurd h List.not_mem_nil, fun h => ?_⟩
    have hrel := h.1.all _ le_rfl h.1.nonempty
    exact absurd hrel.lt (Nat.not_lt_zero _)
  opened h := absurd h Bool.false_ne_true
  fresh _ k hk := absurd hk (Nat.succ_ne_zero k)

/-- `closeOpenedRange` reports the run that the tracker is in. -/
theorem Follows.close (h : t.Follows pageSizeLog calls runs) :
    ∃ runs' : List (Nat × Nat), (t.closeOpenedRange pageSizeLog).inRange = false ∧
      (t.closeOpenedRange pageSizeLog).currentPage = pagesOf calls ∧
      (t.closeOpenedRange pageSizeLog).recorder =
        runs'.map (fun r => (r.1 <<< pageSizeLog, r.2 <<< pageSizeLog)) ∧
      runs'.Pairwise (fun a b => a.2 ≤ b.1) ∧
      ∀ r, r ∈ runs' ↔ IsRun (ReleasedAt calls) (SkippedAt calls) r := by
  rw [closeOpenedRange]
  split
  · next hin =>
    obtain ⟨hrun, -⟩ := h.opened hin
    refine ⟨runs ++ [(t.currentRangeStatePage, pagesOf calls)], rfl, h.page, ?_, ?_, ?_⟩
    · rw [List.map_append, ← h.recorder, h.page, List.map_singleton]
    · refine List.pairwise_append.mpr ⟨h.sorted, List.pairwise_singleton _ _, ?_⟩
      intro a ha b hb
      rw [List.mem_singleton.mp hb]
      obtain ⟨ha, hend⟩ := (h.exact a).mp ha
      have hle := ha.le fun k hk => hk.lt
      exact ha.snd_le_fst hrun (lt_of_le_of_ne hle fun heq => hend ⟨hin, heq⟩)
    · intro r
      rw [List.mem_append, h.exact r, List.mem_singleton]
      constructor
      · intro hr
        rcases hr with hr | rfl
        · exact hr.1
        · exact hrun
      · intro hr
        by_cases hend : r.2 = pagesOf calls
        · exact .inr (hr.eq_of_snd_eq hrun hend)
        · exact .inl ⟨hr, fun he => hend he.2⟩
  · next hin =>
    refine ⟨runs, by simpa using hin, h.page, h.recorder, h.sorted, fun r => ?_⟩
    rw [h.exact r]
    exact ⟨And.left, fun hr => ⟨hr, fun he => hin he.1⟩⟩

theorem Follows.next_true (h : t.Follows pageSizeLog calls runs) :
    (t.processNextPage pageSizeLog true).Follows pageSizeLog
      (calls ++ [.processNextPage true]) runs := by
  have hpages : pagesOf (calls ++ [.processNextPage true]) = pagesOf calls + 1 := pagesOf_concat
  have hin : (t.processNextPage pageSizeLog true).inRange = true := by
    cases hin : t.inRange <;> simp [FreePagesRangeTracker.processNextPage, hin]
  have hpage : (t.processNextPage pageSizeLog true).currentPage = pagesOf calls + 1 := by
    rw [← h.page]
    cases hin : t.inRange <;> simp [FreePagesRangeTracker.processNextPage, hin]
  have hrec : (t.processNextPage pageSizeLog true).recorder = t.recorder := by
    cases hin : t.inRange <;> simp [FreePagesRangeTracker.processNextPage, hin]
  have hstart : (t.processNextPage pageSizeLog true).currentRangeStatePage = t.openFrom := by
    cases hin : t.inRange <;> simp [FreePagesRangeTracker.processNextPage, openFrom, hin]
  have hnew : ReleasedAt (calls ++ [.processNextPage true]) (pagesOf calls) :=
    releasedAt_next.mpr (.inr ⟨rfl, rfl⟩)
  have hold : ∀ k < pagesOf calls, ReleasedAt calls k ↔
      ReleasedAt (calls ++ [.processNextPage true]) k := by
    intro k hk
    rw [releasedAt_next]
    exact ⟨.inl, fun hk' => hk'.resolve_right fun he => by omega⟩
  refine ⟨hpage.trans hpages.symm, hrec.trans h.recorder, h.sorted, ?_, ?_, ?_⟩
  · intro r
    rw [h.exact r, hin, hpages]
    constructor
    · intro h'
      obtain ⟨hr, hend⟩ := h'
      have hle := hr.le fun k hk => hk.lt
      refine ⟨hr.transfer (fun k hk => hold k (hk.trans_le hle)) (fun k _ => skippedAt_next.symm) ?_,
        by omega⟩
      intro hrel
      rw [skippedAt_next]
      rcases releasedAt_next.mp hrel with hrel | ⟨-, hn⟩
      · exact hr.last hrel
      · -- the run ends where this call processes a page: there the last call was a skip
        have hfresh := h.fresh (by simpa using fun hin => hend ⟨hin, hn⟩) (r.2-1)
        have hne := hr.nonempty
        rw [hn] at hfresh hne ⊢
        exact hfresh (by omega) (hn ▸ hr.all _ (by omega) (by omega))
    · intro h'
      obtain ⟨hr, hend⟩ := h'
      have hle := hr.le fun k hk => hk.lt
      rw [hpages] at hle
      have hle' : r.2 ≤ pagesOf calls := by simp only [true_and] at hend; omega
      refine ⟨hr.transfer (fun k hk => (hold k (hk.trans_le hle')).symm)
        (fun k _ => skippedAt_next) ?_, ?_⟩
      · intro hrel
        exact skippedAt_next.mp (hr.last (releasedAt_next.mpr (.inl hrel)))
      · intro hcut
        obtain ⟨hopen, hn⟩ := hcut
        exact (h.opened hopen).2 (hn ▸ skippedAt_next.mp (hr.last (hn ▸ hnew)))
  · intro _
    rw [hstart, hpages]
    have hstop : ¬ SkippedAt (calls ++ [.processNextPage true]) (pagesOf calls + 1) := by
      intro hs
      have hle := (skippedAt_next.mp hs).le
      omega
    have hlast : ¬ ReleasedAt (calls ++ [.processNextPage true]) (pagesOf calls + 1) := by
      intro hr
      have hlt := hr.lt
      omega
    refine ⟨?_, hstop⟩
    by_cases hopen : t.inRange
    · obtain ⟨hrun, hskip⟩ := h.opened hopen
      have hne := hrun.nonempty
      rw [openFrom, if_pos hopen]
      simp only at hne
      refine ⟨Nat.lt_succ_of_lt hne, ?_, ?_, ?_, fun hr => absurd hr hlast⟩
      · intro k hk hk'
        rcases Nat.lt_succ_iff_lt_or_eq.mp hk' with hlt | rfl
        · exact (hold k hlt).mp (hrun.all k hk hlt)
        · exact hnew
      · intro k hk hk' hs
        rcases Nat.lt_succ_iff_lt_or_eq.mp hk' with hlt | rfl
        · exact hrun.uncut k hk hlt (skippedAt_next.mp hs)
        · exact hskip (skippedAt_next.mp hs)
      · intro k hk hr
        simp only at hk
        exact skippedAt_next.mpr (hrun.first k hk ((hold k (by omega)).mpr hr))
    · rw [openFrom, if_neg hopen, h.page]
      refine ⟨Nat.lt_succ_self _, ?_, ?_, ?_, fun hr => absurd hr hlast⟩
      · intro k hk hk'
        rw [show k = pagesOf calls by simp only at hk hk'; omega]
        exact hnew
      · intro k hk hk' _
        simp only at hk hk'
        omega
      · intro k hk hr
        simp only at hk
        exact skippedAt_next.mpr (h.fresh (by simpa using hopen) k hk ((hold k (by omega)).mpr hr))
  · intro hout
    exact absurd (hin.symm.trans hout) (by decide)

/-- A call that processes no page with `b` true only ends the run that the tracker is in. -/
theorem Follows.ended (h : t.Follows pageSizeLog calls runs) {calls' : List TrackerCall}
    {t' : FreePagesRangeTracker} (hin : t'.inRange = (t.closeOpenedRange pageSizeLog).inRange)
    (hrec : t'.recorder = (t.closeOpenedRange pageSizeLog).recorder)
    (hpage : t'.currentPage = pagesOf calls') (hle : pagesOf calls ≤ pagesOf calls')
    (hR : ∀ k, ReleasedAt calls' k ↔ ReleasedAt calls k)
    (hS : ∀ k < pagesOf calls, SkippedAt calls' k ↔ SkippedAt calls k)
    (hcut : pagesOf calls' = pagesOf calls → SkippedAt calls' (pagesOf calls)) :
    ∃ runs', t'.Follows pageSizeLog calls' runs' := by
  obtain ⟨runs', hout, -, hrec', hsorted, hexact⟩ := h.close
  have hout' : ¬ t'.inRange = true := by rw [hin, hout]; decide
  refine ⟨runs', hpage, hrec.trans hrec', hsorted, ?_, fun hopen => absurd hopen hout', ?_⟩
  · intro r
    rw [hexact r]
    constructor
    · intro hr
      have hend := hr.le fun k hk => hk.lt
      refine ⟨hr.transfer (fun k _ => (hR k).symm) (fun k hk => (hS k (hk.trans_le hend)).symm) ?_,
        fun he => hout' he.1⟩
      intro hrel
      have hrel' := (hR _).mp hrel
      exact (hS _ hrel'.lt).mpr (hr.last hrel')
    · rintro ⟨hr, -⟩
      have hend := hr.le fun k hk => ((hR k).mp hk).lt
      refine hr.transfer (fun k _ => hR k) (fun k hk => hS k (hk.trans_le hend)) ?_
      intro hrel
      exact (hS _ hrel.lt).mp (hr.last ((hR _).mpr hrel))
  · intro _ k hk hrel
    have hlt := ((hR k).mp hrel).lt
    have heq : pagesOf calls' = pagesOf calls := by omega
    rw [heq]
    exact hcut heq

theorem Follows.call (h : t.Follows pageSizeLog calls runs) (c : TrackerCall) :
    ∃ runs', (t.call pageSizeLog c).Follows pageSizeLog (calls ++ [c]) runs' := by
  have hpages : pagesOf (calls ++ [c]) = pagesOf calls + c.pages := pagesOf_concat
  obtain ⟨-, -, hpage, -⟩ := h.close
  cases c with
  | processNextPage b =>
    cases b with
    | true => exact ⟨runs, h.next_true⟩
    | false =>
      simp only [TrackerCall.pages] at hpages
      refine h.ended rfl rfl ?_ (by omega) ?_ (fun k _ => skippedAt_next) (fun he => by omega)
      · rw [hpages, ← hpage]
        rfl
      · intro k
        rw [releasedAt_next]
        simp
  | skipPages n =>
    simp only [TrackerCall.pages] at hpages
    refine h.ended rfl rfl ?_ (by omega) (fun k => releasedAt_skip) ?_
      (fun _ => skippedAt_skip.mpr (.inr rfl))
    · rw [hpages, ← hpage]
      rfl
    · intro k hk
      rw [skippedAt_skip]
      exact ⟨fun hs => hs.resolve_right hk.ne, .inl⟩

theorem follows_calls (pageSizeLog : Nat) (calls : List TrackerCall) :
    ∃ runs, (calls.foldl (call pageSizeLog) {}).Follows pageSizeLog calls runs := by
  induction calls using List.reverseRecOn with
  | nil => exact ⟨[], follows_new⟩
  | append_singleton calls c ih =>
    obtain ⟨runs, h⟩ := ih
    rw [List.foldl_append]
    exact h.call c

section Words

/-- The shift drops what the modulus drops. -/
theorem mod_shiftLeft_mod (x n : Nat) : (x % 2^64) <<< n % 2^64 = x <<< n % 2^64 := by
  rw [Nat.shiftLeft_eq, Nat.shiftLeft_eq, Nat.mod_mul_mod]

theorem wrapped_closeOpenedRange (t : FreePagesRangeTracker) :
    (t.wrapped.closeOpenedRange pageSizeLog).wrapped = (t.closeOpenedRange pageSizeLog).wrapped := by
  cases hin : t.inRange with
  | false => simp [closeOpenedRange, wrapped, hin]
  | true =>
    have hstart := mod_shiftLeft_mod t.currentRangeStatePage pageSizeLog
    have hpage := mod_shiftLeft_mod t.currentPage pageSizeLog
    simpa [closeOpenedRange, wrapped, hin] using And.intro hstart hpage

/-- A number that is only added to may be reduced before or after. -/
theorem wrapped_forward {t t' : FreePagesRangeTracker} (h : t.wrapped = t'.wrapped) (n : Nat) :
    wrapped { t with currentPage := t.currentPage + n } =
      wrapped { t' with currentPage := t'.currentPage + n } := by
  simp only [wrapped, mk.injEq] at h ⊢
  obtain ⟨hrec, hin, hpage, hstart⟩ := h
  refine ⟨hrec, hin, ?_, hstart⟩
  rw [Nat.add_mod, hpage, ← Nat.add_mod]

theorem wrapped_call (t : FreePagesRangeTracker) (c : TrackerCall) :
    (t.wrapped.call pageSizeLog c).wrapped = (t.call pageSizeLog c).wrapped := by
  cases c with
  | skipPages n => exact wrapped_forward (wrapped_closeOpenedRange t) n
  | processNextPage b =>
    refine wrapped_forward ?_ 1
    cases b with
    | false => exact wrapped_closeOpenedRange t
    | true => cases hin : t.inRange <;> simp [wrapped, hin]

theorem wrapped_calls (t : FreePagesRangeTracker) (calls : List TrackerCall) :
    calls.foldl (fun t c => wrapped (call pageSizeLog t c)) t.wrapped =
      (calls.foldl (call pageSizeLog) t).wrapped := by
  induction calls generalizing t with
  | nil => rfl
  | cons c calls ih => rw [List.foldl_cons, List.foldl_cons, wrapped_call, ih]

theorem track_recorder (calls : List TrackerCall) :
    (track pageSizeLog calls).recorder =
      ((calls.foldl (call pageSizeLog) {}).finish pageSizeLog).wrapped.recorder := by
  rw [track, show ({} : FreePagesRangeTracker) = wrapped {} from rfl, wrapped_calls]
  exact congrArg _ (wrapped_closeOpenedRange _)

end Words

/-- A `skipPages` that skips no page ends a run all the same. -/
theorem track_skipNone : ¬ ∀ (pageSizeLog : Nat) (calls : List TrackerCall),
    ∃ runs : List (Nat × Nat), runs.Pairwise (fun a b => a.2 < b.1) ∧
      (∀ r, r ∈ runs ↔ IsMaximalRun (ReleasedAt calls) r) ∧
      (track pageSizeLog calls).recorder = runs.map (bytesOf pageSizeLog) := by
  intro h
  obtain ⟨runs, hsorted, hexact, hrec⟩ :=
    h 12 [.processNextPage true, .skipPages 0, .processNextPage true]
  have hruns : runs.map (bytesOf 12) = [(0, 4096), (4096, 8192)] := by
    rw [← hrec]
    decide
  obtain ⟨r, rest, rfl, hr, -⟩ := List.map_eq_cons_iff.mp hruns
  have hrun := (hexact r).mp List.mem_cons_self
  have hle : r.2 ≤ 2 := hrun.le fun k hk => hk.lt
  have hone : r.2 = 1 := by
    have hend := congrArg Prod.snd hr
    simp only [bytesOf, Nat.shiftLeft_eq] at hend
    omega
  exact hrun.last ⟨2, rfl, hone.symm⟩

/-- The tracker reports the runs of pages that are processed with `b` true, in order, where a
`skipPages` always ends a run; they are the maximal runs when every `skipPages` skips some page. -/
theorem track_reports_runs (pageSizeLog : Nat) (calls : List TrackerCall) :
    ∃ runs : List (Nat × Nat), runs.Pairwise (fun a b => a.2 ≤ b.1) ∧
      (∀ r, r ∈ runs ↔ IsRun (ReleasedAt calls) (SkippedAt calls) r) ∧
      (track pageSizeLog calls).recorder = runs.map (bytesOf pageSizeLog) ∧
      ((∀ n, .skipPages n ∈ calls → 0 < n) → runs.Pairwise (fun a b => a.2 < b.1) ∧
        ∀ r, r ∈ runs ↔ IsMaximalRun (ReleasedAt calls) r) := by
  obtain ⟨_, h⟩ := follows_calls pageSizeLog calls
  obtain ⟨runs, -, -, hrec, hsorted, hexact⟩ := h.close
  refine ⟨runs, hsorted, hexact, ?_, fun hpos => ?_⟩
  · rw [track_recorder, finish, wrapped, hrec, List.map_map]
    rfl
  · have hmax : ∀ r, r ∈ runs ↔ IsMaximalRun (ReleasedAt calls) r := by
      intro r
      rw [hexact r]
      exact IsRun.isMaximalRun_iff fun k hk => hk.not_released hpos
    refine ⟨hsorted.imp_of_mem ?_, hmax⟩
    intro a b ha hb hle
    refine lt_of_le_of_ne hle fun heq => ?_
    have hrun := (hmax b).mp hb
    exact ((hmax a).mp ha).last (heq ▸ hrun.all _ le_rfl hrun.nonempty)

end FreePagesRangeTracker

end ScudoMte.Release
