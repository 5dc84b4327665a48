import ScudoMte.Release.Groups

namespace ScudoMte.Release

open BlockGrid

namespace GroupedRegion

variable {a : GroupedRegion} {c : PageReleaseContext} {m : RegionPageMap}
  {marked : Nat → Finset Nat}

/-- The start of a group in the region. -/
def groupBegin (a : GroupedRegion) (g : BatchGroup) : Nat :=
  g.compactPtrGroupBase <<< a.compactPtrScale

/-- The end of what the region uses of a group. -/
def groupUsedEnd (a : GroupedRegion) (g : BatchGroup) : Nat :=
  min (a.groupBegin g + a.groupSize) a.allocatedUser

/-- The region is made of whole blocks, and the groups of whole pages. -/
structure WellFormed (a : GroupedRegion) : Prop where
  blockSize : 0 < a.blockSize
  blocks : a.blockSize ∣ a.allocatedUser
  groupSize : 0 < a.groupSize
  pages : 2^a.pageSizeLog ∣ a.groupSize
  fits : a.allocatedUser + 2^a.pageSizeLog + 64 ≤ 2^64

/-- The page map covers the groups and no page behind the region. -/
structure Covers (a : GroupedRegion) (c : PageReleaseContext) (groups : List BatchGroup) : Prop where
  blockSize : c.blockSize = a.blockSize
  pages : ∀ i < c.pagesCount, (c.releasePageOffset + i) * 2^a.pageSizeLog < a.allocatedUser
  offset_le : ∀ g ∈ groups, c.releasePageOffset * 2^a.pageSizeLog ≤ a.groupBegin g
  le_end : ∀ g ∈ groups,
    a.groupUsedEnd g ≤ (c.releasePageOffset + c.pagesCount) * 2^a.pageSizeLog

/-- The blocks that start in a group. -/
theorem HoldsFree.blockNumbers {g : BatchGroup} (hg : a.HoldsFree g) (ha : a.WellFormed) :
    ∃ l : List Nat, g.batches.flatten.map (fun ptr => a.decompactPtr ptr - a.regionBeg) =
        l.map (· * a.blockSize) ∧ l.Nodup ∧
      (∀ i ∈ l, (i+1) * a.blockSize ≤ a.allocatedUser ∧ a.groupBegin g ≤ i * a.blockSize ∧
        i * a.blockSize < a.groupUsedEnd g) ∧
      (∀ i, i ∈ l ↔ a.FreeIn g i) ∧ l.length = g.batches.flatten.length := by
  refine exists_blockNumbers ha.blockSize hg.nodup ?_
  intro ptr hptr
  obtain ⟨i, hi, heq, hlo, hhi⟩ := hg.block ptr hptr
  have hb := ha.blockSize
  rw [heq, decompactGroupBase] at hlo hhi
  rw [Nat.succ_mul] at hi
  refine ⟨i, ⟨by rwa [Nat.succ_mul], ?_, ?_⟩, heq⟩
  · rw [groupBegin]
    omega
  · rw [groupUsedEnd, groupBegin]
    omega

/-- A group has as many blocks as its batches say. -/
theorem HoldsFree.numBlocks {g : BatchGroup} (hg : a.HoldsFree g) :
    (g.batches.length - 1) * g.maxCachedPerBatch + (g.batches.headD []).length =
      g.batches.flatten.length := by
  have hfull := hg.full
  cases hbatches : g.batches with
  | nil => exact absurd (by rw [hbatches]; rfl) hg.nonempty
  | cons front rest =>
    rw [hbatches] at hfull
    have hrest (l : List (List Nat)) (hl : ∀ b ∈ l, b.length = g.maxCachedPerBatch) :
        l.flatten.length = l.length * g.maxCachedPerBatch := by
      induction l with
      | nil => simp
      | cons b l ih =>
        rw [List.flatten_cons, List.length_append, hl b List.mem_cons_self,
          ih fun x hx => hl x (List.mem_cons_of_mem b hx), List.length_cons, Nat.succ_mul,
          Nat.add_comm]
    rw [List.flatten_cons, List.length_append, hrest rest hfull, List.headD_cons,
      List.length_cons, Nat.add_sub_cancel, Nat.add_comm]

/-- The count that `markFreeBlocks` compares with is never below the number of blocks that start
in a range. -/
theorem startsIn_le_maxContained {b lo hi : Nat} (hb : 0 < b) (hle : lo ≤ hi) :
    (hi + b - 1) / b - (lo + b - 1) / b ≤
      if hi % b = 0 then (hi - lo) / b else (hi - lo) / b + 1 := by
  obtain ⟨hlo, -⟩ := ceil_spec hb lo
  have hdiv := Nat.div_add_mod hi b
  have hmod := Nat.mod_lt hi hb
  rw [Nat.mul_comm] at hdiv
  generalize (lo + b - 1) / b = s at *
  have hwhole : hi / b - s ≤ (hi - lo) / b := by
    rw [Nat.le_div_iff_mul_le hb, Nat.sub_mul]
    omega
  split
  · rw [ceil_eq hb (i := hi/b) (by omega) (by omega)]
    exact hwhole
  · have hsucc : (hi/b + 1) * b = hi/b*b + b := Nat.succ_mul _ _
    rw [ceil_eq hb (i := hi/b + 1) (by omega) (by omega)]
    omega

/-- Where the counts agree, all blocks that start in the group are free. -/
theorem HoldsFree.all_free {g : BatchGroup} (hg : a.HoldsFree g) (ha : a.WellFormed)
    (hle : a.groupBegin g ≤ a.groupUsedEnd g)
    (hcount : (g.batches.length - 1) * g.maxCachedPerBatch + (g.batches.headD []).length =
      if a.groupUsedEnd g % a.blockSize = 0 then (a.groupUsedEnd g - a.groupBegin g) / a.blockSize
      else (a.groupUsedEnd g - a.groupBegin g) / a.blockSize + 1) {i : Nat}
    (hlo : a.groupBegin g ≤ i * a.blockSize) (hhi : i * a.blockSize < a.groupUsedEnd g) :
    a.FreeIn g i := by
  obtain ⟨l, -, hnodup, hl, hmem, hlen⟩ := hg.blockNumbers ha
  have hb := ha.blockSize
  have hsub : l.toFinset ⊆ Finset.Ico ((a.groupBegin g + a.blockSize - 1) / a.blockSize)
      ((a.groupUsedEnd g + a.blockSize - 1) / a.blockSize) := by
    intro x hx
    obtain ⟨-, hxlo, hxhi⟩ := hl x (List.mem_toFinset.mp hx)
    rw [Finset.mem_Ico]
    exact ⟨not_lt.mp fun h => absurd ((lt_ceil_iff hb).mp h) (not_lt.mpr hxlo),
      (lt_ceil_iff hb).mpr hxhi⟩
  have hmax := startsIn_le_maxContained hb hle
  rw [← hcount, hg.numBlocks, ← hlen, ← List.toFinset_card_of_nodup hnodup] at hmax
  have heq := Finset.eq_of_subset_of_card_le hsub (by rw [Nat.card_Ico]; exact hmax)
  rw [← hmem, ← List.mem_toFinset, heq, Finset.mem_Ico]
  exact ⟨not_lt.mp fun h => absurd ((lt_ceil_iff hb).mp h) (not_lt.mpr hlo),
    (lt_ceil_iff hb).mpr hhi⟩

/-- What is known once some groups are marked, the last of which ends at `e`: only free blocks of
these groups are marked, and blocks behind the region; and no later group has blocks that are. -/
structure GroupsMarked (a : GroupedRegion) (c : PageReleaseContext) (m : RegionPageMap)
    (marked : Nat → Finset Nat) (groups : List BatchGroup) (e : Nat) : Prop where
  marks : Marks a.pageSizeLog c 0 m marked
  free : ∀ j < c.pagesCount, ∀ i ∈ marked (c.releasePageOffset + j),
    a.allocatedUser ≤ i * a.blockSize ∨ ∃ g ∈ groups, a.FreeIn g i
  before : ∀ j < c.pagesCount, ∀ i ∈ marked (c.releasePageOffset + j),
    i * a.blockSize < e ∨ ∀ i', (i'+1) * a.blockSize ≤ a.allocatedUser → i' * a.blockSize < e

/-- `markGroup` in terms of addresses in the region. -/
theorem markGroup_eq {g : BatchGroup} (hlt : a.groupBegin g < a.groupUsedEnd g) (mapped : Bool) :
    a.markGroup mapped c g =
      if (g.batches.length - 1) * g.maxCachedPerBatch + (g.batches.headD []).length =
          if a.groupUsedEnd g % a.blockSize = 0 then
            (a.groupUsedEnd g - a.groupBegin g) / a.blockSize
          else (a.groupUsedEnd g - a.groupBegin g) / a.blockSize + 1 then
        c.markRangeAsAllCounted a.pageSizeLog mapped (a.regionBeg + a.groupBegin g)
          (a.regionBeg + a.groupUsedEnd g) a.regionBeg 0 a.allocatedUser
      else
        c.markFreeBlocksInRegion a.pageSizeLog mapped g.batches a.decompactPtr a.regionBeg 0
          a.allocatedUser (a.groupUsedEnd g = a.allocatedUser) := by
  have hbase : a.decompactGroupBase g = a.regionBeg + a.groupBegin g := rfl
  have hsize : (if a.allocatedUserEnd ≥ a.regionBeg + a.groupBegin g + a.groupSize then a.groupSize
      else a.allocatedUserEnd - (a.regionBeg + a.groupBegin g)) =
      a.groupUsedEnd g - a.groupBegin g := by
    rw [groupUsedEnd] at hlt ⊢
    rw [allocatedUserEnd]
    split <;> omega
  have hend : a.regionBeg + a.groupBegin g + (a.groupUsedEnd g - a.groupBegin g) =
      a.regionBeg + a.groupUsedEnd g := by omega
  have hlast : (a.regionBeg + a.groupUsedEnd g = a.allocatedUserEnd) ↔
      (a.groupUsedEnd g = a.allocatedUser) := by
    rw [allocatedUserEnd]
    omega
  simp only [GroupedRegion.markGroup, hbase, hsize, hend, Nat.add_sub_cancel_left, hlast]

/-- One group: neither an index outside the map nor a carry. -/
theorem GroupsMarked.markGroup {groups : List BatchGroup} {g : BatchGroup} {e : Nat}
    (h : GroupsMarked a c m marked groups e) (hmap : c.pageMap = some m) (ha : a.WellFormed)
    (hc : a.Covers c [g]) (hg : a.HoldsFree g) (hle : e ≤ a.groupBegin g) (mapped : Bool) :
    ∃ m' marked', a.markGroup mapped c g = some { c with pageMap := some m' } ∧
      GroupsMarked a c m' marked' (groups ++ [g]) (a.groupUsedEnd g) := by
  have hb := ha.blockSize
  have hfits := ha.fits
  have hlog : a.pageSizeLog < 64 :=
    (Nat.pow_lt_pow_iff_right (by decide : 1 < 2)).mp (by omega)
  obtain ⟨n, hn⟩ := ha.blocks
  rw [Nat.mul_comm] at hn
  have hlast (i : Nat) : (i+1) * a.blockSize ≤ a.allocatedUser ↔ i < n := by
    rw [hn]
    exact ⟨fun hi => Nat.le_of_mul_le_mul_right hi hb, fun hi => Nat.mul_le_mul_right _ hi⟩
  have hbehind (i : Nat) : a.allocatedUser ≤ i * a.blockSize ↔ n ≤ i := by
    rw [hn]
    exact ⟨fun hi => Nat.le_of_mul_le_mul_right hi hb, fun hi => Nat.mul_le_mul_right _ hi⟩
  have hoff := hc.offset_le g (List.mem_singleton.mpr rfl)
  have hend := hc.le_end g (List.mem_singleton.mpr rfl)
  have hused : a.groupUsedEnd g ≤ a.allocatedUser := min_le_right _ _
  obtain ⟨l, hlist, hnodup, hl, hmem, hlen⟩ := hg.blockNumbers ha
  -- the group has a block, so no block that is marked starts in it or behind it
  obtain ⟨i0, hi0⟩ : ∃ i0, i0 ∈ l := by
    apply List.exists_mem_of_length_pos
    rw [hlen]
    exact List.length_pos_of_ne_nil hg.nonempty
  obtain ⟨hi0n, hi0lo, hi0hi⟩ := hl i0 hi0
  have hlohi : a.groupBegin g < a.groupUsedEnd g := lt_of_le_of_lt hi0lo hi0hi
  have hbefore : ∀ j < c.pagesCount, ∀ i ∈ marked (c.releasePageOffset + j),
      i * a.blockSize < a.groupBegin g := by
    intro j hj i hi
    rcases h.before j hj i hi with hlt | hall
    · exact lt_of_lt_of_le hlt hle
    · have hlt := hall i0 hi0n
      omega
  have hfree (j i : Nat) (hj : j < c.pagesCount) (hi : i ∈ marked (c.releasePageOffset + j)) :
      a.allocatedUser ≤ i * a.blockSize ∨ ∃ g' ∈ groups ++ [g], a.FreeIn g' i := by
    rcases h.free j hj i hi with hout | ⟨g', hg', hin⟩
    · exact .inl hout
    · exact .inr ⟨g', List.mem_append_left _ hg', hin⟩
  have hself : g ∈ groups ++ [g] := List.mem_append_right _ (List.mem_singleton.mpr rfl)
  have hensure : c.ensurePageMapAllocated mapped = c := by
    rw [PageReleaseContext.ensurePageMapAllocated, if_pos (.inl (by rw [hmap]; rfl))]
  rw [markGroup_eq hlohi]
  by_cases hcount : (g.batches.length - 1) * g.maxCachedPerBatch + (g.batches.headD []).length =
      if a.groupUsedEnd g % a.blockSize = 0 then
        (a.groupUsedEnd g - a.groupBegin g) / a.blockSize
      else (a.groupUsedEnd g - a.groupBegin g) / a.blockSize + 1
  · rw [if_pos hcount]
    have hall (i : Nat) := hg.all_free (i := i) ha hlohi.le hcount
    have hr : RangeOnMap a.pageSizeLog c marked n (a.groupBegin g) (a.groupUsedEnd g) := by
      constructor
      case blockSize => rwa [hc.blockSize]
      case log => exact hlog.le
      case fits =>
        rw [hc.blockSize, ← hn]
        omega
      case hi_le => rwa [hc.blockSize, ← hn]
      case hi_aligned =>
        rw [hc.blockSize, ← hn, groupUsedEnd]
        rcases Nat.le_total (a.groupBegin g + a.groupSize) a.allocatedUser with hmin | hmin
        · rw [min_eq_left hmin]
          exact .inl (ha.pages.trans (Nat.dvd_add hg.base dvd_rfl))
        · exact .inr (min_eq_right hmin)
      case offset_le => exact hoff
      case le_end => exact hend
      case marked_lt => rwa [hc.blockSize]
    obtain ⟨m', marked', hm', hmarks', hsub⟩ := h.marks.markRange hr
    refine ⟨m', marked', ?_, hmarks', ?_, ?_⟩
    · rw [PageReleaseContext.markRangeAsAllCounted, hensure, hmap]
      simp only [Nat.add_sub_cancel_left]
      rw [hn, ← hc.blockSize, hm']
      rfl
    · intro j hj i hi
      rcases hsub j hj i hi with hold | ⟨hilo, hihi⟩
      · exact hfree j i hj hold
      · rw [hc.blockSize] at hilo hihi
        rcases hihi with hlt | ⟨hni, -⟩
        · exact .inr ⟨g, hself, hall i hilo hlt⟩
        · exact .inl ((hbehind i).mpr hni)
    · intro j hj i hi
      rcases hsub j hj i hi with hold | ⟨-, hihi⟩
      · exact .inl ((hbefore j hj i hold).trans hlohi)
      · rw [hc.blockSize] at hihi
        rcases hihi with hlt | ⟨-, hni⟩
        · exact .inl hlt
        · exact .inr fun i' hi' => (lt_ceil_iff hb).mp (lt_of_lt_of_le ((hlast i').mp hi') hni)
  · rw [if_neg hcount]
    have hf : FreeBlocks a.pageSizeLog c marked g.batches a.decompactPtr a.regionBeg n
        (a.groupUsedEnd g = a.allocatedUser) l := by
      have hpos := Nat.two_pow_pos a.pageSizeLog
      constructor
      case blockSize => rwa [hc.blockSize]
      case blocks => exact lt_of_le_of_lt (Nat.zero_le _) ((hlast i0).mp hi0n)
      case list => rwa [hc.blockSize]
      case nodup => exact hnodup
      case lt => exact fun i hi => (hlast i).mp (hl i hi).1
      case log => exact hlog.le
      case fits =>
        rw [hc.blockSize, ← hn]
        omega
      case pages =>
        rw [hc.blockSize, ← hn]
        exact hc.pages
      case lastPage =>
        intro heq hmod
        have heq' := of_decide_eq_true heq
        rw [hc.blockSize, ← hn] at hmod ⊢
        rw [heq'] at hend hlohi
        refine ⟨(Nat.le_div_iff_mul_le hpos).mpr (hoff.trans hlohi.le), ?_⟩
        apply Nat.div_lt_of_lt_mul
        rw [Nat.mul_comm]
        refine lt_of_le_of_ne hend fun hwhole => hmod ?_
        rw [hwhole, Nat.mul_mod_left]
      case first_ge =>
        intro i hi
        rw [hc.blockSize]
        exact (Nat.le_div_iff_mul_le hpos).mpr (hoff.trans (hl i hi).2.1)
      case first_lt =>
        intro i hi
        rw [hc.blockSize]
        exact (Nat.div_lt_iff_lt_mul hpos).mpr (lt_of_lt_of_le (hl i hi).2.2 hend)
      case marked_lt =>
        intro j hj x hx
        have hlt := hbefore j hj x hx
        exact not_le.mp fun hge => absurd ((hbehind x).mpr hge) (by omega)
      case new =>
        intro i hi j hj hx
        exact absurd (hbefore j hj i hx) (not_lt.mpr (hl i hi).2.1)
    obtain ⟨m', hm', hmarks'⟩ := h.marks.markFreeBlocksInRegion hmap hf mapped
    have hsub (j i : Nat) (hi : i ∈ freeMarks a.pageSizeLog c marked n
        (a.groupUsedEnd g = a.allocatedUser) l j) :
        i ∈ marked j ∨ (a.groupUsedEnd g = a.allocatedUser ∧ n ≤ i) ∨ i ∈ l := by
      rcases Finset.mem_union.mp hi with hi' | hi'
      · split at hi'
        · next heq =>
          rcases Finset.mem_union.mp hi' with hold | htrail
          · exact .inl hold
          · exact .inr (.inl ⟨of_decide_eq_true heq, (Finset.mem_filter.mp htrail).2⟩)
        · exact .inl hi'
      · exact .inr (.inr (Finset.mem_filter.mp hi').2)
    refine ⟨m', _, ?_, hmarks', ?_, ?_⟩
    · rw [← hm', hc.blockSize, ← hn]
    · intro j hj i hi
      rcases hsub _ i hi with hold | ⟨-, htrail⟩ | hin
      · exact hfree j i hj hold
      · exact .inl ((hbehind i).mpr htrail)
      · exact .inr ⟨g, hself, (hmem i).mp hin⟩
    · intro j hj i hi
      rcases hsub _ i hi with hold | ⟨heq, -⟩ | hin
      · exact .inl ((hbefore j hj i hold).trans hlohi)
      · right
        intro i' hi'
        rw [heq, hn]
        exact Nat.mul_lt_mul_of_pos_right ((hlast i').mp hi') hb
      · exact .inl (hl i hin).2.2

theorem GroupsMarked.withMap {groups : List BatchGroup} {e : Nat}
    (h : GroupsMarked a c m marked groups e) (map : Option RegionPageMap) :
    GroupsMarked a { c with pageMap := map } m marked groups e :=
  ⟨h.marks.withMap map, h.free, h.before⟩

/-- Groups do not overlap. -/
theorem groupEnd_le {g g' : BatchGroup} (hg : a.groupSize ∣ a.groupBegin g)
    (hg' : a.groupSize ∣ a.groupBegin g')
    (hlt : g.compactPtrGroupBase < g'.compactPtrGroupBase) :
    a.groupBegin g + a.groupSize ≤ a.groupBegin g' := by
  have hbegin : a.groupBegin g < a.groupBegin g' := by
    rw [groupBegin, groupBegin, Nat.shiftLeft_eq, Nat.shiftLeft_eq]
    exact Nat.mul_lt_mul_of_pos_right hlt (Nat.two_pow_pos _)
  obtain ⟨x, hx⟩ := hg
  obtain ⟨y, hy⟩ := hg'
  rw [hx, hy] at hbegin ⊢
  rw [← Nat.mul_succ]
  exact Nat.mul_le_mul_left _ (Nat.succ_le_of_lt (Nat.lt_of_mul_lt_mul_left hbegin))

/-- All groups in turn. -/
theorem GroupsMarked.markGroups {done groups : List BatchGroup} {e : Nat}
    (h : GroupsMarked a c m marked done e) (hmap : c.pageMap = some m) (ha : a.WellFormed)
    (hc : a.Covers c groups) (hg : ∀ g ∈ groups, a.HoldsFree g)
    (hle : ∀ g ∈ groups, e ≤ a.groupBegin g)
    (hsorted : groups.Pairwise fun g g' => g.compactPtrGroupBase < g'.compactPtrGroupBase)
    (mapped : Bool) :
    ∃ m' marked' e', groups.foldlM (a.markGroup mapped) c = some { c with pageMap := some m' } ∧
      GroupsMarked a c m' marked' (done ++ groups) e' := by
  induction groups generalizing c m marked done e with
  | nil =>
    refine ⟨m, marked, e, ?_, by rwa [List.append_nil]⟩
    rw [← hmap]
    rfl
  | cons g groups ih =>
    have hself : g ∈ g :: groups := List.mem_cons_self
    have htail {g' : BatchGroup} : g' ∈ groups → g' ∈ g :: groups := List.mem_cons_of_mem g
    have hcg : a.Covers c [g] := by
      refine ⟨hc.blockSize, hc.pages, ?_, ?_⟩
      · intro g' hg'
        rw [List.mem_singleton.mp hg']
        exact hc.offset_le g hself
      · intro g' hg'
        rw [List.mem_singleton.mp hg']
        exact hc.le_end g hself
    obtain ⟨m', marked', hm', h'⟩ := h.markGroup hmap ha hcg (hg g hself) (hle g hself) mapped
    obtain ⟨hfront, hrest⟩ := List.pairwise_cons.mp hsorted
    obtain ⟨m'', marked'', e'', hm'', h''⟩ := ih (h'.withMap (some m')) rfl
      ⟨hc.blockSize, hc.pages, fun g' hg' => hc.offset_le g' (htail hg'),
        fun g' hg' => hc.le_end g' (htail hg')⟩
      (fun g' hg' => hg g' (htail hg'))
      (fun g' hg' => (min_le_left _ _).trans
        (groupEnd_le (hg g hself).base (hg g' (htail hg')).base (hfront g' hg'))) hrest
    refine ⟨m'', marked'', e'', ?_, ?_⟩
    · rw [List.foldlM_cons, hm']
      exact hm''
    · rw [List.append_assoc] at h''
      exact h''.withMap c.pageMap

/-- In a sorted list, the first group starts first and the last one ends last. -/
theorem groups_bounds {groups : List BatchGroup} {front back : BatchGroup}
    (hg : ∀ g ∈ groups, a.HoldsFree g)
    (hsorted : groups.Pairwise fun g g' => g.compactPtrGroupBase < g'.compactPtrGroupBase)
    (hfront : groups.head? = some front) (hback : groups.getLast? = some back) :
    (∀ g ∈ groups, a.groupBegin front ≤ a.groupBegin g) ∧
      ∀ g ∈ groups, a.groupUsedEnd g ≤ a.groupUsedEnd back := by
  have hmono {g g' : BatchGroup} (hle : g.compactPtrGroupBase ≤ g'.compactPtrGroupBase) :
      a.groupBegin g ≤ a.groupBegin g' := by
    rw [groupBegin, groupBegin, Nat.shiftLeft_eq, Nat.shiftLeft_eq]
    exact Nat.mul_le_mul_right _ hle
  constructor
  · intro g hmem
    obtain ⟨rest, rfl⟩ := List.head?_eq_some_iff.mp hfront
    rcases List.mem_cons.mp hmem with rfl | hrest
    · exact le_rfl
    · exact hmono ((List.pairwise_cons.mp hsorted).1 g hrest).le
  · intro g hmem
    obtain ⟨init, rfl⟩ := List.getLast?_eq_some_iff.mp hback
    rcases List.mem_append.mp hmem with hinit | hlast
    · have hlt := (List.pairwise_append.mp hsorted).2.2 g hinit back (List.mem_singleton.mpr rfl)
      have hle := hmono hlt.le
      rw [groupUsedEnd, groupUsedEnd]
      omega
    · rw [List.mem_singleton.mp hlast]

/-- The context of `markFreeBlocks`, for groups from `front` to `back`. -/
def releaseContext (a : GroupedRegion) (front back : BatchGroup) : PageReleaseContext :=
  .new a.pageSizeLog a.blockSize 1
    (roundUpSlow (a.groupUsedEnd back) a.blockSize - a.groupBegin front) (a.groupBegin front)

theorem releaseContext_covers {groups : List BatchGroup} {front back : BatchGroup}
    (ha : a.WellFormed) (hbase : a.groupSize ∣ a.groupBegin front)
    (hfront : ∀ g ∈ groups, a.groupBegin front ≤ a.groupBegin g)
    (hback : ∀ g ∈ groups, a.groupUsedEnd g ≤ a.groupUsedEnd back) :
    a.Covers (a.releaseContext front back) groups ∧
      (a.releaseContext front back).pagesCount + 64 ≤ 2^64 := by
  have hb := ha.blockSize
  have hpos := Nat.two_pow_pos a.pageSizeLog
  have hfits := ha.fits
  have hlog : a.pageSizeLog < 64 :=
    (Nat.pow_lt_pow_iff_right (by decide : 1 < 2)).mp (by omega)
  obtain ⟨x, hx⟩ := ha.pages.trans hbase
  rw [Nat.mul_comm] at hx
  have hoffset : (a.releaseContext front back).releasePageOffset = x := by
    rw [releaseContext, PageReleaseContext.new]
    simp only []
    rw [Nat.shiftRight_eq_div_pow, hx, Nat.mul_div_cancel _ hpos]
  obtain ⟨n, hn⟩ := ha.blocks
  rw [Nat.mul_comm] at hn
  -- the last block that starts in a group ends in the region
  obtain ⟨hge, -⟩ := ceil_spec hb (a.groupUsedEnd back)
  have hend : roundUpSlow (a.groupUsedEnd back) a.blockSize ≤ a.allocatedUser := by
    rw [roundUpSlow, hn]
    apply Nat.mul_le_mul_right
    apply not_lt.mp
    rw [lt_ceil_iff hb, ← hn]
    exact not_lt.mpr (min_le_right _ _)
  rw [← roundUpSlow] at hge
  have hcount : (a.releaseContext front back).pagesCount = _ :=
    pagesCount_new hlog.le (by omega) _ _ _
  generalize roundUpSlow (a.groupUsedEnd back) a.blockSize = last at *
  obtain ⟨hceil, hceil'⟩ := ceil_spec hpos (last - a.groupBegin front)
  rw [← hcount] at hceil hceil'
  have hpages := Nat.le_mul_of_pos_right (a.releaseContext front back).pagesCount hpos
  refine ⟨⟨rfl, ?_, ?_, ?_⟩, by omega⟩
  · intro i hi
    rw [hcount, lt_ceil_iff hpos] at hi
    rw [hoffset, Nat.add_mul, ← hx]
    omega
  · intro g hg
    rw [hoffset, ← hx]
    exact hfront g hg
  · intro g hg
    have hle := hback g hg
    rw [hoffset, Nat.add_mul, ← hx]
    omega

/-- `markFreeBlocks` in terms of addresses in the region. -/
theorem markFreeBlocks_eq {groups : List BatchGroup} {front back : BatchGroup} (mapped : Bool)
    (hfront : groups.head? = some front) (hback : groups.getLast? = some back) :
    a.markFreeBlocks mapped groups =
      if !((a.releaseContext front back).ensurePageMapAllocated mapped).hasBlockMarked then
        some ((a.releaseContext front back).ensurePageMapAllocated mapped)
      else groups.foldlM (a.markGroup mapped)
        ((a.releaseContext front back).ensurePageMapAllocated mapped) := by
  have hbase (g : BatchGroup) : a.decompactGroupBase g = a.regionBeg + a.groupBegin g := rfl
  have hend : min (a.regionBeg + a.groupBegin back + a.groupSize) a.allocatedUserEnd - a.regionBeg =
      a.groupUsedEnd back := by
    rw [groupUsedEnd, allocatedUserEnd]
    omega
  have hsize : roundUpSlow (a.groupUsedEnd back) a.blockSize + a.regionBeg -
      (a.regionBeg + a.groupBegin front) =
      roundUpSlow (a.groupUsedEnd back) a.blockSize - a.groupBegin front := by
    omega
  rw [GroupedRegion.markFreeBlocks, hfront, hback]
  simp only [Option.bind_eq_bind, Option.bind_some, hbase, hend, hsize, Nat.add_sub_cancel_left]
  rfl

/-- The pages that are released are on free blocks of the groups only. -/
theorem GroupsMarked.releaseFreeMemoryToOS {groups : List BatchGroup} {e : Nat}
    (h : GroupsMarked a c m marked groups e) (hmap : c.pageMap = some m)
    (hsize : c.blockSize = a.blockSize) (hcounts : CountsBlocks a.pageSizeLog c)
    (hregions : c.numberOfRegions = 1) :
    ∃ c' ranges, c.releaseFreeMemoryToOS a.pageSizeLog (fun _ => false) = some (c', ranges) ∧
      ∀ r ∈ ranges, a.ReleasesFree groups (c.getReleaseOffset a.pageSizeLog) r := by
  have hb := hcounts.blockSize
  have hpos := Nat.two_pow_pos a.pageSizeLog
  obtain ⟨c', ranges, hrel, hranges⟩ := h.marks.releaseFreeMemoryToOS hcounts hregions hmap
  refine ⟨c', ranges, hrel, ?_⟩
  intro r hr i hi hlt hgt
  rw [← hsize] at hi hlt hgt
  rw [PageReleaseContext.getReleaseOffset, Nat.shiftLeft_eq] at hlt hgt
  have hr12 := (hranges.aligned r hr).2.2
  have hsucc : (i+1) * c.blockSize = i * c.blockSize + c.blockSize := Nat.succ_mul _ _
  -- a byte of the block that is released, and its page
  obtain ⟨y, hylo, hyhi, hyr, hyr'⟩ : ∃ y, r.1 ≤ y ∧ y < r.2 ∧
      i * c.blockSize ≤ c.releasePageOffset * 2^a.pageSizeLog + y ∧
      c.releasePageOffset * 2^a.pageSizeLog + y < (i+1) * c.blockSize :=
    ⟨max r.1 (i * c.blockSize - c.releasePageOffset * 2^a.pageSizeLog), by omega, by omega,
      by omega, by omega⟩
  obtain ⟨hpage, hall⟩ := hranges.released_of_mem hpos hr hylo hyhi
  obtain ⟨hdiv, hdiv'⟩ := Word.div_mul_le_lt y (2^a.pageSizeLog) hpos
  have hon : i ∈ marked (c.releasePageOffset + y / 2^a.pageSizeLog) := by
    rw [hall, mem_blocksOn hb, Overlaps, Nat.succ_mul (c.releasePageOffset + _), Nat.add_mul]
    omega
  rcases h.free _ hpage i hon with hout | hin
  · rw [← hsize] at hout
    omega
  · exact hin

/-- Page release by groups touches no block but the free ones of the groups. -/
theorem markFreeBlocks_releasesFree {groups : List BatchGroup} (ha : a.WellFormed)
    (hne : groups ≠ []) (hg : ∀ g ∈ groups, a.HoldsFree g)
    (hsorted : groups.Pairwise fun g g' => g.compactPtrGroupBase < g'.compactPtrGroupBase)
    (mapped : Bool) :
    ∃ c, a.markFreeBlocks mapped groups = some c ∧ c.hasBlockMarked = mapped ∧
      (mapped → ∃ c' ranges,
        c.releaseFreeMemoryToOS a.pageSizeLog (fun _ => false) = some (c', ranges) ∧
        ∀ r ∈ ranges, a.ReleasesFree groups (c.getReleaseOffset a.pageSizeLog) r) := by
  have hb := ha.blockSize
  have hfits := ha.fits
  have hlog : a.pageSizeLog < 64 :=
    (Nat.pow_lt_pow_iff_right (by decide : 1 < 2)).mp (by omega)
  have hfront := List.head?_eq_some_head hne
  have hback := List.getLast?_eq_some_getLast hne
  generalize groups.head hne = front at hfront
  generalize groups.getLast hne = back at hback
  obtain ⟨hfirst, hlast⟩ := groups_bounds hg hsorted hfront hback
  obtain ⟨hcovers, hcount⟩ := releaseContext_covers ha
    (hg front (List.mem_of_head? hfront)).base hfirst hlast
  rw [markFreeBlocks_eq mapped hfront hback]
  generalize hc0 : a.releaseContext front back = c0 at *
  cases mapped with
  | false =>
    refine ⟨c0, ?_, ?_, fun h => absurd h Bool.false_ne_true⟩
    · rw [← hc0]
      rfl
    · rw [← hc0]
      rfl
  | true =>
    have hmarks := (marks_reset hb hlog (by decide) hc0.symm hcount).withMap
      (some (.reset c0.numberOfRegions c0.pagesCount c0.fullPagesBlockCountMax))
    have hcounts : CountsBlocks a.pageSizeLog c0 := by
      rw [← hc0]
      exact countsBlocks_new hb _ _ _
    rw [show c0.ensurePageMapAllocated true = { c0 with pageMap := some (.reset c0.numberOfRegions
      c0.pagesCount c0.fullPagesBlockCountMax) } by rw [← hc0]; rfl]
    generalize hc : ({ c0 with pageMap := some (.reset c0.numberOfRegions c0.pagesCount
      c0.fullPagesBlockCountMax) } : PageReleaseContext) = c at hmarks ⊢
    have hcovers' : a.Covers c groups := by
      rw [← hc]
      exact ⟨hcovers.blockSize, hcovers.pages, hcovers.offset_le, hcovers.le_end⟩
    have hstart : GroupsMarked a c _ (fun _ => ∅) [] 0 :=
      ⟨hmarks, fun _ _ i hi => absurd hi (Finset.notMem_empty i),
        fun _ _ i hi => absurd hi (Finset.notMem_empty i)⟩
    obtain ⟨m', marked', e', hm', h'⟩ := hstart.markGroups (by rw [← hc]) ha hcovers' hg
      (fun _ _ => Nat.zero_le _) hsorted true
    refine ⟨_, ?_, rfl, fun _ => (h'.withMap (some m')).releaseFreeMemoryToOS rfl
      hcovers'.blockSize ?_ ?_⟩
    · rw [← hm', ← hc]
      rfl
    · rw [← hc]
      exact ⟨hcounts.blockSize, hcounts.same⟩
    · rw [← hc, ← hc0]
      rfl

/-- Two groups of blocks of 5 bytes, one of which starts in the first group and ends in the
second. -/
theorem markFreeBlocks_releasesFree_straddling :
    let a : GroupedRegion := ⟨4, 32, 0, 1000, 75, 5⟩
    let groups : List BatchGroup :=
      [⟨0, 4, [[0, 5, 10], [15, 20, 25, 30]]⟩, ⟨32, 4, [[40], [35, 45, 50, 55]]⟩]
    ∃ c, a.markFreeBlocks true groups = some c ∧ c.hasBlockMarked = true ∧
      (true → ∃ c' ranges, c.releaseFreeMemoryToOS a.pageSizeLog (fun _ => false) =
          some (c', ranges) ∧
        ∀ r ∈ ranges, a.ReleasesFree groups (c.getReleaseOffset a.pageSizeLog) r) := by
  intro a groups
  have hblock (g : BatchGroup) (hg : g ∈ groups) : ∀ ptr ∈ g.batches.flatten,
      (ptr/5 + 1) * 5 ≤ 75 ∧ a.decompactPtr ptr = 1000 + ptr/5*5 ∧
        a.decompactGroupBase g ≤ a.decompactPtr ptr ∧
        a.decompactPtr ptr < a.decompactGroupBase g + 32 := by
    revert g
    decide
  have hholds : ∀ g ∈ groups, a.groupSize ∣ g.compactPtrGroupBase <<< a.compactPtrScale ∧
      (∀ b ∈ g.batches.tail, b.length = g.maxCachedPerBatch) ∧ g.batches.flatten ≠ [] ∧
      (g.batches.flatten.map a.decompactPtr).Nodup := by
    decide
  refine markFreeBlocks_releasesFree ⟨by decide, by decide, by decide, by decide, by decide⟩
    (by decide) ?_ (by decide) true
  intro g hg
  obtain ⟨hbase, hfull, hnonempty, hnodup⟩ := hholds g hg
  exact ⟨hbase, hfull, hnonempty, hnodup, fun ptr hptr => ⟨ptr/5, hblock g hg ptr hptr⟩⟩

end GroupedRegion

end ScudoMte.Release
