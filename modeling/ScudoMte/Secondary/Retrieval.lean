import ScudoMte.Secondary.Geometry

namespace ScudoMte.Secondary

variable {cfg : Config} {maxPages size k headersSize : Nat} {e : CachedBlock}

/-- Where the user bytes of a request go in a cached block: as close to its end as the alignment
allows, behind the headers, and not too far behind its start. -/
structure FitTest (cfg : Config) (maxPages size alignment headersSize : Nat) (e : CachedBlock)
    (allocPos : Nat) : Prop where
  aligned : alignment ∣ allocPos
  header : e.commitBase + headersSize ≤ allocPos
  user : allocPos + size ≤ e.commitBase + e.commitSize
  highest : e.commitBase + e.commitSize < allocPos + size + alignment
  fragmented : allocPos ≤ e.commitBase + maxPages * cfg.pageSize

/-- The pages of a cached block do not reach the end of the address space. -/
structure PageRange (cfg : Config) (e : CachedBlock) : Prop where
  valid : e.isValid
  base : cfg.pageSize ∣ e.commitBase
  size : cfg.pageSize ∣ e.commitSize
  noWrap : e.commitBase + e.commitSize < 2^64

theorem PageRange.end_le (h : PageRange cfg e) :
    e.commitBase + e.commitSize + cfg.pageSize ≤ 2^64 := by
  have hd : cfg.pageSize ∣ 2^64 :=
    Nat.pow_dvd_pow 2 (h := cfg.pageSizeLog_le.trans (by decide))
  exact Word.add_le_of_dvd_of_lt (Nat.dvd_add h.base h.size) hd h.noWrap

/-- The test of `retrieve`, with its subtractions that wrap, is the one on numbers. -/
theorem Fits.fitTest (he : PageRange cfg e) (hk : k ≤ 63) (hwrap : size + 2^k + headersSize ≤ 2^64)
    (hheaders : headersSize < cfg.pageSize) {headerPos : Nat}
    (h : Fits cfg maxPages size (2^k) headersSize e headerPos) :
    FitTest cfg maxPages size (2^k) headersSize e (headerPos + headersSize) := by
  have hend := he.end_le
  have hp := Nat.two_pow_pos k
  obtain ⟨hpos, hlo, hhi, hfrag⟩ := h
  have hle : size ≤ e.commitBase + e.commitSize := by
    by_contra hlt
    rw [wrapSub_of_lt (show e.commitBase + e.commitSize < size by omega)] at hpos
    obtain ⟨-, h2, -⟩ := roundDown_spec (e.commitBase + e.commitSize + 2^64 - size) k (by omega)
      (by omega)
    have h1 := (roundDown_spec (e.commitBase + e.commitSize + 2^64 - size) k (by omega) (by omega)).1
    generalize roundDown (e.commitBase + e.commitSize + 2^64 - size) (2^k) = allocPos at hpos h1 h2
    rw [wrapSub_of_le (by omega) (by omega)] at hpos
    omega
  rw [wrapSub_of_le hle he.noWrap] at hpos hfrag
  obtain ⟨h1, h2, hdvd⟩ := roundDown_spec (e.commitBase + e.commitSize - size) k (by omega) (by omega)
  generalize roundDown (e.commitBase + e.commitSize - size) (2^k) = allocPos at hpos hfrag h1 h2 hdvd
  have hroom : headersSize ≤ allocPos := by
    by_contra hlt
    rw [wrapSub_of_lt (by omega)] at hpos
    omega
  rw [wrapSub_of_le hroom (by omega)] at hpos
  have hback : headerPos + headersSize = allocPos := by omega
  rw [hback]
  exact ⟨hdvd, by omega, by omega, by omega, hfrag.trans (Nat.mod_le _ _)⟩

theorem FitTest.fits (he : PageRange cfg e) (hk : k ≤ 63)
    (hlimit : e.commitBase + maxPages * cfg.pageSize < 2^64) {allocPos : Nat}
    (h : FitTest cfg maxPages size (2^k) headersSize e allocPos) :
    Fits cfg maxPages size (2^k) headersSize e (allocPos - headersSize) := by
  have hend := he.noWrap
  have hheader := h.header
  have huser := h.user
  have hhighest := h.highest
  have hpos : roundDown (wrapSub (e.commitBase + e.commitSize) size) (2^k) = allocPos := by
    rw [wrapSub_of_le (by omega) hend]
    obtain ⟨h1, h2, hdvd⟩ := roundDown_spec (e.commitBase + e.commitSize - size) k (by omega)
      (by omega)
    have hge := @le_roundDown (e.commitBase + e.commitSize - size) allocPos k (by omega) (by omega)
      h.aligned (by omega)
    rcases Nat.eq_or_lt_of_le hge with heq | hlt
    · exact heq.symm
    · have hgap := Word.add_le_of_dvd_of_lt h.aligned hdvd hlt
      omega
  refine ⟨?_, by omega, by omega, ?_⟩
  · rw [hpos, wrapSub_of_le (by omega) (by omega)]
  · rw [hpos, Nat.mod_eq_of_lt hlimit]
    exact h.fragmented

/-- Once the search has an entry, it ends with one. -/
theorem retrieveLoop_isSome {entries : Nat → CachedBlock} {alignment : Nat} (is : List Nat)
    (best : Option Nat) (minDiff pos : Nat) (h : best.isSome) :
    (Cache.retrieveLoop cfg entries maxPages size alignment headersSize is best minDiff
      pos).1.isSome := by
  induction is generalizing best minDiff pos with
  | nil => exact h
  | cons i is ih =>
    simp only [Cache.retrieveLoop]
    split
    · exact ih _ _ _ h
    · split
      · exact ih _ _ _ h
      · split
        · exact ih _ _ _ h
        · split
          · rfl
          · exact ih _ _ _ rfl

/-- A search that ends with no entry has met none that passes the test. -/
theorem retrieveLoop_complete {entries : Nat → CachedBlock} {alignment : Nat} (is : List Nat)
    (hrange : ∀ i ∈ is, PageRange cfg (entries i)) {pos : Nat}
    (h : (Cache.retrieveLoop cfg entries maxPages size alignment headersSize is none (2^64-1)
      pos).1 = none) (i : Nat) (hi : i ∈ is) (headerPos : Nat) :
    ¬ Fits cfg maxPages size alignment headersSize (entries i) headerPos := by
  induction is generalizing pos with
  | nil => exact absurd hi List.not_mem_nil
  | cons j is ih =>
    have hrange' : ∀ i ∈ is, PageRange cfg (entries i) :=
      fun i hi => hrange i (List.mem_cons_of_mem _ hi)
    simp only [Cache.retrieveLoop] at h
    rintro ⟨hpos, hlo, hhi, hfrag⟩
    split at h
    · next hover =>
      rcases List.mem_cons.mp hi with rfl | hi
      · omega
      · exact ih hrange' h hi ⟨hpos, hlo, hhi, hfrag⟩
    · split at h
      · next hout =>
        rcases List.mem_cons.mp hi with rfl | hi
        · omega
        · exact ih hrange' h hi ⟨hpos, hlo, hhi, hfrag⟩
      · next hin hfit =>
        -- the first entry that passes is taken, whatever its fragmentation
        have hpage := hrange j List.mem_cons_self
        have hend := hpage.end_le
        have hpos := cfg.pageSize_ge
        rw [not_or] at hfit
        generalize hh : wrapSub (roundDown (wrapSub ((entries j).commitBase + (entries j).commitSize)
          size) alignment) headersSize = headerPos' at h hin hfit
        have hlow : (entries j).commitBase ≤ roundDown headerPos' cfg.pageSize :=
          le_roundDown (by omega) (cfg.pageSizeLog_le.trans (by decide)) hpage.base (by omega)
        have hdown := (roundDown_spec headerPos' cfg.pageSizeLog (by omega)
          (cfg.pageSizeLog_le.trans (by decide))).1
        change roundDown headerPos' cfg.pageSize ≤ headerPos' at hdown
        rw [wrapSub_of_le hlow (by omega)] at h
        split at h
        · omega
        · split at h
          · exact absurd h (by simp)
          · have hsome := @retrieveLoop_isSome cfg maxPages size headersSize entries alignment is
              (some j) (roundDown headerPos' cfg.pageSize - (entries j).commitBase) headerPos' rfl
            rw [h] at hsome
            exact absurd hsome (by simp)

/-- The pages that a retrieval gives back end before the page of the header. -/
theorem retrieve_released (he : PageRange cfg e) {headerPos : Nat} (hlt : headerPos < 2^64)
    (limit : Nat)
    (hover : limit < roundDown headerPos cfg.pageSize - e.commitBase) (hdvd : cfg.pageSize ∣ limit) :
    e.commitBase + roundUp (min (4 * cfg.pageSize)
      (roundDown headerPos cfg.pageSize - e.commitBase - limit)) cfg.pageSize ≤
        headerPos / cfg.pageSize * cfg.pageSize := by
  have hk : cfg.pageSizeLog ≤ 64 := cfg.pageSizeLog_le.trans (by decide)
  have hp20 := cfg.pageSize_le
  have heq : roundDown headerPos cfg.pageSize = headerPos / cfg.pageSize * cfg.pageSize :=
    roundDown_eq headerPos cfg.pageSizeLog hlt hk
  have hd : cfg.pageSize ∣ roundDown headerPos cfg.pageSize := heq ▸ Nat.dvd_mul_left _ _
  have hmin : cfg.pageSize ∣ min (4 * cfg.pageSize)
      (roundDown headerPos cfg.pageSize - e.commitBase - limit) := by
    rcases Nat.le_total (4 * cfg.pageSize)
      (roundDown headerPos cfg.pageSize - e.commitBase - limit) with hle | hle
    · rw [Nat.min_eq_left hle]
      exact Nat.dvd_mul_left _ _
    · rw [Nat.min_eq_right hle]
      exact Nat.dvd_sub (Nat.dvd_sub hd he.base) hdvd
  rw [← heq]
  have hround := roundUp_of_dvd (min (4 * cfg.pageSize)
    (roundDown headerPos cfg.pageSize - e.commitBase - limit)) cfg.pageSizeLog hk
    (by change _ + cfg.pageSize ≤ _; omega) hmin
  change roundUp _ cfg.pageSize = _ at hround
  rw [hround]
  omega

/-- What a successful retrieval leaves: the entry that it returns has left the list, with its
header where the request asks for it, and only pages in front of the header's are given back. -/
structure Retrieved (cfg : Config) (maxPages size alignment headersSize : Nat) (c : Cache) (m : Mem)
    (e : CachedBlock) (headerPos : Nat) (c' : Cache) (m' : Mem) : Prop where
  valid : e.isValid
  leaves : ∃ i l1 l2, c.lruEntries = l1 ++ i::l2 ∧ c.entries i = e ∧ c'.lruEntries = l1 ++ l2 ∧
    ∀ j ≠ i, c'.entries j = c.entries j
  fitTest : FitTest cfg maxPages size alignment headersSize e (headerPos + headersSize)
  released : m' = m ∨ ∃ n, e.commitBase + n ≤ headerPos / cfg.pageSize * cfg.pageSize ∧
    m' = m.zeroPages e.commitBase n

/-- `retrieve` returns an entry where one of the list passes the fit test, and it returns such a
one. -/
theorem retrieve_sound_complete {c : Cache} {m : Mem} (hk : k ≤ 63)
    (hwrap : size + 2^k + headersSize ≤ 2^64) (hheaders : headersSize < cfg.pageSize)
    (hrange : ∀ i ∈ c.lruEntries, PageRange cfg (c.entries i))
    (hlimit : ∀ i ∈ c.lruEntries, (c.entries i).commitBase + maxPages * cfg.pageSize < 2^64) :
    ((c.retrieve cfg m maxPages size (2^k) headersSize).1.isSome ↔
        ∃ i ∈ c.lruEntries, ∃ allocPos,
          FitTest cfg maxPages size (2^k) headersSize (c.entries i) allocPos) ∧
      ∀ e headerPos c' m',
        c.retrieve cfg m maxPages size (2^k) headersSize = (some (e, headerPos), c', m') →
          Retrieved cfg maxPages size (2^k) headersSize c m e headerPos c' m' := by
  have hsound : ∀ e headerPos c' m',
      c.retrieve cfg m maxPages size (2^k) headersSize = (some (e, headerPos), c', m') →
        Retrieved cfg maxPages size (2^k) headersSize c m e headerPos c' m' := by
    intro e headerPos c' m' h
    obtain ⟨i, hi, rfl, rfl, hfits, hm⟩ := Cache.retrieve_some h
    have he := hrange i hi
    have hend := he.noWrap
    obtain ⟨l1, l2, -, hsplit, herase⟩ := List.exists_erase_eq hi
    refine ⟨he.valid, ⟨i, l1, l2, hsplit, rfl, herase, ?_⟩, hfits.fitTest he hk hwrap hheaders, ?_⟩
    · intro j hj
      exact Function.update_of_ne hj ..
    · rcases hm with hm | ⟨-, hover, hm⟩
      · exact .inl hm
      · have hhi := hfits.hi
        exact .inr ⟨_, retrieve_released he (by omega) _ hover (Nat.dvd_mul_left _ _), hm⟩
  refine ⟨⟨?_, ?_⟩, hsound⟩
  · intro h
    obtain ⟨⟨e, headerPos⟩, hsome⟩ := Option.isSome_iff_exists.mp h
    have hr := hsound e headerPos _ _ (Prod.ext hsome rfl)
    obtain ⟨i, l1, l2, hsplit, rfl, -⟩ := hr.leaves
    exact ⟨i, hsplit ▸ List.mem_append_right _ List.mem_cons_self, _, hr.fitTest⟩
  · rintro ⟨i, hi, allocPos, hfit⟩
    rw [Cache.retrieve]
    cases hloop : Cache.retrieveLoop cfg c.entries maxPages size (2^k) headersSize c.lruEntries none
      (2^64-1) 0 with
    | mk best headerPos =>
      cases best with
      | some j => rfl
      | none =>
        exact absurd (hfit.fits (hrange i hi) hk (hlimit i hi))
          (retrieveLoop_complete c.lruEntries hrange (by rw [hloop]) i hi _)

/-- A cache with one entry, of two pages. -/
def twoPages : Cache :=
  (Cache.init defaultConfig 32 (2^20) 1000).insert
    { commitBase := 8192, commitSize := 8192, blockBegin := 8240, memMap := ⟨4096, 16384⟩, time := 5 }

def twoPagesMem : Mem := { data := fun _ => 0, tag := fun _ => 0, headerKey := fun _ => 0 }

/-- An entry of so many pages between two guard pages. -/
def cachedPages (commitBase pages time : Nat) : CachedBlock where
  commitBase := commitBase
  commitSize := 4096*pages
  blockBegin := commitBase + 48
  memMap := ⟨commitBase - 4096, 4096*(pages+2)⟩
  time := time

/-- A cache with entries of four, two and one pages. -/
def threeBlocks : Cache :=
  (((Cache.init defaultConfig 32 (2^20) 1000).insert (cachedPages 8192 1 5)).insert
    (cachedPages 65536 2 6)).insert (cachedPages 131072 4 7)

theorem threeBlocks_range : ∀ i ∈ threeBlocks.lruEntries,
    PageRange defaultConfig (threeBlocks.entries i) ∧
      (threeBlocks.entries i).commitBase + 4 * defaultConfig.pageSize < 2^64 := by
  simp only [show threeBlocks.lruEntries = [2, 1, 0] from rfl, List.forall_mem_cons]
  exact ⟨⟨⟨by decide, by decide, by decide, by decide⟩, by decide⟩,
    ⟨⟨by decide, by decide, by decide, by decide⟩, by decide⟩,
    ⟨⟨by decide, by decide, by decide, by decide⟩, by decide⟩,
    fun _ h => absurd h List.not_mem_nil⟩

/-- The first block that fits is twice as large as the second, which is the one that is retrieved. -/
theorem retrieve_sound_complete_threeBlocks : ∃ e headerPos c' m',
    threeBlocks.retrieve defaultConfig twoPagesMem 4 5000 (2^4) getHeadersSize =
      (some (e, headerPos), c', m') ∧ e.commitBase = 65536 ∧
    Retrieved defaultConfig 4 5000 (2^4) getHeadersSize threeBlocks twoPagesMem e headerPos c' m' := by
  have hspec := @retrieve_sound_complete defaultConfig 4 5000 4 getHeadersSize threeBlocks twoPagesMem
    (by decide) (by decide) (show getHeadersSize < defaultConfig.pageSize by decide)
    (fun i hi => (threeBlocks_range i hi).1) (fun i hi => (threeBlocks_range i hi).2)
  exact ⟨_, _, _, _, rfl, rfl, hspec.2 _ _ _ _ rfl⟩

/-- A size that makes the subtraction wrap is served by a block that does not hold it; a limit
that makes the addition wrap keeps a block from a request that fits. -/
theorem retrieve_wrapped :
    (twoPages.retrieve defaultConfig twoPagesMem 4 (2^64-8) (2^4) getHeadersSize).1.isSome ∧
      (∀ i ∈ twoPages.lruEntries, ∀ allocPos,
        ¬ FitTest defaultConfig 4 (2^64-8) (2^4) getHeadersSize (twoPages.entries i) allocPos) ∧
      (twoPages.retrieve defaultConfig twoPagesMem (2^52) 100 (2^4) getHeadersSize).1 = none ∧
      ∃ i ∈ twoPages.lruEntries, ∃ allocPos,
        FitTest defaultConfig (2^52) 100 (2^4) getHeadersSize (twoPages.entries i) allocPos := by
  refine ⟨rfl, ?_, rfl, 0, List.mem_singleton.mpr rfl, 16272, ?_⟩
  · intro i hi allocPos hfit
    have huser := hfit.user
    rw [List.mem_singleton.mp hi] at huser
    change allocPos + (2^64-8) ≤ 8192 + 8192 at huser
    omega
  · exact ⟨by decide, by decide, by decide, by decide, by decide⟩

end ScudoMte.Secondary
