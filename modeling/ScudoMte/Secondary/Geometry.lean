import ScudoMte.Secondary.MapAllocator

namespace ScudoMte.Secondary

/-- Where a block serves a request: the user bytes start at `block + 16`, aligned and as close
to the end as the alignment allows, and the large header fits between the commit base and the
block. -/
structure BlockPlaced (size alignment commitBase block blockEnd : Nat) : Prop where
  aligned : alignment ∣ block + 16
  header : commitBase + largeHeaderSize ≤ block
  fits : block + 16 + size ≤ blockEnd
  tight : blockEnd < block + 16 + size + alignment

/-- No multiple of the boundary lies between `roundDown x` and `x`. -/
theorem le_roundDown {x y k : Nat} (hx : x < 2^64) (hk : k ≤ 64) (hy : 2^k ∣ y) (hle : y ≤ x) :
    y ≤ roundDown x (2^k) := by
  obtain ⟨n, rfl⟩ := hy
  rw [roundDown_eq x k hx hk, Nat.mul_comm]
  apply Nat.mul_le_mul_right
  rw [Nat.le_div_iff_mul_le (Nat.two_pow_pos k), Nat.mul_comm]
  exact hle

theorem blockPlaced_of_roundDown {size k commitBase commitEnd : Nat} (hk4 : 4 ≤ k) (hk : k ≤ 24)
    (hsize : size ≤ commitEnd) (hend : commitEnd < 2^56)
    (hroom : commitBase + getHeadersSize ≤ roundDown (commitEnd - size) (2^k)) :
    BlockPlaced size (2^k) commitBase
      (roundDown (commitEnd - size) (2^k) - getHeadersSize + largeHeaderSize) commitEnd := by
  obtain ⟨hle, hlt, hdvd⟩ := roundDown_spec (commitEnd - size) k (by omega) (by omega)
  have hs : getHeadersSize = 64 := by decide
  rw [hs] at hroom ⊢
  have hpos : roundDown (commitEnd - size) (2^k) - 64 + largeHeaderSize + 16 =
      roundDown (commitEnd - size) (2^k) := by
    rw [largeHeaderSize]; omega
  refine ⟨?_, ?_, ?_, ?_⟩
  · rw [hpos]; exact hdvd
  · rw [largeHeaderSize] at *; omega
  · rw [hpos]; omega
  · rw [hpos]; omega

section Fresh

variable (cfg : Config) (size : Nat) {k mapBase : Nat}

theorem getGuardPageSize_dvd : cfg.pageSize ∣ getGuardPageSize cfg := by
  unfold getGuardPageSize
  split
  · exact dvd_refl _
  · exact dvd_zero _

theorem getGuardPageSize_le : getGuardPageSize cfg ≤ cfg.pageSize := by
  unfold getGuardPageSize
  split
  · exact le_refl _
  · exact Nat.zero_le _

theorem roundedSize_lt (hk : k ≤ 24) (hsize : size ≤ 2^41) :
    roundedSize cfg size (2^k) < 2^42 := by
  have hs : getHeadersSize = 64 := by decide
  have hk24 : 2^k ≤ 2^24 := Nat.pow_le_pow_right (by decide) hk
  have hp20 := cfg.pageSize_le
  have hpk : cfg.pageSize = 2^cfg.pageSizeLog := rfl
  obtain ⟨hr1, hr2, -⟩ := roundUp_spec size k (by omega) (by omega)
  obtain ⟨hq1, hq2, -⟩ := roundUp_spec (roundUp size (2^k) + getHeadersSize) cfg.pageSizeLog
    (by have := cfg.pageSizeLog_le; omega) (by rw [← hpk, hs]; omega)
  rw [← hpk, hs] at hq1 hq2
  simp only [roundedSize, hs]
  split <;> omega

/-- The commit range of a fresh mapping: page aligned, inside the guard pages, with room for
the headers and the request. -/
theorem allocateFresh_range (hk4 : 4 ≤ k) (hk : k ≤ 24) (hsize : size ≤ 2^41)
    (hbase : cfg.pageSize ∣ mapBase)
    (hend : mapBase + (roundedSize cfg size (2^k) + 2 * getGuardPageSize cfg) < 2^56) :
    let commitBase := commitBaseOf cfg mapBase (2^k)
    let commitEnd := mapBase + (roundedSize cfg size (2^k) + 2 * getGuardPageSize cfg) -
      getGuardPageSize cfg
    cfg.pageSize ∣ commitBase ∧ mapBase + getGuardPageSize cfg ≤ commitBase ∧
      cfg.pageSize ∣ commitEnd ∧ commitBase + size ≤ commitEnd ∧
      commitBase + getHeadersSize ≤ roundDown (commitEnd - size) (2^k) := by
  have hs : getHeadersSize = 64 := by decide
  have hk24 : 2^k ≤ 2^24 := Nat.pow_le_pow_right (by decide) hk
  have hp0 := cfg.pageSize_ge
  have hp20 := cfg.pageSize_le
  have hpk : cfg.pageSize = 2^cfg.pageSizeLog := rfl
  obtain ⟨hr1, hr2, hrd⟩ := roundUp_spec size k (by omega) (by omega)
  obtain ⟨hq1, hq2, hqd⟩ := roundUp_spec (roundUp size (2^k) + getHeadersSize) cfg.pageSizeLog
    (by have := cfg.pageSizeLog_le; omega) (by rw [← hpk, hs]; omega)
  rw [← hpk] at hq1 hq2 hqd
  have hxd : cfg.pageSize ∣ mapBase + getGuardPageSize cfg :=
    Nat.dvd_add hbase (getGuardPageSize_dvd cfg)
  have hcomm : mapBase + (roundedSize cfg size (2^k) + 2 * getGuardPageSize cfg) -
      getGuardPageSize cfg = mapBase + getGuardPageSize cfg + roundedSize cfg size (2^k) := by omega
  simp only [hcomm]
  have hlim : mapBase + getGuardPageSize cfg + roundedSize cfg size (2^k) < 2^56 := by omega
  simp only [commitBaseOf]
  generalize mapBase + getGuardPageSize cfg = x at hxd hlim ⊢
  rw [hs] at hq1 hq2 hqd ⊢
  generalize hq : roundUp (roundUp size (2^k) + 64) cfg.pageSize = q at hq1 hq2 hqd
  generalize hr : roundUp size (2^k) = r at hr1 hr2 hrd hq1 hq2 hq
  have hrs : roundedSize cfg size (2^k) = if 2^k > cfg.pageSize then q + (2^k - cfg.pageSize) else q := by
    simp only [roundedSize, hs, hr, hq]
  rcases Nat.lt_or_ge (2^k) cfg.pageSize with hlt | hge
  · -- the alignment divides the page size: the end less the rounded size is aligned
    have hpd : 2^k ∣ cfg.pageSize :=
      Nat.pow_dvd_pow 2 ((Nat.pow_lt_pow_iff_right (by decide)).mp hlt).le
    rw [if_neg (by omega)] at hrs
    rw [hrs, if_neg (by omega)] at *
    have hed := Nat.dvd_add hxd hqd
    have hal := le_roundDown (x := x + q - size) (y := x + q - r) (k := k) (by omega) (by omega)
      (Nat.dvd_sub (hpd.trans hed) hrd) (by omega)
    exact ⟨hxd, le_refl _, hed, by omega, by omega⟩
  · -- the page size divides the alignment: the user bytes start on the aligned page
    have hpd : cfg.pageSize ∣ 2^k :=
      Nat.pow_dvd_pow 2 ((Nat.pow_le_pow_iff_right (by decide)).mp hge)
    have hrs' : roundedSize cfg size (2^k) = q + (2^k - cfg.pageSize) := by
      rw [hrs]
      split <;> omega
    obtain ⟨ha1, ha2, had⟩ := roundUp_spec (x+1) k (by omega) (by omega)
    rw [hrs', if_pos hge] at *
    generalize roundUp (x+1) (2^k) = a at ha1 ha2 had ⊢
    have hax := Word.add_le_of_dvd_of_lt hxd (hpd.trans had) (by omega)
    have hqr := Word.add_le_of_dvd_of_lt (hpd.trans hrd) hqd (by omega)
    have hal := le_roundDown (x := x + (q + (2^k - cfg.pageSize)) - size) (y := a) (k := k)
      (by omega) (by omega) had (by omega)
    exact ⟨Nat.dvd_sub (hpd.trans had) (dvd_refl _), by omega,
      Nat.dvd_add hxd (Nat.dvd_add hqd (Nat.dvd_sub hpd (dvd_refl _))), by omega, by omega⟩

end Fresh

/-- A fresh mapping serves the request that it was made for. -/
theorem allocateFresh_placed (cfg : Config) (opts : Options) (s : Secondary) (m : Mem)
    (size : Nat) {k mapBase : Nat} (hk4 : 4 ≤ k) (hk : k ≤ 24) (hsize : size ≤ 2^41)
    (hbase : cfg.pageSize ∣ mapBase)
    (hend : mapBase + (roundedSize cfg size (2^k) + 2 * getGuardPageSize cfg) < 2^56) :
    BlockPlaced size (2^k) (commitBaseOf cfg mapBase (2^k))
      (allocateFresh cfg opts s m size (2^k) mapBase).1.1
      (allocateFresh cfg opts s m size (2^k) mapBase).1.2 := by
  obtain ⟨-, -, -, hle, hroom⟩ := allocateFresh_range cfg size hk4 hk hsize hbase hend
  have hcommit : commitBaseOf cfg mapBase (2^k) +
      (mapBase + (roundedSize cfg size (2^k) + 2 * getGuardPageSize cfg) - getGuardPageSize cfg -
        commitBaseOf cfg mapBase (2^k)) =
      mapBase + (roundedSize cfg size (2^k) + 2 * getGuardPageSize cfg) - getGuardPageSize cfg := by
    omega
  simp only [allocateFresh, hcommit]
  exact blockPlaced_of_roundDown hk4 hk (by omega) (by omega) hroom

/-- The test that an entry passes to be retrieved with its header at `headerPos`. -/
structure Fits (cfg : Config) (maxPages size alignment headersSize : Nat) (e : CachedBlock)
    (headerPos : Nat) : Prop where
  pos : headerPos =
    wrapSub (roundDown (wrapSub (e.commitBase + e.commitSize) size) alignment) headersSize
  lo : e.commitBase ≤ headerPos
  hi : headerPos ≤ e.commitBase + e.commitSize
  fragmented : roundDown (wrapSub (e.commitBase + e.commitSize) size) alignment ≤
    (e.commitBase + maxPages * cfg.pageSize) % 2^64

theorem retrieveLoop_spec {cfg : Config} {entries : Nat → CachedBlock}
    {maxPages size alignment headersSize : Nat} (is : List Nat) (best : Option Nat)
    (minDiff pos : Nat) {i headerPos : Nat}
    (h : Cache.retrieveLoop cfg entries maxPages size alignment headersSize is best minDiff pos =
      (some i, headerPos)) :
    (best = some i ∧ pos = headerPos) ∨
      (i ∈ is ∧ Fits cfg maxPages size alignment headersSize (entries i) headerPos) := by
  induction is generalizing best minDiff pos with
  | nil =>
    simp only [Cache.retrieveLoop, Prod.mk.injEq] at h
    exact .inl h
  | cons j is ih =>
    have hlift {best : Option Nat} {minDiff pos : Nat}
        (h : Cache.retrieveLoop cfg entries maxPages size alignment headersSize is best minDiff
          pos = (some i, headerPos)) :
        (best = some i ∧ pos = headerPos) ∨ (i ∈ j::is ∧
          Fits cfg maxPages size alignment headersSize (entries i) headerPos) := by
      rcases ih _ _ _ h with h | h
      · exact .inl h
      · exact .inr ⟨List.mem_cons_of_mem _ h.1, h.2⟩
    simp only [Cache.retrieveLoop] at h
    split at h
    · exact hlift h
    · next hhi =>
      split at h
      · exact hlift h
      · next hlo =>
        rw [not_or] at hlo
        have hfits : Fits cfg maxPages size alignment headersSize (entries j)
            (wrapSub (roundDown (wrapSub ((entries j).commitBase + (entries j).commitSize) size)
              alignment) headersSize) := ⟨rfl, by omega, by omega, by omega⟩
        split at h
        · exact hlift h
        · split at h
          · simp only [Prod.mk.injEq, Option.some.injEq] at h
            obtain ⟨rfl, rfl⟩ := h
            exact .inr ⟨List.mem_cons_self, hfits⟩
          · rcases hlift h with ⟨hj, hp⟩ | h
            · simp only [Option.some.injEq] at hj
              subst hj hp
              exact .inr ⟨List.mem_cons_self, hfits⟩
            · exact .inr h

/-- An entry that passes the test serves the request, and wastes at most the allowed pages. -/
theorem Fits.placed {cfg : Config} {maxPages size k : Nat} {e : CachedBlock} {headerPos : Nat}
    (h : Fits cfg maxPages size (2^k) getHeadersSize e headerPos) (hk4 : 4 ≤ k) (hk : k ≤ 24)
    (hsize : size ≤ 2^41) (hend : e.commitBase + e.commitSize < 2^56) :
    BlockPlaced size (2^k) e.commitBase (headerPos + largeHeaderSize)
      (e.commitBase + e.commitSize) ∧
      headerPos + getHeadersSize ≤ e.commitBase + maxPages * cfg.pageSize := by
  have hs : getHeadersSize = 64 := by decide
  have hk24 : 2^k ≤ 2^24 := Nat.pow_le_pow_right (by decide) hk
  obtain ⟨hpos, hlo, hhi, hwrap⟩ := h
  have hfrag := hwrap.trans (Nat.mod_le _ _)
  rw [hs] at hpos
  have hle : size ≤ e.commitBase + e.commitSize := by
    by_contra hlt
    -- the subtraction wraps to the top of the address space, far above every entry
    rw [wrapSub_of_lt (show e.commitBase + e.commitSize < size by omega)] at hpos
    obtain ⟨h1, h2, -⟩ := roundDown_spec (e.commitBase + e.commitSize + 2^64 - size) k (by omega)
      (by omega)
    generalize roundDown (e.commitBase + e.commitSize + 2^64 - size) (2^k) = allocPos at hpos h1 h2
    rw [wrapSub_of_le (by omega) (by omega)] at hpos
    omega
  rw [wrapSub_of_le hle (by omega)] at hpos hfrag
  obtain ⟨h1, h2, -⟩ := roundDown_spec (e.commitBase + e.commitSize - size) k (by omega) (by omega)
  have hroom : 64 ≤ roundDown (e.commitBase + e.commitSize - size) (2^k) := by
    by_contra hlt
    rw [wrapSub_of_lt (by omega)] at hpos
    omega
  rw [wrapSub_of_le hroom (by omega)] at hpos
  have hplaced := @blockPlaced_of_roundDown size k e.commitBase _ hk4 hk hle hend
    (by rw [hs]; omega)
  rw [hs, ← hpos] at hplaced
  rw [hs]
  exact ⟨hplaced, by omega⟩

/-- A retrieved entry was cached, fits the request, and is removed; at most its first pages are
given back. -/
theorem Cache.retrieve_some {cfg : Config} {c c' : Cache} {m m' : Mem}
    {maxPages size alignment headersSize : Nat} {e : CachedBlock} {headerPos : Nat}
    (h : c.retrieve cfg m maxPages size alignment headersSize = (some (e, headerPos), c', m')) :
    ∃ i, i ∈ c.lruEntries ∧ e = c.entries i ∧ c' = c.remove i ∧
      Fits cfg maxPages size alignment headersSize e headerPos ∧
      (m' = m ∨ e.time ≠ 0 ∧ 4 * cfg.pageSize < roundDown headerPos cfg.pageSize - e.commitBase ∧
        m' = m.zeroPages e.commitBase (roundUp (min (4 * cfg.pageSize)
          (roundDown headerPos cfg.pageSize - e.commitBase - 4 * cfg.pageSize)) cfg.pageSize)) := by
  simp only [Cache.retrieve] at h
  split at h
  · simp at h
  · next i pos hloop =>
    simp only [Prod.mk.injEq, Option.some.injEq] at h
    obtain ⟨⟨rfl, rfl⟩, rfl, rfl⟩ := h
    rcases retrieveLoop_spec _ _ _ _ hloop with ⟨hn, -⟩ | ⟨hmem, hfits⟩
    · simp at hn
    · refine ⟨i, hmem, rfl, rfl, hfits, ?_⟩
      split
      · next hrel => exact .inr ⟨hrel.1, hrel.2, rfl⟩
      · exact .inl rfl

end ScudoMte.Secondary
