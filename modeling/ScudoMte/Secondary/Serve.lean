import ScudoMte.Secondary.LargeBlock

namespace ScudoMte.Secondary

open ByteMemory Ownership

/-- What the secondary does to hand out a block: it writes in one mapping, where the large header
then leads to the block, tags up to the block, and zeroes the block if it has to. -/
structure Served (opts : Options) (fill : FillContentsMode) (m m' : Mem) (map : MemMap)
    (block blockEnd : Nat) : Prop where
  large : ∃ commitBase, LargeBlock m' map commitBase block blockEnd ∧
    (opts.useMemoryTagging → BlockTags m' commitBase block blockEnd)
  agreeOff : m.AgreeOff m' map.range.lo map.range.hi
  zero : fill = .zeroFill → IsZero m'.data block blockEnd

section Serve

variable {opts : Options} {fill : FillContentsMode} {m m1 m2 : Mem} {map : MemMap}
  {commitBase block blockEnd : Nat}

/-- The last steps of a hand-out: tags, the large header, and the fill of the block. -/
theorem Served.of_writeHeader (hc : Committed map commitBase (blockEnd - commitBase))
    (hin : commitBase + largeHeaderSize ≤ block) (hblock : block + 16 ≤ blockEnd)
    (hal : block % 16 = 0) (hag : m.AgreeOff m1 map.range.lo map.range.hi)
    (htags : opts.useMemoryTagging → BlockTags m1 commitBase block blockEnd)
    (hzero : fill = .zeroFill → IsZero m1.data block blockEnd) :
    Served opts fill m (writeHeader m1 (getHeader block) commitBase (blockEnd - commitBase) map) map
      block blockEnd := by
  have hend := hc.end_le
  have hlt := hc.lt
  have hbase := hc.base_le
  have hin' := hin
  rw [largeHeaderSize] at hin'
  have hw := @writeHeader_agreeOff m1 (block-48) 1 commitBase (blockEnd - commitBase) map (by omega)
  rw [← getHeader_of_lt (show block < 2^56 by omega) (by omega)] at hw
  refine ⟨⟨commitBase, writeHeader_large hc hin hblock hal, htags⟩, ?_, ?_⟩
  · exact hag.trans (hw.mono (by simp only [MemMap.range]; omega) (by simp only [MemMap.range]; omega))
  · intro hf
    exact (hzero hf).congr (hw.data.on (.inr (by omega)))

/-- A fill of the block after the header. -/
theorem Served.memset (h : Served opts .noFill m m1 map block blockEnd) (b : UInt8)
    (hb : fill = .zeroFill → b = 0) :
    Served opts fill m (m1.memset block b (blockEnd - block)) map block blockEnd := by
  obtain ⟨⟨cb, hl, htags⟩, hag, -⟩ := h
  have hblock := hl.block_in
  have hin := hl.header_in
  have hend := hl.committed.end_le
  have hbase := hl.committed.base_le
  have hset := Mem.memset_agreeOff m1 block (blockEnd - block) b
  have hsum : block + (blockEnd - block) = blockEnd := by omega
  rw [hsum] at hset
  refine ⟨⟨cb, hl.frame (hset.data.on (.inl (le_refl _))), htags⟩, ?_, ?_⟩
  · refine hag.trans (hset.mono ?_ ?_) <;> simp only [MemMap.range] <;> omega
  · intro hf
    have hz := fill_isZero m1.data block (blockEnd - block)
    rw [hsum] at hz
    rw [hb hf]
    exact hz

end Serve

theorem allocateFresh_served (cfg : Config) (opts : Options) (fill : FillContentsMode)
    (s : Secondary) (m : Mem) {size k mapBase : Nat} (hk4 : 4 ≤ k) (hk : k ≤ 24)
    (hsize : size ≤ 2^41) (hpos : 0 < mapBase) (hbase : cfg.pageSize ∣ mapBase)
    (hend : mapBase + (roundedSize cfg size (2^k) + 2 * getGuardPageSize cfg) < 2^56) :
    Served opts fill m (allocateFresh cfg opts s m size (2^k) mapBase).2.2
      ⟨mapBase, roundedSize cfg size (2^k) + 2 * getGuardPageSize cfg⟩
      (allocateFresh cfg opts s m size (2^k) mapBase).1.1
      (allocateFresh cfg opts s m size (2^k) mapBase).1.2 := by
  obtain ⟨hcbd, hcb, hced, hle, hroom⟩ := allocateFresh_range cfg size hk4 hk hsize hbase hend
  obtain ⟨halign, hhead, hfits, -⟩ :=
    allocateFresh_placed cfg opts s m size hk4 hk hsize hbase hend
  have hs : getHeadersSize = 64 := by decide
  have hl : largeHeaderSize = 48 := rfl
  have hp16 := cfg.pageSize_aligned
  have hmod {x : Nat} (h : cfg.pageSize ∣ x) : x % 16 = 0 :=
    Nat.mod_eq_zero_of_dvd ((Nat.dvd_of_mod_eq_zero hp16).trans h)
  have hcb16 := hmod hcbd
  have hce16 := hmod hced
  have hb16 := mod_16_of_dvd hk4 halign
  simp only [allocateFresh, hs, hl] at hhead hfits hb16 hroom ⊢
  generalize roundedSize cfg size (2^k) + 2 * getGuardPageSize cfg = mapSize at *
  generalize commitBaseOf cfg mapBase (2^k) = cb at *
  have hcs : cb + (mapBase + mapSize - getGuardPageSize cfg - cb) =
      mapBase + mapSize - getGuardPageSize cfg := by omega
  rw [hcs] at hhead hfits hb16 ⊢
  generalize hce : mapBase + mapSize - getGuardPageSize cfg = ce at *
  obtain ⟨hr1, -, -⟩ := roundDown_spec (ce - size) k (by omega) (by omega)
  generalize roundDown (ce - size) (2^k) = pos at *
  have hblock : pos - 64 + 48 = pos - 16 := by omega
  have htag : addLargeHeaderTag (pos - 64) = getHeader (pos - 16) := by
    rw [getHeader_of_lt (by omega) (by omega), addLargeHeaderTag_of_lt (by omega)]
    congr 1
  have hplus : addLargeHeaderTag (pos - 64) + 48 = taggedPtr (pos-16) 1 := by
    rw [addLargeHeaderTag_of_lt (by omega), taggedPtr_add, hblock]
  obtain ⟨hag, hzero, htags⟩ := mapSecondary_spec cfg opts m cb (ce - cb) pos (by omega)
  have hcecb : cb + (ce - cb) = ce := by omega
  rw [hcecb] at hag hzero htags
  rw [hblock, hplus, htag, addLargeHeaderTag_of_lt (show cb < 2^56 by omega)]
  have hc : Committed ⟨mapBase, mapSize⟩ cb (ce - cb) :=
    ⟨by omega, by simp only; omega, by simp only; omega, by simp only; omega, hcb16, by omega⟩
  refine Served.of_writeHeader hc (by rw [largeHeaderSize]; omega) (by omega) (by omega) ?_ ?_ ?_
  · have hmap : m.AgreeOff (mapSecondary cfg opts m cb (ce - cb) pos) mapBase (mapBase + mapSize) :=
      hag.mono (by omega) (by omega)
    split
    · refine hmap.trans ((storeTags_agreeOff _ cb ce (by omega) (by omega) (by decide) hcb16
        (le_refl _) (by omega) hce16).mono ?_ ?_) <;> omega
    · exact hmap
  · intro ht
    rw [if_pos ht]
    exact (BlockTags.of_zero htags).raise (by omega) (by omega) hcb16 (by omega)
  · intro _
    have hz := hzero.mono (show cb ≤ pos - 16 by omega) (le_refl ce)
    split
    · rw [storeTags_data]
      exact hz
    · exact hz

/-- The tag stores of a cache hit make the tags right for the new block. -/
theorem retagCached_blockTags {m : Mem} {e : CachedBlock} {block : Nat} (hok : e.Ok true m)
    (hlo : e.commitBase ≤ block) (hhi : block ≤ e.commitBase + e.commitSize)
    (hal : block % 16 = 0) :
    BlockTags (retagCached m e (taggedPtr block 1)) e.commitBase block
      (e.commitBase + e.commitSize) := by
  obtain ⟨b, hb, hb16, hblo, hbhi, htags⟩ := hok.layout
  have htags := htags rfl
  obtain ⟨-, -, hend, hlt, hcb16, -⟩ := hok.committed
  rw [retagCached, addLargeHeaderTag_of_lt (by omega)]
  split
  · next ht =>
    rw [if_pos ht] at htags
    exact htags.raise hlo (by omega) hcb16 hal
  · next ht =>
    rw [if_neg ht] at htags
    rw [hb, untagPointer_taggedPtr 1 (by omega), untagPointer_taggedPtr 1 (by omega)]
    split
    · next hlt' => exact htags.raise (by simp only [taggedPtr] at hlt'; omega) (by omega) hb16 hal
    · next hge =>
      exact htags.lower (by simp only [taggedPtr] at hge; omega) (by omega) hb16 hal

theorem retagCached_data (m : Mem) (e : CachedBlock) (newBlockBegin : Nat) :
    (retagCached m e newBlockBegin).data = m.data := by
  unfold retagCached
  split
  · exact storeTags_data _ _ _
  · split <;> exact storeTags_data _ _ _

theorem retagCached_agreeOff {m : Mem} {e : CachedBlock} {block : Nat} {tagging : Bool}
    (hok : e.Ok tagging m) (hhi : block ≤ e.commitBase + e.commitSize)
    (hlo : e.commitBase ≤ block) (hal : block % 16 = 0) :
    m.AgreeOff (retagCached m e (taggedPtr block 1)) e.memMap.range.lo e.memMap.range.hi := by
  obtain ⟨b, hb, hb16, hblo, hbhi, -⟩ := hok.layout
  obtain ⟨-, hbase, hend, hlt, hcb16, hcs16⟩ := hok.committed
  have key {x y t : Nat} (hx : e.commitBase ≤ x) (hy : y ≤ e.commitBase + e.commitSize)
      (hxy : x ≤ e.commitBase + e.commitSize) (ht : t < 16) (hx16 : x % 16 = 0) :
      m.AgreeOff (storeTags m (taggedPtr x t) (taggedPtr y t)) e.memMap.range.lo
        e.memMap.range.hi :=
    (storeTags_agreeOff m e.commitBase (e.commitBase + e.commitSize) (by omega) (by omega) ht hx16
      hx hy (by omega)).mono hbase hend
  rw [retagCached, addLargeHeaderTag_of_lt (by omega)]
  split
  · exact key (le_refl _) hhi (by omega) (by decide) hcb16
  · rw [hb, untagPointer_taggedPtr 1 (by omega), untagPointer_taggedPtr 1 (by omega)]
    split
    · exact key hblo hhi hbhi (by decide) hb16
    · have h := key (t := 0) hlo hbhi hhi (by decide) hal
      rwa [taggedPtr_zero, taggedPtr_zero] at h

/-- The memory of a retrieved entry: with tagging on, too few pages are left in front of the
header to give any back. -/
theorem retrieve_mem {cfg : Config} {tagging : Bool} {m m1 : Mem} {e : CachedBlock}
    {size alignment headerPos : Nat} (hok : e.Ok tagging m)
    (hfits : Fits cfg (if !tagging then maxUnreleasedCachePages + maxReleasedCachePages
      else maxUnreleasedCachePages) size alignment getHeadersSize e headerPos)
    (hnear : headerPos + 64 ≤ e.commitBase + (if !tagging then
      maxUnreleasedCachePages + maxReleasedCachePages else maxUnreleasedCachePages) * cfg.pageSize)
    (hm1 : m1 = m ∨ e.time ≠ 0 ∧ 4 * cfg.pageSize < roundDown headerPos cfg.pageSize - e.commitBase ∧
      m1 = m.zeroPages e.commitBase (roundUp (min (4 * cfg.pageSize)
        (roundDown headerPos cfg.pageSize - e.commitBase - 4 * cfg.pageSize)) cfg.pageSize)) :
    m.AgreeOff m1 e.memMap.range.lo e.memMap.range.hi ∧ e.Ok tagging m1 := by
  obtain ⟨hpos, hbase, hend, hlt, hcb16, hcs16⟩ := hok.committed
  rcases hm1 with rfl | ⟨ht0, hfrag, rfl⟩
  · exact ⟨.refl _ _ _, hok⟩
  · have hhi := hfits.hi
    have hpk : cfg.pageSize = 2^cfg.pageSizeLog := rfl
    have hp0 := cfg.pageSize_ge
    have hp20 := cfg.pageSize_le
    have hlog := cfg.pageSizeLog_le
    obtain ⟨hr1, -, -⟩ := roundDown_spec headerPos cfg.pageSizeLog (by omega) (by omega)
    rw [← hpk] at hr1
    obtain ⟨-, hr2, -⟩ := roundUp_spec (min (4 * cfg.pageSize)
      (roundDown headerPos cfg.pageSize - e.commitBase - 4 * cfg.pageSize)) cfg.pageSizeLog
      (by omega) (by rw [← hpk]; omega)
    rw [← hpk] at hr2
    cases tagging with
    | true =>
      simp only [Bool.not_true, Bool.false_eq_true, if_false, maxUnreleasedCachePages] at hnear
      omega
    | false =>
      refine ⟨(Mem.zeroPages_agreeOff m e.commitBase _).mono hbase ?_, hok.committed, ?_, ?_⟩
      · simp only [MemMap.range]
        omega
      · intro ht
        exact absurd ht ht0
      · obtain ⟨b, hb, hb16, hlo, hhi, -⟩ := hok.layout
        exact ⟨b, hb, hb16, hlo, hhi, fun h => by simp at h⟩

theorem tryAllocateFromCache_served {cfg : Config} {opts : Options} {fill : FillContentsMode}
    {s s' : Secondary} {m m' : Mem} {size k block blockEnd : Nat} (hk4 : 4 ≤ k) (hk : k ≤ 24)
    (hsize : size ≤ 2^41)
    (hok : ∀ i ∈ s.cache.lruEntries, (s.cache.entries i).Ok opts.useMemoryTagging m)
    (h : tryAllocateFromCache cfg opts s m size (2^k) fill = (some (block, blockEnd), s', m')) :
    ∃ i ∈ s.cache.lruEntries,
      Served opts fill m m' (s.cache.entries i).memMap block blockEnd ∧
      s' = { cache := s.cache.remove i, inUseBlocks := s.inUseBlocks ++ [getHeader block] } := by
  simp only [tryAllocateFromCache] at h
  split at h
  · simp at h
  · next e pos cache m1 hret =>
    obtain ⟨i, hi, he, rfl, hfits, hm1⟩ := Cache.retrieve_some hret
    have hoki := hok i hi
    refine ⟨i, hi, ?_⟩
    rw [← he] at hoki ⊢
    obtain ⟨hpos, hbase, hend, hlt, hcb16, hcs16⟩ := hoki.committed
    obtain ⟨⟨halign, hhead, hfit, -⟩, hnear⟩ := hfits.placed hk4 hk hsize (by omega)
    have hs : getHeadersSize = 64 := by decide
    rw [hs] at hnear
    obtain ⟨hag1, hok1⟩ := retrieve_mem hoki hfits hnear hm1
    rw [largeHeaderSize] at halign hhead hfit h
    have hb16 := mod_16_of_dvd hk4 halign
    have hblock : untagPointer (addLargeHeaderTag pos) + 48 = pos + 48 := by
      rw [addLargeHeaderTag_of_lt (by omega), untagPointer_taggedPtr 1 (by omega)]
    have hhdr : addLargeHeaderTag pos = getHeader (pos+48) := by
      rw [getHeader_of_lt (by omega) (by omega), addLargeHeaderTag_of_lt (by omega)]
      congr 1
    have hnew : getHeader (pos+48) + 48 = taggedPtr (pos+48) 1 := by
      rw [getHeader_of_lt (by omega) (by omega), taggedPtr_add]
      congr 1
    simp only [hblock] at h
    simp only [hhdr, hnew, Prod.mk.injEq, Option.some.injEq] at h
    obtain ⟨⟨rfl, rfl⟩, rfl, rfl⟩ := h
    refine ⟨?_, rfl⟩
    have hce : e.commitBase + e.commitSize - e.commitBase = e.commitSize := by omega
    have hserve (fill : FillContentsMode) (hz : fill = .zeroFill → e.time = 0) :=
      @Served.of_writeHeader opts fill m
        (if opts.useMemoryTagging then retagCached m1 e (taggedPtr (pos+48) 1) else m1) e.memMap
        e.commitBase (pos+48) (e.commitBase + e.commitSize)
        (by rw [hce]; exact hoki.committed) hhead (by omega) (by omega)
        (by
          split
          · exact hag1.trans (retagCached_agreeOff hok1 (by omega) (by omega) (by omega))
          · exact hag1)
        (by
          intro ht
          rw [ht] at hok1
          rw [if_pos ht]
          exact retagCached_blockTags hok1 (by omega) (by omega) (by omega))
        (by
          intro hf
          have hzero := (hok1.zero (hz hf)).mono (show _ ≤ pos+48 by omega) (le_refl _)
          split
          · rw [retagCached_data]
            exact hzero
          · exact hzero)
    rw [hce] at hserve
    split
    · exact (hserve .noFill (by simp)).memset _ fun hf => by rw [hf]; rfl
    · next hn =>
      refine hserve _ fun hf => ?_
      by_contra ht
      exact hn ⟨by rw [hf]; decide, ht⟩

/-- The mapping that `allocate` reserves at a base. -/
def reservation (cfg : Config) (opts : Options) (size alignment base : Nat) : MemMap :=
  ⟨base, roundedSize cfg (sizeWithSlack opts size) alignment + 2 * getGuardPageSize cfg⟩

/-- A block comes from a cached mapping, which leaves the cache, or from a new one. -/
theorem allocate_served {cfg : Config} {opts : Options} {env : SecondaryEnv}
    {fill : FillContentsMode} {s s' : Secondary} {m m' : Mem} {size k block blockEnd : Nat}
    (hk4 : 4 ≤ k) (hk : k ≤ 24) (hsize : size < 2^40)
    (hok : ∀ i ∈ s.cache.lruEntries, (s.cache.entries i).Ok opts.useMemoryTagging m)
    (hbase : ∀ b, env.mapBase = some b → 0 < b ∧ cfg.pageSize ∣ b ∧ b < 2^47)
    (h : s.allocate cfg opts env m size (2^k) fill = (some (block, blockEnd), s', m')) :
    ∃ map, Served opts fill m m' map block blockEnd ∧
      s'.inUseBlocks = s.inUseBlocks ++ [getHeader block] ∧
      ((∃ i ∈ s.cache.lruEntries, map = (s.cache.entries i).memMap ∧
          s'.cache = s.cache.remove i) ∨
        ∃ b, env.mapBase = some b ∧ map = reservation cfg opts size (2^k) b ∧
          s'.cache = s.cache) := by
  have hslack : sizeWithSlack opts size ≤ 2^41 := by
    have h16 : 1 <<< minAlignmentLog = 16 := by decide
    simp only [sizeWithSlack, h16]
    split <;> omega
  have hk16 : 2^4 ≤ 2^k := Nat.pow_le_pow_right (by decide) hk4
  rcases allocate_cases h hk16 with ⟨hn, -, -⟩ | ⟨res, hr, -, hc⟩ | ⟨b, res, hr, hb, hf⟩
  · simp at hn
  · simp only [Option.some.injEq] at hr
    subst hr
    obtain ⟨i, hi, hserved, rfl⟩ := tryAllocateFromCache_served hk4 hk hslack hok hc
    exact ⟨_, hserved, rfl, .inl ⟨i, hi, rfl, rfl⟩⟩
  · simp only [Option.some.injEq] at hr
    subst hr
    obtain ⟨hpos, hdvd, hlt⟩ := hbase b hb
    have hlim := roundedSize_lt cfg (sizeWithSlack opts size) hk hslack
    have hg := getGuardPageSize_le cfg
    have hpg := cfg.pageSize_le
    have hserved := allocateFresh_served cfg opts fill s m hk4 hk hslack hpos hdvd (by omega)
    have hhdr := hserved.large
    rw [hf] at hserved hhdr
    obtain ⟨cb, hlarge, -⟩ := hhdr
    refine ⟨_, hserved, ?_, .inr ⟨b, hb, rfl, ?_⟩⟩
    · obtain ⟨h48, hblt⟩ := hlarge.block_bounds
      have hgh := getHeader_of_lt hblt h48
      simp only [allocateFresh, largeHeaderSize, Prod.mk.injEq] at hf
      obtain ⟨⟨hblock, -⟩, rfl, -⟩ := hf
      simp only at hgh hblt h48
      rw [← hblock, Nat.add_sub_cancel] at hgh
      rw [← hblock, hgh, addLargeHeaderTag_of_lt (by omega)]
    · simp only [allocateFresh, Prod.mk.injEq] at hf
      obtain ⟨-, rfl, -⟩ := hf
      rfl

end ScudoMte.Secondary
