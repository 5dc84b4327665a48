import ScudoMte.Secondary.Geometry

namespace ScudoMte.Secondary

open ByteMemory Ownership

def MemMap.range (map : MemMap) : Range := ⟨map.base, map.base + map.capacity⟩

/-- A committed range lies in its mapping, below the tag field. -/
structure Committed (map : MemMap) (commitBase commitSize : Nat) : Prop where
  pos : 0 < commitBase
  base_le : map.base ≤ commitBase
  end_le : commitBase + commitSize ≤ map.base + map.capacity
  lt : map.base + map.capacity < 2^56
  base_aligned : commitBase % 16 = 0
  size_aligned : commitSize % 16 = 0

/-- A block of the secondary in use: the large header in front of it, in memory, gives the
committed range, which ends at the end of the block, and the mapping. -/
structure LargeBlock (m : Mem) (map : MemMap) (commitBase block blockEnd : Nat) : Prop where
  committed : Committed map commitBase (blockEnd - commitBase)
  header_in : commitBase + largeHeaderSize ≤ block
  block_in : block + 16 ≤ blockEnd
  aligned : block % 16 = 0
  commitBase_eq : headerCommitBase m (getHeader block) = commitBase
  commitSize_eq : headerCommitSize m (getHeader block) = blockEnd - commitBase
  memMap_eq : headerMemMap m (getHeader block) = map

/-- The tags of a mapping whose block begins at `block`: twice the header's tag up to there, and
none behind. -/
def BlockTags (m : Mem) (commitBase block blockEnd : Nat) : Prop :=
  m.TagsAre commitBase block 2 ∧ m.TagsAre block blockEnd 0

/-- A mapping in the cache. With tagging on its tags are those of the block that it held, or none
if its pages were given back. -/
structure CachedBlock.Ok (tagging : Bool) (m : Mem) (e : CachedBlock) : Prop where
  committed : Committed e.memMap e.commitBase e.commitSize
  zero : e.time = 0 → IsZero m.data e.commitBase (e.commitBase + e.commitSize)
  layout : ∃ b, e.blockBegin = taggedPtr b 1 ∧ b % 16 = 0 ∧ e.commitBase ≤ b ∧
    b ≤ e.commitBase + e.commitSize ∧ (tagging → BlockTags m e.commitBase
      (if e.time = 0 then e.commitBase else b) (e.commitBase + e.commitSize))

theorem addLargeHeaderTag_of_lt {a : Nat} (ha : a < 2^56) :
    addLargeHeaderTag a = taggedPtr a 1 :=
  addFixedTag_of_lt ha (by decide)

theorem getHeader_of_lt {a : Nat} (ha : a < 2^56) (h48 : 48 ≤ a) :
    getHeader a = taggedPtr (a-48) 1 := by
  rw [getHeader, addLargeHeaderTag_of_lt ha, largeHeaderSize, taggedPtr_sub 1 h48]

theorem untag_getHeader {a : Nat} (ha : a < 2^56) (h48 : 48 ≤ a) :
    untagPointer (getHeader a) = a - 48 := by
  rw [getHeader_of_lt ha h48, untagPointer_taggedPtr 1 (by omega)]

section WriteHeader

variable {m : Mem} {a t commitBase commitSize : Nat} {map : MemMap}

theorem writeHeader_agreeOff (ha : a < 2^56) :
    m.AgreeOff (writeHeader m (taggedPtr a t) commitBase commitSize map) a (a+48) := by
  simp only [writeHeader, untagPointer_taggedPtr t ha]
  have hw (m : Mem) (lo v : Nat) (h1 : a ≤ lo) (h2 : lo + 8 ≤ a + 48) :
      m.AgreeOff (m.write lo 8 v) a (a+48) := (Mem.write_agreeOff m lo 8 v).mono h1 h2
  exact (((hw _ _ _ (by omega) (by omega)).trans (hw _ _ _ (by omega) (by omega))).trans
    (hw _ _ _ (by omega) (by omega))).trans (hw _ _ _ (by omega) (by omega))

@[simp] theorem writeHeader_tag (h : Nat) :
    (writeHeader m h commitBase commitSize map).tag = m.tag := rfl

/-- The fields read back as they were written. -/
theorem writeHeader_fields (ha : a < 2^56) (hb : commitBase < 2^64) (hs : commitSize < 2^64)
    (hmb : map.base < 2^64) (hmc : map.capacity < 2^64) :
    headerCommitBase (writeHeader m (taggedPtr a t) commitBase commitSize map) (taggedPtr a t) =
      commitBase ∧
    headerCommitSize (writeHeader m (taggedPtr a t) commitBase commitSize map) (taggedPtr a t) =
      commitSize ∧
    headerMemMap (writeHeader m (taggedPtr a t) commitBase commitSize map) (taggedPtr a t) =
      map := by
  have hkeep (m : Mem) (lo v x : Nat) (hx : x + 8 ≤ lo) :
      load (m.write lo 8 v).data x 8 = load m.data x 8 :=
    load_congr ((Mem.write_agreeOff m lo 8 v).data.on (.inl hx))
  have hget (m : Mem) (lo v : Nat) (hv : v < 2^64) : load (m.write lo 8 v).data lo 8 = v := by
    rw [Mem.write, load_store]
    exact Nat.mod_eq_of_lt hv
  simp only [headerCommitBase, headerCommitSize, headerMemMap, writeHeader,
    untagPointer_taggedPtr t ha]
  refine ⟨?_, ?_, ?_⟩
  · rw [hkeep _ _ _ _ (by omega), hkeep _ _ _ _ (by omega), hkeep _ _ _ _ (by omega), hget _ _ _ hb]
  · rw [hkeep _ _ _ _ (by omega), hkeep _ _ _ _ (by omega), hget _ _ _ hs]
  · rw [hget _ _ _ hmc, hkeep _ _ _ _ (by omega), hget _ _ _ hmb]

end WriteHeader

section Frame

variable {m m' : Mem} {map : MemMap} {commitBase block blockEnd : Nat}

theorem LargeBlock.block_bounds (h : LargeBlock m map commitBase block blockEnd) :
    48 ≤ block ∧ block < 2^56 := by
  have hin := h.header_in
  have hend := h.committed.end_le
  have hlt := h.committed.lt
  have hblock := h.block_in
  rw [largeHeaderSize] at hin
  omega

/-- The header is a matter of the bytes in front of the block. -/
theorem LargeBlock.frame (h : LargeBlock m map commitBase block blockEnd)
    (hag : AgreeOn m.data m'.data (block-48) block) :
    LargeBlock m' map commitBase block blockEnd := by
  obtain ⟨h48, hlt⟩ := h.block_bounds
  have hu := untag_getHeader hlt h48
  have hload (o : Nat) (ho : o + 8 ≤ 48) :
      load m'.data (block-48+o) 8 = load m.data (block-48+o) 8 :=
    load_congr fun x h1 h2 => hag x (by omega) (by omega)
  refine ⟨h.committed, h.header_in, h.block_in, h.aligned, ?_, ?_, ?_⟩
  · rw [← h.commitBase_eq]
    simp only [headerCommitBase, hu, hload 16 (by omega)]
  · rw [← h.commitSize_eq]
    simp only [headerCommitSize, hu, hload 24 (by omega)]
  · rw [← h.memMap_eq]
    simp only [headerMemMap, hu, hload 32 (by omega), hload 40 (by omega)]

theorem LargeBlock.getBlockEnd (h : LargeBlock m map commitBase block blockEnd) :
    getBlockEnd m block = blockEnd := by
  have hin := h.header_in
  have hblock := h.block_in
  rw [largeHeaderSize] at hin
  rw [Secondary.getBlockEnd, h.commitBase_eq, h.commitSize_eq]
  omega

theorem writeHeader_large (hc : Committed map commitBase (blockEnd - commitBase))
    (hin : commitBase + largeHeaderSize ≤ block) (hblock : block + 16 ≤ blockEnd)
    (hal : block % 16 = 0) :
    LargeBlock (writeHeader m (getHeader block) commitBase (blockEnd - commitBase) map) map commitBase
      block blockEnd := by
  have hend := hc.end_le
  have hlt := hc.lt
  rw [largeHeaderSize] at hin
  have hh := getHeader_of_lt (show block < 2^56 by omega) (by omega)
  obtain ⟨h1, h2, h3⟩ := @writeHeader_fields m (block-48) 1 commitBase (blockEnd - commitBase) map
    (by omega) (by omega) (by omega) (by omega) (by omega)
  rw [← hh] at h1 h2 h3
  exact ⟨hc, hin, hblock, hal, h1, h2, h3⟩

theorem TagsAre_of_sameOn {lo hi t : Nat} {r : Range} (h : m.TagsAre lo hi t) (hs : m.SameOn m' r)
    (hlo : r.lo ≤ lo) (hhi : hi ≤ r.hi) (hal : hi % 16 = 0) : m'.TagsAre lo hi t := by
  intro g h1 h2
  rw [hs.tag g (by omega) (by omega)]
  exact h g h1 h2

theorem BlockTags.frame {r : Range} (h : BlockTags m commitBase block blockEnd) (hs : m.SameOn m' r)
    (hlo : r.lo ≤ commitBase) (hb : commitBase ≤ block) (hbe : block ≤ blockEnd)
    (hhi : blockEnd ≤ r.hi) (hal : block % 16 = 0) (hale : blockEnd % 16 = 0) :
    BlockTags m' commitBase block blockEnd :=
  ⟨TagsAre_of_sameOn h.1 hs hlo (by omega) hal, TagsAre_of_sameOn h.2 hs (by omega) hhi hale⟩

theorem CachedBlock.Ok.frame {tagging : Bool} {e : CachedBlock} (h : e.Ok tagging m)
    (hs : m.SameOn m' e.memMap.range) : e.Ok tagging m' := by
  obtain ⟨b, hb, hb16, hlo, hhi, htags⟩ := h.layout
  obtain ⟨hpos, hbase, hend, hlt, hb1, hb2⟩ := h.committed
  refine ⟨h.committed, ?_, b, hb, hb16, hlo, hhi, ?_⟩
  · intro ht
    exact (h.zero ht).congr fun a h1 h2 => hs.data a (hbase.trans h1) (by
      simp only [MemMap.range]; omega)
  · intro htag
    have hcut : e.commitBase ≤ (if e.time = 0 then e.commitBase else b) ∧
        (if e.time = 0 then e.commitBase else b) ≤ e.commitBase + e.commitSize ∧
        (if e.time = 0 then e.commitBase else b) % 16 = 0 := by
      split <;> omega
    exact (htags htag).frame hs hbase hcut.1 hcut.2.1 hend hcut.2.2 (by omega)

end Frame

section Tags

variable {m : Mem} {commitBase b block blockEnd : Nat}

theorem BlockTags.of_zero (h : m.TagsAre commitBase blockEnd 0) :
    BlockTags m commitBase commitBase blockEnd :=
  ⟨fun _ h1 h2 => by omega, h⟩

/-- The block begin moves up: the granules in between get the tag of the header pointer twice. -/
theorem BlockTags.raise (h : BlockTags m commitBase b blockEnd) (hle : b ≤ block)
    (hend : block < 2^56) (hb16 : b % 16 = 0) (hal : block % 16 = 0) :
    BlockTags (storeTags m (taggedPtr b 1) (taggedPtr block 1)) commitBase block blockEnd := by
  refine ⟨?_, ?_⟩
  · intro g h1 h2
    rw [storeTags_tag m g (by omega) hend (by decide) hb16]
    split
    · rfl
    · exact h.1 g h1 (by omega)
  · intro g h1 h2
    rw [storeTags_tag m g (by omega) hend (by decide) hb16, if_neg (by omega)]
    exact h.2 g (by omega) h2

/-- The block begin moves down: the granules in between lose their tag. -/
theorem BlockTags.lower (h : BlockTags m commitBase b blockEnd) (hle : block ≤ b)
    (hend : b < 2^56) (hb16 : b % 16 = 0) (hal : block % 16 = 0) :
    BlockTags (storeTags m block b) commitBase block blockEnd := by
  have htag (g : Nat) := storeTags_tag m (t := 0) g (show block < 2^56 by omega) hend (by decide) hal
  simp only [taggedPtr_zero] at htag
  refine ⟨?_, ?_⟩
  · intro g h1 h2
    rw [htag, if_neg (by omega)]
    exact h.1 g h1 (by omega)
  · intro g h1 h2
    rw [htag]
    split
    · rfl
    · exact h.2 g (by omega) h2

end Tags

section Zero

variable {m : Mem}

theorem zeroPages_isZero (lo n : Nat) : IsZero (m.zeroPages lo n).data lo (lo+n) :=
  fill_isZero _ _ _

/-- Giving pages back keeps what is zero zero. -/
theorem IsZero.zeroPages {a b : Nat} (h : IsZero m.data a b) (lo n : Nat) :
    IsZero (m.zeroPages lo n).data a b := by
  intro x h1 h2
  simp only [Mem.zeroPages, fill]
  split
  · rfl
  · exact h x h1 h2

theorem zeroPages_tagsAre (lo n : Nat) : (m.zeroPages lo n).TagsAre lo (lo+n) 0 := by
  intro g h1 h2
  simp [Mem.zeroPages, h1, h2]

/-- A mapping that is made, in one call or two, is zero and has no tags. -/
theorem mapSecondary_spec (cfg : Config) (opts : Options) (m : Mem) (commitBase commitSize
    allocPos : Nat) (hpos : allocPos ≤ commitBase + commitSize) :
    m.AgreeOff (mapSecondary cfg opts m commitBase commitSize allocPos) commitBase
      (commitBase + commitSize) ∧
    IsZero (mapSecondary cfg opts m commitBase commitSize allocPos).data commitBase
      (commitBase + commitSize) ∧
    (mapSecondary cfg opts m commitBase commitSize allocPos).TagsAre commitBase
      (commitBase + commitSize) 0 := by
  simp only [mapSecondary]
  split
  · next hc =>
    have h4 : maxUnreleasedCachePages * cfg.pageSize < commitSize := hc.2
    generalize maxUnreleasedCachePages * cfg.pageSize = n at h4 ⊢
    -- the second call starts where the first one ends
    obtain ⟨u, hu⟩ : ∃ u, u = max allocPos (commitBase + n) := ⟨_, rfl⟩
    have hlo : commitBase ≤ u := by omega
    have hhi : u ≤ commitBase + commitSize := by omega
    rw [← hu]
    have e1 : commitBase + (u - commitBase) = u := by omega
    have e2 : u + (commitBase + commitSize - u) = commitBase + commitSize := by omega
    refine ⟨?_, ?_, ?_⟩
    · exact ((Mem.zeroPages_agreeOff _ _ _).mono (le_refl _) (by omega)).trans
        ((Mem.zeroPages_agreeOff _ _ _).mono hlo (by omega))
    · intro a h1 h2
      rcases Nat.lt_or_ge a u with hau | hau
      · exact IsZero.zeroPages (zeroPages_isZero commitBase (u - commitBase)) _ _ a h1 (by omega)
      · exact zeroPages_isZero u (commitBase + commitSize - u) a hau (by omega)
    · intro g h1 h2
      simp only [Mem.zeroPages]
      split
      · rfl
      · next hn => rw [if_pos (by omega)]
  · exact ⟨Mem.zeroPages_agreeOff _ _ _, zeroPages_isZero _ _, zeroPages_tagsAre _ _⟩

end Zero

end ScudoMte.Secondary
