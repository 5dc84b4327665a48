import ScudoMte.Heap.State

namespace ScudoMte

open ByteMemory Ownership Chunk Combined

variable {cfg : Config} {tagging : Bool} {m m' : Mem}

section Holding

variable {r : Holding}

theorem Holding.Ok.user_lt (h : r.Ok cfg tagging m) : r.user < 2^56 := by
  have := h.user_in
  have := h.blockEnd_lt
  omega

/-- The block lies in the memory that the chunk owns. -/
theorem Holding.Ok.zone (h : r.Ok cfg tagging m) :
    r.map.range.lo ≤ r.block ∧ r.blockEnd ≤ r.map.range.hi := by
  rcases h.place with hp | hs
  · rw [hp.map, hp.blockEnd]
    exact ⟨le_refl _, le_refl _⟩
  · obtain ⟨cb, hl, -⟩ := hs.large
    have hc := hl.committed
    have hin := hl.header_in
    have hbase := hc.base_le
    have hend := hc.end_le
    have hblock := hl.block_in
    rw [Secondary.largeHeaderSize] at hin
    simp only [Secondary.MemMap.range]
    omega

theorem SecondaryChunk.frame (h : SecondaryChunk tagging m r) (hs : m.SameOn m' r.map.range)
    (hend : r.blockEnd % 16 = 0) : SecondaryChunk tagging m' r := by
  obtain ⟨hc, hlive, hptr, htag, huser, cb, hl, htags⟩ := h
  have hcb := hl.committed.base_le
  have hce := hl.committed.end_le
  have hin := hl.header_in
  have hblock := hl.block_in
  have hal := hl.aligned
  rw [Secondary.largeHeaderSize] at hin
  have hlo : r.map.range.lo ≤ cb := hcb
  have hhi : r.blockEnd ≤ r.map.range.hi := by
    simp only [Secondary.MemMap.range]
    omega
  refine ⟨hc, hlive, hptr, htag, huser, cb, hl.frame fun a h1 h2 => hs.data a (by omega) (by omega),
    ?_⟩
  intro ht
  obtain ⟨h2, h4, h0⟩ := htags ht
  refine ⟨?_, ?_, ?_⟩
  · exact Secondary.TagsAre_of_sameOn h2 hs hlo (by omega) hal
  · exact Secondary.TagsAre_of_sameOn h4 hs (by omega) (by omega) (by omega)
  · exact Secondary.TagsAre_of_sameOn h0 hs (by omega) hhi hend

theorem Holding.Ok.frame (h : r.Ok cfg tagging m) (hs : m.SameOn m' r.map.range) :
    r.Ok cfg tagging m' := by
  obtain ⟨hlo, hhi⟩ := h.zone
  have hin := h.header_in
  have hfit := h.user_in
  refine { h with place := ?_, header := ?_, headerKey := ?_ }
  · rcases h.place with hp | hsec
    · exact .inl hp
    · exact .inr (hsec.frame hs h.blockEnd_aligned)
  · obtain ⟨hd, hst, hof⟩ := h.header
    exact ⟨hd, hst.frame hin h.user_lt fun a h1 h2 => hs.data a (by omega) (by omega), hof⟩
  · rw [← h.headerKey]
    exact hs.headerKey _ (by omega) (by omega)

/-- The place of a chunk stays as it is while its block is written. -/
theorem Holding.Ok.place_congr (h : r.Ok cfg tagging m)
    (hag : ByteMemory.AgreeOff m.data m'.data r.block r.blockEnd)
    (htag : r.classId = 0 → m'.tag = m.tag) : PrimaryChunk cfg r ∨ SecondaryChunk tagging m' r := by
  rcases h.place with hp | hs
  · exact .inl hp
  · obtain ⟨cb, hl, htags⟩ := hs.large
    refine .inr { hs with large := ⟨cb, hl.frame (hag.on (.inl (le_refl _))), ?_⟩ }
    rw [ChunkTags, Mem.TagsAre, Mem.TagsAre, Mem.TagsAre, htag hs.classId]
    exact htags

/-- The program writes its bytes. -/
theorem Holding.Ok.write (h : r.Ok cfg tagging m)
    (hag : ByteMemory.AgreeOff m.data m'.data r.user r.blockEnd) (htag : m'.tag = m.tag)
    (hkey : m'.headerKey = m.headerKey) : r.Ok cfg tagging m' := by
  have hin := h.header_in
  obtain ⟨hd, hst, hof⟩ := h.header
  refine { h with place := ?_, header := ⟨hd, ?_, hof⟩, headerKey := ?_ }
  · exact h.place_congr (hag.mono (by omega) (le_refl _)) fun _ => htag
  · exact hst.frame hin h.user_lt (hag.on (.inl (by omega)))
  · rw [hkey]
    exact h.headerKey

end Holding

theorem getChunkOffsetFromBlock_congr {block : Nat} (hb : block < 2^56)
    (hag : AgreeOn m.data m'.data block (block+8)) :
    getChunkOffsetFromBlock m' block = getChunkOffsetFromBlock m block := by
  have h0 : load m'.data block 4 = load m.data block 4 :=
    load_congr fun a h1 h2 => hag a h1 (by omega)
  have h4 : load m'.data (block+4) 4 = load m.data (block+4) 4 :=
    load_congr fun a h1 h2 => hag a (by omega) (by omega)
  simp only [getChunkOffsetFromBlock, untagPointer_of_lt hb, h0, h4]

theorem getChunkOffsetFromBlock_ge (block : Nat) : 16 ≤ getChunkOffsetFromBlock m block := by
  rw [getChunkOffsetFromBlock, getHeaderSize_eq]
  omega

theorem Quiet.frame {block size : Nat} (h : Quiet m block size) (hb : block < 2^56)
    (hag : AgreeOn m.data m'.data block (block+size)) : Quiet m' block size := by
  have hge := getChunkOffsetFromBlock_ge (m := m) block
  have hle := h.le
  have hoff := getChunkOffsetFromBlock_congr hb (fun a h1 h2 => hag a h1 (by omega))
  have hload : load m'.data (block + getChunkOffsetFromBlock m block - 16) 8 =
      load m.data (block + getChunkOffsetFromBlock m block - 16) 8 :=
    load_congr fun a h1 h2 => hag a (by omega) (by omega)
  refine ⟨?_, ?_, ?_⟩ <;> rw [hoff]
  · exact h.aligned
  · exact h.le
  · rw [hload]
    exact h.state

/-- An owner is concerned with what is in its zone only. -/
theorem Owner.Ok.frame {o : Owner} (h : o.Ok cfg tagging m) (hs : m.SameOn m' (o.zone cfg)) :
    o.Ok cfg tagging m' := by
  cases o with
  | chunk r => exact Holding.Ok.frame h hs
  | cached e => exact Secondary.CachedBlock.Ok.frame h hs
  | free c b =>
    have hf : FreeBlock cfg m c b := h
    have hlt := hf.lt
    exact { hf with quiet := hf.quiet.frame (by omega) hs.data }
  | reserve lo hi =>
    obtain ⟨h16, hlt, hz⟩ := h
    exact ⟨h16, hlt, hz.congr hs.data⟩

/-- With tagging off, less is asked of the tags. -/
theorem Owner.Ok.disable {o : Owner} (h : o.Ok cfg tagging m) : o.Ok cfg false m := by
  cases o with
  | chunk r =>
    have hr : r.Ok cfg tagging m := h
    refine { hr with place := ?_ }
    rcases hr.place with hp | hs
    · exact .inl hp
    · obtain ⟨cb, hl, -⟩ := hs.large
      exact .inr { hs with large := ⟨cb, hl, by simp⟩ }
  | cached e =>
    have he : e.Ok tagging m := h
    obtain ⟨b, hb, hb16, hlo, hhi, -⟩ := he.layout
    exact ⟨he.committed, he.zero, b, hb, hb16, hlo, hhi, by simp⟩
  | free c b => exact h
  | reserve lo hi => exact h

/-- The memory of a heap, split among its owners. -/
abbrev Owns (cfg : Config) (tagging : Bool) (m : Mem) (os : List Owner) : Prop :=
  Owned (Owner.zone cfg) (Owner.Ok cfg tagging) m os

section Owns

variable {o : Owner} {os news : List Owner}

theorem Owns.add {r : Range} (h : Owns cfg tagging m os) (hr : ∀ o ∈ os, r.Disjoint (o.zone cfg))
    (hag : m.AgreeOff m' r.lo r.hi) (hnews : Owns cfg tagging m' news)
    (hin : ∀ n ∈ news, (n.zone cfg).Within r) : Owns cfg tagging m' (news ++ os) :=
  Owned.add h hr (fun o ho hok => hok.frame (hag.sameOn (hr o ho))) hnews hin

theorem Owns.replace (h : Owns cfg tagging m (o::os))
    (hag : m.AgreeOff m' (o.zone cfg).lo (o.zone cfg).hi) (hnews : Owns cfg tagging m' news)
    (hin : ∀ n ∈ news, (n.zone cfg).Within (o.zone cfg)) : Owns cfg tagging m' (news ++ os) :=
  Owned.replace h (fun _ _ hd hok => hok.frame (hag.sameOn hd)) hnews hin

theorem Owns.update {o' : Owner} (h : Owns cfg tagging m (o::os))
    (hag : m.AgreeOff m' (o.zone cfg).lo (o.zone cfg).hi) (ho : o'.Ok cfg tagging m')
    (hin : (o'.zone cfg).Within (o.zone cfg)) : Owns cfg tagging m' (o'::os) :=
  Owned.update h (fun _ _ hd hok => hok.frame (hag.sameOn hd)) ho hin

end Owns

/-- Zeroing whole granules leaves a free block quiet. -/
theorem Quiet.zeroPages {block size lo n : Nat} (h : Quiet m block size) (hb : block < 2^56)
    (hal : block % 16 = 0) (hlo : lo % 16 = 0) (hn : n % 16 = 0) :
    Quiet (m.zeroPages lo n) block size := by
  have hag := (Mem.zeroPages_agreeOff m lo n).data
  have hzero := Secondary.zeroPages_isZero (m := m) lo n
  have hge := getChunkOffsetFromBlock_ge (m := m) block
  have hle := h.le
  have hmod := h.aligned
  have hst := h.state
  have hstate0 : (unpack 0).state ≠ State.allocated.field := by decide
  by_cases hin : lo ≤ block ∧ block < lo + n
  · -- the marker is gone, and the header at the default place is zero
    have hz {a k : Nat} (h1 : lo ≤ a) (h2 : a + k ≤ lo + n) :
        load (m.zeroPages lo n).data a k = 0 := load_zero (hzero.mono h1 h2)
    have hoff : getChunkOffsetFromBlock (m.zeroPages lo n) block = 16 := by
      rw [getChunkOffsetFromBlock, untagPointer_of_lt hb, hz (by omega) (by omega)]
      rfl
    refine ⟨?_, ?_, ?_⟩ <;> rw [hoff]
    · omega
    · rw [hz (by omega) (by omega)]
      exact hstate0
  · have hoff := getChunkOffsetFromBlock_congr hb
      (@ByteMemory.AgreeOff.on _ _ _ _ block (block+8) hag (by omega))
    refine ⟨?_, ?_, ?_⟩ <;> rw [hoff]
    · exact hmod
    · exact hle
    · generalize getChunkOffsetFromBlock m block = off at hge hle hmod hst ⊢
      by_cases hhdr : lo ≤ block + off - 16 ∧ block + off - 16 < lo + n
      · rw [load_zero (hzero.mono (by omega) (by omega))]
        exact hstate0
      · rw [load_congr (hag.on (by omega))]
        exact hst

theorem Secondary.CachedBlock.Ok.release {e : Secondary.CachedBlock} (h : e.Ok tagging m) :
    ({ e with time := 0 } : Secondary.CachedBlock).Ok tagging
      (Secondary.Cache.releaseEntry m e) := by
  obtain ⟨b, hb, hb16, hlo, hhi, -⟩ := h.layout
  refine ⟨h.committed, fun _ => Secondary.zeroPages_isZero _ _, b, hb, hb16, hlo, hhi, ?_⟩
  intro _
  exact Secondary.BlockTags.of_zero (Secondary.zeroPages_tagsAre _ _)

theorem releaseEntry_agreeOff {e : Secondary.CachedBlock} (h : e.Ok tagging m) :
    m.AgreeOff (Secondary.Cache.releaseEntry m e) e.memMap.range.lo e.memMap.range.hi :=
  (Mem.zeroPages_agreeOff m e.commitBase e.commitSize).mono h.committed.base_le h.committed.end_le

end ScudoMte
