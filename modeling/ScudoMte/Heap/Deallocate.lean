import ScudoMte.Combined.DeallocateFrame
import ScudoMte.Heap.Invariant

namespace ScudoMte

open ByteMemory Ownership Chunk Combined

variable {cfg : Config} {R : Regions cfg} {h : Heap}

/-- The pointer that later calls recompute for a chunk is the one that keys its header. -/
def Holding.Agrees (r : Holding) : Prop := getHeaderTaggedPointer r.ptr = r.key

section Holding

variable {tagging : Bool} {m : Mem} {r : Holding}

theorem Holding.Ok.headerTag_cases (hr : r.Ok cfg tagging m) : r.headerTag = 0 ∨ r.headerTag = 2 := by
  rcases hr.place with hp | hs
  · rcases hp.key with h0 | ⟨h2, -⟩
    · exact .inl h0
    · exact .inr h2
  · exact .inr hs.headerTag

/-- A header that is keyed with the header tag belongs to an untagged pointer. -/
theorem Holding.Ok.ptr_of_headerTag (hr : r.Ok cfg tagging m) (hl : r.status = .live)
    (h2 : r.headerTag = 2) : r.ptr = r.user := by
  rcases hr.place with hp | hs
  · rcases hp.key with h0 | ⟨-, hptr⟩
    · rw [h0] at h2
      exact absurd h2 (by decide)
    · exact hptr hl
  · exact hs.ptr

/-- The pointers disagree for a chunk that was tagged with tag 0 only. -/
theorem Holding.Ok.agrees_iff (hr : r.Ok cfg tagging m) (hl : r.status = .live) :
    r.Agrees ↔ (r.headerTag = 0 → r.ptr ≠ r.user) := by
  obtain ⟨t, ht, hptr⟩ := hr.ptr
  have hu := hr.user_lt
  rw [Holding.Agrees, Holding.key]
  rcases hr.headerTag_cases with h0 | h2
  · simp only [h0, true_imp_iff]
    rw [hptr, getHeaderTaggedPointer_taggedPtr hu]
    by_cases ht0 : t = 0
    · simp [ht0, taggedPtr]
    · simp [ht0, taggedPtr]
  · rw [hr.ptr_of_headerTag hl h2]
    have h0 := getHeaderTaggedPointer_taggedPtr (t := 0) hu
    rw [taggedPtr_zero, if_pos rfl] at h0
    rw [h0, h2]
    simp

theorem Holding.Ok.loadAllocated (hr : r.Ok cfg tagging m) (hl : r.status = .live) (hag : r.Agrees)
    (action : AllocatorAction) : ∃ hd, HeaderOf r hd ∧
      Combined.loadAllocated cfg m action (getHeaderTaggedPointer r.ptr) = .ok hd := by
  obtain ⟨hd, hst, hof⟩ := hr.header
  have hin := hr.header_in
  have hstate := hof.state
  rw [hl] at hstate
  refine ⟨hd.seal cfg.cookie r.key, ⟨hof.classId, hof.state, hof.offset, hof.size⟩, ?_⟩
  rw [hag]
  exact loadAllocated_sealed action hst.sealed hr.user_lt (by omega) hstate

theorem Holding.Ok.loadAllocated_disagree (hr : r.Ok cfg tagging m) (hl : r.status = .live)
    (hag : ¬ r.Agrees) (action : AllocatorAction) :
    Combined.loadAllocated cfg m action (getHeaderTaggedPointer r.ptr) =
      .error (.headerCorruption (getHeaderTaggedPointer r.ptr)) := by
  obtain ⟨hd, hst, hof⟩ := hr.header
  have hin := hr.header_in
  have hu := hr.user_lt
  rw [hr.agrees_iff hl] at hag
  simp only [not_forall, not_not, exists_prop] at hag
  obtain ⟨h0, hptr⟩ := hag
  have hsealed := hst.sealed
  have hh := getHeaderTaggedPointer_taggedPtr (t := 0) hu
  rw [taggedPtr_zero, if_pos rfl] at hh
  rw [Holding.key, h0] at hsealed
  rw [hptr, hh]
  exact loadAllocated_other action hsealed hu (by omega) (by decide) (by decide) (by decide)

theorem HeaderOf.getBlockBegin {hd : UnpackedHeader} (hof : HeaderOf r hd) :
    getBlockBegin r.user hd = r.block :=
  getBlockBegin_eq hof.offset

theorem HeaderOf.classId_ne {hd : UnpackedHeader} (hof : HeaderOf r hd) :
    hd.classId ≠ 0 ↔ r.classId ≠ 0 := by
  rw [← hof.classId, Fin.val_ne_zero_iff]

theorem HeaderOf.classId_zero {hd : UnpackedHeader} (hof : HeaderOf r hd) :
    hd.classId = 0 ↔ r.classId = 0 := by
  rw [← hof.classId, Fin.val_eq_zero_iff]

/-- The header granule is that of the block begin, or a later one. -/
theorem Holding.Ok.header_at (hr : r.Ok cfg tagging m) :
    r.block + 16 = r.user ∨ r.block + 32 ≤ r.user := by
  have := hr.header_in
  have := hr.block_aligned
  have := hr.user_aligned
  omega

theorem PrimaryChunk.size_lt (hp : PrimaryChunk cfg r) (hr : r.Ok cfg tagging m) :
    r.size < 2^20 := by
  have hmax := cfg.sizeClassMap.size_le_max hp.classId_pos hp.classId_le
  have hin := hr.header_in
  have hfit := hr.user_in
  have hend := hp.blockEnd
  omega

theorem Holding.Ok.primary (hr : r.Ok cfg tagging m) (hc : r.classId ≠ 0) : PrimaryChunk cfg r := by
  rcases hr.place with hp | hs
  · exact hp
  · exact absurd hs.classId hc

theorem Holding.Ok.secondary (hr : r.Ok cfg tagging m) (hc : r.classId = 0) :
    SecondaryChunk tagging m r := by
  rcases hr.place with hp | hs
  · have := hp.classId_pos
    omega
  · exact hs

/-- The size that the header of a chunk gives back: of the unused bytes behind a secondary chunk
it holds the low 20 bits. -/
def Holding.storedSize (r : Holding) : Nat :=
  if r.classId ≠ 0 then r.size else r.blockEnd - r.user - (r.blockEnd - (r.user + r.size)) % 2^20

theorem Holding.storedSize_primary (hc : r.classId ≠ 0) : r.storedSize = r.size := if_pos hc

theorem Holding.Ok.storedSize_eq_iff (hr : r.Ok cfg tagging m) : r.storedSize = r.size ↔
    (r.classId = 0 → r.blockEnd - (r.user + r.size) < 2^20) := by
  have hfit := hr.user_in
  unfold Holding.storedSize
  split
  · next hc => exact ⟨fun _ h0 => absurd h0 hc, fun _ => rfl⟩
  · next hc =>
    have hc0 : r.classId = 0 := by omega
    refine ⟨fun h _ => by omega, fun h => ?_⟩
    have := h hc0
    omega

theorem Holding.Ok.storedSize_le (hr : r.Ok cfg tagging m) : r.user + r.storedSize ≤ r.blockEnd := by
  have hfit := hr.user_in
  unfold Holding.storedSize
  split <;> omega

theorem HeaderOf.size_val {hd : UnpackedHeader} (hof : HeaderOf r hd) :
    (hd.sizeOrUnusedBytes : Nat) = r.sizeOrUnused % 2^20 := by
  rw [hof.size, bitField_val]

/-- `getSize`, whatever the tag of the pointer. -/
theorem Holding.Ok.getSize (hr : r.Ok cfg tagging m) {hd : UnpackedHeader} (hof : HeaderOf r hd)
    (t : Nat) : Combined.getSize m (taggedPtr r.user t) hd = r.storedSize := by
  have hu := hr.user_lt
  have hfit := hr.user_in
  have hlt := hr.blockEnd_lt
  have hz := hof.size_val
  unfold Combined.getSize Holding.storedSize
  by_cases hc : r.classId ≠ 0
  · rw [if_pos (hof.classId_ne.mpr hc), if_pos hc, hz, Holding.sizeOrUnused, if_pos hc]
    exact Nat.mod_eq_of_lt ((hr.primary hc).size_lt hr)
  · rw [if_neg (fun h => hc (hof.classId_ne.mp h)), if_neg hc]
    obtain ⟨cb, hl, -⟩ := (hr.secondary (by omega)).large
    simp only [untagPointer_taggedPtr t hu, hof.getBlockBegin, hl.getBlockEnd]
    have hin : wrapSub r.blockEnd r.user = r.blockEnd - r.user :=
      wrapSub_of_le (by omega) (by omega)
    rw [hin, hz, Holding.sizeOrUnused, if_neg hc, wrapSub_of_le (by omega) (by omega)]

/-- The old size that `reallocate` computes, and the end of the block under the pointer's tag. -/
theorem Holding.Ok.reallocSizes (hr : r.Ok cfg tagging m) {hd : UnpackedHeader}
    (hof : HeaderOf r hd) :
    Combined.reallocSizes cfg m r.ptr hd =
      (r.ptr - r.user + r.blockEnd, r.storedSize) := by
  obtain ⟨t, ht, hptr⟩ := hr.ptr
  have hin := hr.header_in
  have hu := hr.user_lt
  have hfit := hr.user_in
  have hlt := hr.blockEnd_lt
  have hz := hof.size_val
  have hoff := hof.offset
  unfold Combined.reallocSizes Holding.storedSize
  by_cases hc : r.classId ≠ 0
  · have hp := hr.primary hc
    have hbegin : getBlockBegin r.ptr hd = r.ptr - r.user + r.block := by
      have hshift : hd.offset.val <<< minAlignmentLog = hd.offset.val * 16 := Nat.shiftLeft_eq _ 4
      rw [getBlockBegin, hshift, getHeaderSize_eq, hptr, taggedPtr]
      omega
    rw [if_pos (hof.classId_ne.mpr hc), if_pos hc, hbegin, hof.classId, hp.blockEnd, hz,
      Holding.sizeOrUnused, if_pos hc, Nat.mod_eq_of_lt (hp.size_lt hr), Nat.add_assoc]
  · have hs := hr.secondary (by omega)
    obtain ⟨cb, hlb, -⟩ := hs.large
    rw [if_neg (fun h => hc (hof.classId_ne.mp h)), if_neg hc, hs.ptr, hof.getBlockBegin,
      hlb.getBlockEnd, hz, Holding.sizeOrUnused, if_neg hc, Nat.sub_self, Nat.zero_add]
    dsimp only
    rw [wrapSub_of_le (by omega) (by omega)]
    congr 1
    omega

end Holding

/-- The memory after the stores of `quarantineOrDeallocateChunk`, before the block moves on. -/
def freedMem (cfg : Config) (opts : Options) (env : CallEnv) (m : Mem) (r : Holding)
    (hd : UnpackedHeader) (size : Nat) : Mem :=
  let h1 := freedHeader cfg opts env hd size
  let m1 := storeHeader cfg.cookie r.key h1 m
  if opts.useMemoryTagging then
    (retagBlock cfg opts env m1 r.ptr r.key h1 size (bypassQuarantine cfg hd size)).2
  else m1

section Freed

variable {opts : Options} {env : FreeEnv} {m : Mem} {r : Holding} {hd : UnpackedHeader}
  {size : Nat} {s : Secondary}

/-- The three ways that a freed chunk can go. -/
theorem quarantineOrDeallocateChunk_cases (hr : r.Ok cfg opts.useMemoryTagging m)
    (hag : r.Agrees) (hof : HeaderOf r hd)
    (htagged : opts.useMemoryTagging → r.classId ≠ 0 → r.headerTag = 0) {d : Disposal} {m' : Mem}
    (hq : quarantineOrDeallocateChunk cfg opts env s m r.ptr hd size = (d, m')) :
    (bypassQuarantine cfg hd size = true ∧ r.classId ≠ 0 ∧ d = .toPrimary r.classId r.block ∧
      m' = freedMem cfg opts env.call m r hd size) ∨
    (r.classId = 0 ∧
      d = .toSecondary
        (s.deallocate cfg opts env.secondary (freedMem cfg opts env.call m r hd size) r.block).1 ∧
      m' = (s.deallocate cfg opts env.secondary (freedMem cfg opts env.call m r hd size)
        r.block).2.1) ∨
    (bypassQuarantine cfg hd size = false ∧ r.classId ≠ 0 ∧ d = .toQuarantine r.key size ∧
      m' = freedMem cfg opts env.call m r hd size) := by
  obtain ⟨t, ht, hptr⟩ := hr.ptr
  have hu := hr.user_lt
  have hkey : untagPointer r.key = r.user := untagPointer_taggedPtr _ hu
  have hbegin : getBlockBegin r.user (freedHeader cfg opts env.call hd size) = r.block :=
    hof.getBlockBegin
  have hbegin' (m : Mem) (size : Nat) (b : Bool) : (retagBlock cfg opts env.call m r.ptr r.key
      (freedHeader cfg opts env.call hd size) size b).1 = r.block := by
    rw [Holding.key, retagBlock_block, ← Holding.key, hkey]
    exact hof.getBlockBegin
  have hclass : (freedHeader cfg opts env.call hd size).classId = hd.classId := rfl
  simp only [quarantineOrDeallocateChunk] at hq
  rw [hag] at hq
  cases hb : bypassQuarantine cfg hd size with
  | true =>
    rw [if_pos hb] at hq
    have hfreed : (if (!opts.useMemoryTagging) = true then
          (getBlockBegin (untagPointer r.key) (freedHeader cfg opts env.call hd size),
            storeHeader cfg.cookie r.key (freedHeader cfg opts env.call hd size) m)
        else retagBlock cfg opts env.call
          (storeHeader cfg.cookie r.key (freedHeader cfg opts env.call hd size) m) r.ptr r.key
          (freedHeader cfg opts env.call hd size) size true) =
        (r.block, freedMem cfg opts env.call m r hd size) := by
      cases htg : opts.useMemoryTagging with
      | false =>
        simp only [freedMem, htg, Bool.not_false, if_true, Bool.false_eq_true, if_false, hkey]
        rw [hbegin]
      | true =>
        simp only [freedMem, htg, Bool.not_true, if_true, Bool.false_eq_true, if_false, hb]
        exact Prod.ext (hbegin' _ _ _) rfl
    rw [hfreed] at hq
    simp only [hclass] at hq
    split at hq
    · next hc =>
      simp only [Prod.mk.injEq, hof.classId] at hq
      obtain ⟨rfl, rfl⟩ := hq
      exact .inl ⟨rfl, hof.classId_ne.mp hc, rfl, rfl⟩
    · next hc =>
      simp only [Prod.mk.injEq] at hq
      obtain ⟨rfl, rfl⟩ := hq
      refine .inr (.inl ⟨?_, rfl, rfl⟩)
      by_contra hne
      exact hc (hof.classId_ne.mpr hne)
  | false =>
    have hne : r.classId ≠ 0 := by
      intro hc
      have h0 : (hd.classId == 0) = true := by
        rw [beq_iff_eq]
        exact hof.classId_zero.mpr hc
      simp [bypassQuarantine, h0] at hb
    rw [if_neg (by rw [hb]; decide)] at hq
    refine .inr (.inr ⟨rfl, hne, ?_⟩)
    cases htg : opts.useMemoryTagging with
    | false =>
      rw [htg] at hq
      simp only [Bool.false_eq_true, if_false, Prod.mk.injEq] at hq
      obtain ⟨rfl, rfl⟩ := hq
      simp only [freedMem, htg, Bool.false_eq_true, if_false, and_self]
    | true =>
      rw [htg] at hq
      simp only [if_true, Prod.mk.injEq] at hq
      obtain ⟨rfl, rfl⟩ := hq
      -- the pointer loses its tag, but a tagged chunk's key has none
      have hk : untagPointer r.key = r.key := by
        rw [hkey, Holding.key, htagged htg hne, taggedPtr_zero]
      simp only [freedMem, htg, if_true, hb, hk, and_self]

theorem freedMem_data : (freedMem cfg opts env.call m r hd size).data =
    (storeHeader cfg.cookie r.key (freedHeader cfg opts env.call hd size) m).data := by
  simp only [freedMem]
  split
  · exact retagBlock_data _
  · rfl

theorem freedMem_headerKey : (freedMem cfg opts env.call m r hd size).headerKey =
    (storeHeader cfg.cookie r.key (freedHeader cfg opts env.call hd size) m).headerKey := by
  simp only [freedMem]
  split
  · exact retagBlock_headerKey _
  · rfl

theorem freedHeader_state (env : CallEnv) :
    (freedHeader cfg opts env hd size).state ≠ State.allocated.field ∧
      ((freedHeader cfg opts env hd size).state : Nat) ≠ 3 := by
  simp only [freedHeader]
  split <;> decide

/-- Freeing a chunk writes inside its block, and its header stays in place under its key. -/
theorem freedMem_spec (env : FreeEnv) (size : Nat) (hr : r.Ok cfg opts.useMemoryTagging m) (hof : HeaderOf r hd)
    (hsize : r.classId ≠ 0 → size = r.size) :
    m.AgreeOff (freedMem cfg opts env.call m r hd size) r.block r.blockEnd ∧
      ChunkStored cfg (freedMem cfg opts env.call m r hd size) r.block r.user r.key
        (freedHeader cfg opts env.call hd size) ∧
      (freedMem cfg opts env.call m r hd size).headerKey (r.user - 16) = r.key := by
  have hu := hr.user_lt
  have hin := hr.header_in
  have hfit := hr.user_in
  have ht16 : r.headerTag < 16 := by
    rcases hr.headerTag_cases with h | h <;> omega
  obtain ⟨h0, hst, -⟩ := hr.header
  have hstored := hst.restore (freedHeader cfg opts env.call hd size)
    (freedHeader_state env.call).2 hr.header_at hu
  refine ⟨?_, ?_, ?_⟩
  · have hag := (storeHeader_agreeOff cfg.cookie (freedHeader cfg opts env.call hd size) m
      (t := r.headerTag) hu (by omega)).mono (show r.block ≤ _ by omega) (show _ ≤ r.blockEnd by omega)
    simp only [freedMem]
    split
    · refine hag.trans ?_
      refine retagBlock_agreeOff ht16 hr.user_aligned hof.offset hr.block_aligned ?_ (by omega)
        hr.blockEnd_lt hr.blockEnd_aligned
      intro hc
      rw [hsize (hof.classId_ne.mp hc)]
      exact hfit
    · exact hag
  · refine hstored.frame hin hu ?_
    rw [freedMem_data]
    exact fun _ _ _ => rfl
  · rw [freedMem_headerKey]
    exact storeHeader_headerKey _ _ _ hu (by omega)

theorem ChunkStored.quiet {block user t size : Nat} {h : UnpackedHeader}
    (hs : ChunkStored cfg m block user (taggedPtr user t) h) (hst : h.state ≠ State.allocated.field)
    (hin : block + 16 ≤ user) (hu : user < 2^56) (hb16 : block % 16 = 0) (hu16 : user % 16 = 0)
    (hsize : user ≤ block + size) : Quiet m block size := by
  have hword := hs.sealed
  rw [Sealed, headerWord_of_lt _ hu (by omega)] at hword
  refine ⟨?_, ?_, ?_⟩ <;> rw [hs.offset]
  · omega
  · omega
  · rw [show block + (user - block) - 16 = user - 16 by omega, hword, unpack_pack]
    exact hst

/-- A primary block that its chunk has left. -/
theorem freedMem_free (hr : r.Ok cfg opts.useMemoryTagging m) (hof : HeaderOf r hd)
    (hc : r.classId ≠ 0) (hsize : size = r.size) :
    FreeBlock cfg (freedMem cfg opts env.call m r hd size) r.classId r.block := by
  have hp := hr.primary hc
  obtain ⟨-, hst, -⟩ := freedMem_spec env size hr hof fun _ => hsize
  have hend := hp.blockEnd
  have hlt := hr.blockEnd_lt
  have hfit := hr.user_in
  refine ⟨hp.classId_pos, hp.classId_le, hr.block_aligned, by omega, ?_⟩
  exact ChunkStored.quiet hst (freedHeader_state env.call).1 hr.header_in hr.user_lt
    hr.block_aligned hr.user_aligned (by omega)

/-- A chunk that went to the quarantine. -/
theorem freedMem_quarantined (env : FreeEnv) (hr : r.Ok cfg opts.useMemoryTagging m) (hof : HeaderOf r hd)
    (hc : r.classId ≠ 0) (hsize : size = r.size) (hb : bypassQuarantine cfg hd size = false) :
    ({ r with ptr := r.key, status := .quarantined } : Holding).Ok cfg opts.useMemoryTagging
      (freedMem cfg opts env.call m r hd size) := by
  have hp := hr.primary hc
  have hu := hr.user_lt
  obtain ⟨-, hst, hkey⟩ := freedMem_spec env size hr hof fun _ => hsize
  have ht16 : r.headerTag < 16 := by
    rcases hr.headerTag_cases with h | h <;> omega
  have huser : ({ r with ptr := r.key, status := .quarantined } : Holding).user = r.user := by
    simp only [Allocation.user, Holding.key]
    exact untagPointer_taggedPtr _ hu
  have hkeq : ({ r with ptr := r.key, status := .quarantined } : Holding).key = r.key := by
    rw [Holding.key, huser]
    rfl
  refine ⟨hr.block_aligned, ?_, ?_, ?_, hr.blockEnd_aligned, hr.blockEnd_lt, ?_, ⟨_, ht16, ?_⟩, ?_,
    .inl ⟨hp.classId_pos, hp.classId_le, hp.blockEnd, hp.map, ?_, fun h => absurd h (by simp)⟩,
    ⟨freedHeader cfg opts env.call hd size, ?_, ?_⟩, ?_⟩
  · rw [huser]; exact hr.user_aligned
  · rw [huser]; exact hr.header_in
  · rw [huser]; exact hr.user_in
  · rw [huser]; exact hr.offset_lt
  · rw [huser]; rfl
  · intro _
    rw [hkeq]
  · rcases hp.key with h0 | ⟨h2, -⟩
    · exact .inl h0
    · exact .inr ⟨h2, by simp⟩
  · rw [huser, hkeq]
    exact hst
  · refine ⟨hof.classId, ?_, ?_, ?_⟩
    · simp only [freedHeader, hb]
      rfl
    · rw [huser]
      exact hof.offset
    · have hz := hof.size
      simp only [Holding.sizeOrUnused, huser] at hz ⊢
      exact hz
  · rw [huser, hkeq]
    exact hkey

/-- The mapping of a secondary chunk, as `deallocate` hands it to the cache. -/
theorem freedMem_cached (size : Nat) (hr : r.Ok cfg opts.useMemoryTagging m) (hof : HeaderOf r hd)
    (hc : r.classId = 0) (hclock : env.secondary.clock ≠ 0) :
    ∃ cb, Secondary.LargeBlock (freedMem cfg opts env.call m r hd size) r.map cb r.block r.blockEnd ∧
      (⟨cb, r.blockEnd - cb, taggedPtr r.block 1, r.map, env.secondary.clock⟩ :
        Secondary.CachedBlock).Ok opts.useMemoryTagging (freedMem cfg opts env.call m r hd size) := by
  have hs := hr.secondary hc
  have hu := hr.user_lt
  obtain ⟨cb, hl, htags⟩ := hs.large
  obtain ⟨hag, -, -⟩ := freedMem_spec env size hr hof fun h => absurd hc h
  have hin := hl.header_in
  have hblock := hl.block_in
  rw [Secondary.largeHeaderSize] at hin
  refine ⟨cb, hl.frame (hag.data.on (.inl (le_refl _))), hl.committed, fun h => absurd h hclock,
    r.block, rfl, hr.block_aligned, by simp only; omega, by simp only; omega, ?_⟩
  intro ht
  obtain ⟨h2, h4, h0⟩ := htags ht
  rw [if_neg hclock]
  have hbyp : bypassQuarantine cfg hd size = true := by
    simp [bypassQuarantine, hof.classId_zero.mpr hc]
  have htag (g : Nat) : (freedMem cfg opts env.call m r hd size).tag g =
      if r.block/16 ≤ g ∧ g < r.user/16 then 0 else m.tag g := by
    have hfo : r.block + 16 + 16 * (freedHeader cfg opts env.call hd size).offset.val = r.user :=
      hof.offset
    have hfc : (freedHeader cfg opts env.call hd size).classId = 0 := hof.classId_zero.mpr hc
    simp only [freedMem, ht, if_true, hbyp]
    rw [Holding.key, retagBlock_secondary_tag g hr.user_aligned hu hfo hfc, storeHeader_tag]
  have hb16 := hr.block_aligned
  have hu16 := hr.user_aligned
  have hcb16 := hl.committed.base_aligned
  refine ⟨?_, ?_⟩
  · intro g h1 h2'
    simp only at h1 h2'
    rw [htag, if_neg (by omega)]
    exact h2 g h1 h2'
  · intro g h1 h2'
    simp only at h1 h2'
    rw [htag]
    split
    · rfl
    · exact h0 g (by omega) (by omega)

end Freed

/-- The mapping of a freed secondary chunk goes to the cache, or is unmapped. -/
theorem secondary_deallocate_owns (hi : h.Inv R) {r : Holding} (hm : r ∈ h.chunks) {env : FreeEnv}
    {hd : UnpackedHeader} {size : Nat} (hof : HeaderOf r hd) (hc : r.classId = 0)
    (hclock : env.secondary.clock ≠ 0) :
    let res := h.secondary.deallocate cfg h.opts env.secondary
      (freedMem cfg h.opts env.call h.mem r hd size) r.block
    Owns cfg h.opts.useMemoryTagging res.2.1
      (ownersOf R (h.chunks.erase r) res.1.cache h.free h.carved) ∧ Linked res.1.cache ∧
    res.1.inUseBlocks = h.secondary.inUseBlocks.erase (Secondary.getHeader r.block) := by
  have hr := hi.chunk_ok hm
  obtain ⟨hagm, -, -⟩ := freedMem_spec env size hr hof fun h => absurd hc h
  obtain ⟨hzlo, hzhi⟩ := hr.zone
  obtain ⟨cb, hl, hok⟩ := freedMem_cached size hr hof hc hclock
  generalize freedMem cfg h.opts env.call h.mem r hd size = m at hagm hl hok ⊢
  obtain ⟨h48, hlt⟩ := hl.block_bounds
  have hbegin : Secondary.getHeader r.block + Secondary.largeHeaderSize = taggedPtr r.block 1 := by
    rw [Secondary.getHeader_of_lt hlt h48, Secondary.largeHeaderSize, taggedPtr_add]
    congr 1
    omega
  have hown := Owned.perm hi.owned (ownersOf_chunk hm)
  have hcached : Owns cfg h.opts.useMemoryTagging m
      (.cached ⟨cb, r.blockEnd - cb, taggedPtr r.block 1, r.map, env.secondary.clock⟩ ::
        ownersOf R (h.chunks.erase r) h.secondary.cache h.free h.carved) :=
    Owns.update hown (hagm.mono hzlo hzhi) hok (.refl _)
  simp only [Secondary.deallocate, hl.commitBase_eq, hl.commitSize_eq, hl.memMap_eq, hbegin]
  split
  · obtain ⟨hst, hlinked⟩ := store_owns env.secondary hi.linked rfl
      (Owned.perm hcached (ownersOf_cache.cons _))
    exact ⟨Owned.perm hst ownersOf_cache.symm, hlinked, rfl⟩
  · exact ⟨hcached.tail, hi.linked, rfl⟩

/-- A chunk that is freed keeps the invariant, wherever it goes. -/
theorem Heap.Inv.dispose (hi : h.Inv R) {r : Holding} (hm : r ∈ h.chunks) (hag : r.Agrees)
    {env : FreeEnv} {hd : UnpackedHeader} {size : Nat} (hof : HeaderOf r hd)
    (hsize : r.classId ≠ 0 → size = r.size) (hclock : env.secondary.clock ≠ 0) {d : Disposal}
    {m' : Mem} (hq : quarantineOrDeallocateChunk cfg h.opts env h.secondary h.mem r.ptr hd size =
      (d, m')) : (h.dispose r m' d).Inv R := by
  have hr := hi.chunk_ok hm
  obtain ⟨hagm, -, -⟩ := freedMem_spec env size hr hof hsize
  have htagged : h.opts.useMemoryTagging → ∀ x ∈ h.chunks.erase r, x.classId ≠ 0 →
      x.headerTag = 0 := fun ht x hx => hi.tagged ht x (List.mem_of_mem_erase hx)
  have huntagged : cfg.systemSupportsMemoryTagging = false → h.opts.useMemoryTagging = false ∧
      ∀ x ∈ h.chunks.erase r, x.status = .live → x.headerTag = 2 := fun hs =>
    ⟨(hi.untagged hs).1, fun x hx => (hi.untagged hs).2 x (List.mem_of_mem_erase hx)⟩
  rcases quarantineOrDeallocateChunk_cases hr hag hof (fun ht hc => hi.tagged ht r hm hc) hq with
    ⟨-, hc, rfl, rfl⟩ | ⟨hc, rfl, rfl⟩ | ⟨hb, hc, rfl, rfl⟩
  · exact hi.freeChunk hm (hr.primary hc) hagm (freedMem_free hr hof hc (hsize hc))
  · obtain ⟨hown', hlinked, hin⟩ := secondary_deallocate_owns hi hm hof hc hclock
    refine ⟨hown', ?_, hi.fits, ?_, hlinked, htagged, huntagged⟩
    · have hb := primaryBlocks_perm hm
      rw [primaryBlocks_cons_of_zero hc] at hb
      exact (hb.symm.append_right _).trans hi.blocks
    · have hl := hi.inUse.trans (largeHeaders_perm hm)
      rw [largeHeaders_cons_of_zero hc] at hl
      have he := hl.erase (Secondary.getHeader r.block)
      rw [List.erase_cons_head] at he
      simp only [Heap.dispose, hin]
      exact he
  · exact hi.updateChunk hm { r with ptr := r.key, status := .quarantined } hagm
      (freedMem_quarantined env hr hof hc (hsize hc) hb) rfl rfl rfl rfl nofun

/-- A deallocation that reports nothing saw the header of the chunk and sent the chunk on. -/
theorem deallocate_ok {tagging : Bool} {m m' : Mem} {r : Holding} {opts : Options} {env : FreeEnv}
    {s : Secondary} {origin : Origin} {deleteSize : Nat} {o : Option Disposal}
    (hr : r.Ok cfg tagging m) (hl : r.status = .live)
    (hd : Combined.deallocate cfg opts env s m r.ptr origin deleteSize = .ok (o, m')) :
    r.Agrees ∧ ∃ hdr d, HeaderOf r hdr ∧ o = some d ∧
      quarantineOrDeallocateChunk cfg opts env s m r.ptr hdr r.storedSize = (d, m') := by
  obtain ⟨t, ht, hptr⟩ := hr.ptr
  have hin := hr.header_in
  have hne : r.ptr ≠ 0 := by
    rw [hptr, taggedPtr]
    omega
  simp only [Combined.deallocate, if_neg hne] at hd
  split at hd
  · simp at hd
  · by_cases hag : r.Agrees
    · obtain ⟨hdr, hof, hload⟩ := hr.loadAllocated hl hag .deallocating
      have hsize : Combined.getSize m (getHeaderTaggedPointer r.ptr) hdr = r.storedSize := by
        rw [hag]
        exact hr.getSize hof r.headerTag
      rw [hload] at hd
      simp only [bind, Except.bind, hsize] at hd
      split at hd
      · simp at hd
      · split at hd
        · simp at hd
        · simp only [Except.ok.injEq, Prod.mk.injEq] at hd
          obtain ⟨rfl, rfl⟩ := hd
          exact ⟨hag, hdr, _, hof, rfl, rfl⟩
    · rw [hr.loadAllocated_disagree hl hag .deallocating] at hd
      simp [bind, Except.bind] at hd

end ScudoMte
