import ScudoMte.Combined.InitChunk

namespace ScudoMte.Combined

open Chunk

/-- What a tagged primary allocation owes its caller: a nonzero pointer tag, that tag on every
granule of the user bytes, tag 0 on the granule after them and on the header granule, and no
other block touched. -/
structure SpatiallyTagged (m m' : Mem) (ptr size block blockEnd : Nat) : Prop where
  tag_ne : extractTag ptr ≠ 0
  user : ∀ g, untagPointer ptr < 16*g+16 → 16*g < untagPointer ptr + size →
    m'.tag g = extractTag ptr
  end_marker : roundUp (untagPointer ptr + size) 16 < blockEnd →
    m'.tag (roundUp (untagPointer ptr + size) 16 / 16) = 0
  header : m'.tag (untagPointer ptr / 16 - 1) = 0
  outside : ∀ g, 16*g+16 ≤ block ∨ blockEnd ≤ 16*g → m'.tag g = m.tag g

section Tagged

variable (cfg : Config) (opts : Options) (env : CallEnv) (m : Mem) (origin : Origin)
  (block size sizeOrUnused : Nat) (fill : FillContentsMode) {classId user : Nat}

/-- The pointer that a tagged primary allocation returns carries the drawn tag. -/
theorem initChunkWithMemoryTagging_ptr (hc : classId ≠ 0) (hu : user < 2^56) :
    (initChunkWithMemoryTagging cfg opts env m classId origin block user size sizeOrUnused fill).1 =
      taggedPtr user (env.draw%16) := by
  simp only [initChunkWithMemoryTagging, if_pos hc, initTaggedPrimary_eq, prepareTaggedChunk_ptr hu]

/-- The memory tags after a tagged primary allocation, granule by granule: twice the pointer
tag on the user bytes. -/
theorem initChunkWithMemoryTagging_tag (g : Nat) (hc : classId ≠ 0) (h16 : 16 ≤ user)
    (hal : user % 16 = 0) (hfit : user + size ≤ block + cfg.sizeClassMap.getSizeByClassId classId)
    (hb : block + cfg.sizeClassMap.getSizeByClassId classId < 2^56) :
    (initChunkWithMemoryTagging cfg opts env m classId origin block user size
        sizeOrUnused fill).2.tag g =
      if user + size ≠ block + cfg.sizeClassMap.getSizeByClassId classId ∧ g = (user+size)/16 then 0
      else if user/16 ≤ g ∧ g < (user+size+15)/16 then 2*(env.draw%16)%16
      else if g = user/16-1 then 0 else m.tag g := by
  simp only [initChunkWithMemoryTagging, if_pos hc, initTaggedPrimary_eq, storeChunkHeader_tag,
    storeAllocationStackMaybe_tag]
  exact prepareTaggedChunk_tag g h16 hal hfit hb

end Tagged

/-- A tagged primary allocation keeps the spatial tag contract exactly when it has no user
bytes and the drawn tag is nonzero: the loop of `storeTags` doubles the tag of every granule
it stores. -/
theorem initChunkWithMemoryTagging_spatiallyTagged_iff (cfg : Config) (opts : Options)
    (env : CallEnv) (m : Mem) (classId : Nat) (origin : Origin) (block k size sizeOrUnused : Nat)
    (fill : FillContentsMode) (hc : 1 ≤ classId) (hl : classId ≤ cfg.sizeClassMap.largestClassId)
    (hblock : block % 16 = 0) (hk : 4 ≤ k) (hk24 : k ≤ 24)
    (hend : block + cfg.sizeClassMap.getSizeByClassId classId < 2^56)
    (hfit : roundUp (block + getHeaderSize) (2^k) + size ≤
      block + cfg.sizeClassMap.getSizeByClassId classId) :
    let r := initChunkWithMemoryTagging cfg opts env m classId origin block
      (roundUp (block + getHeaderSize) (2^k)) size sizeOrUnused fill
    SpatiallyTagged m r.2 r.1 size block (block + cfg.sizeClassMap.getSizeByClassId classId) ↔
      size = 0 ∧ env.draw % 16 ≠ 0 := by
  obtain ⟨hlo, -, -, hal⟩ := userPtr_spec hk hk24 (show block < 2^56 by omega)
  have hsz := cfg.sizeClassMap.size_aligned classId hc hl
  generalize roundUp (block + getHeaderSize) (2^k) = user at hlo hal hfit ⊢
  generalize hcls : cfg.sizeClassMap.getSizeByClassId classId = classSize at hend hfit hsz ⊢
  have hu : user < 2^56 := by omega
  have hdraw : env.draw % 16 < 16 := Nat.mod_lt _ (by decide)
  have hc0 : classId ≠ 0 := by omega
  have htag (g : Nat) := initChunkWithMemoryTagging_tag cfg opts env m origin block size
    sizeOrUnused fill g hc0 (show 16 ≤ user by omega) hal (by rw [hcls]; exact hfit)
    (by rw [hcls]; exact hend)
  simp only [hcls] at htag
  simp only [initChunkWithMemoryTagging_ptr cfg opts env m origin block size sizeOrUnused fill hc0 hu]
  constructor
  · intro h
    have hne := h.tag_ne
    have huser := h.user
    rw [extractTag_taggedPtr hu hdraw] at hne huser
    rw [untagPointer_taggedPtr _ hu] at huser
    refine ⟨?_, hne⟩
    by_contra hsize
    -- the first user granule holds 0 or twice the pointer tag, never the pointer tag
    have hfirst := huser (user/16) (by omega) (by omega)
    rw [htag] at hfirst
    split at hfirst
    · omega
    · rw [if_pos (by omega)] at hfirst
      omega
  · rintro ⟨rfl, hne⟩
    rw [Nat.add_zero] at hfit
    refine ⟨?_, ?_, ?_, ?_, ?_⟩
    · rwa [extractTag_taggedPtr hu hdraw]
    · intro g h1 h2
      rw [untagPointer_taggedPtr _ hu] at h1 h2
      omega
    · intro hlt
      rw [untagPointer_taggedPtr _ hu, Nat.add_zero, roundUp_16 _ (by omega)] at hlt ⊢
      rw [htag, Nat.add_zero, if_pos (by omega)]
    · rw [untagPointer_taggedPtr _ hu, htag, Nat.add_zero, if_neg (by omega), if_neg (by omega),
        if_pos rfl]
    · intro g hg
      rw [htag, Nat.add_zero, if_neg (by omega), if_neg (by omega), if_neg (by omega)]

/-- The contract is kept for an allocation of size 0 under a nonzero tag. -/
theorem initChunkWithMemoryTagging_spatiallyTagged_zero :
    let r := initChunkWithMemoryTagging defaultConfig defaultOptions ⟨1, false, false, 0, 0⟩
      Mem.fresh 1 .malloc 0x10000 (roundUp (0x10000 + getHeaderSize) (2^4)) 0 0 .noFill
    SpatiallyTagged Mem.fresh r.2 r.1 0 0x10000
      (0x10000 + defaultConfig.sizeClassMap.getSizeByClassId 1) :=
  (initChunkWithMemoryTagging_spatiallyTagged_iff defaultConfig defaultOptions
    ⟨1, false, false, 0, 0⟩ Mem.fresh 1 .malloc 0x10000 4 0 0 .noFill (by decide) (by decide)
    (by decide) (by decide) (by decide) (by decide) (by decide)).mpr ⟨rfl, by decide⟩

/-- A chunk of 16 bytes in a fresh block of 32, under tag 1: its granule has tag 2. -/
theorem initChunkWithMemoryTagging_not_spatiallyTagged :
    let r := initChunkWithMemoryTagging defaultConfig defaultOptions ⟨1, false, false, 0, 0⟩
      Mem.fresh 1 .malloc 0x10000 0x10010 16 16 .noFill
    r.1 = taggedPtr 0x10010 1 ∧ r.2.tag 0x1001 = 2 ∧
      ¬ SpatiallyTagged Mem.fresh r.2 r.1 16 0x10000 0x10020 := by
  refine ⟨by decide, by decide, ?_⟩
  intro h
  exact absurd (h.user 0x1001 (by decide) (by decide)) (by decide)

end ScudoMte.Combined
