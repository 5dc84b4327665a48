import ScudoMte.Heap.Reachable

namespace ScudoMte

open ByteMemory Ownership Chunk Combined

variable {cfg : Config} {R : Regions cfg} {h : Heap}

/-- The tags that a block of the secondary should have: that of the pointer to the large header up
to the block and none behind when the secondary hands it out, in `m`, and that of the pointer to
the chunk header on its granule once the chunk is there, in `m'`. -/
structure SecondaryTagged (m m' : Mem) (block blockEnd : Nat) : Prop where
  header : m.TagsAre (Secondary.headerCommitBase m (Secondary.getHeader block)) block 1
  behind : m.TagsAre block blockEnd 0
  chunk : m'.TagsAre block (block+16) 2
  user : m'.TagsAre (block+16) blockEnd 0

/-- There is a granule in front of the block, and its tag is 2. -/
theorem not_secondaryTagged_of_tags {m m' : Mem} {block blockEnd : Nat}
    (hlt : Secondary.headerCommitBase m (Secondary.getHeader block) + 48 ≤ block)
    (h2 : m.TagsAre (Secondary.headerCommitBase m (Secondary.getHeader block)) block 2) :
    ¬ SecondaryTagged m m' block blockEnd := by
  intro htagged
  have h1 := htagged.header
  generalize Secondary.headerCommitBase m (Secondary.getHeader block) = cb at hlt h1 h2
  have hone := h1 (cb/16 + 1) (by omega) (by omega)
  rw [h2 (cb/16 + 1) (by omega) (by omega)] at hone
  exact absurd hone (by decide)

section Tags

variable {env : AllocEnv} {size k block blockEnd : Nat} {fill : FillContentsMode} {s' : Secondary}
  {m : Mem}

/-- The tags that it does have are twice these. -/
theorem secondary_tags (hi : h.Inv R) (ht : h.opts.useMemoryTagging = true)
    (henv : env.Ok R h size k) (hk : k ≤ 24) (hsize : size < 2^40) (origin : Origin)
    (hs : h.secondary.allocate cfg h.opts env.secondary h.mem size (2^(max k 4)) fill =
      (some (block, blockEnd), s', m)) :
    Secondary.headerCommitBase m (Secondary.getHeader block) + 48 ≤ block ∧
    m.TagsAre (Secondary.headerCommitBase m (Secondary.getHeader block)) block 2 ∧
    m.TagsAre block blockEnd 0 ∧
    (initAllocation cfg h.opts env.call m size (2^(max k 4)) origin fill 0 block blockEnd).2.TagsAre
      block (block+16) 4 ∧
    (initAllocation cfg h.opts env.call m size (2^(max k 4)) origin fill 0 block blockEnd).2.TagsAre
      (block+16) blockEnd 0 := by
  have hserves := (allocateSecondary_serves hsize (by omega) (by omega) (hi.secondaryOk henv) hs).1
  obtain ⟨map, hserved, -, -⟩ := Secondary.allocate_served (by omega) (by omega) hsize
    (fun i hm => hi.lru_ok hm)
    (fun b hb => ⟨(henv.mapBase b hb).1, (henv.mapBase b hb).2.1, (henv.mapBase b hb).2.2.1⟩) hs
  obtain ⟨cb, hl, htags⟩ := hserved.large
  obtain ⟨h2, h0⟩ := htags ht
  have hal := hl.aligned
  have htag (g : Nat) := @initAllocation_secondary_tag cfg h.opts env.call m size (2^(max k 4)) origin
    fill block blockEnd hserves ht g
  rw [hl.commitBase_eq]
  refine ⟨hl.header_in, h2, h0, ?_, ?_⟩
  · intro g h1 h2
    rw [htag, if_pos (by omega)]
  · intro g h1 h2
    rw [htag, if_neg (by omega)]
    exact h0 g (by omega) h2

/-- No block that the secondary hands out in any run with tagging on is tagged as it should be. -/
theorem not_secondaryTagged (hr : Reachable R h) (ht : h.opts.useMemoryTagging = true)
    (henv : env.Ok R h size k) (hk : k ≤ 24) (hsize : size < 2^40) (origin : Origin)
    (hs : h.secondary.allocate cfg h.opts env.secondary h.mem size (2^(max k 4)) fill =
      (some (block, blockEnd), s', m)) :
    ¬ SecondaryTagged m
      (initAllocation cfg h.opts env.call m size (2^(max k 4)) origin fill 0 block blockEnd).2
      block blockEnd := by
  obtain ⟨hlt, h2, -⟩ := secondary_tags hr.inv ht henv hk hsize origin hs
  exact not_secondaryTagged_of_tags hlt h2

end Tags

/-- 200000 bytes in a first mapping. -/
theorem not_secondaryTagged_fresh : ∃ block blockEnd s' m,
    startHeap.secondary.allocate defaultConfig startHeap.opts mappingEnv.secondary startHeap.mem
      200000 (2^4) .noFill = (some (block, blockEnd), s', m) ∧
    ¬ SecondaryTagged m (initAllocation defaultConfig startHeap.opts mappingEnv.call m 200000 (2^4)
      .malloc .noFill 0 block blockEnd).2 block blockEnd :=
  ⟨_, _, _, _, rfl, not_secondaryTagged (k := 4) (.start startHeap_init) rfl
    (mappingEnv_ok startHeap_init 200000 4) (by decide) (by decide) .malloc rfl⟩

/-- There the granules up to the block have tag 2, and that of the chunk header tag 4. -/
theorem secondaryTagged_doubled : ∃ block blockEnd s' m m',
    startHeap.secondary.allocate defaultConfig startHeap.opts mappingEnv.secondary startHeap.mem
      200000 (2^4) .noFill = (some (block, blockEnd), s', m) ∧
    m' = (initAllocation defaultConfig startHeap.opts mappingEnv.call m 200000 (2^4)
      .malloc .noFill 0 block blockEnd).2 ∧
    m.TagsAre (Secondary.headerCommitBase m (Secondary.getHeader block)) block 2 ∧
    m'.TagsAre block (block+16) 4 ∧ ¬ SecondaryTagged m m' block blockEnd := by
  have hs : ∃ res s' m, startHeap.secondary.allocate defaultConfig startHeap.opts
      mappingEnv.secondary startHeap.mem 200000 (2^4) .noFill = (some res, s', m) := ⟨_, _, _, rfl⟩
  obtain ⟨⟨block, blockEnd⟩, s', m, hs⟩ := hs
  obtain ⟨hlt, h2, -, h4, -⟩ := secondary_tags (k := 4) startHeap_init.inv rfl
    (mappingEnv_ok startHeap_init 200000 4) (by decide) (by decide) .malloc hs
  exact ⟨block, blockEnd, s', m, _, hs, rfl, h2, h4, not_secondaryTagged_of_tags hlt h2⟩

end ScudoMte
