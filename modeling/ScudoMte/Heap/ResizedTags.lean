import ScudoMte.Heap.Reachable

namespace ScudoMte

open ByteMemory Ownership Chunk Combined

variable {cfg : Config}

/-- The tags of a chunk: its granules have the tag of the pointer, and the granule behind them,
where it is in the block, has none. -/
structure TagsCoherent (m : Mem) (user size blockEnd t : Nat) : Prop where
  granules : ∀ g, user < 16*g + 16 → 16*g < user + size → m.tag g = t
  marker : (user + size + 15) / 16 * 16 < blockEnd → m.tag ((user + size + 15) / 16) = 0

section Resized

variable {tagging : Bool} {opts : Options} {env : CallEnv} {m : Mem} {r : Holding}
  {hd : UnpackedHeader} {newSize t : Nat}

/-- The tags after a resize of a tagged primary chunk in place. -/
theorem resizeTaggedChunk_tag {a b blockEnd : Nat} (hb : b ≤ blockEnd) (ha : a < 2^56)
    (hend : blockEnd < 2^56) (hend16 : blockEnd % 16 = 0) (ht : t < 16) (g : Nat) :
    (resizeTaggedChunk m (taggedPtr a t) (taggedPtr b t) newSize blockEnd).tag g =
      if b ≤ (a+15)/16*16 then
        if (b+15)/16*16 ≠ blockEnd ∧ g = (b+15)/16 then 0 else m.tag g
      else if b ≠ blockEnd ∧ g = b/16 then 0
      else if (a+15)/16 ≤ g ∧ g < (b+15)/16 then 2*t % 16
      else m.tag g := by
  have hc : taggedPtr b t ≤ taggedPtr ((a+15)/16*16) t ↔ b ≤ (a+15)/16*16 := by simp [taggedPtr]
  simp only [resizeTaggedChunk, ge_iff_le, roundUp_taggedPtr ha ht,
    roundUp_taggedPtr (show b < 2^56 by omega) ht, hc]
  split
  · rw [storeEndMarker_tag _ _ _ _ (by omega), Nat.mul_div_cancel _ (by decide)]
  · rw [storeEndMarker_tag _ _ _ _ (by omega), storeTags_tag _ _ (by omega) (by omega) ht (by omega),
      Nat.mul_div_cancel _ (by decide)]

theorem resizedMem_tag (hr : r.Ok cfg tagging m) (hof : HeaderOf r hd) (hc : r.classId ≠ 0)
    (htag : opts.useMemoryTagging = true) (ht : t < 16) (hptr : r.ptr = taggedPtr r.user t)
    (hfit : r.user + newSize ≤ r.blockEnd) (g : Nat) :
    (resizedMem cfg opts env m r hd newSize).tag g =
      if r.user + newSize ≤ (r.user + r.size + 15)/16*16 then
        if (r.user + newSize + 15)/16*16 ≠ r.blockEnd ∧ g = (r.user + newSize + 15)/16 then 0
        else m.tag g
      else if r.user + newSize ≠ r.blockEnd ∧ g = (r.user + newSize)/16 then 0
      else if (r.user + r.size + 15)/16 ≤ g ∧ g < (r.user + newSize + 15)/16 then 2*t % 16
      else m.tag g := by
  have hend := hr.blockEnd_lt
  have hold := hr.user_in
  have hblockEnd : taggedPtr r.user t - r.user + r.blockEnd = taggedPtr r.blockEnd t := by
    simp only [taggedPtr]
    omega
  simp only [resizedMem, reallocateInPlace, htag, hof.classId_ne.mpr hc, if_true, ne_eq,
    not_false_eq_true, storeAllocationStackMaybe_tag, hblockEnd, untagPointer_taggedPtr t hend, hptr,
    taggedPtr_add, Holding.storedSize_primary hc]
  rw [resizeTaggedChunk_tag hfit (by omega) hend hr.blockEnd_aligned ht, storeHeader_tag]
  have hfill {p : Prop} [Decidable p] (a n : Nat) (b : UInt8) :
      (if p then m.memset a b n else m).tag = m.tag := by
    split <;> rfl
  rw [hfill]

end Resized

/-- Where a tagged chunk of the primary is kept in its block, its tags stay coherent exactly when
it does not grow past its last granule. -/
theorem reallocate_tagsCoherent_iff {opts : Options} {alloc : AllocEnv} {free : FreeEnv}
    {s s' : Secondary} {m m' : Mem} {r : Holding} {newSize k t : Nat}
    (hr : r.Ok cfg opts.useMemoryTagging m) (hl : r.status = .live) (hc : r.classId ≠ 0)
    (htag : opts.useMemoryTagging = true) (ht : t < 16) (ht0 : t ≠ 0)
    (hptr : r.ptr = taggedPtr r.user t) (hcoh : TagsCoherent m r.user r.size r.blockEnd t)
    (h : Combined.reallocate cfg opts alloc free s m r.ptr newSize (2^k) =
      .ok (.inPlace, s', m')) :
    (TagsCoherent m' r.user newSize r.blockEnd t ∧
        ∀ g, 16*g + 16 ≤ r.block ∨ r.blockEnd ≤ 16*g → m'.tag g = m.tag g) ↔
      newSize ≤ (r.size + 15)/16*16 := by
  have hu16 := hr.user_aligned
  have hend16 := hr.blockEnd_aligned
  obtain ⟨hnull, -⟩ | ⟨-, hd, hof, ⟨-, -, hstay, rfl⟩ | ⟨a, d, m1, hmoved, -⟩⟩ := reallocate_ok hr hl h
  · cases hnull
  · have hg := @resizedMem_tag _ _ _ alloc.call _ _ _ _ _ hr hof hc htag ht hptr hstay.1
    have hsize : r.user + newSize ≤ (r.user + r.size + 15)/16*16 ↔
        newSize ≤ (r.size + 15)/16*16 := by omega
    simp only [hsize] at hg
    have hfit := hstay.1
    have hold := hr.user_in
    constructor
    · rintro ⟨hnew, -⟩
      by_contra hgrow
      -- the granule behind the old chunk has the doubled tag, or that of the end marker
      have hfirst := hnew.granules ((r.user + r.size + 15)/16) (by omega) (by omega)
      rw [hg, if_neg hgrow] at hfirst
      split at hfirst
      · omega
      · rw [if_pos (by omega)] at hfirst
        omega
    · intro hle
      simp only [if_pos hle] at hg
      refine ⟨⟨?_, ?_⟩, ?_⟩
      · intro g h1 h2
        rw [hg, if_neg (by omega)]
        exact hcoh.granules g h1 (by omega)
      · intro hlt
        rw [hg, if_pos ⟨by omega, rfl⟩]
      · intro g hout
        have hin := hr.header_in
        rw [hg, if_neg (by omega)]
  · cases hmoved

/-- What the program passes to the calls that free in these runs. -/
def resizeFreeEnv : FreeEnv := ⟨⟨none, 1, true⟩, ⟨1, false, false, 0, 0⟩⟩

theorem Holding.Ok.retag {tagging : Bool} {m : Mem} {r : Holding} (hr : r.Ok cfg tagging m)
    (hc : r.classId ≠ 0) (tag : Nat → Nat) : r.Ok cfg tagging { m with tag := tag } := by
  obtain ⟨hd, hst, hof⟩ := hr.header
  exact { hr with
    place := hr.place_congr (.refl _ _ _) (absurd · hc)
    header := ⟨hd, hst.frame hr.header_in hr.user_lt fun _ _ _ => rfl, hof⟩
    headerKey := hr.headerKey }

/-- A memory in which the one granule of the first chunk has its tag. -/
def coherentMem (m : Mem) : Mem := { m with tag := fun g => if g = 2^27 + 1 then 5 else 0 }

/-- With one granule under tag 5, 16 bytes shrink to 12. -/
theorem reallocate_tagsCoherent_shrunk : ∃ h : Heap, Reachable defaultRegions h ∧
    firstChunk 5 ∈ h.chunks ∧ ∃ s' m',
    Combined.reallocate defaultConfig h.opts (firstEnv 5) resizeFreeEnv h.secondary
      (coherentMem h.mem) (firstChunk 5).ptr 12 (2^4) = .ok (.inPlace, s', m') ∧
    ((TagsCoherent m' (firstChunk 5).user 12 (firstChunk 5).blockEnd 5 ∧
        ∀ g, 16*g + 16 ≤ (firstChunk 5).block ∨ (firstChunk 5).blockEnd ≤ 16*g →
          m'.tag g = (coherentMem h.mem).tag g) ↔ 12 ≤ (16 + 15)/16*16) := by
  have hr : ∃ h, Reachable defaultRegions h ∧ h.opts.useMemoryTagging = true ∧
      firstChunk 5 ∈ h.chunks ∧ ∃ s' m', Combined.reallocate defaultConfig h.opts (firstEnv 5)
        resizeFreeEnv h.secondary (coherentMem h.mem) (firstChunk 5).ptr 12 (2^4) =
          .ok (.inPlace, s', m') :=
    ⟨_, .next (a := .allocate (firstEnv 5) 16 .malloc 4 false) (oneBlockHeap_reachable _ trivial)
      ⟨firstEnv_ok List.mem_cons_self 5 16 4, trivial⟩ rfl, rfl, List.mem_cons_self, _, _, rfl⟩
  obtain ⟨h, hreach, ht, hm, s', m', hs⟩ := hr
  have hcoh : TagsCoherent (coherentMem h.mem) (firstChunk 5).user (firstChunk 5).size
      (firstChunk 5).blockEnd 5 := by
    refine ⟨?_, fun hlt => absurd hlt (by decide)⟩
    intro g h1 h2
    have hu : 2^31 + 16 < 16*g + 16 := h1
    have hv : 16*g < 2^31 + 16 + 16 := h2
    exact if_pos (by omega)
  exact ⟨h, hreach, hm, s', m', hs, reallocate_tagsCoherent_iff
    ((hreach.inv.chunk_ok hm).retag (by decide) _) rfl (by decide) ht (by decide) (by decide) rfl
    hcoh hs⟩

/-- A chunk of no bytes under tag 5 grows to 16: the granule takes tag 10. -/
theorem reallocate_tagsCoherent_grown : ∃ h : Heap, Reachable defaultRegions h ∧
    ∃ r ∈ h.chunks, r.status = .live ∧ r.classId ≠ 0 ∧ r.ptr = taggedPtr r.user 5 ∧
    TagsCoherent h.mem r.user r.size r.blockEnd 5 ∧ ∃ s' m',
    Combined.reallocate defaultConfig h.opts (firstEnv 5) resizeFreeEnv h.secondary h.mem r.ptr 16 (2^4) =
      .ok (.inPlace, s', m') ∧ m'.tag (r.user/16) = 10 ∧
    ¬ TagsCoherent m' r.user 16 r.blockEnd 5 := by
  have hr : ∃ h : Heap, Reachable defaultRegions h ∧
    ∃ r ∈ h.chunks, r.status = .live ∧ r.classId ≠ 0 ∧ r.ptr = taggedPtr r.user 5 ∧
    TagsCoherent h.mem r.user r.size r.blockEnd 5 ∧ ∃ s' m',
    Combined.reallocate defaultConfig h.opts (firstEnv 5) resizeFreeEnv h.secondary h.mem r.ptr 16 (2^4) =
      .ok (.inPlace, s', m') ∧ m'.tag (r.user/16) = 10 ∧ r.user = 2^31 + 16 := by
    refine ⟨_, .next (a := .allocate (firstEnv 5) 0 .malloc 4 false)
      (oneBlockHeap_reachable _ trivial) ⟨firstEnv_ok List.mem_cons_self 5 0 4, trivial⟩ rfl,
      _, List.mem_cons_self, rfl, by decide, rfl, ⟨?_, ?_⟩, _, _, rfl, ?_, rfl⟩
    · intro g h1 h2
      have hu : 2^31 + 16 < 16*g + 16 := h1
      have hv : 16*g < 2^31 + 16 := h2
      omega
    · intro _
      decide
    · decide
  obtain ⟨h, hreach, r, hm, hl, hc, hptr, hcoh, s', m', hs, htag, hu⟩ := hr
  refine ⟨h, hreach, r, hm, hl, hc, hptr, hcoh, s', m', hs, htag, ?_⟩
  intro hnew
  have hg := hnew.granules (r.user/16) (by omega) (by omega)
  omega

end ScudoMte
