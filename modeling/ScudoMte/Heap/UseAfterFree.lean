import ScudoMte.Heap.HeaderAgreement

namespace ScudoMte

open ByteMemory Ownership Chunk Combined

variable {cfg : Config} {R : Regions cfg} {h h' : Heap}

/-- A use of the chunk `r` after it was freed meets another tag than that of its pointer, which is
not 0, and the other live chunks keep their tags. -/
structure UseAfterFreeDetected (h h' : Heap) (r : Holding) : Prop where
  freed : ∀ g, r.user < 16*g+16 → 16*g < r.user + r.size →
    h'.mem.tag g ≠ extractTag r.ptr ∧ h'.mem.tag g ≠ 0
  others : ∀ x ∈ h.chunks.erase r, x.status = .live → ∀ g, x.map.range.lo ≤ 16*g →
    16*g+16 ≤ x.map.range.hi → h'.mem.tag g = h.mem.tag g

/-- Freeing a primary chunk changes the memory in its block only, whichever way it goes. -/
theorem deallocate_primary_mem (hi : h.Inv R) {r : Holding} {env : FreeEnv} {origin : Origin}
    {deleteSize : Nat} (hm : r ∈ h.chunks) (hl : r.status = .live) (hc : r.classId ≠ 0)
    (hs : h.deallocate cfg r env origin deleteSize = .ok h') :
    r.Agrees ∧ ∃ hd, HeaderOf r hd ∧ h'.mem = freedMem cfg h.opts env.call h.mem r hd r.size := by
  have hr := hi.chunk_ok hm
  simp only [Heap.deallocate] at hs
  cases hd : Combined.deallocate cfg h.opts env h.secondary h.mem r.ptr origin deleteSize with
  | error e =>
    rw [hd] at hs
    simp [bind, Except.bind] at hs
  | ok res =>
    obtain ⟨o, m'⟩ := res
    obtain ⟨hag, hdr, d, hof, rfl, hq⟩ := deallocate_ok hr hl hd
    rw [hd] at hs
    simp only [bind, Except.bind] at hs
    rw [← Except.ok.inj hs]
    rw [Holding.storedSize_primary hc] at hq
    refine ⟨hag, hdr, hof, ?_⟩
    rcases quarantineOrDeallocateChunk_cases hr hag hof (fun ht hc => hi.tagged ht r hm hc) hq with
      ⟨-, -, rfl, rfl⟩ | ⟨h0, -, -⟩ | ⟨-, -, rfl, rfl⟩
    · rfl
    · exact absurd h0 hc
    · rfl

/-- A freed tagged chunk of the primary is told apart from its pointer exactly when twice the drawn
tag is another tag than the pointer's, and not 0. -/
theorem useAfterFreeDetected_iff (hi : h.Inv R) {r : Holding} {env : FreeEnv} {origin : Origin}
    {deleteSize : Nat} (hm : r ∈ h.chunks) (hl : r.status = .live) (hc : r.classId ≠ 0)
    (hsize : 0 < r.size) (ht : h.opts.useMemoryTagging = true)
    (hinit : env.call.disableMemInit = false)
    (hs : h.deallocate cfg r env origin deleteSize = .ok h') :
    UseAfterFreeDetected h h' r ↔
      2*(env.call.draw%16)%16 ≠ extractTag r.ptr ∧ 2*(env.call.draw%16)%16 ≠ 0 := by
  have hr := hi.chunk_ok hm
  obtain ⟨hag, hd, hof, hmem⟩ := deallocate_primary_mem hi hm hl hc hs
  have hfit := hr.user_in
  have hend := hr.blockEnd_lt
  have hu16 := hr.user_aligned
  have htag0 := hi.tagged ht r hm hc
  have htag (g : Nat) : h'.mem.tag g = if r.user/16 ≤ g ∧ g < (r.user+r.size+15)/16
      then 2*(env.call.draw%16)%16 else h.mem.tag g := by
    simp only [hmem, freedMem, ht, if_true]
    have hfc : (freedHeader cfg h.opts env.call hd r.size).classId ≠ 0 := hof.classId_ne.mpr hc
    have ht16 : r.headerTag < 16 := by omega
    rw [Holding.key, retagBlock_tag g hfc hinit ht16 hu16 (by omega), storeHeader_tag]
  constructor
  · intro hdet
    have hfirst := hdet.freed (r.user/16) (by omega) (by omega)
    rw [htag, if_pos (by omega)] at hfirst
    exact hfirst
  · intro hdraw
    refine ⟨?_, ?_⟩
    · intro g h1 h2
      rw [htag, if_pos (by omega)]
      exact hdraw
    · intro x hx _ g h1 h2
      have hown := Owned.perm hi.owned (ownersOf_chunk hm)
      have hdisj : r.map.range.Disjoint x.map.range := hown.disjoint_cons
        (List.mem_append_left _ (List.mem_map_of_mem (f := Owner.chunk) hx))
      obtain ⟨hlo, hhi⟩ := hr.zone
      have hin := hr.header_in
      rw [htag, if_neg]
      rcases hdisj with hd | hd <;> omega

/-- A chunk under tag 5, freed with the draw 1: its granule takes the tag 2. -/
theorem useAfterFreeDetected_drawOne : ∃ h h' : Heap, firstChunk 5 ∈ h.chunks ∧
    h.deallocate defaultConfig (firstChunk 5) ⟨⟨none, 1, true⟩, ⟨1, false, false, 0, 0⟩⟩ .malloc 0 =
      .ok h' ∧ UseAfterFreeDetected h h' (firstChunk 5) := by
  have hr : ∃ h, Reachable defaultRegions h ∧ h.opts.useMemoryTagging = true ∧
      firstChunk 5 ∈ h.chunks ∧ ∃ h', h.deallocate defaultConfig (firstChunk 5)
        ⟨⟨none, 1, true⟩, ⟨1, false, false, 0, 0⟩⟩ .malloc 0 = .ok h' :=
    ⟨_, .next (a := .allocate (firstEnv 5) 16 .malloc 4 false)
      (oneBlockHeap_reachable _ trivial) ⟨firstEnv_ok List.mem_cons_self 5 16 4, trivial⟩ rfl, rfl, List.mem_cons_self,
      _, rfl⟩
  obtain ⟨h, hreach, ht, hm, h', hs⟩ := hr
  exact ⟨h, h', hm, hs, (useAfterFreeDetected_iff hreach.inv hm rfl (by decide) (by decide) ht rfl
    hs).mpr (by decide)⟩

/-- The same chunk under tag 2, freed with the draw 1: its granule has the tag of the pointer. -/
theorem useAfterFreeDetected_undetected : ∃ h h' : Heap, Reachable defaultRegions h ∧
    firstChunk 2 ∈ h.chunks ∧
    h.deallocate defaultConfig (firstChunk 2) ⟨⟨none, 1, true⟩, ⟨1, false, false, 0, 0⟩⟩ .malloc 0 =
      .ok h' ∧
    h'.mem.tag ((2^31 + 16) / 16) = 2 ∧ ¬ UseAfterFreeDetected h h' (firstChunk 2) := by
  refine ⟨_, _, .next (a := .allocate (firstEnv 2) 16 .malloc 4 false)
    (oneBlockHeap_reachable _ trivial) ⟨firstEnv_ok List.mem_cons_self 2 16 4, trivial⟩ rfl, List.mem_cons_self, rfl, ?_,
    ?_⟩
  · decide
  · intro hdet
    have hfirst := (hdet.freed ((2^31 + 16) / 16) (by decide) (by decide)).1
    exact absurd hfirst (by decide)

end ScudoMte
