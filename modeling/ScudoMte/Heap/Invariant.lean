import ScudoMte.Heap.Cache
import ScudoMte.Heap.Step

namespace ScudoMte

open ByteMemory Ownership Chunk Combined

variable {cfg : Config} {R : Regions cfg} {h : Heap}

theorem Heap.Inv.chunk_ok (hi : h.Inv R) {r : Holding} (hr : r ∈ h.chunks) :
    r.Ok cfg h.opts.useMemoryTagging h.mem :=
  hi.owned.ok (.chunk r) (List.mem_append_left _ (List.mem_map_of_mem hr))

theorem Heap.Inv.cached_ok (hi : h.Inv R) {e : Secondary.CachedBlock}
    (he : e ∈ h.secondary.cache.cached cfg) : e.Ok h.opts.useMemoryTagging h.mem :=
  hi.owned.ok (.cached e) (List.mem_append_right _ (List.mem_append_left _ (List.mem_map_of_mem he)))

theorem Heap.Inv.lru_ok (hi : h.Inv R) {i : Nat} (hm : i ∈ h.secondary.cache.lruEntries) :
    (h.secondary.cache.entries i).Ok h.opts.useMemoryTagging h.mem :=
  hi.cached_ok (List.mem_append_left _ (List.mem_map_of_mem hm))

theorem Heap.Inv.free_ok (hi : h.Inv R) {c block : Nat} (hm : (c, block) ∈ h.free) :
    FreeBlock cfg h.mem c block :=
  hi.owned.ok (.free c block) (List.mem_append_right _ (List.mem_append_right _
    (List.mem_append_left _ (List.mem_map.mpr ⟨(c, block), hm, rfl⟩))))

theorem Heap.Inv.not_free_zero (hi : h.Inv R) (block : Nat) : (0, block) ∉ h.free := by
  intro hm
  exact absurd (hi.free_ok hm).classId_pos (by decide)

section Perm

variable {chunks : List Holding} {c c' : Secondary.Cache} {free : List (Nat × Nat)}
  {carved : Nat → Nat}

theorem ownersOf_chunk {r : Holding} (hr : r ∈ chunks) :
    (ownersOf R chunks c free carved).Perm
      (.chunk r :: ownersOf R (chunks.erase r) c free carved) :=
  ((List.perm_cons_erase hr).map _).append_right _

theorem ownersOf_free {p : Nat × Nat} (hp : p ∈ free) :
    (ownersOf R chunks c free carved).Perm
      (.free p.1 p.2 :: ownersOf R chunks c (free.erase p) carved) := by
  have h1 : (freeOwners free).Perm (.free p.1 p.2 :: freeOwners (free.erase p)) :=
    (List.perm_cons_erase hp).map _
  have h2 := ((h1.append_right (reserveOwners R carved)).append_left
    (cacheOwners cfg c)).append_left (chunkOwners chunks)
  refine h2.trans ?_
  rw [List.cons_append]
  exact (List.perm_middle.append_left _).trans List.perm_middle

theorem ownersOf_cons_free (p : Nat × Nat) :
    (ownersOf R chunks c (p::free) carved).Perm
      (.free p.1 p.2 :: ownersOf R chunks c free carved) := by
  have h := @ownersOf_free _ R chunks c _ carved p (List.mem_cons_self (l := free))
  rwa [List.erase_cons_head] at h

/-- The cache set apart from the other owners. -/
theorem ownersOf_cache :
    (ownersOf R chunks c free carved).Perm (cacheOwners cfg c ++
      (chunkOwners chunks ++ (freeOwners free ++ reserveOwners R carved))) := by
  exact List.perm_append_comm_assoc _ _ _

/-- The reserves of the regions set apart. -/
theorem ownersOf_reserve :
    (ownersOf R chunks c free carved).Perm (reserveOwners R carved ++
      (chunkOwners chunks ++ (cacheOwners cfg c ++ freeOwners free))) := by
  have h := @List.perm_append_comm _ (chunkOwners chunks ++ (cacheOwners cfg c ++ freeOwners free))
    (reserveOwners R carved)
  simp only [List.append_assoc] at h
  exact h

theorem ownersOf_cached {e : Secondary.CachedBlock}
    (hp : (cacheOwners cfg c).Perm (.cached e :: cacheOwners cfg c')) :
    (ownersOf R chunks c free carved).Perm (.cached e :: ownersOf R chunks c' free carved) :=
  ((ownersOf_cache.trans (hp.append_right _))).trans (ownersOf_cache.symm.cons _)

end Perm

section Lists

variable {chunks : List Holding} {r : Holding}

@[simp] theorem primaryBlocks_cons_of_ne (hc : r.classId ≠ 0) :
    primaryBlocks (r::chunks) = (r.classId, r.block) :: primaryBlocks chunks := by
  simp [primaryBlocks, hc]

@[simp] theorem primaryBlocks_cons_of_zero (hc : r.classId = 0) :
    primaryBlocks (r::chunks) = primaryBlocks chunks := by
  simp [primaryBlocks, hc]

@[simp] theorem largeHeaders_cons_of_zero (hc : r.classId = 0) :
    largeHeaders (r::chunks) = Secondary.getHeader r.block :: largeHeaders chunks := by
  simp [largeHeaders, hc]

@[simp] theorem largeHeaders_cons_of_ne (hc : r.classId ≠ 0) :
    largeHeaders (r::chunks) = largeHeaders chunks := by
  simp [largeHeaders, hc]

/-- The lists see the class and the block only. -/
theorem primaryBlocks_congr {r' : Holding} (hc : r'.classId = r.classId) (hb : r'.block = r.block) :
    primaryBlocks (r'::chunks) = primaryBlocks (r::chunks) := by
  by_cases h : r.classId = 0
  · rw [primaryBlocks_cons_of_zero h, primaryBlocks_cons_of_zero (hc.trans h)]
  · rw [primaryBlocks_cons_of_ne h, primaryBlocks_cons_of_ne (by rwa [hc]), hc, hb]

theorem largeHeaders_congr {r' : Holding} (hc : r'.classId = r.classId) (hb : r'.block = r.block) :
    largeHeaders (r'::chunks) = largeHeaders (r::chunks) := by
  by_cases h : r.classId = 0
  · rw [largeHeaders_cons_of_zero h, largeHeaders_cons_of_zero (hc.trans h), hb]
  · rw [largeHeaders_cons_of_ne h, largeHeaders_cons_of_ne (by rwa [hc])]

/-- A chunk set apart. -/
theorem primaryBlocks_perm (hr : r ∈ chunks) :
    (primaryBlocks chunks).Perm (primaryBlocks (r :: chunks.erase r)) :=
  ((List.perm_cons_erase hr).filter _).map _

theorem largeHeaders_perm (hr : r ∈ chunks) :
    (largeHeaders chunks).Perm (largeHeaders (r :: chunks.erase r)) :=
  ((List.perm_cons_erase hr).filter _).map _

end Lists

section Update

variable {r : Holding} {m' : Mem}

/-- The program writes inside a chunk. -/
theorem Heap.Inv.write (hi : h.Inv R) (hr : r ∈ h.chunks)
    (hag : h.mem.AgreeOff m' r.user r.blockEnd) (htag : m'.tag = h.mem.tag)
    (hkey : m'.headerKey = h.mem.headerKey) : ({ h with mem := m' } : Heap).Inv R := by
  have hok := hi.chunk_ok hr
  have hin := hok.header_in
  obtain ⟨hlo, hhi⟩ := hok.zone
  refine { hi with owned := ?_ }
  have hown := Owned.perm hi.owned (ownersOf_chunk hr)
  have hupd := Owns.update hown (hag.mono (show r.map.range.lo ≤ r.user by omega) hhi)
    (show (Owner.chunk r).Ok cfg h.opts.useMemoryTagging m' from hok.write hag.data htag hkey)
    (.refl _)
  exact Owned.perm hupd (ownersOf_chunk hr).symm

/-- A chunk is replaced by one in the same place. -/
theorem Heap.Inv.updateChunk (hi : h.Inv R) (hr : r ∈ h.chunks) (r' : Holding)
    (hag : h.mem.AgreeOff m' r.block r.blockEnd) (hok : r'.Ok cfg h.opts.useMemoryTagging m')
    (hmap : r'.map = r.map) (hc : r'.classId = r.classId) (hb : r'.block = r.block)
    (ht : r'.headerTag = r.headerTag) (hs : r'.status = .live → r.status = .live) :
    ({ h with mem := m', chunks := r' :: h.chunks.erase r } : Heap).Inv R := by
  obtain ⟨hlo, hhi⟩ := (hi.chunk_ok hr).zone
  have hown := Owned.perm hi.owned (ownersOf_chunk hr)
  have hzone : (Owner.chunk r').zone cfg = (Owner.chunk r).zone cfg := by
    simp only [Owner.zone, hmap]
  refine ⟨?_, ?_, hi.fits, ?_, hi.linked, ?_, ?_⟩
  · refine Owns.update hown (hag.mono hlo hhi) hok ?_
    rw [hzone]
    exact .refl _
  · rw [primaryBlocks_congr hc hb]
    exact ((primaryBlocks_perm hr).symm.append_right _).trans hi.blocks
  · rw [largeHeaders_congr hc hb]
    exact hi.inUse.trans (largeHeaders_perm hr)
  · intro htag x hx hxc
    rcases List.mem_cons.mp hx with rfl | hx
    · rw [ht]
      exact hi.tagged htag r hr (by rwa [← hc])
    · exact hi.tagged htag x (List.mem_of_mem_erase hx) hxc
  · intro hsys
    obtain ⟨hoff, hall⟩ := hi.untagged hsys
    refine ⟨hoff, ?_⟩
    intro x hx hl
    rcases List.mem_cons.mp hx with rfl | hx
    · rw [ht]
      exact hall r hr (hs hl)
    · exact hall x (List.mem_of_mem_erase hx) hl

/-- A chunk gives its block back to the primary. -/
theorem Heap.Inv.freeChunk (hi : h.Inv R) (hm : r ∈ h.chunks)
    (hp : PrimaryChunk cfg r) (hag : h.mem.AgreeOff m' r.block r.blockEnd)
    (hfree : FreeBlock cfg m' r.classId r.block) :
    ({ h with
        mem := m', chunks := h.chunks.erase r, free := (r.classId, r.block) :: h.free } : Heap).Inv
      R := by
  obtain ⟨hlo, hhi⟩ := (hi.chunk_ok hm).zone
  have hc : r.classId ≠ 0 := Nat.pos_iff_ne_zero.mp hp.classId_pos
  have hown := Owned.perm hi.owned (ownersOf_chunk hm)
  have hzeq : (Owner.free r.classId r.block).zone cfg = (Owner.chunk r).zone cfg := by
    simp only [Owner.zone, hp.map]
    rfl
  have hupd : Owns cfg h.opts.useMemoryTagging m'
      (.free r.classId r.block ::
        ownersOf R (h.chunks.erase r) h.secondary.cache h.free h.carved) := by
    refine Owns.update hown (hag.mono hlo hhi) hfree ?_
    rw [hzeq]
    exact .refl _
  refine ⟨Owned.perm hupd (ownersOf_cons_free (r.classId, r.block)).symm, ?_, hi.fits, ?_,
    hi.linked, ?_, ?_⟩
  · have hb := primaryBlocks_perm hm
    rw [primaryBlocks_cons_of_ne hc] at hb
    exact List.perm_middle.trans ((hb.symm.append_right _).trans hi.blocks)
  · have hl := largeHeaders_perm hm
    rw [largeHeaders_cons_of_ne hc] at hl
    exact hi.inUse.trans hl
  · exact fun ht x hx => hi.tagged ht x (List.mem_of_mem_erase hx)
  · exact fun hs => ⟨(hi.untagged hs).1, fun x hx => (hi.untagged hs).2 x (List.mem_of_mem_erase hx)⟩

end Update

end ScudoMte
