import ScudoMte.Heap.ActFrame

namespace ScudoMte

open ByteMemory Ownership Chunk Combined

variable {cfg : Config} {R : Regions cfg} {h h' : Heap} {c block : Nat}

theorem Heap.Inv.free_owner_disjoint (hi : h.Inv R) (hm : (c, block) ∈ h.free) {o : Owner}
    (ho : o ∈ ownersOf R h.chunks h.secondary.cache (h.free.erase (c, block)) h.carved) :
    ((Owner.free c block).zone cfg).Disjoint (o.zone cfg) :=
  (Owned.perm hi.owned (ownersOf_free hm)).disjoint_cons ho

theorem Heap.Inv.free_cached_disjoint (hi : h.Inv R) (hm : (c, block) ∈ h.free)
    {e : Secondary.CachedBlock} (he : e ∈ h.secondary.cache.cached cfg) :
    e.memMap.range.Disjoint ((Owner.free c block).zone cfg) := by
  have hmem : Owner.cached e ∈ cacheOwners cfg h.secondary.cache := List.mem_map_of_mem he
  exact (hi.free_owner_disjoint hm
    (List.mem_append_right _ (List.mem_append_left _ hmem))).symm

theorem Heap.Inv.free_free_disjoint (hi : h.Inv R) (hm : (c, block) ∈ h.free) {p : Nat × Nat}
    (hp : p ∈ h.free) (hne : p ≠ (c, block)) :
    ((Owner.free p.1 p.2).zone cfg).Disjoint ((Owner.free c block).zone cfg) := by
  have hmem : Owner.free p.1 p.2 ∈ freeOwners (h.free.erase (c, block)) :=
    List.mem_map.mpr ⟨p, (List.mem_erase_of_ne hne).mpr hp, rfl⟩
  exact (hi.free_owner_disjoint hm (List.mem_append_right _ (List.mem_append_right _
    (List.mem_append_left _ hmem)))).symm

theorem Heap.Inv.free_clear (hi : h.Inv R) (hm : (c, block) ∈ h.free) :
    Clear cfg h.secondary.cache ((Owner.free c block).zone cfg) :=
  clear_of_cached (fun _ he => hi.cached_ok he) fun _ he => hi.free_cached_disjoint hm he

/-- What is written inside a chunk is written outside the free blocks. -/
theorem Heap.Inv.free_sameOn (hi : h.Inv R) (hm : (c, block) ∈ h.free) {r : Holding}
    (hr : r ∈ h.chunks) {m m' : Mem} (hag : m.AgreeOff m' r.block r.blockEnd) :
    m.SameOn m' ((Owner.free c block).zone cfg) := by
  obtain ⟨hlo, hhi⟩ := (hi.chunk_ok hr).zone
  exact (hag.mono hlo hhi).sameOn (hi.free_disjoint hm hr).symm

/-- An allocation writes in its own block, or in a mapping. -/
theorem Heap.Inv.allocate_free (hi : h.Inv R) (hm : (c, block) ∈ h.free) {env : AllocEnv}
    {size k : Nat} {origin : Origin} {zeroContents : Bool} {a : Allocation} {s' : Secondary}
    {m' : Mem} (henv : env.Ok R h size k)
    (ha : Combined.allocate cfg h.opts env h.secondary h.mem size origin (2^k) zeroContents =
      .ok (some a, s', m')) (hne : (a.classId, a.block) ≠ (c, block)) :
    h.mem.SameOn m' ((Owner.free c block).zone cfg) := by
  obtain ⟨hk, hsize, m, hal⟩ := allocated_of_allocate hi henv ha
  rcases allocateBlock_cases hsize (by omega) (by omega) (hi.primaryBlocksOk henv) hal.block with
    ⟨-, hc, hb, -, hmem⟩ | ⟨hc, -, hsec⟩
  · have hag := hal.agreeOff (by omega) (hal.blockEnd_aligned (by omega))
    have hend : a.blockEnd = a.block + cfg.sizeClassMap.getSizeByClassId a.classId :=
      hal.serves.primary (by omega)
    rw [hmem, hend] at hag
    exact Mem.AgreeOff.sameOn (r := ⟨_, _⟩) hag
      (hi.free_free_disjoint hm (henv.primaryBlock _ _ hb) hne)
  · obtain ⟨map, hserved, -, hmap⟩ := Secondary.allocate_served (by omega) (by omega) hsize
      (fun i hl => hi.lru_ok hl) (fun b hb => ⟨(henv.mapBase b hb).1, (henv.mapBase b hb).2.1,
        (henv.mapBase b hb).2.2.1⟩) hsec
    obtain ⟨-, -, hag, -⟩ := hal.secondary_place (by omega) hc hserved
    apply hag.sameOn
    rcases hmap with ⟨i, him, rfl, -⟩ | ⟨b, hb, rfl, -⟩
    · exact hi.free_cached_disjoint hm (List.mem_append_left _ (List.mem_map_of_mem him))
    · have hmem : Owner.free c block ∈ freeOwners h.free := List.mem_map.mpr ⟨_, hm, rfl⟩
      exact (henv.mapBase b hb).2.2.2 _ (List.mem_append_right _ (List.mem_append_right _
        (List.mem_append_left _ hmem)))

/-- A chunk that is freed is stored to in its own block, and its mapping in its own pages. -/
theorem Heap.Inv.dispose_free (hi : h.Inv R) (hm : (c, block) ∈ h.free) {r : Holding}
    (hr : r ∈ h.chunks) (hag : r.Agrees) {env : FreeEnv} {hd : UnpackedHeader} {size : Nat}
    (hof : HeaderOf r hd) (hsize : r.classId ≠ 0 → size = r.size)
    (hclock : env.secondary.clock ≠ 0) {d : Disposal} {m' : Mem}
    (hq : quarantineOrDeallocateChunk cfg h.opts env h.secondary h.mem r.ptr hd size = (d, m')) :
    h.mem.SameOn m' ((Owner.free c block).zone cfg) := by
  have hok := hi.chunk_ok hr
  obtain ⟨hagm, -, -⟩ := freedMem_spec env size hok hof hsize
  have hsame := hi.free_sameOn hm hr hagm
  rcases quarantineOrDeallocateChunk_cases hok hag hof (fun ht hc => hi.tagged ht r hr hc) hq with
    ⟨-, -, -, rfl⟩ | ⟨hc, -, rfl⟩ | ⟨-, -, -, rfl⟩
  · exact hsame
  · apply hsame.trans
    obtain ⟨cb, hl, hcached⟩ := freedMem_cached size hok hof hc hclock
    have hcom := hcached.committed
    have hdis := (hi.free_disjoint hm hr).symm
    generalize freedMem cfg h.opts env.call h.mem r hd size = m at hl ⊢
    simp only [Secondary.deallocate, hl.commitBase_eq, hl.commitSize_eq, hl.memMap_eq]
    split
    · exact store_sameOn h.opts env.secondary
        ⟨cb, r.blockEnd - cb, Secondary.getHeader r.block + Secondary.largeHeaderSize, r.map, 0⟩
        hi.linked (hi.free_clear hm) (Range.Within.disjoint (s := r.map.range)
          ⟨hcom.base_le, hcom.end_le⟩ hdis)
    · exact .refl _ _
  · exact hsame

/-- So does the copy into a new chunk. -/
theorem Heap.Inv.copy_free (hi : h.Inv R) {env : AllocEnv} {size k n : Nat} {origin : Origin}
    {zeroContents : Bool} {a : Allocation} {s' : Secondary} {m' : Mem} (henv : env.Ok R h size k)
    (ha : Combined.allocate cfg h.opts env h.secondary h.mem size origin (2^k) zeroContents =
      .ok (some a, s', m')) (hn : n ≤ size)
    (src : Nat) (hm : (c, block) ∈ (h.addAllocation s' m' a).free) :
    m'.SameOn (m'.memcpy a.user src n) ((Owner.free c block).zone cfg) := by
  have h1 := hi.addAllocation henv ha
  obtain ⟨-, -, m, hal⟩ := allocated_of_allocate hi henv ha
  have hnew : Holding.ofAllocation h.opts m' a ∈ (h.addAllocation s' m' a).chunks :=
    List.mem_cons_self
  have hok := h1.chunk_ok hnew
  have hin : a.block + 16 ≤ a.user := hok.header_in
  have hfit : a.user + a.size ≤ a.blockEnd := hok.user_in
  have hsz := hal.size_eq
  have hcopy := (Mem.memcpy_agreeOff m' a.user src n).mono (show a.block ≤ a.user by omega)
    (show a.user + n ≤ a.blockEnd by omega)
  exact h1.free_sameOn hm hnew hcopy

theorem dispose_free {r : Holding} {m : Mem} (hm : (c, block) ∈ h.free) (d : Disposal) :
    (c, block) ∈ (h.dispose r m d).free := by
  cases d with
  | toPrimary c' block' => exact List.mem_cons_of_mem _ hm
  | toSecondary s => exact hm
  | toQuarantine p n => exact hm

theorem dispose_mem_eq {r : Holding} {m : Mem} (d : Disposal) : (h.dispose r m d).mem = m := by
  cases d <;> rfl

/-- The new chunk of a move is there in the end. -/
theorem moved_mem {r : Holding} {s : Secondary} {m : Mem} {a : Allocation} (hr : r ∈ h.chunks)
    (d : Disposal) : Holding.ofAllocation h.opts m a ∈
      ((h.addAllocation s m a).dispose r m d).chunks := by
  have hkeep : Holding.ofAllocation h.opts m a ∈
      (Holding.ofAllocation h.opts m a :: h.chunks).erase r := by
    rw [List.erase_cons]
    split
    · next heq =>
      rw [beq_iff_eq.mp heq]
      exact hr
    · exact List.mem_cons_self
  cases d with
  | toPrimary c block => exact hkeep
  | toSecondary s => exact hkeep
  | toQuarantine p n => exact List.mem_cons_of_mem _ hkeep

/-- The block is the program's, or holds a batch of the quarantine. -/
def Heap.HandsOut (h : Heap) (block : Nat) : Prop :=
  ∃ x ∈ h.chunks, x.status ≠ .quarantined ∧ x.block = block

/-- Until it is handed out, a free block is left alone, or only loses whole pages. -/
theorem Outcome.free_frame {act : Act} (ho : Outcome R h act h') (hi : h.Inv R)
    (hm : (c, block) ∈ h.free) (hfree : ¬ h'.HandsOut block) : (c, block) ∈ h'.free ∧
      (h.mem.SameOn h'.mem ((Owner.free c block).zone cfg) ∨
        ∃ lo n, lo % 16 = 0 ∧ n % 16 = 0 ∧ h'.mem = h.mem.zeroPages lo n) := by
  cases ho with
  | unchanged => exact ⟨hm, .inl (.refl _ _)⟩
  | @allocated env size origin k zeroContents a s' m' henv ha =>
    have hne : (a.classId, a.block) ≠ (c, block) := by
      intro heq
      exact hfree ⟨_, List.mem_cons_self, Status.noConfusion, (Prod.mk.inj heq).2⟩
    exact ⟨(List.mem_erase_of_ne hne.symm).mpr hm, .inl (hi.allocate_free hm henv ha hne)⟩
  | @freed r env origin deleteSize hd d m' hr hl hclock hag hof hq =>
    have hsame := hi.dispose_free hm hr hag hof (fun hc => Holding.storedSize_primary hc) hclock hq
    refine ⟨dispose_free hm d, .inl ?_⟩
    rwa [dispose_mem_eq]
  | @resized r alloc free newSize k hd hr hl hag hof hstay =>
    exact ⟨hm, .inl (hi.free_sameOn hm hr (resizedMem_spec (hi.chunk_ok hr) hl hof hstay.1).1)⟩
  | @moved r alloc free newSize k hd a s' m1 m' d hr hl hag hof hstay halloc hclock ha hq =>
    have hne : (a.classId, a.block) ≠ (c, block) := by
      intro heq
      exact hfree ⟨_, moved_mem hr d, Status.noConfusion, (Prod.mk.inj heq).2⟩
    have hkeep : (c, block) ∈ h.free.erase (a.classId, a.block) :=
      (List.mem_erase_of_ne hne.symm).mpr hm
    have halloc' := hi.allocate_free hm halloc ha hne
    obtain ⟨h2, -⟩ := hi.copied halloc ha (Nat.min_le_left newSize r.storedSize)
    have hcopy := hi.copy_free halloc ha (Nat.min_le_left newSize r.storedSize) r.user hkeep
    have hfreed := h2.dispose_free hkeep (List.mem_cons_of_mem _ hr) hag hof
      (fun hc => Holding.storedSize_primary hc) hclock hq
    refine ⟨dispose_free hkeep d, .inl ?_⟩
    rw [dispose_mem_eq]
    exact (halloc'.trans hcopy).trans hfreed
  | @recycled act r hd hr ha hst =>
    have hq : r.status ≠ .live := by
      rcases ha with ⟨-, hq⟩ | ⟨-, hq⟩ <;> rw [hq] <;> decide
    have hok := hi.chunk_ok hr
    obtain ⟨-, hag⟩ := hok.available (hok.quarantined hq).1 hst
    exact ⟨List.mem_cons_of_mem _ hm, .inl (hi.free_sameOn hm hr hag)⟩
  | @batched b hb hmax =>
    have hne : (quarantineClassId cfg, b) ≠ (c, block) := by
      intro heq
      exact hfree ⟨_, List.mem_cons_self, Status.noConfusion, (Prod.mk.inj heq).2⟩
    refine ⟨(List.mem_erase_of_ne hne.symm).mpr hm, .inl ?_⟩
    exact Mem.AgreeOff.sameOn (r := ⟨_, _⟩) (hi.allocateBatch_agreeOff hb hmax)
      (hi.free_free_disjoint hm hb hne)
  | @written r i b hr hq hlt =>
    have hok := hi.chunk_ok hr
    have hin := hok.header_in
    have hfit := hok.user_in
    exact ⟨hm, .inl (hi.free_sameOn hm hr
      ((Mem.memset_agreeOff h.mem (r.user + i) 1 b).mono (by omega) (by omega)))⟩
  | populated hc hfit => exact ⟨List.mem_cons_of_mem _ hm, .inl (.refl _ _)⟩
  | @released lo n hlo hn hchunks hcached =>
    have hpage := Nat.dvd_of_mod_eq_zero cfg.pageSize_aligned
    exact ⟨hm, .inr ⟨lo, n, Nat.mod_eq_zero_of_dvd (hpage.trans hlo),
      Nat.mod_eq_zero_of_dvd (hpage.trans hn), rfl⟩⟩
  | releasedToOS =>
    exact ⟨hm, .inl (releaseOlderThan_clear _ hi.linked.oldest (hi.free_clear hm)).1⟩
  | _ => exact ⟨hm, .inl (.refl _ _)⟩

end ScudoMte
