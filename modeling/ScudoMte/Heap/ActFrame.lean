import ScudoMte.Heap.CacheFrame
import ScudoMte.Heap.Reachable

namespace ScudoMte

open ByteMemory Ownership Chunk Combined

variable {cfg : Config} {R : Regions cfg} {h h' : Heap}

section Apart

variable {r x : Holding}

theorem Heap.Inv.chunk_disjoint (hi : h.Inv R) (hr : r ∈ h.chunks) (hx : x ∈ h.chunks)
    (hne : x ≠ r) : r.map.range.Disjoint x.map.range := by
  have hmem : x ∈ h.chunks.erase r := (List.mem_erase_of_ne hne).mpr hx
  exact (Owned.perm hi.owned (ownersOf_chunk hr)).disjoint_cons
    (List.mem_append_left _ (List.mem_map_of_mem (f := Owner.chunk) hmem))

theorem Heap.Inv.head_disjoint (hi : h.Inv R) {rest : List Holding} (hr : h.chunks = r :: rest)
    (hx : x ∈ rest) : r.map.range.Disjoint x.map.range := by
  have hperm := @ownersOf_chunk cfg R h.chunks h.secondary.cache h.free
    h.carved r (show r ∈ h.chunks by rw [hr]; exact List.mem_cons_self)
  rw [hr, List.erase_cons_head] at hperm
  exact (Owned.perm hi.owned (hr ▸ hperm)).disjoint_cons
    (List.mem_append_left _ (List.mem_map_of_mem (f := Owner.chunk) hx))

theorem Heap.Inv.free_disjoint (hi : h.Inv R) {c block : Nat} (hm : (c, block) ∈ h.free)
    (hx : x ∈ h.chunks) :
    Range.Disjoint ⟨block, block + cfg.sizeClassMap.getSizeByClassId c⟩ x.map.range :=
  (Owned.perm hi.owned (ownersOf_free hm)).disjoint_cons
    (List.mem_append_left _ (List.mem_map_of_mem (f := Owner.chunk) hx))

theorem Heap.Inv.cached_disjoint (hi : h.Inv R) {e : Secondary.CachedBlock}
    (he : e ∈ h.secondary.cache.cached cfg) (hx : x ∈ h.chunks) :
    e.memMap.range.Disjoint x.map.range := by
  have hpair := (Owned.perm hi.owned ownersOf_cache).disjoint
  rw [List.map_append] at hpair
  exact (List.pairwise_append.mp hpair).2.2 _
    (List.mem_map_of_mem (List.mem_map_of_mem (f := Owner.cached) he)) _
    (List.mem_map_of_mem (List.mem_append_left _ (List.mem_map_of_mem (f := Owner.chunk) hx)))

/-- The cache does not reach the memory of a chunk. -/
theorem Heap.Inv.clear (hi : h.Inv R) (hx : x ∈ h.chunks) :
    Clear cfg h.secondary.cache x.map.range :=
  clear_of_cached (fun _ he => hi.cached_ok he) fun _ he => hi.cached_disjoint he hx

/-- What is written inside a chunk is written outside the others. -/
theorem Heap.Inv.sameOn_of_block (hi : h.Inv R) (hr : r ∈ h.chunks) (hx : x ∈ h.chunks)
    (hne : x ≠ r) {m m' : Mem} (hag : m.AgreeOff m' r.block r.blockEnd) :
    m.SameOn m' x.map.range := by
  obtain ⟨hlo, hhi⟩ := (hi.chunk_ok hr).zone
  exact (hag.mono hlo hhi).sameOn (hi.chunk_disjoint hr hx hne)

end Apart

section Calls

variable {x : Holding}

/-- An allocation leaves the chunks alone. -/
theorem Heap.Inv.allocate_sameOn (hi : h.Inv R) {env : AllocEnv} {size k : Nat} {origin : Origin}
    {zeroContents : Bool} {a : Allocation} {s' : Secondary} {m' : Mem} (henv : env.Ok R h size k)
    (ha : Combined.allocate cfg h.opts env h.secondary h.mem size origin (2^k) zeroContents =
      .ok (some a, s', m')) (hx : x ∈ h.chunks) : h.mem.SameOn m' x.map.range := by
  obtain ⟨hk, hsize, m, hal⟩ := allocated_of_allocate hi henv ha
  rcases allocateBlock_cases hsize (by omega) (by omega) (hi.primaryBlocksOk henv) hal.block with
    ⟨-, hc, hb, -, hm⟩ | ⟨hc, -, hsec⟩
  · have hag := hal.agreeOff (by omega) (hal.blockEnd_aligned (by omega))
    have hend : a.blockEnd = a.block + cfg.sizeClassMap.getSizeByClassId a.classId :=
      hal.serves.primary (by omega)
    rw [hm, hend] at hag
    exact Mem.AgreeOff.sameOn (r := ⟨_, _⟩) hag (hi.free_disjoint (henv.primaryBlock _ _ hb) hx)
  · obtain ⟨map, hserved, -, hmap⟩ := Secondary.allocate_served (by omega) (by omega) hsize
      (fun i hm => hi.lru_ok hm) (fun b hb => ⟨(henv.mapBase b hb).1, (henv.mapBase b hb).2.1,
        (henv.mapBase b hb).2.2.1⟩) hsec
    obtain ⟨-, -, hag, -⟩ := hal.secondary_place (by omega) hc hserved
    refine hag.sameOn ?_
    rcases hmap with ⟨i, him, rfl, -⟩ | ⟨b, hb, rfl, -⟩
    · exact hi.cached_disjoint (List.mem_append_left _ (List.mem_map_of_mem him)) hx
    · exact (henv.mapBase b hb).2.2.2 (.chunk x)
        (List.mem_append_left _ (List.mem_map_of_mem hx))

/-- A chunk that is freed leaves the others alone. -/
theorem Heap.Inv.dispose_sameOn (hi : h.Inv R) {r : Holding} (hm : r ∈ h.chunks) (hag : r.Agrees)
    {env : FreeEnv} {hd : UnpackedHeader} {size : Nat} (hof : HeaderOf r hd)
    (hsize : r.classId ≠ 0 → size = r.size) (hclock : env.secondary.clock ≠ 0) {d : Disposal}
    {m' : Mem} (hq : quarantineOrDeallocateChunk cfg h.opts env h.secondary h.mem r.ptr hd size =
      (d, m')) (hx : x ∈ h.chunks) (hne : x ≠ r) : h.mem.SameOn m' x.map.range := by
  have hr := hi.chunk_ok hm
  obtain ⟨hagm, -, -⟩ := freedMem_spec env size hr hof hsize
  have hsame := hi.sameOn_of_block hm hx hne hagm
  rcases quarantineOrDeallocateChunk_cases hr hag hof (fun ht hc => hi.tagged ht r hm hc) hq with
    ⟨-, -, -, rfl⟩ | ⟨hc, -, rfl⟩ | ⟨-, -, -, rfl⟩
  · exact hsame
  · refine hsame.trans ?_
    obtain ⟨cb, hl, hok⟩ := freedMem_cached size hr hof hc hclock
    have hcom := hok.committed
    have hdis := hi.chunk_disjoint hm hx hne
    generalize freedMem cfg h.opts env.call h.mem r hd size = m at hl ⊢
    simp only [Secondary.deallocate, hl.commitBase_eq, hl.commitSize_eq, hl.memMap_eq]
    split
    · exact store_sameOn h.opts env.secondary
        ⟨cb, r.blockEnd - cb, Secondary.getHeader r.block + Secondary.largeHeaderSize, r.map, 0⟩
        hi.linked (hi.clear hx) (Range.Within.disjoint (s := r.map.range)
          ⟨hcom.base_le, hcom.end_le⟩ hdis)
    · exact .refl _ _
  · exact hsame

/-- A new chunk whose first bytes are copied from another. -/
theorem Heap.Inv.copied (hi : h.Inv R) {env : AllocEnv} {size k n src : Nat} {origin : Origin}
    {zeroContents : Bool} {a : Allocation} {s' : Secondary} {m' : Mem} (henv : env.Ok R h size k)
    (ha : Combined.allocate cfg h.opts env h.secondary h.mem size origin (2^k) zeroContents =
      .ok (some a, s', m')) (hn : n ≤ size) :
    ({ h.addAllocation s' m' a with mem := m'.memcpy a.user src n } : Heap).Inv R ∧
      ∀ x ∈ h.chunks, m'.SameOn (m'.memcpy a.user src n) x.map.range := by
  have h1 := hi.addAllocation henv ha
  obtain ⟨-, -, m, hal⟩ := allocated_of_allocate hi henv ha
  have hnew : Holding.ofAllocation h.opts m' a ∈ (h.addAllocation s' m' a).chunks :=
    List.mem_cons_self
  have hok := h1.chunk_ok hnew
  have hin : a.block + 16 ≤ a.user := hok.header_in
  have hfit : a.user + a.size ≤ a.blockEnd := hok.user_in
  obtain ⟨hlo, hhi⟩ := hok.zone
  have hsz := hal.size_eq
  have hcopy := (Mem.memcpy_agreeOff m' a.user src n).mono (le_refl _)
    (show a.user + n ≤ a.blockEnd by omega)
  refine ⟨h1.write hnew hcopy rfl rfl, ?_⟩
  intro x hx
  exact (hcopy.mono (hlo.trans (show a.block ≤ a.user by omega)) hhi).sameOn
    (h1.head_disjoint rfl hx)

theorem Heap.Inv.allocateBatch_agreeOff (hi : h.Inv R) {block : Nat}
    (hm : (quarantineClassId cfg, block) ∈ h.free)
    (hmax : quarantineBatchSize + getHeaderSize ≤ cfg.sizeClassMap.maxSize) :
    h.mem.AgreeOff (h.allocateBatch cfg block).mem block
      (block + cfg.sizeClassMap.getSizeByClassId (quarantineClassId cfg)) := by
  have hf := hi.free_ok hm
  have hlt := hf.lt
  have hfit : quarantineBatchSize + getHeaderSize ≤
      cfg.sizeClassMap.getSizeByClassId (quarantineClassId cfg) :=
    (cfg.sizeClassMap.class_spec _ (by decide) hmax).2.2
  rw [getHeaderSize_eq] at hfit
  obtain ⟨-, -, -, -, -, -, -, hag⟩ :=
    quarantineBatch_header cfg h.opts h.mem hf.aligned (by omega)
  exact hag.mono (le_refl _) (by omega)

end Calls

/-- The program passes the chunk to the act. -/
def Act.Touches : Act → Holding → Prop
  | .deallocate r _ _ _, x => x = r
  | .reallocate r _ _ _ _, x => x = r
  | .write r _ _, x => x = r
  | _, _ => False

theorem dispose_mem {r x : Holding} {m : Mem} (hx : x ∈ h.chunks) (hne : x ≠ r) (d : Disposal) :
    x ∈ (h.dispose r m d).chunks := by
  have hmem : x ∈ h.chunks.erase r := (List.mem_erase_of_ne hne).mpr hx
  cases d with
  | toPrimary c block => exact hmem
  | toSecondary s => exact hmem
  | toQuarantine p n => exact List.mem_cons_of_mem _ hmem

/-- An act leaves the live chunks alone that it is not about. -/
theorem Outcome.frame {act : Act} (ho : Outcome R h act h') (hi : h.Inv R) {x : Holding}
    (hx : x ∈ h.chunks) (hl : x.status = .live) (ht : ¬ act.Touches x) :
    x ∈ h'.chunks ∧ h.mem.SameOn h'.mem x.map.range := by
  cases ho with
  | unchanged => exact ⟨hx, .refl _ _⟩
  | allocated henv ha => exact ⟨List.mem_cons_of_mem _ hx, hi.allocate_sameOn henv ha hx⟩
  | @freed r env origin deleteSize hd d m' hm hl' hclock hag hof hq =>
    have hsame := hi.dispose_sameOn hm hag hof (fun hc => Holding.storedSize_primary hc) hclock hq
      hx ht
    refine ⟨dispose_mem hx ht d, ?_⟩
    cases d <;> exact hsame
  | @resized r alloc free newSize k hd hm hl' hag hof hstay =>
    refine ⟨List.mem_cons_of_mem _ ((List.mem_erase_of_ne ht).mpr hx), ?_⟩
    exact hi.sameOn_of_block hm hx ht (resizedMem_spec (hi.chunk_ok hm) hl' hof hstay.1).1
  | @moved r alloc free newSize k hd a s' m1 m' d hm hl' hag hof hstay halloc hclock ha hq =>
    obtain ⟨h2, hcopy⟩ := hi.copied halloc ha (Nat.min_le_left newSize r.storedSize)
    have hfree := h2.dispose_sameOn (List.mem_cons_of_mem _ hm) hag hof
      (fun hc => Holding.storedSize_primary hc) hclock hq (List.mem_cons_of_mem _ hx) ht
    have hsame := ((hi.allocate_sameOn halloc ha hx).trans (hcopy x hx)).trans hfree
    refine ⟨dispose_mem (List.mem_cons_of_mem _ hx) ht d, ?_⟩
    cases d <;> exact hsame
  | @recycled act r hd hm ha hst =>
    have hq : r.status ≠ .live := by
      rcases ha with ⟨-, hq⟩ | ⟨-, hq⟩ <;> rw [hq] <;> decide
    have hne : x ≠ r := by
      rintro rfl
      exact hq hl
    have hr := hi.chunk_ok hm
    obtain ⟨-, hag⟩ := hr.available (hr.quarantined hq).1 hst
    exact ⟨(List.mem_erase_of_ne hne).mpr hx, hi.sameOn_of_block hm hx hne hag⟩
  | @batched block hm hmax =>
    exact ⟨List.mem_cons_of_mem _ hx, Mem.AgreeOff.sameOn (r := ⟨_, _⟩)
      (hi.allocateBatch_agreeOff hm hmax) (hi.free_disjoint hm hx)⟩
  | @written r i b hm hq hlt =>
    refine ⟨hx, hi.sameOn_of_block hm hx ht ?_⟩
    have hr := hi.chunk_ok hm
    have hin := hr.header_in
    have hfit := hr.user_in
    exact (Mem.memset_agreeOff h.mem (r.user + i) 1 b).mono (by omega) (by omega)
  | populated hc hfit => exact ⟨hx, .refl _ _⟩
  | @released lo n hlo hn hchunks hcached =>
    exact ⟨hx, Mem.AgreeOff.sameOn (r := ⟨lo, lo+n⟩) (Mem.zeroPages_agreeOff h.mem lo n)
      (hchunks x hx)⟩
  | releasedToOS => exact ⟨hx, (releaseOlderThan_clear _ hi.linked.oldest (hi.clear hx)).1⟩
  | _ => exact ⟨hx, .refl _ _⟩

end ScudoMte
