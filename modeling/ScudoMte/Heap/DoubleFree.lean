import ScudoMte.Heap.FreedBlocks

namespace ScudoMte

open ByteMemory Ownership Chunk Combined

variable {cfg : Config} {R : Regions cfg} {h h' : Heap}

/-- The header in front of `user` is not that of an allocated chunk. -/
def NotAllocated (m : Mem) (user : Nat) : Prop :=
  (unpack (load m.data (user - 16) 8)).state ≠ State.allocated.field

/-- Every call on a pointer is reported; a size that is too big is refused before. -/
structure Heap.Rejects (cfg : Config) (h : Heap) (ptr : Nat) : Prop where
  deallocate : ∀ env origin deleteSize, ∃ e,
    Combined.deallocate cfg h.opts env h.secondary h.mem ptr origin deleteSize = .error e
  reallocate : ∀ alloc free newSize alignment, newSize < maxAllowedMallocSize → ∃ e,
    Combined.reallocate cfg h.opts alloc free h.secondary h.mem ptr newSize alignment = .error e
  getUsableSize : ∃ e, Combined.getUsableSize cfg h.opts h.mem ptr = .error e
  getAllocSize : ∃ e, Combined.getAllocSize cfg h.mem ptr = .error e

section NotAllocated

variable {m m' : Mem} {user t : Nat}

theorem ChunkStored.notAllocated {block : Nat} {hd : UnpackedHeader}
    (hst : ChunkStored cfg m block user (taggedPtr user t) hd)
    (hstate : hd.state ≠ State.allocated.field) (hu : user < 2^56) (h16 : 16 ≤ user) :
    NotAllocated m user := by
  have hword := hst.sealed
  rw [Sealed, headerWord_of_lt _ hu h16] at hword
  rw [NotAllocated, hword, unpack_pack]
  exact hstate

theorem NotAllocated.frame (hn : NotAllocated m user) {z : Range} (hs : m.SameOn m' z)
    (hlo : z.lo + 16 ≤ user) (hhi : user ≤ z.hi) : NotAllocated m' user := by
  have hdata : AgreeOn m.data m'.data (user - 16) (user - 16 + 8) := by
    intro a h1 h2
    exact hs.data a (by omega) (by omega)
  rw [NotAllocated, load_congr hdata]
  exact hn

/-- Whole pages hold a header or do not; a header of zeros is not that of an allocated chunk. -/
theorem NotAllocated.zeroPages (hn : NotAllocated m user) {lo n : Nat} (h16 : 16 ≤ user)
    (hu : user % 16 = 0) (hlo : lo % 16 = 0) (hsize : n % 16 = 0) :
    NotAllocated (m.zeroPages lo n) user := by
  by_cases hin : lo ≤ user - 16 ∧ user - 16 < lo + n
  · have hzero : IsZero (m.zeroPages lo n).data lo (lo+n) := Secondary.zeroPages_isZero _ _
    rw [NotAllocated, load_zero (hzero.mono (by omega) (by omega))]
    decide
  · have hag := (Mem.zeroPages_agreeOff m lo n).data
    rw [NotAllocated, load_congr (hag.on (by omega))]
    exact hn

theorem NotAllocated.loadAllocated (hn : NotAllocated m user) (hu : user < 2^56)
    (h16 : 16 ≤ user) (t : Nat) (action : AllocatorAction) :
    ∃ e, Combined.loadAllocated cfg m action (taggedPtr user t) = .error e := by
  have hword := headerWord_taggedPtr m (t := t) hu h16
  simp only [Combined.loadAllocated, Chunk.loadHeader, isValid, hword]
  rw [NotAllocated] at hn
  generalize unpack (load m.data (user - 16) 8) = hd at hn
  by_cases hc : hd.checksum = computeHeaderChecksum cfg.cookie (taggedPtr user t) hd
  · rw [if_pos hc]
    simp only [bind, Except.bind, if_pos hn]
    exact ⟨_, rfl⟩
  · rw [if_neg hc]
    exact ⟨_, rfl⟩

theorem NotAllocated.rejects (hn : NotAllocated h.mem user) (hu : user < 2^56) (h16 : 16 ≤ user)
    {ptr : Nat} (hne : ptr ≠ 0) (hptr : getHeaderTaggedPointer ptr = taggedPtr user t) :
    h.Rejects cfg ptr := by
  have hload (action : AllocatorAction) :
      ∃ e, Combined.loadAllocated cfg h.mem action (getHeaderTaggedPointer ptr) = .error e := by
    rw [hptr]
    exact hn.loadAllocated hu h16 t action
  have hsize : ∃ e, Combined.getAllocSize cfg h.mem ptr = .error e := by
    obtain ⟨e, he⟩ := hload .sizing
    simp only [Combined.getAllocSize, he]
    exact ⟨_, rfl⟩
  constructor
  · intro env origin deleteSize
    obtain ⟨e, he⟩ := hload .deallocating
    simp only [Combined.deallocate, if_neg hne, he]
    split
    · exact ⟨_, rfl⟩
    · exact ⟨_, rfl⟩
  · intro alloc free newSize alignment hlt
    obtain ⟨e, he⟩ := hload .reallocating
    simp only [Combined.reallocate, if_neg (show ¬ newSize ≥ maxAllowedMallocSize by omega), he]
    split
    · exact ⟨_, rfl⟩
    · exact ⟨_, rfl⟩
  · obtain ⟨e, he⟩ := hload .sizing
    simp only [Combined.getUsableSize, if_neg hne, he]
    split
    · exact hsize
    · exact ⟨_, rfl⟩
  · exact hsize

end NotAllocated

/-- The chunk is in the quarantine, or its block is free and its header stays behind. -/
def Heap.Vacated (h : Heap) (c block user : Nat) : Prop :=
  ((c, block) ∈ h.free ∧ NotAllocated h.mem user) ∨
    ∃ q ∈ h.chunks, q.status = .quarantined ∧ q.classId = c ∧ q.block = block ∧ q.user = user

section Vacated

variable {c block user : Nat}

theorem Heap.Inv.quarantined_notAllocated (hi : h.Inv R) {q : Holding} (hm : q ∈ h.chunks)
    (hq : q.status = .quarantined) : NotAllocated h.mem q.user := by
  have hok := hi.chunk_ok hm
  have hin := hok.header_in
  obtain ⟨hd, hst, hof⟩ := hok.header
  have hstate := hof.state
  rw [hq] at hstate
  apply ChunkStored.notAllocated hst _ hok.user_lt (by omega)
  rw [hstate]
  decide

theorem Heap.Vacated.notAllocated (hv : h.Vacated c block user) (hi : h.Inv R) :
    NotAllocated h.mem user := by
  rcases hv with ⟨-, hn⟩ | ⟨q, hm, hq, -, -, rfl⟩
  · exact hn
  · exact hi.quarantined_notAllocated hm hq

/-- A chunk stays in the quarantine until it is recycled. -/
theorem Outcome.quarantined {act : Act} (ho : Outcome R h act h') (hi : h.Inv R) {q : Holding}
    (hm : q ∈ h.chunks) (hq : q.status = .quarantined) : q ∈ h'.chunks ∨
      (q.classId, q.block) ∈ h'.free ∧ NotAllocated h'.mem q.user := by
  have hlive {r : Holding} (hl : r.status = .live) : q ≠ r := by
    intro heq
    rw [heq, hl] at hq
    exact Status.noConfusion hq
  cases ho with
  | allocated henv ha => exact .inl (List.mem_cons_of_mem _ hm)
  | freed hr hl hclock hag hof hd => exact .inl (dispose_mem hm (hlive hl) _)
  | resized hr hl hag hof hstay =>
    exact .inl (List.mem_cons_of_mem _ ((List.mem_erase_of_ne (hlive hl)).mpr hm))
  | moved hr hl hag hof hstay halloc hclock ha hd =>
    exact .inl (dispose_mem (List.mem_cons_of_mem _ hm) (hlive hl) _)
  | @recycled act r hd hr ha hst =>
    by_cases hne : q = r
    · subst hne
      have hok := hi.chunk_ok hm
      have hin := hok.header_in
      have hst' := hst.restore (availableHeader cfg q hd) (by simp only [availableHeader]; decide)
        hok.header_at hok.user_lt
      refine .inr ⟨List.mem_cons_self, ?_⟩
      exact ChunkStored.notAllocated hst' (by simp only [availableHeader]; decide) hok.user_lt
        (by omega)
    · exact .inl ((List.mem_erase_of_ne hne).mpr hm)
  | batched hb hmax => exact .inl (List.mem_cons_of_mem _ hm)
  | _ => exact .inl hm

/-- What one act keeps, unless it hands the block out. -/
theorem Outcome.vacated {act : Act} (ho : Outcome R h act h') (hi : h.Inv R)
    (hv : h.Vacated c block user) (hin : block + 16 ≤ user)
    (hfit : user ≤ block + cfg.sizeClassMap.getSizeByClassId c) (hu : user % 16 = 0)
    (hfree : ¬ h'.HandsOut block) : h'.Vacated c block user := by
  rcases hv with ⟨hm, hn⟩ | ⟨q, hm, hq, rfl, rfl, rfl⟩
  · obtain ⟨hm', hsame | ⟨lo, n, hlo, hsize, hmem⟩⟩ := ho.free_frame hi hm hfree
    · exact .inl ⟨hm', hn.frame hsame hin hfit⟩
    · rw [Heap.Vacated, hmem]
      exact .inl ⟨hm', hn.zeroPages (by omega) hu hlo hsize⟩
  · rcases ho.quarantined hi hm hq with hm' | ⟨hm', hn⟩
    · exact .inr ⟨q, hm', hq, rfl, rfl, rfl⟩
    · exact .inl ⟨hm', hn⟩

end Vacated

section Dispose

variable {r : Holding}

/-- A freed chunk of the primary leaves its block, or waits in the quarantine under its key. -/
theorem Heap.Inv.disposal (hi : h.Inv R) (hm : r ∈ h.chunks) (hc : r.classId ≠ 0)
    (hag : r.Agrees) {env : FreeEnv} {hd : UnpackedHeader} (hof : HeaderOf r hd) {d : Disposal}
    {m' : Mem} (hq : quarantineOrDeallocateChunk cfg h.opts env h.secondary h.mem r.ptr hd
      r.storedSize = (d, m')) :
    d = .toPrimary r.classId r.block ∧ NotAllocated m' r.user ∨
      ∃ n, d = .toQuarantine r.key n := by
  have hok := hi.chunk_ok hm
  have hin := hok.header_in
  obtain ⟨-, hst, -⟩ := freedMem_spec env r.storedSize hok hof Holding.storedSize_primary
  rcases quarantineOrDeallocateChunk_cases hok hag hof (fun ht hc => hi.tagged ht r hm hc) hq with
    ⟨-, -, hd, rfl⟩ | ⟨h0, -, -⟩ | ⟨-, -, hd, -⟩
  · exact .inl ⟨hd, ChunkStored.notAllocated hst (freedHeader_state env.call).1 hok.user_lt
      (by omega)⟩
  · exact absurd h0 hc
  · exact .inr ⟨_, hd⟩

theorem dispose_vacated (h : Heap) (hu : r.user < 2^56) {m : Mem} {d : Disposal}
    (hd : d = .toPrimary r.classId r.block ∧ NotAllocated m r.user ∨
      ∃ n, d = .toQuarantine r.key n) : (h.dispose r m d).Vacated r.classId r.block r.user := by
  rcases hd with ⟨rfl, hn⟩ | ⟨n, rfl⟩
  · exact .inl ⟨List.mem_cons_self, hn⟩
  · refine .inr ⟨_, List.mem_cons_self, rfl, rfl, rfl, ?_⟩
    simp only [Allocation.user, Holding.key]
    exact untagPointer_taggedPtr _ hu

end Dispose

/-- The act gives up the chunk `r`: a deallocation, or a reallocation that leaves its block. -/
def Act.Frees (r : Holding) (h' : Heap) : Act → Prop
  | .deallocate x _ _ _ => x = r
  | .reallocate x _ _ _ _ => x = r ∧ ¬ h'.HandsOut r.block
  | _ => False

/-- What a heap becomes while a block is not handed out again. -/
def WhileFree (R : Regions cfg) (block : Nat) (h : Heap) : Heap → Prop :=
  TransitionSystem.Reachable (· = h)
    (fun s a => Enabled R s a ∧ ∀ s', step R s a = .ok s' → ¬ s'.HandsOut block)
    fun s a s' => step R s a = .ok s'

theorem deallocate_vacated (hi : h.Inv R) {r : Holding} {env : FreeEnv} {origin : Origin}
    {deleteSize : Nat} (hm : r ∈ h.chunks) (hl : r.status = .live) (hc : r.classId ≠ 0)
    (hs : h.deallocate cfg r env origin deleteSize = .ok h') :
    r.Agrees ∧ h'.Vacated r.classId r.block r.user := by
  have hok := hi.chunk_ok hm
  simp only [Heap.deallocate] at hs
  cases hd : Combined.deallocate cfg h.opts env h.secondary h.mem r.ptr origin deleteSize with
  | error e =>
    rw [hd] at hs
    simp [bind, Except.bind] at hs
  | ok res =>
    obtain ⟨o, m'⟩ := res
    obtain ⟨hag, hdr, d, hof, rfl, hq⟩ := deallocate_ok hok hl hd
    rw [hd] at hs
    simp only [bind, Except.bind] at hs
    rw [← Except.ok.inj hs]
    exact ⟨hag, dispose_vacated h hok.user_lt (hi.disposal hm hc hag hof hq)⟩

theorem Outcome.reallocate_vacated (hi : h.Inv R) {r : Holding} {alloc : AllocEnv}
    {free : FreeEnv} {newSize k : Nat} (hm : r ∈ h.chunks) (hl : r.status = .live)
    (hc : r.classId ≠ 0) (ho : Outcome R h (.reallocate r alloc free newSize k) h')
    (hleft : ¬ h'.HandsOut r.block) : r.Agrees ∧ h'.Vacated r.classId r.block r.user := by
  have hlive : r.status ≠ .quarantined := by
    rw [hl]
    exact Status.noConfusion
  cases ho with
  | unchanged => exact absurd ⟨r, hm, hlive, rfl⟩ hleft
  | resized hr hl' hag hof hstay => exact absurd ⟨_, List.mem_cons_self, hlive, rfl⟩ hleft
  | moved hr hl' hag hof hstay halloc hclock ha hq =>
    obtain ⟨h2, -⟩ := hi.copied halloc ha (Nat.min_le_left newSize r.storedSize)
    have hd := h2.disposal (List.mem_cons_of_mem _ hm) hc hag hof hq
    exact ⟨hag, dispose_vacated _ (hi.chunk_ok hm).user_lt hd⟩
  | recycled hr ha hst =>
    rcases ha with ⟨ha, -⟩ | ⟨ha, -⟩
    · exact Act.noConfusion ha
    · exact Act.noConfusion ha

/-- Once a chunk of the primary was freed, every further call on its pointer is reported, whatever
happens to the heap, until its block is handed out again. -/
theorem freed_rejected (hr : Reachable R h) {r : Holding} {a : Act} {h₁ : Heap}
    (hc : r.classId ≠ 0) (ha : Enabled R h a) (hs : step R h a = .ok h₁) (hfrees : a.Frees r h₁)
    (hlater : WhileFree R r.block h₁ h') : h'.Rejects cfg r.ptr := by
  have hi := ReachableWith.inv hr
  have hstart : r ∈ h.chunks ∧ r.Agrees ∧ h₁.Vacated r.classId r.block r.user := by
    cases a with
    | deallocate x env origin deleteSize =>
      obtain rfl : x = r := hfrees
      exact ⟨ha.1, deallocate_vacated hi ha.1 ha.2.1 hc hs⟩
    | reallocate x alloc free newSize k =>
      obtain ⟨rfl, hleft⟩ := hfrees
      exact ⟨ha.1, Outcome.reallocate_vacated hi ha.1 ha.2.1 hc (step_outcome hi ha hs) hleft⟩
    | _ => exact absurd hfrees not_false
  obtain ⟨hm, hag, hv⟩ := hstart
  have hok := hi.chunk_ok hm
  have hin := hok.header_in
  have hfit := hok.user_in
  have hend := (hok.primary hc).blockEnd
  have hlast : h'.Inv R ∧ h'.Vacated r.classId r.block r.user := by
    apply TransitionSystem.Reachable.invariant _ _ hlater
    · intro s hstart
      rw [hstart]
      exact ⟨(step_outcome hi ha hs).inv hi, hv⟩
    · intro s b s' hinv hb hstep
      have ho := step_outcome hinv.1 hb.1 hstep
      exact ⟨ho.inv hinv.1, ho.vacated hinv.1 hinv.2 hin (by omega) hok.user_aligned
        (hb.2 s' hstep)⟩
  obtain ⟨t, ht, hptr⟩ := hok.ptr
  have hne : r.ptr ≠ 0 := by
    rw [hptr, taggedPtr]
    omega
  exact (hlast.2.notAllocated hlast.1).rejects hok.user_lt (by omega) hne hag

/-- A chunk whose block is free, and whose page the primary gave back. -/
theorem freed_rejected_pageReleased : ∃ h h₁ : Heap, firstChunk 5 ∈ h.chunks ∧
    h.deallocate defaultConfig (firstChunk 5) ⟨⟨none, 1, true⟩, ⟨1, false, false, 0, 0⟩⟩ .malloc 0 =
      .ok h₁ ∧
    ({ h₁ with mem := h₁.mem.zeroPages (2^31) 4096 } : Heap).Rejects defaultConfig
      (firstChunk 5).ptr := by
  have hrun : ∃ h, Reachable defaultRegions h ∧ firstChunk 5 ∈ h.chunks ∧
      ∃ h₁, h.deallocate defaultConfig (firstChunk 5)
        ⟨⟨none, 1, true⟩, ⟨1, false, false, 0, 0⟩⟩ .malloc 0 = .ok h₁ ∧ h₁.chunks = [] ∧
        h₁.secondary.cache.cached defaultConfig = [] :=
    ⟨_, .next (a := .allocate (firstEnv 5) 16 .malloc 4 false) (oneBlockHeap_reachable _ trivial)
      ⟨firstEnv_ok List.mem_cons_self 5 16 4, trivial⟩ rfl, List.mem_cons_self, _, rfl, by decide,
      by rfl⟩
  obtain ⟨h, hr, hm, h₁, hs, hchunks, hcached⟩ := hrun
  have hnone : ¬ ({ h₁ with mem := h₁.mem.zeroPages (2^31) 4096 } : Heap).HandsOut (2^31) := by
    intro hout
    obtain ⟨x, hx, -⟩ := hout
    rw [hchunks] at hx
    exact absurd hx List.not_mem_nil
  have hlater : WhileFree defaultRegions (2^31) h₁
      { h₁ with mem := h₁.mem.zeroPages (2^31) 4096 } := by
    have hstart : WhileFree defaultRegions (2^31) h₁ h₁ := .start rfl
    apply hstart.next (a := .releasePages (2^31) 4096) _ rfl
    refine ⟨⟨by decide, by decide, ?_, ?_⟩, ?_⟩
    · rw [hchunks]
      exact fun _ hx => absurd hx List.not_mem_nil
    · rw [hcached]
      exact fun _ he => absurd he List.not_mem_nil
    · intro s hstep
      rw [← Except.ok.inj hstep]
      exact hnone
  exact ⟨h, h₁, hm, hs, freed_rejected (r := firstChunk 5) (a := .deallocate (firstChunk 5)
    ⟨⟨none, 1, true⟩, ⟨1, false, false, 0, 0⟩⟩ .malloc 0) hr (by decide)
    ⟨hm, rfl, by decide⟩ hs rfl hlater⟩

end ScudoMte
