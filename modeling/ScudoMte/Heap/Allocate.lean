import ScudoMte.Combined.AllocateFrame
import ScudoMte.Heap.Invariant

namespace ScudoMte

open ByteMemory Ownership Chunk Combined

variable {cfg : Config} {R : Regions cfg} {h : Heap}

/-- Where the block of an allocation comes from. -/
theorem allocateBlock_cases {opts : Options} {env : AllocEnv} {s s' : Secondary} {m m' : Mem}
    {size k classId block blockEnd : Nat} {fill : FillContentsMode} (hsize : size < 2^40)
    (hk4 : 4 ≤ k) (hk : k ≤ 24) (hblocks : PrimaryBlocksOk cfg env.primaryBlock)
    (h : allocateBlock cfg opts env s m size (2^k) fill =
      (some (classId, block, blockEnd), s', m')) :
    (allocatePrimary cfg.sizeClassMap env.primaryBlock (neededSize size (2^k)) =
        some (classId, block) ∧ 1 ≤ classId ∧ env.primaryBlock classId = some block ∧
        s' = s ∧ m' = m) ∨
    (classId = 0 ∧ allocatePrimary cfg.sizeClassMap env.primaryBlock (neededSize size (2^k)) = none ∧
        s.allocate cfg opts env.secondary m size (2^k) fill = (some (block, blockEnd), s', m')) := by
  simp only [allocateBlock] at h
  split at h
  · next c b hp =>
    simp only [Prod.mk.injEq, Option.some.injEq] at h
    obtain ⟨⟨rfl, rfl, rfl⟩, rfl, rfl⟩ := h
    obtain ⟨hc, hb, -⟩ := allocatePrimary_serves cfg hsize hk4 hk hblocks hp
    exact .inl ⟨hp, hc, hb, rfl, rfl⟩
  · next hn =>
    split at h
    · next b e s1 m1 hsec =>
      simp only [Prod.mk.injEq, Option.some.injEq] at h
      obtain ⟨⟨rfl, rfl, rfl⟩, rfl, rfl⟩ := h
      exact .inr ⟨rfl, hn, hsec⟩
    · simp at h

/-- What an allocation relies on follows from the invariant. -/
theorem Heap.Inv.primaryBlocksOk (hi : h.Inv R) {env : AllocEnv} {size k : Nat}
    (henv : env.Ok R h size k) : PrimaryBlocksOk cfg env.primaryBlock := by
  intro c block hb
  have hf := hi.free_ok (henv.primaryBlock c block hb)
  exact ⟨hf.aligned, hf.lt⟩

theorem Heap.Inv.secondaryOk (hi : h.Inv R) {env : AllocEnv} {size k : Nat}
    (henv : env.Ok R h size k) : SecondaryOk cfg env.secondary h.secondary := by
  refine ⟨?_, ?_⟩
  · intro i hm
    have hc := (hi.lru_ok hm).committed
    have := hc.end_le
    have := hc.lt
    omega
  · intro b hb
    obtain ⟨-, hdvd, hlt, -⟩ := henv.mapBase b hb
    exact ⟨hdvd, hlt⟩

/-- An allocation that succeeded, seen from the heap that it started in. -/
structure Allocated (cfg : Config) (h : Heap) (env : AllocEnv) (size k : Nat) (origin : Origin)
    (fill : FillContentsMode) (a : Allocation) (s' : Secondary) (m m' : Mem) : Prop where
  serves : BlockServes cfg size (2^k) a.classId a.block a.blockEnd
  size_eq : a.size = size
  user : a.user = roundUp (a.block + getHeaderSize) (2^k)
  ptr : a.ptr = taggedPtr a.user (pointerTag h.opts env.call a.classId)
  init : initAllocation cfg h.opts env.call m size (2^k) origin fill a.classId a.block a.blockEnd =
    (a, m')
  block : allocateBlock cfg h.opts env h.secondary h.mem size (2^k) fill =
    (some (a.classId, a.block, a.blockEnd), s', m)

theorem allocated_of_allocate (hi : h.Inv R) {env : AllocEnv} {size k : Nat} {origin : Origin}
    {zeroContents : Bool} {a : Allocation} {s' : Secondary} {m' : Mem} (henv : env.Ok R h size k)
    (ha : Combined.allocate cfg h.opts env h.secondary h.mem size origin (2^k) zeroContents =
      .ok (some a, s', m')) :
    k ≤ 24 ∧ size < 2^40 ∧ ∃ m, Allocated cfg h env size (max k 4) origin
      (fillContentsMode h.opts zeroContents env.call.disableMemInit) a s' m m' := by
  obtain ⟨hk, hsize, m, hblock, hinit⟩ := allocate_some ha
  have hserves := allocateBlock_serves hsize (by omega) (by omega) (hi.primaryBlocksOk henv)
    (hi.secondaryOk henv) hblock
  have hptr := @initAllocation_ptr cfg h.opts env.call m size _ origin
    (fillContentsMode h.opts zeroContents env.call.disableMemInit) _ _ _ hserves
  have hfits := hserves.fits
  have hend := hserves.end_lt
  rw [hinit] at hptr
  have huser : a.user = roundUp (a.block + getHeaderSize) (2^(max k 4)) := by
    rw [Allocation.user, hptr, untagPointer_taggedPtr _ (by omega)]
  have hsz : a.size = size := by
    have := congrArg (fun p => p.1.size) hinit
    simpa [initAllocation] using this.symm
  exact ⟨hk, hsize, m, hserves, hsz, huser, by rw [huser]; exact hptr, hinit, hblock⟩

section Allocated

variable {env : AllocEnv} {size k : Nat} {origin : Origin} {fill : FillContentsMode}
  {a : Allocation} {s' : Secondary} {m m' : Mem}

theorem headerTag_cases (opts : Options) (classId : Nat) :
    headerTag opts classId = 0 ∧ opts.useMemoryTagging = true ∧ classId ≠ 0 ∨
      headerTag opts classId = 2 ∧ (opts.useMemoryTagging = false ∨ classId = 0) := by
  unfold headerTag
  split
  · next hc => exact .inl ⟨rfl, hc.1, hc.2⟩
  · next hc =>
    refine .inr ⟨rfl, ?_⟩
    rw [not_and_or] at hc
    simpa using hc

theorem pointerTag_lt (opts : Options) (env : CallEnv) (classId : Nat) :
    pointerTag opts env classId < 16 := by
  unfold pointerTag
  split
  · exact Nat.mod_lt _ (by decide)
  · decide

theorem pointerTag_eq_zero {opts : Options} {env : CallEnv} {classId : Nat}
    (h : opts.useMemoryTagging = false ∨ classId = 0) : pointerTag opts env classId = 0 := by
  unfold pointerTag
  rw [if_neg]
  rintro ⟨h1, h2⟩
  rcases h with h | h
  · rw [h] at h1
    exact absurd h1 (by decide)
  · exact h2 h

theorem Allocated.blockEnd_aligned (ha : Allocated cfg h env size k origin fill a s' m m')
    (hsec : a.classId = 0 → a.blockEnd % 16 = 0) : a.blockEnd % 16 = 0 := by
  by_cases hc : a.classId = 0
  · exact hsec hc
  · have hb := ha.serves.block_aligned
    have hs := cfg.sizeClassMap.size_aligned a.classId (by omega) ha.serves.class_le
    rw [ha.serves.primary hc]
    omega

/-- The chunk of an allocation is in order, once its place is. -/
theorem Allocated.holding_ok (ha : Allocated cfg h env size k origin fill a s' m m') (hk4 : 4 ≤ k)
    (hsec : a.classId = 0 → a.blockEnd % 16 = 0)
    (hplace : PrimaryChunk cfg (.ofAllocation h.opts m' a) ∨
      SecondaryChunk h.opts.useMemoryTagging m' (.ofAllocation h.opts m' a)) :
    (Holding.ofAllocation h.opts m' a).Ok cfg h.opts.useMemoryTagging m' := by
  have hserves := ha.serves
  have hal : 16 ∣ 2^k := Nat.pow_dvd_pow 2 hk4
  have hfits := hserves.fits
  have hend := hserves.end_lt
  have hoff := hserves.offset_lt
  have hhead := hserves.header
  have hmod := hserves.user_mod hal
  have hstored := @initAllocation_stored cfg h.opts env.call m size _ origin fill _ _ _ hserves hal
  have hkey := @initAllocation_headerKey cfg h.opts env.call m size _ origin fill _ _ _ hserves
  rw [ha.init] at hstored hkey
  rw [← ha.user] at hfits hoff hhead hmod hstored hkey
  have huser : (Holding.ofAllocation h.opts m' a).user = a.user := rfl
  refine ⟨hserves.block_aligned, hmod, hhead, ?_, ha.blockEnd_aligned hsec, hend, hoff,
    ⟨_, pointerTag_lt _ _ _, ha.ptr⟩, fun hn => absurd rfl hn, hplace, ⟨_, hstored, ?_⟩, hkey⟩
  · rw [huser]
    simp only [Holding.ofAllocation, ha.size_eq]
    exact hfits
  · refine ⟨?_, rfl, ?_, ?_⟩
    · have := cfg.sizeClassMap.largest_lt
      have := hserves.class_le
      simp only [chunkHeader, bitField_val, Holding.ofAllocation]
      omega
    · exact chunkHeader_offset _ _ _ hhead hserves.block_aligned hmod hoff
    · simp only [chunkHeader, Holding.sizeOrUnused, huser, initialSizeOrUnused, ← ha.user]
      simp only [Holding.ofAllocation, ha.size_eq]
      split
      · rfl
      · rw [wrapSub_of_le hfits (by omega)]

theorem Allocated.agreeOff (ha : Allocated cfg h env size k origin fill a s' m m') (hk4 : 4 ≤ k)
    (hend16 : a.blockEnd % 16 = 0) : m.AgreeOff m' a.block a.blockEnd := by
  have hag := @initAllocation_agreeOff cfg h.opts env.call m size _ origin fill _ _ _ ha.serves
    (Nat.pow_dvd_pow 2 hk4) hend16
  rwa [ha.init] at hag

/-- A primary chunk takes the place of its free block. -/
theorem Allocated.primary_owns (hi : h.Inv R) (ha : Allocated cfg h env size k origin fill a s' m m')
    (hk4 : 4 ≤ k) (hc : 1 ≤ a.classId) (hfree : (a.classId, a.block) ∈ h.free) (hm : m = h.mem) :
    Owns cfg h.opts.useMemoryTagging m' (ownersOf R (.ofAllocation h.opts m' a :: h.chunks)
      h.secondary.cache (h.free.erase (a.classId, a.block)) h.carved) := by
  have hend := ha.serves.primary (by omega)
  have hend16 := ha.blockEnd_aligned (by omega)
  have hag := ha.agreeOff hk4 hend16
  have hmap : (Holding.ofAllocation h.opts m' a).map =
      ⟨a.block, cfg.sizeClassMap.getSizeByClassId a.classId⟩ := by
    simp only [Holding.ofAllocation, hend, Nat.add_sub_cancel_left]
    rw [if_pos (by omega)]
  have hplace : PrimaryChunk cfg (.ofAllocation h.opts m' a) := by
    refine ⟨hc, ha.serves.class_le, hend, hmap, ?_, nofun⟩
    rcases headerTag_cases h.opts a.classId with ⟨h0, -, -⟩ | ⟨h2, ho⟩
    · exact .inl h0
    · refine .inr ⟨h2, fun _ => ?_⟩
      have hptr := ha.ptr
      rw [pointerTag_eq_zero ho, taggedPtr_zero] at hptr
      exact hptr
  have hzone : (Owner.chunk (.ofAllocation h.opts m' a)).zone cfg =
      (Owner.free a.classId a.block).zone cfg := by
    simp only [Owner.zone, hmap]
    rfl
  rw [hm, hend] at hag
  have hown := Owned.perm hi.owned (ownersOf_free hfree)
  refine Owns.update hown hag (ha.holding_ok hk4 (by omega) (.inl hplace)) ?_
  rw [hzone]
  exact .refl _

/-- The chunk of a block that the secondary served. -/
theorem Allocated.secondary_place (ha : Allocated cfg h env size k origin fill a s' m m')
    (hk4 : 4 ≤ k) (hc : a.classId = 0) {map : Secondary.MemMap} {m0 : Mem}
    (hserved : Secondary.Served h.opts fill m0 m map a.block a.blockEnd) :
    (Holding.ofAllocation h.opts m' a).map = map ∧ a.blockEnd % 16 = 0 ∧
      m0.AgreeOff m' map.range.lo map.range.hi ∧
      SecondaryChunk h.opts.useMemoryTagging m' (.ofAllocation h.opts m' a) := by
  obtain ⟨⟨cb, hl, htags⟩, hag, -⟩ := hserved
  have hcom := hl.committed
  have hb16 := hcom.base_aligned
  have hs16 := hcom.size_aligned
  have hin := hl.header_in
  have hbe := hl.block_in
  have hbase := hcom.base_le
  have hce := hcom.end_le
  rw [Secondary.largeHeaderSize] at hin
  have hend16 : a.blockEnd % 16 = 0 := by omega
  have hag' := ha.agreeOff hk4 hend16
  have hl' := hl.frame (hag'.data.on (.inl (le_refl _)))
  have hmap : (Holding.ofAllocation h.opts m' a).map = map := by
    simp only [Holding.ofAllocation, hc, ne_eq, not_true_eq_false, if_false]
    exact hl'.memMap_eq
  have huser : (Holding.ofAllocation h.opts m' a).user = a.block + 16 :=
    ha.user.trans (ha.serves.secondary hc)
  refine ⟨hmap, hend16, hag.trans (hag'.mono ?_ ?_), hc, rfl, ?_, ?_, huser, cb, ?_, ?_⟩
  · simp only [Secondary.MemMap.range]
    omega
  · simp only [Secondary.MemMap.range]
    omega
  · have hptr := ha.ptr
    rw [pointerTag_eq_zero (.inr hc), taggedPtr_zero] at hptr
    exact hptr
  · simp [Holding.ofAllocation, Combined.headerTag, hc]
  · rw [hmap]
    exact hl'
  · intro ht
    obtain ⟨h2, h0⟩ := htags ht
    have hs := ha.serves
    have hinit := ha.init
    rw [hc] at hs hinit
    have htag (g : Nat) := @initAllocation_secondary_tag cfg h.opts env.call m size _ origin fill _ _
      hs ht g
    rw [hinit] at htag
    have hal := hl.aligned
    refine ⟨?_, ?_, ?_⟩
    · intro g h1 h2'
      rw [htag, if_neg (by simp only [Holding.ofAllocation] at h2'; omega)]
      exact h2 g h1 h2'
    · intro g h1 h2'
      rw [huser] at h2'
      rw [htag, if_pos (by simp only [Holding.ofAllocation] at h1; omega)]
    · intro g h1 h2'
      rw [huser] at h1
      rw [htag, if_neg (by omega)]
      exact h0 g (by omega) h2'

/-- A secondary chunk takes over a cached mapping, or moves into a new one. -/
theorem Allocated.secondary_owns (hi : h.Inv R)
    (ha : Allocated cfg h env size k origin fill a s' m m') (hk4 : 4 ≤ k) (hk : k ≤ 24)
    (hsize : size < 2^40) (hc : a.classId = 0)
    (hbase : ∀ b, env.secondary.mapBase = some b → 0 < b ∧ cfg.pageSize ∣ b ∧ b < 2^47 ∧
      ∀ o ∈ h.owners R, (Secondary.reservation cfg h.opts size (2^k) b).range.Disjoint (o.zone cfg))
    (hsec : h.secondary.allocate cfg h.opts env.secondary h.mem size (2^k) fill =
      (some (a.block, a.blockEnd), s', m)) :
    Owns cfg h.opts.useMemoryTagging m' (ownersOf R (.ofAllocation h.opts m' a :: h.chunks) s'.cache
      h.free h.carved) ∧ Linked s'.cache ∧
    s'.inUseBlocks = h.secondary.inUseBlocks ++ [Secondary.getHeader a.block] := by
  obtain ⟨map, hserved, hin, hmap⟩ := Secondary.allocate_served hk4 hk hsize
    (fun i hm => hi.lru_ok hm) (fun b hb => ⟨(hbase b hb).1, (hbase b hb).2.1, (hbase b hb).2.2.1⟩)
    hsec
  obtain ⟨hrmap, hend16, hag, hplace⟩ := ha.secondary_place hk4 hc hserved
  have hok := ha.holding_ok hk4 (fun _ => hend16) (.inr hplace)
  have hzone : (Owner.chunk (.ofAllocation h.opts m' a)).zone cfg = map.range := by
    simp only [Owner.zone, hrmap]
  rcases hmap with ⟨i, him, rfl, hcache⟩ | ⟨b, hb, rfl, hcache⟩
  · have hl := hi.linked
    have hperm := cacheOwners_remove cfg (List.nodup_append.mp hl.nodup).1 him
    rw [← hcache] at hperm
    refine ⟨?_, by rw [hcache]; exact hl.remove him, hin⟩
    have hown := Owned.perm hi.owned (ownersOf_cached hperm)
    refine Owns.update hown hag hok ?_
    rw [hzone]
    exact .refl _
  · rw [hcache]
    refine ⟨?_, hi.linked, hin⟩
    refine @Owns.add _ _ _ _ _ [_] _ hi.owned (hbase b hb).2.2.2 hag (.singleton hok) ?_
    intro n hn
    rw [List.mem_singleton.mp hn, hzone]
    exact .refl _

end Allocated

/-- An allocation keeps the invariant. -/
theorem Heap.Inv.addAllocation (hi : h.Inv R) {env : AllocEnv} {size k : Nat} {origin : Origin}
    {zeroContents : Bool} {a : Allocation} {s' : Secondary} {m' : Mem} (henv : env.Ok R h size k)
    (ha : Combined.allocate cfg h.opts env h.secondary h.mem size origin (2^k) zeroContents =
      .ok (some a, s', m')) :
    (h.addAllocation s' m' a).Inv R := by
  obtain ⟨hk, hsize, m, hal⟩ := allocated_of_allocate hi henv ha
  have hcases := allocateBlock_cases hsize (by omega) (by omega) (hi.primaryBlocksOk henv) hal.block
  have hheader := headerTag_cases h.opts a.classId
  have htagged : h.opts.useMemoryTagging → ∀ r ∈ (h.addAllocation s' m' a).chunks,
      r.classId ≠ 0 → r.headerTag = 0 := by
    intro ht r hr hc
    rcases List.mem_cons.mp hr with rfl | hr
    · rcases hheader with ⟨h0, -, -⟩ | ⟨-, hf | hf⟩
      · exact h0
      · rw [hf] at ht
        exact absurd ht (by decide)
      · exact absurd hf hc
    · exact hi.tagged ht r hr hc
  have huntagged : cfg.systemSupportsMemoryTagging = false → h.opts.useMemoryTagging = false ∧
      ∀ r ∈ (h.addAllocation s' m' a).chunks, r.status = .live → r.headerTag = 2 := by
    intro hs
    obtain ⟨hf, hall⟩ := hi.untagged hs
    refine ⟨hf, ?_⟩
    intro r hr hl
    rcases List.mem_cons.mp hr with rfl | hr
    · rcases hheader with ⟨-, ht, -⟩ | ⟨h2, -⟩
      · rw [hf] at ht
        exact absurd ht (by decide)
      · exact h2
    · exact hall r hr hl
  rcases hcases with ⟨-, hc, hb, rfl, hm⟩ | ⟨hc, -, hsec⟩
  · have hfree := henv.primaryBlock _ _ hb
    refine ⟨hal.primary_owns hi (by omega) hc hfree hm, ?_, hi.fits, ?_, hi.linked, htagged,
      huntagged⟩
    · have hf : (Holding.ofAllocation h.opts m' a).classId ≠ 0 := Nat.pos_iff_ne_zero.mp hc
      refine List.Perm.trans ?_ hi.blocks
      simp only [Heap.addAllocation, primaryBlocks_cons_of_ne hf, List.cons_append]
      exact List.perm_middle.symm.trans ((List.perm_cons_erase hfree).symm.append_left _)
    · have hf : (Holding.ofAllocation h.opts m' a).classId ≠ 0 := Nat.pos_iff_ne_zero.mp hc
      simp only [Heap.addAllocation, largeHeaders_cons_of_ne hf]
      exact hi.inUse
  · obtain ⟨hown, hlinked, hin⟩ := hal.secondary_owns hi (by omega) (by omega) hsize hc
      henv.mapBase hsec
    have hfree : h.free.erase (a.classId, a.block) = h.free := by
      rw [hc]
      exact List.erase_of_not_mem (hi.not_free_zero _)
    have hf : (Holding.ofAllocation h.opts m' a).classId = 0 := hc
    refine ⟨?_, ?_, hi.fits, ?_, hlinked, htagged, huntagged⟩
    · simp only [Heap.owners, Heap.addAllocation, hfree]
      exact hown
    · simp only [Heap.addAllocation, primaryBlocks_cons_of_zero hf, hfree]
      exact hi.blocks
    · simp only [Heap.addAllocation, largeHeaders_cons_of_zero hf, hin]
      exact List.perm_append_comm.trans (hi.inUse.cons _)

/-- A failed allocation changes nothing. -/
theorem allocate_none {opts : Options} {env : AllocEnv} {s s' : Secondary} {m m' : Mem}
    {size k : Nat} {origin : Origin} {zeroContents : Bool}
    (h : Combined.allocate cfg opts env s m size origin (2^k) zeroContents = .ok (none, s', m')) :
    s' = s ∧ m' = m := by
  simp only [Combined.allocate] at h
  split at h
  · split at h
    · simp only [Except.ok.injEq, Prod.mk.injEq, true_and] at h
      exact ⟨h.1.symm, h.2.symm⟩
    · simp at h
  · split at h
    · split at h
      · simp only [Except.ok.injEq, Prod.mk.injEq, true_and] at h
        exact ⟨h.1.symm, h.2.symm⟩
      · simp at h
    · split at h
      · next s1 m1 hb =>
        split at h
        · simp only [Except.ok.injEq, Prod.mk.injEq, true_and] at h
          obtain ⟨rfl, rfl⟩ := h
          simp only [allocateBlock] at hb
          split at hb
          · simp at hb
          · split at hb
            · simp at hb
            · next s2 m2 hsec =>
              simp only [Prod.mk.injEq, true_and] at hb
              obtain ⟨rfl, rfl⟩ := hb
              rw [max_minAlignment] at hsec
              rcases Secondary.allocate_cases hsec (Nat.pow_le_pow_right (by decide)
                (Nat.le_max_right k 4) : 2^4 ≤ 2^(max k 4)) with ⟨-, h1, h2⟩ | ⟨_, hr, _⟩ | ⟨_, _, hr, _⟩
              · exact ⟨h1, h2⟩
              · simp at hr
              · simp at hr
        · simp at h
      · simp at h

end ScudoMte
