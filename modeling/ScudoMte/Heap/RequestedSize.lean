import ScudoMte.Heap.HeaderAgreement

namespace ScudoMte

open ByteMemory Ownership Chunk Combined

variable {cfg : Config} {R : Regions cfg} {h h' : Heap}

/-- An act leaves fewer than 2^20 bytes unused behind each chunk of the secondary that it hands
out or resizes, which is what the size field of a header can hold. -/
structure UnusedFits (cfg : Config) (h : Heap) (act : Act) : Prop where
  allocated : ∀ env size k fill block blockEnd s' m', act.Allocates cfg env size k →
    allocateBlock cfg h.opts env h.secondary h.mem size (2^(max k 4)) fill =
      (some (0, block, blockEnd), s', m') → blockEnd - (block + 16 + size) < 2^20
  resized : ∀ r alloc free newSize k, act = .reallocate r alloc free newSize k → r.classId = 0 →
    r.StaysInPlace cfg newSize → r.blockEnd - (r.user + newSize) < 2^20

/-- The allocator knows the size of a chunk: what it tells the program, and what `reallocate`
takes for the old size, is what the program asked for. -/
structure Holding.SizeKept (cfg : Config) (m : Mem) (r : Holding) : Prop where
  allocSize : getAllocSize cfg m r.ptr = .ok r.size
  oldSize : ∃ hd, loadAllocated cfg m .reallocating (getHeaderTaggedPointer r.ptr) = .ok hd ∧
    (reallocSizes cfg m r.ptr hd).2 = r.size

/-- The size of a live chunk is known exactly when its header is found and its unused bytes fit. -/
theorem Holding.Ok.sizeKept_iff {tagging : Bool} {m : Mem} {r : Holding} (hr : r.Ok cfg tagging m)
    (hl : r.status = .live) : r.SizeKept cfg m ↔
      r.Agrees ∧ (r.classId = 0 → r.blockEnd - (r.user + r.size) < 2^20) := by
  rw [← hr.storedSize_eq_iff]
  constructor
  · intro hk
    by_cases hag : r.Agrees
    · refine ⟨hag, ?_⟩
      obtain ⟨hd, hof, hload⟩ := hr.loadAllocated hl hag .sizing
      have hsize := hk.allocSize
      simp only [getAllocSize, hload, bind, Except.bind] at hsize
      rw [← Except.ok.inj hsize, hag]
      exact (hr.getSize hof r.headerTag).symm
    · have hsize := hk.allocSize
      simp [getAllocSize, hr.loadAllocated_disagree hl hag .sizing, bind, Except.bind] at hsize
  · rintro ⟨hag, hsize⟩
    obtain ⟨hd, hof, hload⟩ := hr.loadAllocated hl hag .sizing
    obtain ⟨hd', hof', hload'⟩ := hr.loadAllocated hl hag .reallocating
    refine ⟨?_, hd', hload', ?_⟩
    · simp only [getAllocSize, hload, bind, Except.bind]
      rw [hag, Holding.key, hr.getSize hof r.headerTag, hsize]
    · rw [hr.reallocSizes hof']
      exact hsize

/-- Unused bytes fit behind every new chunk whose alignment is at most 2^19. -/
theorem allocateBlock_unused {opts : Options} {env : AllocEnv} {s s' : Secondary} {m m' : Mem}
    {size k block blockEnd : Nat} {fill : FillContentsMode} (hsize : size < 2^40) (hk4 : 4 ≤ k)
    (hk : k ≤ 19) (hblocks : PrimaryBlocksOk cfg env.primaryBlock)
    (hok : SecondaryOk cfg env.secondary s)
    (h : allocateBlock cfg opts env s m size (2^k) fill = (some (0, block, blockEnd), s', m')) :
    blockEnd - (block + 16 + size) < 2^20 := by
  have hk19 : 2^k ≤ 2^19 := Nat.pow_le_pow_right (by decide) hk
  rcases allocateBlock_cases hsize hk4 (by omega) hblocks h with ⟨-, h1, -⟩ | ⟨-, -, hsec⟩
  · omega
  · obtain ⟨-, hlt⟩ := allocateSecondary_serves hsize hk4 (by omega) hok hsec
    omega

theorem LiveFrom.unused {act : Act} {x : Holding} (hf : LiveFrom cfg h act x)
    (hok : UnusedFits cfg h act) (hold : ∀ r ∈ h.chunks, r.status = .live → r.classId = 0 →
      r.blockEnd - (r.user + r.size) < 2^20) (hl : x.status = .live) (hc : x.classId = 0) :
    x.blockEnd - (x.user + x.size) < 2^20 := by
  cases hf with
  | old hm => exact hold x hm hl hc
  | @resized r alloc free newSize k heq hm hl hstay =>
    exact hok.resized r alloc free newSize k heq hc hstay
  | @new r env size k hal hk hsize hg =>
    obtain ⟨origin, fill, a, s', m1, m', m'', hgr, rfl⟩ := hg
    have hc0 : a.classId = 0 := hc
    have hblock := hgr.block
    rw [hc0] at hblock
    have huser : a.user = a.block + 16 := hgr.user.trans (hgr.serves.secondary hc0)
    have hfit := hok.allocated env size k fill a.block a.blockEnd s' m1 hal hblock
    have hgoal : a.blockEnd - (a.user + a.size) < 2^20 := by
      rw [huser, hgr.size_eq]
      exact hfit
    exact hgoal

theorem ReachableWith.unused {ok : Heap → Act → Prop} (hok : ∀ h a, ok h a → UnusedFits cfg h a)
    (hr : ReachableWith R ok h) : ∀ r ∈ h.chunks, r.status = .live → r.classId = 0 →
      r.blockEnd - (r.user + r.size) < 2^20 := by
  refine ReachableWith.invariant (P := fun h => ∀ r ∈ h.chunks, r.status = .live →
    r.classId = 0 → r.blockEnd - (r.user + r.size) < 2^20) ?_ ?_ hr
  · intro h h0 r hm
    rw [h0.chunks] at hm
    exact nomatch hm
  · intro h a h' hi hold ha hoka ho r hm hl hc
    exact (ho.live hi hm hl).unused (hok h a hoka) hold hl hc

/-- In every run whose acts leave few enough bytes unused, and draw no tag 0, the allocator knows
the size of every live chunk. -/
theorem sizeKept_of_unusedFits
    (hr : ReachableWith R (fun h act => DrawsTag cfg h act ∧ UnusedFits cfg h act) h) :
    ∀ r ∈ h.chunks, r.status = .live → r.SizeKept cfg h.mem := by
  intro r hm hl
  have hag := ReachableWith.agrees (TransitionSystem.Reachable.mono
    (fun _ _ h => ⟨h.1, h.2.1⟩) hr) r hm hl
  have hfit := hr.unused (fun _ _ h => h.2) r hm hl
  exact ((hr.inv.chunk_ok hm).sizeKept_iff hl).mpr ⟨hag, hfit⟩

set_option maxRecDepth 2000 in
/-- A chunk of 2^17 bytes in a mapping of its own, and one of 16 bytes under tag 5. -/
theorem sizeKept_twoChunks : ∃ h : Heap, ∃ r₁ ∈ h.chunks, ∃ r₂ ∈ h.chunks,
    (r₁.status = .live ∧ r₁.classId = 1 ∧ r₁.size = 16 ∧ r₁.SizeKept defaultConfig h.mem) ∧
    (r₂.status = .live ∧ r₂.classId = 0 ∧ r₂.size = 2^17 ∧ r₂.SizeKept defaultConfig h.mem) := by
  have hlargeTag : DrawsTag defaultConfig startHeap (.allocate mappingEnv (2^17) .malloc 4 false) := by
    rintro - env size k ⟨rfl, rfl, rfl⟩ ⟨-, -, hserved⟩
    exact absurd hserved (by decide)
  have hlargeFits : UnusedFits defaultConfig startHeap (.allocate mappingEnv (2^17) .malloc 4 false) := by
    refine ⟨?_, fun _ _ _ _ _ hact => Act.noConfusion hact⟩
    rintro env size k fill block blockEnd s' m' ⟨rfl, rfl, rfl⟩ hblock
    have hserved : (allocateBlock defaultConfig startHeap.opts mappingEnv startHeap.secondary
      startHeap.mem (2^17) (2^(max 4 4)) fill).1 = some (0, 35184373145584, 35184373276672) := rfl
    rw [hblock] at hserved
    cases hserved
    decide
  have hlarge : ReachableWith defaultRegions
      (fun h act => DrawsTag defaultConfig h act ∧ UnusedFits defaultConfig h act) _ :=
    .next (a := .allocate mappingEnv (2^17) .malloc 4 false) (.start startHeap_init)
      ⟨mappingEnv_ok startHeap_init _ _, hlargeTag, hlargeFits⟩ rfl
  have hpopulated : ReachableWith defaultRegions
      (fun h act => DrawsTag defaultConfig h act ∧ UnusedFits defaultConfig h act) _ :=
    .next (a := .populate 1) hlarge ⟨⟨by decide, by decide⟩, fun _ _ _ _ hal => hal.elim,
      fun _ _ _ _ _ _ _ _ hal => hal.elim,
      fun _ _ _ _ _ hact => Act.noConfusion hact⟩ rfl
  have hfree : (1, 2^31) ∈ [(1, 2^31)] := List.mem_cons_self
  have hsmall : ReachableWith defaultRegions
      (fun h act => DrawsTag defaultConfig h act ∧ UnusedFits defaultConfig h act) _ :=
    .next (a := .allocate (firstEnv 5) 16 .malloc 4 false) hpopulated
      ⟨firstEnv_ok hfree 5 16 4, ?_, ?_,
        fun _ _ _ _ _ hact => Act.noConfusion hact⟩ rfl
  · have hkept := sizeKept_of_unusedFits hsmall
    exact ⟨_, _, List.mem_cons_self, _, List.mem_cons_of_mem _ List.mem_cons_self,
      ⟨rfl, rfl, rfl, hkept _ List.mem_cons_self rfl⟩,
      rfl, rfl, rfl, hkept _ (List.mem_cons_of_mem _ List.mem_cons_self) rfl⟩
  · rintro - env size k ⟨rfl, rfl, rfl⟩ -
    decide
  · rintro env size k fill block blockEnd s' m' ⟨rfl, rfl, rfl⟩ hblock
    have hclass := congrArg Prod.fst hblock
    change some (1, 2^31, 2^31 + 32) = some (0, block, blockEnd) at hclass
    cases hclass

/-- A chunk of 16 bytes aligned to 2^24, with tagging off: 2^20 bytes and more are unused behind
it, and its size comes out wrong by 2^20. -/
theorem sizeKept_overaligned : ∃ h, Reachable defaultRegions h ∧ ∃ r ∈ h.chunks,
    r.status = .live ∧ r.size = 16 ∧
      getAllocSize defaultConfig h.mem r.ptr = .ok (2^20 + 16) := by
  refine ⟨_, .next (a := .allocate mappingEnv 16 .malloc 24 false) (.start untaggedHeap_init)
    ⟨mappingEnv_ok untaggedHeap_init 16 24, trivial⟩ rfl, _, List.mem_cons_self, rfl, rfl, ?_⟩
  rfl

end ScudoMte
