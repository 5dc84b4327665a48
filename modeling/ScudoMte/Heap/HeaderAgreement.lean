import ScudoMte.Heap.LiveChunks

namespace ScudoMte

open ByteMemory Ownership Chunk Combined

variable {cfg : Config} {R : Regions cfg} {h h' : Heap}

/-- The reports of a header that does not check out or is in the wrong state. -/
def Report.OfHeader : Report → Prop
  | .headerCorruption _ => True
  | .invalidChunkState _ _ => True
  | _ => False

/-- The request goes to the primary, which has a block for it. -/
def ServedByPrimary (cfg : Config) (env : AllocEnv) (size k : Nat) : Prop :=
  k ≤ 24 ∧ size < 2^40 ∧
    (allocatePrimary cfg.sizeClassMap env.primaryBlock (neededSize size (2^(max k 4)))).isSome

/-- Under tagging, an act that puts a chunk into a primary block draws a tag other than 0 for it. -/
def DrawsTag (cfg : Config) (h : Heap) (act : Act) : Prop :=
  h.opts.useMemoryTagging → ∀ env size k, act.Allocates cfg env size k →
    ServedByPrimary cfg env size k → env.call.draw % 16 ≠ 0

/-- Later calls recompute the pointer that keys the header of each chunk in use, so that no call
on such a chunk takes its header for corrupted, or its state for wrong. -/
structure HeadersAgree (R : Regions cfg) (h : Heap) : Prop where
  live : ∀ r ∈ h.chunks, r.status = .live →
    getHeaderTaggedPointer r.ptr = h.mem.headerKey (r.user - 16)
  delayed : ∀ r ∈ h.chunks, r.status ≠ .live → r.ptr = h.mem.headerKey (r.user - 16)
  usable : ∀ r ∈ h.chunks, r.status = .live →
    ∃ size, getUsableSize cfg h.opts h.mem r.ptr = .ok size
  report : ∀ act e, Enabled R h act → step R h act = .error e → ¬ e.OfHeader

/-- Where the chunk of an allocation comes from, once more: the primary or not. -/
theorem Allocated.servedByPrimary {env : AllocEnv} {size k : Nat} {origin : Origin}
    {fill : FillContentsMode} {a : Allocation} {s' : Secondary} {m m' : Mem} (hi : h.Inv R)
    (ha : Allocated cfg h env size (max k 4) origin fill a s' m m') (hk : k ≤ 24)
    (hsize : size < 2^40) (henv : env.Ok R h size k) (hc : a.classId ≠ 0) :
    ServedByPrimary cfg env size k := by
  refine ⟨hk, hsize, ?_⟩
  rcases allocateBlock_cases hsize (by omega) (by omega) (hi.primaryBlocksOk henv) ha.block with
    ⟨hp, -⟩ | ⟨h0, -⟩
  · rw [hp]
    rfl
  · exact absurd h0 hc

theorem Enabled.allocEnv {act : Act} (ha : Enabled R h act) {env : AllocEnv} {size k : Nat}
    (hal : act.Allocates cfg env size k) : env.Ok R h size k := by
  cases act with
  | allocate env' size' origin k' zeroContents =>
    obtain ⟨rfl, rfl, rfl⟩ := hal
    exact ha
  | reallocate r alloc free newSize k' =>
    obtain ⟨-, rfl, rfl, rfl⟩ := hal
    exact ha.2.2.1
  | _ => exact absurd hal id

/-- A new chunk agrees with its header, unless it is a tagged one under tag 0. -/
theorem LiveFrom.agrees {act : Act} {x : Holding} (hf : LiveFrom cfg h act x) (hi : h.Inv R)
    (ha : Enabled R h act) (hok : DrawsTag cfg h act)
    (hold : ∀ r ∈ h.chunks, r.status = .live → r.Agrees) (hl : x.status = .live) {tagging : Bool}
    {m : Mem} (hx : x.Ok cfg tagging m) : x.Agrees := by
  cases hf with
  | old hm => exact hold x hm hl
  | @resized r alloc free newSize k heq hm hl hstay => exact hold r hm hl
  | @new r env size k hal hk hsize hg =>
    obtain ⟨origin, fill, a, s', m1, m', m'', hgr, rfl⟩ := hg
    rw [hx.agrees_iff hl]
    intro h0 hptr
    rcases headerTag_cases h.opts a.classId with ⟨-, ht, hc⟩ | ⟨h2, -⟩
    · have hdraw := hok ht env size k hal (hgr.servedByPrimary hi hk hsize (ha.allocEnv hal) hc)
      have heq : a.ptr = a.user := hptr
      rw [hgr.ptr, pointerTag, if_pos ⟨ht, hc⟩, taggedPtr] at heq
      omega
    · have heq : headerTag h.opts a.classId = 0 := h0
      rw [h2] at heq
      exact absurd heq (by decide)

theorem ReachableWith.agrees (hr : ReachableWith R (DrawsTag cfg) h) :
    ∀ r ∈ h.chunks, r.status = .live → r.Agrees := by
  refine ReachableWith.invariant (P := fun h => ∀ r ∈ h.chunks, r.status = .live → r.Agrees) ?_ ?_ hr
  · intro h h0 r hm
    rw [h0.chunks] at hm
    exact nomatch hm
  · intro h a h' hi hold ha hok ho r hm hl
    exact (ho.live hi hm hl).agrees hi ha hok hold hl ((ho.inv hi).chunk_ok hm)

theorem allocate_report {opts : Options} {env : AllocEnv} {s : Secondary} {m : Mem} {size : Nat}
    {origin : Origin} {alignment : Nat} {zeroContents : Bool} {e : Report}
    (h : Combined.allocate cfg opts env s m size origin alignment zeroContents = .error e) :
    ¬ e.OfHeader := by
  simp only [Combined.allocate] at h
  split at h
  · split at h
    · simp at h
    · rw [← Except.error.inj h]
      exact id
  · split at h
    · split at h
      · simp at h
      · rw [← Except.error.inj h]
        exact id
    · split at h
      · split at h
        · simp at h
        · rw [← Except.error.inj h]
          exact id
      · simp at h

theorem deallocate_report {tagging : Bool} {m : Mem} {r : Holding} {opts : Options} {env : FreeEnv}
    {s : Secondary} {origin : Origin} {deleteSize : Nat} {e : Report} (hr : r.Ok cfg tagging m)
    (hl : r.status = .live) (hag : r.Agrees)
    (h : Combined.deallocate cfg opts env s m r.ptr origin deleteSize = .error e) :
    ¬ e.OfHeader := by
  obtain ⟨hd, hof, hload⟩ := hr.loadAllocated hl hag .deallocating
  simp only [Combined.deallocate] at h
  split at h
  · simp at h
  · split at h
    · rw [← Except.error.inj h]
      exact id
    · rw [hload] at h
      simp only [bind, Except.bind] at h
      split at h
      · rw [← Except.error.inj h]
        exact id
      · split at h
        · rw [← Except.error.inj h]
          exact id
        · simp at h

theorem reallocate_report {tagging : Bool} {m : Mem} {r : Holding} {opts : Options} {alloc : AllocEnv}
    {free : FreeEnv} {s : Secondary} {newSize alignment : Nat} {e : Report}
    (hr : r.Ok cfg tagging m) (hl : r.status = .live) (hag : r.Agrees)
    (h : Combined.reallocate cfg opts alloc free s m r.ptr newSize alignment = .error e) :
    ¬ e.OfHeader := by
  obtain ⟨hd, hof, hload⟩ := hr.loadAllocated hl hag .reallocating
  simp only [Combined.reallocate] at h
  split at h
  · split at h
    · simp at h
    · rw [← Except.error.inj h]
      exact id
  · split at h
    · rw [← Except.error.inj h]
      exact id
    · rw [hload] at h
      simp only [bind, Except.bind] at h
      split at h
      · rw [← Except.error.inj h]
        exact id
      · split at h
        · simp at h
        · cases ha : Combined.allocate cfg opts alloc s m newSize .malloc alignment false with
          | error e' =>
            rw [ha] at h
            rw [← Except.error.inj h]
            exact allocate_report ha
          | ok res =>
            obtain ⟨o, s1, m1⟩ := res
            rw [ha] at h
            cases o <;> simp at h

theorem getUsableSize_ok {tagging : Bool} {m : Mem} {r : Holding} {opts : Options}
    (hr : r.Ok cfg tagging m) (hl : r.status = .live) (hag : r.Agrees) :
    ∃ size, getUsableSize cfg opts m r.ptr = .ok size := by
  obtain ⟨hd, hof, hload⟩ := hr.loadAllocated hl hag .sizing
  simp only [getUsableSize, getAllocSize]
  split
  · exact ⟨_, rfl⟩
  · split
    · rw [hload]
      exact ⟨_, rfl⟩
    · rw [hload]
      exact ⟨_, rfl⟩

theorem step_report (hi : h.Inv R) (hag : ∀ r ∈ h.chunks, r.status = .live → r.Agrees) {act : Act}
    {e : Report} (ha : Enabled R h act) (hs : step R h act = .error e) : ¬ e.OfHeader := by
  cases act with
  | allocate env size origin k zeroContents =>
    simp only [step, Heap.allocate] at hs
    cases hc : Combined.allocate cfg h.opts env h.secondary h.mem size origin (2^k) zeroContents with
    | error e' =>
      rw [hc] at hs
      rw [← Except.error.inj hs]
      exact allocate_report hc
    | ok res =>
      obtain ⟨o, s', m'⟩ := res
      rw [hc] at hs
      cases o <;> simp [bind, Except.bind] at hs
  | deallocate r env origin deleteSize =>
    obtain ⟨hm, hl, -⟩ := ha
    simp only [step, Heap.deallocate] at hs
    cases hc : Combined.deallocate cfg h.opts env h.secondary h.mem r.ptr origin deleteSize with
    | error e' =>
      rw [hc] at hs
      rw [← Except.error.inj hs]
      exact deallocate_report (hi.chunk_ok hm) hl (hag r hm hl) hc
    | ok res =>
      obtain ⟨o, m'⟩ := res
      rw [hc] at hs
      cases o <;> simp [bind, Except.bind] at hs
  | reallocate r alloc free newSize k =>
    obtain ⟨hm, hl, -⟩ := ha
    simp only [step, Heap.reallocate] at hs
    cases hc : Combined.reallocate cfg h.opts alloc free h.secondary h.mem r.ptr newSize (2^k) with
    | error e' =>
      rw [hc] at hs
      rw [← Except.error.inj hs]
      exact reallocate_report (hi.chunk_ok hm) hl (hag r hm hl) hc
    | ok res =>
      obtain ⟨o, s', m'⟩ := res
      rw [hc] at hs
      cases o <;> simp [bind, Except.bind] at hs
  | recycle r =>
    obtain ⟨hm, hq⟩ := ha
    obtain ⟨hd, -, heq⟩ := (hi.chunk_ok hm).recycle (by rw [hq]; decide)
    simp [step, Heap.recycle, heq, bind, Except.bind] at hs
  | deallocateBatch r =>
    obtain ⟨hm, hb⟩ := ha
    obtain ⟨hd, -, heq⟩ := (hi.chunk_ok hm).deallocateBatch hb
    simp [step, Heap.deallocateBatch, heq, bind, Except.bind] at hs
  | _ => cases hs

/-- In every run whose tagged chunks of the primary all draw a tag other than 0, the pointers
agree with the headers and no header is reported. -/
theorem headersAgree_of_drawsTag (hr : ReachableWith R (DrawsTag cfg) h) : HeadersAgree R h := by
  have hi := hr.inv
  have hag := hr.agrees
  refine ⟨?_, ?_, ?_, ?_⟩
  · intro r hm hl
    rw [(hi.chunk_ok hm).headerKey]
    exact hag r hm hl
  · intro r hm hl
    rw [(hi.chunk_ok hm).headerKey]
    exact (hi.chunk_ok hm).delayed hl
  · intro r hm hl
    exact getUsableSize_ok (hi.chunk_ok hm) hl (hag r hm hl)
  · intro act e ha hs
    exact step_report hi hag ha hs

/-- A chunk of 16 bytes under tag 5. -/
theorem headersAgree_tagFive : ∃ h, h.chunks.length = 1 ∧ HeadersAgree defaultRegions h := by
  refine ⟨_, ?_, headersAgree_of_drawsTag (.next (a := .allocate (firstEnv 5) 16 .malloc 4 false)
    (oneBlockHeap_reachable _ ?_) ⟨firstEnv_ok List.mem_cons_self 5 16 4, ?_⟩ rfl)⟩
  · rfl
  · intro _ env size k hal
    exact hal.elim
  · rintro - env size k ⟨rfl, rfl, rfl⟩ -
    decide

/-- A chunk of 16 bytes under tag 0: its header is keyed with tag 0, and deallocation looks for
one that is keyed with tag 2. -/
theorem headersAgree_tagZero : ∃ h, Reachable defaultRegions h ∧
    ∃ r ∈ h.chunks, r.status = .live ∧ r.ptr = 2^31 + 16 ∧ h.mem.headerKey (2^31) = 2^31 + 16 ∧
      step defaultRegions h (.deallocate r ⟨⟨none, 1, true⟩, ⟨3, false, false, 0, 0⟩⟩ .malloc 0) =
        .error (.headerCorruption (taggedPtr (2^31 + 16) 2)) := by
  refine ⟨_, .next (a := .allocate (firstEnv 0) 16 .malloc 4 false)
    (oneBlockHeap_reachable _ trivial) ⟨firstEnv_ok List.mem_cons_self 0 16 4, trivial⟩ rfl, _, List.mem_cons_self, rfl, ?_,
    ?_, ?_⟩
  · decide
  · decide
  · rfl

end ScudoMte
