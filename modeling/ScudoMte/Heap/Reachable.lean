import ScudoMte.Heap.Primary
import ScudoMte.Heap.Quarantine
import ScudoMte.Heap.Reallocate

namespace ScudoMte

open ByteMemory Ownership Chunk Combined

variable {cfg : Config} {R : Regions cfg} {h : Heap}

theorem Heap.Inv.releaseToOS (hi : h.Inv R) :
    ({ h with
        mem := (h.secondary.cache.releaseToOS cfg h.mem).2
        secondary := { h.secondary with cache := (h.secondary.cache.releaseToOS cfg h.mem).1 } } :
      Heap).Inv R := by
  obtain ⟨hown, hl⟩ := releaseOlderThan_owns (2^64-1) hi.linked (Owned.perm hi.owned ownersOf_cache)
  exact { hi with owned := Owned.perm hown ownersOf_cache.symm, linked := hl }

/-- The limits of the cache are no concern of the invariant. -/
theorem Heap.Inv.setCache (hi : h.Inv R) (count size interval : Int) :
    ({ h with secondary := { h.secondary with
        cache := ((h.secondary.cache.setMaxEntriesCount cfg count).setMaxEntrySize
          size).setReleaseInterval interval } } : Heap).Inv R := by
  obtain ⟨n, heq⟩ := setMaxEntriesCount_eq cfg h.secondary.cache count
  rw [heq]
  exact ⟨hi.owned, hi.blocks, hi.fits, hi.inUse, ⟨hi.linked.nodup, hi.linked.oldest⟩, hi.tagged,
    hi.untagged⟩

theorem Heap.Inv.disableMemoryTagging (hi : h.Inv R) :
    ({ h with
        secondary := { h.secondary with cache := h.secondary.cache.disableMemoryTagging cfg }
        opts := { h.opts with useMemoryTagging := false } } : Heap).Inv R := by
  have hsub : (cacheOwners cfg (h.secondary.cache.disableMemoryTagging cfg)).Sublist
      (cacheOwners cfg h.secondary.cache) := (disableMemoryTagging_cached _).map _
  have hlinks : (h.secondary.cache.disableMemoryTagging cfg).lruEntries =
      h.secondary.cache.lruEntries ∧ (h.secondary.cache.disableMemoryTagging cfg).availEntries =
      h.secondary.cache.availEntries ∧
      (h.secondary.cache.disableMemoryTagging cfg).oldestPresentEntry =
      h.secondary.cache.oldestPresentEntry := by
    unfold Secondary.Cache.disableMemoryTagging
    split <;> exact ⟨rfl, rfl, rfl⟩
  obtain ⟨hlru, havail, hold⟩ := hlinks
  refine ⟨?_, hi.blocks, hi.fits, hi.inUse, ⟨?_, ?_⟩, nofun, ?_⟩
  · have hown := hi.owned.sublist ((hsub.append_right
      (freeOwners h.free ++ reserveOwners R h.carved)).append_left (chunkOwners h.chunks))
    exact Owned.frame hown fun _ _ hok => hok.disable
  · simp only [hlru, havail]
    exact hi.linked.nodup
  · simp only [hlru, hold]
    exact hi.linked.oldest
  · exact fun hs => ⟨rfl, (hi.untagged hs).2⟩

/-- At first the regions are all there is. -/
theorem Init.owners (h0 : Init R h) : h.owners R = reserveOwners R h.carved := by
  obtain ⟨⟨count, size, interval, hsec⟩, hcarved, hfree, hchunks, -, -⟩ := h0
  have hcache : cacheOwners cfg h.secondary.cache = [] := by
    rw [hsec, cacheOwners, Secondary.init, cached_init]
    rfl
  rw [Heap.owners, ownersOf, hcache, hfree, hchunks]
  rfl

/-- The first state of a run. -/
theorem Init.inv (h0 : Init R h) : h.Inv R := by
  obtain ⟨⟨count, size, interval, hsec⟩, hcarved, hfree, hchunks, hzero, htag⟩ := h0
  have howners := Init.owners ⟨⟨count, size, interval, hsec⟩, hcarved, hfree, hchunks, hzero, htag⟩
  have hblock (c : Nat) : R.blockAt c (h.carved c) = R.regionBeg c := by
    rw [Regions.blockAt, hcarved, Nat.zero_mul, Nat.add_zero]
  refine ⟨⟨?_, ?_⟩, ?_, ?_, ?_, ?_, ?_, ?_⟩
  · rw [howners, reserveOwners, List.map_map, List.pairwise_map]
    refine (classIds_nodup cfg).imp ?_
    intro c d hne
    simp only [Function.comp, Owner.zone, hblock]
    exact R.disjoint c d hne
  · intro o ho
    rw [howners] at ho
    obtain ⟨c, hc, rfl⟩ := List.mem_map.mp ho
    rw [hblock]
    exact ⟨R.aligned c, R.lt c, hzero c hc⟩
  · rw [hfree, hchunks]
    have hnone (c : Nat) : R.carvedBlocks h.carved c = [] := by
      rw [Regions.carvedBlocks, hcarved]
      rfl
    rw [List.flatMap_eq_nil_iff.mpr fun c _ => hnone c]
    exact .refl _
  · intro c
    rw [hcarved, Nat.zero_mul]
    exact Nat.zero_le _
  · rw [hsec, hchunks]
    exact .refl _
  · rw [hsec]
    exact linked_init cfg count size interval
  · rw [hchunks]
    exact fun _ _ hr => absurd hr List.not_mem_nil
  · intro hs
    refine ⟨?_, ?_⟩
    · by_contra ht
      rw [Bool.not_eq_false] at ht
      rw [htag ht] at hs
      exact absurd hs (by decide)
    · rw [hchunks]
      exact fun _ hr => absurd hr List.not_mem_nil

/-- All that an act can do to the heap. -/
inductive Outcome (R : Regions cfg) (h : Heap) : Act → Heap → Prop
  | unchanged {act : Act} : Outcome R h act h
  | allocated {env : AllocEnv} {size : Nat} {origin : Origin} {k : Nat} {zeroContents : Bool}
      {a : Allocation} {s' : Secondary} {m' : Mem} (henv : env.Ok R h size k)
      (ha : Combined.allocate cfg h.opts env h.secondary h.mem size origin (2^k) zeroContents =
        .ok (some a, s', m')) :
      Outcome R h (.allocate env size origin k zeroContents) (h.addAllocation s' m' a)
  | freed {r : Holding} {env : FreeEnv} {origin : Origin} {deleteSize : Nat} {hd : UnpackedHeader}
      {d : Disposal} {m' : Mem} (hm : r ∈ h.chunks) (hl : r.status = .live)
      (hclock : env.secondary.clock ≠ 0) (hag : r.Agrees) (hof : HeaderOf r hd)
      (hq : quarantineOrDeallocateChunk cfg h.opts env h.secondary h.mem r.ptr hd r.storedSize =
        (d, m')) : Outcome R h (.deallocate r env origin deleteSize) (h.dispose r m' d)
  | resized {r : Holding} {alloc : AllocEnv} {free : FreeEnv} {newSize k : Nat} {hd : UnpackedHeader}
      (hm : r ∈ h.chunks) (hl : r.status = .live) (hag : r.Agrees) (hof : HeaderOf r hd)
      (hstay : r.StaysInPlace cfg newSize) :
      Outcome R h (.reallocate r alloc free newSize k)
        { h with
          mem := resizedMem cfg h.opts alloc.call h.mem r hd newSize
          chunks := { r with size := newSize } :: h.chunks.erase r }
  | moved {r : Holding} {alloc : AllocEnv} {free : FreeEnv} {newSize k : Nat} {hd : UnpackedHeader}
      {a : Allocation} {s' : Secondary} {m1 m' : Mem} {d : Disposal} (hm : r ∈ h.chunks)
      (hl : r.status = .live) (hag : r.Agrees) (hof : HeaderOf r hd)
      (hstay : ¬ r.StaysInPlace cfg newSize) (halloc : alloc.Ok R h newSize k)
      (hclock : free.secondary.clock ≠ 0)
      (ha : Combined.allocate cfg h.opts alloc h.secondary h.mem newSize .malloc (2^k) false =
        .ok (some a, s', m1))
      (hq : quarantineOrDeallocateChunk cfg h.opts free s'
        (m1.memcpy a.user r.user (min newSize r.storedSize)) r.ptr hd r.storedSize = (d, m')) :
      Outcome R h (.reallocate r alloc free newSize k) ((h.addAllocation s' m' a).dispose r m' d)
  | recycled {act : Act} {r : Holding} {hd : UnpackedHeader} (hm : r ∈ h.chunks)
      (ha : act = .recycle r ∧ r.status = .quarantined ∨
        act = .deallocateBatch r ∧ r.status = .batch)
      (hst : ChunkStored cfg h.mem r.block r.user r.key hd) :
      Outcome R h act { h with
        mem := storeHeader cfg.cookie r.key (availableHeader cfg r hd) h.mem
        chunks := h.chunks.erase r
        free := (r.classId, r.block) :: h.free }
  | batched {block : Nat} (hm : (quarantineClassId cfg, block) ∈ h.free)
      (hmax : quarantineBatchSize + getHeaderSize ≤ cfg.sizeClassMap.maxSize) :
      Outcome R h (.allocateBatch block) (h.allocateBatch cfg block)
  | written {r : Holding} {i : Nat} {b : UInt8} (hm : r ∈ h.chunks) (hq : r.status ≠ .quarantined)
      (hlt : i < r.size) :
      Outcome R h (.write r i b) { h with mem := h.mem.memset (r.user + i) b 1 }
  | populated {c : Nat} (hc : c ∈ classIds cfg)
      (hfit : (h.carved c + 1) * cfg.sizeClassMap.getSizeByClassId c ≤ R.regionSize c) :
      Outcome R h (.populate c) { h with
        carved := Function.update h.carved c (h.carved c + 1)
        free := (c, R.blockAt c (h.carved c)) :: h.free }
  | released {lo n : Nat} (hlo : cfg.pageSize ∣ lo) (hn : cfg.pageSize ∣ n)
      (hchunks : ∀ r ∈ h.chunks, Range.Disjoint ⟨lo, lo+n⟩ r.map.range)
      (hcached : ∀ e ∈ h.secondary.cache.cached cfg, Range.Disjoint ⟨lo, lo+n⟩ e.memMap.range) :
      Outcome R h (.releasePages lo n) { h with mem := h.mem.zeroPages lo n }
  | releasedToOS : Outcome R h .releaseToOS { h with
      mem := (h.secondary.cache.releaseToOS cfg h.mem).2
      secondary := { h.secondary with cache := (h.secondary.cache.releaseToOS cfg h.mem).1 } }
  | cacheSet {count size interval : Int} : Outcome R h (.setCache count size interval) { h with
      secondary := { h.secondary with
        cache := ((h.secondary.cache.setMaxEntriesCount cfg count).setMaxEntrySize
          size).setReleaseInterval interval } }
  | oddEvenTagsSet {value : Bool} :
      Outcome R h (.setOddEvenTags value) { h with opts := { h.opts with useOddEvenTags := value } }
  | stacksSet {value : Bool} : Outcome R h (.setTrackAllocationStacks value)
      { h with opts := { h.opts with trackAllocationStacks := value } }
  | fillContentsSet {value : FillContentsMode} :
      Outcome R h (.setFillContents value) { h with opts := { h.opts with fillContents := value } }
  | slackSet {value : Bool} : Outcome R h (.setAddLargeAllocationSlack value)
      { h with opts := { h.opts with addLargeAllocationSlack := value } }
  | taggingDisabled : Outcome R h .disableMemoryTagging { h with
      secondary := { h.secondary with cache := h.secondary.cache.disableMemoryTagging cfg }
      opts := { h.opts with useMemoryTagging := false } }

theorem allocate_outcome {env : AllocEnv} {size k : Nat} {origin : Origin} {zeroContents : Bool}
    {h' : Heap} (henv : env.Ok R h size k)
    (hs : h.allocate cfg env size origin k zeroContents = .ok h') :
    Outcome R h (.allocate env size origin k zeroContents) h' := by
  simp only [Heap.allocate] at hs
  cases ha : Combined.allocate cfg h.opts env h.secondary h.mem size origin (2^k) zeroContents with
  | error e =>
    rw [ha] at hs
    simp [bind, Except.bind] at hs
  | ok res =>
    obtain ⟨o, s', m'⟩ := res
    rw [ha] at hs
    simp only [bind, Except.bind] at hs
    cases o with
    | none =>
      obtain ⟨rfl, rfl⟩ := allocate_none ha
      rw [← Except.ok.inj hs]
      exact .unchanged
    | some a =>
      rw [← Except.ok.inj hs]
      exact .allocated henv ha

theorem deallocate_outcome (hi : h.Inv R) {r : Holding} {env : FreeEnv} {origin : Origin}
    {deleteSize : Nat} {h' : Heap} (hm : r ∈ h.chunks) (hl : r.status = .live)
    (hclock : env.secondary.clock ≠ 0) (hs : h.deallocate cfg r env origin deleteSize = .ok h') :
    Outcome R h (.deallocate r env origin deleteSize) h' := by
  simp only [Heap.deallocate] at hs
  cases hd : Combined.deallocate cfg h.opts env h.secondary h.mem r.ptr origin deleteSize with
  | error e =>
    rw [hd] at hs
    simp [bind, Except.bind] at hs
  | ok res =>
    obtain ⟨o, m'⟩ := res
    obtain ⟨hag, hdr, d, hof, rfl, hq⟩ := deallocate_ok (hi.chunk_ok hm) hl hd
    rw [hd] at hs
    simp only [bind, Except.bind] at hs
    rw [← Except.ok.inj hs]
    exact .freed hm hl hclock hag hof hq

theorem reallocate_outcome (hi : h.Inv R) {r : Holding} {alloc : AllocEnv} {free : FreeEnv}
    {newSize k : Nat} {h' : Heap} (hm : r ∈ h.chunks) (hl : r.status = .live)
    (halloc : alloc.Ok R h newSize k) (hclock : free.secondary.clock ≠ 0)
    (hs : h.reallocate cfg r alloc free newSize k = .ok h') :
    Outcome R h (.reallocate r alloc free newSize k) h' := by
  simp only [Heap.reallocate] at hs
  cases hre : Combined.reallocate cfg h.opts alloc free h.secondary h.mem r.ptr newSize (2^k) with
  | error e =>
    rw [hre] at hs
    simp [bind, Except.bind] at hs
  | ok res =>
    obtain ⟨res, s', m'⟩ := res
    rw [hre] at hs
    rcases reallocate_ok (hi.chunk_ok hm) hl hre with ⟨rfl, rfl, rfl⟩ |
      ⟨hag, hd, hof, ⟨rfl, rfl, hstay, rfl⟩ | ⟨a, d, m1, rfl, hstay, ha, hq⟩⟩
    · rw [← Except.ok.inj hs]
      exact .unchanged
    · rw [← Except.ok.inj hs]
      exact .resized hm hl hag hof hstay
    · rw [← Except.ok.inj hs]
      exact .moved hm hl hag hof hstay halloc hclock ha hq

theorem step_outcome (hi : h.Inv R) {a : Act} {h' : Heap} (ha : Enabled R h a)
    (hs : step R h a = .ok h') : Outcome R h a h' := by
  cases a with
  | allocate env size origin k zeroContents => exact allocate_outcome ha hs
  | deallocate r env origin deleteSize => exact deallocate_outcome hi ha.1 ha.2.1 ha.2.2 hs
  | reallocate r alloc free newSize k =>
    obtain ⟨hm, hl, halloc, hclock⟩ := ha
    exact reallocate_outcome hi hm hl halloc hclock hs
  | recycle r =>
    obtain ⟨hm, hq⟩ := ha
    obtain ⟨hd, hst, heq⟩ := (hi.chunk_ok hm).recycle (by rw [hq]; decide)
    simp only [step, Heap.recycle, heq, bind, Except.bind] at hs
    rw [← Except.ok.inj hs]
    exact .recycled hm (.inl ⟨rfl, hq⟩) hst
  | deallocateBatch r =>
    obtain ⟨hm, hb⟩ := ha
    have hr := hi.chunk_ok hm
    obtain ⟨hd, hst, heq⟩ := hr.deallocateBatch hb
    have hclass := ((hr.quarantined (by rw [hb]; decide)).1.batch hb).1
    simp only [step, Heap.deallocateBatch, heq, bind, Except.bind] at hs
    rw [← Except.ok.inj hs, ← hclass]
    exact .recycled hm (.inr ⟨rfl, hb⟩) hst
  | allocateBatch block =>
    rw [← Except.ok.inj hs]
    exact .batched ha.1 ha.2
  | write r i b =>
    rw [← Except.ok.inj hs]
    exact .written ha.1 ha.2.1 ha.2.2
  | populate c =>
    rw [← Except.ok.inj hs]
    exact .populated ha.1 ha.2
  | releasePages lo n =>
    obtain ⟨hlo, hn, hchunks, hcached⟩ := ha
    rw [← Except.ok.inj hs]
    exact .released hlo hn hchunks hcached
  | releaseToOS =>
    rw [← Except.ok.inj hs]
    exact .releasedToOS
  | setCache count size interval =>
    rw [← Except.ok.inj hs]
    exact .cacheSet
  | setOddEvenTags value =>
    rw [← Except.ok.inj hs]
    exact .oddEvenTagsSet
  | setTrackAllocationStacks value =>
    rw [← Except.ok.inj hs]
    exact .stacksSet
  | setFillContents value =>
    rw [← Except.ok.inj hs]
    exact .fillContentsSet
  | setAddLargeAllocationSlack value =>
    rw [← Except.ok.inj hs]
    exact .slackSet
  | disableMemoryTagging =>
    rw [← Except.ok.inj hs]
    exact .taggingDisabled

/-- One act, whatever it is, keeps the invariant. -/
theorem Outcome.inv {a : Act} {h' : Heap} (ho : Outcome R h a h') (hi : h.Inv R) : h'.Inv R := by
  cases ho with
  | unchanged => exact hi
  | allocated henv ha => exact hi.addAllocation henv ha
  | freed hm hl hclock hag hof hq =>
    exact hi.dispose hm hag hof (fun hc => Holding.storedSize_primary hc) hclock hq
  | @resized r alloc free newSize k hd hm hl hag hof hstay =>
    have hr := hi.chunk_ok hm
    exact hi.updateChunk hm { r with size := newSize } (resizedMem_spec hr hl hof hstay.1).1
      (resized_ok hr hl hof hstay.1) rfl rfl rfl rfl fun h => h
  | moved hm hl hag hof hstay halloc hclock ha hq => exact hi.moved hm hag hof halloc hclock ha hq
  | @recycled act r hd hm ha hst =>
    have hr := hi.chunk_ok hm
    have hq : r.status ≠ .live := by
      rcases ha with ⟨-, hq⟩ | ⟨-, hq⟩ <;> rw [hq] <;> decide
    obtain ⟨hp, -⟩ := hr.quarantined hq
    obtain ⟨hfree, hag⟩ := hr.available hp hst
    exact hi.freeChunk hm hp hag hfree
  | batched hm hmax => exact hi.allocateBatch hm hmax
  | @written r i b hm hq hlt =>
    have hfit := (hi.chunk_ok hm).user_in
    exact hi.write hm ((Mem.memset_agreeOff h.mem (r.user + i) 1 b).mono (by omega) (by omega)) rfl rfl
  | populated hc hfit => exact hi.populate hc hfit
  | released hlo hn hchunks hcached => exact hi.releasePages hlo hn hchunks hcached
  | releasedToOS => exact hi.releaseToOS
  | cacheSet => exact hi.setCache _ _ _
  | oddEvenTagsSet =>
    exact ⟨hi.owned, hi.blocks, hi.fits, hi.inUse, hi.linked, hi.tagged, hi.untagged⟩
  | stacksSet => exact ⟨hi.owned, hi.blocks, hi.fits, hi.inUse, hi.linked, hi.tagged, hi.untagged⟩
  | fillContentsSet =>
    exact ⟨hi.owned, hi.blocks, hi.fits, hi.inUse, hi.linked, hi.tagged, hi.untagged⟩
  | slackSet => exact ⟨hi.owned, hi.blocks, hi.fits, hi.inUse, hi.linked, hi.tagged, hi.untagged⟩
  | taggingDisabled => exact hi.disableMemoryTagging

/-- The invariant holds in every state that a run reaches. -/
theorem ReachableWith.inv {ok : Heap → Act → Prop} (hr : ReachableWith R ok h) : h.Inv R := by
  refine @TransitionSystem.Reachable.invariant _ _ _ _ _ (fun h => h.Inv R) (fun _ h0 => h0.inv) ?_
    _ hr
  intro h a h' hi ha hs
  exact (step_outcome hi ha.1 hs).inv hi

/-- An invariant of the runs whose acts satisfy a condition, shown for one outcome at a time. -/
theorem ReachableWith.invariant {ok : Heap → Act → Prop} {P : Heap → Prop}
    (hinit : ∀ h, Init R h → P h)
    (hstep : ∀ h a h', h.Inv R → P h → Enabled R h a → ok h a → Outcome R h a h' → P h')
    (hr : ReachableWith R ok h) : P h := by
  refine TransitionSystem.Reachable.invariant_of (fun _ h => ReachableWith.inv h) hinit ?_ hr
  intro h a h' hi hp ha hs
  exact hstep h a h' hi hp ha.1 ha.2 (step_outcome hi ha.1 hs)

/-- Regions of 2^28 bytes for the classes of the default configuration. -/
def defaultRegions : Regions defaultConfig where
  regionBeg c := if c < 256 then 2^30 * (c+1) else 2^40
  regionSize c := if c < 256 then 2^28 else 0
  aligned c := by
    split <;> omega
  lt c := by
    split <;> omega
  disjoint c d hne := by
    simp only [Range.Disjoint]
    split <;> split <;> omega

/-- The heap after `init` with the default flags. -/
def startHeap : Heap where
  mem := .fresh
  secondary := .init defaultConfig 32 (2^19) 5000
  opts := defaultOptions
  carved := fun _ => 0
  free := []
  chunks := []

theorem startHeap_init : Init defaultRegions startHeap where
  secondary := ⟨_, _, _, rfl⟩
  carved _ := rfl
  free := rfl
  chunks := rfl
  zero _ _ := fun _ _ _ => rfl
  tagging _ := rfl

theorem defaultRegions_regionEnd_le (c : Nat) : defaultRegions.regionEnd c ≤ 2^40 := by
  simp only [Regions.regionEnd, defaultRegions]
  split <;> omega

/-- A block of class 1 for the first allocation, and the tag that is drawn for it. -/
def firstEnv (draw : Nat) : AllocEnv where
  primaryBlock c := if c = 1 then some (2^31) else none
  secondary := ⟨none, 1, true⟩
  call := ⟨draw, false, false, 0, 0⟩

/-- The chunk that this allocation hands out for 16 bytes. -/
def firstChunk (draw : Nat) : Holding where
  ptr := taggedPtr (2^31 + 16) draw
  size := 16
  classId := 1
  block := 2^31
  blockEnd := 2^31 + 32
  headerTag := 0
  map := ⟨2^31, 32⟩
  status := .live

/-- The heap with one block of class 1. -/
def oneBlockHeap : Heap :=
  { startHeap with
    carved := Function.update (fun _ => 0) 1 1
    free := [(1, 2^31)] }

theorem oneBlockHeap_reachable (ok : Heap → Act → Prop) (hok : ok startHeap (.populate 1)) :
    ReachableWith defaultRegions ok oneBlockHeap :=
  .next (a := .populate 1) (.start startHeap_init) ⟨⟨by decide, by decide⟩, hok⟩ rfl

theorem firstEnv_ok {h : Heap} (hm : (1, 2^31) ∈ h.free) (draw size k : Nat) :
    (firstEnv draw).Ok defaultRegions h size k := by
  refine ⟨?_, nofun⟩
  intro c block hb
  simp only [firstEnv] at hb
  split at hb
  · next hc =>
    rw [← Option.some.inj hb, hc]
    exact hm
  · exact nomatch hb

/-- The environment of an allocation that gets a new mapping, not aligned to 2^24. -/
def mappingEnv : AllocEnv where
  primaryBlock _ := none
  secondary := ⟨some (2^45 + 2^20), 1, true⟩
  call := ⟨0, false, false, 0, 0⟩

/-- The first heap of a system without tagging. -/
def untaggedHeap : Heap := { startHeap with opts := { defaultOptions with useMemoryTagging := false } }

theorem untaggedHeap_init : Init defaultRegions untaggedHeap :=
  ⟨startHeap_init.secondary, startHeap_init.carved, rfl, rfl, startHeap_init.zero, nofun⟩

theorem mappingEnv_ok {h : Heap} (h0 : Init defaultRegions h) (size k : Nat) :
    mappingEnv.Ok defaultRegions h size k := by
  refine ⟨nofun, ?_⟩
  intro b hb
  rw [← Option.some.inj hb]
  refine ⟨by decide, by decide, by decide, ?_⟩
  intro o ho
  rw [h0.owners] at ho
  obtain ⟨c, -, rfl⟩ := List.mem_map.mp ho
  have hend := defaultRegions_regionEnd_le c
  refine .inr ?_
  simp only [Owner.zone, Secondary.reservation, Secondary.MemMap.range]
  omega

end ScudoMte
