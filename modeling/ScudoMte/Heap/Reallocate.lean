import ScudoMte.Heap.Allocate
import ScudoMte.Heap.Deallocate

namespace ScudoMte

open ByteMemory Ownership Chunk Combined

variable {cfg : Config} {R : Regions cfg} {h : Heap}

section InPlace

variable {tagging : Bool} {opts : Options} {env : CallEnv} {m : Mem} {r : Holding}
  {hd : UnpackedHeader} {newSize : Nat}

/-- The memory after `reallocate` kept the block of a chunk. -/
def resizedMem (cfg : Config) (opts : Options) (env : CallEnv) (m : Mem) (r : Holding)
    (hd : UnpackedHeader) (newSize : Nat) : Mem :=
  reallocateInPlace cfg opts env m r.ptr r.key hd (r.ptr - r.user + r.blockEnd) r.storedSize newSize

/-- The header of the resized chunk. -/
def resizedHeader (r : Holding) (hd : UnpackedHeader) (newSize : Nat) : UnpackedHeader :=
  { hd with sizeOrUnusedBytes := bitField 20 ({ r with size := newSize } : Holding).sizeOrUnused }

theorem resizedMem_spec (hr : r.Ok cfg tagging m) (hl : r.status = .live) (hof : HeaderOf r hd)
    (hfit : r.user + newSize ≤ r.blockEnd) :
    m.AgreeOff (resizedMem cfg opts env m r hd newSize) r.block r.blockEnd ∧
      ChunkStored cfg (resizedMem cfg opts env m r hd newSize) r.block r.user r.key
        (resizedHeader r hd newSize) ∧
      (resizedMem cfg opts env m r hd newSize).headerKey (r.user - 16) = r.key ∧
      (r.classId = 0 → (resizedMem cfg opts env m r hd newSize).tag = m.tag) := by
  obtain ⟨t, ht, hptr⟩ := hr.ptr
  have hu := hr.user_lt
  have hin := hr.header_in
  have hend := hr.blockEnd_lt
  have hold := hr.storedSize_le
  have ht16 : r.headerTag < 16 := by
    rcases hr.headerTag_cases with h | h <;> omega
  obtain ⟨h0, hst, -⟩ := hr.header
  have hnew : untagPointer (r.ptr + newSize) = r.user + newSize := by
    rw [hptr, taggedPtr_add, untagPointer_taggedPtr t (by omega)]
  -- the bytes that the program gave up
  obtain ⟨m1, hm1⟩ : ∃ m1, m1 = (if newSize < r.storedSize ∧
      fillContentsMode opts false env.disableMemInit ≠ .noFill then
      m.memset (r.user + newSize) (fillByte (fillContentsMode opts false env.disableMemInit))
        (r.storedSize - newSize) else m) := ⟨_, rfl⟩
  have hag1 : m.AgreeOff m1 r.user r.blockEnd ∧ m1.tag = m.tag := by
    rw [hm1]
    split
    · exact ⟨(Mem.memset_agreeOff _ _ _ _).mono (by omega) (by omega), rfl⟩
    · exact ⟨.refl _ _ _, rfl⟩
  -- the header
  have hst1 := hst.frame hin hu (hag1.1.data.on (.inl (by omega)))
  have hst2 := hst1.restore (resizedHeader r hd newSize) (by
    have hs : (resizedHeader r hd newSize).state = hd.state := rfl
    rw [hs, hof.state, hl]
    decide) hr.header_at hu
  have hag2 := storeHeader_agreeOff cfg.cookie (resizedHeader r hd newSize) m1 (t := r.headerTag) hu
    (by omega)
  have hkey2 := storeHeader_headerKey cfg.cookie (resizedHeader r hd newSize) m1
    (t := r.headerTag) hu (by omega)
  obtain ⟨m2, hm2⟩ : ∃ m2, m2 = storeHeader cfg.cookie r.key (resizedHeader r hd newSize) m1 :=
    ⟨_, rfl⟩
  have hblockEnd : r.ptr - r.user + r.blockEnd = taggedPtr r.blockEnd t := by
    rw [hptr]
    simp only [taggedPtr]
    omega
  have hhdr : ({ hd with sizeOrUnusedBytes := bitField 20 (if hd.classId ≠ 0 then newSize
      else wrapSub (r.ptr - r.user + r.blockEnd) (r.ptr + newSize)) } : UnpackedHeader) =
      resizedHeader r hd newSize := by
    have hsize : ({ r with size := newSize } : Holding).sizeOrUnused =
        if r.classId ≠ 0 then newSize else r.blockEnd - (r.user + newSize) := rfl
    simp only [resizedHeader, hsize]
    congr 2
    by_cases hc : r.classId ≠ 0
    · rw [if_pos (hof.classId_ne.mpr hc), if_pos hc]
    · rw [if_neg (fun h => hc (hof.classId_ne.mp h)), if_neg hc]
      have hp := (hr.secondary (by omega)).ptr
      rw [hp, Nat.sub_self, Nat.zero_add, wrapSub_of_le (by omega) (by omega)]
  -- the tags and the stack trace
  have hstack (m : Mem) : m.AgreeOff (storeAllocationStackMaybe opts env m r.key) (r.user-8)
      r.blockEnd :=
    (storeAllocationStackMaybe_agreeOff opts env m hu (by omega)).mono (le_refl _) (by omega)
  have hag3 : m2.AgreeOff (resizedMem cfg opts env m r hd newSize) (r.user-8) r.blockEnd ∧
      (r.classId = 0 → (resizedMem cfg opts env m r hd newSize).tag = m2.tag) := by
    simp only [resizedMem, reallocateInPlace, hnew, hhdr, ← hm1, ← hm2]
    rw [hblockEnd, untagPointer_taggedPtr t hend]
    split
    · split
      · next hc =>
        refine ⟨?_, fun h0 => absurd h0 (hof.classId_ne.mp hc)⟩
        rw [hptr, taggedPtr_add, taggedPtr_add]
        have hres := @resizeTaggedChunk_agreeOff m2 _ (r.user + newSize) _ r.user _ newSize ht
          (show r.user ≤ r.user + r.storedSize by omega) (by omega) hr.user_aligned hold hfit hend
          hr.blockEnd_aligned
        exact (hres.mono (by omega) (le_refl _)).trans (hstack _)
      · exact ⟨hstack _, fun _ => storeAllocationStackMaybe_tag _ _ _ _⟩
    · exact ⟨.refl _ _ _, fun _ => rfl⟩
  have hst3 : ChunkStored cfg (resizedMem cfg opts env m r hd newSize) r.block r.user r.key
      (resizedHeader r hd newSize) := by
    rw [← Holding.key, ← hm2] at hst2
    exact hst2.frame hin hu (hag3.1.data.on (.inl (le_refl _)))
  rw [← Holding.key, ← hm2] at hag2 hkey2
  refine ⟨?_, hst3, ?_, ?_⟩
  · exact ((hag1.1.mono (by omega) (le_refl _)).trans (hag2.mono (by omega) (by omega))).trans
      (hag3.1.mono (by omega) (le_refl _))
  · rw [hag3.1.headerKey _ (.inl (by omega))]
    exact hkey2
  · intro hc
    rw [hag3.2 hc, hm2, storeHeader_tag, hag1.2]

/-- The resized chunk is in order. -/
theorem resized_ok (hr : r.Ok cfg tagging m) (hl : r.status = .live) (hof : HeaderOf r hd)
    (hfit : r.user + newSize ≤ r.blockEnd) :
    ({ r with size := newSize } : Holding).Ok cfg tagging
      (resizedMem cfg opts env m r hd newSize) := by
  obtain ⟨hag, hst, hkey, htag⟩ := @resizedMem_spec cfg tagging opts env m r hd newSize hr hl hof hfit
  refine ⟨hr.block_aligned, hr.user_aligned, hr.header_in, hfit, hr.blockEnd_aligned, hr.blockEnd_lt,
    hr.offset_lt, hr.ptr, fun hn => absurd hl hn, ?_, ⟨_, hst, ?_⟩, hkey⟩
  · rcases hr.place_congr hag.data htag with ⟨h1, h2, h3, h4, h5, h6⟩ | ⟨h1, h2, h3, h4, h5, h6⟩
    · exact .inl ⟨h1, h2, h3, h4, h5, h6⟩
    · exact .inr ⟨h1, h2, h3, h4, h5, h6⟩
  · exact ⟨hof.classId, hof.state, hof.offset, rfl⟩

end InPlace

/-- The condition of `reallocate` for keeping the block of a chunk. -/
def Holding.StaysInPlace (cfg : Config) (r : Holding) (newSize : Nat) : Prop :=
  r.user + newSize ≤ r.blockEnd ∧
    (newSize > r.storedSize ∨ r.storedSize - newSize < cfg.pageSize)

/-- What `reallocate` of a live chunk does when it reports nothing. -/
theorem reallocate_ok {tagging : Bool} {m m' : Mem} {r : Holding} {opts : Options} {alloc : AllocEnv}
    {free : FreeEnv} {s s' : Secondary} {newSize k : Nat} {res : Realloc}
    (hr : r.Ok cfg tagging m) (hl : r.status = .live)
    (h : Combined.reallocate cfg opts alloc free s m r.ptr newSize (2^k) = .ok (res, s', m')) :
    (res = .null ∧ s' = s ∧ m' = m) ∨ r.Agrees ∧ ∃ hd, HeaderOf r hd ∧
      ((res = .inPlace ∧ s' = s ∧ r.StaysInPlace cfg newSize ∧
          m' = resizedMem cfg opts alloc.call m r hd newSize) ∨
        ∃ a d m1, res = .moved a d ∧ ¬ r.StaysInPlace cfg newSize ∧
          allocate cfg opts alloc s m newSize .malloc (2^k) false = .ok (some a, s', m1) ∧
          quarantineOrDeallocateChunk cfg opts free s'
            (m1.memcpy a.user r.user (min newSize r.storedSize)) r.ptr hd r.storedSize =
            (d, m')) := by
  obtain ⟨t, ht, hptr⟩ := hr.ptr
  simp only [Combined.reallocate] at h
  split at h
  · split at h
    · simp only [Except.ok.injEq, Prod.mk.injEq] at h
      obtain ⟨rfl, rfl, rfl⟩ := h
      exact .inl ⟨rfl, rfl, rfl⟩
    · simp at h
  · split at h
    · simp at h
    · by_cases hag : r.Agrees
      · obtain ⟨hd, hof, hload⟩ := hr.loadAllocated hl hag .reallocating
        rw [hload] at h
        simp only [bind, Except.bind, hr.reallocSizes hof] at h
        have hu : r.user ≤ r.ptr := by
          rw [hptr, taggedPtr]
          omega
        split at h
        · simp at h
        · split at h
          · next hfit =>
            simp only [Except.ok.injEq, Prod.mk.injEq] at h
            obtain ⟨rfl, rfl, rfl⟩ := h
            refine .inr ⟨hag, hd, hof, .inl ⟨rfl, rfl, ⟨?_, hfit.2⟩, ?_⟩⟩
            · have hle := hfit.1
              omega
            · rw [resizedMem, hag]
          · next hfit =>
            have hstay : ¬ r.StaysInPlace cfg newSize := by
              rintro ⟨h1, h2⟩
              exact hfit ⟨by omega, h2⟩
            cases ha : allocate cfg opts alloc s m newSize .malloc (2^k) false with
            | error e =>
              rw [ha] at h
              simp at h
            | ok o =>
              obtain ⟨o, s1, m1⟩ := o
              rw [ha] at h
              cases o with
              | none =>
                obtain ⟨rfl, rfl⟩ := allocate_none ha
                simp only [Except.ok.injEq, Prod.mk.injEq] at h
                obtain ⟨rfl, rfl, rfl⟩ := h
                exact .inl ⟨rfl, rfl, rfl⟩
              | some a =>
                simp only [Except.ok.injEq, Prod.mk.injEq] at h
                obtain ⟨rfl, rfl, rfl⟩ := h
                exact .inr ⟨hag, hd, hof, .inr ⟨a, _, m1, rfl, hstay, rfl, rfl⟩⟩
      · rw [hr.loadAllocated_disagree hl hag .reallocating] at h
        simp [bind, Except.bind] at h

/-- A new chunk reads the same in a later memory, as long as it is in order there. -/
theorem Holding.Ok.ofAllocation_eq {opts : Options} {tagging : Bool} {m m' : Mem} {a : Allocation}
    (h : (Holding.ofAllocation opts m a).Ok cfg tagging m') :
    Holding.ofAllocation opts m' a = Holding.ofAllocation opts m a := by
  by_cases hc : a.classId = 0
  · obtain ⟨cb, hl, -⟩ := (h.secondary hc).large
    have hmap := hl.memMap_eq
    simp only [Holding.ofAllocation, hc] at hmap ⊢
    rw [if_neg (by simp), hmap]
  · simp only [Holding.ofAllocation, hc, ne_eq, not_false_eq_true, if_true]

/-- A move allocates, copies into the new chunk and frees the old one. -/
theorem Heap.Inv.moved (hi : h.Inv R) {r : Holding} {alloc : AllocEnv} {free : FreeEnv}
    {newSize k : Nat} {a : Allocation} {s' : Secondary} {m1 m' : Mem} {hd : UnpackedHeader}
    {d : Disposal} (hm : r ∈ h.chunks) (hag : r.Agrees) (hof : HeaderOf r hd)
    (halloc : alloc.Ok R h newSize k) (hclock : free.secondary.clock ≠ 0)
    (ha : Combined.allocate cfg h.opts alloc h.secondary h.mem newSize .malloc (2^k) false =
      .ok (some a, s', m1))
    (hq : quarantineOrDeallocateChunk cfg h.opts free s'
      (m1.memcpy a.user r.user (min newSize r.storedSize)) r.ptr hd r.storedSize = (d, m')) :
    ((h.addAllocation s' m' a).dispose r m' d).Inv R := by
  have h1 := hi.addAllocation halloc ha
  obtain ⟨hk, hsize, m, hal⟩ := allocated_of_allocate hi halloc ha
  have hnew : Holding.ofAllocation h.opts m1 a ∈ (h.addAllocation s' m1 a).chunks :=
    List.mem_cons_self
  have hfit := (h1.chunk_ok hnew).user_in
  have hcopy := Mem.memcpy_agreeOff m1 a.user r.user (min newSize r.storedSize)
  have h2 := h1.write hnew
    (hcopy.mono (le_refl _) (by
      have hsz : (Holding.ofAllocation h.opts m1 a).size = newSize := hal.size_eq
      have hend : (Holding.ofAllocation h.opts m1 a).user + newSize ≤
        (Holding.ofAllocation h.opts m1 a).blockEnd := by rwa [hsz] at hfit
      have huser : (Holding.ofAllocation h.opts m1 a).user = a.user := rfl
      omega)) rfl rfl
  have h3 := h2.dispose (List.mem_cons_of_mem _ hm) hag hof (fun hc => Holding.storedSize_primary hc)
    hclock hq
  -- the new chunk is still there
  have hkeep : Holding.ofAllocation h.opts m1 a ∈
      (Holding.ofAllocation h.opts m1 a :: h.chunks).erase r := by
    rw [List.erase_cons]
    split
    · next heq =>
      rw [beq_iff_eq.mp heq]
      exact hm
    · exact List.mem_cons_self
  have hsame : Holding.ofAllocation h.opts m' a = Holding.ofAllocation h.opts m1 a := by
    cases d with
    | toPrimary c block => exact Holding.Ok.ofAllocation_eq (h3.chunk_ok hkeep)
    | toSecondary s => exact Holding.Ok.ofAllocation_eq (h3.chunk_ok hkeep)
    | toQuarantine p n => exact Holding.Ok.ofAllocation_eq (h3.chunk_ok (List.mem_cons_of_mem _ hkeep))
  cases d <;> simpa only [Heap.dispose, Heap.addAllocation, hsame] using h3

end ScudoMte
