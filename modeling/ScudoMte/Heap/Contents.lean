import ScudoMte.Heap.ActFrame

namespace ScudoMte

open ByteMemory Ownership Chunk Combined

variable {cfg : Config} {R : Regions cfg} {h h' : Heap}

/-- The acts of the quarantine and the primary. -/
def Act.Internal : Act → Prop
  | .recycle _ | .allocateBatch _ | .deallocateBatch _ | .populate _ | .releasePages _ _ => True
  | _ => False

/-- The heaps that such acts lead to. -/
def InternalRun (R : Regions cfg) (h : Heap) : Heap → Prop :=
  TransitionSystem.Reachable (· = h) (fun h a => Enabled R h a ∧ a.Internal)
    (fun h a h' => step R h a = .ok h')

theorem Act.Internal.not_touches {act : Act} (ha : act.Internal) (x : Holding) :
    ¬ act.Touches x := by
  cases act <;> first | exact ha.elim | exact id

/-- A live chunk is where it was, with the same header, contents and tags. -/
def Kept (h h' : Heap) (x : Holding) : Prop :=
  x ∈ h'.chunks ∧ h.mem.SameOn h'.mem x.map.range

theorem Kept.trans {h'' : Heap} {x : Holding} (hk : Kept h h' x) (hk' : Kept h' h'' x) :
    Kept h h'' x :=
  ⟨hk'.1, hk.2.trans hk'.2⟩

/-- These acts keep all live chunks. -/
theorem InternalRun.kept (hrun : InternalRun R h h') (hi : h.Inv R) :
    h'.Inv R ∧ ∀ x ∈ h.chunks, x.status = .live → Kept h h' x := by
  refine @TransitionSystem.Reachable.invariant _ _ _ _ _
    (fun h' => h'.Inv R ∧ ∀ x ∈ h.chunks, x.status = .live → Kept h h' x) ?_ ?_ _ hrun
  · rintro _ rfl
    exact ⟨hi, fun x hx _ => ⟨hx, .refl _ _⟩⟩
  · intro h1 a h2 hkept ha hs
    obtain ⟨hi1, hkept⟩ := hkept
    have ho := step_outcome hi1 ha.1 hs
    refine ⟨ho.inv hi1, ?_⟩
    intro x hx hl
    have hk := hkept x hx hl
    exact hk.trans (ho.frame hi1 hk.1 hl (ha.2.not_touches x))

theorem resizeTaggedChunk_data (m : Mem) (oldPtr newPtr blockEnd : Nat) {newSize : Nat}
    (hpos : newSize ≠ 0) : (resizeTaggedChunk m oldPtr newPtr newSize blockEnd).data = m.data := by
  simp only [resizeTaggedChunk]
  split
  · exact storeEndMarker_data _ _ _ _ hpos
  · rw [storeEndMarker_data _ _ _ _ hpos, storeTags_data]

/-- Resizing in place leaves the bytes that both sizes have. -/
theorem resizedMem_user {tagging : Bool} {opts : Options} {env : CallEnv} {m : Mem} {r : Holding}
    {hd : UnpackedHeader} {newSize : Nat} (hr : r.Ok cfg tagging m)
    (hfit : r.user + newSize ≤ r.blockEnd) (hpos : newSize ≠ 0) :
    AgreeOn m.data (resizedMem cfg opts env m r hd newSize).data r.user (r.user + newSize) := by
  obtain ⟨t, ht, hptr⟩ := hr.ptr
  have hu := hr.user_lt
  have hin := hr.header_in
  have hend := hr.blockEnd_lt
  have hnew : untagPointer (r.ptr + newSize) = r.user + newSize := by
    rw [hptr, taggedPtr_add, untagPointer_taggedPtr t (by omega)]
  have hstack (m : Mem) := storeAllocationStackMaybe_user opts env m (t := r.headerTag) hu
    (by omega) (le_refl r.user) (r.user + newSize)
  simp only [resizedMem, reallocateInPlace, hnew]
  -- the fill starts behind these bytes
  have hfill : AgreeOn m.data (if newSize < r.storedSize ∧
      fillContentsMode opts false env.disableMemInit ≠ .noFill then
      m.memset (r.user + newSize) (fillByte (fillContentsMode opts false env.disableMemInit))
        (r.storedSize - newSize) else m).data r.user (r.user + newSize) := by
    split
    · exact (Mem.memset_agreeOff _ _ _ _).data.on (.inl (le_refl _))
    · exact fun _ _ _ => rfl
  generalize (if newSize < r.storedSize ∧
      fillContentsMode opts false env.disableMemInit ≠ .noFill then
      m.memset (r.user + newSize) (fillByte (fillContentsMode opts false env.disableMemInit))
        (r.storedSize - newSize) else m) = m1 at hfill ⊢
  generalize ({ hd with sizeOrUnusedBytes := bitField 20 (if hd.classId ≠ 0 then newSize
      else wrapSub (r.ptr - r.user + r.blockEnd) (r.ptr + newSize)) } : UnpackedHeader) = hd1
  have hheader : AgreeOn m1.data (storeHeader cfg.cookie r.key hd1 m1).data r.user
      (r.user + newSize) :=
    (storeHeader_agreeOff cfg.cookie hd1 m1 (t := r.headerTag) hu (by omega)).data.on
      (.inr (by omega))
  generalize storeHeader cfg.cookie r.key hd1 m1 = m2 at hheader ⊢
  have hsame : AgreeOn m.data m2.data r.user (r.user + newSize) :=
    fun a hlo hhi => (hheader a hlo hhi).trans (hfill a hlo hhi)
  split
  · split
    · intro a hlo hhi
      rw [Holding.key, hstack _ a hlo hhi, resizeTaggedChunk_data _ _ _ _ hpos]
      exact hsame a hlo hhi
    · intro a hlo hhi
      rw [Holding.key, hstack _ a hlo hhi]
      exact hsame a hlo hhi
  · exact hsame

/-- The size in the header is never below the size of the chunk. -/
theorem Holding.Ok.size_le_storedSize {tagging : Bool} {m : Mem} {r : Holding}
    (hr : r.Ok cfg tagging m) : r.size ≤ r.storedSize := by
  have hfit := hr.user_in
  unfold Holding.storedSize
  split
  · exact le_refl _
  · have hmod := Nat.mod_le (r.blockEnd - (r.user + r.size)) (2^20)
    omega

/-- The chunk that `reallocate` of `r` hands out, if it returns one. -/
def Combined.Realloc.chunk (opts : Options) (m : Mem) (r : Holding) (newSize : Nat) :
    Realloc → Option Holding
  | .null => none
  | .inPlace => some { r with size := newSize }
  | .moved a _ => some (.ofAllocation opts m a)

/-- A move takes the first bytes of the chunk along. -/
theorem moved_contents (hi : h.Inv R) {r : Holding} {alloc : AllocEnv} {free : FreeEnv}
    {newSize k : Nat} {a : Allocation} {s' : Secondary} {m1 m' : Mem} {hd : UnpackedHeader}
    {d : Disposal} (hm : r ∈ h.chunks) (hag : r.Agrees) (hof : HeaderOf r hd)
    (halloc : alloc.Ok R h newSize k) (hclock : free.secondary.clock ≠ 0)
    (ha : Combined.allocate cfg h.opts alloc h.secondary h.mem newSize .malloc (2^k) false =
      .ok (some a, s', m1))
    (hq : quarantineOrDeallocateChunk cfg h.opts free s'
      (m1.memcpy a.user r.user (min newSize r.storedSize)) r.ptr hd r.storedSize = (d, m')) :
    .ofAllocation h.opts m' a ∈ ((h.addAllocation s' m' a).dispose r m' d).chunks ∧
      a.size = newSize ∧
      ∀ i < min r.size newSize, m'.data (a.user + i) = h.mem.data (r.user + i) := by
  have hr := hi.chunk_ok hm
  have h1 := hi.addAllocation halloc ha
  obtain ⟨-, -, m, hal⟩ := allocated_of_allocate hi halloc ha
  obtain ⟨h2, -⟩ := hi.copied halloc ha (Nat.min_le_left newSize r.storedSize)
  have hnew : Holding.ofAllocation h.opts m1 a ∈ (h.addAllocation s' m1 a).chunks :=
    List.mem_cons_self
  have hok := h1.chunk_ok hnew
  have hin : a.block + 16 ≤ a.user := hok.header_in
  have hfit : a.user + a.size ≤ a.blockEnd := hok.user_in
  obtain ⟨hlo, hhi⟩ := hok.zone
  replace hlo : (Holding.ofAllocation h.opts m1 a).map.range.lo ≤ a.block := hlo
  replace hhi : a.blockEnd ≤ (Holding.ofAllocation h.opts m1 a).map.range.hi := hhi
  have hne : Holding.ofAllocation h.opts m1 a ≠ r := by
    intro heq
    have hdis := h1.head_disjoint rfl hm
    rw [← heq] at hdis
    rcases hdis with hdis | hdis <;> omega
  -- the free leaves the new chunk alone, and the allocation the old one
  have hfree := h2.dispose_sameOn (List.mem_cons_of_mem _ hm) hag hof
    (fun hc => Holding.storedSize_primary hc) hclock hq hnew hne
  have hold := hi.allocate_sameOn halloc ha hm
  have hsame : Holding.ofAllocation h.opts m' a = Holding.ofAllocation h.opts m1 a :=
    Holding.Ok.ofAllocation_eq ((h2.chunk_ok hnew).frame hfree)
  refine ⟨dispose_mem List.mem_cons_self (by rwa [hsame]) d, hal.size_eq, ?_⟩
  intro i hi'
  have hsz := hal.size_eq
  have hle := hr.size_le_storedSize
  have hrin := hr.header_in
  have hrfit := hr.user_in
  obtain ⟨hrlo, hrhi⟩ := hr.zone
  have hcopied : (m1.memcpy a.user r.user (min newSize r.storedSize)).data (a.user + i) =
      m1.data (r.user + i) := by
    simp only [Mem.memcpy, copy]
    rw [if_pos (by omega), Nat.add_sub_cancel_left]
  calc m'.data (a.user + i)
      = (m1.memcpy a.user r.user (min newSize r.storedSize)).data (a.user + i) :=
        hfree.data _ (by omega) (by omega)
    _ = m1.data (r.user + i) := hcopied
    _ = h.mem.data (r.user + i) := hold.data _ (by omega) (by omega)

/-- What `reallocate` promises for the chunk `r` and a size: the chunk that it hands out holds the
first bytes of `r`, or it fails and `r` is kept; and all other live chunks are kept. -/
def Reallocated (h h' : Heap) (r : Holding) (newSize : Nat) (res : Option Holding) : Prop :=
  (match res with
    | none => Kept h h' r
    | some q => q ∈ h'.chunks ∧ q.status = .live ∧ q.size = newSize ∧
        ∀ i < min r.size newSize, h'.mem.data (q.user + i) = h.mem.data (r.user + i)) ∧
    ∀ x ∈ h.chunks, x ≠ r → x.status = .live → Kept h h' x

/-- The step itself. -/
theorem reallocated_of_step (hi : h.Inv R) {r : Holding} {alloc : AllocEnv} {free : FreeEnv}
    {newSize k : Nat} {res : Realloc} {s' : Secondary} {m' : Mem} (hm : r ∈ h.chunks)
    (hl : r.status = .live) (halloc : alloc.Ok R h newSize k) (hclock : free.secondary.clock ≠ 0)
    (hpos : 0 < newSize)
    (hre : Combined.reallocate cfg h.opts alloc free h.secondary h.mem r.ptr newSize (2^k) =
      .ok (res, s', m')) (hs : h.reallocate cfg r alloc free newSize k = .ok h') :
    Reallocated h h' r newSize (res.chunk h.opts m' r newSize) := by
  have ho := reallocate_outcome hi hm hl halloc hclock hs
  refine ⟨?_, fun x hx hne hxl => ho.frame hi hx hxl hne⟩
  simp only [Heap.reallocate, hre, bind, Except.bind] at hs
  rcases reallocate_ok (hi.chunk_ok hm) hl hre with ⟨rfl, rfl, rfl⟩ |
    ⟨hag, hd, hof, ⟨rfl, rfl, hstay, rfl⟩ | ⟨a, d, m1, rfl, hstay, ha, hq⟩⟩
  · rw [← Except.ok.inj hs]
    exact ⟨hm, .refl _ _⟩
  · rw [← Except.ok.inj hs]
    refine ⟨List.mem_cons_self, hl, rfl, ?_⟩
    intro i hi'
    exact resizedMem_user (hi.chunk_ok hm) hstay.1 hpos.ne' _ (Nat.le_add_right _ _)
      (show r.user + i < r.user + newSize by omega)
  · obtain ⟨hmem, hsize, hdata⟩ := moved_contents hi hm hag hof halloc hclock ha hq
    rw [← Except.ok.inj hs]
    refine ⟨hmem, rfl, hsize, ?_⟩
    cases d <;> exact hdata

/-- In every call of `reallocate`, with what the quarantine and the primary do during the call
before and after it. -/
theorem reallocate_reallocated (hr : Reachable R h) {h1 h2 h3 : Heap} (hbefore : InternalRun R h h1)
    {r : Holding} {alloc : AllocEnv} {free : FreeEnv} {newSize k : Nat} {res : Realloc}
    {s' : Secondary} {m' : Mem} (hm : r ∈ h.chunks) (hl : r.status = .live)
    (halloc : alloc.Ok R h1 newSize k) (hclock : free.secondary.clock ≠ 0) (hpos : 0 < newSize)
    (hre : Combined.reallocate cfg h1.opts alloc free h1.secondary h1.mem r.ptr newSize (2^k) =
      .ok (res, s', m')) (hs : h1.reallocate cfg r alloc free newSize k = .ok h2)
    (hafter : InternalRun R h2 h3) :
    Reallocated h h3 r newSize (res.chunk h1.opts m' r newSize) := by
  obtain ⟨hi1, hkept1⟩ := hbefore.kept hr.inv
  have hmem1 := hkept1 r hm hl
  obtain ⟨hres, hothers⟩ := reallocated_of_step hi1 hmem1.1 hl halloc hclock hpos hre hs
  have hi2 := (reallocate_outcome hi1 hmem1.1 hl halloc hclock hs).inv hi1
  obtain ⟨hi3, hkept3⟩ := hafter.kept hi2
  have hrok := hr.inv.chunk_ok hm
  obtain ⟨hrlo, hrhi⟩ := hrok.zone
  have hrin := hrok.header_in
  have hrfit := hrok.user_in
  refine ⟨?_, ?_⟩
  · cases hq : res.chunk h1.opts m' r newSize with
    | none =>
      rw [hq] at hres
      exact (hmem1.trans hres).trans (hkept3 r hres.1 hl)
    | some q =>
      rw [hq] at hres
      obtain ⟨hqm, hql, hqs, hdata⟩ := hres
      obtain ⟨hqm3, hsame⟩ := hkept3 q hqm hql
      obtain ⟨hqlo, hqhi⟩ := (hi2.chunk_ok hqm).zone
      have hqin := (hi2.chunk_ok hqm).header_in
      have hqfit := (hi2.chunk_ok hqm).user_in
      refine ⟨hqm3, hql, hqs, ?_⟩
      intro i hi'
      calc h3.mem.data (q.user + i)
          = h2.mem.data (q.user + i) := hsame.data _ (by omega) (by omega)
        _ = h1.mem.data (r.user + i) := hdata i hi'
        _ = h.mem.data (r.user + i) := hmem1.2.data _ (by omega) (by omega)
  · intro x hx hne hxl
    have hk1 := hkept1 x hx hxl
    have hk2 := hothers x hk1.1 hne hxl
    exact (hk1.trans hk2).trans (hkept3 x hk2.1 hxl)

/-- 16 bytes, one of which was written, shrink to 12. -/
theorem reallocate_reallocated_shrunk : ∃ h h', Reachable defaultRegions h ∧
    h.mem.data (2^31 + 16) = 7 ∧
    Reallocated h h' (firstChunk 5) 12 (some { firstChunk 5 with size := 12 }) := by
  have hr : Reachable defaultRegions _ := .next (a := .write (firstChunk 5) 0 7)
    (.next (a := .allocate (firstEnv 5) 16 .malloc 4 false) (oneBlockHeap_reachable _ trivial)
      ⟨firstEnv_ok List.mem_cons_self 5 16 4, trivial⟩ rfl)
    ⟨⟨List.mem_cons_self, by decide, by decide⟩, trivial⟩ rfl
  exact ⟨_, _, hr, by decide, @reallocate_reallocated _ _ _ hr _ _ _ (.start rfl) (firstChunk 5)
    ⟨fun _ => none, ⟨none, 1, true⟩, ⟨0, false, false, 0, 0⟩⟩
    ⟨⟨none, 1, true⟩, ⟨1, false, false, 0, 0⟩⟩ 12 4 .inPlace _ _ List.mem_cons_self rfl
    ⟨nofun, nofun⟩ (by decide) (by decide) rfl rfl (.start rfl)⟩

end ScudoMte
