import ScudoMte.Heap.RequestedSize
import ScudoMte.Wrappers.Mirror

namespace ScudoMte

open ByteMemory Ownership Chunk Combined

variable {cfg : Config} {R : Regions cfg} {h h' : Heap}

/-- The size of the live chunk with a pointer. -/
def sizeIn (chunks : List Holding) (p : Nat) : Option Nat :=
  (chunks.find? fun r => r.status = .live ∧ r.ptr = p).map fun r => r.size

theorem sizeIn_cons_live {r : Holding} (hl : r.status = .live) (chunks : List Holding) :
    sizeIn (r :: chunks) = Function.update (sizeIn chunks) r.ptr (some r.size) := by
  funext p
  by_cases hp : r.ptr = p
  · simp [sizeIn, hl, hp]
  · rw [Function.update_of_ne (Ne.symm hp)]
    simp [sizeIn, hp]

theorem sizeIn_cons_other {r : Holding} (hl : r.status ≠ .live) (chunks : List Holding) :
    sizeIn (r :: chunks) = sizeIn chunks := by
  funext p
  simp [sizeIn, hl]

theorem sizeIn_eq_none {chunks : List Holding} {p : Nat}
    (hp : p ∉ chunks.map fun r => r.ptr) : sizeIn chunks p = none := by
  rw [sizeIn, Option.map_eq_none_iff, List.find?_eq_none]
  intro r hr
  simp only [decide_eq_true_eq, not_and]
  rintro - rfl
  exact hp (List.mem_map_of_mem hr)

theorem sizeIn_of_mem {chunks : List Holding} (hn : (chunks.map fun r => r.ptr).Nodup) {r : Holding}
    (hr : r ∈ chunks) (hl : r.status = .live) : sizeIn chunks r.ptr = some r.size := by
  induction chunks with
  | nil => exact nomatch hr
  | cons x chunks ih =>
    rw [List.map_cons, List.nodup_cons] at hn
    rcases List.mem_cons.mp hr with rfl | hr
    · rw [sizeIn_cons_live hl, Function.update_self]
    · have hne : r.ptr ≠ x.ptr := fun heq => hn.1 (heq ▸ List.mem_map_of_mem hr)
      by_cases hx : x.status = .live
      · rw [sizeIn_cons_live hx, Function.update_of_ne hne]
        exact ih hn.2 hr
      · rw [sizeIn_cons_other hx]
        exact ih hn.2 hr

theorem sizeIn_erase_other {r : Holding} (hl : r.status ≠ .live) (chunks : List Holding) :
    sizeIn (chunks.erase r) = sizeIn chunks := by
  induction chunks with
  | nil => rfl
  | cons x chunks ih =>
    by_cases hx : x = r
    · rw [hx, List.erase_cons_head, sizeIn_cons_other hl]
    · rw [List.erase_cons_tail (by simpa using hx)]
      by_cases hlx : x.status = .live
      · rw [sizeIn_cons_live hlx, sizeIn_cons_live hlx, ih]
      · rw [sizeIn_cons_other hlx, sizeIn_cons_other hlx, ih]

theorem sizeIn_erase {chunks : List Holding} (hn : (chunks.map fun r => r.ptr).Nodup) {r : Holding}
    (hr : r ∈ chunks) : sizeIn (chunks.erase r) = Function.update (sizeIn chunks) r.ptr none := by
  induction chunks with
  | nil => exact nomatch hr
  | cons x chunks ih =>
    rw [List.map_cons, List.nodup_cons] at hn
    by_cases hx : x = r
    · subst hx
      have hnone : Function.update (sizeIn chunks) x.ptr none = sizeIn chunks := by
        rw [← sizeIn_eq_none hn.1, Function.update_eq_self]
      rw [List.erase_cons_head]
      by_cases hl : x.status = .live
      · rw [sizeIn_cons_live hl, Function.update_idem, hnone]
      · rw [sizeIn_cons_other hl, hnone]
    · have hmem : r ∈ chunks := (List.mem_cons.mp hr).resolve_left (Ne.symm hx)
      have hne : x.ptr ≠ r.ptr := fun heq => hn.1 (heq ▸ List.mem_map_of_mem hmem)
      rw [List.erase_cons_tail (by simpa using hx)]
      by_cases hl : x.status = .live
      · rw [sizeIn_cons_live hl, sizeIn_cons_live hl, ih hn.2 hmem, Function.update_comm hne]
      · rw [sizeIn_cons_other hl, sizeIn_cons_other hl, ih hn.2 hmem]

/-- Chunks in different places have different pointers. -/
theorem Heap.Inv.ptrs_nodup (hi : h.Inv R) : (h.chunks.map fun r => r.ptr).Nodup := by
  have hdisj : ((chunkOwners h.chunks).map (Owner.zone cfg)).Pairwise Range.Disjoint :=
    hi.owned.disjoint.sublist ((List.sublist_append_left _ _).map _)
  rw [chunkOwners, List.map_map, List.pairwise_map] at hdisj
  rw [List.Nodup, List.pairwise_map]
  refine hdisj.imp_of_mem ?_
  intro r x hr hx hd heq
  obtain ⟨hrlo, hrhi⟩ := (hi.chunk_ok hr).zone
  obtain ⟨hxlo, hxhi⟩ := (hi.chunk_ok hx).zone
  have hrin := (hi.chunk_ok hr).header_in
  have hxin := (hi.chunk_ok hx).header_in
  have hrend := (hi.chunk_ok hr).user_in
  have hxend := (hi.chunk_ok hx).user_in
  have huser : r.user = x.user := congrArg untagPointer heq
  rcases hd with hd | hd
  · have hlt : r.map.range.hi ≤ x.map.range.lo := hd
    omega
  · have hlt : x.map.range.hi ≤ r.map.range.lo := hd
    omega

theorem sizeIn_dispose {r : Holding} {m : Mem} (d : Disposal) :
    sizeIn (h.dispose r m d).chunks = sizeIn (h.chunks.erase r) := by
  cases d with
  | toPrimary c block => rfl
  | toSecondary s => rfl
  | toQuarantine p n => exact sizeIn_cons_other (by simp) _

/-- The pointer that `allocate` returns. -/
def Heap.allocatePtr (cfg : Config) (h : Heap) (env : AllocEnv) (size : Nat) (origin : Origin)
    (k : Nat) (zeroContents : Bool) : Option Nat :=
  match Combined.allocate cfg h.opts env h.secondary h.mem size origin (2^k) zeroContents with
  | .ok (some a, _, _) => some a.ptr
  | _ => none

/-- The pointer that `reallocate` returns. -/
def Heap.reallocatePtr (cfg : Config) (h : Heap) (r : Holding) (alloc : AllocEnv) (free : FreeEnv)
    (newSize k : Nat) : Option Nat :=
  match Combined.reallocate cfg h.opts alloc free h.secondary h.mem r.ptr newSize (2^k) with
  | .ok (.inPlace, _, _) => some r.ptr
  | .ok (.moved a _, _, _) => some a.ptr
  | _ => none

/-- A new chunk is live under a pointer that no chunk had. -/
theorem addAllocation_sizeIn (hi : h.Inv R) {env : AllocEnv} {size k : Nat} {origin : Origin}
    {zeroContents : Bool} {a : Allocation} {s' : Secondary} {m' : Mem} (henv : env.Ok R h size k)
    (ha : Combined.allocate cfg h.opts env h.secondary h.mem size origin (2^k) zeroContents =
      .ok (some a, s', m')) :
    a.ptr ∉ (h.chunks.map fun r => r.ptr) ∧ ∀ m'', sizeIn (h.addAllocation s' m'' a).chunks =
      Function.update (sizeIn h.chunks) a.ptr (some size) := by
  have hn := (hi.addAllocation henv ha).ptrs_nodup
  obtain ⟨-, -, m, hal⟩ := allocated_of_allocate hi henv ha
  rw [Heap.addAllocation, List.map_cons, List.nodup_cons] at hn
  refine ⟨hn.1, fun m'' => ?_⟩
  rw [← hal.size_eq]
  exact sizeIn_cons_live rfl _

theorem allocate_sizeIn (hi : h.Inv R) {env : AllocEnv} {size k : Nat} {origin : Origin}
    {zeroContents : Bool} (henv : env.Ok R h size k)
    (hs : h.allocate cfg env size origin k zeroContents = .ok h') :
    match h.allocatePtr cfg env size origin k zeroContents with
    | none => sizeIn h'.chunks = sizeIn h.chunks
    | some p => sizeIn h.chunks p = none ∧
        sizeIn h'.chunks = Function.update (sizeIn h.chunks) p (some size) := by
  simp only [Heap.allocate] at hs
  cases ha : Combined.allocate cfg h.opts env h.secondary h.mem size origin (2^k) zeroContents with
  | error e =>
    rw [ha] at hs
    simp [bind, Except.bind] at hs
  | ok res =>
    obtain ⟨o, s', m'⟩ := res
    rw [ha] at hs
    simp only [bind, Except.bind] at hs
    cases o with
    | none =>
      simp only [Heap.allocatePtr, ha]
      rw [← Except.ok.inj hs]
    | some a =>
      simp only [Heap.allocatePtr, ha]
      obtain ⟨hnew, heq⟩ := addAllocation_sizeIn hi henv ha
      rw [← Except.ok.inj hs]
      exact ⟨sizeIn_eq_none hnew, heq m'⟩

theorem deallocate_sizeIn (hi : h.Inv R) {r : Holding} {env : FreeEnv} {origin : Origin}
    {deleteSize : Nat} (hm : r ∈ h.chunks) (hl : r.status = .live)
    (hs : h.deallocate cfg r env origin deleteSize = .ok h') :
    sizeIn h'.chunks = Function.update (sizeIn h.chunks) r.ptr none := by
  simp only [Heap.deallocate] at hs
  cases hd : Combined.deallocate cfg h.opts env h.secondary h.mem r.ptr origin deleteSize with
  | error e =>
    rw [hd] at hs
    simp [bind, Except.bind] at hs
  | ok res =>
    obtain ⟨o, m'⟩ := res
    obtain ⟨-, -, d, -, rfl, -⟩ := deallocate_ok (hi.chunk_ok hm) hl hd
    rw [hd] at hs
    simp only [bind, Except.bind] at hs
    rw [← Except.ok.inj hs, sizeIn_dispose, sizeIn_erase hi.ptrs_nodup hm]

theorem reallocate_sizeIn (hi : h.Inv R) {r : Holding} {alloc : AllocEnv} {free : FreeEnv}
    {newSize k : Nat} (hm : r ∈ h.chunks) (hl : r.status = .live) (halloc : alloc.Ok R h newSize k)
    (hs : h.reallocate cfg r alloc free newSize k = .ok h') :
    match h.reallocatePtr cfg r alloc free newSize k with
    | none => sizeIn h'.chunks = sizeIn h.chunks
    | some q => Function.update (sizeIn h.chunks) r.ptr none q = none ∧ sizeIn h'.chunks =
        Function.update (Function.update (sizeIn h.chunks) r.ptr none) q (some newSize) := by
  simp only [Heap.reallocate] at hs
  cases hre : Combined.reallocate cfg h.opts alloc free h.secondary h.mem r.ptr newSize (2^k) with
  | error e =>
    rw [hre] at hs
    simp [bind, Except.bind] at hs
  | ok res =>
    obtain ⟨res, s', m'⟩ := res
    rw [hre] at hs
    rcases reallocate_ok (hi.chunk_ok hm) hl hre with ⟨rfl, rfl, rfl⟩ |
      ⟨hag, hd, hof, ⟨rfl, rfl, hstay, rfl⟩ | ⟨a, d, m1, rfl, hstay, ha, hq⟩⟩
    · simp only [Heap.reallocatePtr, hre]
      rw [← Except.ok.inj hs]
    · simp only [Heap.reallocatePtr, hre, Function.update_self, true_and]
      rw [← Except.ok.inj hs, ← sizeIn_erase hi.ptrs_nodup hm]
      exact @sizeIn_cons_live { r with size := newSize } hl _
    · simp only [Heap.reallocatePtr, hre]
      obtain ⟨hnew, heq⟩ := addAllocation_sizeIn hi halloc ha
      have hne : a.ptr ≠ r.ptr := fun h => hnew (h ▸ List.mem_map_of_mem hm)
      have hn : ((h.addAllocation s' m' a).chunks.map fun r => r.ptr).Nodup :=
        List.nodup_cons.mpr ⟨hnew, hi.ptrs_nodup⟩
      refine ⟨?_, ?_⟩
      · rw [Function.update_of_ne hne, sizeIn_eq_none hnew]
      · rw [← Except.ok.inj hs, sizeIn_dispose, sizeIn_erase hn (List.mem_cons_of_mem _ hm), heq,
          Function.update_comm hne]

/-- The acts that are no calls of the allocator by the wrappers. -/
def Act.NoCall : Act → Prop
  | .allocate .. | .deallocate .. | .reallocate .. => False
  | _ => True

theorem noCall_sizeIn (hi : h.Inv R) {a : Act} (hno : a.NoCall) (ha : Enabled R h a)
    (hs : step R h a = .ok h') : sizeIn h'.chunks = sizeIn h.chunks := by
  cases step_outcome hi ha hs with
  | allocated | freed | resized | moved => exact hno.elim
  | @recycled _ r _ hm hr _ =>
    refine sizeIn_erase_other ?_ _
    rcases hr with ⟨-, hq⟩ | ⟨-, hq⟩ <;> rw [hq] <;> decide
  | batched => exact sizeIn_cons_other (by simp [Holding.ofBatch]) _
  | _ => rfl

/-- What `getAllocSize` tells of a chunk whose unused bytes fit its header is the size of the
chunk. -/
theorem getAllocSize_eq (hi : h.Inv R) {r : Holding} (hm : r ∈ h.chunks) (hl : r.status = .live)
    (hfit : r.classId = 0 → r.blockEnd - (r.user + r.size) < 2^20) {n : Nat}
    (hn : getAllocSize cfg h.mem r.ptr = .ok n) : n = r.size := by
  have hr := hi.chunk_ok hm
  by_cases hag : r.Agrees
  · have hsize := ((hr.sizeKept_iff hl).mpr ⟨hag, hfit⟩).allocSize
    rw [hn] at hsize
    exact Except.ok.inj hsize
  · simp [getAllocSize, hr.loadAllocated_disagree hl hag .sizing, bind, Except.bind] at hn

namespace Wrappers

/-- The heap as the allocator of the wrappers. The size of a chunk is known where its unused bytes fit
its header. -/
def heapAllocator (R : Regions cfg) : Allocator {h : Heap // h.Inv R} where
  Init h := Init R h.1
  live h := sizeIn h.1.chunks
  Allocate h size origin alignment zero ptr h' := ∃ env k, alignment = 2^k ∧ env.Ok R h.1 size k ∧
    h.1.allocate cfg env size origin k zero = .ok h'.1 ∧
    h.1.allocatePtr cfg env size origin k zero = ptr
  Deallocate h p origin h' := ∃ r env, r ∈ h.1.chunks ∧ r.status = .live ∧ r.ptr = p ∧
    env.secondary.clock ≠ 0 ∧ h.1.deallocate cfg r env origin 0 = .ok h'.1
  Reallocate h p size alignment ptr h' := ∃ r alloc free k, r ∈ h.1.chunks ∧ r.status = .live ∧
    r.ptr = p ∧ alignment = 2^k ∧ alloc.Ok R h.1 size k ∧ free.secondary.clock ≠ 0 ∧
    h.1.reallocate cfg r alloc free size k = .ok h'.1 ∧
    h.1.reallocatePtr cfg r alloc free size k = ptr
  AllocSize h p n := getAllocSize cfg h.1.mem p = .ok n
  SizeKnown h p := ∀ r ∈ h.1.chunks, r.status = .live → r.ptr = p → r.classId = 0 →
    r.blockEnd - (r.user + r.size) < 2^20
  Internal h h' := ∃ a : Act, a.NoCall ∧ Enabled R h.1 a ∧ step R h.1 a = .ok h'.1
  init_live h h0 p := by
    rw [h0.chunks]
    rfl
  allocate_null := by
    rintro h size origin alignment zero h' ⟨env, k, -, henv, hs, hptr⟩
    have hsize := allocate_sizeIn h.2 henv hs
    rwa [hptr] at hsize
  allocate_some := by
    rintro h size origin alignment zero p h' ⟨env, k, -, henv, hs, hptr⟩
    have hsize := allocate_sizeIn h.2 henv hs
    rwa [hptr] at hsize
  deallocate_live := by
    rintro h p origin h' ⟨r, env, hm, hl, rfl, -, hs⟩
    exact deallocate_sizeIn h.2 hm hl hs
  reallocate_null := by
    rintro h p size alignment h' ⟨r, alloc, free, k, hm, hl, rfl, -, henv, -, hs, hptr⟩
    have hsize := reallocate_sizeIn h.2 hm hl henv hs
    rwa [hptr] at hsize
  reallocate_some := by
    rintro h p size alignment q h' ⟨r, alloc, free, k, hm, hl, rfl, -, henv, -, hs, hptr⟩
    have hsize := reallocate_sizeIn h.2 hm hl henv hs
    rwa [hptr] at hsize
  allocSize_known := by
    intro h p n m hn hknown hlive
    obtain ⟨r, hfind, rfl⟩ := Option.map_eq_some_iff.mp hlive
    have hr := List.find?_some hfind
    simp only [decide_eq_true_eq] at hr
    have hm := List.mem_of_find?_eq_some hfind
    rw [← hr.2] at hn
    exact getAllocSize_eq h.2 hm hr.1 (hknown r hm hr.1 hr.2) hn
  internal_live := by
    rintro h h' ⟨a, hno, ha, hs⟩
    exact noCall_sizeIn h.2 hno ha hs

/-- In every run of the wrappers over the heap in which no page is asked for with `pvalloc(0)`, and
`realloc` fails only for chunks whose unused bytes fit their header, the hooks mirror the heap: they
are in order, and between calls they have told of the live chunks with the sizes asked for. -/
theorem hooksMirror_of_reachable {P : Platform} {s : System {h : Heap // h.Inv R}}
    (hr : ReachableWith (heapAllocator R) P (Admits (heapAllocator R)) s) :
    ∃ told, replay s.events = some told ∧ ((∀ t, s.threads t = none) →
      ∀ p n, told p = some n ↔ ∃ r ∈ s.heap.1.chunks, r.status = .live ∧ r.ptr = p ∧ r.size = n) := by
  obtain ⟨told, hreplay, hlive⟩ := hr.hooksMirror
  refine ⟨told, hreplay, fun hidle p n => ?_⟩
  have heq : told = sizeIn s.heap.1.chunks := hlive hidle
  rw [heq]
  constructor
  · intro hsize
    obtain ⟨r, hfind, rfl⟩ := Option.map_eq_some_iff.mp hsize
    have hr := List.find?_some hfind
    simp only [decide_eq_true_eq] at hr
    exact ⟨r, List.mem_of_find?_eq_some hfind, hr.1, hr.2, rfl⟩
  · rintro ⟨r, hm, hl, rfl, rfl⟩
    exact sizeIn_of_mem s.heap.2.ptrs_nodup hm hl

/-- No call has been made on a heap after `init`. -/
def startSystem {R : Regions cfg} (h : Heap) (h0 : Init R h) : System {h : Heap // h.Inv R} :=
  ⟨⟨h, h0.inv⟩, [], fun _ => none, fun _ => false⟩

theorem startSystem_reachable {P : Platform} {ok : System {h : Heap // h.Inv R} → Move → Prop}
    (h0 : Init R h) : ReachableWith (heapAllocator R) P ok (startSystem h h0) :=
  .start ⟨h0, rfl, fun _ => rfl, fun _ => rfl⟩

/-- An allocation that does not fail leaves a live chunk of its size. -/
theorem allocate_live (hi : h.Inv R) {env : AllocEnv} {size k p : Nat}
    {origin : Origin} {zero : Bool} (henv : env.Ok R h size k)
    (hs : h.allocate cfg env size origin k zero = .ok h')
    (hptr : h.allocatePtr cfg env size origin k zero = some p) :
    h'.Inv R ∧ ∃ r ∈ h'.chunks, r.status = .live ∧ r.ptr = p ∧ r.size = size := by
  have hsize := allocate_sizeIn hi henv hs
  rw [hptr] at hsize
  have hlive : sizeIn h'.chunks p = some size := by rw [hsize.2, Function.update_self]
  obtain ⟨r, hfind, hr⟩ := Option.map_eq_some_iff.mp hlive
  have hprop := List.find?_some hfind
  simp only [decide_eq_true_eq] at hprop
  exact ⟨(allocate_outcome henv hs).inv hi, r, List.mem_of_find?_eq_some hfind, hprop.1, hprop.2, hr⟩

/-- What comes next is no `getAllocSize`. -/
theorem admits_act {σ : Type} {A : Allocator σ} {s : System σ} {t : Nat} {code : Code}
    (hc : s.threads t = some code) (hne : ∀ p next, code ≠ .getAllocSize p next) :
    Admits A s (.act t) := by
  intro p next h
  rw [hc] at h
  exact absurd (Option.some.inj h) (hne p next)

/-- An environment in which nothing new can be allocated. -/
def noMemory : AllocEnv := ⟨fun _ => none, ⟨none, 1, true⟩, ⟨0, false, false, 0, 0⟩⟩

def laterFree : FreeEnv := ⟨⟨none, 1, true⟩, ⟨1, false, false, 0, 0⟩⟩

/-- 16 bytes are allocated and shrink to 12 in place. -/
theorem allocate_reallocate : ∃ h₁ h₂ : Heap,
    oneBlockHeap.allocate defaultConfig (firstEnv 5) 16 .malloc 4 false = .ok h₁ ∧
    oneBlockHeap.allocatePtr defaultConfig (firstEnv 5) 16 .malloc 4 false = some (firstChunk 5).ptr ∧
    firstChunk 5 ∈ h₁.chunks ∧
    h₁.reallocate defaultConfig (firstChunk 5) noMemory laterFree 12 4 = .ok h₂ ∧
    h₁.reallocatePtr defaultConfig (firstChunk 5) noMemory laterFree 12 4 =
      some (firstChunk 5).ptr ∧
    { firstChunk 5 with size := 12 } ∈ h₂.chunks :=
  ⟨_, _, rfl, rfl, List.mem_cons_self, rfl, rfl, List.mem_cons_self⟩

/-- One thread allocates 16 bytes; another one shrinks them to 12, while the first frees a null
pointer. -/
theorem hooksMirror_twoThreads :
    ∃ (s : System {h : Heap // h.Inv defaultRegions}) (told : Replayed),
      replay s.events = some told ∧ (∀ t, s.threads t = none) ∧ s.events.length = 4 ∧
      ∃ r ∈ s.heap.1.chunks, r.status = .live ∧ r.size = 12 ∧ told r.ptr = some 12 := by
  have hi : oneBlockHeap.Inv defaultRegions := (oneBlockHeap_reachable (fun _ _ => True) trivial).inv
  have henv : (firstEnv 5).Ok defaultRegions oneBlockHeap 16 4 := firstEnv_ok List.mem_cons_self 5 16 4
  obtain ⟨h₁, h₂, hs, hptr, hm, hs', hptr', hm'⟩ := allocate_reallocate
  have hi₁ := (allocate_outcome henv hs).inv hi
  have hnoMemory : noMemory.Ok defaultRegions h₁ 12 4 := by
    refine ⟨?_, ?_⟩
    · intro c block hb
      cases hb
    · intro b hb
      cases hb
  have hlater : laterFree.secondary.clock ≠ 0 := by decide
  have hi₂ := (reallocate_outcome hi₁ hm rfl hnoMemory hlater hs').inv hi₁
  have hpopulate : Step (heapAllocator defaultRegions) ⟨false, 4096, true⟩
      (startSystem startHeap startHeap_init) .internal ⟨⟨oneBlockHeap, hi⟩, [], fun _ => none,
        fun _ => false⟩ :=
    .internal ⟨.populate 1, trivial, ⟨by decide, by decide⟩, rfl⟩
  have hr : ReachableWith (heapAllocator defaultRegions) ⟨false, 4096, true⟩
      (Admits (heapAllocator defaultRegions)) ⟨⟨oneBlockHeap, hi⟩, [], fun _ => none, fun _ => false⟩ :=
    (startSystem_reachable startHeap_init).next (a := .internal) trivial hpopulate
  have ha : (heapAllocator defaultRegions).Allocate ⟨oneBlockHeap, hi⟩ 16 .malloc mallocAlignment false
      (some (firstChunk 5).ptr) ⟨h₁, hi₁⟩ := ⟨firstEnv 5, 4, rfl, henv, hs, hptr⟩
  have ha' : (heapAllocator defaultRegions).Reallocate ⟨h₁, hi₁⟩ (firstChunk 5).ptr 12 mallocAlignment
      (some (firstChunk 5).ptr) ⟨h₂, hi₂⟩ :=
    ⟨firstChunk 5, noMemory, laterFree, 4, hm, rfl, rfl, rfl, hnoMemory, hlater, hs', hptr'⟩
  have hmalloc := hr.handsOut (c := .malloc 16) (fun _ => rfl) rfl rfl ha trivial
    (fun s hs p next hc => absurd hc (hs p next))
  have h1 := hmalloc.next (a := Move.call 1 (.realloc (some (firstChunk 5).ptr) 12)) trivial
    (.call rfl (by simp [Call.ptr]))
  have h2 := h1.next (a := Move.act 1) (admits_act rfl fun _ _ h => Code.noConfusion h) (.report rfl)
  have h3 := h2.next (a := Move.call 0 (.free none)) trivial (.call rfl (by simp [Call.ptr]))
  have h4 := h3.next (a := Move.act 0) (admits_act rfl fun _ _ h => Code.noConfusion h) (.report rfl)
  have h5 := h4.next (a := Move.act 1) (admits_act rfl fun _ _ h => Code.noConfusion h) (.reallocate rfl ha')
  have h6 := h5.next (a := Move.act 0) (admits_act rfl fun _ _ h => Code.noConfusion h) (.deallocateNull rfl)
  have h7 := h6.next (a := Move.act 1) (admits_act rfl fun _ _ h => Code.noConfusion h) (.report rfl)
  have h8 := h7.next (a := Move.act 1) (admits_act rfl fun _ _ h => Code.noConfusion h) (.ret rfl)
  have h9 := h8.next (a := Move.act 0) (admits_act rfl fun _ _ h => Code.noConfusion h) (.ret rfl)
  obtain ⟨s, hr', hidle, hevents, hheap⟩ : ∃ s, ReachableWith (heapAllocator defaultRegions)
      ⟨false, 4096, true⟩ (Admits (heapAllocator defaultRegions)) s ∧ (∀ t, s.threads t = none) ∧
      s.events.length = 4 ∧ s.heap = ⟨h₂, hi₂⟩ := by
    refine ⟨_, h9, fun t => ?_, rfl, rfl⟩
    by_cases h0 : t = 0
    · rw [h0]
      rfl
    · by_cases h1 : t = 1
      · rw [h1]
        rfl
      · simp [h0, h1]
  obtain ⟨told, hreplay, htold⟩ := hooksMirror_of_reachable hr'
  have hm₂ : { firstChunk 5 with size := 12 } ∈ s.heap.1.chunks := by
    rw [hheap]
    exact hm'
  exact ⟨s, told, hreplay, hidle, hevents, _, hm₂, rfl, rfl,
    (htold hidle _ _).mpr ⟨_, hm₂, rfl, rfl, rfl⟩⟩

/-- `pvalloc(0)` asks the allocator for a page and reports a size of 0. -/
theorem pvalloc_zero_reported : ∃ (s : System {h : Heap // h.Inv defaultRegions}) (told : Replayed),
    ReachableWith (heapAllocator defaultRegions) ⟨false, 4096, true⟩ (fun _ _ => True) s ∧
      replay s.events = some told ∧ (∀ t, s.threads t = none) ∧
      ∃ r ∈ s.heap.1.chunks, r.status = .live ∧ r.size = 4096 ∧ told r.ptr = some 0 := by
  have henv : mappingEnv.Ok defaultRegions untaggedHeap 4096 12 := mappingEnv_ok untaggedHeap_init _ _
  obtain ⟨h', hs⟩ : ∃ h', untaggedHeap.allocate defaultConfig mappingEnv 4096 .memalign 12 false =
    .ok h' := ⟨_, rfl⟩
  obtain ⟨p, hptr⟩ : ∃ p, untaggedHeap.allocatePtr defaultConfig mappingEnv 4096 .memalign 12 false =
    some p := ⟨_, rfl⟩
  obtain ⟨hi', r, hm, hl, hrptr, hsize⟩ := allocate_live untaggedHeap_init.inv henv hs hptr
  have hcode : (Call.pvalloc 0).code ⟨false, 4096, true⟩ = .allocate 4096 .memalign 4096 false
      fun ptr => reportAllocation ptr 0 (.ret (setErrnoOnNull ptr) ptr) := rfl
  have h0 : ReachableWith (heapAllocator defaultRegions) ⟨false, 4096, true⟩ (fun _ _ => True)
      (startSystem untaggedHeap untaggedHeap_init) := startSystem_reachable untaggedHeap_init
  have ha : (heapAllocator defaultRegions).Allocate ⟨untaggedHeap, untaggedHeap_init.inv⟩ 4096
      .memalign 4096 false (some p) ⟨h', hi'⟩ := ⟨mappingEnv, 12, rfl, henv, hs, hptr⟩
  have h1 := h0.handsOut (fun _ => rfl) rfl hcode ha trivial (fun _ _ => trivial)
  refine ⟨_, Function.update (fun _ => none) p (some 0), h1, rfl, fun _ => rfl, r, hm, hl, hsize, ?_⟩
  rw [hrptr, Function.update_self]

end Wrappers

end ScudoMte
