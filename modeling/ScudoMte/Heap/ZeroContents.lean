import ScudoMte.Heap.Reachable

namespace ScudoMte

open ByteMemory Ownership Chunk Combined

variable {cfg : Config} {R : Regions cfg} {h : Heap}

/-- The caller of `allocate` asks for zeroes, by the argument or by the option. -/
def AsksForZero (opts : Options) (env : CallEnv) (zeroContents : Bool) : Prop :=
  zeroContents = true ∨ opts.fillContents = .zeroFill ∧ env.disableMemInit = false

theorem fillContentsMode_zeroFill {opts : Options} {env : CallEnv} {zeroContents : Bool}
    (hz : AsksForZero opts env zeroContents) :
    fillContentsMode opts zeroContents env.disableMemInit = .zeroFill := by
  rcases hz with hz | ⟨hf, hd⟩
  · rw [fillContentsMode, hz, if_pos rfl]
  · rw [fillContentsMode, hd, hf]
    split <;> rfl

section Zeroed

variable {env : AllocEnv} {size k : Nat} {origin : Origin} {fill : FillContentsMode}
  {a : Allocation} {s' : Secondary} {m m' : Mem}

/-- With tagging on, a primary chunk has the bytes of its free block. -/
theorem Allocated.tagged_data (ha : Allocated cfg h env size k origin fill a s' m m')
    (hm : m = h.mem) (ht : h.opts.useMemoryTagging = true) (hc : a.classId ≠ 0)
    (hsize : size ≠ 0) : AgreeOn h.mem.data m'.data a.user (a.user + size) := by
  have hag := @initAllocation_tagged_user cfg h.opts env.call m size (2^k) origin fill a.classId
    a.block a.blockEnd ha.serves ht hc hsize (a.user + size)
  rw [ha.init, ← ha.user, hm] at hag
  exact hag

/-- With tagging off, a primary chunk is zeroed. -/
theorem Allocated.untagged_isZero (ha : Allocated cfg h env size k origin .zeroFill a s' m m')
    (ht : h.opts.useMemoryTagging = false) (hc : a.classId ≠ 0) :
    IsZero m'.data a.user (a.user + size) := by
  have hz := @initAllocation_untagged_user cfg h.opts env.call m size (2^k) origin .zeroFill a.classId
    a.block a.blockEnd ha.serves ht hc rfl
  have hfits := ha.serves.fits
  rw [ha.init, ← ha.user] at hz
  rw [← ha.user] at hfits
  exact hz.mono (le_refl _) hfits

/-- A chunk of the secondary is zeroed. -/
theorem Allocated.secondary_isZero (hi : h.Inv R) (hk4 : 4 ≤ k) (hk : k ≤ 24) (hsize : size < 2^40)
    (ha : Allocated cfg h env size k origin .zeroFill a s' m m') (hc : a.classId = 0)
    (hbase : ∀ b, env.secondary.mapBase = some b → 0 < b ∧ cfg.pageSize ∣ b ∧ b < 2^47)
    (hsec : h.secondary.allocate cfg h.opts env.secondary h.mem size (2^k) .zeroFill =
      (some (a.block, a.blockEnd), s', m)) : IsZero m'.data a.user (a.user + size) := by
  obtain ⟨map, hserved, -, -⟩ := Secondary.allocate_served hk4 hk hsize (fun i hm => hi.lru_ok hm)
    hbase hsec
  have hserves := ha.serves
  have hinit := ha.init
  have hfits := hserves.fits
  have huser : a.user = a.block + 16 := ha.user.trans (hserves.secondary hc)
  rw [← ha.user] at hfits
  rw [hc] at hserves hinit
  have hag := @initAllocation_secondary_user cfg h.opts env.call m size (2^k) origin .zeroFill a.block
    a.blockEnd hserves
  rw [hinit] at hag
  have hz := (hserved.zero rfl).mono (show a.block ≤ a.block + 16 by omega) (le_refl _)
  exact (hz.congr hag).mono (by omega) hfits

end Zeroed

/-- The bytes of an allocation that asks for zeroes are zero exactly when, with tagging on and a
block of the primary, they were zero in the free block already: only the other paths zero them. -/
theorem zeroed_iff (hr : Reachable R h) {env : AllocEnv} {size k : Nat} {origin : Origin}
    {zeroContents : Bool} {a : Allocation} {s' : Secondary} {m' : Mem} (henv : env.Ok R h size k)
    (hz : AsksForZero h.opts env.call zeroContents)
    (ha : Combined.allocate cfg h.opts env h.secondary h.mem size origin (2^k) zeroContents =
      .ok (some a, s', m')) :
    IsZero m'.data a.user (a.user + size) ↔
      (h.opts.useMemoryTagging = true → ∀ classId block,
        allocatePrimary cfg.sizeClassMap env.primaryBlock (neededSize size (2^(max k 4))) =
          some (classId, block) →
        IsZero h.mem.data (roundUp (block + getHeaderSize) (2^(max k 4)))
          (roundUp (block + getHeaderSize) (2^(max k 4)) + size)) := by
  have hi := hr.inv
  obtain ⟨hk, hsize, m, hal⟩ := allocated_of_allocate hi henv ha
  rw [fillContentsMode_zeroFill hz] at hal
  have hcases := allocateBlock_cases hsize (by omega) (by omega) (hi.primaryBlocksOk henv) hal.block
  rcases hcases with ⟨hp, hc, -, -, hm⟩ | ⟨hc, hp, hsec⟩
  · have hc0 : a.classId ≠ 0 := by omega
    have hblock : (∀ classId block,
        allocatePrimary cfg.sizeClassMap env.primaryBlock (neededSize size (2^(max k 4))) =
          some (classId, block) →
        IsZero h.mem.data (roundUp (block + getHeaderSize) (2^(max k 4)))
          (roundUp (block + getHeaderSize) (2^(max k 4)) + size)) ↔
        IsZero h.mem.data a.user (a.user + size) := by
      rw [hal.user, hp]
      constructor
      · exact fun hall => hall _ _ rfl
      · intro hzero c block heq
        obtain ⟨rfl, rfl⟩ := Prod.mk.inj (Option.some.inj heq)
        exact hzero
    rw [hblock]
    cases ht : h.opts.useMemoryTagging with
    | false =>
      simp only [Bool.false_eq_true, false_imp_iff, iff_true]
      exact hal.untagged_isZero ht hc0
    | true =>
      simp only [true_imp_iff]
      by_cases hs0 : size = 0
      · subst hs0
        constructor <;> intro _ x h1 h2 <;> omega
      · have hag := hal.tagged_data hm ht hc0 hs0
        constructor
        · intro hzero x h1 h2
          rw [← hag x h1 h2]
          exact hzero x h1 h2
        · exact fun hzero => hzero.congr hag
  · have hzero := hal.secondary_isZero hi (by omega) (by omega) hsize hc
      (fun b hb => ⟨(henv.mapBase b hb).1, (henv.mapBase b hb).2.1, (henv.mapBase b hb).2.2.1⟩) hsec
    rw [hp]
    exact ⟨fun _ _ _ _ h0 => (nomatch h0), fun _ => hzero⟩

/-- 16 bytes in a block that was never used. -/
theorem zeroed_fresh : ∃ a s' m', Combined.allocate defaultConfig oneBlockHeap.opts (firstEnv 5)
      oneBlockHeap.secondary oneBlockHeap.mem 16 .malloc (2^4) true = .ok (some a, s', m') ∧
    IsZero m'.data a.user (a.user + 16) :=
  ⟨_, _, _, rfl, (zeroed_iff (oneBlockHeap_reachable _ trivial)
    (firstEnv_ok List.mem_cons_self 5 16 4) (.inl rfl) rfl).mpr fun _ _ _ _ _ _ _ => rfl⟩

/-- 16 bytes in a block whose last user wrote a byte and freed it: the byte is still there. -/
theorem zeroed_dirty : ∃ h, Reachable defaultRegions h ∧ ∃ a s' m',
    Combined.allocate defaultConfig h.opts (firstEnv 5) h.secondary h.mem 16 .malloc (2^4) true =
      .ok (some a, s', m') ∧ a.user = 2^31 + 16 ∧ m'.data (2^31 + 16) = 7 := by
  refine ⟨_, .next (a := .deallocate (firstChunk 5) ⟨⟨none, 1, true⟩, ⟨1, false, false, 0, 0⟩⟩ .malloc 0)
    (.next (a := .write (firstChunk 5) 0 7) (.next (a := .allocate (firstEnv 5) 16 .malloc 4 false)
      (oneBlockHeap_reachable _ trivial) ⟨firstEnv_ok List.mem_cons_self 5 16 4, trivial⟩ rfl)
      ⟨⟨List.mem_cons_self, by decide, by decide⟩, trivial⟩ rfl)
    ⟨⟨List.mem_cons_self, rfl, by decide⟩, trivial⟩ rfl, _, _, _, rfl, ?_, ?_⟩
  · decide
  · decide

end ScudoMte
