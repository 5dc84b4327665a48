import ScudoMte.Combined.Allocate
import ScudoMte.Combined.Deallocate

namespace ScudoMte.Combined

open ByteMemory Chunk

section Header

variable {cfg : Config} {m : Mem} {block user t : Nat}

/-- A header at the default place is never taken for a block marker. -/
theorem storeHeader_default (cfg : Config) (m : Mem) (t : Nat) (h : UnpackedHeader)
    (hst : (h.state : Nat) ≠ 3) (hb : block + 16 < 2^56) :
    ChunkStored cfg (storeHeader cfg.cookie (taggedPtr (block+16) t) h m) block (block+16)
      (taggedPtr (block+16) t) h := by
  have hseal := storeHeader_sealed cfg.cookie h m t hb (by omega)
  refine ⟨hseal, ?_⟩
  have hword := hseal
  rw [Sealed, headerWord_of_lt _ hb (by omega), Nat.add_sub_cancel] at hword
  have hlow := load_prefix (storeHeader cfg.cookie (taggedPtr (block+16) t) h m).data block 4 8
    (by decide)
  rw [hword] at hlow
  have hne : pack (h.seal cfg.cookie (taggedPtr (block+16) t)) % 2^32 ≠ blockMarker :=
    pack_ne_blockMarker _ hst
  simp only [getChunkOffsetFromBlock, untagPointer_of_lt (show block < 2^56 by omega),
    getHeaderSize_eq]
  rw [if_neg (by rw [hlow]; exact hne)]
  omega

/-- A header that replaces one under the same key keeps the chunk stored. -/
theorem ChunkStored.restore {h : UnpackedHeader}
    (hs : ChunkStored cfg m block user (taggedPtr user t) h) (h' : UnpackedHeader) (hst : (h'.state : Nat) ≠ 3)
    (hb : block + 16 = user ∨ block + 32 ≤ user) (hu : user < 2^56) :
    ChunkStored cfg (storeHeader cfg.cookie (taggedPtr user t) h' m) block user (taggedPtr user t)
      h' := by
  rcases hb with rfl | hb
  · exact storeHeader_default cfg m t h' hst hu
  · have hag := storeHeader_agreeOff cfg.cookie h' m (t := t) hu (by omega)
    have hkeep (lo : Nat) (hlo : lo + 4 ≤ user - 16) :
        load (storeHeader cfg.cookie (taggedPtr user t) h' m).data lo 4 = load m.data lo 4 :=
      load_congr (hag.data.on (.inl hlo))
    refine ⟨storeHeader_sealed cfg.cookie h' m t hu (by omega), ?_⟩
    have hoff := hs.offset
    simp only [getChunkOffsetFromBlock, untagPointer_of_lt (show block < 2^56 by omega)] at hoff ⊢
    rw [hkeep block (by omega), hkeep (block+4) (by omega)]
    exact hoff

end Header

/-- The key of a header is the pointer that later calls use, or its address under tag 0 or 2. -/
theorem loadAllocated_sealed {cfg : Config} {m : Mem} {a t : Nat} {h : UnpackedHeader}
    (action : AllocatorAction) (hs : Sealed cfg.cookie (taggedPtr a t) h m a) (ha : a < 2^56)
    (h16 : 16 ≤ a) (hst : h.state = State.allocated.field) :
    loadAllocated cfg m action (taggedPtr a t) = .ok (h.seal cfg.cookie (taggedPtr a t)) := by
  have hst' : (h.seal cfg.cookie (taggedPtr a t)).state = State.allocated.field := hst
  rw [loadAllocated, hs.loadHeader_self ha h16]
  simp only [bind, Except.bind, hst', ne_eq, not_true_eq_false, if_false]

theorem loadAllocated_other {cfg : Config} {m : Mem} {a t t' : Nat} {h : UnpackedHeader}
    (action : AllocatorAction) (hs : Sealed cfg.cookie (taggedPtr a t) h m a) (ha : a < 2^56)
    (h16 : 16 ≤ a) (ht : t < 16) (ht' : t' < 16) (hne : t ≠ t') :
    loadAllocated cfg m action (taggedPtr a t') = .error (.headerCorruption (taggedPtr a t')) := by
  rw [loadAllocated, loadHeader, hs.isValid_other ha h16 ht ht' hne]
  rfl

section Retag

variable {cfg : Config} {opts : Options} {env : CallEnv} {m : Mem} {a t p size lo hi : Nat}
  {h : UnpackedHeader} {bypass : Bool}

/-- The tag stores of `retagBlock` stay inside the block. -/
theorem retagBlock_agreeOff (ht : t < 16) (hal : a % 16 = 0) (hlo : lo + 16 + 16 * h.offset.val = a)
    (hlo16 : lo % 16 = 0) (hfit : h.classId ≠ 0 → a + size ≤ hi) (hle : a ≤ hi) (hhi : hi < 2^56)
    (hhi16 : hi % 16 = 0) :
    m.AgreeOff (retagBlock cfg opts env m p (taggedPtr a t) h size bypass).2 lo hi := by
  have ha : a < 2^56 := by omega
  have hu : env.draw % 16 < 16 := Nat.mod_lt _ (by decide)
  have hbegin : getBlockBegin a h = lo := getBlockBegin_eq hlo
  have hsec (m : Mem) : m.AgreeOff (storeTags m lo a) lo hi := by
    have := storeTags_agreeOff m (a := lo) (b := a) (t := 0) lo hi (by omega) ha (by decide) hlo16
      (le_refl _) hle hhi16
    rwa [taggedPtr_zero, taggedPtr_zero] at this
  have hprim (hc : h.classId ≠ 0) : m.AgreeOff (storeTags m (taggedPtr a (env.draw%16))
      (taggedPtr (a+size) (env.draw%16))) lo hi := by
    have := hfit hc
    exact storeTags_agreeOff m lo hi ha (by omega) hu hal (by omega) this hhi16
  simp only [retagBlock, untagPointer_taggedPtr t ha, hbegin, setRandomTag_taggedPtr ha ht]
  split
  · split
    · next hc => exact (hprim hc.1).trans (hsec _)
    · exact hsec _
  · split
    · next hc => exact hprim hc.1
    · exact .refl _ _ _

/-- The tags of a secondary chunk that is freed: those of the granule of its header go. -/
theorem retagBlock_secondary_tag (g : Nat) (hal : a % 16 = 0) (ha : a < 2^56)
    (hlo : lo + 16 + 16 * h.offset.val = a) (hc : h.classId = 0) :
    (retagBlock cfg opts env m p (taggedPtr a t) h size true).2.tag g =
      if lo/16 ≤ g ∧ g < a/16 then 0 else m.tag g := by
  have hbegin : getBlockBegin a h = lo := getBlockBegin_eq hlo
  have htag := storeTags_tag m (a := lo) (b := a) (t := 0) g (by omega) ha (by decide) (by omega)
  rw [taggedPtr_zero, taggedPtr_zero] at htag
  simp only [retagBlock, untagPointer_taggedPtr t ha, hbegin, hc, ne_eq, not_true_eq_false,
    false_and, if_false, and_self, if_true, htag]
  have hg : (lo/16 ≤ g ∧ g < (a+15)/16) ↔ (lo/16 ≤ g ∧ g < a/16) := by omega
  simp only [hg]

end Retag

theorem roundUp_taggedPtr {a t : Nat} (ha : a < 2^56) (ht : t < 16) :
    roundUp (taggedPtr a t) 16 = taggedPtr ((a+15)/16*16) t := by
  rw [roundUp_16 _ (by simp only [taggedPtr]; omega)]
  simp only [taggedPtr]
  omega

/-- The tag stores of a resize stay between the user pointer and the end of the block. -/
theorem resizeTaggedChunk_agreeOff {m : Mem} {a b t lo blockEnd : Nat} (newSize : Nat)
    (ht : t < 16) (hlo : lo ≤ a) (hlob : lo ≤ b) (hlo16 : lo % 16 = 0) (ha : a ≤ blockEnd)
    (hb : b ≤ blockEnd) (hend : blockEnd < 2^56) (hend16 : blockEnd % 16 = 0) :
    m.AgreeOff (resizeTaggedChunk m (taggedPtr a t) (taggedPtr b t) newSize blockEnd) lo
      blockEnd := by
  have hc : taggedPtr b t ≤ taggedPtr ((a+15)/16*16) t ↔ b ≤ (a+15)/16*16 := by simp [taggedPtr]
  simp only [resizeTaggedChunk, ge_iff_le, roundUp_taggedPtr (show a < 2^56 by omega) ht,
    roundUp_taggedPtr (show b < 2^56 by omega) ht, hc]
  split
  · exact storeEndMarker_agreeOff m newSize blockEnd (by omega) (by omega) (by omega) hlo16 hend16
  · have htags := storeTags_agreeOff m (a := (a+15)/16*16) (b := b) lo blockEnd (by omega) (by omega)
      ht (by omega) (by omega) hb hend16
    exact htags.trans (storeEndMarker_agreeOff _ newSize blockEnd (by omega) hlob (by omega) hlo16
      hend16)

end ScudoMte.Combined
