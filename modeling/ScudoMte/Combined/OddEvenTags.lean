import ScudoMte.Combined.Tagging

namespace ScudoMte.Combined

open Chunk

/-- A chunk that gets its memory tags, by an allocation or by a deallocation. -/
inductive ChunkTagging
  | prepared (user size draw : Nat)
  | retagged (taggedPtr ptr size : Nat) (h : UnpackedHeader) (env : CallEnv) (bypass : Bool)

namespace ChunkTagging

def user : ChunkTagging → Nat
  | prepared user _ _ => user
  | retagged _ ptr _ _ _ _ => untagPointer ptr

def size : ChunkTagging → Nat
  | prepared _ size _ => size
  | retagged _ _ size _ _ _ => size

/-- What `gentag` draws for the chunk. -/
def draw : ChunkTagging → Nat
  | prepared _ _ draw => draw
  | retagged _ _ _ _ env _ => env.draw

/-- The tag stores of `initTaggedPrimary` and of `retagBlock` for a chunk of a block. -/
def apply (cfg : Config) (opts : Options) (classId block : Nat) (c : ChunkTagging) (m : Mem) :
    Mem :=
  match c with
  | prepared user size draw =>
      (prepareTaggedChunk m user size
        (computeOddEvenMaskForPointerMaybe cfg.sizeClassMap opts block classId)
        (block + cfg.sizeClassMap.getSizeByClassId classId) draw).2
  | retagged taggedPtr ptr size h env bypass =>
      (retagBlock cfg opts env m taggedPtr ptr h size bypass).2

/-- `TaggedBegin`: the pointer to the chunk with the tag that was selected for it. -/
def taggedBegin (cfg : Config) (opts : Options) (classId block : Nat) (c : ChunkTagging) (m : Mem) :
    Nat :=
  let mask := computeOddEvenMaskForPointerMaybe cfg.sizeClassMap opts block classId
  match c with
  | prepared user size draw =>
      (prepareTaggedChunk m user size mask
        (block + cfg.sizeClassMap.getSizeByClassId classId) draw).1
  | retagged taggedPtr ptr size _ env _ =>
      (setRandomTag m ptr size (mask ||| 1 <<< extractTag taggedPtr) env.draw).1

/-- A tag of the chunk: that of its pointer, or of a granule that holds a byte of the user. -/
def HasTag (cfg : Config) (opts : Options) (classId block : Nat) (m m' : Mem) (c : ChunkTagging)
    (tag : Nat) : Prop :=
  tag = extractTag (c.taggedBegin cfg opts classId block m) ∨
    ∃ g, c.user/16 ≤ g ∧ 16*g < c.user + c.size ∧ tag = m'.tag g

/-- The chunk lies in the block, and a deallocation retags it: its header names the class and
the block, and the thread initialises memory. -/
def InBlock (cfg : Config) (classId block : Nat) (c : ChunkTagging) : Prop :=
  c.user % 16 = 0 ∧ block + 16 ≤ c.user ∧
    c.user + c.size ≤ block + cfg.sizeClassMap.getSizeByClassId classId ∧
    match c with
    | prepared _ _ _ => True
    | retagged _ ptr _ h env _ => (∃ a t, ptr = taggedPtr a t ∧ a < 2^56 ∧ t < 16) ∧
        h.classId = classId ∧ h.classId ≠ 0 ∧ getBlockBegin (untagPointer ptr) h = block ∧
        env.disableMemInit = false

end ChunkTagging

/-- The memory once both chunks of two adjacent blocks have got their tags. -/
def taggedMem (cfg : Config) (opts : Options) (classId block : Nat) (m : Mem)
    (c c' : ChunkTagging) : Mem :=
  c'.apply cfg opts classId (block + cfg.sizeClassMap.getSizeByClassId classId)
    (c.apply cfg opts classId block m)

/-- The contract of odd/even tags for the chunks of two adjacent blocks: complementary exclusion
masks, tags of opposite parity, and none that is zero. -/
structure OddEvenSeparated (cfg : Config) (opts : Options) (classId block : Nat) (m : Mem)
    (c c' : ChunkTagging) : Prop where
  masks :
    let mask := computeOddEvenMaskForPointerMaybe cfg.sizeClassMap opts block classId
    let mask' := computeOddEvenMaskForPointerMaybe cfg.sizeClassMap opts
      (block + cfg.sizeClassMap.getSizeByClassId classId) classId
    (mask = 0x5555 ∧ mask' = 0xAAAA) ∨ (mask = 0xAAAA ∧ mask' = 0x5555)
  parity : ∀ tag tag',
    c.HasTag cfg opts classId block m (taggedMem cfg opts classId block m c c') tag →
    c'.HasTag cfg opts classId (block + cfg.sizeClassMap.getSizeByClassId classId)
      (c.apply cfg opts classId block m) (taggedMem cfg opts classId block m c c') tag' →
    tag % 2 ≠ tag' % 2
  nonzero : ∀ tag,
    c.HasTag cfg opts classId block m (taggedMem cfg opts classId block m c c') tag → tag ≠ 0
  nonzero' : ∀ tag,
    c'.HasTag cfg opts classId (block + cfg.sizeClassMap.getSizeByClassId classId)
      (c.apply cfg opts classId block m) (taggedMem cfg opts classId block m c c') tag → tag ≠ 0

/-- The tag 0 past the end of the chunk is not stored into its last granule. -/
def ChunkTagging.EndsBetween : ChunkTagging → Prop
  | prepared _ size _ => size % 16 = 0
  | retagged .. => True

/-- The granules of the chunk, if it has any, get a tag that is not 0 and of the parity of the
chunk's own, although it is twice that one. -/
def ChunkTagging.Doubles (c : ChunkTagging) : Prop :=
  c.size ≠ 0 → c.draw % 2 = 0 ∧ c.draw % 16 ≠ 8 ∧ c.EndsBetween

/-- Adding the class size to a block address flips the least significant set bit of the size. -/
theorem adjacent_bit (scm : SizeClassMap) {classId : Nat} (block : Nat) (hc : 1 ≤ classId)
    (hl : classId ≤ scm.largestClassId) :
    ((block + scm.getSizeByClassId classId) >>> scm.getSizeLSBByClassId classId) % 2 ≠
      (block >>> scm.getSizeLSBByClassId classId) % 2 := by
  obtain ⟨⟨o, ho⟩, hodd⟩ := scm.lsb_spec classId hc hl
  have hp := Nat.two_pow_pos (scm.getSizeLSBByClassId classId)
  rw [ho, Nat.mul_div_cancel_left _ hp] at hodd
  rw [Nat.shiftRight_eq_div_pow, Nat.shiftRight_eq_div_pow, ho, Nat.add_mul_div_left _ _ hp]
  omega

/-- The masks of adjacent blocks are complementary, for every class of every map. -/
theorem oddEvenMask_adjacent (scm : SizeClassMap) (opts : Options) {classId : Nat} (block : Nat)
    (hodd : opts.useOddEvenTags = true) (hc : 1 ≤ classId) (hl : classId ≤ scm.largestClassId) :
    let mask := computeOddEvenMaskForPointerMaybe scm opts block classId
    let mask' := computeOddEvenMaskForPointerMaybe scm opts
      (block + scm.getSizeByClassId classId) classId
    (mask = 0x5555 ∧ mask' = 0xAAAA) ∨ (mask = 0xAAAA ∧ mask' = 0x5555) := by
  have hbit := adjacent_bit scm block hc hl
  have hand (x : Nat) : x &&& 1 = x % 2 := Word.and_low_mask x 1
  simp only [computeOddEvenMaskForPointerMaybe, hodd, Bool.not_true, Bool.false_eq_true, if_false,
    hand]
  rcases Nat.mod_two_eq_zero_or_one (block >>> scm.getSizeLSBByClassId classId) with h0 | h1
  · left
    rw [h0] at hbit ⊢
    rw [show (block + scm.getSizeByClassId classId) >>> scm.getSizeLSBByClassId classId % 2 = 1 by
      omega]
    exact ⟨rfl, rfl⟩
  · right
    rw [h1] at hbit ⊢
    rw [show (block + scm.getSizeByClassId classId) >>> scm.getSizeLSBByClassId classId % 2 = 0 by
      omega]
    exact ⟨rfl, rfl⟩

section Apply

variable {cfg : Config} {opts : Options} {classId block : Nat} {c : ChunkTagging} {m : Mem}

theorem ChunkTagging.taggedBegin_tag (hin : c.InBlock cfg classId block)
    (hend : block + cfg.sizeClassMap.getSizeByClassId classId < 2^56) :
    extractTag (c.taggedBegin cfg opts classId block m) = c.draw % 16 := by
  obtain ⟨hal, hlow, hfit, hrest⟩ := hin
  cases c with
  | prepared user size draw =>
    simp only [ChunkTagging.user, ChunkTagging.size] at *
    have huser : user < 2^56 := by omega
    rw [ChunkTagging.taggedBegin, prepareTaggedChunk_ptr huser,
      extractTag_taggedPtr huser (Nat.mod_lt _ (by decide))]
    rfl
  | retagged p ptr size h env bypass =>
    obtain ⟨⟨a, t, rfl, ha, ht⟩, -, -, -, -⟩ := hrest
    simp only [ChunkTagging.taggedBegin, setRandomTag_taggedPtr ha ht]
    exact extractTag_taggedPtr ha (Nat.mod_lt _ (by decide))

/-- The granules of a chunk get twice its tag, but the last one gets 0 where the chunk ends
inside it. -/
theorem ChunkTagging.apply_tag (hin : c.InBlock cfg classId block)
    (hend : block + cfg.sizeClassMap.getSizeByClassId classId < 2^56)
    (hend16 : (block + cfg.sizeClassMap.getSizeByClassId classId) % 16 = 0) (g : Nat)
    (hlo : c.user/16 ≤ g) (hhi : 16*g < c.user + c.size) :
    (c.apply cfg opts classId block m).tag g = 2*(c.draw%16)%16 ∨
      (c.apply cfg opts classId block m).tag g = 0 ∧ ¬ c.EndsBetween := by
  obtain ⟨hal, hlow, hfit, hrest⟩ := hin
  cases c with
  | prepared user size draw =>
    simp only [ChunkTagging.user, ChunkTagging.size] at *
    rw [ChunkTagging.apply, prepareTaggedChunk_tag g (by omega) hal hfit hend]
    split
    · refine .inr ⟨rfl, fun hwhole => ?_⟩
      rw [ChunkTagging.EndsBetween] at hwhole
      omega
    · rw [if_pos (by omega)]
      exact .inl rfl
  | retagged p ptr size h env bypass =>
    obtain ⟨⟨a, t, rfl, ha, ht⟩, -, hc, -, hinit⟩ := hrest
    simp only [ChunkTagging.user, ChunkTagging.size, untagPointer_taggedPtr t ha] at *
    rw [ChunkTagging.apply, retagBlock_tag g hc hinit ht hal (by omega), if_pos (by omega)]
    exact .inl rfl

theorem ChunkTagging.apply_last (hin : c.InBlock cfg classId block)
    (hend : block + cfg.sizeClassMap.getSizeByClassId classId < 2^56)
    (hend16 : (block + cfg.sizeClassMap.getSizeByClassId classId) % 16 = 0)
    (hlast : ¬ c.EndsBetween) :
    ∃ g, c.user/16 ≤ g ∧ 16*g < c.user + c.size ∧
      (c.apply cfg opts classId block m).tag g = 0 := by
  obtain ⟨hal, hlow, hfit, -⟩ := hin
  cases c with
  | prepared user size draw =>
    simp only [ChunkTagging.user, ChunkTagging.size, ChunkTagging.EndsBetween] at *
    refine ⟨(user+size)/16, by omega, by omega, ?_⟩
    rw [ChunkTagging.apply, prepareTaggedChunk_tag _ (by omega) hal hfit hend,
      if_pos ⟨by omega, rfl⟩]
  | retagged p ptr size h env bypass => exact absurd trivial hlast

/-- Neither operation touches a granule outside its block. -/
theorem ChunkTagging.apply_outside (hin : c.InBlock cfg classId block)
    (hend : block + cfg.sizeClassMap.getSizeByClassId classId < 2^56)
    (hend16 : (block + cfg.sizeClassMap.getSizeByClassId classId) % 16 = 0) (g : Nat)
    (hg : 16*g+16 ≤ block ∨ block + cfg.sizeClassMap.getSizeByClassId classId ≤ 16*g) :
    (c.apply cfg opts classId block m).tag g = m.tag g := by
  obtain ⟨hal, hlow, hfit, hrest⟩ := hin
  cases c with
  | prepared user size draw =>
    simp only [ChunkTagging.user, ChunkTagging.size] at *
    rw [ChunkTagging.apply, prepareTaggedChunk_tag g (by omega) hal hfit hend, if_neg (by omega),
      if_neg (by omega), if_neg (by omega)]
  | retagged p ptr size h env bypass =>
    obtain ⟨⟨a, t, rfl, ha, ht⟩, -, hc, -, hinit⟩ := hrest
    simp only [ChunkTagging.user, ChunkTagging.size, untagPointer_taggedPtr t ha] at *
    rw [ChunkTagging.apply, retagBlock_tag g hc hinit ht hal (by omega), if_neg (by omega)]

/-- The tags of a chunk in a memory that has kept those of its granules. -/
theorem ChunkTagging.HasTag.cases {m' : Mem} {tag : Nat} (hin : c.InBlock cfg classId block)
    (hend : block + cfg.sizeClassMap.getSizeByClassId classId < 2^56)
    (hend16 : (block + cfg.sizeClassMap.getSizeByClassId classId) % 16 = 0)
    (hkept : ∀ g, c.user/16 ≤ g → 16*g < c.user + c.size →
      m'.tag g = (c.apply cfg opts classId block m).tag g)
    (h : c.HasTag cfg opts classId block m m' tag) :
    tag = c.draw % 16 ∨ c.size ≠ 0 ∧ (tag = 2*(c.draw%16)%16 ∨ tag = 0 ∧ ¬ c.EndsBetween) := by
  have hal := hin.1
  rcases h with rfl | ⟨g, hlo, hhi, rfl⟩
  · exact .inl (c.taggedBegin_tag hin hend)
  · rw [hkept g hlo hhi]
    exact .inr ⟨by omega, c.apply_tag hin hend hend16 g hlo hhi⟩

/-- None of the tags of a chunk is 0. -/
theorem ChunkTagging.nonzero_iff {m' : Mem} (hin : c.InBlock cfg classId block)
    (hend : block + cfg.sizeClassMap.getSizeByClassId classId < 2^56)
    (hend16 : (block + cfg.sizeClassMap.getSizeByClassId classId) % 16 = 0)
    (hkept : ∀ g, c.user/16 ≤ g → 16*g < c.user + c.size →
      m'.tag g = (c.apply cfg opts classId block m).tag g) :
    (∀ tag, c.HasTag cfg opts classId block m m' tag → tag ≠ 0) ↔
      c.draw % 16 ≠ 0 ∧ (c.size ≠ 0 → c.draw % 16 ≠ 8 ∧ c.EndsBetween) := by
  have hal := hin.1
  constructor
  · intro h
    refine ⟨?_, fun hsize => ⟨fun h8 => ?_, ?_⟩⟩
    · rw [← c.taggedBegin_tag hin hend]
      exact h _ (.inl rfl)
    · have hlow : 16*(c.user/16) < c.user + c.size := by omega
      have hne := h _ (.inr ⟨c.user/16, le_refl _, hlow, rfl⟩)
      rw [hkept _ (le_refl _) hlow] at hne
      rcases c.apply_tag (m := m) hin hend hend16 _ (le_refl _) hlow with htag | htag
      · rw [htag, h8] at hne
        exact hne rfl
      · exact hne htag.1
    · by_contra hlast
      obtain ⟨g, hlo, hhi, hzero⟩ := c.apply_last (m := m) hin hend hend16 hlast
      exact h _ (.inr ⟨g, hlo, hhi, rfl⟩) ((hkept g hlo hhi).trans hzero)
  · rintro ⟨h0, hgranules⟩ tag htag rfl
    rcases htag.cases hin hend hend16 hkept with htag | ⟨hsize, htag | ⟨-, hlast⟩⟩
    · exact h0 htag.symm
    · have h8 := (hgranules hsize).1
      omega
    · exact hlast (hgranules hsize).2

/-- A chunk that is not empty has a granule, whose tag is even. -/
theorem ChunkTagging.hasTag_even {m' : Mem} (hin : c.InBlock cfg classId block)
    (hend : block + cfg.sizeClassMap.getSizeByClassId classId < 2^56)
    (hend16 : (block + cfg.sizeClassMap.getSizeByClassId classId) % 16 = 0)
    (hkept : ∀ g, c.user/16 ≤ g → 16*g < c.user + c.size →
      m'.tag g = (c.apply cfg opts classId block m).tag g)
    (hsize : c.size ≠ 0) : ∃ tag, c.HasTag cfg opts classId block m m' tag ∧ tag % 2 = 0 := by
  have hal := hin.1
  have hlow : 16*(c.user/16) < c.user + c.size := by omega
  refine ⟨_, .inr ⟨c.user/16, le_refl _, hlow, rfl⟩, ?_⟩
  rw [hkept _ (le_refl _) hlow]
  rcases c.apply_tag (m := m) hin hend hend16 _ (le_refl _) hlow with htag | htag
  · rw [htag]
    omega
  · rw [htag.1]

end Apply

/-- Odd/even tags separate the chunks of two adjacent blocks exactly when one of them is empty, the
two draws are of opposite parity and not 0, and the granules of the other one get tags as they
should: the masks are right, but they are ignored, and every stored tag is even. -/
theorem oddEvenSeparated_iff (cfg : Config) (opts : Options) (classId block : Nat) (m : Mem)
    (c c' : ChunkTagging) (hodd : opts.useOddEvenTags = true) (hc : 1 ≤ classId)
    (hl : classId ≤ cfg.sizeClassMap.largestClassId) (hblock : block % 16 = 0)
    (hend : block + 2 * cfg.sizeClassMap.getSizeByClassId classId < 2^56)
    (hin : c.InBlock cfg classId block)
    (hin' : c'.InBlock cfg classId (block + cfg.sizeClassMap.getSizeByClassId classId)) :
    OddEvenSeparated cfg opts classId block m c c' ↔
      (c.size = 0 ∨ c'.size = 0) ∧ c.draw % 2 ≠ c'.draw % 2 ∧ c.draw % 16 ≠ 0 ∧
        c'.draw % 16 ≠ 0 ∧ c.Doubles ∧ c'.Doubles := by
  have hsz := cfg.sizeClassMap.size_aligned classId hc hl
  have hfit := hin.2.2.1
  have hlow := hin.2.1
  have hend1 : block + cfg.sizeClassMap.getSizeByClassId classId < 2^56 := by omega
  have hend16 : (block + cfg.sizeClassMap.getSizeByClassId classId) % 16 = 0 := by omega
  have hend2 : block + cfg.sizeClassMap.getSizeByClassId classId +
      cfg.sizeClassMap.getSizeByClassId classId < 2^56 := by omega
  have hend2' : (block + cfg.sizeClassMap.getSizeByClassId classId +
      cfg.sizeClassMap.getSizeByClassId classId) % 16 = 0 := by omega
  have hkept : ∀ g, c.user/16 ≤ g → 16*g < c.user + c.size →
      (taggedMem cfg opts classId block m c c').tag g =
        (c.apply cfg opts classId block m).tag g := fun g _ hhi =>
    ChunkTagging.apply_outside hin' hend2 hend2' g (by omega)
  have hkept' : ∀ g, c'.user/16 ≤ g → 16*g < c'.user + c'.size →
      (taggedMem cfg opts classId block m c c').tag g =
        (c'.apply cfg opts classId (block + cfg.sizeClassMap.getSizeByClassId classId)
          (c.apply cfg opts classId block m)).tag g := fun _ _ _ => rfl
  have hnonzero := ChunkTagging.nonzero_iff hin hend1 hend16 hkept
  have hnonzero' := ChunkTagging.nonzero_iff hin' hend2 hend2' hkept'
  have hptr : extractTag (c.taggedBegin cfg opts classId block m) = c.draw % 16 :=
    c.taggedBegin_tag hin hend1
  have hptr' : extractTag (c'.taggedBegin cfg opts classId
      (block + cfg.sizeClassMap.getSizeByClassId classId) (c.apply cfg opts classId block m)) =
        c'.draw % 16 :=
    c'.taggedBegin_tag hin' hend2
  constructor
  · intro h
    obtain ⟨h0, hsize⟩ := hnonzero.mp h.nonzero
    obtain ⟨h0', hsize'⟩ := hnonzero'.mp h.nonzero'
    have hdraws := h.parity _ _ (.inl rfl) (.inl rfl)
    rw [hptr, hptr'] at hdraws
    refine ⟨?_, by omega, h0, h0', fun hne => ?_, fun hne => ?_⟩
    · by_contra hboth
      rw [not_or] at hboth
      obtain ⟨tag, htag, heven⟩ := ChunkTagging.hasTag_even hin hend1 hend16 hkept hboth.1
      obtain ⟨tag', htag', heven'⟩ := ChunkTagging.hasTag_even hin' hend2 hend2' hkept' hboth.2
      exact h.parity _ _ htag htag' (heven.trans heven'.symm)
    · obtain ⟨tag, htag, heven⟩ := ChunkTagging.hasTag_even hin hend1 hend16 hkept hne
      have hodd' := h.parity _ _ htag (.inl rfl)
      rw [hptr'] at hodd'
      exact ⟨by omega, hsize hne⟩
    · obtain ⟨tag, htag, heven⟩ := ChunkTagging.hasTag_even hin' hend2 hend2' hkept' hne
      have hodd' := h.parity _ _ (.inl rfl) htag
      rw [hptr] at hodd'
      exact ⟨by omega, hsize' hne⟩
  · rintro ⟨hempty, hdraws, h0, h0', hd, hd'⟩
    refine ⟨oddEvenMask_adjacent cfg.sizeClassMap opts block hodd hc hl, fun tag tag' htag htag' => ?_,
      hnonzero.mpr ⟨h0, fun hne => (hd hne).2⟩, hnonzero'.mpr ⟨h0', fun hne => (hd' hne).2⟩⟩
    rcases htag.cases hin hend1 hend16 hkept with htag | ⟨hne, htag | ⟨-, hlast⟩⟩
    · rcases htag'.cases hin' hend2 hend2' hkept' with htag' | ⟨hne', htag' | ⟨-, hlast⟩⟩
      · omega
      · have heven := (hd' hne').1
        omega
      · exact absurd (hd' hne').2.2 hlast
    · rcases htag'.cases hin' hend2 hend2' hkept' with htag' | ⟨hne', -⟩
      · have heven := (hd hne).1
        omega
      · exact absurd hempty (not_or.mpr ⟨hne, hne'⟩)
    · exact absurd (hd hne).2.2 hlast

/-- An allocation of size 0 beside one of 16 bytes. -/
theorem oddEvenSeparated_empty :
    OddEvenSeparated defaultConfig { defaultOptions with useOddEvenTags := true } 1 0x10000 Mem.fresh
      (.prepared 0x10010 0 1) (.prepared 0x10030 16 2) :=
  (oddEvenSeparated_iff defaultConfig { defaultOptions with useOddEvenTags := true } 1 0x10000
    Mem.fresh (.prepared 0x10010 0 1) (.prepared 0x10030 16 2) rfl (by decide) (by decide)
    (by decide) (by decide) ⟨by decide, by decide, by decide, trivial⟩
    ⟨by decide, by decide, by decide, trivial⟩).mpr
    ⟨.inl rfl, by decide, by decide, by decide, fun h => absurd rfl h,
      fun _ => ⟨by decide, by decide, rfl⟩⟩

/-- Two adjacent chunks of 16 bytes whose drawn tags, 1 and 2, do have opposite parity: their
granules hold the tags 2 and 4. -/
theorem oddEvenSeparated_counterexample :
    let opts := { defaultOptions with useOddEvenTags := true }
    let c := ChunkTagging.prepared 0x10010 16 1
    let c' := ChunkTagging.prepared 0x10030 16 2
    (taggedMem defaultConfig opts 1 0x10000 Mem.fresh c c').tag 0x1001 = 2 ∧
      (taggedMem defaultConfig opts 1 0x10000 Mem.fresh c c').tag 0x1003 = 4 ∧
      ¬ OddEvenSeparated defaultConfig opts 1 0x10000 Mem.fresh c c' := by
  refine ⟨by decide, by decide, ?_⟩
  intro h
  have hparity := h.parity 2 4 (.inr ⟨0x1001, by decide, by decide, by decide⟩)
    (.inr ⟨0x1003, by decide, by decide, by decide⟩)
  exact absurd hparity (by decide)

end ScudoMte.Combined
