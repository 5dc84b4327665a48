import ScudoMte.Common
import ScudoMte.Library.ByteMemory
import ScudoMte.Library.Ownership

namespace ScudoMte

open ByteMemory Ownership

/-- Memory as the allocator sees it. `tag` is the shadow tag of each 16-byte granule,
`headerKey` a history variable: the pointer value with which the header at an address was last
checksummed. -/
structure Mem where
  data : Bytes
  tag : Nat → Nat
  headerKey : Nat → Nat

/-- `m'` agrees with `m` on every byte, granule and header outside `[lo, hi)`. -/
structure Mem.AgreeOff (m m' : Mem) (lo hi : Nat) : Prop where
  data : ByteMemory.AgreeOff m.data m'.data lo hi
  tag : ∀ g, 16*g+16 ≤ lo ∨ hi ≤ 16*g → m'.tag g = m.tag g
  headerKey : ∀ a, a < lo ∨ hi ≤ a → m'.headerKey a = m.headerKey a

theorem Mem.AgreeOff.refl (m : Mem) (lo hi : Nat) : m.AgreeOff m lo hi :=
  ⟨.refl _ _ _, fun _ _ => rfl, fun _ _ => rfl⟩

theorem Mem.AgreeOff.trans {m m' m'' : Mem} {lo hi : Nat} (h : m.AgreeOff m' lo hi)
    (h' : m'.AgreeOff m'' lo hi) : m.AgreeOff m'' lo hi :=
  ⟨h.data.trans h'.data, fun g hg => (h'.tag g hg).trans (h.tag g hg),
    fun a ha => (h'.headerKey a ha).trans (h.headerKey a ha)⟩

theorem Mem.AgreeOff.mono {m m' : Mem} {lo hi lo' hi' : Nat} (h : m.AgreeOff m' lo hi)
    (h1 : lo' ≤ lo) (h2 : hi ≤ hi') : m.AgreeOff m' lo' hi' :=
  ⟨h.data.mono h1 h2, fun g hg => h.tag g (by omega), fun a ha => h.headerKey a (by omega)⟩

/-- `m'` agrees with `m` on every byte, granule and header inside a range. -/
structure Mem.SameOn (m m' : Mem) (r : Range) : Prop where
  data : AgreeOn m.data m'.data r.lo r.hi
  tag : ∀ g, r.lo ≤ 16*g → 16*g+16 ≤ r.hi → m'.tag g = m.tag g
  headerKey : ∀ a, r.lo ≤ a → a < r.hi → m'.headerKey a = m.headerKey a

theorem Mem.SameOn.refl (m : Mem) (r : Range) : m.SameOn m r :=
  ⟨fun _ _ _ => rfl, fun _ _ _ => rfl, fun _ _ _ => rfl⟩

theorem Mem.SameOn.trans {m m' m'' : Mem} {r : Range} (h : m.SameOn m' r) (h' : m'.SameOn m'' r) :
    m.SameOn m'' r :=
  ⟨fun a h1 h2 => (h'.data a h1 h2).trans (h.data a h1 h2),
    fun g h1 h2 => (h'.tag g h1 h2).trans (h.tag g h1 h2),
    fun a h1 h2 => (h'.headerKey a h1 h2).trans (h.headerKey a h1 h2)⟩

/-- What a change leaves alone outside a range, it leaves alone on every disjoint one. -/
theorem Mem.AgreeOff.sameOn {m m' : Mem} {r s : Range} (h : m.AgreeOff m' r.lo r.hi)
    (hd : r.Disjoint s) : m.SameOn m' s := by
  rcases hd with hd | hd
  · exact ⟨fun a h1 h2 => h.data a (by omega), fun g h1 h2 => h.tag g (by omega),
      fun a h1 h2 => h.headerKey a (by omega)⟩
  · exact ⟨fun a h1 h2 => h.data a (by omega), fun g h1 h2 => h.tag g (by omega),
      fun a h1 h2 => h.headerKey a (by omega)⟩

/-- The granules that start in `[lo, hi)` have tag `t`. -/
def Mem.TagsAre (m : Mem) (lo hi t : Nat) : Prop := ∀ g, lo ≤ 16*g → 16*g < hi → m.tag g = t

/-- A plain store of `n` bytes: tags do not change. -/
def Mem.write (m : Mem) (a n v : Nat) : Mem := { m with data := store m.data a n v }

def Mem.memset (m : Mem) (a : Nat) (b : UInt8) (n : Nat) : Mem :=
  { m with data := fill m.data a n b }

def Mem.memcpy (m : Mem) (dst src n : Nat) : Mem := { m with data := copy m.data dst src n }

/-- A mapping made over `[lo, lo+n)`, or pages of it given back: zero bytes under tag 0. -/
def Mem.zeroPages (m : Mem) (lo n : Nat) : Mem :=
  { m with
    data := fill m.data lo n 0
    tag := fun g => if lo ≤ 16*g ∧ 16*g < lo+n then 0 else m.tag g }

@[simp] theorem Mem.write_tag (m : Mem) (a n v : Nat) : (m.write a n v).tag = m.tag := rfl

@[simp] theorem Mem.write_headerKey (m : Mem) (a n v : Nat) :
    (m.write a n v).headerKey = m.headerKey := rfl

@[simp] theorem Mem.memset_tag (m : Mem) (a n : Nat) (b : UInt8) :
    (m.memset a b n).tag = m.tag := rfl

@[simp] theorem Mem.memcpy_tag (m : Mem) (dst src n : Nat) :
    (m.memcpy dst src n).tag = m.tag := rfl

theorem Mem.write_agreeOff (m : Mem) (a n v : Nat) : m.AgreeOff (m.write a n v) a (a+n) :=
  ⟨store_agreeOff _ _ _ _, fun _ _ => rfl, fun _ _ => rfl⟩

theorem Mem.memset_agreeOff (m : Mem) (a n : Nat) (b : UInt8) :
    m.AgreeOff (m.memset a b n) a (a+n) :=
  ⟨fill_agreeOff _ _ _ _, fun _ _ => rfl, fun _ _ => rfl⟩

theorem Mem.memcpy_agreeOff (m : Mem) (dst src n : Nat) :
    m.AgreeOff (m.memcpy dst src n) dst (dst+n) :=
  ⟨copy_agreeOff _ _ _ _, fun _ _ => rfl, fun _ _ => rfl⟩

theorem Mem.zeroPages_agreeOff (m : Mem) (lo n : Nat) :
    m.AgreeOff (m.zeroPages lo n) lo (lo+n) := by
  refine ⟨fill_agreeOff _ _ _ _, ?_, fun _ _ => rfl⟩
  intro g hg
  simp only [Mem.zeroPages]
  rw [if_neg (by omega)]

/-- Memory that was never written. -/
def Mem.fresh : Mem := { data := fun _ => 0, tag := fun _ => 0, headerKey := fun _ => 0 }

/-- The pointer to address `a` that carries tag `t` in bits 56..59. -/
def taggedPtr (a t : Nat) : Nat := 2^56*t + a

def untagPointer (ptr : Nat) : Nat := ptr &&& (2^56 - 1)

def extractTag (ptr : Nat) : Nat := ptr >>> 56 &&& 0xf

/-- Replace the tag field of a pointer. -/
def setTagField (ptr tag : Nat) : Nat := 2^56*(tag%16) + (ptr - 2^56*extractTag ptr)

/-- `__builtin_riscv_zimte_gentag`, which yields the tag `draw`. -/
def gentag (ptr draw : Nat) : Nat := setTagField ptr draw

/-- `__builtin_riscv_zimte_addtag`. -/
def addtag (ptr k : Nat) : Nat := setTagField ptr (extractTag ptr + k)

/-- `__builtin_riscv_zimte_settag`: the `n` granules from the pointer's address take its tag. -/
def settag (m : Mem) (ptr n : Nat) : Mem :=
  { m with tag := fun g =>
      if untagPointer ptr / 16 ≤ g ∧ g < untagPointer ptr / 16 + n then extractTag ptr
      else m.tag g }

def addTagImmediate (ptr tag : Nat) : Nat :=
  if tag = 0 then ptr else if tag < 16 then addtag ptr tag else ptr

def addFixedTag (ptr tag : Nat) : Nat := if tag = 0 then ptr else addTagImmediate ptr tag

/-- The Zimte version takes an exclusion mask and does not use it. -/
def selectRandomTag (ptr _excludeMask draw : Nat) : Nat := gentag ptr draw

/-- The loop of `storeTags`; the fuel bounds the number of rounds. -/
def storeTagsFrom (tag stop : Nat) : Nat → Nat → Mem → Mem
  | 0, _, m => m
  | fuel+1, ptr, m =>
      if ptr < stop then storeTagsFrom tag stop fuel (ptr+16) (settag m (addFixedTag ptr tag) 1)
      else m

/-- `storeTags(Begin, End)`: the pointer it returns is `End`. -/
def storeTags (m : Mem) (start stop : Nat) : Mem :=
  storeTagsFrom (extractTag start) stop (stop-start) start m

def storeTag (m : Mem) (ptr : Nat) : Mem := settag m ptr 1

/-- The Zimte version has no load instruction and returns its argument. -/
def loadTag (ptr : Nat) : Nat := ptr

/-- `setRandomTag`: the tagged begin, the tagged end and the memory after the tag stores. -/
def setRandomTag (m : Mem) (ptr size excludeMask draw : Nat) : Nat × Nat × Mem :=
  let taggedBegin := selectRandomTag ptr excludeMask draw
  (taggedBegin, taggedBegin + size, storeTags m taggedBegin (taggedBegin + size))

theorem untagPointer_eq (ptr : Nat) : untagPointer ptr = ptr % 2^56 := Word.and_low_mask ptr 56

theorem extractTag_eq (ptr : Nat) : extractTag ptr = ptr / 2^56 % 16 := by
  have h : ptr >>> 56 &&& 0xf = ptr >>> 56 % 16 := Word.and_low_mask _ 4
  rw [extractTag, h, Nat.shiftRight_eq_div_pow]

theorem untagPointer_lt (ptr : Nat) : untagPointer ptr < 2^56 := by
  rw [untagPointer_eq]
  exact Nat.mod_lt _ (by decide)

@[simp] theorem untagPointer_untagPointer (ptr : Nat) :
    untagPointer (untagPointer ptr) = untagPointer ptr := by
  simp [untagPointer_eq]

theorem untagPointer_of_lt {a : Nat} (ha : a < 2^56) : untagPointer a = a := by
  rw [untagPointer_eq, Nat.mod_eq_of_lt ha]

@[simp] theorem taggedPtr_zero (a : Nat) : taggedPtr a 0 = a := by simp [taggedPtr]

theorem untagPointer_taggedPtr {a : Nat} (t : Nat) (ha : a < 2^56) :
    untagPointer (taggedPtr a t) = a := by
  rw [untagPointer_eq, taggedPtr, Nat.mul_add_mod, Nat.mod_eq_of_lt ha]

theorem extractTag_taggedPtr {a t : Nat} (ha : a < 2^56) (ht : t < 16) :
    extractTag (taggedPtr a t) = t := by
  rw [extractTag_eq, taggedPtr, Nat.mul_add_div (by decide), Nat.div_eq_of_lt ha, Nat.add_zero,
    Nat.mod_eq_of_lt ht]

theorem setTagField_taggedPtr {a t : Nat} (u : Nat) (ha : a < 2^56) (ht : t < 16) :
    setTagField (taggedPtr a t) u = taggedPtr a (u%16) := by
  rw [setTagField, extractTag_taggedPtr ha ht, taggedPtr, taggedPtr, Nat.add_sub_cancel_left]

theorem gentag_taggedPtr {a t : Nat} (draw : Nat) (ha : a < 2^56) (ht : t < 16) :
    gentag (taggedPtr a t) draw = taggedPtr a (draw%16) :=
  setTagField_taggedPtr draw ha ht

/-- On a pointer that already carries a tag, `addFixedTag` adds to it. -/
theorem addFixedTag_taggedPtr {a t k : Nat} (ha : a < 2^56) (ht : t < 16) (hk : k < 16) :
    addFixedTag (taggedPtr a t) k = taggedPtr a ((t+k)%16) := by
  unfold addFixedTag addTagImmediate
  split
  · next h => rw [h, Nat.add_zero, Nat.mod_eq_of_lt ht]
  · rw [addtag, extractTag_taggedPtr ha ht, setTagField_taggedPtr _ ha ht]

theorem addFixedTag_of_lt {a k : Nat} (ha : a < 2^56) (hk : k < 16) :
    addFixedTag a k = taggedPtr a k := by
  have h := addFixedTag_taggedPtr (t := 0) ha (by decide) hk
  rwa [taggedPtr_zero, Nat.zero_add, Nat.mod_eq_of_lt hk] at h

theorem taggedPtr_add (a n t : Nat) : taggedPtr a t + n = taggedPtr (a+n) t := by
  simp only [taggedPtr, Nat.add_assoc]

theorem taggedPtr_sub {a n : Nat} (t : Nat) (h : n ≤ a) :
    taggedPtr a t - n = taggedPtr (a-n) t := by
  simp only [taggedPtr]
  omega

@[simp] theorem settag_data (m : Mem) (ptr n : Nat) : (settag m ptr n).data = m.data := rfl

@[simp] theorem settag_headerKey (m : Mem) (ptr n : Nat) :
    (settag m ptr n).headerKey = m.headerKey := rfl

theorem settag_tag (m : Mem) {a t : Nat} (n g : Nat) (ha : a < 2^56) (ht : t < 16) :
    (settag m (taggedPtr a t) n).tag g = if a/16 ≤ g ∧ g < a/16+n then t else m.tag g := by
  simp only [settag, untagPointer_taggedPtr t ha, extractTag_taggedPtr ha ht]

@[simp] theorem storeTagsFrom_data (tag stop fuel ptr : Nat) (m : Mem) :
    (storeTagsFrom tag stop fuel ptr m).data = m.data := by
  induction fuel generalizing ptr m with
  | zero => rfl
  | succ fuel ih =>
    rw [storeTagsFrom]
    split
    · rw [ih, settag_data]
    · rfl

@[simp] theorem storeTagsFrom_headerKey (tag stop fuel ptr : Nat) (m : Mem) :
    (storeTagsFrom tag stop fuel ptr m).headerKey = m.headerKey := by
  induction fuel generalizing ptr m with
  | zero => rfl
  | succ fuel ih =>
    rw [storeTagsFrom]
    split
    · rw [ih, settag_headerKey]
    · rfl

@[simp] theorem storeTags_data (m : Mem) (start stop : Nat) :
    (storeTags m start stop).data = m.data :=
  storeTagsFrom_data _ _ _ _ _

@[simp] theorem storeTags_headerKey (m : Mem) (start stop : Nat) :
    (storeTags m start stop).headerKey = m.headerKey :=
  storeTagsFrom_headerKey _ _ _ _ _

/-- One round per granule: the loop counter carries the tag and `addFixedTag` adds it again,
so the granules from `a` up to `b` take the double of the tag. -/
theorem storeTagsFrom_tag (t : Nat) (ht : t < 16) (fuel a b g : Nat) (m : Mem)
    (ha : a < 2^56) (hb : b < 2^56) (hal : a % 16 = 0) (hf : b ≤ a + 16*fuel) :
    (storeTagsFrom t (taggedPtr b t) fuel (taggedPtr a t) m).tag g =
      if a/16 ≤ g ∧ g < (b+15)/16 then (2*t)%16 else m.tag g := by
  induction fuel generalizing a m with
  | zero =>
    rw [storeTagsFrom, if_neg (by omega)]
  | succ fuel ih =>
    have hc : taggedPtr a t < taggedPtr b t ↔ a < b := by simp [taggedPtr]
    rw [storeTagsFrom]
    by_cases hab : a < b
    · rw [if_pos (hc.mpr hab), addFixedTag_taggedPtr ha ht ht]
      by_cases hn : a + 16 < 2^56
      · rw [taggedPtr_add, ih (a+16) _ hn (by omega) (by omega), settag_tag m 1 g ha (Nat.mod_lt _ (by decide)),
          ← Nat.two_mul]
        split <;> split <;> first | rfl | (split <;> first | rfl | omega) | omega
      · -- the last granule below the tag field: the loop ends here
        have he : storeTagsFrom t (taggedPtr b t) fuel (taggedPtr a t + 16)
            (settag m (taggedPtr a ((t+t)%16)) 1) = settag m (taggedPtr a ((t+t)%16)) 1 := by
          cases fuel with
          | zero => rfl
          | succ n => rw [storeTagsFrom, if_neg (by simp only [taggedPtr]; omega)]
        rw [he, settag_tag m 1 g ha (Nat.mod_lt _ (by decide)), ← Nat.two_mul]
        split <;> split <;> first | rfl | omega
    · rw [if_neg (by rw [hc]; exact hab), if_neg (by omega)]

/-- `storeTags` on `[a, b)` with tag `t`: every granule that meets the range takes the tag
`2t mod 16`, no other granule changes. -/
theorem storeTags_tag (m : Mem) {a b t : Nat} (g : Nat) (ha : a < 2^56) (hb : b < 2^56)
    (ht : t < 16) (hal : a % 16 = 0) :
    (storeTags m (taggedPtr a t) (taggedPtr b t)).tag g =
      if a/16 ≤ g ∧ g < (b+15)/16 then (2*t)%16 else m.tag g := by
  rw [storeTags, extractTag_taggedPtr ha ht]
  exact storeTagsFrom_tag t ht _ a b g m ha hb hal (by simp only [taggedPtr]; omega)

theorem storeTags_agreeOff (m : Mem) {a b t : Nat} (lo hi : Nat) (ha : a < 2^56)
    (hb : b < 2^56) (ht : t < 16) (hal : a % 16 = 0) (hlo : lo ≤ a) (hhi : b ≤ hi)
    (hhi16 : hi % 16 = 0) :
    m.AgreeOff (storeTags m (taggedPtr a t) (taggedPtr b t)) lo hi := by
  refine ⟨?_, ?_, ?_⟩
  · rw [storeTags_data]; exact .refl _ _ _
  · intro g hg
    rw [storeTags_tag m g ha hb ht hal, if_neg (by omega)]
  · intro x _
    rw [storeTags_headerKey]

theorem storeTag_agreeOff (m : Mem) {a t : Nat} (lo hi : Nat) (ha : a < 2^56) (ht : t < 16)
    (hlo : lo ≤ a) (hhi : a < hi) (hlo16 : lo % 16 = 0) (hhi16 : hi % 16 = 0) :
    m.AgreeOff (storeTag m (taggedPtr a t)) lo hi := by
  refine ⟨.refl _ _ _, ?_, fun _ _ => rfl⟩
  intro g hg
  rw [storeTag, settag_tag m 1 g ha ht, if_neg (by omega)]

end ScudoMte
