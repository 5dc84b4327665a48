import ScudoMte.Memtag

namespace ScudoMte

open ByteMemory

namespace AArch64

/-- `stzg`: the granule of the pointer takes its tag and is zeroed. -/
def stzg (m : Mem) (ptr : Nat) : Mem :=
  { settag m ptr 1 with data := fill m.data (untagPointer ptr / 16 * 16) 16 0 }

/-- `dc gzva`: so does the cache line of the pointer. -/
def dcGzva (m : Mem) (lineSize ptr : Nat) : Mem :=
  let line := untagPointer ptr / lineSize * lineSize
  { m with
    data := fill m.data line lineSize 0
    tag := fun g => if line / 16 ≤ g ∧ g < line / 16 + lineSize / 16 then extractTag ptr
      else m.tag g }

/-- The loop at label 1; its condition comes last. -/
def stzgLoop (next : Nat) : Nat → Nat → Mem → Nat × Mem
  | 0, cur, m => (cur, m)
  | fuel+1, cur, m =>
      if cur + 16 < next then stzgLoop next fuel (cur+16) (stzg m cur) else (cur+16, stzg m cur)

/-- The loop at label 2. -/
def dcGzvaLoop (lineSize next : Nat) : Nat → Nat → Mem → Nat × Mem
  | 0, cur, m => (cur, m)
  | fuel+1, cur, m =>
      if cur + lineSize < next then
        dcGzvaLoop lineSize next fuel (cur + lineSize) (dcGzva m lineSize cur)
      else (cur + lineSize, dcGzva m lineSize cur)

/-- The loop at label 3, whose condition comes first. -/
def tailLoop (stop : Nat) : Nat → Nat → Mem → Nat × Mem
  | 0, cur, m => (cur, m)
  | fuel+1, cur, m => if cur ≥ stop then (cur, m) else tailLoop stop fuel (cur+16) (stzg m cur)

/-- `storeTags`; `lineSizeLog` is `none` where the DC instructions are unavailable. -/
def storeTags (lineSizeLog : Option Nat) (m : Mem) (start stop : Nat) : Nat × Mem :=
  match lineSizeLog with
  | none => tailLoop stop (stop-start) start m
  | some k =>
      let lineSize := 2^k
      if stop - start < lineSize <<< 1 then tailLoop stop (stop-start) start m
      else
        let (cur, m) := stzgLoop (start ||| (lineSize - 1)) (stop-start) start m
        let (cur, m) := dcGzvaLoop lineSize (roundDown stop lineSize) (stop-start) cur m
        tailLoop stop (stop-start) cur m

end AArch64

/-- The Zimte `storeTags` with the pointer that it returns. -/
def storeTagsEnd (m : Mem) (start stop : Nat) : Nat × Mem := (stop, storeTags m start stop)

/-- The granules that meet `[a, b)` take the tag and no others change, and the pointer that is
returned is the end of the last of them. -/
structure StoresTags (m : Mem) (a b t : Nat) (r : Nat × Mem) : Prop where
  tag : ∀ g, r.2.tag g = if a < 16*g + 16 ∧ 16*g < b then t else m.tag g
  ptr : r.1 = taggedPtr ((b+15) / 16 * 16) t

/-- How far a loop has come: the granules from `a` up to `c` have the tag. -/
structure TaggedUpTo (m0 : Mem) (a t c : Nat) (m : Mem) : Prop where
  aligned : c % 16 = 0
  le : a ≤ c
  tag : ∀ g, m.tag g = if a/16 ≤ g ∧ g < c/16 then t else m0.tag g

section Loops

variable {m0 m : Mem} {a b c t : Nat}

theorem taggedUpTo_start (hal : a % 16 = 0) : TaggedUpTo m0 a t a m0 :=
  ⟨hal, le_refl _, fun g => (if_neg (by omega)).symm⟩

theorem taggedPtr_lt_iff (a b t : Nat) : taggedPtr a t < taggedPtr b t ↔ a < b := by
  simp [taggedPtr]

theorem TaggedUpTo.stzg (h : TaggedUpTo m0 a t c m) (hc : c < 2^56) (ht : t < 16) :
    TaggedUpTo m0 a t (c+16) (AArch64.stzg m (taggedPtr c t)) := by
  have hal := h.aligned
  have hle := h.le
  refine ⟨by omega, by omega, ?_⟩
  intro g
  have htag := settag_tag m 1 g hc ht
  rw [show (AArch64.stzg m (taggedPtr c t)).tag = (settag m (taggedPtr c t) 1).tag from rfl, htag,
    h.tag g]
  by_cases hg : c/16 ≤ g ∧ g < c/16 + 1
  · rw [if_pos hg, if_pos (by omega)]
  · rw [if_neg hg]
    congr 1
    exact propext (by omega)

theorem TaggedUpTo.stzgLoop {n : Nat} (fuel : Nat) (h : TaggedUpTo m0 a t c m) (hc : c < n)
    (hn : n < 2^56) (hend : n % 16 = 15) (ht : t < 16) (hf : n < c + 16*fuel) :
    ∃ m', AArch64.stzgLoop (taggedPtr n t) fuel (taggedPtr c t) m = (taggedPtr (n+1) t, m') ∧
      TaggedUpTo m0 a t (n+1) m' := by
  induction fuel generalizing c m with
  | zero => omega
  | succ fuel ih =>
    have hal := h.aligned
    have hstep := h.stzg (by omega) ht
    rw [AArch64.stzgLoop, taggedPtr_add]
    by_cases hlt : c + 16 < n
    · rw [if_pos ((taggedPtr_lt_iff _ _ _).mpr hlt)]
      exact ih hstep hlt (by omega)
    · rw [if_neg (fun h => hlt ((taggedPtr_lt_iff _ _ _).mp h))]
      have heq : c + 16 = n + 1 := by omega
      rw [heq] at hstep ⊢
      exact ⟨_, rfl, hstep⟩

theorem TaggedUpTo.tailLoop (fuel : Nat) (h : TaggedUpTo m0 a t c m) (hc : c < b + 16)
    (hb : b < 2^56) (ht : t < 16) (hf : b ≤ c + 16*fuel) :
    ∃ m', AArch64.tailLoop (taggedPtr b t) fuel (taggedPtr c t) m =
        (taggedPtr ((b+15)/16*16) t, m') ∧
      TaggedUpTo m0 a t ((b+15)/16*16) m' := by
  have hal := h.aligned
  have hdone (hbc : b ≤ c) : (b+15)/16*16 = c := by omega
  induction fuel generalizing c m with
  | zero => exact ⟨m, by rw [hdone (by omega)]; rfl, by rwa [hdone (by omega)]⟩
  | succ fuel ih =>
    rw [AArch64.tailLoop]
    by_cases hbc : b ≤ c
    · rw [if_pos (not_lt.mp fun h => absurd ((taggedPtr_lt_iff _ _ _).mp h) (not_lt.mpr hbc)),
        hdone hbc]
      exact ⟨m, rfl, h⟩
    · rw [if_neg (not_le.mpr ((taggedPtr_lt_iff _ _ _).mpr (not_le.mp hbc))), taggedPtr_add]
      exact ih (h.stzg (by omega) ht) (by omega) (by omega) (by omega) (fun _ => by omega)

theorem TaggedUpTo.dcGzva {k : Nat} (h : TaggedUpTo m0 a t c m) (hk : 4 ≤ k) (hc : c < 2^56)
    (hd : 2^k ∣ c) (ht : t < 16) :
    TaggedUpTo m0 a t (c + 2^k) (AArch64.dcGzva m (2^k) (taggedPtr c t)) := by
  have hal := h.aligned
  have hle := h.le
  have h16 : 2^k % 16 = 0 := Nat.mod_eq_zero_of_dvd (Nat.pow_dvd_pow 2 hk)
  refine ⟨by omega, by omega, ?_⟩
  intro g
  simp only [AArch64.dcGzva, untagPointer_taggedPtr t hc, extractTag_taggedPtr hc ht,
    Nat.div_mul_cancel hd, h.tag g]
  by_cases hg : c/16 ≤ g ∧ g < c/16 + 2^k/16
  · rw [if_pos hg, if_pos (by omega)]
  · rw [if_neg hg]
    congr 1
    exact propext (by omega)

theorem TaggedUpTo.dcGzvaLoop {k n : Nat} (fuel : Nat) (h : TaggedUpTo m0 a t c m) (hk : 4 ≤ k)
    (hc : c < n) (hn : n < 2^56) (hdc : 2^k ∣ c) (hdn : 2^k ∣ n) (ht : t < 16)
    (hf : n ≤ c + 16*fuel) :
    ∃ m', AArch64.dcGzvaLoop (2^k) (taggedPtr n t) fuel (taggedPtr c t) m = (taggedPtr n t, m') ∧
      TaggedUpTo m0 a t n m' := by
  induction fuel generalizing c m with
  | zero => omega
  | succ fuel ih =>
    have h16 : 2^4 ≤ 2^k := Nat.pow_le_pow_right (by decide) hk
    have hstep := h.dcGzva hk (by omega) hdc ht
    rw [AArch64.dcGzvaLoop, taggedPtr_add]
    by_cases hlt : c + 2^k < n
    · rw [if_pos ((taggedPtr_lt_iff _ _ _).mpr hlt)]
      exact ih hstep hlt (Nat.dvd_add hdc dvd_rfl) (by omega)
    · rw [if_neg (fun h => hlt ((taggedPtr_lt_iff _ _ _).mp h))]
      have heq : c + 2^k = n :=
        le_antisymm (Word.add_le_of_dvd_of_lt hdc hdn hc) (not_lt.mp hlt)
      rw [heq] at hstep ⊢
      exact ⟨_, rfl, hstep⟩

/-- The bits of a line do not reach the tag. -/
theorem taggedPtr_div_mul (k : Nat) (hk : k ≤ 56) (a t : Nat) :
    taggedPtr a t / 2^k * 2^k = taggedPtr (a / 2^k * 2^k) t := by
  have hpos := Nat.two_pow_pos k
  have hsplit : 2^56 * t = 2^k * (2^(56-k) * t) := by
    rw [← Nat.mul_assoc, ← pow_add, Nat.add_sub_cancel' hk]
  rw [taggedPtr, taggedPtr, hsplit, Nat.mul_add_div hpos, Nat.add_mul, Nat.mul_comm (2^(56-k) * t)]

theorem TaggedUpTo.storesTags (h : TaggedUpTo m0 a t ((b+15)/16*16) m) (hal : a % 16 = 0) :
    StoresTags m0 a b t (taggedPtr ((b+15)/16*16) t, m) := by
  refine ⟨?_, rfl⟩
  intro g
  rw [h.tag g]
  congr 1
  exact propext (by omega)

end Loops

section StoreTags

variable {m : Mem} {a b t : Nat}

/-- The AArch64 loops store the tags, with cache lines of any size or without them. -/
theorem AArch64.storeTags_storesTags {lineSizeLog : Option Nat}
    (hline : ∀ k, lineSizeLog = some k → 4 ≤ k ∧ k ≤ 17) (hb : b < 2^56) (ht : t < 16)
    (hal : a % 16 = 0) (hab : a ≤ b) :
    StoresTags m a b t (AArch64.storeTags lineSizeLog m (taggedPtr a t) (taggedPtr b t)) := by
  have hsize : taggedPtr b t - taggedPtr a t = b - a := by simp only [taggedPtr]; omega
  have hslow : StoresTags m a b t
      (AArch64.tailLoop (taggedPtr b t) (b - a) (taggedPtr a t) m) := by
    obtain ⟨m', hm', htags⟩ := (@taggedUpTo_start m a t hal).tailLoop (b-a) (by omega)
      hb ht (by omega)
    rw [hm']
    exact htags.storesTags hal
  cases lineSizeLog with
  | none =>
    rw [AArch64.storeTags, hsize]
    exact hslow
  | some k =>
    obtain ⟨hk4, hk17⟩ := hline k rfl
    have hpos := Nat.two_pow_pos k
    have h16 : 2^k % 16 = 0 := Nat.mod_eq_zero_of_dvd (Nat.pow_dvd_pow 2 hk4)
    have hshift : 2^k <<< 1 = 2 * 2^k := by rw [Nat.shiftLeft_eq, Nat.mul_comm]
    simp only [AArch64.storeTags, hsize, hshift]
    split
    · exact hslow
    · next hlong =>
      -- the first line ends in the range, and so does one more
      obtain ⟨hdiv, hdiv'⟩ := Word.div_mul_le_lt a (2^k) hpos
      obtain ⟨hdivb, hdivb'⟩ := Word.div_mul_le_lt b (2^k) hpos
      have hda : 2^k ∣ a / 2^k * 2^k := Dvd.intro_left _ rfl
      have hdb : 2^k ∣ b / 2^k * 2^k := Dvd.intro_left _ rfl
      have hnext : taggedPtr a t ||| (2^k - 1) = taggedPtr (a / 2^k * 2^k + (2^k - 1)) t := by
        rw [Word.or_low_mask, taggedPtr_div_mul k (by omega), taggedPtr_add]
      have hbic : roundDown (taggedPtr b t) (2^k) = taggedPtr (b / 2^k * 2^k) t := by
        rw [roundDown_eq _ _ (by simp only [taggedPtr]; omega) (by omega),
          taggedPtr_div_mul k (by omega)]
      have hlast : a / 2^k * 2^k + (2^k - 1) + 1 = a / 2^k * 2^k + 2^k := by omega
      generalize a / 2^k * 2^k = la at *
      generalize b / 2^k * 2^k = lb at *
      have hmod : la % 16 = 0 := by
        have hdvd := (Nat.pow_dvd_pow 2 hk4).trans hda
        omega
      obtain ⟨m1, hm1, htags1⟩ := (@taggedUpTo_start m a t hal).stzgLoop
        (n := la + (2^k - 1)) (b-a) (by omega) (by omega) (by omega) ht (by omega)
      rw [hlast] at hm1 htags1
      have hdla : 2^k ∣ la + 2^k := Nat.dvd_add hda dvd_rfl
      have hfar : la + 2^k < lb := by
        by_contra hge
        have hle := Word.eq_of_dvd_of_lt hdla hdb (by omega) (by omega)
        omega
      obtain ⟨m2, hm2, htags2⟩ := htags1.dcGzvaLoop (b-a) hk4 hfar (by omega) hdla hdb ht (by omega)
      obtain ⟨m3, hm3, htags3⟩ := htags2.tailLoop (b-a) (by omega) hb ht (by omega)
      rw [hnext, hm1]
      simp only [hbic, hm2, hm3]
      exact htags3.storesTags hal

/-- The Zimte loop does what the AArch64 one does only where the end is aligned and there is no tag
to double. -/
theorem storeTagsEnd_storesTags_iff {lineSizeLog : Option Nat}
    (hline : ∀ k, lineSizeLog = some k → 4 ≤ k ∧ k ≤ 17) (hb : b < 2^56) (ht : t < 16)
    (hal : a % 16 = 0) (hab : a ≤ b) :
    StoresTags m a b t (AArch64.storeTags lineSizeLog m (taggedPtr a t) (taggedPtr b t)) ∧
      (StoresTags m a b t (storeTagsEnd m (taggedPtr a t) (taggedPtr b t)) ↔
        b % 16 = 0 ∧ (t = 0 ∨ a = b)) := by
  refine ⟨AArch64.storeTags_storesTags hline hb ht hal hab, ?_⟩
  have htag (g : Nat) := storeTags_tag m g (show a < 2^56 by omega) hb ht hal
  constructor
  · intro h
    have hptr : taggedPtr b t = taggedPtr ((b+15)/16*16) t := h.ptr
    simp only [taggedPtr] at hptr
    refine ⟨by omega, ?_⟩
    rcases Nat.eq_or_lt_of_le hab with heq | hlt
    · exact .inr heq
    · have hg := h.tag (a/16)
      rw [storeTagsEnd, htag, if_pos (by omega), if_pos (by omega)] at hg
      exact .inl (by omega)
  · rintro ⟨hb16, hor⟩
    refine ⟨?_, ?_⟩
    · intro g
      rw [storeTagsEnd, htag]
      rcases hor with rfl | rfl
      · congr 1
        exact propext (by omega)
      · rw [if_neg (by omega), if_neg (by omega)]
    · rw [show (b+15)/16*16 = b by omega]
      rfl

theorem storeTagsEnd_storesTags_untagged :
    StoresTags .fresh 16 48 0 (AArch64.storeTags (some 6) .fresh (taggedPtr 16 0) (taggedPtr 48 0)) ∧
      (StoresTags .fresh 16 48 0 (storeTagsEnd .fresh (taggedPtr 16 0) (taggedPtr 48 0)) ↔
        48 % 16 = 0 ∧ (0 = 0 ∨ 16 = 48)) :=
  storeTagsEnd_storesTags_iff (by decide) (by decide) (by decide) (by decide) (by decide)

/-- 24 bytes with tag 5: their granules take tag 10, and the end is not rounded. -/
theorem storeTagsEnd_doubled :
    ¬ StoresTags .fresh 16 40 5 (storeTagsEnd .fresh (taggedPtr 16 5) (taggedPtr 40 5)) ∧
      (storeTagsEnd .fresh (taggedPtr 16 5) (taggedPtr 40 5)).2.tag 1 = 10 ∧
      (storeTagsEnd .fresh (taggedPtr 16 5) (taggedPtr 40 5)).1 = taggedPtr 40 5 := by
  have htag : (storeTagsEnd .fresh (taggedPtr 16 5) (taggedPtr 40 5)).2.tag 1 = 10 := by decide
  refine ⟨?_, htag, rfl⟩
  intro h
  have hg := h.tag 1
  rw [htag] at hg
  exact absurd hg (by decide)

end StoreTags

end ScudoMte
