import ScudoMte.Release.BufferPool

namespace ScudoMte.Release.BufferPool

open Ownership TransitionSystem

theorem testBit_shiftLeft_one (i j : Nat) : (1 <<< i).testBit j = decide (i = j) := by
  rw [Nat.one_shiftLeft, Nat.testBit_two_pow]

/-- Taking a slot off the mask clears its bit. -/
theorem testBit_take {mask i : Nat} (h : mask.testBit i = true) (j : Nat) :
    (mask ^^^ 1 <<< i).testBit j = (mask.testBit j && decide (i ≠ j)) := by
  rw [Nat.testBit_xor, testBit_shiftLeft_one]
  by_cases hij : i = j
  · subst hij
    simp [h]
  · simp [hij]

theorem testBit_give (mask i j : Nat) :
    (mask ||| 1 <<< i).testBit j = (mask.testBit j || decide (i = j)) := by
  rw [Nat.testBit_or, testBit_shiftLeft_one]

theorem leastSignificantSetBit_testBit {mask : Nat} (h0 : mask ≠ 0) (hlt : mask < 2^64) :
    mask.testBit (getLeastSignificantSetBitIndex mask) = true := by
  obtain ⟨-, hodd⟩ := getLeastSignificantSetBitIndex_spec mask (Nat.pos_of_ne_zero h0) hlt
  rw [Nat.testBit_eq_decide_div_mod_eq, decide_eq_true hodd]

theorem leastSignificantSetBit_le {mask : Nat} (h0 : mask ≠ 0) (hlt : mask < 2^64) {j : Nat}
    (hj : mask.testBit j = true) : getLeastSignificantSetBitIndex mask ≤ j := by
  obtain ⟨⟨c, hc⟩, -⟩ := getLeastSignificantSetBitIndex_spec mask (Nat.pos_of_ne_zero h0) hlt
  by_contra hlt'
  rw [hc, Nat.testBit_two_pow_mul] at hj
  simp [hlt'] at hj

variable {Thread : Type*} {l : PoolLayout} {s s' : BufferPool Thread} {a : PoolAction Thread}

/-- A request is either mapped, and then it is too large or all static buffers are in use, or it
takes a static buffer that is free. -/
theorem getBuffer_cases (l : PoolLayout) {mask : Nat} (h0 : mask ≠ 0) (hlt : mask < 2^64)
    (n : Nat) :
    (getBuffer l mask n = (mask, .mapping n) ∧
      (n > l.staticBufferNumElements ∨ ∀ i < l.staticBufferCount, mask.testBit i = false)) ∨
    ∃ i < l.staticBufferCount, mask.testBit i = true ∧ n ≤ l.staticBufferNumElements ∧
      getBuffer l mask n = (mask ^^^ 1 <<< i, .filling n i) := by
  by_cases hn : n > l.staticBufferNumElements
  · exact .inl ⟨by rw [getBuffer, if_pos hn], .inl hn⟩
  · by_cases hi : getLeastSignificantSetBitIndex mask < l.staticBufferCount
    · refine .inr ⟨_, hi, leastSignificantSetBit_testBit h0 hlt, by omega, ?_⟩
      simp only [getBuffer, if_neg hn, if_pos hi, if_neg (not_le.mpr hi)]
    · refine .inl ⟨?_, .inr fun i hi' => ?_⟩
      · simp only [getBuffer, if_neg hn, if_neg hi, if_pos (not_lt.mp hi)]
      · by_contra hbit
        have hle := leastSignificantSetBit_le h0 hlt (Bool.eq_true_of_not_eq_false hbit)
        omega

/-- A static buffer's bit is clear while some thread fills or holds the buffer, and that is one
thread only. -/
structure StaticInv (l : PoolLayout) (s : BufferPool Thread) : Prop where
  mask_lt : s.mask < 2^64
  reserved : ∀ j, l.staticBufferCount ≤ j → j < 64 → s.mask.testBit j = true
  filling : ∀ t n i, s.pc t = .filling n i →
    i < l.staticBufferCount ∧ n ≤ l.staticBufferNumElements ∧ s.mask.testBit i = false
  alone : ∀ t t' n n' i, s.pc t = .filling n i → s.pc t' = .filling n' i → t = t'
  held : ∀ h ∈ s.held, ∀ i, slot l h = some i → i < l.staticBufferCount ∧
    h.buffer = staticBuffer l i ∧ s.mask.testBit i = false ∧ ∀ t n, s.pc t ≠ .filling n i
  slots : s.held.Pairwise fun a b => ∀ i, slot l a = some i → slot l b ≠ some i

theorem StaticInv.mask_ne_zero (h : StaticInv l s) : s.mask ≠ 0 := by
  intro h0
  have hbit := h.reserved 63 (Nat.le_of_lt_succ l.count_lt) (by decide)
  rw [h0, Nat.zero_testBit] at hbit
  exact Bool.false_ne_true hbit

theorem StaticInv.init (h : Init s) : StaticInv l s where
  mask_lt := by rw [h.mask]; decide
  reserved j _ hj := by rw [h.mask, Nat.testBit_two_pow_sub_one, decide_eq_true hj]
  filling t n i ht := by rw [h.pc t] at ht; cases ht
  alone t _ n _ i ht := by rw [h.pc t] at ht; cases ht
  held := by rw [h.held]; exact fun _ hm => absurd hm List.not_mem_nil
  slots := by rw [h.held]; exact .nil

theorem slot_static {t : Thread} {n i : Nat} (hi : i < l.staticBufferCount) :
    slot l ⟨t, n, staticBuffer l i⟩ = some i := if_pos hi.ne

/-- A buffer that is no static one is handed out. -/
theorem StaticInv.hold (h : StaticInv l s) {b : HeldBuffer Thread} (hb : slot l b = none) :
    StaticInv l { s with held := b :: s.held } := by
  refine ⟨h.mask_lt, h.reserved, h.filling, h.alone, ?_, ?_⟩
  · intro b' hb' i hi
    rcases List.mem_cons.mp hb' with rfl | hb'
    · rw [hb] at hi
      cases hi
    · exact h.held b' hb' i hi
  · refine List.pairwise_cons.mpr ⟨?_, h.slots⟩
    intro b' _ i hi
    rw [hb] at hi
    cases hi

/-- The static buffers do not depend on the rest of the pool. -/
theorem StaticInv.congr (h : StaticInv l s) (hmask : s'.mask = s.mask) (hpc : s'.pc = s.pc)
    (hheld : s'.held = s.held) : StaticInv l s' := by
  obtain ⟨mask, rawBuffer, pc, held, answers, died⟩ := s'
  subst hmask hpc hheld
  exact ⟨h.mask_lt, h.reserved, h.filling, h.alone, h.held, h.slots⟩

theorem getDynamicBuffer_slot {n : Nat} {os : Option Nat} {buf : Buffer}
    (h : getDynamicBuffer l n os = some buf) (hnull : buf.data ≠ .null) (t : Thread) :
    slot l ⟨t, n, buf⟩ = none := by
  unfold getDynamicBuffer at h
  simp only at h
  split at h
  · cases h
  · cases os with
    | none =>
      cases h
      exact absurd rfl hnull
    | some base =>
      cases h
      exact if_neg fun hne => hne rfl

theorem slots_symm {a b : HeldBuffer Thread} (h : ∀ i, slot l a = some i → slot l b ≠ some i)
    (i : Nat) (hb : slot l b = some i) : slot l a ≠ some i := fun ha => h i ha hb

variable [DecidableEq Thread]

/-- `getBuffer` takes the slot `i`. -/
theorem StaticInv.take (h : StaticInv l s) (t : Thread) {n i : Nat} (hi : i < l.staticBufferCount)
    (hbit : s.mask.testBit i = true) (hn : n ≤ l.staticBufferNumElements) :
    StaticInv l { s with
      mask := s.mask ^^^ 1 <<< i
      pc := Function.update s.pc t (.filling n i) } where
  mask_lt := by
    have hcount := l.count_lt
    refine Nat.xor_lt_two_pow h.mask_lt ?_
    rw [Nat.one_shiftLeft]
    exact Nat.pow_lt_pow_right (by decide) (by omega)
  reserved j hj hj' := by
    rw [testBit_take hbit, h.reserved j hj hj', decide_eq_true (by omega : i ≠ j)]
    rfl
  filling t' n' i' ht' := by
    simp only [Function.update_apply] at ht'
    simp only [testBit_take hbit]
    split at ht'
    · cases ht'
      exact ⟨hi, hn, by simp⟩
    · obtain ⟨h1, h2, h3⟩ := h.filling t' n' i' ht'
      exact ⟨h1, h2, by rw [h3]; rfl⟩
  alone t1 t2 n1 n2 i' h1 h2 := by
    have hfree : ∀ t' n', s.pc t' ≠ .filling n' i := by
      intro t' n' ht'
      exact Bool.false_ne_true ((h.filling t' n' i ht').2.2.symm.trans hbit)
    simp only [Function.update_apply] at h1 h2
    split at h1 <;> split at h2
    · next e1 e2 => rw [e1, e2]
    · cases h1
      exact absurd h2 (hfree t2 n2)
    · cases h2
      exact absurd h1 (hfree t1 n1)
    · exact h.alone t1 t2 n1 n2 i' h1 h2
  held b hb j hj := by
    obtain ⟨h1, h2, h3, h4⟩ := h.held b hb j hj
    refine ⟨h1, h2, by rw [testBit_take hbit, h3]; rfl, ?_⟩
    intro t' n' ht'
    simp only [Function.update_apply] at ht'
    split at ht'
    · cases ht'
      exact Bool.false_ne_true (h3.symm.trans hbit)
    · exact h4 t' n' ht'
  slots := h.slots

/-- A thread goes on to where it fills no buffer. -/
theorem StaticInv.move (h : StaticInv l s) (t : Thread) (pc : PoolPc)
    (hpc : ∀ n i, pc ≠ .filling n i) :
    StaticInv l { s with pc := Function.update s.pc t pc } := by
  have hold : ∀ t' n i, Function.update s.pc t pc t' = .filling n i → s.pc t' = .filling n i := by
    intro t' n i ht'
    simp only [Function.update_apply] at ht'
    split at ht'
    · exact absurd ht' (hpc n i)
    · exact ht'
  refine ⟨h.mask_lt, h.reserved, ?_, ?_, ?_, h.slots⟩
  · intro t' n i ht'
    exact h.filling t' n i (hold t' n i ht')
  · intro t1 t2 n1 n2 i h1 h2
    exact h.alone t1 t2 n1 n2 i (hold t1 n1 i h1) (hold t2 n2 i h2)
  · intro b hb i hi
    obtain ⟨h1, h2, h3, h4⟩ := h.held b hb i hi
    exact ⟨h1, h2, h3, fun t' n ht' => h4 t' n (hold t' n i ht')⟩

/-- A thread returns with the static buffer that it has filled. -/
theorem StaticInv.fill (h : StaticInv l s) {t : Thread} {n i : Nat} (ht : s.pc t = .filling n i) :
    StaticInv l { s with
      pc := Function.update s.pc t .idle
      held := ⟨t, n, staticBuffer l i⟩ :: s.held } := by
  obtain ⟨hi, -, hbit⟩ := h.filling t n i ht
  have hidle := h.move t .idle fun _ _ => PoolPc.noConfusion
  refine ⟨h.mask_lt, h.reserved, hidle.filling, hidle.alone, ?_, ?_⟩
  · intro b hb j hj
    rcases List.mem_cons.mp hb with rfl | hb
    · rw [slot_static hi] at hj
      cases hj
      refine ⟨hi, rfl, hbit, ?_⟩
      intro t' n' ht'
      simp only [Function.update_apply] at ht'
      split at ht'
      · cases ht'
      · next hne => exact hne (h.alone t' t n' n i ht' ht)
    · exact hidle.held b hb j hj
  · refine List.pairwise_cons.mpr ⟨?_, h.slots⟩
    intro b hb j hj hj'
    rw [slot_static hi] at hj
    cases hj
    exact (h.held b hb i hj').2.2.2 t n ht

/-- What is left when a buffer is released. -/
theorem pairwise_erase {α : Type*} [DecidableEq α] {R : α → α → Prop} {xs : List α} {x y : α}
    (hsymm : ∀ {a b}, R a b → R b a) (h : xs.Pairwise R) (hx : x ∈ xs) (hy : y ∈ xs.erase x) :
    R x y := by
  have hcons := (List.perm_cons_erase hx).pairwise h hsymm
  exact List.rel_of_pairwise_cons hcons hy

theorem StaticInv.release (h : StaticInv l s) {b : HeldBuffer Thread} (hb : b ∈ s.held) :
    StaticInv l { s with
      mask := releaseBuffer l s.mask b.buffer
      held := s.held.erase b } := by
  have hslots := h.slots.sublist (@List.erase_sublist _ _ b s.held)
  have hmem : ∀ b' ∈ s.held.erase b, b' ∈ s.held := fun _ => List.mem_of_mem_erase
  rw [releaseBuffer]
  split
  · next hne =>
    have hslot : slot l b = some b.buffer.bufferIndex := if_pos hne
    obtain ⟨hi, -, hbit, hpc⟩ := h.held b hb _ hslot
    generalize b.buffer.bufferIndex = i at *
    refine ⟨?_, ?_, ?_, h.alone, ?_, hslots⟩
    · have hcount := l.count_lt
      refine Nat.or_lt_two_pow h.mask_lt ?_
      rw [Nat.one_shiftLeft]
      exact Nat.pow_lt_pow_right (by decide) (by omega)
    · intro j hj hj'
      rw [testBit_give, h.reserved j hj hj']
      rfl
    · intro t n j ht
      obtain ⟨h1, h2, h3⟩ := h.filling t n j ht
      refine ⟨h1, h2, ?_⟩
      rw [testBit_give, h3, Bool.false_or, decide_eq_false_iff_not]
      rintro rfl
      exact hpc t n ht
    · intro b' hb' j hj
      obtain ⟨h1, h2, h3, h4⟩ := h.held b' (hmem b' hb') j hj
      refine ⟨h1, h2, ?_, h4⟩
      rw [testBit_give, h3, Bool.false_or, decide_eq_false_iff_not]
      rintro rfl
      exact pairwise_erase slots_symm h.slots hb hb' i hslot hj
  · exact ⟨h.mask_lt, h.reserved, h.filling, h.alone,
      fun b' hb' => h.held b' (hmem b' hb'), hslots⟩

/-- All that a step can do. -/
theorem step_cases (hs : step l s a = some s') : s.died = false ∧
    ((∃ t n, a = .getBuffer t n ∧ s.pc t = .idle ∧ s' = { s with
        mask := (getBuffer l s.mask n).1
        pc := Function.update s.pc t (getBuffer l s.mask n).2 }) ∨
      (∃ t n i, a = .fill t ∧ s.pc t = .filling n i ∧
        s' = answer { s with rawBuffer := clear l i s.rawBuffer } t n (staticBuffer l i)) ∨
      (∃ t os n, a = .map t os ∧ s.pc t = .mapping n ∧
        ((getDynamicBuffer l n os = none ∧ s' = { s with died := true }) ∨
          ∃ buf, getDynamicBuffer l n os = some buf ∧ s' = answer s t n buf)) ∨
      (∃ h i value, a = .store h i value ∧ h ∈ s.held ∧ i < h.numElements ∧
        s' = { s with rawBuffer := store h.buffer i value s.rawBuffer }) ∨
      ∃ h, a = .releaseBuffer h ∧ h ∈ s.held ∧
        s' = { s with mask := releaseBuffer l s.mask h.buffer, held := s.held.erase h }) := by
  unfold step at hs
  split at hs
  · cases hs
  · next hdied =>
    refine ⟨by simpa using hdied, ?_⟩
    cases a with
    | getBuffer t n =>
      simp only at hs
      split at hs
      · next ht => exact .inl ⟨t, n, rfl, ht, (Option.some.inj hs).symm⟩
      · cases hs
    | fill t =>
      simp only at hs
      split at hs
      · next n i ht => exact .inr (.inl ⟨t, n, i, rfl, ht, (Option.some.inj hs).symm⟩)
      · cases hs
    | map t os =>
      simp only at hs
      split at hs
      · next n ht =>
        refine .inr (.inr (.inl ⟨t, os, n, rfl, ht, ?_⟩))
        split at hs
        · next buf hbuf => exact .inr ⟨buf, hbuf, (Option.some.inj hs).symm⟩
        · next hbuf => exact .inl ⟨hbuf, (Option.some.inj hs).symm⟩
      · cases hs
    | store h i value =>
      simp only at hs
      split at hs
      · next hh =>
        exact .inr (.inr (.inr (.inl ⟨h, i, value, rfl, hh.1, hh.2, (Option.some.inj hs).symm⟩)))
      · cases hs
    | releaseBuffer h =>
      simp only at hs
      split at hs
      · next hh => exact .inr (.inr (.inr (.inr ⟨h, rfl, hh, (Option.some.inj hs).symm⟩)))
      · cases hs

theorem StaticInv.step (h : StaticInv l s) (hs : step l s a = some s') : StaticInv l s' := by
  obtain ⟨-, ⟨t, n, rfl, -, rfl⟩ | ⟨t, n, i, rfl, ht, rfl⟩ | ⟨t, os, n, rfl, ht, hmap⟩ |
    ⟨b, i, value, rfl, -, -, rfl⟩ | ⟨b, rfl, hb, rfl⟩⟩ := step_cases hs
  · rcases getBuffer_cases l h.mask_ne_zero h.mask_lt n with ⟨heq, -⟩ | ⟨i, hi, hbit, hn, heq⟩
    · rw [heq]
      exact h.move t (.mapping n) fun _ _ => PoolPc.noConfusion
    · rw [heq]
      exact h.take t hi hbit hn
  · exact (h.fill ht).congr rfl rfl (by simp [answer, staticBuffer])
  · rcases hmap with ⟨-, rfl⟩ | ⟨buf, hbuf, rfl⟩
    · exact h.congr rfl rfl rfl
    · have hidle := h.move t .idle fun _ _ => PoolPc.noConfusion
      by_cases hnull : buf.data = .null
      · exact hidle.congr rfl rfl (if_pos hnull)
      · exact (hidle.hold (getDynamicBuffer_slot hbuf hnull t)).congr rfl rfl (if_neg hnull)
  · exact h.congr rfl rfl rfl
  · exact h.release hb

/-- What is mapped for a request holds all its elements, and is something, exactly when the request
is for some element and the pages of all its elements are a `uptr`. -/
theorem mappedSize_iff (l : PoolLayout) (n : Nat) :
    (0 < mappedSize l n ∧ n * 8 ≤ mappedSize l n) ↔ 0 < n ∧ n * 8 + 2^l.pageSizeLog ≤ 2^64 := by
  have hk := l.pageSizeLog_lt
  have hp : 2^l.pageSizeLog ≤ 2^63 := Nat.pow_le_pow_right (by decide) (by omega)
  have hpos := Nat.two_pow_pos l.pageSizeLog
  constructor
  · intro h
    obtain ⟨h0, hle⟩ := h
    have hq : (n * 8 % 2^64 + 2^l.pageSizeLog - 1) % 2^64 < 2^64 := Nat.mod_lt _ (by decide)
    rw [mappedSize, roundUp, Word.and_high_mask _ _ hq hk.le] at h0 hle
    have hdiv := Nat.div_mul_le_self ((n * 8 % 2^64 + 2^l.pageSizeLog - 1) % 2^64) (2^l.pageSizeLog)
    have hlt : n * 8 < 2^64 := by omega
    have hmod : n * 8 % 2^64 = n * 8 := Nat.mod_eq_of_lt hlt
    have hpage : 2^l.pageSizeLog ≤ (n * 8 % 2^64 + 2^l.pageSizeLog - 1) % 2^64 := by
      by_contra hlt
      rw [Nat.div_eq_of_lt (not_le.mp hlt), Nat.zero_mul] at h0
      exact Nat.lt_irrefl 0 h0
    rw [hmod] at hpage
    clear hdiv hle h0 hq hmod hk
    generalize 2^l.pageSizeLog = p at *
    omega
  · intro h
    have hle := h.2
    have h0 := h.1
    have hlt : n * 8 < 2^64 := by omega
    obtain ⟨hup, -, -⟩ := roundUp_spec (n * 8) l.pageSizeLog hk.le hle
    rw [mappedSize, Nat.mod_eq_of_lt hlt]
    exact ⟨by omega, hup⟩

/-- A request that fits is served by memory of its own if the system has it. -/
theorem getDynamicBuffer_answered {n : Nat} (hfit : 0 < n ∧ n * 8 + 2^l.pageSizeLog ≤ 2^64)
    (os : Option Nat) : ∃ buf, getDynamicBuffer l n os = some buf ∧ Answered l n buf ∧
      (buf.data ≠ .null → ∃ base, os = some base ∧ buf.memMap = ⟨base, base + mappedSize l n⟩) := by
  obtain ⟨hpos, hle⟩ := (mappedSize_iff l n).mpr hfit
  unfold getDynamicBuffer
  simp only [if_neg hpos.ne']
  cases os with
  | none => exact ⟨_, rfl, .inr (.inr rfl), fun hnull => absurd rfl hnull⟩
  | some base =>
    exact ⟨_, rfl, .inr (.inl ⟨rfl, rfl, Nat.add_le_add_left hle base⟩), fun _ => ⟨base, rfl, rfl⟩⟩

/-- Every request so far is answered, and mapped buffers are apart. -/
structure Served (l : PoolLayout) (s : BufferPool Thread) : Prop where
  mappings : s.held.Pairwise fun a b => slot l a = none → slot l b = none →
    Range.Disjoint a.buffer.memMap b.buffer.memMap
  held : ∀ h ∈ s.held, Answered l h.numElements h.buffer ∧ h.buffer.data ≠ .null
  answers : ∀ r ∈ s.answers, Answered l r.1 r.2
  alive : s.died = false

theorem Served.answer (h : Served l s) (t : Thread) {n : Nat} {buf : Buffer}
    (hbuf : Answered l n buf) (hmap : buf.data ≠ .null → slot l ⟨t, n, buf⟩ = none →
      ∀ b ∈ s.held, slot l b = none → buf.memMap.Disjoint b.buffer.memMap) :
    Served l (answer s t n buf) := by
  have hanswers : ∀ r ∈ (n, buf) :: s.answers, Answered l r.1 r.2 := by
    intro r hr
    rcases List.mem_cons.mp hr with rfl | hr
    · exact hbuf
    · exact h.answers r hr
  unfold BufferPool.answer
  split
  · exact ⟨h.mappings, h.held, hanswers, h.alive⟩
  · next hnull =>
    refine ⟨?_, ?_, hanswers, h.alive⟩
    · refine List.pairwise_cons.mpr ⟨?_, h.mappings⟩
      intro b hb hslot hslot'
      exact hmap hnull hslot b hb hslot'
    · intro b hb
      rcases List.mem_cons.mp hb with rfl | hb
      · exact ⟨hbuf, hnull⟩
      · exact h.held b hb

theorem Served.step (h : Served l s) (hst : StaticInv l s) (ha : Admitted l s a) (hfit : Fits l s a)
    (hs : step l s a = some s') : Served l s' := by
  obtain ⟨-, ⟨t, n, rfl, -, rfl⟩ | ⟨t, n, i, rfl, ht, rfl⟩ | ⟨t, os, n, rfl, ht, hmap⟩ |
    ⟨b, i, value, rfl, -, -, rfl⟩ | ⟨b, rfl, hb, rfl⟩⟩ := step_cases hs
  · exact ⟨h.mappings, h.held, h.answers, h.alive⟩
  · obtain ⟨hi, hn, -⟩ := hst.filling t n i ht
    have h' : Served l { s with rawBuffer := clear l i s.rawBuffer } :=
      ⟨h.mappings, h.held, h.answers, h.alive⟩
    refine h'.answer t (.inl ⟨i, hi, rfl, hn⟩) ?_
    intro _ hslot
    rw [slot_static hi] at hslot
    cases hslot
  · obtain ⟨buf', hbuf', hanswered, hmapped⟩ := getDynamicBuffer_answered (hfit n ht) os
    rcases hmap with ⟨hnone, -⟩ | ⟨buf, hbuf, rfl⟩
    · rw [hnone] at hbuf'
      cases hbuf'
    · obtain rfl : buf = buf' := Option.some.inj (hbuf.symm.trans hbuf')
      refine h.answer t hanswered ?_
      intro hnull _ b hb hslot
      obtain ⟨base, rfl, hrange⟩ := hmapped hnull
      rw [hrange]
      exact ha n ht b hb hslot
  · exact ⟨h.mappings, h.held, h.answers, h.alive⟩
  · exact ⟨h.mappings.sublist List.erase_sublist, fun b' hb' => h.held b' (List.mem_of_mem_erase hb'),
      h.answers, h.alive⟩

/-- Static buffers are not shared in any run. -/
theorem staticInv_of_reachable (l : PoolLayout) {ok : BufferPool Thread → PoolAction Thread → Prop}
    (hr : Reachable Init ok (fun s a s' => step l s a = some s') s) : StaticInv l s :=
  hr.invariant (fun _ h => .init h) fun _ _ _ h _ hs => h.step hs

theorem served_of_reachable (l : PoolLayout)
    (hr : Reachable Init (fun s a => Admitted l s a ∧ Fits l s a)
      (fun s a s' => step l s a = some s') s) : Served l s := by
  refine hr.invariant_of (fun s hr => staticInv_of_reachable l hr) ?_ ?_
  · intro s h
    refine ⟨?_, ?_, ?_, h.died⟩
    · rw [h.held]
      exact .nil
    · rw [h.held]
      exact fun _ hb => absurd hb List.not_mem_nil
    · rw [h.answers]
      exact fun _ hb => absurd hb List.not_mem_nil
  · intro s a s' hst h hok hs
    exact h.step hst hok.1 hok.2 hs

/-- No word is in two slots. -/
theorem slot_unique {e i j w : Nat} (hi : i * e ≤ w ∧ w < (i+1) * e) (hj : j * e ≤ w ∧ w < (j+1) * e) :
    i = j := by
  have aux : ∀ {i j : Nat}, w < (i+1) * e → j * e ≤ w → j ≤ i := by
    intro i j hw hle
    by_contra hlt
    have hmul := Nat.mul_le_mul_right e (show i + 1 ≤ j by omega)
    omega
  exact le_antisymm (aux hj.2 hi.1) (aux hi.2 hj.1)

/-- What is in a static buffer that is held only changes by its holder's own stores. -/
theorem contents_kept (hst : StaticInv l s) (hsv : Served l s) (hs : step l s a = some s')
    {b : HeldBuffer Thread} (hb : b ∈ s.held) {i : Nat} (hi : slot l b = some i)
    (hown : ∀ j value, a ≠ .store b j value) {w : Nat}
    (hw : i * l.staticBufferNumElements ≤ w ∧ w < (i+1) * l.staticBufferNumElements) :
    s'.rawBuffer w = s.rawBuffer w := by
  obtain ⟨-, ⟨t, n, rfl, -, rfl⟩ | ⟨t, n, j, rfl, ht, rfl⟩ | ⟨t, os, n, rfl, -, hmap⟩ |
    ⟨b', j, value, rfl, hb', hj, rfl⟩ | ⟨b', rfl, -, rfl⟩⟩ := step_cases hs
  · rfl
  · -- a buffer that is being filled is not held
    refine if_neg fun hw' => ?_
    obtain rfl := slot_unique hw hw'
    exact (hst.held b hb i hi).2.2.2 t n ht
  · rcases hmap with ⟨-, rfl⟩ | ⟨buf, -, rfl⟩ <;> rfl
  · obtain ⟨⟨k, hk, hbuf, hn⟩ | ⟨-, hdata, -⟩ | hdata, -⟩ := hsv.held b' hb'
    · have hslot : slot l b' = some k := by
        rw [slot, hbuf]
        exact if_pos hk.ne
      have hne : b' ≠ b := fun heq => hown j value (heq ▸ rfl)
      have hik : i ≠ k := by
        rintro rfl
        exact pairwise_erase slots_symm hst.slots hb' ((List.mem_erase_of_ne hne.symm).mpr hb) i hslot hi
      have hword : w ≠ k * l.staticBufferNumElements + j := by
        rintro rfl
        have hmul : (k+1) * l.staticBufferNumElements =
            k * l.staticBufferNumElements + l.staticBufferNumElements := Nat.succ_mul _ _
        exact hik (slot_unique hw ⟨Nat.le_add_right _ _, by omega⟩)
      rw [store, hbuf]
      exact Function.update_of_ne hword _ _
    · rw [store, hdata]
    · rw [store, hdata]
  · rfl

theorem step_getBuffer (hd : s.died = false) {t : Thread} (ht : s.pc t = .idle) {n mask : Nat}
    {pc : PoolPc} (h : getBuffer l s.mask n = (mask, pc)) :
    step l s (.getBuffer t n) = some { s with mask, pc := Function.update s.pc t pc } := by
  simp [step, hd, ht, h]

theorem step_fill (hd : s.died = false) {t : Thread} {n i : Nat} (ht : s.pc t = .filling n i) :
    step l s (.fill t) =
      some (answer { s with rawBuffer := clear l i s.rawBuffer } t n (staticBuffer l i)) := by
  simp [step, hd, ht]

theorem step_map (hd : s.died = false) {t : Thread} {n : Nat} (ht : s.pc t = .mapping n)
    (os : Option Nat) : step l s (.map t os) = some ((getDynamicBuffer l n os).elim
      { s with died := true } (answer s t n)) := by
  cases h : getDynamicBuffer l n os <;> simp [step, hd, ht, h]

/-- The pool of `RegionPageMap`, with pages of 4096 bytes. -/
def regionPageMapLayout : PoolLayout := ⟨2, 512, 12, by decide, by decide, by decide⟩

def newPool : BufferPool Bool := ⟨2^64 - 1, fun _ => 0, fun _ => .idle, [], [], false⟩

theorem newPool_init : Init newPool := ⟨rfl, fun _ => rfl, rfl, rfl, rfl⟩

/-- `2^61` elements are no bytes, so the request that is mapped for them kills the process. -/
theorem getBuffer_overflow : ¬ ∀ (l : PoolLayout) (s : BufferPool Bool),
    Reachable Init (Admitted l) (fun s a s' => step l s a = some s') s → s.Sound l := by
  intro h
  have hget : getBuffer regionPageMapLayout newPool.mask (2^61) =
      (newPool.mask, .mapping (2^61)) := by decide +kernel
  have hdead : getDynamicBuffer regionPageMapLayout (2^61) none = none := by decide +kernel
  have hsmall : 2^61 < 2^64 := by decide
  have hr := @Reachable.start _ _ Init (Admitted regionPageMapLayout)
    (fun s a s' => step regionPageMapLayout s a = some s') newPool newPool_init
  have hr := hr.next (a := PoolAction.getBuffer true (2^61)) hsmall (step_getBuffer rfl rfl hget)
  have hr := hr.next (a := PoolAction.map true none) trivial
    (step_map (n := 2^61) rfl rfl none)
  have halive := (h regionPageMapLayout _ hr).alive
  rw [hdead] at halive
  exact Bool.noConfusion halive

/-- While what is mapped fits, no static buffer is ever shared and every request is answered. -/
theorem sound_of_reachable (l : PoolLayout)
    (hr : Reachable Init (fun s a => Admitted l s a ∧ Fits l s a)
      (fun s a s' => step l s a = some s') s) : s.Sound l := by
  have hst := staticInv_of_reachable l hr
  have hsv := served_of_reachable l hr
  refine ⟨hst.mask_ne_zero, hst.slots, ?_, hsv.mappings, hsv.held, hsv.answers, hsv.alive⟩
  intro h hh i hi
  obtain ⟨hlt, hbuf, -, -⟩ := hst.held h hh i hi
  refine ⟨_, by rw [hbuf]; rfl, rfl, ?_⟩
  rw [← Nat.succ_mul]
  exact Nat.mul_le_mul_right _ hlt

theorem sound_of_reachable_held : ∃ s : BufferPool Bool, s.held.length = 2 ∧
    s.Sound regionPageMapLayout := by
  have hstatic : getBuffer regionPageMapLayout (2^64 - 1) 512 = (2^64 - 2, .filling 512 0) := by
    decide +kernel
  have hlarge : getBuffer regionPageMapLayout (2^64 - 2) 600 = (2^64 - 2, .mapping 600) := by
    decide +kernel
  have hbuf : getDynamicBuffer regionPageMapLayout 600 (some 65536) =
      some ⟨.mapped 65536, 2, ⟨65536, 65536 + 8192⟩⟩ := by decide +kernel
  have hr := @Reachable.start _ _ Init (fun s a => Admitted regionPageMapLayout s a ∧
    Fits regionPageMapLayout s a) (fun s a s' => step regionPageMapLayout s a = some s') newPool
    newPool_init
  have hr := hr.next (a := PoolAction.getBuffer true 512) ⟨(by decide : 512 < 2^64), trivial⟩
    (step_getBuffer rfl rfl hstatic)
  have hr := hr.next (a := PoolAction.fill true) ⟨trivial, trivial⟩
    (step_fill (n := 512) (i := 0) rfl rfl)
  have hr := hr.next (a := PoolAction.getBuffer false 600) ⟨(by decide : 600 < 2^64), trivial⟩
    (step_getBuffer rfl rfl hlarge)
  have hr := hr.next (a := PoolAction.map false (some 65536)) ⟨?_, ?_⟩
    (step_map (n := 600) rfl rfl (some 65536))
  · refine ⟨_, ?_, sound_of_reachable regionPageMapLayout hr⟩
    rw [hbuf]
    rfl
  · intro n _ b hb hslot
    rw [show b = ⟨true, 512, staticBuffer regionPageMapLayout 0⟩ from List.mem_singleton.mp hb,
      slot_static (by decide)] at hslot
    cases hslot
  · intro n hn
    obtain rfl : 600 = n := PoolPc.mapping.inj hn
    exact ⟨by decide, by decide⟩

end ScudoMte.Release.BufferPool
