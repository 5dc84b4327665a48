import ScudoMte.Chunk

namespace ScudoMte.Chunk

open ByteMemory

/-- The check that `loadHeader` and `isValid` make of a header word. -/
def Verifies (cookie ptr w : Nat) : Prop :=
  ((unpack w).checksum : Nat) = computeHeaderChecksum cookie ptr (unpack w)

theorem isValid_of_verifies {cookie ptr : Nat} {m : Mem}
    (h : Verifies cookie ptr (headerWord m ptr)) :
    isValid cookie ptr m = some (unpack (headerWord m ptr)) :=
  if_pos h

theorem isValid_of_not_verifies {cookie ptr : Nat} {m : Mem}
    (h : ¬ Verifies cookie ptr (headerWord m ptr)) : isValid cookie ptr m = none :=
  if_neg h

/-- A header that fails the check is rejected by both functions. -/
theorem rejected_of_not_verifies {cookie ptr : Nat} {m : Mem}
    (h : ¬ Verifies cookie ptr (headerWord m ptr)) :
    isValid cookie ptr m = none ∧ loadHeader cookie ptr m = .error (.headerCorruption ptr) := by
  have hv := isValid_of_not_verifies h
  exact ⟨hv, by rw [loadHeader, hv]⟩

theorem headerWord_storeHeader (cookie ptr : Nat) (h : UnpackedHeader) (m : Mem) :
    headerWord (storeHeader cookie ptr h m) ptr = pack (h.seal cookie ptr) := by
  have hp := pack_lt (h.seal cookie ptr)
  rw [headerWord, storeHeader, load_store]
  exact Nat.mod_eq_of_lt (by omega)

theorem verifies_pack_seal (cookie ptr : Nat) (h : UnpackedHeader) :
    Verifies cookie ptr (pack (h.seal cookie ptr)) := by
  rw [Verifies, unpack_pack, seal_checksum, computeHeaderChecksum_seal]

/-- With the checksum field cleared the header word keeps its low six bytes. -/
theorem pack_clear_checksum (w : Nat) : pack { unpack w with checksum := 0 } = w % 2^48 := by
  simp only [pack, unpack, bitField_val, Fin.val_zero]
  omega

theorem unpack_checksum (w : Nat) : ((unpack w).checksum : Nat) = w / 2^48 % 2^16 := rfl

theorem verifies_iff (cookie ptr w : Nat) :
    Verifies cookie ptr w ↔ w / 2^48 % 2^16 = computeChecksum cookie ptr [w % 2^48] := by
  rw [Verifies, computeHeaderChecksum, pack_clear_checksum, unpack_checksum]

/-- The bytes of a word whose two high bytes are cleared. -/
theorem low_word_byte (w j : Nat) :
    w % 2^48 / 256^j % 256 = if j < 6 then w / 256^j % 256 else 0 := by
  by_cases hj : j < 6
  · rw [if_pos hj]
    interval_cases j <;> omega
  · have hpow : (2^48 : Nat) ≤ 256^j := by
      calc (2^48 : Nat) = 256^6 := by norm_num
        _ ≤ 256^j := Nat.pow_le_pow_right (by decide) (by omega)
    rw [if_neg hj, Nat.div_eq_of_lt ((Nat.mod_lt w (by decide)).trans_le hpow), Nat.zero_mod]

/-- A byte of the fields changes the sum and not the checksum field. -/
theorem not_verifies_of_field_byte {cookie ptr w w' i : Nat} (hi : i < 6)
    (h : DiffersAt 8 i w w') (hw : Verifies cookie ptr w) : ¬ Verifies cookie ptr w' := by
  rw [verifies_iff] at hw ⊢
  obtain ⟨hsame, hne⟩ := h
  have hfield : w' / 2^48 % 2^16 = w / 2^48 % 2^16 := by
    have h6 := hsame 6 (by decide) (by omega)
    have h7 := hsame 7 (by decide) (by omega)
    omega
  have hlow : DiffersAt 8 i (w % 2^48) (w' % 2^48) := by
    constructor
    · intro j hj hji
      rw [low_word_byte, low_word_byte, hsame j hj hji]
    · rwa [low_word_byte, low_word_byte, if_pos hi, if_pos hi]
  rw [hfield, hw]
  exact computeBSDChecksum_differs (computeBSDChecksum_lt _ _) (by omega) hlow

/-- A byte of the checksum field changes the field and not the sum. -/
theorem not_verifies_of_checksum_byte {cookie ptr w w' i : Nat} (hi : 6 ≤ i) (hi8 : i < 8)
    (h : DiffersAt 8 i w w') (hw : Verifies cookie ptr w) : ¬ Verifies cookie ptr w' := by
  rw [verifies_iff] at hw ⊢
  obtain ⟨hsame, hne⟩ := h
  have hlow : w' % 2^48 = w % 2^48 := by
    have h0 := hsame 0 (by decide) (by omega)
    have h1 := hsame 1 (by decide) (by omega)
    have h2 := hsame 2 (by decide) (by omega)
    have h3 := hsame 3 (by decide) (by omega)
    have h4 := hsame 4 (by decide) (by omega)
    have h5 := hsame 5 (by decide) (by omega)
    omega
  rw [hlow, ← hw]
  interval_cases i <;> omega

/-- A word that verifies does not verify after one of its bytes changed. -/
theorem not_verifies_of_differs {cookie ptr w w' i : Nat} (hi : i < 8) (h : DiffersAt 8 i w w')
    (hw : Verifies cookie ptr w) : ¬ Verifies cookie ptr w' := by
  by_cases h6 : i < 6
  · exact not_verifies_of_field_byte h6 h hw
  · exact not_verifies_of_checksum_byte (by omega) hi h hw

/-- A word that verifies for a pointer does not verify for one that differs in one byte. -/
theorem not_verifies_of_pointer_differs {cookie ptr ptr' w i : Nat} (hi : i < 8)
    (h : DiffersAt 8 i ptr ptr') (hw : Verifies cookie ptr w) : ¬ Verifies cookie ptr' w := by
  rw [verifies_iff] at hw ⊢
  rw [hw]
  exact computeChecksum_value_differs cookie _ hi h

/-- A stored header loads back with its fields. One changed byte of the header word, the
checksum included, or of the pointer it is verified for, and both functions reject it. -/
theorem storeHeader_detects_one_byte (cookie ptr : Nat) (h : UnpackedHeader) (m : Mem) :
    let stored := storeHeader cookie ptr h m
    let addr := untagPointer (getAtomicHeader ptr)
    (∃ h', isValid cookie ptr stored = some h' ∧ loadHeader cookie ptr stored = .ok h' ∧
      { h' with checksum := h.checksum } = h) ∧
    (∀ i < 8, ∀ b : UInt8, b ≠ stored.data (addr+i) →
      let corrupted := { stored with data := Function.update stored.data (addr+i) b }
      isValid cookie ptr corrupted = none ∧
        loadHeader cookie ptr corrupted = .error (.headerCorruption ptr)) ∧
    (∀ ptr' i, i < 8 → DiffersAt 8 i ptr ptr' → ∀ m',
      headerWord m' ptr' = headerWord stored ptr →
      isValid cookie ptr' m' = none ∧
        loadHeader cookie ptr' m' = .error (.headerCorruption ptr')) := by
  intro stored addr
  have hword : headerWord stored ptr = pack (h.seal cookie ptr) :=
    headerWord_storeHeader cookie ptr h m
  have hverifies : Verifies cookie ptr (headerWord stored ptr) := by
    rw [hword]
    exact verifies_pack_seal cookie ptr h
  refine ⟨⟨h.seal cookie ptr, ?_, ?_, rfl⟩, ?_, ?_⟩
  · rw [isValid_of_verifies hverifies, hword, unpack_pack]
  · rw [loadHeader, isValid_of_verifies hverifies, hword, unpack_pack]
  · intro i hi b hb corrupted
    apply rejected_of_not_verifies
    have hdiff : DiffersAt 8 i (headerWord stored ptr) (headerWord corrupted ptr) :=
      load_update stored.data addr hi hb
    exact not_verifies_of_differs hi hdiff hverifies
  · intro ptr' i hi hdiff m' hm'
    apply rejected_of_not_verifies
    rw [hm']
    exact not_verifies_of_pointer_differs hi hdiff hverifies

end ScudoMte.Chunk
