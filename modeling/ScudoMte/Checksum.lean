import ScudoMte.Library.Word
import ScudoMte.Library.ByteMemory
import Mathlib.Tactic.IntervalCases

namespace ScudoMte

open ByteMemory

/-- One round of the BSD checksum: rotate the 16-bit sum right by one and add a byte. -/
def bsdRound (sum byte : Nat) : Nat :=
  (((sum >>> 1) ||| ((sum &&& 1) <<< 15)) % 2^16 + byte) % 2^16

def computeBSDChecksumFrom : Nat → Nat → Nat → Nat
  | 0, sum, _ => sum
  | n+1, sum, data => computeBSDChecksumFrom n (bsdRound sum (data &&& 0xff)) (data >>> 8)

/-- `computeBSDChecksum`: the eight bytes of a word, the low byte first. -/
def computeBSDChecksum (sum data : Nat) : Nat := computeBSDChecksumFrom 8 sum data

/-- `computeChecksum` with the BSD algorithm, which a RISC-V build uses. -/
def computeChecksum (seed value : Nat) (array : List Nat) : Nat :=
  array.foldl computeBSDChecksum (computeBSDChecksum (seed % 2^16) value)

theorem bsdRound_eq (sum byte : Nat) (hs : sum < 2^16) :
    bsdRound sum byte = (sum / 2 + sum % 2 * 2^15 + byte) % 2^16 := by
  have hlow : sum / 2 < 2^15 := by omega
  have hand : sum &&& 1 = sum % 2 := Word.and_low_mask sum 1
  have hor : sum / 2 ||| (sum % 2) <<< 15 = sum / 2 + sum % 2 * 2^15 := by
    rw [Nat.lor_comm, ← Nat.shiftLeft_add_eq_or_of_lt hlow, Nat.shiftLeft_eq, Nat.add_comm]
  rw [bsdRound, Nat.shiftRight_one, hand, hor, Nat.mod_add_mod]

theorem bsdRound_lt (sum byte : Nat) : bsdRound sum byte < 2^16 :=
  Nat.mod_lt _ (by decide)

/-- A round loses no information about the sum. -/
theorem bsdRound_injective {s s' : Nat} (byte : Nat) (hs : s < 2^16) (hs' : s' < 2^16)
    (h : bsdRound s byte = bsdRound s' byte) : s = s' := by
  rw [bsdRound_eq s byte hs, bsdRound_eq s' byte hs'] at h
  have hrot : s / 2 + s % 2 * 2^15 = s' / 2 + s' % 2 * 2^15 := by
    generalize hx : s / 2 + s % 2 * 2^15 = x at h ⊢
    generalize hx' : s' / 2 + s' % 2 * 2^15 = x' at h ⊢
    omega
  omega

/-- A round tells two bytes apart. -/
theorem bsdRound_byte {b b' : Nat} (s : Nat) (hb : b < 2^16) (hb' : b' < 2^16)
    (h : bsdRound s b = bsdRound s b') : b = b' := by
  simp only [bsdRound] at h
  omega

theorem computeBSDChecksumFrom_lt (n sum data : Nat) (hs : sum < 2^16) :
    computeBSDChecksumFrom n sum data < 2^16 := by
  induction n generalizing sum data with
  | zero => exact hs
  | succ n ih => exact ih _ _ (bsdRound_lt _ _)

theorem computeBSDChecksumFrom_injective (n data : Nat) {s s' : Nat} (hs : s < 2^16)
    (hs' : s' < 2^16) (h : computeBSDChecksumFrom n s data = computeBSDChecksumFrom n s' data) :
    s = s' := by
  induction n generalizing s s' data with
  | zero => exact h
  | succ n ih =>
    exact bsdRound_injective _ hs hs' (ih _ (bsdRound_lt _ _) (bsdRound_lt _ _) h)

/-- The last round adds byte `n` of the data to what the first `n` rounds give. -/
theorem computeBSDChecksumFrom_succ (n sum data : Nat) :
    computeBSDChecksumFrom (n+1) sum data =
      bsdRound (computeBSDChecksumFrom n sum data) (data / 256^n % 256) := by
  induction n generalizing sum data with
  | zero =>
    have h : data &&& 0xff = data % 256 := Word.and_low_mask data 8
    simp [computeBSDChecksumFrom, h]
  | succ n ih =>
    have hdiv : data >>> 8 / 256^n = data / 256^(n+1) := by
      rw [Nat.shiftRight_eq_div_pow, Nat.div_div_eq_div_mul, pow_succ 256 n, Nat.mul_comm (256^n)]
    rw [computeBSDChecksumFrom, ih, ← computeBSDChecksumFrom, hdiv]

theorem computeBSDChecksum_lt (sum data : Nat) : computeBSDChecksum sum data < 2^16 := by
  rw [computeBSDChecksum, computeBSDChecksumFrom_succ]
  exact bsdRound_lt _ _

theorem foldl_computeBSDChecksum_injective (array : List Nat) {s s' : Nat} (hs : s < 2^16)
    (hs' : s' < 2^16)
    (h : array.foldl computeBSDChecksum s = array.foldl computeBSDChecksum s') : s = s' := by
  induction array generalizing s s' with
  | nil => exact h
  | cons d ds ih =>
    exact computeBSDChecksumFrom_injective 8 d hs hs'
      (ih (computeBSDChecksum_lt _ _) (computeBSDChecksum_lt _ _) h)

/-- The first `n` rounds give the same sum for data with the same low bytes. -/
theorem computeBSDChecksumFrom_congr (n sum : Nat) {data data' : Nat}
    (h : ∀ j, j < n → data / 256^j % 256 = data' / 256^j % 256) :
    computeBSDChecksumFrom n sum data = computeBSDChecksumFrom n sum data' := by
  induction n with
  | zero => rfl
  | succ n ih =>
    rw [computeBSDChecksumFrom_succ, computeBSDChecksumFrom_succ, ih fun j hj => h j (by omega),
      h n (by omega)]

/-- The round that adds the differing byte separates the sums, and every later round keeps them
apart. -/
theorem computeBSDChecksumFrom_differs (n : Nat) {i sum data data' : Nat} (hs : sum < 2^16)
    (hi : i < n) (h : DiffersAt n i data data') :
    computeBSDChecksumFrom n sum data ≠ computeBSDChecksumFrom n sum data' := by
  obtain ⟨hsame, hne⟩ := h
  induction n with
  | zero => omega
  | succ n ih =>
    rw [computeBSDChecksumFrom_succ, computeBSDChecksumFrom_succ]
    by_cases hin : i = n
    · subst hin
      have hpre := computeBSDChecksumFrom_congr i sum fun j hj => hsame j (by omega) (by omega)
      rw [hpre]
      intro heq
      exact hne (bsdRound_byte _ (by omega) (by omega) heq)
    · have hpre := ih (by omega) fun j hj hji => hsame j (by omega) hji
      rw [hsame n (by omega) (fun he => hin he.symm)]
      intro heq
      exact hpre (bsdRound_injective _ (computeBSDChecksumFrom_lt n _ _ hs)
        (computeBSDChecksumFrom_lt n _ _ hs) heq)

/-- Two words that differ in one byte have different checksums. -/
theorem computeBSDChecksum_differs {i sum data data' : Nat} (hs : sum < 2^16) (hi : i < 8)
    (h : DiffersAt 8 i data data') :
    computeBSDChecksum sum data ≠ computeBSDChecksum sum data' :=
  computeBSDChecksumFrom_differs 8 hs hi h

/-- Two values that differ in one byte have different checksums. -/
theorem computeChecksum_value_differs (seed : Nat) {i value value' : Nat} (array : List Nat)
    (hi : i < 8) (h : DiffersAt 8 i value value') :
    computeChecksum seed value array ≠ computeChecksum seed value' array := by
  intro heq
  have hone := foldl_computeBSDChecksum_injective array (computeBSDChecksum_lt _ _)
    (computeBSDChecksum_lt _ _) heq
  exact computeBSDChecksum_differs (Nat.mod_lt _ (by decide)) hi h hone

/-- Two values that differ in the top byte only have different checksums. -/
theorem computeChecksum_top_byte (seed a t t' : Nat) (array : List Nat) (ha : a < 2^56)
    (ht : t < 256) (ht' : t' < 256)
    (h : computeChecksum seed (2^56*t + a) array = computeChecksum seed (2^56*t' + a) array) :
    t = t' := by
  by_contra hne
  refine computeChecksum_value_differs seed array (show 7 < 8 by decide) ⟨?_, ?_⟩ h
  · intro j hj hj7
    interval_cases j <;> omega
  · omega

end ScudoMte
