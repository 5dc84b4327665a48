import Mathlib.Tactic.Ring

namespace ScudoMte.ByteMemory

/-- Byte-addressed memory. -/
abbrev Bytes := Nat → UInt8

/-- `memset`: the `n` bytes from `lo` become `b`. -/
def fill (m : Bytes) (lo n : Nat) (b : UInt8) : Bytes :=
  fun a => if lo ≤ a ∧ a < lo + n then b else m a

/-- Little-endian store of the low `n` bytes of `v` at `a`. -/
def store (m : Bytes) (a n v : Nat) : Bytes :=
  fun x => if a ≤ x ∧ x < a + n then UInt8.ofNat (v / 256^(x-a)) else m x

/-- Little-endian load of `n` bytes at `a`. -/
def load (m : Bytes) (a : Nat) : Nat → Nat
  | 0 => 0
  | n+1 => (m a).toNat + 256 * load m (a+1) n

/-- `memcpy` of `n` bytes from `src` to `dst`, for ranges that do not overlap. -/
def copy (m : Bytes) (dst src n : Nat) : Bytes :=
  fun x => if dst ≤ x ∧ x < dst + n then m (src + (x-dst)) else m x

/-- `m'` agrees with `m` on `[lo, hi)`. -/
def AgreeOn (m m' : Bytes) (lo hi : Nat) : Prop := ∀ a, lo ≤ a → a < hi → m' a = m a

/-- `m'` agrees with `m` outside `[lo, hi)`. -/
def AgreeOff (m m' : Bytes) (lo hi : Nat) : Prop := ∀ a, a < lo ∨ hi ≤ a → m' a = m a

/-- `v` and `w` differ in byte `i` and agree in the other low `n` bytes. -/
def DiffersAt (n i v w : Nat) : Prop :=
  (∀ j, j < n → j ≠ i → v / 256^j % 256 = w / 256^j % 256) ∧ v / 256^i % 256 ≠ w / 256^i % 256

/-- Every byte of `[lo, hi)` is 0. -/
def IsZero (m : Bytes) (lo hi : Nat) : Prop := ∀ a, lo ≤ a → a < hi → m a = 0

theorem AgreeOff.refl (m : Bytes) (lo hi : Nat) : AgreeOff m m lo hi := fun _ _ => rfl

theorem AgreeOff.trans {m m' m'' : Bytes} {lo hi : Nat} (h : AgreeOff m m' lo hi)
    (h' : AgreeOff m' m'' lo hi) : AgreeOff m m'' lo hi :=
  fun a ha => (h' a ha).trans (h a ha)

theorem AgreeOff.mono {m m' : Bytes} {lo hi lo' hi' : Nat} (h : AgreeOff m m' lo hi)
    (h1 : lo' ≤ lo) (h2 : hi ≤ hi') : AgreeOff m m' lo' hi' :=
  fun a ha => h a (by omega)

theorem AgreeOff.on {m m' : Bytes} {lo hi lo' hi' : Nat} (h : AgreeOff m m' lo hi)
    (hd : hi' ≤ lo ∨ hi ≤ lo') : AgreeOn m m' lo' hi' :=
  fun a h1 h2 => h a (by omega)

theorem IsZero.congr {m m' : Bytes} {lo hi : Nat} (h : IsZero m lo hi)
    (hag : AgreeOn m m' lo hi) : IsZero m' lo hi :=
  fun a h1 h2 => (hag a h1 h2).trans (h a h1 h2)

theorem IsZero.mono {m : Bytes} {lo hi lo' hi' : Nat} (h : IsZero m lo hi) (h1 : lo ≤ lo')
    (h2 : hi' ≤ hi) : IsZero m lo' hi' :=
  fun a ha ha' => h a (by omega) (by omega)

theorem fill_isZero (m : Bytes) (lo n : Nat) : IsZero (fill m lo n 0) lo (lo+n) := by
  intro a h1 h2
  simp [fill, h1, h2]

theorem fill_agreeOff (m : Bytes) (lo n : Nat) (b : UInt8) :
    AgreeOff m (fill m lo n b) lo (lo+n) := by
  intro a ha
  simp only [fill]
  rw [if_neg (by omega)]

theorem store_agreeOff (m : Bytes) (a n v : Nat) : AgreeOff m (store m a n v) a (a+n) := by
  intro x hx
  simp only [store]
  rw [if_neg (by omega)]

theorem copy_agreeOff (m : Bytes) (dst src n : Nat) :
    AgreeOff m (copy m dst src n) dst (dst+n) := by
  intro x hx
  simp only [copy]
  rw [if_neg (by omega)]

/-- A load depends only on the bytes it covers. -/
theorem load_congr {m m' : Bytes} {a n : Nat} (h : AgreeOn m m' a (a+n)) :
    load m' a n = load m a n := by
  induction n generalizing a with
  | zero => rfl
  | succ n ih =>
    rw [load, load, h a (le_refl a) (by omega), ih (a := a+1) fun x h1 h2 => h x (by omega) (by omega)]

theorem load_zero {m : Bytes} {a n : Nat} (h : IsZero m a (a+n)) : load m a n = 0 := by
  induction n generalizing a with
  | zero => rfl
  | succ n ih =>
    rw [load, h a (le_refl a) (by omega), ih (a := a+1) fun x h1 h2 => h x (by omega) (by omega)]
    rfl

/-- The low `k` bytes of a longer load. -/
theorem load_prefix (m : Bytes) (a k n : Nat) (hk : k ≤ n) :
    load m a k = load m a n % 256^k := by
  induction n generalizing a k with
  | zero =>
    have h : k = 0 := by omega
    subst h
    simp [load]
  | succ n ih =>
    cases k with
    | zero => simp [load, Nat.mod_one]
    | succ k =>
      have hb := (m a).toNat_lt
      have hlow : ((m a).toNat + 256 * load m (a+1) n) % 256 = (m a).toNat := by omega
      have hhigh : ((m a).toNat + 256 * load m (a+1) n) / 256 = load m (a+1) n := by omega
      rw [load, load, ih (a+1) k (by omega), pow_succ, Nat.mul_comm (256^k) 256,
        Nat.mod_mul, hlow, hhigh]

/-- Byte `j` of a load. -/
theorem load_byte (m : Bytes) (a : Nat) {j n : Nat} (hj : j < n) :
    load m a n / 256^j % 256 = (m (a+j)).toNat := by
  induction n generalizing a j with
  | zero => omega
  | succ n ih =>
    have hb := (m a).toNat_lt
    rw [load]
    cases j with
    | zero =>
      simp only [pow_zero, Nat.div_one, Nat.add_zero]
      omega
    | succ j =>
      have hhigh : ((m a).toNat + 256 * load m (a+1) n) / 256 = load m (a+1) n := by omega
      rw [pow_succ, Nat.mul_comm (256^j), ← Nat.div_div_eq_div_mul, hhigh,
        ih (a+1) (by omega), show a+1+j = a+(j+1) by omega]

/-- Replacing one byte of memory changes that byte of a load and no other. -/
theorem load_update (m : Bytes) (a : Nat) {i n : Nat} {b : UInt8} (hi : i < n)
    (hb : b ≠ m (a+i)) :
    DiffersAt n i (load m a n) (load (Function.update m (a+i) b) a n) := by
  constructor
  · intro j hj hne
    rw [load_byte _ _ hj, load_byte _ _ hj, Function.update_of_ne (by omega)]
  · rw [load_byte _ _ hi, load_byte _ _ hi, Function.update_self]
    intro h
    exact hb (UInt8.toNat_inj.mp h.symm)

private theorem load_store_from (m : Bytes) (a n v k : Nat) (hk : k ≤ n) :
    load (store m a n v) (a + (n-k)) k = v / 256^(n-k) % 256^k := by
  induction k with
  | zero => simp [load, Nat.mod_one]
  | succ k ih =>
    have hs : a + (n-(k+1)) + 1 = a + (n-k) := by omega
    have hd : n-k = n-(k+1)+1 := by omega
    have hbyte : (store m a n v (a + (n-(k+1)))).toNat = v / 256^(n-(k+1)) % 256 := by
      simp only [store]
      rw [if_pos (by omega), Nat.add_sub_cancel_left]
      simp
    rw [load, hs, ih (by omega), hbyte, hd, pow_succ 256 (n-(k+1)), ← Nat.div_div_eq_div_mul,
      pow_succ, Nat.mul_comm (256^k) 256, Nat.mod_mul]

/-- A load returns what a store of the same width put there. -/
theorem load_store (m : Bytes) (a n v : Nat) : load (store m a n v) a n = v % 256^n := by
  have h := load_store_from m a n v n (le_refl n)
  simpa using h

end ScudoMte.ByteMemory
