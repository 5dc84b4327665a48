import ScudoMte.Library.Word

namespace ScudoMte

namespace MurMur2HashBuilder

def m : Nat := 0x5bd1e995
def seed : Nat := 0x9747b28c
def r : Nat := 24

def add (h k : Nat) : Nat :=
  let k := k * m % 2^32
  let k := k ^^^ k >>> r
  let k := k * m % 2^32
  h * m % 2^32 ^^^ k

def get (h : Nat) : Nat :=
  let x := h ^^^ h >>> 13
  let x := x * m % 2^32
  x ^^^ x >>> 15

theorem get_lt (h : Nat) : get h < 2^32 := by
  have hx : (h ^^^ h >>> 13) * m % 2^32 < 2^32 := Nat.mod_lt _ (by decide)
  have hs : ((h ^^^ h >>> 13) * m % 2^32) >>> 15 < 2^32 := by
    rw [Nat.shiftRight_eq_div_pow]
    exact (Nat.div_le_self _ _).trans_lt hx
  exact Nat.xor_lt_two_pow hx hs

end MurMur2HashBuilder

/-- The depot with the words of its ring and its table that can be accessed. -/
structure StackDepot where
  ringEnd : Nat
  ringSize : Nat
  ringMask : Nat
  tabMask : Nat
  ring : List Nat
  tab : List Nat

namespace StackDepot

open MurMur2HashBuilder

def init (ringSz tabSz : Nat) : StackDepot :=
  { ringEnd := 0, ringSize := ringSz, ringMask := ringSz-1, tabMask := tabSz-1,
    ring := List.replicate ringSz 0, tab := List.replicate tabSz 0 }

/-- How a frame enters the hash. -/
def addFrame (h frame : Nat) : Nat := add h ((frame % 2^32) >>> 2)

def hashOf (trace : List Nat) : Nat := get (trace.foldl addFrame seed)

/-- The marker in front of a stored trace. -/
def entryId (size hash : Nat) : Nat := (size <<< 33) % 2^64 ||| hash <<< 1 ||| 1

/-- A store that must stay inside the words of `l`. -/
def store (l : List Nat) (i v : Nat) : Option (List Nat) :=
  if i < l.length then some (l.set i v) else none

/-- The loop that stores the frames behind the marker; with the position of the last word. -/
def storeFrames (ringMask : Nat) : List Nat → Nat → List Nat → Option (Nat × List Nat)
  | [], ringPos, ring => some (ringPos, ring)
  | frame::frames, ringPos, ring => do
    let ringPos := (ringPos+1) % 2^32 &&& ringMask
    let ring ← store ring ringPos frame
    storeFrames ringMask frames ringPos ring

/-- The entry that the table gives for a hash. -/
def entry (d : StackDepot) (hash : Nat) : Option Nat := do
  let ringPos ← d.tab[hash &&& d.tabMask]?
  d.ring[ringPos]?

/-- The new depot and the hash; `none` is an access outside of the ring or the table. -/
def insert (d : StackDepot) (trace : List Nat) : Option (StackDepot × Nat) := do
  let hash := hashOf trace
  let id := entryId trace.length hash
  let e ← d.entry hash
  if e = id then some (d, hash)
  else
    let tab ← store d.tab (hash &&& d.tabMask) d.ringEnd
    let ring ← store d.ring d.ringEnd id
    let (ringPos, ring) ← storeFrames d.ringMask trace d.ringEnd ring
    some ({ d with tab := tab, ring := ring, ringEnd := (ringPos+1) % 2^32 &&& d.ringMask }, hash)

/-- The loop that hashes the stored frames behind `ringPos`. -/
def hashRing (d : StackDepot) : Nat → Nat → Nat → Option Nat
  | 0, _, h => some h
  | n+1, ringPos, h => do
    let ringPos := (ringPos+1) % 2^32 &&& d.ringMask
    let frame ← d.ring[ringPos]?
    hashRing d n ringPos (addFrame h frame)

/-- `none` is an access outside of the ring or the table, `some none` a failed lookup, else the
position of the first frame and the number of frames. -/
def find (d : StackDepot) (hash : Nat) : Option (Option (Nat × Nat)) := do
  let ringPos ← d.tab[hash &&& d.tabMask]?
  if ringPos ≥ d.ringSize then some none
  else
    let e ← d.ring[ringPos]?
    let hashWithTagBit := hash <<< 1 ||| 1
    if e &&& 0x1ffffffff ≠ hashWithTagBit then some none
    else
      let size := (e >>> 33) % 2^32
      if size ≥ d.ringSize then some none
      else
        let h ← hashRing d size ringPos seed
        if get h = hash then some (some ((ringPos+1) % 2^32 &&& d.ringMask, size))
        else some none

/-- The operator `at`. -/
def frameAt (d : StackDepot) (ringPos : Nat) : Option Nat := d.ring[ringPos &&& d.ringMask]?

/-- The frames that a caller of `find` reads, from `ringPos` on. -/
def frames (d : StackDepot) : Nat → Nat → Option (List Nat)
  | _, 0 => some []
  | ringPos, n+1 => do
    let frame ← d.frameAt ringPos
    let rest ← frames d (ringPos+1) n
    some (frame::rest)

theorem entryId_eq {size hash : Nat} (hs : size < 2^31) (hh : hash < 2^32) :
    entryId size hash = size * 2^33 + (2*hash+1) := by
  have hlow : hash <<< 1 ||| 1 = 2*hash+1 := by
    rw [← Nat.shiftLeft_add_eq_or_of_lt (show 1 < 2^1 by decide), Nat.shiftLeft_eq]
    omega
  have hfit : (size <<< 33) % 2^64 = size <<< 33 := by
    rw [Nat.shiftLeft_eq, Nat.mod_eq_of_lt (by omega)]
  rw [entryId, hfit, Nat.lor_assoc, hlow, ← Nat.shiftLeft_add_eq_or_of_lt (by omega),
    Nat.shiftLeft_eq]

theorem entryId_tag {size hash : Nat} (hs : size < 2^31) (hh : hash < 2^32) :
    entryId size hash &&& 0x1ffffffff = hash <<< 1 ||| 1 := by
  have hlow : hash <<< 1 ||| 1 = 2*hash+1 := by
    rw [← Nat.shiftLeft_add_eq_or_of_lt (show 1 < 2^1 by decide), Nat.shiftLeft_eq]
    omega
  rw [entryId_eq hs hh, hlow, show 0x1ffffffff = 2^33 - 1 from rfl, Word.and_low_mask]
  omega

theorem entryId_size {size hash : Nat} (hs : size < 2^31) (hh : hash < 2^32) :
    (entryId size hash >>> 33) % 2^32 = size := by
  rw [entryId_eq hs hh, Nat.shiftRight_eq_div_pow]
  omega

theorem entryId_odd {size hash : Nat} (hs : size < 2^31) (hh : hash < 2^32) :
    entryId size hash % 2 = 1 := by
  rw [entryId_eq hs hh]
  omega

theorem hashOf_lt (trace : List Nat) : hashOf trace < 2^32 := get_lt _

/-- The shape of a depot that `init` set up, whatever was inserted since. -/
structure Wf (k j : Nat) (d : StackDepot) : Prop where
  k_lt : k < 32
  ringSize_eq : d.ringSize = 2^k
  ringMask_eq : d.ringMask = 2^k - 1
  tabMask_eq : d.tabMask = 2^j - 1
  ring_length : d.ring.length = 2^k
  tab_length : d.tab.length = 2^j
  tab_lt : ∀ p ∈ d.tab, p < 2^k
  ringEnd_lt : d.ringEnd < 2^k

theorem init_wf {k j : Nat} (hk : k < 32) : Wf k j (init (2^k) (2^j)) where
  k_lt := hk
  ringSize_eq := rfl
  ringMask_eq := rfl
  tabMask_eq := rfl
  ring_length := List.length_replicate
  tab_length := List.length_replicate
  tab_lt p hp := by
    rw [List.eq_of_mem_replicate hp]
    exact Nat.two_pow_pos k
  ringEnd_lt := Nat.two_pow_pos k

section Reading

variable {k j : Nat} {d : StackDepot}

theorem next_pos (hk : k ≤ 32) (x : Nat) : (x+1) % 2^32 &&& (2^k - 1) = (x+1) % 2^k := by
  rw [Word.and_low_mask, Nat.mod_mod_of_dvd _ (pow_dvd_pow 2 hk)]

theorem Wf.frameAt_eq (h : Wf k j d) (x : Nat) : d.frameAt x = d.ring[x % 2^k]? := by
  rw [frameAt, h.ringMask_eq, Word.and_low_mask]

theorem Wf.frames_mod (h : Wf k j d) (n x y : Nat) (hxy : x % 2^k = y % 2^k) :
    d.frames x n = d.frames y n := by
  induction n generalizing x y with
  | zero => rw [frames, frames]
  | succ n ih =>
    have hnext : (x+1) % 2^k = (y+1) % 2^k := by rw [Nat.add_mod, hxy, ← Nat.add_mod]
    rw [frames, frames, h.frameAt_eq, h.frameAt_eq, hxy, ih _ _ hnext]

/-- The loop of `find` hashes the frames that its caller will read. -/
theorem Wf.hashRing_eq (h : Wf k j d) (n x acc : Nat) :
    d.hashRing n x acc = (d.frames (x+1) n).map fun fs => fs.foldl addFrame acc := by
  induction n generalizing x acc with
  | zero => rfl
  | succ n ih =>
    have hcell : d.ring[(x+1) % 2^32 &&& d.ringMask]? = d.frameAt (x+1) := by
      rw [h.frameAt_eq, h.ringMask_eq, next_pos h.k_lt.le]
    have hrest : d.frames ((x+1) % 2^32 % 2^k + 1) n = d.frames (x+1+1) n := by
      apply h.frames_mod
      rw [Nat.mod_mod_of_dvd _ (pow_dvd_pow 2 h.k_lt.le), Nat.mod_add_mod]
    rw [hashRing, frames, hcell]
    simp only [Option.bind_eq_bind]
    cases d.frameAt (x+1) with
    | none => rw [Option.bind_none, Option.bind_none, Option.map_none]
    | some frame =>
      rw [Option.bind_some, Option.bind_some, ih, h.ringMask_eq, Word.and_low_mask, hrest]
      cases d.frames (x+1+1) n with
      | none => rw [Option.map_none, Option.bind_none, Option.map_none]
      | some rest => rw [Option.bind_some, Option.map_some, Option.map_some, List.foldl_cons]

/-- A whole depot gives every frame it is asked for. -/
theorem Wf.frames_isSome (h : Wf k j d) (x n : Nat) :
    ∃ fs, d.frames x n = some fs ∧ fs.length = n := by
  induction n generalizing x with
  | zero => exact ⟨[], rfl, rfl⟩
  | succ n ih =>
    obtain ⟨rest, hrest, hlen⟩ := ih (x+1)
    have hx : x % 2^k < d.ring.length := by
      rw [h.ring_length]
      exact Nat.mod_lt _ (Nat.two_pow_pos k)
    refine ⟨d.ring[x % 2^k] :: rest, ?_, by rw [List.length_cons, hlen]⟩
    rw [frames, h.frameAt_eq, List.getElem?_eq_getElem hx, hrest]
    rfl

theorem Wf.tab_get (h : Wf k j d) (hash : Nat) :
    ∃ p, d.tab[hash &&& d.tabMask]? = some p ∧ p < 2^k := by
  have hx : hash &&& d.tabMask < d.tab.length := by
    rw [h.tabMask_eq, h.tab_length, Word.and_low_mask]
    exact Nat.mod_lt _ (Nat.two_pow_pos j)
  exact ⟨d.tab[hash &&& d.tabMask], List.getElem?_eq_getElem hx,
    h.tab_lt _ (List.getElem_mem hx)⟩

theorem Wf.ring_get (h : Wf k j d) {p : Nat} (hp : p < 2^k) : ∃ e, d.ring[p]? = some e :=
  ⟨_, List.getElem?_eq_getElem (h.ring_length.symm ▸ hp)⟩

theorem Wf.find_eq (h : Wf k j d) (hash : Nat) {p e : Nat} (hp : p < 2^k)
    (htab : d.tab[hash &&& d.tabMask]? = some p) (hring : d.ring[p]? = some e) :
    d.find hash =
      if e &&& 0x1ffffffff ≠ hash <<< 1 ||| 1 then some none
      else if (e >>> 33) % 2^32 ≥ 2^k then some none
      else (d.frames (p+1) ((e >>> 33) % 2^32)).bind fun fs =>
        if hashOf fs = hash then some (some ((p+1) % 2^k, (e >>> 33) % 2^32)) else some none := by
  rw [find, htab]
  simp only [Option.bind_eq_bind, Option.bind_some]
  rw [h.ringSize_eq, if_neg (by omega), hring, Option.bind_some, h.hashRing_eq, h.ringMask_eq,
    next_pos h.k_lt.le]
  cases d.frames (p+1) ((e >>> 33) % 2^32) <;> rfl

/-- What a lookup returns has the hash that was asked for, whatever the ring holds. -/
theorem Wf.find_sound (h : Wf k j d) (hash : Nat) :
    ∃ r, d.find hash = some r ∧ ∀ pos size, r = some (pos, size) →
      size < 2^k ∧ ∃ fs, d.frames pos size = some fs ∧ hashOf fs = hash := by
  obtain ⟨p, htab, hp⟩ := h.tab_get hash
  obtain ⟨e, hring⟩ := h.ring_get hp
  obtain ⟨fs, hfs, -⟩ := h.frames_isSome (p+1) ((e >>> 33) % 2^32)
  rw [h.find_eq hash hp htab hring, hfs, Option.bind_some]
  split_ifs with htag hsize hhash
  · exact ⟨none, rfl, by simp⟩
  · exact ⟨none, rfl, by simp⟩
  · refine ⟨_, rfl, ?_⟩
    rintro pos size ⟨⟩
    refine ⟨by omega, fs, ?_, hhash⟩
    rw [h.frames_mod _ _ _ (Nat.mod_mod _ _), hfs]
  · exact ⟨none, rfl, by simp⟩

/-- A lookup succeeds where the table leads to an intact entry. -/
theorem Wf.find_intact (h : Wf k j d) {hash p : Nat} {fs : List Nat} (hp : p < 2^k)
    (hlen : fs.length < 2^k) (htab : d.tab[hash &&& d.tabMask]? = some p)
    (hring : d.ring[p]? = some (entryId fs.length hash)) (hhash : hashOf fs = hash)
    (hfs : d.frames (p+1) fs.length = some fs) :
    d.find hash = some (some ((p+1) % 2^k, fs.length)) ∧
      d.frames ((p+1) % 2^k) fs.length = some fs := by
  have hk : 2^k ≤ 2^31 := Nat.pow_le_pow_right (by decide) (by have := h.k_lt; omega)
  have hh : hash < 2^32 := hhash ▸ hashOf_lt fs
  rw [h.find_eq hash hp htab hring, entryId_tag (by omega) hh, entryId_size (by omega) hh,
    if_neg (by simp), if_neg (by omega), hfs, Option.bind_some, if_pos hhash]
  exact ⟨rfl, by rw [h.frames_mod _ _ _ (Nat.mod_mod _ _), hfs]⟩

end Reading

end StackDepot

end ScudoMte
