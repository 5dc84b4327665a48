import Mathlib.Data.Nat.Prime.Basic
import Mathlib.Data.Nat.ModEq
import Mathlib.Data.List.Nodup
import Mathlib.Tactic.NormNum

namespace ScudoMte.Tsd

/-- The fields of `TSDRegistrySharedT` that pick a TSD: `coPrimes` are the first
`NumberOfCoPrimes` entries of the array. -/
structure SharedRegistry where
  tsdsArraySize : Nat
  numberOfTSDs : Nat
  coPrimes : List Nat

/-- The loop on `A` and `B`. -/
def gcdLoop (a b : Nat) : Nat :=
  if b = 0 then a else gcdLoop b (a % b)
termination_by b
decreasing_by exact Nat.mod_lt a (Nat.pos_of_ne_zero ‹_›)

/-- The array that the loop over `I` fills. -/
def coPrimesOf (n : Nat) : List Nat :=
  (List.range n).foldl (fun cs i => if gcdLoop (i+1) n = 1 then cs ++ [i+1] else cs) []

namespace SharedRegistry

/-- A registry before its first `setNumberOfTSDs`. -/
def new (tsdsArraySize : Nat) : SharedRegistry :=
  { tsdsArraySize, numberOfTSDs := 0, coPrimes := [] }

def setNumberOfTSDs (r : SharedRegistry) (n : Nat) : Bool × SharedRegistry :=
  if n < r.numberOfTSDs then (false, r)
  else
    let n := min n r.tsdsArraySize
    (true, { r with numberOfTSDs := n, coPrimes := coPrimesOf n })

/-- `CoPrimes[R % NumberOfCoPrimes]`. -/
def increment (r : SharedRegistry) (seed : Nat) : Nat :=
  r.coPrimes.getD (seed % r.coPrimes.length) 0

end SharedRegistry

/-- What a probed TSD shows: its lock was free, or else its precedence. -/
inductive Probe
  | free
  | busy (precedence : Nat)

/-- The loop variables of `getTSDAndLockSlow`; `probed` records the failed probes. -/
structure Search where
  index : Nat
  lowestPrecedence : Nat
  candidate : Option Nat
  probed : List (Nat × Nat)

/-- A round whose `tryLock` failed. -/
def Search.next (n inc : Nat) (s : Search) (precedence : Nat) : Search :=
  let lower := precedence ≠ 0 ∧ precedence < s.lowestPrecedence
  let index := (s.index + inc) % 2^32
  { index := if n ≤ index then index - n else index
    lowestPrecedence := if lower then precedence else s.lowestPrecedence
    candidate := if lower then some s.index else s.candidate
    probed := s.probed ++ [(s.index, precedence)] }

/-- The loop over `I`: the TSD whose `tryLock` succeeded, if any. `probe` is what the other
threads make of each TSD at each round. -/
def search (n inc : Nat) (probe : Nat → Nat → Probe) : Nat → Nat → Search → Option Nat × Search
  | 0, _, s => (none, s)
  | rounds+1, i, s =>
      match probe i s.index with
      | .free => (some s.index, s)
      | .busy precedence => search n inc probe rounds (i+1) (s.next n inc precedence)

/-- How `getTSDAndLockSlow` gets its TSD. -/
inductive Locked
  | tried (index : Nat)
  | candidate (index : Nat)
  | current
  deriving DecidableEq

/-- `getTSDAndLockSlow` with the precedence `seed` of the current TSD, and the probes that failed
before it locks. -/
def SharedRegistry.getTSDAndLockSlow (r : SharedRegistry) (seed : Nat)
    (probe : Nat → Nat → Probe) : Locked × List (Nat × Nat) :=
  let n := r.numberOfTSDs
  let inc := r.increment seed
  if 1 < n then
    let start : Search :=
      { index := seed % n, lowestPrecedence := 2^64 - 1, candidate := none, probed := [] }
    match search n inc probe (min 4 n) 0 start with
    | (some index, s) => (.tried index, s.probed)
    | (none, s) => ((s.candidate.map Locked.candidate).getD .current, s.probed)
  else (.current, [])

theorem gcdLoop_eq (a b : Nat) : gcdLoop a b = Nat.gcd a b := by
  induction a, b using gcdLoop.induct with
  | case1 a => rw [gcdLoop, if_pos rfl, Nat.gcd_zero_right]
  | case2 a b hb ih => rw [gcdLoop, if_neg hb, ih, Nat.gcd_comm b, ← Nat.gcd_rec, Nat.gcd_comm]

theorem coPrimesOf_eq (n : Nat) :
    coPrimesOf n = ((List.range n).filter fun i => (i+1).Coprime n).map (· + 1) := by
  have hloop (l cs : List Nat) :
      l.foldl (fun cs i => if gcdLoop (i+1) n = 1 then cs ++ [i+1] else cs) cs =
        cs ++ (l.filter fun i => (i+1).Coprime n).map (· + 1) := by
    induction l generalizing cs with
    | nil => simp
    | cons i l ih =>
      rw [List.foldl_cons, ih, gcdLoop_eq, List.filter_cons]
      by_cases h : (i+1).Coprime n
      · rw [if_pos h, if_pos (decide_eq_true h), List.map_cons, List.append_assoc]
        rfl
      · rw [if_neg h, if_neg (by simpa using h)]
  exact hloop _ []

theorem mem_coPrimesOf {n k : Nat} : k ∈ coPrimesOf n ↔ 1 ≤ k ∧ k ≤ n ∧ k.Coprime n := by
  simp only [coPrimesOf_eq, List.mem_map, List.mem_filter, List.mem_range, decide_eq_true_eq]
  constructor
  · rintro ⟨i, ⟨hi, hc⟩, rfl⟩
    exact ⟨by omega, by omega, hc⟩
  · rintro ⟨h1, hn, hc⟩
    exact ⟨k-1, ⟨by omega, by rwa [Nat.sub_add_cancel h1]⟩, Nat.sub_add_cancel h1⟩

theorem coPrimesOf_nodup (n : Nat) : (coPrimesOf n).Nodup := by
  rw [coPrimesOf_eq]
  exact (List.nodup_range.filter _).map fun a b h => Nat.succ_injective h

theorem coPrimesOf_length_le (n : Nat) : (coPrimesOf n).length ≤ n := by
  rw [coPrimesOf_eq, List.length_map]
  exact (List.length_filter_le _ _).trans (List.length_range).le

theorem coPrimesOf_pos {n : Nat} (hn : 1 ≤ n) : 0 < (coPrimesOf n).length :=
  List.length_pos_of_mem (mem_coPrimesOf.mpr ⟨le_rfl, hn, Nat.coprime_one_left n⟩)

/-- The index of round `i`, as long as it does not wrap around. -/
def probeIndex (n inc start i : Nat) : Nat := (start + i * inc) % n

theorem probeIndex_lt {n : Nat} (hn : 0 < n) (inc start i : Nat) :
    probeIndex n inc start i < n :=
  Nat.mod_lt _ hn

/-- Strides of a coprime increment meet every residue once. -/
theorem probeIndex_injective {n inc start i j : Nat} (hc : inc.Coprime n) (hi : i < n)
    (hj : j < n) (h : probeIndex n inc start i = probeIndex n inc start j) : i = j := by
  have hmod : i * inc ≡ j * inc [MOD n] := Nat.ModEq.add_left_cancel' start h
  have hcancel : i ≡ j [MOD n] := Nat.ModEq.cancel_right_of_coprime hc.symm hmod
  rwa [Nat.ModEq, Nat.mod_eq_of_lt hi, Nat.mod_eq_of_lt hj] at hcancel

theorem probeIndex_succ {n inc start i : Nat} (hinc : inc < n) (hfit : n + inc ≤ 2^32) :
    (if n ≤ (probeIndex n inc start i + inc) % 2^32
      then (probeIndex n inc start i + inc) % 2^32 - n
      else (probeIndex n inc start i + inc) % 2^32) = probeIndex n inc start (i+1) := by
  have hlt := probeIndex_lt (show 0 < n by omega) inc start i
  have hnext : probeIndex n inc start (i+1) = (probeIndex n inc start i + inc) % n := by
    rw [probeIndex, probeIndex, Nat.mod_add_mod, Nat.succ_mul, Nat.add_assoc]
  rw [hnext, Nat.mod_eq_of_lt (show probeIndex n inc start i + inc < 2^32 by omega)]
  split
  · next hge => rw [Nat.mod_eq_sub_mod hge, Nat.mod_eq_of_lt (by omega)]
  · next hlt' => rw [Nat.mod_eq_of_lt (by omega)]

/-- The state of the loop after `k` failed probes: the stride so far, and the candidate against
the precedences it has seen. -/
structure Searching (n inc start : Nat) (precedence : Nat → Nat → Nat) (k : Nat) (s : Search) :
    Prop where
  index : s.index = probeIndex n inc start k
  probed : s.probed = (List.range k).map fun i =>
    (probeIndex n inc start i, precedence i (probeIndex n inc start i))
  none : s.candidate = none → s.lowestPrecedence = 2^64 - 1 ∧ ∀ q ∈ s.probed, q.2 = 0
  some : ∀ c, s.candidate = some c → (c, s.lowestPrecedence) ∈ s.probed ∧
    s.lowestPrecedence ≠ 0 ∧ ∀ q ∈ s.probed, q.2 ≠ 0 → s.lowestPrecedence ≤ q.2

theorem Searching.next {n inc start k : Nat} {precedence : Nat → Nat → Nat} {s : Search}
    (h : Searching n inc start precedence k s) (hinc : inc < n) (hfit : n + inc ≤ 2^32)
    (hp : precedence k s.index < 2^64 - 1) :
    Searching n inc start precedence (k+1) (s.next n inc (precedence k s.index)) := by
  have hprobed : (s.next n inc (precedence k s.index)).probed =
      (List.range (k+1)).map fun i =>
        (probeIndex n inc start i, precedence i (probeIndex n inc start i)) := by
    rw [List.range_succ, List.map_append, ← h.probed, List.map_singleton, ← h.index]
    rfl
  refine ⟨?_, hprobed, ?_, ?_⟩
  · simp only [Search.next, h.index]
    exact probeIndex_succ hinc hfit
  all_goals generalize precedence k s.index = precedence at hp
  · intro hnone
    simp only [Search.next] at hnone ⊢
    by_cases hlower : precedence ≠ 0 ∧ precedence < s.lowestPrecedence
    · rw [if_pos hlower] at hnone
      cases hnone
    · rw [if_neg hlower] at hnone ⊢
      obtain ⟨hlow, hzero⟩ := h.none hnone
      have hprec : precedence = 0 := by
        by_contra hne
        exact hlower ⟨hne, hlow ▸ hp⟩
      refine ⟨hlow, ?_⟩
      intro q hq
      rcases List.mem_append.mp hq with hq | hq
      · exact hzero q hq
      · rw [List.mem_singleton.mp hq]
        exact hprec
  · intro c hsome
    simp only [Search.next] at hsome ⊢
    by_cases hlower : precedence ≠ 0 ∧ precedence < s.lowestPrecedence
    · rw [if_pos hlower, Option.some.injEq] at hsome
      rw [if_pos hlower]
      subst hsome
      refine ⟨by simp, hlower.1, ?_⟩
      intro q hq hne
      rcases List.mem_append.mp hq with hq | hq
      · cases hc : s.candidate with
        | none => exact absurd ((h.none hc).2 q hq) hne
        | some c => exact hlower.2.le.trans ((h.some c hc).2.2 q hq hne)
      · rw [List.mem_singleton.mp hq]
    · rw [if_neg hlower] at hsome ⊢
      obtain ⟨hmem, hpos, hle⟩ := h.some c hsome
      refine ⟨List.mem_append_left _ hmem, hpos, ?_⟩
      intro q hq hne
      rcases List.mem_append.mp hq with hq | hq
      · exact hle q hq hne
      · rw [List.mem_singleton.mp hq] at hne ⊢
        by_contra hgt
        exact hlower ⟨hne, by omega⟩

/-- The loop while every `tryLock` fails. -/
theorem search_busy {n inc start : Nat} {precedence : Nat → Nat → Nat} (hinc : inc < n)
    (hfit : n + inc ≤ 2^32) (hp : ∀ i index, precedence i index < 2^64 - 1)
    (rounds i : Nat) {s : Search} (h : Searching n inc start precedence i s) :
    ∃ s', search n inc (fun i index => .busy (precedence i index)) rounds i s = (none, s') ∧
      Searching n inc start precedence (i+rounds) s' := by
  induction rounds generalizing i s with
  | zero => exact ⟨s, rfl, h⟩
  | succ rounds ih =>
    obtain ⟨s', hs', hsearch⟩ := ih (i+1) (h.next hinc hfit (hp i s.index))
    exact ⟨s', hs', by rwa [show i+(rounds+1) = i+1+rounds by omega]⟩

theorem increment_mem {r : SharedRegistry} (h : r.coPrimes ≠ []) (seed : Nat) :
    r.increment seed ∈ r.coPrimes := by
  have hlt := Nat.mod_lt seed (List.length_pos_of_ne_nil h)
  rw [SharedRegistry.increment, List.getD_eq_getElem?_getD, List.getElem?_eq_getElem hlt]
  exact List.getElem_mem hlt

/-- An increment is less than the number of TSDs, so up to `2^31` of them no index wraps around. -/
theorem increment_lt {r : SharedRegistry} (h : r.coPrimes = coPrimesOf r.numberOfTSDs)
    (hn : 1 < r.numberOfTSDs) (seed : Nat) :
    r.increment seed < r.numberOfTSDs ∧ (r.increment seed).Coprime r.numberOfTSDs := by
  have hne : r.coPrimes ≠ [] := by
    rw [h]
    exact List.ne_nil_of_length_pos (coPrimesOf_pos hn.le)
  have hmem := increment_mem hne seed
  rw [h, mem_coPrimesOf] at hmem
  obtain ⟨-, hle, hc⟩ := hmem
  refine ⟨lt_of_le_of_ne hle ?_, hc⟩
  intro heq
  rw [heq, Nat.coprime_self] at hc
  omega

/-- The slow path of a registry while every `tryLock` fails. -/
theorem getTSDAndLockSlow_busy {r : SharedRegistry} {seed : Nat} {precedence : Nat → Nat → Nat}
    (hn : 1 < r.numberOfTSDs) (hinc : r.increment seed < r.numberOfTSDs)
    (hfit : r.numberOfTSDs + r.increment seed ≤ 2^32)
    (hp : ∀ i index, precedence i index < 2^64 - 1) :
    ∃ s, r.getTSDAndLockSlow seed (fun i index => .busy (precedence i index)) =
        ((s.candidate.map Locked.candidate).getD .current, s.probed) ∧
      Searching r.numberOfTSDs (r.increment seed) (seed % r.numberOfTSDs) precedence
        (min 4 r.numberOfTSDs) s := by
  have hstart : Searching r.numberOfTSDs (r.increment seed) (seed % r.numberOfTSDs) precedence 0
      { index := seed % r.numberOfTSDs, lowestPrecedence := 2^64 - 1, candidate := none,
        probed := [] } := by
    refine ⟨?_, rfl, fun _ => ⟨rfl, by simp⟩, fun c hc => by cases hc⟩
    rw [probeIndex, Nat.zero_mul, Nat.add_zero, Nat.mod_mod]
  obtain ⟨s, hs, hsearch⟩ := search_busy hinc hfit hp (min 4 r.numberOfTSDs) 0 hstart
  rw [Nat.zero_add] at hsearch
  refine ⟨s, ?_, hsearch⟩
  rw [SharedRegistry.getTSDAndLockSlow, if_pos hn]
  simp only [hs]

theorem Searching.indices_nodup {n inc start k : Nat} {precedence : Nat → Nat → Nat} {s : Search}
    (h : Searching n inc start precedence k s) (hc : inc.Coprime n) (hk : k ≤ n) :
    (s.probed.map Prod.fst).Nodup := by
  rw [h.probed, List.map_map]
  refine List.nodup_range.map_on ?_
  intro i hi j hj heq
  rw [List.mem_range] at hi hj
  exact probeIndex_injective hc (by omega) (by omega) heq

/-- What the slow path locks after failed probes. -/
theorem Searching.locked {n inc start k : Nat} {precedence : Nat → Nat → Nat} {s : Search}
    (h : Searching n inc start precedence k s) :
    ((∀ q ∈ s.probed, q.2 = 0) →
      (s.candidate.map Locked.candidate).getD .current = .current) ∧
    ((∃ q ∈ s.probed, q.2 ≠ 0) → ∃ c p,
      (s.candidate.map Locked.candidate).getD .current = .candidate c ∧ (c, p) ∈ s.probed ∧
        p ≠ 0 ∧ ∀ q ∈ s.probed, q.2 ≠ 0 → p ≤ q.2) := by
  cases hcand : s.candidate with
  | none =>
    have hzero := (h.none hcand).2
    exact ⟨fun _ => rfl, fun ⟨q, hq, hne⟩ => absurd (hzero q hq) hne⟩
  | some c =>
    obtain ⟨hmem, hpos, hle⟩ := h.some c hcand
    exact ⟨fun hzero => absurd (hzero _ hmem) hpos,
      fun _ => ⟨c, s.lowestPrecedence, rfl, hmem, hpos, hle⟩⟩

/-- After `setNumberOfTSDs` the array holds the numbers up to `n` that are coprime to it. While
every `tryLock` fails, and no index wraps around, the slow path probes distinct TSDs and then locks
the probed one of lowest non-zero precedence, or else the current one. -/
theorem setNumberOfTSDs_probes {r : SharedRegistry} {n : Nat} (hn : 1 ≤ n)
    (hsize : n ≤ r.tsdsArraySize) (hgrow : r.numberOfTSDs ≤ n) :
    ∃ r', r.setNumberOfTSDs n = (true, r') ∧ r'.numberOfTSDs = n ∧
      (r'.coPrimes.Nodup ∧ r'.coPrimes ≠ [] ∧ r'.coPrimes.length ≤ r'.tsdsArraySize ∧
        ∀ k, k ∈ r'.coPrimes ↔ 1 ≤ k ∧ k ≤ n ∧ k.Coprime n) ∧
      ∀ (seed : Nat) (precedence : Nat → Nat → Nat), 1 < n →
        n + r'.increment seed ≤ 2^32 → (∀ i index, precedence i index < 2^64 - 1) →
        ∃ locked probed,
          r'.getTSDAndLockSlow seed (fun i index => .busy (precedence i index)) =
            (locked, probed) ∧
          probed.length = min 4 n ∧ (probed.map Prod.fst).Nodup ∧
          (∀ i (hi : i < probed.length),
            probed[i].1 < n ∧ probed[i].2 = precedence i probed[i].1) ∧
          ((∀ q ∈ probed, q.2 = 0) → locked = .current) ∧
          ((∃ q ∈ probed, q.2 ≠ 0) → ∃ c p, locked = .candidate c ∧ (c, p) ∈ probed ∧ p ≠ 0 ∧
            ∀ q ∈ probed, q.2 ≠ 0 → p ≤ q.2) := by
  let r' : SharedRegistry := { r with numberOfTSDs := n, coPrimes := coPrimesOf n }
  have hset : r.setNumberOfTSDs n = (true, r') := by
    rw [SharedRegistry.setNumberOfTSDs, if_neg (by omega)]
    simp only [Nat.min_eq_left hsize]
    rfl
  refine ⟨r', hset, rfl, ⟨coPrimesOf_nodup n, List.ne_nil_of_length_pos (coPrimesOf_pos hn),
    (coPrimesOf_length_le n).trans hsize, fun k => mem_coPrimesOf⟩, ?_⟩
  intro seed precedence hn1 hfit hp
  obtain ⟨hinc, hc⟩ := increment_lt (r := r') rfl hn1 seed
  obtain ⟨s, hs, hsearch⟩ := getTSDAndLockSlow_busy (r := r') hn1 hinc hfit hp
  obtain ⟨hcurrent, hcandidate⟩ := hsearch.locked
  refine ⟨_, s.probed, hs, ?_, hsearch.indices_nodup hc (Nat.min_le_right 4 n), ?_, hcurrent,
    hcandidate⟩
  · rw [hsearch.probed, List.length_map, List.length_range]
  · intro i hi
    simp only [hsearch.probed, List.getElem_map, List.getElem_range]
    exact ⟨probeIndex_lt hn _ _ _, trivial⟩

theorem setNumberOfTSDs_probes_eight :
    ∃ r', (SharedRegistry.new 8).setNumberOfTSDs 8 = (true, r') ∧
      ((r'.getTSDAndLockSlow 5 fun _ index => .busy (index % 2)).2.map Prod.fst).Nodup := by
  obtain ⟨r', hset, -, hcop, hprobe⟩ :=
    setNumberOfTSDs_probes (r := .new 8) (n := 8) (by decide) (by decide) (by decide)
  have hinc := increment_mem hcop.2.1 5
  have hle := ((hcop.2.2.2 _).mp hinc).2.1
  obtain ⟨locked, probed, heq, -, hnodup, -⟩ :=
    hprobe 5 (fun _ index => index % 2) (by decide) (by omega) (fun _ index => by omega)
  exact ⟨r', hset, by rw [heq]; exact hnodup⟩

theorem coprime_three_pow {m k : Nat} (hm : 0 < m) : k.Coprime (3^m) ↔ ¬ 3 ∣ k := by
  rw [Nat.coprime_pow_right_iff hm, Nat.coprime_comm, Nat.prime_three.coprime_iff_not_dvd]

theorem length_filter_three (q : Nat) :
    ((List.range (3*q)).filter fun i => ¬ 3 ∣ i+1).length = 2*q := by
  induction q with
  | zero => rfl
  | succ q ih =>
    have h1 : ¬ 3 ∣ 3*q+1 := by omega
    have h2 : ¬ 3 ∣ 3*q+1+1 := by omega
    have h3 : 3 ∣ 3*q+1+1+1 := by omega
    rw [show 3*(q+1) = 3*q+1+1+1 by omega, List.range_succ, List.range_succ, List.range_succ]
    simp only [List.filter_append, List.length_append, ih, List.filter_cons, List.filter_nil, h1,
      h2, h3, not_true_eq_false, not_false_eq_true, decide_true, decide_false, if_true,
      Bool.false_eq_true, if_false, List.length_cons, List.length_nil]
    omega

/-- The entry at an odd position of the numbers that are no multiples of three. -/
theorem getElem_filter_three (q t : Nat) :
    ((List.range (3*q+2+t)).filter fun i => ¬ 3 ∣ i+1)[2*q+1]? = some (3*q+1) := by
  have h1 : ¬ 3 ∣ 3*q+1 := by omega
  have h2 : ¬ 3 ∣ 3*q+1+1 := by omega
  have hfirst : (List.range (3*q+2)).filter (fun i => ¬ 3 ∣ i+1) =
      (List.range (3*q)).filter (fun i => ¬ 3 ∣ i+1) ++ [3*q, 3*q+1] := by
    rw [List.range_succ, List.range_succ]
    simp only [List.filter_append, List.filter_cons, List.filter_nil, h1, h2, not_false_eq_true,
      decide_true, if_true, List.append_assoc, List.cons_append, List.nil_append]
  have hlen := length_filter_three q
  rw [List.range_add, List.filter_append, hfirst,
    List.getElem?_append_left (by rw [List.length_append, hlen]; simp),
    List.getElem?_append_right (by omega), hlen, show 2*q+1-2*q = 1 by omega]
  rfl

theorem coPrimesOf_three_pow {m : Nat} (hm : 0 < m) :
    coPrimesOf (3^m) = ((List.range (3^m)).filter fun i => ¬ 3 ∣ i+1).map (· + 1) := by
  rw [coPrimesOf_eq]
  apply congrArg (List.map (· + 1))
  apply List.filter_congr
  intro i _
  exact decide_eq_decide.mpr (coprime_three_pow hm)

/-- With `3^20` TSDs this seed draws the increment `2^31`. -/
theorem increment_three_pow (size : Nat) :
    SharedRegistry.increment ⟨size, 3^20, coPrimesOf (3^20)⟩ 3756178699 = 2^31 := by
  have hcop := coPrimesOf_three_pow (show 0 < 20 by decide)
  have hlen : (coPrimesOf (3^20)).length = 2 * 3^19 := by
    rw [hcop, List.length_map, show (3^20 : Nat) = 3 * 3^19 by norm_num, length_filter_three]
  have hget := getElem_filter_three 715827882 (3^20 - 2147483648)
  rw [show 3*715827882+2 + (3^20 - 2147483648) = 3^20 by norm_num] at hget
  simp only [SharedRegistry.increment]
  rw [hlen, List.getD_eq_getElem?_getD, hcop, List.getElem?_map,
    show 3756178699 % (2 * 3^19) = 2*715827882+1 by norm_num, hget]
  norm_num

/-- Two ways out of the probing: an index that wraps around `2^32` comes back to a TSD that was
probed, and a precedence of all ones is never the lowest. -/
theorem probes_fail :
    (∃ r', (SharedRegistry.new (3^20)).setNumberOfTSDs (3^20) = (true, r') ∧
      ¬ ((r'.getTSDAndLockSlow 3756178699 fun _ _ => .busy 1).2.map Prod.fst).Nodup) ∧
    (∃ r', (SharedRegistry.new 2).setNumberOfTSDs 2 = (true, r') ∧
      (r'.getTSDAndLockSlow 0 fun _ _ => .busy (2^64 - 1)) =
        (.current, [(0, 2^64 - 1), (1, 2^64 - 1)])) := by
  constructor
  · refine ⟨⟨3^20, 3^20, coPrimesOf (3^20)⟩, ?_, ?_⟩
    · rw [SharedRegistry.setNumberOfTSDs, if_neg (by decide)]
      simp only [SharedRegistry.new, Nat.min_self]
    · rw [SharedRegistry.getTSDAndLockSlow, if_pos (by norm_num), increment_three_pow]
      decide +kernel
  · refine ⟨⟨2, 2, coPrimesOf 2⟩, rfl, ?_⟩
    have hcop : coPrimesOf 2 = [1] := by
      rw [coPrimesOf_eq]
      decide
    rw [hcop]
    decide +kernel

end ScudoMte.Tsd
