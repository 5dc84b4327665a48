import Mathlib.Tactic.IntervalCases
import ScudoMte.Release.PageMap

namespace ScudoMte.Release

/-- A plain two-dimensional array of counters. -/
abbrev Counters := Nat → Nat → Nat

namespace Counters

def set (a : Counters) (region i v : Nat) : Counters :=
  fun r j => if r = region ∧ j = i then v else a r j

/-- The counters from `lo` to `hi` of a region changed by `f`. -/
def mapRange (a : Counters) (region lo hi : Nat) (f : Nat → Nat) : Counters :=
  fun r j => if r = region ∧ lo ≤ j ∧ j ≤ hi then f (a r j) else a r j

end Counters

namespace RegionPageMap

/-- The calls that change counters. -/
inductive Call
  | inc (region i : Nat)
  | incN (region i n : Nat)
  | incRange (region lo hi : Nat)
  | setAsAllCounted (region i : Nat)
  | setAsAllCountedRange (region lo hi : Nat)
  | updateAsAllCountedIf (region i maxCount : Nat)
  deriving DecidableEq

namespace Call

/-- A call on the packed map: what it returns, if anything, and the new map. -/
def run (m : RegionPageMap) : Call → Option (Option Bool × RegionPageMap)
  | inc region i => (m.inc region i).map fun m' => (none, m')
  | incN region i n => (m.incN region i n).map fun m' => (none, m')
  | incRange region lo hi => (m.incRange region lo hi).map fun m' => (none, m')
  | setAsAllCounted region i => (m.setAsAllCounted region i).map fun m' => (none, m')
  | setAsAllCountedRange region lo hi =>
      (m.setAsAllCountedRange region lo hi).map fun m' => (none, m')
  | updateAsAllCountedIf region i maxCount =>
      (m.updateAsAllCountedIf region i maxCount).map fun (r, m') => (some r, m')

/-- The same call on the plain array, `mask` being the all-counted value. -/
def apply (mask : Nat) (a : Counters) : Call → Option Bool × Counters
  | inc region i => (none, a.set region i (a region i + 1))
  | incN region i n => (none, a.set region i (a region i + n))
  | incRange region lo hi => (none, a.mapRange region lo hi (· + 1))
  | setAsAllCounted region i => (none, a.set region i mask)
  | setAsAllCountedRange region lo hi => (none, a.mapRange region lo hi fun _ => mask)
  | updateAsAllCountedIf region i maxCount =>
      if a region i = mask then (some true, a)
      else if a region i = maxCount then (some true, a.set region i mask)
      else (some false, a)

/-- The preconditions of a call. A range may reach beyond the counters, `To + 1` is a word. -/
def Allowed (regions numCounters mask : Nat) (a : Counters) : Call → Prop
  | inc region i => (region < regions ∧ i < numCounters) ∧ a region i < mask
  | incN region i n => (region < regions ∧ i < numCounters) ∧ 0 < n ∧ a region i + n ≤ mask
  | incRange region lo hi => region < regions ∧ lo ≤ hi ∧ hi + 1 < 2^64 ∧
      ∀ i, lo ≤ i → i ≤ hi → i < numCounters → a region i < mask
  | setAsAllCounted region i => region < regions ∧ i < numCounters
  | setAsAllCountedRange region lo hi => region < regions ∧ lo ≤ hi ∧ hi + 1 < 2^64
  | updateAsAllCountedIf region i _ => region < regions ∧ i < numCounters

/-- The counters that a call reaches. -/
def reached (numCounters : Nat) : Call → List (Nat × Nat)
  | inc region i | incN region i _ | setAsAllCounted region i
  | updateAsAllCountedIf region i _ => [(region, i)]
  | incRange region lo hi | setAsAllCountedRange region lo hi =>
      (List.range' lo (min (hi+1) numCounters - lo)).map fun i => (region, i)

/-- The words of the buffer that a call touches. -/
def words (m : RegionPageMap) (c : Call) : List Nat :=
  (c.reached m.numCounters).map fun p => m.wordIndex p.1 p.2

def runAll : List Call → RegionPageMap → Option (List (Option Bool) × RegionPageMap)
  | [], m => some ([], m)
  | c::cs, m => (c.run m).bind fun (r, m') => (runAll cs m').map fun (rs, m'') => (r :: rs, m'')

def applyAll (mask : Nat) : List Call → Counters → List (Option Bool) × Counters
  | [], a => ([], a)
  | c::cs, a =>
      let (r, a') := c.apply mask a
      let (rs, a'') := applyAll mask cs a'
      (r :: rs, a'')

/-- Every call of a sequence meets its preconditions when its turn comes. -/
def AllowedAll (regions numCounters mask : Nat) : List Call → Counters → Prop
  | [], _ => True
  | c::cs, a => c.Allowed regions numCounters mask a ∧
      AllowedAll regions numCounters mask cs (c.apply mask a).2

theorem reached_inRange {regions numCounters mask : Nat} {a : Counters} {c : Call}
    (h : c.Allowed regions numCounters mask a) :
    ∀ p ∈ c.reached numCounters, p.1 < regions ∧ p.2 < numCounters := by
  have hrange (region lo hi : Nat) (hr : region < regions) :
      ∀ p ∈ (List.range' lo (min (hi+1) numCounters - lo)).map (fun i => (region, i)),
        p.1 < regions ∧ p.2 < numCounters := by
    intro p hp
    obtain ⟨i, hi, rfl⟩ := List.mem_map.mp hp
    obtain ⟨hlo, hhi⟩ := List.mem_range'_1.mp hi
    exact ⟨hr, by omega⟩
  cases c with
  | inc region i => simpa [reached] using h.1
  | incN region i n => simpa [reached] using h.1
  | incRange region lo hi => exact hrange region lo hi h.1
  | setAsAllCounted region i => simpa [reached, Allowed] using h
  | setAsAllCountedRange region lo hi => exact hrange region lo hi h.1
  | updateAsAllCountedIf region i maxCount => simpa [reached, Allowed] using h

end Call

/-- `m'` is `m` with the counters of `l` set to what `v` says; only their words were written. -/
structure Changed (m m' : RegionPageMap) (l : List (Nat × Nat)) (v : Nat → Nat → Nat) :
    Prop where
  shape : m' = { m with data := m'.data }
  wellFormed : m'.WellFormed
  get : ∀ r j, j < m.numCounters → m'.get r j = if (r, j) ∈ l then v r j else m.get r j
  frame : ∀ w, w ∉ l.map (fun p => m.wordIndex p.1 p.2) → m'.data w = m.data w

theorem Changed.refl {m : RegionPageMap} (h : m.WellFormed) (v : Nat → Nat → Nat) :
    Changed m m [] v :=
  ⟨rfl, h, fun _ _ _ => rfl, fun _ _ => rfl⟩

theorem Updated.changed {m m' : RegionPageMap} {region i v : Nat}
    (h : Updated m m' region i v)
    (hframe : ∀ w, w ≠ m.wordIndex region i → m'.data w = m.data w) :
    Changed m m' [(region, i)] fun _ _ => v := by
  refine ⟨h.shape, h.wellFormed, ?_, fun w hw => hframe w (by simpa using hw)⟩
  intro r j hj
  by_cases heq : (r, j) = (region, i)
  · rw [if_pos (List.mem_singleton.mpr heq)]
    cases heq
    exact h.self
  · rw [if_neg (mt List.mem_singleton.mp heq)]
    exact h.other r j hj heq

theorem inc_changed {m : RegionPageMap} (h : m.WellFormed) {region i : Nat}
    (hr : m.InRange region i) (hn : m.get region i < m.counterMask) :
    ∃ m', m.inc region i = some m' ∧
      Changed m m' [(region, i)] fun _ _ => m.get region i + 1 := by
  obtain ⟨m', hm', hup⟩ := inc_spec h hr hn
  refine ⟨m', hm', hup.changed fun w hw => ?_⟩
  simp only [inc, Option.ite_none_right_eq_some, Option.some.injEq] at hm'
  rw [← hm'.2]
  exact Function.update_of_ne hw _ _

theorem incN_changed {m : RegionPageMap} (h : m.WellFormed) {region i n : Nat}
    (hr : m.InRange region i) (hpos : 0 < n) (hn : m.get region i + n ≤ m.counterMask) :
    ∃ m', m.incN region i n = some m' ∧
      Changed m m' [(region, i)] fun _ _ => m.get region i + n := by
  obtain ⟨m', hm', hup⟩ := incN_spec h hr hpos hn
  refine ⟨m', hm', hup.changed fun w hw => ?_⟩
  simp only [incN, Option.ite_none_right_eq_some, Option.some.injEq] at hm'
  rw [← hm'.2]
  exact Function.update_of_ne hw _ _

theorem setAsAllCounted_changed {m : RegionPageMap} (h : m.WellFormed) {region i : Nat}
    (hr : m.InRange region i) :
    ∃ m', m.setAsAllCounted region i = some m' ∧
      Changed m m' [(region, i)] fun _ _ => m.counterMask := by
  obtain ⟨m', hm', hup⟩ := setAsAllCounted_spec h hr
  refine ⟨m', hm', hup.changed fun w hw => ?_⟩
  simp only [setAsAllCounted, Option.ite_none_right_eq_some, Option.some.injEq] at hm'
  rw [← hm'.2]
  exact Function.update_of_ne hw _ _

/-- A loop over consecutive counters of a region, each set by one step: the step sees the counter
as it was before the loop. -/
theorem loop_changed {m : RegionPageMap} {step : RegionPageMap → Nat → Option RegionPageMap}
    {v : Nat → Nat → Nat} {region lo n : Nat} (h : m.WellFormed)
    (hn : ∀ i, lo ≤ i → i < lo + n → i < m.numCounters)
    (hstep : ∀ i m', lo ≤ i → i < lo + n → m'.WellFormed → m' = { m with data := m'.data } →
      m'.get region i = m.get region i →
      ∃ m'', step m' i = some m'' ∧ Changed m' m'' [(region, i)] fun _ _ => v region i) :
    ∃ m', (List.range' lo n).foldlM step m = some m' ∧
      Changed m m' ((List.range' lo n).map fun i => (region, i)) v := by
  induction n with
  | zero => exact ⟨m, rfl, .refl h v⟩
  | succ n ih =>
    obtain ⟨m', hm', hch⟩ := ih (fun i hlo hhi => hn i hlo (by omega)) fun i m' hlo hhi =>
      hstep i m' hlo (by omega)
    have hmem (r j : Nat) : (r, j) ∈ (List.range' lo n).map (fun i => (region, i)) ↔
        r = region ∧ lo ≤ j ∧ j < lo + n := by
      simp only [List.mem_map, List.mem_range'_1, Prod.mk.injEq]
      constructor
      · rintro ⟨i, ⟨hlo, hhi⟩, rfl, rfl⟩
        exact ⟨rfl, hlo, hhi⟩
      · rintro ⟨rfl, hlo, hhi⟩
        exact ⟨j, ⟨hlo, hhi⟩, rfl, rfl⟩
    have hlast : m'.get region (lo+n) = m.get region (lo+n) := by
      rw [hch.get region (lo+n) (hn _ (by omega) (by omega)), if_neg]
      intro hin
      have hbounds := (hmem region (lo+n)).mp hin
      omega
    obtain ⟨m'', hm'', hch'⟩ := hstep (lo+n) m' (by omega) (by omega) hch.wellFormed hch.shape hlast
    have hnum : m'.numCounters = m.numCounters := by rw [hch.shape]
    have hindex : m'.wordIndex region (lo+n) = m.wordIndex region (lo+n) := by rw [hch.shape]; rfl
    refine ⟨m'', ?_, ?_, hch'.wellFormed, ?_, ?_⟩
    · rw [List.range'_1_concat, List.foldlM_append, hm']
      simp only [Option.bind_eq_bind, Option.bind_some, List.foldlM_cons, List.foldlM_nil, hm'']
      rfl
    · rw [hch'.shape, hch.shape]
    · intro r j hj
      rw [hch'.get r j (hnum ▸ hj), hch.get r j hj, List.range'_1_concat, List.map_append]
      simp only [List.map_cons, List.map_nil, List.mem_append, List.mem_singleton, hmem]
      by_cases heq : (r, j) = (region, lo+n)
      · rw [if_pos heq, if_pos (.inr heq)]
        cases heq
        rfl
      · simp only [heq, if_false, or_false]
    · intro w hw
      rw [List.range'_1_concat, List.map_append, List.map_append, List.mem_append, not_or] at hw
      rw [hch'.frame w (by simpa [hindex] using hw.2), hch.frame w hw.1]

/-- The map holds the counters of the array. -/
structure Refines (m : RegionPageMap) (a : Counters) : Prop where
  wellFormed : m.WellFormed
  get : ∀ r < m.regions, ∀ i < m.numCounters, m.get r i = a r i

/-- What a change of counters makes of the array. -/
theorem Refines.changed {m m' : RegionPageMap} {a a' : Counters} {l : List (Nat × Nat)}
    {v : Nat → Nat → Nat} (h : m.Refines a) (hch : Changed m m' l v)
    (hin : ∀ r j, r < m.regions → j < m.numCounters → (r, j) ∈ l → a' r j = v r j)
    (hout : ∀ r j, r < m.regions → j < m.numCounters → (r, j) ∉ l → a' r j = a r j) :
    m'.Refines a' := by
  refine ⟨hch.wellFormed, ?_⟩
  intro r hr j hj
  have hregions : m'.regions = m.regions := by rw [hch.shape]
  have hnum : m'.numCounters = m.numCounters := by rw [hch.shape]
  rw [hregions] at hr
  rw [hnum] at hj
  rw [hch.get r j hj]
  by_cases hmem : (r, j) ∈ l
  · rw [if_pos hmem, hin r j hr hj hmem]
  · rw [if_neg hmem, hout r j hr hj hmem, h.get r hr j hj]

theorem Refines.set {m m' : RegionPageMap} {a : Counters} {region i v : Nat} (h : m.Refines a)
    (hch : Changed m m' [(region, i)] fun _ _ => v) : m'.Refines (a.set region i v) := by
  refine h.changed hch ?_ ?_
  · intro r j _ _ hmem
    rw [List.mem_singleton, Prod.mk.injEq] at hmem
    exact if_pos hmem
  · intro r j _ _ hmem
    rw [List.mem_singleton, Prod.mk.injEq] at hmem
    exact if_neg hmem

theorem Refines.mapRange {m m' : RegionPageMap} {a : Counters} {region lo hi : Nat}
    {f : Nat → Nat} (h : m.Refines a) (hch : Changed m m'
      ((List.range' lo (min (hi+1) m.numCounters - lo)).map fun i => (region, i))
      fun r j => f (m.get r j)) : m'.Refines (a.mapRange region lo hi f) := by
  have hmem (r j : Nat) (hj : j < m.numCounters) :
      (r, j) ∈ (List.range' lo (min (hi+1) m.numCounters - lo)).map (fun i => (region, i)) ↔
        r = region ∧ lo ≤ j ∧ j ≤ hi := by
    simp only [List.mem_map, List.mem_range'_1, Prod.mk.injEq]
    constructor
    · rintro ⟨i, ⟨hlo, hhi⟩, rfl, rfl⟩
      exact ⟨rfl, hlo, by omega⟩
    · rintro ⟨rfl, hlo, hhi⟩
      exact ⟨j, ⟨hlo, by omega⟩, rfl, rfl⟩
  refine h.changed hch ?_ ?_
  · intro r j hr hj hin
    rw [Counters.mapRange, if_pos ((hmem r j hj).mp hin), h.get r hr j hj]
  · intro r j hr hj hin
    exact if_neg (mt (hmem r j hj).mpr hin)

theorem setAsAllCountedRange_changed {m : RegionPageMap} (h : m.WellFormed) {region lo hi : Nat}
    (hr : region < m.regions) (hle : lo ≤ hi) :
    ∃ m', m.setAsAllCountedRange region lo hi = some m' ∧ Changed m m'
      ((List.range' lo (min (hi+1) m.numCounters - lo)).map fun i => (region, i))
      fun _ _ => m.counterMask := by
  rw [setAsAllCountedRange, if_pos hle]
  apply loop_changed h (fun i hlo hhi => by omega)
  intro i m' hlo hhi hwf hshape _
  have hin : m'.InRange region i := by
    rw [hshape]
    exact ⟨hr, by simp only; omega⟩
  obtain ⟨m'', hm'', hch⟩ := setAsAllCounted_changed hwf hin
  rw [show m'.counterMask = m.counterMask by rw [hshape]] at hch
  exact ⟨m'', hm'', hch⟩

theorem incRange_changed {m : RegionPageMap} (h : m.WellFormed) {region lo hi : Nat}
    (hr : region < m.regions) (hle : lo ≤ hi)
    (hn : ∀ i, lo ≤ i → i ≤ hi → i < m.numCounters → m.get region i < m.counterMask) :
    ∃ m', m.incRange region lo hi = some m' ∧ Changed m m'
      ((List.range' lo (min (hi+1) m.numCounters - lo)).map fun i => (region, i))
      fun r j => m.get r j + 1 := by
  rw [incRange, if_pos hle]
  apply loop_changed h (fun i hlo hhi => by omega)
  intro i m' hlo hhi hwf hshape hget
  have hin : m'.InRange region i := by
    rw [hshape]
    exact ⟨hr, by simp only; omega⟩
  have hlt : m'.get region i < m'.counterMask := by
    rw [hget, show m'.counterMask = m.counterMask by rw [hshape]]
    exact hn i hlo (by omega) (by omega)
  obtain ⟨m'', hm'', hch⟩ := inc_changed hwf hin hlt
  rw [hget] at hch
  exact ⟨m'', hm'', hch⟩

/-- What a call leaves alone: the layout, and every word it does not touch. -/
structure Framed (m m' : RegionPageMap) (words : List Nat) : Prop where
  shape : m' = { m with data := m'.data }
  frame : ∀ w, w ∉ words → m'.data w = m.data w

/-- A call passes its checks, returns what the array returns and keeps the map its image. -/
theorem Call.run_refines {m : RegionPageMap} {a : Counters} {c : Call} (h : m.Refines a)
    (hc : c.Allowed m.regions m.numCounters m.counterMask a) :
    ∃ m', c.run m = some ((c.apply m.counterMask a).1, m') ∧
      m'.Refines (c.apply m.counterMask a).2 ∧ Framed m m' (c.words m) := by
  cases c with
  | inc region i =>
    obtain ⟨⟨hr, hi⟩, hlt⟩ := hc
    rw [← h.get region hr i hi] at hlt
    obtain ⟨m', hm', hch⟩ := inc_changed h.wellFormed ⟨hr, hi⟩ hlt
    rw [h.get region hr i hi] at hch
    exact ⟨m', by rw [run, hm']; rfl, h.set hch, hch.shape, hch.frame⟩
  | incN region i n =>
    obtain ⟨⟨hr, hi⟩, hpos, hle⟩ := hc
    rw [← h.get region hr i hi] at hle
    obtain ⟨m', hm', hch⟩ := incN_changed h.wellFormed ⟨hr, hi⟩ hpos hle
    rw [h.get region hr i hi] at hch
    exact ⟨m', by rw [run, hm']; rfl, h.set hch, hch.shape, hch.frame⟩
  | incRange region lo hi =>
    obtain ⟨hr, hle, -, hlt⟩ := hc
    obtain ⟨m', hm', hch⟩ := incRange_changed h.wellFormed hr hle fun i hlo hhi hi => by
      rw [h.get region hr i hi]
      exact hlt i hlo hhi hi
    exact ⟨m', by rw [run, hm']; rfl, h.mapRange hch, hch.shape, hch.frame⟩
  | setAsAllCounted region i =>
    obtain ⟨m', hm', hch⟩ := setAsAllCounted_changed h.wellFormed hc
    exact ⟨m', by rw [run, hm']; rfl, h.set hch, hch.shape, hch.frame⟩
  | setAsAllCountedRange region lo hi =>
    obtain ⟨hr, hle, -⟩ := hc
    obtain ⟨m', hm', hch⟩ := setAsAllCountedRange_changed h.wellFormed hr hle
    have href := h.mapRange (f := fun _ => m.counterMask) hch
    exact ⟨m', by rw [run, hm']; rfl, href, hch.shape, hch.frame⟩
  | updateAsAllCountedIf region i maxCount =>
    have hget : m.get region i = a region i := h.get region hc.1 i hc.2
    simp only [run, apply, RegionPageMap.updateAsAllCountedIf, if_pos (show m.InRange region i from hc), hget]
    split
    · exact ⟨m, rfl, h, rfl, fun _ _ => rfl⟩
    · split
      · obtain ⟨m', hm', hch⟩ := setAsAllCounted_changed h.wellFormed hc
        exact ⟨m', by rw [hm']; rfl, h.set hch, hch.shape, hch.frame⟩
      · exact ⟨m, rfl, h, rfl, fun _ _ => rfl⟩

/-- Every sequence of calls. The words that a call touches depend on the layout only. -/
theorem Call.runAll_refines {m : RegionPageMap} {a : Counters} (h : m.Refines a) (calls : List Call)
    (hc : AllowedAll m.regions m.numCounters m.counterMask calls a) :
    ∃ m', runAll calls m = some ((applyAll m.counterMask calls a).1, m') ∧
      m'.Refines (applyAll m.counterMask calls a).2 ∧
      Framed m m' (calls.flatMap fun c => c.words m) ∧
      ∀ w ∈ calls.flatMap (fun c => c.words m), w < m.sizePerRegion * m.regions := by
  induction calls generalizing m a with
  | nil => exact ⟨m, rfl, h, ⟨rfl, fun _ _ => rfl⟩, by simp⟩
  | cons c cs ih =>
    obtain ⟨m', hm', href, hframe⟩ := run_refines h hc.1
    have hwords (c' : Call) : c'.words m' = c'.words m := by
      rw [hframe.shape]
      rfl
    have hmask : m'.counterMask = m.counterMask := by rw [hframe.shape]
    have hregions : m'.regions = m.regions := by rw [hframe.shape]
    have hnum : m'.numCounters = m.numCounters := by rw [hframe.shape]
    have hsize : m'.sizePerRegion = m.sizePerRegion := by rw [hframe.shape]
    obtain ⟨m'', hm'', href', hframe', hlt⟩ := ih href (by rw [hregions, hnum, hmask]; exact hc.2)
    simp only [hwords] at hframe' hlt
    rw [hmask] at hm'' href'
    rw [hsize, hregions] at hlt
    refine ⟨m'', ?_, href', ⟨?_, ?_⟩, ?_⟩
    · simp only [runAll, hm', Option.bind_some, hm'', Option.map_some]
      rfl
    · rw [hframe'.shape, hframe.shape]
    · intro w hw
      rw [List.flatMap_cons, List.mem_append, not_or] at hw
      rw [hframe'.frame w hw.2, hframe.frame w hw.1]
    · intro w hw
      rw [List.flatMap_cons, List.mem_append] at hw
      rcases hw with hw | hw
      · obtain ⟨p, hp, rfl⟩ := List.mem_map.mp hw
        exact wordIndex_lt h.wellFormed (reached_inRange hc.1 p hp)
      · exact hlt w hw

/-- The size computations of `reset` do not wrap around. -/
structure SizesFit (regions counters maxValue : Nat) : Prop where
  rounding : counters + 2^(reset regions counters maxValue).packingRatioLog ≤ 2^64
  words : (reset regions counters maxValue).sizePerRegion * regions < 2^64

/-- After every sequence of allowed calls on a new map, the counters and the results are those of
a plain array of zeros, and only words of the buffer were touched. -/
theorem reset_refines {regions counters maxValue : Nat} (hpos : 0 < maxValue)
    (hmax : maxValue < 2^64) (hfit : SizesFit regions counters maxValue) (calls : List Call)
    (hcalls : Call.AllowedAll regions counters (reset regions counters maxValue).counterMask calls
      fun _ _ => 0) :
    let m := reset regions counters maxValue
    let spec := Call.applyAll m.counterMask calls fun _ _ => 0
    ∃ m', Call.runAll calls m = some (spec.1, m') ∧
      (∀ r < regions, ∀ i < counters,
        m'.get r i = spec.2 r i ∧ m'.wordIndex r i < m.bufferNumElements) ∧
      (∀ c ∈ calls, ∀ w ∈ c.words m, w < m.bufferNumElements) ∧
      ∀ w, (∀ c ∈ calls, w ∉ c.words m) → m'.data w = m.data w := by
  intro m spec
  obtain ⟨hwf, -⟩ := reset_wellFormed hpos hmax hfit.rounding
  have hbuf : m.bufferNumElements = m.sizePerRegion * m.regions := Nat.mod_eq_of_lt hfit.words
  have href : m.Refines fun _ _ => 0 := ⟨hwf, fun r _ i _ => reset_get _ _ _ r i⟩
  obtain ⟨m', hm', href', hframe, hlt⟩ := Call.runAll_refines href calls hcalls
  have hregions : m'.regions = regions := by rw [hframe.shape]; rfl
  have hnum : m'.numCounters = counters := by rw [hframe.shape]; rfl
  refine ⟨m', hm', ?_, ?_, ?_⟩
  · intro r hr i hi
    have hindex : m'.wordIndex r i = m.wordIndex r i := by rw [hframe.shape]; rfl
    refine ⟨href'.get r (hregions ▸ hr) i (hnum ▸ hi), ?_⟩
    rw [hindex, hbuf]
    exact wordIndex_lt hwf ⟨hr, hi⟩
  · intro c hc w hw
    rw [hbuf]
    exact hlt w (List.mem_flatMap.mpr ⟨c, hc, hw⟩)
  · intro w hw
    apply hframe.frame
    rw [List.mem_flatMap]
    rintro ⟨c, hc, hmem⟩
    exact hw c hc hmem

/-- Three counters of two bits: the neighbours of one counter keep their values. -/
theorem reset_refines_two_bits :
    let calls : List Call := [.incN 1 1 2, .incRange 1 0 5, .updateAsAllCountedIf 1 1 3]
    ∃ m', Call.runAll calls (reset 2 3 2) = some ([none, none, some true], m') ∧
      m'.get 1 0 = 1 ∧ m'.get 1 1 = 3 ∧ m'.get 1 2 = 1 ∧ m'.get 0 1 = 0 := by
  intro calls
  have hmask : (reset 2 3 2).counterMask = 3 := by decide +kernel
  have hallowed : Call.AllowedAll 2 3 (reset 2 3 2).counterMask calls fun _ _ => 0 := by
    rw [hmask]
    refine ⟨⟨⟨by decide, by decide⟩, by decide, by decide⟩, ⟨by decide, by decide, by decide, ?_⟩,
      ⟨by decide, by decide⟩, trivial⟩
    intro i hlo hhi hi
    interval_cases i <;> decide
  obtain ⟨m', hm', hget, -⟩ := reset_refines (by decide : 0 < 2) (by decide)
    (⟨by decide +kernel, by decide +kernel⟩ : SizesFit 2 3 2) calls hallowed
  rw [hmask] at hm' hget
  exact ⟨m', hm', (hget 1 (by decide) 0 (by decide)).1, (hget 1 (by decide) 1 (by decide)).1,
    (hget 1 (by decide) 2 (by decide)).1, (hget 0 (by decide) 1 (by decide)).1⟩

/-- A product of sizes that wraps around to no words at all: the second region starts behind the
buffer. -/
theorem inc_outside_wrapped_buffer :
    let m := reset (2^63) 2 (2^63)
    (Call.inc 1 0).Allowed (2^63) 2 m.counterMask (fun _ _ => 0) ∧
      ∃ w ∈ (Call.inc 1 0).words m, ¬ w < m.bufferNumElements := by
  refine ⟨⟨by decide, by decide +kernel⟩, 2, by decide +kernel, by decide +kernel⟩

end RegionPageMap

end ScudoMte.Release
