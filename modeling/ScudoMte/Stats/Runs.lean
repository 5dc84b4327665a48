import ScudoMte.Stats.Conservation

namespace ScudoMte.Stats.System

variable {ι : Type*} [DecidableEq ι] {cfg : CacheConfig} {s : System ι}

omit [DecidableEq ι] in
theorem Linked.congr {s' : System ι} (h : Linked s) (hg : s'.stats.statsList = s.stats.statsList)
    (hs : s'.initState = s.initState) (hc : s'.caches = s.caches) : Linked s' := by
  refine ⟨?_, ?_, ?_, ?_, ?_, ?_⟩
  · rw [hg]
    exact h.nodup
  · rw [hg]
    exact h.secondary
  · rw [hg]
    exact h.fallback
  · rw [hg, hs]
    exact h.linked
  · rw [hs, hc]
    exact h.unused
  · rw [hs, hc]
    exact h.empty

theorem Linked.initThread (h : Linked s) {t : ι} (ht : s.initState t = .notInitialized) :
    Linked (s.step cfg (.initThread t)) := by
  have hnot : .cache (some t) ∉ s.stats.statsList := fun hmem => by
    have hstate := (h.linked t).mp hmem
    rw [ht] at hstate
    cases hstate
  have hkeep {e : Holder ι} (he : e ∈ s.stats.statsList) :
      e ∈ s.stats.statsList ++ [.cache (some t)] := List.mem_append_left _ he
  have hother {t' : ι} {state : InitState} (hne : state ≠ .initialized)
      (hstate : Function.update s.initState t .initialized t' = state) : s.initState t' = state := by
    by_cases heq : t' = t
    · subst heq
      rw [Function.update_self] at hstate
      exact absurd hstate.symm hne
    · rwa [Function.update_of_ne heq] at hstate
  refine ⟨?_, hkeep h.secondary, hkeep h.fallback, ?_, ?_, ?_⟩
  · exact List.nodup_append.mpr ⟨h.nodup, List.nodup_singleton _, fun e he e' he' heq => by
      rw [List.mem_singleton.mp he'] at heq
      exact hnot (heq ▸ he)⟩
  · intro t'
    change _ ∈ s.stats.statsList ++ [_] ↔ Function.update s.initState t .initialized t' = .initialized
    by_cases heq : t' = t
    · subst heq
      simp
    · rw [Function.update_of_ne heq, ← h.linked t']
      simp [heq]
  · intro t' hstate i
    exact h.unused t' (hother (by decide) hstate) i
  · intro t' hstate c
    exact h.empty t' (fun hi => by
      rw [hother hstate rfl] at hi
      exact hstate hi) c

theorem Linked.teardownThread (h : Linked s) {t : ι}
    (hempty : ∀ c, (s.caches (some t)).chunks c = []) : Linked (s.step cfg (.teardownThread t)) := by
  refine ⟨h.nodup.erase _, (List.mem_erase_of_ne (by simp)).mpr h.secondary,
    (List.mem_erase_of_ne (by simp)).mpr h.fallback, ?_, ?_, ?_⟩
  · intro t'
    change _ ∈ s.stats.statsList.erase _ ↔ Function.update s.initState t .tornDown t' = .initialized
    rw [h.nodup.mem_erase_iff, h.linked t']
    by_cases heq : t' = t
    · subst heq
      simp
    · simp [heq]
  · intro t' hstate i
    change Function.update s.initState t .tornDown t' = .notInitialized at hstate
    by_cases heq : t' = t
    · subst heq
      rw [Function.update_self] at hstate
      cases hstate
    · rw [Function.update_of_ne heq] at hstate
      exact h.unused t' hstate i
  · intro t' hstate c
    change Function.update s.initState t .tornDown t' ≠ .initialized at hstate
    by_cases heq : t' = t
    · subst heq
      exact hempty c
    · rw [Function.update_of_ne heq] at hstate
      exact h.empty t' hstate c

/-- What holds of the counters whenever no call is in progress. -/
structure Conserved (cfg : CacheConfig) (s : System ι) : Prop where
  linked : Linked s
  counted : Counted cfg s
  stats_lt : ∀ i, s.stats.stats i < modulus

theorem Linked.step (h : Linked s) {a : CacheAct ι} (ha : s.Enabled cfg a)
    (hl : s.RecyclesLinked a) : Linked (s.step cfg a) := by
  cases a with
  | initThread t => exact h.initThread ha
  | teardownThread t => exact h.teardownThread ha.2.1
  | refill id c blocks rest => exact (h.setCache (h.of_runs ha.1) _).congr rfl rfl rfl
  | populate id c blocks mapSize => exact (h.setCache (h.of_runs ha.1) _).congr rfl rfl rfl
  | allocate id c =>
    rw [System.step]
    cases ((s.caches id).chunks c).getLast? with
    | none => exact h
    | some p => exact (h.setCache (h.of_runs ha.1) _).congr rfl rfl rfl
  | deallocate id b => exact (h.setCache (h.of_runs ha.1) _).congr rfl rfl rfl
  | drain id c =>
    rw [System.step]
    rcases h.of_drainable ha.1 with hmem | hempty
    · exact (h.setCache hmem _).congr rfl rfl rfl
    · rw [drain_empty (hempty c)]
      exact h
  | quarantine id b => exact h.congr rfl rfl rfl
  | drainQuarantine id => exact h.congr rfl rfl rfl
  | recycle id b => exact (h.setCache (h.of_recycles ha.1 hl) _).congr rfl rfl rfl
  | allocateSecondary commitSize capacity => exact h.congr rfl rfl rfl
  | deallocateSecondary commitSize capacity => exact h.congr rfl rfl rfl

theorem Counted.step (h : Counted cfg s) (hl : Linked s) {a : CacheAct ι} (ha : s.Enabled cfg a)
    (hr : s.RecyclesLinked a) : Counted cfg (s.step cfg a) := by
  cases a with
  | initThread t => exact h.initThread hl ha
  | teardownThread t => exact h.teardownThread hl ha.1 ha.2.1
  | refill id c blocks rest =>
    obtain ⟨hruns, hc, hempty, -, hperm⟩ := ha
    have hlen := hperm.length_eq
    rw [List.length_append] at hlen
    refine h.moved hl (hl.of_runs hruns) hc ?_
    rw [List.length_append]
    omega
  | populate id c blocks mapSize => exact h.populate hl (hl.of_runs ha.1) ha.2 blocks mapSize
  | allocate id c =>
    obtain ⟨hruns, hc, hne⟩ := ha
    rw [System.step]
    cases ((s.caches id).chunks c).getLast? with
    | none => exact h
    | some p => exact h.allocate hl (hl.of_runs hruns) p hc hne
  | deallocate id b => exact h.deallocate hl (hl.of_runs ha.1) ha.2.1 ha.2.2.1
  | drain id c => exact h.drain hl ha.1 ha.2
  | quarantine id b => exact h.quarantine ha.2
  | drainQuarantine id => exact h.drainQuarantine
  | recycle id b => exact h.recycle hl (hl.of_recycles ha.1 hr) ha.2.1 ha.2.2.1
  | allocateSecondary commitSize capacity => exact h.allocateSecondary hl commitSize capacity
  | deallocateSecondary commitSize capacity => exact h.deallocateSecondary hl ha

theorem stats_lt_step (h : ∀ i, s.stats.stats i < modulus) (a : CacheAct ι) (i : StatType) :
    (s.step cfg a).stats.stats i < modulus := by
  cases a with
  | teardownThread t => exact Nat.mod_lt _ (by decide)
  | allocate id c =>
    rw [System.step]
    cases ((s.caches id).chunks c).getLast? <;> exact h i
  | _ => exact h i

omit [DecidableEq ι] in
theorem Linked.init (h : Init s) : Linked s := by
  have hlist := h.statsList
  refine ⟨?_, ?_, ?_, ?_, ?_, ?_⟩
  · rw [hlist]
    simp
  · rw [hlist]
    exact List.mem_cons_self
  · rw [hlist]
    exact List.mem_cons_of_mem _ List.mem_cons_self
  · intro t
    rw [hlist, h.initState t]
    simp
  · exact fun t _ i => h.localStats (.cache (some t)) i
  · exact fun t _ c => h.chunks (some t) c

omit [DecidableEq ι] in
theorem Counted.init (h : Init s) : Counted cfg s := by
  have htotal (i : StatType) : s.total i = 0 := by
    simp [total, GlobalStats.total, h.stats, h.statsList, h.localStats]
  have hout : s.handedOut cfg = 0 := by simp [handedOut, h.live, h.quarantine]
  have hcarved : s.carved cfg = 0 := by simp [System.carved, funext h.allocatedUser]
  refine ⟨?_, ?_, ?_⟩
  · simp [htotal, hout, committed, h.inUseBlocks]
  · simp [htotal, hout, hcarved]
  · have hfree : bytes cfg s.freeBlocks = 0 := bytes_eq_zero h.freeBlocks
    have hcached : bytes cfg (s.chunksOf (.cache none)) = 0 := bytes_eq_zero (h.chunks none)
    have hsecondary : bytes cfg (s.chunksOf .secondary) = 0 := bytes_eq_zero fun _ => rfl
    simp [hout, hcarved, h.allocatedUser, hfree, cachedBytes, h.statsList, hcached, hsecondary]

/-- The counters are conserved while no chunk is recycled into the cache of a dead thread. -/
theorem conserved_of_reachable (h : Reachable cfg RecyclesLinked s) : Conserved cfg s := by
  refine TransitionSystem.Reachable.invariant ?_ ?_ h
  · exact fun s hs => ⟨.init hs, .init hs, fun i => by rw [hs.stats i]; decide⟩
  · rintro s a s' ⟨hl, hc, hlt⟩ ⟨ha, hr⟩ rfl
    exact ⟨hl.step ha hr, hc.step hl ha hr, stats_lt_step hlt a⟩

omit [DecidableEq ι] in
theorem Conserved.sums_allocated (h : Conserved cfg s) :
    s.stats.sums s.localStats .allocated ≡ s.handedOut cfg + s.committed [MOD modulus] := by
  rw [← ZMod.natCast_eq_natCast_iff, GlobalStats.sums_cast]
  exact h.counted.allocated

omit [DecidableEq ι] in
theorem Conserved.sums_free (h : Conserved cfg s) :
    s.stats.sums s.localStats .free + s.handedOut cfg ≡ s.carved cfg [MOD modulus] := by
  rw [← ZMod.natCast_eq_natCast_iff, Nat.cast_add, GlobalStats.sums_cast]
  exact h.counted.free

omit [DecidableEq ι] in
/-- The clamp of `GlobalStats::get` does not show while the value is an `sptr`. -/
theorem Conserved.getStats_eq (h : Conserved cfg s) {i : StatType} {n : Nat} (hn : n < 2^63)
    (hsums : s.stats.sums s.localStats i ≡ n [MOD modulus]) : s.getStats i = n := by
  have hlt : n < modulus := lt_trans hn (by decide)
  have heq : s.stats.sums s.localStats i = n := by
    rw [Nat.ModEq, Nat.mod_eq_of_lt hlt, Nat.mod_eq_of_lt (s.stats.sums_lt _ i (h.stats_lt i))] at hsums
    exact hsums
  rw [getStats, GlobalStats.get, heq, if_pos hn]

/-- Whenever no call is in progress, the counters are what is handed out, and what is carved and not
handed out. The values of `GlobalStats::get` are these as long as they are an `sptr`. -/
theorem stats_conserved_of_reachable (h : Reachable cfg RecyclesLinked s) :
    s.stats.sums s.localStats .allocated ≡ s.handedOut cfg + s.committed [MOD modulus] ∧
      s.stats.sums s.localStats .free + s.handedOut cfg ≡ s.carved cfg [MOD modulus] ∧
        (s.handedOut cfg + s.committed < 2^63 →
          s.getStats .allocated = s.handedOut cfg + s.committed) ∧
          (s.carved cfg < 2^63 → s.getStats .free + s.handedOut cfg = s.carved cfg) := by
  have hconserved := conserved_of_reachable h
  refine ⟨hconserved.sums_allocated, hconserved.sums_free, ?_, ?_⟩
  · exact fun hlt => hconserved.getStats_eq hlt hconserved.sums_allocated
  · intro hlt
    have hle : s.handedOut cfg ≤ s.carved cfg := by
      rw [hconserved.counted.carved]
      exact Nat.le_add_left ..
    have hfree : s.stats.sums s.localStats .free ≡ s.carved cfg - s.handedOut cfg [MOD modulus] := by
      refine Nat.ModEq.add_right_cancel' (s.handedOut cfg) ?_
      rw [Nat.sub_add_cancel hle]
      exact hconserved.sums_free
    rw [hconserved.getStats_eq (lt_of_le_of_lt (Nat.sub_le ..) hlt) hfree, Nat.sub_add_cancel hle]

def oneThread : CacheConfig where
  sizeClassMap := defaultSizeClassMap
  sizeOfBatchClass := 64
  getMaxCached := fun _ => 13

def started : System Unit where
  stats := { stats := fun _ => 0, statsList := [.secondary, .cache none] }
  initState := fun _ => .notInitialized
  caches := fun _ => { chunks := fun _ => [], stats := fun _ => 0 }
  freeBlocks := fun _ => []
  allocatedUser := fun _ => 0
  live := []
  quarantine := []
  inUseBlocks := []
  secondaryStats := fun _ => 0

theorem started_init : Init started where
  stats _ := rfl
  statsList := rfl
  initState _ := rfl
  chunks _ _ := rfl
  localStats h i := by cases h <;> rfl
  freeBlocks _ := rfl
  allocatedUser _ := rfl
  live := rfl
  quarantine := rfl
  inUseBlocks := rfl

def firstBlock : Block where
  classId := 1
  ptr := 0

/-- A thread starts and takes one block of the first class. -/
def oneLive : System Unit :=
  (((started.step oneThread (.initThread ())).step oneThread
    (.populate (some ()) 1 [0, 32] 65536)).step oneThread
      (.refill (some ()) 1 [0] [32])).step oneThread (.allocate (some ()) 1)

theorem oneLive_reachable : Reachable oneThread RecyclesLinked oneLive := by
  have husable (s : System Unit) (h : s.initState () = .initialized) : s.Usable (some ()) :=
    fun _ _ => h
  refine .next (.next (.next (.next (.start started_init) (a := .initThread ()) ?_ rfl)
    (a := .populate (some ()) 1 [0, 32] 65536) ?_ rfl)
      (a := .refill (some ()) 1 [0] [32]) ?_ rfl) (a := .allocate (some ()) 1) ?_ rfl
  · exact ⟨rfl, trivial⟩
  · exact ⟨⟨.inl (husable _ rfl), by decide⟩, trivial⟩
  · exact ⟨⟨.inl (husable _ rfl), by decide, rfl, by decide, .refl _⟩, trivial⟩
  · exact ⟨⟨.inl (husable _ rfl), by decide, by decide⟩, trivial⟩

/-- The thread maps a block of 8192 bytes, and its freed block is recycled into its own cache. -/
def oneRecycled : System Unit :=
  (((oneLive.step oneThread (.allocateSecondary 8192 16384)).step oneThread
    (.quarantine (some ()) firstBlock)).step oneThread (.drainQuarantine (some ()))).step oneThread
      (.recycle (some ()) firstBlock)

theorem oneRecycled_reachable : Reachable oneThread RecyclesLinked oneRecycled := by
  have hdrainable (s : System Unit) (h : s.initState () ≠ .notInitialized) : s.Drainable (some ()) :=
    fun _ _ => h
  refine .next (.next (.next (.next oneLive_reachable (a := .allocateSecondary 8192 16384) ?_ rfl)
    (a := .quarantine (some ()) firstBlock) ?_ rfl) (a := .drainQuarantine (some ())) ?_ rfl)
      (a := .recycle (some ()) firstBlock) ?_ rfl
  · exact ⟨trivial, trivial⟩
  · exact ⟨⟨fun _ _ => rfl, by decide⟩, trivial⟩
  · exact ⟨hdrainable _ (by decide), trivial⟩
  · refine ⟨⟨hdrainable _ (by decide), by decide, by decide, by decide⟩, ?_⟩
    intro t _
    cases t
    decide

theorem stats_conserved_oneRecycled :
    oneRecycled.getStats .allocated = 8192 ∧ oneRecycled.getStats .free = 64 := by
  obtain ⟨-, -, hallocated, hfree⟩ := stats_conserved_of_reachable oneRecycled_reachable
  have hout : oneRecycled.handedOut oneThread = 0 := by decide
  have hcommitted : oneRecycled.committed = 8192 := by decide
  have hcarved : oneRecycled.carved oneThread = 64 := by decide +kernel
  rw [hout, hcommitted] at hallocated
  rw [hout, hcarved] at hfree
  exact ⟨hallocated (by decide), hfree (by decide)⟩

/-- The thread frees the block into its quarantine, ends, and then `releaseToOS(ForceAll)` from a
later destructor recycles the block into the cache of the thread and drains it. -/
def oneLost : System Unit :=
  ((((oneLive.step oneThread (.quarantine (some ()) firstBlock)).step oneThread
    (.drainQuarantine (some ()))).step oneThread (.teardownThread ())).step oneThread
      (.recycle (some ()) firstBlock)).step oneThread (.drain (some ()) 1)

/-- The block comes back, and the counters never learn of it. -/
theorem oneLost_allocated : Reachable oneThread (fun _ _ => True) oneLost ∧
    oneLost.handedOut oneThread + oneLost.committed = 0 ∧ oneLost.getStats .allocated = 32 ∧
      ¬ oneLost.stats.sums oneLost.localStats .allocated ≡
        oneLost.handedOut oneThread + oneLost.committed [MOD modulus] := by
  have hlive : Reachable oneThread (fun _ _ => True) oneLive :=
    oneLive_reachable.mono fun _ _ h => ⟨h.1, trivial⟩
  have hdrainable (s : System Unit) (h : s.initState () ≠ .notInitialized) : s.Drainable (some ()) :=
    fun _ _ => h
  refine ⟨?_, by decide, by decide, by decide⟩
  refine .next (.next (.next (.next (.next hlive
    (a := .quarantine (some ()) firstBlock) ?_ rfl) (a := .drainQuarantine (some ())) ?_ rfl)
      (a := .teardownThread ()) ?_ rfl) (a := .recycle (some ()) firstBlock) ?_ rfl)
        (a := .drain (some ()) 1) ?_ rfl
  · exact ⟨⟨fun _ _ => rfl, by decide⟩, trivial⟩
  · exact ⟨hdrainable _ (by decide), trivial⟩
  · refine ⟨⟨rfl, ?_, by decide⟩, trivial⟩
    intro c
    change Function.update (Function.update (fun _ => []) 1 [0]) 1 [] c = []
    by_cases hc : c = 1
    · rw [hc, Function.update_self]
    · rw [Function.update_of_ne hc, Function.update_of_ne hc]
  · exact ⟨⟨hdrainable _ (by decide), by decide, by decide, by decide⟩, trivial⟩
  · exact ⟨⟨hdrainable _ (by decide), by decide⟩, trivial⟩

end ScudoMte.Stats.System
