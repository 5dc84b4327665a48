import ScudoMte.Secondary.CacheRuns
import ScudoMte.Heap.Cache

namespace ScudoMte.Secondary

open ByteMemory

variable {cfg : Config} {c : Cache} {clock : Nat}

/-- The entries of time 0 have their pages given back, which read as zeros then. -/
def ReleasedPages (m : Mem) (l : List CachedBlock) : Prop :=
  ∀ e ∈ l, e.time = 0 → IsZero m.data e.commitBase (e.commitBase + e.commitSize)

theorem ReleasedPages.zeroPages {m : Mem} {l : List CachedBlock} (h : ReleasedPages m l)
    (lo n : Nat) : ReleasedPages (m.zeroPages lo n) l :=
  fun e he h0 => IsZero.zeroPages (h e he h0) lo n

theorem ReleasedPages.mapSecondary {m : Mem} {l : List CachedBlock} (h : ReleasedPages m l)
    (opts : Options) (commitBase commitSize allocPos : Nat) :
    ReleasedPages (mapSecondary cfg opts m commitBase commitSize allocPos) l := by
  simp only [Secondary.mapSecondary]
  split
  · exact (h.zeroPages _ _).zeroPages _ _
  · exact h.zeroPages _ _

theorem releasedPages_closed : Closed ReleasedPages where
  perm h hp e he := h e (hp.mem_iff.mpr he)
  drop h e he := h e (List.mem_cons_of_mem _ he)
  release h e he h0 := by
    rcases List.mem_cons.mp he with rfl | he
    · exact zeroPages_isZero _ _
    · exact IsZero.zeroPages (h e (List.mem_cons_of_mem _ he) h0) _ _

theorem CacheInv.linked (h : CacheInv cfg clock c) : Linked c := by
  refine ⟨h.partitioned.nodup, fun i hi => ?_⟩
  obtain ⟨l1, l2, hlru, hold, -⟩ := h.ordered.oldest
  rw [hlru]
  exact List.mem_append_left _ (List.mem_of_getLast? (hold.symm.trans hi))

namespace CacheState

/-- A store that keeps the pages of its entry does so after the clock has left 0, which is what marks
an entry as released. -/
def KeepsLater (s : CacheState) : CacheOp → Prop
  | .store opts env _ _ _ _ =>
      env.clock ≠ 0 ∨ opts.useMemoryTagging ∧ s.cache.releaseToOsIntervalMs = 0
  | _ => True

/-- The entry that a store makes, and the memory with it. -/
theorem releasedPages_entry {s : CacheState} {opts : Options} {env : SecondaryEnv}
    {commitBase commitSize blockBegin : Nat} {memMap : MemMap}
    (h : ReleasedPages s.mem (s.cache.cached cfg))
    (hlater : s.KeepsLater (.store opts env commitBase commitSize blockBegin memMap)) :
    ReleasedPages (if opts.useMemoryTagging ∧ s.cache.releaseToOsIntervalMs = 0 then
        mapSecondary cfg opts s.mem commitBase commitSize commitBase else s.mem)
      (s.cache.storedEntry opts env.clock commitBase commitSize blockBegin memMap ::
        s.cache.cached cfg) := by
  rw [Cache.storedEntry]
  by_cases hrel : opts.useMemoryTagging ∧ s.cache.releaseToOsIntervalMs = 0
  · rw [if_pos hrel, if_pos hrel]
    intro e he h0
    rcases List.mem_cons.mp he with rfl | he
    · exact (mapSecondary_spec cfg opts s.mem commitBase commitSize commitBase (by omega)).2.1
    · exact h.mapSecondary opts _ _ _ e he h0
  · rw [if_neg hrel, if_neg hrel]
    intro e he h0
    rcases List.mem_cons.mp he with rfl | he
    · exact absurd h0 (hlater.resolve_right hrel)
    · exact h e he h0

theorem releasedPages_retrieve {m : Mem} (h : ReleasedPages m (c.cached cfg)) (hl : Linked c)
    (maxPages size alignment headersSize : Nat) :
    ReleasedPages (c.retrieve cfg m maxPages size alignment headersSize).2.2
      ((c.retrieve cfg m maxPages size alignment headersSize).2.1.cached cfg) := by
  rw [Cache.retrieve]
  split
  · exact h
  · next i headerPos hloop =>
    have hmem : i ∈ c.lruEntries := by
      rcases retrieveLoop_spec _ _ _ _ hloop with ⟨hnone, -⟩ | ⟨hmem, -⟩
      · cases hnone
      · exact hmem
    have hrest : ReleasedPages m ((c.remove i).cached cfg) := releasedPages_closed.drop
      (releasedPages_closed.perm h (cached_remove cfg (List.nodup_append.mp hl.nodup).1 hmem))
    simp only
    split
    · exact hrest.zeroPages _ _
    · exact hrest

theorem releasedPages_step {s : CacheState} {a : CacheOp} (hi : CacheInv cfg s.clock s.cache)
    (h : ReleasedPages s.mem (s.cache.cached cfg)) (he : s.Enabled a) (hlater : s.KeepsLater a) :
    ReleasedPages (s.step cfg a).mem ((s.step cfg a).cache.cached cfg) := by
  have hl := hi.linked
  cases a with
  | store opts env commitBase commitSize blockBegin memMap =>
    exact (releasedPages_closed.store env hl he.1 (releasedPages_entry h hlater)).1
  | retrieve maxPages size alignment headersSize => exact releasedPages_retrieve h hl _ _ _ _
  | releaseOlderThan t => exact (releasedPages_closed.releaseOlderThan t hl h).1
  | releaseToOS => exact (releasedPages_closed.releaseOlderThan _ hl h).1
  | setMaxEntriesCount value =>
    obtain ⟨n, hn⟩ := setMaxEntriesCount_eq cfg s.cache value
    change ReleasedPages s.mem ((s.cache.setMaxEntriesCount cfg value).cached cfg)
    rw [hn]
    exact h
  | setMaxEntrySize value => exact h
  | setReleaseInterval value => exact h
  | disableMemoryTagging =>
    exact fun e hmem => h e ((disableMemoryTagging_cached s.cache).subset hmem)

theorem Reachable.releasedPages (hsize : cfg.cacheQuarantineSize < 2^32) {s : CacheState}
    (hr : Reachable cfg KeepsLater s) : ReleasedPages s.mem (s.cache.cached cfg) := by
  refine @TransitionSystem.Reachable.invariant_of _ _ _ _ _ (fun s => CacheInv cfg s.clock s.cache)
    (fun s => ReleasedPages s.mem (s.cache.cached cfg)) (fun s hs => Reachable.inv hsize hs) ?_ ?_ s
    hr
  · rintro s ⟨maxEntriesCount, maxEntrySize, interval, -, -, hc⟩
    rw [hc, cached_init]
    exact fun e he => absurd he List.not_mem_nil
  · rintro s a s' hi h ho rfl
    exact releasedPages_step hi h ho.1 ho.2

end CacheState

/-- The memory once `store` has made the pages of its entry inaccessible. -/
def Cache.storedMem (cfg : Config) (opts : Options) (c : Cache) (m : Mem)
    (commitBase commitSize : Nat) : Mem :=
  if opts.useMemoryTagging ∧ c.releaseToOsIntervalMs = 0
    then mapSecondary cfg opts m commitBase commitSize commitBase else m

/-- The cache in front of the release at the end of `store`, where `store` comes to it. -/
def Cache.beforeRelease (cfg : Config) (c : Cache) (e : CachedBlock) : Option Cache :=
  (c.throughQuarantine cfg e).2.map fun next => (c.throughQuarantine cfg e).1.pushed next

/-- What the end of `store` releases of that cache, in turn. -/
def Cache.storeReleased (cfg : Config) (env : SecondaryEnv) (c : Cache) : List CachedBlock :=
  if c.releaseToOsIntervalMs ≥ 0 ∧ env.tryLock then
    c.releasedOlderThan cfg (c.releaseTime env.clock)
  else []

/-- An entry of the cache or its quarantine. -/
def Cached (cfg : Config) (c : Cache) (e : CachedBlock) : Prop :=
  (∃ i ∈ c.lruEntries, e = c.entries i) ∨
    ∃ j < quarantineSlots cfg, (c.quarantine j).isValid ∧ e = c.quarantine j

/-- Only entries that are at least as old as the interval are released, and with the lock none of
them is left with its pages: those that are not released yet are released, and all read as zeros. -/
def ReleasesDue (cfg : Config) (env : SecondaryEnv) (c : Cache) (m : Mem) : Prop :=
  (∀ e ∈ c.storeReleased cfg env,
      e.time + c.releaseToOsIntervalMs.toNat * 1000000 ≤ env.clock) ∧
    (env.tryLock → ∀ e, Cached cfg c e →
      e.time + c.releaseToOsIntervalMs.toNat * 1000000 ≤ env.clock →
        (e.time ≠ 0 → e ∈ c.storeReleased cfg env) ∧
        IsZero ((c.storeReleased cfg env).foldl Cache.releaseEntry m).data e.commitBase
          (e.commitBase + e.commitSize))

theorem evict_same (fuel : Nat) (c : Cache) (maps : List MemMap) :
    (Cache.evict fuel c maps).1.quarantine = c.quarantine ∧
      (Cache.evict fuel c maps).1.releaseToOsIntervalMs = c.releaseToOsIntervalMs :=
  @evict_keeps (fun c' => c'.quarantine = c.quarantine ∧
    c'.releaseToOsIntervalMs = c.releaseToOsIntervalMs) (fun _ h _ _ => h) fuel c maps ⟨rfl, rfl⟩

theorem pushed_same (c : Cache) (e : CachedBlock) :
    (c.pushed e).quarantine = c.quarantine ∧
      (c.pushed e).releaseToOsIntervalMs = c.releaseToOsIntervalMs := by
  obtain ⟨hq, hi⟩ := evict_same c.lruEntries.length c []
  rw [Cache.pushed, Cache.insert]
  split
  · exact ⟨hq, hi⟩
  · exact ⟨hq, hi⟩

theorem cached_pushed (h : CacheInv cfg clock c) {e : CachedBlock} (he : Insertable cfg clock c e)
    (hlimit : c.maxEntriesCount ≠ 0) : ∃ i ∈ (c.pushed e).lruEntries, e = (c.pushed e).entries i := by
  obtain ⟨-, -, ha⟩ := h.evict he hlimit
  obtain ⟨a, rest, havail⟩ := List.exists_cons_of_ne_nil ha
  refine ⟨a, ?_, ?_⟩
  · rw [Cache.pushed, Cache.insert, havail]
    exact List.mem_cons_self
  · rw [Cache.pushed, Cache.insert, havail]
    simp only [Function.update_self]

/-- The entry that a store brings is still cached in front of the release. -/
theorem cached_beforeRelease (hsize : cfg.cacheQuarantineSize < 2^32) (h : CacheInv cfg clock c)
    {e : CachedBlock} (hv : e.isValid) (ht : e.time = 0 ∨ e.time = clock)
    (hlimit : c.maxEntriesCount ≠ 0) {c2 : Cache} (hc2 : c.beforeRelease cfg e = some c2) :
    CacheInv cfg clock c2 ∧ c2.releaseToOsIntervalMs = c.releaseToOsIntervalMs ∧ Cached cfg c2 e := by
  obtain ⟨h1, hins⟩ := h.throughQuarantine hsize hv ht
  obtain ⟨-, -, -, hmax, hint⟩ := throughQuarantine_same cfg c e
  rw [Cache.beforeRelease, Option.map_eq_some_iff] at hc2
  obtain ⟨next, hnext, rfl⟩ := hc2
  have hlimit1 : (c.throughQuarantine cfg e).1.maxEntriesCount ≠ 0 := by rw [hmax]; exact hlimit
  obtain ⟨hq2, hi2⟩ := pushed_same (c.throughQuarantine cfg e).1 next
  refine ⟨h1.pushed (hins next hnext) hlimit1, hi2.trans hint, ?_⟩
  by_cases hq : quarantineSlots cfg ≠ 0
  · have hslot : (c.throughQuarantine cfg e).1.quarantine (nextPos cfg c) = e := by
      rw [Cache.throughQuarantine, if_pos hq]
      exact Function.update_self ..
    refine .inr ⟨nextPos cfg c, nextPos_lt hq, ?_, ?_⟩
    · rw [hq2, hslot]
      exact hv
    · rw [hq2, hslot]
  · have hself : (c.throughQuarantine cfg e).2 = some e := by
      rw [Cache.throughQuarantine, if_neg hq]
    have heq : e = next := Option.some.inj (hself.symm.trans hnext)
    subst heq
    exact .inl (cached_pushed h1 (hins e hnext) hlimit1)

/-- What a store that comes to the release gives back is what it releases. -/
theorem store_released (opts : Options) (env : SecondaryEnv) (m : Mem) {commitBase commitSize : Nat}
    (blockBegin : Nat) (memMap : MemMap) {c2 : Cache} (h2 : CacheInv cfg clock c2)
    (hc2 : c.beforeRelease cfg
      (c.storedEntry opts env.clock commitBase commitSize blockBegin memMap) = some c2) :
    (c.store cfg opts env m commitBase commitSize blockBegin memMap).2.1 =
      (c2.storeReleased cfg env).foldl Cache.releaseEntry
        (c.storedMem cfg opts m commitBase commitSize) := by
  rw [Cache.beforeRelease, Option.map_eq_some_iff] at hc2
  obtain ⟨next, hnext, rfl⟩ := hc2
  have hi := (pushed_same (c.throughQuarantine cfg
    (c.storedEntry opts env.clock commitBase commitSize blockBegin memMap)).1 next).2
  rw [store_eq, Cache.storeReleased]
  simp only
  generalize c.throughQuarantine cfg
    (c.storedEntry opts env.clock commitBase commitSize blockBegin memMap) = p at hnext h2 hi ⊢
  obtain ⟨c1, _⟩ := p
  simp only at hnext h2 hi ⊢
  subst hnext
  simp only [insertEntry_eq, hi]
  have htime : (c1.pushed next).releaseTime env.clock = c1.releaseTime env.clock := by
    rw [Cache.releaseTime, hi, Cache.releaseTime]
  by_cases hrel : c1.releaseToOsIntervalMs ≥ 0 ∧ env.tryLock = true
  · rw [if_pos hrel, if_pos hrel, htime]
    exact (@AgeOrdered.release cfg _ h2.ordered h2.nodup _ _).2
  · rw [if_neg hrel, if_neg hrel]
    rfl

/-- Without the release, the store leaves the cache and the memory in front of it. -/
theorem store_unlocked (opts : Options) (env : SecondaryEnv) (m : Mem) {commitBase commitSize : Nat}
    (blockBegin : Nat) (memMap : MemMap) {c2 : Cache}
    (hc2 : c.beforeRelease cfg
      (c.storedEntry opts env.clock commitBase commitSize blockBegin memMap) = some c2) :
    (c.store cfg opts { env with tryLock := false } m commitBase commitSize blockBegin memMap).1 =
        c2 ∧
      (c.store cfg opts { env with tryLock := false } m commitBase commitSize blockBegin memMap).2.1 =
        c.storedMem cfg opts m commitBase commitSize := by
  rw [Cache.beforeRelease, Option.map_eq_some_iff] at hc2
  obtain ⟨next, hnext, rfl⟩ := hc2
  rw [store_eq]
  simp only
  generalize c.throughQuarantine cfg
    (c.storedEntry opts env.clock commitBase commitSize blockBegin memMap) = p at hnext ⊢
  obtain ⟨c1, _⟩ := p
  simp only at hnext ⊢
  subst hnext
  simp only [insertEntry_eq, Bool.false_eq_true, and_false, if_false]
  exact ⟨trivial, rfl⟩

theorem mem_cached {e : CachedBlock} (he : Cached cfg c e) : e ∈ c.cached cfg := by
  rw [cached_eq]
  rcases he with ⟨i, hi, rfl⟩ | ⟨j, hj, hv, rfl⟩
  · exact List.mem_append_left _ (List.mem_map_of_mem hi)
  · have hlt : j < cfg.cacheQuarantineSize := by
      rw [quarantineSlots] at hj
      split at hj <;> omega
    exact List.mem_append_right _ (List.mem_filter.mpr
      ⟨List.mem_map_of_mem (List.mem_range.mpr hlt), hv⟩)

theorem foldl_releaseEntry_keeps (l : List CachedBlock) {m : Mem} {lo hi : Nat}
    (h : IsZero m.data lo hi) : IsZero (l.foldl Cache.releaseEntry m).data lo hi := by
  induction l generalizing m with
  | nil => exact h
  | cons e l ih => exact ih (IsZero.zeroPages h _ _)

theorem foldl_releaseEntry_zero {l : List CachedBlock} {e : CachedBlock} (he : e ∈ l) (m : Mem) :
    IsZero (l.foldl Cache.releaseEntry m).data e.commitBase (e.commitBase + e.commitSize) := by
  induction l generalizing m with
  | nil => exact absurd he List.not_mem_nil
  | cons a l ih =>
    rcases List.mem_cons.mp he with rfl | he
    · exact foldl_releaseEntry_keeps l (zeroPages_isZero _ _)
    · exact ih he _

/-- Where the threshold does not wrap, it is as old as the interval says. -/
theorem releasesDue_of_le (h : CacheInv cfg clock c) {m : Mem}
    (hzero : ReleasedPages m (c.cached cfg)) {env : SecondaryEnv}
    (hclock : env.clock < 2^64) (hle : c.releaseToOsIntervalMs.toNat * 1000000 ≤ env.clock)
    (hi : 0 ≤ c.releaseToOsIntervalMs) : ReleasesDue cfg env c m := by
  have htime : c.releaseTime env.clock =
      env.clock - c.releaseToOsIntervalMs.toNat * 1000000 := wrapSub_of_le hle hclock
  obtain ⟨hr, -⟩ := @AgeOrdered.release cfg c h.ordered h.nodup (c.releaseTime env.clock) m
  rw [ReleasesDue, Cache.storeReleased]
  refine ⟨?_, ?_⟩
  · split
    · intro e he
      have hold := hr.old e he
      omega
    · exact fun e he => absurd he List.not_mem_nil
  · intro hlock e he hdue
    rw [if_pos ⟨hi, hlock⟩]
    have hmem (hne : e.time ≠ 0) : e ∈ c.releasedOlderThan cfg (c.releaseTime env.clock) := by
      rcases he with ⟨i, hi, rfl⟩ | ⟨j, hj, hv, rfl⟩
      · exact hr.lruReleased i hi hne (by omega)
      · exact hr.quarantineReleased j hj ⟨hv, hne, by omega⟩
    refine ⟨hmem, ?_⟩
    by_cases h0 : e.time = 0
    · exact foldl_releaseEntry_keeps _ (hzero e (mem_cached he) h0)
    · exact foldl_releaseEntry_zero (hmem h0) m

/-- Where the threshold wraps, everything that waits is released, younger than the interval as
it all is. -/
theorem not_releasesDue (h : CacheInv cfg clock c) (m : Mem) {env : SecondaryEnv}
    (hlock : env.tryLock) (hi : 0 ≤ c.releaseToOsIntervalMs)
    (hlt : env.clock < c.releaseToOsIntervalMs.toNat * 1000000) {e : CachedBlock}
    (he : Cached cfg c e) (hne : e.time ≠ 0) (hle : e.time ≤ env.clock) :
    ¬ ReleasesDue cfg env c m := by
  have htime : c.releaseTime env.clock =
      env.clock + 2^64 - c.releaseToOsIntervalMs.toNat * 1000000 := wrapSub_of_lt hlt
  have hint := h.interval_lt
  obtain ⟨hr, -⟩ := @AgeOrdered.release cfg c h.ordered h.nodup (c.releaseTime env.clock) m
  have hmem : e ∈ c.storeReleased cfg env := by
    rw [Cache.storeReleased, if_pos ⟨hi, hlock⟩]
    rcases he with ⟨i, hi, rfl⟩ | ⟨j, hj, hv, rfl⟩
    · exact hr.lruReleased i hi hne (by omega)
    · exact hr.quarantineReleased j hj ⟨hv, hne, by omega⟩
  intro hdue
  have hold := hdue.1 e hmem
  omega

/-- In every run that keeps no pages at clock 0, the release at the end of a store keeps to the
interval exactly where the threshold does not wrap: the clock is at least the interval. -/
theorem releasesDue_iff (hsize : cfg.cacheQuarantineSize < 2^32) {s : CacheState}
    (hr : CacheState.Reachable cfg CacheState.KeepsLater s) {opts : Options} {env : SecondaryEnv}
    {commitBase commitSize blockBegin : Nat} {memMap : MemMap}
    (he : s.Enabled (.store opts env commitBase commitSize blockBegin memMap))
    (hlater : s.KeepsLater (.store opts env commitBase commitSize blockBegin memMap))
    (hi : 0 ≤ s.cache.releaseToOsIntervalMs) {c2 : Cache}
    (hc2 : s.cache.beforeRelease cfg
      (s.cache.storedEntry opts env.clock commitBase commitSize blockBegin memMap) = some c2) :
    (s.step cfg (.store opts env commitBase commitSize blockBegin memMap)).mem =
        (c2.storeReleased cfg env).foldl Cache.releaseEntry
          (s.cache.storedMem cfg opts s.mem commitBase commitSize) ∧
      c2.releaseToOsIntervalMs = s.cache.releaseToOsIntervalMs ∧
      (ReleasesDue cfg env c2 (s.cache.storedMem cfg opts s.mem commitBase commitSize) ↔
        env.tryLock = false ∨
          s.cache.releaseToOsIntervalMs.toNat * 1000000 ≤ env.clock) := by
  have hinv := hr.inv hsize
  obtain ⟨hbase, hcan, hclock, hlt⟩ := he
  obtain ⟨h2, hint, hcached⟩ := cached_beforeRelease hsize (hinv.later hclock)
    (storedEntry_isValid s.cache opts env.clock commitSize blockBegin memMap hbase)
    (storedEntry_time s.cache opts env.clock commitBase commitSize blockBegin memMap)
    (limit_of_canCache hcan) hc2
  refine ⟨store_released opts env s.mem blockBegin memMap h2 hc2, hint, ?_, ?_⟩
  · intro hdue
    by_contra hcon
    rw [not_or, Bool.not_eq_false, not_le] at hcon
    obtain ⟨hlock, hwrap⟩ := hcon
    have hkept : ¬ (opts.useMemoryTagging ∧ s.cache.releaseToOsIntervalMs = 0) := by
      rintro ⟨-, hzero⟩
      rw [hzero] at hwrap
      exact absurd hwrap (Nat.not_lt_zero _)
    have hpresent :
        (s.cache.storedEntry opts env.clock commitBase commitSize blockBegin memMap).time =
          env.clock := by
      rw [Cache.storedEntry, if_neg hkept]
    have hpos : env.clock ≠ 0 := hlater.resolve_right hkept
    exact not_releasesDue h2 _ hlock (hint ▸ hi) (hint ▸ hwrap) hcached (by omega)
      (le_of_eq hpresent) hdue
  · intro hok
    by_cases hle : s.cache.releaseToOsIntervalMs.toNat * 1000000 ≤ env.clock
    · obtain ⟨hcache, hmem⟩ := store_unlocked opts env s.mem blockBegin memMap hc2
      have hpages : ReleasedPages
          (s.cache.store cfg opts { env with tryLock := false } s.mem commitBase commitSize blockBegin
            memMap).2.1
          ((s.cache.store cfg opts { env with tryLock := false } s.mem commitBase commitSize blockBegin
            memMap).1.cached cfg) :=
        (releasedPages_closed.store { env with tryLock := false } hinv.linked hbase
          (CacheState.releasedPages_entry (hr.releasedPages hsize) hlater)).1
      rw [hcache, hmem] at hpages
      exact releasesDue_of_le h2 hpages hlt (hint ▸ hle) (hint ▸ hi)
    · have hlock := hok.resolve_right hle
      have hnil : c2.storeReleased cfg env = [] := by
        rw [Cache.storeReleased, if_neg (by simp [hlock])]
      rw [ReleasesDue, hnil]
      refine ⟨fun e he => absurd he List.not_mem_nil, fun hlock' => ?_⟩
      rw [hlock] at hlock'
      exact absurd hlock' Bool.false_ne_true

namespace CacheState

/-- An empty cache of the default configuration, with an interval of a second, and memory in use. -/
def boot : CacheState where
  cache := .init defaultConfig 32 (2^20) 1000
  mem := { data := fun _ => 7, tag := fun _ => 0, headerKey := fun _ => 0 }
  clock := 0

/-- A store of the page at `base`. -/
def storePage (clock base : Nat) : CacheOp :=
  .store defaultOptions { mapBase := none, clock, tryLock := true } base 4096 base ⟨base, 4096⟩

theorem boot_reachable (ok : CacheState → CacheOp → Prop) : Reachable defaultConfig ok boot :=
  .start ⟨32, 2^20, 1000, by decide, by decide, rfl⟩

theorem boot_enabled {clock : Nat} (h : clock < 2^64) : boot.Enabled (storePage clock 4096) :=
  ⟨by decide, by decide, Nat.zero_le _, h⟩

/-- The entry of a page stored into the empty cache. -/
def bootEntry (clock : Nat) : CachedBlock :=
  boot.cache.storedEntry defaultOptions clock 4096 4096 4096 ⟨4096, 4096⟩

end CacheState

open CacheState in
theorem releasesDue_later :
    ReleasesDue defaultConfig { mapBase := none, clock := 2 * 10^9, tryLock := true }
        (boot.cache.pushed (bootEntry (2 * 10^9))) boot.mem ↔
      true = false ∨ 1000 * 1000000 ≤ 2 * 10^9 :=
  (releasesDue_iff (by decide) (boot_reachable _) (boot_enabled (by decide)) (.inl (by decide))
    (by decide) rfl).2.2

open CacheState in
/-- In the first second, a page is released in the call that caches it. -/
theorem releasesDue_firstSecond :
    Reachable defaultConfig KeepsLater boot ∧ boot.Enabled (storePage 1 4096) ∧
      boot.cache.beforeRelease defaultConfig (bootEntry 1) = some (boot.cache.pushed (bootEntry 1)) ∧
      ¬ ReleasesDue defaultConfig { mapBase := none, clock := 1, tryLock := true }
        (boot.cache.pushed (bootEntry 1)) boot.mem := by
  refine ⟨boot_reachable _, boot_enabled (by decide), rfl, fun h => ?_⟩
  have hmem : bootEntry 1 ∈ (boot.cache.pushed (bootEntry 1)).storeReleased defaultConfig
      { mapBase := none, clock := 1, tryLock := true } := by
    decide
  exact absurd (h.1 _ hmem) (by decide)

open CacheState in
/-- A page that is stored when the clock reads 0 still has its contents two seconds later, although a
release step has got the lock then. -/
theorem kept_clockZero :
    ((boot.step defaultConfig (storePage 0 4096)).step defaultConfig
      (storePage (2 * 10^9) 8192)).mem.data 4096 = 7 := by
  decide

/-- The internal checks of `remove`. -/
def Cache.removeChecks (c : Cache) (i : Nat) : Prop :=
  (c.entries i).isValid ∧ (c.oldestPresentEntry = some i →
    ∀ o, getPrev c.lruEntries i = some o → (c.entries o).time ≠ 0)

/-- Those of the eviction loop. -/
def Cache.evictChecks : Nat → Cache → Prop
  | 0, _ => True
  | fuel+1, c =>
      match c.lruEntries.getLast? with
      | some i => c.lruEntries.length ≥ c.maxEntriesCount →
          c.removeChecks i ∧ evictChecks fuel (c.remove i)
      | none => True

/-- The walk of `releaseOlderThan` passes its checks, and releases the entries of the list that
are not released and old enough, from the least recent one on. -/
def Cache.WalksUnreleased (cfg : Config) (releaseTime : Nat) (c : Cache) : Prop :=
  let c1 := c.quarantineReleased releaseTime (quarantineSlots cfg)
  releaseChecks releaseTime (c.lruEntries.length + 1) c.oldestPresentEntry c1 ∧
    releasedFrom releaseTime (c.lruEntries.length + 1) c.oldestPresentEntry c1 =
      (c.lruEntries.reverse.map c.entries).filter fun e => e.time ≠ 0 ∧ e.time ≤ releaseTime

/-- An operation passes the checks it comes to, and its walk is the one it should be. -/
def CacheState.Checked (cfg : Config) (s : CacheState) : CacheOp → Prop
  | .store opts env commitBase commitSize blockBegin memMap =>
      let (c1, next) := s.cache.throughQuarantine cfg
        (s.cache.storedEntry opts env.clock commitBase commitSize blockBegin memMap)
      ∀ e, next = some e → c1.evictChecks c1.lruEntries.length ∧
        (c1.releaseToOsIntervalMs ≥ 0 ∧ env.tryLock →
          (c1.pushed e).WalksUnreleased cfg (c1.releaseTime env.clock))
  | .retrieve maxAllowedFragmentedPages size alignment headersSize =>
      ∀ i headerPos, Cache.retrieveLoop cfg s.cache.entries maxAllowedFragmentedPages size alignment
        headersSize s.cache.lruEntries none (2^64-1) 0 = (some i, headerPos) → s.cache.removeChecks i
  | .releaseOlderThan releaseTime => s.cache.WalksUnreleased cfg releaseTime
  | .releaseToOS => s.cache.WalksUnreleased cfg (2^64-1)
  | _ => True

/-- An entry that comes to the list released finds only released entries there, of those that
are not evicted. -/
def CacheState.ReleasedLast (cfg : Config) (s : CacheState) : CacheOp → Prop
  | .store opts env commitBase commitSize blockBegin memMap =>
      ∀ e, (s.cache.throughQuarantine cfg
          (s.cache.storedEntry opts env.clock commitBase commitSize blockBegin memMap)).2 = some e →
        e.time = 0 → ∀ i ∈ s.cache.lruEntries.take (s.cache.maxEntriesCount - 1),
          (s.cache.entries i).time = 0
  | _ => True

theorem walksUnreleased (h : CacheInv cfg clock c) (hp : PresentFirst c) (t : Nat) (m : Mem) :
    c.WalksUnreleased cfg t := by
  obtain ⟨young, old, hlru, hyoung, hsorted, hold, ho⟩ := h.ordered.lruOrdered hp
  let c1 := c.quarantineReleased t (quarantineSlots cfg)
  obtain ⟨pre, post, hw⟩ := @exists_walk c1 t m young old hlru h.nodup (c.lruEntries.length + 1)
    (by rw [hlru, List.length_append]; omega)
  have hsplit := hw.split
  have hchecks := hw.checks fun i hi =>
    ⟨h.valid i (hlru ▸ List.mem_append_left _ hi), hyoung i hi⟩
  have hpre : ∀ i ∈ pre, (c.entries i).time > t := by
    intro i hi
    cases hlast : pre.getLast? with
    | none => simp [List.getLast?_eq_none_iff.mp hlast] at hi
    | some o =>
      have hyo : (c.entries o).time > t := hw.young o hlast
      obtain ⟨p, rfl⟩ := List.getLast?_eq_some_iff.mp hlast
      rcases List.mem_append.mp hi with hi | hi
      · rw [hsplit] at hsorted
        have hle := (List.pairwise_append.mp (List.pairwise_append.mp hsorted).1).2.2 i hi o
          List.mem_cons_self
        omega
      · rwa [List.mem_singleton.mp hi]
  have hkept (l : List Nat) (hl : ∀ i ∈ l, (c.entries i).time ≠ 0 ∧ (c.entries i).time ≤ t) :
      ((l.reverse.map c.entries).filter fun e => e.time ≠ 0 ∧ e.time ≤ t) =
        l.reverse.map c.entries := by
    rw [List.filter_eq_self]
    intro e he
    obtain ⟨i, hi, rfl⟩ := List.mem_map.mp he
    exact decide_eq_true (hl i (List.mem_reverse.mp hi))
  have hdropped (l : List Nat) (hl : ∀ i ∈ l, (c.entries i).time = 0 ∨ (c.entries i).time > t) :
      ((l.reverse.map c.entries).filter fun e => e.time ≠ 0 ∧ e.time ≤ t) = [] := by
    rw [List.filter_eq_nil_iff]
    intro e he hd
    obtain ⟨i, hi, rfl⟩ := List.mem_map.mp he
    have hor := hl i (List.mem_reverse.mp hi)
    have hand := decide_eq_true_eq.mp hd
    omega
  rw [Cache.WalksUnreleased, ho]
  refine ⟨hchecks, ?_⟩
  rw [hw.released, hlru, hsplit]
  simp only [List.reverse_append, List.map_append, List.filter_append]
  rw [hdropped old fun i hi => .inl (hold i hi), hdropped pre fun i hi => .inr (hpre i hi),
    hkept post fun i hi => ⟨hyoung i (hsplit ▸ List.mem_append_right _ hi), hw.old i hi⟩]
  rw [List.nil_append, List.append_nil]
  rfl

theorem removeChecks (h : CacheInv cfg clock c) (hp : PresentFirst c) {i : Nat}
    (hi : i ∈ c.lruEntries) : c.removeChecks i := by
  refine ⟨h.valid i hi, fun ho o hprev => ?_⟩
  have hnext := (hp.remove h.ordered h.nodup i).oldest o
  rw [remove_time] at hnext
  apply hnext
  rw [Cache.remove]
  simp only [if_pos ho, hprev]

theorem evictChecks (fuel : Nat) (h : CacheInv cfg clock c) (hp : PresentFirst c) :
    c.evictChecks fuel := by
  induction fuel generalizing c with
  | zero => trivial
  | succ fuel ih =>
    rw [Cache.evictChecks]
    cases hlast : c.lruEntries.getLast? with
    | none => trivial
    | some i =>
      have hi := List.mem_of_getLast? hlast
      exact fun _ => ⟨removeChecks h hp hi, ih (h.remove hi) (hp.remove h.ordered h.nodup i)⟩

/-- An entry goes to the front, if it is not released or nothing else there is. -/
theorem PresentFirst.pushed (hp : PresentFirst c) (h : CacheInv cfg clock c) {e : CachedBlock}
    (he : Insertable cfg clock c e) (hlimit : c.maxEntriesCount ≠ 0)
    (hlast : e.time = 0 → ∀ i ∈ c.lruEntries.take (c.maxEntriesCount - 1), (c.entries i).time = 0) :
    PresentFirst (c.pushed e) := by
  obtain ⟨h1, he1, ha⟩ := h.evict he hlimit
  have hp1 : PresentFirst (Cache.evict c.lruEntries.length c []).1 :=
    (@evict_keeps (fun c => CacheInv cfg clock c ∧ PresentFirst c)
      (fun c hc i hi => ⟨hc.1.remove hi, hc.2.remove hc.1.ordered hc.1.nodup i⟩) _ c [] ⟨h, hp⟩).2
  obtain ⟨hlru, -, htime⟩ := evict_spec hlimit (le_refl _) h.nodup []
  have hlast1 : e.time = 0 → ∀ i ∈ (Cache.evict c.lruEntries.length c []).1.lruEntries,
      ((Cache.evict c.lruEntries.length c []).1.entries i).time = 0 := by
    intro h0 i hi
    rw [htime]
    exact hlast h0 i (hlru ▸ hi)
  rw [Cache.pushed]
  generalize (Cache.evict c.lruEntries.length c []).1 = c1 at h1 he1 ha hp1 hlast1 ⊢
  obtain ⟨a, rest, havail⟩ := List.exists_cons_of_ne_nil ha
  have hnot : a ∉ c1.lruEntries := by
    have hn := h1.partitioned.nodup
    rw [havail] at hn
    exact fun hmem => (List.nodup_append.mp hn).2.2 a hmem a List.mem_cons_self rfl
  refine hp1.insert havail hnot ?_ hlast1
  intro o ho
  obtain ⟨l1, l2, hsplit, hlast, -⟩ := h1.ordered.oldest
  rw [hsplit]
  exact List.mem_append_left _ (List.mem_of_getLast? (hlast.symm.trans ho))

theorem PresentFirst.swap (hp : PresentFirst c) (e : CachedBlock) :
    PresentFirst (c.throughQuarantine cfg e).1 := by
  obtain ⟨hlru, hentries, ho, -, -⟩ := throughQuarantine_same cfg c e
  refine ⟨?_, ?_⟩
  · rw [hlru, hentries]
    exact hp.sorted
  · rw [ho, hentries]
    exact hp.oldest

theorem PresentFirst.released (hp : PresentFirst c) (h : CacheInv cfg clock c) (t : Nat) (m : Mem) :
    PresentFirst (c.releaseOlderThan cfg t m).1 :=
  (@AgeOrdered.release cfg c h.ordered h.nodup t m).1.present hp

namespace CacheState

variable {s : CacheState}

/-- What a store leaves in front of its release. -/
theorem present_pushed (hsize : cfg.cacheQuarantineSize < 2^32) (h : CacheInv cfg s.clock s.cache)
    (hp : PresentFirst s.cache) {opts : Options} {env : SecondaryEnv}
    {commitBase commitSize blockBegin : Nat} {memMap : MemMap}
    (he : s.Enabled (.store opts env commitBase commitSize blockBegin memMap))
    (hlast : ReleasedLast cfg s (.store opts env commitBase commitSize blockBegin memMap))
    {c1 : Cache} {next : Option CachedBlock}
    (hc1 : s.cache.throughQuarantine cfg
      (s.cache.storedEntry opts env.clock commitBase commitSize blockBegin memMap) = (c1, next)) :
    CacheInv cfg env.clock c1 ∧ PresentFirst c1 ∧ ∀ e, next = some e →
      CacheInv cfg env.clock (c1.pushed e) ∧ PresentFirst (c1.pushed e) := by
  obtain ⟨hbase, hcan, hclock, -⟩ := he
  obtain ⟨h1, hins⟩ := (h.later hclock).throughQuarantine hsize
    (storedEntry_isValid s.cache opts env.clock commitSize blockBegin memMap hbase)
    (storedEntry_time s.cache opts env.clock commitBase commitSize blockBegin memMap)
  obtain ⟨hlru, hentries, -, hmax, -⟩ := throughQuarantine_same cfg s.cache
    (s.cache.storedEntry opts env.clock commitBase commitSize blockBegin memMap)
  have hp1 := @PresentFirst.swap cfg _ hp
    (s.cache.storedEntry opts env.clock commitBase commitSize blockBegin memMap)
  simp only [ReleasedLast] at hlast
  rw [hc1] at h1 hins hlru hentries hmax hp1 hlast
  have hlimit : c1.maxEntriesCount ≠ 0 := by rw [hmax]; exact limit_of_canCache hcan
  refine ⟨h1, hp1, fun e hnext => ⟨h1.pushed (hins e hnext) hlimit, ?_⟩⟩
  refine hp1.pushed h1 (hins e hnext) hlimit ?_
  rw [hlru, hentries, hmax]
  exact hlast e hnext

theorem present_step (hsize : cfg.cacheQuarantineSize < 2^32) {a : CacheOp}
    (h : CacheInv cfg s.clock s.cache) (hp : PresentFirst s.cache) (he : s.Enabled a)
    (hlast : ReleasedLast cfg s a) : PresentFirst (s.step cfg a).cache := by
  cases a with
  | store opts env commitBase commitSize blockBegin memMap =>
    change PresentFirst
      (s.cache.store cfg opts env s.mem commitBase commitSize blockBegin memMap).1
    rw [store_eq]
    simp only
    cases hc1 : s.cache.throughQuarantine cfg
      (s.cache.storedEntry opts env.clock commitBase commitSize blockBegin memMap) with
    | mk c1 next =>
      obtain ⟨-, hp1, hpushed⟩ := present_pushed hsize h hp he hlast hc1
      cases next with
      | none => exact hp1
      | some e =>
        obtain ⟨h2, hp2⟩ := hpushed e rfl
        simp only [insertEntry_eq]
        split
        · exact hp2.released h2 _ _
        · exact hp2
  | retrieve maxPages size alignment headersSize =>
    change PresentFirst (s.cache.retrieve cfg s.mem maxPages size alignment headersSize).2.1
    rcases retrieve_cache cfg s.cache s.mem maxPages size alignment headersSize with hc | ⟨i, -, hc⟩
    · rw [hc]
      exact hp
    · rw [hc]
      exact hp.remove h.ordered h.nodup i
  | releaseOlderThan t => exact hp.released h t s.mem
  | releaseToOS => exact hp.released h _ s.mem
  | setMaxEntriesCount value =>
    change PresentFirst (s.cache.setMaxEntriesCount cfg value)
    rw [Cache.setMaxEntriesCount]
    split
    · exact hp
    · exact ⟨hp.sorted, hp.oldest⟩
  | setMaxEntrySize value => exact ⟨hp.sorted, hp.oldest⟩
  | setReleaseInterval value => exact ⟨hp.sorted, hp.oldest⟩
  | disableMemoryTagging =>
    change PresentFirst (s.cache.disableMemoryTagging cfg)
    rw [Cache.disableMemoryTagging]
    split
    · exact ⟨hp.sorted, hp.oldest⟩
    · exact hp

theorem Reachable.present (hsize : cfg.cacheQuarantineSize < 2^32)
    (hr : Reachable cfg (ReleasedLast cfg) s) : PresentFirst s.cache := by
  refine @TransitionSystem.Reachable.invariant_of _ _ _ _ _ (fun s => CacheInv cfg s.clock s.cache)
    (fun s => PresentFirst s.cache) (fun s hs => Reachable.inv hsize hs) ?_ ?_ s hr
  · rintro s ⟨maxEntriesCount, maxEntrySize, interval, -, -, hc⟩
    rw [hc]
    exact ⟨.nil, nofun⟩
  · rintro s a s' h hp ho rfl
    exact present_step hsize h hp ho.1 ho.2

theorem checked (hsize : cfg.cacheQuarantineSize < 2^32) (h : CacheInv cfg s.clock s.cache)
    (hp : PresentFirst s.cache) {a : CacheOp} (he : s.Enabled a) (hlast : ReleasedLast cfg s a) :
    s.Checked cfg a := by
  cases a with
  | store opts env commitBase commitSize blockBegin memMap =>
    rw [Checked]
    cases hc1 : s.cache.throughQuarantine cfg
      (s.cache.storedEntry opts env.clock commitBase commitSize blockBegin memMap) with
    | mk c1 next =>
      obtain ⟨h1, hp1, hpushed⟩ := present_pushed hsize h hp he hlast hc1
      intro e hnext
      obtain ⟨h2, hp2⟩ := hpushed e hnext
      exact ⟨evictChecks _ h1 hp1, fun _ => walksUnreleased h2 hp2 _ s.mem⟩
  | retrieve maxPages size alignment headersSize =>
    intro i headerPos hloop
    rcases retrieveLoop_spec _ _ _ _ hloop with ⟨hn, -⟩ | ⟨hmem, -⟩
    · exact absurd hn nofun
    · exact removeChecks h hp hmem
  | releaseOlderThan t => exact walksUnreleased h hp t s.mem
  | releaseToOS => exact walksUnreleased h hp _ s.mem
  | _ => trivial

end CacheState

/-- In every run in which no released entry comes to the list in front of one that is not, the
list is ordered by age, and every operation from there passes its checks and releases what it
should. -/
theorem lruOrdered_of_reachable (hsize : cfg.cacheQuarantineSize < 2^32) {s : CacheState}
    (hr : CacheState.Reachable cfg (CacheState.ReleasedLast cfg) s) :
    LruOrdered s.cache ∧
      ∀ a, s.Enabled a → CacheState.ReleasedLast cfg s a → s.Checked cfg a := by
  have h := hr.inv hsize
  have hp := hr.present hsize
  exact ⟨h.ordered.lruOrdered hp, fun a he hlast => CacheState.checked hsize h hp he hlast⟩

namespace CacheState

/-- Two cached pages in front of one that has been released. -/
def threePages : CacheState :=
  (((boot.step defaultConfig (storePage (10^9) 4096)).step defaultConfig
    (.releaseOlderThan (10^9))).step defaultConfig (storePage (2 * 10^9) 8192)).step defaultConfig
      (storePage (2 * 10^9 + 1) 12288)

theorem threePages_reachable : Reachable defaultConfig (ReleasedLast defaultConfig) threePages := by
  have h1 := TransitionSystem.Reachable.next (boot_reachable (ReleasedLast defaultConfig))
    ⟨@boot_enabled (10^9) (by decide), fun _ _ _ i hi => absurd hi List.not_mem_nil⟩ rfl
  have h2 := h1.next (a := CacheOp.releaseOlderThan (10^9)) ⟨trivial, trivial⟩ rfl
  have h3 := h2.next (a := storePage (2 * 10^9) 8192) ⟨⟨by decide, by decide, by decide, by decide⟩,
    fun e he h0 => absurd ((Option.some.inj he) ▸ h0) (by decide)⟩ rfl
  exact h3.next (a := storePage (2 * 10^9 + 1) 12288) ⟨⟨by decide, by decide, by decide, by decide⟩,
    fun e he h0 => absurd ((Option.some.inj he) ▸ h0) (by decide)⟩ rfl

end CacheState

open CacheState in
theorem lruOrdered_threePages :
    threePages.cache.lruEntries.map (fun i => (threePages.cache.entries i).time) =
        [2 * 10^9 + 1, 2 * 10^9, 0] ∧
      LruOrdered threePages.cache ∧ ∀ a, threePages.Enabled a →
        ReleasedLast defaultConfig threePages a → threePages.Checked defaultConfig a :=
  ⟨by decide, lruOrdered_of_reachable (by decide) threePages_reachable⟩

namespace CacheState

/-- A cached page, and an interval that was then set to zero. -/
def intervalSet : CacheState :=
  (boot.step defaultConfig (storePage (10^9) 4096)).step defaultConfig (.setReleaseInterval 0)

end CacheState

open CacheState in
/-- The next page is cached released, in front of the other one: the walk of that store comes to
it and finds its time zero. -/
theorem released_in_front :
    Reachable defaultConfig (fun _ _ => True) intervalSet ∧
      intervalSet.Enabled (storePage (2 * 10^9) 8192) ∧
      ¬ intervalSet.Checked defaultConfig (storePage (2 * 10^9) 8192) := by
  refine ⟨?_, ⟨by decide, by decide, by decide, by decide⟩, fun h => ?_⟩
  · refine .next (.next (boot_reachable _) ⟨boot_enabled (by decide), trivial⟩ rfl)
      (a := .setReleaseInterval 0) ⟨⟨by decide, by decide⟩, trivial⟩ rfl
  · obtain ⟨hchecks, -⟩ := (h _ rfl).2 ⟨by decide, rfl⟩
    exact (hchecks.2.2 (by decide)).2.1 rfl

end ScudoMte.Secondary
