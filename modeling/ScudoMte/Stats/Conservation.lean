import Mathlib.Tactic.LinearCombination
import ScudoMte.Stats.Caches

namespace ScudoMte.Stats.System

open Slots

variable {ι : Type*} [DecidableEq ι] {cfg : CacheConfig} {s : System ι} {id : Option ι}

/-- What the linked counters add up to. -/
def total (s : System ι) (i : StatType) : ZMod modulus := s.stats.total s.localStats i

/-- The pointers that a holder caches. -/
def chunksOf (s : System ι) : Holder ι → Nat → List Nat
  | .cache id => (s.caches id).chunks
  | .secondary => fun _ => []

/-- The bytes in the linked caches. -/
def cachedBytes (cfg : CacheConfig) (s : System ι) : Nat :=
  (s.stats.statsList.map fun h => bytes cfg (s.chunksOf h)).sum

omit [DecidableEq ι] in
theorem total_congr {s' : System ι} (hg : s'.stats = s.stats) (hc : s'.caches = s.caches)
    (hs : s'.secondaryStats = s.secondaryStats) (i : StatType) : s'.total i = s.total i := by
  have hlocal : s'.localStats = s.localStats := by
    funext h
    cases h with
    | cache id => rw [localStats, localStats, hc]
    | secondary => rw [localStats, localStats, hs]
  rw [total, total, hg, hlocal]

omit [DecidableEq ι] in
theorem cachedBytes_congr {s' : System ι} (hg : s'.stats = s.stats) (hc : s'.caches = s.caches) :
    s'.cachedBytes cfg = s.cachedBytes cfg := by
  have hchunks : s'.chunksOf = s.chunksOf := by
    funext h
    cases h with
    | cache id => rw [chunksOf, chunksOf, hc]
    | secondary => rfl
  rw [cachedBytes, cachedBytes, hg, hchunks]

theorem total_setCache (hn : s.stats.statsList.Nodup) (hmem : .cache id ∈ s.stats.statsList)
    (x : LocalCache) (i : StatType) :
    (s.setCache id x).total i + (s.caches id).stats i = s.total i + x.stats i := by
  have hlocal : (s.setCache id x).localStats = Function.update s.localStats (.cache id) x.stats := by
    funext h
    cases h with
    | secondary => rfl
    | cache id' =>
      by_cases heq : id' = id
      · subst heq
        simp [localStats, setCache]
      · simp [localStats, setCache, heq]
  rw [total, hlocal]
  exact s.stats.total_update s.localStats i hn hmem x.stats

theorem cachedBytes_setCache (hn : s.stats.statsList.Nodup) (hmem : .cache id ∈ s.stats.statsList)
    (x : LocalCache) :
    (s.setCache id x).cachedBytes cfg + bytes cfg (s.caches id).chunks =
      s.cachedBytes cfg + bytes cfg x.chunks := by
  have hchunks : (fun h => bytes cfg ((s.setCache id x).chunksOf h)) =
      Function.update (fun h => bytes cfg (s.chunksOf h)) (.cache id) (bytes cfg x.chunks) := by
    funext h
    cases h with
    | secondary => rfl
    | cache id' =>
      by_cases heq : id' = id
      · subst heq
        simp [chunksOf, setCache]
      · simp [chunksOf, setCache, heq]
  rw [cachedBytes, cachedBytes, hchunks]
  exact sum_map_update hn hmem (fun h => bytes cfg (s.chunksOf h)) (bytes cfg x.chunks)

omit [DecidableEq ι] in
theorem bytes_update {c : Nat} (hc : c < cfg.numClasses) (f : Nat → List Nat) (l : List Nat) :
    bytes cfg (Function.update f c l) + cfg.classSize c * (f c).length =
      bytes cfg f + cfg.classSize c * l.length := by
  have hupdate : (fun d => cfg.classSize d * (Function.update f c l d).length) =
      Function.update (fun d => cfg.classSize d * (f d).length) c (cfg.classSize c * l.length) := by
    funext d
    by_cases heq : d = c
    · subst heq
      simp
    · simp [heq]
  rw [bytes, bytes, hupdate]
  exact sum_map_update List.nodup_range (List.mem_range.mpr hc)
    (fun d => cfg.classSize d * (f d).length) (cfg.classSize c * l.length)

/-- Who is linked: the secondary, the fallback cache, and the threads between their initialization
and their teardown. The caches of the others are empty. -/
structure Linked (s : System ι) : Prop where
  nodup : s.stats.statsList.Nodup
  secondary : .secondary ∈ s.stats.statsList
  fallback : .cache none ∈ s.stats.statsList
  linked : ∀ t, .cache (some t) ∈ s.stats.statsList ↔ s.initState t = .initialized
  unused : ∀ t, s.initState t = .notInitialized → ∀ i, (s.caches (some t)).stats i = 0
  empty : ∀ t, s.initState t ≠ .initialized → ∀ c, (s.caches (some t)).chunks c = []

/-- What the counters say, and where the carved bytes are. -/
structure Counted (cfg : CacheConfig) (s : System ι) : Prop where
  allocated : s.total .allocated = (s.handedOut cfg + s.committed : Nat)
  free : s.total .free + (s.handedOut cfg : Nat) = (s.carved cfg : Nat)
  carved : s.carved cfg = s.allocatedUser batchClassId + bytes cfg s.freeBlocks +
    s.cachedBytes cfg + s.handedOut cfg

omit [DecidableEq ι] in
theorem Linked.of_usable (h : Linked s) (hu : s.Usable id) : .cache id ∈ s.stats.statsList := by
  cases id with
  | none => exact h.fallback
  | some t => exact (h.linked t).mpr (hu t rfl)

omit [DecidableEq ι] in
/-- A cache that may be drained is linked or empty. -/
theorem Linked.of_drainable (h : Linked s) (hd : s.Drainable id) :
    .cache id ∈ s.stats.statsList ∨ ∀ c, (s.caches id).chunks c = [] := by
  cases id with
  | none => exact .inl h.fallback
  | some t =>
    by_cases ht : s.initState t = .initialized
    · exact .inl ((h.linked t).mpr ht)
    · exact .inr (h.empty t ht)

omit [DecidableEq ι] in
theorem Linked.of_runs (h : Linked s) {c : Nat} (hr : s.Runs id c) :
    .cache id ∈ s.stats.statsList := by
  rcases hr with hu | ⟨-, hd, d, hne⟩
  · exact h.of_usable hu
  · exact (h.of_drainable hd).resolve_right fun hempty => hne (hempty d)

omit [DecidableEq ι] in
theorem Linked.of_recycles (h : Linked s) {b : Block} (hd : s.Drainable id)
    (hl : s.RecyclesLinked (.recycle id b)) : .cache id ∈ s.stats.statsList := by
  cases id with
  | none => exact h.fallback
  | some t =>
    refine (h.linked t).mpr ?_
    cases hstate : s.initState t with
    | initialized => rfl
    | notInitialized => exact absurd hstate (hd t rfl)
    | tornDown => exact absurd hstate (hl t rfl)

theorem Linked.setCache (h : Linked s) (hmem : .cache id ∈ s.stats.statsList) (x : LocalCache) :
    Linked (s.setCache id x) := by
  have hother {t : ι} (ht : s.initState t ≠ .initialized) :
      (s.setCache id x).caches (some t) = s.caches (some t) := by
    refine Function.update_of_ne ?_ ..
    rintro rfl
    exact ht ((h.linked t).mp hmem)
  refine ⟨h.nodup, h.secondary, h.fallback, h.linked, ?_, ?_⟩
  · intro t ht i
    rw [hother (by rw [show s.initState t = .notInitialized from ht]; decide)]
    exact h.unused t ht i
  · intro t ht c
    rw [hother ht]
    exact h.empty t ht c

section Counters

variable (x : LocalCache) (c : Nat) (b : Block) (mapSize user : Nat)

theorem takeBlock_allocated : ((x.takeBlock cfg c).stats .allocated : ZMod modulus) =
    x.stats .allocated + cfg.classSize c := by
  rw [LocalCache.takeBlock]
  simp only
  rw [LocalStats.sub_of_ne _ _ _ (show StatType.allocated ≠ .free by decide), LocalStats.add_self]

theorem takeBlock_free : ((x.takeBlock cfg c).stats .free : ZMod modulus) + cfg.classSize c =
    x.stats .free := by
  rw [LocalCache.takeBlock]
  simp only
  rw [LocalStats.sub_self, LocalStats.add_of_ne _ _ _ (show StatType.free ≠ .allocated by decide)]

theorem putBlock_allocated : ((x.putBlock cfg b).stats .allocated : ZMod modulus) +
    cfg.classSize b.classId = x.stats .allocated := by
  rw [LocalCache.putBlock]
  simp only
  rw [LocalStats.add_of_ne _ _ _ (show StatType.allocated ≠ .free by decide), LocalStats.sub_self]

theorem putBlock_free : ((x.putBlock cfg b).stats .free : ZMod modulus) =
    x.stats .free + cfg.classSize b.classId := by
  rw [LocalCache.putBlock]
  simp only
  rw [LocalStats.add_self, LocalStats.sub_of_ne _ _ _ (show StatType.free ≠ .allocated by decide)]

theorem addPopulated_allocated : (x.addPopulated mapSize user).stats .allocated =
    x.stats .allocated := by
  rw [LocalCache.addPopulated]
  simp only
  rw [LocalStats.add_of_ne _ _ _ (show StatType.allocated ≠ .free by decide),
    LocalStats.add_of_ne _ _ _ (show StatType.allocated ≠ .mapped by decide)]

theorem addPopulated_free : ((x.addPopulated mapSize user).stats .free : ZMod modulus) =
    x.stats .free + user := by
  rw [LocalCache.addPopulated]
  simp only
  rw [LocalStats.add_self, LocalStats.add_of_ne _ _ _ (show StatType.free ≠ .mapped by decide)]

end Counters

theorem Counted.allocate (h : Counted cfg s) (hl : Linked s) (hmem : .cache id ∈ s.stats.statsList)
    {c : Nat} (p : Nat) (hc : c < cfg.numClasses) (hchunks : (s.caches id).chunks c ≠ []) :
    Counted cfg (s.allocate cfg id c p) := by
  have htotal := total_setCache hl.nodup hmem ((s.caches id).takeBlock cfg c)
  have hcached := @cachedBytes_setCache _ _ cfg s id hl.nodup hmem ((s.caches id).takeBlock cfg c)
  have hbytes := bytes_update hc (s.caches id).chunks ((s.caches id).chunks c).dropLast
  have hlen : ((s.caches id).chunks c).length = ((s.caches id).chunks c).dropLast.length + 1 := by
    have hpos := List.length_pos_iff.mpr hchunks
    rw [List.length_dropLast]
    omega
  have hout : (s.allocate cfg id c p).handedOut cfg = s.handedOut cfg + cfg.classSize c := by
    simp only [handedOut, System.allocate, setCache, List.map_cons, List.sum_cons]
    omega
  have hsame (i : StatType) : (s.allocate cfg id c p).total i =
      (s.setCache id ((s.caches id).takeBlock cfg c)).total i := total_congr rfl rfl rfl i
  refine ⟨?_, ?_, ?_⟩
  · have hsum := h.allocated
    rw [hout, hsame, show (s.allocate cfg id c p).committed = s.committed from rfl]
    push_cast at hsum ⊢
    linear_combination htotal .allocated + hsum + @takeBlock_allocated cfg (s.caches id) c
  · have hsum := h.free
    rw [hout, hsame, show (s.allocate cfg id c p).carved cfg = s.carved cfg from rfl]
    push_cast at hsum ⊢
    linear_combination htotal .free + hsum + @takeBlock_free cfg (s.caches id) c
  · have hsum := h.carved
    rw [hout, show (s.allocate cfg id c p).carved cfg = s.carved cfg from rfl,
      show (s.allocate cfg id c p).allocatedUser = s.allocatedUser from rfl,
      show (s.allocate cfg id c p).freeBlocks = s.freeBlocks from rfl,
      show (s.allocate cfg id c p).cachedBytes cfg =
        (s.setCache id ((s.caches id).takeBlock cfg c)).cachedBytes cfg from
        cachedBytes_congr rfl rfl]
    rw [hlen, Nat.mul_succ] at hbytes
    rw [show ((s.caches id).takeBlock cfg c).chunks =
      Function.update (s.caches id).chunks c ((s.caches id).chunks c).dropLast from rfl] at hcached
    omega

omit [DecidableEq ι] in
theorem sum_erase {β : Type*} [BEq β] [LawfulBEq β] {l : List β} {b : β} (hb : b ∈ l) (f : β → Nat) :
    ((l.erase b).map f).sum + f b = (l.map f).sum := by
  rw [((List.perm_cons_erase hb).map f).sum_eq, List.map_cons, List.sum_cons, Nat.add_comm]

/-- A block that was handed out, live or quarantined, comes back to a linked cache. -/
theorem Counted.returned (h : Counted cfg s) (hl : Linked s) (hmem : .cache id ∈ s.stats.statsList)
    {b : Block} (hc : b.classId < cfg.numClasses) {live : List Block}
    {quarantine : List (Option (Option ι) × Block)}
    (hout : (live.map fun b => cfg.classSize b.classId).sum +
      (quarantine.map fun q => cfg.classSize q.2.classId).sum + cfg.classSize b.classId =
        s.handedOut cfg) :
    Counted cfg { s.setCache id ((s.caches id).putBlock cfg b) with live, quarantine } := by
  have htotal := total_setCache hl.nodup hmem ((s.caches id).putBlock cfg b)
  have hcached := @cachedBytes_setCache _ _ cfg s id hl.nodup hmem ((s.caches id).putBlock cfg b)
  have hbytes := bytes_update hc (s.caches id).chunks ((s.caches id).chunks b.classId ++ [b.ptr])
  generalize hs' : { s.setCache id ((s.caches id).putBlock cfg b) with live, quarantine } = s'
  have hsame (i : StatType) : s'.total i =
      (s.setCache id ((s.caches id).putBlock cfg b)).total i := by
    rw [← hs']
    exact total_congr rfl rfl rfl i
  have hout' : s'.handedOut cfg + cfg.classSize b.classId = s.handedOut cfg := by
    rw [← hs', ← hout, handedOut]
  have hcommitted : s'.committed = s.committed := by rw [← hs']; rfl
  have hcarved : s'.carved cfg = s.carved cfg := by rw [← hs']; rfl
  refine ⟨?_, ?_, ?_⟩
  · have hsum := h.allocated
    rw [hsame, hcommitted]
    rw [← hout'] at hsum
    push_cast at hsum ⊢
    linear_combination htotal .allocated + hsum + @putBlock_allocated cfg (s.caches id) b
  · have hsum := h.free
    rw [hsame, hcarved]
    rw [← hout'] at hsum
    push_cast at hsum ⊢
    linear_combination htotal .free + hsum + @putBlock_free cfg (s.caches id) b
  · have hsum := h.carved
    have hrest : s'.allocatedUser = s.allocatedUser ∧ s'.freeBlocks = s.freeBlocks ∧
        s'.cachedBytes cfg = (s.setCache id ((s.caches id).putBlock cfg b)).cachedBytes cfg := by
      rw [← hs']
      exact ⟨rfl, rfl, cachedBytes_congr rfl rfl⟩
    rw [hcarved, hrest.1, hrest.2.1, hrest.2.2]
    rw [List.length_append, List.length_singleton, Nat.mul_succ] at hbytes
    rw [show ((s.caches id).putBlock cfg b).chunks = Function.update (s.caches id).chunks b.classId
      ((s.caches id).chunks b.classId ++ [b.ptr]) from rfl] at hcached
    omega

theorem Counted.deallocate (h : Counted cfg s) (hl : Linked s) (hmem : .cache id ∈ s.stats.statsList)
    {b : Block} (hc : b.classId < cfg.numClasses) (hb : b ∈ s.live) :
    Counted cfg (s.step cfg (.deallocate id b)) := by
  refine @Counted.returned ι _ cfg s id h hl hmem b hc (s.live.erase b) s.quarantine ?_
  have herase := sum_erase hb fun b => cfg.classSize b.classId
  rw [handedOut]
  omega

theorem Counted.recycle (h : Counted cfg s) (hl : Linked s) (hmem : .cache id ∈ s.stats.statsList)
    {b : Block} (hc : b.classId < cfg.numClasses) (hb : (none, b) ∈ s.quarantine) :
    Counted cfg (s.step cfg (.recycle id b)) := by
  refine @Counted.returned ι _ cfg s id h hl hmem b hc s.live (s.quarantine.erase (none, b)) ?_
  have herase : ((s.quarantine.erase (none, b)).map fun q => cfg.classSize q.2.classId).sum +
      cfg.classSize b.classId = (s.quarantine.map fun q => cfg.classSize q.2.classId).sum :=
    sum_erase hb fun q => cfg.classSize q.2.classId
  rw [handedOut]
  omega

/-- Blocks that move between a linked cache and the free lists. -/
theorem Counted.moved (h : Counted cfg s) (hl : Linked s) (hmem : .cache id ∈ s.stats.statsList)
    {c : Nat} {chunks free : List Nat} (hc : c < cfg.numClasses)
    (hlen : chunks.length + free.length = ((s.caches id).chunks c).length + (s.freeBlocks c).length) :
    Counted cfg { s.setCache id ((s.caches id).setChunks c chunks) with
      freeBlocks := Function.update s.freeBlocks c free } := by
  have htotal := total_setCache hl.nodup hmem ((s.caches id).setChunks c chunks)
  have hcached := @cachedBytes_setCache _ _ cfg s id hl.nodup hmem ((s.caches id).setChunks c chunks)
  have hbytes := bytes_update hc (s.caches id).chunks chunks
  have hfree := bytes_update hc s.freeBlocks free
  have hmul := congrArg (cfg.classSize c * ·) hlen
  simp only [Nat.mul_add] at hmul
  generalize hs' : { s.setCache id ((s.caches id).setChunks c chunks) with
    freeBlocks := Function.update s.freeBlocks c free } = s'
  have hsame (i : StatType) : s'.total i = s.total i := by
    rw [← hs']
    exact (total_congr rfl rfl rfl i).trans (add_right_cancel (htotal i))
  have hout : s'.handedOut cfg = s.handedOut cfg := by rw [← hs']; rfl
  have hcommitted : s'.committed = s.committed := by rw [← hs']; rfl
  have hcarved : s'.carved cfg = s.carved cfg := by rw [← hs']; rfl
  refine ⟨?_, ?_, ?_⟩
  · rw [hsame, hout, hcommitted]
    exact h.allocated
  · rw [hsame, hout, hcarved]
    exact h.free
  · have hsum := h.carved
    have hrest : s'.allocatedUser = s.allocatedUser ∧
        s'.freeBlocks = Function.update s.freeBlocks c free ∧
        s'.cachedBytes cfg = (s.setCache id ((s.caches id).setChunks c chunks)).cachedBytes cfg := by
      rw [← hs']
      exact ⟨rfl, rfl, cachedBytes_congr rfl rfl⟩
    rw [hcarved, hout, hrest.1, hrest.2.1, hrest.2.2]
    rw [show ((s.caches id).setChunks c chunks).chunks = Function.update (s.caches id).chunks c chunks
      from rfl] at hcached
    omega

/-- There is nothing to drain. -/
theorem drain_empty {c : Nat} (h : (s.caches id).chunks c = []) : s.drain cfg id c = s := by
  have hchunks : (s.caches id).setChunks c [] = s.caches id := by
    rw [LocalCache.setChunks, ← h, Function.update_eq_self]
  simp only [System.drain, h, List.drop_nil, List.take_nil, List.nil_append, hchunks, System.setCache,
    Function.update_eq_self]

theorem Counted.drain (h : Counted cfg s) (hl : Linked s) (hd : s.Drainable id) {c : Nat}
    (hc : c < cfg.numClasses) : Counted cfg (s.drain cfg id c) := by
  rcases hl.of_drainable hd with hmem | hempty
  · refine h.moved hl hmem hc ?_
    rw [List.length_append, List.length_drop, List.length_take]
    omega
  · rw [drain_empty (hempty c)]
    exact h

theorem Counted.populate (h : Counted cfg s) (hl : Linked s) (hmem : .cache id ∈ s.stats.statsList)
    {c : Nat} (hc : c < cfg.numClasses) (blocks : List Nat) (mapSize : Nat) :
    Counted cfg (s.populate cfg id c blocks mapSize) := by
  let user := cfg.getSizeByClassId c * blocks.length
  have htotal := total_setCache hl.nodup hmem ((s.caches id).addPopulated mapSize user)
  have hcached : (s.setCache id ((s.caches id).addPopulated mapSize user)).cachedBytes cfg =
      s.cachedBytes cfg :=
    Nat.add_right_cancel (@cachedBytes_setCache _ _ cfg s id hl.nodup hmem _)
  have hbytes := bytes_update hc s.freeBlocks (s.freeBlocks c ++ blocks)
  generalize hs' : s.populate cfg id c blocks mapSize = s'
  have hsame (i : StatType) : s'.total i =
      (s.setCache id ((s.caches id).addPopulated mapSize user)).total i := by
    rw [← hs']
    exact total_congr rfl rfl rfl i
  have hout : s'.handedOut cfg = s.handedOut cfg := by rw [← hs']; rfl
  have hcommitted : s'.committed = s.committed := by rw [← hs']; rfl
  have hallocated : s'.allocatedUser =
      Function.update s.allocatedUser c (s.allocatedUser c + user) := by rw [← hs']; rfl
  have hfree : s'.freeBlocks = Function.update s.freeBlocks c (s.freeBlocks c ++ blocks) := by
    rw [← hs']; rfl
  have hcached' : s'.cachedBytes cfg =
      (s.setCache id ((s.caches id).addPopulated mapSize user)).cachedBytes cfg := by
    rw [← hs']
    exact cachedBytes_congr rfl rfl
  have hcarved : s'.carved cfg = s.carved cfg + user := by
    have hsum := sum_map_update List.nodup_range (List.mem_range.mpr hc) s.allocatedUser
      (s.allocatedUser c + user)
    rw [System.carved, System.carved, hallocated]
    omega
  refine ⟨?_, ?_, ?_⟩
  · have hsum := htotal .allocated
    rw [addPopulated_allocated] at hsum
    rw [hsame, hout, hcommitted, add_right_cancel hsum]
    exact h.allocated
  · have hsum := h.free
    rw [hsame, hout, hcarved]
    push_cast at hsum ⊢
    linear_combination htotal .free + hsum + addPopulated_free (s.caches id) mapSize user
  · have hsum := h.carved
    rw [hcarved, hout, hallocated, hfree, hcached', hcached]
    rw [List.length_append, Nat.mul_add] at hbytes
    by_cases hbatch : c = batchClassId
    · -- the blocks of the free lists count as free for ever
      have hzero : cfg.classSize batchClassId = 0 := if_pos rfl
      subst hbatch
      rw [hzero] at hbytes
      rw [Function.update_self]
      omega
    · have hsize : cfg.classSize c * blocks.length = user := by rw [CacheConfig.classSize, if_neg hbatch]
      rw [Function.update_of_ne (Ne.symm hbatch)]
      omega

omit [DecidableEq ι] in
/-- Blocks that are handed out to somebody else. -/
theorem Counted.passed (h : Counted cfg s) {live : List Block}
    {quarantine : List (Option (Option ι) × Block)}
    (hout : (live.map fun b => cfg.classSize b.classId).sum +
      (quarantine.map fun q => cfg.classSize q.2.classId).sum = s.handedOut cfg) :
    Counted cfg { s with live, quarantine } := by
  generalize hs' : { s with live, quarantine } = s'
  have hsame (i : StatType) : s'.total i = s.total i := by
    rw [← hs']
    exact total_congr rfl rfl rfl i
  have hout' : s'.handedOut cfg = s.handedOut cfg := by rw [← hs', ← hout, handedOut]
  refine ⟨?_, ?_, ?_⟩
  · rw [hsame, hout', show s'.committed = s.committed by rw [← hs']; rfl]
    exact h.allocated
  · rw [hsame, hout', show s'.carved cfg = s.carved cfg by rw [← hs']; rfl]
    exact h.free
  · rw [hout', show s'.carved cfg = s.carved cfg by rw [← hs']; rfl,
      show s'.cachedBytes cfg = s.cachedBytes cfg by rw [← hs']; exact cachedBytes_congr rfl rfl,
      show s'.allocatedUser = s.allocatedUser by rw [← hs'],
      show s'.freeBlocks = s.freeBlocks by rw [← hs']]
    exact h.carved

theorem Counted.quarantine (h : Counted cfg s) {b : Block} (hb : b ∈ s.live) :
    Counted cfg (s.step cfg (.quarantine id b)) := by
  refine h.passed ?_
  have herase := sum_erase hb fun b => cfg.classSize b.classId
  rw [handedOut, List.map_cons, List.sum_cons, ← herase]
  exact (Nat.add_assoc ..).symm

theorem Counted.drainQuarantine (h : Counted cfg s) :
    Counted cfg (s.step cfg (.drainQuarantine id)) := by
  have hsame : (s.quarantine.map fun q => if q.1 = some id then (none, q.2) else q).map
      (fun q => cfg.classSize q.2.classId) = s.quarantine.map fun q => cfg.classSize q.2.classId := by
    rw [List.map_map]
    apply List.map_congr_left
    intro q _
    rw [Function.comp]
    split <;> rfl
  refine @Counted.passed ι cfg s h s.live _ ?_
  rw [hsame, handedOut]

theorem total_secondary (hl : Linked s) (blocks : List (Nat × Nat)) (x : LocalStats) (i : StatType) :
    total { s with inUseBlocks := blocks, secondaryStats := x } i + s.secondaryStats i =
      s.total i + x i := by
  have hlocal : localStats { s with inUseBlocks := blocks, secondaryStats := x } =
      Function.update s.localStats .secondary x := by
    funext h
    cases h with
    | secondary => rw [Function.update_self]; rfl
    | cache id => rw [Function.update_of_ne (by simp)]; rfl
  rw [total, hlocal]
  exact s.stats.total_update s.localStats i hl.nodup hl.secondary x

/-- The secondary counts what it commits and takes back. -/
theorem Counted.secondary (h : Counted cfg s) (hl : Linked s) {blocks : List (Nat × Nat)}
    {x : LocalStats} {taken given : Nat}
    (hblocks : (blocks.map Prod.fst).sum + given = s.committed + taken)
    (halloc : (x .allocated : ZMod modulus) + given = s.secondaryStats .allocated + taken)
    (hfree : x .free = s.secondaryStats .free) :
    Counted cfg { s with inUseBlocks := blocks, secondaryStats := x } := by
  have htotal := total_secondary hl blocks x
  generalize hs' : { s with inUseBlocks := blocks, secondaryStats := x } = s' at htotal
  have hout : s'.handedOut cfg = s.handedOut cfg := by rw [← hs']; rfl
  have hcommitted : s'.committed + given = s.committed + taken := by rw [← hs', ← hblocks]; rfl
  have hcarved : s'.carved cfg = s.carved cfg := by rw [← hs']; rfl
  refine ⟨?_, ?_, ?_⟩
  · have hsum := h.allocated
    have hcast : ((s'.committed + given : Nat) : ZMod modulus) = (s.committed + taken : Nat) := by
      rw [hcommitted]
    rw [hout]
    push_cast at hsum hcast ⊢
    linear_combination htotal .allocated + hsum + halloc - hcast
  · have hsum := htotal .free
    rw [hfree] at hsum
    rw [hout, hcarved, add_right_cancel hsum]
    exact h.free
  · rw [hout, hcarved,
      show s'.cachedBytes cfg = s.cachedBytes cfg by rw [← hs']; exact cachedBytes_congr rfl rfl,
      show s'.allocatedUser = s.allocatedUser by rw [← hs'],
      show s'.freeBlocks = s.freeBlocks by rw [← hs']]
    exact h.carved

theorem Counted.allocateSecondary (h : Counted cfg s) (hl : Linked s) (commitSize capacity : Nat) :
    Counted cfg (s.step cfg (.allocateSecondary commitSize capacity)) := by
  refine @Counted.secondary ι _ cfg s h hl _ _ commitSize 0 ?_ ?_ ?_
  · rw [List.map_cons, List.sum_cons, committed]
    omega
  · rw [LocalStats.add_of_ne _ _ _ (show StatType.allocated ≠ .mapped by decide), LocalStats.add_self,
      Nat.cast_zero, add_zero]
  · rw [LocalStats.add_of_ne _ _ _ (show StatType.free ≠ .mapped by decide),
      LocalStats.add_of_ne _ _ _ (show StatType.free ≠ .allocated by decide)]

theorem Counted.deallocateSecondary (h : Counted cfg s) (hl : Linked s) {commitSize capacity : Nat}
    (hb : (commitSize, capacity) ∈ s.inUseBlocks) :
    Counted cfg (s.step cfg (.deallocateSecondary commitSize capacity)) := by
  refine @Counted.secondary ι _ cfg s h hl _ _ 0 commitSize ?_ ?_ ?_
  · have herase := sum_erase hb Prod.fst
    rw [committed, Nat.add_zero]
    exact herase
  · rw [LocalStats.sub_of_ne _ _ _ (show StatType.allocated ≠ .mapped by decide), LocalStats.sub_self,
      Nat.cast_zero, add_zero]
  · rw [LocalStats.sub_of_ne _ _ _ (show StatType.free ≠ .mapped by decide),
      LocalStats.sub_of_ne _ _ _ (show StatType.free ≠ .allocated by decide)]

omit [DecidableEq ι] in
theorem bytes_eq_zero {blocks : Nat → List Nat} (h : ∀ c, blocks c = []) : bytes cfg blocks = 0 := by
  rw [bytes, List.sum_eq_zero]
  intro n hn
  obtain ⟨c, -, rfl⟩ := List.mem_map.mp hn
  rw [h c, List.length_nil, Nat.mul_zero]

omit [DecidableEq ι] in
/-- A change of who is linked that leaves the sums as they are. -/
theorem Counted.relinked (h : Counted cfg s) {g : GlobalStats (Holder ι)} {state : ι → InitState}
    (htotal : ∀ i, g.total s.localStats i = s.total i)
    (hcached : (g.statsList.map fun h => bytes cfg (s.chunksOf h)).sum = s.cachedBytes cfg) :
    Counted cfg { s with initState := state, stats := g } := by
  generalize hs' : { s with initState := state, stats := g } = s'
  have hlocal : s'.localStats = s.localStats := by
    funext h
    rw [← hs']
    cases h <;> rfl
  have hchunks : s'.chunksOf = s.chunksOf := by
    funext h
    rw [← hs']
    cases h <;> rfl
  have hsame (i : StatType) : s'.total i = s.total i := by
    rw [total, hlocal, show s'.stats = g by rw [← hs'], htotal]
  have hcached' : s'.cachedBytes cfg = s.cachedBytes cfg := by
    rw [cachedBytes, hchunks, show s'.stats = g by rw [← hs'], hcached]
  have hout : s'.handedOut cfg = s.handedOut cfg := by rw [← hs']; rfl
  have hcarved : s'.carved cfg = s.carved cfg := by rw [← hs']; rfl
  refine ⟨?_, ?_, ?_⟩
  · rw [hsame, hout, show s'.committed = s.committed by rw [← hs']; rfl]
    exact h.allocated
  · rw [hsame, hout, hcarved]
    exact h.free
  · rw [hout, hcarved, hcached', show s'.allocatedUser = s.allocatedUser by rw [← hs'],
      show s'.freeBlocks = s.freeBlocks by rw [← hs']]
    exact h.carved

theorem Counted.initThread (h : Counted cfg s) (hl : Linked s) {t : ι}
    (ht : s.initState t = .notInitialized) : Counted cfg (s.step cfg (.initThread t)) := by
  refine h.relinked ?_ ?_
  · intro i
    have hzero : s.localStats (.cache (some t)) i = 0 := hl.unused t ht i
    rw [GlobalStats.total_link, hzero, Nat.cast_zero, add_zero]
    rfl
  · have hempty := @bytes_eq_zero cfg _ (hl.empty t (by rw [ht]; decide))
    rw [GlobalStats.link, List.map_append, List.sum_append, List.map_singleton, List.sum_singleton,
      show bytes cfg (s.chunksOf (.cache (some t))) = 0 from hempty, Nat.add_zero]
    rfl

theorem Counted.teardownThread (h : Counted cfg s) (hl : Linked s) {t : ι}
    (ht : s.initState t = .initialized) (hempty : ∀ c, (s.caches (some t)).chunks c = []) :
    Counted cfg (s.step cfg (.teardownThread t)) := by
  have hmem := (hl.linked t).mpr ht
  refine h.relinked ?_ ?_
  · intro i
    exact s.stats.total_unlink s.localStats i hmem
  · have hsum := sum_erase hmem fun h => bytes cfg (s.chunksOf h)
    have hzero : bytes cfg (s.chunksOf (.cache (some t))) = 0 := bytes_eq_zero hempty
    rw [hzero, Nat.add_zero] at hsum
    exact hsum

end ScudoMte.Stats.System
