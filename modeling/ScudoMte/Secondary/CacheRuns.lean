import ScudoMte.Library.TransitionSystem
import ScudoMte.Secondary.CacheAge

namespace ScudoMte.Secondary

variable {cfg : Config} {c : Cache}

/-- The entry that `store` makes. -/
def Cache.storedEntry (c : Cache) (opts : Options) (clock : Nat)
    (commitBase commitSize blockBegin : Nat) (memMap : MemMap) : CachedBlock :=
  { commitBase, commitSize, blockBegin, memMap,
    time := if opts.useMemoryTagging ∧ c.releaseToOsIntervalMs = 0 then 0 else clock }

/-- The quarantine takes an entry in: the cache, and the entry that goes on to the list. -/
def Cache.throughQuarantine (cfg : Config) (c : Cache) (e : CachedBlock) :
    Cache × Option CachedBlock :=
  if quarantineSlots cfg ≠ 0 then
    (c.swapQuarantine cfg e,
      if (c.quarantine (nextPos cfg c)).isValid then some (c.quarantine (nextPos cfg c)) else none)
  else (c, some e)

/-- The cache once an entry is in the list, before the release at the end of `store`. -/
def Cache.pushed (c : Cache) (e : CachedBlock) : Cache :=
  (evict c.lruEntries.length c []).1.insert e

/-- The threshold of the release at the end of `store`. -/
def Cache.releaseTime (c : Cache) (clock : Nat) : Nat :=
  wrapSub clock (c.releaseToOsIntervalMs.toNat * 1000000)

theorem store_eq (cfg : Config) (opts : Options) (env : SecondaryEnv) (c : Cache) (m : Mem)
    (commitBase commitSize blockBegin : Nat) (memMap : MemMap) :
    c.store cfg opts env m commitBase commitSize blockBegin memMap =
      let m1 := if opts.useMemoryTagging ∧ c.releaseToOsIntervalMs = 0
        then mapSecondary cfg opts m commitBase commitSize commitBase else m
      match c.throughQuarantine cfg
        (c.storedEntry opts env.clock commitBase commitSize blockBegin memMap) with
      | (c1, some e) => c1.insertEntry cfg env m1 e
      | (c1, none) => (c1, m1, []) := by
  let m1 := if opts.useMemoryTagging ∧ c.releaseToOsIntervalMs = 0
    then mapSecondary cfg opts m commitBase commitSize commitBase else m
  let e := c.storedEntry opts env.clock commitBase commitSize blockBegin memMap
  have hstore : c.store cfg opts env m commitBase commitSize blockBegin memMap =
      if !cfg.quarantineDisabled ∧ cfg.cacheQuarantineSize ≠ 0 then
        if !(c.quarantine (nextPos cfg c)).isValid then (c.swapQuarantine cfg e, m1, [])
        else (c.swapQuarantine cfg e).insertEntry cfg env m1 (c.quarantine (nextPos cfg c))
      else c.insertEntry cfg env m1 e := rfl
  have hslots : (!cfg.quarantineDisabled ∧ cfg.cacheQuarantineSize ≠ 0) ↔
      quarantineSlots cfg ≠ 0 := by
    rw [quarantineSlots]
    by_cases hd : cfg.quarantineDisabled <;> simp [hd]
  rw [hstore]
  by_cases hq : quarantineSlots cfg ≠ 0
  · rw [if_pos (hslots.mpr hq), Cache.throughQuarantine, if_pos hq]
    by_cases hv : (c.quarantine (nextPos cfg c)).isValid = true
    · rw [if_pos hv, if_neg (by simp [hv])]
    · rw [if_neg hv, if_pos (by simp [hv])]
  · rw [if_neg (fun h => hq (hslots.mp h)), Cache.throughQuarantine, if_neg hq]

theorem insertEntry_eq (cfg : Config) (env : SecondaryEnv) (c : Cache) (m : Mem)
    (e : CachedBlock) :
    c.insertEntry cfg env m e =
      if c.releaseToOsIntervalMs ≥ 0 ∧ env.tryLock then
        (((c.pushed e).releaseOlderThan cfg (c.releaseTime env.clock) m).1,
          ((c.pushed e).releaseOlderThan cfg (c.releaseTime env.clock) m).2,
          (Cache.evict c.lruEntries.length c []).2)
      else (c.pushed e, m, (Cache.evict c.lruEntries.length c []).2) := rfl

/-- The cache with the memory and the last reading of the clock. -/
structure CacheState where
  cache : Cache
  mem : Mem
  clock : Nat

inductive CacheOp
  | store (opts : Options) (env : SecondaryEnv) (commitBase commitSize blockBegin : Nat)
      (memMap : MemMap)
  | retrieve (maxAllowedFragmentedPages size alignment headersSize : Nat)
  | releaseOlderThan (releaseTime : Nat)
  | releaseToOS
  | setMaxEntriesCount (value : Int)
  | setMaxEntrySize (value : Int)
  | setReleaseInterval (value : Int)
  | disableMemoryTagging

namespace CacheState

def step (cfg : Config) (s : CacheState) : CacheOp → CacheState
  | .store opts env commitBase commitSize blockBegin memMap =>
      let (c, m, _) := s.cache.store cfg opts env s.mem commitBase commitSize blockBegin memMap
      { cache := c, mem := m, clock := env.clock }
  | .retrieve maxAllowedFragmentedPages size alignment headersSize =>
      let (_, c, m) := s.cache.retrieve cfg s.mem maxAllowedFragmentedPages size alignment headersSize
      { s with cache := c, mem := m }
  | .releaseOlderThan releaseTime =>
      let (c, m) := s.cache.releaseOlderThan cfg releaseTime s.mem
      { s with cache := c, mem := m }
  | .releaseToOS =>
      let (c, m) := s.cache.releaseToOS cfg s.mem
      { s with cache := c, mem := m }
  | .setMaxEntriesCount value => { s with cache := s.cache.setMaxEntriesCount cfg value }
  | .setMaxEntrySize value => { s with cache := s.cache.setMaxEntrySize value }
  | .setReleaseInterval value => { s with cache := s.cache.setReleaseInterval value }
  | .disableMemoryTagging => { s with cache := s.cache.disableMemoryTagging cfg }

/-- `store` runs for a block that can be cached, the clock does not go back, and the interval
is an `s32`. -/
def Enabled (s : CacheState) : CacheOp → Prop
  | .store _ env commitBase commitSize _ _ =>
      commitBase ≠ 0 ∧ s.cache.canCache commitSize ∧ s.clock ≤ env.clock ∧ env.clock < 2^64
  | .setReleaseInterval value => -2^31 ≤ value ∧ value < 2^31
  | _ => True

def Init (cfg : Config) (s : CacheState) : Prop :=
  ∃ maxEntriesCount maxEntrySize interval, -2^31 ≤ interval ∧ interval < 2^31 ∧
    s.cache = .init cfg maxEntriesCount maxEntrySize interval

/-- The states reached by operations that also meet a condition. -/
abbrev Reachable (cfg : Config) (ok : CacheState → CacheOp → Prop) : CacheState → Prop :=
  TransitionSystem.Reachable (Init cfg) (fun s a => s.Enabled a ∧ ok s a)
    fun s a s' => s' = s.step cfg a

end CacheState

/-- A slot of the quarantine with pages that are not released. -/
def Waiting (cfg : Config) (c : Cache) (j : Nat) : Prop :=
  j < quarantineSlots cfg ∧ (c.quarantine j).isValid ∧ (c.quarantine j).time ≠ 0

/-- How many stores ago a slot became the next one. -/
def slotAge (cfg : Config) (c : Cache) (j : Nat) : Nat :=
  if nextPos cfg c ≤ j then j - nextPos cfg c else j + quarantineSlots cfg - nextPos cfg c

/-- The list is ordered by age, every slot of the quarantine is younger than it, and the slots are
ordered by the stores that filled them. -/
structure CacheInv (cfg : Config) (clock : Nat) (c : Cache) : Prop where
  partitioned : Partitioned cfg c
  ordered : AgeOrdered c
  valid : ∀ i ∈ c.lruEntries, (c.entries i).isValid
  lru_le : ∀ i ∈ c.lruEntries, (c.entries i).time ≤ clock
  slot_le : ∀ j, Waiting cfg c j → (c.quarantine j).time ≤ clock
  younger : ∀ j, Waiting cfg c j → ∀ i ∈ c.lruEntries,
    (c.entries i).time ≤ (c.quarantine j).time
  ring : ∀ j k, Waiting cfg c j → Waiting cfg c k → slotAge cfg c j ≤ slotAge cfg c k →
    (c.quarantine j).time ≤ (c.quarantine k).time
  clock_pos : c.oldestPresentEntry ≠ none → clock ≠ 0
  interval_lt : c.releaseToOsIntervalMs < 2^31

/-- What is known of an entry on its way to the list. -/
structure Insertable (cfg : Config) (clock : Nat) (c : Cache) (e : CachedBlock) : Prop where
  valid : e.isValid
  le : e.time ≤ clock
  lru_le : e.time ≠ 0 → ∀ i ∈ c.lruEntries, (c.entries i).time ≤ e.time
  slot_ge : ∀ j, Waiting cfg c j → e.time ≤ (c.quarantine j).time

variable {clock : Nat}

theorem CacheInv.nodup (h : CacheInv cfg clock c) : c.lruEntries.Nodup :=
  (List.nodup_append.mp h.partitioned.nodup).1

theorem CacheInv.later (h : CacheInv cfg clock c) {clock' : Nat} (hle : clock ≤ clock') :
    CacheInv cfg clock' c :=
  { h with
    lru_le := fun i hi => (h.lru_le i hi).trans hle
    slot_le := fun j hj => (h.slot_le j hj).trans hle
    clock_pos := fun ho => by
      have := h.clock_pos ho
      omega }

theorem remove_valid {i j : Nat} (hj : j ≠ i) :
    ((c.remove i).entries j).isValid = (c.entries j).isValid := by
  simp only [Cache.remove]
  rw [Function.update_of_ne hj]

theorem CacheInv.remove (h : CacheInv cfg clock c) {i : Nat} (hi : i ∈ c.lruEntries) :
    CacheInv cfg clock (c.remove i) := by
  have hmem {j : Nat} (hj : j ∈ (c.remove i).lruEntries) : j ∈ c.lruEntries :=
    List.mem_of_mem_erase hj
  refine ⟨h.partitioned.remove hi, h.ordered.remove h.nodup i, ?_, ?_, h.slot_le, ?_, h.ring, ?_,
    h.interval_lt⟩
  · intro j hj
    rw [remove_valid]
    · exact h.valid j (hmem hj)
    · rintro rfl
      exact h.nodup.not_mem_erase hj
  · intro j hj
    rw [remove_time]
    exact h.lru_le j (hmem hj)
  · intro j hw k hk
    rw [remove_time]
    exact h.younger j hw k (hmem hk)
  · intro ho
    refine h.clock_pos fun hnone => ho ?_
    simp only [Cache.remove, hnone]
    rfl

theorem Insertable.remove {e : CachedBlock} (h : Insertable cfg clock c e) (i : Nat) :
    Insertable cfg clock (c.remove i) e := by
  refine ⟨h.valid, h.le, ?_, h.slot_ge⟩
  intro hne j hj
  rw [remove_time]
  exact h.lru_le hne j (List.mem_of_mem_erase hj)

/-- What the removal of any entry keeps, the eviction loop keeps. -/
theorem evict_keeps {P : Cache → Prop} (hremove : ∀ c, P c → ∀ i ∈ c.lruEntries, P (c.remove i))
    (fuel : Nat) (c : Cache) (maps : List MemMap) (h : P c) : P (Cache.evict fuel c maps).1 := by
  induction fuel generalizing c maps with
  | zero => exact h
  | succ fuel ih =>
    rw [Cache.evict]
    cases hlast : c.lruEntries.getLast? with
    | none => exact h
    | some i =>
      simp only
      split
      · exact ih _ _ (hremove c h i (List.mem_of_getLast? hlast))
      · exact h

/-- The eviction loop leaves the most recent entries, one less than the limit, with their times. -/
theorem evict_spec (hlimit : c.maxEntriesCount ≠ 0) {fuel : Nat} (hfuel : c.lruEntries.length ≤ fuel)
    (hn : c.lruEntries.Nodup) (maps : List MemMap) :
    (Cache.evict fuel c maps).1.lruEntries = c.lruEntries.take (c.maxEntriesCount - 1) ∧
      (Cache.evict fuel c maps).1.maxEntriesCount = c.maxEntriesCount ∧
      ∀ i, ((Cache.evict fuel c maps).1.entries i).time = (c.entries i).time := by
  induction fuel generalizing c maps with
  | zero =>
    have hnil : c.lruEntries = [] := List.length_eq_zero_iff.mp (by omega)
    exact ⟨by simp [Cache.evict, hnil], rfl, fun _ => rfl⟩
  | succ fuel ih =>
    rw [Cache.evict]
    cases hlast : c.lruEntries.getLast? with
    | none =>
      rw [List.getLast?_eq_none_iff] at hlast
      exact ⟨by simp [hlast], rfl, fun _ => rfl⟩
    | some i =>
      simp only
      split
      · next hge =>
        obtain ⟨l, hl⟩ := List.getLast?_eq_some_iff.mp hlast
        have hil : i ∉ l := by
          rw [hl] at hn
          exact fun hmem => (List.nodup_append.mp hn).2.2 i hmem i List.mem_cons_self rfl
        have herase : (c.remove i).lruEntries = l := by
          change c.lruEntries.erase i = l
          rw [hl, List.erase_append_right _ hil]
          simp
        rw [hl, List.length_append, List.length_singleton] at hge hfuel
        obtain ⟨h1, h2, h3⟩ := @ih (c.remove i) hlimit (by rw [herase]; omega)
          (by rw [herase]; exact (List.nodup_append.mp (hl ▸ hn)).1) (maps ++ [(c.entries i).memMap])
        refine ⟨?_, h2, fun j => (h3 j).trans (remove_time c i j)⟩
        rw [h1, herase, hl]
        change l.take (c.maxEntriesCount - 1) = _
        rw [List.take_append_of_le_length (by omega)]
      · next hlt =>
        have hle : c.lruEntries.length ≤ c.maxEntriesCount - 1 := by omega
        exact ⟨(List.take_of_length_le hle).symm, rfl, fun _ => rfl⟩

/-- The eviction loop keeps what is known, and makes room. -/
theorem CacheInv.evict (h : CacheInv cfg clock c) {e : CachedBlock} (he : Insertable cfg clock c e)
    (hlimit : c.maxEntriesCount ≠ 0) :
    CacheInv cfg clock (Cache.evict c.lruEntries.length c []).1 ∧
      Insertable cfg clock (Cache.evict c.lruEntries.length c []).1 e ∧
      (Cache.evict c.lruEntries.length c []).1.availEntries ≠ [] := by
  have hkeep : CacheInv cfg clock (Cache.evict c.lruEntries.length c []).1 ∧
      Insertable cfg clock (Cache.evict c.lruEntries.length c []).1 e :=
    @evict_keeps (fun c => CacheInv cfg clock c ∧ Insertable cfg clock c e)
      (fun c hc i hi => ⟨hc.1.remove hi, hc.2.remove i⟩) _ c [] ⟨h, he⟩
  refine ⟨hkeep.1, hkeep.2, ?_⟩
  obtain ⟨hlru, hmax, -⟩ := evict_spec hlimit (le_refl _) h.nodup []
  have hlen := hkeep.1.partitioned.length_eq
  have hle := hkeep.1.partitioned.limit_le
  have htake := List.length_take_le (c.maxEntriesCount - 1) c.lruEntries
  intro hnil
  rw [hnil, List.length_nil, hlru] at hlen
  omega

theorem CacheInv.insert (h : CacheInv cfg clock c) {e : CachedBlock} (he : Insertable cfg clock c e)
    (ha : c.availEntries ≠ []) : CacheInv cfg clock (c.insert e) := by
  have hpart := (h.partitioned.insert ha e).1
  obtain ⟨a, rest, havail⟩ := List.exists_cons_of_ne_nil ha
  have hnot : a ∉ c.lruEntries := by
    have hn := h.partitioned.nodup
    rw [havail] at hn
    exact fun hmem => (List.nodup_append.mp hn).2.2 a hmem a List.mem_cons_self rfl
  have hlru : (c.insert e).lruEntries = a::c.lruEntries := by rw [Cache.insert, havail]
  have hquar : (c.insert e).quarantine = c.quarantine := by rw [Cache.insert, havail]
  have hpos : (c.insert e).quarantinePos = c.quarantinePos := by rw [Cache.insert, havail]
  have hint : (c.insert e).releaseToOsIntervalMs = c.releaseToOsIntervalMs := by
    rw [Cache.insert, havail]
  have hentries : (c.insert e).entries = Function.update c.entries a e := by
    rw [Cache.insert, havail]
  have hwait {j : Nat} : Waiting cfg (c.insert e) j ↔ Waiting cfg c j := by
    rw [Waiting, Waiting, hquar]
  have hage (j : Nat) : slotAge cfg (c.insert e) j = slotAge cfg c j := by
    rw [slotAge, slotAge, nextPos, nextPos, hpos]
  refine ⟨hpart, h.ordered.insert havail hnot he.lru_le, ?_, ?_, ?_, ?_, ?_, ?_, ?_⟩
  · rw [hlru, hentries]
    intro j hj
    by_cases hja : j = a
    · rw [hja, Function.update_self]
      exact he.valid
    · rw [Function.update_of_ne hja]
      exact h.valid j ((List.mem_cons.mp hj).resolve_left hja)
  · rw [hlru, hentries]
    intro j hj
    by_cases hja : j = a
    · rw [hja, Function.update_self]
      exact he.le
    · rw [Function.update_of_ne hja]
      exact h.lru_le j ((List.mem_cons.mp hj).resolve_left hja)
  · intro j hj
    rw [hquar]
    exact h.slot_le j (hwait.mp hj)
  · intro k hk
    rw [hlru, hentries, hquar]
    intro j hj
    by_cases hja : j = a
    · rw [hja, Function.update_self]
      exact he.slot_ge k (hwait.mp hk)
    · rw [Function.update_of_ne hja]
      exact h.younger k (hwait.mp hk) j ((List.mem_cons.mp hj).resolve_left hja)
  · intro j k hj hk
    rw [hage, hage, hquar]
    exact h.ring j k (hwait.mp hj) (hwait.mp hk)
  · intro ho
    by_cases hnone : c.oldestPresentEntry = none
    · rw [Cache.insert, havail] at ho
      by_cases ht : e.time = 0
      · simp [hnone, ht] at ho
      · have hle := he.le
        omega
    · exact h.clock_pos hnone
  · rw [hint]
    exact h.interval_lt

theorem CacheInv.release (h : CacheInv cfg clock c) (t : Nat) (m : Mem) :
    CacheInv cfg clock (c.releaseOlderThan cfg t m).1 := by
  obtain ⟨hr, -⟩ := @AgeOrdered.release cfg c h.ordered h.nodup t m
  have hsame := releaseOlderThan_same cfg t c m
  generalize (c.releaseOlderThan cfg t m).1 = c' at hr hsame
  have hlru_le (i : Nat) (hi : i ∈ c.lruEntries) : (c'.entries i).time ≤ (c.entries i).time := by
    rw [hr.time i hi]
    split <;> omega
  -- a slot that still waits has kept its time
  have hwait (j : Nat) (hj : Waiting cfg c' j) :
      Waiting cfg c j ∧ (c'.quarantine j).time = (c.quarantine j).time := by
    obtain ⟨hlt, hv, hne⟩ := hj
    rw [hr.quarantine] at hv hne ⊢
    simp only [Cache.quarantineReleased] at hv hne ⊢
    split at hne
    · exact absurd rfl hne
    · next hd =>
      rw [if_neg hd] at hv ⊢
      exact ⟨⟨hlt, hv, hne⟩, rfl⟩
  have hage (j : Nat) : slotAge cfg c' j = slotAge cfg c j := by
    rw [slotAge, slotAge, nextPos, nextPos, hr.pos]
  refine ⟨hsame.partitioned h.partitioned, hr.ordered, ?_, ?_, ?_, ?_, ?_, ?_, ?_⟩
  · intro i hi
    rw [hr.lru] at hi
    rw [hr.valid]
    exact h.valid i hi
  · intro i hi
    rw [hr.lru] at hi
    exact (hlru_le i hi).trans (h.lru_le i hi)
  · intro j hj
    rw [(hwait j hj).2]
    exact h.slot_le j (hwait j hj).1
  · intro j hj i hi
    rw [hr.lru] at hi
    rw [(hwait j hj).2]
    exact (hlru_le i hi).trans (h.younger j (hwait j hj).1 i hi)
  · intro j k hj hk
    rw [hage, hage, (hwait j hj).2, (hwait k hk).2]
    exact h.ring j k (hwait j hj).1 (hwait k hk).1
  · exact fun ho => h.clock_pos fun hnone => ho (hr.oldest hnone)
  · rw [hr.interval]
    exact h.interval_lt

theorem nextPos_lt (hq : quarantineSlots cfg ≠ 0) : nextPos cfg c < quarantineSlots cfg := by
  rw [quarantineSlots] at hq ⊢
  split at hq
  · exact absurd rfl hq
  · next hd =>
    rw [if_neg hd]
    have hmod := Nat.mod_lt ((c.quarantinePos + 1) % 2^32)
      (show 0 < max cfg.cacheQuarantineSize 1 by omega)
    rw [nextPos]
    omega

theorem nextPos_swapQuarantine (hsize : cfg.cacheQuarantineSize < 2^32)
    (hq : quarantineSlots cfg ≠ 0) (e : CachedBlock) :
    nextPos cfg (c.swapQuarantine cfg e) =
      if nextPos cfg c + 1 = quarantineSlots cfg then 0 else nextPos cfg c + 1 := by
  have hlt := @nextPos_lt cfg c hq
  have hslots : quarantineSlots cfg = cfg.cacheQuarantineSize := by
    rw [quarantineSlots] at hq ⊢
    split at hq
    · exact absurd rfl hq
    · next hd => rw [if_neg hd]
  rw [hslots] at hlt ⊢
  change (nextPos cfg c + 1) % 2^32 % max cfg.cacheQuarantineSize 1 = _
  rw [Nat.mod_eq_of_lt (show nextPos cfg c + 1 < 2^32 by omega),
    show max cfg.cacheQuarantineSize 1 = cfg.cacheQuarantineSize by omega]
  split
  · next heq => rw [heq, Nat.mod_self]
  · rw [Nat.mod_eq_of_lt (by omega)]

/-- A swap makes the slot it fills the youngest, and every other one older by one. -/
theorem slotAge_swapQuarantine (hsize : cfg.cacheQuarantineSize < 2^32)
    (hq : quarantineSlots cfg ≠ 0) (e : CachedBlock) {j : Nat} (hj : j < quarantineSlots cfg) :
    slotAge cfg (c.swapQuarantine cfg e) j + 1 =
      if j = nextPos cfg c then quarantineSlots cfg else slotAge cfg c j := by
  have hlt := @nextPos_lt cfg c hq
  rw [slotAge, nextPos_swapQuarantine hsize hq]
  by_cases hjn : j = nextPos cfg c
  · rw [if_pos hjn]
    split <;> split <;> omega
  · rw [if_neg hjn, slotAge]
    split <;> split <;> split <;> omega

theorem slotAge_lt (hq : quarantineSlots cfg ≠ 0) {j : Nat} (hj : j < quarantineSlots cfg) :
    slotAge cfg c j < quarantineSlots cfg := by
  have hlt := @nextPos_lt cfg c hq
  rw [slotAge]
  split <;> omega

/-- What comes out of the quarantine is no younger than what stays there, and no older than the
list. -/
theorem CacheInv.throughQuarantine (hsize : cfg.cacheQuarantineSize < 2^32)
    (h : CacheInv cfg clock c) {e : CachedBlock} (hv : e.isValid)
    (ht : e.time = 0 ∨ e.time = clock) :
    CacheInv cfg clock (c.throughQuarantine cfg e).1 ∧
      ∀ e', (c.throughQuarantine cfg e).2 = some e' →
        Insertable cfg clock (c.throughQuarantine cfg e).1 e' := by
  have hle : e.time ≤ clock := by omega
  rw [Cache.throughQuarantine]
  by_cases hq : quarantineSlots cfg ≠ 0
  · rw [if_pos hq]
    simp only
    have hlt := @nextPos_lt cfg c hq
    have hnew : (c.swapQuarantine cfg e).quarantine (nextPos cfg c) = e := Function.update_self ..
    have hsame {j : Nat} (hj : j ≠ nextPos cfg c) :
        (c.swapQuarantine cfg e).quarantine j = c.quarantine j := Function.update_of_ne hj ..
    have hwait {j : Nat} (hj : j ≠ nextPos cfg c) :
        Waiting cfg (c.swapQuarantine cfg e) j ↔ Waiting cfg c j := by
      rw [Waiting, Waiting, hsame hj]
    have hclock : Waiting cfg (c.swapQuarantine cfg e) (nextPos cfg c) → e.time = clock := by
      intro hw
      have hne := hw.2.2
      rw [hnew] at hne
      omega
    refine ⟨⟨⟨h.partitioned.perm, h.partitioned.limit_le⟩, ⟨h.ordered.sorted, h.ordered.oldest⟩,
      h.valid, h.lru_le, ?_, ?_, ?_, h.clock_pos, h.interval_lt⟩, ?_⟩
    · intro j hj
      by_cases hjn : j = nextPos cfg c
      · rw [hjn, hnew]
        exact hle
      · rw [hsame hjn]
        exact h.slot_le j ((hwait hjn).mp hj)
    · intro j hj i hi
      by_cases hjn : j = nextPos cfg c
      · subst hjn
        rw [hnew, hclock hj]
        exact h.lru_le i hi
      · rw [hsame hjn]
        exact h.younger j ((hwait hjn).mp hj) i hi
    · intro j k hj hk hage
      have hagej := @slotAge_swapQuarantine cfg c hsize hq e j hj.1
      have hagek := @slotAge_swapQuarantine cfg c hsize hq e k hk.1
      by_cases hkn : k = nextPos cfg c
      · subst hkn
        rw [hnew, hclock hk]
        by_cases hjn : j = nextPos cfg c
        · rw [hjn, hnew]
          exact hle
        · rw [hsame hjn]
          exact h.slot_le j ((hwait hjn).mp hj)
      · have hltk := @slotAge_lt cfg c hq k hk.1
        rw [if_neg hkn] at hagek
        by_cases hjn : j = nextPos cfg c
        · rw [if_pos hjn] at hagej
          omega
        · rw [if_neg hjn] at hagej
          rw [hsame hjn, hsame hkn]
          exact h.ring j k ((hwait hjn).mp hj) ((hwait hkn).mp hk) (by omega)
    · intro e' he'
      split at he'
      · next hprev =>
        rw [← Option.some.inj he']
        have hold (hne : (c.quarantine (nextPos cfg c)).time ≠ 0) :
            Waiting cfg c (nextPos cfg c) := ⟨hlt, hprev, hne⟩
        have hage0 : slotAge cfg c (nextPos cfg c) = 0 := by
          rw [slotAge, if_pos (le_refl _), Nat.sub_self]
        have hprevle : (c.quarantine (nextPos cfg c)).time ≤ clock := by
          by_cases hne : (c.quarantine (nextPos cfg c)).time = 0
          · omega
          · exact h.slot_le _ (hold hne)
        refine ⟨hprev, hprevle, fun hne i hi => h.younger _ (hold hne) i hi, ?_⟩
        intro j hj
        by_cases hne : (c.quarantine (nextPos cfg c)).time = 0
        · omega
        · by_cases hjn : j = nextPos cfg c
          · subst hjn
            rw [hnew, hclock hj]
            exact hprevle
          · rw [hsame hjn]
            exact h.ring _ j (hold hne) ((hwait hjn).mp hj) (by omega)
      · exact absurd he' nofun
  · rw [if_neg hq]
    refine ⟨h, ?_⟩
    rintro _ ⟨⟩
    refine ⟨hv, hle, ?_, fun j hj => ?_⟩
    · intro hne i hi
      rw [show e.time = clock by omega]
      exact h.lru_le i hi
    · have hlt := hj.1
      omega

theorem throughQuarantine_same (cfg : Config) (c : Cache) (e : CachedBlock) :
    (c.throughQuarantine cfg e).1.lruEntries = c.lruEntries ∧
      (c.throughQuarantine cfg e).1.entries = c.entries ∧
      (c.throughQuarantine cfg e).1.oldestPresentEntry = c.oldestPresentEntry ∧
      (c.throughQuarantine cfg e).1.maxEntriesCount = c.maxEntriesCount ∧
      (c.throughQuarantine cfg e).1.releaseToOsIntervalMs = c.releaseToOsIntervalMs := by
  rw [Cache.throughQuarantine]
  split <;> exact ⟨rfl, rfl, rfl, rfl, rfl⟩

theorem CacheInv.pushed (h : CacheInv cfg clock c) {e : CachedBlock} (he : Insertable cfg clock c e)
    (hlimit : c.maxEntriesCount ≠ 0) : CacheInv cfg clock (c.pushed e) := by
  obtain ⟨h1, he1, ha⟩ := h.evict he hlimit
  exact h1.insert he1 ha

theorem storedEntry_time (c : Cache) (opts : Options) (clock commitBase commitSize blockBegin : Nat)
    (memMap : MemMap) :
    (c.storedEntry opts clock commitBase commitSize blockBegin memMap).time = 0 ∨
      (c.storedEntry opts clock commitBase commitSize blockBegin memMap).time = clock := by
  rw [Cache.storedEntry]
  simp only
  split
  · exact .inl rfl
  · exact .inr rfl

theorem storedEntry_isValid (c : Cache) (opts : Options) (clock commitSize blockBegin : Nat)
    (memMap : MemMap) {commitBase : Nat} (h : commitBase ≠ 0) :
    (c.storedEntry opts clock commitBase commitSize blockBegin memMap).isValid := decide_eq_true h

theorem limit_of_canCache {size : Nat} (h : c.canCache size) : c.maxEntriesCount ≠ 0 := by
  rw [Cache.canCache, decide_eq_true_eq] at h
  exact h.1

theorem CacheInv.store (hsize : cfg.cacheQuarantineSize < 2^32) (h : CacheInv cfg clock c)
    (opts : Options) {env : SecondaryEnv} (m : Mem) {commitBase commitSize : Nat} (blockBegin : Nat)
    (memMap : MemMap) (hbase : commitBase ≠ 0) (hcan : c.canCache commitSize)
    (hclock : clock ≤ env.clock) :
    CacheInv cfg env.clock (c.store cfg opts env m commitBase commitSize blockBegin memMap).1 := by
  let e := c.storedEntry opts env.clock commitBase commitSize blockBegin memMap
  obtain ⟨h1, hins⟩ := (h.later hclock).throughQuarantine hsize
    (storedEntry_isValid c opts env.clock commitSize blockBegin memMap hbase)
    (storedEntry_time c opts env.clock commitBase commitSize blockBegin memMap)
  obtain ⟨-, -, -, hmax, -⟩ := throughQuarantine_same cfg c e
  rw [store_eq]
  simp only
  generalize c.throughQuarantine cfg e = p at h1 hins hmax ⊢
  obtain ⟨c1, next⟩ := p
  cases next with
  | none => exact h1
  | some e1 =>
    have h2 := h1.pushed (hins e1 rfl) (by rw [hmax]; exact limit_of_canCache hcan)
    simp only [insertEntry_eq]
    split
    · exact h2.release _ _
    · exact h2

/-- A retrieval removes one entry, or none. -/
theorem retrieve_cache (cfg : Config) (c : Cache) (m : Mem) (maxPages size alignment headersSize : Nat) :
    (c.retrieve cfg m maxPages size alignment headersSize).2.1 = c ∨
      ∃ i ∈ c.lruEntries,
        (c.retrieve cfg m maxPages size alignment headersSize).2.1 = c.remove i := by
  rw [Cache.retrieve]
  split
  · exact .inl rfl
  · next i headerPos hloop =>
    rcases retrieveLoop_spec _ _ _ _ hloop with ⟨hn, -⟩ | ⟨hmem, -⟩
    · exact absurd hn (by simp)
    · exact .inr ⟨i, hmem, rfl⟩

theorem CacheInv.disableMemoryTagging (h : CacheInv cfg clock c) :
    CacheInv cfg clock (c.disableMemoryTagging cfg) := by
  rw [Cache.disableMemoryTagging]
  split
  · next hd =>
    have hnone (j : Nat) : ¬ Waiting cfg { c with
        quarantine := fun i =>
          if i < cfg.cacheQuarantineSize then (c.quarantine i).invalidate else c.quarantine i
        quarantinePos := 2^32-1 } j := by
      rintro ⟨hj, hv, -⟩
      rw [quarantineSlots, if_neg (by simpa using hd)] at hj
      simp [hj, CachedBlock.invalidate, CachedBlock.isValid] at hv
    exact ⟨⟨h.partitioned.perm, h.partitioned.limit_le⟩, ⟨h.ordered.sorted, h.ordered.oldest⟩,
      h.valid, h.lru_le, fun j hj => absurd hj (hnone j), fun j hj => absurd hj (hnone j),
      fun j _ hj => absurd hj (hnone j), h.clock_pos, h.interval_lt⟩
  · exact h

/-- A change of the limits touches no entry. -/
theorem CacheInv.setLimits (h : CacheInv cfg clock c) {count size : Nat} {interval : Int}
    (hcount : count ≤ cfg.entriesArraySize) (hint : interval < 2^31) :
    CacheInv cfg clock { c with
      maxEntriesCount := count, maxEntrySize := size, releaseToOsIntervalMs := interval } :=
  ⟨⟨h.partitioned.perm, hcount⟩, ⟨h.ordered.sorted, h.ordered.oldest⟩, h.valid, h.lru_le,
    h.slot_le, h.younger, h.ring, h.clock_pos, hint⟩

namespace CacheState

theorem inv_init {s : CacheState} (h : Init cfg s) : CacheInv cfg s.clock s.cache := by
  obtain ⟨maxEntriesCount, maxEntrySize, interval, -, hint, hc⟩ := h
  rw [hc]
  have hnone (j : Nat) : ¬ Waiting cfg (.init cfg maxEntriesCount maxEntrySize interval) j :=
    fun hj => absurd hj.2.2 (by simp [Cache.init, CachedBlock.empty])
  refine ⟨⟨?_, Nat.min_le_right _ _⟩, ⟨.nil, [], [], rfl, rfl, fun _ hi => absurd hi List.not_mem_nil⟩,
    fun _ hi => absurd hi List.not_mem_nil, fun _ hi => absurd hi List.not_mem_nil,
    fun j hj => absurd hj (hnone j), fun j hj => absurd hj (hnone j),
    fun j _ hj => absurd hj (hnone j), fun ho => absurd rfl ho, hint⟩
  rw [Cache.init, List.nil_append]

theorem inv_step (hsize : cfg.cacheQuarantineSize < 2^32) {s : CacheState} {a : CacheOp}
    (h : CacheInv cfg s.clock s.cache) (he : s.Enabled a) :
    CacheInv cfg (s.step cfg a).clock (s.step cfg a).cache := by
  cases a with
  | store opts env commitBase commitSize blockBegin memMap =>
    obtain ⟨hbase, hcan, hclock, -⟩ := he
    exact h.store hsize opts s.mem blockBegin memMap hbase hcan hclock
  | retrieve maxPages size alignment headersSize =>
    change CacheInv cfg s.clock (s.cache.retrieve cfg s.mem maxPages size alignment headersSize).2.1
    rcases retrieve_cache cfg s.cache s.mem maxPages size alignment headersSize with hc | ⟨i, hi, hc⟩
    · rw [hc]
      exact h
    · rw [hc]
      exact h.remove hi
  | releaseOlderThan t => exact h.release t s.mem
  | releaseToOS => exact h.release _ s.mem
  | setMaxEntriesCount value =>
    change CacheInv cfg s.clock (s.cache.setMaxEntriesCount cfg value)
    rw [Cache.setMaxEntriesCount]
    split
    · exact h
    · exact h.setLimits (Nat.min_le_right _ _) h.interval_lt
  | setMaxEntrySize value => exact h.setLimits h.partitioned.limit_le h.interval_lt
  | setReleaseInterval value => exact h.setLimits h.partitioned.limit_le he.2
  | disableMemoryTagging => exact h.disableMemoryTagging

theorem Reachable.inv (hsize : cfg.cacheQuarantineSize < 2^32) {ok : CacheState → CacheOp → Prop}
    {s : CacheState} (hr : Reachable cfg ok s) : CacheInv cfg s.clock s.cache := by
  refine @TransitionSystem.Reachable.invariant _ _ _ _ _ (fun s => CacheInv cfg s.clock s.cache)
    (fun s hs => inv_init hs) ?_ s hr
  rintro s a s' hs ho rfl
  exact inv_step hsize hs ho.1

end CacheState

end ScudoMte.Secondary
