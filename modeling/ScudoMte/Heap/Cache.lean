import ScudoMte.Library.Slots
import ScudoMte.Heap.Frame

namespace ScudoMte

open Ownership Secondary Slots

variable {cfg : Config} {tagging : Bool}

/-- The valid entries of the cache quarantine. -/
def quarantined (cfg : Config) (c : Cache) : List CachedBlock :=
  ((List.range cfg.cacheQuarantineSize).map c.quarantine).filter (·.isValid)

theorem cached_eq (c : Cache) :
    c.cached cfg = c.lruEntries.map c.entries ++ quarantined cfg c := rfl

/-- An entry of the LRU list, and the other cached mappings. -/
theorem cached_perm_slot {c : Cache} {i : Nat} (hi : i ∈ c.lruEntries) :
    (c.cached cfg).Perm
      (c.entries i :: ((c.lruEntries.erase i).map c.entries ++ quarantined cfg c)) :=
  (map_erase_perm hi c.entries).append_right _

theorem cached_perm_update (cfg : Config) {c : Cache} {i : Nat} (hn : c.lruEntries.Nodup)
    (hi : i ∈ c.lruEntries) (e : CachedBlock) :
    (Cache.cached cfg { c with entries := Function.update c.entries i e }).Perm
      (e :: ((c.lruEntries.erase i).map c.entries ++ quarantined cfg c)) :=
  (map_update_perm hn hi c.entries e).append_right _

/-- The valid entries of the cache quarantine, but for one of its slots. -/
def quarantinedOthers (cfg : Config) (c : Cache) (i : Nat) : List CachedBlock :=
  (((List.range cfg.cacheQuarantineSize).erase i).map c.quarantine).filter (·.isValid)

/-- The entry of one slot of the quarantine, if it is in use. -/
def slotEntry (e : CachedBlock) : List CachedBlock := if e.isValid then [e] else []

theorem quarantined_perm_update (c : Cache) {i : Nat} (hi : i < cfg.cacheQuarantineSize)
    (e : CachedBlock) :
    (quarantined cfg { c with quarantine := Function.update c.quarantine i e }).Perm
      (slotEntry e ++ quarantinedOthers cfg c i) := by
  have hp := (map_update_perm List.nodup_range (List.mem_range.mpr hi) c.quarantine e).filter
    (·.isValid)
  refine hp.trans ?_
  rw [List.filter_cons, slotEntry]
  split <;> exact .refl _

/-- A slot of the quarantine gets a new entry; the rest of the cache stays. -/
theorem cached_perm_quarantine (cfg : Config) (c : Cache) {i : Nat}
    (hi : i < cfg.cacheQuarantineSize) (e : CachedBlock) :
    (Cache.cached cfg { c with quarantine := Function.update c.quarantine i e }).Perm
      (slotEntry e ++ (c.lruEntries.map c.entries ++ quarantinedOthers cfg c i)) := by
  have hp := (quarantined_perm_update c hi e).append_left (c.lruEntries.map c.entries)
  refine hp.trans ?_
  rw [← List.append_assoc, ← List.append_assoc]
  exact List.perm_append_comm.append_right _

theorem cached_perm_quarantine_self (cfg : Config) (c : Cache) {i : Nat}
    (hi : i < cfg.cacheQuarantineSize) :
    (c.cached cfg).Perm (slotEntry (c.quarantine i) ++
      (c.lruEntries.map c.entries ++ quarantinedOthers cfg c i)) := by
  have h := cached_perm_quarantine cfg c hi (c.quarantine i)
  rwa [Function.update_eq_self] at h

/-- Slots that are not in a list do not matter to its entries. -/
theorem map_entries_update {l : List Nat} {i : Nat} (hi : i ∉ l) (c : Cache) (e : CachedBlock) :
    l.map (Function.update c.entries i e) = l.map c.entries :=
  map_update_of_notMem hi _ _

/-- An entry that is removed leaves the cache with the other mappings. -/
theorem cached_remove (cfg : Config) {c : Cache} {i : Nat} (hn : c.lruEntries.Nodup)
    (hi : i ∈ c.lruEntries) :
    (c.cached cfg).Perm (c.entries i :: (c.remove i).cached cfg) := by
  have hs : (c.lruEntries.erase i).map (c.remove i).entries =
      (c.lruEntries.erase i).map c.entries := map_entries_update hn.not_mem_erase c _
  refine (cached_perm_slot hi).trans ?_
  rw [← hs]
  exact .refl _

theorem cached_init (cfg : Config) (count size : Nat) (interval : Int) :
    (Cache.init cfg count size interval).cached cfg = [] := by
  rw [cached_eq, List.append_eq_nil_iff]
  refine ⟨rfl, ?_⟩
  rw [quarantined, List.filter_eq_nil_iff]
  intro e he
  obtain ⟨i, -, rfl⟩ := List.mem_map.mp he
  exact Bool.false_ne_true

theorem linked_init (cfg : Config) (count size : Nat) (interval : Int) :
    Linked (.init cfg count size interval) :=
  ⟨List.nodup_range, nofun⟩

/-- `setOption(MaxCacheEntriesCount)` leaves the entries alone. -/
theorem setMaxEntriesCount_eq (cfg : Config) (c : Cache) (value : Int) :
    ∃ n, c.setMaxEntriesCount cfg value = { c with maxEntriesCount := n } := by
  unfold Cache.setMaxEntriesCount
  split
  · exact ⟨_, rfl⟩
  · exact ⟨_, rfl⟩

/-- Without its quarantine the cache holds no more than before. -/
theorem disableMemoryTagging_cached (c : Cache) :
    ((c.disableMemoryTagging cfg).cached cfg).Sublist (c.cached cfg) := by
  unfold Cache.disableMemoryTagging
  split
  · have hnone : ((List.range cfg.cacheQuarantineSize).map fun i =>
        if i < cfg.cacheQuarantineSize then (c.quarantine i).invalidate else c.quarantine i).filter
        (·.isValid) = [] := by
      rw [List.filter_eq_nil_iff]
      intro e he
      obtain ⟨i, hi, rfl⟩ := List.mem_map.mp he
      rw [if_pos (List.mem_range.mp hi)]
      simp [CachedBlock.invalidate, CachedBlock.isValid]
    simp only [Cache.cached, hnone, List.append_nil]
    exact List.sublist_append_left _ _
  · exact .refl _

theorem cacheOwners_remove (cfg : Config) {c : Cache} {i : Nat} (hn : c.lruEntries.Nodup)
    (hi : i ∈ c.lruEntries) :
    (cacheOwners cfg c).Perm (.cached (c.entries i) :: cacheOwners cfg (c.remove i)) :=
  (cached_remove cfg hn hi).map _

/-! The cache drops entries and gives the pages of others back; what survives that, of the list of its
entries and the memory, survives its operations. -/

structure Closed (P : Mem → List CachedBlock → Prop) : Prop where
  perm : ∀ {m : Mem} {l l' : List CachedBlock}, P m l → l.Perm l' → P m l'
  drop : ∀ {m : Mem} {e : CachedBlock} {l : List CachedBlock}, P m (e::l) → P m l
  release : ∀ {m : Mem} {e : CachedBlock} {l : List CachedBlock}, P m (e::l) →
    P (Cache.releaseEntry m e) ({ e with time := 0 } :: l)

/-- `getPrev` stays in the list. -/
theorem getPrev_mem {l : List Nat} {i j : Nat} (h : Cache.getPrev l i = some j) : j ∈ l := by
  induction l with
  | nil => simp [Cache.getPrev] at h
  | cons a l ih =>
    cases l with
    | nil => simp [Cache.getPrev] at h
    | cons b l =>
      rw [Cache.getPrev] at h
      split at h
      · simp only [Option.some.injEq] at h
        rw [← h]
        exact List.mem_cons_self
      · exact List.mem_cons_of_mem _ (ih h)

theorem getPrev_ne {l : List Nat} {i j : Nat} (hn : l.Nodup) (h : Cache.getPrev l i = some j) :
    j ≠ i := by
  induction l with
  | nil => simp [Cache.getPrev] at h
  | cons a l ih =>
    cases l with
    | nil => simp [Cache.getPrev] at h
    | cons b l =>
      rw [Cache.getPrev] at h
      rw [List.nodup_cons] at hn
      split at h
      · next hb =>
        simp only [Option.some.injEq] at h
        rintro rfl
        exact hn.1 (by rw [h, hb]; exact List.mem_cons_self)
      · exact ih hn.2 h

section Closed

variable {P : Mem → List CachedBlock → Prop} {m : Mem} {c : Cache} {i : Nat}

theorem Closed.releaseQuarantine (hP : Closed P) (t n : Nat) (hn : n ≤ cfg.cacheQuarantineSize)
    (h : P m (c.cached cfg)) :
    P (Cache.releaseQuarantine t n c m).2 ((Cache.releaseQuarantine t n c m).1.cached cfg) ∧
    (Cache.releaseQuarantine t n c m).1.entries = c.entries ∧
    (Cache.releaseQuarantine t n c m).1.lruEntries = c.lruEntries ∧
    (Cache.releaseQuarantine t n c m).1.availEntries = c.availEntries ∧
    (Cache.releaseQuarantine t n c m).1.oldestPresentEntry = c.oldestPresentEntry := by
  induction n with
  | zero => exact ⟨h, rfl, rfl, rfl, rfl⟩
  | succ n ih =>
    obtain ⟨hown, he, hl, ha, ho⟩ := ih (by omega)
    simp only [Cache.releaseQuarantine]
    generalize Cache.releaseQuarantine t n c m = cm at hown he hl ha ho ⊢
    obtain ⟨c1, m1⟩ := cm
    simp only at hown he hl ha ho ⊢
    split
    · exact ⟨hown, he, hl, ha, ho⟩
    · next hv =>
      refine ⟨?_, he, hl, ha, ho⟩
      have hvalid : (c1.quarantine n).isValid = true := by
        by_contra hn
        exact hv (.inl (by simpa using hn))
      have hself := cached_perm_quarantine_self cfg c1 (i := n) (by omega)
      have hnew := cached_perm_quarantine cfg c1 (i := n) (by omega)
        { c1.quarantine n with time := 0 }
      have hvalid' : ({ c1.quarantine n with time := 0 } : CachedBlock).isValid = true := hvalid
      rw [slotEntry, if_pos hvalid] at hself
      rw [slotEntry, if_pos hvalid'] at hnew
      exact hP.perm (hP.release (hP.perm hown hself)) hnew.symm

theorem Closed.releaseFrom (hP : Closed P) (t fuel : Nat) (start : Option Nat)
    (hstart : ∀ i, start = some i → i ∈ c.lruEntries) (hn : c.lruEntries.Nodup)
    (h : P m (c.cached cfg)) :
    P (Cache.releaseFrom t fuel start c m).2 ((Cache.releaseFrom t fuel start c m).1.cached cfg) ∧
    (Cache.releaseFrom t fuel start c m).1.lruEntries = c.lruEntries ∧
    (Cache.releaseFrom t fuel start c m).1.availEntries = c.availEntries ∧
    ∀ i, (Cache.releaseFrom t fuel start c m).1.oldestPresentEntry = some i → i ∈ c.lruEntries := by
  induction fuel generalizing start c m with
  | zero => exact ⟨h, rfl, rfl, by simp [Cache.releaseFrom]⟩
  | succ fuel ih =>
    cases start with
    | none => exact ⟨h, rfl, rfl, by simp [Cache.releaseFrom]⟩
    | some i =>
      have hi := hstart i rfl
      simp only [Cache.releaseFrom]
      split
      · refine ⟨h, rfl, rfl, ?_⟩
        intro j hj
        simp only [Option.some.injEq] at hj
        rwa [← hj]
      · have hnew := cached_perm_update cfg hn hi { c.entries i with time := 0 }
        have hrel := hP.perm (hP.release (hP.perm h (cached_perm_slot hi))) hnew.symm
        exact ih (c := { c with entries := Function.update c.entries i { c.entries i with time := 0 } })
          (Cache.getPrev c.lruEntries i) (fun j hj => getPrev_mem hj) hn hrel

theorem Closed.releaseOlderThan (hP : Closed P) (t : Nat) (hl : Linked c)
    (h : P m (c.cached cfg)) :
    P (c.releaseOlderThan cfg t m).2 ((c.releaseOlderThan cfg t m).1.cached cfg) ∧
    Linked (c.releaseOlderThan cfg t m).1 := by
  have hnl := (List.nodup_append.mp hl.nodup).1
  simp only [Cache.releaseOlderThan]
  split
  · obtain ⟨hown, -, hlru, havail, hold⟩ := hP.releaseQuarantine t cfg.cacheQuarantineSize
      (le_refl _) h
    generalize Cache.releaseQuarantine t cfg.cacheQuarantineSize c m = cm at hown hlru havail hold ⊢
    obtain ⟨c1, m1⟩ := cm
    simp only at hown hlru havail hold ⊢
    obtain ⟨h1, h2, h3, h4⟩ := hP.releaseFrom t (c1.lruEntries.length + 1) c1.oldestPresentEntry
      (by rw [hold, hlru]; exact hl.oldest) (by rw [hlru]; exact hnl) hown
    refine ⟨h1, ?_, ?_⟩
    · rw [h2, h3, hlru, havail]
      exact hl.nodup
    · rw [h2]
      exact h4
  · obtain ⟨h1, h2, h3, h4⟩ := hP.releaseFrom t (c.lruEntries.length + 1) c.oldestPresentEntry
      hl.oldest hnl h
    refine ⟨h1, ?_, ?_⟩
    · rw [h2, h3]
      exact hl.nodup
    · rw [h2]
      exact h4

theorem Linked.remove (hl : Linked c) (hi : i ∈ c.lruEntries) : Linked (c.remove i) := by
  have hn := hl.nodup
  have hnl := (List.nodup_append.mp hn).1
  refine ⟨?_, ?_⟩
  · have hp : (c.lruEntries ++ c.availEntries).Perm
        (c.lruEntries.erase i ++ i :: c.availEntries) :=
      ((List.perm_cons_erase hi).append_right _).trans List.perm_middle.symm
    exact hp.nodup_iff.mp hn
  · intro j hj
    have hmem {j : Nat} (hj : j ∈ c.lruEntries) (hne : j ≠ i) : j ∈ (c.remove i).lruEntries :=
      (List.mem_erase_of_ne hne).mpr hj
    simp only [Cache.remove] at hj
    split at hj
    · exact hmem (getPrev_mem hj) (getPrev_ne hnl hj)
    · next hne =>
      refine hmem (hl.oldest j hj) ?_
      rintro rfl
      exact hne hj

theorem Closed.evict (hP : Closed P) (fuel : Nat) (maps : List MemMap) (hl : Linked c)
    {l : List CachedBlock} (h : P m (l ++ c.cached cfg)) :
    P m (l ++ (Cache.evict fuel c maps).1.cached cfg) ∧ Linked (Cache.evict fuel c maps).1 := by
  induction fuel generalizing c maps with
  | zero => exact ⟨h, hl⟩
  | succ fuel ih =>
    simp only [Cache.evict]
    split
    · next i hi =>
      have hmem := List.mem_of_getLast? hi
      split
      · have hp := cached_remove cfg (List.nodup_append.mp hl.nodup).1 hmem
        exact ih _ (hl.remove hmem)
          (hP.drop (hP.perm h ((hp.append_left l).trans List.perm_middle)))
      · exact ⟨h, hl⟩
    · exact ⟨h, hl⟩

theorem Closed.insert (hP : Closed P) {e : CachedBlock} (hl : Linked c)
    (h : P m (e :: c.cached cfg)) : P m ((c.insert e).cached cfg) ∧ Linked (c.insert e) := by
  simp only [Cache.insert]
  split
  · exact ⟨hP.drop h, hl⟩
  · next i avail hav =>
    have hn := hl.nodup
    rw [hav] at hn
    have hp : (c.lruEntries ++ i :: avail).Perm (i::c.lruEntries ++ avail) := List.perm_middle
    have hn' := hp.nodup_iff.mp hn
    rw [List.cons_append, List.nodup_cons] at hn'
    have hi : i ∉ c.lruEntries := fun hm => hn'.1 (List.mem_append_left _ hm)
    refine ⟨?_, ?_, ?_⟩
    · rw [cached_eq] at h ⊢
      simp only [List.map_cons, map_entries_update hi, Function.update_self]
      exact h
    · exact hp.nodup_iff.mp hn
    · intro j hj
      simp only at hj
      split at hj
      · simp only [Option.some.injEq] at hj
        rw [← hj]
        exact List.mem_cons_self
      · exact List.mem_cons_of_mem _ (hl.oldest j hj)

theorem Closed.insertEntry (hP : Closed P) {env : SecondaryEnv} {e : CachedBlock} (hl : Linked c)
    (h : P m (e :: c.cached cfg)) :
    P (c.insertEntry cfg env m e).2.1 ((c.insertEntry cfg env m e).1.cached cfg) ∧
    Linked (c.insertEntry cfg env m e).1 := by
  obtain ⟨h2, hl2⟩ := @Closed.evict cfg P m c hP c.lruEntries.length [] hl [e] h
  obtain ⟨h3, hl3⟩ := hP.insert hl2 h2
  simp only [Cache.insertEntry]
  split
  · exact hP.releaseOlderThan _ hl3 h3
  · exact ⟨h3, hl3⟩

/-- `store` once the entry is made. -/
theorem Closed.store (hP : Closed P) {opts : Options} (env : SecondaryEnv)
    {commitBase commitSize blockBegin : Nat} {memMap : MemMap} (hl : Linked c)
    (hbase : commitBase ≠ 0)
    (h : P (if opts.useMemoryTagging ∧ c.releaseToOsIntervalMs = 0 then
        mapSecondary cfg opts m commitBase commitSize commitBase else m)
      ({ commitBase, commitSize, blockBegin, memMap, time :=
        if opts.useMemoryTagging ∧ c.releaseToOsIntervalMs = 0 then 0 else env.clock } ::
          c.cached cfg)) :
    P (c.store cfg opts env m commitBase commitSize blockBegin memMap).2.1
      ((c.store cfg opts env m commitBase commitSize blockBegin memMap).1.cached cfg) ∧
    Linked (c.store cfg opts env m commitBase commitSize blockBegin memMap).1 := by
  simp only [Cache.store]
  generalize (if opts.useMemoryTagging = true ∧ c.releaseToOsIntervalMs = 0 then
    mapSecondary cfg opts m commitBase commitSize commitBase else m) = m1 at h ⊢
  generalize hentry : ({ commitBase, commitSize, blockBegin, memMap, time :=
    if opts.useMemoryTagging = true ∧ c.releaseToOsIntervalMs = 0 then 0 else env.clock } :
      CachedBlock) = entry at h ⊢
  have hvalid : entry.isValid = true := by
    rw [← hentry]
    exact decide_eq_true hbase
  split
  · next hq =>
    have hpos : (c.quarantinePos + 1) % 2^32 % max cfg.cacheQuarantineSize 1 <
        cfg.cacheQuarantineSize := by
      have := Nat.mod_lt ((c.quarantinePos + 1) % 2^32)
        (show max cfg.cacheQuarantineSize 1 > 0 by omega)
      omega
    generalize (c.quarantinePos + 1) % 2^32 % max cfg.cacheQuarantineSize 1 = pos at hpos ⊢
    have hself := cached_perm_quarantine_self cfg c hpos
    have hnew := cached_perm_quarantine cfg c hpos entry
    rw [slotEntry, if_pos hvalid] at hnew
    have hl1 : Linked
        { c with quarantinePos := pos, quarantine := Function.update c.quarantine pos entry } :=
      ⟨hl.nodup, hl.oldest⟩
    split
    · next hprev =>
      rw [slotEntry, if_neg (by simpa using hprev)] at hself
      exact ⟨hP.perm h ((hself.cons _).trans hnew.symm), hl1⟩
    · next hprev =>
      rw [slotEntry, if_pos (by simpa using hprev)] at hself
      -- the previous occupant of the slot moves on to the LRU list
      refine hP.insertEntry hl1 (hP.perm h ?_)
      exact ((hself.cons _).trans (List.Perm.swap _ _ _)).trans (hnew.symm.cons _)
  · exact hP.insertEntry hl h

end Closed

section Owners

variable {m : Mem} {c : Cache} {rest : List Owner}

/-- A cached mapping whose pages are given back. -/
theorem Owns.release {e : CachedBlock} (h : Owns cfg tagging m (.cached e :: rest)) :
    Owns cfg tagging (Cache.releaseEntry m e) (.cached { e with time := 0 } :: rest) := by
  have he : e.Ok tagging m := h.ok _ List.mem_cons_self
  exact Owns.update h (releaseEntry_agreeOff he) he.release (.refl _)

theorem owns_closed (cfg : Config) (tagging : Bool) (rest : List Owner) :
    Closed fun m l => Owns cfg tagging m (l.map Owner.cached ++ rest) where
  perm h hp := Owned.perm h ((hp.map _).append_right rest)
  drop h := h.tail
  release h := Owns.release h

theorem releaseOlderThan_owns (t : Nat) (hl : Linked c)
    (h : Owns cfg tagging m (cacheOwners cfg c ++ rest)) :
    Owns cfg tagging (c.releaseOlderThan cfg t m).2
      (cacheOwners cfg (c.releaseOlderThan cfg t m).1 ++ rest) ∧
    Linked (c.releaseOlderThan cfg t m).1 :=
  (owns_closed cfg tagging rest).releaseOlderThan t hl h

/-- The first lines of `store`: with tagging on and no release interval, the pages are mapped
again at once. -/
theorem store_entry_owns (opts : Options) {e : CachedBlock} (released : Prop) [Decidable released]
    (clock : Nat) (htime : e.time = clock) (h : Owns cfg tagging m (.cached e :: rest)) :
    Owns cfg tagging
      (if released then mapSecondary cfg opts m e.commitBase e.commitSize e.commitBase else m)
      (.cached { e with time := if released then 0 else clock } :: rest) := by
  split
  · have he : e.Ok tagging m := h.ok _ List.mem_cons_self
    obtain ⟨hag, hz, ht⟩ := mapSecondary_spec cfg opts m e.commitBase e.commitSize e.commitBase
      (by omega)
    obtain ⟨b, hb, hb16, hlo, hhi, -⟩ := he.layout
    refine Owns.update h (hag.mono he.committed.base_le he.committed.end_le) ?_ (.refl _)
    exact ⟨he.committed, fun _ => hz, b, hb, hb16, hlo, hhi, fun _ => BlockTags.of_zero ht⟩
  · rw [← htime]
    exact h

/-- `store` takes over the mapping of a block that was freed. -/
theorem store_owns {opts : Options} (env : SecondaryEnv) {e : CachedBlock} (hl : Linked c)
    (htime : e.time = env.clock)
    (h : Owns cfg opts.useMemoryTagging m (.cached e :: (cacheOwners cfg c ++ rest))) :
    Owns cfg opts.useMemoryTagging
      (c.store cfg opts env m e.commitBase e.commitSize e.blockBegin e.memMap).2.1
      (cacheOwners cfg
        (c.store cfg opts env m e.commitBase e.commitSize e.blockBegin e.memMap).1 ++ rest) ∧
    Linked (c.store cfg opts env m e.commitBase e.commitSize e.blockBegin e.memMap).1 := by
  have he : e.Ok opts.useMemoryTagging m := h.ok _ List.mem_cons_self
  exact (owns_closed cfg opts.useMemoryTagging rest).store env hl he.committed.pos.ne'
    (store_entry_owns opts (opts.useMemoryTagging ∧ c.releaseToOsIntervalMs = 0) env.clock htime h)

end Owners

end ScudoMte
