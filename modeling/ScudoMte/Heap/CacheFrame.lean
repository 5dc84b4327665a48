import ScudoMte.Heap.Deallocate

namespace ScudoMte

open Ownership Secondary

variable {cfg : Config}

/-- The pages of a cached mapping. -/
def Secondary.CachedBlock.range (e : CachedBlock) : Range :=
  ⟨e.commitBase, e.commitBase + e.commitSize⟩

/-- No cached mapping has pages in a range. -/
structure Clear (cfg : Config) (c : Cache) (r : Range) : Prop where
  lru : ∀ i ∈ c.lruEntries, (c.entries i).range.Disjoint r
  quarantine : ∀ i < cfg.cacheQuarantineSize, (c.quarantine i).isValid →
    (c.quarantine i).range.Disjoint r

section Clear

variable {c : Cache} {m : Mem} {r : Range}

theorem releaseEntry_sameOn {e : CachedBlock} (he : e.range.Disjoint r) :
    m.SameOn (Cache.releaseEntry m e) r :=
  Mem.AgreeOff.sameOn (r := e.range) (Mem.zeroPages_agreeOff m e.commitBase e.commitSize) he

/-- The pages stay the same while their time changes. -/
theorem Clear.update (hc : Clear cfg c r) (i : Nat) (t : Nat) :
    Clear cfg { c with
      entries := Function.update c.entries i { c.entries i with time := t } } r := by
  refine ⟨?_, hc.quarantine⟩
  intro j hj
  by_cases hij : j = i
  · subst hij
    simp only [Function.update_self]
    exact hc.lru j hj
  · simp only [Function.update_of_ne hij]
    exact hc.lru j hj

theorem releaseQuarantine_clear (t n : Nat) (hn : n ≤ cfg.cacheQuarantineSize)
    (hc : Clear cfg c r) :
    m.SameOn (Cache.releaseQuarantine t n c m).2 r ∧
      Clear cfg (Cache.releaseQuarantine t n c m).1 r ∧
      (Cache.releaseQuarantine t n c m).1.lruEntries = c.lruEntries ∧
      (Cache.releaseQuarantine t n c m).1.oldestPresentEntry = c.oldestPresentEntry := by
  induction n with
  | zero => exact ⟨.refl _ _, hc, rfl, rfl⟩
  | succ n ih =>
    obtain ⟨hsame, hclear, hl, ho⟩ := ih (by omega)
    simp only [Cache.releaseQuarantine]
    generalize Cache.releaseQuarantine t n c m = cm at hsame hclear hl ho ⊢
    obtain ⟨c1, m1⟩ := cm
    simp only at hsame hclear hl ho ⊢
    split
    · exact ⟨hsame, hclear, hl, ho⟩
    · next hv =>
      have hvalid : (c1.quarantine n).isValid = true := by
        by_contra hn
        exact hv (.inl (by simpa using hn))
      have hdis := hclear.quarantine n (by omega) hvalid
      refine ⟨hsame.trans (releaseEntry_sameOn hdis), ⟨hclear.lru, ?_⟩, hl, ho⟩
      intro j hj hjv
      by_cases hjn : j = n
      · subst hjn
        simp only [Function.update_self]
        exact hdis
      · simp only [Function.update_of_ne hjn] at hjv ⊢
        exact hclear.quarantine j hj hjv

theorem releaseFrom_clear (t fuel : Nat) (start : Option Nat)
    (hstart : ∀ i, start = some i → i ∈ c.lruEntries) (hc : Clear cfg c r) :
    m.SameOn (Cache.releaseFrom t fuel start c m).2 r ∧
      Clear cfg (Cache.releaseFrom t fuel start c m).1 r := by
  induction fuel generalizing start c m with
  | zero => exact ⟨.refl _ _, hc.lru, hc.quarantine⟩
  | succ fuel ih =>
    cases start with
    | none => exact ⟨.refl _ _, hc.lru, hc.quarantine⟩
    | some i =>
      simp only [Cache.releaseFrom]
      split
      · exact ⟨.refl _ _, hc.lru, hc.quarantine⟩
      · obtain ⟨hsame, hclear⟩ := ih (c := { c with
            entries := Function.update c.entries i { c.entries i with time := 0 } })
          (m := Cache.releaseEntry m (c.entries i)) (Cache.getPrev c.lruEntries i)
          (fun j hj => getPrev_mem hj) (hc.update i 0)
        exact ⟨(releaseEntry_sameOn (hc.lru i (hstart i rfl))).trans hsame, hclear⟩

theorem releaseOlderThan_clear (t : Nat) (hl : ∀ i, c.oldestPresentEntry = some i → i ∈ c.lruEntries)
    (hc : Clear cfg c r) :
    m.SameOn (c.releaseOlderThan cfg t m).2 r ∧ Clear cfg (c.releaseOlderThan cfg t m).1 r := by
  simp only [Cache.releaseOlderThan]
  split
  · obtain ⟨hsame, hclear, hlru, hold⟩ := @releaseQuarantine_clear cfg c m r t
      cfg.cacheQuarantineSize (le_refl _) hc
    generalize Cache.releaseQuarantine t cfg.cacheQuarantineSize c m = cm at hsame hclear hlru hold ⊢
    obtain ⟨c1, m1⟩ := cm
    simp only at hsame hclear hlru hold ⊢
    obtain ⟨hsame', hclear'⟩ := @releaseFrom_clear cfg c1 m1 r t (c1.lruEntries.length + 1)
      c1.oldestPresentEntry (by rw [hold, hlru]; exact hl) hclear
    exact ⟨hsame.trans hsame', hclear'⟩
  · exact releaseFrom_clear t _ _ hl hc

theorem Clear.remove {i : Nat} (hc : Clear cfg c r) (hn : c.lruEntries.Nodup) :
    Clear cfg (c.remove i) r := by
  refine ⟨?_, hc.quarantine⟩
  intro j hj
  have hne : j ≠ i := by
    rintro rfl
    exact hn.not_mem_erase hj
  simp only [Cache.remove, Function.update_of_ne hne]
  exact hc.lru j (List.mem_of_mem_erase hj)

theorem evict_clear (fuel : Nat) (maps : List MemMap) (hl : Linked c) (hc : Clear cfg c r) :
    Clear cfg (Cache.evict fuel c maps).1 r ∧ Linked (Cache.evict fuel c maps).1 := by
  induction fuel generalizing c maps with
  | zero => exact ⟨hc, hl⟩
  | succ fuel ih =>
    simp only [Cache.evict]
    split
    · next i hi =>
      split
      · exact ih _ (hl.remove (List.mem_of_getLast? hi))
          (hc.remove (List.nodup_append.mp hl.nodup).1)
      · exact ⟨hc, hl⟩
    · exact ⟨hc, hl⟩

theorem insert_clear {e : CachedBlock} (hl : Linked c) (hc : Clear cfg c r)
    (he : e.range.Disjoint r) : Clear cfg (c.insert e) r ∧
      ∀ i, (c.insert e).oldestPresentEntry = some i → i ∈ (c.insert e).lruEntries := by
  simp only [Cache.insert]
  split
  · exact ⟨hc, hl.oldest⟩
  · next i avail hav =>
    refine ⟨⟨?_, hc.quarantine⟩, ?_⟩
    · intro j hj
      by_cases hji : j = i
      · simp only [hji, Function.update_self]
        exact he
      · simp only [Function.update_of_ne hji]
        exact hc.lru j ((List.mem_cons.mp hj).resolve_left hji)
    · intro j hj
      simp only at hj
      split at hj
      · rw [← Option.some.inj hj]
        exact List.mem_cons_self
      · exact List.mem_cons_of_mem _ (hl.oldest j hj)

theorem insertEntry_clear {env : SecondaryEnv} {e : CachedBlock} (hl : Linked c)
    (hc : Clear cfg c r) (he : e.range.Disjoint r) :
    m.SameOn (c.insertEntry cfg env m e).2.1 r := by
  obtain ⟨hc2, hl2⟩ := evict_clear c.lruEntries.length [] hl hc
  obtain ⟨hc3, hold⟩ := insert_clear hl2 hc2 he
  simp only [Cache.insertEntry]
  split
  · exact (releaseOlderThan_clear _ hold hc3).1
  · exact .refl _ _

/-- `store` touches the mapping that it is given and cached ones. -/
theorem store_sameOn (opts : Options) (env : SecondaryEnv) (e : CachedBlock) (hl : Linked c)
    (hc : Clear cfg c r) (he : e.range.Disjoint r) :
    m.SameOn (c.store cfg opts env m e.commitBase e.commitSize e.blockBegin e.memMap).2.1 r := by
  have hmap : m.SameOn (if opts.useMemoryTagging = true ∧ c.releaseToOsIntervalMs = 0 then
      mapSecondary cfg opts m e.commitBase e.commitSize e.commitBase else m) r := by
    split
    · obtain ⟨hag, -⟩ := mapSecondary_spec cfg opts m e.commitBase e.commitSize e.commitBase
        (by omega)
      exact Mem.AgreeOff.sameOn (r := e.range) hag he
    · exact .refl _ _
  simp only [Cache.store]
  generalize (if opts.useMemoryTagging = true ∧ c.releaseToOsIntervalMs = 0 then
    mapSecondary cfg opts m e.commitBase e.commitSize e.commitBase else m) = m1 at hmap ⊢
  split
  · next hq =>
    have hpos : (c.quarantinePos + 1) % 2^32 % max cfg.cacheQuarantineSize 1 <
        cfg.cacheQuarantineSize := by
      have hmod := Nat.mod_lt ((c.quarantinePos + 1) % 2^32)
        (show max cfg.cacheQuarantineSize 1 > 0 by omega)
      omega
    generalize (c.quarantinePos + 1) % 2^32 % max cfg.cacheQuarantineSize 1 = pos at hpos ⊢
    split
    · exact hmap
    · next hprev =>
      refine hmap.trans (insertEntry_clear ⟨hl.nodup, hl.oldest⟩ ⟨hc.lru, ?_⟩
        (hc.quarantine pos hpos (by simpa using hprev)))
      intro j hj hjv
      by_cases hjp : j = pos
      · subst hjp
        simp only [Function.update_self]
        exact he
      · simp only [Function.update_of_ne hjp] at hjv ⊢
        exact hc.quarantine j hj hjv
  · exact hmap.trans (insertEntry_clear hl hc he)

end Clear

/-- What no cached mapping reaches is clear of them. -/
theorem clear_of_cached {tagging : Bool} {m : Mem} {c : Cache} {r : Range}
    (hok : ∀ e ∈ c.cached cfg, e.Ok tagging m)
    (hdis : ∀ e ∈ c.cached cfg, e.memMap.range.Disjoint r) : Clear cfg c r := by
  have hrange {e : CachedBlock} (he : e ∈ c.cached cfg) : e.range.Disjoint r := by
    have hcom := (hok e he).committed
    exact Range.Within.disjoint (s := e.memMap.range) ⟨hcom.base_le, hcom.end_le⟩ (hdis e he)
  refine ⟨fun i hi => hrange (List.mem_append_left _ (List.mem_map_of_mem hi)), ?_⟩
  intro i hi hv
  exact hrange (List.mem_append_right _ (List.mem_filter.mpr
    ⟨List.mem_map_of_mem (List.mem_range.mpr hi), hv⟩))

end ScudoMte
