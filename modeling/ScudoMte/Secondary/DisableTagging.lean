import ScudoMte.Secondary.ListSafety

namespace ScudoMte.Secondary

open Slots

variable {cfg : Config}

/-- The mapping that a thread brings along is accessible, unless `store` protects it. -/
def Call.Ready (noAccess : MemMap → Bool) : Call → Prop
  | .cacheable _ e => noAccess e.memMap = false
  | .storing opts _ e => opts.useMemoryTagging = false → noAccess e.memMap = false
  | _ => True

theorem Call.Ready.mono {noAccess noAccess' : MemMap → Bool} {call : Call}
    (h : call.Ready noAccess)
    (hle : ∀ map ∈ call.held, noAccess map = false → noAccess' map = false) :
    call.Ready noAccess' := by
  cases call with
  | cacheable opts e => exact hle _ (List.mem_singleton.mpr rfl) h
  | storing opts interval e => exact fun ho => hle _ (List.mem_singleton.mpr rfl) (h ho)
  | _ => trivial

namespace System

variable {ι : Type*} [DecidableEq ι] [Fintype ι]

/-- Every mapping that is cached or in the cache quarantine is accessible. -/
def CachedAccessible (cfg : Config) (s : System ι) : Prop :=
  ∀ map ∈ cacheMaps cfg s.cache, s.noAccess map = false

/-- A thread that stores once the sweep has run holds options with tagging off. -/
def UntaggedAfterSweep (s : System ι) : CacheAct ι → Prop
  | .store t _ => s.phase ≠ .before → ∀ opts interval e, s.calls t = .storing opts interval e →
      opts.useMemoryTagging = false
  | _ => True

/-- What carries the accessibility of cached mappings from step to step. -/
structure TaggingInv (cfg : Config) (s : System ι) : Prop where
  partitioned : Partitioned cfg s.cache
  valid : ∀ t, (s.calls t).Valid
  nodup : (∑ t, ((s.calls t).held : Multiset MemMap) + cacheMaps cfg s.cache).Nodup
  ready : ∀ t, (s.calls t).Ready s.noAccess
  accessible : s.phase ≠ .before → s.CachedAccessible cfg

theorem held_setCall (s : System ι) (t : ι) (call : Call) :
    ∑ u, (((s.setCall t call).calls u).held : Multiset MemMap) =
      call.held + ∑ u ∈ Finset.univ.erase t, ((s.calls u).held : Multiset MemMap) :=
  sum_update (fun x : Call => (x.held : Multiset MemMap)) s.calls t call

theorem held_split (s : System ι) (t : ι) :
    ∑ u, ((s.calls u).held : Multiset MemMap) = (s.calls t).held +
      ∑ u ∈ Finset.univ.erase t, ((s.calls u).held : Multiset MemMap) :=
  sum_split (fun x : Call => (x.held : Multiset MemMap)) s.calls t

section Invariant

variable {s : System ι}

omit [DecidableEq ι] in
theorem TaggingInv.not_cached (h : TaggingInv cfg s) {t : ι} {map : MemMap}
    (ht : map ∈ (s.calls t).held) : map ∉ cacheMaps cfg s.cache := by
  have hsum : map ∈ ∑ u, ((s.calls u).held : Multiset MemMap) :=
    Multiset.mem_sum.mpr ⟨t, Finset.mem_univ t, ht⟩
  exact Multiset.disjoint_left.mp (Multiset.nodup_add.mp h.nodup).2.2 hsum

theorem TaggingInv.held_ne (h : TaggingInv cfg s) {t u : ι} {map : MemMap}
    (ht : map ∈ (s.calls t).held) (hu : u ≠ t) : map ∉ (s.calls u).held := by
  intro hmem
  have hn := (Multiset.nodup_add.mp h.nodup).1
  rw [held_split s t] at hn
  have hother : map ∈ ∑ u ∈ Finset.univ.erase t, ((s.calls u).held : Multiset MemMap) :=
    Multiset.mem_sum.mpr ⟨u, Finset.mem_erase.mpr ⟨hu, Finset.mem_univ u⟩, hmem⟩
  exact Multiset.disjoint_left.mp (Multiset.nodup_add.mp hn).2.2 ht hother

omit [DecidableEq ι] in
/-- The cache lets go of mappings, and no mapping is protected. -/
theorem TaggingInv.shrink (h : TaggingInv cfg s) {s' : System ι}
    (hcalls : s'.calls = s.calls)
    (hpart : Partitioned cfg s'.cache) (hle : cacheMaps cfg s'.cache ≤ cacheMaps cfg s.cache)
    (hacc : ∀ map, s.noAccess map = false → s'.noAccess map = false)
    (hsweep : s'.phase ≠ .before → s.phase = .before → s'.CachedAccessible cfg) :
    TaggingInv cfg s' where
  partitioned := hpart
  valid := by
    rw [hcalls]
    exact h.valid
  nodup := by
    rw [hcalls]
    exact Multiset.nodup_of_le (add_le_add_right hle _) h.nodup
  ready := by
    rw [hcalls]
    exact fun t => (h.ready t).mono fun map _ => hacc map
  accessible hp map hmap := by
    by_cases hb : s.phase = .before
    · exact hsweep hp hb map hmap
    · exact hacc map (h.accessible hb map (Multiset.mem_of_le hle hmap))

omit [DecidableEq ι] in
theorem TaggingInv.sameSlots (h : TaggingInv cfg s) {cache : Cache} (hsame : SameSlots s.cache cache)
    (mem : Mem) : TaggingInv cfg { s with cache, mem } := by
  refine h.shrink rfl (hsame.partitioned h.partitioned) ?_ (fun _ => id)
    fun hp hb => absurd hb hp
  rw [cacheMaps, cacheMaps, hsame.lruMaps, hsame.quarantineMaps]

theorem TaggingInv.setCall (h : TaggingInv cfg s) (t : ι) {call : Call}
    (hheld : (call.held : Multiset MemMap) ≤ (s.calls t).held) (hvalid : call.Valid)
    (hready : call.Ready s.noAccess) : TaggingInv cfg (s.setCall t call) where
  partitioned := h.partitioned
  valid := forall_setCall h.valid t hvalid
  nodup := by
    have hn := h.nodup
    rw [held_split s t] at hn
    rw [held_setCall]
    exact Multiset.nodup_of_le (add_le_add_left (add_le_add_left hheld _) _) hn
  ready := forall_setCall (p := Call.Ready s.noAccess) h.ready t hready
  accessible := h.accessible

theorem TaggingInv.idle (h : TaggingInv cfg s) (t : ι) : TaggingInv cfg (s.setCall t .idle) :=
  h.setCall t (Multiset.zero_le _) trivial trivial

theorem TaggingInv.canCache (h : TaggingInv cfg s) {t : ι} {opts : Options} {e : CachedBlock}
    (huse : s.InUse cfg e.commitBase e.memMap) : TaggingInv cfg (s.canCache t opts e) := by
  obtain ⟨hbase, hacc, hlru, hquar, hheld⟩ := huse
  rw [System.canCache]
  split
  · refine ⟨h.partitioned, forall_setCall (p := Call.Valid) h.valid t (decide_eq_true hbase), ?_,
      forall_setCall (p := Call.Ready s.noAccess) h.ready t hacc, h.accessible⟩
    have hn := h.nodup
    rw [held_split s t, add_assoc] at hn
    rw [held_setCall, Call.held, Multiset.coe_singleton, add_assoc, Multiset.singleton_add,
      Multiset.nodup_cons]
    refine ⟨?_, Multiset.nodup_of_le (Multiset.le_add_left _ _) hn⟩
    rw [Multiset.mem_add, Multiset.mem_sum, cacheMaps, Multiset.mem_add]
    rintro (⟨u, -, hu⟩ | hc | hc)
    · exact hheld u hu
    · exact hlru hc
    · exact hquar hc
  · exact h.idle t

theorem TaggingInv.beginStore (h : TaggingInv cfg s) {t : ι} {opts : Options} {e : CachedBlock}
    (ht : s.calls t = .cacheable opts e) : TaggingInv cfg (s.beginStore cfg t opts e) := by
  have hvalid := h.valid t
  have hready := h.ready t
  rw [ht] at hvalid hready
  have hmem : e.memMap ∈ (s.calls t).held := by
    rw [ht]
    exact List.mem_singleton.mpr rfl
  -- the protected mapping is nobody else's
  have hprotect (mem : Mem) (x : CachedBlock) (hx : x.memMap = e.memMap) (hxv : x.isValid)
      (ho : opts.useMemoryTagging) (interval : Int) : TaggingInv cfg
      ({ s with mem, noAccess := Function.update s.noAccess e.memMap true }.setCall t
        (.storing opts interval x)) := by
    refine ⟨h.partitioned, forall_setCall (p := Call.Valid) h.valid t hxv, ?_, ?_, ?_⟩
    · have hn := h.nodup
      rw [held_split s t, ht] at hn
      rw [held_setCall, Call.held, hx]
      exact hn
    · intro u
      by_cases hu : u = t
      · subst hu
        simp only [System.setCall, Function.update_self]
        exact fun hoff => absurd ho (by simp [hoff])
      · simp only [System.setCall]
        rw [Function.update_of_ne hu]
        refine (h.ready u).mono fun map hmap hacc => ?_
        rw [Function.update_of_ne]
        · exact hacc
        · rintro rfl
          exact h.held_ne hmem hu hmap
    · intro hp map hmap
      simp only [System.setCall]
      rw [Function.update_of_ne]
      · exact h.accessible hp map hmap
      · rintro rfl
        exact h.not_cached hmem hmap
  rw [System.beginStore]
  simp only []
  split
  · next ho =>
    split
    · exact hprotect _ { e with time := 0 } rfl hvalid ho _
    · exact hprotect s.mem e rfl hvalid ho _
  · refine h.setCall t ?_ hvalid fun _ => hready
    rw [ht]
    rfl

theorem TaggingInv.store (h : TaggingInv cfg s) {t : ι} {opts : Options} {interval : Int}
    {e : CachedBlock} {clock : Nat} (ht : s.calls t = .storing opts interval e)
    (hok : s.phase ≠ .before → opts.useMemoryTagging = false) :
    TaggingInv cfg (s.store cfg t opts interval e clock) := by
  have hvalid := h.valid t
  have hready := h.ready t
  rw [ht] at hvalid hready
  rcases storeLocked_spec h.partitioned opts clock hvalid with
    ⟨-, -, heq⟩ | ⟨-, r, heq, hp, hun, hret, hmaps⟩
  · rw [System.store, heq]
    exact ⟨h.partitioned, h.valid, h.nodup, h.ready, h.accessible⟩
  · rw [System.store, heq]
    simp only [hun]
    have hnew : (if r.returned then Call.idle else .unlocked r.evicted interval clock).held = [] := by
      split <;> rfl
    have hle : cacheMaps cfg r.cache ≤ cacheMaps cfg s.cache + {e.memMap} := by
      rw [hmaps]
      exact Multiset.le_add_right _ _
    refine ⟨hp, forall_setCall (p := Call.Valid) h.valid t (by split <;> trivial), ?_,
      forall_setCall (p := Call.Ready _) h.ready t (by split <;> trivial), ?_⟩
    · have hn := h.nodup
      rw [held_split s t, ht, Call.held, Multiset.coe_singleton, add_assoc,
        add_comm ({e.memMap} : Multiset MemMap), add_assoc] at hn
      rw [held_setCall, hnew, Multiset.coe_nil, zero_add]
      exact Multiset.nodup_of_le (add_le_add_right hle _) hn
    · intro hphase map hmap
      rcases Multiset.mem_add.mp (Multiset.mem_of_le hle hmap) with hold | hown
      · exact h.accessible hphase map hold
      · rw [Multiset.mem_singleton.mp hown]
        exact hready (hok hphase)

omit [DecidableEq ι] in
theorem TaggingInv.unmap (h : TaggingInv cfg s) (maps : List MemMap) :
    TaggingInv cfg (s.unmap maps) := by
  refine h.shrink rfl h.partitioned le_rfl ?_ fun hp hb => absurd hb hp
  intro map hmap
  simp only [System.unmap]
  split
  · rfl
  · exact hmap

theorem TaggingInv.retrieve (h : TaggingInv cfg s) (t : ι) (opts : Options)
    (size alignment : Nat) : TaggingInv cfg (s.retrieve cfg t opts size alignment) := by
  rw [System.retrieve]
  split
  · exact h.idle t
  · next e pos cache mem hret =>
    obtain ⟨i, hi, rfl, rfl, -, -⟩ := Cache.retrieve_some hret
    have hinv : TaggingInv cfg { s with
        cache := s.cache.remove i
        mem
        returned := s.returned ++ [(s.cache.entries i).memMap]
        noAccess := if opts.useMemoryTagging
          then Function.update s.noAccess (s.cache.entries i).memMap false else s.noAccess } := by
      refine h.shrink rfl (h.partitioned.remove hi) ?_ ?_ fun hp hb => absurd hb hp
      · rw [cacheMaps, cacheMaps, lruMaps_remove h.partitioned hi,
          quarantineMaps_congr (c := s.cache) (show (s.cache.remove i).quarantine =
            s.cache.quarantine from rfl)]
        exact add_le_add_left (Multiset.le_add_right _ _) _
      · intro map hmap
        simp only []
        split
        · rw [Function.update_apply, hmap, ite_self]
        · exact hmap
    exact hinv.idle t

omit [DecidableEq ι] in
theorem TaggingInv.sweep (h : TaggingInv cfg s) : TaggingInv cfg (s.sweep cfg) := by
  obtain ⟨hlru, havail, hlimit, hmaps⟩ := disableMemoryTagging_same cfg s.cache
  have hcache : cacheMaps cfg (s.cache.disableMemoryTagging cfg) = s.cache.lruMaps := by
    rw [cacheMaps, hmaps, quarantineMaps_disabled, Multiset.coe_nil, add_zero]
  refine h.shrink rfl ⟨?_, ?_⟩ ?_ ?_ ?_
  · rw [System.sweep]
    simp only [hlru, havail]
    exact h.partitioned.perm
  · rw [System.sweep]
    simp only [hlimit]
    exact h.partitioned.limit_le
  · rw [System.sweep]
    simp only [hcache]
    exact Multiset.le_add_right _ _
  · intro map hmap
    simp only [System.sweep, System.unmap, hmap, ite_self]
  · intro _ _ map hmap
    rw [System.sweep] at hmap ⊢
    simp only [hcache] at hmap ⊢
    rw [if_pos (Multiset.mem_coe.mp hmap)]

theorem TaggingInv.fired (h : TaggingInv cfg s) {s' : System ι} {act : CacheAct ι}
    (hen : s.Enabled cfg act) (hok : s.UntaggedAfterSweep act) (hfired : Fired cfg s act s') :
    TaggingInv cfg s' := by
  cases hfired with
  | load => exact h.setCall _ (Multiset.zero_le _) trivial trivial
  | canCache => exact h.canCache hen
  | beginStore ht => exact h.beginStore ht
  | store ht => exact h.store ht fun hp => hok hp _ _ _ ht
  | unmapEvicted => exact (h.unmap _).setCall _ (Multiset.zero_le _) trivial trivial
  | release =>
    rw [System.release]
    split
    · exact (h.sameSlots (releaseOlderThan_same cfg _ s.cache s.mem) _).idle _
    · exact h.idle _
  | retrieve => exact h.retrieve _ _ _ _
  | releaseToOS => exact h.sameSlots (releaseOlderThan_same cfg _ s.cache s.mem) _
  | setMaxEntriesCount =>
    rw [Cache.setMaxEntriesCount]
    split
    · exact h
    · exact h.shrink rfl ⟨h.partitioned.perm, Nat.min_le_right _ _⟩ le_rfl (fun _ => id)
        fun hp hb => absurd hb hp
  | setMaxEntrySize =>
    exact h.shrink rfl ⟨h.partitioned.perm, h.partitioned.limit_le⟩ le_rfl (fun _ => id)
      fun hp hb => absurd hb hp
  | setReleaseInterval =>
    exact h.shrink rfl ⟨h.partitioned.perm, h.partitioned.limit_le⟩ le_rfl (fun _ => id)
      fun hp hb => absurd hb hp
  | sweep => exact h.sweep
  | clear hp =>
    exact h.shrink rfl h.partitioned le_rfl (fun _ => id)
      fun _ hb => absurd (hp.symm.trans hb) (by decide)

omit [DecidableEq ι] in
theorem Start.taggingInv (h : Start cfg s) : TaggingInv cfg s := by
  have hinv := h.listInv
  refine ⟨hinv.partitioned, hinv.valid, ?_, ?_, fun hp => absurd h.phase hp⟩
  · rw [h.cacheMaps_eq]
    simp [h.calls, Call.held]
  · intro t
    rw [h.calls t]
    trivial

end Invariant

/-- Tagging is off for good: nothing that is cached is inaccessible, and neither is a mapping that
`tryAllocateFromCache` returns with tagging off. -/
structure TaggingDisabled (cfg : Config) (s : System ι) : Prop where
  cached : s.CachedAccessible cfg
  retrieved : ∀ t opts size alignment map, opts.useMemoryTagging = false →
    (s.retrieve cfg t opts size alignment).returned = s.returned ++ [map] →
    (s.retrieve cfg t opts size alignment).noAccess map = false

/-- Whatever the interleaving of stores and retrieves with `disableMemoryTagging`: as long as no
thread stores after the sweep on options that it loaded with tagging on, no cached mapping stays
inaccessible. -/
theorem taggingDisabled_of_untagged {s : System ι}
    (h : ReachableWith cfg UntaggedAfterSweep s) (hdone : s.phase = .done) :
    TaggingDisabled cfg s := by
  have hinv : TaggingInv cfg s := by
    refine TransitionSystem.Reachable.invariant ?_ ?_ h
    · intro s hs
      exact hs.taggingInv
    · intro s act s' hs hok hstep
      exact hs.fired hok.1 hok.2 (step_fired hstep).2
  have hcached : s.CachedAccessible cfg := hinv.accessible (by rw [hdone]; decide)
  refine ⟨hcached, ?_⟩
  intro t opts size alignment map hoff hret
  rw [System.retrieve] at hret ⊢
  split at hret
  · exact absurd (congrArg List.length hret) (by simp [System.setCall])
  · next e pos cache mem heq =>
    obtain ⟨i, hi, rfl, rfl, -, -⟩ := Cache.retrieve_some heq
    have hmap : (s.cache.entries i).memMap = map :=
      List.singleton_inj.mp (List.append_cancel_left hret)
    simp only [System.setCall, hoff]
    rw [← hmap]
    exact hcached _ (Multiset.mem_add.mpr (.inl (List.mem_map.mpr ⟨i, hi, rfl⟩)))

/-- A thread that frees a block after `disableMemoryTagging`. -/
theorem taggingDisabled_stored : ∃ s : System Bool, s.stored = [freed.memMap] ∧
    TaggingDisabled defaultConfig s := by
  have hclear : ReachableWith defaultConfig UntaggedAfterSweep _ :=
    .next (.next (.start initial_start) (a := .sweep) ⟨trivial, trivial⟩ rfl) (a := .clear)
      ⟨trivial, trivial⟩ rfl
  have hload : ReachableWith defaultConfig UntaggedAfterSweep _ :=
    .next hclear (a := .load false) ⟨trivial, trivial⟩ rfl
  have hcan : ReachableWith defaultConfig UntaggedAfterSweep _ :=
    .next hload (a := .canCache false 0x11000 0x4000 0x11000 ⟨0x10000, 0x6000⟩)
      ⟨⟨by decide, rfl, by decide, by decide, by decide⟩, trivial⟩ rfl
  have hbegin : ReachableWith defaultConfig UntaggedAfterSweep _ :=
    .next hcan (a := .beginStore false) ⟨trivial, trivial⟩ rfl
  refine ⟨_, rfl, taggingDisabled_of_untagged
    (.next hbegin (a := .store false 7) ⟨trivial, ?_⟩ rfl) rfl⟩
  intro _ opts interval e he
  cases he
  rfl

/-- The thread read its options before `disableMemoryTagging` and stores after it. -/
theorem cached_inaccessible : ∃ s : System Bool,
    ReachableWith defaultConfig (fun _ _ => True) s ∧ s.phase = .done ∧
    (∀ t, s.calls t = .idle) ∧ ¬ s.CachedAccessible defaultConfig := by
  have hload : ReachableWith defaultConfig (fun _ _ => True) _ :=
    .next (.start initial_start) (a := .load false) ⟨trivial, trivial⟩ rfl
  have hcan : ReachableWith defaultConfig (fun _ _ => True) _ :=
    .next hload (a := .canCache false 0x11000 0x4000 0x11000 ⟨0x10000, 0x6000⟩)
      ⟨⟨by decide, rfl, by decide, by decide, by decide⟩, trivial⟩ rfl
  have hbegin : ReachableWith defaultConfig (fun _ _ => True) _ :=
    .next hcan (a := .beginStore false) ⟨trivial, trivial⟩ rfl
  have hclear : ReachableWith defaultConfig (fun _ _ => True) _ :=
    .next (.next hbegin (a := .sweep) ⟨trivial, trivial⟩ rfl) (a := .clear) ⟨trivial, trivial⟩ rfl
  have hstore : ReachableWith defaultConfig (fun _ _ => True) _ :=
    .next hclear (a := .store false 7) ⟨trivial, trivial⟩ rfl
  refine ⟨_, .next hstore (a := .release false false) ⟨trivial, trivial⟩ rfl, rfl, ?_, ?_⟩
  · intro t
    cases t <;> rfl
  · intro hacc
    have hfreed := hacc freed.memMap (by decide)
    exact absurd hfreed (by decide)

end System

end ScudoMte.Secondary
