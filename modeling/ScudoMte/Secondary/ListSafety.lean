import Mathlib.Algebra.Order.Group.Multiset
import Mathlib.Tactic.Abel
import ScudoMte.Library.Slots
import ScudoMte.Secondary.Geometry
import ScudoMte.Secondary.Concurrent

namespace ScudoMte.Secondary

open Slots

variable {cfg : Config} {c : Cache}

/-- The entry array is divided between the two lists, and the limit is no more than its size. -/
structure Partitioned (cfg : Config) (c : Cache) : Prop where
  perm : (c.lruEntries ++ c.availEntries).Perm (List.range cfg.entriesArraySize)
  limit_le : c.maxEntriesCount ≤ cfg.entriesArraySize

theorem Partitioned.nodup (h : Partitioned cfg c) : (c.lruEntries ++ c.availEntries).Nodup :=
  h.perm.nodup_iff.mpr List.nodup_range

theorem Partitioned.length_eq (h : Partitioned cfg c) :
    c.lruEntries.length + c.availEntries.length = cfg.entriesArraySize := by
  rw [← List.length_append, h.perm.length_eq, List.length_range]

theorem Partitioned.remove (h : Partitioned cfg c) {i : Nat} (hi : i ∈ c.lruEntries) :
    Partitioned cfg (c.remove i) where
  perm := by
    refine List.Perm.trans ?_ h.perm
    rw [Cache.remove]
    exact List.perm_middle.trans ((List.perm_cons_erase hi).symm.append_right _)
  limit_le := h.limit_le

theorem lruMaps_remove (h : Partitioned cfg c) {i : Nat} (hi : i ∈ c.lruEntries) :
    (c.lruMaps : Multiset MemMap) = (c.remove i).lruMaps + {(c.entries i).memMap} := by
  have hn := (List.nodup_append.mp h.nodup).1
  have hsame : (c.remove i).lruMaps = (c.lruEntries.erase i).map fun j => (c.entries j).memMap := by
    apply List.map_congr_left
    intro j hj
    simp only [Cache.remove]
    rw [Function.update_of_ne]
    rintro rfl
    exact hn.not_mem_erase hj
  rw [hsame, ← Multiset.coe_singleton, Multiset.coe_add]
  exact Multiset.coe_eq_coe.mpr
    ((map_erase_perm hi _).trans (List.perm_append_singleton _ _).symm)

theorem Partitioned.insert (h : Partitioned cfg c) (ha : c.availEntries ≠ []) (e : CachedBlock) :
    Partitioned cfg (c.insert e) ∧
      ((c.insert e).lruMaps : Multiset MemMap) = c.lruMaps + {e.memMap} ∧
      (c.insert e).quarantine = c.quarantine := by
  rw [Cache.insert]
  cases havail : c.availEntries with
  | nil => exact absurd havail ha
  | cons i rest =>
    have hn := h.nodup
    rw [havail] at hn
    have hi : i ∉ c.lruEntries := fun hmem =>
      (List.nodup_append.mp hn).2.2 i hmem i List.mem_cons_self rfl
    refine ⟨⟨?_, h.limit_le⟩, ?_, rfl⟩
    · have hp := h.perm
      rw [havail] at hp
      exact List.perm_middle.symm.trans hp
    · have hsame : c.lruEntries.map (fun j => (Function.update c.entries i e j).memMap) =
          c.lruMaps := by
        apply List.map_congr_left
        intro j hj
        rw [Function.update_of_ne]
        rintro rfl
        exact hi hj
      simp only [Cache.lruMaps, List.map_cons, Function.update_self] at hsame ⊢
      rw [hsame, ← Multiset.cons_coe, ← Multiset.singleton_add, add_comm]

theorem quarantineMaps_congr {c' : Cache} (h : c'.quarantine = c.quarantine) :
    c'.quarantineMaps cfg = c.quarantineMaps cfg := by
  rw [Cache.quarantineMaps, Cache.quarantineMaps, h]

/-- With a limit of zero, the eviction loop empties the list and takes the back once more. -/
theorem evictLoop_zero (hlimit : c.maxEntriesCount = 0) (fuel : Nat) (maps : List MemMap) :
    Cache.evictLoop fuel c maps = .error .emptyLruEntries := by
  induction fuel generalizing c maps with
  | zero => rfl
  | succ fuel ih =>
    rw [Cache.evictLoop, if_pos (hlimit ▸ Nat.zero_le _)]
    cases c.lruEntries.getLast? with
    | none => rfl
    | some i => exact ih (c := c.remove i) hlimit _

/-- Under any other limit it stops with room for one more entry. -/
theorem evictLoop_spec (h : Partitioned cfg c) (hlimit : c.maxEntriesCount ≠ 0) (fuel : Nat)
    (maps : List MemMap) (hfuel : c.lruEntries.length < fuel) :
    ∃ c' maps', Cache.evictLoop fuel c maps = .ok (c', maps ++ maps') ∧ Partitioned cfg c' ∧
      c'.lruEntries.length < c'.maxEntriesCount ∧ c'.quarantine = c.quarantine ∧
      (c.lruMaps : Multiset MemMap) = c'.lruMaps + maps' := by
  induction fuel generalizing c maps with
  | zero => exact absurd hfuel (Nat.not_lt_zero _)
  | succ fuel ih =>
    rw [Cache.evictLoop]
    split
    · next hge =>
      cases hlast : c.lruEntries.getLast? with
      | none =>
        rw [List.getLast?_eq_none_iff] at hlast
        rw [hlast, List.length_nil] at hge
        omega
      | some i =>
        have hi := List.mem_of_getLast? hlast
        have hlen : (c.remove i).lruEntries.length < fuel := by
          have he := List.length_erase_of_mem hi
          have hpos := List.length_pos_of_mem hi
          rw [Cache.remove]
          simp only [he]
          omega
        obtain ⟨c', maps', heq, hp, hlt, hq, hm⟩ :=
          ih (h.remove hi) hlimit (maps ++ [(c.entries i).memMap]) hlen
        refine ⟨c', (c.entries i).memMap :: maps', ?_, hp, hlt, hq, ?_⟩
        · simp only []
          rw [heq, List.append_assoc, List.singleton_append]
        · rw [lruMaps_remove h hi, hm, ← Multiset.cons_coe, ← Multiset.singleton_add]
          abel
    · exact ⟨c, [], by rw [List.append_nil], h, by omega, rfl, by simp⟩

theorem evictAndInsert_spec (h : Partitioned cfg c) (hlimit : c.maxEntriesCount ≠ 0)
    (e : CachedBlock) :
    ∃ r, c.evictAndInsert e = .ok r ∧ Partitioned cfg r.cache ∧ r.unmapped = [] ∧
      r.returned = false ∧ r.cache.quarantine = c.quarantine ∧
      (c.lruMaps : Multiset MemMap) + {e.memMap} = r.cache.lruMaps + r.evicted := by
  obtain ⟨c', maps', heq, hp, hlt, hq, hm⟩ :=
    evictLoop_spec h hlimit (c.lruEntries.length + 1) [] (Nat.lt_succ_self _)
  have havail : c'.availEntries ≠ [] := by
    intro hnil
    have hlen := hp.length_eq
    have hle := hp.limit_le
    rw [hnil, List.length_nil] at hlen
    omega
  obtain ⟨hins, hlru, hquar⟩ := hp.insert havail e
  rw [Cache.evictAndInsert, heq]
  simp only [List.nil_append, if_neg havail]
  refine ⟨_, rfl, hins, rfl, rfl, hquar.trans hq, ?_⟩
  rw [hlru, hm]
  abel

/-- The slot that `store` swaps with. -/
def nextPos (cfg : Config) (c : Cache) : Nat :=
  (c.quarantinePos + 1) % 2^32 % max cfg.cacheQuarantineSize 1

/-- The locked part of `store` comes to the eviction loop: there is no quarantine, or its next
slot is taken. -/
def Evicts (cfg : Config) (c : Cache) : Prop :=
  cfg.quarantineDisabled ∨ cfg.cacheQuarantineSize = 0 ∨ (c.quarantine (nextPos cfg c)).isValid

/-- The mappings of both parts of the cache. -/
def cacheMaps (cfg : Config) (c : Cache) : Multiset MemMap := c.lruMaps + c.quarantineMaps cfg

def slotMaps (e : CachedBlock) : Multiset MemMap := if e.isValid then {e.memMap} else 0

/-- A slot of the quarantine gets a new entry. -/
theorem quarantineMaps_update (hq : cfg.quarantineDisabled = false) {pos : Nat}
    (hpos : pos < cfg.cacheQuarantineSize) (e : CachedBlock) (c' : Cache)
    (hc : c'.quarantine = Function.update c.quarantine pos e) :
    (c'.quarantineMaps cfg : Multiset MemMap) + slotMaps (c.quarantine pos) =
      c.quarantineMaps cfg + slotMaps e := by
  have key (f : Nat → CachedBlock) (x : CachedBlock) :
      ((((List.range cfg.cacheQuarantineSize).map (Function.update f pos x)).filter
        (·.isValid)).map (·.memMap) : Multiset MemMap) = slotMaps x +
      (((((List.range cfg.cacheQuarantineSize).erase pos).map f).filter (·.isValid)).map
        (·.memMap) : List MemMap) := by
    have hp := ((map_update_perm List.nodup_range (List.mem_range.mpr hpos) f x).filter
      (·.isValid)).map (·.memMap)
    rw [Multiset.coe_eq_coe.mpr hp, List.filter_cons, slotMaps]
    split
    · rw [List.map_cons, ← Multiset.cons_coe, ← Multiset.singleton_add]
    · rw [zero_add]
  have hold := key c.quarantine (c.quarantine pos)
  rw [Function.update_eq_self] at hold
  rw [Cache.quarantineMaps, Cache.quarantineMaps, hq, hc]
  simp only [Bool.false_eq_true, if_false]
  rw [key c.quarantine e, hold]
  abel

/-- The cache after the swap with the quarantine. -/
def Cache.swapQuarantine (cfg : Config) (c : Cache) (e : CachedBlock) : Cache :=
  { c with
    quarantinePos := nextPos cfg c
    quarantine := Function.update c.quarantine (nextPos cfg c) e }

theorem storeLocked_eq (cfg : Config) (opts : Options) (clock : Nat) (c : Cache)
    (e : CachedBlock) :
    c.storeLocked cfg opts clock e =
      if cfg.quarantineDisabled = false ∧ cfg.cacheQuarantineSize ≠ 0 then
        if !(c.quarantine (nextPos cfg c)).isValid then
          .ok { cache := c.swapQuarantine cfg (if e.time ≠ 0 then { e with time := clock } else e),
                evicted := [], unmapped := [], returned := true }
        else (c.swapQuarantine cfg (if e.time ≠ 0 then { e with time := clock } else e)).evictAndInsert
          (c.quarantine (nextPos cfg c))
      else c.evictAndInsert (if e.time ≠ 0 then { e with time := clock } else e) := by
  rw [Cache.storeLocked]
  simp only [Bool.not_eq_true']
  rw [if_neg (by simp)]
  rfl

/-- What the locked part of `store` does with the mapping: it fails on a limit of zero, where it
comes to the eviction loop, and else the mapping enters the cache. -/
def StoreOutcome (cfg : Config) (opts : Options) (clock : Nat) (c : Cache) (e : CachedBlock) : Prop :=
  (Evicts cfg c ∧ c.maxEntriesCount = 0 ∧
      c.storeLocked cfg opts clock e = .error .emptyLruEntries) ∨
    ((Evicts cfg c → c.maxEntriesCount ≠ 0) ∧
      ∃ r, c.storeLocked cfg opts clock e = .ok r ∧ Partitioned cfg r.cache ∧ r.unmapped = [] ∧
        (r.returned → r.evicted = []) ∧
        cacheMaps cfg c + {e.memMap} = cacheMaps cfg r.cache + r.evicted)

theorem storeLocked_spec (h : Partitioned cfg c) (opts : Options) (clock : Nat) {e : CachedBlock}
    (he : e.isValid) : StoreOutcome cfg opts clock c e := by
  -- the entry with its time, which no list of mappings depends on
  obtain ⟨e1, he1, hmap, htime⟩ : ∃ e1 : CachedBlock, e1.isValid ∧ e1.memMap = e.memMap ∧
      (if e.time ≠ 0 then { e with time := clock } else e) = e1 := by
    refine ⟨_, ?_, ?_, rfl⟩ <;> split
    · exact he
    · exact he
    · rfl
    · rfl
  -- the eviction that follows where the quarantine does not take the entry in
  have hevict (c1 : Cache) (x : CachedBlock) (h1 : Partitioned cfg c1)
      (hl : c1.maxEntriesCount = c.maxEntriesCount) (hev : Evicts cfg c)
      (hmaps : cacheMaps cfg c + {e.memMap} = cacheMaps cfg c1 + {x.memMap})
      (heq : c.storeLocked cfg opts clock e = c1.evictAndInsert x) : StoreOutcome cfg opts clock c e := by
    rcases Nat.eq_zero_or_pos c.maxEntriesCount with hzero | hpos
    · refine .inl ⟨hev, hzero, ?_⟩
      rw [heq, Cache.evictAndInsert, evictLoop_zero (hl.trans hzero)]
    · obtain ⟨r, hr, hp, hun, hret, hq, hm⟩ := evictAndInsert_spec h1 (by omega) x
      refine .inr ⟨fun _ => by omega, r, heq.trans hr, hp, hun,
        fun ht => absurd (hret.symm.trans ht) (by decide), ?_⟩
      rw [hmaps, cacheMaps, cacheMaps, quarantineMaps_congr hq, add_right_comm, hm]
      abel
  have hstep := storeLocked_eq cfg opts clock c e
  rw [htime] at hstep
  split at hstep
  · next hquar =>
    have hpos : nextPos cfg c < cfg.cacheQuarantineSize := by
      have hmod := Nat.mod_lt ((c.quarantinePos + 1) % 2^32)
        (show 0 < max cfg.cacheQuarantineSize 1 by omega)
      rw [nextPos]
      omega
    have hup := quarantineMaps_update hquar.1 hpos e1 (c.swapQuarantine cfg e1) rfl
    rw [show slotMaps e1 = {e1.memMap} from if_pos he1, hmap] at hup
    have hp1 : Partitioned cfg (c.swapQuarantine cfg e1) := ⟨h.perm, h.limit_le⟩
    have hlru : (c.swapQuarantine cfg e1).lruMaps = c.lruMaps := rfl
    split at hstep
    · next hprev =>
      have hold : slotMaps (c.quarantine (nextPos cfg c)) = 0 := if_neg (by simpa using hprev)
      rw [hold, add_zero] at hup
      refine .inr ⟨?_, _, hstep, hp1, rfl, fun _ => rfl, ?_⟩
      · rintro (hd | hz | hv)
        · exact absurd (hquar.1.symm.trans hd) (by decide)
        · exact absurd hz hquar.2
        · exact absurd hv (by simpa using hprev)
      · rw [cacheMaps, cacheMaps, hup, hlru, Multiset.coe_nil]
        abel
    · next hprev =>
      have hv : (c.quarantine (nextPos cfg c)).isValid := by simpa using hprev
      rw [show slotMaps (c.quarantine (nextPos cfg c)) =
        {(c.quarantine (nextPos cfg c)).memMap} from if_pos hv] at hup
      refine hevict _ _ hp1 rfl (.inr (.inr hv)) ?_ hstep
      rw [cacheMaps, cacheMaps, hlru, add_assoc, add_assoc, hup]
  · next hquar =>
    have hev : Evicts cfg c := by
      by_cases hd : cfg.quarantineDisabled
      · exact .inl hd
      · exact .inr (.inl (by
          by_contra hz
          exact hquar ⟨by simpa using hd, hz⟩))
    exact hevict c e1 h rfl hev (by rw [hmap]) hstep

/-- The slots of both caches hold the same mappings. -/
structure SameSlots (c c' : Cache) : Prop where
  lru : c'.lruEntries = c.lruEntries
  avail : c'.availEntries = c.availEntries
  limit : c'.maxEntriesCount = c.maxEntriesCount
  entries : ∀ i, (c'.entries i).memMap = (c.entries i).memMap
  valid : ∀ i, (c'.quarantine i).isValid = (c.quarantine i).isValid
  quarantine : ∀ i, (c'.quarantine i).memMap = (c.quarantine i).memMap

theorem SameSlots.refl (c : Cache) : SameSlots c c :=
  ⟨rfl, rfl, rfl, fun _ => rfl, fun _ => rfl, fun _ => rfl⟩

theorem SameSlots.trans {c1 c2 : Cache} (h1 : SameSlots c c1) (h2 : SameSlots c1 c2) :
    SameSlots c c2 :=
  ⟨h2.lru.trans h1.lru, h2.avail.trans h1.avail, h2.limit.trans h1.limit,
    fun i => (h2.entries i).trans (h1.entries i), fun i => (h2.valid i).trans (h1.valid i),
    fun i => (h2.quarantine i).trans (h1.quarantine i)⟩

theorem SameSlots.partitioned {c' : Cache} (h : SameSlots c c') (hp : Partitioned cfg c) :
    Partitioned cfg c' :=
  ⟨by rw [h.lru, h.avail]; exact hp.perm, by rw [h.limit]; exact hp.limit_le⟩

theorem SameSlots.lruMaps {c' : Cache} (h : SameSlots c c') : c'.lruMaps = c.lruMaps := by
  rw [Cache.lruMaps, Cache.lruMaps, h.lru]
  exact List.map_congr_left fun i _ => h.entries i

theorem SameSlots.quarantineMaps {c' : Cache} (h : SameSlots c c') :
    c'.quarantineMaps cfg = c.quarantineMaps cfg := by
  have key (l : List Nat) : ((l.map c'.quarantine).filter (·.isValid)).map (·.memMap) =
      ((l.map c.quarantine).filter (·.isValid)).map (·.memMap) := by
    induction l with
    | nil => rfl
    | cons i l ih =>
      rw [List.map_cons, List.map_cons, List.filter_cons, List.filter_cons, h.valid i]
      split
      · rw [List.map_cons, List.map_cons, ih, h.quarantine i]
      · exact ih
  rw [Cache.quarantineMaps, Cache.quarantineMaps, key]

/-- A released entry gets another time only. -/
theorem update_time (f : Nat → CachedBlock) (i j : Nat) :
    (Function.update f i { f i with time := 0 } j).memMap = (f j).memMap ∧
      (Function.update f i { f i with time := 0 } j).isValid = (f j).isValid := by
  by_cases hj : j = i
  · subst hj
    rw [Function.update_self]
    exact ⟨rfl, rfl⟩
  · rw [Function.update_of_ne hj]
    exact ⟨rfl, rfl⟩

theorem releaseQuarantine_same (t n : Nat) (c : Cache) (m : Mem) :
    SameSlots c (Cache.releaseQuarantine t n c m).1 := by
  induction n with
  | zero => exact .refl c
  | succ n ih =>
    simp only [Cache.releaseQuarantine]
    generalize Cache.releaseQuarantine t n c m = cm at ih ⊢
    split
    · exact ih
    · exact ih.trans ⟨rfl, rfl, rfl, fun _ => rfl, fun i => (update_time _ n i).2,
        fun i => (update_time _ n i).1⟩

theorem releaseFrom_same (t fuel : Nat) (start : Option Nat) (c : Cache) (m : Mem) :
    SameSlots c (Cache.releaseFrom t fuel start c m).1 := by
  induction fuel generalizing start c m with
  | zero => exact ⟨rfl, rfl, rfl, fun _ => rfl, fun _ => rfl, fun _ => rfl⟩
  | succ fuel ih =>
    cases start with
    | none => exact ⟨rfl, rfl, rfl, fun _ => rfl, fun _ => rfl, fun _ => rfl⟩
    | some i =>
      simp only [Cache.releaseFrom]
      split
      · exact ⟨rfl, rfl, rfl, fun _ => rfl, fun _ => rfl, fun _ => rfl⟩
      · have hstep : SameSlots c { c with
            entries := Function.update c.entries i { c.entries i with time := 0 } } :=
          ⟨rfl, rfl, rfl, fun j => (update_time _ i j).1, fun _ => rfl, fun _ => rfl⟩
        exact hstep.trans (ih _ _ _)

theorem releaseOlderThan_same (cfg : Config) (t : Nat) (c : Cache) (m : Mem) :
    SameSlots c (c.releaseOlderThan cfg t m).1 := by
  simp only [Cache.releaseOlderThan]
  split
  · exact (releaseQuarantine_same t cfg.cacheQuarantineSize c m).trans (releaseFrom_same t _ _ _ _)
  · exact releaseFrom_same t _ _ c m

/-- Disabling memory tagging unmaps the quarantine. -/
theorem quarantineMaps_disabled (cfg : Config) (c : Cache) :
    (c.disableMemoryTagging cfg).quarantineMaps cfg = [] := by
  rw [Cache.quarantineMaps, Cache.disableMemoryTagging]
  split
  · rfl
  · next hq =>
    rw [if_pos (by simpa using hq)]
    rw [List.map_eq_nil_iff, List.filter_eq_nil_iff]
    intro e he
    obtain ⟨i, hi, rfl⟩ := List.mem_map.mp he
    simp [List.mem_range.mp hi, CachedBlock.invalidate, CachedBlock.isValid]

theorem disableMemoryTagging_same (cfg : Config) (c : Cache) :
    (c.disableMemoryTagging cfg).lruEntries = c.lruEntries ∧
      (c.disableMemoryTagging cfg).availEntries = c.availEntries ∧
      (c.disableMemoryTagging cfg).maxEntriesCount = c.maxEntriesCount ∧
      (c.disableMemoryTagging cfg).lruMaps = c.lruMaps := by
  rw [Cache.disableMemoryTagging]
  split <;> exact ⟨rfl, rfl, rfl, rfl⟩

/-- The block that a thread brings along is valid. -/
def Call.Valid : Call → Prop
  | .cacheable _ e => e.isValid
  | .storing _ _ e => e.isValid
  | _ => True

namespace System

variable {ι : Type*} [DecidableEq ι] [Fintype ι]

/-- Every mapping that was stored is in one slot of the cache or its quarantine, was returned to
one retriever, or is unmapped by one thread. -/
def Accounted (cfg : Config) (s : System ι) : Prop :=
  (s.stored : Multiset MemMap) = cacheMaps cfg s.cache + s.returned +
    (s.unmapped + ∑ t, ((s.calls t).evicted : Multiset MemMap))

/-- No null pointer was dereferenced, the entry array is divided between the two lists, and
every stored mapping is accounted for. -/
structure ListSafe (cfg : Config) (s : System ι) : Prop where
  noFault : s.fault = none
  partition : (s.cache.lruEntries ++ s.cache.availEntries).Perm (List.range cfg.entriesArraySize)
  size_le : s.cache.lruEntries.length ≤ cfg.entriesArraySize
  accounted : s.Accounted cfg

/-- A thread that comes to the eviction loop finds the limit above zero. -/
def LimitKept (cfg : Config) (s : System ι) : CacheAct ι → Prop
  | .store _ _ => Evicts cfg s.cache → s.cache.maxEntriesCount ≠ 0
  | _ => True

/-- What carries the safety of the lists from step to step. -/
structure ListInv (cfg : Config) (s : System ι) : Prop where
  noFault : s.fault = none
  partitioned : Partitioned cfg s.cache
  accounted : s.Accounted cfg
  valid : ∀ t, (s.calls t).Valid

omit [DecidableEq ι] in
theorem ListInv.listSafe {s : System ι} (h : ListInv cfg s) : ListSafe cfg s where
  noFault := h.noFault
  partition := h.partitioned.perm
  size_le := by
    have hlen := h.partitioned.length_eq
    omega
  accounted := h.accounted

theorem evicted_setCall (s : System ι) (t : ι) (call : Call) :
    ∑ u, (((s.setCall t call).calls u).evicted : Multiset MemMap) =
      call.evicted + ∑ u ∈ Finset.univ.erase t, ((s.calls u).evicted : Multiset MemMap) :=
  sum_update (fun x : Call => (x.evicted : Multiset MemMap)) s.calls t call

theorem evicted_split (s : System ι) (t : ι) :
    ∑ u, ((s.calls u).evicted : Multiset MemMap) = (s.calls t).evicted +
      ∑ u ∈ Finset.univ.erase t, ((s.calls u).evicted : Multiset MemMap) :=
  sum_split (fun x : Call => (x.evicted : Multiset MemMap)) s.calls t

omit [Fintype ι] in
/-- What holds of all calls and of a new one. -/
theorem forall_setCall {s : System ι} {p : Call → Prop} (h : ∀ u, p (s.calls u)) (t : ι)
    {call : Call} (hcall : p call) (u : ι) : p ((s.setCall t call).calls u) := by
  simp only [setCall, Function.update_apply]
  split
  · exact hcall
  · exact h u

/-- A thread goes on with the same mappings to unmap. -/
theorem ListInv.setCall {s : System ι} (h : ListInv cfg s) (t : ι) {call : Call}
    (hev : call.evicted = (s.calls t).evicted) (hvalid : call.Valid) :
    ListInv cfg (s.setCall t call) where
  noFault := h.noFault
  partitioned := h.partitioned
  accounted := by
    have ha := h.accounted
    rw [Accounted, evicted_split s t] at ha
    rw [Accounted, evicted_setCall, hev]
    exact ha
  valid := forall_setCall h.valid t hvalid

theorem ListInv.idle {s : System ι} (h : ListInv cfg s) (t : ι)
    (hev : (s.calls t).evicted = []) : ListInv cfg (s.setCall t .idle) :=
  h.setCall t hev.symm trivial

omit [DecidableEq ι] in
theorem ListInv.sameSlots {s : System ι} (h : ListInv cfg s) {cache : Cache}
    (hsame : SameSlots s.cache cache) (mem : Mem) : ListInv cfg { s with cache, mem } where
  noFault := h.noFault
  partitioned := hsame.partitioned h.partitioned
  accounted := by
    have ha := h.accounted
    rw [Accounted, cacheMaps] at ha ⊢
    rw [hsame.lruMaps, hsame.quarantineMaps]
    exact ha
  valid := h.valid

theorem ListInv.beginStore {s : System ι} (h : ListInv cfg s) {t : ι} {opts : Options}
    {e : CachedBlock} (ht : s.calls t = .cacheable opts e) :
    ListInv cfg (s.beginStore cfg t opts e) := by
  have hvalid := h.valid t
  rw [ht] at hvalid
  have hev (call : Call) (hcall : call.evicted = []) : call.evicted = (s.calls t).evicted := by
    rw [hcall, ht]
    rfl
  have hinv (mem : Mem) (noAccess : MemMap → Bool) : ListInv cfg { s with mem, noAccess } :=
    ⟨h.noFault, h.partitioned, h.accounted, h.valid⟩
  rw [System.beginStore]
  simp only []
  split
  · split
    · refine ListInv.setCall (hinv _ _) t (hev _ rfl) ?_
      exact hvalid
    · refine ListInv.setCall (hinv s.mem _) t (hev _ rfl) ?_
      exact hvalid
  · exact h.setCall t (hev _ rfl) hvalid

theorem ListInv.store {s : System ι} (h : ListInv cfg s) {t : ι} {opts : Options}
    {interval : Int} {e : CachedBlock} {clock : Nat} (ht : s.calls t = .storing opts interval e)
    (hok : Evicts cfg s.cache → s.cache.maxEntriesCount ≠ 0) :
    ListInv cfg (s.store cfg t opts interval e clock) := by
  have hcall : (s.calls t).evicted = [] := by rw [ht]; rfl
  have hvalid := h.valid t
  rw [ht] at hvalid
  rcases storeLocked_spec h.partitioned opts clock hvalid with
    ⟨hev, hzero, -⟩ | ⟨-, r, heq, hp, hun, hret, hmaps⟩
  · exact absurd hzero (hok hev)
  · rw [System.store, heq]
    have hnew : (if r.returned then Call.idle else .unlocked r.evicted interval clock).evicted =
        r.evicted := by
      split
      · next hr => exact (hret hr).symm
      · rfl
    refine ⟨h.noFault, hp, ?_, forall_setCall (p := Call.Valid) h.valid t ?_⟩
    · have ha := h.accounted
      rw [Accounted, evicted_split s t, hcall] at ha
      rw [Accounted, evicted_setCall, hnew]
      simp only [System.setCall, unmap]
      rw [← Multiset.coe_add, ← Multiset.coe_add, ha, hun, Multiset.coe_nil, Multiset.coe_singleton,
        zero_add, add_zero, add_assoc (cacheMaps cfg s.cache), add_right_comm, hmaps]
      abel
    · split <;> trivial

theorem ListInv.unmapEvicted {s : System ι} (h : ListInv cfg s) {t : ι} {map : MemMap}
    {maps : List MemMap} {interval : Int} {time : Nat}
    (ht : s.calls t = .unlocked (map::maps) interval time) :
    ListInv cfg ((s.unmap [map]).setCall t (.unlocked maps interval time)) := by
  have hcall : (s.calls t).evicted = map::maps := by rw [ht]; rfl
  refine ⟨h.noFault, h.partitioned, ?_, forall_setCall (p := Call.Valid) h.valid t trivial⟩
  have ha := h.accounted
  rw [Accounted, evicted_split s t, hcall] at ha
  rw [Accounted, evicted_setCall]
  simp only [System.setCall, unmap, Call.evicted]
  rw [ha, ← Multiset.coe_add, Multiset.coe_singleton, ← Multiset.cons_coe,
    ← Multiset.singleton_add]
  abel

theorem ListInv.retrieve {s : System ι} (h : ListInv cfg s) {t : ι} {opts : Options}
    (ht : s.calls t = .loaded opts) (size alignment : Nat) :
    ListInv cfg (s.retrieve cfg t opts size alignment) := by
  have hcall : (s.calls t).evicted = [] := by rw [ht]; rfl
  rw [System.retrieve]
  split
  · exact h.idle t hcall
  · next e pos cache mem hret =>
    obtain ⟨i, hi, rfl, rfl, -, -⟩ := Cache.retrieve_some hret
    have hinv : ListInv cfg { s with
        cache := s.cache.remove i
        mem
        returned := s.returned ++ [(s.cache.entries i).memMap]
        noAccess := if opts.useMemoryTagging
          then Function.update s.noAccess (s.cache.entries i).memMap false else s.noAccess } := by
      refine ⟨h.noFault, h.partitioned.remove hi, ?_, h.valid⟩
      have ha := h.accounted
      rw [Accounted, cacheMaps, lruMaps_remove h.partitioned hi] at ha
      rw [Accounted, cacheMaps, ← Multiset.coe_add, Multiset.coe_singleton]
      simp only []
      rw [ha, quarantineMaps_congr (c := s.cache) (show (s.cache.remove i).quarantine =
        s.cache.quarantine from rfl)]
      abel
    exact hinv.idle t hcall

omit [DecidableEq ι] in
theorem ListInv.sweep {s : System ι} (h : ListInv cfg s) : ListInv cfg (s.sweep cfg) := by
  obtain ⟨hlru, havail, hlimit, hmaps⟩ := disableMemoryTagging_same cfg s.cache
  refine ⟨h.noFault, ⟨?_, ?_⟩, ?_, h.valid⟩
  · rw [System.sweep]
    simp only [hlru, havail]
    exact h.partitioned.perm
  · rw [System.sweep]
    simp only [hlimit]
    exact h.partitioned.limit_le
  · have ha := h.accounted
    rw [Accounted, cacheMaps] at ha ⊢
    simp only [System.sweep, unmap]
    rw [hmaps, quarantineMaps_disabled, ha, ← Multiset.coe_add, Multiset.coe_nil]
    abel

theorem ListInv.fired {s s' : System ι} {act : CacheAct ι} (h : ListInv cfg s)
    (hen : s.Enabled cfg act) (hok : LimitKept cfg s act) (hfired : Fired cfg s act s') :
    ListInv cfg s' := by
  cases hfired with
  | load ht => exact h.setCall _ (by rw [ht]; rfl) trivial
  | canCache ht =>
    rw [System.canCache]
    split
    · exact h.setCall _ (by rw [ht]; rfl) (decide_eq_true hen.1)
    · exact h.idle _ (by rw [ht]; rfl)
  | beginStore ht => exact h.beginStore ht
  | store ht => exact h.store ht hok
  | unmapEvicted ht => exact h.unmapEvicted ht
  | release ht =>
    rw [System.release]
    split
    · exact (h.sameSlots (releaseOlderThan_same cfg _ s.cache s.mem) _).idle _ (by
        simp only [ht, Call.evicted])
    · exact h.idle _ (by rw [ht]; rfl)
  | retrieve ht => exact h.retrieve ht _ _
  | releaseToOS => exact h.sameSlots (releaseOlderThan_same cfg _ s.cache s.mem) _
  | setMaxEntriesCount =>
    rw [Cache.setMaxEntriesCount]
    split
    · exact h
    · exact ⟨h.noFault, ⟨h.partitioned.perm, Nat.min_le_right _ _⟩, h.accounted, h.valid⟩
  | setMaxEntrySize =>
    exact ⟨h.noFault, ⟨h.partitioned.perm, h.partitioned.limit_le⟩, h.accounted, h.valid⟩
  | setReleaseInterval =>
    exact ⟨h.noFault, ⟨h.partitioned.perm, h.partitioned.limit_le⟩, h.accounted, h.valid⟩
  | sweep => exact h.sweep
  | clear => exact ⟨h.noFault, h.partitioned, h.accounted, h.valid⟩

omit [DecidableEq ι] [Fintype ι] in
theorem Start.cacheMaps_eq {s : System ι} (h : Start cfg s) : cacheMaps cfg s.cache = 0 := by
  obtain ⟨maxEntriesCount, maxEntrySize, interval, hcache⟩ := h.cache
  have hquar : s.cache.quarantineMaps cfg = [] := by
    rw [Cache.quarantineMaps, hcache]
    split
    · rfl
    · rw [List.map_eq_nil_iff, List.filter_eq_nil_iff]
      intro e he
      obtain ⟨i, -, rfl⟩ := List.mem_map.mp he
      simp [Cache.init, CachedBlock.empty, CachedBlock.isValid]
  have hlru : s.cache.lruMaps = [] := by
    rw [Cache.lruMaps, hcache]
    rfl
  rw [cacheMaps, hquar, hlru]
  rfl

omit [DecidableEq ι] in
theorem Start.listInv {s : System ι} (h : Start cfg s) : ListInv cfg s := by
  obtain ⟨maxEntriesCount, maxEntrySize, interval, hcache⟩ := h.cache
  obtain ⟨hstored, hreturned, hunmapped⟩ := h.history
  refine ⟨h.fault, ⟨?_, ?_⟩, ?_, ?_⟩
  · rw [hcache]
    exact .refl _
  · rw [hcache]
    exact Nat.min_le_right _ _
  · rw [Accounted, h.cacheMaps_eq, hstored, hreturned, hunmapped]
    simp [h.calls, Call.evicted]
  · intro t
    rw [h.calls t]
    trivial

/-- Whatever the interleaving: as long as no thread comes to the eviction loop under a limit of
zero, the lists stay sound and no mapping is lost or duplicated. -/
theorem listSafe_of_limitKept {s : System ι} (h : ReachableWith cfg (LimitKept cfg) s) :
    ListSafe cfg s := by
  have hinv : ListInv cfg s := by
    refine TransitionSystem.Reachable.invariant ?_ ?_ h
    · intro s hs
      exact hs.listInv
    · intro s act s' hs hok hstep
      exact hs.fired hok.1 hok.2 (step_fired hstep).2
  exact hinv.listSafe

/-- The system right after `init`, with room for one entry. -/
def initial : System Bool where
  cache := .init defaultConfig 1 (2^19) 5000
  options := defaultOptions
  mem := .fresh
  noAccess := fun _ => false
  calls := fun _ => .idle
  phase := .before
  fault := none
  stored := []
  returned := []
  unmapped := []

theorem initial_start : Start defaultConfig initial :=
  ⟨⟨1, 2^19, 5000, rfl⟩, fun _ => rfl, rfl, rfl, rfl, rfl, rfl⟩

/-- A mapping that a thread frees. -/
def freed : CachedBlock where
  commitBase := 0x11000
  commitSize := 0x4000
  blockBegin := 0x11000
  memMap := ⟨0x10000, 0x6000⟩
  time := 2^64-1

/-- A thread that has asked `canCache` and protected its mapping. -/
theorem initial_storing : ∃ s : System Bool, s.fault = none ∧
    s.calls false = .storing defaultOptions 5000 freed ∧
    s.cache = .init defaultConfig 1 (2^19) 5000 ∧ s.stored = [] ∧
    ReachableWith defaultConfig (LimitKept defaultConfig) s := by
  have hload : ReachableWith defaultConfig (LimitKept defaultConfig) _ :=
    .next (.start initial_start) (a := .load false) ⟨trivial, trivial⟩ rfl
  have hcan : ReachableWith defaultConfig (LimitKept defaultConfig) _ :=
    .next hload (a := .canCache false 0x11000 0x4000 0x11000 ⟨0x10000, 0x6000⟩)
      ⟨⟨by decide, rfl, by decide, by decide, by decide⟩, trivial⟩ rfl
  exact ⟨_, rfl, rfl, rfl, rfl, .next hcan (a := .beginStore false) ⟨trivial, trivial⟩ rfl⟩

omit [Fintype ι] in
theorem step_store {s : System ι} {t : ι} {opts : Options} {interval : Int} {e : CachedBlock}
    (hfault : s.fault = none) (hcall : s.calls t = .storing opts interval e) (clock : Nat) :
    s.step cfg (.store t clock) = some (s.store cfg t opts interval e clock) := by
  rw [step, if_pos hfault, fire]
  simp only [hcall]

theorem listSafe_stored : ∃ s : System Bool, s.stored = [freed.memMap] ∧
    ListSafe defaultConfig s := by
  obtain ⟨s, hfault, hcall, hcache, hstored, hr⟩ := initial_storing
  have hok : LimitKept defaultConfig s (.store false 7) := by
    intro _
    rw [hcache]
    decide
  refine ⟨_, ?_, listSafe_of_limitKept
    (.next hr (a := .store false 7) ⟨trivial, hok⟩ (step_store hfault hcall 7))⟩
  rw [store, hcache, hstored]
  rfl

/-- `setOption` between `canCache` and `store`: the eviction loop takes the back of an empty
list. -/
theorem store_emptyLruEntries : ∃ s : System Bool,
    ReachableWith defaultConfig (fun _ _ => True) s ∧ s.fault = some .emptyLruEntries := by
  obtain ⟨s, hfault, hcall, hcache, hstored, hr⟩ := initial_storing
  have hset : ReachableWith defaultConfig (fun _ _ => True)
      { s with cache := s.cache.setMaxEntriesCount defaultConfig 0 } := by
    refine .next (hr.mono fun _ _ h => ⟨h.1, trivial⟩) (a := .setMaxEntriesCount 0)
      ⟨trivial, trivial⟩ ?_
    rw [step, if_pos hfault, fire]
  refine ⟨_, .next hset (a := .store false 7) ⟨trivial, trivial⟩
    (step_store (by exact hfault) (by exact hcall) 7), ?_⟩
  rw [store, hcache]
  rfl

end System

end ScudoMte.Secondary
