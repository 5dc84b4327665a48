import ScudoMte.Locks.Order

namespace ScudoMte.Locks.Config

open LockOrder
open Primary (batchClassId)

variable {cfg : Config} {held : List Lock} {l : Lock} {r : Nat} {c : Code Lock}

section Quarantine

variable (hq : cfg.quarantineDisabled = false)

include hq

/-- `recycle` lets the lock go that it is called with. -/
theorem recycle_meets (h : cfg.Below held (4 + cfg.numTSDs)) :
    cfg.recycle.Meets cfg.order (.recycleMutex :: held) (· = held) := by
  have hin : cfg.Below (.recycleMutex :: held) (cfg.rank .cacheMutex) :=
    h.cons hq (by simp) (by simp only [rank]; omega) (by simp only [rank]; omega)
  have hrecycled : cfg.doRecycle.Keeps cfg.order held :=
    .loop (deallocateAny_keeps (h.mono (by omega)))
  refine (hin.touch hq (by simp)).mono fun held' h' => ?_
  rw [h']
  refine ⟨List.mem_cons_self, ?_, ?_⟩
  · rw [List.erase_cons_head]
    exact h.admits
  · rw [List.erase_cons_head]
    exact Code.Keeps.seq hrecycled .skip

theorem Below.cacheMutex (h : cfg.Below held (4 + cfg.numTSDs)) :
    (Code.locked Lock.cacheMutex .skip).Keeps cfg.order held :=
  (h.mono (by simp only [rank]; omega) : cfg.Below held (cfg.rank .cacheMutex)).touch hq (by simp)

theorem quarantineDrain_keeps (h : cfg.Below held (4 + cfg.numTSDs)) :
    cfg.quarantineDrain.Keeps cfg.order held := by
  refine .seq (h.cacheMutex hq) (.maybe (.tryLock (fun _ => ⟨?_, recycle_meets hq h⟩) .skip))
  exact (Below.under (l := .recycleMutex) h hq (by simp)).admits

theorem quarantineDrainAndRecycle_keeps (h : cfg.Below held (4 + cfg.numTSDs)) :
    cfg.quarantineDrainAndRecycle.Keeps cfg.order held := by
  refine .seq (h.cacheMutex hq) ⟨h.rank_lt, ?_, ?_⟩
  · exact (Below.under (l := .recycleMutex) h hq (by simp)).admits
  · apply (recycle_meets hq h).mono
    intro held' h'
    exact h'

theorem quarantinePut_keeps (h : cfg.Below held (4 + cfg.numTSDs)) :
    cfg.quarantinePut.Keeps cfg.order held :=
  .seq (.maybe (allocateAny_keeps (h.mono (by omega)))) (.maybe (quarantineDrain_keeps hq h))

end Quarantine

theorem quarantined_keeps (hc : cfg.quarantineDisabled = false → c.Keeps cfg.order held) :
    (cfg.quarantined c).Keeps cfg.order held := by
  rw [quarantined]
  split
  · exact .skip
  · next hq => exact hc (by simpa using hq)

/-- Below the statistics. -/
theorem Below.tsd (h : cfg.Below held 1) {i : Nat} : cfg.Below held (cfg.rank (.tsd i)) := by
  apply h.mono
  simp only [rank]
  omega

theorem Below.underTSD (h : cfg.Below held 2) {i : Nat} (hi : i < cfg.numTSDs) :
    cfg.Below (.tsd i :: held) (4 + cfg.numTSDs) :=
  h.cons hi (by simp) (by simp only [rank]; omega) (by omega)

theorem statsLocked_keeps (h : cfg.Below held 2) : statsLocked.Keeps cfg.order held :=
  (h.mono (by simp only [rank]; omega) : cfg.Below held (cfg.rank .stats)).touch trivial (by simp)

theorem mutexTSDs_touch (hr : cfg.registry ≠ .exclusive) (h : cfg.Below held 1) :
    (Code.locked Lock.mutexTSDs .skip).Keeps cfg.order held :=
  Below.touch (l := .mutexTSDs) h hr (by simp)

theorem registryInit_keeps (h : cfg.Below held 1) : cfg.registryInit.Keeps cfg.order held := by
  have hstats := statsLocked_keeps (h.mono (by decide))
  rw [registryInit]
  split
  · exact .seq hstats hstats
  · next n hr =>
    refine .seq hstats (.seq (.all fun d hd => ?_) (.seq (mutexTSDs_touch (by simp [hr]) h) .skip))
    rw [List.eq_of_mem_replicate hd]
    exact hstats

theorem initOnceMaybe_keeps : cfg.initOnceMaybe.Keeps cfg.order [] :=
  Below.locked (l := .registry) .nil trivial (by simp) (.maybe (registryInit_keeps
    (Below.under (l := .registry) .nil trivial (by simp))))

theorem initThreadMaybe_keeps (initialized : Bool) :
    (cfg.initThreadMaybe initialized).Keeps cfg.order [] := by
  rw [initThreadMaybe]
  split
  · exact .skip
  · refine .seq initOnceMaybe_keeps ?_
    split
    · exact .maybe (statsLocked_keeps .nil)
    · exact .skip

/-- Code that keeps to the order under each TSD. -/
def UnderTSDs (cfg : Config) (c : Code Lock) : Prop :=
  ∀ i < cfg.numTSDs, c.Keeps cfg.order [.tsd i]

theorem probe_keeps {n : Nat} (hn : cfg.numTSDs = n) (hc : cfg.UnderTSDs c) (tries : Nat) :
    (probe n c tries).Keeps cfg.order [] := by
  have hstay : (Code.oneOf ((List.range n).map fun i => .locked (.tsd i) c)).Keeps cfg.order [] := by
    apply Code.Keeps.oneOf
    intro d hd
    obtain ⟨i, hi, rfl⟩ := List.mem_map.mp hd
    have hlt : i < cfg.numTSDs := hn ▸ List.mem_range.mp hi
    exact Below.nil.locked hlt (by simp) (hc i hlt)
  induction tries with
  | zero =>
    rw [probe]
    exact hstay
  | succ tries ih =>
    rw [probe, probe]
    refine .choose hstay (.oneOf fun d hd => ?_)
    obtain ⟨i, hi, rfl⟩ := List.mem_map.mp hd
    have hlt : i < cfg.numTSDs := hn ▸ List.mem_range.mp hi
    exact Below.tryLock (l := .tsd i) .nil hlt (by simp) le_rfl (hc i hlt) ih

theorem withTSD_keeps (hown : c.Keeps cfg.order []) (hc : cfg.UnderTSDs c) :
    (cfg.withTSD c).Keeps cfg.order [] := by
  rw [withTSD]
  split
  · next hr =>
    have hlt : 0 < cfg.numTSDs := by
      rw [numTSDs, hr]
      exact Nat.zero_lt_one
    exact .choose hown (Below.nil.locked hlt (by simp) (hc 0 hlt))
  · next n hr =>
    have hn : cfg.numTSDs = n := by rw [numTSDs, hr]
    apply Code.Keeps.oneOf
    intro d hd
    obtain ⟨i, hi, rfl⟩ := List.mem_map.mp hd
    have hlt : i < cfg.numTSDs := hn ▸ List.mem_range.mp hi
    refine Below.tryLock (l := .tsd i) .nil hlt (by simp) le_rfl (hc i hlt) ?_
    split
    · exact Below.nil.locked hlt (by simp) (hc i hlt)
    · exact .seq (mutexTSDs_touch (by simp [hr]) .nil) (probe_keeps hn hc 4)

/-- Code that keeps to the order wherever the locks of the quarantine and the primary are free. -/
theorem withTSD_keeps_of (hc : ∀ held, cfg.Below held (4 + cfg.numTSDs) → c.Keeps cfg.order held) :
    (cfg.withTSD c).Keeps cfg.order [] :=
  withTSD_keeps (hc [] .nil) fun _ hi => hc _ (Below.underTSD .nil hi)

theorem drainCache_keeps (h : cfg.Below held (4 + cfg.numTSDs)) :
    cfg.drainCache.Keeps cfg.order held :=
  .seq (quarantined_keeps fun hq => quarantineDrainAndRecycle_keeps hq h)
    (drainFrontEnd_keeps (h.mono (by omega)))

theorem commitBack_keeps : cfg.commitBack.Keeps cfg.order [] :=
  .seq (quarantined_keeps fun hq => quarantineDrain_keeps hq .nil)
    (.seq (drainFrontEnd_keeps .nil) (.seq (statsLocked_keeps .nil) .skip))

/-- All TSDs, one after the other, under the lock of the shared registry. -/
theorem eachTSD_keeps {n : Nat} (hr : cfg.registry = .shared n)
    (hc : ∀ i < n, c.Keeps cfg.order [.tsd i, .mutexTSDs]) :
    (Code.locked Lock.mutexTSDs (.all ((List.range n).map fun i =>
      .maybe (.locked (.tsd i) c)))).Keeps cfg.order [] := by
  have hshared : cfg.Has .mutexTSDs := by simp [Has, hr]
  refine Below.locked (l := .mutexTSDs) .nil hshared (by simp) (.all fun d hd => ?_)
  obtain ⟨i, hi, rfl⟩ := List.mem_map.mp hd
  have hlt : i < n := List.mem_range.mp hi
  have hn : i < cfg.numTSDs := by rwa [numTSDs, hr]
  have hin : cfg.Below [.mutexTSDs] 2 := Below.under (l := .mutexTSDs) .nil hshared (by simp)
  refine .maybe (Below.locked (l := .tsd i) (hin.mono ?_) hn (by simp) (hc i hlt))
  simp only [rank]
  omega

theorem drainCaches_keeps : cfg.drainCaches.Keeps cfg.order [] := by
  rw [drainCaches]
  split
  · next hr =>
    have hlt : 0 < cfg.numTSDs := by
      rw [numTSDs, hr]
      exact Nat.zero_lt_one
    exact .seq (drainCache_keeps .nil)
      (Below.nil.locked hlt (by simp) (drainCache_keeps (Below.underTSD .nil hlt)))
  · next n hr =>
    have hn : cfg.numTSDs = n := by rw [numTSDs, hr]
    have hshared : cfg.Has .mutexTSDs := by simp [Has, hr]
    have hin : cfg.Below [.mutexTSDs] 2 := Below.under (l := .mutexTSDs) .nil hshared (by simp)
    exact eachTSD_keeps hr fun i hi => drainCache_keeps (Below.underTSD hin (hn ▸ hi))

theorem registryGetStats_keeps : cfg.registryGetStats.Keeps cfg.order [] := by
  rw [registryGetStats]
  split
  · exact .skip
  · next n hr => exact eachTSD_keeps hr fun _ _ => .skip

theorem secondary_touch : (Code.locked Lock.secondary .skip).Keeps cfg.order [] :=
  Below.nil.touch trivial (by simp)

theorem secondaryCache_touch : (Code.locked Lock.secondaryCache .skip).Keeps cfg.order [] :=
  Below.nil.touch trivial (by simp)

theorem secondaryAllocate_keeps : secondaryAllocate.Keeps cfg.order [] :=
  .seq (.maybe (.seq secondaryCache_touch (.maybe secondary_touch))) (.maybe secondary_touch)

theorem secondaryDeallocate_keeps : secondaryDeallocate.Keeps cfg.order [] := by
  refine .seq secondary_touch (.maybe (.seq secondaryCache_touch (.maybe (.tryLock ?_ .skip))))
  have hin : cfg.Below [.secondaryCache] (cfg.rank .secondaryCache + 1) :=
    Below.under .nil trivial (by simp)
  intro _
  refine ⟨hin.admits, List.mem_cons_self, ?_, ?_⟩
  · rw [List.erase_cons_head]
    exact (Below.nil (r := 0)).admits
  · exact List.erase_cons_head ..

theorem storeStackMaybe_keeps : storeStackMaybe.Keeps cfg.order [] :=
  .maybe (Below.nil.touch trivial (by simp))

theorem getStats_keeps : cfg.getStats.Keeps cfg.order [] := by
  refine .seq primaryGetStats_keeps (.seq ?_ (.seq ?_ (.seq registryGetStats_keeps .skip)))
  · refine Below.nil.locked trivial (by simp) (Below.touch ?_ trivial (by simp))
    exact Below.nil.cons trivial (by simp) (by simp only [rank]; omega) le_rfl
  · exact quarantined_keeps fun hq => Below.cacheMutex hq .nil

theorem allocate_keeps (initialized : Bool) : (cfg.allocate initialized).Keeps cfg.order [] := by
  have hblock : (cfg.withTSD (.seq cfg.allocateAny (.loop cfg.allocateAny))).Keeps cfg.order [] :=
    withTSD_keeps_of fun held h => by
      have hany := allocateAny_keeps (h.mono (by omega) : cfg.Below held (6 + cfg.numTSDs))
      exact .seq hany (.loop hany)
  exact .seq (initThreadMaybe_keeps initialized) (.seq (.maybe hblock)
    (.seq (.maybe secondaryAllocate_keeps) (.seq (.maybe getStats_keeps)
      (.seq storeStackMaybe_keeps .skip))))

theorem quarantineOrDeallocateChunk_keeps :
    cfg.quarantineOrDeallocateChunk.Keeps cfg.order [] := by
  have hblock : (cfg.withTSD cfg.deallocateAny).Keeps cfg.order [] :=
    withTSD_keeps_of fun held h => deallocateAny_keeps (h.mono (by omega))
  have hrelease : (Code.oneOf (cfg.classes.map tryReleaseToOS)).Keeps cfg.order [] := by
    apply Code.Keeps.oneOf
    intro d hd
    obtain ⟨c, hc, rfl⟩ := List.mem_map.mp hd
    exact tryReleaseToOS_keeps hc
  have hbypass := Code.Keeps.choose (.seq hblock (.maybe hrelease)) secondaryDeallocate_keeps
  refine .seq storeStackMaybe_keeps ?_
  split
  · exact hbypass
  · next hq =>
    exact .choose hbypass (withTSD_keeps_of fun held h => quarantinePut_keeps (by simpa using hq) h)

theorem reallocate_keeps (initialized : Bool) : (cfg.reallocate initialized).Keeps cfg.order [] :=
  .seq (initThreadMaybe_keeps initialized) (.choose storeStackMaybe_keeps
    (.seq (allocate_keeps true) (.maybe quarantineOrDeallocateChunk_keeps)))

theorem releaseToOS_keeps (initialized : Bool) : (cfg.releaseToOS initialized).Keeps cfg.order [] :=
  .seq (initThreadMaybe_keeps initialized) (.seq (.maybe drainCaches_keeps)
    (.seq primaryReleaseToOS_keeps (.seq secondaryCache_touch .skip)))

theorem registrySetOption_keeps : cfg.registrySetOption.Keeps cfg.order [] := by
  rw [registrySetOption]
  split
  · exact .skip
  · next n hr => exact .maybe (mutexTSDs_touch (by simp [hr]) .nil)

end ScudoMte.Locks.Config
