import ScudoMte.Locks.Allocator

namespace ScudoMte.Locks

open LockOrder
open Primary (batchClassId)

namespace Config

variable (cfg : Config)

/-- The classes come in descending order, the batch class last. -/
def rank : Lock → Nat
  | .registry => 0
  | .mutexTSDs => 1
  | .tsd i => 2 + min i cfg.numTSDs
  | .stats => 3 + cfg.numTSDs
  | .recycleMutex => 4 + cfg.numTSDs
  | .cacheMutex => 5 + cfg.numTSDs
  | .mmLock c => 6 + cfg.numTSDs + 2 * (cfg.numClasses - c)
  | .flLock c => 7 + cfg.numTSDs + 2 * (cfg.numClasses - c)
  | .bufferPool => 8 + cfg.numTSDs + 2 * cfg.numClasses
  | .secondary => 9 + cfg.numTSDs + 2 * cfg.numClasses
  | .secondaryCache => 10 + cfg.numTSDs + 2 * cfg.numClasses
  | .ringBufferInit => 11 + cfg.numTSDs + 2 * cfg.numClasses
  | .ringEnd => 12 + cfg.numTSDs + 2 * cfg.numClasses

/-- The locks that there are. -/
def Has : Lock → Prop
  | .mutexTSDs => cfg.registry ≠ .exclusive
  | .tsd i => i < cfg.numTSDs
  | .recycleMutex | .cacheMutex => cfg.quarantineDisabled = false
  | .mmLock c | .flLock c => c < cfg.numClasses
  | _ => True

/-- The buffers of page maps are only taken under the `MMLock` of some class. -/
def order : Discipline Lock where
  rank := cfg.rank
  bound := 12 + cfg.numTSDs + 2 * cfg.numClasses
  rank_le l := by cases l <;> simp only [rank] <;> omega
  admits held := (∀ l ∈ held, cfg.Has l) ∧ (.bufferPool ∈ held → ∃ c, Lock.mmLock c ∈ held)

/-- Locks that may be held where code goes on with locks of rank `r` and above. -/
structure Below (held : List Lock) (r : Nat) : Prop where
  rank_lt : ∀ l ∈ held, cfg.rank l < r
  has : ∀ l ∈ held, cfg.Has l
  noBuffer : Lock.bufferPool ∉ held

variable {cfg} {held : List Lock} {l : Lock} {r r' : Nat} {c : Code Lock} {classId : Nat}

theorem Below.nil : cfg.Below [] r := by
  constructor <;> simp

theorem Below.mono (h : cfg.Below held r) (hle : r ≤ r') : cfg.Below held r' :=
  ⟨fun l hl => (h.rank_lt l hl).trans_le hle, h.has, h.noBuffer⟩

theorem Below.admits (h : cfg.Below held r) : cfg.order.admits held :=
  ⟨h.has, fun hb => absurd hb h.noBuffer⟩

theorem Below.cons (h : cfg.Below held r) (hl : cfg.Has l) (hb : l ≠ .bufferPool)
    (hrank : cfg.rank l < r') (hle : r ≤ r') : cfg.Below (l :: held) r' := by
  refine ⟨fun m hm => ?_, fun m hm => ?_, ?_⟩
  · rcases List.mem_cons.mp hm with rfl | hm
    · exact hrank
    · exact (h.mono hle).rank_lt m hm
  · rcases List.mem_cons.mp hm with rfl | hm
    · exact hl
    · exact h.has m hm
  · rw [List.mem_cons, not_or]
    exact ⟨hb.symm, h.noBuffer⟩

/-- Under a lock of its rank, code may go on with higher locks. -/
theorem Below.under (h : cfg.Below held (cfg.rank l)) (hl : cfg.Has l) (hb : l ≠ .bufferPool) :
    cfg.Below (l :: held) (cfg.rank l + 1) :=
  h.cons hl hb (Nat.lt_succ_self _) (Nat.le_succ _)

theorem Below.locked (h : cfg.Below held (cfg.rank l)) (hl : cfg.Has l) (hb : l ≠ .bufferPool)
    (hc : c.Keeps cfg.order (l :: held)) : (c.locked l).Keeps cfg.order held :=
  .locked h.rank_lt (h.under hl hb).admits h.admits hc

/-- A lock that guards nothing else. -/
theorem Below.touch (h : cfg.Below held (cfg.rank l)) (hl : cfg.Has l) (hb : l ≠ .bufferPool) :
    (Code.locked l .skip).Keeps cfg.order held := h.locked hl hb .skip

theorem Below.tryLock (h : cfg.Below held r) (hl : cfg.Has l) (hb : l ≠ .bufferPool)
    (hle : r ≤ cfg.rank l) (hc : c.Keeps cfg.order (l :: held)) {d : Code Lock}
    (hd : d.Keeps cfg.order held) :
    (Code.tryLock l (.seq c (.unlock l)) d).Keeps cfg.order held :=
  .tryLock (fun _ => ⟨((h.mono hle).under hl hb).admits,
    Code.Keeps.unlock h.admits hc⟩) hd

section Primary

theorem mem_classes : classId ∈ cfg.classes ↔ classId < cfg.numClasses ∧ classId ≠ batchClassId := by
  simp [classes]

theorem rank_mmLock_lt (c : Nat) : cfg.rank (.mmLock c) < cfg.rank (.flLock c) := by
  simp only [rank]
  omega

/-- The locks of the batch class are above those of the others. -/
theorem rank_flLock_lt (hc : classId ∈ cfg.classes) :
    cfg.rank (.flLock classId) < cfg.rank (.mmLock batchClassId) := by
  obtain ⟨hlt, hne⟩ := mem_classes.mp hc
  simp only [rank, batchClassId] at hne ⊢
  omega

theorem has_mmLock (hc : classId ∈ cfg.classes) : cfg.Has (.mmLock classId) := (mem_classes.mp hc).1

theorem has_flLock (hc : classId ∈ cfg.classes) : cfg.Has (.flLock classId) := (mem_classes.mp hc).1

theorem has_batch : cfg.Has (.mmLock batchClassId) ∧ cfg.Has (.flLock batchClassId) :=
  ⟨cfg.numClasses_pos, cfg.numClasses_pos⟩

theorem wait_keeps (h : cfg.Below held (cfg.rank (.flLock classId)))
    (hl : cfg.Has (.flLock classId)) :
    (wait classId).Keeps cfg.order (.flLock classId :: held) := by
  refine ⟨List.mem_cons_self, ?_, ?_⟩
  · rw [List.erase_cons_head]
    exact h.admits
  · rw [List.erase_cons_head]
    exact ⟨h.rank_lt, (h.under hl (by simp)).admits, rfl⟩

/-- `popBlocks` keeps to the order where the functions that do its work do so. -/
theorem popBlocksOf_keeps {popBlocksImpl populateFreeList : Code Lock}
    (h : cfg.Below held (cfg.rank (.mmLock classId)))
    (hclass : cfg.Has (.mmLock classId) ∧ cfg.Has (.flLock classId))
    (hpop : ∀ held, cfg.Below held (cfg.rank (.flLock classId)) →
      popBlocksImpl.Keeps cfg.order (.flLock classId :: held))
    (hpopulate : ∀ held, cfg.Below held (cfg.rank (.flLock classId)) →
      populateFreeList.Keeps cfg.order held) :
    (cfg.popBlocksOf classId popBlocksImpl populateFreeList).Keeps cfg.order held := by
  obtain ⟨hmm, hfl⟩ := hclass
  have hlt : cfg.rank (.mmLock classId) < cfg.rank (.flLock classId) := rank_mmLock_lt classId
  have hfree := h.mono hlt.le
  have hmapped : cfg.Below (.mmLock classId :: held) (cfg.rank (.flLock classId)) :=
    h.cons hmm (by simp) hlt hlt.le
  refine .seq (hfree.locked hfl (by simp) (hpop held hfree)) (.maybe ?_)
  split
  · refine .seq (.loop (.seq (hfree.touch hfl (by simp)) (hfree.locked hfl (by simp) ?_)))
      (.maybe (.seq (hfree.touch hfl (by simp)) (h.locked hmm (by simp) ?_)))
    · exact .seq (hpop held hfree) (.maybe (.seq (wait_keeps hfree hfl) (hpop held hfree)))
    · exact .seq (.maybe (hpopulate _ hmapped)) (hmapped.touch hfl (by simp))
  · exact h.locked hmm (by simp)
      (.seq (hmapped.locked hfl (by simp) (hpop _ hmapped)) (.maybe (hpopulate _ hmapped)))

theorem popBatchClassBlocks_keeps (h : cfg.Below held (cfg.rank (.mmLock batchClassId))) :
    cfg.popBatchClassBlocks.Keeps cfg.order held :=
  popBlocksOf_keeps h has_batch (fun _ _ => .skip) fun _ hb =>
    .maybe (hb.locked has_batch.2 (by simp) (.seq .skip .skip))

theorem pushBatchClassBlocks_keeps (h : cfg.Below held (cfg.rank (.flLock batchClassId))) :
    pushBatchClassBlocks.Keeps cfg.order held := h.touch has_batch.2 (by simp)

/-- Under the `FLLock` of a class come the locks of the batch class. -/
theorem Below.batch (h : cfg.Below held (cfg.rank (.flLock classId))) (hc : classId ∈ cfg.classes) :
    cfg.Below (.flLock classId :: held) (cfg.rank (.mmLock batchClassId)) :=
  h.cons (has_flLock hc) (by simp) (rank_flLock_lt hc) (rank_flLock_lt hc).le

theorem popBlocksImpl_keeps (hc : classId ∈ cfg.classes)
    (h : cfg.Below held (cfg.rank (.flLock classId))) :
    popBlocksImpl.Keeps cfg.order (.flLock classId :: held) := by
  have hpush := pushBatchClassBlocks_keeps ((h.batch hc).mono (rank_mmLock_lt _).le)
  exact .seq (.maybe (.maybe hpush)) (.maybe (.maybe hpush))

theorem pushBlocksImpl_keeps (hc : classId ∈ cfg.classes)
    (h : cfg.Below held (cfg.rank (.flLock classId))) :
    cfg.pushBlocksImpl.Keeps cfg.order (.flLock classId :: held) :=
  .loop (.maybe (popBatchClassBlocks_keeps (h.batch hc)))

theorem popBlocks_keeps (hc : classId ∈ cfg.classes)
    (h : cfg.Below held (cfg.rank (.mmLock classId))) :
    (cfg.popBlocks classId).Keeps cfg.order held := by
  rw [popBlocks, if_neg (mem_classes.mp hc).2]
  refine popBlocksOf_keeps h ⟨has_mmLock hc, has_flLock hc⟩
    (fun held hfree => popBlocksImpl_keeps hc hfree) fun held hfree => .maybe ?_
  exact hfree.locked (has_flLock hc) (by simp)
    (.seq (.loop (pushBlocksImpl_keeps hc hfree)) (popBlocksImpl_keeps hc hfree))

theorem pushBlocks_keeps (hc : classId ∈ cfg.classes)
    (h : cfg.Below held (cfg.rank (.flLock classId))) :
    (cfg.pushBlocks classId).Keeps cfg.order held := by
  rw [pushBlocks, if_neg (mem_classes.mp hc).2]
  exact h.locked (has_flLock hc) (by simp) (pushBlocksImpl_keeps hc h)

theorem pageMapBuffer_keeps (h : cfg.Below held (cfg.rank (.mmLock classId)))
    (hc : classId ∈ cfg.classes) : pageMapBuffer.Keeps cfg.order (.mmLock classId :: held) := by
  have hin := h.under (has_mmLock hc) (by simp)
  refine .maybe (.locked (fun m hm => (hin.rank_lt m hm).trans_le ?_) ⟨fun m hm => ?_, fun _ => ?_⟩
    hin.admits .skip)
  · simp only [order, rank]
    omega
  · rcases List.mem_cons.mp hm with rfl | hm
    · exact trivial
    · exact hin.has m hm
  · exact ⟨classId, List.mem_cons_of_mem _ List.mem_cons_self⟩

theorem Below.mmLock (h : cfg.Below held (cfg.rank (.mmLock classId))) (hc : classId ∈ cfg.classes) :
    cfg.Below (.mmLock classId :: held) (cfg.rank (.flLock classId)) :=
  h.cons (has_mmLock hc) (by simp) (rank_mmLock_lt _) (rank_mmLock_lt _).le

theorem releaseGroups_keeps (hc : classId ∈ cfg.classes)
    (h : cfg.Below held (cfg.rank (.mmLock classId))) :
    (releaseGroups classId).Keeps cfg.order (.mmLock classId :: held) := by
  have hfree := h.mmLock hc
  have hpush := pushBatchClassBlocks_keeps ((hfree.batch hc).mono (rank_mmLock_lt _).le)
  have hmerge : (mergeGroupsToReleaseBack classId).Keeps cfg.order (.mmLock classId :: held) :=
    hfree.locked (has_flLock hc) (by simp) (.seq (.loop hpush) (.maybe hpush))
  have hbuffer := pageMapBuffer_keeps h hc
  exact .seq hbuffer (.seq hmerge (.seq hbuffer .skip))

theorem releaseToOSMaybe_keeps (hc : classId ∈ cfg.classes)
    (h : cfg.Below held (cfg.rank (.mmLock classId))) :
    (releaseToOSMaybe classId).Keeps cfg.order (.mmLock classId :: held) :=
  .seq ((h.mmLock hc).touch (has_flLock hc) (by simp)) (.maybe (releaseGroups_keeps hc h))

theorem tryReleaseToOS_keeps (hc : classId ∈ cfg.classes) :
    (tryReleaseToOS classId).Keeps cfg.order [] :=
  Below.nil.tryLock (has_mmLock hc) (by simp) le_rfl (releaseToOSMaybe_keeps hc .nil) .skip

theorem primaryReleaseToOS_keeps : cfg.primaryReleaseToOS.Keeps cfg.order [] := by
  apply Code.Keeps.all
  intro d hd
  obtain ⟨c, hc, rfl⟩ := List.mem_map.mp hd
  exact Below.nil.locked (has_mmLock hc) (by simp) (releaseToOSMaybe_keeps hc .nil)

theorem primaryGetStats_keeps : cfg.primaryGetStats.Keeps cfg.order [] := by
  refine .seq (.all fun d hd => ?_) (.all fun d hd => ?_)
  · obtain ⟨c, hc, rfl⟩ := List.mem_map.mp hd
    have hlt := List.mem_range.mp hc
    exact .seq (Below.nil.touch hlt (by simp)) (Below.nil.touch hlt (by simp))
  · obtain ⟨c, hc, rfl⟩ := List.mem_map.mp hd
    have hlt := List.mem_range.mp hc
    refine Below.nil.locked hlt (by simp) (Below.touch ?_ hlt (by simp))
    exact Below.nil.cons hlt (by simp) (rank_mmLock_lt _) le_rfl

theorem primaryGetFragmentationInfo_keeps : cfg.primaryGetFragmentationInfo.Keeps cfg.order [] := by
  apply Code.Keeps.all
  intro d hd
  obtain ⟨c, hc, rfl⟩ := List.mem_map.mp hd
  have htouch := (Below.nil.mmLock hc).touch (has_flLock hc) (by simp)
  exact Below.nil.locked (has_mmLock hc) (by simp)
    (.seq htouch (.seq (.maybe (releaseGroups_keeps hc .nil)) (.seq htouch .skip)))

/-- Below the locks of the primary. -/
theorem Below.primary (h : cfg.Below held (6 + cfg.numTSDs)) (c : Nat) :
    cfg.Below held (cfg.rank (.mmLock c)) := by
  apply h.mono
  simp only [rank]
  omega

theorem allocateAny_keeps (h : cfg.Below held (6 + cfg.numTSDs)) :
    cfg.allocateAny.Keeps cfg.order held := by
  apply Code.Keeps.oneOf
  intro d hd
  obtain ⟨c, hc, rfl⟩ := List.mem_map.mp hd
  exact .maybe (popBlocks_keeps hc (h.primary c))

theorem deallocateAny_keeps (h : cfg.Below held (6 + cfg.numTSDs)) :
    cfg.deallocateAny.Keeps cfg.order held := by
  apply Code.Keeps.oneOf
  intro d hd
  obtain ⟨c, hc, rfl⟩ := List.mem_map.mp hd
  exact .maybe (pushBlocks_keeps hc ((h.primary c).mono (rank_mmLock_lt c).le))

theorem drainFrontEnd_keeps (h : cfg.Below held (6 + cfg.numTSDs)) :
    cfg.drainFrontEnd.Keeps cfg.order held := by
  refine .seq (.all fun d hd => ?_) (.loop ?_)
  · obtain ⟨c, hc, rfl⟩ := List.mem_map.mp hd
    exact .loop (pushBlocks_keeps hc ((h.primary c).mono (rank_mmLock_lt c).le))
  · exact pushBatchClassBlocks_keeps ((h.primary _).mono (rank_mmLock_lt _).le)

end Primary

end Config

end ScudoMte.Locks
