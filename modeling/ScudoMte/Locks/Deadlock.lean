import ScudoMte.Library.LockRuns
import ScudoMte.Locks.Calls

namespace ScudoMte.Locks.Config

open LockOrder
open Primary (batchClassId)

variable {cfg : Config} {ringBuffer : Bool} {l : Lock}

/-- The locks that `disable` takes, in order. -/
def disabledLocks (cfg : Config) (ringBuffer : Bool) : List Lock :=
  (.registry :: (List.range cfg.numTSDs).map .tsd) ++ [.stats] ++
    (if cfg.quarantineDisabled then [] else [.recycleMutex, .cacheMutex]) ++
    ((cfg.classes.reverse ++ [batchClassId]).flatMap fun c => [.mmLock c, .flLock c]) ++
    [.secondary, .secondaryCache] ++ (.ringBufferInit :: if ringBuffer then [.ringEnd] else [])

theorem disable_eq (initialized : Bool) : cfg.disable initialized ringBuffer =
    .seq (cfg.initThreadMaybe initialized) (.all ((cfg.disabledLocks ringBuffer).map .lock)) := by
  rw [disable, disabledLocks, registryDisable, primaryDisable, disableRingBuffer]
  congr 2
  cases cfg.quarantineDisabled <;> cases ringBuffer <;>
    simp [List.map_flatMap, Function.comp_def]

theorem enable_eq : cfg.enable ringBuffer =
    .seq .skip (.all ((cfg.disabledLocks ringBuffer).reverse.map .unlock)) := by
  rw [enable, disabledLocks, registryEnable, primaryEnable, enableRingBuffer, initThreadMaybe]
  congr 2
  cases cfg.quarantineDisabled <;> cases ringBuffer <;>
    simp [List.map_flatMap, List.reverse_flatMap, Function.comp_def]

/-- What is disabled is all that there is, but for the lock of the shared registry, the buffers of
page maps, and a stack depot that does not exist. -/
theorem mem_disabledLocks : l ∈ cfg.disabledLocks ringBuffer ↔ cfg.Has l ∧ l ≠ .mutexTSDs ∧
    l ≠ .bufferPool ∧ (l = .ringEnd → ringBuffer = true) := by
  have hpos := cfg.numClasses_pos
  have hmm (c : Nat) : (∃ d, (d ∈ cfg.classes ∨ d = batchClassId) ∧ d = c) ↔ c < cfg.numClasses := by
    simp only [mem_classes]
    constructor
    · rintro ⟨d, h, rfl⟩
      rcases h with h | h
      · exact h.1
      · rw [h]
        exact hpos
    · intro hc
      by_cases h0 : c = batchClassId
      · exact ⟨c, .inr h0, rfl⟩
      · exact ⟨c, .inl ⟨hc, h0⟩, rfl⟩
  cases l <;> cases hq : cfg.quarantineDisabled <;> cases ringBuffer <;>
    simp [disabledLocks, Has, hq] <;> simpa using hmm _

theorem classes_sorted : cfg.classes.Pairwise (· < ·) :=
  List.Pairwise.filter _ List.pairwise_lt_range

/-- Locks in the order of their ranks, which lie between two bounds. -/
structure Ranked (cfg : Config) (lo hi : Nat) (ls : List Lock) : Prop where
  sorted : ls.Pairwise fun l m => cfg.rank l < cfg.rank m
  le : ∀ l ∈ ls, lo ≤ cfg.rank l
  lt : ∀ l ∈ ls, cfg.rank l < hi

theorem Ranked.append {lo mid hi : Nat} {ls ms : List Lock} (h : cfg.Ranked lo mid ls)
    (h' : cfg.Ranked mid hi ms) (hlo : lo ≤ mid) (hhi : mid ≤ hi) : cfg.Ranked lo hi (ls ++ ms) := by
  refine ⟨List.pairwise_append.mpr ⟨h.sorted, h'.sorted, fun l hl m hm => ?_⟩, ?_, ?_⟩
  · exact (h.lt l hl).trans_le (h'.le m hm)
  · intro l hl
    rcases List.mem_append.mp hl with hl | hl
    · exact h.le l hl
    · exact hlo.trans (h'.le l hl)
  · intro l hl
    rcases List.mem_append.mp hl with hl | hl
    · exact (h.lt l hl).trans_le hhi
    · exact h'.lt l hl

theorem ranked_registry :
    cfg.Ranked 0 (3 + cfg.numTSDs) (.registry :: (List.range cfg.numTSDs).map .tsd) := by
  have hrank : ∀ l ∈ (List.range cfg.numTSDs).map Lock.tsd, 0 < cfg.rank l ∧
      cfg.rank l < 3 + cfg.numTSDs := by
    intro l hl
    obtain ⟨i, -, rfl⟩ := List.mem_map.mp hl
    simp only [rank]
    omega
  refine ⟨List.pairwise_cons.mpr ⟨fun l hl => (hrank l hl).1, ?_⟩, fun _ _ => Nat.zero_le _, ?_⟩
  · rw [List.pairwise_map]
    apply List.pairwise_lt_range.imp_of_mem
    intro i j _ hj hlt
    have hle := List.mem_range.mp hj
    simp only [rank]
    omega
  · intro l hl
    rcases List.mem_cons.mp hl with rfl | hl
    · simp only [rank]
      omega
    · exact (hrank l hl).2

/-- `disable` takes the locks of the primary in the order of their ranks. -/
theorem ranked_primary : cfg.Ranked (6 + cfg.numTSDs) (8 + cfg.numTSDs + 2 * cfg.numClasses)
    ((cfg.classes.reverse ++ [batchClassId]).flatMap fun c => [Lock.mmLock c, .flLock c]) := by
  have hrank : ∀ l ∈ ((cfg.classes.reverse ++ [batchClassId]).flatMap fun c =>
      [Lock.mmLock c, .flLock c]), 6 + cfg.numTSDs ≤ cfg.rank l ∧
        cfg.rank l < 8 + cfg.numTSDs + 2 * cfg.numClasses := by
    intro l hl
    obtain ⟨c, -, hl⟩ := List.mem_flatMap.mp hl
    simp only [List.mem_cons, List.not_mem_nil, or_false] at hl
    rcases hl with rfl | rfl <;> simp only [rank] <;> omega
  refine ⟨?_, fun l hl => (hrank l hl).1, fun l hl => (hrank l hl).2⟩
  rw [List.pairwise_flatMap]
  refine ⟨fun c _ => ?_, ?_⟩
  · simp only [List.pairwise_cons, List.mem_singleton, forall_eq, List.not_mem_nil,
      false_implies, implies_true, List.Pairwise.nil, and_true]
    exact rank_mmLock_lt c
  · rw [List.pairwise_append, List.pairwise_reverse]
    refine ⟨?_, List.pairwise_singleton _ _, ?_⟩
    · apply classes_sorted.imp_of_mem
      intro c d hc hd hlt
      have hle := (mem_classes.mp hd).1
      simp only [List.mem_cons, List.not_mem_nil, or_false, forall_eq_or_imp, forall_eq, rank]
      omega
    · intro c hc d hd
      obtain ⟨hlt, hne⟩ := mem_classes.mp (List.mem_reverse.mp hc)
      rw [List.mem_singleton.mp hd]
      simp only [batchClassId, List.mem_cons, List.not_mem_nil, or_false, forall_eq_or_imp,
        forall_eq, rank] at hne ⊢
      omega

theorem ranked_disabledLocks : cfg.Ranked 0 (13 + cfg.numTSDs + 2 * cfg.numClasses)
    (cfg.disabledLocks ringBuffer) := by
  have hstats : cfg.Ranked (3 + cfg.numTSDs) (4 + cfg.numTSDs) [.stats] := by
    constructor <;> simp [rank]
  have hquarantine : cfg.Ranked (4 + cfg.numTSDs) (6 + cfg.numTSDs)
      (if cfg.quarantineDisabled then [] else [.recycleMutex, .cacheMutex]) := by
    constructor <;> split <;> simp [rank]
  have hsecondary : cfg.Ranked (8 + cfg.numTSDs + 2 * cfg.numClasses)
      (11 + cfg.numTSDs + 2 * cfg.numClasses) [.secondary, .secondaryCache] := by
    constructor <;> simp [rank]
  have hring : cfg.Ranked (11 + cfg.numTSDs + 2 * cfg.numClasses)
      (13 + cfg.numTSDs + 2 * cfg.numClasses)
      (.ringBufferInit :: if ringBuffer then [.ringEnd] else []) := by
    constructor <;> split <;> simp [rank]
  exact ((((ranked_registry.append hstats (by omega) (by omega)).append hquarantine (by omega)
    (by omega)).append ranked_primary (by omega) (by omega)).append hsecondary (by omega)
      (by omega)).append hring (by omega) (by omega)

theorem disabled_admits {ls : List Lock} (hls : ∀ l ∈ ls, l ∈ cfg.disabledLocks ringBuffer) :
    cfg.order.admits ls := by
  refine ⟨fun l hl => (mem_disabledLocks.mp (hls l hl)).1, fun hb => ?_⟩
  exact absurd rfl (mem_disabledLocks.mp (hls _ hb)).2.2.1

theorem disable_meets (initialized : Bool) : (cfg.disable initialized ringBuffer).Meets cfg.order []
    (· = (cfg.disabledLocks ringBuffer).reverse) := by
  rw [disable_eq]
  apply (initThreadMaybe_keeps initialized).mono
  intro held hheld
  rw [hheld, ← List.append_nil (cfg.disabledLocks ringBuffer).reverse]
  refine .lockAll ranked_disabledLocks.sorted (fun _ _ _ hm => absurd hm List.not_mem_nil) ?_
    (Below.nil (r := 0)).admits
  intro l hl held hadmits
  obtain ⟨hhas, -, hb, -⟩ := mem_disabledLocks.mp hl
  refine ⟨fun m hm => ?_, fun hm => ?_⟩
  · rcases List.mem_cons.mp hm with rfl | hm
    · exact hhas
    · exact hadmits.1 m hm
  · obtain ⟨c, hc⟩ := hadmits.2 ((List.mem_cons.mp hm).resolve_left hb.symm)
    exact ⟨c, List.mem_cons_of_mem _ hc⟩

theorem enable_meets : (cfg.enable ringBuffer).Meets cfg.order
    (cfg.disabledLocks ringBuffer).reverse (· = []) := by
  rw [enable_eq]
  change (Code.all _).Meets _ _ _
  nth_rewrite 2 [← List.append_nil (cfg.disabledLocks ringBuffer).reverse]
  refine .unlockAll fun ls hls => ?_
  have hdisabled : ∀ l ∈ ls, l ∈ cfg.disabledLocks ringBuffer := by
    intro l hl
    exact List.mem_reverse.mp (hls.mem hl)
  rw [List.append_nil]
  exact disabled_admits hdisabled

/-- Behind `disable` the assertions of `iterateOverBlocks` hold. -/
theorem iterateOverChunks_keeps :
    cfg.iterateOverChunks.Keeps cfg.order (cfg.disabledLocks ringBuffer).reverse := by
  have hheld {l : Lock} (hl : cfg.Has l ∧ l ≠ .mutexTSDs ∧ l ≠ .bufferPool ∧
      (l = .ringEnd → ringBuffer = true)) :
      (Code.assertHeld l).Keeps cfg.order (cfg.disabledLocks ringBuffer).reverse :=
    ⟨List.mem_reverse.mpr (mem_disabledLocks.mpr hl), rfl⟩
  refine .seq .skip (.seq (.all fun d hd => ?_) (.seq (hheld ⟨trivial, by simp⟩) .skip))
  obtain ⟨c, hc, hd⟩ := List.mem_flatMap.mp hd
  simp only [List.mem_cons, List.not_mem_nil, or_false] at hd
  rcases hd with rfl | rfl
  · exact hheld ⟨has_flLock hc, by simp⟩
  · exact hheld ⟨has_mmLock hc, by simp⟩

theorem Call.keeps {c : Code Lock} (h : cfg.Call c) : c.Keeps cfg.order [] := by
  cases h with
  | allocate initialized => exact allocate_keeps initialized
  | deallocate initialized =>
    exact .seq (initThreadMaybe_keeps initialized) quarantineOrDeallocateChunk_keeps
  | reallocate initialized => exact reallocate_keeps initialized
  | releaseToOS initialized => exact releaseToOS_keeps initialized
  | getStats => exact getStats_keeps
  | getStatCounters initialized =>
    exact .seq (initThreadMaybe_keeps initialized) (statsLocked_keeps .nil)
  | getFragmentationInfo => exact primaryGetFragmentationInfo_keeps
  | setOption initialized => exact .seq (initThreadMaybe_keeps initialized) registrySetOption_keeps
  | disableMemoryTagging => exact .seq initOnceMaybe_keeps secondaryCache_touch
  | setTrackAllocationStacks initialized =>
    exact .seq (initThreadMaybe_keeps initialized) (.maybe (Below.nil.touch trivial (by simp)))
  | initThread initialized => exact initThreadMaybe_keeps initialized
  | teardownThread => exact commitBack_keeps
  | disabled initialized ringBuffer =>
    refine (disable_meets initialized).mono fun held hheld => ?_
    rw [hheld]
    refine (Code.Keeps.loop iterateOverChunks_keeps).mono fun held hheld => ?_
    rw [hheld]
    exact enable_meets

section Runs

variable {τ : Type*} [DecidableEq τ] {s : System Lock τ} {t : τ}

theorem inv_of_reachable (h : System.Reachable cfg.Call s) : s.Inv cfg.order :=
  h.inv (Below.nil (r := 0)).admits fun _ hc => hc.keeps

/-- The calls of any number of threads come to an end in every order of their steps: there is no
deadlock among the locks of the allocator, none is let go by a thread that does not hold it, and
where one is asserted to be held it is. Every loop of a call, the wait of `popBlocksWithCV` included,
is taken to be finite, and the child of a fork is not modelled. -/
theorem calls_finish [Finite τ] (h : System.Reachable cfg.Call s) : s.CallsFinish :=
  (inv_of_reachable h).callsFinish

/-- A thread for which `disable` has returned holds all locks that `disable` takes, and another
thread can only hold that of the shared registry. -/
theorem disabled_owns (h : System.Reachable cfg.Call s) (ht : s.pending t = cfg.disabled ringBuffer) :
    (∀ l ∈ cfg.disabledLocks ringBuffer, s.owner l = some t) ∧
      ∀ l u, s.owner l = some u → u ≠ t →
        l = .mutexTSDs ∧ cfg.registry ≠ .exclusive ∨ l = .ringEnd ∧ ringBuffer = false := by
  have hinv := inv_of_reachable h
  have howns : ∀ l ∈ cfg.disabledLocks ringBuffer, s.owner l = some t := by
    intro l hl
    obtain ⟨held, hs⟩ := hinv t
    have hends := hs.ends
    rw [ht, disabled] at hends
    obtain ⟨I, hI, -, hpost⟩ := hends
    have henable := hpost held hI
    rw [enable_eq] at henable
    have hperm := Code.Meets.perm_of_unlockAll henable
    exact (hs.owns l).mp (hperm.mem_iff.mpr (List.mem_reverse.mpr hl))
  refine ⟨howns, fun l u hl hu => ?_⟩
  obtain ⟨held, hs⟩ := hinv u
  have hother : ∀ m ∈ held, m ∉ cfg.disabledLocks ringBuffer := by
    intro m hm hd
    have heq := ((hs.owns m).mp hm).symm.trans (howns m hd)
    exact hu (Option.some.inj heq)
  have hmem := (hs.owns l).mpr hl
  have hhas := hs.admits.1 l hmem
  have hbuffer : l ≠ .bufferPool := by
    rintro rfl
    obtain ⟨c, hc⟩ := hs.admits.2 hmem
    exact hother _ hc (mem_disabledLocks.mpr ⟨hs.admits.1 _ hc, by simp⟩)
  by_contra hcon
  rw [not_or, not_and, not_and] at hcon
  refine hother l hmem (mem_disabledLocks.mpr ⟨hhas, ?_, hbuffer, fun he => ?_⟩)
  · rintro rfl
    exact hcon.1 rfl hhas
  · simpa using hcon.2 he

end Runs

def twoClasses (registry : Registry) : Config := ⟨2, Nat.zero_lt_two, false, true, registry⟩

def noCalls : System Lock (Fin 2) := ⟨fun _ => none, fun _ => []⟩

/-- Thread 0 calls `disable`; behind it thread 1 makes a call. -/
def whileDisabled (cfg : Config) (steps : Nat) (call : Code Lock) (choices : List Nat) :
    List (Act Lock (Fin 2)) :=
  .call 0 (.seq (.seq (cfg.disable true false) (.loop cfg.iterateOverChunks)) (cfg.enable false)) ::
    List.replicate steps (.run 0 0) ++ .call 1 call :: choices.map (.run 1)

theorem reachable_whileDisabled {cfg : Config} {steps : Nat} {call : Code Lock} {choices : List Nat}
    (hcall : cfg.Call call) {s : System Lock (Fin 2)}
    (h : TransitionSystem.run System.step noCalls (whileDisabled cfg steps call choices) = some s) :
    System.Reachable cfg.Call s := by
  refine .run (.start ⟨fun _ => rfl, fun _ => rfl⟩) (fun s a ha => ?_) h
  rw [whileDisabled, List.cons_append, List.mem_cons, List.mem_append, List.mem_cons] at ha
  rcases ha with rfl | ha | rfl | ha
  · exact .disabled true false
  · rw [List.eq_of_mem_replicate ha]
    exact trivial
  · exact hcall
  · obtain ⟨n, -, rfl⟩ := List.mem_map.mp ha
    exact trivial

/-- Thread 1 waits for the lock of the registry. -/
theorem waiting_whileDisabled : ∃ s : System Lock (Fin 2),
    System.Reachable (twoClasses .exclusive).Call s ∧
      s.pending 0 = (twoClasses .exclusive).disabled false ∧ s.pending 1 ≠ [] := by
  obtain ⟨s, hs⟩ := Option.isSome_iff_exists.mp (show (TransitionSystem.run System.step noCalls
    (whileDisabled (twoClasses .exclusive) 25 ((twoClasses .exclusive).allocate false)
      [0, 0, 0])).isSome = true from rfl)
  refine ⟨s, reachable_whileDisabled (.allocate false) hs, ?_, ?_⟩
  · cases hs
    rfl
  · cases hs
    exact List.cons_ne_nil _ _

theorem calls_finish_whileDisabled : ∃ s : System Lock (Fin 2),
    s.pending 0 = (twoClasses .exclusive).disabled false ∧ s.pending 1 ≠ [] ∧ s.CallsFinish := by
  obtain ⟨s, hs, h0, h1⟩ := waiting_whileDisabled
  exact ⟨s, h0, h1, calls_finish hs⟩

theorem disabled_owns_whileDisabled : ∃ s : System Lock (Fin 2),
    s.owner .registry = some 0 ∧ ∀ l, s.owner l ≠ some 1 ∨ l = .ringEnd := by
  obtain ⟨s, hs, h0, -⟩ := waiting_whileDisabled
  obtain ⟨howns, hothers⟩ := disabled_owns hs h0
  refine ⟨s, howns .registry (by simp [disabledLocks]), fun l => ?_⟩
  by_cases hl : s.owner l = some 1
  · rcases hothers l 1 hl (by decide) with ⟨-, h⟩ | ⟨h, -⟩
    · exact absurd rfl h
    · exact .inr h
  · exact .inl hl

/-- The lock of the shared registry may be held by another thread while the allocator is disabled, so
that a child that is forked then never gets it. -/
theorem mutexTSDs_whileDisabled : ∃ s : System Lock (Fin 2),
    System.Reachable (twoClasses (.shared 2)).Call s ∧
      s.pending 0 = (twoClasses (.shared 2)).disabled false ∧ s.owner .mutexTSDs = some 1 := by
  obtain ⟨s, hs⟩ := Option.isSome_iff_exists.mp (show (TransitionSystem.run System.step noCalls
    (whileDisabled (twoClasses (.shared 2)) 27 ((twoClasses (.shared 2)).releaseToOS true)
      [0, 0, 0, 1, 0, 0])).isSome = true from rfl)
  refine ⟨s, reachable_whileDisabled (.releaseToOS true) hs, ?_, ?_⟩
  · cases hs
    rfl
  · cases hs
    rfl

end ScudoMte.Locks.Config
