import Mathlib.Tactic.Abel
import ScudoMte.Library.Slots
import ScudoMte.Library.TransitionSystem
import ScudoMte.Quarantine.Cache

namespace ScudoMte

open Slots
open QuarantineCache (chunksOf addrsOf sizes)

/-- The merge that `recycle` makes when the batches themselves take up too much. -/
def mergeMaybe (cache : QuarantineCache) : QuarantineCache × QuarantineCache :=
  if cache.size > cache.getOverheadSize ∧
      cache.getOverheadSize * (100+100) % 2^64 > cache.size * 100 % 2^64
  then cache.mergeBatches .empty
  else (cache, .empty)

/-- The loop that moves batches to `tmp` until the cache is small enough, on the list of the
cache and its size; `none` is the dequeue from an empty list. -/
def extractFrom (minSize : Nat) : List QuarantineBatch → Nat → QuarantineCache →
    Option (QuarantineCache × QuarantineCache)
  | [], size, tmp => if size > minSize then none else some (⟨[], size⟩, tmp)
  | b::bs, size, tmp =>
    if size > minSize then extractFrom minSize bs (wrapSub size b.size) (tmp.enqueueBatch b)
    else some (⟨b::bs, size⟩, tmp)

/-- The loop dequeues as long as the cache is too large. -/
theorem extractFrom_eq (minSize : Nat) (cache tmp : QuarantineCache) :
    extractFrom minSize cache.list cache.size tmp =
      if cache.size > minSize then cache.dequeueBatch.bind fun dequeued =>
        extractFrom minSize dequeued.2.list dequeued.2.size (tmp.enqueueBatch dequeued.1)
      else some (cache, tmp) := by
  obtain ⟨list, size⟩ := cache
  cases list with
  | nil => rfl
  | cons b bs => rfl

/-- The part of `recycle` under the lock of the cache. -/
def extractBatches (minSize : Nat) (cache : QuarantineCache) :
    Option (QuarantineCache × QuarantineCache) :=
  let merged := mergeMaybe cache
  extractFrom minSize merged.1.list merged.1.size merged.2

/-- The chunks recycled, in order, and the batches deallocated. -/
def doRecycle (tmpAddr : Nat) : List QuarantineBatch → List QuarantinedChunk × List Nat
  | [] => ([], [])
  | b::bs =>
    let seed := ((b.addr ^^^ tmpAddr) >>> 4) % 2^32
    let rest := doRecycle tmpAddr bs
    ((b.shuffle seed).batch ++ rest.1, b.addr :: rest.2)

theorem extractFrom_spec (minSize : Nat) (list : List QuarantineBatch) (size : Nat)
    (tmp : QuarantineCache) (hsize : size = sizes list % 2^64) (hlt : ∀ b ∈ list, b.size < 2^64) :
    ∃ dequeued kept, list = dequeued ++ kept ∧
      extractFrom minSize list size tmp =
        some (⟨kept, sizes kept % 2^64⟩, dequeued.foldl QuarantineCache.enqueueBatch tmp) ∧
      sizes kept % 2^64 ≤ minSize := by
  induction list generalizing size tmp with
  | nil =>
    rw [QuarantineCache.sizes_nil, Nat.zero_mod] at hsize
    refine ⟨[], [], rfl, ?_, ?_⟩
    · rw [extractFrom, if_neg (by omega), hsize, QuarantineCache.sizes_nil, Nat.zero_mod,
        List.foldl_nil]
    · rw [QuarantineCache.sizes_nil, Nat.zero_mod]
      exact Nat.zero_le minSize
  | cons b bs ih =>
    have hb := hlt b List.mem_cons_self
    rw [extractFrom]
    split
    · obtain ⟨dequeued, kept, hlist, heq, hle⟩ := ih (wrapSub size b.size) (tmp.enqueueBatch b)
        (by
          rw [QuarantineCache.sizes_cons] at hsize
          rw [hsize, wrapSub]
          omega)
        (fun x hx => hlt x (List.mem_cons_of_mem _ hx))
      exact ⟨b::dequeued, kept, by rw [hlist, List.cons_append], heq, hle⟩
    · next hle =>
      exact ⟨[], b::bs, rfl, by rw [hsize, List.foldl_nil], by rw [← hsize]; omega⟩

theorem mergeMaybe_spec {cache : QuarantineCache} (h : cache.Ok) :
    ∃ cache' emptied, mergeMaybe cache =
        (cache', emptied.foldl QuarantineCache.enqueueBatch .empty) ∧ cache'.Ok ∧
      (∀ b ∈ emptied, b.Ok ∧ b.batch = []) ∧
      chunksOf cache'.list = chunksOf cache.list ∧
      addrsOf cache'.list + addrsOf emptied = addrsOf cache.list := by
  rw [mergeMaybe]
  split
  · exact h.mergeBatches .empty
  · exact ⟨cache, [], rfl, h, by simp, rfl, by rw [QuarantineCache.addrsOf_nil, add_zero]⟩

/-- Recycling finds enough batches: it stops at the limit, and what it takes out are the batches
that the merge emptied and filled batches from the front. -/
theorem extractBatches_spec (minSize : Nat) {cache : QuarantineCache} (h : cache.Ok) :
    ∃ cache' tmp dequeued, extractBatches minSize cache = some (cache', tmp) ∧ cache'.Ok ∧
      cache'.size ≤ minSize ∧ tmp.list = (mergeMaybe cache).2.list ++ dequeued ∧
      (∀ b ∈ (mergeMaybe cache).2.list, b.Ok ∧ b.batch = []) ∧
      (∀ b ∈ dequeued, b.Ok ∧ 1 ≤ b.count) ∧ tmp.size = sizes tmp.list % 2^64 ∧
      chunksOf cache'.list + chunksOf tmp.list = chunksOf cache.list ∧
      addrsOf cache'.list + addrsOf tmp.list = addrsOf cache.list := by
  obtain ⟨merged, emptied, hmerge, hok, hempty, hch, had⟩ := mergeMaybe_spec h
  have hemptied : (emptied.foldl QuarantineCache.enqueueBatch .empty).list = emptied := by
    rw [QuarantineCache.foldl_enqueueBatch_list]
    rfl
  have hesize := QuarantineCache.foldl_enqueueBatch_size emptied .empty QuarantineCache.Ok.empty.size_eq
  obtain ⟨dequeued, kept, hlist, heq, hle⟩ := extractFrom_spec minSize merged.list merged.size
    (emptied.foldl QuarantineCache.enqueueBatch .empty) hok.size_eq
    (fun b hb => (hok.batches b hb).size_lt)
  have hkept : ∀ b ∈ kept, b ∈ merged.list := fun b hb => hlist ▸ List.mem_append_right _ hb
  have hdeq : ∀ b ∈ dequeued, b ∈ merged.list := fun b hb => hlist ▸ List.mem_append_left _ hb
  have htmp : (dequeued.foldl QuarantineCache.enqueueBatch
      (emptied.foldl QuarantineCache.enqueueBatch .empty)).list = emptied ++ dequeued := by
    rw [QuarantineCache.foldl_enqueueBatch_list, hemptied]
  have hchunks := QuarantineCache.chunksOf_eq_zero fun b hb => (hempty b hb).2
  have htsize := QuarantineCache.foldl_enqueueBatch_size dequeued _ (by rw [hesize, hemptied]; rfl)
  refine ⟨_, _, dequeued, by rw [extractBatches, hmerge]; exact heq,
    ⟨rfl, fun b hb => hok.batches b (hkept b hb), fun b hb => hok.filled b (hkept b hb)⟩, hle,
    ?_, ?_, fun b hb => ⟨hok.batches b (hdeq b hb), hok.filled b (hdeq b hb)⟩, ?_, ?_, ?_⟩
  · rw [htmp, hmerge, hemptied]
  · rw [hmerge, hemptied]
    exact hempty
  · rw [htsize, hemptied, htmp]
  · rw [htmp, ← hch, hlist, QuarantineCache.chunksOf_append, QuarantineCache.chunksOf_append,
      hchunks, zero_add, add_comm]
  · rw [htmp, ← had, hlist, QuarantineCache.addrsOf_append, QuarantineCache.addrsOf_append,
      add_left_comm, add_comm (addrsOf kept), add_comm (addrsOf emptied)]

theorem doRecycle_spec (tmpAddr : Nat) (bs : List QuarantineBatch) :
    ((doRecycle tmpAddr bs).1 : Multiset QuarantinedChunk) = chunksOf bs ∧
      ((doRecycle tmpAddr bs).2 : Multiset Nat) = addrsOf bs := by
  induction bs with
  | nil => exact ⟨rfl, rfl⟩
  | cons b bs ih =>
    obtain ⟨hch, had⟩ := ih
    rw [doRecycle]
    refine ⟨?_, ?_⟩
    · rw [QuarantineCache.chunksOf_cons, ← hch, ← Multiset.coe_add]
      congr 1
      exact Multiset.coe_eq_coe.mpr (shuffle_perm b.batch _)
    · rw [QuarantineCache.addrsOf_cons, ← had, ← Multiset.cons_coe, Multiset.singleton_add]

/-- The global quarantine with the caches of the threads, and what was put, recycled, allocated
and deallocated so far. -/
structure GlobalQuarantine (ι : Type*) where
  minSize : Nat
  maxSize : Nat
  maxCacheSize : Nat
  cache : QuarantineCache
  caches : ι → QuarantineCache
  puts : List QuarantinedChunk
  recycled : List QuarantinedChunk
  allocated : List Nat
  deallocated : List Nat

/-- What an operation meets: the batch that `Callback::allocate` would return, whether nobody
else is recycling, and where the temporary cache lives. -/
structure QuarantineEnv where
  batchAddr : Nat
  tryLock : Bool
  tmpAddr : Nat

namespace GlobalQuarantine

variable {ι : Type*} [DecidableEq ι]

def init (minSize maxSize maxCacheSize : Nat) : GlobalQuarantine ι :=
  { minSize, maxSize, maxCacheSize, cache := .empty, caches := fun _ => .empty,
    puts := [], recycled := [], allocated := [], deallocated := [] }

def recycle (q : GlobalQuarantine ι) (minSize tmpAddr : Nat) : Option (GlobalQuarantine ι) :=
  (extractBatches minSize q.cache).map fun extracted =>
    let done := doRecycle tmpAddr extracted.2.list
    { q with
      cache := extracted.1
      recycled := q.recycled ++ done.1
      deallocated := q.deallocated ++ done.2 }

/-- `Cache.transfer(C)` for the cache of thread `i`. -/
def transfer (q : GlobalQuarantine ι) (i : ι) : GlobalQuarantine ι :=
  let moved := q.cache.transfer (q.caches i)
  { q with cache := moved.1, caches := Function.update q.caches i moved.2 }

def drain (q : GlobalQuarantine ι) (i : ι) (env : QuarantineEnv) : Option (GlobalQuarantine ι) :=
  let q := q.transfer i
  let needRecycle := q.cache.size > q.maxSize
  if needRecycle ∧ env.tryLock then q.recycle q.minSize env.tmpAddr else some q

def drainAndRecycle (q : GlobalQuarantine ι) (i : ι) (env : QuarantineEnv) :
    Option (GlobalQuarantine ι) :=
  (q.transfer i).recycle 0 env.tmpAddr

def put (q : GlobalQuarantine ι) (i : ι) (chunk : QuarantinedChunk) (env : QuarantineEnv) :
    Option (GlobalQuarantine ι) :=
  let entered := (q.caches i).enqueue env.batchAddr chunk
  let q := { q with
    caches := Function.update q.caches i entered.1
    puts := q.puts ++ [chunk]
    allocated := q.allocated ++ entered.2 }
  if entered.1.size > q.maxCacheSize then q.drain i env else some q

inductive Op (ι : Type*)
  | put (i : ι) (chunk : QuarantinedChunk)
  | drain (i : ι)
  | drainAndRecycle (i : ι)

def step (q : GlobalQuarantine ι) : Op ι × QuarantineEnv → Option (GlobalQuarantine ι)
  | (.put i chunk, env) => q.put i chunk env
  | (.drain i, env) => q.drain i env
  | (.drainAndRecycle i, env) => q.drainAndRecycle i env

/-- The chunks that operations put. -/
def putChunks : List (Op ι × QuarantineEnv) → List QuarantinedChunk
  | [] => []
  | (.put _ chunk, _)::ops => chunk :: putChunks ops
  | _::ops => putChunks ops

/-- The batch that an operation allocates: one is needed where the cache has none with room at its
end. -/
def newBatches (q : GlobalQuarantine ι) : Op ι × QuarantineEnv → List Nat
  | (.put i _, env) =>
      if (q.caches i).list.getLast?.all fun back => back.count = QuarantineBatch.maxCount
      then [env.batchAddr] else []
  | _ => []

/-- The batches that operations allocate, one after another. -/
def batchesFrom (q : GlobalQuarantine ι) : List (Op ι × QuarantineEnv) → List Nat
  | [] => []
  | op::ops =>
    match q.step op with
    | none => q.newBatches op
    | some q' => q.newBatches op ++ batchesFrom q' ops

omit [DecidableEq ι] in
theorem recycle_logs {q q' : GlobalQuarantine ι} {minSize tmpAddr : Nat}
    (h : q.recycle minSize tmpAddr = some q') :
    q'.puts = q.puts ∧ q'.allocated = q.allocated := by
  obtain ⟨extracted, -, rfl⟩ := Option.map_eq_some_iff.mp h
  exact ⟨rfl, rfl⟩

theorem drain_logs {q q' : GlobalQuarantine ι} {i : ι} {env : QuarantineEnv}
    (h : q.drain i env = some q') : q'.puts = q.puts ∧ q'.allocated = q.allocated := by
  simp only [drain] at h
  split at h
  · obtain ⟨hputs, hallocated⟩ := recycle_logs h
    exact ⟨hputs, hallocated⟩
  · rw [← Option.some.inj h]
    exact ⟨rfl, rfl⟩

theorem enqueue_snd (c : QuarantineCache) (addr : Nat) (chunk : QuarantinedChunk) :
    (c.enqueue addr chunk).2 =
      if c.list.getLast?.all fun back => back.count = QuarantineBatch.maxCount
      then [addr] else [] := by
  rw [QuarantineCache.enqueue]
  cases c.list.getLast? with
  | none => rfl
  | some back =>
    by_cases hfull : back.count = QuarantineBatch.maxCount
    · simp [hfull]
    · simp [hfull]

/-- An operation adds the chunk that it puts and the batch that it allocates, and nothing else. -/
theorem step_logs {q q' : GlobalQuarantine ι} {op : Op ι × QuarantineEnv} (h : q.step op = some q') :
    q'.puts = q.puts ++ putChunks [op] ∧ q'.allocated = q.allocated ++ q.newBatches op := by
  obtain ⟨op, env⟩ := op
  cases op with
  | put i chunk =>
    simp only [step, put, enqueue_snd] at h
    split at h
    · obtain ⟨hputs, hallocated⟩ := drain_logs h
      exact ⟨hputs, hallocated⟩
    · rw [← Option.some.inj h]
      exact ⟨rfl, rfl⟩
  | drain i =>
    simp only [putChunks, newBatches, List.append_nil]
    exact drain_logs h
  | drainAndRecycle i =>
    obtain ⟨hputs, hallocated⟩ := recycle_logs h
    simp only [putChunks, newBatches, List.append_nil]
    exact ⟨hputs, hallocated⟩

omit [DecidableEq ι] in
theorem putChunks_cons (op : Op ι × QuarantineEnv) (ops : List (Op ι × QuarantineEnv)) :
    putChunks (op::ops) = putChunks [op] ++ putChunks ops := by
  obtain ⟨op, env⟩ := op
  cases op <;> rfl

theorem run_logs {q q' : GlobalQuarantine ι} {ops : List (Op ι × QuarantineEnv)}
    (h : TransitionSystem.run GlobalQuarantine.step q ops = some q') :
    q'.puts = q.puts ++ putChunks ops ∧ q'.allocated = q.allocated ++ q.batchesFrom ops := by
  induction ops generalizing q with
  | nil =>
    rw [← Option.some.inj h]
    exact ⟨(List.append_nil _).symm, (List.append_nil _).symm⟩
  | cons op ops ih =>
    obtain ⟨q1, hstep, hrest⟩ := Option.bind_eq_some_iff.mp h
    obtain ⟨hputs, hallocated⟩ := step_logs hstep
    obtain ⟨hputs', hallocated'⟩ := ih hrest
    rw [putChunks_cons, batchesFrom, hstep]
    exact ⟨by rw [hputs', hputs, List.append_assoc],
      by rw [hallocated', hallocated, List.append_assoc]⟩

theorem update_ok {caches : ι → QuarantineCache} (h : ∀ i, (caches i).Ok) (i : ι)
    {c : QuarantineCache} (hc : c.Ok) (j : ι) : (Function.update caches i c j).Ok := by
  by_cases hj : j = i
  · subst hj
    rwa [Function.update_self]
  · rw [Function.update_of_ne hj]
    exact h j

variable [Fintype ι]

/-- Every chunk put was recycled or is in one batch, every batch allocated was deallocated or is
in one cache, and the size counters agree with the batches. -/
structure Inv (q : GlobalQuarantine ι) : Prop where
  cache_ok : q.cache.Ok
  caches_ok : ∀ i, (q.caches i).Ok
  chunks : (q.puts : Multiset QuarantinedChunk) =
    q.recycled + (chunksOf q.cache.list + ∑ i, chunksOf (q.caches i).list)
  batches : (q.allocated : Multiset Nat) =
    q.deallocated + (addrsOf q.cache.list + ∑ i, addrsOf (q.caches i).list)

omit [DecidableEq ι] in
theorem init_inv (minSize maxSize maxCacheSize : Nat) :
    Inv (init minSize maxSize maxCacheSize : GlobalQuarantine ι) where
  cache_ok := .empty
  caches_ok _ := .empty
  chunks := by simp [init, QuarantineCache.empty]
  batches := by simp [init, QuarantineCache.empty]

omit [DecidableEq ι] in
theorem Inv.recycle {q : GlobalQuarantine ι} (h : q.Inv) (minSize tmpAddr : Nat) :
    ∃ q', q.recycle minSize tmpAddr = some q' ∧ q'.Inv ∧ q'.cache.size ≤ minSize := by
  obtain ⟨cache, tmp, -, heq, hok, hle, -, -, -, -, hch, had⟩ :=
    extractBatches_spec minSize h.cache_ok
  obtain ⟨hrec, hdel⟩ := doRecycle_spec tmpAddr tmp.list
  rw [GlobalQuarantine.recycle, heq]
  refine ⟨_, rfl, ⟨hok, h.caches_ok, ?_, ?_⟩, hle⟩
  · simp only []
    rw [h.chunks, ← hch, ← Multiset.coe_add, hrec]
    abel
  · simp only []
    rw [h.batches, ← had, ← Multiset.coe_add, hdel]
    abel

theorem Inv.transfer {q : GlobalQuarantine ι} (h : q.Inv) (i : ι) : (q.transfer i).Inv := by
  obtain ⟨hto, hsrc⟩ := h.cache_ok.transfer (h.caches_ok i)
  refine ⟨hto, update_ok h.caches_ok i hsrc, ?_, ?_⟩
  · rw [GlobalQuarantine.transfer, h.chunks, sum_update (fun c : QuarantineCache => chunksOf c.list),
      sum_split (fun c : QuarantineCache => chunksOf c.list) q.caches i]
    simp only [QuarantineCache.transfer, QuarantineCache.addToSize, QuarantineCache.chunksOf_append,
      QuarantineCache.chunksOf_nil, zero_add]
    abel
  · rw [GlobalQuarantine.transfer, h.batches, sum_update (fun c : QuarantineCache => addrsOf c.list),
      sum_split (fun c : QuarantineCache => addrsOf c.list) q.caches i]
    simp only [QuarantineCache.transfer, QuarantineCache.addToSize, QuarantineCache.addrsOf_append,
      QuarantineCache.addrsOf_nil, zero_add]
    abel

theorem Inv.drain {q : GlobalQuarantine ι} (h : q.Inv) (i : ι) (env : QuarantineEnv) :
    ∃ q', q.drain i env = some q' ∧ q'.Inv := by
  rw [GlobalQuarantine.drain]
  split
  · obtain ⟨q', heq, hinv, -⟩ := (h.transfer i).recycle (q.transfer i).minSize env.tmpAddr
    exact ⟨q', heq, hinv⟩
  · exact ⟨_, rfl, h.transfer i⟩

theorem Inv.drainAndRecycle {q : GlobalQuarantine ι} (h : q.Inv) (i : ι) (env : QuarantineEnv) :
    ∃ q', q.drainAndRecycle i env = some q' ∧ q'.Inv := by
  obtain ⟨q', heq, hinv, -⟩ := (h.transfer i).recycle 0 env.tmpAddr
  exact ⟨q', heq, hinv⟩

theorem Inv.put {q : GlobalQuarantine ι} (h : q.Inv) (i : ι) (chunk : QuarantinedChunk)
    (env : QuarantineEnv) : ∃ q', q.put i chunk env = some q' ∧ q'.Inv := by
  obtain ⟨hok, hch, had⟩ := (h.caches_ok i).enqueue env.batchAddr chunk
  have hinv : Inv { q with
      caches := Function.update q.caches i ((q.caches i).enqueue env.batchAddr chunk).1
      puts := q.puts ++ [chunk]
      allocated := q.allocated ++ ((q.caches i).enqueue env.batchAddr chunk).2 } := by
    refine ⟨h.cache_ok, update_ok h.caches_ok i hok, ?_, ?_⟩
    · simp only []
      rw [← Multiset.coe_add, h.chunks, sum_update (fun c : QuarantineCache => chunksOf c.list),
        sum_split (fun c : QuarantineCache => chunksOf c.list) q.caches i, hch, Multiset.coe_singleton]
      abel
    · simp only []
      rw [← Multiset.coe_add, h.batches, sum_update (fun c : QuarantineCache => addrsOf c.list),
        sum_split (fun c : QuarantineCache => addrsOf c.list) q.caches i, had]
      abel
  rw [GlobalQuarantine.put]
  split
  · exact hinv.drain i env
  · exact ⟨_, rfl, hinv⟩

theorem Inv.step {q : GlobalQuarantine ι} (h : q.Inv) (op : Op ι × QuarantineEnv) :
    ∃ q', q.step op = some q' ∧ q'.Inv := by
  obtain ⟨op, env⟩ := op
  cases op with
  | put i chunk => exact h.put i chunk env
  | drain i => exact h.drain i env
  | drainAndRecycle i => exact h.drainAndRecycle i env

theorem Inv.run {q : GlobalQuarantine ι} (h : q.Inv) (ops : List (Op ι × QuarantineEnv)) :
    ∃ q', TransitionSystem.run GlobalQuarantine.step q ops = some q' ∧ q'.Inv := by
  induction ops generalizing q with
  | nil => exact ⟨q, rfl, h⟩
  | cons op ops ih =>
    obtain ⟨q', hstep, hinv⟩ := h.step op
    obtain ⟨q'', hrun, hfinal⟩ := ih hinv
    refine ⟨q'', ?_, hfinal⟩
    rw [TransitionSystem.run_cons, hstep, Option.bind_some, hrun]

/-- After any sequence of operations, what was put and allocated is what the operations say, nothing
of it is lost or duplicated, and all counters agree; a recycling from there finds enough batches,
takes out filled ones and those that a merge emptied, and ends below its limit. -/
theorem run_conserves (minSize maxSize maxCacheSize : Nat) (ops : List (Op ι × QuarantineEnv)) :
    ∃ q, TransitionSystem.run GlobalQuarantine.step
        (init minSize maxSize maxCacheSize : GlobalQuarantine ι) ops = some q ∧ q.Inv ∧
      q.puts = putChunks ops ∧
      q.allocated = (init minSize maxSize maxCacheSize : GlobalQuarantine ι).batchesFrom ops ∧
      ∀ limit, (∃ cache tmp dequeued, extractBatches limit q.cache = some (cache, tmp) ∧
          tmp.list = (mergeMaybe q.cache).2.list ++ dequeued ∧
          (∀ b ∈ (mergeMaybe q.cache).2.list, b.Ok ∧ b.count = 0) ∧
          (∀ b ∈ dequeued, b.Ok ∧ 1 ≤ b.count) ∧ tmp.size = sizes tmp.list % 2^64) ∧
        ∀ tmpAddr, ∃ q', q.recycle limit tmpAddr = some q' ∧ q'.Inv ∧ q'.cache.size ≤ limit := by
  obtain ⟨q, hrun, hinv⟩ := (init_inv (ι := ι) minSize maxSize maxCacheSize).run ops
  obtain ⟨hputs, hallocated⟩ := run_logs hrun
  refine ⟨q, hrun, hinv, hputs, hallocated, ?_⟩
  intro limit
  obtain ⟨cache, tmp, dequeued, heq, -, -, hlist, hempty, hdeq, hsize, -, -⟩ :=
    extractBatches_spec limit hinv.cache_ok
  refine ⟨⟨cache, tmp, dequeued, heq, hlist, ?_, hdeq, hsize⟩, hinv.recycle limit⟩
  intro b hb
  obtain ⟨hok, hnil⟩ := hempty b hb
  exact ⟨hok, by rw [QuarantineBatch.count, hnil, List.length_nil]⟩

/-- Two threads put chunks; the first one's are recycled, and the other's wait in the quarantine, as
somebody else recycles there. -/
def twoThreads : List (Op Bool × QuarantineEnv) :=
  [(.put false ⟨0x1010, 100⟩, ⟨0x100000, true, 0x7000⟩),
    (.put true ⟨0x2010, 50⟩, ⟨0x200000, true, 0x7000⟩),
    (.put false ⟨0x1050, 30⟩, ⟨0x300000, true, 0x7000⟩),
    (.drainAndRecycle false, ⟨0, true, 0x7000⟩), (.drain true, ⟨0, false, 0x7000⟩)]

theorem run_conserves_twoThreads :
    ∃ q, TransitionSystem.run GlobalQuarantine.step (init 0 0 (2^20)) twoThreads = some q ∧ q.Inv ∧
      q.puts = [⟨0x1010, 100⟩, ⟨0x2010, 50⟩, ⟨0x1050, 30⟩] ∧ q.allocated = [0x100000, 0x200000] ∧
      q.recycled.length = 2 ∧ q.deallocated = [0x100000] ∧
      q.cache.list = [⟨0x200000, 8226, [⟨0x2010, 50⟩]⟩] := by
  obtain ⟨q, hrun, hinv, hputs, hallocated, -⟩ := run_conserves (ι := Bool) 0 0 (2^20) twoThreads
  have hend : (TransitionSystem.run GlobalQuarantine.step (init 0 0 (2^20)) twoThreads).map
      (fun q => (q.recycled.length, q.deallocated, q.cache.list)) =
        some (2, [0x100000], [⟨0x200000, 8226, [⟨0x2010, 50⟩]⟩]) := by
    decide +kernel
  rw [hrun] at hend
  simp only [Option.map_some, Option.some.injEq, Prod.mk.injEq] at hend
  refine ⟨q, hrun, hinv, hputs, ?_, hend⟩
  rw [hallocated]
  decide +kernel

end GlobalQuarantine

end ScudoMte
