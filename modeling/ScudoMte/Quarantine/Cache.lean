import Mathlib.Algebra.BigOperators.Group.Multiset.Basic
import Mathlib.Algebra.Order.Group.Multiset
import ScudoMte.Common
import ScudoMte.Shuffle

namespace ScudoMte

/-- A chunk with the size it was put with; the array of a batch holds the pointer only. -/
structure QuarantinedChunk where
  ptr : Nat
  size : Nat
  deriving DecidableEq

structure QuarantineBatch where
  addr : Nat
  size : Nat
  batch : List QuarantinedChunk
  deriving DecidableEq

namespace QuarantineBatch

def maxCount : Nat := 1019
def sizeofQuarantineBatch : Nat := 8176

def count (b : QuarantineBatch) : Nat := b.batch.length

def init (addr : Nat) (chunk : QuarantinedChunk) : QuarantineBatch :=
  { addr := addr, size := (chunk.size + sizeofQuarantineBatch) % 2^64, batch := [chunk] }

def getQuarantinedSize (b : QuarantineBatch) : Nat := wrapSub b.size sizeofQuarantineBatch

def pushBack (b : QuarantineBatch) (chunk : QuarantinedChunk) : QuarantineBatch :=
  { b with batch := b.batch ++ [chunk], size := (b.size + chunk.size) % 2^64 }

def canMerge (b src : QuarantineBatch) : Bool := b.count + src.count ≤ maxCount

/-- The batch that took over the chunks, and the emptied one. -/
def merge (b src : QuarantineBatch) : QuarantineBatch × QuarantineBatch :=
  ({ b with batch := b.batch ++ src.batch, size := (b.size + src.getQuarantinedSize) % 2^64 },
    { src with batch := [], size := sizeofQuarantineBatch })

def shuffle (b : QuarantineBatch) (state : Nat) : QuarantineBatch :=
  { b with batch := (ScudoMte.shuffle b.batch state).1 }

/-- The size of a batch is what its chunks and the batch itself occupy. -/
structure Ok (b : QuarantineBatch) : Prop where
  size_eq : b.size = (sizeofQuarantineBatch + (b.batch.map (·.size)).sum) % 2^64
  count_le : b.count ≤ maxCount

theorem Ok.size_lt {b : QuarantineBatch} (h : b.Ok) : b.size < 2^64 := by
  rw [h.size_eq]
  exact Nat.mod_lt _ (Nat.two_pow_pos 64)

theorem Ok.init (addr : Nat) (chunk : QuarantinedChunk) : (init addr chunk).Ok where
  size_eq := by
    rw [QuarantineBatch.init, List.map_singleton, List.sum_singleton, Nat.add_comm]
  count_le := show 1 ≤ 1019 by decide

theorem Ok.pushBack {b : QuarantineBatch} (h : b.Ok) (hlt : b.count < maxCount)
    (chunk : QuarantinedChunk) : (b.pushBack chunk).Ok where
  size_eq := by
    simp only [QuarantineBatch.pushBack, h.size_eq, List.map_append, List.sum_append,
      List.map_singleton, List.sum_singleton]
    omega
  count_le := by
    rw [count, QuarantineBatch.pushBack, List.length_append, List.length_singleton]
    exact hlt

theorem Ok.merge {b src : QuarantineBatch} (hb : b.Ok) (hs : src.Ok) (hcan : b.canMerge src) :
    (b.merge src).1.Ok where
  size_eq := by
    simp only [QuarantineBatch.merge, getQuarantinedSize, wrapSub, hb.size_eq, hs.size_eq,
      List.map_append, List.sum_append, sizeofQuarantineBatch]
    omega
  count_le := by
    rw [count, QuarantineBatch.merge, List.length_append]
    exact of_decide_eq_true hcan

theorem merge_batch (b src : QuarantineBatch) :
    (b.merge src).1.batch = b.batch ++ src.batch := by simp only [merge]

theorem merge_addr (b src : QuarantineBatch) :
    (b.merge src).1.addr = b.addr ∧ (b.merge src).2.addr = src.addr := by
  cases b
  cases src
  exact ⟨rfl, rfl⟩

theorem Ok.emptied (b src : QuarantineBatch) :
    (b.merge src).2.Ok ∧ (b.merge src).2.batch = [] := by
  refine ⟨⟨?_, Nat.zero_le _⟩, rfl⟩
  simp only [QuarantineBatch.merge, List.map_nil, List.sum_nil]
  decide

/-- Merging moves the quarantined sizes along with the chunks. -/
theorem merge_size {b src : QuarantineBatch} (hs : src.Ok) :
    ((b.merge src).1.size + (b.merge src).2.size) % 2^64 = (b.size + src.size) % 2^64 := by
  simp only [merge, getQuarantinedSize, wrapSub, hs.size_eq, sizeofQuarantineBatch]
  omega

end QuarantineBatch

open QuarantineBatch (maxCount sizeofQuarantineBatch)

structure QuarantineCache where
  list : List QuarantineBatch
  size : Nat

namespace QuarantineCache

def empty : QuarantineCache := { list := [], size := 0 }

def getOverheadSize (c : QuarantineCache) : Nat := c.list.length * sizeofQuarantineBatch % 2^64

def addToSize (c : QuarantineCache) (add : Nat) : QuarantineCache :=
  { c with size := (c.size + add) % 2^64 }

def subFromSize (c : QuarantineCache) (sub : Nat) : QuarantineCache :=
  { c with size := wrapSub c.size sub }

def enqueueBatch (c : QuarantineCache) (b : QuarantineBatch) : QuarantineCache :=
  addToSize { c with list := c.list ++ [b] } b.size

/-- The new cache and the batches that were allocated for it: one at `addr` or none. -/
def enqueue (c : QuarantineCache) (addr : Nat) (chunk : QuarantinedChunk) :
    QuarantineCache × List Nat :=
  match c.list.getLast? with
  | none => (c.enqueueBatch (.init addr chunk), [addr])
  | some back =>
    if back.count = maxCount then (c.enqueueBatch (.init addr chunk), [addr])
    else (addToSize { c with list := c.list.dropLast ++ [back.pushBack chunk] } chunk.size, [])

/-- The new cache and the emptied source. -/
def transfer (c src : QuarantineCache) : QuarantineCache × QuarantineCache :=
  (addToSize { c with list := c.list ++ src.list } src.size, { src with list := [], size := 0 })

def dequeueBatch (c : QuarantineCache) : Option (QuarantineBatch × QuarantineCache) :=
  match c.list with
  | [] => none
  | b::bs => some (b, subFromSize { c with list := bs } b.size)

/-- The loop of `mergeBatches` at `current`: the batches that stay, the list of emptied batches
and the size extracted so far. -/
def mergeFrom : QuarantineBatch → List QuarantineBatch → QuarantineCache → Nat →
    List QuarantineBatch × QuarantineCache × Nat
  | current, [], toDeallocate, extractedSize => ([current], toDeallocate, extractedSize)
  | current, next::rest, toDeallocate, extractedSize =>
    if current.canMerge next then
      let merged := current.merge next
      mergeFrom merged.1 rest (toDeallocate.enqueueBatch merged.2)
        ((extractedSize + merged.2.size) % 2^64)
    else
      let loop := mergeFrom next rest toDeallocate extractedSize
      (current :: loop.1, loop.2)

def mergeBatches (c toDeallocate : QuarantineCache) : QuarantineCache × QuarantineCache :=
  match c.list with
  | [] => (c.subFromSize 0, toDeallocate)
  | current::rest =>
    let (kept, toDeallocate, extractedSize) := mergeFrom current rest toDeallocate 0
    (subFromSize { c with list := kept } extractedSize, toDeallocate)

def sizes (list : List QuarantineBatch) : Nat := (list.map (·.size)).sum

/-- The chunks of a list of batches. -/
def chunksOf (list : List QuarantineBatch) : Multiset QuarantinedChunk :=
  (list.flatMap (·.batch) : List QuarantinedChunk)

/-- The addresses of a list of batches. -/
def addrsOf (list : List QuarantineBatch) : Multiset Nat :=
  (list.map (·.addr) : List Nat)

/-- The size counter agrees with the batches, and all of them hold chunks. -/
structure Ok (c : QuarantineCache) : Prop where
  size_eq : c.size = sizes c.list % 2^64
  batches : ∀ b ∈ c.list, b.Ok
  filled : ∀ b ∈ c.list, 1 ≤ b.count

@[simp] theorem sizes_nil : sizes [] = 0 := rfl
@[simp] theorem sizes_cons (b : QuarantineBatch) (bs : List QuarantineBatch) :
    sizes (b::bs) = b.size + sizes bs := by rw [sizes, sizes, List.map_cons, List.sum_cons]
@[simp] theorem sizes_append (xs ys : List QuarantineBatch) :
    sizes (xs ++ ys) = sizes xs + sizes ys := by
  rw [sizes, sizes, sizes, List.map_append, List.sum_append]

@[simp] theorem chunksOf_nil : chunksOf [] = 0 := rfl
@[simp] theorem chunksOf_cons (b : QuarantineBatch) (bs : List QuarantineBatch) :
    chunksOf (b::bs) = (b.batch : Multiset QuarantinedChunk) + chunksOf bs := by
  rw [chunksOf, chunksOf, List.flatMap_cons, ← Multiset.coe_add]
@[simp] theorem chunksOf_append (xs ys : List QuarantineBatch) :
    chunksOf (xs ++ ys) = chunksOf xs + chunksOf ys := by
  rw [chunksOf, chunksOf, chunksOf, List.flatMap_append, ← Multiset.coe_add]

theorem chunksOf_eq_zero {bs : List QuarantineBatch} (h : ∀ b ∈ bs, b.batch = []) :
    chunksOf bs = 0 := by
  induction bs with
  | nil => rfl
  | cons b bs ih =>
    rw [chunksOf_cons, h b List.mem_cons_self, Multiset.coe_nil, zero_add]
    exact ih fun x hx => h x (List.mem_cons_of_mem _ hx)

@[simp] theorem addrsOf_nil : addrsOf [] = 0 := rfl
@[simp] theorem addrsOf_cons (b : QuarantineBatch) (bs : List QuarantineBatch) :
    addrsOf (b::bs) = {b.addr} + addrsOf bs := by
  rw [addrsOf, addrsOf, List.map_cons, ← Multiset.cons_coe, ← Multiset.singleton_add]
@[simp] theorem addrsOf_append (xs ys : List QuarantineBatch) :
    addrsOf (xs ++ ys) = addrsOf xs + addrsOf ys := by
  rw [addrsOf, addrsOf, addrsOf, List.map_append, ← Multiset.coe_add]

theorem Ok.empty : Ok empty := ⟨rfl, by simp [QuarantineCache.empty], by simp [QuarantineCache.empty]⟩

theorem foldl_enqueueBatch_list (bs : List QuarantineBatch) (c : QuarantineCache) :
    (bs.foldl QuarantineCache.enqueueBatch c).list = c.list ++ bs := by
  induction bs generalizing c with
  | nil => rw [List.foldl_nil, List.append_nil]
  | cons b bs ih =>
    rw [List.foldl_cons, ih, QuarantineCache.enqueueBatch, addToSize, List.append_assoc,
      List.singleton_append]

theorem foldl_enqueueBatch_size (bs : List QuarantineBatch) (c : QuarantineCache)
    (hc : c.size = sizes c.list % 2^64) :
    (bs.foldl QuarantineCache.enqueueBatch c).size = sizes (c.list ++ bs) % 2^64 := by
  induction bs generalizing c with
  | nil => rw [List.foldl_nil, List.append_nil, hc]
  | cons b bs ih =>
    rw [List.foldl_cons, ih]
    · rw [QuarantineCache.enqueueBatch, addToSize, List.append_assoc, List.singleton_append]
    · simp only [QuarantineCache.enqueueBatch, addToSize, sizes_append, sizes_cons, sizes_nil, hc]
      omega

theorem Ok.enqueueBatch {c : QuarantineCache} (h : c.Ok) {b : QuarantineBatch} (hb : b.Ok)
    (hcount : 1 ≤ b.count) : (c.enqueueBatch b).Ok where
  size_eq := by
    simp only [QuarantineCache.enqueueBatch, addToSize, sizes_append, sizes_cons, sizes_nil, h.size_eq]
    omega
  batches := by
    intro x hx
    rcases List.mem_append.mp hx with hx | hx
    · exact h.batches x hx
    · rw [List.mem_singleton.mp hx]
      exact hb
  filled := by
    intro x hx
    rcases List.mem_append.mp hx with hx | hx
    · exact h.filled x hx
    · rw [List.mem_singleton.mp hx]
      exact hcount

/-- A put chunk enters one batch, which is new or the last one. -/
theorem Ok.enqueue {c : QuarantineCache} (h : c.Ok) (addr : Nat) (chunk : QuarantinedChunk) :
    (c.enqueue addr chunk).1.Ok ∧
      chunksOf (c.enqueue addr chunk).1.list = {chunk} + chunksOf c.list ∧
      addrsOf (c.enqueue addr chunk).1.list =
        ((c.enqueue addr chunk).2 : Multiset Nat) + addrsOf c.list := by
  have hnew : (c.enqueueBatch (.init addr chunk)).Ok ∧
      chunksOf (c.enqueueBatch (.init addr chunk)).list = {chunk} + chunksOf c.list ∧
      addrsOf (c.enqueueBatch (.init addr chunk)).list = {addr} + addrsOf c.list := by
    refine ⟨h.enqueueBatch (QuarantineBatch.Ok.init addr chunk) (le_refl 1), ?_, ?_⟩
    · simp only [QuarantineCache.enqueueBatch, addToSize, chunksOf_append, chunksOf_cons,
        chunksOf_nil, add_zero, QuarantineBatch.init]
      rw [add_comm]
      rfl
    · simp only [QuarantineCache.enqueueBatch, addToSize, addrsOf_append, addrsOf_cons,
        addrsOf_nil, add_zero, QuarantineBatch.init]
      rw [add_comm]
  rw [QuarantineCache.enqueue]
  cases hlast : c.list.getLast? with
  | none => exact hnew
  | some back =>
    simp only []
    split
    · exact hnew
    · next hcount =>
      obtain ⟨init, hinit⟩ := List.getLast?_eq_some_iff.mp hlast
      have hback : back ∈ c.list := by rw [hinit]; simp
      have hok := h.batches back hback
      have hsize := h.size_eq
      rw [hinit, sizes_append, sizes_cons, sizes_nil] at hsize
      have hpush := hok.pushBack (Nat.lt_of_le_of_ne hok.count_le hcount) chunk
      refine ⟨⟨?_, ?_, ?_⟩, ?_, ?_⟩
      · simp only [addToSize, hinit, List.dropLast_concat, sizes_append, sizes_cons, sizes_nil,
          QuarantineBatch.pushBack, hsize]
        omega
      · intro x hx
        simp only [addToSize, hinit, List.dropLast_concat] at hx
        rcases List.mem_append.mp hx with hx | hx
        · exact h.batches x (by rw [hinit]; exact List.mem_append_left _ hx)
        · rw [List.mem_singleton.mp hx]
          exact hpush
      · intro x hx
        simp only [addToSize, hinit, List.dropLast_concat] at hx
        rcases List.mem_append.mp hx with hx | hx
        · exact h.filled x (by rw [hinit]; exact List.mem_append_left _ hx)
        · rw [List.mem_singleton.mp hx, QuarantineBatch.count, QuarantineBatch.pushBack,
            List.length_append]
          exact Nat.le_add_left 1 _
      · simp only [addToSize, hinit, List.dropLast_concat, chunksOf_append, chunksOf_cons,
          chunksOf_nil, add_zero, QuarantineBatch.pushBack, ← Multiset.coe_add]
        rw [Multiset.coe_singleton, ← add_assoc, add_comm]
      · simp only [addToSize, hinit, List.dropLast_concat, addrsOf_append, addrsOf_cons,
          addrsOf_nil, add_zero, QuarantineBatch.pushBack, Multiset.coe_nil, zero_add]

theorem Ok.transfer {c src : QuarantineCache} (h : c.Ok) (hs : src.Ok) :
    (c.transfer src).1.Ok ∧ (c.transfer src).2.Ok := by
  refine ⟨⟨?_, ?_, ?_⟩, Ok.empty⟩
  · simp only [QuarantineCache.transfer, addToSize, sizes_append, h.size_eq, hs.size_eq]
    omega
  · intro x hx
    rcases List.mem_append.mp hx with hx | hx
    · exact h.batches x hx
    · exact hs.batches x hx
  · intro x hx
    rcases List.mem_append.mp hx with hx | hx
    · exact h.filled x hx
    · exact hs.filled x hx

/-- What the merge loop does: the kept batches hold all the chunks, and every batch that left
the list is emptied and handed over for deallocation. -/
theorem mergeFrom_spec (current : QuarantineBatch) (rest : List QuarantineBatch)
    (toDeallocate : QuarantineCache) (extractedSize : Nat)
    (hok : ∀ b ∈ current::rest, b.Ok) (hfilled : ∀ b ∈ current::rest, 1 ≤ b.count)
    (hlt : extractedSize < 2^64) :
    ∃ kept emptied ex, mergeFrom current rest toDeallocate extractedSize =
        (kept, emptied.foldl QuarantineCache.enqueueBatch toDeallocate, ex) ∧
      (∀ b ∈ kept, b.Ok) ∧ (∀ b ∈ kept, 1 ≤ b.count) ∧
      (∀ b ∈ emptied, b.Ok ∧ b.batch = []) ∧
      chunksOf kept = chunksOf (current::rest) ∧
      addrsOf kept + addrsOf emptied = addrsOf (current::rest) ∧
      (sizes kept + sizes emptied) % 2^64 = sizes (current::rest) % 2^64 ∧
      ex = (extractedSize + sizes emptied) % 2^64 := by
  induction rest generalizing current toDeallocate extractedSize with
  | nil =>
    refine ⟨[current], [], extractedSize, rfl, hok, hfilled, by simp, rfl, rfl, ?_, ?_⟩
    · rw [sizes_nil, Nat.add_zero]
    · rw [sizes_nil, Nat.add_zero, Nat.mod_eq_of_lt hlt]
  | cons next rest ih =>
    have hcur := hok current List.mem_cons_self
    have hnext := hok next (by simp)
    have hrest : ∀ b ∈ rest, b.Ok := fun b hb => hok b (by simp [hb])
    have hrestFilled : ∀ b ∈ rest, 1 ≤ b.count := fun b hb => hfilled b (by simp [hb])
    rw [mergeFrom]
    split
    · next hcan =>
      have hmerged := hcur.merge hnext hcan
      have hmsize := QuarantineBatch.merge_size (b := current) hnext
      have hcount : 1 ≤ (current.merge next).1.count := by
        have := hfilled current List.mem_cons_self
        rw [QuarantineBatch.count] at this ⊢
        rw [QuarantineBatch.merge_batch, List.length_append]
        omega
      obtain ⟨kept, emptied, ex, heq, hk, hkf, he, hch, had, hsz, hex⟩ :=
        ih (current.merge next).1 (toDeallocate.enqueueBatch (current.merge next).2)
          ((extractedSize + (current.merge next).2.size) % 2^64)
          (by simpa using ⟨hmerged, hrest⟩) (by simpa using ⟨hcount, hrestFilled⟩)
          (Nat.mod_lt _ (Nat.two_pow_pos 64))
      refine ⟨kept, (current.merge next).2 :: emptied, ex, heq, hk, hkf, ?_, ?_, ?_, ?_, ?_⟩
      · intro b hb
        rcases List.mem_cons.mp hb with rfl | hb
        · exact QuarantineBatch.Ok.emptied current next
        · exact he b hb
      · rw [hch, chunksOf_cons, chunksOf_cons, chunksOf_cons, QuarantineBatch.merge_batch,
          ← Multiset.coe_add, add_assoc]
      · rw [addrsOf_cons, add_left_comm, had, addrsOf_cons, addrsOf_cons, addrsOf_cons,
          (QuarantineBatch.merge_addr current next).1, (QuarantineBatch.merge_addr current next).2,
          add_left_comm]
      · simp only [sizes_cons] at hsz hmsize ⊢
        omega
      · simp only [sizes_cons] at hex ⊢
        omega
    · obtain ⟨kept, emptied, ex, heq, hk, hkf, he, hch, had, hsz, hex⟩ :=
        ih next toDeallocate extractedSize (by simpa using ⟨hnext, hrest⟩)
          (by simpa using ⟨hfilled next (by simp), hrestFilled⟩) hlt
      refine ⟨current::kept, emptied, ex, by rw [heq], ?_, ?_, he, ?_, ?_, ?_, hex⟩
      · simpa using ⟨hcur, hk⟩
      · simpa using ⟨hfilled current List.mem_cons_self, hkf⟩
      · rw [chunksOf_cons, hch, chunksOf_cons current]
      · rw [addrsOf_cons, add_assoc, had, addrsOf_cons current]
      · simp only [sizes_cons] at hsz ⊢
        omega

/-- Merging keeps the chunks and extracts emptied batches only. -/
theorem Ok.mergeBatches {c : QuarantineCache} (h : c.Ok) (toDeallocate : QuarantineCache) :
    ∃ c' emptied, c.mergeBatches toDeallocate =
        (c', emptied.foldl QuarantineCache.enqueueBatch toDeallocate) ∧ c'.Ok ∧
      (∀ b ∈ emptied, b.Ok ∧ b.batch = []) ∧
      chunksOf c'.list = chunksOf c.list ∧ addrsOf c'.list + addrsOf emptied = addrsOf c.list := by
  rw [QuarantineCache.mergeBatches]
  have hsize := h.size_eq
  cases hlist : c.list with
  | nil =>
    refine ⟨_, [], rfl, ⟨?_, ?_, ?_⟩, by simp, by simp [subFromSize, hlist],
      by simp [subFromSize, hlist]⟩
    · rw [hlist] at hsize
      simp only [subFromSize, wrapSub, hsize, hlist, sizes_nil]
      decide
    · simp [subFromSize, hlist]
    · simp [subFromSize, hlist]
  | cons current rest =>
    obtain ⟨kept, emptied, ex, heq, hk, hkf, he, hch, had, hsz, hex⟩ :=
      mergeFrom_spec current rest toDeallocate 0 (hlist ▸ h.batches) (hlist ▸ h.filled)
        (Nat.two_pow_pos 64)
    simp only [heq]
    refine ⟨_, emptied, rfl, ⟨?_, hk, hkf⟩, he, hch, had⟩
    rw [hlist] at hsize
    have hex' := Nat.mod_lt (0 + sizes emptied) (Nat.two_pow_pos 64)
    simp only [subFromSize, wrapSub, hsize, hex]
    omega

end QuarantineCache

end ScudoMte
