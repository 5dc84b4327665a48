import Mathlib.Logic.Function.Basic
import ScudoMte.Common
import ScudoMte.Library.Ownership
import ScudoMte.Library.TransitionSystem

namespace ScudoMte.Release

open Ownership TransitionSystem

/-- The template arguments of `BufferPool`, as its static assertions want them, and the page
size. -/
structure PoolLayout where
  staticBufferCount : Nat
  staticBufferNumElements : Nat
  pageSizeLog : Nat
  count_lt : staticBufferCount < 64
  aligned : isAligned (staticBufferNumElements * 8) 64
  pageSizeLog_lt : pageSizeLog < 64

/-- Where the `Data` of a buffer points. -/
inductive Pointer
  | null
  /-- To a word of `RawBuffer`. -/
  | raw (word : Nat)
  | mapped (base : Nat)
  deriving DecidableEq

structure Buffer where
  data : Pointer := .null
  bufferIndex : Nat := 2^64 - 1
  memMap : Range := ⟨0, 0⟩
  deriving DecidableEq

/-- Where a thread stands in `getBuffer`. -/
inductive PoolPc
  | idle
  /-- It has taken a static buffer off the mask and is about to clear it. -/
  | filling (numElements index : Nat)
  | mapping (numElements : Nat)
  deriving DecidableEq

/-- A buffer that `getBuffer` returned and nobody has released. -/
structure HeldBuffer (Thread : Type*) where
  holder : Thread
  numElements : Nat
  buffer : Buffer
  deriving DecidableEq

/-- `BufferPool`, its callers, and all answers that `getBuffer` has given. -/
structure BufferPool (Thread : Type*) where
  mask : Nat
  rawBuffer : Nat → Nat
  pc : Thread → PoolPc
  held : List (HeldBuffer Thread)
  answers : List (Nat × Buffer)
  died : Bool

inductive PoolAction (Thread : Type*)
  | getBuffer (t : Thread) (numElements : Nat)
  | fill (t : Thread)
  /-- The system call answers with memory, or that there is none. -/
  | map (t : Thread) (os : Option Nat)
  | store (h : HeldBuffer Thread) (i value : Nat)
  | releaseBuffer (h : HeldBuffer Thread)

namespace BufferPool

variable {Thread : Type*} [DecidableEq Thread]

/-- The part of `getBuffer` under the lock, and which way it goes on. -/
def getBuffer (l : PoolLayout) (mask numElements : Nat) : Nat × PoolPc :=
  if numElements > l.staticBufferNumElements then (mask, .mapping numElements)
  else
    let index := getLeastSignificantSetBitIndex mask
    let mask := if index < l.staticBufferCount then mask ^^^ 1 <<< index else mask
    (mask, if index ≥ l.staticBufferCount then .mapping numElements else .filling numElements index)

def staticBuffer (l : PoolLayout) (index : Nat) : Buffer where
  data := .raw (index * l.staticBufferNumElements)
  bufferIndex := index

/-- `memset` of a static buffer. -/
def clear (l : PoolLayout) (index : Nat) (rawBuffer : Nat → Nat) : Nat → Nat := fun w =>
  if index * l.staticBufferNumElements ≤ w ∧ w < (index+1) * l.staticBufferNumElements then 0
  else rawBuffer w

def mappedSize (l : PoolLayout) (numElements : Nat) : Nat :=
  roundUp (numElements * 8 % 2^64) (2^l.pageSizeLog)

/-- `getDynamicBuffer`; `none` where the process dies: to map no bytes fails with `EINVAL`, and
`MAP_ALLOWNOMEM` only lets `ENOMEM` pass. -/
def getDynamicBuffer (l : PoolLayout) (numElements : Nat) (os : Option Nat) : Option Buffer :=
  let size := mappedSize l numElements
  if size = 0 then none
  else
    match os with
    | some base => some
      { data := .mapped base
        bufferIndex := l.staticBufferCount
        memMap := ⟨base, base + size⟩ }
    | none => some {}

/-- The mask after `releaseBuffer`. -/
def releaseBuffer (l : PoolLayout) (mask : Nat) (buf : Buffer) : Nat :=
  if buf.bufferIndex ≠ l.staticBufferCount then mask ||| 1 <<< buf.bufferIndex else mask

/-- A holder's store to its buffer. -/
def store (buf : Buffer) (i value : Nat) (rawBuffer : Nat → Nat) : Nat → Nat :=
  match buf.data with
  | .raw word => Function.update rawBuffer (word + i) value
  | _ => rawBuffer

/-- `getBuffer` returns. -/
def answer (s : BufferPool Thread) (t : Thread) (numElements : Nat) (buf : Buffer) :
    BufferPool Thread :=
  { s with
    pc := Function.update s.pc t .idle
    held := if buf.data = .null then s.held else ⟨t, numElements, buf⟩ :: s.held
    answers := (numElements, buf) :: s.answers }

/-- A step of one thread. A buffer is released, and stored to, by whoever holds it. -/
def step (l : PoolLayout) (s : BufferPool Thread) (a : PoolAction Thread) :
    Option (BufferPool Thread) :=
  if s.died then none
  else
    match a with
    | .getBuffer t n =>
      if s.pc t = .idle then
        let (mask, pc) := getBuffer l s.mask n
        some { s with mask, pc := Function.update s.pc t pc }
      else none
    | .fill t =>
      match s.pc t with
      | .filling n index =>
        some (answer { s with rawBuffer := clear l index s.rawBuffer } t n (staticBuffer l index))
      | _ => none
    | .map t os =>
      match s.pc t with
      | .mapping n =>
        match getDynamicBuffer l n os with
        | some buf => some (answer s t n buf)
        | none => some { s with died := true }
      | _ => none
    | .store h i value =>
      if h ∈ s.held ∧ i < h.numElements then
        some { s with rawBuffer := store h.buffer i value s.rawBuffer }
      else none
    | .releaseBuffer h =>
      if h ∈ s.held then
        some { s with mask := releaseBuffer l s.mask h.buffer, held := s.held.erase h }
      else none

/-- A new pool: all static buffers are free, and nobody has called it. -/
structure Init (s : BufferPool Thread) : Prop where
  mask : s.mask = 2^64 - 1
  pc : ∀ t, s.pc t = .idle
  held : s.held = []
  answers : s.answers = []
  died : s.died = false

/-- The static slot that a buffer designates. -/
def slot (l : PoolLayout) (h : HeldBuffer Thread) : Option Nat :=
  if h.buffer.bufferIndex ≠ l.staticBufferCount then some h.buffer.bufferIndex else none

/-- Requests are `uptr`s, and memory that the system maps is not mapped already. -/
def Admitted (l : PoolLayout) (s : BufferPool Thread) : PoolAction Thread → Prop
  | .getBuffer _ n => n < 2^64
  | .map t (some base) => ∀ n, s.pc t = .mapping n → ∀ h ∈ s.held, slot l h = none →
      Range.Disjoint ⟨base, base + mappedSize l n⟩ h.buffer.memMap
  | _ => True

/-- A request that is about to be mapped asks for some element, and the pages of all its elements
are a `uptr`. -/
def Fits (l : PoolLayout) (s : BufferPool Thread) : PoolAction Thread → Prop
  | .map t _ => ∀ n, s.pc t = .mapping n → 0 < n ∧ n * 8 + 2^l.pageSizeLog ≤ 2^64
  | _ => True

/-- The answers a request may get: a static buffer it fits in, a mapping of its own that it fits
in, or null data. -/
def Answered (l : PoolLayout) (numElements : Nat) (buf : Buffer) : Prop :=
  (∃ i < l.staticBufferCount, buf = staticBuffer l i ∧ numElements ≤ l.staticBufferNumElements) ∨
  (buf.bufferIndex = l.staticBufferCount ∧ buf.data = .mapped buf.memMap.lo ∧
    buf.memMap.lo + numElements * 8 ≤ buf.memMap.hi) ∨
  buf.data = .null

/-- No buffer is shared, and every request is answered. -/
structure Sound (l : PoolLayout) (s : BufferPool Thread) : Prop where
  mask_ne_zero : s.mask ≠ 0
  slots : s.held.Pairwise fun a b => ∀ i, slot l a = some i → slot l b ≠ some i
  inside : ∀ h ∈ s.held, ∀ i, slot l h = some i →
    ∃ w, h.buffer.data = .raw w ∧ w = i * l.staticBufferNumElements ∧
      w + l.staticBufferNumElements ≤ l.staticBufferCount * l.staticBufferNumElements
  mappings : s.held.Pairwise fun a b => slot l a = none → slot l b = none →
    Range.Disjoint a.buffer.memMap b.buffer.memMap
  held : ∀ h ∈ s.held, Answered l h.numElements h.buffer ∧ h.buffer.data ≠ .null
  answers : ∀ r ∈ s.answers, Answered l r.1 r.2
  alive : s.died = false

end BufferPool

end ScudoMte.Release
