import Mathlib.Data.Set.Basic
import ScudoMte.Common
import ScudoMte.Library.Ownership
import ScudoMte.Library.TransitionSystem

namespace ScudoMte.Primary32

open Ownership TransitionSystem

/-- The sizes that `SizeClassAllocator32` is configured with. -/
structure Layout where
  regionSizeLog : Nat
  pageSizeLog : Nat
  /-- `SCUDO_MMAP_RANGE_SIZE` is this power of two. -/
  mmapRangeSizeLog : Nat
  pageSizeLog_le : pageSizeLog ≤ regionSizeLog
  regionSizeLog_le : regionSizeLog ≤ mmapRangeSizeLog
  mmapRangeSizeLog_lt : mmapRangeSizeLog < 64

namespace Layout

def regionSize (l : Layout) : Nat := 1 <<< l.regionSizeLog

def numRegions (l : Layout) : Nat := (1 <<< l.mmapRangeSizeLog) >>> l.regionSizeLog

end Layout

def maxStashedRegions : Nat := 4

/-- What becomes of new memory at `mapBase`: the region, how much of the memory behind its start is
kept, the stash, and what is unmapped in front of it. -/
def place (l : Layout) (mapBase : Nat) (stash : List Nat) : Nat × Nat × List Nat × Option Range :=
  if isAligned mapBase l.regionSize then
    if stash.length < maxStashedRegions then
      (mapBase, 2 * l.regionSize, stash ++ [mapBase + l.regionSize], none)
    else (mapBase, l.regionSize, stash, none)
  else
    let region := roundUp mapBase l.regionSize
    (region, l.regionSize, stash, some ⟨mapBase, region⟩)

/-- What is unmapped behind the memory that is kept. -/
def trim (region mapSize mapEnd : Nat) : Option Range :=
  if region + mapSize ≠ mapEnd then some ⟨region + mapSize, mapEnd⟩ else none

/-- `allocateRegionSlow` with memory at `mapBase`: the region, the stash, and what is unmapped. -/
def allocateRegionSlow (l : Layout) (mapBase : Nat) (stash : List Nat) :
    Nat × List Nat × List Range :=
  let mapEnd := mapBase + 2 * l.regionSize
  let (region, mapSize, stash, front) := place l mapBase stash
  (region, stash, front.toList ++ (trim region mapSize mapEnd).toList)

/-- Where a thread stands in `allocateRegion`. -/
inductive Pc
  | idle
  /-- Nothing was stashed. -/
  | mapping (classId : Nat)
  | placing (classId mapBase : Nat)
  | trimming (classId region mapSize mapEnd : Nat)
  | recording (classId region : Nat)
  deriving DecidableEq

/-- What the threads share, the memory that is mapped, and all regions that were returned. -/
structure Regions (Thread : Type*) where
  stash : List Nat
  possibleRegions : Nat → Nat
  minRegionIndex : Nat → Nat
  maxRegionIndex : Nat → Nat
  pc : Thread → Pc
  mapped : Set Nat
  handedOut : List Nat
  died : Bool

inductive Action (Thread : Type*)
  | allocateRegion (t : Thread) (classId : Nat)
  /-- The system call answers with memory, or that there is none. -/
  | map (t : Thread) (os : Option Nat)
  | place (t : Thread)
  | trim (t : Thread)
  | record (t : Thread)

/-- The bytes of a range. -/
def bytes (r : Range) : Set Nat := {b | r.lo ≤ b ∧ b < r.hi}

/-- The bytes of a region. -/
def regionRange (l : Layout) (region : Nat) : Range := ⟨region, region + l.regionSize⟩

/-- `munmap` wants a range that is not empty and starts at a page. -/
def canUnmap (l : Layout) : Option Range → Bool
  | none => true
  | some r => r.lo % 2^l.pageSizeLog = 0 ∧ r.lo < r.hi

def unmap (mapped : Set Nat) : Option Range → Set Nat
  | none => mapped
  | some r => mapped \ bytes r

/-- `RegionsStash[--NumberOfStashedRegions]`, or 0. -/
def popStash (stash : List Nat) : Nat × List Nat := (stash.getLast?.getD 0, stash.dropLast)

namespace Regions

variable {Thread : Type*} [DecidableEq Thread]

def goto (s : Regions Thread) (t : Thread) (pc : Pc) : Regions Thread :=
  { s with pc := Function.update s.pc t pc }

/-- A step of one thread. A failed check or system call kills the process. -/
def step (l : Layout) (s : Regions Thread) (a : Action Thread) : Option (Regions Thread) :=
  if s.died then none
  else
    match a with
    | .allocateRegion t classId =>
      match s.pc t with
      | .idle =>
        let (region, stash) := popStash s.stash
        some (goto { s with stash } t
          (if region = 0 then .mapping classId else .recording classId region))
      | _ => none
    | .map t os =>
      match s.pc t with
      | .mapping classId =>
        match os with
        | none => some (s.goto t .idle)
        | some mapBase => some (goto
          { s with mapped := s.mapped ∪ bytes ⟨mapBase, mapBase + 2 * l.regionSize⟩ } t
          (.placing classId mapBase))
      | _ => none
    | .place t =>
      match s.pc t with
      | .placing classId mapBase =>
        let (region, mapSize, stash, front) := Primary32.place l mapBase s.stash
        if canUnmap l front then
          some (goto { s with stash, mapped := unmap s.mapped front } t
            (.trimming classId region mapSize (mapBase + 2 * l.regionSize)))
        else some { s with died := true }
      | _ => none
    | .trim t =>
      match s.pc t with
      | .trimming classId region mapSize mapEnd =>
        let back := Primary32.trim region mapSize mapEnd
        if canUnmap l back ∧ region % l.regionSize = 0 then
          some (goto { s with mapped := unmap s.mapped back } t (.recording classId region))
        else some { s with died := true }
      | _ => none
    | .record t =>
      match s.pc t with
      | .recording classId region =>
        let regionIndex := region >>> l.regionSizeLog
        if regionIndex < l.numRegions ∧ s.possibleRegions regionIndex = 0 then
          some (goto { s with
            minRegionIndex := Function.update s.minRegionIndex classId
              (min regionIndex (s.minRegionIndex classId))
            maxRegionIndex := Function.update s.maxRegionIndex classId
              (max regionIndex (s.maxRegionIndex classId))
            possibleRegions := Function.update s.possibleRegions regionIndex ((classId+1) % 2^8)
            handedOut := region :: s.handedOut } t .idle)
        else some { s with died := true }
      | _ => none

/-- A new allocator. -/
structure Init (l : Layout) (s : Regions Thread) : Prop where
  stash : s.stash = []
  possibleRegions : ∀ i, s.possibleRegions i = 0
  pc : ∀ t, s.pc t = .idle
  mapped : s.mapped = ∅
  handedOut : s.handedOut = []
  died : s.died = false

end Regions

end ScudoMte.Primary32
