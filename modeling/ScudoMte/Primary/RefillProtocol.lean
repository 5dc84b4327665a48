import Mathlib.Algebra.Group.Nat.Defs
import Mathlib.Logic.Function.Basic
import ScudoMte.Library.TransitionSystem

namespace ScudoMte.Primary.Refill

/-- `FLLock` and `MMLock` of a region. -/
inductive Lock
  | fl | mm
  deriving DecidableEq

/-- What the threads share: the number of blocks in the freelist, the flags, and the two words of
the condition variable. `Counter` and `LastNotifyAll` are kept as the number of the update that
wrote them; the code has these numbers modulo 2^32, and compares them so. -/
structure Region where
  freeList : Nat
  isPopulatingFreeList : Bool
  exhausted : Bool
  counter : Nat
  lastNotifyAll : Nat

/-- A comparison of two words of 32 bits. -/
def sameWord (v w : Nat) : Prop := v % 2^32 = w % 2^32

instance (v w : Nat) : Decidable (sameWord v w) := inferInstanceAs (Decidable (_ = _))

/-- Where a thread stands: before which of its steps, or asleep. Steps that many paths of the code
share name where the thread goes on. -/
inductive Pc
  | idle
  | lock (l : Lock) (next : Pc)
  | unlock (l : Lock) (next : Pc)
  /-- In `popBlocks`. -/
  | popBlocks
  /-- In `popBlocksWithCV`, at its first test of `isPopulatingFreeList`. -/
  | checkFlag
  /-- In `populateFreeListAndPopBlocks`, and behind its `ScopedLock`. -/
  | populate
  | pushNew
  | clearFlag
  /-- In `popBlocksWithCV`, with the other thread populating; in front of `wait`, and behind it. -/
  | popAgain
  | wait
  | popWoken
  /-- In `waitImpl`, before the system call with `V`, and in it. -/
  | futexWait (v : Nat)
  | asleep (v : Nat)
  /-- In `notifyAllImpl`: at its start, before the system call, and before the last line. -/
  | notifyAll (next : Pc)
  | futexWake (v : Nat) (next : Pc)
  | setLast (v : Nat) (next : Pc)
  | pushBlocks
  /-- In `releaseToOSMaybe`, where groups leave the freelist, and in
  `mergeGroupsToReleaseBack`. -/
  | extract
  | merge (blocks : Nat)
  deriving DecidableEq

/-- What the protocol leaves open: how many blocks a batch has, how many are pushed, and whether
the region can be extended. -/
structure Choice where
  popCount : Nat
  blocks : Nat
  mapped : Bool
  exhausted : Bool

/-- `popBlocksImpl`: the count and the rest of the freelist. It fails only if the list is empty. -/
def popBlocksImpl (freeList popCount : Nat) : Option (Nat × Nat) :=
  if freeList = 0 then some (0, 0)
  else if 0 < popCount ∧ popCount ≤ freeList then some (popCount, freeList - popCount)
  else none

/-- `popBlocksImpl` under `FLLock`, which is given up before a return. -/
def popOrElse (c : Choice) (r : Region) (p : Pc) : Option (Region × Pc) :=
  (popBlocksImpl r.freeList c.popCount).map fun (popCount, freeList) =>
    ({ r with freeList }, if popCount ≠ 0 then .unlock .fl .idle else p)

/-- A step of one thread that takes or gives up no lock and wakes nobody. -/
def move (c : Choice) (r : Region) : Pc → Option (Region × Pc)
  | .popBlocks => popOrElse c r (.unlock .fl (.lock .fl .checkFlag))
  | .checkFlag => some <|
      if r.isPopulatingFreeList then (r, .unlock .fl (.lock .fl .popAgain))
      else ({ r with isPopulatingFreeList := true }, .unlock .fl (.lock .mm .populate))
  | .populate => some <|
      if r.exhausted then (r, .lock .fl .clearFlag)
      else if c.mapped then (r, .lock .fl .pushNew)
      else ({ r with exhausted := c.exhausted }, .lock .fl .clearFlag)
  | .pushNew =>
      (popBlocksImpl (r.freeList + c.blocks) c.popCount).map fun (_, freeList) =>
        ({ r with freeList }, .unlock .fl (.lock .fl .clearFlag))
  | .clearFlag => some ({ r with isPopulatingFreeList := false },
      .notifyAll (.unlock .fl (.unlock .mm .idle)))
  | .popAgain => popOrElse c r
      (if r.isPopulatingFreeList then .wait else .unlock .fl (.lock .fl .checkFlag))
  | .wait => some ({ r with counter := r.counter + 1 },
      .unlock .fl (.futexWait (r.counter + 1)))
  | .futexWait v => some (r,
      if sameWord r.counter v then .asleep v else .lock .fl .popWoken)
  | .popWoken => popOrElse c r (.unlock .fl (.lock .fl .checkFlag))
  | .notifyAll next => some ({ r with counter := r.counter + 1 }, .futexWake r.counter next)
  | .setLast v next => some ({ r with lastNotifyAll := v + 1 }, next)
  | .pushBlocks => some ({ r with freeList := r.freeList + c.blocks },
      .notifyAll (.unlock .fl .idle))
  | .extract =>
      if c.blocks ≤ r.freeList then
        some ({ r with freeList := r.freeList - c.blocks },
          if c.blocks = 0 then .unlock .fl (.unlock .mm .idle)
          else .unlock .fl (.lock .fl (.merge c.blocks)))
      else none
  | .merge blocks => some ({ r with freeList := r.freeList + blocks },
      .notifyAll (.unlock .fl (.unlock .mm .idle)))
  | _ => none

/-- The calls of the other parts of the allocator; the unused groups of a merge come to the region
of the batch class as pushed blocks. -/
inductive Call
  | popBlocks
  | pushBlocks
  | releaseToOS
  deriving DecidableEq

/-- Where a call starts. -/
def Call.entry : Call → Pc
  | popBlocks => .lock .fl .popBlocks
  | pushBlocks => .lock .fl .pushBlocks
  | releaseToOS => .lock .mm (.lock .fl .extract)

structure System (ι : Type*) where
  region : Region
  owner : Lock → Option ι
  pc : ι → Pc

/-- A call, the next step of a thread, or a return of its system call for no reason. -/
inductive Act (ι : Type*)
  | call (t : ι) (c : Call)
  | run (t : ι) (c : Choice)
  | spurious (t : ι)

/-- The wake of `notifyAllImpl`: whoever sleeps goes on to take `FLLock` again. -/
def Pc.wake : Pc → Pc
  | .asleep _ => .lock .fl .popWoken
  | p => p

namespace System

variable {ι : Type*} [DecidableEq ι]

def step (s : System ι) : Act ι → Option (System ι)
  | .call t c =>
      if s.pc t = .idle then some { s with pc := Function.update s.pc t c.entry } else none
  | .run t c =>
      match s.pc t with
      | .lock l next =>
          if s.owner l = none then
            some { s with
              owner := Function.update s.owner l (some t), pc := Function.update s.pc t next }
          else none
      | .unlock l next =>
          some { s with
            owner := Function.update s.owner l none, pc := Function.update s.pc t next }
      | .futexWake v next =>
          let pc := if sameWord s.region.lastNotifyAll v then s.pc else fun u => (s.pc u).wake
          some { s with pc := Function.update pc t (.setLast v next) }
      | p => (move c s.region p).map fun (region, p') =>
          { s with region, pc := Function.update s.pc t p' }
  | .spurious t =>
      match s.pc t with
      | .futexWait _ | .asleep _ =>
          some { s with pc := Function.update s.pc t (.lock .fl .popWoken) }
      | _ => none

structure Init (s : System ι) : Prop where
  flag : s.region.isPopulatingFreeList = false
  counter : s.region.counter = 0
  lastNotifyAll : s.region.lastNotifyAll = 0
  owner : ∀ l, s.owner l = none
  pc : ∀ t, s.pc t = .idle

/-- Fewer than 2^32 waits between two notifications. -/
def FewWaits (s : System ι) : Act ι → Prop
  | .run t _ => s.pc t = .wait → s.region.counter + 1 < s.region.lastNotifyAll + 2^32
  | _ => True

/-- Fewer than 2^32 updates of the counter between that of a thread in `waitImpl` and its system
call. -/
def Prompt (s : System ι) : Act ι → Prop
  | .run t _ => ∀ v, s.pc t = .futexWait v → s.region.counter < v + 2^32
  | _ => True

/-- The states that any number of threads reach in any order of their steps. -/
abbrev Reachable (ok : System ι → Act ι → Prop) : System ι → Prop :=
  TransitionSystem.Reachable Init ok fun s a s' => s.step a = some s'

end System

/-- Between setting and clearing `isPopulatingFreeList`. -/
@[simp] def Pc.Populates : Pc → Prop
  | .populate | .pushNew | .clearFlag => True
  | .lock _ next | .unlock _ next => next.Populates
  | _ => False

/-- Inside a `notifyAll` whose wake is still to come. -/
def Pc.WillWake (lastNotifyAll : Nat) : Pc → Prop
  | .notifyAll _ => True
  | .futexWake v _ => ¬ sameWord lastNotifyAll v
  | _ => False

structure NoLostWaiter {ι : Type*} (s : System ι) : Prop where
  onePopulates : ∀ t u, (s.pc t).Populates → (s.pc u).Populates → t = u
  waiters : ∀ t v, s.pc t = .asleep v →
    ∃ u, (s.pc u).Populates ∨ (s.pc u).WillWake s.region.lastNotifyAll
  skipped : ∀ u v next, s.pc u = .futexWake v next → sameWord s.region.lastNotifyAll v →
    ∀ t w, s.pc t ≠ .asleep w
  notified : ∀ u v next, s.pc u = .setLast v next → ∀ t w, s.pc t ≠ .asleep w
  finished : (∀ u, ¬ (s.pc u).Populates ∧ ¬ (s.pc u).WillWake s.region.lastNotifyAll) →
    ∀ t v, s.pc t ≠ .asleep v

@[simp] def Pc.Holds (l : Lock) : Pc → Prop
  | .popBlocks | .checkFlag | .popAgain | .wait | .popWoken | .pushBlocks => l = .fl
  | .populate => l = .mm
  | .pushNew | .clearFlag | .extract | .merge _ => True
  | .lock l' next => l ≠ l' ∧ next.Holds l
  | .unlock l' next => l = l' ∨ next.Holds l
  | .notifyAll next | .futexWake _ next | .setLast _ next => next.Holds l
  | .idle | .futexWait _ | .asleep _ => False

/-- The thread has updated the counter to `v` and has not come back from its system call. -/
@[simp] def Pc.WaitsOn (v : Nat) : Pc → Prop
  | .futexWait w | .asleep w => w = v
  | .lock _ next | .unlock _ next => next.WaitsOn v
  | _ => False

/-- In `notifyAllImpl`, between the update of the counter from `v` and the last line. -/
@[simp] def Pc.Notifies (v : Nat) : Pc → Prop
  | .futexWake w _ | .setLast w _ => w = v
  | _ => False

/-- A step that the condition variable has nothing to do with. -/
@[simp] def Pc.Plain : Pc → Prop
  | .wait | .asleep _ | .notifyAll _ | .futexWake _ _ | .setLast _ _ => False
  | _ => True

/-- The thread gives up the locks that it has taken. -/
@[simp] def Pc.Nested : Pc → Prop
  | .lock l next => next.Holds l ∧ next.Plain ∧ next.Nested
  | .unlock l next => ¬ next.Holds l ∧ next.Plain ∧ next.Nested
  | .notifyAll next | .futexWake _ next | .setLast _ next =>
      next.Holds .fl ∧ next.Plain ∧ ¬ next.Populates ∧ (∀ v, ¬ next.WaitsOn v) ∧ next.Nested
  | _ => True

/-- What a step does to the counter, the flag and the waiters. -/
inductive Moves (r : Region) : Pc → Region → Pc → Prop
  | plain {p p' : Pc} {r' : Region} (hr : r'.counter = r.counter)
      (hl : r'.lastNotifyAll = r.lastNotifyAll)
      (hf : r'.isPopulatingFreeList = r.isPopulatingFreeList)
      (hp : p.Plain ∨ ∃ v, p = .asleep v) (hp' : p'.Plain ∨ (∃ next, p' = .notifyAll next) ∨
        p' = .wait ∧ r.isPopulatingFreeList = true)
      (hpop : p'.Populates ↔ p.Populates) (hw : ∀ v, p'.WaitsOn v → p.WaitsOn v)
      (hs : p'.Nested) (hh : ∀ l, p'.Holds l ↔ p.Holds l) : Moves r p r' p'
  | setFlag (hf : r.isPopulatingFreeList = false) :
      Moves r .checkFlag { r with isPopulatingFreeList := true } (.unlock .fl (.lock .mm .populate))
  | clearFlag : Moves r .clearFlag { r with isPopulatingFreeList := false }
      (.notifyAll (.unlock .fl (.unlock .mm .idle)))
  | wait : Moves r .wait { r with counter := r.counter + 1 }
      (.unlock .fl (.futexWait (r.counter + 1)))
  | sleep {v : Nat} (h : sameWord r.counter v) : Moves r (.futexWait v) r (.asleep v)
  | notifyAll {next : Pc} : Moves r (.notifyAll next) { r with counter := r.counter + 1 }
      (.futexWake r.counter next)
  | setLast {v : Nat} {next : Pc} : Moves r (.setLast v next) { r with lastNotifyAll := v + 1 } next

@[simp] theorem Lock.forall_iff {P : Lock → Prop} : (∀ l, P l) ↔ P .fl ∧ P .mm := by
  refine ⟨fun h => ⟨h .fl, h .mm⟩, ?_⟩
  rintro ⟨hf, hm⟩ l
  cases l with
  | fl => exact hf
  | mm => exact hm

section Move

variable {c : Choice} {r r' : Region} {p p' : Pc}

theorem popOrElse_cases {q : Pc} (h : popOrElse c r q = some (r', p')) :
    (∃ freeList, r' = { r with freeList }) ∧ (p' = .unlock .fl .idle ∨ p' = q) := by
  obtain ⟨⟨n, freeList⟩, -, h⟩ := Option.map_eq_some_iff.mp h
  simp only [Prod.mk.injEq] at h
  obtain ⟨rfl, rfl⟩ := h
  refine ⟨⟨freeList, rfl⟩, ?_⟩
  split
  · exact .inl rfl
  · exact .inr rfl

/-- A step of code that has nothing to do with the condition variable, to such code. -/
theorem Moves.of_freeList {freeList : Nat} (hp : p.Plain) (hp' : p'.Plain)
    (hpop : p'.Populates ↔ p.Populates) (hw : ∀ v, ¬ p'.WaitsOn v) (hs : p'.Nested)
    (hh : ∀ l, p'.Holds l ↔ p.Holds l) : Moves r p { r with freeList } p' :=
  .plain rfl rfl rfl (.inl hp) (.inl hp') hpop (fun v h => absurd h (hw v)) hs hh

theorem move_moves (h : move c r p = some (r', p')) : Moves r p r' p' := by
  cases p with
  | popBlocks =>
    obtain ⟨⟨_, rfl⟩, rfl | rfl⟩ := popOrElse_cases h
    · exact .of_freeList trivial trivial Iff.rfl (fun _ => id) (by simp) (by simp)
    · exact .of_freeList trivial trivial Iff.rfl (fun _ => id) (by simp) (by simp)
  | checkFlag =>
    simp only [move, Option.some.injEq] at h
    split at h
    · obtain ⟨rfl, rfl⟩ := h
      exact .of_freeList trivial trivial Iff.rfl (fun _ => id) (by simp) (by simp)
    · next hf =>
      obtain ⟨rfl, rfl⟩ := h
      exact .setFlag (by simpa using hf)
  | populate =>
    simp only [move, Option.some.injEq] at h
    split at h
    · obtain ⟨rfl, rfl⟩ := h
      exact .of_freeList trivial trivial Iff.rfl (fun _ => id) (by simp) (by simp)
    · split at h
      · obtain ⟨rfl, rfl⟩ := h
        exact .of_freeList trivial trivial Iff.rfl (fun _ => id) (by simp) (by simp)
      · obtain ⟨rfl, rfl⟩ := h
        exact .plain rfl rfl rfl (.inl trivial) (.inl trivial) Iff.rfl (fun _ => id) (by simp) (by simp)
  | pushNew =>
    obtain ⟨⟨n, freeList⟩, -, h⟩ := Option.map_eq_some_iff.mp h
    obtain ⟨rfl, rfl⟩ := h
    exact .of_freeList trivial trivial Iff.rfl (fun _ => id) (by simp) (by simp)
  | clearFlag =>
    obtain ⟨rfl, rfl⟩ := h
    exact .clearFlag
  | popAgain =>
    obtain ⟨⟨_, rfl⟩, rfl | hp⟩ := popOrElse_cases h
    · exact .of_freeList trivial trivial Iff.rfl (fun _ => id) (by simp) (by simp)
    · split at hp
      · next hf =>
        rw [hp]
        exact .plain rfl rfl rfl (.inl trivial) (.inr (.inr ⟨rfl, hf⟩)) Iff.rfl (fun _ => id) (by simp) (by simp)
      · rw [hp]
        exact .of_freeList trivial trivial Iff.rfl (fun _ => id) (by simp) (by simp)
  | wait =>
    obtain ⟨rfl, rfl⟩ := h
    exact .wait
  | futexWait v =>
    simp only [move, Option.some.injEq, Prod.mk.injEq] at h
    obtain ⟨rfl, rfl⟩ := h
    by_cases hv : sameWord r.counter v
    · rw [if_pos hv]
      exact .sleep hv
    · rw [if_neg hv]
      exact .of_freeList trivial trivial Iff.rfl (fun _ => id) (by simp) (by simp)
  | popWoken =>
    obtain ⟨⟨_, rfl⟩, rfl | rfl⟩ := popOrElse_cases h
    · exact .of_freeList trivial trivial Iff.rfl (fun _ => id) (by simp) (by simp)
    · exact .of_freeList trivial trivial Iff.rfl (fun _ => id) (by simp) (by simp)
  | notifyAll next =>
    obtain ⟨rfl, rfl⟩ := h
    exact .notifyAll
  | setLast v next =>
    obtain ⟨rfl, rfl⟩ := h
    exact .setLast
  | pushBlocks =>
    obtain ⟨rfl, rfl⟩ := h
    exact .plain rfl rfl rfl (.inl trivial) (.inr (.inl ⟨_, rfl⟩)) Iff.rfl (fun _ => id) (by simp) (by simp)
  | extract =>
    simp only [move] at h
    split at h
    · obtain ⟨rfl, rfl⟩ := h
      split
      · exact .of_freeList trivial trivial Iff.rfl (fun _ => id) (by simp) (by simp)
      · exact .of_freeList trivial trivial Iff.rfl (fun _ => id) (by simp) (by simp)
    · exact nomatch h
  | merge blocks =>
    obtain ⟨rfl, rfl⟩ := h
    exact .plain rfl rfl rfl (.inl trivial) (.inr (.inl ⟨_, rfl⟩)) Iff.rfl (fun _ => id) (by simp) (by simp)
  | idle => exact nomatch h
  | lock l next => exact nomatch h
  | unlock l next => exact nomatch h
  | asleep v => exact nomatch h
  | futexWake v next => exact nomatch h

end Move

theorem Pc.wake_cases (p : Pc) :
    (∃ v, p = .asleep v ∧ p.wake = .lock .fl .popWoken) ∨ p.wake = p := by
  cases p with
  | asleep v => exact .inl ⟨v, rfl, rfl⟩
  | _ => exact .inr rfl

theorem Pc.wake_ne_asleep (p : Pc) (v : Nat) : p.wake ≠ .asleep v := by
  cases p <;> exact nofun

theorem Pc.waitsOn_wake {p : Pc} {v : Nat} (h : p.wake.WaitsOn v) : p.WaitsOn v := by
  cases p with
  | asleep w => exact absurd h id
  | _ => exact h

theorem Pc.notifies_wake {p : Pc} {v : Nat} (h : p.wake.Notifies v) : p.Notifies v := by
  cases p with
  | asleep w => exact absurd h id
  | _ => exact h

section Steps

variable {ι : Type*} [DecidableEq ι] {s s' : System ι} {a : Act ι}

/-- What an act can do: a thread moves, takes a lock, gives one up, or wakes the sleepers. -/
theorem System.step_cases (h : s.step a = some s') :
    (∃ t r' p', Moves s.region (s.pc t) r' p' ∧ (s.pc t = .wait → ∃ c, a = .run t c) ∧
      (∀ v, s.pc t = .futexWait v → p' = .asleep v → ∃ c, a = .run t c) ∧
      s' = { s with region := r', pc := Function.update s.pc t p' }) ∨
    (∃ t l next, s.pc t = .lock l next ∧ s.owner l = none ∧ s' = { s with
      owner := Function.update s.owner l (some t), pc := Function.update s.pc t next }) ∨
    (∃ t l next, s.pc t = .unlock l next ∧ s' = { s with
      owner := Function.update s.owner l none, pc := Function.update s.pc t next }) ∨
    ∃ t v next, s.pc t = .futexWake v next ∧ s' = { s with
      pc := Function.update (if sameWord s.region.lastNotifyAll v then s.pc
        else fun u => (s.pc u).wake) t (.setLast v next) } := by
  cases a with
  | call t c =>
    simp only [System.step] at h
    split at h
    · next ht =>
      refine .inl ⟨t, s.region, c.entry, ?_, ?_, ?_, (Option.some.inj h).symm⟩
      · rw [ht]
        cases c <;> exact .of_freeList trivial trivial (by simp [Call.entry])
          (by simp [Call.entry]) (by simp [Call.entry]) (by simp [Call.entry])
      · simp [ht]
      · simp [ht]
    · exact nomatch h
  | run t c =>
    simp only [System.step] at h
    split at h
    · next l next ht =>
      split at h
      · next hfree => exact .inr (.inl ⟨t, l, next, ht, hfree, (Option.some.inj h).symm⟩)
      · exact nomatch h
    · next l next ht => exact .inr (.inr (.inl ⟨t, l, next, ht, (Option.some.inj h).symm⟩))
    · next v next ht => exact .inr (.inr (.inr ⟨t, v, next, ht, (Option.some.inj h).symm⟩))
    · obtain ⟨⟨r', p'⟩, hm, hs⟩ := Option.map_eq_some_iff.mp h
      exact .inl ⟨t, r', p', move_moves hm, fun _ => ⟨c, rfl⟩, fun _ _ _ => ⟨c, rfl⟩, hs.symm⟩
  | spurious t =>
    simp only [System.step] at h
    split at h
    · next v ht =>
      refine .inl ⟨t, s.region, .lock .fl .popWoken, ?_, ?_, nofun, (Option.some.inj h).symm⟩
      · rw [ht]
        exact .of_freeList trivial trivial Iff.rfl (fun _ => id) (by simp) (by simp)
      · simp [ht]
    · next v ht =>
      refine .inl ⟨t, s.region, .lock .fl .popWoken, ?_, ?_, nofun, (Option.some.inj h).symm⟩
      · rw [ht]
        exact .plain rfl rfl rfl (.inr ⟨v, rfl⟩) (.inl trivial) Iff.rfl nofun (by simp) (by simp)
      · simp [ht]
    · exact nomatch h

end Steps

end ScudoMte.Primary.Refill
