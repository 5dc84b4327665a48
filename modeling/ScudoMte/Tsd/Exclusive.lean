import ScudoMte.FrontEnd.Ownership

namespace ScudoMte.Tsd.Exclusive

open Primary FrontEnd

inductive InitState
  | notInitialized | initialized | tornDown
  deriving DecidableEq

/-- Where a thread stands between the accesses that other threads can come between. -/
inductive Pc
  | idle
  /-- Uses its `ThreadTSD`. -/
  | own
  /-- In `getTSDAndLock`, before the lock of `FallbackTSD`. -/
  | waiting
  /-- Uses `FallbackTSD`. -/
  | fallback
  /-- In `drainCaches`, at its `ThreadTSD`, before the lock of `FallbackTSD`, behind it, and before
  the unlock. -/
  | drainingOwn | drainWaiting | draining | drained
  /-- In `disable`, behind the lock of `Mutex`, and behind that of `FallbackTSD`. -/
  | mutexHeld | fallbackHeld
  | disabled
  /-- In `enable`, behind the store, and behind the unlock of `FallbackTSD`. -/
  | storeDone | fallbackReleased
  deriving DecidableEq

def Pc.holdsFallback : Pc → Bool
  | fallback | draining | drained | fallbackHeld | disabled | storeDone => true
  | _ => false

/-- What the C library does when a thread exits: rounds in which each key has its turn. -/
inductive Life
  | running
  | round (n : Nat) (turnDone : Bool)
  | past
  deriving DecidableEq

/-- `PTHREAD_DESTRUCTOR_ITERATIONS`. -/
def destructorIterations : Nat := 4

/-- `State`, the counter of `ThreadTSD`, and the value of `PThreadKey`. -/
structure Thread where
  initState : InitState
  iterations : Nat
  keySet : Bool
  pc : Pc
  life : Life
  deriving DecidableEq

/-- The registry, for an allocator without quarantine: the front end of a thread's `ThreadTSD`
belongs to the thread, that of `FallbackTSD` to `none`. -/
structure System (ι : Type*) where
  initialized : Bool
  disabled : Bool
  mutex : Option ι
  fallback : Option ι
  threads : ι → Thread
  blocks : Blocks (Option ι)

/-- A call on the front end of a TSD. -/
inductive FrontCall
  | allocate (classId : Nat) (remaps : List Bool)
  | deallocate (classId p : Nat) (remaps : List Bool)

def FrontCall.on {ι : Type*} (tsd : Option ι) : FrontCall → BlockAct (Option ι)
  | allocate classId remaps => .allocate tsd classId remaps
  | deallocate classId p remaps => .deallocate tsd classId p remaps

/-- The next access of a thread, or a part of the release of pages. -/
inductive Act (ι : Type*)
  | initThreadMaybe (t : ι) (minimalInit : Bool)
  | getTSDAndLock (t : ι)
  | lockFallback (t : ι)
  | call (t : ι) (c : FrontCall)
  | unlock (t : ι)
  | drainCaches (t : ι)
  | drainThread (t : ι) (remaps : List Bool)
  | drainFallback (t : ι) (remaps : List Bool)
  | disable (t : ι)
  | enable (t : ι)
  | exit (t : ι)
  | turn (t : ι) (setspecificFails : Bool) (remaps : List Bool)
  | nextRound (t : ι)
  | finish (t : ι)
  | extractAll (classId : Nat)
  | collectGroupsToRelease (classId : Nat)
  | mergeGroupsToReleaseBack (classId : Nat)

namespace System

variable {ι : Type*} [DecidableEq ι] (cfg : ClassConfig) (env : ReleaseConfig)

def setThread (s : System ι) (t : ι) (th : Thread) : System ι :=
  { s with threads := Function.update s.threads t th }

/-- A call on the blocks, behind which the thread goes on. -/
def withBlocks (s : System ι) (a : BlockAct (Option ι)) (t : ι) (th : Thread) :
    Option (System ι) :=
  (s.blocks.step cfg .localCache env a).map fun blocks => { s.setThread t th with blocks }

/-- `initThreadMaybe`, with `initOnceMaybe` under `Mutex`. -/
def initThreadMaybe (s : System ι) (t : ι) (minimalInit : Bool) : Option (System ι) :=
  let th := s.threads t
  if th.initState ≠ .notInitialized then some s
  else if s.mutex ≠ none then none
  else if minimalInit then some { s with initialized := true }
  else some { s.setThread t { th with
      initState := .initialized
      iterations := destructorIterations
      keySet := true } with initialized := true }

/-- The TSD that a thread has got. -/
def tsdOf (s : System ι) (t : ι) : Option (Option ι) :=
  match (s.threads t).pc with
  | .own => some (some t)
  | .fallback => some none
  | _ => none

/-- What a thread does once it has the lock of `FallbackTSD`. -/
def afterLock : Pc → Option Pc
  | .waiting => some .fallback
  | .drainWaiting => some .draining
  | .mutexHeld => some .fallbackHeld
  | _ => none

def lockFallback (s : System ι) (t : ι) : Option (System ι) :=
  if s.fallback ≠ none then none
  else (afterLock (s.threads t).pc).map fun pc =>
    { s.setThread t { s.threads t with pc } with fallback := some t }

def unlock (s : System ι) (t : ι) : Option (System ι) :=
  let th := { s.threads t with pc := .idle }
  match (s.threads t).pc with
  | .own => some (s.setThread t th)
  | .fallback | .drained => some { s.setThread t th with fallback := none }
  | _ => none

def disable (s : System ι) (t : ι) : Option (System ι) :=
  match (s.threads t).pc with
  | .idle =>
      if s.mutex ≠ none then none
      else some { s.setThread t { s.threads t with pc := .mutexHeld } with mutex := some t }
  | .fallbackHeld =>
      some { s.setThread t { s.threads t with pc := .disabled } with disabled := true }
  | _ => none

def enable (s : System ι) (t : ι) : Option (System ι) :=
  match (s.threads t).pc with
  | .disabled => some { s.setThread t { s.threads t with pc := .storeDone } with disabled := false }
  | .storeDone =>
      some { s.setThread t { s.threads t with pc := .fallbackReleased } with fallback := none }
  | .fallbackReleased => some { s.setThread t { s.threads t with pc := .idle } with mutex := none }
  | _ => none

/-- `teardownThread`, called with the value of the key after the key was cleared. -/
def teardownThread (s : System ι) (t : ι) (n : Nat) (setspecificFails : Bool)
    (remaps : List Bool) : Option (System ι) :=
  let th := { s.threads t with keySet := false, life := .round n true }
  if 1 < th.iterations then
    let th := { th with iterations := th.iterations - 1 }
    if setspecificFails then
      s.withBlocks cfg env (.destroy (some t) remaps) t { th with initState := .tornDown }
    else some (s.setThread t { th with keySet := true })
  else s.withBlocks cfg env (.destroy (some t) remaps) t { th with initState := .tornDown }

/-- The turn of `PThreadKey` in a round; the destructor is called if the key has a value. -/
def turn (s : System ι) (t : ι) (setspecificFails : Bool) (remaps : List Bool) :
    Option (System ι) :=
  match (s.threads t).life with
  | .round n false =>
      if (s.threads t).keySet then s.teardownThread cfg env t n setspecificFails remaps
      else some (s.setThread t { s.threads t with life := .round n true })
  | _ => none

def nextRound (s : System ι) (t : ι) : Option (System ι) :=
  match (s.threads t).life with
  | .round n true =>
      if n < destructorIterations then
        some (s.setThread t { s.threads t with life := .round (n+1) false })
      else none
  | _ => none

/-- The rounds end when no key has a value, or after the last one. -/
def finish (s : System ι) (t : ι) : Option (System ι) :=
  match (s.threads t).life with
  | .round n true =>
      if n = destructorIterations ∨ (s.threads t).keySet = false then
        some (s.setThread t { s.threads t with life := .past })
      else none
  | _ => none

/-- A thread makes a new call when it is not in one. -/
def whenIdle (s : System ι) (t : ι) (next : Option (System ι)) : Option (System ι) :=
  if (s.threads t).pc = .idle then next else none

def step (s : System ι) : Act ι → Option (System ι)
  | .initThreadMaybe t minimalInit => s.whenIdle t (s.initThreadMaybe t minimalInit)
  | .getTSDAndLock t => s.whenIdle t <|
      if s.initialized = false then none
      else if (s.threads t).initState = .initialized ∧ s.disabled = false then
        some (s.setThread t { s.threads t with pc := .own })
      else some (s.setThread t { s.threads t with pc := .waiting })
  | .lockFallback t => s.lockFallback t
  | .call t c => (s.tsdOf t).bind fun tsd => s.withBlocks cfg env (c.on tsd) t (s.threads t)
  | .unlock t => s.unlock t
  | .drainCaches t => s.whenIdle t <|
      if s.initialized = false then none
      else some (s.setThread t { s.threads t with pc := .drainingOwn })
  -- whatever the state of the thread
  | .drainThread t remaps =>
      if (s.threads t).pc = .drainingOwn then
        s.withBlocks cfg env (.drain (some t) remaps) t { s.threads t with pc := .drainWaiting }
      else none
  | .drainFallback t remaps =>
      if (s.threads t).pc = .draining then
        s.withBlocks cfg env (.drain none remaps) t { s.threads t with pc := .drained }
      else none
  | .disable t => s.disable t
  | .enable t => s.enable t
  | .exit t => s.whenIdle t <|
      if (s.threads t).life = .running then
        some (s.setThread t { s.threads t with life := .round 1 false })
      else none
  | .turn t setspecificFails remaps => s.whenIdle t (s.turn cfg env t setspecificFails remaps)
  | .nextRound t => s.whenIdle t (s.nextRound t)
  | .finish t => s.whenIdle t (s.finish t)
  | .extractAll c => (s.blocks.step cfg .localCache env (.extractAll c)).map fun blocks =>
      { s with blocks }
  | .collectGroupsToRelease c =>
      (s.blocks.step cfg .localCache env (.collectGroupsToRelease c)).map fun blocks =>
        { s with blocks }
  | .mergeGroupsToReleaseBack c =>
      (s.blocks.step cfg .localCache env (.mergeGroupsToReleaseBack c)).map fun blocks =>
        { s with blocks }

omit [DecidableEq ι] in
/-- The calls are made with blocks as they were handed out. -/
def Enabled (s : System ι) : Act ι → Prop
  | .call _ c => ∀ tsd : Option ι, s.blocks.Enabled cfg (c.on tsd)
  | .extractAll c => s.blocks.Enabled cfg (.extractAll c)
  | .collectGroupsToRelease c => s.blocks.Enabled cfg (.collectGroupsToRelease c)
  | .mergeGroupsToReleaseBack c => s.blocks.Enabled cfg (.mergeGroupsToReleaseBack c)
  | _ => True

omit [DecidableEq ι] in
structure Init (s : System ι) : Prop where
  initialized : s.initialized = false
  disabled : s.disabled = false
  mutex : s.mutex = none
  fallback : s.fallback = none
  threads : ∀ t, s.threads t = ⟨.notInitialized, 0, false, .idle, .running⟩
  blocks : s.blocks.Init cfg

abbrev Reachable : System ι → Prop :=
  TransitionSystem.Reachable (Init cfg) (Enabled cfg) fun s a s' => s.step cfg env a = some s'

end System

end ScudoMte.Tsd.Exclusive
