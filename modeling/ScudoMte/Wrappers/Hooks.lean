import ScudoMte.Chunk

namespace ScudoMte.Wrappers

open Chunk

/-- A call of a hook; the null pointer is `none`. -/
inductive HookEvent
  | allocate (ptr size : Nat)
  | deallocate (ptr : Option Nat)
  | reallocAllocate (oldPtr newPtr size : Nat)
  | reallocDeallocate (oldPtr : Nat)

inductive Errno
  | enomem
  | einval
  deriving DecidableEq

/-- What a wrapper returns: a pointer, through `memptr` for `posix_memalign`, and the error. -/
structure Returned where
  ptr : Option Nat
  errno : Option Errno

/-- The code of a wrapper, from one call of a hook or of the allocator to the next. At its end the
program has the pointer `kept`, if any, out of those that the call is about. -/
inductive Code
  | ret (result : Returned) (kept : Option Nat)
  | fatal
  | report (event : HookEvent) (next : Code)
  | allocate (size : Nat) (origin : Origin) (alignment : Nat) (zeroContents : Bool)
      (next : Option Nat → Code)
  | deallocate (ptr : Option Nat) (origin : Origin) (next : Code)
  | reallocate (ptr size alignment : Nat) (next : Option Nat → Code)
  | getAllocSize (ptr : Nat) (next : Nat → Code)

def reportAllocation (ptr : Option Nat) (size : Nat) (next : Code) : Code :=
  match ptr with
  | some p => .report (.allocate p size) next
  | none => next

def reportDeallocation (ptr : Option Nat) (next : Code) : Code := .report (.deallocate ptr) next

def reportReallocAllocation (oldPtr newPtr size : Nat) (next : Code) : Code :=
  .report (.reallocAllocate oldPtr newPtr size) next

def reportReallocDeallocation (oldPtr : Nat) (next : Code) : Code :=
  .report (.reallocDeallocate oldPtr) next

/-- What the wrappers depend on. -/
structure Platform where
  android : Bool
  pageSize : Nat
  canReturnNull : Bool

/-- `SCUDO_MALLOC_ALIGNMENT`. -/
def mallocAlignment : Nat := 16

def setErrnoOnNull (ptr : Option Nat) : Returned :=
  ⟨ptr, if ptr.isNone then some .enomem else none⟩

/-- The end of a wrapper that hands out a new pointer or null. -/
def handOut (ptr : Option Nat) : Code := .ret (setErrnoOnNull ptr) ptr

/-- A failed check: null under `may_return_null`, and a fatal report else. -/
def Platform.reject (P : Platform) (errno : Errno) : Code :=
  if P.canReturnNull then .ret ⟨none, some errno⟩ none else .fatal

/-- Whether the product overflows, and the product. -/
def checkForCallocOverflow (size n : Nat) : Bool × Nat := (2^64 ≤ size * n, size * n % 2^64)

def checkForPvallocOverflow (size pageSize : Nat) : Bool := roundUp size pageSize < size

def checkPosixMemalignAlignment (alignment : Nat) : Bool :=
  !isPowerOfTwo alignment || !isAligned alignment 8

def checkAlignedAllocAlignmentAndSize (alignment size : Nat) : Bool :=
  !isPowerOfTwo alignment || !isAligned size alignment

def calloc (P : Platform) (nmemb size : Nat) : Code :=
  let (overflow, product) := checkForCallocOverflow size nmemb
  if overflow then P.reject .enomem
  else .allocate product .malloc mallocAlignment true fun ptr =>
    reportAllocation ptr product (handOut ptr)

def free (ptr : Option Nat) : Code :=
  reportDeallocation ptr (.deallocate ptr .malloc (.ret ⟨none, none⟩ none))

def malloc (size : Nat) : Code :=
  .allocate size .malloc mallocAlignment false fun ptr => reportAllocation ptr size (handOut ptr)

/-- `memalign`, which leaves `errno` alone. -/
def memalign (P : Platform) (alignment size : Nat) : Code :=
  let body (alignment : Nat) : Code :=
    .allocate size .memalign alignment false fun ptr =>
      reportAllocation ptr size (.ret ⟨ptr, none⟩ ptr)
  if P.android then
    body (if alignment = 0 then 1
      else if !isPowerOfTwo alignment then roundUpPowerOfTwo alignment else alignment)
  else if !isPowerOfTwo alignment then P.reject .einval
  else body alignment

def posixMemalign (P : Platform) (alignment size : Nat) : Code :=
  if checkPosixMemalignAlignment alignment then P.reject .einval
  else .allocate size .memalign alignment false fun ptr =>
    match ptr with
    | none => .ret ⟨none, some .enomem⟩ none
    | some p => reportAllocation (some p) size (.ret ⟨some p, none⟩ (some p))

def pvalloc (P : Platform) (size : Nat) : Code :=
  if checkForPvallocOverflow size P.pageSize then P.reject .enomem
  else .allocate (if size ≠ 0 then roundUp size P.pageSize else P.pageSize) .memalign P.pageSize false
    fun ptr => reportAllocation ptr (roundUp size P.pageSize) (handOut ptr)

def realloc (ptr : Option Nat) (size : Nat) : Code :=
  match ptr with
  | none => malloc size
  | some p =>
      if size = 0 then
        reportDeallocation (some p) (.deallocate (some p) .malloc (.ret ⟨none, none⟩ none))
      else
        reportReallocDeallocation p (.reallocate p size mallocAlignment fun newPtr =>
          match newPtr with
          | some q => reportReallocAllocation p q size (handOut (some q))
          | none => .getAllocSize p fun allocSize =>
              reportReallocAllocation p p allocSize (.ret (setErrnoOnNull none) (some p)))

def valloc (P : Platform) (size : Nat) : Code :=
  .allocate size .memalign P.pageSize false fun ptr => reportAllocation ptr size (handOut ptr)

def alignedAlloc (P : Platform) (alignment size : Nat) : Code :=
  if checkAlignedAllocAlignmentAndSize alignment size then P.reject .einval
  else .allocate size .malloc alignment false fun ptr => reportAllocation ptr size (handOut ptr)

/-- The calls of the program. -/
inductive Call
  | malloc (size : Nat)
  | calloc (nmemb size : Nat)
  | memalign (alignment size : Nat)
  | posixMemalign (alignment size : Nat)
  | pvalloc (size : Nat)
  | valloc (size : Nat)
  | alignedAlloc (alignment size : Nat)
  | realloc (ptr : Option Nat) (size : Nat)
  | free (ptr : Option Nat)

/-- The pointer that a call is about. -/
def Call.ptr : Call → Option Nat
  | realloc ptr _ => ptr
  | free ptr => ptr
  | _ => none

def Call.code (P : Platform) : Call → Code
  | malloc size => Wrappers.malloc size
  | calloc nmemb size => Wrappers.calloc P nmemb size
  | memalign alignment size => Wrappers.memalign P alignment size
  | posixMemalign alignment size => Wrappers.posixMemalign P alignment size
  | pvalloc size => Wrappers.pvalloc P size
  | valloc size => Wrappers.valloc P size
  | alignedAlloc alignment size => Wrappers.alignedAlloc P alignment size
  | realloc ptr size => Wrappers.realloc ptr size
  | free ptr => Wrappers.free ptr

/-- The pointers that the hooks were told about, with their sizes. -/
abbrev Replayed := Nat → Option Nat

/-- One event: a new pointer must not be held, and a pointer that goes away must. -/
def replayEvent (held : Replayed) : HookEvent → Option Replayed
  | .allocate p n | .reallocAllocate _ p n =>
      if (held p).isNone then some (Function.update held p (some n)) else none
  | .deallocate none => some held
  | .deallocate (some p) | .reallocDeallocate p =>
      if (held p).isSome then some (Function.update held p none) else none

def replay (events : List HookEvent) : Option Replayed := events.foldlM replayEvent fun _ => none

theorem replay_append {events : List HookEvent} {held held' : Replayed} {e : HookEvent}
    (h : replay events = some held) (he : replayEvent held e = some held') :
    replay (events ++ [e]) = some held' := by
  rw [replay, List.foldlM_append]
  rw [replay] at h
  rw [h]
  simp [he]

end ScudoMte.Wrappers
