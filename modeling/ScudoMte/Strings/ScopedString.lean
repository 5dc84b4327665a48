import ScudoMte.Common
import ScudoMte.Strings.Format

namespace ScudoMte.Strings

/-- The answers of the system to the calls of `map`, by the number of the call and the bytes asked
for: no mapping takes half of the address space. -/
structure MapCalls where
  succeeds : Nat → Nat → Bool
  bounded : ∀ n bytes, succeeds n bytes = true → bytes < 2^63
  pageLog : Nat
  pageLog_le : pageLog ≤ 32

/-- Memory is unlimited: every mapping that there is room for is made. -/
def MapCalls.Unlimited (M : MapCalls) : Prop :=
  ∀ n bytes, bytes < 2^63 → M.succeeds n bytes = true

/-- `VectorNoCtor` of characters, with the calls of `map` so far. -/
structure VectorNoCtor where
  data : Nat → Char
  capacity : Nat
  size : Nat
  mapCalls : Nat

/-- Why an operation on the string ends: formatting stops, or an element outside is accessed. -/
inductive Fault
  | stopped (stop : Stop)
  | writeBeyondCapacity
  | readPastSize
  deriving DecidableEq

abbrev Vec := EStateM Fault VectorNoCtor

/-- `Data[I] = c`. -/
def writeAt (i : Nat) (c : Char) : Vec Unit := fun v =>
  if i < v.capacity then .ok () { v with data := Function.update v.data i c }
  else .error .writeBeyondCapacity v

/-- `Data[I]`. -/
def readAt (i : Nat) : Vec Char := fun v =>
  if i < v.size then .ok (v.data i) v else .error .readPastSize v

/-- `reallocate`, which copies the elements into a new mapping. -/
def reallocate (M : MapCalls) (newCapacity : Nat) : Vec Bool := fun v =>
  let newCapacity := roundUp newCapacity (2^M.pageLog)
  if !M.succeeds v.mapCalls newCapacity then .ok false { v with mapCalls := v.mapCalls + 1 }
  else if newCapacity < v.size then .error .writeBeyondCapacity v
  else .ok true
    { data := fun i => if i < v.size then v.data i else terminator
      capacity := newCapacity
      size := v.size
      mapCalls := v.mapCalls + 1 }

def setSize (n : Nat) : Vec Unit := modify fun v => { v with size := n }

/-- `push_back`, which does nothing where the vector does not grow. -/
def push_back (M : MapCalls) (c : Char) : Vec Unit := do
  let v ← get
  let room ← if v.size = v.capacity then reallocate M (roundUpPowerOfTwo (v.size+1)) else pure true
  if room then do
    writeAt v.size c
    setSize (v.size+1)

def reserve (M : MapCalls) (newSize : Nat) : Vec Bool := do
  let v ← get
  if newSize > v.capacity then reallocate M newSize else pure true

/-- `memset` of zeros. -/
def clearFrom (i : Nat) : Nat → Vec Unit
  | 0 => pure ()
  | n+1 => do
      writeAt i terminator
      clearFrom (i+1) n

def resize (M : MapCalls) (newSize : Nat) : Vec Unit := do
  let v ← get
  if newSize > v.size then do
    if ← reserve M newSize then do
      clearFrom v.size (newSize - v.size)
      setSize newSize
  else setSize newSize

def back : Vec Char := do
  let v ← get
  readAt (wrapSub v.size 1)

def setBack (c : Char) : Vec Unit := do
  let v ← get
  writeAt (wrapSub v.size 1) c

/-- The characters that formatting pushes. -/
def pushAll (M : MapCalls) : List Char → Vec Unit
  | [] => pure ()
  | c :: cs => do
      push_back M c
      pushAll M cs

/-- The pushes of the loop over the format string, and its end. -/
def pushText (M : MapCalls) : EStateM.Result Stop (List Char) Unit → Vec Unit
  | .ok () text => pushAll M text
  | .error stop text => do
      pushAll M text
      throw (.stopped stop)

def vappend (M : MapCalls) (format : List Char) (args : List Arg) : Vec Unit := do
  let v ← get
  resize M (wrapSub v.size 1)
  pushText M (formatFrom 0 args format [])
  push_back M terminator
  if (← back) ≠ terminator then setBack terminator

/-- One `append` after another. -/
def appendAll (M : MapCalls) : List (List Char × List Arg) → Vec Unit
  | [] => pure ()
  | (format, args) :: appends => do
      vappend M format args
      appendAll M appends

/-- The vector in a new string: 256 elements of its own. -/
def localVector : VectorNoCtor := ⟨fun _ => terminator, 256, 0, 0⟩

/-- A new string and what is appended to it. -/
def scopedString (M : MapCalls) (appends : List (List Char × List Arg)) : Vec Unit := do
  push_back M terminator
  appendAll M appends

def VectorNoCtor.length (v : VectorNoCtor) : Nat := wrapSub v.size 1

/-- What the appends come to with unlimited memory: the text, and where they end if they do. -/
def unlimited : List (List Char × List Arg) → List Char × Option Stop
  | [] => ([], none)
  | (format, args) :: appends =>
      match formatFrom 0 args format [] with
      | .ok () text => (text ++ (unlimited appends).1, (unlimited appends).2)
      | .error stop text => (text, some stop)

/-- The elements of a vector. -/
def VectorNoCtor.chars (v : VectorNoCtor) : List Char := (List.range v.size).map v.data

end ScudoMte.Strings
