import Mathlib

namespace ScudoMte.Flags

/-- The terminator of a string. -/
def nul : Char := Char.ofNat 0

/-- A string in memory, without its terminator. -/
structure CString where
  chars : List Char
  noNul : nul ∉ chars

def isSeparator (c : Char) : Bool :=
  c = ' ' || c = ',' || c = ':' || c = '\n' || c = '\t' || c = '\r'

def isSeparatorOrNull (c : Char) : Bool := c = nul || isSeparator c

/-- The characters `'` and `"`. -/
def isQuote (c : Char) : Bool := c = Char.ofNat 39 || c = Char.ofNat 34

/-- Whether `strncmp` returns 0. -/
def strncmpEq (a b : List Char) (n : Nat) : Bool := a.take n = b.take n

def isSpace (c : Char) : Bool := c = ' ' || (9 ≤ c.toNat && c.toNat ≤ 13)

def isDigit (c : Char) : Bool := 48 ≤ c.toNat && c.toNat ≤ 57

/-- The value of decimal digits. -/
def decimal (ds : List Char) : Nat := ds.foldl (fun n c => 10*n + (c.toNat - 48)) 0

/-- The sign in front of a number, if any, and what follows it. -/
def splitSign : List Char → Bool × List Char
  | [] => (false, [])
  | c :: t => if c = '-' then (true, t) else if c = '+' then (false, t) else (false, c :: t)

def signed (neg : Bool) (n : Nat) : Int := if neg then -n else n

structure StrtolResult where
  errno : Bool
  value : Int
  valueEnd : List Char

/-- `strtol` in base 10, with a `long` of 64 bits. Whether it reports through `errno` that there is
no number is left open by its documentation, and is `einval` here. -/
def strtol (einval : Bool) (t : List Char) : StrtolResult :=
  let (neg, u) := splitSign (t.dropWhile isSpace)
  let digits := u.takeWhile isDigit
  if digits = [] then ⟨einval, 0, t⟩
  else
    let v := signed neg (decimal digits)
    if v > 2^63 - 1 then ⟨true, 2^63 - 1, u.dropWhile isDigit⟩
    else if v < -2^63 then ⟨true, -2^63, u.dropWhile isDigit⟩
    else ⟨false, v, u.dropWhile isDigit⟩

inductive FlagType
  | bool
  | int
  deriving DecidableEq

/-- What the variable of a flag holds. -/
inductive FlagValue
  | bool (b : Bool)
  | int (v : Int)
  deriving DecidableEq

structure Flag where
  name : List Char
  type : FlagType
  noEquals : '=' ∉ name

/-- The registered flags, and what `strtol` does without a number. -/
structure FlagParser where
  flags : List Flag
  einval : Bool

/-- Why the parser stops: the reports of the source, all of which are fatal, a read behind the
terminator, and a loop that does not end. -/
inductive Stop
  | error (message : String)
  | invalidFlag (flagType : String) (value : List Char)
  | checkFailed
  | readPastEnd
  | endless
  deriving DecidableEq

/-- The variables of the flags, and the names in the registry of unknown flags. -/
structure State where
  vars : Nat → FlagValue
  unknownFlagsNames : List (List Char)

def maxUnknownFlags : Nat := 16

abbrev Parse := EStateM Stop State

/-- `Buffer[Pos]`. -/
def charAt (buf : List Char) (pos : Nat) : Parse Char :=
  match buf[pos]? with
  | some c => pure c
  | none => if pos = buf.length then pure nul else throw .readPastEnd

/-- The string at `Buffer + Pos`. -/
def stringAt (buf : List Char) (pos : Nat) : Parse (List Char) :=
  if pos ≤ buf.length then pure (buf.drop pos) else throw .readPastEnd

/-- `while (p(Buffer[Pos])) ++Pos`. -/
def advanceWhile (buf : List Char) (p : Char → Bool) : Nat → Nat → Parse Nat
  | 0, _ => throw .endless
  | fuel+1, pos => do
      if p (← charAt buf pos) then advanceWhile buf p fuel (pos+1) else pure pos

def skipWhitespace (buf : List Char) (pos : Nat) : Parse Nat :=
  advanceWhile buf isSeparator (buf.length + 1) pos

def falseWords : List (List Char) := [['0'], ['n', 'o'], ['f', 'a', 'l', 's', 'e']]

def trueWords : List (List Char) := [['1'], ['y', 'e', 's'], ['t', 'r', 'u', 'e']]

/-- `parseBool`; each word is compared up to its own length. -/
def parseBool (value : List Char) : Option Bool :=
  if falseWords.any fun w => strncmpEq value w w.length then some false
  else if trueWords.any fun w => strncmpEq value w w.length then some true
  else none

/-- The check of `runHandler` for an `int` flag. -/
def parseInt (einval : Bool) (value : List Char) : Option Int :=
  let r := strtol einval value
  let c := r.valueEnd.headD nul
  if r.errno || r.value > 2^31 - 1 || r.value < -2^31 || (!isQuote c && !isSeparatorOrNull c) then
    none
  else some r.value

def setVar (i : Nat) (v : FlagValue) : Parse Unit :=
  modify fun st => { st with vars := Function.update st.vars i v }

/-- `UnknownFlags.add`. -/
def addUnknownFlag (name : List Char) : Parse Unit := do
  if (← get).unknownFlagsNames.length < maxUnknownFlags then
    modify fun st => { st with unknownFlagsNames := st.unknownFlagsNames ++ [name] }
  else throw .checkFailed

def FlagParser.runHandlerFrom (P : FlagParser) (name value : List Char) (sep : Char) :
    List Flag → Nat → Parse Bool
  | [], _ => do
      addUnknownFlag name
      pure true
  | f :: flags, i =>
      if !strncmpEq name f.name f.name.length || name[f.name.length]?.getD nul ≠ sep then
        P.runHandlerFrom name value sep flags (i+1)
      else match f.type with
        | .bool => match parseBool value with
            | some b => do
                setVar i (.bool b)
                pure true
            | none => throw (.invalidFlag "bool" value)
        | .int => match parseInt P.einval value with
            | some v => do
                setVar i (.int v)
                pure true
            | none => throw (.invalidFlag "int" value)

def FlagParser.runHandler (P : FlagParser) (name value : List Char) (sep : Char) : Parse Bool :=
  P.runHandlerFrom name value sep P.flags 0

/-- `parseFlag` from a position, with the position behind the flag. -/
def FlagParser.parseFlag (P : FlagParser) (buf : List Char) (nameStart : Nat) : Parse Nat := do
  let pos ← advanceWhile buf (fun c => c ≠ '=' && !isSeparatorOrNull c) (buf.length + 1) nameStart
  if (← charAt buf pos) ≠ '=' then throw (.error "expected '='")
  let valueStart := pos + 1
  let quote ← charAt buf valueStart
  let (value, pos) ←
    if isQuote quote then do
      let pos ← advanceWhile buf (fun c => c ≠ nul && c ≠ quote) (buf.length + 1) (valueStart + 1)
      if (← charAt buf pos) = nul then throw (.error "unterminated string")
      pure (valueStart + 1, pos + 1)
    else do
      let pos ← advanceWhile buf (fun c => !isSeparatorOrNull c) (buf.length + 1) valueStart
      pure (valueStart, pos)
  if !(← P.runHandler (← stringAt buf nameStart) (← stringAt buf value) '=') then
    throw (.error "flag parsing failed.")
  pure pos

def FlagParser.parseFlags (P : FlagParser) (buf : List Char) : Nat → Nat → Parse Unit
  | 0, _ => throw .endless
  | fuel+1, pos => do
      let pos ← skipWhitespace buf pos
      if (← charAt buf pos) = nul then pure ()
      else P.parseFlags buf fuel (← P.parseFlag buf pos)

/-- `parseString`; the null pointer is `none`. -/
def FlagParser.parseString (P : FlagParser) : Option CString → Parse Unit
  | none => pure ()
  | some s => P.parseFlags s.chars (s.chars.length + 1) 0

end ScudoMte.Flags
