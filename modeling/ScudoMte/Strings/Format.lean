import Mathlib

namespace ScudoMte.Strings

/-- Why formatting stops: a check of the source, or an argument that is missing or of another kind. -/
inductive Stop
  | rawCheck
  | check
  | badArgument
  deriving DecidableEq

/-- The formatting code pushes characters, and neither looks at the string nor learns what became of
a character. Its state is what it has pushed. -/
abbrev Format := EStateM Stop (List Char)

/-- `String.push_back`. -/
def pushBack (c : Char) : Format Unit := modify fun out => out ++ [c]

/-- A `push_back` under a condition. -/
def pushIf (b : Bool) (c : Char) : Format Unit := if b then pushBack c else pure ()

def rawCheck (b : Bool) : Format Unit := if b then pure () else throw .rawCheck

/-- `MaxLen` of `appendNumber`. -/
def maxLen : Nat := 30

/-- The loop over the digits, least significant one first, with room for `room` more in `NumBuffer`. -/
def digitsLoop (base : Nat) : Nat → Nat → Format (List Nat)
  | 0, _ => throw .rawCheck
  | room+1, value => do
      let rest ← if value / base > 0 then digitsLoop base room (value / base) else pure []
      pure (value % base :: rest)

/-- The loop over leading zeros, with the rest of `NumBuffer` from the most significant digit on. -/
def pushLeading (padWithZero : Bool) : List Nat → Format (List Nat)
  | [] => pure []
  | d :: ds =>
      if d = 0 then do
        pushBack (if padWithZero || ds.isEmpty then '0' else ' ')
        pushLeading padWithZero ds
      else pure (d :: ds)

/-- The character of a digit. -/
def digitOf (upper : Bool) (d : Nat) : Char :=
  Char.ofNat (if d < 10 then 48 + d else (if upper then 65 else 97) + d - 10)

def pushDigits (upper : Bool) : List Nat → Format Unit
  | [] => pure ()
  | d :: ds => do
      pushBack (digitOf upper d)
      pushDigits upper ds

def appendNumber (absoluteValue base minNumberLength : Nat) (padWithZero negative upper : Bool) :
    Format Unit := do
  rawCheck (base = 10 || base = 16)
  rawCheck (base = 10 || !negative)
  rawCheck (absoluteValue ≠ 0 || !negative)
  rawCheck (minNumberLength < maxLen)
  let minLength := if negative && minNumberLength ≠ 0 then minNumberLength - 1 else minNumberLength
  pushIf (negative && padWithZero) '-'
  let digits ← digitsLoop base maxLen absoluteValue
  let numBuffer := if digits.length < minLength then
      digits ++ List.replicate (minLength - digits.length) 0
    else digits
  rawCheck (!numBuffer.isEmpty)
  let rest ← pushLeading padWithZero numBuffer.reverse
  pushIf (negative && !padWithZero) '-'
  pushDigits upper rest

def appendUnsigned (num base minNumberLength : Nat) (padWithZero upper : Bool) : Format Unit :=
  appendNumber num base minNumberLength padWithZero false upper

/-- `appendSignedDecimal` of an `s64`. -/
def appendSignedDecimal (num : Int) (minNumberLength : Nat) (padWithZero : Bool) : Format Unit :=
  let negative : Bool := num < 0
  let unsignedNum := if num = -2^63 then 2^63 - 1 + 1 else (if negative then -num else num).toNat
  appendNumber unsignedNum 10 minNumberLength padWithZero negative false

def pushString : List Char → Format Unit
  | [] => pure ()
  | c :: cs => do
      pushBack c
      pushString cs

/-- `appendString`; the null pointer is `none`. -/
def appendString (width maxChars : Int) (s : Option (List Char)) : Format Unit := do
  let s := s.getD ['<', 'n', 'u', 'l', 'l', '>']
  let chars := if 0 ≤ maxChars then s.take maxChars.toNat else s
  pushString chars
  if width < 0 then pushString (List.replicate (-width - chars.length).toNat ' ')

def pointerFormatLength : Nat := 12

def appendPointer (ptrValue : Nat) : Format Unit := do
  appendString 0 (-1) (some ['0', 'x'])
  appendUnsigned ptrValue 16 pointerFormatLength true false

/-- A variable argument: a word of 64 bits or a string. -/
inductive Arg
  | word (w : Nat)
  | str (s : Option (List Char))

/-- `va_arg` of a word. -/
def vaWord : List Arg → Format (Nat × List Arg)
  | .word w :: args => pure (w % 2^64, args)
  | _ => throw .badArgument

def vaString : List Arg → Format (Option (List Char) × List Arg)
  | .str s :: args => pure (s, args)
  | _ => throw .badArgument

/-- A word of `n` bits as a signed number. -/
def toSigned (n w : Nat) : Int := if w % 2^n < 2^(n-1) then w % 2^n else (w % 2^n : Int) - 2^n

def terminator : Char := Char.ofNat 0

def isDigit (c : Char) : Bool := 48 ≤ c.toNat && c.toNat ≤ 57

/-- The loop over the width, a `u8`, and what follows it. -/
def readWidth (width : Nat) : List Char → Nat × List Char
  | [] => (width, [])
  | c :: cs => if isDigit c then readWidth ((width * 10 + c.toNat - 48) % 2^8) cs else (width, c :: cs)

/-- What is between `%` and the conversion. -/
structure Flags where
  leftJustified : Bool
  haveWidth : Bool
  padWithZero : Bool
  width : Nat
  haveZ : Bool
  haveLL : Bool

def Flags.haveLength (f : Flags) : Bool := f.haveZ || f.haveLL

def Flags.haveFlags (f : Flags) : Bool := f.haveWidth || f.haveLength

/-- The flags, the precision, what follows them and the arguments left. -/
def readFlags (cur : List Char) (args : List Arg) : Format (Flags × Int × List Char × List Arg) := do
  let leftJustified : Bool := cur.headD terminator = '-'
  let cur := if leftJustified then cur.tail else cur
  let haveWidth := isDigit (cur.headD terminator)
  let padWithZero : Bool := cur.headD terminator = '0'
  let (width, cur) := if haveWidth then readWidth 0 cur else (0, cur)
  let havePrecision : Bool := cur.headD terminator = '.' && cur.tail.headD terminator = '*'
  let cur := if havePrecision then cur.drop 2 else cur
  let (precision, args) ←
    if havePrecision then do
      let (w, args) ← vaWord args
      pure (toSigned 32 w, args)
    else pure (-1, args)
  let haveZ : Bool := cur.headD terminator = 'z'
  let cur := if haveZ then cur.tail else cur
  let haveLL : Bool := !haveZ && cur.headD terminator = 'l' && cur.tail.headD terminator = 'l'
  let cur := if haveLL then cur.drop 2 else cur
  pure (⟨leftJustified, haveWidth, padWithZero, width, haveZ, haveLL⟩, precision, cur, args)

/-- The `switch` over the conversion, with the characters that it takes and the arguments left. -/
def convert (f : Flags) (precision : Int) (cur : List Char) (args : List Arg) :
    Format (Nat × List Arg) := do
  let conversion := cur.headD terminator
  if (0 ≤ precision || f.leftJustified) && conversion ≠ 's' then throw .check
  if conversion = 'd' then
    let (w, args) ← vaWord args
    appendSignedDecimal (toSigned (if f.haveLength then 64 else 32) w) f.width f.padWithZero
    pure (1, args)
  else if conversion = 'u' || conversion = 'x' || conversion = 'X' then
    let (w, args) ← vaWord args
    appendUnsigned (if f.haveLength then w else w % 2^32) (if conversion = 'u' then 10 else 16) f.width
      f.padWithZero (conversion = 'X')
    pure (1, args)
  else if conversion = 'p' then
    rawCheck (!f.haveFlags)
    let (w, args) ← vaWord args
    appendPointer w
    pure (1, args)
  else if conversion = 's' then
    rawCheck (!f.haveLength)
    if f.haveWidth && !f.leftJustified then throw .check
    let (s, args) ← vaString args
    appendString (if f.leftJustified then -f.width else f.width) precision s
    pure (1, args)
  else if conversion = 'c' then
    rawCheck (!f.haveFlags)
    let (w, args) ← vaWord args
    pushBack (Char.ofNat (w % 2^8))
    pure (1, args)
  else if conversion = 'l' then
    let next := cur.tail.headD terminator
    rawCheck (next = 'd' || next = 'u')
    let (w, args) ← vaWord args
    if next = 'd' then appendSignedDecimal (toSigned 64 w) f.width f.padWithZero
    else appendUnsigned w 10 f.width f.padWithZero false
    pure (2, args)
  else if conversion = '%' then
    rawCheck (!f.haveFlags)
    pushBack '%'
    pure (1, args)
  else throw .rawCheck

/-- The loop over the format string. `skip` counts the characters ahead that a conversion has taken. -/
def formatFrom (skip : Nat) (args : List Arg) : List Char → Format Unit
  | [] => pure ()
  | c :: cur =>
      if skip ≠ 0 then formatFrom (skip-1) args cur
      else if c ≠ '%' then do
        pushBack c
        formatFrom 0 args cur
      else do
        let (f, precision, rest, args) ← readFlags cur args
        let (taken, args) ← convert f precision rest args
        formatFrom (cur.length - rest.length + taken) args cur

section Steps

variable {ε σ α β : Type} {x : EStateM ε σ α} {f : α → EStateM ε σ β} {s s' : σ}

theorem bind_ok {a : α} (h : x s = .ok a s') : (x >>= f) s = f a s' := by
  simp only [bind, EStateM.bind, h]

theorem bind_error {e : ε} (h : x s = .error e s') : (x >>= f) s = .error e s' := by
  simp only [bind, EStateM.bind, h]

theorem get_bind (f : σ → EStateM ε σ β) (s : σ) : (get >>= f) s = f s s := rfl

end Steps

end ScudoMte.Strings
