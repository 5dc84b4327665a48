import ScudoMte.Flags.ParseString

namespace ScudoMte.Flags

def boolValue (v : List Char) : Option Bool :=
  if v ∈ falseWords then some false else if v ∈ trueWords then some true else none

/-- A decimal number, with or without a sign. -/
structure IsNumber (v : List Char) : Prop where
  ne_nil : (splitSign v).2 ≠ []
  digits : ∀ c ∈ (splitSign v).2, isDigit c = true

instance (v : List Char) : Decidable (IsNumber v) :=
  decidable_of_iff ((splitSign v).2 ≠ [] ∧ ∀ c ∈ (splitSign v).2, isDigit c = true)
    ⟨fun ⟨h1, h2⟩ => ⟨h1, h2⟩, fun ⟨h1, h2⟩ => ⟨h1, h2⟩⟩

def numberValue (v : List Char) : Int := signed (splitSign v).1 (decimal (splitSign v).2)

/-- A number in the range of `int`. -/
structure IsInt (v : List Char) : Prop where
  number : IsNumber v
  ge : -2^31 ≤ numberValue v
  le : numberValue v ≤ 2^31 - 1

instance (v : List Char) : Decidable (IsInt v) :=
  decidable_of_iff (IsNumber v ∧ -2^31 ≤ numberValue v ∧ numberValue v ≤ 2^31 - 1)
    ⟨fun ⟨h1, h2, h3⟩ => ⟨h1, h2, h3⟩, fun ⟨h1, h2, h3⟩ => ⟨h1, h2, h3⟩⟩

def intValue (v : List Char) : Option Int := if IsInt v then some (numberValue v) else none

/-- The reading of a value that takes just the words for `bool` flags and just the numbers for
`int` flags. -/
def exactValue : FlagType → Assignment → Option FlagValue
  | .bool, a => (boolValue a.value).map .bool
  | .int, a => (intValue a.value).map .int

/-- The value that an assignment has for a flag. -/
def FlagParser.valueFor (P : FlagParser) (i : Nat) (a : Assignment) : Option FlagValue :=
  match P.find a.name with
  | none => none
  | some (j, type) => if j = i then exactValue type a else none

/-- The value that an assignment has for a flag by a reading of the values. -/
def FlagParser.valueBy (P : FlagParser) (read : FlagType → Assignment → Option FlagValue) (i : Nat)
    (a : Assignment) : Option FlagValue :=
  match P.find a.name with
  | none => none
  | some (j, type) => if j = i then read type a else none

def FlagParser.valuesBy (P : FlagParser) (read : FlagType → Assignment → Option FlagValue) (i : Nat)
    (as : List Assignment) : List FlagValue := as.filterMap (P.valueBy read i)

/-- The values that a string has for a flag, in turn. -/
def FlagParser.valuesOf (P : FlagParser) (i : Nat) (as : List Assignment) : List FlagValue :=
  as.filterMap (P.valueFor i)

/-- Each assignment to a flag is made exactly where it has a value for that flag and is an error
otherwise, and where there is no error each flag has the last value that the string has for it. -/
structure FlagParser.ParsesExactly (P : FlagParser) (as : List Assignment) (e : Ending) (st : State)
    (r : EStateM.Result Stop State Unit) : Prop where
  assigned : r = P.assignAll exactValue as e st
  lastWins : ∀ st', r = .ok () st' →
    ∀ i, st'.vars i = (P.valuesOf i as).getLast?.getD (st.vars i)

/-- The parser comes to an end within its string. -/
structure StaysInside (r : EStateM.Result Stop State Unit) : Prop where
  inside : ∀ st, r ≠ .error .readPastEnd st
  ends : ∀ st, r ≠ .error .endless st

/-- Where the number check of `runHandler` lets a number end. -/
def endsNumber (c : Char) : Bool := isQuote c || isSeparatorOrNull c

/-- A number in range, in white space and up to a quote, a separator or the terminator. -/
def NumberAhead (t : List Char) : Prop :=
  ∃ spaces number after, t = spaces ++ (number ++ after) ∧ (∀ c ∈ spaces, isSpace c = true) ∧
    IsInt number ∧ endsNumber (after.headD nul) = true

/-- No number, in range or not, stands behind the white space. -/
def NoNumberAhead (t : List Char) : Prop :=
  ∀ spaces number after, t = spaces ++ (number ++ after) → (∀ c ∈ spaces, isSpace c = true) →
    ¬ IsNumber number

/-- A value that a handler takes for something else: one that only starts with a word; one that
goes on behind a number or that white space precedes, also where these are no part of the value;
one without a number. -/
def FlagParser.Mistaken (P : FlagParser) : FlagType → Assignment → Prop
  | .bool, a => ∃ w ∈ falseWords ++ trueWords, w <+: a.value
  | .int, a => NumberAhead a.valueText ∨
      P.einval = false ∧ NoNumberAhead a.valueText ∧ endsNumber (a.valueText.headD nul) = true

/-- The first assignment to a flag that has no value for it, if the parser comes to it. -/
def FlagParser.firstInvalid (P : FlagParser) : List Assignment → Nat → Option (FlagType × Assignment)
  | [], _ => none
  | a :: as, unknown =>
      match P.find a.name with
      | none => if unknown < maxUnknownFlags then P.firstInvalid as (unknown+1) else none
      | some (_, type) =>
          if (exactValue type a).isSome then P.firstInvalid as unknown else some (type, a)

section Strtol

variable {t number spaces after : List Char}

theorem splitSign_append (hne : number ≠ []) :
    splitSign (number ++ after) = ((splitSign number).1, (splitSign number).2 ++ after) := by
  cases number with
  | nil => exact absurd rfl hne
  | cons c u =>
    simp only [List.cons_append, splitSign]
    split
    · rfl
    · split <;> rfl

theorem isDigit_iff {c : Char} : isDigit c = true ↔ 48 ≤ c.toNat ∧ c.toNat ≤ 57 := by
  simp [isDigit]

theorem isSpace_of_isDigit {c : Char} (h : isDigit c = true) : isSpace c = false := by
  obtain ⟨h1, h2⟩ := isDigit_iff.mp h
  have hne : c ≠ ' ' := by
    rintro rfl
    exact absurd h1 (by decide)
  simp [isSpace, hne]
  omega

theorem IsNumber.ne_nil' (h : IsNumber number) : number ≠ [] := by
  rintro rfl
  exact h.ne_nil rfl

/-- A number starts with a sign or a digit. -/
theorem IsNumber.head (h : IsNumber number) : isSpace (number.headD nul) = false := by
  have hdigits := h.digits
  cases number with
  | nil => exact absurd rfl h.ne_nil
  | cons c u =>
    by_cases hminus : c = '-'
    · subst hminus
      rfl
    · by_cases hplus : c = '+'
      · subst hplus
        rfl
      · rw [splitSign, if_neg hminus, if_neg hplus] at hdigits
        exact isSpace_of_isDigit (hdigits c List.mem_cons_self)

theorem dropWhile_number (hs : ∀ c ∈ spaces, isSpace c = true) (hn : IsNumber number) :
    (spaces ++ (number ++ after)).dropWhile isSpace = number ++ after := by
  rw [List.dropWhile_append_of_pos hs]
  have hhead := hn.head
  cases number with
  | nil => exact absurd rfl hn.ne_nil
  | cons c u => exact List.dropWhile_cons_of_neg (by simpa using hhead)

theorem takeWhile_digits (hn : IsNumber number) (ha : isDigit (after.headD nul) = false) :
    ((splitSign number).2 ++ after).takeWhile isDigit = (splitSign number).2 ∧
      ((splitSign number).2 ++ after).dropWhile isDigit = after := by
  rw [List.takeWhile_append_of_pos hn.digits, List.dropWhile_append_of_pos hn.digits]
  cases after with
  | nil => simp
  | cons c u =>
    have hc : ¬ isDigit c = true := by simpa using ha
    exact ⟨by rw [List.takeWhile_cons_of_neg hc, List.append_nil], List.dropWhile_cons_of_neg hc⟩

theorem strtol_number (einval : Bool) (hs : ∀ c ∈ spaces, isSpace c = true) (hn : IsNumber number)
    (ha : isDigit (after.headD nul) = false) :
    strtol einval (spaces ++ (number ++ after)) =
      if numberValue number > 2^63 - 1 then ⟨true, 2^63 - 1, after⟩
      else if numberValue number < -2^63 then ⟨true, -2^63, after⟩
      else ⟨false, numberValue number, after⟩ := by
  obtain ⟨htake, hrest⟩ := takeWhile_digits hn ha
  simp only [strtol, dropWhile_number hs hn, splitSign_append hn.ne_nil', htake, hrest,
    if_neg hn.ne_nil, numberValue]
  rfl

theorem isDigit_of_endsNumber {c : Char} (h : endsNumber c = true) : isDigit c = false := by
  simp only [endsNumber, isQuote, isSeparatorOrNull, isSeparator, Bool.or_eq_true,
    decide_eq_true_eq] at h
  rcases h with (rfl | rfl) | rfl | ((((rfl | rfl) | rfl) | rfl) | rfl) | rfl <;> decide

/-- The check of `runHandler` on what `strtol` returns. -/
theorem parseInt_of_strtol {einval : Bool} {r : StrtolResult} (h : strtol einval t = r) :
    parseInt einval t =
      if r.errno = false ∧ -2^31 ≤ r.value ∧ r.value ≤ 2^31 - 1 ∧
        endsNumber (r.valueEnd.headD nul) = true then some r.value else none := by
  have hcond : (r.errno || r.value > 2^31 - 1 || r.value < -2^31 ||
      (!isQuote (r.valueEnd.headD nul) && !isSeparatorOrNull (r.valueEnd.headD nul))) = true ↔
      ¬ (r.errno = false ∧ -2^31 ≤ r.value ∧ r.value ≤ 2^31 - 1 ∧
        endsNumber (r.valueEnd.headD nul) = true) := by
    rw [← Bool.not_or, ← endsNumber]
    simp only [Bool.or_eq_true, decide_eq_true_eq, Bool.not_eq_true']
    cases r.errno <;> cases endsNumber (r.valueEnd.headD nul) <;> (simp; try omega)
  simp only [parseInt, h]
  by_cases hc : r.errno = false ∧ -2^31 ≤ r.value ∧ r.value ≤ 2^31 - 1 ∧
      endsNumber (r.valueEnd.headD nul) = true
  · rw [if_pos hc, if_neg (fun hn => hcond.mp hn hc)]
  · rw [if_neg hc, if_pos (hcond.mpr hc)]

/-- The check takes a number in range that ends where it may. -/
theorem parseInt_number (einval : Bool) (hs : ∀ c ∈ spaces, isSpace c = true) (hn : IsInt number)
    (ha : endsNumber (after.headD nul) = true) :
    parseInt einval (spaces ++ (number ++ after)) = some (numberValue number) := by
  have hge := hn.ge
  have hle := hn.le
  have hstrtol := strtol_number einval hs hn.number (isDigit_of_endsNumber ha)
  rw [if_neg (show ¬ numberValue number > 2^63 - 1 by omega),
    if_neg (show ¬ numberValue number < -2^63 by omega)] at hstrtol
  rw [parseInt_of_strtol hstrtol, if_pos ⟨rfl, hge, hle, ha⟩]

/-- The digits behind a sign, with the sign. -/
theorem exists_signed {u digits : List Char} (h : (splitSign u).2 = digits ++ after)
    (hne : digits ≠ []) (hd : ∀ c ∈ digits, isDigit c = true) :
    ∃ number, u = number ++ after ∧ (splitSign number).2 = digits := by
  cases u with
  | nil =>
    have hnil : digits = [] := by
      have hlen := congrArg List.length h
      simp only [splitSign, List.length_nil, List.length_append] at hlen
      exact List.eq_nil_of_length_eq_zero (by omega)
    exact absurd hnil hne
  | cons c v =>
    by_cases hsign : c = '-' ∨ c = '+'
    · have hsplit (w : List Char) : (splitSign (c :: w)).2 = w := by
        rcases hsign with rfl | rfl <;> rfl
      rw [hsplit] at h
      exact ⟨c :: digits, by rw [h, List.cons_append], hsplit _⟩
    · rw [not_or] at hsign
      have hsplit : (splitSign (c :: v)).2 = c :: v := by
        rw [splitSign, if_neg hsign.1, if_neg hsign.2]
      rw [hsplit] at h
      refine ⟨digits, h, ?_⟩
      cases digits with
      | nil => exact absurd rfl hne
      | cons d w =>
        obtain rfl : c = d := (List.cons.inj h).1
        rw [splitSign, if_neg hsign.1, if_neg hsign.2]

/-- Behind the white space there is a number, and behind that no digit, or there is no number. -/
theorem exists_number (t : List Char) :
    (∃ spaces number after, t = spaces ++ (number ++ after) ∧ (∀ c ∈ spaces, isSpace c = true) ∧
      IsNumber number ∧ isDigit (after.headD nul) = false) ∨
      (splitSign (t.dropWhile isSpace)).2.takeWhile isDigit = [] := by
  obtain ⟨digits, after, hx, hdigits, hafter⟩ :=
    exists_run (p := isDigit) (splitSign (t.dropWhile isSpace)).2 (by decide)
  by_cases hne : digits = []
  · refine .inr ?_
    rw [hx, hne, List.nil_append]
    cases after with
    | nil => rfl
    | cons c u => exact List.takeWhile_cons_of_neg (by simpa using hafter)
  · obtain ⟨number, hu, hn⟩ := exists_signed hx hne hdigits
    refine .inl ⟨t.takeWhile isSpace, number, after, ?_, fun c hc => List.mem_takeWhile_imp hc,
      ⟨hn ▸ hne, hn ▸ hdigits⟩, hafter⟩
    rw [← hu, List.takeWhile_append_dropWhile]

/-- Without a number `strtol` stays where it is. -/
theorem strtol_nil (einval : Bool) {t : List Char}
    (h : (splitSign (t.dropWhile isSpace)).2.takeWhile isDigit = []) :
    strtol einval t = ⟨einval, 0, t⟩ := by
  simp only [strtol, h, if_true]

theorem noNumberAhead_of_nil {t : List Char}
    (h : (splitSign (t.dropWhile isSpace)).2.takeWhile isDigit = []) : NoNumberAhead t := by
  rintro spaces number after rfl hs hn
  rw [dropWhile_number hs hn, splitSign_append hn.ne_nil',
    List.takeWhile_append_of_pos hn.digits] at h
  exact hn.ne_nil (List.append_eq_nil_iff.mp h).1

/-- What the check of `runHandler` takes. -/
theorem parseInt_isSome_iff (einval : Bool) (t : List Char) :
    (parseInt einval t).isSome ↔
      NumberAhead t ∨ einval = false ∧ NoNumberAhead t ∧ endsNumber (t.headD nul) = true := by
  rcases exists_number t with ⟨spaces, number, after, rfl, hs, hn, ha⟩ | hnil
  · have hno : ¬ NoNumberAhead (spaces ++ (number ++ after)) :=
      fun h => h spaces number after rfl hs hn
    simp only [hno, false_and, and_false, or_false]
    constructor
    · intro h
      have hstrtol := strtol_number einval hs hn ha
      by_cases hrange : numberValue number > 2^63 - 1 ∨ numberValue number < -2^63
      · have herrno : (strtol einval (spaces ++ (number ++ after))).errno = true := by
          rw [hstrtol]
          split
          · rfl
          · next hle => rw [if_pos (hrange.resolve_left hle)]
        rw [parseInt_of_strtol rfl, if_neg (by simp [herrno])] at h
        exact absurd h (by simp)
      · rw [not_or] at hrange
        rw [if_neg hrange.1, if_neg hrange.2] at hstrtol
        rw [parseInt_of_strtol hstrtol] at h
        split at h
        · next hc => exact ⟨spaces, number, after, rfl, hs, ⟨hn, hc.2.1, hc.2.2.1⟩, hc.2.2.2⟩
        · exact absurd h (by simp)
    · rintro ⟨spaces', number', after', heq, hs', hn', ha'⟩
      rw [heq, parseInt_number einval hs' hn' ha']
      rfl
  · have hno := noNumberAhead_of_nil hnil
    have hnum : ¬ NumberAhead t := by
      rintro ⟨spaces, number, after, rfl, hs, hn, ha⟩
      exact hno spaces number after rfl hs hn.number
    rw [parseInt_of_strtol (strtol_nil einval hnil)]
    simp only [hnum, hno, false_or, true_and]
    cases einval <;> cases endsNumber (t.headD nul) <;> simp

end Strtol

section Handled

variable {a : Assignment}

theorem Assignment.tail_ends (a : Assignment) : endsNumber (a.tail.headD nul) = true := by
  obtain ⟨name, opening, value, tail, rest, hname, hd⟩ := a
  cases hd with
  | bare hv hq hr => simp only [endsNumber, hr, Bool.or_true]
  | quoted hq hv => simp only [endsNumber, List.headD_cons, hq, Bool.true_or]

theorem strncmpEq_iff (t w : List Char) : strncmpEq t w w.length = true ↔ w <+: t := by
  rw [strncmpEq, List.take_length, decide_eq_true_eq, List.prefix_iff_eq_take, eq_comm]

theorem endsNumber_of_mem_words : ∀ w ∈ falseWords ++ trueWords, ∀ c ∈ w, endsNumber c = false := by
  have hall : (falseWords ++ trueWords).all (fun w => w.all fun c => !endsNumber c) = true := by decide
  simpa only [List.all_eq_true, Bool.not_eq_true'] using hall

/-- A word does not reach beyond the value. -/
theorem prefix_valueText_iff {w : List Char} (hw : ∀ c ∈ w, endsNumber c = false) :
    w <+: a.valueText ↔ w <+: a.value := by
  refine ⟨?_, fun h => h.trans (List.prefix_append _ _)⟩
  have htail := a.tail_ends
  rw [Assignment.valueText]
  generalize a.value = v
  generalize a.tail = tail at htail
  induction w generalizing v with
  | nil => exact fun _ => List.nil_prefix
  | cons c w ih =>
    cases v with
    | nil =>
      rintro ⟨u, hu⟩
      rw [List.nil_append] at hu
      rw [← hu, List.cons_append, List.headD_cons, hw c List.mem_cons_self] at htail
      exact absurd htail (by decide)
    | cons d v =>
      simp only [List.cons_append, List.cons_prefix_cons]
      exact fun h => ⟨h.1, ih (fun x hx => hw x (List.mem_cons_of_mem _ hx)) _ h.2⟩

theorem any_strncmpEq_iff {words : List (List Char)} (hw : words ⊆ falseWords ++ trueWords) :
    (words.any fun w => strncmpEq a.valueText w w.length) = true ↔ ∃ w ∈ words, w <+: a.value := by
  simp only [List.any_eq_true, strncmpEq_iff]
  constructor <;> rintro ⟨w, hmem, hp⟩
  · exact ⟨w, hmem, (prefix_valueText_iff (endsNumber_of_mem_words w (hw hmem))).mp hp⟩
  · exact ⟨w, hmem, (prefix_valueText_iff (endsNumber_of_mem_words w (hw hmem))).mpr hp⟩

theorem parseBool_isSome_iff :
    (parseBool a.valueText).isSome ↔ ∃ w ∈ falseWords ++ trueWords, w <+: a.value := by
  have hfalse := any_strncmpEq_iff (a := a) (List.subset_append_left falseWords trueWords)
  have htrue := any_strncmpEq_iff (a := a) (List.subset_append_right falseWords trueWords)
  simp only [parseBool, List.mem_append, or_and_right, exists_or, ← hfalse, ← htrue]
  split
  · next h => simp [h]
  · next h => split <;> simp_all

/-- No word for one value starts like a word for the other. -/
theorem not_prefix_of_trueWords : ∀ v ∈ trueWords, ∀ w ∈ falseWords, ¬ w <+: v := by decide

theorem parseBool_of_boolValue {b : Bool} (h : boolValue a.value = some b) :
    parseBool a.valueText = some b := by
  have hfalse := any_strncmpEq_iff (a := a) (List.subset_append_left falseWords trueWords)
  have htrue := any_strncmpEq_iff (a := a) (List.subset_append_right falseWords trueWords)
  rw [boolValue] at h
  split at h
  · next hv =>
    rw [parseBool, if_pos (hfalse.mpr ⟨_, hv, List.prefix_refl _⟩)]
    exact h
  · split at h
    · next hv =>
      rw [parseBool, if_neg, if_pos (htrue.mpr ⟨_, hv, List.prefix_refl _⟩)]
      · exact h
      · intro hany
        obtain ⟨w, hw, hp⟩ := hfalse.mp hany
        exact not_prefix_of_trueWords _ hv w hw hp
    · exact absurd h (by simp)

/-- A value of a flag is taken for what it is. -/
theorem FlagParser.handled_of_exactValue (P : FlagParser) {type : FlagType} {v : FlagValue}
    (h : exactValue type a = some v) : P.handled type a = some v := by
  cases type with
  | bool =>
    obtain ⟨b, hb, rfl⟩ := Option.map_eq_some_iff.mp h
    rw [FlagParser.handled, parseBool_of_boolValue hb]
    rfl
  | int =>
    obtain ⟨n, hn, rfl⟩ := Option.map_eq_some_iff.mp h
    rw [intValue] at hn
    split at hn
    · next hint =>
      have hspaces : ∀ c ∈ ([] : List Char), isSpace c = true :=
        fun _ hc => absurd hc List.not_mem_nil
      have hparse := parseInt_number P.einval hspaces hint a.tail_ends
      rw [List.nil_append] at hparse
      rw [FlagParser.handled, Assignment.valueText, hparse, hn]
      rfl
    · exact absurd hn (by simp)

theorem FlagParser.handled_isSome_iff (P : FlagParser) (type : FlagType) :
    (P.handled type a).isSome ↔ P.Mistaken type a := by
  cases type with
  | bool => rw [FlagParser.handled, Option.isSome_map, parseBool_isSome_iff, FlagParser.Mistaken]
  | int => rw [FlagParser.handled, Option.isSome_map, parseInt_isSome_iff, FlagParser.Mistaken]

end Handled

end ScudoMte.Flags
