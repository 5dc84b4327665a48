import ScudoMte.Flags.Parser

namespace ScudoMte.Flags

/-- A value, what stands in front of it and behind it, and where the parser goes on: bare values
reach up to the next separator, the others up to the matching quote. -/
inductive Delimits : List Char → List Char → List Char → List Char → Prop
  | bare {value rest : List Char} (hv : ∀ c ∈ value, isSeparator c = false)
      (hq : isQuote (value.headD nul) = false)
      (hr : isSeparatorOrNull (rest.headD nul) = true) : Delimits [] value rest rest
  | quoted {quote : Char} {value rest : List Char} (hq : isQuote quote = true)
      (hv : quote ∉ value) : Delimits [quote] value (quote :: rest) rest

structure Assignment where
  name : List Char
  opening : List Char
  value : List Char
  tail : List Char
  rest : List Char
  name_ok : ∀ c ∈ name, c ≠ '=' ∧ isSeparator c = false
  delimits : Delimits opening value tail rest

/-- The string from the value on, which is what a handler gets. -/
def Assignment.valueText (a : Assignment) : List Char := a.value ++ a.tail

/-- The string from the name on. -/
def Assignment.text (a : Assignment) : List Char := a.name ++ '=' :: (a.opening ++ a.valueText)

/-- What a string ends with behind its assignments. -/
inductive Ending
  | complete
  | missingEquals
  | unterminated

/-- The assignments of a string, one after another, with separators around them. -/
inductive Splits : List Char → List Assignment → Ending → Prop
  | complete {seps : List Char} (hs : ∀ c ∈ seps, isSeparator c = true) : Splits seps [] .complete
  | missingEquals {seps name rest : List Char} (hs : ∀ c ∈ seps, isSeparator c = true)
      (hn : ∀ c ∈ name, c ≠ '=' ∧ isSeparator c = false) (hne : name ≠ [])
      (hr : isSeparatorOrNull (rest.headD nul) = true) :
      Splits (seps ++ (name ++ rest)) [] .missingEquals
  | unterminated {seps name value : List Char} {quote : Char}
      (hs : ∀ c ∈ seps, isSeparator c = true)
      (hn : ∀ c ∈ name, c ≠ '=' ∧ isSeparator c = false) (hq : isQuote quote = true)
      (hv : quote ∉ value) :
      Splits (seps ++ (name ++ '=' :: quote :: value)) [] .unterminated
  | assign {seps : List Char} {a : Assignment} {as : List Assignment} {e : Ending}
      (hs : ∀ c ∈ seps, isSeparator c = true) (h : Splits a.rest as e) :
      Splits (seps ++ a.text) (a :: as) e

/-- A flag by its name, with its place among the flags. -/
def findFlag (name : List Char) : List Flag → Nat → Option (Nat × FlagType)
  | [], _ => none
  | f :: flags, i => if f.name = name then some (i, f.type) else findFlag name flags (i+1)

def FlagParser.find (P : FlagParser) (name : List Char) : Option (Nat × FlagType) :=
  findFlag name P.flags 0

def FlagType.typeName : FlagType → String
  | .bool => "bool"
  | .int => "int"

def Ending.outcome (st : State) : Ending → EStateM.Result Stop State Unit
  | .complete => .ok () st
  | .missingEquals => .error (.error "expected '='") st
  | .unterminated => .error (.error "unterminated string") st

/-- The assignments are made in turn, with a reading of the values, up to the first value that the
flag named does not take. -/
def FlagParser.assignAll (P : FlagParser) (read : FlagType → Assignment → Option FlagValue) :
    List Assignment → Ending → State → EStateM.Result Stop State Unit
  | [], e, st => e.outcome st
  | a :: as, e, st =>
      match P.find a.name with
      | none =>
          if st.unknownFlagsNames.length < maxUnknownFlags then
            P.assignAll read as e { st with unknownFlagsNames := st.unknownFlagsNames ++ [a.text] }
          else .error .checkFailed st
      | some (i, type) =>
          match read type a with
          | some v => P.assignAll read as e { st with vars := Function.update st.vars i v }
          | none => .error (.invalidFlag type.typeName a.valueText) st

/-- The reading of the values in `runHandler`. -/
def FlagParser.handled (P : FlagParser) (type : FlagType) (a : Assignment) : Option FlagValue :=
  match type with
  | .bool => (parseBool a.valueText).map .bool
  | .int => (parseInt P.einval a.valueText).map .int

theorem Delimits.rest_suffix {opening value tail rest : List Char}
    (h : Delimits opening value tail rest) : rest <:+ tail := by
  cases h with
  | bare => exact List.suffix_refl _
  | quoted => exact List.suffix_cons _ _

theorem headD_dropWhile {p : Char → Bool} (t : List Char) (hp : p nul = false) :
    p ((t.dropWhile p).headD nul) = false := by
  cases h : t.dropWhile p with
  | nil => exact hp
  | cons c u =>
    have hc := List.head_dropWhile_not (p := p) (l := t) (by simp [h])
    simpa [h] using hc

/-- The longest run of characters with a property. -/
theorem exists_run {p : Char → Bool} (t : List Char) (hp : p nul = false) :
    ∃ a b, t = a ++ b ∧ (∀ c ∈ a, p c = true) ∧ p (b.headD nul) = false :=
  ⟨t.takeWhile p, t.dropWhile p, List.takeWhile_append_dropWhile.symm,
    fun _ hc => List.mem_takeWhile_imp hc, headD_dropWhile t hp⟩

theorem exists_cons_of_headD {p : Char → Bool} {t : List Char} (hp : p nul = false)
    (h : p (t.headD nul) = true) : ∃ c u, t = c :: u ∧ p c = true := by
  cases t with
  | nil => exact absurd h (by simp [hp])
  | cons c u => exact ⟨c, u, rfl, h⟩

/-- Behind the equality sign there is a value, unless its quote is not matched. -/
theorem exists_delimits (v : List Char) (hnul : nul ∉ v) :
    (∃ opening value tail rest, v = opening ++ (value ++ tail) ∧ Delimits opening value tail rest) ∨
      ∃ quote value, v = quote :: value ∧ isQuote quote = true ∧ quote ∉ value := by
  by_cases hquote : isQuote (v.headD nul) = true
  · obtain ⟨quote, x, rfl, hq⟩ := exists_cons_of_headD (by decide) hquote
    obtain ⟨value, y, rfl, hvalue, hy⟩ := exists_run (p := fun c => c ≠ quote && c ≠ nul) x (by simp)
    have hv : quote ∉ value := by
      intro hmem
      simpa using hvalue quote hmem
    cases y with
    | nil => exact .inr ⟨quote, value, by simp, hq, hv⟩
    | cons d z =>
      have hd : d ≠ nul := by
        rintro rfl
        simp at hnul
      obtain rfl : d = quote := by simpa [hd] using hy
      exact .inl ⟨[d], value, d :: z, z, rfl, .quoted hq hv⟩
  · obtain ⟨value, y, rfl, hvalue, hy⟩ := exists_run (p := fun c => !isSeparatorOrNull c) v (by decide)
    refine .inl ⟨[], value, y, y, rfl, .bare ?_ ?_ (by simpa using hy)⟩
    · intro c hc
      have hsep := hvalue c hc
      simp only [isSeparatorOrNull, Bool.not_eq_true', Bool.or_eq_false_iff] at hsep
      exact hsep.2
    · cases value with
      | nil => decide
      | cons c u => simpa using hquote

/-- Every string is split in one way or another. -/
theorem splits_exists (t : List Char) (hnul : nul ∉ t) : ∃ as e, Splits t as e := by
  induction hn : t.length using Nat.strong_induction_on generalizing t with
  | h n ih =>
  obtain ⟨seps, u, rfl, hseps, hu⟩ := exists_run (p := isSeparator) t (by decide)
  obtain ⟨name, w, rfl, hname, hw⟩ :=
    exists_run (p := fun c => c ≠ '=' && !isSeparatorOrNull c) u (by decide)
  have hname' : ∀ c ∈ name, c ≠ '=' ∧ isSeparator c = false := by
    intro c hc
    have hin := hname c hc
    simp only [isSeparatorOrNull, ne_eq, Bool.and_eq_true, decide_eq_true_eq, Bool.not_eq_true',
      Bool.or_eq_false_iff] at hin
    exact ⟨hin.1, hin.2.2⟩
  simp only [List.mem_append, not_or] at hnul
  cases w with
  | nil =>
    cases name with
    | nil => exact ⟨[], .complete, by simpa using .complete hseps⟩
    | cons c u => exact ⟨[], .missingEquals, .missingEquals hseps hname' (by simp) rfl⟩
  | cons d v =>
    by_cases heq : d = '='
    · subst heq
      rcases exists_delimits v (fun h => hnul.2.2 (List.mem_cons_of_mem _ h)) with
        ⟨opening, value, tail, rest, rfl, hd⟩ | ⟨quote, value, rfl, hq, hv⟩
      · have hsuffix := hd.rest_suffix
        obtain ⟨as, e, hrest⟩ := ih rest.length
          (by
            have hle := hsuffix.length_le
            rw [← hn]
            simp only [List.length_append, List.length_cons]
            omega) rest
          (fun h => hnul.2.2 (by simp [hsuffix.mem h])) rfl
        exact ⟨_, e, .assign (a := ⟨name, opening, value, tail, rest, hname', hd⟩) hseps hrest⟩
      · exact ⟨[], .unterminated, .unterminated hseps hname' hq hv⟩
    · have hsep : isSeparatorOrNull d = true := by simpa [heq] using hw
      refine ⟨[], .missingEquals, .missingEquals hseps hname' ?_ hsep⟩
      rintro rfl
      have hnul' : d ≠ nul := by
        rintro rfl
        simp at hnul
      simp only [List.nil_append, List.headD_cons] at hu
      simp [isSeparatorOrNull, hnul', hu] at hsep

end ScudoMte.Flags
