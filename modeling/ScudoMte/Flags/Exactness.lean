import ScudoMte.Flags.Values

namespace ScudoMte.Flags

variable {P : FlagParser} {t : List Char} {as : List Assignment} {e : Ending}

/-- An error names a text that is shorter than the string. -/
theorem Splits.invalidFlag_length_lt (hs : Splits t as e)
    {read : FlagType → Assignment → Option FlagValue} {st st' : State} {name : String}
    {x : List Char} (h : P.assignAll read as e st = .error (.invalidFlag name x) st') :
    x.length < t.length := by
  induction hs generalizing st with
  | complete | missingEquals | unterminated =>
    simp [FlagParser.assignAll, Ending.outcome] at h
  | @assign seps a as e _ _ ih =>
    have hrest := a.delimits.rest_suffix.length_le
    have hlen : (seps ++ a.text).length =
        seps.length + a.name.length + 1 + a.opening.length + a.value.length + a.tail.length := by
      simp only [Assignment.text, Assignment.valueText, List.length_append, List.length_cons]
      omega
    rw [FlagParser.assignAll] at h
    split at h
    · split at h
      · have hlt := ih h
        omega
      · simp at h
    · split at h
      · have hlt := ih h
        omega
      · simp only [EStateM.Result.error.injEq, Stop.invalidFlag.injEq] at h
        rw [← h.1.2, Assignment.valueText, List.length_append]
        omega

/-- Two readings of the values differ in what becomes of a string just where the first invalid
value is taken by the handlers. -/
theorem Splits.assignAll_eq_iff (hs : Splits t as e) (st : State) :
    P.assignAll P.handled as e st = P.assignAll exactValue as e st ↔
      ∀ type a, P.firstInvalid as st.unknownFlagsNames.length = some (type, a) →
        ¬ P.Mistaken type a := by
  induction hs generalizing st with
  | complete | missingEquals | unterminated => simp [FlagParser.assignAll, FlagParser.firstInvalid]
  | @assign seps a as e _ hs ih =>
    rw [FlagParser.assignAll, FlagParser.assignAll, FlagParser.firstInvalid]
    cases P.find a.name with
    | none =>
      by_cases hroom : st.unknownFlagsNames.length < maxUnknownFlags
      · simp only [if_pos hroom]
        rw [ih]
        simp only [List.length_append, List.length_singleton]
      · simp [if_neg hroom]
    | some f =>
      obtain ⟨i, type⟩ := f
      simp only
      cases hexact : exactValue type a with
      | some v =>
        simp only [P.handled_of_exactValue hexact, Option.isSome_some, if_true]
        exact ih _
      | none =>
        have hmistaken := P.handled_isSome_iff (a := a) type
        simp only [Option.isSome_none, Bool.false_eq_true, if_false, Option.some.injEq,
          Prod.mk.injEq]
        cases hhandled : P.handled type a with
        | none =>
          simp only [true_iff]
          rintro _ _ ⟨rfl, rfl⟩ hm
          simpa [hhandled] using hmistaken.mpr hm
        | some v =>
          -- the rest of the string cannot report this value
          refine iff_of_false ?_ fun h => h _ _ ⟨rfl, rfl⟩ (hmistaken.mp (by simp [hhandled]))
          intro heq
          have hlt := hs.invalidFlag_length_lt heq
          have hrest := a.delimits.rest_suffix.length_le
          rw [Assignment.valueText, List.length_append] at hlt
          omega

/-- A reading leaves each flag with the last value that the string has for it. -/
theorem assignAll_lastWinsBy {read : FlagType → Assignment → Option FlagValue} {st st' : State}
    (h : P.assignAll read as e st = .ok () st') (i : Nat) :
    st'.vars i = (P.valuesBy read i as).getLast?.getD (st.vars i) := by
  induction as generalizing st with
  | nil =>
    cases e with
    | complete =>
      simp only [FlagParser.assignAll, Ending.outcome, EStateM.Result.ok.injEq, true_and] at h
      rw [← h]
      rfl
    | missingEquals | unterminated => simp [FlagParser.assignAll, Ending.outcome] at h
  | cons a as ih =>
    rw [FlagParser.assignAll] at h
    cases hfind : P.find a.name with
    | none =>
      have hv : P.valueBy read i a = none := by simp [FlagParser.valueBy, hfind]
      simp only [hfind] at h
      rw [FlagParser.valuesBy, List.filterMap_cons_none hv]
      split at h
      · have hlast := ih h
        exact hlast
      · simp at h
    | some f =>
      obtain ⟨j, type⟩ := f
      simp only [hfind] at h
      cases hread : read type a with
      | none => simp [hread] at h
      | some v =>
        simp only [hread] at h
        have hlast : st'.vars i =
          (P.valuesBy read i as).getLast?.getD (Function.update st.vars j v i) := ih h
        by_cases hj : j = i
        · subst hj
          have hv : P.valueBy read j a = some v := by simp [FlagParser.valueBy, hfind, hread]
          rw [hlast, Function.update_self, FlagParser.valuesBy, FlagParser.valuesBy,
            List.filterMap_cons_some hv, List.getLast?_cons, Option.getD_some]
        · have hv : P.valueBy read i a = none := by simp [FlagParser.valueBy, hfind, hj]
          rw [hlast, Function.update_of_ne (Ne.symm hj), FlagParser.valuesBy, FlagParser.valuesBy,
            List.filterMap_cons_none hv]

theorem assignAll_staysInside (read : FlagType → Assignment → Option FlagValue) (st : State) :
    StaysInside (P.assignAll read as e st) := by
  induction as generalizing st with
  | nil => cases e <;> exact ⟨fun _ h => (by cases h), fun _ h => (by cases h)⟩
  | cons a as ih =>
    rw [FlagParser.assignAll]
    split
    · split
      · exact ih _
      · exact ⟨fun _ h => (by cases h), fun _ h => (by cases h)⟩
    · split
      · exact ih _
      · exact ⟨fun _ h => (by cases h), fun _ h => (by cases h)⟩

/-- The parser stays within its string, and does with it exactly what the string says unless the
first value that is none for its flag is one that the handlers take all the same. -/
theorem parseString_parsesExactly_iff (P : FlagParser) (s : CString) (st : State) :
    (∃ as e, Splits s.chars as e) ∧ StaysInside (P.parseString (some s) st) ∧
      ∀ as e, Splits s.chars as e →
        (P.ParsesExactly as e st (P.parseString (some s) st) ↔
          ∀ type a, P.firstInvalid as st.unknownFlagsNames.length = some (type, a) →
            ¬ P.Mistaken type a) := by
  have hrun {as e} (hs : Splits s.chars as e) :
      P.parseString (some s) st = P.assignAll P.handled as e st :=
    parseFlags_eq P hs s.noNul ⟨Nat.zero_le _, rfl⟩ (Nat.lt_succ_self _) st
  obtain ⟨as, e, hs⟩ := splits_exists s.chars s.noNul
  refine ⟨⟨as, e, hs⟩, ?_, ?_⟩
  · rw [hrun hs]
    exact assignAll_staysInside _ _
  · intro as e hs
    rw [← hs.assignAll_eq_iff, hrun hs]
    refine ⟨fun h => h.assigned, fun h => ⟨h, ?_⟩⟩
    intro st' hok i
    rw [h] at hok
    exact assignAll_lastWinsBy hok i

/-- Two flags, `b` and `i`. -/
def twoFlags : FlagParser where
  flags := [⟨['b'], .bool, by decide⟩, ⟨['i'], .int, by decide⟩]
  einval := false

def twoVars : State := ⟨fun i => if i = 0 then .bool true else .int 7, []⟩

/-- `b=no`. -/
def noAssignment : Assignment :=
  ⟨['b'], [], ['n', 'o'], [], [], by simp [isSeparator], .bare (by simp [isSeparator]) rfl rfl⟩

theorem parseString_parsesExactly_no :
    Splits ['b', '=', 'n', 'o'] [noAssignment] .complete ∧
      twoFlags.ParsesExactly [noAssignment] .complete twoVars
        (twoFlags.parseString (some ⟨['b', '=', 'n', 'o'], by decide⟩) twoVars) := by
  have hs : Splits ['b', '=', 'n', 'o'] [noAssignment] .complete :=
    @Splits.assign [] noAssignment _ _ nofun (.complete nofun)
  exact ⟨hs, ((parseString_parsesExactly_iff twoFlags ⟨['b', '=', 'n', 'o'], by decide⟩ twoVars).2.2 _ _
    hs).mpr nofun⟩

/-- `b=nope` and `i=`. -/
def nopeAssignment : Assignment :=
  ⟨['b'], [], ['n', 'o', 'p', 'e'], [' ', 'i', '='], [' ', 'i', '='], by simp [isSeparator],
    .bare (by simp [isSeparator]) rfl rfl⟩

def emptyAssignment : Assignment := ⟨['i'], [], [], [], [], by simp [isSeparator],
  .bare nofun rfl rfl⟩

/-- The value `nope` makes `b` false, and no value at all makes `i` 0. -/
theorem parseString_nope : ∃ s : CString, s.chars = nopeAssignment.text ∧
    Splits s.chars [nopeAssignment, emptyAssignment] .complete ∧
    (∃ st', twoFlags.parseString (some s) twoVars = .ok () st' ∧ st'.vars 0 = .bool false ∧
      st'.vars 1 = .int 0) ∧
    ¬ twoFlags.ParsesExactly [nopeAssignment, emptyAssignment] .complete twoVars
      (twoFlags.parseString (some s) twoVars) := by
  refine ⟨⟨nopeAssignment.text, by decide⟩, rfl, ?_, ⟨_, rfl, rfl, rfl⟩, ?_⟩
  · exact @Splits.assign [] nopeAssignment _ _ nofun
      (@Splits.assign [' '] emptyAssignment _ _ (by simp [isSeparator]) (.complete nofun))
  · intro h
    exact nomatch h.assigned

end ScudoMte.Flags
