import ScudoMte.Flags.Exactness

namespace ScudoMte.Flags

/-- `UnknownFlags.report`: the names it prints, after which the registry is empty. -/
def reportUnrecognizedFlags : Parse (List (List Char)) := do
  let st ← get
  set { st with unknownFlagsNames := [] }
  pure st.unknownFlagsNames

/-- The calls of `parseString` in `initFlags`, one string after another. -/
def FlagParser.parseStrings (P : FlagParser) : List (Option CString) → Parse Unit
  | [] => pure ()
  | s :: ss => do
      P.parseString s
      P.parseStrings ss

/-- A string made of well-formed assignments. -/
structure OptionString extends CString where
  assignments : List Assignment
  splits : Splits chars assignments .complete

/-- The assignments of several strings, some of which may be the null pointer. -/
def assignmentsOf (ss : List (Option OptionString)) : List Assignment :=
  ss.flatMap fun s => s.elim [] OptionString.assignments

/-- The unknown flags among assignments. -/
def FlagParser.unknown (P : FlagParser) (as : List Assignment) : List Assignment :=
  as.filter fun a => (P.find a.name).isNone

/-- The name at the start of a text. -/
def nameOf (text : List Char) : List Char := text.takeWhile (· ≠ '=')

/-- The values for a flag are those its handler takes. -/
def FlagParser.Takes (P : FlagParser) (as : List Assignment) : Prop :=
  ∀ a ∈ as, ∀ i type, P.find a.name = some (i, type) → (P.handled type a).isSome

/-- What becomes of assignments where unknown flags are not fatal: each flag has the last value that
there is for it, the registry is within its array, and the report lists the unknown names. -/
structure FlagParser.Tolerates (P : FlagParser) (as : List Assignment) (st st' : State) : Prop where
  lastWins : ∀ i, st'.vars i = (P.valuesBy P.handled i as).getLast?.getD (st.vars i)
  inside : st'.unknownFlagsNames.length ≤ maxUnknownFlags
  reported : ∃ lines, reportUnrecognizedFlags st' = .ok lines { st' with unknownFlagsNames := [] } ∧
    lines.map nameOf = st.unknownFlagsNames.map nameOf ++ (P.unknown as).map Assignment.name

variable {P : FlagParser} {as : List Assignment}

theorem assignAll_append (read : FlagType → Assignment → Option FlagValue) (as bs : List Assignment)
    (st : State) :
    P.assignAll read (as ++ bs) .complete st =
      match P.assignAll read as .complete st with
      | .ok () st' => P.assignAll read bs .complete st'
      | .error stop st' => .error stop st' := by
  induction as generalizing st with
  | nil => rfl
  | cons a as ih =>
    simp only [List.cons_append, FlagParser.assignAll]
    cases P.find a.name with
    | none =>
      by_cases hroom : st.unknownFlagsNames.length < maxUnknownFlags
      · simp only [if_pos hroom, ih]
      · simp only [if_neg hroom]
    | some f =>
      obtain ⟨i, type⟩ := f
      simp only
      cases read type a with
      | some v => exact ih _
      | none => rfl

/-- Strings that come one after another are parsed as one list of assignments. -/
theorem parseStrings_eq (P : FlagParser) (ss : List (Option OptionString)) (st : State) :
    P.parseStrings (ss.map (Option.map OptionString.toCString)) st =
      P.assignAll P.handled (assignmentsOf ss) .complete st := by
  induction ss generalizing st with
  | nil => rfl
  | cons s ss ih =>
    cases s with
    | none => exact ih st
    | some s =>
      have hrun : P.parseString (some s.toCString) st =
          P.assignAll P.handled s.assignments .complete st :=
        parseFlags_eq P s.splits s.noNul ⟨Nat.zero_le _, rfl⟩ (Nat.lt_succ_self _) st
      have hof : assignmentsOf (some s :: ss) = s.assignments ++ assignmentsOf ss := rfl
      rw [hof, assignAll_append, ← hrun, List.map_cons, FlagParser.parseStrings]
      simp only [bind, EStateM.bind, Option.map_some]
      cases P.parseString (some s.toCString) st with
      | ok u st' => exact ih st'
      | error stop st' => rfl

/-- The registry has room for the names it gets in any case. -/
theorem assignAll_registry_le (read : FlagType → Assignment → Option FlagValue)
    {st st' : State} (h : st.unknownFlagsNames.length ≤ maxUnknownFlags)
    (hr : P.assignAll read as .complete st = .ok () st' ∨
      ∃ stop, P.assignAll read as .complete st = .error stop st') :
    st'.unknownFlagsNames.length ≤ maxUnknownFlags := by
  induction as generalizing st with
  | nil =>
    rcases hr with hr | ⟨stop, hr⟩
    · simp only [FlagParser.assignAll, Ending.outcome, EStateM.Result.ok.injEq, true_and] at hr
      rwa [← hr]
    · simp [FlagParser.assignAll, Ending.outcome] at hr
  | cons a as ih =>
    simp only [FlagParser.assignAll] at hr
    split at hr
    · split at hr
      next hroom =>
        refine ih ?_ hr
        rw [List.length_append]
        exact hroom
      next =>
        rcases hr with hr | ⟨stop, hr⟩
        · simp at hr
        · simp only [EStateM.Result.error.injEq] at hr
          rwa [← hr.2]
    · split at hr
      next i _ _ _ v _ =>
        have hroom : ({ st with vars := Function.update st.vars i v } : State).unknownFlagsNames.length ≤
          maxUnknownFlags := h
        exact ih hroom hr
      next =>
        rcases hr with hr | ⟨stop, hr⟩
        · simp at hr
        · simp only [EStateM.Result.error.injEq] at hr
          rwa [← hr.2]

/-- Where the parser comes to the end, the registry has got the unknown flags. -/
theorem assignAll_unknown {read : FlagType → Assignment → Option FlagValue} {st st' : State}
    (h : P.assignAll read as .complete st = .ok () st') :
    st'.unknownFlagsNames = st.unknownFlagsNames ++ (P.unknown as).map Assignment.text := by
  induction as generalizing st with
  | nil =>
    simp only [FlagParser.assignAll, Ending.outcome, EStateM.Result.ok.injEq, true_and] at h
    rw [← h]
    exact (List.append_nil _).symm
  | cons a as ih =>
    rw [FlagParser.assignAll] at h
    cases hfind : P.find a.name with
    | none =>
      simp only [hfind] at h
      split at h
      · have hunknown : P.unknown (a :: as) = a :: P.unknown as :=
          List.filter_cons_of_pos (by simp [hfind])
        rw [ih h, hunknown, List.map_cons, List.append_assoc, List.singleton_append]
      · simp at h
    | some f =>
      have hunknown : P.unknown (a :: as) = P.unknown as :=
        List.filter_cons_of_neg (by simp [hfind])
      simp only [hfind] at h
      split at h
      · rw [ih h, hunknown]
      · simp at h

/-- The parser comes to the end just where the values are good and the registry has room. -/
theorem assignAll_completes_iff (st : State)
    (h : st.unknownFlagsNames.length ≤ maxUnknownFlags) :
    (∃ st', P.assignAll P.handled as .complete st = .ok () st') ↔
      P.Takes as ∧ st.unknownFlagsNames.length + (P.unknown as).length ≤ maxUnknownFlags := by
  induction as generalizing st with
  | nil => simpa [FlagParser.assignAll, Ending.outcome, FlagParser.Takes, FlagParser.unknown] using h
  | cons a as ih =>
    have htakes : P.Takes (a :: as) ↔
        (∀ i type, P.find a.name = some (i, type) → (P.handled type a).isSome) ∧ P.Takes as :=
      List.forall_mem_cons
    rw [FlagParser.assignAll, htakes]
    cases hfind : P.find a.name with
    | none =>
      have hunknown : (P.unknown (a :: as)).length = (P.unknown as).length + 1 := by
        rw [FlagParser.unknown, List.filter_cons_of_pos (by simp [hfind]), List.length_cons]
        rfl
      by_cases hroom : st.unknownFlagsNames.length < maxUnknownFlags
      · simp only [if_pos hroom]
        have hgrown : (st.unknownFlagsNames ++ [a.text]).length ≤ maxUnknownFlags := by
          rw [List.length_append]
          exact hroom
        rw [ih _ hgrown, hunknown]
        simp only [List.length_append, List.length_singleton, reduceCtorEq, false_implies,
          implies_true, true_and, and_congr_right_iff]
        omega
      · refine iff_of_false ?_ ?_
        · simp [if_neg hroom]
        · intro hr
          have hle := hr.2
          omega
    | some f =>
      obtain ⟨i, type⟩ := f
      have hunknown : P.unknown (a :: as) = P.unknown as :=
        List.filter_cons_of_neg (by simp [hfind])
      simp only [hunknown]
      cases hread : P.handled type a with
      | some v =>
        have hrest := ih { st with vars := Function.update st.vars i v } h
        simp only [Option.some.injEq, Prod.mk.injEq]
        rw [hrest]
        have hgood : ∀ j type', i = j ∧ type = type' → (P.handled type' a).isSome = true := by
          intro j type' heq
          rw [← heq.2, hread]
          rfl
        exact ⟨fun hr => ⟨⟨hgood, hr.1⟩, hr.2⟩, fun hr => ⟨hr.1.2, hr.2⟩⟩
      | none =>
        refine iff_of_false (by simp) ?_
        intro hr
        simpa [hread] using hr.1.1 i type rfl

theorem nameOf_text (a : Assignment) : nameOf a.text = a.name := by
  rw [nameOf, Assignment.text, List.takeWhile_append_of_pos, List.takeWhile_cons_of_neg (by simp),
    List.append_nil]
  intro c hc
  simpa using (a.name_ok c hc).1

/-- Unknown flags are tolerated just where no value is bad, and the registry, which keeps the unknown
flags of all strings until the report, has room for them. -/
theorem parseStrings_tolerates_iff (P : FlagParser) (ss : List (Option OptionString)) (st : State) :
    (∃ st', P.parseStrings (ss.map (Option.map OptionString.toCString)) st = .ok () st' ∧
      P.Tolerates (assignmentsOf ss) st st') ↔
      P.Takes (assignmentsOf ss) ∧
        st.unknownFlagsNames.length + (P.unknown (assignmentsOf ss)).length ≤ maxUnknownFlags := by
  rw [parseStrings_eq]
  constructor
  · intro ⟨st', hrun, htol⟩
    have hnames := assignAll_unknown hrun
    have hinside := htol.inside
    rw [hnames, List.length_append, List.length_map] at hinside
    exact (assignAll_completes_iff st (by omega)).mp ⟨st', hrun⟩
  · intro hcond
    obtain ⟨st', hrun⟩ := (assignAll_completes_iff st (by omega)).mpr hcond
    have hnames := assignAll_unknown hrun
    refine ⟨st', hrun, assignAll_lastWinsBy hrun, ?_, _, rfl, ?_⟩
    · rw [hnames, List.length_append, List.length_map]
      exact hcond.2
    · rw [hnames, List.map_append, List.map_map]
      simp only [Function.comp_def, nameOf_text]

/-- The assignment `u=` again and again. -/
def unknownText : Nat → List Char
  | 0 => []
  | n+1 => ' ' :: 'u' :: '=' :: unknownText n

def unknownAssignment (n : Nat) : Assignment :=
  ⟨['u'], [], [], unknownText n, unknownText n, by simp [isSeparator],
    .bare nofun rfl (by cases n <;> rfl)⟩

def unknownAssignments : Nat → List Assignment
  | 0 => []
  | n+1 => unknownAssignment n :: unknownAssignments n

theorem unknownText_splits (n : Nat) : Splits (unknownText n) (unknownAssignments n) .complete := by
  induction n with
  | zero => exact .complete nofun
  | succ n ih =>
    exact @Splits.assign [' '] (unknownAssignment n) _ _ (by simp [isSeparator]) ih

theorem unknownText_noNul (n : Nat) : nul ∉ unknownText n := by
  induction n with
  | zero => exact List.not_mem_nil
  | succ n ih =>
    simp only [unknownText, List.mem_cons, not_or]
    exact ⟨by decide, by decide, by decide, ih⟩

def seventeenUnknown : OptionString :=
  ⟨⟨unknownText 17, unknownText_noNul 17⟩, unknownAssignments 17, unknownText_splits 17⟩

/-- Seventeen unknown flags and nothing else stop the parser. -/
theorem parseStrings_seventeen :
    (twoFlags.unknown seventeenUnknown.assignments).length = 17 ∧
      ∃ st', twoFlags.parseStrings [some seventeenUnknown.toCString] twoVars =
        .error .checkFailed st' := by
  refine ⟨rfl, ⟨twoVars.vars, ((unknownAssignments 17).take 16).map Assignment.text⟩, ?_⟩
  exact (parseStrings_eq twoFlags [some seventeenUnknown] twoVars).trans rfl

end ScudoMte.Flags
