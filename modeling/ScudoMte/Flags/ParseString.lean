import ScudoMte.Flags.Grammar

namespace ScudoMte.Flags

/-- The rest of the buffer from a position on. -/
structure At (buf : List Char) (pos : Nat) (t : List Char) : Prop where
  le : pos ≤ buf.length
  drop : buf.drop pos = t

section Positions

variable {buf t : List Char} {pos : Nat}

theorem At.length (h : At buf pos t) : pos + t.length = buf.length := by
  have hle := h.le
  rw [← h.drop, List.length_drop]
  omega

theorem At.advance {a b : List Char} (h : At buf pos (a ++ b)) : At buf (pos + a.length) b := by
  have hlen := h.length
  rw [List.length_append] at hlen
  refine ⟨by omega, ?_⟩
  rw [← List.drop_drop, h.drop, List.drop_left]

theorem At.next {c : Char} {b : List Char} (h : At buf pos (c :: b)) : At buf (pos + 1) b :=
  At.advance (a := [c]) h

theorem charAt_at (h : At buf pos t) : charAt buf pos = pure (t.headD nul) := by
  have hget : buf[pos]? = t.head? := by rw [← h.drop, List.head?_drop]
  have hlen := h.length
  rw [charAt, hget]
  cases t with
  | nil => simp [show pos = buf.length by simpa using hlen]
  | cons c u => rfl

theorem stringAt_at (h : At buf pos t) : stringAt buf pos = pure t := by
  rw [stringAt, if_pos h.le, h.drop]

/-- A loop passes over the characters with its property. -/
theorem advanceWhile_at {p : Char → Bool} {a b : List Char} (h : At buf pos (a ++ b))
    (ha : ∀ c ∈ a, p c = true) (hb : p (b.headD nul) = false) {fuel : Nat} (hf : a.length < fuel) :
    advanceWhile buf p fuel pos = pure (pos + a.length) := by
  induction a generalizing pos fuel with
  | nil =>
    cases fuel with
    | zero => exact absurd hf (Nat.not_lt_zero _)
    | succ fuel =>
      rw [advanceWhile, charAt_at h]
      simp only [List.nil_append, pure_bind, hb, Bool.false_eq_true, if_false, List.length_nil,
        Nat.add_zero]
  | cons c a ih =>
    cases fuel with
    | zero => exact absurd hf (Nat.not_lt_zero _)
    | succ fuel =>
      have hlen : a.length < fuel := by simpa using hf
      rw [advanceWhile, charAt_at h]
      simp only [List.cons_append, List.headD_cons, pure_bind, ha c List.mem_cons_self, if_true]
      rw [ih h.next (fun d hd => ha d (List.mem_cons_of_mem _ hd)) hlen]
      simp only [List.length_cons]
      congr 1
      omega

theorem At.length_lt {a b : List Char} (h : At buf pos (a ++ b)) : a.length < buf.length + 1 := by
  have hlen := h.length
  rw [List.length_append] at hlen
  omega

theorem At.mem (h : At buf pos t) {c : Char} (hc : c ∈ t) : c ∈ buf := by
  rw [← h.drop] at hc
  exact List.mem_of_mem_drop hc

end Positions

/-- A text of a name and `=` starts with another name and `=` only where the names are the same. -/
theorem take_eq_iff {w name rest : List Char} (hw : '=' ∉ w) (hn : '=' ∉ name) :
    ((name ++ '=' :: rest).take w.length = w ∧ (name ++ '=' :: rest)[w.length]?.getD nul = '=') ↔
      w = name := by
  induction w generalizing name with
  | nil =>
    cases name with
    | nil => simp
    | cons c name =>
      have hc : c ≠ '=' := by
        rintro rfl
        simp at hn
      simp [hc]
  | cons d w ih =>
    simp only [List.mem_cons, not_or] at hw
    cases name with
    | nil => simp [hw.1]
    | cons c name =>
      simp only [List.mem_cons, not_or] at hn
      have ih' := ih hw.2 hn.2
      simp only [List.cons_append, List.length_cons, List.take_succ_cons, List.cons.injEq,
        List.getElem?_cons_succ, and_assoc, ih']
      exact ⟨fun ⟨h1, h2⟩ => ⟨h1.symm, h2⟩, fun ⟨h1, h2⟩ => ⟨h1.symm, h2⟩⟩

theorem Assignment.noEquals (a : Assignment) : '=' ∉ a.name := fun h => (a.name_ok _ h).1 rfl

theorem addUnknownFlag_run (name : List Char) (st : State) :
    addUnknownFlag name st =
      if st.unknownFlagsNames.length < maxUnknownFlags then
        .ok () { st with unknownFlagsNames := st.unknownFlagsNames ++ [name] }
      else .error .checkFailed st := by
  simp only [addUnknownFlag, bind, EStateM.bind, get, getThe, MonadStateOf.get, EStateM.get]
  by_cases hlen : st.unknownFlagsNames.length < maxUnknownFlags
  · rw [if_pos hlen, if_pos hlen]
    rfl
  · rw [if_neg hlen, if_neg hlen]
    rfl

/-- The handler of an assignment: of the flag with its name, or that of unknown flags. -/
theorem runHandlerFrom_eq (P : FlagParser) (a : Assignment) (flags : List Flag) (i : Nat)
    (st : State) :
    P.runHandlerFrom a.text a.valueText '=' flags i st =
      match findFlag a.name flags i with
      | none =>
          if st.unknownFlagsNames.length < maxUnknownFlags then
            .ok true { st with unknownFlagsNames := st.unknownFlagsNames ++ [a.text] }
          else .error .checkFailed st
      | some (j, type) =>
          match P.handled type a with
          | some v => .ok true { st with vars := Function.update st.vars j v }
          | none => .error (.invalidFlag type.typeName a.valueText) st := by
  induction flags generalizing i with
  | nil =>
    simp only [FlagParser.runHandlerFrom, findFlag, bind, EStateM.bind, addUnknownFlag_run]
    by_cases hlen : st.unknownFlagsNames.length < maxUnknownFlags
    · rw [if_pos hlen, if_pos hlen]
      rfl
    · rw [if_neg hlen, if_neg hlen]
  | cons f flags ih =>
    have hmatch : (strncmpEq a.text f.name f.name.length = true ∧
        a.text[f.name.length]?.getD nul = '=') ↔ f.name = a.name := by
      rw [← @take_eq_iff _ _ (a.opening ++ a.valueText) f.noEquals a.noEquals, strncmpEq,
        List.take_length, decide_eq_true_eq, Assignment.text]
    by_cases hname : f.name = a.name
    · obtain ⟨hcmp, hsep⟩ := hmatch.mpr hname
      rw [FlagParser.runHandlerFrom, if_neg (by simp [hcmp, hsep]), findFlag, if_pos hname]
      cases htype : f.type with
      | bool =>
        simp only [FlagParser.handled]
        cases parseBool a.valueText <;> rfl
      | int =>
        simp only [FlagParser.handled]
        cases parseInt P.einval a.valueText <;> rfl
    · rw [FlagParser.runHandlerFrom, if_pos, ih, findFlag, if_neg hname]
      by_contra hno
      simp only [Bool.or_eq_true, Bool.not_eq_true', decide_eq_true_eq, not_or, ne_eq,
        not_not, Bool.not_eq_false] at hno
      exact hname (hmatch.mp hno)

section Parser

variable {buf : List Char} {pos : Nat}

theorem isSeparatorOrNull_false {c : Char} (hsep : isSeparator c = false) (hnul : c ≠ nul) :
    isSeparatorOrNull c = false := by
  simp [isSeparatorOrNull, hsep, hnul]

/-- The loop over the name stops where the name does. -/
theorem advanceWhile_name {name b : List Char} (hnul : nul ∉ buf) (h : At buf pos (name ++ b))
    (hn : ∀ c ∈ name, c ≠ '=' ∧ isSeparator c = false)
    (hb : b.headD nul = '=' ∨ isSeparatorOrNull (b.headD nul) = true) :
    advanceWhile buf (fun c => c ≠ '=' && !isSeparatorOrNull c) (buf.length + 1) pos =
      pure (pos + name.length) := by
  refine advanceWhile_at h ?_ ?_ h.length_lt
  · intro c hc
    have hne : c ≠ nul := fun heq => hnul (heq ▸ h.mem (List.mem_append_left _ hc))
    simp [(hn c hc).1, isSeparatorOrNull_false (hn c hc).2 hne]
  · rcases hb with hb | hb <;> simp only [hb] <;> simp

/-- The loop over a quoted value stops where the value does. -/
theorem advanceWhile_quoted {value b : List Char} {quote : Char} (hnul : nul ∉ buf)
    (h : At buf pos (value ++ b)) (hv : quote ∉ value)
    (hb : b.headD nul = nul ∨ b.headD nul = quote) :
    advanceWhile buf (fun c => c ≠ nul && c ≠ quote) (buf.length + 1) pos =
      pure (pos + value.length) := by
  refine advanceWhile_at h ?_ ?_ h.length_lt
  · intro c hc
    have hne : c ≠ nul := fun heq => hnul (heq ▸ h.mem (List.mem_append_left _ hc))
    have hq : c ≠ quote := fun heq => hv (heq ▸ hc)
    simp [hne, hq]
  · rcases hb with hb | hb <;> simp only [hb] <;> simp

theorem isQuote_of_isSeparatorOrNull {c : Char} (h : isSeparatorOrNull c = true) :
    isQuote c = false := by
  simp only [isSeparatorOrNull, isSeparator, Bool.or_eq_true, decide_eq_true_eq] at h
  rcases h with rfl | ((((rfl | rfl) | rfl) | rfl) | rfl) | rfl <;> decide

theorem isQuote_ne_nul {c : Char} (h : isQuote c = true) : c ≠ nul := by
  rintro rfl
  exact absurd h (by decide)

/-- What the parser does with the texts from a name and from its value on. -/
def FlagParser.handle (P : FlagParser) (text valueText : List Char) : Parse Unit := do
  if !(← P.runHandler text valueText '=') then throw (.error "flag parsing failed.")

/-- The parser hands an assignment to the handlers and goes on behind its value. -/
theorem parseFlag_delimits (P : FlagParser) {name opening value tail rest : List Char}
    (hnul : nul ∉ buf) (h : At buf pos (name ++ '=' :: (opening ++ (value ++ tail))))
    (hname : ∀ c ∈ name, c ≠ '=' ∧ isSeparator c = false) (hd : Delimits opening value tail rest) :
    ∃ next, At buf next rest ∧ P.parseFlag buf pos =
      (P.handle (name ++ '=' :: (opening ++ (value ++ tail))) (value ++ tail) >>= fun _ =>
        pure next) := by
  have hloop := advanceWhile_name hnul h hname (.inl rfl)
  have heq := h.advance
  cases hd with
  | bare hv hq hr =>
    have hvalue : At buf (pos + name.length + 1) (value ++ tail) := heq.next
    have hquote : isQuote ((value ++ tail).headD nul) = false := by
      cases value with
      | nil => exact isQuote_of_isSeparatorOrNull hr
      | cons c u => exact hq
    have hwhile : advanceWhile buf (fun c => !isSeparatorOrNull c) (buf.length + 1)
        (pos + name.length + 1) = pure (pos + name.length + 1 + value.length) := by
      refine advanceWhile_at hvalue ?_ (by rw [hr]; rfl) hvalue.length_lt
      intro c hc
      have hne : c ≠ nul := fun heq => hnul (heq ▸ hvalue.mem (List.mem_append_left _ hc))
      simp [isSeparatorOrNull_false (hv c hc) hne]
    refine ⟨_, hvalue.advance, ?_⟩
    simp only [FlagParser.parseFlag, hloop, pure_bind, charAt_at heq, charAt_at hvalue,
      List.nil_append, hquote, hwhile, stringAt_at h, stringAt_at hvalue, List.headD_cons, ne_eq,
      not_true_eq_false, if_false, Bool.false_eq_true, FlagParser.handle, bind_assoc]
    congr 1
    funext b
    cases b <;> rfl
  | @quoted quote _ _ hq hv =>
    have hvalue : At buf (pos + name.length + 1) (quote :: (value ++ quote :: rest)) := heq.next
    have hbody := hvalue.next
    have hwhile := advanceWhile_quoted hnul hbody hv (.inr rfl)
    have hclose := hbody.advance
    refine ⟨_, hclose.next, ?_⟩
    simp only [FlagParser.parseFlag, hloop, pure_bind, charAt_at heq, charAt_at hvalue,
      List.headD_cons, hq, hwhile, stringAt_at h, stringAt_at hbody, List.singleton_append,
      charAt_at hclose, ne_eq, not_true_eq_false, if_false, if_true, isQuote_ne_nul hq,
      FlagParser.handle, bind_assoc]
    congr 1
    funext b
    cases b <;> rfl

theorem handle_run (P : FlagParser) (a : Assignment) (st : State) :
    P.handle a.text a.valueText st =
      match P.find a.name with
      | none =>
          if st.unknownFlagsNames.length < maxUnknownFlags then
            .ok () { st with unknownFlagsNames := st.unknownFlagsNames ++ [a.text] }
          else .error .checkFailed st
      | some (i, type) =>
          match P.handled type a with
          | some v => .ok () { st with vars := Function.update st.vars i v }
          | none => .error (.invalidFlag type.typeName a.valueText) st := by
  have hrun := runHandlerFrom_eq P a P.flags 0 st
  simp only [FlagParser.handle, FlagParser.runHandler, bind, EStateM.bind, hrun, FlagParser.find]
  cases findFlag a.name P.flags 0 with
  | none =>
    by_cases hlen : st.unknownFlagsNames.length < maxUnknownFlags
    · simp only [if_pos hlen]
      rfl
    · simp only [if_neg hlen]
  | some f =>
    obtain ⟨i, type⟩ := f
    simp only
    cases P.handled type a <;> rfl

theorem skipWhitespace_at {seps u : List Char} (h : At buf pos (seps ++ u))
    (hs : ∀ c ∈ seps, isSeparator c = true) (hu : isSeparator (u.headD nul) = false) :
    skipWhitespace buf pos = pure (pos + seps.length) := advanceWhile_at h hs hu h.length_lt

/-- A name, or `=` after an empty one, is neither a separator nor the terminator. -/
theorem head_name {name rest : List Char} (hnul : nul ∉ buf) (h : At buf pos (name ++ rest))
    (hn : ∀ c ∈ name, c ≠ '=' ∧ isSeparator c = false) (hne : name = [] → rest.headD nul = '=') :
    isSeparator ((name ++ rest).headD nul) = false ∧ (name ++ rest).headD nul ≠ nul := by
  cases name with
  | nil =>
    rw [List.nil_append, hne rfl]
    decide
  | cons c u =>
    exact ⟨(hn c List.mem_cons_self).2, fun heq => hnul (heq ▸ h.mem List.mem_cons_self)⟩

/-- The parser makes the assignments of a string, and stops where the string goes wrong. -/
theorem parseFlags_eq (P : FlagParser) {t : List Char} {as : List Assignment} {e : Ending}
    (hs : Splits t as e) (hnul : nul ∉ buf) (h : At buf pos t) {fuel : Nat} (hf : t.length < fuel)
    (st : State) : P.parseFlags buf fuel pos st = P.assignAll P.handled as e st := by
  induction hs generalizing pos fuel st with
  | @complete seps hs =>
    obtain ⟨fuel, rfl⟩ := Nat.exists_eq_succ_of_ne_zero (show fuel ≠ 0 by omega)
    rw [← List.append_nil seps] at h
    rw [FlagParser.parseFlags, skipWhitespace_at h hs rfl, pure_bind, charAt_at h.advance]
    rfl
  | @missingEquals seps name rest hs hn hne hr =>
    obtain ⟨fuel, rfl⟩ := Nat.exists_eq_succ_of_ne_zero (show fuel ≠ 0 by omega)
    obtain ⟨hhead, hend⟩ := head_name hnul h.advance hn (absurd · hne)
    have heq : rest.headD nul ≠ '=' := by
      intro heq
      rw [heq] at hr
      exact absurd hr (by decide)
    rw [FlagParser.parseFlags, skipWhitespace_at h hs hhead, pure_bind, charAt_at h.advance, pure_bind,
      if_neg hend, FlagParser.parseFlag, advanceWhile_name hnul h.advance hn (.inr hr), pure_bind,
      charAt_at h.advance.advance, pure_bind, if_pos heq]
    rfl
  | @unterminated seps name value quote hs hn hq hv =>
    obtain ⟨fuel, rfl⟩ := Nat.exists_eq_succ_of_ne_zero (show fuel ≠ 0 by omega)
    obtain ⟨hhead, hend⟩ := head_name hnul h.advance hn (fun _ => rfl)
    have hbody := h.advance.advance.next.next
    rw [← List.append_nil value] at hbody
    rw [FlagParser.parseFlags, skipWhitespace_at h hs hhead, pure_bind, charAt_at h.advance, pure_bind,
      if_neg hend, FlagParser.parseFlag, advanceWhile_name hnul h.advance hn (.inl rfl), pure_bind,
      charAt_at h.advance.advance, pure_bind]
    simp only [List.headD_cons, ne_eq, not_true_eq_false, if_false, charAt_at h.advance.advance.next,
      pure_bind, hq, if_true, advanceWhile_quoted hnul hbody hv (.inl rfl),
      charAt_at hbody.advance]
    rfl
  | @assign seps a as e hs _ ih =>
    obtain ⟨fuel, rfl⟩ := Nat.exists_eq_succ_of_ne_zero (show fuel ≠ 0 by omega)
    obtain ⟨hhead, hend⟩ : isSeparator (a.text.headD nul) = false ∧ a.text.headD nul ≠ nul :=
      head_name hnul h.advance a.name_ok (fun _ => rfl)
    obtain ⟨next, hnext, hparse⟩ : ∃ next, At buf next a.rest ∧
        P.parseFlag buf (pos + seps.length) = (P.handle a.text a.valueText >>= fun _ => pure next) :=
      parseFlag_delimits P hnul h.advance a.name_ok a.delimits
    have hlen : a.rest.length < fuel := by
      have hle := a.delimits.rest_suffix.length_le
      simp only [Assignment.text, Assignment.valueText, List.length_append, List.length_cons] at hf
      omega
    rw [FlagParser.parseFlags, skipWhitespace_at h hs hhead, pure_bind, charAt_at h.advance, pure_bind,
      if_neg hend, hparse, bind_assoc]
    simp only [pure_bind]
    simp only [bind, EStateM.bind, handle_run, FlagParser.assignAll]
    cases P.find a.name with
    | none =>
      by_cases hroom : st.unknownFlagsNames.length < maxUnknownFlags
      · simp only [if_pos hroom]
        exact ih hnext hlen _
      · simp only [if_neg hroom]
    | some f =>
      obtain ⟨i, type⟩ := f
      simp only
      cases P.handled type a with
      | none => rfl
      | some v => exact ih hnext hlen _

end Parser

end ScudoMte.Flags
