import ScudoMte.Strings.Format

namespace ScudoMte.Strings

/-- The digits of a number, least significant one first; 0 has one digit. -/
def digitsOf (base n : Nat) : List Nat := if n = 0 then [0] else Nat.digits base n

/-- The digits of a number as text. -/
def numeral (base : Nat) (upper : Bool) (n : Nat) : List Char :=
  (digitsOf base n).reverse.map fun d =>
    if upper then (Nat.digitChar d).toUpper else Nat.digitChar d

/-- The text for a number under a minimum width and, for `zero`, the flag `0`: the sign counts towards
the width, and stands behind padding with spaces and in front of padding with zeros. -/
def printf (zero : Bool) (width : Nat) (negative : Bool) (digits : List Char) : List Char :=
  let sign := if negative then ['-'] else []
  let pad := width - (sign.length + digits.length)
  if zero then sign ++ List.replicate pad '0' ++ digits
  else List.replicate pad ' ' ++ sign ++ digits

/-- The value of a character that is a digit. -/
def digitValue (c : Char) : Option Nat :=
  if '0' ≤ c ∧ c ≤ '9' then some (c.toNat - 48)
  else if 'a' ≤ c ∧ c ≤ 'f' then some (c.toNat - 87)
  else if 'A' ≤ c ∧ c ≤ 'F' then some (c.toNat - 55)
  else none

/-- The value of the digits in a text. -/
def readDigits (base : Nat) (text : List Char) : Nat :=
  (text.filterMap digitValue).foldl (fun n d => base * n + d) 0

/-- The value of a text that may have a sign. -/
def readSigned (text : List Char) : Int :=
  if '-' ∈ text then -readDigits 10 text else readDigits 10 text

theorem digitsOf_ne_nil (base n : Nat) : digitsOf base n ≠ [] := by
  rw [digitsOf]
  split
  · exact List.cons_ne_nil _ _
  · next hn => exact Nat.digits_ne_nil_iff_ne_zero.mpr hn

theorem digitsOf_step {base n : Nat} (hb : 1 < base) :
    digitsOf base n = n % base :: if n / base > 0 then digitsOf base (n / base) else [] := by
  by_cases hn : n = 0
  · simp [digitsOf, hn]
  · rw [digitsOf, if_neg hn, Nat.digits_def' hb (Nat.pos_of_ne_zero hn), digitsOf]
    by_cases hq : n / base = 0
    · simp [hq]
    · rw [if_pos (Nat.pos_of_ne_zero hq), if_neg hq]

/-- The loop finds the digits, as long as they fit the buffer. -/
theorem digitsLoop_eq {base : Nat} (hb : 1 < base) {room n : Nat} (hn : n < base^room) (hroom : 0 < room)
    (out : List Char) : digitsLoop base room n out = .ok (digitsOf base n) out := by
  induction room generalizing n with
  | zero => exact absurd hroom (Nat.lt_irrefl 0)
  | succ room ih =>
    rw [digitsOf_step hb, digitsLoop]
    by_cases hq : n / base > 0
    · have hlt : n / base < base^room := by
        rw [Nat.div_lt_iff_lt_mul (by omega), ← Nat.pow_succ]
        exact hn
      have hpos : 0 < room := by
        by_contra h0
        rw [Nat.eq_zero_of_not_pos h0, Nat.pow_zero] at hlt
        omega
      simp only [if_pos hq, bind, EStateM.bind, ih hlt hpos]
      rfl
    · simp only [if_neg hq]
      rfl

theorem digitsOf_lt {base n d : Nat} (hb : 1 < base) (hd : d ∈ digitsOf base n) : d < base := by
  rw [digitsOf] at hd
  split at hd
  · rw [List.mem_singleton.mp hd]
    omega
  · exact Nat.digits_lt_base hb hd

/-- The most significant digit of a number other than 0 is not 0. -/
theorem digitsOf_reverse {base n : Nat} (hn : n ≠ 0) :
    ∃ d ds, (digitsOf base n).reverse = d :: ds ∧ d ≠ 0 := by
  have hne : Nat.digits base n ≠ [] := Nat.digits_ne_nil_iff_ne_zero.mpr hn
  have hlast := Nat.getLast_digit_ne_zero base hn
  rw [digitsOf, if_neg hn]
  have hrev : (Nat.digits base n).reverse ≠ [] := by simpa using hne
  refine ⟨_, _, (List.cons_head_tail hrev).symm, ?_⟩
  rwa [List.head_reverse]

theorem digitOf_eq {d : Nat} (hd : d < 16) (upper : Bool) :
    digitOf upper d = if upper then (Nat.digitChar d).toUpper else Nat.digitChar d := by
  revert upper
  have hall : ∀ d < 16, ∀ upper : Bool,
      digitOf upper d = if upper then (Nat.digitChar d).toUpper else Nat.digitChar d := by decide
  exact hall d hd

theorem pushBack_run (c : Char) (out : List Char) : pushBack c out = .ok () (out ++ [c]) := rfl

theorem pushIf_run (b : Bool) (c : Char) (out : List Char) :
    pushIf b c out = .ok () (out ++ if b then [c] else []) := by
  cases b with
  | false => exact congrArg (EStateM.Result.ok ()) (List.append_nil out).symm
  | true => rfl

/-- Leading zeros become padding, up to the last digit. -/
theorem pushLeading_replicate (padWithZero : Bool) (k : Nat) {ds : List Nat} (hds : ds ≠ [])
    (out : List Char) : pushLeading padWithZero (List.replicate k 0 ++ ds) out =
      pushLeading padWithZero ds (out ++ List.replicate k (if padWithZero then '0' else ' ')) := by
  induction k generalizing out with
  | zero => simp
  | succ k ih =>
    have hne : (List.replicate k 0 ++ ds).isEmpty = false := by simp [hds]
    rw [List.replicate_succ, List.cons_append, pushLeading, if_pos rfl, hne, Bool.or_false]
    simp only [bind, EStateM.bind, pushBack_run, ih, List.append_assoc, List.replicate_succ,
      List.singleton_append]

theorem pushDigits_eq (upper : Bool) (ds : List Nat) (out : List Char) :
    pushDigits upper ds out = .ok () (out ++ ds.map (digitOf upper)) := by
  induction ds generalizing out with
  | nil => simp [pushDigits, pure, EStateM.pure]
  | cons d ds ih =>
    simp only [pushDigits, bind, EStateM.bind, pushBack_run, ih, List.map_cons, List.append_assoc,
      List.singleton_append]

theorem rawCheck_run {b : Bool} (hb : b = true) (out : List Char) : rawCheck b out = .ok () out := by
  rw [rawCheck, hb]
  rfl

theorem map_digitOf {base : Nat} (hb : 1 < base) (h16 : base ≤ 16) (upper : Bool) (n : Nat) :
    (digitsOf base n).reverse.map (digitOf upper) = numeral base upper n := by
  refine List.map_congr_left fun d hd => digitOf_eq ?_ upper
  have hlt := digitsOf_lt hb (List.mem_reverse.mp hd)
  omega

/-- What is printed of the buffer: padding, the sign where it goes behind spaces, and the digits. -/
theorem pushNumber_eq {base n : Nat} (hb : 1 < base) (h16 : base ≤ 16) (k : Nat)
    (padWithZero negative upper : Bool) (hneg : n ≠ 0 ∨ negative = false) (out : List Char) :
    (do
      let rest ← pushLeading padWithZero (digitsOf base n ++ List.replicate k 0).reverse
      pushIf (negative && !padWithZero) '-'
      pushDigits upper rest : Format Unit) out =
    .ok () (out ++ List.replicate k (if padWithZero then '0' else ' ') ++
      (if negative && !padWithZero then ['-'] else []) ++ numeral base upper n) := by
  have hne : (digitsOf base n).reverse ≠ [] := by simpa using digitsOf_ne_nil base n
  have hlead := pushLeading_replicate padWithZero k hne out
  rw [← map_digitOf hb h16, List.reverse_append, List.reverse_replicate]
  by_cases hn : n = 0
  · obtain rfl : negative = false := hneg.resolve_left (not_not_intro hn)
    have hzero : (digitsOf base n).reverse = [0] := by simp [digitsOf, hn]
    have hlast (out : List Char) : pushLeading padWithZero [0] out = .ok [] (out ++ ['0']) := by
      simp [pushLeading, bind, EStateM.bind, pushBack_run, pure, EStateM.pure]
    rw [hzero] at hlead ⊢
    rw [bind_ok (hlead.trans (hlast _)), bind_ok (pushIf_run _ _ _), pushDigits_eq]
    cases upper <;> simp [digitOf]
  · obtain ⟨d, ds, hrev, hd⟩ := @digitsOf_reverse base n hn
    have hstop (out : List Char) : pushLeading padWithZero (d :: ds) out = .ok (d :: ds) out := by
      rw [pushLeading, if_neg hd]
      rfl
    rw [hrev] at hlead ⊢
    rw [bind_ok (hlead.trans (hstop _)), bind_ok (pushIf_run _ _ _), pushDigits_eq]

/-- The buffer is filled up with zeros to the minimum length. -/
theorem numBuffer_eq (digits : List Nat) (m : Nat) :
    (if digits.length < m then digits ++ List.replicate (m - digits.length) 0 else digits) =
      digits ++ List.replicate (m - digits.length) 0 := by
  split
  · rfl
  · rw [Nat.sub_eq_zero_of_le (by omega), List.replicate_zero, List.append_nil]

/-- `appendNumber` pushes what `printf` writes. -/
theorem appendNumber_eq {n base width : Nat} {negative : Bool} (hn : n < 2^64)
    (hb : base = 10 ∨ base = 16) (hneg : negative = true → base = 10 ∧ n ≠ 0) (hw : width < maxLen)
    (padWithZero upper : Bool) (out : List Char) :
    appendNumber n base width padWithZero negative upper out =
      .ok () (out ++ printf padWithZero width negative (numeral base upper n)) := by
  have hb1 : 1 < base ∧ base ≤ 16 := by omega
  have hfit : n < base^maxLen := by
    have hpow : 10^maxLen ≤ base^maxLen := Nat.pow_le_pow_left (by omega) _
    have h10 : 2^64 ≤ 10^maxLen := by decide
    omega
  have hlen : (numeral base upper n).length = (digitsOf base n).length := by
    rw [numeral, List.length_map, List.length_reverse]
  have hcheck1 : (base = 10 || base = 16 : Bool) = true := by simpa using hb
  have hcheck2 : (base = 10 || !negative : Bool) = true := by
    cases negative <;> simp [hneg]
  have hcheck3 : (n ≠ 0 || !negative : Bool) = true := by
    cases negative <;> simp [hneg]
  have hcheck4 (m : Nat) : (!(digitsOf base n ++ List.replicate m 0).isEmpty) = true := by
    simp [digitsOf_ne_nil]
  have hsign : n ≠ 0 ∨ negative = false := by
    cases negative with
    | false => exact .inr rfl
    | true => exact .inl (hneg rfl).2
  rw [appendNumber, bind_ok (rawCheck_run hcheck1 _), bind_ok (rawCheck_run hcheck2 _),
    bind_ok (rawCheck_run hcheck3 _), bind_ok (rawCheck_run (decide_eq_true hw) _),
    bind_ok (pushIf_run _ _ _), bind_ok (digitsLoop_eq hb1.1 hfit (by decide) _), numBuffer_eq,
    bind_ok (rawCheck_run (hcheck4 _) _), pushNumber_eq hb1.1 hb1.2 _ _ _ _ hsign]
  refine congrArg (EStateM.Result.ok ()) ?_
  cases negative with
  | false => cases padWithZero <;> simp [printf, hlen]
  | true =>
    -- the sign takes one place of the width
    have hmin : (if (true && decide (width ≠ 0)) = true then width - 1 else width) -
        (digitsOf base n).length = width - (1 + (digitsOf base n).length) := by
      split
      · omega
      · next hzero =>
        simp only [Bool.true_and, decide_eq_true_eq, ne_eq, not_not] at hzero
        omega
    cases padWithZero <;> simp only [printf, hmin] <;> simp [hlen]

theorem foldl_digits (base n : Nat) :
    (digitsOf base n).reverse.foldl (fun n d => base * n + d) 0 = n := by
  have hfold (l : List Nat) : l.foldr (fun d n => base * n + d) 0 = Nat.ofDigits base l := by
    induction l with
    | nil => rfl
    | cons d l ih =>
      rw [List.foldr_cons, ih, Nat.ofDigits_cons]
      exact Nat.add_comm _ _
  rw [List.foldl_reverse, hfold, digitsOf]
  split
  · next hn => simp [hn]
  · exact Nat.ofDigits_digits base n

/-- The characters of a numeral are its digits. -/
theorem filterMap_numeral {base : Nat} (hb : 1 < base) (h16 : base ≤ 16) (upper : Bool) (n : Nat) :
    (numeral base upper n).filterMap digitValue = (digitsOf base n).reverse := by
  have hvalue : ∀ d < 16, ∀ upper : Bool,
      digitValue (if upper then (Nat.digitChar d).toUpper else Nat.digitChar d) = some d := by decide
  rw [numeral, List.filterMap_map]
  have hsome : ∀ d ∈ (digitsOf base n).reverse, (digitValue ∘ fun d =>
      if upper then (Nat.digitChar d).toUpper else Nat.digitChar d) d = some d := by
    intro d hd
    have hlt := digitsOf_lt hb (List.mem_reverse.mp hd)
    exact hvalue d (by omega) upper
  rw [List.filterMap_congr hsome, List.filterMap_some]

theorem sign_notMem_numeral {base : Nat} (hb : 1 < base) (h16 : base ≤ 16) (upper : Bool) (n : Nat) :
    '-' ∉ numeral base upper n := by
  have hne : ∀ d < 16, ∀ upper : Bool,
      (if upper then (Nat.digitChar d).toUpper else Nat.digitChar d) ≠ '-' := by decide
  intro hmem
  obtain ⟨d, hd, heq⟩ := List.mem_map.mp hmem
  have hlt := digitsOf_lt hb (List.mem_reverse.mp hd)
  exact hne d (by omega) upper heq

/-- Neither padding nor the sign changes what a text reads as. -/
theorem readDigits_printf {base : Nat} (hb : 1 < base) (h16 : base ≤ 16) (zero : Bool) (width : Nat)
    (negative upper : Bool) (n : Nat) :
    readDigits base (printf zero width negative (numeral base upper n)) = n := by
  have hzeros (k : Nat) (l : List Nat) : (List.replicate k 0 ++ l).foldl (fun n d => base * n + d) 0 =
      l.foldl (fun n d => base * n + d) 0 := by
    induction k with
    | zero => rfl
    | succ k ih => simpa [List.replicate_succ] using ih
  have hsign : (if negative then ['-'] else []).filterMap digitValue = [] := by
    cases negative <;> rfl
  have hzero : digitValue '0' = some 0 := rfl
  have hspace : digitValue ' ' = none := rfl
  rw [readDigits, printf]
  cases zero with
  | true =>
    simp only [if_true, List.filterMap_append, hsign, List.nil_append, filterMap_numeral hb h16,
      List.filterMap_replicate_of_some hzero, hzeros, foldl_digits]
  | false =>
    simp only [Bool.false_eq_true, if_false, List.filterMap_append, hsign, List.append_nil,
      filterMap_numeral hb h16, List.filterMap_replicate_of_none hspace, List.nil_append, foldl_digits]

theorem sign_mem_printf {base : Nat} (hb : 1 < base) (h16 : base ≤ 16) (zero : Bool) (width : Nat)
    (negative upper : Bool) (n : Nat) :
    '-' ∈ printf zero width negative (numeral base upper n) ↔ negative = true := by
  have hnum := sign_notMem_numeral hb h16 upper n
  have hzero : '-' ≠ '0' := by decide
  have hspace : '-' ≠ ' ' := by decide
  rw [printf]
  cases zero <;> cases negative <;> simp [hnum, hzero, hspace, List.mem_replicate]

theorem appendUnsigned_eq {n base width : Nat} (hn : n < 2^64) (hb : base = 10 ∨ base = 16)
    (hw : width < maxLen) (padWithZero upper : Bool) (out : List Char) :
    appendUnsigned n base width padWithZero upper out =
      .ok () (out ++ printf padWithZero width false (numeral base upper n)) :=
  @appendNumber_eq n base width false hn hb (by simp) hw padWithZero upper out

theorem appendSignedDecimal_eq {num : Int} {width : Nat} (hlo : -2^63 ≤ num) (hhi : num < 2^63)
    (hw : width < maxLen) (padWithZero : Bool) (out : List Char) :
    appendSignedDecimal num width padWithZero out =
      .ok () (out ++ printf padWithZero width (num < 0) (numeral 10 false num.natAbs)) := by
  have habs : (if num = -2^63 then 2^63 - 1 + 1
      else (if (num < 0 : Bool) then -num else num).toNat) = num.natAbs := by
    split
    · omega
    · split <;> simp_all <;> omega
  rw [appendSignedDecimal, habs]
  refine appendNumber_eq (by omega) (.inl rfl) ?_ hw padWithZero false out
  intro hneg
  have hlt : num < 0 := of_decide_eq_true hneg
  exact ⟨rfl, by omega⟩

/-- Numbers are appended as `printf` writes them, and read back as what they are. -/
theorem appendNumber_printf {width : Nat} (hw : width < maxLen) (padWithZero upper : Bool)
    (out : List Char) :
    (∀ n base negative, n < 2^64 → base = 10 ∨ base = 16 → (negative = true → base = 10 ∧ n ≠ 0) →
      ∃ text, text = printf padWithZero width negative (numeral base upper n) ∧
        appendNumber n base width padWithZero negative upper out = .ok () (out ++ text) ∧
        readDigits base text = n) ∧
    (∀ n base, n < 2^64 → base = 10 ∨ base = 16 →
      ∃ text, text = printf padWithZero width false (numeral base upper n) ∧
        appendUnsigned n base width padWithZero upper out = .ok () (out ++ text) ∧
        readDigits base text = n) ∧
    ∀ num : Int, -2^63 ≤ num → num < 2^63 →
      ∃ text, text = printf padWithZero width (num < 0) (numeral 10 false num.natAbs) ∧
        appendSignedDecimal num width padWithZero out = .ok () (out ++ text) ∧
        readSigned text = num := by
  refine ⟨?_, ?_, ?_⟩
  · intro n base negative hn hb hneg
    exact ⟨_, rfl, appendNumber_eq hn hb hneg hw padWithZero upper out,
      readDigits_printf (by omega) (by omega) _ _ _ _ _⟩
  · intro n base hn hb
    exact ⟨_, rfl, appendUnsigned_eq hn hb hw padWithZero upper out,
      readDigits_printf (by omega) (by omega) _ _ _ _ _⟩
  · intro num hlo hhi
    refine ⟨_, rfl, appendSignedDecimal_eq hlo hhi hw padWithZero out, ?_⟩
    have hlt : 1 < 10 := by decide
    have hle : 10 ≤ 16 := by decide
    simp only [readSigned, sign_mem_printf hlt hle, decide_eq_true_eq, readDigits_printf hlt hle]
    split <;> omega

/-- The least value under the flag `0` and a width of 25. -/
theorem appendNumber_printf_min : ∃ text, text.length = 25 ∧
    appendSignedDecimal (-2^63) 25 true [] = .ok () text ∧ readSigned text = -2^63 := by
  have hw : 25 < maxLen := by decide
  obtain ⟨text, htext, hrun, hread⟩ :=
    (appendNumber_printf hw true false []).2.2 (-2^63) (by decide) (by decide)
  exact ⟨text, by rw [htext]; rfl, hrun, hread⟩

end ScudoMte.Strings
