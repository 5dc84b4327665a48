import ScudoMte.Strings.ScopedString

namespace ScudoMte.Strings

variable {M : MapCalls} {v : VectorNoCtor}

structure VectorNoCtor.Ok (v : VectorNoCtor) : Prop where
  size_le : v.size ≤ v.capacity
  capacity_ge : 256 ≤ v.capacity
  capacity_lt : v.capacity < 2^63

@[simp] theorem chars_length (v : VectorNoCtor) : v.chars.length = v.size := by
  simp [VectorNoCtor.chars]

theorem roundUpPowerOfTwo_bounds {x k : Nat} (h0 : 0 < x) (hx : x ≤ 2^k)
    (hk : isPowerOfTwo (2^k) = true) :
    x ≤ roundUpPowerOfTwo x ∧ roundUpPowerOfTwo x ≤ 2^k := by
  rw [roundUpPowerOfTwo]
  split
  · exact ⟨Nat.le_refl _, hx⟩
  · next hpow =>
    have hne : x ≠ 2^k := by
      intro heq
      rw [heq] at hpow
      exact hpow hk
    have hlt := Nat.lt_log2_self (n := x)
    have hlog : Nat.log2 x < k := (Nat.log2_lt (by omega)).mpr (by omega)
    rw [Nat.one_shiftLeft, getMostSignificantSetBitIndex]
    exact ⟨Nat.le_of_lt hlt, Nat.pow_le_pow_right (by decide) hlog⟩

/-- Whether or not the vector grows, it keeps its elements. -/
theorem reallocate_spec (hv : v.Ok) {newCapacity : Nat} (hlo : v.size ≤ newCapacity)
    (hlo' : 256 ≤ newCapacity) (hhi : newCapacity ≤ 2^63) :
    ∃ grown v', reallocate M newCapacity v = .ok grown v' ∧ v'.Ok ∧ v'.size = v.size ∧
      v'.chars = v.chars ∧ (grown = true → newCapacity ≤ v'.capacity) ∧
      (grown = false → v'.capacity = v.capacity ∧
        M.succeeds v.mapCalls (roundUp newCapacity (2^M.pageLog)) = false) := by
  have hpage : 2^M.pageLog ≤ 2^32 := Nat.pow_le_pow_right (by decide) M.pageLog_le
  have hround := roundUp_spec newCapacity M.pageLog (by have := M.pageLog_le; omega) (by omega)
  rw [reallocate]
  by_cases hs : M.succeeds v.mapCalls (roundUp newCapacity (2^M.pageLog)) = true
  · have hlt := M.bounded _ _ hs
    simp only [hs, Bool.not_true, Bool.false_eq_true, if_false]
    rw [if_neg (by omega)]
    refine ⟨true, _, rfl, ⟨?_, ?_, hlt⟩, rfl, ?_, fun _ => hround.1, nofun⟩
    · exact hlo.trans hround.1
    · exact hlo'.trans hround.1
    · refine List.map_congr_left fun i hi => ?_
      exact if_pos (List.mem_range.mp hi)
  · rw [Bool.not_eq_true] at hs
    simp only [hs, Bool.not_false, if_true]
    exact ⟨false, _, rfl, ⟨hv.size_le, hv.capacity_ge, hv.capacity_lt⟩, rfl, rfl, nofun,
      fun _ => ⟨rfl, trivial⟩⟩

theorem chars_push (v : VectorNoCtor) (c : Char) :
    ({ v with data := Function.update v.data v.size c, size := v.size + 1 } : VectorNoCtor).chars =
      v.chars ++ [c] := by
  simp only [VectorNoCtor.chars, List.range_succ, List.map_append, List.map_singleton,
    Function.update_self]
  congr 1
  refine List.map_congr_left fun i hi => ?_
  have hlt := List.mem_range.mp hi
  rw [Function.update_of_ne (by omega)]

/-- A character is appended, or dropped by a full vector that does not grow. -/
theorem push_back_spec (hv : v.Ok) (c : Char) : ∃ v', push_back M c v = .ok () v' ∧ v'.Ok ∧
    (v'.chars = v.chars ++ [c] ∨ v'.chars = v.chars ∧ 256 ≤ v'.size ∧
      M.succeeds v.mapCalls (roundUp (roundUpPowerOfTwo (v.size+1)) (2^M.pageLog)) = false) := by
  have hwrite {v : VectorNoCtor} (hv : v.Ok) (hlt : v.size < v.capacity) : ∃ v',
      (do
        writeAt v.size c
        setSize (v.size + 1) : Vec Unit) v = .ok () v' ∧ v'.Ok ∧ v'.chars = v.chars ++ [c] := by
    refine ⟨{ v with data := Function.update v.data v.size c, size := v.size + 1 }, ?_,
      ⟨hlt, hv.capacity_ge, hv.capacity_lt⟩, chars_push v c⟩
    have hrun : writeAt v.size c v = .ok () { v with data := Function.update v.data v.size c } :=
      if_pos hlt
    rw [bind_ok hrun]
    rfl
  by_cases hfull : v.size = v.capacity
  · have hge := hv.capacity_ge
    have hlt := hv.capacity_lt
    obtain ⟨hlo, hhi⟩ := @roundUpPowerOfTwo_bounds (v.size+1) 63 (by omega) (by omega)
      (by decide +kernel)
    obtain ⟨grown, v1, hrun, hv1, hsize, hchars, hgrown, hsame⟩ :=
      @reallocate_spec M v hv (roundUpPowerOfTwo (v.size+1)) (by omega) (by omega) hhi
    have hpush : push_back M c v = (if grown then do
        writeAt v.size c
        setSize (v.size+1) else pure ()) v1 := by
      rw [push_back, get_bind, if_pos hfull, bind_ok hrun]
    rw [hpush]
    cases grown with
    | true =>
      have hroom := hgrown rfl
      obtain ⟨v', hrun', hv', hchars'⟩ := hwrite hv1 (by omega)
      rw [hsize] at hrun'
      exact ⟨v', hrun', hv', .inl (by rw [hchars', hchars])⟩
    | false => exact ⟨v1, rfl, hv1, .inr ⟨hchars, by omega, (hsame rfl).2⟩⟩
  · have hle := hv.size_le
    obtain ⟨v', hrun', hv', hchars'⟩ := hwrite hv (by omega)
    refine ⟨v', ?_, hv', .inl hchars'⟩
    rw [← hrun', push_back, get_bind, if_neg hfull, pure_bind]
    rfl

/-- Characters are appended up to some that are dropped. -/
theorem pushAll_spec (hv : v.Ok) (cs : List Char) : ∃ v' ds, pushAll M cs v = .ok () v' ∧ v'.Ok ∧
    ds.Sublist cs ∧ v'.chars = v.chars ++ ds := by
  induction cs generalizing v with
  | nil => exact ⟨v, [], rfl, hv, .refl _, (List.append_nil _).symm⟩
  | cons c cs ih =>
    obtain ⟨v1, hrun1, hv1, hchars1⟩ := @push_back_spec M v hv c
    obtain ⟨v2, ds, hrun2, hv2, hsub, hchars2⟩ := ih hv1
    have hrun : pushAll M (c :: cs) v = .ok () v2 := by
      rw [pushAll, bind_ok hrun1, hrun2]
    rcases hchars1 with hchars1 | ⟨hchars1, -, -⟩
    · refine ⟨v2, c :: ds, hrun, hv2, hsub.cons_cons c, ?_⟩
      rw [hchars2, hchars1, List.append_assoc, List.singleton_append]
    · exact ⟨v2, ds, hrun, hv2, hsub.cons c, by rw [hchars2, hchars1]⟩

/-- A string that holds a text: its elements are the text and the terminator. -/
structure VectorNoCtor.Holds (v : VectorNoCtor) (text : List Char) : Prop where
  ok : v.Ok
  chars : v.chars = text ++ [terminator]

theorem VectorNoCtor.Holds.size {text : List Char} (h : v.Holds text) : v.size = text.length + 1 := by
  rw [← chars_length, h.chars, List.length_append, List.length_singleton]

theorem VectorNoCtor.Ok.wrapSub_size (hv : v.Ok) (h0 : 0 < v.size) : wrapSub v.size 1 = v.size - 1 := by
  have hle := hv.size_le
  have hlt := hv.capacity_lt
  exact wrapSub_of_le h0 (by omega)

theorem chars_eq_append {text : List Char} {c : Char} (h : v.chars = text ++ [c]) :
    v.size = text.length + 1 ∧ (List.range text.length).map v.data = text ∧
      v.data text.length = c := by
  have hsize : v.size = text.length + 1 := by
    rw [← chars_length, h, List.length_append, List.length_singleton]
  rw [VectorNoCtor.chars, hsize, List.range_succ, List.map_append, List.map_singleton] at h
  obtain ⟨hinit, hc⟩ := List.append_inj' h rfl
  exact ⟨hsize, hinit, List.singleton_inj.mp hc⟩

/-- The size of a string that shrinks by its terminator. -/
theorem resize_spec {text : List Char} (h : v.Holds text) : ∃ v',
    resize M (wrapSub v.size 1) v = .ok () v' ∧ v'.Ok ∧ v'.chars = text := by
  have hsize := h.size
  rw [h.ok.wrapSub_size (by omega)]
  refine ⟨{ v with size := v.size - 1 }, ?_, ?_, ?_⟩
  · rw [resize, get_bind, if_neg (by omega)]
    rfl
  · exact ⟨(Nat.sub_le _ _).trans h.ok.size_le, h.ok.capacity_ge, h.ok.capacity_lt⟩
  · rw [VectorNoCtor.chars, hsize, Nat.add_sub_cancel]
    exact (chars_eq_append h.chars).2.1

theorem back_spec (hv : v.Ok) {n : Nat} (hsize : v.size = n + 1) : back v = .ok (v.data n) v := by
  have hw : wrapSub v.size 1 = n := by
    rw [hv.wrapSub_size (by omega), hsize, Nat.add_sub_cancel]
  rw [back, get_bind, hw, readAt, if_pos (by omega)]

theorem setBack_spec (hv : v.Ok) {n : Nat} (hsize : v.size = n + 1) (c : Char) :
    setBack c v = .ok () { v with data := Function.update v.data n c } := by
  have hle := hv.size_le
  have hw : wrapSub v.size 1 = n := by
    rw [hv.wrapSub_size (by omega), hsize, Nat.add_sub_cancel]
  rw [setBack, get_bind, hw, writeAt, if_pos (by omega)]

/-- The last element is read and, where it is no terminator, overwritten. -/
theorem terminate_spec (hv : v.Ok) {text : List Char} {c : Char} (hchars : v.chars = text ++ [c]) :
    ∃ v', (do if (← back) ≠ terminator then setBack terminator : Vec Unit) v = .ok () v' ∧
      v'.Holds text := by
  obtain ⟨hsize, hinit, hc⟩ := chars_eq_append hchars
  have hback := back_spec hv hsize
  rw [hc] at hback
  rw [bind_ok hback]
  by_cases hc0 : c = terminator
  · rw [if_neg (not_not_intro hc0)]
    exact ⟨v, rfl, hv, by rw [hchars, hc0]⟩
  · rw [if_pos hc0, setBack_spec hv hsize]
    refine ⟨_, rfl, ⟨hv.size_le, hv.capacity_ge, hv.capacity_lt⟩, ?_⟩
    have hkept : (List.range text.length).map (Function.update v.data text.length terminator) =
        text := by
      refine (List.map_congr_left fun i hi => ?_).trans hinit
      have hlt := List.mem_range.mp hi
      rw [Function.update_of_ne (by omega)]
    simp only [VectorNoCtor.chars, hsize, List.range_succ, List.map_append, List.map_singleton,
      Function.update_self, hkept]

/-- One append: the string holds the text and some of the new characters, or formatting stopped. -/
theorem vappend_spec {text : List Char} (h : v.Holds text) (format : List Char) (args : List Arg) :
    match formatFrom 0 args format [] with
    | .ok () new => ∃ v' text', vappend M format args v = .ok () v' ∧ v'.Holds text' ∧
        text'.Sublist (text ++ new)
    | .error stop _ => ∃ v', vappend M format args v = .error (.stopped stop) v' := by
  obtain ⟨v1, hrun1, hv1, hchars1⟩ := @resize_spec M v text h
  cases hformat : formatFrom 0 args format [] with
  | error stop new =>
    obtain ⟨v2, ds, hrun2, -, -, -⟩ := @pushAll_spec M v1 hv1 new
    refine ⟨v2, ?_⟩
    have htext : pushText M (.error stop new) v1 = .error (.stopped stop) v2 := bind_ok hrun2
    rw [vappend, get_bind, bind_ok hrun1, hformat, bind_error htext]
  | ok u new =>
    obtain ⟨v2, ds, hrun2, hv2, hsub, hchars2⟩ := @pushAll_spec M v1 hv1 new
    obtain ⟨v3, hrun3, hv3, hchars3⟩ := @push_back_spec M v2 hv2 terminator
    have hkept : (text ++ ds).Sublist (text ++ new) := hsub.append_left text
    have hrun : vappend M format args v =
        (do if (← back) ≠ terminator then setBack terminator : Vec Unit) v3 := by
      rw [vappend, get_bind, bind_ok hrun1, hformat, pushText, bind_ok hrun2, bind_ok hrun3]
    simp only [hrun]
    rw [hchars1] at hchars2
    rcases hchars3 with hchars3 | ⟨hchars3, hfull, -⟩
    · rw [hchars2] at hchars3
      obtain ⟨v', hend, hholds⟩ := terminate_spec hv3 hchars3
      exact ⟨v', _, hend, hholds, hkept⟩
    · -- the terminator takes the place of the last character
      rw [hchars2] at hchars3
      have hne : text ++ ds ≠ [] := by
        intro hnil
        rw [← chars_length, hchars3, hnil] at hfull
        exact absurd hfull (by decide)
      obtain ⟨init, c, hlast⟩ := (List.eq_nil_or_concat' _).resolve_left hne
      rw [hlast] at hchars3
      obtain ⟨v', hend, hholds⟩ := terminate_spec hv3 hchars3
      refine ⟨v', _, hend, hholds, ?_⟩
      exact (hlast ▸ List.sublist_append_left init [c]).trans hkept

/-- All appends: they end where formatting stops, if it does, and otherwise the string holds some of
the characters of the text that unlimited memory would have taken, in order. -/
theorem appendAll_spec {text : List Char} (h : v.Holds text)
    (appends : List (List Char × List Arg)) :
    (∃ stop v', (unlimited appends).2 = some stop ∧ appendAll M appends v = .error (.stopped stop) v') ∨
      ∃ v' text', (unlimited appends).2 = none ∧ appendAll M appends v = .ok () v' ∧ v'.Holds text' ∧
        text'.Sublist (text ++ (unlimited appends).1) := by
  induction appends generalizing v text with
  | nil =>
    refine .inr ⟨v, text, rfl, rfl, h, ?_⟩
    rw [unlimited, List.append_nil]
  | cons append appends ih =>
    obtain ⟨format, args⟩ := append
    have hone := @vappend_spec M v text h format args
    rw [unlimited, appendAll]
    cases hformat : formatFrom 0 args format [] with
    | error stop new =>
      rw [hformat] at hone
      obtain ⟨v', hrun⟩ := hone
      exact .inl ⟨stop, v', rfl, bind_error hrun⟩
    | ok u new =>
      rw [hformat] at hone
      obtain ⟨v1, text1, hrun, h1, hsub⟩ := hone
      rcases ih h1 with ⟨stop, v', hstop, hrest⟩ | ⟨v', text', hend, hrest, hholds, hsub'⟩
      · exact .inl ⟨stop, v', hstop, (bind_ok hrun).trans hrest⟩
      · refine .inr ⟨v', text', hend, (bind_ok hrun).trans hrest, hholds, ?_⟩
        rw [← List.append_assoc]
        exact hsub'.trans (hsub.append_right _)

/-- Whatever the calls of `map` answer, nothing outside the vector is accessed; unless formatting
stops, the string ends with its terminator, has the length of what stands before it, and holds some of
the characters of the text that unlimited memory would have taken, in order. -/
theorem scopedString_survives (M : MapCalls) (appends : List (List Char × List Arg)) :
    (∃ stop v, (unlimited appends).2 = some stop ∧
      scopedString M appends localVector = .error (.stopped stop) v) ∨
    ∃ v text, (unlimited appends).2 = none ∧ scopedString M appends localVector = .ok () v ∧
      0 < v.size ∧ v.size ≤ v.capacity ∧ v.chars = text ++ [terminator] ∧ v.length = text.length ∧
      text.Sublist (unlimited appends).1 := by
  have hlocal : localVector.Ok := ⟨by decide, by decide, by decide⟩
  obtain ⟨v0, hrun0, hv0, hchars0⟩ := @push_back_spec M localVector hlocal terminator
  have hempty : v0.Holds [] := by
    rcases hchars0 with hchars0 | ⟨hchars0, hfull, -⟩
    · exact ⟨hv0, hchars0⟩
    · rw [← chars_length, hchars0] at hfull
      exact absurd hfull (by decide)
  rcases @appendAll_spec M v0 [] hempty appends with ⟨stop, v, hstop, hrun⟩ |
    ⟨v, text, hend, hrun, h, hsub⟩
  · exact .inl ⟨stop, v, hstop, (bind_ok hrun0).trans hrun⟩
  · have hsize := h.size
    refine .inr ⟨v, text, hend, (bind_ok hrun0).trans hrun, by omega, h.ok.size_le, h.chars, ?_, hsub⟩
    rw [VectorNoCtor.length, h.ok.wrapSub_size (by omega), hsize, Nat.add_sub_cancel]

/-- No mapping ever succeeds. -/
def noMaps : MapCalls := ⟨fun _ _ => false, fun _ _ h => absurd h Bool.false_ne_true, 12, by decide⟩

/-- A name of 300 characters, and a number after it. -/
def longName : List (List Char × List Arg) :=
  [("tag ".toList, []), ("%s, %d.".toList, [.str (some (List.replicate 300 'x')), .word 8])]

/-- The string of 256 elements is full in the middle of the name, and the rest is dropped. -/
theorem scopedString_survives_longName :
    ∃ v text, scopedString noMaps longName localVector = .ok () v ∧
      0 < v.size ∧ v.size ≤ v.capacity ∧ v.chars = text ++ [terminator] ∧ v.length = text.length ∧
      text.Sublist (unlimited longName).1 ∧ text.length < (unlimited longName).1.length := by
  have hend : (unlimited longName).2 = none ∧ (unlimited longName).1.length = 308 := by
    decide +kernel
  have hrest : (do
      scopedString noMaps longName
      let v ← get
      pure v.length : Vec Nat).run' localVector = some 255 := by
    decide +kernel
  rcases scopedString_survives noMaps longName with ⟨stop, v, hstop, -⟩ |
    ⟨v, text, -, hrun, hpos, hle, hchars, hlen, hsub⟩
  · rw [hend.1] at hstop
    cases hstop
  · have hlength : some v.length = some 255 := by
      rw [← hrest, EStateM.run', EStateM.run, bind_ok hrun]
      rfl
    rw [Option.some.injEq] at hlength
    refine ⟨v, text, hrun, hpos, hle, hchars, hlen, hsub, ?_⟩
    rw [hend.2, ← hlen, hlength]
    decide

theorem push_back_unlimited (hM : M.Unlimited) (hv : v.Ok) (hsize : v.size < 2^61) (c : Char) :
    ∃ v', push_back M c v = .ok () v' ∧ v'.Ok ∧ v'.chars = v.chars ++ [c] := by
  obtain ⟨v', hrun, hv', hchars | ⟨-, -, hfail⟩⟩ := @push_back_spec M v hv c
  · exact ⟨v', hrun, hv', hchars⟩
  · have hlog := M.pageLog_le
    have hpage : 2^M.pageLog ≤ 2^32 := Nat.pow_le_pow_right (by decide) hlog
    obtain ⟨-, hhi⟩ := @roundUpPowerOfTwo_bounds (v.size+1) 61 (by omega) (by omega)
      (by decide +kernel)
    obtain ⟨-, hround, -⟩ := roundUp_spec (roundUpPowerOfTwo (v.size+1)) M.pageLog (by omega)
      (by omega)
    rw [hM _ _ (by omega)] at hfail
    cases hfail

theorem pushAll_unlimited (hM : M.Unlimited) (hv : v.Ok) (cs : List Char)
    (hsize : v.size + cs.length < 2^61) :
    ∃ v', pushAll M cs v = .ok () v' ∧ v'.Ok ∧ v'.chars = v.chars ++ cs := by
  induction cs generalizing v with
  | nil => exact ⟨v, rfl, hv, (List.append_nil _).symm⟩
  | cons c cs ih =>
    rw [List.length_cons] at hsize
    obtain ⟨v1, hrun1, hv1, hchars1⟩ := push_back_unlimited hM hv (by omega) c
    have hsize1 : v1.size = v.size + 1 := by
      rw [← chars_length, hchars1, List.length_append, chars_length, List.length_singleton]
    obtain ⟨v2, hrun2, hv2, hchars2⟩ := ih hv1 (by omega)
    refine ⟨v2, ?_, hv2, ?_⟩
    · rw [pushAll, bind_ok hrun1, hrun2]
    · rw [hchars2, hchars1, List.append_assoc, List.singleton_append]

theorem vappend_unlimited (hM : M.Unlimited) {text new : List Char} (h : v.Holds text)
    {format : List Char} {args : List Arg} (hformat : formatFrom 0 args format [] = .ok () new)
    (hlen : text.length + new.length + 1 < 2^61) :
    ∃ v', vappend M format args v = .ok () v' ∧ v'.Holds (text ++ new) := by
  obtain ⟨v1, hrun1, hv1, hchars1⟩ := @resize_spec M v text h
  have hsize1 : v1.size = text.length := by
    rw [← chars_length, hchars1]
  obtain ⟨v2, hrun2, hv2, hchars2⟩ := pushAll_unlimited hM hv1 new (by omega)
  have hsize2 : v2.size = text.length + new.length := by
    rw [← chars_length, hchars2, hchars1, List.length_append]
  obtain ⟨v3, hrun3, hv3, hchars3⟩ := push_back_unlimited hM hv2 (by omega) terminator
  rw [hchars2, hchars1] at hchars3
  obtain ⟨v', hend, hholds⟩ := terminate_spec hv3 hchars3
  refine ⟨v', ?_, hholds⟩
  rw [← hend, vappend, get_bind, bind_ok hrun1, hformat, pushText, bind_ok hrun2, bind_ok hrun3]

theorem appendAll_unlimited (hM : M.Unlimited) {text : List Char} (h : v.Holds text)
    (appends : List (List Char × List Arg)) (hend : (unlimited appends).2 = none)
    (hlen : text.length + (unlimited appends).1.length + 1 < 2^61) :
    ∃ v', appendAll M appends v = .ok () v' ∧ v'.Holds (text ++ (unlimited appends).1) := by
  induction appends generalizing v text with
  | nil => exact ⟨v, rfl, by rwa [unlimited, List.append_nil]⟩
  | cons append appends ih =>
    obtain ⟨format, args⟩ := append
    rw [unlimited] at hend hlen ⊢
    cases hformat : formatFrom 0 args format [] with
    | error stop new =>
      rw [hformat] at hend
      cases hend
    | ok u new =>
      rw [hformat] at hend hlen
      simp only [List.length_append] at hend hlen ⊢
      obtain ⟨v1, hrun1, h1⟩ := vappend_unlimited hM h hformat (by omega)
      obtain ⟨v2, hrun2, h2⟩ := ih h1 hend (by rw [List.length_append]; omega)
      refine ⟨v2, (bind_ok hrun1).trans hrun2, ?_⟩
      rwa [List.append_assoc] at h2

/-- With unlimited memory, the string holds all of the text. -/
theorem scopedString_unlimited (hM : M.Unlimited) (appends : List (List Char × List Arg))
    (hend : (unlimited appends).2 = none) (hlen : (unlimited appends).1.length + 1 < 2^61) :
    ∃ v, scopedString M appends localVector = .ok () v ∧
      v.chars = (unlimited appends).1 ++ [terminator] := by
  have hlocal : localVector.Ok := ⟨by decide, by decide, by decide⟩
  obtain ⟨v0, hrun0, hv0, hchars0⟩ := push_back_unlimited hM hlocal (by decide) terminator
  have hempty : v0.Holds [] := ⟨hv0, hchars0⟩
  obtain ⟨v, hrun, h⟩ := appendAll_unlimited hM hempty appends hend
    (by rw [List.length_nil]; omega)
  exact ⟨v, (bind_ok hrun0).trans hrun, h.chars⟩

/-- Every mapping succeeds. -/
def allMaps : MapCalls := ⟨fun _ bytes => bytes < 2^63, fun _ _ h => of_decide_eq_true h, 12, by decide⟩

example : allMaps.Unlimited := fun _ _ h => decide_eq_true h

end ScudoMte.Strings
