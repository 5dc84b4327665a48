import Mathlib.Logic.Function.Basic
import ScudoMte.Options
import ScudoMte.Library.TransitionSystem

namespace ScudoMte.AtomicOptions

inductive OptionBit
  | mayReturnNull | fillContents0of2 | fillContents1of2 | deallocTypeMismatch | deleteSizeMismatch
  | trackAllocationStacks | useOddEvenTags | useMemoryTagging | addLargeAllocationSlack
  deriving DecidableEq

def OptionBit.index : OptionBit → Nat
  | mayReturnNull => 0
  | fillContents0of2 => 1
  | fillContents1of2 => 2
  | deallocTypeMismatch => 3
  | deleteSizeMismatch => 4
  | trackAllocationStacks => 5
  | useOddEvenTags => 6
  | useMemoryTagging => 7
  | addLargeAllocationSlack => 8

/-- `Options::get`. -/
def get (val : BitVec 32) (opt : OptionBit) : Bool := (val &&& (1#32 <<< opt.index)) != 0#32

def fillContentsVal : FillContentsMode → BitVec 32
  | .noFill => 0
  | .zeroFill => 1
  | .patternOrZeroFill => 2

/-- `Options::getFillContentsMode`, before the cast. -/
def fillContentsBits (val : BitVec 32) : BitVec 32 :=
  (val >>> OptionBit.fillContents0of2.index) &&& 3#32

/-- The cast to the enumeration, which has no value 3. -/
def getFillContentsMode (val : BitVec 32) : FillContentsMode :=
  if fillContentsBits val = 0 then .noFill
  else if fillContentsBits val = 1 then .zeroFill
  else .patternOrZeroFill

/-- What the readers of a loaded word see. -/
def load (val : BitVec 32) : Options where
  mayReturnNull := get val .mayReturnNull
  fillContents := getFillContentsMode val
  deallocTypeMismatch := get val .deallocTypeMismatch
  deleteSizeMismatch := get val .deleteSizeMismatch
  trackAllocationStacks := get val .trackAllocationStacks
  useOddEvenTags := get val .useOddEvenTags
  useMemoryTagging := get val .useMemoryTagging
  addLargeAllocationSlack := get val .addLargeAllocationSlack

/-- The `fetch_and` of `clear`. -/
def clear (val : BitVec 32) (opt : OptionBit) : BitVec 32 := val &&& ~~~(1#32 <<< opt.index)

/-- The `fetch_or` of `set`. -/
def set (val : BitVec 32) (opt : OptionBit) : BitVec 32 := val ||| (1#32 <<< opt.index)

/-- `NewOpts` in `setFillContentsMode`. -/
def newOpts (opts : BitVec 32) (fillContents : FillContentsMode) : BitVec 32 :=
  (opts &&& ~~~(3#32 <<< OptionBit.fillContents0of2.index)) |||
    (fillContentsVal fillContents <<< OptionBit.fillContents0of2.index)

/-- One field of the options. The mode of filling has two bits and an update of its own. -/
def setField (o : Options) (opt : OptionBit) (b : Bool) : Options :=
  match opt with
  | .mayReturnNull => { o with mayReturnNull := b }
  | .deallocTypeMismatch => { o with deallocTypeMismatch := b }
  | .deleteSizeMismatch => { o with deleteSizeMismatch := b }
  | .trackAllocationStacks => { o with trackAllocationStacks := b }
  | .useOddEvenTags => { o with useOddEvenTags := b }
  | .useMemoryTagging => { o with useMemoryTagging := b }
  | .addLargeAllocationSlack => { o with addLargeAllocationSlack := b }
  | .fillContents0of2 | .fillContents1of2 => o

/-- The bits of the word, by their places. -/
def bit (o : Options) (i : Nat) : Bool :=
  (i = 0 && o.mayReturnNull) || (i = 1 && o.fillContents = .zeroFill) ||
    (i = 2 && o.fillContents = .patternOrZeroFill) || (i = 3 && o.deallocTypeMismatch) ||
    (i = 4 && o.deleteSizeMismatch) || (i = 5 && o.trackAllocationStacks) ||
    (i = 6 && o.useOddEvenTags) || (i = 7 && o.useMemoryTagging) ||
    (i = 8 && o.addLargeAllocationSlack)

/-- The word holds these options and nothing else. -/
def Holds (val : BitVec 32) (o : Options) : Prop := ∀ i < 32, val.getLsbD i = bit o i

/-- The options before `init`. -/
def noOptions : Options where
  mayReturnNull := false
  fillContents := .noFill
  deallocTypeMismatch := false
  deleteSizeMismatch := false
  trackAllocationStacks := false
  useOddEvenTags := false
  useMemoryTagging := false
  addLargeAllocationSlack := false

section Word

variable {val : BitVec 32} {o : Options} {opt : OptionBit} {i : Nat}

theorem getLsbD_shiftedOne {k : Nat} (hi : i < 32) :
    (1#32 <<< k).getLsbD i = decide (i = k) := by
  rw [← BitVec.twoPow_eq, BitVec.getLsbD_twoPow]
  by_cases h : k = i
  · simp [h, hi]
  · simp [h, Ne.symm h]

theorem OptionBit.index_lt (opt : OptionBit) : opt.index < 32 := by
  cases opt <;> decide

theorem get_eq (val : BitVec 32) (opt : OptionBit) : get val opt = val.getLsbD opt.index := by
  have hne : BitVec.twoPow 32 opt.index ≠ 0#32 := by
    cases opt <;> decide
  rw [get, ← BitVec.twoPow_eq, BitVec.and_twoPow]
  by_cases h : val.getLsbD opt.index = true
  · rw [if_pos h, h, bne_iff_ne.mpr hne]
  · rw [if_neg h, bne_self_eq_false, Bool.eq_false_of_not_eq_true h]

theorem holds_zero : Holds 0 noOptions := by
  intro i hi
  simp [bit, noOptions]

theorem bit_setField (hf : opt ≠ .fillContents0of2 ∧ opt ≠ .fillContents1of2) (b : Bool) :
    bit (setField o opt b) i = if i = opt.index then b else bit o i := by
  by_cases h : i = opt.index
  · rw [if_pos h, h]
    cases opt with
    | fillContents0of2 => exact absurd rfl hf.1
    | fillContents1of2 => exact absurd rfl hf.2
    | _ => simp [bit, setField, OptionBit.index]
  · rw [if_neg h]
    cases opt <;> simp only [OptionBit.index] at h <;> simp [bit, setField, h] <;> rfl

theorem Holds.set (hh : Holds val o) (hf : opt ≠ .fillContents0of2 ∧ opt ≠ .fillContents1of2) :
    Holds (set val opt) (setField o opt true) := by
  intro i hi
  rw [AtomicOptions.set, BitVec.getLsbD_or, getLsbD_shiftedOne hi, bit_setField hf, hh i hi]
  by_cases h : i = opt.index <;> simp [h]

theorem Holds.clear (hh : Holds val o) (hf : opt ≠ .fillContents0of2 ∧ opt ≠ .fillContents1of2) :
    Holds (clear val opt) (setField o opt false) := by
  intro i hi
  rw [AtomicOptions.clear, BitVec.getLsbD_and, BitVec.getLsbD_not, getLsbD_shiftedOne hi,
    bit_setField hf, hh i hi]
  by_cases h : i = opt.index <;> simp [h, hi]

theorem getLsbD_mask : ∀ i < 32, (3#32 <<< 1).getLsbD i = decide (i = 1 ∨ i = 2) := by
  decide

theorem getLsbD_fillContentsVal (mode : FillContentsMode) : ∀ i < 32,
    (fillContentsVal mode <<< 1).getLsbD i =
      ((i = 1 && mode = .zeroFill) || (i = 2 && mode = .patternOrZeroFill)) := by
  cases mode <;> decide

theorem Holds.newOpts (hh : Holds val o) (mode : FillContentsMode) :
    Holds (newOpts val mode) { o with fillContents := mode } := by
  intro i hi
  have hval := getLsbD_fillContentsVal mode i hi
  rw [AtomicOptions.newOpts, OptionBit.index, BitVec.getLsbD_or, BitVec.getLsbD_and,
    BitVec.getLsbD_not, getLsbD_mask i hi, hval, hh i hi]
  by_cases h1 : i = 1
  · simp [h1, bit]
  · by_cases h2 : i = 2
    · simp [h2, bit]
    · simp [h1, h2, hi, bit]

theorem getLsbD_three : ∀ i < 32, (3#32).getLsbD i = decide (i = 0 ∨ i = 1) := by
  decide

theorem getLsbD_mode (mode : FillContentsMode) : ∀ i < 32, (fillContentsVal mode).getLsbD i =
    ((i = 0 && mode = .zeroFill) || (i = 1 && mode = .patternOrZeroFill)) := by
  cases mode <;> decide

theorem Holds.fillContentsBits (hh : Holds val o) :
    fillContentsBits val = fillContentsVal o.fillContents := by
  apply BitVec.eq_of_getLsbD_eq
  intro i hi
  rw [AtomicOptions.fillContentsBits, OptionBit.index, BitVec.getLsbD_and, getLsbD_three i hi,
    BitVec.getLsbD_ushiftRight, getLsbD_mode _ i hi]
  by_cases h0 : i = 0
  · rw [h0, Nat.add_zero, hh 1 (by decide)]
    simp [bit]
  · by_cases h1 : i = 1
    · rw [h1, hh 2 (by decide)]
      simp [bit]
    · simp [h0, h1]

/-- A word is read back as the options that it holds. -/
theorem Holds.load (hh : Holds val o) : load val = o := by
  have hfill : getFillContentsMode val = o.fillContents := by
    rw [getFillContentsMode, hh.fillContentsBits]
    cases o.fillContents <;> rfl
  have hget (opt : OptionBit) : get val opt = bit o opt.index := by
    rw [get_eq, hh _ opt.index_lt]
  simp only [AtomicOptions.load, hfill, hget]
  simp [bit, OptionBit.index]

end Word

/-- A call that updates the options. -/
inductive Update
  | set (opt : OptionBit)
  | clear (opt : OptionBit)
  | setFillContentsMode (fillContents : FillContentsMode)
  deriving DecidableEq

/-- What an update is for. -/
def Update.apply : Update → Options → Options
  | set opt, o => setField o opt true
  | clear opt, o => setField o opt false
  | setFillContentsMode fillContents, o => { o with fillContents }

/-- Where a thread stands: between two calls, or before a compare-exchange of
`setFillContentsMode`, with the word that it read last and the number of the updates that had
taken effect then. -/
inductive Pc
  | idle
  | trying (fillContents : FillContentsMode) (opts : BitVec 32) (seen : Nat)
  deriving DecidableEq

/-- The update that a thread has begun. -/
def Pc.pending : Pc → List Update
  | idle => []
  | trying fillContents _ _ => [.setFillContentsMode fillContents]

/-- The word and the threads, with the calls that were made and the updates that took effect. -/
structure System (τ : Type*) where
  val : BitVec 32
  pc : τ → Pc
  called : List (τ × Update)
  updates : List (τ × Update)

inductive Act (τ : Type*)
  | call (t : τ) (u : Update)
  | compareExchange (t : τ)

namespace System

variable {τ : Type*} [DecidableEq τ]

/-- A call up to its first atomic access of the word. -/
def call (s : System τ) (t : τ) : Update → System τ
  | .set opt => { s with
      val := AtomicOptions.set s.val opt
      called := s.called ++ [(t, .set opt)]
      updates := s.updates ++ [(t, .set opt)] }
  | .clear opt => { s with
      val := AtomicOptions.clear s.val opt
      called := s.called ++ [(t, .clear opt)]
      updates := s.updates ++ [(t, .clear opt)] }
  | .setFillContentsMode fillContents => { s with
      pc := Function.update s.pc t (.trying fillContents s.val s.updates.length)
      called := s.called ++ [(t, .setFillContentsMode fillContents)] }

/-- The compare-exchange leaves the word that it found in `Opts` when it fails. -/
def compareExchange (s : System τ) (t : τ) : Option (System τ) :=
  match s.pc t with
  | .idle => none
  | .trying fillContents opts _ =>
      if s.val = opts then some { s with
        val := newOpts opts fillContents
        pc := Function.update s.pc t .idle
        updates := s.updates ++ [(t, .setFillContentsMode fillContents)] }
      else some { s with
        pc := Function.update s.pc t (.trying fillContents s.val s.updates.length) }

def step (s : System τ) : Act τ → Option (System τ)
  | .call t u => if s.pc t = .idle then some (s.call t u) else none
  | .compareExchange t => s.compareExchange t

/-- `set` and `clear` are called for options of one bit only. -/
def Enabled (_ : System τ) : Act τ → Prop
  | .call _ (.set opt) | .call _ (.clear opt) =>
      opt ≠ .fillContents0of2 ∧ opt ≠ .fillContents1of2
  | _ => True

structure Init (s : System τ) : Prop where
  val : s.val = 0
  pc : ∀ t, s.pc t = .idle
  called : s.called = []
  updates : s.updates = []

abbrev Reachable : System τ → Prop :=
  TransitionSystem.Reachable Init Enabled fun s a s' => s.step a = some s'

/-- The updates of one thread. -/
def ofThread (t : τ) (us : List (τ × Update)) : List Update :=
  (us.filter fun p => p.1 = t).map Prod.snd

/-- The options after updates one by one. -/
def optionsAfter (us : List (τ × Update)) : Options :=
  us.foldl (fun o p => p.2.apply o) noOptions

/-- The updates take effect one by one: a reader sees the options that they lead to, each call
takes effect once, behind the earlier calls of its thread and before it returns, and a
compare-exchange fails only when another update took effect since the word was read. -/
structure Linearized (s : System τ) : Prop where
  options : load s.val = optionsAfter s.updates
  once : ∀ t, ofThread t s.called = ofThread t s.updates ++ (s.pc t).pending
  retries : ∀ t fillContents opts seen, s.pc t = .trying fillContents opts seen →
    s.val ≠ opts → seen < s.updates.length

structure Inv (s : System τ) : Prop where
  holds : Holds s.val (optionsAfter s.updates)
  once : ∀ t, ofThread t s.called = ofThread t s.updates ++ (s.pc t).pending
  seen : ∀ t fillContents opts seen, s.pc t = .trying fillContents opts seen →
    seen ≤ s.updates.length ∧ (seen = s.updates.length → s.val = opts)

section Inv

variable {s s' : System τ} {t x : τ} {u : Update} {us : List (τ × Update)}

omit [DecidableEq τ] in
theorem optionsAfter_append :
    optionsAfter (us ++ [(t, u)]) = u.apply (optionsAfter us) := by
  rw [optionsAfter, List.foldl_append, List.foldl_cons, List.foldl_nil]
  rfl

theorem ofThread_self : ofThread t (us ++ [(t, u)]) = ofThread t us ++ [u] := by
  simp [ofThread, List.filter_append]

theorem ofThread_other (h : x ≠ t) : ofThread x (us ++ [(t, u)]) = ofThread x us := by
  simp [ofThread, List.filter_append, Ne.symm h]

/-- An update takes effect. -/
theorem Inv.commit (hi : s.Inv) {val : BitVec 32} {pc : τ → Pc} {called : List (τ × Update)}
    (hval : Holds val (u.apply (optionsAfter s.updates))) (hpc : pc t = .idle)
    (hpcs : ∀ x ≠ t, pc x = s.pc x) (hcall : ofThread t called = ofThread t s.updates ++ [u])
    (hcalls : ∀ x ≠ t, ofThread x called = ofThread x s.called) :
    Inv { val, pc, called, updates := s.updates ++ [(t, u)] } := by
  constructor
  · rw [optionsAfter_append]
    exact hval
  · intro x
    by_cases hx : x = t
    · subst hx
      dsimp only
      rw [hcall, ofThread_self, hpc, Pc.pending, List.append_nil]
    · dsimp only
      rw [hcalls x hx, ofThread_other hx, hpcs x hx, hi.once x]
  · intro x fillContents opts seen hp
    dsimp only at hp
    have hx : x ≠ t := by
      intro hx
      rw [hx, hpc] at hp
      exact Pc.noConfusion hp
    rw [hpcs x hx] at hp
    have hle := (hi.seen x _ _ _ hp).1
    simp only [List.length_append, List.length_singleton]
    omega

/-- A thread reads the word, for the first time or again. -/
theorem Inv.read (hi : s.Inv) {fillContents : FillContentsMode} {called : List (τ × Update)}
    (hcall : ofThread t called = ofThread t s.updates ++ [.setFillContentsMode fillContents])
    (hcalls : ∀ x ≠ t, ofThread x called = ofThread x s.called) :
    Inv { s with
      pc := Function.update s.pc t (.trying fillContents s.val s.updates.length), called } := by
  constructor
  · exact hi.holds
  · intro x
    by_cases hx : x = t
    · subst hx
      dsimp only
      rw [Function.update_self]
      exact hcall
    · dsimp only
      rw [Function.update_of_ne hx, hcalls x hx]
      exact hi.once x
  · intro x mode opts seen hp
    dsimp only at hp
    by_cases hx : x = t
    · subst hx
      rw [Function.update_self] at hp
      obtain ⟨-, rfl, rfl⟩ := Pc.trying.inj hp
      exact ⟨le_refl _, fun _ => rfl⟩
    · rw [Function.update_of_ne hx] at hp
      exact hi.seen x _ _ _ hp

theorem Inv.call (hi : s.Inv) (hidle : s.pc t = .idle) (hu : s.Enabled (.call t u)) :
    (s.call t u).Inv := by
  have hcall : ofThread t (s.called ++ [(t, u)]) = ofThread t s.updates ++ [u] := by
    rw [ofThread_self, hi.once t, hidle, Pc.pending, List.append_nil]
  have hcalls : ∀ x ≠ t, ofThread x (s.called ++ [(t, u)]) = ofThread x s.called :=
    fun x hx => ofThread_other hx
  cases u with
  | set opt => exact hi.commit (hi.holds.set hu) hidle (fun _ _ => rfl) hcall hcalls
  | clear opt => exact hi.commit (hi.holds.clear hu) hidle (fun _ _ => rfl) hcall hcalls
  | setFillContentsMode fillContents => exact hi.read hcall hcalls

theorem Inv.compareExchange (hi : s.Inv) (hs : s.compareExchange t = some s') : s'.Inv := by
  have honce := hi.once t
  rw [System.compareExchange] at hs
  cases hp : s.pc t with
  | idle =>
    rw [hp] at hs
    cases hs
  | trying fillContents opts seen =>
    rw [hp] at hs honce
    simp only at hs
    by_cases hval : s.val = opts
    · rw [if_pos hval] at hs
      rw [← Option.some.inj hs, ← hval]
      exact hi.commit (hi.holds.newOpts fillContents) (Function.update_self ..)
        (fun x hx => Function.update_of_ne hx ..) honce fun _ _ => rfl
    · rw [if_neg hval] at hs
      rw [← Option.some.inj hs]
      exact hi.read honce fun _ _ => rfl

theorem Inv.linearized (hi : s.Inv) : s.Linearized := by
  refine ⟨hi.holds.load, hi.once, ?_⟩
  intro t fillContents opts seen hp hval
  obtain ⟨hle, heq⟩ := hi.seen t _ _ _ hp
  exact lt_of_le_of_ne hle fun h => hval (heq h)

theorem Init.inv (h0 : s.Init) : s.Inv := by
  constructor
  · rw [h0.val, h0.updates]
    exact holds_zero
  · intro t
    rw [h0.called, h0.updates, h0.pc t]
    rfl
  · intro t fillContents opts seen hp
    rw [h0.pc t] at hp
    exact Pc.noConfusion hp

/-- No update of the options is lost, however the calls of the threads interleave. -/
theorem linearized_of_reachable (hr : s.Reachable) : s.Linearized := by
  apply Inv.linearized
  apply TransitionSystem.Reachable.invariant (fun _ h0 => h0.inv) _ hr
  intro s a s' hi ha hs
  cases a with
  | call t u =>
    rw [step] at hs
    by_cases hidle : s.pc t = .idle
    · rw [if_pos hidle] at hs
      rw [← Option.some.inj hs]
      exact hi.call hidle ha
    · rw [if_neg hidle] at hs
      cases hs
  | compareExchange t => exact hi.compareExchange hs

/-- A mode is set while another thread sets an option: the first compare-exchange fails. -/
def twoUpdates : List (Act Bool) :=
  [.call false (.setFillContentsMode .zeroFill), .call true (.set .mayReturnNull),
    .compareExchange false, .compareExchange false]

theorem linearized_of_reachable_twoUpdates : ∃ s : System Bool,
    TransitionSystem.run step ⟨0, fun _ => .idle, [], []⟩ twoUpdates = some s ∧
      s.val = 3#32 ∧ s.Linearized := by
  have hrun : ∃ s : System Bool,
      TransitionSystem.run step ⟨0, fun _ => .idle, [], []⟩ twoUpdates = some s ∧
        s.val = 3#32 := ⟨_, rfl, by decide⟩
  obtain ⟨s, hs, hval⟩ := hrun
  have hstart : Reachable (⟨0, fun _ => .idle, [], []⟩ : System Bool) :=
    .start ⟨rfl, fun _ => rfl, rfl, rfl⟩
  have hok : ∀ r : System Bool, ∀ a ∈ twoUpdates, r.Enabled a := by
    intro r a ha
    simp only [twoUpdates, List.mem_cons, List.not_mem_nil, or_false] at ha
    rcases ha with rfl | rfl | rfl | rfl
    · trivial
    · exact ⟨by decide, by decide⟩
    · trivial
    · trivial
  exact ⟨s, hs, hval, linearized_of_reachable (hstart.run hok hs)⟩

end Inv

end System

end ScudoMte.AtomicOptions
