import Mathlib.Algebra.Group.Nat.Defs
import Mathlib.Logic.Function.Basic
import ScudoMte.Library.TransitionSystem

namespace ScudoMte.HybridMutex

def unlocked : Nat := 0

def locked : Nat := 1

def sleeping : Nat := 2

def numberOfTries : Nat := 32

/-- `atomic_compare_exchange_strong`: the old value and the new one. -/
def compareExchange (word cmp xchg : Nat) : Nat × Nat := (word, if word = cmp then xchg else word)

/-- `atomic_fetch_sub` of 1. -/
def fetchSub (word : Nat) : Nat × Nat := (word, (word + (2^32 - 1)) % 2^32)

/-- Where a thread stands: before which of its atomic steps, or asleep. -/
inductive Pc
  | idle
  /-- In `lock`, after so many failed tries. -/
  | trying (tries : Nat)
  | lockSlow
  /-- Before the exchange in front of the loop. -/
  | exchange
  /-- Before the system call in the loop. -/
  | waiting
  | blocked
  /-- Back from the system call, before the exchange in the loop. -/
  | returned
  | holding
  /-- In `unlock`, before the store. -/
  | storing
  /-- In `unlock`, before the system call. -/
  | waking
  deriving DecidableEq

/-- What moves a thread: a call, its next atomic step, or a return of the system call for no
reason. -/
inductive Move
  | lock
  | tryLock
  | unlock
  | run
  | spurious
  deriving DecidableEq

/-- `tryLock`, with where the thread stands behind it. -/
def tryLock (failed : Pc) (word : Nat) : Nat × Pc :=
  let (v, word) := compareExchange word unlocked locked
  (word, if v = unlocked then .holding else failed)

/-- One of the two exchanges of `lockSlow`. -/
def exchange (word : Nat) : Nat × Pc := (sleeping, if word ≠ unlocked then .waiting else .holding)

/-- A move of one thread: the word and where the thread stands afterwards. -/
def move : Move → Nat → Pc → Option (Nat × Pc)
  | .lock, word, .idle => some (word, .trying 0)
  | .tryLock, word, .idle => some (tryLock .idle word)
  | .unlock, word, .holding =>
      let (v, word) := fetchSub word
      some (word, if v ≠ locked then .storing else .idle)
  | .run, word, .trying tries =>
      some (tryLock (if tries < numberOfTries then .trying (tries+1) else .lockSlow) word)
  | .run, word, .lockSlow =>
      let (v, word) := compareExchange word unlocked locked
      some (word, if v = unlocked then .holding else if v ≠ sleeping then .exchange else .waiting)
  | .run, word, .exchange => some (exchange word)
  | .run, word, .waiting => some (word, if word = sleeping then .blocked else .returned)
  | .run, word, .returned => some (exchange word)
  | .run, _, .storing => some (unlocked, .waking)
  | .spurious, word, .waiting => some (word, .returned)
  | .spurious, word, .blocked => some (word, .returned)
  | _, _, _ => none

structure System (ι : Type*) where
  word : Nat
  pc : ι → Pc

/-- A move of a thread, or the wake of an unlocker, with the thread that it wakes. -/
inductive Act (ι : Type*)
  | move (t : ι) (m : Move)
  | wake (t : ι) (woken : Option ι)

namespace System

variable {ι : Type*} [DecidableEq ι]

def step (s : System ι) : Act ι → Option (System ι)
  | .move t m =>
      (HybridMutex.move m s.word (s.pc t)).map fun (word, p) =>
        { word, pc := Function.update s.pc t p }
  | .wake t none =>
      if s.pc t = .waking then some { s with pc := Function.update s.pc t .idle } else none
  | .wake t (some u) =>
      if s.pc t = .waking ∧ s.pc u = .blocked then
        some { s with pc := Function.update (Function.update s.pc t .idle) u .returned }
      else none

/-- The wake reaches nobody only where nobody sleeps. -/
def Enabled (s : System ι) : Act ι → Prop
  | .wake _ none => ∀ u, s.pc u ≠ .blocked
  | _ => True

structure Init (s : System ι) : Prop where
  word : s.word = unlocked
  pc : ∀ t, s.pc t = .idle

/-- The states that any number of threads reach in any order of their steps. -/
abbrev Reachable : System ι → Prop :=
  TransitionSystem.Reachable Init Enabled fun s a s' => s.step a = some s'

end System

/-- Between a completed lock and the `fetch_sub` or the store that unlocks. -/
def Pc.Owns (p : Pc) : Prop := p = .holding ∨ p = .storing

/-- The wake of an unlocker is still to come. -/
def Pc.WillWake (p : Pc) : Prop := p = .storing ∨ p = .waking

/-- The thread has left the system call or not entered it yet, and sets the word to `Sleeping`
unless it finds it so when it goes to sleep. -/
def Pc.WillSleep (p : Pc) : Prop := p = .exchange ∨ p = .waiting ∨ p = .returned

structure IsMutex {ι : Type*} (s : System ι) : Prop where
  exclusive : ∀ t u, (s.pc t).Owns → (s.pc u).Owns → t = u
  free : s.word = unlocked ↔ ∀ t, ¬ (s.pc t).Owns
  waiters : ∀ b, s.pc b = .blocked →
    s.word = sleeping ∨ (∃ t, (s.pc t).WillWake) ∨ ∃ t, (s.pc t).WillSleep
  notForgotten : ∀ b, s.pc b = .blocked → s.word = unlocked →
    ∃ t, (s.pc t).WillWake ∨ (s.pc t).WillSleep

/-- Before the first compare-exchange that may take the lock, or before a later one. -/
def Pc.Tries (p : Pc) : Prop := p = .idle ∨ (∃ n, p = .trying n) ∨ p = .lockSlow

/-- What a move can do. -/
inductive Moves (w : Nat) : Pc → Nat → Pc → Prop
  | call : Moves w .idle w (.trying 0)
  | acquire {p : Pc} (hp : p.Tries) (hw : w = unlocked) : Moves w p locked .holding
  | fail {p p' : Pc} (hp : p.Tries) (hw : w ≠ unlocked) (hp' : p'.Tries ∨ p'.WillSleep) :
      Moves w p w p'
  | exchangeFree {p : Pc} (hp : p.WillSleep) (hw : w = unlocked) : Moves w p sleeping .holding
  | exchangeBusy {p : Pc} (hp : p.WillSleep) (hw : w ≠ unlocked) : Moves w p sleeping .waiting
  | sleep (hw : w = sleeping) : Moves w .waiting w .blocked
  | leave {p : Pc} (hp : p.WillSleep ∨ p = .blocked) : Moves w p w .returned
  | release (hw : w = locked) : Moves w .holding unlocked .idle
  | contended (hw : w ≠ locked) : Moves w .holding ((w + (2^32 - 1)) % 2^32) .storing
  | store : Moves w .storing unlocked .waking

theorem tryLock_moves {w w' : Nat} {p p' failed : Pc} (hp : p.Tries) (hf : failed.Tries)
    (h : tryLock failed w = (w', p')) : Moves w p w' p' := by
  by_cases hw : w = unlocked
  · simp only [tryLock, compareExchange, hw, if_true, Prod.mk.injEq] at h
    obtain ⟨rfl, rfl⟩ := h
    exact .acquire hp hw
  · simp only [tryLock, compareExchange, hw, if_false, Prod.mk.injEq] at h
    obtain ⟨rfl, rfl⟩ := h
    exact .fail hp hw (.inl hf)

theorem exchange_moves {w w' : Nat} {p p' : Pc} (hp : p.WillSleep) (h : exchange w = (w', p')) :
    Moves w p w' p' := by
  by_cases hw : w = unlocked
  · simp only [exchange, hw, ne_eq, not_true_eq_false, if_false, Prod.mk.injEq] at h
    obtain ⟨rfl, rfl⟩ := h
    exact .exchangeFree hp hw
  · simp only [exchange, hw, ne_eq, not_false_eq_true, if_true, Prod.mk.injEq] at h
    obtain ⟨rfl, rfl⟩ := h
    exact .exchangeBusy hp hw

theorem move_moves {m : Move} {w w' : Nat} {p p' : Pc} (h : move m w p = some (w', p')) :
    Moves w p w' p' := by
  unfold move at h
  split at h <;> simp only [Option.some.injEq, reduceCtorEq] at h
  · obtain ⟨rfl, rfl⟩ := h
    exact .call
  · exact tryLock_moves (.inl rfl) (.inl rfl) h
  · by_cases hw : w = locked
    · simp only [fetchSub, hw, ne_eq, not_true_eq_false, if_false, Prod.mk.injEq] at h
      obtain ⟨rfl, rfl⟩ := h
      exact .release hw
    · simp only [fetchSub, hw, ne_eq, not_false_eq_true, if_true, Prod.mk.injEq] at h
      obtain ⟨rfl, rfl⟩ := h
      exact .contended hw
  · refine tryLock_moves (.inr (.inl ⟨_, rfl⟩)) ?_ h
    split
    · exact .inr (.inl ⟨_, rfl⟩)
    · exact .inr (.inr rfl)
  · by_cases hw : w = unlocked
    · simp only [compareExchange, hw, if_true, Prod.mk.injEq] at h
      obtain ⟨rfl, rfl⟩ := h
      exact .acquire (.inr (.inr rfl)) hw
    · simp only [compareExchange, hw, if_false, Prod.mk.injEq] at h
      obtain ⟨rfl, rfl⟩ := h
      refine .fail (.inr (.inr rfl)) hw (.inr ?_)
      split
      · exact .inl rfl
      · exact .inr (.inl rfl)
  · exact exchange_moves (.inl rfl) h
  · simp only [Prod.mk.injEq] at h
    obtain ⟨rfl, rfl⟩ := h
    by_cases hw : w = sleeping
    · rw [if_pos hw]
      exact .sleep hw
    · rw [if_neg hw]
      exact .leave (.inl (.inr (.inl rfl)))
  · exact exchange_moves (.inr (.inr rfl)) h
  · obtain ⟨rfl, rfl⟩ := h
    exact .store
  · obtain ⟨rfl, rfl⟩ := h
    exact .leave (.inl (.inr (.inl rfl)))
  · obtain ⟨rfl, rfl⟩ := h
    exact .leave (.inr rfl)

/-- What the runs keep. -/
structure Inv {ι : Type*} (w : Nat) (pc : ι → Pc) : Prop where
  word_le : w ≤ 2
  exclusive : ∀ t u, (pc t).Owns → (pc u).Owns → t = u
  free : w = unlocked ↔ ∀ t, ¬ (pc t).Owns
  waiters : ∀ b, pc b = .blocked →
    w = sleeping ∨ (∃ t, (pc t).WillWake) ∨ ∃ t, (pc t).WillSleep

theorem Pc.Tries.not_owns {p : Pc} (h : p.Tries) : ¬ p.Owns := by
  rintro (rfl | rfl) <;> simp [Pc.Tries] at h

theorem Pc.Tries.not_willWake {p : Pc} (h : p.Tries) : ¬ p.WillWake := by
  rintro (rfl | rfl) <;> simp [Pc.Tries] at h

theorem Pc.Tries.not_willSleep {p : Pc} (h : p.Tries) : ¬ p.WillSleep := by
  rintro (rfl | rfl | rfl) <;> simp [Pc.Tries] at h

theorem Pc.Tries.not_blocked {p : Pc} (h : p.Tries) : p ≠ .blocked := by
  rintro rfl
  simp [Pc.Tries] at h

theorem Pc.WillSleep.not_owns {p : Pc} (h : p.WillSleep) : ¬ p.Owns := by
  rintro (rfl | rfl) <;> simp [Pc.WillSleep] at h

theorem Pc.WillSleep.not_willWake {p : Pc} (h : p.WillSleep) : ¬ p.WillWake := by
  rintro (rfl | rfl) <;> simp [Pc.WillSleep] at h

theorem Pc.WillSleep.not_blocked {p : Pc} (h : p.WillSleep) : p ≠ .blocked := by
  rintro rfl
  simp [Pc.WillSleep] at h

/-- How a move changes who owns the mutex: it is taken where it is free, and free where the owner
gives it up. -/
structure Ownership (w : Nat) (p : Pc) (w' : Nat) (p' : Pc) : Prop where
  le : w' ≤ 2
  takes : ¬ p.Owns → p'.Owns → w = unlocked
  held : p'.Owns → w' ≠ unlocked
  gives : p.Owns → ¬ p'.Owns → w' = unlocked
  others : ¬ p.Owns → ¬ p'.Owns → (w' = unlocked ↔ w = unlocked)

theorem Moves.ownership {w w' : Nat} {p p' : Pc} (h : Moves w p w' p') (hw : w ≤ 2)
    (hown : p.Owns → w ≠ unlocked) : Ownership w p w' p' := by
  cases h with
  | call => exact ⟨hw, by simp [Pc.Owns], by simp [Pc.Owns], by simp [Pc.Owns], fun _ _ => Iff.rfl⟩
  | acquire hp hu =>
    exact ⟨by decide, fun _ _ => hu, fun _ => by decide, fun h => absurd h hp.not_owns,
      fun _ h => absurd (.inl rfl) h⟩
  | fail hp hu hp' =>
    have hp'' : ¬ p'.Owns := hp'.elim Pc.Tries.not_owns Pc.WillSleep.not_owns
    exact ⟨hw, fun _ h => absurd h hp'', fun h => absurd h hp'', fun h => absurd h hp.not_owns,
      fun _ _ => Iff.rfl⟩
  | exchangeFree hp hu =>
    exact ⟨by decide, fun _ _ => hu, fun _ => by decide, fun h => absurd h hp.not_owns,
      fun _ h => absurd (.inl rfl) h⟩
  | exchangeBusy hp hu =>
    exact ⟨by decide, by simp [Pc.Owns], by simp [Pc.Owns], fun h => absurd h hp.not_owns,
      fun _ _ => iff_of_false (by decide) hu⟩
  | sleep hs => exact ⟨hw, by simp [Pc.Owns], by simp [Pc.Owns], by simp [Pc.Owns], fun _ _ => Iff.rfl⟩
  | leave hp =>
    have hp' : ¬ p.Owns := by
      rcases hp with hp | rfl
      · exact hp.not_owns
      · simp [Pc.Owns]
    exact ⟨hw, by simp [Pc.Owns], by simp [Pc.Owns], fun h => absurd h hp', fun _ _ => Iff.rfl⟩
  | release hl => exact ⟨by decide, by simp [Pc.Owns], by simp [Pc.Owns], fun _ _ => rfl,
      fun h => absurd (.inl rfl) h⟩
  | contended hl =>
    have hne := hown (.inl rfl)
    obtain rfl : w = 2 := by
      simp only [unlocked, locked] at hne hl
      omega
    exact ⟨by decide, fun h => absurd (.inl rfl) h, fun _ => by decide,
      fun _ h => absurd (.inr rfl) h, fun h => absurd (.inl rfl) h⟩
  | store => exact ⟨by decide, by simp [Pc.Owns], by simp [Pc.Owns], fun _ _ => rfl,
      fun h => absurd (.inr rfl) h⟩

/-- How a move changes what the sleepers can count on. -/
structure Waking (w : Nat) (p : Pc) (w' : Nat) (p' : Pc) : Prop where
  sleeping : w = HybridMutex.sleeping → w' = HybridMutex.sleeping ∨ p'.WillWake
  wakes : p.WillWake → p'.WillWake
  sleeps : p.WillSleep → w' = HybridMutex.sleeping ∨ p'.WillSleep
  blocked : p' = .blocked → w' = HybridMutex.sleeping

theorem Moves.waking {w w' : Nat} {p p' : Pc} (h : Moves w p w' p') : Waking w p w' p' := by
  cases h with
  | call => exact ⟨.inl, by simp [Pc.WillWake], by simp [Pc.WillSleep], nofun⟩
  | acquire hp hu =>
    refine ⟨?_, fun h => absurd h hp.not_willWake, fun h => absurd h hp.not_willSleep, nofun⟩
    intro hs
    rw [hu] at hs
    exact absurd hs (by decide)
  | fail hp hu hp' =>
    exact ⟨.inl, fun h => absurd h hp.not_willWake, fun h => absurd h hp.not_willSleep,
      fun h => absurd h (hp'.elim Pc.Tries.not_blocked Pc.WillSleep.not_blocked)⟩
  | exchangeFree hp hu =>
    exact ⟨fun _ => .inl rfl, fun h => absurd h hp.not_willWake, fun _ => .inl rfl, nofun⟩
  | exchangeBusy hp hu =>
    exact ⟨fun _ => .inl rfl, fun h => absurd h hp.not_willWake, fun _ => .inl rfl, nofun⟩
  | sleep hs => exact ⟨.inl, by simp [Pc.WillWake], fun _ => .inl hs, fun _ => hs⟩
  | leave hp =>
    have hp' : ¬ p.WillWake := by
      rcases hp with hp | rfl
      · exact hp.not_willWake
      · simp [Pc.WillWake]
    exact ⟨.inl, fun h => absurd h hp', fun _ => .inr (.inr (.inr rfl)), nofun⟩
  | release hl =>
    refine ⟨?_, by simp [Pc.WillWake], by simp [Pc.WillSleep], nofun⟩
    intro hs
    rw [hl] at hs
    exact absurd hs (by decide)
  | contended hl =>
    exact ⟨fun _ => .inr (.inl rfl), fun _ => .inl rfl, by simp [Pc.WillSleep], nofun⟩
  | store => exact ⟨fun _ => .inr (.inr rfl), fun _ => .inr rfl, by simp [Pc.WillSleep], nofun⟩

section Steps

variable {ι : Type*} [DecidableEq ι] {w w' : Nat} {pc : ι → Pc} {t : ι} {p' : Pc}

/-- A move of one thread keeps the invariant. -/
theorem Inv.move (hi : Inv w pc) (h : Moves w (pc t) w' p') :
    Inv w' (Function.update pc t p') := by
  have hown := h.ownership hi.word_le (fun ho hu => hi.free.mp hu t ho)
  have hwake := h.waking
  have hself : Function.update pc t p' t = p' := Function.update_self ..
  have hother {u : ι} (hu : u ≠ t) : Function.update pc t p' u = pc u :=
    Function.update_of_ne hu ..
  -- a thread that owns the mutex is the only one
  have halone (ht : p'.Owns) {u : ι} (hu : u ≠ t) : ¬ (pc u).Owns := by
    intro ho
    by_cases hp : (pc t).Owns
    · exact hu (hi.exclusive u t ho hp)
    · exact hi.free.mp (hown.takes hp ht) u ho
  refine ⟨hown.le, ?_, ?_, ?_⟩
  · intro u v hu hv
    by_cases hut : u = t
    · by_cases hvt : v = t
      · rw [hut, hvt]
      · rw [hut, hself] at hu
        rw [hother hvt] at hv
        exact absurd hv (halone hu hvt)
    · rw [hother hut] at hu
      by_cases hvt : v = t
      · rw [hvt, hself] at hv
        exact absurd hu (halone hv hut)
      · rw [hother hvt] at hv
        exact hi.exclusive u v hu hv
  · have hsplit : (∀ u, ¬ (Function.update pc t p' u).Owns) ↔
        ¬ p'.Owns ∧ ∀ u, u ≠ t → ¬ (pc u).Owns := by
      refine ⟨fun hn => ⟨hself ▸ hn t, fun u hu => hother hu ▸ hn u⟩, ?_⟩
      rintro ⟨ht, hn⟩ u
      by_cases hu : u = t
      · rw [hu, hself]
        exact ht
      · rw [hother hu]
        exact hn u hu
    rw [hsplit]
    by_cases hp' : p'.Owns
    · exact iff_of_false (hown.held hp') fun h => h.1 hp'
    · by_cases hp : (pc t).Owns
      · exact iff_of_true (hown.gives hp hp')
          ⟨hp', fun u hu ho => hu (hi.exclusive u t ho hp)⟩
      · rw [hown.others hp hp', hi.free]
        refine ⟨fun hn => ⟨hp', fun u _ => hn u⟩, ?_⟩
        rintro ⟨-, hn⟩ u
        by_cases hu : u = t
        · rw [hu]
          exact hp
        · exact hn u hu
  · intro b hb
    by_cases hbt : b = t
    · rw [hbt, hself] at hb
      exact .inl (hwake.blocked hb)
    · rw [hother hbt] at hb
      have hmoved : p'.WillWake ∨ p'.WillSleep → w' = sleeping ∨
          (∃ u, (Function.update pc t p' u).WillWake) ∨
            ∃ u, (Function.update pc t p' u).WillSleep :=
        fun h => .inr (h.imp (fun h => ⟨t, by rwa [hself]⟩) (fun h => ⟨t, by rwa [hself]⟩))
      rcases hi.waiters b hb with hw | ⟨u, hu⟩ | ⟨u, hu⟩
      · exact (hwake.sleeping hw).elim .inl fun h => hmoved (.inl h)
      · by_cases hut : u = t
        · exact hmoved (.inl (hwake.wakes (hut ▸ hu)))
        · exact .inr (.inl ⟨u, hother hut ▸ hu⟩)
      · by_cases hut : u = t
        · exact (hwake.sleeps (hut ▸ hu)).elim .inl fun h => hmoved (.inr h)
        · exact .inr (.inr ⟨u, hother hut ▸ hu⟩)

omit [DecidableEq ι] in
/-- The ownership of the mutex depends on who owns it alone. -/
theorem Inv.of_owns_iff {pc' : ι → Pc} (hi : Inv w pc) (h : ∀ u, (pc' u).Owns ↔ (pc u).Owns)
    (hwaiters : ∀ b, pc' b = .blocked →
      w = sleeping ∨ (∃ t, (pc' t).WillWake) ∨ ∃ t, (pc' t).WillSleep) : Inv w pc' := by
  refine ⟨hi.word_le, ?_, ?_, hwaiters⟩
  · intro u v hu hv
    exact hi.exclusive u v ((h u).mp hu) ((h v).mp hv)
  · rw [hi.free]
    exact forall_congr' fun u => not_congr (h u).symm

theorem owns_update {p : Pc} (hp : ¬ p.Owns) (ht : ¬ (pc t).Owns) (u : ι) :
    (Function.update pc t p u).Owns ↔ (pc u).Owns := by
  by_cases hu : u = t
  · rw [hu, Function.update_self]
    exact iff_of_false hp ht
  · rw [Function.update_of_ne hu]

/-- A wake that reaches nobody. -/
theorem Inv.wakeNone (hi : Inv w pc) (ht : pc t = .waking) (hn : ∀ u, pc u ≠ .blocked) :
    Inv w (Function.update pc t .idle) := by
  refine hi.of_owns_iff (owns_update (by simp [Pc.Owns]) (by simp [ht, Pc.Owns])) ?_
  intro b hb
  by_cases hbt : b = t
  · rw [hbt, Function.update_self] at hb
    exact nomatch hb
  · rw [Function.update_of_ne hbt] at hb
    exact absurd hb (hn b)

/-- A wake: the thread that was asleep will set the word. -/
theorem Inv.wakeSome (hi : Inv w pc) {u : ι} (ht : pc t = .waking) (hu : pc u = .blocked) :
    Inv w (Function.update (Function.update pc t .idle) u .returned) := by
  have htu : u ≠ t := by
    rintro rfl
    rw [ht] at hu
    exact nomatch hu
  refine hi.of_owns_iff ?_ fun b _ => .inr (.inr ⟨u, ?_⟩)
  · intro v
    rw [owns_update (by simp [Pc.Owns]) (by simp [Function.update_of_ne htu, hu, Pc.Owns]),
      owns_update (by simp [Pc.Owns]) (by simp [ht, Pc.Owns])]
  · rw [Function.update_self]
    exact .inr (.inr rfl)

end Steps

variable {ι : Type*} [DecidableEq ι] {s s' : System ι}

omit [DecidableEq ι] in
theorem System.Init.inv (h : s.Init) : Inv s.word s.pc := by
  have hno (t : ι) : ¬ (s.pc t).Owns := by simp [h.pc t, Pc.Owns]
  refine ⟨by simp [h.word, unlocked], fun t _ ht => absurd ht (hno t), iff_of_true h.word hno, ?_⟩
  intro b hb
  rw [h.pc b] at hb
  exact nomatch hb

theorem Inv.step {a : Act ι} (hi : Inv s.word s.pc) (he : s.Enabled a) (h : s.step a = some s') :
    Inv s'.word s'.pc := by
  cases a with
  | move t m =>
    obtain ⟨⟨w', p'⟩, hm, rfl⟩ := Option.map_eq_some_iff.mp h
    exact hi.move (move_moves hm)
  | wake t woken =>
    cases woken with
    | none =>
      simp only [System.step] at h
      split at h
      · next ht =>
        rw [← Option.some.inj h]
        exact hi.wakeNone ht he
      · exact nomatch h
    | some u =>
      simp only [System.step] at h
      split at h
      · next ht =>
        rw [← Option.some.inj h]
        exact hi.wakeSome ht.1 ht.2
      · exact nomatch h

theorem System.Reachable.inv (h : s.Reachable) : Inv s.word s.pc := by
  refine @TransitionSystem.Reachable.invariant _ _ _ _ _ (fun s => Inv s.word s.pc) ?_ ?_ _ h
  · exact fun _ h0 => h0.inv
  · exact fun _ _ _ hi he hs => hi.step he hs

/-- In every state that any number of threads reach, at most one of them owns the mutex, and no
thread that sleeps is forgotten. -/
theorem isMutex_of_reachable (h : s.Reachable) : IsMutex s := by
  have hi := h.inv
  refine ⟨hi.exclusive, hi.free, hi.waiters, ?_⟩
  intro b hb hfree
  rcases hi.waiters b hb with hw | ⟨t, ht⟩ | ⟨t, ht⟩
  · rw [hfree] at hw
    exact absurd hw (by decide)
  · exact ⟨t, .inl ht⟩
  · exact ⟨t, .inr ht⟩

/-- Thread 0 takes the mutex; thread 1 tries 33 times and goes to sleep. -/
def sleepActs : List (Act Nat) :=
  [.move 0 .lock, .move 0 .run, .move 1 .lock] ++ List.replicate 36 (.move 1 .run)

theorem isMutex_sleeping : ∃ s : System Nat, s.pc 0 = .holding ∧ s.pc 1 = .blocked ∧ IsMutex s := by
  have hrun : ∃ s, TransitionSystem.run System.step ⟨unlocked, fun _ : Nat => .idle⟩ sleepActs =
      some s ∧ s.pc 0 = .holding ∧ s.pc 1 = .blocked := ⟨_, rfl, rfl, rfl⟩
  obtain ⟨s, hs, h0, h1⟩ := hrun
  refine ⟨s, h0, h1, isMutex_of_reachable (.run (.start ⟨rfl, fun _ => rfl⟩) ?_ hs)⟩
  intro s a ha
  simp only [sleepActs, List.mem_append, List.mem_cons, List.not_mem_nil, or_false,
    List.mem_replicate] at ha
  rcases ha with (rfl | rfl | rfl) | ⟨-, rfl⟩ <;> exact trivial

end ScudoMte.HybridMutex
