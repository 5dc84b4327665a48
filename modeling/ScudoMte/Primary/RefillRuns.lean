import ScudoMte.Primary.RefillProtocol

namespace ScudoMte.Primary.Refill

section Locks

variable {ι : Type*} {owner : Lock → Option ι} {pc : ι → Pc}

/-- The owner of a lock is the thread that holds it. -/
structure Locked (owner : Lock → Option ι) (pc : ι → Pc) : Prop where
  nested : ∀ t, (pc t).Nested
  owner : ∀ l t, owner l = some t ↔ (pc t).Holds l

theorem Locked.exclusive (h : Locked owner pc) {l : Lock} {t u : ι} (ht : (pc t).Holds l)
    (hu : (pc u).Holds l) : t = u := by
  have h1 := (h.owner l t).mpr ht
  rw [(h.owner l u).mpr hu] at h1
  exact (Option.some.inj h1).symm

/-- Code under the same locks. -/
theorem Locked.congr {pc' : ι → Pc} (h : Locked owner pc) (hs : ∀ t, (pc' t).Nested)
    (hh : ∀ l t, (pc' t).Holds l ↔ (pc t).Holds l) : Locked owner pc' :=
  ⟨hs, fun l t => (h.owner l t).trans (hh l t).symm⟩

theorem Pc.Notifies.holds {p : Pc} {v : Nat} (h : p.Notifies v) (hs : p.Nested) : p.Holds .fl := by
  cases p with
  | futexWake w next => exact hs.1
  | setLast w next => exact hs.1
  | _ => exact absurd h id

theorem Moves.nested {r r' : Region} {p p' : Pc} (h : Moves r p r' p') (hs : p.Nested) :
    p'.Nested ∧ ∀ l, p'.Holds l ↔ p.Holds l := by
  cases h with
  | plain _ _ _ _ _ _ _ hs' hh => exact ⟨hs', hh⟩
  | setFlag _ => simp
  | clearFlag => simp
  | wait => simp
  | sleep _ => simp
  | notifyAll => exact ⟨hs, fun _ => Iff.rfl⟩
  | setLast => exact ⟨hs.2.2.2.2, fun _ => Iff.rfl⟩

variable [DecidableEq ι] {t : ι}

theorem Locked.update {p' : Pc} (h : Locked owner pc) (hs : p'.Nested)
    (hh : ∀ l, p'.Holds l ↔ (pc t).Holds l) : Locked owner (Function.update pc t p') := by
  refine h.congr ?_ fun l u => ?_
  · exact (Function.forall_update_iff pc fun _ p => p.Nested).mpr ⟨hs, fun u _ => h.nested u⟩
  · rcases eq_or_ne u t with rfl | hu
    · rw [Function.update_self]
      exact hh l
    · rw [Function.update_of_ne hu]

/-- A lock that is taken or given up. -/
theorem Locked.update_owner {p' : Pc} {l : Lock} {o : Option ι} (h : Locked owner pc)
    (hs : p'.Nested) (ho : ∀ u, o = some u ↔ u = t ∧ p'.Holds l)
    (hfree : ∀ u, u ≠ t → ¬ (pc u).Holds l) (hh : ∀ l' ≠ l, p'.Holds l' ↔ (pc t).Holds l') :
    Locked (Function.update owner l o) (Function.update pc t p') := by
  refine ⟨?_, fun l' u => ?_⟩
  · exact (Function.forall_update_iff pc fun _ p => p.Nested).mpr ⟨hs, fun u _ => h.nested u⟩
  · rcases eq_or_ne l' l with rfl | hl
    · rw [Function.update_self, ho]
      rcases eq_or_ne u t with rfl | hu
      · simp
      · simp [hu, hfree u hu]
    · rw [Function.update_of_ne hl, h.owner]
      rcases eq_or_ne u t with rfl | hu
      · rw [Function.update_self]
        exact (hh l' hl).symm
      · rw [Function.update_of_ne hu]

theorem Locked.lock {l : Lock} {next : Pc} (h : Locked owner pc) (ht : pc t = .lock l next)
    (hfree : owner l = none) :
    Locked (Function.update owner l (some t)) (Function.update pc t next) := by
  have hs := h.nested t
  rw [ht] at hs
  refine h.update_owner hs.2.2 ?_ ?_ ?_
  · intro u
    simp only [Option.some.injEq, hs.1, and_true]
    exact eq_comm
  · intro u _ hu
    rw [(h.owner l u).mpr hu] at hfree
    exact nomatch hfree
  · intro l' hl
    rw [ht]
    simp [hl]

theorem Locked.unlock {l : Lock} {next : Pc} (h : Locked owner pc) (ht : pc t = .unlock l next) :
    Locked (Function.update owner l none) (Function.update pc t next) := by
  have hs := h.nested t
  rw [ht] at hs
  have hheld : (pc t).Holds l := by
    rw [ht]
    exact .inl rfl
  refine h.update_owner hs.2.2 ?_ ?_ ?_
  · intro u
    simp [hs.1]
  · intro u hu ho
    exact hu (h.exclusive ho hheld)
  · intro l' hl
    rw [ht]
    simp [hl]

omit [DecidableEq ι] in
/-- Those who are woken go on without a lock. -/
theorem Locked.wake (h : Locked owner pc) : Locked owner fun u => (pc u).wake := by
  refine h.congr (fun u => ?_) fun l u => ?_
  · rcases (pc u).wake_cases with ⟨v, -, hw⟩ | hw
    · simp [hw]
    · rw [hw]
      exact h.nested u
  · rcases (pc u).wake_cases with ⟨v, hu, hw⟩ | hw
    · rw [hw, hu]
      simp
    · rw [hw]

end Locks

section Flag

variable {ι : Type*} {owner : Lock → Option ι} {pc : ι → Pc} {flag : Bool}

/-- `isPopulatingFreeList` is set while a thread populates the freelist, and a thread waits only
where it has found it set. -/
structure Flagged (flag : Bool) (pc : ι → Pc) : Prop where
  set_iff : flag = true ↔ ∃ t, (pc t).Populates
  one : ∀ t u, (pc t).Populates → (pc u).Populates → t = u
  wait : ∀ t, pc t = .wait → flag = true

/-- The flag depends on who populates the freelist alone. -/
theorem Flagged.congr {pc' : ι → Pc} (h : Flagged flag pc)
    (hpop : ∀ u, (pc' u).Populates ↔ (pc u).Populates) (hw : ∀ u, pc' u = .wait → flag = true) :
    Flagged flag pc' := by
  refine ⟨?_, ?_, hw⟩
  · rw [h.set_iff]
    exact exists_congr fun u => (hpop u).symm
  · intro u v h1 h2
    exact h.one u v ((hpop u).mp h1) ((hpop v).mp h2)

theorem Flagged.wake (h : Flagged flag pc) : Flagged flag fun u => (pc u).wake := by
  refine h.congr (fun u => ?_) fun u hwait => ?_
  · rcases (pc u).wake_cases with ⟨v, hu, hw⟩ | hw
    · rw [hw, hu]
      simp
    · rw [hw]
  · rcases (pc u).wake_cases with ⟨v, -, hw⟩ | hw
    · rw [hw] at hwait
      exact nomatch hwait
    · rw [hw] at hwait
      exact h.wait u hwait

variable [DecidableEq ι] {t : ι}

theorem Flagged.update {p' : Pc} (h : Flagged flag pc)
    (hpop : p'.Populates ↔ (pc t).Populates) (hw : p' = .wait → flag = true) :
    Flagged flag (Function.update pc t p') := by
  refine h.congr (fun u => ?_) ?_
  · rcases eq_or_ne u t with rfl | hu
    · rw [Function.update_self]
      exact hpop
    · rw [Function.update_of_ne hu]
  · exact (Function.forall_update_iff pc fun _ p => p = .wait → flag = true).mpr
      ⟨hw, fun u _ => h.wait u⟩

theorem Flagged.setFlag (h : Flagged flag pc) (hf : flag = false) (p' : Pc) (hp' : p'.Populates) :
    Flagged true (Function.update pc t p') := by
  have hno (u : ι) : ¬ (pc u).Populates := by
    intro hu
    rw [h.set_iff.mpr ⟨u, hu⟩] at hf
    exact nomatch hf
  have honly {u : ι} (hu : (Function.update pc t p' u).Populates) : u = t := by
    by_contra hne
    rw [Function.update_of_ne hne] at hu
    exact hno u hu
  refine ⟨iff_of_true rfl ⟨t, by rwa [Function.update_self]⟩, ?_, fun _ _ => rfl⟩
  intro u v hu hv
  rw [honly hu, honly hv]

theorem Flagged.clearFlag (h : Flagged flag pc) (hl : Locked owner pc) (ht : pc t = .clearFlag)
    {next : Pc} : Flagged false (Function.update pc t (.notifyAll next)) := by
  have hno (u : ι) : ¬ (Function.update pc t (.notifyAll next) u).Populates := by
    rcases eq_or_ne u t with rfl | hu
    · rw [Function.update_self]
      exact id
    · rw [Function.update_of_ne hu]
      exact fun hp => hu (h.one u t hp (by simp [ht]))
  refine ⟨iff_of_false (by decide) fun ⟨u, hu⟩ => hno u hu, fun u _ hu => absurd hu (hno u), ?_⟩
  intro u hu
  rcases eq_or_ne u t with rfl | hne
  · rw [Function.update_self] at hu
    exact nomatch hu
  · -- a thread that is about to wait holds the lock under which the flag is cleared
    rw [Function.update_of_ne hne] at hu
    exact absurd (hl.exclusive (l := .fl) (by simp [hu]) (by simp [ht])) hne

theorem Flagged.moves {r r' : Region} {p' : Pc} (h : Flagged r.isPopulatingFreeList pc)
    (hl : Locked owner pc) (hm : Moves r (pc t) r' p') :
    Flagged r'.isPopulatingFreeList (Function.update pc t p') := by
  have hs := hl.nested t
  generalize hp : pc t = p at hm hs
  cases hm with
  | plain hr hlast hf hp1 hp2 hpop hw hs' hh =>
    rw [hf]
    refine h.update (by rwa [hp]) ?_
    rintro rfl
    rcases hp2 with hp2 | ⟨_, hp2⟩ | ⟨-, hf'⟩
    · exact absurd hp2 id
    · exact nomatch hp2
    · exact hf'
  | setFlag hf => exact h.setFlag hf _ (by simp)
  | clearFlag => exact h.clearFlag hl hp
  | wait => exact h.update (by simp [hp]) nofun
  | sleep _ => exact h.update (by simp [hp]) nofun
  | notifyAll => exact h.update (by simp [hp]) nofun
  | setLast =>
    refine h.update (by simpa [hp] using hs.2.2.1) ?_
    rintro rfl
    exact absurd hs.2.1 id

end Flag

section Counter

variable {ι : Type*} {owner : Lock → Option ι} {pc : ι → Pc} {counter last : Nat}

/-- In `notifyAllImpl`, in front of its system call. -/
@[simp] def Pc.Wakes : Pc → Prop
  | .notifyAll _ | .futexWake _ _ => True
  | _ => False

/-- Somebody will wake who sleeps now. -/
def Awaited (pc : ι → Pc) : Prop := ∃ u, (pc u).Populates ∨ (pc u).Wakes

/-- What the counter says about the threads that wait: one whose update is the last one came after
the last notification, and so did one that sleeps. -/
structure Counted (counter last : Nat) (pc : ι → Pc) : Prop where
  quiet : (∀ u v, ¬ (pc u).Notifies v) → last ≤ counter ∧ counter < last + 2^32
  notifies : ∀ u v, (pc u).Notifies v → v + 1 = counter ∧ last ≤ v ∧ v < last + 2^32 ∧
    ∀ t w, (pc t).WaitsOn w → w ≤ v
  waits : ∀ t v, (pc t).WaitsOn v → v ≤ counter ∧ (v = counter → last < v ∧ Awaited pc)
  asleep : ∀ t v, pc t = .asleep v → last < v ∧ Awaited pc
  notified : ∀ u v next, pc u = .setLast v next → ∀ t w, pc t ≠ .asleep w

theorem Pc.waitsOn_asleep {p : Pc} {v : Nat} (h : p = .asleep v) : p.WaitsOn v := by
  rw [h]
  rfl

/-- A thread in `notifyAllImpl` is alone there. -/
theorem Locked.not_notifies (hl : Locked owner pc) {t : ι} (ht : (pc t).Holds .fl)
    (hn : ∀ v, ¬ (pc t).Notifies v) (u : ι) (v : Nat) : ¬ (pc u).Notifies v := by
  intro hu
  rw [hl.exclusive (hu.holds (hl.nested u)) ht] at hu
  exact hn v hu

variable [DecidableEq ι] {t : ι}

/-- A step that leaves the counter alone and neither starts nor ends a sleep or a notification. -/
structure Calm (p p' : Pc) : Prop where
  awake : ∀ v, p' ≠ .asleep v
  enters : ∀ v, ¬ p'.Notifies v
  leaves : ∀ v, ¬ p.Notifies v
  waits : ∀ v, p'.WaitsOn v → p.WaitsOn v
  awaited : p.Populates ∨ p.Wakes → p'.Populates ∨ p'.Wakes

theorem Counted.calm {p' : Pc} (h : Counted counter last pc) (hc : Calm (pc t) p') :
    Counted counter last (Function.update pc t p') := by
  have hnotifies (u : ι) (v : Nat) :
      (Function.update pc t p' u).Notifies v ↔ (pc u).Notifies v := by
    rcases eq_or_ne u t with rfl | hu
    · rw [Function.update_self]
      exact iff_of_false (hc.enters v) (hc.leaves v)
    · rw [Function.update_of_ne hu]
  have hwaits (u : ι) (v : Nat) (hu : (Function.update pc t p' u).WaitsOn v) :
      (pc u).WaitsOn v := by
    rcases eq_or_ne u t with rfl | hne
    · rw [Function.update_self] at hu
      exact hc.waits v hu
    · rwa [Function.update_of_ne hne] at hu
  have hasleep (u : ι) (v : Nat) (hu : Function.update pc t p' u = .asleep v) :
      pc u = .asleep v := by
    rcases eq_or_ne u t with rfl | hne
    · rw [Function.update_self] at hu
      exact absurd hu (hc.awake v)
    · rwa [Function.update_of_ne hne] at hu
  have hawaited : Awaited pc → Awaited (Function.update pc t p') := by
    rintro ⟨u, hu⟩
    rcases eq_or_ne u t with rfl | hne
    · exact ⟨u, by rw [Function.update_self]; exact hc.awaited hu⟩
    · exact ⟨u, by rwa [Function.update_of_ne hne]⟩
  refine ⟨?_, ?_, ?_, ?_, ?_⟩
  · intro hn
    exact h.quiet fun u v hu => hn u v ((hnotifies u v).mpr hu)
  · intro u v hu
    obtain ⟨h1, h2, h3, h4⟩ := h.notifies u v ((hnotifies u v).mp hu)
    exact ⟨h1, h2, h3, fun u w hw => h4 u w (hwaits u w hw)⟩
  · intro u v hu
    obtain ⟨h1, h2⟩ := h.waits u v (hwaits u v hu)
    exact ⟨h1, fun heq => (h2 heq).imp_right hawaited⟩
  · intro u v hu
    exact (h.asleep u v (hasleep u v hu)).imp_right hawaited
  · intro u v next hu w x hw
    rcases eq_or_ne u t with rfl | hne
    · rw [Function.update_self] at hu
      exact hc.enters v (by rw [hu]; rfl)
    · rw [Function.update_of_ne hne] at hu
      exact h.notified u v next hu w x (hasleep w x hw)

/-- The start of `waitImpl`. -/
theorem Counted.wait (h : Counted counter last pc) (hl : Locked owner pc) (ht : pc t = .wait)
    (hawaited : ∃ u, (pc u).Populates) (hfew : counter + 1 < last + 2^32) :
    Counted (counter + 1) last (Function.update pc t (.unlock .fl (.futexWait (counter + 1)))) := by
  have hno := hl.not_notifies (t := t) (by simp [ht]) (by simp [ht])
  obtain ⟨h1, h2⟩ := h.quiet hno
  have hnotifies : ∀ u v, ¬ (Function.update pc t (.unlock .fl (.futexWait (counter + 1))) u).Notifies v :=
    (Function.forall_update_iff pc fun _ p => ∀ v, ¬ p.Notifies v).mpr
      ⟨fun _ => id, fun u _ => hno u⟩
  have hpop : Awaited (Function.update pc t (.unlock .fl (.futexWait (counter + 1)))) := by
    obtain ⟨u, hu⟩ := hawaited
    have hne : u ≠ t := by
      rintro rfl
      simp [ht] at hu
    exact ⟨u, by rw [Function.update_of_ne hne]; exact .inl hu⟩
  refine ⟨fun _ => ⟨by omega, hfew⟩, fun u v hu => absurd hu (hnotifies u v), ?_, ?_, ?_⟩
  · intro u v hu
    rcases eq_or_ne u t with rfl | hne
    · rw [Function.update_self] at hu
      have hv : counter + 1 = v := hu
      exact ⟨by omega, fun _ => ⟨by omega, hpop⟩⟩
    · rw [Function.update_of_ne hne] at hu
      have hle := (h.waits u v hu).1
      exact ⟨by omega, fun _ => by omega⟩
  · intro u v hu
    rcases eq_or_ne u t with rfl | hne
    · rw [Function.update_self] at hu
      exact nomatch hu
    · rw [Function.update_of_ne hne] at hu
      exact ⟨(h.asleep u v hu).1, hpop⟩
  · intro u v next hu
    exact absurd (by rw [hu]; rfl) (hnotifies u v)

/-- The system call of `waitImpl` with the counter still at the thread's own update. -/
theorem Counted.sleep {v : Nat} (h : Counted counter last pc) (ht : pc t = .futexWait v)
    (hv : sameWord counter v) (hprompt : counter < v + 2^32) :
    Counted counter last (Function.update pc t (.asleep v)) := by
  have hwaits : (pc t).WaitsOn v := by simp [ht]
  obtain ⟨hle, hlast⟩ := h.waits t v hwaits
  have heq : v = counter := by
    simp only [sameWord] at hv
    omega
  obtain ⟨hlt, hawaited⟩ := hlast heq
  have hwait (u : ι) (w : Nat) :
      (Function.update pc t (.asleep v) u).WaitsOn w ↔ (pc u).WaitsOn w := by
    rcases eq_or_ne u t with rfl | hu
    · rw [Function.update_self, ht]
      exact Iff.rfl
    · rw [Function.update_of_ne hu]
  have hnotify (u : ι) (w : Nat) :
      (Function.update pc t (.asleep v) u).Notifies w ↔ (pc u).Notifies w := by
    rcases eq_or_ne u t with rfl | hu
    · rw [Function.update_self, ht]
      exact Iff.rfl
    · rw [Function.update_of_ne hu]
  have hkeep : Awaited pc → Awaited (Function.update pc t (.asleep v)) := by
    rintro ⟨u, hu⟩
    have hne : u ≠ t := by
      rintro rfl
      simp [ht] at hu
    exact ⟨u, by rwa [Function.update_of_ne hne]⟩
  refine ⟨?_, ?_, ?_, ?_, ?_⟩
  · exact fun hn => h.quiet fun u w hu => hn u w ((hnotify u w).mpr hu)
  · intro u w hu
    obtain ⟨h1, h2, h3, h4⟩ := h.notifies u w ((hnotify u w).mp hu)
    exact ⟨h1, h2, h3, fun x y hx => h4 x y ((hwait x y).mp hx)⟩
  · intro u w hu
    obtain ⟨h1, h2⟩ := h.waits u w ((hwait u w).mp hu)
    exact ⟨h1, fun heq => (h2 heq).imp_right hkeep⟩
  · intro u w hu
    rcases eq_or_ne u t with rfl | hne
    · rw [Function.update_self, Pc.asleep.injEq] at hu
      exact ⟨by omega, hkeep hawaited⟩
    · rw [Function.update_of_ne hne] at hu
      exact (h.asleep u w hu).imp_right hkeep
  · -- a notification behind its wake has updated the counter after every waiter
    intro u w next hu
    obtain ⟨h1, -, -, h4⟩ := h.notifies u w ((hnotify u w).mp (by rw [hu]; rfl))
    have := h4 t v hwaits
    omega

/-- The start of `notifyAllImpl`. -/
theorem Counted.notifyAll {next : Pc} (h : Counted counter last pc) (hl : Locked owner pc)
    (ht : pc t = .notifyAll next) :
    Counted (counter + 1) last (Function.update pc t (.futexWake counter next)) := by
  have hs := hl.nested t
  rw [ht] at hs
  have hheld : (pc t).Holds .fl := by
    rw [ht]
    exact hs.1
  have hno := hl.not_notifies hheld (by simp [ht])
  obtain ⟨h1, h2⟩ := h.quiet hno
  have hwaits (u : ι) (w : Nat)
      (hu : (Function.update pc t (.futexWake counter next) u).WaitsOn w) : w ≤ counter := by
    rcases eq_or_ne u t with rfl | hne
    · rw [Function.update_self] at hu
      exact absurd hu id
    · rw [Function.update_of_ne hne] at hu
      exact (h.waits u w hu).1
  refine ⟨?_, ?_, ?_, ?_, ?_⟩
  · intro hn
    exact absurd (by rw [Function.update_self]; rfl) (hn t counter)
  · intro u v hu
    rcases eq_or_ne u t with rfl | hne
    · rw [Function.update_self] at hu
      have hv : counter = v := hu
      subst hv
      exact ⟨rfl, h1, h2, hwaits⟩
    · rw [Function.update_of_ne hne] at hu
      exact absurd hu (hno u v)
  · intro u v hu
    have hle := hwaits u v hu
    exact ⟨by omega, fun _ => by omega⟩
  · intro u v hu
    rcases eq_or_ne u t with rfl | hne
    · rw [Function.update_self] at hu
      exact nomatch hu
    · rw [Function.update_of_ne hne] at hu
      exact ⟨(h.asleep u v hu).1, t, .inr (by rw [Function.update_self]; trivial)⟩
  · intro u v next' hu
    rcases eq_or_ne u t with rfl | hne
    · rw [Function.update_self] at hu
      exact nomatch hu
    · rw [Function.update_of_ne hne] at hu
      exact absurd (by rw [hu]; rfl) (hno u v)

omit [DecidableEq ι] in
/-- Nobody sleeps where a notification skips its wake: a sleeper has updated the counter since the
last notification, and fewer than 2^32 threads have. -/
theorem Counted.skipped {v : Nat} {next : Pc} (h : Counted counter last pc) {u : ι}
    (hu : pc u = .futexWake v next) (hsame : sameWord last v) (t : ι) (w : Nat) :
    pc t ≠ .asleep w := by
  intro ht
  obtain ⟨-, h2, h3, h4⟩ := h.notifies u v (by rw [hu]; rfl)
  have hle := h4 t w (Pc.waitsOn_asleep ht)
  have hlt := (h.asleep t w ht).1
  simp only [sameWord] at hsame
  omega

/-- The wake of `notifyAllImpl`, or what skips it. -/
theorem Counted.wake {v : Nat} {next : Pc} (h : Counted counter last pc)
    (ht : pc t = .futexWake v next) :
    Counted counter last (Function.update (if sameWord last v then pc
      else fun u => (pc u).wake) t (.setLast v next)) := by
  obtain ⟨h1, h2, h3, h4⟩ := h.notifies t v (by rw [ht]; rfl)
  generalize hq : (if sameWord last v then pc else fun u => (pc u).wake) = q
  have hquiet (u : ι) (w : Nat) : q u ≠ .asleep w := by
    rw [← hq]
    split
    · next hsame => exact h.skipped ht hsame u w
    · exact (pc u).wake_ne_asleep w
  have hwaits (u : ι) (w : Nat) (hu : (q u).WaitsOn w) : w ≤ v := by
    rw [← hq] at hu
    split at hu
    · exact h4 u w hu
    · exact h4 u w (Pc.waitsOn_wake hu)
  have hnotifies (u : ι) (w : Nat) (hu : (q u).Notifies w) : w = v := by
    have hold : (pc u).Notifies w := by
      rw [← hq] at hu
      split at hu
      · exact hu
      · exact Pc.notifies_wake hu
    have := (h.notifies u w hold).1
    omega
  have hwaits' (u : ι) (w : Nat)
      (hu : (Function.update q t (.setLast v next) u).WaitsOn w) : w ≤ v := by
    rcases eq_or_ne u t with rfl | hne
    · rw [Function.update_self] at hu
      exact absurd hu id
    · rw [Function.update_of_ne hne] at hu
      exact hwaits u w hu
  have hquiet' : ∀ u w, Function.update q t (.setLast v next) u ≠ .asleep w :=
    (Function.forall_update_iff q fun _ p => ∀ w, p ≠ .asleep w).mpr
      ⟨fun _ => nofun, fun u _ => hquiet u⟩
  refine ⟨?_, ?_, ?_, fun u w hu => absurd hu (hquiet' u w), fun _ _ _ _ => hquiet'⟩
  · intro hn
    exact absurd (by rw [Function.update_self]; rfl) (hn t v)
  · intro u w hu
    have hw : w = v := by
      rcases eq_or_ne u t with rfl | hne
      · rw [Function.update_self] at hu
        exact hu.symm
      · rw [Function.update_of_ne hne] at hu
        exact hnotifies u w hu
    rw [hw]
    exact ⟨h1, h2, h3, hwaits'⟩
  · intro u w hu
    have hle := hwaits' u w hu
    exact ⟨by omega, fun _ => by omega⟩

/-- The last line of `notifyAllImpl`. -/
theorem Counted.setLast {v : Nat} {next : Pc} (h : Counted counter last pc) (hl : Locked owner pc)
    (ht : pc t = .setLast v next) :
    Counted counter (v + 1) (Function.update pc t next) := by
  have hs := hl.nested t
  rw [ht] at hs
  obtain ⟨hheld, hplain, -, hnext, -⟩ := hs
  obtain ⟨h1, h2, h3, h4⟩ := h.notifies t v (by rw [ht]; rfl)
  have hno : ∀ u w, ¬ (Function.update pc t next u).Notifies w := by
    refine (Function.forall_update_iff pc fun _ p => ∀ w, ¬ p.Notifies w).mpr ⟨?_, ?_⟩
    · intro w hw
      cases next <;> first | exact hplain | exact hw
    · intro u hne w hu
      exact hne (hl.exclusive (hu.holds (hl.nested u)) (by rw [ht]; exact hheld))
  have hquiet : ∀ u w, Function.update pc t next u ≠ .asleep w := by
    refine (Function.forall_update_iff pc fun _ p => ∀ w, p ≠ .asleep w).mpr ⟨?_, ?_⟩
    · rintro w rfl
      exact hplain
    · exact fun u _ => h.notified t v next ht u
  refine ⟨fun _ => ⟨by omega, by omega⟩, fun u w hu => absurd hu (hno u w), ?_,
    fun u w hu => absurd hu (hquiet u w), fun _ _ _ _ => hquiet⟩
  intro u w hu
  have hle : w ≤ v := by
    rcases eq_or_ne u t with rfl | hne
    · rw [Function.update_self] at hu
      exact absurd hu (hnext w)
    · rw [Function.update_of_ne hne] at hu
      exact h4 u w hu
  exact ⟨by omega, fun _ => by omega⟩

theorem Calm.of_plain {p p' : Pc} (hp : p.Plain ∨ ∃ v, p = .asleep v)
    (hp' : p'.Plain ∨ (∃ next, p' = .notifyAll next) ∨ p' = .wait)
    (hpop : p.Populates → p'.Populates) (hw : ∀ v, p'.WaitsOn v → p.WaitsOn v) : Calm p p' := by
  refine ⟨?_, ?_, ?_, hw, ?_⟩
  · rintro v rfl
    simp at hp'
  · intro v hv
    rcases hp' with hp' | ⟨_, rfl⟩ | rfl
    · cases p' <;> first | exact hp' | exact hv
    · exact hv
    · exact hv
  · intro v hv
    rcases hp with hp | ⟨_, rfl⟩
    · cases p <;> first | exact hp | exact hv
    · exact hv
  · rintro (h | h)
    · exact .inl (hpop h)
    · rcases hp with hp | ⟨_, rfl⟩
      · cases p <;> first | exact absurd hp id | exact absurd h id
      · exact absurd h id

theorem Counted.moves {r r' : Region} {p' : Pc} (h : Counted r.counter r.lastNotifyAll pc)
    (hl : Locked owner pc) (hf : Flagged r.isPopulatingFreeList pc)
    (hm : Moves r (pc t) r' p')
    (hfew : pc t = .wait → r.counter + 1 < r.lastNotifyAll + 2^32)
    (hprompt : ∀ v, pc t = .futexWait v → p' = .asleep v → r.counter < v + 2^32) :
    Counted r'.counter r'.lastNotifyAll (Function.update pc t p') := by
  generalize hp : pc t = p at hm
  cases hm with
  | plain hr hlast _ hp1 hp2 hpop hw hs hh =>
    rw [hr, hlast]
    refine h.calm (hp ▸ .of_plain hp1 (hp2.imp_right (Or.imp_right And.left)) hpop.mpr hw)
  | setFlag _ =>
    exact h.calm (hp ▸ .of_plain (.inl trivial) (.inl trivial) (fun h => absurd h id) fun _ => id)
  | clearFlag =>
    refine h.calm (hp ▸ ⟨fun _ => nofun, fun _ => id, fun _ => id, fun _ => id, ?_⟩)
    exact fun _ => .inr trivial
  | wait => exact h.wait hl hp (hf.set_iff.mp (hf.wait t hp)) (hfew hp)
  | sleep hv => exact h.sleep hp hv (hprompt _ hp rfl)
  | notifyAll => exact h.notifyAll hl hp
  | setLast => exact h.setLast hl hp

end Counter

variable {ι : Type*} [DecidableEq ι] {s s' : System ι}

structure Inv (s : System ι) : Prop where
  locked : Locked s.owner s.pc
  flagged : Flagged s.region.isPopulatingFreeList s.pc
  counted : Counted s.region.counter s.region.lastNotifyAll s.pc

omit [DecidableEq ι] in
theorem System.Init.inv (h : s.Init) : Inv s := by
  have hpc : s.pc = fun _ => .idle := funext h.pc
  refine ⟨?_, ?_, ?_⟩
  · rw [hpc]
    exact ⟨fun _ => trivial, fun l t => by simp [h.owner l]⟩
  · rw [hpc, h.flag]
    exact ⟨iff_of_false (by decide) nofun, fun _ _ h => absurd h id, fun _ => nofun⟩
  · rw [hpc, h.counter, h.lastNotifyAll]
    exact ⟨fun _ => ⟨Nat.le_refl _, by decide⟩, fun _ _ h => absurd h id, fun _ _ h => absurd h id,
      fun _ _ => nofun, fun _ _ _ => nofun⟩

theorem Inv.step {a : Act ι} (hi : Inv s) (hfew : s.FewWaits a) (hprompt : s.Prompt a)
    (h : s.step a = some s') : Inv s' := by
  obtain ⟨hl, hf, hc⟩ := hi
  rcases System.step_cases h with ⟨t, r', p', hm, hwait, hsleep, rfl⟩ | ⟨t, l, next, ht, hfree, rfl⟩ |
    ⟨t, l, next, ht, rfl⟩ | ⟨t, v, next, ht, rfl⟩
  · obtain ⟨hs, hh⟩ := hm.nested (hl.nested t)
    refine ⟨hl.update hs hh, hf.moves hl hm, hc.moves hl hf hm ?_ ?_⟩
    · intro ht
      obtain ⟨c, rfl⟩ := hwait ht
      exact hfew ht
    · intro v ht hp'
      obtain ⟨c, rfl⟩ := hsleep v ht hp'
      exact hprompt v ht
  · have hs := hl.nested t
    rw [ht] at hs
    refine ⟨hl.lock ht hfree, hf.update (by simp [ht]) ?_, hc.calm (ht ▸ ?_)⟩
    · rintro rfl
      exact absurd hs.2.1 id
    · exact .of_plain (.inl trivial) (.inl hs.2.1) id fun _ => id
  · have hs := hl.nested t
    rw [ht] at hs
    refine ⟨hl.unlock ht, hf.update (by simp [ht]) ?_, hc.calm (ht ▸ ?_)⟩
    · rintro rfl
      exact absurd hs.2.1 id
    · exact .of_plain (.inl trivial) (.inl hs.2.1) id fun _ => id
  · have hs := hl.nested t
    rw [ht] at hs
    have hcounted := hc.wake ht
    have hq : Locked s.owner (if sameWord s.region.lastNotifyAll v then s.pc
          else fun u => (s.pc u).wake) ∧
        Flagged s.region.isPopulatingFreeList (if sameWord s.region.lastNotifyAll v then s.pc
          else fun u => (s.pc u).wake) ∧
        (if sameWord s.region.lastNotifyAll v then s.pc
          else fun u => (s.pc u).wake) t = .futexWake v next := by
      split
      · exact ⟨hl, hf, ht⟩
      · exact ⟨hl.wake, hf.wake, congrArg Pc.wake ht⟩
    obtain ⟨hlocked, hflagged, hqt⟩ := hq
    refine ⟨hlocked.update hs ?_, hflagged.update ?_ nofun, hcounted⟩
    · rw [hqt]
      exact fun _ => Iff.rfl
    · rw [hqt]
      exact Iff.rfl

theorem System.Reachable.inv (h : s.Reachable fun s a => s.FewWaits a ∧ s.Prompt a) : Inv s := by
  have hinit (s : System ι) (h0 : s.Init) : Inv s := h0.inv
  refine TransitionSystem.Reachable.invariant hinit ?_ h
  exact fun _ _ _ hi hok hs => hi.step hok.1 hok.2 hs

omit [DecidableEq ι] in
theorem Inv.noLostWaiter (hi : Inv s) : NoLostWaiter s := by
  obtain ⟨-, hf, hc⟩ := hi
  have hwaiters (t : ι) (v : Nat) (ht : s.pc t = .asleep v) :
      ∃ u, (s.pc u).Populates ∨ (s.pc u).WillWake s.region.lastNotifyAll := by
    obtain ⟨-, u, hu⟩ := hc.asleep t v ht
    refine ⟨u, hu.imp_right fun hw => ?_⟩
    cases hp : s.pc u with
    | notifyAll next => trivial
    | futexWake w next => exact fun hsame => hc.skipped hp hsame t v ht
    | _ => rw [hp] at hw; exact absurd hw id
  refine ⟨hf.one, hwaiters, fun u v next hu hsame => hc.skipped hu hsame, hc.notified, ?_⟩
  intro hno t v ht
  obtain ⟨u, hu⟩ := hwaiters t v ht
  exact hu.elim (hno u).1 (hno u).2

/-- Where fewer than 2^32 threads wait between two notifications, and the counter does not come
round between the update of a waiter and its system call, no waiter of a refill is forgotten. -/
theorem noLostWaiter_of_reachable (h : s.Reachable fun s a => s.FewWaits a ∧ s.Prompt a) :
    NoLostWaiter s :=
  h.inv.noLostWaiter

/-- The first thread populates the freelist, the second one sleeps. -/
def sleepActs : List (Act Nat) :=
  .call 0 .popBlocks :: List.replicate 6 (.run 0 ⟨1, 1, true, false⟩) ++
    .call 1 .popBlocks :: List.replicate 11 (.run 1 ⟨1, 1, true, false⟩)

/-- Nothing has been allocated yet. -/
def initial : System Nat := ⟨⟨0, false, false, 0, 0⟩, fun _ => none, fun _ => .idle⟩

theorem initial_init : initial.Init := ⟨rfl, rfl, rfl, fun _ => rfl, fun _ => rfl⟩

/-- A step with a counter that has not come round. -/
def System.earlyStep (s : System ι) (a : Act ι) : Option (System ι) :=
  if s.region.counter + 1 < 2^32 then s.step a else none

theorem System.earlyStep_spec {a : Act ι} (h : s.earlyStep a = some s') :
    (s.FewWaits a ∧ s.Prompt a) ∧ s.step a = some s' := by
  simp only [System.earlyStep] at h
  split at h
  · refine ⟨⟨?_, ?_⟩, h⟩
    · cases a <;> first | trivial | exact fun _ => by omega
    · cases a <;> first | trivial | exact fun v _ => by omega
  · exact nomatch h

theorem noLostWaiter_asleep :
    ∃ s : System Nat, s.pc 0 = .lock .mm .populate ∧ s.pc 1 = .asleep 1 ∧ NoLostWaiter s := by
  have hrun : ∃ s, TransitionSystem.run System.earlyStep initial sleepActs = some s ∧
      s.pc 0 = .lock .mm .populate ∧ s.pc 1 = .asleep 1 := ⟨_, rfl, rfl, rfl⟩
  obtain ⟨s, hs, h0, h1⟩ := hrun
  exact ⟨s, h0, h1, noLostWaiter_of_reachable
    (TransitionSystem.Reachable.run_of_imp (.start initial_init) (fun _ _ _ => System.earlyStep_spec) hs)⟩

section Sections

variable {r r' : Region} {owner : Lock → Option ι} {base : ι → Pc} {t : ι} {p q : Pc}

/-- The states of runs with fewer than 2^32 waits between two notifications. -/
abbrev FewWaits (r : Region) (owner : Lock → Option ι) (pc : ι → Pc) : Prop :=
  System.Reachable System.FewWaits (⟨r, owner, pc⟩ : System ι)

theorem FewWaits.call (h : FewWaits r owner (Function.update base t .idle)) (c : Call) :
    FewWaits r owner (Function.update base t c.entry) := by
  refine .next h (a := .call t c) trivial ?_
  simp [System.step]

theorem FewWaits.lock {l : Lock} (h : FewWaits r owner (Function.update base t (.lock l p)))
    (hfree : owner l = none) :
    FewWaits r (Function.update owner l (some t)) (Function.update base t p) := by
  refine .next h (a := .run t ⟨0, 0, false, false⟩) ?_ ?_
  · exact fun ht => by simp at ht
  · simp [System.step, hfree]

theorem FewWaits.unlock {l : Lock} (h : FewWaits r owner (Function.update base t (.unlock l p))) :
    FewWaits r (Function.update owner l none) (Function.update base t p) := by
  refine .next h (a := .run t ⟨0, 0, false, false⟩) ?_ ?_
  · exact fun ht => by simp at ht
  · simp [System.step]

theorem FewWaits.step (c : Choice) (h : FewWaits r owner (Function.update base t p))
    (hm : move c r p = some (r', q)) (hw : p = .wait → r.counter + 1 < r.lastNotifyAll + 2^32) :
    FewWaits r' owner (Function.update base t q) := by
  refine .next h (a := .run t c) ?_ ?_
  · exact fun ht => hw (by simpa using ht)
  · cases p with
    | idle => exact nomatch hm
    | lock l next => exact nomatch hm
    | unlock l next => exact nomatch hm
    | futexWake v next => exact nomatch hm
    | asleep v => exact nomatch hm
    | _ => simp [System.step, hm]

theorem FewWaits.futexWake {v : Nat} (h : FewWaits r owner (Function.update base t (.futexWake v p)))
    (hno : ∀ u w, base u ≠ .asleep w) :
    FewWaits r owner (Function.update base t (.setLast v p)) := by
  have hwake : (fun u => (Function.update base t (.futexWake v p) u).wake) =
      Function.update base t (.futexWake v p) := by
    funext u
    rcases eq_or_ne u t with rfl | hu
    · rw [Function.update_self]
      rfl
    · rw [Function.update_of_ne hu]
      rcases (base u).wake_cases with ⟨w, hw, -⟩ | hw
      · exact absurd hw (hno u w)
      · exact hw
  refine .next h (a := .run t ⟨0, 0, false, false⟩) ?_ ?_
  · exact fun ht => by simp at ht
  · simp [System.step, hwake]

/-- A section under `FLLock`. -/
theorem FewWaits.locked (c : Choice) (h : FewWaits r owner (Function.update base t (.lock .fl p)))
    (hfree : owner .fl = none) (hm : move c r p = some (r', .unlock .fl q)) (hw : p ≠ .wait) :
    FewWaits r' owner (Function.update base t q) := by
  have h' := ((h.lock hfree).step c hm fun hp => absurd hp hw).unlock
  rwa [Function.update_idem, ← hfree, Function.update_eq_self] at h'

/-- A section under `FLLock` that ends with a notification. -/
theorem FewWaits.notified (c : Choice) (h : FewWaits r owner (Function.update base t (.lock .fl p)))
    (hfree : owner .fl = none) (hm : move c r p = some (r', .notifyAll (.unlock .fl q)))
    (hw : p ≠ .wait) (hno : ∀ u w, base u ≠ .asleep w) :
    FewWaits { r' with counter := r'.counter + 1, lastNotifyAll := r'.counter + 1 } owner
      (Function.update base t q) := by
  have h1 := (h.lock hfree).step c hm fun hp => absurd hp hw
  have h2 := (h1.step c rfl nofun).futexWake hno
  have h3 := (h2.step c rfl nofun).unlock
  rwa [Function.update_idem, ← hfree, Function.update_eq_self] at h3

end Sections

/-- Thread 0 is about to populate the freelist, and thread 1 has updated the counter to 2 and is
about to sleep. -/
def aboutToSleep : Nat → Pc :=
  Function.update (Function.update (fun _ => .idle) 0 (.lock .mm .populate)) 1 (.futexWait 2)

theorem aboutToSleep_idle : Function.update aboutToSleep 2 .idle = aboutToSleep :=
  Function.update_eq_self 2 aboutToSleep

theorem aboutToSleep_awake (u w : Nat) : aboutToSleep u ≠ .asleep w := by
  simp only [aboutToSleep, Function.update_apply]
  split
  · exact nofun
  · split <;> exact nofun

/-- A block given back and taken again is one more notification. -/
theorem aboutToSleep_round {c last : Nat} {owner : Lock → Option Nat} (hfree : owner .fl = none)
    (h : FewWaits ⟨0, true, false, c, last⟩ owner aboutToSleep) :
    FewWaits ⟨0, true, false, c+1, c+1⟩ owner aboutToSleep := by
  rw [← aboutToSleep_idle] at h
  have h1 := (h.call .pushBlocks).notified ⟨1, 1, false, false⟩ hfree rfl nofun aboutToSleep_awake
  have h2 := (h1.call .popBlocks).locked ⟨1, 1, false, false⟩ hfree rfl nofun
  rwa [aboutToSleep_idle] at h2

theorem aboutToSleep_rounds (n : Nat) {c : Nat} {owner : Lock → Option Nat}
    (hfree : owner .fl = none) (h : FewWaits ⟨0, true, false, c, c⟩ owner aboutToSleep) :
    FewWaits ⟨0, true, false, c+n, c+n⟩ owner aboutToSleep := by
  induction n with
  | zero => exact h
  | succ n ih => exact aboutToSleep_round hfree ih

/-- The pages of one block are mapped; or the region is used up. -/
def oneBlock (mapped : Bool) : Choice :=
  { popCount := 1, blocks := 1, mapped, exhausted := true }

def allFree : Lock → Option Nat := fun _ => none

theorem allFree_update (l : Lock) (o : Option Nat) :
    Function.update (Function.update allFree l o) l none = allFree := by
  rw [Function.update_idem]
  exact Function.update_eq_self l allFree

/-- Thread 2 takes the first block. -/
theorem firstBlock_reached : FewWaits ⟨0, false, false, 1, 1⟩ allFree fun _ : Nat => .idle := by
  have hidle : (fun _ : Nat => Pc.idle) = Function.update (fun _ => .idle) 2 .idle :=
    (Function.update_eq_self 2 fun _ : Nat => Pc.idle).symm
  have h0 : FewWaits ⟨0, false, false, 0, 0⟩ allFree (Function.update (fun _ : Nat => .idle) 2 .idle) := by
    rw [← hidle]
    exact .start initial_init
  have h1 := (h0.call .popBlocks).locked (oneBlock true) rfl rfl nofun
  have h2 := h1.locked (oneBlock true) rfl rfl nofun
  have h3 := (h2.lock rfl).step (oneBlock true) rfl nofun
  have h4 := h3.locked (oneBlock true) rfl rfl nofun
  have h5 := (h4.notified (oneBlock true) rfl rfl nofun fun _ _ => nofun).unlock
  rwa [allFree_update, ← hidle] at h5

theorem aboutToSleep_reached : FewWaits ⟨0, true, false, 2, 1⟩ allFree aboutToSleep := by
  have h0 := firstBlock_reached
  rw [← Function.update_eq_self 0 fun _ : Nat => Pc.idle] at h0
  have h1 := (h0.call .popBlocks).locked (oneBlock true) rfl rfl nofun
  have h2 := h1.locked (oneBlock true) rfl rfl nofun
  rw [← Function.update_eq_self 1 (Function.update (fun _ => Pc.idle) 0 (.lock .mm .populate))] at h2
  have h3 := (h2.call .popBlocks).locked (oneBlock true) rfl rfl nofun
  have h4 := h3.locked (oneBlock true) rfl rfl nofun
  have h5 := (h4.lock rfl).step (oneBlock true) rfl nofun
  have h6 := (h5.step (oneBlock true) rfl fun _ => by decide).unlock
  rwa [allFree_update] at h6

/-- While thread 1 is about to sleep, the counter may come round to its update: it then sleeps
though nobody populates the freelist. -/
theorem waiter_lost : ∃ s : System Nat, s.Reachable System.FewWaits ∧ ¬ NoLostWaiter s := by
  have h0 := aboutToSleep_rounds (2^32-2) rfl (aboutToSleep_round rfl aboutToSleep_reached)
  rw [← Function.update_eq_self 0 aboutToSleep] at h0
  have h1 := (h0.lock rfl).step (oneBlock false) rfl (by simp)
  have h2 := (h1.notified (oneBlock false) rfl rfl (by simp) aboutToSleep_awake).unlock
  rw [allFree_update, ← Function.update_eq_self 1 (Function.update aboutToSleep 0 .idle)] at h2
  have h3 : FewWaits ⟨0, false, true, 2^32+2, 2^32+2⟩ allFree
    (Function.update (Function.update aboutToSleep 0 .idle) 1 (.futexWait 2)) := h2
  have hsleep : move (oneBlock false) ⟨0, false, true, 2^32+2, 2^32+2⟩ (.futexWait 2) =
      some (⟨0, false, true, 2^32+2, 2^32+2⟩, .asleep 2) := by
    simp [move, sameWord]
  refine ⟨_, h3.step (oneBlock false) hsleep (by simp), fun hw => ?_⟩
  refine hw.finished (fun u => ?_) 1 2 rfl
  rcases eq_or_ne u 1 with rfl | h1
  · simp [Pc.WillWake]
  · rcases eq_or_ne u 0 with rfl | h0
    · simp [Pc.WillWake]
    · simp [Pc.WillWake, aboutToSleep, h0, h1]

end ScudoMte.Primary.Refill
