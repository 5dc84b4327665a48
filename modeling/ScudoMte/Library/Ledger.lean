import Mathlib.Logic.Function.Basic

namespace ScudoMte.Ledger

/-- What an agent has in hand: nothing, an entry that it took over as recorded, or an entry that is
live and not recorded. -/
inductive Claim (κ ν : Type*)
  | nothing
  | holds (p : κ)
  | unreported (p : κ) (n : ν)

variable {κ ν τ : Type*}

def Claim.key : Claim κ ν → Option κ
  | nothing => none
  | holds p => some p
  | unreported p _ => some p

/-- Records mirror the live entries up to those that agents have in hand; the other recorded ones may
be free for the taking. -/
structure Mirrors (recorded live : κ → Option ν) (held : κ → Bool) (claim : τ → Claim κ ν) : Prop where
  sound : ∀ p n, recorded p = some n → live p = some n
  complete : ∀ p n, live p = some n → recorded p = some n ∨ ∃ t, claim t = .unreported p n
  unreported : ∀ t p n, claim t = .unreported p n → live p = some n ∧ recorded p = none
  recorded_held : ∀ p, held p = true → (recorded p).isSome
  holds : ∀ t p, claim t = .holds p → (recorded p).isSome ∧ held p = false
  distinct : ∀ t u p, (claim t).key = some p → (claim u).key = some p → t = u

variable {recorded live : κ → Option ν} {held : κ → Bool} {claim : τ → Claim κ ν} {t : τ} {p : κ} {n : ν}

theorem Claim.key_cases {c : Claim κ ν} (h : c.key = some p) :
    c = .holds p ∨ ∃ n, c = .unreported p n := by
  cases c with
  | nothing => exact nomatch h
  | holds q => exact .inl (congrArg _ (Option.some.inj h))
  | unreported q n => exact .inr ⟨n, congrArg (Claim.unreported · n) (Option.some.inj h)⟩

/-- An entry that an agent has in hand is live. -/
theorem Mirrors.live_of_key (h : Mirrors recorded live held claim) (hk : (claim t).key = some p) :
    (live p).isSome := by
  rcases Claim.key_cases hk with hc | ⟨n, hc⟩
  · obtain ⟨n, hn⟩ := Option.isSome_iff_exists.mp (h.holds t p hc).1
    rw [h.sound p n hn]
    rfl
  · rw [(h.unreported t p n hc).1]
    rfl

/-- Nobody has an entry in hand that is free for the taking. -/
theorem Mirrors.key_ne_of_held (h : Mirrors recorded live held claim) (hp : held p = true) :
    (claim t).key ≠ some p := by
  intro hk
  rcases Claim.key_cases hk with hc | ⟨n, hc⟩
  · exact absurd hp (by simp [(h.holds t p hc).2])
  · exact absurd (h.recorded_held p hp) (by simp [(h.unreported t p n hc).2])

/-- With no agent at work the records are the live entries. -/
theorem Mirrors.eq_live (h : Mirrors recorded live held claim) (hidle : ∀ t, claim t = .nothing) :
    recorded = live := by
  funext p
  cases hp : live p with
  | none =>
    cases hr : recorded p with
    | none => rfl
    | some n => exact absurd (h.sound p n hr) (by simp [hp])
  | some n =>
    rcases h.complete p n hp with hr | ⟨t, ht⟩
    · exact hr
    · exact absurd ht (by simp [hidle t])

section Update

variable [DecidableEq τ]

open Function

theorem distinct_update {c : Claim κ ν}
    (h : ∀ t u p, (claim t).key = some p → (claim u).key = some p → t = u)
    (hc : ∀ u p, u ≠ t → c.key = some p → (claim u).key ≠ some p) :
    ∀ u v p, (update claim t c u).key = some p → (update claim t c v).key = some p → u = v := by
  intro u v p hu hv
  by_cases hut : u = t <;> by_cases hvt : v = t
  · rw [hut, hvt]
  · subst hut
    rw [update_self] at hu
    rw [update_of_ne hvt] at hv
    exact absurd hv (hc v p hvt hu)
  · subst hvt
    rw [update_self] at hv
    rw [update_of_ne hut] at hu
    exact absurd hu (hc u p hut hv)
  · rw [update_of_ne hut] at hu
    rw [update_of_ne hvt] at hv
    exact h u v p hu hv

/-- An agent may go on with the same entry in hand. -/
theorem Mirrors.same_key (h : Mirrors recorded live held claim) {c : Claim κ ν}
    (hc : c.key = (claim t).key) :
    ∀ u v p, (update claim t c u).key = some p → (update claim t c v).key = some p → u = v :=
  distinct_update h.distinct fun u p hne hk hu => hne (h.distinct u t p hu (hc ▸ hk))

variable [DecidableEq κ]

/-- An agent takes an entry over. -/
theorem Mirrors.take (h : Mirrors recorded live held claim) (hc : claim t = .nothing)
    (hp : held p = true) :
    Mirrors recorded live (update held p false) (update claim t (.holds p)) where
  sound := h.sound
  complete q m hq := by
    rcases h.complete q m hq with hr | ⟨u, hu⟩
    · exact .inl hr
    · exact .inr ⟨u, by rw [update_of_ne (by rintro rfl; simp [hc] at hu), hu]⟩
  unreported u q m hu := by
    by_cases hut : u = t
    · simp [hut] at hu
    · exact h.unreported u q m (by rwa [update_of_ne hut] at hu)
  recorded_held q hq := by
    by_cases hqp : q = p
    · simp [hqp] at hq
    · exact h.recorded_held q (by rwa [update_of_ne hqp] at hq)
  holds u q hu := by
    by_cases hut : u = t
    · subst hut
      obtain rfl : p = q := by simpa using hu
      exact ⟨h.recorded_held p hp, update_self ..⟩
    · rw [update_of_ne hut] at hu
      obtain ⟨hr, hq⟩ := h.holds u q hu
      refine ⟨hr, ?_⟩
      by_cases hqp : q = p
      · rw [hqp, update_self]
      · rwa [update_of_ne hqp]
  distinct := by
    refine distinct_update h.distinct fun u q _ hk => ?_
    rw [← Option.some.inj hk]
    exact h.key_ne_of_held hp

/-- An agent gives an entry back. -/
theorem Mirrors.giveBack (h : Mirrors recorded live held claim) (hc : claim t = .holds p) :
    Mirrors recorded live (update held p true) (update claim t .nothing) where
  sound := h.sound
  complete q m hq := by
    rcases h.complete q m hq with hr | ⟨u, hu⟩
    · exact .inl hr
    · exact .inr ⟨u, by rw [update_of_ne (by rintro rfl; simp [hc] at hu), hu]⟩
  unreported u q m hu := by
    by_cases hut : u = t
    · simp [hut] at hu
    · exact h.unreported u q m (by rwa [update_of_ne hut] at hu)
  recorded_held q hq := by
    by_cases hqp : q = p
    · rw [hqp]
      exact (h.holds t p hc).1
    · exact h.recorded_held q (by rwa [update_of_ne hqp] at hq)
  holds u q hu := by
    by_cases hut : u = t
    · simp [hut] at hu
    · rw [update_of_ne hut] at hu
      obtain ⟨hr, hq⟩ := h.holds u q hu
      refine ⟨hr, ?_⟩
      have hqp : q ≠ p := by
        rintro rfl
        exact hut (h.distinct u t q (by rw [hu]; rfl) (by rw [hc]; rfl))
      rwa [update_of_ne hqp]
  distinct := distinct_update h.distinct fun _ _ _ hk => nomatch hk

/-- An entry is taken out of the records. -/
theorem Mirrors.retract (h : Mirrors recorded live held claim) (hc : claim t = .holds p)
    (hp : recorded p = some n) :
    Mirrors (update recorded p none) live held (update claim t (.unreported p n)) where
  sound q m hq := by
    by_cases hqp : q = p
    · simp [hqp] at hq
    · exact h.sound q m (by rwa [update_of_ne hqp] at hq)
  complete q m hq := by
    by_cases hqp : q = p
    · subst hqp
      refine .inr ⟨t, ?_⟩
      rw [update_self, ← Option.some.inj ((h.sound q n hp).symm.trans hq)]
    · rw [update_of_ne hqp]
      rcases h.complete q m hq with hr | ⟨u, hu⟩
      · exact .inl hr
      · exact .inr ⟨u, by rw [update_of_ne (by rintro rfl; simp [hc] at hu), hu]⟩
  unreported u q m hu := by
    by_cases hut : u = t
    · subst hut
      obtain ⟨rfl, rfl⟩ : p = q ∧ n = m := by simpa using hu
      exact ⟨h.sound p n hp, update_self ..⟩
    · rw [update_of_ne hut] at hu
      obtain ⟨hl, hr⟩ := h.unreported u q m hu
      refine ⟨hl, ?_⟩
      by_cases hqp : q = p
      · rw [hqp, update_self]
      · rwa [update_of_ne hqp]
  recorded_held q hq := by
    have hqp : q ≠ p := by
      rintro rfl
      simp [(h.holds t q hc).2] at hq
    rw [update_of_ne hqp]
    exact h.recorded_held q hq
  holds u q hu := by
    by_cases hut : u = t
    · simp [hut] at hu
    · rw [update_of_ne hut] at hu
      rw [update_of_ne]
      · exact h.holds u q hu
      · rintro rfl
        exact hut (h.distinct u t q (by rw [hu]; rfl) (by rw [hc]; rfl))
  distinct := h.same_key (by rw [hc]; rfl)

/-- An entry is put into the records. -/
theorem Mirrors.record (h : Mirrors recorded live held claim) (hc : claim t = .unreported p n) :
    Mirrors (update recorded p (some n)) live held (update claim t (.holds p)) where
  sound q m hq := by
    by_cases hqp : q = p
    · subst hqp
      rw [update_self] at hq
      rw [(h.unreported t q n hc).1, hq]
    · exact h.sound q m (by rwa [update_of_ne hqp] at hq)
  complete q m hq := by
    by_cases hqp : q = p
    · subst hqp
      rw [update_self, ← (h.unreported t q n hc).1]
      exact .inl hq
    · rw [update_of_ne hqp]
      rcases h.complete q m hq with hr | ⟨u, hu⟩
      · exact .inl hr
      · refine .inr ⟨u, ?_⟩
        rw [update_of_ne, hu]
        rintro rfl
        simp [hc, Ne.symm hqp] at hu
  unreported u q m hu := by
    by_cases hut : u = t
    · simp [hut] at hu
    · rw [update_of_ne hut] at hu
      rw [update_of_ne]
      · exact h.unreported u q m hu
      · rintro rfl
        exact hut (h.distinct u t q (by rw [hu]; rfl) (by rw [hc]; rfl))
  recorded_held q hq := by
    by_cases hqp : q = p
    · rw [hqp, update_self]
      rfl
    · rw [update_of_ne hqp]
      exact h.recorded_held q hq
  holds u q hu := by
    by_cases hut : u = t
    · subst hut
      obtain rfl : p = q := by simpa using hu
      refine ⟨by rw [update_self]; rfl, ?_⟩
      rw [← Bool.not_eq_true]
      intro hp
      exact absurd (h.recorded_held p hp) (by simp [(h.unreported u p n hc).2])
    · rw [update_of_ne hut] at hu
      rw [update_of_ne]
      · exact h.holds u q hu
      · rintro rfl
        exact hut (h.distinct u t q (by rw [hu]; rfl) (by rw [hc]; rfl))
  distinct := h.same_key (by rw [hc]; rfl)

/-- An entry in hand ceases to be live. -/
theorem Mirrors.free (h : Mirrors recorded live held claim) (hc : claim t = .unreported p n) :
    Mirrors recorded (update live p none) held (update claim t .nothing) where
  sound q m hq := by
    rw [update_of_ne]
    · exact h.sound q m hq
    · rintro rfl
      simp [(h.unreported t q n hc).2] at hq
  complete q m hq := by
    by_cases hqp : q = p
    · simp [hqp] at hq
    · rw [update_of_ne hqp] at hq
      rcases h.complete q m hq with hr | ⟨u, hu⟩
      · exact .inl hr
      · refine .inr ⟨u, ?_⟩
        rw [update_of_ne, hu]
        rintro rfl
        simp [hc, Ne.symm hqp] at hu
  unreported u q m hu := by
    by_cases hut : u = t
    · simp [hut] at hu
    · rw [update_of_ne hut] at hu
      rw [update_of_ne]
      · exact h.unreported u q m hu
      · rintro rfl
        exact hut (h.distinct u t q (by rw [hu]; rfl) (by rw [hc]; rfl))
  recorded_held := h.recorded_held
  holds u q hu := by
    by_cases hut : u = t
    · simp [hut] at hu
    · exact h.holds u q (by rwa [update_of_ne hut] at hu)
  distinct := distinct_update h.distinct fun _ _ _ hk => nomatch hk

/-- A new entry is in the hand of the agent that made it. -/
theorem Mirrors.grant (h : Mirrors recorded live held claim) (hc : claim t = .nothing)
    (hp : live p = none) :
    Mirrors recorded (update live p (some n)) held (update claim t (.unreported p n)) where
  sound q m hq := by
    rw [update_of_ne]
    · exact h.sound q m hq
    · rintro rfl
      simp [h.sound q m hq] at hp
  complete q m hq := by
    by_cases hqp : q = p
    · subst hqp
      refine .inr ⟨t, ?_⟩
      rw [update_self] at hq
      rw [update_self, Option.some.inj hq]
    · rw [update_of_ne hqp] at hq
      rcases h.complete q m hq with hr | ⟨u, hu⟩
      · exact .inl hr
      · exact .inr ⟨u, by rw [update_of_ne (by rintro rfl; simp [hc] at hu), hu]⟩
  unreported u q m hu := by
    by_cases hut : u = t
    · subst hut
      obtain ⟨rfl, rfl⟩ : p = q ∧ n = m := by simpa using hu
      refine ⟨update_self .., ?_⟩
      cases hr : recorded p with
      | none => rfl
      | some m => exact absurd (h.sound p m hr) (by simp [hp])
    · rw [update_of_ne hut] at hu
      rw [update_of_ne]
      · exact h.unreported u q m hu
      · rintro rfl
        simp [(h.unreported u q m hu).1] at hp
  recorded_held := h.recorded_held
  holds u q hu := by
    by_cases hut : u = t
    · simp [hut] at hu
    · exact h.holds u q (by rwa [update_of_ne hut] at hu)
  distinct := by
    refine distinct_update h.distinct fun u q _ hk hu => ?_
    have hlive := h.live_of_key hu
    rw [← Option.some.inj hk] at hlive
    exact absurd hlive (by simp [hp])

end Update

end ScudoMte.Ledger
