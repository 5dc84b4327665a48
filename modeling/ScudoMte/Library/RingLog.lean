import Mathlib.Data.List.Basic

namespace ScudoMte.RingLog

variable {α : Type*} {blank : α} {ring log : List α}

/-- `ring` is what is left of the words of `log`, written one after the other into a ring of
blank cells: the last lap of the log, and blanks where nothing has been written yet. -/
structure Logs (blank : α) (ring log : List α) : Prop where
  recent : ∀ i, i < log.length → log.length ≤ i + ring.length →
    ring[i % ring.length]? = log[i]?
  fresh : ∀ x, log.length ≤ x → x < ring.length → ring[x]? = some blank

theorem Logs.empty (blank : α) (n : Nat) : Logs blank (List.replicate n blank) [] where
  recent i hi := absurd hi (Nat.not_lt_zero i)
  fresh x _ hx := by
    rw [List.length_replicate] at hx
    rw [List.getElem?_replicate, if_pos hx]

/-- Positions less than one lap apart are different cells. -/
theorem mod_ne {i j n : Nat} (hij : i < j) (hji : j < i + n) : i % n ≠ j % n := by
  intro he
  have hd : n ∣ j - i := Nat.dvd_of_mod_eq_zero (Nat.sub_mod_eq_zero_of_mod_eq he.symm)
  have hle := Nat.le_of_dvd (by omega) hd
  omega

/-- The next word goes into the cell behind the last one. -/
theorem Logs.push (h : Logs blank ring log) (hpos : 0 < ring.length) (w : α) :
    Logs blank (ring.set (log.length % ring.length) w) (log ++ [w]) where
  recent i hi hle := by
    rw [List.length_append, List.length_singleton] at hi hle
    rw [List.length_set] at hle ⊢
    rcases Nat.lt_or_eq_of_le (Nat.lt_succ_iff.mp hi) with hlt | rfl
    · rw [List.getElem?_set_ne (mod_ne hlt (by omega)).symm, List.getElem?_append_left hlt]
      exact h.recent i hlt (by omega)
    · rw [List.getElem?_set_self (Nat.mod_lt _ hpos), List.getElem?_append_right (Nat.le_refl _),
        Nat.sub_self, List.getElem?_cons_zero]
  fresh x hle hx := by
    rw [List.length_append, List.length_singleton] at hle
    rw [List.length_set] at hx
    rw [Nat.mod_eq_of_lt (by omega), List.getElem?_set_ne (by omega)]
    exact h.fresh x (by omega) hx

/-- Where a cell got its word from. -/
theorem Logs.source (h : Logs blank ring log) {x : Nat} (hx : x < ring.length) :
    ring[x]? = some blank ∨ ∃ i, i < log.length ∧ log.length ≤ i + ring.length ∧
      i % ring.length = x ∧ ring[x]? = log[i]? := by
  rcases Nat.lt_or_ge x log.length with hlt | hge
  · -- the last index of the log that is congruent to `x`
    have hmod := Nat.mod_lt (log.length - 1 - x) (show 0 < ring.length by omega)
    have hdiv := Nat.div_add_mod (log.length - 1 - x) ring.length
    have hi : (x + ring.length * ((log.length - 1 - x) / ring.length)) % ring.length = x := by
      rw [Nat.add_mul_mod_self_left, Nat.mod_eq_of_lt hx]
    refine .inr ⟨x + ring.length * ((log.length - 1 - x) / ring.length), by omega, by omega, hi, ?_⟩
    have hrec := h.recent (x + ring.length * ((log.length - 1 - x) / ring.length)) (by omega)
      (by omega)
    rwa [hi] at hrec
  · exact .inl (h.fresh x hge hx)

end ScudoMte.RingLog
