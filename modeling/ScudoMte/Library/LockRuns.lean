import Mathlib.Data.Fintype.EquivFin
import ScudoMte.Library.LockOrder

namespace ScudoMte.LockOrder

variable {L τ : Type*} [DecidableEq L] {D : Discipline L} {c : Code L} {l : L}
  {k k' : List (Code L)} {held : List L} {owner owner' : L → Option τ} {t : τ} {n : Nat}
  {s s' : System L τ}

/-- The rest of a call, which ends with no lock held. -/
def Ends (D : Discipline L) : List (Code L) → List L → Prop
  | [], held => held = []
  | c :: k, held => c.Meets D held (Ends D k)

/-- The locks that a thread holds, and with which it may go on. -/
structure Standing (D : Discipline L) (owner : L → Option τ) (t : τ) (k : List (Code L))
    (held : List L) : Prop where
  nodup : held.Nodup
  owns : ∀ l, l ∈ held ↔ owner l = some t
  admits : D.admits held
  ends : Ends D k held

theorem Standing.congr (h : Standing D owner t k held)
    (howner : ∀ l, owner' l = some t ↔ owner l = some t) : Standing D owner' t k held :=
  ⟨h.nodup, fun l => (h.owns l).trans (howner l).symm, h.admits, h.ends⟩

theorem owner_lock (hfree : owner l = none) {u : τ} (hu : u ≠ t) (m : L) :
    Function.update owner l (some t) m = some u ↔ owner m = some u := by
  by_cases hm : m = l
  · rw [hm, Function.update_self, hfree, Option.some.injEq]
    exact iff_of_false (Ne.symm hu) (by simp)
  · rw [Function.update_of_ne hm]

theorem owner_unlock (howns : owner l = some t) {u : τ} (hu : u ≠ t) (m : L) :
    Function.update owner l none m = some u ↔ owner m = some u := by
  by_cases hm : m = l
  · rw [hm, Function.update_self, howns, Option.some.injEq]
    exact iff_of_false (by simp) (Ne.symm hu)
  · rw [Function.update_of_ne hm]

theorem Standing.lock (h : Standing D owner t k held) (hfree : owner l = none)
    (hadmits : D.admits (l :: held)) (hends : Ends D k' (l :: held)) :
    Standing D (Function.update owner l (some t)) t k' (l :: held) := by
  have hl : l ∉ held := by
    rw [h.owns, hfree]
    simp
  refine ⟨List.nodup_cons.mpr ⟨hl, h.nodup⟩, fun m => ?_, hadmits, hends⟩
  by_cases hm : m = l
  · simp [hm]
  · rw [Function.update_of_ne hm, List.mem_cons, h.owns]
    simp [hm]

theorem Standing.unlock (h : Standing D owner t k held) (hadmits : D.admits (held.erase l))
    (hends : Ends D k' (held.erase l)) :
    Standing D (Function.update owner l none) t k' (held.erase l) := by
  refine ⟨h.nodup.erase l, fun m => ?_, hadmits, hends⟩
  rw [h.nodup.mem_erase_iff, h.owns]
  by_cases hm : m = l
  · simp [hm]
  · rw [Function.update_of_ne hm]
    simp [hm]

/-- Rounds of a loop. -/
theorem ends_rounds {I : List L → Prop} (hI : I held) (hstep : ∀ held, I held → c.Meets D held I)
    (hk : ∀ held, I held → Ends D k held) (n : Nat) : Ends D (List.replicate n c ++ k) held := by
  induction n generalizing held with
  | zero => exact hk held hI
  | succ n ih => exact (hstep held hI).mono fun held' h' => ih h'

variable [DecidableEq τ]

/-- A step of a thread, and what the others own. -/
theorem exec_spec (h : Standing D owner t (c :: k) held)
    (hexec : exec t n owner k c = some (owner', k')) :
    (∃ held', Standing D owner' t k' held') ∧
      ∀ u, u ≠ t → ∀ l, owner' l = some u ↔ owner l = some u := by
  obtain ⟨hnodup, howns, hadmits, hends⟩ := h
  have h : Standing D owner t (c :: k) held := ⟨hnodup, howns, hadmits, hends⟩
  have hsame {k' : List (Code L)} (hends : Ends D k' held) :
      (∃ held', Standing D owner t k' held') ∧
        ∀ u, u ≠ t → ∀ l, owner l = some u ↔ owner l = some u :=
    ⟨⟨held, hnodup, howns, hadmits, hends⟩, fun _ _ _ => Iff.rfl⟩
  cases c with
  | skip =>
    cases hexec
    exact hsame hends
  | lock l =>
    rw [exec] at hexec
    split at hexec
    · next hfree =>
      cases hexec
      exact ⟨⟨_, h.lock hfree hends.2.1 hends.2.2⟩, fun u hu => owner_lock hfree hu⟩
    · cases hexec
  | unlock l =>
    rw [exec] at hexec
    split at hexec
    · next hown =>
      cases hexec
      exact ⟨⟨_, h.unlock hends.2.1 hends.2.2⟩, fun u hu => owner_unlock hown hu⟩
    · cases hexec
  | assertHeld l =>
    rw [exec] at hexec
    split at hexec
    · cases hexec
      exact hsame hends.2
    · cases hexec
  | tryLock l c d =>
    rw [exec] at hexec
    split at hexec
    · next hfree =>
      cases hexec
      have hl : l ∉ held := by
        rw [howns, hfree]
        simp
      exact ⟨⟨_, h.lock hfree (hends.1 hl).1 (hends.1 hl).2⟩, fun u hu => owner_lock hfree hu⟩
    · cases hexec
      exact hsame hends.2
  | seq c d =>
    cases hexec
    exact hsame hends
  | choose c d =>
    cases hexec
    apply hsame
    split
    · exact hends.1
    · exact hends.2
  | loop c =>
    cases hexec
    obtain ⟨I, hI, hstep, hpost⟩ := hends
    exact hsame (ends_rounds hI hstep hpost n)

namespace System

def Inv (D : Discipline L) (s : System L τ) : Prop :=
  ∀ t, ∃ held, Standing D s.owner t (s.pending t) held

theorem step_run (h : s.step (.run t n) = some s') : ∃ c k, s.pending t = c :: k ∧
    ∃ owner' k', exec t n s.owner k c = some (owner', k') ∧
      s' = ⟨owner', Function.update s.pending t k'⟩ := by
  rw [step] at h
  cases hp : s.pending t with
  | nil =>
    simp only [hp] at h
    cases h
  | cons c k =>
    simp only [hp] at h
    obtain ⟨⟨owner', k'⟩, hexec, hs⟩ := Option.map_eq_some_iff.mp h
    exact ⟨c, k, rfl, owner', k', hexec, hs.symm⟩

omit [DecidableEq τ] in
theorem Init.inv (h : s.Init) (hnil : D.admits []) : s.Inv D := by
  intro t
  refine ⟨[], List.nodup_nil, fun l => ?_, hnil, ?_⟩
  · rw [h.owner]
    simp
  · rw [h.pending]
    rfl

theorem Inv.call (h : s.Inv D) (hc : c.Keeps D []) (hstep : s.step (.call t c) = some s') :
    s'.Inv D := by
  rw [step] at hstep
  split at hstep
  · next hp =>
    cases hstep
    intro u
    obtain ⟨held, hu⟩ := h u
    by_cases htu : u = t
    · rw [htu, hp] at hu
      have hnil : held = [] := hu.ends
      subst hnil
      refine ⟨[], hu.nodup, htu ▸ hu.owns, hu.admits, ?_⟩
      simp only [htu, Function.update_self]
      exact hc
    · refine ⟨held, hu.nodup, hu.owns, hu.admits, ?_⟩
      simp only [Function.update_of_ne htu]
      exact hu.ends
  · cases hstep

theorem Inv.run (h : s.Inv D) (hstep : s.step (.run t n) = some s') : s'.Inv D := by
  obtain ⟨c, k, hp, owner', k', hexec, rfl⟩ := step_run hstep
  obtain ⟨held, ht⟩ := h t
  rw [hp] at ht
  obtain ⟨⟨held', ht'⟩, hothers⟩ := exec_spec ht hexec
  intro u
  by_cases htu : u = t
  · simp only [htu, Function.update_self]
    exact ⟨held', ht'⟩
  · obtain ⟨heldu, hu⟩ := h u
    simp only [Function.update_of_ne htu]
    exact ⟨heldu, hu.congr (hothers u htu)⟩

/-- Calls that keep what is held keep the threads in order. -/
theorem Reachable.inv {calls : Code L → Prop} (hnil : D.admits [])
    (hcalls : ∀ c, calls c → c.Keeps D []) (h : Reachable calls s) : s.Inv D := by
  refine h.invariant (fun _ hi => hi.inv hnil) fun s a s' hi ha hs => ?_
  cases a with
  | call t c => exact hi.call (hcalls c ha) hs
  | run t n => exact hi.run hs

omit [DecidableEq τ] in
/-- Outside of its calls a thread holds no lock. -/
theorem Inv.idle (h : s.Inv D) (ht : s.pending t = []) (l : L) : s.owner l ≠ some t := by
  obtain ⟨held, hs⟩ := h t
  have hnil : held = [] := by
    have hends := hs.ends
    rwa [ht] at hends
  rw [ne_eq, ← hs.owns, hnil]
  exact List.not_mem_nil

/-- A thread goes on, or waits for a lock that another thread holds. -/
theorem Inv.runs_or_waits (h : s.Inv D) (ht : s.pending t ≠ []) (n : Nat) :
    (∃ s', s.step (.run t n) = some s') ∨
      ∃ l u, s.owner l = some u ∧ s.pending u ≠ [] ∧ ∀ m, s.owner m = some t → D.rank m < D.rank l := by
  obtain ⟨held, hs⟩ := h t
  obtain ⟨c, k, hp⟩ := List.exists_cons_of_ne_nil ht
  have hgo {r} (hexec : exec t n s.owner k c = some r) : ∃ s', s.step (.run t n) = some s' := by
    simp only [step, hp, hexec, Option.map_some]
    exact ⟨_, rfl⟩
  rw [hp] at hs
  have hends := hs.ends
  cases c with
  | skip => exact .inl (hgo rfl)
  | lock l =>
    cases howner : s.owner l with
    | none => exact .inl (hgo (by rw [exec, if_pos howner]))
    | some u =>
      refine .inr ⟨l, u, howner, fun hu => h.idle hu l howner, fun m hm => ?_⟩
      exact hends.1 m ((hs.owns m).mpr hm)
  | unlock l => exact .inl (hgo (by rw [exec, if_pos ((hs.owns l).mp hends.1)]))
  | assertHeld l => exact .inl (hgo (by rw [exec, if_pos ((hs.owns l).mp hends.1)]))
  | tryLock l c d =>
    by_cases hfree : s.owner l = none
    · exact .inl (hgo (by rw [exec, if_pos hfree]))
    · exact .inl (hgo (by rw [exec, if_neg hfree]))
  | seq c d => exact .inl (hgo rfl)
  | choose c d => exact .inl (hgo rfl)
  | loop c => exact .inl (hgo rfl)

/-- Wherever a thread is in a call, some thread goes on: the one that waits for the lock of the
highest rank would wait for one above it. -/
theorem Inv.runs (h : s.Inv D) (ht : s.pending t ≠ []) (n : Nat) :
    ∃ u s', s.step (.run u n) = some s' := by
  have hwait (x : Nat) : ∀ l u, D.bound - D.rank l = x → s.owner l = some u → s.pending u ≠ [] →
      ∃ u s', s.step (.run u n) = some s' := by
    induction x using Nat.strong_induction_on with
    | h x ih =>
      intro l u hx hl hu
      rcases h.runs_or_waits hu n with hrun | ⟨m, v, hm, hv, hrank⟩
      · exact ⟨u, hrun⟩
      · have hlt := hrank l hl
        have hle := D.rank_le m
        exact ih (D.bound - D.rank m) (by omega) m v rfl hm hv
  rcases h.runs_or_waits ht n with hrun | ⟨l, u, hl, hu, -⟩
  · exact ⟨t, hrun⟩
  · exact hwait _ l u rfl hl hu

/-- The sizes of all that is left to do. -/
def todo [Fintype τ] (s : System L τ) : Multiset Nat :=
  ∑ t, ((s.pending t).map Code.size : Multiset Nat)

/-- A step leaves smaller pieces of code in the place of one. -/
theorem exec_size (hexec : exec t n owner k c = some (owner', k')) :
    ∃ cs : List (Code L), k' = cs ++ k ∧ ∀ d ∈ cs, d.size < c.size := by
  cases c with
  | skip =>
    cases hexec
    exact ⟨[], rfl, by simp⟩
  | lock l | unlock l | assertHeld l =>
    rw [exec] at hexec
    split at hexec
    · cases hexec
      exact ⟨[], rfl, by simp⟩
    · cases hexec
  | tryLock l c d =>
    rw [exec] at hexec
    split at hexec
    · cases hexec
      refine ⟨[c], rfl, ?_⟩
      simp only [List.mem_singleton, forall_eq, Code.size]
      omega
    · cases hexec
      refine ⟨[d], rfl, ?_⟩
      simp only [List.mem_singleton, forall_eq, Code.size]
      omega
  | seq c d =>
    cases hexec
    refine ⟨[c, d], rfl, ?_⟩
    simp only [List.mem_cons, List.not_mem_nil, or_false, forall_eq_or_imp, forall_eq, Code.size]
    omega
  | choose c d =>
    cases hexec
    refine ⟨[if n = 0 then c else d], rfl, ?_⟩
    simp only [List.mem_singleton, forall_eq, Code.size]
    split <;> omega
  | loop c =>
    cases hexec
    refine ⟨List.replicate n c, rfl, fun d hd => ?_⟩
    rw [List.eq_of_mem_replicate hd, Code.size]
    omega

theorem todo_run [Fintype τ] (hstep : s.step (.run t n) = some s') :
    s'.todo.IsDershowitzMannaLT s.todo := by
  obtain ⟨c, k, hp, owner', k', hexec, rfl⟩ := step_run hstep
  obtain ⟨cs, rfl, hsize⟩ := exec_size hexec
  have hrest : ∑ u ∈ Finset.univ.erase t, ((Function.update s.pending t (cs ++ k) u).map Code.size :
      Multiset Nat) = ∑ u ∈ Finset.univ.erase t, ((s.pending u).map Code.size : Multiset Nat) := by
    refine Finset.sum_congr rfl fun u hu => ?_
    rw [Function.update_of_ne (Finset.ne_of_mem_erase hu)]
  refine ⟨(k.map Code.size : Multiset Nat) +
      ∑ u ∈ Finset.univ.erase t, ((s.pending u).map Code.size : Multiset Nat),
    (cs.map Code.size : Multiset Nat), {c.size}, by simp, ?_, ?_, ?_⟩
  · rw [todo, ← Finset.add_sum_erase _ _ (Finset.mem_univ t), hrest]
    simp only [Function.update_self, List.map_append]
    rw [← Multiset.coe_add, add_assoc, add_comm]
  · rw [todo, ← Finset.add_sum_erase _ _ (Finset.mem_univ t), hp, List.map_cons,
      ← Multiset.cons_coe, ← Multiset.singleton_add, add_assoc, add_comm]
  · intro y hy
    obtain ⟨d, hd, rfl⟩ := List.mem_map.mp (Multiset.mem_coe.mp hy)
    exact ⟨c.size, Multiset.mem_singleton_self _, hsize d hd⟩

/-- Code that keeps to the order of the locks does not deadlock, and is never at an unlock or an
assertion without the lock. -/
theorem Inv.callsFinish [Finite τ] (h : s.Inv D) : s.CallsFinish := by
  have := Fintype.ofFinite τ
  refine ⟨?_, fun hstuck => ?_⟩
  · have hacc := (InvImage.wf (todo (L := L) (τ := τ))
      Multiset.wellFounded_isDershowitzMannaLT).apply s
    refine Subrelation.accessible (fun hrun => ?_) hacc
    obtain ⟨t, n, hrun⟩ := hrun
    exact todo_run hrun
  · have hidle (t : τ) : s.pending t = [] := by
      by_contra ht
      obtain ⟨u, s', hrun⟩ := h.runs ht 0
      rw [hstuck] at hrun
      cases hrun
    refine ⟨fun l => ?_, hidle⟩
    by_contra hl
    obtain ⟨t, ht⟩ := Option.ne_none_iff_exists'.mp hl
    exact h.idle (hidle t) l ht

end System

end ScudoMte.LockOrder
