import Mathlib.Logic.Relation

namespace ScudoMte.TransitionSystem

variable {σ α : Type*}

/-- States reached from `init` by steps whose label is admitted by `ok` in the state before it. -/
inductive Reachable (init : σ → Prop) (ok : σ → α → Prop) (step : σ → α → σ → Prop) : σ → Prop
  | start {s : σ} : init s → Reachable init ok step s
  | next {s s' : σ} {a : α} :
      Reachable init ok step s → ok s a → step s a s' → Reachable init ok step s'

section Invariant

variable {init : σ → Prop} {ok : σ → α → Prop} {step : σ → α → σ → Prop}

/-- What holds at the start and is kept by every admitted step holds in every reachable state. -/
theorem Reachable.invariant {inv : σ → Prop} (hinit : ∀ s, init s → inv s)
    (hstep : ∀ s a s', inv s → ok s a → step s a s' → inv s') {s : σ}
    (hr : Reachable init ok step s) : inv s := by
  induction hr with
  | start hi => exact hinit _ hi
  | next _ ho hs ih => exact hstep _ _ _ ih ho hs

/-- An invariant may be used while a second one is established. -/
theorem Reachable.invariant_of {inv inv' : σ → Prop}
    (hinv : ∀ s, Reachable init ok step s → inv s) (hinit : ∀ s, init s → inv' s)
    (hstep : ∀ s a s', inv s → inv' s → ok s a → step s a s' → inv' s') {s : σ}
    (hr : Reachable init ok step s) : inv' s := by
  induction hr with
  | start hi => exact hinit _ hi
  | next hr ho hs ih => exact hstep _ _ _ (hinv _ hr) ih ho hs

/-- Admitting more labels reaches no fewer states. -/
theorem Reachable.mono {ok' : σ → α → Prop} (h : ∀ s a, ok s a → ok' s a) {s : σ}
    (hr : Reachable init ok step s) : Reachable init ok' step s := by
  induction hr with
  | start hi => exact .start hi
  | next _ ho hs ih => exact .next ih (h _ _ ho) hs

end Invariant

section Run

/-- A run of a partial step function over a list of labels. -/
def run (step : σ → α → Option σ) : σ → List α → Option σ
  | s, [] => some s
  | s, a::as => (step s a).bind fun s' => run step s' as

@[simp] theorem run_nil (step : σ → α → Option σ) (s : σ) : run step s [] = some s := rfl

@[simp] theorem run_cons (step : σ → α → Option σ) (s : σ) (a : α) (as : List α) :
    run step s (a::as) = (step s a).bind fun s' => run step s' as := rfl

/-- A run of admitted labels from a reachable state ends in one. -/
theorem Reachable.run {init : σ → Prop} {ok : σ → α → Prop} {step : σ → α → Option σ} {s s' : σ}
    {as : List α} (hr : Reachable init ok (fun s a s' => step s a = some s') s)
    (hok : ∀ s, ∀ a ∈ as, ok s a) (h : TransitionSystem.run step s as = some s') :
    Reachable init ok (fun s a s' => step s a = some s') s' := by
  induction as generalizing s with
  | nil => rwa [← Option.some.inj h]
  | cons a as ih =>
    obtain ⟨s1, hs, hrest⟩ := Option.bind_eq_some_iff.mp h
    exact ih (.next hr (hok s a List.mem_cons_self) hs)
      (fun s b hb => hok s b (List.mem_cons_of_mem _ hb)) hrest

/-- A run that goes on in admitted states only. -/
theorem Reachable.run_of_imp {init : σ → Prop} {ok : σ → α → Prop} {step step' : σ → α → Option σ}
    {s s' : σ} {as : List α} (hr : Reachable init ok (fun s a s' => step s a = some s') s)
    (hstep : ∀ s a s', step' s a = some s' → ok s a ∧ step s a = some s')
    (h : TransitionSystem.run step' s as = some s') :
    Reachable init ok (fun s a s' => step s a = some s') s' := by
  induction as generalizing s with
  | nil => rwa [← Option.some.inj h]
  | cons a as ih =>
    obtain ⟨s1, hs, hrest⟩ := Option.bind_eq_some_iff.mp h
    obtain ⟨hok, hs⟩ := hstep _ _ _ hs
    exact ih (.next hr hok hs) hrest

end Run

end ScudoMte.TransitionSystem
