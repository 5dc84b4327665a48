import ScudoMte.Tsd.Exclusive

namespace ScudoMte.FrontEnd.Blocks

open Primary

section Step

variable {τ : Type*} [DecidableEq τ] {cfg : ClassConfig} {kind : Kind} {env : ReleaseConfig}
  {st st' : Blocks τ} {a : BlockAct τ} {t u : τ}

/-- The front end that a call works on. -/
def BlockAct.front : BlockAct τ → Option τ
  | .allocate t _ _ | .deallocate t _ _ _ | .drain t _ | .destroy t _ => some t
  | _ => none

theorem setFront_chunks_of_ne {f : Front} (h : u ≠ t) : (st.setFront t f).chunks u = st.chunks u :=
  Function.update_of_ne h ..

theorem step_chunks_of_ne (hs : st.step cfg kind env a = some st')
    (h : BlockAct.front a ≠ some u) : st'.chunks u = st.chunks u := by
  have hne {v : τ} (hv : some v ≠ some u) : u ≠ v := by
    intro heq
    rw [heq] at hv
    exact hv rfl
  cases a with
  | allocate v c remaps =>
    obtain ⟨⟨block, f⟩, -, rfl⟩ := Option.map_eq_some_iff.mp hs
    exact setFront_chunks_of_ne (hne h)
  | deallocate v c p remaps =>
    obtain ⟨f, -, rfl⟩ := Option.map_eq_some_iff.mp hs
    exact setFront_chunks_of_ne (hne h)
  | drain v remaps =>
    obtain ⟨f, -, rfl⟩ := Option.map_eq_some_iff.mp hs
    exact setFront_chunks_of_ne (hne h)
  | destroy v remaps =>
    obtain ⟨f, -, rfl⟩ := Option.map_eq_some_iff.mp hs
    exact setFront_chunks_of_ne (hne h)
  | _ =>
    cases hs
    rfl

/-- A front end that is drained keeps nothing. -/
theorem drain_chunks [Fintype τ] (hr : Reachable cfg kind env st) {remaps : List Bool}
    (hs : st.step cfg kind env (.drain t remaps) = some st') (c : Nat) : st'.chunks t c = [] := by
  obtain ⟨f, hcall, rfl⟩ := Option.map_eq_some_iff.mp hs
  obtain ⟨-, -, hnil⟩ := drain_keeps (counterTally cfg) hr.inv.ok hcall
  simp only [setFront, Function.update_self]
  exact hnil c

theorem destroy_chunks [Fintype τ] (hr : Reachable cfg .localCache env st) {remaps : List Bool}
    (hs : st.step cfg .localCache env (.destroy t remaps) = some st') (c : Nat) :
    st'.chunks t c = [] := by
  have hdrain : st.step cfg .localCache env (.drain t remaps) = some st' := hs
  exact drain_chunks hr hdrain c

end Step

end ScudoMte.FrontEnd.Blocks

namespace ScudoMte.Tsd.Exclusive.System

open Primary FrontEnd

variable {ι : Type*} [DecidableEq ι] {cfg : ClassConfig} {env : ReleaseConfig} {s s' : System ι}
  {t u : ι}

structure Inv (cfg : ClassConfig) (env : ReleaseConfig) (s : System ι) : Prop where
  blocks : Blocks.Reachable cfg .localCache env s.blocks
  kept : ∀ t, (s.threads t).initState ≠ .initialized → ∀ c, s.blocks.chunks (some t) c = []
  own : ∀ t, (s.threads t).pc = .own → (s.threads t).initState = .initialized
  owner : ∀ t, (s.threads t).pc.holdsFallback = true ↔ s.fallback = some t

/-- A thread goes on, and the front ends of the other threads stay as they are. -/
theorem Inv.update (hi : s.Inv cfg env) {th : Thread}
    (hthreads : s'.threads = Function.update s.threads t th)
    (hblocks : Blocks.Reachable cfg .localCache env s'.blocks)
    (hchunks : ∀ u ≠ t, s'.blocks.chunks (some u) = s.blocks.chunks (some u))
    (hkept : th.initState ≠ .initialized → ∀ c, s'.blocks.chunks (some t) c = [])
    (hown : th.pc = .own → th.initState = .initialized)
    (howner : th.pc.holdsFallback = true ↔ s'.fallback = some t)
    (howners : ∀ u ≠ t, s'.fallback = some u ↔ s.fallback = some u) : s'.Inv cfg env := by
  have hself : s'.threads t = th := by
    rw [hthreads, Function.update_self]
  have hother {u : ι} (hu : u ≠ t) : s'.threads u = s.threads u := by
    rw [hthreads, Function.update_of_ne hu]
  refine ⟨hblocks, fun u => ?_, fun u => ?_, fun u => ?_⟩
  · by_cases hu : u = t
    · rw [hu, hself]
      exact hkept
    · rw [hother hu, hchunks u hu]
      exact hi.kept u
  · by_cases hu : u = t
    · rw [hu, hself]
      exact hown
    · rw [hother hu]
      exact hi.own u
  · by_cases hu : u = t
    · rw [hu, hself]
      exact howner
    · rw [hother hu, howners u hu]
      exact hi.owner u

/-- A thread goes on without a call on the blocks or on the lock of `FallbackTSD`. -/
theorem Inv.setThread (hi : s.Inv cfg env) {th : Thread} (hthreads : s'.threads =
      Function.update s.threads t th) (hblocks : s'.blocks = s.blocks)
    (hfallback : s'.fallback = s.fallback)
    (hinit : th.initState = (s.threads t).initState ∨ th.initState = .initialized)
    (hown : th.pc = .own → th.initState = .initialized)
    (hpc : th.pc.holdsFallback = (s.threads t).pc.holdsFallback) : s'.Inv cfg env := by
  apply hi.update hthreads
  · rw [hblocks]
    exact hi.blocks
  · intro u _
    rw [hblocks]
  · intro hne
    rw [hblocks]
    apply hi.kept t
    rcases hinit with hinit | hinit
    · rwa [← hinit]
    · exact absurd hinit hne
  · exact hown
  · rw [hpc, hfallback]
    exact hi.owner t
  · intro u _
    rw [hfallback]

/-- A call on another front end leaves that of a thread which is not initialized empty. -/
theorem Inv.kept_step (hi : s.Inv cfg env) {a : BlockAct (Option ι)} {blocks : Blocks (Option ι)}
    (hstep : s.blocks.step cfg .localCache env a = some blocks)
    (hfront : Blocks.BlockAct.front a ≠ some (some t))
    (hinit : (s.threads t).initState ≠ .initialized) (c : Nat) : blocks.chunks (some t) c = [] := by
  rw [Blocks.step_chunks_of_ne hstep hfront]
  exact hi.kept t hinit c

/-- A thread makes a call on one of the two front ends that it may use. -/
theorem Inv.withBlocks (hi : s.Inv cfg env) {a : BlockAct (Option ι)} {th : Thread}
    (hs : s.withBlocks cfg env a t th = some s') (ha : s.blocks.Enabled cfg a)
    (hfront : ∀ u ≠ t, Blocks.BlockAct.front a ≠ some (some u))
    (hkept : ∀ blocks, s.blocks.step cfg .localCache env a = some blocks →
      th.initState ≠ .initialized → ∀ c, blocks.chunks (some t) c = [])
    (hown : th.pc = .own → th.initState = .initialized)
    (hpc : th.pc.holdsFallback = (s.threads t).pc.holdsFallback) : s'.Inv cfg env := by
  obtain ⟨blocks, hstep, rfl⟩ := Option.map_eq_some_iff.mp hs
  apply hi.update rfl (.next hi.blocks ha hstep)
  · exact fun u hu => Blocks.step_chunks_of_ne hstep (hfront u hu)
  · exact hkept blocks hstep
  · exact hown
  · rw [hpc]
    exact hi.owner t
  · exact fun _ _ => Iff.rfl

omit [DecidableEq ι] in
theorem whenIdle_eq {next : Option (System ι)} (h : s.whenIdle t next = some s') :
    (s.threads t).pc = .idle ∧ next = some s' := Option.ite_none_right_eq_some.mp h

theorem Inv.initThreadMaybe (hi : s.Inv cfg env) {minimalInit : Bool}
    (hs : s.initThreadMaybe t minimalInit = some s') :
    s'.Inv cfg env := by
  simp only [System.initThreadMaybe] at hs
  by_cases h0 : (s.threads t).initState ≠ .notInitialized
  · rw [if_pos h0] at hs
    rwa [← Option.some.inj hs]
  · rw [if_neg h0] at hs
    obtain ⟨-, hs⟩ := Option.ite_none_left_eq_some.mp hs
    by_cases hm : minimalInit = true
    · rw [if_pos hm] at hs
      rw [← Option.some.inj hs]
      exact ⟨hi.blocks, hi.kept, hi.own, hi.owner⟩
    · rw [if_neg hm] at hs
      rw [← Option.some.inj hs]
      exact hi.setThread rfl rfl rfl (.inr rfl) (fun _ => rfl) rfl

theorem Inv.setPc (hi : s.Inv cfg env) {pc : Pc} (hinit : pc = .own →
      (s.threads t).initState = .initialized)
    (hpc : pc.holdsFallback = (s.threads t).pc.holdsFallback) :
    (s.setThread t { s.threads t with pc }).Inv cfg env :=
  hi.setThread rfl rfl rfl (.inl rfl) hinit hpc

theorem Inv.setLife (hi : s.Inv cfg env) (life : Life) :
    (s.setThread t { s.threads t with life }).Inv cfg env :=
  hi.setThread rfl rfl rfl (.inl rfl) (hi.own t) rfl

/-- The lock of `FallbackTSD` is taken. -/
theorem Inv.lockFallback (hi : s.Inv cfg env) (hs : s.lockFallback t = some s') :
    s'.Inv cfg env := by
  obtain ⟨hfree, hs⟩ := Option.ite_none_left_eq_some.mp hs
  obtain ⟨pc, hpc, rfl⟩ := Option.map_eq_some_iff.mp hs
  have hholds : pc.holdsFallback = true ∧ pc ≠ .own := by
    cases hp : (s.threads t).pc <;> rw [hp] at hpc <;> cases hpc <;> decide
  refine hi.update (t := t) rfl hi.blocks ?_ ?_ ?_ ?_ ?_
  · exact fun _ _ => rfl
  · exact hi.kept t
  · exact fun h => absurd h hholds.2
  · exact ⟨fun _ => rfl, fun _ => hholds.1⟩
  · intro u hu
    have hnone : s.fallback = none := by simpa using hfree
    simp [hnone, Ne.symm hu]

/-- The lock of `FallbackTSD` is given back. -/
theorem Inv.release (hi : s.Inv cfg env) {pc : Pc} (hheld : (s.threads t).pc.holdsFallback = true)
    (hfree : pc.holdsFallback = false) (hown : pc ≠ .own) :
    ({ s.setThread t { s.threads t with pc } with fallback := none } : System ι).Inv cfg env := by
  have howner := (hi.owner t).mp hheld
  refine hi.update (t := t) rfl hi.blocks ?_ ?_ ?_ ?_ ?_
  · exact fun _ _ => rfl
  · exact hi.kept t
  · exact fun h => absurd h hown
  · simp [hfree]
  · intro u hu
    simp [howner, Ne.symm hu]

theorem Inv.unlock (hi : s.Inv cfg env) (hs : s.unlock t = some s') : s'.Inv cfg env := by
  simp only [System.unlock] at hs
  cases hp : (s.threads t).pc <;> rw [hp] at hs <;> cases hs
  · exact hi.setPc (fun h => Pc.noConfusion h) (by rw [hp]; rfl)
  · exact hi.release (by rw [hp]; rfl) rfl (by decide)
  · exact hi.release (by rw [hp]; rfl) rfl (by decide)

theorem Inv.disable (hi : s.Inv cfg env) (hs : s.disable t = some s') : s'.Inv cfg env := by
  simp only [System.disable] at hs
  cases hp : (s.threads t).pc <;> rw [hp] at hs <;> try cases hs
  · obtain ⟨-, hs⟩ := Option.ite_none_left_eq_some.mp hs
    rw [← Option.some.inj hs]
    exact hi.setThread rfl rfl rfl (.inl rfl) (fun h => Pc.noConfusion h) (by rw [hp]; rfl)
  · exact hi.setThread rfl rfl rfl (.inl rfl) (fun h => Pc.noConfusion h) (by rw [hp]; rfl)

theorem Inv.enable (hi : s.Inv cfg env) (hs : s.enable t = some s') : s'.Inv cfg env := by
  simp only [System.enable] at hs
  cases hp : (s.threads t).pc <;> rw [hp] at hs <;> cases hs
  · exact hi.setThread rfl rfl rfl (.inl rfl) (fun h => Pc.noConfusion h) (by rw [hp]; rfl)
  · exact hi.release (by rw [hp]; rfl) rfl (by decide)
  · exact hi.setThread rfl rfl rfl (.inl rfl) (fun h => Pc.noConfusion h) (by rw [hp]; rfl)

theorem Inv.teardownThread [Fintype ι] (hi : s.Inv cfg env) {n : Nat} {setspecificFails : Bool}
    {remaps : List Bool} (hidle : (s.threads t).pc = .idle)
    (hs : s.teardownThread cfg env t n setspecificFails remaps = some s') : s'.Inv cfg env := by
  have hown {th : Thread} (hpc : th.pc = (s.threads t).pc) :
      th.pc = .own → th.initState = .initialized := by
    intro h
    rw [hpc, hidle] at h
    exact Pc.noConfusion h
  have hdestroy {th : Thread}
      (hs : s.withBlocks cfg env (.destroy (some t) remaps) t th = some s')
      (hpc : th.pc = (s.threads t).pc) : s'.Inv cfg env := by
    apply hi.withBlocks hs trivial _ _ (hown hpc) (by rw [hpc])
    · intro u hu heq
      exact hu (Option.some.inj (Option.some.inj heq)).symm
    · exact fun blocks hstep _ c => Blocks.destroy_chunks hi.blocks hstep c
  simp only [System.teardownThread] at hs
  by_cases hlt : 1 < (s.threads t).iterations
  · rw [if_pos hlt] at hs
    cases setspecificFails with
    | true => exact hdestroy hs rfl
    | false =>
      rw [← Option.some.inj hs]
      exact hi.setThread rfl rfl rfl (.inl rfl) (hown rfl) rfl
  · rw [if_neg hlt] at hs
    exact hdestroy hs rfl

theorem Inv.turn [Fintype ι] (hi : s.Inv cfg env) {setspecificFails : Bool} {remaps : List Bool}
    (hidle : (s.threads t).pc = .idle) (hs : s.turn cfg env t setspecificFails remaps = some s') :
    s'.Inv cfg env := by
  simp only [System.turn] at hs
  split at hs
  · by_cases hkey : (s.threads t).keySet = true
    · rw [if_pos hkey] at hs
      exact hi.teardownThread hidle hs
    · rw [if_neg hkey] at hs
      rw [← Option.some.inj hs]
      exact hi.setLife _
  · cases hs

theorem Inv.nextRound (hi : s.Inv cfg env) (hs : s.nextRound t = some s') : s'.Inv cfg env := by
  simp only [System.nextRound] at hs
  split at hs
  · obtain ⟨-, hs⟩ := Option.ite_none_right_eq_some.mp hs
    rw [← Option.some.inj hs]
    exact hi.setLife _
  · cases hs

theorem Inv.finish (hi : s.Inv cfg env) (hs : s.finish t = some s') : s'.Inv cfg env := by
  simp only [System.finish] at hs
  split at hs
  · obtain ⟨-, hs⟩ := Option.ite_none_right_eq_some.mp hs
    rw [← Option.some.inj hs]
    exact hi.setLife _
  · cases hs

/-- A call on the front end of the TSD that the thread has got. -/
theorem Inv.call (hi : s.Inv cfg env) {c : FrontCall} (ha : s.Enabled cfg (.call t c))
    (hs : s.step cfg env (.call t c) = some s') : s'.Inv cfg env := by
  obtain ⟨tsd, htsd, hs⟩ := Option.bind_eq_some_iff.mp hs
  have hfront : Blocks.BlockAct.front (c.on tsd) = some tsd := by
    cases c <;> rfl
  have hcases : (s.threads t).pc = .own ∧ tsd = some t ∨ tsd = none := by
    cases hp : (s.threads t).pc <;> rw [tsdOf, hp] at htsd <;> cases htsd
    · exact .inl ⟨rfl, rfl⟩
    · exact .inr rfl
  apply hi.withBlocks hs (ha tsd) _ _ (hi.own t) rfl
  · intro u hu heq
    rw [hfront] at heq
    rcases hcases with ⟨-, rfl⟩ | rfl
    · exact hu (Option.some.inj (Option.some.inj heq)).symm
    · cases heq
  · intro blocks hstep hinit d
    rcases hcases with ⟨hp, -⟩ | rfl
    · exact absurd (hi.own t hp) hinit
    · have hne : Blocks.BlockAct.front (c.on none) ≠ some (some t) := by
        rw [hfront]
        intro heq
        cases heq
      exact hi.kept_step hstep hne hinit d

/-- A part of the release of pages. -/
theorem Inv.primary (hi : s.Inv cfg env) {a : BlockAct (Option ι)}
    (hs : ((s.blocks.step cfg .localCache env a).map fun blocks => { s with blocks }) = some s')
    (ha : s.blocks.Enabled cfg a) (hfront : Blocks.BlockAct.front a = none) : s'.Inv cfg env := by
  obtain ⟨blocks, hstep, rfl⟩ := Option.map_eq_some_iff.mp hs
  refine ⟨.next hi.blocks ha hstep, fun t hinit c => ?_, hi.own, hi.owner⟩
  have hne : Blocks.BlockAct.front a ≠ some (some t) := by
    rw [hfront]
    intro heq
    cases heq
  exact hi.kept_step hstep hne hinit c

theorem Inv.step [Fintype ι] (hi : s.Inv cfg env) {a : Act ι} (ha : s.Enabled cfg a)
    (hs : s.step cfg env a = some s') : s'.Inv cfg env := by
  cases a with
  | initThreadMaybe t minimalInit =>
    obtain ⟨-, hs⟩ := whenIdle_eq hs
    exact hi.initThreadMaybe hs
  | getTSDAndLock t =>
    obtain ⟨hidle, hs⟩ := whenIdle_eq hs
    obtain ⟨-, hs⟩ := Option.ite_none_left_eq_some.mp hs
    split at hs
    · next h =>
      rw [← Option.some.inj hs]
      exact hi.setPc (fun _ => h.1) (by rw [hidle]; rfl)
    · rw [← Option.some.inj hs]
      exact hi.setPc (fun h => Pc.noConfusion h) (by rw [hidle]; rfl)
  | lockFallback t => exact hi.lockFallback hs
  | call t c => exact hi.call ha hs
  | unlock t => exact hi.unlock hs
  | drainCaches t =>
    obtain ⟨hidle, hs⟩ := whenIdle_eq hs
    obtain ⟨-, hs⟩ := Option.ite_none_left_eq_some.mp hs
    rw [← Option.some.inj hs]
    exact hi.setPc (fun h => Pc.noConfusion h) (by rw [hidle]; rfl)
  | drainThread t remaps =>
    obtain ⟨hp, hs⟩ := Option.ite_none_right_eq_some.mp hs
    apply hi.withBlocks hs trivial _ _ (fun h => Pc.noConfusion h) (by rw [hp]; rfl)
    · intro u hu heq
      exact hu (Option.some.inj (Option.some.inj heq)).symm
    · exact fun blocks hstep _ c => Blocks.drain_chunks hi.blocks hstep c
  | drainFallback t remaps =>
    obtain ⟨hp, hs⟩ := Option.ite_none_right_eq_some.mp hs
    apply hi.withBlocks hs trivial _ _ (fun h => Pc.noConfusion h) (by rw [hp]; rfl)
    · intro u hu heq
      cases heq
    · intro blocks hstep hinit c
      have hne : Blocks.BlockAct.front (.drain (none : Option ι) remaps) ≠ some (some t) := by
        intro heq
        cases heq
      exact hi.kept_step hstep hne hinit c
  | disable t => exact hi.disable hs
  | enable t => exact hi.enable hs
  | exit t =>
    obtain ⟨-, hs⟩ := whenIdle_eq hs
    obtain ⟨-, hs⟩ := Option.ite_none_right_eq_some.mp hs
    rw [← Option.some.inj hs]
    exact hi.setLife _
  | turn t setspecificFails remaps =>
    obtain ⟨hidle, hs⟩ := whenIdle_eq hs
    exact hi.turn hidle hs
  | nextRound t => exact hi.nextRound (whenIdle_eq hs).2
  | finish t => exact hi.finish (whenIdle_eq hs).2
  | extractAll c => exact hi.primary (a := .extractAll c) hs ha rfl
  | collectGroupsToRelease c => exact hi.primary (a := .collectGroupsToRelease c) hs ha rfl
  | mergeGroupsToReleaseBack c => exact hi.primary (a := .mergeGroupsToReleaseBack c) hs ha rfl

theorem Init.inv (h0 : s.Init cfg) : s.Inv cfg env := by
  refine ⟨.start h0.blocks, fun t _ c => h0.blocks.chunks _ _, fun t h => ?_, fun t => ?_⟩
  · rw [h0.threads] at h
    exact Pc.noConfusion h
  · rw [h0.threads, h0.fallback]
    simp [Pc.holdsFallback]

omit [DecidableEq ι] in
/-- The thread has got the TSD, or drains it. -/
def Uses (s : System ι) (t : ι) (tsd : Option ι) : Prop :=
  ((s.threads t).pc = .own ∨ (s.threads t).pc = .drainingOwn) ∧ tsd = some t ∨
    ((s.threads t).pc = .fallback ∨ (s.threads t).pc = .draining) ∧ tsd = none

/-- The blocks are where they are in a run of calls on front ends, a `ThreadTSD` that is not
initialized, or torn down, keeps none and is used only to be drained, and no two threads use one
TSD. -/
structure Safe (cfg : ClassConfig) (env : ReleaseConfig) (s : System ι) : Prop where
  blocks : Blocks.Reachable cfg .localCache env s.blocks
  kept : ∀ t, (s.threads t).initState ≠ .initialized → ∀ c, s.blocks.chunks (some t) c = []
  used : ∀ t u, s.Uses t (some u) → t = u ∧ ((s.threads u).initState = .initialized ∨
    (s.threads u).pc = .drainingOwn ∧ ∀ c, s.blocks.chunks (some u) c = [])
  exclusive : ∀ t u tsd, s.Uses t tsd → s.Uses u tsd → t = u

theorem Inv.fallback (hi : s.Inv cfg env) (h : s.Uses t none) : s.fallback = some t := by
  apply (hi.owner t).mp
  rcases h with ⟨-, h⟩ | ⟨h | h, -⟩
  · cases h
  · rw [h]
    rfl
  · rw [h]
    rfl

theorem Inv.used (hi : s.Inv cfg env) (h : s.Uses t (some u)) :
    t = u ∧ ((s.threads u).initState = .initialized ∨
      (s.threads u).pc = .drainingOwn ∧ ∀ c, s.blocks.chunks (some u) c = []) := by
  rcases h with ⟨hp, h⟩ | ⟨-, h⟩
  · obtain rfl := Option.some.inj h
    refine ⟨rfl, ?_⟩
    by_cases hinit : (s.threads u).initState = .initialized
    · exact .inl hinit
    · have hdrain := hp.resolve_left fun hown => hinit (hi.own u hown)
      exact .inr ⟨hdrain, hi.kept u hinit⟩
  · cases h

/-- However threads initialise, call, drain, disable, enable and exit, the TSDs are safe. -/
theorem safe_of_reachable [Fintype ι] (hr : Reachable cfg env s) : s.Safe cfg env := by
  have hi : s.Inv cfg env :=
    TransitionSystem.Reachable.invariant (fun _ h0 => h0.inv) (fun _ _ _ hi ha hs => hi.step ha hs)
      hr
  refine ⟨hi.blocks, hi.kept, fun t u h => hi.used h, fun t u tsd ht hu => ?_⟩
  cases tsd with
  | none => exact Option.some.inj ((hi.fallback ht).symm.trans (hi.fallback hu))
  | some v => rw [(hi.used ht).1, (hi.used hu).1]

/-- A registry whose threads have made no call. -/
def initial : System ι where
  initialized := false
  disabled := false
  mutex := none
  fallback := none
  threads _ := ⟨.notInitialized, 0, false, .idle, .running⟩
  blocks := Blocks.initial Blocks.smallConfig Blocks.smallEnv 4096 1 true

omit [DecidableEq ι] in
theorem initial_init : (initial : System ι).Init Blocks.smallConfig :=
  ⟨rfl, rfl, rfl, rfl, fun _ => rfl, Blocks.initial_init _ _ _ _ _ (by decide)⟩

/-- A thread allocates from its own TSD, one that is not initialised from `FallbackTSD`, and another
one drains the caches. -/
def twoCalls : List (Act (Fin 3)) :=
  [.initThreadMaybe 0 false, .getTSDAndLock 0, .call 0 (.allocate 1 [true, true, true]),
    .getTSDAndLock 1, .lockFallback 1, .call 1 (.allocate 2 [true, true, true]), .drainCaches 2]

theorem safe_of_reachable_twoCalls : ∃ s : System (Fin 3), s.Uses 0 (some 0) ∧ s.Uses 1 none ∧
    s.Uses 2 (some 2) ∧ s.Safe Blocks.smallConfig Blocks.smallEnv := by
  have hpc : (TransitionSystem.run (step Blocks.smallConfig Blocks.smallEnv) initial twoCalls).map
      (fun s => ((s.threads 0).pc, (s.threads 1).pc, (s.threads 2).pc)) =
        some (.own, .fallback, .drainingOwn) := by
    decide +kernel
  obtain ⟨s, hs, hpcs⟩ := Option.map_eq_some_iff.mp hpc
  obtain ⟨hown, hpcs⟩ := Prod.mk.inj hpcs
  obtain ⟨hfallback, hdraining⟩ := Prod.mk.inj hpcs
  have hok : ∀ r : System (Fin 3), ∀ a ∈ twoCalls, r.Enabled Blocks.smallConfig a := by
    intro r
    simp only [twoCalls, List.forall_mem_cons]
    have hclass : 1 ∈ Front.classes Blocks.smallConfig ∧ 2 ∈ Front.classes Blocks.smallConfig := by
      decide
    exact ⟨trivial, trivial, fun _ => hclass.1, trivial, trivial, fun _ => hclass.2, trivial,
      fun _ h => absurd h List.not_mem_nil⟩
  have hr : Reachable Blocks.smallConfig Blocks.smallEnv s :=
    TransitionSystem.Reachable.run (.start initial_init) hok hs
  exact ⟨s, .inl ⟨.inl hown, rfl⟩, .inr ⟨.inl hfallback, rfl⟩, .inl ⟨.inr hdraining, rfl⟩,
    safe_of_reachable hr⟩

end ScudoMte.Tsd.Exclusive.System

namespace ScudoMte.Tsd.Exclusive

/-- All that can happen to a thread. -/
inductive Moved (fails : Bool) (th : Thread) : Thread → Prop
  | pc (p : Pc) : Moved fails th { th with pc := p }
  | initialized (hinit : th.initState = .notInitialized) : Moved fails th { th with
      initState := .initialized, iterations := destructorIterations, keySet := true }
  | exit (hlife : th.life = .running) : Moved fails th { th with life := .round 1 false }
  | noKey {n : Nat} (hlife : th.life = .round n false) (hkey : th.keySet = false) :
      Moved fails th { th with life := .round n true }
  | again {n : Nat} (hlife : th.life = .round n false) (hlt : 1 < th.iterations) :
      Moved fails th { th with
        iterations := th.iterations - 1, keySet := true, life := .round n true }
  | tornDown {n i : Nat} (hlife : th.life = .round n false)
      (hle : th.iterations ≤ 1 ∨ fails = true) : Moved fails th { th with
        initState := .tornDown, iterations := i, keySet := false, life := .round n true }
  | nextRound {n : Nat} (hlife : th.life = .round n true) (hlt : n < destructorIterations) :
      Moved fails th { th with life := .round (n+1) false }
  | finish {n : Nat} (hlife : th.life = .round n true)
      (hlast : n = destructorIterations ∨ th.keySet = false) :
      Moved fails th { th with life := .past }

/-- `pthread_setspecific` fails in this act. -/
def Act.fails {ι : Type*} : Act ι → Bool
  | .turn _ setspecificFails _ => setspecificFails
  | _ => false

namespace System

open Primary FrontEnd

variable {ι : Type*} [DecidableEq ι] {cfg : ClassConfig} {env : ReleaseConfig} {s s' : System ι}
  {t u : ι} {fails : Bool}

theorem moved_update {th : Thread} (hm : Moved fails (s.threads u) th)
    (hthreads : s'.threads = Function.update s.threads u th) (t : ι) :
    Moved fails (s.threads t) (s'.threads t) := by
  rw [hthreads]
  by_cases ht : t = u
  · rw [ht, Function.update_self]
    exact hm
  · rw [Function.update_of_ne ht]
    exact .pc _

theorem moved_withBlocks {a : BlockAct (Option ι)} {th : Thread}
    (hm : Moved fails (s.threads u) th) (hs : s.withBlocks cfg env a u th = some s') (t : ι) :
    Moved fails (s.threads t) (s'.threads t) := by
  obtain ⟨blocks, -, rfl⟩ := Option.map_eq_some_iff.mp hs
  exact moved_update hm rfl t

theorem moved_initThreadMaybe {minimalInit : Bool}
    (hs : s.initThreadMaybe u minimalInit = some s') (t : ι) :
    Moved fails (s.threads t) (s'.threads t) := by
  simp only [System.initThreadMaybe] at hs
  by_cases h0 : (s.threads u).initState ≠ .notInitialized
  · rw [if_pos h0] at hs
    rw [← Option.some.inj hs]
    exact .pc _
  · rw [if_neg h0] at hs
    obtain ⟨-, hs⟩ := Option.ite_none_left_eq_some.mp hs
    by_cases hm : minimalInit = true
    · rw [if_pos hm] at hs
      rw [← Option.some.inj hs]
      exact .pc _
    · rw [if_neg hm] at hs
      rw [← Option.some.inj hs]
      exact moved_update (.initialized (not_not.mp h0)) rfl t

theorem moved_turn {remaps : List Bool} (hs : s.turn cfg env u fails remaps = some s') (t : ι) :
    Moved fails (s.threads t) (s'.threads t) := by
  simp only [System.turn] at hs
  split at hs
  · next n hlife =>
    by_cases hkey : (s.threads u).keySet = true
    · rw [if_pos hkey] at hs
      simp only [System.teardownThread] at hs
      by_cases hlt : 1 < (s.threads u).iterations
      · rw [if_pos hlt] at hs
        by_cases hfails : fails = true
        · rw [if_pos hfails] at hs
          exact moved_withBlocks (.tornDown hlife (.inr hfails)) hs t
        · rw [if_neg hfails] at hs
          rw [← Option.some.inj hs]
          exact moved_update (.again hlife hlt) rfl t
      · rw [if_neg hlt] at hs
        exact moved_withBlocks (.tornDown hlife (.inl (Nat.not_lt.mp hlt))) hs t
    · rw [if_neg hkey] at hs
      rw [← Option.some.inj hs]
      exact moved_update (.noKey hlife (Bool.eq_false_of_not_eq_true hkey)) rfl t
  · cases hs

theorem step_moved {a : Act ι} (hs : s.step cfg env a = some s') (t : ι) :
    Moved a.fails (s.threads t) (s'.threads t) := by
  cases a with
  | initThreadMaybe u minimalInit => exact moved_initThreadMaybe (whenIdle_eq hs).2 t
  | getTSDAndLock u =>
    obtain ⟨-, hs⟩ := whenIdle_eq hs
    obtain ⟨-, hs⟩ := Option.ite_none_left_eq_some.mp hs
    split at hs
    · rw [← Option.some.inj hs]
      exact moved_update (.pc _) rfl t
    · rw [← Option.some.inj hs]
      exact moved_update (.pc _) rfl t
  | lockFallback u =>
    obtain ⟨-, hs⟩ := Option.ite_none_left_eq_some.mp hs
    obtain ⟨pc, -, rfl⟩ := Option.map_eq_some_iff.mp hs
    exact moved_update (.pc _) rfl t
  | call u c =>
    obtain ⟨tsd, -, hs⟩ := Option.bind_eq_some_iff.mp hs
    exact moved_withBlocks (.pc _) hs t
  | unlock u =>
    simp only [System.step, System.unlock] at hs
    split at hs <;> cases hs
    · exact moved_update (.pc _) rfl t
    · exact moved_update (.pc _) rfl t
    · exact moved_update (.pc _) rfl t
  | drainCaches u =>
    obtain ⟨-, hs⟩ := whenIdle_eq hs
    obtain ⟨-, hs⟩ := Option.ite_none_left_eq_some.mp hs
    rw [← Option.some.inj hs]
    exact moved_update (.pc _) rfl t
  | drainThread u remaps =>
    obtain ⟨-, hs⟩ := Option.ite_none_right_eq_some.mp hs
    exact moved_withBlocks (.pc _) hs t
  | drainFallback u remaps =>
    obtain ⟨-, hs⟩ := Option.ite_none_right_eq_some.mp hs
    exact moved_withBlocks (.pc _) hs t
  | disable u =>
    simp only [System.step, System.disable] at hs
    split at hs
    · obtain ⟨-, hs⟩ := Option.ite_none_left_eq_some.mp hs
      rw [← Option.some.inj hs]
      exact moved_update (.pc _) rfl t
    · cases hs
      exact moved_update (.pc _) rfl t
    · cases hs
  | enable u =>
    simp only [System.step, System.enable] at hs
    split at hs <;> cases hs
    · exact moved_update (.pc _) rfl t
    · exact moved_update (.pc _) rfl t
    · exact moved_update (.pc _) rfl t
  | exit u =>
    obtain ⟨-, hs⟩ := whenIdle_eq hs
    obtain ⟨hlife, hs⟩ := Option.ite_none_right_eq_some.mp hs
    rw [← Option.some.inj hs]
    exact moved_update (.exit hlife) rfl t
  | turn u setspecificFails remaps => exact moved_turn (whenIdle_eq hs).2 t
  | nextRound u =>
    obtain ⟨-, hs⟩ := whenIdle_eq hs
    simp only [System.nextRound] at hs
    split at hs
    · next n hlife =>
      obtain ⟨hlt, hs⟩ := Option.ite_none_right_eq_some.mp hs
      rw [← Option.some.inj hs]
      exact moved_update (.nextRound hlife hlt) rfl t
    · cases hs
  | finish u =>
    obtain ⟨-, hs⟩ := whenIdle_eq hs
    simp only [System.finish] at hs
    split at hs
    · next n hlife =>
      obtain ⟨hlast, hs⟩ := Option.ite_none_right_eq_some.mp hs
      rw [← Option.some.inj hs]
      exact moved_update (.finish hlife hlast) rfl t
    · cases hs
  | _ =>
    simp only [System.step] at hs
    obtain ⟨blocks, -, rfl⟩ := Option.map_eq_some_iff.mp hs
    exact .pc _

end System

/-- The turns that the key of a thread had so far. -/
def Life.turns : Life → Nat
  | running => 0
  | round n false => n - 1
  | round n true => n
  | past => destructorIterations

/-- The rounds are numbered from 1. -/
def Thread.RoundsOk (th : Thread) : Prop :=
  ∀ n turnDone, th.life = .round n turnDone → 1 ≤ n ∧ n ≤ destructorIterations

/-- The counter of the thread runs out in the last round. -/
def Thread.InTime (th : Thread) : Prop :=
  th.initState = .tornDown ∨ th.initState = .initialized ∧ th.keySet = true ∧
    1 ≤ th.iterations ∧ th.iterations + th.life.turns = destructorIterations

/-- The rounds end before the counter runs out. -/
def Thread.TooLate (th : Thread) : Prop :=
  th.initState = .initialized ∧ 1 ≤ th.iterations ∧
    destructorIterations < th.iterations + th.life.turns

section Moved

variable {th th' : Thread} {fails : Bool}

theorem Moved.roundsOk (hm : Moved fails th th') (h : th.RoundsOk) : th'.RoundsOk := by
  intro n turnDone hlife
  cases hm with
  | pc p => exact h n turnDone hlife
  | initialized hinit => exact h n turnDone hlife
  | exit hl =>
    obtain ⟨rfl, -⟩ := Life.round.inj hlife
    exact ⟨le_refl _, by decide⟩
  | noKey hl hkey =>
    obtain ⟨rfl, -⟩ := Life.round.inj hlife
    exact h _ _ hl
  | again hl hlt =>
    obtain ⟨rfl, -⟩ := Life.round.inj hlife
    exact h _ _ hl
  | tornDown hl hle =>
    obtain ⟨rfl, -⟩ := Life.round.inj hlife
    exact h _ _ hl
  | nextRound hl hlt =>
    obtain ⟨rfl, -⟩ := Life.round.inj hlife
    exact ⟨Nat.le_add_left _ _, hlt⟩
  | finish hl hlast => exact Life.noConfusion hlife

/-- Each turn counts down by one. -/
theorem Moved.inTime (hm : Moved fails th th') (hok : th.RoundsOk) (h : th.InTime) :
    th'.InTime := by
  rcases h with hdown | ⟨hinit, hkey, hpos, hsum⟩
  · cases hm with
    | initialized hnot =>
      rw [hdown] at hnot
      exact InitState.noConfusion hnot
    | tornDown hl hle => exact .inl rfl
    | _ => exact .inl hdown
  · cases hm with
    | pc p => exact .inr ⟨hinit, hkey, hpos, hsum⟩
    | initialized hnot =>
      rw [hinit] at hnot
      exact InitState.noConfusion hnot
    | exit hl =>
      rw [hl] at hsum
      exact .inr ⟨hinit, hkey, hpos, hsum⟩
    | noKey hl hnone =>
      rw [hkey] at hnone
      exact Bool.noConfusion hnone
    | again hl hlt =>
      have hn := (hok _ _ hl).1
      rw [hl, Life.turns] at hsum
      refine .inr ⟨hinit, rfl, ?_, ?_⟩
      · dsimp only
        omega
      · dsimp only [Life.turns]
        omega
    | tornDown hl hle => exact .inl rfl
    | nextRound hl hlt =>
      rw [hl] at hsum
      exact .inr ⟨hinit, hkey, hpos, hsum⟩
    | finish hl hlast =>
      rw [hl, Life.turns] at hsum
      rcases hlast with rfl | hnone
      · omega
      · rw [hkey] at hnone
        exact Bool.noConfusion hnone

theorem Moved.tooLate (hm : Moved false th th') (hok : th.RoundsOk) (h : th.TooLate) :
    th'.TooLate := by
  obtain ⟨hinit, hpos, hsum⟩ := h
  cases hm with
  | pc p => exact ⟨hinit, hpos, hsum⟩
  | initialized hnot =>
    rw [hinit] at hnot
    exact InitState.noConfusion hnot
  | exit hl =>
    rw [hl] at hsum
    exact ⟨hinit, hpos, hsum⟩
  | noKey hl hnone =>
    rw [hl, Life.turns] at hsum
    refine ⟨hinit, hpos, ?_⟩
    dsimp only [Life.turns]
    omega
  | again hl hlt =>
    have hn := (hok _ _ hl).1
    rw [hl, Life.turns] at hsum
    refine ⟨hinit, ?_, ?_⟩
    · dsimp only
      omega
    · dsimp only [Life.turns]
      omega
  | tornDown hl hle =>
    have hn := hok _ _ hl
    rw [hl, Life.turns] at hsum
    rcases hle with hle | hfails
    · omega
    · exact Bool.noConfusion hfails
  | nextRound hl hlt =>
    rw [hl] at hsum
    exact ⟨hinit, hpos, hsum⟩
  | finish hl hlast =>
    have hn := (hok _ _ hl).2
    rw [hl, Life.turns] at hsum
    refine ⟨hinit, hpos, ?_⟩
    dsimp only [Life.turns]
    omega

end Moved

namespace System

open Primary FrontEnd

variable {ι : Type*} [DecidableEq ι] {cfg : ClassConfig} {env : ReleaseConfig}
  {s s' s₁ : System ι} {t : ι}

/-- What follows while `pthread_setspecific` does not fail. -/
def Later (cfg : ClassConfig) (env : ReleaseConfig) (s : System ι) : System ι → Prop :=
  TransitionSystem.Reachable (· = s) (fun r a => r.Enabled cfg a ∧ a.fails = false)
    fun r a r' => r.step cfg env a = some r'

theorem roundsOk_of_reachable (hr : Reachable cfg env s) (t : ι) : (s.threads t).RoundsOk := by
  refine @TransitionSystem.Reachable.invariant _ _ _ _ _ (fun r => (r.threads t).RoundsOk) ?_ ?_ _
    hr
  · intro r h0 n turnDone hlife
    rw [h0.threads] at hlife
    exact Life.noConfusion hlife
  · exact fun r a r' hok _ hs => (step_moved hs t).roundsOk hok

/-- What every move of a thread keeps is still there later. -/
theorem Later.keeps {P : Thread → Prop} (hlater : Later cfg env s s')
    (hmove : ∀ {th th' : Thread}, Moved false th th' → th.RoundsOk → P th → P th')
    (hok : (s.threads t).RoundsOk) (h : P (s.threads t)) : P (s'.threads t) := by
  have hinv : (s'.threads t).RoundsOk ∧ P (s'.threads t) := by
    refine @TransitionSystem.Reachable.invariant _ _ _ _ _
      (fun r => (r.threads t).RoundsOk ∧ P (r.threads t)) ?_ ?_ _ hlater
    · intro r hr
      rw [hr]
      exact ⟨hok, h⟩
    · intro r a r' hi ha hs
      have hm := step_moved hs t
      rw [ha.2] at hm
      exact ⟨hm.roundsOk hi.1, hmove hm hi.1 hi.2⟩
  exact hinv.2

theorem initThreadMaybe_thread (hinit : (s.threads t).initState = .notInitialized)
    (hs : s.step cfg env (.initThreadMaybe t false) = some s₁) :
    s₁.threads t = { s.threads t with
      initState := .initialized, iterations := destructorIterations, keySet := true } := by
  obtain ⟨-, hs⟩ := whenIdle_eq hs
  simp only [System.initThreadMaybe, hinit, ne_eq, not_true_eq_false, if_false,
    Bool.false_eq_true] at hs
  obtain ⟨-, hs⟩ := Option.ite_none_left_eq_some.mp hs
  rw [← Option.some.inj hs]
  exact Function.update_self ..

/-- A thread that has gone through its exit is torn down exactly when it was initialised before the
turn of the key in the first round: later the counter does not run out any more, and the thread stays
initialized. -/
theorem tornDown_iff (hr : Reachable cfg env s)
    (hinit : (s.threads t).initState = .notInitialized)
    (hs : s.step cfg env (.initThreadMaybe t false) = some s₁) (hlater : Later cfg env s₁ s')
    (hpast : (s'.threads t).life = .past) :
    ((s'.threads t).initState = .tornDown ↔
      (s.threads t).life = .running ∨ (s.threads t).life = .round 1 false) ∧
    ((s'.threads t).initState ≠ .tornDown → (s'.threads t).initState = .initialized) := by
  have hth := initThreadMaybe_thread hinit hs
  have hok := roundsOk_of_reachable hr t
  have hok₁ : (s₁.threads t).RoundsOk := (step_moved hs t).roundsOk hok
  have hlate (hlate : ¬((s.threads t).life = .running ∨ (s.threads t).life = .round 1 false)) :
      (s'.threads t).initState = .initialized := by
    have hturns : 1 ≤ (s.threads t).life.turns := by
      cases hl : (s.threads t).life with
      | running => exact absurd (.inl hl) hlate
      | past => decide
      | round n turnDone =>
        have hn := (hok n turnDone hl).1
        cases turnDone with
        | true => exact hn
        | false =>
          have hne : n ≠ 1 := by
            intro h1
            rw [h1] at hl
            exact hlate (.inr hl)
          rw [Life.turns]
          omega
    have htoo : (s₁.threads t).TooLate := by
      rw [hth]
      exact ⟨rfl, by dsimp only; decide, by dsimp only; omega⟩
    exact (hlater.keeps Moved.tooLate hok₁ htoo).1
  have hearly (hlife : (s.threads t).life = .running ∨ (s.threads t).life = .round 1 false) :
      (s'.threads t).initState = .tornDown := by
    have htime : (s₁.threads t).InTime := by
      rw [hth]
      refine .inr ⟨rfl, rfl, by dsimp only; decide, ?_⟩
      dsimp only
      rcases hlife with hlife | hlife <;> rw [hlife] <;> rfl
    rcases hlater.keeps Moved.inTime hok₁ htime with hdown | ⟨-, -, hpos, hsum⟩
    · exact hdown
    · rw [hpast, Life.turns] at hsum
      omega
  refine ⟨⟨fun hdown => ?_, hearly⟩, fun hnot => ?_⟩
  · by_contra hlife
    rw [hlate hlife] at hdown
    exact InitState.noConfusion hdown
  · exact hlate fun hlife => hnot (hearly hlife)

/-- The only thread exits, and the key has its turn in every round. -/
def exits : List (Act Unit) :=
  [.exit (), .turn () false [], .nextRound (), .turn () false [], .nextRound (), .turn () false [],
    .nextRound (), .turn () false [], .finish ()]

theorem tornDown_iff_exits : ∃ s₁ s' : System Unit,
    step Blocks.smallConfig Blocks.smallEnv initial (.initThreadMaybe () false) = some s₁ ∧
    TransitionSystem.run (step Blocks.smallConfig Blocks.smallEnv) s₁ exits = some s' ∧
    (s'.threads ()).initState = .tornDown := by
  have hlife : ((step Blocks.smallConfig Blocks.smallEnv initial (.initThreadMaybe () false)).bind
      fun s₁ => TransitionSystem.run (step Blocks.smallConfig Blocks.smallEnv) s₁ exits).map
      (fun s' => (s'.threads ()).life) = some .past := by
    decide +kernel
  obtain ⟨s', hrun, hpast⟩ := Option.map_eq_some_iff.mp hlife
  obtain ⟨s₁, hs, hrun⟩ := Option.bind_eq_some_iff.mp hrun
  have hok : ∀ r : System Unit, ∀ a ∈ exits, r.Enabled Blocks.smallConfig a ∧ a.fails = false := by
    intro r
    simp only [exits, List.forall_mem_cons]
    exact ⟨⟨trivial, rfl⟩, ⟨trivial, rfl⟩, ⟨trivial, rfl⟩, ⟨trivial, rfl⟩, ⟨trivial, rfl⟩,
      ⟨trivial, rfl⟩, ⟨trivial, rfl⟩, ⟨trivial, rfl⟩, ⟨trivial, rfl⟩,
      fun _ h => absurd h List.not_mem_nil⟩
  have hlater : Later Blocks.smallConfig Blocks.smallEnv s₁ s' :=
    TransitionSystem.Reachable.run (.start rfl) hok hrun
  exact ⟨s₁, s', hs, hrun, (tornDown_iff (.start initial_init) rfl hs hlater hpast).1.mpr (.inl rfl)⟩

end System

end ScudoMte.Tsd.Exclusive
