import ScudoMte.Library.Ledger
import ScudoMte.Library.TransitionSystem
import ScudoMte.Wrappers.Hooks

namespace ScudoMte.Wrappers

open Chunk Ledger

/-- An allocator: the live pointers with the sizes that were requested for them, and what each of its
calls may do to them. Where a pointer's size is not known, `getAllocSize` may tell anything. -/
structure Allocator (σ : Type) where
  Init : σ → Prop
  live : σ → Nat → Option Nat
  Allocate : σ → Nat → Origin → Nat → Bool → Option Nat → σ → Prop
  Deallocate : σ → Nat → Origin → σ → Prop
  Reallocate : σ → Nat → Nat → Nat → Option Nat → σ → Prop
  AllocSize : σ → Nat → Nat → Prop
  SizeKnown : σ → Nat → Prop
  Internal : σ → σ → Prop
  init_live : ∀ h, Init h → ∀ p, live h p = none
  allocate_null : ∀ h size origin alignment zero h',
    Allocate h size origin alignment zero none h' → live h' = live h
  allocate_some : ∀ h size origin alignment zero p h',
    Allocate h size origin alignment zero (some p) h' →
      live h p = none ∧ live h' = Function.update (live h) p (some size)
  deallocate_live : ∀ h p origin h', Deallocate h p origin h' →
    live h' = Function.update (live h) p none
  reallocate_null : ∀ h p size alignment h', Reallocate h p size alignment none h' → live h' = live h
  reallocate_some : ∀ h p size alignment q h', Reallocate h p size alignment (some q) h' →
    Function.update (live h) p none q = none ∧
      live h' = Function.update (Function.update (live h) p none) q (some size)
  allocSize_known : ∀ h p n m, AllocSize h p n → SizeKnown h p → live h p = some m → n = m
  internal_live : ∀ h h', Internal h h' → live h' = live h

/-- The allocator, the calls of hooks so far, what each thread has still to do in its call, if it is in
one, and the pointers that the program may pass to a call. -/
structure System (σ : Type) where
  heap : σ
  events : List HookEvent
  threads : Nat → Option Code
  held : Nat → Bool

inductive Move
  | call (t : Nat) (c : Call)
  | act (t : Nat)
  | internal

variable {σ : Type} (A : Allocator σ) (P : Platform)

/-- One step: a thread starts a call with a pointer that is its to pass, does what comes next in it,
or comes back from it; or the allocator does something of its own. -/
inductive Step : System σ → Move → System σ → Prop
  | call {s : System σ} {t : Nat} {c : Call} (hidle : s.threads t = none)
      (hvalid : ∀ p, c.ptr = some p → s.held p = true) :
      Step s (.call t c) { s with
        threads := Function.update s.threads t (some (c.code P))
        held := c.ptr.elim s.held fun p => Function.update s.held p false }
  | report {s : System σ} {t : Nat} {e : HookEvent} {next : Code}
      (hc : s.threads t = some (.report e next)) :
      Step s (.act t) { s with
        events := s.events ++ [e], threads := Function.update s.threads t (some next) }
  | allocate {s : System σ} {t size alignment : Nat} {origin : Origin} {zero : Bool}
      {next : Option Nat → Code} {ptr : Option Nat} {h' : σ}
      (hc : s.threads t = some (.allocate size origin alignment zero next))
      (ha : A.Allocate s.heap size origin alignment zero ptr h') :
      Step s (.act t) { s with heap := h', threads := Function.update s.threads t (some (next ptr)) }
  | deallocateNull {s : System σ} {t : Nat} {origin : Origin} {next : Code}
      (hc : s.threads t = some (.deallocate none origin next)) :
      Step s (.act t) { s with threads := Function.update s.threads t (some next) }
  | deallocate {s : System σ} {t p : Nat} {origin : Origin} {next : Code} {h' : σ}
      (hc : s.threads t = some (.deallocate (some p) origin next))
      (ha : A.Deallocate s.heap p origin h') :
      Step s (.act t) { s with heap := h', threads := Function.update s.threads t (some next) }
  | reallocate {s : System σ} {t p size alignment : Nat} {next : Option Nat → Code}
      {ptr : Option Nat} {h' : σ} (hc : s.threads t = some (.reallocate p size alignment next))
      (ha : A.Reallocate s.heap p size alignment ptr h') :
      Step s (.act t) { s with heap := h', threads := Function.update s.threads t (some (next ptr)) }
  | getAllocSize {s : System σ} {t p n : Nat} {next : Nat → Code}
      (hc : s.threads t = some (.getAllocSize p next)) (ha : A.AllocSize s.heap p n) :
      Step s (.act t) { s with threads := Function.update s.threads t (some (next n)) }
  | ret {s : System σ} {t : Nat} {result : Returned} {kept : Option Nat}
      (hc : s.threads t = some (.ret result kept)) :
      Step s (.act t) { s with
        threads := Function.update s.threads t none
        held := kept.elim s.held fun p => Function.update s.held p true }
  | internal {s : System σ} {h' : σ} (ha : A.Internal s.heap h') :
      Step s .internal { s with heap := h' }

/-- No call has been made. -/
structure System.Init (s : System σ) : Prop where
  heap : A.Init s.heap
  events : s.events = []
  threads : ∀ t, s.threads t = none
  held : ∀ p, s.held p = false

/-- No page is asked for with `pvalloc(0)`, and `getAllocSize` is called where it knows the size. -/
def Admits (s : System σ) : Move → Prop
  | .call _ (.pvalloc size) => size ≠ 0
  | .act t => ∀ p next, s.threads t = some (.getAllocSize p next) → A.SizeKnown s.heap p
  | _ => True

/-- The states of the runs whose moves satisfy a condition. -/
def ReachableWith (ok : System σ → Move → Prop) : System σ → Prop :=
  TransitionSystem.Reachable (System.Init A) ok (Step A P)

/-- The hooks never tell of a pointer twice, nor of the end of one that they did not tell of; and
between calls they have told of the live pointers and of the sizes requested for them. -/
def System.HooksMirror (s : System σ) : Prop :=
  ∃ told, replay s.events = some told ∧ ((∀ t, s.threads t = none) → told = A.live s.heap)

/-- The rest of a call can be done with what the thread has in hand. -/
def Code.Follows : Code → Claim Nat Nat → Prop
  | ret _ kept, c => c = kept.elim .nothing .holds
  | fatal, _ => True
  | report (.allocate p n) next, c | report (.reallocAllocate _ p n) next, c =>
      c = .unreported p n ∧ next.Follows (.holds p)
  | report (.deallocate none) next, c => c = .nothing ∧ next.Follows .nothing
  | report (.deallocate (some p)) next, c | report (.reallocDeallocate p) next, c =>
      c = .holds p ∧ ∀ n, next.Follows (.unreported p n)
  | allocate size _ _ _ next, c =>
      c = .nothing ∧ (next none).Follows .nothing ∧ ∀ p, (next (some p)).Follows (.unreported p size)
  | deallocate none _ next, c => c = .nothing ∧ next.Follows .nothing
  | deallocate (some p) _ next, c => (∃ n, c = .unreported p n) ∧ next.Follows .nothing
  | reallocate p size _ next, c => ∃ n, c = .unreported p n ∧
      (next none).Follows (.unreported p n) ∧ ∀ q, (next (some q)).Follows (.unreported q size)
  | getAllocSize p next, c => ∃ n, c = .unreported p n ∧ (next n).Follows (.unreported p n)

/-- A wrapper that hands out a new pointer reports it with the size that it asked for. -/
theorem follows_handOut {size : Nat} {origin : Origin} {alignment : Nat} {zero : Bool}
    {result : Option Nat → Returned} :
    (Code.allocate size origin alignment zero fun ptr =>
      reportAllocation ptr size (.ret (result ptr) ptr)).Follows .nothing :=
  ⟨rfl, rfl, fun _ => ⟨rfl, rfl⟩⟩

theorem follows_reject (errno : Errno) : (P.reject errno).Follows .nothing := by
  rw [Platform.reject]
  split
  · exact rfl
  · trivial

/-- Every call but `pvalloc(0)` keeps the records. -/
theorem Call.follows (c : Call) (hc : c ≠ .pvalloc 0) :
    (c.code P).Follows (c.ptr.elim .nothing .holds) := by
  cases c with
  | malloc size => exact follows_handOut
  | valloc size => exact follows_handOut
  | calloc nmemb size =>
    simp only [Call.code, Wrappers.calloc]
    split
    · exact follows_reject P _
    · exact follows_handOut
  | memalign alignment size =>
    simp only [Call.code, Wrappers.memalign]
    split
    · exact follows_handOut
    · split
      · exact follows_reject P _
      · exact follows_handOut
  | posixMemalign alignment size =>
    simp only [Call.code, Wrappers.posixMemalign]
    split
    · exact follows_reject P _
    · exact ⟨rfl, rfl, fun _ => ⟨rfl, rfl⟩⟩
  | pvalloc size =>
    have hsize : size ≠ 0 := fun h => hc (by rw [h])
    simp only [Call.code, Wrappers.pvalloc, if_pos hsize]
    split
    · exact follows_reject P _
    · exact follows_handOut
  | alignedAlloc alignment size =>
    simp only [Call.code, Wrappers.alignedAlloc]
    split
    · exact follows_reject P _
    · exact follows_handOut
  | realloc ptr size =>
    cases ptr with
    | none => exact follows_handOut
    | some p =>
      simp only [Call.code, Wrappers.realloc]
      split
      · exact ⟨rfl, fun n => ⟨⟨n, rfl⟩, rfl⟩⟩
      · exact ⟨rfl, fun n => ⟨n, rfl, ⟨n, rfl, rfl, rfl⟩, fun q => ⟨rfl, rfl⟩⟩⟩
  | free ptr =>
    cases ptr with
    | none => exact ⟨rfl, rfl, rfl⟩
    | some p => exact ⟨rfl, fun n => ⟨⟨n, rfl⟩, rfl⟩⟩

/-- What a thread has in hand fits what it has still to do. -/
def Doing : Option Code → Claim Nat Nat → Prop
  | none, c => c = .nothing
  | some code, c => code.Follows c

theorem doing_update {threads : Nat → Option Code} {claim : Nat → Claim Nat Nat} {t : Nat}
    {code : Option Code} {c : Claim Nat Nat} (h : ∀ u, Doing (threads u) (claim u))
    (hc : Doing code c) (u : Nat) :
    Doing (Function.update threads t code u) (Function.update claim t c u) := by
  by_cases hu : u = t
  · rw [hu, Function.update_self, Function.update_self]
    exact hc
  · rw [Function.update_of_ne hu, Function.update_of_ne hu]
    exact h u

structure System.Inv (s : System σ) (told : Replayed) (claim : Nat → Claim Nat Nat) : Prop where
  replayed : replay s.events = some told
  mirrors : Mirrors told (A.live s.heap) s.held claim
  doing : ∀ t, Doing (s.threads t) (claim t)

variable {A P}

theorem System.Inv.next {s : System σ} {told : Replayed} {claim : Nat → Claim Nat Nat} {t : Nat}
    {code : Code} (hi : s.Inv A told claim) (hc : s.threads t = some code) :
    code.Follows (claim t) := by
  have hdoing := hi.doing t
  rwa [hc] at hdoing

/-- An event is in order, and afterwards the thread has what it needs for the rest of the call. -/
theorem System.Inv.report {s : System σ} {told : Replayed} {claim : Nat → Claim Nat Nat} {t : Nat}
    {e : HookEvent} {next : Code} (hi : s.Inv A told claim)
    (hc : s.threads t = some (.report e next)) :
    ∃ told' c, replayEvent told e = some told' ∧ next.Follows c ∧
      Mirrors told' (A.live s.heap) s.held (Function.update claim t c) := by
  have hf := hi.next hc
  have added {p n : Nat} (h : claim t = .unreported p n) :
      replayEvent told (.allocate p n) = some (Function.update told p (some n)) := by
    simp [replayEvent, (hi.mirrors.unreported t p n h).2]
  have removed {p : Nat} (h : claim t = .holds p) :
      replayEvent told (.deallocate (some p)) = some (Function.update told p none) := by
    simp [replayEvent, (hi.mirrors.holds t p h).1]
  cases e with
  | allocate p n =>
    obtain ⟨h, hnext⟩ := hf
    exact ⟨_, _, added h, hnext, hi.mirrors.record h⟩
  | reallocAllocate q p n =>
    obtain ⟨h, hnext⟩ := hf
    exact ⟨_, _, added h, hnext, hi.mirrors.record h⟩
  | reallocDeallocate p =>
    obtain ⟨h, hnext⟩ := hf
    obtain ⟨n, hn⟩ := Option.isSome_iff_exists.mp (hi.mirrors.holds t p h).1
    exact ⟨_, _, removed h, hnext n, hi.mirrors.retract h hn⟩
  | deallocate ptr =>
    cases ptr with
    | none =>
      obtain ⟨h, hnext⟩ := hf
      refine ⟨told, .nothing, rfl, hnext, ?_⟩
      rw [← h, Function.update_eq_self]
      exact hi.mirrors
    | some p =>
      obtain ⟨h, hnext⟩ := hf
      obtain ⟨n, hn⟩ := Option.isSome_iff_exists.mp (hi.mirrors.holds t p h).1
      exact ⟨_, _, removed h, hnext n, hi.mirrors.retract h hn⟩

theorem System.Init.inv {s : System σ} (h0 : System.Init A s) :
    s.Inv A (fun _ => none) fun _ => .nothing where
  replayed := by
    rw [h0.events]
    rfl
  mirrors := by
    refine ⟨nofun, ?_, nofun, ?_, nofun, nofun⟩
    · intro p n hp
      simp [A.init_live _ h0.heap] at hp
    · intro p hp
      simp [h0.held] at hp
  doing t := by
    rw [h0.threads]
    rfl

/-- One step of any thread, or of the allocator, keeps the records in order. -/
theorem System.Inv.step {s s' : System σ} {told : Replayed} {claim : Nat → Claim Nat Nat} {v : Move}
    (hi : s.Inv A told claim) (hok : Admits A s v) (hs : Step A P s v s') :
    ∃ told' claim', s'.Inv A told' claim' := by
  have hm := hi.mirrors
  cases hs with
  | @call t c hidle hvalid =>
    have hnone : claim t = .nothing := by
      have hdoing := hi.doing t
      rwa [hidle] at hdoing
    have hfollows := Call.follows P c (by
      rintro rfl
      exact hok rfl)
    refine ⟨told, _, hi.replayed, ?_, doing_update hi.doing hfollows⟩
    cases hp : c.ptr with
    | none =>
      rw [Option.elim_none, Option.elim_none, ← hnone, Function.update_eq_self]
      exact hm
    | some p => exact hm.take hnone (hvalid p hp)
  | report hc =>
    obtain ⟨told', c, hevent, hnext, hm'⟩ := hi.report hc
    exact ⟨told', _, replay_append hi.replayed hevent, hm', doing_update hi.doing hnext⟩
  | @allocate t size alignment origin zero next ptr h' hc ha =>
    obtain ⟨h, hnull, hsome⟩ := hi.next hc
    cases ptr with
    | none =>
      refine ⟨told, Function.update claim _ .nothing, hi.replayed, ?_, doing_update hi.doing hnull⟩
      rw [← h, Function.update_eq_self, A.allocate_null _ _ _ _ _ _ ha]
      exact hm
    | some p =>
      obtain ⟨hfree, hlive⟩ := A.allocate_some _ _ _ _ _ _ _ ha
      refine ⟨told, _, hi.replayed, ?_, doing_update hi.doing (hsome p)⟩
      rw [hlive]
      exact hm.grant h hfree
  | deallocateNull hc =>
    obtain ⟨h, hnext⟩ := hi.next hc
    refine ⟨told, Function.update claim _ .nothing, hi.replayed, ?_, doing_update hi.doing hnext⟩
    rw [← h, Function.update_eq_self]
    exact hm
  | deallocate hc ha =>
    obtain ⟨⟨n, h⟩, hnext⟩ := hi.next hc
    refine ⟨told, _, hi.replayed, ?_, doing_update hi.doing hnext⟩
    rw [A.deallocate_live _ _ _ _ ha]
    exact hm.free h
  | @reallocate t p size alignment next ptr h' hc ha =>
    obtain ⟨n, h, hnull, hsome⟩ := hi.next hc
    cases ptr with
    | none =>
      refine ⟨told, Function.update claim _ (.unreported p n), hi.replayed, ?_,
        doing_update hi.doing hnull⟩
      rw [← h, Function.update_eq_self, A.reallocate_null _ _ _ _ _ ha]
      exact hm
    | some q =>
      -- as the release of `p` and then an allocation
      obtain ⟨hfree, hlive⟩ := A.reallocate_some _ _ _ _ _ _ ha
      have hmoved := (hm.free h).grant (t := t) (n := size) (Function.update_self ..) hfree
      rw [Function.update_idem] at hmoved
      refine ⟨told, _, hi.replayed, ?_, doing_update hi.doing (hsome q)⟩
      rw [hlive]
      exact hmoved
  | @getAllocSize t p n next hc ha =>
    obtain ⟨m, h, hnext⟩ := hi.next hc
    have hsize : n = m :=
      A.allocSize_known _ _ _ _ ha (hok p next hc) (hm.unreported t p m h).1
    subst hsize
    refine ⟨told, Function.update claim t (.unreported p n), hi.replayed, ?_,
      doing_update hi.doing hnext⟩
    rw [← h, Function.update_eq_self]
    exact hm
  | @ret t result kept hc =>
    have h : claim t = kept.elim .nothing .holds := hi.next hc
    refine ⟨told, Function.update claim t .nothing, hi.replayed, ?_, doing_update hi.doing rfl⟩
    cases kept with
    | none =>
      have hnone : claim t = .nothing := h
      rw [Option.elim_none, ← hnone, Function.update_eq_self]
      exact hm
    | some p => exact hm.giveBack h
  | internal ha =>
    refine ⟨told, claim, hi.replayed, ?_, hi.doing⟩
    rw [A.internal_live _ _ ha]
    exact hm

/-- The hooks mirror the allocator in every run whose moves are admitted. -/
theorem ReachableWith.hooksMirror {s : System σ} (hr : ReachableWith A P (Admits A) s) :
    s.HooksMirror A := by
  have hinv : ∃ told claim, s.Inv A told claim := by
    refine @TransitionSystem.Reachable.invariant _ _ _ _ _
      (fun s => ∃ told claim, s.Inv A told claim) (fun _ h0 => ⟨_, _, h0.inv⟩) ?_ _ hr
    intro s v s' ⟨told, claim, hi⟩ hok hs
    exact hi.step hok hs
  obtain ⟨told, claim, hi⟩ := hinv
  refine ⟨told, hi.replayed, fun hidle => hi.mirrors.eq_live fun t => ?_⟩
  have hdoing := hi.doing t
  rwa [hidle] at hdoing

/-- A call that hands out a new pointer, made while no other is in progress. -/
theorem ReachableWith.handsOut {ok : System σ → Move → Prop} {s : System σ} {c : Call}
    {size n alignment p : Nat} {origin : Origin} {zero : Bool} {result : Option Nat → Returned}
    {h' : σ} (hr : ReachableWith A P ok s) (hidle : ∀ t, s.threads t = none) (hptr : c.ptr = none)
    (hcode : c.code P = .allocate size origin alignment zero fun ptr =>
      reportAllocation ptr n (.ret (result ptr) ptr))
    (ha : A.Allocate s.heap size origin alignment zero (some p) h') (hcall : ok s (.call 0 c))
    (hact : ∀ s, (∀ p next, s.threads 0 ≠ some (.getAllocSize p next)) → ok s (.act 0)) :
    ReachableWith A P ok
      ⟨h', s.events ++ [.allocate p n], fun _ => none, Function.update s.held p true⟩ := by
  have hnull : c.ptr.elim s.held (fun p => Function.update s.held p false) = s.held := by rw [hptr]; rfl
  have hstart : Step A P s (.call 0 c)
      { s with threads := Function.update s.threads 0 (some (c.code P)) } := by
    have hcall := @Step.call _ A P s 0 c (hidle 0) (by simp [hptr])
    rwa [hnull] at hcall
  have h1 := hr.next hcall hstart
  have hnext (code : Code) : Function.update s.threads 0 (some code) 0 = some code :=
    Function.update_self ..
  have h2 : ReachableWith A P ok ⟨h', s.events, Function.update s.threads 0 (some (.report
      (.allocate p n) (.ret (result (some p)) (some p)))), s.held⟩ := by
    have hallocated := h1.next (hact _ (by simp [hcode]))
      (.allocate ((hnext _).trans (congrArg some hcode)) ha)
    simpa only [ReachableWith, Function.update_idem, reportAllocation] using hallocated
  have h3 : ReachableWith A P ok ⟨h', s.events ++ [.allocate p n], Function.update s.threads 0
      (some (.ret (result (some p)) (some p))), s.held⟩ := by
    have hreported := h2.next (hact _ (by simp)) (.report (hnext _))
    simpa only [ReachableWith, Function.update_idem] using hreported
  have h4 := h3.next (hact _ (by simp)) (.ret (hnext _))
  have hthreads : Function.update s.threads 0 none = fun _ => none := by
    rw [funext hidle]
    exact Function.update_eq_self 0 _
  simpa only [ReachableWith, Function.update_idem, hthreads, Option.elim_some] using h4

end ScudoMte.Wrappers
