import Mathlib.Algebra.BigOperators.Group.Finset.Basic
import Mathlib.Data.Multiset.DershowitzManna
import ScudoMte.Library.TransitionSystem

namespace ScudoMte.LockOrder

variable {L τ : Type*}

/-- What code does with locks. Which way it goes at a choice, and how often round a loop, is left
open. -/
inductive Code (L : Type*)
  | skip
  | lock (l : L)
  | unlock (l : L)
  | assertHeld (l : L)
  | tryLock (l : L) (taken missed : Code L)
  | seq (c d : Code L)
  | choose (c d : Code L)
  | loop (c : Code L)

namespace Code

/-- Code under a `ScopedLock`. -/
def locked (l : L) (c : Code L) : Code L := .seq (.lock l) (.seq c (.unlock l))

/-- One after the other. -/
def all : List (Code L) → Code L
  | [] => .skip
  | c :: cs => .seq c (all cs)

/-- Code that may be passed over. -/
def maybe (c : Code L) : Code L := .choose .skip c

/-- One of several. -/
def oneOf (cs : List (Code L)) : Code L := cs.foldr .choose .skip

def size : Code L → Nat
  | .tryLock _ c d | .seq c d | .choose c d => c.size + d.size + 1
  | .loop c => c.size + 1
  | _ => 0

end Code

/-- The owner of each lock, and what is left of the call that each thread is in. -/
structure System (L τ : Type*) where
  owner : L → Option τ
  pending : τ → List (Code L)

/-- A thread begins a call, or goes one step on. The number stands for what the data decides. -/
inductive Act (L τ : Type*)
  | call (t : τ) (c : Code L)
  | run (t : τ) (n : Nat)

section Step

variable [DecidableEq L] [DecidableEq τ]

/-- The owners behind a step of `t`, and what it has left to do. There is no step at a lock that is
taken, nor at an unlock or an assertion where `t` does not hold the lock. -/
def exec (t : τ) (n : Nat) (owner : L → Option τ) (k : List (Code L)) :
    Code L → Option ((L → Option τ) × List (Code L))
  | .skip => some (owner, k)
  | .lock l => if owner l = none then some (Function.update owner l (some t), k) else none
  | .unlock l => if owner l = some t then some (Function.update owner l none, k) else none
  | .assertHeld l => if owner l = some t then some (owner, k) else none
  | .tryLock l c d =>
    if owner l = none then some (Function.update owner l (some t), c :: k) else some (owner, d :: k)
  | .seq c d => some (owner, c :: d :: k)
  | .choose c d => some (owner, (if n = 0 then c else d) :: k)
  | .loop c => some (owner, List.replicate n c ++ k)

namespace System

def step (s : System L τ) : Act L τ → Option (System L τ)
  | .call t c =>
    match s.pending t with
    | [] => some { s with pending := Function.update s.pending t [c] }
    | _ :: _ => none
  | .run t n =>
    match s.pending t with
    | [] => none
    | c :: k => (exec t n s.owner k c).map fun (owner, k) =>
        { owner, pending := Function.update s.pending t k }

end System

end Step

namespace System

structure Init (s : System L τ) : Prop where
  owner : ∀ l, s.owner l = none
  pending : ∀ t, s.pending t = []

/-- Only certain calls are made. -/
def Enabled (calls : Code L → Prop) (_ : System L τ) : Act L τ → Prop
  | .call _ c => calls c
  | .run _ _ => True

abbrev Reachable [DecidableEq L] [DecidableEq τ] (calls : Code L → Prop) : System L τ → Prop :=
  TransitionSystem.Reachable Init (Enabled calls) fun s a s' => s.step a = some s'

/-- However the threads go on with their calls, they come to an end, and then no lock is held. -/
structure CallsFinish [DecidableEq L] [DecidableEq τ] (s : System L τ) : Prop where
  ends : Acc (fun s' s : System L τ => ∃ t n, s.step (.run t n) = some s') s
  ended : (∀ t n, s.step (.run t n) = none) → s.Init

end System

/-- The order of the locks, and which of them may be held together. -/
structure Discipline (L : Type*) where
  rank : L → Nat
  bound : Nat
  rank_le : ∀ l, rank l ≤ bound
  admits : List L → Prop

/-- Code that may run while the locks of `held` are held, and ends with such locks as `post` says.
It waits for a lock only while it holds locks of lower rank. -/
def Code.Meets [DecidableEq L] (D : Discipline L) : Code L → List L → (List L → Prop) → Prop
  | .skip, held, post => post held
  | .lock l, held, post =>
    (∀ m ∈ held, D.rank m < D.rank l) ∧ D.admits (l :: held) ∧ post (l :: held)
  | .unlock l, held, post => l ∈ held ∧ D.admits (held.erase l) ∧ post (held.erase l)
  | .assertHeld l, held, post => l ∈ held ∧ post held
  | .tryLock l c d, held, post =>
    (l ∉ held → D.admits (l :: held) ∧ c.Meets D (l :: held) post) ∧ d.Meets D held post
  | .seq c d, held, post => c.Meets D held fun held => d.Meets D held post
  | .choose c d, held, post => c.Meets D held post ∧ d.Meets D held post
  | .loop c, held, post =>
    ∃ I : List L → Prop, I held ∧ (∀ held, I held → c.Meets D held I) ∧ ∀ held, I held → post held

/-- Code that ends with the locks that it begins with. -/
abbrev Code.Keeps [DecidableEq L] (D : Discipline L) (c : Code L) (held : List L) : Prop :=
  c.Meets D held (· = held)

variable [DecidableEq L] {D : Discipline L} {c d : Code L} {l : L} {held : List L}
  {post post' : List L → Prop}

theorem Code.Meets.mono (h : c.Meets D held post) (himp : ∀ held, post held → post' held) :
    c.Meets D held post' := by
  induction c generalizing held post post' with
  | skip => exact himp _ h
  | lock l => exact ⟨h.1, h.2.1, himp _ h.2.2⟩
  | unlock l => exact ⟨h.1, h.2.1, himp _ h.2.2⟩
  | assertHeld l => exact ⟨h.1, himp _ h.2⟩
  | tryLock l c d ihc ihd =>
    exact ⟨fun hl => ⟨(h.1 hl).1, ihc (h.1 hl).2 himp⟩, ihd h.2 himp⟩
  | seq c d ihc ihd => exact ihc h fun held hd => ihd hd himp
  | choose c d ihc ihd => exact ⟨ihc h.1 himp, ihd h.2 himp⟩
  | loop c ih =>
    obtain ⟨I, hI, hstep, hpost⟩ := h
    exact ⟨I, hI, hstep, fun held hI => himp held (hpost held hI)⟩

namespace Code.Keeps

theorem skip : Code.skip.Keeps D held := rfl

theorem seq (hc : c.Keeps D held) (hd : d.Keeps D held) : (Code.seq c d).Keeps D held := by
  apply hc.mono
  intro held' h'
  rw [h']
  exact hd

theorem choose (hc : c.Keeps D held) (hd : d.Keeps D held) : (Code.choose c d).Keeps D held :=
  ⟨hc, hd⟩

theorem maybe (hc : c.Keeps D held) : c.maybe.Keeps D held := choose skip hc

theorem loop (hc : c.Keeps D held) : (Code.loop c).Keeps D held := by
  refine ⟨(· = held), rfl, fun held' h' => ?_, fun _ h' => h'⟩
  rw [h']
  exact hc

theorem all {cs : List (Code L)} (h : ∀ c ∈ cs, c.Keeps D held) : (Code.all cs).Keeps D held := by
  induction cs with
  | nil => rfl
  | cons c cs ih =>
    exact seq (h c List.mem_cons_self) (ih fun c hc => h c (List.mem_cons_of_mem _ hc))

theorem oneOf {cs : List (Code L)} (h : ∀ c ∈ cs, c.Keeps D held) :
    (Code.oneOf cs).Keeps D held := by
  induction cs with
  | nil => rfl
  | cons c cs ih =>
    exact choose (h c List.mem_cons_self) (ih fun c hc => h c (List.mem_cons_of_mem _ hc))

theorem tryLock (hfree : l ∉ held → D.admits (l :: held) ∧ c.Meets D (l :: held) (· = held))
    (hd : d.Keeps D held) : (Code.tryLock l c d).Keeps D held := ⟨hfree, hd⟩

/-- What is held under a lock is let go again. -/
theorem unlock (hheld : D.admits held) (hc : c.Keeps D (l :: held)) :
    (Code.seq c (.unlock l)).Meets D (l :: held) (· = held) := by
  apply hc.mono
  intro held' h'
  rw [h', Code.Meets, List.erase_cons_head]
  exact ⟨List.mem_cons_self, hheld, rfl⟩

theorem locked (hrank : ∀ m ∈ held, D.rank m < D.rank l) (hin : D.admits (l :: held))
    (hheld : D.admits held) (hc : c.Keeps D (l :: held)) : (c.locked l).Keeps D held :=
  ⟨hrank, hin, unlock hheld hc⟩

end Code.Keeps

/-- Locks that are taken one after the other, each above those before it. -/
theorem Code.Meets.lockAll {ls : List L} (hsorted : ls.Pairwise fun l m => D.rank l < D.rank m)
    (hrank : ∀ l ∈ ls, ∀ m ∈ held, D.rank m < D.rank l)
    (hadmits : ∀ l ∈ ls, ∀ held, D.admits held → D.admits (l :: held)) (hheld : D.admits held) :
    (Code.all (ls.map .lock)).Meets D held (· = ls.reverse ++ held) := by
  induction ls generalizing held with
  | nil => rfl
  | cons l ls ih =>
    obtain ⟨hl, hls⟩ := List.pairwise_cons.mp hsorted
    have hin := hadmits l List.mem_cons_self held hheld
    refine ⟨hrank l List.mem_cons_self, hin, ?_⟩
    rw [List.reverse_cons, List.append_assoc]
    apply ih hls ?_ (fun m hm => hadmits m (List.mem_cons_of_mem _ hm)) hin
    intro m hm x hx
    rcases List.mem_cons.mp hx with rfl | hx
    · exact hl m hm
    · exact hrank m (List.mem_cons_of_mem _ hm) x hx

/-- Unlocks behind which nothing is held tell what is held in front of them. -/
theorem Code.Meets.perm_of_unlockAll {ls : List L}
    (h : (Code.all (ls.map .unlock)).Meets D held (· = [])) : held.Perm ls := by
  induction ls generalizing held with
  | nil => exact .of_eq h
  | cons l ls ih => exact (List.perm_cons_erase h.1).trans ((ih h.2.2).cons l)

/-- The locks that were taken last are let go first. -/
theorem Code.Meets.unlockAll {ls : List L} (hadmits : ∀ ls', ls' <:+ ls → D.admits (ls' ++ held)) :
    (Code.all (ls.map .unlock)).Meets D (ls ++ held) (· = held) := by
  induction ls with
  | nil => rfl
  | cons l ls ih =>
    refine ⟨List.mem_cons_self, ?_, ?_⟩
    · rw [List.cons_append, List.erase_cons_head]
      exact hadmits ls (List.suffix_cons l ls)
    · rw [List.cons_append, List.erase_cons_head]
      exact ih fun ls' h => hadmits ls' (h.trans (List.suffix_cons l ls))

end ScudoMte.LockOrder
