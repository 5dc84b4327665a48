import Mathlib.Algebra.Group.Nat.Defs
import Mathlib.Data.List.Perm.Basic

namespace ScudoMte

/-- The xorshift step on a 32-bit state, which is also its result. -/
def getRandomU32 (state : Nat) : Nat :=
  let state := state ^^^ (state <<< 13) % 2^32
  let state := state ^^^ state >>> 17
  state ^^^ (state <<< 5) % 2^32

/-- The loop of `shuffle` for the indexes from `i` down to 1, with the state it ends in. -/
def shuffleFrom {α : Type*} : Nat → List α → Nat → List α × Nat
  | 0, a, state => (a, state)
  | i+1, a, state =>
    let state := getRandomU32 state
    shuffleFrom i (a.swap (i+1) (state % (i+2))) state

def shuffle {α : Type*} (a : List α) (state : Nat) : List α × Nat :=
  if a.length ≤ 1 then (a, state) else shuffleFrom (a.length - 1) a state

theorem shuffleFrom_perm {α : Type*} (i : Nat) (a : List α) (state : Nat) :
    (shuffleFrom i a state).1.Perm a := by
  induction i generalizing a state with
  | zero => exact .refl a
  | succ i ih => exact (ih _ _).trans (List.swap_perm a _ _)

theorem shuffle_perm {α : Type*} (a : List α) (state : Nat) : (shuffle a state).1.Perm a := by
  rw [shuffle]
  split
  · exact .refl a
  · exact shuffleFrom_perm _ a state

end ScudoMte
