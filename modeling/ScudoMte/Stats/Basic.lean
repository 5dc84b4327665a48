import Mathlib.Data.ZMod.Basic
import ScudoMte.Common
import ScudoMte.Library.Slots

namespace ScudoMte.Stats

open Slots

inductive StatType
  | allocated | free | mapped
  deriving DecidableEq

/-- Where the counters wrap. -/
def modulus : Nat := 2^64

/-- `LocalStats`: the counters of one thread. -/
abbrev LocalStats := StatType → Nat

namespace LocalStats

def add (s : LocalStats) (i : StatType) (v : Nat) : LocalStats :=
  Function.update s i ((v + s i) % modulus)

def sub (s : LocalStats) (i : StatType) (v : Nat) : LocalStats :=
  Function.update s i ((s i + modulus - v % modulus) % modulus)

variable (s : LocalStats) (i : StatType) (v : Nat)

theorem add_self : ((s.add i v i : Nat) : ZMod modulus) = s i + v := by
  rw [add, Function.update_self, ZMod.natCast_mod, Nat.cast_add, add_comm]

theorem add_of_ne {j : StatType} (h : j ≠ i) : s.add i v j = s j := Function.update_of_ne h ..

theorem sub_self : ((s.sub i v i : Nat) : ZMod modulus) + v = s i := by
  have hv := Nat.mod_lt v (show 0 < modulus by decide)
  have hback : s i + modulus - v % modulus + v % modulus = s i + modulus := by omega
  rw [sub, Function.update_self, ZMod.natCast_mod, ← ZMod.natCast_mod v, ← Nat.cast_add, hback,
    Nat.cast_add, ZMod.natCast_self, add_zero]

theorem sub_of_ne {j : StatType} (h : j ≠ i) : s.sub i v j = s j := Function.update_of_ne h ..

end LocalStats

/-- `GlobalStats`: the counters that threads have left behind, and the list of those that still
have their own. -/
structure GlobalStats (η : Type*) where
  stats : LocalStats
  statsList : List η

namespace GlobalStats

variable {η : Type*}

def link (g : GlobalStats η) (h : η) : GlobalStats η := { g with statsList := g.statsList ++ [h] }

def unlink [DecidableEq η] (g : GlobalStats η) (h : η) (s : LocalStats) : GlobalStats η where
  stats := fun i => (s i + g.stats i) % modulus
  statsList := g.statsList.erase h

/-- The sums of `get`, in the counters of the machine. -/
def sums (g : GlobalStats η) (locals : η → LocalStats) (i : StatType) : Nat :=
  g.statsList.foldl (fun a h => (a + locals h i) % modulus) (g.stats i)

def get (g : GlobalStats η) (locals : η → LocalStats) (i : StatType) : Nat :=
  if g.sums locals i < 2^63 then g.sums locals i else 0

/-- What the counters add up to. -/
def total (g : GlobalStats η) (locals : η → LocalStats) (i : StatType) : ZMod modulus :=
  g.stats i + (g.statsList.map fun h => (locals h i : ZMod modulus)).sum

variable (g : GlobalStats η) (locals : η → LocalStats) (i : StatType)

theorem sums_cast : (g.sums locals i : ZMod modulus) = g.total locals i := by
  have hfold (l : List η) (a : Nat) :
      ((l.foldl (fun a h => (a + locals h i) % modulus) a : Nat) : ZMod modulus) =
        a + (l.map fun h => (locals h i : ZMod modulus)).sum := by
    induction l generalizing a with
    | nil => simp
    | cons h l ih =>
      rw [List.foldl_cons, ih, List.map_cons, List.sum_cons, ZMod.natCast_mod, Nat.cast_add, add_assoc]
  exact hfold g.statsList (g.stats i)

/-- The sums are the counters of the machine, if the ones that were left behind are. -/
theorem sums_lt (h : g.stats i < modulus) : g.sums locals i < modulus := by
  have hfold (l : List η) (a : Nat) (ha : a < modulus) :
      l.foldl (fun a h => (a + locals h i) % modulus) a < modulus := by
    induction l generalizing a with
    | nil => exact ha
    | cons h l ih => exact ih _ (Nat.mod_lt _ (by decide))
  exact hfold g.statsList (g.stats i) h

theorem total_link (h : η) : (g.link h).total locals i = g.total locals i + locals h i := by
  rw [total, link, List.map_append, List.sum_append, List.map_singleton, List.sum_singleton, ← add_assoc,
    total]

theorem total_unlink [DecidableEq η] {h : η} (hmem : h ∈ g.statsList) :
    (g.unlink h (locals h)).total locals i = g.total locals i := by
  have hsum := ((List.perm_cons_erase hmem).map fun h => (locals h i : ZMod modulus)).sum_eq
  rw [List.map_cons, List.sum_cons] at hsum
  rw [total, total, unlink, hsum]
  simp only
  rw [ZMod.natCast_mod, Nat.cast_add]
  abel

/-- One linked holder gets other counters. -/
theorem total_update [DecidableEq η] (hn : g.statsList.Nodup) {h : η} (hmem : h ∈ g.statsList)
    (s : LocalStats) :
    g.total (Function.update locals h s) i + locals h i = g.total locals i + s i := by
  have hmap : (g.statsList.map fun h' => (Function.update locals h s h' i : ZMod modulus)) =
      g.statsList.map (Function.update (fun h' => (locals h' i : ZMod modulus)) h (s i)) := by
    apply List.map_congr_left
    intro h' _
    by_cases heq : h' = h
    · rw [heq, Function.update_self, Function.update_self]
    · rw [Function.update_of_ne heq, Function.update_of_ne heq]
  rw [total, total, hmap, add_assoc, sum_map_update hn hmem, add_assoc]

end GlobalStats

end ScudoMte.Stats
