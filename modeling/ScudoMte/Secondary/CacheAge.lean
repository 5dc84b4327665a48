import ScudoMte.Secondary.ListSafety

namespace ScudoMte.Secondary

variable {cfg : Config} {c : Cache}

/-- Of two entries that are not released, the one that is closer to the end is no younger, and
all of them are in the part of the list that ends with the oldest present one. -/
structure AgeOrdered (c : Cache) : Prop where
  sorted : c.lruEntries.Pairwise fun i j =>
    (c.entries i).time ≠ 0 → (c.entries j).time ≤ (c.entries i).time
  oldest : ∃ l1 l2, c.lruEntries = l1 ++ l2 ∧ c.oldestPresentEntry = l1.getLast? ∧
    ∀ i ∈ l2, (c.entries i).time = 0

/-- Released entries are behind the others, and the release of pages starts at one of the
others. -/
structure PresentFirst (c : Cache) : Prop where
  sorted : c.lruEntries.Pairwise fun i j => (c.entries i).time = 0 → (c.entries j).time = 0
  oldest : ∀ o, c.oldestPresentEntry = some o → (c.entries o).time ≠ 0

/-- The entries from the most to the least recent one: first those that are not released, none
younger than the one before it, the last of which is the oldest present one, and then those that
are released. -/
def LruOrdered (c : Cache) : Prop :=
  ∃ young old, c.lruEntries = young ++ old ∧
    (∀ i ∈ young, (c.entries i).time ≠ 0) ∧
    young.Pairwise (fun i j => (c.entries j).time ≤ (c.entries i).time) ∧
    (∀ i ∈ old, (c.entries i).time = 0) ∧ c.oldestPresentEntry = young.getLast?

theorem AgeOrdered.lruOrdered (h : AgeOrdered c) (hp : PresentFirst c) : LruOrdered c := by
  obtain ⟨l1, l2, hlru, ho, hold⟩ := h.oldest
  have hsorted := h.sorted
  have hfirst := hp.sorted
  rw [hlru, List.pairwise_append] at hsorted hfirst
  have hyoung : ∀ i ∈ l1, (c.entries i).time ≠ 0 := by
    intro i hi h0
    cases hlast : l1.getLast? with
    | none => simp [List.getLast?_eq_none_iff.mp hlast] at hi
    | some o =>
      refine hp.oldest o (ho.trans hlast) ?_
      obtain ⟨l, rfl⟩ := List.getLast?_eq_some_iff.mp hlast
      rcases List.mem_append.mp hi with hi | hi
      · exact (List.pairwise_append.mp hfirst.1).2.2 i hi o List.mem_cons_self h0
      · rwa [← List.mem_singleton.mp hi]
  exact ⟨l1, l2, hlru, hyoung, hsorted.1.imp_of_mem fun hi _ hle => hle (hyoung _ hi), hold, ho⟩

theorem getPrev_of_notMem {l : List Nat} {i : Nat} (h : i ∉ l) : Cache.getPrev l i = none := by
  induction l with
  | nil => rfl
  | cons a l ih =>
    cases l with
    | nil => rfl
    | cons b l =>
      simp only [List.mem_cons, not_or] at h
      rw [Cache.getPrev, if_neg (fun heq => h.2.1 heq.symm)]
      exact ih (by simp [h.2])

/-- The entry before one in the list. -/
theorem getPrev_append {l1 l2 : List Nat} {i : Nat} (hn : (l1 ++ i::l2).Nodup) :
    Cache.getPrev (l1 ++ i::l2) i = l1.getLast? := by
  induction l1 with
  | nil =>
    have hi : i ∉ l2 := (List.nodup_cons.mp hn).1
    cases l2 with
    | nil => rfl
    | cons b l2 =>
      rw [List.nil_append, Cache.getPrev, if_neg (fun heq => hi (by simp [heq])),
        getPrev_of_notMem hi]
      rfl
  | cons a l1 ih =>
    rw [List.cons_append, List.nodup_cons] at hn
    have ih' := ih hn.2
    cases l1 with
    | nil => rw [List.cons_append, List.nil_append, Cache.getPrev, if_pos rfl, List.getLast?_singleton]
    | cons b l1 =>
      have hb : b ≠ i := by
        rintro rfl
        simp at hn
      rw [List.cons_append, List.cons_append, Cache.getPrev, if_neg hb, ← List.cons_append, ih']
      simp

theorem getLast?_erase {l : List Nat} {i : Nat} (h : l.getLast? ≠ some i) :
    (l.erase i).getLast? = l.getLast? := by
  induction l with
  | nil => rfl
  | cons a l ih =>
    rw [List.getLast?_cons] at h ⊢
    by_cases ha : a = i
    · subst ha
      rw [List.erase_cons_head]
      cases hl : l.getLast? with
      | none => simp [hl] at h
      | some b => rfl
    · rw [List.erase_cons_tail (by simpa using ha), List.getLast?_cons, ih]
      intro hl
      simp [hl] at h

theorem remove_time (c : Cache) (i j : Nat) :
    ((c.remove i).entries j).time = (c.entries j).time := by
  simp only [Cache.remove]
  by_cases hj : j = i
  · subst hj
    rw [Function.update_self]
    rfl
  · rw [Function.update_of_ne hj]

theorem AgeOrdered.remove (h : AgeOrdered c) (hn : c.lruEntries.Nodup) (i : Nat) :
    AgeOrdered (c.remove i) := by
  obtain ⟨l1, l2, hlru, ho, hold⟩ := h.oldest
  refine ⟨?_, ?_⟩
  · simp only [remove_time]
    exact h.sorted.sublist List.erase_sublist
  · simp only [remove_time]
    change ∃ l1 l2, c.lruEntries.erase i = l1 ++ l2 ∧
      (if c.oldestPresentEntry = some i then Cache.getPrev c.lruEntries i
        else c.oldestPresentEntry) = l1.getLast? ∧ ∀ j ∈ l2, (c.entries j).time = 0
    by_cases hi : l1.getLast? = some i
    · obtain ⟨l, rfl⟩ := List.getLast?_eq_some_iff.mp hi
      have hsplit : c.lruEntries = l ++ i::l2 := by simp [hlru]
      rw [hsplit] at hn
      have hil : i ∉ l := fun hmem => (List.nodup_append.mp hn).2.2 i hmem i List.mem_cons_self rfl
      refine ⟨l, l2, ?_, ?_, hold⟩
      · rw [hsplit, List.erase_append_right _ hil, List.erase_cons_head]
      · rw [if_pos (ho.trans hi), hsplit, getPrev_append hn]
    · rw [if_neg (fun h => hi (ho.symm.trans h)), hlru]
      by_cases hmem : i ∈ l1
      · exact ⟨l1.erase i, l2, List.erase_append_left _ hmem, ho.trans (getLast?_erase hi).symm, hold⟩
      · exact ⟨l1, l2.erase i, List.erase_append_right _ hmem, ho,
          fun j hj => hold j (List.mem_of_mem_erase hj)⟩

theorem PresentFirst.remove (hp : PresentFirst c) (h : AgeOrdered c) (hn : c.lruEntries.Nodup)
    (i : Nat) : PresentFirst (c.remove i) := by
  refine ⟨?_, ?_⟩
  · simp only [remove_time]
    exact hp.sorted.sublist List.erase_sublist
  · intro o ho
    rw [remove_time]
    obtain ⟨young, old, hlru, hyoung, -, hold, hlast⟩ := h.lruOrdered hp
    simp only [Cache.remove] at ho
    split at ho
    · next hi =>
      rw [hlast] at hi
      obtain ⟨l, rfl⟩ := List.getLast?_eq_some_iff.mp hi
      have hsplit : c.lruEntries = l ++ i::old := by simp [hlru]
      rw [hsplit, getPrev_append (hsplit ▸ hn)] at ho
      exact hyoung o (List.mem_append_left _ (List.mem_of_getLast? ho))
    · exact hp.oldest o ho

theorem insert_time (c : Cache) {e : CachedBlock} {a : Nat} {rest : List Nat}
    (ha : c.availEntries = a::rest) (j : Nat) :
    ((c.insert e).entries j).time = if j = a then e.time else (c.entries j).time := by
  rw [Cache.insert, ha]
  simp only
  by_cases hj : j = a
  · rw [hj, Function.update_self, if_pos rfl]
  · rw [Function.update_of_ne hj, if_neg hj]

theorem AgeOrdered.insert (h : AgeOrdered c) {e : CachedBlock} {a : Nat} {rest : List Nat}
    (ha : c.availEntries = a::rest) (hmem : a ∉ c.lruEntries)
    (hle : e.time ≠ 0 → ∀ i ∈ c.lruEntries, (c.entries i).time ≤ e.time) :
    AgeOrdered (c.insert e) := by
  have hlru' : (c.insert e).lruEntries = a::c.lruEntries := by rw [Cache.insert, ha]
  have htime {j : Nat} (hj : j ∈ c.lruEntries) :
      ((c.insert e).entries j).time = (c.entries j).time := by
    rw [insert_time c ha, if_neg]
    rintro rfl
    exact hmem hj
  have hnew : ((c.insert e).entries a).time = e.time := by rw [insert_time c ha, if_pos rfl]
  refine ⟨?_, ?_⟩
  · rw [hlru', List.pairwise_cons]
    refine ⟨?_, ?_⟩
    · intro j hj hne
      rw [hnew] at hne ⊢
      rw [htime hj]
      exact hle hne j hj
    · refine h.sorted.imp_of_mem fun hi hj hij => ?_
      rwa [htime hi, htime hj]
  · obtain ⟨l1, l2, hlru, ho, hold⟩ := h.oldest
    have hold' : ∀ i ∈ l2, ((c.insert e).entries i).time = 0 := by
      intro i hi
      rw [htime (hlru ▸ List.mem_append_right _ hi)]
      exact hold i hi
    have hoPE : (c.insert e).oldestPresentEntry =
        if c.oldestPresentEntry = none ∧ e.time ≠ 0 then some a else c.oldestPresentEntry := by
      rw [Cache.insert, ha]
    rw [hlru', hlru, hoPE]
    by_cases hnone : c.oldestPresentEntry = none
    · have hl1 : l1 = [] := List.getLast?_eq_none_iff.mp (ho.symm.trans hnone)
      subst hl1
      by_cases ht : e.time = 0
      · refine ⟨[], a::l2, rfl, by simp [hnone, ht], ?_⟩
        intro i hi
        rcases List.mem_cons.mp hi with rfl | hi
        · rw [hnew, ht]
        · exact hold' i hi
      · exact ⟨[a], l2, rfl, by simp [hnone, ht], hold'⟩
    · refine ⟨a::l1, l2, rfl, ?_, hold'⟩
      rw [if_neg (fun h => hnone h.1), List.getLast?_cons]
      cases hl : l1.getLast? with
      | none => exact absurd (ho.trans hl) hnone
      | some o => rw [ho, hl, Option.getD_some]

theorem PresentFirst.insert (hp : PresentFirst c) {e : CachedBlock} {a : Nat} {rest : List Nat}
    (ha : c.availEntries = a::rest) (hmem : a ∉ c.lruEntries)
    (ho : ∀ o, c.oldestPresentEntry = some o → o ∈ c.lruEntries)
    (hlast : e.time = 0 → ∀ i ∈ c.lruEntries, (c.entries i).time = 0) :
    PresentFirst (c.insert e) := by
  have hlru' : (c.insert e).lruEntries = a::c.lruEntries := by rw [Cache.insert, ha]
  have htime {j : Nat} (hj : j ∈ c.lruEntries) :
      ((c.insert e).entries j).time = (c.entries j).time := by
    rw [insert_time c ha, if_neg]
    rintro rfl
    exact hmem hj
  have hnew : ((c.insert e).entries a).time = e.time := by rw [insert_time c ha, if_pos rfl]
  refine ⟨?_, ?_⟩
  · rw [hlru', List.pairwise_cons]
    refine ⟨?_, ?_⟩
    · intro j hj h0
      rw [hnew] at h0
      rw [htime hj]
      exact hlast h0 j hj
    · refine hp.sorted.imp_of_mem fun hi hj hij => ?_
      rwa [htime hi, htime hj]
  · intro o hoPE
    rw [Cache.insert, ha] at hoPE
    simp only at hoPE
    split at hoPE
    · next hc =>
      rw [← Option.some.inj hoPE, hnew]
      exact hc.2
    · rw [htime (ho o hoPE)]
      exact hp.oldest o hoPE

/-- The entries that `releaseFrom` releases, in turn. -/
def Cache.releasedFrom (releaseTime : Nat) : Nat → Option Nat → Cache → List CachedBlock
  | fuel+1, some i, c =>
      let e := c.entries i
      if e.time > releaseTime then []
      else e :: releasedFrom releaseTime fuel (getPrev c.lruEntries i)
        { c with entries := Function.update c.entries i { e with time := 0 } }
  | _, _, _ => []

/-- The checks of `releaseFrom`. -/
def Cache.releaseChecks (releaseTime : Nat) : Nat → Option Nat → Cache → Prop
  | fuel+1, some i, c =>
      let e := c.entries i
      e.isValid ∧ e.time ≠ 0 ∧ (¬ e.time > releaseTime →
        releaseChecks releaseTime fuel (getPrev c.lruEntries i)
          { c with entries := Function.update c.entries i { e with time := 0 } })
  | _, _, _ => True

/-- The cache after the release of some entries. -/
def Cache.released (c : Cache) (l : List Nat) (oldest : Option Nat) : Cache :=
  { c with
    entries := fun i => if i ∈ l then { c.entries i with time := 0 } else c.entries i
    oldestPresentEntry := oldest }

/-- What `releaseFrom` does from the end of a part of the list: it releases a part of it, up to
the first entry that is too young. -/
structure Walk (releaseTime : Nat) (c : Cache) (m : Mem) (l1 pre post : List Nat) (fuel : Nat) :
    Prop where
  split : l1 = pre ++ post
  old : ∀ i ∈ post, (c.entries i).time ≤ releaseTime
  young : ∀ o, pre.getLast? = some o → (c.entries o).time > releaseTime
  result : Cache.releaseFrom releaseTime fuel l1.getLast? c m =
    (c.released post pre.getLast?,
      (Cache.releasedFrom releaseTime fuel l1.getLast? c).foldl Cache.releaseEntry m)
  released : Cache.releasedFrom releaseTime fuel l1.getLast? c = post.reverse.map c.entries
  checks : (∀ i ∈ l1, (c.entries i).isValid ∧ (c.entries i).time ≠ 0) →
    Cache.releaseChecks releaseTime fuel l1.getLast? c

theorem exists_walk (releaseTime : Nat) (m : Mem) {l1 l2 : List Nat} (hlru : c.lruEntries = l1 ++ l2)
    (hn : c.lruEntries.Nodup) {fuel : Nat} (hf : l1.length < fuel) :
    ∃ pre post, Walk releaseTime c m l1 pre post fuel := by
  induction l1 using List.reverseRecOn generalizing c m l2 fuel with
  | nil =>
    obtain ⟨fuel, rfl⟩ := Nat.exists_eq_succ_of_ne_zero (show fuel ≠ 0 by omega)
    refine ⟨[], [], rfl, nofun, nofun, ?_, rfl, fun _ => trivial⟩
    simp [Cache.releaseFrom, Cache.released, Cache.releasedFrom]
  | append_singleton l i ih =>
    obtain ⟨fuel, rfl⟩ := Nat.exists_eq_succ_of_ne_zero (show fuel ≠ 0 by omega)
    have hsplit : c.lruEntries = l ++ i::l2 := by simp [hlru]
    have hprev : Cache.getPrev c.lruEntries i = l.getLast? := by
      rw [hsplit, getPrev_append (hsplit ▸ hn)]
    have hlast : (l ++ [i]).getLast? = some i := by simp
    by_cases hold : (c.entries i).time > releaseTime
    · refine ⟨l ++ [i], [], by simp, nofun, ?_, ?_, ?_, ?_⟩
      · intro o ho
        rw [hlast] at ho
        rwa [← Option.some.inj ho]
      · rw [hlast]
        simp [Cache.releaseFrom, Cache.released, Cache.releasedFrom, hold]
      · rw [hlast]
        simp [Cache.releasedFrom, hold]
      · intro hok
        rw [hlast]
        exact ⟨(hok i (by simp)).1, (hok i (by simp)).2, fun h => absurd hold h⟩
    · have hil : i ∉ l := by
        rw [hsplit] at hn
        exact fun hmem => (List.nodup_append.mp hn).2.2 i hmem i List.mem_cons_self rfl
      let c1 : Cache :=
        { c with entries := Function.update c.entries i { c.entries i with time := 0 } }
      have hsame {j : Nat} (hj : j ∈ l) : c1.entries j = c.entries j := by
        refine Function.update_of_ne ?_ ..
        rintro rfl
        exact hil hj
      obtain ⟨pre, post, hw⟩ := @ih c1 (Cache.releaseEntry m (c.entries i)) (i::l2) hsplit hn fuel
        (by simp only [List.length_append, List.length_singleton] at hf; omega)
      have hpre {j : Nat} (hj : j ∈ pre) : j ∈ l := hw.split ▸ List.mem_append_left _ hj
      have hpost {j : Nat} (hj : j ∈ post) : j ∈ l := hw.split ▸ List.mem_append_right _ hj
      have hreleased : c1.released post pre.getLast? = c.released (post ++ [i]) pre.getLast? := by
        simp only [Cache.released, c1, Cache.mk.injEq, and_true]
        funext j
        by_cases hj : j = i
        · subst hj
          simp
        · simp [hj]
      have hlist : Cache.releasedFrom releaseTime (fuel+1) (some i) c =
          c.entries i :: Cache.releasedFrom releaseTime fuel l.getLast? c1 := by
        rw [Cache.releasedFrom, if_neg hold, hprev]
      refine ⟨pre, post ++ [i], ?_, ?_, ?_, ?_, ?_, ?_⟩
      · rw [hw.split, List.append_assoc]
      · intro j hj
        rcases List.mem_append.mp hj with hj | hj
        · rw [← hsame (hpost hj)]
          exact hw.old j hj
        · rw [List.mem_singleton.mp hj]
          omega
      · intro o ho
        rw [← hsame (hpre (List.mem_of_getLast? ho))]
        exact hw.young o ho
      · rw [hlast, hlist, List.foldl_cons, Cache.releaseFrom]
        simp only [if_neg hold, hprev]
        rw [← hreleased]
        exact hw.result
      · rw [hlast, hlist, hw.released, List.reverse_append, List.reverse_singleton,
          List.singleton_append, List.map_cons]
        congr 1
        exact List.map_congr_left fun j hj => hsame (hpost (List.mem_reverse.mp hj))
      · intro hok
        rw [hlast, Cache.releaseChecks, hprev]
        refine ⟨(hok i (by simp)).1, (hok i (by simp)).2, fun _ => hw.checks ?_⟩
        intro j hj
        rw [hsame hj]
        exact hok j (List.mem_append_left _ hj)

/-- An entry of the quarantine whose pages `releaseOlderThan` releases. -/
def CachedBlock.Due (releaseTime : Nat) (e : CachedBlock) : Prop :=
  e.isValid = true ∧ e.time ≠ 0 ∧ e.time ≤ releaseTime

instance (releaseTime : Nat) (e : CachedBlock) : Decidable (e.Due releaseTime) :=
  inferInstanceAs (Decidable (_ ∧ _))

/-- The entries that `releaseQuarantine` releases, in turn. -/
def Cache.releasedQuarantine (releaseTime n : Nat) (c : Cache) : List CachedBlock :=
  ((List.range n).map c.quarantine).filter fun e => e.Due releaseTime

/-- The quarantine after its release. -/
def Cache.quarantineReleased (releaseTime n : Nat) (c : Cache) : Cache :=
  { c with
    quarantine := fun j =>
      if j < n ∧ (c.quarantine j).Due releaseTime then { c.quarantine j with time := 0 }
      else c.quarantine j }

theorem releaseQuarantine_eq (releaseTime n : Nat) (c : Cache) (m : Mem) :
    Cache.releaseQuarantine releaseTime n c m =
      (c.quarantineReleased releaseTime n,
        (c.releasedQuarantine releaseTime n).foldl Cache.releaseEntry m) := by
  induction n with
  | zero => simp [Cache.releaseQuarantine, Cache.quarantineReleased, Cache.releasedQuarantine]
  | succ n ih =>
    have hdue : (!(c.quarantine n).isValid ∨ (c.quarantine n).time = 0 ∨
        (c.quarantine n).time > releaseTime) ↔ ¬ (c.quarantine n).Due releaseTime := by
      simp only [CachedBlock.Due, Bool.not_eq_true', ne_eq, not_and_or, not_not, not_le,
        Bool.not_eq_true]
    have hslot : (c.quarantineReleased releaseTime n).quarantine n = c.quarantine n := by
      simp [Cache.quarantineReleased]
    simp only [Cache.releaseQuarantine, ih, hslot, hdue]
    by_cases hd : (c.quarantine n).Due releaseTime
    · rw [if_neg (not_not.mpr hd)]
      refine Prod.ext ?_ ?_
      · simp only [Cache.quarantineReleased, Cache.mk.injEq, and_true, true_and]
        funext j
        by_cases hj : j = n
        · subst hj
          simp [hd]
        · rw [Function.update_of_ne hj]
          have hlt : j < n + 1 ↔ j < n := by omega
          simp only [hlt]
      · simp [Cache.releasedQuarantine, List.range_succ, hd]
    · rw [if_pos hd]
      refine Prod.ext ?_ ?_
      · simp only [Cache.quarantineReleased, Cache.mk.injEq, and_true, true_and]
        funext j
        by_cases hj : j = n
        · subst hj
          simp [hd]
        · have hlt : j < n + 1 ↔ j < n := by omega
          simp only [hlt]
      · simp [Cache.releasedQuarantine, List.range_succ, hd]

/-- The slots of the cache quarantine that are used. -/
def quarantineSlots (cfg : Config) : Nat := if cfg.quarantineDisabled then 0 else cfg.cacheQuarantineSize

/-- The entries that `releaseOlderThan` releases, in turn. -/
def Cache.releasedOlderThan (cfg : Config) (releaseTime : Nat) (c : Cache) : List CachedBlock :=
  c.releasedQuarantine releaseTime (quarantineSlots cfg) ++
    Cache.releasedFrom releaseTime (c.lruEntries.length + 1) c.oldestPresentEntry
      (c.quarantineReleased releaseTime (quarantineSlots cfg))

theorem releaseOlderThan_eq (cfg : Config) (releaseTime : Nat) (c : Cache) (m : Mem) :
    c.releaseOlderThan cfg releaseTime m =
      Cache.releaseFrom releaseTime (c.lruEntries.length + 1) c.oldestPresentEntry
        (c.quarantineReleased releaseTime (quarantineSlots cfg))
        ((c.releasedQuarantine releaseTime (quarantineSlots cfg)).foldl Cache.releaseEntry m) := by
  rw [Cache.releaseOlderThan, quarantineSlots]
  cases cfg.quarantineDisabled with
  | false =>
    simp only [Bool.not_false, if_true, releaseQuarantine_eq, Bool.false_eq_true, if_false]
    rfl
  | true =>
    simp [Cache.quarantineReleased, Cache.releasedQuarantine]

/-- What `releaseOlderThan` does with a cache in order. -/
structure Release (cfg : Config) (releaseTime : Nat) (c : Cache) (c' : Cache) : Prop where
  ordered : AgeOrdered c'
  present : PresentFirst c → PresentFirst c'
  oldest : c.oldestPresentEntry = none → c'.oldestPresentEntry = none
  lru : c'.lruEntries = c.lruEntries
  avail : c'.availEntries = c.availEntries
  limit : c'.maxEntriesCount = c.maxEntriesCount
  interval : c'.releaseToOsIntervalMs = c.releaseToOsIntervalMs
  pos : c'.quarantinePos = c.quarantinePos
  valid : ∀ i, (c'.entries i).isValid = (c.entries i).isValid
  time : ∀ i ∈ c.lruEntries, (c'.entries i).time =
    if (c.entries i).time ≤ releaseTime then 0 else (c.entries i).time
  quarantine : c'.quarantine = (c.quarantineReleased releaseTime (quarantineSlots cfg)).quarantine
  old : ∀ e ∈ c.releasedOlderThan cfg releaseTime, e.time ≤ releaseTime
  lruReleased : ∀ i ∈ c.lruEntries, (c.entries i).time ≠ 0 → (c.entries i).time ≤ releaseTime →
    c.entries i ∈ c.releasedOlderThan cfg releaseTime
  quarantineReleased : ∀ j < quarantineSlots cfg, (c.quarantine j).Due releaseTime →
    c.quarantine j ∈ c.releasedOlderThan cfg releaseTime
  cached : ∀ e ∈ c.releasedOlderThan cfg releaseTime,
    (∃ i ∈ c.lruEntries, e = c.entries i) ∨
      ∃ j < quarantineSlots cfg, e = c.quarantine j ∧ e.Due releaseTime

theorem AgeOrdered.release (h : AgeOrdered c) (hn : c.lruEntries.Nodup) (releaseTime : Nat)
    (m : Mem) :
    Release cfg releaseTime c (c.releaseOlderThan cfg releaseTime m).1 ∧
      (c.releaseOlderThan cfg releaseTime m).2 =
        (c.releasedOlderThan cfg releaseTime).foldl Cache.releaseEntry m := by
  obtain ⟨l1, l2, hlru, ho, hold⟩ := h.oldest
  let c1 := c.quarantineReleased releaseTime (quarantineSlots cfg)
  obtain ⟨pre, post, hw⟩ := @exists_walk c1 releaseTime
    ((c.releasedQuarantine releaseTime (quarantineSlots cfg)).foldl Cache.releaseEntry m) l1 l2 hlru
    hn (c.lruEntries.length + 1) (by rw [hlru, List.length_append]; omega)
  have hmem {i : Nat} : i ∈ c.lruEntries ↔ i ∈ pre ∨ i ∈ post ∨ i ∈ l2 := by
    rw [hlru, hw.split, List.mem_append, List.mem_append, or_assoc]
  have hsorted := h.sorted
  have hn' := hn
  rw [hlru, hw.split, List.append_assoc] at hsorted hn'
  rw [List.pairwise_append] at hsorted
  -- what is left of the part that ends with the oldest entry is too young
  have hyoung : ∀ i ∈ pre, (c.entries i).time = 0 ∨ (c.entries i).time > releaseTime := by
    intro i hi
    cases hlast : pre.getLast? with
    | none => simp [List.getLast?_eq_none_iff.mp hlast] at hi
    | some o =>
      have hyo : (c.entries o).time > releaseTime := hw.young o hlast
      obtain ⟨p, rfl⟩ := List.getLast?_eq_some_iff.mp hlast
      rcases List.mem_append.mp hi with hi | hi
      · have hle := (List.pairwise_append.mp hsorted.1).2.2 i hi o List.mem_cons_self
        omega
      · rw [List.mem_singleton.mp hi]
        exact .inr hyo
  have holder : ∀ i ∈ post, (c.entries i).time ≤ releaseTime := hw.old
  have hnot {i : Nat} (hi : i ∈ pre ∨ i ∈ l2) : i ∉ post := by
    intro hp
    rw [List.nodup_append, List.nodup_append] at hn'
    rcases hi with hi | hi
    · exact hn'.2.2 i hi i (List.mem_append_left _ hp) rfl
    · exact hn'.2.1.2.2 i hp i hi rfl
  have hres : c.releaseOlderThan cfg releaseTime m = (c1.released post pre.getLast?,
      (c.releasedOlderThan cfg releaseTime).foldl Cache.releaseEntry m) := by
    rw [releaseOlderThan_eq, ho, hw.result, Cache.releasedOlderThan, List.foldl_append, ho]
  have hlist : c.releasedOlderThan cfg releaseTime =
      c.releasedQuarantine releaseTime (quarantineSlots cfg) ++ post.reverse.map c.entries := by
    rw [Cache.releasedOlderThan, ho, hw.released]
    rfl
  have htime : ∀ i ∈ c.lruEntries, ((c1.released post pre.getLast?).entries i).time =
      if (c.entries i).time ≤ releaseTime then 0 else (c.entries i).time := by
    intro i hi
    have hentry : (c1.released post pre.getLast?).entries i =
        if i ∈ post then { c.entries i with time := 0 } else c.entries i := rfl
    rw [hentry]
    rcases hmem.mp hi with hi | hi | hi
    · rw [if_neg (hnot (.inl hi))]
      have hy := hyoung i hi
      split <;> omega
    · rw [if_pos hi, if_pos (holder i hi)]
    · rw [if_neg (hnot (.inr hi)), hold i hi]
      simp
  rw [hres]
  refine ⟨⟨⟨?_, pre, post ++ l2, ?_, rfl, ?_⟩, ?_, ?_, rfl, rfl, rfl, rfl, rfl, ?_, htime, rfl, ?_,
    ?_, ?_, ?_⟩, rfl⟩
  · refine h.sorted.imp_of_mem fun hi hj hle => ?_
    rw [htime _ hi, htime _ hj]
    split <;> split <;> omega
  · change c.lruEntries = _
    rw [hlru, hw.split, List.append_assoc]
  · intro i hi
    rcases List.mem_append.mp hi with hi | hi
    · rw [htime i (hmem.mpr (.inr (.inl hi))), if_pos (holder i hi)]
    · rw [htime i (hmem.mpr (.inr (.inr hi))), hold i hi]
      simp
  · intro hp
    refine ⟨?_, ?_⟩
    · refine (h.sorted.and hp.sorted).imp_of_mem fun hi hj hij => ?_
      rw [htime _ hi, htime _ hj]
      split <;> split <;> omega
    · intro o hlast
      have hin : o ∈ pre := List.mem_of_getLast? hlast
      have hyo : (c.entries o).time > releaseTime := hw.young o hlast
      rw [htime o (hmem.mpr (.inl hin)), if_neg (by omega)]
      omega
  · intro hnone
    have hl1 : pre ++ post = [] := hw.split ▸ List.getLast?_eq_none_iff.mp (ho.symm.trans hnone)
    change pre.getLast? = none
    rw [(List.append_eq_nil_iff.mp hl1).1, List.getLast?_nil]
  · intro i
    have hentry : (c1.released post pre.getLast?).entries i =
        if i ∈ post then { c.entries i with time := 0 } else c.entries i := rfl
    rw [hentry]
    split <;> rfl
  · rw [hlist]
    intro e he
    rcases List.mem_append.mp he with he | he
    · have hd := (List.mem_filter.mp he).2
      exact (decide_eq_true_eq.mp hd).2.2
    · obtain ⟨i, hi, rfl⟩ := List.mem_map.mp he
      exact holder i (List.mem_reverse.mp hi)
  · intro i hi hne hle
    rw [hlist]
    refine List.mem_append_right _ (List.mem_map_of_mem (List.mem_reverse.mpr ?_))
    rcases hmem.mp hi with hi | hi | hi
    · have hy := hyoung i hi
      omega
    · exact hi
    · exact absurd (hold i hi) hne
  · intro j hj hd
    rw [hlist]
    exact List.mem_append_left _ (List.mem_filter.mpr
      ⟨List.mem_map_of_mem (List.mem_range.mpr hj), decide_eq_true hd⟩)
  · rw [hlist]
    intro e he
    rcases List.mem_append.mp he with he | he
    · obtain ⟨hin, hd⟩ := List.mem_filter.mp he
      obtain ⟨j, hj, rfl⟩ := List.mem_map.mp hin
      exact .inr ⟨j, List.mem_range.mp hj, rfl, decide_eq_true_eq.mp hd⟩
    · obtain ⟨i, hi, rfl⟩ := List.mem_map.mp he
      exact .inl ⟨i, hmem.mpr (.inr (.inl (List.mem_reverse.mp hi))), rfl⟩

end ScudoMte.Secondary
