import ScudoMte.Library.RingLog
import ScudoMte.Library.TransitionSystem
import ScudoMte.StackDepot.Basic

namespace ScudoMte.StackDepot

open MurMur2HashBuilder RingLog

variable {k j : Nat} {d : StackDepot}

/-- The words that `insert` stores for a trace: the marker and the frames. -/
def entryWords (trace : List Nat) : List Nat := entryId trace.length (hashOf trace) :: trace

def words (written : List (List Nat)) : List Nat := written.flatMap entryWords

theorem words_append (xs ys : List (List Nat)) : words (xs ++ ys) = words xs ++ words ys :=
  List.flatMap_append

theorem words_cons (t : List Nat) (ts : List (List Nat)) :
    words (t::ts) = entryWords t ++ words ts := List.flatMap_cons

/-- A depot into which the traces `written` were stored one after the other. -/
structure Filled (k j : Nat) (d : StackDepot) (written : List (List Nat)) : Prop
    extends Wf k j d where
  logs : Logs 0 d.ring (words written)
  ringEnd_eq : d.ringEnd = (words written).length % 2^k
  short : ∀ t ∈ written, t.length < 2^k

theorem init_filled (hk : k < 32) : Filled k j (init (2^k) (2^j)) [] where
  toWf := init_wf hk
  logs := Logs.empty 0 (2^k)
  ringEnd_eq := (Nat.zero_mod _).symm
  short _ ht := absurd ht List.not_mem_nil

theorem store_eq {l : List Nat} {i : Nat} (hi : i < l.length) (v : Nat) :
    store l i v = some (l.set i v) := if_pos hi

/-- The frames go behind the words already in the ring. -/
theorem storeFrames_spec (hk : k ≤ 32) (frames ring log : List Nat) (ringPos : Nat)
    (hlen : ring.length = 2^k) (hlogs : Logs 0 ring log)
    (hpos : (ringPos+1) % 2^k = log.length % 2^k) :
    ∃ ringPos' ring', storeFrames (2^k - 1) frames ringPos ring = some (ringPos', ring') ∧
      ring'.length = 2^k ∧ Logs 0 ring' (log ++ frames) ∧
      (ringPos'+1) % 2^k = (log ++ frames).length % 2^k := by
  induction frames generalizing ring log ringPos with
  | nil => exact ⟨ringPos, ring, rfl, hlen, by rwa [List.append_nil], by rwa [List.append_nil]⟩
  | cons frame frames ih =>
    have hp := Nat.two_pow_pos k
    have hlt : log.length % 2^k < ring.length := hlen.symm ▸ Nat.mod_lt _ hp
    have hpush := hlogs.push (hlen.symm ▸ hp) frame
    rw [hlen] at hpush
    obtain ⟨ringPos', ring', heq, hlen', hlogs', hpos'⟩ :=
      ih (ring.set (log.length % 2^k) frame) (log ++ [frame]) (log.length % 2^k)
        (by rw [List.length_set, hlen]) hpush
        (by rw [List.length_append, List.length_singleton, Nat.mod_add_mod])
    rw [List.append_assoc, List.singleton_append] at hlogs' hpos'
    refine ⟨ringPos', ring', ?_, hlen', hlogs', hpos'⟩
    rw [storeFrames]
    simp only [Option.bind_eq_bind]
    rw [next_pos hk, hpos, store_eq hlt, Option.bind_some, heq]

theorem Filled.entry_eq (h : Filled k j d written) (hash : Nat) :
    ∃ p e, d.tab[hash &&& d.tabMask]? = some p ∧ p < 2^k ∧ d.ring[p]? = some e ∧
      d.entry hash = some e := by
  obtain ⟨p, htab, hp⟩ := h.tab_get hash
  obtain ⟨e, hring⟩ := h.ring_get hp
  refine ⟨p, e, htab, hp, hring, ?_⟩
  rw [entry, htab]
  exact hring

/-- A trace whose marker is not found is stored behind the others. -/
theorem Filled.insert_new (h : Filled k j d written) {trace : List Nat}
    (hshort : trace.length < 2^k)
    (hnew : d.entry (hashOf trace) ≠ some (entryId trace.length (hashOf trace))) :
    ∃ d', d.insert trace = some (d', hashOf trace) ∧ Filled k j d' (written ++ [trace]) ∧
      d'.tab[hashOf trace &&& d'.tabMask]? = some ((words written).length % 2^k) := by
  obtain ⟨p, e, htab, hp, hring, hentry⟩ := h.entry_eq (hashOf trace)
  have hpow := Nat.two_pow_pos k
  have htabLt : hashOf trace &&& d.tabMask < d.tab.length := (List.getElem?_eq_some_iff.mp htab).1
  have hendLt : d.ringEnd < d.ring.length := h.ring_length.symm ▸ h.ringEnd_lt
  have hmarker := h.logs.push (h.ring_length.symm ▸ hpow) (entryId trace.length (hashOf trace))
  rw [h.ring_length, ← h.ringEnd_eq] at hmarker
  obtain ⟨ringPos', ring', hstore, hlen', hlogs', hpos'⟩ :=
    storeFrames_spec h.k_lt.le trace _ _ d.ringEnd (by rw [List.length_set, h.ring_length]) hmarker
      (by rw [List.length_append, List.length_singleton, h.ringEnd_eq, Nat.mod_add_mod])
  have hwords : words written ++ [entryId trace.length (hashOf trace)] ++ trace =
      words (written ++ [trace]) := by
    rw [words_append, List.append_assoc, List.singleton_append, words_cons, entryWords,
      show words [] = [] from rfl, List.append_nil]
  rw [hwords] at hlogs' hpos'
  rw [hentry, Ne, Option.some_inj] at hnew
  refine ⟨{ d with
    tab := d.tab.set (hashOf trace &&& d.tabMask) d.ringEnd, ring := ring',
    ringEnd := (ringPos'+1) % 2^32 &&& (2^k - 1) }, ?_,
    ⟨⟨h.k_lt, h.ringSize_eq, h.ringMask_eq, h.tabMask_eq, hlen', ?_, ?_, ?_⟩, hlogs', ?_, ?_⟩, ?_⟩
  · rw [insert]
    simp only [Option.bind_eq_bind]
    rw [hentry, Option.bind_some, if_neg hnew, store_eq htabLt, Option.bind_some,
      store_eq hendLt, Option.bind_some, h.ringMask_eq, hstore, Option.bind_some]
  · rw [List.length_set, h.tab_length]
  · intro q hq
    rcases List.mem_or_eq_of_mem_set hq with hq | rfl
    · exact h.tab_lt q hq
    · exact h.ringEnd_lt
  · rw [next_pos h.k_lt.le]
    exact Nat.mod_lt _ hpow
  · rw [next_pos h.k_lt.le, hpos']
  · intro t ht
    rcases List.mem_append.mp ht with ht | ht
    · exact h.short t ht
    · rw [List.mem_singleton.mp ht]
      exact hshort
  · rw [List.getElem?_set_self htabLt, h.ringEnd_eq]

theorem insert_eq_self {trace : List Nat}
    (hold : d.entry (hashOf trace) = some (entryId trace.length (hashOf trace))) :
    d.insert trace = some (d, hashOf trace) := by
  rw [insert, hold]
  simp only [Option.bind_eq_bind, Option.bind_some, if_true]

/-- Frames less than one lap back are still in the ring. -/
theorem Filled.frames_recent (h : Filled k j d written) (fs pre post : List Nat)
    (hlog : words written = pre ++ fs ++ post)
    (hlap : (words written).length ≤ pre.length + 2^k) :
    d.frames pre.length fs.length = some fs := by
  induction fs generalizing pre with
  | nil => rfl
  | cons f fs ih =>
    have hrest := ih (pre ++ [f]) (by rw [hlog]; simp) (by
      rw [List.length_append, List.length_singleton]
      omega)
    have hf : (words written)[pre.length]? = some f := by
      rw [hlog, List.append_assoc, List.getElem?_append_right (le_refl _), Nat.sub_self]
      rfl
    have hcell := h.logs.recent pre.length (List.getElem?_eq_some_iff.mp hf).1
      (by rw [h.ring_length]; exact hlap)
    rw [h.ring_length, hf] at hcell
    rw [List.length_append, List.length_singleton] at hrest
    rw [List.length_cons, frames, h.frameAt_eq, hcell, hrest]
    rfl

/-- An entry whose marker is less than one lap back is found. -/
theorem Filled.find_recent (h : Filled k j d written) {trace : List Nat}
    {pre post : List (List Nat)} (hw : written = pre ++ trace :: post)
    (hlap : (words written).length ≤ (words pre).length + 2^k)
    (htab : d.tab[hashOf trace &&& d.tabMask]? = some ((words pre).length % 2^k)) :
    ∃ pos, d.find (hashOf trace) = some (some (pos, trace.length)) ∧
      d.frames pos trace.length = some trace := by
  have hpow := Nat.two_pow_pos k
  have hlog : words written = words pre ++ (entryId trace.length (hashOf trace) :: trace) ++
      words post := by
    rw [hw, words_append, words_cons, entryWords, List.append_assoc]
  have hmark : (words written)[(words pre).length]? =
      some (entryId trace.length (hashOf trace)) := by
    rw [hlog, List.append_assoc, List.getElem?_append_right (le_refl _), Nat.sub_self]
    rfl
  have hcell := h.logs.recent (words pre).length (List.getElem?_eq_some_iff.mp hmark).1
    (by rw [h.ring_length]; exact hlap)
  rw [h.ring_length, hmark] at hcell
  have hfs := h.frames_recent trace (words pre ++ [entryId trace.length (hashOf trace)])
    (words post) (by rw [hlog]; simp) (by
      rw [List.length_append, List.length_singleton]
      omega)
  rw [List.length_append, List.length_singleton, h.frames_mod trace.length _
    ((words pre).length % 2^k + 1) (Nat.mod_add_mod _ _ _).symm] at hfs
  obtain ⟨hfind, hread⟩ := h.find_intact (Nat.mod_lt _ hpow)
    (h.short trace (by rw [hw]; simp)) htab hcell rfl hfs
  exact ⟨_, hfind, hread⟩

def EvenFrames (traces : List (List Nat)) : Prop := ∀ t ∈ traces, ∀ f ∈ t, f % 2 = 0

/-- Among even frames, an odd word is the marker of a stored trace. -/
theorem words_odd {written : List (List Nat)} (heven : EvenFrames written) {i w : Nat}
    (hi : (words written)[i]? = some w) (hw : w % 2 = 1) :
    ∃ pre t post, written = pre ++ t :: post ∧ i = (words pre).length ∧
      w = entryId t.length (hashOf t) := by
  induction written generalizing i with
  | nil => simp [words] at hi
  | cons t ts ih =>
    rw [words_cons] at hi
    rcases Nat.lt_or_ge i (entryWords t).length with hlt | hge
    · rw [List.getElem?_append_left hlt] at hi
      cases i with
      | zero =>
        rw [entryWords, List.getElem?_cons_zero, Option.some_inj] at hi
        exact ⟨[], t, ts, rfl, rfl, hi.symm⟩
      | succ i =>
        rw [entryWords, List.getElem?_cons_succ] at hi
        have := heven t List.mem_cons_self w (List.mem_of_getElem? hi)
        omega
    · rw [List.getElem?_append_right hge] at hi
      obtain ⟨pre, u, post, heq, hidx, hid⟩ :=
        ih (fun u hu => heven u (List.mem_cons_of_mem _ hu)) hi
      refine ⟨t::pre, u, post, by rw [heq, List.cons_append], ?_, hid⟩
      rw [words_cons, List.length_append]
      omega

/-- A marker that is found belongs to an entry that is still whole. -/
theorem Filled.find_old (h : Filled k j d written) (heven : EvenFrames written)
    {trace : List Nat} (hshort : trace.length < 2^k)
    (hold : d.entry (hashOf trace) = some (entryId trace.length (hashOf trace))) :
    ∃ pos fs, d.find (hashOf trace) = some (some (pos, trace.length)) ∧
      d.frames pos trace.length = some fs ∧ hashOf fs = hashOf trace := by
  have hk : 2^k ≤ 2^31 := Nat.pow_le_pow_right (by decide) (by have := h.k_lt; omega)
  obtain ⟨p, e, htab, hp, hring, hentry⟩ := h.entry_eq (hashOf trace)
  rw [hentry, Option.some_inj] at hold
  have hodd := entryId_odd (show trace.length < 2^31 by omega) (hashOf_lt trace)
  have hplen : p < d.ring.length := h.ring_length.symm ▸ hp
  rcases h.logs.source hplen with hblank | ⟨i, hi, hlap, hip, hsrc⟩
  · rw [hring, Option.some_inj] at hblank
    omega
  · rw [hring, hold] at hsrc
    obtain ⟨pre, t, post, hw, rfl, hid⟩ := words_odd heven hsrc.symm hodd
    have htshort := h.short t (by rw [hw]; simp)
    rw [entryId_eq (by omega) (hashOf_lt trace), entryId_eq (by omega) (hashOf_lt t)] at hid
    have hth := hashOf_lt t
    have hth' := hashOf_lt trace
    have hlen : t.length = trace.length := by omega
    have hhash : hashOf t = hashOf trace := by omega
    rw [h.ring_length] at hlap hip
    obtain ⟨pos, hfind, hread⟩ := h.find_recent hw hlap (by rw [hhash, htab, hip])
    rw [hhash, hlen] at hfind
    rw [hlen] at hread
    exact ⟨pos, t, hfind, hread, hhash⟩

/-- The depot after an insertion. -/
def inserted (d : StackDepot) (trace : List Nat) : Option StackDepot :=
  (d.insert trace).map Prod.fst

/-- After `insert` returned `hash`, the trace can be looked up: some trace of the same length
and hash, and the very same trace if it was written. -/
structure Recovered (written : Prop) (d : StackDepot) (trace : List Nat) (hash : Nat) : Prop where
  hash_eq : hash = hashOf trace
  found : ∃ pos fs, d.find hash = some (some (pos, trace.length)) ∧
    d.frames pos trace.length = some fs ∧ hashOf fs = hash
  exact : written → ∃ pos, d.find hash = some (some (pos, trace.length)) ∧
    d.frames pos trace.length = some trace

theorem Filled.insert_recovered (h : Filled k j d written) (heven : EvenFrames written)
    {trace : List Nat} (hshort : trace.length < 2^k) :
    ∃ d' hash written', d.insert trace = some (d', hash) ∧ Filled k j d' written' ∧
      (∀ t ∈ written', t ∈ written ∨ t = trace) ∧
      Recovered (d.entry (hashOf trace) ≠ some (entryId trace.length (hashOf trace)))
        d' trace hash := by
  by_cases hold : d.entry (hashOf trace) = some (entryId trace.length (hashOf trace))
  · obtain ⟨pos, fs, hfind, hread, hhash⟩ := h.find_old heven hshort hold
    exact ⟨d, _, written, insert_eq_self hold, h, fun t ht => .inl ht, rfl,
      ⟨pos, fs, hfind, hread, hhash⟩, fun hne => absurd hold hne⟩
  · obtain ⟨d', hins, h', htab⟩ := h.insert_new hshort hold
    have hlap : (words (written ++ [trace])).length ≤ (words written).length + 2^k := by
      rw [words_append, words_cons, entryWords, show words [] = [] from rfl, List.append_nil,
        List.length_append, List.length_cons]
      omega
    obtain ⟨pos, hfind, hread⟩ := h'.find_recent rfl hlap htab
    refine ⟨d', _, written ++ [trace], hins, h', ?_, rfl, ⟨pos, trace, hfind, hread, rfl⟩,
      fun _ => ⟨pos, hfind, hread⟩⟩
    intro t ht
    rcases List.mem_append.mp ht with ht | ht
    · exact .inl ht
    · exact .inr (List.mem_singleton.mp ht)

/-- A run of insertions never leaves the ring or the table, and what is in the ring afterwards
are traces of the run. -/
theorem Filled.run (h : Filled k j d written) (heven : EvenFrames written)
    (traces : List (List Nat)) (hshort : ∀ t ∈ traces, t.length < 2^k)
    (hev : EvenFrames traces) :
    ∃ d' written', TransitionSystem.run inserted d traces = some d' ∧
      Filled k j d' written' ∧ EvenFrames written' := by
  induction traces generalizing d written with
  | nil => exact ⟨d, written, rfl, h, heven⟩
  | cons t ts ih =>
    obtain ⟨d', hash, written', hins, h', hmem, -⟩ :=
      h.insert_recovered heven (hshort t List.mem_cons_self)
    have heven' : EvenFrames written' := by
      intro u hu
      rcases hmem u hu with hu | rfl
      · exact heven u hu
      · exact hev u List.mem_cons_self
    obtain ⟨d'', written'', hrun, hd⟩ := ih h' heven'
      (fun u hu => hshort u (List.mem_cons_of_mem _ hu))
      (fun u hu => hev u (List.mem_cons_of_mem _ hu))
    refine ⟨d'', written'', ?_, hd⟩
    rw [TransitionSystem.run_cons, inserted, hins, Option.map_some, Option.bind_some, hrun]

/-- After any run of insertions, a further insertion can be looked up, and no lookup returns
frames with another hash. -/
theorem insert_roundTrip {k j : Nat} (hk : k < 32) (traces : List (List Nat))
    (hshort : ∀ t ∈ traces, t.length < 2^k) (heven : EvenFrames traces) :
    ∃ d, TransitionSystem.run inserted (init (2^k) (2^j)) traces = some d ∧
      (∀ trace, trace.length < 2^k → ∃ d' hash, d.insert trace = some (d', hash) ∧
        Recovered (d.entry (hashOf trace) ≠ some (entryId trace.length (hashOf trace)))
          d' trace hash) ∧
      ∀ hash, ∃ r, d.find hash = some r ∧ ∀ pos size, r = some (pos, size) →
        size < 2^k ∧ ∃ fs, d.frames pos size = some fs ∧ hashOf fs = hash := by
  obtain ⟨d, written, hrun, h, hev⟩ := (init_filled hk).run
    (fun t ht => absurd ht List.not_mem_nil) traces hshort heven
  refine ⟨d, hrun, ?_, h.find_sound⟩
  intro trace hlen
  obtain ⟨d', hash, -, hins, -, -, hrec⟩ := h.insert_recovered hev hlen
  exact ⟨d', hash, hins, hrec⟩

theorem insert_roundTrip_wrapped :
    ∃ d, TransitionSystem.run inserted (init (2^2) (2^1)) [[2,4,6], [8,10]] = some d ∧
      (∀ trace, trace.length < 2^2 → ∃ d' hash, d.insert trace = some (d', hash) ∧
        Recovered (d.entry (hashOf trace) ≠ some (entryId trace.length (hashOf trace)))
          d' trace hash) ∧
      ∀ hash, ∃ r, d.find hash = some r ∧ ∀ pos size, r = some (pos, size) →
        size < 2^2 ∧ ∃ fs, d.frames pos size = some fs ∧ hashOf fs = hash :=
  insert_roundTrip (by decide) [[2,4,6], [8,10]] (by decide) (by unfold EvenFrames; decide)

end ScudoMte.StackDepot
