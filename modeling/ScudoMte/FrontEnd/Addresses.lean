import ScudoMte.FrontEnd.Ownership

namespace ScudoMte.FrontEnd.Blocks

open Primary

variable {τ : Type*} [Fintype τ] [DecidableEq τ] {cfg : ClassConfig} {kind : Kind}
  {env : ReleaseConfig} {st : Blocks τ} {c d p q : Nat}

def decompactPtr (cfg : ClassConfig) (st : Blocks τ) (b : Nat × Nat) : Nat :=
  (st.regions b.1).regionBeg + b.2 <<< cfg.compactPtrScale

omit [Fintype τ] [DecidableEq τ] in
theorem mem_carved (hc : c < cfg.numClasses) {r : Region}
    (hp : p ∈ r.carved cfg.toPrimaryConfig (cfg.getSizeByClassId c)) :
    ∃ i, p <<< cfg.compactPtrScale = i * cfg.getSizeByClassId c ∧
      (i + 1) * cfg.getSizeByClassId c ≤ r.allocatedUser := by
  obtain ⟨i, hi, rfl⟩ := List.mem_map.mp hp
  refine ⟨i, ?_, ?_⟩
  · rw [Nat.shiftLeft_eq, Nat.shiftRight_eq_div_pow]
    exact Nat.div_mul_cancel ((cfg.scale_dvd c hc).1.mul_left i)
  · exact (Nat.mul_le_mul_right _ (List.mem_range.mp hi)).trans (Nat.div_mul_le_self _ _)

/-- A block that is handed out has been carved from its region. -/
theorem mem_held (h : Reachable cfg kind env st) (hb : (c, p) ∈ st.held) :
    c ∈ Front.classes cfg ∧
      p ∈ (st.regions c).carved cfg.toPrimaryConfig (cfg.getSizeByClassId c) ∧
      st.held.count (c, p) = 1 := by
  have hc : c ∈ Front.classes cfg := (h.inv.ok.held _ hb).1
  have honce := block_recorded_once h (mem_classes_lt hc) p
  have hpos := List.count_pos_iff.mpr hb
  rw [occurrences] at honce
  by_cases hmem : p ∈ (st.regions c).carved cfg.toPrimaryConfig (cfg.getSizeByClassId c)
  · rw [if_pos hmem] at honce
    exact ⟨hc, hmem, by omega⟩
  · rw [if_neg hmem] at honce
    omega

/-- The memory of a block is mapped in its region. -/
theorem held_mapped (h : Reachable cfg kind env st) (hb : (c, p) ∈ st.held) :
    (st.regions c).regionBeg ≤ st.decompactPtr cfg (c, p) ∧
      st.decompactPtr cfg (c, p) + cfg.getSizeByClassId c ≤
        (st.regions c).regionBeg + (st.regions c).mappedUser := by
  obtain ⟨hc, hmem, -⟩ := mem_held h hb
  obtain ⟨i, hi, hle⟩ := mem_carved (mem_classes_lt hc) hmem
  have hmapped := (h.inv.ok.regions c hc).mem.le
  rw [Nat.add_mul, Nat.one_mul] at hle
  simp only [decompactPtr, hi]
  omega

/-- Blocks of one class are different multiples of its size, and the regions of two classes are
apart. -/
theorem held_ne_apart (h : Reachable cfg kind env st) (hb : (c, p) ∈ st.held)
    (hb' : (d, q) ∈ st.held) (hne : (c, p) ≠ (d, q)) :
    st.decompactPtr cfg (c, p) + cfg.getSizeByClassId c ≤ st.decompactPtr cfg (d, q) ∨
      st.decompactPtr cfg (d, q) + cfg.getSizeByClassId d ≤ st.decompactPtr cfg (c, p) := by
  obtain ⟨hc, hmem, -⟩ := mem_held h hb
  obtain ⟨hd, hmem', -⟩ := mem_held h hb'
  have hclt := mem_classes_lt hc
  have hdlt := mem_classes_lt hd
  by_cases hcd : c = d
  · subst hcd
    obtain ⟨i, hi, -⟩ := mem_carved hclt hmem
    obtain ⟨j, hj, -⟩ := mem_carved hclt hmem'
    simp only [decompactPtr, hi, hj, Nat.add_assoc, Nat.add_le_add_iff_left, ← Nat.succ_mul]
    rcases Nat.lt_trichotomy i j with hlt | heq | hlt
    · exact .inl (Nat.mul_le_mul_right _ hlt)
    · rw [heq, ← hj, Nat.shiftLeft_eq, Nat.shiftLeft_eq] at hi
      exact absurd (Nat.eq_of_mul_eq_mul_right (Nat.two_pow_pos _) hi) fun hpq =>
        hne (congrArg (c, ·) hpq)
    · exact .inr (Nat.mul_le_mul_right _ hlt)
  · have hmapped := held_mapped h hb
    have hmapped' := held_mapped h hb'
    have hin := (h.inv.ok.regions c hc).mem.inRegion
    have hin' := (h.inv.ok.regions d hd).mem.inRegion
    have hbase := h.inv.base_le c hclt
    have hbase' := h.inv.base_le d hdlt
    rcases h.inv.apart c hclt d hdlt hcd with hapart | hapart
    · refine .inl ?_
      omega
    · refine .inr ?_
      omega

/-- No two blocks that are handed out overlap, and each is in the mapped memory of its region. -/
theorem held_apart (h : Reachable cfg kind env st) :
    (st.held.Pairwise fun b b' =>
      st.decompactPtr cfg b + cfg.getSizeByClassId b.1 ≤ st.decompactPtr cfg b' ∨
        st.decompactPtr cfg b' + cfg.getSizeByClassId b'.1 ≤ st.decompactPtr cfg b) ∧
      ∀ b ∈ st.held, (st.regions b.1).regionBeg ≤ st.decompactPtr cfg b ∧
        st.decompactPtr cfg b + cfg.getSizeByClassId b.1 ≤
          (st.regions b.1).regionBeg + (st.regions b.1).mappedUser := by
  have hnodup : st.held.Nodup := List.nodup_iff_count_eq_one.mpr fun b hb => (mem_held h hb).2.2
  refine ⟨?_, fun b hb => held_mapped h hb⟩
  refine List.Nodup.pairwise_of_forall_ne hnodup fun b hb b' hb' hne => ?_
  exact held_ne_apart h hb hb' hne

theorem held_apart_calls : ∃ st : Blocks Bool, st.held = [(1, 3), (1, 1)] ∧
    st.held.Pairwise fun b b' =>
      st.decompactPtr smallConfig b + smallConfig.getSizeByClassId b.1 ≤
          st.decompactPtr smallConfig b' ∨
        st.decompactPtr smallConfig b' + smallConfig.getSizeByClassId b'.1 ≤
          st.decompactPtr smallConfig b := by
  have hheld : (TransitionSystem.run (enabledStep smallConfig .noCache smallEnv)
      (initial smallConfig smallEnv 4096 1 true) (calls.take 3)).map Blocks.held =
        some [(1, 3), (1, 1)] := by decide +kernel
  obtain ⟨st, hst, hheld⟩ := Option.map_eq_some_iff.mp hheld
  have hreach : Reachable smallConfig .noCache smallEnv st :=
    .run (.start (initial_init _ _ _ _ _ (by decide))) hst
  exact ⟨st, hheld, (held_apart hreach).1⟩

/-- The places that a front end has for blocks of a class. -/
def room (cfg : ClassConfig) (kind : Kind) (c : Nat) : Nat :=
  match kind with
  | .localCache => 2 * cfg.maxNumBlocksInBatch
  | .noCache => if c = batchClassId then cfg.maxNumBlocksInBatch else 0

omit [Fintype τ] [DecidableEq τ] in
theorem maxCount_le_room (cfg : ClassConfig) (kind : Kind) (c : Nat) :
    maxCount cfg kind c ≤ 2 * cfg.maxNumBlocksInBatch ∧
      maxCount cfg .noCache batchClassId = cfg.maxNumBlocksInBatch := by
  have hle : cfg.getMaxCached c ≤ cfg.maxNumBlocksInBatch := Nat.min_le_left _ _
  refine ⟨?_, by rw [maxCount, if_pos rfl]⟩
  cases kind with
  | localCache =>
    rw [maxCount]
    omega
  | noCache =>
    rw [maxCount]
    split <;> omega

/-- No thread ever keeps more blocks than it has places for. -/
theorem chunks_fit (h : Reachable cfg kind env st) (t : τ) (c : Nat) :
    (st.chunks t c).length ≤ room cfg kind c := by
  have hfront := h.inv.ok.fronts t
  have hle : (st.chunks t c).length ≤ maxCount cfg kind c := hfront.le c
  obtain ⟨hroom, hbatch⟩ := maxCount_le_room cfg kind c
  cases kind with
  | localCache => exact hle.trans hroom
  | noCache =>
    rw [room]
    by_cases hc : c = batchClassId
    · rw [hc, hbatch] at hle
      rw [if_pos hc, hc]
      exact hle
    · have hnil : st.chunks t c = [] := hfront.empty c hc (.inr rfl)
      rw [hnil]
      exact Nat.zero_le _

theorem chunks_fit_calls : ∃ st : Blocks Bool, st.held = [(1, 3)] ∧
    (st.chunks true 0).length ≤ 2 := by
  obtain ⟨st, hreach, hst⟩ := afterCalls_reachable
  exact ⟨st, afterCalls_held hst, chunks_fit hreach true 0⟩

end ScudoMte.FrontEnd.Blocks
