import ScudoMte.FrontEnd.Totals

namespace ScudoMte.FrontEnd.Front

open Primary Weights

variable {G : Type*} [AddCommGroup G] {cfg : ClassConfig} {kind : Kind} {f f' : Front} {c p : Nat}

/-- What goes in and what comes out, in other words. -/
theorem Serves.congr {T : Tally cfg G} {given taken given' taken' : List Nat}
    (h : Serves T c given taken f f')
    (heq : weigh T.weight given + weigh T.weight taken' = weigh T.weight given' + weigh T.weight taken) :
    Serves T c given' taken' f f' := by
  intro d
  have hd := h d
  by_cases hdc : d = c
  · simp only [if_pos hdc] at hd ⊢
    grind
  · simp only [if_neg hdc] at hd ⊢
    exact hd

theorem allocate_serves (T : Tally cfg G) (hf : f.Ok cfg kind) (hc : c ∈ classes cfg)
    {res : Option Nat} (h : f.allocate cfg kind c = some (res, f')) :
    f'.Ok cfg kind ∧ Serves T c [] res.toList f f' ∧
      ∀ p ∈ res, Region.InRange cfg.toPrimaryConfig p := by
  have hc0 := (mem_classes.mp hc).2
  cases kind with
  | localCache =>
    simp only [allocate] at h
    cases hlast : (f.chunks c).getLast? with
    | some p =>
      simp only [hlast] at h
      cases h
      obtain ⟨rest, hrest⟩ := List.getLast?_eq_some_iff.mp hlast
      have hle := hf.le c
      have hrange := hf.range c hc0
      have hset := serves_setChunks T f c rest
      rw [hrest] at hle hrange hset ⊢
      rw [List.dropLast_concat]
      refine ⟨hf.setChunks hc ?_ fun q hq => hrange q (List.mem_append_left _ hq), hset.congr ?_, ?_⟩
      · rw [List.length_append] at hle
        omega
      · simp only [Option.toList_some, weigh_append, weigh_nil, zero_add]
      · intro q hq
        cases hq
        exact hrange p List.mem_concat_self
    | none =>
      have hnil := List.getLast?_eq_none_iff.mp hlast
      simp only [hlast] at h
      obtain ⟨⟨blocks, f1⟩, hpop, hret⟩ := Option.bind_eq_some_iff.mp h
      cases hret
      obtain ⟨hf1, hserves, hsame, hlength, hrange⟩ := popBlocks_serves T hf hc hpop
      have hset := serves_setChunks T f1 c blocks.dropLast
      rw [hsame c hc0, hnil] at hset
      have hdrop : blocks.dropLast ++ blocks.getLast?.toList = blocks := by
        cases hblocks : blocks.getLast? with
        | none => rw [List.getLast?_eq_none_iff.mp hblocks]; rfl
        | some p =>
          obtain ⟨rest, rfl⟩ := List.getLast?_eq_some_iff.mp hblocks
          rw [List.dropLast_concat]
          rfl
      refine ⟨hf1.setChunks hc ?_ fun q hq => hrange q (List.mem_of_mem_dropLast hq),
        (hserves.trans hset).congr ?_, fun q hq => hrange q (List.mem_of_getLast? hq)⟩
      · have hle : blocks.length ≤ maxCount cfg .localCache c / 2 := hlength
        have hdropped : blocks.dropLast.length = blocks.length - 1 := List.length_dropLast
        have hhalf : blocks.dropLast.length ≤ maxCount cfg .localCache c := by omega
        exact hhalf
      · have hw := congrArg (weigh T.weight) hdrop
        simp only [weigh_append, weigh_nil, List.nil_append, List.append_nil, zero_add] at hw ⊢
        exact hw
  | noCache =>
    simp only [allocate] at h
    obtain ⟨⟨blocks, f1⟩, hpop, hret⟩ := Option.bind_eq_some_iff.mp h
    cases hret
    obtain ⟨hf1, hserves, -, hlength, hrange⟩ := popBlocks_serves T hf hc hpop
    have hblocks : blocks.head?.toList = blocks := by
      match blocks, hlength with
      | [], _ => rfl
      | [p], _ => rfl
    refine ⟨hf1, ?_, fun q hq => hrange q (List.mem_of_head? hq)⟩
    rw [hblocks]
    exact hserves

theorem drainClass_serves (T : Tally cfg G) (hf : f.Ok cfg .localCache) (hc : c ∈ classes cfg)
    (hne : f.chunks c ≠ []) (h : f.drainClass cfg .localCache c = some f') :
    f'.Ok cfg .localCache ∧ Serves T c [] [] f f' ∧
      (f'.chunks c).length < (f.chunks c).length ∧
      ∀ d ≠ batchClassId, d ≠ c → f'.chunks d = f.chunks d := by
  have hc0 := (mem_classes.mp hc).2
  have hpos : 0 < maxCount cfg .localCache c / 2 := by
    have hpos := getMaxCached_pos cfg c
    rw [maxCount]
    omega
  have hlen := List.length_pos_of_ne_nil hne
  have hle := hf.le c
  have hrange := hf.range c hc0
  rw [drainClass] at h
  generalize hn : min (maxCount cfg .localCache c / 2) (f.chunks c).length = n at h
  obtain ⟨f1, hpush, hret⟩ := Option.bind_eq_some_iff.mp h
  cases hret
  have htake : (f.chunks c).take n ≠ [] := by
    refine List.ne_nil_of_length_pos ?_
    rw [List.length_take]
    omega
  obtain ⟨hf1, hserves, hsame⟩ := pushBlocks_serves T hf hc htake
    (fun q hq => hrange q (List.mem_of_mem_take hq)) hpush
  have hset := serves_setChunks T f1 c ((f.chunks c).drop n)
  rw [hsame c hc0] at hset
  refine ⟨hf1.setChunks hc ?_ fun q hq => hrange q (List.mem_of_mem_drop hq),
    (hserves.trans hset).congr ?_, ?_, ?_⟩
  · rw [List.length_drop]
    omega
  · have hw := congrArg (weigh T.weight) (List.take_append_drop n (f.chunks c))
    simp only [weigh_append, weigh_nil, List.nil_append, add_zero, zero_add] at hw ⊢
    exact hw
  · simp only [setChunks, Function.update_self, List.length_drop]
    omega
  · intro d hd hdc
    simp only [setChunks, Function.update_of_ne hdc]
    exact hsame d hd

theorem deallocate_serves (T : Tally cfg G) (hf : f.Ok cfg kind)
    (hc : c = batchClassId ∨ c ∈ classes cfg ∧ Region.InRange cfg.toPrimaryConfig p)
    (h : f.deallocate cfg kind c p = some f') : f'.Ok cfg kind ∧ Serves T c [p] [] f f' := by
  unfold deallocate at h
  split at h
  · next hc0 =>
    obtain ⟨hs, hw⟩ := BatchClass.deallocate_weight T p hf.batchClass
    cases h
    subst hc0
    refine ⟨hf.setBatchClass hs, serves_batchClass T ?_⟩
    rw [hw, weigh_cons, weigh_nil, add_zero, add_zero]
  · next hc0 =>
    obtain ⟨hc, hp⟩ := hc.resolve_left hc0
    cases kind with
    | localCache =>
      obtain ⟨f1, hdrain, hret⟩ := Option.bind_eq_some_iff.mp h
      cases hret
      have hf1 : f1.Ok cfg .localCache ∧ Serves T c [] [] f f1 ∧
          (f1.chunks c).length < maxCount cfg .localCache c := by
        have hpos := maxCount_pos cfg .localCache c
        have hle := hf.le c
        split at hdrain
        · next hfull =>
          have hne := List.ne_nil_of_length_pos (hfull ▸ hpos)
          obtain ⟨hok, hserves, hlt, -⟩ := drainClass_serves T hf hc hne hdrain
          exact ⟨hok, hserves, by omega⟩
        · next hroom =>
          cases hdrain
          exact ⟨hf, .refl T c f, by omega⟩
      obtain ⟨hok, hserves, hlt⟩ := hf1
      refine ⟨hok.setChunks hc ?_ ?_,
        (hserves.trans (serves_setChunks T f1 c (f1.chunks c ++ [p]))).congr ?_⟩
      · rw [List.length_append]
        exact hlt
      · intro q hq
        rcases List.mem_append.mp hq with hq | hq
        · exact hok.range c hc0 q hq
        · rw [List.mem_singleton.mp hq]
          exact hp
      · simp only [weigh_append, weigh_nil, List.nil_append, add_zero]
        abel
    | noCache =>
      obtain ⟨hok, hserves, -⟩ := pushBlocks_serves T hf hc (List.cons_ne_nil p [])
        (List.forall_mem_singleton.mpr hp) h
      exact ⟨hok, hserves⟩

theorem drainLoop_serves (T : Tally cfg G) {fuel : Nat} (hf : f.Ok cfg .localCache)
    (hc : c ∈ classes cfg) (h : drainLoop cfg .localCache c fuel f = some f') :
    f'.Ok cfg .localCache ∧ Serves T c [] [] f f' ∧ f'.chunks c = [] ∧
      ∀ d ≠ batchClassId, d ≠ c → f'.chunks d = f.chunks d := by
  induction fuel generalizing f with
  | zero =>
    rw [drainLoop] at h
    split at h
    · next hnil =>
      cases h
      exact ⟨hf, .refl T c _, hnil, fun _ _ _ => rfl⟩
    · cases h
  | succ fuel ih =>
    rw [drainLoop] at h
    split at h
    · next hnil =>
      cases h
      exact ⟨hf, .refl T c _, hnil, fun _ _ _ => rfl⟩
    · next hne =>
      obtain ⟨f1, hdrain, hrest⟩ := Option.bind_eq_some_iff.mp h
      obtain ⟨hf1, hserves, -, hsame⟩ := drainClass_serves T hf hc hne hdrain
      obtain ⟨hf', hserves', hnil, hsame'⟩ := ih hf1 hrest
      exact ⟨hf', hserves.trans hserves', hnil,
        fun d hd hdc => (hsame' d hd hdc).trans (hsame d hd hdc)⟩

/-- The fuel of a loop is never used up. -/
theorem drainLoop_fuel (hf : f.Ok cfg .localCache) (hc : c ∈ classes cfg) {fuel : Nat}
    (hfuel : (f.chunks c).length ≤ fuel) (more : Nat) :
    drainLoop cfg .localCache c (fuel + more) f = drainLoop cfg .localCache c fuel f := by
  induction fuel generalizing f with
  | zero =>
    have hnil := List.eq_nil_of_length_eq_zero (Nat.le_zero.mp hfuel)
    cases more <;> simp only [drainLoop, if_pos hnil]
  | succ fuel ih =>
    rw [Nat.add_right_comm, drainLoop, drainLoop]
    split
    · rfl
    · next hne =>
      cases hdrain : f.drainClass cfg .localCache c with
      | none => rfl
      | some f1 =>
        have hserves := drainClass_serves (countTally cfg 0) hf hc hne hdrain
        exact ih hserves.1 (by omega)

theorem drainClasses_serves (T : Tally cfg G) {l : List Nat} (hf : f.Ok cfg .localCache)
    (hl : ∀ c ∈ l, c ∈ classes cfg) (h : drainClasses cfg .localCache l f = some f') :
    f'.Ok cfg .localCache ∧ Serves T batchClassId [] [] f f' ∧
      ∀ c ≠ batchClassId, f'.chunks c = if c ∈ l then [] else f.chunks c := by
  induction l generalizing f with
  | nil =>
    cases h
    exact ⟨hf, .refl T batchClassId _, fun _ _ => rfl⟩
  | cons d l ih =>
    obtain ⟨f1, hdrain, hrest⟩ := Option.bind_eq_some_iff.mp h
    obtain ⟨hd, hl⟩ := List.forall_mem_cons.mp hl
    obtain ⟨hf1, hserves, hnil, hsame⟩ := drainLoop_serves T hf hd hdrain
    obtain ⟨hf', hserves', hchunks⟩ := ih hf1 hl hrest
    refine ⟨hf', (hserves.of_class batchClassId).trans hserves', fun c hc => ?_⟩
    rw [hchunks c hc]
    by_cases hcd : c = d
    · subst hcd
      rw [hnil, ite_self, if_pos List.mem_cons_self]
    · rw [hsame c hc hcd]
      simp only [List.mem_cons, hcd, false_or]

/-- A drained cache has no block left. A front end without a cache keeps none but of the batch
class. -/
theorem drain_serves (T : Tally cfg G) (hf : f.Ok cfg kind) (h : f.drain cfg kind = some f') :
    f'.Ok cfg kind ∧ Serves T batchClassId [] [] f f' ∧ ∀ c, f'.chunks c = [] := by
  have hlast {f1 : Front} {s : BatchClass} (hf1 : f1.Ok cfg kind)
      (hempty : ∀ c ≠ batchClassId, f1.chunks c = []) (hs : s.Ok cfg kind)
      (hw : s.weight T = f1.batchClass.weight T) (hnil : s.chunks = []) :
      (f1.setBatchClass s).Ok cfg kind ∧ Serves T batchClassId [] [] f1 (f1.setBatchClass s) ∧
        ∀ c, (f1.setBatchClass s).chunks c = [] := by
    refine ⟨hf1.setBatchClass hs, serves_batchClass T (by rw [hw]), fun c => ?_⟩
    simp only [setBatchClass]
    by_cases hc : c = batchClassId
    · rw [hc, Function.update_self]
      exact hnil
    · rw [Function.update_of_ne hc]
      exact hempty c hc
  cases kind with
  | localCache =>
    obtain ⟨f1, hclasses, hret⟩ := Option.bind_eq_some_iff.mp h
    cases hret
    obtain ⟨hf1, hserves, hchunks⟩ := drainClasses_serves T hf (fun _ hc => hc) hclasses
    have hempty : ∀ c ≠ batchClassId, f1.chunks c = [] := by
      intro c hc
      rw [hchunks c hc]
      split
      · rfl
      · next hmem => exact hf.empty c hc (Or.inl hmem)
    obtain ⟨hs, hw, hnil⟩ := BatchClass.drainLoop_weight T hf1.batchClass (Nat.le_refl _)
    obtain ⟨hf', hserves', hnil'⟩ := hlast hf1 hempty hs hw hnil
    exact ⟨hf', hserves.trans hserves', hnil'⟩
  | noCache =>
    cases h
    obtain ⟨hs, hw, hnil⟩ := BatchClass.drainStorage_weight T hf.batchClass
    exact hlast hf (fun c hc => hf.empty c hc (Or.inr rfl)) hs hw hnil

end ScudoMte.FrontEnd.Front
