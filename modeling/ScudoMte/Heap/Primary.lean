import ScudoMte.Heap.Invariant

namespace ScudoMte

open ByteMemory Ownership Chunk Combined

variable {cfg : Config} {R : Regions cfg} {h : Heap}

theorem classIds_nodup (cfg : Config) : (classIds cfg).Nodup := List.nodup_range'

theorem mem_classIds {c : Nat} :
    c ∈ classIds cfg ↔ 1 ≤ c ∧ c ≤ cfg.sizeClassMap.largestClassId := by
  rw [classIds, List.mem_range'_1]
  omega

section Populate

variable {c : Nat} (carved : Nat → Nat)

/-- One more block is carved. -/
theorem carvedBlocks_update (hc : c ∈ classIds cfg) :
    ((classIds cfg).flatMap
      (R.carvedBlocks (Function.update carved c (carved c + 1)))).Perm
      ((c, R.blockAt c (carved c)) :: (classIds cfg).flatMap (R.carvedBlocks carved)) := by
  have hsplit (f : Nat → List (Nat × Nat)) :
      ((classIds cfg).flatMap f).Perm (f c ++ ((classIds cfg).erase c).flatMap f) :=
    (List.perm_cons_erase hc).flatMap_right f
  have hrest : ((classIds cfg).erase c).flatMap
      (R.carvedBlocks (Function.update carved c (carved c + 1))) =
      ((classIds cfg).erase c).flatMap (R.carvedBlocks carved) := by
    apply List.flatMap_congr
    intro d hd
    have hne : d ≠ c := by
      rintro rfl
      exact (classIds_nodup cfg).not_mem_erase hd
    simp only [Regions.carvedBlocks, Function.update_of_ne hne]
  have hc : R.carvedBlocks (Function.update carved c (carved c + 1)) c =
      R.carvedBlocks carved c ++ [(c, R.blockAt c (carved c))] := by
    simp only [Regions.carvedBlocks, Function.update_self, List.range_succ, List.map_append,
      List.map_cons, List.map_nil]
  refine (hsplit _).trans ?_
  rw [hrest, hc, List.append_assoc]
  exact List.perm_middle.trans ((hsplit _).symm.cons _)

/-- The reserve of a class gets smaller by the block. -/
theorem reserveOwners_update (hc : c ∈ classIds cfg) (carved' : Nat → Nat)
    (hcarved : ∀ d, d ≠ c → carved' d = carved d) :
    (reserveOwners R carved').Perm (.reserve (R.blockAt c (carved' c)) (R.regionEnd c) ::
      ((classIds cfg).erase c).map fun d => .reserve (R.blockAt d (carved d)) (R.regionEnd d)) := by
  refine ((List.perm_cons_erase hc).map _).trans ?_
  rw [List.map_cons]
  refine List.Perm.of_eq (congrArg _ ?_)
  apply List.map_congr_left
  intro d hd
  have hne : d ≠ c := by
    rintro rfl
    exact (classIds_nodup cfg).not_mem_erase hd
  rw [hcarved d hne]

end Populate

theorem IsZero.quiet {m : Mem} {block size : Nat} (hz : IsZero m.data block (block+size))
    (hb : block < 2^56) (hsize : 16 ≤ size) : Quiet m block size := by
  have hoff : getChunkOffsetFromBlock m block = 16 := by
    rw [getChunkOffsetFromBlock, untagPointer_of_lt hb,
      load_zero (hz.mono (le_refl _) (show block + 4 ≤ block + size by omega))]
    rfl
  refine ⟨?_, ?_, ?_⟩ <;> rw [hoff]
  · exact hsize
  · rw [Nat.add_sub_cancel, load_zero (hz.mono (le_refl _) (show block + 8 ≤ block + size by omega))]
    decide

/-- The primary cuts the next block of a class from its region. -/
theorem Heap.Inv.populate (hi : h.Inv R) {c : Nat} (hc : c ∈ classIds cfg)
    (hfit : (h.carved c + 1) * cfg.sizeClassMap.getSizeByClassId c ≤ R.regionSize c) :
    ({ h with
        carved := Function.update h.carved c (h.carved c + 1)
        free := (c, R.blockAt c (h.carved c)) :: h.free } : Heap).Inv R := by
  obtain ⟨hc1, hcl⟩ := mem_classIds.mp hc
  have hsize := cfg.sizeClassMap.size_aligned c hc1 hcl
  have hpos := cfg.sizeClassMap.size_pos c hc1 hcl
  have hself : Function.update h.carved c (h.carved c + 1) c = h.carved c + 1 :=
    Function.update_self _ _ _
  have hlt : R.regionEnd c < 2^47 := R.lt c
  have hnext : R.blockAt c (h.carved c + 1) =
      R.blockAt c (h.carved c) + cfg.sizeClassMap.getSizeByClassId c := by
    rw [Regions.blockAt, Regions.blockAt, Nat.succ_mul]
    omega
  have hle : R.blockAt c (h.carved c + 1) ≤ R.regionEnd c := by
    rw [Regions.blockAt, Regions.regionEnd]
    omega
  -- the reserve of the class apart
  have hown : Owns cfg h.opts.useMemoryTagging h.mem
      (.reserve (R.blockAt c (h.carved c)) (R.regionEnd c) ::
        (((classIds cfg).erase c).map (fun d => Owner.reserve (R.blockAt d (h.carved d))
          (R.regionEnd d)) ++ (chunkOwners h.chunks ++ (cacheOwners cfg h.secondary.cache ++
            freeOwners h.free)))) :=
    Owned.perm hi.owned (ownersOf_reserve.trans
      ((reserveOwners_update h.carved hc h.carved fun _ _ => rfl).append_right _))
  obtain ⟨h16, hend, hz⟩ : Owner.Ok cfg h.opts.useMemoryTagging h.mem
    (.reserve (R.blockAt c (h.carved c)) (R.regionEnd c)) := hown.ok _ List.mem_cons_self
  have hfree : FreeBlock cfg h.mem c (R.blockAt c (h.carved c)) := by
    refine ⟨hc1, hcl, h16, by omega, ?_⟩
    exact IsZero.quiet (hz.mono (le_refl _) (by omega)) (by omega) (by omega)
  have hnews : Owns cfg h.opts.useMemoryTagging h.mem
      [.free c (R.blockAt c (h.carved c)), .reserve (R.blockAt c (h.carved c + 1)) (R.regionEnd c)] := by
    refine @Owned.append _ _ _ _ _ [_] [_] (.singleton hfree) (.singleton ⟨?_, hend, ?_⟩) ?_
    · rw [hnext]
      omega
    · exact hz.mono (by omega) (le_refl _)
    · intro o ho x hx
      rw [List.mem_singleton.mp ho, List.mem_singleton.mp hx]
      exact .inl (by simp only [Owner.zone]; omega)
  have hupd := Owns.replace hown (.refl _ _ _) hnews (by
    intro n hn
    rcases List.mem_cons.mp hn with rfl | hn
    · exact ⟨le_refl _, by simp only [Owner.zone]; omega⟩
    · rw [List.mem_singleton.mp hn]
      exact ⟨by simp only [Owner.zone]; omega, le_refl _⟩)
  refine ⟨?_, ?_, ?_, hi.inUse, hi.linked, hi.tagged, hi.untagged⟩
  · have hres := reserveOwners_update (R := R) h.carved hc
      (Function.update h.carved c (h.carved c + 1)) fun d hd => Function.update_of_ne hd _ _
    rw [hself] at hres
    exact Owned.perm hupd ((ownersOf_cons_free (c, R.blockAt c (h.carved c))).trans
      ((ownersOf_reserve.trans (hres.append_right _)).cons _)).symm
  · exact List.perm_middle.trans ((hi.blocks.cons _).trans (carvedBlocks_update h.carved hc).symm)
  · intro d
    by_cases hd : d = c
    · rw [hd]
      simp only [hself]
      exact hfit
    · simp only [Function.update_of_ne hd]
      exact hi.fits d

theorem zeroPages_isZero {m : Mem} {lo hi a n : Nat} (hz : IsZero m.data lo hi) :
    IsZero (m.zeroPages a n).data lo hi := by
  intro x h1 h2
  simp only [Mem.zeroPages, fill]
  split
  · rfl
  · exact hz x h1 h2

theorem Heap.Inv.releasePages (hi : h.Inv R) {lo n : Nat} (hlo : cfg.pageSize ∣ lo)
    (hn : cfg.pageSize ∣ n) (hchunks : ∀ r ∈ h.chunks, Range.Disjoint ⟨lo, lo+n⟩ r.map.range)
    (hcached : ∀ e ∈ h.secondary.cache.cached cfg, Range.Disjoint ⟨lo, lo+n⟩ e.memMap.range) :
    ({ h with mem := h.mem.zeroPages lo n } : Heap).Inv R := by
  have hag := Mem.zeroPages_agreeOff h.mem lo n
  have hpage := cfg.pageSize_aligned
  have hlo16 : lo % 16 = 0 :=
    Nat.mod_eq_zero_of_dvd ((Nat.dvd_of_mod_eq_zero hpage).trans hlo)
  have hn16 : n % 16 = 0 := Nat.mod_eq_zero_of_dvd ((Nat.dvd_of_mod_eq_zero hpage).trans hn)
  refine { hi with owned := Owned.frame hi.owned ?_ }
  intro o ho hok
  cases o with
  | chunk r =>
    have hr : r ∈ h.chunks := by
      simpa [Heap.owners, ownersOf, chunkOwners, cacheOwners, freeOwners, reserveOwners] using ho
    exact hok.frame (Mem.AgreeOff.sameOn (r := ⟨lo, lo+n⟩) hag (hchunks r hr))
  | cached e =>
    have he : e ∈ h.secondary.cache.cached cfg := by
      simpa [Heap.owners, ownersOf, chunkOwners, cacheOwners, freeOwners, reserveOwners] using ho
    exact hok.frame (Mem.AgreeOff.sameOn (r := ⟨lo, lo+n⟩) hag (hcached e he))
  | free c block =>
    have hf : FreeBlock cfg h.mem c block := hok
    have hlt := hf.lt
    exact { hf with quiet := hf.quiet.zeroPages (by omega) hf.aligned hlo16 hn16 }
  | reserve a b =>
    obtain ⟨h16, hend, hz⟩ := hok
    exact ⟨h16, hend, zeroPages_isZero hz⟩

end ScudoMte
