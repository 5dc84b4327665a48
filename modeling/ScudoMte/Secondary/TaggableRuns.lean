import ScudoMte.Secondary.TaggablePages

namespace ScudoMte.Secondary

open Ownership

variable {cfg : Config} {f : Taggable}

/-- How a mapping is kept in the cache, or in use. In the cache, what was tagged when the block
was stored is only of interest while its pages have not been given back. -/
def MappingOk (cfg : Config) (f : Taggable) : CachedBlock ⊕ InUse → Prop
  | .inl e => Mapped cfg f e.memMap e.commitBase e.commitSize
        (if e.time = 0 then e.commitBase else untagPointer e.blockBegin) ∧
      ∃ b, e.blockBegin = taggedPtr b 1 ∧ b % 16 = 0 ∧ e.commitBase ≤ b ∧
        b ≤ e.commitBase + e.commitSize
  | .inr b => Mapped cfg f b.memMap b.commitBase b.commitSize b.userPtr ∧
      b.userPtr = b.headerPos + 64 ∧ b.headerPos % 16 = 0 ∧ b.commitBase ≤ b.headerPos ∧
      b.userPtr ≤ b.commitBase + b.commitSize

/-- Every mapping is in order, and the cache is linked. -/
structure Pages.Inv (cfg : Config) (s : Pages) : Prop where
  owned : Owned zone (MappingOk cfg) s.taggable (s.owners cfg)
  linked : Linked s.cache

theorem MappingOk.frame {f' : Taggable} {o : CachedBlock ⊕ InUse} (h : MappingOk cfg f o)
    (hf : ∀ a, (Pages.zone o).lo ≤ a → a < (Pages.zone o).hi → f' a = f a) :
    MappingOk cfg f' o := by
  cases o with
  | inl e => exact ⟨h.1.frame hf, h.2⟩
  | inr b => exact ⟨h.1.frame hf, h.2⟩

/-- Nothing is asked of the old tags once the pages are given back. -/
theorem MappingOk.release {e : CachedBlock} (h : MappingOk cfg f (.inl e)) :
    MappingOk cfg f (.inl { e with time := 0 }) := by
  refine ⟨h.1.lower ?_, h.2⟩
  simp only [if_true]
  omega

theorem owned_closed (cfg : Config) (f : Taggable) (inUse : List InUse) :
    Closed fun _ l => Owned Pages.zone (MappingOk cfg) f (l.map .inl ++ inUse.map .inr) where
  perm h hp := h.perm ((hp.map _).append_right _)
  drop h := h.tail
  release h := h.update (fun _ _ _ hok => hok) (h.ok _ List.mem_cons_self).release (.refl _)

/-- One more block in use. -/
theorem owners_cons (cfg : Config) (c : Cache) (b : InUse) (inUse : List InUse) (f f' : Taggable) :
    (Pages.owners cfg ⟨c, b::inUse, f⟩).Perm (.inr b :: Pages.owners cfg ⟨c, inUse, f'⟩) :=
  List.perm_middle

section Place

variable {headerPos commitBase commitSize k : Nat} {map : MemMap}

theorem placeBlock_userPtr (hk4 : 4 ≤ k) (hk : k ≤ 24) (hlt : headerPos < 2^56)
    (hal : 2^k ∣ headerPos + largeHeaderSize + 16) :
    placeBlock headerPos commitBase commitSize map (2^k) =
      ⟨headerPos, commitBase, commitSize, map, headerPos + 64⟩ := by
  have hk24 : 2^k ≤ 2^24 := Nat.pow_le_pow_right (by decide) hk
  have hs : Chunk.getHeaderSize = 16 := by decide
  rw [largeHeaderSize] at hal
  rw [placeBlock, largeHeaderSize, hs, roundUp_of_dvd _ k (by omega) (by omega) hal]

/-- The tag stores of a block that is handed out: up to the large header's end at least, and
from there to the user pointer. -/
theorem Mapped.initChunk_allowed
    (h : Mapped cfg f map commitBase commitSize (headerPos + 64)) (hlo : commitBase ≤ headerPos)
    (h16 : headerPos % 16 = 0) (hhi : headerPos + 64 ≤ commitBase + commitSize) :
    (initChunkCall ⟨headerPos, commitBase, commitSize, map, headerPos + 64⟩).Allowed cfg f := by
  have hend := h.end_le
  have hlt := h.lt
  simp only [initChunkCall, InUse.blockBegin, largeHeaderSize]
  rw [Combined.addHeaderTag_of_lt (by omega), Combined.addHeaderTag_of_lt (by omega)]
  exact h.storeTags_allowed 2 2 (by omega) (by omega) (by omega) (by omega) (by omega) (by omega)

theorem Mapped.retagBlock_allowed
    (h : Mapped cfg f map commitBase commitSize (headerPos + 64)) (hlo : commitBase ≤ headerPos)
    (h16 : headerPos % 16 = 0) (hhi : headerPos + 64 ≤ commitBase + commitSize) :
    (retagBlockCall ⟨headerPos, commitBase, commitSize, map, headerPos + 64⟩).Allowed cfg f := by
  have hstore : (TagCall.storeTags commitBase commitSize (taggedPtr (headerPos + 48) 0)
      (taggedPtr (headerPos + 64) 0)).Allowed cfg f :=
    h.storeTags_allowed 0 0 (by omega) (by omega) (by omega) (by omega) (by omega) (by omega)
  rwa [taggedPtr_zero, taggedPtr_zero] at hstore

end Place

/-- The three cases of a cached mapping that is handed out again. -/
theorem retagRange_allowed {e : CachedBlock} {block : Nat} (h : MappingOk cfg f (.inl e))
    (hlo : e.commitBase ≤ block) (h16 : block % 16 = 0)
    (hhi : block ≤ e.commitBase + e.commitSize)
    (hnear : block ≤ e.commitBase + maxUnreleasedCachePages * cfg.pageSize) :
    (TagCall.storeTags e.commitBase e.commitSize (retagRange e (taggedPtr block 1)).1
      (retagRange e (taggedPtr block 1)).2).Allowed cfg f := by
  obtain ⟨hmap, b, hb, hb16, hblo, hbhi⟩ := h
  have hend := hmap.end_le
  have hlt := hmap.lt
  have hp16 := cfg.pageSize_aligned
  have hbase16 : e.commitBase % 16 = 0 :=
    Nat.mod_eq_zero_of_dvd ((Nat.dvd_of_mod_eq_zero hp16).trans hmap.base_dvd)
  rw [retagRange, addLargeHeaderTag_of_lt (by omega)]
  split
  · exact hmap.storeTags_allowed 1 1 (le_refl _) hbase16 (by omega) hhi h16 (by omega)
  · next ht =>
    rw [if_neg ht, hb, untagPointer_taggedPtr 1 (by omega)] at hmap
    rw [hb]
    split
    · exact hmap.storeTags_allowed 1 1 hblo hb16 hbhi hhi h16 (by omega)
    · rw [untagPointer_taggedPtr 1 (by omega), untagPointer_taggedPtr 1 (by omega)]
      have hstore := hmap.storeTags_allowed 0 0 hlo h16 hhi hbhi hb16 (by omega)
      rwa [taggedPtr_zero, taggedPtr_zero] at hstore

/-- A block from the cache. -/
theorem Pages.Inv.retrieved {s : Pages} {m m' : Mem} {size k headerPos : Nat} {e : CachedBlock}
    {c : Cache} (hi : s.Inv cfg) (hk4 : 4 ≤ k) (hk : k ≤ 24) (hsize : size ≤ 2^41)
    (h : s.cache.retrieve cfg m maxUnreleasedCachePages size (2^k) getHeadersSize =
      (some (e, headerPos), c, m')) :
    let b := placeBlock headerPos e.commitBase e.commitSize e.memMap (2^k)
    let range := retagRange e (addLargeHeaderTag headerPos + largeHeaderSize)
    AllAllowed cfg s.taggable
        [.storeTags e.commitBase e.commitSize range.1 range.2, initChunkCall b] ∧
      Pages.Inv cfg { s with cache := c, inUse := b::s.inUse } := by
  obtain ⟨i, hmem, rfl, rfl, hfits, -⟩ := Cache.retrieve_some h
  have hperm : (s.owners cfg).Perm (.inl (s.cache.entries i) ::
      (((s.cache.remove i).cached cfg).map .inl ++ s.inUse.map .inr)) :=
    ((cached_remove cfg (List.nodup_append.mp hi.linked.nodup).1 hmem).map _).append_right _
  have hown := hi.owned.perm hperm
  have hok := hown.ok _ List.mem_cons_self
  generalize s.cache.entries i = e at hfits hown hok
  have hend := hok.1.end_le
  have hlt := hok.1.lt
  obtain ⟨⟨hal, hhead, hfit, -⟩, hnear⟩ := hfits.placed hk4 hk hsize (by omega)
  have hs : getHeadersSize = 64 := by decide
  have hlo := hfits.lo
  rw [hs] at hnear
  have h16 : headerPos % 16 = 0 := by
    have := mod_16_of_dvd hk4 hal
    rw [largeHeaderSize] at this
    omega
  rw [largeHeaderSize] at hfit
  simp only
  rw [placeBlock_userPtr hk4 hk (by omega) hal, largeHeaderSize, addLargeHeaderTag_of_lt (by omega),
    taggedPtr_add]
  have hmapped : Mapped cfg s.taggable e.memMap e.commitBase e.commitSize (headerPos + 64) :=
    hok.1.lower (by omega)
  have hnew : MappingOk cfg s.taggable
      (.inr ⟨headerPos, e.commitBase, e.commitSize, e.memMap, headerPos + 64⟩) :=
    ⟨hmapped, rfl, h16, hlo, by simp only; omega⟩
  refine ⟨⟨?_, ?_, trivial⟩, ?_, hi.linked.remove hmem⟩
  · exact retagRange_allowed hok (by omega) (by omega) (by omega) (by omega)
  · exact hmapped.initChunk_allowed hlo h16 (by omega)
  · exact Owned.perm (hown.update (fun _ _ _ hx => hx) hnew (.refl _))
      (owners_cons cfg _ _ _ _ s.taggable).symm

/-- A block in a new mapping, where nothing else is mapped. -/
theorem Pages.Inv.mapped {s : Pages} {opts : Options} {size k mapBase : Nat} (hi : s.Inv cfg)
    (ht : opts.useMemoryTagging = true) (hk4 : 4 ≤ k) (hk : k ≤ 24) (hsize : size ≤ 2^41)
    (hpos : 0 < mapBase) (hbase : cfg.pageSize ∣ mapBase)
    (hend : mapBase + (roundedSize cfg size (2^k) + 2 * getGuardPageSize cfg) < 2^56)
    (hdisj : ∀ o ∈ s.owners cfg, Range.Disjoint ⟨mapBase,
      mapBase + (roundedSize cfg size (2^k) + 2 * getGuardPageSize cfg)⟩ (Pages.zone o)) :
    let mapSize := roundedSize cfg size (2^k) + 2 * getGuardPageSize cfg
    let commitBase := commitBaseOf cfg mapBase (2^k)
    let commitSize := mapBase + mapSize - getGuardPageSize cfg - commitBase
    let allocPos := roundDown (commitBase + commitSize - size) (2^k)
    let headerPos := allocPos - getHeadersSize
    let b := placeBlock headerPos commitBase commitSize ⟨mapBase, mapSize⟩ (2^k)
    let calls := [.mapSecondary commitBase commitSize
        (remaps cfg opts commitBase commitSize allocPos),
      .storeTags commitBase commitSize (addLargeHeaderTag commitBase)
        (addLargeHeaderTag headerPos + largeHeaderSize),
      initChunkCall b]
    AllAllowed cfg s.taggable calls ∧ Pages.Inv cfg
      { s with inUse := b::s.inUse, taggable := calls.foldl TagCall.apply s.taggable } := by
  obtain ⟨hcbd, hcb, hced, hle, hroom⟩ := allocateFresh_range cfg size hk4 hk hsize hbase hend
  have hcases := allocPos_cases hk4 hk hsize hbase hend
  have hs : getHeadersSize = 64 := by decide
  simp only at hcases ⊢
  generalize roundedSize cfg size (2^k) + 2 * getGuardPageSize cfg = mapSize at *
  generalize commitBaseOf cfg mapBase (2^k) = commitBase at *
  have hcsd : cfg.pageSize ∣ mapBase + mapSize - getGuardPageSize cfg - commitBase :=
    Nat.dvd_sub hced hcbd
  have hcap : commitBase + (mapBase + mapSize - getGuardPageSize cfg - commitBase) =
      mapBase + mapSize - getGuardPageSize cfg := by omega
  rw [hcap]
  obtain ⟨hr1, -, hrd⟩ := roundDown_spec (mapBase + mapSize - getGuardPageSize cfg - size) k
    (by omega) (by omega)
  generalize mapBase + mapSize - getGuardPageSize cfg - commitBase = commitSize at *
  generalize roundDown (mapBase + mapSize - getGuardPageSize cfg - size) (2^k) = allocPos at *
  have hal16 := mod_16_of_dvd hk4 hrd
  have hcb16 : commitBase % 16 = 0 := Nat.mod_eq_zero_of_dvd
    ((Nat.dvd_of_mod_eq_zero cfg.pageSize_aligned).trans hcbd)
  rw [hs] at hroom ⊢
  have hplus : allocPos - 64 + largeHeaderSize + 16 = allocPos := by
    rw [largeHeaderSize]
    omega
  rw [placeBlock_userPtr hk4 hk (by omega) (by rwa [hplus]), largeHeaderSize,
    addLargeHeaderTag_of_lt (by omega), addLargeHeaderTag_of_lt (by omega), taggedPtr_add]
  obtain ⟨hcall, htagged, hother⟩ := remaps_spec s.taggable ht hcbd (show 0 < commitSize by omega)
    (fun hlarge => by rw [hcap]; exact hcases (by omega))
  have hmapped : Mapped cfg ((TagCall.mapSecondary commitBase commitSize
      (remaps cfg opts commitBase commitSize allocPos)).apply s.taggable) ⟨mapBase, mapSize⟩
      commitBase commitSize (allocPos - 64 + 64) := by
    refine ⟨by omega, hcbd, hcsd, by simp only; omega, by simp only; omega, hend, ?_⟩
    intro a h1 h2 h3
    exact htagged a h1 h2 (by omega)
  have hin : allocPos - 64 + 64 ≤ commitBase + commitSize := by omega
  have hnew : MappingOk cfg _ (.inr ⟨allocPos - 64, commitBase, commitSize, ⟨mapBase, mapSize⟩,
      allocPos - 64 + 64⟩) :=
    ⟨hmapped, rfl, by simp only; omega, by simp only; omega, hin⟩
  refine ⟨⟨hcall, ?_, ?_, trivial⟩, ?_, hi.linked⟩
  · exact hmapped.storeTags_allowed 1 1 (le_refl _) hcb16 (by omega) (by omega) (by omega)
      (by omega)
  · exact hmapped.initChunk_allowed (by omega) (by omega) hin
  · refine Owned.perm (hi.owned.add hdisj ?_ (.singleton hnew) ?_)
      (owners_cons cfg _ _ _ _ s.taggable).symm
    · intro o ho hok
      refine hok.frame fun a h1 h2 => hother a ?_
      rcases hdisj o ho with hd | hd
      · simp only at hd
        omega
      · simp only at hd
        omega
    · intro o ho
      rw [List.mem_singleton.mp ho]
      exact .refl _

/-- The cache keeps the mappings in order when the new entry is. -/
theorem store_owned {opts : Options} (env : SecondaryEnv) {m : Mem} {c : Cache}
    {inUse : List InUse} {commitBase commitSize blockBegin : Nat} {memMap : MemMap}
    (hl : Linked c) (hbase : commitBase ≠ 0)
    (h : Owned Pages.zone (MappingOk cfg) f (((⟨commitBase, commitSize, blockBegin, memMap,
      if opts.useMemoryTagging ∧ c.releaseToOsIntervalMs = 0 then 0 else env.clock⟩ :
        CachedBlock) :: c.cached cfg).map .inl ++ inUse.map .inr)) :
    Pages.Inv cfg ⟨(c.store cfg opts env m commitBase commitSize blockBegin memMap).1, inUse, f⟩ :=
  have ⟨h1, h2⟩ := (owned_closed cfg f inUse).store (m := m) env hl hbase h
  ⟨h1, h2⟩

/-- A block that is stored in the cache, or unmapped. -/
theorem Pages.Inv.deallocate {s : Pages} {opts : Options} (env : SecondaryEnv) (m : Mem)
    {b : InUse} (hi : s.Inv cfg) (ht : opts.useMemoryTagging = true) (hb : b ∈ s.inUse) :
    let calls := retagBlockCall b :: (deallocateBlock cfg opts env s.cache m b).2
    AllAllowed cfg s.taggable calls ∧ Pages.Inv cfg
      { cache := (deallocateBlock cfg opts env s.cache m b).1
        inUse := s.inUse.erase b
        taggable := calls.foldl TagCall.apply s.taggable } := by
  have hperm : (s.owners cfg).Perm
      (.inr b :: Pages.owners cfg ⟨s.cache, s.inUse.erase b, s.taggable⟩) :=
    (((List.perm_cons_erase hb).map Sum.inr).append_left _).trans
      (owners_cons cfg s.cache b _ s.taggable _)
  have hown := hi.owned.perm hperm
  obtain ⟨hmapped, huser, h16, hlo, hhi⟩ := hown.ok _ List.mem_cons_self
  have hend := hmapped.end_le
  have hlt := hmapped.lt
  have hretag : (retagBlockCall b).Allowed cfg s.taggable := by
    have h := (huser ▸ hmapped).retagBlock_allowed hlo h16 (by omega)
    rwa [← huser] at h
  have hblock : addLargeHeaderTag b.headerPos + largeHeaderSize = taggedPtr (b.headerPos + 48) 1 := by
    rw [addLargeHeaderTag_of_lt (by omega), largeHeaderSize, taggedPtr_add]
  -- the cache takes over the mapping, in which nothing but this call changes the pages
  have hstore (f : Taggable) (time : Nat)
      (hok : MappingOk cfg f
        (.inl ⟨b.commitBase, b.commitSize, taggedPtr (b.headerPos + 48) 1, b.memMap, time⟩))
      (hf : ∀ a, a < b.commitBase ∨ b.commitBase + b.commitSize ≤ a → f a = s.taggable a) :
      Owned Pages.zone (MappingOk cfg) f (((⟨b.commitBase, b.commitSize,
        taggedPtr (b.headerPos + 48) 1, b.memMap, time⟩ : CachedBlock) :: s.cache.cached cfg).map
          .inl ++ (s.inUse.erase b).map .inr) := by
    refine Owned.update hown ?_ hok (.refl _)
    intro o ho hd hx
    refine hx.frame fun a h1 h2 => hf a ?_
    have hbase := hmapped.base_le
    have hzone : Pages.zone (.inr b) = ⟨b.memMap.base, b.memMap.base + b.memMap.capacity⟩ := rfl
    rw [hzone] at hd
    rcases hd with hd | hd
    · simp only at hd
      omega
    · simp only at hd
      omega
  simp only [deallocateBlock]
  split
  · rw [hblock]
    have hentry (f : Taggable) (time tagEnd : Nat)
        (h : Mapped cfg f b.memMap b.commitBase b.commitSize tagEnd)
        (htime : time ≠ 0 → tagEnd = b.userPtr) : MappingOk cfg f (.inl ⟨b.commitBase,
          b.commitSize, taggedPtr (b.headerPos + 48) 1, b.memMap, time⟩) := by
      refine ⟨h.lower ?_, b.headerPos + 48, rfl, by omega, by simp only; omega,
        by simp only; omega⟩
      simp only
      rw [untagPointer_taggedPtr 1 (by omega)]
      split
      · omega
      · next hne =>
        have := htime hne
        omega
    by_cases hint : s.cache.releaseToOsIntervalMs = 0
    · obtain ⟨hcall, htagged, hother⟩ := remaps_spec s.taggable ht hmapped.base_dvd
        (show 0 < b.commitSize by omega) (fun _ => .inl (Nat.le_add_right b.commitBase _))
      have hnew := hentry _ 0 b.commitBase ⟨hmapped.pos, hmapped.base_dvd, hmapped.size_dvd,
        hmapped.base_le, hend, hlt, htagged⟩ (fun h => absurd rfl h)
      rw [if_pos hint]
      refine ⟨⟨hretag, hcall, trivial⟩, store_owned env hi.linked hmapped.pos.ne' ?_⟩
      rw [if_pos ⟨ht, hint⟩]
      exact hstore _ 0 hnew hother
    · have hnew := hentry _ env.clock _ hmapped fun _ => rfl
      rw [if_neg hint]
      refine ⟨⟨hretag, trivial⟩, store_owned env hi.linked hmapped.pos.ne' ?_⟩
      rw [if_neg fun h => hint h.2]
      exact hstore _ env.clock hnew fun _ _ => rfl
  · exact ⟨⟨hretag, trivial⟩, hown.tail, hi.linked⟩

namespace Pages

theorem Init.inv {s : Pages} (h : Init cfg s) : s.Inv cfg := by
  obtain ⟨hinUse, count, size, interval, hcache⟩ := h
  refine ⟨?_, ?_⟩
  · rw [owners, hinUse, hcache, cached_init]
    exact Owned.nil _
  · rw [hcache]
    exact linked_init cfg count size interval

theorem Inv.allocate {s : Pages} {opts : Options} {env : SecondaryEnv} {m : Mem}
    {size alignment : Nat} (hi : s.Inv cfg)
    (ha : s.Enabled cfg (.allocate opts env m size alignment)) :
    AllAllowed cfg s.taggable (s.act cfg (.allocate opts env m size alignment)).1 ∧
      (s.step cfg (.allocate opts env m size alignment)).Inv cfg := by
  obtain ⟨ht, ⟨k, hk, rfl⟩, hsize, hmap⟩ := ha
  have hmax : max (2^k) (1 <<< minAlignmentLog) = 2^(max k 4) := by
    have h16 : 1 <<< minAlignmentLog = 2^4 := by decide
    rw [h16]
    rcases Nat.le_total k 4 with h | h
    · rw [max_eq_right h, max_eq_right (Nat.pow_le_pow_right (by decide) h)]
    · rw [max_eq_left h, max_eq_left (Nat.pow_le_pow_right (by decide) h)]
  have hk4 : 4 ≤ max k 4 := le_max_right _ _
  have hk24 : max k 4 ≤ 24 := max_le hk (by decide)
  have hslack : sizeWithSlack opts size ≤ 2^41 := by
    have h16 : 1 <<< minAlignmentLog = 16 := by decide
    have h40 : maxAllowedMallocSize = 2^40 := by decide
    simp only [sizeWithSlack, h16]
    split <;> omega
  rw [hmax] at hmap
  simp only [step, Pages.act, allocateBlock, hmax]
  generalize hcached : (if 2^(max k 4) < cfg.pageSize ∧
      s.cache.canCache (roundUp (sizeWithSlack opts size + getHeadersSize) cfg.pageSize) then
    s.cache.retrieve cfg m maxUnreleasedCachePages (sizeWithSlack opts size) (2^(max k 4))
      getHeadersSize
    else (none, s.cache, m)) = cached
  obtain ⟨found, c, m'⟩ := cached
  cases found with
  | some p =>
    obtain ⟨e, headerPos⟩ := p
    split at hcached
    · exact hi.retrieved hk4 hk24 hslack hcached
    · simp at hcached
  | none =>
    cases hb : env.mapBase with
    | none => exact ⟨trivial, hi⟩
    | some mapBase =>
      obtain ⟨hpos, hdvd, hlt, hdisj⟩ := hmap mapBase hb
      have hlim := roundedSize_lt cfg (sizeWithSlack opts size) hk24 hslack
      have hg := getGuardPageSize_le cfg
      have hpg := cfg.pageSize_le
      exact hi.mapped ht hk4 hk24 hslack hpos hdvd (by omega) hdisj

/-- One act: every call is allowed, and the mappings stay in order. -/
theorem Inv.act {s : Pages} {a : PageAct} (hi : s.Inv cfg) (ha : s.Enabled cfg a) :
    AllAllowed cfg s.taggable (s.act cfg a).1 ∧ (s.step cfg a).Inv cfg := by
  cases a with
  | allocate opts env m size alignment => exact hi.allocate ha
  | deallocate opts env m b =>
    obtain ⟨ht, hb⟩ := ha
    exact hi.deallocate env m ht hb
  | releaseToOS m =>
    obtain ⟨h1, h2⟩ := (owned_closed cfg s.taggable s.inUse).releaseOlderThan (m := m) (2^64-1)
      hi.linked hi.owned
    exact ⟨trivial, h1, h2⟩
  | setMaxEntriesCount value =>
    obtain ⟨n, heq⟩ := setMaxEntriesCount_eq cfg s.cache value
    simp only [Pages.act, step, heq]
    exact ⟨trivial, hi.owned, ⟨hi.linked.nodup, hi.linked.oldest⟩⟩
  | setMaxEntrySize value => exact ⟨trivial, hi.owned, ⟨hi.linked.nodup, hi.linked.oldest⟩⟩
  | setReleaseInterval value => exact ⟨trivial, hi.owned, ⟨hi.linked.nodup, hi.linked.oldest⟩⟩

theorem Reachable.inv {s : Pages} (h : Reachable cfg s) : s.Inv cfg := by
  have hinit (s : Pages) (h0 : Init cfg s) : s.Inv cfg := h0.inv
  refine TransitionSystem.Reachable.invariant hinit ?_ h
  intro s a s' hi ha hs
  rw [hs]
  exact (hi.act ha).2

/-- In every run with tagging on, the parts of a mapping cover it from page to page, and every
granule whose tag is stored lies in pages that were last mapped with `MAP_MEMTAG`. -/
theorem act_tags_allowed (cfg : Config) {s : Pages} (hr : Reachable cfg s) {a : PageAct}
    (ha : s.Enabled cfg a) : AllAllowed cfg s.taggable (s.act cfg a).1 :=
  (hr.inv.act ha).1

/-- Before the first allocation. -/
def initial : Pages := ⟨.init defaultConfig 32 (2^20) 1000, [], fun _ => false⟩

/-- Memory of zeros. -/
def zeroMem : Mem := ⟨fun _ => 0, fun _ => 0, 0⟩

/-- An allocation, for which the system maps memory at `mapBase` if the cache has no entry. -/
def request (mapBase : Option Nat) (clock size : Nat) : PageAct :=
  .allocate defaultOptions { mapBase, clock, tryLock := true } zeroMem size 16

def free (clock : Nat) (b : InUse) : PageAct :=
  .deallocate defaultOptions { mapBase := none, clock, tryLock := true } zeroMem b

/-- The block of 100000 bytes in a new mapping, and the one of 99000 bytes in the same mapping. -/
def mappedBlock : InUse := ⟨71968, 69632, 102400, ⟨65536, 110592⟩, 72032⟩

def retrievedBlock : InUse := ⟨72960, 69632, 102400, ⟨65536, 110592⟩, 73024⟩

/-- The first block is stored in the cache, and the second takes it from there. -/
def retrieved : Pages :=
  ((initial.step defaultConfig (request (some 0x10000) 1 100000)).step defaultConfig
    (free 2 mappedBlock)).step defaultConfig (request none 3 99000)

theorem retrieved_reachable : Reachable defaultConfig retrieved := by
  refine .next (.next (.next (.start ⟨rfl, 32, 2^20, 1000, rfl⟩)
    (a := request (some 0x10000) 1 100000) ?_ rfl) (a := free 2 mappedBlock) ?_ rfl)
      (a := request none 3 99000) ?_ rfl
  · refine ⟨rfl, ⟨4, by decide, rfl⟩, by decide, ?_⟩
    intro mapBase hb
    cases hb
    refine ⟨by decide, by decide, by decide, ?_⟩
    intro o ho
    rw [owners, initial, cached_init] at ho
    exact absurd ho List.not_mem_nil
  · exact ⟨rfl, List.mem_cons_self⟩
  · refine ⟨rfl, ⟨4, by decide, rfl⟩, by decide, ?_⟩
    intro mapBase hb
    cases hb

/-- The second block is freed. -/
theorem act_tags_allowed_retrieved :
    AllAllowed defaultConfig retrieved.taggable
      (retrieved.act defaultConfig (free 4 retrievedBlock)).1 ∧
    (retrieved.act defaultConfig (free 4 retrievedBlock)).1 ≠ [] := by
  have henabled : retrieved.Enabled defaultConfig (free 4 retrievedBlock) :=
    ⟨rfl, List.mem_cons_self⟩
  exact ⟨act_tags_allowed defaultConfig retrieved_reachable henabled, List.cons_ne_nil _ _⟩

end Pages

end ScudoMte.Secondary
