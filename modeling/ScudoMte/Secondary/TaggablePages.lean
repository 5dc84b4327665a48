import ScudoMte.Combined.InitChunk
import ScudoMte.Heap.Cache
import ScudoMte.Library.TransitionSystem

namespace ScudoMte.Secondary

open Ownership

/-- A call of `MemMap.remap`, with `MAP_MEMTAG` or without. -/
structure Remap where
  addr : Nat
  size : Nat
  memtag : Bool
  deriving DecidableEq

/-- `UntaggedPos` of `mapSecondary`. -/
def untaggedPos (cfg : Config) (commitBase allocPos : Nat) : Nat :=
  max allocPos (commitBase + maxUnreleasedCachePages * cfg.pageSize)

/-- The calls of `mapSecondary`. -/
def remaps (cfg : Config) (opts : Options) (commitBase commitSize allocPos : Nat) : List Remap :=
  if opts.useMemoryTagging ∧ commitSize > maxUnreleasedCachePages * cfg.pageSize then
    let untaggedPos := untaggedPos cfg commitBase allocPos
    [⟨commitBase, untaggedPos - commitBase, true⟩,
      ⟨untaggedPos, commitBase + commitSize - untaggedPos, false⟩]
  else [⟨commitBase, commitSize, opts.useMemoryTagging⟩]

/-- What the code does to the tags of a committed range. The addresses of a tag store may carry
tags themselves. -/
inductive TagCall
  | mapSecondary (commitBase commitSize : Nat) (parts : List Remap)
  | storeTags (commitBase commitSize start stop : Nat)
  deriving DecidableEq

/-- The addresses in pages mapped with `MAP_MEMTAG`. -/
abbrev Taggable := Nat → Bool

def Remap.apply (r : Remap) (f : Taggable) : Taggable :=
  fun a => if r.addr ≤ a ∧ a < r.addr + r.size then r.memtag else f a

def TagCall.apply (f : Taggable) : TagCall → Taggable
  | mapSecondary _ _ parts => parts.foldl (fun f r => r.apply f) f
  | storeTags _ _ _ _ => f

/-- The parts follow each other from `lo` to `hi`, none of them empty. -/
def Tiles : Nat → List Remap → Nat → Prop
  | lo, [], hi => lo = hi
  | lo, r::rs, hi => r.addr = lo ∧ 0 < r.size ∧ Tiles (lo + r.size) rs hi

/-- The parts of a mapping cover the committed range exactly, from page to page; every granule that
a tag store writes lies in taggable pages of the committed range. -/
def TagCall.Allowed (cfg : Config) (f : Taggable) : TagCall → Prop
  | mapSecondary commitBase commitSize parts =>
      Tiles commitBase parts (commitBase + commitSize) ∧ ∀ r ∈ parts, cfg.pageSize ∣ r.addr
  | storeTags commitBase commitSize start stop =>
      ∀ g, untagPointer start / 16 ≤ g → g < (untagPointer stop + 15) / 16 →
        ∀ a, 16*g ≤ a → a < 16*g + 16 →
          commitBase ≤ a ∧ a < commitBase + commitSize ∧ f a = true

/-- Every call is allowed when its turn comes. -/
def AllAllowed (cfg : Config) : Taggable → List TagCall → Prop
  | _, [] => True
  | f, call::calls => call.Allowed cfg f ∧ AllAllowed cfg (call.apply f) calls

/-- A block in use: where its header is and what is in it, and the user pointer of its chunk. -/
structure InUse where
  headerPos : Nat
  commitBase : Nat
  commitSize : Nat
  memMap : MemMap
  userPtr : Nat
  deriving DecidableEq

def InUse.blockBegin (b : InUse) : Nat := b.headerPos + largeHeaderSize

/-- The block with its header at a position; `allocate` of the front end aligns the user pointer. -/
def placeBlock (headerPos commitBase commitSize : Nat) (memMap : MemMap) (alignment : Nat) :
    InUse :=
  { headerPos, commitBase, commitSize, memMap,
    userPtr := roundUp (headerPos + largeHeaderSize + Chunk.getHeaderSize) alignment }

/-- The range that `tryAllocateFromCache` tags again. -/
def retagRange (e : CachedBlock) (newBlockBegin : Nat) : Nat × Nat :=
  if e.time = 0 then (addLargeHeaderTag e.commitBase, newBlockBegin)
  else if e.blockBegin < newBlockBegin then (e.blockBegin, newBlockBegin)
  else (untagPointer newBlockBegin, untagPointer e.blockBegin)

section

variable (cfg : Config) (opts : Options) (env : SecondaryEnv) (c : Cache) (m : Mem)

/-- `MapAllocator::allocate` with tagging on, and the user pointer of the chunk that is put in the
block: the block, the cache and the calls. -/
def allocateBlock (size alignment : Nat) : Option (InUse × Cache × List TagCall) :=
  let size := sizeWithSlack opts size
  let alignment := max alignment (1 <<< minAlignmentLog)
  let cached :=
    if alignment < cfg.pageSize ∧ c.canCache (roundUp (size + getHeadersSize) cfg.pageSize) then
      c.retrieve cfg m maxUnreleasedCachePages size alignment getHeadersSize
    else (none, c, m)
  match cached with
  | (some (e, headerPos), cache, _) =>
      let range := retagRange e (addLargeHeaderTag headerPos + largeHeaderSize)
      some (placeBlock headerPos e.commitBase e.commitSize e.memMap alignment, cache,
        [.storeTags e.commitBase e.commitSize range.1 range.2])
  | (none, _, _) =>
      match env.mapBase with
      | none => none
      | some mapBase =>
          let mapSize := roundedSize cfg size alignment + 2 * getGuardPageSize cfg
          let commitBase := commitBaseOf cfg mapBase alignment
          let commitSize := mapBase + mapSize - getGuardPageSize cfg - commitBase
          let allocPos := roundDown (commitBase + commitSize - size) alignment
          let headerPos := allocPos - getHeadersSize
          some (placeBlock headerPos commitBase commitSize ⟨mapBase, mapSize⟩ alignment, c,
            [.mapSecondary commitBase commitSize (remaps cfg opts commitBase commitSize allocPos),
              .storeTags commitBase commitSize (addLargeHeaderTag commitBase)
                (addLargeHeaderTag headerPos + largeHeaderSize)])

/-- `MapAllocator::deallocate`: the cache and the calls. -/
def deallocateBlock (b : InUse) : Cache × List TagCall :=
  if c.canCache b.commitSize then
    ((c.store cfg opts env m b.commitBase b.commitSize
        (addLargeHeaderTag b.headerPos + largeHeaderSize) b.memMap).1,
      if c.releaseToOsIntervalMs = 0 then
        [.mapSecondary b.commitBase b.commitSize
          (remaps cfg opts b.commitBase b.commitSize b.commitBase)]
      else [])
  else (c, [])

end

/-- The tags of the chunk header, in `initChunkWithMemoryTagging`. -/
def initChunkCall (b : InUse) : TagCall :=
  .storeTags b.commitBase b.commitSize (Combined.addHeaderTag b.blockBegin)
    (Combined.addHeaderTag b.userPtr)

/-- They are taken back in `retagBlock`. -/
def retagBlockCall (b : InUse) : TagCall :=
  .storeTags b.commitBase b.commitSize b.blockBegin b.userPtr

/-- The cache, the blocks in use, and the taggable addresses. -/
structure Pages where
  cache : Cache
  inUse : List InUse
  taggable : Taggable

/-- What can happen to the blocks; the memory that a call finds may be any. -/
inductive PageAct
  | allocate (opts : Options) (env : SecondaryEnv) (m : Mem) (size alignment : Nat)
  | deallocate (opts : Options) (env : SecondaryEnv) (m : Mem) (b : InUse)
  | releaseToOS (m : Mem)
  | setMaxEntriesCount (value : Int)
  | setMaxEntrySize (value : Int)
  | setReleaseInterval (value : Int)

namespace Pages

/-- The calls of an act, and the cache and the blocks after it. -/
def act (cfg : Config) (s : Pages) : PageAct → List TagCall × Cache × List InUse
  | .allocate opts env m size alignment =>
      match allocateBlock cfg opts env s.cache m size alignment with
      | none => ([], s.cache, s.inUse)
      | some (b, cache, calls) => (calls ++ [initChunkCall b], cache, b::s.inUse)
  | .deallocate opts env m b =>
      let (cache, calls) := deallocateBlock cfg opts env s.cache m b
      (retagBlockCall b :: calls, cache, s.inUse.erase b)
  | .releaseToOS m => ([], (s.cache.releaseToOS cfg m).1, s.inUse)
  | .setMaxEntriesCount value => ([], s.cache.setMaxEntriesCount cfg value, s.inUse)
  | .setMaxEntrySize value => ([], s.cache.setMaxEntrySize value, s.inUse)
  | .setReleaseInterval value => ([], s.cache.setReleaseInterval value, s.inUse)

def step (cfg : Config) (s : Pages) (a : PageAct) : Pages :=
  let (calls, cache, inUse) := s.act cfg a
  { cache, inUse, taggable := calls.foldl TagCall.apply s.taggable }

/-- The mappings in use and those in the cache. -/
def owners (cfg : Config) (s : Pages) : List (CachedBlock ⊕ InUse) :=
  (s.cache.cached cfg).map .inl ++ s.inUse.map .inr

def zone : CachedBlock ⊕ InUse → Range
  | .inl e => e.memMap.range
  | .inr b => b.memMap.range

/-- Tagging is on, the request is one that `Allocator::allocate` accepts, a new mapping is at a
page of the user half of the address space where nothing else is mapped, and what is freed is in
use. -/
def Enabled (cfg : Config) (s : Pages) : PageAct → Prop
  | .allocate opts env _ size alignment =>
      opts.useMemoryTagging = true ∧ (∃ k ≤ maxAlignmentLog, alignment = 2^k) ∧
      size < maxAllowedMallocSize ∧
      ∀ mapBase, env.mapBase = some mapBase → 0 < mapBase ∧ cfg.pageSize ∣ mapBase ∧
        mapBase < 2^47 ∧ ∀ o ∈ s.owners cfg,
          Range.Disjoint ⟨mapBase, mapBase + (roundedSize cfg (sizeWithSlack opts size)
            (max alignment (1 <<< minAlignmentLog)) + 2 * getGuardPageSize cfg)⟩ (zone o)
  | .deallocate opts _ _ b => opts.useMemoryTagging = true ∧ b ∈ s.inUse
  | _ => True

def Init (cfg : Config) (s : Pages) : Prop :=
  s.inUse = [] ∧ ∃ maxEntriesCount maxEntrySize interval,
    s.cache = .init cfg maxEntriesCount maxEntrySize interval

abbrev Reachable (cfg : Config) : Pages → Prop :=
  TransitionSystem.Reachable (Init cfg) (Enabled cfg) fun s a s' => s' = s.step cfg a

end Pages

theorem mapSecondary_eq_remaps (cfg : Config) (opts : Options) (m : Mem)
    (commitBase commitSize allocPos : Nat) :
    mapSecondary cfg opts m commitBase commitSize allocPos =
      (remaps cfg opts commitBase commitSize allocPos).foldl
        (fun m r => m.zeroPages r.addr r.size) m := by
  rw [mapSecondary, remaps]
  split <;> rfl

theorem retagCached_eq (m : Mem) (e : CachedBlock) (newBlockBegin : Nat) :
    retagCached m e newBlockBegin =
      storeTags m (retagRange e newBlockBegin).1 (retagRange e newBlockBegin).2 := by
  rw [retagCached, retagRange]
  split
  · rfl
  · split <;> rfl

/-- An allocation takes the same entry, or maps a block in the same place. -/
theorem allocate_eq_allocateBlock {cfg : Config} {opts : Options} (env : SecondaryEnv)
    (s : Secondary) (m : Mem) (size alignment : Nat) (fill : FillContentsMode)
    (ht : opts.useMemoryTagging = true) :
    ((allocate cfg opts env s m size alignment fill).1.map Prod.snd,
        (allocate cfg opts env s m size alignment fill).2.1) =
      match allocateBlock cfg opts env s.cache m size alignment with
      | none => (none, s)
      | some (b, cache, _) => (some (b.commitBase + b.commitSize),
          { cache, inUseBlocks := s.inUseBlocks ++ [addLargeHeaderTag b.headerPos] }) := by
  have hpages : (if (!opts.useMemoryTagging) = true then
      maxUnreleasedCachePages + maxReleasedCachePages else maxUnreleasedCachePages) =
        maxUnreleasedCachePages := by
    rw [ht]
    rfl
  have hfresh (mapBase : Nat) :
      ((some (allocateFresh cfg opts s m (sizeWithSlack opts size)
          (max alignment (1 <<< minAlignmentLog)) mapBase).1).map Prod.snd,
        (allocateFresh cfg opts s m (sizeWithSlack opts size)
          (max alignment (1 <<< minAlignmentLog)) mapBase).2.1) =
      (some (commitBaseOf cfg mapBase (max alignment (1 <<< minAlignmentLog)) +
          (mapBase + (roundedSize cfg (sizeWithSlack opts size)
            (max alignment (1 <<< minAlignmentLog)) + 2 * getGuardPageSize cfg) -
              getGuardPageSize cfg -
            commitBaseOf cfg mapBase (max alignment (1 <<< minAlignmentLog)))),
        ({ cache := s.cache, inUseBlocks := s.inUseBlocks ++ [addLargeHeaderTag
          (roundDown (commitBaseOf cfg mapBase (max alignment (1 <<< minAlignmentLog)) +
            (mapBase + (roundedSize cfg (sizeWithSlack opts size)
              (max alignment (1 <<< minAlignmentLog)) + 2 * getGuardPageSize cfg) -
                getGuardPageSize cfg -
              commitBaseOf cfg mapBase (max alignment (1 <<< minAlignmentLog))) -
            sizeWithSlack opts size) (max alignment (1 <<< minAlignmentLog)) -
              getHeadersSize)] } : Secondary)) := rfl
  simp only [allocate, allocateBlock, tryAllocateFromCache, hpages]
  by_cases hcond : max alignment (1 <<< minAlignmentLog) < cfg.pageSize ∧
      s.cache.canCache (roundUp (sizeWithSlack opts size + getHeadersSize) cfg.pageSize)
  · simp only [if_pos hcond]
    cases hr : s.cache.retrieve cfg m maxUnreleasedCachePages (sizeWithSlack opts size)
      (max alignment (1 <<< minAlignmentLog)) getHeadersSize with
    | mk found rest =>
      obtain ⟨cache, m1⟩ := rest
      cases found with
      | none =>
        cases env.mapBase with
        | none => rfl
        | some mapBase => exact hfresh mapBase
      | some p => rfl
  · simp only [if_neg hcond]
    cases env.mapBase with
    | none => rfl
    | some mapBase => exact hfresh mapBase

/-- A free stores the block that its header describes, or unmaps it. -/
theorem deallocate_eq_deallocateBlock {cfg : Config} {opts : Options} (env : SecondaryEnv)
    (s : Secondary) (m : Mem) {ptr : Nat} {b : InUse}
    (hpos : getHeader ptr = addLargeHeaderTag b.headerPos)
    (hbase : headerCommitBase m (getHeader ptr) = b.commitBase)
    (hsize : headerCommitSize m (getHeader ptr) = b.commitSize)
    (hmap : headerMemMap m (getHeader ptr) = b.memMap) :
    (deallocate cfg opts env s m ptr).1 =
      { cache := (deallocateBlock cfg opts env s.cache m b).1
        inUseBlocks := s.inUseBlocks.erase (getHeader ptr) } := by
  simp only [deallocate, deallocateBlock, hbase, hsize, hmap]
  split
  · rw [hpos]
  · rfl

section Mapped

variable {cfg : Config} {f : Taggable} {map : MemMap} {commitBase commitSize tagEnd : Nat}

/-- A committed range whose pages are taggable up to a position, and four of them anyway. -/
structure Mapped (cfg : Config) (f : Taggable) (map : MemMap)
    (commitBase commitSize tagEnd : Nat) : Prop where
  pos : 0 < commitBase
  base_dvd : cfg.pageSize ∣ commitBase
  size_dvd : cfg.pageSize ∣ commitSize
  base_le : map.base ≤ commitBase
  end_le : commitBase + commitSize ≤ map.base + map.capacity
  lt : map.base + map.capacity < 2^56
  tagged : ∀ a, commitBase ≤ a → a < commitBase + commitSize →
    a < max tagEnd (commitBase + maxUnreleasedCachePages * cfg.pageSize) → f a = true

theorem Mapped.frame {f' : Taggable} (h : Mapped cfg f map commitBase commitSize tagEnd)
    (hf : ∀ a, map.base ≤ a → a < map.base + map.capacity → f' a = f a) :
    Mapped cfg f' map commitBase commitSize tagEnd := by
  have hlo := h.base_le
  have hhi := h.end_le
  refine ⟨h.pos, h.base_dvd, h.size_dvd, hlo, hhi, h.lt, ?_⟩
  intro a h1 h2 h3
  rw [hf a (by omega) (by omega)]
  exact h.tagged a h1 h2 h3

theorem Mapped.lower {tagEnd' : Nat} (h : Mapped cfg f map commitBase commitSize tagEnd)
    (hle : tagEnd' ≤ max tagEnd (commitBase + maxUnreleasedCachePages * cfg.pageSize)) :
    Mapped cfg f map commitBase commitSize tagEnd' := by
  refine ⟨h.pos, h.base_dvd, h.size_dvd, h.base_le, h.end_le, h.lt, ?_⟩
  intro a h1 h2 h3
  exact h.tagged a h1 h2 (by omega)

/-- A tag store inside the taggable part. -/
theorem Mapped.storeTags_allowed (h : Mapped cfg f map commitBase commitSize tagEnd)
    {lo hi : Nat} (t t' : Nat) (hlo : commitBase ≤ lo) (hlo16 : lo % 16 = 0)
    (hlt : lo ≤ commitBase + commitSize) (hhi : hi ≤ commitBase + commitSize)
    (hhi16 : hi % 16 = 0)
    (hend : hi ≤ max tagEnd (commitBase + maxUnreleasedCachePages * cfg.pageSize)) :
    (TagCall.storeTags commitBase commitSize (taggedPtr lo t) (taggedPtr hi t')).Allowed cfg f := by
  have hcap := h.end_le
  have hlim := h.lt
  intro g h1 h2 a ha1 ha2
  rw [untagPointer_taggedPtr t (by omega)] at h1
  rw [untagPointer_taggedPtr t' (by omega)] at h2
  exact ⟨by omega, by omega, h.tagged a (by omega) (by omega) (by omega)⟩

/-- An allowed tag store changes no tag outside the taggable pages. -/
theorem TagCall.Allowed.storeTags_tag {a b t : Nat} (m : Mem)
    (h : (TagCall.storeTags commitBase commitSize (taggedPtr a t) (taggedPtr b t)).Allowed cfg f)
    (ha : a < 2^56) (hb : b < 2^56) (ht : t < 16) (hal : a % 16 = 0) {x : Nat}
    (hx : f x = false) :
    (ScudoMte.storeTags m (taggedPtr a t) (taggedPtr b t)).tag (x/16) = m.tag (x/16) := by
  rw [ScudoMte.storeTags_tag m _ ha hb ht hal, if_neg]
  intro hg
  have hcall := h (x/16)
  rw [untagPointer_taggedPtr t ha, untagPointer_taggedPtr t hb] at hcall
  have hf := (hcall hg.1 hg.2 x (by omega) (by omega)).2.2
  rw [hx] at hf
  exact Bool.false_ne_true hf

/-- The parts of a mapping, and the pages that are taggable afterwards. -/
theorem remaps_spec {opts : Options} {allocPos : Nat} (f : Taggable)
    (ht : opts.useMemoryTagging = true) (hbase : cfg.pageSize ∣ commitBase)
    (hpos : 0 < commitSize)
    (halloc : maxUnreleasedCachePages * cfg.pageSize < commitSize →
      allocPos ≤ commitBase + maxUnreleasedCachePages * cfg.pageSize ∨
        cfg.pageSize ∣ allocPos ∧ allocPos < commitBase + commitSize) :
    let call := TagCall.mapSecondary commitBase commitSize
      (remaps cfg opts commitBase commitSize allocPos)
    call.Allowed cfg f ∧
      (∀ a, commitBase ≤ a → a < commitBase + commitSize →
        a < max allocPos (commitBase + maxUnreleasedCachePages * cfg.pageSize) →
          call.apply f a = true) ∧
      ∀ a, a < commitBase ∨ commitBase + commitSize ≤ a → call.apply f a = f a := by
  simp only [TagCall.Allowed, TagCall.apply, remaps, ht, true_and]
  split
  · next hlarge =>
    have hpage := cfg.pageSize_ge
    have hq : cfg.pageSize ∣ untaggedPos cfg commitBase allocPos ∧
        untaggedPos cfg commitBase allocPos < commitBase + commitSize := by
      have hfour : cfg.pageSize ∣ commitBase + maxUnreleasedCachePages * cfg.pageSize :=
        Nat.dvd_add hbase (Nat.dvd_mul_left _ _)
      rw [untaggedPos]
      rcases halloc hlarge with hle | ⟨hdvd, hlt⟩
      · rw [max_eq_right hle]
        exact ⟨hfour, by omega⟩
      · rcases Nat.le_total allocPos (commitBase + maxUnreleasedCachePages * cfg.pageSize) with
          hle | hge
        · rw [max_eq_right hle]
          exact ⟨hfour, by omega⟩
        · rw [max_eq_left hge]
          exact ⟨hdvd, hlt⟩
    obtain ⟨hdvd, hlt⟩ := hq
    have hfour : commitBase < untaggedPos cfg commitBase allocPos := by
      rw [untaggedPos, maxUnreleasedCachePages]
      omega
    have hmax : max allocPos (commitBase + maxUnreleasedCachePages * cfg.pageSize) =
        untaggedPos cfg commitBase allocPos := rfl
    rw [hmax]
    generalize untaggedPos cfg commitBase allocPos = untagged at *
    refine ⟨⟨?_, ?_⟩, ?_, ?_⟩
    · simp only [Tiles, true_and]
      omega
    · intro r hr
      simp only [List.mem_cons, List.not_mem_nil, or_false] at hr
      rcases hr with rfl | rfl
      · exact hbase
      · exact hdvd
    · intro a h1 h2 h3
      simp only [List.foldl_cons, List.foldl_nil, Remap.apply]
      rw [if_neg (by omega), if_pos (by omega)]
    · intro a h
      simp only [List.foldl_cons, List.foldl_nil, Remap.apply]
      rw [if_neg (by omega), if_neg (by omega)]
  · refine ⟨⟨?_, ?_⟩, ?_, ?_⟩
    · exact ⟨rfl, hpos, rfl⟩
    · intro r hr
      rw [List.mem_singleton.mp hr]
      exact hbase
    · intro a h1 h2 _
      simp only [List.foldl_cons, List.foldl_nil, Remap.apply]
      rw [if_pos ⟨h1, h2⟩]
    · intro a h
      simp only [List.foldl_cons, List.foldl_nil, Remap.apply]
      rw [if_neg (by omega)]

/-- Where a new mapping has its block: within the first four pages, or at a page. -/
theorem allocPos_cases {size k mapBase : Nat} (hk4 : 4 ≤ k) (hk : k ≤ 24) (hsize : size ≤ 2^41)
    (hbase : cfg.pageSize ∣ mapBase)
    (hend : mapBase + (roundedSize cfg size (2^k) + 2 * getGuardPageSize cfg) < 2^56) :
    let commitBase := commitBaseOf cfg mapBase (2^k)
    let commitEnd := mapBase + (roundedSize cfg size (2^k) + 2 * getGuardPageSize cfg) -
      getGuardPageSize cfg
    commitBase + maxUnreleasedCachePages * cfg.pageSize < commitEnd →
      roundDown (commitEnd - size) (2^k) ≤ commitBase + maxUnreleasedCachePages * cfg.pageSize ∨
        cfg.pageSize ∣ roundDown (commitEnd - size) (2^k) ∧
          roundDown (commitEnd - size) (2^k) < commitEnd := by
  have hs : getHeadersSize = 64 := by decide
  have hk24 : 2^k ≤ 2^24 := Nat.pow_le_pow_right (by decide) hk
  have hp0 := cfg.pageSize_ge
  have hp20 := cfg.pageSize_le
  have hpk : cfg.pageSize = 2^cfg.pageSizeLog := rfl
  have hg := getGuardPageSize_le cfg
  have hround := roundedSize_lt cfg size hk hsize
  obtain ⟨hr1, hr2, hrd⟩ := roundUp_spec size k (by omega) (by omega)
  obtain ⟨hq1, hq2, -⟩ := roundUp_spec (roundUp size (2^k) + getHeadersSize) cfg.pageSizeLog
    (by have := cfg.pageSizeLog_le; omega) (by rw [← hpk, hs]; omega)
  rw [← hpk, hs] at hq1 hq2
  obtain ⟨-, hcb, -, -, -⟩ := allocateFresh_range cfg size hk4 hk hsize hbase hend
  have hrs : roundedSize cfg size (2^k) = if 2^k > cfg.pageSize
      then roundUp (roundUp size (2^k) + 64) cfg.pageSize + (2^k - cfg.pageSize)
      else roundUp (roundUp size (2^k) + 64) cfg.pageSize := by
    simp only [roundedSize, hs]
  intro commitBase commitEnd hlarge
  have hce : commitEnd = mapBase + getGuardPageSize cfg + roundedSize cfg size (2^k) := by
    simp only [commitEnd]
    omega
  obtain ⟨hd1, hd2, hdd⟩ := roundDown_spec (commitEnd - size) k (by omega) (by omega)
  rw [maxUnreleasedCachePages] at hlarge ⊢
  rcases Nat.lt_or_ge (2^k) cfg.pageSize with hlt | hge
  · -- the rounding adds less than two pages and the headers
    have hbase : commitBase = mapBase + getGuardPageSize cfg := by
      simp only [commitBase, commitBaseOf]
      rw [if_neg (by omega)]
    rw [if_neg (by omega)] at hrs
    left
    omega
  · have hpd : cfg.pageSize ∣ 2^k :=
      Nat.pow_dvd_pow 2 ((Nat.pow_le_pow_iff_right (by decide)).mp hge)
    refine .inr ⟨hpd.trans hdd, ?_⟩
    rcases Nat.eq_zero_or_pos size with rfl | hpos
    · by_contra hnot
      have heq : roundDown (commitEnd - 0) (2^k) = commitEnd := by omega
      rw [heq] at hdd
      have hr0 : roundUp 0 (2^k) = 0 := roundUp_of_dvd 0 k (by omega) (by omega) (dvd_zero _)
      have hq : roundUp 64 cfg.pageSize = cfg.pageSize := by
        rw [hr0, Nat.zero_add] at hq1 hq2
        have hlog := cfg.pageSizeLog_le
        exact Word.eq_of_dvd_of_lt (roundUp_spec 64 cfg.pageSizeLog (by omega) (by omega)).2.2
          (dvd_refl _) (by omega) (by omega)
      rw [hr0, Nat.zero_add, hq] at hrs
      have hrs' : roundedSize cfg 0 (2^k) = 2^k := by
        rw [hrs]
        split <;> omega
      -- the mapping is aligned as its end is, and a page is all that is committed
      have hx : 2^k ∣ mapBase + getGuardPageSize cfg := by
        rw [hce, hrs'] at hdd
        exact (Nat.dvd_add_left (dvd_refl _)).mp hdd
      obtain ⟨ha1, ha2, had⟩ := roundUp_spec (mapBase + getGuardPageSize cfg + 1) k (by omega)
        (by omega)
      have hax := Word.add_le_of_dvd_of_lt hx had (by omega)
      have hbase : commitBase = roundUp (mapBase + getGuardPageSize cfg + 1) (2^k) -
          cfg.pageSize := by
        simp only [commitBase, commitBaseOf]
        rw [if_pos hge]
      omega
    · omega

end Mapped

end ScudoMte.Secondary
