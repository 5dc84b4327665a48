import ScudoMte.Chunk
import ScudoMte.SizeClassMap.Fixed

namespace ScudoMte

inductive FillContentsMode
  | noFill | zeroFill | patternOrZeroFill
  deriving DecidableEq

/-- A copy of the option bits, as `AtomicOptions::load` returns it. -/
structure Options where
  mayReturnNull : Bool
  fillContents : FillContentsMode
  deallocTypeMismatch : Bool
  deleteSizeMismatch : Bool
  trackAllocationStacks : Bool
  useOddEvenTags : Bool
  useMemoryTagging : Bool
  addLargeAllocationSlack : Bool
  deriving DecidableEq

/-- Compile-time configuration of an allocator that may tag memory, and the values that
`init` fixes for the life of the process. -/
structure Config where
  sizeClassMap : SizeClassMap
  exactUsableSize : Bool
  quarantineDisabled : Bool
  enableGuardPages : Bool
  entriesArraySize : Nat
  cacheQuarantineSize : Nat
  pageSizeLog : Nat
  cookie : Nat
  systemSupportsMemoryTagging : Bool
  quarantineCacheSize : Nat
  quarantineMaxChunkSize : Nat
  pageSizeLog_ge : 12 ≤ pageSizeLog
  pageSizeLog_le : pageSizeLog ≤ 20

namespace Config

def pageSize (cfg : Config) : Nat := 2^cfg.pageSizeLog

theorem pageSize_ge (cfg : Config) : 4096 ≤ cfg.pageSize :=
  Nat.pow_le_pow_right (by decide : 0 < 2) cfg.pageSizeLog_ge

theorem pageSize_le (cfg : Config) : cfg.pageSize ≤ 2^20 :=
  Nat.pow_le_pow_right (by decide : 0 < 2) cfg.pageSizeLog_le

theorem pageSize_aligned (cfg : Config) : cfg.pageSize % 16 = 0 := by
  have h : 2^4 ∣ cfg.pageSize :=
    Nat.pow_dvd_pow 2 (le_trans (by decide : 4 ≤ 12) cfg.pageSizeLog_ge)
  omega

end Config

/-- What a call takes from outside the allocator: the outcome of `gentag`, the calling
thread's `DisableMemInit`, whether a ring buffer exists, and the stack trace and thread ids
that would be recorded. -/
structure CallEnv where
  draw : Nat
  disableMemInit : Bool
  ringBuffer : Bool
  trace : Nat
  tid : Nat
  deriving DecidableEq

def minAlignmentLog : Nat := 4
def maxAlignmentLog : Nat := 24
def minAlignment : Nat := 1 <<< minAlignmentLog
def maxAlignment : Nat := 1 <<< maxAlignmentLog
def maxAllowedMallocSize : Nat := 1 <<< 40
def blockMarker : Nat := 0x44554353
def patternFillByte : UInt8 := 0xAB

/-- `getFillContentsMode` unless the caller or the thread decides otherwise, as `allocate`
computes it. -/
def fillContentsMode (opts : Options) (zeroContents disableMemInit : Bool) : FillContentsMode :=
  if zeroContents then .zeroFill else if disableMemInit then .noFill else opts.fillContents

/-- The byte of the `memset` for a fill mode other than `NoFill`. -/
def fillByte (fill : FillContentsMode) : UInt8 := if fill = .zeroFill then 0 else patternFillByte

/-- `DefaultConfig` with the default flags, on a system with 4 KiB pages and memory tagging. -/
def defaultConfig : Config where
  sizeClassMap := defaultSizeClassMap
  exactUsableSize := true
  quarantineDisabled := false
  enableGuardPages := true
  entriesArraySize := 32
  cacheQuarantineSize := 0
  pageSizeLog := 12
  cookie := 0
  systemSupportsMemoryTagging := true
  quarantineCacheSize := 0
  quarantineMaxChunkSize := 0
  pageSizeLog_ge := le_refl _
  pageSizeLog_le := by decide

/-- The options that `init` sets for the default flags when the system supports tagging. -/
def defaultOptions : Options where
  mayReturnNull := true
  fillContents := .noFill
  deallocTypeMismatch := false
  deleteSizeMismatch := true
  trackAllocationStacks := false
  useOddEvenTags := false
  useMemoryTagging := true
  addLargeAllocationSlack := false

end ScudoMte
