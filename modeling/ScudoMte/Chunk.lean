import ScudoMte.Checksum
import ScudoMte.Memtag

namespace ScudoMte

open ByteMemory

inductive AllocatorAction
  | recycling | deallocating | reallocating | sizing
  deriving DecidableEq

/-- The fatal reports of `report.cpp` that the modelled functions raise. -/
inductive Report
  | headerCorruption (ptr : Nat)
  | invalidChunkState (action : AllocatorAction) (ptr : Nat)
  | misalignedPointer (action : AllocatorAction) (ptr : Nat)
  | deallocTypeMismatch (action : AllocatorAction) (ptr typeA typeB : Nat)
  | deleteSizeMismatch (ptr size expectedSize : Nat)
  | alignmentTooBig (alignment maxAlignment : Nat)
  | allocationSizeTooBig (userSize totalSize maxSize : Nat)
  | outOfMemory (requestedSize : Nat)
  deriving DecidableEq

namespace Chunk

inductive Origin
  | malloc | new | newArray | memalign
  deriving DecidableEq

inductive State
  | available | allocated | quarantined
  deriving DecidableEq

instance neZero_two : NeZero (2^2) := ⟨by decide⟩

instance neZero_eight : NeZero (2^8) := ⟨by decide⟩

instance neZero_sixteen : NeZero (2^16) := ⟨by decide⟩

/-- Assignment to a bit field of `n` bits. -/
def bitField (n x : Nat) : Fin (2^n) := ⟨x % 2^n, Nat.mod_lt x (Nat.two_pow_pos n)⟩

def Origin.field : Origin → Fin (2^2)
  | malloc => 0
  | new => 1
  | newArray => 2
  | memalign => 3

def State.field : State → Fin (2^2)
  | available => 0
  | allocated => 1
  | quarantined => 2

structure UnpackedHeader where
  classId : Fin (2^8)
  state : Fin (2^2)
  originOrWasZeroed : Fin (2^2)
  sizeOrUnusedBytes : Fin (2^20)
  offset : Fin (2^16)
  checksum : Fin (2^16)
  deriving DecidableEq

/-- The 64-bit word that holds the bit fields, the first field in the low bits. -/
def pack (h : UnpackedHeader) : Nat :=
  h.classId + 2^8*h.state + 2^10*h.originOrWasZeroed + 2^12*h.sizeOrUnusedBytes +
    2^32*h.offset + 2^48*h.checksum

def unpack (w : Nat) : UnpackedHeader where
  classId := bitField 8 w
  state := bitField 2 (w / 2^8)
  originOrWasZeroed := bitField 2 (w / 2^10)
  sizeOrUnusedBytes := bitField 20 (w / 2^12)
  offset := bitField 16 (w / 2^32)
  checksum := bitField 16 (w / 2^48)

def getHeaderSize : Nat := roundUp 8 16

def getAtomicHeader (ptr : Nat) : Nat := ptr - getHeaderSize

def computeHeaderChecksum (cookie ptr : Nat) (h : UnpackedHeader) : Nat :=
  computeChecksum cookie ptr [pack { h with checksum := 0 }]

/-- The header with its checksum for a cookie and a pointer. -/
def UnpackedHeader.seal (cookie ptr : Nat) (h : UnpackedHeader) : UnpackedHeader :=
  { h with checksum := bitField 16 (computeHeaderChecksum cookie ptr h) }

def storeHeader (cookie ptr : Nat) (h : UnpackedHeader) (m : Mem) : Mem :=
  { m with
    data := store m.data (untagPointer (getAtomicHeader ptr)) 8 (pack (h.seal cookie ptr))
    headerKey := Function.update m.headerKey (untagPointer (getAtomicHeader ptr)) ptr }

/-- The header word in front of a pointer. -/
def headerWord (m : Mem) (ptr : Nat) : Nat := load m.data (untagPointer (getAtomicHeader ptr)) 8

def isValid (cookie ptr : Nat) (m : Mem) : Option UnpackedHeader :=
  let h := unpack (headerWord m ptr)
  if h.checksum = computeHeaderChecksum cookie ptr h then some h else none

def loadHeader (cookie ptr : Nat) (m : Mem) : Except Report UnpackedHeader :=
  match isValid cookie ptr m with
  | some h => .ok h
  | none => .error (.headerCorruption ptr)

@[simp] theorem getHeaderSize_eq : getHeaderSize = 16 := by decide

@[simp] theorem bitField_val (n x : Nat) : (bitField n x).val = x % 2^n := rfl

theorem pack_lt (h : UnpackedHeader) : pack h < 2^64 := by
  have := h.classId.isLt
  have := h.state.isLt
  have := h.originOrWasZeroed.isLt
  have := h.sizeOrUnusedBytes.isLt
  have := h.offset.isLt
  have := h.checksum.isLt
  rw [pack]
  omega

theorem unpack_pack (h : UnpackedHeader) : unpack (pack h) = h := by
  obtain ⟨⟨c, hc⟩, ⟨s, hs⟩, ⟨o, ho⟩, ⟨z, hz⟩, ⟨f, hf⟩, ⟨k, hk⟩⟩ := h
  simp only [unpack, pack, bitField, UnpackedHeader.mk.injEq, Fin.mk.injEq]
  refine ⟨?_, ?_, ?_, ?_, ?_, ?_⟩ <;> omega

theorem pack_unpack (w : Nat) (hw : w < 2^64) : pack (unpack w) = w := by
  simp only [pack, unpack, bitField_val]
  omega

theorem computeHeaderChecksum_lt (cookie ptr : Nat) (h : UnpackedHeader) :
    computeHeaderChecksum cookie ptr h < 2^16 :=
  computeBSDChecksum_lt _ _

@[simp] theorem computeHeaderChecksum_seal (cookie ptr ptr' : Nat) (h : UnpackedHeader) :
    computeHeaderChecksum cookie ptr (h.seal cookie ptr') = computeHeaderChecksum cookie ptr h :=
  rfl

theorem seal_checksum (cookie ptr : Nat) (h : UnpackedHeader) :
    ((h.seal cookie ptr).checksum : Nat) = computeHeaderChecksum cookie ptr h := by
  rw [UnpackedHeader.seal, bitField_val, Nat.mod_eq_of_lt (computeHeaderChecksum_lt _ _ _)]

/-- The header that memory holds in front of the address `a` is `h`, sealed with `key`. -/
def Sealed (cookie key : Nat) (h : UnpackedHeader) (m : Mem) (a : Nat) : Prop :=
  headerWord m a = pack (h.seal cookie key)

theorem untag_getAtomicHeader {a t : Nat} (ha : a < 2^56) (h16 : 16 ≤ a) :
    untagPointer (getAtomicHeader (taggedPtr a t)) = a - 16 := by
  have hs : getAtomicHeader (taggedPtr a t) = taggedPtr (a-16) t := by
    simp only [getAtomicHeader, getHeaderSize_eq, taggedPtr]
    omega
  rw [hs, untagPointer_taggedPtr t (by omega)]

theorem headerWord_taggedPtr (m : Mem) {a t : Nat} (ha : a < 2^56) (h16 : 16 ≤ a) :
    headerWord m (taggedPtr a t) = load m.data (a-16) 8 := by
  rw [headerWord, untag_getAtomicHeader ha h16]

theorem headerWord_of_lt (m : Mem) {a : Nat} (ha : a < 2^56) (h16 : 16 ≤ a) :
    headerWord m a = load m.data (a-16) 8 := by
  have h := headerWord_taggedPtr m (t := 0) ha h16
  rwa [taggedPtr_zero] at h

@[simp] theorem storeHeader_tag (cookie ptr : Nat) (h : UnpackedHeader) (m : Mem) :
    (storeHeader cookie ptr h m).tag = m.tag := rfl

theorem storeHeader_sealed (cookie : Nat) (h : UnpackedHeader) (m : Mem) {a : Nat} (t : Nat)
    (ha : a < 2^56) (h16 : 16 ≤ a) :
    Sealed cookie (taggedPtr a t) h (storeHeader cookie (taggedPtr a t) h m) a := by
  have hp := pack_lt (h.seal cookie (taggedPtr a t))
  rw [Sealed, headerWord_of_lt _ ha h16, storeHeader, untag_getAtomicHeader ha h16, load_store]
  exact Nat.mod_eq_of_lt (by omega)

theorem storeHeader_headerKey (cookie : Nat) (h : UnpackedHeader) (m : Mem) {a t : Nat}
    (ha : a < 2^56) (h16 : 16 ≤ a) :
    (storeHeader cookie (taggedPtr a t) h m).headerKey (a-16) = taggedPtr a t := by
  rw [storeHeader, untag_getAtomicHeader ha h16]
  exact Function.update_self _ _ _

theorem storeHeader_agreeOff (cookie : Nat) (h : UnpackedHeader) (m : Mem) {a t : Nat}
    (ha : a < 2^56) (h16 : 16 ≤ a) :
    m.AgreeOff (storeHeader cookie (taggedPtr a t) h m) (a-16) (a-8) := by
  rw [storeHeader, untag_getAtomicHeader ha h16]
  refine ⟨(store_agreeOff m.data (a-16) 8 _).mono (le_refl _) (by omega), fun _ _ => rfl, ?_⟩
  intro x hx
  exact Function.update_of_ne (by omega) _ _

section Sealed

variable {cookie key a : Nat} {h : UnpackedHeader} {m : Mem}

/-- The seal of a header survives any change outside its word. -/
theorem Sealed.frame {m' : Mem} (hm : Sealed cookie key h m a) (ha : a < 2^56) (h16 : 16 ≤ a)
    (hag : AgreeOn m.data m'.data (a-16) (a-8)) : Sealed cookie key h m' a := by
  rw [Sealed, headerWord_of_lt _ ha h16] at hm ⊢
  rw [← hm]
  exact load_congr (by rwa [show a-16+8 = a-8 by omega])

/-- A pointer sees the sealed header under every tag, and takes it for valid if the checksums
of the two pointers agree. -/
theorem Sealed.isValid (hm : Sealed cookie key h m a) (ha : a < 2^56) (h16 : 16 ≤ a) (t : Nat) :
    isValid cookie (taggedPtr a t) m =
      if computeHeaderChecksum cookie key h = computeHeaderChecksum cookie (taggedPtr a t) h
      then some (h.seal cookie key) else none := by
  have hu : unpack (headerWord m (taggedPtr a t)) = h.seal cookie key := by
    rw [Sealed, headerWord_of_lt _ ha h16] at hm
    rw [headerWord_taggedPtr _ ha h16, hm, unpack_pack]
  simp only [Chunk.isValid, hu, seal_checksum, computeHeaderChecksum_seal]

theorem Sealed.isValid_self {t : Nat} (hm : Sealed cookie (taggedPtr a t) h m a) (ha : a < 2^56)
    (h16 : 16 ≤ a) :
    Chunk.isValid cookie (taggedPtr a t) m = some (h.seal cookie (taggedPtr a t)) := by
  rw [hm.isValid ha h16, if_pos rfl]

theorem Sealed.loadHeader_self {t : Nat} (hm : Sealed cookie (taggedPtr a t) h m a)
    (ha : a < 2^56) (h16 : 16 ≤ a) :
    loadHeader cookie (taggedPtr a t) m = .ok (h.seal cookie (taggedPtr a t)) := by
  rw [loadHeader, hm.isValid_self ha h16]

/-- A header sealed for an address under one tag is rejected under every other tag. -/
theorem Sealed.isValid_other {t t' : Nat} (hm : Sealed cookie (taggedPtr a t) h m a)
    (ha : a < 2^56) (h16 : 16 ≤ a) (ht : t < 16) (ht' : t' < 16) (hne : t ≠ t') :
    Chunk.isValid cookie (taggedPtr a t') m = none := by
  rw [hm.isValid ha h16, if_neg]
  intro h
  exact hne (computeChecksum_top_byte cookie a t t' _ ha (by omega) (by omega) h)

end Sealed

end Chunk

end ScudoMte
