import Mathlib.Data.List.Induction
import Mathlib.Data.List.Nodup
import ScudoMte.Library.RingLog
import ScudoMte.Memtag

namespace ScudoMte.ErrorReport

open RingLog

/-- `AllocationRingBuffer::Entry`. -/
structure Entry where
  ptr : Nat
  allocationSize : Nat
  allocationTrace : Nat
  allocationTid : Nat
  deallocationTrace : Nat
  deallocationTid : Nat
  deriving DecidableEq

/-- An entry of fresh pages. -/
def Entry.blank : Entry := ⟨0, 0, 0, 0, 0, 0⟩

structure AllocationRingBuffer where
  ringBufferElements : Nat
  pos : Nat
  entries : List Entry

/-- The buffer as `initRingBufferMaybe` maps it. -/
def AllocationRingBuffer.init (ringBufferElements : Nat) : AllocationRingBuffer :=
  { ringBufferElements, pos := 0, entries := List.replicate ringBufferElements .blank }

def storeRingBufferEntry (rb : AllocationRingBuffer) (entry : Entry) : AllocationRingBuffer :=
  { rb with
    pos := (rb.pos + 1) % 2^64
    entries := rb.entries.set (rb.pos % rb.ringBufferElements) entry }

/-- `sizeof(AllocationRingBuffer)`. -/
def sizeofAllocationRingBuffer : Nat := 64

/-- `sizeof(AllocationRingBuffer::Entry)`. -/
def sizeofEntry : Nat := 32

def ringBufferSizeInBytes (ringBufferElements : Nat) : Nat :=
  (sizeofAllocationRingBuffer + ringBufferElements * sizeofEntry) % 2^64

def ringBufferElementsFromBytes (bytes : Nat) : Nat :=
  if bytes < sizeofAllocationRingBuffer then 0
  else (bytes - sizeofAllocationRingBuffer) / sizeofEntry

/-- `for (I = i; I != stop; --I)`; the fuel bounds the number of rounds. -/
def countDown (stop : Nat) : Nat → Nat → List Nat
  | 0, _ => []
  | fuel+1, i => if i = stop then [] else i :: countDown stop fuel (wrapSub i 1)

/-- The values of `I` in `getRingBufferErrorInfo`, while there is room for reports. -/
def ringIndices (pos n : Nat) : List Nat :=
  countDown (wrapSub (wrapSub pos 1) n) (2^64) (wrapSub pos 1)

inductive ErrorType
  | useAfterFree | bufferOverflow | bufferUnderflow
  deriving DecidableEq

/-- `scudo_error_report`. -/
structure Report where
  errorType : ErrorType
  allocationAddress : Nat
  allocationSize : Nat
  allocationTid : Nat
  allocationTrace : List Nat
  deallocationTid : Nat
  deallocationTrace : List Nat
  deriving DecidableEq

def numErrorReports : Nat := 3

section Reports

variable (pageSize faultAddr : Nat) (collectTrace : Nat → List Nat)

def entryReport (entry : Entry) : Report :=
  { errorType :=
      if entry.deallocationTid ≠ 0 then .useAfterFree
      else if faultAddr < entry.ptr then .bufferUnderflow else .bufferOverflow
    allocationAddress := untagPointer entry.ptr
    allocationSize := entry.allocationSize
    allocationTid := entry.allocationTid
    allocationTrace := collectTrace entry.allocationTrace
    deallocationTid := entry.deallocationTid
    deallocationTrace := collectTrace entry.deallocationTrace }

/-- The loop body. -/
def checkEntry (reports : List Report) (entry : Entry) : List Report :=
  if entry.ptr = 0 then reports
  else if entry.deallocationTid ≠ 0 then
    if faultAddr < entry.ptr ∨ (entry.ptr + entry.allocationSize) % 2^64 ≤ faultAddr then reports
    else reports ++ [entryReport faultAddr collectTrace entry]
  else if faultAddr < wrapSub entry.ptr pageSize ∨
      (entry.ptr + entry.allocationSize + pageSize) % 2^64 ≤ faultAddr then reports
  else if reports.any fun r => r.allocationAddress = untagPointer entry.ptr then reports
  else reports ++ [entryReport faultAddr collectTrace entry]

/-- The loop, which also ends when the reports are full. -/
def checkEntries (rb : AllocationRingBuffer) (n : Nat) : List Nat → List Report → List Report
  | [], reports => reports
  | i::is, reports =>
      if reports.length = numErrorReports then reports
      else checkEntries rb n is
        (checkEntry pageSize faultAddr collectTrace reports (rb.entries.getD (i % n) .blank))

/-- `getRingBufferErrorInfo` with a depot. -/
def getRingBufferErrorInfo (rb : Option AllocationRingBuffer) (ringBufferSize : Nat)
    (reports : List Report) : List Report :=
  let n := ringBufferElementsFromBytes ringBufferSize
  match rb with
  | none => reports
  | some rb =>
      if n = 0 then reports
      else checkEntries pageSize faultAddr collectTrace rb n (ringIndices rb.pos n) reports

end Reports

/-- The slots that the loop visits. -/
def visitedSlots (pos n : Nat) : List Nat := (ringIndices pos n).map (· % n)

/-- One of the first `count` entries was stored to the slot. -/
def Written (n count x : Nat) : Prop := ∃ k < count, k % n = x

instance (n count x : Nat) : Decidable (Written n count x) :=
  inferInstanceAs (Decidable (∃ k < count, k % n = x))

/-- The visited slots but for those that were never written. -/
def writtenSlots (rb : AllocationRingBuffer) (count : Nat) : List Nat :=
  (visitedSlots rb.pos rb.ringBufferElements).filter (Written rb.ringBufferElements count)

/-- The loop finds the writer's number of elements and visits, beside slots that were never
written, the slots of the last stored entries, newest first and each once. -/
structure ReadsBack (rb : AllocationRingBuffer) (log : List Entry) : Prop where
  elements : ringBufferElementsFromBytes (ringBufferSizeInBytes rb.ringBufferElements) =
    rb.ringBufferElements
  once : (writtenSlots rb log.length).Nodup
  newest : (writtenSlots rb log.length).map (fun x => rb.entries[x]?) =
    (log.reverse.take rb.ringBufferElements).map some

theorem ringBufferElementsFromBytes_size {n : Nat} (hn : n < 2^32) :
    ringBufferElementsFromBytes (ringBufferSizeInBytes n) = n := by
  have hfit : sizeofAllocationRingBuffer + n * sizeofEntry < 2^64 := by
    simp only [sizeofAllocationRingBuffer, sizeofEntry]
    omega
  rw [ringBufferSizeInBytes, Nat.mod_eq_of_lt hfit, ringBufferElementsFromBytes,
    if_neg (by omega), Nat.add_sub_cancel_left]
  exact Nat.mul_div_cancel n (by decide)

theorem map_range_succ {α : Type*} (f : Nat → α) (n : Nat) :
    (List.range (n+1)).map f = f 0 :: (List.range n).map fun k => f (k+1) := by
  rw [List.range_succ_eq_map, List.map_cons, List.map_map]
  rfl

/-- The loop runs for `rounds` rounds. -/
theorem countDown_eq (rounds fuel : Nat) {i : Nat} (hi : i < 2^64) (hr : rounds < 2^64)
    (hfuel : rounds ≤ fuel) :
    countDown (wrapSub i rounds) fuel i = (List.range rounds).map (wrapSub i) := by
  induction rounds generalizing fuel i with
  | zero =>
    rw [wrapSub_of_le (Nat.zero_le i) hi, Nat.sub_zero]
    cases fuel with
    | zero => rfl
    | succ fuel => rw [countDown, if_pos rfl]; rfl
  | succ rounds ih =>
    cases fuel with
    | zero => omega
    | succ fuel =>
      have hne : i ≠ wrapSub i (rounds+1) := by
        rw [wrapSub]
        omega
      have hstep (k : Nat) (hk : k < 2^64) : wrapSub (wrapSub i 1) k = wrapSub i (k+1) := by
        simp only [wrapSub]
        omega
      have hlt : wrapSub i 1 < 2^64 := Nat.mod_lt _ (by decide)
      have hzero : wrapSub i 0 = i := by
        rw [wrapSub_of_le (Nat.zero_le i) hi, Nat.sub_zero]
      rw [countDown, if_neg hne, ← hstep rounds (by omega), ih fuel hlt (by omega) (by omega),
        map_range_succ, hzero]
      apply congrArg (List.cons i)
      apply List.map_congr_left
      intro k hk
      rw [List.mem_range] at hk
      exact hstep k (by omega)

theorem ringIndices_eq {pos n : Nat} (hn : n < 2^64) :
    ringIndices pos n = (List.range n).map (wrapSub (wrapSub pos 1)) :=
  countDown_eq n (2^64) (Nat.mod_lt _ (by decide)) hn hn.le

theorem visitedSlots_eq {pos n : Nat} (hn : n < 2^64) :
    visitedSlots pos n = (List.range n).map fun k => wrapSub (wrapSub pos 1) k % n := by
  rw [visitedSlots, ringIndices_eq hn, List.map_map]
  rfl

/-- The buffer after storing a log. -/
structure Stored (rb : AllocationRingBuffer) (n : Nat) (log : List Entry) : Prop where
  elements : rb.ringBufferElements = n
  pos : rb.pos = log.length
  length : rb.entries.length = n
  logs : Logs .blank rb.entries log

theorem stored_foldl {n : Nat} (hn : 0 < n) (log : List Entry) (hlog : log.length < 2^64) :
    Stored (log.foldl storeRingBufferEntry (.init n)) n log := by
  induction log using List.reverseRecOn with
  | nil => exact ⟨rfl, rfl, List.length_replicate, Logs.empty _ n⟩
  | append_singleton log e ih =>
    rw [List.length_append, List.length_singleton] at hlog
    obtain ⟨helements, hpos, hlength, hlogs⟩ := ih (by omega)
    rw [List.foldl_append, List.foldl_cons, List.foldl_nil]
    generalize log.foldl storeRingBufferEntry (.init n) = rb at helements hpos hlength hlogs
    refine ⟨helements, ?_, ?_, ?_⟩
    · rw [storeRingBufferEntry, hpos, List.length_append, List.length_singleton]
      exact Nat.mod_eq_of_lt hlog
    · rw [storeRingBufferEntry, List.length_set, hlength]
    · simp only [storeRingBufferEntry]
      rw [hpos, helements, ← hlength]
      exact hlogs.push (hlength ▸ hn) e

theorem written_iff {n count x : Nat} (hx : x < n) : Written n count x ↔ x < count := by
  constructor
  · rintro ⟨k, hk, rfl⟩
    exact (Nat.mod_le k n).trans_lt hk
  · intro hlt
    exact ⟨x, hlt, Nat.mod_eq_of_lt hx⟩

/-- The index of the `k`-th entry before the newest. -/
theorem index_of_lt {pos k : Nat} (hpos : pos < 2^64) (hk : k < pos) :
    wrapSub (wrapSub pos 1) k = pos - 1 - k := by
  rw [wrapSub_of_le (by omega) hpos, wrapSub_of_le (by omega) (by omega)]

/-- The index `j` rounds after the loop passed the first entry. -/
theorem index_of_ge {pos j : Nat} (hj : pos + j < 2^64) :
    wrapSub (wrapSub pos 1) (pos+j) = 2^64 - 1 - j := by
  simp only [wrapSub]
  omega

/-- The slots of the last stored entries come first. -/
theorem visitedSlots_split {pos n : Nat} (hn : n < 2^64) (hpos : pos < 2^64) (hle : pos ≤ n) :
    visitedSlots pos n = ((List.range pos).map fun k => (pos - 1 - k) % n) ++
      (List.range (n-pos)).map fun j => (2^64 - 1 - j) % n := by
  obtain ⟨d, rfl⟩ := Nat.exists_eq_add_of_le hle
  rw [visitedSlots_eq hn, List.range_add, List.map_append, List.map_map, Nat.add_sub_cancel_left]
  refine congrArg₂ (· ++ ·) ?_ ?_
  · apply List.map_congr_left
    intro k hk
    rw [index_of_lt hpos (List.mem_range.mp hk)]
  · apply List.map_congr_left
    intro j hj
    rw [List.mem_range] at hj
    rw [Function.comp_apply, index_of_ge (by omega)]

theorem map_read_newest {ring log : List Entry} (h : Logs .blank ring log) {m : Nat}
    (hm : m ≤ log.length) (hr : m ≤ ring.length) :
    ((List.range m).map fun k => ring[(log.length - 1 - k) % ring.length]?) =
      (log.reverse.take m).map some := by
  apply List.ext_getElem?
  intro k
  rw [List.getElem?_map, List.getElem?_map, List.getElem?_take]
  by_cases hk : k < m
  · rw [List.getElem?_range hk, if_pos hk, Option.map_some, h.recent _ (by omega) (by omega),
      List.getElem?_reverse (by omega), List.getElem?_eq_getElem (by omega)]
    rfl
  · rw [List.getElem?_eq_none (by rw [List.length_range]; omega), if_neg hk]
    rfl

theorem newest_nodup {pos n m : Nat} (hm : m ≤ pos) (hn : m ≤ n) :
    ((List.range m).map fun k => (pos - 1 - k) % n).Nodup := by
  refine List.nodup_range.map_on ?_
  intro i hi j hj heq
  rw [List.mem_range] at hi hj
  by_contra hne
  rcases Nat.lt_or_gt_of_ne hne with hlt | hlt
  · exact mod_ne (show pos - 1 - j < pos - 1 - i by omega) (by omega) heq.symm
  · exact mod_ne (show pos - 1 - i < pos - 1 - j by omega) (by omega) heq

/-- Past the first entry the loop visits a slot that was written, unless the number of elements
divides `2^64`. -/
theorem exists_written_again {pos n : Nat} (hpos : 0 < pos) (hlt : pos < n) (hn : n < 2^64)
    (hd : ¬ n ∣ 2^64) : ∃ j < n - pos, (2^64 - 1 - j) % n < pos := by
  have hr : 2^64 % n ≠ 0 := fun h => hd (Nat.dvd_of_mod_eq_zero h)
  have hrn := Nat.mod_lt (2^64) (show 0 < n by omega)
  have hdiv := Nat.div_add_mod (2^64) n
  generalize hq : 2^64 / n = q at hdiv
  generalize 2^64 % n = r at hr hrn hdiv
  have hslot (j : Nat) (hj : j < r) : (2^64 - 1 - j) % n = r - 1 - j := by
    rw [show 2^64 - 1 - j = n * q + (r - 1 - j) by omega, Nat.mul_add_mod,
      Nat.mod_eq_of_lt (by omega)]
  refine ⟨r - pos, by omega, ?_⟩
  rw [hslot (r - pos) (by omega)]
  omega

theorem unwritten_of_dvd {pos n j : Nat} (hd : n ∣ 2^64) (hlt : pos < n) (hj : j < n - pos) :
    pos ≤ (2^64 - 1 - j) % n := by
  obtain ⟨q, hq⟩ := hd
  have hqpos : 0 < q := by
    rcases Nat.eq_zero_or_pos q with rfl | h
    · omega
    · exact h
  obtain ⟨p, rfl⟩ := Nat.exists_eq_add_of_le' hqpos
  rw [Nat.mul_succ] at hq
  rw [show 2^64 - 1 - j = n * p + (n - 1 - j) by omega, Nat.mul_add_mod,
    Nat.mod_eq_of_lt (by omega)]
  omega

/-- A full buffer: every slot was written, and each holds one of the newest entries. -/
theorem Stored.readsBack_of_full {rb : AllocationRingBuffer} {n : Nat} {log : List Entry}
    (h : Stored rb n log) (hn : 0 < n) (hn32 : n < 2^32) (hlog : log.length < 2^64)
    (hfull : n ≤ log.length) : ReadsBack rb log := by
  obtain ⟨rfl, hpos, hlength, hlogs⟩ := h
  have hslots : visitedSlots rb.pos rb.ringBufferElements =
      (List.range rb.ringBufferElements).map fun k =>
        (log.length - 1 - k) % rb.ringBufferElements := by
    rw [visitedSlots_eq (by omega), hpos]
    apply List.map_congr_left
    intro k hk
    rw [List.mem_range] at hk
    rw [index_of_lt hlog (by omega)]
  have hwritten : writtenSlots rb log.length = visitedSlots rb.pos rb.ringBufferElements := by
    rw [writtenSlots, List.filter_eq_self, hslots]
    intro x hx
    obtain ⟨k, -, rfl⟩ := List.mem_map.mp hx
    have hlt := Nat.mod_lt (log.length - 1 - k) hn
    exact decide_eq_true ((written_iff hlt).mpr (by omega))
  refine ⟨ringBufferElementsFromBytes_size hn32, ?_, ?_⟩
  · rw [hwritten, hslots]
    exact newest_nodup hfull le_rfl
  · rw [hwritten, hslots, List.map_map, ← map_read_newest hlogs hfull hlength.ge, hlength]
    rfl

/-- A buffer that is not full yet: what the first `pos` rounds visit was written; of the others
every slot has to be unwritten. -/
theorem Stored.readsBack_iff_of_lt {rb : AllocationRingBuffer} {n : Nat} {log : List Entry}
    (h : Stored rb n log) (hn32 : n < 2^32) (hlt : log.length < n) :
    ReadsBack rb log ↔ ∀ j < n - log.length, log.length ≤ (2^64 - 1 - j) % n := by
  obtain ⟨rfl, hpos, hlength, hlogs⟩ := h
  have hn : 0 < rb.ringBufferElements := by omega
  have hsplit := visitedSlots_split (show rb.ringBufferElements < 2^64 by omega)
    (show log.length < 2^64 by omega) hlt.le
  have hfirst : ((List.range log.length).map fun k =>
        (log.length - 1 - k) % rb.ringBufferElements).filter
          (Written rb.ringBufferElements log.length) =
      (List.range log.length).map fun k => (log.length - 1 - k) % rb.ringBufferElements := by
    rw [List.filter_eq_self]
    intro x hx
    obtain ⟨k, hk, rfl⟩ := List.mem_map.mp hx
    rw [List.mem_range] at hk
    exact decide_eq_true ⟨log.length - 1 - k, by omega, rfl⟩
  have hwritten : writtenSlots rb log.length =
      ((List.range log.length).map fun k => (log.length - 1 - k) % rb.ringBufferElements) ++
        ((List.range (rb.ringBufferElements - log.length)).map fun j =>
          (2^64 - 1 - j) % rb.ringBufferElements).filter
            (Written rb.ringBufferElements log.length) := by
    rw [writtenSlots, hpos, hsplit, List.filter_append, hfirst]
  constructor
  · intro hreads j hj
    by_contra hagain
    have hmem : (2^64 - 1 - j) % rb.ringBufferElements ∈
        ((List.range (rb.ringBufferElements - log.length)).map fun j =>
          (2^64 - 1 - j) % rb.ringBufferElements).filter
            (Written rb.ringBufferElements log.length) := by
      refine List.mem_filter.mpr ⟨List.mem_map.mpr ⟨j, List.mem_range.mpr hj, rfl⟩, ?_⟩
      exact decide_eq_true ((written_iff (Nat.mod_lt _ hn)).mpr (by omega))
    have hpositive := List.length_pos_of_mem hmem
    have hlen := congrArg List.length hreads.newest
    rw [hwritten, List.length_map, List.length_append, List.length_map, List.length_range,
      List.length_map, List.length_take, List.length_reverse] at hlen
    omega
  · intro hfresh
    have hrest : ((List.range (rb.ringBufferElements - log.length)).map fun j =>
        (2^64 - 1 - j) % rb.ringBufferElements).filter
          (Written rb.ringBufferElements log.length) = [] := by
      rw [List.filter_eq_nil_iff]
      intro x hx hdec
      obtain ⟨j, hj, rfl⟩ := List.mem_map.mp hx
      have hlow := hfresh j (List.mem_range.mp hj)
      have hhigh := (written_iff (Nat.mod_lt _ hn)).mp (of_decide_eq_true hdec)
      omega
    refine ⟨ringBufferElementsFromBytes_size hn32, ?_, ?_⟩
    · rw [hwritten, hrest, List.append_nil]
      exact newest_nodup le_rfl hlt.le
    · have hread := map_read_newest hlogs le_rfl (show log.length ≤ rb.entries.length by omega)
      have htake : log.reverse.take rb.ringBufferElements = log.reverse.take log.length := by
        rw [List.take_of_length_le (by rw [List.length_reverse]; omega),
          List.take_of_length_le (by rw [List.length_reverse])]
      rw [hwritten, hrest, List.append_nil, List.map_map, htake, ← hread, hlength]
      rfl

/-- The loop reads the log back exactly where it cannot pass the first entry, or where the
wrapped index meets the unwritten slots. -/
theorem getRingBufferErrorInfo_readsBack_iff {n : Nat} (hn : 0 < n) (hn32 : n < 2^32)
    (log : List Entry) (hlog : log.length < 2^64) :
    ReadsBack (log.foldl storeRingBufferEntry (.init n)) log ↔
      log = [] ∨ n ≤ log.length ∨ n ∣ 2^64 := by
  have hstored := stored_foldl hn log hlog
  rcases Nat.lt_or_ge log.length n with hlt | hge
  · rw [hstored.readsBack_iff_of_lt hn32 hlt]
    constructor
    · intro hfresh
      by_contra hcond
      obtain ⟨hne, -, hd⟩ : log ≠ [] ∧ ¬ n ≤ log.length ∧ ¬ n ∣ 2^64 := by
        simpa only [not_or] using hcond
      obtain ⟨j, hj, hagain⟩ := exists_written_again (List.length_pos_of_ne_nil hne) hlt
        (by omega) hd
      have hlow := hfresh j hj
      omega
    · rintro (rfl | hfull | hd) j hj
      · exact Nat.zero_le _
      · omega
      · exact unwritten_of_dvd hd hlt hj
  · exact iff_of_true (hstored.readsBack_of_full hn hn32 hlog hge) (.inr (.inl hge))

/-- Two allocations, and a deallocation of the second one. -/
def threeEntries : List Entry :=
  [⟨4096, 16, 1, 7, 0, 0⟩, ⟨8192, 48, 2, 7, 0, 0⟩, ⟨8192, 48, 2, 7, 3, 8⟩]

/-- A buffer of two entries keeps the last two. -/
theorem getRingBufferErrorInfo_readsBack_full :
    ReadsBack (threeEntries.foldl storeRingBufferEntry (.init 2)) threeEntries :=
  (getRingBufferErrorInfo_readsBack_iff (by decide) (by decide) _ (by decide)).mpr
    (.inr (.inl (by decide)))

/-- A deallocation of thread 7, alone in a buffer of three entries. -/
def loneDeallocation : Entry := ⟨4096, 16, 1, 7, 1, 7⟩

/-- The index passes zero and comes back to the slot of the one entry, which is reported twice. -/
theorem loneDeallocation_reported_twice :
    let rb := storeRingBufferEntry (.init 3) loneDeallocation
    ¬ ReadsBack rb [loneDeallocation] ∧
      getRingBufferErrorInfo 4096 4100 (fun _ => []) (some rb) (ringBufferSizeInBytes 3) [] =
        [entryReport 4100 (fun _ => []) loneDeallocation,
          entryReport 4100 (fun _ => []) loneDeallocation] := by
  have hindices : ringIndices 1 3 = [0, 2^64 - 1, 2^64 - 2] := by
    rw [ringIndices_eq (by decide)]
    decide
  constructor
  · intro h
    have hnewest := congrArg List.length h.newest
    rw [List.length_map, writtenSlots, visitedSlots,
      show (storeRingBufferEntry (.init 3) loneDeallocation).pos = 1 from rfl,
      show (storeRingBufferEntry (.init 3) loneDeallocation).ringBufferElements = 3 from rfl,
      hindices] at hnewest
    revert hnewest
    decide
  · have hn : ringBufferElementsFromBytes (ringBufferSizeInBytes 3) = 3 := by decide
    simp only [getRingBufferErrorInfo, hn]
    rw [show (storeRingBufferEntry (.init 3) loneDeallocation).pos = 1 from rfl, hindices]
    decide

end ScudoMte.ErrorReport
