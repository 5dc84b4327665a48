import ScudoMte.Heap.Reachable

namespace ScudoMte

open ByteMemory Ownership Chunk Combined

variable {cfg : Config} {R : Regions cfg} {h h' : Heap}

/-- An act that allocates `size` bytes under the alignment `2^k`. -/
def Act.Allocates (cfg : Config) (env : AllocEnv) (size k : Nat) : Act → Prop
  | .allocate env' size' _ k' _ => env' = env ∧ size' = size ∧ k' = k
  | .reallocate r alloc _ newSize k' =>
      ¬ r.StaysInPlace cfg newSize ∧ alloc = env ∧ newSize = size ∧ k' = k
  | _ => False

/-- A chunk that an allocation from the heap handed out. -/
def Heap.Grants (h : Heap) (cfg : Config) (env : AllocEnv) (size k : Nat) (r : Holding) : Prop :=
  ∃ origin fill a s' m m' m'', Allocated cfg h env size (max k 4) origin fill a s' m m' ∧
    r = .ofAllocation h.opts m'' a

/-- Every live chunk after an act was there before, or was resized in place, or is new. -/
inductive LiveFrom (cfg : Config) (h : Heap) (act : Act) : Holding → Prop
  | old {r : Holding} : r ∈ h.chunks → LiveFrom cfg h act r
  | resized {r : Holding} {alloc : AllocEnv} {free : FreeEnv} {newSize k : Nat} :
      act = .reallocate r alloc free newSize k → r ∈ h.chunks → r.status = .live →
      r.StaysInPlace cfg newSize → LiveFrom cfg h act { r with size := newSize }
  | new {r : Holding} {env : AllocEnv} {size k : Nat} :
      act.Allocates cfg env size k → k ≤ 24 → size < 2^40 → h.Grants cfg env size k r →
      LiveFrom cfg h act r

theorem dispose_live {r x : Holding} {m : Mem} {d : Disposal} (hx : x ∈ (h.dispose r m d).chunks)
    (hl : x.status = .live) : x ∈ h.chunks := by
  cases d with
  | toPrimary c block => exact List.mem_of_mem_erase hx
  | toSecondary s => exact List.mem_of_mem_erase hx
  | toQuarantine p n =>
    rcases List.mem_cons.mp hx with rfl | hx
    · exact absurd hl (by simp)
    · exact List.mem_of_mem_erase hx

theorem addAllocation_live (hi : h.Inv R) {env : AllocEnv} {size k : Nat} {origin : Origin}
    {zeroContents : Bool} {act : Act} {a : Allocation} {s' : Secondary} {m' m'' : Mem} {x : Holding}
    (henv : env.Ok R h size k) (hreq : act.Allocates cfg env size k)
    (ha : Combined.allocate cfg h.opts env h.secondary h.mem size origin (2^k) zeroContents =
      .ok (some a, s', m')) (hx : x ∈ (h.addAllocation s' m'' a).chunks) :
    LiveFrom cfg h act x := by
  rcases List.mem_cons.mp hx with rfl | hx
  · obtain ⟨hk, hsize, m, hal⟩ := allocated_of_allocate hi henv ha
    exact .new hreq hk hsize ⟨_, _, a, s', m, m', m'', hal, rfl⟩
  · exact .old hx

theorem Outcome.live {act : Act} (ho : Outcome R h act h') (hi : h.Inv R) {x : Holding}
    (hx : x ∈ h'.chunks) (hl : x.status = .live) : LiveFrom cfg h act x := by
  cases ho with
  | allocated henv ha => exact addAllocation_live hi henv ⟨rfl, rfl, rfl⟩ ha hx
  | freed hm hl' hclock hag hof hq => exact .old (dispose_live hx hl)
  | resized hm hl' hag hof hstay =>
    rcases List.mem_cons.mp hx with rfl | hx
    · exact .resized rfl hm hl' hstay
    · exact .old (List.mem_of_mem_erase hx)
  | moved hm hl' hag hof hstay halloc hclock ha hq =>
    exact addAllocation_live hi halloc ⟨hstay, rfl, rfl, rfl⟩ ha (dispose_live hx hl)
  | recycled hm ha hst => exact .old (List.mem_of_mem_erase hx)
  | batched hm hmax =>
    rcases List.mem_cons.mp hx with rfl | hx
    · exact absurd hl (by simp [Holding.ofBatch])
    · exact .old hx
  | _ => exact .old hx

end ScudoMte
