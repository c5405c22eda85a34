import Mathlib.Data.Multiset.AddSub
import Mathlib.Data.Multiset.MapFold
import InferenceServer.Base.Act
import InferenceServer.Base.Buffer
import InferenceServer.Base.Components
import InferenceServer.Base.Stacks
import InferenceServer.Engine.Normalize
import InferenceServer.Memory.Bucket

/-!
# The memory pool

Library `Memory`. `cpp/src/memory/memory_pool.cpp` and `memory_pool.hpp`: size-bucketed free lists
for device and pinned memory, and the handles that return their block when they die. A pointer
is its address, zero is null. `allocated` and `freed` are histories; no code reads them.
-/

namespace InferenceServer.Memory

open InferenceServer.Base InferenceServer.Engine

/-- What the CUDA runtime allocated. -/
structure Block where
  ptr : Nat
  capacity : Nat
  pinned : Bool
  deriving DecidableEq, Repr

/-- `PooledBuffer`; `attached` tells that `pool_` is not null. -/
structure PooledBuffer where
  attached : Bool := false
  ptr : Nat := 0
  capacity : Nat := 0
  requested : Nat := 0
  pinned : Bool := false
  deriving DecidableEq, Repr

/-- `MemoryPoolStats`, `memory_pool.hpp:76–83`. -/
structure MemoryPoolStats where
  acquisitions : Nat := 0
  cacheHits : Nat := 0
  cudamallocCalls : Nat := 0
  bytesInUse : Nat := 0
  bytesCached : Nat := 0
  liveHandles : Nat := 0
  deriving DecidableEq, Repr

/-- `MemoryPool`, without the mutex. -/
structure MemoryPool where
  deviceFree : Stacks Nat Nat := ∅
  pinnedFree : Stacks Nat Nat := ∅
  stats : MemoryPoolStats := {}
  allocated : List Block := []
  freed : List Block := []
  deriving DecidableEq

/-- What the CUDA runtime reports while a block is allocated, and the address it gives. -/
structure AllocEnv where
  setDevice : Option String := none
  answer : Except String Nat
  deriving Repr

/-- The block a handle owns. -/
def PooledBuffer.block? (h : PooledBuffer) : Option Block :=
  if h.attached ∧ h.ptr ≠ 0 then some ⟨h.ptr, h.capacity, h.pinned⟩ else none

/-- The handle after `release`, `memory_pool.cpp:29–37`. -/
def PooledBuffer.released (h : PooledBuffer) : PooledBuffer :=
  { h with attached := false, ptr := 0, capacity := 0, requested := 0 }

namespace MemoryPool

/-- The free lists of one kind. -/
def freeList (p : MemoryPool) (pinned : Bool) : Stacks Nat Nat :=
  if pinned then p.pinnedFree else p.deviceFree

def setFreeList (p : MemoryPool) (pinned : Bool) (m : Stacks Nat Nat) : MemoryPool :=
  if pinned then { p with pinnedFree := m } else { p with deviceFree := m }

/-- The cached blocks, each in the free list it sits in. -/
def cachedOf (p : MemoryPool) (pinned : Bool) : List Block :=
  (p.freeList pinned).items.map fun x ↦ ⟨x.2, x.1, pinned⟩

def cached (p : MemoryPool) : List Block := p.cachedOf false ++ p.cachedOf true

/-- The blocks that are allocated and not yet freed. -/
def outstanding (p : MemoryPool) : Multiset Block := (p.allocated : Multiset Block) - p.freed

/-- The CUDA runtime allocated a block. -/
def record (p : MemoryPool) (b : Block) : MemoryPool := { p with allocated := p.allocated ++ [b] }

/-- `allocate_block`, `memory_pool.cpp:67–76`. -/
def allocateBlock (env : AllocEnv) (capacity : Nat) (pinned : Bool) :
    Act CppException MemoryPool Nat := do
  .runIf (pinned = false) (cudaCheck env.setDevice "cudaSetDevice")
  match env.answer with
  | .error message =>
    throw (.cudaError ((if pinned then "cudaHostAlloc" else "cudaMalloc") ++ ": " ++ message))
  | .ok ptr =>
    modify fun p ↦ p.record ⟨ptr, capacity, pinned⟩
    pure ptr

/-- `++stats_.acquisitions` and the read of `device_free_[capacity]`, which creates the entry,
`memory_pool.cpp:90–91,112–113`. -/
def lookUp (p : MemoryPool) (pinned : Bool) (capacity : Nat) : MemoryPool :=
  { p.setFreeList pinned ((p.freeList pinned).put capacity ((p.freeList pinned).get capacity)) with
    stats := { p.stats with acquisitions := sizeAdd p.stats.acquisitions 1 } }

/-- The cache hit, `memory_pool.cpp:93–97,115–119`, that leaves `rest` in the free list. -/
def takeCached (p : MemoryPool) (pinned : Bool) (capacity : Nat) (rest : List Nat) : MemoryPool :=
  { p.setFreeList pinned ((p.freeList pinned).put capacity rest) with
    stats :=
      { p.stats with
        cacheHits := sizeAdd p.stats.cacheHits 1
        bytesCached := sizeSub p.stats.bytesCached capacity } }

/-- Only device allocations are counted, `memory_pool.cpp:100,121–124`. -/
def countMalloc (p : MemoryPool) (pinned : Bool) : MemoryPool :=
  if pinned then p
  else { p with stats := { p.stats with cudamallocCalls := sizeAdd p.stats.cudamallocCalls 1 } }

/-- `memory_pool.cpp:103–104,127–128`. -/
def lend (p : MemoryPool) (capacity : Nat) : MemoryPool :=
  { p with
    stats :=
      { p.stats with
        bytesInUse := sizeAdd p.stats.bytesInUse capacity
        liveHandles := sizeAdd p.stats.liveHandles 1 } }

/-- A cached block of the bucket, or a new one, `memory_pool.cpp:91–101,113–125`. -/
def takeBlock (pinned : Bool) (env : AllocEnv) (capacity : Nat) :
    Act CppException MemoryPool Nat := do
  let p ← get
  match ((p.freeList pinned).get capacity).getLast? with
  | some ptr =>
    modify fun p ↦ p.takeCached pinned capacity ((p.freeList pinned).get capacity).dropLast
    pure ptr
  | none =>
    let ptr ← allocateBlock env capacity pinned
    modify fun p ↦ p.countMalloc pinned
    pure ptr

/-- The common text of `acquire_device` and `acquire_pinned`, `memory_pool.cpp:86–130`. A
`bucket_for` that does not return has no outcome. -/
def acquire (pinned : Bool) (env : AllocEnv) (bytes : Nat) :
    Act CppException MemoryPool PooledBuffer :=
  match bucketFor bytes with
  | none => .undefined
  | some capacity => do
    modify fun p ↦ p.lookUp pinned capacity
    let ptr ← takeBlock pinned env capacity
    modify fun p ↦ p.lend capacity
    pure { attached := true, ptr, capacity, requested := bytes, pinned }

def acquireDevice (env : AllocEnv) (bytes : Nat) : Act CppException MemoryPool PooledBuffer :=
  acquire false env bytes

def acquirePinned (env : AllocEnv) (bytes : Nat) : Act CppException MemoryPool PooledBuffer :=
  acquire true env bytes

/-- How an acquisition ends. -/
inductive Acquired (pinned : Bool) (env : AllocEnv) (bytes : Nat) (p : MemoryPool) :
    Except CppException PooledBuffer → MemoryPool → Prop where
  | hit {c ptr : Nat} {rest : List Nat} (hc : BucketReturns bytes c)
    (hfree : (p.freeList pinned).get c = rest ++ [ptr]) :
    Acquired pinned env bytes p (.ok ⟨true, ptr, c, bytes, pinned⟩)
      (((p.lookUp pinned c).takeCached pinned c rest).lend c)
  | grown {c ptr : Nat} (hc : BucketReturns bytes c) (hfree : (p.freeList pinned).get c = [])
    (hptr : env.answer = .ok ptr) :
    Acquired pinned env bytes p (.ok ⟨true, ptr, c, bytes, pinned⟩)
      ((((p.lookUp pinned c).record ⟨ptr, c, pinned⟩).countMalloc pinned).lend c)
  | failed {c : Nat} (hc : BucketReturns bytes c) (hfree : (p.freeList pinned).get c = [])
    (e : CppException) : Acquired pinned env bytes p (.error e) (p.lookUp pinned c)

theorem freeList_lookUp (p : MemoryPool) (pinned : Bool) (c : Nat) :
    ((p.lookUp pinned c).freeList pinned).get c = (p.freeList pinned).get c := by
  have hlist : (p.lookUp pinned c).freeList pinned =
      (p.freeList pinned).put c ((p.freeList pinned).get c) := by
    cases pinned <;> rfl
  rw [hlist, Stacks.get_put]

private theorem allocateBlock_outcome (env : AllocEnv) (c : Nat) (pinned : Bool)
    (p : MemoryPool) :
    (∃ ptr, env.answer = .ok ptr ∧
      (allocateBlock env c pinned).outcome p = some (.ok ptr, p.record ⟨ptr, c, pinned⟩)) ∨
      ∃ e, (allocateBlock env c pinned).outcome p = some (.error e, p) := by
  obtain ⟨setDevice, answer⟩ := env
  cases pinned with
  | true =>
    cases answer with
    | ok ptr => exact .inl ⟨ptr, rfl, rfl⟩
    | error message => exact .inr ⟨_, rfl⟩
  | false =>
    cases setDevice with
    | some message => exact .inr ⟨_, rfl⟩
    | none =>
      cases answer with
      | ok ptr => exact .inl ⟨ptr, rfl, rfl⟩
      | error message => exact .inr ⟨_, rfl⟩

private theorem takeBlock_hit (env : AllocEnv) {c ptr : Nat} {pinned : Bool} {p : MemoryPool}
    {rest : List Nat} (h : (p.freeList pinned).get c = rest ++ [ptr]) :
    (takeBlock pinned env c).outcome p = some (.ok ptr, p.takeCached pinned c rest) := by
  unfold takeBlock
  rw [Act.outcome_bind_ok (Act.outcome_get p), h, List.getLast?_concat]
  change some (Except.ok ptr, p.takeCached pinned c ((p.freeList pinned).get c).dropLast) = _
  rw [h, List.dropLast_concat]

private theorem takeBlock_empty (env : AllocEnv) {c : Nat} {pinned : Bool} {p : MemoryPool}
    (h : (p.freeList pinned).get c = []) :
    (takeBlock pinned env c).outcome p =
      (allocateBlock env c pinned >>= fun ptr ↦ do
        modify fun p ↦ p.countMalloc pinned
        pure ptr).outcome p := by
  unfold takeBlock
  rw [Act.outcome_bind_ok (Act.outcome_get p), h]
  rfl

/-- Everything an acquisition can do. -/
theorem acquire_cases {pinned : Bool} {env : AllocEnv} {bytes : Nat} {p q : MemoryPool}
    {r : Except CppException PooledBuffer}
    (h : (acquire pinned env bytes).outcome p = some (r, q)) :
    Acquired pinned env bytes p r q := by
  unfold acquire at h
  split at h
  · cases h
  · next c hc =>
    have hret := bucketFor_eq_some.mp hc
    rw [Act.outcome_bind_ok (Act.outcome_modify _ p)] at h
    have hlook := freeList_lookUp p pinned c
    cases hfree : (p.freeList pinned).get c using List.reverseRecOn with
    | nil =>
      have hempty := takeBlock_empty env (hlook.trans hfree)
      rcases allocateBlock_outcome env c pinned (p.lookUp pinned c) with
        ⟨ptr, hptr, hout⟩ | ⟨e, hout⟩
      · rw [Act.outcome_bind_ok (hempty.trans (Act.outcome_bind_ok hout))] at h
        cases h
        exact .grown hret hfree hptr
      · rw [Act.outcome_bind_error (hempty.trans (Act.outcome_bind_error hout))] at h
        cases h
        exact .failed hret hfree e
    | append_singleton rest ptr =>
      rw [Act.outcome_bind_ok (takeBlock_hit env (hlook.trans hfree))] at h
      cases h
      exact .hit hret hfree

/-- An acquisition whose allocation does not fail returns a handle. -/
theorem acquire_ok {pinned : Bool} {env : AllocEnv} {bytes ptr : Nat} (hb : bytes ≤ 2 ^ 63)
    (hset : pinned = false → env.setDevice = none) (hptr : env.answer = .ok ptr)
    (p : MemoryPool) : ∃ h q, (acquire pinned env bytes).outcome p = some (.ok h, q) := by
  obtain ⟨c, hc⟩ := bucketReturns_iff.mpr hb
  have halloc (q : MemoryPool) :
      (allocateBlock env c pinned).outcome q = some (.ok ptr, q.record ⟨ptr, c, pinned⟩) := by
    obtain ⟨setDevice, answer⟩ := env
    cases hptr
    cases pinned with
    | true => rfl
    | false =>
      cases hset rfl
      rfl
  unfold acquire
  rw [bucketFor_eq_some.mpr hc]
  dsimp only
  rw [Act.outcome_bind_ok (Act.outcome_modify _ p)]
  have hlook := freeList_lookUp p pinned c
  cases hfree : (p.freeList pinned).get c using List.reverseRecOn with
  | nil =>
    have hempty := takeBlock_empty env (hlook.trans hfree)
    rw [Act.outcome_bind_ok (hempty.trans (Act.outcome_bind_ok (halloc _)))]
    exact ⟨_, _, rfl⟩
  | append_singleton rest ptr =>
    rw [Act.outcome_bind_ok (takeBlock_hit env (hlook.trans hfree))]
    exact ⟨_, _, rfl⟩

/-- `bucket_for` returns exactly for requests of at most `2 ^ 63` bytes. Then it returns the least
power of two that holds the request and the smallest bucket, monotonically and idempotently, and
every handle acquired has the room it was asked for. -/
theorem bucket_for_returns_iff (bytes : Nat) :
    ((∃ r, BucketReturns bytes r) ↔ bytes ≤ 2 ^ 63) ∧
      (∀ r, BucketReturns bytes r → IsLeast (Holding bytes) r ∧ BucketReturns r r ∧
        ∀ b q, bytes ≤ b → BucketReturns b q → r ≤ q) ∧
      ∀ pinned env p h q, (acquire pinned env bytes).outcome p = some (.ok h, q) →
        h.requested = bytes ∧ bytes ≤ h.capacity := by
  refine ⟨bucketReturns_iff, ?_, ?_⟩
  · intro r hr
    exact ⟨hr.isLeast, hr.idem, fun b q hb hq ↦ hr.mono hb hq⟩
  · intro pinned env p h q hout
    cases acquire_cases hout with
    | hit hc hfree => exact ⟨rfl, hc.le⟩
    | grown hc hfree hptr => exact ⟨rfl, hc.le⟩

/-- One byte more than `2 ^ 63` is a `size_t` for which the loop never ends, so no acquisition of
that size returns or throws. -/
theorem half_range_never_returns :
    2 ^ 63 + 1 < 2 ^ 64 ∧ (¬∃ r, BucketReturns (2 ^ 63 + 1) r) ∧
      ∀ pinned env p, (acquire pinned env (2 ^ 63 + 1)).outcome p = none := by
  have hnone : ¬∃ r, BucketReturns (2 ^ 63 + 1) r := by
    rw [bucketReturns_iff]
    omega
  refine ⟨by omega, hnone, ?_⟩
  intro pinned env p
  cases hout : (acquire pinned env (2 ^ 63 + 1)).outcome p with
  | none => rfl
  | some x =>
    exfalso
    obtain ⟨r, q⟩ := x
    cases acquire_cases hout with
    | hit hc hfree => exact hnone ⟨_, hc⟩
    | grown hc hfree hptr => exact hnone ⟨_, hc⟩
    | failed hc hfree e => exact hnone ⟨_, hc⟩

/-- `MemoryPool::release`, `memory_pool.cpp:132–140`. -/
def release (p : MemoryPool) (b : Block) : MemoryPool :=
  { p.setFreeList b.pinned
      ((p.freeList b.pinned).put b.capacity ((p.freeList b.pinned).get b.capacity ++ [b.ptr])) with
    stats :=
      { p.stats with
        bytesInUse := sizeSub p.stats.bytesInUse b.capacity
        bytesCached := sizeAdd p.stats.bytesCached b.capacity
        liveHandles := sizeSub p.stats.liveHandles 1 } }

/-- `PooledBuffer::release` on the pool's side. -/
def releaseHandle (p : MemoryPool) (h : PooledBuffer) : MemoryPool :=
  match h.block? with
  | some b => p.release b
  | none => p

/-- `trim`, `memory_pool.cpp:142–158`. -/
def trim (p : MemoryPool) : MemoryPool :=
  { p with
    deviceFree := p.deviceFree.clear
    pinnedFree := p.pinnedFree.clear
    freed := p.freed ++ p.cached
    stats :=
      { p.stats with
        bytesCached := p.cached.foldl (fun n b ↦ sizeSub n b.capacity) p.stats.bytesCached } }

/-- `~MemoryPool`, `memory_pool.cpp:45–54`; `std::terminate` leaves nothing. -/
def destroy (p : MemoryPool) : Option MemoryPool :=
  if p.stats.liveHandles ≠ 0 then none else some p.trim

/-- The allocator's contract: a block that does not overlap one not yet freed has another
address, and none of them is null. -/
def sound (p : MemoryPool) (env : AllocEnv) : Bool :=
  match env.answer with
  | .error _ => true
  | .ok ptr => decide (0 < ptr ∧ ptr < 2 ^ 64 ∧ ∀ b ∈ p.outstanding, b.ptr ≠ ptr)

end MemoryPool

/-- A pool and the handles on its blocks, in the order of their construction. A destroyed handle
stays as an empty one. -/
structure PoolState where
  pool : MemoryPool := {}
  handles : List PooledBuffer := []
  deriving DecidableEq

namespace PoolState

/-- What the owner of the handles does next. -/
inductive Event where
  | acquireDevice (bytes : Nat) (env : AllocEnv)
  | acquirePinned (bytes : Nat) (env : AllocEnv)
  | construct
  /-- a new handle from `std::move` of handle `j` -/
  | moveConstruct (j : Nat)
  /-- handle `i` is assigned `std::move` of handle `j` -/
  | moveAssign (i j : Nat)
  | destroy (i : Nat)
  | trim

/-- The handles' blocks. -/
def live (s : PoolState) : List Block := s.handles.filterMap (·.block?)

/-- An acquisition: a handle, or an exception. -/
def acquire (s : PoolState) (pinned : Bool) (bytes : Nat) (env : AllocEnv) : Option PoolState :=
  if s.pool.sound env then
    ((MemoryPool.acquire pinned env bytes).outcome s.pool).map fun r ↦
      match r.1 with
      | .ok h => { pool := r.2, handles := s.handles ++ [h] }
      | .error _ => { s with pool := r.2 }
  else none

/-- `release` of handle `i`. -/
def releaseAt (s : PoolState) (i : Nat) : Option PoolState :=
  s.handles[i]?.map fun h ↦
    { pool := s.pool.releaseHandle h, handles := s.handles.set i h.released }

/-- One step; the move constructor and assignment are `memory_pool.hpp:30–35` and
`memory_pool.cpp:17–27`. -/
def step (s : PoolState) : Event → Option PoolState
  | .acquireDevice bytes env => s.acquire false bytes env
  | .acquirePinned bytes env => s.acquire true bytes env
  | .construct => some { s with handles := s.handles ++ [{}] }
  | .moveConstruct j => s.handles[j]?.map fun h ↦ { s with handles := s.handles.set j {} ++ [h] }
  | .moveAssign i j =>
    if i = j then s.handles[i]?.map fun _ ↦ s
    else
      s.handles[j]?.bind fun h ↦
        (s.releaseAt i).map fun s ↦ { s with handles := (s.handles.set i h).set j {} }
  | .destroy i => s.releaseAt i
  | .trim => some { s with pool := s.pool.trim }

end PoolState
end InferenceServer.Memory
