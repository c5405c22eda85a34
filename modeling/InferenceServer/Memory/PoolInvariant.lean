import Mathlib.Algebra.Order.BigOperators.Group.Multiset
import InferenceServer.Base.Ledger
import InferenceServer.Memory.Pool

/-!
# The pool keeps its books

Library `Memory`. Each operation on the pool and its handles moves one block between the lent and
the cached ones, allocates one, or frees the cached ones (`Move`); so the pool refines the ledger of
lent resources, and its counters count what the ledger holds.
-/

namespace InferenceServer.Memory

open InferenceServer.Base InferenceServer.Engine

namespace MemoryPool

variable {p : MemoryPool} {pinned : Bool} {c : Nat} {b : Block}

/-! ### The cached blocks -/

/-- A cached block is in the free list of its kind and capacity. -/
theorem mem_cached : b ∈ p.cached ↔ b.ptr ∈ (p.freeList b.pinned).get b.capacity := by
  have hof (k : Bool) :
      b ∈ p.cachedOf k ↔ k = b.pinned ∧ b.ptr ∈ (p.freeList k).get b.capacity := by
    rw [cachedOf, List.mem_map]
    constructor
    · rintro ⟨x, hx, rfl⟩
      exact ⟨rfl, Stacks.mem_items.mp hx⟩
    · rintro ⟨rfl, hb⟩
      exact ⟨(b.capacity, b.ptr), Stacks.mem_items.mpr hb, rfl⟩
  rw [cached, List.mem_append, hof, hof]
  cases b.pinned <;> simp

/-- An item of a free list as a block. -/
private def blockOf (pinned : Bool) (x : Nat × Nat) : Block := ⟨x.2, x.1, pinned⟩

/-- A change of one free list changes the cached blocks by what it changes the list's items. -/
private theorem cached_setFreeList (p : MemoryPool) (pinned : Bool) {m : Stacks Nat Nat}
    (xs ys : List (Nat × Nat)) (h : (xs ++ m.items).Perm (ys ++ (p.freeList pinned).items)) :
    (xs.map (blockOf pinned) ++ (p.setFreeList pinned m).cached).Perm
      (ys.map (blockOf pinned) ++ p.cached) := by
  have hmap := h.map (blockOf pinned)
  rw [List.map_append, List.map_append] at hmap
  cases pinned with
  | false =>
    change (_ ++ (m.items.map (blockOf false) ++ p.cachedOf true)).Perm
      (_ ++ (p.cachedOf false ++ p.cachedOf true))
    rw [← List.append_assoc, ← List.append_assoc]
    exact hmap.append_right _
  | true =>
    change (_ ++ (p.cachedOf false ++ m.items.map (blockOf true))).Perm
      (_ ++ (p.cachedOf false ++ p.cachedOf true))
    exact (List.perm_append_comm_assoc _ _ _).trans
      ((hmap.append_left _).trans (List.perm_append_comm_assoc _ _ _))

/-- Looking up a bucket moves no block. -/
theorem cached_lookUp (p : MemoryPool) (pinned : Bool) (c : Nat) :
    (p.lookUp pinned c).cached.Perm p.cached :=
  cached_setFreeList p pinned [] [] (Stacks.items_touch _ c)

/-- A hit takes its block out of the cache. -/
theorem cached_takeCached {ptr : Nat} {rest : List Nat}
    (h : (p.freeList pinned).get c = rest ++ [ptr]) :
    p.cached.Perm (⟨ptr, c, pinned⟩ :: (p.takeCached pinned c rest).cached) :=
  (cached_setFreeList p pinned [(c, ptr)] [] (Stacks.items_pop h).symm).symm

/-- A release puts its block into the cache. -/
theorem cached_release (p : MemoryPool) (b : Block) :
    (p.release b).cached.Perm (b :: p.cached) :=
  cached_setFreeList p b.pinned [] [(b.capacity, b.ptr)]
    (Stacks.items_push _ b.capacity b.ptr)

theorem cached_trim (p : MemoryPool) : p.trim.cached = [] := by
  simp [cached, cachedOf, freeList, trim]

/-! ### The histories and the counters -/

@[simp] theorem allocated_lookUp : (p.lookUp pinned c).allocated = p.allocated := by
  cases pinned <;> rfl

@[simp] theorem freed_lookUp : (p.lookUp pinned c).freed = p.freed := by
  cases pinned <;> rfl

@[simp] theorem allocated_takeCached {rest : List Nat} :
    (p.takeCached pinned c rest).allocated = p.allocated := by
  cases pinned <;> rfl

@[simp] theorem freed_takeCached {rest : List Nat} :
    (p.takeCached pinned c rest).freed = p.freed := by
  cases pinned <;> rfl

@[simp] theorem allocated_release : (p.release b).allocated = p.allocated := by
  unfold release
  cases b.pinned <;> rfl

@[simp] theorem freed_release : (p.release b).freed = p.freed := by
  unfold release
  cases b.pinned <;> rfl

/-- The pool after a hit, and after an allocation. -/
def afterHit (p : MemoryPool) (b : Block) (rest : List Nat) : MemoryPool :=
  ((p.lookUp b.pinned b.capacity).takeCached b.pinned b.capacity rest).lend b.capacity

def afterGrowth (p : MemoryPool) (b : Block) : MemoryPool :=
  (((p.lookUp b.pinned b.capacity).record b).countMalloc b.pinned).lend b.capacity

theorem cached_afterHit {rest : List Nat}
    (h : (p.freeList b.pinned).get b.capacity = rest ++ [b.ptr]) :
    p.cached.Perm (b :: (p.afterHit b rest).cached) :=
  (cached_lookUp p b.pinned b.capacity).symm.trans
    (cached_takeCached ((freeList_lookUp p b.pinned b.capacity).trans h))

theorem cached_afterGrowth : (p.afterGrowth b).cached.Perm p.cached := by
  have hsame : (p.afterGrowth b).cached = (p.lookUp b.pinned b.capacity).cached := by
    unfold afterGrowth
    cases b.pinned <;> rfl
  rw [hsame]
  exact cached_lookUp p b.pinned b.capacity

theorem allocated_afterGrowth : (p.afterGrowth b).allocated = p.allocated ++ [b] := by
  unfold afterGrowth
  cases b.pinned <;> rfl

theorem freed_afterGrowth : (p.afterGrowth b).freed = p.freed := by
  unfold afterGrowth
  cases b.pinned <;> rfl

theorem stats_afterGrowth :
    (p.afterGrowth b).stats.bytesInUse = sizeAdd p.stats.bytesInUse b.capacity ∧
      (p.afterGrowth b).stats.bytesCached = p.stats.bytesCached ∧
      (p.afterGrowth b).stats.liveHandles = sizeAdd p.stats.liveHandles 1 ∧
      (p.afterGrowth b).stats.cudamallocCalls =
        if b.pinned then p.stats.cudamallocCalls else sizeAdd p.stats.cudamallocCalls 1 := by
  unfold afterGrowth
  cases b.pinned <;> exact ⟨rfl, rfl, rfl, rfl⟩

end MemoryPool

/-! ### What a step can do -/

/-- An address the allocator can give, and a capacity `bucket_for` returns. -/
def Block.Valid (b : Block) : Prop :=
  0 < b.ptr ∧ b.ptr < 2 ^ 64 ∧ ∃ bytes, BucketReturns bytes b.capacity

/-- The free list a block belongs to. -/
def Block.bucket (b : Block) : Bool × Nat := (b.pinned, b.capacity)

namespace PoolState

open MemoryPool

variable {s t : PoolState} {e : Event}

/-- Everything a step can do to the pool and to the blocks of the handles. -/
inductive Move (s t : PoolState) (e : Event) : Prop where
  | kept (hpool : t.pool = s.pool) (hlive : t.live.Perm s.live)
  | refused (pinned : Bool) (c : Nat) (hpool : t.pool = s.pool.lookUp pinned c)
    (hlive : t.live.Perm s.live)
  | hit (b : Block) (rest : List Nat)
    (hfree : (s.pool.freeList b.pinned).get b.capacity = rest ++ [b.ptr])
    (hpool : t.pool = s.pool.afterHit b rest) (hlive : t.live.Perm (b :: s.live))
  | grown (b : Block) (hb : b.Valid) (hfree : (s.pool.freeList b.pinned).get b.capacity = [])
    (hfresh : ∀ x ∈ s.pool.outstanding, x.ptr ≠ b.ptr) (hpool : t.pool = s.pool.afterGrowth b)
    (hlive : t.live.Perm (b :: s.live))
  | gaveBack (b : Block) (hpool : t.pool = s.pool.release b) (hlive : s.live.Perm (b :: t.live))
  | trimmed (he : e = .trim) (hpool : t.pool = s.pool.trim) (hlive : t.live.Perm s.live)

/-- A new handle's block is live after the others. -/
private theorem live_snoc (s : PoolState) (h : PooledBuffer) :
    (s.handles ++ [h]).filterMap (·.block?) = s.live ++ h.block?.toList := by
  rw [List.filterMap_append, live, List.filterMap_cons]
  cases h.block? <;> rfl

/-- A live handle of an acquired block. -/
private theorem live_acquired {b : Block} {bytes : Nat} {p : MemoryPool} (hb : 0 < b.ptr) :
    ({ pool := p, handles := s.handles ++ [⟨true, b.ptr, b.capacity, bytes, b.pinned⟩] } :
      PoolState).live.Perm (b :: s.live) := by
  have hblock : (⟨true, b.ptr, b.capacity, bytes, b.pinned⟩ : PooledBuffer).block? = some b :=
    if_pos ⟨rfl, Nat.pos_iff_ne_zero.mp hb⟩
  rw [live, live_snoc, hblock]
  exact List.perm_append_singleton b s.live

theorem acquire_move {pinned : Bool} {bytes : Nat} {env : AllocEnv}
    (hv : ∀ b ∈ s.pool.cached, b.Valid) (h : s.acquire pinned bytes env = some t) : Move s t e := by
  unfold acquire at h
  split at h
  · next hsound =>
    obtain ⟨⟨r, q⟩, hout, rfl⟩ := Option.map_eq_some_iff.mp h
    cases acquire_cases hout with
    | @hit c ptr rest hc hfree =>
      have hmem : (⟨ptr, c, pinned⟩ : Block) ∈ s.pool.cached := by
        rw [mem_cached, hfree]
        exact List.mem_append_right _ List.mem_cons_self
      exact .hit ⟨ptr, c, pinned⟩ rest hfree rfl
        (live_acquired (b := ⟨ptr, c, pinned⟩) (hv _ hmem).1)
    | @grown c ptr hc hfree hptr =>
      rw [sound, hptr] at hsound
      obtain ⟨hpos, hlt, hfresh⟩ := of_decide_eq_true hsound
      exact .grown ⟨ptr, c, pinned⟩ ⟨hpos, hlt, bytes, hc⟩ hfree hfresh rfl
        (live_acquired (b := ⟨ptr, c, pinned⟩) hpos)
    | @failed c hc hfree e => exact .refused pinned c rfl (.refl _)
  · cases h

/-- A handle gave up its block, if it had one. -/
private theorem release_move {h : PooledBuffer} (hpool : t.pool = s.pool.releaseHandle h)
    (hlive : (h.block?.toList ++ t.live).Perm s.live) : Move s t e := by
  unfold releaseHandle at hpool
  cases hb : h.block? with
  | none =>
    rw [hb] at hpool hlive
    exact .kept hpool hlive
  | some b =>
    rw [hb] at hpool hlive
    exact .gaveBack b hpool hlive.symm

private theorem live_release {i : Nat} {h : PooledBuffer} (hi : s.handles[i]? = some h) :
    (h.block?.toList ++ (s.handles.set i h.released).filterMap (·.block?)).Perm s.live :=
  filterMap_set_perm hi

/-- A handle that is moved from leaves its block to the other one. -/
private theorem live_moved {hs : List PooledBuffer} {j : Nat} {h : PooledBuffer}
    (hj : hs[j]? = some h) :
    (h.block?.toList ++ (hs.set j {}).filterMap (·.block?)).Perm (hs.filterMap (·.block?)) :=
  filterMap_set_perm hj

theorem moveAssign_move {i j : Nat} (h : s.step (.moveAssign i j) = some t) :
    Move s t (.moveAssign i j) := by
  rw [step] at h
  split at h
  · obtain ⟨_, -, rfl⟩ := Option.map_eq_some_iff.mp h
    exact .kept rfl (.refl _)
  · next hij =>
    obtain ⟨hj, hgetj, h⟩ := Option.bind_eq_some_iff.mp h
    obtain ⟨m, hm, rfl⟩ := Option.map_eq_some_iff.mp h
    obtain ⟨hi, hgeti, rfl⟩ := Option.map_eq_some_iff.mp hm
    refine release_move (h := hi) rfl ?_
    -- handle `i` takes the block that handle `j` then gives up
    have hset : (s.handles.set i hi.released).set i hj = s.handles.set i hj := List.set_set ..
    have hold : (s.handles.set i hj)[j]? = some hj := by rw [List.getElem?_set_ne hij, hgetj]
    have htake := filterMap_set_perm (b := hj) (f := PooledBuffer.block?) hgeti
    have hgive := live_moved hold
    rw [live, hset]
    refine (List.perm_append_left_iff hj.block?.toList).mp ?_
    exact (List.perm_append_comm_assoc _ _ _).trans ((hgive.append_left _).trans htake)

/-- Every step is one of the moves. -/
theorem step_move (hv : ∀ b ∈ s.pool.cached, b.Valid) (h : s.step e = some t) : Move s t e := by
  cases e with
  | acquireDevice bytes env => exact acquire_move hv h
  | acquirePinned bytes env => exact acquire_move hv h
  | construct =>
    cases h
    refine .kept rfl ?_
    rw [live, live_snoc]
    simp [PooledBuffer.block?]
  | moveConstruct j =>
    obtain ⟨h', hj, rfl⟩ := Option.map_eq_some_iff.mp h
    refine .kept rfl ?_
    rw [live, List.filterMap_append]
    refine List.perm_append_comm.trans ?_
    have hone : [h'].filterMap (·.block?) = h'.block?.toList := by
      rw [List.filterMap_cons]
      cases h'.block? <;> rfl
    rw [hone]
    exact live_moved hj
  | moveAssign i j => exact moveAssign_move h
  | destroy i =>
    obtain ⟨h', hi, rfl⟩ := Option.map_eq_some_iff.mp h
    exact release_move rfl (live_release hi)
  | trim =>
    cases h
    exact .trimmed rfl rfl (.refl _)

/-- A handle's capacity holds what was requested. -/
theorem fits_step (hfits : ∀ h ∈ s.handles, h.requested ≤ h.capacity) (h : s.step e = some t) :
    ∀ h ∈ t.handles, h.requested ≤ h.capacity := by
  have hacquire {pinned : Bool} {bytes : Nat} {env : AllocEnv}
      (h : s.acquire pinned bytes env = some t) : ∀ h ∈ t.handles, h.requested ≤ h.capacity := by
    unfold acquire at h
    split at h
    · obtain ⟨⟨r, q⟩, hout, rfl⟩ := Option.map_eq_some_iff.mp h
      cases acquire_cases hout with
      | hit hc hfree => exact forall_mem_snoc hfits hc.le
      | grown hc hfree hptr => exact forall_mem_snoc hfits hc.le
      | failed hc hfree e => exact hfits
    · cases h
  have hempty : ({} : PooledBuffer).requested ≤ ({} : PooledBuffer).capacity := Nat.le_refl 0
  cases e with
  | acquireDevice bytes env => exact hacquire h
  | acquirePinned bytes env => exact hacquire h
  | construct =>
    cases h
    exact forall_mem_snoc hfits hempty
  | moveConstruct j =>
    obtain ⟨h', hj, rfl⟩ := Option.map_eq_some_iff.mp h
    exact forall_mem_snoc (forall_mem_set hfits hempty) (hfits h' (List.mem_of_getElem? hj))
  | moveAssign i j =>
    rw [step] at h
    split at h
    · obtain ⟨_, -, rfl⟩ := Option.map_eq_some_iff.mp h
      exact hfits
    · obtain ⟨hj, hgetj, h⟩ := Option.bind_eq_some_iff.mp h
      obtain ⟨m, hm, rfl⟩ := Option.map_eq_some_iff.mp h
      obtain ⟨hi, hgeti, rfl⟩ := Option.map_eq_some_iff.mp hm
      have hreleased := forall_mem_set (i := i) (b := hi.released) hfits (Nat.le_refl 0)
      exact forall_mem_set (forall_mem_set hreleased (hfits hj (List.mem_of_getElem? hgetj))) hempty
  | destroy i =>
    obtain ⟨h', hi, rfl⟩ := Option.map_eq_some_iff.mp h
    exact forall_mem_set hfits (Nat.le_refl 0)
  | trim =>
    cases h
    exact hfits

/-! ### The books -/

/-- The ledger of a pool and its handles. -/
def books (s : PoolState) : Ledger Block := ⟨s.live, s.pool.cached, s.pool.freed, s.pool.allocated⟩

/-- The counters count, modulo `2 ^ 64`, what the books hold. -/
structure Counted (s : PoolState) : Prop where
  inUse : s.pool.stats.bytesInUse = (s.books.lent.map Block.capacity).sum % 2 ^ 64
  cached : s.pool.stats.bytesCached = (s.books.kept.map Block.capacity).sum % 2 ^ 64
  handles : s.pool.stats.liveHandles = s.books.lent.card % 2 ^ 64
  mallocs : s.pool.stats.cudamallocCalls = s.books.made.countP (·.pinned = false) % 2 ^ 64

/-- What every state of a pool satisfies. -/
structure Inv (s : PoolState) : Prop where
  balanced : s.books.Balanced Block.ptr
  valid : ∀ b ∈ s.pool.allocated, b.Valid
  counted : Counted s
  fits : ∀ h ∈ s.handles, h.requested ≤ h.capacity

theorem inv_empty : Inv {} where
  balanced := Ledger.balanced_empty Block.ptr
  valid := fun _ hb ↦ absurd hb List.not_mem_nil
  counted := ⟨rfl, rfl, rfl, rfl⟩
  fits := fun _ hh ↦ absurd hh List.not_mem_nil

/-- The blocks in circulation are those not yet freed. -/
theorem outstanding_eq (h : s.books.Balanced Block.ptr) :
    s.pool.outstanding = s.books.lent + s.books.kept := by
  have htotal : s.books.lent + s.books.kept + (s.pool.freed : Multiset Block) = s.pool.allocated :=
    h.total
  rw [outstanding, ← htotal, Multiset.add_sub_cancel_right]

/-- A sum of capacities with one block more. -/
private theorem sum_cons (b : Block) (bs : Multiset Block) :
    ((b ::ₘ bs).map Block.capacity).sum = (bs.map Block.capacity).sum + b.capacity := by
  rw [Multiset.map_cons, Multiset.sum_cons, Nat.add_comm]

/-- Freeing the cached blocks one by one takes their capacities off the counter. -/
private theorem foldl_sizeSub (bs : List Block) {n : Nat} (h : (bs.map Block.capacity).sum ≤ n) :
    bs.foldl (fun n b ↦ sizeSub n b.capacity) (n % 2 ^ 64) =
      (n - (bs.map Block.capacity).sum) % 2 ^ 64 := by
  induction bs generalizing n with
  | nil => rfl
  | cons b bs ih =>
    rw [List.map_cons, List.sum_cons] at h
    rw [List.foldl_cons, sizeSub_mod (by omega), ih (by omega), List.map_cons, List.sum_cons,
      Nat.sub_sub]

/-- A counter that grows, or shrinks, with the capacities it counts. -/
private theorem sizeAdd_sum {n : Nat} {b : Block} {bs cs : Multiset Block} (h : cs = b ::ₘ bs)
    (hn : n = (bs.map Block.capacity).sum % 2 ^ 64) :
    sizeAdd n b.capacity = (cs.map Block.capacity).sum % 2 ^ 64 := by
  rw [h, sum_cons, hn, sizeAdd_mod]

private theorem sizeSub_sum {n : Nat} {b : Block} {bs cs : Multiset Block} (h : cs = b ::ₘ bs)
    (hn : n = (cs.map Block.capacity).sum % 2 ^ 64) :
    sizeSub n b.capacity = (bs.map Block.capacity).sum % 2 ^ 64 := by
  rw [hn, h, sum_cons, sizeSub_mod (Nat.le_add_left _ _), Nat.add_sub_cancel]

private theorem sizeAdd_card {n : Nat} {b : Block} {bs cs : Multiset Block} (h : cs = b ::ₘ bs)
    (hn : n = bs.card % 2 ^ 64) : sizeAdd n 1 = cs.card % 2 ^ 64 := by
  rw [h, Multiset.card_cons, hn, sizeAdd_mod]

private theorem sizeSub_card {n : Nat} {b : Block} {bs cs : Multiset Block} (h : cs = b ::ₘ bs)
    (hn : n = cs.card % 2 ^ 64) : sizeSub n 1 = bs.card % 2 ^ 64 := by
  rw [hn, h, Multiset.card_cons, sizeSub_mod (Nat.le_add_left _ _), Nat.add_sub_cancel]

/-- The pool refines the ledger, a new block being allocated only when the cache has none of its
bucket, and the counters follow. -/
theorem Move.booked (hinv : Inv s) (h : Move s t e) :
    Ledger.Step Block.ptr Block.bucket s.books t.books ∧ Counted t := by
  obtain ⟨hin, hcached, hhandles, hmallocs⟩ := hinv.counted
  cases h with
  | kept hpool hlive =>
    have hsame : t.books = s.books := by rw [books, books, hpool, Multiset.coe_eq_coe.mpr hlive]
    refine ⟨.idle hsame, ?_, ?_, ?_, ?_⟩ <;> rw [hpool, hsame]
    exacts [hin, hcached, hhandles, hmallocs]
  | refused pinned c hpool hlive =>
    have hsame : t.books = s.books := by
      rw [books, books, hpool, Multiset.coe_eq_coe.mpr hlive,
        Multiset.coe_eq_coe.mpr (cached_lookUp s.pool pinned c), allocated_lookUp, freed_lookUp]
    refine ⟨.idle hsame, ?_, ?_, ?_, ?_⟩ <;> rw [hpool, hsame]
    exacts [hin, hcached, hhandles, hmallocs]
  | hit b rest hfree hpool hlive =>
    have hlent : t.books.lent = b ::ₘ s.books.lent := Multiset.coe_eq_coe.mpr hlive
    have hkept : s.books.kept = b ::ₘ t.books.kept := by
      rw [books, books, hpool]
      exact Multiset.coe_eq_coe.mpr (cached_afterHit hfree)
    have hgone : t.books.gone = s.books.gone := by
      rw [books, books, hpool]
      simp [afterHit, lend]
    have hmade : t.books.made = s.books.made := by
      rw [books, books, hpool]
      simp [afterHit, lend]
    refine ⟨.reuse b hkept hlent hgone hmade, ?_, ?_, ?_, ?_⟩
    · rw [hpool]
      exact sizeAdd_sum hlent hin
    · rw [hpool]
      exact sizeSub_sum hkept hcached
    · rw [hpool]
      exact sizeAdd_card hlent hhandles
    · rw [hpool, hmade]
      exact hmallocs
  | grown b hb hfree hfresh hpool hlive =>
    have hlent : t.books.lent = b ::ₘ s.books.lent := Multiset.coe_eq_coe.mpr hlive
    have hkept : t.books.kept = s.books.kept := by
      rw [books, books, hpool]
      exact Multiset.coe_eq_coe.mpr cached_afterGrowth
    have hgone : t.books.gone = s.books.gone := by rw [books, books, hpool, freed_afterGrowth]
    have hmade : t.books.made = b ::ₘ s.books.made := by
      rw [books, books, hpool, allocated_afterGrowth]
      exact Multiset.coe_eq_coe.mpr (List.perm_append_singleton _ _)
    have hkey : b.ptr ∉ (s.books.lent + s.books.kept).map Block.ptr := by
      rw [← outstanding_eq hinv.balanced, Multiset.mem_map]
      rintro ⟨x, hx, hptr⟩
      exact hfresh x hx hptr
    have hbucket : b.bucket ∉ s.books.kept.map Block.bucket := by
      rw [Multiset.mem_map]
      rintro ⟨x, hx, hsame⟩
      obtain ⟨hpinned, hcapacity⟩ := Prod.mk.inj hsame
      have hmem := mem_cached.mp (Multiset.mem_coe.mp hx)
      rw [hpinned, hcapacity, hfree] at hmem
      cases hmem
    obtain ⟨hin', hcached', hhandles', hmallocs'⟩ := stats_afterGrowth (p := s.pool) (b := b)
    refine ⟨.make b hkey hbucket hlent hkept hgone hmade, ?_, ?_, ?_, ?_⟩
    · rw [hpool, hin']
      exact sizeAdd_sum hlent hin
    · rw [hpool, hcached', hkept]
      exact hcached
    · rw [hpool, hhandles']
      exact sizeAdd_card hlent hhandles
    · rw [hpool, hmallocs', hmade, Multiset.countP_cons]
      cases b.pinned with
      | true => simpa using hmallocs
      | false => rw [if_neg Bool.false_ne_true, if_pos rfl, hmallocs, sizeAdd_mod]
  | gaveBack b hpool hlive =>
    have hlent : s.books.lent = b ::ₘ t.books.lent := Multiset.coe_eq_coe.mpr hlive
    have hkept : t.books.kept = b ::ₘ s.books.kept := by
      rw [books, books, hpool]
      exact Multiset.coe_eq_coe.mpr (cached_release s.pool b)
    have hgone : t.books.gone = s.books.gone := by rw [books, books, hpool, freed_release]
    have hmade : t.books.made = s.books.made := by rw [books, books, hpool, allocated_release]
    refine ⟨.giveBack b hlent hkept hgone hmade, ?_, ?_, ?_, ?_⟩
    · rw [hpool]
      exact sizeSub_sum hlent hin
    · rw [hpool]
      exact sizeAdd_sum hkept hcached
    · rw [hpool]
      exact sizeSub_card hlent hhandles
    · rw [hpool, hmade]
      exact hmallocs
  | trimmed _ hpool hlive =>
    have hlent : t.books.lent = s.books.lent := Multiset.coe_eq_coe.mpr hlive
    have hkept : t.books.kept = 0 := by
      rw [books, hpool, cached_trim]
      rfl
    have hgone : t.books.gone = s.books.gone + s.books.kept := by
      rw [books, books, hpool]
      exact (Multiset.coe_add _ _).symm
    have hmade : t.books.made = s.books.made := by
      rw [books, books, hpool]
      rfl
    refine ⟨.discard hlent hkept hgone hmade, ?_, ?_, ?_, ?_⟩
    · rw [hpool, hlent]
      exact hin
    · have hsum : (s.books.kept.map Block.capacity).sum = (s.pool.cached.map Block.capacity).sum :=
        rfl
      rw [hsum] at hcached
      rw [hpool, hkept]
      change s.pool.cached.foldl _ s.pool.stats.bytesCached = _
      rw [hcached, foldl_sizeSub _ (Nat.le_refl _), Nat.sub_self]
      rfl
    · rw [hpool, hlent]
      exact hhandles
    · rw [hpool, hmade]
      exact hmallocs

/-- Only an allocation brings a new block. -/
theorem Move.valid (hv : ∀ b ∈ s.pool.allocated, b.Valid) (h : Move s t e) :
    ∀ b ∈ t.pool.allocated, b.Valid := by
  cases h with
  | kept hpool _ =>
    rw [hpool]
    exact hv
  | refused pinned c hpool _ =>
    rw [hpool, allocated_lookUp]
    exact hv
  | hit b rest _ hpool _ =>
    have hsame : (s.pool.afterHit b rest).allocated = s.pool.allocated := by simp [afterHit, lend]
    rw [hpool, hsame]
    exact hv
  | grown b hb _ _ hpool _ =>
    rw [hpool, allocated_afterGrowth]
    exact forall_mem_snoc hv hb
  | gaveBack b hpool _ =>
    rw [hpool, allocated_release]
    exact hv
  | trimmed _ hpool _ =>
    rw [hpool]
    exact hv

/-- Only `trim` frees. -/
theorem Move.gone (h : Move s t e) (he : e ≠ .trim) : t.books.gone = s.books.gone := by
  cases h with
  | kept hpool _ => rw [books, books, hpool]
  | refused pinned c hpool _ => rw [books, books, hpool, freed_lookUp]
  | hit b rest _ hpool _ =>
    rw [books, books, hpool]
    simp [afterHit, lend]
  | grown b _ _ _ hpool _ => rw [books, books, hpool, freed_afterGrowth]
  | gaveBack b hpool _ => rw [books, books, hpool, freed_release]
  | trimmed htrim _ _ => exact absurd htrim he

theorem Inv.mem_allocated (h : Inv s) {b : Block} (hb : b ∈ s.books.lent + s.books.kept) :
    b ∈ s.pool.allocated := by
  have hmade : b ∈ s.books.made := by
    rw [← h.balanced.total]
    exact Multiset.mem_add.mpr (.inl hb)
  exact Multiset.mem_coe.mp hmade

theorem Inv.move (hinv : Inv s) (h : s.step e = some t) : Move s t e := by
  refine step_move ?_ h
  intro b hb
  exact hinv.valid b (hinv.mem_allocated (Multiset.mem_add.mpr (.inr hb)))

/-- One operation keeps the invariant. -/
theorem inv_step (hinv : Inv s) (h : s.step e = some t) : Inv t := by
  have hmove := hinv.move h
  obtain ⟨hledger, hcounted⟩ := hmove.booked hinv
  exact ⟨hinv.balanced.step hledger, hmove.valid hinv.valid, hcounted, fits_step hinv.fits h⟩

theorem inv_exec {es : List Event} (h : exec step {} es = some s) : Inv s :=
  exec_preserves (fun _ _ _ hinv ht ↦ inv_step hinv ht) h inv_empty

/-! ### Handles as locals -/

section Locals

variable {p q : MemoryPool} {hs : List PooledBuffer} {h : PooledBuffer} {pinned : Bool}
  {env : AllocEnv} {bytes : Nat}

private theorem inv_of_acquire (hinv : Inv s) (ht : s.acquire pinned bytes env = some t) :
    Inv t := by
  cases pinned with
  | true => exact inv_step (e := .acquirePinned bytes env) hinv ht
  | false => exact inv_step (e := .acquireDevice bytes env) hinv ht

/-- A successful acquisition adds its handle to those held. -/
theorem Inv.acquired (hinv : Inv ⟨p, hs⟩) (hsound : p.sound env = true)
    (hout : (MemoryPool.acquire pinned env bytes).outcome p = some (.ok h, q)) :
    Inv ⟨q, hs ++ [h]⟩ := by
  apply inv_of_acquire hinv
  rw [acquire, if_pos hsound, hout]
  rfl

/-- A failed one leaves them as they are. -/
theorem Inv.refused (hinv : Inv ⟨p, hs⟩) (hsound : p.sound env = true) {ex : CppException}
    (hout : (MemoryPool.acquire pinned env bytes).outcome p = some (.error ex, q)) :
    Inv ⟨q, hs⟩ := by
  apply inv_of_acquire hinv
  rw [acquire, if_pos hsound, hout]
  rfl

/-- The handle acquired last is destroyed. -/
theorem Inv.released (hinv : Inv ⟨p, hs ++ [h]⟩) : Inv ⟨p.releaseHandle h, hs⟩ := by
  have hstep : step ⟨p, hs ++ [h]⟩ (.destroy hs.length) =
      some ⟨p.releaseHandle h, hs ++ [h.released]⟩ := by
    simp [step, releaseAt]
  have hnext := inv_step hinv hstep
  have hlive : live ⟨p.releaseHandle h, hs ++ [h.released]⟩ = live ⟨p.releaseHandle h, hs⟩ := by
    rw [live, live, List.filterMap_append]
    exact List.append_nil _
  have hbooks : books ⟨p.releaseHandle h, hs ++ [h.released]⟩ = books ⟨p.releaseHandle h, hs⟩ := by
    rw [books, books, hlive]
  refine ⟨hbooks ▸ hnext.balanced, hnext.valid, ?_, ?_⟩
  · obtain ⟨hin, hcached, hhandles, hmallocs⟩ := hnext.counted
    rw [hbooks] at hin hcached hhandles hmallocs
    exact ⟨hin, hcached, hhandles, hmallocs⟩
  · exact fun x hx ↦ hnext.fits x (List.mem_append_left _ hx)

/-- A handle acquired has a block, of the size asked for. -/
theorem Inv.block_acquired (hinv : Inv ⟨p, hs⟩) (hsound : p.sound env = true)
    (hout : (MemoryPool.acquire pinned env bytes).outcome p = some (.ok h, q)) :
    bytes ≤ h.capacity ∧ 0 < h.ptr := by
  cases acquire_cases hout with
  | @hit c ptr rest hc hfree =>
    have hmem : (⟨ptr, c, pinned⟩ : Block) ∈ p.cached := by
      rw [mem_cached, hfree]
      exact List.mem_concat_self
    have hvalid := hinv.valid _ (hinv.mem_allocated (Multiset.mem_add.mpr (.inr hmem)))
    exact ⟨hc.le, hvalid.1⟩
  | @grown c ptr hc hfree hptr =>
    rw [sound, hptr, decide_eq_true_eq] at hsound
    exact ⟨hc.le, hsound.1⟩

end Locals

/-! ### Exact counters -/

/-- Buckets are not empty, so there are fewer blocks than bytes in them. -/
private theorem length_le_capacities {bs : List Block} (h : ∀ b ∈ bs, b.Valid) :
    bs.length ≤ (bs.map Block.capacity).sum := by
  induction bs with
  | nil => exact Nat.le_refl 0
  | cons b bs ih =>
    obtain ⟨-, -, bytes, hbytes⟩ := h b List.mem_cons_self
    have hfloor := hbytes.floor_le
    have hrest := ih fun x hx ↦ h x (List.mem_cons_of_mem b hx)
    rw [List.length_cons, List.map_cons, List.sum_cons]
    omega

/-- A free list has blocks of its own kind and capacity, and their addresses belong to no other
block. -/
theorem Inv.cached_own (hinv : Inv s) {pinned : Bool} {c ptr : Nat}
    (h : ptr ∈ (s.pool.freeList pinned).get c) :
    ⟨ptr, c, pinned⟩ ∈ s.pool.outstanding ∧
      ∀ b ∈ s.pool.outstanding, b.ptr = ptr → b = ⟨ptr, c, pinned⟩ := by
  have hmem : (⟨ptr, c, pinned⟩ : Block) ∈ s.books.lent + s.books.kept :=
    Multiset.mem_add.mpr (.inr (Multiset.mem_coe.mpr (mem_cached.mpr h)))
  rw [outstanding_eq hinv.balanced]
  refine ⟨hmem, ?_⟩
  intro b hb hptr
  exact Multiset.inj_on_of_nodup_map hinv.balanced.distinct b hb _ hmem hptr

/-- What is true of every pool and its handles, however they were used: the blocks of the handles
and the cached ones are distinct, each cached one in the free list of the kind and capacity it was
allocated with, each handle has the room it was asked for, and the counters are exact as long as the
capacities add up to less than `2 ^ 64`. After the last handle, `trim` and the destructor leave
every allocation freed exactly once. -/
theorem pool_keeps_its_books {es : List Event} {s : PoolState} (h : exec step {} es = some s)
    (hsum : (s.live.map Block.capacity).sum + (s.pool.cached.map Block.capacity).sum < 2 ^ 64) :
    ((s.live ++ s.pool.cached).map Block.ptr).Nodup ∧
      (∀ pinned c ptr, ptr ∈ (s.pool.freeList pinned).get c →
        ⟨ptr, c, pinned⟩ ∈ s.pool.outstanding ∧
          ∀ b ∈ s.pool.outstanding, b.ptr = ptr → b = ⟨ptr, c, pinned⟩) ∧
      (∀ b ∈ s.live, b ∈ s.pool.outstanding) ∧
      (∀ x ∈ s.handles, x.requested ≤ x.capacity) ∧
      s.pool.stats.liveHandles = s.live.length ∧
      s.pool.stats.bytesInUse = (s.live.map Block.capacity).sum ∧
      s.pool.stats.bytesCached = (s.pool.cached.map Block.capacity).sum ∧
      (s.live ++ s.pool.cached ++ s.pool.freed).Perm s.pool.allocated ∧
      (s.live = [] → ∃ q, s.pool.trim.destroy = some q ∧ q.allocated = s.pool.allocated ∧
        q.freed.Perm q.allocated) := by
  have hinv := inv_exec h
  have htotal : (s.live ++ s.pool.cached ++ s.pool.freed).Perm s.pool.allocated := by
    rw [← Multiset.coe_eq_coe, ← Multiset.coe_add, ← Multiset.coe_add]
    exact hinv.balanced.total
  have hlive (b : Block) (hb : b ∈ s.live) : b ∈ s.books.lent + s.books.kept :=
    Multiset.mem_add.mpr (.inl hb)
  have hlength := length_le_capacities fun b hb ↦ hinv.valid b (hinv.mem_allocated (hlive b hb))
  have hhandles : s.pool.stats.liveHandles = s.live.length := by
    rw [hinv.counted.handles]
    exact Nat.mod_eq_of_lt (show s.live.length < 2 ^ 64 by omega)
  refine ⟨?_, fun pinned c ptr hptr ↦ hinv.cached_own hptr, ?_, hinv.fits, hhandles, ?_, ?_, htotal,
    ?_⟩
  · rw [← Multiset.coe_nodup, ← Multiset.map_coe, ← Multiset.coe_add]
    exact hinv.balanced.distinct
  · intro b hb
    rw [outstanding_eq hinv.balanced]
    exact hlive b hb
  · rw [hinv.counted.inUse]
    exact Nat.mod_eq_of_lt (show (s.live.map Block.capacity).sum < 2 ^ 64 by omega)
  · rw [hinv.counted.cached]
    exact Nat.mod_eq_of_lt (show (s.pool.cached.map Block.capacity).sum < 2 ^ 64 by omega)
  · intro hnone
    have hzero : s.pool.trim.stats.liveHandles = 0 := by
      change s.pool.stats.liveHandles = 0
      rw [hhandles, hnone, List.length_nil]
    refine ⟨s.pool.trim.trim, ?_, rfl, ?_⟩
    · rw [destroy, if_neg (not_not_intro hzero)]
    · change ((s.pool.freed ++ s.pool.cached) ++ s.pool.trim.cached).Perm s.pool.allocated
      rw [cached_trim, List.append_nil]
      rw [hnone, List.nil_append] at htotal
      exact List.perm_append_comm.trans htotal

/-- A pool that lends, takes back, lends again, moves over a live handle and refuses an
allocation. -/
private def usedPool : List Event :=
  [.acquireDevice 5000 { answer := .ok 1 }, .acquirePinned 100 { answer := .ok 2 },
    .moveAssign 0 1, .moveAssign 0 0, .acquireDevice 6000 { answer := .ok 3 },
    .acquireDevice 6000 { answer := .error "out of memory" }, .moveConstruct 2, .trim]

theorem pool_keeps_its_books_usedPool :
    ∃ s, exec step {} usedPool = some s ∧ s.live.length = 2 ∧
      (s.pool.stats.liveHandles = s.live.length) ∧
      s.pool.stats.bytesInUse = (s.live.map Block.capacity).sum := by
  have hfacts : (exec step {} usedPool).map (fun s ↦
      (s.live.length, (s.live.map Block.capacity).sum + (s.pool.cached.map Block.capacity).sum)) =
      some (2, 12288) := by
    decide +kernel
  obtain ⟨s, hs, hpair⟩ := Option.map_eq_some_iff.mp hfacts
  obtain ⟨hlength, hsum⟩ := Prod.mk.inj hpair
  obtain ⟨-, -, -, -, hhandles, hin, -⟩ := pool_keeps_its_books hs (by omega)
  exact ⟨s, hs, hlength, hhandles, hin⟩

end PoolState
end InferenceServer.Memory
