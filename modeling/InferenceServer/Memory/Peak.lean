import Mathlib.Algebra.BigOperators.Finprod
import Mathlib.Data.Finset.Card
import Mathlib.Order.Interval.Finset.Nat
import InferenceServer.Memory.PoolInvariant

/-!
# Pooling allocates the peak

Library `Memory`. As long as nothing is trimmed, the pool has called `cudaMalloc` for a bucket
exactly as often as handles of that bucket were live at one time, `memory_pool.cpp:86–140`.
-/

namespace InferenceServer.Memory

open InferenceServer.Base

namespace PoolState

variable {s t : PoolState} {es : List Event}

/-- The live handles on device blocks of capacity `c`. -/
def liveDevice (c : Nat) (s : PoolState) : Nat := (s.live.map Block.bucket).count (false, c)

/-- The `cudaMalloc` calls that gave a block of capacity `c`. -/
def mallocs (c : Nat) (s : PoolState) : Nat := (s.pool.allocated.map Block.bucket).count (false, c)

/-- Without `trim` nothing is freed. -/
theorem freed_exec (hinv : Inv s) (h : exec step s es = some t) (htrim : .trim ∉ es) :
    t.books.gone = s.books.gone := by
  induction es generalizing s with
  | nil =>
    cases h
    rfl
  | cons e es ih =>
    obtain ⟨m, hm, ht⟩ := exec_cons_eq_some.mp h
    have hne : e ≠ .trim := fun he ↦ htrim (he ▸ List.mem_cons_self)
    rw [ih (inv_step hinv hm) ht fun hes ↦ htrim (List.mem_cons_of_mem e hes),
      (hinv.move hm).gone hne]

theorem mallocs_eq_peak (h : exec step {} es = some s) (htrim : .trim ∉ es) (c : Nat) :
    s.mallocs c = peak step (liveDevice c) {} es := by
  have hcount (bs : List Block) : (bs.map Block.bucket).count (false, c) =
      ((bs : Multiset Block).map Block.bucket).count (false, c) := by
    rw [Multiset.map_coe, Multiset.coe_count]
    congr 1
    exact lawful_beq_subsingleton _ _
  have hlive : liveDevice c = fun s ↦ s.books.lentOf Block.bucket (false, c) := by
    funext s
    exact hcount s.live
  have hpeak := Ledger.madeOf_eq_peak (g := (false, c)) (I := Inv) (Q := fun e ↦ e ≠ .trim)
    (fun _ _ _ hinv ht ↦ inv_step hinv ht) (fun _ hinv ↦ hinv.balanced)
    (fun _ _ _ hne hinv ht ↦ ⟨((hinv.move ht).booked hinv).1, (hinv.move ht).gone hne⟩)
    (show books {} = Ledger.empty from rfl) inv_empty h
    (fun e he hetrim ↦ htrim (hetrim ▸ he))
  rw [mallocs, hcount, hlive]
  exact hpeak

/-- Distinct addresses are fewer than `2 ^ 64`. -/
theorem Inv.length_allocated (hinv : Inv s) (hgone : s.books.gone = 0) :
    s.pool.allocated.length < 2 ^ 64 := by
  have hmade : s.books.lent + s.books.kept = s.books.made := by
    rw [← hinv.balanced.total, hgone, add_zero]
  have hnodup : (s.pool.allocated.map Block.ptr).Nodup := by
    have hdistinct := hinv.balanced.distinct
    rw [hmade] at hdistinct
    exact hdistinct
  have hsub : (s.pool.allocated.map Block.ptr).toFinset ⊆ Finset.Ioo 0 (2 ^ 64) := by
    intro n hn
    obtain ⟨b, hb, rfl⟩ := List.mem_map.mp (List.mem_toFinset.mp hn)
    obtain ⟨hpos, hlt, -⟩ := hinv.valid b hb
    exact Finset.mem_Ioo.mpr ⟨hpos, hlt⟩
  have hcard := Finset.card_le_card hsub
  rw [List.toFinset_card_of_nodup hnodup, List.length_map, Nat.card_Ioo] at hcard
  omega

/-- The capacities of the device blocks. -/
private def deviceCapacities (bs : List Block) : List Nat :=
  (bs.filter (·.pinned = false)).map Block.capacity

private theorem count_bucket (bs : List Block) (c : Nat) :
    (bs.map Block.bucket).count (false, c) = (deviceCapacities bs).count c := by
  induction bs with
  | nil => rfl
  | cons b bs ih =>
    obtain ⟨ptr, capacity, pinned⟩ := b
    cases pinned with
    | true => simpa [deviceCapacities, Block.bucket] using ih
    | false =>
      rw [deviceCapacities] at ih
      simp [deviceCapacities, Block.bucket, List.count_cons, ih]

/-- Device blocks are counted bucket by bucket. -/
private theorem countP_device (bs : List Block) :
    bs.countP (·.pinned = false) = ∑ᶠ c, (bs.map Block.bucket).count (false, c) := by
  have hsupport : (fun c ↦ (bs.map Block.bucket).count (false, c)).support ⊆
      ((deviceCapacities bs).toFinset : Set Nat) := by
    intro c hc
    rw [Function.mem_support, count_bucket] at hc
    exact Finset.mem_coe.mpr (List.mem_toFinset.mpr (List.count_pos_iff.mp (Nat.pos_of_ne_zero hc)))
  rw [finsum_eq_sum_of_support_subset _ hsupport, Finset.sum_congr rfl fun c _ ↦ count_bucket bs c,
    List.sum_toFinset_count_eq_length, deviceCapacities, List.length_map,
    List.countP_eq_length_filter]

/-- Without `trim`, `cudaMalloc` was called for each bucket as often as its handles were live at one
time at most; a call that fails gives no block and is not counted. The counter is the sum, so it
stays as it is while no bucket has more live handles than it had before. -/
theorem pool_allocates_the_peak {es : List Event} {s : PoolState} (h : exec step {} es = some s)
    (htrim : .trim ∉ es) :
    (∀ c, s.mallocs c = peak step (liveDevice c) {} es) ∧
      s.pool.stats.cudamallocCalls = ∑ᶠ c, peak step (liveDevice c) {} es ∧
      ∀ fs t, exec step s fs = some t → .trim ∉ fs →
        (∀ c, peak step (liveDevice c) s fs ≤ peak step (liveDevice c) {} es) →
        t.pool.stats.cudamallocCalls = s.pool.stats.cudamallocCalls := by
  have hsum {es : List Event} {s : PoolState} (h : exec step {} es = some s) (htrim : .trim ∉ es) :
      s.pool.stats.cudamallocCalls = ∑ᶠ c, peak step (liveDevice c) {} es := by
    have hinv := inv_exec h
    have hlt := hinv.length_allocated (freed_exec inv_empty h htrim)
    have hle : s.pool.allocated.countP (·.pinned = false) ≤ s.pool.allocated.length :=
      List.countP_le_length
    rw [← finsum_congr fun c ↦ mallocs_eq_peak h htrim c]
    calc s.pool.stats.cudamallocCalls
        = s.pool.allocated.countP (·.pinned = false) % 2 ^ 64 := hinv.counted.mallocs
      _ = s.pool.allocated.countP (·.pinned = false) := Nat.mod_eq_of_lt (by omega)
      _ = ∑ᶠ c, s.mallocs c := countP_device s.pool.allocated
  refine ⟨mallocs_eq_peak h htrim, hsum h htrim, ?_⟩
  intro fs t hfs htrim' hpeak
  have hboth : .trim ∉ es ++ fs := by
    rw [List.mem_append]
    exact not_or_intro htrim htrim'
  rw [hsum (exec_append_eq_some.mpr ⟨s, h, hfs⟩) hboth, hsum h htrim]
  apply finsum_congr
  intro c
  rw [peak_append h, Nat.max_eq_left (hpeak c)]

/-- Two buckets in use at a time. -/
private def twoBuckets : List Event :=
  [.acquireDevice 5000 { answer := .ok 1 }, .acquireDevice 100 { answer := .ok 2 },
    .acquireDevice 6000 { answer := .ok 3 }, .destroy 0, .destroy 1, .destroy 2]

theorem pool_allocates_the_peak_twoBuckets :
    ∃ s, exec step {} twoBuckets = some s ∧ s.pool.stats.cudamallocCalls = 3 ∧ s.mallocs 8192 = 2 ∧
      s.mallocs 8192 = peak step (liveDevice 8192) {} twoBuckets := by
  have hfacts : (exec step {} twoBuckets).map
      (fun s ↦ (s.pool.stats.cudamallocCalls, s.mallocs 8192)) = some (3, 2) := by
    decide +kernel
  obtain ⟨s, hs, hpair⟩ := Option.map_eq_some_iff.mp hfacts
  obtain ⟨hcalls, hmallocs⟩ := Prod.mk.inj hpair
  have htrim : .trim ∉ twoBuckets := by simp [twoBuckets]
  exact ⟨s, hs, hcalls, hmallocs, (pool_allocates_the_peak hs htrim).1 8192⟩

end PoolState
end InferenceServer.Memory
