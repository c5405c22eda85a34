import Mathlib.Algebra.Order.Ring.Int
import Mathlib.Order.Bounds.Basic

/-!
# Size buckets

Library `Memory`. `MemoryPool::bucket_for`, `cpp/src/memory/memory_pool.cpp:56–65`, with `size_t`
arithmetic. The loop doubles a counter that wraps to zero after `2 ^ 63`, and from zero it never
leaves.
-/

namespace InferenceServer.Memory

/-- The loop, `memory_pool.cpp:61–63`, for at most `fuel` tests of its condition. -/
def bucketLoop (bytes : Nat) : Nat → Nat → Option Nat
  | 0, _ => none
  | fuel + 1, bucket =>
    if bucket < bytes then bucketLoop bytes fuel (bucket * 2 % 2 ^ 64) else some bucket

/-- `bucket_for`, as far as `fuel` tests of the loop's condition go. -/
def bucketForWithin (fuel bytes : Nat) : Option Nat :=
  if bytes ≤ 4096 then some 4096 else bucketLoop bytes fuel 4096

/-- `bucket_for`; a loop that did not end after 64 rounds never does. -/
def bucketFor (bytes : Nat) : Option Nat := bucketForWithin 64 bytes

/-- `bucket_for` returns `bucket`. -/
def BucketReturns (bytes bucket : Nat) : Prop := ∃ fuel, bucketForWithin fuel bytes = some bucket

/-- The powers of two that hold the request and the smallest bucket. -/
def Holding (bytes : Nat) : Set Nat := {n | (∃ k, n = 2 ^ k) ∧ max bytes 4096 ≤ n}

/-- From a power of two on: the loop ends at the first one that is large enough. -/
private theorem bucketLoop_pow {bytes : Nat} (hb : bytes ≤ 2 ^ 63) {k fuel : Nat} (hk : 12 ≤ k)
    (hk' : k ≤ 63) (hfuel : 64 ≤ fuel + k) (hprev : k = 12 ∨ 2 ^ (k - 1) < bytes) :
    ∃ m, 12 ≤ m ∧ m ≤ 63 ∧ bucketLoop bytes fuel (2 ^ k) = some (2 ^ m) ∧ bytes ≤ 2 ^ m ∧
      (m = 12 ∨ 2 ^ (m - 1) < bytes) := by
  induction fuel generalizing k with
  | zero => omega
  | succ fuel ih =>
    rw [bucketLoop]
    split
    · next hlt =>
      have hne : k ≠ 63 := by
        rintro rfl
        omega
      have hpow : 2 ^ k * 2 % 2 ^ 64 = 2 ^ (k + 1) := by
        rw [← Nat.pow_succ, Nat.mod_eq_of_lt]
        exact Nat.pow_lt_pow_right (by decide) (by omega)
      rw [hpow]
      apply ih (by omega) (by omega) (by omega)
      right
      rwa [Nat.add_sub_cancel]
    · next hle => exact ⟨k, hk, hk', rfl, Nat.le_of_not_lt hle, hprev⟩

/-- Above `2 ^ 63` the counter wraps to zero and the loop goes on for ever. -/
private theorem bucketLoop_diverges {bytes : Nat} (hb : 2 ^ 63 < bytes) (fuel : Nat) {bucket : Nat}
    (h : bucket = 0 ∨ ∃ k ≤ 63, bucket = 2 ^ k) : bucketLoop bytes fuel bucket = none := by
  induction fuel generalizing bucket with
  | zero => rfl
  | succ fuel ih =>
    rw [bucketLoop]
    rcases h with rfl | ⟨k, hk, rfl⟩
    · rw [if_pos (by omega)]
      exact ih (.inl rfl)
    · have hle : 2 ^ k ≤ 2 ^ 63 := Nat.pow_le_pow_right (by decide) hk
      rw [if_pos (by omega)]
      apply ih
      by_cases hlast : k = 63
      · subst hlast
        exact .inl (by decide)
      · refine .inr ⟨k + 1, by omega, ?_⟩
        rw [← Nat.pow_succ, Nat.mod_eq_of_lt]
        exact Nat.pow_lt_pow_right (by decide) (by omega)

/-- What 64 rounds give for a request of at most `2 ^ 63` bytes. -/
private theorem bucketFor_pow {bytes fuel : Nat} (hb : bytes ≤ 2 ^ 63) (hfuel : 64 ≤ fuel) :
    ∃ m, 12 ≤ m ∧ m ≤ 63 ∧ bucketForWithin fuel bytes = some (2 ^ m) ∧ bytes ≤ 2 ^ m ∧
      (m = 12 ∨ 2 ^ (m - 1) < bytes) := by
  rw [bucketForWithin]
  split
  · next hle => exact ⟨12, by omega, by omega, rfl, hle, .inl rfl⟩
  · exact bucketLoop_pow hb (k := 12) (by omega) (by omega) (by omega) (.inl rfl)

/-- More rounds change no result. -/
private theorem bucketLoop_mono {bytes fuel bucket r : Nat} (n : Nat)
    (h : bucketLoop bytes fuel bucket = some r) : bucketLoop bytes (fuel + n) bucket = some r := by
  induction fuel generalizing bucket with
  | zero => cases h
  | succ fuel ih =>
    rw [Nat.add_right_comm, bucketLoop]
    rw [bucketLoop] at h
    split
    · next hlt =>
      rw [if_pos hlt] at h
      exact ih h
    · next hle => rwa [if_neg hle] at h

private theorem bucketForWithin_mono {bytes fuel r : Nat} (n : Nat)
    (h : bucketForWithin fuel bytes = some r) : bucketForWithin (fuel + n) bytes = some r := by
  rw [bucketForWithin] at h ⊢
  split
  · next hle => rwa [if_pos hle] at h
  · next hgt =>
    rw [if_neg hgt] at h
    exact bucketLoop_mono n h

/-- A power of two below another is at most its half. -/
private theorem isLeast_pow {bytes m : Nat} (hm : 12 ≤ m) (hb : bytes ≤ 2 ^ m)
    (hprev : m = 12 ∨ 2 ^ (m - 1) < bytes) : IsLeast (Holding bytes) (2 ^ m) := by
  have hfloor : 2 ^ 12 ≤ 2 ^ m := Nat.pow_le_pow_right (by decide) hm
  refine ⟨⟨⟨m, rfl⟩, max_le hb hfloor⟩, ?_⟩
  rintro n ⟨⟨k, rfl⟩, hn⟩
  have hk : max bytes 4096 ≤ 2 ^ k := hn
  apply Nat.pow_le_pow_right (by decide)
  by_contra hlt
  rcases hprev with rfl | hprev
  · have hle : 2 ^ k ≤ 2 ^ 11 := Nat.pow_le_pow_right (by decide) (by omega)
    omega
  · have hle : 2 ^ k ≤ 2 ^ (m - 1) := Nat.pow_le_pow_right (by decide) (by omega)
    omega

/-- `bucket_for` returns exactly for requests of at most `2 ^ 63` bytes. -/
theorem bucketReturns_iff {bytes : Nat} : (∃ r, BucketReturns bytes r) ↔ bytes ≤ 2 ^ 63 := by
  constructor
  · rintro ⟨r, fuel, h⟩
    by_contra hlt
    have hstart : 4096 = 0 ∨ ∃ k ≤ 63, 4096 = 2 ^ k := .inr ⟨12, by decide, by decide⟩
    rw [bucketForWithin, if_neg (by omega), bucketLoop_diverges (by omega) fuel hstart] at h
    cases h
  · intro hb
    obtain ⟨m, -, -, h, -⟩ := bucketFor_pow hb (Nat.le_refl 64)
    exact ⟨_, 64, h⟩

/-- It returns a power of two from `2 ^ 12` to `2 ^ 63`, the least that holds the request. -/
theorem BucketReturns.pow {bytes r : Nat} (h : BucketReturns bytes r) :
    ∃ m, 12 ≤ m ∧ m ≤ 63 ∧ r = 2 ^ m ∧ IsLeast (Holding bytes) r := by
  have hb := bucketReturns_iff.mp ⟨r, h⟩
  obtain ⟨fuel, h⟩ := h
  obtain ⟨m, hm, hm', hpow, hle, hprev⟩ := bucketFor_pow hb (Nat.le_add_left 64 fuel)
  rw [bucketForWithin_mono 64 h, Option.some.injEq] at hpow
  subst hpow
  exact ⟨m, hm, hm', rfl, isLeast_pow hm hle hprev⟩

theorem BucketReturns.isLeast {bytes r : Nat} (h : BucketReturns bytes r) :
    IsLeast (Holding bytes) r := by
  obtain ⟨_, -, -, -, hleast⟩ := h.pow
  exact hleast

/-- What fits the request. -/
theorem BucketReturns.le {bytes r : Nat} (h : BucketReturns bytes r) : bytes ≤ r :=
  (le_max_left _ _).trans h.isLeast.1.2

theorem BucketReturns.floor_le {bytes r : Nat} (h : BucketReturns bytes r) : 4096 ≤ r :=
  (le_max_right _ _).trans h.isLeast.1.2

/-- Sixty-four rounds decide. -/
theorem bucketFor_eq_some {bytes r : Nat} : bucketFor bytes = some r ↔ BucketReturns bytes r := by
  constructor
  · exact fun h ↦ ⟨64, h⟩
  · intro h
    obtain ⟨m, -, -, hpow, -⟩ := bucketFor_pow (bucketReturns_iff.mp ⟨r, h⟩) (Nat.le_refl 64)
    obtain ⟨fuel, hr⟩ := h
    have hone := bucketForWithin_mono fuel hpow
    rw [Nat.add_comm, bucketForWithin_mono 64 hr] at hone
    rw [bucketFor, hpow, hone]

/-- Smaller requests get smaller buckets. -/
theorem BucketReturns.mono {a b r q : Nat} (hab : a ≤ b) (ha : BucketReturns a r)
    (hb : BucketReturns b q) : r ≤ q := by
  obtain ⟨hpow, hle⟩ := hb.isLeast.1
  have hmax : max a 4096 ≤ max b 4096 := by omega
  exact ha.isLeast.2 ⟨hpow, hmax.trans hle⟩

/-- A bucket is its own bucket. -/
theorem BucketReturns.idem {bytes r : Nat} (h : BucketReturns bytes r) : BucketReturns r r := by
  obtain ⟨m, -, hm, rfl, -⟩ := h.pow
  have hle : 2 ^ m ≤ 2 ^ 63 := Nat.pow_le_pow_right (by decide) hm
  obtain ⟨q, hq⟩ := bucketReturns_iff.mpr hle
  have hself : 2 ^ m ∈ Holding (2 ^ m) := ⟨⟨m, rfl⟩, max_le (Nat.le_refl _) h.floor_le⟩
  have heq : q = 2 ^ m := Nat.le_antisymm (hq.isLeast.2 hself) hq.le
  exact heq ▸ hq

end InferenceServer.Memory
