import InferenceServer.Base.OrderStatistics
import Mathlib.Algebra.Order.Floor.Semiring
import Mathlib.Data.Rat.Floor

/-!
# Latency percentiles

Library `Benchmarks`. `benchmarks/load_test.py:109–128` in exact rational arithmetic. A reported
percentile is an observation: the one whose rank is the ceiling of the wanted share.
-/

namespace InferenceServer.Benchmarks

open InferenceServer.Base

/-- What `percentiles` reports. -/
structure Percentiles where
  p50 : ℚ
  p90 : ℚ
  p95 : ℚ
  p99 : ℚ
  mean : ℚ
  min : ℚ
  max : ℚ
  deriving DecidableEq, Repr

/-- `index` of `pct`, `load_test.py:117`. -/
def pctIndex (p : ℚ) (n : Nat) : Int := min ((n : Int) - 1) (max 0 (⌈p / 100 * n⌉ - 1))

/-- `pct`, `load_test.py:112–118`. -/
def pct (ordered : List ℚ) (p : ℚ) : ℚ :=
  if ordered = [] then 0 else ordered.getD (pctIndex p ordered.length).toNat 0

/-- `percentiles`, `load_test.py:109–128`. -/
def percentiles (valuesMs : List ℚ) : Percentiles :=
  let ordered := ordered valuesMs
  { p50 := pct ordered 50
    p90 := pct ordered 90
    p95 := pct ordered 95
    p99 := pct ordered 99
    mean := if ordered = [] then 0 else ordered.sum / ordered.length
    min := if ordered = [] then 0 else ordered.headD 0
    max := if ordered = [] then 0 else ordered.getLastD 0 }

/-! ### Ranks -/

section Rank

variable {p q : ℚ} {n : Nat}

/-- The rank of a percentile is one of the list's ranks. -/
theorem ceil_share_bounds (hp : 0 < p) (hp' : p ≤ 100) (hn : 0 < n) :
    1 ≤ ⌈p / 100 * n⌉ ∧ ⌈p / 100 * n⌉ ≤ n := by
  have hn' : (0 : ℚ) < n := by exact_mod_cast hn
  constructor
  · have hpos : 0 < p / 100 * n := by positivity
    exact Int.ceil_pos.mpr hpos
  · apply Int.ceil_le.mpr
    have hshare : p / 100 ≤ 1 := by linarith
    have hle := mul_le_mul_of_nonneg_right hshare hn'.le
    rw [one_mul] at hle
    exact_mod_cast hle

/-- On a non-empty list the clamps do nothing. -/
theorem pctIndex_eq (hp : 0 < p) (hp' : p ≤ 100) (hn : 0 < n) :
    pctIndex p n = ⌈p / 100 * n⌉ - 1 := by
  obtain ⟨hlow, hhigh⟩ := ceil_share_bounds hp hp' hn
  unfold pctIndex
  omega

theorem pctIndex_lt (p : ℚ) (hn : 0 < n) : (pctIndex p n).toNat < n := by
  unfold pctIndex
  omega

theorem pctIndex_mono (hpq : p ≤ q) (n : Nat) : pctIndex p n ≤ pctIndex q n := by
  have hn : (0 : ℚ) ≤ n := Nat.cast_nonneg n
  have hshare : p / 100 * n ≤ q / 100 * n := by gcongr
  have hceil := Int.ceil_le_ceil hshare
  unfold pctIndex
  omega

/-- The index is the last one below the wanted share of the observations. -/
theorem pctIndex_bounds (hp : 0 < p) (hp' : p ≤ 100) (hn : 0 < n) :
    ((pctIndex p n).toNat : ℚ) < p * n / 100 ∧ p * n / 100 ≤ ((pctIndex p n).toNat + 1 : Nat) := by
  obtain ⟨hlow, -⟩ := ceil_share_bounds hp hp' hn
  have hindex : ((pctIndex p n).toNat : Int) = ⌈p / 100 * n⌉ - 1 := by
    rw [pctIndex_eq hp hp' hn]
    omega
  have hcast : ((pctIndex p n).toNat : ℚ) = (⌈p / 100 * n⌉ : ℚ) - 1 := by exact_mod_cast hindex
  have hshare : p * n / 100 = p / 100 * n := by ring
  have hceil := Int.ceil_lt_add_one (p / 100 * n)
  have hle := Int.le_ceil (p / 100 * n)
  push_cast
  rw [hshare, hcast]
  constructor
  · linarith
  · linarith

end Rank

section Reported

variable {values : List ℚ} {p q : ℚ}

theorem ordered_ne_nil (h : values ≠ []) : ordered values ≠ [] := by
  intro hnil
  apply h
  rw [← List.length_eq_zero_iff, ← length_ordered, hnil]
  rfl

theorem pos_of_ne_nil (h : values ≠ []) : 0 < (ordered values).length :=
  List.length_pos_iff.mpr (ordered_ne_nil h)

theorem pct_eq (h : values ≠ []) (p : ℚ) :
    ∃ hi : (pctIndex p (ordered values).length).toNat < (ordered values).length,
      pct (ordered values) p = (ordered values)[(pctIndex p (ordered values).length).toNat] := by
  have hi := pctIndex_lt p (pos_of_ne_nil h)
  refine ⟨hi, ?_⟩
  rw [pct, if_neg (ordered_ne_nil h), List.getD_eq_getElem?_getD, List.getElem?_eq_getElem hi]
  rfl

/-- A reported percentile is a nearest-rank observation. -/
theorem pct_nearest_rank (h : values ≠ []) (hp : 0 < p) (hp' : p ≤ 100) :
    pct (ordered values) p ∈ values ∧
      p * values.length / 100 ≤ values.countP (fun x ↦ decide (x ≤ pct (ordered values) p)) ∧
      (values.countP (fun x ↦ decide (x < pct (ordered values) p)) : ℚ) <
        p * values.length / 100 := by
  obtain ⟨hi, heq⟩ := pct_eq h p
  obtain ⟨hlow, hhigh⟩ := pctIndex_bounds hp hp' (pos_of_ne_nil h)
  rw [heq, ← length_ordered values]
  refine ⟨getElem_ordered_mem hi, ?_, ?_⟩
  · have hcount : ((pctIndex p (ordered values).length).toNat + 1 : Nat) ≤ _ := lt_countP_le hi
    exact hhigh.trans (Nat.cast_le.mpr hcount)
  · exact lt_of_le_of_lt (Nat.cast_le.mpr (countP_lt_le hi)) hlow

theorem pct_mono (h : values ≠ []) (hpq : p ≤ q) :
    pct (ordered values) p ≤ pct (ordered values) q := by
  obtain ⟨_, hp⟩ := pct_eq h p
  obtain ⟨hi, hq⟩ := pct_eq h q
  rw [hp, hq]
  apply getElem_ordered_mono (Int.toNat_le_toNat (pctIndex_mono hpq _)) hi

theorem min_le_pct (h : values ≠ []) (p : ℚ) :
    (percentiles values).min ≤ pct (ordered values) p := by
  obtain ⟨hi, heq⟩ := pct_eq h p
  have hmin : (percentiles values).min = (ordered values)[0] := by
    change (if ordered values = [] then 0 else (ordered values).headD 0) = _
    rw [if_neg (ordered_ne_nil h), List.headD_eq_head?_getD, List.head?_eq_getElem?,
      List.getElem?_eq_getElem (pos_of_ne_nil h)]
    rfl
  rw [heq, hmin]
  exact getElem_ordered_mono (Nat.zero_le _) hi

theorem pct_le_max (h : values ≠ []) (p : ℚ) :
    pct (ordered values) p ≤ (percentiles values).max := by
  obtain ⟨hi, heq⟩ := pct_eq h p
  have hlast : (ordered values).length - 1 < (ordered values).length := by omega
  have hmax : (percentiles values).max = (ordered values)[(ordered values).length - 1] := by
    change (if ordered values = [] then 0 else (ordered values).getLastD 0) = _
    rw [if_neg (ordered_ne_nil h), List.getLastD_eq_getLast?, List.getLast?_eq_getElem?,
      List.getElem?_eq_getElem hlast]
    rfl
  rw [heq, hmax]
  exact getElem_ordered_mono (by omega) hlast

/-- Of a non-empty list, each reported percentile is an observation with at least its share of the
observations at or below it and less than its share strictly below it. The report does not depend on
the order of the list, and its values ascend. -/
theorem percentiles_are_nearest_rank {values : List ℚ} (h : values ≠ []) :
    (∀ r ∈ [(50, (percentiles values).p50), (90, (percentiles values).p90),
        (95, (percentiles values).p95), (99, (percentiles values).p99)],
      r.2 ∈ values ∧
        r.1 * values.length / 100 ≤ (values.countP (fun x ↦ decide (x ≤ r.2)) : ℚ) ∧
        (values.countP (fun x ↦ decide (x < r.2)) : ℚ) < r.1 * values.length / 100) ∧
    (∀ values', values'.Perm values → percentiles values' = percentiles values) ∧
    (percentiles values).min ≤ (percentiles values).p50 ∧
    (percentiles values).p50 ≤ (percentiles values).p90 ∧
    (percentiles values).p90 ≤ (percentiles values).p95 ∧
    (percentiles values).p95 ≤ (percentiles values).p99 ∧
    (percentiles values).p99 ≤ (percentiles values).max := by
  refine ⟨?_, ?_, min_le_pct h 50, pct_mono h (by norm_num), pct_mono h (by norm_num),
    pct_mono h (by norm_num), pct_le_max h 99⟩
  · intro r hr
    simp only [List.mem_cons, List.not_mem_nil, or_false] at hr
    obtain rfl | rfl | rfl | rfl := hr
    · exact pct_nearest_rank h (by norm_num) (by norm_num)
    · exact pct_nearest_rank h (by norm_num) (by norm_num)
    · exact pct_nearest_rank h (by norm_num) (by norm_num)
    · exact pct_nearest_rank h (by norm_num) (by norm_num)
  · intro values' hperm
    unfold percentiles
    rw [ordered_congr hperm]

/-- Three latencies, two of them equal. -/
theorem percentiles_are_nearest_rank_ties :
    (percentiles [7, 2, 7]).p50 ∈ ([7, 2, 7] : List ℚ) ∧
      percentiles [2, 7, 7] = percentiles [7, 2, 7] := by
  obtain ⟨hrank, hperm, -⟩ := percentiles_are_nearest_rank (show [7, 2, 7] ≠ [] by decide)
  have hp50 := hrank (50, (percentiles [7, 2, 7]).p50) (List.mem_cons_self)
  exact ⟨hp50.1, hperm [2, 7, 7] (List.Perm.swap 7 2 [7])⟩

end Reported

end InferenceServer.Benchmarks
