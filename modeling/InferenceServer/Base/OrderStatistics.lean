import Mathlib.Data.List.Sort

/-!
# Order statistics

Library `Base`. The values of a list in ascending order, and how many of them lie below the
value at a rank: more than the rank at or below it, at most the rank strictly below it.
-/

namespace InferenceServer.Base

variable {α : Type*} [LinearOrder α] {xs ys : List α} {i j : Nat}

/-- The values in ascending order. -/
def ordered (xs : List α) : List α := xs.mergeSort fun a b ↦ decide (a ≤ b)

theorem ordered_perm (xs : List α) : (ordered xs).Perm xs := List.mergeSort_perm _ _

@[simp] theorem length_ordered (xs : List α) : (ordered xs).length = xs.length :=
  (ordered_perm xs).length_eq

theorem pairwise_ordered (xs : List α) : (ordered xs).Pairwise (· ≤ ·) := by
  have htrans : ∀ a b c : α, decide (a ≤ b) = true → decide (b ≤ c) = true →
      decide (a ≤ c) = true := by
    intro a b c hab hbc
    exact decide_eq_true (le_trans (of_decide_eq_true hab) (of_decide_eq_true hbc))
  have htotal : ∀ a b : α, (decide (a ≤ b) || decide (b ≤ a)) = true := by
    intro a b
    simpa using le_total a b
  exact (List.pairwise_mergeSort htrans htotal xs).imp of_decide_eq_true

/-- The order of the values does not matter. -/
theorem ordered_congr (h : xs.Perm ys) : ordered xs = ordered ys := by
  have hperm : (ordered xs).Perm (ordered ys) :=
    (ordered_perm xs).trans (h.trans (ordered_perm ys).symm)
  exact hperm.eq_of_pairwise (fun a b _ _ hab hba ↦ le_antisymm hab hba) (pairwise_ordered xs)
    (pairwise_ordered ys)

theorem getElem_ordered_mem (hi : i < (ordered xs).length) : (ordered xs)[i] ∈ xs :=
  (ordered_perm xs).mem_iff.mp (List.getElem_mem hi)

theorem getElem_ordered_mono (hij : i ≤ j) (hj : j < (ordered xs).length) :
    (ordered xs)[i] ≤ (ordered xs)[j] := by
  rcases Nat.eq_or_lt_of_le hij with rfl | hlt
  · exact le_refl _
  · exact List.pairwise_iff_getElem.mp (pairwise_ordered xs) i j (by omega) hj hlt

/-- More than `i` values are at most the value of rank `i`. -/
theorem lt_countP_le (hi : i < (ordered xs).length) :
    i < xs.countP fun x ↦ decide (x ≤ (ordered xs)[i]) := by
  have hfirst : ((ordered xs).take (i + 1)).countP (fun x ↦ decide (x ≤ (ordered xs)[i])) =
      ((ordered xs).take (i + 1)).length := by
    apply List.countP_eq_length.mpr
    intro x hx
    obtain ⟨j, hj, rfl⟩ := List.mem_take_iff_getElem.mp hx
    exact decide_eq_true (getElem_ordered_mono (by omega) hi)
  have hle := (List.take_sublist (i + 1) (ordered xs)).countP_le
    (p := fun x ↦ decide (x ≤ (ordered xs)[i]))
  rw [hfirst, List.length_take] at hle
  rw [← (ordered_perm xs).countP_eq]
  omega

/-- At most `i` values are less than the value of rank `i`. -/
theorem countP_lt_le (hi : i < (ordered xs).length) :
    (xs.countP fun x ↦ decide (x < (ordered xs)[i])) ≤ i := by
  have hlast : ((ordered xs).drop i).countP (fun x ↦ decide (x < (ordered xs)[i])) = 0 := by
    apply List.countP_eq_zero.mpr
    intro x hx
    obtain ⟨j, hj, rfl⟩ := List.mem_drop_iff_getElem.mp hx
    have hle := getElem_ordered_mono (Nat.le_add_right i j)
      (show i + j < (ordered xs).length by omega)
    simpa using hle
  have hfirst := ((ordered xs).take i).countP_le_length
    (p := fun x ↦ decide (x < (ordered xs)[i]))
  rw [List.length_take] at hfirst
  rw [← (ordered_perm xs).countP_eq]
  calc (ordered xs).countP (fun x ↦ decide (x < (ordered xs)[i]))
    _ = ((ordered xs).take i ++ (ordered xs).drop i).countP
          (fun x ↦ decide (x < (ordered xs)[i])) := by rw [List.take_append_drop]
    _ = ((ordered xs).take i).countP (fun x ↦ decide (x < (ordered xs)[i])) := by
      rw [List.countP_append, hlast, Nat.add_zero]
    _ ≤ i := by omega

end InferenceServer.Base
