import Mathlib.Data.Int.ModEq
import Mathlib.Data.List.Nodup

/-!
# Grid-stride loops

Library `Base`. A grid of `stride` threads covers `total` indices: thread `i` starts at `i` and
advances by `stride` while it is below `total`. Together the threads visit every index below
`total`, each of them once, so an update in place reaches each element once, whatever the
order of the threads.
-/

namespace InferenceServer.Base

variable {α : Type*}

/-- Indices visited by `for (; idx < total; idx += stride)`, at most `fuel` of them. -/
def strided (total stride : Nat) : Nat → Nat → List Nat
  | 0, _ => []
  | fuel + 1, idx =>
    if idx < total then idx :: strided total stride fuel (idx + stride) else []

/-- With enough fuel a loop visits the indices of its residue class from its start on. -/
theorem mem_strided {total stride fuel idx j : Nat} (hs : 0 < stride)
    (hf : total ≤ idx + fuel * stride) :
    j ∈ strided total stride fuel idx ↔ idx ≤ j ∧ j < total ∧ j % stride = idx % stride := by
  induction fuel generalizing idx with
  | zero =>
    simp only [strided, List.not_mem_nil, false_iff]
    omega
  | succ fuel ih =>
    rw [Nat.succ_mul] at hf
    unfold strided
    split
    · next hlt =>
      rw [List.mem_cons, ih (by omega), Nat.add_mod_right]
      constructor
      · rintro (rfl | ⟨hle, hj, hmod⟩)
        · exact ⟨Nat.le_refl _, hlt, rfl⟩
        · exact ⟨by omega, hj, hmod⟩
      · rintro ⟨hle, hj, hmod⟩
        -- two indices of one class are equal or a stride apart
        by_cases heq : j = idx
        · exact .inl heq
        · refine .inr ⟨?_, hj, hmod⟩
          have hdvd : stride ∣ j - idx := (Nat.modEq_iff_dvd' hle).mp hmod.symm
          have := Nat.le_of_dvd (by omega) hdvd
          omega
    · next hge =>
      simp only [List.not_mem_nil, false_iff]
      omega

/-- A loop only moves forward. -/
theorem le_of_mem_strided {total stride fuel idx j : Nat}
    (h : j ∈ strided total stride fuel idx) : idx ≤ j := by
  induction fuel generalizing idx with
  | zero => cases h
  | succ fuel ih =>
    unfold strided at h
    split at h
    · rcases List.mem_cons.mp h with rfl | h
      · exact Nat.le_refl _
      · exact Nat.le_trans (Nat.le_add_right _ _) (ih h)
    · cases h

theorem nodup_strided {total stride fuel idx : Nat} (hs : 0 < stride) :
    (strided total stride fuel idx).Nodup := by
  induction fuel generalizing idx with
  | zero => exact List.nodup_nil
  | succ fuel ih =>
    unfold strided
    split
    · refine List.nodup_cons.mpr ⟨?_, ih⟩
      intro h
      have := le_of_mem_strided h
      omega
    · exact List.nodup_nil

/-- Indices visited by a grid of `stride` threads, one thread after the other. -/
def gridIndices (total stride : Nat) : List Nat :=
  (List.range stride).flatMap (strided total stride total)

/-- The loop of one thread visits its residue class. -/
theorem mem_thread {total stride i j : Nat} (hi : i < stride) :
    j ∈ strided total stride total i ↔ j < total ∧ j % stride = i := by
  have hle : total ≤ total * stride := Nat.le_mul_of_pos_right _ (by omega)
  rw [mem_strided (by omega) (by omega), Nat.mod_eq_of_lt hi]
  constructor
  · rintro ⟨-, hj, hmod⟩
    exact ⟨hj, hmod⟩
  · rintro ⟨hj, rfl⟩
    exact ⟨Nat.mod_le _ _, hj, rfl⟩

/-- The grid visits exactly the indices below `total`. -/
theorem mem_gridIndices {total stride j : Nat} (hs : 0 < stride) :
    j ∈ gridIndices total stride ↔ j < total := by
  rw [gridIndices, List.mem_flatMap]
  constructor
  · rintro ⟨i, hi, hj⟩
    exact ((mem_thread (List.mem_range.mp hi)).mp hj).1
  · intro hj
    have hi := Nat.mod_lt j hs
    exact ⟨j % stride, List.mem_range.mpr hi, (mem_thread hi).mpr ⟨hj, rfl⟩⟩

/-- No index is visited twice. -/
theorem nodup_gridIndices {total stride : Nat} (hs : 0 < stride) :
    (gridIndices total stride).Nodup := by
  refine List.nodup_flatMap.mpr ⟨fun i _ ↦ nodup_strided hs, ?_⟩
  refine List.Pairwise.imp_of_mem ?_ List.nodup_range
  intro a b ha hb hne j hja hjb
  have hja := (mem_thread (List.mem_range.mp ha)).mp hja
  have hjb := (mem_thread (List.mem_range.mp hb)).mp hjb
  exact hne (hja.2.symm.trans hjb.2)

/-- Updates in place at distinct indices reach each of them once. -/
theorem getElem?_foldl_modify (g : Nat → α → α) {is : List Nat} (hn : is.Nodup) (data : List α)
    (j : Nat) :
    (is.foldl (fun data i ↦ data.modify i (g i)) data)[j]? =
      if j ∈ is then data[j]?.map (g j) else data[j]? := by
  induction is generalizing data with
  | nil => rfl
  | cons i is ih =>
    obtain ⟨hnot, hn⟩ := List.nodup_cons.mp hn
    rw [List.foldl_cons, ih hn, List.getElem?_modify]
    by_cases hij : i = j
    · subst hij
      rw [if_neg hnot, if_pos (by simp)]
      cases data[i]? with
      | none => rfl
      | some x => simp
    · have hmem : j ∈ i :: is ↔ j ∈ is := by
        rw [List.mem_cons]
        exact or_iff_right (Ne.symm hij)
      simp only [if_neg hij, hmem, id_map']

/-- Updates in place at distinct indices may be made in any order. -/
theorem foldl_modify_congr (g : Nat → α → α) {is js : List Nat} (hi : is.Nodup) (hj : js.Nodup)
    (h : ∀ j, j ∈ is ↔ j ∈ js) (data : List α) :
    is.foldl (fun data i ↦ data.modify i (g i)) data =
      js.foldl (fun data i ↦ data.modify i (g i)) data := by
  apply List.ext_getElem?
  intro j
  rw [getElem?_foldl_modify g hi, getElem?_foldl_modify g hj]
  simp only [h j]

/-- A grid that updates in place updates every element below `total` once. -/
theorem getElem?_grid_modify (g : Nat → α → α) {total stride : Nat} (hs : 0 < stride)
    (data : List α) (j : Nat) :
    ((gridIndices total stride).foldl (fun data i ↦ data.modify i (g i)) data)[j]? =
      if j < total then data[j]?.map (g j) else data[j]? := by
  rw [getElem?_foldl_modify g (nodup_gridIndices hs)]
  simp only [mem_gridIndices hs]

end InferenceServer.Base
