import InferenceServer.Engine.Stub

/-!
# What the stub engine reads and writes

Library `Engine`. `cpp/src/engine/execution_engine.cpp:24–42` with `std::size_t` products modulo
`2 ^ 64`. The guard compares the input's length with a product that may have wrapped, and the
output's extent is a second product. When neither wraps, every copy stays inside both buffers
and the result is the input shaped row by row; when one wraps, some row lies outside.
-/

namespace InferenceServer.Engine

open InferenceServer.Base InferenceServer.Base.Act

variable {F σ : Type}

section CopyRow

variable {src : List F} {source target n : Nat} {out : FloatVec F}

/-- A copy inside both buffers. -/
theorem copyRow_of_fits (hread : source + n ≤ src.length) (hwrite : target + n ≤ out.size) (s : σ) :
    ∃ out' : FloatVec F, (copyRow src source target n out).outcome s = some (.ok out', s) ∧
      out'.toList = splice out.toList target ((src.drop source).take n) := by
  unfold copyRow
  rw [dif_pos ⟨hread, hwrite⟩]
  exact ⟨_, rfl, rfl⟩

/-- A copy that leaves one of them. -/
theorem copyRow_of_not_fits (h : src.length < source + n ∨ out.size < target + n) (s : σ) :
    (copyRow src source target n out).outcome s = none := by
  unfold copyRow
  rw [dif_neg (by omega)]
  rfl

theorem copyRow_ne_error (s t : σ) (ex : CppException) :
    (copyRow src source target n out).outcome s ≠ some (.error ex, t) := by
  by_cases h : source + n ≤ src.length ∧ target + n ≤ out.size
  · obtain ⟨out', hout, -⟩ := copyRow_of_fits h.1 h.2 s
    rw [hout]
    simp
  · rw [copyRow_of_not_fits (by omega)]
    simp

end CopyRow

/-- Where the elements of a copied row stand after the copy. -/
theorem getElem?_copied_row {src out : List F} {inputElems outputElems k i j : Nat}
    (hread : k * inputElems + min inputElems outputElems ≤ src.length)
    (hwrite : k * outputElems + min inputElems outputElems ≤ out.length) (hj : j < outputElems) :
    (splice out (k * outputElems)
        ((src.drop (k * inputElems)).take (min inputElems outputElems)))[i * outputElems + j]? =
      if i = k ∧ j < inputElems then src[i * inputElems + j]?
      else out[i * outputElems + j]? := by
  have hlen : ((src.drop (k * inputElems)).take (min inputElems outputElems)).length =
      min inputElems outputElems := by
    rw [List.length_take, List.length_drop]
    omega
  rw [getElem?_splice (by omega), hlen]
  by_cases hi : i = k
  · subst hi
    by_cases hin : j < inputElems
    · rw [if_pos (by omega), if_pos ⟨rfl, hin⟩, List.getElem?_take_of_lt (by omega),
        List.getElem?_drop]
      congr 1
      omega
    · rw [if_neg (by omega), if_neg (fun h ↦ hin h.2)]
  · -- another row lies before or after the window
    have hout : ¬(k * outputElems ≤ i * outputElems + j ∧
        i * outputElems + j < k * outputElems + min inputElems outputElems) := by
      rcases Nat.lt_or_gt_of_ne hi with hlt | hgt
      · have hrow := Nat.mul_le_mul_right outputElems (Nat.succ_le_of_lt hlt)
        rw [Nat.succ_mul] at hrow
        omega
      · have hrow := Nat.mul_le_mul_right outputElems (Nat.succ_le_of_lt hgt)
        rw [Nat.succ_mul] at hrow
        omega
    rw [if_neg hout, if_neg (fun h ↦ hi h.1)]

/-- The loop over the first `k` rows when no product wraps. -/
theorem rows_copied [Zero F] {src : List F} {batchSize inputElems outputElems : Nat}
    (hin : batchSize * inputElems < 2 ^ 64) (hout : batchSize * outputElems < 2 ^ 64)
    (hsrc : src.length = batchSize * inputElems) {zeros : FloatVec F}
    (hzeros : zeros.toList = List.replicate (batchSize * outputElems) 0) {k : Nat}
    (hk : k ≤ batchSize) (s : σ) :
    ∃ out : FloatVec F,
      ((List.range k).foldlM (fun out i ↦ copyRow src (sizeMul i inputElems)
          (sizeMul i outputElems) (min inputElems outputElems) out) zeros).outcome s =
        some (.ok out, s) ∧
      out.size = batchSize * outputElems ∧
      ∀ i < batchSize, ∀ j < outputElems, out.toList[i * outputElems + j]? =
        if i < k ∧ j < inputElems then src[i * inputElems + j]? else some 0 := by
  induction k with
  | zero =>
    refine ⟨zeros, rfl, ?_, ?_⟩
    · rw [FloatVec.size, hzeros, List.length_replicate]
    · intro i hi j hj
      have hrow := Nat.mul_le_mul_right outputElems (Nat.succ_le_of_lt hi)
      rw [Nat.succ_mul] at hrow
      rw [hzeros, if_neg (by omega), List.getElem?_replicate, if_pos (by omega)]
  | succ k ih =>
    obtain ⟨out, hloop, hsize, hcells⟩ := ih (by omega)
    have hreadRow := Nat.mul_le_mul_right inputElems hk
    have hwriteRow := Nat.mul_le_mul_right outputElems hk
    rw [Nat.succ_mul] at hreadRow hwriteRow
    have hread : k * inputElems + min inputElems outputElems ≤ src.length := by omega
    have hwrite : k * outputElems + min inputElems outputElems ≤ out.size := by omega
    obtain ⟨out', hcopy, hlist⟩ := copyRow_of_fits hread hwrite s
    refine ⟨out', ?_, ?_, ?_⟩
    · rw [List.range_succ, List.foldlM_append, outcome_bind_ok hloop, List.foldlM_cons,
        sizeMul_of_lt (by omega), sizeMul_of_lt (by omega), outcome_bind_ok hcopy]
      rfl
    · have hlen : ((src.drop (k * inputElems)).take (min inputElems outputElems)).length =
          min inputElems outputElems := by
        rw [List.length_take, List.length_drop]
        omega
      rw [FloatVec.size, hlist, length_splice (by rw [hlen]; exact hwrite)]
      exact hsize
    · intro i hi j hj
      rw [hlist, getElem?_copied_row hread hwrite hj, hcells i hi j hj]
      by_cases hik : i = k
      · subst hik
        by_cases hjin : j < inputElems
        · rw [if_pos ⟨rfl, hjin⟩, if_pos ⟨by omega, hjin⟩]
        · rw [if_neg (fun h ↦ hjin h.2), if_neg (by omega), if_neg (fun h ↦ hjin h.2)]
      · rw [if_neg (fun h ↦ hik h.1)]
        have hiff : i < k + 1 ∧ j < inputElems ↔ i < k ∧ j < inputElems := by omega
        simp only [hiff]

/-- The zeroed output. -/
theorem zeroVector_outcome [Zero F] {count : Nat} (h : count < 2 ^ 61) (s : σ) :
    ∃ zeros : FloatVec F, (zeroVector count).outcome s = some (.ok zeros, s) ∧
      zeros.toList = List.replicate count 0 := by
  unfold zeroVector
  rw [dif_pos h]
  exact ⟨_, rfl, rfl⟩

/-- Without a wrap the input is shaped row by row. -/
theorem shapeOutput_of_fits [Zero F] {src : List F} {batchSize inputElems outputElems : Nat}
    (halloc : sizeMul batchSize outputElems < 2 ^ 61) (hin : batchSize * inputElems < 2 ^ 64)
    (hout : batchSize * outputElems < 2 ^ 64) (hsrc : src.length = batchSize * inputElems) (s : σ) :
    ∃ out, (shapeOutput src batchSize inputElems outputElems).outcome s = some (.ok out, s) ∧
      ∀ i < batchSize, ∀ j < outputElems, ∃ x, out.toList[i * outputElems + j]? = some x ∧
        (j < inputElems → src[i * inputElems + j]? = some x) ∧ (inputElems ≤ j → x = 0) := by
  obtain ⟨zeros, hzero, hlist⟩ := zeroVector_outcome (F := F) halloc s
  rw [sizeMul_of_lt hout] at hlist
  obtain ⟨out, hloop, -, hcells⟩ := rows_copied hin hout hsrc hlist (Nat.le_refl _) s
  refine ⟨out, ?_, ?_⟩
  · unfold shapeOutput
    rw [outcome_bind_ok hzero]
    exact hloop
  · intro i hi j hj
    have hcell := hcells i hi j hj
    by_cases hjin : j < inputElems
    · have hrow := Nat.mul_le_mul_right inputElems (Nat.succ_le_of_lt hi)
      rw [Nat.succ_mul] at hrow
      have hlt : i * inputElems + j < src.length := by omega
      rw [if_pos ⟨hi, hjin⟩, List.getElem?_eq_getElem hlt] at hcell
      exact ⟨_, hcell, fun _ ↦ List.getElem?_eq_getElem hlt, fun h ↦ absurd hjin (by omega)⟩
    · rw [if_neg (fun h ↦ hjin h.2)] at hcell
      exact ⟨0, hcell, fun h ↦ absurd h hjin, fun _ ↦ rfl⟩

/-- A wrapped extent puts some row outside its buffer. -/
theorem shapeOutput_of_wrap [Zero F] {v : FloatVec F} {batchSize inputElems outputElems : Nat}
    (hi : inputElems < 2 ^ 64) (ho : outputElems < 2 ^ 64)
    (halloc : sizeMul batchSize outputElems < 2 ^ 61)
    (hwrap : 2 ^ 64 ≤ batchSize * inputElems ∨ 2 ^ 64 ≤ batchSize * outputElems) (s : σ) :
    (shapeOutput v.toList batchSize inputElems outputElems).outcome s = none := by
  have hrow : ∃ i < batchSize, 2 ^ 63 ≤ sizeMul i inputElems ∨ 2 ^ 63 ≤ sizeMul i outputElems := by
    rcases hwrap with hwrap | hwrap
    · obtain ⟨i, hlt, hge⟩ := exists_sizeMul_ge hwrap hi
      exact ⟨i, hlt, .inl hge⟩
    · obtain ⟨i, hlt, hge⟩ := exists_sizeMul_ge hwrap ho
      exact ⟨i, hlt, .inr hge⟩
  obtain ⟨i, hlt, hge⟩ := hrow
  obtain ⟨zeros, hzero, -⟩ := zeroVector_outcome (F := F) halloc s
  unfold shapeOutput
  rw [outcome_bind_ok hzero]
  apply outcome_foldlM_undefined (List.mem_range.mpr hlt)
  · intro out t
    have hsrc := v.size_lt
    have hdst : out.size < 2 ^ 61 := out.size_lt
    exact copyRow_of_not_fits (by omega) t
  · intro out j t ex u
    exact copyRow_ne_error t u ex

/-- For `std::size_t` arguments the stub engine throws, or returns the input shaped row by row with
every copy inside its buffers, exactly when the length check fails, the output cannot be allocated,
or neither `batch_size * input_elems` nor `batch_size * output_elems` wraps. Otherwise a copy leaves
a buffer. -/
theorem stub_access_safe_iff [Zero F] (v : FloatVec F) {batchSize inputElems outputElems : Nat}
    (hi : inputElems < 2 ^ 64) (ho : outputElems < 2 ^ 64) (s : σ) :
    ((∃ ex, (StubEngine.runInference v batchSize inputElems outputElems).outcome s =
        some (.error ex, s)) ∨
      ∃ out, (StubEngine.runInference v batchSize inputElems outputElems).outcome s =
          some (.ok out, s) ∧
        ∀ i < batchSize, ∀ j < outputElems, ∃ x, out.toList[i * outputElems + j]? = some x ∧
          (j < inputElems → v.toList[i * inputElems + j]? = some x) ∧
          (inputElems ≤ j → x = 0)) ↔
    v.size ≠ sizeMul batchSize inputElems ∨ 2 ^ 61 ≤ sizeMul batchSize outputElems ∨
      (batchSize * inputElems < 2 ^ 64 ∧ batchSize * outputElems < 2 ^ 64) := by
  by_cases hsize : v.size = sizeMul batchSize inputElems
  · have hguard : StubEngine.runInference v batchSize inputElems outputElems =
        (shapeOutput v.toList batchSize inputElems outputElems :
          Act CppException σ (FloatVec F)) := if_neg (not_not.mpr hsize)
    rw [hguard]
    by_cases halloc : sizeMul batchSize outputElems < 2 ^ 61
    · by_cases hfits : batchSize * inputElems < 2 ^ 64 ∧ batchSize * outputElems < 2 ^ 64
      · refine iff_of_true (.inr ?_) (.inr (.inr hfits))
        exact shapeOutput_of_fits halloc hfits.1 hfits.2 (hsize.trans (sizeMul_of_lt hfits.1)) s
      · have hwrap : 2 ^ 64 ≤ batchSize * inputElems ∨ 2 ^ 64 ≤ batchSize * outputElems := by
          omega
        rw [shapeOutput_of_wrap hi ho halloc hwrap s]
        refine iff_of_false ?_ ?_
        · rintro (⟨ex, h⟩ | ⟨out, h, -⟩)
          · cases h
          · cases h
        · rintro (h | h | h)
          · exact h hsize
          · omega
          · exact hfits h
    · refine iff_of_true (.inl ⟨.other "cannot create std::vector larger than max_size()", ?_⟩)
        (.inr (.inl (by omega)))
      unfold shapeOutput zeroVector
      rw [dif_neg halloc]
      rfl
  · refine iff_of_true (.inl
      ⟨.inferenceError "batched input size does not match batch_size * input_elems", ?_⟩)
      (.inl hsize)
    rw [StubEngine.runInference, if_pos hsize]
    rfl

/-- Two rows of three floats, shaped to rows of two. -/
theorem stub_access_safe_pair :
    (∃ ex, (StubEngine.runInference (⟨[1, 2, 3, 4, 5, 6], by decide⟩ : FloatVec Int) 2 3
        2).outcome () = some (.error ex, ())) ∨
      ∃ out, (StubEngine.runInference (⟨[1, 2, 3, 4, 5, 6], by decide⟩ : FloatVec Int) 2 3
          2).outcome () = some (.ok out, ()) ∧
        ∀ i < 2, ∀ j < 2, ∃ x, out.toList[i * 2 + j]? = some x ∧
          (j < 3 → [1, 2, 3, 4, 5, 6][i * 3 + j]? = some x) ∧ (3 ≤ j → x = 0) :=
  (stub_access_safe_iff ⟨[1, 2, 3, 4, 5, 6], by decide⟩ (by decide) (by decide) ()).mpr
    (.inr (.inr ⟨by decide, by decide⟩))

/-- An empty input passes for two rows of `2 ^ 63` floats: the product wraps to zero. The first
copy then reads past its end. -/
theorem wrapped_input_leaves_buffer :
    (StubEngine.runInference (FloatVec.empty : FloatVec Int) 2 (2 ^ 63) 1).outcome () = none := by
  decide +kernel

end InferenceServer.Engine
