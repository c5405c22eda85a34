import InferenceServer.Base.Buffer
import InferenceServer.Base.GridStride
import InferenceServer.Engine.Normalize

/-!
# What the normalization kernel does

Library `Engine`. `cpp/src/kernels/normalize.cu:24–79`. The threads of the grid visit every
element once, and the channel of a flat NCHW index is the channel of its position in its row.
So `launch_normalize` replaces the first `n` rows by their normalization and leaves the rest.
-/

namespace InferenceServer.Engine

open InferenceServer.Base InferenceServer.Base.Act

variable {F σ : Type} [FloatOps F]

/-- What one iteration of the kernel leaves at `idx`. -/
def normalizedAt (c hw : Nat) (mean stddev : List F) (idx : Nat) (x : F) : F :=
  match mean[idx / hw % c]?, stddev[idx / hw % c]? with
  | some m, some d => (x - m) / d
  | _, _ => x

/-- Normalization of one row of planes of `hw` elements: every element once, by the mean and
the deviation of its plane. -/
def normalizeRow (hw : Nat) (mean stddev row : List F) : List F :=
  row.mapIdx fun p x ↦
    match mean[p / hw]?, stddev[p / hw]? with
    | some m, some d => (x - m) / d
    | _, _ => x

@[simp] theorem length_normalizeRow (hw : Nat) (mean stddev row : List F) :
    (normalizeRow hw mean stddev row).length = row.length :=
  List.length_mapIdx

/-! ### The kernel as updates in place -/

theorem normalizeAt_eq_modify (c hw : Nat) (mean stddev : List F) (idx : Nat) (data : List F) :
    normalizeAt c hw mean stddev idx data =
      data.modify idx (normalizedAt c hw mean stddev idx) := by
  unfold normalizeAt normalizedAt
  -- the kernel reads both entries; out of range it would be undefined
  cases mean[idx / hw % c]? with
  | none => exact (List.modify_id idx data).symm
  | some m =>
    cases stddev[idx / hw % c]? with
    | none => exact (List.modify_id idx data).symm
    | some d => rfl

theorem normalizeThread_eq_foldl (total stride c hw : Nat) (mean stddev : List F)
    (fuel idx : Nat) (data : List F) :
    normalizeThread total stride c hw mean stddev fuel idx data =
      (strided total stride fuel idx).foldl
        (fun data i ↦ data.modify i (normalizedAt c hw mean stddev i)) data := by
  induction fuel generalizing idx data with
  | zero => rfl
  | succ fuel ih =>
    unfold normalizeThread strided
    split
    · rw [ih, List.foldl_cons, normalizeAt_eq_modify]
    · rfl

theorem normalizeKernel_eq_foldl (blocks total c hw : Nat) (mean stddev data : List F) :
    normalizeKernel blocks total c hw mean stddev data =
      (gridIndices total (blocks * 256)).foldl
        (fun data i ↦ data.modify i (normalizedAt c hw mean stddev i)) data := by
  rw [normalizeKernel, gridIndices, List.foldl_flatMap, Nat.mul_comm 256]
  simp only [normalizeThread_eq_foldl]

/-- Every element below `total` is normalized once and no other is touched. -/
theorem getElem?_normalizeKernel {blocks : Nat} (hb : 0 < blocks) (total c hw : Nat)
    (mean stddev data : List F) (j : Nat) :
    (normalizeKernel blocks total c hw mean stddev data)[j]? =
      if j < total then data[j]?.map (normalizedAt c hw mean stddev j) else data[j]? := by
  rw [normalizeKernel_eq_foldl]
  exact getElem?_grid_modify _ (Nat.mul_pos hb (by decide)) data j

/-! ### The kernel row by row -/

/-- The channel of a flat index is that of its position in its row. -/
theorem channel_eq {c hw i p : Nat} (hp : p < c * hw) :
    (i * (c * hw) + p) / hw % c = p / hw := by
  have hhw : 0 < hw := Nat.pos_of_mul_pos_left (Nat.zero_lt_of_lt hp)
  have hch : p / hw < c := Nat.div_lt_of_lt_mul (by rwa [Nat.mul_comm])
  have hflat : i * (c * hw) + p = hw * (i * c) + p := by
    rw [← Nat.mul_assoc, Nat.mul_comm hw]
  rw [hflat, Nat.mul_add_div hhw, Nat.mul_comm i c, Nat.mul_add_mod, Nat.mod_eq_of_lt hch]

/-- The first `n` rows are normalized and the others are left. -/
theorem row_normalizeKernel {blocks : Nat} (hb : 0 < blocks) (n c hw : Nat)
    (mean stddev data : List F) (i : Nat) :
    row (c * hw) (normalizeKernel blocks (n * c * hw) c hw mean stddev data) i =
      if i < n then normalizeRow hw mean stddev (row (c * hw) data i)
      else row (c * hw) data i := by
  apply List.ext_getElem?
  intro p
  by_cases hp : p < c * hw
  · have hlt : i * (c * hw) + p < n * c * hw ↔ i < n := by
      rw [Nat.mul_assoc]
      constructor
      · intro h
        by_contra hge
        have := Nat.mul_le_mul_right (c * hw) (Nat.not_lt.mp hge)
        omega
      · intro h
        have := Nat.mul_le_mul_right (c * hw) (Nat.succ_le_of_lt h)
        rw [Nat.succ_mul] at this
        omega
    have hread : ∀ xs : List F, (row (c * hw) xs i)[p]? = xs[i * (c * hw) + p]? := by
      intro xs
      rw [row, List.getElem?_take_of_lt hp, List.getElem?_drop]
    rw [hread, getElem?_normalizeKernel hb]
    by_cases hi : i < n
    · rw [if_pos (hlt.mpr hi), if_pos hi, normalizeRow, List.getElem?_mapIdx, hread]
      unfold normalizedAt
      rw [channel_eq hp]
    · rw [if_neg (fun h ↦ hi (hlt.mp h)), if_neg hi, hread]
  · -- beyond the row both sides are empty
    have hnone : ∀ xs : List F, (row (c * hw) xs i)[p]? = none := by
      intro xs
      rw [row, List.getElem?_take_eq_none (Nat.not_lt.mp hp)]
    rw [hnone]
    split
    · rw [normalizeRow, List.getElem?_mapIdx, hnone]
      rfl
    · rw [hnone]

theorem length_normalizeKernel (blocks total c hw : Nat) (mean stddev data : List F) :
    (normalizeKernel blocks total c hw mean stddev data).length = data.length := by
  rw [normalizeKernel_eq_foldl]
  generalize gridIndices total (blocks * 256) = is
  induction is generalizing data with
  | nil => rfl
  | cons i is ih => rw [List.foldl_cons, ih, List.length_modify]

/-! ### The launch -/

/-- Where a launch is defined it returns the buffer with its first `n` rows normalized. -/
theorem launchNormalize_ensures {P : σ → Prop} (data : List F) (n c hw : Int)
    (mean stddev : List F) (launch : Option String) :
    Ensures P (launchNormalize data n c hw mean stddev launch)
      (fun data' s ↦ P s ∧ data'.length = data.length ∧
        ∀ i : Nat, row (c.toNat * hw.toNat) data' i =
          if (i : Int) < n then normalizeRow hw.toNat mean stddev (row (c.toNat * hw.toNat) data i)
          else row (c.toNat * hw.toNat) data i)
      (fun _ ↦ P) := by
  unfold launchNormalize
  apply Ensures.ite
  · intro _
    exact Ensures.throw fun _ hs ↦ hs
  intro hneg
  apply Ensures.ite
  · rintro rfl
    refine Ensures.pure fun _ hs ↦ ⟨hs, rfl, ?_⟩
    intro i
    rw [if_neg (by omega)]
  intro hzero
  apply Ensures.ite
  · intro _
    exact Ensures.throw fun _ hs ↦ hs
  intro hplanes
  apply Ensures.ite
  · intro _
    exact Ensures.throw fun _ hs ↦ hs
  intro _
  apply Ensures.ite
  · intro _
    exact Ensures.undefined
  intro _
  have hpos : 0 < n.toNat * c.toNat * hw.toNat :=
    Nat.mul_pos (Nat.mul_pos (by omega) (by omega)) (by omega)
  have hblocks : 0 < min ((n.toNat * c.toNat * hw.toNat + 256 - 1) / 256) 1024 := by omega
  apply Ensures.bind (cudaCheck_spec launch _ fun _ _ _ hs ↦ hs).ensures
  intro _
  refine Ensures.pure fun _ hs ↦ ⟨hs, length_normalizeKernel _ _ _ _ _ _ _, ?_⟩
  intro i
  rw [row_normalizeKernel hblocks]
  by_cases hi : (i : Int) < n
  · rw [if_pos hi, if_pos (by omega)]
  · rw [if_neg hi, if_neg (by omega)]

/-- A launch inside the buffer is defined. -/
theorem launchNormalize_spec {P : σ → Prop} {data : List F} {n c hw : Int} {mean stddev : List F}
    {launch : Option String} (hlen : n.toNat * c.toNat * hw.toNat ≤ data.length)
    (haddr : data.length < 2 ^ 63) :
    Spec P (launchNormalize data n c hw mean stddev launch) (fun _ ↦ P) (fun _ ↦ P) := by
  unfold launchNormalize
  apply Spec.ite
  · intro _
    exact Spec.throw fun _ hs ↦ hs
  intro _
  apply Spec.ite
  · intro _
    exact Spec.pure fun _ hs ↦ hs
  intro _
  apply Spec.ite
  · intro _
    exact Spec.throw fun _ hs ↦ hs
  intro _
  apply Spec.ite
  · intro _
    exact Spec.throw fun _ hs ↦ hs
  intro _
  dsimp only
  rw [if_neg (by omega)]
  apply Spec.bind (cudaCheck_spec launch _ fun _ _ _ hs ↦ hs)
  intro _
  exact Spec.pure fun _ hs ↦ hs

/-- A launch whose dimensions are positive and inside the buffer returns. -/
theorem launchNormalize_outcome {data : List F} {n c hw : Int} {mean stddev : List F}
    (hn : 0 < n) (hc : 0 < c) (hhw : 0 < hw) (hm : mean ≠ []) (hd : stddev ≠ [])
    (hlen : n.toNat * c.toNat * hw.toNat ≤ data.length) (haddr : data.length < 2 ^ 63) (s : σ) :
    (launchNormalize data n c hw mean stddev none).outcome s =
      some (.ok (normalizeKernel (min ((n.toNat * c.toNat * hw.toNat + 256 - 1) / 256) 1024)
        (n.toNat * c.toNat * hw.toNat) c.toNat hw.toNat mean stddev data), s) := by
  have hpos : 0 < n.toNat * c.toNat * hw.toNat :=
    Nat.mul_pos (Nat.mul_pos (by omega) (by omega)) (by omega)
  have hne : data ≠ [] := List.ne_nil_of_length_pos (by omega)
  unfold launchNormalize
  rw [if_neg (by omega), if_neg (by omega), if_neg (by omega), if_neg (by simp [hne, hm, hd])]
  dsimp only
  rw [if_neg (by omega)]
  rfl

end InferenceServer.Engine
