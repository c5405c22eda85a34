import InferenceServer.Engine.Onnx

/-!
# The stub engine

Library `Engine`. `cpp/src/engine/execution_engine.cpp:24–42`: each input row is copied to its
output row, truncated or padded with zeros. The CUDA engine shapes its output the same way,
`cuda_execution_engine.cpp:122–131`. Offsets are `std::size_t` products; a copy outside either
buffer is undefined.
-/

namespace InferenceServer.Engine

open InferenceServer.Base InferenceServer.Base.Act

variable {F σ : Type}

/-- `std::copy` of `n` floats from offset `source` of one buffer to offset `target` of another. -/
def copyRow (src : List F) (source target n : Nat) (out : FloatVec F) :
    Act CppException σ (FloatVec F) :=
  if h : source + n ≤ src.length ∧ target + n ≤ out.size then
    pure ⟨splice out.toList target ((src.drop source).take n), by
      have hlen : ((src.drop source).take n).length = n := by
        rw [List.length_take, List.length_drop]
        omega
      rw [length_splice (by rw [hlen]; exact h.2)]
      exact out.size_lt⟩
  else .undefined

/-- The zeroed output and the loop over the rows, `execution_engine.cpp:32–41`. -/
def shapeOutput [Zero F] (src : List F) (batchSize inputElems outputElems : Nat) :
    Act CppException σ (FloatVec F) := do
  let batchedOutput ← zeroVector (sizeMul batchSize outputElems)
  let copyElems := min inputElems outputElems
  (List.range batchSize).foldlM (fun out i ↦
    copyRow src (sizeMul i inputElems) (sizeMul i outputElems) copyElems out) batchedOutput

/-- `StubExecutionEngine::run_inference`, `execution_engine.cpp:24–42`. -/
def StubEngine.runInference [Zero F] (batchedInput : FloatVec F)
    (batchSize inputElems outputElems : Nat) : Act CppException σ (FloatVec F) :=
  if batchedInput.size ≠ sizeMul batchSize inputElems then
    throw (.inferenceError "batched input size does not match batch_size * input_elems")
  else shapeOutput batchedInput.toList batchSize inputElems outputElems

/-- Shaping the output needs no state. -/
theorem shapeOutput_mirrors [Zero F] (src : List F) (batchSize inputElems outputElems : Nat) :
    Mirrors (shapeOutput src batchSize inputElems outputElems : Act CppException σ (FloatVec F))
      (shapeOutput src batchSize inputElems outputElems) := by
  unfold shapeOutput
  apply Mirrors.bind
  · unfold zeroVector
    by_cases h : sizeMul batchSize outputElems < 2 ^ 61
    · rw [dif_pos h, dif_pos h]
      exact Mirrors.pure _
    · rw [dif_neg h, dif_neg h]
      exact Mirrors.throw _
  intro out
  refine Mirrors.foldlM ?_ _ out
  intro out i
  unfold copyRow
  by_cases h : sizeMul i inputElems + min inputElems outputElems ≤ src.length ∧
      sizeMul i outputElems + min inputElems outputElems ≤ out.size
  · rw [dif_pos h, dif_pos h]
    exact Mirrors.pure _
  · rw [dif_neg h, dif_neg h]
    exact Mirrors.undefined

/-- A loop whose body does the same for every element does the same. -/
private theorem foldlM_congr {α β : Type} {m : Type → Type} [Monad m] {f g : β → α → m β}
    {xs : List α} (h : ∀ b, ∀ x ∈ xs, f b x = g b x) (b : β) : xs.foldlM f b = xs.foldlM g b := by
  induction xs generalizing b with
  | nil => rfl
  | cons x xs ih =>
    rw [List.foldlM_cons, List.foldlM_cons, h b x List.mem_cons_self]
    congr 1
    funext b'
    exact ih (fun c y hy ↦ h c y (List.mem_cons_of_mem x hy)) b'

/-- The output only depends on the rows: what follows them in the source is not read. -/
theorem shapeOutput_congr [Zero F] {src src' : List F} {batchSize inputElems : Nat}
    (hlt : batchSize * inputElems < 2 ^ 64) (hlen : batchSize * inputElems ≤ src.length)
    (hlen' : batchSize * inputElems ≤ src'.length)
    (heq : src.take (batchSize * inputElems) = src'.take (batchSize * inputElems))
    (outputElems : Nat) :
    (shapeOutput src batchSize inputElems outputElems : Act CppException σ (FloatVec F)) =
      shapeOutput src' batchSize inputElems outputElems := by
  unfold shapeOutput
  congr 1
  funext out
  refine foldlM_congr ?_ out
  intro out i hi
  have hrow : (i + 1) * inputElems ≤ batchSize * inputElems :=
    Nat.mul_le_mul_right _ (List.mem_range.mp hi)
  rw [Nat.succ_mul] at hrow
  have hcopy : min inputElems outputElems ≤ inputElems := Nat.min_le_left _ _
  have hwindow : (src.drop (i * inputElems)).take (min inputElems outputElems) =
      (src'.drop (i * inputElems)).take (min inputElems outputElems) :=
    take_drop_congr (by omega) heq
  unfold copyRow
  rw [sizeMul_of_lt (by omega)]
  by_cases hfits : sizeMul i outputElems + min inputElems outputElems ≤ out.size
  · rw [dif_pos ⟨by omega, hfits⟩, dif_pos ⟨by omega, hfits⟩]
    simp only [hwindow]
  · rw [dif_neg (fun h ↦ hfits h.2), dif_neg (fun h ↦ hfits h.2)]

end InferenceServer.Engine
