import InferenceServer.Engine.OnnxCall

/-!
# Calls that succeed

Library `Engine`. `cpp/src/engine/onnx_execution_engine.cpp:307–467`. When no library call
fails and the session produces an output of the expected size, both paths return the front
of that output.
-/

namespace InferenceServer.Engine.OnnxEngine

open InferenceServer.Base InferenceServer.Base.Act

variable {F σ : Type} {opts : OnnxOptions F} {buf : List F} {e : OnnxEngine F}

section Primitives

variable {P : σ → Prop} {E : CppException → σ → Prop}

private theorem createTensor_ok {session : Session F} {data : List F} {len : Nat} {t : Tensor F}
    (hdata : t.data = data.take t.shape.prod) (hfit : t.shape.prod ≤ len)
    (hlen : len ≤ data.length) (hlt : len < 2 ^ 61) :
    Spec P (createTensor session data len t.shape) (fun a s ↦ P s ∧ a = t) E := by
  have hbytes : 4 * t.shape.prod ≤ floatBytes len := by
    rw [floatBytes, sizeMul_of_lt (by omega)]
    omega
  intro s hs
  refine ⟨.ok t, s, ?_, hs, rfl⟩
  obtain ⟨shape, tdata, hsize⟩ := t
  change tdata = data.take shape.prod at hdata
  change shape.prod ≤ len at hfit
  subst hdata
  unfold createTensor
  dsimp only
  rw [(session.space_eq_none _ _).mpr hbytes, dif_pos (by omega)]
  rfl

private theorem readVector_ok {data : List F} {count : Nat} {v : FloatVec F}
    (hv : v.toList = data.take count) (hc : count ≤ data.length) :
    Spec P (readVector data count) (fun a _ ↦ a = v) E := by
  intro s hs
  refine ⟨.ok v, s, ?_, rfl⟩
  have hlt : count < 2 ^ 61 := by
    have hsize := v.size_lt
    rw [hv, List.length_take, Nat.min_eq_left hc] at hsize
    exact hsize
  obtain ⟨vs, hvs⟩ := v
  change vs = data.take count at hv
  subst hv
  unfold readVector
  rw [dif_pos hlt, if_pos hc]
  rfl

private theorem sessionRun_ok {E : CppException → OnnxEngine F → Prop} {session : Session F}
    {input : Tensor F} {outputs : List (OrtValue F)} (hs : session.run input = .ok outputs) :
    Spec (fun _ ↦ True) (sessionRun session {} input)
      (fun a _ ↦ True ∧ a = outputs) E := by
  unfold sessionRun
  apply Spec.bind (Q := fun _ _ ↦ True) (Spec.modify fun _ _ ↦ trivial)
  intro _
  apply Spec.bind (Q := fun _ _ ↦ True) (Spec.pure fun _ _ ↦ trivial)
  intro _
  rw [hs]
  exact Spec.pure fun _ _ ↦ ⟨trivial, rfl⟩

private theorem sessionRunBinding_ok {E : CppException → OnnxEngine F → Prop}
    {session : Session F} {input output : Tensor F} {rest : List (OrtValue F)}
    (hs : session.run input = .ok (.tensor output :: rest)) :
    Spec (fun _ ↦ True) (sessionRunBinding session {} input output.shape)
      (fun a _ ↦ True ∧ a = output) E := by
  unfold sessionRunBinding
  apply Spec.bind_of (sessionRun_ok hs)
  rintro _ rfl
  dsimp only
  rw [(session.bind_eq_none _ _).mpr rfl]
  exact Spec.pure fun _ _ ↦ ⟨trivial, rfl⟩

private theorem translateOrtErrors_ok {α : Type} {Q : α → σ → Prop} {what : String}
    {fn : Act CppException σ α} (h : Spec P fn Q fun _ _ ↦ False) :
    Spec P (translateOrtErrors what fn) Q fun _ _ ↦ False := by
  apply Spec.tryCatch h
  intro _ _ hs
  exact hs.elim

private theorem hostInputData_ok [FloatOps F] {input : FloatVec F} {batchSize paddedBatch : Nat}
    (hsize : input.size = batchSize * opts.inputElems) (hb : batchSize ≤ paddedBatch)
    (hfit : paddedBatch * opts.inputElems < 2 ^ 61) :
    Spec P (hostInputData opts.inputElems input batchSize paddedBatch)
      (fun a s ↦ P s ∧ a = input.toList ++
        List.replicate (paddedBatch * opts.inputElems - input.size) 0) E := by
  have hmul : batchSize * opts.inputElems ≤ paddedBatch * opts.inputElems :=
    Nat.mul_le_mul_right _ hb
  unfold hostInputData
  apply Spec.ite
  · intro _
    rw [sizeMul_of_lt (by omega)]
    apply Spec.bind_of (φ := fun v : FloatVec F ↦
      v.toList = List.replicate (paddedBatch * opts.inputElems) 0)
    · unfold zeroVector
      rw [dif_pos hfit]
      exact Spec.pure fun _ hs ↦ ⟨hs, rfl⟩
    intro v hv
    refine Spec.conseq (copyBytes_spec (Nat.lt_of_lt_of_le input.size_lt (by decide))
      (Nat.le_refl _) ?_) (fun _ h ↦ h) ?_ (fun _ _ h ↦ h)
    · rw [hv, List.length_replicate, hsize]
      exact hmul
    · rintro _ s ⟨hs, rfl⟩
      refine ⟨hs, ?_⟩
      rw [FloatVec.take_size, hv, overwrite, List.drop_replicate]
      rfl
  · intro heq
    rw [not_not.mp heq, ← hsize, Nat.sub_self]
    exact Spec.pure fun s hs ↦ ⟨hs, by simp⟩

end Primitives

/-- `run_bound` after staging returns what the session makes of the staged rows, when the
output has the bound shape. -/
theorem runStaged_value (hk : Kept opts true buf e) {session : Session F}
    {batchSize paddedBatch : Nat} (hb : batchSize ≤ paddedBatch)
    (hp : paddedBatch ≤ opts.maxBatch) {t o : Tensor F} {rest : List (OrtValue F)}
    (hshape : t.shape = inputShape paddedBatch)
    (hdata : t.data = e.deviceInput.take (inputShape paddedBatch).prod)
    (hfit : (inputShape paddedBatch).prod ≤ paddedBatch * opts.inputElems)
    (hs : session.run t = .ok (.tensor o :: rest)) (ho : o.shape = [paddedBatch, opts.outputElems])
    {v : FloatVec F} (hv : v.toList = o.data.take (batchSize * opts.outputElems)) :
    (runStaged session {} batchSize paddedBatch).value e = some v := by
  obtain ⟨-, hdlen, holen, hdolen⟩ := hk.sizes rfl
  obtain ⟨hiaddr, hoaddr, hin, hout, hrow⟩ := hk.extents hb hp
  have hlen : o.data.length = paddedBatch * opts.outputElems := by
    rw [o.size_eq, ho]
    simp
  have hdev : (overwrite e.deviceOutput o.data).length = opts.maxBatch * opts.outputElems := by
    rw [length_overwrite (by omega), hdolen]
  refine Spec.value_eq (P := fun s ↦ e = s) ?_ rfl
  unfold runStaged
  apply translateOrtErrors_ok
  apply Spec.get_bind
  rintro _ rfl
  rw [hk.options, sizeMul_of_lt (by omega : paddedBatch * opts.inputElems < 2 ^ 64),
    sizeMul_of_lt (by omega : paddedBatch * opts.outputElems < 2 ^ 64),
    sizeMul_of_lt (by omega : batchSize * opts.outputElems < 2 ^ 64), ← hshape]
  rw [← hshape] at hdata hfit
  apply Spec.conseq (P := fun _ ↦ True) _ (fun _ _ ↦ trivial) (fun _ _ h ↦ h) (fun _ _ h ↦ h)
  apply Spec.bind_of (createTensor_ok hdata hfit (by omega) (by omega))
  rintro _ rfl
  -- the bound output tensor is only used for its shape
  apply Spec.bind_of (φ := fun a : Tensor F ↦ a.shape = o.shape)
  · rw [← ho]
    refine Spec.conseq (createTensor_ok (P := fun _ ↦ True)
      (t := ⟨o.shape, e.deviceOutput.take o.shape.prod, ?_⟩) rfl ?_ (by omega) (by omega))
      (fun _ h ↦ h) ?_ (fun _ _ h ↦ h)
    · rw [List.length_take, ← o.size_eq]
      omega
    · rw [← o.size_eq]
      exact Nat.le_of_eq hlen
    · rintro _ _ ⟨-, rfl⟩
      exact ⟨trivial, rfl⟩
  intro outputTensor houtput
  rw [houtput]
  apply Spec.bind_of (sessionRunBinding_ok hs)
  rintro _ rfl
  apply Spec.bind (Q := fun _ _ ↦ True) (Spec.modify fun _ _ ↦ trivial)
  intro _
  apply Spec.bind (cudaCheck_spec _ _ fun _ _ hf _ ↦ absurd rfl hf)
  intro _
  apply Spec.bind_of (copyBytes_spec (by omega) (by omega) (by omega))
  rintro _ rfl
  apply Spec.bind (Q := fun _ _ ↦ True) (Spec.modify fun _ _ ↦ trivial)
  intro _
  apply Spec.bind (cudaCheck_spec _ _ fun _ _ hf _ ↦ absurd rfl hf)
  intro _
  apply readVector_ok
  · rw [hv, take_overwrite (by rw [List.length_take]; omega), List.take_take,
      Nat.min_eq_left hrow, take_overwrite (by omega)]
  · rw [length_overwrite (by rw [List.length_take]; omega)]
    omega

variable [FloatOps F]

/-- Staging without a CUDA failure. -/
theorem stageInput_outcome (hn : opts.normalizeOnDevice = false) (hk : Kept opts true buf e)
    {input : FloatVec F} {paddedBatch : Nat}
    (hsize : input.size ≤ paddedBatch * opts.inputElems) (hp : paddedBatch ≤ opts.maxBatch) :
    ∃ t, (stageInput {} input paddedBatch).outcome e = some (.ok (), t) ∧
      Kept opts true (overwrite buf input.toList) t ∧
      t.deviceInput.take (paddedBatch * opts.inputElems) =
        (overwrite buf input.toList).take (paddedBatch * opts.inputElems) := by
  obtain ⟨r, t, hr, hpost⟩ := stageInput_spec hn {} hsize hp e hk
  cases r with
  | ok u => exact ⟨t, hr, hpost⟩
  | error ex => simp at hpost

/-- The host path pads with zeros. -/
theorem hostInputData_value {input : FloatVec F} {batchSize paddedBatch : Nat}
    (hsize : input.size = batchSize * opts.inputElems) (hb : batchSize ≤ paddedBatch)
    (hfit : paddedBatch * opts.inputElems < 2 ^ 61) (s : σ) :
    (hostInputData opts.inputElems input batchSize paddedBatch).value s =
      some (input.toList ++
        List.replicate (paddedBatch * opts.inputElems - input.size) 0) := by
  apply Spec.value_eq (P := fun _ ↦ True) _ trivial
  exact Spec.conseq (hostInputData_ok hsize hb hfit) (fun _ h ↦ h) (fun _ _ h ↦ h.2)
    (fun _ _ h ↦ h)

/-- The host path returns what the session makes of the padded rows. -/
theorem runHost_value {session : Session F} {input : FloatVec F} {batchSize paddedBatch : Nat}
    (ho : e.options = opts) (hsize : input.size = batchSize * opts.inputElems)
    (hb : batchSize ≤ paddedBatch) (hin : paddedBatch * opts.inputElems < 2 ^ 61)
    (hout : paddedBatch * opts.outputElems < 2 ^ 61) {v : FloatVec F}
    (hv : Answers session opts (input.toList ++
      List.replicate (paddedBatch * opts.inputElems - input.size) 0) batchSize paddedBatch v) :
    (runHost session {} input batchSize paddedBatch).value e = some v := by
  obtain ⟨t, o, rest, hshape, hdata, hfit, hs, hlen, hvec⟩ := hv
  have hrow : batchSize * opts.outputElems ≤ paddedBatch * opts.outputElems :=
    Nat.mul_le_mul_right _ hb
  have hmul : batchSize * opts.inputElems ≤ paddedBatch * opts.inputElems :=
    Nat.mul_le_mul_right _ hb
  rw [sizeMul_of_lt (by omega)] at hfit hlen hvec
  refine Spec.value_eq (P := fun s ↦ e = s) ?_ rfl
  unfold runHost
  apply Spec.get_bind
  rintro _ rfl
  rw [ho]
  apply Spec.conseq (P := fun _ ↦ True) _ (fun _ _ ↦ trivial) (fun _ _ h ↦ h) (fun _ _ h ↦ h)
  apply Spec.bind_of (hostInputData_ok hsize hb hin)
  rintro _ rfl
  apply translateOrtErrors_ok
  rw [sizeMul_of_lt (by omega : paddedBatch * opts.inputElems < 2 ^ 64),
    sizeMul_of_lt (by omega : paddedBatch * opts.outputElems < 2 ^ 64),
    sizeMul_of_lt (by omega : batchSize * opts.outputElems < 2 ^ 64), ← hshape]
  rw [← hshape] at hdata hfit
  apply Spec.bind_of (createTensor_ok hdata hfit ?_ (by omega))
  · rintro _ rfl
    apply Spec.bind_of (sessionRun_ok hs)
    rintro _ rfl
    simp only [hlen, ne_eq, not_true_eq_false, ↓reduceIte]
    exact readVector_ok hvec (by omega)
  · rw [List.length_append, List.length_replicate]
    simp only [FloatVec.size] at hsize ⊢
    omega

/-- The bound path returns what the session makes of the front of the pinned input, when the
output has the bound shape. -/
theorem runBound_value (hn : opts.normalizeOnDevice = false) (hk : Kept opts true buf e)
    {session : Session F} {input : FloatVec F} {batchSize paddedBatch : Nat}
    (hsize : input.size = batchSize * opts.inputElems) (hb : batchSize ≤ paddedBatch)
    (hp : paddedBatch ≤ opts.maxBatch) {t o : Tensor F} {rest : List (OrtValue F)}
    (hshape : t.shape = inputShape paddedBatch)
    (hdata : t.data = ((overwrite buf input.toList).take
      (paddedBatch * opts.inputElems)).take (inputShape paddedBatch).prod)
    (hfit : (inputShape paddedBatch).prod ≤ paddedBatch * opts.inputElems)
    (hs : session.run t = .ok (.tensor o :: rest)) (ho : o.shape = [paddedBatch, opts.outputElems])
    {v : FloatVec F} (hv : v.toList = o.data.take (batchSize * opts.outputElems)) :
    (runBound session {} input batchSize paddedBatch).value e = some v := by
  have hle : input.size ≤ paddedBatch * opts.inputElems := by
    rw [hsize]
    exact Nat.mul_le_mul_right _ hb
  obtain ⟨m, hm, hkm, hrows⟩ := stageInput_outcome hn hk hle hp
  rw [← hrows, List.take_take, Nat.min_eq_left hfit] at hdata
  obtain ⟨m', hm'⟩ := value_eq_some.mp (runStaged_value hkm hb hp hshape hdata hfit hs ho hv)
  rw [value_eq_some, runBound, outcome_bind_ok hm]
  exact ⟨m', hm'⟩

/-- The path that a batch of the right size takes. -/
theorem runInference_path {active : Bool} (ho : e.options = opts) (ha : e.ioBindingActive = active)
    (session : Session F) (env : CallEnv) {input : FloatVec F} {batchSize : Nat}
    (hone : 1 ≤ batchSize) (hsize : input.size = batchSize * opts.inputElems) :
    (runInference session env input batchSize opts.inputElems opts.outputElems).outcome e =
      (if active && fitsPreallocated opts.batchBuckets (bucketFor opts.batchBuckets batchSize) then
        runBound session env input batchSize (bucketFor opts.batchBuckets batchSize)
      else runHost session env input batchSize
        (bucketFor opts.batchBuckets batchSize)).outcome e := by
  have hlt : batchSize * opts.inputElems < 2 ^ 64 := by
    rw [← hsize]
    exact Nat.lt_trans input.size_lt (by decide)
  unfold runInference
  rw [outcome_bind_ok (outcome_get e), ho, ha,
    if_neg (by rw [sizeMul_of_lt hlt]; exact not_not.mpr hsize), if_neg (by omega),
    if_neg (by simp)]

/-- A call that goes to the bound path returns what that path returns. -/
theorem runInference_value_bound {session : Session F} (hk : Kept opts true buf e)
    {input : FloatVec F} {batchSize : Nat} (hone : 1 ≤ batchSize)
    (hsize : input.size = batchSize * opts.inputElems)
    (hfits : fitsPreallocated opts.batchBuckets (bucketFor opts.batchBuckets batchSize) = true)
    {v : FloatVec F}
    (hv : (runBound session {} input batchSize (bucketFor opts.batchBuckets batchSize)).value e =
      some v) :
    (runInference session {} input batchSize opts.inputElems opts.outputElems).value e =
      some v := by
  rw [value_eq_some, runInference_path hk.options hk.ioBindingActive _ _ hone hsize, hfits]
  exact value_eq_some.mp hv

/-- A call that goes to the host path returns what that path returns. -/
theorem runInference_value_host {session : Session F} (hk : Kept opts false buf e)
    {input : FloatVec F} {batchSize : Nat} (hone : 1 ≤ batchSize)
    (hsize : input.size = batchSize * opts.inputElems) {v : FloatVec F}
    (hv : (runHost session {} input batchSize (bucketFor opts.batchBuckets batchSize)).value e =
      some v) :
    (runInference session {} input batchSize opts.inputElems opts.outputElems).value e =
      some v := by
  rw [value_eq_some, runInference_path hk.options hk.ioBindingActive _ _ hone hsize]
  exact value_eq_some.mp hv

end InferenceServer.Engine.OnnxEngine
