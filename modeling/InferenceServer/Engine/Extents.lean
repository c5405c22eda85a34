import InferenceServer.Engine.Kernel
import InferenceServer.Engine.OnnxConstruct

/-!
# What a call touches of the preallocated buffers

Library `Engine`. `cpp/src/engine/onnx_execution_engine.cpp:194–237,307–408`, for every
configuration. A call never resizes a buffer, and presents at most one tensor to the session.
The buffers are sized by one product of `std::size_t` values and every copy by another; the
bound path stays inside its buffers when the largest of these products does not wrap, and
leaves them otherwise.
-/

namespace InferenceServer.Engine

open InferenceServer.Base InferenceServer.Base.Act

variable {F σ : Type}

/-- A count below `2 ^ 31` survives the conversion to `int`. -/
theorem toInt32_of_lt {n : Nat} (h : n < 2 ^ 31) : toInt32 n = n := by
  rw [toInt32, BitVec.toInt_eq_toNat_cond, BitVec.toNat_ofNat, Nat.mod_eq_of_lt (by omega),
    if_pos (by omega)]

/-! ### The primitives where they are defined -/

section Primitives

variable {P : σ → Prop}

theorem copyBytes_ensures {E : CppException → σ → Prop} (dst src : List F) (bytes : Nat) :
    Ensures P (copyBytes dst src bytes)
      (fun d s ↦ P s ∧ d = overwrite dst (src.take (bytes / 4)) ∧ bytes / 4 ≤ src.length ∧
        bytes / 4 ≤ dst.length) E := by
  apply Ensures.ite
  · rintro ⟨hs, hd⟩
    exact Ensures.pure fun _ h ↦ ⟨h, rfl, hs, hd⟩
  · intro _
    exact Ensures.undefined

theorem createTensor_ensures (session : Session F) (data : List F) (len : Nat)
    (shape : List Nat) :
    Ensures P (createTensor session data len shape)
      (fun t s ↦ P s ∧ t.shape = shape ∧ t.data = data.take shape.prod ∧
        shape.prod ≤ data.length) (fun _ ↦ P) := by
  unfold createTensor
  apply Ensures.bind (ortCheck_spec _ fun _ _ _ h ↦ h).ensures
  intro _
  split
  · next hle => exact Ensures.pure fun _ h ↦ ⟨h, rfl, rfl, hle⟩
  · exact Ensures.undefined

theorem readVector_ensures (data : List F) (count : Nat) :
    Ensures P (readVector data count) (fun _ ↦ P) (fun _ ↦ P) := by
  unfold readVector
  split
  · apply Ensures.ite
    · intro _
      exact Ensures.pure fun _ h ↦ h
    · intro _
      exact Ensures.undefined
  · exact Ensures.throw fun _ h ↦ h

theorem translateOrtErrors_ensures {α : Type} {P' : σ → Prop} {Q : α → σ → Prop} {what : String}
    {fn : Act CppException σ α} (h : Ensures P fn Q (fun _ ↦ P')) :
    Ensures P (translateOrtErrors what fn) Q (fun _ ↦ P') := by
  apply Ensures.tryCatch h
  intro e
  split
  · exact Ensures.throw fun _ hs ↦ hs
  · exact Ensures.throw fun _ hs ↦ hs

end Primitives

/-- Narrowing to `int` never increases a count. -/
theorem toInt32_le (n : Nat) : toInt32 n ≤ n := by
  rw [toInt32, BitVec.toInt_eq_toNat_cond, BitVec.toNat_ofNat]
  split
  · omega
  · omega

namespace OnnxEngine

/-- Floats in each preallocated input buffer, `onnx_execution_engine.cpp:195–208`. -/
def inputFloats (opts : OnnxOptions F) : Nat :=
  floatBytes (sizeMul opts.maxBatch opts.inputElems) / 4

/-- Floats in each preallocated output buffer. -/
def outputFloats (opts : OnnxOptions F) : Nat :=
  floatBytes (sizeMul opts.maxBatch opts.outputElems) / 4

variable {opts : OnnxOptions F} {e s : OnnxEngine F} {rs : List (Tensor F)} {d : List F}

/-! ### What a call leaves alone -/

/-- `s` differs from `e` only in the contents of the four buffers and in the tensors presented. -/
structure Frame (e s : OnnxEngine F) : Prop where
  options : s.options = e.options
  ioBindingActive : s.ioBindingActive = e.ioBindingActive
  hostInput : s.hostInput.length = e.hostInput.length
  deviceInput : s.deviceInput.length = e.deviceInput.length
  hostOutput : s.hostOutput.length = e.hostOutput.length
  deviceOutput : s.deviceOutput.length = e.deviceOutput.length
  deviceMean : s.deviceMean = e.deviceMean
  deviceStddev : s.deviceStddev = e.deviceStddev

theorem Frame.refl (e : OnnxEngine F) : Frame e e := ⟨rfl, rfl, rfl, rfl, rfl, rfl, rfl, rfl⟩

/-- After the tensors `rs` at most one was presented, of a shape in `S`. -/
def AtMostOne (rs : List (Tensor F)) (S : List Nat → Prop) (s : OnnxEngine F) : Prop :=
  s.runs = rs ∨ ∃ t : Tensor F, s.runs = rs ++ [t] ∧ S t.shape

theorem sessionRun_frame (session : Session F) (env : CallEnv) (t : Tensor F) :
    Ensures (fun s ↦ Frame e s ∧ s.runs = rs) (sessionRun session env t)
      (fun _ s ↦ Frame e s ∧ s.runs = rs ++ [t]) (fun _ s ↦ Frame e s ∧ s.runs = rs ++ [t]) := by
  apply Ensures.bind (Q := fun _ s ↦ Frame e s ∧ s.runs = rs ++ [t])
  · apply Ensures.modify
    rintro s ⟨hs, rfl⟩
    exact ⟨{ hs with }, rfl⟩
  intro _
  apply Ensures.bind (ortCheck_spec env.run fun _ _ _ hs ↦ hs).ensures
  intro _
  split
  · exact Ensures.throw fun _ hs ↦ hs
  · exact Ensures.pure fun _ hs ↦ hs

theorem sessionRunBinding_frame (session : Session F) (env : CallEnv) (t : Tensor F)
    (outputShape : List Nat) :
    Ensures (fun s ↦ Frame e s ∧ s.runs = rs) (sessionRunBinding session env t outputShape)
      (fun output s ↦ (Frame e s ∧ s.runs = rs ++ [t]) ∧ output.shape = outputShape)
      (fun _ s ↦ Frame e s ∧ s.runs = rs ++ [t]) := by
  apply Ensures.bind (sessionRun_frame session env t)
  intro outputs
  split
  · apply Ensures.bind (ortCheck_passed _).ensures
    intro _
    exact Ensures.pure fun _ hs ↦ ⟨hs.1, (session.bind_eq_none _ _).mp hs.2⟩
  · exact Ensures.throw fun _ hs ↦ hs

/-- The bound path presents the front of the device input, and otherwise touches the output
buffers alone. -/
theorem runStaged_frame (session : Session F) (env : CallEnv) (batchSize paddedBatch : Nat) :
    Ensures (fun s ↦ (Frame e s ∧ s.runs = rs) ∧ s.deviceInput = d)
      (runStaged session env batchSize paddedBatch)
      (fun _ s ↦ Frame e s ∧ ∃ t : Tensor F, s.runs = rs ++ [t] ∧
        t.shape = inputShape paddedBatch ∧ t.data = d.take (inputShape paddedBatch).prod ∧
        (inputShape paddedBatch).prod ≤ d.length)
      (fun _ s ↦ Frame e s ∧ AtMostOne rs (· = inputShape paddedBatch) s) := by
  unfold runStaged
  apply translateOrtErrors_ensures
  apply Ensures.get_bind
  rintro m ⟨⟨hm, -⟩, rfl⟩
  apply Ensures.conseq (P := fun s ↦ Frame e s ∧ s.runs = rs) _ (fun _ hs ↦ hs.1)
    (fun _ _ hs ↦ hs) (fun _ _ hs ↦ hs)
  apply Ensures.bind_of (Ensures.conseq (createTensor_ensures session _ _ _) (fun _ hs ↦ hs)
    (fun _ _ hs ↦ hs) (fun _ _ hs ↦ ⟨hs.1, .inl hs.2⟩))
  rintro input ⟨hshape, hdata, hfit⟩
  apply Ensures.bind_of (Ensures.conseq (createTensor_ensures session _ _ _) (fun _ hs ↦ hs)
    (fun _ _ hs ↦ hs) (fun _ _ hs ↦ ⟨hs.1, .inl hs.2⟩))
  rintro outputTensor ⟨hoshape, -, hofit⟩
  -- from here on the tensor was presented, whatever comes of it
  apply Ensures.conseq (P := fun s ↦ Frame e s ∧ s.runs = rs)
    (Q := fun _ s ↦ Frame e s ∧ s.runs = rs ++ [input])
    (E := fun _ s ↦ Frame e s ∧ s.runs = rs ++ [input]) _ (fun _ hs ↦ hs)
    (fun _ _ hs ↦ ⟨hs.1, input, hs.2, hshape, hdata, hfit⟩)
    (fun _ _ hs ↦ ⟨hs.1, .inr ⟨input, hs.2, hshape⟩⟩)
  apply Ensures.bind_of (sessionRunBinding_frame session env input _)
  intro output hbound
  have hoverwrite : (overwrite m.deviceOutput output.data).length = e.deviceOutput.length := by
    rw [length_overwrite (by rw [output.size_eq, hbound, hoshape]; exact hofit)]
    exact hm.deviceOutput
  apply Ensures.bind (Q := fun _ s ↦ Frame e s ∧ s.runs = rs ++ [input])
  · apply Ensures.modify
    rintro s ⟨hs, hruns⟩
    exact ⟨{ hs with deviceOutput := hoverwrite }, hruns⟩
  intro _
  apply Ensures.bind (cudaCheck_spec env.d2h _ fun _ _ _ hs ↦ hs).ensures
  intro _
  apply Ensures.bind_of (copyBytes_ensures _ _ _)
  rintro hostOutput ⟨rfl, -, hcopied⟩
  apply Ensures.bind (Q := fun _ s ↦ Frame e s ∧ s.runs = rs ++ [input])
  · apply Ensures.modify
    rintro s ⟨hs, hruns⟩
    refine ⟨{ hs with hostOutput := ?_ }, hruns⟩
    rw [length_overwrite (by rw [List.length_take]; omega)]
    exact hm.hostOutput
  intro _
  apply Ensures.bind (cudaCheck_spec env.syncPost _ fun _ _ _ hs ↦ hs).ensures
  intro _
  exact readVector_ensures _ _

variable [FloatOps F]

/-- Staging touches the input buffers alone. -/
theorem stageInput_frame (env : CallEnv) (input : FloatVec F) (paddedBatch : Nat) :
    Ensures (fun s ↦ Frame e s ∧ s.runs = rs) (stageInput env input paddedBatch)
      (fun _ s ↦ Frame e s ∧ s.runs = rs) (fun _ s ↦ Frame e s ∧ s.runs = rs) := by
  unfold stageInput
  apply Ensures.get_bind
  rintro m ⟨hm, -⟩
  apply Ensures.bind_of (copyBytes_ensures _ _ _)
  rintro host ⟨rfl, -, hhost⟩
  apply Ensures.bind (Q := fun _ s ↦ Frame e s ∧ s.runs = rs)
  · apply Ensures.modify
    rintro s ⟨hs, hruns⟩
    refine ⟨{ hs with hostInput := ?_ }, hruns⟩
    rw [length_overwrite (by rw [List.length_take]; omega)]
    exact hm.hostInput
  intro _
  apply Ensures.bind (cudaCheck_spec env.h2d _ fun _ _ _ hs ↦ hs).ensures
  intro _
  apply Ensures.bind_of (copyBytes_ensures _ _ _)
  rintro device ⟨hdevice, -, hdst⟩
  have hlen : device.length = e.deviceInput.length := by
    rw [hdevice, length_overwrite (by rw [List.length_take]; omega)]
    exact hm.deviceInput
  apply Ensures.bind (Q := fun _ s ↦ Frame e s ∧ s.runs = rs)
  · apply Ensures.modify
    rintro s ⟨hs, hruns⟩
    exact ⟨{ hs with deviceInput := hlen }, hruns⟩
  intro _
  apply Ensures.bind (Q := fun _ s ↦ Frame e s ∧ s.runs = rs)
  · apply Ensures.runIf _ (fun _ _ hs ↦ hs)
    intro _
    apply Ensures.bind_of (launchNormalize_ensures _ _ _ _ _ _ _)
    rintro data ⟨hdata, -⟩
    apply Ensures.modify
    rintro s ⟨hs, hruns⟩
    exact ⟨{ hs with deviceInput := hdata.trans hlen }, hruns⟩
  intro _
  exact (cudaCheck_spec env.syncPre _ fun _ _ _ hs ↦ hs).ensures

theorem runBound_frame (session : Session F) (env : CallEnv) (input : FloatVec F)
    (batchSize paddedBatch : Nat) :
    Ensures (fun s ↦ Frame e s ∧ s.runs = rs) (runBound session env input batchSize paddedBatch)
      (fun _ s ↦ Frame e s ∧ AtMostOne rs (· = inputShape paddedBatch) s)
      (fun _ s ↦ Frame e s ∧ AtMostOne rs (· = inputShape paddedBatch) s) := by
  apply Ensures.bind (Ensures.conseq (stageInput_frame env input paddedBatch) (fun _ hs ↦ hs)
    (fun _ _ hs ↦ hs) (fun _ _ hs ↦ ⟨hs.1, .inl hs.2⟩))
  intro _
  apply Ensures.of_start (·.deviceInput)
  intro d
  apply Ensures.conseq (runStaged_frame session env batchSize paddedBatch) (fun _ hs ↦ hs) _
    (fun _ _ hs ↦ hs)
  rintro _ u ⟨hu, tensor, hruns, hshape, -⟩
  exact ⟨hu, .inr ⟨tensor, hruns, hshape⟩⟩

theorem hostInputData_ensures {P : σ → Prop} (inputElems : Nat) (input : FloatVec F)
    (batchSize paddedBatch : Nat) :
    Ensures P (hostInputData inputElems input batchSize paddedBatch) (fun _ ↦ P) (fun _ ↦ P) := by
  apply Ensures.ite
  · intro _
    apply Ensures.bind_of (zeroVector_spec _).ensures
    intro padded _
    exact Ensures.conseq (copyBytes_ensures _ _ _) (fun _ hs ↦ hs) (fun _ _ hs ↦ hs.1)
      (fun _ _ hs ↦ hs)
  · intro _
    exact Ensures.pure fun _ hs ↦ hs

theorem runHost_frame (session : Session F) (env : CallEnv) (input : FloatVec F)
    (batchSize paddedBatch : Nat) :
    Ensures (fun s ↦ Frame e s ∧ s.runs = rs) (runHost session env input batchSize paddedBatch)
      (fun _ s ↦ Frame e s ∧ AtMostOne rs (· = inputShape paddedBatch) s)
      (fun _ s ↦ Frame e s ∧ AtMostOne rs (· = inputShape paddedBatch) s) := by
  unfold runHost
  apply Ensures.get_bind
  intro m _
  apply Ensures.bind (Ensures.conseq (hostInputData_ensures _ input batchSize paddedBatch)
    (fun _ hs ↦ hs) (fun _ _ hs ↦ hs) (fun _ _ hs ↦ ⟨hs.1, .inl hs.2⟩))
  intro data
  apply translateOrtErrors_ensures
  apply Ensures.bind_of (Ensures.conseq (createTensor_ensures session _ _ _) (fun _ hs ↦ hs)
    (fun _ _ hs ↦ hs) (fun _ _ hs ↦ ⟨hs.1, .inl hs.2⟩))
  rintro tensor ⟨hshape, -, -⟩
  apply Ensures.conseq (P := fun s ↦ Frame e s ∧ s.runs = rs)
    (Q := fun _ s ↦ Frame e s ∧ s.runs = rs ++ [tensor])
    (E := fun _ s ↦ Frame e s ∧ s.runs = rs ++ [tensor]) _ (fun _ hs ↦ hs)
    (fun _ _ hs ↦ ⟨hs.1, .inr ⟨tensor, hs.2, hshape⟩⟩)
    (fun _ _ hs ↦ ⟨hs.1, .inr ⟨tensor, hs.2, hshape⟩⟩)
  apply Ensures.bind (sessionRun_frame session env tensor)
  intro outputs
  split
  · apply Ensures.ite
    · intro _
      exact Ensures.throw fun _ hs ↦ hs
    · intro _
      exact readVector_ensures _ _
  · exact Ensures.throw fun _ hs ↦ hs

/-- A call presents at most one tensor, padded to the bucket of its batch. -/
theorem runInference_frame (session : Session F) (c : InferenceCall F) :
    Ensures (fun s ↦ s = e)
      (runInference session c.env c.batchedInput c.batchSize c.inputElems c.outputElems)
      (fun _ s ↦ Frame e s ∧ AtMostOne e.runs
        (· = inputShape (bucketFor e.options.batchBuckets c.batchSize)) s)
      (fun _ s ↦ Frame e s ∧ AtMostOne e.runs
        (· = inputShape (bucketFor e.options.batchBuckets c.batchSize)) s) := by
  have hstart : ∀ s, s = e → Frame e s ∧ s.runs = e.runs := by
    rintro s rfl
    exact ⟨Frame.refl s, rfl⟩
  unfold runInference
  apply Ensures.get_bind
  rintro _ rfl
  apply Ensures.ite
  · intro _
    exact Ensures.throw fun s hs ↦ ⟨(hstart s hs).1, .inl (hstart s hs).2⟩
  intro _
  apply Ensures.ite
  · intro _
    exact Ensures.pure fun s hs ↦ ⟨(hstart s hs).1, .inl (hstart s hs).2⟩
  intro _
  apply Ensures.ite
  · intro _
    exact Ensures.throw fun s hs ↦ ⟨(hstart s hs).1, .inl (hstart s hs).2⟩
  intro _
  apply Ensures.ite
  · intro _
    exact Ensures.conseq (runBound_frame session c.env c.batchedInput c.batchSize _) hstart
      (fun _ _ hs ↦ hs) (fun _ _ hs ↦ hs)
  · intro _
    exact Ensures.conseq (runHost_frame session c.env c.batchedInput c.batchSize _) hstart
      (fun _ _ hs ↦ hs) (fun _ _ hs ↦ hs)

/-! ### The buffers of a constructed engine -/

/-- The engine has the options `opts`, its bound path the buffers that were allocated for it, and
every tensor presented so far has a shape in `S`. -/
structure Sized (opts : OnnxOptions F) (S : List Nat → Prop) (e : OnnxEngine F) : Prop where
  options : e.options = opts
  extents : e.ioBindingActive = true →
    (e.hostInput.length = inputFloats opts ∧ e.deviceInput.length = inputFloats opts) ∧
      (e.hostOutput.length = outputFloats opts ∧ e.deviceOutput.length = outputFloats opts)
  addressable : e.ioBindingActive = true → inputFloats opts < 2 ^ 61 ∧ outputFloats opts < 2 ^ 61
  presented : ∀ t ∈ e.runs, S t.shape

variable {S : List Nat → Prop}

omit [FloatOps F] in
theorem Sized.frame {shape : List Nat} (h : Sized opts S e) (hf : Frame e s)
    (hr : AtMostOne e.runs (· = shape) s) (hs : S shape) : Sized opts S s := by
  refine ⟨hf.options.trans h.options, ?_, ?_, ?_⟩
  · rw [hf.ioBindingActive, hf.hostInput, hf.deviceInput, hf.hostOutput, hf.deviceOutput]
    exact h.extents
  · rw [hf.ioBindingActive]
    exact h.addressable
  · rcases hr with heq | ⟨t, heq, rfl⟩
    · rw [heq]
      exact h.presented
    · rw [heq]
      intro u hu
      rcases List.mem_append.mp hu with hold | hnew
      · exact h.presented u hold
      · rw [List.mem_singleton.mp hnew]
        exact hs

omit [FloatOps F] in
/-- Without the bound path there are no buffers to speak of. -/
theorem Sized.of_inactive (ho : e.options = opts) (ha : e.ioBindingActive = false)
    (hr : e.runs = []) : Sized opts S e := by
  refine ⟨ho, ?_, ?_, ?_⟩
  · simp [ha]
  · simp [ha]
  · simp [hr]

theorem runInference_sized (session : Session F) (c : InferenceCall F)
    (hs : S (inputShape (bucketFor opts.batchBuckets c.batchSize))) :
    Ensures (Sized opts S)
      (runInference session c.env c.batchedInput c.batchSize c.inputElems c.outputElems)
      (fun _ ↦ Sized opts S) (fun _ ↦ Sized opts S) := by
  intro e r t he hr
  have hframe := runInference_frame session c e r t rfl hr
  have hshape : S (inputShape (bucketFor e.options.batchBuckets c.batchSize)) := by
    rw [he.options]
    exact hs
  cases r with
  | ok v => exact he.frame hframe.1 hframe.2 hshape
  | error ex => exact he.frame hframe.1 hframe.2 hshape

/-- The engine a call leaves behind. -/
theorem call_of_outcome {session : Session F} {c : InferenceCall F} {t : OnnxEngine F}
    {answer : InferenceAnswer F}
    (h : (runInference session c.env c.batchedInput c.batchSize c.inputElems c.outputElems).outcome
      e = some (answer, t)) : call session e c = some t := by
  rw [call, h]
  rfl

theorem sized_call {session : Session F} {c : InferenceCall F}
    (hs : S (inputShape (bucketFor opts.batchBuckets c.batchSize))) {t : OnnxEngine F}
    (he : Sized opts S e) (h : call session e c = some t) : Sized opts S t := by
  rw [call, Option.map_eq_some_iff] at h
  obtain ⟨⟨r, u⟩, hr, rfl⟩ := h
  have hpost := runInference_sized session c hs e r u he hr
  cases r with
  | ok v => exact hpost
  | error ex => exact hpost

theorem warmBuckets_sized (session : Session F) (warm : Nat → CallEnv) (buckets : List Nat)
    (hs : ∀ bucket ∈ buckets, bucket ≠ 0 → S (inputShape (bucketFor opts.batchBuckets bucket))) :
    Ensures (Sized opts S) (warmBuckets session warm buckets) (fun _ ↦ Sized opts S)
      (fun _ ↦ Sized opts S) := by
  induction buckets with
  | nil => exact Ensures.pure fun _ h ↦ h
  | cons bucket buckets ih =>
    unfold warmBuckets
    apply Ensures.bind (Q := fun _ ↦ Sized opts S) _ fun _ ↦
      ih fun b hb ↦ hs b (List.mem_cons_of_mem _ hb)
    apply Ensures.runIf _ (fun _ _ h ↦ h)
    intro hne
    unfold warmBucket
    apply Ensures.get_bind
    intro e _
    apply Ensures.tryCatch (H := fun _ ↦ Sized opts S)
    · apply Ensures.bind_of (zeroVector_spec _).ensures
      intro input _
      apply Ensures.bind (runInference_sized session
        ⟨input, bucket, e.options.inputElems, e.options.outputElems, warm buckets.length⟩
        (hs bucket List.mem_cons_self hne))
      intro _
      exact Ensures.pure fun _ h ↦ h
    · intro _
      exact Ensures.pure fun _ h ↦ h

/-- Preallocating sizes all four buffers before it activates the bound path. -/
theorem allocateDeviceBuffers_sized (p : Platform F) :
    Ensures (fun e ↦ e.options = opts ∧ e.runs = []) (allocateDeviceBuffers p)
      (fun _ ↦ Sized opts S) (fun _ _ ↦ True) := by
  unfold allocateDeviceBuffers
  apply Ensures.get_bind
  rintro e ⟨he, -⟩
  rw [he]
  apply Ensures.tryCatch (H := fun _ e ↦ e.options = opts ∧ e.runs = [])
  · apply Ensures.bind (cudaCheck_spec _ _ fun _ _ _ hs ↦ hs).ensures
    intro _
    apply Ensures.bind (cudaCheck_spec _ _ fun _ _ _ hs ↦ hs).ensures
    intro _
    apply Ensures.bind_of (allocate_spec _ _ _ _ fun _ _ _ hs ↦ hs).ensures
    rintro hostInput ⟨hhi, hilt⟩
    apply Ensures.bind_of (allocate_spec _ _ _ _ fun _ _ _ hs ↦ hs).ensures
    rintro hostOutput ⟨hho, holt⟩
    apply Ensures.bind_of (allocate_spec _ _ _ _ fun _ _ _ hs ↦ hs).ensures
    rintro deviceInput ⟨hdi, -⟩
    apply Ensures.bind_of (allocate_spec _ _ _ _ fun _ _ _ hs ↦ hs).ensures
    rintro deviceOutput ⟨hdo, -⟩
    have haddr : inputFloats opts < 2 ^ 61 ∧ outputFloats opts < 2 ^ 61 := by
      unfold inputFloats outputFloats OnnxOptions.maxBatch
      omega
    -- the means and the flag do not matter to the sizes
    apply Ensures.conseq (P := fun e ↦ e.options = opts ∧ e.runs = [])
      (Q := fun _ e ↦ (e.options = opts ∧ e.runs = []) ∧ Sized opts S e)
      (E := fun _ e ↦ e.options = opts ∧ e.runs = []) _ (fun _ hs ↦ hs) (fun _ _ hs ↦ hs.2)
      (fun _ _ hs ↦ hs)
    apply Ensures.bind (Q := fun _ e ↦ (e.options = opts ∧ e.runs = []) ∧
      ∀ mean stddev active, Sized opts S
        { e with ioBindingActive := active, deviceMean := mean, deviceStddev := stddev })
    · apply Ensures.modify
      rintro s ⟨hs, hruns⟩
      refine ⟨⟨hs, hruns⟩, ?_⟩
      intro mean stddev active
      refine ⟨hs, fun _ ↦ ⟨⟨?_, hdi⟩, hho, hdo⟩, fun _ ↦ haddr, ?_⟩
      · exact List.length_replicate.trans hhi
      · intro t ht
        rw [hruns] at ht
        exact absurd ht List.not_mem_nil
    intro _
    apply Ensures.bind (Q := fun _ e ↦ (e.options = opts ∧ e.runs = []) ∧
      ∀ active, Sized opts S { e with ioBindingActive := active })
    · apply Ensures.runIf (fun _ ↦ ?_) (fun _ s hs ↦ ⟨hs.1, hs.2 s.deviceMean s.deviceStddev⟩)
      apply Ensures.bind_of (allocate_spec _ _ _ _ fun _ _ _ hs ↦ hs.1).ensures
      intro freshMean _
      apply Ensures.bind_of (allocate_spec _ _ _ _ fun _ _ _ hs ↦ hs.1).ensures
      intro freshStddev _
      apply Ensures.bind (cudaCheck_spec _ _ fun _ _ _ hs ↦ hs.1).ensures
      intro _
      apply Ensures.bind_of (copyBytes_ensures _ _ _)
      intro deviceMean _
      apply Ensures.bind (cudaCheck_spec _ _ fun _ _ _ hs ↦ hs.1).ensures
      intro _
      apply Ensures.bind_of (copyBytes_ensures _ _ _)
      intro deviceStddev _
      exact Ensures.modify fun s hs ↦ ⟨hs.1, hs.2 deviceMean deviceStddev⟩
    intro _
    apply Ensures.bind (ortCheck_spec _ fun _ _ _ hs ↦ hs.1).ensures
    intro _
    exact Ensures.modify fun s hs ↦ ⟨hs.1, hs.2 true⟩
  · intro ex
    apply Ensures.bind (Q := fun _ ↦ Sized opts S)
    · apply Ensures.modify
      rintro s ⟨hs, hruns⟩
      exact .of_inactive hs rfl hruns
    intro _
    exact Ensures.conseq (Ensures.throwIf (P := Sized opts S) fun _ _ _ ↦ trivial)
      (fun _ hs ↦ hs) (fun _ _ hs ↦ hs.1) (fun _ _ hs ↦ hs)

theorem checkNormalization_ensures {P : σ → Prop} :
    Ensures P (checkNormalization opts)
      (fun _ s ↦ P s ∧ opts.useIoBinding = true ∧ 0 < opts.mean.length ∧
        opts.mean.length = opts.stddev.length ∧ opts.inputElems % opts.mean.length = 0)
      (fun _ _ ↦ True) := by
  unfold checkNormalization
  apply Ensures.bind_of (Ensures.throwIf fun _ _ _ ↦ trivial)
  intro _ hio
  apply Ensures.bind_of (Ensures.throwIf fun _ _ _ ↦ trivial)
  intro _ hmean
  apply Ensures.bind_of (Ensures.throwIf fun _ _ _ ↦ trivial)
  intro _ _
  refine Ensures.conseq (Ensures.throwIf (P := P) fun _ _ _ ↦ trivial) (fun _ hs ↦ hs)
    ?_ (fun _ _ hs ↦ hs)
  rintro _ _ ⟨hs, hplanes⟩
  obtain ⟨hne, hequal⟩ := not_or.mp hmean
  refine ⟨hs, Bool.not_eq_false _ ▸ hio, ?_, not_not.mp hequal, not_not.mp hplanes⟩
  rw [List.length_pos_iff]
  simpa using hne

/-- A constructed engine has ascending buckets and the buffers that were allocated for them. -/
theorem construct_sized (session : Session F) (p : Platform F)
    (hs : ∀ bucket ∈ opts.batchBuckets, bucket ≠ 0 →
      S (inputShape (bucketFor opts.batchBuckets bucket))) :
    Ensures (fun e ↦ e = { options := opts }) (construct session p)
      (fun _ e ↦ opts.batchBuckets.Pairwise (· ≤ ·) ∧ Sized opts S e) (fun _ _ ↦ True) := by
  unfold construct
  apply Ensures.get_bind
  rintro e rfl
  apply Ensures.bind_of (Ensures.throwIf fun _ _ _ ↦ trivial)
  intro _ _
  apply Ensures.bind (translateOrtErrors_spec (ortCheck_spec _ fun _ _ _ _ ↦ trivial)).ensures
  intro _
  apply Ensures.bind_of (Ensures.throwIf fun _ _ _ ↦ trivial)
  intro _ _
  apply Ensures.bind_of (Ensures.throwIf fun _ _ _ ↦ trivial)
  intro _ hascending
  apply Ensures.bind (Q := fun _ e ↦ e = { options := opts })
  · apply Ensures.runIf _ (fun _ _ h ↦ h)
    intro _
    exact Ensures.conseq checkNormalization_ensures (fun _ h ↦ h) (fun _ _ h ↦ h.1)
      (fun _ _ h ↦ h)
  intro _
  apply Ensures.bind (translateOrtErrors_spec (ortCheck_spec _ fun _ _ _ _ ↦ trivial)).ensures
  intro _
  apply Ensures.bind (Q := fun _ ↦ Sized opts S)
  · apply Ensures.runIf
    · intro _
      apply Ensures.conseq (allocateDeviceBuffers_sized p) _ (fun _ _ h ↦ h) (fun _ _ h ↦ h)
      rintro s rfl
      exact ⟨rfl, rfl⟩
    · rintro _ s rfl
      exact .of_inactive rfl rfl rfl
  intro _
  apply Ensures.conseq (P := Sized opts S) (Q := fun _ ↦ Sized opts S) (E := fun _ _ ↦ True) _
    (fun _ h ↦ h) (fun _ _ h ↦ ⟨not_not.mp hascending, h⟩) (fun _ _ h ↦ h)
  apply Ensures.runIf _ (fun _ _ h ↦ h)
  intro _
  exact Ensures.conseq (warmBuckets_sized session p.warm opts.batchBuckets hs) (fun _ h ↦ h)
    (fun _ _ h ↦ h) (fun _ _ _ ↦ trivial)

/-- After any calls on a constructed engine its buffers still have the sizes allocated. -/
theorem Constructed.sized {session : Session F} {p : Platform F} {e₀ : OnnxEngine F}
    (hc : Constructed session p opts e₀) {cs : List (InferenceCall F)}
    (hr : exec (call session) e₀ cs = some e) :
    opts.batchBuckets.Pairwise (· ≤ ·) ∧ Sized opts (fun _ ↦ True) e := by
  obtain ⟨hascending, he₀⟩ := construct_sized (S := fun _ ↦ True) session p
    (fun _ _ _ ↦ trivial) _ _ _ rfl hc
  refine ⟨hascending, exec_preserves ?_ hr he₀⟩
  intro s c t hs ht
  exact sized_call trivial hs ht

/-! ### Extents of the bound path -/

/-- Every access of `run_bound` for the call, in bytes of the buffers it is made in: the copy
into the pinned input, the upload, both tensors, the download and the rows returned. -/
structure InBounds (opts : OnnxOptions F) (e : OnnxEngine F) (c : InferenceCall F)
    (paddedBatch : Nat) : Prop where
  memcpy : floatBytes c.batchedInput.size ≤ 4 * e.hostInput.length
  upload : floatBytes (sizeMul paddedBatch opts.inputElems) ≤ 4 * e.hostInput.length ∧
    floatBytes (sizeMul paddedBatch opts.inputElems) ≤ 4 * e.deviceInput.length
  inputTensor : sizeMul paddedBatch opts.inputElems * 4 ≤ 4 * e.deviceInput.length
  outputTensor : sizeMul paddedBatch opts.outputElems * 4 ≤ 4 * e.deviceOutput.length
  download : floatBytes (sizeMul paddedBatch opts.outputElems) ≤ 4 * e.deviceOutput.length ∧
    floatBytes (sizeMul paddedBatch opts.outputElems) ≤ 4 * e.hostOutput.length
  result : sizeMul c.batchSize opts.outputElems * 4 ≤ 4 * e.hostOutput.length

omit [FloatOps F] in
theorem inputFloats_eq (h : opts.maxBatch * opts.inputElems * 4 < 2 ^ 64) :
    inputFloats opts = opts.maxBatch * opts.inputElems := by
  rw [inputFloats, floatBytes_sizeMul h, Nat.mul_div_cancel _ (by decide)]

omit [FloatOps F] in
theorem outputFloats_eq (h : opts.maxBatch * opts.outputElems * 4 < 2 ^ 64) :
    outputFloats opts = opts.maxBatch * opts.outputElems := by
  rw [outputFloats, floatBytes_sizeMul h, Nat.mul_div_cancel _ (by decide)]

omit [FloatOps F] in
/-- When the extents of the largest bucket fit 64 bits, every access is inside its buffer. -/
theorem Sized.inBounds (he : Sized opts S e) (hactive : e.ioBindingActive = true)
    (hin : opts.maxBatch * opts.inputElems * 4 < 2 ^ 64)
    (hout : opts.maxBatch * opts.outputElems * 4 < 2 ^ 64) {c : InferenceCall F}
    (hc : reachesBound opts c = true) :
    InBounds opts e c (bucketFor opts.batchBuckets c.batchSize) := by
  obtain ⟨hsize, -, ⟨hie, -⟩, hfits⟩ := reachesBound_iff.mp hc
  obtain ⟨⟨hhi, hdi⟩, hho, hdo⟩ := he.extents hactive
  rw [inputFloats_eq hin] at hhi hdi
  rw [outputFloats_eq hout] at hho hdo
  have hp := le_maxBatch hfits
  have hb := le_bucketFor opts.batchBuckets c.batchSize
  generalize bucketFor opts.batchBuckets c.batchSize = padded at hp hb
  have hpin : padded * opts.inputElems ≤ opts.maxBatch * opts.inputElems :=
    Nat.mul_le_mul_right _ hp
  have hpout : padded * opts.outputElems ≤ opts.maxBatch * opts.outputElems :=
    Nat.mul_le_mul_right _ hp
  have hbin : c.batchSize * opts.inputElems ≤ padded * opts.inputElems :=
    Nat.mul_le_mul_right _ hb
  have hbout : c.batchSize * opts.outputElems ≤ padded * opts.outputElems :=
    Nat.mul_le_mul_right _ hb
  have hmemcpy : floatBytes c.batchedInput.size = c.batchSize * opts.inputElems * 4 := by
    rw [hsize, hie, floatBytes_sizeMul (by omega)]
  have hup : floatBytes (sizeMul padded opts.inputElems) = padded * opts.inputElems * 4 :=
    floatBytes_sizeMul (by omega)
  have hdown : floatBytes (sizeMul padded opts.outputElems) = padded * opts.outputElems * 4 :=
    floatBytes_sizeMul (by omega)
  refine ⟨by omega, ⟨by omega, by omega⟩, ?_, ?_, ⟨by omega, by omega⟩, ?_⟩
  · rw [sizeMul_of_lt (by omega)]
    omega
  · rw [sizeMul_of_lt (by omega)]
    omega
  · rw [sizeMul_of_lt (by omega)]
    omega

omit [FloatOps F] in
theorem copyBytes_inBounds {P : σ → Prop} {E : CppException → σ → Prop} {dst src : List F}
    {bytes : Nat} (hs : bytes ≤ 4 * src.length) (hd : bytes ≤ 4 * dst.length) :
    Spec P (copyBytes dst src bytes) (fun d s ↦ P s ∧ d.length = dst.length) E := by
  intro s h
  unfold copyBytes
  rw [if_pos (by omega)]
  refine ⟨_, s, rfl, h, ?_⟩
  rw [length_overwrite (by rw [List.length_take]; omega)]

/-- Staging in bounds is defined: the dimensions the kernel is given may be cut to `int`, but
never exceed the rows that were uploaded. -/
theorem stageInput_defined {c : InferenceCall F} {paddedBatch : Nat} (ho : e.options = opts)
    (h : InBounds opts e c paddedBatch) (haddr : e.deviceInput.length < 2 ^ 61)
    (hp : paddedBatch * opts.inputElems < 2 ^ 64) :
    Spec (fun s ↦ e = s) (stageInput c.env c.batchedInput paddedBatch) (fun _ _ ↦ True)
      (fun _ _ ↦ True) := by
  have hsize : floatBytes c.batchedInput.size ≤ 4 * c.batchedInput.toList.length :=
    Nat.le_trans (Nat.mod_le _ _) (Nat.le_of_eq (Nat.mul_comm _ _))
  have hrows : paddedBatch * opts.inputElems ≤ e.deviceInput.length := by
    have htensor := h.inputTensor
    rw [sizeMul_of_lt hp] at htensor
    omega
  unfold stageInput
  apply Spec.get_bind
  rintro _ rfl
  rw [ho]
  apply Spec.conseq (P := fun _ ↦ True) _ (fun _ _ ↦ trivial) (fun _ _ h ↦ h) (fun _ _ h ↦ h)
  apply Spec.bind_of (copyBytes_inBounds hsize h.memcpy)
  intro host hhost
  apply Spec.bind (Q := fun _ _ ↦ True) (Spec.modify fun _ _ ↦ trivial)
  intro _
  apply Spec.bind (cudaCheck_spec _ _ fun _ _ _ _ ↦ trivial)
  intro _
  apply Spec.bind_of (copyBytes_inBounds (by rw [hhost]; exact h.upload.1) h.upload.2)
  intro device hdevice
  apply Spec.bind (Q := fun _ _ ↦ True) (Spec.modify fun _ _ ↦ trivial)
  intro _
  apply Spec.bind (Q := fun _ _ ↦ True)
  · apply Spec.runIf (fun _ ↦ ?_) (fun _ _ _ ↦ trivial)
    apply Spec.bind (Q := fun _ _ ↦ True)
    · apply Spec.conseq (launchNormalize_spec (P := fun _ ↦ True) _ (by omega))
        (fun _ h ↦ h) (fun _ _ _ ↦ trivial) (fun _ _ _ ↦ trivial)
      have hplanes := Nat.mul_div_le opts.inputElems opts.mean.length
      calc (toInt32 paddedBatch).toNat * (toInt32 opts.mean.length).toNat *
            (toInt32 (opts.inputElems / opts.mean.length)).toNat
          ≤ paddedBatch * opts.mean.length * (opts.inputElems / opts.mean.length) :=
            Nat.mul_le_mul (Nat.mul_le_mul (Int.toNat_le.mpr (toInt32_le _))
              (Int.toNat_le.mpr (toInt32_le _))) (Int.toNat_le.mpr (toInt32_le _))
        _ ≤ paddedBatch * opts.inputElems := by
            rw [Nat.mul_assoc]
            exact Nat.mul_le_mul_left _ hplanes
        _ ≤ device.length := by omega
    · intro _
      exact Spec.modify fun _ _ ↦ trivial
  intro _
  exact cudaCheck_spec _ _ fun _ _ _ _ ↦ trivial

omit [FloatOps F] in
/-- What is left of a call in bounds is defined, too. -/
theorem runStaged_defined {c : InferenceCall F} {paddedBatch : Nat} (ho : e.options = opts)
    (h : InBounds opts e c paddedBatch) (session : Session F) :
    Spec (fun s ↦ e = s) (runStaged session c.env c.batchSize paddedBatch) (fun _ _ ↦ True)
      (fun _ _ ↦ True) := by
  have hinput := h.inputTensor
  have houtput := h.outputTensor
  have hresult := h.result
  unfold runStaged
  apply translateOrtErrors_spec
  apply Spec.get_bind
  rintro _ rfl
  rw [ho]
  apply Spec.conseq (P := fun _ ↦ True) _ (fun _ _ ↦ trivial) (fun _ _ h ↦ h) (fun _ _ h ↦ h)
  apply Spec.bind_of (createTensor_spec (by omega) session _)
  intro input _
  apply Spec.bind_of (createTensor_spec (by omega) session _)
  rintro outputTensor ⟨hshape, -, hfit⟩
  apply Spec.bind_of (sessionRunBinding_spec session _ input _ fun _ _ ↦ trivial)
  rintro output ⟨hbound, -⟩
  have hlen : (overwrite e.deviceOutput output.data).length = e.deviceOutput.length := by
    rw [length_overwrite (by rw [output.size_eq, hbound, hshape]; omega)]
  apply Spec.bind (Q := fun _ _ ↦ True) (Spec.modify fun _ _ ↦ trivial)
  intro _
  apply Spec.bind (cudaCheck_spec _ _ fun _ _ _ _ ↦ trivial)
  intro _
  apply Spec.bind_of (copyBytes_inBounds (by rw [hlen]; exact h.download.1) h.download.2)
  intro host hhost
  apply Spec.bind (Q := fun _ _ ↦ True) (Spec.modify fun _ _ ↦ trivial)
  intro _
  apply Spec.bind (cudaCheck_spec _ _ fun _ _ _ _ ↦ trivial)
  intro _
  exact Spec.conseq (readVector_spec (P := fun _ ↦ True) (by omega)) (fun _ h ↦ h)
    (fun _ _ _ ↦ trivial) (fun _ _ _ ↦ trivial)

omit [FloatOps F] in
/-- Being in bounds is a matter of the buffers' sizes. -/
theorem InBounds.frame {c : InferenceCall F} {paddedBatch : Nat}
    (h : InBounds opts e c paddedBatch) (hf : Frame e s) : InBounds opts s c paddedBatch := by
  obtain ⟨h₁, h₂, h₃, h₄, h₅, h₆⟩ := h
  rw [← hf.hostInput] at h₁
  rw [← hf.hostInput, ← hf.deviceInput] at h₂
  rw [← hf.deviceInput] at h₃
  rw [← hf.deviceOutput] at h₄
  rw [← hf.deviceOutput, ← hf.hostOutput] at h₅
  rw [← hf.hostOutput] at h₆
  exact ⟨h₁, h₂, h₃, h₄, h₅, h₆⟩

/-- What `run_inference` does with a call that reaches `run_bound`. -/
theorem runInference_of_reaches {session : Session F} {c : InferenceCall F} (ho : e.options = opts)
    (hactive : e.ioBindingActive = true) (hc : reachesBound opts c = true) :
    (runInference session c.env c.batchedInput c.batchSize c.inputElems c.outputElems).outcome e =
      (runBound session c.env c.batchedInput c.batchSize
        (bucketFor opts.batchBuckets c.batchSize)).outcome e := by
  obtain ⟨hsize, hone, ⟨hie, hoe⟩, hfits⟩ := reachesBound_iff.mp hc
  unfold runInference
  rw [outcome_bind_ok (outcome_get e), ho, hactive, if_neg (not_not.mpr hsize), if_neg hone,
    if_neg (by simp [hie, hoe])]
  simp only [hfits, Bool.and_self, if_true]

/-- A call in bounds is defined. -/
theorem InBounds.defined {session : Session F} {c : InferenceCall F} (ho : e.options = opts)
    (hactive : e.ioBindingActive = true) (hc : reachesBound opts c = true)
    (h : InBounds opts e c (bucketFor opts.batchBuckets c.batchSize))
    (haddr : e.deviceInput.length < 2 ^ 61)
    (hp : bucketFor opts.batchBuckets c.batchSize * opts.inputElems < 2 ^ 64) :
    ∃ t, call session e c = some t := by
  obtain ⟨r, m, hm, -⟩ := stageInput_defined ho h haddr hp e rfl
  have hframe := stageInput_frame c.env c.batchedInput _ e r m ⟨Frame.refl e, rfl⟩ hm
  rw [call, runInference_of_reaches ho hactive hc, runBound]
  cases r with
  | error ex => exact ⟨m, by rw [outcome_bind_error hm]; rfl⟩
  | ok u =>
    obtain ⟨r, t, ht, -⟩ := runStaged_defined (hframe.1.options.trans ho) (h.frame hframe.1)
      session m rfl
    exact ⟨t, by rw [outcome_bind_ok hm, ht]; rfl⟩

/-- A batch larger than the pinned input leaves it. -/
theorem call_eq_none {session : Session F} {c : InferenceCall F} (ho : e.options = opts)
    (hactive : e.ioBindingActive = true) (hc : reachesBound opts c = true)
    (h : e.hostInput.length < c.batchedInput.size) : call session e c = none := by
  have hbytes : floatBytes c.batchedInput.size / 4 = c.batchedInput.size :=
    floatBytes_div (Nat.lt_of_lt_of_le c.batchedInput.size_lt (by decide))
  have hcopy : (copyBytes e.hostInput c.batchedInput.toList
      (floatBytes c.batchedInput.size) : Act CppException (OnnxEngine F) _).outcome e = none := by
    unfold copyBytes
    rw [hbytes, if_neg (by omega)]
    rfl
  rw [call, runInference_of_reaches ho hactive hc, runBound, stageInput]
  rw [outcome_bind, outcome_bind_ok (outcome_get e), outcome_bind, hcopy]
  rfl

/-- Where the product of rows and row length wraps, some batch within the largest bucket is
longer than a buffer of moderate size. -/
theorem exists_overrun {maxBatch elems floats : Nat} (he : elems < 2 ^ 60) (hf : floats < 2 ^ 60)
    (hwrap : 2 ^ 64 ≤ maxBatch * elems * 4) :
    ∃ batchSize, 1 ≤ batchSize ∧ batchSize ≤ maxBatch ∧ floats < batchSize * elems ∧
      batchSize * elems < 2 ^ 61 := by
  have hpos : 0 < elems := by
    apply Nat.pos_of_ne_zero
    rintro rfl
    omega
  have hlt := Nat.lt_div_mul_add (a := floats) hpos
  have hle := Nat.div_mul_le_self floats elems
  refine ⟨floats / elems + 1, Nat.le_add_left 1 _, ?_, ?_, ?_⟩
  · by_contra hgt
    have := Nat.mul_le_mul_right elems (show maxBatch ≤ floats / elems by omega)
    omega
  · rw [Nat.add_mul]
    omega
  · rw [Nat.add_mul]
    omega

/-- A batch of zeros in the configured geometry. -/
def zerosCall (opts : OnnxOptions F) (batchSize : Nat)
    (h : batchSize * opts.inputElems < 2 ^ 61) : InferenceCall F where
  batchedInput := ⟨List.replicate (batchSize * opts.inputElems) 0, by
    rw [List.length_replicate]; exact h⟩
  batchSize := batchSize
  inputElems := opts.inputElems
  outputElems := opts.outputElems

theorem reachesBound_zerosCall (hs : opts.batchBuckets.Pairwise (· ≤ ·))
    (hne : opts.batchBuckets ≠ []) {batchSize : Nat} (hone : 1 ≤ batchSize)
    (hb : batchSize ≤ opts.maxBatch) (h : batchSize * opts.inputElems < 2 ^ 61) :
    reachesBound opts (zerosCall opts batchSize h) = true := by
  rw [reachesBound_iff]
  refine ⟨?_, by change batchSize ≠ 0; omega, ⟨rfl, rfl⟩, ?_⟩
  · change (List.replicate _ _).length = sizeMul batchSize opts.inputElems
    rw [List.length_replicate, sizeMul_of_lt (by omega)]
  · apply fits_of_le hs (List.getLast?_eq_some_getLast hne)
    rwa [OnnxOptions.maxBatch, List.getLast?_eq_some_getLast hne] at hb

/-- The bound path stays inside its buffers if the extents of the largest bucket fit 64 bits;
and as long as neither a row nor a buffer is of astronomic size, only then. -/
theorem bound_path_in_bounds {session : Session F} {p : Platform F} {e₀ : OnnxEngine F}
    (hc : Constructed session p opts e₀) {cs : List (InferenceCall F)}
    (hr : exec (call session) e₀ cs = some e) (hactive : e.ioBindingActive = true) :
    (opts.maxBatch * opts.inputElems * 4 < 2 ^ 64 ∧
        opts.maxBatch * opts.outputElems * 4 < 2 ^ 64 →
      ∀ c, reachesBound opts c = true →
        InBounds opts e c (bucketFor opts.batchBuckets c.batchSize) ∧
          ∃ t, call session e c = some t) ∧
    (opts.inputElems < 2 ^ 60 → opts.outputElems < 2 ^ 60 →
      e.hostInput.length < 2 ^ 60 → e.hostOutput.length < 2 ^ 60 →
      (∀ c, reachesBound opts c = true →
        InBounds opts e c (bucketFor opts.batchBuckets c.batchSize)) →
      opts.maxBatch * opts.inputElems * 4 < 2 ^ 64 ∧
        opts.maxBatch * opts.outputElems * 4 < 2 ^ 64) := by
  obtain ⟨hascending, he⟩ := hc.sized hr
  constructor
  · rintro ⟨hin, hout⟩ c hreach
    have hbounds := he.inBounds hactive hin hout hreach
    obtain ⟨-, -, -, hfits⟩ := reachesBound_iff.mp hreach
    have hp := Nat.mul_le_mul_right opts.inputElems (le_maxBatch hfits)
    refine ⟨hbounds, hbounds.defined he.options hactive hreach ?_ (by omega)⟩
    rw [(he.extents hactive).1.2]
    exact (he.addressable hactive).1
  · intro hie hoe hhost hout hall
    by_cases hne : opts.batchBuckets = []
    · -- without a bucket nothing reaches the path, and one row never wraps
      have hone : opts.maxBatch = 1 := by rw [OnnxOptions.maxBatch, hne]; rfl
      rw [hone]
      omega
    have hin : opts.maxBatch * opts.inputElems * 4 < 2 ^ 64 := by
      by_contra hwrap
      obtain ⟨b, hone, hb, hlong, hlt⟩ := exists_overrun hie hhost (Nat.not_lt.mp hwrap)
      have hbounds := (hall _ (reachesBound_zerosCall hascending hne hone hb hlt)).memcpy
      have hsize : (zerosCall opts b hlt).batchedInput.size = b * opts.inputElems :=
        List.length_replicate
      rw [hsize, floatBytes, sizeMul_of_lt (by omega)] at hbounds
      omega
    refine ⟨hin, ?_⟩
    by_contra hwrap
    obtain ⟨b, hone, hb, hlong, hlt⟩ := exists_overrun hoe hout (Nat.not_lt.mp hwrap)
    have hrows := Nat.mul_le_mul_right opts.inputElems hb
    have hinput : b * opts.inputElems < 2 ^ 61 := by
      have haddr := (he.addressable hactive).1
      rw [inputFloats_eq hin] at haddr
      omega
    have hbounds := (hall _ (reachesBound_zerosCall hascending hne hone hb hinput)).result
    change sizeMul b opts.outputElems * 4 ≤ _ at hbounds
    rw [sizeMul_of_lt (by omega)] at hbounds
    omega

/-- A model that answers with no output. -/
def muteSession : Session Int where
  run _ := .ok []

/-- Two rows of three floats, two outputs for each. -/
def smallOptions : OnnxOptions Int where
  modelPath := "model.onnx"
  batchBuckets := [2]
  inputElems := 3
  outputElems := 2
  mean := []
  stddev := []

theorem bound_path_in_bounds_small :
    ∃ e, Constructed muteSession soundPlatform smallOptions e ∧ e.ioBindingActive = true ∧
      ∀ c, reachesBound smallOptions c = true →
        InBounds smallOptions e c (bucketFor smallOptions.batchBuckets c.batchSize) ∧
          ∃ t, call muteSession e c = some t := by
  have hfits : Fits smallOptions := ⟨by simp [smallOptions], by decide, by decide⟩
  obtain ⟨e, hc, buf, hk, -⟩ := exists_constructed rfl hfits muteSession soundPlatform_sound
    ⟨by decide, by decide⟩ (by decide)
  refine ⟨e, hc, hk.ioBindingActive, ?_⟩
  exact (bound_path_in_bounds hc (exec_nil e) hk.ioBindingActive).1 ⟨by decide, by decide⟩

/-- Whole images in one bucket so large that its extents in bytes are multiples of `2 ^ 64`. -/
def wrappingOptions : OnnxOptions Int where
  modelPath := "model.onnx"
  batchBuckets := [2 ^ 59]
  mean := []
  stddev := []

private theorem wrapping_constructed :
    ∃ e, Constructed muteSession soundPlatform wrappingOptions e ∧
      e.ioBindingActive = true ∧ e.hostInput.length = 0 := by
  have hfacts : ((construct muteSession soundPlatform).outcome
      { options := wrappingOptions }).map (fun r ↦
        (r.1.isOk, r.2.ioBindingActive, r.2.hostInput.length)) = some (true, true, 0) := by
    decide +kernel
  obtain ⟨⟨r, e⟩, hr, hfacts⟩ := Option.map_eq_some_iff.mp hfacts
  simp only [Prod.mk.injEq] at hfacts
  cases r with
  | ok _ => exact ⟨e, hr, hfacts.2⟩
  | error _ => exact absurd hfacts.1 Bool.false_ne_true

/-- The constructor accepts the bucket and allocates nothing; a single image is then copied
into a buffer of no bytes. -/
theorem wrapped_buffers_overrun :
    ∃ e c, Constructed muteSession soundPlatform wrappingOptions e ∧
      e.ioBindingActive = true ∧ reachesBound wrappingOptions c = true ∧
      e.hostInput.length = 0 ∧ floatBytes c.batchedInput.size = 602112 ∧
      ¬InBounds wrappingOptions e c (bucketFor wrappingOptions.batchBuckets c.batchSize) ∧
      call muteSession e c = none := by
  obtain ⟨e, hc, hactive, hempty⟩ := wrapping_constructed
  have hlt : 1 * wrappingOptions.inputElems < 2 ^ 61 := by decide
  have hsize : (zerosCall wrappingOptions 1 hlt).batchedInput.size = 150528 :=
    List.length_replicate
  have hbytes : floatBytes (zerosCall wrappingOptions 1 hlt).batchedInput.size = 602112 := by
    rw [hsize]
    rfl
  have hreach : reachesBound wrappingOptions (zerosCall wrappingOptions 1 hlt) = true :=
    reachesBound_zerosCall (by simp [wrappingOptions]) (by simp [wrappingOptions])
      (Nat.le_refl 1) (by decide) hlt
  refine ⟨e, zerosCall wrappingOptions 1 hlt, hc, hactive, hreach, hempty, hbytes, ?_, ?_⟩
  · intro h
    have hmemcpy := h.memcpy
    omega
  · exact call_eq_none (hc.sized (exec_nil e)).2.options hactive hreach (by omega)

end OnnxEngine
end InferenceServer.Engine
