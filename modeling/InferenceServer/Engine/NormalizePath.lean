import InferenceServer.Engine.BoundPath
import InferenceServer.Engine.Extents
import InferenceServer.Engine.RowWise

/-!
# Which rows are normalized

Library `Engine`. `cpp/src/engine/onnx_execution_engine.cpp:145–160,194–237,307–467`, with
normalization on the device. The constructor insists on the bound path, and throws when that
path cannot be set up; but a batch above the largest bucket still takes the host path, which
does not normalize, and the row count reaches the kernel as an `int`. The results hold for
every call that is defined and returns, whatever the sizes.
-/

namespace InferenceServer.Engine

open InferenceServer.Base InferenceServer.Base.Act

variable {F σ : Type}

/-- A model that answers every batch with zeros. -/
def Session.zeros [Zero F] (outputElems : Nat) : Session F where
  run t := .ok [.tensor ⟨[t.shape.headD 0, outputElems],
    List.replicate (t.shape.headD 0 * outputElems) 0, by simp⟩]

namespace OnnxEngine

/-! ### The engine between calls -/

/-- What the constructor's checks leave, `onnx_execution_engine.cpp:137–160`. -/
structure Checked (opts : OnnxOptions F) : Prop where
  ascending : opts.batchBuckets.Pairwise (· ≤ ·)
  channels : 0 < opts.mean.length
  equal : opts.mean.length = opts.stddev.length
  planes : opts.inputElems % opts.mean.length = 0

/-- The bound path is active with its buffers as allocated, and for whole images the device
holds the configured means and deviations: only then are they sure to be copied whole. -/
structure Normalizing (opts : OnnxOptions F) (e : OnnxEngine F) : Prop where
  options : e.options = opts
  ioBindingActive : e.ioBindingActive = true
  hostInput : e.hostInput.length = inputFloats opts
  deviceInput : e.deviceInput.length = inputFloats opts
  hostOutput : e.hostOutput.length = outputFloats opts
  deviceOutput : e.deviceOutput.length = outputFloats opts
  addressable : inputFloats opts < 2 ^ 61 ∧ outputFloats opts < 2 ^ 61
  planes : opts.inputElems = imageElems → e.deviceMean = opts.mean ∧ e.deviceStddev = opts.stddev

variable {opts : OnnxOptions F} {rs : List (Tensor F)} {d : List F}

theorem Checked.channels_mul (hc : Checked opts) :
    opts.mean.length * (opts.inputElems / opts.mean.length) = opts.inputElems :=
  Nat.mul_div_cancel' (Nat.dvd_of_mod_eq_zero hc.planes)

/-- For whole images the channel count and the plane size fit an `int`. -/
theorem Checked.int_range (hc : Checked opts) (hie : opts.inputElems = imageElems) :
    opts.mean.length < 2 ^ 31 ∧ opts.inputElems / opts.mean.length < 2 ^ 31 := by
  have hsmall : opts.inputElems < 2 ^ 31 := by
    rw [hie]
    decide
  have hpos : 0 < opts.inputElems := by
    rw [hie]
    decide
  have hle := Nat.le_of_dvd hpos (Nat.dvd_of_mod_eq_zero hc.planes)
  exact ⟨Nat.lt_of_le_of_lt hle hsmall, Nat.lt_of_le_of_lt (Nat.div_le_self _ _) hsmall⟩

/-- An oversized batch is not padded. -/
theorem Checked.not_padded (hc : Checked opts) {batchSize : Nat}
    (h : fitsPreallocated opts.batchBuckets (bucketFor opts.batchBuckets batchSize) = false) :
    bucketFor opts.batchBuckets batchSize = batchSize := by
  rcases bucketFor_cases opts.batchBuckets batchSize with hmem | heq
  · unfold fitsPreallocated at h
    split at h
    · next hl =>
      rw [List.getLast?_eq_none_iff.mp hl] at hmem
      cases hmem
    · next back hl =>
      have := le_getLast hc.ascending hmem hl
      simp only [decide_eq_false_iff_not] at h
      omega
  · exact heq

/-- The engine is as the constructor left it, and `rs` are the tensors presented so far. -/
def Quiet (opts : OnnxOptions F) (rs : List (Tensor F)) (e : OnnxEngine F) : Prop :=
  Normalizing opts e ∧ e.runs = rs

theorem Normalizing.frame {e s : OnnxEngine F} (h : Normalizing opts e) (hf : Frame e s) :
    Normalizing opts s where
  options := hf.options.trans h.options
  ioBindingActive := hf.ioBindingActive.trans h.ioBindingActive
  hostInput := hf.hostInput.trans h.hostInput
  deviceInput := hf.deviceInput.trans h.deviceInput
  hostOutput := hf.hostOutput.trans h.hostOutput
  deviceOutput := hf.deviceOutput.trans h.deviceOutput
  addressable := h.addressable
  planes := by
    rw [hf.deviceMean, hf.deviceStddev]
    exact h.planes

theorem sessionRun_ensures (session : Session F) (env : CallEnv) (t : Tensor F) :
    Ensures (Quiet opts rs) (sessionRun session env t) (fun _ ↦ Quiet opts (rs ++ [t]))
      (fun _ ↦ Normalizing opts) := by
  rintro e r s ⟨hk, hruns⟩ hr
  have hframe := sessionRun_frame session env t e r s ⟨Frame.refl e, hruns⟩ hr
  cases r with
  | ok outputs => exact ⟨hk.frame hframe.1, hframe.2⟩
  | error ex => exact hk.frame hframe.1

/-- A tensor of the padded shape over the front of `data` was presented. -/
def Presented (opts : OnnxOptions F) (rs : List (Tensor F)) (paddedBatch : Nat) (data : List F)
    (e : OnnxEngine F) : Prop :=
  Normalizing opts e ∧ ∃ t : Tensor F, e.runs = rs ++ [t] ∧ t.shape = inputShape paddedBatch ∧
    t.data = data.take (paddedBatch * imageElems) ∧ paddedBatch * imageElems ≤ data.length

/-- The bound path presents the front of the device input. -/
theorem runStaged_ensures (session : Session F) (env : CallEnv) (batchSize paddedBatch : Nat) :
    Ensures (fun e ↦ Quiet opts rs e ∧ e.deviceInput = d)
      (runStaged session env batchSize paddedBatch)
      (fun _ ↦ Presented opts rs paddedBatch d) (fun _ ↦ Normalizing opts) := by
  rintro e r s ⟨⟨hk, hruns⟩, hd⟩ hr
  have hframe := runStaged_frame session env batchSize paddedBatch e r s
    ⟨⟨Frame.refl e, hruns⟩, hd⟩ hr
  cases r with
  | ok v =>
    rw [prod_inputShape] at hframe
    exact ⟨hk.frame hframe.1, hframe.2⟩
  | error ex => exact hk.frame hframe.1

/-- The rows of the batch survive both copies. -/
private theorem row_staged {host device : List F} {input : FloatVec F}
    {n batchSize paddedBatch : Nat} (hb : batchSize ≤ paddedBatch)
    (hsize : input.size = sizeMul batchSize n) (hfit : paddedBatch * n < 2 ^ 61)
    (hsrc : floatBytes (sizeMul paddedBatch n) / 4 ≤
      (overwrite host (input.toList.take (floatBytes input.size / 4))).length)
    {i : Nat} (hi : i < batchSize) :
    row n (overwrite device ((overwrite host
      (input.toList.take (floatBytes input.size / 4))).take
        (floatBytes (sizeMul paddedBatch n) / 4))) i = row n input.toList i := by
  have hmul : batchSize * n ≤ paddedBatch * n := Nat.mul_le_mul_right _ hb
  have hlen : input.toList.length = batchSize * n := by
    rw [sizeMul_of_lt (by omega)] at hsize
    exact hsize
  have hbytes : floatBytes input.size / 4 = input.size :=
    floatBytes_div (Nat.lt_of_lt_of_le input.size_lt (by decide))
  rw [hbytes, FloatVec.take_size, sizeMul_of_lt (by omega), floatBytes_div (by omega)] at hsrc ⊢
  rw [overwrite, row_append (k := paddedBatch) (by rw [List.length_take]; omega) (by omega),
    row_take (by omega), overwrite, row_append (k := batchSize) (by omega) hi]

variable [FloatOps F]

/-- A row under the configured means and deviations. -/
def normalized (opts : OnnxOptions F) (r : List F) : List F :=
  normalizeRow (opts.inputElems / opts.mean.length) opts.mean opts.stddev r

/-- Row `i` of the batch once the kernel has run over `n` rows. -/
def deviceRow (opts : OnnxOptions F) (input : FloatVec F) (n : Int) (i : Nat) : List F :=
  if (i : Int) < n then normalized opts (row opts.inputElems input.toList i)
  else row opts.inputElems input.toList i

/-- The batch is on the device with its first rows normalized. -/
def Staged (opts : OnnxOptions F) (input : FloatVec F) (batchSize paddedBatch : Nat)
    (data : List F) : Prop :=
  opts.inputElems = imageElems → paddedBatch * imageElems ≤ data.length →
    ∀ i < batchSize, row imageElems data i = deviceRow opts input (toInt32 paddedBatch) i

/-- Staging copies the batch to the device and normalizes as many rows as the kernel is told. -/
theorem stageInput_ensures (hn : opts.normalizeOnDevice = true) (hc : Checked opts)
    (env : CallEnv) {input : FloatVec F} {batchSize paddedBatch : Nat}
    (hb : batchSize ≤ paddedBatch) (hsize : input.size = sizeMul batchSize opts.inputElems) :
    Ensures (Quiet opts rs) (stageInput env input paddedBatch)
      (fun _ e ↦ Quiet opts rs e ∧ Staged opts input batchSize paddedBatch e.deviceInput)
      (fun _ ↦ Normalizing opts) := by
  unfold stageInput
  apply Ensures.get_bind
  rintro e ⟨hk, -⟩
  rw [hk.options]
  apply Ensures.bind_of (copyBytes_ensures _ _ _)
  rintro host ⟨rfl, -, hhost⟩
  apply Ensures.bind (Q := fun _ ↦ Quiet opts rs)
  · apply Ensures.modify
    rintro s ⟨hs, hruns⟩
    refine ⟨{ hs with hostInput := ?_ }, hruns⟩
    rw [length_overwrite (by rw [List.length_take]; omega)]
    exact hk.hostInput
  intro _
  apply Ensures.bind (cudaCheck_spec env.h2d _ fun _ _ _ hs ↦ hs.1).ensures
  intro _
  apply Ensures.bind_of (copyBytes_ensures _ _ _)
  rintro device ⟨hdevice, hsrc, hdst⟩
  have hlen : device.length = inputFloats opts := by
    rw [hdevice, length_overwrite (by rw [List.length_take]; omega)]
    exact hk.deviceInput
  have haddr := hk.addressable.1
  apply Ensures.bind (Q := fun _ ↦ Quiet opts rs)
  · apply Ensures.modify
    rintro s ⟨hs, hruns⟩
    exact ⟨{ hs with deviceInput := hlen }, hruns⟩
  intro _
  apply Ensures.bind (Q := fun _ e ↦ Quiet opts rs e ∧
    Staged opts input batchSize paddedBatch e.deviceInput)
  · apply Ensures.runIf _ (fun h ↦ absurd hn h)
    intro _
    apply Ensures.bind_of (Ensures.conseq (launchNormalize_ensures _ _ _ _ _ _ _)
      (fun _ hs ↦ hs) (fun _ _ hs ↦ hs) (fun _ _ hs ↦ hs.1))
    rintro data ⟨hdata, hrows⟩
    apply Ensures.modify
    rintro s ⟨hs, hruns⟩
    refine ⟨⟨{ hs with deviceInput := hdata.trans hlen }, hruns⟩, ?_⟩
    intro hie hfit i hi
    obtain ⟨hchannels, hplane⟩ := hc.int_range hie
    rw [toInt32_of_lt hchannels, toInt32_of_lt hplane, Int.toNat_natCast, Int.toNat_natCast,
      hc.channels_mul] at hrows
    have hfits : paddedBatch * opts.inputElems < 2 ^ 61 := by
      rw [hie]
      exact Nat.lt_of_le_of_lt hfit (by rw [hdata, hlen]; exact haddr)
    rw [← hie, hrows i, (hk.planes hie).1, (hk.planes hie).2, hdevice,
      row_staged hb hsize hfits hsrc hi]
    rfl
  intro _
  exact Ensures.conseq (cudaCheck_spec env.syncPre _ fun _ _ _ hs ↦ hs).ensures (fun _ hs ↦ hs)
    (fun _ _ hs ↦ hs) (fun _ _ hs ↦ hs.1.1)

/-! ### One call -/

/-- Rows of the batch that a call normalizes: the `int` that the kernel is given on the bound
path, none on the host path. -/
def normalizedRows (opts : OnnxOptions F) (batchSize : Nat) : Int :=
  if fitsPreallocated opts.batchBuckets (bucketFor opts.batchBuckets batchSize) then
    toInt32 (bucketFor opts.batchBuckets batchSize)
  else 0

/-- One more tensor was presented; for whole images its rows are the caller's, the first of
them normalized. -/
def PresentedRows (opts : OnnxOptions F) (rs : List (Tensor F)) (c : InferenceCall F)
    (e : OnnxEngine F) : Prop :=
  Normalizing opts e ∧ ∃ t : Tensor F, e.runs = rs ++ [t] ∧
    t.shape = inputShape (bucketFor opts.batchBuckets c.batchSize) ∧
    (opts.inputElems = imageElems → ∀ i < c.batchSize, row imageElems t.data i =
      deviceRow opts c.batchedInput (normalizedRows opts c.batchSize) i)

theorem runBound_ensures (hn : opts.normalizeOnDevice = true) (hc : Checked opts)
    (session : Session F) {c : InferenceCall F}
    (hsize : c.batchedInput.size = sizeMul c.batchSize opts.inputElems)
    (hfits : fitsPreallocated opts.batchBuckets
      (bucketFor opts.batchBuckets c.batchSize) = true) :
    Ensures (Quiet opts rs)
      (runBound session c.env c.batchedInput c.batchSize
        (bucketFor opts.batchBuckets c.batchSize))
      (fun _ ↦ PresentedRows opts rs c) (fun _ ↦ Normalizing opts) := by
  have hb := le_bucketFor opts.batchBuckets c.batchSize
  apply Ensures.bind (stageInput_ensures hn hc c.env hb hsize)
  rintro _ s r t ⟨hs, hstaged⟩ hr
  refine Ensures.conseq (runStaged_ensures session c.env c.batchSize _) (fun _ hs ↦ hs) ?_
    (fun _ _ hs ↦ hs) s r t ⟨hs, rfl⟩ hr
  rintro _ e ⟨hk, tensor, hruns, hshape, hdata, hfit⟩
  refine ⟨hk, tensor, hruns, hshape, ?_⟩
  intro hie i hi
  rw [hdata, row_take (Nat.lt_of_lt_of_le hi hb), hstaged hie hfit i hi, normalizedRows,
    if_pos hfits]

/-- The host path presents the batch as it is. -/
theorem runHost_ensures (session : Session F) {c : InferenceCall F}
    (hpad : bucketFor opts.batchBuckets c.batchSize = c.batchSize)
    (hfits : fitsPreallocated opts.batchBuckets
      (bucketFor opts.batchBuckets c.batchSize) = false) :
    Ensures (Quiet opts rs)
      (runHost session c.env c.batchedInput c.batchSize
        (bucketFor opts.batchBuckets c.batchSize))
      (fun _ ↦ PresentedRows opts rs c) (fun _ ↦ Normalizing opts) := by
  have hnone : normalizedRows opts c.batchSize = 0 := by
    rw [normalizedRows, if_neg (by rw [hfits]; decide)]
  unfold runHost
  apply Ensures.get_bind
  rintro e ⟨hk, -⟩
  rw [hk.options]
  apply Ensures.bind_of (φ := fun data ↦ data = c.batchedInput.toList)
  · unfold hostInputData
    rw [if_neg (not_not.mpr hpad)]
    exact Ensures.pure fun _ hs ↦ ⟨hs, rfl⟩
  rintro _ rfl
  apply translateOrtErrors_ensures
  apply Ensures.bind_of (Ensures.conseq (createTensor_ensures session _ _ _) (fun _ hs ↦ hs)
    (fun _ _ hs ↦ hs) (fun _ _ hs ↦ hs.1))
  rintro tensor ⟨hshape, hdata, -⟩
  rw [prod_inputShape] at hdata
  apply Ensures.bind (sessionRun_ensures session c.env tensor)
  intro outputs
  have hpost : ∀ e, Quiet opts (rs ++ [tensor]) e → PresentedRows opts rs c e := by
    rintro e ⟨hk, hruns⟩
    refine ⟨hk, tensor, hruns, hshape, ?_⟩
    intro hie i hi
    rw [hdata, row_take (by omega), deviceRow, hnone, if_neg (by omega), hie]
  split
  · apply Ensures.ite
    · intro _
      exact Ensures.throw fun _ hs ↦ hs.1
    · intro _
      exact Ensures.conseq (readVector_ensures _ _) (fun _ hs ↦ hs) (fun _ s hs ↦ hpost s hs)
        (fun _ _ hs ↦ hs.1)
  · exact Ensures.throw fun _ hs ↦ hs.1

/-- A call that returns presented one tensor, unless the batch is empty. -/
theorem runInference_ensures (hn : opts.normalizeOnDevice = true) (hc : Checked opts)
    (session : Session F) (c : InferenceCall F) :
    Ensures (Quiet opts rs)
      (runInference session c.env c.batchedInput c.batchSize c.inputElems c.outputElems)
      (fun _ e ↦ Normalizing opts e ∧ (c.batchSize ≠ 0 →
        PresentedRows opts rs c e ∧ c.batchedInput.size = sizeMul c.batchSize opts.inputElems))
      (fun _ ↦ Normalizing opts) := by
  unfold runInference
  apply Ensures.get_bind
  rintro e ⟨hk, -⟩
  rw [hk.options, hk.ioBindingActive]
  apply Ensures.ite
  · intro _
    exact Ensures.throw fun _ hs ↦ hs.1
  intro hsize
  apply Ensures.ite
  · intro hzero
    exact Ensures.pure fun _ hs ↦ ⟨hs.1, absurd hzero⟩
  intro _
  apply Ensures.ite
  · intro _
    exact Ensures.throw fun _ hs ↦ hs.1
  intro hgeom
  have hie : c.inputElems = opts.inputElems := not_not.mp (not_or.mp hgeom).1
  have hrows : c.batchedInput.size = sizeMul c.batchSize opts.inputElems := by
    rw [← hie]
    exact not_not.mp hsize
  apply Ensures.ite
  · intro hfits
    rw [Bool.true_and] at hfits
    exact Ensures.conseq (runBound_ensures hn hc session hrows hfits) (fun _ hs ↦ hs)
      (fun _ _ hs ↦ ⟨hs.1, fun _ ↦ ⟨hs, hrows⟩⟩) (fun _ _ hs ↦ hs)
  · intro hfits
    rw [Bool.true_and, Bool.not_eq_true] at hfits
    exact Ensures.conseq (runHost_ensures session (hc.not_padded hfits) hfits) (fun _ hs ↦ hs)
      (fun _ _ hs ↦ ⟨hs.1, fun _ ↦ ⟨hs, hrows⟩⟩) (fun _ _ hs ↦ hs)

/-! ### Construction and whole histories -/

theorem normalizing_call (hn : opts.normalizeOnDevice = true) (hc : Checked opts)
    {session : Session F} {e t : OnnxEngine F} {c : InferenceCall F} (hk : Normalizing opts e)
    (h : call session e c = some t) : Normalizing opts t := by
  unfold call at h
  rw [Option.map_eq_some_iff] at h
  obtain ⟨⟨r, u⟩, hr, rfl⟩ := h
  have hpost := runInference_ensures hn hc session c e r u ⟨hk, rfl⟩ hr
  cases r with
  | ok v => exact hpost.1
  | error ex => exact hpost

theorem warmBuckets_ensures (hn : opts.normalizeOnDevice = true) (hc : Checked opts)
    (session : Session F) (warm : Nat → CallEnv) (buckets : List Nat) :
    Ensures (Normalizing opts) (warmBuckets session warm buckets) (fun _ ↦ Normalizing opts)
      (fun _ ↦ Normalizing opts) := by
  induction buckets with
  | nil => exact Ensures.pure fun _ hs ↦ hs
  | cons bucket buckets ih =>
    unfold warmBuckets
    apply Ensures.bind (Q := fun _ ↦ Normalizing opts) _ fun _ ↦ ih
    apply Ensures.runIf _ (fun _ _ hs ↦ hs)
    intro _
    unfold warmBucket
    apply Ensures.get_bind
    intro e he
    rw [he.options]
    apply Ensures.tryCatch (H := fun _ ↦ Normalizing opts)
    · apply Ensures.bind_of (zeroVector_spec _).ensures
      intro input _
      apply Ensures.bind (Q := fun _ ↦ Normalizing opts)
      · intro s r t hs hr
        exact Ensures.conseq (runInference_ensures hn hc session
          ⟨input, bucket, opts.inputElems, opts.outputElems, warm buckets.length⟩)
          (fun _ hs ↦ hs) (fun _ _ hs ↦ hs.1) (fun _ _ hs ↦ hs) s r t ⟨hs, rfl⟩ hr
      · intro _
        exact Ensures.pure fun _ hs ↦ hs
    · intro _
      exact Ensures.pure fun _ hs ↦ hs

/-- Preallocating returns with the bound path active, and throws otherwise. -/
theorem allocateDeviceBuffers_ensures (hn : opts.normalizeOnDevice = true) (hc : Checked opts)
    (p : Platform F) :
    Ensures (fun e ↦ e.options = opts) (allocateDeviceBuffers p) (fun _ ↦ Normalizing opts)
      (fun _ _ ↦ True) := by
  unfold allocateDeviceBuffers
  apply Ensures.get_bind
  intro e he
  rw [he]
  apply Ensures.tryCatch (H := fun _ _ ↦ True)
  · apply Ensures.bind (cudaCheck_spec _ _ fun _ _ _ _ ↦ trivial).ensures
    intro _
    apply Ensures.bind (cudaCheck_spec _ _ fun _ _ _ _ ↦ trivial).ensures
    intro _
    apply Ensures.bind_of (allocate_spec _ _ _ _ fun _ _ _ _ ↦ trivial).ensures
    rintro hostInput ⟨hhi, hilt⟩
    apply Ensures.bind_of (allocate_spec _ _ _ _ fun _ _ _ _ ↦ trivial).ensures
    rintro hostOutput ⟨hho, holt⟩
    apply Ensures.bind_of (allocate_spec _ _ _ _ fun _ _ _ _ ↦ trivial).ensures
    rintro deviceInput ⟨hdi, -⟩
    apply Ensures.bind_of (allocate_spec _ _ _ _ fun _ _ _ _ ↦ trivial).ensures
    rintro deviceOutput ⟨hdo, -⟩
    have haddr : inputFloats opts < 2 ^ 61 ∧ outputFloats opts < 2 ^ 61 := by
      unfold inputFloats outputFloats OnnxOptions.maxBatch
      omega
    -- all that is missing are the means and the flag
    apply Ensures.bind (Q := fun _ e ↦ ∀ mean stddev,
      (opts.inputElems = imageElems → mean = opts.mean ∧ stddev = opts.stddev) →
        Normalizing opts
          { e with ioBindingActive := true, deviceMean := mean, deviceStddev := stddev })
    · apply Ensures.modify
      intro s hs mean stddev hplanes
      refine ⟨hs, rfl, ?_, hdi, hho, hdo, haddr, hplanes⟩
      exact List.length_replicate.trans hhi
    intro _
    apply Ensures.bind (Q := fun _ e ↦ Normalizing opts { e with ioBindingActive := true })
    · apply Ensures.runIf (fun _ ↦ ?_) (fun h ↦ absurd hn h)
      apply Ensures.bind_of (allocate_spec _ _ _ _ fun _ _ _ _ ↦ trivial).ensures
      rintro freshMean ⟨hmean, -⟩
      apply Ensures.bind_of (allocate_spec _ _ _ _ fun _ _ _ _ ↦ trivial).ensures
      rintro freshStddev ⟨hstddev, -⟩
      apply Ensures.bind (cudaCheck_spec _ _ fun _ _ _ _ ↦ trivial).ensures
      intro _
      apply Ensures.bind_of (copyBytes_ensures _ _ _)
      rintro deviceMean ⟨rfl, -, -⟩
      apply Ensures.bind (cudaCheck_spec _ _ fun _ _ _ _ ↦ trivial).ensures
      intro _
      apply Ensures.bind_of (copyBytes_ensures _ _ _)
      rintro deviceStddev ⟨rfl, -, -⟩
      apply Ensures.modify
      intro s hs
      apply hs
      intro hie
      have hcount : floatBytes opts.mean.length / 4 = opts.mean.length :=
        floatBytes_div (Nat.lt_trans (hc.int_range hie).1 (by decide))
      rw [hcount] at hmean hstddev ⊢
      refine ⟨?_, ?_⟩
      · rw [List.take_length, overwrite_of_length_eq hmean]
      · rw [hc.equal, List.take_length, overwrite_of_length_eq (hstddev.trans hc.equal)]
    intro _
    apply Ensures.bind (ortCheck_spec _ fun _ _ _ _ ↦ trivial).ensures
    intro _
    exact Ensures.modify fun _ hs ↦ hs
  · intro ex
    apply Ensures.bind (Q := fun _ _ ↦ True) (Ensures.modify fun _ _ ↦ trivial)
    intro _
    exact Ensures.conseq (Ensures.throwIf (P := fun _ ↦ True) fun _ _ _ ↦ trivial)
      (fun _ hs ↦ hs) (fun _ _ hs ↦ absurd hn hs.2) (fun _ _ hs ↦ hs)

/-- What a constructor that returns has checked and set up. -/
theorem construct_ensures (hn : opts.normalizeOnDevice = true) (session : Session F)
    (p : Platform F) :
    Ensures (fun e ↦ e = { options := opts }) (construct session p)
      (fun _ e ↦ Checked opts ∧ Normalizing opts e) (fun _ _ ↦ True) := by
  unfold construct
  apply Ensures.get_bind
  rintro e rfl
  apply Ensures.bind_of (Ensures.throwIf fun _ _ _ ↦ trivial)
  intro _ _
  apply Ensures.bind (translateOrtErrors_spec (ortCheck_spec _ fun _ _ _ _ ↦ trivial)).ensures
  intro _
  apply Ensures.bind_of (Ensures.throwIf fun _ _ _ ↦ trivial)
  intro _ _
  apply Ensures.bind_of (Ensures.throwIf fun _ _ _ ↦ trivial)
  intro _ hascending
  have hchecks : Ensures (fun e : OnnxEngine F ↦ e = { options := opts })
      (.runIf opts.normalizeOnDevice (checkNormalization opts))
      (fun _ e ↦ e.options = opts ∧ opts.useIoBinding = true ∧ Checked opts)
      (fun _ _ ↦ True) := by
    apply Ensures.runIf (fun _ ↦ ?_) (fun h ↦ absurd hn h)
    refine Ensures.conseq checkNormalization_ensures (fun _ hs ↦ hs) ?_ (fun _ _ hs ↦ hs)
    rintro _ s ⟨rfl, hio, hchannels, hequal, hplanes⟩
    exact ⟨rfl, hio, not_not.mp hascending, hchannels, hequal, hplanes⟩
  apply Ensures.bind_of hchecks
  rintro _ ⟨hio, hc⟩
  apply Ensures.bind (translateOrtErrors_spec (ortCheck_spec _ fun _ _ _ _ ↦ trivial)).ensures
  intro _
  apply Ensures.bind (Q := fun _ ↦ Normalizing opts)
  · exact Ensures.runIf (fun _ ↦ allocateDeviceBuffers_ensures hn hc p) (fun h ↦ absurd hio h)
  intro _
  refine Ensures.conseq (Q := fun _ ↦ Normalizing opts) (E := fun _ _ ↦ True) ?_ (fun _ hs ↦ hs)
    (fun _ _ hs ↦ ⟨hc, hs⟩) (fun _ _ hs ↦ hs)
  apply Ensures.runIf _ (fun _ _ hs ↦ hs)
  intro _
  exact Ensures.conseq (warmBuckets_ensures hn hc session p.warm opts.batchBuckets)
    (fun _ hs ↦ hs) (fun _ _ hs ↦ hs) (fun _ _ _ ↦ trivial)

/-- After any calls on a constructed engine it still normalizes. -/
theorem Constructed.normalizing (hn : opts.normalizeOnDevice = true) {session : Session F}
    {p : Platform F} {e₀ e : OnnxEngine F} (hc : Constructed session p opts e₀)
    {cs : List (InferenceCall F)} (hr : exec (call session) e₀ cs = some e) :
    Checked opts ∧ Normalizing opts e := by
  obtain ⟨hchecked, hk⟩ := construct_ensures hn session p _ _ _ rfl hc
  refine ⟨hchecked, exec_preserves ?_ hr hk⟩
  intro s c t hs ht
  exact normalizing_call hn hchecked hs ht

/-- A tensor of the fixed shape can only have the rows of a batch whose rows are images. -/
theorem inputElems_eq_of_rows {c : InferenceCall F} {t : Tensor F} {paddedBatch : Nat}
    (hlt : opts.inputElems < 2 ^ 64) (hone : 1 ≤ c.batchSize) (hb : c.batchSize ≤ paddedBatch)
    (hshape : t.shape = inputShape paddedBatch)
    (hsize : c.batchedInput.size = sizeMul c.batchSize opts.inputElems)
    (hrows : ∀ i < c.batchSize, row imageElems t.data i =
      normalized opts (row opts.inputElems c.batchedInput.toList i)) :
    opts.inputElems = imageElems := by
  have hlen : ∀ i < c.batchSize,
      min opts.inputElems (c.batchedInput.size - i * opts.inputElems) = imageElems := by
    intro i hi
    have heq := congrArg List.length (hrows i hi)
    rw [length_row_tensor hshape (by omega), normalized, length_normalizeRow, row,
      List.length_take, List.length_drop] at heq
    exact heq.symm
  by_contra hne
  have hfirst := hlen 0 hone
  have hpos : 0 < imageElems := by decide
  rw [Nat.zero_mul, Nat.sub_zero] at hfirst
  -- a first row that is cut short leaves nothing for a second one
  by_cases hsingle : c.batchSize = 1
  · rw [hsingle, sizeMul_of_lt (by omega), Nat.one_mul] at hsize
    omega
  · have hsecond := hlen 1 (by omega)
    omega

/-- The rows that a call presents to the session are the normalized rows of the caller exactly
when rows are images and every row that the kernel does not reach is its own normalization. -/
theorem device_normalization_iff (hn : opts.normalizeOnDevice = true)
    (hlt : opts.inputElems < 2 ^ 64) {session : Session F} {p : Platform F} {e₀ e e' : OnnxEngine F}
    (hc : Constructed session p opts e₀) {cs : List (InferenceCall F)}
    (hr : exec (call session) e₀ cs = some e) {c : InferenceCall F} (hone : 1 ≤ c.batchSize)
    {v : FloatVec F}
    (hcall : (runInference session c.env c.batchedInput c.batchSize c.inputElems
      c.outputElems).outcome e = some (.ok v, e')) :
    ∃ t, e'.runs = e.runs ++ [t] ∧
      t.shape = inputShape (bucketFor opts.batchBuckets c.batchSize) ∧
      ((∀ i < c.batchSize, row imageElems t.data i =
          normalized opts (row opts.inputElems c.batchedInput.toList i)) ↔
        opts.inputElems = imageElems ∧ ∀ i < c.batchSize, normalizedRows opts c.batchSize ≤ i →
          row opts.inputElems c.batchedInput.toList i =
            normalized opts (row opts.inputElems c.batchedInput.toList i)) := by
  obtain ⟨hchecked, hk⟩ := hc.normalizing hn hr
  obtain ⟨-, hpost⟩ := runInference_ensures hn hchecked session c e _ _ ⟨hk, rfl⟩ hcall
  obtain ⟨⟨-, t, hruns, hshape, hrows⟩, hsize⟩ := hpost (by omega)
  refine ⟨t, hruns, hshape, ?_⟩
  constructor
  · intro hall
    have hie := inputElems_eq_of_rows hlt hone (le_bucketFor _ _) hshape hsize hall
    refine ⟨hie, ?_⟩
    intro i hi hbeyond
    rw [← hall i hi, hrows hie i hi, deviceRow, if_neg (by omega)]
  · rintro ⟨hie, hbeyond⟩ i hi
    rw [hrows hie i hi, deviceRow]
    split
    · rfl
    · exact hbeyond i hi (by omega)

/-! ### A batch that fits and one that does not -/

omit [FloatOps F] in
/-- Buffers whose extents fit 64 bits have the sizes asked for. -/
theorem Normalizing.kept {e : OnnxEngine F} (h : Normalizing opts e) (hf : Fits opts) :
    Kept opts true e.hostInput e := by
  have hin : inputFloats opts = opts.maxBatch * opts.inputElems := by
    rw [inputFloats, floatBytes_sizeMul hf.input, Nat.mul_div_cancel _ (by decide)]
  have hout : outputFloats opts = opts.maxBatch * opts.outputElems := by
    rw [outputFloats, floatBytes_sizeMul hf.output, Nat.mul_div_cancel _ (by decide)]
  refine ⟨h.options, h.ioBindingActive, rfl, fun _ ↦ ?_, fun _ ↦ ?_⟩
  · rw [← hin, ← hout]
    exact ⟨h.hostInput, h.deviceInput, h.hostOutput, h.deviceOutput⟩
  · rw [← hin, ← hout]
    exact h.addressable

/-- Without a CUDA failure a batch of images that fits is staged. -/
theorem stageInput_returns (hc : Checked opts) (hf : Fits opts)
    (hie : opts.inputElems = imageElems) {e : OnnxEngine F} (hk : Normalizing opts e)
    {input : FloatVec F} {paddedBatch : Nat} (hone : 1 ≤ paddedBatch)
    (hint : paddedBatch < 2 ^ 31) (hp : paddedBatch ≤ opts.maxBatch)
    (hsize : input.size ≤ paddedBatch * opts.inputElems) :
    ∃ t, (stageInput {} input paddedBatch).outcome e = some (.ok (), t) := by
  obtain ⟨hhost, hdevice, -, -⟩ := (hk.kept hf).sizes rfl
  obtain ⟨haddr, -⟩ := (hk.kept hf).addressable rfl
  obtain ⟨hchannels, hplane⟩ := hc.int_range hie
  have hin : paddedBatch * opts.inputElems ≤ opts.maxBatch * opts.inputElems :=
    Nat.mul_le_mul_right _ hp
  have hfits : input.toList.length ≤ e.hostInput.length := by
    rw [hhost]
    exact Nat.le_trans hsize hin
  have hplanes : 0 < opts.inputElems / opts.mean.length := by
    apply Nat.pos_of_ne_zero
    intro hzero
    have hmul := hc.channels_mul
    rw [hzero, Nat.mul_zero, hie] at hmul
    exact absurd hmul (by decide)
  have hmean : e.deviceMean ≠ [] := by
    rw [(hk.planes hie).1]
    exact List.ne_nil_of_length_pos hc.channels
  have hstddev : e.deviceStddev ≠ [] := by
    rw [(hk.planes hie).2]
    exact List.ne_nil_of_length_pos (hc.equal ▸ hc.channels)
  have hspec : Spec (fun s ↦ e = s) (stageInput {} input paddedBatch) (fun _ _ ↦ True)
      (fun _ _ ↦ False) := by
    unfold stageInput
    apply Spec.get_bind
    rintro _ rfl
    rw [hk.options, sizeMul_of_lt (by omega : paddedBatch * opts.inputElems < 2 ^ 64)]
    apply Spec.conseq (P := fun _ ↦ True) _ (fun _ _ ↦ trivial) (fun _ _ h ↦ h) (fun _ _ h ↦ h)
    apply Spec.bind_of (copyBytes_spec (Nat.lt_of_lt_of_le input.size_lt (by decide))
      (Nat.le_refl _) hfits)
    rintro host rfl
    rw [List.take_length]
    have hlen : (overwrite e.hostInput input.toList).length = e.hostInput.length :=
      length_overwrite hfits
    apply Spec.bind (Q := fun _ _ ↦ True) (Spec.modify fun _ _ ↦ trivial)
    intro _
    apply Spec.bind (cudaCheck_spec _ _ fun _ _ hf _ ↦ absurd rfl hf)
    intro _
    apply Spec.bind_of (copyBytes_spec (by omega) (by omega) (by omega))
    rintro device rfl
    have hdev : (overwrite e.deviceInput ((overwrite e.hostInput input.toList).take
        (paddedBatch * opts.inputElems))).length = opts.maxBatch * opts.inputElems := by
      rw [length_overwrite (by rw [List.length_take]; omega), hdevice]
    apply Spec.bind (Q := fun _ _ ↦ True) (Spec.modify fun _ _ ↦ trivial)
    intro _
    apply Spec.bind (Q := fun _ _ ↦ True)
    · apply Spec.runIf (fun _ ↦ ?_) (fun _ _ _ ↦ trivial)
      dsimp only
      rw [toInt32_of_lt hint, toInt32_of_lt hchannels, toInt32_of_lt hplane]
      apply Spec.bind (Q := fun _ _ ↦ True)
      · intro s _
        refine ⟨_, s, launchNormalize_outcome (by omega) (by exact_mod_cast hc.channels)
          (by exact_mod_cast hplanes) hmean hstddev ?_ (by omega) s, trivial⟩
        rw [Int.toNat_natCast, Int.toNat_natCast, Int.toNat_natCast, Nat.mul_assoc,
          hc.channels_mul, hdev]
        exact hin
      · intro _
        exact Spec.modify fun _ _ ↦ trivial
    intro _
    exact cudaCheck_spec _ _ fun _ _ hf _ ↦ absurd rfl hf
  obtain ⟨r, t, hr, hpost⟩ := hspec e rfl
  cases r with
  | ok _ => exact ⟨t, hr⟩
  | error _ => exact hpost.elim

/-- With a model that answers zeros a batch of images that fits succeeds. -/
theorem runBound_zeros (hn : opts.normalizeOnDevice = true) (hc : Checked opts) (hf : Fits opts)
    (hie : opts.inputElems = imageElems) {e : OnnxEngine F} (hk : Normalizing opts e)
    {input : FloatVec F} {batchSize paddedBatch : Nat} (hone : 1 ≤ paddedBatch)
    (hint : paddedBatch < 2 ^ 31) (hp : paddedBatch ≤ opts.maxBatch)
    (hb : batchSize ≤ paddedBatch) (hsize : input.size = batchSize * opts.inputElems) :
    ∃ v e', (runBound (Session.zeros opts.outputElems) {} input batchSize paddedBatch).outcome e =
      some (.ok v, e') := by
  have hmul : batchSize * opts.inputElems ≤ paddedBatch * opts.inputElems :=
    Nat.mul_le_mul_right _ hb
  have hin : paddedBatch * opts.inputElems ≤ opts.maxBatch * opts.inputElems :=
    Nat.mul_le_mul_right _ hp
  have hout : batchSize * opts.outputElems ≤ opts.maxBatch * opts.outputElems :=
    Nat.mul_le_mul_right _ (Nat.le_trans hb hp)
  obtain ⟨haddr, hoaddr⟩ := (hk.kept hf).addressable rfl
  have hsize' : input.size = sizeMul batchSize opts.inputElems := by
    rw [sizeMul_of_lt (by omega)]
    exact hsize
  obtain ⟨m, hm⟩ := stageInput_returns hc hf hie hk hone hint hp (Nat.le_trans (Nat.le_of_eq hsize)
    hmul)
  have hkm := (stageInput_ensures hn hc {} hb hsize' e _ m ⟨hk, rfl⟩ hm).1.1.kept hf
  have hprod : (inputShape paddedBatch).prod = paddedBatch * opts.inputElems := by
    rw [prod_inputShape, hie]
  have hlen : m.deviceInput.length = opts.maxBatch * opts.inputElems := (hkm.sizes rfl).2.1
  have hresult : ((List.replicate (paddedBatch * opts.outputElems) (0 : F)).take
      (batchSize * opts.outputElems)).length < 2 ^ 61 :=
    Nat.lt_of_le_of_lt (List.length_take_le _ _) (Nat.lt_of_le_of_lt hout hoaddr)
  have htensor : (m.deviceInput.take (inputShape paddedBatch).prod).length =
      (inputShape paddedBatch).prod := by
    rw [List.length_take, Nat.min_eq_left (by rw [hprod, hlen]; exact hin)]
  have hvalue : (runStaged (Session.zeros opts.outputElems) {} batchSize paddedBatch).value m =
      some ⟨_, hresult⟩ :=
    runStaged_value hkm hb hp (t := ⟨inputShape paddedBatch, _, htensor⟩)
      rfl rfl (Nat.le_of_eq hprod) rfl rfl rfl
  obtain ⟨e', he'⟩ := value_eq_some.mp hvalue
  rw [runBound, outcome_bind_ok hm]
  exact ⟨_, e', he'⟩

/-- With such a model a batch of images succeeds on the host path, too. -/
theorem runHost_zeros (hie : opts.inputElems = imageElems) {e : OnnxEngine F}
    (ho : e.options = opts) {input : FloatVec F} {batchSize : Nat}
    (hsize : input.size = batchSize * opts.inputElems)
    (hout : batchSize * opts.outputElems < 2 ^ 61) :
    ∃ v e', (runHost (Session.zeros opts.outputElems) {} input batchSize batchSize).outcome e =
      some (.ok v, e') := by
  have hlt : batchSize * opts.inputElems < 2 ^ 61 := by
    rw [← hsize]
    exact input.size_lt
  have hprod : (inputShape batchSize).prod = batchSize * opts.inputElems := by
    rw [prod_inputShape, hie]
  have hlen : (input.toList ++ List.replicate (batchSize * opts.inputElems - input.size)
      (0 : F)).length = batchSize * opts.inputElems := by
    rw [List.length_append, List.length_replicate, hsize]
    change input.size + _ = _
    omega
  have hvalue : (runHost (Session.zeros opts.outputElems) {} input batchSize batchSize).value e =
      some ⟨(List.replicate (batchSize * opts.outputElems) 0).take
        (sizeMul batchSize opts.outputElems), by
          rw [List.length_take, List.length_replicate]; omega⟩ := by
    apply runHost_value ho hsize (Nat.le_refl _) hlt hout
    refine ⟨⟨inputShape batchSize, _, by rw [List.length_take, hlen, hprod, Nat.min_self]⟩,
      ⟨[batchSize, opts.outputElems], List.replicate (batchSize * opts.outputElems) 0, by simp⟩,
      [], rfl, rfl, ?_, rfl, ?_, rfl⟩
    · rw [hprod, sizeMul_of_lt (by omega)]
    · rw [List.length_replicate, sizeMul_of_lt (by omega)]
  obtain ⟨e', he'⟩ := value_eq_some.mp hvalue
  exact ⟨_, e', he'⟩

/-- One bucket of one image, and three channels of mean and deviation one. -/
def centeredOptions : OnnxOptions Int where
  modelPath := "model.onnx"
  batchBuckets := [1]
  warmBuckets := false
  outputElems := 1
  normalizeOnDevice := true
  mean := [1, 1, 1]
  stddev := [1, 1, 1]

private theorem centered_fits : Fits centeredOptions :=
  ⟨by simp [centeredOptions], by decide, by decide⟩

private theorem centered_images : centeredOptions.inputElems = imageElems := rfl

private theorem centered_constructed :
    ∃ e, Constructed (Session.zeros 1) soundPlatform centeredOptions e ∧
      Checked centeredOptions ∧ Normalizing centeredOptions e := by
  have hok : ((construct (Session.zeros 1) soundPlatform).outcome
      { options := centeredOptions }).map (fun r ↦ r.1.isOk) = some true := by decide +kernel
  obtain ⟨⟨r, e⟩, hr, hok⟩ := Option.map_eq_some_iff.mp hok
  cases r with
  | ok _ => exact ⟨e, hr, construct_ensures rfl _ _ _ _ _ rfl hr⟩
  | error _ => cases hok

private theorem row_ones {n : Nat} (h : n ≤ 2) {i : Nat} (hi : i < n) :
    row imageElems (ones n h).toList i = List.replicate imageElems 1 := by
  have hlist : (ones n h).toList = List.replicate (n * imageElems) 1 := rfl
  have hle := Nat.mul_le_mul_right imageElems (Nat.succ_le_of_lt hi)
  rw [Nat.succ_mul] at hle
  rw [row, hlist, List.drop_replicate, List.take_replicate, Nat.min_eq_left (by omega)]

/-- Two images exceed the only bucket, so the session sees them as they came. -/
theorem oversized_batch_not_normalized :
    ∃ e e' v t, Constructed (Session.zeros 1) soundPlatform centeredOptions e ∧
      (runInference (Session.zeros 1) {} (ones 2 (by decide)) 2 imageElems 1).outcome e =
        some (.ok v, e') ∧
      e'.runs = e.runs ++ [t] ∧
      row imageElems t.data 0 ≠
        normalized centeredOptions (row imageElems (ones 2 (by decide)).toList 0) := by
  obtain ⟨e, he, hc, hk⟩ := centered_constructed
  have hsize : (ones 2 (by decide)).size = 2 * centeredOptions.inputElems := List.length_replicate
  obtain ⟨v, e', hv⟩ := runHost_zeros centered_images hk.options hsize (by decide)
  have hcall := (runInference_path hk.options hk.ioBindingActive (Session.zeros 1) {} (by decide)
    hsize).trans hv
  obtain ⟨-, hpost⟩ := runInference_ensures rfl hc (Session.zeros 1)
    (onesCall 2 (by decide)) e _ _ ⟨hk, rfl⟩ hcall
  obtain ⟨⟨-, t, hruns, -, hrows⟩, -⟩ := hpost (by decide)
  refine ⟨e, e', v, t, he, hcall, hruns, ?_⟩
  have hraw : row imageElems t.data 0 = List.replicate imageElems 1 := by
    rw [hrows rfl 0 (by decide), deviceRow, if_neg (by decide)]
    exact row_ones (by decide) (by decide)
  rw [hraw, row_ones (by decide) (by decide)]
  intro heq
  -- the first element would have to be zero
  have hfirst := congrArg (·[0]?) heq
  simp only [normalized, normalizeRow, List.getElem?_mapIdx, List.getElem?_replicate,
    if_pos (show 0 < imageElems by decide)] at hfirst
  exact absurd hfirst (by decide)

/-- One image fits the bucket and is normalized. -/
theorem device_normalization_single :
    ∃ e e' v t, Constructed (Session.zeros 1) soundPlatform centeredOptions e ∧
      (runInference (Session.zeros 1) {} (ones 1 (by decide)) 1 imageElems 1).outcome e =
        some (.ok v, e') ∧
      e'.runs = e.runs ++ [t] ∧
      ∀ i < 1, row imageElems t.data i =
        normalized centeredOptions (row imageElems (ones 1 (by decide)).toList i) := by
  obtain ⟨e, he, hc, hk⟩ := centered_constructed
  have hsize : (ones 1 (by decide)).size = 1 * centeredOptions.inputElems := List.length_replicate
  obtain ⟨v, e', hv⟩ := runBound_zeros rfl hc centered_fits centered_images hk (Nat.le_refl 1)
    (by decide) (by decide) (Nat.le_refl 1) hsize
  have hcall := (runInference_path hk.options hk.ioBindingActive (Session.zeros 1) {} (by decide)
    hsize).trans hv
  have hrun : exec (call (Session.zeros 1)) e [] = some e := rfl
  obtain ⟨t, hruns, -, hiff⟩ := device_normalization_iff rfl (by decide) he hrun
    (c := onesCall 1 (by decide)) (by decide) hcall
  refine ⟨e, e', v, t, he, hcall, hruns, ?_⟩
  apply hiff.mpr
  refine ⟨rfl, ?_⟩
  intro i hi hbeyond
  have hone : normalizedRows centeredOptions 1 = 1 := by decide
  change i < 1 at hi
  change normalizedRows centeredOptions 1 ≤ i at hbeyond
  omega

end OnnxEngine
end InferenceServer.Engine
