import InferenceServer.Engine.Onnx

/-!
# What one call does to the engine

Library `Engine`. Without normalization on the device, `run_inference` is defined for every
engine and every argument as long as the configured extents fit 64 bits. It changes nothing
that later calls read except the pinned input, and that only on the bound path.
-/

namespace InferenceServer.Engine

open InferenceServer.Base InferenceServer.Base.Act

variable {F σ : Type}

/-! ### Buckets -/

/-- Rows the preallocated buffers hold, `onnx_execution_engine.cpp:195–196`. -/
def OnnxOptions.maxBatch (opts : OnnxOptions F) : Nat := opts.batchBuckets.getLast?.getD 1

/-- Padding only adds rows. -/
theorem le_bucketFor (buckets : List Nat) (batchSize : Nat) :
    batchSize ≤ bucketFor buckets batchSize := by
  induction buckets with
  | nil => exact Nat.le_refl _
  | cons bucket buckets ih =>
    unfold bucketFor
    split
    · next h => exact h
    · exact ih

/-- A batch is padded to a bucket, or not at all. -/
theorem bucketFor_cases (buckets : List Nat) (batchSize : Nat) :
    bucketFor buckets batchSize ∈ buckets ∨ bucketFor buckets batchSize = batchSize := by
  induction buckets with
  | nil => exact .inr rfl
  | cons bucket buckets ih =>
    unfold bucketFor
    split
    · exact .inl (by simp)
    · rcases ih with h | h
      · exact .inl (by simp [h])
      · exact .inr h

/-- The last of an ascending list is its largest. -/
theorem le_getLast {buckets : List Nat} (hs : buckets.Pairwise (· ≤ ·)) {bucket back : Nat}
    (hb : bucket ∈ buckets) (hl : buckets.getLast? = some back) : bucket ≤ back := by
  obtain ⟨front, rfl⟩ := List.getLast?_eq_some_iff.mp hl
  rcases List.mem_append.mp hb with h | h
  · exact (List.pairwise_append.mp hs).2.2 bucket h back (by simp)
  · exact Nat.le_of_eq (List.mem_singleton.mp h)

namespace OnnxEngine

/-- A padded batch that fits has at most `maxBatch` rows. -/
theorem le_maxBatch {opts : OnnxOptions F} {paddedBatch : Nat}
    (h : fitsPreallocated opts.batchBuckets paddedBatch = true) :
    paddedBatch ≤ opts.maxBatch := by
  unfold fitsPreallocated at h
  unfold OnnxOptions.maxBatch
  split at h
  · cases h
  · next back hb =>
    rw [hb]
    simpa using h

/-- Whatever the batch, it is not padded or padded to at most `maxBatch` rows. -/
theorem bucketFor_le {opts : OnnxOptions F} (hs : opts.batchBuckets.Pairwise (· ≤ ·))
    (batchSize : Nat) :
    bucketFor opts.batchBuckets batchSize ≤ opts.maxBatch ∨
      bucketFor opts.batchBuckets batchSize = batchSize := by
  rcases bucketFor_cases opts.batchBuckets batchSize with h | h
  · left
    cases hl : opts.batchBuckets.getLast? with
    | none =>
      rw [List.getLast?_eq_none_iff] at hl
      rw [hl] at h
      cases h
    | some back =>
      unfold OnnxOptions.maxBatch
      rw [hl]
      exact le_getLast hs h hl
  · exact .inr h

/-- A batch no larger than the last bucket fits. -/
theorem fits_of_le {buckets : List Nat} (hs : buckets.Pairwise (· ≤ ·)) {batchSize back : Nat}
    (hl : buckets.getLast? = some back) (hb : batchSize ≤ back) :
    fitsPreallocated buckets (bucketFor buckets batchSize) = true := by
  simp only [fitsPreallocated, hl, decide_eq_true_eq]
  rcases bucketFor_cases buckets batchSize with h | h
  · exact le_getLast hs h hl
  · rw [h]
    exact hb

end OnnxEngine

/-! ### The primitives -/

/-- A float count below `2 ^ 62` survives the conversion to bytes and back. -/
theorem floatBytes_div {n : Nat} (h : n < 2 ^ 62) : floatBytes n / 4 = n := by
  unfold floatBytes
  rw [sizeMul_of_lt (by omega)]
  omega

/-- Extents that fit 64 bits are not cut when they are taken in bytes. -/
theorem floatBytes_sizeMul {a b : Nat} (h : a * b * 4 < 2 ^ 64) :
    floatBytes (sizeMul a b) = a * b * 4 := by
  have hmul : sizeMul a b = a * b := sizeMul_of_lt (by omega)
  rw [floatBytes, hmul, sizeMul_of_lt h]

/-- A copy inside both buffers. -/
theorem copyBytes_outcome {dst src : List F} {n : Nat} (hn : n < 2 ^ 62) (hs : n ≤ src.length)
    (hd : n ≤ dst.length) (s : σ) :
    (copyBytes dst src (floatBytes n)).outcome s =
      some (.ok (overwrite dst (src.take n)), s) := by
  unfold copyBytes
  rw [floatBytes_div hn, if_pos ⟨hs, hd⟩]
  rfl

theorem copyBytes_spec {P : σ → Prop} {E : CppException → σ → Prop} {dst src : List F} {n : Nat}
    (hn : n < 2 ^ 62) (hs : n ≤ src.length) (hd : n ≤ dst.length) :
    Spec P (copyBytes dst src (floatBytes n))
      (fun d s ↦ P s ∧ d = overwrite dst (src.take n)) E :=
  fun s h ↦ ⟨_, s, copyBytes_outcome hn hs hd s, h, rfl⟩

theorem ortCheck_spec {P : σ → Prop} {E : CppException → σ → Prop} (status : Option String)
    (h : ∀ ex s, status ≠ none → P s → E ex s) :
    Spec P (ortCheck status) (fun _ ↦ P) E := by
  cases status with
  | none => exact Spec.pure fun _ hs ↦ hs
  | some what => exact Spec.throw fun s hs ↦ h _ s (by simp) hs

/-- What follows an ONNX Runtime call knows that it succeeded. -/
theorem ortCheck_passed {P : σ → Prop} (status : Option String) :
    Spec P (ortCheck status) (fun _ s ↦ P s ∧ status = none) (fun _ ↦ P) := by
  cases status with
  | none => exact Spec.pure fun _ hs ↦ ⟨hs, rfl⟩
  | some what => exact Spec.throw fun _ hs ↦ hs

theorem floatBytes_le (n : Nat) : floatBytes n ≤ 4 * n :=
  Nat.le_trans (Nat.mod_le _ _) (Nat.le_of_eq (Nat.mul_comm n 4))

/-- A tensor over a buffer of at least the stated length. -/
theorem createTensor_spec {P : σ → Prop} {data : List F} {len : Nat} (h : len ≤ data.length)
    (session : Session F) (shape : List Nat) :
    Spec P (createTensor session data len shape)
      (fun t s ↦ P s ∧ t.shape = shape ∧ t.data = data.take shape.prod ∧ shape.prod ≤ len)
      (fun _ ↦ P) := by
  unfold createTensor
  apply Spec.bind_of (ortCheck_passed _)
  intro _ hspace
  have hbytes := floatBytes_le len
  rw [session.space_eq_none] at hspace
  rw [dif_pos (by omega)]
  exact Spec.pure fun _ hs ↦ ⟨hs, rfl, rfl, by omega⟩

/-- Reading a vector from inside a buffer. -/
theorem readVector_spec {P : σ → Prop} {data : List F} {count : Nat} (h : count ≤ data.length) :
    Spec P (readVector data count) (fun v s ↦ P s ∧ v.toList = data.take count)
      (fun _ ↦ P) := by
  intro s hs
  simp only [readVector, h, ↓reduceIte]
  split
  · exact ⟨_, s, rfl, hs, rfl⟩
  · exact ⟨_, s, rfl, hs⟩

theorem zeroVector_spec [Zero F] {P : σ → Prop} (count : Nat) :
    Spec P (zeroVector count : Act CppException σ (FloatVec F))
      (fun v s ↦ P s ∧ v.toList = List.replicate count 0 ∧ count < 2 ^ 61) (fun _ ↦ P) := by
  intro s hs
  unfold zeroVector
  split
  · next h => exact ⟨_, s, rfl, hs, rfl, h⟩
  · exact ⟨_, s, rfl, hs⟩

/-- Translating exceptions keeps results and the state. -/
theorem translateOrtErrors_spec {α : Type} {P P' : σ → Prop} {Q : α → σ → Prop} {what : String}
    {fn : Act CppException σ α} (h : Spec P fn Q (fun _ ↦ P')) :
    Spec P (translateOrtErrors what fn) Q (fun _ ↦ P') := by
  apply Spec.tryCatch h
  intro e
  split
  · exact Spec.throw fun _ hs ↦ hs
  · exact Spec.throw fun _ hs ↦ hs

namespace OnnxEngine

/-! ### The engine between calls -/

/-- The options are `opts`, the pinned input holds `buf`, and when the bound path is active
the buffers have the sizes they were allocated with. -/
structure Kept (opts : OnnxOptions F) (active : Bool) (buf : List F) (e : OnnxEngine F) :
    Prop where
  options : e.options = opts
  ioBindingActive : e.ioBindingActive = active
  hostInput : e.hostInput = buf
  sizes : active = true → buf.length = opts.maxBatch * opts.inputElems ∧
    e.deviceInput.length = opts.maxBatch * opts.inputElems ∧
    e.hostOutput.length = opts.maxBatch * opts.outputElems ∧
    e.deviceOutput.length = opts.maxBatch * opts.outputElems
  addressable : active = true →
    opts.maxBatch * opts.inputElems < 2 ^ 61 ∧ opts.maxBatch * opts.outputElems < 2 ^ 61

variable {opts : OnnxOptions F} {active : Bool} {buf : List F}

/-- What a batch takes of the buffers: its padded rows fit, and no product of sizes wraps. -/
theorem Kept.extents {e : OnnxEngine F} (hk : Kept opts true buf e) {batchSize paddedBatch : Nat}
    (hb : batchSize ≤ paddedBatch) (hp : paddedBatch ≤ opts.maxBatch) :
    opts.maxBatch * opts.inputElems < 2 ^ 61 ∧ opts.maxBatch * opts.outputElems < 2 ^ 61 ∧
      paddedBatch * opts.inputElems ≤ opts.maxBatch * opts.inputElems ∧
      paddedBatch * opts.outputElems ≤ opts.maxBatch * opts.outputElems ∧
      batchSize * opts.outputElems ≤ paddedBatch * opts.outputElems :=
  ⟨(hk.addressable rfl).1, (hk.addressable rfl).2, Nat.mul_le_mul_right _ hp,
    Nat.mul_le_mul_right _ hp, Nat.mul_le_mul_right _ hb⟩

private theorem kept_runs {input : Tensor F} (e : OnnxEngine F) (h : Kept opts active buf e) :
    Kept opts active buf { e with runs := e.runs ++ [input] } :=
  ⟨h.options, h.ioBindingActive, h.hostInput, h.sizes, h.addressable⟩

/-- The session sees a tensor and the engine is kept. -/
theorem sessionRun_spec (session : Session F) (env : CallEnv) (input : Tensor F)
    {P : OnnxEngine F → Prop} (hP : ∀ e, P e → P { e with runs := e.runs ++ [input] }) :
    Spec P (sessionRun session env input)
      (fun outputs e ↦ P e ∧ session.run input = .ok outputs) (fun _ ↦ P) := by
  unfold sessionRun
  apply Spec.bind (Q := fun _ ↦ P) (Spec.modify hP)
  intro _
  apply Spec.bind (ortCheck_spec env.run fun _ _ _ hs ↦ hs)
  intro _
  cases h : session.run input with
  | error what => exact Spec.throw fun _ hs ↦ hs
  | ok outputs => exact Spec.pure fun _ hs ↦ ⟨hs, rfl⟩

theorem sessionRunBinding_spec (session : Session F) (env : CallEnv) (input : Tensor F)
    (outputShape : List Nat) {P : OnnxEngine F → Prop}
    (hP : ∀ e, P e → P { e with runs := e.runs ++ [input] }) :
    Spec P (sessionRunBinding session env input outputShape)
      (fun output e ↦ P e ∧ output.shape = outputShape ∧
        ∃ rest, session.run input = .ok (.tensor output :: rest)) (fun _ ↦ P) := by
  unfold sessionRunBinding
  apply Spec.bind (sessionRun_spec session env input hP)
  intro outputs
  split
  · next output rest =>
    apply Spec.bind (Spec.conseq (ortCheck_passed _) (fun _ hs ↦ hs) (fun _ _ hs ↦ hs)
      fun _ _ hs ↦ hs.1)
    intro _
    exact Spec.pure fun _ hs ↦ ⟨hs.1.1, (session.bind_eq_none _ _).mp hs.2, rest, hs.1.2⟩
  · exact Spec.throw fun _ hs ↦ hs.1

/-- `run_bound` after staging: a returned vector is the front of what the session made of the
staged rows. -/
theorem runStaged_spec (session : Session F) (env : CallEnv) {batchSize paddedBatch : Nat}
    {rows : List F} (hb : batchSize ≤ paddedBatch) (hp : paddedBatch ≤ opts.maxBatch) :
    Spec (fun e ↦ Kept opts true buf e ∧
        e.deviceInput.take (paddedBatch * opts.inputElems) = rows)
      (runStaged session env batchSize paddedBatch)
      (fun v e ↦ Kept opts true buf e ∧ ∃ input output rest,
        input.shape = inputShape paddedBatch ∧
        input.data = rows.take (inputShape paddedBatch).prod ∧
        (inputShape paddedBatch).prod ≤ paddedBatch * opts.inputElems ∧
        session.run input = .ok (.tensor output :: rest) ∧
        output.shape = [paddedBatch, opts.outputElems] ∧
        v.toList = output.data.take (batchSize * opts.outputElems))
      (fun _ ↦ Kept opts true buf) := by
  unfold runStaged
  apply translateOrtErrors_spec
  apply Spec.get_bind
  rintro e ⟨hk, rfl⟩
  obtain ⟨-, hdlen, holen, hdolen⟩ := hk.sizes rfl
  obtain ⟨hiaddr, hoaddr, hin, hout, hrow⟩ := hk.extents hb hp
  rw [hk.options, sizeMul_of_lt (by omega : paddedBatch * opts.inputElems < 2 ^ 64),
    sizeMul_of_lt (by omega : paddedBatch * opts.outputElems < 2 ^ 64),
    sizeMul_of_lt (by omega : batchSize * opts.outputElems < 2 ^ 64)]
  -- from here on only the sizes of the buffers matter, not what the state holds
  apply Spec.conseq (P := Kept opts true buf) _ (fun _ hs ↦ hs.1) (fun _ _ hs ↦ hs)
    (fun _ _ hs ↦ hs)
  apply Spec.bind_of (createTensor_spec (by omega) session _)
  rintro input ⟨hishape, hidata, hifit⟩
  apply Spec.bind_of (createTensor_spec (by omega) session _)
  rintro outputTensor ⟨hoshape, -, -⟩
  apply Spec.bind_of (sessionRunBinding_spec session env input outputTensor.shape kept_runs)
  rintro output ⟨hshape, rest, hsession⟩
  have holen' : output.data.length = paddedBatch * opts.outputElems := by
    rw [output.size_eq, hshape, hoshape]
    simp
  apply Spec.bind (Q := fun _ ↦ Kept opts true buf)
  · apply Spec.modify
    intro s hs
    have hsz := hs.sizes rfl
    exact ⟨hs.options, hs.ioBindingActive, hs.hostInput, fun _ ↦ ⟨hsz.1, hsz.2.1, hsz.2.2.1, by
      rw [length_overwrite (by omega)]; exact hdolen⟩, hs.addressable⟩
  intro _
  apply Spec.bind (cudaCheck_spec env.d2h _ fun _ _ _ hs ↦ hs)
  intro _
  have hdev' : paddedBatch * opts.outputElems ≤ (overwrite e.deviceOutput output.data).length := by
    rw [length_overwrite (by omega)]
    omega
  apply Spec.bind_of (copyBytes_spec (by omega) hdev' (by omega))
  rintro hostOutput rfl
  have hlen : ((overwrite e.deviceOutput output.data).take
      (paddedBatch * opts.outputElems)).length = paddedBatch * opts.outputElems := by
    rw [List.length_take, Nat.min_eq_left hdev']
  apply Spec.bind (Q := fun _ ↦ Kept opts true buf)
  · apply Spec.modify
    intro s hs
    obtain ⟨hs1, hs2, -, hs4⟩ := hs.sizes rfl
    refine ⟨hs.options, hs.ioBindingActive, hs.hostInput, fun _ ↦ ⟨hs1, hs2, ?_, hs4⟩,
      hs.addressable⟩
    rw [length_overwrite (by omega)]
    exact holen
  intro _
  apply Spec.bind (cudaCheck_spec env.syncPost _ fun _ _ _ hs ↦ hs)
  intro _
  apply Spec.conseq (readVector_spec (P := Kept opts true buf) ?_) (fun _ hs ↦ hs) ?_
    (fun _ _ hs ↦ hs)
  · rw [length_overwrite (by omega)]
    omega
  · rintro v s ⟨hs, hv⟩
    refine ⟨hs, input, output, rest, hishape, ?_, hifit, hsession, hshape.trans hoshape, ?_⟩
    · rw [hidata, List.take_take, Nat.min_eq_left hifit]
    rw [hv, take_overwrite (by omega), List.take_take, Nat.min_eq_left hrow,
      take_overwrite (by omega)]

variable [FloatOps F]

/-- Staging copies the batch over the pinned input and that to the device; only a CUDA call
makes it throw. -/
theorem stageInput_spec (hn : opts.normalizeOnDevice = false) (env : CallEnv)
    {input : FloatVec F} {paddedBatch : Nat}
    (hsize : input.size ≤ paddedBatch * opts.inputElems) (hp : paddedBatch ≤ opts.maxBatch) :
    Spec (Kept opts true buf) (stageInput env input paddedBatch)
      (fun _ e ↦ Kept opts true (overwrite buf input.toList) e ∧
        e.deviceInput.take (paddedBatch * opts.inputElems) =
          (overwrite buf input.toList).take (paddedBatch * opts.inputElems))
      (fun _ e ↦ Kept opts true (overwrite buf input.toList) e ∧
        (env.h2d ≠ none ∨ env.syncPre ≠ none)) := by
  unfold stageInput
  apply Spec.get_bind
  intro e hk
  obtain ⟨hblen, hdlen, -, -⟩ := hk.sizes rfl
  obtain ⟨hiaddr, -⟩ := hk.addressable rfl
  have hin : paddedBatch * opts.inputElems ≤ opts.maxBatch * opts.inputElems :=
    Nat.mul_le_mul_right _ hp
  have hfits : input.toList.length ≤ buf.length := by
    rw [hblen]
    exact Nat.le_trans hsize hin
  rw [hk.options, hk.hostInput, sizeMul_of_lt (by omega : paddedBatch * opts.inputElems < 2 ^ 64)]
  apply Spec.bind_of (copyBytes_spec (Nat.lt_of_lt_of_le input.size_lt (by decide))
    (Nat.le_refl _) hfits)
  rintro hostInput rfl
  rw [List.take_length]
  have hblen' : (overwrite buf input.toList).length = opts.maxBatch * opts.inputElems := by
    rw [length_overwrite hfits, hblen]
  apply Spec.bind (Q := fun _ ↦ Kept opts true (overwrite buf input.toList))
  · apply Spec.modify
    intro s hs
    exact ⟨hs.options, hs.ioBindingActive, rfl, fun _ ↦ ⟨hblen', (hs.sizes rfl).2⟩, hs.addressable⟩
  intro _
  apply Spec.bind (cudaCheck_spec env.h2d _ fun _ _ hf hs ↦ ⟨hs, .inl hf⟩)
  intro _
  apply Spec.bind_of (copyBytes_spec (by omega) (by omega) (by omega))
  rintro deviceInput rfl
  have htake : ((overwrite buf input.toList).take (paddedBatch * opts.inputElems)).length =
      paddedBatch * opts.inputElems := by
    rw [List.length_take, Nat.min_eq_left (by omega)]
  apply Spec.bind
    (Q := fun _ e ↦ Kept opts true (overwrite buf input.toList) e ∧
      e.deviceInput.take (paddedBatch * opts.inputElems) =
        (overwrite buf input.toList).take (paddedBatch * opts.inputElems))
  · apply Spec.modify
    intro s hs
    obtain ⟨hs1, -, hs3⟩ := hs.sizes rfl
    refine ⟨⟨hs.options, hs.ioBindingActive, hs.hostInput, fun _ ↦ ⟨hs1, ?_, hs3⟩,
      hs.addressable⟩, ?_⟩
    · rw [length_overwrite (by omega)]
      exact hdlen
    · dsimp only
      rw [take_overwrite (by omega), List.take_take, Nat.min_self]
  intro _
  apply Spec.bind (Spec.runIf (fun h ↦ absurd h (by simp [hn])) (fun _ _ hs ↦ hs))
  intro _
  exact cudaCheck_spec env.syncPre _ fun _ _ hf hs ↦ ⟨hs.1, .inr hf⟩

/-- What a returned vector is: the front of the first output tensor, for a tensor over the
front of `rows`. -/
def Answers (session : Session F) (opts : OnnxOptions F) (rows : List F)
    (batchSize paddedBatch : Nat) (v : FloatVec F) : Prop :=
  ∃ input output rest, input.shape = inputShape paddedBatch ∧
    input.data = rows.take (inputShape paddedBatch).prod ∧
    (inputShape paddedBatch).prod ≤ sizeMul paddedBatch opts.inputElems ∧
    session.run input = .ok (.tensor output :: rest) ∧
    output.data.length = sizeMul paddedBatch opts.outputElems ∧
    v.toList = output.data.take (sizeMul batchSize opts.outputElems)

/-- The bound path answers from the pinned input after the batch was copied over it. -/
theorem runBound_spec (hn : opts.normalizeOnDevice = false) (session : Session F)
    (env : CallEnv) {input : FloatVec F} {batchSize paddedBatch : Nat}
    (hsize : input.size = batchSize * opts.inputElems) (hb : batchSize ≤ paddedBatch)
    (hp : paddedBatch ≤ opts.maxBatch) :
    Spec (Kept opts true buf) (runBound session env input batchSize paddedBatch)
      (fun v e ↦ Kept opts true (overwrite buf input.toList) e ∧
        Answers session opts
          ((overwrite buf input.toList).take (paddedBatch * opts.inputElems))
          batchSize paddedBatch v)
      (fun _ ↦ Kept opts true (overwrite buf input.toList)) := by
  have hle : input.size ≤ paddedBatch * opts.inputElems := by
    rw [hsize]
    exact Nat.mul_le_mul_right _ hb
  apply Spec.bind (Spec.conseq (stageInput_spec hn env hle hp) (fun _ hs ↦ hs)
    (fun _ _ hs ↦ hs) (fun _ _ hs ↦ hs.1))
  intro _
  apply Spec.conseq (runStaged_spec session env hb hp) (fun _ hs ↦ hs) ?_ (fun _ _ hs ↦ hs)
  rintro v e ⟨hk, t, o, rest, hshape, hdata, hfit, hs, ho, hv⟩
  obtain ⟨hiaddr, hoaddr, hin, hout, hrow⟩ := hk.extents hb hp
  refine ⟨hk, t, o, rest, hshape, hdata, ?_, hs, ?_, ?_⟩
  · rw [sizeMul_of_lt (by omega)]
    exact hfit
  · rw [o.size_eq, ho, sizeMul_of_lt (by omega)]
    simp
  · rw [sizeMul_of_lt (by omega)]
    exact hv

/-- The host path answers from the batch followed by zeros. -/
theorem hostInputData_spec {P : σ → Prop} {input : FloatVec F} {batchSize paddedBatch : Nat}
    (hsize : input.size = sizeMul batchSize opts.inputElems) (hb : batchSize ≤ paddedBatch)
    (hfit : paddedBatch ≠ batchSize → paddedBatch * opts.inputElems < 2 ^ 64) :
    Spec P (hostInputData opts.inputElems input batchSize paddedBatch)
      (fun data s ↦ P s ∧ data = input.toList ++
        List.replicate (sizeMul paddedBatch opts.inputElems - input.size) 0)
      (fun _ ↦ P) := by
  unfold hostInputData
  apply Spec.ite
  · intro hne
    have hpad := sizeMul_of_lt (hfit hne)
    have hmul : batchSize * opts.inputElems ≤ paddedBatch * opts.inputElems :=
      Nat.mul_le_mul_right _ hb
    have hle : input.toList.length ≤ sizeMul paddedBatch opts.inputElems := by
      rw [hpad]
      have hmod : input.size ≤ batchSize * opts.inputElems := by
        rw [hsize]
        exact Nat.mod_le _ _
      exact Nat.le_trans hmod hmul
    apply Spec.bind_of (zeroVector_spec _)
    rintro padded ⟨hz, -⟩
    apply Spec.conseq (copyBytes_spec (P := P) (Nat.lt_of_lt_of_le input.size_lt (by decide))
      (Nat.le_refl _) ?_) (fun _ hs ↦ hs) ?_ (fun _ _ hs ↦ hs)
    · rw [hz, List.length_replicate]
      exact hle
    · rintro d s ⟨hs, rfl⟩
      refine ⟨hs, ?_⟩
      rw [List.take_length, hz, overwrite, List.drop_replicate]
      rfl
  · intro heq
    rw [not_not.mp heq, ← hsize, Nat.sub_self]
    exact Spec.pure fun s hs ↦ ⟨hs, by simp⟩

/-- A padded batch whose extents fit 64 bits, or one that is not padded. -/
def PadFits (opts : OnnxOptions F) (batchSize paddedBatch : Nat) : Prop :=
  batchSize ≤ paddedBatch ∧
    (paddedBatch ≠ batchSize → paddedBatch * opts.inputElems < 2 ^ 64 ∧
      paddedBatch * opts.outputElems < 2 ^ 64)

/-- The host path answers from the batch followed by zeros and keeps the engine. -/
theorem runHost_spec (session : Session F) (env : CallEnv) {input : FloatVec F}
    {batchSize paddedBatch : Nat} (hsize : input.size = sizeMul batchSize opts.inputElems)
    (hfit : PadFits opts batchSize paddedBatch) :
    Spec (Kept opts active buf) (runHost session env input batchSize paddedBatch)
      (fun v e ↦ Kept opts active buf e ∧
        Answers session opts (input.toList ++
          List.replicate (sizeMul paddedBatch opts.inputElems - input.size) 0)
          batchSize paddedBatch v)
      (fun _ ↦ Kept opts active buf) := by
  obtain ⟨hb, hlt⟩ := hfit
  have hrow : sizeMul batchSize opts.outputElems ≤ sizeMul paddedBatch opts.outputElems := by
    by_cases heq : paddedBatch = batchSize
    · exact Nat.le_of_eq (by rw [heq])
    · have hmul : batchSize * opts.outputElems ≤ paddedBatch * opts.outputElems :=
        Nat.mul_le_mul_right _ hb
      have hpad := (hlt heq).2
      rw [sizeMul_of_lt hpad, sizeMul_of_lt (by omega)]
      exact hmul
  unfold runHost
  apply Spec.get_bind
  intro e hk
  rw [hk.options]
  apply Spec.bind_of (hostInputData_spec hsize hb fun h ↦ (hlt h).1)
  rintro data rfl
  apply translateOrtErrors_spec
  apply Spec.bind_of (createTensor_spec ?_ session _)
  · rintro tensor ⟨hshape, hdata, htfit⟩
    apply Spec.bind_of (sessionRun_spec session env tensor kept_runs)
    intro outputs hsession
    split
    · next output rest =>
      apply Spec.ite
      · intro _
        exact Spec.throw fun _ hs ↦ hs
      · intro hproduced
        have hlen : output.data.length = sizeMul paddedBatch opts.outputElems :=
          not_not.mp hproduced
        apply Spec.conseq (readVector_spec (P := Kept opts active buf) (by rw [hlen]; exact hrow))
          (fun _ hs ↦ hs) ?_ (fun _ _ hs ↦ hs)
        rintro v s ⟨hs, hv⟩
        exact ⟨hs, tensor, output, rest, hshape, hdata, htfit, hsession, hlen, hv⟩
    · exact Spec.throw fun _ hs ↦ hs
  · rw [List.length_append, List.length_replicate]
    simp only [FloatVec.size]
    omega

/-- The buckets ascend and the extents of the largest fit 64 bits, in bytes. -/
structure Fits (opts : OnnxOptions F) : Prop where
  ascending : opts.batchBuckets.Pairwise (· ≤ ·)
  input : opts.maxBatch * opts.inputElems * 4 < 2 ^ 64
  output : opts.maxBatch * opts.outputElems * 4 < 2 ^ 64

omit [FloatOps F] in
theorem Fits.padFits (h : Fits opts) (batchSize : Nat) :
    PadFits opts batchSize (bucketFor opts.batchBuckets batchSize) := by
  refine ⟨le_bucketFor _ _, ?_⟩
  intro hne
  have hle := (bucketFor_le h.ascending batchSize).resolve_right hne
  have hin := Nat.mul_le_mul_right opts.inputElems hle
  have hout := Nat.mul_le_mul_right opts.outputElems hle
  have hi := h.input
  have ho := h.output
  constructor
  · omega
  · omega

/-- The call is one that `run_inference` sends to `run_bound` when that path is active. -/
def reachesBound (opts : OnnxOptions F) (c : InferenceCall F) : Bool :=
  c.batchedInput.size == sizeMul c.batchSize c.inputElems && c.batchSize != 0 &&
    c.inputElems == opts.inputElems && c.outputElems == opts.outputElems &&
    fitsPreallocated opts.batchBuckets (bucketFor opts.batchBuckets c.batchSize)

/-- The pinned input after the call. -/
def pinnedAfter (opts : OnnxOptions F) (active : Bool) (buf : List F) (c : InferenceCall F) :
    List F :=
  if active && reachesBound opts c then overwrite buf c.batchedInput.toList else buf

omit [FloatOps F] in
theorem reachesBound_iff {c : InferenceCall F} :
    reachesBound opts c = true ↔
      c.batchedInput.size = sizeMul c.batchSize c.inputElems ∧ c.batchSize ≠ 0 ∧
        (c.inputElems = opts.inputElems ∧ c.outputElems = opts.outputElems) ∧
        fitsPreallocated opts.batchBuckets (bucketFor opts.batchBuckets c.batchSize) = true := by
  simp only [reachesBound, Bool.and_eq_true, beq_iff_eq, bne_iff_ne]
  tauto

omit [FloatOps F] in
private theorem pinnedAfter_of_not {c : InferenceCall F}
    (h : ¬(active = true ∧ reachesBound opts c = true)) : pinnedAfter opts active buf c = buf := by
  rw [pinnedAfter, if_neg (by rw [Bool.and_eq_true]; exact h)]

/-- A call is defined, writes at most its batch over the pinned input, and returns nothing for
an empty batch and otherwise an answer computed from rows that begin with the batch. -/
theorem runInference_spec (hn : opts.normalizeOnDevice = false) (hf : Fits opts)
    (session : Session F) (c : InferenceCall F) :
    Spec (Kept opts active buf)
      (runInference session c.env c.batchedInput c.batchSize c.inputElems c.outputElems)
      (fun v e ↦ Kept opts active (pinnedAfter opts active buf c) e ∧
        (c.batchSize = 0 ∧ v = .empty ∨
          c.batchSize ≠ 0 ∧ c.batchedInput.size = sizeMul c.batchSize opts.inputElems ∧
          c.inputElems = opts.inputElems ∧ c.outputElems = opts.outputElems ∧
          ∃ rows, c.batchedInput.toList <+: rows ∧
            Answers session opts rows c.batchSize (bucketFor opts.batchBuckets c.batchSize) v))
      (fun _ ↦ Kept opts active (pinnedAfter opts active buf c)) := by
  unfold runInference
  apply Spec.get_bind
  intro e hk
  rw [hk.options, hk.ioBindingActive]
  apply Spec.ite
  · intro hsize
    rw [pinnedAfter_of_not (by rw [reachesBound_iff]; tauto)]
    exact Spec.throw fun s hs ↦ hs
  intro hsize
  apply Spec.ite
  · intro hzero
    rw [pinnedAfter_of_not (by rw [reachesBound_iff]; tauto)]
    exact Spec.pure fun s hs ↦ ⟨hs, .inl ⟨hzero, rfl⟩⟩
  intro hzero
  apply Spec.ite
  · intro hgeom
    rw [pinnedAfter_of_not (by rw [reachesBound_iff]; tauto)]
    exact Spec.throw fun s hs ↦ hs
  intro hgeom
  obtain ⟨hie, hoe⟩ : c.inputElems = opts.inputElems ∧ c.outputElems = opts.outputElems := by tauto
  have hsize' : c.batchedInput.size = sizeMul c.batchSize opts.inputElems := by
    rw [← hie]
    exact not_not.mp hsize
  apply Spec.ite
  · intro hbound
    rw [Bool.and_eq_true] at hbound
    obtain ⟨rfl, hpre⟩ := hbound
    have hp := le_maxBatch hpre
    have hb := le_bucketFor opts.batchBuckets c.batchSize
    have hmul : c.batchSize * opts.inputElems ≤ opts.maxBatch * opts.inputElems :=
      Nat.mul_le_mul_right _ (Nat.le_trans hb hp)
    have hi := hf.input
    have hrows : c.batchedInput.size = c.batchSize * opts.inputElems := by
      rw [hsize', sizeMul_of_lt (by omega)]
    have hafter : pinnedAfter opts true buf c = overwrite buf c.batchedInput.toList := by
      rw [pinnedAfter, if_pos]
      rw [Bool.true_and, reachesBound_iff]
      exact ⟨not_not.mp hsize, hzero, ⟨hie, hoe⟩, hpre⟩
    rw [hafter]
    apply Spec.conseq (runBound_spec hn session c.env hrows hb hp) (fun _ hs ↦ hs) ?_
      (fun _ _ hs ↦ hs)
    rintro v s ⟨hs, hans⟩
    refine ⟨hs, .inr ⟨hzero, hsize', hie, hoe, _, ?_, hans⟩⟩
    rw [List.prefix_take_iff]
    refine ⟨List.prefix_append _ _, ?_⟩
    change c.batchedInput.size ≤ _
    rw [hrows]
    exact Nat.mul_le_mul_right _ hb
  · intro hhost
    rw [pinnedAfter_of_not (by rw [reachesBound_iff]; simp_all)]
    apply Spec.conseq (runHost_spec session c.env hsize' (hf.padFits c.batchSize))
      (fun _ hs ↦ hs) ?_ (fun _ _ hs ↦ hs)
    rintro v s ⟨hs, hans⟩
    exact ⟨hs, .inr ⟨hzero, hsize', hie, hoe, _, List.prefix_append _ _, hans⟩⟩

end OnnxEngine
end InferenceServer.Engine
