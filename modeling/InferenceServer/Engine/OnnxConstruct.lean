import InferenceServer.Base.Run
import InferenceServer.Engine.OnnxCall

/-!
# What the constructor leaves

Library `Engine`. `cpp/src/engine/onnx_execution_engine.cpp:89–262`, without normalization on
the device. A constructed engine has its options and, when the bound path is active, a
pinned input of zeros; warming up keeps it so, because it runs batches of zeros. When no
library call fails the bound path is active. Calls never get stuck.
-/

namespace InferenceServer.Engine

open InferenceServer.Base InferenceServer.Base.Act

variable {F σ : Type}

/-- Every library call of a constructor without normalization succeeds, and the build of ONNX
Runtime has the CUDA provider. -/
structure Platform.Sound (p : Platform F) : Prop where
  createSession : p.createSession = none
  providers : "CUDAExecutionProvider" ∈ p.providers
  queryNames : p.queryNames = none
  setDevice : p.setDevice = none
  createStream : p.createStream = none
  allocHostInput : p.allocHostInput = none
  allocHostOutput : p.allocHostOutput = none
  allocDeviceInput : p.allocDeviceInput = none
  allocDeviceOutput : p.allocDeviceOutput = none
  createMemoryInfo : p.createMemoryInfo = none

/-- A platform where nothing fails and fresh memory is not zero. -/
def soundPlatform : Platform Int where
  fresh _ := 7

theorem soundPlatform_sound : soundPlatform.Sound :=
  ⟨rfl, by simp [soundPlatform], rfl, rfl, rfl, rfl, rfl, rfl, rfl, rfl⟩

/-- The preallocated buffers are no larger than an object can be. -/
structure OnnxOptions.Addressable (opts : OnnxOptions F) : Prop where
  input : opts.maxBatch * opts.inputElems * 4 < 2 ^ 63
  output : opts.maxBatch * opts.outputElems * 4 < 2 ^ 63

namespace OnnxEngine

variable {opts : OnnxOptions F} {active : Bool} {buf : List F}

theorem allocate_spec {P : σ → Prop} {E : CppException → σ → Prop} (fresh : Nat → F)
    (status : Option String) (what : String) (bytes : Nat)
    (h : ∀ ex s, (status ≠ none ∨ ¬bytes < 2 ^ 63) → P s → E ex s) :
    Spec P (allocate fresh status what bytes)
      (fun d s ↦ P s ∧ d.length = bytes / 4 ∧ bytes < 2 ^ 63) E := by
  apply Spec.bind (Q := fun _ s ↦ P s ∧ bytes < 2 ^ 63)
  · apply Spec.runIf
    · intro _
      split
      · next hlt =>
        exact Spec.conseq (cudaCheck_spec status what fun ex s hf hs ↦ h ex s (.inl hf) hs)
          (fun _ hs ↦ hs) (fun _ _ hs ↦ ⟨hs, hlt⟩) (fun _ _ hs ↦ hs)
      · next hge => exact Spec.throw fun s hs ↦ h _ s (.inr hge) hs
    · intro hzero s hs
      exact ⟨hs, by omega⟩
  · intro _
    exact Spec.pure fun s hs ↦ ⟨hs.1, by simp, hs.2⟩

variable [FloatOps F]

/-- A constructed engine: its options, and a pinned input of zeros when the bound path is
active. -/
def Built (opts : OnnxOptions F) (active : Bool) (e : OnnxEngine F) : Prop :=
  ∃ buf, Kept opts active buf e ∧
    (active = true → buf = List.replicate (opts.maxBatch * opts.inputElems) 0)

/-- Preallocating swallows its failures; without one the bound path is active. -/
theorem allocateDeviceBuffers_spec (hn : opts.normalizeOnDevice = false) (hf : Fits opts)
    (p : Platform F) :
    Spec (fun e ↦ e.options = opts) (allocateDeviceBuffers p)
      (fun _ e ↦ ∃ active, Built opts active e ∧
        (p.Sound → opts.Addressable → active = true))
      (fun _ _ ↦ False) := by
  unfold allocateDeviceBuffers
  apply Spec.get_bind
  intro e he
  have hmax : opts.batchBuckets.getLast?.getD 1 = opts.maxBatch := rfl
  simp only [he, hmax, floatBytes_sizeMul hf.input, floatBytes_sizeMul hf.output]
  apply Spec.tryCatch (H := fun _ e ↦ e.options = opts ∧ ¬(p.Sound ∧ opts.Addressable))
  · apply Spec.bind (cudaCheck_spec p.setDevice _ fun _ _ h hs ↦ ⟨hs, fun q ↦ h q.1.setDevice⟩)
    intro _
    apply Spec.bind
      (cudaCheck_spec p.createStream _ fun _ _ h hs ↦ ⟨hs, fun q ↦ h q.1.createStream⟩)
    intro _
    apply Spec.bind_of (allocate_spec _ _ _ _ fun _ _ h hs ↦
      ⟨hs, fun q ↦ h.elim (absurd q.1.allocHostInput) (absurd q.2.input)⟩)
    rintro hostInput ⟨hhi, haddri⟩
    apply Spec.bind_of (allocate_spec _ _ _ _ fun _ _ h hs ↦
      ⟨hs, fun q ↦ h.elim (absurd q.1.allocHostOutput) (absurd q.2.output)⟩)
    rintro hostOutput ⟨hho, haddro⟩
    apply Spec.bind_of (allocate_spec _ _ _ _ fun _ _ h hs ↦
      ⟨hs, fun q ↦ h.elim (absurd q.1.allocDeviceInput) (absurd q.2.input)⟩)
    rintro deviceInput ⟨hdi, -⟩
    apply Spec.bind_of (allocate_spec _ _ _ _ fun _ _ h hs ↦
      ⟨hs, fun q ↦ h.elim (absurd q.1.allocDeviceOutput) (absurd q.2.output)⟩)
    rintro deviceOutput ⟨hdo, -⟩
    rw [Nat.mul_div_cancel _ (by decide)] at hhi hho hdi hdo
    apply Spec.bind
      (Q := fun _ e ↦ e.options = opts ∧
        Kept opts true (List.replicate (opts.maxBatch * opts.inputElems) 0)
          { e with ioBindingActive := true })
    · apply Spec.modify
      intro s hs
      refine ⟨hs, hs, rfl, ?_, fun _ ↦ ?_, fun _ ↦ ⟨by omega, by omega⟩⟩
      · dsimp only
        rw [hhi]
      · exact ⟨List.length_replicate, hdi, hho, hdo⟩
    · intro _
      apply Spec.bind (Spec.runIf (fun h ↦ absurd h (by simp [he, hn])) (fun _ _ hs ↦ hs))
      intro _
      apply Spec.bind (ortCheck_spec p.createMemoryInfo fun _ _ h hs ↦
        ⟨hs.1, fun q ↦ h q.1.createMemoryInfo⟩)
      intro _
      apply Spec.modify
      intro s hs
      exact ⟨true, ⟨_, hs.2, fun _ ↦ rfl⟩, fun _ _ ↦ rfl⟩
  · intro ex
    apply Spec.bind (Q := fun _ e ↦ ∃ active, Built opts active e ∧
      (p.Sound → opts.Addressable → active = true))
    · apply Spec.modify
      rintro s ⟨hs, hfail⟩
      refine ⟨false, ⟨s.hostInput, ⟨hs, rfl, rfl, by simp, by simp⟩, by simp⟩, ?_⟩
      intro hsound haddr
      exact absurd ⟨hsound, haddr⟩ hfail
    · intro _
      exact Spec.runIf (fun h ↦ absurd h (by simp [he, hn])) (fun _ _ hs ↦ hs)

/-- A batch of zeros leaves a pinned input of zeros. -/
private theorem built_after {c : InferenceCall F} {e : OnnxEngine F}
    (hz : active = true → buf = List.replicate (opts.maxBatch * opts.inputElems) 0)
    (hc : ∀ x ∈ c.batchedInput.toList, x = 0)
    (hk : Kept opts active (pinnedAfter opts active buf c) e) : Built opts active e := by
  refine ⟨_, hk, ?_⟩
  intro hactive
  rw [List.eq_replicate_iff]
  refine ⟨(hk.sizes hactive).1, ?_⟩
  have hbuf : ∀ x ∈ buf, x = 0 := by
    rw [hz hactive]
    intro x hx
    exact (List.mem_replicate.mp hx).2
  unfold pinnedAfter
  split
  · intro x hx
    rcases List.mem_append.mp hx with h | h
    · exact hc x h
    · exact hbuf x (List.mem_of_mem_drop h)
  · exact hbuf

/-- Warming up runs a batch of zeros, so it leaves a pinned input of zeros as it is. -/
theorem warmBucket_spec (hn : opts.normalizeOnDevice = false) (hf : Fits opts)
    (session : Session F) (env : CallEnv) (bucket : Nat) :
    Spec (Built opts active) (warmBucket session env bucket) (fun _ ↦ Built opts active)
      (fun _ _ ↦ False) := by
  intro s hs
  obtain ⟨buf, hk, hz⟩ := hs
  refine (?_ : Spec (Kept opts active buf) _ _ _) s hk
  unfold warmBucket
  apply Spec.get_bind
  intro e he
  rw [he.options]
  apply Spec.tryCatch (H := fun _ ↦ Built opts active)
  · apply Spec.bind_of (Spec.conseq (zeroVector_spec _) (fun _ hs ↦ hs) (fun _ _ hs ↦ hs)
      (fun _ s hs ↦ ⟨buf, hs, hz⟩))
    rintro input ⟨hinput, -⟩
    have hzero : ∀ x ∈ input.toList, x = 0 := by
      rw [hinput]
      intro x hx
      exact (List.mem_replicate.mp hx).2
    have hcall : Spec (Kept opts active buf) _ _ _ := runInference_spec hn hf session
      ⟨input, bucket, opts.inputElems, opts.outputElems, env⟩
    apply Spec.bind (Q := fun _ ↦ Built opts active)
    · exact Spec.conseq hcall (fun _ hs ↦ hs) (fun _ s hs ↦ built_after hz hzero hs.1)
        (fun _ s hs ↦ built_after hz hzero hs)
    · intro _
      exact Spec.pure fun _ hs ↦ hs
  · intro _
    exact Spec.pure fun _ hs ↦ hs

theorem warmBuckets_spec (hn : opts.normalizeOnDevice = false) (hf : Fits opts)
    (session : Session F) (warm : Nat → CallEnv) (buckets : List Nat) :
    Spec (Built opts active) (warmBuckets session warm buckets) (fun _ ↦ Built opts active)
      (fun _ _ ↦ False) := by
  induction buckets with
  | nil => exact Spec.pure fun _ hs ↦ hs
  | cons bucket buckets ih =>
    unfold warmBuckets
    apply Spec.bind
      (Spec.runIf (fun _ ↦ warmBucket_spec hn hf session _ bucket) (fun _ _ hs ↦ hs))
    intro _
    exact ih

/-- What the constructor leaves, and when it throws. -/
theorem construct_spec (hn : opts.normalizeOnDevice = false) (hf : Fits opts)
    (session : Session F) (p : Platform F) :
    Spec (fun e ↦ e = { options := opts }) (construct session p)
      (fun _ e ↦ ∃ active, Built opts active e ∧
        (p.Sound → opts.Addressable → active = opts.useIoBinding))
      (fun _ _ ↦ ¬(p.Sound ∧ opts.modelPath ≠ "")) := by
  unfold construct
  apply Spec.get_bind
  rintro e rfl
  apply Spec.bind_of (Spec.throwIf fun h _ _ q ↦ q.2 h)
  intro _ _
  apply Spec.bind (translateOrtErrors_spec
    (ortCheck_spec p.createSession fun _ _ h _ q ↦ h q.1.createSession))
  intro _
  apply Spec.bind_of (Spec.throwIf fun h _ _ q ↦ h.2 q.1.providers)
  intro _ _
  apply Spec.bind_of (Spec.throwIf fun h _ _ _ ↦ h hf.ascending)
  intro _ _
  apply Spec.bind (Spec.runIf (fun h ↦ absurd h (by simp [hn])) (fun _ _ hs ↦ hs))
  intro _
  apply Spec.bind (translateOrtErrors_spec
    (ortCheck_spec p.queryNames fun _ _ h _ q ↦ h q.1.queryNames))
  intro _
  apply Spec.bind (Q := fun _ e ↦ ∃ active, Built opts active e ∧
    (p.Sound → opts.Addressable → active = opts.useIoBinding))
  · apply Spec.runIf
    · intro hio
      apply Spec.conseq (allocateDeviceBuffers_spec hn hf p) (fun _ hs ↦ by rw [hs]) ?_
        (fun _ _ hs ↦ hs.elim)
      rintro _ s ⟨active, hb, hactive⟩
      exact ⟨active, hb, fun hsound haddr ↦ (hactive hsound haddr).trans hio.symm⟩
    · rintro hio s rfl
      refine ⟨false, ⟨[], ⟨rfl, rfl, rfl, by simp, by simp⟩, by simp⟩, fun _ _ ↦ ?_⟩
      exact (Bool.eq_false_iff.mpr hio).symm
  · rintro _ s ⟨active, hb, hactive⟩
    refine (?_ : Spec (Built opts active) _ _ _) s hb
    apply Spec.runIf
    · intro _
      exact Spec.conseq (warmBuckets_spec hn hf session p.warm opts.batchBuckets)
        (fun _ hs ↦ hs) (fun _ _ hs ↦ ⟨active, hs, hactive⟩) (fun _ _ hs ↦ hs.elim)
    · intro _ s hs
      exact ⟨active, hs, hactive⟩

/-- A constructed engine is built. -/
theorem Constructed.built (hn : opts.normalizeOnDevice = false) (hf : Fits opts)
    {session : Session F} {p : Platform F} {e : OnnxEngine F}
    (hc : Constructed session p opts e) : ∃ active, Built opts active e := by
  obtain ⟨r, t, hr, hpost⟩ := construct_spec hn hf session p _ rfl
  unfold Constructed at hc
  rw [hc] at hr
  cases hr
  obtain ⟨active, hb, -⟩ := hpost
  exact ⟨active, hb⟩

/-- When no library call fails the constructor returns an engine, and its bound path is active
if that was asked for. -/
theorem exists_constructed (hn : opts.normalizeOnDevice = false) (hf : Fits opts)
    (session : Session F) {p : Platform F} (hp : p.Sound) (ha : opts.Addressable)
    (hm : opts.modelPath ≠ "") :
    ∃ e, Constructed session p opts e ∧ Built opts opts.useIoBinding e := by
  obtain ⟨r, t, hr, hpost⟩ := construct_spec hn hf session p _ rfl
  cases r with
  | error ex => exact absurd ⟨hp, hm⟩ hpost
  | ok u =>
    obtain ⟨active, hb, hactive⟩ := hpost
    rw [hactive hp ha] at hb
    exact ⟨t, hr, hb⟩

/-! ### Calls after construction -/

/-- One call leaves the engine kept. -/
theorem kept_call (hn : opts.normalizeOnDevice = false) (hf : Fits opts) {session : Session F}
    {e t : OnnxEngine F} {c : InferenceCall F} (hk : Kept opts active buf e)
    (h : call session e c = some t) : Kept opts active (pinnedAfter opts active buf c) t := by
  obtain ⟨r, u, hr, hpost⟩ := runInference_spec hn hf session c e hk
  unfold call at h
  rw [hr] at h
  cases h
  cases r with
  | ok v => exact hpost.1
  | error ex => exact hpost

/-- Whether the bound path is active is settled at construction. -/
theorem exists_kept_exec (hn : opts.normalizeOnDevice = false) (hf : Fits opts)
    {session : Session F} {e₀ e : OnnxEngine F} (hb : Built opts active e₀)
    {cs : List (InferenceCall F)} (hr : exec (call session) e₀ cs = some e) :
    ∃ buf, Kept opts active buf e := by
  refine exec_preserves (P := fun e ↦ ∃ buf, Kept opts active buf e) ?_ hr ?_
  · rintro s c t ⟨buf, hk⟩ ht
    exact ⟨_, kept_call hn hf hk ht⟩
  · obtain ⟨buf, hk, -⟩ := hb
    exact ⟨buf, hk⟩

/-- Calls never get stuck. -/
theorem exists_exec (hn : opts.normalizeOnDevice = false) (hf : Fits opts) (session : Session F)
    {e : OnnxEngine F} (hk : Kept opts active buf e) (cs : List (InferenceCall F)) :
    ∃ t, exec (call session) e cs = some t := by
  induction cs generalizing e buf with
  | nil => exact ⟨e, rfl⟩
  | cons c cs ih =>
    obtain ⟨r, m, hm, -⟩ := runInference_spec hn hf session c e hk
    have hcall : call session e c = some m := by
      rw [call, hm]
      rfl
    obtain ⟨t, ht⟩ := ih (kept_call hn hf hk hcall)
    exact ⟨t, exec_cons_eq_some.mpr ⟨m, hcall, ht⟩⟩

end OnnxEngine
end InferenceServer.Engine
