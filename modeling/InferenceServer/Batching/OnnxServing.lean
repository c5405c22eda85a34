import InferenceServer.Batching.Rows
import InferenceServer.Engine.RowWise

/-!
# The scheduler in front of the ONNX engine

Library `Batching`. `cpp/src/scheduler/scheduler.cpp:186–215` over
`cpp/src/engine/onnx_execution_engine.cpp:307–467`. The engine answers the scheduler's calls
one after another. With a row-wise model a caller gets `f` of its own input, whoever
shared its batch and whatever was served before.
-/

namespace InferenceServer.Batching

open InferenceServer.Base InferenceServer.Base.Act InferenceServer.Engine
open InferenceServer.Engine.OnnxEngine

variable {F : Type} [FloatOps F] {opts : OnnxOptions F} {session : Session F}

/-- The answers the scheduler recorded are the engine's, call by call, whatever the libraries
reported during each. -/
inductive Served (session : Session F) : OnnxEngine F → List (EngineCall F) → Prop where
  | nil (e : OnnxEngine F) : Served session e []
  | cons {e t : OnnxEngine F} {c : EngineCall F} {cs : List (EngineCall F)} (env : CallEnv)
      (batchedInput : FloatVec F) (input_eq : batchedInput.toList = c.batchedInput)
      (answered : (runInference session env batchedInput c.batchSize c.inputElems
        c.outputElems).outcome e = some (c.answer, t))
      (rest : Served session t cs) : Served session e (c :: cs)

/-- Each of the calls was answered by an engine that earlier calls had left as they do. -/
theorem Served.answered_by (hn : opts.normalizeOnDevice = false) (hf : Fits opts)
    {active : Bool} {buf : List F} {e : OnnxEngine F} {cs : List (EngineCall F)}
    (h : Served session e cs) (hk : Kept opts active buf e) {c : EngineCall F} (hc : c ∈ cs) :
    ∃ e' buf' env, ∃ batchedInput : FloatVec F, Kept opts active buf' e' ∧
      batchedInput.toList = c.batchedInput ∧
      ∃ t, (runInference session env batchedInput c.batchSize c.inputElems
        c.outputElems).outcome e' = some (c.answer, t) := by
  induction h generalizing buf with
  | nil => cases hc
  | cons env batchedInput hinput hans rest ih =>
    rename_i e t c' cs
    rcases List.mem_cons.mp hc with rfl | hmem
    · exact ⟨e, buf, env, batchedInput, hk, hinput, t, hans⟩
    · have hcall : call session e ⟨batchedInput, c'.batchSize, c'.inputElems, c'.outputElems, env⟩ =
          some t := by
        rw [call, hans]
        rfl
      exact ih (kept_call hn hf hk hcall) hmem

namespace Scheduler

variable {cfg : SchedulerConfig} {s : Scheduler F}

omit [FloatOps F] in
/-- A value comes from an answer of the expected length. -/
theorem answer_of_outcome_ok {c : EngineCall F} {i : Nat} {req : InferenceRequest F}
    {r : InferenceResult F} (h : c.outcome cfg i req = .ok r) : ∃ out, c.answer = .ok out := by
  unfold EngineCall.outcome at h
  split at h
  · cases h
  · next out hout => exact ⟨out, hout⟩

omit [FloatOps F] in
/-- A scheduler with batches of no requests drains nothing. -/
theorem drains_step_of_zero (hm : cfg.maxBatchSize = 0) {t : Scheduler F} {e : Event F}
    (h : s.step cfg e = some t) : t.drains = s.drains := by
  cases step_cases h with
  | worker hw =>
    cases hw with
    | poll p o q hw hq =>
      rcases RequestQueue.waitAndDrain_cases hq with ⟨rfl, -⟩ | ⟨rfl, -⟩ | ⟨rfl, -⟩ | ⟨rfl, -⟩
      · rfl
      · rfl
      · rfl
      · rw [hm, List.take_zero]
        rfl
    | filter d todo batch hw =>
      unfold filterStep
      split
      · rfl
      · split
        · rfl
        · split <;> rfl
    | deliver d batch out i hw =>
      unfold deliverStep
      split
      · rfl
      · split <;> rfl
    | fail d batch todo eptr hw =>
      unfold failStep
      split
      · rfl
      · split <;> rfl
    | _ => rfl
  | _ => rfl

omit [FloatOps F] in
/-- So it resolves no promise. -/
theorem resolved_nil_of_zero (hm : cfg.maxBatchSize = 0) {es : List (Event F)}
    (h : exec (step cfg) init es = some s) : s.resolved = [] := by
  have hdrains : s.drains = [] :=
    exec_preserves (P := fun s ↦ s.drains = [])
      (fun _ _ _ hs ht ↦ (drains_step_of_zero hm ht).trans hs) h rfl
  have htracked : s.Tracked := exec_preserves (fun _ _ _ hs ht ↦ hs.step ht) h tracked_init
  have hcustody := htracked.custody
  rw [hdrains] at hcustody
  exact List.map_eq_nil_iff.mp (List.append_eq_nil_iff.mp hcustody.eq_nil).1

/-- With the engine behind the scheduler, a well-sized request that gets a value gets `f` of
its own input. -/
theorem Inv.resolved_served (h : s.Inv cfg) (hn : opts.normalizeOnDevice = false)
    (hf : Fits opts) (hie : opts.inputElems ≤ imageElems) {f : List F → List F} {m : Nat}
    (hs : session.RowWise f m) {active : Bool} {buf : List F} {e : OnnxEngine F}
    (hk : Kept opts active buf e) (hserved : Served session e s.calls)
    (hfit : ∀ c ∈ s.calls, c.batchSize * cfg.outputElems < 2 ^ 64)
    {req : InferenceRequest F} (hr : (req, .ok ()) ∈ s.submits)
    (hz : wellSized cfg req = true) {r : InferenceResult F}
    (hres : (req.resultPromise, .ok r) ∈ s.resolved) : r = ⟨req.requestId, f req.inputData⟩ := by
  obtain ⟨d, hd, hmem⟩ := h.resolved_drained hr hres
  obtain ⟨c, hc, rfl, i, hi, hout⟩ := h.resolved_wellSized hd hmem hz hres
  have hok := h.called c hc
  obtain ⟨out, hans⟩ := answer_of_outcome_ok hout.symm
  obtain ⟨e', buf', env, input, hk', hinput, t, hcall⟩ := hserved.answered_by hn hf hk hc
  rw [hans, hok.inputElems, hok.outputElems] at hcall
  have hlen : input.toList.length = c.batchSize * cfg.inputElems := by
    rw [hinput, hok.length_input]
  have hlt := input.size_lt
  obtain ⟨hsize, hrows⟩ := runInference_rowWise hn hf hie hs hk'
    ⟨input, c.batchSize, cfg.inputElems, cfg.outputElems, env⟩ (by dsimp only; omega)
    (hfit c hc) (value_eq_some.mpr ⟨t, hcall⟩)
  have hrow : i < c.batchSize := by
    rw [hok.size]
    exact (List.getElem?_eq_some_iff.mp hi).1
  rw [outcome_of_length hans hsize hrow req, slice_eq_row, hrows i hrow, hinput,
    hok.row_input hi] at hout
  cases hout
  rfl

/-- Batching, padding and the path taken are invisible. After any history, a call that returns
gives `batchSize * outputElems` floats whose row `i` is `f` of row `i` of its batch; and behind
the scheduler a well-sized request that gets a value gets `f` of its own input. -/
theorem batching_invisible (hn : opts.normalizeOnDevice = false) (hf : Fits opts)
    (hie : opts.inputElems ≤ imageElems) {f : List F → List F} {m : Nat}
    (hs : session.RowWise f m) {p : Platform F} {e₀ e : OnnxEngine F}
    (hc : Constructed session p opts e₀) {cs : List (InferenceCall F)}
    (hr : exec (call session) e₀ cs = some e) :
    (∀ c : InferenceCall F, c.batchSize * c.inputElems < 2 ^ 64 →
      c.batchSize * c.outputElems < 2 ^ 64 → ∀ v,
      (runInference session c.env c.batchedInput c.batchSize c.inputElems c.outputElems).value e =
        some v →
      v.size = c.batchSize * c.outputElems ∧ ∀ i < c.batchSize,
        row c.outputElems v.toList i = f (row c.inputElems c.batchedInput.toList i)) ∧
    (∀ (cfg : SchedulerConfig) (es : List (Event F)) (s : Scheduler F),
      exec (step cfg) init es = some s → Served session e s.calls →
      (∀ c ∈ s.calls, c.batchSize * cfg.outputElems < 2 ^ 64) →
      ∀ req, (req, .ok ()) ∈ s.submits → req.inputData.length = cfg.inputElems →
        ∀ r, (req.resultPromise, .ok r) ∈ s.resolved →
          r = ⟨req.requestId, f req.inputData⟩) := by
  obtain ⟨active, hbuilt⟩ := hc.built hn hf
  obtain ⟨buf, hk⟩ := exists_kept_exec hn hf hbuilt hr
  constructor
  · intro c hin hout v hv
    exact runInference_rowWise hn hf hie hs hk c hin hout hv
  · intro cfg es s hrun hserved hfit req hreq hz r hres
    have hz' : wellSized cfg req = true := by simpa [wellSized] using hz
    rcases Nat.eq_zero_or_pos cfg.maxBatchSize with hzero | hm
    · rw [resolved_nil_of_zero hzero hrun] at hres
      cases hres
    · exact (inv_exec hm hrun).resolved_served hn hf hie hs hk hserved hfit hreq hz' hres

/-! ### Two images in a larger bucket -/

/-- Two images at a time, one output for each. -/
def imagesConfig : SchedulerConfig :=
  { maxBatchSize := 2, maxWait := 0, inputElems := imageElems, outputElems := 1 }

/-- Batches are padded to four images and go through the bound path. -/
def bucketOptions : OnnxOptions Int where
  modelPath := "model.onnx"
  batchBuckets := [4]
  outputElems := 1
  mean := []
  stddev := []

/-- Images of one colour. -/
def images (xs : List Int) (h : xs.length ≤ 4) : FloatVec Int :=
  ⟨xs.flatMap (List.replicate imageElems), by
    rw [List.length_flatMap]
    simp only [List.length_replicate, List.map_const', List.sum_replicate_nat]
    exact Nat.lt_of_le_of_lt (Nat.mul_le_mul_right imageElems h) (by decide)⟩

/-- A batch of three that was served before: its rows are still in the pinned input. -/
def earlierCall : InferenceCall Int :=
  ⟨images [7, 8, 9] (by decide), 3, imageElems, 1, {}⟩

/-- The requests of the two images. -/
abbrev imageRequests (xs ys : List Int) : List (InferenceRequest Int) :=
  [⟨7, xs, 0, 0⟩, ⟨8, ys, 0, 1⟩]

/-- The call for their batch. -/
abbrev imagesCall (xs ys : List Int) (out : FloatVec Int) : EngineCall Int :=
  ⟨imageRequests xs ys, xs ++ ys, 2, imageElems, 1, .ok out⟩

/-- They are submitted, batched, answered with `out` and delivered. -/
def imagesRun (xs ys : List Int) (out : FloatVec Int) : List (Event Int) :=
  ([.submit 7 xs 0, .submit 8 ys 0, .start, .spawn, .poll] : List (Event Int)) ++
    Event.filter :: Event.filter :: (([.filter, .account 0] : List (Event Int)) ++
      ([.infer (.ok out) 0, .deliver, .deliver] : List (Event Int)))

/-- The scheduler once the images were drained. -/
private def imagesState (xs ys : List Int) (worker : Worker Int) (stats : SchedulerStats)
    (calls : List (EngineCall Int)) (resolved : List (Nat × Outcome Int)) : Scheduler Int :=
  { running := true, worker, notifies := 2, stats
    submits := (imageRequests xs ys).map (·, .ok ()), drains := [imageRequests xs ys], calls
    resolved }

private theorem imagesRun_exec (xs ys : List Int) {out : FloatVec Int} {a b : Int}
    (hx : xs.length = imageElems) (hy : ys.length = imageElems) (hout : out.toList = [a, b]) :
    ∃ s, exec (step imagesConfig) init (imagesRun xs ys out) = some s ∧
      s.submits = (imageRequests xs ys).map (·, .ok ()) ∧ s.calls = [imagesCall xs ys out] ∧
      s.resolved = [(0, .ok ⟨7, [a]⟩), (1, .ok ⟨8, [b]⟩)] := by
  set reqs := imageRequests xs ys with hreqs
  have hpoll : exec (step imagesConfig) init
      [.submit 7 xs 0, .submit 8 ys 0, .start, .spawn, .poll] =
      some (imagesState xs ys (.filtering reqs reqs []) {} [] []) := rfl
  have hfirst : step imagesConfig (imagesState xs ys (.filtering reqs reqs []) {} [] []) .filter =
      some (imagesState xs ys (.filtering reqs [⟨8, ys, 0, 1⟩] [⟨7, xs, 0, 0⟩]) {} [] []) :=
    congrArg some (if_pos (beq_iff_eq.mpr hx))
  have hsecond : step imagesConfig
      (imagesState xs ys (.filtering reqs [⟨8, ys, 0, 1⟩] [⟨7, xs, 0, 0⟩]) {} [] []) .filter =
      some (imagesState xs ys (.filtering reqs [] reqs) {} [] []) :=
    congrArg some (if_pos (beq_iff_eq.mpr hy))
  have haccount : exec (step imagesConfig) (imagesState xs ys (.filtering reqs [] reqs) {} [] [])
      [.filter, .account 0] =
      some (imagesState xs ys (.executing reqs reqs (xs ++ ys))
        (SchedulerStats.countBatch {} reqs 0) [] []) := rfl
  have hafter : Worker.afterAnswer imagesConfig reqs reqs (.ok out) =
      .delivering reqs reqs out 0 := by
    refine if_neg (not_not.mpr ?_)
    rw [FloatVec.size, hout]
    rfl
  have hslices : sliceResult imagesConfig out 0 ⟨7, xs, 0, 0⟩ = ⟨7, [a]⟩ ∧
      sliceResult imagesConfig out 1 ⟨8, ys, 0, 1⟩ = ⟨8, [b]⟩ := by
    rw [sliceResult, sliceResult, hout]
    exact ⟨rfl, rfl⟩
  have hinfer : step imagesConfig (imagesState xs ys (.executing reqs reqs (xs ++ ys))
      (SchedulerStats.countBatch {} reqs 0) [] []) (.infer (.ok out) 0) =
      some (imagesState xs ys (.delivering reqs reqs out 0)
        ((SchedulerStats.countBatch {} reqs 0).countExec 0) [imagesCall xs ys out] []) := by
    rw [← hafter]
    rfl
  have hrow : step imagesConfig (imagesState xs ys (.delivering reqs reqs out 0)
      ((SchedulerStats.countBatch {} reqs 0).countExec 0) [imagesCall xs ys out] []) .deliver =
      some (imagesState xs ys (.delivering reqs reqs out 1)
        ((SchedulerStats.countBatch {} reqs 0).countExec 0) [imagesCall xs ys out]
        [(0, .ok ⟨7, [a]⟩)]) := by
    rw [← hslices.1]
    rfl
  have hlast : step imagesConfig (imagesState xs ys (.delivering reqs reqs out 1)
      ((SchedulerStats.countBatch {} reqs 0).countExec 0) [imagesCall xs ys out]
      [(0, .ok ⟨7, [a]⟩)]) .deliver =
      some (imagesState xs ys (.delivering reqs reqs out 2)
        ((SchedulerStats.countBatch {} reqs 0).countExec 0) [imagesCall xs ys out]
        [(0, .ok ⟨7, [a]⟩), (1, .ok ⟨8, [b]⟩)]) := by
    rw [← hslices.2]
    rfl
  exact ⟨_, exec_append_eq_some.mpr ⟨_, hpoll, exec_cons_eq_some.mpr ⟨_, hfirst,
    exec_cons_eq_some.mpr ⟨_, hsecond, exec_append_eq_some.mpr ⟨_, haccount,
      exec_cons_eq_some.mpr ⟨_, hinfer, exec_cons_eq_some.mpr ⟨_, hrow,
        exec_cons_eq_some.mpr ⟨_, hlast, rfl⟩⟩⟩⟩⟩⟩⟩, rfl, rfl, rfl⟩

/-- Two requests share a batch of two that is padded to four images, after a batch of three. -/
theorem batching_invisible_images :
    ∃ e₀ e v s, Constructed .heads soundPlatform bucketOptions e₀ ∧
      exec (call .heads) e₀ [earlierCall] = some e ∧ e.ioBindingActive = true ∧
      bucketFor e.options.batchBuckets 2 = 4 ∧
      (runInference .heads {} (images [3, 5] (by decide)) 2 imageElems 1).value e = some v ∧
      (∀ i < 2, row 1 v.toList i =
        (row imageElems (images [3, 5] (by decide)).toList i).take 1) ∧
      exec (step imagesConfig) init
        (imagesRun (List.replicate imageElems 3) (List.replicate imageElems 5) v) = some s ∧
      Served .heads e s.calls ∧
      s.resolved = [(0, .ok ⟨7, [3]⟩), (1, .ok ⟨8, [5]⟩)] := by
  have hfits : Fits bucketOptions := ⟨by simp [bucketOptions], by decide, by decide⟩
  obtain ⟨e₀, hc, hbuilt⟩ := exists_constructed rfl hfits .heads soundPlatform_sound
    ⟨by decide, by decide⟩ (by decide)
  obtain ⟨buf₀, hk₀, hzero⟩ := hbuilt
  obtain ⟨e, he⟩ := exists_exec rfl hfits .heads hk₀ [earlierCall]
  obtain ⟨buf, hk⟩ := exists_kept_exec rfl hfits ⟨buf₀, hk₀, hzero⟩ he
  have hlist : (images [3, 5] (by decide)).toList =
      List.replicate imageElems 3 ++ List.replicate imageElems 5 := by
    simp [images]
  have hsize : (images [3, 5] (by decide)).size = 2 * bucketOptions.inputElems := by
    rw [FloatVec.size, hlist, List.length_append, List.length_replicate, List.length_replicate]
    rfl
  have hback : bucketOptions.batchBuckets.getLast? = some 4 := rfl
  obtain ⟨v, hv⟩ := runInference_heads_bound rfl hk hfits.ascending hback rfl rfl
    (by decide : 1 ≤ 2) (by decide) hsize
  obtain ⟨hrow, hserved⟩ := batching_invisible rfl hfits (Nat.le_refl _) Session.heads_rowWise hc he
  obtain ⟨hlen, hrows⟩ := hrow ⟨images [3, 5] (by decide), 2, imageElems, 1, {}⟩ (by decide)
    (by decide) v hv
  obtain ⟨a, b, hab⟩ := List.length_eq_two.mp (show v.toList.length = 2 from hlen)
  obtain ⟨s, hrun, hsubmits, hcalls, hresolved⟩ := imagesRun_exec
    (List.replicate imageElems 3) (List.replicate imageElems 5) List.length_replicate
    List.length_replicate hab
  obtain ⟨t, ht⟩ := value_eq_some.mp hv
  have hs : Served .heads e s.calls := by
    rw [hcalls]
    exact .cons {} (images [3, 5] (by decide)) hlist ht (.nil t)
  have hreq := hserved imagesConfig _ s hrun hs (by simp [hcalls, imagesConfig])
  have hfirst := hreq ⟨7, List.replicate imageElems 3, 0, 0⟩ (by simp [hsubmits])
    List.length_replicate ⟨7, [a]⟩ (by simp [hresolved])
  have hsecond := hreq ⟨8, List.replicate imageElems 5, 0, 1⟩ (by simp [hsubmits])
    List.length_replicate ⟨8, [b]⟩ (by simp [hresolved])
  refine ⟨e₀, e, v, s, hc, he, hk.ioBindingActive, ?_, hv, hrows, hrun, hs, ?_⟩
  · rw [hk.options]
    rfl
  · rw [hresolved, hfirst, hsecond, List.take_replicate, List.take_replicate]
    rfl

end Scheduler
end InferenceServer.Batching
