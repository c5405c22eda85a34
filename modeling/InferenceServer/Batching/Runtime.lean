import InferenceServer.Batching.OnnxServing
import InferenceServer.Engine.Extents

/-!
# The runtime behind the bindings

Library `Batching`. `cpp/src/bindings/module.cpp:32–154`: one configuration gives the options
of the ONNX engine and the configuration of the scheduler that calls it. The engine's only
bucket is the largest batch the scheduler forms, so the session sees one shape. The tensor
geometry goes to the scheduler alone: the engine keeps its default.
-/

namespace InferenceServer.Batching

open InferenceServer.Base InferenceServer.Base.Act InferenceServer.Engine
open InferenceServer.Engine.OnnxEngine

variable {F : Type}

/-- `RuntimeConfig`, `module.cpp:32–40`. -/
structure RuntimeConfig where
  maxBatchSize : Nat := 8
  maxWaitMs : Int := 5
  inputElems : Nat := 3 * 224 * 224
  outputElems : Nat := 1000
  modelPath : String := ""

/-- `to_scheduler_config`, `module.cpp:147–154`. -/
def RuntimeConfig.toSchedulerConfig (config : RuntimeConfig) : SchedulerConfig where
  maxBatchSize := config.maxBatchSize
  maxWait := config.maxWaitMs
  inputElems := config.inputElems
  outputElems := config.outputElems

/-- The options that `make_engine` gives the engine of a model path, `module.cpp:130–139`; the
default `mean` and `stddev` of the header are not read without normalization on the device. -/
def RuntimeConfig.engineOptions (config : RuntimeConfig) (mean stddev : List F) :
    OnnxOptions F where
  modelPath := config.modelPath
  batchBuckets := [config.maxBatchSize]
  mean := mean
  stddev := stddev

/-- `InferenceRuntime` with a model path: the engine and the scheduler driving it. -/
structure Runtime (F : Type) where
  scheduler : Scheduler F := .init
  engine : OnnxEngine F

/-- What can happen next. The request id is the value `fetch_add` returned. -/
inductive RuntimeEvent (F : Type) where
  /-- `predict` up to the end of `submit`'s locked section -/
  | predict (requestId : Nat) (input : List F) (arrivalTime : Int)
  /-- the engine call of the worker, with what the libraries report during it -/
  | infer (env : CallEnv) (execUs : Nat)
  /-- any other event of the scheduler's threads -/
  | thread (e : Event F)

/-- The call the worker is about to make, `scheduler.cpp:199–200`. -/
def Runtime.Hands (config : RuntimeConfig) (r : Runtime F) (c : InferenceCall F) : Prop :=
  ∃ drained batch, r.scheduler.worker = .executing drained batch c.batchedInput.toList ∧
    c.batchSize = batch.length ∧ c.inputElems = config.inputElems ∧
    c.outputElems = config.outputElems

/-- A call passes the two argument checks of `run_inference`,
`onnx_execution_engine.cpp:311–323`. -/
def PassesChecks (opts : OnnxOptions F) (c : InferenceCall F) : Prop :=
  c.batchedInput.size = sizeMul c.batchSize c.inputElems ∧
    c.inputElems = opts.inputElems ∧ c.outputElems = opts.outputElems

/-- A batch on its way to the engine is not empty. -/
def Worker.Formed : Worker F → Prop
  | .batched _ batch => batch ≠ []
  | .executing _ batch _ => batch ≠ []
  | _ => True

theorem Worker.Formed.wake {w : Worker F} (h : w.Formed) : w.wake.Formed := by
  cases w with
  | waiting p => trivial
  | _ => exact h

theorem Worker.formed_afterAnswer (cfg : SchedulerConfig) (d batch : List (InferenceRequest F))
    (answer : InferenceAnswer F) : (Worker.afterAnswer cfg d batch answer).Formed := by
  cases answer with
  | error ex => trivial
  | ok out =>
    rw [Worker.afterAnswer]
    split
    · trivial
    · trivial

namespace Scheduler

theorem formed_workerStep {cfg : SchedulerConfig} {s t : Scheduler F} {e : Event F}
    (hs : s.worker.Formed) (h : WorkerStep cfg s e t) : t.worker.Formed := by
  cases h with
  | poll p o q hw hq =>
    rcases o with _ | _ | _
    · trivial
    · trivial
    · trivial
  | checkRunning hw =>
    cases s.running with
    | false => trivial
    | true => trivial
  | filter d todo batch hw =>
    unfold filterStep
    split
    · cases batch with
      | nil => trivial
      | cons req rest => exact List.cons_ne_nil _ _
    · split
      · trivial
      · split
        · trivial
        · trivial
  | account d batch dequeuedAt hw =>
    rw [hw] at hs
    exact hs
  | infer d batch input answer execUs hw => exact Worker.formed_afterAnswer cfg d batch answer
  | deliver d batch out i hw =>
    unfold deliverStep
    split
    · trivial
    · split
      · trivial
      · trivial
  | fail d batch todo eptr hw =>
    unfold failStep
    split
    · trivial
    · split
      · trivial
      · trivial

theorem formed_step {cfg : SchedulerConfig} {s t : Scheduler F} {e : Event F}
    (hs : s.worker.Formed) (h : s.step cfg e = some t) : t.worker.Formed := by
  cases step_cases h with
  | notifyOne hn => exact hs.wake
  | notifyAll hc => exact hs.wake
  | worker hw => exact formed_workerStep hs hw
  | wake => trivial
  | expire => trivial
  | spawn => trivial
  | spawnOver => trivial
  | join => trivial
  | _ => exact hs

end Scheduler

variable [FloatOps F] {session : Session F} {config : RuntimeConfig} {mean stddev : List F}

/-- The engine call of the worker: the engine moves on and the scheduler gets its answer. -/
def Runtime.infer (session : Session F) (config : RuntimeConfig) (r : Runtime F) (env : CallEnv)
    (execUs : Nat) : Option (Runtime F) :=
  match r.scheduler.worker with
  | .executing _ batch batchedInput =>
    if h : batchedInput.length < 2 ^ 61 then
      match (runInference session env ⟨batchedInput, h⟩ batch.length config.inputElems
        config.outputElems).outcome r.engine with
      | none => none
      | some (answer, engine) =>
        (r.scheduler.step config.toSchedulerConfig (.infer answer execUs)).map
          fun scheduler ↦ { scheduler, engine }
    else none
  | _ => none

/-- One event of the runtime. -/
def Runtime.step (session : Session F) (config : RuntimeConfig) (r : Runtime F) :
    RuntimeEvent F → Option (Runtime F)
  | .predict requestId input arrivalTime =>
    -- `py::value_error` before anything is submitted, `module.cpp:69–73`
    if input.length ≠ config.inputElems then some r
    else
      (r.scheduler.step config.toSchedulerConfig (.submit requestId input arrivalTime)).map
        fun scheduler ↦ { r with scheduler }
  | .infer env execUs => r.infer session config env execUs
  | .thread (.submit ..) => none
  | .thread (.infer ..) => none
  | .thread e =>
    (r.scheduler.step config.toSchedulerConfig e).map fun scheduler ↦ { r with scheduler }

namespace Runtime

variable {r r' : Runtime F}

/-- Everything one event can do: nothing, a step of the scheduler alone, or an engine call. -/
inductive Move (session : Session F) (config : RuntimeConfig) (r : Runtime F) :
    Runtime F → Prop where
  | rejected : Move session config r r
  | thread {e : Event F} {s : Scheduler F}
      (hs : r.scheduler.step config.toSchedulerConfig e = some s) :
      Move session config r { r with scheduler := s }
  | infer {c : InferenceCall F} {answer : InferenceAnswer F} {engine : OnnxEngine F}
      {execUs : Nat} {s : Scheduler F} (hands : r.Hands config c)
      (answered : (runInference session c.env c.batchedInput c.batchSize c.inputElems
        c.outputElems).outcome r.engine = some (answer, engine))
      (hs : r.scheduler.step config.toSchedulerConfig (.infer answer execUs) = some s) :
      Move session config r ⟨s, engine⟩

theorem infer_move {env : CallEnv} {execUs : Nat}
    (h : r.infer session config env execUs = some r') : Move session config r r' := by
  unfold infer at h
  split at h
  · next d batch input hw =>
    split at h
    · next hlt =>
      split at h
      · cases h
      · next answer engine hans =>
        obtain ⟨s, hs, rfl⟩ := Option.map_eq_some_iff.mp h
        exact .infer (c := ⟨⟨input, hlt⟩, batch.length, config.inputElems, config.outputElems, env⟩)
          ⟨d, batch, hw, rfl, rfl, rfl⟩ hans hs
    · cases h
  · cases h

theorem step_move {e : RuntimeEvent F} (h : r.step session config e = some r') :
    Move session config r r' := by
  unfold step at h
  split at h
  · split at h
    · cases h
      exact .rejected
    · obtain ⟨s, hs, rfl⟩ := Option.map_eq_some_iff.mp h
      exact .thread hs
  · exact infer_move h
  · cases h
  · cases h
  · obtain ⟨s, hs, rfl⟩ := Option.map_eq_some_iff.mp h
    exact .thread hs

/-- The scheduler of a runtime only takes its own steps. -/
theorem Move.scheduler (h : Move session config r r') :
    r'.scheduler = r.scheduler ∨
      ∃ e, r.scheduler.step config.toSchedulerConfig e = some r'.scheduler := by
  cases h with
  | rejected => exact .inl rfl
  | thread hs => exact .inr ⟨_, hs⟩
  | infer hands answered hs => exact .inr ⟨_, hs⟩

omit [FloatOps F] in
/-- The batch handed to the engine: no larger than the scheduler's bound, its rows complete. -/
theorem Hands.bounds {c : InferenceCall F} (hi : r.scheduler.Inv config.toSchedulerConfig)
    (h : r.Hands config c) :
    c.batchSize ≤ config.maxBatchSize ∧
      c.batchedInput.size = c.batchSize * config.inputElems := by
  obtain ⟨d, batch, hw, hsize, -, -⟩ := h
  have hok := hi.workerOk
  simp only [Scheduler.WorkerOk, hw] at hok
  obtain ⟨hd, hbatch, hinput⟩ := hok
  constructor
  · rw [hsize, hbatch]
    exact Nat.le_trans (List.length_filter_le _ _) (hi.drained d hd).2
  · have hwell : ∀ req ∈ batch, wellSized config.toSchedulerConfig req = true := by
      rw [hbatch]
      exact fun req hreq ↦ (List.mem_filter.mp hreq).2
    rw [hsize, FloatVec.size, hinput]
    exact length_concatInputs hwell

/-! ### One shape -/

/-- The only bucket takes every batch up to its size. -/
theorem bucketFor_only {batchSize : Nat} (h : batchSize ≤ config.maxBatchSize) :
    bucketFor [config.maxBatchSize] batchSize = config.maxBatchSize := by
  rw [bucketFor, if_pos h]

/-- The scheduler and the engine as a run keeps them, every tensor presented of one shape. -/
structure OneShape (config : RuntimeConfig) (mean stddev : List F) (r : Runtime F) : Prop where
  inv : r.scheduler.Inv config.toSchedulerConfig
  formed : r.scheduler.worker.Formed
  engine : Sized (config.engineOptions mean stddev) (· = inputShape config.maxBatchSize) r.engine

theorem Move.oneShape (hm : 1 ≤ config.maxBatchSize) (hi : r.OneShape config mean stddev)
    (h : Move session config r r') : r'.OneShape config mean stddev := by
  refine ⟨?_, ?_, ?_⟩
  · rcases h.scheduler with heq | ⟨e, he⟩
    · exact heq ▸ hi.inv
    · exact Scheduler.inv_step hm hi.inv he
  · rcases h.scheduler with heq | ⟨e, he⟩
    · exact heq ▸ hi.formed
    · exact Scheduler.formed_step hi.formed he
  · cases h with
    | rejected => exact hi.engine
    | thread hs => exact hi.engine
    | infer hands answered hs =>
      have hshape := congrArg inputShape (bucketFor_only (hands.bounds hi.inv).1)
      exact sized_call hshape hi.engine (call_of_outcome answered)

theorem oneShape_exec (hm : 1 ≤ config.maxBatchSize) {p : Platform F} {e₀ : OnnxEngine F}
    (hc : Constructed session p (config.engineOptions mean stddev) e₀)
    {es : List (RuntimeEvent F)} (hr : exec (step session config) { engine := e₀ } es = some r) :
    r.OneShape config mean stddev := by
  refine exec_preserves (fun s e t hs ht ↦ (step_move ht).oneShape hm hs) hr
    ⟨Scheduler.inv_init _, trivial, ?_⟩
  refine (construct_sized session p ?_ _ _ _ rfl hc).2
  intro bucket hb _
  rw [List.mem_singleton.mp hb]
  exact congrArg inputShape (bucketFor_only (Nat.le_refl _))

omit [FloatOps F] in
/-- Without overflow in the bucket's extents, those of the engine fit. -/
theorem engineOptions_fits (hfit : config.maxBatchSize * imageElems * 4 < 2 ^ 64) :
    Fits (config.engineOptions mean stddev) := by
  have hmax : (config.engineOptions mean stddev).maxBatch = config.maxBatchSize := rfl
  have hle : config.maxBatchSize * 1000 ≤ config.maxBatchSize * imageElems :=
    Nat.mul_le_mul_left _ (by decide)
  refine ⟨List.pairwise_singleton _ _, ?_, ?_⟩
  · rw [hmax]
    exact hfit
  · rw [hmax]
    exact Nat.lt_of_le_of_lt (Nat.mul_le_mul_right 4 hle) hfit

/-- The engine of a runtime is one that calls have left as they do. -/
theorem Move.engine_exec (h : Move session config r r') :
    ∃ cs, exec (call session) r.engine cs = some r'.engine := by
  cases h with
  | rejected => exact ⟨[], rfl⟩
  | thread hs => exact ⟨[], rfl⟩
  | infer hands answered hs =>
    exact ⟨[_], exec_cons_eq_some.mpr ⟨_, call_of_outcome answered, rfl⟩⟩

theorem engine_exec {e₀ : OnnxEngine F} {es : List (RuntimeEvent F)}
    (hr : exec (step session config) { engine := e₀ } es = some r) :
    ∃ cs, exec (call session) e₀ cs = some r.engine := by
  refine exec_preserves (P := fun r ↦ ∃ cs, exec (call session) e₀ cs = some r.engine) ?_ hr
    ⟨[], rfl⟩
  rintro s e t ⟨cs, hcs⟩ ht
  obtain ⟨ds, hds⟩ := (step_move ht).engine_exec
  exact ⟨cs ++ ds, exec_append_eq_some.mpr ⟨s.engine, hcs, hds⟩⟩

/-- An answer of the engine always takes the scheduler on. -/
theorem infer_of_answer {d batch : List (InferenceRequest F)} {input : FloatVec F}
    (hw : r.scheduler.worker = .executing d batch input.toList) {env : CallEnv}
    {answer : InferenceAnswer F} {engine : OnnxEngine F}
    (h : (runInference session env input batch.length config.inputElems
      config.outputElems).outcome r.engine = some (answer, engine)) (execUs : Nat) :
    r.infer session config env execUs = some ⟨{ r.scheduler with
      worker := .afterAnswer config.toSchedulerConfig d batch answer
      stats := r.scheduler.stats.countExec execUs
      calls := r.scheduler.calls ++ [⟨d, input.toList, batch.length, config.inputElems,
        config.outputElems, answer⟩] }, engine⟩ := by
  have hstep : r.scheduler.step config.toSchedulerConfig (.infer answer execUs) =
      some { r.scheduler with
        worker := .afterAnswer config.toSchedulerConfig d batch answer
        stats := r.scheduler.stats.countExec execUs
        calls := r.scheduler.calls ++ [⟨d, input.toList, batch.length, config.inputElems,
          config.outputElems, answer⟩] } := by
    simp only [Scheduler.step, Scheduler.workerStep, hw]
    rfl
  unfold infer
  simp only [hw, dif_pos input.size_lt, h, hstep, Option.map_some]

/-- A run that brings the first request to the engine, whatever the window: shutting down makes
the worker drain at once. -/
def firstBatch (input : List F) : List (RuntimeEvent F) :=
  [.thread .start, .thread .spawn, .predict 0 input 0, .thread .stop, .thread .shutdown,
    .thread .poll, .thread .filter, .thread .filter, .thread (.account 0)]

/-- The scheduler once it was shut down with one request in its hands. -/
private def shutScheduler (req : InferenceRequest F) (queue : List (InferenceRequest F))
    (worker : Worker F) (drains : List (List (InferenceRequest F))) : Scheduler F :=
  { queue := { queue, stopRequested := true }, worker, caller := .notifying, notifies := 1
    submits := [(req, .ok ())], drains }

/-- It ends with the request about to be executed. -/
theorem firstBatch_exec (session : Session F) (hm : 1 ≤ config.maxBatchSize) (e : OnnxEngine F)
    {input : List F} (hlen : input.length = config.inputElems) :
    ∃ r, exec (step session config) { engine := e } (firstBatch input) = some r ∧
      r.engine = e ∧ r.scheduler.resolved = [] ∧
      r.scheduler.worker = .executing [⟨0, input, 0, 0⟩] [⟨0, input, 0, 0⟩] input := by
  let req : InferenceRequest F := ⟨0, input, 0, 0⟩
  have hz : wellSized config.toSchedulerConfig req = true := beq_iff_eq.mpr hlen
  have hsubmit : exec (step session config) { engine := e }
      [.thread .start, .thread .spawn, .predict 0 input 0] =
        some ⟨{ queue := { queue := [req] }, running := true, worker := .waiting .entry
                notifies := 1, submits := [(req, .ok ())] }, e⟩ := by
    refine exec_cons_eq_some.mpr ⟨_, rfl, exec_cons_eq_some.mpr ⟨_, rfl,
      exec_cons_eq_some.mpr ⟨_, ?_, rfl⟩⟩⟩
    exact if_neg (not_not.mpr hlen)
  have hshut : exec (step session config)
      ⟨{ queue := { queue := [req] }, running := true, worker := .waiting .entry
         notifies := 1, submits := [(req, .ok ())] }, e⟩ [.thread .stop, .thread .shutdown] =
        some ⟨shutScheduler req [req] (.waiting .entry) [], e⟩ := rfl
  have hpoll : step session config ⟨shutScheduler req [req] (.waiting .entry) [], e⟩
      (.thread .poll) = some ⟨shutScheduler req [] (.filtering [req] [req] []) [[req]], e⟩ := by
    have hdrain : (shutScheduler req [req] (.waiting .entry) []).queue.waitAndDrain
        config.maxBatchSize config.maxWaitMs .entry =
          some (.returned [req], { queue := [], stopRequested := true }) := by
      rw [RequestQueue.waitAndDrain_stopped rfl (List.cons_ne_nil _ _), RequestQueue.drain_eq]
      simp only [shutScheduler]
      rw [List.take_of_length_le hm, List.drop_of_length_le hm]
    have hstep : Scheduler.step config.toSchedulerConfig
        (shutScheduler req [req] (.waiting .entry) []) .poll =
          some (shutScheduler req [] (.filtering [req] [req] []) [[req]]) := by
      change Option.map _ (RequestQueue.waitAndDrain _ config.maxBatchSize config.maxWaitMs _) = _
      rw [hdrain]
      rfl
    exact congrArg (Option.map _) hstep
  have hfilter : step session config ⟨shutScheduler req [] (.filtering [req] [req] []) [[req]], e⟩
      (.thread .filter) =
        some ⟨shutScheduler req [] (.filtering [req] [] [req]) [[req]], e⟩ := by
    have hstep : Scheduler.filterStep config.toSchedulerConfig
        (shutScheduler req [] (.filtering [req] [req] []) [[req]]) [req] [req] [] =
          shutScheduler req [] (.filtering [req] [] [req]) [[req]] := if_pos hz
    exact congrArg (fun s ↦ some (⟨s, e⟩ : Runtime F)) hstep
  exact ⟨_, exec_append_eq_some.mpr ⟨_, hsubmit, exec_append_eq_some.mpr ⟨_, hshut,
    exec_cons_eq_some.mpr ⟨_, hpoll, exec_cons_eq_some.mpr ⟨_, hfilter, rfl⟩⟩⟩⟩, rfl, rfl, rfl⟩

/-- The session sees one shape. Whatever the libraries report at construction, in every run of
the runtime each tensor presented to the session, by warming up or for a batch, on either path,
has `maxBatchSize` as its first dimension: no batch exceeds the only bucket and each is padded to
it. And the engine call of a batch is always defined, so no run ends there. -/
theorem session_sees_one_shape (hm : 1 ≤ config.maxBatchSize)
    (hfit : config.maxBatchSize * imageElems * 4 < 2 ^ 64) {p : Platform F}
    {e₀ : OnnxEngine F} (hc : Constructed session p (config.engineOptions mean stddev) e₀)
    {es : List (RuntimeEvent F)} (hr : exec (step session config) { engine := e₀ } es = some r) :
    (∀ t ∈ r.engine.runs, t.shape = inputShape config.maxBatchSize) ∧
      (∀ c, r.Hands config c → c.batchSize ≤ config.maxBatchSize ∧
        bucketFor r.engine.options.batchBuckets c.batchSize = config.maxBatchSize ∧
        ∀ execUs, ∃ r', r.step session config (.infer c.env execUs) = some r') ∧
      ∀ c ∈ r.scheduler.calls, c.batchSize ≤ config.maxBatchSize := by
  have hone := oneShape_exec hm hc hr
  refine ⟨hone.engine.presented, ?_, ?_⟩
  · intro c hands
    have hle := (hands.bounds hone.inv).1
    refine ⟨hle, ?_, ?_⟩
    · rw [hone.engine.options]
      exact bucketFor_only hle
    · intro execUs
      obtain ⟨active, hbuilt⟩ := hc.built rfl (engineOptions_fits hfit)
      obtain ⟨cs, hcs⟩ := engine_exec hr
      obtain ⟨buf, hk⟩ := exists_kept_exec rfl (engineOptions_fits hfit) hbuilt hcs
      obtain ⟨answer, engine, hans, -⟩ :=
        runInference_spec rfl (engineOptions_fits hfit) session c r.engine hk
      obtain ⟨d, batch, hw, hsize, hie, hoe⟩ := hands
      rw [hsize, hie, hoe] at hans
      exact ⟨_, infer_of_answer hw hans execUs⟩
  · intro c hmem
    have hok := hone.inv.called c hmem
    rw [hok.size]
    exact Nat.le_trans (List.length_filter_le _ _) (hone.inv.drained _ hok.drained).2

/-- A runtime of pairs in the default geometry. -/
def pairConfig : RuntimeConfig := { maxBatchSize := 2, modelPath := "model.onnx" }

/-- The engine of a model path and an addressable bucket can be constructed. -/
theorem exists_engine (config : RuntimeConfig)
    (hfit : config.maxBatchSize * imageElems * 4 < 2 ^ 63) (hpath : config.modelPath ≠ "") :
    ∃ e, Constructed .heads soundPlatform (config.engineOptions [] []) e := by
  have haddr : (config.engineOptions ([] : List Int) []).Addressable := by
    refine ⟨hfit, Nat.lt_of_le_of_lt (Nat.mul_le_mul_right 4 ?_) hfit⟩
    exact Nat.mul_le_mul_left config.maxBatchSize (show 1000 ≤ imageElems by decide)
  obtain ⟨e, hc, -⟩ := exists_constructed rfl
    (engineOptions_fits (Nat.lt_trans hfit (by decide))) .heads soundPlatform_sound haddr hpath
  exact ⟨e, hc⟩

/-- An image of threes. -/
def image : FloatVec Int :=
  ⟨List.replicate imageElems 3, by rw [List.length_replicate]; decide⟩

/-- The first image of a runtime of pairs reaches the engine and is padded to two rows. -/
theorem session_sees_one_shape_pair :
    ∃ e r r', Constructed .heads soundPlatform (pairConfig.engineOptions [] []) e ∧
      exec (step .heads pairConfig) { engine := e } (firstBatch image.toList) = some r ∧
      bucketFor r.engine.options.batchBuckets 1 = 2 ∧
      r.step .heads pairConfig (.infer {} 0) = some r' ∧
      ∀ t ∈ r'.engine.runs, t.shape = [2, 3, 224, 224] := by
  obtain ⟨e, hc⟩ := exists_engine pairConfig (by decide) (by decide)
  have hm : 1 ≤ pairConfig.maxBatchSize := by decide
  have hlen : image.toList.length = pairConfig.inputElems := List.length_replicate
  obtain ⟨r, hr, -, -, hw⟩ := firstBatch_exec .heads hm e hlen
  obtain ⟨-, hinfer, -⟩ := session_sees_one_shape hm (by decide) hc hr
  obtain ⟨-, hbucket, hstep⟩ := hinfer ⟨image, 1, _, _, {}⟩ ⟨_, _, hw, rfl, rfl, rfl⟩
  obtain ⟨r', hr'⟩ := hstep 0
  refine ⟨e, r, r', hc, hr, hbucket, hr', ?_⟩
  exact (session_sees_one_shape hm (by decide) hc
    (exec_snoc_eq_some.mpr ⟨r, hr, hr'⟩)).1

/-! ### One geometry -/

/-- The exception of the geometry check, `onnx_execution_engine.cpp:318–323`. -/
abbrev geometryError : CppException :=
  .inferenceError ("run_inference called with input/output_elems that differ " ++
    "from the configured geometry")

/-- A call of complete rows in another geometry than the engine's throws, the engine unchanged. -/
theorem runInference_geometryError (session : Session F) {c : InferenceCall F} {e : OnnxEngine F}
    (hsize : c.batchedInput.size = sizeMul c.batchSize c.inputElems) (hpos : c.batchSize ≠ 0)
    (hgeom : c.inputElems ≠ e.options.inputElems ∨ c.outputElems ≠ e.options.outputElems) :
    (runInference session c.env c.batchedInput c.batchSize c.inputElems c.outputElems).outcome e =
      some (.error geometryError, e) := by
  rw [runInference, outcome_bind_ok (outcome_get e), if_neg (not_not.mpr hsize), if_neg hpos,
    if_pos hgeom]
  rfl

omit [FloatOps F] in
/-- The first promise of a failing batch takes the exception. -/
theorem fail_first {cfg : SchedulerConfig} {s : Scheduler F}
    {d batch rest : List (InferenceRequest F)} {req : InferenceRequest F} {ex : CppException}
    (hw : s.worker = .failing d batch (req :: rest) ex) (hresolved : s.resolved = []) :
    s.step cfg .fail = some { s.resolve req.resultPromise (.error ex) with
      worker := .failing d batch rest ex } := by
  have hnot : s.satisfied req.resultPromise = false := by
    rw [Scheduler.satisfied, hresolved]
    rfl
  simp only [Scheduler.step, Scheduler.workerStep, hw, Scheduler.failStep, hnot]
  rfl

/-- In any other geometry the first request, however right its length, fails with the engine's
exception. -/
theorem geometry_fails (hm : 1 ≤ config.maxBatchSize) (hlong : config.inputElems < 2 ^ 61)
    (hgeom : config.inputElems ≠ imageElems ∨ config.outputElems ≠ 1000) {p : Platform F}
    {e₀ : OnnxEngine F} (hc : Constructed session p (config.engineOptions mean stddev) e₀)
    {input : List F} (hlen : input.length = config.inputElems) :
    ∃ r, exec (step session config) { engine := e₀ }
        (firstBatch input ++ [RuntimeEvent.infer {} 0, RuntimeEvent.thread .fail]) = some r ∧
      r.scheduler.resolved = [(0, .error geometryError)] := by
  obtain ⟨r, hr, -, hresolved, hw⟩ := firstBatch_exec session hm e₀ hlen
  have hopts := (oneShape_exec hm hc hr).engine.options
  let vec : FloatVec F := ⟨input, by rw [hlen]; exact hlong⟩
  have hsize : vec.size = sizeMul 1 config.inputElems := by
    rw [sizeMul_of_lt (by omega), Nat.one_mul]
    exact hlen
  have hans := runInference_geometryError session (e := r.engine)
    (c := ⟨vec, 1, config.inputElems, config.outputElems, {}⟩) hsize Nat.one_ne_zero
    (by rw [hopts]; exact hgeom)
  obtain ⟨r₁, hr₁, hw₁, hresolved₁⟩ : ∃ r₁, r.infer session config {} 0 = some r₁ ∧
      r₁.scheduler.worker = .failing [⟨0, input, 0, 0⟩] [⟨0, input, 0, 0⟩] [⟨0, input, 0, 0⟩]
        geometryError ∧ r₁.scheduler.resolved = [] :=
    ⟨_, infer_of_answer (show r.scheduler.worker = .executing _ _ vec.toList from hw) hans 0, rfl,
      hresolved⟩
  refine ⟨_, exec_append_eq_some.mpr ⟨r, hr, exec_cons_eq_some.mpr ⟨r₁, hr₁,
    exec_cons_eq_some.mpr ⟨_, congrArg (Option.map _) (fail_first hw₁ hresolved₁), rfl⟩⟩⟩, ?_⟩
  change r₁.scheduler.resolved ++ _ = _
  rw [hresolved₁]
  rfl

/-- Every batch the scheduler hands to the engine passes the engine's argument checks exactly
when the configuration keeps the default geometry, or its rows are longer than any vector. -/
theorem geometry_agrees_iff (hm : 1 ≤ config.maxBatchSize) {p : Platform F} {e₀ : OnnxEngine F}
    (hc : Constructed session p (config.engineOptions mean stddev) e₀) :
    (∀ es r c, exec (step session config) { engine := e₀ } es = some r → r.Hands config c →
        PassesChecks r.engine.options c) ↔
      config.inputElems = imageElems ∧ config.outputElems = 1000 ∨
        2 ^ 61 ≤ config.inputElems := by
  constructor
  · intro hall
    by_cases hlt : config.inputElems < 2 ^ 61
    · left
      have hlen : (List.replicate config.inputElems (0 : F)).length = config.inputElems :=
        List.length_replicate
      obtain ⟨r, hr, -, -, hw⟩ := firstBatch_exec session hm e₀ hlen
      obtain ⟨-, hie, hoe⟩ := hall _ r
        ⟨⟨List.replicate config.inputElems 0, by rw [hlen]; exact hlt⟩, 1, config.inputElems,
          config.outputElems, {}⟩ hr ⟨_, _, hw, rfl, rfl, rfl⟩
      rw [(oneShape_exec hm hc hr).engine.options] at hie hoe
      exact ⟨hie, hoe⟩
    · exact .inr (Nat.not_lt.mp hlt)
  · intro hgeom es r c hr hands
    have hone := oneShape_exec hm hc hr
    have hsize := (hands.bounds hone.inv).2
    have hlt : c.batchedInput.size < 2 ^ 61 := c.batchedInput.size_lt
    obtain ⟨d, batch, hw, hbatch, hie, hoe⟩ := hands
    have hpos : 1 ≤ c.batchSize := by
      have hformed := hone.formed
      rw [hw] at hformed
      rw [hbatch]
      exact List.length_pos_iff.mpr hformed
    have hrow := Nat.mul_le_mul_right config.inputElems hpos
    rcases hgeom with ⟨hin, hout⟩ | hlong
    · rw [hone.engine.options]
      refine ⟨?_, hie.trans hin, hoe.trans hout⟩
      rw [hie, sizeMul_of_lt (by omega)]
      exact hsize
    · omega

/-- A runtime of pairs hands over what its engine accepts. -/
theorem geometry_agrees_pair :
    ∃ e, Constructed .heads soundPlatform (pairConfig.engineOptions [] []) e ∧
      ∀ es r c, exec (step .heads pairConfig) { engine := e } es = some r →
        r.Hands pairConfig c → PassesChecks r.engine.options c := by
  obtain ⟨e, hc⟩ := exists_engine pairConfig (by decide) (by decide)
  exact ⟨e, hc, (geometry_agrees_iff (by decide) hc).mpr (.inl ⟨rfl, rfl⟩)⟩

/-- Rows of four floats and two outputs, with a model path. -/
def tinyConfig : RuntimeConfig :=
  { maxBatchSize := 1, inputElems := 4, outputElems := 2, modelPath := "model.onnx" }

/-- A request of four floats is accepted, batched and failed by the engine's geometry check. -/
theorem tiny_geometry_fails :
    ∃ e r, Constructed .heads soundPlatform (tinyConfig.engineOptions [] []) e ∧
      exec (step .heads tinyConfig) { engine := e }
        (firstBatch [1, 2, 3, 4] ++ [.infer {} 0, .thread .fail]) = some r ∧
      r.scheduler.resolved = [(0, .error geometryError)] := by
  obtain ⟨e, hc⟩ := exists_engine tinyConfig (by decide) (by decide)
  have hlen : ([1, 2, 3, 4] : List Int).length = tinyConfig.inputElems := rfl
  obtain ⟨r, hr, hresolved⟩ := geometry_fails (by decide) (by decide) (.inl (by decide)) hc hlen
  exact ⟨e, r, hc, hr, hresolved⟩

end Runtime
end InferenceServer.Batching
