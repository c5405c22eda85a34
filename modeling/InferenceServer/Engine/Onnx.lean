import InferenceServer.Base.Act
import InferenceServer.Base.Buffer
import InferenceServer.Engine.Interface
import InferenceServer.Engine.Normalize

/-!
# The ONNX Runtime engine

Library `Engine`. `cpp/src/engine/onnx_execution_engine.cpp:89–467`. The session is a
function of its input tensor, with what ONNX Runtime promises about the tensors it is given;
what the CUDA and ONNX Runtime calls report is part of each call, so they may fail anywhere.
Buffers are the floats their bytes hold, and a copy that would leave one is undefined. `runs` is
a history of the tensors presented to the session; no code reads it.
-/

namespace InferenceServer.Engine

open InferenceServer.Base

/-- `OnnxExecutionEngine::Options`, `onnx_execution_engine.hpp:36–113`. -/
structure OnnxOptions (F : Type) where
  modelPath : String
  batchBuckets : List Nat := [8]
  warmBuckets : Bool := true
  inputElems : Nat := 3 * 224 * 224
  outputElems : Nat := 1000
  useIoBinding : Bool := true
  normalizeOnDevice : Bool := false
  mean : List F
  stddev : List F
  requireCuda : Bool := true

/-- A dense tensor. -/
structure Tensor (F : Type) where
  shape : List Nat
  data : List F
  size_eq : data.length = shape.prod
  deriving DecidableEq

/-- What `Session::Run` hands back for an output name. -/
inductive OrtValue (F : Type) where
  | tensor (t : Tensor F)
  | other
  deriving DecidableEq

/-- A check that `CreateTensor` may make of a buffer of `bytes` bytes: a float takes four. -/
def spaceStatus (bytes : Nat) (shape : List Nat) : Option String :=
  if 4 * shape.prod ≤ bytes then none else some "not enough space"

theorem spaceStatus_eq_none (bytes : Nat) (shape : List Nat) :
    spaceStatus bytes shape = none ↔ 4 * shape.prod ≤ bytes := by
  simp [spaceStatus]

/-- A check that `Run` may make of an output of shape `shape` bound to a tensor of shape `bound`. -/
def bindStatus (bound shape : List Nat) : Option String :=
  if shape = bound then none else some "OrtValue shape verification failed"

theorem bindStatus_eq_none (bound shape : List Nat) :
    bindStatus bound shape = none ↔ shape = bound := by
  simp [bindStatus]

/-- A session and the library it runs in. The texts of the library's refusals are its own; when it
refuses is what the engine relies on. -/
structure Session (F : Type) where
  /-- the model: outputs for an input tensor, or the text of an `Ort::Exception` -/
  run : Tensor F → Except String (List (OrtValue F))
  /-- what `CreateTensor` reports for a buffer of so many bytes and a shape -/
  space : Nat → List Nat → Option String := spaceStatus
  /-- it refuses a buffer that is too small for the shape, and no other -/
  space_eq_none : ∀ bytes shape, space bytes shape = none ↔ 4 * shape.prod ≤ bytes := by
    exact spaceStatus_eq_none
  /-- what `Run` reports for the shape that is bound and the shape of the output -/
  bind : List Nat → List Nat → Option String := bindStatus
  /-- it refuses an output that has not the bound shape, and no other -/
  bind_eq_none : ∀ bound shape, bind bound shape = none ↔ shape = bound := by
    exact bindStatus_eq_none

/-- What the libraries report during one `run_inference` call. -/
structure CallEnv where
  h2d : Option String := none
  launch : Option String := none
  syncPre : Option String := none
  run : Option String := none
  d2h : Option String := none
  syncPost : Option String := none
  deriving DecidableEq, Repr

/-- What they report during construction, and what fresh memory holds. -/
structure Platform (F : Type) where
  createSession : Option String := none
  providers : List String := ["CUDAExecutionProvider"]
  queryNames : Option String := none
  setDevice : Option String := none
  createStream : Option String := none
  allocHostInput : Option String := none
  allocHostOutput : Option String := none
  allocDeviceInput : Option String := none
  allocDeviceOutput : Option String := none
  allocDeviceMean : Option String := none
  allocDeviceStddev : Option String := none
  copyMean : Option String := none
  copyStddev : Option String := none
  createMemoryInfo : Option String := none
  fresh : Nat → F
  /-- the call that warms the bucket with `k` buckets after it -/
  warm : Nat → CallEnv := fun _ ↦ {}

/-- The engine's members. -/
structure OnnxEngine (F : Type) where
  options : OnnxOptions F
  ioBindingActive : Bool := false
  hostInput : List F := []
  hostOutput : List F := []
  deviceInput : List F := []
  deviceOutput : List F := []
  deviceMean : List F := []
  deviceStddev : List F := []
  runs : List (Tensor F) := []

variable {F σ : Type}

/-- `n * sizeof(float)`. -/
def floatBytes (n : Nat) : Nat := sizeMul n 4

/-- `memcpy` or `cudaMemcpyAsync` of `bytes` bytes of floats. -/
def copyBytes (dst src : List F) (bytes : Nat) : Act CppException σ (List F) :=
  if bytes / 4 ≤ src.length ∧ bytes / 4 ≤ dst.length then
    pure (overwrite dst (src.take (bytes / 4)))
  else .undefined

/-- The range constructor of `std::vector<float>` over `count` floats at `data`. -/
def readVector (data : List F) (count : Nat) : Act CppException σ (FloatVec F) :=
  if h : count < 2 ^ 61 then
    if count ≤ data.length then
      pure ⟨data.take count, Nat.lt_of_le_of_lt (List.length_take_le _ _) h⟩
    else .undefined
  else throw (.other "cannot create std::vector larger than max_size()")

/-- `std::vector<float>(count, 0.0F)`. -/
def zeroVector [Zero F] (count : Nat) : Act CppException σ (FloatVec F) :=
  if h : count < 2 ^ 61 then pure ⟨List.replicate count 0, by rw [List.length_replicate]; exact h⟩
  else throw (.other "cannot create std::vector larger than max_size()")

/-- An ONNX Runtime call that reported `status`. -/
def ortCheck (status : Option String) : Act CppException σ Unit :=
  match status with
  | none => pure ()
  | some what => throw (.ortError what)

/-- `translate_ort_errors`, `onnx_execution_engine.cpp:61–68`. -/
def translateOrtErrors {α : Type} (what : String) (fn : Act CppException σ α) :
    Act CppException σ α :=
  tryCatch fn fun e ↦
    match e with
    | .ortError text => throw (.inferenceError (what ++ ": " ++ text))
    | e => throw e

/-- `Ort::Value::CreateTensor` over `len` floats at `data`, whose size goes to the library in bytes.
The tensor is the front of the buffer. -/
def createTensor (session : Session F) (data : List F) (len : Nat) (shape : List Nat) :
    Act CppException σ (Tensor F) := do
  ortCheck (session.space (floatBytes len) shape)
  if h : shape.prod ≤ data.length then
    pure ⟨shape, data.take shape.prod, by rw [List.length_take, Nat.min_eq_left h]⟩
  else .undefined

/-- `bucket_for`, `onnx_execution_engine.cpp:272–279`. -/
def bucketFor : List Nat → Nat → Nat
  | [], batchSize => batchSize
  | bucket :: buckets, batchSize =>
    if batchSize ≤ bucket then bucket else bucketFor buckets batchSize

/-- The shape every input tensor gets, `onnx_execution_engine.cpp:377–378,433–434`. -/
def inputShape (paddedBatch : Nat) : List Nat := [paddedBatch, 3, 224, 224]

namespace OnnxEngine

/-- `Session::Run` on a tensor. -/
def sessionRun (session : Session F) (env : CallEnv) (input : Tensor F) :
    Act CppException (OnnxEngine F) (List (OrtValue F)) := do
  modify fun e ↦ { e with runs := e.runs ++ [input] }
  ortCheck env.run
  match session.run input with
  | .error what => throw (.ortError what)
  | .ok outputs => pure outputs

/-- `Session::Run` with a bound output tensor. -/
def sessionRunBinding (session : Session F) (env : CallEnv) (input : Tensor F)
    (outputShape : List Nat) : Act CppException (OnnxEngine F) (Tensor F) := do
  let outputs ← sessionRun session env input
  match outputs with
  | .tensor output :: _ =>
    ortCheck (session.bind outputShape output.shape)
    pure output
  | _ => throw (.ortError "the bound output is not a tensor")

/-- `run_bound` from the point where the device input is complete,
`onnx_execution_engine.cpp:376–407`. -/
def runStaged (session : Session F) (env : CallEnv) (batchSize paddedBatch : Nat) :
    Act CppException (OnnxEngine F) (FloatVec F) :=
  translateOrtErrors "ONNX Runtime inference failed (bound)" do
    let e ← get
    let inputFloats := sizeMul paddedBatch e.options.inputElems
    let outputFloats := sizeMul paddedBatch e.options.outputElems
    let inputTensor ← createTensor session e.deviceInput inputFloats (inputShape paddedBatch)
    let outputTensor ← createTensor session e.deviceOutput outputFloats
      [paddedBatch, e.options.outputElems]
    let output ← sessionRunBinding session env inputTensor outputTensor.shape
    let deviceOutput := overwrite e.deviceOutput output.data
    modify fun e ↦ { e with deviceOutput }
    cudaCheck env.d2h "cudaMemcpyAsync (D2H)"
    let hostOutput ← copyBytes e.hostOutput deviceOutput (floatBytes outputFloats)
    modify fun e ↦ { e with hostOutput }
    cudaCheck env.syncPost "cudaStreamSynchronize (post-Run)"
    readVector hostOutput (sizeMul batchSize e.options.outputElems)

variable [FloatOps F]

/-- `run_bound` up to the point where the device input is complete,
`onnx_execution_engine.cpp:354–374`. -/
def stageInput (env : CallEnv) (batchedInput : FloatVec F) (paddedBatch : Nat) :
    Act CppException (OnnxEngine F) Unit := do
  let e ← get
  let inputFloats := sizeMul paddedBatch e.options.inputElems
  let hostInput ← copyBytes e.hostInput batchedInput.toList (floatBytes batchedInput.size)
  modify fun e ↦ { e with hostInput }
  cudaCheck env.h2d "cudaMemcpyAsync (H2D)"
  let deviceInput ← copyBytes e.deviceInput hostInput (floatBytes inputFloats)
  modify fun e ↦ { e with deviceInput }
  .runIf e.options.normalizeOnDevice do
    let channels := e.options.mean.length
    let deviceInput ← launchNormalize deviceInput (toInt32 paddedBatch) (toInt32 channels)
      (toInt32 (e.options.inputElems / channels)) e.deviceMean e.deviceStddev env.launch
    modify fun e ↦ { e with deviceInput }
  cudaCheck env.syncPre "cudaStreamSynchronize (pre-Run)"

/-- `run_bound`, `onnx_execution_engine.cpp:351–408`. -/
def runBound (session : Session F) (env : CallEnv) (batchedInput : FloatVec F)
    (batchSize paddedBatch : Nat) : Act CppException (OnnxEngine F) (FloatVec F) := do
  stageInput env batchedInput paddedBatch
  runStaged session env batchSize paddedBatch

/-- The floats behind `input_data` in `run_host`, `onnx_execution_engine.cpp:424–430`. -/
def hostInputData (inputElems : Nat) (batchedInput : FloatVec F) (batchSize paddedBatch : Nat) :
    Act CppException σ (List F) :=
  if paddedBatch ≠ batchSize then do
    let paddedInput ← zeroVector (sizeMul paddedBatch inputElems)
    copyBytes paddedInput.toList batchedInput.toList (floatBytes batchedInput.size)
  else pure batchedInput.toList

/-- `run_host`, `onnx_execution_engine.cpp:416–467`. -/
def runHost (session : Session F) (env : CallEnv) (batchedInput : FloatVec F)
    (batchSize paddedBatch : Nat) : Act CppException (OnnxEngine F) (FloatVec F) := do
  let e ← get
  let inputElems := e.options.inputElems
  let outputElems := e.options.outputElems
  let inputData ← hostInputData inputElems batchedInput batchSize paddedBatch
  translateOrtErrors "ONNX Runtime inference failed" do
    let inputTensor ← createTensor session inputData (sizeMul paddedBatch inputElems)
      (inputShape paddedBatch)
    let outputs ← sessionRun session env inputTensor
    match outputs with
    | .tensor output :: _ =>
      let produced := output.data.length
      let expected := sizeMul paddedBatch outputElems
      if produced ≠ expected then
        throw (.inferenceError s!"model produced {produced} elements, expected {expected}")
      else readVector output.data (sizeMul batchSize outputElems)
    | _ => throw (.inferenceError "ONNX Runtime returned no output tensor")

/-- The padded batch fits the preallocated buffers, `onnx_execution_engine.cpp:331–332`. -/
def fitsPreallocated (batchBuckets : List Nat) (paddedBatch : Nat) : Bool :=
  match batchBuckets.getLast? with
  | none => false
  | some back => decide (paddedBatch ≤ back)

/-- `run_inference`, `onnx_execution_engine.cpp:307–337`. -/
def runInference (session : Session F) (env : CallEnv) (batchedInput : FloatVec F)
    (batchSize inputElems outputElems : Nat) :
    Act CppException (OnnxEngine F) (FloatVec F) := do
  let e ← get
  if batchedInput.size ≠ sizeMul batchSize inputElems then
    throw (.inferenceError "batched input size does not match batch_size * input_elems")
  else if batchSize = 0 then pure .empty
  else if inputElems ≠ e.options.inputElems ∨ outputElems ≠ e.options.outputElems then
    throw (.inferenceError ("run_inference called with input/output_elems that differ " ++
      "from the configured geometry"))
  else
    let paddedBatch := bucketFor e.options.batchBuckets batchSize
    if e.ioBindingActive && fitsPreallocated e.options.batchBuckets paddedBatch then
      runBound session env batchedInput batchSize paddedBatch
    else runHost session env batchedInput batchSize paddedBatch

/-! ### Construction -/

/-- A `PinnedBuffer` or `DeviceBuffer` of `bytes` bytes; no object has `2 ^ 63` of them. -/
def allocate (fresh : Nat → F) (status : Option String) (what : String) (bytes : Nat) :
    Act CppException σ (List F) := do
  .runIf (0 < bytes) (cudaCheck (if bytes < 2 ^ 63 then status else some "out of memory") what)
  pure ((List.range (bytes / 4)).map fresh)

/-- `allocate_device_buffers`, `onnx_execution_engine.cpp:194–237`. -/
def allocateDeviceBuffers (p : Platform F) : Act CppException (OnnxEngine F) Unit := do
  let opts := (← get).options
  let maxBatch := opts.batchBuckets.getLast?.getD 1
  let inputBytes := floatBytes (sizeMul maxBatch opts.inputElems)
  let outputBytes := floatBytes (sizeMul maxBatch opts.outputElems)
  tryCatch
    (do
      cudaCheck p.setDevice "cudaSetDevice"
      cudaCheck p.createStream "cudaStreamCreateWithFlags"
      let hostInput ← allocate p.fresh p.allocHostInput "cudaHostAlloc" inputBytes
      let hostOutput ← allocate p.fresh p.allocHostOutput "cudaHostAlloc" outputBytes
      let deviceInput ← allocate p.fresh p.allocDeviceInput "cudaMalloc" inputBytes
      let deviceOutput ← allocate p.fresh p.allocDeviceOutput "cudaMalloc" outputBytes
      -- `memset` over the whole pinned input
      modify fun e ↦
        { e with
          hostInput := List.replicate hostInput.length 0
          hostOutput, deviceInput, deviceOutput }
      .runIf opts.normalizeOnDevice do
        let bytes := floatBytes opts.mean.length
        let deviceMean ← allocate p.fresh p.allocDeviceMean "cudaMalloc" bytes
        let deviceStddev ← allocate p.fresh p.allocDeviceStddev "cudaMalloc" bytes
        cudaCheck p.copyMean "cudaMemcpy (mean)"
        let deviceMean ← copyBytes deviceMean opts.mean bytes
        cudaCheck p.copyStddev "cudaMemcpy (stddev)"
        let deviceStddev ← copyBytes deviceStddev opts.stddev bytes
        modify fun e ↦ { e with deviceMean, deviceStddev }
      ortCheck p.createMemoryInfo
      modify fun e ↦ { e with ioBindingActive := true })
    fun ex ↦ do
      modify fun e ↦ { e with ioBindingActive := false }
      .throwIf opts.normalizeOnDevice ex

/-- One throwaway inference, `onnx_execution_engine.cpp:255–260`; its failure is swallowed. -/
def warmBucket (session : Session F) (env : CallEnv) (bucket : Nat) :
    Act CppException (OnnxEngine F) Unit := do
  let opts := (← get).options
  tryCatch
    (do
      let input ← zeroVector (sizeMul bucket opts.inputElems)
      let _ ← runInference session env input bucket opts.inputElems opts.outputElems)
    fun _ ↦ pure ()

/-- `warm_buckets`, `onnx_execution_engine.cpp:250–262`. -/
def warmBuckets (session : Session F) (warm : Nat → CallEnv) :
    List Nat → Act CppException (OnnxEngine F) Unit
  | [] => pure ()
  | bucket :: buckets => do
    .runIf (bucket ≠ 0) (warmBucket session (warm buckets.length) bucket)
    warmBuckets session warm buckets

/-- The constructor's checks on device normalization, `onnx_execution_engine.cpp:145–160`. -/
def checkNormalization (opts : OnnxOptions F) : Act CppException σ Unit := do
  .throwIf (opts.useIoBinding = false)
    (.inferenceError "OnnxExecutionEngine: normalize_on_device requires use_io_binding")
  .throwIf (opts.mean.isEmpty ∨ opts.mean.length ≠ opts.stddev.length)
    (.inferenceError "OnnxExecutionEngine: mean and stddev must be non-empty and equal length")
  .throwIf (opts.stddev.contains 0)
    (.inferenceError "OnnxExecutionEngine: stddev entries must be non-zero")
  .throwIf (opts.inputElems % opts.mean.length ≠ 0)
    (.inferenceError "OnnxExecutionEngine: input_elems must divide evenly by the channel count")

/-- The constructor, `onnx_execution_engine.cpp:89–181`. -/
def construct (session : Session F) (p : Platform F) :
    Act CppException (OnnxEngine F) Unit := do
  let opts := (← get).options
  .throwIf (opts.modelPath = "")
    (.inferenceError "OnnxExecutionEngine: model_path is empty")
  translateOrtErrors "failed to initialize ONNX Runtime session" (ortCheck p.createSession)
  .throwIf (opts.requireCuda ∧ "CUDAExecutionProvider" ∉ p.providers)
    (.inferenceError ("ONNX Runtime resolved no CUDAExecutionProvider; the build is " ++
      "CPU-only. Set require_cuda=false to run anyway, but note every latency number " ++
      "would then be a CPU number."))
  .throwIf (¬opts.batchBuckets.Pairwise (· ≤ ·))
    (.inferenceError "OnnxExecutionEngine: batch_buckets must be ascending")
  .runIf opts.normalizeOnDevice (checkNormalization opts)
  translateOrtErrors "failed to query model input/output names" (ortCheck p.queryNames)
  .runIf opts.useIoBinding (allocateDeviceBuffers p)
  .runIf opts.warmBuckets (warmBuckets session p.warm opts.batchBuckets)

/-- The constructor returned `e`. -/
def Constructed (session : Session F) (p : Platform F) (opts : OnnxOptions F)
    (e : OnnxEngine F) : Prop :=
  (construct session p).outcome { options := opts } = some (.ok (), e)

end OnnxEngine

/-- One `run_inference` call. -/
structure InferenceCall (F : Type) where
  batchedInput : FloatVec F
  batchSize : Nat
  inputElems : Nat
  outputElems : Nat
  env : CallEnv := {}

/-- The engine after one call, whatever the call returned or threw. -/
def OnnxEngine.call [FloatOps F] (session : Session F) (e : OnnxEngine F) (c : InferenceCall F) :
    Option (OnnxEngine F) :=
  ((OnnxEngine.runInference session c.env c.batchedInput c.batchSize c.inputElems
    c.outputElems).outcome e).map Prod.snd

end InferenceServer.Engine
