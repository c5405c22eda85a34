import InferenceServer.Base.Streams
import InferenceServer.Engine.Stub
import InferenceServer.Memory.Pool

/-!
# The CUDA engine

Library `Engine`. `cpp/src/engine/cuda_execution_engine.cpp:32–132` over the memory pool and
`cpp/src/kernels/cuda_stream_pool.cpp`. Copies and kernels are queued on a stream and take effect
when they complete; what completes before each step of the host, and what each CUDA call reports,
is part of the call. A failed call queues nothing, and a failed `cudaStreamSynchronize` awaits
nothing. `handedOut` and `returned` are histories of the pool's blocks with what was in flight at
that moment; no code reads them.
-/

namespace InferenceServer.Engine

open InferenceServer.Base InferenceServer.Memory

/-- `CudaExecutionEngine::Options`, `cuda_execution_engine.hpp:29–39`. -/
structure CudaOptions (F : Type) where
  mean : List F
  stddev : List F
  streamCount : Nat := 2

/-- The floats in the pool's blocks, by the address of the block and the position in it. -/
abbrev Contents (F : Type) := Nat → Nat → F

namespace Contents

variable {F : Type}

/-- The first `n` floats of a block. -/
def read (m : Contents F) (ptr n : Nat) : List F := (List.range n).map (m ptr)

/-- Writing floats to the front of a block. -/
def write (m : Contents F) (ptr : Nat) (xs : List F) : Contents F := fun p i ↦
  if p = ptr then xs[i]?.getD (m p i) else m p i

end Contents

/-- An operation queued on a stream. -/
inductive StreamOp where
  /-- `cudaMemcpyAsync` of `bytes` bytes between two blocks -/
  | copy (dst src bytes : Nat)
  /-- `normalize_kernel` on a block -/
  | normalize (data blocks total c hw : Nat)
  deriving DecidableEq, Repr

namespace StreamOp

/-- The operation reads or writes the block. -/
def touches (op : StreamOp) (ptr : Nat) : Bool :=
  match op with
  | .copy dst src _ => dst == ptr || src == ptr
  | .normalize data .. => data == ptr

/-- What the operation does when it completes. -/
def run {F : Type} [FloatOps F] (mean stddev : List F) (op : StreamOp) (m : Contents F) :
    Contents F :=
  match op with
  | .copy dst src bytes => m.write dst (m.read src (bytes / 4))
  | .normalize data blocks total c hw =>
    m.write data (normalizeKernel blocks total c hw mean stddev (m.read data total))

end StreamOp

/-- The engine's members; a stream is an index into the stream pool. -/
structure CudaEngine (F : Type) where
  options : CudaOptions F
  pool : MemoryPool := {}
  device : Streams StreamOp (Contents F)
  cursor : Nat := 0
  deviceMean : List F := []
  deviceStddev : List F := []
  handedOut : List (PooledBuffer × List StreamOp) := []
  returned : List (PooledBuffer × List StreamOp) := []

/-- What the CUDA calls report during construction, and what fresh memory holds. -/
structure CudaPlatform (F : Type) where
  setDevice : Option String := none
  createStream : Nat → Option String := fun _ ↦ none
  allocMean : Option String := none
  allocStddev : Option String := none
  copyMean : Option String := none
  copyStddev : Option String := none
  fresh : Contents F

/-- The steps of `run_inference` that touch the pool or the device. -/
inductive HostStep where
  | acquirePinned | acquireDevice | memcpy | upload | launch | download | synchronize
  | releaseDevice | releasePinned
  deriving DecidableEq, Repr

/-- What the CUDA calls of one `run_inference` call report, and the streams whose heads complete
before each step. -/
structure CudaEnv where
  pinned : AllocEnv
  device : AllocEnv
  upload : Option String := none
  launch : Option String := none
  download : Option String := none
  synchronize : Option String := none
  progress : HostStep → List Nat := fun _ ↦ []

variable {F σ α : Type}

/-- `launch_normalize`, `normalize.cu:56–79`, on a pooled block: the kernel to queue, if any. -/
def launchNormalizeOn (data : PooledBuffer) (n c hw : Int) (mean stddev : List F)
    (launch : Option String) : Act CppException σ (Option StreamOp) :=
  if n < 0 ∨ c < 0 ∨ hw < 0 then
    throw (.cudaError "launch_normalize: dimensions must be non-negative")
  else if n = 0 then pure none
  else if c = 0 ∨ hw = 0 then
    throw (.cudaError "launch_normalize: c and hw must be non-zero for a non-empty batch")
  else if data.ptr = 0 ∨ mean = [] ∨ stddev = [] then
    throw (.cudaError "launch_normalize: null device pointer")
  else
    let total := n.toNat * c.toNat * hw.toNat
    let needed := (total + 256 - 1) / 256
    let blocks := min needed 1024
    if 2 ^ 63 ≤ total ∨ data.capacity / 4 < total then .undefined
    else do
      cudaCheck launch "normalize_kernel launch"
      pure (some (.normalize data.ptr blocks total c.toNat hw.toNat))

namespace CudaEngine

variable [FloatOps F]

/-- Streams go on by themselves. -/
def advance (e : CudaEngine F) (ks : List Nat) : CudaEngine F :=
  { e with device := e.device.progress (StreamOp.run e.deviceMean e.deviceStddev) ks }

/-- An acquisition from the pool. An allocator that breaks its contract has no outcome. -/
def acquireBlock (pinned : Bool) (env : AllocEnv) (bytes : Nat) :
    Act CppException (CudaEngine F) PooledBuffer := do
  let e ← get
  if e.pool.sound env then
    let h ← Act.onPart pool (fun e pool ↦ { e with pool }) (MemoryPool.acquire pinned env bytes)
    modify fun e ↦ { e with handedOut := e.handedOut ++ [(h, e.device.pending)] }
    pure h
  else .undefined

/-- `~PooledBuffer`, `memory_pool.cpp:15,29–37`. -/
def giveBack (h : PooledBuffer) (e : CudaEngine F) : CudaEngine F :=
  { e with pool := e.pool.releaseHandle h, returned := e.returned ++ [(h, e.device.pending)] }

/-- The scope of a `PooledBuffer` local: it is destroyed on every way out. -/
def withBlock (pinned : Bool) (env : AllocEnv) (bytes : Nat) (before after : List Nat)
    (body : PooledBuffer → Act CppException (CudaEngine F) α) :
    Act CppException (CudaEngine F) α := do
  modify fun e ↦ e.advance before
  let h ← acquireBlock pinned env bytes
  (body h).ensuring fun e ↦ (e.advance after).giveBack h

/-- `CudaStreamPool::next`, `cuda_stream_pool.cpp:33–36`. -/
def next : Act CppException (CudaEngine F) Nat := do
  let e ← get
  modify fun e ↦ { e with cursor := sizeAdd e.cursor 1 }
  pure (e.cursor % e.device.queues.length)

/-- An operation is queued. -/
def enqueue (stream : Nat) (op : StreamOp) : Act CppException (CudaEngine F) Unit :=
  modify fun e ↦ { e with device := e.device.enqueue stream op }

/-- The kernel of a launch is queued, if there is one. -/
def enqueueKernel (stream : Nat) : Option StreamOp → Act CppException (CudaEngine F) Unit
  | some op => enqueue stream op
  | none => pure ()

/-- A checked `cudaMemcpyAsync` between two pooled blocks. -/
def memcpyAsync (status : Option String) (what : String) (dst src : PooledBuffer) (bytes : Nat)
    (stream : Nat) : Act CppException (CudaEngine F) Unit := do
  cudaCheck status what
  if bytes ≤ dst.capacity ∧ bytes ≤ src.capacity then enqueue stream (.copy dst.ptr src.ptr bytes)
  else .undefined

/-- A checked `cudaStreamSynchronize`. -/
def streamSynchronize (status : Option String) (stream : Nat) :
    Act CppException (CudaEngine F) Unit := do
  cudaCheck status "cudaStreamSynchronize"
  modify fun e ↦
    { e with device := e.device.drain (StreamOp.run e.deviceMean e.deviceStddev) stream }

/-- The copy into the staging block and the queued upload, `cuda_execution_engine.cpp:106–111`. It
returns the stream. -/
def upload (env : CudaEnv) (batchedInput : FloatVec F) (staging device : PooledBuffer) :
    Act CppException (CudaEngine F) Nat := do
  let bytes := floatBytes batchedInput.size
  modify fun e ↦ e.advance (env.progress .memcpy)
  if bytes ≤ staging.capacity then
    modify fun e ↦
      { e with device :=
        { e.device with memory := e.device.memory.write staging.ptr batchedInput.toList } }
    modify fun e ↦ e.advance (env.progress .upload)
    let stream ← next
    memcpyAsync env.upload "cudaMemcpyAsync (H2D)" device staging bytes stream
    pure stream
  else .undefined

/-- The rest of the round trip, `cuda_execution_engine.cpp:113–120`. -/
def finish (env : CudaEnv) (batchedInput : FloatVec F) (batchSize hw : Nat)
    (staging device : PooledBuffer) (stream : Nat) : Act CppException (CudaEngine F) Unit := do
  let e ← get
  modify fun e ↦ e.advance (env.progress .launch)
  let kernel ← launchNormalizeOn device (toInt32 batchSize) (toInt32 e.options.mean.length)
    (toInt32 hw) e.deviceMean e.deviceStddev env.launch
  enqueueKernel stream kernel
  modify fun e ↦ e.advance (env.progress .download)
  memcpyAsync env.download "cudaMemcpyAsync (D2H)" staging device (floatBytes batchedInput.size)
    stream
  modify fun e ↦ e.advance (env.progress .synchronize)
  streamSynchronize env.synchronize stream

/-- What happens while the engine holds its two blocks, `cuda_execution_engine.cpp:106–131`. -/
def roundTrip (env : CudaEnv) (batchedInput : FloatVec F)
    (batchSize inputElems outputElems hw : Nat) (staging device : PooledBuffer) :
    Act CppException (CudaEngine F) (FloatVec F) := do
  let stream ← upload env batchedInput staging device
  finish env batchedInput batchSize hw staging device stream
  let e ← get
  shapeOutput (e.device.memory.read staging.ptr (staging.capacity / 4)) batchSize inputElems
    outputElems

/-- `CudaExecutionEngine::run_inference`, `cuda_execution_engine.cpp:85–132`. -/
def runInference (env : CudaEnv) (batchedInput : FloatVec F)
    (batchSize inputElems outputElems : Nat) : Act CppException (CudaEngine F) (FloatVec F) := do
  let e ← get
  if batchedInput.size ≠ sizeMul batchSize inputElems then
    throw (.inferenceError "batched input size does not match batch_size * input_elems")
  else if batchSize = 0 then pure .empty
  else
    let channelCount := e.options.mean.length
    if inputElems = 0 ∨ inputElems % channelCount ≠ 0 then
      throw (.inferenceError "input_elems must be a non-zero multiple of the channel count")
    else
      let hw := inputElems / channelCount
      let bytes := floatBytes batchedInput.size
      withBlock true env.pinned bytes (env.progress .acquirePinned) (env.progress .releasePinned)
        fun staging ↦
          withBlock false env.device bytes (env.progress .acquireDevice)
            (env.progress .releaseDevice) fun device ↦
              roundTrip env batchedInput batchSize inputElems outputElems hw staging device

/-! ### Construction -/

/-- The loop of `CudaStreamPool`'s constructor, `cuda_stream_pool.cpp:15–24`. -/
def createStreams (p : CudaPlatform F) : Nat → Act CppException (CudaEngine F) Unit
  | 0 => pure ()
  | count + 1 => do
    createStreams p count
    cudaCheck (p.createStream count) "cudaStreamCreateWithFlags"
    modify fun e ↦ { e with device := { e.device with queues := e.device.queues ++ [[]] } }

/-- `DeviceBuffer(bytes)`, `device_buffer.hpp:24–28`, for `n` floats. -/
def allocateConstants (status : Option String) (n : Nat) : Act CppException (CudaEngine F) Unit :=
  .runIf (0 < floatBytes n) (cudaCheck status "cudaMalloc")

/-- The constructor, `cuda_execution_engine.cpp:32–54`, its members first. -/
def construct (p : CudaPlatform F) : Act CppException (CudaEngine F) Unit := do
  let opts := (← get).options
  .throwIf (opts.streamCount = 0) (.other "CudaStreamPool: count must be at least 1")
  cudaCheck p.setDevice "cudaSetDevice"
  createStreams p opts.streamCount
  allocateConstants p.allocMean opts.mean.length
  allocateConstants p.allocStddev opts.stddev.length
  .throwIf opts.mean.isEmpty
    (.cudaError "CudaExecutionEngine: mean must have at least one channel")
  .throwIf (opts.mean.length ≠ opts.stddev.length)
    (.cudaError "CudaExecutionEngine: mean and stddev must have the same length")
  .throwIf (opts.stddev.contains 0)
    (.cudaError "CudaExecutionEngine: stddev entries must be non-zero")
  cudaCheck p.copyMean "cudaMemcpy (mean)"
  modify fun e ↦ { e with deviceMean := opts.mean }
  cudaCheck p.copyStddev "cudaMemcpy (stddev)"
  modify fun e ↦ { e with deviceStddev := opts.stddev }

/-- The constructor returned `e`. -/
def Constructed (p : CudaPlatform F) (opts : CudaOptions F) (e : CudaEngine F) : Prop :=
  (construct p).outcome { options := opts, device := ⟨[], p.fresh⟩ } = some (.ok (), e)

end CudaEngine

/-- One `run_inference` call. -/
structure CudaCall (F : Type) where
  batchedInput : FloatVec F
  batchSize : Nat
  inputElems : Nat
  outputElems : Nat
  env : CudaEnv

/-- The engine after one call, whatever the call returned or threw. -/
def CudaEngine.call [FloatOps F] (e : CudaEngine F) (c : CudaCall F) : Option (CudaEngine F) :=
  ((CudaEngine.runInference c.env c.batchedInput c.batchSize c.inputElems
    c.outputElems).outcome e).map Prod.snd

end InferenceServer.Engine
