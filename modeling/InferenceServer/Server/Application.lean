import InferenceServer.Base.Run
import InferenceServer.Server.Request

/-!
# The application

Library `Server`. `python/cuda_db/server/app.py:37–150`: the lifespan coroutine beside any number
of requests. The code of the coroutine between two awaits is one step. `asyncio.to_thread` hands
a call to a thread that runs it at some later time, whether or not the awaiting coroutine is
cancelled meanwhile. One application object can be started again after it went down.
-/

namespace InferenceServer.Server

/-- What the start of a lifespan meets outside. -/
structure StartupEnv where
  /-- `load_key_file(settings.api_keys_file, require_nonempty=True)` -/
  store : Except String (List ApiKeyRecord)
  /-- the failure of reading the model file for its digest -/
  hashing : Option String := none
  /-- the failure of `InferenceRuntime(...)` -/
  construct : Option String := none
  /-- `runtime.stats()["engine"]` -/
  engine : String
  deriving Repr

/-- Where the lifespan coroutine stands. -/
inductive LifespanPc where
  | down
  /-- awaiting the startup probe -/
  | awaitProbe
  /-- at `yield` -/
  | serving
  /-- in `drain`, the waiting thread has not seen an empty controller -/
  | draining
  /-- in `drain`, the waiting thread is done -/
  | drained
  /-- awaiting `startup_probe.result` -/
  | joinProbe
  /-- awaiting `runtime.shutdown` -/
  | stopRuntime
  /-- awaiting `executor.shutdown` -/
  | stopExecutor
  deriving DecidableEq, Repr

/-- The lifespan coroutine and its local variables. -/
structure Lifespan where
  pc : LifespanPc := .down
  runtime : Option Nat := none
  startupProbe : Option Nat := none
  executor : Option Nat := none
  deriving DecidableEq, Repr

/-- The whole application. The shutdown lists hold the calls handed to a thread so far. -/
structure Application (F : Type) where
  shared : Shared
  lifespan : Lifespan := {}
  probes : List (Work F) := []
  requests : List (Request F) := []
  runtimeShutdowns : List Nat := []
  executorShutdowns : List Nat := []
  deriving DecidableEq

/-- What the lifespan coroutine does next. -/
inductive LifespanEvent where
  | startup (env : StartupEnv)
  | probeResumed
  | exit
  /-- a cancellation at the await where the coroutine stands -/
  | cancel
  /-- the thread in `_wait_until_drained` sees an empty controller -/
  | drained
  | drainResumed
  | probeJoined
  | runtimeStopped
  | executorStopped

namespace Application

/-- What happens next. -/
inductive Event (F : Type) where
  | tick
  | arrive (scope : Scope)
  | request (i : Nat) (ev : Request.Event F)
  | probe (k : Nat) (ev : WorkEvent F)
  | lifespan (ev : LifespanEvent)
  /-- a thread runs `runtime.shutdown` -/
  | shutdownRuntime (j : Nat)
  /-- a thread runs `executor.shutdown` up to the join -/
  | shutdownExecutor (k : Nat)

variable {F : Type}

/-- The application after `create_app`. -/
def init (cfg : Config F) : Application F where
  shared :=
    { admission := { capacity := cfg.maxInflightRequests }
      digests := if cfg.authRequired then none else some [] }

/-! ### The lifespan -/

/-- `stop_runtime` up to its first await, `app.py:53–57`. -/
def stop (s : Application F) (detail : String) : Application F :=
  { s with
    shared :=
      { s.shared with
        ready := false, readinessDetail := detail, admission := s.shared.admission.close }
    lifespan := { s.lifespan with pc := .draining } }

/-- The `except` block of the startup up to its first await, `app.py:114–121`. -/
def startupFailed (s : Application F) (e : String) : Application F :=
  s.stop s!"startup failed: {e}"

/-- The end of `stop_runtime`, `app.py:67`. -/
def clear (cfg : Config F) (s : Application F) : Application F :=
  { s with
    shared := { s.shared with digests := if cfg.authRequired then none else some [] }
    lifespan := { s.lifespan with pc := .down } }

/-- `app.py:65–67`. -/
def stopExecutor (cfg : Config F) (s : Application F) : Application F :=
  match s.lifespan.executor with
  | some executor =>
    { s with
      lifespan := { s.lifespan with pc := .stopExecutor }
      executorShutdowns := s.executorShutdowns ++ [executor] }
  | none => s.clear cfg

/-- `app.py:63–67`. -/
def stopRuntime (cfg : Config F) (s : Application F) : Application F :=
  match s.lifespan.runtime with
  | some runtime =>
    { s with
      lifespan := { s.lifespan with pc := .stopRuntime }
      runtimeShutdowns := s.runtimeShutdowns ++ [runtime] }
  | none => s.stopExecutor cfg

/-- The startup probe that is not done yet. -/
def runningProbe (s : Application F) : Option (Work F) :=
  (s.lifespan.startupProbe.bind fun k ↦ s.probes[k]?).filter fun w ↦ w.phase.isActive

/-- From the probe's check on, `app.py:58–67`. -/
def joinProbe (cfg : Config F) (s : Application F) : Application F :=
  match s.runningProbe with
  | some _ => { s with lifespan := { s.lifespan with pc := .joinProbe } }
  | none => s.stopRuntime cfg

/-- The lifespan up to the probe's await, `app.py:42–102`. -/
def startup (cfg : Config F) (s : Application F) (env : StartupEnv) : Application F :=
  let s :=
    { s with
      shared := { s.shared with ready := false, readinessDetail := "starting" }
      lifespan := {} }
  match if cfg.authRequired then env.store else .ok [] with
  | .error e => s.startupFailed e
  | .ok digests =>
    let s := { s with shared := { s.shared with digests := some digests } }
    match env.hashing with
    | some e => s.startupFailed e
    | none =>
      let workers := cfg.executorWorkers
      if workers < 1 then s.startupFailed s!"executor_workers must be >= 1, got {workers}"
      else
        let executor := s.shared.executors.length
        let s :=
          { s with
            shared := { s.shared with executors := s.shared.executors ++ [false] }
            lifespan := { s.lifespan with executor := some executor } }
        match env.construct with
        | some e => s.startupFailed e
        | none =>
          let runtime := s.shared.runtimes.length
          let s :=
            { s with
              shared := { s.shared with runtimes := s.shared.runtimes ++ [false] }
              lifespan := { s.lifespan with runtime := some runtime } }
          if cfg.requireGpu ∧ env.engine ≠ "onnx" then
            s.startupFailed "require_gpu=true but the ONNX CUDA engine is not active"
          else
            { s with
              probes := s.probes ++
                [{ array := List.replicate cfg.inputElems cfg.zero, executor, runtime }]
              lifespan :=
                { s.lifespan with pc := .awaitProbe, startupProbe := some s.probes.length } }

/-- The startup goes on with the probe's result, `app.py:102–112`. -/
def probeResumed (cfg : Config F) (s : Application F) : NativeResult F → Application F
  | .error e => s.startupFailed e.text
  | .ok (_, output) =>
    let size := output.length
    let expected := cfg.outputElems
    if size ≠ expected then
      s.startupFailed s!"startup probe returned {size} outputs; expected {expected}"
    else if output.all cfg.isfinite then
      { s with
        shared := { s.shared with ready := true, readinessDetail := "ready" }
        lifespan := { s.lifespan with pc := .serving } }
    else s.startupFailed "startup probe returned non-finite output"

/-- A cancellation at an await of the lifespan. `stop_runtime` suppresses it while it joins the
probe; everywhere else it ends the startup or `stop_runtime`. -/
def cancel (cfg : Config F) (s : Application F) : Option (Application F) :=
  match s.lifespan.pc with
  | .down => none
  | .awaitProbe => some (s.startupFailed "")
  | .serving => some (s.stop "draining")
  | .joinProbe => some (s.stopRuntime cfg)
  | _ => some { s with lifespan := { s.lifespan with pc := .down } }

/-- No call of the executor is queued or running. -/
def isIdle (s : Application F) (executor : Nat) : Bool :=
  (s.requests.filterMap (·.work) ++ s.probes).all fun w ↦
    w.executor != executor || !w.phase.isActive

/-- A step of the lifespan. -/
def lifespanStep (cfg : Config F) (s : Application F) : LifespanEvent → Option (Application F)
  | .startup env => if s.lifespan.pc = .down then some (s.startup cfg env) else none
  | .probeResumed =>
    if s.lifespan.pc = .awaitProbe then
      ((s.lifespan.startupProbe.bind fun k ↦ s.probes[k]?).bind (·.outcome)).map
        (s.probeResumed cfg)
    else none
  | .exit => if s.lifespan.pc = .serving then some (s.stop "draining") else none
  | .cancel => s.cancel cfg
  | .drained =>
    if s.lifespan.pc = .draining ∧ s.shared.admission.drained then
      some { s with lifespan := { s.lifespan with pc := .drained } }
    else none
  | .drainResumed => if s.lifespan.pc = .drained then some (s.joinProbe cfg) else none
  | .probeJoined =>
    if s.lifespan.pc = .joinProbe ∧ s.runningProbe.isNone then some (s.stopRuntime cfg) else none
  | .runtimeStopped =>
    if s.lifespan.pc = .stopRuntime ∧ s.lifespan.runtime.all s.shared.isStopped then
      some (s.stopExecutor cfg)
    else none
  | .executorStopped =>
    if s.lifespan.pc = .stopExecutor ∧ s.lifespan.executor.all fun k ↦
        s.shared.isShutdown k && s.isIdle k then
      some (s.clear cfg)
    else none

/-- One step of the application. -/
def step (cfg : Config F) (s : Application F) : Event F → Option (Application F)
  | .tick => some { s with shared := { s.shared with now := s.shared.now + 1 } }
  | .arrive scope => some { s with requests := s.requests ++ [{ scope }] }
  | .request i ev =>
    s.requests[i]?.bind fun r ↦
      (r.step cfg s.shared ev).map fun (r', effect) ↦
        { s with shared := s.shared.apply effect, requests := s.requests.set i r' }
  | .probe k ev =>
    s.probes[k]?.bind fun w ↦
      (w.advance cfg.inputElems s.shared.isStopped ev).map fun w' ↦
        { s with probes := s.probes.set k w' }
  | .lifespan ev => s.lifespanStep cfg ev
  | .shutdownRuntime j =>
    if j ∈ s.runtimeShutdowns then
      some { s with shared := { s.shared with runtimes := s.shared.runtimes.set j true } }
    else none
  | .shutdownExecutor k =>
    if k ∈ s.executorShutdowns then
      some { s with shared := { s.shared with executors := s.shared.executors.set k true } }
    else none

/-! ### A small server -/

/-- A server for tensors of one element, with one permit; an integer stands for a float, and a
token is its own digest. -/
def unitServer : Config Int where
  inputElems := 1
  outputElems := 1
  executorWorkers := 1
  requestTimeoutMs := 10
  maxInflightRequests := 1
  maxRequestBytes := 16
  parseInt _ := none
  sha256 token := String.ofList ('#' :: token)
  parsePrediction _ _ := none
  float32 x := x
  float32OfBytes a _ _ _ := a.toNat
  isfinite _ := true
  zero := 0

/-- It comes up. -/
def unitStartup : List (Event Int) :=
  [.lifespan (.startup { store := .ok [], engine := "stub" }), .probe 0 .take, .probe 0 .predict,
    .probe 0 (.complete (.ok (0, [0]))), .lifespan .probeResumed]

/-- A request for a raw prediction. -/
def rawScope : Scope := { type := "http", method := "POST", path := "/predict/raw", headers := [] }

/-- Request `i` arrives with this scope, uploads `body` and submits its native call. -/
def unitSubmission (i : Nat) (scope : Scope) (body : Bytes) : List (Event Int) :=
  [.arrive scope, .request i (.middleware .enter), .request i (.middleware .pollUpload),
    .request i (.middleware (.message (.request body false))),
    .request i (.app (.start ⟨404, "Not Found"⟩)), .request i (.app .attach),
    .request i (.app .register), .request i (.app .wrap)]

end Application
end InferenceServer.Server
