import InferenceServer.Batching.Scheduler
import InferenceServer.Server.Gates

/-!
# Native calls

Library `Server`. `cpp/src/bindings/module.cpp:67–93` run by the thread pool of
`python/cuda_db/server/executor.py`. A call is a `concurrent.futures` future: it waits for a
worker, runs `predict`, and completes; completing runs the callbacks registered before, and
a callback registered later runs at once in the thread that registers it.
-/

namespace InferenceServer.Server

open InferenceServer.Engine

/-- The settings the server reads, `python/cuda_db/config.py:50–102`. -/
structure Settings where
  inputElems : Nat
  outputElems : Nat
  executorWorkers : Nat := 8
  requestTimeoutMs : Nat := 30000
  maxInflightRequests : Nat := 16
  maxRequestBytes : Nat := 4 * 1024 * 1024
  requireGpu : Bool := false
  authRequired : Bool := false
  deriving DecidableEq, Repr

/-- What the server calls in other libraries, on float values `F`. -/
structure Codec (F : Type) where
  /-- `int(value)` on header bytes -/
  parseInt : Bytes → Option Int
  /-- `hashlib.sha256(token.encode("ascii")).hexdigest()` -/
  sha256 : List Char → String
  /-- the `input` of a body that validates as a `PredictionRequest`, given the headers -/
  parsePrediction : List (Bytes × Bytes) → Bytes → Option (List F)
  /-- conversion to `np.float32` -/
  float32 : F → F
  /-- a little-endian `float32` -/
  float32OfBytes : UInt8 → UInt8 → UInt8 → UInt8 → F
  /-- `np.isfinite` -/
  isfinite : F → Bool
  /-- an element of `np.zeros` -/
  zero : F

/-- One configured application. -/
structure Config (F : Type) extends Settings, Codec F

/-- Python exceptions, as far as handlers tell them apart. -/
inductive PyException where
  | inferenceError (message : String)
  | valueError (message : String)
  | runtimeError (message : String)
  | other (message : String)
  deriving DecidableEq, Repr

/-- `str(exc)`. -/
def PyException.text : PyException → String
  | .inferenceError message => message
  | .valueError message => message
  | .runtimeError message => message
  | .other message => message

/-- How pybind11 hands a C++ exception to Python, with `InferenceError` registered,
`module.cpp:170–172`. -/
def pybind : CppException → PyException
  | .inferenceError what => .inferenceError what
  | .cudaError what => .runtimeError what
  | .ortError what => .runtimeError what
  | .futureError what => .runtimeError what
  | .other what => .other what

/-- Where a native call stands. -/
inductive WorkPhase where
  /-- in the executor's queue -/
  | queued
  /-- a worker took it, `predict` has not submitted yet -/
  | running
  /-- inside the scheduler -/
  | predicting
  /-- the future has its result, callbacks are due -/
  | completed
  /-- the lease's callback owes the controller a `_release` -/
  | releasing
  /-- the callback of `wrap_future` is due -/
  | chaining
  | finished
  deriving DecidableEq, Repr

namespace WorkPhase

/-- `predict` is queued or running. -/
def isActive : WorkPhase → Bool
  | .queued => true
  | .running => true
  | .predicting => true
  | _ => false

end WorkPhase

/-- What `predict` gives: the request id and the output, or an exception. -/
abbrev NativeResult (F : Type) := Except PyException (Nat × List F)

/-- One `executor.submit(runtime.predict, array)`. Executors and runtimes are numbered in the
order of their creation. -/
structure Work (F : Type) where
  array : List F
  executor : Nat
  runtime : Nat
  phase : WorkPhase := .queued
  outcome : Option (NativeResult F) := none
  /-- `_work_done` was registered before the future completed -/
  leaseCallback : Bool := false
  /-- `wrap_future`'s callback was registered before the future completed -/
  chainCallback : Bool := false
  /-- the event loop has been told to complete the wrapped future -/
  scheduled : Bool := false
  /-- the callbacks of the wrapped future ran -/
  observed : Bool := false
  /-- `Scheduler::submit` refused the request -/
  rejected : Bool := false
  deriving DecidableEq

/-- What the executor's worker does next. -/
inductive WorkEvent (F : Type) where
  | take
  | predict
  /-- the scheduler resolved the promise -/
  | complete (result : Except CppException (Nat × List F))

variable {F : Type}

/-- The promise's result as Python sees it. -/
def nativeResult : Except CppException (Nat × List F) → NativeResult F
  | .ok value => .ok value
  | .error e => .error (pybind e)

/-- `predict`, `module.cpp:67–85`, in a worker: `stopped` tells whether the scheduler of a
runtime has been stopped. -/
def Work.advance (inputElems : Nat) (stopped : Nat → Bool) (w : Work F) :
    WorkEvent F → Option (Work F)
  | .take => if w.phase = .queued then some { w with phase := .running } else none
  | .predict =>
    if w.phase = .running then
      if w.array.length ≠ inputElems then
        let expected := inputElems
        let got := w.array.length
        some
          { w with
            phase := .completed
            outcome := some (.error
              (.valueError s!"expected {expected} input elements, got {got}")) }
      else if stopped w.runtime then
        some
          { w with
            phase := .completed
            outcome := some (.error (pybind Batching.stoppedError))
            rejected := true }
      else some { w with phase := .predicting }
    else none
  | .complete result =>
    if w.phase = .predicting then
      some { w with phase := .completed, outcome := some (nativeResult result) }
    else none

/-- A worker moves a call from one phase of `predict` to the next; only a stopped scheduler
rejects it. -/
inductive Work.Advance (stopped : Nat → Bool) (w : Work F) : WorkEvent F → Work F → Prop where
  | take (h : w.phase = .queued) : Advance stopped w .take { w with phase := .running }
  | submit (h : w.phase = .running) (hs : stopped w.runtime = false) :
    Advance stopped w .predict { w with phase := .predicting }
  | missized (h : w.phase = .running) (o : NativeResult F) :
    Advance stopped w .predict { w with phase := .completed, outcome := some o }
  | reject (h : w.phase = .running) (hs : stopped w.runtime = true) (o : NativeResult F) :
    Advance stopped w .predict { w with phase := .completed, outcome := some o, rejected := true }
  | complete (h : w.phase = .predicting) (result : Except CppException (Nat × List F)) :
    Advance stopped w (.complete result)
      { w with phase := .completed, outcome := some (nativeResult result) }

/-- Everything a worker can do. -/
theorem Work.advance_cases {inputElems : Nat} {stopped : Nat → Bool} {w w' : Work F}
    {ev : WorkEvent F} (h : w.advance inputElems stopped ev = some w') :
    w.Advance stopped ev w' := by
  cases ev with
  | take =>
    simp only [advance] at h
    split at h
    · next hp =>
      cases h
      exact .take hp
    · cases h
  | predict =>
    simp only [advance] at h
    split at h
    · next hp =>
      split at h
      · cases h
        exact .missized hp _
      · split at h
        · next hs =>
          cases h
          exact .reject hp hs _
        · next hs =>
          cases h
          exact .submit hp (Bool.eq_false_iff.mpr hs)
    · cases h
  | complete result =>
    simp only [advance] at h
    split at h
    · next hp =>
      cases h
      exact .complete hp result
    · cases h

end InferenceServer.Server
