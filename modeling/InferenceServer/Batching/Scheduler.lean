import InferenceServer.Base.Run
import InferenceServer.Base.Buffer
import InferenceServer.Engine.Interface
import InferenceServer.Batching.RequestQueue

/-!
# The scheduler

Library `Batching`. `cpp/src/scheduler/scheduler.cpp:48–226`: producers in `submit`, one
thread in `start` and `stop`, and the worker in `run_loop`, interleaved at their locked
sections and at every promise they resolve. The engine's answer, clock readings, wake-ups
and timeouts are events, so they may come in any order the source allows. Memory
allocation does not fail. The last four fields of the state are a history: they record
what happened and no step reads them, except that a promise remembers being satisfied.
-/

namespace InferenceServer.Batching

open InferenceServer.Base InferenceServer.Engine

/-- `InferenceRequest`, `request.hpp:12–17`. `resultPromise` names the promise the request
carries; every submitted request has one of its own. -/
structure InferenceRequest (F : Type) where
  requestId : Nat
  inputData : List F
  arrivalTime : Int
  resultPromise : Nat
  deriving DecidableEq, Repr

/-- `InferenceResult`, `result.hpp:8–11`. -/
structure InferenceResult (F : Type) where
  requestId : Nat
  logits : List F
  deriving DecidableEq, Repr

/-- What a promise was resolved with: `set_value` or `set_exception`. -/
abbrev Outcome (F : Type) := Except CppException (InferenceResult F)

/-- `SchedulerConfig`, `scheduler.hpp:15–22`; `maxWait` is a signed number of milliseconds. -/
structure SchedulerConfig where
  maxBatchSize : Nat := 1
  maxWait : Int := 5
  inputElems : Nat := 0
  outputElems : Nat := 0
  deriving DecidableEq, Repr

/-- The batching counters, `scheduler.hpp:33–42`, taken without 64-bit wrap. -/
structure SchedulerStats where
  totalBatches : Nat := 0
  totalRequests : Nat := 0
  maxBatchSizeSeen : Nat := 0
  totalQueueWaitUs : Nat := 0
  maxQueueWaitUs : Nat := 0
  totalExecUs : Nat := 0
  deriving DecidableEq, Repr

/-- The errors the scheduler raises itself, with its own messages. -/
def stoppedError : CppException :=
  .inferenceError "scheduler is stopped and cannot accept requests"
def inputSizeError : CppException :=
  .inferenceError "input size does not match configured input_elems"
def outputSizeError : CppException :=
  .inferenceError "engine returned an unexpected output size"
def alreadySatisfied : CppException := .futureError "promise already satisfied"

/-- One `engine_->run_inference` call, with the drained batch it came from. -/
structure EngineCall (F : Type) where
  drained : List (InferenceRequest F)
  batchedInput : List F
  batchSize : Nat
  inputElems : Nat
  outputElems : Nat
  answer : InferenceAnswer F
  deriving DecidableEq

/-- Where the worker thread stands in `run_loop`, `scheduler.cpp:135–226`, with the locals
that are live there. -/
inductive Worker (F : Type) where
  /-- no thread: not started, or joined -/
  | absent
  /-- inside `queue_.wait_and_drain` -/
  | waiting (p : WaitPoint)
  /-- `drained.empty()`: about to read `running_` -/
  | drainedEmpty
  /-- the size check, `todo` still to be looked at -/
  | filtering (drained todo batch : List (InferenceRequest F))
  /-- the batch is final: about to count it -/
  | batched (drained batch : List (InferenceRequest F))
  /-- inside `engine_->run_inference` -/
  | executing (drained batch : List (InferenceRequest F)) (batchedInput : List F)
  /-- handing out the rows, at index `i` -/
  | delivering (drained batch : List (InferenceRequest F)) (batchedOutput : FloatVec F) (i : Nat)
  /-- the `catch` block, `todo` still to be failed -/
  | failing (drained batch todo : List (InferenceRequest F)) (eptr : CppException)
  /-- `run_loop` returned -/
  | exited
  /-- an exception left `run_loop`: `std::terminate` -/
  | terminated
  deriving DecidableEq

/-- Where the thread that calls `start` and `stop` stands. -/
inductive Caller where
  | idle
  /-- `start`: `running_` was false, the thread is not created yet -/
  | spawning
  /-- `stop`: `running_` is cleared -/
  | stopping
  /-- `stop`: inside `queue_.shutdown`, the flag is set and `notify_all` is due -/
  | notifying
  /-- `stop`: about to join -/
  | joining
  deriving DecidableEq, Repr

/-- The scheduler and its threads. -/
structure Scheduler (F : Type) where
  queue : RequestQueue (InferenceRequest F) := {}
  running : Bool := false
  worker : Worker F := .absent
  caller : Caller := .idle
  /-- `push` calls that released the lock and still owe their `notify_one` -/
  notifies : Nat := 0
  stats : SchedulerStats := {}
  /-- every `submit` call in lock order, with what it returned or threw -/
  submits : List (InferenceRequest F × Except CppException Unit) := []
  /-- every non-empty batch `wait_and_drain` returned -/
  drains : List (List (InferenceRequest F)) := []
  calls : List (EngineCall F) := []
  resolved : List (Nat × Outcome F) := []
  deriving DecidableEq

/-- What can happen next. `answer`, clock readings and spurious wake-ups are free. -/
inductive Event (F : Type) where
  | submit (requestId : Nat) (inputData : List F) (arrivalTime : Int)
  | notifyOne
  | start
  | spawn
  | stop
  | shutdown
  | notifyAll
  | join
  | wake
  | expire
  | poll
  | checkRunning
  | filter
  | account (dequeuedAt : Int)
  | infer (answer : InferenceAnswer F) (execUs : Nat)
  | deliver
  | fail
  | resetStats

namespace SchedulerStats

/-- The wait of one request in microseconds, `scheduler.cpp:173–176`: the clock counts
nanoseconds, the cast truncates and a negative wait counts as zero. -/
def waitedUs (dequeuedAt arrivalTime : Int) : Nat := ((dequeuedAt - arrivalTime).tdiv 1000).toNat

/-- Counting one request's queue wait, `scheduler.cpp:178–183`. -/
def countWait (st : SchedulerStats) (waited : Nat) : SchedulerStats :=
  { st with
    totalQueueWaitUs := st.totalQueueWaitUs + waited
    maxQueueWaitUs := max st.maxQueueWaitUs waited }

/-- Counting one batch before it is executed, `scheduler.cpp:159–184`. -/
def countBatch {F : Type} (st : SchedulerStats) (batch : List (InferenceRequest F))
    (dequeuedAt : Int) : SchedulerStats :=
  batch.foldl (fun st req ↦ st.countWait (waitedUs dequeuedAt req.arrivalTime))
    { st with
      totalBatches := st.totalBatches + 1
      totalRequests := st.totalRequests + batch.length
      maxBatchSizeSeen := max st.maxBatchSizeSeen batch.length }

/-- Counting the engine time of one batch, `scheduler.cpp:201,217–219`. -/
def countExec (st : SchedulerStats) (execUs : Nat) : SchedulerStats :=
  { st with totalExecUs := st.totalExecUs + execUs }

end SchedulerStats

variable {F : Type}

/-- A request passes the size check, `scheduler.cpp:148`. -/
def wellSized (cfg : SchedulerConfig) (req : InferenceRequest F) : Bool :=
  req.inputData.length == cfg.inputElems

/-- The inputs of the batch, one after the other, `scheduler.cpp:186–191`. -/
def concatInputs (batch : List (InferenceRequest F)) : List F :=
  batch.foldl (fun acc req ↦ acc ++ req.inputData) []

/-- The `i`th result, `scheduler.cpp:209–213`. -/
def sliceResult (cfg : SchedulerConfig) (batchedOutput : FloatVec F) (i : Nat)
    (req : InferenceRequest F) : InferenceResult F :=
  { requestId := req.requestId
    logits := slice batchedOutput.toList (sizeMul i cfg.outputElems)
      (sizeMul (i + 1) cfg.outputElems) }

namespace Worker

/-- A notification reaches the worker only while it waits. -/
def wake : Worker F → Worker F
  | .waiting p => .waiting p.wake
  | w => w

/-- What follows the engine's answer, `scheduler.cpp:199–206,216–224`. -/
def afterAnswer (cfg : SchedulerConfig) (drained batch : List (InferenceRequest F)) :
    InferenceAnswer F → Worker F
  | .error e => .failing drained batch batch e
  | .ok out =>
    if out.size ≠ sizeMul batch.length cfg.outputElems then
      .failing drained batch batch outputSizeError
    else .delivering drained batch out 0

end Worker

namespace Scheduler

/-- The promise has been resolved already. -/
def satisfied (s : Scheduler F) (promise : Nat) : Bool := s.resolved.any fun r ↦ r.1 == promise

/-- `set_value` or `set_exception` on a promise that is not satisfied yet. -/
def resolve (s : Scheduler F) (promise : Nat) (outcome : Outcome F) : Scheduler F :=
  { s with resolved := s.resolved ++ [(promise, outcome)] }

/-- The size check of one request, `scheduler.cpp:147–156`. It runs outside the `try`, so a
`future_error` here would leave `run_loop`. -/
def filterStep (cfg : SchedulerConfig) (s : Scheduler F)
    (drained todo batch : List (InferenceRequest F)) : Scheduler F :=
  match todo with
  | [] => { s with worker := if batch.isEmpty then .waiting .entry else .batched drained batch }
  | req :: rest =>
    if wellSized cfg req then { s with worker := .filtering drained rest (batch ++ [req]) }
    else if s.satisfied req.resultPromise then { s with worker := .terminated }
    else
      { s.resolve req.resultPromise (.error inputSizeError) with
        worker := .filtering drained rest batch }

/-- Handing out row `i`, `scheduler.cpp:208–215`. A `future_error` from `set_value` lands in
the `catch` block, which starts over with the whole batch. -/
def deliverStep (cfg : SchedulerConfig) (s : Scheduler F)
    (drained batch : List (InferenceRequest F)) (out : FloatVec F) (i : Nat) : Scheduler F :=
  match batch[i]? with
  | none => { s with worker := .waiting .entry }
  | some req =>
    if s.satisfied req.resultPromise then
      { s with worker := .failing drained batch batch alreadySatisfied }
    else
      { s.resolve req.resultPromise (.ok (sliceResult cfg out i req)) with
        worker := .delivering drained batch out (i + 1) }

/-- The loop of the `catch` block, `scheduler.cpp:221–223`. -/
def failStep (s : Scheduler F) (drained batch todo : List (InferenceRequest F))
    (eptr : CppException) : Scheduler F :=
  match todo with
  | [] => { s with worker := .waiting .entry }
  | req :: rest =>
    if s.satisfied req.resultPromise then { s with worker := .terminated }
    else
      { s.resolve req.resultPromise (.error eptr) with
        worker := .failing drained batch rest eptr }

/-- `Scheduler::submit` up to the end of `push`'s locked section, `scheduler.cpp:78–84`. -/
def submit (s : Scheduler F) (requestId : Nat) (inputData : List F) (arrivalTime : Int) :
    Scheduler F :=
  let req : InferenceRequest F :=
    { requestId, inputData, arrivalTime, resultPromise := s.submits.length }
  match s.queue.push req with
  | (true, queue) =>
    { s with queue, notifies := s.notifies + 1, submits := s.submits ++ [(req, .ok ())] }
  | (false, _) => { s with submits := s.submits ++ [(req, .error stoppedError)] }

/-- What a locked section of `wait_and_drain` leads to in `run_loop`,
`scheduler.cpp:137–146`. -/
def pollStep (s : Scheduler F) (o : WaitOutcome (InferenceRequest F))
    (queue : RequestQueue (InferenceRequest F)) : Scheduler F :=
  match o with
  | .blocked p => { s with queue, worker := .waiting p }
  | .returned [] => { s with queue, worker := .drainedEmpty }
  | .returned (req :: rest) =>
    { s with
      queue
      worker := .filtering (req :: rest) (req :: rest) []
      drains := s.drains ++ [req :: rest] }

/-- The worker's own events. -/
def workerStep (cfg : SchedulerConfig) (s : Scheduler F) : Event F → Option (Scheduler F)
  | .poll =>
    match s.worker with
    | .waiting p => (s.queue.waitAndDrain cfg.maxBatchSize cfg.maxWait p).map
        fun r ↦ s.pollStep r.1 r.2
    | _ => none
  | .checkRunning =>
    match s.worker with
    | .drainedEmpty =>
      some { s with worker := if s.running then .waiting .entry else .exited }
    | _ => none
  | .filter =>
    match s.worker with
    | .filtering drained todo batch => some (s.filterStep cfg drained todo batch)
    | _ => none
  | .account dequeuedAt =>
    match s.worker with
    | .batched drained batch =>
      some
        { s with
          worker := .executing drained batch (concatInputs batch)
          stats := s.stats.countBatch batch dequeuedAt }
    | _ => none
  | .infer answer execUs =>
    match s.worker with
    | .executing drained batch batchedInput =>
      some
        { s with
          worker := .afterAnswer cfg drained batch answer
          stats := s.stats.countExec execUs
          calls := s.calls ++
            [{ drained, batchedInput, batchSize := batch.length, inputElems := cfg.inputElems,
               outputElems := cfg.outputElems, answer }] }
    | _ => none
  | .deliver =>
    match s.worker with
    | .delivering drained batch out i => some (s.deliverStep cfg drained batch out i)
    | _ => none
  | .fail =>
    match s.worker with
    | .failing drained batch todo e => some (s.failStep drained batch todo e)
    | _ => none
  | _ => none

/-- The events of the thread that calls `start` and `stop`, `scheduler.cpp:48–65`. -/
def callerStep (s : Scheduler F) : Event F → Option (Scheduler F)
  | .start =>
    if s.caller = .idle then
      some (if s.running then s else { s with running := true, caller := .spawning })
    else none
  | .spawn =>
    if s.caller = .spawning then
      some
        { s with
          caller := .idle
          -- assigning over a joinable `std::thread` terminates the program
          worker := match s.worker with
            | .absent => .waiting .entry
            | _ => .terminated }
    else none
  | .stop =>
    if s.caller = .idle then some { s with running := false, caller := .stopping } else none
  | .shutdown =>
    if s.caller = .stopping then
      some { s with queue := s.queue.shutdown, caller := .notifying }
    else none
  | .notifyAll =>
    if s.caller = .notifying then
      some { s with worker := s.worker.wake, caller := .joining }
    else none
  | .join =>
    if s.caller = .joining then
      match s.worker with
      | .absent => some { s with caller := .idle }
      | .exited => some { s with worker := .absent, caller := .idle }
      | _ => none
    else none
  | _ => none

/-- One event of the scheduler and its threads. -/
def step (cfg : SchedulerConfig) (s : Scheduler F) (e : Event F) : Option (Scheduler F) :=
  match e with
  | .submit requestId inputData arrivalTime => some (s.submit requestId inputData arrivalTime)
  | .notifyOne =>
    if 0 < s.notifies then
      some { s with notifies := s.notifies - 1, worker := s.worker.wake }
    else none
  | .wake =>
    match s.worker with
    | .waiting p => if p.isParked then some { s with worker := .waiting p.wake } else none
    | _ => none
  | .expire =>
    match s.worker with
    | .waiting .window => some { s with worker := .waiting .windowExpired }
    | _ => none
  | .resetStats => some { s with stats := {} }
  | .start | .spawn | .stop | .shutdown | .notifyAll | .join => s.callerStep e
  | _ => s.workerStep cfg e

/-- A scheduler as its constructor leaves it. -/
def init : Scheduler F := {}

/-- A submit before shutdown queues the request and returns its future. -/
theorem submit_open (s : Scheduler F) (requestId : Nat) (inputData : List F)
    (arrivalTime : Int) (h : s.queue.stopRequested = false) :
    s.submit requestId inputData arrivalTime =
      { s with
        queue := { s.queue with queue := s.queue.queue ++
          [⟨requestId, inputData, arrivalTime, s.submits.length⟩] }
        notifies := s.notifies + 1
        submits := s.submits ++
          [(⟨requestId, inputData, arrivalTime, s.submits.length⟩, .ok ())] } := by
  simp only [submit, RequestQueue.push, h, Bool.false_eq_true, ↓reduceIte]

/-- A submit after shutdown throws and changes nothing else. -/
theorem submit_stopped (s : Scheduler F) (requestId : Nat) (inputData : List F)
    (arrivalTime : Int) (h : s.queue.stopRequested = true) :
    s.submit requestId inputData arrivalTime =
      { s with
        submits := s.submits ++
          [(⟨requestId, inputData, arrivalTime, s.submits.length⟩, .error stoppedError)] } := by
  simp only [submit, RequestQueue.push, h, ↓reduceIte]

/-- The worker events, with the point of `run_loop` each of them starts from. -/
inductive WorkerStep (cfg : SchedulerConfig) (s : Scheduler F) : Event F → Scheduler F → Prop where
  | poll (p : WaitPoint) (o : WaitOutcome (InferenceRequest F))
      (q : RequestQueue (InferenceRequest F)) (hw : s.worker = .waiting p)
      (hq : s.queue.waitAndDrain cfg.maxBatchSize cfg.maxWait p = some (o, q)) :
      WorkerStep cfg s .poll (s.pollStep o q)
  | checkRunning (hw : s.worker = .drainedEmpty) :
      WorkerStep cfg s .checkRunning
        { s with worker := if s.running then .waiting .entry else .exited }
  | filter (d todo batch : List (InferenceRequest F)) (hw : s.worker = .filtering d todo batch) :
      WorkerStep cfg s .filter (s.filterStep cfg d todo batch)
  | account (d batch : List (InferenceRequest F)) (dequeuedAt : Int)
      (hw : s.worker = .batched d batch) :
      WorkerStep cfg s (.account dequeuedAt)
        { s with
          worker := .executing d batch (concatInputs batch)
          stats := s.stats.countBatch batch dequeuedAt }
  | infer (d batch : List (InferenceRequest F)) (input : List F) (answer : InferenceAnswer F)
      (execUs : Nat) (hw : s.worker = .executing d batch input) :
      WorkerStep cfg s (.infer answer execUs)
        { s with
          worker := .afterAnswer cfg d batch answer
          stats := s.stats.countExec execUs
          calls := s.calls ++
            [⟨d, input, batch.length, cfg.inputElems, cfg.outputElems, answer⟩] }
  | deliver (d batch : List (InferenceRequest F)) (out : FloatVec F) (i : Nat)
      (hw : s.worker = .delivering d batch out i) :
      WorkerStep cfg s .deliver (s.deliverStep cfg d batch out i)
  | fail (d batch todo : List (InferenceRequest F)) (eptr : CppException)
      (hw : s.worker = .failing d batch todo eptr) :
      WorkerStep cfg s .fail (s.failStep d batch todo eptr)

/-- Every enabled event, with what it needs and what it does. -/
inductive Step (cfg : SchedulerConfig) (s : Scheduler F) : Event F → Scheduler F → Prop where
  | submitOpen (requestId : Nat) (inputData : List F) (arrivalTime : Int)
      (hq : s.queue.stopRequested = false) :
      Step cfg s (.submit requestId inputData arrivalTime)
        { s with
          queue := { s.queue with queue := s.queue.queue ++
            [⟨requestId, inputData, arrivalTime, s.submits.length⟩] }
          notifies := s.notifies + 1
          submits := s.submits ++
            [(⟨requestId, inputData, arrivalTime, s.submits.length⟩, .ok ())] }
  | submitStopped (requestId : Nat) (inputData : List F) (arrivalTime : Int)
      (hq : s.queue.stopRequested = true) :
      Step cfg s (.submit requestId inputData arrivalTime)
        { s with
          submits := s.submits ++
            [(⟨requestId, inputData, arrivalTime, s.submits.length⟩, .error stoppedError)] }
  | notifyOne (hn : 0 < s.notifies) :
      Step cfg s .notifyOne { s with notifies := s.notifies - 1, worker := s.worker.wake }
  | wake (p : WaitPoint) (hw : s.worker = .waiting p) (hp : p.isParked = true) :
      Step cfg s .wake { s with worker := .waiting p.wake }
  | expire (hw : s.worker = .waiting .window) :
      Step cfg s .expire { s with worker := .waiting .windowExpired }
  | resetStats : Step cfg s .resetStats { s with stats := {} }
  | startAgain (hc : s.caller = .idle) (hr : s.running = true) : Step cfg s .start s
  | start (hc : s.caller = .idle) (hr : s.running = false) :
      Step cfg s .start { s with running := true, caller := .spawning }
  | spawn (hc : s.caller = .spawning) (hw : s.worker = .absent) :
      Step cfg s .spawn { s with caller := .idle, worker := .waiting .entry }
  | spawnOver (hc : s.caller = .spawning) (hw : s.worker ≠ .absent) :
      Step cfg s .spawn { s with caller := .idle, worker := .terminated }
  | stop (hc : s.caller = .idle) :
      Step cfg s .stop { s with running := false, caller := .stopping }
  | shutdown (hc : s.caller = .stopping) :
      Step cfg s .shutdown { s with queue := s.queue.shutdown, caller := .notifying }
  | notifyAll (hc : s.caller = .notifying) :
      Step cfg s .notifyAll { s with worker := s.worker.wake, caller := .joining }
  | join (hc : s.caller = .joining) (hw : s.worker = .absent ∨ s.worker = .exited) :
      Step cfg s .join { s with worker := .absent, caller := .idle }
  | worker {e : Event F} {t : Scheduler F} (h : WorkerStep cfg s e t) : Step cfg s e t

variable {cfg : SchedulerConfig} {s t : Scheduler F} {e : Event F}

private theorem workerStep_cases (h : s.workerStep cfg e = some t) : WorkerStep cfg s e t := by
  cases e with
  | poll =>
    cases hw : s.worker with
    | waiting p =>
      simp only [workerStep, hw, Option.map_eq_some_iff] at h
      obtain ⟨⟨o, q⟩, hq, rfl⟩ := h
      exact .poll p o q hw hq
    | _ => simp [workerStep, hw] at h
  | checkRunning =>
    cases hw : s.worker with
    | drainedEmpty =>
      simp only [workerStep, hw, Option.some.injEq] at h
      subst h
      exact .checkRunning hw
    | _ => simp [workerStep, hw] at h
  | filter =>
    cases hw : s.worker with
    | filtering d todo batch =>
      simp only [workerStep, hw, Option.some.injEq] at h
      subst h
      exact .filter d todo batch hw
    | _ => simp [workerStep, hw] at h
  | account dequeuedAt =>
    cases hw : s.worker with
    | batched d batch =>
      simp only [workerStep, hw, Option.some.injEq] at h
      subst h
      exact .account d batch dequeuedAt hw
    | _ => simp [workerStep, hw] at h
  | infer answer execUs =>
    cases hw : s.worker with
    | executing d batch input =>
      simp only [workerStep, hw, Option.some.injEq] at h
      subst h
      exact .infer d batch input answer execUs hw
    | _ => simp [workerStep, hw] at h
  | deliver =>
    cases hw : s.worker with
    | delivering d batch out i =>
      simp only [workerStep, hw, Option.some.injEq] at h
      subst h
      exact .deliver d batch out i hw
    | _ => simp [workerStep, hw] at h
  | fail =>
    cases hw : s.worker with
    | failing d batch todo e =>
      simp only [workerStep, hw, Option.some.injEq] at h
      subst h
      exact .fail d batch todo e hw
    | _ => simp [workerStep, hw] at h
  | _ => simp [workerStep] at h

private theorem callerStep_cases (h : s.callerStep e = some t) : Step cfg s e t := by
  cases e with
  | start =>
    simp only [callerStep, Option.ite_none_right_eq_some, Option.some.injEq] at h
    obtain ⟨hc, rfl⟩ := h
    split
    · next hr => exact .startAgain hc hr
    · next hr => exact .start hc (Bool.not_eq_true _ ▸ hr)
  | spawn =>
    simp only [callerStep, Option.ite_none_right_eq_some, Option.some.injEq] at h
    obtain ⟨hc, rfl⟩ := h
    cases hw : s.worker with
    | absent => exact .spawn hc hw
    | _ => exact .spawnOver hc (by rw [hw]; simp)
  | stop =>
    simp only [callerStep, Option.ite_none_right_eq_some, Option.some.injEq] at h
    obtain ⟨hc, rfl⟩ := h
    exact .stop hc
  | shutdown =>
    simp only [callerStep, Option.ite_none_right_eq_some, Option.some.injEq] at h
    obtain ⟨hc, rfl⟩ := h
    exact .shutdown hc
  | notifyAll =>
    simp only [callerStep, Option.ite_none_right_eq_some, Option.some.injEq] at h
    obtain ⟨hc, rfl⟩ := h
    exact .notifyAll hc
  | join =>
    simp only [callerStep, Option.ite_none_right_eq_some] at h
    obtain ⟨hc, h⟩ := h
    cases hw : s.worker with
    | absent =>
      simp only [hw, Option.some.injEq] at h
      subst h
      exact .join hc (.inl hw)
    | exited =>
      simp only [hw, Option.some.injEq] at h
      subst h
      exact .join hc (.inr hw)
    | _ => simp [hw] at h
  | _ => simp [callerStep] at h

/-- Everything one event can do. -/
theorem step_cases (h : s.step cfg e = some t) : Step cfg s e t := by
  cases e with
  | submit requestId inputData arrivalTime =>
    simp only [step, Option.some.injEq] at h
    subst h
    cases hq : s.queue.stopRequested with
    | true =>
      rw [submit_stopped _ _ _ _ hq]
      exact .submitStopped requestId inputData arrivalTime hq
    | false =>
      rw [submit_open _ _ _ _ hq]
      exact .submitOpen requestId inputData arrivalTime hq
  | notifyOne =>
    simp only [step, Option.ite_none_right_eq_some, Option.some.injEq] at h
    obtain ⟨hn, rfl⟩ := h
    exact .notifyOne hn
  | wake =>
    cases hw : s.worker with
    | waiting p =>
      simp only [step, hw, Option.ite_none_right_eq_some, Option.some.injEq] at h
      obtain ⟨hp, rfl⟩ := h
      exact .wake p hw hp
    | _ => simp [step, hw] at h
  | expire =>
    cases hw : s.worker with
    | waiting p =>
      cases p with
      | window =>
        simp only [step, hw, Option.some.injEq] at h
        subst h
        exact .expire hw
      | _ => simp [step, hw] at h
    | _ => simp [step, hw] at h
  | resetStats =>
    simp only [step, Option.some.injEq] at h
    subst h
    exact .resetStats
  | start => exact callerStep_cases (e := .start) h
  | spawn => exact callerStep_cases (e := .spawn) h
  | stop => exact callerStep_cases (e := .stop) h
  | shutdown => exact callerStep_cases (e := .shutdown) h
  | notifyAll => exact callerStep_cases (e := .notifyAll) h
  | join => exact callerStep_cases (e := .join) h
  | poll => exact .worker (workerStep_cases (e := .poll) h)
  | checkRunning => exact .worker (workerStep_cases (e := .checkRunning) h)
  | filter => exact .worker (workerStep_cases (e := .filter) h)
  | account dequeuedAt => exact .worker (workerStep_cases (e := .account dequeuedAt) h)
  | infer answer execUs => exact .worker (workerStep_cases (e := .infer answer execUs) h)
  | deliver => exact .worker (workerStep_cases (e := .deliver) h)
  | fail => exact .worker (workerStep_cases (e := .fail) h)

end Scheduler
end InferenceServer.Batching
