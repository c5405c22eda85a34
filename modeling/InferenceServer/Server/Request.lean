import InferenceServer.Server.Admission
import InferenceServer.Server.Native

/-!
# One HTTP request

Library `Server`. `python/cuda_db/server/admission.py:127–281`,
`python/cuda_db/server/security.py:82–115` and `python/cuda_db/server/routes.py:34–123`. A
request is up to three tasks of the event loop (the middleware, the application and the
disconnect watcher) and one native call. A step is the code of one of them between two awaits,
or one locked section. Nothing is assumed about when the client sends, when a task is
cancelled, or how soon it acknowledges that; a task that awaits another resumes only after
the other is done. Histories (`reads`, `submission`, `sent`) are written and never read.
-/

namespace InferenceServer.Server

/-- A message from the client. -/
inductive Message where
  | request (body : Bytes) (moreBody : Bool)
  | disconnect
  | other
  deriving DecidableEq, Repr

/-- A response the server starts. -/
structure Response where
  status : Nat
  detail : String := ""
  deriving DecidableEq, Repr

/-- How a task ended. -/
inductive TaskResult where
  | returned
  | raised (e : PyException)
  | cancelled
  deriving DecidableEq, Repr

/-- Where the middleware task stands. -/
inductive Middleware where
  | entry
  /-- awaiting its own response, with no lease -/
  | rejecting (response : Response) (started : Bool)
  /-- awaiting the application in this task -/
  | through
  /-- top of the loop in `_read_body` -/
  | uploadTop
  /-- awaiting a message in `_read_body` -/
  | uploadWait
  /-- awaiting its own response, with the lease -/
  | refusing (response : Response) (started : Bool)
  /-- in `asyncio.wait` -/
  | racing
  /-- the application ended first: awaiting the cancelled watcher -/
  | settleWatcher
  /-- awaiting the cancelled application -/
  | settleApp (disconnected : Bool)
  /-- deadline: awaiting the cancelled watcher -/
  | expireWatcher
  /-- `finally`: awaiting the application -/
  | unwindApp
  /-- `finally`: awaiting the watcher -/
  | unwindWatcher
  /-- `finish_http` is about to take the lease's lock -/
  | finishing
  /-- `finish_http` is about to call `_release` -/
  | releasing
  | done
  deriving DecidableEq, Repr

/-- Where the application stands. -/
inductive AppTask where
  | idle
  | created
  /-- awaiting the body on the client's own channel -/
  | reading (body : Bytes)
  /-- `executor.submit` returned, `attach_work` is next -/
  | submitted
  /-- the lease has the future, `add_done_callback` is next -/
  | attached
  /-- `wrap_future` is next -/
  | registered
  /-- awaiting the shielded future -/
  | awaiting
  | responding (response : Response)
  | respondingBody
  | done (result : TaskResult)
  deriving DecidableEq, Repr

/-- The application task is over, or was never created. -/
def AppTask.isOver : AppTask → Bool
  | .idle => true
  | .done _ => true
  | _ => false

/-- The application is at an await, or was not run yet. -/
def AppTask.isAwait : AppTask → Bool
  | .created => true
  | .reading _ => true
  | .awaiting => true
  | .responding _ => true
  | .respondingBody => true
  | _ => false

/-- Where the disconnect watcher stands. -/
inductive Watcher where
  | idle
  | running
  | done (failed : Bool)
  deriving DecidableEq, Repr

/-- The watcher is over, or was never created. -/
def Watcher.isOver : Watcher → Bool
  | .running => false
  | _ => true

/-- A message the server took from the client, and what it knew of the request then. -/
structure ClientRead where
  message : Message
  clientKeyId : Option String
  leased : Bool
  deriving DecidableEq, Repr

/-- A call of `executor.submit`, and what the request looked like then. -/
structure Submission (F : Type) where
  array : List F
  deadline : Nat
  checkedAt : Nat
  lease : Option AdmissionLease
  clientKeyId : Option String
  deriving DecidableEq

/-- One request. -/
structure Request (F : Type) where
  scope : Scope
  middleware : Middleware := .entry
  /-- `scope["cuda_db.client_key_id"]` -/
  clientKeyId : Option String := none
  /-- the store that `authenticate` read when it accepted -/
  acceptedBy : Option (List ApiKeyRecord) := none
  /-- `scope["cuda_db.admission_lease"]` -/
  lease : Option AdmissionLease := none
  /-- `scope["cuda_db.deadline"]` -/
  deadline : Option Nat := none
  body : Bytes := []
  app : AppTask := .idle
  appCancel : Bool := false
  watcher : Watcher := .idle
  watcherCancel : Bool := false
  responseStarted : Bool := false
  work : Option (Work F) := none
  submission : Option (Submission F) := none
  reads : List ClientRead := []
  sent : List Response := []
  deriving DecidableEq

/-- What a step of a request does to the state that all share. -/
inductive Effect where
  | none
  | acquire
  | release
  /-- the server is taken out of service -/
  | outOfService (detail : String)
  deriving DecidableEq, Repr

/-- The state that requests and the lifespan share. An executor is a flag that it was shut
down, a runtime a flag that its scheduler was stopped. -/
structure Shared where
  now : Nat := 0
  admission : AdmissionController
  ready : Bool := false
  readinessDetail : String := "not started"
  digests : Option (List ApiKeyRecord)
  executors : List Bool := []
  runtimes : List Bool := []
  deriving DecidableEq, Repr

namespace Shared

/-- `app.state.executor`: the newest. -/
def executor (g : Shared) : Option Nat :=
  if g.executors.isEmpty then none else some (g.executors.length - 1)

/-- `app.state.runtime`: the newest. -/
def runtime (g : Shared) : Option Nat :=
  if g.runtimes.isEmpty then none else some (g.runtimes.length - 1)

/-- The executor takes no more work. -/
def isShutdown (g : Shared) (i : Nat) : Bool := (g.executors[i]?).getD false

/-- The scheduler of a runtime is stopped. -/
def isStopped (g : Shared) (i : Nat) : Bool := (g.runtimes[i]?).getD false

/-- `GET /readyz`, `routes.py:151–155`. -/
def readyz (g : Shared) : Nat := if g.ready then 200 else 503

/-- `_finish_native_future` and `_inference_error` on an `InferenceError`,
`routes.py:40–43`, `app.py:153–156`. -/
def outOfService (g : Shared) (detail : String) : Shared :=
  { g with ready := false, readinessDetail := detail, admission := g.admission.close }

/-- The effect of a step. -/
def apply (g : Shared) : Effect → Shared
  | .none => g
  | .acquire => { g with admission := { g.admission with inflight := g.admission.inflight + 1 } }
  | .release => { g with admission := g.admission.release }
  | .outOfService detail => g.outOfService detail

end Shared

variable {F : Type}

/-! ### Bodies -/

/-- `np.frombuffer(body, dtype="<f4")`; a remainder is no element. -/
def frombuffer (float32OfBytes : UInt8 → UInt8 → UInt8 → UInt8 → F) : Bytes → List F
  | a :: b :: c :: d :: rest => float32OfBytes a b c d :: frombuffer float32OfBytes rest
  | _ => []

/-- The array of `predict` or `predict_raw`, or the response instead,
`routes.py:88–123`, `app.py:174–177`. -/
def decodeBody (cfg : Config F) (scope : Scope) (body : Bytes) : Except Response (List F) :=
  let inputElems := cfg.inputElems
  match scope.route with
  | .predict =>
    match cfg.parsePrediction scope.headers body with
    | none => .error ⟨422, "invalid request"⟩
    | some input =>
      let got := input.length
      if got ≠ inputElems then
        .error ⟨400, s!"expected {inputElems} input elements, got {got}"⟩
      else .ok (input.map cfg.float32)
  | .predictRaw =>
    let expectedBytes := inputElems * 4
    let got := body.length
    if got ≠ expectedBytes then
      .error ⟨400, s!"expected {expectedBytes} bytes ({inputElems} float32 values), got {got}"⟩
    else .ok (frombuffer cfg.float32OfBytes body)
  | .other => .error ⟨404, "Not Found"⟩

/-- `_content_length`, `admission.py:273–281`. -/
def contentLength (parseInt : Bytes → Option Int) : List (Bytes × Bytes) → Option Int
  | [] => none
  | (name, value) :: headers =>
    if name.map lowerByte = asciiBytes "content-length" then (parseInt value).map (max 0)
    else contentLength parseInt headers

namespace Request

/-! ### The middleware task -/

/-- The `finally` block up to its first await, `admission.py:221–228`. -/
def unwind (r : Request F) : Request F :=
  { r with middleware := .unwindApp, appCancel := true, watcherCancel := true }

/-- A message taken from the client. -/
def logRead (r : Request F) (m : Message) : Request F :=
  { r with reads := r.reads ++ [⟨m, r.clientKeyId, r.lease.isSome⟩] }

/-- `PredictionAdmissionMiddleware.__call__` up to its first await, `admission.py:128–158`. -/
def admitRequest (cfg : Config F) (g : Shared) (r : Request F) : Request F × Effect :=
  if r.scope.admitted then
    match g.admission.tryAcquire with
    | none =>
      ({ r with middleware :=
          .rejecting ⟨503, "inference capacity is full or the server is draining"⟩ false }, .none)
    | some _ =>
      let r := { r with lease := some {}, deadline := some (g.now + cfg.requestTimeoutMs) }
      match contentLength cfg.parseInt r.scope.headers with
      | none => ({ r with middleware := .uploadTop }, .acquire)
      | some length =>
        if (cfg.maxRequestBytes : Int) < length then
          ({ r with middleware := .refusing ⟨413, "request body is too large"⟩ false }, .acquire)
        else ({ r with middleware := .uploadTop }, .acquire)
  else ({ r with middleware := .through, app := .created }, .none)

/-- `AuthenticationMiddleware.__call__` and on to the first await, `security.py:82–115`. -/
def enter (cfg : Config F) (g : Shared) (r : Request F) : Request F × Effect :=
  if r.scope.protected cfg.authRequired then
    match authenticate cfg.sha256 cfg.authRequired g.digests r.scope.headers with
    | none => ({ r with middleware := .rejecting ⟨401, "authentication required"⟩ false }, .none)
    | some keyId => admitRequest cfg g { r with clientKeyId := some keyId, acceptedBy := g.digests }
  else admitRequest cfg g r

/-- One message of the upload, `admission.py:244–258`, and the two tasks once the body is
complete, `admission.py:190–193`. -/
def upload (cfg : Config F) (r : Request F) : Message → Request F
  | .disconnect => r.unwind
  | .other => { r with middleware := .uploadTop }
  | .request chunk moreBody =>
    if cfg.maxRequestBytes < r.body.length + chunk.length then
      { r with middleware := .refusing ⟨413, "request body is too large"⟩ false }
    else
      let r := { r with body := r.body ++ chunk }
      if moreBody then { r with middleware := .uploadTop }
      else { r with middleware := .racing, app := .created, watcher := .running }

/-- What the middleware task does next. -/
inductive MiddlewareEvent where
  | enter
  /-- its own response goes out, one message at a time -/
  | send
  /-- a cancellation, or a failing `send` or `receive`, at an await -/
  | interrupt
  | pollUpload
  | message (m : Message)
  | uploadTimeout
  /-- what it awaits is there -/
  | resume
  | finishHttp
  | release

/-- The deadline has passed. -/
def expired (g : Shared) (r : Request F) : Bool :=
  match r.deadline with
  | none => false
  | some deadline => decide (deadline ≤ g.now)

/-- Going on after an await that completed, `admission.py:194–232`. -/
def resume (g : Shared) (r : Request F) : Option (Request F) :=
  match r.middleware with
  | .through => if r.app.isOver then some { r with middleware := .done } else none
  | .racing =>
    if r.app.isOver then some { r with middleware := .settleWatcher, watcherCancel := true }
    else if r.watcher.isOver ∨ r.expired g then
      some { r with middleware := .settleApp r.watcher.isOver, appCancel := true }
    else none
  | .settleWatcher => if r.watcher.isOver then some r.unwind else none
  | .settleApp disconnected =>
    match r.app with
    | .done (.raised _) => some r.unwind
    | .done _ =>
      if disconnected then some r.unwind
      else some { r with middleware := .expireWatcher, watcherCancel := true }
    | _ => none
  | .expireWatcher =>
    if r.watcher.isOver then
      if r.watcher = .done true ∨ r.responseStarted then some r.unwind
      else some { r with middleware := .refusing ⟨504, "inference deadline exceeded"⟩ false }
    else none
  | .unwindApp => if r.app.isOver then some { r with middleware := .unwindWatcher } else none
  | .unwindWatcher => if r.watcher.isOver then some { r with middleware := .finishing } else none
  | _ => none

/-- A cancellation at an await; one that arrives while another task is awaited goes to that
task. -/
def interrupt (r : Request F) : Option (Request F) :=
  match r.middleware with
  | .rejecting _ _ => some { r with middleware := .done }
  | .uploadWait => some r.unwind
  | .refusing _ _ => some r.unwind
  | .racing => some r.unwind
  | .through => some { r with appCancel := true }
  | .settleApp _ => some { r with appCancel := true }
  | .unwindApp => some { r with appCancel := true }
  | .settleWatcher => some { r with watcherCancel := true }
  | .expireWatcher => some { r with watcherCancel := true }
  | .unwindWatcher => some { r with watcherCancel := true }
  | _ => none

/-- A step of the middleware task. -/
def middlewareStep (cfg : Config F) (g : Shared) (r : Request F) :
    MiddlewareEvent → Option (Request F × Effect)
  | .enter => if r.middleware = .entry then some (r.enter cfg g) else none
  | .send =>
    match r.middleware with
    | .rejecting response false =>
      some ({ r with middleware := .rejecting response true, sent := r.sent ++ [response] }, .none)
    | .rejecting _ true => some ({ r with middleware := .done }, .none)
    | .refusing response false =>
      some ({ r with middleware := .refusing response true, sent := r.sent ++ [response] }, .none)
    | .refusing _ true => some (r.unwind, .none)
    | _ => none
  | .interrupt => r.interrupt.map (·, .none)
  | .pollUpload =>
    if r.middleware = .uploadTop then
      if r.expired g then
        some ({ r with middleware := .refusing ⟨408, "request body deadline exceeded"⟩ false },
          .none)
      else some ({ r with middleware := .uploadWait }, .none)
    else none
  | .message m =>
    if r.middleware = .uploadWait then some ((r.logRead m).upload cfg m, .none) else none
  | .uploadTimeout =>
    if r.middleware = .uploadWait ∧ r.expired g then
      some ({ r with middleware := .refusing ⟨408, "request body deadline exceeded"⟩ false }, .none)
    else none
  | .resume => (r.resume g).map (·, .none)
  | .finishHttp =>
    if r.middleware = .finishing then
      r.lease.map fun l ↦
        ({ r with
            lease := some l.finishHttp.1
            middleware := if l.finishHttp.2 then .releasing else .done }, .none)
    else none
  | .release =>
    if r.middleware = .releasing then some ({ r with middleware := .done }, .release) else none

/-! ### The application -/

/-- What the application does next. -/
inductive AppEvent where
  /-- routing; the answer of a route that takes no tensor is `response` -/
  | start (response : Response)
  | message (m : Message)
  | attach
  | register
  | wrap
  | resume
  | send
  | fail (e : PyException)
  | cancelled

/-- `predict` or `predict_raw` once the body is there, up to `executor.submit`,
`routes.py:57–74,88–123`. -/
def handle (cfg : Config F) (g : Shared) (r : Request F) (body : Bytes) : Request F :=
  match decodeBody cfg r.scope body with
  | .error response => { r with app := .responding response }
  | .ok array =>
    if array.all cfg.isfinite then
      match r.deadline with
      | none => { r with app := .done (.raised (.other "'cuda_db.deadline'")) }
      | some deadline =>
        if deadline ≤ g.now then { r with app := .responding ⟨504, "inference deadline exceeded"⟩ }
        else
          match g.executor, g.runtime with
          | some executor, some runtime =>
            if g.isShutdown executor then
              { r with app := .done (.raised
                  (.runtimeError "cannot schedule new futures after shutdown")) }
            else
              { r with
                app := .submitted
                work := some { array, executor, runtime }
                submission := some
                  { array, deadline, checkedAt := g.now, lease := r.lease
                    clientKeyId := r.clientKeyId } }
          | _, _ => { r with app := .done (.raised (.other "'State' object has no attribute")) }
    else { r with app := .responding ⟨400, "input values must all be finite"⟩ }

/-- The application resumes with the native result, `routes.py:78–85`, `app.py:152–172`. -/
def deliver (r : Request F) : NativeResult F → Request F × Effect
  | .ok _ => ({ r with app := .responding ⟨200, ""⟩ }, .none)
  | .error (.inferenceError message) =>
    ({ r with app := .responding ⟨500, "inference failed"⟩ },
      .outOfService s!"inference engine failed: {message}")
  | .error (.valueError _) => ({ r with app := .responding ⟨400, "invalid request"⟩ }, .none)
  | .error e => ({ r with app := .done (.raised e) }, .none)

/-- `lease.attach_work` up to the registration, `routes.py:75`. -/
def attach (r : Request F) : Request F :=
  match r.lease with
  | none => { r with app := .done (.raised (.other "'cuda_db.admission_lease'")) }
  | some l =>
    match l.attachWork with
    | none =>
      { r with app := .done (.raised
          (.runtimeError "an admission lease can own only one native submission")) }
    | some l => { r with app := .attached, lease := some l }

/-- `future.add_done_callback(self._work_done)`: a completed future runs it at once. -/
def register (r : Request F) (l : AdmissionLease) (w : Work F) : Request F × Effect :=
  if w.phase.isActive then
    ({ r with app := .registered, work := some { w with leaseCallback := true } }, .none)
  else
    ({ r with app := .registered, lease := some l.workDone.1 },
      if l.workDone.2 then .release else .none)

/-- `asyncio.wrap_future` and the callback on the wrapped future, `routes.py:76–77`. -/
def wrap (r : Request F) (w : Work F) : Request F :=
  if w.phase.isActive then
    { r with app := .awaiting, work := some { w with chainCallback := true } }
  else { r with app := .awaiting, work := some { w with scheduled := true } }

/-- A step of the application. -/
def appStep (cfg : Config F) (g : Shared) (r : Request F) : AppEvent → Option (Request F × Effect)
  | .start response =>
    if r.app = .created then
      match r.scope.route, r.lease with
      | .other, _ => some ({ r with app := .responding response }, .none)
      -- the admitted body is replayed without waiting for the client
      | _, some _ => some (r.handle cfg g r.body, .none)
      | _, none => some ({ r with app := .reading [] }, .none)
    else none
  | .message m =>
    match r.app with
    | .reading body =>
      match m with
      | .request chunk true => some ({ r.logRead m with app := .reading (body ++ chunk) }, .none)
      | .request chunk false => some ((r.logRead m).handle cfg g (body ++ chunk), .none)
      | .disconnect =>
        some ({ r.logRead m with app := .done (.raised (.other "ClientDisconnect")) }, .none)
      | .other => some (r.logRead m, .none)
    | _ => none
  | .attach => if r.app = .submitted then some (r.attach, .none) else none
  | .register =>
    match r.app, r.lease, r.work with
    | .attached, some l, some w => some (r.register l w)
    | _, _, _ => none
  | .wrap =>
    match r.app, r.work with
    | .registered, some w => some (r.wrap w, .none)
    | _, _ => none
  | .resume =>
    match r.app, r.work with
    | .awaiting, some w => if w.observed then w.outcome.map r.deliver else none
    | _, _ => none
  | .send =>
    match r.app with
    | .responding response =>
      some ({ r with
        app := .respondingBody
        responseStarted := true
        sent := r.sent ++ [response] }, .none)
    | .respondingBody => some ({ r with app := .done .returned }, .none)
    | _ => none
  | .fail e =>
    match r.app with
    | .reading _ => some ({ r with app := .done (.raised e) }, .none)
    | .responding _ => some ({ r with app := .done (.raised e) }, .none)
    | .respondingBody => some ({ r with app := .done (.raised e) }, .none)
    | _ => none
  | .cancelled =>
    if r.appCancel ∧ r.app.isAwait then some ({ r with app := .done .cancelled }, .none) else none

/-! ### The watcher and the native call -/

/-- What `_wait_for_disconnect` does next, `admission.py:265–270`. -/
inductive WatcherEvent where
  | message (m : Message)
  | fail
  | cancelled

def watcherStep (r : Request F) : WatcherEvent → Option (Request F)
  | .message m =>
    if r.watcher = .running then
      some { r.logRead m with watcher := if m = .disconnect then .done false else .running }
    else none
  | .fail => if r.watcher = .running then some { r with watcher := .done true } else none
  | .cancelled =>
    if r.watcher = .running ∧ r.watcherCancel then some { r with watcher := .done false } else none

/-- What the worker thread does next with the request's native call, and the event loop with
its result. -/
inductive NativeEvent (F : Type) where
  | advance (ev : WorkEvent F)
  /-- the locked section of `_work_done` -/
  | callback
  | release
  /-- `wrap_future`'s callback -/
  | chain
  /-- `_finish_native_future` -/
  | observe

/-- `_finish_native_future` on a result, `routes.py:34–54`. -/
def finishNativeFuture : NativeResult F → Effect
  | .error (.inferenceError message) => .outOfService s!"inference engine failed: {message}"
  | _ => .none

def nativeStep (cfg : Config F) (g : Shared) (r : Request F) (w : Work F) :
    NativeEvent F → Option (Request F × Effect)
  | .advance ev =>
    (w.advance cfg.inputElems g.isStopped ev).map fun w ↦ ({ r with work := some w }, .none)
  | .callback =>
    if w.phase = .completed then
      match w.leaseCallback, r.lease with
      | true, some l =>
        some ({ r with
          lease := some l.workDone.1
          work := some { w with phase := if l.workDone.2 then .releasing else .chaining } }, .none)
      | _, _ => some ({ r with work := some { w with phase := .chaining } }, .none)
    else none
  | .release =>
    if w.phase = .releasing then
      some ({ r with work := some { w with phase := .chaining } }, .release)
    else none
  | .chain =>
    if w.phase = .chaining then
      let w := { w with phase := .finished, scheduled := w.scheduled || w.chainCallback }
      some ({ r with work := some w }, .none)
    else none
  | .observe =>
    if w.scheduled ∧ w.observed = false then
      w.outcome.map fun o ↦
        ({ r with work := some { w with observed := true } }, finishNativeFuture o)
    else none

/-- What a request does next. -/
inductive Event (F : Type) where
  | middleware (ev : MiddlewareEvent)
  | app (ev : AppEvent)
  | watcher (ev : WatcherEvent)
  | native (ev : NativeEvent F)

/-- One step of a request. -/
def step (cfg : Config F) (g : Shared) (r : Request F) : Event F → Option (Request F × Effect)
  | .middleware ev => r.middlewareStep cfg g ev
  | .app ev => r.appStep cfg g ev
  | .watcher ev => (r.watcherStep ev).map (·, .none)
  | .native ev => r.work.bind fun w ↦ r.nativeStep cfg g w ev

end Request
end InferenceServer.Server
