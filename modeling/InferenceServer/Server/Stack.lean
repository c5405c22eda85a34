import InferenceServer.Server.Observability

/-!
# The middleware stack over an arbitrary application

Library `Server`. `RequestLoggingMiddleware` over `AuthenticationMiddleware` over
`PredictionAdmissionMiddleware` (`python/cuda_db/server/app.py:140–149`) on one HTTP call:
`observability.py:44–109`, `security.py:82–115`, `admission.py:127–299`. `Server.Request` follows
the routes of this server; here the application is any process, and `Server.StackRequest` shows
the two to be one coroutine. A step is the code of one task between two awaits. The answers of
`send` and `receive` are events, and so is a cancellation of the middleware task: where it awaits
another task it is passed on to that task, unless the task is over, and then it is thrown into the
await. `finishes` and `delivered` are written and never read.
-/

namespace InferenceServer.Server

open InferenceServer.Base

variable {A S F : Type}

/-- A call with an HTTP scope. -/
structure HttpCall extends AsgiCall where
  http : toAsgiCall.scope.type = "http"

/-- A call of `/predict/raw` without credentials. -/
def rawCall : HttpCall where
  scope := { type := "http", method := "POST", path := "/predict/raw", headers := [] }
  requestId := "id"
  http := rfl

/-- The application's task. -/
inductive Downstream (A S : Type) where
  | idle
  /-- `asyncio.create_task` returned, the application has not run -/
  | created
  | running (task : RunningApp A S)

namespace Downstream

/-- The outcome of awaiting the task, once that does not suspend; there may be no task. -/
def outcome : Downstream A S → Option (AppOutcome A)
  | .idle => some (.ok ())
  | .running (.ended o) => some o
  | _ => none

/-- The state in which the application takes its next turn. -/
def state (init : S) : Downstream A S → Option S
  | .created => some init
  | .running (.ready s) => some s
  | _ => none

end Downstream

/-- The task of `_wait_for_disconnect`. -/
inductive WatcherTask (A : Type) where
  | idle
  | running
  | ended (o : AppOutcome A)

/-- The outcome of awaiting the task, once that does not suspend. -/
def WatcherTask.outcome : WatcherTask A → Option (AppOutcome A)
  | .idle => some (.ok ())
  | .ended o => some o
  | .running => none

/-- Where the middleware task stands. An `Option Bytes` is the body that is sent after the
message that is awaited; an `AppOutcome` is what the `try` block ended with. -/
inductive Position (A : Type) where
  | entry
  /-- 401 or 503 -/
  | rejecting (rest : Option Bytes)
  /-- awaiting the application in this task -/
  | through
  /-- top of the loop in `_read_body` -/
  | uploadTop
  /-- awaiting a message in `_read_body` -/
  | uploadWait
  /-- 413, 408 or 504 -/
  | refusing (rest : Option Bytes)
  /-- in `asyncio.wait` -/
  | racing
  /-- the application ended first: awaiting the cancelled watcher -/
  | settleWatcher
  /-- awaiting the cancelled application -/
  | settleApp (disconnected : Bool)
  /-- deadline: awaiting the cancelled watcher -/
  | expireWatcher
  /-- `finally`: awaiting the application -/
  | unwindApp (o : AppOutcome A)
  /-- `finally`: awaiting the watcher -/
  | unwindWatcher (o : AppOutcome A)
  /-- before `finish_http` -/
  | finishing (o : AppOutcome A)
  /-- back in `RequestLoggingMiddleware` -/
  | exit (x : Exit A)

/-- One HTTP call of the stack. -/
structure Stack (A S : Type) where
  call : HttpCall
  /-- the clock in microseconds -/
  now : Nat
  /-- the variables of `RequestLoggingMiddleware` -/
  boundary : Boundary := {}
  position : Position A := .entry
  /-- `try_acquire` returned a lease -/
  leased : Bool := false
  deadline : Nat := 0
  body : Bytes := []
  replayed : Bool := false
  /-- `disconnected_event` -/
  disconnected : Bool := false
  /-- `response_started` of `PredictionAdmissionMiddleware` -/
  responseStarted : Bool := false
  app : Downstream A S := .idle
  appCancel : Bool := false
  watcher : WatcherTask A := .idle
  watcherCancel : Bool := false
  /-- calls of `lease.finish_http()` -/
  finishes : Nat := 0
  /-- what `replay_receive` returned -/
  delivered : List Message := []

namespace Stack

def start (call : HttpCall) : Stack A S := { call, now := call.started }

/-! ### The middleware task -/

/-- A message of the middlewares goes out. -/
def sendOwn (s : Stack A S) (m : Outgoing) (p : Position A) : Stack A S :=
  { s with boundary := s.boundary.trackedSend s.call.requestId .middleware m, position := p }

/-- `_json_response` up to its first await, `admission.py:284–298`. -/
def respond (s : Stack A S) (place : Option Bytes → Position A) (status : Int)
    (detail : String) (headers : List (Bytes × Bytes)) : Stack A S :=
  s.sendOwn (jsonStart status detail headers) (place (some (jsonDetail detail)))

/-- Back in `RequestLoggingMiddleware`. -/
def goto (s : Stack A S) (x : Boundary × Exit A) : Stack A S :=
  { s with boundary := x.1, position := .exit x.2 }

/-- The inner middlewares are over. -/
def leave (s : Stack A S) (o : AppOutcome A) : Stack A S :=
  s.goto (s.boundary.leave s.call.toAsgiCall s.now o)

/-- The `finally` block up to its first await, `admission.py:221–228`. -/
def unwind (s : Stack A S) (o : AppOutcome A) : Stack A S :=
  { s with position := .unwindApp o, appCancel := true, watcherCancel := true }

/-- `PredictionAdmissionMiddleware.__call__` up to its first await, `admission.py:128–158`. -/
def admitCall (cfg : Config F) (init : S) (controller : AdmissionController) (s : Stack A S) :
    Stack A S :=
  if s.call.scope.admitted then
    match controller.tryAcquire with
    | none =>
      s.respond .rejecting 503 "inference capacity is full or the server is draining"
        [(asciiBytes "retry-after", asciiBytes "1")]
    | some _ =>
      let s := { s with leased := true, deadline := s.now + cfg.requestTimeoutMs * 1000 }
      match contentLength cfg.parseInt s.call.scope.headers with
      | none => { s with position := .uploadTop }
      | some length =>
        if (cfg.maxRequestBytes : Int) < length then
          s.respond .refusing 413 "request body is too large" []
        else { s with position := .uploadTop }
  else { s with position := .through, app := .running (.ready init) }

/-- `AuthenticationMiddleware.__call__` and on to the first await, `security.py:82–115`. -/
def enter (cfg : Config F) (init : S) (digests : Option (List ApiKeyRecord))
    (controller : AdmissionController) (s : Stack A S) : Stack A S :=
  if s.call.scope.protected cfg.authRequired then
    match authenticate cfg.sha256 cfg.authRequired digests s.call.scope.headers with
    | none =>
      s.respond .rejecting 401 "authentication required"
        [(asciiBytes "www-authenticate", asciiBytes "Bearer")]
    | some keyId =>
      { s with boundary := { s.boundary with clientKeyId := some keyId } }.admitCall cfg init
        controller
  else s.admitCall cfg init controller

/-- A `send` of an own response is over. -/
def responded (s : Stack A S) (o : AppOutcome A) : Option (Stack A S) :=
  match s.position, o with
  | .rejecting (some content), .ok () => some (s.sendOwn (.body content false) (.rejecting none))
  | .rejecting _, o => some (s.leave o)
  | .refusing (some content), .ok () => some (s.sendOwn (.body content false) (.refusing none))
  | .refusing _, o => some (s.unwind o)
  | .exit (.handling exc rest), o =>
    some (s.goto (s.boundary.responded s.call.toAsgiCall s.now exc rest o))
  | _, _ => none

/-- The upload did not complete before the deadline. -/
def uploadExpired (s : Stack A S) : Stack A S :=
  s.respond .refusing 408 "request body deadline exceeded" []

/-- `receive` is over in `_read_body`, `admission.py:244–258`, and the two tasks are created when
the body is complete, `admission.py:190–193`. A `TimeoutError` of `receive` itself counts as the
deadline. -/
def upload (cfg : Config F) (s : Stack A S) : Except (Exc A) Message → Stack A S
  | .error e => if e.cls = .exception "TimeoutError" then s.uploadExpired else s.unwind (.error e)
  | .ok .disconnect => s.unwind (.ok ())
  | .ok .other => { s with position := .uploadTop }
  | .ok (.request chunk moreBody) =>
    if cfg.maxRequestBytes < s.body.length + chunk.length then
      s.respond .refusing 413 "request body is too large" []
    else
      let s := { s with body := s.body ++ chunk }
      if moreBody then { s with position := .uploadTop }
      else { s with position := .racing, app := .created, watcher := .running }

/-- `with suppress(asyncio.CancelledError): await task`, then `t`. -/
def settleOn (s : Stack A S) (o : AppOutcome A) (t : Stack A S) : Stack A S :=
  match o with
  | .ok () => t
  | .error e => if e.cls = .cancelled then t else s.unwind (.error e)

/-- `with suppress(asyncio.CancelledError, Exception): await task`, then `t`. -/
def unwindOn (s : Stack A S) (o : AppOutcome A) (t : Stack A S) : Stack A S :=
  match o with
  | .ok () => t
  | .error e => if e.cls.isBare then s.leave (.error e) else t

/-- The cancelled application is over, `admission.py:208–216`. -/
def settled (s : Stack A S) (disconnected : Bool) : Stack A S :=
  if disconnected then s.unwind (s.watcher.outcome.getD (.ok ()))
  else { s with position := .expireWatcher, watcherCancel := true }

/-- The deadline struck and both tasks are over, `admission.py:219–220`. -/
def expire (s : Stack A S) : Stack A S :=
  if s.responseStarted then s.unwind (.ok ())
  else s.respond .refusing 504 "inference deadline exceeded" []

/-- The tasks that the middleware task awaits. -/
inductive Awaited where
  | app
  | watcher
  deriving DecidableEq, Repr

/-- The task that is awaited in a position. -/
def awaited : Position A → Option Awaited
  | .settleWatcher => some .watcher
  | .settleApp _ => some .app
  | .expireWatcher => some .watcher
  | .unwindApp _ => some .app
  | .unwindWatcher _ => some .watcher
  | _ => none

def outcomeOf (s : Stack A S) : Awaited → Option (AppOutcome A)
  | .app => s.app.outcome
  | .watcher => s.watcher.outcome

/-- On from the await of a task, which gave `o`, `admission.py:201–233`. -/
def resumeWith (s : Stack A S) (o : AppOutcome A) : Option (Stack A S) :=
  match s.position with
  | .settleWatcher => some (s.settleOn o (s.unwind (s.app.outcome.getD (.ok ()))))
  | .settleApp disconnected => some (s.settleOn o (s.settled disconnected))
  | .expireWatcher => some (s.settleOn o s.expire)
  | .unwindApp p => some (s.unwindOn o { s with position := .unwindWatcher p })
  | .unwindWatcher p => some (s.unwindOn o { s with position := .finishing p })
  | _ => none

/-- What it awaits is there. -/
def wake (s : Stack A S) : Option (Stack A S) :=
  match s.position with
  | .through => s.app.outcome.map s.leave
  | .racing =>
    if s.app.outcome.isSome then
      some { s with position := .settleWatcher, watcherCancel := true }
    else if s.watcher.outcome.isSome ∨ s.deadline ≤ s.now then
      some { s with position := .settleApp s.watcher.outcome.isSome, appCancel := true }
    else none
  | p => (awaited p).bind fun task ↦ (s.outcomeOf task).bind s.resumeWith

/-- `cancel()` of the awaited task. -/
def forward (s : Stack A S) : Awaited → Stack A S
  | .app => { s with appCancel := true }
  | .watcher => { s with watcherCancel := true }

/-- The middleware task is cancelled in `asyncio.wait` or while it awaits a task. -/
def cancel (s : Stack A S) (e : Exc A) : Option (Stack A S) :=
  if e.cls = .cancelled then
    match s.position with
    | .racing => some (s.unwind (.error e))
    | p =>
      (awaited p).bind fun task ↦
        if (s.outcomeOf task).isSome then s.resumeWith (.error e) else some (s.forward task)
  else none

/-! ### The application and the watcher -/

/-- The application calls `send`, `admission.py:184–188`. -/
def appSend (s : Stack A S) (m : Outgoing) : Stack A S :=
  { s with
    responseStarted := s.responseStarted || (s.leased && m.isStart)
    boundary := s.boundary.trackedSend s.call.requestId .app m }

/-- The application goes on from an answer. -/
def ready (s : Stack A S) (st : S) : Stack A S := { s with app := .running (.ready st) }

/-- A turn of the application; the first `receive` of an admitted one returns the body. -/
def turn (s : Stack A S) : Turn AppCall (AppCall.Reply A) (Exc A) S → Stack A S
  | .ret => { s with app := .running (.ended (.ok ())) }
  | .raise e => { s with app := .running (.ended (.error e)) }
  | .call (.send m) k => { s.appSend m with app := .running (.awaiting (.send m) k) }
  | .call .receive k =>
    if s.leased && !s.replayed then
      { s with
        replayed := true
        delivered := s.delivered ++ [.request s.body false]
        app := .running (.ready (k (.ok (.request s.body false)))) }
    else { s with app := .running (.awaiting .receive k) }
  | .call .pause k => { s with app := .running (.awaiting .pause k) }
  | .call (.setClientKeyId keyId) k =>
    { s with
      boundary := { s.boundary with clientKeyId := some keyId }
      app := .running (.ready (k ())) }

/-- What happens to the application next. -/
inductive AppEvent (A : Type) where
  | turn
  /-- cancelled before it ran -/
  | cancelled (e : Exc A)
  | sent (r : AppOutcome A)
  | received (r : Except (Exc A) Message)
  | resumed (r : AppOutcome A)

/-- An admitted application receives nothing but a disconnect, and only after one. -/
def receivable (s : Stack A S) : Except (Exc A) Message → Bool
  | .error _ => true
  | .ok m => !s.leased || (s.disconnected && m == .disconnect)

/-- What `replay_receive` returned so far, with its next answer. -/
def deliver (s : Stack A S) : Except (Exc A) Message → List Message
  | .error _ => s.delivered
  | .ok m => if s.leased then s.delivered ++ [m] else s.delivered

/-- A step of the application. -/
def appStep (next : App A S) (init : S) (s : Stack A S) : AppEvent A → Option (Stack A S)
  | .turn => (s.app.state init).map fun st ↦ s.turn (next st)
  | .cancelled e =>
    match s.app with
    | .created =>
      if s.appCancel ∧ e.cls = .cancelled then some { s with app := .running (.ended (.error e)) }
      else none
    | _ => none
  | .sent o =>
    match s.app with
    | .running (.awaiting (.send m) k) => if m.admits o then some (s.ready (k o)) else none
    | _ => none
  | .received a =>
    match s.app with
    | .running (.awaiting .receive k) =>
      if s.receivable a then some ({ s with delivered := s.deliver a }.ready (k a)) else none
    | _ => none
  | .resumed o =>
    match s.app with
    | .running (.awaiting .pause k) => some (s.ready (k o))
    | _ => none

/-- `receive` is over in `_wait_for_disconnect`, `admission.py:265–270`. -/
def watched (s : Stack A S) (a : Except (Exc A) Message) : Option (Stack A S) :=
  match s.watcher, a with
  | .running, .ok .disconnect => some { s with disconnected := true, watcher := .ended (.ok ()) }
  | .running, .ok _ => some s
  | .running, .error e => some { s with watcher := .ended (.error e) }
  | _, _ => none

/-! ### Steps -/

/-- What happens next. -/
inductive Event (A : Type) where
  | tick
  | enter (digests : Option (List ApiKeyRecord)) (controller : AdmissionController)
  | responded (r : AppOutcome A)
  | poll
  | received (r : Except (Exc A) Message)
  | uploadTimeout
  | wake
  | cancel (e : Exc A)
  | finishHttp
  | app (ev : AppEvent A)
  | watched (r : Except (Exc A) Message)

/-- A step of the call. -/
def step (cfg : Config F) (next : App A S) (init : S) (s : Stack A S) :
    Event A → Option (Stack A S)
  | .tick => some { s with now := s.now + 1 }
  | .enter digests controller =>
    match s.position with
    | .entry => some (s.enter cfg init digests controller)
    | _ => none
  | .responded o => s.responded o
  | .poll =>
    match s.position with
    | .uploadTop =>
      if s.deadline ≤ s.now then some s.uploadExpired
      else some { s with position := .uploadWait }
    | _ => none
  | .received a =>
    match s.position with
    | .uploadWait => some (s.upload cfg a)
    | _ => none
  | .uploadTimeout =>
    match s.position with
    | .uploadWait => if s.deadline ≤ s.now then some s.uploadExpired else none
    | _ => none
  | .wake => s.wake
  | .cancel e => s.cancel e
  | .finishHttp =>
    match s.position with
    | .finishing o => some ({ s with finishes := s.finishes + 1 }.leave o)
    | _ => none
  | .app ev => s.appStep next init ev
  | .watched a => s.watched a

end Stack
end InferenceServer.Server
