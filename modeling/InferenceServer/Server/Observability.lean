import InferenceServer.Base.Run
import InferenceServer.Server.Asgi

/-!
# The error boundary

Library `Server`. `RequestLoggingMiddleware` of
`python/cuda_db/server/observability.py:16–115`, over an arbitrary application. A step is the
code between two awaits. What `send` answers is an event, so a run fixes the behaviour of the
server and two runs over the same events differ only in the application. An exception raised in
the `except` block gets the handled one as its `__context__`; after the block nothing is
being handled.
-/

namespace InferenceServer.Server

open InferenceServer.Base

/-- What the middleware reads of the call; `started` is `time.perf_counter()` in microseconds. -/
structure AsgiCall where
  scope : Scope
  /-- `client[0]`, where `scope["client"]` is a sequence with an element -/
  client : Option String := none
  requestId : String
  started : Nat := 0
  deriving DecidableEq, Repr

/-- What `request_logger` is given. -/
inductive LogRecord where
  | unexpectedRequestFailure (failureType requestId : String)
  | access (method endpoint : String) (status : Int) (durationUs : Nat)
      (client keyId requestId : String)
  deriving DecidableEq, Repr

/-- `_KNOWN_ENDPOINTS`, `observability.py:16–28`. -/
def knownEndpoints : List (String × String) :=
  [("/predict", "/predict"), ("/predict/", "/predict"), ("/predict/raw", "/predict/raw"),
    ("/predict/raw/", "/predict/raw"), ("/healthz", "/healthz"), ("/healthz/", "/healthz"),
    ("/readyz", "/readyz"), ("/readyz/", "/readyz"), ("/docs", "/docs"), ("/redoc", "/redoc"),
    ("/openapi.json", "/openapi.json")]

/-- `_safe_method`, `observability.py:112–115`. -/
def safeMethod (method : String) : String :=
  if ["GET", "POST", "HEAD", "OPTIONS", "PUT", "PATCH", "DELETE"].contains method then method
  else "unknown"

variable {A S S' : Type}

/-- How the call of the middleware ends. -/
inductive Leaving (A : Type) where
  | returned
  | raised (e : Exc A)
  /-- `RuntimeError("response interrupted")` with its `__cause__` and `__context__` -/
  | interrupted (cause context : Link A)
  deriving DecidableEq, Repr

/-- What leaves the middleware leads to the exception `d`. -/
def Leaving.reaches (d : Exc A) : Leaving A → Bool
  | .returned => false
  | .raised e => e.reaches d
  | .interrupted cause context => cause.mentions d.ref || context.mentions d.ref

/-- Where the middleware stands once the application is over. -/
inductive Exit (A : Type) where
  /-- in the `except` block, awaiting a message of the error response; `rest` is the body that is
  still to be sent -/
  | handling (exc : Exc A) (rest : Option Bytes)
  | ended (l : Leaving A)
  deriving DecidableEq, Repr

/-- The local variables of `RequestLoggingMiddleware.__call__`, and what it sent and logged. -/
structure Boundary where
  responseStarted : Bool := false
  responseInterrupted : Bool := false
  status : Int := 500
  /-- `scope["cuda_db.client_key_id"]` -/
  clientKeyId : Option String := none
  sent : List (Sender × Outgoing) := []
  log : List LogRecord := []
  deriving DecidableEq, Repr

/-- The headers with the server's request id and no other, `observability.py:61–66`. -/
def withRequestId (requestId : String) (headers : List (Bytes × Bytes)) : List (Bytes × Bytes) :=
  headers.filter (fun h ↦ h.1.map lowerByte ≠ asciiBytes "x-request-id") ++
    [(asciiBytes "x-request-id", asciiBytes requestId)]

namespace Boundary

/-- `tracked_send` up to the server's `send`, `observability.py:56–68`. -/
def trackedSend (requestId : String) (b : Boundary) (sender : Sender) : Outgoing → Boundary
  | .start none _ => { b with responseStarted := true }
  | .start (some status) headers =>
    { b with
      responseStarted := true
      status
      sent := b.sent ++ [(sender, .start (some status) (withRequestId requestId headers))] }
  | m => { b with sent := b.sent ++ [(sender, m)] }

/-- The `except` block up to the error response, `observability.py:73–83`. -/
def failed (requestId failureType : String) (b : Boundary) : Boundary :=
  { b with
    responseInterrupted := b.responseStarted
    log := b.log ++ [.unexpectedRequestFailure failureType requestId] }

/-- The `finally` block, `observability.py:89–105`. -/
def logAccess (c : AsgiCall) (now : Nat) (b : Boundary) : Boundary :=
  { b with
    log := b.log ++ [.access (safeMethod c.scope.method)
      ((knownEndpoints.lookup c.scope.path).getD "unknown") b.status (now - c.started)
      (c.client.getD "-") (b.clientKeyId.getD "-") c.requestId] }

/-- The `finally` block and the statement after it, `observability.py:89–109`. No exception is
being handled there. -/
def conclude (c : AsgiCall) (now : Nat) (b : Boundary) : Boundary × Exit A :=
  (b.logAccess c now,
    .ended (if b.responseInterrupted then .interrupted .none .none else .returned))

/-- From the end of `await self.app(...)` to the next await, `observability.py:70–109`. -/
def leave (c : AsgiCall) (now : Nat) (b : Boundary) : AppOutcome A → Boundary × Exit A
  | .ok () => b.conclude c now
  | .error exc =>
    match exc.cls with
    | .exception name =>
      let b := b.failed c.requestId name
      if b.responseStarted then b.conclude c now
      else
        ({ b with status := 500 }.trackedSend c.requestId .middleware
            (jsonStart 500 "internal server error" []),
          .handling exc (some (jsonDetail "internal server error")))
    | _ => (b.logAccess c now, .ended (.raised exc))

/-- From the end of a `send` of the error response to the next await. -/
def responded (c : AsgiCall) (now : Nat) (b : Boundary) (exc : Exc A) (rest : Option Bytes) :
    AppOutcome A → Boundary × Exit A
  | .error e => (b.logAccess c now, .ended (.raised (e.raisedIn (some exc))))
  | .ok () =>
    match rest with
    | some content =>
      (b.trackedSend c.requestId .middleware (.body content false), .handling exc none)
    | none => b.conclude c now

end Boundary

/-! ### The middleware over an application -/

/-- The application runs, or is over. -/
inductive Place (A S : Type) where
  | app (task : RunningApp A S)
  | exit (x : Exit A)

/-- One call of the middleware; `raised` is written and never read. -/
structure Logged (A S : Type) where
  call : AsgiCall
  now : Nat
  boundary : Boundary := {}
  place : Place A S
  /-- what the application raised -/
  raised : Option (Exc A) := none

namespace Logged

/-- What happens next. -/
inductive Event (A : Type) where
  | tick
  /-- the application runs to its next await -/
  | turn
  | sent (r : AppOutcome A)
  | received (r : Except (Exc A) Message)
  | resumed (r : AppOutcome A)
  /-- a `send` of the middleware's own response is over -/
  | responded (r : AppOutcome A)

def start (call : AsgiCall) (s : S) : Logged A S :=
  { call, now := call.started, place := .app (.ready s) }

def isHttp (r : Logged A S) : Bool := r.call.scope.type == "http"

/-- The boundary after the application called `send`. -/
def send (r : Logged A S) (m : Outgoing) : Boundary :=
  if r.isHttp then r.boundary.trackedSend r.call.requestId .app m
  else { r.boundary with sent := r.boundary.sent ++ [(.app, m)] }

def goto (r : Logged A S) (x : Boundary × Exit A) : Logged A S :=
  { r with boundary := x.1, place := .exit x.2 }

/-- The application is over, `observability.py:45–47,70–109`. -/
def leave (r : Logged A S) (o : AppOutcome A) : Logged A S :=
  if r.isHttp then r.goto (r.boundary.leave r.call r.now o)
  else
    match o with
    | .ok () => r.goto (r.boundary, .ended .returned)
    | .error e => r.goto (r.boundary, .ended (.raised e))

/-- A turn of the application. -/
def turn (r : Logged A S) : Turn AppCall (AppCall.Reply A) (Exc A) S → Logged A S
  | .ret => r.leave (.ok ())
  | .raise e => { r with raised := some e }.leave (.error e)
  | .call (.send m) k => { r with boundary := r.send m, place := .app (.awaiting (.send m) k) }
  | .call .receive k => { r with place := .app (.awaiting .receive k) }
  | .call .pause k => { r with place := .app (.awaiting .pause k) }
  | .call (.setClientKeyId keyId) k =>
    { r with
      boundary := { r.boundary with clientKeyId := some keyId }
      place := .app (.ready (k ())) }

/-- A step of the middleware and its application. -/
def step (next : App A S) (r : Logged A S) : Event A → Option (Logged A S)
  | .tick => some { r with now := r.now + 1 }
  | .turn =>
    match r.place with
    | .app (.ready s) => some (r.turn (next s))
    | _ => none
  | .sent o =>
    match r.place with
    | .app (.awaiting (.send m) k) =>
      if r.isHttp && !m.admits o then none else some { r with place := .app (.ready (k o)) }
    | _ => none
  | .received a =>
    match r.place with
    | .app (.awaiting .receive k) => some { r with place := .app (.ready (k a)) }
    | _ => none
  | .resumed o =>
    match r.place with
    | .app (.awaiting .pause k) => some { r with place := .app (.ready (k o)) }
    | _ => none
  | .responded o =>
    match r.place with
    | .exit (.handling e rest) => some (r.goto (r.boundary.responded r.call r.now e rest o))
    | _ => none

theorem call_leave (r : Logged A S) (o : AppOutcome A) : (r.leave o).call = r.call := by
  unfold Logged.leave
  split
  · rfl
  · cases o <;> rfl

theorem call_turn (r : Logged A S) (a : Turn AppCall (AppCall.Reply A) (Exc A) S) :
    (r.turn a).call = r.call := by
  cases a with
  | ret => exact call_leave r _
  | raise e => exact call_leave _ _
  | call c k => cases c <;> rfl

/-- The call does not change. -/
theorem call_step {next : App A S} {r t : Logged A S} {e : Event A}
    (h : r.step next e = some t) : t.call = r.call := by
  unfold Logged.step at h
  split at h
  · cases h
    rfl
  · split at h
    · cases h
      exact call_turn r _
    · cases h
  · split at h
    · split at h
      · cases h
      · cases h
        rfl
    · cases h
  all_goals
    split at h
    · cases h
      rfl
    · cases h

/-! ### Two applications that differ in what they raise -/

/-- The same type; messages, arguments and chains may differ. -/
def SameType (e e' : Exc A) : Prop := e.cls = e'.cls

/-- Standing at the same place, up to what was raised. -/
inductive Place.Alike (P : S → S' → Prop) : Place A S → Place A S' → Prop
  | app {task : RunningApp A S} {task' : RunningApp A S'} (h : task.Related SameType P task') :
      Alike P (.app task) (.app task')
  | handling {e e' : Exc A} (h : SameType e e') (rest : Option Bytes) :
      Alike P (.exit (.handling e rest)) (.exit (.handling e' rest))
  | ended (l l' : Leaving A) : Alike P (.exit (.ended l)) (.exit (.ended l'))

/-- Two calls that sent and logged the same. -/
structure Alike (P : S → S' → Prop) (r : Logged A S) (r' : Logged A S') : Prop where
  call : r'.call = r.call
  now : r'.now = r.now
  boundary : r'.boundary = r.boundary
  place : Place.Alike P r.place r'.place

variable {P : S → S' → Prop} {r : Logged A S} {r' : Logged A S'}

/-- Only the place changes. -/
theorem Alike.move (h : r.Alike P r') {p : Place A S} {p' : Place A S'}
    (hp : Place.Alike P p p') : Alike P { r with place := p } { r' with place := p' } :=
  ⟨h.call, h.now, h.boundary, hp⟩

theorem Alike.isHttp (h : r.Alike P r') : r'.isHttp = r.isHttp := by
  unfold Logged.isHttp
  rw [h.call]

/-- The end of the `except` and `finally` blocks depends on the type of the exception only. -/
theorem alike_boundary_leave (h : r.Alike P r') {e e' : Exc A} (he : SameType e e') :
    Alike P (r.goto (r.boundary.leave r.call r.now (.error e)))
      (r'.goto (r'.boundary.leave r'.call r'.now (.error e'))) := by
  rw [h.call, h.now, h.boundary]
  have hcls : e'.cls = e.cls := he.symm
  unfold Boundary.leave
  dsimp only
  rw [hcls]
  split
  · split
    · exact ⟨h.call, h.now, rfl, .ended _ _⟩
    · exact ⟨h.call, h.now, rfl, .handling he _⟩
  · exact ⟨h.call, h.now, rfl, .ended _ _⟩

theorem alike_leave_error (h : r.Alike P r') {e e' : Exc A} (he : SameType e e') :
    Alike P (r.leave (.error e)) (r'.leave (.error e')) := by
  unfold Logged.leave
  rw [h.isHttp]
  split
  · exact alike_boundary_leave h he
  · exact ⟨h.call, h.now, h.boundary, .ended _ _⟩

theorem alike_leave_ok (h : r.Alike P r') : Alike P (r.leave (.ok ())) (r'.leave (.ok ())) := by
  unfold Logged.leave
  rw [h.isHttp, h.call, h.now, h.boundary]
  split
  · exact ⟨h.call, h.now, rfl, .ended _ _⟩
  · exact ⟨h.call, h.now, rfl, .ended _ _⟩

/-- Alike turns lead to alike states. -/
theorem Alike.turn (h : r.Alike P r') {a : Turn AppCall (AppCall.Reply A) (Exc A) S}
    {a' : Turn AppCall (AppCall.Reply A) (Exc A) S'} (ha : a.Related SameType P a') :
    Alike P (r.turn a) (r'.turn a') := by
  cases ha with
  | ret => exact alike_leave_ok h
  | @raise e e' he =>
    have hraised : Alike P { r with raised := some e } { r' with raised := some e' } :=
      ⟨h.call, h.now, h.boundary, h.place⟩
    exact alike_leave_error hraised he
  | call c hk =>
    cases c with
    | send m =>
      refine ⟨h.call, h.now, ?_, .app (.awaiting _ hk)⟩
      show r'.send m = r.send m
      unfold Logged.send
      rw [h.isHttp, h.call, h.boundary]
    | receive => exact h.move (.app (.awaiting _ hk))
    | pause => exact h.move (.app (.awaiting _ hk))
    | setClientKeyId keyId =>
      refine ⟨h.call, h.now, ?_, .app (.ready (hk ()))⟩
      show { r'.boundary with clientKeyId := some keyId } = _
      rw [h.boundary]
      rfl

/-- Alike calls answer every event alike. -/
theorem alike_step {next : App A S} {next' : App A S'}
    (hnext : ∀ s s', P s s' → (next s).Related SameType P (next' s')) (h : r.Alike P r')
    {e : Event A} {t : Logged A S} (hstep : r.step next e = some t) :
    ∃ t', r'.step next' e = some t' ∧ t.Alike P t' := by
  obtain ⟨call, now, boundary, place, raised⟩ := r
  obtain ⟨call', now', boundary', place', raised'⟩ := r'
  obtain ⟨hcall, hnow, hboundary, hplace⟩ := h
  dsimp only at hcall hnow hboundary hplace
  subst hcall hnow hboundary
  cases e with
  | tick =>
    cases hstep
    exact ⟨_, rfl, rfl, rfl, rfl, hplace⟩
  | turn =>
    cases hplace with
    | app htask =>
      cases htask with
      | ready hs =>
        cases hstep
        refine ⟨_, rfl, Alike.turn ?_ (hnext _ _ hs)⟩
        exact ⟨rfl, rfl, rfl, .app (.ready hs)⟩
      | _ => cases hstep
    | _ => cases hstep
  | sent o =>
    cases hplace with
    | app htask =>
      cases htask with
      | awaiting c hk =>
        cases c with
        | send m =>
          simp only [Logged.step] at hstep ⊢
          split at hstep
          · cases hstep
          · next hadmits =>
            cases hstep
            refine ⟨_, if_neg hadmits, rfl, rfl, rfl, .app (.ready (hk o))⟩
        | _ => cases hstep
      | _ => cases hstep
    | _ => cases hstep
  | received a =>
    cases hplace with
    | app htask =>
      cases htask with
      | awaiting c hk =>
        cases c with
        | receive =>
          cases hstep
          exact ⟨_, rfl, rfl, rfl, rfl, .app (.ready (hk a))⟩
        | _ => cases hstep
      | _ => cases hstep
    | _ => cases hstep
  | resumed o =>
    cases hplace with
    | app htask =>
      cases htask with
      | awaiting c hk =>
        cases c with
        | pause =>
          cases hstep
          exact ⟨_, rfl, rfl, rfl, rfl, .app (.ready (hk o))⟩
        | _ => cases hstep
      | _ => cases hstep
    | _ => cases hstep
  | responded o =>
    cases hplace with
    | handling he rest =>
      cases hstep
      refine ⟨_, rfl, rfl, rfl, ?_, ?_⟩
      · cases o with
        | error e => rfl
        | ok _ => cases rest <;> rfl
      · cases o with
        | error e => exact .ended _ _
        | ok _ =>
          cases rest with
          | some m => exact .handling he _
          | none => exact .ended _ _
    | _ => cases hstep

/-! ### Chains that leave the middleware -/

/-- No `send` of the error response raised. -/
def ErrorResponseSent (es : List (Event A)) : Prop := ∀ e, Event.responded (.error e) ∉ es

variable {es : List (Event A)} {next : App A S}

/-- Any other event leaves that as it is. -/
theorem errorResponseSent_snoc {e : Event A} (he : ∀ x, e ≠ .responded (.error x)) :
    ErrorResponseSent (es ++ [e]) ↔ ErrorResponseSent es := by
  constructor
  · intro h x hmem
    exact h x (List.mem_append_left _ hmem)
  · intro h x hmem
    rcases List.mem_append.mp hmem with hold | hnew
    · exact h x hold
    · exact he x (List.mem_singleton.mp hnew).symm

/-- What the events say of the exception that the application raised. -/
def Tale (es : List (Event A)) (r : Logged A S) : Prop :=
  match r.place with
  | .app _ => r.raised = none ∧ ErrorResponseSent es
  | .exit (.handling e _) => r.raised = some e ∧ ErrorResponseSent es ∧ r.isHttp = true
  | .exit (.ended l) =>
    ∀ d, r.raised = some d → d.cls.isException = true →
      (l.reaches d = false ↔ r.isHttp = true ∧ ErrorResponseSent es)

theorem tale_start (call : AsgiCall) (s : S) : Tale [] (start call s : Logged A S) :=
  ⟨rfl, by rintro _ ⟨⟩⟩

/-- What is raised after the `except` block has no chain. -/
theorem reaches_conclude (c : AsgiCall) (now : Nat) (b : Boundary) (d : Exc A) {l : Leaving A}
    (h : (b.conclude c now).2 = .ended l) : l.reaches d = false := by
  unfold Boundary.conclude at h
  cases h
  split <;> rfl

/-- A return leaves nothing behind. -/
theorem tale_leave_ok (hraised : r.raised = none) : Tale es (r.leave (.ok ())) := by
  have hvacuous (b : Boundary) (l : Leaving A) : Tale es (r.goto (b, .ended l)) := by
    intro d hd
    rw [show (r.goto (b, .ended l)).raised = r.raised from rfl, hraised] at hd
    cases hd
  unfold Logged.leave
  split
  · exact hvacuous _ _
  · exact hvacuous _ _

/-- An `Exception` is replaced by `RuntimeError("response interrupted")`, which has no chain,
or handled while the error response goes out. -/
theorem tale_leave_error {e : Exc A} (hraised : r.raised = some e) (hes : ErrorResponseSent es) :
    Tale es (r.leave (.error e)) := by
  unfold Logged.leave
  split
  · next hhttp =>
    unfold Boundary.leave
    dsimp only
    split
    · split
      · intro d _ _
        exact iff_of_true (reaches_conclude r.call r.now _ d rfl) ⟨hhttp, hes⟩
      · exact ⟨hraised, hes, hhttp⟩
    · next hcls =>
      intro d hd hexc
      rw [show d = e from Option.some.inj (hd.symm.trans hraised)] at hexc
      cases hc : e.cls with
      | exception name => exact absurd hc (hcls name)
      | cancelled =>
        rw [hc] at hexc
        cases hexc
      | base name =>
        rw [hc] at hexc
        cases hexc
  · next hhttp =>
    intro d hd _
    rw [show d = e from Option.some.inj (hd.symm.trans hraised)]
    refine iff_of_false ?_ ?_
    · simp [Leaving.reaches, Exc.reaches]
    · rintro ⟨h, -⟩
      exact hhttp h

/-- While the application runs nothing has been raised. -/
theorem tale_turn {task : RunningApp A S} (hplace : r.place = .app task) (h : Tale es r)
    (a : Turn AppCall (AppCall.Reply A) (Exc A) S) : Tale es (r.turn a) := by
  unfold Tale at h
  rw [hplace] at h
  obtain ⟨hraised, hes⟩ := h
  cases a with
  | ret => exact tale_leave_ok hraised
  | raise e => exact tale_leave_error rfl hes
  | call c k => cases c <;> exact ⟨hraised, hes⟩

/-- The error response goes on, is over, or its `send` raises in the `except` block. -/
theorem tale_responded {exc : Exc A} {rest : Option Bytes} {o : AppOutcome A}
    (hplace : r.place = .exit (.handling exc rest)) (h : Tale es r) :
    Tale (es ++ [Event.responded o]) (r.goto (r.boundary.responded r.call r.now exc rest o)) := by
  unfold Tale at h
  rw [hplace] at h
  obtain ⟨hraised, hes, hhttp⟩ := h
  cases o with
  | error e =>
    intro d hd _
    rw [show d = exc from Option.some.inj (hd.symm.trans hraised)]
    refine iff_of_false ?_ ?_
    · show ¬ (e.raisedIn (some exc)).reaches exc = false
      rw [Exc.reaches_raisedIn]
      exact Bool.noConfusion
    · rintro ⟨-, hsent⟩
      exact hsent e (List.mem_append_right _ (List.mem_singleton.mpr rfl))
  | ok u =>
    have hok : ErrorResponseSent (es ++ [Event.responded (.ok u)]) :=
      (errorResponseSent_snoc (by rintro _ ⟨⟩)).mpr hes
    cases rest with
    | some m => exact ⟨hraised, hok, hhttp⟩
    | none =>
      intro d _ _
      exact iff_of_true (reaches_conclude r.call r.now _ d rfl) ⟨hhttp, hok⟩

/-- An event that is no answer to the error response keeps the tale. -/
theorem Tale.snoc (h : Tale es r) {e : Event A} (he : ∀ x, e ≠ .responded (.error x)) :
    Tale (es ++ [e]) r := by
  unfold Tale at h ⊢
  rw [errorResponseSent_snoc he]
  exact h

theorem tale_step (h : Tale es r) {e : Event A} {t : Logged A S}
    (hstep : r.step next e = some t) : Tale (es ++ [e]) t := by
  have hmove {task task' : RunningApp A S} (hplace : r.place = .app task)
      (he : ∀ x, e ≠ .responded (.error x)) : Tale (es ++ [e]) { r with place := .app task' } := by
    have hes := h.snoc he
    unfold Tale at hes
    rw [hplace] at hes
    exact hes
  cases e with
  | tick =>
    cases hstep
    exact h.snoc (by rintro _ ⟨⟩)
  | turn =>
    simp only [Logged.step] at hstep
    split at hstep
    · next hplace =>
      cases hstep
      exact tale_turn hplace (h.snoc (by rintro _ ⟨⟩)) _
    · cases hstep
  | sent o =>
    simp only [Logged.step] at hstep
    split at hstep
    · next hplace =>
      split at hstep
      · cases hstep
      · cases hstep
        exact hmove hplace (by rintro _ ⟨⟩)
    · cases hstep
  | received a =>
    simp only [Logged.step] at hstep
    split at hstep
    · next hplace =>
      cases hstep
      exact hmove hplace (by rintro _ ⟨⟩)
    · cases hstep
  | resumed o =>
    simp only [Logged.step] at hstep
    split at hstep
    · next hplace =>
      cases hstep
      exact hmove hplace (by rintro _ ⟨⟩)
    · cases hstep
  | responded o =>
    simp only [Logged.step] at hstep
    split at hstep
    · next hplace =>
      cases hstep
      exact tale_responded hplace h
    · cases hstep

theorem tale_exec {call : AsgiCall} {s : S} (hrun : exec (step next) (start call s) es = some r) :
    Tale es r :=
  exec_induction (P := Tale) (tale_start call s) (fun _ _ _ _ _ h hstep ↦ tale_step h hstep) hrun

/-- Two applications that differ only in the messages, arguments and chains of what they raise make
the middleware send and log the same. The exception that leaves has no chain to an `Exception` of
the application exactly when the scope is an HTTP scope and no `send` of the error response raised:
one that does raises inside the `except` block. -/
theorem contents_stay_inside_iff {next' : App A S'} {call : AsgiCall} {s : S} {s' : S'}
    (hsame : ∀ s s', P s s' → (next s).Related SameType P (next' s')) (hstart : P s s')
    (hrun : exec (step next) (start call s) es = some r) :
    (∃ r' : Logged A S', exec (step next') (start call s') es = some r' ∧
      r'.boundary.sent = r.boundary.sent ∧ r'.boundary.log = r.boundary.log) ∧
    ∀ d l, r.raised = some d → d.cls.isException = true → r.place = .exit (.ended l) →
      (l.reaches d = false ↔
        call.scope.type = "http" ∧ ∀ e, Event.responded (.error e) ∉ es) := by
  constructor
  · have halike : Alike P (start call s : Logged A S) (start call s') :=
      ⟨rfl, rfl, rfl, .app (.ready hstart)⟩
    have hlock (q : Logged A S) (q' : Logged A S') (e : Event A) (t : Logged A S)
        (h : Alike P q q') (hstep : step next q e = some t) :
        ∃ t', step next' q' e = some t' ∧ Alike P t t' := alike_step hsame h hstep
    obtain ⟨r', hrun', hend⟩ := exec_lockstep hlock hrun halike
    exact ⟨r', hrun', by rw [hend.boundary], by rw [hend.boundary]⟩
  · intro d l hraised hexc hplace
    have htale := tale_exec hrun
    unfold Tale at htale
    rw [hplace] at htale
    have hcall : r.call = call :=
      exec_preserves (P := fun r : Logged A S ↦ r.call = call) (fun _ _ _ h hstep ↦
        (call_step hstep).trans h) hrun rfl
    rw [htale d hraised hexc, isHttp, hcall, beq_iff_eq]
    rfl

/-- The application raises at once. -/
def raising (e : Exc String) : App String Unit := fun _ ↦ .raise e

def getCall : AsgiCall :=
  { scope := { type := "http", method := "GET", path := "/healthz", headers := [] }
    requestId := "id" }

def secret (text : String) : Exc String :=
  { ref := 0, cls := .exception "ValueError", args := text }

/-- Two secrets, and a `send` that works. -/
theorem contents_stay_inside_secret :
    ∃ r : Logged String Unit,
      exec (step (raising (secret "a"))) (start getCall ()) [.turn, .responded (.ok ()),
        .responded (.ok ())] = some r ∧
      (∃ r' : Logged String Unit,
        exec (step (raising (secret "b"))) (start getCall ()) [.turn, .responded (.ok ()),
          .responded (.ok ())] = some r' ∧
        r'.boundary.sent = r.boundary.sent ∧ r'.boundary.log = r.boundary.log) ∧
      r.place = .exit (.ended .returned) ∧ Leaving.returned.reaches (secret "a") = false := by
  refine ⟨_, rfl, ?_, rfl, rfl⟩
  have hsame : ∀ s s' : Unit, True →
      (raising (secret "a") s).Related SameType (fun _ _ ↦ True) (raising (secret "b") s') := by
    intro _ _ _
    exact .raise rfl
  exact (contents_stay_inside_iff hsame trivial rfl).1

/-- The application raises before it starts a response and the `send` of the error response
raises: what leaves has the application's exception as its `__context__`. -/
theorem error_response_failure_keeps_context :
    ∃ (r : Logged String Unit) (e : Exc String),
      exec (step (raising (secret "a"))) (start getCall ()) [.turn, .responded (.error
        { ref := 1, cls := .exception "OSError", args := "closed" })] = some r ∧
      r.raised = some (secret "a") ∧ r.place = .exit (.ended (.raised e)) ∧
      e.context = (secret "a").link ∧ Leaving.reaches (secret "a") (.raised e) = true :=
  ⟨_, _, rfl, rfl, rfl, rfl, rfl⟩

end Logged
end InferenceServer.Server
