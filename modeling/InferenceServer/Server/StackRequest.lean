import InferenceServer.Server.Drain
import InferenceServer.Server.OneResponse
import InferenceServer.Server.Upload

/-!
# Requests beside calls of the stack

Library `Server`. `PredictionAdmissionMiddleware` occurs twice: in `Server.Request` over the routes
of this server, with a clock in milliseconds, and in `Server.Stack` over any application, with one
in microseconds. Both are the same coroutine: while they see the same tasks, every step of the first
is a step of the second, to the same await, with the same variables and the same answer.
-/

namespace InferenceServer.Server

open InferenceServer.Base

variable {A S F : Type} {cfg : Config F} {next : App A S} {init : S} {g : Shared}
variable {r r' : Request F} {s t : Stack A S}

/-- Both middleware tasks stand at the same await. -/
inductive Middleware.Stands : Middleware → Position A → Prop where
  | entry : Stands .entry .entry
  | rejecting (response : Response) :
    Stands (.rejecting response false) (.rejecting (some (jsonDetail response.detail)))
  | rejectingBody (response : Response) : Stands (.rejecting response true) (.rejecting none)
  | through : Stands .through .through
  | uploadTop : Stands .uploadTop .uploadTop
  | uploadWait : Stands .uploadWait .uploadWait
  | refusing (response : Response) :
    Stands (.refusing response false) (.refusing (some (jsonDetail response.detail)))
  | refusingBody (response : Response) : Stands (.refusing response true) (.refusing none)
  | racing : Stands .racing .racing
  | settleWatcher : Stands .settleWatcher .settleWatcher
  | settleApp (disconnected : Bool) : Stands (.settleApp disconnected) (.settleApp disconnected)
  | expireWatcher : Stands .expireWatcher .expireWatcher
  | unwindApp (o : AppOutcome A) : Stands .unwindApp (.unwindApp o)
  | unwindWatcher (o : AppOutcome A) : Stands .unwindWatcher (.unwindWatcher o)
  | finishing (o : AppOutcome A) : Stands .finishing (.finishing o)
  | releasing (x : Exit A) : Stands .releasing (.exit x)
  | done (x : Exit A) : Stands .done (.exit x)

/-- The application's task gives this when it is awaited. -/
inductive AppTask.Gives : AppTask → Option (AppOutcome A) → Prop where
  | idle : Gives .idle (some (.ok ()))
  | pending {a : AppTask} (h : a.isOver = false) : Gives a none
  | returned : Gives (.done .returned) (some (.ok ()))
  | raised (e : PyException) {x : Exc A} (h : x.cls.isException = true) :
    Gives (.done (.raised e)) (some (.error x))
  | cancelled {x : Exc A} (h : x.cls = .cancelled) : Gives (.done .cancelled) (some (.error x))

/-- The watcher gives this when it is awaited. -/
inductive Watcher.Gives : Watcher → Option (AppOutcome A) → Prop where
  | idle : Gives .idle (some (.ok ()))
  | running : Gives .running none
  | disconnected : Gives (.done false) (some (.ok ()))
  | cancelled {x : Exc A} (h : x.cls = .cancelled) : Gives (.done false) (some (.error x))
  | failed {x : Exc A} (h : x.cls.isException = true) : Gives (.done true) (some (.error x))

/-- The response whose start is on its way. -/
def Middleware.answer : Middleware → Option Response
  | .rejecting response false => some response
  | .refusing response false => some response
  | _ => none

/-- The middleware of the request is where that of the call is. -/
structure Request.Follows (g : Shared) (r : Request F) (s : Stack A S) : Prop where
  scope : s.call.scope = r.scope
  clock : s.now = g.now * 1000
  stands : r.middleware.Stands s.position
  leased : s.leased = r.lease.isSome
  deadline : ∀ n, r.deadline = some n → s.deadline = n * 1000
  body : s.body = r.body
  started : s.responseStarted = r.responseStarted
  app : r.app.Gives s.app.outcome
  appCancel : s.appCancel = r.appCancel
  watcher : r.watcher.Gives s.watcher.outcome
  watcherCancel : s.watcherCancel = r.watcherCancel
  answer : ∀ response, r.middleware.answer = some response →
    s.boundary.statuses.getLast? = some (response.status : Int)

theorem AppTask.Gives.isOver_eq {a : AppTask} {o : Option (AppOutcome A)} (h : a.Gives o) :
    a.isOver = o.isSome := by
  cases h with
  | pending h => exact h
  | _ => rfl

theorem Watcher.Gives.isOver_eq {w : Watcher} {o : Option (AppOutcome A)} (h : w.Gives o) :
    w.isOver = o.isSome := by
  cases h <;> rfl

namespace Stack

/-- At most one step of the stack. -/
def Advances (cfg : Config F) (next : App A S) (init : S) (s t : Stack A S) : Prop :=
  t = s ∨ ∃ e, s.step cfg next init e = some t

theorem advances_awaited (task : Awaited) {o : AppOutcome A} (ht : awaited s.position = some task)
    (ho : s.outcomeOf task = some o) (hu : s.resumeWith o = some t) :
    s.Advances cfg next init t :=
  .inr ⟨.wake, (wake_eq task ht ho).trans hu⟩

theorem settleOn_unwind (s : Stack A S) (o p : AppOutcome A) :
    ∃ q, s.settleOn o (s.unwind p) = s.unwind q := by
  unfold settleOn
  split
  · exact ⟨_, rfl⟩
  · split <;> exact ⟨_, rfl⟩

theorem settleOn_isException {x : Exc A} (h : x.cls.isException = true) (s t : Stack A S) :
    s.settleOn (.error x) t = s.unwind (.error x) := by
  refine if_neg fun hc ↦ ?_
  rw [hc] at h
  cases h

theorem unwindOn_caught {x : Exc A} (h : x.cls.isException = true ∨ x.cls = .cancelled)
    (s t : Stack A S) : s.unwindOn (.error x) t = t := by
  refine if_neg fun hbare ↦ ?_
  cases hc : x.cls <;> simp_all [ExcClass.isBare, ExcClass.isException]

end Stack

theorem AppTask.Gives.unwindOn {a : AppTask} {o : AppOutcome A} (h : a.Gives (some o))
    (s t : Stack A S) : s.unwindOn o t = t := by
  cases h with
  | raised _ h => exact Stack.unwindOn_caught (.inl h) s t
  | cancelled h => exact Stack.unwindOn_caught (.inr h) s t
  | _ => rfl

/-- Only a watcher that failed is not passed over. -/
theorem Watcher.Gives.settleOn {w : Watcher} {o : AppOutcome A} (h : w.Gives (some o))
    (s t : Stack A S) :
    if w = .done true then ∃ q, s.settleOn o t = s.unwind q else s.settleOn o t = t := by
  cases h with
  | failed h => exact ⟨_, Stack.settleOn_isException h s t⟩
  | cancelled h => exact if_pos h
  | _ => rfl

theorem Watcher.Gives.unwindOn {w : Watcher} {o : AppOutcome A} (h : w.Gives (some o))
    (s t : Stack A S) : s.unwindOn o t = t := by
  cases h with
  | failed h => exact Stack.unwindOn_caught (.inl h) s t
  | cancelled h => exact Stack.unwindOn_caught (.inr h) s t
  | _ => rfl

namespace Request

/-! ### Where the middleware goes -/

theorem Follows.position (h : r.Follows g s) {m : Middleware} (hm : r.middleware = m) :
    ∃ p, s.position = p ∧ m.Stands p :=
  ⟨_, rfl, hm ▸ h.stands⟩

/-- The deadline strikes in both at once. -/
theorem Follows.expired_iff (h : r.Follows g s) (hok : r.Ok) (hst : r.Steered)
    (hm : r.middleware.stage = .http) : r.expired g = true ↔ s.deadline ≤ s.now := by
  obtain ⟨l, hl⟩ := hok.lease_of_http hm
  obtain ⟨n, hn⟩ := Option.isSome_iff_exists.mp (hst.deadline (by rw [hl]; rfl))
  rw [Request.expired, hn, decide_eq_true_eq, h.deadline n hn, h.clock]
  omega

/-- A step without an answer. -/
theorem Follows.moves (h : r.Follows g s) {m : Middleware} {p : Position A} (hp : m.Stands p)
    (hm : m.answer = none) (boundary : Boundary) :
    ({ r with middleware := m } : Request F).Follows g { s with position := p, boundary } :=
  { h with
    stands := hp
    answer := by
      intro response hr
      rw [hm] at hr
      cases hr }

/-- `_json_response` up to its first await. -/
theorem Follows.respond (h : r.Follows g s) {m : Middleware} {response : Response}
    (hm : m.answer = some response) {place : Option Bytes → Position A}
    (hp : m.Stands (place (some (jsonDetail response.detail)))) (headers : List (Bytes × Bytes)) :
    ({ r with middleware := m } : Request F).Follows g
      (s.respond place response.status response.detail headers) :=
  { h with
    stands := hp
    answer := by
      rintro _ hr
      cases hm.symm.trans hr
      simp [Stack.respond, Stack.sendOwn, Boundary.statuses_trackedSend, jsonStart,
        Outgoing.status] }

/-- The `finally` block up to its first await. -/
theorem Follows.unwind (h : r.Follows g s) (o : AppOutcome A) : r.unwind.Follows g (s.unwind o) :=
  { h with
    stands := .unwindApp o
    appCancel := rfl
    watcherCancel := rfl
    answer := by rintro _ ⟨⟩ }

/-- A request and a call arrive. -/
theorem follows_new (call : HttpCall) (h : call.started = g.now * 1000) :
    ({ scope := call.scope } : Request F).Follows g (Stack.start call : Stack A S) where
  scope := rfl
  clock := h
  stands := .entry
  leased := rfl
  deadline := by rintro _ ⟨⟩
  body := rfl
  started := rfl
  app := .idle
  appCancel := rfl
  watcher := .idle
  watcherCancel := rfl
  answer := by rintro _ ⟨⟩

/-! ### Its steps -/

/-- `PredictionAdmissionMiddleware.__call__` up to its first await. -/
theorem Follows.admit (cfg : Config F) (init : S) (h : r.Follows g s) :
    (r.admitRequest cfg g).1.Follows g (s.admitCall cfg init g.admission) := by
  have hleased : ({ r with lease := some {}, deadline := some (g.now + cfg.requestTimeoutMs) } :
      Request F).Follows g
        { s with leased := true, deadline := s.now + cfg.requestTimeoutMs * 1000 } :=
    { h with
      leased := rfl
      deadline := by
        rintro n ⟨⟩
        dsimp only
        rw [h.clock, Nat.add_mul] }
  have hupload := hleased.moves .uploadTop rfl s.boundary
  unfold Request.admitRequest Stack.admitCall
  dsimp only
  rw [h.scope]
  split
  · cases g.admission.tryAcquire with
    | none => exact h.respond rfl (.rejecting _) _
    | some c =>
      dsimp only
      cases contentLength cfg.parseInt r.scope.headers with
      | none => exact hupload
      | some length =>
        dsimp only
        split
        · exact hleased.respond rfl (.refusing _) _
        · exact hupload
  · exact { h.moves .through rfl s.boundary with app := .pending rfl }

/-- `AuthenticationMiddleware.__call__` and on to the first await. -/
theorem Follows.enter (cfg : Config F) (init : S) (h : r.Follows g s) :
    (r.enter cfg g).1.Follows g (s.enter cfg init g.digests g.admission) := by
  unfold Request.enter Stack.enter
  rw [h.scope]
  split
  · cases authenticate cfg.sha256 cfg.authRequired g.digests r.scope.headers with
    | none => exact h.respond rfl (.rejecting _) _
    | some keyId => exact Follows.admit cfg init { h with }
  · exact h.admit cfg init

/-- One message of the upload. -/
theorem Follows.upload (cfg : Config F) (h : r.Follows g s) (m : Message) :
    (r.upload cfg m).Follows g (s.upload cfg (.ok m)) := by
  cases m with
  | disconnect => exact h.unwind (.ok ())
  | other => exact h.moves .uploadTop rfl s.boundary
  | request chunk moreBody =>
    have hbody : ({ r with body := r.body ++ chunk } : Request F).Follows g
        { s with body := s.body ++ chunk } := { h with body := by rw [h.body] }
    simp only [Request.upload, Stack.upload]
    rw [h.body] at hbody ⊢
    split
    · exact h.respond rfl (.refusing _) []
    · split
      · exact hbody.moves .uploadTop rfl s.boundary
      · exact { hbody.moves .racing rfl s.boundary with app := .pending rfl, watcher := .running }

/-- A cancellation, or a failing call, at an await; in `through` it reaches the application. -/
theorem Follows.interrupt (hst : r.Steered) (h : r.Follows g s) (hm : r.middleware ≠ .through)
    (e : Exc A) (he : e.cls = .cancelled) (hstep : r.interrupt = some r') :
    ∃ t, s.Advances cfg next init t ∧ r'.Follows g t := by
  have told_app (hm : r.middleware.cancelsApp = true) :
      ({ r with appCancel := true } : Request F) = r := by rw [← hst.app hm]
  have told_watcher (hm : r.middleware.cancelsWatcher = true) :
      ({ r with watcherCancel := true } : Request F) = r := by rw [← hst.watcher hm]
  unfold Request.interrupt at hstep
  split at hstep <;> cases hstep
  case h_1 hm =>
    refine ⟨s.leave (.error e), .inr ⟨.responded (.error e), ?_⟩, h.moves (.done _) rfl _⟩
    obtain ⟨_, hpos, hp⟩ := h.position hm
    cases hp <;> simp only [Stack.step, Stack.responded, hpos]
  case h_2 hm =>
    refine ⟨s.unwind (.error e), .inr ⟨.received (.error e), ?_⟩, h.unwind _⟩
    obtain ⟨_, hpos, ⟨⟩⟩ := h.position hm
    simp [Stack.step, hpos, Stack.upload, he]
  case h_3 hm =>
    refine ⟨s.unwind (.error e), .inr ⟨.responded (.error e), ?_⟩, h.unwind _⟩
    obtain ⟨_, hpos, hp⟩ := h.position hm
    cases hp <;> simp only [Stack.step, Stack.responded, hpos]
  case h_4 hm =>
    refine ⟨s.unwind (.error e), .inr ⟨.cancel e, ?_⟩, h.unwind _⟩
    obtain ⟨_, hpos, ⟨⟩⟩ := h.position hm
    simp [Stack.step, hpos, Stack.cancel, he]
  case h_5 hthrough => exact absurd hthrough hm
  case h_6 hm => exact ⟨s, .inl rfl, told_app (by rw [hm]; rfl) ▸ h⟩
  case h_7 hm => exact ⟨s, .inl rfl, told_app (by rw [hm]; rfl) ▸ h⟩
  case h_8 hm => exact ⟨s, .inl rfl, told_watcher (by rw [hm]; rfl) ▸ h⟩
  case h_9 hm => exact ⟨s, .inl rfl, told_watcher (by rw [hm]; rfl) ▸ h⟩
  case h_10 hm => exact ⟨s, .inl rfl, told_watcher (by rw [hm]; rfl) ▸ h⟩

/-- The application is over in both. -/
theorem Follows.app_over (h : r.Follows g s) (hover : r.app.isOver = true) :
    ∃ o, s.app.outcome = some o ∧ r.app.Gives (some o) := by
  rw [h.app.isOver_eq] at hover
  obtain ⟨o, ho⟩ := Option.isSome_iff_exists.mp hover
  exact ⟨o, ho, ho ▸ h.app⟩

/-- The watcher is over in both. -/
theorem Follows.watcher_over (h : r.Follows g s) (hover : r.watcher.isOver = true) :
    ∃ o, s.watcher.outcome = some o ∧ r.watcher.Gives (some o) := by
  rw [h.watcher.isOver_eq] at hover
  obtain ⟨o, ho⟩ := Option.isSome_iff_exists.mp hover
  exact ⟨o, ho, ho ▸ h.watcher⟩

/-- `asyncio.wait` returns. -/
theorem Follows.resume_racing (hok : r.Ok) (hst : r.Steered) (h : r.Follows g s)
    (hm : r.middleware = .racing) (hstep : r.resume g = some r') :
    ∃ t, s.Advances cfg next init t ∧ r'.Follows g t := by
  obtain ⟨_, hpos, ⟨⟩⟩ := h.position hm
  have hexpired := h.expired_iff hok hst (by rw [hm]; rfl)
  simp only [Request.resume, hm, h.app.isOver_eq, h.watcher.isOver_eq, hexpired] at hstep
  split at hstep
  · next hover =>
    cases hstep
    refine ⟨{ s with position := .settleWatcher, watcherCancel := true }, .inr ⟨.wake, ?_⟩,
      { h.moves .settleWatcher rfl s.boundary with watcherCancel := rfl }⟩
    simp only [Stack.step, Stack.wake, hpos, if_pos hover]
  · next hover =>
    split at hstep <;> cases hstep
    next hdue =>
    refine ⟨{ s with position := .settleApp s.watcher.outcome.isSome, appCancel := true },
      .inr ⟨.wake, ?_⟩, { h.moves (.settleApp _) rfl s.boundary with appCancel := rfl }⟩
    simp only [Stack.step, Stack.wake, hpos, if_neg hover, if_pos hdue]

/-- The cancelled application is over. -/
theorem Follows.resume_settleApp (h : r.Follows g s) {disconnected : Bool}
    (hm : r.middleware = .settleApp disconnected) (hstep : r.resume g = some r') :
    ∃ t, s.Advances cfg next init t ∧ r'.Follows g t := by
  obtain ⟨_, hpos, ⟨⟩⟩ := h.position hm
  simp only [Request.resume, hm] at hstep
  split at hstep
  · next hx =>
    cases hstep
    obtain ⟨o, ho, hgives⟩ := h.app_over (by rw [hx]; rfl)
    rw [hx] at hgives
    cases hgives with
    | @raised _ x hx =>
      refine ⟨_, Stack.advances_awaited .app (by rw [hpos]; rfl) ho ?_, h.unwind (.error x)⟩
      simp only [Stack.resumeWith, hpos, Stack.settleOn_isException hx]
  · next hne hx =>
    obtain ⟨o, ho, hgives⟩ := h.app_over (by rw [hx]; rfl)
    rw [hx] at hgives
    have hsettle : s.settleOn o (s.settled disconnected) = s.settled disconnected := by
      cases hgives with
      | returned => rfl
      | raised e => exact absurd rfl (hne e)
      | cancelled hc => exact if_pos hc
    refine ⟨s.settled disconnected, Stack.advances_awaited .app (by rw [hpos]; rfl) ho ?_, ?_⟩
    · simp only [Stack.resumeWith, hpos, hsettle]
    · cases disconnected <;> cases hstep
      · exact { h.moves .expireWatcher rfl s.boundary with watcherCancel := rfl }
      · exact h.unwind _
  · cases hstep

/-- After the deadline the cancelled watcher is over. -/
theorem Follows.resume_expireWatcher (h : r.Follows g s) (hm : r.middleware = .expireWatcher)
    (hstep : r.resume g = some r') : ∃ t, s.Advances cfg next init t ∧ r'.Follows g t := by
  obtain ⟨_, hpos, ⟨⟩⟩ := h.position hm
  simp only [Request.resume, hm] at hstep
  split at hstep
  · next hover =>
    obtain ⟨o, ho, hgives⟩ := h.watcher_over hover
    have advances {t} (ht : s.settleOn o s.expire = t) : s.Advances cfg next init t := by
      refine Stack.advances_awaited .watcher (by rw [hpos]; rfl) ho ?_
      simp only [Stack.resumeWith, hpos, ht]
    have hsettle := hgives.settleOn s s.expire
    split at hsettle
    · next hfailed =>
      obtain ⟨q, hq⟩ := hsettle
      rw [if_pos (.inl hfailed)] at hstep
      cases hstep
      exact ⟨_, advances hq, h.unwind q⟩
    · next hfailed =>
      refine ⟨_, advances hsettle, ?_⟩
      simp only [hfailed, false_or] at hstep
      rw [Stack.expire, h.started]
      split at hstep <;> cases hstep
      · next hs =>
        rw [if_pos hs]
        exact h.unwind _
      · next hs =>
        rw [if_neg hs]
        exact h.respond rfl (.refusing _) []
  · cases hstep

/-- Going on after an await that completed. -/
theorem Follows.resume (hok : r.Ok) (hst : r.Steered) (h : r.Follows g s)
    (hstep : r.resume g = some r') : ∃ t, s.Advances cfg next init t ∧ r'.Follows g t := by
  have hresume := hstep
  unfold Request.resume at hstep
  split at hstep
  · next hm =>
    obtain ⟨_, hpos, ⟨⟩⟩ := h.position hm
    split at hstep <;> cases hstep
    next hover =>
    obtain ⟨o, ho, -⟩ := h.app_over hover
    refine ⟨s.leave o, .inr ⟨.wake, ?_⟩, h.moves (.done _) rfl _⟩
    simp only [Stack.step, Stack.wake, hpos, ho]
    rfl
  · next hm => exact h.resume_racing hok hst hm hresume
  · next hm =>
    obtain ⟨_, hpos, ⟨⟩⟩ := h.position hm
    split at hstep <;> cases hstep
    next hover =>
    obtain ⟨o, ho, -⟩ := h.watcher_over hover
    obtain ⟨q, hq⟩ := s.settleOn_unwind o (s.app.outcome.getD (.ok ()))
    refine ⟨_, Stack.advances_awaited .watcher (by rw [hpos]; rfl) ho ?_, h.unwind q⟩
    simp only [Stack.resumeWith, hpos, hq]
  · next hm => exact h.resume_settleApp hm hresume
  · next hm => exact h.resume_expireWatcher hm hresume
  · next hm =>
    obtain ⟨_, hpos, hp⟩ := h.position hm
    split at hstep <;> cases hstep
    next hover =>
    obtain ⟨o, ho, hgives⟩ := h.app_over hover
    cases hp with
    | unwindApp p =>
      refine ⟨_, Stack.advances_awaited .app (by rw [hpos]; rfl) ho ?_,
        h.moves (.unwindWatcher p) rfl s.boundary⟩
      simp only [Stack.resumeWith, hpos, hgives.unwindOn]
  · next hm =>
    obtain ⟨_, hpos, hp⟩ := h.position hm
    split at hstep <;> cases hstep
    next hover =>
    obtain ⟨o, ho, hgives⟩ := h.watcher_over hover
    cases hp with
    | unwindWatcher p =>
      refine ⟨_, Stack.advances_awaited .watcher (by rw [hpos]; rfl) ho ?_,
        h.moves (.finishing p) rfl s.boundary⟩
      simp only [Stack.resumeWith, hpos, hgives.unwindOn]
  · cases hstep

/-- `send` of a response of its own returns. -/
theorem Follows.send (h : r.Follows g s) {effect : Effect}
    (hstep : r.middlewareStep cfg g .send = some (r', effect)) :
    ∃ t, s.Advances cfg next init t ∧ r'.Follows g t := by
  simp only [middlewareStep] at hstep
  split at hstep <;> cases hstep
  case h_1 response hm =>
    obtain ⟨_, hpos, ⟨⟩⟩ := h.position hm
    refine ⟨s.sendOwn (.body (jsonDetail response.detail) false) (.rejecting none),
      .inr ⟨.responded (.ok ()), ?_⟩, { h.moves (.rejectingBody response) rfl _ with }⟩
    simp only [Stack.step, Stack.responded, hpos]
  case h_2 hm =>
    obtain ⟨_, hpos, ⟨⟩⟩ := h.position hm
    refine ⟨s.leave (.ok ()), .inr ⟨.responded (.ok ()), ?_⟩, h.moves (.done _) rfl _⟩
    simp only [Stack.step, Stack.responded, hpos]
  case h_3 response hm =>
    obtain ⟨_, hpos, ⟨⟩⟩ := h.position hm
    refine ⟨s.sendOwn (.body (jsonDetail response.detail) false) (.refusing none),
      .inr ⟨.responded (.ok ()), ?_⟩, { h.moves (.refusingBody response) rfl _ with }⟩
    simp only [Stack.step, Stack.responded, hpos]
  case h_4 hm =>
    obtain ⟨_, hpos, ⟨⟩⟩ := h.position hm
    refine ⟨_, .inr ⟨.responded (.ok ()), ?_⟩, h.unwind (.ok ())⟩
    simp only [Stack.step, Stack.responded, hpos]

/-- The top of the loop in `_read_body`. -/
theorem Follows.pollUpload (hok : r.Ok) (hst : r.Steered) (h : r.Follows g s) {effect : Effect}
    (hstep : r.middlewareStep cfg g .pollUpload = some (r', effect)) :
    ∃ t, s.Advances cfg next init t ∧ r'.Follows g t := by
  simp only [middlewareStep] at hstep
  split at hstep
  · next hm =>
    obtain ⟨_, hpos, ⟨⟩⟩ := h.position hm
    have hexpired := h.expired_iff hok hst (by rw [hm]; rfl)
    split at hstep
    · next hdue =>
      cases hstep
      refine ⟨s.uploadExpired, .inr ⟨.poll, ?_⟩, h.respond rfl (.refusing _) []⟩
      simp only [Stack.step, hpos, if_pos (hexpired.mp hdue)]
    · next hdue =>
      cases hstep
      refine ⟨_, .inr ⟨.poll, ?_⟩, h.moves .uploadWait rfl s.boundary⟩
      simp only [Stack.step, hpos, if_neg (mt hexpired.mpr hdue)]
  · cases hstep

/-- `lease.finish_http` decides who returns the permit. -/
theorem Follows.finishHttp (h : r.Follows g s) {effect : Effect}
    (hstep : r.middlewareStep cfg g .finishHttp = some (r', effect)) :
    ∃ t, s.Advances cfg next init t ∧ r'.Follows g t := by
  simp only [middlewareStep] at hstep
  split at hstep
  · next hm =>
    obtain ⟨l, hl, heq⟩ := Option.map_eq_some_iff.mp hstep
    cases heq
    obtain ⟨_, hpos, hp⟩ := h.position hm
    cases hp with
    | finishing o =>
      refine ⟨({ s with finishes := s.finishes + 1 }.leave o), .inr ⟨.finishHttp, ?_⟩, ?_⟩
      · simp only [Stack.step, hpos]
      · have hleased : s.leased = true := h.leased.trans (by rw [hl]; rfl)
        split
        · exact { h.moves (.releasing _) rfl _ with leased := hleased }
        · exact { h.moves (.done _) rfl _ with leased := hleased }
  · cases hstep

/-- The two embeddings of `PredictionAdmissionMiddleware` agree: a step of the middleware in
`Server.Request` is a step of the one in `Server.Stack`, over any application, to the same await
with the same variables and the same answer. A cancellation in `through` is not one of the
middleware: the await it reaches is the application's. -/
theorem Follows.step (hok : r.Ok) (hst : r.Steered) (h : r.Follows g s) {ev : MiddlewareEvent}
    (hthrough : ev = .interrupt → r.middleware ≠ .through) (e : Exc A) (he : e.cls = .cancelled)
    {effect : Effect} (hstep : r.middlewareStep cfg g ev = some (r', effect)) :
    ∃ t, s.Advances cfg next init t ∧ r'.Follows g t := by
  cases ev with
  | enter =>
    simp only [middlewareStep] at hstep
    split at hstep
    · next hm =>
      obtain ⟨_, hpos, ⟨⟩⟩ := h.position hm
      have henter := h.enter cfg init
      rw [Option.some.inj hstep] at henter
      refine ⟨_, .inr ⟨.enter g.digests g.admission, ?_⟩, henter⟩
      simp only [Stack.step, hpos]
    · cases hstep
  | send => exact h.send hstep
  | interrupt =>
    obtain ⟨_, hint, heq⟩ := Option.map_eq_some_iff.mp hstep
    cases heq
    exact h.interrupt hst (hthrough rfl) e he hint
  | pollUpload => exact h.pollUpload hok hst hstep
  | message m =>
    simp only [middlewareStep] at hstep
    split at hstep
    · next hm =>
      cases hstep
      obtain ⟨_, hpos, ⟨⟩⟩ := h.position hm
      have hlog : (r.logRead m).Follows g s := { h with }
      refine ⟨_, .inr ⟨.received (.ok m), ?_⟩, hlog.upload cfg m⟩
      simp only [Stack.step, hpos]
    · cases hstep
  | uploadTimeout =>
    simp only [middlewareStep] at hstep
    split at hstep
    · next hm =>
      cases hstep
      obtain ⟨_, hpos, ⟨⟩⟩ := h.position hm.1
      have hdue := (h.expired_iff hok hst (by rw [hm.1]; rfl)).mp hm.2
      refine ⟨s.uploadExpired, .inr ⟨.uploadTimeout, ?_⟩, h.respond rfl (.refusing _) []⟩
      simp only [Stack.step, hpos, if_pos hdue]
    · cases hstep
  | resume =>
    obtain ⟨_, hres, heq⟩ := Option.map_eq_some_iff.mp hstep
    cases heq
    exact h.resume hok hst hres
  | finishHttp => exact h.finishHttp hstep
  | release =>
    simp only [middlewareStep] at hstep
    split at hstep
    · next hm =>
      cases hstep
      obtain ⟨_, hpos, hp⟩ := h.position hm
      cases hp with
      | releasing x =>
        have hdone := h.moves (.done x) rfl s.boundary
        rw [← hpos] at hdone
        exact ⟨s, .inl rfl, hdone⟩
    · cases hstep

end Request
end InferenceServer.Server
