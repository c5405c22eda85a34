import InferenceServer.Server.Request

/-!
# What a step of a request can do

Library `Server`. `Move cfg g r r' effect` lists every step of a request with its guard. Steps
that differ only in what no later proof reads share a case. Invariants are proved by cases on
it.
-/

namespace InferenceServer.Server

variable {F : Type}

/-- From here the middleware can go to its `finally` block. -/
def Middleware.canUnwind : Middleware → Bool
  | .uploadWait => true
  | .refusing _ _ => true
  | .racing => true
  | .settleWatcher => true
  | .settleApp _ => true
  | .expireWatcher => true
  | _ => false

/-- From here it can start a response of its own while it has the lease. -/
def Middleware.canRefuse : Middleware → Bool
  | .uploadTop => true
  | .uploadWait => true
  | .expireWatcher => true
  | _ => false

/-- The application has an answer or has ended. -/
def AppTask.isReply : AppTask → Bool
  | .responding _ => true
  | .respondingBody => true
  | .done _ => true
  | _ => false

/-- A body that is refused is not answered with 200. -/
theorem decodeBody_status {cfg : Config F} {scope : Scope} {body : Bytes} {response : Response}
    (h : decodeBody cfg scope body = .error response) : response.status ≠ 200 := by
  unfold decodeBody at h
  dsimp only at h
  split at h
  · split at h
    · cases h
      decide
    · split at h
      · cases h
        simp
      · cases h
  · split at h
    · cases h
      simp
    · cases h
  · cases h
    decide

namespace Request

/-- What `AuthenticationMiddleware` hands on. -/
inductive Passed (cfg : Config F) (g : Shared) (r : Request F) : Request F → Prop where
  | unprotected (h : r.scope.protected cfg.authRequired = false) : Passed cfg g r r
  | accepted (keyId : String) (h : r.scope.protected cfg.authRequired = true)
    (ha : authenticate cfg.sha256 cfg.authRequired g.digests r.scope.headers = some keyId) :
    Passed cfg g r { r with clientKeyId := some keyId, acceptedBy := g.digests }

/-- The checks before `executor.submit` passed. -/
structure Submits (cfg : Config F) (g : Shared) (r : Request F) (sub : Submission F) : Prop where
  decoded : ∃ body, decodeBody cfg r.scope body = .ok sub.array
  finite : sub.array.all cfg.isfinite = true
  deadline : r.deadline = some sub.deadline
  checkedAt : sub.checkedAt = g.now
  inTime : g.now < sub.deadline
  lease : sub.lease = r.lease
  clientKeyId : sub.clientKeyId = r.clientKeyId

/-- The steps of the middleware task. An answer of its own is never 200. -/
inductive MiddlewareMove (cfg : Config F) (g : Shared) (r : Request F) :
    MiddlewareEvent → Request F → Effect → Prop where
  | unauthorized (h : r.middleware = .entry) (response : Response) (hs : response.status ≠ 200) :
    MiddlewareMove cfg g r .enter { r with middleware := .rejecting response false } .none
  | overloaded {r₀ : Request F} (h : r.middleware = .entry) (hp : Passed cfg g r r₀)
    (response : Response) (hs : response.status ≠ 200) :
    MiddlewareMove cfg g r .enter { r₀ with middleware := .rejecting response false } .none
  | through (h : r.middleware = .entry) (ha : r.scope.admitted = false) :
    MiddlewareMove cfg g r .enter { r with middleware := .through, app := .created } .none
  | acquire {r₀ : Request F} (h : r.middleware = .entry) (hp : Passed cfg g r r₀)
    (ha : r.scope.admitted = true) {c : AdmissionController}
    (hc : g.admission.tryAcquire = some c) (deadline : Nat) (m : Middleware)
    (hm : m = .uploadTop ∨ ∃ response, m = .refusing response false)
    (hs : ∀ response, m = .refusing response false → response.status ≠ 200) :
    MiddlewareMove cfg g r .enter
      { r₀ with lease := some {}, deadline := some deadline, middleware := m } .acquire
  | rejectSend (response : Response) (h : r.middleware = .rejecting response false) :
    MiddlewareMove cfg g r .send
      { r with middleware := .rejecting response true, sent := r.sent ++ [response] } .none
  | rejectDone {ev : MiddlewareEvent} (response : Response) (started : Bool)
    (h : r.middleware = .rejecting response started) :
    MiddlewareMove cfg g r ev { r with middleware := .done } .none
  | refuseSend (response : Response) (h : r.middleware = .refusing response false) :
    MiddlewareMove cfg g r .send
      { r with middleware := .refusing response true, sent := r.sent ++ [response] } .none
  | unwind {ev : MiddlewareEvent} (h : r.middleware.canUnwind = true) :
    MiddlewareMove cfg g r ev r.unwind .none
  | refuse {ev : MiddlewareEvent} (h : r.middleware.canRefuse = true) (response : Response)
    (hs : response.status ≠ 200) :
    MiddlewareMove cfg g r ev { r with middleware := .refusing response false } .none
  | uploadWait (h : r.middleware = .uploadTop) (hd : r.expired g = false) :
    MiddlewareMove cfg g r .pollUpload { r with middleware := .uploadWait } .none
  | readUnwind (h : r.middleware = .uploadWait) (m : Message) :
    MiddlewareMove cfg g r (.message m) (r.logRead m).unwind .none
  | readRefuse (h : r.middleware = .uploadWait) (m : Message) (response : Response) :
    MiddlewareMove cfg g r (.message m) { r.logRead m with middleware := .refusing response false }
      .none
  | readOn (h : r.middleware = .uploadWait) (m : Message) (body : Bytes) :
    MiddlewareMove cfg g r (.message m) { r.logRead m with body, middleware := .uploadTop } .none
  | readLast (h : r.middleware = .uploadWait) (m : Message) (body : Bytes) :
    MiddlewareMove cfg g r (.message m)
      { r.logRead m with body, middleware := .racing, app := .created, watcher := .running } .none
  | throughDone (h : r.middleware = .through) (ha : r.app.isOver = true) :
    MiddlewareMove cfg g r .resume { r with middleware := .done } .none
  | settleWatcher (h : r.middleware = .racing) (ha : r.app.isOver = true) :
    MiddlewareMove cfg g r .resume { r with middleware := .settleWatcher, watcherCancel := true }
      .none
  | settleApp (h : r.middleware = .racing) (disconnected : Bool) (ha : r.app.isOver = false) :
    MiddlewareMove cfg g r .resume
      { r with middleware := .settleApp disconnected, appCancel := true } .none
  | expireWatcher (disconnected : Bool) (h : r.middleware = .settleApp disconnected)
    (ha : r.app.isOver = true) :
    MiddlewareMove cfg g r .resume { r with middleware := .expireWatcher, watcherCancel := true }
      .none
  | unwindWatcher (h : r.middleware = .unwindApp) (ha : r.app.isOver = true) :
    MiddlewareMove cfg g r .resume { r with middleware := .unwindWatcher } .none
  | finishing (h : r.middleware = .unwindWatcher) :
    MiddlewareMove cfg g r .resume { r with middleware := .finishing } .none
  | forwardCancel (appCancel watcherCancel : Bool) (ha : r.appCancel = true → appCancel = true)
    (hw : r.watcherCancel = true → watcherCancel = true) :
    MiddlewareMove cfg g r .interrupt { r with appCancel, watcherCancel } .none
  | finishHttp (h : r.middleware = .finishing) (l : AdmissionLease) (hl : r.lease = some l) :
    MiddlewareMove cfg g r .finishHttp
      { r with
        lease := some l.finishHttp.1
        middleware := if l.finishHttp.2 then .releasing else .done } .none
  | release (h : r.middleware = .releasing) :
    MiddlewareMove cfg g r .release { r with middleware := .done } .release

private theorem admitRequest_cases {cfg : Config F} {g : Shared} {r r₀ r' : Request F}
    {effect : Effect} (hm : r.middleware = .entry) (hp : Passed cfg g r r₀)
    (h : r₀.admitRequest cfg g = (r', effect)) : MiddlewareMove cfg g r .enter r' effect := by
  have hscope : r₀.scope = r.scope := by cases hp <;> rfl
  unfold admitRequest at h
  split at h
  · next ha =>
    rw [hscope] at ha
    split at h
    · cases h
      exact .overloaded hm hp _ (by decide)
    · next c hc =>
      dsimp only at h
      split at h
      · cases h
        exact .acquire hm hp ha hc _ _ (.inl rfl) (by rintro _ ⟨⟩)
      · split at h
        · cases h
          refine .acquire hm hp ha hc _ _ (.inr ⟨_, rfl⟩) ?_
          rintro _ ⟨⟩
          decide
        · cases h
          exact .acquire hm hp ha hc _ _ (.inl rfl) (by rintro _ ⟨⟩)
  · next ha =>
    rw [hscope, Bool.not_eq_true] at ha
    cases hp with
    | unprotected =>
      cases h
      exact .through hm ha
    | accepted keyId hprot =>
      -- a protected scope is an admitted one
      rw [Scope.protected_eq, ha] at hprot
      cases hprot

private theorem enter_cases {cfg : Config F} {g : Shared} {r r' : Request F} {effect : Effect}
    (hm : r.middleware = .entry) (h : r.enter cfg g = (r', effect)) :
    MiddlewareMove cfg g r .enter r' effect := by
  unfold enter at h
  split at h
  · next hprot =>
    split at h
    · cases h
      exact .unauthorized hm _ (by decide)
    · next keyId hauth => exact admitRequest_cases hm (.accepted keyId hprot hauth) h
  · next hprot => exact admitRequest_cases hm (.unprotected (Bool.eq_false_iff.mpr hprot)) h

private theorem upload_cases {cfg : Config F} {g : Shared} {r : Request F}
    (hm : r.middleware = .uploadWait) (m : Message) :
    MiddlewareMove cfg g r (.message m) ((r.logRead m).upload cfg m) .none := by
  cases m with
  | disconnect => exact .readUnwind hm _
  | other => exact .readOn hm _ r.body
  | request chunk moreBody =>
    simp only [upload]
    split
    · exact .readRefuse hm _ _
    · split
      · exact .readOn hm _ _
      · exact .readLast hm _ _

private theorem resume_cases {cfg : Config F} {g : Shared} {r r' : Request F}
    (h : r.resume g = some r') : MiddlewareMove cfg g r .resume r' .none := by
  unfold resume at h
  split at h
  · next hm =>
    split at h
    · next ha =>
      cases h
      exact .throughDone hm ha
    · cases h
  · next hm =>
    split at h
    · next ha =>
      cases h
      exact .settleWatcher hm ha
    · next ha =>
      split at h
      · cases h
        exact .settleApp hm _ (Bool.eq_false_iff.mpr ha)
      · cases h
  · next hm =>
    split at h
    · cases h
      exact .unwind (by rw [hm]; rfl)
    · cases h
  · next disconnected hm =>
    split at h
    · cases h
      exact .unwind (by rw [hm]; rfl)
    · next ha =>
      split at h
      · cases h
        exact .unwind (by rw [hm]; rfl)
      · cases h
        exact .expireWatcher _ hm (by rw [ha]; rfl)
    · cases h
  · next hm =>
    split at h
    · split at h
      · cases h
        exact .unwind (by rw [hm]; rfl)
      · cases h
        exact .refuse (by rw [hm]; rfl) _ (by decide)
    · cases h
  · next hm =>
    split at h
    · next ha =>
      cases h
      exact .unwindWatcher hm ha
    · cases h
  · next hm =>
    split at h
    · cases h
      exact .finishing hm
    · cases h
  · cases h

private theorem interrupt_cases {cfg : Config F} {g : Shared} {r r' : Request F}
    (h : r.interrupt = some r') : MiddlewareMove cfg g r .interrupt r' .none := by
  unfold interrupt at h
  split at h
  all_goals first
    | cases h; exact .rejectDone _ _ (by assumption)
    | cases h; exact .unwind (by simp [*, Middleware.canUnwind])
    | cases h; exact .forwardCancel _ _ (fun _ ↦ rfl) id
    | cases h; exact .forwardCancel _ _ id fun _ ↦ rfl
    | cases h

/-- Everything the middleware task can do. -/
theorem middlewareStep_cases {cfg : Config F} {g : Shared} {r r' : Request F} {effect : Effect}
    {ev : MiddlewareEvent} (h : r.middlewareStep cfg g ev = some (r', effect)) :
    MiddlewareMove cfg g r ev r' effect := by
  cases ev with
  | enter =>
    simp only [middlewareStep] at h
    split at h
    · next hm =>
      rw [Option.some.injEq] at h
      exact enter_cases hm h
    · cases h
  | send =>
    simp only [middlewareStep] at h
    split at h
    · next response hm =>
      cases h
      exact .rejectSend _ hm
    · next response hm =>
      cases h
      exact .rejectDone _ _ hm
    · next response hm =>
      cases h
      exact .refuseSend _ hm
    · next response hm =>
      cases h
      exact .unwind (by rw [hm]; rfl)
    · cases h
  | interrupt =>
    simp only [middlewareStep, Option.map_eq_some_iff, Prod.mk.injEq] at h
    obtain ⟨_, h, rfl, rfl⟩ := h
    exact interrupt_cases h
  | pollUpload =>
    simp only [middlewareStep] at h
    split at h
    · next hm =>
      split at h
      · cases h
        exact .refuse (by rw [hm]; rfl) _ (by decide)
      · next hd =>
        cases h
        exact .uploadWait hm (Bool.eq_false_iff.mpr hd)
    · cases h
  | message m =>
    simp only [middlewareStep] at h
    split at h
    · next hm =>
      cases h
      exact upload_cases hm m
    · cases h
  | uploadTimeout =>
    simp only [middlewareStep] at h
    split at h
    · next hm =>
      cases h
      exact .refuse (by rw [hm.1]; rfl) _ (by decide)
    · cases h
  | resume =>
    simp only [middlewareStep, Option.map_eq_some_iff, Prod.mk.injEq] at h
    obtain ⟨_, h, rfl, rfl⟩ := h
    exact resume_cases h
  | finishHttp =>
    simp only [middlewareStep] at h
    split at h
    · next hm =>
      rw [Option.map_eq_some_iff] at h
      obtain ⟨l, hl, h⟩ := h
      cases h
      exact .finishHttp hm l hl
    · cases h
  | release =>
    simp only [middlewareStep] at h
    split at h
    · next hm =>
      cases h
      exact .release hm
    · cases h

/-- What the application answers: a 200 is its route's or follows the result of its call, and what
is sent is what it answered. -/
inductive Replies (r : Request F) : AppTask → List Response → Prop where
  | answer (h : r.app = .created ∨ r.app = .awaiting) (response : Response)
    (hs : response.status = 200 → r.scope.route = .other ∨
      ∃ w v, r.work = some w ∧ w.outcome = some (.ok v)) :
    Replies r (.responding response) r.sent
  | send {response : Response} (h : r.app = .responding response) :
    Replies r .respondingBody (r.sent ++ [response])
  | ended (result : TaskResult) : Replies r (.done result) r.sent

/-- The steps of the application. -/
inductive AppMove (cfg : Config F) (g : Shared) (r : Request F) :
    Request F → Effect → Prop where
  | reply (h : r.app.isAwait = true) (a : AppTask) (ha : a.isReply = true) (started : Bool)
    (sent : List Response) (hr : Replies r a sent) :
    AppMove cfg g r { r with app := a, responseStarted := started, sent } .none
  | replyRead {body : Bytes} (h : r.app = .reading body) (m : Message) (a : AppTask)
    (ha : a.isReply = true) (hs : ∀ response, a = .responding response → response.status ≠ 200) :
    AppMove cfg g r { r.logRead m with app := a } .none
  | readBody (h : r.app = .created) (hr : r.scope.route ≠ .other) (hl : r.lease = none) :
    AppMove cfg g r { r with app := .reading [] } .none
  | readOn {body : Bytes} (h : r.app = .reading body) (m : Message) (body' : Bytes) :
    AppMove cfg g r { r.logRead m with app := .reading body' } .none
  | submit (h : r.app = .created) (hl : r.lease.isSome = true) {sub : Submission F}
    (hs : Submits cfg g r sub) (executor runtime : Nat) (he : g.executor = some executor)
    (hr : g.runtime = some runtime) (hopen : g.isShutdown executor = false)
    (hd : decodeBody cfg r.scope r.body = .ok sub.array) :
    AppMove cfg g r
      { r with
        app := .submitted
        work := some { array := sub.array, executor, runtime }
        submission := some sub } .none
  | submitRead {body : Bytes} (h : r.app = .reading body) (m : Message) {sub : Submission F}
    (hs : Submits cfg g r sub) (executor runtime : Nat) (he : g.executor = some executor)
    (hr : g.runtime = some runtime) (hopen : g.isShutdown executor = false) :
    AppMove cfg g r
      { r.logRead m with
        app := .submitted
        work := some { array := sub.array, executor, runtime }
        submission := some sub } .none
  | attach (h : r.app = .submitted) {l l' : AdmissionLease} (hl : r.lease = some l)
    (ha : l.attachWork = some l') :
    AppMove cfg g r { r with app := .attached, lease := some l' } .none
  | attachFails (h : r.app = .submitted) (hl : ∀ l, r.lease = some l → l.attachWork = none)
    (e : PyException) : AppMove cfg g r { r with app := .done (.raised e) } .none
  | register (h : r.app = .attached) {l : AdmissionLease} {w : Work F} (hl : r.lease = some l)
    (hw : r.work = some w) (ha : w.phase.isActive = true) :
    AppMove cfg g r
      { r with app := .registered, work := some { w with leaseCallback := true } } .none
  | registerDone (h : r.app = .attached) {l : AdmissionLease} {w : Work F} (hl : r.lease = some l)
    (hw : r.work = some w) (ha : w.phase.isActive = false) :
    AppMove cfg g r { r with app := .registered, lease := some l.workDone.1 }
      (if l.workDone.2 then .release else .none)
  | wrap (h : r.app = .registered) {w : Work F} (hw : r.work = some w)
      (chainCallback scheduled : Bool) :
    AppMove cfg g r
      { r with app := .awaiting, work := some { w with chainCallback, scheduled } } .none
  | inferenceError (h : r.app = .awaiting) {w : Work F} (hw : r.work = some w) (message : String)
    (ho : w.outcome = some (.error (.inferenceError message))) (response : Response)
    (hs : response.status ≠ 200) :
    AppMove cfg g r { r with app := .responding response }
      (.outOfService s!"inference engine failed: {message}")

/-- The steps of the watcher. -/
inductive WatcherMove (r : Request F) : WatcherEvent → Request F → Prop where
  | message (h : r.watcher = .running) (m : Message) (watcher : Watcher) :
    WatcherMove r (.message m) { r.logRead m with watcher }
  | ended {ev : WatcherEvent} (h : r.watcher = .running) (failed : Bool) :
    WatcherMove r ev { r with watcher := .done failed }

/-- The steps of the native call `w`. -/
inductive NativeMove (g : Shared) (r : Request F) (w : Work F) :
    NativeEvent F → Request F → Effect → Prop where
  | advance {ev : WorkEvent F} {w' : Work F} (h : w.Advance g.isStopped ev w') :
    NativeMove g r w (.advance ev) { r with work := some w' } .none
  | callback (h : w.phase = .completed) (hc : w.leaseCallback = true) {l : AdmissionLease}
    (hl : r.lease = some l) :
    NativeMove g r w .callback
      { r with
        lease := some l.workDone.1
        work := some { w with phase := if l.workDone.2 then .releasing else .chaining } } .none
  | noCallback (h : w.phase = .completed) (hc : w.leaseCallback = false ∨ r.lease = none) :
    NativeMove g r w .callback { r with work := some { w with phase := .chaining } } .none
  | release (h : w.phase = .releasing) :
    NativeMove g r w .release { r with work := some { w with phase := .chaining } } .release
  | chain (h : w.phase = .chaining) (scheduled : Bool) :
    NativeMove g r w .chain { r with work := some { w with phase := .finished, scheduled } } .none
  | observe (o : NativeResult F) (ho : w.outcome = some o) (hno : w.observed = false) :
    NativeMove g r w .observe { r with work := some { w with observed := true } }
      (finishNativeFuture o)

/-- The steps of a request. -/
inductive Move (cfg : Config F) (g : Shared) (r : Request F) :
    Event F → Request F → Effect → Prop where
  | middleware {ev : MiddlewareEvent} {r' : Request F} {effect : Effect}
    (h : MiddlewareMove cfg g r ev r' effect) : Move cfg g r (.middleware ev) r' effect
  | app {ev : AppEvent} {r' : Request F} {effect : Effect} (h : AppMove cfg g r r' effect) :
    Move cfg g r (.app ev) r' effect
  | watcher {ev : WatcherEvent} {r' : Request F} (h : WatcherMove r ev r') :
    Move cfg g r (.watcher ev) r' .none
  | native {ev : NativeEvent F} {w : Work F} {r' : Request F} {effect : Effect}
    (hw : r.work = some w) (h : NativeMove g r w ev r' effect) :
    Move cfg g r (.native ev) r' effect

/-- What `handle` does after the body is there: a reply, or a submission. -/
private theorem handle_cases (cfg : Config F) (g : Shared) (r : Request F) (body : Bytes) :
    (∃ response, response.status ≠ 200 ∧
        r.handle cfg g body = { r with app := .responding response }) ∨
      (∃ result, r.handle cfg g body = { r with app := .done result }) ∨
      ∃ sub executor runtime, Submits cfg g r sub ∧ g.executor = some executor ∧
        g.runtime = some runtime ∧ g.isShutdown executor = false ∧
        decodeBody cfg r.scope body = .ok sub.array ∧
        r.handle cfg g body =
          { r with
            app := .submitted
            work := some { array := sub.array, executor, runtime }
            submission := some sub } := by
  unfold handle
  split
  · next response hdecode => exact .inl ⟨response, decodeBody_status hdecode, rfl⟩
  · next array hdecode =>
    split
    · next hfinite =>
      split
      · exact .inr (.inl ⟨_, rfl⟩)
      · next deadline hdeadline =>
        split
        · exact .inl ⟨_, by decide, rfl⟩
        · next hlt =>
          split
          · next executor runtime he hr =>
            split
            · exact .inr (.inl ⟨_, rfl⟩)
            · next hopen =>
              let sub : Submission F :=
                { array, deadline, checkedAt := g.now, lease := r.lease
                  clientKeyId := r.clientKeyId }
              have hs : Submits cfg g r sub :=
                ⟨⟨body, hdecode⟩, hfinite, hdeadline, rfl, Nat.lt_of_not_le hlt, rfl, rfl⟩
              exact .inr (.inr ⟨sub, executor, runtime, hs, he, hr, Bool.eq_false_iff.mpr hopen,
                hdecode, rfl⟩)
          · exact .inr (.inl ⟨_, rfl⟩)
    · exact .inl ⟨_, by decide, rfl⟩

/-- Everything the application can do. -/
theorem appStep_cases {cfg : Config F} {g : Shared} {r r' : Request F} {effect : Effect}
    {ev : AppEvent} (h : r.appStep cfg g ev = some (r', effect)) : AppMove cfg g r r' effect := by
  cases ev with
  | start response =>
    simp only [appStep] at h
    split at h
    · next happ =>
      have hawait : r.app.isAwait = true := by rw [happ]; rfl
      split at h
      · next hroute =>
        cases h
        exact .reply hawait _ rfl _ _ (.answer (.inl happ) _ fun _ ↦ .inl hroute)
      · next l hl hroute =>
        rcases handle_cases cfg g r r.body with ⟨response, hs, heq⟩ | ⟨result, heq⟩ |
          ⟨sub, ex, rt, hs, he, hr, hopen, hd, heq⟩
        · rw [heq] at h
          cases h
          exact .reply hawait _ rfl _ _ (.answer (.inl happ) _ fun h200 ↦ absurd h200 hs)
        · rw [heq] at h
          cases h
          exact .reply hawait _ rfl _ _ (.ended result)
        · rw [heq] at h
          cases h
          exact .submit happ (by rw [hl]; rfl) hs ex rt he hr hopen hd
      · next hl hroute =>
        cases h
        exact .readBody happ hroute hl
    · cases h
  | message m =>
    simp only [appStep] at h
    split at h
    · next body happ =>
      split at h
      · cases h
        exact .readOn happ _ _
      · next chunk =>
        rcases handle_cases cfg g (r.logRead (.request chunk false)) (body ++ chunk) with
          ⟨response, hs, heq⟩ | ⟨result, heq⟩ | ⟨sub, ex, rt, hs, he, hr, hopen, -, heq⟩
        · rw [heq] at h
          cases h
          exact .replyRead happ _ _ rfl (by rintro _ ⟨⟩; exact hs)
        · rw [heq] at h
          cases h
          exact .replyRead happ _ _ rfl (by rintro _ ⟨⟩)
        · rw [heq] at h
          cases h
          exact .submitRead happ _ ⟨hs.1, hs.2, hs.3, hs.4, hs.5, hs.6, hs.7⟩ ex rt he hr hopen
      · cases h
        exact .replyRead happ _ _ rfl (by rintro _ ⟨⟩)
      · cases h
        have hsame : r.logRead .other = { r.logRead .other with app := .reading body } := by
          rw [← happ]
          rfl
        rw [hsame]
        exact .readOn happ _ body
    · cases h
  | attach =>
    simp only [appStep] at h
    split at h
    · next happ =>
      cases h
      unfold attach
      split
      · next hl => exact .attachFails happ (by simp [hl]) _
      · next l hl =>
        split
        · next ha =>
          refine .attachFails happ ?_ _
          intro l₁ hl₁
          rw [hl] at hl₁
          cases hl₁
          exact ha
        · next l' ha => exact .attach happ hl ha
    · cases h
  | register =>
    simp only [appStep] at h
    split at h
    · next l w happ hl hw =>
      rw [Option.some.injEq] at h
      unfold register at h
      split at h
      · next ha =>
        cases h
        exact .register happ hl hw ha
      · next ha =>
        cases h
        exact .registerDone happ hl hw (Bool.eq_false_iff.mpr ha)
    · cases h
  | wrap =>
    simp only [appStep] at h
    split at h
    · next w happ hw =>
      cases h
      unfold wrap
      split
      · exact .wrap happ hw _ _
      · exact .wrap happ hw _ _
    · cases h
  | resume =>
    simp only [appStep] at h
    split at h
    · next w happ hw =>
      split at h
      · rw [Option.map_eq_some_iff] at h
        obtain ⟨o, ho, h⟩ := h
        have hawait : r.app.isAwait = true := by rw [happ]; rfl
        unfold deliver at h
        split at h
        · next v =>
          cases h
          exact .reply hawait _ rfl _ _ (.answer (.inr happ) _ fun _ ↦ .inr ⟨w, v, hw, ho⟩)
        · cases h
          exact .inferenceError happ hw _ ho _ (by decide)
        · cases h
          exact .reply hawait _ rfl _ _ (.answer (.inr happ) _ (by rintro ⟨⟩))
        · cases h
          exact .reply hawait _ rfl _ _ (.ended _)
      · cases h
    · cases h
  | send =>
    simp only [appStep] at h
    split at h
    · next happ =>
      cases h
      exact .reply (by rw [happ]; rfl) _ rfl _ _ (.send happ)
    · next happ =>
      cases h
      exact .reply (by rw [happ]; rfl) _ rfl _ _ (.ended _)
    · cases h
  | fail e =>
    simp only [appStep] at h
    split at h
    all_goals first
      | cases h; exact .reply (by simp [*, AppTask.isAwait]) _ rfl _ _ (.ended _)
      | cases h
  | cancelled =>
    simp only [appStep] at h
    split at h
    · next hc =>
      cases h
      exact .reply hc.2 _ rfl _ _ (.ended _)
    · cases h

/-- Everything the watcher can do. -/
theorem watcherStep_cases {r r' : Request F} {ev : WatcherEvent}
    (h : r.watcherStep ev = some r') : WatcherMove r ev r' := by
  cases ev with
  | message m =>
    simp only [watcherStep] at h
    split at h
    · next hw =>
      cases h
      exact .message hw _ _
    · cases h
  | fail =>
    simp only [watcherStep] at h
    split at h
    · next hw =>
      cases h
      exact .ended hw _
    · cases h
  | cancelled =>
    simp only [watcherStep] at h
    split at h
    · next hw =>
      cases h
      exact .ended hw.1 _
    · cases h

/-- Everything the native call can do. -/
theorem nativeStep_cases {cfg : Config F} {g : Shared} {r r' : Request F} {w : Work F}
    {effect : Effect} {ev : NativeEvent F} (h : r.nativeStep cfg g w ev = some (r', effect)) :
    NativeMove g r w ev r' effect := by
  cases ev with
  | advance ev =>
    simp only [nativeStep, Option.map_eq_some_iff, Prod.mk.injEq] at h
    obtain ⟨w', hw', rfl, rfl⟩ := h
    exact .advance (Work.advance_cases hw')
  | callback =>
    simp only [nativeStep] at h
    split at h
    · next hphase =>
      split at h
      · next l hc hl =>
        cases h
        exact .callback hphase hc hl
      · next hno =>
        cases h
        refine .noCallback hphase ?_
        cases hc : w.leaseCallback with
        | false => exact .inl rfl
        | true =>
          cases hl : r.lease with
          | none => exact .inr rfl
          | some l => exact absurd hl (hno l hc)
    · cases h
  | release =>
    simp only [nativeStep] at h
    split at h
    · next hphase =>
      cases h
      exact .release hphase
    · cases h
  | chain =>
    simp only [nativeStep] at h
    split at h
    · next hphase =>
      cases h
      exact .chain hphase _
    · cases h
  | observe =>
    simp only [nativeStep] at h
    split at h
    · next hno =>
      rw [Option.map_eq_some_iff] at h
      obtain ⟨o, ho, h⟩ := h
      cases h
      exact .observe o ho hno.2
    · cases h

/-- Everything a request can do. -/
theorem step_cases {cfg : Config F} {g : Shared} {r r' : Request F} {effect : Effect}
    {ev : Event F} (h : r.step cfg g ev = some (r', effect)) : Move cfg g r ev r' effect := by
  cases ev with
  | middleware ev => exact .middleware (middlewareStep_cases h)
  | app ev => exact .app (appStep_cases h)
  | watcher ev =>
    simp only [step, Option.map_eq_some_iff, Prod.mk.injEq] at h
    obtain ⟨_, h, rfl, rfl⟩ := h
    exact .watcher (watcherStep_cases h)
  | native ev =>
    simp only [step, Option.bind_eq_some_iff] at h
    obtain ⟨w, hw, h⟩ := h
    exact .native hw (nativeStep_cases h)

end Request
end InferenceServer.Server
