import InferenceServer.Server.Failure

/-!
# Draining terminates

Library `Server`. `stop_runtime` closes the controller and awaits `drain`
(`python/cuda_db/server/app.py:53–67`, `admission.py:50–58`), so the server goes down only if every
permit comes back. Once the deadlines have passed, what a request with a permit still has to do is
bounded, whatever clients send and whenever tasks are cancelled, and it never waits for anything but
its own tasks and its native call.
-/

namespace InferenceServer.Server

open InferenceServer.Base

variable {F : Type}

/-! ### What is left to do -/

/-- The middleware's part. Before the body is complete the tasks are still to come. -/
def Middleware.rank : Middleware → Nat
  | .uploadWait => 26
  | .uploadTop => 25
  | .racing => 9
  | .settleApp _ => 8
  | .settleWatcher => 8
  | .expireWatcher => 7
  | .refusing _ false => 6
  | .refusing _ true => 5
  | .unwindApp => 4
  | .unwindWatcher => 3
  | .finishing => 2
  | .releasing => 1
  | _ => 0

/-- The application's part, with the call it may submit. -/
def AppTask.rank : AppTask → Nat
  | .created => 14
  | .submitted => 6
  | .attached => 5
  | .registered => 4
  | .awaiting => 3
  | .responding _ => 2
  | .respondingBody => 1
  | _ => 0

def Watcher.rank : Watcher → Nat
  | .running => 1
  | _ => 0

def WorkPhase.rank : WorkPhase → Nat
  | .queued => 6
  | .running => 5
  | .predicting => 4
  | .completed => 3
  | .releasing => 2
  | .chaining => 1
  | .finished => 0

def Work.rank (w : Work F) : Nat := w.phase.rank + if w.observed then 0 else 1

theorem Middleware.rank_of_canUnwind {m : Middleware} (h : m.canUnwind = true) : 4 < m.rank := by
  cases m with
  | refusing _ started => cases started <;> simp [rank]
  | _ => simp_all [canUnwind, rank]

theorem Middleware.rank_of_canRefuse {m : Middleware} (h : m.canRefuse = true) : 6 < m.rank := by
  cases m <;> simp_all [canRefuse, rank]

namespace Request

variable {cfg : Config F} {g : Shared} {r r' : Request F} {effect : Effect}

/-- The steps that a request with a permit still has to make. -/
def rank (r : Request F) : Nat :=
  r.middleware.rank + r.app.rank + r.watcher.rank + (r.work.map Work.rank).getD 0

/-- The steps that the server makes by itself: no message, cancellation or failure from outside
takes part. -/
def Event.isOwn : Event F → Bool
  | .middleware .enter => false
  | .middleware .interrupt => false
  | .middleware (.message _) => false
  | .middleware _ => true
  | .app (.message _) => false
  | .app (.fail _) => false
  | .app _ => true
  | .watcher .cancelled => true
  | .watcher _ => false
  | .native _ => true

/-- A step of the middleware after the deadline. -/
theorem rank_middleware {ev : MiddlewareEvent} (hs : r.middleware.stage ≠ .outside)
    (hdue : r.expired g = true) (h : MiddlewareMove cfg g r ev r' effect) :
    r'.rank + (if (Event.middleware ev : Event F).isOwn then 1 else 0) ≤ r.rank := by
  have outside {m : Middleware} {p : Prop} (hm : r.middleware = m) (ho : m.stage = .outside) : p :=
    absurd (by rw [hm]; exact ho) hs
  have turn (k : Nat) {n : Nat} (hm : r.middleware.rank = n) (hlt : k < n) :
      k + r.app.rank + r.watcher.rank + (r.work.map Work.rank).getD 0 +
        (if (Event.middleware ev : Event F).isOwn then 1 else 0) ≤ r.rank := by
    simp only [rank]
    split <;> omega
  cases h with
  | unauthorized hm => exact outside hm rfl
  | overloaded hm => exact outside hm rfl
  | through hm => exact outside hm rfl
  | acquire hm => exact outside hm rfl
  | rejectSend _ hm => exact outside hm rfl
  | rejectDone _ _ hm => exact outside hm rfl
  | throughDone hm => exact outside hm rfl
  | forwardCancel => exact Nat.le_refl _
  | uploadWait _ hd =>
    rw [hdue] at hd
    cases hd
  | unwind hm => exact turn 4 rfl (Middleware.rank_of_canUnwind hm)
  | refuse hm => exact turn 6 rfl (Middleware.rank_of_canRefuse hm)
  | refuseSend _ hm => exact turn 5 (n := 6) (by rw [hm]; rfl) (by decide)
  | settleWatcher hm => exact turn 8 (n := 9) (by rw [hm]; rfl) (by decide)
  | settleApp hm => exact turn 8 (n := 9) (by rw [hm]; rfl) (by decide)
  | expireWatcher _ hm => exact turn 7 (n := 8) (by rw [hm]; rfl) (by decide)
  | unwindWatcher hm => exact turn 3 (n := 4) (by rw [hm]; rfl) (by decide)
  | finishing hm => exact turn 2 (n := 3) (by rw [hm]; rfl) (by decide)
  | finishHttp hm => exact turn _ (n := 2) (by rw [hm]; rfl) (by dsimp only; split <;> decide)
  | release hm => exact turn 0 (n := 1) (by rw [hm]; rfl) (by decide)
  | readUnwind hm => exact turn 4 (n := 26) (by rw [hm]; rfl) (by decide)
  | readRefuse hm => exact turn 6 (n := 26) (by rw [hm]; rfl) (by decide)
  | readOn hm => exact turn 25 (n := 26) (by rw [hm]; rfl) (by decide)
  | readLast hm =>
    -- the two tasks have fifteen steps to go
    have hrank : r.middleware.rank = 26 := by rw [hm]; rfl
    change 9 + 14 + 1 + (r.work.map Work.rank).getD 0 + 0 ≤ r.rank
    simp only [rank]
    omega

/-- A step of the application. -/
theorem rank_app (hok : r.Ok) {l : AdmissionLease} (hl : r.lease = some l)
    (h : AppMove cfg g r r' effect) : r'.rank + 1 ≤ r.rank := by
  have reading {body : Bytes} {p : Prop} (ha : r.app = .reading body) : p := by
    have hno := hok.lease_of_reading ha
    rw [hl] at hno
    cases hno
  have moved (k : Nat) {n : Nat} {a : AppTask} (ha : r.app = a) (hn : a.rank = n) (hlt : k < n) :
      r.middleware.rank + k + r.watcher.rank + (r.work.map Work.rank).getD 0 + 1 ≤ r.rank := by
    rw [rank, ha, hn]
    omega
  cases h with
  | reply hawait _ _ _ _ hr =>
    cases hr with
    | answer ha =>
      rcases ha with ha | ha
      · exact moved 2 ha rfl (by decide)
      · exact moved 2 ha rfl (by decide)
    | send ha => exact moved 1 (n := 2) ha rfl (by decide)
    | ended =>
      cases ha : r.app with
      | reading => exact reading ha
      | created => exact moved 0 ha rfl (by decide)
      | awaiting => exact moved 0 ha rfl (by decide)
      | responding => exact moved 0 (n := 2) ha rfl (by decide)
      | respondingBody => exact moved 0 ha rfl (by decide)
      | _ =>
        rw [ha] at hawait
        cases hawait
  | replyRead ha => exact reading ha
  | readOn ha => exact reading ha
  | submitRead ha => exact reading ha
  | readBody _ _ hno =>
    rw [hl] at hno
    cases hno
  | submit ha =>
    -- the call it submits has seven steps to go
    have hnone := ((hok.leased l hl).custody.of_created (.inr ha)).1
    change r.middleware.rank + 6 + r.watcher.rank + 7 + 1 ≤ r.rank
    simp only [rank, ha, hnone, AppTask.rank, Option.map_none, Option.getD_none]
    omega
  | attach ha => exact moved 5 ha rfl (by decide)
  | attachFails ha => exact moved 0 ha rfl (by decide)
  | register ha _ hw =>
    simp only [rank, ha, hw, AppTask.rank, Option.map_some, Work.rank]
    omega
  | registerDone ha => exact moved 4 ha rfl (by decide)
  | wrap ha hw =>
    simp only [rank, ha, hw, AppTask.rank, Option.map_some, Work.rank]
    omega
  | inferenceError ha => exact moved 2 ha rfl (by decide)

/-- A step of the native call. -/
theorem rank_native {w : Work F} {ev : NativeEvent F} (hw : r.work = some w)
    (h : NativeMove g r w ev r' effect) : r'.rank + 1 ≤ r.rank := by
  have change {w' : Work F} {lease : Option AdmissionLease} (hlt : w'.rank < w.rank) :
      ({ r with lease, work := some w' } : Request F).rank + 1 ≤ r.rank := by
    simp only [rank, hw, Option.map_some, Option.getD_some]
    omega
  have moved {w' : Work F} {lease : Option AdmissionLease} {m n : WorkPhase} (hp : w.phase = m)
      (hp' : w'.phase = n) (ho : w'.observed = w.observed) (hlt : n.rank < m.rank) :
      ({ r with lease, work := some w' } : Request F).rank + 1 ≤ r.rank := by
    refine change ?_
    simp only [Work.rank, hp, hp', ho]
    omega
  cases h with
  | advance hadv =>
    cases hadv with
    | take hp => exact moved hp (n := .running) rfl rfl (by decide)
    | submit hp => exact moved hp (n := .predicting) rfl rfl (by decide)
    | missized hp => exact moved hp (n := .completed) rfl rfl (by decide)
    | reject hp => exact moved hp (n := .completed) rfl rfl (by decide)
    | complete hp => exact moved hp (n := .completed) rfl rfl (by decide)
  | callback hp => exact moved hp rfl rfl (by dsimp only; split <;> decide)
  | noCallback hp => exact moved hp (n := .chaining) rfl rfl (by decide)
  | release hp => exact moved hp (n := .chaining) rfl rfl (by decide)
  | chain hp => exact moved hp (n := .finished) rfl rfl (by decide)
  | observe _ _ hno =>
    refine change ?_
    simp only [Work.rank, hno, if_true]
    exact Nat.lt_succ_self _

/-- After the deadline no step of a request with a permit adds to what it has to do, and each of
its own steps does a part of it. -/
theorem rank_step {ev : Event F} (hok : r.Ok) {l : AdmissionLease} (hl : r.lease = some l)
    (hdue : r.expired g = true) (h : r.step cfg g ev = some (r', effect)) :
    r'.rank + (if ev.isOwn then 1 else 0) ≤ r.rank := by
  cases step_cases h with
  | middleware hmove => exact rank_middleware (hok.leased l hl).stage hdue hmove
  | app hmove =>
    have hlt := rank_app hok hl hmove
    split <;> omega
  | watcher hmove =>
    cases hmove with
    | message hw _ watcher =>
      have hle : watcher.rank ≤ r.watcher.rank := by
        rw [hw]
        cases watcher <;> exact Nat.le_of_ble_eq_true rfl
      change r.middleware.rank + r.app.rank + watcher.rank + (r.work.map Work.rank).getD 0 ≤ r.rank
      simp only [rank]
      omega
    | ended hw =>
      simp only [rank, hw, Watcher.rank]
      split <;> omega
  | native hw hmove => exact rank_native hw hmove

end Request

/-! ### Why a request is never stuck -/

/-- It waits for an application that was cancelled. -/
def Middleware.cancelsApp : Middleware → Bool
  | .settleApp _ => true
  | .unwindApp => true
  | _ => false

/-- It waits, now or next, for a watcher that was cancelled. -/
def Middleware.cancelsWatcher : Middleware → Bool
  | .settleWatcher => true
  | .expireWatcher => true
  | .unwindApp => true
  | .unwindWatcher => true
  | _ => false

namespace Request

variable {cfg : Config F} {g : Shared} {r r' : Request F} {effect : Effect}

/-- What is awaited was told to end, and a permit comes with a deadline. -/
structure Steered (r : Request F) : Prop where
  deadline : r.lease.isSome = true → r.deadline.isSome = true
  app : r.middleware.cancelsApp = true → r.appCancel = true
  watcher : r.middleware.cancelsWatcher = true → r.watcherCancel = true
  created : ∀ disconnected, r.middleware = .settleApp disconnected → r.app ≠ .idle

theorem steered_new (scope : Scope) : Steered ({ scope } : Request F) :=
  ⟨by rintro ⟨⟩, by rintro ⟨⟩, by rintro ⟨⟩, by rintro _ ⟨⟩⟩

/-- Steps of the other tasks. -/
theorem Steered.frame (h : r.Steered) (hm : r'.middleware = r.middleware)
    (ha : r'.appCancel = r.appCancel) (hw : r'.watcherCancel = r.watcherCancel)
    (hd : r'.deadline = r.deadline) (hl : r'.lease.isSome = r.lease.isSome)
    (happ : r'.app = .idle → r.app = .idle) : r'.Steered where
  deadline hlease := by
    rw [hd]
    exact h.deadline (hl ▸ hlease)
  app hc := by
    rw [ha]
    exact h.app (hm ▸ hc)
  watcher hc := by
    rw [hw]
    exact h.watcher (hm ▸ hc)
  created d hc hidle := h.created d (hm ▸ hc) (happ hidle)

/-- Steps of the middleware to where it awaits none of the tasks. -/
theorem Steered.away (h : r.Steered) (hd : r'.deadline = r.deadline)
    (hl : r'.lease.isSome = r.lease.isSome) (ha : r'.middleware.cancelsApp = false)
    (hw : r'.middleware.cancelsWatcher = false) : r'.Steered where
  deadline hlease := by
    rw [hd]
    exact h.deadline (hl ▸ hlease)
  app hc := by
    rw [ha] at hc
    cases hc
  watcher hc := by
    rw [hw] at hc
    cases hc
  created d hc := by
    rw [hc] at ha
    cases ha

theorem Steered.unwind (h : r.Steered) : r.unwind.Steered :=
  ⟨h.deadline, fun _ ↦ rfl, fun _ ↦ rfl, by rintro _ ⟨⟩⟩

theorem Steered.middleware {ev : MiddlewareEvent} (h : r.Steered)
    (hmove : MiddlewareMove cfg g r ev r' effect) : r'.Steered := by
  cases hmove with
  | overloaded _ hp => cases hp <;> exact h.away rfl rfl rfl rfl
  | acquire _ _ _ _ _ _ hm =>
    rcases hm with rfl | ⟨_, rfl⟩
    all_goals exact ⟨fun _ ↦ rfl, by rintro ⟨⟩, by rintro ⟨⟩, by rintro _ ⟨⟩⟩
  | unwind => exact h.unwind
  | readUnwind => exact ⟨h.deadline, fun _ ↦ rfl, fun _ ↦ rfl, by rintro _ ⟨⟩⟩
  | settleWatcher => exact ⟨h.deadline, by rintro ⟨⟩, fun _ ↦ rfl, by rintro _ ⟨⟩⟩
  | settleApp _ _ ha =>
    refine ⟨h.deadline, fun _ ↦ rfl, by rintro ⟨⟩, ?_⟩
    intro _ _ hidle
    rw [show r.app = .idle from hidle] at ha
    cases ha
  | expireWatcher => exact ⟨h.deadline, by rintro ⟨⟩, fun _ ↦ rfl, by rintro _ ⟨⟩⟩
  | unwindWatcher hm =>
    exact ⟨h.deadline, by rintro ⟨⟩, fun _ ↦ h.watcher (by rw [hm]; rfl), by rintro _ ⟨⟩⟩
  | forwardCancel _ _ ha hw =>
    exact ⟨h.deadline, fun hc ↦ ha (h.app hc), fun hc ↦ hw (h.watcher hc), h.created⟩
  | finishHttp _ l hl =>
    refine h.away rfl (by rw [hl]; rfl) ?_ ?_
    all_goals
      dsimp only
      split <;> rfl
  | _ => exact h.away rfl rfl rfl rfl

theorem AppTask.ne_idle_of_isReply {a : AppTask} (h : a.isReply = true) : a ≠ .idle := by
  rintro rfl
  cases h

theorem Steered.step {ev : Event F} (h : r.Steered)
    (hstep : r.step cfg g ev = some (r', effect)) : r'.Steered := by
  cases step_cases hstep with
  | middleware hmove => exact h.middleware hmove
  | app hmove =>
    cases hmove with
    | reply _ a ha =>
      exact h.frame rfl rfl rfl rfl rfl fun hidle ↦ absurd hidle (AppTask.ne_idle_of_isReply ha)
    | replyRead _ m a ha =>
      exact h.frame rfl rfl rfl rfl rfl fun hidle ↦ absurd hidle (AppTask.ne_idle_of_isReply ha)
    | attach _ hl => exact h.frame rfl rfl rfl rfl (by rw [hl]; rfl) (by rintro ⟨⟩)
    | registerDone _ hl => exact h.frame rfl rfl rfl rfl (by rw [hl]; rfl) (by rintro ⟨⟩)
    | _ => exact h.frame rfl rfl rfl rfl rfl (by rintro ⟨⟩)
  | watcher hmove => cases hmove <;> exact h.frame rfl rfl rfl rfl rfl id
  | native _ hmove =>
    cases hmove with
    | callback _ _ hl => exact h.frame rfl rfl rfl rfl (by rw [hl]; rfl) id
    | _ => exact h.frame rfl rfl rfl rfl rfl id

/-- The request can make a step of its own. -/
def OwnStep (cfg : Config F) (g : Shared) (r : Request F) : Prop :=
  ∃ ev : Event F, ev.isOwn = true ∧ (r.step cfg g ev).isSome = true

/-- An application that was cancelled gets to its end. -/
theorem ownStep_app (hok : r.Ok) {l : AdmissionLease} (hl : r.lease = some l)
    (hcancel : r.appCancel = true) (hover : r.app.isOver = false) : r.OwnStep cfg g := by
  have cancelled (ha : r.app.isAwait = true) : r.OwnStep cfg g := by
    refine ⟨.app .cancelled, rfl, ?_⟩
    simp only [step, appStep, hcancel, ha, and_self, if_true, Option.isSome_some]
  have hcustody := (hok.leased l hl).custody
  cases ha : r.app with
  | idle =>
    rw [ha] at hover
    cases hover
  | done result =>
    rw [ha] at hover
    cases hover
  | created => exact cancelled (by rw [ha]; rfl)
  | awaiting => exact cancelled (by rw [ha]; rfl)
  | responding response => exact cancelled (by rw [ha]; rfl)
  | respondingBody => exact cancelled (by rw [ha]; rfl)
  | reading body =>
    rw [hok.lease_of_reading ha] at hl
    cases hl
  | submitted =>
    refine ⟨.app .attach, rfl, ?_⟩
    simp only [step, appStep, ha, if_true, Option.isSome_some]
  | attached =>
    rw [ha] at hcustody
    cases hw : r.work with
    | none =>
      rw [hw] at hcustody
      cases hcustody with
      | unused hplain => cases hplain
    | some w =>
      refine ⟨.app .register, rfl, ?_⟩
      simp only [step, appStep, ha, hl, hw, Option.isSome_some]
  | registered =>
    rw [ha] at hcustody
    cases hw : r.work with
    | none =>
      rw [hw] at hcustody
      cases hcustody with
      | unused hplain => cases hplain
    | some w =>
      refine ⟨.app .wrap, rfl, ?_⟩
      simp only [step, appStep, ha, hw, Option.isSome_some]

/-- So does a watcher. -/
theorem ownStep_watcher (hcancel : r.watcherCancel = true) (hover : r.watcher.isOver = false) :
    r.OwnStep cfg g := by
  have hrun : r.watcher = .running := by
    cases hw : r.watcher with
    | running => rfl
    | idle =>
      rw [hw] at hover
      cases hover
    | done failed =>
      rw [hw] at hover
      cases hover
  refine ⟨.watcher .cancelled, rfl, ?_⟩
  simp only [step, watcherStep, hrun, hcancel, and_self, if_true, Option.map_some,
    Option.isSome_some]

/-- A native call that owes the permit moves on. -/
theorem ownStep_native {w : Work F} (hw : r.work = some w) (hu : w.unfinished = true) :
    r.OwnStep cfg g := by
  have native (ev : NativeEvent F) (h : (r.nativeStep cfg g w ev).isSome = true) :
      r.OwnStep cfg g := by
    refine ⟨.native ev, rfl, ?_⟩
    simp only [step, hw, Option.bind_some]
    exact h
  cases hp : w.phase with
  | queued =>
    refine native (.advance .take) ?_
    simp only [nativeStep, Work.advance, hp, if_true, Option.map_some, Option.isSome_some]
  | running =>
    refine native (.advance .predict) ?_
    simp only [nativeStep, Work.advance, hp, if_true, Option.isSome_map]
    split
    · rfl
    · split <;> rfl
  | predicting =>
    refine native (.advance (.complete (.ok (0, [])))) ?_
    simp only [nativeStep, Work.advance, hp, if_true, Option.map_some, Option.isSome_some]
  | completed =>
    refine native .callback ?_
    simp only [nativeStep, hp, if_true]
    split <;> rfl
  | releasing =>
    refine native .release ?_
    simp only [nativeStep, hp, if_true, Option.isSome_some]
  | chaining =>
    rw [Work.unfinished, hp] at hu
    cases hu
  | finished =>
    rw [Work.unfinished, hp] at hu
    cases hu

/-- After its deadline a request that holds a permit is never stuck. -/
theorem ownStep_of_unfinished (hok : r.Ok) (hst : r.Steered) (hdue : r.expired g = true)
    (hu : r.unfinished = true) : r.OwnStep cfg g := by
  rw [unfinished, Bool.and_eq_true] at hu
  obtain ⟨l, hl⟩ := Option.isSome_iff_exists.mp hu.1
  have hstage := (hok.leased l hl).stage
  have own (ev : MiddlewareEvent) (he : (Event.middleware ev : Event F).isOwn = true)
      (h : (r.middlewareStep cfg g ev).isSome = true) : r.OwnStep cfg g := ⟨.middleware ev, he, h⟩
  have resumes (h : (r.resume g).isSome = true) : r.OwnStep cfg g := by
    refine own .resume rfl ?_
    rw [middlewareStep, Option.isSome_map]
    exact h
  cases hm : r.middleware with
  | entry => exact absurd (by rw [hm]; rfl) hstage
  | rejecting response started => exact absurd (by rw [hm]; rfl) hstage
  | through => exact absurd (by rw [hm]; rfl) hstage
  | uploadTop =>
    refine own .pollUpload rfl ?_
    simp only [middlewareStep, hm, hdue, if_true, Option.isSome_some]
  | uploadWait =>
    refine own .uploadTimeout rfl ?_
    simp only [middlewareStep, hm, hdue, and_self, if_true, Option.isSome_some]
  | refusing response started =>
    refine own .send rfl ?_
    cases started with
    | false => simp only [middlewareStep, hm, Option.isSome_some]
    | true => simp only [middlewareStep, hm, Option.isSome_some]
  | racing =>
    refine resumes ?_
    simp only [resume, hm, hdue, or_true, if_true]
    split <;> rfl
  | settleWatcher =>
    cases hover : r.watcher.isOver with
    | true =>
      refine resumes ?_
      simp only [resume, hm, hover, if_true, Option.isSome_some]
    | false => exact ownStep_watcher (hst.watcher (by rw [hm]; rfl)) hover
  | settleApp disconnected =>
    cases hover : r.app.isOver with
    | true =>
      refine resumes ?_
      cases ha : r.app with
      | idle => exact absurd ha (hst.created disconnected hm)
      | done result =>
        cases result with
        | raised e => simp only [resume, hm, ha, Option.isSome_some]
        | returned =>
          simp only [resume, hm, ha]
          split <;> rfl
        | cancelled =>
          simp only [resume, hm, ha]
          split <;> rfl
      | _ =>
        rw [ha] at hover
        cases hover
    | false => exact ownStep_app hok hl (hst.app (by rw [hm]; rfl)) hover
  | expireWatcher =>
    cases hover : r.watcher.isOver with
    | true =>
      refine resumes ?_
      simp only [resume, hm, hover, if_true]
      split <;> rfl
    | false => exact ownStep_watcher (hst.watcher (by rw [hm]; rfl)) hover
  | unwindApp =>
    cases hover : r.app.isOver with
    | true =>
      refine resumes ?_
      simp only [resume, hm, hover, if_true, Option.isSome_some]
    | false => exact ownStep_app hok hl (hst.app (by rw [hm]; rfl)) hover
  | unwindWatcher =>
    cases hover : r.watcher.isOver with
    | true =>
      refine resumes ?_
      simp only [resume, hm, hover, if_true, Option.isSome_some]
    | false => exact ownStep_watcher (hst.watcher (by rw [hm]; rfl)) hover
  | finishing =>
    refine own .finishHttp rfl ?_
    simp only [middlewareStep, hm, if_true, hl, Option.map_some, Option.isSome_some]
  | releasing =>
    refine own .release rfl ?_
    simp only [middlewareStep, hm, if_true, Option.isSome_some]
  | done =>
    have hwork := hu.2
    rw [hm, bne_self_eq_false, Bool.false_or] at hwork
    cases hw : r.work with
    | none =>
      rw [hw] at hwork
      cases hwork
    | some w =>
      rw [hw, Option.any_some] at hwork
      exact ownStep_native hw hwork

/-- Only an acquisition sets a deadline. -/
theorem deadline_of_step {ev : Event F} (h : r.step cfg g ev = some (r', effect))
    (he : effect ≠ .acquire) : r'.deadline = r.deadline := by
  cases step_cases h with
  | middleware hmove =>
    cases hmove with
    | overloaded _ hp => cases hp <;> rfl
    | acquire => exact absurd rfl he
    | _ => rfl
  | app hmove => cases hmove <;> rfl
  | watcher hmove => cases hmove <;> rfl
  | native _ hmove => cases hmove <;> rfl

end Request

namespace Application

variable {cfg : Config F} {s t u : Application F}

/-- Request `i` holds or held a permit. -/
def holdsLease (s : Application F) (i : Nat) : Bool := s.requests[i]?.any (·.lease.isSome)

/-- A step towards the return of a permit that is out in `s`. -/
def isDrainStep (s : Application F) : Event F → Bool
  | .request i ev => s.holdsLease i && ev.isOwn
  | _ => false

/-- The steps of a request towards the return of its permit. -/
def owed (r : Request F) : Nat := if r.lease.isSome then r.rank else 0

/-- All of them. -/
def drainWork (s : Application F) : Nat := (s.requests.map owed).sum

/-- The controller is closed and the deadlines have passed, since `s`. -/
structure Draining (cfg : Config F) (s t : Application F) : Prop where
  balanced : Balanced cfg t
  steered : ∀ r ∈ t.requests, r.Steered
  closed : t.shared.admission.closed = true
  due : ∀ r ∈ t.requests, ∀ d, r.deadline = some d → d ≤ t.shared.now
  leases : ∀ i, t.holdsLease i = s.holdsLease i

theorem stopExecutor_now (s : Application F) : (s.stopExecutor cfg).shared.now = s.shared.now := by
  unfold stopExecutor
  split <;> rfl

theorem stopRuntime_now (s : Application F) : (s.stopRuntime cfg).shared.now = s.shared.now := by
  unfold stopRuntime
  split
  · rfl
  · exact stopExecutor_now s

theorem LifespanMove.now_eq {ev : LifespanEvent} (h : LifespanMove cfg s ev t) :
    t.shared.now = s.shared.now := by
  cases h with
  | stopRuntime => exact stopRuntime_now s
  | joinCancelled => exact stopRuntime_now s
  | stopExecutor => exact stopExecutor_now s
  | _ => rfl

/-- The lifespan, the clock and the other threads leave the requests alone. -/
theorem Draining.frame (h : Draining cfg s t) (hb : Balanced cfg u) (hr : u.requests = t.requests)
    (hc : u.shared.admission.closed = true) (hn : t.shared.now ≤ u.shared.now) :
    Draining cfg s u ∧ u.drainWork ≤ t.drainWork := by
  refine ⟨⟨hb, hr ▸ h.steered, hc, ?_, ?_⟩, ?_⟩
  · intro r hmem d hd
    exact Nat.le_trans (h.due r (hr ▸ hmem) d hd) hn
  · intro i
    rw [holdsLease, hr]
    exact h.leases i
  · rw [drainWork, drainWork, hr]

/-- A step of one request. -/
theorem Draining.request (h : Draining cfg s t) {i : Nat} {r r' : Request F} {effect : Effect}
    {ev : Request.Event F} (hr : t.requests[i]? = some r)
    (hstep : r.step cfg t.shared ev = some (r', effect)) :
    let u := { t with shared := t.shared.apply effect, requests := t.requests.set i r' }
    Draining cfg s u ∧
      u.drainWork + (if s.isDrainStep (.request i ev) then 1 else 0) ≤ t.drainWork := by
  have hmem := List.mem_of_getElem? hr
  have hok := h.balanced.ok r hmem
  have hst := h.steered r hmem
  have hne : effect ≠ .acquire := by
    rintro rfl
    obtain ⟨c, hc⟩ := Request.tryAcquire_of_step hstep
    have hopen := (AdmissionController.tryAcquire_eq_some.mp hc).1
    rw [h.closed] at hopen
    cases hopen
  have hlease := Request.lease_isSome_of_step hstep hne
  have hnow : (t.shared.apply effect).now = t.shared.now := by cases effect <;> rfl
  have hholds : s.holdsLease i = r.lease.isSome := by
    rw [← h.leases i, holdsLease, hr, Option.any_some]
  refine ⟨⟨h.balanced.request hr hstep, forall_mem_set h.steered (hst.step hstep),
    apply_closed _ _ h.closed, ?_, ?_⟩, ?_⟩
  · intro x hx d hd
    change d ≤ (t.shared.apply effect).now
    rw [hnow]
    rcases List.mem_or_eq_of_mem_set hx with hx | rfl
    · exact h.due x hx d hd
    · rw [Request.deadline_of_step hstep hne] at hd
      exact h.due r hmem d hd
  · intro j
    rw [← h.leases j, holdsLease, holdsLease, List.getElem?_set]
    split
    · next hij =>
      subst hij
      rw [if_pos (List.getElem?_eq_some_iff.mp hr).1, hr, Option.any_some, Option.any_some, hlease]
    · rfl
  · have hsum := sum_map_set (b := r') (f := owed) hr
    have howed : owed r' + (if s.isDrainStep (.request i ev) then 1 else 0) ≤ owed r := by
      simp only [owed, isDrainStep, hholds, hlease]
      cases hl : r.lease with
      | none => simp
      | some l =>
        obtain ⟨d, hd⟩ := Option.isSome_iff_exists.mp (hst.deadline (by rw [hl]; rfl))
        have hdue : r.expired t.shared = true := by
          rw [Request.expired, hd]
          exact decide_eq_true (h.due r hmem d hd)
        simp only [Option.isSome_some, if_true, Bool.true_and]
        exact Request.rank_step hok hl hdue hstep
    change ((t.requests.set i r').map owed).sum + _ ≤ (t.requests.map owed).sum
    omega

/-- Every step of the application. -/
theorem Draining.step {e : Event F} (h : Draining cfg s t) (hu : t.step cfg e = some u) :
    Draining cfg s u ∧ u.drainWork + (if s.isDrainStep e then 1 else 0) ≤ t.drainWork := by
  have hb := h.balanced.step hu
  cases step_cases hu with
  | tick => exact h.frame hb rfl h.closed (Nat.le_succ _)
  | probe => exact h.frame hb rfl h.closed (Nat.le_refl _)
  | shutdownRuntime => exact h.frame hb rfl h.closed (Nat.le_refl _)
  | shutdownExecutor => exact h.frame hb rfl h.closed (Nat.le_refl _)
  | lifespan hmove =>
    refine h.frame hb hmove.requests_eq ?_ (Nat.le_of_eq hmove.now_eq.symm)
    rcases hmove.admission_eq with heq | heq
    · rw [heq]
      exact h.closed
    · rw [heq]
      rfl
  | request hr hstep => exact h.request hr hstep
  | arrive scope =>
    refine ⟨⟨hb, forall_mem_snoc h.steered (Request.steered_new scope), h.closed, ?_, ?_⟩, ?_⟩
    · refine forall_mem_snoc h.due ?_
      rintro d ⟨⟩
    · intro i
      rw [← h.leases i, holdsLease, holdsLease, List.getElem?_append]
      split
      · rfl
      · next hlt =>
        rw [List.getElem?_eq_none (Nat.le_of_not_lt hlt), List.getElem?_singleton]
        split <;> rfl
    · simp [drainWork, owed, isDrainStep]

/-- Requests know their deadlines and cancel what they await. -/
theorem steered_step (h : ∀ r ∈ s.requests, r.Steered) {e : Event F} (ht : s.step cfg e = some t) :
    ∀ r ∈ t.requests, r.Steered := by
  cases step_cases ht with
  | arrive scope => exact forall_mem_snoc h (Request.steered_new scope)
  | request hr hstep => exact forall_mem_set h ((h _ (List.mem_of_getElem? hr)).step hstep)
  | lifespan hmove =>
    rw [hmove.requests_eq]
    exact h
  | _ => exact h

theorem steered_exec {es : List (Event F)} (h : exec (step cfg) (init cfg) es = some s) :
    ∀ r ∈ s.requests, r.Steered :=
  exec_preserves (P := fun u ↦ ∀ r ∈ u.requests, r.Steered) (fun _ _ _ hu hv ↦ steered_step hu hv) h
    fun _ hr ↦ absurd hr List.not_mem_nil

/-- Until the controller is empty, a request that holds a permit can make a step. -/
theorem Draining.progress (h : Draining cfg s t) (hd : t.shared.admission.drained = false) :
    ∃ i ev u, s.isDrainStep (.request i ev) = true ∧ t.step cfg (.request i ev) = some u := by
  have hpos : 0 < t.requests.countP Request.unfinished := by
    refine Nat.pos_of_ne_zero fun hzero ↦ ?_
    have hinflight := h.balanced.inflight
    rw [hzero] at hinflight
    rw [AdmissionController.drained, hinflight] at hd
    cases hd
  obtain ⟨r, hmem, hu⟩ := List.countP_pos_iff.mp hpos
  obtain ⟨i, hi⟩ := List.mem_iff_getElem?.mp hmem
  have hleased : r.lease.isSome = true := (Bool.and_eq_true _ _ ▸ hu : _ ∧ _).1
  -- its deadline has passed
  obtain ⟨d, hdl⟩ := Option.isSome_iff_exists.mp ((h.steered r hmem).deadline hleased)
  have hexpired : r.expired t.shared = true := by
    rw [Request.expired, hdl]
    exact decide_eq_true (h.due r hmem d hdl)
  have howned : r.OwnStep cfg t.shared := Request.ownStep_of_unfinished
    (h.balanced.ok r hmem) (h.steered r hmem) hexpired hu
  obtain ⟨ev, hown, hstep⟩ := howned
  obtain ⟨⟨r', effect⟩, hstep⟩ := Option.isSome_iff_exists.mp hstep
  refine ⟨i, ev, _, ?_, by simp only [Application.step, hi, Option.bind_some, hstep]; rfl⟩
  rw [isDrainStep, ← h.leases i, holdsLease, hi, Option.any_some, hleased, hown]
  rfl

/-- Draining terminates. Once the controller is closed and the deadlines of all requests have
passed, every continuation, with any messages, cancellations, failures and restarts, has at most
`drainWork` more steps of the requests that hold a permit, and until the controller is empty one of
these steps is possible. -/
theorem drain_terminates (cfg : Config F) {es : List (Event F)} {s : Application F}
    (h : exec (step cfg) (init cfg) es = some s) (hclosed : s.shared.admission.closed = true)
    (hdue : ∀ r ∈ s.requests, ∀ d, r.deadline = some d → d ≤ s.shared.now)
    {fs : List (Event F)} {t : Application F} (hrun : exec (step cfg) s fs = some t) :
    fs.countP s.isDrainStep ≤ s.drainWork ∧
      (t.shared.admission.drained = true ∨
        ∃ e u, s.isDrainStep e = true ∧ t.step cfg e = some u) := by
  have hstart : Draining cfg s s :=
    ⟨balanced_exec h, steered_exec h, hclosed, hdue, fun _ ↦ rfl⟩
  have hend : Draining cfg s t :=
    exec_preserves (P := Draining cfg s) (fun _ _ _ hd hu ↦ (hd.step hu).1) hrun hstart
  constructor
  · have hle := exec_countP_le (I := Draining cfg s) (Q := fun _ ↦ True) (μ := drainWork)
      (p := s.isDrainStep) (fun _ _ _ _ hd hu ↦ (hd.step hu).1)
      (fun _ _ _ _ hd hu ↦ (hd.step hu).2) hrun (fun _ _ ↦ trivial) hstart
    omega
  · cases hd : t.shared.admission.drained with
    | true => exact .inl rfl
    | false =>
      right
      obtain ⟨i, ev, u, hcounted, hu⟩ := hend.progress hd
      exact ⟨.request i ev, u, hcounted, hu⟩

/-- A request is predicting when the server goes down, and its deadline passes. -/
def lateRun : List (Event Int) :=
  unitStartup ++ unitSubmission 0 rawScope [7, 0, 0, 0] ++
    ([.request 0 (.native (.advance .take)), .request 0 (.native (.advance .predict)),
      .lifespan .exit] : List (Event Int)) ++ List.replicate 10 .tick

/-- The deadline cancels the application, the middleware answers 504 and finishes; the permit comes
back only when the native call is done. -/
def lateDrain : List (Event Int) :=
  [.request 0 (.middleware .resume), .request 0 (.app .cancelled), .request 0 (.middleware .resume),
    .request 0 (.watcher .cancelled), .request 0 (.middleware .resume),
    .request 0 (.middleware .send), .request 0 (.middleware .send),
    .request 0 (.middleware .resume), .request 0 (.middleware .resume),
    .request 0 (.middleware .finishHttp),
    .request 0 (.native (.advance (.complete (.ok (1, [7]))))),
    .request 0 (.native .callback), .request 0 (.native .release)]

theorem drain_terminates_lateDrain :
    ∃ s t, exec (step unitServer) (init unitServer) lateRun = some s ∧
      exec (step unitServer) s lateDrain = some t ∧ lateDrain.countP s.isDrainStep = 13 ∧
      13 ≤ s.drainWork ∧ t.shared.admission.drained = true := by
  have hfacts : (exec (step unitServer) (init unitServer) lateRun).bind (fun s ↦
      (exec (step unitServer) s lateDrain).map fun t ↦
        (s.shared.admission.closed, s.requests.map (·.deadline), s.shared.now,
          lateDrain.countP s.isDrainStep, t.shared.admission.drained)) =
      some (true, [some 10], 10, 13, true) := by
    decide +kernel
  obtain ⟨s, hs, hfacts⟩ := Option.bind_eq_some_iff.mp hfacts
  obtain ⟨t, ht, hfacts⟩ := Option.map_eq_some_iff.mp hfacts
  simp only [Prod.mk.injEq] at hfacts
  obtain ⟨hclosed, hdeadlines, hnow, hcount, hdrained⟩ := hfacts
  have hdue : ∀ r ∈ s.requests, ∀ d, r.deadline = some d → d ≤ s.shared.now := by
    intro r hr d hd
    have hmem : r.deadline ∈ s.requests.map (·.deadline) := List.mem_map_of_mem hr
    rw [hdeadlines, hd, List.mem_singleton] at hmem
    cases hmem
    rw [hnow]
  have hle := (drain_terminates unitServer hs hclosed hdue ht).1
  exact ⟨s, t, hs, ht, hcount, hcount ▸ hle, hdrained⟩

end Application
end InferenceServer.Server
