import InferenceServer.Server.StackMoves
import InferenceServer.Server.TrackedSend

/-!
# Invariants of the stack

Library `Server`. Seven places of the middlewares start a response. What each of them relies on is
a clause of an invariant for the position it stands at: no application is running there, and
nothing was started before. The application's own start is bounded by its paths.
-/

namespace InferenceServer.Server

open InferenceServer.Base

variable {A S F : Type}

/-! ### The tasks and the lease at a position -/

/-- There is no task to wait for. -/
theorem Downstream.isSome_outcome_idle {d : Downstream A S} (h : d = .idle) :
    d.outcome.isSome = true := by
  rw [h]
  rfl

namespace Stack

variable {cfg : Config F} {next : App A S} {init : S} {s t : Stack A S} {e : Event A}

/-- A task ended with an exception that neither `Exception` nor `CancelledError` covers. -/
def Bare (s : Stack A S) : Prop :=
  ∃ e : Exc A, e.cls.isBare = true ∧
    (s.app.outcome = some (.error e) ∨ s.watcher.outcome = some (.error e))

/-- What the position says of the application and of the lease. -/
def Placed (s : Stack A S) : Prop :=
  match s.position with
  | .entry => s.app = .idle ∧ s.leased = false ∧ s.finishes = 0
  | .rejecting _ => s.app = .idle ∧ s.leased = false ∧ s.finishes = 0
  | .through => s.leased = false ∧ s.finishes = 0
  | .uploadTop => s.app = .idle ∧ s.leased = true ∧ s.finishes = 0
  | .uploadWait => s.app = .idle ∧ s.leased = true ∧ s.finishes = 0
  | .refusing _ => s.app.outcome.isSome = true ∧ s.leased = true ∧ s.finishes = 0
  | .racing => s.leased = true ∧ s.finishes = 0
  | .settleWatcher => s.app.outcome.isSome = true ∧ s.leased = true ∧ s.finishes = 0
  | .settleApp _ => s.leased = true ∧ s.finishes = 0
  | .expireWatcher => s.app.outcome.isSome = true ∧ s.leased = true ∧ s.finishes = 0
  | .unwindApp _ => s.leased = true ∧ s.finishes = 0
  | .unwindWatcher _ => s.app.outcome.isSome = true ∧ s.leased = true ∧ s.finishes = 0
  | .finishing _ => s.app.outcome.isSome = true ∧ s.leased = true ∧ s.finishes = 0
  | .exit _ => s.app.outcome.isSome = true ∧
    (s.leased = false ∧ s.finishes = 0 ∨
      s.leased = true ∧ (s.finishes = 1 ∨ s.finishes = 0 ∧ s.Bare))

theorem placed_start (call : HttpCall) : Placed (start call : Stack A S) := ⟨rfl, rfl, rfl⟩

theorem placed_middleware (h : s.Placed) (hmove : MiddlewareMove cfg init s e t) : t.Placed := by
  unfold Placed at h
  cases hmove with
  | reject keyId detail headers hp _ =>
    rw [hp] at h
    exact h
  | through keyId hp =>
    rw [hp] at h
    exact h.2
  | oversize keyId hp _ =>
    rw [hp] at h
    exact ⟨Downstream.isSome_outcome_idle h.1, rfl, h.2.2⟩
  | acquire keyId hp _ =>
    rw [hp] at h
    exact ⟨h.1, rfl, h.2.2⟩
  | rejectBody hp =>
    rw [hp] at h
    exact h
  | rejectOver o hp =>
    rw [hp] at h
    exact ⟨Downstream.isSome_outcome_idle h.1, .inl h.2⟩
  | refuseBody hp =>
    rw [hp] at h
    exact h
  | refuseOver o hp =>
    rw [hp] at h
    exact h.2
  | handle o hp =>
    rw [hp] at h
    exact h
  | pollWait hp _ =>
    rw [hp] at h
    exact h
  | pollExpired hp _ =>
    rw [hp] at h
    exact ⟨Downstream.isSome_outcome_idle h.1, h.2⟩
  | uploadTimeout hp _ =>
    rw [hp] at h
    exact ⟨Downstream.isSome_outcome_idle h.1, h.2⟩
  | receiveTimeout _ hp =>
    rw [hp] at h
    exact ⟨Downstream.isSome_outcome_idle h.1, h.2⟩
  | receiveFailed _ hp =>
    rw [hp] at h
    exact h.2
  | disconnect hp =>
    rw [hp] at h
    exact h.2
  | otherMessage hp =>
    rw [hp] at h
    exact h
  | tooLarge hp _ =>
    rw [hp] at h
    exact ⟨Downstream.isSome_outcome_idle h.1, h.2⟩
  | chunk hp _ =>
    rw [hp] at h
    exact h
  | complete hp _ =>
    rw [hp] at h
    exact h.2
  | throughOver hp ho =>
    rw [hp] at h
    exact ⟨Option.isSome_of_eq_some ho, .inl h⟩
  | appFirst hp ho =>
    rw [hp] at h
    exact ⟨ho, h⟩
  | raceLost hp _ =>
    rw [hp] at h
    exact h
  | raceCancelled _ hp =>
    rw [hp] at h
    exact h
  | settleWatcher _ o hp =>
    rw [hp] at h
    exact h.2
  | settleApp _ o hp _ =>
    rw [hp] at h
    exact h
  | settleExpired _ hp ho =>
    rw [hp] at h
    exact ⟨ho, h⟩
  | expireUnwind _ o hp =>
    rw [hp] at h
    exact h.2
  | expire _ hp _ =>
    rw [hp] at h
    exact h
  | unwindApp _ hp ho =>
    rw [hp] at h
    exact ⟨ho, h⟩
  | unwindAppBare _ hp ho he =>
    rw [hp] at h
    obtain ⟨hlease, hfin⟩ := h
    exact ⟨Option.isSome_of_eq_some ho, .inr ⟨hlease, .inr ⟨hfin, _, he, .inl ho⟩⟩⟩
  | unwindWatcher _ hp _ =>
    rw [hp] at h
    exact h
  | unwindWatcherBare _ hp ho he =>
    rw [hp] at h
    obtain ⟨happ, hlease, hfin⟩ := h
    exact ⟨happ, .inr ⟨hlease, .inr ⟨hfin, _, he, .inr ho⟩⟩⟩
  | forward _ task => cases task <;> exact h
  | finish hp =>
    rw [hp] at h
    obtain ⟨happ, hlease, hfin⟩ := h
    refine ⟨happ, .inr ⟨hlease, .inl ?_⟩⟩
    show s.finishes + 1 = 1
    rw [hfin]

/-- A step of a running application changes nothing here. -/
theorem Placed.frame (h : s.Placed) (hout : s.app.outcome = none) (hp : t.position = s.position)
    (hlease : t.leased = s.leased) (hfin : t.finishes = s.finishes) : t.Placed := by
  have hidle {P : Prop} (happ : s.app = .idle) : P := by
    rw [happ] at hout
    cases hout
  have hover {P : Prop} (happ : s.app.outcome.isSome = true) : P := by
    rw [hout] at happ
    cases happ
  unfold Placed at h ⊢
  rw [hp, hlease, hfin]
  cases hpos : s.position with
  | through =>
    rw [hpos] at h
    exact h
  | racing =>
    rw [hpos] at h
    exact h
  | settleApp disconnected =>
    rw [hpos] at h
    exact h
  | unwindApp o =>
    rw [hpos] at h
    exact h
  | entry =>
    rw [hpos] at h
    exact hidle h.1
  | rejecting rest =>
    rw [hpos] at h
    exact hidle h.1
  | uploadTop =>
    rw [hpos] at h
    exact hidle h.1
  | uploadWait =>
    rw [hpos] at h
    exact hidle h.1
  | refusing rest =>
    rw [hpos] at h
    exact hover h.1
  | settleWatcher =>
    rw [hpos] at h
    exact hover h.1
  | expireWatcher =>
    rw [hpos] at h
    exact hover h.1
  | unwindWatcher o =>
    rw [hpos] at h
    exact hover h.1
  | finishing o =>
    rw [hpos] at h
    exact hover h.1
  | exit x =>
    rw [hpos] at h
    exact hover h.1

/-- The watcher ends. -/
theorem Placed.watch (h : s.Placed) (hw : s.watcher = .running) (disconnected : Bool)
    (watcher : WatcherTask A) : Placed { s with disconnected, watcher } := by
  unfold Placed at h ⊢
  dsimp only
  cases hpos : s.position with
  | exit x =>
    rw [hpos] at h
    obtain ⟨happ, hlease⟩ := h
    refine ⟨happ, ?_⟩
    rcases hlease with hl | ⟨hl, hf | ⟨hf, e, he, ho | ho⟩⟩
    · exact .inl hl
    · exact .inr ⟨hl, .inl hf⟩
    · exact .inr ⟨hl, .inr ⟨hf, e, he, .inl ho⟩⟩
    · rw [hw] at ho
      cases ho
  | _ =>
    rw [hpos] at h
    exact h

/-- The task of a state that can take a turn is not over. -/
theorem outcome_of_state {d : Downstream A S} {st : S} (h : d.state init = some st) :
    d.outcome = none := by
  unfold Downstream.state at h
  split at h
  · rfl
  · rfl
  · cases h

theorem outcome_of_awaiting {d : Downstream A S} {c : AppCall} {k : c.Reply A → S}
    (h : d = .running (.awaiting c k)) : d.outcome = none := by
  rw [h]
  rfl

theorem placed_task (h : s.Placed) (hmove : TaskMove next init s e t) : t.Placed := by
  cases hmove with
  | turn hs =>
    obtain ⟨hp, hl, hf, -⟩ := turn_frame s (next _)
    exact h.frame (outcome_of_state hs) hp hl hf
  | cancelled e hs => exact h.frame (by rw [hs]; rfl) rfl rfl rfl
  | answered ev hs r => exact h.frame (outcome_of_awaiting hs) rfl rfl rfl
  | received hs _ => exact h.frame (outcome_of_awaiting hs) rfl rfl rfl
  | watchOn a => exact h
  | watchDisconnect hs => exact h.watch hs true _
  | watchFailed e hs => exact h.watch hs s.disconnected _

theorem placed_step (h : s.Placed) (hstep : s.step cfg next init e = some t) : t.Placed := by
  cases move_of_step hstep with
  | tick => exact h
  | middleware hmove => exact placed_middleware h hmove
  | task hmove => exact placed_task h hmove

/-! ### Starting a response -/

/-- Where the middlewares start a response of their own, none was started before. In the race
that is what `response_started` says. -/
def Quiet (s : Stack A S) : Prop :=
  match s.position with
  | .entry => s.boundary.responseStarted = false
  | .uploadTop => s.boundary.responseStarted = false
  | .uploadWait => s.boundary.responseStarted = false
  | .racing => s.responseStarted = false → s.boundary.responseStarted = false
  | .settleWatcher => s.responseStarted = false → s.boundary.responseStarted = false
  | .settleApp _ => s.responseStarted = false → s.boundary.responseStarted = false
  | .expireWatcher => s.responseStarted = false → s.boundary.responseStarted = false
  | _ => True

/-- The task ran the application from `init`, and it made the calls `cs`. -/
def Ran (next : App A S) (init : S) (cs : List AppCall) : Downstream A S → Prop
  | .running task => task.Ran next init cs
  | _ => cs = []

/-- What makes the stack start one response at most. -/
structure OneStart (next : App A S) (init : S) (s : Stack A S) : Prop where
  tracked : s.boundary.Tracked s.call.requestId
  quiet : s.Quiet
  /-- while the application runs, a response is started by it -/
  ran : ∃ cs, Ran next init cs s.app ∧
    (s.app.outcome = none → s.boundary.responseStarted = true →
      0 < cs.countP AppCall.startsResponse)

theorem oneStart_start (call : HttpCall) : OneStart next init (start call : Stack A S) where
  tracked := Boundary.tracked_new
  quiet := rfl
  ran := ⟨[], rfl, by rintro ⟨⟩⟩

/-- The middleware task moves on without sending. -/
theorem OneStart.keep (h : s.OneStart next init) (hcall : t.call = s.call) (happ : t.app = s.app)
    (hsent : t.boundary.sent = s.boundary.sent)
    (hstarted : t.boundary.responseStarted = s.boundary.responseStarted) (hquiet : t.Quiet) :
    t.OneStart next init where
  tracked := by
    rw [hcall]
    exact h.tracked.congr hsent hstarted
  quiet := hquiet
  ran := by
    obtain ⟨cs, hran, hpos⟩ := h.ran
    rw [happ, hstarted]
    exact ⟨cs, hran, hpos⟩

/-- The boundary changes when no application is running. -/
theorem OneStart.sent (h : s.OneStart next init) (hover : s.app.outcome.isSome = true)
    (hcall : t.call = s.call) (happ : t.app = s.app)
    (htracked : t.boundary.Tracked s.call.requestId) (hquiet : t.Quiet) :
    t.OneStart next init where
  tracked := by
    rw [hcall]
    exact htracked
  quiet := hquiet
  ran := by
    obtain ⟨cs, hran, -⟩ := h.ran
    refine ⟨cs, by rw [happ]; exact hran, ?_⟩
    intro hnone
    rw [happ] at hnone
    rw [hnone] at hover
    cases hover

/-- The middlewares answer when nothing was started and no application is running. -/
theorem OneStart.respond (h : s.OneStart next init) (hover : s.app.outcome.isSome = true)
    (hstarted : s.boundary.responseStarted = false) (place : Option Bytes → Position A)
    (status : Int) (detail : String) (headers : List (Bytes × Bytes))
    (hquiet : (s.respond place status detail headers).Quiet) :
    (s.respond place status detail headers).OneStart next init :=
  h.sent hover rfl rfl
    (h.tracked.send .middleware (jsonStart status detail headers) (fun _ ↦ hstarted)) hquiet

/-- The second message of an own response. -/
theorem OneStart.sendBody (h : s.OneStart next init) (hover : s.app.outcome.isSome = true)
    (content : Bytes) (p : Position A) (hquiet : (s.sendOwn (.body content false) p).Quiet) :
    (s.sendOwn (.body content false) p).OneStart next init :=
  h.sent hover rfl rfl (h.tracked.send .middleware (.body content false) (by rintro ⟨⟩)) hquiet

theorem OneStart.leave (h : s.OneStart next init) (hover : s.app.outcome.isSome = true)
    (o : AppOutcome A) : (s.leave o).OneStart next init :=
  h.sent hover rfl rfl (h.tracked.leave s.now o) trivial

theorem OneStart.unwind (h : s.OneStart next init) (o : AppOutcome A) :
    (s.unwind o).OneStart next init :=
  h.keep rfl rfl rfl rfl trivial

theorem OneStart.withKeyId (h : s.OneStart next init) (keyId : Option String) :
    (s.withKeyId keyId).OneStart next init :=
  h.keep rfl rfl rfl rfl h.quiet

theorem OneStart.acquired (h : s.OneStart next init) : (s.acquired cfg).OneStart next init :=
  h.keep rfl rfl rfl rfl h.quiet

/-- At a position with a clause. -/
theorem OneStart.quiet_at {p : Position A} (h : s.OneStart next init) (hp : s.position = p) :
    Quiet { s with position := p } := by
  subst hp
  exact h.quiet

theorem oneStart_middleware (hplaced : s.Placed) (h : s.OneStart next init)
    (hmove : MiddlewareMove cfg init s e t) : t.OneStart next init := by
  unfold Placed at hplaced
  cases hmove with
  | reject keyId detail headers hp _ =>
    rw [hp] at hplaced
    exact (h.withKeyId keyId).respond (Downstream.isSome_outcome_idle hplaced.1) (h.quiet_at hp)
      _ _ _ _ trivial
  | through keyId hp =>
    rw [hp] at hplaced
    refine ⟨h.tracked.congr rfl rfl, trivial, [], .ready (.nil init), ?_⟩
    intro _ hstarted
    have hquiet : s.boundary.responseStarted = false := h.quiet_at hp
    rw [show (s.withKeyId keyId).boundary.responseStarted = s.boundary.responseStarted from rfl,
      hquiet] at hstarted
    cases hstarted
  | oversize keyId hp _ =>
    rw [hp] at hplaced
    exact (h.withKeyId keyId).acquired.respond (Downstream.isSome_outcome_idle hplaced.1)
      (h.quiet_at hp) _ _ _ _ trivial
  | acquire keyId hp _ => exact h.keep rfl rfl rfl rfl (h.quiet_at hp)
  | rejectBody hp =>
    rw [hp] at hplaced
    exact h.sendBody (Downstream.isSome_outcome_idle hplaced.1) _ _ trivial
  | rejectOver o hp =>
    rw [hp] at hplaced
    exact h.leave (Downstream.isSome_outcome_idle hplaced.1) o
  | refuseBody hp =>
    rw [hp] at hplaced
    exact h.sendBody hplaced.1 _ _ trivial
  | refuseOver o hp => exact h.unwind o
  | handle o hp =>
    rw [hp] at hplaced
    exact h.sent hplaced.1 rfl rfl (h.tracked.responded s.now _ _ o) trivial
  | pollWait hp _ =>
    have hquiet : s.boundary.responseStarted = false := h.quiet_at hp
    exact h.keep rfl rfl rfl rfl hquiet
  | pollExpired hp _ =>
    rw [hp] at hplaced
    exact h.respond (Downstream.isSome_outcome_idle hplaced.1) (h.quiet_at hp) _ _ _ _ trivial
  | uploadTimeout hp _ =>
    rw [hp] at hplaced
    exact h.respond (Downstream.isSome_outcome_idle hplaced.1) (h.quiet_at hp) _ _ _ _ trivial
  | receiveTimeout _ hp =>
    rw [hp] at hplaced
    exact h.respond (Downstream.isSome_outcome_idle hplaced.1) (h.quiet_at hp) _ _ _ _ trivial
  | receiveFailed _ hp => exact h.unwind _
  | disconnect hp => exact h.unwind _
  | otherMessage hp =>
    have hquiet : s.boundary.responseStarted = false := h.quiet_at hp
    exact h.keep rfl rfl rfl rfl hquiet
  | tooLarge hp _ =>
    rw [hp] at hplaced
    exact h.respond (Downstream.isSome_outcome_idle hplaced.1) (h.quiet_at hp) _ _ _ _ trivial
  | chunk hp _ => exact h.keep rfl rfl rfl rfl (h.quiet_at hp)
  | complete hp _ =>
    have hquiet : s.boundary.responseStarted = false := h.quiet_at hp
    refine ⟨h.tracked, fun _ ↦ hquiet, [], rfl, ?_⟩
    intro _ hstarted
    rw [hquiet] at hstarted
    cases hstarted
  | throughOver hp ho => exact h.leave (Option.isSome_of_eq_some ho) _
  | appFirst hp _ => exact h.keep rfl rfl rfl rfl (h.quiet_at hp)
  | raceLost hp _ => exact h.keep rfl rfl rfl rfl (h.quiet_at hp)
  | raceCancelled _ hp => exact h.unwind _
  | settleWatcher _ o hp => exact h.unwind o
  | settleApp _ o hp _ => exact h.unwind o
  | settleExpired _ hp _ => exact h.keep rfl rfl rfl rfl (h.quiet_at hp)
  | expireUnwind _ o hp => exact h.unwind o
  | expire _ hp hr =>
    rw [hp] at hplaced
    exact h.respond hplaced.1 (h.quiet_at hp hr) _ _ _ _ trivial
  | unwindApp _ hp _ => exact h.keep rfl rfl rfl rfl trivial
  | unwindAppBare _ hp ho _ => exact h.leave (Option.isSome_of_eq_some ho) _
  | unwindWatcher _ hp _ => exact h.keep rfl rfl rfl rfl trivial
  | unwindWatcherBare _ hp _ _ =>
    rw [hp] at hplaced
    exact h.leave hplaced.1 _
  | forward _ task => cases task <;> exact h.keep rfl rfl rfl rfl h.quiet
  | finish hp =>
    rw [hp] at hplaced
    have hfinish : OneStart next init { s with finishes := s.finishes + 1 } :=
      h.keep rfl rfl rfl rfl h.quiet
    exact hfinish.leave hplaced.1 _

/-- The application's path to a state in which it takes a turn. -/
theorem Ran.path {d : Downstream A S} {cs : List AppCall} {st : S} (h : Ran next init cs d)
    (hs : d.state init = some st) : Path next init cs st := by
  cases d with
  | idle => cases hs
  | created =>
    cases hs
    cases h
    exact .nil init
  | running task =>
    cases task with
    | ready st' =>
      cases hs
      cases h with
      | ready hpath => exact hpath
    | awaiting c k => cases hs
    | ended o => cases hs

/-- A running application that sends nothing. -/
theorem OneStart.step {cs cs' : List AppCall} (h : s.OneStart next init)
    (hpos : s.boundary.responseStarted = true → 0 < cs.countP AppCall.startsResponse)
    (hran : Ran next init cs' t.app)
    (hcount : cs.countP AppCall.startsResponse ≤ cs'.countP AppCall.startsResponse)
    (hcall : t.call = s.call) (hsent : t.boundary.sent = s.boundary.sent)
    (hstarted : t.boundary.responseStarted = s.boundary.responseStarted) (hquiet : t.Quiet) :
    t.OneStart next init where
  tracked := by
    rw [hcall]
    exact h.tracked.congr hsent hstarted
  quiet := hquiet
  ran := by
    refine ⟨cs', hran, ?_⟩
    intro _
    rw [hstarted]
    intro hb
    exact Nat.lt_of_lt_of_le (hpos hb) hcount

/-- A position where the application may be running has no clause on what it sends, beyond
`response_started`. -/
theorem Quiet.appSend (hplaced : s.Placed) (h : s.Quiet) (hout : s.app.outcome = none)
    (m : Outgoing) (app : Downstream A S) : Quiet { s.appSend m with app } := by
  have hflag (hlease : s.leased = true)
      (hq : s.responseStarted = false → s.boundary.responseStarted = false)
      (hr : (s.responseStarted || (s.leased && m.isStart)) = false) :
      (s.boundary.trackedSend s.call.requestId .app m).responseStarted = false := by
    rw [hlease, Bool.true_and, Bool.or_eq_false_iff] at hr
    rw [Boundary.responseStarted_trackedSend, hq hr.1, hr.2]
    rfl
  unfold Placed at hplaced
  unfold Quiet at h ⊢
  dsimp only [Stack.appSend]
  cases hpos : s.position with
  | racing =>
    rw [hpos] at h hplaced
    exact hflag hplaced.1 h
  | settleApp disconnected =>
    rw [hpos] at h hplaced
    exact hflag hplaced.1 h
  | through => trivial
  | unwindApp o => trivial
  | rejecting rest => trivial
  | refusing rest => trivial
  | unwindWatcher o => trivial
  | finishing o => trivial
  | exit x => trivial
  | entry =>
    rw [hpos] at hplaced
    rw [hplaced.1] at hout
    cases hout
  | uploadTop =>
    rw [hpos] at hplaced
    rw [hplaced.1] at hout
    cases hout
  | uploadWait =>
    rw [hpos] at hplaced
    rw [hplaced.1] at hout
    cases hout
  | settleWatcher =>
    rw [hpos, hout] at hplaced
    cases hplaced.1
  | expireWatcher =>
    rw [hpos, hout] at hplaced
    cases hplaced.1

/-- The application calls `send`: its first start is the only one. -/
theorem OneStart.appSend (hone : AtMostOnce next AppCall.startsResponse init) (hplaced : s.Placed)
    (h : s.OneStart next init) (hout : s.app.outcome = none) {cs : List AppCall} {st : S}
    {m : Outgoing} {k : (AppCall.send m).Reply A → S} (hpath : Path next init cs st)
    (hnext : next st = .call (.send m) k)
    (hpos : s.boundary.responseStarted = true → 0 < cs.countP AppCall.startsResponse) :
    OneStart next init { s.appSend m with app := .running (.awaiting (.send m) k) } where
  tracked := by
    apply h.tracked.send .app m
    intro hm
    have hbound := hone.countP_le hpath hnext (.ok ())
    rw [show AppCall.startsResponse (.send m) = m.isStart from rfl, hm, if_pos rfl] at hbound
    by_contra hstarted
    have hstart := hpos (Bool.not_eq_false _ ▸ hstarted)
    omega
  quiet := h.quiet.appSend hplaced hout m _
  ran := by
    have hran : Task.Ran next init (cs ++ [AppCall.send m]) (.awaiting (.send m) k) :=
      .awaiting hpath hnext
    refine ⟨cs ++ [AppCall.send m], hran, ?_⟩
    intro _ hstarted
    rw [show (s.appSend m).boundary = s.boundary.trackedSend s.call.requestId .app m from rfl,
      Boundary.responseStarted_trackedSend, Bool.or_eq_true] at hstarted
    rw [List.countP_append, List.countP_singleton]
    rcases hstarted with hold | hnew
    · have hstart := hpos hold
      omega
    · rw [show AppCall.startsResponse (.send m) = m.isStart from rfl, hnew, if_pos rfl]
      omega

/-- A turn of the application. -/
theorem OneStart.turn (hone : AtMostOnce next AppCall.startsResponse init) (hplaced : s.Placed)
    (h : s.OneStart next init) {st : S} (hs : s.app.state init = some st) :
    (s.turn (next st)).OneStart next init := by
  have hout := outcome_of_state hs
  obtain ⟨cs, hran, hpos⟩ := h.ran
  have hpath := hran.path hs
  have hmono (c : AppCall) : cs.countP AppCall.startsResponse ≤
      (cs ++ [c]).countP AppCall.startsResponse := by
    rw [List.countP_append]
    exact Nat.le_add_right _ _
  cases hnext : next st with
  | ret =>
    exact h.step (hpos hout) (.ended hpath _) (Nat.le_refl _) rfl rfl rfl h.quiet
  | raise e =>
    exact h.step (hpos hout) (.ended hpath _) (Nat.le_refl _) rfl rfl rfl h.quiet
  | call c k =>
    cases c with
    | send m => exact h.appSend hone hplaced hout hpath hnext (hpos hout)
    | receive =>
      have hread := Path.snoc hpath hnext (.ok (.request s.body false))
      unfold Stack.turn
      dsimp only
      split
      · exact h.step (hpos hout) (.ready hread) (hmono _) rfl rfl rfl h.quiet
      · exact h.step (hpos hout) (.awaiting hpath hnext) (hmono _) rfl rfl rfl h.quiet
    | pause => exact h.step (hpos hout) (.awaiting hpath hnext) (hmono _) rfl rfl rfl h.quiet
    | setClientKeyId keyId =>
      exact h.step (hpos hout) (.ready (hpath.snoc hnext ())) (hmono _) rfl rfl rfl h.quiet

/-- An answer takes the application on. -/
theorem OneStart.answered (h : s.OneStart next init) {c : AppCall} {k : c.Reply A → S}
    (hs : s.app = .running (.awaiting c k)) (r : c.Reply A) (delivered : List Message) :
    OneStart next init ({ s with delivered }.ready (k r)) := by
  obtain ⟨cs, hran, hpos⟩ := h.ran
  rw [hs] at hran
  exact h.step (hpos (outcome_of_awaiting hs)) (Task.Ran.answer hran r) (Nat.le_refl _) rfl rfl
    rfl h.quiet

theorem oneStart_task (hone : AtMostOnce next AppCall.startsResponse init) (hplaced : s.Placed)
    (h : s.OneStart next init) (hmove : TaskMove next init s e t) : t.OneStart next init := by
  cases hmove with
  | turn hs => exact h.turn hone hplaced hs
  | cancelled e hs =>
    obtain ⟨cs, hran, hpos⟩ := h.ran
    rw [hs] at hran
    cases hran
    exact h.step (hpos (by rw [hs]; rfl)) (.ended (.nil init) _) (Nat.le_refl _) rfl rfl rfl h.quiet
  | answered ev hs r => exact h.answered hs r s.delivered
  | received hs _ => exact h.answered hs _ _
  | watchOn a => exact h
  | watchDisconnect hs => exact h.keep rfl rfl rfl rfl h.quiet
  | watchFailed e hs => exact h.keep rfl rfl rfl rfl h.quiet

theorem oneStart_step (hone : AtMostOnce next AppCall.startsResponse init) (hplaced : s.Placed)
    (h : s.OneStart next init) (hstep : s.step cfg next init e = some t) :
    t.OneStart next init := by
  cases move_of_step hstep with
  | tick => exact h.keep rfl rfl rfl rfl h.quiet
  | middleware hmove => exact oneStart_middleware hplaced h hmove
  | task hmove => exact oneStart_task hone hplaced h hmove

/-! ### The 504 -/

/-- Where the deadline has struck. -/
def Struck (s : Stack A S) : Prop :=
  match s.position with
  | .settleApp false => s.deadline ≤ s.now
  | .expireWatcher => s.deadline ≤ s.now
  | _ => True

/-- What a 504 of the middlewares says. -/
structure TimeoutSound (s : Stack A S) : Prop where
  struck : s.Struck
  cause : s.boundary.TimedOut → s.leased = true ∧ s.deadline ≤ s.now ∧
    s.responseStarted = false ∧ s.app.outcome.isSome = true

/-- Nothing was started, so no 504 was. -/
theorem not_timedOut {b : Boundary} {requestId : String} (h : b.Tracked requestId)
    (hstarted : b.responseStarted = false) : ¬ b.TimedOut := by
  rintro ⟨headers, hmem⟩
  have hstart : (Sender.middleware, Outgoing.start (some 504) headers) ∈ b.starts :=
    List.mem_filter.mpr ⟨hmem, rfl⟩
  rw [h.quiet hstarted] at hstart
  cases hstart

theorem timeoutSound_start (call : HttpCall) : TimeoutSound (start call : Stack A S) where
  struck := trivial
  cause := by
    rintro ⟨headers, hmem⟩
    cases hmem

/-- No 504 is sent, and what it says stays. -/
theorem TimeoutSound.keep (h : s.TimeoutSound) (hstruck : t.Struck)
    (hsent : t.boundary.TimedOut → s.boundary.TimedOut) (hlease : t.leased = s.leased)
    (hdeadline : t.deadline = s.deadline) (hnow : t.now = s.now)
    (hflag : t.responseStarted = s.responseStarted) (happ : t.app = s.app) : t.TimeoutSound where
  struck := hstruck
  cause := by
    intro htimed
    rw [hlease, hdeadline, hnow, hflag, happ]
    exact h.cause (hsent htimed)

/-- An answer of the middlewares other than a 504. -/
theorem TimeoutSound.respond (h : s.TimeoutSound) (place : Option Bytes → Position A)
    {status : Int} (hstatus : status ≠ 504) (detail : String) (headers : List (Bytes × Bytes))
    (hstruck : (s.respond place status detail headers).Struck) :
    (s.respond place status detail headers).TimeoutSound := by
  refine h.keep hstruck ?_ rfl rfl rfl rfl rfl
  intro htimed
  rcases Boundary.TimedOut.of_trackedSend htimed with hold | ⟨-, headers, hstart⟩
  · exact hold
  · cases hstart
    exact absurd rfl hstatus

theorem TimeoutSound.sendBody (h : s.TimeoutSound) (content : Bytes) {p : Position A}
    (hstruck : (s.sendOwn (.body content false) p).Struck) :
    (s.sendOwn (.body content false) p).TimeoutSound := by
  refine h.keep hstruck ?_ rfl rfl rfl rfl rfl
  intro htimed
  rcases Boundary.TimedOut.of_trackedSend htimed with hold | ⟨-, headers, hstart⟩
  · exact hold
  · cases hstart

theorem TimeoutSound.leave (h : s.TimeoutSound) (o : AppOutcome A) : (s.leave o).TimeoutSound :=
  h.keep trivial (fun htimed ↦ Boundary.TimedOut.of_leave htimed) rfl rfl rfl rfl rfl

theorem TimeoutSound.unwind (h : s.TimeoutSound) (o : AppOutcome A) : (s.unwind o).TimeoutSound :=
  h.keep trivial id rfl rfl rfl rfl rfl

/-- Before the call is admitted there is no 504. -/
theorem timeoutSound_of_quiet (htracked : s.boundary.Tracked s.call.requestId)
    (hstarted : s.boundary.responseStarted = false) (hstruck : s.Struck) : s.TimeoutSound where
  struck := hstruck
  cause htimed := absurd htimed (not_timedOut htracked hstarted)

theorem TimeoutSound.struck_at {p : Position A} (h : s.TimeoutSound) (hp : s.position = p) :
    Struck { s with position := p } := by
  subst hp
  exact h.struck

theorem timeoutSound_middleware (hplaced : s.Placed) (hone : s.OneStart next init)
    (h : s.TimeoutSound) (hmove : MiddlewareMove cfg init s e t) : t.TimeoutSound := by
  cases hmove with
  | reject keyId detail headers hp hstatus =>
    have hkey : (s.withKeyId keyId).TimeoutSound :=
      timeoutSound_of_quiet (hone.withKeyId keyId).tracked (hone.quiet_at hp) h.struck
    refine hkey.respond _ ?_ _ _ trivial
    rcases hstatus with rfl | rfl <;> decide
  | through keyId hp =>
    have hquiet : s.boundary.responseStarted = false := hone.quiet_at hp
    exact timeoutSound_of_quiet (hone.withKeyId keyId).tracked hquiet trivial
  | oversize keyId hp _ =>
    have hstruck : Struck ((s.withKeyId keyId).acquired cfg) := by
      unfold Struck
      rw [show ((s.withKeyId keyId).acquired cfg).position = s.position from rfl, hp]
      trivial
    have hacquired : ((s.withKeyId keyId).acquired cfg).TimeoutSound :=
      timeoutSound_of_quiet (hone.withKeyId keyId).acquired.tracked (hone.quiet_at hp) hstruck
    exact hacquired.respond _ (by decide) _ _ trivial
  | acquire keyId hp _ =>
    have hquiet : s.boundary.responseStarted = false := hone.quiet_at hp
    exact timeoutSound_of_quiet (hone.withKeyId keyId).tracked hquiet trivial
  | rejectBody hp => exact h.sendBody _ trivial
  | rejectOver o hp => exact h.leave o
  | refuseBody hp => exact h.sendBody _ trivial
  | refuseOver o hp => exact h.unwind o
  | handle o hp =>
    exact h.keep trivial (fun htimed ↦ Boundary.TimedOut.of_responded htimed) rfl rfl rfl rfl rfl
  | pollWait hp _ => exact h.keep trivial id rfl rfl rfl rfl rfl
  | pollExpired hp _ => exact h.respond _ (by decide) _ _ trivial
  | uploadTimeout hp _ => exact h.respond _ (by decide) _ _ trivial
  | receiveTimeout _ hp => exact h.respond _ (by decide) _ _ trivial
  | receiveFailed _ hp => exact h.unwind _
  | disconnect hp => exact h.unwind _
  | otherMessage hp => exact h.keep trivial id rfl rfl rfl rfl rfl
  | tooLarge hp _ => exact h.respond _ (by decide) _ _ trivial
  | chunk hp _ => exact h.keep trivial id rfl rfl rfl rfl rfl
  | complete hp _ =>
    have hquiet : s.boundary.responseStarted = false := hone.quiet_at hp
    exact timeoutSound_of_quiet hone.tracked hquiet trivial
  | throughOver hp ho => exact h.leave _
  | appFirst hp _ => exact h.keep trivial id rfl rfl rfl rfl rfl
  | raceLost hp hd =>
    refine h.keep ?_ id rfl rfl rfl rfl rfl
    show match Position.settleApp (A := A) s.watcher.outcome.isSome with
      | .settleApp false => s.deadline ≤ s.now
      | .expireWatcher => s.deadline ≤ s.now
      | _ => True
    cases hw : s.watcher.outcome.isSome with
    | true => trivial
    | false =>
      rw [hw] at hd
      rcases hd with hfalse | hd
      · cases hfalse
      · exact hd
  | raceCancelled _ hp => exact h.unwind _
  | settleWatcher _ o hp => exact h.unwind o
  | settleApp _ o hp _ => exact h.unwind o
  | settleExpired _ hp _ =>
    have hstruck : s.deadline ≤ s.now := h.struck_at hp
    exact h.keep hstruck id rfl rfl rfl rfl rfl
  | expireUnwind _ o hp => exact h.unwind o
  | expire _ hp hr =>
    have hstruck : s.deadline ≤ s.now := h.struck_at hp
    unfold Placed at hplaced
    rw [hp] at hplaced
    exact ⟨trivial, fun _ ↦ ⟨hplaced.2.1, hstruck, hr, hplaced.1⟩⟩
  | unwindApp _ hp _ => exact h.keep trivial id rfl rfl rfl rfl rfl
  | unwindAppBare _ hp ho _ => exact h.leave _
  | unwindWatcher _ hp _ => exact h.keep trivial id rfl rfl rfl rfl rfl
  | unwindWatcherBare _ hp _ _ => exact h.leave _
  | forward _ task => cases task <;> exact h.keep h.struck id rfl rfl rfl rfl rfl
  | finish hp =>
    have hfinish : TimeoutSound { s with finishes := s.finishes + 1 } :=
      h.keep h.struck id rfl rfl rfl rfl rfl
    exact hfinish.leave _

/-- While the application runs there is no 504, and it cannot make one of the middlewares. -/
theorem TimeoutSound.frame (h : s.TimeoutSound) (hout : s.app.outcome = none)
    (hp : t.position = s.position) (hdeadline : t.deadline = s.deadline) (hnow : t.now = s.now)
    (hsent : t.boundary.TimedOut → s.boundary.TimedOut) : t.TimeoutSound where
  struck := by
    have hstruck := h.struck
    unfold Struck at hstruck ⊢
    rw [hp, hdeadline, hnow]
    exact hstruck
  cause := by
    intro htimed
    have hover := (h.cause (hsent htimed)).2.2.2
    rw [hout] at hover
    cases hover

theorem timedOut_turn {a : Turn AppCall (AppCall.Reply A) (Exc A) S}
    (h : (s.turn a).boundary.TimedOut) : s.boundary.TimedOut := by
  cases a with
  | ret => exact h
  | raise e => exact h
  | call c k =>
    cases c with
    | send m =>
      rcases Boundary.TimedOut.of_trackedSend h with hold | ⟨hsender, -⟩
      · exact hold
      · cases hsender
    | receive =>
      unfold turn at h
      dsimp only at h
      split at h <;> exact h
    | pause => exact h
    | setClientKeyId keyId => exact h

theorem timeoutSound_task (h : s.TimeoutSound) (hmove : TaskMove next init s e t) :
    t.TimeoutSound := by
  cases hmove with
  | turn hs =>
    obtain ⟨hp, -, -, -, hdeadline, hnow, -⟩ := turn_frame s (next _)
    exact h.frame (outcome_of_state hs) hp hdeadline hnow timedOut_turn
  | cancelled e hs => exact h.frame (by rw [hs]; rfl) rfl rfl rfl id
  | answered ev hs r => exact h.frame (outcome_of_awaiting hs) rfl rfl rfl id
  | received hs _ => exact h.frame (outcome_of_awaiting hs) rfl rfl rfl id
  | watchOn a => exact h
  | watchDisconnect hs => exact h.keep h.struck id rfl rfl rfl rfl rfl
  | watchFailed e hs => exact h.keep h.struck id rfl rfl rfl rfl rfl

theorem TimeoutSound.tick (h : s.TimeoutSound) : TimeoutSound { s with now := s.now + 1 } where
  struck := by
    have hstruck := h.struck
    unfold Struck at hstruck ⊢
    dsimp only
    split at hstruck
    · exact Nat.le_succ_of_le hstruck
    · exact Nat.le_succ_of_le hstruck
    · trivial
  cause := by
    intro htimed
    obtain ⟨hlease, hdeadline, hrest⟩ := h.cause htimed
    exact ⟨hlease, Nat.le_succ_of_le hdeadline, hrest⟩

/-- The invariant of the stack. -/
structure Sound (next : App A S) (init : S) (s : Stack A S) : Prop where
  placed : s.Placed
  oneStart : s.OneStart next init
  timeout : s.TimeoutSound

theorem sound_step (hone : AtMostOnce next AppCall.startsResponse init) (h : s.Sound next init)
    (hstep : s.step cfg next init e = some t) : t.Sound next init := by
  refine ⟨placed_step h.placed hstep, oneStart_step hone h.placed h.oneStart hstep, ?_⟩
  cases move_of_step hstep with
  | tick => exact h.timeout.tick
  | middleware hmove => exact timeoutSound_middleware h.placed h.oneStart h.timeout hmove
  | task hmove => exact timeoutSound_task h.timeout hmove

theorem sound_exec (hone : AtMostOnce next AppCall.startsResponse init) {call : HttpCall}
    {es : List (Event A)} (hrun : exec (step cfg next init) (start call) es = some s) :
    s.Sound next init :=
  exec_preserves (P := Sound next init) (fun _ _ _ h hstep ↦ sound_step hone h hstep) hrun
    ⟨placed_start call, oneStart_start call, timeoutSound_start call⟩

end Stack
end InferenceServer.Server
