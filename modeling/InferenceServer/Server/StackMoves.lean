import InferenceServer.Server.Stack

/-!
# What a step of the stack can do

Library `Server`. `Move cfg next init s e t` lists the steps of `Stack.step` with their guards.
Steps after the await of a task share a case where they lead to the same code. Invariants are
proved by cases on it.
-/

namespace InferenceServer.Server

open InferenceServer.Base

variable {A S F : Type}

namespace Stack

/-- The call with the key id that authentication found. -/
def withKeyId (s : Stack A S) (keyId : Option String) : Stack A S :=
  { s with boundary := { s.boundary with clientKeyId := keyId } }

/-- The call with a lease. -/
def acquired (cfg : Config F) (s : Stack A S) : Stack A S :=
  { s with leased := true, deadline := s.now + cfg.requestTimeoutMs * 1000 }

/-- The first `Content-Length` header, when it is a number, is within the limit. -/
def DeclaredFits (cfg : Config F) (call : HttpCall) : Prop :=
  ∀ header length,
    call.scope.headers.find? (fun h ↦ h.1.map lowerByte = asciiBytes "content-length") =
        some header →
      cfg.parseInt header.2 = some length → length ≤ cfg.maxRequestBytes

/-- The middleware task goes on after awaiting a task, or is cancelled. -/
def Event.isAwait : Event A → Bool
  | .wake => true
  | .cancel _ => true
  | _ => false

/-- The steps of the middleware task. -/
inductive MiddlewareMove (cfg : Config F) (init : S) (s : Stack A S) : Event A → Stack A S → Prop
  | reject {digests : Option (List ApiKeyRecord)} {controller : AdmissionController}
    (keyId : Option String) {status : Int} (detail : String) (headers : List (Bytes × Bytes))
    (hp : s.position = .entry) (hstatus : status = 401 ∨ status = 503) :
    MiddlewareMove cfg init s (.enter digests controller)
      ((s.withKeyId keyId).respond .rejecting status detail headers)
  | through {digests : Option (List ApiKeyRecord)} {controller : AdmissionController}
    (keyId : Option String) (hp : s.position = .entry) :
    MiddlewareMove cfg init s (.enter digests controller)
      { s.withKeyId keyId with position := .through, app := .running (.ready init) }
  | oversize {digests : Option (List ApiKeyRecord)} {controller : AdmissionController}
    (keyId : Option String) (hp : s.position = .entry) (hlength : ¬ DeclaredFits cfg s.call) :
    MiddlewareMove cfg init s (.enter digests controller)
      (((s.withKeyId keyId).acquired cfg).respond .refusing 413 "request body is too large" [])
  | acquire {digests : Option (List ApiKeyRecord)} {controller : AdmissionController}
    (keyId : Option String) (hp : s.position = .entry) (hlength : DeclaredFits cfg s.call) :
    MiddlewareMove cfg init s (.enter digests controller)
      { (s.withKeyId keyId).acquired cfg with position := .uploadTop }
  | rejectBody {content : Bytes} (hp : s.position = .rejecting (some content)) :
    MiddlewareMove cfg init s (.responded (.ok ()))
      (s.sendOwn (.body content false) (.rejecting none))
  | rejectOver {rest : Option Bytes} (o : AppOutcome A) (hp : s.position = .rejecting rest) :
    MiddlewareMove cfg init s (.responded o) (s.leave o)
  | refuseBody {content : Bytes} (hp : s.position = .refusing (some content)) :
    MiddlewareMove cfg init s (.responded (.ok ()))
      (s.sendOwn (.body content false) (.refusing none))
  | refuseOver {rest : Option Bytes} (o : AppOutcome A) (hp : s.position = .refusing rest) :
    MiddlewareMove cfg init s (.responded o) (s.unwind o)
  | handle {exc : Exc A} {rest : Option Bytes} (o : AppOutcome A)
    (hp : s.position = .exit (.handling exc rest)) :
    MiddlewareMove cfg init s (.responded o)
      (s.goto (s.boundary.responded s.call.toAsgiCall s.now exc rest o))
  | pollWait (hp : s.position = .uploadTop) (hd : s.now < s.deadline) :
    MiddlewareMove cfg init s .poll { s with position := .uploadWait }
  | pollExpired (hp : s.position = .uploadTop) (hd : s.deadline ≤ s.now) :
    MiddlewareMove cfg init s .poll s.uploadExpired
  | uploadTimeout (hp : s.position = .uploadWait) (hd : s.deadline ≤ s.now) :
    MiddlewareMove cfg init s .uploadTimeout s.uploadExpired
  | receiveTimeout (e : Exc A) (hp : s.position = .uploadWait) :
    MiddlewareMove cfg init s (.received (.error e)) s.uploadExpired
  | receiveFailed (e : Exc A) (hp : s.position = .uploadWait) :
    MiddlewareMove cfg init s (.received (.error e)) (s.unwind (.error e))
  | disconnect (hp : s.position = .uploadWait) :
    MiddlewareMove cfg init s (.received (.ok .disconnect)) (s.unwind (.ok ()))
  | otherMessage (hp : s.position = .uploadWait) :
    MiddlewareMove cfg init s (.received (.ok .other)) { s with position := .uploadTop }
  | tooLarge {chunk : Bytes} {moreBody : Bool} (hp : s.position = .uploadWait)
    (hlength : cfg.maxRequestBytes < s.body.length + chunk.length) :
    MiddlewareMove cfg init s (.received (.ok (.request chunk moreBody)))
      (s.respond .refusing 413 "request body is too large" [])
  | chunk {chunk : Bytes} (hp : s.position = .uploadWait)
    (hlength : s.body.length + chunk.length ≤ cfg.maxRequestBytes) :
    MiddlewareMove cfg init s (.received (.ok (.request chunk true)))
      { s with body := s.body ++ chunk, position := .uploadTop }
  | complete {chunk : Bytes} (hp : s.position = .uploadWait)
    (hlength : s.body.length + chunk.length ≤ cfg.maxRequestBytes) :
    MiddlewareMove cfg init s (.received (.ok (.request chunk false)))
      { s with
        body := s.body ++ chunk
        position := .racing
        app := .created
        watcher := .running }
  | throughOver {o : AppOutcome A} (hp : s.position = .through) (ho : s.app.outcome = some o) :
    MiddlewareMove cfg init s .wake (s.leave o)
  | appFirst (hp : s.position = .racing) (ho : s.app.outcome.isSome = true) :
    MiddlewareMove cfg init s .wake { s with position := .settleWatcher, watcherCancel := true }
  | raceLost (hp : s.position = .racing)
    (hd : s.watcher.outcome.isSome = true ∨ s.deadline ≤ s.now) :
    MiddlewareMove cfg init s .wake
      { s with position := .settleApp s.watcher.outcome.isSome, appCancel := true }
  | raceCancelled (e : Exc A) (hp : s.position = .racing) :
    MiddlewareMove cfg init s (.cancel e) (s.unwind (.error e))
  | settleWatcher {ev : Event A} (hev : ev.isAwait = true) (o : AppOutcome A)
    (hp : s.position = .settleWatcher) : MiddlewareMove cfg init s ev (s.unwind o)
  | settleApp {ev : Event A} (hev : ev.isAwait = true) {disconnected : Bool} (o : AppOutcome A)
    (hp : s.position = .settleApp disconnected) (ho : s.app.outcome.isSome = true) :
    MiddlewareMove cfg init s ev (s.unwind o)
  | settleExpired {ev : Event A} (hev : ev.isAwait = true) (hp : s.position = .settleApp false)
    (ho : s.app.outcome.isSome = true) :
    MiddlewareMove cfg init s ev { s with position := .expireWatcher, watcherCancel := true }
  | expireUnwind {ev : Event A} (hev : ev.isAwait = true) (o : AppOutcome A)
    (hp : s.position = .expireWatcher) : MiddlewareMove cfg init s ev (s.unwind o)
  | expire {ev : Event A} (hev : ev.isAwait = true) (hp : s.position = .expireWatcher)
    (hr : s.responseStarted = false) :
    MiddlewareMove cfg init s ev (s.respond .refusing 504 "inference deadline exceeded" [])
  | unwindApp {ev : Event A} (hev : ev.isAwait = true) {p : AppOutcome A}
    (hp : s.position = .unwindApp p) (ho : s.app.outcome.isSome = true) :
    MiddlewareMove cfg init s ev { s with position := .unwindWatcher p }
  | unwindAppBare {ev : Event A} (hev : ev.isAwait = true) {p : AppOutcome A} {e : Exc A}
    (hp : s.position = .unwindApp p) (ho : s.app.outcome = some (.error e))
    (he : e.cls.isBare = true) : MiddlewareMove cfg init s ev (s.leave (.error e))
  | unwindWatcher {ev : Event A} (hev : ev.isAwait = true) {p : AppOutcome A}
    (hp : s.position = .unwindWatcher p) (ho : s.watcher.outcome.isSome = true) :
    MiddlewareMove cfg init s ev { s with position := .finishing p }
  | unwindWatcherBare {ev : Event A} (hev : ev.isAwait = true) {p : AppOutcome A} {e : Exc A}
    (hp : s.position = .unwindWatcher p) (ho : s.watcher.outcome = some (.error e))
    (he : e.cls.isBare = true) : MiddlewareMove cfg init s ev (s.leave (.error e))
  | forward (e : Exc A) (task : Awaited) : MiddlewareMove cfg init s (.cancel e) (s.forward task)
  | finish {o : AppOutcome A} (hp : s.position = .finishing o) :
    MiddlewareMove cfg init s .finishHttp ({ s with finishes := s.finishes + 1 }.leave o)

/-- The steps of the application and of the watcher. -/
inductive TaskMove (next : App A S) (init : S) (s : Stack A S) : Event A → Stack A S → Prop
  | turn {st : S} (hs : s.app.state init = some st) :
    TaskMove next init s (.app .turn) (s.turn (next st))
  | cancelled (e : Exc A) (hs : s.app = .created) :
    TaskMove next init s (.app (.cancelled e)) { s with app := .running (.ended (.error e)) }
  | answered (ev : AppEvent A) {c : AppCall} {k : c.Reply A → S}
    (hs : s.app = .running (.awaiting c k)) (r : c.Reply A) :
    TaskMove next init s (.app ev) (s.ready (k r))
  | received {a : Except (Exc A) Message} {k : AppCall.receive.Reply A → S}
    (hs : s.app = .running (.awaiting .receive k)) (ha : s.receivable a = true) :
    TaskMove next init s (.app (.received a)) ({ s with delivered := s.deliver a }.ready (k a))
  | watchOn (a : Except (Exc A) Message) : TaskMove next init s (.watched a) s
  | watchDisconnect (hs : s.watcher = .running) :
    TaskMove next init s (.watched (.ok .disconnect))
      { s with disconnected := true, watcher := .ended (.ok ()) }
  | watchFailed (e : Exc A) (hs : s.watcher = .running) :
    TaskMove next init s (.watched (.error e)) { s with watcher := .ended (.error e) }

/-- The steps of the stack. -/
inductive Move (cfg : Config F) (next : App A S) (init : S) (s : Stack A S) :
    Event A → Stack A S → Prop
  | tick : Move cfg next init s .tick { s with now := s.now + 1 }
  | middleware {e : Event A} {t : Stack A S} (h : MiddlewareMove cfg init s e t) :
    Move cfg next init s e t
  | task {e : Event A} {t : Stack A S} (h : TaskMove next init s e t) : Move cfg next init s e t

variable {cfg : Config F} {next : App A S} {init : S} {s t : Stack A S} {e : Event A}

/-- `_content_length` reads the first such header; a negative number counts as zero. -/
theorem contentLength_eq (parseInt : Bytes → Option Int) (headers : List (Bytes × Bytes)) :
    contentLength parseInt headers =
      ((headers.find? fun h ↦ h.1.map lowerByte = asciiBytes "content-length").bind
        fun h ↦ parseInt h.2).map (max 0) := by
  induction headers with
  | nil => rfl
  | cons header headers ih =>
    obtain ⟨name, value⟩ := header
    unfold contentLength
    by_cases hname : name.map lowerByte = asciiBytes "content-length"
    · simp [hname]
    · simp [hname, ih]

/-- What `_content_length` says of it. -/
theorem declaredFits_iff {call : HttpCall} : DeclaredFits cfg call ↔
    ∀ length, contentLength cfg.parseInt call.scope.headers = some length →
      length ≤ cfg.maxRequestBytes := by
  simp only [contentLength_eq, Option.map_eq_some_iff, Option.bind_eq_some_iff]
  constructor
  · rintro h length ⟨n, ⟨header, hheader, hn⟩, rfl⟩
    have hle := h header n hheader hn
    omega
  · intro h header n hheader hn
    have hle := h (max 0 n) ⟨n, ⟨header, hheader, hn⟩, rfl⟩
    omega

theorem move_of_admitCall {digests : Option (List ApiKeyRecord)}
    {controller : AdmissionController} (hp : s.position = .entry) (keyId : Option String) :
    MiddlewareMove cfg init s (.enter digests controller)
      ((s.withKeyId keyId).admitCall cfg init controller) := by
  unfold admitCall
  split
  · split
    · exact .reject keyId _ _ hp (.inr rfl)
    · dsimp only
      split
      · next hnone =>
        apply MiddlewareMove.acquire keyId hp
        rw [declaredFits_iff]
        intro length hlength
        cases hnone.symm.trans hlength
      · next length hsome =>
        split
        · next hlt =>
          apply MiddlewareMove.oversize keyId hp
          rw [declaredFits_iff]
          intro hfits
          have hle := hfits length hsome
          omega
        · next hle =>
          apply MiddlewareMove.acquire keyId hp
          rw [declaredFits_iff]
          intro n hn
          cases hsome.symm.trans hn
          exact Int.not_lt.mp hle
  · exact .through keyId hp

theorem move_of_enter {digests : Option (List ApiKeyRecord)} {controller : AdmissionController}
    (hp : s.position = .entry) :
    MiddlewareMove cfg init s (.enter digests controller)
      (s.enter cfg init digests controller) := by
  unfold enter
  split
  · split
    · exact .reject s.boundary.clientKeyId _ _ hp (.inl rfl)
    · exact move_of_admitCall hp (some _)
  · exact move_of_admitCall hp s.boundary.clientKeyId

theorem move_of_responded {o : AppOutcome A} (h : s.responded o = some t) :
    MiddlewareMove cfg init s (.responded o) t := by
  unfold responded at h
  split at h
  · next hp =>
    cases h
    exact .rejectBody hp
  · next hp _ =>
    cases h
    exact .rejectOver _ hp
  · next hp =>
    cases h
    exact .refuseBody hp
  · next hp _ =>
    cases h
    exact .refuseOver _ hp
  · next hp =>
    cases h
    exact .handle _ hp
  · cases h

theorem move_of_upload (hp : s.position = .uploadWait) (a : Except (Exc A) Message) :
    MiddlewareMove cfg init s (.received a) (s.upload cfg a) := by
  unfold upload
  split
  · split
    · exact .receiveTimeout _ hp
    · exact .receiveFailed _ hp
  · exact .disconnect hp
  · exact .otherMessage hp
  · next chunk moreBody =>
    split
    · next hlt => exact .tooLarge hp hlt
    · next hle =>
      cases moreBody with
      | true => exact .chunk hp (Nat.not_lt.mp hle)
      | false => exact .complete hp (Nat.not_lt.mp hle)

/-- On from the await of a task that gave `o`: what the task ended with, or a cancellation. -/
theorem move_of_resumeWith {task : Awaited} {o : AppOutcome A} {ev : Event A}
    (hev : ev.isAwait = true) (htask : awaited s.position = some task)
    (hover : (s.outcomeOf task).isSome = true)
    (ho : s.outcomeOf task = some o ∨ ∃ e, o = .error e ∧ e.cls = .cancelled)
    (h : s.resumeWith o = some t) : MiddlewareMove cfg init s ev t := by
  have hbare {e : Exc A} (he : o = .error e) (hb : e.cls.isBare = true) :
      s.outcomeOf task = some (.error e) := by
    rcases ho with ho | ⟨e', he', hc⟩
    · rw [ho, he]
    · cases he.symm.trans he'
      rw [hc] at hb
      cases hb
  unfold resumeWith at h
  split at h
  · next hp =>
    cases h
    unfold settleOn
    split
    · exact .settleWatcher hev _ hp
    · split
      · exact .settleWatcher hev _ hp
      · exact .settleWatcher hev _ hp
  · next disconnected hp =>
    cases h
    rw [hp] at htask
    cases htask
    have hsettled : MiddlewareMove cfg init s ev (s.settled disconnected) := by
      unfold settled
      cases disconnected with
      | true => exact .settleApp hev _ hp hover
      | false => exact .settleExpired hev hp hover
    unfold settleOn
    split
    · exact hsettled
    · split
      · exact hsettled
      · exact .settleApp hev _ hp hover
  · next hp =>
    cases h
    have hexpire : MiddlewareMove cfg init s ev s.expire := by
      unfold expire
      split
      · exact .expireUnwind hev _ hp
      · next hr => exact .expire hev hp (Bool.not_eq_true _ ▸ hr)
    unfold settleOn
    split
    · exact hexpire
    · split
      · exact hexpire
      · exact .expireUnwind hev _ hp
  · next p hp =>
    cases h
    rw [hp] at htask
    cases htask
    unfold unwindOn
    split
    · exact .unwindApp hev hp hover
    · split
      · next e hb => exact .unwindAppBare hev hp (hbare rfl hb) hb
      · exact .unwindApp hev hp hover
  · next p hp =>
    cases h
    rw [hp] at htask
    cases htask
    unfold unwindOn
    split
    · exact .unwindWatcher hev hp hover
    · split
      · next e hb => exact .unwindWatcherBare hev hp (hbare rfl hb) hb
      · exact .unwindWatcher hev hp hover
  · cases h

theorem move_of_wake (h : s.wake = some t) : MiddlewareMove cfg init s .wake t := by
  unfold wake at h
  split at h
  · next hp =>
    obtain ⟨o, ho, rfl⟩ := Option.map_eq_some_iff.mp h
    exact .throughOver hp ho
  · next hp =>
    split at h
    · next ho =>
      cases h
      exact .appFirst hp ho
    · split at h
      · next hd =>
        cases h
        exact .raceLost hp hd
      · cases h
  · obtain ⟨task, htask, hrest⟩ := Option.bind_eq_some_iff.mp h
    obtain ⟨o, ho, hres⟩ := Option.bind_eq_some_iff.mp hrest
    exact move_of_resumeWith rfl htask (by rw [ho]; rfl) (.inl ho) hres

theorem move_of_cancel {e : Exc A} (h : s.cancel e = some t) :
    MiddlewareMove cfg init s (.cancel e) t := by
  unfold cancel at h
  split at h
  · next hc =>
    split at h
    · next hp =>
      cases h
      exact .raceCancelled _ hp
    · obtain ⟨task, htask, hrest⟩ := Option.bind_eq_some_iff.mp h
      split at hrest
      · next ho => exact move_of_resumeWith rfl htask ho (.inr ⟨e, rfl, hc⟩) hrest
      · cases hrest
        exact .forward _ _
  · cases h

theorem move_of_appStep {ev : AppEvent A} (h : s.appStep next init ev = some t) :
    TaskMove next init s (.app ev) t := by
  unfold appStep at h
  split at h
  · obtain ⟨st, hst, rfl⟩ := Option.map_eq_some_iff.mp h
    exact .turn hst
  · split at h
    · next hs =>
      split at h
      · cases h
        exact .cancelled _ hs
      · cases h
    · cases h
  · split at h
    · next hs =>
      split at h
      · cases h
        exact .answered _ hs _
      · cases h
    · cases h
  · split at h
    · next hs =>
      split at h
      · next ha =>
        cases h
        exact .received hs ha
      · cases h
    · cases h
  · split at h
    · next hs =>
      cases h
      exact .answered _ hs _
    · cases h

theorem move_of_watched {a : Except (Exc A) Message} (h : s.watched a = some t) :
    TaskMove next init s (.watched a) t := by
  unfold watched at h
  split at h
  · next hs =>
    cases h
    exact .watchDisconnect hs
  · cases h
    exact .watchOn _
  · next hs =>
    cases h
    exact .watchFailed _ hs
  · cases h

/-- Every step is one of the moves. -/
theorem move_of_step (h : s.step cfg next init e = some t) : Move cfg next init s e t := by
  unfold step at h
  split at h
  · cases h
    exact .tick
  · split at h
    · next hp =>
      cases h
      exact .middleware (move_of_enter hp)
    · cases h
  · exact .middleware (move_of_responded h)
  · split at h
    · next hp =>
      split at h
      · next hd =>
        cases h
        exact .middleware (.pollExpired hp hd)
      · next hd =>
        cases h
        exact .middleware (.pollWait hp (Nat.not_le.mp hd))
    · cases h
  · split at h
    · next hp =>
      cases h
      exact .middleware (move_of_upload hp _)
    · cases h
  · split at h
    · next hp =>
      split at h
      · next hd =>
        cases h
        exact .middleware (.uploadTimeout hp hd)
      · cases h
    · cases h
  · exact .middleware (move_of_wake h)
  · exact .middleware (move_of_cancel h)
  · split at h
    · next hp =>
      cases h
      exact .middleware (.finish hp)
    · cases h
  · exact .task (move_of_appStep h)
  · exact .task (move_of_watched h)

/-- A turn leaves the middleware task alone. -/
theorem turn_frame (s : Stack A S) (a : Turn AppCall (AppCall.Reply A) (Exc A) S) :
    (s.turn a).position = s.position ∧ (s.turn a).leased = s.leased ∧
      (s.turn a).finishes = s.finishes ∧ (s.turn a).call = s.call ∧
      (s.turn a).deadline = s.deadline ∧ (s.turn a).now = s.now ∧
      (s.turn a).watcher = s.watcher := by
  cases a with
  | ret => exact ⟨rfl, rfl, rfl, rfl, rfl, rfl, rfl⟩
  | raise e => exact ⟨rfl, rfl, rfl, rfl, rfl, rfl, rfl⟩
  | call c k =>
    cases c with
    | receive =>
      unfold turn
      dsimp only
      split <;> exact ⟨rfl, rfl, rfl, rfl, rfl, rfl, rfl⟩
    | _ => exact ⟨rfl, rfl, rfl, rfl, rfl, rfl, rfl⟩

/-- The call does not change. -/
theorem call_step (h : s.step cfg next init e = some t) : t.call = s.call := by
  cases move_of_step h with
  | tick => rfl
  | middleware hmove =>
    cases hmove with
    | forward _ task => cases task <;> rfl
    | _ => rfl
  | task hmove =>
    cases hmove with
    | turn hs => exact (turn_frame s (next _)).2.2.2.1
    | _ => rfl

end Stack
end InferenceServer.Server
