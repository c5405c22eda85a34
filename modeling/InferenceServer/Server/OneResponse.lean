import InferenceServer.Server.Application
import InferenceServer.Server.StackInvariant

/-!
# One response and one HTTP finish for a call

Library `Server`. What a run of `Server.Stack` can show: one started response at most, with the
server's request id; a 504 only after the deadline and before the application's own response; one
`finish_http` for the lease, after the application's task. The last fails for one kind of
task: the `finally` block suppresses `CancelledError` and `Exception`, and an exception of
neither kind leaves it before `finish_http`.
-/

namespace InferenceServer.Server

open InferenceServer.Base

variable {A S F : Type}

namespace Stack

variable {cfg : Config F} {next : App A S} {init : S} {s t : Stack A S} {e : Event A}

/-! ### Once the application is over, the call can end -/

/-- The call can go on, with no step of the application, until the inner middlewares are over. -/
def CanLeave (cfg : Config F) (next : App A S) (init : S) (s : Stack A S) : Prop :=
  ∃ es t x, exec (step cfg next init) s es = some t ∧ t.position = .exit x ∧ t.app = s.app ∧
    t.leased = s.leased ∧ (t.watcher = s.watcher ∨ t.watcher = .ended (.ok ()))

/-- They are over. -/
theorem canLeave_exit {x : Exit A} (hp : s.position = .exit x) : CanLeave cfg next init s :=
  ⟨[], s, x, rfl, hp, rfl, rfl, .inl rfl⟩

theorem CanLeave.of_step (hstep : s.step cfg next init e = some t) (happ : t.app = s.app)
    (hlease : t.leased = s.leased) (hw : t.watcher = s.watcher ∨ t.watcher = .ended (.ok ()))
    (h : CanLeave cfg next init t) : CanLeave cfg next init s := by
  obtain ⟨es, u, x, hrun, hp, hu, hl, hwatch⟩ := h
  refine ⟨e :: es, u, x, exec_cons_eq_some.mpr ⟨t, hstep, hrun⟩, hp, hu.trans happ,
    hl.trans hlease, ?_⟩
  rcases hwatch with hsame | hover
  · rw [hsame]
    exact hw
  · exact .inr hover

/-- An awaited task that is over lets the middleware task go on. -/
theorem wake_eq (task : Awaited) {o : AppOutcome A} (htask : awaited s.position = some task)
    (ho : s.outcomeOf task = some o) : s.wake = s.resumeWith o := by
  unfold wake
  split
  · next hp =>
    rw [hp] at htask
    cases htask
  · next hp =>
    rw [hp] at htask
    cases htask
  · rw [htask, Option.bind_some, ho, Option.bind_some]

theorem canLeave_finishing {o : AppOutcome A} (hp : s.position = .finishing o) :
    CanLeave cfg next init s := by
  have hstep : s.step cfg next init .finishHttp =
      some ({ s with finishes := s.finishes + 1 }.leave o) := by
    simp only [step, hp]
  exact (canLeave_exit rfl).of_step hstep rfl rfl (.inl rfl)

/-- The watcher can end at any time and wakes who awaits it. -/
theorem canLeave_awaitWatcher {p : Position A} (hp : s.position = p)
    (hawait : awaited p = some .watcher)
    (h : ∀ (t : Stack A S) (o : AppOutcome A), t.position = p → t.app = s.app →
      t.step cfg next init .wake = t.resumeWith o → CanLeave cfg next init t) :
    CanLeave cfg next init s := by
  subst hp
  cases hw : s.watcher with
  | idle => exact h s _ rfl rfl (wake_eq .watcher hawait (by rw [outcomeOf, hw]; rfl))
  | ended o => exact h s o rfl rfl (wake_eq .watcher hawait (by rw [outcomeOf, hw]; rfl))
  | running =>
    have hstep : s.step cfg next init (.watched (.ok .disconnect)) =
        some { s with disconnected := true, watcher := .ended (.ok ()) } := by
      simp only [step, watched, hw]
    refine CanLeave.of_step hstep rfl rfl (.inr rfl) ?_
    exact h _ _ rfl rfl (wake_eq .watcher hawait rfl)

theorem canLeave_unwindWatcher {p : AppOutcome A} (hp : s.position = .unwindWatcher p) :
    CanLeave cfg next init s := by
  apply canLeave_awaitWatcher hp rfl
  intro t o htp _ hstep
  rw [resumeWith, htp] at hstep
  dsimp only [unwindOn] at hstep
  split at hstep
  · exact (canLeave_finishing rfl).of_step hstep rfl rfl (.inl rfl)
  · split at hstep
    · exact (canLeave_exit rfl).of_step hstep rfl rfl (.inl rfl)
    · exact (canLeave_finishing rfl).of_step hstep rfl rfl (.inl rfl)

theorem canLeave_unwindApp {p : AppOutcome A} (hp : s.position = .unwindApp p)
    (hover : s.app.outcome.isSome = true) : CanLeave cfg next init s := by
  obtain ⟨o, ho⟩ := Option.isSome_iff_exists.mp hover
  have hstep : s.step cfg next init .wake = s.resumeWith o :=
    wake_eq .app (by rw [hp]; rfl) ho
  rw [resumeWith, hp] at hstep
  dsimp only [unwindOn] at hstep
  split at hstep
  · exact (canLeave_unwindWatcher rfl).of_step hstep rfl rfl (.inl rfl)
  · split at hstep
    · exact (canLeave_exit rfl).of_step hstep rfl rfl (.inl rfl)
    · exact (canLeave_unwindWatcher rfl).of_step hstep rfl rfl (.inl rfl)

/-- From any of these the `finally` block is next. -/
theorem canLeave_unwind (hover : s.app.outcome.isSome = true) (o : AppOutcome A)
    (hstep : s.step cfg next init e = some (s.unwind o)) : CanLeave cfg next init s :=
  CanLeave.of_step hstep rfl rfl (.inl rfl) (canLeave_unwindApp rfl hover)

theorem canLeave_refusing {rest : Option Bytes} (hp : s.position = .refusing rest)
    (hover : s.app.outcome.isSome = true) : CanLeave cfg next init s := by
  have hlast {t : Stack A S} (htp : t.position = .refusing none)
      (ht : t.app.outcome.isSome = true) : CanLeave cfg next init t := by
    refine canLeave_unwind (e := .responded (.ok ())) ht (.ok ()) ?_
    simp only [step, responded, htp]
  cases rest with
  | none => exact hlast hp hover
  | some content =>
    have hstep : s.step cfg next init (.responded (.ok ())) =
        some (s.sendOwn (.body content false) (.refusing none)) := by
      simp only [step, responded, hp]
    exact CanLeave.of_step hstep rfl rfl (.inl rfl) (hlast rfl hover)

/-- `_settle` goes on, or the outcome of the task leaves. -/
theorem canLeave_settleOn {o : AppOutcome A} {u : Stack A S}
    (hover : s.app.outcome.isSome = true)
    (hstep : s.step cfg next init e = some (s.settleOn o u))
    (hu : s.step cfg next init e = some u → CanLeave cfg next init s) :
    CanLeave cfg next init s := by
  unfold settleOn at hstep
  split at hstep
  · exact hu hstep
  · split at hstep
    · exact hu hstep
    · exact canLeave_unwind hover _ hstep

theorem canLeave_expireWatcher (hp : s.position = .expireWatcher)
    (hover : s.app.outcome.isSome = true) : CanLeave cfg next init s := by
  apply canLeave_awaitWatcher hp rfl
  intro t o htp happ hstep
  rw [← happ] at hover
  rw [resumeWith, htp] at hstep
  apply canLeave_settleOn hover hstep
  intro hstep
  unfold expire at hstep
  split at hstep
  · exact canLeave_unwind hover _ hstep
  · exact CanLeave.of_step hstep rfl rfl (.inl rfl) (canLeave_refusing rfl hover)

theorem canLeave_settleApp {disconnected : Bool} (hp : s.position = .settleApp disconnected)
    (hover : s.app.outcome.isSome = true) : CanLeave cfg next init s := by
  obtain ⟨o, ho⟩ := Option.isSome_iff_exists.mp hover
  have hstep : s.step cfg next init .wake = s.resumeWith o :=
    wake_eq .app (by rw [hp]; rfl) ho
  rw [resumeWith, hp] at hstep
  apply canLeave_settleOn hover hstep
  intro hstep
  unfold settled at hstep
  split at hstep
  · exact canLeave_unwind hover _ hstep
  · exact CanLeave.of_step hstep rfl rfl (.inl rfl) (canLeave_expireWatcher rfl hover)

theorem canLeave_settleWatcher (hp : s.position = .settleWatcher)
    (hover : s.app.outcome.isSome = true) : CanLeave cfg next init s := by
  apply canLeave_awaitWatcher hp rfl
  intro t o htp happ hstep
  rw [← happ] at hover
  rw [resumeWith, htp] at hstep
  exact canLeave_settleOn hover hstep (canLeave_unwind hover _)

theorem canLeave_uploadWait (hp : s.position = .uploadWait)
    (hover : s.app.outcome.isSome = true) : CanLeave cfg next init s := by
  refine canLeave_unwind (e := .received (.ok .disconnect)) hover (.ok ()) ?_
  simp only [step, hp, upload]

/-- An admitted call whose application is over can end. -/
theorem canLeave_of_over (hplaced : s.Placed) (hlease : s.leased = true)
    (hover : s.app.outcome.isSome = true) : CanLeave cfg next init s := by
  unfold Placed at hplaced
  cases hp : s.position with
  | entry =>
    rw [hp, hlease] at hplaced
    cases hplaced.2.1
  | rejecting rest =>
    rw [hp, hlease] at hplaced
    cases hplaced.2.1
  | through =>
    rw [hp, hlease] at hplaced
    cases hplaced.1
  | uploadTop =>
    by_cases hd : s.deadline ≤ s.now
    · have hstep : s.step cfg next init .poll = some s.uploadExpired := by
        simp only [step, hp, if_pos hd]
      exact CanLeave.of_step hstep rfl rfl (.inl rfl) (canLeave_refusing rfl hover)
    · have hstep : s.step cfg next init .poll = some { s with position := .uploadWait } := by
        simp only [step, hp, if_neg hd]
      exact CanLeave.of_step hstep rfl rfl (.inl rfl) (canLeave_uploadWait rfl hover)
  | uploadWait => exact canLeave_uploadWait hp hover
  | refusing rest => exact canLeave_refusing hp hover
  | racing =>
    have hstep : s.step cfg next init .wake =
        some { s with position := .settleWatcher, watcherCancel := true } := by
      simp only [step, wake, hp, if_pos hover]
    exact CanLeave.of_step hstep rfl rfl (.inl rfl) (canLeave_settleWatcher rfl hover)
  | settleWatcher => exact canLeave_settleWatcher hp hover
  | settleApp disconnected => exact canLeave_settleApp hp hover
  | expireWatcher => exact canLeave_expireWatcher hp hover
  | unwindApp o => exact canLeave_unwindApp hp hover
  | unwindWatcher o => exact canLeave_unwindWatcher hp
  | finishing o => exact canLeave_finishing hp
  | exit x => exact canLeave_exit hp

/-! ### Runs -/

/-- No 504 of the middlewares beside a start of the application. -/
theorem not_isStart_of_timedOut {b : Boundary} {requestId : String} (h : b.Tracked requestId)
    {headers : List (Bytes × Bytes)}
    (htimed : (Sender.middleware, Outgoing.start (some 504) headers) ∈ b.sent) {m : Outgoing}
    (hm : (Sender.app, m) ∈ b.sent) : m.isStart = false := by
  by_contra hstart
  have htimed' : (Sender.middleware, Outgoing.start (some 504) headers) ∈ b.starts :=
    List.mem_filter.mpr ⟨htimed, rfl⟩
  have hm' : (Sender.app, m) ∈ b.starts :=
    List.mem_filter.mpr ⟨hm, Bool.not_eq_false _ ▸ hstart⟩
  have hone := h.one
  cases hb : b.starts with
  | nil =>
    rw [hb] at hm'
    cases hm'
  | cons first rest =>
    rw [hb, List.length_cons] at hone
    have hrest : rest = [] := List.length_eq_zero_iff.mp (by omega)
    rw [hb, hrest, List.mem_singleton] at htimed' hm'
    cases htimed'.trans hm'.symm

/-- `finish_http` is the last thing the inner middlewares do. -/
theorem Placed.unfinished (h : s.Placed) (hp : ∀ x, s.position ≠ .exit x) : s.finishes = 0 := by
  unfold Placed at h
  cases hpos : s.position with
  | exit x => exact absurd hpos (hp x)
  | through =>
    rw [hpos] at h
    exact h.2
  | racing =>
    rw [hpos] at h
    exact h.2
  | settleApp disconnected =>
    rw [hpos] at h
    exact h.2
  | unwindApp o =>
    rw [hpos] at h
    exact h.2
  | _ =>
    rw [hpos] at h
    exact h.2.2

/-- One `finish_http` at most. -/
theorem Placed.finishes_le (h : s.Placed) : s.finishes ≤ 1 := by
  by_cases hp : ∃ x, s.position = .exit x
  · obtain ⟨x, hx⟩ := hp
    unfold Placed at h
    rw [hx] at h
    rcases h.2 with ⟨-, hf⟩ | ⟨-, hf | ⟨hf, -⟩⟩ <;> omega
  · have hzero := h.unfinished (fun x hx ↦ hp ⟨x, hx⟩)
    omega

/-- It comes after the application. -/
theorem Placed.over_of_finished (h : s.Placed) (hf : 0 < s.finishes) :
    s.app.outcome.isSome = true := by
  by_cases hp : ∃ x, s.position = .exit x
  · obtain ⟨x, hx⟩ := hp
    unfold Placed at h
    rw [hx] at h
    exact h.1
  · have hzero := h.unfinished (fun x hx ↦ hp ⟨x, hx⟩)
    omega

/-- It was called once the inner middlewares are over, unless a bare exception left `finally`. -/
theorem Placed.finished (h : s.Placed) (hlease : s.leased = true) (hbare : ¬ s.Bare) {x : Exit A}
    (hp : s.position = .exit x) : s.finishes = 1 := by
  unfold Placed at h
  rw [hp] at h
  rcases h.2 with ⟨hfalse, -⟩ | ⟨-, hf | ⟨-, hb⟩⟩
  · rw [hlease] at hfalse
    cases hfalse
  · exact hf
  · exact absurd hb hbare

/-- A call with a lease whose application is over can go on to `finish_http`. -/
theorem exists_finish (h : s.Placed) (hlease : s.leased = true)
    (hover : s.app.outcome.isSome = true) (hbare : ¬ s.Bare) :
    ∃ es t, exec (step cfg next init) s es = some t ∧ t.finishes = 1 := by
  have hleave : CanLeave cfg next init s := canLeave_of_over h hlease hover
  obtain ⟨es, t, x, hrun, hp, happ, hl, hw⟩ := hleave
  have ht : t.Placed := exec_preserves (fun _ _ _ hs hstep ↦ placed_step hs hstep) hrun h
  refine ⟨es, t, hrun, ht.finished (hl.trans hlease) ?_ hp⟩
  rintro ⟨e, he, ho | ho⟩
  · rw [happ] at ho
    exact hbare ⟨e, he, .inl ho⟩
  · rcases hw with hsame | hok
    · rw [hsame] at ho
      exact hbare ⟨e, he, .inr ho⟩
    · rw [hok] at ho
      cases ho

/-- Over an application that starts one response at most, every run starts one response at most. Its
headers hold one request id, the server's. A 504 of the middlewares means that the deadline struck
and that the application had started nothing. A lease gets `finish_http` at most once and not before
the application's task is done; it has got it when the inner middlewares are over, and can get it
once the task is done, unless a task ended with an exception that is neither an `Exception` nor a
`CancelledError`. -/
theorem one_response_one_finish {call : HttpCall} {es : List (Event A)}
    (hone : AtMostOnce next AppCall.startsResponse init)
    (hrun : exec (step cfg next init) (start call) es = some s) :
    (s.boundary.sent.filter (·.2.isStart)).length ≤ 1 ∧
    (∀ sender status headers, (sender, Outgoing.start status headers) ∈ s.boundary.sent →
      headers.filter (fun h ↦ h.1.map lowerByte = asciiBytes "x-request-id") =
        [(asciiBytes "x-request-id", asciiBytes call.requestId)]) ∧
    (∀ headers, (Sender.middleware, Outgoing.start (some 504) headers) ∈ s.boundary.sent →
      s.leased = true ∧ s.deadline ≤ s.now ∧ s.responseStarted = false ∧
        ∀ m, (Sender.app, m) ∈ s.boundary.sent → m.isStart = false) ∧
    s.finishes ≤ 1 ∧ (0 < s.finishes → s.app.outcome.isSome = true) ∧
    (s.leased = true → ¬ s.Bare →
      (∀ x, s.position = .exit x → s.finishes = 1) ∧
      (s.app.outcome.isSome = true →
        ∃ es' t, exec (step cfg next init) s es' = some t ∧ t.finishes = 1)) := by
  have hsound := sound_exec hone hrun
  have hcall : s.call = call :=
    exec_preserves (P := fun s : Stack A S ↦ s.call = call)
      (fun _ _ _ h hstep ↦ (call_step hstep).trans h) hrun rfl
  have htracked := hsound.oneStart.tracked
  rw [hcall] at htracked
  refine ⟨htracked.one, htracked.branded, ?_, hsound.placed.finishes_le,
    hsound.placed.over_of_finished, ?_⟩
  · intro headers hmem
    obtain ⟨hlease, hdeadline, hstarted, -⟩ := hsound.timeout.cause ⟨headers, hmem⟩
    refine ⟨hlease, hdeadline, hstarted, ?_⟩
    intro m hm
    exact not_isStart_of_timedOut htracked hmem hm
  · intro hlease hbare
    refine ⟨fun x hp ↦ hsound.placed.finished hlease hbare hp, ?_⟩
    intro hover
    exact exists_finish hsound.placed hlease hover hbare

/-! ### Two applications -/

/-- An application that sends a response, with a request id of its own. -/
def answering : App String Nat
  | 0 => .call (.send (.start (some 200) [(asciiBytes "X-Request-Id", asciiBytes "forged")]))
      fun _ ↦ 1
  | 1 => .call (.send (.body [] false)) fun _ ↦ 2
  | _ => .ret

/-- It starts one response. -/
theorem answering_atMostOnce : AtMostOnce answering AppCall.startsResponse 0 := by
  have hpath {n : Nat} {cs : List AppCall} (h : Path answering 0 cs n) :
      cs.countP AppCall.startsResponse = min n 1 := by
    induction h with
    | nil => rfl
    | @snoc t cs c k _ hnext r ih =>
      match t, hnext with
      | 0, hnext =>
        cases hnext
        rw [List.countP_append, ih]
        rfl
      | 1, hnext =>
        cases hnext
        rw [List.countP_append, ih]
        rfl
      | n + 2, hnext => cases hnext
  intro cs n h
  rw [hpath h]
  exact Nat.min_le_right n 1

/-- The client disconnects while the application is answering. -/
def answeringRun : List (Event String) :=
  [.enter none { capacity := 1 }, .poll, .received (.ok (.request [1] false)), .app .turn,
    .watched (.ok .disconnect), .wake, .app (.sent (.ok ())), .app .turn, .app (.sent (.ok ())),
    .app .turn, .wake, .wake, .wake, .finishHttp]

/-- The forged id is dropped, and the lease is finished once. -/
theorem one_response_one_finish_answered :
    ∃ s : Stack String Nat,
      exec (step Application.unitServer answering 0) (start rawCall) answeringRun = some s ∧
      (s.boundary.sent.filter (·.2.isStart)).length = 1 ∧
      (∀ sender status headers, (sender, Outgoing.start status headers) ∈ s.boundary.sent →
        headers.filter (fun h ↦ h.1.map lowerByte = asciiBytes "x-request-id") =
          [(asciiBytes "x-request-id", asciiBytes "id")]) ∧ s.finishes = 1 := by
  have hfacts : (exec (step Application.unitServer answering 0) (start rawCall) answeringRun).map
      (fun s ↦ ((s.boundary.sent.filter (·.2.isStart)).length, s.leased,
        s.app.outcome.map Except.isOk, s.watcher.outcome.map Except.isOk,
        match s.position with | .exit _ => true | _ => false)) =
      some (1, true, some true, some true, true) := by decide +kernel
  obtain ⟨s, hrun, hs⟩ := Option.map_eq_some_iff.mp hfacts
  simp only [Prod.mk.injEq, Option.map_eq_some_iff] at hs
  obtain ⟨hstarts, hlease, ⟨a, ha, haok⟩, ⟨w, hw, hwok⟩, hexit⟩ := hs
  have hbare : ¬ s.Bare := by
    rintro ⟨e, -, ho | ho⟩
    · rw [ha] at ho
      cases ho
      cases haok
    · rw [hw] at ho
      cases ho
      cases hwok
  obtain ⟨-, hids, -, -, -, hfinish⟩ := one_response_one_finish answering_atMostOnce hrun
  refine ⟨s, hrun, hstarts, hids, ?_⟩
  split at hexit
  · next x hp => exact (hfinish hlease hbare).1 x hp
  · cases hexit

/-- An application that raises an exception which is neither an `Exception` nor a
`CancelledError`. -/
def fatal : App String Unit := fun _ ↦ .raise { ref := 0, cls := .base "Fatal", args := "" }

def fatalRun : List (Event String) :=
  [.enter none { capacity := 1 }, .poll, .received (.ok (.request [] false)), .app .turn, .wake,
    .watched (.ok .disconnect), .wake, .wake]

/-- It starts nothing, and its lease is never finished: the exception leaves the `finally` block
before `finish_http`. -/
theorem bare_exception_skips_finish :
    AtMostOnce fatal AppCall.startsResponse () ∧
    ∃ s : Stack String Unit,
      exec (step Application.unitServer fatal ()) (start rawCall) fatalRun = some s ∧
      s.leased = true ∧ s.finishes = 0 ∧
      s.position = .exit (.ended (.raised { ref := 0, cls := .base "Fatal", args := "" })) := by
  constructor
  · intro cs t h
    cases h with
    | nil => exact Nat.zero_le 1
    | snoc _ hnext r => cases hnext
  · exact ⟨_, rfl, rfl, rfl, rfl⟩

end Stack
end InferenceServer.Server
