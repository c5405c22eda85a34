import InferenceServer.Server.Application
import InferenceServer.Server.Upload

/-!
# What the body gate lets through

Library `Server`. `python/cuda_db/server/admission.py:146–193,235–281`. `replay_receive` returns the
gated body first, without waiting, and afterwards only what the disconnect watcher saw. With the
gate of `Server.Upload` this says what an admitted application can observe of the client.
-/

namespace InferenceServer.Server

open InferenceServer.Base

variable {A S F : Type}

namespace Stack

variable {cfg : Config F} {next : App A S} {init : S} {s t : Stack A S} {e : Event A}

/-! ### The replayed channel -/

/-- What `replay_receive` returned to the application. -/
structure Replayed (es : List (Event A)) (s : Stack A S) : Prop where
  first : s.replayed = false → s.delivered = []
  later : s.replayed = true → ∃ n,
    s.delivered = .request s.body false :: List.replicate n .disconnect ∧
    (0 < n → s.disconnected = true)
  idle : s.app = .idle → s.replayed = false
  unleased : s.leased = false → s.replayed = false
  /-- the first `receive` does not wait -/
  waits : s.leased = true → ∀ k, s.app = .running (.awaiting .receive k) → s.replayed = true
  real : s.disconnected = true → Event.watched (.ok .disconnect) ∈ es

variable {es : List (Event A)}

theorem replayed_start (call : HttpCall) : Replayed [] (start call : Stack A S) where
  first _ := rfl
  later := by rintro ⟨⟩
  idle _ := rfl
  unleased _ := rfl
  waits := by rintro ⟨⟩
  real := by rintro ⟨⟩

/-- Nothing is delivered. -/
theorem Replayed.keep (h : Replayed es s) (e : Event A) (hreplayed : t.replayed = s.replayed)
    (hdelivered : t.delivered = s.delivered) (hdisconnected : t.disconnected = s.disconnected)
    (hbody : s.replayed = true → t.body = s.body) (hidle : t.app = .idle → s.app = .idle)
    (hunleased : t.leased = false → s.replayed = false)
    (hwaits : t.leased = true → ∀ k, t.app = .running (.awaiting .receive k) →
      s.replayed = true) : Replayed (es ++ [e]) t where
  first := by
    rw [hreplayed, hdelivered]
    exact h.first
  later := by
    rw [hreplayed, hdelivered, hdisconnected]
    intro hr
    rw [hbody hr]
    exact h.later hr
  idle := by
    rw [hreplayed]
    exact fun happ ↦ h.idle (hidle happ)
  unleased := by
    rw [hreplayed]
    exact hunleased
  waits := by
    rw [hreplayed]
    exact hwaits
  real := by
    rw [hdisconnected]
    exact fun hd ↦ List.mem_append_left _ (h.real hd)

theorem replayed_middleware (hplaced : s.Placed) (h : Replayed es s)
    (hmove : MiddlewareMove cfg init s e t) : Replayed (es ++ [e]) t := by
  have hbusy {k : AppCall.receive.Reply A → S} {P : Prop} (hidle : s.app = .idle)
      (hs : s.app = .running (.awaiting .receive k)) : P := by
    cases hidle.symm.trans hs
  unfold Placed at hplaced
  cases hmove with
  | through keyId hp =>
    rw [hp] at hplaced
    exact h.keep _ rfl rfl rfl (fun _ ↦ rfl) (by rintro ⟨⟩) (fun _ ↦ h.idle hplaced.1)
      (by rintro _ _ ⟨⟩)
  | oversize keyId hp _ =>
    rw [hp] at hplaced
    exact h.keep _ rfl rfl rfl (fun _ ↦ rfl) id (fun _ ↦ h.idle hplaced.1)
      (fun _ _ hs ↦ hbusy hplaced.1 hs)
  | acquire keyId hp _ =>
    rw [hp] at hplaced
    exact h.keep _ rfl rfl rfl (fun _ ↦ rfl) id (fun _ ↦ h.idle hplaced.1)
      (fun _ _ hs ↦ hbusy hplaced.1 hs)
  | chunk hp _ =>
    rw [hp] at hplaced
    refine h.keep _ rfl rfl rfl ?_ id h.unleased h.waits
    intro hr
    rw [h.idle hplaced.1] at hr
    cases hr
  | complete hp _ =>
    rw [hp] at hplaced
    refine h.keep _ rfl rfl rfl ?_ (by rintro ⟨⟩) h.unleased (by rintro _ _ ⟨⟩)
    intro hr
    rw [h.idle hplaced.1] at hr
    cases hr
  | forward x task =>
    cases task <;> exact h.keep _ rfl rfl rfl (fun _ ↦ rfl) id h.unleased h.waits
  | _ => exact h.keep _ rfl rfl rfl (fun _ ↦ rfl) id h.unleased h.waits

/-- A turn of the application: its first `receive` returns the body at once. -/
theorem replayed_turn (h : Replayed es s)
    (a : Turn AppCall (AppCall.Reply A) (Exc A) S) (e : Event A) :
    Replayed (es ++ [e]) (s.turn a) := by
  cases a with
  | ret =>
    exact h.keep _ rfl rfl rfl (fun _ ↦ rfl) (by rintro ⟨⟩) h.unleased (by rintro _ _ ⟨⟩)
  | raise x =>
    exact h.keep _ rfl rfl rfl (fun _ ↦ rfl) (by rintro ⟨⟩) h.unleased (by rintro _ _ ⟨⟩)
  | call c k =>
    cases c with
    | send m =>
      exact h.keep _ rfl rfl rfl (fun _ ↦ rfl) (by rintro ⟨⟩) h.unleased (by rintro _ _ ⟨⟩)
    | receive =>
      unfold turn
      dsimp only
      split
      · next hfirst =>
        rw [Bool.and_eq_true, Bool.not_eq_true'] at hfirst
        exact {
          first := by rintro ⟨⟩
          later := by
            intro _
            refine ⟨0, ?_, by rintro ⟨⟩⟩
            show s.delivered ++ _ = _
            rw [h.first hfirst.2]
            rfl
          idle := by rintro ⟨⟩
          unleased := by
            intro hl
            rw [show s.leased = false from hl] at hfirst
            cases hfirst.1
          waits := by rintro _ _ ⟨⟩
          real := fun hd ↦ List.mem_append_left _ (h.real hd) }
      · next hlater =>
        refine h.keep _ rfl rfl rfl (fun _ ↦ rfl) (by rintro ⟨⟩) h.unleased ?_
        intro hl _ _
        rw [show s.leased = true from hl, Bool.true_and, Bool.not_eq_true'] at hlater
        exact Bool.not_eq_false _ ▸ hlater
    | pause =>
      exact h.keep _ rfl rfl rfl (fun _ ↦ rfl) (by rintro ⟨⟩) h.unleased (by rintro _ _ ⟨⟩)
    | setClientKeyId keyId =>
      exact h.keep _ rfl rfl rfl (fun _ ↦ rfl) (by rintro ⟨⟩) h.unleased (by rintro _ _ ⟨⟩)

/-- A later `receive` returns a disconnect, after a real one. -/
theorem replayed_received (h : Replayed es s) {a : Except (Exc A) Message}
    {k : AppCall.receive.Reply A → S} (hs : s.app = .running (.awaiting .receive k))
    (ha : s.receivable a = true) (e : Event A) :
    Replayed (es ++ [e]) ({ s with delivered := s.deliver a }.ready (k a)) := by
  by_cases hsame : s.deliver a = s.delivered
  · exact h.keep _ rfl hsame rfl (fun _ ↦ rfl) (by rintro ⟨⟩) h.unleased (by rintro _ _ ⟨⟩)
  · cases a with
    | error x => exact absurd rfl hsame
    | ok m =>
      have hlease : s.leased = true := by
        by_contra hl
        exact hsame (if_neg hl)
      have hdeliver : s.deliver (.ok m) = s.delivered ++ [m] := if_pos hlease
      have hreal : s.disconnected = true ∧ m = .disconnect := by
        have hok : (!s.leased || (s.disconnected && m == .disconnect)) = true := ha
        rw [hlease, Bool.not_true, Bool.false_or, Bool.and_eq_true, beq_iff_eq] at hok
        exact hok
      have hreplayed := h.waits hlease k hs
      obtain ⟨n, hn, -⟩ := h.later hreplayed
      exact {
        first := by
          intro hr
          cases hreplayed.symm.trans hr
        later := by
          intro _
          refine ⟨n + 1, ?_, fun _ ↦ hreal.1⟩
          show s.deliver (.ok m) = _
          rw [hdeliver, hn, hreal.2, List.replicate_succ']
          rfl
        idle := by rintro ⟨⟩
        unleased := by
          intro hl
          rw [show s.leased = false from hl] at hlease
          cases hlease
        waits := by rintro _ _ ⟨⟩
        real := fun hd ↦ List.mem_append_left _ (h.real hd) }

theorem replayed_task (h : Replayed es s) (hmove : TaskMove next init s e t) :
    Replayed (es ++ [e]) t := by
  cases hmove with
  | turn hs => exact replayed_turn h _ _
  | cancelled x hs =>
    exact h.keep _ rfl rfl rfl (fun _ ↦ rfl) (by rintro ⟨⟩) h.unleased (by rintro _ _ ⟨⟩)
  | answered ev hs r =>
    exact h.keep _ rfl rfl rfl (fun _ ↦ rfl) (by rintro ⟨⟩) h.unleased (by rintro _ _ ⟨⟩)
  | received hs ha => exact replayed_received h hs ha _
  | watchOn a => exact h.keep _ rfl rfl rfl (fun _ ↦ rfl) id h.unleased h.waits
  | watchDisconnect hs =>
    exact {
      first := h.first
      later := by
        intro hr
        obtain ⟨n, hn, -⟩ := h.later hr
        exact ⟨n, hn, fun _ ↦ rfl⟩
      idle := h.idle
      unleased := h.unleased
      waits := h.waits
      real := fun _ ↦ List.mem_append_right _ (List.mem_singleton.mpr rfl) }
  | watchFailed x hs => exact h.keep _ rfl rfl rfl (fun _ ↦ rfl) id h.unleased h.waits

theorem replayed_exec {call : HttpCall}
    (hrun : exec (step cfg next init) (start call) es = some s) : Replayed es s := by
  apply exec_induction (P := Replayed) (replayed_start call) ?_ hrun
  intro es s e t hm h hstep
  cases move_of_step hstep with
  | tick => exact h.keep _ rfl rfl rfl (fun _ ↦ rfl) id h.unleased h.waits
  | middleware hmove => exact replayed_middleware (placed_exec hm) h hmove
  | task hmove => exact replayed_task h hmove

/-- No more than the limit is buffered. -/
theorem body_step (h : s.body.length ≤ cfg.maxRequestBytes)
    (hstep : s.step cfg next init e = some t) : t.body.length ≤ cfg.maxRequestBytes := by
  cases move_of_step hstep with
  | tick => exact h
  | middleware hmove =>
    cases hmove with
    | chunk _ hlength =>
      show (s.body ++ _).length ≤ _
      rw [List.length_append]
      exact hlength
    | complete _ hlength =>
      show (s.body ++ _).length ≤ _
      rw [List.length_append]
      exact hlength
    | forward _ task => cases task <;> exact h
    | _ => exact h
  | task hmove =>
    cases hmove with
    | turn hs =>
      rw [(turn_upload s (next _)).2]
      exact h
    | _ => exact h

/-- A call with a lease was let through, or is being read or refused. -/
theorem gated_cases {as : List Arrival} (hplaced : s.Placed) (h : Gated cfg as s)
    (hlease : s.leased = true) :
    Accepted cfg as s ∨ s.app = .idle ∧
      (¬ DeclaredFits cfg s.call ∧ as = [] ∧ s.boundary.statuses = [413] ∨
        DeclaredFits cfg s.call ∧ Answered cfg.maxRequestBytes as s.boundary.statuses) := by
  have hrefused (h : Refused cfg as s) : Accepted cfg as s ∨ s.app = .idle ∧
      (¬ DeclaredFits cfg s.call ∧ as = [] ∧ s.boundary.statuses = [413] ∨
        DeclaredFits cfg s.call ∧ Answered cfg.maxRequestBytes as s.boundary.statuses) :=
    .inr ⟨h.app, h.answer⟩
  have hreading (h : Reading cfg as s) : Accepted cfg as s ∨ s.app = .idle ∧
      (¬ DeclaredFits cfg s.call ∧ as = [] ∧ s.boundary.statuses = [413] ∨
        DeclaredFits cfg s.call ∧ Answered cfg.maxRequestBytes as s.boundary.statuses) := by
    refine .inr ⟨h.app, .inr ⟨h.declared, ?_⟩⟩
    rw [h.statuses]
    exact .waiting h.continuing
  unfold Placed at hplaced
  unfold Gated at h
  rw [hlease] at hplaced h
  cases hp : s.position with
  | entry =>
    rw [hp] at hplaced
    cases hplaced.2.1
  | rejecting rest =>
    rw [hp] at hplaced
    cases hplaced.2.1
  | through =>
    rw [hp] at hplaced
    cases hplaced.1
  | uploadTop =>
    rw [hp] at h
    exact hreading h
  | uploadWait =>
    rw [hp] at h
    exact hreading h
  | refusing rest =>
    rw [hp] at h
    exact h.elim (fun h ↦ hrefused h.1) .inl
  | unwindApp o =>
    rw [hp] at h
    exact h.elim (fun h ↦ hrefused h.1) .inl
  | unwindWatcher o =>
    rw [hp] at h
    exact h.elim (fun h ↦ hrefused h.1) .inl
  | finishing o =>
    rw [hp] at h
    exact h.elim (fun h ↦ hrefused h.1) .inl
  | exit x =>
    rw [hp] at h
    rcases h with ⟨hfalse, -⟩ | hr | ha
    · cases hfalse
    · exact hrefused hr
    · exact .inl ha
  | _ =>
    rw [hp] at h
    exact .inl h

/-- In every run of a call with a lease, with the list of messages and deadlines that its upload
met: the application is started exactly when the declared length fits and the list completes within
the limit. Its first `receive` returns the bytes of the list with `more_body` false, and every later
one a disconnect, after a real one. Otherwise the call is answered with 413, 408 or nothing, by what
comes first in the list. No more than the limit is ever buffered. -/
theorem body_gate_exact {call : HttpCall}
    (hrun : exec (step cfg next init) (start call) es = some s)
    (hreceive : ∀ x, Event.received (.error x) ∉ es) (hlease : s.leased = true) :
    (s.app ≠ .idle ↔ DeclaredFits cfg call ∧
      Complete cfg.maxRequestBytes (arrivals cfg next init call es)) ∧
    (s.app ≠ .idle → s.delivered = [] ∨ ∃ n,
      s.delivered = .request (uploaded (arrivals cfg next init call es)) false ::
        List.replicate n .disconnect ∧ (0 < n → Event.watched (.ok .disconnect) ∈ es)) ∧
    (s.app = .idle →
      ¬ DeclaredFits cfg call ∧ arrivals cfg next init call es = [] ∧
        s.boundary.statuses = [413] ∨
      DeclaredFits cfg call ∧
        Answered cfg.maxRequestBytes (arrivals cfg next init call es) s.boundary.statuses) ∧
    s.body.length ≤ cfg.maxRequestBytes := by
  have hcall : s.call = call :=
    exec_preserves (P := fun s : Stack A S ↦ s.call = call)
      (fun _ _ _ h hstep ↦ (call_step hstep).trans h) hrun rfl
  have hcases := gated_cases (placed_exec hrun) (gated_exec hrun hreceive) hlease
  rw [hcall] at hcases
  refine ⟨⟨?_, ?_⟩, ?_, ?_, ?_⟩
  · intro happ
    rcases hcases with hacc | ⟨hidle, -⟩
    · exact ⟨hcall ▸ hacc.declared, hacc.complete⟩
    · exact absurd hidle happ
  · rintro ⟨hfits, hcomplete⟩
    rcases hcases with hacc | ⟨-, ⟨hnot, -⟩ | ⟨-, hans⟩⟩
    · exact hacc.app
    · exact absurd hfits hnot
    · exact absurd hans hcomplete.not_answered
  · intro happ
    have hreplayed := replayed_exec hrun
    rcases hcases with hacc | ⟨hidle, -⟩
    · cases hr : s.replayed with
      | false => exact .inl (hreplayed.first hr)
      | true =>
        obtain ⟨n, hn, hreal⟩ := hreplayed.later hr
        rw [hacc.body] at hn
        exact .inr ⟨n, hn, fun hpos ↦ hreplayed.real (hreal hpos)⟩
    · exact absurd hidle happ
  · intro hidle
    rcases hcases with hacc | ⟨-, hans⟩
    · exact absurd hidle hacc.app
    · exact hans
  · exact exec_preserves (P := fun s : Stack A S ↦ s.body.length ≤ cfg.maxRequestBytes)
      (fun _ _ _ h hstep ↦ body_step h hstep) hrun (Nat.zero_le _)

/-- An application that receives twice. -/
def echoing : App String Nat
  | 0 => .call .receive fun _ ↦ 1
  | 1 => .call .receive fun _ ↦ 2
  | _ => .ret

/-- Two chunks with another message between them, then a disconnect. -/
def echoingRun : List (Event String) :=
  [.enter none { capacity := 1 }, .poll, .received (.ok (.request [1] true)), .poll,
    .received (.ok .other), .poll, .received (.ok (.request [2, 3] false)), .app .turn, .app .turn,
    .watched (.ok .disconnect), .app (.received (.ok .disconnect))]

theorem body_gate_exact_chunks :
    ∃ s : Stack String Nat,
      exec (step Application.unitServer echoing 0) (start rawCall) echoingRun = some s ∧
      s.delivered = [.request [1, 2, 3] false, .disconnect] ∧
      DeclaredFits Application.unitServer rawCall ∧
      Complete Application.unitServer.maxRequestBytes
        (arrivals Application.unitServer echoing 0 rawCall echoingRun) := by
  have hfacts : (exec (step Application.unitServer echoing 0) (start rawCall) echoingRun).map
      (fun s ↦ (s.leased, s.delivered, match s.app with | .idle => true | _ => false)) =
      some (true, [.request [1, 2, 3] false, .disconnect], false) := by decide +kernel
  obtain ⟨s, hrun, hs⟩ := Option.map_eq_some_iff.mp hfacts
  simp only [Prod.mk.injEq] at hs
  obtain ⟨hlease, hdelivered, happ⟩ := hs
  have hne : s.app ≠ .idle := by
    intro hidle
    rw [hidle] at happ
    cases happ
  have hreceive : ∀ x, Event.received (.error x) ∉ echoingRun := by
    intro x hx
    simp [echoingRun] at hx
  exact ⟨s, hrun, hdelivered, (body_gate_exact hrun hreceive hlease).1.mp hne⟩

/-! ### Every list is met -/

/-- A run without a failing `receive` leads to `s`, and its upload met `as`. -/
def Meets (cfg : Config F) (next : App A S) (init : S) (call : HttpCall) (as : List Arrival)
    (s : Stack A S) : Prop :=
  ∃ es, exec (step cfg next init) (start call) es = some s ∧
    arrivals cfg next init call es = as ∧ ∀ x, Event.received (.error x) ∉ es

variable {call : HttpCall} {as : List Arrival}

theorem Meets.snoc (h : Meets cfg next init call as s) (he : ∀ x, e ≠ .received (.error x))
    (hstep : s.step cfg next init e = some t) :
    Meets cfg next init call (as ++ (s.arrival e).toList) t := by
  obtain ⟨es, hrun, has, hes⟩ := h
  refine ⟨es ++ [e], exec_snoc_eq_some.mpr ⟨s, hrun, hstep⟩, ?_, ?_⟩
  · unfold arrivals at has ⊢
    rw [marks_snoc hrun, has]
  · intro x hx
    rcases List.mem_append.mp hx with hold | hnew
    · exact hes x hold
    · exact he x (List.mem_singleton.mp hnew).symm

/-- Time passes. -/
theorem Meets.wait (h : Meets cfg next init call as s) (n : Nat) :
    Meets cfg next init call as { s with now := s.now + n } := by
  induction n with
  | zero => exact h
  | succ n ih =>
    have htick := ih.snoc (e := .tick) (by rintro _ ⟨⟩) rfl
    rw [show arrival _ (Event.tick (A := A)) = none from rfl, Option.toList_none,
      List.append_nil] at htick
    exact htick

/-- Before the deadline, any message can be the next. -/
theorem Meets.message (h : Meets cfg next init call as s) (hp : s.position = .uploadTop)
    (hd : s.now < s.deadline) (m : Message) :
    Meets cfg next init call (as ++ [Arrival.message m])
      (upload cfg { s with position := .uploadWait } (.ok m)) := by
  have hpoll : s.step cfg next init .poll = some { s with position := .uploadWait } := by
    simp only [step, hp, if_neg (Nat.not_le.mpr hd)]
  have hwait := h.snoc (by rintro _ ⟨⟩) hpoll
  rw [show s.arrival .poll = none from if_neg (Nat.not_le.mpr hd), Option.toList_none,
    List.append_nil] at hwait
  exact hwait.snoc (e := .received (.ok m)) (by rintro _ ⟨⟩) rfl

/-- At the top of the loop, before the deadline. -/
structure AtTop (cfg : Config F) (next : App A S) (init : S) (call : HttpCall) (as : List Arrival)
    (s : Stack A S) : Prop where
  meets : Meets cfg next init call as s
  position : s.position = .uploadTop
  inTime : s.now < s.deadline
  body : s.body = uploaded as
  leased : s.leased = true

/-- An admitted call starts to read with all of its time. -/
theorem reading_of_enter {digests : Option (List ApiKeyRecord)} {controller : AdmissionController}
    (hmove : MiddlewareMove cfg init s (.enter digests controller) t)
    (hp : t.position = .uploadTop) :
    t.leased = true ∧ t.deadline = t.now + cfg.requestTimeoutMs * 1000 ∧ t.body = s.body := by
  cases hmove with
  | reject keyId detail headers _ _ => cases hp
  | through keyId _ => cases hp
  | oversize keyId _ _ => cases hp
  | acquire keyId _ _ => exact ⟨rfl, rfl, rfl⟩
  | settleWatcher hev o _ => cases hev
  | settleApp hev o _ _ => cases hev
  | settleExpired hev _ _ => cases hev
  | expireUnwind hev o _ => cases hev
  | expire hev _ _ => cases hev
  | unwindApp hev _ _ => cases hev
  | unwindAppBare hev _ _ _ => cases hev
  | unwindWatcher hev _ _ => cases hev
  | unwindWatcherBare hev _ _ _ => cases hev

/-- A message that does not end the upload. -/
theorem AtTop.snoc (h : AtTop cfg next init call as s) {a : Arrival} (ha : a.continues = true)
    (hlength : (uploaded as ++ a.chunk).length ≤ cfg.maxRequestBytes) :
    ∃ t, AtTop cfg next init call (as ++ [a]) t := by
  cases a with
  | deadline => cases ha
  | message m =>
    have hmeets := h.meets.message h.position h.inTime m
    cases m with
    | disconnect => cases ha
    | other =>
      refine ⟨_, hmeets, rfl, h.inTime, ?_, h.leased⟩
      rw [uploaded_snoc, show (Arrival.message .other).chunk = [] from rfl, List.append_nil]
      exact h.body
    | request chunk moreBody =>
      rw [show moreBody = true from ha] at hmeets ⊢
      have hfits : ¬ cfg.maxRequestBytes < s.body.length + chunk.length := by
        rw [h.body, ← List.length_append]
        exact Nat.not_lt.mpr hlength
      have hupload : upload cfg { s with position := .uploadWait } (.ok (.request chunk true)) =
          { s with body := s.body ++ chunk, position := .uploadTop } := if_neg hfits
      rw [hupload] at hmeets
      refine ⟨_, hmeets, rfl, h.inTime, ?_, h.leased⟩
      rw [uploaded_snoc, ← h.body]
      rfl

theorem exists_atTop {digests : Option (List ApiKeyRecord)} {controller : AdmissionController}
    (htime : 0 < cfg.requestTimeoutMs)
    (hentry : ((start call : Stack A S).enter cfg init digests controller).position = .uploadTop)
    (has : Continuing cfg.maxRequestBytes as) : ∃ s, AtTop cfg next init call as s := by
  induction as using List.reverseRecOn with
  | nil =>
    obtain ⟨hlease, hdeadline, hbody⟩ := reading_of_enter (move_of_enter rfl) hentry
    refine ⟨_, ⟨[.enter digests controller], rfl, rfl, by simp⟩, hentry, ?_, hbody, hlease⟩
    rw [hdeadline]
    omega
  | append_singleton as a ih =>
    obtain ⟨hwithin, hlength⟩ := withinLimit_snoc.mp has.within
    obtain ⟨s, hs⟩ := ih ⟨fun x hx ↦ has.continues x (List.mem_append_left _ hx), hwithin⟩
    exact hs.snoc (has.continues a (by simp)) hlength

/-- A message keeps the lease. -/
theorem leased_upload (s : Stack A S) (a : Except (Exc A) Message) :
    (s.upload cfg a).leased = s.leased := by
  unfold upload
  split
  · split <;> rfl
  · rfl
  · rfl
  · split
    · rfl
    · dsimp only
      split <;> rfl

/-- Every list that the gate has not decided before its last entry is met by a run. -/
theorem every_upload_met {digests : Option (List ApiKeyRecord)} {controller : AdmissionController}
    (htime : 0 < cfg.requestTimeoutMs)
    (hentry : ((start call : Stack A S).enter cfg init digests controller).position = .uploadTop)
    (has : Continuing cfg.maxRequestBytes as) (a : Arrival) :
    ∃ s : Stack A S, Meets cfg next init call (as ++ [a]) s ∧ s.leased = true := by
  obtain ⟨s, hs⟩ : ∃ s, AtTop cfg next init call as s := exists_atTop htime hentry has
  cases a with
  | message m =>
    refine ⟨_, hs.meets.message hs.position hs.inTime m, ?_⟩
    rw [leased_upload]
    exact hs.leased
  | deadline =>
    have hwait := hs.meets.wait (s.deadline - s.now)
    have hd : s.deadline ≤ s.now + (s.deadline - s.now) := by
      have hin := hs.inTime
      omega
    have hpoll : step cfg next init { s with now := s.now + (s.deadline - s.now) } .poll =
        some (uploadExpired { s with now := s.now + (s.deadline - s.now) }) := by
      simp only [step, hs.position, if_pos hd]
    have hexpired := hwait.snoc (by rintro _ ⟨⟩) hpoll
    rw [show arrival { s with now := s.now + (s.deadline - s.now) } .poll = some .deadline from
      if_pos hd] at hexpired
    exact ⟨_, hexpired, hs.leased⟩

end Stack
end InferenceServer.Server
