import InferenceServer.Server.RequestMoves

/-!
# Who holds a permit

Library `Server`. A lease has two owners, the HTTP side and the native call. `Owned` relates
where the two stand with the lease's flags; every step of a request keeps it, and moves the
controller's count exactly as the request starts or stops holding its permit.
-/

namespace InferenceServer.Server

variable {F : Type}

/-! ### Positions -/

/-- How far the HTTP side of a request is. -/
inductive Stage where
  | outside
  /-- with a lease, before `finish_http` -/
  | http
  | releasing
  | done
  deriving DecidableEq

/-- The stage of the middleware. -/
def Middleware.stage : Middleware → Stage
  | .entry => .outside
  | .rejecting _ _ => .outside
  | .through => .outside
  | .releasing => .releasing
  | .done => .done
  | _ => .http

/-- The middleware awaits the application, or races with it. -/
def Middleware.runsApp : Middleware → Bool
  | .through => true
  | .racing => true
  | .settleApp _ => true
  | .unwindApp => true
  | _ => false

/-- The application was not created yet. -/
def Middleware.isEarly : Middleware → Bool
  | .entry => true
  | .uploadTop => true
  | .uploadWait => true
  | _ => false

/-- No native call was submitted, and the client's channel is not read. -/
def AppTask.isPlain : AppTask → Bool
  | .idle => true
  | .created => true
  | .responding _ => true
  | .respondingBody => true
  | .done _ => true
  | _ => false

/-- The native call is registered with the lease. -/
def AppTask.isRegistered : AppTask → Bool
  | .registered => true
  | .awaiting => true
  | .responding _ => true
  | .respondingBody => true
  | .done _ => true
  | _ => false

/-- The lease's callback needs no further run for this call. -/
def Work.callbackRun (w : Work F) : Bool :=
  match w.phase with
  | .releasing => true
  | .chaining => true
  | .finished => true
  | _ => !w.leaseCallback

/-- The call is queued or running, or it is complete and has not run the lease's callback to
its end. -/
def Work.unfinished (w : Work F) : Bool :=
  match w.phase with
  | .completed => w.leaseCallback
  | .chaining => false
  | .finished => false
  | _ => true

/-- The request acquired a lease, and its HTTP side or its native call is unfinished. -/
def Request.unfinished (r : Request F) : Bool :=
  r.lease.isSome && (r.middleware != .done || r.work.any Work.unfinished)

/-- How a step changes the number of permits taken. -/
def Effect.permits : Effect → Int
  | .acquire => 1
  | .release => -1
  | _ => 0

theorem Middleware.stage_of_canUnwind {m : Middleware} (h : m.canUnwind = true) :
    m.stage = .http := by
  cases m <;> first | rfl | cases h

theorem Middleware.stage_of_canRefuse {m : Middleware} (h : m.canRefuse = true) :
    m.stage = .http := by
  cases m <;> first | rfl | cases h

theorem Middleware.runsApp_of_canRefuse {m : Middleware} (h : m.canRefuse = true) :
    m.runsApp = false := by
  cases m <;> first | rfl | cases h

/-! ### The invariant -/

/-- What the lease knows of the native call. -/
inductive Custody : AppTask → AdmissionLease → Option (Work F) → Prop where
  | unused {a : AppTask} {l : AdmissionLease} (ha : a.isPlain = true) (hw : l.work = false)
    (hf : l.workFinished = false) : Custody a l none
  | submitted {l : AdmissionLease} {w : Work F} (hw : l.work = false)
    (hf : l.workFinished = false) (hc : w.leaseCallback = false) :
    Custody .submitted l (some w)
  | attached {l : AdmissionLease} {w : Work F} (hw : l.work = true)
    (hf : l.workFinished = false) (hc : w.leaseCallback = false) :
    Custody .attached l (some w)
  | registered {a : AppTask} {l : AdmissionLease} {w : Work F} (ha : a.isRegistered = true)
    (hw : l.work = true) (hf : l.workFinished = w.callbackRun)
    (hc : w.leaseCallback = false → w.phase.isActive = false) : Custody a l (some w)

/-- A lease and both its owners. -/
structure Leased (m : Middleware) (a : AppTask) (l : AdmissionLease) (work : Option (Work F)) :
    Prop where
  stage : m.stage ≠ .outside
  settled : l.Settled
  http : l.httpFinished = decide (m.stage ≠ .http)
  releasing : m.stage = .releasing → l.released = true
  custody : Custody a l work
  callback : ∀ w, work = some w → w.phase = .releasing →
    m.stage = .done ∧ w.leaseCallback = true

/-- The positions of a request and its lease. -/
structure Owned (m : Middleware) (a : AppTask) (lease : Option AdmissionLease)
    (work : Option (Work F)) (deadline : Option Nat) : Prop where
  early : m.isEarly = true → a = .idle
  ended : m.runsApp = false → a.isOver = true
  unleased : lease = none →
    (m.stage = .outside ∨ m.stage = .done) ∧ work = none ∧ deadline = none ∧
      (a.isPlain = true ∨ ∃ body, a = .reading body)
  leased : ∀ l, lease = some l → Leased m a l work

/-- Custody reads two flags of the lease. -/
theorem Custody.congr {a : AppTask} {l l' : AdmissionLease} {work : Option (Work F)}
    (h : Custody a l work) (hw : l'.work = l.work) (hf : l'.workFinished = l.workFinished) :
    Custody a l' work := by
  cases h with
  | unused ha hw₀ hf₀ => exact .unused ha (hw.trans hw₀) (hf.trans hf₀)
  | submitted hw₀ hf₀ hc => exact .submitted (hw.trans hw₀) (hf.trans hf₀) hc
  | attached hw₀ hf₀ hc => exact .attached (hw.trans hw₀) (hf.trans hf₀) hc
  | registered ha hw₀ hf₀ hc => exact .registered ha (hw.trans hw₀) (hf.trans hf₀) hc

section Inversion

variable {a : AppTask} {l : AdmissionLease} {work : Option (Work F)}

theorem Custody.of_created (h : Custody a l work) (ha : a = .idle ∨ a = .created) :
    work = none ∧ l.work = false ∧ l.workFinished = false := by
  cases h with
  | unused _ hw hf => exact ⟨rfl, hw, hf⟩
  | submitted => rcases ha with ha | ha <;> cases ha
  | attached => rcases ha with ha | ha <;> cases ha
  | registered hreg => rcases ha with rfl | rfl <;> cases hreg

theorem Custody.of_submitted (h : Custody .submitted l work) :
    ∃ w, work = some w ∧ l.work = false ∧ l.workFinished = false ∧ w.leaseCallback = false := by
  cases h with
  | unused hplain => cases hplain
  | submitted hw hf hc => exact ⟨_, rfl, hw, hf, hc⟩
  | registered hreg => cases hreg

theorem Custody.of_attached {w : Work F} (h : Custody .attached l (some w)) :
    l.work = true ∧ l.workFinished = false ∧ w.leaseCallback = false := by
  cases h with
  | attached hw hf hc => exact ⟨hw, hf, hc⟩
  | registered hreg => cases hreg

theorem Custody.of_registered {w : Work F} (h : Custody a l (some w))
    (ha : a.isRegistered = true ∨ a.isOver = true) :
    l.work = true ∧ l.workFinished = w.callbackRun ∧
      (w.leaseCallback = false → w.phase.isActive = false) := by
  cases h with
  | submitted => rcases ha with ha | ha <;> cases ha
  | attached => rcases ha with ha | ha <;> cases ha
  | registered _ hw hf hc => exact ⟨hw, hf, hc⟩

theorem Custody.of_callback {w : Work F} (h : Custody a l (some w)) (hc : w.leaseCallback = true) :
    a.isRegistered = true ∧ l.work = true ∧ l.workFinished = w.callbackRun := by
  cases h with
  | submitted _ _ hno =>
    rw [hc] at hno
    cases hno
  | attached _ _ hno =>
    rw [hc] at hno
    cases hno
  | registered ha hw hf _ => exact ⟨ha, hw, hf⟩

end Inversion

/-- The application replies, and the native call stays as it is. -/
theorem Custody.reply {a a' : AppTask} {l : AdmissionLease} {work : Option (Work F)}
    (h : Custody a l work) (ha : a.isAwait = true) (ha' : a'.isReply = true) :
    Custody a' l work := by
  cases h with
  | unused _ hw hf =>
    refine .unused ?_ hw hf
    cases a' <;> first | rfl | cases ha'
  | submitted => cases ha
  | attached => cases ha
  | registered _ hw hf hc =>
    refine .registered ?_ hw hf hc
    cases a' <;> first | rfl | cases ha'

/-- Before `finish_http` the lease says so. -/
theorem Leased.httpFinished_eq {m : Middleware} {a : AppTask} {l : AdmissionLease}
    {work : Option (Work F)} (h : Leased m a l work) (hm : m.stage = .http) :
    l.httpFinished = false := by
  rw [h.http, hm]
  rfl

/-- Before the HTTP side is done the native call is not the one to return the permit. -/
theorem Leased.phase_ne_releasing {m : Middleware} {a : AppTask} {l : AdmissionLease}
    {work : Option (Work F)} (h : Leased m a l work) (hm : m.stage ≠ .done) {w : Work F}
    (hw : work = some w) : w.phase ≠ .releasing :=
  fun hp ↦ hm (h.callback w hw hp).1

/-- Once the application is over, the lease knows whether the native call is unfinished. -/
theorem Leased.unfinished_eq {m : Middleware} {a : AppTask} {l : AdmissionLease}
    {work : Option (Work F)} (h : Leased m a l work) (ha : a.isOver = true)
    (hm : m.stage ≠ .done) : work.any Work.unfinished = !(!l.work || l.workFinished) := by
  cases h.custody with
  | unused _ hw _ =>
    rw [hw]
    rfl
  | submitted => cases ha
  | attached => cases ha
  | @registered _ _ w _ hw hf hc =>
    have hphase := h.phase_ne_releasing hm rfl
    rw [hw, hf, Option.any_some, Bool.not_true, Bool.false_or, Work.unfinished, Work.callbackRun]
    cases hp : w.phase with
    | releasing => exact absurd hp hphase
    | completed => simp
    | chaining => rfl
    | finished => rfl
    | _ =>
      rw [hp] at hc
      cases hcb : w.leaseCallback with
      | true => rfl
      | false => cases hc hcb

namespace Request

/-- The invariant of one request. -/
def Ok (r : Request F) : Prop := Owned r.middleware r.app r.lease r.work r.deadline

/-- A request that has just arrived. -/
theorem ok_new (scope : Scope) : Ok ({ scope } : Request F) where
  early _ := rfl
  ended _ := rfl
  unleased _ := ⟨.inl rfl, rfl, rfl, .inl rfl⟩
  leased _ h := by cases h

/-- A step keeps the invariant and accounts for the permit. -/
structure Accounted (r r' : Request F) (effect : Effect) : Prop where
  ok : r'.Ok
  permits : (r'.unfinished.toNat : Int) = r.unfinished.toNat + effect.permits

variable {r : Request F}

theorem unfinished_of_none (h : r.lease = none) : r.unfinished = false := by
  rw [unfinished, h]
  rfl

theorem unfinished_of_stage {l : AdmissionLease} (h : r.lease = some l)
    (hm : r.middleware.stage ≠ .done) : r.unfinished = true := by
  have hne : (r.middleware != .done) = true := by
    rw [bne_iff_ne]
    intro hd
    rw [hd] at hm
    exact hm rfl
  rw [unfinished, h, hne]
  rfl

/-- Before `finish_http` there is a lease. -/
theorem Ok.lease_of_http (h : r.Ok) (hm : r.middleware.stage = .http) :
    ∃ l, r.lease = some l := by
  cases hl : r.lease with
  | some l => exact ⟨l, rfl⟩
  | none =>
    rcases (h.unleased hl).1 with h' | h' <;> rw [hm] at h' <;> cases h'

/-- While the application runs with a lease, the HTTP side is unfinished. -/
theorem Ok.http_of_running (h : r.Ok) {l : AdmissionLease} (hl : r.lease = some l)
    (ha : r.app.isOver = false) : r.middleware.stage = .http := by
  have hrun : r.middleware.runsApp = true := by
    cases hr : r.middleware.runsApp with
    | true => rfl
    | false =>
      rw [h.ended hr] at ha
      cases ha
  have hstage := (h.leased l hl).stage
  generalize r.middleware = m at hrun hstage ⊢
  cases m <;> first | rfl | exact absurd rfl hstage | cases hrun

/-- Outside there is no lease. -/
theorem Ok.lease_eq_none (h : r.Ok) (hm : r.middleware.stage = .outside) : r.lease = none := by
  cases hl : r.lease with
  | none => rfl
  | some l => exact absurd hm (h.leased l hl).stage

theorem Ok.over_of_early (h : r.Ok) (hm : r.middleware.isEarly = true) : r.app.isOver = true := by
  rw [h.early hm]
  rfl

/-! ### Steps of the middleware -/

/-- A step from before `finish_http` to before `finish_http`. -/
theorem Ok.inHttp {r' : Request F} (h : r.Ok) (hm : r.middleware.stage = .http)
    (hm' : r'.middleware.stage = .http) (hearly : r'.middleware.isEarly = true → r'.app = .idle)
    (hover : r'.middleware.runsApp = false → r'.app.isOver = true) {l : AdmissionLease}
    (hl : r'.lease = some l) (hsettled : l.Settled) (hhttp : l.httpFinished = false)
    (hcustody : Custody r'.app l r'.work) (hphase : ∀ w, r'.work = some w → w.phase ≠ .releasing) :
    Accounted r r' .none := by
  constructor
  · refine ⟨hearly, hover, ?_, ?_⟩
    · intro hnone
      rw [hl] at hnone
      cases hnone
    · intro l' hl'
      rw [hl] at hl'
      cases hl'
      refine ⟨by rw [hm']; nofun, hsettled, ?_, by rw [hm']; nofun, hcustody, ?_⟩
      · rw [hhttp, hm']
        rfl
      · intro w hw hp
        exact absurd hp (hphase w hw)
  · obtain ⟨l₀, hl₀⟩ := h.lease_of_http hm
    rw [unfinished_of_stage hl₀ (by rw [hm]; nofun), unfinished_of_stage hl (by rw [hm']; nofun)]
    rfl

/-- The HTTP side moves on before `finish_http`. -/
theorem Ok.shift {r' : Request F} (h : r.Ok) (hm : r.middleware.stage = .http)
    (hm' : r'.middleware.stage = .http) (ha : r'.app = r.app) (hl : r'.lease = r.lease)
    (hw : r'.work = r.work) (hearly : r'.middleware.isEarly = true → r.app = .idle)
    (hover : r'.middleware.runsApp = false → r.app.isOver = true) : Accounted r r' .none := by
  obtain ⟨l, hlease⟩ := h.lease_of_http hm
  have hleased := h.leased l hlease
  apply h.inHttp hm hm' (by rwa [ha]) (by rwa [ha]) (hl.trans hlease) hleased.settled
    (hleased.httpFinished_eq hm) (by rw [ha, hw]; exact hleased.custody)
  intro w hwork
  exact hleased.phase_ne_releasing (by rw [hm]; nofun) (hw ▸ hwork)

/-- A request without a lease goes on without one. -/
theorem Ok.outside {r' : Request F} (h : r.Ok) (hm : r.middleware.stage = .outside)
    (hm' : r'.middleware.stage = .outside ∨ r'.middleware.stage = .done)
    (hl : r'.lease = r.lease) (hw : r'.work = r.work) (hd : r'.deadline = r.deadline)
    (ha : r'.app = r.app ∨ r'.app = .created) (hearly : r'.middleware.isEarly = false)
    (hover : r'.middleware.runsApp = false → r'.app.isOver = true) : Accounted r r' .none := by
  have hnone := h.lease_eq_none hm
  obtain ⟨-, hwork, hdeadline, happ⟩ := h.unleased hnone
  have hnone' := hl.trans hnone
  constructor
  · refine ⟨by rw [hearly]; nofun, hover, fun _ ↦ ⟨hm', hw.trans hwork, hd.trans hdeadline, ?_⟩, ?_⟩
    · rcases ha with ha | ha
      · rw [ha]
        exact happ
      · rw [ha]
        exact .inl rfl
    · rw [hnone']
      nofun
  · rw [unfinished_of_none hnone, unfinished_of_none hnone']
    rfl

/-- The two tasks are created. -/
theorem Ok.createApp {r' : Request F} (h : r.Ok) (hm : r.middleware.stage = .http)
    (hearly : r.middleware.isEarly = true) (hm' : r'.middleware = .racing)
    (ha : r'.app = .created) (hl : r'.lease = r.lease) (hw : r'.work = r.work) :
    Accounted r r' .none := by
  obtain ⟨l, hlease⟩ := h.lease_of_http hm
  have hleased := h.leased l hlease
  obtain ⟨hnone, hwork, hf⟩ := hleased.custody.of_created (.inl (h.early hearly))
  have hcreated : Custody r'.app l r'.work := by
    rw [ha, hw, hnone]
    exact .unused rfl hwork hf
  apply h.inHttp hm (by rw [hm']; rfl) (by rw [hm']; nofun) (by rw [hm']; nofun) (hl.trans hlease)
    hleased.settled (hleased.httpFinished_eq hm) hcreated
  intro w hwork
  exact hleased.phase_ne_releasing (by rw [hm]; nofun) (hw ▸ hwork)

/-- A request takes a permit. -/
theorem Ok.acquire {r' : Request F} (h : r.Ok) (hm : r.middleware = .entry)
    (hm' : r'.middleware = .uploadTop ∨ ∃ response, r'.middleware = .refusing response false)
    (hl : r'.lease = some {}) (ha : r'.app = r.app) (hw : r'.work = r.work) :
    Accounted r r' .acquire := by
  have hidle : r.app = .idle := h.early (by rw [hm]; rfl)
  have hlease : r.lease = none := h.lease_eq_none (by rw [hm]; rfl)
  have hnone : r.work = none := (h.unleased hlease).2.1
  have hstage : r'.middleware.stage = .http := by
    rcases hm' with hm' | ⟨response, hm'⟩ <;> rw [hm'] <;> rfl
  constructor
  · unfold Ok
    rw [hl, ha, hw, hidle, hnone]
    refine ⟨fun _ ↦ rfl, fun _ ↦ rfl, nofun, ?_⟩
    rintro _ ⟨⟩
    refine ⟨by rw [hstage]; nofun, AdmissionLease.settled_new, by rw [hstage]; rfl, ?_,
      .unused rfl rfl rfl, by rintro _ ⟨⟩⟩
    rw [hstage]
    nofun
  · rw [unfinished_of_none hlease, unfinished_of_stage hl (by rw [hstage]; nofun)]
    rfl

/-- `finish_http` keeps the permit with whoever is to return it. -/
theorem Ok.finishHttp (h : r.Ok) (hm : r.middleware = .finishing) {l : AdmissionLease}
    (hl : r.lease = some l) :
    Accounted r
      { r with
        lease := some l.finishHttp.1
        middleware := if l.finishHttp.2 then .releasing else .done } .none := by
  have hstage : r.middleware.stage = .http := by rw [hm]; rfl
  have hleased := h.leased l hl
  have hover : r.app.isOver = true := h.ended (by rw [hm]; rfl)
  have hhttp : l.httpFinished = false := by
    rw [hleased.http, hstage]
    rfl
  have hdone : r.middleware.stage ≠ .done := by
    rw [hstage]
    nofun
  obtain ⟨hsettled, hrelease, heq⟩ := hleased.settled.finishHttp hhttp
  have hcustody : Custody r.app l.finishHttp.1 r.work :=
    hleased.custody.congr (by rw [heq]) (by rw [heq])
  have hunfinished := hleased.unfinished_eq hover hdone
  have hpermit : r.unfinished = true := unfinished_of_stage hl hdone
  cases hrel : l.finishHttp.2 with
  | true =>
    constructor
    · change Owned .releasing r.app (some l.finishHttp.1) r.work r.deadline
      refine ⟨nofun, fun _ ↦ hover, nofun, ?_⟩
      rintro _ ⟨⟩
      refine ⟨nofun, hsettled, by rw [heq]; rfl, ?_, hcustody, ?_⟩
      · intro _
        rw [heq, ← hrelease, hrel]
      · intro w hw hp
        exact absurd hp (hleased.phase_ne_releasing hdone hw)
    · rw [hpermit, unfinished_of_stage rfl (by change Stage.releasing ≠ .done; nofun)]
      rfl
  | false =>
    rw [hrelease] at hrel
    constructor
    · change Owned .done r.app (some l.finishHttp.1) r.work r.deadline
      refine ⟨nofun, fun _ ↦ hover, nofun, ?_⟩
      rintro _ ⟨⟩
      refine ⟨nofun, hsettled, by rw [heq]; rfl, nofun, hcustody, ?_⟩
      intro w hw hp
      exact absurd hp (hleased.phase_ne_releasing hdone hw)
    · -- the native call is unfinished and keeps the permit
      have hwork : r.work.any Work.unfinished = true := by
        rw [hunfinished, hrel]
        rfl
      rw [hpermit]
      simp only [unfinished, Option.isSome_some, hwork, Bool.or_true, Bool.and_true]
      rfl

/-- The HTTP side returns the permit. -/
theorem Ok.release (h : r.Ok) (hm : r.middleware = .releasing) :
    Accounted r { r with middleware := .done } .release := by
  have hstage : r.middleware.stage = .releasing := by rw [hm]; rfl
  have hover : r.app.isOver = true := h.ended (by rw [hm]; rfl)
  cases hl : r.lease with
  | none =>
    rcases (h.unleased hl).1 with h' | h' <;> rw [hstage] at h' <;> cases h'
  | some l =>
    have hleased := h.leased l hl
    have hdone : r.middleware.stage ≠ .done := by
      rw [hstage]
      nofun
    constructor
    · change Owned .done r.app (some l) r.work r.deadline
      refine ⟨nofun, fun _ ↦ hover, nofun, ?_⟩
      rintro _ ⟨⟩
      refine ⟨nofun, hleased.settled, ?_, nofun, hleased.custody, ?_⟩
      · rw [hleased.http, hstage]
        rfl
      · intro w hw hp
        exact absurd hp (hleased.phase_ne_releasing hdone hw)
    · have hsettled := hleased.settled
      have hwork : r.work.any Work.unfinished = false := by
        rw [hleased.unfinished_eq hover hdone]
        rw [AdmissionLease.Settled, hleased.releasing hstage] at hsettled
        rw [(Bool.and_eq_true_iff.mp hsettled.symm).2]
        rfl
      rw [unfinished_of_stage hl hdone]
      simp only [unfinished, hwork, Bool.or_false, bne_self_eq_false, Bool.and_false]
      rfl

/-- Every step of the middleware. -/
theorem Ok.middlewareMove {cfg : Config F} {g : Shared} {r' : Request F} {effect : Effect}
    {ev : MiddlewareEvent} (h : r.Ok) (hmove : MiddlewareMove cfg g r ev r' effect) :
    Accounted r r' effect := by
  cases hmove with
  | unauthorized hm response =>
    exact h.outside (by rw [hm]; rfl) (.inl rfl) rfl rfl rfl (.inl rfl) rfl
      fun _ ↦ h.over_of_early (by rw [hm]; rfl)
  | overloaded hm hp response =>
    cases hp with
    | unprotected =>
      exact h.outside (by rw [hm]; rfl) (.inl rfl) rfl rfl rfl (.inl rfl) rfl
        fun _ ↦ h.over_of_early (by rw [hm]; rfl)
    | accepted =>
      exact h.outside (by rw [hm]; rfl) (.inl rfl) rfl rfl rfl (.inl rfl) rfl
        fun _ ↦ h.over_of_early (by rw [hm]; rfl)
  | through hm ha =>
    exact h.outside (by rw [hm]; rfl) (.inl rfl) rfl rfl rfl (.inr rfl) rfl nofun
  | acquire hm hp ha hc deadline m hm' =>
    cases hp with
    | unprotected => exact h.acquire hm hm' rfl rfl rfl
    | accepted => exact h.acquire hm hm' rfl rfl rfl
  | rejectSend response hm =>
    exact h.outside (by rw [hm]; rfl) (.inl rfl) rfl rfl rfl (.inl rfl) rfl
      fun _ ↦ h.ended (by rw [hm]; rfl)
  | rejectDone response started hm =>
    exact h.outside (by rw [hm]; rfl) (.inr rfl) rfl rfl rfl (.inl rfl) rfl
      fun _ ↦ h.ended (by rw [hm]; rfl)
  | refuseSend response hm =>
    exact h.shift (by rw [hm]; rfl) rfl rfl rfl rfl nofun fun _ ↦ h.ended (by rw [hm]; rfl)
  | unwind hm => exact h.shift (Middleware.stage_of_canUnwind hm) rfl rfl rfl rfl nofun nofun
  | refuse hm response =>
    exact h.shift (Middleware.stage_of_canRefuse hm) rfl rfl rfl rfl nofun fun _ ↦
      h.ended (Middleware.runsApp_of_canRefuse hm)
  | uploadWait hm =>
    exact h.shift (by rw [hm]; rfl) rfl rfl rfl rfl (fun _ ↦ h.early (by rw [hm]; rfl))
      fun _ ↦ h.ended (by rw [hm]; rfl)
  | readUnwind hm m => exact h.shift (by rw [hm]; rfl) rfl rfl rfl rfl nofun nofun
  | readRefuse hm m response =>
    exact h.shift (by rw [hm]; rfl) rfl rfl rfl rfl nofun fun _ ↦ h.ended (by rw [hm]; rfl)
  | readOn hm m body =>
    exact h.shift (by rw [hm]; rfl) rfl rfl rfl rfl (fun _ ↦ h.early (by rw [hm]; rfl))
      fun _ ↦ h.ended (by rw [hm]; rfl)
  | readLast hm m body => exact h.createApp (by rw [hm]; rfl) (by rw [hm]; rfl) rfl rfl rfl rfl
  | throughDone hm ha =>
    exact h.outside (by rw [hm]; rfl) (.inr rfl) rfl rfl rfl (.inl rfl) rfl fun _ ↦ ha
  | settleWatcher hm ha =>
    exact h.shift (by rw [hm]; rfl) rfl rfl rfl rfl nofun fun _ ↦ ha
  | settleApp hm disconnected => exact h.shift (by rw [hm]; rfl) rfl rfl rfl rfl nofun nofun
  | expireWatcher disconnected hm ha =>
    exact h.shift (by rw [hm]; rfl) rfl rfl rfl rfl nofun fun _ ↦ ha
  | unwindWatcher hm ha =>
    exact h.shift (by rw [hm]; rfl) rfl rfl rfl rfl nofun fun _ ↦ ha
  | finishing hm =>
    exact h.shift (by rw [hm]; rfl) rfl rfl rfl rfl nofun fun _ ↦ h.ended (by rw [hm]; rfl)
  | forwardCancel appCancel watcherCancel => exact ⟨h, (Int.add_zero _).symm⟩
  | finishHttp hm l hl => exact h.finishHttp hm hl
  | release hm => exact h.release hm

/-! ### Steps of the application -/

/-- A step of the application with a lease. -/
theorem Ok.appStep {r' : Request F} (h : r.Ok) (ha : r.app.isOver = false) {l l' : AdmissionLease}
    (hl : r.lease = some l) (hm : r'.middleware = r.middleware) (hl' : r'.lease = some l')
    (hsettled : l'.Settled) (hhttp : l'.httpFinished = l.httpFinished)
    (hcustody : Custody r'.app l' r'.work) (hphase : ∀ w, r'.work = some w → w.phase = .releasing →
      ∃ w₀, r.work = some w₀ ∧ w₀.phase = .releasing) : Accounted r r' .none := by
  have hstage := h.http_of_running hl ha
  have hleased := h.leased l hl
  have hrun : r.middleware.runsApp = true := by
    cases hr : r.middleware.runsApp with
    | true => rfl
    | false =>
      rw [h.ended hr] at ha
      cases ha
  apply h.inHttp hstage (hm ▸ hstage) ?_ (by rw [hm, hrun]; nofun) hl' hsettled
    (hhttp.trans (hleased.httpFinished_eq hstage)) hcustody
  · intro w hw hp
    obtain ⟨w₀, hw₀, hp₀⟩ := hphase w hw hp
    exact hleased.phase_ne_releasing (by rw [hstage]; nofun) hw₀ hp₀
  · intro hearly
    rw [hm] at hearly
    rw [h.early hearly] at ha
    cases ha

/-- A step of the application without a lease. -/
theorem Ok.appOutside {r' : Request F} (h : r.Ok) (ha : r.app.isOver = false)
    (hl : r.lease = none) (hm : r'.middleware = r.middleware) (hl' : r'.lease = r.lease)
    (hw : r'.work = r.work) (hd : r'.deadline = r.deadline)
    (ha' : r'.app.isPlain = true ∨ ∃ body, r'.app = .reading body) : Accounted r r' .none := by
  obtain ⟨hstage, hwork, hdeadline, -⟩ := h.unleased hl
  constructor
  · refine ⟨?_, ?_, fun _ ↦ ⟨hm ▸ hstage, hw.trans hwork, hd.trans hdeadline, ha'⟩, ?_⟩
    · intro hearly
      rw [hm] at hearly
      rw [h.early hearly] at ha
      cases ha
    · intro hr
      rw [hm] at hr
      rw [h.ended hr] at ha
      cases ha
    · rw [hl', hl]
      nofun
  · rw [unfinished_of_none hl, unfinished_of_none (hl'.trans hl)]
    rfl

/-- With a lease the client's channel is not read by the application. -/
theorem Ok.lease_of_reading (h : r.Ok) {body : Bytes} (ha : r.app = .reading body) :
    r.lease = none := by
  cases hl : r.lease with
  | none => rfl
  | some l =>
    have hcustody := (h.leased l hl).custody
    rw [ha] at hcustody
    generalize r.work = work at hcustody
    cases hcustody with
    | unused hplain => cases hplain
    | registered hreg => cases hreg

/-- With a native call at hand there is a lease. -/
theorem Ok.lease_of_work (h : r.Ok) {w : Work F} (hw : r.work = some w) :
    ∃ l, r.lease = some l := by
  cases hl : r.lease with
  | some l => exact ⟨l, rfl⟩
  | none =>
    rw [(h.unleased hl).2.1] at hw
    cases hw

theorem AppTask.not_over_of_isAwait {a : AppTask} (h : a.isAwait = true) : a.isOver = false := by
  cases a <;> first | rfl | cases h

theorem AppTask.isPlain_of_isReply {a : AppTask} (h : a.isReply = true) : a.isPlain = true := by
  cases a <;> first | rfl | cases h

/-- The application replies. -/
theorem Ok.reply {r' : Request F} (h : r.Ok) (ha : r.app.isAwait = true)
    (ha' : r'.app.isReply = true) (hm : r'.middleware = r.middleware) (hl : r'.lease = r.lease)
    (hw : r'.work = r.work) (hd : r'.deadline = r.deadline) : Accounted r r' .none := by
  have hover := AppTask.not_over_of_isAwait ha
  cases hlease : r.lease with
  | none =>
    exact h.appOutside hover hlease hm hl hw hd (.inl (AppTask.isPlain_of_isReply ha'))
  | some l =>
    have hleased := h.leased l hlease
    apply h.appStep hover hlease hm (hl.trans hlease) hleased.settled rfl
    · rw [hw]
      exact hleased.custody.reply ha ha'
    · intro w hwork hp
      exact ⟨w, hw ▸ hwork, hp⟩

/-- Every step of the application. -/
theorem Ok.appMove {cfg : Config F} {g : Shared} {r' : Request F} {effect : Effect}
    (h : r.Ok) (hmove : AppMove cfg g r r' effect) : Accounted r r' effect := by
  cases hmove with
  | reply ha a ha' started sent => exact h.reply ha ha' rfl rfl rfl rfl
  | replyRead ha m a ha' => exact h.reply (by rw [ha]; rfl) ha' rfl rfl rfl rfl
  | readBody ha hr hl =>
    exact h.appOutside (by rw [ha]; rfl) hl rfl rfl rfl rfl (.inr ⟨_, rfl⟩)
  | readOn ha m body =>
    exact h.appOutside (by rw [ha]; rfl) (h.lease_of_reading ha) rfl rfl rfl rfl (.inr ⟨_, rfl⟩)
  | submit ha hl hs executor runtime he hr hopen =>
    obtain ⟨l, hl⟩ := Option.isSome_iff_exists.mp hl
    have hleased := h.leased l hl
    obtain ⟨-, hw, hf⟩ := hleased.custody.of_created (.inr ha)
    exact h.appStep (by rw [ha]; rfl) hl rfl hl hleased.settled rfl (.submitted hw hf rfl)
      (by rintro _ ⟨⟩; nofun)
  | submitRead ha m hs =>
    have hnone := (h.unleased (h.lease_of_reading ha)).2.2.1
    rw [hs.deadline] at hnone
    cases hnone
  | attach ha hl hattach =>
    have hover : r.app.isOver = false := by rw [ha]; rfl
    have hleased := h.leased _ hl
    obtain ⟨hsettled, rfl⟩ := hleased.settled.attachWork
      (hleased.httpFinished_eq (h.http_of_running hl hover)) hattach
    obtain ⟨w, hw, -, hf, hc⟩ := (ha ▸ hleased.custody).of_submitted
    refine h.appStep hover hl rfl rfl hsettled rfl ?_ fun w hw hp ↦ ⟨w, hw, hp⟩
    change Custody .attached _ r.work
    rw [hw]
    exact .attached rfl hf hc
  | attachFails ha hfail e =>
    -- the lease is there and has no work yet
    cases hl : r.lease with
    | none =>
      rcases (h.unleased hl).2.2.2 with hplain | ⟨body, hbody⟩
      · rw [ha] at hplain
        cases hplain
      · rw [ha] at hbody
        cases hbody
    | some l =>
      obtain ⟨w, -, hwork, -⟩ := (ha ▸ (h.leased l hl).custody).of_submitted
      have hnone := hfail l hl
      rw [AdmissionLease.attachWork, hwork] at hnone
      cases hnone
  | @register ha l w hl hw hactive =>
    have hleased := h.leased l hl
    have hcustody := hleased.custody
    rw [ha, hw] at hcustody
    obtain ⟨hwork, hf, -⟩ := hcustody.of_attached
    have hrun : ({ w with leaseCallback := true } : Work F).callbackRun = false := by
      unfold Work.callbackRun
      cases hp : w.phase <;> first | rfl | (rw [hp] at hactive; cases hactive)
    refine h.appStep (by rw [ha]; rfl) hl rfl hl hleased.settled rfl
      (.registered rfl hwork (hf.trans hrun.symm) nofun) ?_
    rintro _ ⟨⟩ hp
    exact ⟨w, hw, hp⟩
  | @registerDone ha l w hl hw hactive =>
    have hover : r.app.isOver = false := by rw [ha]; rfl
    have hleased := h.leased l hl
    have hcustody := hleased.custody
    rw [ha, hw] at hcustody
    obtain ⟨hwork, hf, hc⟩ := hcustody.of_attached
    obtain ⟨hsettled, hrelease, heq⟩ := hleased.settled.workDone hwork hf
    have hrun : w.callbackRun = true := by
      unfold Work.callbackRun
      cases hp : w.phase <;> first | rfl | (rw [hc]; rfl)
    rw [hrelease, hleased.httpFinished_eq (h.http_of_running hl hover)]
    refine h.appStep hover hl rfl rfl hsettled (by rw [heq]) ?_ fun w hw hp ↦ ⟨w, hw, hp⟩
    change Custody .registered _ r.work
    rw [heq, hw]
    exact .registered rfl hwork hrun.symm fun _ ↦ hactive
  | @wrap ha w hw chainCallback scheduled =>
    obtain ⟨l, hl⟩ := h.lease_of_work hw
    have hleased := h.leased l hl
    have hcustody := hleased.custody
    rw [ha, hw] at hcustody
    obtain ⟨hwork, hf, hc⟩ := hcustody.of_registered (.inl rfl)
    refine h.appStep (by rw [ha]; rfl) hl rfl hl hleased.settled rfl
      (.registered rfl hwork hf hc) ?_
    rintro _ ⟨⟩ hp
    exact ⟨w, hw, hp⟩
  | inferenceError ha hw message ho response =>
    have hreply : Accounted r { r with app := .responding response } .none :=
      h.reply (by rw [ha]; rfl) rfl rfl rfl rfl rfl
    exact ⟨hreply.ok, hreply.permits⟩

/-! ### Steps of the native call -/

/-- A step of the native call. -/
theorem Ok.workStep {l l' : AdmissionLease} {w w' : Work F} {effect : Effect} (h : r.Ok)
    (hl : r.lease = some l) (hw : r.work = some w) (hsettled : l'.Settled)
    (hhttp : l'.httpFinished = l.httpFinished) (hreleased : l.released = true → l'.released = true)
    (hcustody : Custody r.app l' (some w'))
    (hcallback : w'.phase = .releasing → r.middleware.stage = .done ∧ w'.leaseCallback = true)
    (hopen : r.middleware.stage ≠ .done → effect.permits = 0)
    (hdone : r.middleware.stage = .done →
      (w'.unfinished.toNat : Int) = w.unfinished.toNat + effect.permits) :
    Accounted r { r with lease := some l', work := some w' } effect := by
  have hleased := h.leased l hl
  constructor
  · refine ⟨h.early, h.ended, nofun, ?_⟩
    rintro _ ⟨⟩
    refine ⟨hleased.stage, hsettled, hhttp.trans hleased.http, ?_, hcustody, ?_⟩
    · intro hm
      exact hreleased (hleased.releasing hm)
    · rintro _ ⟨⟩
      exact hcallback
  · by_cases hm : r.middleware.stage = .done
    · have hmid : r.middleware = .done := by
        generalize r.middleware = m at hm
        cases m <;> first | rfl | cases hm
      have hr : r.unfinished = w.unfinished := by
        rw [unfinished, hl, hw, hmid]
        rfl
      have hr' : ({ r with lease := some l', work := some w' } : Request F).unfinished =
          w'.unfinished := by
        rw [unfinished, hmid]
        rfl
      rw [hr, hr']
      exact hdone hm
    · have hr' : ({ r with lease := some l', work := some w' } : Request F).unfinished = true :=
        unfinished_of_stage rfl hm
      rw [unfinished_of_stage hl hm, hr', hopen hm, Int.add_zero]

theorem Middleware.runsApp_of_done {m : Middleware} (h : m.stage = .done) : m.runsApp = false := by
  cases m <;> first | rfl | cases h

/-- A completed call runs the lease's callback. -/
theorem Ok.callback {l : AdmissionLease} {w : Work F} (h : r.Ok) (hw : r.work = some w)
    (hp : w.phase = .completed) (hc : w.leaseCallback = true) (hl : r.lease = some l) :
    Accounted r
      { r with
        lease := some l.workDone.1
        work := some { w with phase := if l.workDone.2 then .releasing else .chaining } }
      .none := by
  have hleased := h.leased l hl
  have hcustody := hleased.custody
  rw [hw] at hcustody
  obtain ⟨hreg, hwork, hf⟩ := hcustody.of_callback hc
  have hrun : w.callbackRun = false := by
    rw [Work.callbackRun, hp, hc]
    rfl
  rw [hrun] at hf
  obtain ⟨hsettled, hrelease, heq⟩ := hleased.settled.workDone hwork hf
  have hnot : l.released = false := by
    rw [hleased.settled, hwork, hf, Bool.not_true, Bool.false_or, Bool.and_false]
  -- either the HTTP side is unfinished and keeps the permit, or it is done and this call has it
  cases hm : r.middleware.stage with
  | outside => exact absurd hm hleased.stage
  | releasing =>
    rw [hleased.releasing hm] at hnot
    cases hnot
  | http =>
    have hhttp := hleased.httpFinished_eq hm
    rw [hrelease, hhttp]
    refine h.workStep hl hw hsettled (by rw [heq]) (by rw [hnot]; nofun) ?_ nofun (fun _ ↦ rfl) ?_
    · rw [heq]
      exact .registered hreg hwork rfl (by rw [hc]; nofun)
    · rw [hm]
      nofun
  | done =>
    have hhttp : l.httpFinished = true := by
      rw [hleased.http, hm]
      rfl
    rw [hrelease, hhttp]
    refine h.workStep hl hw hsettled (by rw [heq]) (by rw [hnot]; nofun) ?_ (fun _ ↦ ⟨hm, hc⟩)
      (fun _ ↦ rfl) ?_
    · rw [heq]
      exact .registered hreg hwork rfl (by rw [hc]; nofun)
    · intro _
      rw [Work.unfinished, Work.unfinished, hp, hc]
      rfl

/-- A step of the call that leaves the lease alone. -/
theorem Ok.keepLease {w w' : Work F} {effect : Effect} (h : r.Ok) (hw : r.work = some w)
    (hcb : w'.leaseCallback = w.leaseCallback) (hrun : w'.callbackRun = w.callbackRun)
    (hactive : w.phase.isActive = false → w'.phase.isActive = false)
    (hreleasing : w'.phase = .releasing → w.phase = .releasing)
    (hopen : r.middleware.stage ≠ .done → effect.permits = 0)
    (hdone : r.middleware.stage = .done →
      (w'.unfinished.toNat : Int) = w.unfinished.toNat + effect.permits) :
    Accounted r { r with work := some w' } effect := by
  obtain ⟨l, hl⟩ := h.lease_of_work hw
  have hleased := h.leased l hl
  have hcustody := hleased.custody
  rw [hw] at hcustody
  have hcustody' : Custody r.app l (some w') := by
    generalize r.app = a at hcustody
    cases hcustody with
    | submitted hwork hf hc => exact .submitted hwork hf (hcb.trans hc)
    | attached hwork hf hc => exact .attached hwork hf (hcb.trans hc)
    | registered ha hwork hf hc =>
      exact .registered ha hwork (hf.trans hrun.symm) fun hno ↦ hactive (hc (hcb ▸ hno))
  have hstep : Accounted r { r with lease := some l, work := some w' } effect := by
    refine h.workStep hl hw hleased.settled rfl id hcustody' ?_ hopen hdone
    intro hp
    rw [hcb]
    exact hleased.callback w hw (hreleasing hp)
  rw [← hl] at hstep
  exact hstep

/-- A worker's progress. -/
theorem Ok.advance {stopped : Nat → Bool} {w w' : Work F} {ev : WorkEvent F} (h : r.Ok)
    (hw : r.work = some w) (hadv : w.Advance stopped ev w') :
    Accounted r { r with work := some w' } .none := by
  have hfacts : w.phase.isActive = true ∧ w'.leaseCallback = w.leaseCallback ∧
      w'.phase ≠ .releasing ∧ w'.callbackRun = w.callbackRun ∧ w.unfinished = true ∧
      (w.leaseCallback = true → w'.unfinished = true) := by
    cases hadv <;> simp_all [Work.callbackRun, Work.unfinished, WorkPhase.isActive]
  obtain ⟨hactive, hcb, hphase, hrun, hun, hun'⟩ := hfacts
  refine h.keepLease hw hcb hrun (by rw [hactive]; nofun) (fun hp ↦ absurd hp hphase)
    (fun _ ↦ rfl) ?_
  intro hm
  -- the application is over, so the lease's callback is registered
  obtain ⟨l, hl⟩ := h.lease_of_work hw
  have hcustody := (h.leased l hl).custody
  rw [hw] at hcustody
  have hcallback : w.leaseCallback = true := by
    by_contra hno
    obtain ⟨-, -, hc⟩ := hcustody.of_registered (.inr (h.ended (Middleware.runsApp_of_done hm)))
    rw [hc (Bool.eq_false_of_not_eq_true hno)] at hactive
    cases hactive
  rw [hun, hun' hcallback]
  rfl

/-- Every step of the native call. -/
theorem Ok.nativeMove {g : Shared} {w : Work F} {r' : Request F} {effect : Effect}
    {ev : NativeEvent F} (h : r.Ok) (hw : r.work = some w)
    (hmove : NativeMove g r w ev r' effect) : Accounted r r' effect := by
  cases hmove with
  | advance hadv => exact h.advance hw hadv
  | callback hp hc hl => exact h.callback hw hp hc hl
  | noCallback hp hc =>
    obtain ⟨l, hl⟩ := h.lease_of_work hw
    have hc : w.leaseCallback = false := by
      rcases hc with hc | hnone
      · exact hc
      · rw [hl] at hnone
        cases hnone
    refine h.keepLease hw rfl ?_ (fun _ ↦ rfl) nofun (fun _ ↦ rfl) fun _ ↦ ?_
    · rw [Work.callbackRun, Work.callbackRun, hp, hc]
      rfl
    · rw [Work.unfinished, Work.unfinished, hp, hc]
      rfl
  | release hp =>
    obtain ⟨l, hl⟩ := h.lease_of_work hw
    obtain ⟨hm, -⟩ := (h.leased l hl).callback w hw hp
    refine h.keepLease hw rfl ?_ (fun _ ↦ rfl) nofun (fun hno ↦ absurd hm hno) fun _ ↦ ?_
    · rw [Work.callbackRun, Work.callbackRun, hp]
    · rw [Work.unfinished, Work.unfinished, hp]
      rfl
  | chain hp scheduled =>
    refine h.keepLease hw rfl ?_ (fun _ ↦ rfl) nofun (fun _ ↦ rfl) fun _ ↦ ?_
    · rw [Work.callbackRun, Work.callbackRun, hp]
    · rw [Work.unfinished, Work.unfinished, hp]
      rfl
  | observe o ho =>
    have hpermits : (finishNativeFuture o).permits = 0 := by
      unfold finishNativeFuture
      split <;> rfl
    refine h.keepLease hw rfl rfl id id (fun _ ↦ hpermits) fun _ ↦ ?_
    rw [hpermits, Int.add_zero]
    rfl

/-- Every step of a request keeps its invariant and accounts for its permit. -/
theorem Ok.step {cfg : Config F} {g : Shared} {r' : Request F} {effect : Effect} {ev : Event F}
    (h : r.Ok) (hstep : r.step cfg g ev = some (r', effect)) : Accounted r r' effect := by
  cases step_cases hstep with
  | middleware hmove => exact h.middlewareMove hmove
  | app hmove => exact h.appMove hmove
  | watcher hmove =>
    cases hmove with
    | message => exact ⟨h, (Int.add_zero _).symm⟩
    | ended => exact ⟨h, (Int.add_zero _).symm⟩
  | native hw hmove => exact h.nativeMove hw hmove

/-- Only an open controller below its capacity grants a permit. -/
theorem tryAcquire_of_step {cfg : Config F} {g : Shared} {r' : Request F} {ev : Event F}
    (h : r.step cfg g ev = some (r', .acquire)) : ∃ c, g.admission.tryAcquire = some c := by
  generalize heffect : Effect.acquire = effect at h
  cases step_cases h with
  | middleware hmove =>
    cases hmove with
    | acquire _ _ _ hc => exact ⟨_, hc⟩
    | _ => cases heffect
  | app hmove =>
    cases hmove with
    | @registerDone _ l =>
      cases hrel : l.workDone.2 <;> rw [hrel] at heffect <;> cases heffect
    | _ => cases heffect
  | watcher => cases heffect
  | native _ hmove =>
    cases hmove with
    | observe o =>
      unfold finishNativeFuture at heffect
      split at heffect <;> cases heffect
    | _ => cases heffect

/-! ### Native calls -/

/-- A `predict` call of the request is queued or running. -/
def predicting (r : Request F) : Bool := r.work.any (·.phase.isActive)

theorem predicting_iff : r.predicting = true ↔ ∃ w, r.work = some w ∧ w.phase.isActive = true := by
  rw [predicting, Option.any_eq_true]

/-- A queued or running call holds the permit. -/
theorem Ok.unfinished_of_predicting (h : r.Ok) (hp : r.predicting = true) :
    r.unfinished = true := by
  obtain ⟨w, hw, hactive⟩ := predicting_iff.mp hp
  obtain ⟨l, hl⟩ := h.lease_of_work hw
  have hun : w.unfinished = true := by
    unfold Work.unfinished
    cases hphase : w.phase <;> first | rfl | (rw [hphase] at hactive; cases hactive)
  rw [unfinished, hl, hw, Option.any_some, hun, Bool.or_true]
  rfl

/-- While the application runs, the lease has its permit. -/
theorem Ok.not_released_of_running (h : r.Ok) {l : AdmissionLease} (hl : r.lease = some l)
    (ha : r.app.isOver = false) : l.released = false := by
  have hleased := h.leased l hl
  rw [hleased.settled, hleased.httpFinished_eq (h.http_of_running hl ha), Bool.false_and]

/-- A lease with a queued or running call has its permit. -/
theorem Ok.not_released_of_predicting (h : r.Ok) {l : AdmissionLease} (hl : r.lease = some l)
    (hp : r.predicting = true) : l.released = false := by
  cases hover : r.app.isOver with
  | false => exact h.not_released_of_running hl hover
  | true =>
    obtain ⟨w, hw, hactive⟩ := predicting_iff.mp hp
    have hleased := h.leased l hl
    have hcustody := hleased.custody
    rw [hw] at hcustody
    obtain ⟨hwork, hf, hc⟩ := hcustody.of_registered (.inr hover)
    have hcb : w.leaseCallback = true := by
      cases hno : w.leaseCallback with
      | true => rfl
      | false =>
        rw [hc hno] at hactive
        cases hactive
    have hrun : w.callbackRun = false := by
      rw [Work.callbackRun, hcb]
      cases hphase : w.phase <;> first | rfl | (rw [hphase] at hactive; cases hactive)
    rw [hleased.settled, hwork, hf, hrun, Bool.not_true, Bool.false_or, Bool.and_false]

end Request
end InferenceServer.Server
