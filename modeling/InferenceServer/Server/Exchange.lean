import InferenceServer.Server.BodyGates

/-!
# What a prediction request was asked and told

Library `Server`. One request of `Server.Request` seen from the client: the bytes it uploaded and
the responses it got. `routes.py:57–123` decodes the uploaded bytes into the one array that is
submitted, and a prediction route answers 200 only with the result of that submission.
-/

namespace InferenceServer.Server

variable {F : Type}

/-- The piece of a body that a message brings. -/
def Message.chunk : Message → Bytes
  | .request body _ => body
  | _ => []

/-- The body that these messages bring. -/
def bodyOf (reads : List ClientRead) : Bytes := reads.flatMap (·.message.chunk)

theorem bodyOf_snoc (reads : List ClientRead) (rd : ClientRead) :
    bodyOf (reads ++ [rd]) = bodyOf reads ++ rd.message.chunk := by
  simp [bodyOf]

/-- The response that the middleware is about to send or is sending. -/
def Middleware.response : Middleware → Option Response
  | .rejecting response _ => some response
  | .refusing response _ => some response
  | _ => none

/-- The response that the application is about to send. -/
def AppTask.response : AppTask → Option Response
  | .responding response => some response
  | _ => none

namespace Request

variable {cfg : Config F} {g : Shared} {r r' : Request F} {effect : Effect}

/-- The native call of the request succeeded. -/
def Answered (r : Request F) : Prop := ∃ w v, r.work = some w ∧ w.outcome = some (.ok v)

/-- What ties the responses of a request to its upload. -/
structure Told (cfg : Config F) (r : Request F) : Prop where
  uploading : r.middleware.isEarly = true → r.watcher = .idle ∧ bodyOf r.reads = r.body
  body : ∃ n, bodyOf (r.reads.take n) = r.body
  /-- an active call has no result yet -/
  pending : ∀ w, r.work = some w → w.phase.isActive = true → w.outcome = none
  array : ∀ w, r.work = some w → decodeBody cfg r.scope r.body = .ok w.array
  refused : ∀ response, r.middleware.response = some response → response.status ≠ 200
  replying : r.scope.route ≠ .other → ∀ response, r.app.response = some response →
    response.status = 200 → r.Answered
  sent : r.scope.route ≠ .other → ∀ response ∈ r.sent, response.status = 200 → r.Answered

theorem told_new (cfg : Config F) (scope : Scope) : Told cfg ({ scope } : Request F) where
  uploading _ := ⟨rfl, rfl⟩
  body := ⟨0, rfl⟩
  pending _ h := by cases h
  array _ h := by cases h
  refused _ h := by cases h
  replying _ _ h := by cases h
  sent _ _ h := absurd h List.not_mem_nil

/-- A step that moves no data: at most the middleware has found another answer than 200. -/
structure Quiet (r r' : Request F) : Prop where
  scope : r'.scope = r.scope
  body : r'.body = r.body
  reads : r'.reads = r.reads
  work : r'.work = r.work
  replying : ∀ response, r'.app.response = some response → r.app.response = some response
  sent : ∀ response ∈ r'.sent, response ∈ r.sent ∨ r.app.response = some response ∨
    r.middleware.response = some response
  refused : ∀ response, r'.middleware.response = some response →
    r.middleware.response = some response ∨ response.status ≠ 200
  early : r'.middleware.isEarly = true → r.middleware.isEarly = true ∧ r'.watcher = r.watcher

theorem Told.quiet (h : r.Told cfg) (hq : Quiet r r') : r'.Told cfg where
  uploading he := by
    obtain ⟨hearly, hwatcher⟩ := hq.early he
    rw [hwatcher, hq.reads, hq.body]
    exact h.uploading hearly
  body := by
    rw [hq.reads, hq.body]
    exact h.body
  pending := by
    rw [hq.work]
    exact h.pending
  array := by
    rw [hq.work, hq.scope, hq.body]
    exact h.array
  refused response hr := by
    rcases hq.refused response hr with hr | hr
    · exact h.refused response hr
    · exact hr
  replying hroute response hr hs := by
    rw [hq.scope] at hroute
    rw [Answered, hq.work]
    exact h.replying hroute response (hq.replying response hr) hs
  sent hroute response hr hs := by
    rw [hq.scope] at hroute
    rw [Answered, hq.work]
    rcases hq.sent response hr with hr | hr | hr
    · exact h.sent hroute response hr hs
    · exact h.replying hroute response hr hs
    · exact absurd hs (h.refused response hr)

/-- The middleware goes on without an answer of its own. -/
theorem quiet_silent {m : Middleware} (hm : m.response = none) (he : m.isEarly = false)
    (appCancel watcherCancel : Bool) :
    Quiet r { r with middleware := m, appCancel, watcherCancel } where
  scope := rfl
  body := rfl
  reads := rfl
  work := rfl
  replying _ h := h
  sent _ h := .inl h
  refused _ h := by
    rw [hm] at h
    cases h
  early h := by
    rw [he] at h
    cases h

/-- The middleware has found an answer. -/
theorem quiet_refuse {m : Middleware} {response : Response} (hm : m.response = some response)
    (he : m.isEarly = false) (hs : response.status ≠ 200) : Quiet r { r with middleware := m } where
  scope := rfl
  body := rfl
  reads := rfl
  work := rfl
  replying _ h := h
  sent _ h := .inl h
  refused _ h := by
    cases hm.symm.trans h
    exact .inr hs
  early h := by
    rw [he] at h
    cases h

/-- The start of an answer is out. -/
theorem quiet_send {m : Middleware} {response : Response}
    (hm : r.middleware.response = some response) (hm' : m.response = some response)
    (he : m.isEarly = false) :
    Quiet r { r with middleware := m, sent := r.sent ++ [response] } := by
  refine ⟨rfl, rfl, rfl, rfl, fun _ h ↦ h, ?_, ?_, ?_⟩
  · intro response' hr
    rcases List.mem_append.mp hr with hr | hr
    · exact .inl hr
    · cases List.mem_singleton.mp hr
      exact .inr (.inr hm)
  · exact fun response' hr ↦ .inl (hm.trans (hm'.symm.trans hr))
  · intro hearly
    rw [show m.isEarly = true from hearly] at he
    cases he

/-! ### Steps of the middleware -/

/-- A cancellation is passed on. -/
theorem quiet_cancel (appCancel watcherCancel : Bool) :
    Quiet r { r with appCancel, watcherCancel } :=
  ⟨rfl, rfl, rfl, rfl, fun _ h ↦ h, fun _ h ↦ .inl h, fun _ h ↦ .inl h, fun h ↦ ⟨h, rfl⟩⟩

/-- A message is taken once the body is complete. -/
theorem Told.logRead (h : r.Told cfg) (he : r.middleware.isEarly = false) (m : Message) :
    (r.logRead m).Told cfg where
  uploading hearly := by
    change r.middleware.isEarly = true at hearly
    rw [he] at hearly
    cases hearly
  body := by
    obtain ⟨n, hn⟩ := h.body
    refine ⟨min n r.reads.length, ?_⟩
    change bodyOf ((r.reads ++ [_]).take _) = r.body
    rw [List.take_append_of_le_length (Nat.min_le_right _ _), ← hn,
      ← List.take_take, List.take_length]
  pending := h.pending
  array := h.array
  refused := h.refused
  replying := h.replying
  sent := h.sent

/-- No native call exists while the body is read. -/
theorem Ok.work_of_early (h : r.Ok) (hm : r.middleware.isEarly = true) : r.work = none := by
  cases hl : r.lease with
  | none => exact (h.unleased hl).2.1
  | some l => exact ((h.leased l hl).custody.of_created (.inl (h.early hm))).1

/-- A piece of the body is kept. -/
theorem Told.keep (h : r.Told cfg) (hok : r.Ok) (hm : r.middleware = .uploadWait) {m : Message}
    (hs : r'.scope = r.scope) (hb : r'.body = r.body ++ m.chunk)
    (hr : r'.reads = (r.logRead m).reads) (hw : r'.work = r.work) (hsent : r'.sent = r.sent)
    (hmid : r'.middleware.response = none) (happ : r'.app.response = none)
    (hwatch : r'.middleware.isEarly = true → r'.watcher = r.watcher) : r'.Told cfg := by
  have hearly : r.middleware.isEarly = true := by
    rw [hm]
    rfl
  obtain ⟨hidle, hbody⟩ := h.uploading hearly
  have hnone : r'.work = none := hw.trans (hok.work_of_early hearly)
  have hupload : bodyOf r'.reads = r'.body := by
    rw [hr, hb, ← hbody]
    exact bodyOf_snoc _ _
  refine ⟨fun he ↦ ⟨(hwatch he).trans hidle, hupload⟩, ⟨r'.reads.length, ?_⟩, ?_, ?_, ?_, ?_, ?_⟩
  · rw [List.take_length]
    exact hupload
  · intro w hw'
    rw [hnone] at hw'
    cases hw'
  · intro w hw'
    rw [hnone] at hw'
    cases hw'
  · intro response hresp
    rw [hmid] at hresp
    cases hresp
  · intro _ response hresp
    rw [happ] at hresp
    cases hresp
  · intro hroute response hresp hstatus
    rw [hs] at hroute
    rw [hsent] at hresp
    rw [Answered, hw]
    exact h.sent hroute response hresp hstatus

theorem Told.upload (h : r.Told cfg) (hok : r.Ok) (hm : r.middleware = .uploadWait)
    (m : Message) : ((r.logRead m).upload cfg m).Told cfg := by
  have hidle : r.app.response = none := by
    rw [hok.early (by rw [hm]; rfl)]
    rfl
  cases m with
  | disconnect => exact (h.quiet (quiet_silent rfl rfl true true)).logRead rfl _
  | other =>
    exact h.keep hok hm (m := .other) rfl (List.append_nil _).symm rfl rfl rfl rfl hidle fun _ ↦ rfl
  | request chunk moreBody =>
    unfold Request.upload
    dsimp only
    split
    · have hstatus : (⟨413, "request body is too large"⟩ : Response).status ≠ 200 := by decide
      exact (h.quiet (quiet_refuse rfl rfl hstatus)).logRead rfl _
    · cases moreBody with
      | true =>
        exact h.keep hok hm (m := .request chunk true) rfl rfl rfl rfl rfl rfl hidle fun _ ↦ rfl
      | false =>
        exact h.keep hok hm (m := .request chunk false) rfl rfl rfl rfl rfl rfl rfl (by rintro ⟨⟩)

/-- The middleware gets past authentication. -/
theorem Told.passed {r₀ : Request F} (h : r.Told cfg) (hp : Passed cfg g r r₀) : r₀.Told cfg := by
  cases hp with
  | unprotected => exact h
  | accepted =>
    exact h.quiet
      ⟨rfl, rfl, rfl, rfl, fun _ h ↦ h, fun _ h ↦ .inl h, fun _ h ↦ .inl h, fun h ↦ ⟨h, rfl⟩⟩

/-- A step of the middleware. -/
theorem Told.middleware {ev : MiddlewareEvent} (h : r.Told cfg) (hok : r.Ok)
    (hstep : r.middlewareStep cfg g ev = some (r', effect)) : r'.Told cfg := by
  have read {m : Message} (hm : r.middleware = .uploadWait) (hev : ev = .message m) :
      r'.Told cfg := by
    rw [hev, middlewareStep, if_pos hm] at hstep
    cases hstep
    exact h.upload hok hm m
  cases middlewareStep_cases hstep with
  | unauthorized _ _ hs => exact h.quiet (quiet_refuse rfl rfl hs)
  | overloaded _ hp _ hs => exact (h.passed hp).quiet (quiet_refuse rfl rfl hs)
  | through =>
    exact h.quiet
      ⟨rfl, rfl, rfl, rfl, by rintro _ ⟨⟩, fun _ h ↦ .inl h, by rintro _ ⟨⟩, by rintro ⟨⟩⟩
  | @acquire r₀ hm hp _ _ _ _ m hm' hs =>
    refine (h.passed hp).quiet ⟨rfl, rfl, rfl, rfl, fun _ h ↦ h, fun _ h ↦ .inl h, ?_, ?_⟩
    · intro response hr
      rcases hm' with rfl | ⟨_, rfl⟩ <;> cases hr
      exact .inr (hs _ rfl)
    · intro _
      have hentry : r₀.middleware = .entry := by cases hp <;> exact hm
      rw [hentry]
      exact ⟨rfl, rfl⟩
  | rejectSend _ hm => exact h.quiet (quiet_send (by rw [hm]; rfl) rfl rfl)
  | refuseSend _ hm => exact h.quiet (quiet_send (by rw [hm]; rfl) rfl rfl)
  | refuse _ _ hs => exact h.quiet (quiet_refuse rfl rfl hs)
  | uploadWait hm =>
    refine h.quiet ⟨rfl, rfl, rfl, rfl, fun _ h ↦ h, fun _ h ↦ .inl h, by rintro _ ⟨⟩, ?_⟩
    intro _
    rw [hm]
    exact ⟨rfl, rfl⟩
  | readUnwind hm => exact read hm rfl
  | readRefuse hm => exact read hm rfl
  | readOn hm => exact read hm rfl
  | readLast hm => exact read hm rfl
  | forwardCancel => exact h.quiet (quiet_cancel _ _)
  | finishHttp =>
    refine h.quiet ⟨rfl, rfl, rfl, rfl, fun _ h ↦ h, fun _ h ↦ .inl h, ?_, ?_⟩
    · dsimp only
      split <;> rintro _ ⟨⟩
    · dsimp only
      split <;> rintro ⟨⟩
  | _ => exact h.quiet (quiet_silent rfl rfl _ _)

/-! ### Steps of the application -/

/-- The application goes on, with answers other than 200 or with the result of its call. -/
theorem Told.app (h : r.Told cfg) {a : AppTask} {responseStarted : Bool} {sent : List Response}
    (ha : r.scope.route ≠ .other → ∀ response, a.response = some response →
      response.status = 200 → r.Answered)
    (hsent : r.scope.route ≠ .other → ∀ response ∈ sent, response.status = 200 → r.Answered) :
    ({ r with app := a, responseStarted, sent } : Request F).Told cfg :=
  ⟨h.uploading, h.body, h.pending, h.array, h.refused, ha, hsent⟩

/-- The application goes on and has no answer yet, or none any more. -/
theorem quiet_app {a : AppTask} (ha : a.response = none) (lease : Option AdmissionLease) :
    Quiet r { r with app := a, lease } where
  scope := rfl
  body := rfl
  reads := rfl
  work := rfl
  replying _ h := by
    change a.response = _ at h
    rw [ha] at h
    cases h
  sent _ h := .inl h
  refused _ h := .inl h
  early h := ⟨h, rfl⟩

/-- The native call moves on and keeps its array and its result. -/
theorem Told.work (h : r.Told cfg) {w : Work F} (w' : Work F) (hw : r.work = some w)
    (ha : w'.array = w.array) (ho : ∀ v, w.outcome = some (.ok v) → w'.outcome = some (.ok v))
    (hp : w'.phase.isActive = true → w'.outcome = none) :
    ({ r with work := some w' } : Request F).Told cfg := by
  have hanswered (h : r.Answered) : ({ r with work := some w' } : Request F).Answered := by
    obtain ⟨w₀, v, hw₀, hv⟩ := h
    rw [hw] at hw₀
    cases hw₀
    exact ⟨w', v, rfl, ho v hv⟩
  refine ⟨h.uploading, h.body, ?_, ?_, h.refused, ?_, ?_⟩
  · rintro _ ⟨⟩
    exact hp
  · rintro _ ⟨⟩
    rw [ha]
    exact h.array w hw
  · exact fun hroute response hr hs ↦ hanswered (h.replying hroute response hr hs)
  · exact fun hroute response hr hs ↦ hanswered (h.sent hroute response hr hs)

/-- A step of the application. -/
theorem Told.appMove (h : r.Told cfg) (hok : r.Ok) (hmove : AppMove cfg g r r' effect) :
    r'.Told cfg := by
  have reading {body : Bytes} (ha : r.app = .reading body) (m : Message) :
      (r.logRead m).Told cfg := by
    refine h.logRead ?_ m
    cases hm : r.middleware.isEarly with
    | false => rfl
    | true =>
      rw [hok.early hm] at ha
      cases ha
  cases hmove with
  | reply _ _ _ _ _ hr =>
    cases hr with
    | answer _ _ hs =>
      refine h.app ?_ h.sent
      rintro hroute _ ⟨⟩ h200
      exact (hs h200).resolve_left hroute
    | @send response ha =>
      refine h.app (by rintro _ _ ⟨⟩) ?_
      intro hroute response' hr h200
      rcases List.mem_append.mp hr with hr | hr
      · exact h.sent hroute response' hr h200
      · cases List.mem_singleton.mp hr
        exact h.replying hroute response (by rw [ha]; rfl) h200
    | ended => exact h.app (by rintro _ _ ⟨⟩) h.sent
  | replyRead ha m a _ hs =>
    refine (reading ha m).app ?_ h.sent
    intro _ response hr h200
    exact absurd h200 (hs response (by cases a <;> cases hr; rfl))
  | readOn ha m => exact (reading ha m).quiet (quiet_app rfl r.lease)
  | submit ha hl _ _ _ _ _ _ hd =>
    obtain ⟨l, hl⟩ := Option.isSome_iff_exists.mp hl
    have hnone := ((hok.leased l hl).custody.of_created (.inr ha)).1
    refine ⟨h.uploading, h.body, ?_, ?_, h.refused, by rintro _ _ ⟨⟩, ?_⟩
    · rintro _ ⟨⟩ _
      rfl
    · rintro _ ⟨⟩
      exact hd
    · intro hroute response hr h200
      obtain ⟨w, -, hw, -⟩ := h.sent hroute response hr h200
      rw [hnone] at hw
      cases hw
  | submitRead ha _ hs =>
    -- a request without a lease has no deadline either
    obtain ⟨-, -, hnone, -⟩ := hok.unleased (hok.lease_of_reading ha)
    rw [hs.deadline] at hnone
    cases hnone
  | @register _ _ w _ hw =>
    exact (h.work { w with leaseCallback := true } hw rfl (fun _ hv ↦ hv)
      (h.pending w hw)).quiet (quiet_app rfl r.lease)
  | @wrap _ w hw chainCallback scheduled =>
    exact (h.work { w with chainCallback, scheduled } hw rfl (fun _ hv ↦ hv)
      (h.pending w hw)).quiet (quiet_app rfl r.lease)
  | inferenceError _ _ _ _ _ hs =>
    refine h.app ?_ h.sent
    rintro _ _ ⟨⟩ h200
    exact absurd h200 hs
  | _ => exact h.quiet (quiet_app rfl _)

/-! ### The watcher and the native call -/

theorem Told.watcher {ev : WatcherEvent} (h : r.Told cfg) (hmove : WatcherMove r ev r') :
    r'.Told cfg := by
  have hrun (hw : r.watcher = .running) : r.middleware.isEarly = false := by
    cases hm : r.middleware.isEarly with
    | false => rfl
    | true =>
      rw [(h.uploading hm).1] at hw
      cases hw
  have ended (hw : r.watcher = .running) (watcher : Watcher) : Quiet r { r with watcher } := by
    refine ⟨rfl, rfl, rfl, rfl, fun _ h ↦ h, fun _ h ↦ .inl h, fun _ h ↦ .inl h, ?_⟩
    intro he
    rw [hrun hw] at he
    cases he
  cases hmove with
  | message hw m watcher => exact (h.quiet (ended hw watcher)).logRead (hrun hw) m
  | ended hw => exact h.quiet (ended hw _)

theorem Told.native {w : Work F} {ev : NativeEvent F} (h : r.Told cfg) (hw : r.work = some w)
    (hmove : NativeMove g r w ev r' effect) : r'.Told cfg := by
  have active {w' : Work F} (hp : w.phase.isActive = true) (ha : w'.array = w.array)
      (hp' : w'.phase.isActive = true → w'.outcome = none) :
      ({ r with work := some w' } : Request F).Told cfg := by
    refine h.work w' hw ha ?_ hp'
    intro v hv
    rw [h.pending w hw hp] at hv
    cases hv
  have inactive {w' : Work F} (ha : w'.array = w.array) (ho : w'.outcome = w.outcome)
      (hp' : w'.phase.isActive = false) : ({ r with work := some w' } : Request F).Told cfg := by
    refine h.work w' hw ha (fun _ hv ↦ ho.trans hv) ?_
    intro hp
    rw [hp'] at hp
    cases hp
  cases hmove with
  | advance hadv =>
    cases hadv with
    | take hp =>
      have hactive : w.phase.isActive = true := by
        rw [hp]
        rfl
      exact active hactive rfl fun _ ↦ h.pending w hw hactive
    | submit hp =>
      have hactive : w.phase.isActive = true := by
        rw [hp]
        rfl
      exact active hactive rfl fun _ ↦ h.pending w hw hactive
    | missized hp => exact active (by rw [hp]; rfl) rfl (by rintro ⟨⟩)
    | reject hp => exact active (by rw [hp]; rfl) rfl (by rintro ⟨⟩)
    | complete hp => exact active (by rw [hp]; rfl) rfl (by rintro ⟨⟩)
  | @callback _ _ l =>
    let w₀ : Work F := { w with phase := if l.workDone.2 then .releasing else .chaining }
    have hphase : w₀.phase.isActive = false := by
      cases hrel : l.workDone.2 <;> simp [w₀, hrel, WorkPhase.isActive]
    refine (inactive (rfl : w₀.array = w.array) rfl hphase).quiet
      ⟨rfl, rfl, rfl, rfl, fun _ h ↦ h, fun _ h ↦ .inl h, fun _ h ↦ .inl h, fun h ↦ ⟨h, rfl⟩⟩
  | observe => exact h.work _ hw rfl (fun _ hv ↦ hv) (h.pending w hw)
  | _ => exact inactive rfl rfl rfl

/-- Every step of a request. -/
theorem Told.step {ev : Event F} (h : r.Told cfg) (hok : r.Ok)
    (hstep : r.step cfg g ev = some (r', effect)) : r'.Told cfg := by
  cases step_cases hstep with
  | middleware => exact h.middleware hok hstep
  | app hmove => exact h.appMove hok hmove
  | watcher hmove => exact h.watcher hmove
  | native hw hmove => exact h.native hw hmove

end Request
end InferenceServer.Server
