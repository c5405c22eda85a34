import InferenceServer.Server.Failure

/-!
# What stands before a body and before the engine

Library `Server`. Authentication and admission are middlewares that recognise a prediction by
its path; the handlers check neither. `Gated` says what a request has been through at each
message it read and at its submission. The router recognises two paths more than the
middlewares: a request for one of those is read without either gate, and then fails in the
handler for want of a deadline.
-/

namespace InferenceServer.Server

open InferenceServer.Base

variable {F : Type}

/-! ### Array lengths -/

/-- Four bytes make one element. -/
theorem length_frombuffer (float32OfBytes : UInt8 → UInt8 → UInt8 → UInt8 → F) (n : Nat)
    {body : Bytes} (h : body.length = n * 4) : (frombuffer float32OfBytes body).length = n := by
  induction n generalizing body with
  | zero =>
    rw [Nat.zero_mul, List.length_eq_zero_iff] at h
    subst h
    rfl
  | succ n ih =>
    match body with
    | a :: b :: c :: d :: rest =>
      simp only [List.length_cons] at h
      rw [frombuffer, List.length_cons, ih (by omega)]
    | [] => simp at h
    | [_] => simp at h; omega
    | [_, _] => simp at h; omega
    | [_, _, _] => simp at h; omega

/-- Both routes check the length before they hand the array on. -/
theorem length_decodeBody {cfg : Config F} {scope : Scope} {body : Bytes} {array : List F}
    (h : decodeBody cfg scope body = .ok array) : array.length = cfg.inputElems := by
  unfold decodeBody at h
  dsimp only at h
  split at h
  · split at h
    · cases h
    · split at h
      · cases h
      · next input _ hlen =>
        cases h
        rw [List.length_map]
        exact not_not.mp hlen
  · split at h
    · cases h
    · next hlen =>
      cases h
      exact length_frombuffer _ _ (not_not.mp hlen)
  · cases h

namespace Request

/-- `authenticate` accepted the headers under this id, with the store as it was then. -/
def Authenticated (cfg : Config F) (scope : Scope) (acceptedBy : Option (List ApiKeyRecord))
    (keyId : Option String) : Prop :=
  ∃ k, keyId = some k ∧ authenticate cfg.sha256 cfg.authRequired acceptedBy scope.headers = some k

/-- A message that was read behind both gates. -/
def ReadGated (cfg : Config F) (scope : Scope) (acceptedBy : Option (List ApiKeyRecord))
    (rd : ClientRead) : Prop :=
  rd.leased = true ∧ (cfg.authRequired = true → Authenticated cfg scope acceptedBy rd.clientKeyId)

/-- A submission that was made behind both gates and after all checks of the handlers. -/
structure SubmissionGated (cfg : Config F) (scope : Scope)
    (acceptedBy : Option (List ApiKeyRecord)) (sub : Submission F) : Prop where
  lease : ∃ l, sub.lease = some l ∧ l.released = false
  inTime : sub.checkedAt < sub.deadline
  size : sub.array.length = cfg.inputElems
  finite : sub.array.all cfg.isfinite = true
  authenticated : cfg.authRequired = true → Authenticated cfg scope acceptedBy sub.clientKeyId

/-- Nothing has happened to the request yet. -/
structure Untouched (r : Request F) : Prop where
  lease : r.lease = none
  app : r.app = .idle
  watcher : r.watcher = .idle
  work : r.work = none
  reads : r.reads = []
  submission : r.submission = none

/-- What a request has been through. -/
structure Gated (cfg : Config F) (r : Request F) : Prop where
  entry : r.middleware = .entry → r.Untouched
  leased : r.lease.isSome = true → r.scope.admitted = true ∧
    (cfg.authRequired = true → Authenticated cfg r.scope r.acceptedBy r.clientKeyId)
  through : r.lease = none → r.app.isOver = false → r.scope.admitted = false
  reading : ∀ body, r.app = .reading body → r.scope.slipsThrough = true
  watcher : r.watcher = .running → r.lease.isSome = true
  reads : ∀ rd ∈ r.reads,
    ReadGated cfg r.scope r.acceptedBy rd ∨ r.scope.slipsThrough = true
  submission : ∀ sub, r.submission = some sub →
    r.lease.isSome = true ∧ SubmissionGated cfg r.scope r.acceptedBy sub

theorem gated_new (cfg : Config F) (scope : Scope) : Gated cfg ({ scope } : Request F) where
  entry _ := ⟨rfl, rfl, rfl, rfl, rfl, rfl⟩
  leased h := by cases h
  through _ h := by cases h
  reading _ h := by cases h
  watcher h := by cases h
  reads _ h := absurd h List.not_mem_nil
  submission _ h := by cases h

variable {cfg : Config F} {g : Shared} {r r' : Request F} {effect : Effect}

/-- Steps that keep the identity of the request, its history and whether it has a lease. -/
theorem Gated.frame (h : r.Gated cfg) (hm : r'.middleware ≠ .entry)
    (hid : (r'.scope, r'.clientKeyId, r'.acceptedBy) = (r.scope, r.clientKeyId, r.acceptedBy))
    (hhistory : (r'.reads, r'.submission) = (r.reads, r.submission))
    (hlease : r'.lease.isSome = r.lease.isSome)
    (hthrough : r.lease = none → r'.app.isOver = false → r.scope.admitted = false)
    (hreading : ∀ body, r'.app = .reading body → r.scope.slipsThrough = true)
    (hwatcher : r'.watcher = .running → r.lease.isSome = true) : r'.Gated cfg := by
  simp only [Prod.mk.injEq] at hid hhistory
  obtain ⟨hscope, hkey, hby⟩ := hid
  obtain ⟨hreads, hsub⟩ := hhistory
  have hnone : r'.lease = none → r.lease = none := by
    intro hl
    rw [hl] at hlease
    exact Option.isNone_iff_eq_none.mp (Option.isSome_eq_false_iff.mp hlease.symm)
  constructor
  · exact fun he ↦ absurd he hm
  · rw [hlease, hscope, hkey, hby]
    exact h.leased
  · rw [hscope]
    exact fun hl ↦ hthrough (hnone hl)
  · rw [hscope]
    exact hreading
  · rw [hlease]
    exact hwatcher
  · rw [hreads, hscope, hby]
    exact h.reads
  · rw [hsub, hlease, hscope, hby]
    exact h.submission

/-- Steps of the middleware that change neither the application nor the watcher. -/
theorem Gated.turn (h : r.Gated cfg) (hm : r'.middleware ≠ .entry)
    (hid : (r'.scope, r'.clientKeyId, r'.acceptedBy) = (r.scope, r.clientKeyId, r.acceptedBy))
    (hhistory : (r'.reads, r'.submission) = (r.reads, r.submission)) (hlease : r'.lease = r.lease)
    (happ : r'.app = r.app) (hwatcher : r'.watcher = r.watcher) : r'.Gated cfg := by
  refine h.frame hm hid hhistory (by rw [hlease]) ?_ ?_ ?_
  · rw [happ]
    exact h.through
  · rw [happ]
    exact h.reading
  · rw [hwatcher]
    exact h.watcher

/-- One more message, read behind both gates or by a request that slips through. -/
theorem Gated.logRead (h : r.Gated cfg) (hm : r.middleware ≠ .entry) (m : Message)
    (hr : r.lease.isSome = true ∨ r.scope.slipsThrough = true) : (r.logRead m).Gated cfg where
  entry he := absurd he hm
  leased := h.leased
  through := h.through
  reading := h.reading
  watcher := h.watcher
  reads := by
    refine forall_mem_snoc h.reads ?_
    rcases hr with hl | hslip
    · exact .inl ⟨hl, (h.leased hl).2⟩
    · exact .inr hslip
  submission := h.submission

theorem Gated.ne_entry_of_app (h : r.Gated cfg) (ha : r.app ≠ .idle) : r.middleware ≠ .entry :=
  fun hm ↦ ha (h.entry hm).app

theorem Gated.ne_entry_of_work (h : r.Gated cfg) {w : Work F} (hw : r.work = some w) :
    r.middleware ≠ .entry := by
  intro hm
  rw [(h.entry hm).work] at hw
  cases hw

theorem Gated.ne_entry_of_watcher (h : r.Gated cfg) (hw : r.watcher = .running) :
    r.middleware ≠ .entry := by
  intro hm
  rw [(h.entry hm).watcher] at hw
  cases hw

/-- Leaving the entry without a lease. -/
theorem Gated.leave (h : r.Gated cfg) (hm : r.middleware = .entry) (hm' : r'.middleware ≠ .entry)
    (hscope : r'.scope = r.scope) (hl : r'.lease = r.lease) (hw : r'.watcher = r.watcher)
    (hreads : r'.reads = r.reads) (hsub : r'.submission = r.submission)
    (happ : r'.app = .idle ∨ r'.app = .created ∧ r.scope.admitted = false) : r'.Gated cfg := by
  obtain ⟨hlease, -, hwatcher, -, hreads₀, hsub₀⟩ := h.entry hm
  rw [hlease] at hl
  rw [hwatcher] at hw
  rw [hreads₀] at hreads
  rw [hsub₀] at hsub
  constructor
  · exact fun he ↦ absurd he hm'
  · intro hsome
    rw [hl] at hsome
    cases hsome
  · intro _ hover
    rcases happ with happ | ⟨-, hout⟩
    · rw [happ] at hover
      cases hover
    · rw [hscope]
      exact hout
  · intro body hbody
    rcases happ with happ | ⟨happ, -⟩
    · rw [happ] at hbody
      cases hbody
    · rw [happ] at hbody
      cases hbody
  · intro hrunning
    rw [hw] at hrunning
    cases hrunning
  · rw [hreads]
    exact fun _ hrd ↦ absurd hrd List.not_mem_nil
  · rw [hsub]
    exact fun _ hs ↦ by cases hs

/-- An acquisition: an admitted scope has been authenticated before. -/
theorem Gated.acquire {r₀ : Request F} (h : r.Gated cfg) (hm : r.middleware = .entry)
    (hp : Passed cfg g r r₀) (ha : r.scope.admitted = true) (deadline : Nat) {m : Middleware}
    (hm' : m ≠ .entry) :
    Gated cfg { r₀ with lease := some {}, deadline := some deadline, middleware := m } := by
  obtain ⟨-, happ, -, -, hreads, hsub⟩ := h.entry hm
  cases hp with
  | unprotected hopen =>
    have hfree : cfg.authRequired = false := by
      rw [Scope.protected_eq, ha, Bool.true_and] at hopen
      exact hopen
    constructor
    · exact fun he ↦ absurd he hm'
    · intro _
      refine ⟨ha, ?_⟩
      intro hreq
      rw [hfree] at hreq
      cases hreq
    · exact fun hl ↦ by cases hl
    · exact h.reading
    · exact fun _ ↦ rfl
    · exact h.reads
    · rw [hsub]
      exact fun _ hs ↦ by cases hs
  | accepted keyId _ hauth =>
    constructor
    · exact fun he ↦ absurd he hm'
    · exact fun _ ↦ ⟨ha, fun _ ↦ ⟨keyId, rfl, hauth⟩⟩
    · exact fun hl ↦ by cases hl
    · exact h.reading
    · exact fun _ ↦ rfl
    · rw [hreads]
      exact fun _ hrd ↦ absurd hrd List.not_mem_nil
    · rw [hsub]
      exact fun _ hs ↦ by cases hs

theorem lease_of_upload (hok : r.Ok) (hm : r.middleware = .uploadWait) :
    r.lease.isSome = true := by
  obtain ⟨l, hl⟩ := hok.lease_of_http (by rw [hm]; rfl)
  rw [hl]
  rfl

/-- A message of an admitted upload. -/
theorem Gated.uploaded (h : r.Gated cfg) (hok : r.Ok) (hm : r.middleware = .uploadWait)
    (m : Message) : (r.logRead m).Gated cfg :=
  h.logRead (by rw [hm]; nofun) m (.inl (lease_of_upload hok hm))

/-- Steps of the middleware task. -/
theorem Gated.middlewareMove {ev : MiddlewareEvent} (h : r.Gated cfg) (hok : r.Ok)
    (hmove : MiddlewareMove cfg g r ev r' effect) : r'.Gated cfg := by
  cases hmove with
  | overloaded hm hp response =>
    refine h.leave hm nofun ?_ ?_ ?_ ?_ ?_ (.inl ?_)
    all_goals cases hp <;> first | rfl | exact (h.entry hm).app
  | through hm ha => exact h.leave hm nofun rfl rfl rfl rfl rfl (.inr ⟨rfl, ha⟩)
  | acquire hm hp ha _ deadline m hm' =>
    refine h.acquire hm hp ha deadline ?_
    rcases hm' with rfl | ⟨response, rfl⟩
    · nofun
    · nofun
  | forwardCancel =>
    refine ⟨?_, h.leased, h.through, h.reading, h.watcher, h.reads, h.submission⟩
    intro hm
    obtain ⟨hl, ha, hw, hwork, hr, hs⟩ := h.entry hm
    exact ⟨hl, ha, hw, hwork, hr, hs⟩
  | readUnwind hm m => exact (h.uploaded hok hm m).turn nofun rfl rfl rfl rfl rfl
  | readRefuse hm m response => exact (h.uploaded hok hm m).turn nofun rfl rfl rfl rfl rfl
  | readOn hm m body => exact (h.uploaded hok hm m).turn nofun rfl rfl rfl rfl rfl
  | readLast hm m body =>
    have hl := lease_of_upload hok hm
    refine (h.uploaded hok hm m).frame nofun rfl rfl rfl ?_ nofun (fun _ ↦ hl)
    intro hnone
    rw [show r.lease = none from hnone] at hl
    cases hl
  | finishHttp hm l hl =>
    refine h.frame ?_ rfl rfl ?_ h.through h.reading h.watcher
    · dsimp only
      split <;> nofun
    · rw [hl]
      rfl
  | _ => exact h.turn nofun rfl rfl rfl rfl rfl

/-! ### Steps of the other tasks -/

/-- The checks of the handlers, made by a request that has a lease. -/
theorem Gated.submits {sub : Submission F} (h : r.Gated cfg) (hok : r.Ok)
    (ha : r.app.isOver = false) (hl : r.lease.isSome = true) (hs : Submits cfg g r sub) :
    SubmissionGated cfg r.scope r.acceptedBy sub where
  lease := by
    obtain ⟨l, hlease⟩ := Option.isSome_iff_exists.mp hl
    exact ⟨l, hs.lease.trans hlease, hok.not_released_of_running hlease ha⟩
  inTime := by
    rw [hs.checkedAt]
    exact hs.inTime
  size := by
    obtain ⟨body, hbody⟩ := hs.decoded
    exact length_decodeBody hbody
  finite := hs.finite
  authenticated := by
    rw [hs.clientKeyId]
    exact (h.leased hl).2

/-- Steps of the application. -/
theorem Gated.appMove (h : r.Gated cfg) (hok : r.Ok) (hmove : AppMove cfg g r r' effect) :
    r'.Gated cfg := by
  -- wherever the application runs, the middleware has left its entry
  have hentry (ha : r.app.isOver = false) : r.middleware ≠ .entry := by
    refine h.ne_entry_of_app ?_
    intro hidle
    rw [hidle] at ha
    cases ha
  cases hmove with
  | reply ha a ha' started sent =>
    have hover := AppTask.not_over_of_isAwait ha
    refine h.frame (hentry hover) rfl rfl rfl (fun hl _ ↦ h.through hl hover) ?_ h.watcher
    rintro body rfl
    cases ha'
  | @replyRead body ha m a ha' =>
    have hover : r.app.isOver = false := by rw [ha]; rfl
    have hread := h.logRead (hentry hover) m (.inr (h.reading body ha))
    refine hread.frame (hentry hover) rfl rfl rfl (fun hl _ ↦ h.through hl hover) ?_ h.watcher
    rintro body rfl
    cases ha'
  | readBody ha hroute hl =>
    have hout := h.through hl (by rw [ha]; rfl)
    refine h.frame (hentry (by rw [ha]; rfl)) rfl rfl rfl (fun _ _ ↦ hout) ?_ h.watcher
    exact fun _ _ ↦ Scope.slipsThrough_iff.mpr ⟨hroute, hout⟩
  | @readOn body ha m body' =>
    have hover : r.app.isOver = false := by rw [ha]; rfl
    have hslip := h.reading body ha
    have hread := h.logRead (hentry hover) m (.inr hslip)
    exact hread.frame (hentry hover) rfl rfl rfl (fun hl _ ↦ h.through hl hover) (fun _ _ ↦ hslip)
      h.watcher
  | submit ha hl hs executor runtime =>
    have hover : r.app.isOver = false := by rw [ha]; rfl
    refine ⟨fun he ↦ absurd he (hentry hover), h.leased, fun hnone _ ↦ h.through hnone hover, nofun,
      h.watcher, h.reads, ?_⟩
    rintro _ ⟨⟩
    exact ⟨hl, h.submits hok hover hl hs⟩
  | submitRead ha m hs =>
    -- a request without a lease has no deadline either
    obtain ⟨-, -, hnone, -⟩ := hok.unleased (hok.lease_of_reading ha)
    rw [hs.deadline] at hnone
    cases hnone
  | attach ha hl hattach =>
    have hover : r.app.isOver = false := by rw [ha]; rfl
    refine h.frame (hentry hover) rfl rfl (by rw [hl]; rfl) (fun hnone _ ↦ h.through hnone hover)
      nofun h.watcher
  | attachFails ha _ e =>
    exact h.frame (hentry (by rw [ha]; rfl)) rfl rfl rfl nofun nofun h.watcher
  | register ha hl hw hactive =>
    have hover : r.app.isOver = false := by rw [ha]; rfl
    exact h.frame (hentry hover) rfl rfl rfl (fun hnone _ ↦ h.through hnone hover) nofun h.watcher
  | registerDone ha hl hw hactive =>
    have hover : r.app.isOver = false := by rw [ha]; rfl
    exact h.frame (hentry hover) rfl rfl (by rw [hl]; rfl) (fun hnone _ ↦ h.through hnone hover)
      nofun h.watcher
  | wrap ha hw chainCallback scheduled =>
    have hover : r.app.isOver = false := by rw [ha]; rfl
    exact h.frame (hentry hover) rfl rfl rfl (fun hnone _ ↦ h.through hnone hover) nofun h.watcher
  | inferenceError ha hw message ho response =>
    have hover : r.app.isOver = false := by rw [ha]; rfl
    exact h.frame (hentry hover) rfl rfl rfl (fun hnone _ ↦ h.through hnone hover) nofun h.watcher

/-- Steps of the watcher, which runs only beside a leased request. -/
theorem Gated.watcherMove {ev : WatcherEvent} (h : r.Gated cfg) (hmove : WatcherMove r ev r') :
    r'.Gated cfg := by
  cases hmove with
  | message hw m watcher =>
    have hl := h.watcher hw
    have hentry := h.ne_entry_of_watcher hw
    exact (h.logRead hentry m (.inl hl)).frame hentry rfl rfl rfl h.through h.reading (fun _ ↦ hl)
  | ended hw failed =>
    exact h.frame (h.ne_entry_of_watcher hw) rfl rfl rfl h.through h.reading nofun

/-- Steps of the native call. -/
theorem Gated.nativeMove {w : Work F} {ev : NativeEvent F} (h : r.Gated cfg)
    (hw : r.work = some w) (hmove : NativeMove g r w ev r' effect) : r'.Gated cfg := by
  have hentry := h.ne_entry_of_work hw
  cases hmove with
  | callback _ _ hl => exact h.frame hentry rfl rfl (by rw [hl]; rfl) h.through h.reading h.watcher
  | _ => exact h.turn hentry rfl rfl rfl rfl rfl

/-- Every step of a request. -/
theorem Gated.step {ev : Event F} (h : r.Gated cfg) (hok : r.Ok)
    (hstep : r.step cfg g ev = some (r', effect)) : r'.Gated cfg := by
  cases step_cases hstep with
  | middleware hmove => exact h.middlewareMove hok hmove
  | app hmove => exact h.appMove hok hmove
  | watcher hmove => exact h.watcherMove hmove
  | native hw hmove => exact h.nativeMove hw hmove

/-! ### Where a lease comes from -/

/-- An acquisition comes after authentication, with the store of that moment. -/
theorem acceptedBy_of_acquire {ev : Event F} (hstep : r.step cfg g ev = some (r', .acquire))
    (hauth : cfg.authRequired = true) : r'.acceptedBy = g.digests := by
  generalize heffect : Effect.acquire = effect at hstep
  cases step_cases hstep with
  | middleware hmove =>
    cases hmove with
    | acquire _ hp ha _ =>
      cases hp with
      | accepted => rfl
      | unprotected hopen =>
        rw [Scope.protected_eq, ha, hauth] at hopen
        cases hopen
    | _ => cases heffect
  | app hmove =>
    cases hmove with
    | @registerDone _ l =>
      cases hrel : l.workDone.2 <;> rw [hrel] at heffect <;> cases heffect
    | _ => cases heffect
  | watcher => cases heffect
  | native _ hmove =>
    cases hmove with
    | observe o =>
      unfold finishNativeFuture at heffect
      split at heffect <;> cases heffect
    | _ => cases heffect

/-- Nobody authenticates a request twice. -/
theorem Gated.acceptedBy_of_leased {ev : Event F} (h : r.Gated cfg) (hl : r.lease.isSome = true)
    (hstep : r.step cfg g ev = some (r', effect)) : r'.acceptedBy = r.acceptedBy := by
  have hentry : r.middleware ≠ .entry := by
    intro hm
    rw [(h.entry hm).lease] at hl
    cases hl
  cases step_cases hstep with
  | middleware hmove =>
    cases hmove with
    | overloaded hm => exact absurd hm hentry
    | acquire hm => exact absurd hm hentry
    | _ => rfl
  | app hmove => cases hmove <;> rfl
  | watcher hmove => cases hmove <;> rfl
  | native _ hmove => cases hmove <;> rfl

end Request

namespace Application

variable {cfg : Config F} {s t : Application F}

/-- Every request of every run is gated. -/
theorem gated_exec {es : List (Event F)} (h : exec (step cfg) (init cfg) es = some s) :
    ∀ r ∈ s.requests, r.Gated cfg := by
  refine (exec_preserves (P := fun s ↦ Balanced cfg s ∧ ∀ r ∈ s.requests, r.Gated cfg) ?_ h
    ⟨balanced_init cfg, fun _ hr ↦ absurd hr List.not_mem_nil⟩).2
  rintro s e t ⟨hb, hg⟩ ht
  refine ⟨hb.step ht, ?_⟩
  cases step_cases ht with
  | arrive scope => exact forall_mem_snoc hg (Request.gated_new cfg scope)
  | request hr hstep =>
    have hmem := List.mem_of_getElem? hr
    exact forall_mem_set hg ((hg _ hmem).step (hb.ok _ hmem) hstep)
  | lifespan hmove =>
    rw [hmove.requests_eq]
    exact hg
  | _ => exact hg

/-- Somewhere in the run the request took a permit from the controller, and when authentication
is required its headers were accepted by the store of that moment. -/
def Acquired (cfg : Config F) (es : List (Event F)) (i : Nat) (r : Request F) : Prop :=
  ∃ es₁ ev es₂ m m' c, es = es₁ ++ Event.request i ev :: es₂ ∧
    exec (step cfg) (init cfg) es₁ = some m ∧ m.step cfg (.request i ev) = some m' ∧
    m.shared.admission.tryAcquire = some c ∧ m'.shared.admission = c ∧
    (cfg.authRequired = true → r.acceptedBy = m.shared.digests)

theorem Acquired.snoc {es : List (Event F)} {i : Nat} {r r' : Request F} (h : Acquired cfg es i r)
    (e : Event F) (hby : r'.acceptedBy = r.acceptedBy) : Acquired cfg (es ++ [e]) i r' := by
  obtain ⟨es₁, ev, es₂, m, m', c, rfl, h⟩ := h
  refine ⟨es₁, ev, es₂ ++ [e], m, m', c, ?_, ?_⟩
  · rw [List.append_assoc, List.cons_append]
  · rw [hby]
    exact h

/-- A lease was returned by `try_acquire`. -/
theorem acquired_exec {es : List (Event F)} (h : exec (step cfg) (init cfg) es = some s) :
    ∀ i r, s.requests[i]? = some r → r.lease.isSome = true → Acquired cfg es i r := by
  refine exec_induction (P := fun es s ↦ ∀ i r, s.requests[i]? = some r →
    r.lease.isSome = true → Acquired cfg es i r) ?_ ?_ h
  · intro i r hr
    cases hr
  · intro es s e t hrun ih ht i r hr hl
    have hkeep (hreq : t.requests = s.requests) : Acquired cfg (es ++ [e]) i r := by
      rw [hreq] at hr
      exact (ih i r hr hl).snoc e rfl
    cases step_cases ht with
    | arrive scope =>
      rcases getElem?_snoc_cases hr with hr | ⟨-, rfl⟩
      · exact (ih i r hr hl).snoc _ rfl
      · cases hl
    | @request j ev r₀ r₁ effect hr₀ hstep =>
      rcases getElem?_set_cases hr with ⟨rfl, rfl⟩ | ⟨-, hr⟩
      · by_cases heffect : effect = .acquire
        · subst heffect
          obtain ⟨c, hc⟩ := Request.tryAcquire_of_step hstep
          refine ⟨es, ev, [], s, _, c, rfl, hrun, ht, hc, ?_, Request.acceptedBy_of_acquire hstep⟩
          exact (AdmissionController.tryAcquire_eq_some.mp hc).2.2.symm
        · have hl₀ : r₀.lease.isSome = true := by
            rw [← Request.lease_isSome_of_step hstep heffect]
            exact hl
          have hgated := gated_exec hrun r₀ (List.mem_of_getElem? hr₀)
          exact (ih i r₀ hr₀ hl₀).snoc _ (hgated.acceptedBy_of_leased hl₀ hstep)
      · exact (ih i r hr hl).snoc _ rfl
    | lifespan hmove => exact hkeep hmove.requests_eq
    | tick => exact hkeep rfl
    | probe => exact hkeep rfl
    | shutdownRuntime => exact hkeep rfl
    | shutdownExecutor => exact hkeep rfl

/-! ### Reading the body -/

/-- Every message of a request with this scope that was taken from the client and carries a part
of the body was taken after authentication and with a lease. -/
def ReadsGated (cfg : Config F) (scope : Scope) : Prop :=
  ∀ (es : List (Event F)) (s : Application F) (i : Nat) (r : Request F),
    exec (step cfg) (init cfg) es = some s → s.requests[i]? = some r →
    r.scope = scope → r.scope.route ≠ .other →
    ∀ rd ∈ r.reads, ∀ chunk more, rd.message = .request chunk more →
      rd.leased = true ∧ ∃ k, rd.clientKeyId = some k ∧
        authenticate cfg.sha256 true r.acceptedBy r.scope.headers = some k

/-- A request that slips through reads its body at once. -/
def slippingRun (scope : Scope) : List (Event F) :=
  [.arrive scope, .request 0 (.middleware .enter), .request 0 (.app (.start ⟨404, "Not Found"⟩)),
    .request 0 (.app (.message (.request [] true)))]

/-- A silent step of the only request. -/
theorem step_only {g : Shared} {r r' : Request F} {ev : Request.Event F}
    (h : r.step cfg g ev = some (r', .none)) :
    ({ shared := g, requests := [r] } : Application F).step cfg (.request 0 ev) =
      some { shared := g, requests := [r'] } := by
  simp only [step, List.getElem?_cons_zero, Option.bind_some, h, Option.map_some, Shared.apply,
    List.set_cons_zero]

/-- Neither gate looks at such a request. -/
theorem slippingRun_reads (cfg : Config F) {scope : Scope} (h : scope.slipsThrough = true) :
    ∃ (s : Application F) (r : Request F),
      exec (step cfg) (init cfg) (slippingRun scope) = some s ∧ s.requests[0]? = some r ∧
      r.scope = scope ∧ r.reads = [⟨.request [] true, none, false⟩] := by
  obtain ⟨hroute, hout⟩ := Scope.slipsThrough_iff.mp h
  let r₁ : Request F := { scope, middleware := .through, app := .created }
  let r₂ : Request F := { r₁ with app := .reading [] }
  let r₃ : Request F := { r₂.logRead (.request [] true) with app := .reading [] }
  let g := (init cfg).shared
  have henter : Request.step cfg g { scope } (.middleware .enter) = some (r₁, .none) := by
    change some (Request.enter cfg g { scope }) = _
    rw [Request.enter, Scope.protected_eq, hout, Bool.false_and, if_neg Bool.false_ne_true,
      Request.admitRequest, if_neg (Bool.eq_false_iff.mp hout)]
  have hstart : r₁.step cfg g (.app (.start ⟨404, "Not Found"⟩)) = some (r₂, .none) := by
    cases hcase : scope.route with
    | other => exact absurd hcase hroute
    | predict => simp [Request.step, Request.appStep, r₁, r₂, hcase]
    | predictRaw => simp [Request.step, Request.appStep, r₁, r₂, hcase]
  have hread : r₂.step cfg g (.app (.message (.request [] true))) = some (r₃, .none) := rfl
  refine ⟨{ shared := g, requests := [r₃] }, r₃, ?_, rfl, rfl, rfl⟩
  refine exec_cons_eq_some.mpr ⟨{ shared := g, requests := [{ scope }] }, rfl, ?_⟩
  refine exec_cons_eq_some.mpr ⟨_, step_only henter, ?_⟩
  refine exec_cons_eq_some.mpr ⟨_, step_only hstart, ?_⟩
  exact exec_cons_eq_some.mpr ⟨_, step_only hread, rfl⟩

/-- With authentication required, the bodies of requests with a given scope are read only after
authentication and admission exactly when it is not one of those that only the router
recognises. -/
theorem body_read_behind_gates_iff (cfg : Config F) (hauth : cfg.authRequired = true)
    (scope : Scope) : ReadsGated cfg scope ↔ scope.slipsThrough = false := by
  constructor
  · intro h
    rw [Bool.eq_false_iff]
    intro hslip
    obtain ⟨s, r, hrun, hr, hscope, hreads⟩ := slippingRun_reads cfg hslip
    have hroute : r.scope.route ≠ .other := by
      rw [hscope]
      exact (Scope.slipsThrough_iff.mp hslip).1
    have hmem : (⟨.request [] true, none, false⟩ : ClientRead) ∈ r.reads := by simp [hreads]
    obtain ⟨hleased, -⟩ := h _ s 0 r hrun hr hscope hroute _ hmem [] true rfl
    cases hleased
  · rintro hslip es s i r hrun hr rfl - rd hrd - - -
    have hgated := gated_exec hrun r (List.mem_of_getElem? hr)
    rcases hgated.reads rd hrd with ⟨hleased, hkey⟩ | hthrough
    · obtain ⟨k, hk, haccepted⟩ := hkey hauth
      rw [hauth] at haccepted
      exact ⟨hleased, k, hk, haccepted⟩
    · rw [hslip] at hthrough
      cases hthrough

/-- The small server with authentication. -/
def guardedServer : Config Int := { unitServer with authRequired := true }

/-- It comes up with one key. -/
def guardedStartup : List (Event Int) :=
  [.lifespan (.startup { store := .ok [⟨"k", "#k.s"⟩], engine := "stub" }), .probe 0 .take,
    .probe 0 .predict, .probe 0 (.complete (.ok (0, [0]))), .lifespan .probeResumed]

/-- A raw prediction with the token of the key `k`. -/
def tokenScope : Scope :=
  { rawScope with headers := [(asciiBytes "Authorization", asciiBytes "Bearer k.s")] }

/-- A client with a token uploads its body. -/
def tokenRun : List (Event Int) := guardedStartup ++ unitSubmission 0 tokenScope [7, 0, 0, 0]

/-- Where it ends. -/
def tokenEnd : Application Int :=
  (exec (step guardedServer) (init guardedServer) tokenRun).get (by decide +kernel)

theorem tokenRun_eq : exec (step guardedServer) (init guardedServer) tokenRun = some tokenEnd :=
  (Option.some_get _).symm

theorem body_read_behind_gates_token :
    guardedServer.authRequired = true ∧ ReadsGated guardedServer tokenScope ∧
      (tokenEnd.requests.map (·.reads)) = [[⟨.request [7, 0, 0, 0] false, some "k", true⟩]] := by
  have hauth : guardedServer.authRequired = true := rfl
  exact ⟨hauth, (body_read_behind_gates_iff guardedServer hauth tokenScope).mpr (by decide +kernel),
    by decide +kernel⟩

/-- A raw prediction with a newline after its path. -/
def newlineScope : Scope := { rawScope with path := "/predict/raw\n" }

/-- A ready server with authentication reads a body that came without a token or a lease. -/
theorem newline_path_slips_through :
    ∃ s : Application Int, exec (step guardedServer) (init guardedServer)
        (guardedStartup ++ slippingRun newlineScope) = some s ∧ s.shared.ready = true ∧
      newlineScope.route = .predictRaw ∧
      s.requests.map (·.reads) = [[⟨.request [] true, none, false⟩]] := by
  refine ⟨(exec (step guardedServer) (init guardedServer)
    (guardedStartup ++ slippingRun newlineScope)).get (by decide +kernel),
    (Option.some_get _).symm, by decide +kernel, by decide +kernel, by decide +kernel⟩

/-! ### Reaching the engine -/

/-- Whenever a native call is submitted, the request's lease was returned by `try_acquire` and
has not been released, the deadline had not passed at the check, the array has the model's
number of elements, all of them finite, and when authentication is required the headers were
accepted under an id of the loaded store. -/
theorem submission_behind_gates (cfg : Config F) {es : List (Event F)} {s : Application F}
    (h : exec (step cfg) (init cfg) es = some s) {i : Nat} {r : Request F}
    (hr : s.requests[i]? = some r) {sub : Submission F} (hs : r.submission = some sub)
    (hsha : NoDummyToken cfg.sha256 r.scope.headers) :
    Acquired cfg es i r ∧ (∃ l, sub.lease = some l ∧ l.released = false) ∧
      sub.checkedAt < sub.deadline ∧ sub.array.length = cfg.inputElems ∧
      sub.array.all cfg.isfinite = true ∧
      (cfg.authRequired = true → ∃ k records, sub.clientKeyId = some k ∧
        r.acceptedBy = some records ∧
        authenticate cfg.sha256 true (some records) r.scope.headers = some k ∧
        k ∈ records.map (·.keyId)) := by
  have hmem := List.mem_of_getElem? hr
  obtain ⟨hl, hsub⟩ := (gated_exec h r hmem).submission sub hs
  refine ⟨acquired_exec h i r hr hl, hsub.lease, hsub.inTime, hsub.size, hsub.finite, ?_⟩
  intro hauth
  obtain ⟨k, hk, haccepted⟩ := hsub.authenticated hauth
  rw [hauth] at haccepted
  obtain ⟨records, hrecords, hin⟩ := authenticate_mem hsha haccepted
  rw [hrecords] at haccepted
  exact ⟨k, records, hk, hrecords, haccepted, hin⟩

theorem guardedServer_noDummyToken (headers : List (Bytes × Bytes)) :
    NoDummyToken guardedServer.sha256 headers := by
  intro keyId secret _ hdigest
  have hdigits : '#' :: (keyId ++ '.' :: secret) = '0' :: List.replicate 63 '0' :=
    String.ofList_injective hdigest
  have hhash : '#' = '0' := (List.cons.inj hdigits).1
  exact absurd hhash (by decide)

/-- The run above submits the four bytes it uploaded. -/
theorem submission_behind_gates_token :
    ∃ r sub, tokenEnd.requests[0]? = some r ∧ r.submission = some sub ∧ sub.array = [7] ∧
      NoDummyToken guardedServer.sha256 r.scope.headers ∧ Acquired guardedServer tokenRun 0 r ∧
      ∃ k records, sub.clientKeyId = some k ∧ r.acceptedBy = some records ∧
        k ∈ records.map (·.keyId) := by
  have harrays : tokenEnd.requests.map (fun r ↦ r.submission.map (·.array)) = [some [7]] := by
    decide +kernel
  obtain ⟨r, hreq, hsub⟩ := List.map_eq_singleton_iff.mp harrays
  obtain ⟨sub, hs, harray⟩ := Option.map_eq_some_iff.mp hsub
  have hr : tokenEnd.requests[0]? = some r := by rw [hreq]; rfl
  have hsha := guardedServer_noDummyToken r.scope.headers
  obtain ⟨hacq, -, -, -, -, hkey⟩ := submission_behind_gates guardedServer tokenRun_eq hr hs hsha
  obtain ⟨k, records, hk, hrecords, -, hin⟩ := hkey rfl
  exact ⟨r, sub, hr, hs, harray, hsha, hacq, k, records, hk, hrecords, hin⟩

end Application
end InferenceServer.Server
