import InferenceServer.Server.Pool

/-!
# Engine failures in a deployment

Library `Server`. An exception of `run_inference` is handed to every promise of its batch
(`scheduler.cpp:233–245`), comes out of `future.get()` in `predict` (`module.cpp:86–93`) and is seen
by the observer of the native future (`routes.py:34–54`). A call whose request its scheduler
accepted ends with what its promise was resolved with, so the observer sees what the engine threw.
-/

namespace InferenceServer.Server.Deployment

open InferenceServer.Base InferenceServer.Engine InferenceServer.Batching

variable {F : Type} {cfg : DeploymentConfig F} {s t : Deployment F}

/-! ### What a call ends with -/

/-- If its scheduler accepted its request, a call ends with what its promise was resolved with. -/
def CallSettled (s : Deployment F) (c : CallId) : Prop :=
  ∀ w d req out, s.app.call c = some w → s.schedulers[w.runtime]? = some d →
    (req, .ok ()) ∈ d.submits → s.promises.lookup c = some req.resultPromise →
    w.outcome = some out → ∃ o, (req.resultPromise, o) ∈ d.resolved ∧
      out = nativeResult (o.map fun res ↦ (res.requestId, res.logits))

/-- A step that leaves the call's promise and result alone. -/
theorem CallSettled.mono {c : CallId} (h : s.CallSettled c) (hb : s.CallBound c)
    (hm : Move cfg s t) (ht : t.Wired cfg) {taken : Prop}
    (hc : CallMoves taken (s.app.call c) (t.app.call c))
    (hp : t.promises.lookup c = s.promises.lookup c) : t.CallSettled c := by
  intro w' d' req out hw' hd' hsub hlookup hout
  rw [hp] at hlookup
  obtain ⟨w, d, req₀, res₀, hw, -, hd, hsub₀, hpromise, -⟩ := hb.submitted _ hlookup
  obtain ⟨d₁, hd₁, hgrows⟩ := hm.grows hd
  rw [hw, hw'] at hc
  cases hc with
  | kept ha =>
    rw [ha.runtime, hd₁] at hd'
    obtain rfl := Option.some.inj hd'
    -- the promise names its request
    have hsame := (ht.inv _ (List.mem_of_getElem? hd₁)).promise_inj (hgrows.submits _ hsub₀) hsub
      hpromise
    rw [hsame] at hsub₀
    rw [ha.outcome] at hout
    obtain ⟨o, hres, rfl⟩ := h w d req out hw hd hsub₀ hlookup hout
    exact ⟨o, hgrows.resolved _ hres, rfl⟩

/-- The call reaches `scheduler_.submit`: it goes on to wait, or its request is refused. -/
theorem CallSettled.submit {c : CallId} {w : Work F} {app : Application F} {d : Scheduler F}
    (hb : s.CallBound c) (hf : s.Flagged) (hw : s.app.call c = some w)
    (hstep : s.app.step cfg.toConfig (c.event .predict) = some app)
    (hlen : w.array.length = cfg.inputElems) (hd : s.schedulers[w.runtime]? = some d)
    (hi : d.Inv cfg.scheduler) (requestId : Nat) (arrivalTime : Int) :
    CallSettled
      { s with
        app
        schedulers := s.schedulers.set w.runtime (d.submit requestId w.array arrivalTime)
        promises := s.promises ++ [(c, d.submits.length)] } c := by
  obtain ⟨w', hadv, hw', -⟩ := Application.call_event hw hstep
  have hrunning : w.phase = .running := by
    cases Work.advance_cases hadv <;> assumption
  have hpending := hb.pending w hw (by rw [hrunning]; rfl)
  have hafter : w'.runtime = w.runtime ∧
      (w'.outcome = none ∨ d.queue.stopRequested = true) := by
    rw [hf _ d hd]
    simp only [Work.advance, hrunning, hlen, ne_eq, not_true_eq_false, if_true, if_false] at hadv
    split at hadv
    · next hstop =>
      cases hadv
      exact ⟨rfl, .inr hstop⟩
    · cases hadv
      exact ⟨rfl, .inl hpending⟩
  intro x y req out hx hy hsub hlookup hout
  change app.call c = some x at hx
  cases hw'.symm.trans hx
  rcases hafter.2 with hnone | hstop
  · rw [hnone] at hout
    cases hout
  · -- the only request with this promise is the one that was refused
    change (s.promises ++ [(c, d.submits.length)]).lookup c = some req.resultPromise at hlookup
    rw [lookup_snoc_self _ (hb.lookup_eq_none hw hrunning)] at hlookup
    change (s.schedulers.set w.runtime (d.submit requestId w.array arrivalTime))[w'.runtime]? =
      some y at hy
    rw [hafter.1, List.getElem?_set_self (List.getElem?_eq_some_iff.mp hd).1,
      Scheduler.submit_stopped _ _ _ _ hstop] at hy
    obtain rfl := Option.some.inj hy
    have hstopped : d.step cfg.scheduler (.submit requestId w.array arrivalTime) =
        some (d.submit requestId w.array arrivalTime) := rfl
    have hi' := Scheduler.inv_step cfg.maxBatchSize_pos hi hstopped
    rw [Scheduler.submit_stopped _ _ _ _ hstop] at hi'
    have hsame := hi'.promise_inj hsub (List.mem_append_right _ (List.mem_singleton.mpr rfl))
      (Option.some.inj hlookup).symm
    cases (Prod.mk.inj hsame).2

/-- `future.get()` returns. -/
theorem CallSettled.complete {c : CallId} {w : Work F} {app : Application F} {d : Scheduler F}
    {p : Nat} {o : Outcome F} (hw : s.app.call c = some w)
    (hd : s.schedulers[w.runtime]? = some d) (hp : s.promises.lookup c = some p)
    (ho : d.resolved.lookup p = some o)
    (hstep : s.app.step cfg.toConfig
      (c.event (.complete (o.map fun res ↦ (res.requestId, res.logits)))) = some app) :
    CallSettled { s with app } c := by
  obtain ⟨w', hadv, hw', -⟩ := Application.call_event hw hstep
  have hafter : w'.runtime = w.runtime ∧
      w'.outcome = some (nativeResult (o.map fun res ↦ (res.requestId, res.logits))) := by
    cases Work.advance_cases hadv
    exact ⟨rfl, rfl⟩
  intro x y req out hx hy hsub hlookup hout
  change app.call c = some x at hx
  cases hw'.symm.trans hx
  cases hp.symm.trans hlookup
  change s.schedulers[w'.runtime]? = some y at hy
  rw [hafter.1, hd] at hy
  obtain rfl := Option.some.inj hy
  cases hafter.2.symm.trans hout
  obtain ⟨l₁, l₂, hsplit, -⟩ := List.lookup_eq_some_iff.mp ho
  refine ⟨o, ?_, rfl⟩
  rw [hsplit]
  exact List.mem_append_right _ List.mem_cons_self

/-- What ties the result of a call to the engine. -/
structure Settled (cfg : DeploymentConfig F) (s : Deployment F) : Prop where
  wired : s.Wired cfg
  bound : s.Bound cfg
  flagged : s.Flagged
  ordered : ∀ d ∈ s.schedulers, d.CallsInOrder
  calls : ∀ c, s.CallSettled c

theorem settled_init (cfg : DeploymentConfig F) : (init cfg).Settled cfg where
  wired := wired_init cfg
  bound := bound_init cfg
  flagged := flagged_init cfg
  ordered _ hd := absurd hd List.not_mem_nil
  calls c := by
    intro w _ _ _ hw
    cases c <;> cases hw

theorem Settled.calls_step (h : s.Settled cfg) (hm : Move cfg s t) (ht : t.Wired cfg) :
    ∀ c, t.CallSettled c := by
  intro c'
  have mono {taken : Prop} (hc : CallMoves taken (s.app.call c') (t.app.call c'))
      (hp : t.promises.lookup c' = s.promises.lookup c') : t.CallSettled c' :=
    (h.calls c').mono (h.bound.calls c') hm ht hc hp
  have calm {o o' : Option (Work F)} (heq : o' = o) : CallMoves False o o' := .of_eq heq
  cases hm with
  | app hl hstep => exact mono (Application.call_moves h.bound.balanced.ok hstep hl c') rfl
  | @missized c w a hw hstep hlen =>
    obtain ⟨w', hadv, hw', hother⟩ := Application.call_event hw hstep
    by_cases hc : c' = c
    · subst hc
      have hrunning : w.phase = .running := by
        cases Work.advance_cases hadv <;> assumption
      intro _ _ _ _ _ _ _ hlookup
      exact absurd (((h.bound.calls c').lookup_eq_none hw hrunning).symm.trans hlookup)
        (by rintro ⟨⟩)
    · exact mono (calm (hother c' hc)) rfl
  | @submit c w a d hw hstep hlen hd requestId arrivalTime =>
    obtain ⟨-, -, -, hother⟩ := Application.call_event hw hstep
    by_cases hc : c' = c
    · subst hc
      exact .submit (h.bound.calls c') h.flagged hw hstep hlen hd
        (h.wired.inv d (List.mem_of_getElem? hd)) requestId arrivalTime
    · exact mono (calm (hother c' hc)) (lookup_snoc_ne hc _)
  | @complete c w a d p o hw hd hp ho hstep =>
    obtain ⟨-, -, -, hother⟩ := Application.call_event hw hstep
    by_cases hc : c' = c
    · subst hc
      exact .complete hw hd hp ho hstep
    · exact mono (calm (hother c' hc)) rfl
  | scheduler => exact mono (calm rfl) rfl
  | shutdown hd hstep happ =>
    cases Application.step_cases happ with
    | shutdownRuntime => exact mono (calm rfl) rfl

theorem Settled.step (h : s.Settled cfg) {e : Event F} (ht : s.step cfg e = some t) :
    t.Settled cfg := by
  have hm := step_cases ht
  have hw := h.wired.step hm
  refine ⟨hw, h.bound.step hm, h.flagged.step h.wired ht, ?_, h.calls_step hm hw⟩
  refine hm.schedulers h.wired ?_ ?_ h.ordered
  · exact List.Sublist.refl _
  · intro d e d' _ hd hd'
    exact Scheduler.callsInOrder_step hd hd'

theorem settled_exec {es : List (Event F)} (h : exec (step cfg) (init cfg) es = some s) :
    s.Settled cfg :=
  exec_preserves (fun _ _ _ hs ht ↦ hs.step ht) h (settled_init cfg)

/-- A request whose batch threw ends with what the engine threw. -/
theorem Settled.outcome_of_throw (h : s.Settled cfg) {c : CallId} {w : Work F} {d : Scheduler F}
    (hw : s.app.call c = some w) (hd : s.schedulers[w.runtime]? = some d) {call : EngineCall F}
    (hc : call ∈ d.calls) {ex : CppException} (hthrow : call.answer = .error ex)
    {req : InferenceRequest F} (hreq : req ∈ call.drained)
    (hp : s.promises.lookup c = some req.resultPromise) {out : NativeResult F}
    (hout : w.outcome = some out) : out = .error (pybind ex) := by
  have hmem := List.mem_of_getElem? hd
  have hi := h.wired.inv d hmem
  have hsub := hi.submits_of_drained (hi.called call hc).drained hreq
  obtain ⟨o, hres, rfl⟩ := h.calls c w d req out hw hd hsub hp hout
  obtain rfl := hi.resolved_throw (h.ordered d hmem) hc hthrow hreq
    (h.wired.sized d hmem _ hsub) hres
  rfl

/-! ### After a failure -/

/-- While the controller is closed no request gets a lease, whatever the schedulers do. -/
theorem staysClosed_exec {es : List (Event F)} (h : exec (step cfg) s es = some t)
    (hs : s.app.shared.admission.closed = true) : s.app.StaysClosed t.app := by
  refine exec_preserves (P := fun u ↦ s.app.StaysClosed u.app) ?_ h (.frame rfl hs)
  intro u e v hu hv
  rcases app_of_step hv with heq | ⟨ev, hev, -⟩
  · rw [heq]
    exact hu
  · exact hu.trans (Application.staysClosed_step hu.closed hev)

/-- `ready` stays false until a startup goes on from its probe. -/
theorem ready_exec {es : List (Event F)} (h : exec (step cfg) s es = some t)
    (hs : s.app.shared.ready = false) (hes : .app (.lifespan .probeResumed) ∉ es) :
    t.app.shared.ready = false := by
  induction es generalizing s with
  | nil =>
    cases h
    exact hs
  | cons e es ih =>
    obtain ⟨m, hm, ht⟩ := exec_cons_eq_some.mp h
    rw [List.mem_cons, not_or] at hes
    refine ih ht ?_ hes.2
    rcases app_of_step hm with heq | ⟨ev, hev, -, hprobe⟩
    · rw [heq]
      exact hs
    · refine Application.ready_step hs ?_ hev
      rintro rfl
      exact hes.1 (hprobe rfl).symm

/-- The engine throws `ex`, and the native future of a request of that batch is observed. If `ex` is
an `InferenceError` the server is out of service then; if it was in service, it goes out of service
for no other exception. Once it is out of service no request is admitted, and `/readyz` answers 503
until a startup goes on from its probe. -/
theorem engine_failure_outOfService {es : List (Event F)}
    (hrun : exec (step cfg) (init cfg) es = some s) {i : Nat} {r : Request F} {w : Work F}
    (hr : s.app.requests[i]? = some r) (hw : r.work = some w) {d : Scheduler F}
    (hd : s.schedulers[w.runtime]? = some d) {c : EngineCall F} (hc : c ∈ d.calls)
    {ex : CppException} (hthrow : c.answer = .error ex) {req : InferenceRequest F}
    (hreq : req ∈ c.drained) (hp : s.promises.lookup (.request i) = some req.resultPromise)
    (hobs : s.step cfg (.app (.request i (.native .observe))) = some t) :
    ((∃ what, ex = .inferenceError what) → t.app.OutOfService) ∧
      (s.app.InService → (t.app.OutOfService ↔ ∃ what, ex = .inferenceError what)) ∧
      (t.app.OutOfService → ∀ (fs : List (Event F)) (u : Deployment F),
        exec (step cfg) t fs = some u →
          u.app.shared.admission.closed = true ∧
            (∀ (j : Nat) (r' : Request F), u.app.requests[j]? = some r' →
              r'.lease.isSome = true →
                ∃ r₀, t.app.requests[j]? = some r₀ ∧ r₀.lease.isSome = true) ∧
            (.app (.lifespan .probeResumed) ∉ fs →
              u.app.shared.ready = false ∧ u.app.shared.readyz = 503)) := by
  have hcall : s.app.call (.request i) = some w := by
    rw [Application.call, hr, Option.bind_some, hw]
  have happ : s.app.step cfg.toConfig (.request i (.native .observe)) = some t.app := by
    simp only [step] at hobs
    split at hobs
    · obtain ⟨app, happ, rfl⟩ := Option.map_eq_some_iff.mp hobs
      exact happ
    · cases hobs
  obtain ⟨out, hout, hshared⟩ := Application.observe_shared hr hw happ
  obtain rfl := (settled_exec hrun).outcome_of_throw hcall hd hc hthrow hreq hp hout
  obtain ⟨hleaves, honly⟩ := Application.outOfService_apply hshared
  refine ⟨hleaves, fun hin ↦ ⟨honly hin, hleaves⟩, ?_⟩
  intro hoos fs u hu
  have hclosed := staysClosed_exec hu hoos.2
  refine ⟨hclosed.closed, hclosed.leases, ?_⟩
  intro hfs
  have hready := ready_exec hu hoos.1 hfs
  refine ⟨hready, ?_⟩
  rw [Shared.readyz, hready]
  rfl

/-- Scheduler 0 takes a batch of one request, and the engine throws. -/
def throwingBatch (ex : CppException) : List (Event Int) :=
  ([.poll, .expire, .poll, .filter, .filter, .account 0, .infer (.error ex) 0, .fail] :
    List (Batching.Event Int)).map (.scheduler 0)

/-- The server comes up, and the engine throws on the batch of its first request. The native future
completes. -/
def failedService (ex : CppException) : List (Event Int) :=
  [[.app (.lifespan (.startup { store := .ok [], engine := "stub" })), .app (.probe 0 .take),
      .predict (.probe 0) 0 0],
    unitBatch 0, [.complete (.probe 0), .app (.lifespan .probeResumed)],
    (Application.unitSubmission 0 Application.rawScope [7, 0, 0, 0]).map .app,
    [.app (.request 0 (.native (.advance .take))), .predict (.request 0) 1 0], throwingBatch ex,
    [.complete (.request 0), .app (.request 0 (.native .callback)),
      .app (.request 0 (.native .chain))]].flatten

/-- Where the server is when the engine threw a model error. -/
def modelErrorCompleted : Deployment Int :=
  (exec (step unitDeployment) (init unitDeployment) (failedService Application.modelError)).get
    (by decide +kernel)

/-- The request of the batch that threw. -/
def modelErrorInput : InferenceRequest Int :=
  { requestId := 1, inputData := [7], arrivalTime := 0, resultPromise := 1 }

theorem engine_failure_modelError :
    exec (step unitDeployment) (init unitDeployment) (failedService Application.modelError) =
        some modelErrorCompleted ∧ modelErrorCompleted.app.InService ∧
      ∃ t, modelErrorCompleted.step unitDeployment (.app (.request 0 (.native .observe))) = some t ∧
        t.app.OutOfService ∧ ∀ (fs : List (Event Int)) (u : Deployment Int),
          exec (step unitDeployment) t fs = some u → u.app.shared.admission.closed = true := by
  have hrun : exec (step unitDeployment) (init unitDeployment)
      (failedService Application.modelError) = some modelErrorCompleted := (Option.some_get _).symm
  have hin : modelErrorCompleted.app.InService := by
    unfold Application.InService
    decide +kernel
  have hobs : (modelErrorCompleted.step unitDeployment
      (.app (.request 0 (.native .observe)))).isSome = true := by decide +kernel
  have hfacts : (modelErrorCompleted.app.requests[0]?.bind fun r ↦ r.work.bind fun w ↦
      modelErrorCompleted.schedulers[w.runtime]?.bind fun d ↦ d.calls[1]?.map fun c ↦
        decide (c.answer = .error Application.modelError ∧ c.drained = [modelErrorInput])) =
          some true := by decide +kernel
  simp only [Option.bind_eq_some_iff, Option.map_eq_some_iff, decide_eq_true_eq] at hfacts
  obtain ⟨r, hr, w, hw, d, hd, c, hc, hthrow, hdrained⟩ := hfacts
  have hp : modelErrorCompleted.promises.lookup (.request 0) =
      some modelErrorInput.resultPromise := by decide +kernel
  obtain ⟨t, ht⟩ := Option.isSome_iff_exists.mp hobs
  have hreq : modelErrorInput ∈ c.drained := by
    rw [hdrained]
    exact List.mem_singleton.mpr rfl
  obtain ⟨hleaves, -, hafter⟩ := engine_failure_outOfService hrun hr hw hd (List.mem_of_getElem? hc)
    hthrow hreq hp ht
  have hoos := hleaves ⟨_, rfl⟩
  exact ⟨hrun, hin, t, ht, hoos, fun fs u hu ↦ (hafter hoos fs u hu).1⟩

/-- The device error is observed by both observers, the request ends, and the next one comes. -/
def deviceErrorRun : List (Event Int) :=
  failedService Application.deviceError ++
    ([.request 0 (.native .observe), .request 0 (.app .resume), .request 0 (.middleware .resume),
      .request 0 (.watcher .cancelled), .request 0 (.middleware .resume),
      .request 0 (.middleware .resume), .request 0 (.middleware .resume),
      .request 0 (.middleware .finishHttp), .request 0 (.middleware .release),
      .arrive Application.rawScope, .request 1 (.middleware .enter)] :
        List (Application.Event Int)).map .app

/-- Where the server ends. -/
def deviceErrorEnd : Deployment Int :=
  (exec (step unitDeployment) (init unitDeployment) deviceErrorRun).get (by decide +kernel)

/-- After a CUDA failure the server says it is ready and admits the next prediction. -/
theorem deviceError_keeps_serving :
    exec (step unitDeployment) (init unitDeployment) deviceErrorRun = some deviceErrorEnd ∧
      deviceErrorEnd.schedulers.map (fun d ↦ d.calls[1]?.map (·.answer)) =
        [some (.error Application.deviceError)] ∧
      deviceErrorEnd.schedulers.map (fun d ↦ d.resolved.lookup 1) =
        [some (.error Application.deviceError)] ∧
      deviceErrorEnd.promises.lookup (.request 0) = some 1 ∧
      deviceErrorEnd.app.requests.map (fun r ↦ r.work.bind (·.outcome)) =
        [some (nativeResult (.error Application.deviceError)), none] ∧
      deviceErrorEnd.app.requests.map (fun r ↦ r.work.any (·.observed)) = [true, false] ∧
      deviceErrorEnd.app.shared.readyz = 200 ∧
      deviceErrorEnd.app.shared.admission.closed = false ∧
      deviceErrorEnd.app.requests.map (fun r ↦ (r.middleware, r.lease.isSome)) =
        [(.done, true), (.uploadTop, true)] := by
  refine ⟨(Option.some_get _).symm, ?_, ?_, ?_, ?_, ?_, ?_, ?_, ?_⟩ <;> decide +kernel

end InferenceServer.Server.Deployment
