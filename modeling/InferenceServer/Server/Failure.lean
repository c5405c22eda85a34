import InferenceServer.Batching.Rows
import InferenceServer.Server.Capacity

/-!
# Engine failures

Library `Server`. An exception of `run_inference` passes the scheduler's promise, pybind11 and
the two observers in Python, `routes.py:34–54` and `app.py:152–168`. Both observers look for the
registered `InferenceError`, so exactly that kind takes the server out of service.
-/

namespace InferenceServer.Server

open InferenceServer.Base InferenceServer.Engine InferenceServer.Batching

variable {F : Type}

/-! ### Steps that grant no lease -/

namespace Request

/-- Only an acquisition gives a request a lease. -/
theorem lease_isSome_of_step {cfg : Config F} {g : Shared} {r r' : Request F} {effect : Effect}
    {ev : Event F} (h : r.step cfg g ev = some (r', effect)) (he : effect ≠ .acquire) :
    r'.lease.isSome = r.lease.isSome := by
  cases step_cases h with
  | middleware hmove =>
    cases hmove with
    | overloaded _ hp => cases hp <;> rfl
    | acquire => exact absurd rfl he
    | finishHttp _ l hl => rw [hl]; rfl
    | _ => rfl
  | app hmove =>
    cases hmove with
    | attach _ hl => rw [hl]; rfl
    | registerDone _ hl => rw [hl]; rfl
    | _ => rfl
  | watcher hmove => cases hmove <;> rfl
  | native _ hmove =>
    cases hmove with
    | callback _ _ hl => rw [hl]; rfl
    | _ => rfl

end Request

namespace Application

variable {cfg : Config F} {s t : Application F}

/-- Ready, with an open controller. -/
def InService (s : Application F) : Prop :=
  s.shared.ready = true ∧ s.shared.admission.closed = false

/-- Not ready, with a closed controller. -/
def OutOfService (s : Application F) : Prop :=
  s.shared.ready = false ∧ s.shared.admission.closed = true

theorem apply_closed (g : Shared) (effect : Effect) (h : g.admission.closed = true) :
    (g.apply effect).admission.closed = true := by
  cases effect with
  | outOfService => rfl
  | _ => exact h

theorem apply_ready (g : Shared) (effect : Effect) (h : g.ready = false) :
    (g.apply effect).ready = false := by
  cases effect with
  | outOfService => rfl
  | _ => exact h

theorem stopExecutor_ready (s : Application F) :
    (s.stopExecutor cfg).shared.ready = s.shared.ready := by
  unfold stopExecutor
  split <;> rfl

theorem stopRuntime_ready (s : Application F) :
    (s.stopRuntime cfg).shared.ready = s.shared.ready := by
  unfold stopRuntime
  split
  · rfl
  · exact stopExecutor_ready s

/-- The lifespan sets `ready` only where it goes on from the probe. -/
theorem LifespanMove.ready_eq {ev : LifespanEvent} (h : LifespanMove cfg s ev t)
    (hs : s.shared.ready = false) (hev : ev ≠ .probeResumed) : t.shared.ready = false := by
  cases h with
  | ready => exact absurd rfl hev
  | stopRuntime => rwa [stopRuntime_ready]
  | joinCancelled => rwa [stopRuntime_ready]
  | stopExecutor => rwa [stopExecutor_ready]
  | startFails => rfl
  | startRefused => rfl
  | startProbe => rfl
  | stop => rfl
  | _ => exact hs

/-- What one step keeps of a closed controller. -/
structure StaysClosed (s t : Application F) : Prop where
  closed : t.shared.admission.closed = true
  leases : ∀ (i : Nat) (r : Request F), t.requests[i]? = some r → r.lease.isSome = true →
    ∃ r₀, s.requests[i]? = some r₀ ∧ r₀.lease.isSome = true

theorem StaysClosed.frame (hr : t.requests = s.requests)
    (hc : t.shared.admission.closed = true) : StaysClosed s t where
  closed := hc
  leases _ r hi hl := ⟨r, hr ▸ hi, hl⟩

theorem StaysClosed.trans {u : Application F} (h : StaysClosed s t) (h' : StaysClosed t u) :
    StaysClosed s u where
  closed := h'.closed
  leases i r hi hl := by
    obtain ⟨r₁, hr₁, hl₁⟩ := h'.leases i r hi hl
    exact h.leases i r₁ hr₁ hl₁

/-- A controller once closed stays closed, and no request gets a lease from it. -/
theorem staysClosed_step (h : s.shared.admission.closed = true) {e : Event F}
    (ht : s.step cfg e = some t) : StaysClosed s t := by
  cases step_cases ht with
  | arrive scope =>
    refine ⟨h, ?_⟩
    intro i r hi hl
    rcases getElem?_snoc_cases hi with hi | ⟨-, rfl⟩
    · exact ⟨r, hi, hl⟩
    · cases hl
  | @request i ev r r' effect hr hstep =>
    refine ⟨apply_closed _ _ h, ?_⟩
    intro j r₁ hj hl
    rcases getElem?_set_cases hj with ⟨rfl, rfl⟩ | ⟨-, hj⟩
    · refine ⟨r, hr, ?_⟩
      rw [← Request.lease_isSome_of_step hstep]
      · exact hl
      · rintro rfl
        obtain ⟨c, hc⟩ := Request.tryAcquire_of_step hstep
        have hopen := (AdmissionController.tryAcquire_eq_some.mp hc).1
        rw [h] at hopen
        cases hopen
    · exact ⟨r₁, hj, hl⟩
  | lifespan hmove =>
    apply StaysClosed.frame hmove.requests_eq
    rcases hmove.admission_eq with heq | heq
    · rw [heq]
      exact h
    · rw [heq]
      rfl
  | tick => exact .frame rfl h
  | probe => exact .frame rfl h
  | shutdownRuntime => exact .frame rfl h
  | shutdownExecutor => exact .frame rfl h

/-- The same for a whole run. -/
theorem staysClosed_exec {es : List (Event F)} (h : exec (step cfg) s es = some t)
    (hs : s.shared.admission.closed = true) : StaysClosed s t := by
  refine exec_preserves (P := fun u ↦ StaysClosed s u) ?_ h (.frame rfl hs)
  intro u e v hu hv
  exact hu.trans (staysClosed_step hu.closed hv)

/-- `ready` stays false until a startup goes on from its probe. -/
theorem ready_step (hs : s.shared.ready = false) {e : Event F} (he : e ≠ .lifespan .probeResumed)
    (ht : s.step cfg e = some t) : t.shared.ready = false := by
  cases step_cases ht with
  | request => exact apply_ready _ _ hs
  | lifespan hmove => exact hmove.ready_eq hs fun hev ↦ he (by rw [hev])
  | _ => exact hs

/-! ### Observing a failure -/

/-- Observing a native result changes what all share as `_finish_native_future` says. -/
theorem observe_shared {i : Nat} {r : Request F} {w : Work F}
    (hr : s.requests[i]? = some r) (hw : r.work = some w)
    (h : s.step cfg (.request i (.native .observe)) = some t) :
    ∃ o, w.outcome = some o ∧ t.shared = s.shared.apply (Request.finishNativeFuture o) := by
  simp only [step, hr, Request.step, hw, Option.bind_some, Option.map_eq_some_iff] at h
  obtain ⟨⟨r', effect⟩, hstep, rfl⟩ := h
  simp only [Request.nativeStep] at hstep
  split at hstep
  · obtain ⟨o, ho, heq⟩ := Option.map_eq_some_iff.mp hstep
    refine ⟨o, ho, ?_⟩
    rw [(Prod.mk.inj heq).2]
  · cases hstep

/-- The observer of an `InferenceError` takes the server out of service, and a server that is in
service is taken out by nothing else. -/
theorem outOfService_apply {ex : CppException}
    (hshared : t.shared =
      s.shared.apply (Request.finishNativeFuture (F := F) (.error (pybind ex)))) :
    ((∃ what, ex = .inferenceError what) → t.OutOfService) ∧
      (s.InService → t.OutOfService → ∃ what, ex = .inferenceError what) := by
  constructor
  · rintro ⟨what, rfl⟩
    rw [OutOfService, hshared]
    exact ⟨rfl, rfl⟩
  · intro hin hoos
    cases ex with
    | inferenceError what => exact ⟨what, rfl⟩
    | _ =>
      -- the observer does nothing
      rw [OutOfService, hshared] at hoos
      exact absurd (hin.1.symm.trans hoos.1) (by decide)

/-- A request whose batch throws, up to the completion of its native future. -/
def failedCall (ex : CppException) : List (Event Int) :=
  unitStartup ++ unitSubmission 0 rawScope [7, 0, 0, 0] ++
    ([.request 0 (.native (.advance .take)), .request 0 (.native (.advance .predict)),
      .request 0 (.native (.advance (.complete (.error ex)))), .request 0 (.native .callback),
      .request 0 (.native .chain)] : List (Event Int))

/-- Model errors and device errors, with the messages of `translate_ort_errors` and
`cuda_check`. -/
def modelError : CppException := .inferenceError "ONNX Runtime inference failed (bound)"
def deviceError : CppException :=
  .cudaError "cudaStreamSynchronize (post-Run): an illegal memory access was encountered"

end Application
end InferenceServer.Server
