import InferenceServer.Base.Components
import InferenceServer.Server.ApplicationMoves
import InferenceServer.Server.Permits

/-!
# The admission cap

Library `Server`. In every state the controller's count is the number of requests that hold a
permit, so the cap bounds the native calls as well as the HTTP requests.
-/

namespace InferenceServer.Server.Application

open InferenceServer.Base

variable {F : Type} {cfg : Config F} {s t : Application F}

/-! ### What the lifespan leaves alone -/

theorem stopExecutor_requests (s : Application F) :
    (s.stopExecutor cfg).requests = s.requests := by
  unfold stopExecutor
  split <;> rfl

theorem stopExecutor_admission (s : Application F) :
    (s.stopExecutor cfg).shared.admission = s.shared.admission := by
  unfold stopExecutor
  split <;> rfl

theorem stopRuntime_requests (s : Application F) :
    (s.stopRuntime cfg).requests = s.requests := by
  unfold stopRuntime
  split
  · rfl
  · exact stopExecutor_requests s

theorem stopRuntime_admission (s : Application F) :
    (s.stopRuntime cfg).shared.admission = s.shared.admission := by
  unfold stopRuntime
  split
  · rfl
  · exact stopExecutor_admission s

/-- The lifespan changes no request. -/
theorem LifespanMove.requests_eq {ev : LifespanEvent} (h : LifespanMove cfg s ev t) :
    t.requests = s.requests := by
  cases h with
  | stopRuntime => exact stopRuntime_requests s
  | joinCancelled => exact stopRuntime_requests s
  | stopExecutor => exact stopExecutor_requests s
  | _ => rfl

/-- To the controller the lifespan does nothing but close it. -/
theorem LifespanMove.admission_eq {ev : LifespanEvent} (h : LifespanMove cfg s ev t) :
    t.shared.admission = s.shared.admission ∨ t.shared.admission = s.shared.admission.close := by
  cases h with
  | startFails => exact .inr rfl
  | startRefused => exact .inr rfl
  | stop => exact .inr rfl
  | stopRuntime => exact .inl (stopRuntime_admission s)
  | joinCancelled => exact .inl (stopRuntime_admission s)
  | stopExecutor => exact .inl (stopExecutor_admission s)
  | _ => exact .inl rfl

/-! ### The invariant -/

/-- Every request's lease is in order and the controller counts the permits in use. -/
structure Balanced (cfg : Config F) (s : Application F) : Prop where
  ok : ∀ r ∈ s.requests, r.Ok
  inflight : s.shared.admission.inflight = (s.requests.countP Request.unfinished : Int)
  capacity : s.shared.admission.capacity = cfg.maxInflightRequests
  le : s.shared.admission.inflight ≤ s.shared.admission.capacity

theorem balanced_init (cfg : Config F) : Balanced cfg (init cfg) where
  ok _ hr := absurd hr List.not_mem_nil
  inflight := rfl
  capacity := rfl
  le := by
    change (0 : Int) ≤ (cfg.maxInflightRequests : Int)
    omega

/-- Steps that change no request and neither field of the controller. -/
theorem Balanced.frame (h : Balanced cfg s) (hr : t.requests = s.requests)
    (hi : t.shared.admission.inflight = s.shared.admission.inflight)
    (hc : t.shared.admission.capacity = s.shared.admission.capacity) : Balanced cfg t where
  ok := by
    rw [hr]
    exact h.ok
  inflight := by
    rw [hi, hr]
    exact h.inflight
  capacity := hc.trans h.capacity
  le := by
    rw [hi, hc]
    exact h.le

/-- A step of one request. -/
theorem Balanced.request (h : Balanced cfg s) {i : Nat} {r r' : Request F} {effect : Effect}
    {ev : Request.Event F} (hr : s.requests[i]? = some r)
    (hstep : r.step cfg s.shared ev = some (r', effect)) :
    Balanced cfg { s with shared := s.shared.apply effect, requests := s.requests.set i r' } := by
  have hacc := (h.ok r (List.mem_of_getElem? hr)).step hstep
  have hinflight : (s.shared.apply effect).admission.inflight =
      s.shared.admission.inflight + effect.permits := by
    cases effect with
    | acquire => rfl
    | release => rfl
    | none => exact (Int.add_zero _).symm
    | outOfService => exact (Int.add_zero _).symm
  have hcapacity : (s.shared.apply effect).admission.capacity = s.shared.admission.capacity := by
    cases effect <;> rfl
  refine ⟨forall_mem_set h.ok hacc.ok, ?_, hcapacity.trans h.capacity, ?_⟩
  · have hpermits := hacc.permits
    rw [hinflight, h.inflight, countP_set_eq hr]
    omega
  · rw [hinflight, hcapacity]
    have hle := h.le
    cases effect with
    | acquire =>
      obtain ⟨c, hc⟩ := Request.tryAcquire_of_step hstep
      have hlt := (AdmissionController.tryAcquire_eq_some.mp hc).2.1
      change s.shared.admission.inflight + 1 ≤ _
      omega
    | release =>
      change s.shared.admission.inflight + -1 ≤ _
      omega
    | none => rwa [Effect.permits, Int.add_zero] <;> nofun
    | outOfService => rwa [Effect.permits, Int.add_zero] <;> nofun

/-- Every step of the application. -/
theorem Balanced.step (h : Balanced cfg s) {e : Event F} (ht : s.step cfg e = some t) :
    Balanced cfg t := by
  cases step_cases ht with
  | arrive scope =>
    refine ⟨forall_mem_snoc h.ok (Request.ok_new scope), ?_, h.capacity, h.le⟩
    rw [List.countP_append, List.countP_singleton]
    exact h.inflight
  | request hr hstep => exact h.request hr hstep
  | lifespan hmove =>
    rcases hmove.admission_eq with heq | heq
    · exact h.frame hmove.requests_eq (by rw [heq]) (by rw [heq])
    · exact h.frame hmove.requests_eq (by rw [heq]; rfl) (by rw [heq]; rfl)
  | tick => exact h.frame rfl rfl rfl
  | probe => exact h.frame rfl rfl rfl
  | shutdownRuntime => exact h.frame rfl rfl rfl
  | shutdownExecutor => exact h.frame rfl rfl rfl

/-- Every state a run reaches is balanced. -/
theorem balanced_exec {es : List (Event F)} (h : exec (step cfg) (init cfg) es = some s) :
    Balanced cfg s :=
  exec_preserves (fun _ _ _ hb ht ↦ Balanced.step hb ht) h (balanced_init cfg)

/-- In every state of every run the controller counts exactly the requests whose HTTP side or
attached native call is unfinished, the count stays within the cap, the queued and running
`predict` calls stay within it too, and a lease that is about to get a native call or has one
queued or running has not returned its permit. -/
theorem inflight_bounds_native_work (cfg : Config F) {es : List (Event F)} {s : Application F}
    (h : exec (step cfg) (init cfg) es = some s) :
    s.shared.admission.inflight = (s.requests.countP Request.unfinished : Int) ∧
      0 ≤ s.shared.admission.inflight ∧
      s.shared.admission.inflight ≤ cfg.maxInflightRequests ∧
      s.requests.countP Request.predicting ≤ cfg.maxInflightRequests ∧
      ∀ r ∈ s.requests, ∀ l, r.lease = some l →
        r.app = .submitted ∨ r.predicting = true → l.released = false := by
  have hb := balanced_exec h
  have hle := hb.le
  rw [hb.inflight, hb.capacity] at hle
  have hnative : s.requests.countP Request.predicting ≤ s.requests.countP Request.unfinished :=
    List.countP_mono_left fun r hr hp ↦ (hb.ok r hr).unfinished_of_predicting hp
  refine ⟨hb.inflight, ?_, ?_, by omega, ?_⟩
  · rw [hb.inflight]
    omega
  · rw [hb.inflight]
    exact hle
  · intro r hr l hl hcase
    rcases hcase with happ | hp
    · exact (hb.ok r hr).not_released_of_running hl (by rw [happ]; rfl)
    · exact (hb.ok r hr).not_released_of_predicting hl hp

/-- The client of the only permit goes away while its call runs; the next request is refused. -/
def detachedRun : List (Event Int) :=
  unitStartup ++ unitSubmission 0 rawScope [7, 0, 0, 0] ++
    ([.request 0 (.native (.advance .take)), .request 0 (.watcher (.message .disconnect)),
      .request 0 (.middleware .resume), .request 0 (.app .cancelled),
      .request 0 (.middleware .resume), .request 0 (.middleware .resume),
      .request 0 (.middleware .resume), .request 0 (.middleware .finishHttp),
      .arrive rawScope, .request 1 (.middleware .enter)] : List (Event Int))

/-- Where it ends. -/
def detachedEnd : Application Int :=
  (exec (step unitServer) (init unitServer) detachedRun).get (by decide +kernel)

theorem inflight_bounds_native_work_detached :
    exec (step unitServer) (init unitServer) detachedRun = some detachedEnd ∧
      detachedEnd.shared.admission.inflight = 1 ∧
      detachedEnd.requests.countP Request.unfinished = 1 ∧
      detachedEnd.requests.countP Request.predicting ≤ 1 ∧
      detachedEnd.requests.map (·.middleware) =
        [.done,
          .rejecting ⟨503, "inference capacity is full or the server is draining"⟩ false] := by
  have hrun : exec (step unitServer) (init unitServer) detachedRun = some detachedEnd :=
    (Option.some_get _).symm
  obtain ⟨hcount, -, -, hnative, -⟩ := inflight_bounds_native_work unitServer hrun
  have hone : detachedEnd.shared.admission.inflight = 1 := by decide +kernel
  refine ⟨hrun, hone, ?_, hnative, by decide +kernel⟩
  rw [hone] at hcount
  omega

end InferenceServer.Server.Application
