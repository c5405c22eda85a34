import InferenceServer.Server.Failure

/-!
# Readiness and admission

Library `Server`. `app.state.ready` is set at the end of every startup, `app.py:112`, and cleared in
four places; the controller is made once with the application, `app.py:135`, closed in three
places and never opened again. So the two agree as long as no startup ends after the
controller was closed.
-/

namespace InferenceServer.Server

open InferenceServer.Base

variable {F : Type}

/-- What a step does to the service. -/
inductive Mark where
  /-- a startup completes -/
  | started
  /-- `stop_runtime` is entered -/
  | stopped
  /-- an `InferenceError` is observed, by the exception handler or on a native future -/
  | failed
  deriving DecidableEq, Repr

/-- The step takes the server out of service. -/
def Effect.isOutOfService : Effect → Bool
  | .outOfService _ => true
  | _ => false

namespace Application

variable {cfg : Config F} {s t : Application F} {e : Event F}

/-- The mark of a step of the lifespan, read off the state it leads to. -/
def lifespanMark (t : Application F) : Option Mark :=
  if t.lifespan.pc = .draining then some .stopped
  else if t.lifespan.pc = .serving then some .started
  else none

/-- The mark of a step. -/
def mark (cfg : Config F) (s : Application F) : Event F → Option Mark
  | .request i ev =>
    (s.requests[i]?.bind fun r ↦ r.step cfg s.shared ev).bind fun x ↦
      if x.2.isOutOfService then some .failed else none
  | .lifespan ev => (s.lifespanStep cfg ev).bind lifespanMark
  | _ => none

/-- The marks of a run of one application object. -/
def service (cfg : Config F) (es : List (Event F)) : List Mark :=
  marks (step cfg) (mark cfg) (init cfg) es

/-- What a marked step does to readiness and to the controller. -/
inductive Marked (s t : Application F) : Option Mark → Prop where
  | started (hr : t.shared.ready = true)
    (hc : t.shared.admission.closed = s.shared.admission.closed) : Marked s t (some .started)
  | ended {m : Mark} (hm : m ≠ .started) (h : t.OutOfService) : Marked s t (some m)
  | unmarked (hr : t.shared.ready = true → s.shared.ready = true)
    (hc : t.shared.admission.closed = s.shared.admission.closed) : Marked s t none

/-- Steps that leave both alone. -/
theorem Marked.frame (hr : t.shared.ready = s.shared.ready)
    (hc : t.shared.admission = s.shared.admission) : Marked s t none :=
  .unmarked (fun h ↦ hr ▸ h) (by rw [hc])

theorem stopExecutor_pc (cfg : Config F) (s : Application F) :
    (s.stopExecutor cfg).lifespan.pc = .stopExecutor ∨
      (s.stopExecutor cfg).lifespan.pc = .down := by
  unfold stopExecutor
  split
  · exact .inl rfl
  · exact .inr rfl

theorem stopRuntime_pc (cfg : Config F) (s : Application F) :
    (s.stopRuntime cfg).lifespan.pc = .stopRuntime ∨
      (s.stopRuntime cfg).lifespan.pc = .stopExecutor ∨
      (s.stopRuntime cfg).lifespan.pc = .down := by
  unfold stopRuntime
  split
  · exact .inl rfl
  · exact .inr (stopExecutor_pc cfg s)

theorem lifespanMark_stopRuntime (s : Application F) : (s.stopRuntime cfg).lifespanMark = none := by
  unfold lifespanMark
  rcases stopRuntime_pc cfg s with hpc | hpc | hpc <;> rw [hpc] <;> rfl

theorem LifespanMove.marked {ev : LifespanEvent} (h : LifespanMove cfg s ev t) :
    Marked s t t.lifespanMark := by
  cases h with
  | startFails => exact .ended nofun ⟨rfl, rfl⟩
  | startRefused => exact .ended nofun ⟨rfl, rfl⟩
  | stop => exact .ended nofun ⟨rfl, rfl⟩
  | ready => exact .started rfl rfl
  | startProbe => exact .unmarked nofun rfl
  | stopRuntime =>
    rw [lifespanMark_stopRuntime]
    exact .frame (stopRuntime_ready s) (stopRuntime_admission s)
  | joinCancelled =>
    rw [lifespanMark_stopRuntime]
    exact .frame (stopRuntime_ready s) (stopRuntime_admission s)
  | stopExecutor =>
    have hnone : (s.stopExecutor cfg).lifespanMark = none := by
      unfold lifespanMark
      rcases stopExecutor_pc cfg s with hpc | hpc <;> rw [hpc] <;> rfl
    rw [hnone]
    exact .frame (stopExecutor_ready s) (stopExecutor_admission s)
  | drained => exact .frame rfl rfl
  | joinProbe => exact .frame rfl rfl
  | abandoned => exact .frame rfl rfl
  | clear => exact .frame rfl rfl

/-- Every step does what its mark says. -/
theorem marked_step (h : s.step cfg e = some t) : Marked s t (s.mark cfg e) := by
  cases e with
  | request i ev =>
    simp only [step, Option.bind_eq_some_iff, Option.map_eq_some_iff] at h
    obtain ⟨r, hr, ⟨r', effect⟩, hstep, rfl⟩ := h
    simp only [mark, hr, Option.bind_some, hstep]
    cases effect with
    | outOfService detail => exact .ended (by rintro ⟨⟩) ⟨rfl, rfl⟩
    | _ => exact .unmarked id rfl
  | lifespan ev =>
    have hmark : s.mark cfg (.lifespan ev) = t.lifespanMark := by
      have hstep : s.lifespanStep cfg ev = some t := h
      rw [mark, hstep]
      rfl
    rw [hmark]
    exact (lifespanStep_cases h).marked
  | probe k ev =>
    cases step_cases h
    exact .frame rfl rfl
  | tick =>
    cases h
    exact .frame rfl rfl
  | arrive scope =>
    cases h
    exact .frame rfl rfl
  | shutdownRuntime j =>
    cases step_cases h
    exact .frame rfl rfl
  | shutdownExecutor k =>
    cases step_cases h
    exact .frame rfl rfl

/-- One more step of a run. -/
theorem service_snoc {es : List (Event F)} (h : exec (step cfg) (init cfg) es = some s)
    (e : Event F) : service cfg (es ++ [e]) = service cfg es ++ (s.mark cfg e).toList :=
  marks_snoc h e

/-- The controller is closed once `stop_runtime` was entered or an `InferenceError` observed. -/
theorem closed_iff {es : List (Event F)} (h : exec (step cfg) (init cfg) es = some s) :
    s.shared.admission.closed = true ↔ ∃ m ∈ service cfg es, m ≠ .started := by
  refine exec_induction
    (P := fun es s ↦ s.shared.admission.closed = true ↔ ∃ m ∈ service cfg es, m ≠ .started)
    ?_ ?_ h
  · constructor
    · intro hc
      cases hc
    · rintro ⟨m, hm, -⟩
      cases hm
  · intro es s e t hs ih ht
    rw [service_snoc hs]
    generalize hmark : s.mark cfg e = mark
    have hm := marked_step ht
    rw [hmark] at hm
    cases hm with
    | started hr hc => simp [hc, ih]
    | ended hne ho => simp [ho.2, hne]
    | unmarked hr hc => simp [hc, ih]

/-- Whenever the server is ready its controller is open. -/
def ReadyMeansOpen (cfg : Config F) (es : List (Event F)) : Prop :=
  ∀ es₁ es₂ u, es = es₁ ++ es₂ → exec (step cfg) (init cfg) es₁ = some u →
    u.shared.ready = true → u.shared.admission.closed = false

/-- Once an `InferenceError` was observed the server is not ready again before the next
startup. -/
def FailureEndsReadiness (cfg : Config F) (es : List (Event F)) : Prop :=
  ∀ es₁ e es₂ es₃ u v, es = es₁ ++ e :: es₂ ++ es₃ → exec (step cfg) (init cfg) es₁ = some u →
    u.mark cfg e = some .failed → exec (step cfg) u (e :: es₂) = some v →
    (∀ env, .lifespan (.startup env) ∉ es₂) → v.shared.ready = false

/-- No startup completes after `stop_runtime` was entered or an `InferenceError` observed. -/
def StartsFirst (ms : List Mark) : Prop := ms.Pairwise fun a b ↦ b = .started → a = .started

instance (ms : List Mark) : Decidable (StartsFirst ms) :=
  inferInstanceAs (Decidable (ms.Pairwise _))

/-- A startup completes only while the controller is open, or the run is not in order. -/
private theorem StartsFirst.open_of_started {es : List (Event F)}
    (h : exec (step cfg) (init cfg) es = some s) (hm : s.mark cfg e = some .started)
    (hf : StartsFirst (service cfg (es ++ [e]))) : s.shared.admission.closed = false := by
  rw [StartsFirst, service_snoc h, hm, List.pairwise_append] at hf
  rw [Bool.eq_false_iff, ne_eq, closed_iff h]
  rintro ⟨m, hmem, hne⟩
  exact hne (hf.2.2 m hmem .started (List.mem_singleton.mpr rfl) rfl)

/-- In an orderly run the server is not ready while its controller is closed. -/
theorem StartsFirst.closed {es : List (Event F)} (h : exec (step cfg) (init cfg) es = some s)
    (hf : StartsFirst (service cfg es)) (hr : s.shared.ready = true) :
    s.shared.admission.closed = false := by
  refine exec_induction
    (P := fun es s ↦ StartsFirst (service cfg es) → s.shared.ready = true →
      s.shared.admission.closed = false) ?_ ?_ h hf hr
  · intro _ hr
    cases hr
  intro es s e t hs ih ht hf hr
  have hbefore : StartsFirst (service cfg es) := by
    rw [StartsFirst, service_snoc hs, List.pairwise_append] at hf
    exact hf.1
  generalize hmark : s.mark cfg e = mark
  have hm := marked_step ht
  rw [hmark] at hm
  cases hm with
  | started _ hc => exact hc.trans (hf.open_of_started hs hmark)
  | ended _ ho =>
    rw [ho.1] at hr
    cases hr
  | unmarked hready hc => exact hc.trans (ih hbefore (hready hr))

/-- Part of an orderly run is orderly. -/
private theorem StartsFirst.before {es₁ es₂ : List (Event F)} {u : Application F}
    (h : exec (step cfg) (init cfg) (es₁ ++ es₂) = some u)
    (hf : StartsFirst (service cfg (es₁ ++ es₂))) : StartsFirst (service cfg es₁) := by
  induction es₂ using List.reverseRecOn generalizing u with
  | nil => rwa [List.append_nil] at hf
  | append_singleton es₂ e ih =>
    rw [← List.append_assoc] at h hf
    obtain ⟨m, hm, -⟩ := exec_snoc_eq_some.mp h
    rw [StartsFirst, service_snoc hm, List.pairwise_append] at hf
    exact ih hm hf.1

/-- A startup that completes behind a closed controller makes the server ready there. -/
theorem ReadyMeansOpen.startsFirst {es : List (Event F)}
    (h : exec (step cfg) (init cfg) es = some s) (hopen : ReadyMeansOpen cfg es) :
    StartsFirst (service cfg es) := by
  refine exec_induction (P := fun es _ ↦ ReadyMeansOpen cfg es → StartsFirst (service cfg es))
    (fun _ ↦ List.Pairwise.nil) ?_ h hopen
  intro es s e t hs ih ht hopen
  have hbefore : ReadyMeansOpen cfg es := by
    rintro es₁ es₂ u rfl hu hr
    exact hopen es₁ (es₂ ++ [e]) u (List.append_assoc _ _ _) hu hr
  rw [StartsFirst, service_snoc hs, List.pairwise_append]
  refine ⟨ih hbefore, ?_, ?_⟩
  · cases s.mark cfg e with
    | none => exact List.Pairwise.nil
    | some m => exact List.pairwise_singleton _ m
  · rintro a ha b hb rfl
    have hmarked := marked_step ht
    rw [Option.mem_toList.mp hb] at hmarked
    cases hmarked with
    | ended hne => exact absurd rfl hne
    | started hr hc =>
      have hrun : exec (step cfg) (init cfg) (es ++ [e]) = some t :=
        exec_snoc_eq_some.mpr ⟨s, hs, ht⟩
      have hclosed := hc.symm.trans (hopen _ [] t (List.append_nil _).symm hrun hr)
      by_contra hne
      rw [(closed_iff hs).mpr ⟨a, ha, hne⟩] at hclosed
      cases hclosed

/-- Readiness implies admission all along a run exactly if none of its startups completes after
the controller was closed, by an earlier `stop_runtime` or by an `InferenceError`. -/
theorem ready_means_open_iff {es : List (Event F)}
    (h : exec (step cfg) (init cfg) es = some s) :
    (ReadyMeansOpen cfg es ∧ FailureEndsReadiness cfg es) ↔ StartsFirst (service cfg es) := by
  constructor
  · rintro ⟨hopen, -⟩
    exact hopen.startsFirst h
  · intro hf
    have hopen : ReadyMeansOpen cfg es := by
      rintro es₁ es₂ u rfl hu hr
      exact (hf.before h).closed hu hr
    refine ⟨hopen, ?_⟩
    rintro es₁ e es₂ es₃ u v rfl hu hm hv -
    obtain ⟨m, hem, hmv⟩ := exec_cons_eq_some.mp hv
    have hmarked := marked_step hem
    rw [hm] at hmarked
    cases hmarked with
    | ended _ ho =>
      -- the controller stays closed, so the server is not ready again
      have hclosed := (staysClosed_exec hmv ho.2).closed
      have hrun : exec (step cfg) (init cfg) (es₁ ++ e :: es₂) = some v :=
        exec_append_eq_some.mpr ⟨u, hu, hv⟩
      rw [Bool.eq_false_iff]
      intro hr
      rw [hopen _ _ v rfl hrun hr] at hclosed
      cases hclosed

/-- The server comes up, an engine failure is observed and it goes down. -/
def failedLifespan : List (Event Int) :=
  failedCall modelError ++
    ([.request 0 (.native .observe), .lifespan .exit] : List (Event Int))

theorem ready_means_open_failedLifespan :
    (exec (step unitServer) (init unitServer) failedLifespan).isSome = true ∧
      service unitServer failedLifespan = [.started, .failed, .stopped] ∧
      ReadyMeansOpen unitServer failedLifespan ∧
      FailureEndsReadiness unitServer failedLifespan := by
  have hrun : (exec (step unitServer) (init unitServer) failedLifespan).isSome = true := by
    decide +kernel
  have hmarks : service unitServer failedLifespan = [.started, .failed, .stopped] := by
    decide +kernel
  obtain ⟨s, hs⟩ := Option.isSome_iff_exists.mp hrun
  have hfirst : StartsFirst (service unitServer failedLifespan) := by
    rw [hmarks]
    decide
  exact ⟨hrun, hmarks, (ready_means_open_iff hs).mpr hfirst⟩

/-- One application object is brought up, down in order, and up again. -/
def restarted : List (Event Int) :=
  unitStartup ++
    ([.lifespan .exit, .lifespan .drained, .lifespan .drainResumed, .shutdownRuntime 0,
      .lifespan .runtimeStopped, .shutdownExecutor 0, .lifespan .executorStopped,
      .lifespan (.startup { store := .ok [], engine := "stub" }), .probe 1 .take, .probe 1 .predict,
      .probe 1 (.complete (.ok (0, [0]))), .lifespan .probeResumed, .arrive rawScope,
      .request 0 (.middleware .enter)] : List (Event Int))

/-- After the restart `/readyz` answers 200 and the first prediction is refused although the
controller has all its permits. -/
theorem restarted_server_refuses :
    ∃ s, exec (step unitServer) (init unitServer) restarted = some s ∧
      service unitServer restarted = [.started, .stopped, .started] ∧
      s.lifespan.pc = .serving ∧ s.shared.readyz = 200 ∧ s.shared.admission.closed = true ∧
      s.shared.admission.inflight = 0 ∧
      s.requests.map (·.middleware) =
        [.rejecting ⟨503, "inference capacity is full or the server is draining"⟩ false] ∧
      ¬ReadyMeansOpen unitServer restarted := by
  have hfacts : (exec (step unitServer) (init unitServer) restarted).map (fun s ↦
      (s.lifespan.pc, s.shared.ready, s.shared.admission.closed, s.shared.admission.inflight,
        s.requests.map (·.middleware))) =
      some (.serving, true, true, 0,
        [.rejecting ⟨503, "inference capacity is full or the server is draining"⟩ false]) := by
    decide +kernel
  have hmarks : service unitServer restarted = [.started, .stopped, .started] := by
    decide +kernel
  obtain ⟨s, hs, hf⟩ := Option.map_eq_some_iff.mp hfacts
  obtain ⟨hpc, hf⟩ := Prod.mk.inj hf
  obtain ⟨hready, hf⟩ := Prod.mk.inj hf
  obtain ⟨hclosed, hf⟩ := Prod.mk.inj hf
  obtain ⟨hinflight, hreq⟩ := Prod.mk.inj hf
  have hreadyz : s.shared.readyz = 200 := by
    rw [Shared.readyz, hready]
    rfl
  refine ⟨s, hs, hmarks, hpc, hreadyz, hclosed, hinflight, hreq, ?_⟩
  intro hopen
  rw [hopen restarted [] s (List.append_nil _).symm hs hready] at hclosed
  cases hclosed

end Application
end InferenceServer.Server
