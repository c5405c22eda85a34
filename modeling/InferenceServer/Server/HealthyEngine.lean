import InferenceServer.Batching.Rows
import InferenceServer.Server.BodyGates
import InferenceServer.Server.Deployment
import InferenceServer.Server.Failure

/-!
# No client takes a healthy server down

Library `Server`. While the engine answers every well-formed batch with as many floats as it
should, only `stop_runtime` closes the controller or ends readiness. Requests reach a scheduler
only with arrays that `routes.py:88–123` measured, so the size check of `scheduler.cpp:147–156`
finds nothing and every promise gets its row.
-/

namespace InferenceServer.Batching

open InferenceServer.Base InferenceServer.Engine

variable {F : Type}

/-- A well-formed batch is answered with `batch_size * output_elems` floats. -/
def EngineCall.Healthy (c : EngineCall F) : Prop :=
  c.batchedInput.length = c.batchSize * c.inputElems →
    ∃ out, c.answer = .ok out ∧ out.size = c.batchSize * c.outputElems

instance (c : EngineCall F) : Decidable c.Healthy :=
  match h : c.answer with
  | .ok out =>
    decidable_of_iff (c.batchedInput.length = c.batchSize * c.inputElems →
      out.size = c.batchSize * c.outputElems) (by simp [EngineCall.Healthy, h])
  | .error _ =>
    decidable_of_iff (c.batchedInput.length ≠ c.batchSize * c.inputElems)
      (by simp [EngineCall.Healthy, h])

namespace Scheduler

variable {cfg : SchedulerConfig} {s t : Scheduler F} {e : Event F}

/-- All that was submitted passes the size check. -/
def Sized (cfg : SchedulerConfig) (s : Scheduler F) : Prop :=
  ∀ r ∈ s.submits, wellSized cfg r.1 = true

/-- What one event adds to the history. -/
structure Extends (s t : Scheduler F) (e : Event F) : Prop where
  calls : ∀ c ∈ s.calls, c ∈ t.calls
  submits : ∀ r ∈ t.submits, r ∈ s.submits ∨
    ∃ requestId arrivalTime, e = .submit requestId r.1.inputData arrivalTime

private theorem Extends.frame (hc : t.calls = s.calls) (hs : t.submits = s.submits) :
    Extends s t e :=
  ⟨fun _ h ↦ hc ▸ h, fun _ h ↦ .inl (hs ▸ h)⟩

private theorem extends_worker (h : WorkerStep cfg s e t) : Extends s t e := by
  cases h with
  | poll p o q =>
    unfold pollStep
    split <;> exact .frame rfl rfl
  | filter d todo batch =>
    unfold filterStep
    split
    · exact .frame rfl rfl
    · split
      · exact .frame rfl rfl
      · split <;> exact .frame rfl rfl
  | infer => exact ⟨fun c hc ↦ List.mem_append_left _ hc, fun r hr ↦ .inl hr⟩
  | deliver d batch out i =>
    unfold deliverStep
    split
    · exact .frame rfl rfl
    · split <;> exact .frame rfl rfl
  | fail d batch todo eptr =>
    unfold failStep
    split
    · exact .frame rfl rfl
    · split <;> exact .frame rfl rfl
  | checkRunning => exact .frame rfl rfl
  | account => exact .frame rfl rfl

private theorem extends_submit {requestId : Nat} {input : List F} {arrivalTime : Int}
    (hc : t.calls = s.calls) {r : InferenceRequest F × Except CppException Unit}
    (hs : t.submits = s.submits ++ [r]) (hr : r.1.inputData = input) :
    Extends s t (.submit requestId input arrivalTime) := by
  refine ⟨fun _ h ↦ hc ▸ h, ?_⟩
  intro r' hr'
  rw [hs] at hr'
  rcases List.mem_append.mp hr' with hr' | hr'
  · exact .inl hr'
  · cases List.mem_singleton.mp hr'
    exact .inr ⟨requestId, arrivalTime, by rw [hr]⟩

/-- The history only grows. -/
theorem extends_step (h : s.step cfg e = some t) : Extends s t e := by
  cases step_cases h with
  | submitOpen => exact extends_submit rfl rfl rfl
  | submitStopped => exact extends_submit rfl rfl rfl
  | worker hw => exact extends_worker hw
  | _ => exact .frame rfl rfl

/-- A healthy engine behind well-sized submissions resolves every promise with a result. -/
theorem Inv.resolved_ok (h : s.Inv cfg) (hs : s.Sized cfg) (hh : ∀ c ∈ s.calls, c.Healthy)
    {r : Nat × Outcome F} (hr : r ∈ s.resolved) : ∃ res, r.2 = .ok res := by
  obtain ⟨d, hd, req, hreq, -, hcase⟩ := h.explained r hr
  rcases hcase with ⟨hbad, -⟩ | ⟨c, hc, rfl, i, -, hout⟩
  · -- a drained request was accepted, so it passed the check
    have hacc : req ∈ s.accepted := by
      rw [← h.fifo]
      exact List.mem_append_left _ (List.mem_flatten_of_mem hd hreq)
    have hgood := hs _ (mem_accepted.mp hacc)
    rw [hbad] at hgood
    cases hgood
  · have hok := h.called c hc
    have hlen : c.batchedInput.length = c.batchSize * c.inputElems := by
      rw [hok.length_input, hok.inputElems]
    obtain ⟨out, hans, hsize⟩ := hh c hc hlen
    have hmul : out.size = sizeMul c.batchSize cfg.outputElems := by
      rw [hsize, hok.outputElems, sizeMul_of_lt]
      have hlt : out.size < 2 ^ 61 := out.size_lt
      rw [hsize, hok.outputElems] at hlt
      omega
    refine ⟨sliceResult cfg out i req, ?_⟩
    rw [hout, EngineCall.outcome, hans]
    exact if_neg (not_not.mpr hmul)

end Scheduler
end InferenceServer.Batching

namespace InferenceServer.Server

open InferenceServer.Base InferenceServer.Batching

variable {F : Type}

/-! ### Native calls -/

/-- The call is the same but for its progress. -/
structure Work.Alike (w w' : Work F) : Prop where
  array : w'.array = w.array
  runtime : w'.runtime = w.runtime
  outcome : w'.outcome = w.outcome

/-- A call that was just submitted with an array of the right size. -/
structure Work.Fresh (inputElems : Nat) (w : Work F) : Prop where
  length : w.array.length = inputElems
  outcome : w.outcome = none

namespace Request

variable {cfg : Config F} {g : Shared} {r r' : Request F} {effect : Effect}

private theorem work_of_native {w : Work F} {ev : NativeEvent F}
    (h : NativeMove g r w ev r' effect) (hl : (Event.native ev).isLocal = true) :
    ∃ w', r'.work = some w' ∧ w.Alike w' := by
  cases h with
  | advance hadv =>
    cases hadv with
    | take => exact ⟨_, rfl, ⟨rfl, rfl, rfl⟩⟩
    | _ => cases hl
  | _ => exact ⟨_, rfl, ⟨rfl, rfl, rfl⟩⟩

/-- A local step submits a measured array or leaves the call's result as it is. -/
theorem work_of_step {ev : Event F} (h : r.step cfg g ev = some (r', effect))
    (hl : ev.isLocal = true) {w' : Work F} (hw' : r'.work = some w') :
    w'.Fresh cfg.inputElems ∨ ∃ w, r.work = some w ∧ w.Alike w' := by
  have same (heq : r'.work = r.work) :
      w'.Fresh cfg.inputElems ∨ ∃ w, r.work = some w ∧ w.Alike w' :=
    .inr ⟨w', heq ▸ hw', rfl, rfl, rfl⟩
  have fresh {sub : Submission F} {executor runtime : Nat} {r₀ : Request F}
      (hs : Submits cfg g r₀ sub)
      (heq : r'.work = some { array := sub.array, executor, runtime }) :
      w'.Fresh cfg.inputElems ∨ ∃ w, r.work = some w ∧ w.Alike w' := by
    obtain ⟨body, hbody⟩ := hs.decoded
    rw [hw'] at heq
    cases heq
    exact .inl ⟨length_decodeBody hbody, rfl⟩
  cases step_cases h with
  | middleware hmove =>
    cases hmove with
    | overloaded _ hp => cases hp <;> exact same rfl
    | acquire _ hp => cases hp <;> exact same rfl
    | _ => exact same rfl
  | app hmove =>
    cases hmove with
    | submit _ _ hs => exact fresh hs rfl
    | submitRead _ _ hs => exact fresh hs rfl
    | register _ _ hw =>
      cases hw'
      exact .inr ⟨_, hw, rfl, rfl, rfl⟩
    | wrap _ hw =>
      cases hw'
      exact .inr ⟨_, hw, rfl, rfl, rfl⟩
    | _ => exact same rfl
  | watcher hmove => cases hmove <;> exact same rfl
  | native hw hmove =>
    obtain ⟨w₁, hw₁, ha⟩ := work_of_native hmove hl
    rw [hw'] at hw₁
    cases hw₁
    exact .inr ⟨_, hw, ha⟩

/-- Only an `InferenceError` of its own call lets a request take the server out of service. -/
theorem outcome_of_outOfService {ev : Event F} {detail : String}
    (h : r.step cfg g ev = some (r', .outOfService detail)) :
    ∃ w message, r.work = some w ∧ w.outcome = some (.error (.inferenceError message)) := by
  cases step_cases h with
  | middleware hmove => cases hmove
  | app hmove =>
    generalize heff : Effect.outOfService detail = effect at hmove
    cases hmove with
    | inferenceError _ hw message ho => exact ⟨_, message, hw, ho⟩
    | registerDone => split at heff <;> cases heff
    | _ => cases heff
  | native hw hmove =>
    generalize heff : Effect.outOfService detail = effect at hmove
    cases hmove with
    | observe o ho =>
      unfold finishNativeFuture at heff
      split at heff
      · exact ⟨_, _, hw, ho⟩
      · cases heff
    | _ => cases heff

end Request

/-- An array of the right size is refused by a stopped scheduler only. -/
theorem Work.advance_predict {inputElems : Nat} {stopped : Nat → Bool} {w w' : Work F}
    (h : w.advance inputElems stopped .predict = some w') (hlen : w.array.length = inputElems) :
    w.Alike w' ∨ w'.array = w.array ∧ w'.runtime = w.runtime ∧ stopped w.runtime = true := by
  simp only [advance] at h
  split at h
  · rw [if_neg (not_not.mpr hlen)] at h
    split at h
    · next hs =>
      cases h
      exact .inr ⟨rfl, rfl, hs⟩
    · cases h
      exact .inl ⟨rfl, rfl, rfl⟩
  · cases h

/-- A call ends with what its promise got. -/
theorem Work.advance_complete {inputElems : Nat} {stopped : Nat → Bool} {w w' : Work F}
    {result : Except Engine.CppException (Nat × List F)}
    (h : w.advance inputElems stopped (.complete result) = some w') :
    w'.array = w.array ∧ w'.outcome = some (nativeResult result) := by
  cases Work.advance_cases h
  exact ⟨rfl, rfl⟩

/-! ### The application -/

/-- The lifespan is not in `stop_runtime`. -/
def LifespanPc.isUp : LifespanPc → Bool
  | .down => true
  | .awaitProbe => true
  | .serving => true
  | _ => false

namespace Application

variable {cfg : Config F} {s t : Application F}

theorem mem_works {w : Work F} :
    w ∈ s.works ↔ (∃ r ∈ s.requests, r.work = some w) ∨ w ∈ s.probes := by
  rw [works, List.mem_append, List.mem_filterMap]

theorem mem_works_of_call {c : CallId} {w : Work F} (h : s.call c = some w) : w ∈ s.works := by
  cases c with
  | request i =>
    obtain ⟨r, hr, hw⟩ := Option.bind_eq_some_iff.mp h
    exact mem_works.mpr (.inl ⟨r, List.mem_of_getElem? hr, hw⟩)
  | probe k => exact mem_works.mpr (.inr (List.mem_of_getElem? h))

/-- What a step of `predict` leaves alone. -/
structure StepsCall (s : Application F) (w' : Work F) (t : Application F) : Prop where
  shared : t.shared = s.shared
  lifespan : t.lifespan = s.lifespan
  runtimeShutdowns : t.runtimeShutdowns = s.runtimeShutdowns
  works : ∀ x ∈ t.works, x = w' ∨ x ∈ s.works

/-- A step of `predict` changes that call only. -/
theorem stepsCall_of_step {c : CallId} {w : Work F} {ev : WorkEvent F} (hw : s.call c = some w)
    (h : s.step cfg (c.event ev) = some t) :
    ∃ w', w.advance cfg.inputElems s.shared.isStopped ev = some w' ∧ s.StepsCall w' t := by
  cases c with
  | request i =>
    obtain ⟨r, hr, hwork⟩ := Option.bind_eq_some_iff.mp hw
    simp only [CallId.event, step, hr, Request.step, hwork, Request.nativeStep, Option.bind_some,
      Option.map_map, Option.map_eq_some_iff] at h
    obtain ⟨w', hadv, rfl⟩ := h
    refine ⟨w', hadv, rfl, rfl, rfl, ?_⟩
    intro x hx
    rcases mem_works.mp hx with ⟨r₁, hr₁, hx⟩ | hx
    · rcases List.mem_or_eq_of_mem_set hr₁ with hr₁ | rfl
      · exact .inr (mem_works.mpr (.inl ⟨r₁, hr₁, hx⟩))
      · cases hx
        exact .inl rfl
    · exact .inr (mem_works.mpr (.inr hx))
  | probe k =>
    have hk : s.probes[k]? = some w := hw
    simp only [CallId.event, step, hk, Option.bind_some, Option.map_eq_some_iff] at h
    obtain ⟨w', hadv, rfl⟩ := h
    refine ⟨w', hadv, rfl, rfl, rfl, ?_⟩
    intro x hx
    rcases mem_works.mp hx with hx | hx
    · exact .inr (mem_works.mpr (.inl hx))
    · rcases List.mem_or_eq_of_mem_set hx with hx | rfl
      · exact .inr (mem_works.mpr (.inr hx))
      · exact .inl rfl

theorem stopExecutor_probes (s : Application F) : (s.stopExecutor cfg).probes = s.probes := by
  unfold stopExecutor
  split <;> rfl

theorem stopRuntime_probes (s : Application F) : (s.stopRuntime cfg).probes = s.probes := by
  unfold stopRuntime
  split
  · rfl
  · exact stopExecutor_probes s

/-- A startup may submit its probe to the executor, an array of zeros of the right size. -/
theorem LifespanMove.probes_cases {ev : LifespanEvent} (h : LifespanMove cfg s ev t) :
    t.probes = s.probes ∨ ∃ w : Work F, t.probes = s.probes ++ [w] ∧ w.Fresh cfg.inputElems ∧
      w.phase = .queued := by
  cases h with
  | startProbe => exact .inr ⟨_, rfl, ⟨List.length_replicate, rfl⟩, rfl⟩
  | stopRuntime => exact .inl (stopRuntime_probes s)
  | joinCancelled => exact .inl (stopRuntime_probes s)
  | stopExecutor => exact .inl (stopExecutor_probes s)
  | _ => exact .inl rfl

/-- In a local step calls are submitted with measured arrays and none gets a result. -/
theorem works_of_local {e : Event F} (h : s.step cfg e = some t) (hl : e.isLocal = true)
    {w' : Work F} (hw' : w' ∈ t.works) :
    w'.Fresh cfg.inputElems ∨ ∃ w ∈ s.works, w.Alike w' := by
  have same (hw : w' ∈ s.works) : w'.Fresh cfg.inputElems ∨ ∃ w ∈ s.works, w.Alike w' :=
    .inr ⟨w', hw, rfl, rfl, rfl⟩
  cases step_cases h with
  | tick => exact same hw'
  | shutdownRuntime => exact same hw'
  | shutdownExecutor => exact same hw'
  | arrive scope =>
    rcases mem_works.mp hw' with ⟨r, hr, hw⟩ | hw
    · rcases List.mem_append.mp hr with hr | hr
      · exact same (mem_works.mpr (.inl ⟨r, hr, hw⟩))
      · cases List.mem_singleton.mp hr
        cases hw
    · exact same (mem_works.mpr (.inr hw))
  | @request i ev r r' effect hr hstep =>
    rcases mem_works.mp hw' with ⟨r₁, hr₁, hw⟩ | hw
    · rcases List.mem_or_eq_of_mem_set hr₁ with hr₁ | rfl
      · exact same (mem_works.mpr (.inl ⟨r₁, hr₁, hw⟩))
      · rcases Request.work_of_step hstep hl hw with hfresh | ⟨w, hw₀, ha⟩
        · exact .inl hfresh
        · exact .inr ⟨w, mem_works.mpr (.inl ⟨r, List.mem_of_getElem? hr, hw₀⟩), ha⟩
    · exact same (mem_works.mpr (.inr hw))
  | @probe k ev w w₁ hw hadv =>
    rcases mem_works.mp hw' with hreq | hmem
    · exact same (mem_works.mpr (.inl hreq))
    · rcases List.mem_or_eq_of_mem_set hmem with hmem | rfl
      · exact same (mem_works.mpr (.inr hmem))
      · cases hadv with
        | take => exact .inr ⟨w, mem_works.mpr (.inr (List.mem_of_getElem? hw)), rfl, rfl, rfl⟩
        | _ => cases hl
  | lifespan hmove =>
    rcases mem_works.mp hw' with hreq | hmem
    · rw [hmove.requests_eq] at hreq
      exact same (mem_works.mpr (.inl hreq))
    · rcases hmove.probes_cases with heq | ⟨w, heq, hfresh, -⟩
      · exact same (mem_works.mpr (.inr (heq ▸ hmem)))
      · rw [heq] at hmem
        rcases List.mem_append.mp hmem with hmem | hmem
        · exact same (mem_works.mpr (.inr hmem))
        · exact .inl (List.mem_singleton.mp hmem ▸ hfresh)

/-- A local step stops no runtime. -/
theorem runtimes_of_local {e : Event F} (h : s.step cfg e = some t) (hl : e.isLocal = true) :
    t.shared.runtimes = s.shared.runtimes ∨ t.shared.runtimes = s.shared.runtimes ++ [false] := by
  cases step_cases h with
  | request => exact .inl (apply_runtimes _ _)
  | lifespan hmove => exact hmove.runtimes_cases
  | shutdownRuntime => cases hl
  | _ => exact .inl rfl

theorem isStopped_of_local {e : Event F} (h : s.step cfg e = some t) (hl : e.isLocal = true)
    (j : Nat) : t.shared.isStopped j = s.shared.isStopped j := by
  rcases runtimes_of_local h hl with heq | heq
  · rw [Shared.isStopped, heq, Shared.isStopped]
  · rw [← isStopped_snoc s.shared j, Shared.isStopped, heq]
    rfl

/-- What holds until `stop_runtime` is entered for the first time. -/
structure Unstopped (s : Application F) : Prop where
  closed : s.shared.admission.closed = false
  calls : s.runtimeShutdowns = []
  running : ∀ j, s.shared.isStopped j = false
  pc : s.lifespan.pc.isUp = true
  ready : s.lifespan.pc = .serving → s.shared.ready = true

theorem unstopped_init (cfg : Config F) : (init cfg).Unstopped :=
  ⟨rfl, rfl, fun _ ↦ rfl, rfl, nofun⟩

/-- Steps that leave the controller, the shutdown calls and the lifespan alone. -/
theorem Unstopped.frame (h : s.Unstopped)
    (hc : t.shared.admission.closed = s.shared.admission.closed)
    (hr : t.shared.ready = s.shared.ready) (hcalls : t.runtimeShutdowns = s.runtimeShutdowns)
    (hstop : ∀ j, t.shared.isStopped j = s.shared.isStopped j) (hl : t.lifespan = s.lifespan) :
    t.Unstopped where
  closed := hc.trans h.closed
  calls := hcalls.trans h.calls
  running j := (hstop j).trans (h.running j)
  pc := by
    rw [hl]
    exact h.pc
  ready hpc := by
    rw [hr]
    rw [hl] at hpc
    exact h.ready hpc

/-- The lifespan leaves the state before `stop_runtime` only by entering it. -/
theorem Unstopped.lifespanMove (h : s.Unstopped) {ev : LifespanEvent}
    (hmove : LifespanMove cfg s ev t) : t.Unstopped ∨ t.lifespan.pc = .draining := by
  have hup := h.pc
  cases hmove with
  | startFails => exact .inr rfl
  | startRefused => exact .inr rfl
  | stop => exact .inr rfl
  | startProbe =>
    refine .inl ⟨h.closed, h.calls, ?_, rfl, nofun⟩
    intro j
    exact (isStopped_snoc s.shared j).trans (h.running j)
  | ready => exact .inl ⟨h.closed, h.calls, h.running, rfl, fun _ ↦ rfl⟩
  | stopRuntime hpc =>
    rcases hpc with hpc | hpc
    all_goals
      rw [hpc] at hup
      cases hup
  | abandoned hpc =>
    cases hs : s.lifespan.pc with
    | down =>
      rw [hs] at hpc
      cases hpc
    | awaitProbe =>
      rw [hs] at hpc
      cases hpc
    | serving =>
      rw [hs] at hpc
      cases hpc
    | _ =>
      rw [hs] at hup
      cases hup
  | drained hpc | joinProbe hpc | joinCancelled hpc | stopExecutor hpc | clear hpc =>
    rw [hpc] at hup
    cases hup

/-- Without an `InferenceError` the same goes for every local step. -/
theorem Unstopped.local_step (h : s.Unstopped)
    (hno : ∀ w ∈ s.works, ∀ message, w.outcome ≠ some (.error (.inferenceError message)))
    {e : Event F} (ht : s.step cfg e = some t) (hl : e.isLocal = true) :
    t.Unstopped ∨ t.lifespan.pc = .draining := by
  cases step_cases ht with
  | lifespan hmove => exact h.lifespanMove hmove
  | @request i ev r r' effect hr hstep =>
    cases effect with
    | outOfService detail =>
      obtain ⟨w, message, hw, ho⟩ := Request.outcome_of_outOfService hstep
      have hmem : w ∈ s.works := mem_works.mpr (.inl ⟨r, List.mem_of_getElem? hr, hw⟩)
      exact absurd ho (hno w hmem message)
    | _ => exact .inl (h.frame rfl rfl rfl (fun _ ↦ rfl) rfl)
  | shutdownRuntime => cases hl
  | _ => exact .inl (h.frame rfl rfl rfl (fun _ ↦ rfl) rfl)

end Application

/-! ### The deployment -/

namespace Deployment

variable {cfg : DeploymentConfig F} {s t : Deployment F}

/-- Every call the engines have answered so far. -/
def Healthy (s : Deployment F) : Prop := ∀ d ∈ s.schedulers, ∀ c ∈ d.calls, c.Healthy

instance (s : Deployment F) : Decidable s.Healthy :=
  inferInstanceAs (Decidable (∀ d ∈ s.schedulers, ∀ c ∈ d.calls, c.Healthy))

/-- What holds whatever the engine does. -/
structure Wired (cfg : DeploymentConfig F) (s : Deployment F) : Prop where
  paired : s.schedulers.length = s.app.shared.runtimes.length
  inv : ∀ d ∈ s.schedulers, d.Inv cfg.scheduler
  sized : ∀ d ∈ s.schedulers, d.Sized cfg.scheduler
  arrays : ∀ w ∈ s.app.works, w.array.length = cfg.inputElems

theorem wired_init (cfg : DeploymentConfig F) : (init cfg).Wired cfg where
  paired := rfl
  inv _ hd := absurd hd List.not_mem_nil
  sized _ hd := absurd hd List.not_mem_nil
  arrays _ hw := absurd hw List.not_mem_nil

theorem inv_started (cfg : SchedulerConfig) : (started : Scheduler F).Inv cfg where
  numbered := rfl
  answered := nofun
  fifo := rfl
  custody := .refl _
  drained := nofun
  called := nofun
  explained := nofun
  workerOk := nofun
  spawnable := by simp [started]
  spawning := nofun

/-- A step of a scheduler keeps its invariant and the size of what was submitted. -/
private theorem scheduler_kept (h : s.Wired cfg) {j : Nat} {d d' : Scheduler F}
    {e : Batching.Event F} (hd : s.schedulers[j]? = some d)
    (hstep : d.step cfg.scheduler e = some d')
    (hev : ∀ requestId input arrivalTime, e = .submit requestId input arrivalTime →
      input.length = cfg.inputElems) :
    d'.Inv cfg.scheduler ∧ d'.Sized cfg.scheduler := by
  have hmem := List.mem_of_getElem? hd
  refine ⟨Scheduler.inv_step cfg.maxBatchSize_pos (h.inv d hmem) hstep, ?_⟩
  intro r hr
  rcases (Scheduler.extends_step hstep).submits r hr with hr | ⟨requestId, arrivalTime, he⟩
  · exact h.sized d hmem r hr
  · exact beq_iff_eq.mpr (hev _ _ _ he)

/-- The arrays of the calls keep their size when one of them moves on. -/
private theorem arrays_kept (h : s.Wired cfg) {w w' : Work F} {app : Application F}
    (hw : w ∈ s.app.works) (hcall : s.app.StepsCall w' app) (ha : w'.array = w.array) :
    ∀ x ∈ app.works, x.array.length = cfg.inputElems := by
  intro x hx
  rcases hcall.works x hx with rfl | hx
  · rw [ha]
    exact h.arrays w hw
  · exact h.arrays x hx

theorem Wired.adopt (h : s.Wired cfg) {ev : Application.Event F} {app : Application F}
    (hl : ev.isLocal = true) (ht : s.app.step cfg.toConfig ev = some app) :
    (s.adopt app).Wired cfg where
  paired := by
    have hlen := h.paired
    rcases Application.runtimes_of_local ht hl with heq | heq
    all_goals
      simp only [Deployment.adopt, heq, List.length_append, List.length_replicate,
        List.length_singleton]
      omega
  inv d hd := by
    rcases List.mem_append.mp hd with hd | hd
    · exact h.inv d hd
    · rw [List.eq_of_mem_replicate hd]
      exact inv_started _
  sized d hd := by
    rcases List.mem_append.mp hd with hd | hd
    · exact h.sized d hd
    · rw [List.eq_of_mem_replicate hd]
      exact nofun
  arrays w hw := by
    rcases Application.works_of_local ht hl hw with hfresh | ⟨w₀, hw₀, ha⟩
    · exact hfresh.length
    · rw [ha.array]
      exact h.arrays w₀ hw₀

theorem Wired.step (h : s.Wired cfg) (hm : Move cfg s t) : t.Wired cfg := by
  cases hm with
  | app hl ht => exact h.adopt hl ht
  | missized hw ht hlen => exact absurd (h.arrays _ (Application.mem_works_of_call hw)) hlen
  | @submit c w app d hw ht hlen hd requestId arrivalTime =>
    obtain ⟨w', hadv, hcall⟩ := Application.stepsCall_of_step hw ht
    have hmem := Application.mem_works_of_call hw
    have ha : w'.array = w.array := by
      rcases Work.advance_predict hadv hlen with ha | ha
      · exact ha.array
      · exact ha.1
    have hkept : (d.submit requestId w.array arrivalTime).Inv cfg.scheduler ∧
        (d.submit requestId w.array arrivalTime).Sized cfg.scheduler := by
      refine scheduler_kept h hd (e := .submit requestId w.array arrivalTime) rfl ?_
      rintro _ _ _ ⟨⟩
      exact hlen
    refine ⟨?_, forall_mem_set h.inv hkept.1, forall_mem_set h.sized hkept.2,
      arrays_kept h hmem hcall ha⟩
    rw [hcall.shared, List.length_set]
    exact h.paired
  | complete hw hd hp ho ht =>
    obtain ⟨w', hadv, hcall⟩ := Application.stepsCall_of_step hw ht
    have hmem := Application.mem_works_of_call hw
    refine ⟨?_, h.inv, h.sized, arrays_kept h hmem hcall (Work.advance_complete hadv).1⟩
    rw [hcall.shared]
    exact h.paired
  | scheduler hd hstep hev =>
    have hkept := scheduler_kept h hd hstep fun a b c he ↦ absurd he (hev a b c)
    refine ⟨?_, forall_mem_set h.inv hkept.1, forall_mem_set h.sized hkept.2, h.arrays⟩
    rw [List.length_set]
    exact h.paired
  | shutdown hd hstep happ =>
    have hkept := scheduler_kept h hd hstep nofun
    cases Application.step_cases happ with
    | shutdownRuntime hj =>
      refine ⟨?_, forall_mem_set h.inv hkept.1, forall_mem_set h.sized hkept.2, h.arrays⟩
      rw [List.length_set, List.length_set]
      exact h.paired

/-- Engines that are healthy now were so before. -/
theorem Healthy.before (hm : Move cfg s t) (h : t.Healthy) : s.Healthy := by
  have back {j : Nat} {d d' : Scheduler F} {e : Batching.Event F}
      (hd : s.schedulers[j]? = some d) (hstep : d.step cfg.scheduler e = some d')
      (h : ∀ x ∈ s.schedulers.set j d', ∀ c ∈ x.calls, c.Healthy) : s.Healthy :=
    forall_mem_of_set hd h fun hd' c hc ↦ hd' c ((Scheduler.extends_step hstep).calls c hc)
  cases hm with
  | app => exact fun d hd ↦ h d (List.mem_append_left _ hd)
  | missized => exact h
  | @submit c w app d hw ht hlen hd requestId arrivalTime =>
    exact back hd (e := .submit requestId w.array arrivalTime) rfl h
  | complete => exact h
  | scheduler hd hstep => exact back hd hstep h
  | shutdown hd hstep => exact back hd hstep h

/-- What holds behind healthy engines. -/
structure Sound (s : Deployment F) : Prop where
  /-- a call that ended has a result, or met a stopped scheduler -/
  outcomes : ∀ w ∈ s.app.works, ∀ o, w.outcome = some o →
    (∃ v, o = .ok v) ∨ s.app.shared.isStopped w.runtime = true
  unstopped : s.stops = 0 → s.app.Unstopped

theorem sound_init (cfg : DeploymentConfig F) : (init cfg).Sound where
  outcomes _ hw := absurd hw List.not_mem_nil
  unstopped _ := Application.unstopped_init cfg.toConfig

/-- Before the first `stop_runtime` no call has failed. -/
private theorem Sound.no_inferenceError (h : s.Sound) (hs : s.stops = 0) :
    ∀ w ∈ s.app.works, ∀ message, w.outcome ≠ some (.error (.inferenceError message)) := by
  intro w hw message ho
  rcases h.outcomes w hw _ ho with ⟨v, hv⟩ | hstop
  · cases hv
  · rw [(h.unstopped hs).running] at hstop
    cases hstop

theorem Sound.adopt (h : s.Sound) {ev : Application.Event F} {app : Application F}
    (hl : ev.isLocal = true) (ht : s.app.step cfg.toConfig ev = some app) :
    (s.adopt app).Sound where
  outcomes w hw o ho := by
    have hstop := Application.isStopped_of_local ht hl w.runtime
    rcases Application.works_of_local ht hl hw with hfresh | ⟨w₀, hw₀, ha⟩
    · rw [hfresh.outcome] at ho
      cases ho
    · rcases h.outcomes w₀ hw₀ o (ha.outcome ▸ ho) with hv | hs
      · exact .inl hv
      · rw [← ha.runtime, ← hstop] at hs
        exact .inr hs
  unstopped hs := by
    simp only [Deployment.adopt, Nat.add_eq_zero_iff] at hs
    have hu := h.unstopped hs.1
    rcases hu.local_step (h.no_inferenceError hs.1) ht hl with hu' | hpc
    · exact hu'
    · -- the step entered `stop_runtime` and was counted
      have hne : s.app.lifespan.pc ≠ .draining := by
        intro heq
        have hup := hu.pc
        rw [heq] at hup
        cases hup
      rw [if_pos ⟨hpc, hne⟩] at hs
      cases hs.2

/-- A call that moves on inside its scheduler. -/
private theorem Sound.call (h : s.Sound) {w' : Work F} {app : Application F}
    (hcall : s.app.StepsCall w' app)
    (hw' : ∀ o, w'.outcome = some o →
      (∃ v, o = .ok v) ∨ s.app.shared.isStopped w'.runtime = true)
    (schedulers : List (Scheduler F)) (promises : List (CallId × Nat)) :
    ({ s with app, schedulers, promises } : Deployment F).Sound where
  outcomes x hx o ho := by
    rw [hcall.shared]
    rcases hcall.works x hx with rfl | hx
    · exact hw' o ho
    · exact h.outcomes x hx o ho
  unstopped hs := by
    refine (h.unstopped hs).frame ?_ ?_ hcall.runtimeShutdowns ?_ hcall.lifespan
    · rw [hcall.shared]
    · rw [hcall.shared]
    · intro j
      rw [hcall.shared]

theorem isStopped_set_true {g : Shared} {i j : Nat} (h : g.isStopped i = true) :
    ({ g with runtimes := g.runtimes.set j true } : Shared).isStopped i = true := by
  unfold Shared.isStopped at *
  rw [List.getElem?_set]
  split
  · next hij =>
    subst hij
    split
    · rfl
    · next hlt =>
      rw [List.getElem?_eq_none (by omega)] at h
      exact h
  · exact h

theorem Sound.step (h : s.Sound) (hw : s.Wired cfg) (hh : s.Healthy) (hm : Move cfg s t) :
    t.Sound := by
  cases hm with
  | app hl ht => exact h.adopt hl ht
  | missized hc ht hlen => exact absurd (hw.arrays _ (Application.mem_works_of_call hc)) hlen
  | @submit c w app d hc ht hlen hd requestId arrivalTime =>
    obtain ⟨w', hadv, hcall⟩ := Application.stepsCall_of_step hc ht
    refine h.call hcall ?_ _ _
    intro o ho
    rcases Work.advance_predict hadv hlen with ha | ⟨-, hr, hs⟩
    · rw [ha.runtime]
      exact h.outcomes w (Application.mem_works_of_call hc) o (ha.outcome ▸ ho)
    · rw [hr]
      exact .inr hs
  | @complete c w app d p o hc hd hp ho ht =>
    obtain ⟨w', hadv, hcall⟩ := Application.stepsCall_of_step hc ht
    have hmem := List.mem_of_getElem? hd
    obtain ⟨l₁, l₂, hsplit, -⟩ := List.lookup_eq_some_iff.mp ho
    have hres : (p, o) ∈ d.resolved := by
      rw [hsplit]
      exact List.mem_append_right _ List.mem_cons_self
    obtain ⟨res, hok⟩ := (hw.inv d hmem).resolved_ok (hw.sized d hmem) (hh d hmem) hres
    refine h.call hcall ?_ _ _
    intro o' ho'
    cases hok
    rw [(Work.advance_complete hadv).2] at ho'
    cases ho'
    exact .inl ⟨_, rfl⟩
  | scheduler => exact ⟨h.outcomes, h.unstopped⟩
  | shutdown hd hstep happ =>
    cases Application.step_cases happ with
    | shutdownRuntime hj =>
      constructor
      · intro w hmem o ho
        rcases h.outcomes w hmem o ho with hv | hs
        · exact .inl hv
        · exact .inr (isStopped_set_true hs)
      · intro hs
        rw [(h.unstopped hs).calls] at hj
        cases hj

/-- Both along every run. -/
theorem wired_exec {es : List (Event F)} (h : exec (step cfg) (init cfg) es = some s) :
    s.Wired cfg :=
  exec_preserves (fun _ _ _ hs ht ↦ hs.step (step_cases ht)) h (wired_init cfg)

theorem sound_exec {es : List (Event F)} (h : exec (step cfg) (init cfg) es = some s)
    (hh : s.Healthy) : s.Sound := by
  have hall : s.Wired cfg ∧ (s.Healthy → s.Sound) := by
    refine exec_preserves (P := fun u ↦ u.Wired cfg ∧ (u.Healthy → u.Sound)) ?_ h
      ⟨wired_init cfg, fun _ ↦ sound_init cfg⟩
    rintro u e v ⟨hw, hs⟩ hv
    have hm := step_cases hv
    refine ⟨hw.step hm, ?_⟩
    intro hv
    have hu := hv.before hm
    exact (hs hu).step hw hu hm
  exact hall.2 hh

/-- While the engines answer every well-formed batch in full, whatever the clients send: each
scheduler is handed well-sized inputs only and resolves every promise with a result, a native call
fails only if its scheduler was stopped, and until `stop_runtime` is entered the controller is
open and a started server is ready. -/
theorem healthy_server_stays_up {es : List (Event F)}
    (hrun : exec (step cfg) (init cfg) es = some s) (hh : s.Healthy) :
    (∀ d ∈ s.schedulers, (∀ r ∈ d.submits, wellSized cfg.scheduler r.1 = true) ∧
      ∀ r ∈ d.resolved, ∃ res, r.2 = .ok res) ∧
    (∀ w ∈ s.app.works, ∀ o, w.outcome = some o →
      (∃ v, o = .ok v) ∨ s.app.shared.isStopped w.runtime = true) ∧
    (s.stops = 0 → s.app.shared.admission.closed = false ∧
      (s.app.lifespan.pc = .serving → s.app.shared.ready = true)) := by
  have hw := wired_exec hrun
  have hs := sound_exec hrun hh
  refine ⟨?_, hs.outcomes, ?_⟩
  · intro d hd
    refine ⟨hw.sized d hd, ?_⟩
    intro r hr
    exact (hw.inv d hd).resolved_ok (hw.sized d hd) (hh d hd) hr
  · intro hstops
    have hu := hs.unstopped hstops
    exact ⟨hu.closed, hu.ready⟩

/-- The small server with a scheduler. -/
def unitDeployment : DeploymentConfig Int where
  toConfig := Application.unitServer
  maxBatchSize_pos := by decide

/-- Scheduler 0 serves a batch of one request. -/
def unitBatch (output : Int) : List (Event Int) :=
  ([.poll, .expire, .poll, .filter, .filter, .account 0, .infer (.ok ⟨[output], by simp⟩) 0,
    .deliver, .deliver] : List (Batching.Event Int)).map (.scheduler 0)

/-- The server comes up and answers a request. -/
def unitService : List (Event Int) :=
  [[.app (.lifespan (.startup { store := .ok [], engine := "stub" })), .app (.probe 0 .take),
      .predict (.probe 0) 0 0],
    unitBatch 0, [.complete (.probe 0), .app (.lifespan .probeResumed)],
    (Application.unitSubmission 0 Application.rawScope [7, 0, 0, 0]).map .app,
    [.app (.request 0 (.native (.advance .take))), .predict (.request 0) 1 0], unitBatch 7,
    [.complete (.request 0)]].flatten

theorem healthy_server_stays_up_unitService :
    ∃ s, exec (step unitDeployment) (init unitDeployment) unitService = some s ∧
      s.schedulers.map (fun d ↦ d.resolved.length) = [2] ∧
      s.app.requests.map (fun r ↦ r.work.bind (·.outcome)) = [some (.ok (1, [7]))] ∧
      s.app.shared.admission.closed = false ∧ s.app.shared.ready = true := by
  have hfacts : (exec (step unitDeployment) (init unitDeployment) unitService).map (fun s ↦
      (decide s.Healthy, s.stops, s.app.lifespan.pc,
        s.schedulers.map fun d ↦ d.resolved.length,
        decide (s.app.requests.map (fun r ↦ r.work.bind (·.outcome)) =
          [some (.ok (1, [7]))]))) = some (true, 0, .serving, [2], true) := by
    decide +kernel
  obtain ⟨s, hs, hf⟩ := Option.map_eq_some_iff.mp hfacts
  obtain ⟨hh, hf⟩ := Prod.mk.inj hf
  obtain ⟨hstops, hf⟩ := Prod.mk.inj hf
  obtain ⟨hpc, hf⟩ := Prod.mk.inj hf
  obtain ⟨hres, hout⟩ := Prod.mk.inj hf
  have hup := (healthy_server_stays_up hs (of_decide_eq_true hh)).2.2 hstops
  exact ⟨s, hs, hres, of_decide_eq_true hout, hup.1, hup.2 hpc⟩

end Deployment
end InferenceServer.Server
