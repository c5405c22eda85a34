import InferenceServer.Server.Drain
import InferenceServer.Server.Pool

/-!
# The whole server drains

Library `Server`. `stop_runtime` (`python/cuda_db/server/app.py:53–67`) waits for every permit, a
permit waits for its native call, the call waits for a worker of the pool, the worker waits for its
promise (`cpp/src/bindings/module.cpp:83–87`), and the promise waits for the batch of the scheduler
(`cpp/src/scheduler/scheduler.cpp:135–226`). Nothing in this chain waits in a circle, and the work
in it is bounded.
-/

namespace InferenceServer.Server

open InferenceServer.Base InferenceServer.Batching

variable {F : Type}

/-- Steps of `predict` that a call has ahead of it. -/
def WorkPhase.ahead : WorkPhase → Nat
  | .queued => 3
  | .running => 2
  | .predicting => 1
  | _ => 0

theorem Work.Advance.ahead {stopped : Nat → Bool} {w w' : Work F} {ev : WorkEvent F}
    (h : w.Advance stopped ev w') : w'.phase.ahead + 1 ≤ w.phase.ahead := by
  cases h with
  | take hp => rw [hp]; exact Nat.le_refl _
  | submit hp => rw [hp]; exact Nat.le_refl _
  | missized hp => rw [hp]; exact Nat.le_succ _
  | reject hp => rw [hp]; exact Nat.le_succ _
  | complete hp => rw [hp]; exact Nat.le_refl _

namespace Application

variable {cfg : Config F} {s t : Application F}

/-- A startup, the only step that adds work. -/
def Event.isStartup : Event F → Bool
  | .lifespan (.startup _) => true
  | _ => false

/-- A step of a startup probe. -/
def Event.isProbe : Event F → Bool
  | .probe _ _ => true
  | _ => false

/-- The steps of the startup probes. -/
def probeWork (s : Application F) : Nat := (s.probes.map fun w ↦ w.phase.ahead).sum

/-- What a startup adds: an executor, a runtime and a probe. -/
structure Adds (cfg : Config F) (s t : Application F) (starts : Nat) : Prop where
  runtimes : t.shared.runtimes.length ≤ s.shared.runtimes.length + starts
  staffed : t.shared.executors.length ≤ s.shared.executors.length ∨ 1 ≤ cfg.executorWorkers

/-- `make_executor` refuses an executor without workers. -/
theorem startup_executors (s : Application F) (env : StartupEnv) (h : cfg.executorWorkers < 1) :
    (s.startup cfg env).shared.executors = s.shared.executors := by
  unfold startup
  dsimp only
  split
  · rfl
  · split
    · rfl
    · rw [if_pos h]
      rfl

theorem adds_of_step {e : Event F} (h : s.step cfg e = some t) :
    Adds cfg s t (if e.isStartup then 1 else 0) := by
  have same (hr : t.shared.runtimes.length = s.shared.runtimes.length)
      (he : t.shared.executors.length = s.shared.executors.length) (n : Nat) : Adds cfg s t n :=
    ⟨by omega, .inl (Nat.le_of_eq he)⟩
  cases e with
  | tick =>
    cases h
    exact same rfl rfl _
  | arrive scope =>
    cases h
    exact same rfl rfl _
  | request i ev =>
    cases step_cases h
    exact same (congrArg List.length (apply_runtimes _ _))
      (congrArg List.length (apply_executors _ _)) _
  | probe k ev =>
    cases step_cases h
    exact same rfl rfl _
  | shutdownRuntime j =>
    cases step_cases h
    exact same List.length_set rfl _
  | shutdownExecutor k =>
    cases step_cases h
    exact same rfl List.length_set _
  | lifespan ev =>
    rcases startup_or_steady h with ⟨env, rfl, rfl⟩ | hsteady
    · refine ⟨?_, ?_⟩
      · have hmove : LifespanMove cfg s (.startup env) (s.startup cfg env) := lifespanStep_cases h
        rcases hmove.runtimes_cases with heq | heq
        · rw [heq]
          exact Nat.le_add_right _ _
        · rw [heq, List.length_append]
          exact Nat.le_refl _
      · by_cases hworkers : cfg.executorWorkers < 1
        · exact .inl (Nat.le_of_eq (congrArg List.length (startup_executors s env hworkers)))
        · exact .inr (Nat.le_of_not_lt hworkers)
    · exact same (congrArg List.length hsteady.runtimes)
        (congrArg List.length hsteady.executors) _

/-- Probes get on, and only a startup adds one. -/
theorem probeWork_step {e : Event F} (h : s.step cfg e = some t) :
    t.probeWork + (if e.isProbe then 1 else 0) ≤
      s.probeWork + (if e.isStartup then 3 else 0) := by
  have same (hp : t.probes = s.probes) : t.probeWork ≤ s.probeWork := by
    rw [probeWork, probeWork, hp]
  cases e with
  | tick =>
    cases h
    exact same rfl
  | arrive scope =>
    cases h
    exact same rfl
  | request i ev =>
    cases step_cases h
    exact same rfl
  | shutdownRuntime j =>
    cases step_cases h
    exact same rfl
  | shutdownExecutor k =>
    cases step_cases h
    exact same rfl
  | probe k ev =>
    cases step_cases h with
    | @probe _ _ w w' hw hadv =>
      have hsum := sum_map_set (b := w') (f := fun w : Work F ↦ w.phase.ahead) hw
      have hlt := hadv.ahead
      simp only [probeWork, Event.isProbe, Event.isStartup, if_true]
      omega
  | lifespan ev =>
    rcases startup_or_steady h with ⟨env, rfl, rfl⟩ | hsteady
    · change (s.startup cfg env).probeWork + 0 ≤ s.probeWork + 3
      have hmove : LifespanMove cfg s (.startup env) (s.startup cfg env) := lifespanStep_cases h
      rcases hmove.probes_cases with heq | ⟨w, heq, -, hq⟩
      · rw [probeWork, probeWork, heq]
        exact Nat.le_add_right _ _
      · rw [probeWork, probeWork, heq, List.map_append, List.sum_append, List.map_singleton,
          List.sum_singleton, hq]
        exact Nat.le_refl _
    · exact (same hsteady.probes).trans (Nat.le_add_right _ _)

/-- The steps that requests with a permit and probes have ahead of them. -/
def callWork (s : Application F) : Nat := s.drainWork + s.probeWork

/-- A step of `predict` that its call allows is possible. -/
theorem step_of_call (cfg : Config F) {c : CallId} {w : Work F} {ev : WorkEvent F}
    (hc : s.call c = some w)
    (h : (w.advance cfg.inputElems s.shared.isStopped ev).isSome = true) :
    ∃ t, s.step cfg (c.event ev) = some t := by
  obtain ⟨w', hadv⟩ := Option.isSome_iff_exists.mp h
  cases c with
  | request i =>
    obtain ⟨r, hr, hw⟩ := Option.bind_eq_some_iff.mp hc
    simp only [CallId.event, step, hr, Request.step, hw, Request.nativeStep, Option.bind_some,
      hadv, Option.map_some]
    exact ⟨_, rfl⟩
  | probe k =>
    have hw : s.probes[k]? = some w := hc
    simp only [CallId.event, step, hw, Option.bind_some, hadv, Option.map_some]
    exact ⟨_, rfl⟩

/-- Every step of `predict` is one that the server has to make: only a request with a permit has a
call. -/
theorem callWork_event {s₀ : Application F} (hd : Draining cfg s₀ s) {c : CallId} {w : Work F}
    {ev : WorkEvent F} (hc : s.call c = some w) (h : s.step cfg (c.event ev) = some t) :
    t.callWork + 1 ≤ s.callWork := by
  have hdrain := (hd.step h).2
  have hprobe := probeWork_step h
  cases c with
  | probe k =>
    simp only [CallId.event, isDrainStep, Event.isProbe, Event.isStartup, if_true,
      Bool.false_eq_true, if_false] at hdrain hprobe
    simp only [callWork]
    omega
  | request i =>
    obtain ⟨r, hr, hw⟩ := Option.bind_eq_some_iff.mp hc
    have hleased : s₀.isDrainStep (.request i (.native (.advance ev))) = true := by
      rw [isDrainStep, ← hd.leases i, holdsLease, hr, Option.any_some]
      cases hl : r.lease with
      | some l => rfl
      | none =>
        rw [((hd.balanced.ok r (List.mem_of_getElem? hr)).unleased hl).2.1] at hw
        cases hw
    simp only [CallId.event, hleased, Event.isProbe, Event.isStartup, if_true,
      Bool.false_eq_true, if_false] at hdrain hprobe
    simp only [callWork]
    omega

end Application

namespace Deployment

variable {cfg : DeploymentConfig F} {s t u : Deployment F}

def Event.isStartup : Event F → Bool
  | .app ev => ev.isStartup
  | _ => false

/-- The events by which a scheduler gets to its next stage. -/
def Event.rouses : Event F → Bool
  | .scheduler _ ev => ev.rouses
  | _ => false

/-- A step towards the return of the permits that are out in `s`: of their requests, of a native
call, or of the batch that a scheduler has in hand. -/
def isDrainStep (s : Deployment F) : Event F → Bool
  | .app ev => s.app.isDrainStep ev || ev.isProbe
  | .predict _ _ _ => true
  | .complete _ => true
  | .scheduler _ ev => ev.advances
  | _ => false

/-- A bound on these steps. A call may leave nine of them to its scheduler. -/
def drainWork (s : Deployment F) : Nat :=
  10 * s.app.callWork + (s.schedulers.map Scheduler.load).sum

/-- What holds in every run: executors have workers, and schedulers neither sleep on a request nor
leave one behind. -/
structure Serves (cfg : DeploymentConfig F) (s : Deployment F) : Prop where
  pooled : s.Pooled cfg
  steered : ∀ r ∈ s.app.requests, r.Steered
  staffed : 0 < s.app.shared.executors.length → 1 ≤ cfg.executorWorkers
  awake : ∀ d ∈ s.schedulers, d.Notified ∧ d.Manned

/-- And since the controller was closed and the deadlines passed, in `s`. -/
structure Draining (cfg : DeploymentConfig F) (s t : Deployment F) : Prop extends
    Serves cfg t where
  app : Application.Draining cfg.toConfig s.app t.app

theorem serves_init (cfg : DeploymentConfig F) : Serves cfg (init cfg) where
  pooled := pooled_init cfg
  steered _ hr := absurd hr List.not_mem_nil
  staffed h := absurd h (Nat.lt_irrefl 0)
  awake _ hd := absurd hd List.not_mem_nil

theorem Serves.step (h : Serves cfg s) {e : Event F} (ht : s.pooledStep cfg e = some t) :
    Serves cfg t := by
  obtain ⟨-, hstep⟩ := pooledStep_eq_some.mp ht
  have happ := app_of_step hstep
  refine ⟨h.pooled.step ht, ?_, ?_, ?_⟩
  · rcases happ with heq | ⟨ev, hev, -⟩
    · rw [heq]
      exact h.steered
    · exact Application.steered_step h.steered hev
  · rcases happ with heq | ⟨ev, hev, -⟩
    · rw [heq]
      exact h.staffed
    · rcases (Application.adds_of_step hev).staffed with hle | hworkers
      · exact fun hpos ↦ h.staffed (Nat.lt_of_lt_of_le hpos hle)
      · exact fun _ ↦ hworkers
  · refine (step_cases hstep).schedulers h.pooled.wired ?_ ?_ h.awake
    · exact ⟨Scheduler.notified_of_ne (by simp [started]), fun hw ↦ by cases hw⟩
    · rintro d e d' hi ⟨hn, hm⟩ hd
      exact ⟨hn.step hd, hm.step hi hd⟩

theorem Draining.step (h : Draining cfg s t) {e : Event F} (hu : t.pooledStep cfg e = some u) :
    Draining cfg s u := by
  refine ⟨h.toServes.step hu, ?_⟩
  rcases app_of_step (pooledStep_eq_some.mp hu).2 with heq | ⟨ev, hev, -⟩
  · rw [heq]
    exact h.app
  · exact (h.app.step hev).1

/-- A step of one scheduler, submissions apart, works off its load. -/
private theorem load_set (hw : s.Wired cfg) {j : Nat} {d d' : Scheduler F} {e : Batching.Event F}
    (hd : s.schedulers[j]? = some d) (hstep : d.step cfg.scheduler e = some d') :
    ((s.schedulers.set j d').map Scheduler.load).sum + (if e.advances then 1 else 0) ≤
      (s.schedulers.map Scheduler.load).sum + (if e.isSubmit then 9 else 0) := by
  have hsum := sum_map_set (b := d') (f := Scheduler.load) hd
  have hload := Scheduler.load_step cfg.maxBatchSize_pos (hw.inv d (List.mem_of_getElem? hd)) hstep
  omega

/-- A step outside the schedulers. -/
private theorem drainWork_app (h : Draining cfg s t) {ev : Application.Event F}
    {app : Application F} (hstep : t.app.step cfg.toConfig ev = some app) :
    (t.adopt app).drainWork + (if s.isDrainStep (.app ev) then 1 else 0) ≤
      t.drainWork + (if ev.isStartup then 32 else 0) := by
  have hdrain := (h.app.step hstep).2
  have hprobe := Application.probeWork_step hstep
  have hruntimes := (Application.adds_of_step hstep).runtimes
  have hloads : ((t.adopt app).schedulers.map Scheduler.load).sum =
      (t.schedulers.map Scheduler.load).sum +
        2 * (app.shared.runtimes.length - t.app.shared.runtimes.length) := by
    simp only [adopt, List.map_append, List.sum_append, List.map_replicate,
      List.sum_replicate_nat, Nat.add_left_cancel_iff]
    exact Nat.mul_comm _ _
  have either (a b : Bool) : (if a || b then 1 else 0) ≤
      (if a then 1 else 0) + (if b then 1 else 0) := by
    cases a <;> cases b <;> decide
  have hcounted := either (s.app.isDrainStep ev) ev.isProbe
  have hstart : (if ev.isStartup then 32 else 0) =
      10 * (if ev.isStartup then 3 else 0) + 2 * (if ev.isStartup then 1 else 0) := by
    split <;> rfl
  rw [drainWork, drainWork, hloads, hstart, isDrainStep]
  change 10 * (app.drainWork + app.probeWork) + _ + _ ≤
    10 * (t.app.drainWork + t.app.probeWork) + _ + _
  omega

/-- Every step of the deployment. -/
theorem Draining.work (h : Draining cfg s t) {e : Event F} (hu : t.step cfg e = some u) :
    u.drainWork + (if s.isDrainStep e then 1 else 0) ≤
      t.drainWork + (if e.isStartup then 32 else 0) := by
  have hw := h.pooled.wired
  cases e with
  | app ev =>
    simp only [Deployment.step] at hu
    split at hu
    · obtain ⟨app, happ, rfl⟩ := Option.map_eq_some_iff.mp hu
      exact drainWork_app h happ
    · cases hu
  | predict c requestId arrivalTime =>
    simp only [Deployment.step, predict, Option.bind_eq_some_iff] at hu
    obtain ⟨w, hcall, app, happ, hu⟩ := hu
    have hcalls := Application.callWork_event h.app hcall happ
    split at hu
    · cases hu
      simp only [drainWork, isDrainStep, Event.isStartup, if_true, Bool.false_eq_true, if_false]
      omega
    · obtain ⟨d, hd, rfl⟩ := Option.map_eq_some_iff.mp hu
      have hload := load_set hw hd (e := .submit requestId w.array arrivalTime) rfl
      simp only [Batching.Event.advances, Batching.Event.isSubmit, if_true, Bool.false_eq_true,
        if_false] at hload
      simp only [drainWork, isDrainStep, Event.isStartup, if_true, Bool.false_eq_true, if_false]
      omega
  | complete c =>
    simp only [Deployment.step, complete, Option.bind_eq_some_iff, Option.map_eq_some_iff] at hu
    obtain ⟨w, hcall, d, -, o, -, app, happ, rfl⟩ := hu
    have hcalls := Application.callWork_event h.app hcall happ
    simp only [drainWork, isDrainStep, Event.isStartup, if_true, Bool.false_eq_true, if_false]
    omega
  | scheduler j ev =>
    simp only [Deployment.step] at hu
    split at hu
    · next hown =>
      simp only [schedulerStep, Option.bind_eq_some_iff, Option.map_eq_some_iff] at hu
      obtain ⟨d, hd, d', hstep, rfl⟩ := hu
      have hload := load_set hw hd hstep
      have hsubmit : ev.isSubmit = false := by cases ev <;> first | rfl | cases hown
      simp only [hsubmit, Bool.false_eq_true, if_false] at hload
      change 10 * t.app.callWork + ((t.schedulers.set j d').map Scheduler.load).sum +
        (if ev.advances then 1 else 0) ≤ 10 * t.app.callWork + _ + 0
      omega
    · cases hu
  | stop j =>
    simp only [Deployment.step] at hu
    split at hu
    · simp only [schedulerStep, Option.bind_eq_some_iff, Option.map_eq_some_iff] at hu
      obtain ⟨d, hd, d', hstep, rfl⟩ := hu
      have hload := load_set hw hd hstep
      simp only [Batching.Event.advances, Batching.Event.isSubmit, Bool.false_eq_true,
        if_false] at hload
      simp only [drainWork, isDrainStep, Event.isStartup, Bool.false_eq_true, if_false]
      omega
    · cases hu
  | shutdown j =>
    simp only [Deployment.step, Option.bind_eq_some_iff, Option.map_eq_some_iff] at hu
    obtain ⟨v, hv, app, happ, rfl⟩ := hu
    simp only [schedulerStep, Option.bind_eq_some_iff, Option.map_eq_some_iff] at hv
    obtain ⟨d, hd, d', hstep, rfl⟩ := hv
    have hload := load_set hw hd hstep
    have hcalls : app.callWork = t.app.callWork := by
      cases Application.step_cases happ
      rfl
    simp only [Batching.Event.advances, Batching.Event.isSubmit, Bool.false_eq_true,
      if_false] at hload
    simp only [drainWork, isDrainStep, Event.isStartup, Bool.false_eq_true, if_false, hcalls]
    omega

/-! ### The next step -/

/-- A step towards the return of the permits that are out in `s` is possible, after at most two
events that rouse a scheduler. -/
def CanDrain (cfg : DeploymentConfig F) (s t : Deployment F) : Prop :=
  ∃ gs u e v, gs.length ≤ 2 ∧ (∀ g ∈ gs, Event.rouses g = true) ∧
    exec (pooledStep cfg) t gs = some u ∧ s.isDrainStep e = true ∧ u.pooledStep cfg e = some v

theorem CanDrain.now {e : Event F} (he : s.isDrainStep e = true)
    (hworker : t.hasWorker cfg e = true) (hu : (t.step cfg e).isSome = true) :
    CanDrain cfg s t := by
  obtain ⟨u, hu⟩ := Option.isSome_iff_exists.mp hu
  exact ⟨[], t, e, u, Nat.zero_le _, fun _ h ↦ absurd h List.not_mem_nil, rfl, he,
    pooledStep_eq_some.mpr ⟨hworker, hu⟩⟩

/-- A scheduler moves by itself. -/
private theorem pooledStep_scheduler {j : Nat} {d d' : Scheduler F} {ev : Batching.Event F}
    (hown : schedulerOwn ev = true) (hd : t.schedulers[j]? = some d)
    (hstep : d.step cfg.scheduler ev = some d') :
    t.pooledStep cfg (.scheduler j ev) =
      some { t with schedulers := t.schedulers.set j d' } := by
  refine pooledStep_eq_some.mpr ⟨rfl, ?_⟩
  simp only [step, hown, if_true, schedulerStep, hd, Option.bind_some, hstep, Option.map_some]

/-- A run of one scheduler is a run of the deployment. -/
private theorem exec_scheduler {j : Nat} {gs : List (Batching.Event F)}
    (hown : ∀ g ∈ gs, schedulerOwn g = true) {d d' : Scheduler F}
    (hd : t.schedulers[j]? = some d) (h : exec (Scheduler.step cfg.scheduler) d gs = some d') :
    exec (pooledStep cfg) t (gs.map (.scheduler j)) =
      some { t with schedulers := t.schedulers.set j d' } := by
  induction gs generalizing t d with
  | nil =>
    cases h
    have hsame : t.schedulers.set j d' = t.schedulers := by
      rw [← (List.getElem?_eq_some_iff.mp hd).2, List.set_getElem_self]
    rw [hsame]
    rfl
  | cons g gs ih =>
    have hlt := (List.getElem?_eq_some_iff.mp hd).1
    obtain ⟨m, hm, hrest⟩ := exec_cons_eq_some.mp h
    have hone := pooledStep_scheduler (hown g List.mem_cons_self) hd hm
    have htail := ih (t := { t with schedulers := t.schedulers.set j m })
      (fun g hg ↦ hown g (List.mem_cons_of_mem _ hg)) (List.getElem?_set_self hlt) hrest
    rw [List.map_cons]
    refine exec_cons_eq_some.mpr ⟨_, hone, htail.trans ?_⟩
    rw [List.set_set]

/-- A scheduler that holds a promise gets on. -/
theorem Draining.canDrain_of_pending (h : Draining cfg s t) {j : Nat} {d : Scheduler F}
    (hd : t.schedulers[j]? = some d) {p : Nat} (hp : p ∈ d.pending) : CanDrain cfg s t := by
  have hmem := List.mem_of_getElem? hd
  obtain ⟨hn, hm⟩ := h.awake d hmem
  have hthread : d.worker ≠ .absent := by
    intro habsent
    rw [Scheduler.pending, habsent, (hm habsent).2] at hp
    exact absurd hp List.not_mem_nil
  obtain ⟨gs, d₁, ev, d₂, hlen, hrouse, hrun, hadv, hstep⟩ :=
    Scheduler.canAdvance_of_pending cfg.maxBatchSize_pos (h.pooled.wired.inv d hmem) hn hp hthread
  have hlt := (List.getElem?_eq_some_iff.mp hd).1
  have hown : schedulerOwn ev = true := by cases ev <;> first | rfl | cases hadv
  refine ⟨gs.map (.scheduler j), _, .scheduler j ev, _, ?_, ?_,
    exec_scheduler ?_ hd hrun, hadv,
    pooledStep_scheduler hown (List.getElem?_set_self hlt) hstep⟩
  · rw [List.length_map]
    exact hlen
  · intro g hg
    obtain ⟨x, hx, rfl⟩ := List.mem_map.mp hg
    exact hrouse x hx
  · intro g hg
    have hrouses := hrouse g hg
    cases g <;> first | rfl | cases hrouses

/-- A worker of the pool that is in `predict` gets on: it submits, its promise is resolved, or the
scheduler works on it. -/
theorem Draining.canDrain_of_busy (h : Draining cfg s t) {c : CallId} {w : Work F}
    (hc : t.app.call c = some w) (hbusy : w.phase = .running ∨ w.phase = .predicting) :
    CanDrain cfg s t := by
  rcases hbusy with hp | hp
  · have hlt : w.runtime < t.schedulers.length := by
      rw [h.pooled.wired.paired]
      exact (h.pooled.placed c w hc).2
    have hlen := h.pooled.wired.arrays w (Application.mem_works_of_call hc)
    have hadv : (w.advance cfg.inputElems t.app.shared.isStopped .predict).isSome = true := by
      simp only [Work.advance, hp, if_true, hlen, ne_eq, not_true_eq_false, if_false]
      split <;> rfl
    obtain ⟨app, happ⟩ := Application.step_of_call cfg.toConfig hc hadv
    refine .now (e := .predict c 0 0) rfl rfl ?_
    simp only [Deployment.step, predict, hc, Option.bind_some, happ, hlen, ne_eq,
      not_true_eq_false, if_false, List.getElem?_eq_getElem hlt, Option.map_some,
      Option.isSome_some]
  · obtain ⟨d, req, hd, hsub, hlookup⟩ := h.pooled.linked.waiting c w hc hp
    by_cases hpending : req.resultPromise ∈ d.pending
    · exact h.canDrain_of_pending hd hpending
    · have hi := h.pooled.wired.inv d (List.mem_of_getElem? hd)
      have hacc := List.mem_map_of_mem (f := (·.resultPromise)) (Scheduler.mem_accepted.mpr hsub)
      obtain ⟨x, hx, hpromise⟩ := List.mem_map.mp ((hi.pending_or_resolved hacc).mp hpending)
      have hsome : (d.resolved.lookup req.resultPromise).isSome = true :=
        List.lookup_isSome_iff.mpr ⟨x, hx, beq_iff_eq.mpr hpromise.symm⟩
      obtain ⟨o, ho⟩ := Option.isSome_iff_exists.mp hsome
      have hadv : (w.advance cfg.inputElems t.app.shared.isStopped
          (.complete (o.map fun res ↦ (res.requestId, res.logits)))).isSome = true := by
        simp only [Work.advance, hp, if_true, Option.isSome_some]
      obtain ⟨app, happ⟩ := Application.step_of_call cfg.toConfig hc hadv
      refine .now (e := .complete c) rfl rfl ?_
      simp only [Deployment.step, complete, hc, Option.bind_some, hd, hlookup, ho, happ,
        Option.map_some, Option.isSome_some]

/-- Every call that waits for a worker gets one, or a worker of its executor gets on. -/
theorem Draining.canDrain_of_queued (h : Draining cfg s t) {c : CallId} {w : Work F}
    (hc : t.app.call c = some w) (hp : w.phase = .queued)
    (hcounted : s.isDrainStep (.app (c.event .take)) = true) : CanDrain cfg s t := by
  have hworkers : 1 ≤ cfg.executorWorkers :=
    h.staffed (Nat.lt_of_le_of_lt (Nat.zero_le _) (h.pooled.placed c w hc).1)
  by_cases hfree : t.app.busy w.executor < cfg.executorWorkers
  · have hadv : (w.advance cfg.inputElems t.app.shared.isStopped .take).isSome = true := by
      simp only [Work.advance, hp, if_true, Option.isSome_some]
    obtain ⟨app, happ⟩ := Application.step_of_call cfg.toConfig hc hadv
    refine .now hcounted ?_ ?_
    · cases c <;> simp [hasWorker, Event.taken, CallId.event, Application.Event.taken, hc, hfree]
    · have hlocal : ((c.event .take : Application.Event F).isLocal &&
          t.joined (c.event .take)) = true := by cases c <;> rfl
      rw [Deployment.step, if_pos hlocal, happ]
      rfl
  · -- all workers are taken, so one of them is in `predict`
    have hpos : 0 < t.app.busy w.executor := by omega
    rw [Application.busy_eq_length] at hpos
    obtain ⟨c', hc'⟩ := List.length_pos_iff_exists_mem.mp hpos
    obtain ⟨w', hw', hbusy⟩ := (Option.any_eq_true _ _).mp (List.mem_filter.mp hc').2
    exact h.canDrain_of_busy hw' (Work.isBusy_iff.mp hbusy).2

/-- Until the last permit is back, a step towards it is possible. -/
theorem Draining.canDrain (h : Draining cfg s t)
    (hd : t.app.shared.admission.drained = false) : CanDrain cfg s t := by
  obtain ⟨i, ev, app, hcounted, happ⟩ := h.app.progress hd
  have hcounted' : s.isDrainStep (.app (.request i ev)) = true := by
    rw [isDrainStep, hcounted, Bool.true_or]
  by_cases hnative : ∃ wev, ev = .native (.advance wev)
  · obtain ⟨wev, rfl⟩ := hnative
    cases Application.step_cases happ with
    | @request _ _ r r' effect hr hstep =>
      simp only [Request.step, Option.bind_eq_some_iff, Request.nativeStep, Option.map_eq_some_iff]
        at hstep
      obtain ⟨w, hw, w', hadv, -⟩ := hstep
      have hc : t.app.call (.request i) = some w := by
        simp only [Application.call, hr, Option.bind_some, hw]
      cases Work.advance_cases hadv with
      | take hp => exact h.canDrain_of_queued hc hp hcounted'
      | submit hp => exact h.canDrain_of_busy hc (.inl hp)
      | missized hp => exact h.canDrain_of_busy hc (.inl hp)
      | reject hp => exact h.canDrain_of_busy hc (.inl hp)
      | complete hp => exact h.canDrain_of_busy hc (.inr hp)
  · -- no scheduler and no worker takes part
    have hlocal : (Application.Event.request i ev).isLocal = true ∧
        (Application.Event.request i ev).taken = none := by
      cases ev with
      | native nev =>
        cases nev with
        | advance wev => exact absurd ⟨wev, rfl⟩ hnative
        | _ => exact ⟨rfl, rfl⟩
      | _ => exact ⟨rfl, rfl⟩
    refine .now hcounted' ?_ ?_
    · rw [hasWorker, Event.taken, hlocal.2, Option.all_none]
    · have hguard : ((Application.Event.request i ev).isLocal &&
          t.joined (.request i ev)) = true := by
        rw [hlocal.1]
        rfl
      rw [Deployment.step, if_pos hguard, happ]
      rfl

/-- The server drains, whatever clients, cancellations, the clock, the engine and the threads do.
Once the controller is closed and the deadlines of the requests have passed, any continuation behind
the thread pools has at most `drainWork` more steps towards the return of the permits, 32 more for
each restart of the application; and until the last permit is back such a step is possible. -/
theorem server_drains {es : List (Event F)}
    (h : exec (pooledStep cfg) (init cfg) es = some s)
    (hclosed : s.app.shared.admission.closed = true)
    (hdue : ∀ r ∈ s.app.requests, ∀ d, r.deadline = some d → d ≤ s.app.shared.now)
    {fs : List (Event F)} (hrun : exec (pooledStep cfg) s fs = some t) :
    fs.countP s.isDrainStep ≤ s.drainWork + 32 * fs.countP Event.isStartup ∧
      (t.app.shared.admission.drained = true ∨ CanDrain cfg s t) := by
  have hs : Serves cfg s := exec_preserves (fun _ _ _ hu hv ↦ hu.step hv) h (serves_init cfg)
  have hstart : Draining cfg s s :=
    ⟨hs, hs.pooled.bound.balanced, hs.steered, hclosed, hdue, fun _ ↦ rfl⟩
  have hend : Draining cfg s t :=
    exec_preserves (P := Draining cfg s) (fun _ _ _ hd hu ↦ hd.step hu) hrun hstart
  constructor
  · have hle := exec_countP_le_add (I := Draining cfg s) (μ := drainWork) (p := s.isDrainStep)
      (q := Event.isStartup) (c := 32) (fun _ _ _ hd hu ↦ hd.step hu)
      (fun _ _ _ hd hu ↦ hd.work (pooledStep_eq_some.mp hu).2) hrun hstart
    omega
  · cases hd : t.app.shared.admission.drained with
    | true => exact .inl rfl
    | false => exact .inr (hend.canDrain hd)

/-- The promise of a request is pending when the server goes down, and its deadline passes. -/
def lateService : List (Event Int) :=
  [[.app (.lifespan (.startup { store := .ok [], engine := "stub" })), .app (.probe 0 .take),
      .predict (.probe 0) 0 0],
    unitBatch 0, [.complete (.probe 0), .app (.lifespan .probeResumed)],
    (Application.unitSubmission 0 Application.rawScope [7, 0, 0, 0]).map .app,
    [.app (.request 0 (.native (.advance .take))), .predict (.request 0) 1 0,
      .app (.lifespan .exit)],
    List.replicate 10 (.app .tick)].flatten

/-- The client gets its 504; then the scheduler serves the batch, and the permit comes back. -/
def lateBatch : List (Event Int) :=
  [([.middleware .resume, .app .cancelled, .middleware .resume, .watcher .cancelled,
      .middleware .resume, .middleware .send, .middleware .send, .middleware .resume,
      .middleware .resume, .middleware .finishHttp] : List (Request.Event Int)).map
        (fun ev ↦ .app (.request 0 ev)),
    unitBatch 7, [.complete (.request 0), .app (.request 0 (.native .callback)),
      .app (.request 0 (.native .release))]].flatten

theorem server_drains_lateBatch :
    ∃ s t, exec (pooledStep unitDeployment) (init unitDeployment) lateService = some s ∧
      exec (pooledStep unitDeployment) s lateBatch = some t ∧
      lateBatch.countP s.isDrainStep = 20 ∧ 20 ≤ s.drainWork ∧
      t.app.shared.admission.drained = true := by
  have hfacts : (exec (pooledStep unitDeployment) (init unitDeployment) lateService).bind (fun s ↦
      (exec (pooledStep unitDeployment) s lateBatch).map fun t ↦
        (s.app.shared.admission.closed, s.app.requests.map (·.deadline), s.app.shared.now,
          lateBatch.countP s.isDrainStep, lateBatch.countP Event.isStartup,
          t.app.shared.admission.drained)) =
      some (true, [some 10], 10, 20, 0, true) := by
    decide +kernel
  obtain ⟨s, hs, hfacts⟩ := Option.bind_eq_some_iff.mp hfacts
  obtain ⟨t, ht, hfacts⟩ := Option.map_eq_some_iff.mp hfacts
  simp only [Prod.mk.injEq] at hfacts
  obtain ⟨hclosed, hdeadlines, hnow, hcount, hstarts, hdrained⟩ := hfacts
  have hdue : ∀ r ∈ s.app.requests, ∀ d, r.deadline = some d → d ≤ s.app.shared.now := by
    intro r hr d hd
    have hmem : r.deadline ∈ s.app.requests.map (·.deadline) := List.mem_map_of_mem hr
    rw [hdeadlines, hd, List.mem_singleton] at hmem
    cases hmem
    rw [hnow]
  have hle := (server_drains hs hclosed hdue ht).1
  rw [hcount, hstarts] at hle
  exact ⟨s, t, hs, ht, hcount, hle, hdrained⟩

end Deployment
end InferenceServer.Server
