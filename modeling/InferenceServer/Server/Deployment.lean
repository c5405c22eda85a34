import InferenceServer.Batching.Delivery
import InferenceServer.Server.ApplicationMoves
import InferenceServer.Server.RequestMoves

/-!
# The application over its schedulers

Library `Server`. `cpp/src/bindings/module.cpp:45–93` ties the two models together: each runtime
owns a scheduler that runs from its construction on, `predict` submits to that scheduler and
blocks on the promise. So a native call ends with what its promise was resolved with, and
`runtime.shutdown` is `Scheduler::stop`. `stops` is a history: no step reads it.
-/

namespace InferenceServer.Server

open InferenceServer.Base InferenceServer.Batching

/-- The settings of the whole server, `python/cuda_db/config.py:50–105`. -/
structure DeploymentConfig (F : Type) extends Config F where
  maxBatchSize : Nat := 8
  maxWaitMs : Int := 5
  /-- `__post_init__` rejects anything less -/
  maxBatchSize_pos : 1 ≤ maxBatchSize

/-- `to_scheduler_config`, `module.cpp:147–154`. -/
def DeploymentConfig.scheduler {F : Type} (cfg : DeploymentConfig F) : SchedulerConfig where
  maxBatchSize := cfg.maxBatchSize
  maxWait := cfg.maxWaitMs
  inputElems := cfg.inputElems
  outputElems := cfg.outputElems

/-- A native call of the application. -/
inductive CallId where
  | request (i : Nat)
  | probe (k : Nat)
  deriving DecidableEq, Repr

variable {F : Type}

/-- A step of the worker that runs the call. -/
def CallId.event (ev : WorkEvent F) : CallId → Application.Event F
  | .request i => .request i (.native (.advance ev))
  | .probe k => .probe k ev

/-- A step of `predict` outside the scheduler. -/
def WorkEvent.isLocal : WorkEvent F → Bool
  | .take => true
  | .predict => false
  | .complete _ => false

def Request.Event.isLocal : Request.Event F → Bool
  | .native (.advance ev) => ev.isLocal
  | _ => true

namespace Application

/-- The call, once it was submitted to the executor. -/
def call (s : Application F) : CallId → Option (Work F)
  | .request i => s.requests[i]?.bind (·.work)
  | .probe k => s.probes[k]?

/-- All native calls. -/
def works (s : Application F) : List (Work F) := s.requests.filterMap (·.work) ++ s.probes

/-- An event in which no scheduler takes part. -/
def Event.isLocal : Event F → Bool
  | .request _ ev => ev.isLocal
  | .probe _ ev => ev.isLocal
  | .shutdownRuntime _ => false
  | _ => true

end Application

/-- The events of a scheduler that its own threads and those in `push` and `stop` bring about. -/
def schedulerOwn : Batching.Event F → Bool
  | .submit _ _ _ => false
  | .start => false
  | .spawn => false
  | .stop => false
  | .shutdown => false
  | _ => true

/-- The application and the scheduler of each runtime. -/
structure Deployment (F : Type) where
  app : Application F
  schedulers : List (Scheduler F) := []
  /-- the promise that each submitted call blocks on -/
  promises : List (CallId × Nat) := []
  /-- how often `stop_runtime` was entered -/
  stops : Nat := 0
  deriving DecidableEq

namespace Deployment

/-- What happens next. -/
inductive Event (F : Type) where
  | app (ev : Application.Event F)
  /-- a worker thread reaches `scheduler_.submit` in `predict` -/
  | predict (c : CallId) (requestId : Nat) (arrivalTime : Int)
  /-- `future.get()` returns or throws -/
  | complete (c : CallId)
  | scheduler (j : Nat) (ev : Batching.Event F)
  /-- a thread in `runtime.shutdown` clears `running_` -/
  | stop (j : Nat)
  /-- and closes the queue -/
  | shutdown (j : Nat)

/-- After `create_app`. -/
def init (cfg : DeploymentConfig F) : Deployment F where
  app := Application.init cfg.toConfig

/-- A scheduler as the constructor of the runtime leaves it, `module.cpp:47–53`. -/
def started : Scheduler F := { running := true, worker := .waiting .entry }

/-- The application took a step of its own: a new runtime brings its scheduler. -/
def adopt (s : Deployment F) (app : Application F) : Deployment F :=
  { s with
    app
    schedulers := s.schedulers ++
      List.replicate (app.shared.runtimes.length - s.app.shared.runtimes.length) started
    stops := s.stops +
      if app.lifespan.pc = .draining ∧ s.app.lifespan.pc ≠ .draining then 1 else 0 }

/-- `await asyncio.to_thread(runtime.shutdown)` returns only after the join. -/
def joined (s : Deployment F) : Application.Event F → Bool
  | .lifespan .runtimeStopped =>
    s.app.lifespan.runtime.all fun j ↦ s.schedulers[j]?.all fun d ↦ d.caller = .idle
  | _ => true

/-- `predict` on the array of a call, `module.cpp:67–85`. -/
def predict (cfg : DeploymentConfig F) (s : Deployment F) (c : CallId) (requestId : Nat)
    (arrivalTime : Int) : Option (Deployment F) :=
  (s.app.call c).bind fun w ↦
    (s.app.step cfg.toConfig (c.event .predict)).bind fun app ↦
      if w.array.length ≠ cfg.inputElems then some { s with app }
      else
        s.schedulers[w.runtime]?.map fun d ↦
          { s with
            app
            schedulers := s.schedulers.set w.runtime (d.submit requestId w.array arrivalTime)
            promises := s.promises ++ [(c, d.submits.length)] }

/-- The promise of a call is resolved, `module.cpp:86–93`. -/
def complete (cfg : DeploymentConfig F) (s : Deployment F) (c : CallId) : Option (Deployment F) :=
  (s.app.call c).bind fun w ↦
    s.schedulers[w.runtime]?.bind fun d ↦
      ((s.promises.lookup c).bind fun p ↦ d.resolved.lookup p).bind fun o ↦
        (s.app.step cfg.toConfig
          (c.event (.complete (o.map fun res ↦ (res.requestId, res.logits))))).map fun app ↦
            { s with app }

/-- One step of a scheduler. -/
def schedulerStep (cfg : DeploymentConfig F) (s : Deployment F) (j : Nat)
    (ev : Batching.Event F) : Option (Deployment F) :=
  s.schedulers[j]?.bind fun d ↦
    (d.step cfg.scheduler ev).map fun d' ↦ { s with schedulers := s.schedulers.set j d' }

/-- One step of the deployment. -/
def step (cfg : DeploymentConfig F) (s : Deployment F) : Event F → Option (Deployment F)
  | .app ev =>
    if ev.isLocal && s.joined ev then (s.app.step cfg.toConfig ev).map s.adopt else none
  | .predict c requestId arrivalTime => s.predict cfg c requestId arrivalTime
  | .complete c => s.complete cfg c
  | .scheduler j ev => if schedulerOwn ev then s.schedulerStep cfg j ev else none
  | .stop j => if j ∈ s.app.runtimeShutdowns then s.schedulerStep cfg j .stop else none
  | .shutdown j =>
    (s.schedulerStep cfg j .shutdown).bind fun s ↦
      (s.app.step cfg.toConfig (.shutdownRuntime j)).map fun app ↦ { s with app }

/-- Everything a step can do: the application moves alone, a call enters or leaves its
scheduler, or a scheduler moves. -/
inductive Move (cfg : DeploymentConfig F) (s : Deployment F) : Deployment F → Prop where
  | app {ev : Application.Event F} {app : Application F} (hl : ev.isLocal = true)
    (h : s.app.step cfg.toConfig ev = some app) : Move cfg s (s.adopt app)
  | missized {c : CallId} {w : Work F} {app : Application F} (hw : s.app.call c = some w)
    (h : s.app.step cfg.toConfig (c.event .predict) = some app)
    (hlen : w.array.length ≠ cfg.inputElems) : Move cfg s { s with app }
  | submit {c : CallId} {w : Work F} {app : Application F} {d : Scheduler F}
    (hw : s.app.call c = some w) (h : s.app.step cfg.toConfig (c.event .predict) = some app)
    (hlen : w.array.length = cfg.inputElems) (hd : s.schedulers[w.runtime]? = some d)
    (requestId : Nat) (arrivalTime : Int) :
    Move cfg s
      { s with
        app
        schedulers := s.schedulers.set w.runtime (d.submit requestId w.array arrivalTime)
        promises := s.promises ++ [(c, d.submits.length)] }
  | complete {c : CallId} {w : Work F} {app : Application F} {d : Scheduler F} {p : Nat}
    {o : Outcome F} (hw : s.app.call c = some w) (hd : s.schedulers[w.runtime]? = some d)
    (hp : s.promises.lookup c = some p) (ho : d.resolved.lookup p = some o)
    (h : s.app.step cfg.toConfig
      (c.event (.complete (o.map fun res ↦ (res.requestId, res.logits)))) = some app) :
    Move cfg s { s with app }
  | scheduler {j : Nat} {ev : Batching.Event F} {d d' : Scheduler F}
    (hd : s.schedulers[j]? = some d) (h : d.step cfg.scheduler ev = some d')
    (hev : ∀ requestId input arrivalTime, ev ≠ .submit requestId input arrivalTime) :
    Move cfg s { s with schedulers := s.schedulers.set j d' }
  | shutdown {j : Nat} {d d' : Scheduler F} {app : Application F}
    (hd : s.schedulers[j]? = some d) (h : d.step cfg.scheduler .shutdown = some d')
    (happ : s.app.step cfg.toConfig (.shutdownRuntime j) = some app) :
    Move cfg s { s with app, schedulers := s.schedulers.set j d' }

private theorem schedulerStep_eq_some {cfg : DeploymentConfig F} {s t : Deployment F} {j : Nat}
    {ev : Batching.Event F} (h : s.schedulerStep cfg j ev = some t) :
    ∃ d d', s.schedulers[j]? = some d ∧ d.step cfg.scheduler ev = some d' ∧
      t = { s with schedulers := s.schedulers.set j d' } := by
  simp only [schedulerStep, Option.bind_eq_some_iff, Option.map_eq_some_iff] at h
  obtain ⟨d, hd, d', hstep, rfl⟩ := h
  exact ⟨d, d', hd, hstep, rfl⟩

theorem step_cases {cfg : DeploymentConfig F} {s t : Deployment F} {e : Event F}
    (h : s.step cfg e = some t) : Move cfg s t := by
  cases e with
  | app ev =>
    simp only [step] at h
    split at h
    · next hl =>
      rw [Bool.and_eq_true] at hl
      obtain ⟨app, happ, rfl⟩ := Option.map_eq_some_iff.mp h
      exact .app hl.1 happ
    · cases h
  | predict c requestId arrivalTime =>
    simp only [step, predict, Option.bind_eq_some_iff] at h
    obtain ⟨w, hw, app, happ, h⟩ := h
    split at h
    · next hlen =>
      cases h
      exact .missized hw happ hlen
    · next hlen =>
      obtain ⟨d, hd, rfl⟩ := Option.map_eq_some_iff.mp h
      exact .submit hw happ (not_not.mp hlen) hd _ _
  | complete c =>
    simp only [step, complete, Option.bind_eq_some_iff, Option.map_eq_some_iff] at h
    obtain ⟨w, hw, d, hd, o, ⟨p, hp, ho⟩, app, happ, rfl⟩ := h
    exact .complete hw hd hp ho happ
  | scheduler j ev =>
    simp only [step] at h
    split at h
    · next hown =>
      obtain ⟨d, d', hd, hstep, rfl⟩ := schedulerStep_eq_some h
      refine .scheduler hd hstep ?_
      rintro requestId input arrivalTime rfl
      cases hown
    · cases h
  | stop j =>
    simp only [step] at h
    split at h
    · obtain ⟨d, d', hd, hstep, rfl⟩ := schedulerStep_eq_some h
      exact .scheduler hd hstep fun _ _ _ ↦ nofun
    · cases h
  | shutdown j =>
    simp only [step, Option.bind_eq_some_iff, Option.map_eq_some_iff] at h
    obtain ⟨m, hm, app, happ, rfl⟩ := h
    obtain ⟨d, d', hd, hstep, rfl⟩ := schedulerStep_eq_some hm
    exact .shutdown hd hstep happ

end Deployment
end InferenceServer.Server
