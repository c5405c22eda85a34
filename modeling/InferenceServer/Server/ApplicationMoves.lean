import InferenceServer.Server.Application

/-!
# What a step of the application can do

Library `Server`. `LifespanMove cfg s ev t` lists the steps of the lifespan with their guards, and
`Move cfg s e t` those of the application.
-/

namespace InferenceServer.Server

variable {F : Type}

/-- From here a cancellation ends the coroutine. -/
def LifespanPc.canAbandon : LifespanPc → Bool
  | .draining => true
  | .drained => true
  | .stopRuntime => true
  | .stopExecutor => true
  | _ => false

namespace Application

/-- The steps of the lifespan. -/
inductive LifespanMove (cfg : Config F) (s : Application F) :
    LifespanEvent → Application F → Prop where
  | startFails {ev : LifespanEvent} (h : s.lifespan.pc = .down)
    (digests : Option (List ApiKeyRecord)) (executors : List Bool) (executor : Option Nat)
    (detail : String) :
    LifespanMove cfg s ev
      (stop { s with shared := { s.shared with digests, executors }, lifespan := { executor } }
        detail)
  | startRefused {ev : LifespanEvent} (h : s.lifespan.pc = .down)
    (digests : Option (List ApiKeyRecord)) (executors : List Bool) (executor : Option Nat)
    (detail : String) :
    LifespanMove cfg s ev
      (stop
        { s with
          shared := { s.shared with digests, executors, runtimes := s.shared.runtimes ++ [false] }
          lifespan := { executor, runtime := some s.shared.runtimes.length } } detail)
  | startProbe {ev : LifespanEvent} (h : s.lifespan.pc = .down)
    (digests : Option (List ApiKeyRecord)) (executors : List Bool) (executor : Nat) :
    LifespanMove cfg s ev
      { s with
        shared :=
          { s.shared with
            ready := false, readinessDetail := "starting", digests, executors
            runtimes := s.shared.runtimes ++ [false] }
        probes := s.probes ++
          [{ array := List.replicate cfg.inputElems cfg.zero, executor
             runtime := s.shared.runtimes.length }]
        lifespan :=
          { pc := .awaitProbe, runtime := some s.shared.runtimes.length
            startupProbe := some s.probes.length, executor := some executor } }
  | stop {ev : LifespanEvent} (h : s.lifespan.pc = .awaitProbe ∨ s.lifespan.pc = .serving)
    (detail : String) : LifespanMove cfg s ev (s.stop detail)
  | ready (h : s.lifespan.pc = .awaitProbe) :
    LifespanMove cfg s .probeResumed
      { s with
        shared := { s.shared with ready := true, readinessDetail := "ready" }
        lifespan := { s.lifespan with pc := .serving } }
  | drained {ev : LifespanEvent} (h : s.lifespan.pc = .draining)
    (hd : s.shared.admission.drained = true) :
    LifespanMove cfg s ev { s with lifespan := { s.lifespan with pc := .drained } }
  | joinProbe {ev : LifespanEvent} (h : s.lifespan.pc = .drained) :
    LifespanMove cfg s ev { s with lifespan := { s.lifespan with pc := .joinProbe } }
  | stopRuntime {ev : LifespanEvent} (h : s.lifespan.pc = .drained ∨ s.lifespan.pc = .joinProbe)
    (hp : s.runningProbe = none) : LifespanMove cfg s ev (s.stopRuntime cfg)
  | joinCancelled (h : s.lifespan.pc = .joinProbe) :
    LifespanMove cfg s .cancel (s.stopRuntime cfg)
  | abandoned {ev : LifespanEvent} (h : s.lifespan.pc.canAbandon = true) :
    LifespanMove cfg s ev { s with lifespan := { s.lifespan with pc := .down } }
  | stopExecutor {ev : LifespanEvent} (h : s.lifespan.pc = .stopRuntime) :
    LifespanMove cfg s ev (s.stopExecutor cfg)
  | clear {ev : LifespanEvent} (h : s.lifespan.pc = .stopExecutor) :
    LifespanMove cfg s ev (s.clear cfg)

private theorem startup_cases (cfg : Config F) {s : Application F} (ev : LifespanEvent)
    (h : s.lifespan.pc = .down) (env : StartupEnv) :
    LifespanMove cfg s ev (s.startup cfg env) := by
  unfold startup
  dsimp only
  split
  · exact .startFails h _ _ _ _
  · split
    · exact .startFails h _ _ _ _
    · split
      · exact .startFails h _ _ _ _
      · split
        · exact .startFails h _ _ _ _
        · split
          · exact .startRefused h _ _ _ _
          · exact .startProbe h _ _ _

private theorem probeResumed_cases (cfg : Config F) {s : Application F}
    (h : s.lifespan.pc = .awaitProbe) (result : NativeResult F) :
    LifespanMove cfg s .probeResumed (s.probeResumed cfg result) := by
  unfold probeResumed
  split
  · exact .stop (.inl h) _
  · dsimp only
    split
    · exact .stop (.inl h) _
    · split
      · exact .ready h
      · exact .stop (.inl h) _

private theorem cancel_cases {cfg : Config F} {s t : Application F} (h : s.cancel cfg = some t) :
    LifespanMove cfg s .cancel t := by
  unfold cancel at h
  split at h
  · cases h
  · next hpc =>
    cases h
    exact .stop (.inl hpc) _
  · next hpc =>
    cases h
    exact .stop (.inr hpc) _
  · next hpc =>
    cases h
    exact .joinCancelled hpc
  · next hdown hawait hserving hjoin =>
    cases h
    refine .abandoned ?_
    cases hpc : s.lifespan.pc with
    | down => exact absurd hpc hdown
    | awaitProbe => exact absurd hpc hawait
    | serving => exact absurd hpc hserving
    | joinProbe => exact absurd hpc hjoin
    | draining => rfl
    | drained => rfl
    | stopRuntime => rfl
    | stopExecutor => rfl

/-- Everything the lifespan can do. -/
theorem lifespanStep_cases {cfg : Config F} {s t : Application F} {ev : LifespanEvent}
    (h : s.lifespanStep cfg ev = some t) : LifespanMove cfg s ev t := by
  cases ev with
  | startup env =>
    simp only [lifespanStep] at h
    split at h
    · next hpc =>
      cases h
      exact startup_cases cfg _ hpc env
    · cases h
  | probeResumed =>
    simp only [lifespanStep] at h
    split at h
    · next hpc =>
      rw [Option.map_eq_some_iff] at h
      obtain ⟨result, -, rfl⟩ := h
      exact probeResumed_cases cfg hpc result
    · cases h
  | exit =>
    simp only [lifespanStep] at h
    split at h
    · next hpc =>
      cases h
      exact .stop (.inr hpc) _
    · cases h
  | cancel => exact cancel_cases h
  | drained =>
    simp only [lifespanStep] at h
    split at h
    · next hpc =>
      cases h
      exact .drained hpc.1 hpc.2
    · cases h
  | drainResumed =>
    simp only [lifespanStep] at h
    split at h
    · next hpc =>
      cases h
      unfold joinProbe
      split
      · exact .joinProbe hpc
      · next hp => exact .stopRuntime (.inl hpc) hp
    · cases h
  | probeJoined =>
    simp only [lifespanStep] at h
    split at h
    · next hpc =>
      cases h
      exact .stopRuntime (.inr hpc.1) (Option.isNone_iff_eq_none.mp hpc.2)
    · cases h
  | runtimeStopped =>
    simp only [lifespanStep] at h
    split at h
    · next hpc =>
      cases h
      exact .stopExecutor hpc.1
    · cases h
  | executorStopped =>
    simp only [lifespanStep] at h
    split at h
    · next hpc =>
      cases h
      exact .clear hpc.1
    · cases h

/-- The steps of the application. -/
inductive Move (cfg : Config F) (s : Application F) : Event F → Application F → Prop where
  | tick : Move cfg s .tick { s with shared := { s.shared with now := s.shared.now + 1 } }
  | arrive (scope : Scope) :
    Move cfg s (.arrive scope) { s with requests := s.requests ++ [{ scope }] }
  | request {i : Nat} {ev : Request.Event F} {r r' : Request F} {effect : Effect}
    (hr : s.requests[i]? = some r) (hstep : r.step cfg s.shared ev = some (r', effect)) :
    Move cfg s (.request i ev)
      { s with shared := s.shared.apply effect, requests := s.requests.set i r' }
  | probe {k : Nat} {ev : WorkEvent F} {w w' : Work F} (hw : s.probes[k]? = some w)
    (hadv : w.Advance s.shared.isStopped ev w') :
    Move cfg s (.probe k ev) { s with probes := s.probes.set k w' }
  | lifespan {ev : LifespanEvent} {t : Application F} (h : LifespanMove cfg s ev t) :
    Move cfg s (.lifespan ev) t
  | shutdownRuntime {j : Nat} (hj : j ∈ s.runtimeShutdowns) :
    Move cfg s (.shutdownRuntime j)
      { s with shared := { s.shared with runtimes := s.shared.runtimes.set j true } }
  | shutdownExecutor {k : Nat} (hk : k ∈ s.executorShutdowns) :
    Move cfg s (.shutdownExecutor k)
      { s with shared := { s.shared with executors := s.shared.executors.set k true } }

/-- Everything the application can do. -/
theorem step_cases {cfg : Config F} {s t : Application F} {e : Event F}
    (h : s.step cfg e = some t) : Move cfg s e t := by
  cases e with
  | tick =>
    cases h
    exact .tick
  | arrive scope =>
    cases h
    exact .arrive scope
  | request i ev =>
    simp only [step, Option.bind_eq_some_iff, Option.map_eq_some_iff] at h
    obtain ⟨r, hr, ⟨r', effect⟩, hstep, rfl⟩ := h
    exact .request hr hstep
  | probe k ev =>
    simp only [step, Option.bind_eq_some_iff, Option.map_eq_some_iff] at h
    obtain ⟨w, hw, w', hadv, rfl⟩ := h
    exact .probe hw (Work.advance_cases hadv)
  | lifespan ev => exact .lifespan (lifespanStep_cases h)
  | shutdownRuntime j =>
    simp only [step] at h
    split at h
    · next hj =>
      cases h
      exact .shutdownRuntime hj
    · cases h
  | shutdownExecutor k =>
    simp only [step] at h
    split at h
    · next hk =>
      cases h
      exact .shutdownExecutor hk
    · cases h

/-! ### Runtimes -/

theorem isStopped_snoc (g : Shared) (j : Nat) :
    ({ g with runtimes := g.runtimes ++ [false] } : Shared).isStopped j = g.isStopped j := by
  unfold Shared.isStopped
  by_cases hj : j < g.runtimes.length
  · rw [List.getElem?_append_left hj]
  · rw [List.getElem?_append_right (by omega),
      List.getElem?_eq_none (by omega : g.runtimes.length ≤ j), List.getElem?_singleton]
    split <;> rfl

theorem apply_runtimes (g : Shared) (effect : Effect) :
    (g.apply effect).runtimes = g.runtimes := by
  cases effect <;> rfl

theorem stopExecutor_runtimes (cfg : Config F) (s : Application F) :
    (s.stopExecutor cfg).shared.runtimes = s.shared.runtimes := by
  unfold stopExecutor
  split <;> rfl

theorem stopRuntime_runtimes (cfg : Config F) (s : Application F) :
    (s.stopRuntime cfg).shared.runtimes = s.shared.runtimes := by
  unfold stopRuntime
  split
  · rfl
  · exact stopExecutor_runtimes cfg s

/-- A startup adds a runtime that is not stopped; nothing else of the lifespan touches them. -/
theorem LifespanMove.runtimes_cases {cfg : Config F} {s t : Application F} {ev : LifespanEvent}
    (h : LifespanMove cfg s ev t) :
    t.shared.runtimes = s.shared.runtimes ∨ t.shared.runtimes = s.shared.runtimes ++ [false] := by
  cases h with
  | startRefused => exact .inr rfl
  | startProbe => exact .inr rfl
  | stopRuntime => exact .inl (stopRuntime_runtimes cfg s)
  | joinCancelled => exact .inl (stopRuntime_runtimes cfg s)
  | stopExecutor => exact .inl (stopExecutor_runtimes cfg s)
  | _ => exact .inl rfl

end Application
end InferenceServer.Server
