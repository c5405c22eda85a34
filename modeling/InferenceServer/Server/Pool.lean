import InferenceServer.Server.Answers

/-!
# The thread pool in front of the scheduler

Library `Server`. `make_executor` (`python/cuda_db/server/executor.py:13–16`) bounds the number of
worker threads. A worker thread runs one `predict` and blocks in it until the promise is resolved
(`cpp/src/bindings/module.cpp:67–93`), so the size of the pool bounds what the scheduler can see
at a time. The order in which the pool takes its queued calls is left open.
-/

namespace InferenceServer.Server

open InferenceServer.Base InferenceServer.Batching

variable {F : Type}

/-- A worker thread of the executor is in `predict` for the call. -/
def Work.isBusy (executor : Nat) (w : Work F) : Bool :=
  w.executor == executor && (w.phase == .running || w.phase == .predicting)

theorem Work.isBusy_iff {executor : Nat} {w : Work F} :
    w.isBusy executor = true ↔
      w.executor = executor ∧ (w.phase = .running ∨ w.phase = .predicting) := by
  simp [isBusy]

/-- A call is busy after a step outside the schedulers if it was so before, or was taken. -/
theorem CallMoves.busy {taken : Prop} {o o' : Option (Work F)} (h : CallMoves taken o o')
    {executor : Nat} (hb : o'.any (·.isBusy executor) = true) :
    o.any (·.isBusy executor) = true ∨ taken ∧ ∃ w, o = some w ∧ w.executor = executor := by
  cases h with
  | absent => cases hb
  | submitted _ hq =>
    rw [Option.any_some, Work.isBusy_iff, hq] at hb
    rcases hb.2 with hp | hp <;> cases hp
  | @kept w w' ha he hp =>
    rw [Option.any_some, Work.isBusy_iff, he] at hb
    rcases hp with hsame | ⟨ht, -⟩ | ⟨-, hinactive⟩
    · left
      rw [Option.any_some, Work.isBusy_iff, ← hsame]
      exact hb
    · exact .inr ⟨ht, w, rfl, hb.1⟩
    · rcases hb.2 with hp | hp
      all_goals
        rw [hp] at hinactive
        cases hinactive

/-- A step of `predict` leaves its worker busy or frees it. -/
theorem Work.Advance.busy {stopped : Nat → Bool} {w w' : Work F} {ev : WorkEvent F}
    (h : w.Advance stopped ev w') {executor : Nat} (hb : w'.isBusy executor = true) :
    w.isBusy executor = true ∨ ev = .take ∧ w.executor = executor := by
  rw [Work.isBusy_iff] at hb
  cases h with
  | take => exact .inr ⟨rfl, hb.1⟩
  | submit hp => exact .inl (Work.isBusy_iff.mpr ⟨hb.1, .inl hp⟩)
  | missized =>
    rcases hb.2 with hp | hp <;> cases hp
  | reject =>
    rcases hb.2 with hp | hp <;> cases hp
  | complete =>
    rcases hb.2 with hp | hp <;> cases hp

theorem Request.busy_of_step {cfg : Config F} {g : Shared} {r r' : Request F} {effect : Effect}
    {ev : Request.Event F} (hok : r.Ok) (h : r.step cfg g ev = some (r', effect)) {executor : Nat}
    (hb : r'.work.any (·.isBusy executor) = true) :
    r.work.any (·.isBusy executor) = true ∨
      ev = .native (.advance .take) ∧ ∃ w, r.work = some w ∧ w.executor = executor := by
  by_cases hl : ev.isLocal = true
  · exact (Request.work_moves hok h hl).busy hb
  · have hadvance : ∃ wev, ev = .native (.advance wev) := by
      cases ev with
      | native nev =>
        cases nev with
        | advance wev => exact ⟨wev, rfl⟩
        | _ => exact absurd rfl hl
      | _ => exact absurd rfl hl
    obtain ⟨wev, rfl⟩ := hadvance
    simp only [Request.step, Option.bind_eq_some_iff, Request.nativeStep, Option.map_eq_some_iff,
      Prod.mk.injEq] at h
    obtain ⟨w, hw, w', hadv, rfl, -⟩ := h
    rw [Option.any_some] at hb
    rw [hw, Option.any_some]
    rcases (Work.advance_cases hadv).busy hb with hb | ⟨rfl, he⟩
    · exact .inl hb
    · exact .inr ⟨rfl, w, rfl, he⟩

namespace Application

variable {cfg : Config F} {s t : Application F}

/-- The call that a worker takes from the queue of its executor. -/
def Event.taken : Event F → Option CallId
  | .request i (.native (.advance .take)) => some (.request i)
  | .probe k .take => some (.probe k)
  | _ => none

/-- The worker threads of the executor that are in `predict`. -/
def busy (s : Application F) (executor : Nat) : Nat :=
  s.requests.countP (fun r ↦ r.work.any (·.isBusy executor)) +
    s.probes.countP (·.isBusy executor)

/-- The event puts a worker of this executor to work. -/
def Takes (s : Application F) (e : Event F) (executor : Nat) : Prop :=
  ∃ c w, e.taken = some c ∧ s.call c = some w ∧ w.executor = executor

/-- The number of busy workers grows only as a worker takes a call. -/
theorem busy_step (hok : ∀ r ∈ s.requests, r.Ok) {e : Event F} (h : s.step cfg e = some t)
    (executor : Nat) :
    t.busy executor ≤ s.busy executor ∨
      s.Takes e executor ∧ t.busy executor ≤ s.busy executor + 1 := by
  cases step_cases h with
  | tick => exact .inl (Nat.le_refl _)
  | shutdownRuntime => exact .inl (Nat.le_refl _)
  | shutdownExecutor => exact .inl (Nat.le_refl _)
  | arrive scope =>
    left
    simp [busy, List.countP_append]
  | @request i ev r r' effect hr hstep =>
    have hcount := countP_set_eq (b := r') (p := fun r ↦ r.work.any (·.isBusy executor)) hr
    simp only [busy]
    cases hb : r'.work.any (·.isBusy executor) with
    | false =>
      rw [hb] at hcount
      left
      simp only [Bool.toNat_false] at hcount
      omega
    | true =>
      rw [hb] at hcount
      rcases Request.busy_of_step (hok r (List.mem_of_getElem? hr)) hstep hb with
        hbefore | ⟨rfl, w, hw, he⟩
      · left
        rw [hbefore] at hcount
        omega
      · right
        refine ⟨⟨.request i, w, rfl, ?_, he⟩, ?_⟩
        · simp only [call, hr, Option.bind_some, hw]
        · simp only [Bool.toNat_true] at hcount
          omega
  | @probe k ev w w' hw hadv =>
    have hcount := countP_set_eq (b := w') (p := fun w ↦ w.isBusy executor) hw
    simp only [busy]
    cases hb : w'.isBusy executor with
    | false =>
      rw [hb] at hcount
      left
      simp only [Bool.toNat_false] at hcount
      omega
    | true =>
      rw [hb] at hcount
      rcases hadv.busy hb with hbefore | ⟨rfl, he⟩
      · left
        rw [hbefore] at hcount
        omega
      · right
        refine ⟨⟨.probe k, w, rfl, hw, he⟩, ?_⟩
        simp only [Bool.toNat_true] at hcount
        omega
  | lifespan hmove =>
    left
    simp only [busy, hmove.requests_eq]
    rcases hmove.probes_cases with heq | ⟨w, heq, -, hq⟩
    · rw [heq]
    · have hidle : w.isBusy executor = false := by
        simp [Work.isBusy, hq]
      simp [heq, List.countP_append, hidle]

/-! ### Executors -/

/-- Every call is on an executor and a runtime that were created. -/
def Placed (s : Application F) : Prop :=
  ∀ c w, s.call c = some w →
    w.executor < s.shared.executors.length ∧ w.runtime < s.shared.runtimes.length

/-- Executors are only added, and a probe that is added is on one of them. -/
structure Staffs (s t : Application F) : Prop where
  executors : s.shared.executors <+: t.shared.executors
  probes : t.probes = s.probes ∨ ∃ w, t.probes = s.probes ++ [w] ∧
    w.executor < t.shared.executors.length ∧ w.runtime < t.shared.runtimes.length

theorem Staffs.same (he : t.shared.executors = s.shared.executors) (hp : t.probes = s.probes) :
    Staffs s t := ⟨he ▸ List.prefix_refl _, .inl hp⟩

theorem startup_staffs (cfg : Config F) (s : Application F) (env : StartupEnv) :
    Staffs s (s.startup cfg env) := by
  unfold startup
  dsimp only
  split
  · exact .same rfl rfl
  · split
    · exact .same rfl rfl
    · split
      · exact .same rfl rfl
      · split
        · exact ⟨List.prefix_append _ _, .inl rfl⟩
        · split
          · exact ⟨List.prefix_append _ _, .inl rfl⟩
          · refine ⟨List.prefix_append _ _, .inr ⟨_, rfl, ?_, ?_⟩⟩
            · simp
            · simp

/-- The lifespan leaves executors, runtimes and probes alone. -/
structure Steady (s t : Application F) : Prop where
  executors : t.shared.executors = s.shared.executors
  runtimes : t.shared.runtimes = s.shared.runtimes
  probes : t.probes = s.probes

theorem stopExecutor_steady (cfg : Config F) (s : Application F) :
    Steady s (s.stopExecutor cfg) := by
  unfold stopExecutor
  split <;> exact ⟨rfl, rfl, rfl⟩

theorem stopRuntime_steady (cfg : Config F) (s : Application F) :
    Steady s (s.stopRuntime cfg) := by
  unfold stopRuntime
  split
  · exact ⟨rfl, rfl, rfl⟩
  · exact stopExecutor_steady cfg s

/-- Only a startup creates anything. -/
theorem startup_or_steady {ev : LifespanEvent} (h : s.lifespanStep cfg ev = some t) :
    (∃ env, ev = .startup env ∧ t = s.startup cfg env) ∨ Steady s t := by
  cases ev with
  | startup env =>
    simp only [lifespanStep, Option.ite_none_right_eq_some, Option.some.injEq] at h
    exact .inl ⟨env, rfl, h.2.symm⟩
  | probeResumed =>
    simp only [lifespanStep, Option.ite_none_right_eq_some, Option.map_eq_some_iff] at h
    obtain ⟨-, result, -, rfl⟩ := h
    right
    unfold probeResumed
    split
    · exact ⟨rfl, rfl, rfl⟩
    · dsimp only
      split
      · exact ⟨rfl, rfl, rfl⟩
      · split <;> exact ⟨rfl, rfl, rfl⟩
  | exit =>
    simp only [lifespanStep, Option.ite_none_right_eq_some, Option.some.injEq] at h
    obtain ⟨-, rfl⟩ := h
    exact .inr ⟨rfl, rfl, rfl⟩
  | cancel =>
    simp only [lifespanStep, cancel] at h
    right
    split at h
    · cases h
    · cases h
      exact ⟨rfl, rfl, rfl⟩
    · cases h
      exact ⟨rfl, rfl, rfl⟩
    · cases h
      exact stopRuntime_steady cfg s
    · cases h
      exact ⟨rfl, rfl, rfl⟩
  | drained =>
    simp only [lifespanStep, Option.ite_none_right_eq_some, Option.some.injEq] at h
    obtain ⟨-, rfl⟩ := h
    exact .inr ⟨rfl, rfl, rfl⟩
  | drainResumed =>
    simp only [lifespanStep, Option.ite_none_right_eq_some, Option.some.injEq] at h
    obtain ⟨-, rfl⟩ := h
    right
    unfold joinProbe
    split
    · exact ⟨rfl, rfl, rfl⟩
    · exact stopRuntime_steady cfg s
  | probeJoined =>
    simp only [lifespanStep, Option.ite_none_right_eq_some, Option.some.injEq] at h
    obtain ⟨-, rfl⟩ := h
    exact .inr (stopRuntime_steady cfg s)
  | runtimeStopped =>
    simp only [lifespanStep, Option.ite_none_right_eq_some, Option.some.injEq] at h
    obtain ⟨-, rfl⟩ := h
    exact .inr (stopExecutor_steady cfg s)
  | executorStopped =>
    simp only [lifespanStep, Option.ite_none_right_eq_some, Option.some.injEq] at h
    obtain ⟨-, rfl⟩ := h
    exact .inr ⟨rfl, rfl, rfl⟩

theorem lifespan_staffs {ev : LifespanEvent} (h : s.lifespanStep cfg ev = some t) :
    Staffs s t := by
  rcases startup_or_steady h with ⟨env, -, rfl⟩ | hsteady
  · exact startup_staffs cfg s env
  · exact .same hsteady.executors hsteady.probes

theorem apply_executors (g : Shared) (effect : Effect) :
    (g.apply effect).executors = g.executors := by
  cases effect <;> rfl

/-- The number of executors never falls. -/
theorem executors_of_step {e : Event F} (h : s.step cfg e = some t) :
    s.shared.executors.length ≤ t.shared.executors.length := by
  cases e with
  | tick =>
    cases h
    exact Nat.le_refl _
  | arrive scope =>
    cases h
    exact Nat.le_refl _
  | request i ev =>
    cases step_cases h with
    | request => exact Nat.le_of_eq (congrArg List.length (apply_executors _ _).symm)
  | probe k ev =>
    cases step_cases h with
    | probe => exact Nat.le_refl _
  | lifespan ev => exact (lifespan_staffs h).executors.length_le
  | shutdownRuntime j =>
    cases step_cases h with
    | shutdownRuntime => exact Nat.le_refl _
  | shutdownExecutor k =>
    cases step_cases h with
    | shutdownExecutor => exact Nat.le_of_eq List.length_set.symm

theorem runtimes_of_step {e : Event F} (h : s.step cfg e = some t) :
    s.shared.runtimes.length ≤ t.shared.runtimes.length := by
  cases step_cases h with
  | request => exact Nat.le_of_eq (congrArg List.length (apply_runtimes _ _).symm)
  | shutdownRuntime => exact Nat.le_of_eq List.length_set.symm
  | lifespan hmove =>
    rcases hmove.runtimes_cases with heq | heq
    · rw [heq]
    · rw [heq, List.length_append]
      exact Nat.le_add_right _ _
  | _ => exact Nat.le_refl _

end Application

/-- A request submits to the newest executor and runtime, and its call stays there. -/
theorem Request.place_of_step {cfg : Config F} {g : Shared} {r r' : Request F} {effect : Effect}
    {ev : Request.Event F} (h : r.step cfg g ev = some (r', effect)) {w' : Work F}
    (hw' : r'.work = some w') :
    (∃ w, r.work = some w ∧ w'.executor = w.executor ∧ w'.runtime = w.runtime) ∨
      g.executor = some w'.executor ∧ g.runtime = some w'.runtime := by
  cases step_cases h with
  | middleware hmove =>
    cases hmove with
    | overloaded _ hp => cases hp <;> exact .inl ⟨w', hw', rfl, rfl⟩
    | acquire _ hp => cases hp <;> exact .inl ⟨w', hw', rfl, rfl⟩
    | _ => exact .inl ⟨w', hw', rfl, rfl⟩
  | app hmove =>
    cases hmove with
    | submit _ _ _ _ _ he hr =>
      cases hw'
      exact .inr ⟨he, hr⟩
    | submitRead _ _ _ _ _ he hr =>
      cases hw'
      exact .inr ⟨he, hr⟩
    | register _ _ hw =>
      cases hw'
      exact .inl ⟨_, hw, rfl, rfl⟩
    | wrap _ hw =>
      cases hw'
      exact .inl ⟨_, hw, rfl, rfl⟩
    | _ => exact .inl ⟨w', hw', rfl, rfl⟩
  | watcher hmove => cases hmove <;> exact .inl ⟨w', hw', rfl, rfl⟩
  | native hw hmove =>
    cases hmove with
    | advance hadv =>
      cases hw'
      cases hadv <;> exact .inl ⟨_, hw, rfl, rfl⟩
    | _ =>
      cases hw'
      exact .inl ⟨_, hw, rfl, rfl⟩

namespace Application

variable {cfg : Config F} {s t : Application F}

theorem placed_init (cfg : Config F) : (init cfg).Placed := by
  intro c w hw
  cases c <;> cases hw

theorem Placed.step (h : s.Placed) {e : Event F} (ht : s.step cfg e = some t) : t.Placed := by
  have hexec := executors_of_step ht
  have hrun := runtimes_of_step ht
  -- a call that was there before
  have kept {c : CallId} {w w' : Work F} (hw : s.call c = some w)
      (hwe : w'.executor = w.executor) (hwr : w'.runtime = w.runtime) :
      w'.executor < t.shared.executors.length ∧ w'.runtime < t.shared.runtimes.length := by
    obtain ⟨he, hr⟩ := h c w hw
    rw [hwe, hwr]
    exact ⟨Nat.lt_of_lt_of_le he hexec, Nat.lt_of_lt_of_le hr hrun⟩
  intro c w' hw'
  cases e with
  | tick =>
    cases ht
    exact kept (w := w') hw' rfl rfl
  | shutdownRuntime j =>
    cases step_cases ht
    exact kept (w := w') hw' rfl rfl
  | shutdownExecutor k =>
    cases step_cases ht
    exact kept (w := w') hw' rfl rfl
  | arrive scope =>
    cases ht
    cases c with
    | probe k => exact kept (c := .probe k) (w := w') hw' rfl rfl
    | request i =>
      obtain ⟨r, hr, hwork⟩ := Option.bind_eq_some_iff.mp hw'
      rcases getElem?_snoc_cases hr with hr | ⟨-, rfl⟩
      · exact kept (c := .request i) (w := w') (by simp only [call, hr, Option.bind_some, hwork])
          rfl rfl
      · cases hwork
  | request i ev =>
    cases step_cases ht with
    | @request _ _ r r' effect hr hstep =>
      cases c with
      | probe k => exact kept (c := .probe k) (w := w') hw' rfl rfl
      | request k =>
        obtain ⟨x, hx, hwork⟩ := Option.bind_eq_some_iff.mp hw'
        rcases getElem?_set_cases hx with ⟨rfl, rfl⟩ | ⟨-, hx⟩
        · rcases Request.place_of_step hstep hwork with ⟨w, hw, hwe, hwr⟩ | ⟨he, hr'⟩
          · exact kept (c := .request k) (w := w)
              (by simp only [call, hr, Option.bind_some, hw]) hwe hwr
          · have hlast {xs : List Bool} {n : Nat}
                (h : (if xs.isEmpty then none else some (xs.length - 1)) = some n) :
                n < xs.length := by
              split at h
              · cases h
              · next hne =>
                cases h
                have hpos : 0 < xs.length :=
                  List.length_pos_iff.mpr fun hnil ↦ hne (by rw [hnil]; rfl)
                omega
            exact ⟨Nat.lt_of_lt_of_le (hlast he) hexec, Nat.lt_of_lt_of_le (hlast hr') hrun⟩
        · exact kept (c := .request k) (w := w') (by simp only [call, hx, Option.bind_some, hwork])
            rfl rfl
  | probe i ev =>
    cases step_cases ht with
    | @probe _ _ w w₁ hw hadv =>
      cases c with
      | request k => exact kept (c := .request k) (w := w') hw' rfl rfl
      | probe k =>
        rcases getElem?_set_cases hw' with ⟨rfl, rfl⟩ | ⟨-, hx⟩
        · cases hadv <;> exact kept (c := .probe k) (w := w) hw rfl rfl
        · exact kept (c := .probe k) (w := w') hx rfl rfl
  | lifespan ev =>
    cases c with
    | request k =>
      have hreq := (lifespanStep_cases ht).requests_eq
      refine kept (c := .request k) (w := w') ?_ rfl rfl
      rw [← hw', call, call, hreq]
    | probe k =>
      rcases (lifespan_staffs ht).probes with heq | ⟨w, heq, hplaced⟩
      · refine kept (c := .probe k) (w := w') ?_ rfl rfl
        rw [← hw', call, call, heq]
      · have hk : (s.probes ++ [w])[k]? = some w' := heq ▸ hw'
        rcases getElem?_snoc_cases hk with hk | ⟨-, rfl⟩
        · exact kept (c := .probe k) (w := w') hk rfl rfl
        · exact hplaced

end Application

namespace Deployment

variable {cfg : DeploymentConfig F} {s t : Deployment F}

/-- A property of a new scheduler that its steps keep is kept by the deployment. -/
theorem Move.schedulers {P : Scheduler F → Prop} (hw : s.Wired cfg) (hstart : P started)
    (hstep : ∀ d e d', d.Inv cfg.scheduler → P d → d.step cfg.scheduler e = some d' → P d')
    (hm : Move cfg s t) (h : ∀ d ∈ s.schedulers, P d) : ∀ d ∈ t.schedulers, P d := by
  have stepped {j : Nat} {d d' : Scheduler F} {e : Batching.Event F}
      (hd : s.schedulers[j]? = some d) (hd' : d.step cfg.scheduler e = some d') :
      ∀ x ∈ s.schedulers.set j d', P x := by
    have hmem := List.mem_of_getElem? hd
    exact forall_mem_set h (hstep d e d' (hw.inv d hmem) (h d hmem) hd')
  cases hm with
  | app =>
    intro d hd
    rcases List.mem_append.mp hd with hd | hd
    · exact h d hd
    · rw [List.eq_of_mem_replicate hd]
      exact hstart
  | missized => exact h
  | @submit c w app d hc hstep hlen hd requestId arrivalTime =>
    exact stepped (e := .submit requestId w.array arrivalTime) hd rfl
  | complete => exact h
  | scheduler hd hd' => exact stepped hd hd'
  | shutdown hd hd' => exact stepped hd hd'

/-! ### Calls and promises -/

/-- A scheduler refuses requests exactly when its runtime counts as stopped. -/
def Flagged (s : Deployment F) : Prop :=
  ∀ j d, s.schedulers[j]? = some d → d.queue.stopRequested = s.app.shared.isStopped j

theorem flagged_init (cfg : DeploymentConfig F) : (init cfg).Flagged := by
  rintro _ _ ⟨⟩

theorem Flagged.set (h : s.Flagged) {j : Nat} {d d' : Scheduler F} {app : Application F}
    (hd : s.schedulers[j]? = some d) (hq : d'.queue.stopRequested = d.queue.stopRequested)
    (happ : app.shared = s.app.shared) (promises : List (CallId × Nat)) :
    ({ s with app, schedulers := s.schedulers.set j d', promises } : Deployment F).Flagged := by
  intro i x hx
  change x.queue.stopRequested = app.shared.isStopped i
  rw [happ]
  rcases getElem?_set_cases hx with ⟨rfl, rfl⟩ | ⟨-, hx⟩
  · rw [hq]
    exact h i d hd
  · exact h i x hx

private theorem submit_stopRequested (sc : SchedulerConfig) (d : Scheduler F) (requestId : Nat)
    (input : List F) (arrivalTime : Int) :
    (d.submit requestId input arrivalTime).queue.stopRequested = d.queue.stopRequested := by
  have hstep : d.step sc (.submit requestId input arrivalTime) =
      some (d.submit requestId input arrivalTime) := rfl
  exact Scheduler.stopRequested_of_step hstep (by rintro ⟨⟩)

theorem Flagged.step (h : s.Flagged) (hw : s.Wired cfg) {e : Event F}
    (ht : s.step cfg e = some t) : t.Flagged := by
  have scheduler {u : Deployment F} {j : Nat} {x : Batching.Event F} (hx : x ≠ .shutdown)
      (hu : s.schedulerStep cfg j x = some u) : u.Flagged := by
    simp only [schedulerStep, Option.bind_eq_some_iff, Option.map_eq_some_iff] at hu
    obtain ⟨d, hd, d', hstep, rfl⟩ := hu
    exact h.set hd (Scheduler.stopRequested_of_step hstep hx) rfl s.promises
  cases e with
  | app ev =>
    simp only [Deployment.step] at ht
    split at ht
    · next hl =>
      rw [Bool.and_eq_true] at hl
      obtain ⟨app, happ, rfl⟩ := Option.map_eq_some_iff.mp ht
      intro j d hd
      change d.queue.stopRequested = app.shared.isStopped j
      rw [Application.isStopped_of_local happ hl.1]
      change (s.schedulers ++ _)[j]? = some d at hd
      rw [List.getElem?_append] at hd
      split at hd
      · exact h j d hd
      · next hlt =>
        rw [List.eq_of_mem_replicate (List.mem_of_getElem? hd), Shared.isStopped,
          List.getElem?_eq_none (by rw [← hw.paired]; exact Nat.le_of_not_lt hlt)]
        rfl
    · cases ht
  | predict c requestId arrivalTime =>
    simp only [Deployment.step, predict, Option.bind_eq_some_iff] at ht
    obtain ⟨w, hcall, app, happ, ht⟩ := ht
    obtain ⟨w', -, hsteps⟩ := Application.stepsCall_of_step hcall happ
    split at ht
    · cases ht
      intro j d hd
      change d.queue.stopRequested = app.shared.isStopped j
      rw [hsteps.shared]
      exact h j d hd
    · obtain ⟨d, hd, rfl⟩ := Option.map_eq_some_iff.mp ht
      exact h.set hd (submit_stopRequested cfg.scheduler d _ _ _) hsteps.shared _
  | complete c =>
    simp only [Deployment.step, complete, Option.bind_eq_some_iff, Option.map_eq_some_iff] at ht
    obtain ⟨w, hcall, d, -, o, -, app, happ, rfl⟩ := ht
    obtain ⟨w', -, hsteps⟩ := Application.stepsCall_of_step hcall happ
    intro j x hx
    change x.queue.stopRequested = app.shared.isStopped j
    rw [hsteps.shared]
    exact h j x hx
  | scheduler j ev =>
    simp only [Deployment.step] at ht
    split at ht
    · next hown =>
      refine scheduler ?_ ht
      rintro rfl
      cases hown
    · cases ht
  | stop j =>
    simp only [Deployment.step] at ht
    split at ht
    · exact scheduler (x := .stop) (by rintro ⟨⟩) ht
    · cases ht
  | shutdown j =>
    simp only [Deployment.step, Option.bind_eq_some_iff, Option.map_eq_some_iff] at ht
    obtain ⟨u, hu, app, happ, rfl⟩ := ht
    simp only [schedulerStep, Option.bind_eq_some_iff, Option.map_eq_some_iff] at hu
    obtain ⟨d, hd, d', hstep, rfl⟩ := hu
    cases Application.step_cases happ with
    | shutdownRuntime hj =>
      intro i x hx
      change x.queue.stopRequested =
        (({ s.app.shared with runtimes := s.app.shared.runtimes.set j true } : Shared)).isStopped i
      rcases getElem?_set_cases hx with ⟨rfl, rfl⟩ | ⟨hne, hx⟩
      · have hlt : i < s.app.shared.runtimes.length := by
          rw [← hw.paired]
          exact (List.getElem?_eq_some_iff.mp hd).1
        cases Scheduler.step_cases hstep with
        | shutdown => rw [Shared.isStopped, List.getElem?_set_self hlt]; rfl
        | worker hworker => cases hworker
      · rw [Shared.isStopped, List.getElem?_set_ne fun heq ↦ hne heq.symm]
        exact h i x hx

/-- The calls that block in `future.get()` and the promises that are pending belong together. -/
structure Linked (s : Deployment F) : Prop where
  waiting : ∀ c w, s.app.call c = some w → w.phase = .predicting → ∃ d req,
    s.schedulers[w.runtime]? = some d ∧ (req, .ok ()) ∈ d.submits ∧
      s.promises.lookup c = some req.resultPromise
  owned : ∀ (j : Nat) d p, s.schedulers[j]? = some d → p ∈ d.pending → ∃ c w,
    s.app.call c = some w ∧ w.runtime = j ∧ w.phase = .predicting ∧ s.promises.lookup c = some p

theorem linked_init (cfg : DeploymentConfig F) : (init cfg).Linked where
  waiting c w hw := by cases c <;> cases hw
  owned := by rintro _ _ _ ⟨⟩

/-- A promise of a scheduler is pending after a step if it was before, or was given out by it. -/
private theorem pending_scheduler (hw : s.Wired cfg) {j : Nat} {d d' : Scheduler F}
    {e : Batching.Event F} (hd : s.schedulers[j]? = some d)
    (hstep : d.step cfg.scheduler e = some d')
    (hev : ∀ requestId input arrivalTime, e ≠ .submit requestId input arrivalTime) {p : Nat}
    (hp : p ∈ d'.pending) : p ∈ d.pending := by
  have hi := hw.inv d (List.mem_of_getElem? hd)
  have hi' := Scheduler.inv_step cfg.maxBatchSize_pos hi hstep
  obtain ⟨req, hreq, rfl⟩ := List.mem_map.mp (hi'.accepted_of_pending hp)
  rcases (Scheduler.extends_step hstep).submits _ (Scheduler.mem_accepted.mp hreq) with
    hsub | ⟨requestId, arrivalTime, he⟩
  · exact Scheduler.pending_of_step cfg.maxBatchSize_pos hi
      (List.mem_map_of_mem (Scheduler.mem_accepted.mpr hsub)) hstep hp
  · exact absurd he (hev _ _ _)

/-- A step that leaves promises, pending ones and blocked calls as they are. -/
theorem Linked.mono (h : s.Linked) (hm : Move cfg s t) (hpromises : t.promises = s.promises)
    (hcall : ∀ c w', t.app.call c = some w' → w'.phase = .predicting → ∃ w,
      s.app.call c = some w ∧ w.phase = .predicting ∧ w'.runtime = w.runtime)
    (hblocked : ∀ c w, s.app.call c = some w → w.phase = .predicting → ∃ w',
      t.app.call c = some w' ∧ w'.phase = .predicting ∧ w'.runtime = w.runtime)
    (hpending : ∀ (j : Nat) d' p, t.schedulers[j]? = some d' → p ∈ d'.pending → ∃ d,
      s.schedulers[j]? = some d ∧ p ∈ d.pending) : t.Linked where
  waiting c w' hw' hp' := by
    obtain ⟨w, hw, hp, hruntime⟩ := hcall c w' hw' hp'
    obtain ⟨d, req, hd, hsub, hlookup⟩ := h.waiting c w hw hp
    obtain ⟨d', hd', hgrows⟩ := hm.grows hd
    exact ⟨d', req, hruntime ▸ hd', hgrows.submits _ hsub, hpromises ▸ hlookup⟩
  owned j d' p hd' hp := by
    obtain ⟨d, hd, hpd⟩ := hpending j d' p hd' hp
    obtain ⟨c, w, hw, hj, hphase, hlookup⟩ := h.owned j d p hd hpd
    obtain ⟨w', hw', hphase', hruntime⟩ := hblocked c w hw hphase
    exact ⟨c, w', hw', hruntime.trans hj, hphase', hpromises ▸ hlookup⟩

/-- The call reaches `scheduler_.submit`. -/
private theorem Linked.submit (h : s.Linked) (hb : s.Bound cfg) (hf : s.Flagged) {c : CallId}
    {w : Work F} {app : Application F} {d : Scheduler F} (hw : s.app.call c = some w)
    (hstep : s.app.step cfg.toConfig (c.event .predict) = some app)
    (hlen : w.array.length = cfg.inputElems) (hd : s.schedulers[w.runtime]? = some d)
    (requestId : Nat) (arrivalTime : Int) :
    Linked
      { s with
        app
        schedulers := s.schedulers.set w.runtime (d.submit requestId w.array arrivalTime)
        promises := s.promises ++ [(c, d.submits.length)] } := by
  obtain ⟨w', hadv, hw', hother⟩ := Application.call_event hw hstep
  have hrunning : w.phase = .running := by
    cases Work.advance_cases hadv <;> assumption
  have hnone := (hb.calls c).lookup_eq_none hw hrunning
  have hself : (s.schedulers.set w.runtime (d.submit requestId w.array arrivalTime))[w.runtime]? =
      some (d.submit requestId w.array arrivalTime) :=
    List.getElem?_set_self (List.getElem?_eq_some_iff.mp hd).1
  -- the scheduler accepts the request exactly if the call goes on to wait
  have hafter : w'.runtime = w.runtime ∧
      (w'.phase = .predicting ∧ d.queue.stopRequested = false ∨
        w'.phase = .completed ∧ d.queue.stopRequested = true) := by
    rw [hf _ d hd]
    simp only [Work.advance, hrunning, hlen, ne_eq, not_true_eq_false, if_true, if_false] at hadv
    split at hadv
    · next hstop =>
      cases hadv
      exact ⟨rfl, .inr ⟨rfl, hstop⟩⟩
    · next hstop =>
      cases hadv
      exact ⟨rfl, .inl ⟨rfl, Bool.eq_false_iff.mpr hstop⟩⟩
  obtain ⟨hruntime, hafter⟩ := hafter
  constructor
  · intro c' x hx hp
    change app.call c' = some x at hx
    by_cases hc : c' = c
    · subst hc
      cases hw'.symm.trans hx
      rcases hafter with ⟨-, hopen⟩ | ⟨hcompleted, -⟩
      · refine ⟨d.submit requestId w.array arrivalTime,
          ⟨requestId, w.array, arrivalTime, d.submits.length⟩, hruntime ▸ hself, ?_,
          lookup_snoc_self _ hnone⟩
        rw [Scheduler.submit_open _ _ _ _ hopen]
        exact List.mem_append_right _ List.mem_cons_self
      · rw [hcompleted] at hp
        cases hp
    · rw [hother c' hc] at hx
      obtain ⟨d₁, req, hd₁, hsub, hlookup⟩ := h.waiting c' x hx hp
      have hmove : Move cfg s _ := .submit hw hstep hlen hd requestId arrivalTime
      obtain ⟨d₂, hd₂, hgrows⟩ := hmove.grows hd₁
      exact ⟨d₂, req, hd₂, hgrows.submits _ hsub, (lookup_snoc_ne hc _).trans hlookup⟩
  · intro j x p hx hp
    -- promises that were pending before belong to other calls
    have before {y : Scheduler F} (hy : s.schedulers[j]? = some y) (hpy : p ∈ y.pending) :
        ∃ c' v, app.call c' = some v ∧ v.runtime = j ∧ v.phase = .predicting ∧
          (s.promises ++ [(c, d.submits.length)]).lookup c' = some p := by
      obtain ⟨c', v, hv, hj, hphase, hlookup⟩ := h.owned j y p hy hpy
      have hc : c' ≠ c := by
        rintro rfl
        rw [hw] at hv
        cases hv
        rw [hrunning] at hphase
        cases hphase
      exact ⟨c', v, (hother c' hc).trans hv, hj, hphase, (lookup_snoc_ne hc _).trans hlookup⟩
    rcases getElem?_set_cases hx with ⟨rfl, rfl⟩ | ⟨-, hx⟩
    · rcases hafter with ⟨hphase, hopen⟩ | ⟨-, hstop⟩
      · rw [Scheduler.submit_open _ _ _ _ hopen, Scheduler.pending, List.map_append,
          List.map_append, List.map_singleton, ← List.append_assoc, ← List.map_append,
          List.mem_append, List.mem_singleton] at hp
        rcases hp with hp | rfl
        · exact before hd hp
        · exact ⟨c, w', hw', hruntime, hphase, lookup_snoc_self _ hnone⟩
      · rw [Scheduler.submit_stopped _ _ _ _ hstop] at hp
        exact before hd hp
    · exact before hx hp

/-- `future.get()` returns: the promise it waited for is not pending. -/
private theorem Linked.complete (h : s.Linked) (hwired : s.Wired cfg) {c : CallId} {w : Work F}
    {app : Application F} {d : Scheduler F} {p : Nat} {o : Outcome F} (hw : s.app.call c = some w)
    (hd : s.schedulers[w.runtime]? = some d) (hlookup : s.promises.lookup c = some p)
    (ho : d.resolved.lookup p = some o)
    (hstep : s.app.step cfg.toConfig
      (c.event (.complete (o.map fun res ↦ (res.requestId, res.logits)))) = some app) :
    Linked { s with app } := by
  obtain ⟨w', hadv, hw', hother⟩ := Application.call_event hw hstep
  have hphase : w'.phase = .completed := by
    cases Work.advance_cases hadv
    rfl
  have hres : p ∈ d.resolved.map Prod.fst := by
    obtain ⟨l₁, l₂, hsplit, -⟩ := List.lookup_eq_some_iff.mp ho
    rw [hsplit, List.map_append]
    exact List.mem_append_right _ List.mem_cons_self
  constructor
  · intro c' x hx hp
    change app.call c' = some x at hx
    by_cases hc : c' = c
    · subst hc
      cases hw'.symm.trans hx
      rw [hphase] at hp
      cases hp
    · rw [hother c' hc] at hx
      exact h.waiting c' x hx hp
  · intro j x q hx hq
    obtain ⟨c', v, hv, hj, hvp, hv'⟩ := h.owned j x q hx hq
    have hc : c' ≠ c := by
      rintro rfl
      rw [hw] at hv
      cases hv
      cases hlookup.symm.trans hv'
      rw [← hj, hd] at hx
      cases hx
      have hi := hwired.inv d (List.mem_of_getElem? hd)
      exact (hi.pending_or_resolved (hi.accepted_of_pending hq)).mpr hres hq
    exact ⟨c', v, (hother c' hc).trans hv, hj, hvp, hv'⟩

theorem Linked.step (h : s.Linked) (hb : s.Bound cfg) (hw : s.Wired cfg) (hf : s.Flagged)
    (hm : Move cfg s t) : t.Linked := by
  have hm' := hm
  cases hm with
  | @app ev app hl hstep =>
    refine h.mono hm' rfl ?_ ?_ ?_
    · intro c w' hw' hp'
      have hmoves := Application.call_moves hb.balanced.ok hstep hl c
      generalize ho : s.app.call c = o at hmoves
      change app.call c = some w' at hw'
      rw [hw'] at hmoves
      cases hmoves with
      | submitted _ hq =>
        rw [hq] at hp'
        cases hp'
      | @kept w _ ha _ hp =>
        refine ⟨w, rfl, ?_, ha.runtime⟩
        rcases hp with hsame | ⟨-, -, hrun⟩ | ⟨-, hinactive⟩
        · rw [← hsame, hp']
        · rw [hrun] at hp'
          cases hp'
        · rw [hp'] at hinactive
          cases hinactive
    · intro c w hw hp
      have hmoves := Application.call_moves hb.balanced.ok hstep hl c
      rw [hw] at hmoves
      generalize ho : app.call c = o at hmoves
      cases hmoves with
      | @kept _ w' ha _ hp' =>
        refine ⟨w', ho, ?_, ha.runtime⟩
        rcases hp' with hsame | ⟨-, hq, -⟩ | ⟨hinactive, -⟩
        · rw [hsame, hp]
        · rw [hp] at hq
          cases hq
        · rw [hp] at hinactive
          cases hinactive
    · intro j d' p hd' hp
      change (s.schedulers ++ _)[j]? = some d' at hd'
      rw [List.getElem?_append] at hd'
      split at hd'
      · exact ⟨d', hd', hp⟩
      · rw [List.eq_of_mem_replicate (List.mem_of_getElem? hd')] at hp
        exact absurd hp List.not_mem_nil
  | missized hcall _ hlen => exact absurd (hw.arrays _ (Application.mem_works_of_call hcall)) hlen
  | submit hcall hstep hlen hd requestId arrivalTime =>
    exact h.submit hb hf hcall hstep hlen hd requestId arrivalTime
  | complete hcall hd hp ho hstep => exact h.complete hw hcall hd hp ho hstep
  | scheduler hd hstep hev =>
    refine h.mono hm' rfl (fun c w' hw' hp ↦ ⟨w', hw', hp, rfl⟩)
      (fun c w hw hp ↦ ⟨w, hw, hp, rfl⟩) ?_
    intro j d' p hd' hp
    rcases getElem?_set_cases hd' with ⟨rfl, rfl⟩ | ⟨-, hd'⟩
    · exact ⟨_, hd, pending_scheduler hw hd hstep hev hp⟩
    · exact ⟨d', hd', hp⟩
  | shutdown hd hstep happ =>
    cases Application.step_cases happ with
    | shutdownRuntime =>
      refine h.mono hm' rfl (fun c w' hw' hp ↦ ⟨w', hw', hp, rfl⟩)
        (fun c w hw hp ↦ ⟨w, hw, hp, rfl⟩) ?_
      intro j d' p hd' hp
      rcases getElem?_set_cases hd' with ⟨rfl, rfl⟩ | ⟨-, hd'⟩
      · exact ⟨_, hd, pending_scheduler hw hd hstep (by rintro _ _ _ ⟨⟩) hp⟩
      · exact ⟨d', hd', hp⟩

/-! ### What the pool admits -/

/-- The call that a worker takes. -/
def Event.taken : Event F → Option CallId
  | .app ev => ev.taken
  | _ => none

/-- A queued call is taken only by a free worker of its executor. -/
def hasWorker (cfg : DeploymentConfig F) (s : Deployment F) (e : Event F) : Bool :=
  e.taken.all fun c ↦
    (s.app.call c).all fun w ↦ decide (s.app.busy w.executor < cfg.executorWorkers)

/-- One step of the deployment behind its thread pools. -/
def pooledStep (cfg : DeploymentConfig F) (s : Deployment F) (e : Event F) :
    Option (Deployment F) :=
  if s.hasWorker cfg e then s.step cfg e else none

theorem pooledStep_eq_some {e : Event F} :
    s.pooledStep cfg e = some t ↔ s.hasWorker cfg e = true ∧ s.step cfg e = some t := by
  rw [pooledStep, Option.ite_none_right_eq_some]

end Deployment
end InferenceServer.Server

namespace InferenceServer.Batching.Scheduler

variable {F : Type} {cfg : SchedulerConfig} {s t : Scheduler F} {e : Event F}

/-- The engine is called with requests that are pending. -/
theorem calls_of_step (h : s.step cfg e = some t) {c : EngineCall F} (hc : c ∈ t.calls) :
    c ∈ s.calls ∨ c.batchSize ≤ s.pending.length := by
  cases step_cases h with
  | worker hw =>
    cases hw with
    | infer d batch input answer execUs hexec =>
      rcases List.mem_append.mp hc with hc | hc
      · exact .inl hc
      · right
        rw [List.mem_singleton.mp hc, pending, hexec, List.length_map, List.length_append]
        exact Nat.le_add_right _ _
    | poll p o q =>
      left
      revert hc
      unfold pollStep
      split <;> exact id
    | filter d todo batch =>
      left
      revert hc
      unfold filterStep
      split
      · exact id
      · split
        · exact id
        · split <;> exact id
    | deliver d batch out i =>
      left
      revert hc
      unfold deliverStep
      split
      · exact id
      · split <;> exact id
    | fail d batch todo eptr =>
      left
      revert hc
      unfold failStep
      split
      · exact id
      · split <;> exact id
    | _ => exact .inl hc
  | _ => exact .inl hc

end InferenceServer.Batching.Scheduler

namespace InferenceServer.Server

open InferenceServer.Base InferenceServer.Batching

variable {F : Type}

namespace Application

/-- All native calls, by their names. -/
def callIds (s : Application F) : List CallId :=
  (List.range s.requests.length).map .request ++ (List.range s.probes.length).map .probe

theorem mem_callIds {s : Application F} {c : CallId} {w : Work F} (h : s.call c = some w) :
    c ∈ s.callIds := by
  cases c with
  | request i =>
    obtain ⟨r, hr, -⟩ := Option.bind_eq_some_iff.mp h
    have hlt := (List.getElem?_eq_some_iff.mp hr).1
    exact List.mem_append_left _ (List.mem_map_of_mem (List.mem_range.mpr hlt))
  | probe k =>
    have hlt := (List.getElem?_eq_some_iff.mp (h : s.probes[k]? = some w)).1
    exact List.mem_append_right _ (List.mem_map_of_mem (List.mem_range.mpr hlt))

/-- Busy workers are calls. -/
theorem busy_eq_length (s : Application F) (executor : Nat) :
    s.busy executor =
      (s.callIds.filter fun c ↦ (s.call c).any (·.isBusy executor)).length := by
  rw [busy, countP_eq_length_places, countP_eq_length_places, callIds, List.filter_append,
    List.length_append, List.filter_map, List.filter_map, List.length_map, List.length_map]
  congr 3
  funext i
  simp only [Function.comp_apply, call]
  cases s.requests[i]? <;> rfl

end Application

namespace Deployment

variable {cfg : DeploymentConfig F} {s t : Deployment F}

/-- With one executor, every pending promise keeps a worker of it busy. -/
theorem Linked.pending_le_busy (h : s.Linked) (hw : s.Wired cfg) (hplaced : s.app.Placed)
    (hone : s.app.shared.executors.length ≤ 1) {j : Nat} {d : Scheduler F}
    (hd : s.schedulers[j]? = some d) : d.pending.length ≤ s.app.busy 0 := by
  have hsub : d.pending ⊆
      (s.app.callIds.filter fun c ↦ (s.app.call c).any (·.isBusy 0)).filterMap
        (s.promises.lookup ·) := by
    intro p hp
    obtain ⟨c, w, hc, -, hphase, hlookup⟩ := h.owned j d p hd hp
    have hexecutor : w.executor = 0 := by
      have hlt := (hplaced c w hc).1
      omega
    have hbusy : (s.app.call c).any (·.isBusy 0) = true := by
      rw [hc, Option.any_some]
      exact Work.isBusy_iff.mpr ⟨hexecutor, .inr hphase⟩
    exact List.mem_filterMap.mpr
      ⟨c, List.mem_filter.mpr ⟨Application.mem_callIds hc, hbusy⟩, hlookup⟩
  have hnodup := (hw.inv d (List.mem_of_getElem? hd)).pending_nodup
  rw [Application.busy_eq_length]
  exact (List.subperm_of_subset hnodup hsub).length_le.trans (List.length_filterMap_le _ _)

/-- What holds behind the pools. -/
structure Pooled (cfg : DeploymentConfig F) (s : Deployment F) : Prop where
  wired : s.Wired cfg
  bound : s.Bound cfg
  flagged : s.Flagged
  linked : s.Linked
  placed : s.app.Placed
  limited : ∀ executor, s.app.busy executor ≤ cfg.executorWorkers
  batches : s.app.shared.executors.length ≤ 1 →
    ∀ d ∈ s.schedulers, ∀ c ∈ d.calls, c.batchSize ≤ cfg.executorWorkers

theorem pooled_init (cfg : DeploymentConfig F) : (init cfg).Pooled cfg where
  wired := wired_init cfg
  bound := bound_init cfg
  flagged := flagged_init cfg
  linked := linked_init cfg
  placed := Application.placed_init cfg.toConfig
  limited _ := Nat.zero_le _
  batches _ _ hd := absurd hd List.not_mem_nil

/-- A step of the deployment is at most one step of the application; the startup goes on from its
probe only by its own step. -/
theorem app_of_step {e : Event F} (h : s.step cfg e = some t) :
    t.app = s.app ∨
      ∃ ev, s.app.step cfg.toConfig ev = some t.app ∧ ev.taken = e.taken ∧
        (ev = .lifespan .probeResumed → e = .app ev) := by
  have scheduler {u : Deployment F} {j : Nat} {x : Batching.Event F}
      (hu : s.schedulerStep cfg j x = some u) : u.app = s.app := by
    simp only [schedulerStep, Option.bind_eq_some_iff, Option.map_eq_some_iff] at hu
    obtain ⟨_, -, _, -, rfl⟩ := hu
    rfl
  have untaken (c : CallId) (ev : WorkEvent F) (hev : ev ≠ .take) : (c.event ev).taken = none := by
    cases c <;> cases ev <;> first | rfl | exact absurd rfl hev
  have unprobed (c : CallId) (ev : WorkEvent F) (h : c.event ev = .lifespan .probeResumed) :
      e = .app (c.event ev) := by
    cases c <;> cases h
  cases e with
  | app ev =>
    simp only [step] at h
    split at h
    · obtain ⟨app, happ, rfl⟩ := Option.map_eq_some_iff.mp h
      exact .inr ⟨ev, happ, rfl, fun _ ↦ rfl⟩
    · cases h
  | predict c requestId arrivalTime =>
    simp only [step, predict, Option.bind_eq_some_iff] at h
    obtain ⟨w, -, app, happ, h⟩ := h
    right
    split at h
    · cases h
      exact ⟨_, happ, untaken c _ (by rintro ⟨⟩), unprobed c _⟩
    · obtain ⟨d, -, rfl⟩ := Option.map_eq_some_iff.mp h
      exact ⟨_, happ, untaken c _ (by rintro ⟨⟩), unprobed c _⟩
  | complete c =>
    simp only [step, complete, Option.bind_eq_some_iff, Option.map_eq_some_iff] at h
    obtain ⟨_, -, _, -, o, -, app, happ, rfl⟩ := h
    exact .inr ⟨_, happ, untaken c _ (by rintro ⟨⟩), unprobed c _⟩
  | scheduler j ev =>
    simp only [step] at h
    split at h
    · exact .inl (scheduler h)
    · cases h
  | stop j =>
    simp only [step] at h
    split at h
    · exact .inl (scheduler h)
    · cases h
  | shutdown j =>
    simp only [step, Option.bind_eq_some_iff, Option.map_eq_some_iff] at h
    obtain ⟨u, hu, app, happ, rfl⟩ := h
    rw [scheduler hu] at happ
    exact .inr ⟨_, happ, rfl, by rintro ⟨⟩⟩

/-- An engine call that a step adds takes its requests from those that were pending. -/
theorem Move.calls (hm : Move cfg s t) {j : Nat} {d' : Scheduler F}
    (hd' : t.schedulers[j]? = some d') {c : EngineCall F} (hc : c ∈ d'.calls) :
    ∃ d, s.schedulers[j]? = some d ∧ (c ∈ d.calls ∨ c.batchSize ≤ d.pending.length) := by
  have stepped {k : Nat} {x x' : Scheduler F} {e : Batching.Event F}
      (hx : s.schedulers[k]? = some x) (hstep : x.step cfg.scheduler e = some x')
      (hd' : (s.schedulers.set k x')[j]? = some d') :
      ∃ d, s.schedulers[j]? = some d ∧ (c ∈ d.calls ∨ c.batchSize ≤ d.pending.length) := by
    rcases getElem?_set_cases hd' with ⟨rfl, rfl⟩ | ⟨-, hd'⟩
    · exact ⟨x, hx, Scheduler.calls_of_step hstep hc⟩
    · exact ⟨d', hd', .inl hc⟩
  cases hm with
  | app =>
    change (s.schedulers ++ _)[j]? = some d' at hd'
    rw [List.getElem?_append] at hd'
    split at hd'
    · exact ⟨d', hd', .inl hc⟩
    · rw [List.eq_of_mem_replicate (List.mem_of_getElem? hd')] at hc
      exact absurd hc List.not_mem_nil
  | missized => exact ⟨d', hd', .inl hc⟩
  | @submit c w app d hw hstep hlen hd requestId arrivalTime =>
    exact stepped (e := .submit requestId w.array arrivalTime) hd rfl hd'
  | complete => exact ⟨d', hd', .inl hc⟩
  | scheduler hd hstep => exact stepped hd hstep hd'
  | shutdown hd hstep => exact stepped hd hstep hd'

theorem Pooled.step (h : s.Pooled cfg) {e : Event F} (ht : s.pooledStep cfg e = some t) :
    t.Pooled cfg := by
  obtain ⟨hworker, hstep⟩ := pooledStep_eq_some.mp ht
  have hm := step_cases hstep
  have happ := app_of_step hstep
  refine ⟨h.wired.step hm, h.bound.step hm, h.flagged.step h.wired hstep,
    h.linked.step h.bound h.wired h.flagged hm, ?_, ?_, ?_⟩
  · rcases happ with heq | ⟨ev, hev, -⟩
    · rw [heq]
      exact h.placed
    · exact h.placed.step hev
  · intro executor
    rcases happ with heq | ⟨ev, hev, htaken, -⟩
    · rw [heq]
      exact h.limited executor
    · rcases Application.busy_step h.bound.balanced.ok hev executor with hle | ⟨htakes, hle⟩
      · exact hle.trans (h.limited executor)
      · -- a worker was free
        obtain ⟨c, w, hc, hw, hexecutor⟩ := htakes
        rw [hasWorker, ← htaken, hc, Option.all_some, hw, Option.all_some, decide_eq_true_eq,
          hexecutor] at hworker
        omega
  · intro hone d' hd' c hc
    have hbefore : s.app.shared.executors.length ≤ 1 := by
      rcases happ with heq | ⟨ev, hev, -⟩
      · rw [← heq]
        exact hone
      · exact (Application.executors_of_step hev).trans hone
    obtain ⟨j, hj⟩ := List.mem_iff_getElem?.mp hd'
    obtain ⟨d, hd, hold | hnew⟩ := hm.calls hj hc
    · exact h.batches hbefore d (List.mem_of_getElem? hd) c hold
    · have hle := h.linked.pending_le_busy h.wired h.placed hbefore hd
      exact hnew.trans (hle.trans (h.limited 0))

theorem pooled_exec {es : List (Event F)} (h : exec (pooledStep cfg) (init cfg) es = some s) :
    s.Pooled cfg :=
  exec_preserves (fun _ _ _ hs ht ↦ hs.step ht) h (pooled_init cfg)

/-- In the first lifespan of the application the pool bounds what its scheduler sees: never more
requests are pending than the pool has workers, and no batch is larger. So if there are fewer
workers than `max_batch_size`, no batch is ever full: until shutdown every batch waits for the end
of the batching window, whatever the load. -/
theorem pool_bounds_batches {es : List (Event F)}
    (hrun : exec (pooledStep cfg) (init cfg) es = some s)
    (hone : s.app.shared.executors.length ≤ 1) {d : Scheduler F} (hd : d ∈ s.schedulers) :
    d.pending.length ≤ cfg.executorWorkers ∧
      (∀ c ∈ d.calls, c.batchSize ≤ min cfg.maxBatchSize cfg.executorWorkers) ∧
      (cfg.executorWorkers < cfg.maxBatchSize → 0 < cfg.maxWaitMs →
        d.queue.stopRequested = false → ∀ p batch queue, d.worker = .waiting p →
          d.queue.waitAndDrain cfg.maxBatchSize cfg.maxWaitMs p = some (.returned batch, queue) →
            p = .windowExpired) := by
  have h := pooled_exec hrun
  have hi := h.wired.inv d hd
  obtain ⟨j, hj⟩ := List.mem_iff_getElem?.mp hd
  have hpending : d.pending.length ≤ cfg.executorWorkers :=
    (h.linked.pending_le_busy h.wired h.placed hone hj).trans (h.limited 0)
  refine ⟨hpending, ?_, ?_⟩
  · intro c hc
    have hok := hi.called c hc
    have hsize : c.batchSize ≤ cfg.maxBatchSize := by
      rw [hok.size]
      exact (List.length_filter_le _ _).trans (hi.drained _ hok.drained).2
    exact Nat.le_min.mpr ⟨hsize, h.batches hone d hd c hc⟩
  · intro hfew hwait hopen p batch queue hw hq
    by_contra hp
    have hne : d.queue.queue ≠ [] := by
      intro hnil
      -- a section returns from an empty queue only after shutdown
      have hok := hi.workerOk
      simp only [Scheduler.WorkerOk, hw] at hok
      by_cases hent : p = .entry
      · subst hent
        simp [RequestQueue.waitAndDrain, RequestQueue.hasWork, hnil, hopen] at hq
      · exact hok (RequestQueue.inWindow_of_waitAndDrain hq hent) hnil
    have hqueue : d.queue.queue.length ≤ d.pending.length := by
      rw [Scheduler.pending, List.length_map, List.length_append]
      exact Nat.le_add_left _ _
    rcases RequestQueue.batchReady_of_returned hq hwait hp hne with hfull | hstop
    · omega
    · rw [hopen] at hstop
      cases hstop

/-- One worker, and room for eight requests in a batch. -/
theorem pool_bounds_batches_unitService :
    ∃ s, exec (pooledStep unitDeployment) (init unitDeployment) unitService = some s ∧
      ∀ d ∈ s.schedulers, d.calls.length = 2 ∧ ∀ c ∈ d.calls, c.batchSize ≤ 1 := by
  have hfacts : (exec (pooledStep unitDeployment) (init unitDeployment) unitService).map (fun s ↦
      (s.app.shared.executors.length, s.schedulers.map fun d ↦ d.calls.length)) =
      some (1, [2]) := by
    decide +kernel
  obtain ⟨s, hs, hf⟩ := Option.map_eq_some_iff.mp hfacts
  obtain ⟨hone, hcalls⟩ := Prod.mk.inj hf
  refine ⟨s, hs, ?_⟩
  intro d hd
  obtain ⟨-, hsize, -⟩ := pool_bounds_batches hs (Nat.le_of_eq hone) hd
  have hlen : d.calls.length ∈ s.schedulers.map fun d ↦ d.calls.length := List.mem_map_of_mem hd
  rw [hcalls, List.mem_singleton] at hlen
  exact ⟨hlen, hsize⟩

end Deployment
end InferenceServer.Server
