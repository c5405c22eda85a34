import Mathlib.Algebra.Order.Field.Rat
import Mathlib.Algebra.Order.Field.Basic
import InferenceServer.Batching.Counters
import InferenceServer.Server.Environment
import InferenceServer.Server.Pool

/-!
# The two servers of a comparison

Library `Benchmarks`. `benchmarks/load_test.py:55–59,721–748`: a benchmark starts the server once
with dynamic batching and once without, and tells it so by environment variables, which
`python/cuda_db/config.py:109–125` reads back. The comparison stands on the serial server never
having a batch of two, whatever was set in the parent's environment.
-/

namespace InferenceServer.Batching

open InferenceServer.Base

variable {F : Type}

/-- A section of `wait_and_drain` opens a window only if there is time for one. -/
theorem RequestQueue.timeout_pos_of_blocked {α : Type} {q q' : RequestQueue α} {m : Nat}
    {timeout : Int} {p : WaitPoint} {p' : WaitPoint}
    (h : q.waitAndDrain m timeout p = some (.blocked p', q')) (hp : p.inWindow = false) :
    p'.inWindow = true → 0 < timeout := by
  cases p with
  | entry =>
    intro hp'
    simp only [waitAndDrain] at h
    split at h
    · cases h
      cases hp'
    · split at h
      · cases h
      · split at h
        · next hpos => exact hpos
        · rw [drain_eq] at h
          cases h
  | parked => cases h
  | window => cases hp
  | windowTest => cases hp
  | windowExpired => cases hp

/-- The worker has no empty batch in its hands, and no window open that has no length. -/
def Worker.Fits (cfg : SchedulerConfig) : Worker F → Prop
  | .waiting p => p.inWindow = true → 0 < cfg.maxWait
  | .batched _ batch => 1 ≤ batch.length
  | .executing _ batch _ => 1 ≤ batch.length
  | _ => True

theorem Worker.Fits.wake {cfg : SchedulerConfig} {w : Worker F} (h : w.Fits cfg) :
    w.wake.Fits cfg := by
  cases w with
  | waiting p =>
    cases p with
    | parked =>
      rintro ⟨⟩
    | window => exact fun _ ↦ h rfl
    | _ => exact h
  | _ => exact h

namespace Scheduler

variable {cfg : SchedulerConfig} {s t : Scheduler F} {e : Event F}

/-- The counters are the totals of batches between one request and `max_batch_size`. -/
structure Sizes (cfg : SchedulerConfig) (s : Scheduler F) : Prop where
  fits : s.worker.Fits cfg
  counted : ∃ (bs : List (CountedBatch F)) (times : List Nat), s.stats = tally bs times ∧
    ∀ b ∈ bs, 1 ≤ b.1.length ∧ b.1.length ≤ cfg.maxBatchSize
  calls : ∀ c ∈ s.calls, 1 ≤ c.batchSize

private theorem fits_step (h : s.worker.Fits cfg) (ht : s.step cfg e = some t) :
    t.worker.Fits cfg := by
  cases step_cases ht with
  | notifyOne => exact h.wake
  | notifyAll => exact h.wake
  | wake p hw hp =>
    rw [hw] at h
    exact Worker.Fits.wake (w := .waiting p) h
  | expire hw =>
    rw [hw] at h
    exact fun _ ↦ h rfl
  | spawn => rintro ⟨⟩
  | spawnOver => trivial
  | join => trivial
  | worker hworker =>
    cases hworker with
    | poll p o q hw hq =>
      rw [hw] at h
      unfold pollStep
      split
      · next p' =>
        intro hp'
        by_cases hp : p.inWindow = true
        · exact h hp
        · exact RequestQueue.timeout_pos_of_blocked hq (Bool.eq_false_iff.mpr hp) hp'
      · trivial
      · trivial
    | checkRunning =>
      change Worker.Fits cfg (if s.running then .waiting .entry else .exited)
      split
      · rintro ⟨⟩
      · trivial
    | filter d todo batch =>
      unfold filterStep
      split
      · change Worker.Fits cfg (if batch.isEmpty then .waiting .entry else .batched d batch)
        split
        · rintro ⟨⟩
        · next hne => exact List.length_pos_iff.mpr fun hnil ↦ hne (by rw [hnil]; rfl)
      · split
        · trivial
        · split <;> trivial
    | account d batch dequeuedAt hw =>
      rw [hw] at h
      exact h
    | infer d batch input answer execUs =>
      change Worker.Fits cfg (.afterAnswer cfg d batch answer)
      unfold Worker.afterAnswer
      split
      · trivial
      · split <;> trivial
    | deliver d batch out i =>
      unfold deliverStep
      split
      · rintro ⟨⟩
      · split <;> trivial
    | fail d batch todo eptr =>
      unfold failStep
      split
      · rintro ⟨⟩
      · split <;> trivial
  | _ => exact h

/-- The batch that the worker counts next. -/
theorem Sizes.batchMark_size (h : s.Sizes cfg) (hi : s.Inv cfg) {b : CountedBatch F}
    (hb : s.batchMark e = some b) : 1 ≤ b.1.length ∧ b.1.length ≤ cfg.maxBatchSize := by
  have hfits := h.fits
  have hok := hi.workerOk
  unfold batchMark at hb
  split at hb
  · split at hb
    · next d batch hw =>
      cases hb
      rw [hw] at hfits
      simp only [WorkerOk, hw] at hok
      refine ⟨hfits, ?_⟩
      rw [hok.2]
      exact (List.length_filter_le _ _).trans (hi.drained d hok.1).2
    · cases hb
  · cases hb

theorem Sizes.step (h : s.Sizes cfg) (hi : s.Inv cfg) (ht : s.step cfg e = some t) :
    t.Sizes cfg := by
  refine ⟨fits_step h.fits ht, ?_, ?_⟩
  · by_cases hreset : e = .resetStats
    · subst hreset
      cases step_cases ht with
      | resetStats => exact ⟨[], [], rfl, fun _ hb ↦ absurd hb List.not_mem_nil⟩
      | worker hworker => cases hworker
    · obtain ⟨bs, times, hstats, hbs⟩ := h.counted
      refine ⟨_, _, stats_step ht hreset hstats, ?_⟩
      intro b hb
      rcases List.mem_append.mp hb with hb | hb
      · exact hbs b hb
      · exact h.batchMark_size hi (Option.mem_toList.mp hb)
  · have same (hcalls : t.calls = s.calls) : ∀ c ∈ t.calls, 1 ≤ c.batchSize := by
      rw [hcalls]
      exact h.calls
    cases step_cases ht with
    | worker hworker =>
      cases hworker with
      | poll p o q => exact same (pollStep_stats s o q).2.1
      | filter d todo batch => exact same (filterStep_stats cfg s d todo batch).2.1
      | deliver d batch out i => exact same (deliverStep_stats cfg s d batch out i).2.1
      | fail d batch todo eptr => exact same (failStep_stats s d batch todo eptr).2.1
      | infer d batch input answer execUs hw =>
        have hfits := h.fits
        rw [hw] at hfits
        exact forall_mem_snoc h.calls hfits
      | _ => exact same rfl
    | _ => exact same rfl

/-- The counters moved on from `a` to `b` by batches of at most `n` requests. -/
def Spread (n : Nat) (a b : SchedulerStats) : Prop :=
  ∃ batches requests, b.totalBatches = a.totalBatches + batches ∧
    b.totalRequests = a.totalRequests + requests ∧ batches ≤ requests ∧ requests ≤ n * batches

theorem Spread.refl (n : Nat) (a : SchedulerStats) : Spread n a a :=
  ⟨0, 0, rfl, rfl, Nat.le_refl _, Nat.zero_le _⟩

theorem Spread.trans {n : Nat} {a b c : SchedulerStats} (h : Spread n a b) (h' : Spread n b c) :
    Spread n a c := by
  obtain ⟨k, r, hb, hr, hlow, hhigh⟩ := h
  obtain ⟨k', r', hb', hr', hlow', hhigh'⟩ := h'
  refine ⟨k + k', r + r', by omega, by omega, by omega, ?_⟩
  rw [Nat.mul_add]
  omega

/-- A step counts one batch or none. -/
theorem Sizes.spread_step (h : s.Sizes cfg) (hi : s.Inv cfg) (ht : s.step cfg e = some t)
    (hreset : e ≠ .resetStats) : Spread cfg.maxBatchSize s.stats t.stats := by
  obtain ⟨bs, times, hstats, -⟩ := h.counted
  rw [stats_step ht hreset hstats, hstats]
  cases hmark : s.batchMark e with
  | none =>
    rw [Option.toList_none, List.append_nil]
    exact .refl _ _
  | some b =>
    have hsize := h.batchMark_size hi hmark
    refine ⟨1, b.1.length, ?_, ?_, hsize.1, ?_⟩
    · simp [tally]
    · simp [tally]
    · rw [Nat.mul_one]
      exact hsize.2

/-! ### Readings of the counters -/

/-- A value that a load of one counter may see, `scheduler.cpp:95–104`. The worker increments the
counters of a batch one after another (`scheduler.cpp:159–184`), which the step `account` does at
once: before that step a counter may already be ahead of the others. -/
def Loads (d : Scheduler F) (counter : SchedulerStats → Nat) (value : Nat) : Prop :=
  value = counter d.stats ∨ ∃ drained batch dequeuedAt,
    d.worker = .batched drained batch ∧ value = counter (d.stats.countBatch batch dequeuedAt)

/-- No batch is being counted. -/
def Quiet (d : Scheduler F) : Prop :=
  match d.worker with
  | .batched _ _ => False
  | _ => True

theorem Quiet.ne_batched {d : Scheduler F} (h : d.Quiet) (drained batch) :
    d.worker ≠ .batched drained batch := by
  intro hw
  rw [Quiet, hw] at h
  exact h

theorem Quiet.eq_of_loads {d : Scheduler F} (h : d.Quiet) {counter : SchedulerStats → Nat}
    {value : Nat} (hl : d.Loads counter value) : value = counter d.stats := by
  rcases hl with heq | ⟨drained, batch, -, hw, -⟩
  · exact heq
  · exact absurd hw (h.ne_batched drained batch)

/-- While no batch is being counted, the two counters of a reading stand still. -/
theorem Quiet.stats_step (h : s.Quiet) (hs : s.Sizes cfg) (ht : s.step cfg e = some t)
    (hreset : e ≠ .resetStats) :
    t.stats.totalBatches = s.stats.totalBatches ∧
      t.stats.totalRequests = s.stats.totalRequests := by
  obtain ⟨bs, times, hstats, -⟩ := hs.counted
  have hmark : s.batchMark e = none := by
    cases hm : s.batchMark e with
    | none => rfl
    | some b =>
      unfold batchMark at hm
      split at hm
      · split at hm
        · next hw => exact absurd hw (h.ne_batched _ _)
        · cases hm
      · cases hm
  rw [Scheduler.stats_step ht hreset hstats, hmark, Option.toList_none, List.append_nil, hstats]
  exact ⟨rfl, rfl⟩

end Scheduler
end InferenceServer.Batching

namespace InferenceServer.Server.Deployment

open InferenceServer.Base InferenceServer.Batching

variable {F : Type} {cfg : DeploymentConfig F} {s t u : Deployment F}

/-- The scheduler makes at most one step, and its counters are not reset. -/
def MovesOn (cfg : DeploymentConfig F) (d d' : Scheduler F) : Prop :=
  d' = d ∨ ∃ ev, ev ≠ .resetStats ∧ d.step cfg.scheduler ev = some d'

/-- A step of the deployment is at most one step of each of its schedulers. -/
theorem scheduler_of_step {e : Event F} (h : s.step cfg e = some t) {j : Nat} {d : Scheduler F}
    (hd : s.schedulers[j]? = some d) (he : e ≠ .scheduler j .resetStats) :
    ∃ d', t.schedulers[j]? = some d' ∧ MovesOn cfg d d' := by
  have hlt := (List.getElem?_eq_some_iff.mp hd).1
  have kept (ht : t.schedulers = s.schedulers) :
      ∃ d', t.schedulers[j]? = some d' ∧ MovesOn cfg d d' := ⟨d, ht ▸ hd, .inl rfl⟩
  have stepped {k : Nat} {x x' : Scheduler F} {ev : Batching.Event F}
      (hx : s.schedulers[k]? = some x) (hev : k = j → ev ≠ .resetStats)
      (hstep : x.step cfg.scheduler ev = some x') (ht : t.schedulers = s.schedulers.set k x') :
      ∃ d', t.schedulers[j]? = some d' ∧ MovesOn cfg d d' := by
    rw [ht]
    by_cases hk : k = j
    · subst hk
      rw [hd] at hx
      cases hx
      exact ⟨x', List.getElem?_set_self hlt, .inr ⟨ev, hev rfl, hstep⟩⟩
    · exact ⟨d, by rw [List.getElem?_set_ne hk, hd], .inl rfl⟩
  cases e with
  | app ev =>
    simp only [step] at h
    split at h
    · obtain ⟨app, -, rfl⟩ := Option.map_eq_some_iff.mp h
      exact ⟨d, by rw [adopt, List.getElem?_append_left hlt, hd], .inl rfl⟩
    · cases h
  | predict c requestId arrivalTime =>
    simp only [step, predict, Option.bind_eq_some_iff] at h
    obtain ⟨w, -, app, -, h⟩ := h
    split at h
    · cases h
      exact kept rfl
    · obtain ⟨x, hx, rfl⟩ := Option.map_eq_some_iff.mp h
      have hstep : x.step cfg.scheduler (.submit requestId w.array arrivalTime) =
          some (x.submit requestId w.array arrivalTime) := rfl
      exact stepped hx (by rintro - ⟨⟩) hstep rfl
  | complete c =>
    simp only [step, complete, Option.bind_eq_some_iff, Option.map_eq_some_iff] at h
    obtain ⟨_, -, _, -, _, -, _, -, rfl⟩ := h
    exact kept rfl
  | scheduler k ev =>
    simp only [step] at h
    split at h
    · simp only [schedulerStep, Option.bind_eq_some_iff, Option.map_eq_some_iff] at h
      obtain ⟨x, hx, x', hstep, rfl⟩ := h
      refine stepped hx ?_ hstep rfl
      rintro rfl rfl
      exact he rfl
    · cases h
  | stop k =>
    simp only [step] at h
    split at h
    · simp only [schedulerStep, Option.bind_eq_some_iff, Option.map_eq_some_iff] at h
      obtain ⟨x, hx, x', hstep, rfl⟩ := h
      exact stepped hx (by rintro - ⟨⟩) hstep rfl
    · cases h
  | shutdown k =>
    simp only [step, Option.bind_eq_some_iff, Option.map_eq_some_iff] at h
    obtain ⟨v, hv, app, -, rfl⟩ := h
    simp only [schedulerStep, Option.bind_eq_some_iff, Option.map_eq_some_iff] at hv
    obtain ⟨x, hx, x', hstep, rfl⟩ := hv
    exact stepped hx (by rintro - ⟨⟩) hstep rfl

/-- What holds of the batches in every run. -/
structure Batches (cfg : DeploymentConfig F) (s : Deployment F) : Prop where
  wired : s.Wired cfg
  sizes : ∀ d ∈ s.schedulers, d.Sizes cfg.scheduler

theorem Batches.step (h : s.Batches cfg) {e : Event F} (ht : s.step cfg e = some t) :
    t.Batches cfg := by
  have hm := step_cases ht
  refine ⟨h.wired.step hm, hm.schedulers h.wired ?_ ?_ h.sizes⟩
  · refine ⟨?_, ⟨[], [], rfl, ?_⟩, ?_⟩
    · rintro ⟨⟩
    · exact fun _ hb ↦ absurd hb List.not_mem_nil
    · exact fun _ hc ↦ absurd hc List.not_mem_nil
  · exact fun d e d' hi hd hstep ↦ hd.step hi hstep

theorem batches_exec {es : List (Event F)} (h : exec (step cfg) (init cfg) es = some s) :
    s.Batches cfg :=
  exec_preserves (fun _ _ _ hs ht ↦ hs.step ht) h
    ⟨wired_init cfg, fun _ hd ↦ absurd hd List.not_mem_nil⟩

/-- Between two readings of the counters of a scheduler. -/
theorem Batches.spread (h : s.Batches cfg) {j : Nat} {d : Scheduler F}
    (hd : s.schedulers[j]? = some d) {es : List (Event F)}
    (hreset : .scheduler j .resetStats ∉ es) (hrun : exec (Deployment.step cfg) s es = some t) :
    ∃ d', t.schedulers[j]? = some d' ∧ Scheduler.Spread cfg.maxBatchSize d.stats d'.stats := by
  induction es generalizing s d with
  | nil =>
    cases hrun
    exact ⟨d, hd, .refl _ _⟩
  | cons e es ih =>
    obtain ⟨m, hm, hrest⟩ := exec_cons_eq_some.mp hrun
    rw [List.mem_cons, not_or] at hreset
    obtain ⟨x, hx, hstep⟩ := scheduler_of_step hm hd fun he ↦ hreset.1 he.symm
    obtain ⟨d', hd', hspread⟩ := ih (h.step hm) hx hreset.2 hrest
    refine ⟨d', hd', .trans ?_ hspread⟩
    rcases hstep with rfl | ⟨ev, hev, hstep⟩
    · exact .refl _ _
    · have hmem := List.mem_of_getElem? hd
      exact (h.sizes d hmem).spread_step (h.wired.inv d hmem) hstep hev

/-- No batch of scheduler `j` is being counted. -/
def Quiet (j : Nat) (s : Deployment F) : Prop :=
  ∀ d, s.schedulers[j]? = some d → d.Quiet

/-- `total_batches` and `total_requests` of a reading. -/
structure CounterReading where
  totalBatches : Nat
  totalRequests : Nat
  deriving DecidableEq, Repr

/-- A call of `Scheduler::stats`, `scheduler.cpp:95–104`, that loads `total_batches` in state `s`
and `total_requests` in state `t`, with the events `es` between them and no batch being counted. -/
structure Reading (cfg : DeploymentConfig F) (j : Nat) (s : Deployment F) (es : List (Event F))
    (t : Deployment F) (r : CounterReading) : Prop where
  run : exec (step cfg) s es = some t
  batches : ∃ d, s.schedulers[j]? = some d ∧ d.Loads (·.totalBatches) r.totalBatches
  requests : ∃ d, t.schedulers[j]? = some d ∧ d.Loads (·.totalRequests) r.totalRequests
  quiet : Along (step cfg) (fun s _ ↦ s.Quiet j) s es
  quiet_end : t.Quiet j

/-- The two counters stand still during the reading. -/
theorem Batches.still (h : s.Batches cfg) {j : Nat} {d : Scheduler F}
    (hd : s.schedulers[j]? = some d) {es : List (Event F)}
    (hreset : .scheduler j .resetStats ∉ es) (hrun : exec (Deployment.step cfg) s es = some t)
    (hquiet : Along (Deployment.step cfg) (fun s _ ↦ s.Quiet j) s es) :
    ∃ d', t.schedulers[j]? = some d' ∧ d'.stats.totalBatches = d.stats.totalBatches ∧
      d'.stats.totalRequests = d.stats.totalRequests := by
  induction es generalizing s d with
  | nil =>
    cases hrun
    exact ⟨d, hd, rfl, rfl⟩
  | cons e es ih =>
    obtain ⟨m, hm, hrest⟩ := exec_cons_eq_some.mp hrun
    rw [List.mem_cons, not_or] at hreset
    obtain ⟨x, hx, hstep⟩ := scheduler_of_step hm hd fun he ↦ hreset.1 he.symm
    obtain ⟨d', hd', hbatches, hrequests⟩ := ih (h.step hm) hx hreset.2 hrest (hquiet.2 m hm)
    have hsame : x.stats.totalBatches = d.stats.totalBatches ∧
        x.stats.totalRequests = d.stats.totalRequests := by
      rcases hstep with rfl | ⟨ev, hev, hstep⟩
      · exact ⟨rfl, rfl⟩
      · exact (hquiet.1 d hd).stats_step (h.sizes d (List.mem_of_getElem? hd)) hstep hev
    exact ⟨d', hd', hbatches.trans hsame.1, hrequests.trans hsame.2⟩

/-- Such a reading shows the counters as they are. -/
theorem Reading.eq_stats {j : Nat} {es : List (Event F)} {r : CounterReading}
    (h : Reading cfg j s es t r) (hs : s.Batches cfg)
    (hreset : .scheduler j .resetStats ∉ es) :
    ∃ d, t.schedulers[j]? = some d ∧ r = ⟨d.stats.totalBatches, d.stats.totalRequests⟩ := by
  obtain ⟨d, hd, hbatches⟩ := h.batches
  obtain ⟨d', hd', hrequests⟩ := h.requests
  have hfirst : d.Quiet := by
    cases es with
    | nil =>
      cases h.run
      exact h.quiet_end d hd
    | cons e es => exact h.quiet.1 d hd
  obtain ⟨x, hx, hsame, -⟩ := hs.still hd hreset h.run h.quiet
  cases hd'.symm.trans hx
  refine ⟨d', hd', ?_⟩
  rw [hsame, ← hfirst.eq_of_loads hbatches, ← (h.quiet_end d' hd').eq_of_loads hrequests]

end InferenceServer.Server.Deployment

namespace InferenceServer.Benchmarks

open InferenceServer.Base InferenceServer.Batching InferenceServer.Server

/-- The keys of `MODE_CONFIG`, `load_test.py:56–59`. -/
inductive Mode where
  | dynamic
  | serial
  deriving DecidableEq, Repr

/-- `MODE_CONFIG[mode]`. -/
def Mode.config : Mode → List (String × String)
  | .dynamic => [("CUDA_DB_MAX_BATCH_SIZE", "8"), ("CUDA_DB_MAX_WAIT_MS", "5")]
  | .serial => [("CUDA_DB_MAX_BATCH_SIZE", "1"), ("CUDA_DB_MAX_WAIT_MS", "0")]

/-- The arguments of `ServerProcess`, `load_test.py:724–726`. -/
structure ServerProcess where
  mode : Mode
  modelPath : String
  inputElems : Int
  outputElems : Int
  executorWorkers : Int
  maxWaitMs : Option Int := none
  maxBatchSize : Option Int := none
  deriving DecidableEq, Repr

namespace ServerProcess

/-- `if value is not None: env[name] = str(value)`. -/
def override (env : Environ) (name : String) : Option Int → Environ
  | some value => env.set name value.repr
  | none => env

/-- The batching variables, `load_test.py:729–741`. -/
def batching (p : ServerProcess) (parent : Environ) : Environ :=
  let env := p.mode.config.foldl (fun env (name, value) ↦ env.set name value) parent
  if p.mode = .dynamic then
    override (override env "CUDA_DB_MAX_WAIT_MS" p.maxWaitMs)
      "CUDA_DB_MAX_BATCH_SIZE" p.maxBatchSize
  else env

/-- The environment of the server, `load_test.py:729–747`. -/
def env (p : ServerProcess) (parent : Environ) : Environ :=
  let env := (p.batching parent).set "CUDA_DB_INPUT_ELEMS" p.inputElems.repr
  let env := env.set "CUDA_DB_OUTPUT_ELEMS" p.outputElems.repr
  let env := env.set "CUDA_DB_EXECUTOR_WORKERS" p.executorWorkers.repr
  if p.modelPath = "" then env else env.set "CUDA_DB_MODEL_PATH" p.modelPath

/-- The batch size that the arguments ask for. -/
def batchSize (p : ServerProcess) : Int :=
  match p.mode with
  | .dynamic => p.maxBatchSize.getD 8
  | .serial => 1

/-- The batching window that the arguments ask for. -/
def window (p : ServerProcess) : Int :=
  match p.mode with
  | .dynamic => p.maxWaitMs.getD 5
  | .serial => 0

theorem batching_maxBatchSize (p : ServerProcess) (parent : Environ) :
    p.batching parent "CUDA_DB_MAX_BATCH_SIZE" = some p.batchSize.repr := by
  cases hm : p.mode with
  | serial => simp [batching, batchSize, Mode.config, Environ.set, hm]; rfl
  | dynamic =>
    cases hs : p.maxBatchSize with
    | some size => simp [batching, batchSize, override, Environ.set, hm, hs]
    | none =>
      cases hw : p.maxWaitMs <;>
        simp [batching, batchSize, override, Mode.config, Environ.set, hm, hs, hw] <;> rfl

theorem batching_maxWaitMs (p : ServerProcess) (parent : Environ) :
    p.batching parent "CUDA_DB_MAX_WAIT_MS" = some p.window.repr := by
  cases hm : p.mode with
  | serial => simp [batching, window, Mode.config, Environ.set, hm]; rfl
  | dynamic =>
    cases hw : p.maxWaitMs with
    | some wait =>
      cases hs : p.maxBatchSize <;> simp [batching, window, override, Environ.set, hm, hs, hw]
    | none =>
      cases hs : p.maxBatchSize <;>
        simp [batching, window, override, Mode.config, Environ.set, hm, hs, hw] <;> rfl

/-- The other variables of `env` are not about batching. -/
theorem env_of_ne (p : ServerProcess) (parent : Environ) {name : String}
    (hi : name ≠ "CUDA_DB_INPUT_ELEMS") (ho : name ≠ "CUDA_DB_OUTPUT_ELEMS")
    (hx : name ≠ "CUDA_DB_EXECUTOR_WORKERS") (hm : name ≠ "CUDA_DB_MODEL_PATH") :
    p.env parent name = p.batching parent name := by
  unfold env
  split
  · rw [Environ.set_ne _ _ hx, Environ.set_ne _ _ ho, Environ.set_ne _ _ hi]
  · rw [Environ.set_ne _ _ hm, Environ.set_ne _ _ hx, Environ.set_ne _ _ ho,
      Environ.set_ne _ _ hi]

/-- `int` reads back what was written for a variable. -/
theorem envInt_repr (py : PyText) {env : Environ} {name : String} {n : Int}
    (h : env name = some n.repr) (default : Int) : envInt py env name default = .ok n := by
  have hne : n.repr ≠ "" := by
    cases n with
    | ofNat m => exact Nat.repr_ne_empty
    | negSucc m => simp [Int.repr]
  simp only [envInt, envVar, h, hne, if_false, py.int_str]

/-- The server has the settings that it was started with. -/
theorem settings_of_env {py : PyText} {parent : Environ} {p : ServerProcess} {s : RuntimeSettings}
    (hs : RuntimeSettings.fromEnv py (p.env parent) = .ok s) :
    s.maxBatchSize = p.batchSize ∧ s.maxWaitMs = p.window := by
  have h := RuntimeSettings.fromEnv_eq_ok.mp hs
  have hsize : p.env parent "CUDA_DB_MAX_BATCH_SIZE" = some p.batchSize.repr := by
    rw [env_of_ne p parent (by decide) (by decide) (by decide) (by decide), batching_maxBatchSize]
  have hwait : p.env parent "CUDA_DB_MAX_WAIT_MS" = some p.window.repr := by
    rw [env_of_ne p parent (by decide) (by decide) (by decide) (by decide), batching_maxWaitMs]
  have hbatch := h.maxBatchSize
  have hwindow := h.maxWaitMs
  rw [envInt_repr py hsize] at hbatch
  rw [envInt_repr py hwait] at hwindow
  exact ⟨(Except.ok.inj hbatch).symm, (Except.ok.inj hwindow).symm⟩

end ServerProcess

/-- `total_batches` and `total_requests` of a phase, `load_test.py:503–506`. -/
structure MeasuredStats where
  totalBatches : Int
  totalRequests : Int
  deriving DecidableEq, Repr

def MeasuredStats.between (baseline after : Deployment.CounterReading) : MeasuredStats where
  totalBatches := after.totalBatches - baseline.totalBatches
  totalRequests := after.totalRequests - baseline.totalRequests

/-- `RunResult.observed_mean_batch`, `load_test.py:97–106`. -/
def MeasuredStats.observedMeanBatch (m : MeasuredStats) : ℚ :=
  if m.totalBatches = 0 then 0 else m.totalRequests / m.totalBatches

/-- No batch was counted and the mean is reported as zero, or the mean batch is between one request
and `n`. -/
def MeasuredStats.MeanWithin (m : MeasuredStats) (n : Int) : Prop :=
  m.totalBatches = 0 ∧ m.totalRequests = 0 ∧ m.observedMeanBatch = 0 ∨
    0 < m.totalBatches ∧ 1 ≤ m.observedMeanBatch ∧ m.observedMeanBatch ≤ n

theorem MeasuredStats.meanWithin_of_spread {n : Nat} {a b : SchedulerStats}
    (h : Scheduler.Spread n a b) :
    (between ⟨a.totalBatches, a.totalRequests⟩ ⟨b.totalBatches, b.totalRequests⟩).MeanWithin n := by
  obtain ⟨k, r, hb, hr, hlow, hhigh⟩ := h
  set m := between ⟨a.totalBatches, a.totalRequests⟩ ⟨b.totalBatches, b.totalRequests⟩ with hm
  have hbatches : m.totalBatches = k := by
    simp only [hm, between, hb]
    omega
  have hrequests : m.totalRequests = r := by
    simp only [hm, between, hr]
    omega
  simp only [MeanWithin, observedMeanBatch, hbatches, hrequests]
  rcases Nat.eq_zero_or_pos k with rfl | hk
  · left
    rw [Nat.mul_zero] at hhigh
    exact ⟨rfl, by omega, if_pos rfl⟩
  · right
    have hk' : (0 : ℚ) < k := by exact_mod_cast hk
    rw [if_neg (by omega), Int.cast_natCast, Int.cast_natCast, Int.cast_natCast, one_le_div hk',
      div_le_iff₀ hk']
    exact ⟨by omega, by exact_mod_cast hlow, by exact_mod_cast hhigh⟩

/-- A benchmark compares what it says. Between two readings of the counters, each taken while no
batch is being counted, the mean batch of a server is zero if no batch was counted and otherwise at
least one request and at most the batch size that the benchmark asked for. No engine call is larger,
and the serial server never opens a batching window, whatever the environment of the benchmark
holds. -/
theorem mean_batch_of_mode {F : Type} {py : PyText} {parent : Environ} {p : ServerProcess}
    {settings : RuntimeSettings}
    (hs : RuntimeSettings.fromEnv py (p.env parent) = .ok settings) {codec : Codec F}
    {es fs reading reading' : List (Deployment.Event F)} {u v s t : Deployment F} {j : Nat}
    {baseline after : Deployment.CounterReading}
    (hu : exec (Deployment.step (settings.deployment codec))
      (Deployment.init (settings.deployment codec)) es = some u)
    (hbaseline : Deployment.Reading (settings.deployment codec) j u reading v baseline)
    (hv : exec (Deployment.step (settings.deployment codec)) v fs = some s)
    (hafter : Deployment.Reading (settings.deployment codec) j s reading' t after)
    (hreset : .scheduler j .resetStats ∉ reading ++ fs ++ reading') :
    (MeasuredStats.between baseline after).MeanWithin p.batchSize ∧
      ∃ d, t.schedulers[j]? = some d ∧
        (∀ c ∈ d.calls, 1 ≤ c.batchSize ∧ c.batchSize ≤ p.batchSize) ∧
        (p.mode = .serial → p.batchSize = 1 ∧
          ∀ w, d.worker = .waiting w → w.inWindow = false) := by
  obtain ⟨hsize, hwindow⟩ := ServerProcess.settings_of_env hs
  have hpos : 1 ≤ settings.maxBatchSize :=
    settings.valid.positive ("max_batch_size", _) List.mem_cons_self
  have hmax : ((settings.deployment codec).maxBatchSize : Int) = p.batchSize := by
    rw [← hsize]
    exact Int.toNat_of_nonneg (by omega)
  rw [List.mem_append, List.mem_append, not_or, not_or] at hreset
  obtain ⟨⟨hreset₁, hreset₂⟩, hreset₃⟩ := hreset
  have hbegin := Deployment.batches_exec hu
  have hmiddle := Deployment.batches_exec (exec_append_eq_some.mpr ⟨u, hu, hbaseline.run⟩)
  have hlater := Deployment.batches_exec (exec_append_eq_some.mpr
    ⟨v, exec_append_eq_some.mpr ⟨u, hu, hbaseline.run⟩, hv⟩)
  obtain ⟨d, hd, rfl⟩ := hbaseline.eq_stats hbegin hreset₁
  obtain ⟨d', hd', rfl⟩ := hafter.eq_stats hlater hreset₃
  have hreset' : .scheduler j .resetStats ∉ fs ++ reading' := by
    rw [List.mem_append, not_or]
    exact ⟨hreset₂, hreset₃⟩
  obtain ⟨x, hx, hspread⟩ := hmiddle.spread hd hreset'
    (exec_append_eq_some.mpr ⟨s, hv, hafter.run⟩)
  cases hd'.symm.trans hx
  have hend := Deployment.batches_exec (exec_append_eq_some.mpr
    ⟨s, exec_append_eq_some.mpr ⟨v, exec_append_eq_some.mpr ⟨u, hu, hbaseline.run⟩, hv⟩,
      hafter.run⟩)
  have hmem := List.mem_of_getElem? hd'
  have hsizes := hend.sizes d' hmem
  have hi := hend.wired.inv d' hmem
  refine ⟨?_, d', hd', ?_, ?_⟩
  · have hmean := MeasuredStats.meanWithin_of_spread hspread
    rw [hmax] at hmean
    exact hmean
  · intro c hc
    have hok := hi.called c hc
    refine ⟨hsizes.calls c hc, ?_⟩
    rw [← hmax, hok.size]
    exact_mod_cast (List.length_filter_le _ _).trans (hi.drained _ hok.drained).2
  · intro hserial
    refine ⟨by rw [ServerProcess.batchSize, hserial], fun w hw ↦ ?_⟩
    have hfits := hsizes.fits
    rw [hw] at hfits
    have hzero : (settings.deployment codec).scheduler.maxWait = 0 := by
      change settings.maxWaitMs = 0
      rw [hwindow, ServerProcess.window, hserial]
    rw [Bool.eq_false_iff]
    intro hin
    have hlt := hfits hin
    rw [hzero] at hlt
    exact absurd hlt (Int.lt_irrefl 0)

/-- A number without sign. -/
def decimalNat (digits : List Char) : Option Nat :=
  if digits ≠ [] ∧ digits.all (·.isDigit) = true then some (Nat.ofDigitChars 10 digits 0) else none

/-- `int` on plain decimal numbers. -/
def decimal (raw : String) : Option Int :=
  match raw.toList with
  | '-' :: digits => (decimalNat digits).map fun n ↦ -Int.ofNat n
  | digits => (decimalNat digits).map Int.ofNat

theorem decimalNat_toDigits (n : Nat) : decimalNat (Nat.toDigits 10 n) = some n := by
  have hdigits : (Nat.toDigits 10 n).all (·.isDigit) = true :=
    List.all_eq_true.mpr fun _ hc ↦ Nat.isDigit_of_mem_toDigits (by decide) (by decide) hc
  rw [decimalNat, if_pos ⟨Nat.toDigits_ne_nil, hdigits⟩, Nat.ofDigitChars_ten_toDigits]

theorem decimal_repr (n : Int) : decimal n.repr = some n := by
  cases n with
  | ofNat m =>
    -- no digit is a sign, so the text is read by the second branch
    have hsign : ∀ digits, Nat.toDigits 10 m ≠ '-' :: digits := by
      intro digits h
      have hdigit : '-'.isDigit = true :=
        Nat.isDigit_of_mem_toDigits (by decide : 0 < 10) (by decide) (h ▸ List.mem_cons_self)
      exact absurd hdigit (by decide)
    simp only [decimal, Int.repr, Nat.toList_repr, decimalNat_toDigits]
    rfl
  | negSucc m =>
    have hlist : (Int.negSucc m).repr.toList = '-' :: Nat.toDigits 10 (m + 1) := by
      simp [Int.repr, Nat.toList_repr]
    simp only [decimal, hlist, decimalNat_toDigits]
    rfl

/-- Decimal numbers, and texts that need no folding. -/
def plainText : PyText where
  int := decimal
  repr raw := raw
  normalized raw := raw
  int_str := decimal_repr

/-- A serial server for tensors of one element, whose parent asks for batches of 32. -/
def serialUnit : ServerProcess :=
  { mode := .serial, modelPath := "", inputElems := 1, outputElems := 1, executorWorkers := 1
    maxBatchSize := some 16 }

def crowdedParent : Environ := fun name ↦
  if name = "CUDA_DB_MAX_BATCH_SIZE" then some "32" else none

def serialSettings : RuntimeSettings where
  maxBatchSize := 1
  maxWaitMs := 0
  inputElems := 1
  outputElems := 1
  executorWorkers := 1
  valid := RuntimeArgs.postInit_eq_ok.mp rfl

def serialDeployment : DeploymentConfig Int :=
  serialSettings.deployment Application.unitServer.toCodec

/-- The scheduler of the serial server serves one request: no window is opened first. -/
def serialBatch (output : Int) : List (Deployment.Event Int) :=
  (Deployment.unitBatch output).drop 2

/-- The server comes up; a request has reached its scheduler. -/
def serialStart : List (Deployment.Event Int) :=
  [[.app (.lifespan (.startup { store := .ok [], engine := "stub" })), .app (.probe 0 .take),
      .predict (.probe 0) 0 0],
    serialBatch 0, [.complete (.probe 0), .app (.lifespan .probeResumed)],
    (Application.unitSubmission 0 Application.rawScope [7, 0, 0, 0]).map .app,
    [.app (.request 0 (.native (.advance .take))), .predict (.request 0) 1 0]].flatten

/-- What the witness looks at of a scheduler. -/
def counterView (d : Scheduler Int) : Nat × Nat × Bool :=
  (d.stats.totalBatches, d.stats.totalRequests, match d.worker with
    | .batched _ _ => false
    | _ => true)

theorem quiet_of_counterView {s : Deployment Int} {n m : Nat}
    (h : s.schedulers.map counterView = [(n, m, true)]) :
    (∃ d, s.schedulers[0]? = some d ∧ d.stats.totalBatches = n ∧ d.stats.totalRequests = m) ∧
      s.Quiet 0 := by
  obtain ⟨d, hd, hview⟩ := List.map_eq_singleton_iff.mp h
  have hfirst : s.schedulers[0]? = some d := by
    rw [hd]
    rfl
  simp only [counterView, Prod.mk.injEq] at hview
  refine ⟨⟨d, hfirst, hview.1, hview.2.1⟩, fun x hx ↦ ?_⟩
  cases hx.symm.trans hfirst
  have hworker := hview.2.2
  rw [Scheduler.Quiet]
  split
  · next hw =>
    rw [hw] at hworker
    cases hworker
  · trivial

/-- The first reading loads `total_batches` before the worker takes the request from the queue and
`total_requests` after that; the second one is taken when the batch has been answered. -/
theorem mean_batch_of_mode_serialUnit :
    RuntimeSettings.fromEnv plainText (serialUnit.env crowdedParent) = .ok serialSettings ∧
      ∃ u v t, exec (Deployment.step serialDeployment) (Deployment.init serialDeployment)
          serialStart = some u ∧
        Deployment.Reading serialDeployment 0 u [.scheduler 0 .poll] v ⟨1, 1⟩ ∧
        exec (Deployment.step serialDeployment) v (serialBatch 7).tail = some t ∧
        Deployment.Reading serialDeployment 0 t [] t ⟨2, 2⟩ ∧
        (MeasuredStats.between ⟨1, 1⟩ ⟨2, 2⟩).MeanWithin 1 := by
  have hsettings : RuntimeSettings.fromEnv plainText (serialUnit.env crowdedParent) =
      .ok serialSettings := RuntimeSettings.fromEnv_eq_ok.mpr
    { maxBatchSize := ServerProcess.envInt_repr _ (n := 1) (by rfl) _
      maxWaitMs := ServerProcess.envInt_repr _ (n := 0) (by rfl) _
      inputElems := ServerProcess.envInt_repr _ (n := 1) (by rfl) _
      outputElems := ServerProcess.envInt_repr _ (n := 1) (by rfl) _
      executorWorkers := ServerProcess.envInt_repr _ (n := 1) (by rfl) _
      modelPath := rfl, requestTimeoutMs := rfl, maxInflightRequests := rfl
      maxRequestBytes := rfl, requireGpu := rfl, requireAuth := rfl, apiKeysFile := rfl
      deploymentMode := rfl }
  have hfacts :
      (exec (Deployment.step serialDeployment) (Deployment.init serialDeployment)
        serialStart).bind (fun u ↦
          (exec (Deployment.step serialDeployment) u [.scheduler 0 .poll]).bind fun v ↦
            (exec (Deployment.step serialDeployment) v (serialBatch 7).tail).map fun t ↦
              [u, v, t].map fun s ↦ s.schedulers.map counterView) =
      some [[(1, 1, true)], [(1, 1, true)], [(2, 2, true)]] := by
    decide +kernel
  obtain ⟨u, hu, hfacts⟩ := Option.bind_eq_some_iff.mp hfacts
  obtain ⟨v, hv, hfacts⟩ := Option.bind_eq_some_iff.mp hfacts
  obtain ⟨t, ht, hfacts⟩ := Option.map_eq_some_iff.mp hfacts
  simp only [List.map_cons, List.cons.injEq] at hfacts
  obtain ⟨⟨d, hd, hbatches, -⟩, hquiet⟩ := quiet_of_counterView hfacts.1
  obtain ⟨⟨d', hd', -, hrequests⟩, hquiet'⟩ := quiet_of_counterView hfacts.2.1
  obtain ⟨⟨x, hx, hbatches', hrequests'⟩, hquiet''⟩ := quiet_of_counterView hfacts.2.2.1
  have hbaseline : Deployment.Reading serialDeployment 0 u [.scheduler 0 .poll] v ⟨1, 1⟩ :=
    ⟨hv, ⟨d, hd, .inl hbatches.symm⟩, ⟨d', hd', .inl hrequests.symm⟩,
      ⟨hquiet, fun _ _ ↦ trivial⟩, hquiet'⟩
  have hafter : Deployment.Reading serialDeployment 0 t [] t ⟨2, 2⟩ :=
    ⟨rfl, ⟨x, hx, .inl hbatches'.symm⟩, ⟨x, hx, .inl hrequests'.symm⟩, trivial, hquiet''⟩
  have hmean := mean_batch_of_mode hsettings hu hbaseline ht hafter
    (by simp [serialBatch, Deployment.unitBatch])
  exact ⟨hsettings, u, v, t, hu, hbaseline, ht, hafter, hmean.1⟩

end InferenceServer.Benchmarks
