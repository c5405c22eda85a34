import InferenceServer.Batching.Delivery

/-!
# Start, stop and start again

Library `Batching`. `cpp/src/scheduler/scheduler.cpp:48–65,135–143` under any order of `start` and
`stop`. `start` sets `running_` again but nothing clears `stop_requested_`, so after a `stop` the
worker's wait returns at once with nothing, and a worker that is running goes straight back to it.
The same happens when a batch may hold no request.
-/

namespace InferenceServer.Batching

open InferenceServer.Base InferenceServer.Engine

variable {F : Type}

/-- The calls of `start` and `stop` that a run makes. -/
def callsOf (es : List (Event F)) : List Call := es.filterMap Event.call

theorem callsOf_snoc (es : List (Event F)) (e : Event F) :
    callsOf (es ++ [e]) = callsOf es ++ e.call.toList := by
  cases he : e.call <;> simp [callsOf, he]

namespace Scheduler

variable {cfg : SchedulerConfig} {s t : Scheduler F} {e : Event F}

/-! ### Where the worker does not spin -/

/-- Without a `start` there is no worker. -/
theorem absent_exec {es : List (Event F)} (h : exec (step cfg) init es = some s)
    (hes : .start ∉ callsOf es) : s.worker = .absent ∧ s.caller ≠ .spawning := by
  refine exec_induction (P := fun es s ↦ .start ∉ callsOf es →
    s.worker = .absent ∧ s.caller ≠ .spawning) (fun _ ↦ ⟨rfl, Caller.noConfusion⟩) ?_ h hes
  intro es s e t _ ih ht hes
  rw [callsOf_snoc, List.mem_append, not_or] at hes
  obtain ⟨hw, hc⟩ := ih hes.1
  by_cases hcall : e.isCaller = false
  · obtain ⟨-, hc', -, hw', -⟩ := step_frame ht hcall
    exact ⟨hw'.mpr hw, by rw [hc']; exact hc⟩
  · cases step_cases ht with
    | startAgain hid hr => exact absurd (List.mem_singleton_self _) hes.2
    | start hid hr => exact absurd (List.mem_singleton_self _) hes.2
    | spawn hsp hwk => exact absurd hsp hc
    | spawnOver hsp hwk => exact absurd hsp hc
    | stop hid => exact ⟨hw, nofun⟩
    | shutdown hst => exact ⟨hw, nofun⟩
    | notifyAll hno =>
      refine ⟨?_, nofun⟩
      rw [wake_absent]
      exact hw
    | join hjo hwk => exact ⟨rfl, nofun⟩
    | worker hwk => cases hwk <;> simp [Event.isCaller] at hcall
    | _ => simp [Event.isCaller] at hcall

/-- An event that begins no call sets neither flag, except for the shutdown of a `stop`. -/
theorem flags_step (ht : s.step cfg e = some t) (he : e.call = none) :
    t.running = s.running ∧
      (t.queue.stopRequested = true ∨ t.caller = .stopping →
        s.queue.stopRequested = true ∨ s.caller = .stopping) := by
  by_cases hcall : e.isCaller = false
  · obtain ⟨hr, hc, hq, -, -⟩ := step_frame ht hcall
    rw [hq, hc]
    exact ⟨hr, id⟩
  · cases step_cases ht with
    | startAgain hid hr => cases he
    | start hid hr => cases he
    | stop hid => cases he
    | spawn hsp hwk => exact ⟨rfl, .imp id nofun⟩
    | spawnOver hsp hwk => exact ⟨rfl, .imp id nofun⟩
    | shutdown hst => exact ⟨rfl, fun _ ↦ .inr hst⟩
    | notifyAll hno => exact ⟨rfl, .imp id nofun⟩
    | join hjo hwk => exact ⟨rfl, .imp id nofun⟩
    | worker hwk => cases hwk <;> simp [Event.isCaller] at hcall
    | _ => simp [Event.isCaller] at hcall

/-- When no call starts after a stop: shutdown comes from a `stop`, and after a `stop` the worker
is told to leave. -/
structure StoppedForGood (calls : List Call) (s : Scheduler F) : Prop where
  requested : s.queue.stopRequested = true ∨ s.caller = .stopping → .stop ∈ calls
  running : .stop ∈ calls → s.running = false

theorem stoppedForGood_exec {es : List (Event F)} (h : exec (step cfg) init es = some s)
    (hes : ¬[.stop, .start].Sublist (callsOf es)) : StoppedForGood (callsOf es) s := by
  refine exec_induction (P := fun es s ↦ ¬[.stop, .start].Sublist (callsOf es) →
    StoppedForGood (callsOf es) s) ?_ ?_ h hes
  · intro _
    refine ⟨?_, nofun⟩
    rintro (hreq | hst)
    · cases hreq
    · cases hst
  · intro es s e t _ ih ht hes
    rw [callsOf_snoc] at hes ⊢
    have hprev := ih fun hsub ↦ hes (hsub.trans (List.sublist_append_left _ _))
    cases he : e.call with
    | none =>
      obtain ⟨hr, hreq⟩ := flags_step ht he
      rw [Option.toList_none, List.append_nil]
      exact ⟨fun h ↦ hprev.requested (hreq h), fun h ↦ hr.trans (hprev.running h)⟩
    | some c =>
      cases c with
      | stop =>
        have hstop : e = .stop := by cases e <;> first | rfl | cases he
        subst hstop
        cases step_cases ht with
        | stop hid =>
          exact ⟨fun _ ↦ List.mem_append_right _ (List.mem_singleton_self _), fun _ ↦ rfl⟩
        | worker hwk => cases hwk
      | start =>
        -- a start after a stop is what the hypothesis excludes
        have hfresh : Call.stop ∉ callsOf es ++ [.start] := by
          intro hmem
          rw [he] at hes
          rcases List.mem_append.mp hmem with hmem | hmem
          · exact hes ((List.singleton_sublist.mpr hmem).append (List.Sublist.refl _))
          · cases List.mem_singleton.mp hmem
        have hnone : ¬(s.queue.stopRequested = true ∨ s.caller = .stopping) :=
          fun hreq ↦ hfresh (List.mem_append_left _ (hprev.requested hreq))
        have hstart : e = .start := by cases e <;> first | rfl | cases he
        subst hstart
        refine ⟨?_, fun hmem ↦ absurd hmem hfresh⟩
        cases step_cases ht with
        | startAgain hid hr => exact fun hreq ↦ absurd hreq hnone
        | start hid hr => exact fun hreq ↦ absurd (hreq.imp id nofun) hnone
        | worker hwk => cases hwk

/-- A worker whose wait comes back with nothing is not running. -/
theorem not_running_of_drainedEmpty (hm : 1 ≤ cfg.maxBatchSize) {es : List (Event F)}
    (h : exec (step cfg) init es = some s) (hes : ¬[.stop, .start].Sublist (callsOf es))
    (hw : s.worker = .drainedEmpty) : s.running = false := by
  have hgood := stoppedForGood_exec h hes
  have hok := (inv_exec hm h).workerOk
  simp only [WorkerOk, hw] at hok
  exact hgood.running (hgood.requested (.inl hok.1))

/-! ### Where it does -/

/-- What a scheduler that nobody is using looks like after these calls. -/
structure Resting (calls : List Call) (s : Scheduler F) : Prop where
  caller : s.caller = .idle
  queue : s.queue.queue = []
  stopRequested : s.queue.stopRequested = decide (.stop ∈ calls)
  running : s.running = decide (.start ∈ calls ∧ .stop ∉ calls)
  worker : s.worker = if .start ∈ calls ∧ .stop ∉ calls then .waiting .entry else .absent

/-- A first start. -/
theorem exec_start (hc : s.caller = .idle) (hr : s.running = false) (hw : s.worker = .absent) :
    exec (step cfg) s [.start, .spawn] =
      some { s with running := true, worker := .waiting .entry } := by
  simp [exec, step, callerStep, hc, hr, hw]

/-- A stop with no worker to join. -/
theorem exec_stop_absent (hc : s.caller = .idle) (hw : s.worker = .absent) :
    exec (step cfg) s [.stop, .shutdown, .notifyAll, .join] =
      some { s with running := false, queue := s.queue.shutdown } := by
  simp [exec, step, callerStep, hc, hw, Worker.wake]

/-- A stop that an idle worker leaves on. -/
theorem exec_stop_waiting (hc : s.caller = .idle) (hw : s.worker = .waiting .entry)
    (hq : s.queue.queue = []) :
    exec (step cfg) s [.stop, .shutdown, .notifyAll, .poll, .checkRunning, .join] =
      some { s with running := false, queue := s.queue.shutdown, worker := .absent } := by
  simp [exec, step, callerStep, workerStep, hc, hw, Worker.wake, WaitPoint.wake,
    RequestQueue.waitAndDrain, RequestQueue.hasWork, RequestQueue.shutdown, hq, pollStep]

/-- A start after a stop: the wait comes back with nothing. -/
theorem exec_restart (hc : s.caller = .idle) (hr : s.running = false) (hw : s.worker = .absent)
    (hq : s.queue.queue = []) (hs : s.queue.stopRequested = true) :
    exec (step cfg) s [.start, .spawn, .poll] =
      some { s with running := true, worker := .drainedEmpty } := by
  simp [exec, step, callerStep, workerStep, hc, hr, hw, RequestQueue.waitAndDrain,
    RequestQueue.hasWork, hq, hs, pollStep]

/-- A batch that may hold no request: the wait comes back with nothing. -/
theorem exec_emptyBatch (hm : cfg.maxBatchSize = 0) :
    ∃ t, exec (step cfg) (init : Scheduler F) [.start, .spawn, .submit 0 [] 0, .poll] = some t ∧
      t.worker = .drainedEmpty ∧ t.running = true := by
  by_cases hwait : 0 < cfg.maxWait <;>
    simp [exec, init, step, callerStep, workerStep, submit, RequestQueue.push,
      RequestQueue.waitAndDrain, RequestQueue.hasWork, RequestQueue.batchReady,
      RequestQueue.drain_eq, hm, hwait, pollStep]

/-- Every sequence of calls without a start after a stop can come to rest. -/
theorem exists_resting (cfg : SchedulerConfig) (calls : List Call)
    (hcalls : ¬[.stop, .start].Sublist calls) :
    ∃ (es : List (Event F)) (s : Scheduler F),
      exec (step cfg) init es = some s ∧ callsOf es = calls ∧ Resting calls s := by
  induction calls using List.reverseRecOn with
  | nil => exact ⟨[], init, rfl, rfl, rfl, rfl, rfl, rfl, rfl⟩
  | append_singleton calls c ih =>
    obtain ⟨es, s, hrun, rfl, hrest⟩ :=
      ih fun hsub ↦ hcalls (hsub.trans (List.sublist_append_left _ _))
    obtain ⟨hcaller, hqueue, hstop, hrunning, hworker⟩ := hrest
    -- the run goes on with these events
    have extend (fs : List (Event F)) (t : Scheduler F) (ht : exec (step cfg) s fs = some t)
        (hfs : callsOf fs = [c]) (hresting : Resting (callsOf es ++ [c]) t) :
        ∃ (es' : List (Event F)) (s' : Scheduler F), exec (step cfg) init es' = some s' ∧
          callsOf es' = callsOf es ++ [c] ∧ Resting (callsOf es ++ [c]) s' := by
      refine ⟨es ++ fs, t, exec_append_eq_some.mpr ⟨s, hrun, ht⟩, ?_, hresting⟩
      rw [callsOf, List.filterMap_append, ← callsOf, ← callsOf, hfs]
    cases c with
    | start =>
      have hnone : Call.stop ∉ callsOf es := fun hmem ↦
        hcalls ((List.singleton_sublist.mpr hmem).append (List.Sublist.refl _))
      by_cases hstart : Call.start ∈ callsOf es
      · have hrunning' : s.running = true := by simpa [hstart, hnone] using hrunning
        refine extend [.start] s ?_ rfl ⟨hcaller, hqueue, ?_, ?_, ?_⟩
        · simp [exec, step, callerStep, hcaller, hrunning']
        · simpa using hstop
        · simpa [hstart, hnone] using hrunning
        · simpa [hstart, hnone] using hworker
      · have hrunning' : s.running = false := by simpa [hstart] using hrunning
        have hworker' : s.worker = .absent := by simpa [hstart] using hworker
        refine extend _ _ (exec_start hcaller hrunning' hworker') rfl ⟨hcaller, hqueue, ?_, ?_, ?_⟩
        · simpa using hstop
        · simp [hnone]
        · simp [hnone]
    | stop =>
      by_cases hserving : Call.start ∈ callsOf es ∧ Call.stop ∉ callsOf es
      · rw [if_pos hserving] at hworker
        refine extend _ _ (exec_stop_waiting hcaller hworker hqueue) rfl
          ⟨hcaller, hqueue, ?_, ?_, ?_⟩
        · simp [RequestQueue.shutdown]
        · simp
        · simp
      · rw [if_neg hserving] at hworker
        refine extend _ _ (exec_stop_absent hcaller hworker) rfl ⟨hcaller, hqueue, ?_, ?_, ?_⟩
        · simp [RequestQueue.shutdown]
        · simp
        · simpa using hworker

/-- A start after a stop leads to a worker that spins. -/
theorem exists_spinning (cfg : SchedulerConfig) (calls : List Call)
    (hcalls : [.stop, .start].Sublist calls) :
    ∃ (es : List (Event F)) (s : Scheduler F),
      exec (step cfg) init es = some s ∧ callsOf es <+: calls ∧ s.worker = .drainedEmpty ∧
        s.running = true := by
  induction calls using List.reverseRecOn with
  | nil => cases hcalls
  | append_singleton calls c ih =>
    by_cases hbefore : [.stop, .start].Sublist calls
    · obtain ⟨es, s, hrun, hes, hspin⟩ := ih hbefore
      exact ⟨es, s, hrun, hes.trans (List.prefix_append _ _), hspin⟩
    · -- the last call is the first start after a stop
      obtain ⟨rfl, hstop⟩ : c = .start ∧ Call.stop ∈ calls := by
        obtain ⟨l₁, l₂, hsplit, hl₁, hl₂⟩ := List.sublist_append_iff.mp hcalls
        rcases List.sublist_singleton.mp hl₂ with rfl | rfl
        · rw [List.append_nil] at hsplit
          exact absurd (hsplit ▸ hl₁) hbefore
        · have hsplit' : [Call.stop] ++ [Call.start] = l₁ ++ [c] := hsplit
          obtain ⟨rfl, hc⟩ := List.append_inj' hsplit' rfl
          exact ⟨(List.cons.inj hc).1.symm, List.singleton_sublist.mp hl₁⟩
      obtain ⟨es, s, hrun, rfl, hrest⟩ := exists_resting (F := F) cfg calls hbefore
      obtain ⟨hcaller, hqueue, hreq, hrunning, hworker⟩ := hrest
      have hrestart : exec (step cfg) s [.start, .spawn, .poll] = _ :=
        exec_restart hcaller (by simpa [hstop] using hrunning) (by simpa [hstop] using hworker)
          hqueue (by simpa [hstop] using hreq)
      refine ⟨es ++ [.start, .spawn, .poll], _, exec_append_eq_some.mpr ⟨s, hrun, hrestart⟩, ?_,
        rfl, rfl⟩
      simp [callsOf, Event.call]

/-- The worker never spins, whatever the producers and the clock do, exactly when it is never
started, or when batches may hold a request and no `start` comes after a `stop`. -/
theorem worker_never_spins_iff (cfg : SchedulerConfig) (calls : List Call) :
    (∀ (es : List (Event F)) (s : Scheduler F), exec (step cfg) init es = some s →
        es.filterMap Event.call <+: calls → s.worker = .drainedEmpty → s.running = false) ↔
      .start ∉ calls ∨ 1 ≤ cfg.maxBatchSize ∧ ¬[.stop, .start].Sublist calls := by
  constructor
  · intro hquiet
    by_contra hcond
    obtain ⟨hstart, hbad⟩ := not_or.mp hcond
    rw [not_not] at hstart
    by_cases hrestart : [.stop, .start].Sublist calls
    · obtain ⟨es, s, hrun, hes, hw, hr⟩ := exists_spinning (F := F) cfg calls hrestart
      rw [hquiet es s hrun hes hw] at hr
      cases hr
    · -- the batch size is zero and the first call is a start
      have hm : cfg.maxBatchSize = 0 := by
        by_contra hne
        exact hbad ⟨Nat.one_le_iff_ne_zero.mpr hne, hrestart⟩
      have hfirst : [Call.start] <+: calls := by
        cases calls with
        | nil => cases hstart
        | cons c calls =>
          cases c with
          | start => exact ⟨calls, rfl⟩
          | stop =>
            have hmem : Call.start ∈ calls := by simpa using hstart
            exact absurd ((List.singleton_sublist.mpr hmem).cons_cons _) hrestart
      obtain ⟨t, hrun, hw, hr⟩ := exec_emptyBatch (F := F) hm
      rw [hquiet _ t hrun hfirst hw] at hr
      cases hr
  · rintro (hnone | ⟨hm, hgood⟩) es s hrun hes hw
    · have habsent := (absent_exec hrun fun hmem ↦ hnone (hes.subset hmem)).1
      rw [habsent] at hw
      cases hw
    · exact not_running_of_drainedEmpty hm hrun (fun hsub ↦ hgood (hsub.trans hes.sublist)) hw

/-- After `start`, `stop`, `start` the worker finds nothing to wait for and is told to go on. -/
theorem restarted_worker_spins :
    ∃ t : Scheduler Nat,
      exec (step unitConfig) init
        [.start, .spawn, .stop, .shutdown, .notifyAll, .poll, .checkRunning, .join, .start, .spawn,
          .poll, .checkRunning, .poll] = some t ∧
      t.worker = .drainedEmpty ∧ t.running = true := by
  have hfacts : (exec (step unitConfig) (init : Scheduler Nat)
      [.start, .spawn, .stop, .shutdown, .notifyAll, .poll, .checkRunning, .join, .start, .spawn,
        .poll, .checkRunning, .poll]).map (fun t ↦ (t.worker, t.running)) =
      some (.drainedEmpty, true) := by
    decide +kernel
  obtain ⟨t, ht, heq⟩ := Option.map_eq_some_iff.mp hfacts
  obtain ⟨hworker, hrunning⟩ := Prod.mk.inj heq
  exact ⟨t, ht, hworker, hrunning⟩

end Scheduler
end InferenceServer.Batching
