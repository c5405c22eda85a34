import Mathlib.Data.List.Nodup
import InferenceServer.Batching.Invariant

/-!
# Every accepted request is answered once

Library `Batching`. One `start` and one later `stop`, `cpp/src/scheduler/scheduler.cpp:48–65`,
with submits before, during and after either. The order of the two flags matters here:
`running_` is cleared before `stop_requested_` is set, so the worker that sees an empty
queue after shutdown also sees that it has to leave.
-/

namespace InferenceServer.Batching

open InferenceServer.Base InferenceServer.Engine

variable {F : Type}

/-- A call to `start` or `stop`. -/
inductive Call where
  | start
  | stop
  deriving DecidableEq, Repr

/-- The call an event begins, if it begins one. -/
def Event.call : Event F → Option Call
  | .start => some .start
  | .stop => some .stop
  | _ => none

/-- The events of the thread that calls `start` and `stop`. -/
def Event.isCaller : Event F → Bool
  | .start => true
  | .spawn => true
  | .stop => true
  | .shutdown => true
  | .notifyAll => true
  | .join => true
  | _ => false

/-- The events that bring a scheduler whose shutdown has begun closer to its end: the rest
of `stop`, and every step of `run_loop`. -/
def Event.isProgress : Event F → Bool
  | .shutdown => true
  | .notifyAll => true
  | .join => true
  | .poll => true
  | .checkRunning => true
  | .filter => true
  | .account _ => true
  | .infer _ _ => true
  | .deliver => true
  | .fail => true
  | _ => false

/-- The run calls `start` at most once and `stop` at most once, later. -/
def OneLifetime (es : List (Event F)) : Prop := es.filterMap Event.call <+: [.start, .stop]

namespace Scheduler

variable {cfg : SchedulerConfig} {s t : Scheduler F} {e : Event F}

/-- Neither `start` nor `stop` has been called. -/
def Fresh (s : Scheduler F) : Prop :=
  s.running = false ∧ s.queue.stopRequested = false ∧ s.caller = .idle

/-- `start` has been called and `stop` has not. -/
def Serving (s : Scheduler F) : Prop :=
  s.running = true ∧ s.queue.stopRequested = false ∧
    (s.caller = .spawning ∨ s.caller = .idle ∧ s.worker ≠ .absent)

/-- `stop` has been called: before shutdown, after it, or joined. -/
def Stopping (s : Scheduler F) : Prop :=
  s.running = false ∧
    (s.caller = .stopping ∧ s.queue.stopRequested = false ∧ s.worker ≠ .absent ∨
      (s.caller = .notifying ∨ s.caller = .joining) ∧ s.queue.stopRequested = true ∧
        s.worker ≠ .absent ∨
      s.caller = .idle ∧ s.queue.stopRequested = true ∧ s.worker = .absent ∧
        s.queue.queue = [])

/-! ### What a step leaves alone -/

/-- The events of the other threads leave both flags and the caller alone, create and join
no thread, and after shutdown add nothing to the queue. -/
theorem step_frame (h : s.step cfg e = some t) (he : e.isCaller = false) :
    t.running = s.running ∧ t.caller = s.caller ∧
      t.queue.stopRequested = s.queue.stopRequested ∧
      (t.worker = .absent ↔ s.worker = .absent) ∧
      (s.queue.stopRequested = true → t.queue.queue.length ≤ s.queue.queue.length) := by
  cases step_cases h with
  | submitOpen requestId inputData arrivalTime hq => simp [hq]
  | submitStopped requestId inputData arrivalTime hq => simp
  | notifyOne hn => exact ⟨rfl, rfl, rfl, wake_absent _, fun _ ↦ Nat.le_refl _⟩
  | wake p hw hp => exact ⟨rfl, rfl, rfl, by simp [hw], fun _ ↦ Nat.le_refl _⟩
  | expire hw => exact ⟨rfl, rfl, rfl, by simp [hw], fun _ ↦ Nat.le_refl _⟩
  | resetStats => exact ⟨rfl, rfl, rfl, Iff.rfl, fun _ ↦ Nat.le_refl _⟩
  | worker hw =>
    obtain ⟨⟨hr, hc, hq, hl⟩, hs', ht'⟩ := workerStep_frame hw
    exact ⟨hr, hc, hq, ⟨fun h ↦ absurd h ht', fun h ↦ absurd h hs'⟩, fun _ ↦ hl⟩
  | _ => simp [Event.isCaller] at he

/-- Shutdown is never taken back. -/
private theorem stopRequested_step (h : s.queue.stopRequested = true)
    (ht : s.step cfg e = some t) : t.queue.stopRequested = true := by
  cases step_cases ht with
  | submitOpen requestId inputData arrivalTime hq => exact h
  | shutdown hc => rfl
  | worker hw =>
    rw [(workerStep_frame hw).1.2.2.1]
    exact h
  | _ => exact h

/-! ### The phases of one lifetime -/

private theorem fresh_step (h : Fresh s) (ht : s.step cfg e = some t) (he : e.call = none) :
    Fresh t := by
  obtain ⟨hr, hq, hc⟩ := h
  by_cases hcall : e.isCaller = false
  · obtain ⟨hr', hc', hq', -, -⟩ := step_frame ht hcall
    exact ⟨hr'.trans hr, hq'.trans hq, hc'.trans hc⟩
  · cases e <;> simp_all [Event.isCaller, Event.call, step, callerStep]

private theorem fresh_start (h : Fresh s) (ht : s.step cfg .start = some t) : Serving t := by
  obtain ⟨hr, hq, hc⟩ := h
  simp only [step, callerStep, hc, hr, Bool.false_eq_true, ↓reduceIte, Option.some.injEq] at ht
  subst ht
  exact ⟨rfl, hq, .inl rfl⟩

private theorem serving_step (hi : s.Inv cfg) (h : Serving s) (ht : s.step cfg e = some t)
    (he : e.call = none) : Serving t := by
  obtain ⟨hr, hq, hc⟩ := h
  by_cases hcall : e.isCaller = false
  · obtain ⟨hr', hc', hq', hw', -⟩ := step_frame ht hcall
    refine ⟨hr'.trans hr, hq'.trans hq, ?_⟩
    rw [hc', ne_eq, hw']
    exact hc
  · rcases hc with hsp | ⟨hid, -⟩
    · have hab := hi.spawnable (.inl hsp)
      cases e <;> simp_all [Event.isCaller, Event.call, step, callerStep]
      subst ht
      simp [Serving, hq]
    · cases e <;> simp_all [Event.isCaller, Event.call, step, callerStep]

private theorem serving_stop (h : Serving s) (ht : s.step cfg .stop = some t) : Stopping t := by
  obtain ⟨hr, hq, hc⟩ := h
  simp only [step, callerStep, Option.ite_none_right_eq_some, Option.some.injEq] at ht
  obtain ⟨hid, rfl⟩ := ht
  refine ⟨rfl, .inl ⟨rfl, hq, ?_⟩⟩
  rcases hc with hsp | hw
  · rw [hsp] at hid
    cases hid
  · exact hw.2

private theorem stopping_step (hi : s.Inv cfg) (h : Stopping s) (ht : s.step cfg e = some t)
    (he : e.call = none) : Stopping t := by
  obtain ⟨hr, hc⟩ := h
  by_cases hcall : e.isCaller = false
  · obtain ⟨hr', hc', hq', hw', hl'⟩ := step_frame ht hcall
    refine ⟨hr'.trans hr, ?_⟩
    rw [hc', hq', ne_eq, hw']
    rcases hc with hc | hc | ⟨hid, hs, hw, he'⟩
    · exact .inl hc
    · exact .inr (.inl hc)
    · refine .inr (.inr ⟨hid, hs, hw, ?_⟩)
      have hle := hl' hs
      rw [he'] at hle
      exact List.eq_nil_of_length_eq_zero (by simpa using hle)
  · cases step_cases ht with
    | spawn hsp hw => simp [hsp] at hc
    | spawnOver hsp hw => simp [hsp] at hc
    | shutdown hst =>
      simp only [hst, reduceCtorEq, true_and, or_self, false_and, or_false] at hc
      exact ⟨hr, .inr (.inl ⟨.inl rfl, rfl, hc.2⟩)⟩
    | notifyAll hno =>
      simp only [hno, reduceCtorEq, true_and, false_and, or_false, false_or] at hc
      refine ⟨hr, .inr (.inl ⟨.inr rfl, hc.1, ?_⟩)⟩
      rw [ne_eq, wake_absent]
      exact hc.2
    | join hjo hw =>
      simp only [hjo, reduceCtorEq, or_true, true_and, false_and, or_false, false_or] at hc
      -- a worker that left saw the flag and an empty queue
      have hex : s.worker = .exited := hw.resolve_left hc.2
      have hok := hi.workerOk
      simp only [WorkerOk, hex] at hok
      exact ⟨hr, .inr (.inr ⟨rfl, hok.1, rfl, hok.2⟩)⟩
    | worker hw => cases hw <;> simp [Event.isCaller] at hcall
    | _ => simp_all [Event.isCaller, Event.call]

/-- The calls made so far decide the phase. -/
theorem phase_exec (hm : 1 ≤ cfg.maxBatchSize) {es : List (Event F)}
    (h : exec (step cfg) init es = some s) :
    (es.filterMap Event.call = [] → Fresh s) ∧
      (es.filterMap Event.call = [.start] → Serving s) ∧
      (es.filterMap Event.call = [.start, .stop] → Stopping s) := by
  refine exec_induction
    (P := fun es s ↦ (es.filterMap Event.call = [] → Fresh s) ∧
      (es.filterMap Event.call = [.start] → Serving s) ∧
      (es.filterMap Event.call = [.start, .stop] → Stopping s)) ?_ ?_ h
  · exact ⟨fun _ ↦ ⟨rfl, rfl, rfl⟩, by simp, by simp⟩
  · intro es s e t hs ⟨hf, hv, hp⟩ ht
    have hi := inv_exec hm hs
    rw [List.filterMap_append]
    cases he : e.call with
    | none =>
      simp only [List.filterMap_cons, he, List.filterMap_nil, List.append_nil]
      exact ⟨fun h ↦ fresh_step (hf h) ht he, fun h ↦ serving_step hi (hv h) ht he,
        fun h ↦ stopping_step hi (hp h) ht he⟩
    | some c =>
      simp only [List.filterMap_cons, he, List.filterMap_nil]
      refine ⟨by simp, ?_, ?_⟩
      · intro h
        have hnil : es.filterMap Event.call = [] ∧ c = .start := by
          simpa using List.append_eq_singleton_iff.mp h
        cases e <;> simp [Event.call] at he
        · exact fresh_start (hf hnil.1) ht
        · rw [← he] at hnil
          cases hnil.2
      · intro h
        have hone : es.filterMap Event.call = [.start] ∧ c = .stop :=
          ⟨by simpa using congrArg List.dropLast h, by simpa using congrArg List.getLast? h⟩
        cases e <;> simp [Event.call] at he
        · rw [← he] at hone
          cases hone.2
        · exact serving_stop (hv hone.1) ht

end Scheduler

/-! ### The end of a lifetime -/

/-- Steps the worker may still take before it is back in the wait or gone. -/
def Worker.work : Worker F → Nat
  | .absent => 0
  | .waiting p => if p.isParked then 3 else 2
  | .drainedEmpty => 1
  | .filtering _ todo batch => 3 * todo.length + 2 * batch.length + 7
  | .batched _ batch => 2 * batch.length + 6
  | .executing _ batch _ => 2 * batch.length + 5
  | .delivering _ batch _ i => (batch.length - i) + batch.length + 4
  | .failing _ _ todo _ => todo.length + 3
  | .exited => 0
  | .terminated => 0

/-- Steps `stop` may still take. -/
def Caller.work : Caller → Nat
  | .idle => 0
  | .spawning => 0
  | .stopping => 3
  | .notifying => 2
  | .joining => 1

namespace Scheduler

variable {cfg : SchedulerConfig} {s t : Scheduler F} {e : Event F}

/-- A bound on the steps left once shutdown has begun; a queued request costs at most nine. -/
def work (s : Scheduler F) : Nat := 9 * s.queue.queue.length + s.worker.work + s.caller.work

theorem filterStep_work (cfg : SchedulerConfig) (s : Scheduler F)
    (d todo batch : List (InferenceRequest F)) :
    (s.filterStep cfg d todo batch).worker.work + 1 ≤ (Worker.filtering d todo batch).work := by
  unfold filterStep
  split
  · dsimp only
    split
    · simp only [Worker.work, WaitPoint.isParked]
      simp
    · simp only [Worker.work]
      omega
  · split
    · simp only [Worker.work, List.length_append, List.length_cons, List.length_nil]
      omega
    · split
      · simp only [Worker.work, List.length_cons]
        omega
      · simp only [Worker.work, List.length_cons]
        omega

theorem deliverStep_work (cfg : SchedulerConfig) (s : Scheduler F)
    (d batch : List (InferenceRequest F)) (out : FloatVec F) (i : Nat) :
    (s.deliverStep cfg d batch out i).worker.work + 1 ≤
      (Worker.delivering d batch out i).work := by
  unfold deliverStep
  split
  · simp only [Worker.work, WaitPoint.isParked]
    simp
  · next req hreq =>
    have hlt : i < batch.length := (List.getElem?_eq_some_iff.mp hreq).1
    split
    · simp only [Worker.work]
      omega
    · simp only [Worker.work]
      omega

theorem failStep_work (s : Scheduler F) (d batch todo : List (InferenceRequest F))
    (e : CppException) :
    (s.failStep d batch todo e).worker.work + 1 ≤ (Worker.failing d batch todo e).work := by
  unfold failStep
  split
  · simp only [Worker.work, WaitPoint.isParked]
    simp
  · split
    · simp only [Worker.work]
      omega
    · simp only [Worker.work, List.length_cons]
      omega

theorem afterAnswer_work (cfg : SchedulerConfig)
    (d batch : List (InferenceRequest F)) (input : List F)
    (answer : InferenceAnswer F) :
    (Worker.afterAnswer cfg d batch answer).work + 1 ≤
      (Worker.executing d batch input).work := by
  unfold Worker.afterAnswer
  split
  · simp only [Worker.work]
    omega
  · split
    · simp only [Worker.work]
      omega
    · simp only [Worker.work]
      omega

private theorem wake_work (w : Worker F) : w.wake.work ≤ w.work := by
  cases w with
  | waiting p => cases p <;> simp [Worker.wake, Worker.work, WaitPoint.wake, WaitPoint.isParked]
  | _ => exact Nat.le_refl _

/-- After shutdown a locked section never blocks: it reports the end or takes a batch. -/
private theorem pollStep_work (hm : 1 ≤ cfg.maxBatchSize) (hi : s.Inv cfg)
    (hs : s.queue.stopRequested = true) {p : WaitPoint} (hw : s.worker = .waiting p)
    {o : WaitOutcome (InferenceRequest F)} {q : RequestQueue (InferenceRequest F)}
    (hq : s.queue.waitAndDrain cfg.maxBatchSize cfg.maxWait p = some (o, q)) :
    9 * q.queue.length + (s.pollStep o q).worker.work + 1 ≤
      9 * s.queue.queue.length + (Worker.waiting p : Worker F).work := by
  have hge : 2 ≤ (Worker.waiting p : Worker F).work := by
    simp only [Worker.work]
    split <;> omega
  generalize (Worker.waiting p : Worker F).work = budget at hge ⊢
  have hok := hi.workerOk
  simp only [WorkerOk, hw] at hok
  rcases RequestQueue.waitAndDrain_cases hq with ⟨-, -, -, hf, -⟩ | ⟨-, -, hf, -, -⟩ |
    ⟨rfl, -, he, -, rfl⟩ | ⟨rfl, hne, rfl⟩
  · rw [hs] at hf
    cases hf
  · rw [hs] at hf
    cases hf
  · simp only [pollStep, Worker.work]
    omega
  · have hqne : s.queue.queue ≠ [] := by
      by_cases hent : p = .entry
      · exact hne hent
      · exact hok (RequestQueue.inWindow_of_waitAndDrain hq hent)
    have hpos : 0 < s.queue.queue.length := List.length_pos_iff.mpr hqne
    have hlen : (s.queue.queue.take cfg.maxBatchSize).length =
        min cfg.maxBatchSize s.queue.queue.length := List.length_take
    cases hb : s.queue.queue.take cfg.maxBatchSize with
    | nil =>
      rw [hb, List.length_nil] at hlen
      omega
    | cons req rest =>
      rw [hb] at hlen
      simp only [pollStep, Worker.work, List.length_drop, List.length_nil]
      omega

private theorem workerStep_work (hm : 1 ≤ cfg.maxBatchSize) (hi : s.Inv cfg)
    (hr : s.running = false) (hs : s.queue.stopRequested = true) (ht : WorkerStep cfg s e t) :
    t.work + 1 ≤ s.work := by
  cases ht with
  | poll p o q hw hq =>
    have hpoll := pollStep_work hm hi hs hw hq
    obtain ⟨⟨-, hc, hqe⟩, -⟩ := pollStep_frame s o q
    simp only [work, hc, hqe, hw]
    omega
  | checkRunning hw =>
    simp only [work, hw, hr, Worker.work, Bool.false_eq_true, ↓reduceIte]
    omega
  | filter d todo batch hw =>
    have hstep := filterStep_work cfg s d todo batch
    obtain ⟨⟨-, hc, hq⟩, -⟩ := filterStep_frame cfg s d todo batch
    simp only [work, hc, hq, hw]
    omega
  | account d batch dequeuedAt hw =>
    simp only [work, hw, Worker.work]
    omega
  | infer d batch input answer execUs hw =>
    have hstep := afterAnswer_work cfg d batch input answer
    simp only [work, hw]
    omega
  | deliver d batch out i hw =>
    have hstep := deliverStep_work cfg s d batch out i
    obtain ⟨⟨-, hc, hq⟩, -⟩ := deliverStep_frame cfg s d batch out i
    simp only [work, hc, hq, hw]
    omega
  | fail d batch todo eptr hw =>
    have hstep := failStep_work s d batch todo eptr
    obtain ⟨⟨-, hc, hq⟩, -⟩ := failStep_frame s d batch todo eptr
    simp only [work, hc, hq, hw]
    omega

/-- Once `stop` has set the flag, every event keeps the measure and each progress event
lowers it. -/
private theorem work_step (hm : 1 ≤ cfg.maxBatchSize) (hi : s.Inv cfg) (hp : Stopping s)
    (hs : s.queue.stopRequested = true) (ht : s.step cfg e = some t) (he : e.call = none) :
    t.work + (if e.isProgress then 1 else 0) ≤ s.work := by
  obtain ⟨hr, hc⟩ := hp
  have hwake := wake_work s.worker
  cases step_cases ht with
  | submitOpen requestId inputData arrivalTime hq => simp [hs] at hq
  | submitStopped requestId inputData arrivalTime hq => simp [work, Event.isProgress]
  | notifyOne hn =>
    simp only [work, Event.isProgress, Bool.false_eq_true, ↓reduceIte]
    omega
  | wake p hw hp =>
    rw [hw] at hwake
    simp only [Worker.wake] at hwake
    simp only [work, hw, Event.isProgress, Bool.false_eq_true, ↓reduceIte]
    omega
  | expire hw => simp [work, hw, Worker.work, WaitPoint.isParked, Event.isProgress]
  | resetStats => simp [work, Event.isProgress]
  | startAgain hid hrun => simp [Event.call] at he
  | start hid hrun => simp [Event.call] at he
  | stop hid => simp [Event.call] at he
  | spawn hsp hw => simp [hsp] at hc
  | spawnOver hsp hw => simp [hsp] at hc
  | shutdown hst => simp [work, hst, Caller.work, Event.isProgress, RequestQueue.shutdown]
  | notifyAll hno =>
    simp only [work, hno, Caller.work, Event.isProgress, ↓reduceIte]
    omega
  | join hjo hw =>
    rcases hw with hw | hw <;> simp [work, hjo, hw, Caller.work, Worker.work, Event.isProgress]
  | worker hw =>
    have hstep := workerStep_work hm hi hr hs hw
    split <;> omega

/-- A parked worker is only left behind by shutdown until `notify_all`. -/
def Woken (s : Scheduler F) : Prop :=
  s.queue.stopRequested = true → ∀ p, s.worker = .waiting p → p.isParked = true →
    s.caller = .notifying

private theorem wake_not_parked {w : Worker F} {p : WaitPoint} (h : w.wake = .waiting p) :
    p.isParked = false := by
  cases w with
  | waiting q =>
    simp only [Worker.wake, Worker.waiting.injEq] at h
    subst h
    cases q <;> rfl
  | _ => simp [Worker.wake] at h

private theorem filterStep_entry {d todo batch : List (InferenceRequest F)} {p : WaitPoint}
    (h : (s.filterStep cfg d todo batch).worker = .waiting p) : p = .entry := by
  unfold filterStep at h
  split at h
  · dsimp only at h
    split at h
    · exact (Worker.waiting.inj h).symm
    · cases h
  · split at h
    · cases h
    · split at h <;> cases h

private theorem deliverStep_entry {d batch : List (InferenceRequest F)} {out : FloatVec F}
    {i : Nat} {p : WaitPoint}
    (h : (s.deliverStep cfg d batch out i).worker = .waiting p) : p = .entry := by
  unfold deliverStep at h
  split at h
  · exact (Worker.waiting.inj h).symm
  · split at h <;> cases h

private theorem failStep_entry {d batch todo : List (InferenceRequest F)} {e : CppException}
    {p : WaitPoint} (h : (s.failStep d batch todo e).worker = .waiting p) : p = .entry := by
  unfold failStep at h
  split at h
  · exact (Worker.waiting.inj h).symm
  · split at h <;> cases h

/-- The worker blocks only while shutdown has not been requested. -/
private theorem workerStep_parks (ht : WorkerStep cfg s e t) {p : WaitPoint}
    (hw : t.worker = .waiting p) (hp : p.isParked = true) : t.queue.stopRequested = false := by
  cases ht with
  | poll p' o q hwk hq =>
    rw [(pollStep_frame s o q).1.2.2, (waitAndDrain_shrinks hq).1]
    rcases RequestQueue.waitAndDrain_cases hq with ⟨-, -, -, hf, -⟩ | ⟨-, -, hf, -, -⟩ |
      ⟨rfl, -, -, -, -⟩ | ⟨rfl, -, -⟩
    · exact hf
    · exact hf
    · cases hw
    · cases hb : s.queue.queue.take cfg.maxBatchSize <;> rw [hb] at hw <;> cases hw
  | checkRunning hwk =>
    dsimp only at hw
    split at hw
    · rw [← Worker.waiting.inj hw] at hp
      cases hp
    · cases hw
  | filter d todo batch hwk =>
    rw [filterStep_entry hw] at hp
    cases hp
  | account d batch dequeuedAt hwk => cases hw
  | infer d batch input answer execUs hwk =>
    dsimp only [Worker.afterAnswer] at hw
    split at hw
    · cases hw
    · split at hw <;> cases hw
  | deliver d batch out i hwk =>
    rw [deliverStep_entry hw] at hp
    cases hp
  | fail d batch todo eptr hwk =>
    rw [failStep_entry hw] at hp
    cases hp

private theorem woken_step (h : Woken s) (ht : s.step cfg e = some t) : Woken t := by
  intro hs p hw hp
  -- a parked worker that was there before was left by shutdown, so `stop` has not moved on
  have hold (hws : s.worker = .waiting p) (hqs : s.queue.stopRequested = true) :=
    h hqs p hws hp
  cases step_cases ht with
  | submitOpen requestId inputData arrivalTime hq => simp [hq] at hs
  | submitStopped requestId inputData arrivalTime hq => exact hold hw hq
  | notifyOne hn =>
    rw [wake_not_parked hw] at hp
    cases hp
  | wake q hwk hpk =>
    rw [← Worker.waiting.inj hw] at hp
    cases q <;> cases hp
  | expire hwk =>
    rw [← Worker.waiting.inj hw] at hp
    cases hp
  | resetStats => exact hold hw hs
  | startAgain hid hr => exact hold hw hs
  | start hid hr =>
    have hno := hold hw hs
    rw [hid] at hno
    cases hno
  | spawn hsp hwk =>
    rw [← Worker.waiting.inj hw] at hp
    cases hp
  | spawnOver hsp hwk => cases hw
  | stop hid =>
    have hno := hold hw hs
    rw [hid] at hno
    cases hno
  | shutdown hst => rfl
  | notifyAll hno =>
    rw [wake_not_parked hw] at hp
    cases hp
  | join hjo hwk => cases hw
  | worker hstep =>
    rw [workerStep_parks hstep hw hp] at hs
    cases hs

private theorem woken_exec {es : List (Event F)} (h : exec (step cfg) init es = some s) :
    Woken s :=
  exec_preserves (fun _ _ _ hs ht ↦ woken_step hs ht) h (by simp [Woken, init])

/-- Before `stop` has returned some thread can always move on with the shutdown. -/
private theorem progress_enabled (hi : s.Inv cfg) (hp : Stopping s) (hw : Woken s)
    (hc : s.caller ≠ .idle) :
    ∃ e : Event F, e.isProgress = true ∧ (s.step cfg e).isSome = true := by
  obtain ⟨-, hphase⟩ := hp
  have hok := hi.workerOk
  rcases hphase with ⟨hst, -, -⟩ | ⟨hn | hj, hs, hwne⟩ | ⟨hid, -⟩
  · exact ⟨.shutdown, rfl, by simp [step, callerStep, hst]⟩
  · exact ⟨.notifyAll, rfl, by simp [step, callerStep, hn]⟩
  · cases hwk : s.worker with
    | absent => exact absurd hwk hwne
    | waiting p =>
      have hpark : p.isParked = false := by
        rw [← Bool.not_eq_true]
        intro hpk
        have := hw hs p hwk hpk
        rw [hj] at this
        cases this
      obtain ⟨r, hr⟩ :=
        RequestQueue.waitAndDrain_isSome s.queue cfg.maxBatchSize cfg.maxWait hpark
      exact ⟨.poll, rfl, by simp [step, workerStep, hwk, hr]⟩
    | drainedEmpty => exact ⟨.checkRunning, rfl, by simp [step, workerStep, hwk]⟩
    | filtering d todo batch => exact ⟨.filter, rfl, by simp [step, workerStep, hwk]⟩
    | batched d batch => exact ⟨.account 0, rfl, by simp [step, workerStep, hwk]⟩
    | executing d batch input =>
      exact ⟨.infer (.error outputSizeError) 0, rfl, by simp [step, workerStep, hwk]⟩
    | delivering d batch out i => exact ⟨.deliver, rfl, by simp [step, workerStep, hwk]⟩
    | failing d batch todo e => exact ⟨.fail, rfl, by simp [step, workerStep, hwk]⟩
    | exited => exact ⟨.join, rfl, by simp [step, callerStep, hj, hwk]⟩
    | terminated => simp [WorkerOk, hwk] at hok
  · exact absurd hid hc

/-! ### Exactly once -/

/-- How often the promise has been resolved. -/
def resolutions (s : Scheduler F) (promise : Nat) : Nat := (s.resolved.map Prod.fst).count promise

/-- The promises of the requests that wait in the queue or in the worker's hands. -/
def pending (s : Scheduler F) : List Nat :=
  (s.worker.holding ++ s.queue.queue).map (·.resultPromise)

/-- A promise is resolved or pending as often as it was accepted. -/
theorem Inv.count_promise (h : s.Inv cfg) (promise : Nat) :
    s.resolutions promise + s.pending.count promise =
      (s.accepted.map (·.resultPromise)).count promise := by
  have hperm := (h.custody.append_right (s.queue.queue.map (·.resultPromise))).count_eq promise
  rw [← List.map_append, h.fifo] at hperm
  rw [← hperm, resolutions, pending]
  simp only [List.map_append, List.count_append]
  omega

/-- No two submitted requests share a promise. -/
theorem Inv.promise_inj (h : s.Inv cfg) {r r' : InferenceRequest F × Except CppException Unit}
    (hr : r ∈ s.submits) (hr' : r' ∈ s.submits)
    (he : r.1.resultPromise = r'.1.resultPromise) : r = r' := by
  have hn : (s.submits.map fun r ↦ r.1.resultPromise).Nodup := by
    rw [h.numbered]
    exact List.nodup_range
  exact List.inj_on_of_nodup_map hn hr hr' he

/-- An accepted request was submitted and got its future. -/
theorem mem_accepted {req : InferenceRequest F} :
    req ∈ s.accepted ↔ (req, .ok ()) ∈ s.submits := by
  simp only [accepted, List.mem_map, List.mem_filter, Prod.exists]
  constructor
  · rintro ⟨req', o, ⟨hmem, hok⟩, rfl⟩
    cases o with
    | ok u => exact hmem
    | error e => simp [Except.isOk, Except.toBool] at hok
  · intro hmem
    exact ⟨req, .ok (), ⟨hmem, rfl⟩, rfl⟩

private theorem count_accepted (h : s.Inv cfg) {req : InferenceRequest F}
    (hr : (req, .ok ()) ∈ s.submits) :
    (s.accepted.map (·.resultPromise)).count req.resultPromise = 1 :=
  List.count_eq_one_of_mem h.tracked.accepted_nodup (List.mem_map_of_mem (mem_accepted.mpr hr))

private theorem count_refused (h : s.Inv cfg) {req : InferenceRequest F} {e : CppException}
    (hr : (req, .error e) ∈ s.submits) :
    (s.accepted.map (·.resultPromise)).count req.resultPromise = 0 := by
  rw [List.count_eq_zero, List.mem_map]
  rintro ⟨req', hreq', hp⟩
  have hsame := h.promise_inj (mem_accepted.mp hreq') hr hp
  simp at hsame

/-- A refused request's promise is in no batch the worker drained. -/
private theorem refused_not_drained (h : s.Inv cfg) {req : InferenceRequest F}
    {e : CppException} (hr : (req, .error e) ∈ s.submits) {d : List (InferenceRequest F)}
    (hd : d ∈ s.drains) {req' : InferenceRequest F} (hreq' : req' ∈ d) :
    req'.resultPromise ≠ req.resultPromise := by
  intro hp
  have hmem : req' ∈ s.accepted := by
    rw [← h.fifo]
    exact List.mem_append_left _ (List.mem_flatten_of_mem hd hreq')
  have hsame := h.promise_inj (mem_accepted.mp hmem) hr hp
  simp at hsame

/-- When `stop` has returned nothing is left to resolve. -/
private theorem stopped_pending (hp : Stopping s) (hc : s.caller = .idle) :
    s.queue.queue = [] ∧ s.pending = [] := by
  obtain ⟨-, hphase⟩ := hp
  simp only [hc, reduceCtorEq, false_and, or_self, true_and, false_or] at hphase
  obtain ⟨-, hw, hq⟩ := hphase
  exact ⟨hq, by simp [pending, hw, hq, Worker.holding]⟩

private theorem progress_bound (hm : 1 ≤ cfg.maxBatchSize) (hi : s.Inv cfg) (hp : Stopping s)
    (hs : s.queue.stopRequested = true) {fs : List (Event F)}
    (hrun : exec (step cfg) s fs = some t) (hcall : ∀ e ∈ fs, e.call = none) :
    fs.countP Event.isProgress ≤ s.work := by
  have hle := exec_countP_le
    (I := fun s ↦ s.Inv cfg ∧ Stopping s ∧ s.queue.stopRequested = true)
    (Q := fun e : Event F ↦ e.call = none) (μ := work) (p := Event.isProgress)
    (fun s e t he h ht ↦ ⟨inv_step hm h.1 ht, stopping_step h.1 h.2.1 ht he,
      stopRequested_step h.2.2 ht⟩)
    (fun s e t he h ht ↦ work_step hm h.1 h.2.1 h.2.2 ht he) hrun hcall ⟨hi, hp, hs⟩
  omega

/-- Once both calls have been made, a continuation makes none. -/
private theorem calls_over {es fs : List (Event F)}
    (hes : es.filterMap Event.call = [.start, .stop]) (hlife : OneLifetime (es ++ fs)) :
    ∀ e ∈ fs, e.call = none := by
  rw [OneLifetime, List.filterMap_append, hes] at hlife
  have hnil : fs.filterMap Event.call = [] := by
    have hlen := hlife.length_le
    simp only [List.length_append, List.length_cons, List.length_nil] at hlen
    exact List.eq_nil_of_length_eq_zero (by omega)
  exact List.filterMap_eq_nil_iff.mp hnil

/-- No accepted request is lost or answered twice. A submit throws and its request reaches
neither the queue nor the engine, or it is accepted and its promise is pending or resolved,
never both and never twice; the worker never dies of an exception. After one `start` and
one `stop`: when `stop` has returned, the queue is empty and every accepted promise is
resolved; and `stop` does return, since before that some thread can always take a step of
the shutdown and after the flag is set only boundedly many are left, whatever the
producers do. -/
theorem answered_exactly_once (hm : 1 ≤ cfg.maxBatchSize) {es : List (Event F)}
    (hrun : exec (step cfg) init es = some s) :
    (∀ req r, (req, r) ∈ s.submits →
      (r = .error stoppedError ∧ s.resolutions req.resultPromise = 0 ∧
        req.resultPromise ∉ s.pending ∧
        ∀ c ∈ s.calls, ∀ req' ∈ c.drained, req'.resultPromise ≠ req.resultPromise) ∨
      (r = .ok () ∧ s.resolutions req.resultPromise + s.pending.count req.resultPromise = 1)) ∧
    s.worker ≠ .terminated ∧
    (es.filterMap Event.call = [.start, .stop] →
      (s.caller = .idle → s.queue.queue = [] ∧
        ∀ req, (req, .ok ()) ∈ s.submits → s.resolutions req.resultPromise = 1) ∧
      (s.caller ≠ .idle → ∃ e, e.isProgress = true ∧ (s.step cfg e).isSome = true) ∧
      (s.queue.stopRequested = true → ∀ fs t, exec (step cfg) s fs = some t →
        OneLifetime (es ++ fs) → fs.countP Event.isProgress ≤ s.work)) := by
  have hi := inv_exec hm hrun
  refine ⟨?_, ?_, ?_⟩
  · intro req r hr
    have hcount := hi.count_promise req.resultPromise
    rcases hi.answered _ hr with hok | herr
    · cases hok
      rw [count_accepted hi hr] at hcount
      exact .inr ⟨rfl, hcount⟩
    · cases herr
      rw [count_refused hi hr] at hcount
      refine .inl ⟨rfl, by omega, List.count_eq_zero.mp (by omega), ?_⟩
      intro c hc req' hreq'
      exact refused_not_drained hi hr (hi.called c hc).drained hreq'
  · intro hw
    have hok := hi.workerOk
    simp only [WorkerOk, hw] at hok
  · intro hes
    have hp := (phase_exec hm hrun).2.2 hes
    refine ⟨?_, ?_, ?_⟩
    · intro hc
      obtain ⟨hq, hpend⟩ := stopped_pending hp hc
      refine ⟨hq, ?_⟩
      intro req hr
      have hcount := hi.count_promise req.resultPromise
      rw [count_accepted hi hr, hpend, List.count_nil] at hcount
      exact hcount
    · intro hc
      exact progress_enabled hi hp (woken_exec hrun) hc
    · intro hs fs t hfs hlife'
      exact progress_bound hm hi hp hs hfs (calls_over hes hlife')

/-- Batches of one request of one element, answered by one element. -/
def unitConfig : SchedulerConfig := { maxWait := 0, inputElems := 1, outputElems := 1 }

/-- One request is accepted before `start` and another refused after `stop` has begun. -/
def unitLifetime : List (Event Nat) :=
  [.submit 7 [3] 0, .start, .spawn, .stop, .poll, .filter, .filter, .shutdown,
    .submit 8 [4] 0, .account 0, .infer (.ok ⟨[5], by decide⟩) 0, .deliver, .notifyAll,
    .deliver, .poll, .checkRunning, .join]

/-- Where it ends. -/
def unitEnd : Scheduler Nat :=
  (exec (step unitConfig) init unitLifetime).get (by decide +kernel)

theorem answered_exactly_once_unitLifetime :
    exec (step unitConfig) init unitLifetime = some unitEnd ∧ unitEnd.queue.queue = [] ∧
      unitEnd.resolutions 0 = 1 ∧ unitEnd.resolutions 1 = 0 := by
  have hrun : exec (step unitConfig) init unitLifetime = some unitEnd := (Option.some_get _).symm
  obtain ⟨hsub, -, hstop⟩ := answered_exactly_once (by decide) hrun
  obtain ⟨hq, hone⟩ := (hstop (by decide)).1 (by decide +kernel)
  refine ⟨hrun, hq, hone ⟨7, [3], 0, 0⟩ (by decide +kernel), ?_⟩
  rcases hsub ⟨8, [4], 0, 1⟩ (.error stoppedError) (by decide +kernel) with h | h
  · exact h.2.1
  · cases h.1

end Scheduler
end InferenceServer.Batching
