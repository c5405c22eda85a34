import InferenceServer.Batching.Delivery

/-!
# No request waits for ever

Library `Batching`. `cpp/src/scheduler/request_queue.cpp:16–92` and
`cpp/src/scheduler/scheduler.cpp:135–226` while producers keep pushing. A request that was pushed
has its `notify_one` due as long as the worker sleeps on it; the batching window ends by its
timeout; and the queue is first in, first out, so later requests never delay an earlier one.
-/

namespace InferenceServer.Batching

open InferenceServer.Base InferenceServer.Engine

variable {F : Type}

/-- The events by which the worker gets on: the window's timeout and the stages of a batch. A test
of a predicate that only goes back to sleep is none of them. -/
def Event.advances : Event F → Bool
  | .expire => true
  | .filter => true
  | .account _ => true
  | .infer _ _ => true
  | .deliver => true
  | .fail => true
  | _ => false

def Event.isSubmit : Event F → Bool
  | .submit _ _ _ => true
  | _ => false

/-- The events that lead there: the notification that is due and the worker's look at the queue. -/
def Event.rouses : Event F → Bool
  | .notifyOne => true
  | .poll => true
  | _ => false

/-- Advancing events ahead of the worker before it is back at the head of its loop, the timeout of
the next window included. -/
def Worker.stage : Worker F → Nat
  | .absent => 2
  | .drainedEmpty => 2
  | .exited => 2
  | .waiting .windowExpired => 1
  | .waiting _ => 2
  | w => w.work

/-- The worker has a batch in its hands or is about to look for one. -/
def Worker.isBusy : Worker F → Bool
  | .absent => false
  | .drainedEmpty => false
  | .exited => false
  | .waiting p => !p.isParked
  | _ => true

theorem Worker.stage_le_work {w : Worker F} (h : w.isBusy = true) : w.stage ≤ w.work := by
  cases w with
  | absent => cases h
  | drainedEmpty => cases h
  | exited => cases h
  | waiting p => cases p <;> simp [stage, work, WaitPoint.isParked]
  | _ => exact Nat.le_refl _

theorem Worker.stage_wake (w : Worker F) : w.wake.stage = w.stage := by
  cases w with
  | waiting p => cases p <;> rfl
  | _ => rfl

namespace Scheduler

variable {cfg : SchedulerConfig} {s t : Scheduler F} {e : Event F}

/-! ### What stays -/

/-- What was submitted and what was resolved stays so. -/
structure Grows (s t : Scheduler F) : Prop where
  submits : ∀ x ∈ s.submits, x ∈ t.submits
  resolved : ∀ x ∈ s.resolved, x ∈ t.resolved

theorem Grows.refl (s : Scheduler F) : Grows s s := ⟨fun _ h ↦ h, fun _ h ↦ h⟩

theorem Grows.frame (hs : t.submits = s.submits) (hr : t.resolved = s.resolved) : Grows s t :=
  ⟨fun _ h ↦ hs ▸ h, fun _ h ↦ hr ▸ h⟩

theorem Grows.resolve (hs : t.submits = s.submits) {x : Nat × Outcome F}
    (hr : t.resolved = s.resolved ++ [x]) : Grows s t :=
  ⟨fun _ h ↦ hs ▸ h, fun _ h ↦ hr ▸ List.mem_append_left _ h⟩

private theorem grows_worker (h : WorkerStep cfg s e t) : Grows s t := by
  cases h with
  | poll p o q =>
    unfold pollStep
    split <;> exact .frame rfl rfl
  | filter d todo batch =>
    unfold filterStep
    split
    · exact .frame rfl rfl
    · split
      · exact .frame rfl rfl
      · split
        · exact .frame rfl rfl
        · exact .resolve rfl rfl
  | deliver d batch out i =>
    unfold deliverStep
    split
    · exact .frame rfl rfl
    · split
      · exact .frame rfl rfl
      · exact .resolve rfl rfl
  | fail d batch todo eptr =>
    unfold failStep
    split
    · exact .frame rfl rfl
    · split
      · exact .frame rfl rfl
      · exact .resolve rfl rfl
  | _ => exact .frame rfl rfl

theorem grows_step (h : s.step cfg e = some t) : Grows s t := by
  cases step_cases h with
  | submitOpen => exact ⟨fun _ h ↦ List.mem_append_left _ h, fun _ h ↦ h⟩
  | submitStopped => exact ⟨fun _ h ↦ List.mem_append_left _ h, fun _ h ↦ h⟩
  | worker hw => exact grows_worker hw
  | _ => exact .frame rfl rfl

/-- Only `shutdown` closes the queue, and nothing opens it. -/
theorem stopRequested_of_step (h : s.step cfg e = some t) (he : e ≠ .shutdown) :
    t.queue.stopRequested = s.queue.stopRequested := by
  cases step_cases h with
  | shutdown => exact absurd rfl he
  | worker hw => exact (workerStep_frame hw).1.2.2.1
  | _ => rfl

/-! ### Wake-ups -/

/-- No wake-up is lost: a worker that sleeps on a queue with requests has a notification due. -/
def Notified (s : Scheduler F) : Prop :=
  s.worker = .waiting .parked → s.queue.queue ≠ [] → 0 < s.notifies

/-- A worker that does not sleep in `cv_.wait` needs no notification. -/
theorem notified_of_ne (h : s.worker ≠ .waiting .parked) : s.Notified :=
  fun hw ↦ absurd hw h

private theorem wake_ne_parked (w : Worker F) : w.wake ≠ .waiting .parked := by
  cases w with
  | waiting p => cases p <;> simp [Worker.wake, WaitPoint.wake]
  | _ => simp [Worker.wake]

/-- After a stage of a batch the worker goes on. -/
theorem isBusy_of_advance (h : WorkerStep cfg s e t) (he : e.advances = true) :
    t.worker.isBusy = true := by
  cases h with
  | poll => cases he
  | checkRunning => cases he
  | filter d todo batch =>
    unfold filterStep
    split
    · dsimp only
      split <;> rfl
    · split
      · rfl
      · split <;> rfl
  | account => rfl
  | infer d batch input answer execUs =>
    dsimp only [Worker.afterAnswer]
    split
    · rfl
    · split <;> rfl
  | deliver d batch out i =>
    unfold deliverStep
    split
    · rfl
    · split <;> rfl
  | fail d batch todo eptr =>
    unfold failStep
    split
    · rfl
    · split <;> rfl

/-- The worker goes to sleep in `cv_.wait` only on an empty queue. -/
private theorem notified_worker (h : WorkerStep cfg s e t) : t.Notified := by
  have busy (he : e.advances = true) : t.Notified := by
    refine notified_of_ne fun hw ↦ ?_
    have hbusy := isBusy_of_advance h he
    rw [hw] at hbusy
    cases hbusy
  cases h with
  | poll p o q hw hq =>
    rcases RequestQueue.waitAndDrain_cases hq with ⟨rfl, -, he, -, rfl⟩ | ⟨rfl, -, -, -, -⟩ |
      ⟨rfl, -, -, -, -⟩ | ⟨rfl, -, -⟩
    · exact fun _ hne ↦ absurd he hne
    · exact notified_of_ne (by simp [pollStep])
    · exact notified_of_ne (by simp [pollStep])
    · refine notified_of_ne ?_
      unfold pollStep
      split <;> simp_all
  | checkRunning hw =>
    refine notified_of_ne ?_
    dsimp only
    split <;> simp
  | _ => exact busy rfl

theorem Notified.step (h : s.Notified) (ht : s.step cfg e = some t) : t.Notified := by
  cases step_cases ht with
  | submitOpen => exact fun _ _ ↦ Nat.succ_pos _
  | submitStopped => exact h
  | notifyOne => exact notified_of_ne (wake_ne_parked _)
  | wake p hw hp => exact notified_of_ne (by cases p <;> simp [WaitPoint.wake])
  | expire => exact notified_of_ne (by simp)
  | resetStats => exact h
  | startAgain => exact h
  | start => exact h
  | spawn => exact notified_of_ne (by simp)
  | spawnOver => exact notified_of_ne (by simp)
  | stop => exact h
  | shutdown => exact h
  | notifyAll => exact notified_of_ne (wake_ne_parked _)
  | join => exact notified_of_ne (by simp)
  | worker hw => exact notified_worker hw

/-! ### The stages of a batch -/

/-- A stage of a batch leaves the queue alone and brings the worker nearer to its end. -/
theorem stage_of_advance (h : WorkerStep cfg s e t) (he : e.advances = true) :
    t.queue = s.queue ∧ t.worker.stage + 1 ≤ s.worker.stage := by
  have hle := Worker.stage_le_work (isBusy_of_advance h he)
  cases h with
  | poll => cases he
  | checkRunning => cases he
  | filter d todo batch hw =>
    have hwork := filterStep_work cfg s d todo batch
    rw [hw]
    exact ⟨(filterStep_frame cfg s d todo batch).1.2.2, (Nat.add_le_add_right hle 1).trans hwork⟩
  | account d batch dequeuedAt hw =>
    rw [hw]
    exact ⟨rfl, Nat.le_refl _⟩
  | infer d batch input answer execUs hw =>
    have hwork := afterAnswer_work cfg d batch input answer
    rw [hw]
    exact ⟨rfl, (Nat.add_le_add_right hle 1).trans hwork⟩
  | deliver d batch out i hw =>
    have hwork := deliverStep_work cfg s d batch out i
    rw [hw]
    exact ⟨(deliverStep_frame cfg s d batch out i).1.2.2, (Nat.add_le_add_right hle 1).trans hwork⟩
  | fail d batch todo eptr hw =>
    have hwork := failStep_work s d batch todo eptr
    rw [hw]
    exact ⟨(failStep_frame s d batch todo eptr).1.2.2, (Nat.add_le_add_right hle 1).trans hwork⟩

/-- A look at the queue that takes nothing leaves the worker as far as it was. -/
theorem stage_of_blocked {p p' : WaitPoint} {q : RequestQueue (InferenceRequest F)}
    (hw : s.worker = .waiting p)
    (hq : s.queue.waitAndDrain cfg.maxBatchSize cfg.maxWait p = some (.blocked p', q)) :
    (Worker.waiting p' : Worker F).stage ≤ s.worker.stage := by
  have hfrom : s.worker.stage = 2 := by
    rw [hw]
    cases p with
    | windowExpired => simp [RequestQueue.waitAndDrain, RequestQueue.drain] at hq
    | _ => rfl
  rw [hfrom]
  cases p' <;> simp [Worker.stage]

/-! ### All that is to do -/

/-- A bound on the advancing events before the worker has nothing to do. -/
def load (s : Scheduler F) : Nat := 9 * s.queue.queue.length + s.worker.stage

private theorem load_poll (hm : 1 ≤ cfg.maxBatchSize) (hi : s.Inv cfg) {p : WaitPoint}
    (hw : s.worker = .waiting p) {o : WaitOutcome (InferenceRequest F)}
    {q : RequestQueue (InferenceRequest F)}
    (hq : s.queue.waitAndDrain cfg.maxBatchSize cfg.maxWait p = some (o, q)) :
    (s.pollStep o q).load ≤ s.load := by
  have hpos : 1 ≤ s.worker.stage := by
    rw [hw]
    cases p <;> simp [Worker.stage]
  rcases RequestQueue.waitAndDrain_cases hq with ⟨rfl, -, -, -, rfl⟩ | ⟨rfl, -, -, -, rfl⟩ |
    ⟨rfl, rfl, -, -, rfl⟩ | ⟨rfl, hne, rfl⟩
  · exact Nat.add_le_add_left (stage_of_blocked hw hq) _
  · exact Nat.add_le_add_left (stage_of_blocked hw hq) _
  · rw [load, load, hw]
    exact Nat.le_refl _
  · -- a batch costs less than its requests in the queue did
    have hok := hi.workerOk
    simp only [WorkerOk, hw] at hok
    have hqne : s.queue.queue ≠ [] := by
      by_cases hent : p = .entry
      · exact hne hent
      · exact hok (RequestQueue.inWindow_of_waitAndDrain hq hent)
    cases hb : s.queue.queue.take cfg.maxBatchSize with
    | nil =>
      rcases List.take_eq_nil_iff.mp hb with hzero | hnil
      · omega
      · exact absurd hnil hqne
    | cons req rest =>
      have hlen := congrArg List.length hb
      rw [List.length_take, List.length_cons] at hlen
      have hstage : (Worker.filtering (req :: rest) (req :: rest) []).stage =
          3 * (rest.length + 1) + 7 := rfl
      change 9 * (s.queue.queue.drop cfg.maxBatchSize).length +
        (Worker.filtering (req :: rest) (req :: rest) []).stage ≤
          9 * s.queue.queue.length + s.worker.stage
      rw [hstage, List.length_drop]
      omega

/-- A submit adds nine to what is to do, an advancing event takes one off, and no other event adds
anything. -/
theorem load_step (hm : 1 ≤ cfg.maxBatchSize) (hi : s.Inv cfg) (ht : s.step cfg e = some t) :
    t.load + (if e.advances then 1 else 0) ≤ s.load + (if e.isSubmit then 9 else 0) := by
  have same (hw : t.worker.stage = s.worker.stage) (hq : t.queue.queue = s.queue.queue) :
      t.load ≤ s.load := by
    rw [load, load, hw, hq]
  cases step_cases ht with
  | @submitOpen requestId inputData arrivalTime hq =>
    change 9 * (s.queue.queue ++ [_]).length + s.worker.stage + 0 ≤
      9 * s.queue.queue.length + s.worker.stage + 9
    rw [List.length_append, List.length_singleton]
    omega
  | submitStopped => exact Nat.le_add_right _ _
  | notifyOne => exact same (Worker.stage_wake _) rfl
  | wake p hw hpk =>
    refine same ?_ rfl
    rw [hw]
    exact Worker.stage_wake (.waiting p)
  | expire hw =>
    rw [load, load, hw]
    exact Nat.le_refl _
  | resetStats => exact same rfl rfl
  | startAgain => exact same rfl rfl
  | start => exact same rfl rfl
  | spawn hc hw =>
    refine same ?_ rfl
    rw [hw]
    rfl
  | spawnOver hc hw => exact absurd (hi.spawnable (.inl hc)) hw
  | stop => exact same rfl rfl
  | shutdown => exact same rfl rfl
  | notifyAll => exact same (Worker.stage_wake _) rfl
  | join hc hw =>
    refine same ?_ rfl
    rcases hw with hw | hw
    · rw [hw]
    · rw [hw]
      rfl
  | worker hw =>
    have hstep := hw
    cases hw with
    | poll p o q hwk hq => exact load_poll hm hi hwk hq
    | checkRunning hwk =>
      refine same ?_ rfl
      rw [hwk]
      cases s.running <;> rfl
    | _ =>
      obtain ⟨hqueue, hstage⟩ := stage_of_advance hstep rfl
      rw [load, load, hqueue]
      exact Nat.add_le_add_left hstage _

/-- Without a thread there is nothing to do, and nothing can be added. -/
def Manned (s : Scheduler F) : Prop :=
  s.worker = .absent → s.queue.stopRequested = true ∧ s.queue.queue = []

theorem Manned.step (h : s.Manned) (hi : s.Inv cfg) (ht : s.step cfg e = some t) : t.Manned := by
  have present (hw : t.worker ≠ .absent) : t.Manned := fun habsent ↦ absurd habsent hw
  cases step_cases ht with
  | submitOpen _ _ _ hq =>
    intro hw
    rw [(h hw).1] at hq
    cases hq
  | submitStopped => exact h
  | notifyOne =>
    intro hw
    exact h ((wake_absent _).mp hw)
  | wake => exact present (by simp)
  | expire => exact present (by simp)
  | resetStats => exact h
  | startAgain => exact h
  | start => exact h
  | spawn => exact present (by simp)
  | spawnOver => exact present (by simp)
  | stop => exact h
  | shutdown => exact fun hw ↦ ⟨rfl, (h hw).2⟩
  | notifyAll =>
    intro hw
    exact h ((wake_absent _).mp hw)
  | join hc hw =>
    intro _
    rcases hw with hw | hw
    · exact h hw
    · have hok := hi.workerOk
      simp only [WorkerOk, hw] at hok
      exact hok
  | worker hw => exact present (workerStep_frame hw).2.2

/-! ### The way of one request -/

/-- The promises of the queued requests, oldest first. -/
def queued (s : Scheduler F) : List Nat := s.queue.queue.map (·.resultPromise)

/-- A bound on the advancing events before the promise is resolved: those of the batch in hand, nine
for each request ahead in the queue, and those of the batch it will be in. -/
def distance (cfg : SchedulerConfig) (s : Scheduler F) (promise : Nat) : Nat :=
  s.worker.stage +
    if promise ∈ s.queued then 9 * s.queued.idxOf promise + 3 * cfg.maxBatchSize + 7 else 0

theorem pending_eq (s : Scheduler F) :
    s.pending = s.worker.holding.map (·.resultPromise) ++ s.queued := by
  rw [pending, List.map_append, queued]

theorem Inv.pending_nodup (h : s.Inv cfg) : s.pending.Nodup := by
  rw [List.nodup_iff_count_le_one]
  intro promise
  have hcount := h.count_promise promise
  have hacc := List.nodup_iff_count_le_one.mp h.tracked.accepted_nodup promise
  omega

theorem Inv.accepted_of_pending (h : s.Inv cfg) {promise : Nat} (hp : promise ∈ s.pending) :
    promise ∈ s.accepted.map (·.resultPromise) := by
  have hcount := h.count_promise promise
  have hpos := List.count_pos_iff.mpr hp
  rw [← List.count_pos_iff]
  omega

/-- A pending promise was given out. -/
theorem Inv.pending_lt (h : s.Inv cfg) {promise : Nat} (hp : promise ∈ s.pending) :
    promise < s.submits.length := by
  obtain ⟨req, hreq, rfl⟩ := List.mem_map.mp (h.accepted_of_pending hp)
  have hmem : req.resultPromise ∈ s.submits.map fun r ↦ r.1.resultPromise :=
    List.mem_map_of_mem (mem_accepted.mp hreq)
  rw [h.numbered] at hmem
  exact List.mem_range.mp hmem

/-- A worker that has left its loop leaves nothing behind. -/
theorem Inv.not_pending_of_exited (h : s.Inv cfg) (hw : s.worker = .exited) {promise : Nat} :
    promise ∉ s.pending := by
  have hok := h.workerOk
  simp only [WorkerOk, hw] at hok
  rw [pending_eq, hw, queued, hok.2]
  exact List.not_mem_nil

/-- An accepted promise is pending exactly until it is resolved. -/
theorem Inv.pending_or_resolved (h : s.Inv cfg) {promise : Nat}
    (hacc : promise ∈ s.accepted.map (·.resultPromise)) :
    promise ∉ s.pending ↔ promise ∈ s.resolved.map Prod.fst := by
  have hcount := h.count_promise promise
  rw [List.count_eq_one_of_mem h.tracked.accepted_nodup hacc] at hcount
  unfold resolutions at hcount
  rw [← List.count_eq_zero, ← List.count_pos_iff]
  omega

/-- A drain takes the promise, or brings it a whole batch nearer to the front. -/
private theorem distance_drain (hi : s.Inv cfg) {promise : Nat}
    (hq : promise ∈ s.queued) {req : InferenceRequest F} {rest : List (InferenceRequest F)}
    (hb : s.queue.queue.take cfg.maxBatchSize = req :: rest)
    (ht : t.worker = .filtering (req :: rest) (req :: rest) [])
    (hqueue : t.queue.queue = s.queue.queue.drop cfg.maxBatchSize) (hs : 1 ≤ s.worker.stage) :
    t.distance cfg promise ≤ s.distance cfg promise := by
  have hnodup : s.queued.Nodup := by
    have hpend := hi.pending_nodup
    rw [pending_eq] at hpend
    exact (List.nodup_append.mp hpend).2.1
  have hsplit : s.queued = s.queued.take cfg.maxBatchSize ++ t.queued := by
    rw [queued, queued, hqueue, List.map_drop, List.take_append_drop]
  have hlen : (req :: rest).length = (s.queued.take cfg.maxBatchSize).length := by
    rw [← hb, queued, ← List.map_take, List.length_map]
  have hle : (s.queued.take cfg.maxBatchSize).length ≤ cfg.maxBatchSize := by
    rw [List.length_take]
    exact Nat.min_le_left _ _
  have hstage : t.worker.stage = 3 * (s.queued.take cfg.maxBatchSize).length + 7 := by
    rw [ht, ← hlen]
    rfl
  rw [distance, distance, if_pos hq, hstage]
  by_cases htq : promise ∈ t.queued
  · -- the batch before it is full
    have hnot : promise ∉ s.queued.take cfg.maxBatchSize := by
      rw [hsplit] at hnodup
      exact fun hin ↦ (List.nodup_append.mp hnodup).2.2 promise hin promise htq rfl
    have hidx : s.queued.idxOf promise =
        (s.queued.take cfg.maxBatchSize).length + t.queued.idxOf promise := by
      conv_lhs => rw [hsplit]
      exact List.idxOf_append_of_notMem hnot
    have hpos : 1 ≤ (s.queued.take cfg.maxBatchSize).length := by
      rw [← hlen]
      exact Nat.succ_pos _
    rw [if_pos htq]
    omega
  · rw [if_neg htq]
    omega

/-- A test of the predicates leaves a pending promise no further away. -/
private theorem distance_poll (hm : 1 ≤ cfg.maxBatchSize) (hi : s.Inv cfg) {promise : Nat}
    (hp : promise ∈ s.pending) {p : WaitPoint} (hw : s.worker = .waiting p)
    {o : WaitOutcome (InferenceRequest F)} {q : RequestQueue (InferenceRequest F)}
    (hq : s.queue.waitAndDrain cfg.maxBatchSize cfg.maxWait p = some (o, q)) :
    (s.pollStep o q).distance cfg promise ≤ s.distance cfg promise := by
  have hqueued : promise ∈ s.queued := by
    rw [pending_eq, hw] at hp
    exact hp
  have hne : s.queue.queue ≠ [] := by
    intro hnil
    rw [queued, hnil] at hqueued
    exact absurd hqueued List.not_mem_nil
  rcases RequestQueue.waitAndDrain_cases hq with ⟨-, -, he, -, -⟩ | ⟨rfl, -, -, hroom, rfl⟩ |
    ⟨-, -, he, -, -⟩ | ⟨rfl, -, rfl⟩
  · exact absurd he hne
  · exact Nat.add_le_add_right (stage_of_blocked hw hq) _
  · exact absurd he hne
  · have hstage : 1 ≤ s.worker.stage := by
      rw [hw]
      cases p <;> simp [Worker.stage]
    cases hb : s.queue.queue.take cfg.maxBatchSize with
    | nil =>
      rcases List.take_eq_nil_iff.mp hb with hzero | hnil
      · omega
      · exact absurd hnil hne
    | cons req rest => exact distance_drain hi hqueued hb rfl rfl hstage

/-- An event of the worker that leaves the queue alone. -/
private theorem distance_lower (hq : t.queue = s.queue)
    (hw : t.worker.stage + 1 ≤ s.worker.stage) (promise : Nat) :
    t.distance cfg promise + 1 ≤ s.distance cfg promise := by
  rw [distance, distance, queued, queued, hq]
  omega

private theorem distance_worker (hm : 1 ≤ cfg.maxBatchSize) (hi : s.Inv cfg) {promise : Nat}
    (hp : promise ∈ s.pending) (ht : WorkerStep cfg s e t) :
    t.distance cfg promise + (if e.advances then 1 else 0) ≤ s.distance cfg promise := by
  have hok := hi.workerOk
  have hstep := ht
  cases ht with
  | poll p o q hw hq => exact distance_poll hm hi hp hw hq
  | checkRunning hw =>
    -- nothing is pending there
    simp only [WorkerOk, hw] at hok
    rw [pending_eq, hw, queued, hok.2] at hp
    exact absurd hp List.not_mem_nil
  | _ =>
    obtain ⟨hqueue, hstage⟩ := stage_of_advance hstep rfl
    exact distance_lower hqueue hstage _

/-- A later push goes behind the promise. -/
private theorem distance_push {promise : Nat} {req : InferenceRequest F}
    (hw : t.worker = s.worker) (hq : t.queue.queue = s.queue.queue ++ [req])
    (hne : req.resultPromise ≠ promise) : t.distance cfg promise = s.distance cfg promise := by
  have hqueued : t.queued = s.queued ++ [req.resultPromise] := by
    rw [queued, hq, List.map_append]
    rfl
  have hmem : promise ∈ t.queued ↔ promise ∈ s.queued := by
    rw [hqueued, List.mem_append, List.mem_singleton]
    exact or_iff_left hne.symm
  rw [distance, distance, hw]
  by_cases hin : promise ∈ s.queued
  · rw [if_pos hin, if_pos (hmem.mpr hin), hqueued, List.idxOf_append_of_mem hin]
  · rw [if_neg hin, if_neg (mt hmem.mp hin)]

/-- While the promise is pending no event takes it further away and every advancing one brings it
nearer. -/
theorem distance_step (hm : 1 ≤ cfg.maxBatchSize) (hi : s.Inv cfg) {promise : Nat}
    (hp : promise ∈ s.pending) (ht : s.step cfg e = some t) :
    t.distance cfg promise + (if e.advances then 1 else 0) ≤ s.distance cfg promise := by
  -- an event that changes neither the queue nor the stage
  have same (hw : t.worker.stage = s.worker.stage) (hq : t.queue.queue = s.queue.queue) :
      t.distance cfg promise ≤ s.distance cfg promise := by
    rw [distance, distance, queued, queued, hw, hq]
  cases step_cases ht with
  | submitOpen requestId inputData arrivalTime hq =>
    refine Nat.le_of_eq (distance_push rfl rfl ?_)
    exact Nat.ne_of_gt (hi.pending_lt hp)
  | submitStopped => exact same rfl rfl
  | notifyOne => exact same (Worker.stage_wake _) rfl
  | wake p hw hpk =>
    refine same ?_ rfl
    rw [hw]
    exact Worker.stage_wake (.waiting p)
  | expire hw =>
    have hlt : (Worker.waiting .windowExpired : Worker F).stage + 1 ≤ s.worker.stage := by
      rw [hw]
      exact Nat.le_refl 2
    rw [distance, distance]
    exact Nat.add_right_comm _ _ _ ▸ Nat.add_le_add_right hlt _
  | resetStats => exact same rfl rfl
  | startAgain => exact same rfl rfl
  | start => exact same rfl rfl
  | spawn hc hw =>
    refine same ?_ rfl
    rw [hw]
    rfl
  | spawnOver hc hw => exact absurd (hi.spawnable (.inl hc)) hw
  | stop => exact same rfl rfl
  | shutdown => exact same rfl rfl
  | notifyAll => exact same (Worker.stage_wake _) rfl
  | join hc hw =>
    rcases hw with hw | hw
    · refine same ?_ rfl
      rw [hw]
    · exact absurd hp (hi.not_pending_of_exited hw)
  | worker hw => exact distance_worker hm hi hp hw

/-! ### The next advance -/

/-- An advance is at most two events away, and these are up to the scheduler's own threads. -/
def CanAdvance (cfg : SchedulerConfig) (s : Scheduler F) : Prop :=
  ∃ gs u e v, gs.length ≤ 2 ∧ (∀ g ∈ gs, Event.rouses g = true) ∧
    exec (step cfg) s gs = some u ∧ e.advances = true ∧ u.step cfg e = some v

/-- An awake worker with a request in the queue opens the window or takes a batch. -/
private theorem advance_of_poll (hm : 1 ≤ cfg.maxBatchSize) (hne : s.queue.queue ≠ [])
    {p : WaitPoint} (hw : s.worker = .waiting p) (hp : p.isParked = false) :
    ∃ u e v, s.step cfg .poll = some u ∧ e.advances = true ∧ u.step cfg e = some v := by
  obtain ⟨⟨o, q⟩, hq⟩ :=
    RequestQueue.waitAndDrain_isSome s.queue cfg.maxBatchSize cfg.maxWait hp
  have hpoll : s.step cfg .poll = some (s.pollStep o q) := by
    simp only [step, workerStep, hw, hq, Option.map_some]
  refine ⟨s.pollStep o q, ?_⟩
  rcases RequestQueue.waitAndDrain_cases hq with ⟨-, -, he, -, -⟩ | ⟨rfl, -, -, -, rfl⟩ |
    ⟨-, -, he, -, -⟩ | ⟨rfl, -, rfl⟩
  · exact absurd he hne
  · exact ⟨.expire, _, hpoll, rfl, rfl⟩
  · exact absurd he hne
  · cases hb : s.queue.queue.take cfg.maxBatchSize with
    | nil =>
      rcases List.take_eq_nil_iff.mp hb with hzero | hnil
      · omega
      · exact absurd hnil hne
    | cons req rest =>
      rw [hb] at hpoll
      exact ⟨.filter, _, hpoll, rfl, rfl⟩

/-- While a promise is pending, the thread that runs the loop gets on. -/
theorem canAdvance_of_pending (hm : 1 ≤ cfg.maxBatchSize) (hi : s.Inv cfg) (hn : s.Notified)
    {promise : Nat} (hp : promise ∈ s.pending) (hthread : s.worker ≠ .absent) :
    s.CanAdvance cfg := by
  have hok := hi.workerOk
  have now {e : Event F} {v : Scheduler F} (he : e.advances = true) (hv : s.step cfg e = some v) :
      s.CanAdvance cfg :=
    ⟨[], s, e, v, Nat.zero_le _, fun _ h ↦ absurd h List.not_mem_nil, rfl, he, hv⟩
  -- with nothing in its hands, the worker has the promise in its queue
  have hqueue (hhold : s.worker.holding = []) : s.queue.queue ≠ [] := by
    intro hnil
    rw [pending_eq, hhold, queued, hnil] at hp
    exact absurd hp List.not_mem_nil
  cases hw : s.worker with
  | absent => exact absurd hw hthread
  | waiting p =>
    have hne := hqueue (by rw [hw]; rfl)
    cases p with
    | window => exact now (e := .expire) rfl (by simp only [step, hw]; rfl)
    | parked =>
      have hpos := hn hw hne
      have hnotify : s.step cfg .notifyOne =
          some { s with notifies := s.notifies - 1, worker := .waiting .entry } := by
        simp only [step, hpos, ↓reduceIte, hw]
        rfl
      obtain ⟨u, e, v, hpoll, he, hv⟩ :=
        advance_of_poll (s := { s with notifies := s.notifies - 1, worker := .waiting .entry })
          hm hne rfl rfl
      refine ⟨[.notifyOne, .poll], u, e, v, Nat.le_refl 2, ?_, ?_, he, hv⟩
      · intro g hg
        rcases List.mem_cons.mp hg with rfl | hg
        · rfl
        · rw [List.mem_singleton.mp hg]
          rfl
      · exact exec_cons_eq_some.mpr ⟨_, hnotify, exec_cons_eq_some.mpr ⟨u, hpoll, rfl⟩⟩
    | _ =>
      obtain ⟨u, e, v, hpoll, he, hv⟩ := advance_of_poll hm hne hw rfl
      refine ⟨[.poll], u, e, v, Nat.le_succ 1, ?_, ?_, he, hv⟩
      · intro g hg
        rw [List.mem_singleton.mp hg]
        rfl
      · exact exec_cons_eq_some.mpr ⟨u, hpoll, rfl⟩
  | drainedEmpty =>
    simp only [WorkerOk, hw] at hok
    exact absurd hok.2 (hqueue (by rw [hw]; rfl))
  | filtering d todo batch =>
    exact now (e := .filter) rfl (by simp only [step, workerStep, hw]; rfl)
  | batched d batch => exact now (e := .account 0) rfl (by simp only [step, workerStep, hw]; rfl)
  | executing d batch input =>
    exact now (e := .infer (.error outputSizeError) 0) rfl
      (by simp only [step, workerStep, hw]; rfl)
  | delivering d batch out i =>
    exact now (e := .deliver) rfl (by simp only [step, workerStep, hw]; rfl)
  | failing d batch todo eptr =>
    exact now (e := .fail) rfl (by simp only [step, workerStep, hw]; rfl)
  | exited => exact absurd hp (hi.not_pending_of_exited hw)
  | terminated => simp only [WorkerOk, hw] at hok

/-- What is pending after an event was pending before, if it had been accepted. -/
theorem pending_of_step (hm : 1 ≤ cfg.maxBatchSize) (hi : s.Inv cfg) {promise : Nat}
    (hacc : promise ∈ s.accepted.map (·.resultPromise)) (ht : s.step cfg e = some t)
    (hp : promise ∈ t.pending) : promise ∈ s.pending := by
  by_contra hnot
  rw [hi.pending_or_resolved hacc] at hnot
  obtain ⟨x, hx, rfl⟩ := List.mem_map.mp hnot
  have hi' := inv_step hm hi ht
  exact (hi'.pending_or_resolved (hi'.accepted_of_pending hp)).mpr
    (List.mem_map_of_mem ((grows_step ht).resolved x hx)) hp

/-- The thread is not joined while a promise is pending. -/
private theorem thread_stays (hi : s.Inv cfg) {promise : Nat} (hp : promise ∈ s.pending)
    (ht : s.step cfg e = some t) (hthread : s.worker ≠ .absent) : t.worker ≠ .absent := by
  cases step_cases ht with
  | notifyOne => exact mt (wake_absent _).mp hthread
  | notifyAll => exact mt (wake_absent _).mp hthread
  | wake => simp
  | expire => simp
  | spawn => simp
  | spawnOver => simp
  | join hc hw =>
    rcases hw with hw | hw
    · exact absurd hw hthread
    · exact absurd hp (hi.not_pending_of_exited hw)
  | worker hw => exact (workerStep_frame hw).2.2
  | _ => exact hthread

/-- What a run from `s` has kept when it reaches `u`: the promise is accounted for, no wake-up is
lost, and the thread stays as long as the promise is pending. -/
structure Waits (cfg : SchedulerConfig) (s : Scheduler F) (promise : Nat) (u : Scheduler F) :
    Prop where
  inv : u.Inv cfg
  notified : u.Notified
  accepted : promise ∈ u.accepted.map (·.resultPromise)
  thread : promise ∈ u.pending → s.worker ≠ .absent → u.worker ≠ .absent

theorem Waits.step {u v : Scheduler F} {promise : Nat} (hm : 1 ≤ cfg.maxBatchSize)
    (h : Waits cfg s promise u) (hv : u.step cfg e = some v) : Waits cfg s promise v where
  inv := inv_step hm h.inv hv
  notified := h.notified.step hv
  accepted := by
    obtain ⟨req, hreq, rfl⟩ := List.mem_map.mp h.accepted
    have hsub := (grows_step hv).submits _ (mem_accepted.mp hreq)
    exact List.mem_map_of_mem (mem_accepted.mpr hsub)
  thread hp hthread := by
    have hpu := pending_of_step hm h.inv h.accepted hv hp
    exact thread_stays h.inv hpu hv (h.thread hpu hthread)

/-- No request waits for ever. Whatever `start`, `stop`, `submit`, spurious wake-ups and clock
readings follow, a pending promise is resolved after at most `distance` advancing events, a number
that later requests do not raise; and until then, once the thread exists, the next advance is at
most two events of the scheduler's own away. -/
theorem no_starvation (hm : 1 ≤ cfg.maxBatchSize) {es : List (Event F)}
    (h : exec (step cfg) init es = some s) {promise : Nat} (hp : promise ∈ s.pending)
    {fs : List (Event F)} (hrun : exec (step cfg) s fs = some t) :
    promise ∈ t.resolved.map Prod.fst ∨
      fs.countP Event.advances ≤ s.distance cfg promise ∧
        (s.worker ≠ .absent → t.CanAdvance cfg) := by
  have hi : s.Inv cfg := inv_exec hm h
  have hn : s.Notified := exec_preserves (P := Notified) (fun _ _ _ hs ht ↦ hs.step ht) h
    (notified_of_ne (by simp [init]))
  have hstart : Waits cfg s promise s := ⟨hi, hn, hi.accepted_of_pending hp, fun _ ht ↦ ht⟩
  have hend : Waits cfg s promise t :=
    exec_preserves (P := Waits cfg s promise) (fun _ _ _ hu hv ↦ hu.step hm hv) hrun hstart
  by_cases hpt : promise ∈ t.pending
  · right
    constructor
    · have hle := exec_countP_le_until (I := Waits cfg s promise) (D := fun u ↦ promise ∉ u.pending)
        (μ := fun u ↦ u.distance cfg promise) (p := Event.advances)
        (fun u e v hu hv ↦ hu.step hm hv)
        (fun u e v hu hnot hv hpv ↦ hnot (pending_of_step hm hu.inv hu.accepted hv hpv))
        (fun u e v hu hpu hv ↦ distance_step hm hu.inv (not_not.mp hpu) hv) hrun hstart
        (not_not.mpr hpt)
      omega
    · intro hthread
      exact canAdvance_of_pending hm hend.inv hend.notified hpt (hend.thread hpt hthread)
  · exact .inl ((hend.inv.pending_or_resolved hend.accepted).mp hpt)

/-- Batches of two requests with a window. -/
def windowedPair : SchedulerConfig :=
  { maxBatchSize := 2, maxWait := 5, inputElems := 1, outputElems := 1 }

/-- The worker sleeps when the first of three requests arrives. -/
def threeArrivals : List (Event Nat) :=
  [.start, .spawn, .poll, .submit 7 [3] 0, .submit 8 [4] 0, .submit 9 [5] 0]

/-- The first batch is handed out; the third request is in the next window. -/
def firstPair : List (Event Nat) :=
  [.notifyOne, .poll, .filter, .filter, .filter, .account 0, .infer (.ok ⟨[1, 2], by decide⟩) 0,
    .deliver, .deliver, .deliver, .poll]

theorem no_starvation_firstPair :
    ∃ s t, exec (step windowedPair) init threeArrivals = some s ∧
      exec (step windowedPair) s firstPair = some t ∧ firstPair.countP Event.advances = 8 ∧
      8 ≤ s.distance windowedPair 2 ∧ t.CanAdvance windowedPair := by
  have hfacts : (exec (step windowedPair) init threeArrivals).bind (fun s ↦
      (exec (step windowedPair) s firstPair).map fun t ↦
        (s.pending, decide (s.worker = .absent), firstPair.countP Event.advances,
          t.resolved.map Prod.fst)) = some ([0, 1, 2], false, 8, [0, 1]) := by
    decide +kernel
  obtain ⟨s, hs, hfacts⟩ := Option.bind_eq_some_iff.mp hfacts
  obtain ⟨t, ht, hfacts⟩ := Option.map_eq_some_iff.mp hfacts
  simp only [Prod.mk.injEq, decide_eq_false_iff_not] at hfacts
  obtain ⟨hpending, hthread, hcount, hresolved⟩ := hfacts
  have hmem : 2 ∈ s.pending := by
    rw [hpending]
    decide
  rcases no_starvation (by decide) hs hmem ht with hres | ⟨hle, hcan⟩
  · rw [hresolved] at hres
    exact absurd hres (by decide)
  · exact ⟨s, t, hs, ht, hcount, hcount ▸ hle, hcan hthread⟩

end Scheduler
end InferenceServer.Batching
