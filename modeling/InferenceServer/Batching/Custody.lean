import InferenceServer.Batching.Scheduler

/-!
# Who holds a promise

Library `Batching`. What every event of the scheduler keeps under any configuration, also one
whose batches hold nothing: requests leave the queue in the order they were accepted, a
drained request is either in the worker's hands or resolved, and `start` finds no thread to
overwrite.
-/

namespace InferenceServer.Batching

open InferenceServer.Base InferenceServer.Engine

variable {F : Type}

/-- The requests in the worker's hands whose promises it has still to resolve. -/
def Worker.holding : Worker F → List (InferenceRequest F)
  | .filtering _ todo batch => batch ++ todo
  | .batched _ batch => batch
  | .executing _ batch _ => batch
  | .delivering _ batch _ i => batch.drop i
  | .failing _ _ todo _ => todo
  | _ => []

namespace Scheduler

variable {cfg : SchedulerConfig} {s t : Scheduler F} {e : Event F}

/-- The accepted requests in lock order. -/
def accepted (s : Scheduler F) : List (InferenceRequest F) :=
  (s.submits.filter fun r ↦ r.2.isOk).map Prod.fst

/-- A promise is satisfied exactly when it has a resolution. -/
theorem satisfied_iff (s : Scheduler F) (promise : Nat) :
    s.satisfied promise = true ↔ promise ∈ s.resolved.map Prod.fst := by
  simp [satisfied]

/-! ### What a step leaves alone -/

/-- The worker's promise steps touch only its own locals and the resolutions. -/
theorem filterStep_frame (cfg : SchedulerConfig) (s : Scheduler F)
    (d todo batch : List (InferenceRequest F)) :
    ((s.filterStep cfg d todo batch).running = s.running ∧
      (s.filterStep cfg d todo batch).caller = s.caller ∧
      (s.filterStep cfg d todo batch).queue = s.queue) ∧
      (s.filterStep cfg d todo batch).worker ≠ .absent := by
  unfold filterStep
  split
  · refine ⟨⟨rfl, rfl, rfl⟩, ?_⟩
    dsimp only
    split <;> simp
  · split
    · exact ⟨⟨rfl, rfl, rfl⟩, by simp⟩
    · split <;> exact ⟨⟨rfl, rfl, rfl⟩, by simp⟩

theorem deliverStep_frame (cfg : SchedulerConfig) (s : Scheduler F)
    (d batch : List (InferenceRequest F)) (out : FloatVec F) (i : Nat) :
    ((s.deliverStep cfg d batch out i).running = s.running ∧
      (s.deliverStep cfg d batch out i).caller = s.caller ∧
      (s.deliverStep cfg d batch out i).queue = s.queue) ∧
      (s.deliverStep cfg d batch out i).worker ≠ .absent := by
  unfold deliverStep
  split
  · exact ⟨⟨rfl, rfl, rfl⟩, by simp⟩
  · split <;> exact ⟨⟨rfl, rfl, rfl⟩, by simp⟩

theorem failStep_frame (s : Scheduler F) (d batch todo : List (InferenceRequest F))
    (e : CppException) :
    ((s.failStep d batch todo e).running = s.running ∧
      (s.failStep d batch todo e).caller = s.caller ∧
      (s.failStep d batch todo e).queue = s.queue) ∧
      (s.failStep d batch todo e).worker ≠ .absent := by
  unfold failStep
  split
  · exact ⟨⟨rfl, rfl, rfl⟩, by simp⟩
  · split <;> exact ⟨⟨rfl, rfl, rfl⟩, by simp⟩

theorem pollStep_frame (s : Scheduler F) (o : WaitOutcome (InferenceRequest F))
    (q : RequestQueue (InferenceRequest F)) :
    ((s.pollStep o q).running = s.running ∧ (s.pollStep o q).caller = s.caller ∧
      (s.pollStep o q).queue = q) ∧ (s.pollStep o q).worker ≠ .absent := by
  unfold pollStep
  split <;> exact ⟨⟨rfl, rfl, rfl⟩, by simp⟩

theorem waitAndDrain_shrinks {q q' : RequestQueue (InferenceRequest F)} {m : Nat}
    {timeout : Int} {p : WaitPoint} {o : WaitOutcome (InferenceRequest F)}
    (h : q.waitAndDrain m timeout p = some (o, q')) :
    q'.stopRequested = q.stopRequested ∧ q'.queue.length ≤ q.queue.length := by
  rcases RequestQueue.waitAndDrain_cases h with ⟨-, -, -, -, rfl⟩ | ⟨-, -, -, -, rfl⟩ |
    ⟨-, -, -, -, rfl⟩ | ⟨-, -, rfl⟩
  · exact ⟨rfl, Nat.le_refl _⟩
  · exact ⟨rfl, Nat.le_refl _⟩
  · exact ⟨rfl, Nat.le_refl _⟩
  · refine ⟨rfl, ?_⟩
    simp only [List.length_drop]
    omega

theorem workerStep_frame (h : WorkerStep cfg s e t) :
    (t.running = s.running ∧ t.caller = s.caller ∧
      t.queue.stopRequested = s.queue.stopRequested ∧
      t.queue.queue.length ≤ s.queue.queue.length) ∧
      s.worker ≠ .absent ∧ t.worker ≠ .absent := by
  cases h with
  | poll p o q hw hq =>
    obtain ⟨⟨hr, hc, hqe⟩, hab⟩ := pollStep_frame s o q
    have hsh := waitAndDrain_shrinks hq
    rw [hqe]
    exact ⟨⟨hr, hc, hsh.1, hsh.2⟩, by simp [hw], hab⟩
  | checkRunning hw =>
    refine ⟨⟨rfl, rfl, rfl, Nat.le_refl _⟩, by simp [hw], ?_⟩
    dsimp only
    split <;> simp
  | filter d todo batch hw =>
    obtain ⟨⟨hr, hc, hq⟩, hab⟩ := filterStep_frame cfg s d todo batch
    exact ⟨⟨hr, hc, by rw [hq], Nat.le_of_eq (by rw [hq])⟩, by simp [hw], hab⟩
  | account d batch dequeuedAt hw =>
    exact ⟨⟨rfl, rfl, rfl, Nat.le_refl _⟩, by simp [hw], by simp⟩
  | infer d batch input answer execUs hw =>
    refine ⟨⟨rfl, rfl, rfl, Nat.le_refl _⟩, by simp [hw], ?_⟩
    dsimp only [Worker.afterAnswer]
    split
    · simp
    · split <;> simp
  | deliver d batch out i hw =>
    obtain ⟨⟨hr, hc, hq⟩, hab⟩ := deliverStep_frame cfg s d batch out i
    exact ⟨⟨hr, hc, by rw [hq], Nat.le_of_eq (by rw [hq])⟩, by simp [hw], hab⟩
  | fail d batch todo eptr hw =>
    obtain ⟨⟨hr, hc, hq⟩, hab⟩ := failStep_frame s d batch todo eptr
    exact ⟨⟨hr, hc, by rw [hq], Nat.le_of_eq (by rw [hq])⟩, by simp [hw], hab⟩

theorem wake_absent (w : Worker F) : w.wake = .absent ↔ w = .absent := by
  cases w <;> simp [Worker.wake]

/-! ### Threads -/

/-- `start` finds no thread to overwrite. -/
structure Threads (s : Scheduler F) : Prop where
  spawnable : s.caller = .spawning ∨ s.caller = .idle ∧ s.running = false → s.worker = .absent
  spawning : s.caller = .spawning → s.running = true

/-- An event of a thread that is there leaves the caller where it is. -/
theorem Threads.keep (h : s.Threads) (hw : s.worker ≠ .absent) (hc : t.caller = s.caller)
    (hr : t.running = s.running) : t.Threads where
  spawnable hcase := by
    rw [hc, hr] at hcase
    exact absurd (h.spawnable hcase) hw
  spawning hsp := by
    rw [hc] at hsp
    rw [hr]
    exact h.spawning hsp

theorem threads_wake (h : s.Threads) (caller : Caller) (notifies : Nat)
    (hc : caller = .idle ∨ caller = .spawning → caller = s.caller) :
    Threads { s with worker := s.worker.wake, caller, notifies } where
  spawnable := by
    rintro (hsp | ⟨hid, hr⟩)
    · have hsp' : caller = .spawning := hsp
      rw [wake_absent]
      exact h.spawnable (.inl ((hc (.inr hsp')).symm.trans hsp'))
    · have hid' : caller = .idle := hid
      rw [wake_absent]
      exact h.spawnable (.inr ⟨(hc (.inl hid')).symm.trans hid', hr⟩)
  spawning hsp := by
    have hsp' : caller = .spawning := hsp
    exact h.spawning ((hc (.inr hsp')).symm.trans hsp')

/-- Every event. -/
theorem Threads.step (h : s.Threads) (ht : s.step cfg e = some t) : t.Threads := by
  cases step_cases ht with
  | submitOpen requestId inputData arrivalTime hq => exact ⟨h.spawnable, h.spawning⟩
  | submitStopped requestId inputData arrivalTime hq => exact ⟨h.spawnable, h.spawning⟩
  | notifyOne hn => exact threads_wake h s.caller _ fun _ ↦ rfl
  | wake p hw hp => exact h.keep (by rw [hw]; nofun) rfl rfl
  | expire hw => exact h.keep (by rw [hw]; nofun) rfl rfl
  | resetStats => exact ⟨h.spawnable, h.spawning⟩
  | startAgain hc hr => exact h
  | start hc hr => exact ⟨fun _ ↦ h.spawnable (.inr ⟨hc, hr⟩), fun _ ↦ rfl⟩
  | spawn hc hw =>
    refine ⟨?_, nofun⟩
    rintro (hsp | ⟨-, hr⟩)
    · cases hsp
    · rw [h.spawning hc] at hr
      cases hr
  | spawnOver hc hw => exact absurd (h.spawnable (.inl hc)) hw
  | stop hc => exact ⟨by rintro (hsp | ⟨hid, -⟩) <;> contradiction, nofun⟩
  | shutdown hc => exact ⟨by rintro (hsp | ⟨hid, -⟩) <;> contradiction, nofun⟩
  | notifyAll hc =>
    refine threads_wake h .joining s.notifies ?_
    rintro (hid | hsp) <;> contradiction
  | join hc hw => exact ⟨fun _ ↦ rfl, nofun⟩
  | worker hw =>
    obtain ⟨⟨hr, hc, -, -⟩, hs, -⟩ := workerStep_frame hw
    exact h.keep hs hc hr

/-! ### Custody -/

/-- Where the promises are. -/
structure Tracked (s : Scheduler F) : Prop extends Threads s where
  /-- the `i`th submitted request carries promise `i` -/
  numbered : s.submits.map (fun r ↦ r.1.resultPromise) = List.range s.submits.length
  /-- requests leave the queue in lock order -/
  fifo : s.drains.flatten ++ s.queue.queue = s.accepted
  /-- a drained request is resolved or in the worker's hands, never both, never neither -/
  custody : (s.resolved.map Prod.fst ++ s.worker.holding.map (·.resultPromise)).Perm
    (s.drains.flatten.map (·.resultPromise))
  alive : s.worker ≠ .terminated

/-- No two accepted requests share a promise. -/
theorem Tracked.accepted_nodup (h : s.Tracked) : (s.accepted.map (·.resultPromise)).Nodup := by
  have hsub : (s.accepted.map (·.resultPromise)).Sublist
      (s.submits.map fun r ↦ r.1.resultPromise) := by
    rw [accepted, List.map_map]
    exact (List.filter_sublist (l := s.submits)).map _
  rw [h.numbered] at hsub
  exact List.nodup_range.sublist hsub

/-- No two drained requests share a promise. -/
theorem Tracked.drained_nodup (h : s.Tracked) : (s.drains.flatten.map (·.resultPromise)).Nodup := by
  have hn := h.accepted_nodup
  rw [← h.fifo, List.map_append] at hn
  exact (List.nodup_append.mp hn).1

/-- Promises that are resolved or held occur once. -/
theorem Tracked.custody_nodup (h : s.Tracked) :
    (s.resolved.map Prod.fst ++ s.worker.holding.map (·.resultPromise)).Nodup :=
  h.custody.nodup_iff.mpr h.drained_nodup

/-- The worker never touches a promise that is already satisfied. -/
theorem Tracked.not_satisfied (h : s.Tracked) {req : InferenceRequest F}
    (hr : req ∈ s.worker.holding) : s.satisfied req.resultPromise = false := by
  rw [← Bool.not_eq_true, satisfied_iff]
  intro hm
  have hd := (List.nodup_append.mp h.custody_nodup).2.2
  exact hd _ hm _ (List.mem_map_of_mem hr) rfl

theorem tracked_init : (init : Scheduler F).Tracked where
  spawnable _ := rfl
  spawning := nofun
  numbered := rfl
  fifo := rfl
  custody := .refl _
  alive := nofun

/-- Only the worker's own locals move on. -/
theorem Tracked.move (h : s.Tracked) (hth : t.Threads) (hsub : t.submits = s.submits)
    (hd : t.drains = s.drains) (hq : t.queue.queue = s.queue.queue)
    (hres : t.resolved = s.resolved) (hhold : t.worker.holding = s.worker.holding)
    (halive : t.worker ≠ .terminated) : t.Tracked where
  toThreads := hth
  numbered := by
    rw [hsub]
    exact h.numbered
  fifo := by
    rw [accepted, hsub, hd, hq]
    exact h.fifo
  custody := by
    rw [hres, hhold, hd]
    exact h.custody
  alive := halive

/-- The worker resolves the promise of one request it holds. -/
theorem Tracked.resolve (h : s.Tracked) (hth : t.Threads) (hsub : t.submits = s.submits)
    (hd : t.drains = s.drains) (hq : t.queue = s.queue) {req : InferenceRequest F}
    {outcome : Outcome F} (hres : t.resolved = s.resolved ++ [(req.resultPromise, outcome)])
    (hhold : s.worker.holding.Perm (req :: t.worker.holding)) (halive : t.worker ≠ .terminated) :
    t.Tracked where
  toThreads := hth
  numbered := by
    rw [hsub]
    exact h.numbered
  fifo := by
    rw [accepted, hsub, hd, hq]
    exact h.fifo
  custody := by
    rw [hres, hd, List.map_append, List.append_assoc]
    exact ((hhold.map _).symm.append_left _).trans h.custody
  alive := halive

theorem accepted_snoc {req : InferenceRequest F} {r : Except CppException Unit}
    (hsub : t.submits = s.submits ++ [(req, r)]) :
    t.accepted = s.accepted ++ (if r.isOk then [req] else []) := by
  rw [accepted, accepted, hsub, List.filter_append, List.map_append]
  cases hr : r.isOk <;> simp [hr]

theorem tracked_submit (h : s.Tracked) {req : InferenceRequest F}
    (hreq : req.resultPromise = s.submits.length) {r : Except CppException Unit}
    (hth : t.Threads) (hsub : t.submits = s.submits ++ [(req, r)]) (hd : t.drains = s.drains)
    (hq : t.queue.queue = s.queue.queue ++ (if r.isOk then [req] else []))
    (hres : t.resolved = s.resolved) (hw : t.worker = s.worker) : t.Tracked where
  toThreads := hth
  numbered := by
    rw [hsub, List.map_append, h.numbered, List.length_append, List.length_singleton,
      List.range_succ, List.map_singleton, hreq]
  fifo := by
    rw [accepted_snoc hsub, hd, hq, ← List.append_assoc, h.fifo]
  custody := by
    rw [hres, hw, hd]
    exact h.custody
  alive := by
    rw [hw]
    exact h.alive

theorem tracked_poll (h : s.Tracked) {p : WaitPoint} (hp : s.worker = .waiting p)
    {o : WaitOutcome (InferenceRequest F)} {q : RequestQueue (InferenceRequest F)}
    (hth : (s.pollStep o q).Threads)
    (hq : s.queue.waitAndDrain cfg.maxBatchSize cfg.maxWait p = some (o, q)) :
    (s.pollStep o q).Tracked := by
  have hhold : s.worker.holding = [] := by
    rw [hp]
    rfl
  rcases RequestQueue.waitAndDrain_cases hq with ⟨rfl, -, -, -, rfl⟩ | ⟨rfl, -, -, -, rfl⟩ |
    ⟨rfl, -, -, -, rfl⟩ | ⟨rfl, -, rfl⟩
  · exact h.move hth rfl rfl rfl rfl hhold.symm nofun
  · exact h.move hth rfl rfl rfl rfl hhold.symm nofun
  · exact h.move hth rfl rfl rfl rfl hhold.symm nofun
  · have hsplit := List.take_append_drop cfg.maxBatchSize s.queue.queue
    cases hb : s.queue.queue.take cfg.maxBatchSize with
    | nil =>
      rw [hb, List.nil_append] at hsplit
      rw [hb] at hth
      exact h.move hth rfl rfl hsplit rfl hhold.symm nofun
    | cons req rest =>
      rw [hb] at hsplit hth
      refine ⟨hth, h.numbered, ?_, ?_, nofun⟩
      · change (s.drains ++ [req :: rest]).flatten ++ s.queue.queue.drop cfg.maxBatchSize =
          s.accepted
        rw [List.flatten_append, List.flatten_singleton, List.append_assoc, hsplit, h.fifo]
      · have hcust := h.custody
        rw [hhold, List.map_nil, List.append_nil] at hcust
        change (s.resolved.map Prod.fst ++ (req :: rest).map (·.resultPromise)).Perm
          ((s.drains ++ [req :: rest]).flatten.map (·.resultPromise))
        rw [List.flatten_append, List.flatten_singleton, List.map_append]
        exact hcust.append_right _

theorem tracked_filter (h : s.Tracked) {d todo batch : List (InferenceRequest F)}
    (hw : s.worker = .filtering d todo batch) (hth : (s.filterStep cfg d todo batch).Threads) :
    (s.filterStep cfg d todo batch).Tracked := by
  have hhold : s.worker.holding = batch ++ todo := by
    rw [hw]
    rfl
  cases todo with
  | nil =>
    refine h.move hth rfl rfl rfl rfl ?_ ?_
    · rw [hhold, List.append_nil]
      cases batch <;> rfl
    · cases batch <;> nofun
  | cons req rest =>
    have hfresh : s.satisfied req.resultPromise = false := by
      apply h.not_satisfied
      rw [hhold]
      exact List.mem_append_right _ List.mem_cons_self
    cases hsz : wellSized cfg req with
    | true =>
      simp only [filterStep, hsz, ↓reduceIte] at hth ⊢
      refine h.move hth rfl rfl rfl rfl ?_ nofun
      rw [hhold]
      exact List.append_assoc batch [req] rest
    | false =>
      simp only [filterStep, hsz, hfresh, Bool.false_eq_true, ↓reduceIte] at hth ⊢
      refine h.resolve hth rfl rfl rfl rfl ?_ nofun
      rw [hhold]
      exact List.perm_middle

/-- The next row is still in the worker's hands. -/
theorem drop_of_getElem? {batch : List (InferenceRequest F)} {i : Nat} {req : InferenceRequest F}
    (hi : batch[i]? = some req) : batch.drop i = req :: batch.drop (i + 1) := by
  obtain ⟨hlt, hget⟩ := List.getElem?_eq_some_iff.mp hi
  rw [← hget]
  exact List.drop_eq_getElem_cons hlt

theorem mem_holding_delivering {d batch : List (InferenceRequest F)} {out : FloatVec F} {i : Nat}
    {req : InferenceRequest F} (hi : batch[i]? = some req) :
    req ∈ (Worker.delivering d batch out i).holding := by
  rw [Worker.holding, drop_of_getElem? hi]
  exact List.mem_cons_self

theorem tracked_deliver (h : s.Tracked) {d batch : List (InferenceRequest F)} {out : FloatVec F}
    {i : Nat} (hw : s.worker = .delivering d batch out i)
    (hth : (s.deliverStep cfg d batch out i).Threads) :
    (s.deliverStep cfg d batch out i).Tracked := by
  have hhold : s.worker.holding = batch.drop i := by
    rw [hw]
    rfl
  cases hi : batch[i]? with
  | none =>
    simp only [deliverStep, hi] at hth ⊢
    refine h.move hth rfl rfl rfl rfl ?_ nofun
    rw [hhold, List.drop_of_length_le (List.getElem?_eq_none_iff.mp hi)]
    rfl
  | some req =>
    have hfresh : s.satisfied req.resultPromise = false := by
      apply h.not_satisfied
      rw [hw]
      exact mem_holding_delivering hi
    simp only [deliverStep, hi, hfresh, Bool.false_eq_true, ↓reduceIte] at hth ⊢
    refine h.resolve hth rfl rfl rfl rfl ?_ nofun
    rw [hhold, drop_of_getElem? hi]
    exact .refl _

theorem tracked_fail (h : s.Tracked) {d batch todo : List (InferenceRequest F)}
    {eptr : CppException}
    (hw : s.worker = .failing d batch todo eptr) (hth : (s.failStep d batch todo eptr).Threads) :
    (s.failStep d batch todo eptr).Tracked := by
  have hhold : s.worker.holding = todo := by
    rw [hw]
    rfl
  cases todo with
  | nil => exact h.move hth rfl rfl rfl rfl hhold.symm nofun
  | cons req rest =>
    have hfresh : s.satisfied req.resultPromise = false := by
      apply h.not_satisfied
      rw [hhold]
      exact List.mem_cons_self
    simp only [failStep, hfresh, Bool.false_eq_true, ↓reduceIte] at hth ⊢
    refine h.resolve hth rfl rfl rfl rfl ?_ nofun
    rw [hhold]
    exact .refl _

theorem tracked_worker (h : s.Tracked) (hth : t.Threads) (ht : WorkerStep cfg s e t) :
    t.Tracked := by
  cases ht with
  | poll p o q hw hq => exact tracked_poll h hw hth hq
  | checkRunning hw =>
    refine h.move hth rfl rfl rfl rfl ?_ ?_
    · rw [hw]
      cases s.running <;> rfl
    · cases s.running <;> nofun
  | filter d todo batch hw => exact tracked_filter h hw hth
  | account d batch dequeuedAt hw => exact h.move hth rfl rfl rfl rfl (by rw [hw]; rfl) nofun
  | infer d batch input answer execUs hw =>
    refine h.move hth rfl rfl rfl rfl ?_ ?_
    · rw [hw]
      unfold Worker.afterAnswer
      split
      · rfl
      · split <;> rfl
    · dsimp only
      unfold Worker.afterAnswer
      split
      · nofun
      · split <;> nofun
  | deliver d batch out i hw => exact tracked_deliver h hw hth
  | fail d batch todo eptr hw => exact tracked_fail h hw hth

theorem wake_holding (w : Worker F) : w.wake.holding = w.holding := by
  cases w <;> rfl

theorem wake_terminated (w : Worker F) : w.wake = .terminated ↔ w = .terminated := by
  cases w <;> simp [Worker.wake]

/-- Every event keeps track of the promises. -/
theorem Tracked.step (h : s.Tracked) (ht : s.step cfg e = some t) : t.Tracked := by
  have hth := h.toThreads.step ht
  have hawake : s.worker.wake ≠ .terminated := (wake_terminated _).not.mpr h.alive
  cases step_cases ht with
  | submitOpen requestId inputData arrivalTime hq =>
    exact tracked_submit h rfl hth rfl rfl rfl rfl rfl
  | submitStopped requestId inputData arrivalTime hq =>
    exact tracked_submit h rfl hth rfl rfl (List.append_nil _).symm rfl rfl
  | notifyOne hn => exact h.move hth rfl rfl rfl rfl (wake_holding _) hawake
  | wake p hw hp => exact h.move hth rfl rfl rfl rfl (by rw [hw]; rfl) nofun
  | expire hw => exact h.move hth rfl rfl rfl rfl (by rw [hw]; rfl) nofun
  | resetStats => exact h.move hth rfl rfl rfl rfl rfl h.alive
  | startAgain hc hr => exact h
  | start hc hr => exact h.move hth rfl rfl rfl rfl rfl h.alive
  | spawn hc hw => exact h.move hth rfl rfl rfl rfl (by rw [hw]; rfl) nofun
  | spawnOver hc hw => exact absurd (h.spawnable (.inl hc)) hw
  | stop hc => exact h.move hth rfl rfl rfl rfl rfl h.alive
  | shutdown hc => exact h.move hth rfl rfl rfl rfl rfl h.alive
  | notifyAll hc => exact h.move hth rfl rfl rfl rfl (wake_holding _) hawake
  | join hc hw =>
    refine h.move hth rfl rfl rfl rfl ?_ nofun
    rcases hw with hw | hw
    · rw [hw]
    · rw [hw]
      rfl
  | worker hw => exact tracked_worker h hth hw

end Scheduler
end InferenceServer.Batching
