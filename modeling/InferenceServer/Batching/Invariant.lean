import InferenceServer.Batching.Custody

/-!
# What every scheduler state keeps

Library `Batching`. One invariant ties the queue, the worker's locals and the history
together: requests leave the queue in the order they were accepted, each drained request
is either in the worker's hands or resolved, and each resolution follows from the batch
and the engine call it belongs to. The invariant is kept by every event, so nothing here
depends on how `start` and `stop` are called.
-/

namespace InferenceServer.Batching

open InferenceServer.Base InferenceServer.Engine

variable {F : Type}

/-- What the call resolves request `req`, its row `i`, with. -/
def EngineCall.outcome (cfg : SchedulerConfig) (c : EngineCall F) (i : Nat)
    (req : InferenceRequest F) : Outcome F :=
  match c.answer with
  | .error e => .error e
  | .ok out =>
    if out.size ≠ sizeMul c.batchSize cfg.outputElems then .error outputSizeError
    else .ok (sliceResult cfg out i req)

/-- The call was made for the well-sized requests of one drained batch. -/
structure CallOk (cfg : SchedulerConfig) (drains : List (List (InferenceRequest F)))
    (c : EngineCall F) : Prop where
  drained : c.drained ∈ drains
  input : c.batchedInput = concatInputs (c.drained.filter (wellSized cfg))
  size : c.batchSize = (c.drained.filter (wellSized cfg)).length
  inputElems : c.inputElems = cfg.inputElems
  outputElems : c.outputElems = cfg.outputElems

/-- The resolution of a promise follows from its request: a mis-sized one gets the size
error, a well-sized one what the call for its batch makes of its row. -/
def Explained (cfg : SchedulerConfig) (drains : List (List (InferenceRequest F)))
    (calls : List (EngineCall F)) (r : Nat × Outcome F) : Prop :=
  ∃ d ∈ drains, ∃ req ∈ d, req.resultPromise = r.1 ∧
    (wellSized cfg req = false ∧ r.2 = .error inputSizeError ∨
      ∃ c ∈ calls, c.drained = d ∧
        ∃ i, (d.filter (wellSized cfg))[i]? = some req ∧ r.2 = c.outcome cfg i req)

namespace Scheduler

/-- The worker's locals agree with the batch it drained and with the call it made. -/
def WorkerOk (cfg : SchedulerConfig) (s : Scheduler F) : Prop :=
  match s.worker with
  | .absent => True
  | .waiting p => p.inWindow = true → s.queue.queue ≠ []
  | .drainedEmpty => s.queue.stopRequested = true ∧ s.queue.queue = []
  | .filtering d todo batch =>
    d ∈ s.drains ∧ ∃ seen, d = seen ++ todo ∧ batch = seen.filter (wellSized cfg)
  | .batched d batch => d ∈ s.drains ∧ batch = d.filter (wellSized cfg)
  | .executing d batch input =>
    d ∈ s.drains ∧ batch = d.filter (wellSized cfg) ∧ input = concatInputs batch
  | .delivering d batch out _ =>
    d ∈ s.drains ∧ batch = d.filter (wellSized cfg) ∧
      ∃ c ∈ s.calls, c.drained = d ∧ c.answer = .ok out ∧ c.batchSize = batch.length ∧
        out.size = sizeMul batch.length cfg.outputElems
  | .failing d batch todo e =>
    d ∈ s.drains ∧ batch = d.filter (wellSized cfg) ∧ (∃ failed, batch = failed ++ todo) ∧
      ∃ c ∈ s.calls, c.drained = d ∧ ∀ i req, c.outcome cfg i req = .error e
  | .exited => s.queue.stopRequested = true ∧ s.queue.queue = []
  | .terminated => False

/-- The invariant of the scheduler. -/
structure Inv (cfg : SchedulerConfig) (s : Scheduler F) : Prop where
  /-- the `i`th submitted request carries promise `i` -/
  numbered : s.submits.map (fun r ↦ r.1.resultPromise) = List.range s.submits.length
  /-- `submit` returns a future or throws its own error -/
  answered : ∀ r ∈ s.submits, r.2 = .ok () ∨ r.2 = .error stoppedError
  /-- requests leave the queue in lock order -/
  fifo : s.drains.flatten ++ s.queue.queue = s.accepted
  /-- a drained request is resolved or in the worker's hands, never both, never neither -/
  custody : (s.resolved.map Prod.fst ++ s.worker.holding.map (·.resultPromise)).Perm
    (s.drains.flatten.map (·.resultPromise))
  drained : ∀ d ∈ s.drains, d ≠ [] ∧ d.length ≤ cfg.maxBatchSize
  called : ∀ c ∈ s.calls, CallOk cfg s.drains c
  explained : ∀ r ∈ s.resolved, Explained cfg s.drains s.calls r
  workerOk : s.WorkerOk cfg
  /-- `start` finds no thread to overwrite -/
  spawnable : s.caller = .spawning ∨ s.caller = .idle ∧ s.running = false → s.worker = .absent
  spawning : s.caller = .spawning → s.running = true

end Scheduler

/-- An explained resolution stays explained as batches and calls are added. -/
theorem Explained.mono {cfg : SchedulerConfig} {ds ds' : List (List (InferenceRequest F))}
    {cs cs' : List (EngineCall F)} {r : Nat × Outcome F} (h : Explained cfg ds cs r)
    (hd : ∀ d ∈ ds, d ∈ ds') (hc : ∀ c ∈ cs, c ∈ cs') : Explained cfg ds' cs' r := by
  obtain ⟨d, hmem, req, hreq, hp, hcase⟩ := h
  refine ⟨d, hd d hmem, req, hreq, hp, ?_⟩
  rcases hcase with hbad | ⟨c, hcm, hrest⟩
  · exact .inl hbad
  · exact .inr ⟨c, hc c hcm, hrest⟩

/-- A well-formed call stays so as batches are added. -/
theorem CallOk.mono {cfg : SchedulerConfig} {ds ds' : List (List (InferenceRequest F))}
    {c : EngineCall F} (h : CallOk cfg ds c) (hd : ∀ d ∈ ds, d ∈ ds') : CallOk cfg ds' c :=
  ⟨hd _ h.drained, h.input, h.size, h.inputElems, h.outputElems⟩

/-- Concatenating the inputs is flattening them. -/
theorem concatInputs_eq (batch : List (InferenceRequest F)) :
    concatInputs batch = (batch.map (·.inputData)).flatten := by
  have hgen : ∀ acc : List F, batch.foldl (fun acc req ↦ acc ++ req.inputData) acc =
      acc ++ (batch.map (·.inputData)).flatten := by
    induction batch with
    | nil => simp
    | cons req batch ih =>
      intro acc
      rw [List.foldl_cons, ih, List.map_cons, List.flatten_cons, List.append_assoc]
  exact hgen []

namespace Scheduler

variable {cfg : SchedulerConfig} {s : Scheduler F}

/-- The invariant keeps track of the promises. -/
theorem Inv.tracked (h : s.Inv cfg) : s.Tracked where
  spawnable := h.spawnable
  spawning := h.spawning
  numbered := h.numbered
  fifo := h.fifo
  custody := h.custody
  alive hw := by
    have hok := h.workerOk
    simp only [WorkerOk, hw] at hok

/-- What is left to show where the promises are kept track of. -/
theorem inv_of_tracked (hk : s.Tracked)
    (answered : ∀ r ∈ s.submits, r.2 = .ok () ∨ r.2 = .error stoppedError)
    (drained : ∀ d ∈ s.drains, d ≠ [] ∧ d.length ≤ cfg.maxBatchSize)
    (called : ∀ c ∈ s.calls, CallOk cfg s.drains c)
    (explained : ∀ r ∈ s.resolved, Explained cfg s.drains s.calls r)
    (workerOk : s.WorkerOk cfg) : s.Inv cfg :=
  ⟨hk.numbered, answered, hk.fifo, hk.custody, drained, called, explained, workerOk, hk.spawnable,
    hk.spawning⟩

/-- The constructor establishes the invariant. -/
theorem inv_init (cfg : SchedulerConfig) : (init : Scheduler F).Inv cfg where
  numbered := rfl
  answered := by simp [init]
  fifo := rfl
  custody := .refl _
  drained := by simp [init]
  called := by simp [init]
  explained := by simp [init]
  workerOk := trivial
  spawnable := fun _ ↦ rfl
  spawning := by simp [init]

/-! ### One event -/

private theorem answered_submit (h : s.Inv cfg) (req : InferenceRequest F)
    {a : Except CppException Unit} (ha : a = .ok () ∨ a = .error stoppedError) :
    ∀ r ∈ s.submits ++ [(req, a)], r.2 = .ok () ∨ r.2 = .error stoppedError := by
  intro r hr
  rcases List.mem_append.mp hr with hr | hr
  · exact h.answered r hr
  · rw [List.mem_singleton.mp hr]
    exact ha

private theorem workerOk_submit (h : s.Inv cfg) (hstop : s.queue.stopRequested = false)
    (req : InferenceRequest F) (notifies : Nat)
    (submits : List (InferenceRequest F × Except CppException Unit)) :
    WorkerOk cfg
      { s with queue := { s.queue with queue := s.queue.queue ++ [req] }, notifies, submits } := by
  -- only the wait and the shutdown answers read the queue
  have hw := h.workerOk
  cases hwk : s.worker with
  | absent => trivial
  | waiting p => simp [WorkerOk]
  | drainedEmpty => simp [WorkerOk, hwk, hstop] at hw
  | exited => simp [WorkerOk, hwk, hstop] at hw
  | terminated => simp only [WorkerOk, hwk] at hw
  | _ => simpa only [WorkerOk, hwk] using hw

private theorem workerOk_wake (h : s.Inv cfg) (caller : Caller) (notifies : Nat) :
    WorkerOk cfg { s with worker := s.worker.wake, caller, notifies } := by
  have hw := h.workerOk
  cases hwk : s.worker with
  | absent => trivial
  | waiting p => cases p <;> simp_all [WorkerOk, Worker.wake, WaitPoint.wake, WaitPoint.inWindow]
  | terminated => simp only [WorkerOk, hwk] at hw
  | _ => simpa only [WorkerOk, hwk, Worker.wake] using hw

private theorem workerOk_entry {t : Scheduler F} (hw : t.worker = .waiting .entry) :
    t.WorkerOk cfg := by
  simp [WorkerOk, hw, WaitPoint.inWindow]

/-- A section that blocks on or drains a queue has a request there. -/
private theorem queue_ne_nil (h : s.Inv cfg) {p : WaitPoint} (hp : s.worker = .waiting p)
    {r : WaitOutcome (InferenceRequest F) × RequestQueue (InferenceRequest F)}
    (hq : s.queue.waitAndDrain cfg.maxBatchSize cfg.maxWait p = some r)
    (hne : p = .entry → s.queue.queue ≠ []) : s.queue.queue ≠ [] := by
  have hok := h.workerOk
  simp only [WorkerOk, hp] at hok
  by_cases hent : p = .entry
  · exact hne hent
  · exact hok (RequestQueue.inWindow_of_waitAndDrain hq hent)

private theorem inv_poll (hm : 1 ≤ cfg.maxBatchSize) (h : s.Inv cfg) {p : WaitPoint}
    (hp : s.worker = .waiting p) {o : WaitOutcome (InferenceRequest F)}
    {q : RequestQueue (InferenceRequest F)}
    (hq : s.queue.waitAndDrain cfg.maxBatchSize cfg.maxWait p = some (o, q))
    (hk : (s.pollStep o q).Tracked) : (s.pollStep o q).Inv cfg := by
  rcases RequestQueue.waitAndDrain_cases hq with ⟨rfl, -, -, -, rfl⟩ | ⟨rfl, hne, -, -, rfl⟩ |
    ⟨rfl, -, he, hs, rfl⟩ | ⟨rfl, hne, rfl⟩
  · refine inv_of_tracked hk h.answered h.drained h.called h.explained ?_
    simp [pollStep, WorkerOk, WaitPoint.inWindow]
  · have hqne := queue_ne_nil h hp hq hne
    exact inv_of_tracked hk h.answered h.drained h.called h.explained fun _ ↦ hqne
  · exact inv_of_tracked hk h.answered h.drained h.called h.explained ⟨hs, he⟩
  · -- the batch is not empty: the window opened on a request that only this call removes
    have hqne := queue_ne_nil h hp hq hne
    cases hb : s.queue.queue.take cfg.maxBatchSize with
    | nil =>
      rw [List.take_eq_nil_iff] at hb
      rcases hb with hb | hb
      · omega
      · exact absurd hb hqne
    | cons req rest =>
      have hlen : (req :: rest).length ≤ cfg.maxBatchSize := by
        rw [← hb, List.length_take]
        exact Nat.min_le_left _ _
      rw [hb] at hk
      refine inv_of_tracked hk h.answered ?_ ?_ ?_
        ⟨List.mem_append_right _ (List.mem_singleton_self _), [], rfl, rfl⟩
      · intro d hd
        rcases List.mem_append.mp hd with hd | hd
        · exact h.drained d hd
        · rw [List.mem_singleton.mp hd]
          exact ⟨by simp, hlen⟩
      · intro c hc
        exact (h.called c hc).mono fun d hd ↦ List.mem_append_left _ hd
      · intro r hr
        exact (h.explained r hr).mono (fun d hd ↦ List.mem_append_left _ hd) fun c hc ↦ hc

private theorem explained_resolve (h : s.Inv cfg) {promise : Nat} {outcome : Outcome F}
    (hr : Explained cfg s.drains s.calls (promise, outcome)) :
    ∀ r ∈ (s.resolve promise outcome).resolved, Explained cfg s.drains s.calls r := by
  intro r hmem
  rcases List.mem_append.mp hmem with hmem | hmem
  · exact h.explained r hmem
  · rw [List.mem_singleton.mp hmem]
    exact hr

private theorem inv_filter (h : s.Inv cfg) {d todo batch : List (InferenceRequest F)}
    (hw : s.worker = .filtering d todo batch) (hk : (s.filterStep cfg d todo batch).Tracked) :
    (s.filterStep cfg d todo batch).Inv cfg := by
  have hok := h.workerOk
  simp only [WorkerOk, hw] at hok
  obtain ⟨hd, seen, hseen, hbatch⟩ := hok
  cases todo with
  | nil =>
    rw [List.append_nil] at hseen
    refine inv_of_tracked hk h.answered h.drained h.called h.explained ?_
    cases he : batch.isEmpty with
    | true =>
      apply workerOk_entry
      simp [filterStep, he]
    | false =>
      simp only [filterStep, he]
      exact ⟨hd, by rw [hbatch, hseen]⟩
  | cons req rest =>
    have hfresh : s.satisfied req.resultPromise = false := by
      apply h.tracked.not_satisfied
      simp [hw, Worker.holding]
    have hreq : req ∈ d := by
      rw [hseen]
      simp
    cases hsz : wellSized cfg req with
    | true =>
      simp only [filterStep, hsz, ↓reduceIte] at hk ⊢
      refine inv_of_tracked hk h.answered h.drained h.called h.explained
        ⟨hd, seen ++ [req], by simp [hseen], ?_⟩
      simp [hbatch, List.filter_append, hsz]
    | false =>
      simp only [filterStep, hsz, hfresh, Bool.false_eq_true, ↓reduceIte] at hk ⊢
      refine inv_of_tracked hk h.answered h.drained h.called
        (explained_resolve h ⟨d, hd, req, hreq, rfl, .inl ⟨hsz, rfl⟩⟩)
        ⟨hd, seen ++ [req], by simp [hseen], ?_⟩
      simp [hbatch, List.filter_append, hsz]

private theorem inv_infer (h : s.Inv cfg) {d batch : List (InferenceRequest F)}
    {input : List F} (hw : s.worker = .executing d batch input) (answer : InferenceAnswer F)
    {t : Scheduler F} (hk : t.Tracked) (hsub : t.submits = s.submits) (hdr : t.drains = s.drains)
    (hres : t.resolved = s.resolved) (hwt : t.worker = .afterAnswer cfg d batch answer)
    (hct : t.calls = s.calls ++
      [⟨d, input, batch.length, cfg.inputElems, cfg.outputElems, answer⟩]) : t.Inv cfg := by
  have hok := h.workerOk
  simp only [WorkerOk, hw] at hok
  obtain ⟨hd, hbatch, hinput⟩ := hok
  have hnew : (⟨d, input, batch.length, cfg.inputElems, cfg.outputElems, answer⟩ : EngineCall F) ∈
      t.calls := by
    rw [hct]
    exact List.mem_append_right _ (List.mem_singleton_self _)
  refine inv_of_tracked hk (by rw [hsub]; exact h.answered) (by rw [hdr]; exact h.drained) ?_ ?_ ?_
  · intro c hc
    rw [hct] at hc
    rw [hdr]
    rcases List.mem_append.mp hc with hc | hc
    · exact h.called c hc
    · rw [List.mem_singleton.mp hc]
      exact ⟨hd, by rw [hinput, hbatch], by rw [hbatch], rfl, rfl⟩
  · intro r hr
    rw [hres] at hr
    rw [hdr, hct]
    exact (h.explained r hr).mono (fun _ hd ↦ hd) fun c hc ↦ List.mem_append_left _ hc
  · rw [← hdr] at hd
    unfold WorkerOk
    rw [hwt]
    cases answer with
    | error e => exact ⟨hd, hbatch, ⟨[], rfl⟩, _, hnew, rfl, fun i req ↦ rfl⟩
    | ok out =>
      by_cases hsz : out.size ≠ sizeMul batch.length cfg.outputElems
      · rw [Worker.afterAnswer, if_pos hsz]
        exact ⟨hd, hbatch, ⟨[], rfl⟩, _, hnew, rfl, fun i req ↦ if_pos hsz⟩
      · rw [Worker.afterAnswer, if_neg hsz]
        exact ⟨hd, hbatch, _, hnew, rfl, rfl, rfl, not_not.mp hsz⟩

private theorem inv_deliver (h : s.Inv cfg) {d batch : List (InferenceRequest F)}
    {out : FloatVec F} {i : Nat} (hw : s.worker = .delivering d batch out i)
    (hk : (s.deliverStep cfg d batch out i).Tracked) :
    (s.deliverStep cfg d batch out i).Inv cfg := by
  have hok := h.workerOk
  simp only [WorkerOk, hw] at hok
  obtain ⟨hd, hbatch, c, hc, hcd, hans, hsize, hout⟩ := hok
  cases hi : batch[i]? with
  | none =>
    simp only [deliverStep, hi] at hk ⊢
    exact inv_of_tracked hk h.answered h.drained h.called h.explained (workerOk_entry rfl)
  | some req =>
    have hfresh : s.satisfied req.resultPromise = false := by
      apply h.tracked.not_satisfied
      rw [hw]
      exact mem_holding_delivering hi
    have hreq : req ∈ d := by
      have hmem : req ∈ batch := List.mem_of_getElem? hi
      rw [hbatch] at hmem
      exact (List.mem_filter.mp hmem).1
    simp only [deliverStep, hi, hfresh, Bool.false_eq_true, ↓reduceIte] at hk ⊢
    refine inv_of_tracked hk h.answered h.drained h.called (explained_resolve h ?_)
      ⟨hd, hbatch, c, hc, hcd, hans, hsize, hout⟩
    refine ⟨d, hd, req, hreq, rfl, .inr ⟨c, hc, hcd, i, by rw [← hbatch]; exact hi, ?_⟩⟩
    simp only [EngineCall.outcome, hans, hsize, hout, ne_eq, not_true_eq_false, ↓reduceIte]

private theorem inv_fail (h : s.Inv cfg) {d batch todo : List (InferenceRequest F)}
    {e : CppException} (hw : s.worker = .failing d batch todo e)
    (hk : (s.failStep d batch todo e).Tracked) : (s.failStep d batch todo e).Inv cfg := by
  have hok := h.workerOk
  simp only [WorkerOk, hw] at hok
  obtain ⟨hd, hbatch, ⟨failed, hfailed⟩, c, hc, hcd, hans⟩ := hok
  cases todo with
  | nil => exact inv_of_tracked hk h.answered h.drained h.called h.explained (workerOk_entry rfl)
  | cons req rest =>
    have hfresh : s.satisfied req.resultPromise = false := by
      apply h.tracked.not_satisfied
      simp [hw, Worker.holding]
    have hi : batch[failed.length]? = some req := by
      rw [hfailed]
      simp
    have hreq : req ∈ d := by
      have hmem : req ∈ batch := List.mem_of_getElem? hi
      rw [hbatch] at hmem
      exact (List.mem_filter.mp hmem).1
    simp only [failStep, hfresh, Bool.false_eq_true, ↓reduceIte] at hk ⊢
    refine inv_of_tracked hk h.answered h.drained h.called (explained_resolve h ?_)
      ⟨hd, hbatch, ⟨failed ++ [req], by simp [hfailed]⟩, c, hc, hcd, hans⟩
    exact ⟨d, hd, req, hreq, rfl,
      .inr ⟨c, hc, hcd, failed.length, by rw [← hbatch]; exact hi, (hans _ _).symm⟩⟩

private theorem inv_worker (hm : 1 ≤ cfg.maxBatchSize) (h : s.Inv cfg) {e : Event F}
    {t : Scheduler F} (hk : t.Tracked) (ht : WorkerStep cfg s e t) : t.Inv cfg := by
  have hok := h.workerOk
  cases ht with
  | poll p o q hw hq => exact inv_poll hm h hw hq hk
  | checkRunning hw =>
    simp only [WorkerOk, hw] at hok
    refine inv_of_tracked hk h.answered h.drained h.called h.explained ?_
    cases hr : s.running with
    | true => exact workerOk_entry rfl
    | false => exact hok
  | filter d todo batch hw => exact inv_filter h hw hk
  | account d batch dequeuedAt hw =>
    simp only [WorkerOk, hw] at hok
    exact inv_of_tracked hk h.answered h.drained h.called h.explained ⟨hok.1, hok.2, rfl⟩
  | infer d batch input answer execUs hw => exact inv_infer h hw answer hk rfl rfl rfl rfl rfl
  | deliver d batch out i hw => exact inv_deliver h hw hk
  | fail d batch todo eptr hw => exact inv_fail h hw hk

private theorem workerOk_shutdown (h : s.Inv cfg) (caller : Caller) :
    WorkerOk cfg { s with queue := s.queue.shutdown, caller } := by
  have hw := h.workerOk
  cases hwk : s.worker with
  | absent => trivial
  | drainedEmpty =>
    simp only [WorkerOk, hwk] at hw ⊢
    exact ⟨rfl, hw.2⟩
  | exited =>
    simp only [WorkerOk, hwk] at hw ⊢
    exact ⟨rfl, hw.2⟩
  | terminated => simp only [WorkerOk, hwk] at hw
  | _ => simpa only [WorkerOk, hwk, RequestQueue.shutdown] using hw

/-- Every event keeps the invariant. -/
theorem inv_step (hm : 1 ≤ cfg.maxBatchSize) (h : s.Inv cfg) {e : Event F} {t : Scheduler F}
    (ht : s.step cfg e = some t) : t.Inv cfg := by
  have hk := h.tracked.step ht
  -- an event that leaves batches, calls and resolutions alone
  have keep (hsub : t.submits = s.submits) (hd : t.drains = s.drains) (hc : t.calls = s.calls)
      (hr : t.resolved = s.resolved) (hok : t.WorkerOk cfg) : t.Inv cfg :=
    inv_of_tracked hk (by rw [hsub]; exact h.answered) (by rw [hd]; exact h.drained)
      (by rw [hc, hd]; exact h.called) (by rw [hr, hd, hc]; exact h.explained) hok
  cases step_cases ht with
  | submitOpen requestId inputData arrivalTime hq =>
    exact inv_of_tracked hk (answered_submit h _ (.inl rfl)) h.drained h.called h.explained
      (workerOk_submit h hq _ _ _)
  | submitStopped requestId inputData arrivalTime hq =>
    exact inv_of_tracked hk (answered_submit h _ (.inr rfl)) h.drained h.called h.explained
      h.workerOk
  | notifyOne hn => exact keep rfl rfl rfl rfl (workerOk_wake h _ _)
  | wake p hw hp =>
    have hwake := workerOk_wake h s.caller s.notifies
    simp only [hw, Worker.wake] at hwake
    exact keep rfl rfl rfl rfl hwake
  | expire hw =>
    have hok := h.workerOk
    simp only [WorkerOk, hw] at hok
    exact keep rfl rfl rfl rfl fun _ ↦ hok rfl
  | resetStats => exact keep rfl rfl rfl rfl h.workerOk
  | startAgain hc hr => exact h
  | start hc hr => exact keep rfl rfl rfl rfl h.workerOk
  | spawn hc hw => exact keep rfl rfl rfl rfl (workerOk_entry rfl)
  | spawnOver hc hw => exact absurd (h.spawnable (.inl hc)) hw
  | stop hc => exact keep rfl rfl rfl rfl h.workerOk
  | shutdown hc => exact keep rfl rfl rfl rfl (workerOk_shutdown h _)
  | notifyAll hc => exact keep rfl rfl rfl rfl (workerOk_wake h _ _)
  | join hc hw => exact keep rfl rfl rfl rfl trivial
  | worker hw => exact inv_worker hm h hk hw

/-- The invariant holds in every state a run reaches. -/
theorem inv_exec (hm : 1 ≤ cfg.maxBatchSize) {es : List (Event F)} {t : Scheduler F}
    (h : exec (step cfg) init es = some t) : t.Inv cfg :=
  exec_preserves (fun _ _ _ hs ht ↦ inv_step hm hs ht) h (inv_init cfg)

end Scheduler
end InferenceServer.Batching
