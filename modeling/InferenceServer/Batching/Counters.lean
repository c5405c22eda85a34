import Mathlib.Data.List.Nodup
import InferenceServer.Batching.Custody

/-!
# The counters

Library `Batching`. `cpp/src/scheduler/scheduler.cpp:95–113,159–219`. A run shows which batches the
worker counted and which engine times it added; the counters are the totals of both. A batch is
counted before its engine call and its engine time before the first of its promises, so a caller
that has its result finds its batch in the counters.
-/

namespace InferenceServer.Batching

open InferenceServer.Base InferenceServer.Engine

variable {F : Type}

/-! ### Totals -/

/-- A counted batch, and the clock reading its waits were measured with. -/
abbrev CountedBatch (F : Type) := List (InferenceRequest F) × Int

/-- The queue waits of a counted batch: for each request the whole microseconds from its arrival to
that reading, and none when the clock was read before the arrival. -/
def CountedBatch.waits (b : CountedBatch F) : List Nat :=
  b.1.map fun req ↦ ((b.2 - req.arrivalTime) / 1000).toNat

def largest (xs : List Nat) : Nat := xs.foldr max 0

/-- What counting these batches and these engine times amounts to. -/
def tally (bs : List (CountedBatch F)) (times : List Nat) : SchedulerStats where
  totalBatches := bs.length
  totalRequests := (bs.map (·.1.length)).sum
  maxBatchSizeSeen := largest (bs.map (·.1.length))
  totalQueueWaitUs := (bs.flatMap CountedBatch.waits).sum
  maxQueueWaitUs := largest (bs.flatMap CountedBatch.waits)
  totalExecUs := times.sum

theorem largest_append (xs ys : List Nat) : largest (xs ++ ys) = max (largest xs) (largest ys) := by
  induction xs with
  | nil => exact (Nat.zero_max _).symm
  | cons x xs ih =>
    rw [List.cons_append, largest, largest, List.foldr_cons, List.foldr_cons, Nat.max_assoc,
      ← largest, ← largest, ih]

theorem largest_singleton (x : Nat) : largest [x] = x := Nat.max_zero x

theorem largest_le {xs : List Nat} {n : Nat} (h : ∀ x ∈ xs, x ≤ n) : largest xs ≤ n := by
  induction xs with
  | nil => exact Nat.zero_le n
  | cons x xs ih =>
    exact Nat.max_le.mpr ⟨h x List.mem_cons_self, ih fun y hy ↦ h y (List.mem_cons_of_mem x hy)⟩

theorem largest_le_sum (xs : List Nat) : largest xs ≤ xs.sum := by
  induction xs with
  | nil => exact Nat.le_refl 0
  | cons x xs ih =>
    rw [largest, List.foldr_cons, ← largest, List.sum_cons]
    omega

theorem sum_le_length_mul_largest (xs : List Nat) : xs.sum ≤ xs.length * largest xs := by
  induction xs with
  | nil => exact Nat.zero_le _
  | cons x xs ih =>
    rw [largest, List.foldr_cons, ← largest, List.sum_cons, List.length_cons, Nat.succ_mul]
    have hmul : xs.length * largest xs ≤ xs.length * max x (largest xs) :=
      Nat.mul_le_mul_left _ (Nat.le_max_right _ _)
    omega

private theorem foldl_countWait (ws : List Nat) (st : SchedulerStats) :
    ws.foldl SchedulerStats.countWait st =
      { st with
        totalQueueWaitUs := st.totalQueueWaitUs + ws.sum
        maxQueueWaitUs := max st.maxQueueWaitUs (largest ws) } := by
  induction ws generalizing st with
  | nil => simp [largest]
  | cons w ws ih =>
    rw [List.foldl_cons, ih, SchedulerStats.countWait, List.sum_cons]
    simp only [largest, List.foldr_cons, Nat.add_assoc, Nat.max_assoc]

/-- The cast truncates towards zero and the comparison drops what is negative; together they round
down. -/
theorem waitedUs_eq (dequeuedAt arrivalTime : Int) :
    SchedulerStats.waitedUs dequeuedAt arrivalTime = ((dequeuedAt - arrivalTime) / 1000).toNat := by
  unfold SchedulerStats.waitedUs
  by_cases hneg : dequeuedAt - arrivalTime < 0
  · have htdiv : (dequeuedAt - arrivalTime).tdiv 1000 ≤ 0 := by
      rw [← Int.neg_neg (dequeuedAt - arrivalTime), Int.neg_tdiv,
        Int.tdiv_eq_ediv_of_nonneg (by omega)]
      omega
    omega
  · rw [Int.tdiv_eq_ediv_of_nonneg (by omega)]

/-- Counting one more batch. -/
theorem countBatch_tally (bs : List (CountedBatch F)) (times : List Nat)
    (batch : List (InferenceRequest F)) (dequeuedAt : Int) :
    (tally bs times).countBatch batch dequeuedAt = tally (bs ++ [(batch, dequeuedAt)]) times := by
  rw [SchedulerStats.countBatch, ← List.foldl_map (f := fun req : InferenceRequest F ↦
    SchedulerStats.waitedUs dequeuedAt req.arrivalTime), foldl_countWait]
  simp [tally, largest_append, largest_singleton, CountedBatch.waits, waitedUs_eq]

/-- Adding one more engine time. -/
theorem countExec_tally (bs : List (CountedBatch F)) (times : List Nat) (execUs : Nat) :
    (tally bs times).countExec execUs = tally bs (times ++ [execUs]) := by
  simp [tally, SchedulerStats.countExec]

/-! ### The flag of the execution time -/

/-- The counter at the start of the `catch` block, `scheduler.cpp:217–219`. -/
def SchedulerStats.catchExec (st : SchedulerStats) (execRecorded : Bool) (elapsed : Nat) :
    SchedulerStats :=
  if !execRecorded then st.countExec elapsed else st

/-- The counter through the `try` block with `exec_recorded`, `scheduler.cpp:197–219`; the two
readings of the clock are after the call and in the `catch` block. -/
def SchedulerStats.recordExec (st : SchedulerStats) (cfg : SchedulerConfig)
    (batch : List (InferenceRequest F)) (answer : InferenceAnswer F) (afterCall inCatch : Nat) :
    SchedulerStats :=
  match answer with
  | .error _ => st.catchExec false inCatch
  | .ok out =>
    if out.size ≠ sizeMul batch.length cfg.outputElems then
      (st.countExec afterCall).catchExec true inCatch
    else st.countExec afterCall

/-- The reading that is counted. -/
def countedReading (answer : InferenceAnswer F) (afterCall inCatch : Nat) : Nat :=
  match answer with
  | .error _ => inCatch
  | .ok _ => afterCall

/-- The three ways out count the time once. -/
theorem recordExec_eq (st : SchedulerStats) (cfg : SchedulerConfig)
    (batch : List (InferenceRequest F)) (answer : InferenceAnswer F) (afterCall inCatch : Nat) :
    st.recordExec cfg batch answer afterCall inCatch =
      st.countExec (countedReading answer afterCall inCatch) := by
  cases answer with
  | error e => rfl
  | ok out =>
    unfold SchedulerStats.recordExec
    dsimp only
    split <;> rfl

namespace Scheduler

variable {cfg : SchedulerConfig} {s₀ s t : Scheduler F} {e : Event F} {es : List (Event F)}

/-! ### What a run shows -/

def batchMark (s : Scheduler F) : Event F → Option (CountedBatch F)
  | .account dequeuedAt =>
    match s.worker with
    | .batched _ batch => some (batch, dequeuedAt)
    | _ => none
  | _ => none

def timeMark (_ : Scheduler F) : Event F → Option Nat
  | .infer _ execUs => some execUs
  | _ => none

/-- The batches counted along a run, and the engine times added. -/
def countedBatches (cfg : SchedulerConfig) (s₀ : Scheduler F) (es : List (Event F)) :
    List (CountedBatch F) :=
  marks (step cfg) batchMark s₀ es

def countedTimes (cfg : SchedulerConfig) (s₀ : Scheduler F) (es : List (Event F)) : List Nat :=
  marks (step cfg) timeMark s₀ es

theorem countedBatches_snoc (h : exec (step cfg) s₀ es = some s) :
    countedBatches cfg s₀ (es ++ [e]) = countedBatches cfg s₀ es ++ (s.batchMark e).toList :=
  marks_snoc h e

theorem countedTimes_snoc (h : exec (step cfg) s₀ es = some s) :
    countedTimes cfg s₀ (es ++ [e]) = countedTimes cfg s₀ es ++ (s.timeMark e).toList :=
  marks_snoc h e

theorem pollStep_stats (s : Scheduler F) (o : WaitOutcome (InferenceRequest F))
    (q : RequestQueue (InferenceRequest F)) :
    (s.pollStep o q).stats = s.stats ∧ (s.pollStep o q).calls = s.calls ∧
      (s.pollStep o q).submits = s.submits := by
  unfold pollStep
  split <;> exact ⟨rfl, rfl, rfl⟩

theorem filterStep_stats (cfg : SchedulerConfig) (s : Scheduler F)
    (d todo batch : List (InferenceRequest F)) :
    (s.filterStep cfg d todo batch).stats = s.stats ∧
      (s.filterStep cfg d todo batch).calls = s.calls ∧
      (s.filterStep cfg d todo batch).submits = s.submits := by
  unfold filterStep
  split
  · exact ⟨rfl, rfl, rfl⟩
  · split
    · exact ⟨rfl, rfl, rfl⟩
    · split <;> exact ⟨rfl, rfl, rfl⟩

theorem deliverStep_stats (cfg : SchedulerConfig) (s : Scheduler F)
    (d batch : List (InferenceRequest F)) (out : FloatVec F) (i : Nat) :
    (s.deliverStep cfg d batch out i).stats = s.stats ∧
      (s.deliverStep cfg d batch out i).calls = s.calls ∧
      (s.deliverStep cfg d batch out i).submits = s.submits := by
  unfold deliverStep
  split
  · exact ⟨rfl, rfl, rfl⟩
  · split <;> exact ⟨rfl, rfl, rfl⟩

theorem failStep_stats (s : Scheduler F) (d batch todo : List (InferenceRequest F))
    (e : CppException) :
    (s.failStep d batch todo e).stats = s.stats ∧ (s.failStep d batch todo e).calls = s.calls ∧
      (s.failStep d batch todo e).submits = s.submits := by
  unfold failStep
  split
  · exact ⟨rfl, rfl, rfl⟩
  · split <;> exact ⟨rfl, rfl, rfl⟩

/-- The counters move exactly with the marks. -/
theorem stats_step (h : s.step cfg e = some t) (he : e ≠ .resetStats)
    {bs : List (CountedBatch F)} {times : List Nat} (hs : s.stats = tally bs times) :
    t.stats = tally (bs ++ (s.batchMark e).toList) (times ++ (s.timeMark e).toList) := by
  have hsame {t' : SchedulerStats} (ht : t' = s.stats) :
      t' = tally (bs ++ []) (times ++ []) := by
    rw [ht, hs, List.append_nil, List.append_nil]
  cases step_cases h with
  | resetStats => exact absurd rfl he
  | worker hw =>
    cases hw with
    | poll p o q hw hq => exact hsame (pollStep_stats s o q).1
    | checkRunning hw => exact hsame rfl
    | filter d todo batch hw => exact hsame (filterStep_stats cfg s d todo batch).1
    | account d batch dequeuedAt hw =>
      have hmark : s.batchMark (.account dequeuedAt) = some (batch, dequeuedAt) := by
        simp only [batchMark, hw]
      rw [hmark]
      change s.stats.countBatch batch dequeuedAt = tally (bs ++ [(batch, dequeuedAt)]) (times ++ [])
      rw [hs, countBatch_tally, List.append_nil]
    | infer d batch input answer execUs hw =>
      change s.stats.countExec execUs = tally (bs ++ []) (times ++ [execUs])
      rw [hs, countExec_tally, List.append_nil]
    | deliver d batch out i hw => exact hsame (deliverStep_stats cfg s d batch out i).1
    | fail d batch todo eptr hw => exact hsame (failStep_stats s d batch todo eptr).1
  | _ => exact hsame rfl

/-- From counters at zero, the counters are the totals of the run. -/
theorem stats_exec (h : exec (step cfg) s₀ es = some s) (h₀ : s₀.stats = {})
    (hreset : .resetStats ∉ es) :
    s.stats = tally (countedBatches cfg s₀ es) (countedTimes cfg s₀ es) := by
  induction es using List.reverseRecOn generalizing s with
  | nil =>
    cases h
    exact h₀
  | append_singleton es e ih =>
    obtain ⟨m, hm, ht⟩ := exec_snoc_eq_some.mp h
    rw [List.mem_append, not_or] at hreset
    have he : e ≠ .resetStats := fun heq ↦ hreset.2 (heq ▸ List.mem_cons_self)
    rw [stats_step ht he (ih hm hreset.1), countedBatches_snoc hm, countedTimes_snoc hm]

end Scheduler

/-! ### The batch in hand -/

/-- The batch of the engine call that is under way. -/
def Worker.pending : Worker F → List (List (InferenceRequest F))
  | .executing _ batch _ => [batch]
  | _ => []

/-- The worker's locals agree with the batches counted so far: what it resolves is of the last. -/
def Worker.Counts (cfg : SchedulerConfig) (bs : List (CountedBatch F)) : Worker F → Prop
  | .filtering d todo batch =>
    d.length ≤ cfg.maxBatchSize ∧ ∃ seen, d = seen ++ todo ∧ batch = seen.filter (wellSized cfg)
  | .batched d batch =>
    d.length ≤ cfg.maxBatchSize ∧ batch = d.filter (wellSized cfg) ∧ batch ≠ []
  | .executing d batch _ =>
    batch = d.filter (wellSized cfg) ∧ batch ≠ [] ∧ ∃ at', bs.getLast? = some (batch, at')
  | .delivering _ batch _ i => batch.drop i ≠ [] → ∃ at', bs.getLast? = some (batch, at')
  | .failing _ batch todo _ =>
    (∃ failed, batch = failed ++ todo) ∧ (todo ≠ [] → ∃ at', bs.getLast? = some (batch, at'))
  | _ => True

theorem Worker.pending_wake (w : Worker F) : w.wake.pending = w.pending := by
  cases w <;> rfl

theorem Worker.Counts.wake {cfg : SchedulerConfig} {bs : List (CountedBatch F)} {w : Worker F}
    (h : w.Counts cfg bs) : w.wake.Counts cfg bs := by
  cases w <;> exact h

namespace Scheduler

variable {cfg : SchedulerConfig} {s₀ s t : Scheduler F} {e : Event F} {es : List (Event F)}

/-- The calls made and the batches counted since `s₀`, whose futures were all resolved. -/
structure History (cfg : SchedulerConfig) (s₀ : Scheduler F) (es : List (Event F))
    (s : Scheduler F) : Prop where
  reached : exec (step cfg) s₀ es = some s
  tracked : s.Tracked
  grown : s₀.submits.length ≤ s.submits.length
  worker : s.worker.Counts cfg (countedBatches cfg s₀ es)
  /-- one engine call for each counted batch, the last of them perhaps under way -/
  calls : ∃ new, s.calls = s₀.calls ++ new ∧
    new.map (fun c ↦ c.drained.filter (wellSized cfg)) ++ s.worker.pending =
      (countedBatches cfg s₀ es).map Prod.fst ∧
    (countedTimes cfg s₀ es).length = new.length
  held : ∀ req ∈ s.worker.holding ++ s.queue.queue,
    req ∈ s.accepted ∧ s₀.submits.length ≤ req.resultPromise
  counted : ∀ b ∈ countedBatches cfg s₀ es, b.1.length ≤ cfg.maxBatchSize ∧
    ∀ req ∈ b.1, wellSized cfg req = true ∧ req ∈ s.accepted ∧ s₀.submits.length ≤ req.resultPromise

/-- A run starts from a state with nothing in hand. -/
theorem History.start (hk : s₀.Tracked) (hw : s₀.worker.Counts cfg [])
    (hp : s₀.worker.pending = []) (hheld : s₀.worker.holding ++ s₀.queue.queue = []) :
    History cfg s₀ [] s₀ where
  reached := rfl
  tracked := hk
  grown := Nat.le_refl _
  worker := hw
  calls := ⟨[], (List.append_nil _).symm, hp, rfl⟩
  held := fun _ hreq ↦ absurd (hheld ▸ hreq) List.not_mem_nil
  counted := fun _ hb ↦ absurd hb List.not_mem_nil

theorem History.uncounted (h : History cfg s₀ es s) (hb : s.batchMark e = none)
    (hx : s.timeMark e = none) :
    countedBatches cfg s₀ (es ++ [e]) = countedBatches cfg s₀ es ∧
      countedTimes cfg s₀ (es ++ [e]) = countedTimes cfg s₀ es := by
  rw [countedBatches_snoc h.reached, countedTimes_snoc h.reached, hb, hx]
  simp

/-- An event that counts nothing and submits nothing. -/
theorem History.frame (h : History cfg s₀ es s) (ht : s.step cfg e = some t)
    (hb : s.batchMark e = none) (hx : s.timeMark e = none) (hsub : t.submits = s.submits)
    (hc : t.calls = s.calls) (hp : t.worker.pending = s.worker.pending)
    (hw : t.worker.Counts cfg (countedBatches cfg s₀ es))
    (hheld : ∀ req ∈ t.worker.holding ++ t.queue.queue, req ∈ s.worker.holding ++ s.queue.queue) :
    History cfg s₀ (es ++ [e]) t := by
  obtain ⟨hbs, hxs⟩ := h.uncounted hb hx
  have hacc : t.accepted = s.accepted := by rw [accepted, accepted, hsub]
  refine ⟨exec_snoc_eq_some.mpr ⟨s, h.reached, ht⟩, h.tracked.step ht, ?_, ?_, ?_, ?_, ?_⟩
  · rw [hsub]
    exact h.grown
  · rw [hbs]
    exact hw
  · rw [hc, hp, hbs, hxs]
    exact h.calls
  · rw [hacc]
    exact fun req hreq ↦ h.held req (hheld req hreq)
  · rw [hbs, hacc]
    exact h.counted

/-- A submit adds a request that is newer than the start. -/
theorem History.submit (h : History cfg s₀ es s) (ht : s.step cfg e = some t)
    (hb : s.batchMark e = none) (hx : s.timeMark e = none) {req : InferenceRequest F}
    (hreq : req.resultPromise = s.submits.length) {r : Except CppException Unit}
    (hsub : t.submits = s.submits ++ [(req, r)]) (hc : t.calls = s.calls) (hw : t.worker = s.worker)
    (hq : t.queue.queue = s.queue.queue ++ (if r.isOk then [req] else [])) :
    History cfg s₀ (es ++ [e]) t := by
  obtain ⟨hbs, hxs⟩ := h.uncounted hb hx
  have hacc := accepted_snoc hsub
  have hmono {x : InferenceRequest F} (hx : x ∈ s.accepted) : x ∈ t.accepted := by
    rw [hacc]
    exact List.mem_append_left _ hx
  refine ⟨exec_snoc_eq_some.mpr ⟨s, h.reached, ht⟩, h.tracked.step ht, ?_, ?_, ?_, ?_, ?_⟩
  · have hgrown := h.grown
    rw [hsub, List.length_append]
    omega
  · rw [hbs, hw]
    exact h.worker
  · rw [hc, hw, hbs, hxs]
    exact h.calls
  · intro x hx
    rw [hw, hq, ← List.append_assoc, List.mem_append] at hx
    rcases hx with hx | hx
    · obtain ⟨hin, hle⟩ := h.held x hx
      exact ⟨hmono hin, hle⟩
    · refine ⟨?_, ?_⟩
      · rw [hacc]
        exact List.mem_append_right _ hx
      · have heq : x = req := by
          cases hr : r.isOk <;> simp_all
        rw [heq, hreq]
        exact h.grown
  · intro b hbm
    rw [hbs] at hbm
    obtain ⟨hlen, hall⟩ := h.counted b hbm
    refine ⟨hlen, ?_⟩
    intro x hx
    obtain ⟨hsz, hin, hle⟩ := hall x hx
    exact ⟨hsz, hmono hin, hle⟩

/-- Counting the batch. -/
theorem History.account (h : History cfg s₀ es s) {d batch : List (InferenceRequest F)}
    {dequeuedAt : Int} (hw : s.worker = .batched d batch)
    (ht : s.step cfg (.account dequeuedAt) =
      some
        { s with
          worker := .executing d batch (concatInputs batch)
          stats := s.stats.countBatch batch dequeuedAt }) :
    History cfg s₀ (es ++ [Event.account dequeuedAt])
      { s with
        worker := .executing d batch (concatInputs batch)
        stats := s.stats.countBatch batch dequeuedAt } := by
  have hbs : countedBatches cfg s₀ (es ++ [Event.account dequeuedAt]) =
      countedBatches cfg s₀ es ++ [(batch, dequeuedAt)] := by
    rw [countedBatches_snoc h.reached]
    simp only [batchMark, hw, Option.toList_some]
  have hxs : countedTimes cfg s₀ (es ++ [Event.account dequeuedAt]) = countedTimes cfg s₀ es := by
    rw [countedTimes_snoc h.reached]
    exact List.append_nil _
  have hbatch := h.worker
  rw [hw] at hbatch
  obtain ⟨hlen, hfilter, hne⟩ := hbatch
  obtain ⟨new, hnew, hmap, htimes⟩ := h.calls
  refine ⟨exec_snoc_eq_some.mpr ⟨s, h.reached, ht⟩, h.tracked.step ht, h.grown, ?_, ?_, ?_, ?_⟩
  · rw [hbs]
    exact ⟨hfilter, hne, dequeuedAt, List.getLast?_concat⟩
  · refine ⟨new, hnew, ?_, hxs ▸ htimes⟩
    rw [hw] at hmap
    rw [hbs, List.map_append, ← hmap]
    simp [Worker.pending]
  · have hheld := h.held
    rw [hw] at hheld
    exact hheld
  · intro b hb
    rw [hbs, List.mem_append, List.mem_singleton] at hb
    rcases hb with hb | rfl
    · exact h.counted b hb
    · have hle : batch.length ≤ d.length := by
        rw [hfilter]
        exact List.length_filter_le _ _
      refine ⟨by dsimp only; omega, ?_⟩
      intro req hreq
      have hsz : wellSized cfg req = true := by
        have hin : req ∈ batch := hreq
        rw [hfilter] at hin
        exact (List.mem_filter.mp hin).2
      refine ⟨hsz, h.held req ?_⟩
      rw [hw]
      exact List.mem_append_left _ hreq

/-- The engine's answer. -/
theorem History.infer (h : History cfg s₀ es s) {d batch : List (InferenceRequest F)}
    {input : List F} {answer : InferenceAnswer F} {execUs : Nat}
    (hw : s.worker = .executing d batch input) (ht : s.step cfg (.infer answer execUs) = some t)
    (hwt : t.worker = .afterAnswer cfg d batch answer)
    (hct : t.calls = s.calls ++ [⟨d, input, batch.length, cfg.inputElems, cfg.outputElems, answer⟩])
    (hsub : t.submits = s.submits) (hq : t.queue = s.queue) :
    History cfg s₀ (es ++ [Event.infer answer execUs]) t := by
  have hbs : countedBatches cfg s₀ (es ++ [Event.infer answer execUs]) =
      countedBatches cfg s₀ es := by
    rw [countedBatches_snoc h.reached]
    exact List.append_nil _
  have hxs : countedTimes cfg s₀ (es ++ [Event.infer answer execUs]) =
      countedTimes cfg s₀ es ++ [execUs] := countedTimes_snoc h.reached
  have hacc : t.accepted = s.accepted := by rw [accepted, accepted, hsub]
  have hbatch := h.worker
  rw [hw] at hbatch
  obtain ⟨hfilter, -, hlast⟩ := hbatch
  obtain ⟨new, hnew, hmap, htimes⟩ := h.calls
  rw [hw] at hmap
  have hanswer : t.worker.Counts cfg (countedBatches cfg s₀ es) ∧ t.worker.pending = [] ∧
      t.worker.holding = batch := by
    rw [hwt]
    unfold Worker.afterAnswer
    split
    · exact ⟨⟨⟨[], rfl⟩, fun _ ↦ hlast⟩, rfl, rfl⟩
    · split
      · exact ⟨⟨⟨[], rfl⟩, fun _ ↦ hlast⟩, rfl, rfl⟩
      · exact ⟨fun _ ↦ hlast, rfl, rfl⟩
  obtain ⟨hcounts, hpending, hholding⟩ := hanswer
  refine ⟨exec_snoc_eq_some.mpr ⟨s, h.reached, ht⟩, h.tracked.step ht, ?_, ?_, ?_, ?_, ?_⟩
  · rw [hsub]
    exact h.grown
  · rw [hbs]
    exact hcounts
  · refine ⟨new ++ [⟨d, input, batch.length, cfg.inputElems, cfg.outputElems, answer⟩], ?_, ?_, ?_⟩
    · rw [hct, hnew, List.append_assoc]
    · rw [hbs, hpending, ← hmap, List.map_append, List.append_nil, List.map_singleton, ← hfilter]
      rfl
    · rw [hxs, List.length_append, List.length_append, htimes]
      rfl
  · rw [hacc, hholding, hq]
    have hheld := h.held
    rw [hw] at hheld
    exact hheld
  · rw [hbs, hacc]
    exact h.counted

/-- A drained batch is at most as large as configured. -/
theorem History.poll (h : History cfg s₀ es s) {p : WaitPoint}
    {o : WaitOutcome (InferenceRequest F)} {q : RequestQueue (InferenceRequest F)}
    (hw : s.worker = .waiting p)
    (hq : s.queue.waitAndDrain cfg.maxBatchSize cfg.maxWait p = some (o, q))
    (ht : s.step cfg .poll = some (s.pollStep o q)) :
    History cfg s₀ (es ++ [Event.poll]) (s.pollStep o q) := by
  obtain ⟨-, hcalls, hsub⟩ := pollStep_stats s o q
  have hpending : (s.pollStep o q).worker.pending = s.worker.pending := by
    rw [hw]
    unfold pollStep
    split <;> rfl
  have hin {x : InferenceRequest F} (hx : x ∈ s.queue.queue) :
      x ∈ s.worker.holding ++ s.queue.queue := List.mem_append_right _ hx
  rcases RequestQueue.waitAndDrain_cases hq with ⟨rfl, -, -, -, rfl⟩ | ⟨rfl, -, -, -, rfl⟩ |
    ⟨rfl, -, -, -, rfl⟩ | ⟨rfl, -, rfl⟩
  · exact h.frame ht rfl rfl hsub hcalls hpending trivial fun _ hx ↦ hin hx
  · exact h.frame ht rfl rfl hsub hcalls hpending trivial fun _ hx ↦ hin hx
  · exact h.frame ht rfl rfl hsub hcalls hpending trivial fun _ hx ↦ hin hx
  · have hsplit := List.take_append_drop cfg.maxBatchSize s.queue.queue
    cases hb : s.queue.queue.take cfg.maxBatchSize with
    | nil =>
      rw [hb] at ht hsub hcalls hpending
      refine h.frame ht rfl rfl hsub hcalls hpending trivial ?_
      intro x hx
      exact hin (List.mem_of_mem_drop hx)
    | cons req rest =>
      rw [hb] at ht hsub hcalls hpending hsplit
      refine h.frame ht rfl rfl hsub hcalls hpending ⟨?_, [], rfl, rfl⟩ ?_
      · rw [← hb, List.length_take]
        exact Nat.min_le_left _ _
      · intro x hx
        rw [← hsplit]
        exact List.mem_append_right _ hx

theorem History.filter (h : History cfg s₀ es s) {d todo batch : List (InferenceRequest F)}
    (hw : s.worker = .filtering d todo batch)
    (ht : s.step cfg .filter = some (s.filterStep cfg d todo batch)) :
    History cfg s₀ (es ++ [Event.filter]) (s.filterStep cfg d todo batch) := by
  obtain ⟨-, hcalls, hsub⟩ := filterStep_stats cfg s d todo batch
  obtain ⟨⟨-, -, hqueue⟩, -⟩ := filterStep_frame cfg s d todo batch
  have hcounts := h.worker
  rw [hw] at hcounts
  obtain ⟨hlen, seen, hseen, hbatch⟩ := hcounts
  have hnext : (s.filterStep cfg d todo batch).worker.Counts cfg (countedBatches cfg s₀ es) ∧
      (s.filterStep cfg d todo batch).worker.pending = [] ∧
      ∀ x ∈ (s.filterStep cfg d todo batch).worker.holding, x ∈ batch ++ todo := by
    cases todo with
    | nil =>
      rw [List.append_nil] at hseen
      cases hb : batch with
      | nil => exact ⟨trivial, rfl, fun _ hx ↦ absurd hx List.not_mem_nil⟩
      | cons req rest =>
        rw [hb] at hbatch
        refine ⟨⟨hlen, hseen ▸ hbatch, by simp⟩, rfl, ?_⟩
        intro x hx
        exact List.mem_append_left _ hx
    | cons req rest =>
      cases hsz : wellSized cfg req with
      | true =>
        simp only [filterStep, hsz, ↓reduceIte]
        refine ⟨⟨hlen, seen ++ [req], by simp [hseen], ?_⟩, rfl, ?_⟩
        · simp [hbatch, List.filter_append, hsz]
        · intro x hx
          rw [Worker.holding, List.append_assoc] at hx
          exact hx
      | false =>
        have hfresh : s.satisfied req.resultPromise = false := by
          apply h.tracked.not_satisfied
          simp [hw, Worker.holding]
        simp only [filterStep, hsz, hfresh, Bool.false_eq_true, ↓reduceIte]
        refine ⟨⟨hlen, seen ++ [req], by simp [hseen], ?_⟩, rfl, ?_⟩
        · simp [hbatch, List.filter_append, hsz]
        · intro x hx
          rcases List.mem_append.mp hx with hx | hx
          · exact List.mem_append_left _ hx
          · exact List.mem_append_right _ (List.mem_cons_of_mem req hx)
  obtain ⟨hnew, hpending, hholding⟩ := hnext
  refine h.frame ht rfl rfl hsub hcalls (by rw [hpending, hw]; rfl) hnew ?_
  intro x hx
  rw [hqueue, List.mem_append] at hx
  rw [hw, List.mem_append]
  exact hx.imp (hholding x) id

theorem History.deliver (h : History cfg s₀ es s) {d batch : List (InferenceRequest F)}
    {out : FloatVec F} {i : Nat} (hw : s.worker = .delivering d batch out i)
    (ht : s.step cfg .deliver = some (s.deliverStep cfg d batch out i)) :
    History cfg s₀ (es ++ [Event.deliver]) (s.deliverStep cfg d batch out i) := by
  have hlast := h.worker
  rw [hw] at hlast
  cases hi : batch[i]? with
  | none =>
    simp only [deliverStep, hi] at ht ⊢
    refine h.frame ht rfl rfl rfl rfl (by rw [hw]; rfl) trivial ?_
    intro x hx
    exact List.mem_append_right _ hx
  | some req =>
    have hfresh : s.satisfied req.resultPromise = false := by
      apply h.tracked.not_satisfied
      rw [hw]
      exact mem_holding_delivering hi
    have hdrop := drop_of_getElem? hi
    simp only [deliverStep, hi, hfresh, Bool.false_eq_true, ↓reduceIte] at ht ⊢
    refine h.frame ht rfl rfl rfl rfl (by rw [hw]; rfl) ?_ ?_
    · intro _
      exact hlast (by rw [hdrop]; simp)
    · intro x hx
      rw [hw, Worker.holding, hdrop]
      exact List.mem_cons_of_mem req hx

theorem History.fail (h : History cfg s₀ es s) {d batch todo : List (InferenceRequest F)}
    {eptr : CppException} (hw : s.worker = .failing d batch todo eptr)
    (ht : s.step cfg .fail = some (s.failStep d batch todo eptr)) :
    History cfg s₀ (es ++ [Event.fail]) (s.failStep d batch todo eptr) := by
  have hcounts := h.worker
  rw [hw] at hcounts
  obtain ⟨⟨failed, hfailed⟩, hlast⟩ := hcounts
  cases todo with
  | nil =>
    refine h.frame ht rfl rfl rfl rfl (by rw [hw]; rfl) trivial ?_
    intro x hx
    exact List.mem_append_right _ hx
  | cons req rest =>
    have hfresh : s.satisfied req.resultPromise = false := by
      apply h.tracked.not_satisfied
      simp [hw, Worker.holding]
    simp only [failStep, hfresh, Bool.false_eq_true, ↓reduceIte] at ht ⊢
    refine h.frame ht rfl rfl rfl rfl (by rw [hw]; rfl) ⟨⟨failed ++ [req], ?_⟩, ?_⟩ ?_
    · rw [hfailed, List.append_assoc]
      rfl
    · intro _
      exact hlast (by simp)
    · intro x hx
      rw [hw]
      exact List.mem_cons_of_mem req hx

/-- Every event keeps the history. -/
theorem History.step (h : History cfg s₀ es s) (ht : s.step cfg e = some t) :
    History cfg s₀ (es ++ [e]) t := by
  have hall : ∀ x ∈ s.worker.holding ++ s.queue.queue, x ∈ s.worker.holding ++ s.queue.queue :=
    fun _ hx ↦ hx
  have hqueue : ∀ x ∈ s.queue.queue, x ∈ s.worker.holding ++ s.queue.queue :=
    fun _ hx ↦ List.mem_append_right _ hx
  have hwake : ∀ x ∈ s.worker.wake.holding ++ s.queue.queue,
      x ∈ s.worker.holding ++ s.queue.queue := by
    rw [wake_holding]
    exact hall
  cases step_cases ht with
  | submitOpen requestId inputData arrivalTime hq => exact h.submit ht rfl rfl rfl rfl rfl rfl rfl
  | submitStopped requestId inputData arrivalTime hq =>
    exact h.submit ht rfl rfl rfl rfl rfl rfl (List.append_nil _).symm
  | notifyOne hn =>
    exact h.frame ht rfl rfl rfl rfl (Worker.pending_wake _) h.worker.wake hwake
  | wake p hw hp => exact h.frame ht rfl rfl rfl rfl (by rw [hw]; rfl) trivial hqueue
  | expire hw => exact h.frame ht rfl rfl rfl rfl (by rw [hw]; rfl) trivial hqueue
  | resetStats => exact h.frame ht rfl rfl rfl rfl rfl h.worker hall
  | startAgain hc hr => exact h.frame ht rfl rfl rfl rfl rfl h.worker hall
  | start hc hr => exact h.frame ht rfl rfl rfl rfl rfl h.worker hall
  | spawn hc hw => exact h.frame ht rfl rfl rfl rfl (by rw [hw]; rfl) trivial hqueue
  | spawnOver hc hw => exact absurd (h.tracked.spawnable (.inl hc)) hw
  | stop hc => exact h.frame ht rfl rfl rfl rfl rfl h.worker hall
  | shutdown hc => exact h.frame ht rfl rfl rfl rfl rfl h.worker hall
  | notifyAll hc =>
    exact h.frame ht rfl rfl rfl rfl (Worker.pending_wake _) h.worker.wake hwake
  | join hc hw =>
    refine h.frame ht rfl rfl rfl rfl ?_ trivial hqueue
    rcases hw with hw | hw
    · rw [hw]
    · rw [hw]
      rfl
  | worker hw =>
    cases hw with
    | poll p o q hw hq => exact h.poll hw hq ht
    | checkRunning hw =>
      refine h.frame ht rfl rfl rfl rfl ?_ ?_ ?_
      · rw [hw]
        cases s.running <;> rfl
      · cases s.running <;> trivial
      · cases s.running <;> exact hqueue
    | filter d todo batch hw => exact h.filter hw ht
    | account d batch dequeuedAt hw => exact h.account hw ht
    | infer d batch input answer execUs hw => exact h.infer hw ht rfl rfl rfl rfl
    | deliver d batch out i hw => exact h.deliver hw ht
    | fail d batch todo eptr hw => exact h.fail hw ht

theorem history_exec (h₀ : History cfg s₀ [] s₀) (h : exec (step cfg) s₀ es = some s) :
    History cfg s₀ es s :=
  exec_induction (P := fun es s ↦ History cfg s₀ es s) h₀ (fun _ _ _ _ _ hh ht ↦ hh.step ht) h

/-! ### Starting points -/

theorem history_init (cfg : SchedulerConfig) : History cfg (init : Scheduler F) [] init :=
  .start tracked_init trivial rfl rfl

/-- All futures given out are resolved. -/
def Settled (s : Scheduler F) : Prop := ∀ req ∈ s.accepted, s.satisfied req.resultPromise = true

/-- Then nothing is queued and nothing is in the worker's hands. -/
theorem Tracked.settled (h : s.Tracked) (hs : s.Settled) :
    s.worker.holding = [] ∧ s.queue.queue = [] := by
  have hdrained (p : Nat) (hp : s.satisfied p = true) :
      p ∈ s.drains.flatten.map (·.resultPromise) := by
    rw [satisfied_iff] at hp
    exact h.custody.subset (List.mem_append_left _ hp)
  refine ⟨?_, ?_⟩
  · apply List.eq_nil_iff_forall_not_mem.mpr
    intro req hreq
    have hin : req.resultPromise ∈ s.drains.flatten.map (·.resultPromise) :=
      h.custody.subset (List.mem_append_right _ (List.mem_map_of_mem hreq))
    obtain ⟨x, hx, heq⟩ := List.mem_map.mp hin
    have hacc : x ∈ s.accepted := by
      rw [← h.fifo]
      exact List.mem_append_left _ hx
    have hsat := hs x hacc
    rw [heq, h.not_satisfied hreq] at hsat
    cases hsat
  · apply List.eq_nil_iff_forall_not_mem.mpr
    intro req hreq
    have hacc : req ∈ s.accepted := by
      rw [← h.fifo]
      exact List.mem_append_right _ hreq
    have hnodup := h.accepted_nodup
    rw [← h.fifo, List.map_append] at hnodup
    exact (List.nodup_append.mp hnodup).2.2 _ (hdrained _ (hs req hacc)) _
      (List.mem_map_of_mem hreq) rfl

/-- A reset when all futures are resolved is a starting point. -/
theorem History.reset (h : History cfg s₀ es s) (hs : s.Settled) :
    History cfg { s with stats := {} } [] { s with stats := {} } := by
  obtain ⟨hholding, hqueue⟩ := h.tracked.settled hs
  have hreset : s.step cfg .resetStats = some { s with stats := {} } := rfl
  have htracked := h.tracked.step hreset
  have hworker := h.worker
  have hnone : s.worker.Counts cfg [] ∧ s.worker.pending = [] := by
    cases hw : s.worker with
    | executing d batch input =>
      rw [hw] at hworker hholding
      exact absurd hholding hworker.2.1
    | batched d batch =>
      rw [hw] at hworker
      exact ⟨hworker, rfl⟩
    | filtering d todo batch =>
      rw [hw] at hworker
      exact ⟨hworker, rfl⟩
    | delivering d batch out i =>
      rw [hw] at hholding
      exact ⟨fun hne ↦ absurd hholding hne, rfl⟩
    | failing d batch todo e =>
      rw [hw] at hworker hholding
      exact ⟨⟨hworker.1, fun hne ↦ absurd hholding hne⟩, rfl⟩
    | _ => exact ⟨trivial, rfl⟩
  refine .start htracked hnone.1 hnone.2 ?_
  change s.worker.holding ++ s.queue.queue = []
  rw [hholding, hqueue]
  rfl

/-! ### Exact counters -/

/-- The promise a step resolves is of a request in the worker's hands, a mis-sized one or one of the
batch it hands out. -/
theorem resolved_step (h : s.Tracked) (ht : s.step cfg e = some t) {p : Nat} {out : Outcome F}
    (hres : t.resolved = s.resolved ++ [(p, out)]) :
    ∃ req ∈ s.worker.holding, req.resultPromise = p ∧
      (wellSized cfg req = false ∨ (∃ d batch out i, s.worker = .delivering d batch out i) ∨
        ∃ d batch todo eptr, s.worker = .failing d batch todo eptr) := by
  have hkeep (hsame : t.resolved = s.resolved) : False := by
    rw [hsame] at hres
    exact List.cons_ne_nil _ _ (List.append_right_eq_self.mp hres.symm)
  have hone {q : Nat} {o : Outcome F} (heq : t.resolved = s.resolved ++ [(q, o)]) : q = p := by
    rw [hres, List.append_cancel_left_eq, List.cons.injEq, Prod.mk.injEq] at heq
    exact heq.1.1.symm
  cases step_cases ht with
  | worker hw =>
    cases hw with
    | poll p' o q hw hq =>
      refine absurd ?_ hkeep
      unfold pollStep
      split <;> rfl
    | filter d todo batch hw =>
      cases todo with
      | nil => exact absurd rfl hkeep
      | cons req rest =>
        have hmem : req ∈ s.worker.holding := by simp [hw, Worker.holding]
        have hfresh := h.not_satisfied hmem
        cases hsz : wellSized cfg req with
        | true =>
          simp only [filterStep, hsz, ↓reduceIte] at hkeep
          exact (hkeep trivial).elim
        | false =>
          simp only [filterStep, hsz, hfresh, Bool.false_eq_true, ↓reduceIte] at hone
          exact ⟨req, hmem, hone rfl, .inl hsz⟩
    | deliver d batch out' i hw =>
      cases hi : batch[i]? with
      | none =>
        simp only [deliverStep, hi] at hkeep
        exact (hkeep trivial).elim
      | some req =>
        have hmem : req ∈ s.worker.holding := by
          rw [hw]
          exact mem_holding_delivering hi
        have hfresh := h.not_satisfied hmem
        simp only [deliverStep, hi, hfresh, Bool.false_eq_true, ↓reduceIte] at hone
        exact ⟨req, hmem, hone rfl, .inr (.inl ⟨d, batch, out', i, hw⟩)⟩
    | fail d batch todo eptr hw =>
      cases todo with
      | nil => exact absurd rfl hkeep
      | cons req rest =>
        have hmem : req ∈ s.worker.holding := by simp [hw, Worker.holding]
        have hfresh := h.not_satisfied hmem
        simp only [failStep, hfresh, Bool.false_eq_true, ↓reduceIte] at hone
        exact ⟨req, hmem, hone rfl, .inr (.inr ⟨d, batch, req :: rest, eptr, hw⟩)⟩
    | _ => exact absurd rfl hkeep
  | _ => exact absurd rfl hkeep

/-- What the counters of a run from `s₀` are worth. -/
structure CountsExactly (cfg : SchedulerConfig) (s₀ : Scheduler F) (es : List (Event F))
    (s : Scheduler F) : Prop where
  /-- the counters are the totals of the batches counted and of their engine times -/
  stats : s.stats = tally (countedBatches cfg s₀ es) (countedTimes cfg s₀ es)
  /-- only well-sized requests submitted since `s₀` are counted -/
  newer : ∀ b ∈ countedBatches cfg s₀ es, ∀ req ∈ b.1,
    req.inputData.length = cfg.inputElems ∧ (req, .ok ()) ∈ s.submits.drop s₀.submits.length
  /-- when a well-sized request is resolved, its batch is counted and so is its engine time -/
  resolved : ∀ e t req out, s.step cfg e = some t →
    t.resolved = s.resolved ++ [(req.resultPromise, out)] → req ∈ s.accepted →
    req.inputData.length = cfg.inputElems →
    (countedTimes cfg s₀ es).length = (countedBatches cfg s₀ es).length ∧
      ∃ batch at', (countedBatches cfg s₀ es).getLast? = some (batch, at') ∧ req ∈ batch
  /-- while no engine call is under way, the batches counted are those of the calls -/
  between : (∀ d batch input, s.worker ≠ .executing d batch input) →
    ∃ new, s.calls = s₀.calls ++ new ∧ s.stats.totalBatches = new.length ∧
      s.stats.totalRequests = (new.map fun c ↦
        c.drained.countP fun req ↦ req.inputData.length == cfg.inputElems).sum ∧
      s.stats.maxBatchSizeSeen = largest (new.map fun c ↦
        c.drained.countP fun req ↦ req.inputData.length == cfg.inputElems)
  requests_le : s.stats.totalRequests ≤ s.stats.totalBatches * s.stats.maxBatchSizeSeen
  batches_le : s.stats.totalBatches * s.stats.maxBatchSizeSeen ≤
    s.stats.totalBatches * cfg.maxBatchSize
  wait_le : s.stats.maxQueueWaitUs ≤ s.stats.totalQueueWaitUs

/-- An accepted request with a promise from `n` on was submitted after the first `n`. -/
private theorem mem_submits_drop (h : s.Tracked) {req : InferenceRequest F} {n : Nat}
    (hreq : req ∈ s.accepted) (hn : n ≤ req.resultPromise) : (req, .ok ()) ∈ s.submits.drop n := by
  obtain ⟨⟨req', r⟩, hmem, rfl⟩ := List.mem_map.mp hreq
  obtain ⟨hin, hok⟩ := List.mem_filter.mp hmem
  have hr : r = .ok () := by
    cases r with
    | ok u => rfl
    | error e => cases hok
  obtain ⟨i, hi⟩ := List.mem_iff_getElem?.mp hin
  have hnum : (s.submits.map fun r ↦ r.1.resultPromise)[i]? = some req'.resultPromise := by
    rw [List.getElem?_map, hi]
    rfl
  rw [h.numbered, List.getElem?_range (List.getElem?_eq_some_iff.mp hi).1,
    Option.some.injEq] at hnum
  subst hr
  refine List.mem_iff_getElem?.mpr ⟨i - n, ?_⟩
  rw [List.getElem?_drop, ← hi]
  congr 1
  dsimp only at hn
  omega

theorem History.countsExactly (h : History cfg s₀ es s) (h₀ : s₀.stats = {})
    (hreset : .resetStats ∉ es) : CountsExactly cfg s₀ es s := by
  have hstats := stats_exec h.reached h₀ hreset
  obtain ⟨new, hnew, hmap, htimes⟩ := h.calls
  have hlengths (hp : s.worker.pending = []) :
      (countedBatches cfg s₀ es).map (·.1.length) =
        new.map fun c ↦ c.drained.countP (wellSized cfg) := by
    rw [hp, List.append_nil] at hmap
    have hlen := congrArg (List.map List.length) hmap
    rw [List.map_map, List.map_map] at hlen
    refine hlen.symm.trans ?_
    apply List.map_congr_left
    intro c _
    exact List.countP_eq_length_filter.symm
  have hcount (hp : s.worker.pending = []) : new.length = (countedBatches cfg s₀ es).length := by
    have hlen := congrArg List.length (hlengths hp)
    rw [List.length_map, List.length_map] at hlen
    exact hlen.symm
  refine ⟨hstats, ?_, ?_, ?_, ?_, ?_, ?_⟩
  · intro b hb req hreq
    obtain ⟨hsz, hacc, hle⟩ := (h.counted b hb).2 req hreq
    exact ⟨beq_iff_eq.mp hsz, mem_submits_drop h.tracked hacc hle⟩
  · intro e t req out ht hres hacc hlen
    have hsz : wellSized cfg req = true := beq_iff_eq.mpr hlen
    obtain ⟨req', hmem, hp, hcase⟩ := resolved_step h.tracked ht hres
    obtain ⟨hacc', -⟩ := h.held req' (List.mem_append_left _ hmem)
    obtain rfl : req' = req := List.inj_on_of_nodup_map h.tracked.accepted_nodup hacc' hacc hp
    have hcounts := h.worker
    rcases hcase with hbad | ⟨d, batch, out', i, hw⟩ | ⟨d, batch, todo, eptr, hw⟩
    · rw [hsz] at hbad
      cases hbad
    · rw [hw] at hmem hcounts
      obtain ⟨at', hlast⟩ := hcounts (List.ne_nil_of_mem hmem)
      exact ⟨htimes.trans (hcount (by rw [hw]; rfl)), batch, at', hlast, List.mem_of_mem_drop hmem⟩
    · rw [hw] at hmem hcounts
      obtain ⟨⟨failed, hfailed⟩, hlast⟩ := hcounts
      obtain ⟨at', hlast⟩ := hlast (List.ne_nil_of_mem hmem)
      refine ⟨htimes.trans (hcount (by rw [hw]; rfl)), batch, at', hlast, ?_⟩
      rw [hfailed]
      exact List.mem_append_right _ hmem
  · intro hidle
    have hp : s.worker.pending = [] := by
      cases hw : s.worker with
      | executing d batch input => exact absurd hw (hidle d batch input)
      | _ => rfl
    rw [hstats, tally]
    dsimp only
    rw [hlengths hp]
    exact ⟨new, hnew, (hcount hp).symm, rfl, rfl⟩
  · rw [hstats]
    have hle := sum_le_length_mul_largest ((countedBatches cfg s₀ es).map (·.1.length))
    rwa [List.length_map] at hle
  · rw [hstats]
    apply Nat.mul_le_mul_left
    apply largest_le
    intro n hn
    obtain ⟨b, hb, rfl⟩ := List.mem_map.mp hn
    exact (h.counted b hb).1
  · rw [hstats]
    exact largest_le_sum _

/-- The counters of every run without `reset_stats` are exact, and so they are after a `reset_stats`
that finds every earlier future resolved, for the requests submitted since; whichever way the engine
answers, its time is counted once. -/
theorem counters_exact (cfg : SchedulerConfig) :
    (∀ (es : List (Event F)) (s : Scheduler F), exec (step cfg) init es = some s →
      .resetStats ∉ es → CountsExactly cfg init es s) ∧
    (∀ (es₁ es₂ : List (Event F)) (s₁ s : Scheduler F), exec (step cfg) init es₁ = some s₁ →
      s₁.Settled → exec (step cfg) s₁ (.resetStats :: es₂) = some s → .resetStats ∉ es₂ →
      CountsExactly cfg { s₁ with stats := {} } es₂ s) ∧
    ∀ (s t : Scheduler F) (d batch : List (InferenceRequest F)) (input : List F)
      (answer : InferenceAnswer F) (afterCall inCatch : Nat),
      s.worker = .executing d batch input →
      s.step cfg (.infer answer (countedReading answer afterCall inCatch)) = some t →
      t.stats = s.stats.recordExec cfg batch answer afterCall inCatch := by
  refine ⟨?_, ?_, ?_⟩
  · intro es s h hreset
    exact (history_exec (history_init cfg) h).countsExactly rfl hreset
  · intro es₁ es₂ s₁ s h₁ hsettled h hreset
    obtain ⟨m, hm, hs⟩ := exec_cons_eq_some.mp h
    cases hm
    have hstart := (history_exec (history_init cfg) h₁).reset hsettled
    exact (history_exec hstart hs).countsExactly rfl hreset
  · intro s t d batch input answer afterCall inCatch hw ht
    simp only [step, workerStep, hw, Option.some.injEq] at ht
    rw [recordExec_eq, ← ht]

/-- Batches of up to three requests of one element. -/
def measuredConfig : SchedulerConfig :=
  { maxBatchSize := 3, maxWait := 0, inputElems := 1, outputElems := 1 }

/-- A probe that waits for 1 µs. -/
def probeRun : List (Event Nat) :=
  [.submit 0 [0] 0, .start, .spawn, .poll, .filter, .filter, .account 1000,
    .infer (.ok ⟨[0], by decide⟩) 4, .deliver, .deliver]

/-- Two requests that wait for 5000 and 3000 µs, with one of the wrong size between them; the engine
throws. -/
def measuredRun : List (Event Nat) :=
  [.submit 1 [3] 2000000, .submit 2 [4, 4] 2500000, .submit 3 [5] 4000000, .poll, .filter, .filter,
    .filter, .filter, .account 7000500, .infer (.error (.other "out of memory")) 9, .fail]

theorem counters_exact_measured :
    ∃ s₁ s, exec (step measuredConfig) init probeRun = some s₁ ∧ s₁.Settled ∧
      CountsExactly measuredConfig init probeRun s₁ ∧ s₁.stats = ⟨1, 1, 1, 1, 1, 4⟩ ∧
      exec (step measuredConfig) s₁ (.resetStats :: measuredRun) = some s ∧
      CountsExactly measuredConfig { s₁ with stats := {} } measuredRun s ∧
      s.stats = ⟨1, 2, 2, 8000, 5000, 9⟩ := by
  have hfacts : (exec (step measuredConfig) init probeRun).bind (fun s₁ ↦
      (exec (step measuredConfig) s₁ (.resetStats :: measuredRun)).map fun s ↦
        (s₁.accepted.all fun req ↦ s₁.satisfied req.resultPromise, s₁.stats, s.stats)) =
      some (true, ⟨1, 1, 1, 1, 1, 4⟩, ⟨1, 2, 2, 8000, 5000, 9⟩) := by
    decide +kernel
  obtain ⟨s₁, h₁, hfacts⟩ := Option.bind_eq_some_iff.mp hfacts
  obtain ⟨s, hs, hfacts⟩ := Option.map_eq_some_iff.mp hfacts
  simp only [Prod.mk.injEq] at hfacts
  obtain ⟨hall, hprobe, hstats⟩ := hfacts
  have hsettled : s₁.Settled := List.all_eq_true.mp hall
  obtain ⟨hfirst, hafter, -⟩ := counters_exact (F := Nat) measuredConfig
  exact ⟨s₁, s, h₁, hsettled, hfirst _ _ h₁ (by simp [probeRun]), hprobe, hs,
    hafter _ _ _ _ h₁ hsettled hs (by simp [measuredRun]), hstats⟩

end Scheduler
end InferenceServer.Batching
