import InferenceServer.Batching.Custody

/-!
# A failure while results are handed out

Library `Batching`. `cpp/src/scheduler/scheduler.cpp:198–224` with an allocation that fails:
building a result copies its row with `logits.assign`, which may throw at any row. The `catch`
block then goes through the whole batch, also through the promises that the loop has satisfied.
-/

namespace InferenceServer.Batching

open InferenceServer.Base InferenceServer.Engine

variable {F : Type}

/-- The steps of `run_loop`. -/
def Event.isWorker : Event F → Bool
  | .poll => true
  | .checkRunning => true
  | .filter => true
  | .account _ => true
  | .infer _ _ => true
  | .deliver => true
  | .fail => true
  | _ => false

/-- An event of the scheduler, or building the next result throws. -/
inductive HandOutEvent (F : Type) where
  | plain (e : Event F)
  | buildThrows (e : CppException)

def HandOutEvent.isWorker : HandOutEvent F → Bool
  | .plain e => e.isWorker
  | .buildThrows _ => true

/-- The worker stands where no other thread moves it. -/
def Worker.isSteady : Worker F → Bool
  | .delivering .. => true
  | .failing .. => true
  | .waiting .entry => true
  | .terminated => true
  | _ => false

namespace Scheduler

/-- One event, with results that cannot be built. -/
def throwStep (cfg : SchedulerConfig) (s : Scheduler F) : HandOutEvent F → Option (Scheduler F)
  | .plain e => s.step cfg e
  | .buildThrows e =>
    match s.worker with
    | .delivering drained batch _ i =>
      if i < batch.length then some { s with worker := .failing drained batch batch e } else none
    | _ => none

/-- What the first `k` requests of a batch are resolved with. -/
def handedOut (cfg : SchedulerConfig) (out : FloatVec F) (batch : List (InferenceRequest F))
    (k : Nat) : List (Nat × Outcome F) :=
  (batch.take k).mapIdx fun i req ↦ (req.resultPromise, .ok (sliceResult cfg out i req))

/-- These requests are resolved with the exception. -/
def failedWith (e : CppException) (todo : List (InferenceRequest F)) : List (Nat × Outcome F) :=
  todo.map fun req ↦ (req.resultPromise, .error e)

/-- The worker's part of a run that throws at row `k` and makes `m` steps of the `catch` block. -/
def catchRun (k m : Nat) (e : CppException) : List (HandOutEvent F) :=
  List.replicate k (HandOutEvent.plain .deliver) ++
    HandOutEvent.buildThrows e :: List.replicate m (HandOutEvent.plain .fail)

variable {cfg : SchedulerConfig} {s t : Scheduler F}

theorem throwStep_buildThrows {e : CppException} (h : s.throwStep cfg (.buildThrows e) = some t) :
    ∃ d batch out i, s.worker = .delivering d batch out i ∧ i < batch.length ∧
      t = { s with worker := .failing d batch batch e } := by
  cases hw : s.worker with
  | delivering d batch out i =>
    simp only [throwStep, hw, Option.ite_none_right_eq_some, Option.some.injEq] at h
    exact ⟨d, batch, out, i, rfl, h.1, h.2.symm⟩
  | _ => simp [throwStep, hw] at h

theorem Threads.throwStep {e : HandOutEvent F} (h : s.Threads) (ht : s.throwStep cfg e = some t) :
    t.Threads := by
  cases e with
  | plain e => exact h.step ht
  | buildThrows e =>
    obtain ⟨d, batch, out, i, hw, -, rfl⟩ := throwStep_buildThrows ht
    exact h.keep (by rw [hw]; nofun) rfl rfl

/-- The other threads leave a steady worker and the promises alone. -/
theorem steady_step {e : Event F} (hth : s.Threads) (hw : s.worker.isSteady = true)
    (ht : s.step cfg e = some t) (he : e.isWorker = false) :
    t.worker = s.worker ∧ t.resolved = s.resolved := by
  have hwake : s.worker.wake = s.worker := by
    cases hwk : s.worker with
    | waiting p => cases p <;> first | rfl | (rw [hwk] at hw; cases hw)
    | _ => rfl
  cases step_cases ht with
  | notifyOne hn => exact ⟨hwake, rfl⟩
  | notifyAll hc => exact ⟨hwake, rfl⟩
  | wake p hwk hp =>
    rw [hwk] at hw
    cases p with
    | entry => cases hp
    | _ => cases hw
  | expire hwk =>
    rw [hwk] at hw
    cases hw
  | spawn hc hwk =>
    rw [hwk] at hw
    cases hw
  | spawnOver hc hwk => exact absurd (hth.spawnable (.inl hc)) hwk
  | join hc hwk => rcases hwk with hwk | hwk <;> (rw [hwk] at hw; cases hw)
  | worker hwk => cases hwk <;> cases he
  | _ => exact ⟨rfl, rfl⟩

/-! ### What is reachable -/

/-- Rows that were handed out are resolved. -/
def Delivered (s : Scheduler F) : Prop :=
  ∀ d batch out i, s.worker = .delivering d batch out i →
    ∀ req ∈ batch.take i, s.satisfied req.resultPromise = true

theorem satisfied_resolve (s : Scheduler F) {promise promise' : Nat} (outcome : Outcome F)
    (h : s.satisfied promise = true ∨ promise = promise') :
    (s.resolve promise' outcome).satisfied promise = true := by
  rw [satisfied_iff]
  rcases h with h | rfl
  · rw [satisfied_iff] at h
    simp only [resolve, List.map_append]
    exact List.mem_append_left _ h
  · simp [resolve]

theorem Delivered.of_not_delivering (h : ∀ d batch out i, t.worker ≠ .delivering d batch out i) :
    t.Delivered :=
  fun d batch out i hw ↦ absurd hw (h d batch out i)

theorem Delivered.worker {e : Event F} (h : s.Delivered) (ht : WorkerStep cfg s e t) :
    t.Delivered := by
  cases ht with
  | poll p o q hw hq =>
    refine .of_not_delivering ?_
    unfold pollStep
    split <;> nofun
  | checkRunning hw =>
    refine .of_not_delivering ?_
    dsimp only
    split <;> nofun
  | filter d todo batch hw =>
    refine .of_not_delivering ?_
    unfold filterStep
    split
    · dsimp only
      split <;> nofun
    · split
      · nofun
      · split <;> nofun
  | account d batch dequeuedAt hw => exact .of_not_delivering nofun
  | infer d batch input answer execUs hw =>
    intro d' batch' out i hwt req hreq
    dsimp only [Worker.afterAnswer] at hwt
    split at hwt
    · cases hwt
    · split at hwt
      · cases hwt
      · cases hwt
        cases hreq
  | fail d batch todo eptr hw =>
    refine .of_not_delivering ?_
    unfold failStep
    split
    · nofun
    · split <;> nofun
  | deliver d batch out i hw =>
    unfold deliverStep
    split
    · exact .of_not_delivering nofun
    · next req hi =>
      split
      · exact .of_not_delivering nofun
      · intro d' batch' out' i' hwt req' hreq'
        cases hwt
        change (s.resolve _ _).satisfied _ = true
        rw [List.take_add_one, hi, List.mem_append] at hreq'
        rcases hreq' with hreq' | hreq'
        · exact satisfied_resolve s _ (.inl (h d batch out i hw req' hreq'))
        · rw [Option.toList_some, List.mem_singleton] at hreq'
          exact satisfied_resolve s _ (.inr (congrArg _ hreq'))

theorem Delivered.step {e : Event F} (h : s.Delivered) (ht : s.step cfg e = some t) :
    t.Delivered := by
  have hwake {d batch : List (InferenceRequest F)} {out : FloatVec F} {i : Nat}
      (hw : s.worker.wake = .delivering d batch out i) : s.worker = .delivering d batch out i := by
    cases hwk : s.worker with
    | waiting p =>
      rw [hwk] at hw
      cases hw
    | _ =>
      rw [hwk] at hw
      exact hw
  cases step_cases ht with
  | notifyOne hn => exact fun d batch out i hw ↦ h d batch out i (hwake hw)
  | notifyAll hc => exact fun d batch out i hw ↦ h d batch out i (hwake hw)
  | wake p hw hp => exact .of_not_delivering nofun
  | expire hw => exact .of_not_delivering nofun
  | spawn hc hw => exact .of_not_delivering nofun
  | spawnOver hc hw => exact .of_not_delivering nofun
  | join hc hw => exact .of_not_delivering nofun
  | worker hw => exact h.worker hw
  | _ => exact h

/-- The `catch` block meets a satisfied promise, or has met one. -/
def Doomed (s : Scheduler F) : Prop :=
  s.worker = .terminated ∨
    ∃ d batch req rest e, s.worker = .failing d batch (req :: rest) e ∧
      s.satisfied req.resultPromise = true

theorem workerStep_failing {e : Event F} {d batch todo : List (InferenceRequest F)}
    {ex : CppException} (ht : WorkerStep cfg s e t) (hw : s.worker = .failing d batch todo ex) :
    t = s.failStep d batch todo ex := by
  cases ht with
  | fail d' batch' todo' ex' hw' =>
    rw [hw] at hw'
    cases hw'
    rfl
  | _ => simp_all

theorem workerStep_terminated {e : Event F} (ht : WorkerStep cfg s e t) :
    s.worker ≠ .terminated := by
  cases ht <;> simp_all

/-- There is no way back. -/
theorem Doomed.throwStep {e : HandOutEvent F} (h : s.Doomed) (hth : s.Threads)
    (ht : s.throwStep cfg e = some t) : t.Doomed := by
  have hsteady : s.worker.isSteady = true := by
    rcases h with hw | ⟨d, batch, req, rest, ex, hw, -⟩ <;> (rw [hw]; rfl)
  cases e with
  | buildThrows e =>
    obtain ⟨d, batch, out, i, hw, -, rfl⟩ := throwStep_buildThrows ht
    rcases h with hw' | ⟨d', batch', req, rest, ex, hw', -⟩ <;> (rw [hw] at hw'; cases hw')
  | plain e =>
    cases he : e.isWorker with
    | false =>
      obtain ⟨hw, hres⟩ := steady_step hth hsteady ht he
      unfold Doomed satisfied
      rw [hw, hres]
      exact h
    | true =>
      cases step_cases ht with
      | worker hwk =>
        rcases h with hw | ⟨d, batch, req, rest, ex, hw, hsat⟩
        · exact absurd hw (workerStep_terminated hwk)
        · left
          rw [workerStep_failing hwk hw, failStep, if_pos hsat]
      | _ => cases he

/-- The first failure of a batch leaves the promises where they are. -/
theorem Tracked.buildThrows {d batch : List (InferenceRequest F)} {out : FloatVec F}
    (h : s.Tracked) (hw : s.worker = .delivering d batch out 0) (e : CppException) :
    Tracked { s with worker := .failing d batch batch e } := by
  refine h.move ?_ rfl rfl rfl rfl ?_ nofun
  · exact h.toThreads.keep (by rw [hw]; nofun) rfl rfl
  · rw [hw]
    rfl

/-- A state is in order, or a later row could not be built. -/
theorem reachable_cases {es : List (HandOutEvent F)} (h : exec (throwStep cfg) init es = some s) :
    s.Threads ∧ (s.Tracked ∧ s.Delivered ∨ s.Doomed) := by
  refine exec_preserves (P := fun s ↦ s.Threads ∧ (s.Tracked ∧ s.Delivered ∨ s.Doomed)) ?_ h
    ⟨tracked_init.toThreads, .inl ⟨tracked_init, .of_not_delivering nofun⟩⟩
  rintro s e t ⟨hth, hcase⟩ ht
  refine ⟨hth.throwStep ht, ?_⟩
  rcases hcase with ⟨hk, hd⟩ | hdoom
  · cases e with
    | plain e => exact .inl ⟨hk.step ht, hd.step ht⟩
    | buildThrows e =>
      obtain ⟨d, batch, out, i, hw, hlt, rfl⟩ := throwStep_buildThrows ht
      cases i with
      | zero => exact .inl ⟨hk.buildThrows hw e, .of_not_delivering nofun⟩
      | succ i =>
        cases batch with
        | nil => cases hlt
        | cons req rest =>
          exact .inr (.inr ⟨d, req :: rest, req, rest, e, rfl,
            hd d _ out _ hw req List.mem_cons_self⟩)
  · exact .inr (hdoom.throwStep hth ht)

/-- A batch of which no row has been handed out yet. -/
theorem tracked_of_delivering {es : List (HandOutEvent F)} {d batch : List (InferenceRequest F)}
    {out : FloatVec F} {i : Nat} (h : exec (throwStep cfg) init es = some s)
    (hw : s.worker = .delivering d batch out i) : s.Tracked := by
  obtain ⟨-, ⟨hk, -⟩ | hw' | ⟨d', batch', req, rest, ex, hw', -⟩⟩ := reachable_cases h
  · exact hk
  · rw [hw] at hw'
    cases hw'
  · rw [hw] at hw'
    cases hw'

/-! ### The worker's own steps -/

theorem throwStep_deliver {d batch : List (InferenceRequest F)} {out : FloatVec F} {i : Nat}
    {req : InferenceRequest F} (h : s.Tracked) (hw : s.worker = .delivering d batch out i)
    (hi : batch[i]? = some req) :
    s.throwStep cfg (.plain .deliver) =
      some
        { s with
          worker := .delivering d batch out (i + 1)
          resolved := s.resolved ++ [(req.resultPromise, .ok (sliceResult cfg out i req))] } := by
  have hfresh : s.satisfied req.resultPromise = false := by
    apply h.not_satisfied
    rw [hw]
    exact mem_holding_delivering hi
  simp only [throwStep, step, workerStep, hw, deliverStep, hi, hfresh, Bool.false_eq_true,
    ↓reduceIte, resolve]

theorem handedOut_succ (cfg : SchedulerConfig) (out : FloatVec F)
    {batch : List (InferenceRequest F)} {k : Nat} {req : InferenceRequest F}
    (hk : batch[k]? = some req) :
    handedOut cfg out batch (k + 1) =
      handedOut cfg out batch k ++
        [(req.resultPromise, Except.ok (sliceResult cfg out k req))] := by
  have hlt : k < batch.length := (List.getElem?_eq_some_iff.mp hk).1
  rw [handedOut, handedOut, List.take_add_one, hk, Option.toList_some, List.mapIdx_concat,
    List.length_take, Nat.min_eq_left (Nat.le_of_lt hlt)]

/-- The scheduler when the first `k` rows have been handed out. -/
def afterRows (cfg : SchedulerConfig) (s : Scheduler F) (d batch : List (InferenceRequest F))
    (out : FloatVec F) (k : Nat) : Scheduler F :=
  { s with
    worker := .delivering d batch out k
    resolved := s.resolved ++ handedOut cfg out batch k }

theorem afterRows_zero {d batch : List (InferenceRequest F)} {out : FloatVec F}
    (hw : s.worker = .delivering d batch out 0) : s.afterRows cfg d batch out 0 = s := by
  simp only [afterRows, handedOut, List.take_zero, List.mapIdx_nil, List.append_nil, ← hw]

/-- The rows are handed out one by one. -/
theorem exec_deliver {d batch : List (InferenceRequest F)} {out : FloatVec F} (h : s.Tracked)
    (hw : s.worker = .delivering d batch out 0) {k : Nat} (hk : k ≤ batch.length) :
    exec (throwStep cfg) s (List.replicate k (.plain .deliver)) =
        some (s.afterRows cfg d batch out k) ∧
      (s.afterRows cfg d batch out k).Tracked := by
  induction k with
  | zero =>
    rw [afterRows_zero hw]
    exact ⟨rfl, h⟩
  | succ k ih =>
    obtain ⟨hprev, htracked⟩ := ih (Nat.le_of_succ_le hk)
    have hi : batch[k]? = some batch[k] := List.getElem?_eq_getElem hk
    have hnext : (s.afterRows cfg d batch out k).throwStep cfg (.plain .deliver) =
        some (s.afterRows cfg d batch out (k + 1)) := by
      rw [throwStep_deliver htracked rfl hi]
      simp only [afterRows, handedOut_succ cfg out hi, List.append_assoc]
    have hplain : (s.afterRows cfg d batch out k).step cfg .deliver =
        some (s.afterRows cfg d batch out (k + 1)) := hnext
    refine ⟨?_, htracked.step hplain⟩
    rw [List.replicate_succ', exec_snoc_eq_some]
    exact ⟨_, hprev, hnext⟩

/-- The `catch` block fails the requests one by one. -/
theorem exec_fail {d batch todo : List (InferenceRequest F)} {e : CppException} (h : s.Tracked)
    (hw : s.worker = .failing d batch todo e) :
    exec (throwStep cfg) s (List.replicate (todo.length + 1) (.plain .fail)) =
      some
        { s with worker := .waiting .entry, resolved := s.resolved ++ failedWith e todo } := by
  induction todo generalizing s with
  | nil =>
    have hstep : s.throwStep cfg (.plain .fail) = some { s with worker := .waiting .entry } := by
      simp only [throwStep, step, workerStep, hw, failStep]
    rw [List.length_nil, List.replicate_succ, exec_cons_eq_some]
    refine ⟨_, hstep, ?_⟩
    simp only [List.replicate_zero, exec_nil, failedWith, List.map_nil, List.append_nil]
  | cons req rest ih =>
    have hfresh : s.satisfied req.resultPromise = false := by
      apply h.not_satisfied
      rw [hw]
      exact List.mem_cons_self
    have hstep : s.step cfg .fail =
        some
          { s with
            worker := .failing d batch rest e
            resolved := s.resolved ++ [(req.resultPromise, .error e)] } := by
      simp only [step, workerStep, hw, failStep, hfresh, Bool.false_eq_true, ↓reduceIte, resolve]
    rw [List.length_cons, List.replicate_succ, exec_cons_eq_some]
    refine ⟨_, hstep, ?_⟩
    rw [ih (h.step hstep) rfl]
    simp only [failedWith, List.map_cons, List.append_assoc, List.singleton_append]

/-! ### The other threads meanwhile -/

/-- The two agree on the worker and on the promises. -/
def Alike (s s' : Scheduler F) : Prop := s.worker = s'.worker ∧ s.resolved = s'.resolved

/-- A step of the hand-out or of the `catch` block. -/
def HandsOut (e : HandOutEvent F) : Prop :=
  e = .plain .deliver ∨ e = .plain .fail ∨ ∃ ex, e = .buildThrows ex

theorem handsOut_catchRun {k m : Nat} {ex : CppException} {e : HandOutEvent F}
    (h : e ∈ catchRun k m ex) : HandsOut e := by
  rw [catchRun, List.mem_append, List.mem_cons] at h
  rcases h with h | rfl | h
  · exact .inl (List.eq_of_mem_replicate h)
  · exact .inr (.inr ⟨ex, rfl⟩)
  · exact .inr (.inl (List.eq_of_mem_replicate h))

/-- Such a step reads the worker and the promises only. -/
theorem Alike.step {s' : Scheduler F} {e : HandOutEvent F} (h : Alike s s') (he : HandsOut e)
    (ht : s.throwStep cfg e = some t) :
    t.worker.isSteady = true ∧ ∃ t', s'.throwStep cfg e = some t' ∧ Alike t t' := by
  obtain ⟨hw, hres⟩ := h
  have hsat (promise : Nat) : s'.satisfied promise = s.satisfied promise := by
    rw [satisfied, satisfied, hres]
  rcases he with rfl | rfl | ⟨ex, rfl⟩
  · cases hwk : s.worker with
    | delivering d batch out i =>
      rw [hwk] at hw
      simp only [throwStep, Scheduler.step, workerStep, hwk, Option.some.injEq] at ht
      subst ht
      refine ⟨?_, s'.deliverStep cfg d batch out i, ?_, ?_⟩
      · unfold deliverStep
        split
        · rfl
        · split <;> rfl
      · simp only [throwStep, Scheduler.step, workerStep, ← hw]
      · unfold deliverStep
        split
        · exact ⟨rfl, hres⟩
        · rw [hsat]
          split
          · exact ⟨rfl, hres⟩
          · exact ⟨rfl, congrArg (· ++ _) hres⟩
    | _ => simp [throwStep, Scheduler.step, workerStep, hwk] at ht
  · cases hwk : s.worker with
    | failing d batch todo e =>
      rw [hwk] at hw
      simp only [throwStep, Scheduler.step, workerStep, hwk, Option.some.injEq] at ht
      subst ht
      refine ⟨?_, s'.failStep d batch todo e, ?_, ?_⟩
      · unfold failStep
        split
        · rfl
        · split <;> rfl
      · simp only [throwStep, Scheduler.step, workerStep, ← hw]
      · unfold failStep
        split
        · exact ⟨rfl, hres⟩
        · rw [hsat]
          split
          · exact ⟨rfl, hres⟩
          · exact ⟨rfl, congrArg (· ++ _) hres⟩
    | _ => simp [throwStep, Scheduler.step, workerStep, hwk] at ht
  · obtain ⟨d, batch, out, i, hwk, hlt, rfl⟩ := throwStep_buildThrows ht
    refine ⟨rfl, { s' with worker := .failing d batch batch ex }, ?_, rfl, hres⟩
    rw [hwk] at hw
    simp only [throwStep, ← hw, hlt, ↓reduceIte]

/-- Without the other threads' events the worker and the promises come out the same. -/
theorem Alike.exec {s' : Scheduler F} {es : List (HandOutEvent F)} (h : Alike s s')
    (hth : s.Threads) (hsteady : s.worker.isSteady = true)
    (hes : ∀ e ∈ es.filter HandOutEvent.isWorker, HandsOut e)
    (ht : exec (throwStep cfg) s es = some t) :
    ∃ t', Base.exec (throwStep cfg) s' (es.filter HandOutEvent.isWorker) = some t' ∧
      Alike t t' := by
  induction es generalizing s s' with
  | nil =>
    cases ht
    exact ⟨s', rfl, h⟩
  | cons e es ih =>
    obtain ⟨m, hm, hrest⟩ := exec_cons_eq_some.mp ht
    cases he : e.isWorker with
    | true =>
      rw [List.filter_cons_of_pos he] at hes ⊢
      obtain ⟨hsteady', m', hm', halike⟩ := h.step (hes e List.mem_cons_self) hm
      obtain ⟨t', ht', hend⟩ := ih halike (hth.throwStep hm) hsteady'
        (fun x hx ↦ hes x (List.mem_cons_of_mem _ hx)) hrest
      exact ⟨t', exec_cons_eq_some.mpr ⟨m', hm', ht'⟩, hend⟩
    | false =>
      rw [List.filter_cons_of_neg (by rw [he]; nofun)] at hes ⊢
      cases e with
      | buildThrows ex => cases he
      | plain e =>
        obtain ⟨hw, hres⟩ := steady_step hth hsteady hm he
        refine ih ⟨hw.trans h.1, hres.trans h.2⟩ (hth.throwStep hm) ?_ hes hrest
        rw [hw]
        exact hsteady

/-! ### The whole batch -/

section Batch

variable {d batch : List (InferenceRequest F)} {out : FloatVec F}

/-- Row `k` of a batch cannot be built. -/
theorem exec_buildThrows (h : s.Tracked) (hw : s.worker = .delivering d batch out 0) {k : Nat}
    (hk : k < batch.length) (e : CppException) (rest : List (HandOutEvent F)) :
    exec (throwStep cfg) s
        (List.replicate k (HandOutEvent.plain .deliver) ++ HandOutEvent.buildThrows e :: rest) =
      exec (throwStep cfg)
        { s.afterRows cfg d batch out k with worker := .failing d batch batch e } rest := by
  rw [Base.exec_append, (exec_deliver h hw (Nat.le_of_lt hk)).1]
  simp only [Option.bind_some, exec, throwStep, afterRows, hk, ↓reduceIte]

/-- After a later row the `catch` block meets a satisfied promise at once. -/
theorem exec_catch_later (h : s.Tracked) (hw : s.worker = .delivering d batch out 0) {k : Nat}
    (hk : k < batch.length) (hpos : 0 < k) (e : CppException) :
    ∃ t, exec (throwStep cfg) s (catchRun k 1 e) = some t ∧ t.worker = .terminated := by
  cases batch with
  | nil => cases hk
  | cons req rest =>
    cases k with
    | zero => cases hpos
    | succ k =>
      have hsat : satisfied (s.afterRows cfg d (req :: rest) out (k + 1)) req.resultPromise =
          true := by
        rw [satisfied_iff]
        simp [afterRows, handedOut]
      rw [catchRun, exec_buildThrows h hw hk]
      refine ⟨{ s.afterRows cfg d (req :: rest) out (k + 1) with worker := .terminated }, ?_, rfl⟩
      rw [List.replicate_one, exec_cons_eq_some]
      refine ⟨_, ?_, rfl⟩
      exact congrArg some (if_pos hsat)

/-- At the first row the `catch` block fails the whole batch. -/
theorem exec_catch_first (h : s.Tracked) (hw : s.worker = .delivering d batch out 0)
    (hn : 0 < batch.length) (e : CppException) :
    exec (throwStep cfg) s (catchRun 0 (batch.length + 1) e) =
      some
        { s with worker := .waiting .entry, resolved := s.resolved ++ failedWith e batch } := by
  have htracked := h.buildThrows hw e
  rw [catchRun, exec_buildThrows h hw hn, afterRows_zero hw, exec_fail htracked rfl]

/-- The worker's own steps at the first row keep track of every promise. -/
theorem tracked_catch_first (h : s.Tracked) (hw : s.worker = .delivering d batch out 0)
    (hn : 0 < batch.length) {m : Nat} {e : CppException}
    (ht : exec (throwStep cfg) s (catchRun 0 m e) = some t) : t.Tracked := by
  rw [catchRun, exec_buildThrows h hw hn, afterRows_zero hw] at ht
  refine exec_preserves_along (C := fun _ x ↦ x = .plain .fail) ?_ ht
    (along_of_forall (fun x hx _ ↦ List.eq_of_mem_replicate hx) _) (h.buildThrows hw e)
  rintro s' _ t' rfl hs' ht'
  have hplain : s'.step cfg .fail = some t' := ht'
  exact hs'.step hplain

/-- A failure while results are handed out resolves every promise of the batch once, and leaves
the worker to go on, exactly when it comes at the first row: with any moves of the other threads
in between, no exception leaves `run_loop` and the worker gets to its next batch with the rows
before `k` answered and the others failed. -/
theorem hand_out_failure_iff {es : List (HandOutEvent F)}
    (hs : exec (throwStep cfg) init es = some s) (hw : s.worker = .delivering d batch out 0)
    {k : Nat} (hk : k < batch.length) (e : CppException) :
    ((∀ m fs t, exec (throwStep cfg) s fs = some t →
        fs.filter HandOutEvent.isWorker = catchRun k m e → t.worker ≠ .terminated) ∧
      ∃ m,
        (∃ fs t, exec (throwStep cfg) s fs = some t ∧
          fs.filter HandOutEvent.isWorker = catchRun k m e) ∧
        ∀ fs t, exec (throwStep cfg) s fs = some t →
          fs.filter HandOutEvent.isWorker = catchRun k m e →
          t.worker = .waiting .entry ∧
            t.resolved = s.resolved ++ handedOut cfg out batch k ++ failedWith e (batch.drop k) ∧
            (t.resolved.map Prod.fst).Nodup) ↔
      k = 0 := by
  have h := tracked_of_delivering hs hw
  have hth := h.toThreads
  have hsteady : s.worker.isSteady = true := by
    rw [hw]
    rfl
  have hfilter (k m : Nat) :
      (catchRun k m e : List (HandOutEvent F)).filter HandOutEvent.isWorker = catchRun k m e := by
    rw [List.filter_eq_self]
    intro x hx
    rcases handsOut_catchRun hx with rfl | rfl | ⟨ex, rfl⟩ <;> rfl
  -- any run comes out as the worker's own steps do
  have halone {m : Nat} {fs : List (HandOutEvent F)} {t : Scheduler F}
      (ht : exec (throwStep cfg) s fs = some t)
      (hfs : fs.filter HandOutEvent.isWorker = catchRun k m e) :
      ∃ t', exec (throwStep cfg) s (catchRun k m e) = some t' ∧ Alike t t' := by
    rw [← hfs]
    have hself : Alike s s := ⟨rfl, rfl⟩
    refine hself.exec hth hsteady ?_ ht
    rw [hfs]
    exact fun x hx ↦ handsOut_catchRun hx
  constructor
  · rintro ⟨halive, -⟩
    by_contra hne
    obtain ⟨t, ht, hdead⟩ := exec_catch_later h hw hk (Nat.pos_of_ne_zero hne) e
    exact halive 1 _ t ht (hfilter k 1) hdead
  · rintro rfl
    refine ⟨?_, batch.length + 1, ⟨_, _, exec_catch_first h hw hk e, hfilter _ _⟩, ?_⟩
    · intro m fs t ht hfs
      obtain ⟨t', ht', hworker, -⟩ := halone ht hfs
      rw [hworker]
      exact (tracked_catch_first h hw hk ht').alive
    · intro fs t ht hfs
      obtain ⟨t', ht', hworker, hres⟩ := halone ht hfs
      have htracked := tracked_catch_first h hw hk ht'
      rw [hworker, hres]
      refine ⟨?_, ?_, (List.nodup_append.mp htracked.custody_nodup).1⟩
      · cases (exec_catch_first h hw hk e).symm.trans ht'
        rfl
      · cases (exec_catch_first h hw hk e).symm.trans ht'
        simp only [handedOut, List.take_zero, List.mapIdx_nil, List.append_nil, List.drop_zero]

end Batch

/-- Room for two requests of one element, answered by one element each. -/
def pairConfig : SchedulerConfig :=
  { maxBatchSize := 2, maxWait := 0, inputElems := 1, outputElems := 1 }

/-- Two requests up to the engine's answer. -/
def pairAnswered : List (HandOutEvent Nat) :=
  [.submit 7 [3] 0, .submit 8 [4] 0, .start, .spawn, .poll, .filter, .filter, .filter, .account 0,
    .infer (.ok ⟨[30, 40], by decide⟩) 0].map .plain

def pairState : Scheduler Nat :=
  (exec (throwStep pairConfig) init pairAnswered).get (by decide +kernel)

/-- When the second row cannot be built the worker dies and the second promise is left. -/
theorem later_row_terminates :
    ∃ t, exec (throwStep pairConfig) init
        (pairAnswered ++ catchRun 1 1 (.other "std::bad_alloc")) = some t ∧
      t.worker = .terminated ∧ t.resolved = [(0, .ok ⟨7, [30]⟩)] := by
  have hfacts : (exec (throwStep pairConfig) init
      (pairAnswered ++ catchRun 1 1 (.other "std::bad_alloc"))).map
        (fun t ↦ (t.worker, t.resolved)) = some (.terminated, [(0, .ok ⟨7, [30]⟩)]) := by
    decide +kernel
  obtain ⟨t, ht, heq⟩ := Option.map_eq_some_iff.mp hfacts
  obtain ⟨hworker, hresolved⟩ := Prod.mk.inj heq
  exact ⟨t, ht, hworker, hresolved⟩

theorem hand_out_failure_first_row :
    ∃ t, exec (throwStep pairConfig) pairState (catchRun 0 3 (.other "std::bad_alloc")) = some t ∧
      t.worker ≠ .terminated := by
  have hrun : exec (throwStep pairConfig) init pairAnswered = some pairState :=
    (Option.some_get _).symm
  have hw : pairState.worker =
      .delivering [⟨7, [3], 0, 0⟩, ⟨8, [4], 0, 1⟩] [⟨7, [3], 0, 0⟩, ⟨8, [4], 0, 1⟩]
        ⟨[30, 40], by decide⟩ 0 := by
    decide +kernel
  have hsome : (exec (throwStep pairConfig) pairState
      (catchRun 0 3 (.other "std::bad_alloc"))).isSome = true := by decide +kernel
  obtain ⟨t, ht⟩ := Option.isSome_iff_exists.mp hsome
  have hfirst := (hand_out_failure_iff hrun hw (k := 0) (by decide)
    (.other "std::bad_alloc")).mpr rfl
  exact ⟨t, ht, hfirst.1 3 _ t ht rfl⟩

end Scheduler
end InferenceServer.Batching
