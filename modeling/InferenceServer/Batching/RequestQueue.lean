import Mathlib.Data.List.Basic

/-!
# The request queue

Library `Batching`. `cpp/src/scheduler/request_queue.cpp:16–108`. Each definition is
one mutex-held section. `waitAndDrain` is the consumer's call cut at the points where it
holds no lock: a section ends by blocking again or by returning its batch, and nothing
is assumed about when a blocked consumer is woken.
-/

namespace InferenceServer.Batching

/-- `RequestQueue::queue_` and `stop_requested_`, for any type of request. -/
structure RequestQueue (α : Type) where
  queue : List α := []
  stopRequested : Bool := false
  deriving DecidableEq, Repr

/-- Where a `wait_and_drain` call stands while it does not hold the lock. -/
inductive WaitPoint where
  /-- about to take the lock and test the phase-1 predicate -/
  | entry
  /-- parked in `cv_.wait` -/
  | parked
  /-- parked in `cv_.wait_for`, the batching window -/
  | window
  /-- woken inside the window, about to test the phase-2 predicate -/
  | windowTest
  /-- the window's timeout elapsed, about to take the lock and drain -/
  | windowExpired
  deriving DecidableEq, Repr

/-- How a locked section of `wait_and_drain` ends. -/
inductive WaitOutcome (α : Type) where
  | blocked (p : WaitPoint)
  | returned (batch : List α)
  deriving DecidableEq, Repr

/-- A notification, or a spurious wake-up: a parked call gets to test its predicate. -/
def WaitPoint.wake : WaitPoint → WaitPoint
  | .parked => .entry
  | .window => .windowTest
  | p => p

/-- The call is inside `cv_.wait` or `cv_.wait_for`. -/
def WaitPoint.isParked : WaitPoint → Bool
  | .parked => true
  | .window => true
  | _ => false

/-- The call has opened its batching window: it has seen a request and not drained yet. -/
def WaitPoint.inWindow : WaitPoint → Bool
  | .window => true
  | .windowTest => true
  | .windowExpired => true
  | _ => false

namespace RequestQueue

variable {α : Type}

/-- `RequestQueue::push`, `request_queue.cpp:16–26`: refused once shutdown has won the lock. -/
def push (q : RequestQueue α) (request : α) : Bool × RequestQueue α :=
  if q.stopRequested then (false, q) else (true, { q with queue := q.queue ++ [request] })

/-- `RequestQueue::shutdown`, `request_queue.cpp:102–108`: queued requests stay queued. -/
def shutdown (q : RequestQueue α) : RequestQueue α := { q with stopRequested := true }

/-- The drain loop, `request_queue.cpp:87–90`: move `count` requests from the front. -/
def drainLoop : Nat → List α → List α → List α × List α
  | 0, batch, queue => (batch, queue)
  | _ + 1, batch, [] => (batch, [])
  | count + 1, batch, request :: queue => drainLoop count (batch ++ [request]) queue

/-- The end of `wait_and_drain`, `request_queue.cpp:84–91`. -/
def drain (q : RequestQueue α) (maxBatchSize : Nat) : WaitOutcome α × RequestQueue α :=
  let drained := drainLoop (min maxBatchSize q.queue.length) [] q.queue
  (.returned drained.1, { q with queue := drained.2 })

/-- The predicate of `cv_.wait`, `request_queue.cpp:67–69`. -/
def hasWork (q : RequestQueue α) : Bool := !q.queue.isEmpty || q.stopRequested

/-- The predicate of `cv_.wait_for`, `request_queue.cpp:79–81`. -/
def batchReady (q : RequestQueue α) (maxBatchSize : Nat) : Bool :=
  decide (maxBatchSize ≤ q.queue.length) || q.stopRequested

/-- One locked section of `RequestQueue::wait_and_drain`, `request_queue.cpp:63–92`, from
the point where the call last let go of the lock. A parked call has no section to run. -/
def waitAndDrain (q : RequestQueue α) (maxBatchSize : Nat) (timeout : Int) :
    WaitPoint → Option (WaitOutcome α × RequestQueue α)
  | .entry =>
    if !q.hasWork then some (.blocked .parked, q)
    else if q.queue.isEmpty then some (.returned [], q)
    else if 0 < timeout then
      -- `wait_for` tests its predicate before it blocks, still under the same lock.
      if q.batchReady maxBatchSize then some (q.drain maxBatchSize)
      else some (.blocked .window, q)
    else some (q.drain maxBatchSize)
  | .windowTest =>
    if q.batchReady maxBatchSize then some (q.drain maxBatchSize)
    else some (.blocked .window, q)
  | .windowExpired => some (q.drain maxBatchSize)
  | .parked => none
  | .window => none

/-- The drain loop takes the oldest requests in order and leaves the rest. -/
theorem drainLoop_eq (count : Nat) (batch queue : List α) :
    drainLoop count batch queue = (batch ++ queue.take count, queue.drop count) := by
  induction count generalizing batch queue with
  | zero => simp [drainLoop]
  | succ count ih =>
    cases queue with
    | nil => simp [drainLoop]
    | cons request queue => simp [drainLoop, ih]

/-- A drain returns the `min maxBatchSize size` oldest requests. -/
theorem drain_eq (q : RequestQueue α) (maxBatchSize : Nat) :
    q.drain maxBatchSize =
      (.returned (q.queue.take maxBatchSize),
        { q with queue := q.queue.drop maxBatchSize }) := by
  simp only [drain, drainLoop_eq, List.nil_append, Prod.mk.injEq, WaitOutcome.returned.injEq,
    RequestQueue.mk.injEq, and_true]
  constructor
  · rw [List.take_eq_take_iff]
    omega
  · rcases Nat.le_total maxBatchSize q.queue.length with h | h
    · rw [Nat.min_eq_left h]
    · rw [Nat.min_eq_right h, List.drop_of_length_le h, List.drop_of_length_le (Nat.le_refl _)]

/-- Everything a locked section can do: block with the queue untouched, report shutdown
with an empty queue, or take the oldest requests off a queue. -/
theorem waitAndDrain_cases {q q' : RequestQueue α} {m : Nat} {timeout : Int} {p : WaitPoint}
    {o : WaitOutcome α} (h : q.waitAndDrain m timeout p = some (o, q')) :
    (o = .blocked .parked ∧ p = .entry ∧ q.queue = [] ∧ q.stopRequested = false ∧ q' = q) ∨
    (o = .blocked .window ∧ (p = .entry → q.queue ≠ []) ∧ q.stopRequested = false ∧
      q.queue.length < m ∧ q' = q) ∨
    (o = .returned [] ∧ p = .entry ∧ q.queue = [] ∧ q.stopRequested = true ∧ q' = q) ∨
    (o = .returned (q.queue.take m) ∧ (p = .entry → q.queue ≠ []) ∧
      q' = { q with queue := q.queue.drop m }) := by
  cases p with
  | parked => simp [waitAndDrain] at h
  | window => simp [waitAndDrain] at h
  | windowExpired =>
    simp only [waitAndDrain, drain_eq, Option.some.injEq, Prod.mk.injEq] at h
    exact .inr (.inr (.inr ⟨h.1.symm, by simp, h.2.symm⟩))
  | windowTest =>
    simp only [waitAndDrain, drain_eq, batchReady] at h
    split at h
    · simp only [Option.some.injEq, Prod.mk.injEq] at h
      exact .inr (.inr (.inr ⟨h.1.symm, by simp, h.2.symm⟩))
    · next hr =>
      simp only [Bool.or_eq_true, decide_eq_true_eq, not_or, Bool.not_eq_true, Nat.not_le] at hr
      simp only [Option.some.injEq, Prod.mk.injEq] at h
      exact .inr (.inl ⟨h.1.symm, by simp, hr.2, hr.1, h.2.symm⟩)
  | entry =>
    simp only [waitAndDrain, drain_eq, batchReady, hasWork] at h
    split at h
    · next hw =>
      simp only [Option.some.injEq, Prod.mk.injEq] at h
      simp only [Bool.not_or, Bool.not_not, Bool.and_eq_true, List.isEmpty_iff,
        Bool.not_eq_true'] at hw
      exact .inl ⟨h.1.symm, rfl, hw.1, hw.2, h.2.symm⟩
    · next hw =>
      split at h
      · next he =>
        simp only [Option.some.injEq, Prod.mk.injEq] at h
        rw [List.isEmpty_iff] at he
        have hs : q.stopRequested = true := by simpa [he] using hw
        exact .inr (.inr (.inl ⟨h.1.symm, rfl, he, hs, h.2.symm⟩))
      · next he =>
        rw [List.isEmpty_iff] at he
        split at h
        · split at h
          · simp only [Option.some.injEq, Prod.mk.injEq] at h
            exact .inr (.inr (.inr ⟨h.1.symm, fun _ ↦ he, h.2.symm⟩))
          · next hr =>
            simp only [Bool.or_eq_true, decide_eq_true_eq, not_or, Bool.not_eq_true,
              Nat.not_le] at hr
            simp only [Option.some.injEq, Prod.mk.injEq] at h
            exact .inr (.inl ⟨h.1.symm, fun _ ↦ he, hr.2, hr.1, h.2.symm⟩)
        · simp only [Option.some.injEq, Prod.mk.injEq] at h
          exact .inr (.inr (.inr ⟨h.1.symm, fun _ ↦ he, h.2.symm⟩))

/-- A section that does not start at the entry is inside the window. -/
theorem inWindow_of_waitAndDrain {q : RequestQueue α} {m : Nat} {timeout : Int} {p : WaitPoint}
    {r : WaitOutcome α × RequestQueue α} (h : q.waitAndDrain m timeout p = some r)
    (hp : p ≠ .entry) : p.inWindow = true := by
  cases p with
  | entry => exact absurd rfl hp
  | parked => cases h
  | window => cases h
  | windowTest => rfl
  | windowExpired => rfl

/-- With a window, a call that did not wait it out returns for a full batch or for shutdown. -/
theorem batchReady_of_returned {q q' : RequestQueue α} {m : Nat} {timeout : Int} {p : WaitPoint}
    {batch : List α} (h : q.waitAndDrain m timeout p = some (.returned batch, q'))
    (ht : 0 < timeout) (hp : p ≠ .windowExpired) (hne : q.queue ≠ []) :
    m ≤ q.queue.length ∨ q.stopRequested = true := by
  have hready (hr : q.batchReady m = true) : m ≤ q.queue.length ∨ q.stopRequested = true := by
    simpa [batchReady] using hr
  cases p with
  | parked => simp [waitAndDrain] at h
  | window => simp [waitAndDrain] at h
  | windowExpired => exact absurd rfl hp
  | windowTest =>
    simp only [waitAndDrain] at h
    split at h
    · next hr => exact hready hr
    · simp at h
  | entry =>
    have hfalse : q.queue.isEmpty = false := by simpa using hne
    simp only [waitAndDrain, hasWork, hfalse, ht, Bool.not_false, Bool.true_or, Bool.not_true,
      Bool.false_eq_true, ↓reduceIte] at h
    split at h
    · next hr => exact hready hr
    · simp at h

/-- After shutdown a call that enters does not wait for company. -/
theorem waitAndDrain_stopped {q : RequestQueue α} (hs : q.stopRequested = true)
    (hne : q.queue ≠ []) (m : Nat) (timeout : Int) :
    q.waitAndDrain m timeout .entry = some (q.drain m) := by
  have hfalse : q.queue.isEmpty = false := by simpa using hne
  simp [waitAndDrain, hasWork, batchReady, hs, hfalse]

/-- A call that is not parked can always run its locked section. -/
theorem waitAndDrain_isSome (q : RequestQueue α) (m : Nat) (timeout : Int) {p : WaitPoint}
    (hp : p.isParked = false) : ∃ r, q.waitAndDrain m timeout p = some r := by
  cases p with
  | parked => simp [WaitPoint.isParked] at hp
  | window => simp [WaitPoint.isParked] at hp
  | entry =>
    simp only [waitAndDrain]
    repeat' split
    all_goals exact ⟨_, rfl⟩
  | windowTest =>
    simp only [waitAndDrain]
    split
    all_goals exact ⟨_, rfl⟩
  | windowExpired => exact ⟨_, rfl⟩

end RequestQueue
end InferenceServer.Batching
