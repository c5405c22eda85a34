import InferenceServer.Base.Run
import InferenceServer.Batching.RequestQueue

/-!
# Producers and one consumer on a queue

Library `Batching`. `cpp/src/scheduler/request_queue.cpp:16–108` and
`cpp/include/cuda_db/scheduler/request_queue.hpp:15–26`: any number of producers push, somebody
may shut down, and one consumer calls `wait_and_drain` with a batch size and a timeout of its own
each time. A blocked consumer may be woken at any moment, with or without a notification, and the
window of a call may expire at any moment.
-/

namespace InferenceServer.Batching

open InferenceServer.Base

/-- A `wait_and_drain(max_batch_size, timeout)` call that has not returned. -/
structure WaitCall where
  maxBatchSize : Nat
  timeout : Int
  point : WaitPoint := .entry
  deriving DecidableEq, Repr

/-- A call that has returned: its arguments, the queue as its last section found it, whether its
window had expired, and the batch. -/
structure Returned (α : Type) where
  maxBatchSize : Nat
  timeout : Int
  found : List α
  stopRequested : Bool
  expired : Bool
  batch : List α
  deriving DecidableEq, Repr

/-- What a batch says about the queue it was taken from. -/
structure Returned.Ok {α : Type} (r : Returned α) : Prop where
  oldest : r.batch = r.found.take r.maxBatchSize
  empty : r.batch = [] → r.stopRequested = true ∧ r.found = []
  short : 0 < r.timeout → r.batch ≠ [] → r.batch.length < r.maxBatchSize →
    r.stopRequested = true ∨ r.expired = true

/-- The queue and its consumer. `pushes` are all `push` calls in lock order with what they
returned. -/
structure QueueRun (α : Type) where
  queue : RequestQueue α := {}
  consumer : Option WaitCall := none
  pushes : List (α × Bool) := []
  returns : List (Returned α) := []
  deriving DecidableEq, Repr

/-- What can happen next. -/
inductive QueueEvent (α : Type) where
  | push (request : α)
  | shutdown
  | call (maxBatchSize : Nat) (timeout : Int)
  /-- a notification or a spurious wake-up reaches the consumer -/
  | wake
  /-- the window elapses -/
  | expire
  /-- the consumer takes the lock and runs its next section -/
  | resume
  deriving DecidableEq, Repr

/-- The request of a push. -/
def QueueEvent.pushed {α : Type} : QueueEvent α → Option α
  | .push request => some request
  | _ => none

namespace QueueRun

variable {α : Type}

/-- A section of the call has ended. -/
def follow (s : QueueRun α) (c : WaitCall) : WaitOutcome α × RequestQueue α → QueueRun α
  | (.blocked p, queue) => { s with queue, consumer := some { c with point := p } }
  | (.returned batch, queue) =>
    { s with
      queue
      consumer := none
      returns := s.returns ++
        [{ maxBatchSize := c.maxBatchSize, timeout := c.timeout, found := s.queue.queue,
           stopRequested := s.queue.stopRequested, expired := c.point = .windowExpired, batch }] }

/-- One event. -/
def step (s : QueueRun α) : QueueEvent α → Option (QueueRun α)
  | .push request =>
    some
      { s with
        queue := (s.queue.push request).2
        pushes := s.pushes ++ [(request, (s.queue.push request).1)] }
  | .shutdown => some { s with queue := s.queue.shutdown }
  | .call maxBatchSize timeout =>
    match s.consumer with
    | none => some { s with consumer := some { maxBatchSize, timeout } }
    | some _ => none
  | .wake =>
    match s.consumer with
    | some c =>
      if c.point.isParked then some { s with consumer := some { c with point := c.point.wake } }
      else none
    | none => none
  | .expire =>
    match s.consumer with
    | some c =>
      if c.point = .window then
        some { s with consumer := some { c with point := .windowExpired } }
      else none
    | none => none
  | .resume =>
    match s.consumer with
    | some c => (s.queue.waitAndDrain c.maxBatchSize c.timeout c.point).map (s.follow c)
    | none => none

/-- The accepted pushes in lock order. -/
def accepted (s : QueueRun α) : List α := (s.pushes.filter Prod.snd).map Prod.fst

/-- Every event, with what it needs and what it does. -/
inductive Step (s : QueueRun α) : QueueEvent α → QueueRun α → Prop where
  | accept (request : α) (hq : s.queue.stopRequested = false) :
      Step s (.push request)
        { s with
          queue := { s.queue with queue := s.queue.queue ++ [request] }
          pushes := s.pushes ++ [(request, true)] }
  | refuse (request : α) (hq : s.queue.stopRequested = true) :
      Step s (.push request) { s with pushes := s.pushes ++ [(request, false)] }
  | shutdown : Step s .shutdown { s with queue := s.queue.shutdown }
  | call (m : Nat) (timeout : Int) (hc : s.consumer = none) :
      Step s (.call m timeout) { s with consumer := some { maxBatchSize := m, timeout } }
  | wake (c : WaitCall) (hc : s.consumer = some c) (hp : c.point.isParked = true) :
      Step s .wake { s with consumer := some { c with point := c.point.wake } }
  | expire (c : WaitCall) (hc : s.consumer = some c) (hp : c.point = .window) :
      Step s .expire { s with consumer := some { c with point := .windowExpired } }
  | resume (c : WaitCall) (o : WaitOutcome α) (q : RequestQueue α) (hc : s.consumer = some c)
      (hq : s.queue.waitAndDrain c.maxBatchSize c.timeout c.point = some (o, q)) :
      Step s .resume (s.follow c (o, q))

variable {s t : QueueRun α} {e : QueueEvent α}

theorem step_cases (h : s.step e = some t) : Step s e t := by
  cases e with
  | push request =>
    cases h
    cases hq : s.queue.stopRequested with
    | true =>
      rw [RequestQueue.push, if_pos hq]
      exact .refuse request hq
    | false =>
      rw [RequestQueue.push, if_neg (by rw [hq]; nofun)]
      exact .accept request hq
  | shutdown =>
    cases h
    exact .shutdown
  | call m timeout =>
    cases hc : s.consumer with
    | none =>
      simp only [step, hc, Option.some.injEq] at h
      subst h
      exact .call m timeout hc
    | some c => simp [step, hc] at h
  | wake =>
    cases hc : s.consumer with
    | none => simp [step, hc] at h
    | some c =>
      simp only [step, hc, Option.ite_none_right_eq_some, Option.some.injEq] at h
      obtain ⟨hp, rfl⟩ := h
      exact .wake c hc hp
  | expire =>
    cases hc : s.consumer with
    | none => simp [step, hc] at h
    | some c =>
      simp only [step, hc, Option.ite_none_right_eq_some, Option.some.injEq] at h
      obtain ⟨hp, rfl⟩ := h
      exact .expire c hc hp
  | resume =>
    cases hc : s.consumer with
    | none => simp [step, hc] at h
    | some c =>
      simp only [step, hc, Option.map_eq_some_iff] at h
      obtain ⟨⟨o, q⟩, hq, rfl⟩ := h
      exact .resume c o q hc hq

/-! ### What every run keeps -/

/-- Requests leave in the order they were accepted, and an open window has a request in it. -/
structure Inv (s : QueueRun α) : Prop where
  fifo : (s.returns.map (·.batch)).flatten ++ s.queue.queue = s.accepted
  returned : ∀ r ∈ s.returns, r.Ok
  positive : ∀ c, s.consumer = some c → 1 ≤ c.maxBatchSize
  window : ∀ c, s.consumer = some c → c.point.inWindow = true → s.queue.queue ≠ []

theorem inv_init : ({} : QueueRun α).Inv := ⟨rfl, nofun, nofun, nofun⟩

/-- A section that returns takes the oldest requests and says why it returned. -/
theorem returned_ok (h : s.Inv) {c : WaitCall} (hc : s.consumer = some c) {batch : List α}
    {q : RequestQueue α}
    (hq : s.queue.waitAndDrain c.maxBatchSize c.timeout c.point = some (.returned batch, q)) :
    batch ++ q.queue = s.queue.queue ∧
      (⟨c.maxBatchSize, c.timeout, s.queue.queue, s.queue.stopRequested,
        c.point = .windowExpired, batch⟩ : Returned α).Ok := by
  have hm := h.positive c hc
  rcases RequestQueue.waitAndDrain_cases hq with ⟨ho, -⟩ | ⟨ho, -⟩ | ⟨ho, -, he, hs, rfl⟩ |
    ⟨ho, hne, rfl⟩
  · cases ho
  · cases ho
  · cases ho
    refine ⟨rfl, ?_, fun _ ↦ ⟨hs, he⟩, fun _ hbatch ↦ absurd rfl hbatch⟩
    rw [he, List.take_nil]
  · cases ho
    -- the section is at its entry with a request there, or in a window that has one
    have hqne : s.queue.queue ≠ [] := by
      by_cases hent : c.point = .entry
      · exact hne hent
      · exact h.window c hc (RequestQueue.inWindow_of_waitAndDrain hq hent)
    refine ⟨List.take_append_drop _ _, rfl, ?_, ?_⟩
    · intro hempty
      rcases List.take_eq_nil_iff.mp hempty with hzero | hnil
      · omega
      · exact absurd hnil hqne
    · intro ht _ hshort
      have hlt : (s.queue.queue.take c.maxBatchSize).length < c.maxBatchSize := hshort
      rw [List.length_take] at hlt
      by_cases hp : c.point = .windowExpired
      · exact .inr (decide_eq_true hp)
      · rcases RequestQueue.batchReady_of_returned hq ht hp hqne with hfull | hs
        · omega
        · exact .inl hs

theorem Inv.resume (h : s.Inv) {c : WaitCall} (hc : s.consumer = some c) {o : WaitOutcome α}
    {q : RequestQueue α}
    (hq : s.queue.waitAndDrain c.maxBatchSize c.timeout c.point = some (o, q)) :
    (s.follow c (o, q)).Inv := by
  cases o with
  | returned batch =>
    obtain ⟨hsplit, hok⟩ := returned_ok h hc hq
    refine ⟨?_, ?_, nofun, nofun⟩
    · have hfifo := h.fifo
      rw [← hsplit, ← List.append_assoc] at hfifo
      have hsame : (s.follow c (.returned batch, q)).accepted = s.accepted := rfl
      rw [hsame, ← hfifo, follow, List.map_append, List.flatten_append, List.map_singleton,
        List.flatten_singleton]
    · intro r hr
      rcases List.mem_append.mp hr with hr | hr
      · exact h.returned r hr
      · rw [List.mem_singleton.mp hr]
        exact hok
  | blocked p =>
    have hqueue : q = s.queue := by
      rcases RequestQueue.waitAndDrain_cases hq with ⟨-, -, -, -, rfl⟩ | ⟨-, -, -, -, rfl⟩ |
        ⟨ho, -⟩ | ⟨ho, -⟩
      · rfl
      · rfl
      · cases ho
      · cases ho
    subst hqueue
    refine ⟨h.fifo, h.returned, ?_, ?_⟩
    · rintro _ ⟨⟩
      exact h.positive c hc
    · rintro _ ⟨⟩ hwindow
      rcases RequestQueue.waitAndDrain_cases hq with ⟨ho, -⟩ | ⟨ho, hne, -⟩ | ⟨ho, -⟩ | ⟨ho, -⟩
      · cases ho
        cases hwindow
      · by_cases hent : c.point = .entry
        · exact hne hent
        · exact h.window c hc (RequestQueue.inWindow_of_waitAndDrain hq hent)
      · cases ho
      · cases ho

/-- Every event, when calls ask for at least one request. -/
theorem Inv.step (h : s.Inv) (he : ∀ m timeout, e = .call m timeout → 1 ≤ m)
    (ht : s.step e = some t) : t.Inv := by
  cases step_cases ht with
  | accept request hq =>
    refine ⟨?_, h.returned, h.positive, ?_⟩
    · have hfifo := h.fifo
      simp only [accepted] at hfifo ⊢
      rw [← List.append_assoc, hfifo, List.filter_append, List.map_append]
      rfl
    · intro c hc hwindow
      exact List.append_ne_nil_of_right_ne_nil _ (by simp)
  | refuse request hq =>
    refine ⟨?_, h.returned, h.positive, h.window⟩
    have hfifo := h.fifo
    simp only [accepted] at hfifo ⊢
    rw [hfifo, List.filter_append, List.map_append]
    exact (List.append_nil _).symm
  | shutdown => exact ⟨h.fifo, h.returned, h.positive, h.window⟩
  | call m timeout hc =>
    refine ⟨h.fifo, h.returned, ?_, ?_⟩
    · rintro _ ⟨⟩
      exact he m timeout rfl
    · rintro _ ⟨⟩ hwindow
      cases hwindow
  | wake c hc hp =>
    refine ⟨h.fifo, h.returned, ?_, ?_⟩
    · rintro _ ⟨⟩
      exact h.positive c hc
    · rintro _ ⟨⟩ hwindow
      apply h.window c hc
      cases hpoint : c.point <;> simp_all [WaitPoint.wake, WaitPoint.inWindow]
  | expire c hc hp =>
    refine ⟨h.fifo, h.returned, ?_, ?_⟩
    · rintro _ ⟨⟩
      exact h.positive c hc
    · rintro _ ⟨⟩ -
      apply h.window c hc
      rw [hp]
      rfl
  | resume c o q hc hq => exact h.resume hc hq

/-- Every run whose calls ask for at least one request. -/
theorem inv_exec {es : List (QueueEvent α)} (h : exec step ({} : QueueRun α) es = some s)
    (hes : ∀ m timeout, .call m timeout ∈ es → 1 ≤ m) : s.Inv := by
  refine exec_preserves_along (C := fun _ e ↦ ∀ m timeout, e = .call m timeout → 1 ≤ m)
    (fun _ _ _ he hs ht ↦ hs.step he ht) h (along_of_forall ?_ _) inv_init
  rintro e he _ m timeout rfl
  exact hes m timeout he

/-! ### Pushes -/

/-- The pushes of a run are recorded in their order. -/
theorem pushes_exec {es : List (QueueEvent α)} (h : exec step ({} : QueueRun α) es = some s) :
    s.pushes.map Prod.fst = es.filterMap QueueEvent.pushed := by
  refine exec_induction (P := fun es s ↦ s.pushes.map Prod.fst = es.filterMap QueueEvent.pushed)
    rfl ?_ h
  intro es s e t _ ih ht
  rw [List.filterMap_append, ← ih]
  cases step_cases ht with
  | accept request hq => simp [QueueEvent.pushed]
  | refuse request hq => simp [QueueEvent.pushed]
  | resume c o q hc hq => cases o <;> simp [QueueEvent.pushed, follow]
  | _ => simp [QueueEvent.pushed]

/-- After shutdown nothing more is accepted. -/
theorem accepted_step (hs : s.queue.stopRequested = true) (ht : s.step e = some t) :
    t.queue.stopRequested = true ∧ t.accepted = s.accepted := by
  cases step_cases ht with
  | accept request hq =>
    rw [hs] at hq
    cases hq
  | refuse request hq =>
    refine ⟨hs, ?_⟩
    simp [accepted, List.filter_append]
  | shutdown => exact ⟨rfl, rfl⟩
  | resume c o q hc hq =>
    have hstop : q.stopRequested = true := by
      rcases RequestQueue.waitAndDrain_cases hq with ⟨-, -, -, -, rfl⟩ | ⟨-, -, -, -, rfl⟩ |
        ⟨-, -, -, -, rfl⟩ | ⟨-, -, rfl⟩
      all_goals exact hs
    cases o <;> exact ⟨hstop, rfl⟩
  | _ => exact ⟨hs, rfl⟩

/-- Batches are first in first out, bounded and complete: the batches followed by the queue are
the accepted pushes in lock order; each batch is the `min(m, size)` oldest requests its last
section found; an empty one means shutdown and an empty queue; with a window a short one means
shutdown or an expired window; and no push is accepted after shutdown. -/
theorem batches_fifo_bounded_complete {es : List (QueueEvent α)}
    (h : exec step ({} : QueueRun α) es = some s)
    (hes : ∀ m timeout, .call m timeout ∈ es → 1 ≤ m) :
    s.pushes.map Prod.fst = es.filterMap QueueEvent.pushed ∧
      (s.returns.map (·.batch)).flatten ++ s.queue.queue = s.accepted ∧
      (∀ r ∈ s.returns,
        r.batch.length ≤ r.maxBatchSize ∧
        r.batch = r.found.take (min r.maxBatchSize r.found.length) ∧
        (r.batch = [] → r.stopRequested = true ∧ r.found = []) ∧
        (0 < r.timeout → r.batch ≠ [] → r.batch.length < r.maxBatchSize →
          r.stopRequested = true ∨ r.expired = true)) ∧
      (∀ before after, es = before ++ .shutdown :: after →
        ∃ s', exec step ({} : QueueRun α) before = some s' ∧ s.accepted = s'.accepted) := by
  have hinv := inv_exec h hes
  refine ⟨pushes_exec h, hinv.fifo, ?_, ?_⟩
  · intro r hr
    obtain ⟨hbatch, hempty, hshort⟩ := hinv.returned r hr
    refine ⟨?_, ?_, hempty, hshort⟩
    · rw [hbatch, List.length_take]
      exact Nat.min_le_left _ _
    · rw [hbatch, List.take_eq_take_iff]
      omega
  · rintro before after rfl
    obtain ⟨s', hbefore, hrest⟩ := exec_append_eq_some.mp h
    obtain ⟨m, hm, hafter⟩ := exec_cons_eq_some.mp hrest
    cases hm
    refine ⟨s', hbefore, ?_⟩
    have hkept : s.queue.stopRequested = true ∧ s.accepted = s'.accepted :=
      exec_preserves (P := fun t ↦ t.queue.stopRequested = true ∧ t.accepted = s'.accepted)
        (fun s e t hs ht ↦ ⟨(accepted_step hs.1 ht).1, (accepted_step hs.1 ht).2.trans hs.2⟩)
        hafter ⟨rfl, rfl⟩
    exact hkept.2

/-- Three pushes, a full batch, a window that expires on the last request, and a shutdown that
refuses a fourth. -/
def threePushes : List (QueueEvent Nat) :=
  [.call 2 5, .resume, .push 1, .wake, .push 2, .push 3, .resume, .call 2 5, .resume, .expire,
    .shutdown, .push 4, .resume, .call 2 5, .resume]

theorem batches_fifo_bounded_complete_threePushes :
    ∃ s, exec step ({} : QueueRun Nat) threePushes = some s ∧
      s.returns.map (·.batch) = [[1, 2], [3], []] ∧
      (s.returns.map (·.batch)).flatten ++ s.queue.queue = s.accepted := by
  have hfacts : (exec step ({} : QueueRun Nat) threePushes).map
      (fun s ↦ s.returns.map (·.batch)) = some [[1, 2], [3], []] := by
    decide +kernel
  have hcalls : ∀ e ∈ threePushes, ∀ m timeout, e = .call m timeout → 1 ≤ m := by
    intro e he m timeout rfl
    simp [threePushes] at he
    omega
  obtain ⟨s, hrun, hbatches⟩ := Option.map_eq_some_iff.mp hfacts
  exact ⟨s, hrun, hbatches,
    (batches_fifo_bounded_complete hrun fun m timeout h ↦ hcalls _ h m timeout rfl).2.1⟩

end QueueRun
end InferenceServer.Batching
