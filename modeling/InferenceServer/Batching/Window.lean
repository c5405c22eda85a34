import InferenceServer.Batching.QueueRuns

/-!
# The batching window on a clock

Library `Batching`. `cpp/src/scheduler/request_queue.cpp:36–92` with a clock in nanoseconds: a push
happens at its request's arrival time, and `cv_.wait_for` comes back exactly its timeout after it
was entered when its predicate stays false. Time may pass at any other point. The window is a
relative wait from the moment phase 2 is entered, which is the first arrival only for a call that
was parked on an empty queue.
-/

namespace InferenceServer.Batching

open InferenceServer.Base

/-- A timeout in milliseconds on the clock. -/
def nanos (timeout : Int) : Int := timeout * 1000000

/-- The queue and its consumer on a clock: the time now, and when the latest call was made and
opened its window. -/
structure TimedRun (α : Type) where
  run : QueueRun α := {}
  now : Int := 0
  calledAt : Int := 0
  openedAt : Int := 0
  deriving DecidableEq, Repr

inductive TimedEvent (α : Type) where
  | tick (d : Nat)
  | act (e : QueueEvent α)
  deriving DecidableEq, Repr

namespace TimedRun

variable {α : Type} (arrivalTime : α → Int)

/-- The clock does not pass the end of an open window. -/
def allowsTick (s : TimedRun α) (d : Nat) : Bool :=
  match s.run.consumer with
  | none => true
  | some c =>
    match c.point with
    | .entry => true
    | .parked => true
    | .window => s.now + d ≤ s.openedAt + nanos c.timeout
    | .windowTest => s.now + d ≤ s.openedAt + nanos c.timeout
    | .windowExpired => false

/-- A push happens at its arrival time and a window expires at its end. -/
def onTime (s : TimedRun α) : QueueEvent α → Bool
  | .push request => arrivalTime request = s.now
  | .expire =>
    match s.run.consumer with
    | none => true
    | some c => s.now = s.openedAt + nanos c.timeout
  | _ => true

/-- The clock readings that go with an event. -/
def follow (s : TimedRun α) (e : QueueEvent α) (run : QueueRun α) : TimedRun α where
  run := run
  now := s.now
  calledAt :=
    match e with
    | .call _ _ => s.now
    | _ => s.calledAt
  openedAt :=
    match s.run.consumer, run.consumer with
    | some c, some c' => if c.point = .entry ∧ c'.point = .window then s.now else s.openedAt
    | _, _ => s.openedAt

/-- One event on the clock. -/
def step (s : TimedRun α) : TimedEvent α → Option (TimedRun α)
  | .tick d => if s.allowsTick d then some { s with now := s.now + d } else none
  | .act e => if s.onTime arrivalTime e then (s.run.step e).map (s.follow e) else none

/-- A call that is about to return a short batch has waited its window out. -/
structure WaitedOut (s : TimedRun α) (c : WaitCall) (batch : List α) (oldest : α) : Prop where
  first : batch.head? = some oldest
  queued : s.run.queue.queue.head? = some oldest
  point : c.point = .windowExpired
  called : s.calledAt ≤ s.openedAt
  arrived : arrivalTime oldest ≤ s.openedAt
  returned : s.now = s.openedAt + nanos c.timeout
  timeout : 0 < c.timeout

/-- Where the call that has not returned stands on the clock. -/
structure CallOk (s : TimedRun α) (c : WaitCall) : Prop where
  timeout : 0 < c.timeout
  called : s.calledAt ≤ s.now
  window : c.point.inWindow = true → s.calledAt ≤ s.openedAt ∧ s.openedAt ≤ s.now ∧
    ∃ oldest, s.run.queue.queue.head? = some oldest ∧ arrivalTime oldest ≤ s.openedAt
  expired : c.point = .windowExpired → s.now = s.openedAt + nanos c.timeout

/-- What every run without shutdown keeps when calls have a window. -/
structure Inv (s : TimedRun α) : Prop where
  running : s.run.queue.stopRequested = false
  arrived : ∀ x ∈ s.run.queue.queue, arrivalTime x ≤ s.now
  call : ∀ c, s.run.consumer = some c → CallOk arrivalTime s c

variable {arrivalTime} {s : TimedRun α}

theorem inv_init : Inv arrivalTime ({} : TimedRun α) where
  running := rfl
  arrived := nofun
  call := nofun

theorem Inv.tick (h : Inv arrivalTime s) {d : Nat} (ha : s.allowsTick d = true) :
    Inv arrivalTime { s with now := s.now + d } where
  running := h.running
  arrived x hx := by
    have hle := h.arrived x hx
    change arrivalTime x ≤ s.now + d
    omega
  call c hc := by
    have hcall := h.call c hc
    refine ⟨hcall.timeout, ?_, ?_, ?_⟩
    · have hle := hcall.called
      change s.calledAt ≤ s.now + d
      omega
    · intro hw
      obtain ⟨hcalled, hopened, holdest⟩ := hcall.window hw
      refine ⟨hcalled, ?_, holdest⟩
      change s.openedAt ≤ s.now + d
      omega
    · intro hp
      have hc' : s.run.consumer = some c := hc
      simp [allowsTick, hc', hp] at ha

/-- A push leaves the consumer alone. -/
theorem follow_push (s : TimedRun α) (request : α) (queue : RequestQueue α)
    (pushes : List (α × Bool)) :
    s.follow (.push request) { s.run with queue, pushes } =
      { s with run := { s.run with queue, pushes } } := by
  have hopen (c : WaitCall) : ¬(c.point = .entry ∧ c.point = .window) := by
    rintro ⟨hentry, hwindow⟩
    rw [hentry] at hwindow
    cases hwindow
  cases hs : s.run.consumer <;> simp [follow, hs, hopen]

/-- A call that goes on inside its window, or waits for one. -/
theorem follow_point (e : QueueEvent α) {run : QueueRun α} {c c' : WaitCall}
    (hs : s.run.consumer = some c) (hc : run.consumer = some c')
    (he : ∀ m timeout, e ≠ .call m timeout) :
    s.follow e run =
      { s with
        run
        openedAt := if c.point = .entry ∧ c'.point = .window then s.now else s.openedAt } := by
  cases e with
  | call m timeout => exact absurd rfl (he m timeout)
  | _ => simp [follow, hs, hc]

/-- A call returns. -/
theorem follow_return (e : QueueEvent α) {run : QueueRun α} {c : WaitCall}
    (hs : s.run.consumer = some c) (hc : run.consumer = none)
    (he : ∀ m timeout, e ≠ .call m timeout) : s.follow e run = { s with run } := by
  cases e with
  | call m timeout => exact absurd rfl (he m timeout)
  | _ => simp [follow, hs, hc]

/-- The call moves on inside its window with the same queue. -/
theorem Inv.point (h : Inv arrivalTime s) {c c' : WaitCall} (hc : s.run.consumer = some c)
    (ht : c'.timeout = c.timeout) (hw : c'.point.inWindow = true → c.point.inWindow = true)
    (hexp : c'.point = .windowExpired → s.now = s.openedAt + nanos c.timeout) :
    Inv arrivalTime { s with run := { s.run with consumer := some c' } } where
  running := h.running
  arrived := h.arrived
  call := by
    rintro _ ⟨⟩
    have hcall := h.call c hc
    refine ⟨by rw [ht]; exact hcall.timeout, hcall.called, fun hin ↦ hcall.window (hw hin), ?_⟩
    rw [ht]
    exact hexp

theorem head?_append_of_some {x : α} {l l' : List α} (h : l.head? = some x) :
    (l ++ l').head? = some x := by
  rw [List.head?_append, h]
  rfl

theorem Inv.push (h : Inv arrivalTime s) {request : α} (ha : arrivalTime request = s.now)
    (pushes : List (α × Bool)) :
    Inv arrivalTime
      { s with
        run :=
          { s.run with
            queue := { s.run.queue with queue := s.run.queue.queue ++ [request] }, pushes } } where
  running := h.running
  arrived x hx := by
    rcases List.mem_append.mp hx with hx | hx
    · exact h.arrived x hx
    · rw [List.mem_singleton.mp hx]
      exact Int.le_of_eq ha
  call c hc := by
    have hcall := h.call c hc
    refine ⟨hcall.timeout, hcall.called, ?_, hcall.expired⟩
    intro hw
    obtain ⟨hcalled, hopened, oldest, hhead, harrived⟩ := hcall.window hw
    exact ⟨hcalled, hopened, oldest, head?_append_of_some hhead, harrived⟩

/-- The window opens. -/
theorem Inv.opened (h : Inv arrivalTime s) {c : WaitCall} (hc : s.run.consumer = some c)
    (hne : s.run.queue.queue ≠ []) :
    Inv arrivalTime
      { s with
        run := { s.run with consumer := some { c with point := .window } }
        openedAt := s.now } where
  running := h.running
  arrived := h.arrived
  call := by
    rintro _ ⟨⟩
    have hcall := h.call c hc
    refine ⟨hcall.timeout, hcall.called, ?_, nofun⟩
    intro _
    obtain ⟨oldest, rest, hqueue⟩ := List.exists_cons_of_ne_nil hne
    refine ⟨hcall.called, Int.le_refl _, oldest, ?_, ?_⟩
    · change s.run.queue.queue.head? = _
      rw [hqueue]
      rfl
    · apply h.arrived
      rw [hqueue]
      exact List.mem_cons_self

/-- A section that returns fewer requests than asked for has waited its window out. -/
theorem Inv.waitedOut (h : Inv arrivalTime s) {c : WaitCall} (hc : s.run.consumer = some c)
    {batch : List α} {q : RequestQueue α}
    (hq : s.run.queue.waitAndDrain c.maxBatchSize c.timeout c.point = some (.returned batch, q))
    (hshort : batch.length < c.maxBatchSize) :
    ∃ oldest, WaitedOut arrivalTime s c batch oldest := by
  have hcall := h.call c hc
  rcases RequestQueue.waitAndDrain_cases hq with ⟨ho, -⟩ | ⟨ho, -⟩ | ⟨-, -, -, hstop, -⟩ |
    ⟨ho, hne, -⟩
  · cases ho
  · cases ho
  · rw [h.running] at hstop
    cases hstop
  · cases ho
    rw [List.length_take] at hshort
    have hqne : s.run.queue.queue ≠ [] := by
      by_cases hent : c.point = .entry
      · exact hne hent
      · obtain ⟨-, -, oldest, hhead, -⟩ :=
          hcall.window (RequestQueue.inWindow_of_waitAndDrain hq hent)
        intro hnil
        rw [hnil] at hhead
        cases hhead
    -- a full batch and shutdown are ruled out, so the window has expired
    have hexp : c.point = .windowExpired := by
      by_contra hp
      rcases RequestQueue.batchReady_of_returned hq hcall.timeout hp hqne with hfull | hstop
      · omega
      · rw [h.running] at hstop
        cases hstop
    obtain ⟨hcalled, -, oldest, hhead, harrived⟩ := hcall.window (by rw [hexp]; rfl)
    refine ⟨oldest, ?_, hhead, hexp, hcalled, harrived, hcall.expired hexp, hcall.timeout⟩
    rw [List.take_of_length_le (by omega)]
    exact hhead

theorem Inv.resume (h : Inv arrivalTime s) {c : WaitCall} (hc : s.run.consumer = some c)
    {o : WaitOutcome α} {q : RequestQueue α}
    (hq : s.run.queue.waitAndDrain c.maxBatchSize c.timeout c.point = some (o, q)) :
    Inv arrivalTime (s.follow .resume (s.run.follow c (o, q))) := by
  cases o with
  | returned batch =>
    rw [follow_return .resume hc rfl (fun _ _ heq ↦ by cases heq)]
    have hqueue : q.stopRequested = s.run.queue.stopRequested ∧
        ∀ x ∈ q.queue, x ∈ s.run.queue.queue := by
      rcases RequestQueue.waitAndDrain_cases hq with ⟨ho, -⟩ | ⟨ho, -⟩ | ⟨-, -, -, -, rfl⟩ |
        ⟨-, -, rfl⟩
      · cases ho
      · cases ho
      · exact ⟨rfl, fun x hx ↦ hx⟩
      · exact ⟨rfl, fun x hx ↦ List.mem_of_mem_drop hx⟩
    exact ⟨hqueue.1.trans h.running, fun x hx ↦ h.arrived x (hqueue.2 x hx), by rintro _ ⟨⟩⟩
  | blocked p =>
    rw [follow_point .resume hc rfl (fun _ _ heq ↦ by cases heq)]
    rcases RequestQueue.waitAndDrain_cases hq with ⟨ho, -, -, -, rfl⟩ | ⟨ho, hne, -, -, rfl⟩ |
      ⟨ho, -⟩ | ⟨ho, -⟩
    · cases ho
      rw [if_neg (by rintro ⟨-, hw⟩; cases hw)]
      exact h.point hc rfl (by rintro ⟨⟩) (by rintro ⟨⟩)
    · cases ho
      by_cases hent : c.point = .entry
      · rw [if_pos ⟨hent, rfl⟩]
        exact h.opened hc (hne hent)
      · rw [if_neg fun hboth ↦ hent hboth.1]
        exact h.point hc rfl (fun _ ↦ RequestQueue.inWindow_of_waitAndDrain hq hent)
          (by rintro ⟨⟩)
    · cases ho
    · cases ho

/-- Every event but shutdown, when calls have a window. -/
theorem Inv.step {t : TimedRun α} {e : TimedEvent α} (h : Inv arrivalTime s)
    (hstop : e ≠ .act .shutdown) (hcall : ∀ m timeout, e = .act (.call m timeout) → 0 < timeout)
    (ht : s.step arrivalTime e = some t) : Inv arrivalTime t := by
  cases e with
  | tick d =>
    simp only [TimedRun.step, Option.ite_none_right_eq_some, Option.some.injEq] at ht
    obtain ⟨ha, rfl⟩ := ht
    exact h.tick ha
  | act e =>
    simp only [TimedRun.step, Option.ite_none_right_eq_some, Option.map_eq_some_iff] at ht
    obtain ⟨htime, run, hrun, rfl⟩ := ht
    cases QueueRun.step_cases hrun with
    | accept request hq =>
      rw [follow_push]
      exact h.push (of_decide_eq_true htime) _
    | refuse request hq =>
      rw [h.running] at hq
      cases hq
    | shutdown => exact absurd rfl hstop
    | call m timeout hc =>
      have hfollow : s.follow (.call m timeout)
          { s.run with consumer := some { maxBatchSize := m, timeout } } =
          { s with
            run := { s.run with consumer := some { maxBatchSize := m, timeout } }
            calledAt := s.now } := by
        simp [follow, hc]
      rw [hfollow]
      refine ⟨h.running, h.arrived, ?_⟩
      rintro _ ⟨⟩
      exact ⟨hcall m timeout rfl, Int.le_refl _, by rintro ⟨⟩, by rintro ⟨⟩⟩
    | wake c hc hp =>
      rw [follow_point .wake hc rfl (fun _ _ heq ↦ by cases heq)]
      cases hpoint : c.point with
      | parked =>
        rw [if_neg (by simp)]
        refine h.point hc rfl ?_ ?_ <;> simp [hpoint, WaitPoint.wake, WaitPoint.inWindow]
      | window =>
        rw [if_neg (by simp)]
        refine h.point hc rfl ?_ ?_ <;> simp [hpoint, WaitPoint.wake, WaitPoint.inWindow]
      | _ => simp [hpoint, WaitPoint.isParked] at hp
    | expire c hc hp =>
      rw [follow_point .expire hc rfl (fun _ _ heq ↦ by cases heq), if_neg (by rw [hp]; simp)]
      refine h.point hc rfl (fun _ ↦ by rw [hp]; rfl) ?_
      intro _
      simpa [onTime, hc] using htime
    | resume c o q hc hq => exact h.resume hc hq

theorem inv_exec {es : List (TimedEvent α)} (h : exec (TimedRun.step arrivalTime) {} es = some s)
    (hstop : .act .shutdown ∉ es) (hcall : ∀ m timeout, .act (.call m timeout) ∈ es → 0 < timeout) :
    Inv arrivalTime s := by
  refine exec_preserves_along
    (C := fun _ e ↦ e ≠ .act .shutdown ∧ ∀ m timeout, e = .act (.call m timeout) → 0 < timeout)
    (fun _ _ _ he hs ht ↦ hs.step he.1 he.2 ht) h (along_of_forall ?_ _) inv_init
  intro e he _
  refine ⟨?_, ?_⟩
  · rintro rfl
    exact hstop he
  · rintro m timeout rfl
    exact hcall m timeout he

/-! ### The age of the oldest request -/

/-- No request is queued, or the oldest one arrives now. -/
def Fresh (arrivalTime : α → Int) (s : TimedRun α) : Prop :=
  ∀ oldest, s.run.queue.queue.head? = some oldest → arrivalTime oldest = s.now

/-- No time passes while a call stands in phase 1 and a request is queued: a call that can go on
goes on at once. -/
def Prompt (s : TimedRun α) : TimedEvent α → Prop
  | .tick d =>
    (∃ c, s.run.consumer = some c ∧ c.point.inWindow = false) → s.run.queue.queue ≠ [] → d = 0
  | .act _ => True

/-- A call that has not returned. While it is in phase 1, `prompt` tells whether the oldest request
arrives now; from then on, whether the window opened when it arrived. -/
structure Aging (arrivalTime : α → Int) (calledAt : Int) (m : Nat) (timeout : Int) (prompt : Prop)
    (s : TimedRun α) (c : WaitCall) : Prop where
  consumer : s.run.consumer = some c
  size : c.maxBatchSize = m
  timeout : c.timeout = timeout
  called : s.calledAt = calledAt
  fresh : c.point.inWindow = false → (prompt ↔ s.Fresh arrivalTime)
  opened : c.point.inWindow = true → ∀ oldest, s.run.queue.queue.head? = some oldest →
    (prompt ↔ arrivalTime oldest = s.openedAt)

section Aging

variable {calledAt : Int} {m : Nat} {timeout : Int} {prompt : Prop} {c : WaitCall}

theorem Aging.congr {prompt' : Prop} (h : Aging arrivalTime calledAt m timeout prompt s c)
    (hp : prompt ↔ prompt') : Aging arrivalTime calledAt m timeout prompt' s c where
  consumer := h.consumer
  size := h.size
  timeout := h.timeout
  called := h.called
  fresh hw := hp.symm.trans (h.fresh hw)
  opened hw oldest ho := hp.symm.trans (h.opened hw oldest ho)

/-- Time passes: in phase 1 a queued request gets older. -/
theorem Aging.tick (h : Aging arrivalTime calledAt m timeout prompt s c) (hi : Inv arrivalTime s)
    (d : Nat) :
    Aging arrivalTime calledAt m timeout (prompt ∧ s.Prompt (.tick d))
      { s with now := s.now + d } c where
  consumer := h.consumer
  size := h.size
  timeout := h.timeout
  called := h.called
  fresh hw := by
    rw [h.fresh hw]
    constructor
    · rintro ⟨hfresh, hprompt⟩ oldest ho
      have hzero := hprompt ⟨c, h.consumer, hw⟩ (by rintro hnil; rw [hnil] at ho; cases ho)
      have harrives := hfresh oldest ho
      change arrivalTime oldest = s.now + d
      omega
    · intro hfresh
      have hage (oldest : α) (ho : s.run.queue.queue.head? = some oldest) :
          arrivalTime oldest = s.now ∧ d = 0 := by
        have harrives : arrivalTime oldest = s.now + d := hfresh oldest ho
        have hle := hi.arrived oldest (List.mem_of_head? ho)
        omega
      refine ⟨fun oldest ho ↦ (hage oldest ho).1, ?_⟩
      intro _ hne
      obtain ⟨oldest, rest, hqueue⟩ := List.exists_cons_of_ne_nil hne
      exact (hage oldest (by rw [hqueue]; rfl)).2
  opened hw oldest ho := by
    have hprompt : s.Prompt (.tick d) := by
      rintro ⟨c', hc', hw'⟩
      cases hc'.symm.trans h.consumer
      rw [hw] at hw'
      cases hw'
    rw [and_iff_left hprompt]
    exact h.opened hw oldest ho

/-- A push: the first of an empty queue arrives now, and a later one does not count. -/
theorem Aging.push (h : Aging arrivalTime calledAt m timeout prompt s c) (hi : Inv arrivalTime s)
    {request : α} (ha : arrivalTime request = s.now) (pushes : List (α × Bool)) :
    Aging arrivalTime calledAt m timeout prompt
      { s with
        run :=
          { s.run with
            queue := { s.run.queue with queue := s.run.queue.queue ++ [request] }, pushes } }
      c where
  consumer := h.consumer
  size := h.size
  timeout := h.timeout
  called := h.called
  fresh hw := by
    rw [h.fresh hw]
    unfold Fresh
    cases hqueue : s.run.queue.queue with
    | nil => simp [ha]
    | cons oldest rest => rfl
  opened hw oldest ho := by
    obtain ⟨-, -, first, hfirst, -⟩ := (hi.call c h.consumer).window hw
    apply h.opened hw oldest
    rw [← ho]
    exact hfirst.trans (head?_append_of_some hfirst).symm

/-- The call moves on, in phase 1 or in its window, with the same queue. -/
theorem Aging.point (h : Aging arrivalTime calledAt m timeout prompt s c) {p : WaitPoint}
    (hp : p.inWindow = c.point.inWindow) :
    Aging arrivalTime calledAt m timeout prompt
      { s with run := { s.run with consumer := some { c with point := p } } }
      { c with point := p } where
  consumer := rfl
  size := h.size
  timeout := h.timeout
  called := h.called
  fresh hw := h.fresh (hp.symm.trans hw)
  opened hw := h.opened (hp.symm.trans hw)

/-- The window opens. -/
theorem Aging.open (h : Aging arrivalTime calledAt m timeout prompt s c)
    (hw : c.point.inWindow = false) :
    Aging arrivalTime calledAt m timeout prompt
      { s with
        run := { s.run with consumer := some { c with point := .window } }
        openedAt := s.now }
      { c with point := .window } where
  consumer := rfl
  size := h.size
  timeout := h.timeout
  called := h.called
  fresh hw' := by cases hw'
  opened _ oldest ho := by
    have hhead : s.run.queue.queue.head? = some oldest := ho
    rw [h.fresh hw]
    constructor
    · intro hfresh
      exact hfresh oldest hhead
    · intro harrives x hx
      cases hhead.symm.trans hx
      exact harrives

theorem inWindow_wake (p : WaitPoint) : p.wake.inWindow = p.inWindow := by cases p <;> rfl

/-- Every event of a call that does not return. -/
theorem Aging.step {t : TimedRun α} {e : TimedEvent α}
    (h : Aging arrivalTime calledAt m timeout prompt s c) (hi : Inv arrivalTime s)
    (hstop : e ≠ .act .shutdown) (ht : s.step arrivalTime e = some t)
    (hopen : t.run.returns = s.run.returns) :
    ∃ c', Aging arrivalTime calledAt m timeout (prompt ∧ s.Prompt e) t c' := by
  cases e with
  | tick d =>
    simp only [TimedRun.step, Option.ite_none_right_eq_some, Option.some.injEq] at ht
    obtain ⟨-, rfl⟩ := ht
    exact ⟨c, h.tick hi d⟩
  | act e =>
    have hsame : prompt ↔ prompt ∧ s.Prompt (.act e) := (and_iff_left trivial).symm
    simp only [TimedRun.step, Option.ite_none_right_eq_some, Option.map_eq_some_iff] at ht
    obtain ⟨htime, run, hrun, rfl⟩ := ht
    cases QueueRun.step_cases hrun with
    | accept request hq =>
      rw [follow_push]
      exact ⟨c, (h.push hi (of_decide_eq_true htime) _).congr hsame⟩
    | refuse request hq =>
      rw [hi.running] at hq
      cases hq
    | shutdown => exact absurd rfl hstop
    | call m timeout hc =>
      rw [h.consumer] at hc
      cases hc
    | wake c' hc hp =>
      cases hc.symm.trans h.consumer
      rw [follow_point .wake hc rfl (fun _ _ heq ↦ by cases heq), if_neg ?_]
      · exact ⟨_, (h.point (inWindow_wake c.point)).congr hsame⟩
      · rintro ⟨hentry, -⟩
        rw [hentry] at hp
        cases hp
    | expire c' hc hp =>
      cases hc.symm.trans h.consumer
      rw [follow_point .expire hc rfl (fun _ _ heq ↦ by cases heq), if_neg (by rw [hp]; simp)]
      exact ⟨_, (h.point (p := .windowExpired) (by rw [hp]; rfl)).congr hsame⟩
    | resume c' o q hc hq =>
      cases hc.symm.trans h.consumer
      cases o with
      | returned batch =>
        rw [follow_return .resume hc rfl (fun _ _ heq ↦ by cases heq)] at hopen
        exact absurd hopen (by simp [QueueRun.follow])
      | blocked p =>
        rw [follow_point .resume hc rfl (fun _ _ heq ↦ by cases heq)]
        rcases RequestQueue.waitAndDrain_cases hq with ⟨ho, hentry, -, -, rfl⟩ |
          ⟨ho, -, -, -, rfl⟩ | ⟨ho, -⟩ | ⟨ho, -⟩
        · cases ho
          rw [if_neg (by rintro ⟨-, hw⟩; cases hw)]
          exact ⟨_, (h.point (p := .parked) (by rw [hentry]; rfl)).congr hsame⟩
        · cases ho
          by_cases hentry : c.point = .entry
          · rw [if_pos ⟨hentry, rfl⟩]
            exact ⟨_, (h.open (by rw [hentry]; rfl)).congr hsame⟩
          · rw [if_neg fun hboth ↦ hentry hboth.1]
            have hin := RequestQueue.inWindow_of_waitAndDrain hq hentry
            exact ⟨_, (h.point (p := .window) hin.symm).congr hsame⟩
        · cases ho
        · cases ho

end Aging

/-- Batches are only added. -/
theorem returns_step {t : TimedRun α} {e : TimedEvent α} (h : s.step arrivalTime e = some t) :
    s.run.returns <+: t.run.returns := by
  cases e with
  | tick d =>
    simp only [TimedRun.step, Option.ite_none_right_eq_some, Option.some.injEq] at h
    obtain ⟨-, rfl⟩ := h
    exact List.prefix_refl _
  | act e =>
    simp only [TimedRun.step, Option.ite_none_right_eq_some, Option.map_eq_some_iff] at h
    obtain ⟨-, run, hrun, rfl⟩ := h
    cases QueueRun.step_cases hrun with
    | resume c o q hc hq =>
      cases o with
      | blocked p => exact List.prefix_refl _
      | returned batch => exact List.prefix_append _ _
    | _ => exact List.prefix_refl _

/-- A call that is made and has not returned. -/
theorem aging_exec {u : TimedRun α} {m : Nat} {timeout : Int} {during : List (TimedEvent α)}
    (hu : Inv arrivalTime u) (ht : 0 < timeout)
    (h : exec (TimedRun.step arrivalTime) u (.act (.call m timeout) :: during) = some s)
    (hstop : .act .shutdown ∉ during) (hopen : s.run.returns = u.run.returns) :
    Inv arrivalTime s ∧ ∃ c, Aging arrivalTime u.now m timeout
      (u.Fresh arrivalTime ∧ Along (TimedRun.step arrivalTime) Prompt u
        (.act (.call m timeout) :: during)) s c := by
  induction during using List.reverseRecOn generalizing s with
  | nil =>
    obtain ⟨v, hv, hs⟩ := exec_cons_eq_some.mp h
    cases hs
    refine ⟨hu.step (by rintro ⟨⟩) (by rintro _ _ ⟨⟩; exact ht) hv, ⟨m, timeout, .entry⟩, ?_⟩
    have halong : Along (TimedRun.step arrivalTime) Prompt u [.act (.call m timeout)] :=
      ⟨trivial, fun _ _ ↦ trivial⟩
    simp only [TimedRun.step, Option.ite_none_right_eq_some, Option.map_eq_some_iff] at hv
    obtain ⟨-, run, hrun, rfl⟩ := hv
    cases QueueRun.step_cases hrun with
    | call m timeout hc =>
      rw [and_iff_left halong]
      exact ⟨rfl, rfl, rfl, rfl, fun _ ↦ Iff.rfl, by rintro ⟨⟩⟩
  | append_singleton during e ih =>
    rw [← List.cons_append] at h
    obtain ⟨v, hv, he⟩ := exec_snoc_eq_some.mp h
    rw [List.mem_append, List.mem_singleton, not_or] at hstop
    -- a batch that had come back before would still be there
    have hbefore : u.run.returns <+: v.run.returns :=
      exec_preserves (P := fun v ↦ u.run.returns <+: v.run.returns)
        (fun _ _ _ hp hs ↦ hp.trans (returns_step hs)) hv (List.prefix_refl _)
    have hlast := returns_step he
    rw [hopen] at hlast
    have hsame : v.run.returns = u.run.returns :=
      hlast.eq_of_length_le hbefore.length_le
    obtain ⟨hi, c, hc⟩ := ih hv hstop.1 hsame
    have hcall (m' : Nat) (timeout' : Int) (heq : e = .act (.call m' timeout')) : 0 < timeout' := by
      -- the consumer is still in its call
      subst heq
      simp [TimedRun.step, QueueRun.step, hc.consumer] at he
    refine ⟨hi.step (Ne.symm hstop.2) hcall he, ?_⟩
    obtain ⟨c', hc'⟩ := hc.step hi (Ne.symm hstop.2) he (hopen.trans hsame.symm)
    refine ⟨c', hc'.congr ?_⟩
    rw [← List.cons_append, along_snoc hv, and_assoc]

/-- The window is timed from the moment phase 2 is entered. A call that returns fewer requests than
it asked for, without shutdown and after any trace, is back by the end of a window from the oldest
arrival exactly when that request was not there before the call and no time passed while the call
stood in phase 1 with a request queued. -/
theorem window_from_first_arrival_iff {before during : List (TimedEvent α)} {m : Nat}
    {timeout : Int} {u t : TimedRun α} {r : Returned α}
    (hbefore : exec (TimedRun.step arrivalTime) {} before = some u)
    (hcall : exec (TimedRun.step arrivalTime) u (.act (.call m timeout) :: during) = some s)
    (hopen : s.run.returns = u.run.returns)
    (hback : s.step arrivalTime (.act .resume) = some t)
    (hreturn : t.run.returns = u.run.returns ++ [r]) (hstop : .act .shutdown ∉ before ++ during)
    (hpos : ∀ m' timeout', .act (.call m' timeout') ∈ before → 0 < timeout')
    (htimeout : 0 < timeout) (hshort : r.batch.length < m) :
    ∃ oldest, r.batch.head? = some oldest ∧
      (t.now ≤ max u.now (arrivalTime oldest + nanos timeout) ↔
        u.Fresh arrivalTime ∧ Along (TimedRun.step arrivalTime) Prompt u
          (.act (.call m timeout) :: during)) := by
  rw [List.mem_append, not_or] at hstop
  obtain ⟨hi, c, hc⟩ := aging_exec (inv_exec hbefore hstop.1 hpos) htimeout hcall hstop.2 hopen
  simp only [TimedRun.step, Option.ite_none_right_eq_some, Option.map_eq_some_iff] at hback
  obtain ⟨-, run, hrun, rfl⟩ := hback
  cases QueueRun.step_cases hrun with
  | resume c' o q hc' hq =>
    cases hc'.symm.trans hc.consumer
    cases o with
    | blocked p =>
      have hsame : s.run.returns = u.run.returns ++ [r] := hreturn
      rw [hopen] at hsame
      exact absurd hsame (by simp)
    | returned batch =>
      have hlast : s.run.returns ++ [⟨c.maxBatchSize, c.timeout, s.run.queue.queue,
          s.run.queue.stopRequested, decide (c.point = .windowExpired), batch⟩] =
          u.run.returns ++ [r] := hreturn
      rw [hopen, List.append_cancel_left_eq, List.cons.injEq] at hlast
      obtain ⟨rfl, -⟩ := hlast
      obtain ⟨oldest, hout⟩ := hi.waitedOut hc.consumer hq (by rw [hc.size]; exact hshort)
      refine ⟨oldest, hout.first, ?_⟩
      rw [hc.opened (by rw [hout.point]; rfl) oldest hout.queued]
      change s.now ≤ _ ↔ _
      have hcalled := hout.called
      have harrived := hout.arrived
      have hpos : 0 < nanos timeout := by
        unfold nanos
        omega
      rw [hout.returned, hc.timeout]
      rw [hc.called] at hcalled
      omega

/-- A request that arrives 10 ms before the call, while the worker is busy. -/
def backlog : List (TimedEvent Int) := [.act (.push 0), .tick 10000000]

/-- The call waits for a whole window. -/
def backlogWait : List (TimedEvent Int) := [.act .resume, .tick 5000000, .act .expire]

/-- The request is back 15 ms after its arrival, although its window of 5 ms was over at the
call. -/
theorem backlog_waits_again :
    ∃ u s t, exec (TimedRun.step id) {} backlog = some u ∧
      exec (TimedRun.step id) u (.act (.call 2 5) :: backlogWait) = some s ∧
      s.step id (.act .resume) = some t ∧ t.run.returns.map (·.batch) = [[0]] ∧
      u.now = 10000000 ∧ t.now = 15000000 ∧ ¬t.now ≤ max u.now (id 0 + nanos 5) := by
  have hfacts : (exec (TimedRun.step id) {} backlog).bind (fun u ↦
      (exec (TimedRun.step id) u (.act (.call 2 5) :: backlogWait)).bind fun s ↦
        (s.step id (.act .resume)).map fun t ↦ (t.run.returns.map (·.batch), u.now, t.now)) =
      some ([[0]], 10000000, 15000000) := by
    decide +kernel
  obtain ⟨u, hu, hfacts⟩ := Option.bind_eq_some_iff.mp hfacts
  obtain ⟨s, hs, hfacts⟩ := Option.bind_eq_some_iff.mp hfacts
  obtain ⟨t, ht, hfacts⟩ := Option.map_eq_some_iff.mp hfacts
  simp only [Prod.mk.injEq] at hfacts
  obtain ⟨hbatch, hcalled, hback⟩ := hfacts
  refine ⟨u, s, t, hu, hs, ht, hbatch, hcalled, hback, ?_⟩
  rw [hcalled, hback]
  decide

/-- A first request is served at once. -/
def firstServed : List (TimedEvent Int) :=
  [.act (.push 0), .act (.call 1 5), .act .resume, .tick 2000000]

/-- The next call is parked when its request arrives 1 ms later, and is woken at once. -/
def idleWait : List (TimedEvent Int) :=
  [.act .resume, .tick 1000000, .act (.push 3000000), .act .wake, .act .resume, .tick 5000000,
    .act .expire]

theorem window_from_first_arrival_idleWorker :
    ∃ u s t, exec (TimedRun.step id) {} firstServed = some u ∧
      exec (TimedRun.step id) u (.act (.call 2 5) :: idleWait) = some s ∧
      s.step id (.act .resume) = some t ∧ t.now = 8000000 ∧ u.Fresh id ∧
      Along (TimedRun.step id) Prompt u (.act (.call 2 5) :: idleWait) := by
  have hfacts : (exec (TimedRun.step id) {} firstServed).bind (fun u ↦
      (exec (TimedRun.step id) u (.act (.call 2 5) :: idleWait)).bind fun s ↦
        (s.step id (.act .resume)).map fun t ↦
          decide (s.run.returns = u.run.returns ∧ t.now = 8000000 ∧ u.now = 2000000 ∧
            t.run.returns = u.run.returns ++ [⟨2, 5, [3000000], false, true, [3000000]⟩])) =
      some true := by
    decide +kernel
  obtain ⟨u, hu, hfacts⟩ := Option.bind_eq_some_iff.mp hfacts
  obtain ⟨s, hs, hfacts⟩ := Option.bind_eq_some_iff.mp hfacts
  obtain ⟨t, ht, hfacts⟩ := Option.map_eq_some_iff.mp hfacts
  obtain ⟨hopen, hback, hcalled, hreturn⟩ := of_decide_eq_true hfacts
  have hpos : ∀ e ∈ firstServed, ∀ m timeout, e = .act (.call m timeout) → 0 < timeout := by
    rintro e he m timeout rfl
    simp [firstServed] at he
    omega
  obtain ⟨oldest, hfirst, hiff⟩ := window_from_first_arrival_iff hu hs hopen ht hreturn (by decide)
    (fun m timeout h ↦ hpos _ h m timeout rfl) (by decide) (by decide)
  cases hfirst
  refine ⟨u, s, t, hu, hs, ht, hback, hiff.mp ?_⟩
  rw [hback, hcalled]
  decide

end TimedRun
end InferenceServer.Batching
