import InferenceServer.Base.Components
import InferenceServer.Base.Run
import InferenceServer.Benchmarks.Client
import Mathlib.Algebra.Order.Floor.Semiring
import Mathlib.Data.Rat.Floor
import Mathlib.Data.Set.Card

/-!
# The open-loop load generator

Library `Benchmarks`. `benchmarks/load_test.py:335–414` in exact rational time. Arrivals stand on
a schedule of their own; an arrival is missed when the client wakes a full interval late, when
the window is over, or when too many requests are unfinished. Clock readings only go forward;
between the steps of the loop requests start and finish in any order. A request that raises ends
its task with the exception, and `asyncio.gather` raises the first one that it sees.
-/

namespace InferenceServer.Benchmarks

open InferenceServer.Base

/-- Arguments that pass the check of `run_rate_phase`; a single payload is a list of one. -/
structure RateConfig (P : Type) where
  rateRps : ℚ
  durationS : ℚ
  maxOutstanding : Nat
  expectedOutputElems : Option Int
  endpoint : String
  payloads : List P
  rate_pos : 0 < rateRps
  duration_pos : 0 < durationS
  outstanding_pos : 0 < maxOutstanding
  payloads_pos : 0 < payloads.length

/-- `ScheduledResult`, `load_test.py:131–136`. -/
structure ScheduledResult where
  result : RequestResult
  schedulingDelayS : ℚ
  scheduledLatencyS : ℚ
  completedWithinWindow : Bool
  deriving DecidableEq, Repr

/-- How far `one` has come. -/
inductive Progress where
  | created
  | sending (sendStarted : ℚ)
  | done (result : ScheduledResult)
  | failed (error : ClientError)

/-- A task of `all_tasks`: `one(scheduled_at, index)`, and when it was created. -/
structure RateTask where
  index : Nat
  scheduledAt : ℚ
  createdAt : ℚ
  progress : Progress

namespace RateTask

/-- `one` has not called `send_payload` yet. -/
def unsent (t : RateTask) : Bool :=
  match t.progress with
  | .created => true
  | _ => false

/-- `not task.done()`. -/
def unfinished (t : RateTask) : Bool :=
  match t.progress with
  | .done _ => false
  | .failed _ => false
  | _ => true

def result? (t : RateTask) : Option (ScheduledResult) :=
  match t.progress with
  | .done r => some r
  | _ => none

/-- `task.exception()` of a finished task. -/
def exception (t : RateTask) : Option ClientError :=
  match t.progress with
  | .failed e => some e
  | _ => none

/-- The arrival this task sent, if it did. -/
def sentIndex (t : RateTask) : Option Nat := if t.unsent then none else some t.index

end RateTask

/-- Where the coroutine is: at the head of the loop, in `asyncio.sleep` (which is skipped when the
delay is not positive), in `asyncio.gather`, which has seen this exception first, or back. -/
inductive RatePhase where
  | head
  | sleeping
  | draining (failure : Option ClientError)
  | returned (completed : List ScheduledResult)
  | raised (error : ClientError)
  deriving DecidableEq, Repr

/-- A task raised: `gather` takes the first exception. -/
def RatePhase.note (e : ClientError) : RatePhase → RatePhase
  | .draining none => .draining (some e)
  | phase => phase

/-- The loop goes on. -/
def RatePhase.inLoop : RatePhase → Bool
  | .head => true
  | .sleeping => true
  | _ => false

/-- The coroutine is back. -/
def RatePhase.over : RatePhase → Bool
  | .returned _ => true
  | .raised _ => true
  | _ => false

/-- The locals of `run_rate_phase`. Of `tasks`, the positions in `all_tasks`; `clock` is the
last reading and `sent` what `send_payload` was called with. -/
structure RateState (P : Type) where
  started : ℚ
  clock : ℚ
  phase : RatePhase := .head
  index : Nat := 0
  offered : Nat := 0
  missed : Nat := 0
  tasks : List Nat := []
  allTasks : List RateTask := []
  sent : List (Nat × P) := []

/-- What happens next: the head of the loop reads the clock or leaves the loop, the coroutine
wakes, a request starts or is over, or `gather` is. -/
inductive RateEvent where
  | poll (reading : ℚ)
  | leave
  | wake (reading : ℚ)
  | send (task : Nat) (reading : ℚ)
  | finish (task : Nat) (reading : ℚ) (exchange : Exchange)
  | collect

namespace RateConfig

variable {P : Type} (c : RateConfig P)

/-- `interval`, `load_test.py:362`. -/
def interval : ℚ := 1 / c.rateRps

/-- `payloads[index % len(payloads)]`, `load_test.py:377`. -/
def payloadFor (index : Nat) : P :=
  c.payloads.get ⟨index % c.payloads.length, Nat.mod_lt _ c.payloads_pos⟩

end RateConfig

/-- The check at the head of `run_rate_phase`, `load_test.py:353–354`. -/
def checkRate {P : Type} (rateRps durationS : ℚ) (maxOutstanding : Int)
    (expectedOutputElems : Option Int) (endpoint : String)
    (payloads : { ps : List P // 0 < ps.length }) : Except String (RateConfig P) :=
  if h : rateRps ≤ 0 ∨ durationS ≤ 0 ∨ maxOutstanding ≤ 0 then
    .error "rate, duration, and max_outstanding must be positive"
  else
    .ok ⟨rateRps, durationS, maxOutstanding.toNat, expectedOutputElems, endpoint, payloads.1,
      lt_of_not_ge fun hr ↦ h (.inl hr), lt_of_not_ge fun hd ↦ h (.inr (.inl hd)), by omega,
      payloads.2⟩

/-- What the check passes on. -/
theorem checkRate_eq_ok {P : Type} {rateRps durationS : ℚ} {maxOutstanding : Int}
    {expectedOutputElems : Option Int} {endpoint : String}
    {payloads : { ps : List P // 0 < ps.length }} {c : RateConfig P}
    (h : checkRate rateRps durationS maxOutstanding expectedOutputElems endpoint payloads = .ok c) :
    c.rateRps = rateRps ∧ c.durationS = durationS ∧ (c.maxOutstanding : Int) = maxOutstanding ∧
      c.expectedOutputElems = expectedOutputElems ∧ c.payloads = payloads := by
  unfold checkRate at h
  split at h
  · cases h
  · next hpos =>
    cases h
    exact ⟨rfl, rfl, Int.toNat_of_nonneg (by omega), rfl, rfl⟩

namespace RateState

variable {P : Type} (c : RateConfig P)

/-- The state when the client is open and the clock was first read, `load_test.py:370–372`. -/
def start (started : ℚ) : RateState P := { started, clock := started }

/-- `cutoff`, `load_test.py:372`. -/
def cutoff (s : RateState P) : ℚ := s.started + c.durationS

/-- `scheduled_at`, `load_test.py:390`. -/
def scheduledAt (s : RateState P) : ℚ := s.started + s.index * c.interval

/-- `tasks` without those that are done, `load_test.py:404`. -/
def outstanding (s : RateState P) : List Nat :=
  s.tasks.filter fun i ↦ s.allTasks[i]?.any RateTask.unfinished

/-- What the finished tasks have raised, in the order of `all_tasks`. -/
def failures (s : RateState P) : List ClientError := s.allTasks.filterMap RateTask.exception

/-- The loop from the wake-up on, `load_test.py:396–411`; `now` is the reading. -/
def arrive (s : RateState P) (now : ℚ) : RateState P :=
  let s := { s with phase := .head, clock := now, offered := s.offered + 1 }
  if s.cutoff c ≤ now ∨ c.interval ≤ now - s.scheduledAt c then
    { s with missed := s.missed + 1, index := s.index + 1 }
  else
    let s' := { s with tasks := s.outstanding }
    if c.maxOutstanding ≤ s'.tasks.length then
      { s' with missed := s'.missed + 1, index := s'.index + 1 }
    else
      { s' with
        tasks := s'.tasks ++ [s'.allTasks.length]
        allTasks := s'.allTasks ++ [⟨s'.index, s.scheduledAt c, now, .created⟩]
        index := s'.index + 1 }

/-- The result of `one`, `load_test.py:381–386`. -/
def scheduledResult (s : RateState P) (t : RateTask) (sendStarted completedAt : ℚ)
    (result : RequestResult) : ScheduledResult where
  result
  schedulingDelayS := max 0 (sendStarted - t.scheduledAt)
  scheduledLatencyS := max 0 (completedAt - t.scheduledAt)
  completedWithinWindow := completedAt ≤ s.cutoff c

/-- One step of the coroutine or of a task. -/
def step (s : RateState P) : RateEvent → Option (RateState P)
  | .poll reading =>
    match s.phase with
    | .head =>
      if s.scheduledAt c < s.cutoff c ∧ s.clock ≤ reading then
        some { s with phase := .sleeping, clock := reading }
      else none
    | _ => none
  | .leave =>
    match s.phase with
    | .head =>
      if s.cutoff c ≤ s.scheduledAt c then
        some { s with phase := .draining s.failures.head? }
      else none
    | _ => none
  | .wake reading =>
    match s.phase with
    | .sleeping => if s.clock ≤ reading then some (s.arrive c reading) else none
    | _ => none
  | .send task reading =>
    match s.allTasks[task]? with
    | some ⟨index, scheduledAt, createdAt, .created⟩ =>
      if s.clock ≤ reading then
        some { s with
          clock := reading
          allTasks := s.allTasks.set task ⟨index, scheduledAt, createdAt, .sending reading⟩
          sent := s.sent ++ [(index, c.payloadFor index)] }
      else none
    | _ => none
  | .finish task reading exchange =>
    match s.allTasks[task]? with
    | some ⟨index, scheduledAt, createdAt, .sending sendStarted⟩ =>
      match sendPayload c.endpoint c.expectedOutputElems exchange with
      | .ok result =>
        if s.clock ≤ reading then
          some { s with
            clock := reading
            allTasks := s.allTasks.set task ⟨index, scheduledAt, createdAt,
              .done (s.scheduledResult c ⟨index, scheduledAt, createdAt, .sending sendStarted⟩
                sendStarted reading result)⟩ }
        else none
      | .error e =>
        some { s with
          phase := s.phase.note e
          allTasks := s.allTasks.set task ⟨index, scheduledAt, createdAt, .failed e⟩ }
    | _ => none
  | .collect =>
    match s.phase with
    | .draining (some e) => some { s with phase := .raised e }
    | .draining none =>
      if s.allTasks.all fun t ↦ !t.unfinished then
        some { s with phase := .returned (s.allTasks.filterMap RateTask.result?) }
      else none
    | _ => none

/-! ### What one step can do -/

/-- The steps of `step`, one constructor for each way they change the state. -/
inductive Move (s : RateState P) : RateEvent → RateState P → Prop
  | poll {reading : ℚ} (hphase : s.phase = .head) (hdue : s.scheduledAt c < s.cutoff c)
      (hclock : s.clock ≤ reading) :
      Move s (.poll reading) { s with phase := .sleeping, clock := reading }
  | leave (hphase : s.phase = .head) (hover : s.cutoff c ≤ s.scheduledAt c) :
      Move s .leave { s with phase := .draining s.failures.head? }
  | miss {now : ℚ} {tasks : List Nat} (hphase : s.phase = .sleeping) (hclock : s.clock ≤ now)
      (htasks : tasks = s.tasks ∨ tasks = s.outstanding) :
      Move s (.wake now) { s with
        phase := .head, clock := now, offered := s.offered + 1, missed := s.missed + 1,
        index := s.index + 1, tasks := tasks }
  | create {now : ℚ} (hphase : s.phase = .sleeping) (hclock : s.clock ≤ now)
      (hnow : now < s.cutoff c) (hlag : now - s.scheduledAt c < c.interval)
      (hroom : s.outstanding.length < c.maxOutstanding) :
      Move s (.wake now) { s with
        phase := .head, clock := now, offered := s.offered + 1, index := s.index + 1,
        tasks := s.outstanding ++ [s.allTasks.length],
        allTasks := s.allTasks ++ [⟨s.index, s.scheduledAt c, now, .created⟩] }
  | send {i : Nat} {t : RateTask} {reading : ℚ} (ht : s.allTasks[i]? = some t)
      (hp : t.progress = .created) (hclock : s.clock ≤ reading) :
      Move s (.send i reading) { s with
        clock := reading, allTasks := s.allTasks.set i { t with progress := .sending reading },
        sent := s.sent ++ [(t.index, c.payloadFor t.index)] }
  | finish {i : Nat} {t : RateTask} {sendStarted reading : ℚ} {x : Exchange} {r : RequestResult}
      {scheduled : ScheduledResult} (ht : s.allTasks[i]? = some t)
      (hp : t.progress = .sending sendStarted) (hclock : s.clock ≤ reading)
      (hsend : sendPayload c.endpoint c.expectedOutputElems x = .ok r) :
      Move s (.finish i reading x) { s with
        clock := reading, allTasks := s.allTasks.set i { t with progress := .done scheduled } }
  | fail {i : Nat} {t : RateTask} {sendStarted reading : ℚ} {x : Exchange} {e : ClientError}
      (ht : s.allTasks[i]? = some t) (hp : t.progress = .sending sendStarted)
      (hsend : sendPayload c.endpoint c.expectedOutputElems x = .error e) :
      Move s (.finish i reading x) { s with
        phase := s.phase.note e, allTasks := s.allTasks.set i { t with progress := .failed e } }
  | collect (hphase : s.phase = .draining none)
      (hdone : ∀ t ∈ s.allTasks, t.unfinished = false) :
      Move s .collect { s with phase := .returned (s.allTasks.filterMap RateTask.result?) }
  | raise {e : ClientError} (hphase : s.phase = .draining (some e)) :
      Move s .collect { s with phase := .raised e }

variable {c} {s t : RateState P}

/-- A wake-up misses the arrival or creates its task. -/
theorem move_arrive {now : ℚ} (hphase : s.phase = .sleeping) (hclock : s.clock ≤ now) :
    Move c s (.wake now) (s.arrive c now) := by
  unfold arrive
  dsimp only
  by_cases hlate : s.cutoff c ≤ now ∨ c.interval ≤ now - s.scheduledAt c
  · exact (if_pos hlate).symm ▸ .miss hphase hclock (.inl rfl)
  · by_cases hfull : c.maxOutstanding ≤ s.outstanding.length
    · exact (if_neg hlate).symm ▸ (if_pos hfull).symm ▸ .miss hphase hclock (.inr rfl)
    · have hnow : now < s.cutoff c := lt_of_not_ge fun h ↦ hlate (.inl h)
      have hlag : now - s.scheduledAt c < c.interval := lt_of_not_ge fun h ↦ hlate (.inr h)
      exact (if_neg hlate).symm ▸ (if_neg hfull).symm ▸
        .create hphase hclock hnow hlag (by omega)

theorem move_of_step {e : RateEvent} (h : s.step c e = some t) : Move c s e t := by
  cases e with
  | poll reading =>
    simp only [step] at h
    split at h
    · next hphase =>
      split at h
      · next hguard =>
        cases h
        exact .poll hphase hguard.1 hguard.2
      · cases h
    · cases h
  | leave =>
    simp only [step] at h
    split at h
    · next hphase =>
      split at h
      · next hover =>
        cases h
        exact .leave hphase hover
      · cases h
    · cases h
  | wake reading =>
    simp only [step] at h
    split at h
    · next hphase =>
      split at h
      · next hclock =>
        cases h
        exact move_arrive hphase hclock
      · cases h
    · cases h
  | send i reading =>
    simp only [step] at h
    split at h
    · next index scheduledAt createdAt ht =>
      split at h
      · next hclock =>
        cases h
        exact .send ht rfl hclock
      · cases h
    · cases h
  | finish i reading x =>
    simp only [step] at h
    split at h
    · next index scheduledAt createdAt sendStarted ht =>
      split at h
      · next r hsend =>
        split at h
        · next hclock =>
          cases h
          exact .finish ht rfl hclock hsend
        · cases h
      · next e hsend =>
        cases h
        exact .fail ht rfl hsend
    · cases h
  | collect =>
    simp only [step] at h
    split at h
    · next hphase =>
      cases h
      exact .raise hphase
    · next hphase =>
      split at h
      · next hall =>
        cases h
        refine .collect hphase ?_
        intro t ht
        simpa using List.all_eq_true.mp hall t ht
      · cases h
    · cases h

end RateState

/-! ### The schedule -/

namespace RateConfig

variable {P : Type} (c : RateConfig P)

/-- The number of arrivals of the window. -/
def arrivals : Nat := ⌈c.durationS * c.rateRps⌉₊

theorem lt_arrivals {k : Nat} : k < c.arrivals ↔ (k : ℚ) / c.rateRps < c.durationS := by
  rw [arrivals, Nat.lt_ceil, div_lt_iff₀ c.rate_pos]

/-- It counts the naturals whose time on the schedule is inside the window. -/
theorem ncard_arrivals : {k : Nat | (k : ℚ) / c.rateRps < c.durationS}.ncard = c.arrivals := by
  have hset : {k : Nat | (k : ℚ) / c.rateRps < c.durationS} = Finset.range c.arrivals := by
    ext k
    rw [Set.mem_ofPred_eq, ← c.lt_arrivals, Finset.coe_range, Set.mem_Iio]
  rw [hset, Set.ncard_coe_finset, Finset.card_range]

end RateConfig

/-- Steps that are left of the coroutine and of the tasks that it will create, when this many
arrivals are ahead. -/
def RatePhase.remaining (ahead : Nat) : RatePhase → Nat
  | .head => 4 * ahead + 2
  | .sleeping => 4 * ahead + 1
  | .draining _ => 1
  | .returned _ => 0
  | .raised _ => 0

namespace RateState

variable {P : Type} {c : RateConfig P} {started : ℚ} {s t : RateState P}

theorem due_iff : s.scheduledAt c < s.cutoff c ↔ s.index < c.arrivals := by
  rw [c.lt_arrivals, scheduledAt, cutoff, RateConfig.interval, mul_one_div]
  exact add_lt_add_iff_left _

/-! ### The invariant -/

/-- A task stands on the schedule and was created in time. -/
structure Punctual (c : RateConfig P) (started : ℚ) (t : RateTask) : Prop where
  scheduled : t.scheduledAt = started + t.index * c.interval
  inside : t.createdAt < started + c.durationS
  prompt : t.createdAt - t.scheduledAt < c.interval

/-- Every arrival so far has a task or was missed; what is unfinished is in `tasks`. -/
structure Books (c : RateConfig P) (started : ℚ) (s : RateState P) : Prop where
  began : s.started = started
  offered : s.offered = s.index
  accounted : ∃ skipped : List Nat, skipped.length = s.missed ∧
    (s.allTasks.map RateTask.index ++ skipped).Perm (List.range s.index)
  sent : (s.sent.map Prod.fst).Perm (s.allTasks.filterMap RateTask.sentIndex)
  payload : ∀ x ∈ s.sent, x.2 = c.payloadFor x.1
  punctual : ∀ t ∈ s.allTasks, Punctual c started t
  covered : ∀ i t, s.allTasks[i]? = some t → t.unfinished = true → i ∈ s.tasks
  room : s.tasks.length ≤ c.maxOutstanding
  inside : s.index ≤ c.arrivals

/-- The loop sleeps before an arrival of the window and ends after the last one; `gather` returns
when every task has a result, and raises what a task has raised. -/
structure Inv (c : RateConfig P) (started : ℚ) (s : RateState P) : Prop
    extends Books c started s where
  due : s.phase = .sleeping → s.index < c.arrivals
  left : s.phase.inLoop = false → s.index = c.arrivals
  done : ∀ completed, s.phase = .returned completed →
    completed = s.allTasks.filterMap RateTask.result? ∧ ∀ t ∈ s.allTasks, t.unfinished = false
  calm : s.phase = .draining none ∨ (∃ completed, s.phase = .returned completed) →
    s.failures = []
  blame : ∀ e, s.phase = .draining (some e) ∨ s.phase = .raised e → e ∈ s.failures

theorem inv_start (c : RateConfig P) (started : ℚ) : Inv c started (start started : RateState P)
    where
  began := rfl
  offered := rfl
  accounted := ⟨[], rfl, List.Perm.refl _⟩
  sent := List.Perm.refl _
  payload := by simp [start]
  punctual := by simp [start]
  covered := by simp [start]
  room := Nat.zero_le _
  inside := Nat.zero_le _
  due := by simp [start]
  left := by simp [start, RatePhase.inLoop]
  done := by simp [start]
  calm := by simp [start]
  blame := by simp [start]

theorem mem_outstanding {i : Nat} {t : RateTask} (ht : s.allTasks[i]? = some t)
    (hun : t.unfinished = true) (hmem : i ∈ s.tasks) : i ∈ s.outstanding := by
  rw [outstanding, List.mem_filter, ht]
  exact ⟨hmem, hun⟩

theorem length_outstanding_le : s.outstanding.length ≤ s.tasks.length := List.length_filter_le _ _

/-- A missed arrival is booked. -/
theorem Books.miss (h : Books c started s) (hdue : s.index < c.arrivals) {phase : RatePhase}
    {now : ℚ} {tasks : List Nat} (htasks : tasks = s.tasks ∨ tasks = s.outstanding) :
    Books c started { s with
      phase := phase, clock := now, offered := s.offered + 1, missed := s.missed + 1,
      index := s.index + 1, tasks := tasks } where
  began := h.began
  offered := congrArg (· + 1) h.offered
  accounted := by
    obtain ⟨skipped, hlen, hperm⟩ := h.accounted
    refine ⟨skipped ++ [s.index], ?_, ?_⟩
    · rw [List.length_append, hlen]
      rfl
    · rw [List.range_succ, ← List.append_assoc]
      exact hperm.append_right _
  sent := h.sent
  payload := h.payload
  punctual := h.punctual
  covered := by
    intro i t ht hun
    have hmem := h.covered i t ht hun
    obtain rfl | rfl := htasks
    · exact hmem
    · exact mem_outstanding ht hun hmem
  room := by
    obtain rfl | rfl := htasks
    · exact h.room
    · exact length_outstanding_le.trans h.room
  inside := hdue

/-- A created task is booked. -/
theorem Books.create (h : Books c started s) (hdue : s.index < c.arrivals) {phase : RatePhase}
    {now : ℚ} (hnow : now < s.cutoff c) (hlag : now - s.scheduledAt c < c.interval)
    (hroom : s.outstanding.length < c.maxOutstanding) :
    Books c started { s with
      phase := phase, clock := now, offered := s.offered + 1, index := s.index + 1,
      tasks := s.outstanding ++ [s.allTasks.length],
      allTasks := s.allTasks ++ [⟨s.index, s.scheduledAt c, now, .created⟩] } where
  began := h.began
  offered := congrArg (· + 1) h.offered
  accounted := by
    obtain ⟨skipped, hlen, hperm⟩ := h.accounted
    refine ⟨skipped, hlen, ?_⟩
    rw [List.range_succ, List.map_append, List.append_assoc]
    have hswap : ([s.index] ++ skipped).Perm (skipped ++ [s.index]) := List.perm_append_comm
    have hlast := hperm.append_right [s.index]
    rw [List.append_assoc] at hlast
    exact (hswap.append_left _).trans hlast
  sent := by
    rw [List.filterMap_append]
    exact h.sent.trans (List.Perm.of_eq (List.append_nil _).symm)
  payload := h.payload
  punctual := by
    apply forall_mem_snoc h.punctual
    have hbegan := h.began
    subst hbegan
    exact ⟨rfl, hnow, hlag⟩
  covered := by
    intro i t ht hun
    rcases getElem?_snoc_cases ht with ht | ⟨rfl, -⟩
    · exact List.mem_append_left _ (mem_outstanding ht hun (h.covered i t ht hun))
    · exact List.mem_append_right _ (List.mem_singleton_self _)
  room := by
    rw [List.length_append]
    exact hroom
  inside := hdue

/-- A task that goes on keeps the books; `sent` grows by what it now has sent. -/
theorem Books.goOn (h : Books c started s) {i : Nat} {t : RateTask} {progress : Progress}
    {phase : RatePhase} {clock : ℚ} {sent : List (Nat × P)} (ht : s.allTasks[i]? = some t)
    (hun : t.unfinished = true)
    (hsent : ∀ x ∈ sent, x.2 = c.payloadFor x.1)
    (hlog : (sent.map Prod.fst).Perm
      ((s.allTasks.set i { t with progress := progress }).filterMap RateTask.sentIndex)) :
    Books c started { s with
      phase := phase, clock := clock,
      allTasks := s.allTasks.set i { t with progress := progress }, sent := sent } where
  began := h.began
  offered := h.offered
  accounted := by
    obtain ⟨skipped, hlen, hperm⟩ := h.accounted
    refine ⟨skipped, hlen, ?_⟩
    have hsame : (s.allTasks.set i { t with progress := progress }).map RateTask.index =
        s.allTasks.map RateTask.index := by
      rw [← List.filterMap_eq_map]
      exact filterMap_set_eq ht rfl
    exact hsame ▸ hperm
  sent := hlog
  payload := hsent
  punctual := by
    have hpunctual := h.punctual t (List.mem_of_getElem? ht)
    exact forall_mem_set h.punctual ⟨hpunctual.scheduled, hpunctual.inside, hpunctual.prompt⟩
  covered := by
    intro j t' ht' hun'
    rcases getElem?_set_cases ht' with ⟨rfl, -⟩ | ⟨-, hj⟩
    · exact h.covered j t ht hun
    · exact h.covered j t' hj hun'
  room := h.room
  inside := h.inside

theorem Inv.of_books (h : Books c started s) (hphase : s.phase = .head) : Inv c started s where
  toBooks := h
  due := by simp [hphase]
  left := by simp [hphase, RatePhase.inLoop]
  done := by simp [hphase]
  calm := by simp [hphase]
  blame := by simp [hphase]

theorem Inv.index_eq (h : Inv c started s) (hover : s.cutoff c ≤ s.scheduledAt c) :
    s.index = c.arrivals := by
  have hnot : ¬s.index < c.arrivals := fun hlt ↦ absurd (due_iff.mpr hlt) (not_lt.mpr hover)
  have hinside := h.inside
  omega

/-- A task that goes on without an exception does not matter to the loop and to `gather`. -/
theorem Inv.goOn (h : Inv c started s) {i : Nat} {task : RateTask} {progress : Progress}
    {clock : ℚ} {sent : List (Nat × P)} (ht : s.allTasks[i]? = some task)
    (hun : task.unfinished = true)
    (hexception : RateTask.exception { task with progress := progress } = task.exception)
    (hbooks : Books c started { s with
      clock := clock, allTasks := s.allTasks.set i { task with progress := progress },
      sent := sent }) :
    Inv c started { s with
      clock := clock, allTasks := s.allTasks.set i { task with progress := progress },
      sent := sent } where
  toBooks := hbooks
  due := h.due
  left := h.left
  done := by
    intro completed hphase
    have hdone := (h.done completed hphase).2 task (List.mem_of_getElem? ht)
    rw [hun] at hdone
    cases hdone
  calm hphase := (filterMap_set_eq ht hexception).trans (h.calm hphase)
  blame e hphase := by
    have hmem := h.blame e hphase
    rw [failures, ← filterMap_set_eq ht hexception] at hmem
    exact hmem

/-- An exception that a task has raised. -/
theorem failures_fail {i : Nat} {task : RateTask} {e : ClientError} {phase : RatePhase}
    (ht : s.allTasks[i]? = some task) (hun : task.unfinished = true) :
    (failures { s with
      phase := phase
      allTasks := s.allTasks.set i { task with progress := .failed e } }).Perm
      (e :: s.failures) := by
  have hset := filterMap_set_perm (b := { task with progress := .failed e })
    (f := RateTask.exception) ht
  have hnone : task.exception = none := by
    unfold RateTask.unfinished at hun
    unfold RateTask.exception
    split
    · next hp =>
      rw [hp] at hun
      cases hun
    · rfl
  rw [hnone] at hset
  exact hset

/-- `gather` takes note of it. -/
theorem Inv.fail (h : Inv c started s) {i : Nat} {task : RateTask} {e : ClientError}
    (ht : s.allTasks[i]? = some task) (hun : task.unfinished = true)
    (hbooks : Books c started { s with
      phase := s.phase.note e
      allTasks := s.allTasks.set i { task with progress := .failed e } }) :
    Inv c started { s with
      phase := s.phase.note e
      allTasks := s.allTasks.set i { task with progress := .failed e } } := by
  have hold : ∀ e' ∈ s.failures, e' ∈ failures { s with
      phase := s.phase.note e
      allTasks := s.allTasks.set i { task with progress := .failed e } } :=
    fun e' he ↦ (failures_fail ht hun).mem_iff.mpr (List.mem_cons_of_mem e he)
  have hreturned : ∀ completed, s.phase ≠ .returned completed := by
    intro completed hphase
    have hdone := (h.done completed hphase).2 task (List.mem_of_getElem? ht)
    rw [hun] at hdone
    cases hdone
  cases hphase : s.phase with
  | draining failure =>
    have hleft := h.left (by rw [hphase]; rfl)
    cases failure with
    | none =>
      refine ⟨hphase ▸ hbooks, ?_, fun _ ↦ hleft, ?_, ?_, ?_⟩
      · simp [RatePhase.note]
      · simp [RatePhase.note]
      · simp [RatePhase.note]
      · intro e' he
        simp only [RatePhase.note, RatePhase.draining.injEq, Option.some.injEq, reduceCtorEq,
          or_false] at he
        exact (failures_fail ht hun).mem_iff.mpr (he ▸ List.mem_cons_self)
    | some first =>
      refine ⟨hphase ▸ hbooks, ?_, fun _ ↦ hleft, ?_, ?_, ?_⟩
      · simp [RatePhase.note]
      · simp [RatePhase.note]
      · simp [RatePhase.note]
      · intro e' he
        exact hold e' (h.blame e' (hphase ▸ he))
  | head => exact .of_books (hphase ▸ hbooks) rfl
  | sleeping =>
    refine ⟨hphase ▸ hbooks, fun _ ↦ h.due hphase, ?_, ?_, ?_, ?_⟩
    · simp [RatePhase.note, RatePhase.inLoop]
    · simp [RatePhase.note]
    · simp [RatePhase.note]
    · simp [RatePhase.note]
  | returned completed => exact absurd hphase (hreturned completed)
  | raised first =>
    refine ⟨hphase ▸ hbooks, ?_, fun _ ↦ h.left (by rw [hphase]; rfl), ?_, ?_, ?_⟩
    · simp [RatePhase.note]
    · simp [RatePhase.note]
    · simp [RatePhase.note]
    · intro e' he
      exact hold e' (h.blame e' (hphase ▸ he))

theorem sent_perm {i : Nat} {task : RateTask} {reading : ℚ} (h : Inv c started s)
    (ht : s.allTasks[i]? = some task) (hp : task.progress = .created) :
    ((s.sent ++ [(task.index, c.payloadFor task.index)]).map Prod.fst).Perm
      ((s.allTasks.set i { task with progress := .sending reading }).filterMap
        RateTask.sentIndex) := by
  have hnone : task.sentIndex = none := by
    rw [RateTask.sentIndex, RateTask.unsent, hp]
    rfl
  have hset := filterMap_set_perm (b := { task with progress := .sending reading })
    (f := RateTask.sentIndex) ht
  rw [hnone] at hset
  rw [List.map_append]
  exact (List.perm_append_comm.trans (h.sent.append_left [task.index])).trans hset.symm

/-- A task that has started stays so. -/
theorem sentIndex_of_progress {task : RateTask} {sendStarted : ℚ} {progress : Progress}
    (hp : task.progress = .sending sendStarted) (hne : progress ≠ .created) :
    RateTask.sentIndex { task with progress := progress } = task.sentIndex := by
  have hnew : RateTask.unsent { task with progress := progress } = false := by
    cases progress with
    | created => exact absurd rfl hne
    | _ => rfl
  rw [RateTask.sentIndex, RateTask.sentIndex, hnew, RateTask.unsent, hp]

/-- Every step keeps the invariant. -/
theorem Inv.move {e : RateEvent} (h : Inv c started s) (hm : Move c s e t) : Inv c started t := by
  cases hm with
  | poll hphase hdue hclock =>
    exact
      { h with
        due := fun _ ↦ due_iff.mp hdue
        left := fun hleft ↦ by cases hleft
        done := fun _ hret ↦ by cases hret
        calm := fun hcalm ↦ by simp at hcalm
        blame := fun _ hblame ↦ by simp at hblame }
  | leave hphase hover =>
    exact
      { h with
        due := fun hsleep ↦ by cases hsleep
        left := fun _ ↦ h.index_eq hover
        done := fun _ hret ↦ by cases hret
        calm := fun hcalm ↦ by
          have hhead : s.failures.head? = none := by simpa using hcalm
          exact List.head?_eq_none_iff.mp hhead
        blame := fun e hblame ↦ by
          have hhead : s.failures.head? = some e := by simpa using hblame
          exact List.mem_of_mem_head? hhead }
  | miss hphase hclock htasks => exact .of_books (h.toBooks.miss (h.due hphase) htasks) rfl
  | create hphase hclock hnow hlag hroom =>
    exact .of_books (h.toBooks.create (h.due hphase) hnow hlag hroom) rfl
  | @send i task reading ht hp hclock =>
    have hun : task.unfinished = true := by rw [RateTask.unfinished, hp]
    refine h.goOn ht hun (by rw [RateTask.exception, RateTask.exception, hp]) ?_
    apply h.toBooks.goOn ht hun
    · exact forall_mem_snoc h.payload rfl
    · exact sent_perm h ht hp
  | @finish i task sendStarted reading x r scheduled ht hp hclock hsend =>
    have hun : task.unfinished = true := by rw [RateTask.unfinished, hp]
    refine h.goOn ht hun (by rw [RateTask.exception, RateTask.exception, hp]) ?_
    apply h.toBooks.goOn ht hun h.payload
    rw [filterMap_set_eq ht (sentIndex_of_progress hp (by rintro ⟨⟩))]
    exact h.sent
  | @fail i task sendStarted reading x e ht hp hsend =>
    have hun : task.unfinished = true := by rw [RateTask.unfinished, hp]
    refine h.fail ht hun (h.toBooks.goOn ht hun h.payload ?_)
    rw [filterMap_set_eq ht (sentIndex_of_progress hp (by rintro ⟨⟩))]
    exact h.sent
  | collect hphase hdone =>
    exact
      { h with
        due := fun hsleep ↦ by cases hsleep
        left := fun _ ↦ h.left (by rw [hphase]; rfl)
        done := fun completed hret ↦ by
          cases hret
          exact ⟨rfl, hdone⟩
        calm := fun _ ↦ h.calm (.inl hphase)
        blame := fun _ hblame ↦ by simp at hblame }
  | @raise e hphase =>
    exact
      { h with
        due := fun hsleep ↦ by cases hsleep
        left := fun _ ↦ h.left (by rw [hphase]; rfl)
        done := fun _ hret ↦ by cases hret
        calm := fun hcalm ↦ by simp at hcalm
        blame := fun e' hblame ↦ by
          have he : e = e' := by simpa using hblame
          exact h.blame e' (.inl (he ▸ hphase)) }

/-- A task has raised if and only if the client was not prepared for an exchange. -/
theorem failures_move {e : RateEvent} (hm : Move c s e t) :
    t.failures = [] ↔ s.failures = [] ∧
      ∀ i reading x, e = .finish i reading x → x.Handled c.expectedOutputElems := by
  have hother (he : ∀ i reading x, e ≠ .finish i reading x) (hsame : t.failures = s.failures) :
      t.failures = [] ↔ s.failures = [] ∧
        ∀ i reading x, e = .finish i reading x → x.Handled c.expectedOutputElems := by
    rw [hsame]
    exact ⟨fun h ↦ ⟨h, fun i reading x heq ↦ absurd heq (he i reading x)⟩, And.left⟩
  cases hm with
  | poll hphase hdue hclock => exact hother (by rintro _ _ _ ⟨⟩) rfl
  | leave hphase hover => exact hother (by rintro _ _ _ ⟨⟩) rfl
  | miss hphase hclock htasks => exact hother (by rintro _ _ _ ⟨⟩) rfl
  | create hphase hclock hnow hlag hroom =>
    refine hother (by rintro _ _ _ ⟨⟩) ?_
    rw [failures, List.filterMap_append]
    exact List.append_nil _
  | @send i task reading ht hp hclock =>
    refine hother (by rintro _ _ _ ⟨⟩) (filterMap_set_eq ht ?_)
    rw [RateTask.exception, RateTask.exception, hp]
  | @finish i task sendStarted reading x r scheduled ht hp hclock hsend =>
    have hsame : (s.allTasks.set i { task with progress := .done scheduled }).filterMap
        RateTask.exception = s.failures :=
      filterMap_set_eq ht (by rw [RateTask.exception, RateTask.exception, hp])
    have hhandled : x.Handled c.expectedOutputElems :=
      (isOk_sendPayload c.endpoint x).mp (by rw [hsend]; rfl)
    refine ⟨fun h ↦ ⟨hsame.symm.trans h, ?_⟩, fun h ↦ hsame.trans h.1⟩
    rintro _ _ _ ⟨⟩
    exact hhandled
  | @fail i task sendStarted reading x e ht hp hsend =>
    have hun : task.unfinished = true := by rw [RateTask.unfinished, hp]
    constructor
    · intro h
      have hperm : (e :: s.failures).Perm [] := (failures_fail ht hun).symm.trans (.of_eq h)
      exact absurd hperm.eq_nil (List.cons_ne_nil _ _)
    · rintro ⟨-, hhandled⟩
      have hok := (isOk_sendPayload c.endpoint x).mpr (hhandled i reading x rfl)
      rw [hsend] at hok
      cases hok
  | collect hphase hdone => exact hother (by rintro _ _ _ ⟨⟩) rfl
  | raise hphase => exact hother (by rintro _ _ _ ⟨⟩) rfl

/-- Over a run, no task has raised if and only if the client was prepared for every exchange. -/
theorem failures_exec {es : List RateEvent} (h : exec (step c) (start started) es = some s) :
    s.failures = [] ↔
      ∀ i reading x, .finish i reading x ∈ es → x.Handled c.expectedOutputElems := by
  refine exec_induction
    (P := fun es s ↦ s.failures = [] ↔
      ∀ i reading x, .finish i reading x ∈ es → x.Handled c.expectedOutputElems) ?_ ?_ h
  · exact ⟨fun _ _ _ _ hmem ↦ absurd hmem List.not_mem_nil, fun _ ↦ rfl⟩
  · intro es s e t _ ih ht
    rw [failures_move (move_of_step ht), ih]
    constructor
    · rintro ⟨hold, hnew⟩ i reading x hmem
      rcases List.mem_append.mp hmem with hmem | hmem
      · exact hold i reading x hmem
      · exact hnew i reading x (List.mem_singleton.mp hmem).symm
    · intro hall
      exact ⟨fun i reading x hmem ↦ hall i reading x (List.mem_append_left _ hmem),
        fun i reading x he ↦ hall i reading x (he ▸ List.mem_append_right _ List.mem_cons_self)⟩

/-! ### Termination -/

/-- Steps that are left. -/
def remaining (c : RateConfig P) (s : RateState P) : Nat :=
  s.allTasks.countP RateTask.unsent + s.allTasks.countP RateTask.unfinished +
    s.phase.remaining (c.arrivals - s.index)

/-- The end of a request takes one of the steps of its task. -/
theorem countP_unfinished_set {i : Nat} {task : RateTask} {sendStarted : ℚ} (progress : Progress)
    (ht : s.allTasks[i]? = some task) (hp : task.progress = .sending sendStarted)
    (hun : RateTask.unfinished { task with progress := progress } = false)
    (hsent : RateTask.unsent { task with progress := progress } = false) :
    (s.allTasks.set i { task with progress := progress }).countP RateTask.unsent +
      (s.allTasks.set i { task with progress := progress }).countP RateTask.unfinished + 1 =
    s.allTasks.countP RateTask.unsent + s.allTasks.countP RateTask.unfinished := by
  have hunsent := countP_set_eq (b := { task with progress := progress })
    (p := RateTask.unsent) ht
  have hunfinished := countP_set_eq (b := { task with progress := progress })
    (p := RateTask.unfinished) ht
  have hold : task.unsent = false := by rw [RateTask.unsent, hp]
  have hold' : task.unfinished = true := by rw [RateTask.unfinished, hp]
  rw [hsent, hold] at hunsent
  rw [hun, hold'] at hunfinished
  simp only [Bool.toNat_true, Bool.toNat_false] at hunsent hunfinished
  omega

/-- Every step leaves fewer. -/
theorem remaining_lt {e : RateEvent} (h : Inv c started s) (hm : Move c s e t) :
    t.remaining c + 1 ≤ s.remaining c := by
  cases hm with
  | poll hphase hdue hclock =>
    simp only [remaining, RatePhase.remaining, hphase]
    omega
  | leave hphase hover =>
    simp only [remaining, RatePhase.remaining, hphase]
    omega
  | miss hphase hclock htasks =>
    have hdue := h.due hphase
    simp only [remaining, RatePhase.remaining, hphase]
    omega
  | create hphase hclock hnow hlag hroom =>
    have hdue := h.due hphase
    simp only [remaining, RatePhase.remaining, hphase, List.countP_append, List.countP_singleton,
      RateTask.unsent, RateTask.unfinished, if_true]
    omega
  | @send i task reading ht hp hclock =>
    have hunsent := countP_set_eq (b := { task with progress := .sending reading })
      (p := RateTask.unsent) ht
    have hunfinished := countP_set_eq (b := { task with progress := .sending reading })
      (p := RateTask.unfinished) ht
    simp only [RateTask.unsent, RateTask.unfinished, hp, Bool.toNat_true, Bool.toNat_false]
      at hunsent hunfinished
    simp only [remaining]
    omega
  | @finish i task sendStarted reading x r scheduled ht hp hclock hsend =>
    have hcount := countP_unfinished_set (.done scheduled) ht hp rfl rfl
    simp only [remaining]
    omega
  | @fail i task sendStarted reading x e ht hp hsend =>
    have hcount := countP_unfinished_set (.failed e) ht hp rfl rfl
    have hnote (n : Nat) : (s.phase.note e).remaining n = s.phase.remaining n := by
      cases s.phase with
      | draining failure => cases failure <;> rfl
      | _ => rfl
    simp only [remaining, hnote]
    omega
  | collect hphase hdone =>
    simp only [remaining, RatePhase.remaining, hphase]
    omega
  | raise hphase =>
    simp only [remaining, RatePhase.remaining, hphase]
    omega

theorem clock_arrive (c : RateConfig P) (s : RateState P) (now : ℚ) :
    (s.arrive c now).clock = now := by
  unfold arrive
  dsimp only
  split
  · rfl
  · split
    · rfl
    · rfl

/-- A coroutine that is not back can go on, whatever the clock shows next and whatever comes of the
next request: an unfinished task can start or finish. -/
theorem exists_step (h : s.phase.over = false) {reading : ℚ} (hclock : s.clock ≤ reading)
    (x : Exchange) :
    ∃ e t, s.step c e = some t ∧ (t.clock = s.clock ∨ t.clock = reading) ∧
      ∀ i r y, e = .finish i r y → y = x := by
  cases hphase : s.phase with
  | head =>
    by_cases hdue : s.scheduledAt c < s.cutoff c
    · refine ⟨.poll reading, { s with phase := .sleeping, clock := reading }, ?_, .inr rfl,
        by rintro _ _ _ ⟨⟩⟩
      simp only [step, hphase]
      exact if_pos ⟨hdue, hclock⟩
    · refine ⟨.leave, { s with phase := .draining s.failures.head? }, ?_, .inl rfl,
        by rintro _ _ _ ⟨⟩⟩
      simp only [step, hphase]
      exact if_pos (not_lt.mp hdue)
  | sleeping =>
    refine ⟨.wake reading, s.arrive c reading, ?_, .inr (clock_arrive c s reading),
      by rintro _ _ _ ⟨⟩⟩
    simp only [step, hphase]
    exact if_pos hclock
  | draining failure =>
    cases failure with
    | some e =>
      refine ⟨.collect, { s with phase := .raised e }, ?_, .inl rfl, by rintro _ _ _ ⟨⟩⟩
      simp only [step, hphase]
    | none =>
      by_cases hall : (s.allTasks.all fun t ↦ !t.unfinished) = true
      · refine ⟨.collect, { s with phase := .returned (s.allTasks.filterMap RateTask.result?) }, ?_,
          .inl rfl, by rintro _ _ _ ⟨⟩⟩
        simp only [step, hphase]
        exact if_pos hall
      · -- some task is not done: it starts, or it finishes
        obtain ⟨⟨index, scheduledAt, createdAt, progress⟩, hmem, hun⟩ :
            ∃ t ∈ s.allTasks, t.unfinished = true := by simpa using hall
        obtain ⟨i, ht⟩ := List.mem_iff_getElem?.mp hmem
        cases progress with
        | created =>
          refine ⟨.send i reading, { s with
            clock := reading
            allTasks := s.allTasks.set i ⟨index, scheduledAt, createdAt, .sending reading⟩
            sent := s.sent ++ [(index, c.payloadFor index)] }, ?_, .inr rfl,
            by rintro _ _ _ ⟨⟩⟩
          simp only [step, ht]
          exact if_pos hclock
        | sending sendStarted =>
          have hsame : ∀ j r y, RateEvent.finish i reading x = .finish j r y → y = x := by
            rintro _ _ _ ⟨⟩
            rfl
          cases hsend : sendPayload c.endpoint c.expectedOutputElems x with
          | ok result =>
            refine ⟨.finish i reading x, { s with
              clock := reading
              allTasks := s.allTasks.set i ⟨index, scheduledAt, createdAt,
                .done (s.scheduledResult c ⟨index, scheduledAt, createdAt, .sending sendStarted⟩
                  sendStarted reading result)⟩ }, ?_, .inr rfl, hsame⟩
            simp only [step, ht, hsend]
            exact if_pos hclock
          | error e =>
            refine ⟨.finish i reading x, { s with
              phase := s.phase.note e
              allTasks := s.allTasks.set i ⟨index, scheduledAt, createdAt, .failed e⟩ }, ?_,
              .inl rfl, hsame⟩
            simp only [step, ht, hsend]
        | done result => cases hun
        | failed e => cases hun
  | returned completed =>
    rw [hphase] at h
    cases h
  | raised e =>
    rw [hphase] at h
    cases h

/-! ### The accounts at the end -/

theorem length_results {tasks : List RateTask} (h : ∀ t ∈ tasks, t.unfinished = false)
    (hcalm : tasks.filterMap RateTask.exception = []) :
    (tasks.filterMap RateTask.result?).length = tasks.length := by
  induction tasks with
  | nil => rfl
  | cons task tasks ih =>
    rw [List.forall_mem_cons] at h
    obtain ⟨index, scheduledAt, createdAt, progress⟩ := task
    cases progress with
    | done result => exact congrArg (· + 1) (ih h.2 hcalm)
    | failed e => cases hcalm
    | created => cases h.1
    | sending sendStarted => cases h.1

/-- A finished task has sent its request. -/
theorem sentIndex_of_finished {task : RateTask} (h : task.unfinished = false) :
    task.sentIndex = some task.index := by
  obtain ⟨index, scheduledAt, createdAt, progress⟩ := task
  cases progress with
  | done result => rfl
  | failed e => rfl
  | created => cases h
  | sending sendStarted => cases h

/-- When every task is finished, the requests sent are those of the tasks. -/
theorem Inv.sent_perm_indices (h : Inv c started s)
    (hdone : ∀ t ∈ s.allTasks, t.unfinished = false) :
    (s.sent.map Prod.fst).Perm (s.allTasks.map RateTask.index) := by
  have hall : s.allTasks.filterMap RateTask.sentIndex = s.allTasks.map RateTask.index := by
    rw [← List.filterMap_eq_map]
    apply List.filterMap_congr
    intro task ht
    exact sentIndex_of_finished (hdone task ht)
  exact hall ▸ h.sent

/-- A coroutine that is back stays so. -/
theorem raised_exec {es : List RateEvent} {e : ClientError} (hs : s.phase = .raised e)
    (h : exec (step c) s es = some t) : t.phase = .raised e := by
  refine exec_preserves (P := fun s ↦ s.phase = .raised e) ?_ h hs
  intro s ev t hs ht
  cases move_of_step ht with
  | poll hphase => cases hs.symm.trans hphase
  | leave hphase => cases hs.symm.trans hphase
  | miss hphase => cases hs.symm.trans hphase
  | create hphase => cases hs.symm.trans hphase
  | send => exact hs
  | finish => exact hs
  | @fail i task sendStarted reading x e' ht hp hsend =>
    change s.phase.note e' = .raised e
    rw [hs]
    rfl
  | collect hphase => cases hs.symm.trans hphase
  | raise hphase => cases hs.symm.trans hphase

/-- The accounts of a run that returned. -/
theorem Inv.accounts (h : Inv c started s) {completed : List ScheduledResult}
    (hphase : s.phase = .returned completed) :
    s.offered = c.arrivals ∧ s.offered = completed.length + s.missed ∧
      s.sent.length = completed.length ∧
      ∃ skipped : List Nat, skipped.length = s.missed ∧
        (s.sent.map Prod.fst ++ skipped).Perm (List.range s.offered) := by
  obtain ⟨rfl, hdone⟩ := h.done completed hphase
  obtain ⟨skipped, hlen, hperm⟩ := h.accounted
  have hindices := h.sent_perm_indices hdone
  have htotal := hperm.length_eq
  have hsent := hindices.length_eq
  rw [List.length_map, List.length_map] at hsent
  rw [List.length_append, List.length_map, List.length_range] at htotal
  have hoffered := h.offered
  have hleft := h.left (by rw [hphase]; rfl)
  rw [length_results hdone (h.calm (.inr ⟨_, hphase⟩))]
  refine ⟨by omega, by omega, hsent, skipped, hlen, ?_⟩
  rw [hoffered]
  exact (hindices.append_right skipped).trans hperm

/-- The coroutine returned if no task has raised. -/
theorem Inv.returned_iff (h : Inv c started s) (hover : s.phase.over = true) :
    (∃ completed, s.phase = .returned completed) ↔ s.failures = [] := by
  refine ⟨fun hphase ↦ h.calm (.inr hphase), fun hcalm ↦ ?_⟩
  cases hphase : s.phase with
  | returned completed => exact ⟨completed, rfl⟩
  | raised e =>
    have hmem := h.blame e (.inr hphase)
    rw [hcalm] at hmem
    cases hmem
  | _ =>
    rw [hphase] at hover
    cases hover

/-- Along every run, whatever the clock readings, the start and the end of the requests: never more
than `max_outstanding` requests are unfinished, and every request is created before the cutoff and
less than an interval after its time on the schedule. A run has a bounded number of steps and can
go on until the coroutine is back. It is then back with the full accounts, in which each arrival of
the window was sent once with its payload or missed once, if and only if the client was prepared
for every exchange of the run. -/
theorem open_loop_accounting {rateRps durationS : ℚ} {maxOutstanding : Int}
    {expectedOutputElems : Option Int} {endpoint : String}
    {payloads : { ps : List P // 0 < ps.length }}
    (hc : checkRate rateRps durationS maxOutstanding expectedOutputElems endpoint payloads = .ok c)
    {started : ℚ} {es : List RateEvent} {s : RateState P}
    (hrun : exec (step c) (start started) es = some s) :
    (s.allTasks.countP RateTask.unfinished : Int) ≤ maxOutstanding ∧
    (∀ t ∈ s.allTasks, t.scheduledAt = started + t.index * (1 / rateRps) ∧
      t.createdAt < started + durationS ∧ t.createdAt - t.scheduledAt < 1 / rateRps) ∧
    es.length ≤ 4 * {k : Nat | (k : ℚ) / rateRps < durationS}.ncard + 2 ∧
    (∀ (x : Exchange) (reading : ℚ), s.clock ≤ reading → s.phase.over = true ∨
      ∃ e t, s.step c e = some t ∧ (t.clock = s.clock ∨ t.clock = reading) ∧
        ∀ i r y, e = .finish i r y → y = x) ∧
    (s.phase.over = true →
      ((∃ completed, s.phase = .returned completed ∧
          s.offered = {k : Nat | (k : ℚ) / rateRps < durationS}.ncard ∧
          s.offered = completed.length + s.missed ∧
          (∀ x ∈ s.sent, payloads.1[x.1 % payloads.1.length]? = some x.2) ∧
          s.sent.length = completed.length ∧
          ∃ skipped : List Nat, skipped.length = s.missed ∧
            (s.sent.map Prod.fst ++ skipped).Perm (List.range s.offered)) ↔
        ∀ i reading x, .finish i reading x ∈ es → x.Handled expectedOutputElems)) := by
  obtain ⟨rfl, rfl, rfl, rfl, hpayloads⟩ := checkRate_eq_ok hc
  have hinv : Inv c started s := exec_preserves (fun s e t hs ht ↦ hs.move (move_of_step ht)) hrun
    (inv_start c started)
  refine ⟨?_, ?_, ?_, ?_, ?_⟩
  · exact_mod_cast (countP_le_length hinv.covered).trans hinv.room
  · intro t ht
    have hpunctual := hinv.punctual t ht
    exact ⟨hpunctual.scheduled, hpunctual.inside, hpunctual.prompt⟩
  · have hcount := exec_countP_le (Q := fun _ ↦ True) (p := fun _ ↦ true)
      (fun s e t _ hs ht ↦ hs.move (move_of_step ht))
      (fun s e t _ hs ht ↦ remaining_lt (c := c) hs (move_of_step ht)) hrun (by simp)
      (inv_start c started)
    have hlength : es.countP (fun _ ↦ true) = es.length := congrFun List.countP_true es
    have hstart : (start started : RateState P).remaining c = 4 * c.arrivals + 2 := by
      simp [remaining, RatePhase.remaining, start]
    rw [c.ncard_arrivals]
    omega
  · intro x reading hclock
    cases hover : s.phase.over with
    | true => exact .inl rfl
    | false => exact .inr (exists_step hover hclock x)
  · intro hover
    rw [← failures_exec hrun, ← hinv.returned_iff hover, c.ncard_arrivals]
    refine ⟨fun ⟨completed, hphase, _⟩ ↦ ⟨completed, hphase⟩, ?_⟩
    rintro ⟨completed, hphase⟩
    obtain ⟨hoffered, htotal, hsent, hskipped⟩ := hinv.accounts hphase
    refine ⟨completed, hphase, hoffered, htotal, ?_, hsent, hskipped⟩
    intro x hx
    rw [hinv.payload x hx, ← hpayloads]
    exact List.getElem?_eq_getElem _

/-- An answer whose body is as it should be. -/
def goodAnswer : Exchange :=
  ⟨1 / 4, .response 200 (.ok (.dict [("request_id", .int 7),
    ("latency_ms", .float (.finite (3 / 2))),
    ("output", .list [.int 1, .float (.finite (1 / 3))])]))⟩

/-- Two arrivals a second for one and a half seconds, one request at a time. -/
def slowConfig : RateConfig Char :=
  ⟨2, 3 / 2, 1, some 2, "raw", ['a', 'b'], by norm_num, by norm_num, by decide, by decide⟩

/-- The first request is answered and outlasts the second arrival; the third arrival is sent and
times out. -/
def slowRun : List RateEvent :=
  [.poll 10, .wake 10, .send 0 10, .poll (21 / 2), .wake (21 / 2), .finish 0 (43 / 4) goodAnswer,
    .poll (43 / 4), .wake 11, .leave, .send 1 11,
    .finish 1 12 ⟨1, .raised .timeoutException⟩, .collect]

theorem open_loop_accounting_slow :
    checkRate 2 (3 / 2) 1 (some 2) "raw" ⟨['a', 'b'], by decide⟩ = .ok slowConfig ∧
      (∀ i reading x, .finish i reading x ∈ slowRun → x.Handled (some 2)) ∧
      ∃ s, exec (step slowConfig) (start 10) slowRun = some s ∧
        ∃ completed, s.phase = .returned completed ∧
          s.offered = {k : Nat | (k : ℚ) / 2 < 3 / 2}.ncard ∧
          s.offered = completed.length + s.missed ∧
          s.offered = 3 ∧ s.missed = 1 ∧ s.sent = [(0, 'a'), (2, 'a')] := by
  have hcheck : checkRate 2 (3 / 2) 1 (some 2) "raw" ⟨['a', 'b'], by decide⟩ = .ok slowConfig :=
    dif_neg (by norm_num)
  have hhandled : ∀ i reading x, .finish i reading x ∈ slowRun → x.Handled (some 2) := by
    intro i reading x hmem
    simp only [slowRun, List.mem_cons, reduceCtorEq, RateEvent.finish.injEq, List.not_mem_nil,
      false_or, or_false] at hmem
    rcases hmem with ⟨-, -, rfl⟩ | ⟨-, -, rfl⟩
    · exact (isOk_sendPayload "raw" goodAnswer).mp (by decide +kernel)
    · exact .inl rfl
  have hfacts : (exec (step slowConfig) (start 10) slowRun).map (fun s ↦
      (s.phase.over, s.offered, s.missed, s.sent)) =
      some (true, 3, 1, [(0, 'a'), (2, 'a')]) := by decide +kernel
  obtain ⟨s, hs, hfact⟩ := Option.map_eq_some_iff.mp hfacts
  simp only [Prod.mk.injEq] at hfact
  obtain ⟨hover, hoffered, hmissed, hsent⟩ := hfact
  obtain ⟨-, -, -, -, hend⟩ := open_loop_accounting hcheck hs
  obtain ⟨completed, hphase, hcount, htotal, -⟩ := (hend hover).mpr hhandled
  exact ⟨hcheck, hhandled, s, hs, completed, hphase, hcount, htotal, hoffered, hmissed, hsent⟩

/-- An answer with a latency of four hundred digits, which is JSON. -/
def hugeLatency : Exchange :=
  ⟨1 / 10, .response 200 (.ok (.dict [("request_id", .int 0), ("latency_ms", .int (10 ^ 399)),
    ("output", .list [])]))⟩

/-- One arrival in one second. -/
def singleConfig : RateConfig Char :=
  ⟨1, 1, 1, none, "raw", ['a'], by norm_num, by norm_num, by decide, by decide⟩

/-- `float` raises before the client can call the answer malformed, and `gather` raises what the
task raised: the phase never returns its accounts. -/
theorem huge_latency_loses_accounts :
    checkRate 1 1 1 none "raw" ⟨['a'], by decide⟩ = .ok singleConfig ∧
      ∃ s, exec (step singleConfig) (start 0)
          [.poll 0, .wake 0, .send 0 0, .leave, .finish 0 (1 / 10) hugeLatency, .collect] = some s ∧
        s.phase = .raised .overflowError ∧
        ∀ es t, exec (step singleConfig) s es = some t → ∀ completed,
          t.phase ≠ .returned completed := by
  refine ⟨dif_neg (by norm_num), ?_⟩
  have hfacts : (exec (step singleConfig) (start 0) [.poll 0, .wake 0, .send 0 0, .leave,
      .finish 0 (1 / 10) hugeLatency, .collect]).map RateState.phase =
      some (.raised .overflowError) := by decide +kernel
  obtain ⟨s, hs, hphase⟩ := Option.map_eq_some_iff.mp hfacts
  refine ⟨s, hs, hphase, ?_⟩
  intro es t ht completed hret
  cases (raised_exec hphase ht).symm.trans hret

end RateState
end InferenceServer.Benchmarks
