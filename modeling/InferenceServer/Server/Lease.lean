import InferenceServer.Base.Components
import InferenceServer.Base.Run
import InferenceServer.Server.Admission

/-!
# A lease in every order

Library `Server`. `python/cuda_db/server/admission.py:24–106` at the level of the lock-held
sections, with any number of leases. Assigning the work and registering its callback are two
steps, the future may be done before either, and the permit is returned outside the lease's lock.
What a lease did is the list of its operations, so that one lease can be looked at alone.
-/

namespace InferenceServer.Server

open InferenceServer.Base

/-- A lease, its work (done, callback registered, callback run), and how many calls have decided
to return the permit and are still before `_controller._release()`. -/
structure HeldLease where
  lease : AdmissionLease := {}
  done : Bool := false
  registered : Bool := false
  notified : Bool := false
  pending : Nat := 0
  deriving DecidableEq, Repr

/-- `done` tells whether the future is done when it is attached. -/
inductive LeaseOp where
  | attach (done : Bool)
  | complete
  | register
  | callback
  | finishHttp
  | release
  deriving DecidableEq, Repr

namespace HeldLease

/-- A section's new flags, and its decision. -/
def decided (h : HeldLease) (r : AdmissionLease × Bool) : HeldLease :=
  { h with lease := r.1, pending := h.pending + r.2.toNat }

/-- One section of one lease. A second `attach_work` raises and changes nothing. -/
def step (h : HeldLease) : LeaseOp → Option HeldLease
  | .attach done =>
    match h.lease.attachWork with
    | some lease => some { h with lease, done }
    | none => some h
  | .complete => if h.lease.work && !h.done then some { h with done := true } else none
  | .register => if h.lease.work && !h.registered then some { h with registered := true } else none
  | .callback =>
    if h.registered && h.done && !h.notified then
      some ({ h with notified := true }.decided h.lease.workDone)
    else none
  | .finishHttp => some (h.decided h.lease.finishHttp)
  | .release => if 0 < h.pending then some { h with pending := h.pending - 1 } else none

/-- Whether work was attached when a `finish_http` ran. -/
def workSeen (h : HeldLease) : LeaseOp → Option Bool
  | .finishHttp => some h.lease.work
  | _ => none

/-- Some `finish_http` ran without work, or one ran and the callback ran. -/
def Due (ops : List LeaseOp) : Prop :=
  false ∈ marks step workSeen {} ops ∨ (.finishHttp ∈ ops ∧ .callback ∈ ops)

/-- The flags of a lease tell its history. -/
structure Told (ops : List LeaseOp) (h : HeldLease) : Prop where
  http : h.lease.httpFinished = true ↔ .finishHttp ∈ ops
  notified : h.notified = true ↔ .callback ∈ ops
  finished : h.lease.workFinished = h.notified
  registered : h.notified = true → h.registered = true
  work : h.registered = true → h.lease.work = true
  released : h.lease.released = true ↔ Due ops
  calls : h.pending + ops.count .release = h.lease.released.toNat

theorem told_new : Told [] {} where
  http := by simp
  notified := by simp
  finished := rfl
  registered := by simp
  work := by simp
  released := by simp [Due, marks]
  calls := rfl

variable {ops : List LeaseOp} {op : LeaseOp} {h h' : HeldLease}

/-- What one more operation adds to the reasons to return the permit. -/
theorem due_snoc (hrun : exec step {} ops = some h) (op : LeaseOp) :
    Due (ops ++ [op]) ↔ Due ops ∨ h.workSeen op = some false ∨
      (op = .finishHttp ∧ .callback ∈ ops) ∨ (op = .callback ∧ .finishHttp ∈ ops) := by
  have hseen : false ∈ (h.workSeen op).toList ↔ h.workSeen op = some false := by
    cases h.workSeen op <;> simp [eq_comm]
  unfold Due
  rw [marks_snoc hrun, List.mem_append, hseen, List.mem_append, List.mem_append,
    List.mem_singleton, List.mem_singleton]
  constructor
  · rintro ((hmark | hnew) | ⟨hf | hf, hc | hc⟩)
    · exact .inl (.inl hmark)
    · exact .inr (.inl hnew)
    · exact .inl (.inr ⟨hf, hc⟩)
    · exact .inr (.inr (.inr ⟨hc.symm, hf⟩))
    · exact .inr (.inr (.inl ⟨hf.symm, hc⟩))
    · cases hf.trans hc.symm
  · rintro ((hmark | ⟨hf, hc⟩) | hnew | ⟨rfl, hc⟩ | ⟨rfl, hf⟩)
    · exact .inl (.inl hmark)
    · exact .inr ⟨.inl hf, .inl hc⟩
    · exact .inl (.inr hnew)
    · exact .inr ⟨.inr rfl, .inl hc⟩
    · exact .inr ⟨.inl hf, .inr rfl⟩

/-- An operation that neither finishes a side nor returns the permit. -/
theorem Told.silent (ht : Told ops h) (hrun : exec step {} ops = some h)
    (hf : op ≠ .finishHttp) (hc : op ≠ .callback) (hr : op ≠ .release)
    (hhttp : h'.lease.httpFinished = h.lease.httpFinished)
    (hfinished : h'.lease.workFinished = h.lease.workFinished)
    (hreleased : h'.lease.released = h.lease.released) (hnotified : h'.notified = h.notified)
    (hpending : h'.pending = h.pending)
    (hregistered : h'.notified = true → h'.registered = true)
    (hwork : h'.registered = true → h'.lease.work = true) : Told (ops ++ [op]) h' where
  http := by
    rw [hhttp, ht.http, List.mem_append, List.mem_singleton]
    exact ⟨.inl, fun hm ↦ hm.resolve_right (Ne.symm hf)⟩
  notified := by
    rw [hnotified, ht.notified, List.mem_append, List.mem_singleton]
    exact ⟨.inl, fun hm ↦ hm.resolve_right (Ne.symm hc)⟩
  finished := by rw [hfinished, hnotified, ht.finished]
  registered := hregistered
  work := hwork
  released := by
    have hseen : h.workSeen op ≠ some false := by
      cases op <;> simp_all [workSeen]
    rw [hreleased, ht.released, due_snoc hrun]
    simp only [hseen, hf, hc, false_and, or_false]
  calls := by
    rw [hpending, hreleased, List.count_append, List.count_singleton, if_neg (by simpa using hr),
      Nat.add_zero]
    exact ht.calls

/-- The callback tells the work's end and may decide to return the permit. -/
theorem Told.callback (ht : Told ops h) (hrun : exec step {} ops = some h)
    (hregistered : h.registered = true) :
    Told (ops ++ [LeaseOp.callback]) ({ h with notified := true }.decided h.lease.workDone) where
  http := by
    rw [List.mem_append, List.mem_singleton]
    exact ht.http.trans ⟨.inl, fun hm ↦ hm.resolve_right (by simp)⟩
  notified := by simp [decided]
  finished := rfl
  registered := fun _ ↦ hregistered
  work := fun _ ↦ ht.work hregistered
  released := by
    have hseen : h.workSeen .callback = none := rfl
    rw [due_snoc hrun, ← ht.released, ← ht.http, hseen]
    cases hr : h.lease.released <;> cases hh : h.lease.httpFinished <;>
      simp [decided, AdmissionLease.workDone, hr, hh]
  calls := by
    have hcalls := ht.calls
    rw [List.count_append, List.count_singleton]
    cases hr : h.lease.released <;> cases hh : h.lease.httpFinished <;>
      simp [decided, AdmissionLease.workDone, hr, hh] at hcalls ⊢ <;> omega

/-- `finish_http` tells the end of the HTTP side and may decide to return the permit. -/
theorem Told.finishHttp (ht : Told ops h) (hrun : exec step {} ops = some h) :
    Told (ops ++ [LeaseOp.finishHttp]) (h.decided h.lease.finishHttp) where
  http := by simp [decided, AdmissionLease.finishHttp]
  notified := by
    rw [List.mem_append, List.mem_singleton]
    exact ht.notified.trans ⟨.inl, fun hm ↦ hm.resolve_right (by simp)⟩
  finished := ht.finished
  registered := ht.registered
  work := ht.work
  released := by
    have hseen : h.workSeen .finishHttp = some h.lease.work := rfl
    rw [due_snoc hrun, ← ht.released, ← ht.notified, ← ht.finished, hseen]
    cases hr : h.lease.released <;> cases hw : h.lease.work <;>
      cases hf : h.lease.workFinished <;>
      simp [decided, AdmissionLease.finishHttp, hr, hw, hf]
  calls := by
    have hcalls := ht.calls
    rw [List.count_append, List.count_singleton]
    cases hr : h.lease.released <;> cases hw : h.lease.work <;>
      cases hf : h.lease.workFinished <;>
      simp [decided, AdmissionLease.finishHttp, hr, hw, hf] at hcalls ⊢ <;> omega

/-- `_controller._release()` of a call that decided so. -/
theorem Told.release (ht : Told ops h) (hrun : exec step {} ops = some h) (hp : 0 < h.pending) :
    Told (ops ++ [LeaseOp.release]) { h with pending := h.pending - 1 } where
  http := by
    rw [List.mem_append, List.mem_singleton]
    exact ht.http.trans ⟨.inl, fun hm ↦ hm.resolve_right (by simp)⟩
  notified := by
    rw [List.mem_append, List.mem_singleton]
    exact ht.notified.trans ⟨.inl, fun hm ↦ hm.resolve_right (by simp)⟩
  finished := ht.finished
  registered := ht.registered
  work := ht.work
  released := by
    have hseen : h.workSeen .release = none := rfl
    rw [due_snoc hrun, ← ht.released, hseen]
    simp
  calls := by
    have hcalls := ht.calls
    rw [List.count_append, List.count_singleton_self]
    simp only
    omega

/-- Every section keeps the flags true to the history. -/
theorem told_step (ht : Told ops h) (hrun : exec step {} ops = some h)
    (hstep : h.step op = some h') : Told (ops ++ [op]) h' := by
  cases op with
  | attach done =>
    simp only [step, AdmissionLease.attachWork] at hstep
    split at hstep
    · next lease hattach =>
      split at hattach
      · cases hattach
      · cases hattach
        cases hstep
        exact ht.silent hrun (by simp) (by simp) (by simp) rfl rfl rfl rfl rfl ht.registered
          fun _ ↦ rfl
    · cases hstep
      exact ht.silent hrun (by simp) (by simp) (by simp) rfl rfl rfl rfl rfl ht.registered ht.work
  | complete =>
    simp only [step] at hstep
    split at hstep
    · cases hstep
      exact ht.silent hrun (by simp) (by simp) (by simp) rfl rfl rfl rfl rfl ht.registered ht.work
    · cases hstep
  | register =>
    simp only [step] at hstep
    split at hstep
    · next hguard =>
      cases hstep
      rw [Bool.and_eq_true] at hguard
      exact ht.silent hrun (by simp) (by simp) (by simp) rfl rfl rfl rfl rfl (fun _ ↦ rfl)
        fun _ ↦ hguard.1
    · cases hstep
  | callback =>
    simp only [step] at hstep
    split at hstep
    · next hguard =>
      cases hstep
      rw [Bool.and_eq_true, Bool.and_eq_true] at hguard
      exact ht.callback hrun hguard.1.1
    · cases hstep
  | finishHttp =>
    cases hstep
    exact ht.finishHttp hrun
  | release =>
    simp only [step] at hstep
    split at hstep
    · next hp =>
      cases hstep
      exact ht.release hrun hp
    · cases hstep

theorem told_exec (hrun : exec step {} ops = some h) : Told ops h :=
  exec_induction (P := Told) told_new (fun _ _ _ _ hrun ht hstep ↦ told_step ht hrun hstep) hrun

end HeldLease

/-! ### Any number of leases -/

/-- The controller, the leases it handed out, and whether `_release` has raised. -/
structure LeaseSystem where
  controller : AdmissionController
  leases : List HeldLease := []
  raised : Bool := false
  deriving DecidableEq, Repr

inductive LeaseEvent where
  | acquire
  | close
  | on (i : Nat) (op : LeaseOp)
  deriving DecidableEq, Repr

namespace LeaseEvent

/-- The operation of this event on lease `i`. -/
def opOn (i : Nat) : LeaseEvent → Option LeaseOp
  | .on j op => if j = i then some op else none
  | _ => none

theorem opOn_self (i : Nat) (op : LeaseOp) : opOn i (.on i op) = some op := if_pos rfl

theorem opOn_ne {i j : Nat} (h : i ≠ j) (op : LeaseOp) : opOn i (.on j op) = none :=
  if_neg (Ne.symm h)

end LeaseEvent

namespace LeaseSystem

/-- A new controller. -/
def start (capacity : Nat) : LeaseSystem := { controller := { capacity } }

/-- `_release`, `admission.py:43–48`, with the defensive check. -/
def returnPermit (s : LeaseSystem) : LeaseSystem :=
  { s with
    controller := s.controller.release
    raised := s.raised || decide (s.controller.release.inflight < 0) }

/-- One lock-held section; an acquisition that gets nothing changes nothing. -/
def step (s : LeaseSystem) : LeaseEvent → Option LeaseSystem
  | .acquire =>
    match s.controller.tryAcquire with
    | some controller => some { s with controller, leases := s.leases ++ [{}] }
    | none => some s
  | .close => some { s with controller := s.controller.close }
  | .on i op =>
    match s.leases[i]? with
    | some h =>
      (h.step op).map fun h' ↦
        { (if op = .release then s.returnPermit else s) with leases := s.leases.set i h' }
    | none => none

/-- The operations on lease `i`. -/
def opsOf (i : Nat) (es : List LeaseEvent) : List LeaseOp := es.filterMap (LeaseEvent.opOn i)

variable {s t : LeaseSystem} {es : List LeaseEvent} {e : LeaseEvent} {i capacity : Nat}

theorem opsOf_snoc_none (h : e.opOn i = none) : opsOf i (es ++ [e]) = opsOf i es := by
  rw [opsOf, opsOf, List.filterMap_append, List.filterMap_cons_none h, List.filterMap_nil,
    List.append_nil]

theorem opsOf_snoc_some {op : LeaseOp} (h : e.opOn i = some op) :
    opsOf i (es ++ [e]) = opsOf i es ++ [op] := by
  rw [opsOf, opsOf, List.filterMap_append, List.filterMap_cons_some h, List.filterMap_nil]

/-- Every lease was handed out unused and did its own operations since. -/
structure Split (es : List LeaseEvent) (s : LeaseSystem) : Prop where
  each : ∀ i h, s.leases[i]? = some h → exec HeldLease.step {} (opsOf i es) = some h
  unborn : ∀ i, s.leases.length ≤ i → opsOf i es = []

/-- An event that concerns no lease. -/
theorem Split.silent (hs : Split es s) (hleases : t.leases = s.leases)
    (he : ∀ i, e.opOn i = none) : Split (es ++ [e]) t where
  each := by
    intro i h hi
    rw [opsOf_snoc_none (he i)]
    exact hs.each i h (hleases ▸ hi)
  unborn := by
    intro i hi
    rw [opsOf_snoc_none (he i)]
    exact hs.unborn i (hleases ▸ hi)

theorem split_step (hs : Split es s) (hstep : s.step e = some t) : Split (es ++ [e]) t := by
  cases e with
  | acquire =>
    simp only [step] at hstep
    split at hstep
    · cases hstep
      constructor
      · intro i h hi
        rw [opsOf_snoc_none rfl]
        rcases getElem?_snoc_cases hi with hi | ⟨rfl, rfl⟩
        · exact hs.each i h hi
        · rw [hs.unborn _ (Nat.le_refl _)]
          rfl
      · intro i hi
        rw [List.length_append] at hi
        rw [opsOf_snoc_none rfl, hs.unborn i (by omega)]
    · cases hstep
      exact hs.silent rfl fun _ ↦ rfl
  | close =>
    cases hstep
    exact hs.silent rfl fun _ ↦ rfl
  | on j op =>
    simp only [step] at hstep
    split at hstep
    · next h hj =>
      obtain ⟨h', hop, rfl⟩ := Option.map_eq_some_iff.mp hstep
      have hlength : j < s.leases.length := (List.getElem?_eq_some_iff.mp hj).1
      constructor
      · intro i g hi
        rcases getElem?_set_cases hi with ⟨rfl, rfl⟩ | ⟨hne, hi⟩
        · rw [opsOf_snoc_some (LeaseEvent.opOn_self i op)]
          exact exec_snoc_eq_some.mpr ⟨h, hs.each i h hj, hop⟩
        · rw [opsOf_snoc_none (LeaseEvent.opOn_ne hne op)]
          exact hs.each i g hi
      · intro i hi
        rw [List.length_set] at hi
        rw [opsOf_snoc_none (LeaseEvent.opOn_ne (by omega) op), hs.unborn i hi]
    · cases hstep

/-! ### The count of permits -/

/-- The permit of this lease is counted: not released yet, or released and not yet returned. -/
def holds (h : HeldLease) : Bool := !h.lease.released || decide (0 < h.pending)

/-- A decision moves the permit from the lease to the call that returns it. -/
theorem holds_decided {h : HeldLease} {r : AdmissionLease × Bool}
    (hr : r.1.released = (h.lease.released || r.2)) (hnew : r.2 = true → h.lease.released = false) :
    holds (h.decided r) = holds h := by
  unfold holds HeldLease.decided
  rw [hr]
  cases hr2 : r.2 with
  | true => simp [hnew hr2]
  | false => simp

/-- Only returning the permit stops the lease from counting. -/
theorem holds_step {h h' : HeldLease} {op : LeaseOp} (hop : op ≠ .release)
    (hstep : h.step op = some h') : holds h' = holds h := by
  cases op with
  | attach done =>
    simp only [HeldLease.step, AdmissionLease.attachWork] at hstep
    split at hstep
    · next lease hattach =>
      split at hattach
      · cases hattach
      · cases hattach
        cases hstep
        rfl
    · cases hstep
      rfl
  | complete =>
    simp only [HeldLease.step] at hstep
    split at hstep
    · cases hstep
      rfl
    · cases hstep
  | register =>
    simp only [HeldLease.step] at hstep
    split at hstep
    · cases hstep
      rfl
    · cases hstep
  | callback =>
    simp only [HeldLease.step] at hstep
    split at hstep
    · cases hstep
      apply (holds_decided rfl _).trans
      · rfl
      · intro hrel
        simp only [AdmissionLease.workDone, Bool.and_eq_true, Bool.not_eq_true'] at hrel
        exact hrel.2
    · cases hstep
  | finishHttp =>
    cases hstep
    apply holds_decided rfl
    intro hrel
    simp only [AdmissionLease.finishHttp, Bool.and_eq_true, Bool.not_eq_true'] at hrel
    exact hrel.2
  | release => exact absurd rfl hop

/-- The permits in flight are those of the leases that count. -/
structure Counted (s : LeaseSystem) : Prop where
  raised : s.raised = false
  inflight : s.controller.inflight = s.leases.countP holds

theorem counted_step (hs : Split es s) (hc : Counted s) (hstep : s.step e = some t) :
    Counted t := by
  cases e with
  | acquire =>
    simp only [step] at hstep
    split at hstep
    · next controller hacquire =>
      cases hstep
      obtain ⟨-, -, rfl⟩ := AdmissionController.tryAcquire_eq_some.mp hacquire
      refine ⟨hc.raised, ?_⟩
      have hnew : holds {} = true := rfl
      simp only [List.countP_append, List.countP_singleton, hnew, if_true, hc.inflight]
      omega
    · cases hstep
      exact hc
  | close =>
    cases hstep
    exact ⟨hc.raised, hc.inflight⟩
  | on j op =>
    simp only [step] at hstep
    split at hstep
    · next h hj =>
      obtain ⟨h', hop, rfl⟩ := Option.map_eq_some_iff.mp hstep
      have hcount := countP_set_eq (p := holds) (b := h') hj
      by_cases hrel : op = .release
      · -- a call that returns a permit was counted, and is the only one of its lease
        subst hrel
        have htold := HeldLease.told_exec (hs.each j h hj)
        have hcalls := htold.calls
        simp only [HeldLease.step] at hop
        split at hop
        · next hpending =>
          cases hop
          have hreleased : h.lease.released = true := by
            cases hr : h.lease.released with
            | true => rfl
            | false =>
              rw [hr, Bool.toNat_false] at hcalls
              omega
          rw [hreleased, Bool.toNat_true] at hcalls
          have hbefore : holds h = true := by simp [holds, hpending]
          have hafter : holds { h with pending := h.pending - 1 } = false := by
            simp only [holds, hreleased, Bool.not_true, Bool.false_or, decide_eq_false_iff_not]
            omega
          have hpos : 0 < s.leases.countP holds :=
            List.countP_pos_iff.mpr ⟨h, List.mem_of_getElem? hj, hbefore⟩
          rw [hbefore, hafter, Bool.toNat_true, Bool.toNat_false] at hcount
          have hinflight := hc.inflight
          constructor
          · change (s.raised || decide (s.controller.inflight - 1 < 0)) = false
            rw [hc.raised, Bool.false_or]
            exact decide_eq_false (by omega)
          · change s.controller.inflight - 1 =
              ((s.leases.set j { h with pending := h.pending - 1 }).countP holds : Int)
            omega
        · cases hop
      · rw [holds_step hrel hop] at hcount
        have hinflight := hc.inflight
        constructor
        · simp only [if_neg hrel]
          exact hc.raised
        · simp only [if_neg hrel]
          omega
    · cases hstep

/-- In every order of the sections of any number of leases, a lease's permit is returned at most
once. A call has decided to return it exactly when some `finish_http` ran without work attached, or
a `finish_http` and the work's callback ran; unless such a call is still on its way, the permit has
been returned exactly then. The count never becomes negative. -/
theorem lease_releases_once (hrun : exec step (start capacity) es = some s) :
    s.raised = false ∧ 0 ≤ s.controller.inflight ∧
    ∀ i h, s.leases[i]? = some h →
      (opsOf i es).count .release ≤ 1 ∧
      (h.pending + (opsOf i es).count .release = 1 ↔
        false ∈ marks HeldLease.step HeldLease.workSeen {} (opsOf i es) ∨
          (.finishHttp ∈ opsOf i es ∧ .callback ∈ opsOf i es)) ∧
      (h.pending = 0 → (.release ∈ opsOf i es ↔
        false ∈ marks HeldLease.step HeldLease.workSeen {} (opsOf i es) ∨
          (.finishHttp ∈ opsOf i es ∧ .callback ∈ opsOf i es))) := by
  have hinv : Split es s ∧ Counted s := by
    apply exec_induction (P := fun es s ↦ Split es s ∧ Counted s) _ _ hrun
    · exact ⟨⟨by simp [start], by simp [opsOf]⟩, ⟨rfl, rfl⟩⟩
    · intro es s e t _ h hstep
      exact ⟨split_step h.1 hstep, counted_step h.1 h.2 hstep⟩
  obtain ⟨hsplit, hcounted⟩ := hinv
  refine ⟨hcounted.raised, ?_, ?_⟩
  · rw [hcounted.inflight]
    omega
  · intro i h hi
    have htold := HeldLease.told_exec (hsplit.each i h hi)
    have hcalls := htold.calls
    have hdue := htold.released
    unfold HeldLease.Due at hdue
    rw [← hdue]
    cases hr : h.lease.released with
    | true =>
      rw [hr, Bool.toNat_true] at hcalls
      refine ⟨by omega, iff_of_true (by omega) rfl, ?_⟩
      intro hpending
      have hpos : 0 < (opsOf i es).count .release := by omega
      exact iff_of_true (List.count_pos_iff.mp hpos) rfl
    | false =>
      rw [hr, Bool.toNat_false] at hcalls
      refine ⟨by omega, iff_of_false (by omega) (by simp), ?_⟩
      intro _
      have hzero : (opsOf i es).count .release = 0 := by omega
      exact iff_of_false (List.count_eq_zero.mp hzero) (by simp)

/-- The work is assigned, HTTP finishes, and only then the callback of the finished future is
registered. -/
theorem lease_releases_once_late :
    ∃ s, exec step (start 1) [.acquire, .on 0 (.attach true), .on 0 .finishHttp, .on 0 .register,
        .on 0 .callback, .on 0 .release] = some s ∧
      s.raised = false ∧ s.controller.inflight = 0 ∧
      (opsOf 0 [.acquire, .on 0 (.attach true), .on 0 .finishHttp, .on 0 .register,
        .on 0 .callback, .on 0 .release]).count .release ≤ 1 := by
  have hrun : exec step (start 1) [.acquire, .on 0 (.attach true), .on 0 .finishHttp,
      .on 0 .register, .on 0 .callback, .on 0 .release] =
      some ⟨⟨1, 0, false⟩, [⟨⟨true, true, true, true⟩, true, true, true, 0⟩], false⟩ := by decide
  obtain ⟨hraised, -, hleases⟩ := lease_releases_once hrun
  exact ⟨_, hrun, hraised, rfl, (hleases 0 _ rfl).1⟩

end LeaseSystem
end InferenceServer.Server
