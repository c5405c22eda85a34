import InferenceServer.Engine.Interface

/-!
# Permits and leases

Library `Server`. `python/cuda_db/server/admission.py:24–106`. Each definition is one
lock-held section. A lease's sections say whether the caller has to return the permit
afterwards, which is a section of the controller and so a step of its own.
-/

namespace InferenceServer.Server

/-- `AdmissionController`, without the condition variable. -/
structure AdmissionController where
  capacity : Nat
  inflight : Int := 0
  closed : Bool := false
  deriving DecidableEq, Repr

namespace AdmissionController

/-- `try_acquire`, `admission.py:31–36`. -/
def tryAcquire (c : AdmissionController) : Option AdmissionController :=
  if c.closed ∨ (c.capacity : Int) ≤ c.inflight then none
  else some { c with inflight := c.inflight + 1 }

/-- `close`, `admission.py:38–41`. -/
def close (c : AdmissionController) : AdmissionController := { c with closed := true }

/-- `_release`, `admission.py:43–48`, up to the defensive check. -/
def release (c : AdmissionController) : AdmissionController :=
  { c with inflight := c.inflight - 1 }

/-- The condition of `_wait_until_drained`, `admission.py:50–52`. -/
def drained (c : AdmissionController) : Bool := c.inflight == 0

/-- An open controller below its capacity hands out a permit, and no other does. -/
theorem tryAcquire_eq_some {c d : AdmissionController} :
    c.tryAcquire = some d ↔
      c.closed = false ∧ c.inflight < c.capacity ∧ d = { c with inflight := c.inflight + 1 } := by
  unfold tryAcquire
  split
  · next h =>
    constructor
    · intro hc
      cases hc
    · rintro ⟨hopen, hlt, -⟩
      rcases h with hc | hle
      · rw [hopen] at hc
        cases hc
      · omega
  · next h =>
    rw [not_or, Bool.not_eq_true, Int.not_le] at h
    constructor
    · intro hc
      cases hc
      exact ⟨h.1, h.2, rfl⟩
    · rintro ⟨-, -, rfl⟩
      rfl

end AdmissionController

/-- `AdmissionLease`; `work` tells whether a native future is attached. -/
structure AdmissionLease where
  httpFinished : Bool := false
  work : Bool := false
  workFinished : Bool := false
  released : Bool := false
  deriving DecidableEq, Repr

namespace AdmissionLease

/-- The locked section of `attach_work`, `admission.py:77–81`; a second one raises. -/
def attachWork (l : AdmissionLease) : Option AdmissionLease :=
  if l.work then none else some { l with work := true }

/-- The locked section of `_work_done`, `admission.py:89–94`, and whether to release. -/
def workDone (l : AdmissionLease) : AdmissionLease × Bool :=
  let release := l.httpFinished && !l.released
  ({ l with workFinished := true, released := l.released || release }, release)

/-- The locked section of `finish_http`, `admission.py:99–104`, and whether to release. -/
def finishHttp (l : AdmissionLease) : AdmissionLease × Bool :=
  let release := (!l.work || l.workFinished) && !l.released
  ({ l with httpFinished := true, released := l.released || release }, release)

/-- Released exactly when both sides are finished. -/
def Settled (l : AdmissionLease) : Prop :=
  l.released = (l.httpFinished && (!l.work || l.workFinished))

theorem settled_new : Settled {} := rfl

/-- Attaching before the HTTP side is finished. -/
theorem Settled.attachWork {l l' : AdmissionLease} (h : l.Settled) (hh : l.httpFinished = false)
    (ha : l.attachWork = some l') :
    l'.Settled ∧ l' = { l with work := true } := by
  unfold AdmissionLease.attachWork at ha
  split at ha
  · cases ha
  · cases ha
    refine ⟨?_, rfl⟩
    simp only [Settled, hh, Bool.false_and] at h ⊢
    exact h

/-- The callback releases exactly when the HTTP side finished before it. -/
theorem Settled.workDone {l : AdmissionLease} (h : l.Settled) (hw : l.work = true)
    (hf : l.workFinished = false) :
    l.workDone.1.Settled ∧ l.workDone.2 = l.httpFinished ∧
      l.workDone.1 = { l with workFinished := true, released := l.httpFinished } := by
  obtain ⟨httpFinished, work, workFinished, released⟩ := l
  simp only at hw hf
  subst hw hf
  simp only [Settled, Bool.not_true, Bool.false_or, Bool.and_false] at h
  subst h
  cases httpFinished <;> simp [AdmissionLease.workDone, Settled]

/-- Finishing HTTP releases exactly when no work is attached or the work finished before it. -/
theorem Settled.finishHttp {l : AdmissionLease} (h : l.Settled) (hh : l.httpFinished = false) :
    l.finishHttp.1.Settled ∧ l.finishHttp.2 = (!l.work || l.workFinished) ∧
      l.finishHttp.1 = { l with httpFinished := true, released := !l.work || l.workFinished } := by
  obtain ⟨httpFinished, work, workFinished, released⟩ := l
  simp only at hh
  subst hh
  simp only [Settled, Bool.false_and] at h
  subst h
  cases work <;> cases workFinished <;> simp [AdmissionLease.finishHttp, Settled]

end AdmissionLease
end InferenceServer.Server
