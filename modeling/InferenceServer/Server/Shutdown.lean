import InferenceServer.Server.Failure

/-!
# Shutdown and inference

Library `Server`. `stop_runtime`, `app.py:53–67`, closes admission, waits until no permit is in use,
joins the startup probe and only then calls `runtime.shutdown`. A closed and drained controller
stays so, which is what keeps requests away from a stopped scheduler; the probe holds no permit
and depends on the join alone.
-/

namespace InferenceServer.Server

open InferenceServer.Base

variable {F : Type}

/-! ### Calls that were really run -/

/-- Never refused by a stopped scheduler, and with a result once it is no longer running. -/
def Work.Genuine (w : Work F) : Prop :=
  w.rejected = false ∧ (w.phase.isActive = false → w.outcome.isSome = true)

/-- Progress with a running scheduler. -/
theorem Work.Genuine.advance {stopped : Nat → Bool} {w w' : Work F} {ev : WorkEvent F}
    (h : w.Genuine) (hs : stopped w.runtime = false) (hadv : w.Advance stopped ev w') :
    w'.Genuine ∧ w'.runtime = w.runtime ∧ w.phase.isActive = true := by
  cases hadv with
  | take hp => exact ⟨⟨h.1, nofun⟩, rfl, by rw [hp]; rfl⟩
  | submit hp => exact ⟨⟨h.1, nofun⟩, rfl, by rw [hp]; rfl⟩
  | missized hp => exact ⟨⟨h.1, fun _ ↦ rfl⟩, rfl, by rw [hp]; rfl⟩
  | reject hp hstop =>
    rw [hs] at hstop
    cases hstop
  | complete hp => exact ⟨⟨h.1, fun _ ↦ rfl⟩, rfl, by rw [hp]; rfl⟩

/-- A worker only moves a call that is queued or running. -/
theorem Work.Advance.isActive {stopped : Nat → Bool} {w w' : Work F} {ev : WorkEvent F}
    (h : w.Advance stopped ev w') : w.phase.isActive = true := by
  cases h with
  | take hp => rw [hp]; rfl
  | submit hp => rw [hp]; rfl
  | missized hp => rw [hp]; rfl
  | reject hp => rw [hp]; rfl
  | complete hp => rw [hp]; rfl

namespace Request

/-- The request's native call was really run. -/
def Genuine (r : Request F) : Prop := ∀ w, r.work = some w → w.Genuine

/-- A change that touches neither the result nor the running of the call. -/
theorem Genuine.change {r r' : Request F} {w w' : Work F} (h : r.Genuine) (hw : r.work = some w)
    (hw' : r'.work = some w') (hr : w'.rejected = w.rejected) (ho : w'.outcome = w.outcome)
    (ha : w'.phase.isActive = false → w.phase.isActive = false) : r'.Genuine := by
  intro w₁ hw₁
  rw [hw'] at hw₁
  cases hw₁
  refine ⟨hr.trans (h w hw).1, ?_⟩
  intro hover
  rw [ho]
  exact (h w hw).2 (ha hover)

/-- Steps of a request keep that while its scheduler is running. -/
theorem Genuine.step {cfg : Config F} {g : Shared} {r r' : Request F} {effect : Effect}
    {ev : Event F} (h : r.Genuine)
    (hs : ∀ w, r.work = some w → w.phase.isActive = true → g.isStopped w.runtime = false)
    (hstep : r.step cfg g ev = some (r', effect)) : r'.Genuine := by
  cases step_cases hstep with
  | middleware hmove =>
    cases hmove with
    | overloaded _ hp => cases hp <;> exact h
    | acquire _ hp => cases hp <;> exact h
    | _ => exact h
  | app hmove =>
    cases hmove with
    | submit =>
      rintro _ ⟨⟩
      exact ⟨rfl, nofun⟩
    | submitRead =>
      rintro _ ⟨⟩
      exact ⟨rfl, nofun⟩
    | register _ _ hw => exact h.change hw rfl rfl rfl id
    | wrap _ hw => exact h.change hw rfl rfl rfl id
    | _ => exact h
  | watcher hmove => cases hmove <;> exact h
  | native hw hmove =>
    cases hmove with
    | advance hadv =>
      rintro _ ⟨⟩
      exact ((h _ hw).advance (hs _ hw hadv.isActive) hadv).1
    | callback hp => exact h.change hw rfl rfl rfl fun _ ↦ by rw [hp]; rfl
    | noCallback hp => exact h.change hw rfl rfl rfl fun _ ↦ by rw [hp]; rfl
    | release hp => exact h.change hw rfl rfl rfl fun _ ↦ by rw [hp]; rfl
    | chain hp => exact h.change hw rfl rfl rfl fun _ ↦ by rw [hp]; rfl
    | observe => exact h.change hw rfl rfl rfl id

/-- A request that holds no permit submits nothing. -/
theorem Ok.submission_eq {cfg : Config F} {g : Shared} {r r' : Request F} {effect : Effect}
    {ev : Event F} (h : r.Ok) (hu : r.unfinished = false)
    (hstep : r.step cfg g ev = some (r', effect)) : r'.submission = r.submission := by
  cases step_cases hstep with
  | middleware hmove =>
    cases hmove with
    | overloaded _ hp => cases hp <;> rfl
    | acquire _ hp => cases hp <;> rfl
    | _ => rfl
  | app hmove =>
    cases hmove with
    | submit ha hl =>
      obtain ⟨l, hl⟩ := Option.isSome_iff_exists.mp hl
      have hstage := h.http_of_running hl (by rw [ha]; rfl)
      rw [unfinished_of_stage hl (by rw [hstage]; nofun)] at hu
      cases hu
    | submitRead ha m hs =>
      have hnone := (h.unleased (h.lease_of_reading ha)).2.2.1
      rw [hs.deadline] at hnone
      cases hnone
    | _ => rfl
  | watcher hmove => cases hmove <;> rfl
  | native _ hmove => cases hmove <;> rfl

end Request

/-! ### The invariant -/

/-- `drain` has returned and `stop_runtime` goes on. -/
def LifespanPc.isDrained : LifespanPc → Bool
  | .drained => true
  | .joinProbe => true
  | .stopRuntime => true
  | .stopExecutor => true
  | _ => false

namespace Application

variable {cfg : Config F} {s t : Application F}

/-- Closed, with no permit in use. -/
def Quiesced (s : Application F) : Prop :=
  s.shared.admission.closed = true ∧ s.shared.admission.inflight = 0

/-- All calls of `executor.submit` for requests. -/
def submissions (s : Application F) : List (Submission F) := s.requests.filterMap (·.submission)

/-- No request of a quiesced application holds a permit. -/
theorem Quiesced.unfinished_eq (h : Quiesced s) (hb : Balanced cfg s) {r : Request F}
    (hr : r ∈ s.requests) : r.unfinished = false := by
  have hcount := hb.inflight
  rw [h.2] at hcount
  exact countP_eq_zero_apply (by omega) hr

/-- So none has a native call queued or running. -/
theorem Quiesced.predicting_eq (h : Quiesced s) (hb : Balanced cfg s) {r : Request F}
    (hr : r ∈ s.requests) : r.predicting = false := by
  cases hp : r.predicting with
  | false => rfl
  | true =>
    have hun := (hb.ok r hr).unfinished_of_predicting hp
    rw [h.unfinished_eq hb hr] at hun
    cases hun

/-- A quiesced application stays quiesced. -/
theorem Quiesced.step (h : Quiesced s) (hb : Balanced cfg s) {e : Event F}
    (ht : s.step cfg e = some t) : Quiesced t := by
  have hclosed := (staysClosed_step h.1 ht).closed
  refine ⟨hclosed, ?_⟩
  cases step_cases ht with
  | @request i ev r r' effect hr hstep =>
    have hbt := (hb.step ht).inflight
    change (s.shared.apply effect).admission.inflight = 0
    change (s.shared.apply effect).admission.inflight = _ at hbt
    cases effect with
    | none => exact h.2
    | outOfService => exact h.2
    | acquire =>
      obtain ⟨c, hc⟩ := Request.tryAcquire_of_step hstep
      have hopen := (AdmissionController.tryAcquire_eq_some.mp hc).1
      rw [h.1] at hopen
      cases hopen
    | release =>
      -- the count would become negative
      change s.shared.admission.inflight - 1 = _ at hbt
      have hzero := h.2
      omega
  | lifespan hmove =>
    rcases hmove.admission_eq with heq | heq
    · rw [heq]
      exact h.2
    · rw [heq]
      exact h.2
  | _ => exact h.2

/-- And nothing more is submitted for a request. -/
theorem Quiesced.submissions_eq (h : Quiesced s) (hb : Balanced cfg s) {e : Event F}
    (ht : s.step cfg e = some t) : t.submissions = s.submissions := by
  cases step_cases ht with
  | arrive scope =>
    rw [submissions, List.filterMap_append]
    exact List.append_nil _
  | @request i ev r r' effect hr hstep =>
    have hmem := List.mem_of_getElem? hr
    have hsub := (hb.ok r hmem).submission_eq (h.unfinished_eq hb hmem) hstep
    exact filterMap_set_eq hr hsub
  | lifespan hmove => rw [submissions, hmove.requests_eq, submissions]
  | _ => rfl

/-- What holds while no cancellation strikes the join of the probe. -/
structure Orderly (s : Application F) : Prop where
  draining : s.lifespan.pc = .draining → s.shared.admission.closed = true
  drained : s.lifespan.pc.isDrained = true → s.Quiesced
  called : ∀ j ∈ s.runtimeShutdowns, s.Quiesced ∧ j < s.shared.runtimes.length
  stopped : ∀ j, s.shared.isStopped j = true → j ∈ s.runtimeShutdowns
  runtime : ∀ j, s.lifespan.runtime = some j → j < s.shared.runtimes.length
  /-- a running probe belongs to a runtime that nobody stops; if it is the lifespan's own
  runtime, the lifespan knows of the probe -/
  probe : ∀ (k : Nat) (w : Work F), s.probes[k]? = some w → w.phase.isActive = true →
    (w.runtime < s.shared.runtimes.length ∧ w.runtime ∉ s.runtimeShutdowns) ∧
      (s.lifespan.runtime = some w.runtime → s.lifespan.startupProbe = some k)
  requests : ∀ r ∈ s.requests, r.Genuine
  probes : ∀ w ∈ s.probes, w.Genuine

theorem orderly_init (cfg : Config F) : Orderly (init cfg) where
  draining h := by cases h
  drained h := by cases h
  called _ h := absurd h List.not_mem_nil
  stopped _ h := by cases h
  runtime _ h := by cases h
  probe _ _ h := by cases h
  requests _ h := absurd h List.not_mem_nil
  probes _ h := absurd h List.not_mem_nil

/-- Steps that leave the requests, the probes and the shutdown calls alone. -/
theorem Orderly.frame (h : s.Orderly) (hreq : t.requests = s.requests)
    (hprobes : t.probes = s.probes) (hcalls : t.runtimeShutdowns = s.runtimeShutdowns)
    (hlen : s.shared.runtimes.length ≤ t.shared.runtimes.length)
    (hstop : ∀ j, t.shared.isStopped j = s.shared.isStopped j)
    (hq : s.Quiesced → t.Quiesced)
    (hdraining : t.lifespan.pc = .draining → t.shared.admission.closed = true)
    (hdrained : t.lifespan.pc.isDrained = true → t.Quiesced)
    (hruntime : ∀ j, t.lifespan.runtime = some j → j < t.shared.runtimes.length)
    (hown : ∀ (k : Nat) (w : Work F), s.probes[k]? = some w → w.phase.isActive = true →
      t.lifespan.runtime = some w.runtime → t.lifespan.startupProbe = some k) : t.Orderly where
  draining := hdraining
  drained := hdrained
  called j hj := by
    rw [hcalls] at hj
    obtain ⟨hquiet, hlt⟩ := h.called j hj
    exact ⟨hq hquiet, by omega⟩
  stopped j hj := by
    rw [hstop] at hj
    rw [hcalls]
    exact h.stopped j hj
  runtime := hruntime
  probe k w hw hactive := by
    rw [hprobes] at hw
    obtain ⟨⟨hlt, hno⟩, -⟩ := h.probe k w hw hactive
    refine ⟨⟨by omega, ?_⟩, hown k w hw hactive⟩
    rw [hcalls]
    exact hno
  requests := by
    rw [hreq]
    exact h.requests
  probes := by
    rw [hprobes]
    exact h.probes

/-- The coroutine moves on and nothing else changes but the digests and the executors' calls. -/
theorem Orderly.move (h : s.Orderly) (hreq : t.requests = s.requests)
    (hprobes : t.probes = s.probes)
    (hcalls : t.runtimeShutdowns = s.runtimeShutdowns)
    (hrt : t.shared.runtimes = s.shared.runtimes) (hadm : t.shared.admission = s.shared.admission)
    (hruntime : t.lifespan.runtime = s.lifespan.runtime)
    (hprobe : t.lifespan.startupProbe = s.lifespan.startupProbe)
    (hdraining : t.lifespan.pc ≠ .draining)
    (hdrained : t.lifespan.pc.isDrained = true → s.Quiesced) : t.Orderly := by
  have hq : s.Quiesced → t.Quiesced := by
    intro hquiet
    rw [Quiesced, hadm]
    exact hquiet
  apply h.frame hreq hprobes hcalls (Nat.le_of_eq (by rw [hrt])) ?_ hq
    (fun hd ↦ absurd hd hdraining) (fun hd ↦ hq (hdrained hd)) ?_ ?_
  · intro j
    rw [Shared.isStopped, hrt]
    rfl
  · intro j hj
    rw [hruntime] at hj
    rw [hrt]
    exact h.runtime j hj
  · intro k w hw hactive hown
    rw [hruntime] at hown
    rw [hprobe]
    exact (h.probe k w hw hactive).2 hown

theorem stopExecutor_orderly (h : s.Orderly) (hq : s.Quiesced) : (s.stopExecutor cfg).Orderly := by
  unfold stopExecutor
  split
  · exact h.move rfl rfl rfl rfl rfl rfl rfl nofun fun _ ↦ hq
  · exact h.move rfl rfl rfl rfl rfl rfl rfl nofun nofun

/-- `runtime.shutdown` is called after the lifespan's own probe is done. -/
theorem stopRuntime_orderly (h : s.Orderly) (hq : s.Quiesced) (hp : s.runningProbe = none) :
    (s.stopRuntime cfg).Orderly := by
  unfold stopRuntime
  split
  · next j hj =>
    have hlt := h.runtime j hj
    refine ⟨nofun, fun _ ↦ hq, ?_, ?_, h.runtime, ?_, h.requests, h.probes⟩
    · exact forall_mem_snoc h.called ⟨hq, hlt⟩
    · intro i hi
      exact List.mem_append_left _ (h.stopped i hi)
    · intro k w hw hactive
      obtain ⟨⟨hbound, hno⟩, hown⟩ := h.probe k w hw hactive
      refine ⟨⟨hbound, ?_⟩, hown⟩
      intro hmem
      rcases List.mem_append.mp hmem with hmem | hmem
      · exact hno hmem
      · -- a running probe of this runtime is the one the lifespan joined
        have hrt : w.runtime = j := List.mem_singleton.mp hmem
        have hk := hown (hj.trans (congrArg some hrt.symm))
        change s.probes[k]? = some w at hw
        rw [runningProbe, hk, Option.bind_some, hw, Option.filter_some, if_pos hactive] at hp
        cases hp
  · exact stopExecutor_orderly h hq

/-- A lifespan with no runtime of its own, or a new one that has no probe yet. -/
theorem Orderly.startOver (h : s.Orderly) (digests : Option (List ApiKeyRecord))
    (executors : List Bool) (executor : Option Nat) (detail : String) :
    (stop { s with shared := { s.shared with digests, executors }, lifespan := { executor } }
        detail).Orderly ∧
      (stop
        { s with
          shared := { s.shared with digests, executors, runtimes := s.shared.runtimes ++ [false] }
          lifespan := { executor, runtime := some s.shared.runtimes.length } } detail).Orderly := by
  constructor
  · exact h.frame rfl rfl rfl (Nat.le_refl _) (fun _ ↦ rfl) (fun hq ↦ ⟨rfl, hq.2⟩) (fun _ ↦ rfl)
      (fun hd ↦ absurd hd Bool.false_ne_true) (fun _ hj ↦ absurd hj (Option.some_ne_none _).symm)
      (fun _ _ _ _ hown ↦ absurd hown (Option.some_ne_none _).symm)
  · refine h.frame rfl rfl rfl ?_ (isStopped_snoc s.shared) (fun hq ↦ ⟨rfl, hq.2⟩)
      (fun _ ↦ rfl) (fun hd ↦ absurd hd Bool.false_ne_true) ?_ ?_
    · change _ ≤ (s.shared.runtimes ++ [false]).length
      rw [List.length_append]
      omega
    · rintro _ ⟨⟩
      change _ < (s.shared.runtimes ++ [false]).length
      rw [List.length_append, List.length_singleton]
      omega
    · intro k w hw hactive hown
      have hlt := (h.probe k w hw hactive).1.1
      have heq : s.shared.runtimes.length = w.runtime := Option.some.inj hown
      omega

/-- The probe of a new runtime. -/
theorem Orderly.startProbe (h : s.Orderly) (digests : Option (List ApiKeyRecord))
    (executors : List Bool) (executor : Nat) (array : List F) :
    Orderly
      { s with
        shared :=
          { s.shared with
            ready := false, readinessDetail := "starting", digests, executors
            runtimes := s.shared.runtimes ++ [false] }
        probes := s.probes ++ [{ array, executor, runtime := s.shared.runtimes.length }]
        lifespan :=
          { pc := .awaitProbe, runtime := some s.shared.runtimes.length
            startupProbe := some s.probes.length, executor := some executor } } := by
  have hlen : (s.shared.runtimes ++ [false]).length = s.shared.runtimes.length + 1 := by
    rw [List.length_append, List.length_singleton]
  refine ⟨nofun, nofun, ?_, ?_, ?_, ?_, h.requests, forall_mem_snoc h.probes ⟨rfl, nofun⟩⟩
  · intro j hj
    obtain ⟨hq, hlt⟩ := h.called j hj
    refine ⟨hq, ?_⟩
    change j < (s.shared.runtimes ++ [false]).length
    omega
  · intro j hj
    apply h.stopped j
    rw [← isStopped_snoc]
    exact hj
  · rintro _ ⟨⟩
    change _ < (s.shared.runtimes ++ [false]).length
    omega
  · intro k w hw hactive
    change (w.runtime < (s.shared.runtimes ++ [false]).length ∧ _) ∧ _
    rw [hlen]
    rcases getElem?_snoc_cases hw with hw | ⟨rfl, rfl⟩
    · obtain ⟨⟨hlt, hno⟩, -⟩ := h.probe k w hw hactive
      refine ⟨⟨by omega, hno⟩, ?_⟩
      intro hown
      have heq : s.shared.runtimes.length = w.runtime := Option.some.inj hown
      omega
    · refine ⟨⟨Nat.lt_succ_self _, ?_⟩, fun _ ↦ rfl⟩
      intro hmem
      exact Nat.lt_irrefl _ (h.called _ hmem).2

/-- The lifespan keeps order unless a cancellation strikes the join of the probe. -/
theorem Orderly.lifespanMove (h : s.Orderly) {ev : LifespanEvent}
    (hjoin : s.lifespan.pc = .joinProbe → ev ≠ .cancel) (hmove : LifespanMove cfg s ev t) :
    t.Orderly := by
  cases hmove with
  | startFails hpc digests executors executor detail =>
    exact (h.startOver digests executors executor detail).1
  | startRefused hpc digests executors executor detail =>
    exact (h.startOver digests executors executor detail).2
  | startProbe hpc digests executors executor => exact h.startProbe digests executors executor _
  | stop hpc detail =>
    exact h.frame rfl rfl rfl (Nat.le_refl _) (fun _ ↦ rfl) (fun hq ↦ ⟨rfl, hq.2⟩) (fun _ ↦ rfl)
      nofun h.runtime fun k w hw ha ↦ (h.probe k w hw ha).2
  | ready hpc => exact h.move rfl rfl rfl rfl rfl rfl rfl nofun nofun
  | drained hpc hd =>
    refine h.move rfl rfl rfl rfl rfl rfl rfl nofun fun _ ↦ ⟨h.draining hpc, ?_⟩
    exact eq_of_beq hd
  | joinProbe hpc =>
    exact h.move rfl rfl rfl rfl rfl rfl rfl nofun fun _ ↦ h.drained (by rw [hpc]; rfl)
  | stopRuntime hpc hp =>
    refine stopRuntime_orderly h (h.drained ?_) hp
    rcases hpc with hpc | hpc <;> rw [hpc] <;> rfl
  | joinCancelled hpc => exact absurd rfl (hjoin hpc)
  | abandoned hpc => exact h.move rfl rfl rfl rfl rfl rfl rfl nofun nofun
  | stopExecutor hpc => exact stopExecutor_orderly h (h.drained (by rw [hpc]; rfl))
  | clear hpc => exact h.move rfl rfl rfl rfl rfl rfl rfl nofun nofun

/-- A request's native call never meets a stopped scheduler. -/
theorem Orderly.not_stopped (h : s.Orderly) (hb : Balanced cfg s) {r : Request F}
    (hr : r ∈ s.requests) {w : Work F} (hw : r.work = some w) (hactive : w.phase.isActive = true) :
    s.shared.isStopped w.runtime = false := by
  cases hstop : s.shared.isStopped w.runtime with
  | false => rfl
  | true =>
    have hq := (h.called _ (h.stopped _ hstop)).1
    have hp := hq.predicting_eq hb hr
    rw [Request.predicting_iff.mpr ⟨w, hw, hactive⟩] at hp
    cases hp

/-- A step of one request. -/
theorem Orderly.request (h : s.Orderly) (hb : Balanced cfg s) {i : Nat} {r r' : Request F}
    {effect : Effect} {ev : Request.Event F} (hr : s.requests[i]? = some r)
    (hstep : r.step cfg s.shared ev = some (r', effect))
    (hq : s.Quiesced →
      Quiesced { s with shared := s.shared.apply effect, requests := s.requests.set i r' }) :
    Orderly { s with shared := s.shared.apply effect, requests := s.requests.set i r' } := by
  have hmem := List.mem_of_getElem? hr
  have hstop (j : Nat) : (s.shared.apply effect).isStopped j = s.shared.isStopped j := by
    rw [Shared.isStopped, apply_runtimes]
    rfl
  refine ⟨?_, fun hd ↦ hq (h.drained hd), ?_, ?_, ?_, ?_, ?_, h.probes⟩
  · intro hd
    exact apply_closed _ _ (h.draining hd)
  · intro j hj
    obtain ⟨hquiet, hlt⟩ := h.called j hj
    refine ⟨hq hquiet, ?_⟩
    change j < (s.shared.apply effect).runtimes.length
    rw [apply_runtimes]
    exact hlt
  · intro j hj
    change (s.shared.apply effect).isStopped j = true at hj
    rw [hstop] at hj
    exact h.stopped j hj
  · intro j hj
    change j < (s.shared.apply effect).runtimes.length
    rw [apply_runtimes]
    exact h.runtime j hj
  · intro k w hw hactive
    change (w.runtime < (s.shared.apply effect).runtimes.length ∧ _) ∧ _
    rw [apply_runtimes]
    exact h.probe k w hw hactive
  · refine forall_mem_set h.requests ((h.requests r hmem).step ?_ hstep)
    intro w hw hactive
    exact h.not_stopped hb hmem hw hactive

/-- A step of a probe. -/
theorem Orderly.probeStep (h : s.Orderly) {k : Nat} {w w' : Work F} {ev : WorkEvent F}
    (hw : s.probes[k]? = some w) (hadv : w.Advance s.shared.isStopped ev w') :
    Orderly { s with probes := s.probes.set k w' } := by
  have hactive := hadv.isActive
  obtain ⟨⟨hlt, hno⟩, hown⟩ := h.probe k w hw hactive
  have hrun : s.shared.isStopped w.runtime = false := by
    cases hstop : s.shared.isStopped w.runtime with
    | false => rfl
    | true => exact absurd (h.stopped _ hstop) hno
  obtain ⟨hgen, hrt, -⟩ := (h.probes w (List.mem_of_getElem? hw)).advance hrun hadv
  refine ⟨h.draining, h.drained, h.called, h.stopped, h.runtime, ?_, h.requests,
    forall_mem_set h.probes hgen⟩
  intro i v hv hv'
  rcases getElem?_set_cases hv with ⟨rfl, rfl⟩ | ⟨-, hv⟩
  · rw [hrt]
    exact ⟨⟨hlt, hno⟩, hown⟩
  · exact h.probe i v hv hv'

/-- A thread runs `runtime.shutdown`. -/
theorem Orderly.shutdownRuntime (h : s.Orderly) {j : Nat} (hj : j ∈ s.runtimeShutdowns) :
    Orderly { s with shared := { s.shared with runtimes := s.shared.runtimes.set j true } } := by
  have hlen : (s.shared.runtimes.set j true).length = s.shared.runtimes.length := List.length_set
  refine ⟨h.draining, h.drained, ?_, ?_, ?_, ?_, h.requests, h.probes⟩
  · intro i hi
    obtain ⟨hq, hlt⟩ := h.called i hi
    exact ⟨hq, hlen ▸ hlt⟩
  · intro i hi
    by_cases hij : j = i
    · exact hij ▸ hj
    · apply h.stopped i
      change ((s.shared.runtimes.set j true)[i]?).getD false = true at hi
      rw [List.getElem?_set_ne hij] at hi
      exact hi
  · intro i hi
    exact hlen ▸ h.runtime i hi
  · intro k w hw hactive
    obtain ⟨⟨hlt, hno⟩, hown⟩ := h.probe k w hw hactive
    exact ⟨⟨hlen ▸ hlt, hno⟩, hown⟩

/-- The await at which a cancellation would let `stop_runtime` go past a running probe. -/
def JoinUndisturbed (s : Application F) (e : Event F) : Prop :=
  s.lifespan.pc = .joinProbe → e ≠ .lifespan .cancel

/-- Every other step keeps order. -/
theorem Orderly.step (h : s.Orderly) (hb : Balanced cfg s) {e : Event F}
    (hjoin : JoinUndisturbed s e) (ht : s.step cfg e = some t) : t.Orderly := by
  have hq : s.Quiesced → t.Quiesced := fun hquiet ↦ hquiet.step hb ht
  cases step_cases ht with
  | tick =>
    exact ⟨h.draining, h.drained, h.called, h.stopped, h.runtime, h.probe, h.requests, h.probes⟩
  | arrive scope =>
    exact ⟨h.draining, h.drained, h.called, h.stopped, h.runtime, h.probe,
      forall_mem_snoc h.requests (fun _ hw ↦ absurd hw (Option.some_ne_none _).symm), h.probes⟩
  | request hr hstep => exact h.request hb hr hstep hq
  | probe hw hadv => exact h.probeStep hw hadv
  | lifespan hmove => exact h.lifespanMove (fun hpc hev ↦ hjoin hpc (by rw [hev])) hmove
  | shutdownRuntime hj => exact h.shutdownRuntime hj
  | shutdownExecutor hk =>
    exact ⟨h.draining, h.drained, h.called, h.stopped, h.runtime, h.probe, h.requests, h.probes⟩

/-- A run without a cancellation at the join is orderly in each of its states. -/
theorem orderly_exec {es : List (Event F)} (h : exec (step cfg) (init cfg) es = some s)
    (hjoin : Along (step cfg) JoinUndisturbed (init cfg) es) : Balanced cfg s ∧ s.Orderly := by
  refine exec_preserves_along (P := fun u ↦ Balanced cfg u ∧ u.Orderly) ?_ h hjoin
    ⟨balanced_init cfg, orderly_init cfg⟩
  intro u e v hc hu hv
  exact ⟨hu.1.step hv, hu.2.step hu.1 hc hv⟩

/-- A quiesced application submits nothing in any run from there. -/
theorem Quiesced.submissions_exec (h : s.Quiesced) (hb : Balanced cfg s) {es : List (Event F)}
    (ht : exec (Application.step cfg) s es = some t) : t.submissions = s.submissions := by
  have hrun : (t.Quiesced ∧ Balanced cfg t) ∧ t.submissions = s.submissions := by
    refine exec_preserves
      (P := fun u ↦ (u.Quiesced ∧ Balanced cfg u) ∧ u.submissions = s.submissions) ?_ ht
      ⟨⟨h, hb⟩, rfl⟩
    intro u e v hu hv
    exact ⟨⟨hu.1.1.step hu.1.2 hv, hu.1.2.step hv⟩, (hu.1.1.submissions_eq hu.1.2 hv).trans hu.2⟩
  exact hrun.2

/-- In every run in which no cancellation strikes `stop_runtime` while it joins the probe: once
`runtime.shutdown` has been called, no request has a `predict` call queued or running, the probes of
that runtime are done, and no run from there submits another call for a request; and no call of
a request or probe is ever refused by a stopped scheduler, or ends without a result. -/
theorem shutdown_after_inference (cfg : Config F) {es : List (Event F)} {s : Application F}
    (h : exec (step cfg) (init cfg) es = some s)
    (hjoin : Along (step cfg) JoinUndisturbed (init cfg) es) :
    (∀ j ∈ s.runtimeShutdowns,
      (∀ r ∈ s.requests, r.predicting = false) ∧
        (∀ w ∈ s.probes, w.runtime = j → w.phase.isActive = false) ∧
        ∀ (fs : List (Event F)) (t : Application F), exec (step cfg) s fs = some t →
          t.submissions = s.submissions) ∧
      (∀ r ∈ s.requests, ∀ w, r.work = some w →
        w.rejected = false ∧ (w.phase.isActive = false → w.outcome.isSome = true)) ∧
      ∀ w ∈ s.probes,
        w.rejected = false ∧ (w.phase.isActive = false → w.outcome.isSome = true) := by
  obtain ⟨hb, ho⟩ := orderly_exec h hjoin
  refine ⟨?_, ho.requests, ho.probes⟩
  intro j hj
  have hq := (ho.called j hj).1
  refine ⟨fun r hr ↦ hq.predicting_eq hb hr, ?_, fun fs t ht ↦ hq.submissions_exec hb ht⟩
  intro w hw hrt
  cases hactive : w.phase.isActive with
  | false => rfl
  | true =>
    obtain ⟨k, hk⟩ := List.getElem?_of_mem hw
    exact absurd (hrt ▸ hj) (ho.probe k w hk hactive).1.2

/-- A server whose startup probe is running. -/
def probing : List (Event Int) :=
  [.lifespan (.startup { store := .ok [], engine := "stub" }), .probe 0 .take]

/-- The startup is cancelled once; `stop_runtime` joins the probe. -/
def joinedRun : List (Event Int) :=
  probing ++ [Event.lifespan .cancel] ++
    ([.lifespan .drained, .lifespan .drainResumed, .probe 0 .predict,
      .probe 0 (.complete (.ok (0, [0]))), .lifespan .probeJoined, .shutdownRuntime 0] :
      List (Event Int))

/-- Where it ends. -/
def joinedEnd : Application Int :=
  (exec (step unitServer) (init unitServer) joinedRun).get (by decide +kernel)

private theorem joinedRun_undisturbed :
    Along (step unitServer) JoinUndisturbed (init unitServer) joinedRun := by
  have hprobing : (exec (step unitServer) (init unitServer) probing).map (·.lifespan.pc) =
      some .awaitProbe := by decide +kernel
  apply along_append
  · apply along_append
    · apply along_of_forall
      intro e he m _
      simp only [probing, List.mem_cons, List.not_mem_nil, or_false] at he
      rcases he with rfl | rfl <;> nofun
    · intro m hm
      rw [hm, Option.map_some, Option.some.injEq] at hprobing
      refine ⟨?_, fun _ _ ↦ trivial⟩
      intro hpc
      rw [hprobing] at hpc
      cases hpc
  · intro m _
    apply along_of_forall
    intro e he _ _
    simp only [List.mem_cons, List.not_mem_nil, or_false] at he
    rcases he with rfl | rfl | rfl | rfl | rfl | rfl <;> nofun

theorem shutdown_after_inference_joined :
    exec (step unitServer) (init unitServer) joinedRun = some joinedEnd ∧
      joinedEnd.runtimeShutdowns = [0] ∧
      ∀ w ∈ joinedEnd.probes, w.phase.isActive = false ∧ w.rejected = false := by
  have hrun : exec (step unitServer) (init unitServer) joinedRun = some joinedEnd :=
    (Option.some_get _).symm
  have hcalls : joinedEnd.runtimeShutdowns = [0] := by decide +kernel
  have hrt : ∀ w ∈ joinedEnd.probes, w.runtime = 0 := by decide +kernel
  obtain ⟨hcall, -, hgen⟩ := shutdown_after_inference unitServer hrun joinedRun_undisturbed
  refine ⟨hrun, hcalls, ?_⟩
  intro w hw
  obtain ⟨-, hprobes, -⟩ := hcall 0 (by rw [hcalls]; exact List.mem_singleton.mpr rfl)
  exact ⟨hprobes w hw (hrt w hw), (hgen w hw).1⟩

/-- The startup is cancelled, and cancelled again while `stop_runtime` joins the probe. -/
def cancelledJoin : List (Event Int) :=
  probing ++
    ([.lifespan .cancel, .lifespan .drained, .lifespan .drainResumed, .lifespan .cancel] :
      List (Event Int))

/-- `runtime.shutdown` has been called, but no thread has run it yet. -/
def cancelledJoinEnd : Application Int :=
  (exec (step unitServer) (init unitServer) cancelledJoin).get (by decide +kernel)

/-- The shutdown runs first and the scheduler refuses the probe. -/
def refusedProbe : Application Int :=
  (exec (step unitServer) cancelledJoinEnd [.shutdownRuntime 0, .probe 0 .predict]).get
    (by decide +kernel)

/-- The second cancellation is swallowed, and the scheduler is stopped under the running probe. -/
theorem cancelledJoin_races_probe :
    exec (step unitServer) (init unitServer) cancelledJoin = some cancelledJoinEnd ∧
      cancelledJoinEnd.runtimeShutdowns = [0] ∧
      cancelledJoinEnd.probes.map (fun w ↦ (w.runtime, w.phase)) = [(0, .running)] ∧
      exec (step unitServer) cancelledJoinEnd [.shutdownRuntime 0, .probe 0 .predict] =
        some refusedProbe ∧
      refusedProbe.probes.map (·.rejected) = [true] := by
  refine ⟨(Option.some_get _).symm, ?_, ?_, (Option.some_get _).symm, ?_⟩ <;> decide +kernel

end Application
end InferenceServer.Server
