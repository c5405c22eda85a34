import InferenceServer.Batching.Liveness
import InferenceServer.Server.Exchange
import InferenceServer.Server.HealthyEngine

/-!
# A prediction answers its own upload

Library `Server`. The whole way of a prediction: the upload (`admission.py:235–258`), the array
(`routes.py:88–123`), the executor, `InferenceRuntime::predict` (`module.cpp:67–93`), the batch of
the scheduler, the answer of the engine, the promise and the response (`routes.py:78–85`). Whatever
else the server does at the same time, no two requests are mixed up on the way.
-/

namespace InferenceServer.Batching

open InferenceServer.Base

/-- The call gives `output` for `input`: `input` is one row of the batch, and `output` the same row
of an answer that has all its rows. -/
def EngineCall.Gives {F : Type} (cfg : SchedulerConfig) (c : EngineCall F) (input output : List F) :
    Prop :=
  ∃ out k, c.answer = .ok out ∧ k < c.batchSize ∧ row cfg.inputElems c.batchedInput k = input ∧
    (out.toList.length = c.batchSize * cfg.outputElems →
      output = slice out.toList (k * cfg.outputElems) ((k + 1) * cfg.outputElems))

end InferenceServer.Batching

namespace InferenceServer.Batching.Scheduler

open InferenceServer.Base

variable {F : Type} {cfg : SchedulerConfig} {s t : Scheduler F} {e : Event F}

/-- A result comes from the call for the batch of its request: what it holds is the row that the
engine gave for the request's own input. -/
theorem Inv.resolved_result (h : s.Inv cfg) {req : InferenceRequest F}
    {res : Except Engine.CppException Unit} (hsub : (req, res) ∈ s.submits)
    {result : InferenceResult F} (hres : (req.resultPromise, .ok result) ∈ s.resolved) :
    ∃ c ∈ s.calls, result.requestId = req.requestId ∧
      c.Gives cfg req.inputData result.logits := by
  obtain ⟨d, hd, req', hreq', hpromise, hcase⟩ := h.explained _ hres
  have hacc : req' ∈ s.accepted := by
    rw [← h.fifo]
    exact List.mem_append_left _ (List.mem_flatten_of_mem hd hreq')
  have hsame := h.promise_inj (mem_accepted.mp hacc) hsub hpromise
  cases hsame
  rcases hcase with ⟨-, herr⟩ | ⟨c, hc, rfl, i, hi, hout⟩
  · cases herr
  · have hok := h.called c hc
    have hlt : i < c.batchSize := by
      rw [hok.size]
      exact (List.getElem?_eq_some_iff.mp hi).1
    have hanswer : ∃ out, c.answer = .ok out ∧ result = sliceResult cfg out i req := by
      simp only [EngineCall.outcome] at hout
      split at hout
      · cases hout
      · next out ha =>
        split at hout
        · cases hout
        · cases hout
          exact ⟨out, ha, rfl⟩
    obtain ⟨out, ha, rfl⟩ := hanswer
    refine ⟨c, hc, rfl, out, i, ha, hlt, hok.row_input hi, ?_⟩
    intro hlen
    have hrow := outcome_of_length ha hlen hlt req
    rw [← hout] at hrow
    exact congrArg InferenceResult.logits (Except.ok.inj hrow)

end InferenceServer.Batching.Scheduler

namespace InferenceServer.Server

open InferenceServer.Base InferenceServer.Batching InferenceServer.Engine

variable {F : Type}

/-! ### Native calls over time -/

/-- The worker is past `scheduler_.submit`. -/
def WorkPhase.isEntered : WorkPhase → Bool
  | .queued => false
  | .running => false
  | _ => true

/-- How a step outside the schedulers changes the phase of a call: a worker takes it, or `predict`
is over. -/
def WorkPhase.Moves (taken : Prop) (p p' : WorkPhase) : Prop :=
  p' = p ∨ taken ∧ p = .queued ∧ p' = .running ∨ p.isActive = false ∧ p'.isActive = false

theorem WorkPhase.Moves.entered {taken : Prop} {p p' : WorkPhase} (h : p.Moves taken p')
    (hp : p.isEntered = true) : p'.isEntered = true := by
  rcases h with rfl | ⟨-, rfl, rfl⟩ | ⟨-, h'⟩
  · exact hp
  · cases hp
  · cases p' <;> first | rfl | cases h'

theorem WorkPhase.Moves.active {taken : Prop} {p p' : WorkPhase} (h : p.Moves taken p')
    (hp : p'.isActive = true) : p.isActive = true := by
  rcases h with rfl | ⟨-, rfl, rfl⟩ | ⟨-, h'⟩
  · exact hp
  · rfl
  · rw [h'] at hp
    cases hp

/-- What a step outside the schedulers does to a call. -/
inductive CallMoves (taken : Prop) : Option (Work F) → Option (Work F) → Prop where
  | absent : CallMoves taken none none
  | submitted {w : Work F} (ho : w.outcome = none) (hq : w.phase = .queued) :
    CallMoves taken none (some w)
  | kept {w w' : Work F} (ha : w.Alike w') (he : w'.executor = w.executor)
    (hp : w.phase.Moves taken w'.phase) : CallMoves taken (some w) (some w')

theorem CallMoves.refl {taken : Prop} : (o : Option (Work F)) → CallMoves taken o o
  | none => .absent
  | some _ => .kept ⟨rfl, rfl, rfl⟩ rfl (.inl rfl)

theorem CallMoves.of_eq {taken : Prop} {o o' : Option (Work F)} (h : o' = o) :
    CallMoves taken o o' := by
  rw [h]
  exact .refl o

namespace Request

variable {cfg : Config F} {g : Shared} {r r' : Request F} {effect : Effect}

private theorem native_moves {w : Work F} {ev : NativeEvent F}
    (h : NativeMove g r w ev r' effect) (hl : (Event.native ev).isLocal = true) :
    CallMoves (ev = .advance .take) (some w) r'.work := by
  have later {w' : Work F} (ha : w.Alike w') (he : w'.executor = w.executor) {p : WorkPhase}
      (hp : w.phase = p) (hp' : p.isActive = false) (hp'' : w'.phase.isActive = false) :
      CallMoves (ev = .advance .take) (some w) (some w') :=
    .kept ha he (.inr (.inr ⟨by rw [hp, hp'], hp''⟩))
  cases h with
  | advance hadv =>
    cases hadv with
    | take hp => exact .kept ⟨rfl, rfl, rfl⟩ rfl (.inr (.inl ⟨rfl, hp, rfl⟩))
    | _ => cases hl
  | @callback hp _ l =>
    refine later ⟨rfl, rfl, rfl⟩ rfl hp rfl ?_
    cases hrel : l.workDone.2 <;> simp [WorkPhase.isActive]
  | noCallback hp => exact later ⟨rfl, rfl, rfl⟩ rfl hp rfl rfl
  | release hp => exact later ⟨rfl, rfl, rfl⟩ rfl hp rfl rfl
  | chain hp => exact later ⟨rfl, rfl, rfl⟩ rfl hp rfl rfl
  | observe => exact .kept ⟨rfl, rfl, rfl⟩ rfl (.inl rfl)

/-- A request submits one call, and a step outside the scheduler leaves its result alone. -/
theorem work_moves {ev : Event F} (hok : r.Ok) (h : r.step cfg g ev = some (r', effect))
    (hl : ev.isLocal = true) :
    CallMoves (ev = .native (.advance .take)) r.work r'.work := by
  cases step_cases h with
  | middleware hmove =>
    cases hmove with
    | overloaded _ hp => cases hp <;> exact .refl _
    | acquire _ hp => cases hp <;> exact .refl _
    | _ => exact .refl _
  | app hmove =>
    cases hmove with
    | submit happ hl =>
      obtain ⟨l, hl⟩ := Option.isSome_iff_exists.mp hl
      rw [((hok.leased l hl).custody.of_created (.inr happ)).1]
      exact .submitted rfl rfl
    | submitRead happ =>
      rw [(hok.unleased (hok.lease_of_reading happ)).2.1]
      exact .submitted rfl rfl
    | register _ _ hw =>
      rw [hw]
      exact .kept ⟨rfl, rfl, rfl⟩ rfl (.inl rfl)
    | wrap _ hw =>
      rw [hw]
      exact .kept ⟨rfl, rfl, rfl⟩ rfl (.inl rfl)
    | _ => exact .refl _
  | watcher hmove => cases hmove <;> exact .refl _
  | native hw hmove =>
    rw [hw]
    have hmoves := native_moves hmove hl
    simpa only [Event.native.injEq] using hmoves

end Request

namespace Application

variable {cfg : Config F} {s t : Application F}

/-- A step outside the schedulers, seen from one call. -/
theorem call_moves {e : Event F} (hok : ∀ r ∈ s.requests, r.Ok) (h : s.step cfg e = some t)
    (hl : e.isLocal = true) (c : CallId) :
    CallMoves (e = c.event .take) (s.call c) (t.call c) := by
  cases step_cases h with
  | tick => exact .of_eq rfl
  | shutdownRuntime => exact .of_eq rfl
  | shutdownExecutor => exact .of_eq rfl
  | arrive scope =>
    cases c with
    | probe k => exact .of_eq rfl
    | request i =>
      apply CallMoves.of_eq
      simp only [call, List.getElem?_append]
      split
      · rfl
      · next hlt =>
        rw [List.getElem?_eq_none (Nat.le_of_not_lt hlt), List.getElem?_singleton]
        split <;> rfl
  | @request i ev r r' effect hr hstep =>
    cases c with
    | probe k => exact .of_eq rfl
    | request k =>
      by_cases hk : i = k
      · subst hk
        have hlt := (List.getElem?_eq_some_iff.mp hr).1
        simp only [call, hr, List.getElem?_set_self hlt, Option.bind_some, CallId.event,
          Event.request.injEq, true_and]
        exact Request.work_moves (hok r (List.mem_of_getElem? hr)) hstep hl
      · apply CallMoves.of_eq
        simp only [call, List.getElem?_set_ne hk]
  | @probe i ev w w' hw hadv =>
    cases c with
    | request k => exact .of_eq rfl
    | probe k =>
      by_cases hk : i = k
      · subst hk
        have hlt := (List.getElem?_eq_some_iff.mp hw).1
        simp only [call, hw, List.getElem?_set_self hlt]
        cases hadv with
        | take hp => exact .kept ⟨rfl, rfl, rfl⟩ rfl (.inr (.inl ⟨rfl, hp, rfl⟩))
        | _ => cases hl
      · apply CallMoves.of_eq
        simp only [call, List.getElem?_set_ne hk]
  | lifespan hmove =>
    cases c with
    | request i =>
      apply CallMoves.of_eq
      simp only [call, hmove.requests_eq]
    | probe k =>
      rcases hmove.probes_cases with heq | ⟨w, heq, hfresh, hqueued⟩
      · apply CallMoves.of_eq
        simp only [call, heq]
      · simp only [call, heq, List.getElem?_append]
        split
        · exact .refl _
        · next hlt =>
          rw [List.getElem?_eq_none (Nat.le_of_not_lt hlt), List.getElem?_singleton]
          split
          · exact .submitted hfresh.outcome hqueued
          · exact .absent

/-- A step of `predict` is a step of that call alone. -/
theorem call_event {c : CallId} {w : Work F} {ev : WorkEvent F} (hw : s.call c = some w)
    (h : s.step cfg (c.event ev) = some t) :
    ∃ w', w.advance cfg.inputElems s.shared.isStopped ev = some w' ∧ t.call c = some w' ∧
      ∀ c', c' ≠ c → t.call c' = s.call c' := by
  cases c with
  | request i =>
    obtain ⟨r, hr, hwork⟩ := Option.bind_eq_some_iff.mp hw
    simp only [CallId.event, step, hr, Request.step, hwork, Request.nativeStep, Option.bind_some,
      Option.map_map, Option.map_eq_some_iff] at h
    obtain ⟨w', hadv, rfl⟩ := h
    refine ⟨w', hadv, ?_, ?_⟩
    · have hlt := (List.getElem?_eq_some_iff.mp hr).1
      simp only [Function.comp_apply, call, List.getElem?_set_self hlt, Option.bind_some]
    · intro c' hne
      cases c' with
      | probe k => rfl
      | request k =>
        have hk : i ≠ k := fun heq ↦ hne (heq ▸ rfl)
        simp only [Function.comp_apply, call, List.getElem?_set_ne hk]
  | probe i =>
    have hk : s.probes[i]? = some w := hw
    simp only [CallId.event, step, hk, Option.bind_some, Option.map_eq_some_iff] at h
    obtain ⟨w', hadv, rfl⟩ := h
    refine ⟨w', hadv, ?_, ?_⟩
    · exact List.getElem?_set_self (List.getElem?_eq_some_iff.mp hk).1
    · intro c' hne
      cases c' with
      | request k => rfl
      | probe k =>
        have hne' : i ≠ k := fun heq ↦ hne (heq ▸ rfl)
        simp only [call, List.getElem?_set_ne hne']

end Application

namespace Deployment

variable {cfg : DeploymentConfig F} {s t : Deployment F}

/-- A scheduler stays where it is and keeps its history. -/
theorem Move.grows (hm : Move cfg s t) {j : Nat} {d : Scheduler F}
    (hd : s.schedulers[j]? = some d) : ∃ d', t.schedulers[j]? = some d' ∧ d.Grows d' := by
  have stepped {k : Nat} {x x' : Scheduler F} (hx : s.schedulers[k]? = some x)
      (hgrows : x.Grows x') : ∃ d', (s.schedulers.set k x')[j]? = some d' ∧ d.Grows d' := by
    by_cases hk : k = j
    · subst hk
      rw [hd] at hx
      cases hx
      exact ⟨x', List.getElem?_set_self (List.getElem?_eq_some_iff.mp hd).1, hgrows⟩
    · exact ⟨d, by rw [List.getElem?_set_ne hk, hd], .refl d⟩
  cases hm with
  | app =>
    have hlt := (List.getElem?_eq_some_iff.mp hd).1
    exact ⟨d, by rw [adopt, List.getElem?_append_left hlt, hd], .refl d⟩
  | missized => exact ⟨d, hd, .refl d⟩
  | @submit c w app x hw ht hlen hx requestId arrivalTime =>
    have hstep : x.step cfg.scheduler (.submit requestId w.array arrivalTime) =
        some (x.submit requestId w.array arrivalTime) := rfl
    exact stepped hx (Scheduler.grows_step hstep)
  | complete => exact ⟨d, hd, .refl d⟩
  | scheduler hx hstep => exact stepped hx (Scheduler.grows_step hstep)
  | shutdown hx hstep => exact stepped hx (Scheduler.grows_step hstep)

/-- A call, the promise it blocks on and its result belong together. -/
structure CallBound (s : Deployment F) (c : CallId) : Prop where
  pending : ∀ w, s.app.call c = some w → w.phase.isActive = true → w.outcome = none
  submitted : ∀ p, s.promises.lookup c = some p → ∃ w d req res, s.app.call c = some w ∧
    w.phase.isEntered = true ∧ s.schedulers[w.runtime]? = some d ∧ (req, res) ∈ d.submits ∧
      req.resultPromise = p ∧ req.inputData = w.array
  answered : ∀ w v, s.app.call c = some w → w.outcome = some (.ok v) → ∃ p d,
    s.promises.lookup c = some p ∧ s.schedulers[w.runtime]? = some d ∧
      (p, .ok ⟨v.1, v.2⟩) ∈ d.resolved

/-- A step that leaves the call's promise and result alone. -/
theorem CallBound.mono {c : CallId} (h : s.CallBound c) (hm : Move cfg s t)
    {taken : Prop} (hc : CallMoves taken (s.app.call c) (t.app.call c))
    (hp : t.promises.lookup c = s.promises.lookup c) : t.CallBound c where
  pending w' hw' hactive := by
    generalize ho : s.app.call c = o at hc
    rw [hw'] at hc
    cases hc with
    | submitted hnone => exact hnone
    | kept ha _ hmoves =>
      rw [ha.outcome]
      exact h.pending _ ho (hmoves.active hactive)
  submitted p hlookup := by
    rw [hp] at hlookup
    obtain ⟨w, d, req, res, hw, hentered, hd, hsub, hpromise, harray⟩ := h.submitted p hlookup
    obtain ⟨d', hd', hgrows⟩ := hm.grows hd
    rw [hw] at hc
    generalize ho : t.app.call c = o at hc
    cases hc with
    | @kept w w' ha _ hmoves =>
      refine ⟨w', d', req, res, rfl, hmoves.entered hentered, ?_, hgrows.submits _ hsub, hpromise,
        ?_⟩
      · rw [ha.runtime]
        exact hd'
      · rw [ha.array]
        exact harray
  answered w' v hw' hv := by
    generalize ho : s.app.call c = o at hc
    rw [hw'] at hc
    cases hc with
    | submitted hnone =>
      rw [hnone] at hv
      cases hv
    | kept ha =>
      rw [ha.outcome] at hv
      obtain ⟨p, d, hlookup, hd, hres⟩ := h.answered _ v ho hv
      obtain ⟨d', hd', hgrows⟩ := hm.grows hd
      refine ⟨p, d', hp.trans hlookup, ?_, hgrows.resolved _ hres⟩
      rw [ha.runtime]
      exact hd'

/-- Only `scheduler_.submit` gives a call its promise. -/
theorem lookup_snoc_ne {promises : List (CallId × Nat)} {c c' : CallId} (hne : c' ≠ c) (p : Nat) :
    (promises ++ [(c, p)]).lookup c' = promises.lookup c' := by
  have hbeq : (c' == c) = false := beq_eq_false_iff_ne.mpr hne
  simp only [List.lookup_append, List.lookup_cons, hbeq, List.lookup_nil, Option.or_none]

theorem lookup_snoc_self {promises : List (CallId × Nat)} {c : CallId} (p : Nat)
    (h : promises.lookup c = none) : (promises ++ [(c, p)]).lookup c = some p := by
  simp only [List.lookup_append, h, List.lookup_cons, beq_self_eq_true, Option.none_or]

/-- A call that did not reach `scheduler_.submit` has no promise. -/
theorem CallBound.lookup_eq_none {c : CallId} {w : Work F} (h : s.CallBound c)
    (hw : s.app.call c = some w) (hp : w.phase = .running) : s.promises.lookup c = none := by
  cases hlookup : s.promises.lookup c with
  | none => rfl
  | some p =>
    obtain ⟨w₀, _, _, _, hw₀, hentered, -⟩ := h.submitted p hlookup
    rw [hw] at hw₀
    cases hw₀
    rw [hp] at hentered
    cases hentered

/-- A submit is in the history, refused or not. -/
theorem exists_mem_submit (d : Scheduler F) (requestId : Nat) (input : List F)
    (arrivalTime : Int) :
    ∃ req res, (req, res) ∈ (d.submit requestId input arrivalTime).submits ∧
      req.resultPromise = d.submits.length ∧ req.requestId = requestId ∧
      req.inputData = input := by
  unfold Scheduler.submit
  dsimp only
  split
  · exact ⟨_, _, List.mem_append_right _ List.mem_cons_self, rfl, rfl, rfl⟩
  · exact ⟨_, _, List.mem_append_right _ List.mem_cons_self, rfl, rfl, rfl⟩

/-- The call reaches `scheduler_.submit`. -/
theorem CallBound.submit {c : CallId} {w : Work F} {app : Application F} {d : Scheduler F}
    (h : s.CallBound c) (hw : s.app.call c = some w)
    (hstep : s.app.step cfg.toConfig (c.event .predict) = some app)
    (hlen : w.array.length = cfg.inputElems) (hd : s.schedulers[w.runtime]? = some d)
    (requestId : Nat) (arrivalTime : Int) :
    CallBound
      { s with
        app
        schedulers := s.schedulers.set w.runtime (d.submit requestId w.array arrivalTime)
        promises := s.promises ++ [(c, d.submits.length)] } c := by
  obtain ⟨w', hadv, hw', -⟩ := Application.call_event hw hstep
  have hrunning : w.phase = .running := by
    cases Work.advance_cases hadv <;> assumption
  have hactive : w.phase.isActive = true := by
    rw [hrunning]
    rfl
  have hnone := h.lookup_eq_none hw hrunning
  have houtcome := h.pending w hw hactive
  have hself : (s.schedulers.set w.runtime (d.submit requestId w.array arrivalTime))[w.runtime]? =
      some (d.submit requestId w.array arrivalTime) :=
    List.getElem?_set_self (List.getElem?_eq_some_iff.mp hd).1
  -- the array has the right size: it is handed over, or refused by a stopped scheduler
  have hafter : w'.array = w.array ∧ w'.runtime = w.runtime ∧ w'.phase.isEntered = true ∧
      (w'.outcome = none ∨ w'.phase.isActive = false ∧
        w'.outcome = some (.error (pybind stoppedError))) := by
    simp only [Work.advance, hrunning, hlen, ne_eq, not_true_eq_false, if_true, if_false] at hadv
    split at hadv
    · cases hadv
      exact ⟨rfl, rfl, rfl, .inr ⟨rfl, rfl⟩⟩
    · cases hadv
      exact ⟨rfl, rfl, rfl, .inl houtcome⟩
  obtain ⟨harray, hruntime, hentered, hout⟩ := hafter
  refine ⟨?_, ?_, ?_⟩
  · intro x hx hact
    change app.call c = some x at hx
    rw [hw'] at hx
    cases hx
    rcases hout with hout | ⟨hinactive, -⟩
    · exact hout
    · rw [hinactive] at hact
      cases hact
  · intro p hlookup
    change (s.promises ++ [(c, d.submits.length)]).lookup c = some p at hlookup
    rw [lookup_snoc_self _ hnone] at hlookup
    cases hlookup
    obtain ⟨req, res, hmem, hpromise, -, hinput⟩ :=
      exists_mem_submit d requestId w.array arrivalTime
    exact ⟨w', _, req, res, hw', hentered, hruntime ▸ hself, hmem, hpromise,
      hinput.trans harray.symm⟩
  · intro x v hx hv
    change app.call c = some x at hx
    rw [hw'] at hx
    cases hx
    rcases hout with hout | ⟨-, hout⟩
    · rw [hout] at hv
      cases hv
    · rw [hout] at hv
      cases hv

/-- `future.get()` returns. -/
theorem CallBound.complete {c : CallId} {w : Work F} {app : Application F} {d : Scheduler F}
    {p : Nat} {o : Outcome F} (h : s.CallBound c) (hw : s.app.call c = some w)
    (hd : s.schedulers[w.runtime]? = some d) (hp : s.promises.lookup c = some p)
    (ho : d.resolved.lookup p = some o)
    (hstep : s.app.step cfg.toConfig
      (c.event (.complete (o.map fun res ↦ (res.requestId, res.logits)))) = some app) :
    CallBound { s with app } c := by
  obtain ⟨w', hadv, hw', -⟩ := Application.call_event hw hstep
  have hafter : w'.array = w.array ∧ w'.runtime = w.runtime ∧ w'.phase = .completed ∧
      w'.outcome = some (nativeResult (o.map fun res ↦ (res.requestId, res.logits))) := by
    cases Work.advance_cases hadv
    exact ⟨rfl, rfl, rfl, rfl⟩
  obtain ⟨harray, hruntime, hphase, hout⟩ := hafter
  have hres : (p, o) ∈ d.resolved := by
    obtain ⟨l₁, l₂, hsplit, -⟩ := List.lookup_eq_some_iff.mp ho
    rw [hsplit]
    exact List.mem_append_right _ List.mem_cons_self
  refine ⟨?_, ?_, ?_⟩
  · intro x hx hact
    change app.call c = some x at hx
    rw [hw'] at hx
    cases hx
    rw [hphase] at hact
    cases hact
  · intro p' hlookup
    obtain ⟨w₀, d₀, req, res, hw₀, -, hd₀, hsub, hpromise, hinput⟩ := h.submitted p' hlookup
    rw [hw] at hw₀
    cases hw₀
    exact ⟨w', d₀, req, res, hw', by rw [hphase]; rfl, hruntime ▸ hd₀, hsub, hpromise,
      hinput.trans harray.symm⟩
  · intro x v hx hv
    change app.call c = some x at hx
    rw [hw'] at hx
    cases hx
    rw [hout] at hv
    cases o with
    | error e => cases hv
    | ok result =>
      cases hv
      exact ⟨p, d, hp, hruntime ▸ hd, hres⟩

/-- What ties requests, calls and promises together. -/
structure Bound (cfg : DeploymentConfig F) (s : Deployment F) : Prop where
  balanced : Application.Balanced cfg.toConfig s.app
  told : ∀ r ∈ s.app.requests, r.Told cfg.toConfig
  calls : ∀ c, s.CallBound c

theorem bound_init (cfg : DeploymentConfig F) : (init cfg).Bound cfg where
  balanced := Application.balanced_init cfg.toConfig
  told _ hr := absurd hr List.not_mem_nil
  calls c := by
    have hcall : (init cfg).app.call c = none := by cases c <;> rfl
    refine ⟨?_, by rintro _ ⟨⟩, ?_⟩
    · intro w hw
      rw [hcall] at hw
      cases hw
    · intro w v hw
      rw [hcall] at hw
      cases hw

/-- Every request's exchange goes on as before. -/
theorem told_step {e : Application.Event F} {app : Application F}
    (hb : Application.Balanced cfg.toConfig s.app) (h : ∀ r ∈ s.app.requests, r.Told cfg.toConfig)
    (hstep : s.app.step cfg.toConfig e = some app) : ∀ r ∈ app.requests, r.Told cfg.toConfig := by
  cases Application.step_cases hstep with
  | arrive scope => exact forall_mem_snoc h (Request.told_new cfg.toConfig scope)
  | @request i ev r r' effect hr hreq =>
    have hmem := List.mem_of_getElem? hr
    exact forall_mem_set h ((h r hmem).step (hb.ok r hmem) hreq)
  | lifespan hmove =>
    rw [hmove.requests_eq]
    exact h
  | _ => exact h

theorem Bound.step (h : s.Bound cfg) (hm : Move cfg s t) : t.Bound cfg := by
  have app {e : Application.Event F} {a : Application F}
      (hstep : s.app.step cfg.toConfig e = some a) :
      Application.Balanced cfg.toConfig a ∧ ∀ r ∈ a.requests, r.Told cfg.toConfig :=
    ⟨h.balanced.step hstep, told_step h.balanced h.told hstep⟩
  have calm {o o' : Option (Work F)} (heq : o' = o) : CallMoves False o o' := .of_eq heq
  have hm' := hm
  cases hm with
  | app hl hstep =>
    refine ⟨(app hstep).1, (app hstep).2, ?_⟩
    intro c
    exact (h.calls c).mono hm' (Application.call_moves h.balanced.ok hstep hl c) rfl
  | @missized c w a hw hstep hlen =>
    refine ⟨(app hstep).1, (app hstep).2, ?_⟩
    obtain ⟨w', hadv, hw', hother⟩ := Application.call_event hw hstep
    intro c'
    by_cases hc : c' = c
    · subst hc
      -- `predict` throws before it submits
      have hafter : w.phase = .running ∧ w'.array = w.array ∧ w'.runtime = w.runtime ∧
          w'.phase = .completed ∧ ∃ e, w'.outcome = some (.error e) := by
        simp only [Work.advance, ne_eq, hlen, not_false_eq_true, if_true] at hadv
        split at hadv
        · next hp =>
          cases hadv
          exact ⟨hp, rfl, rfl, rfl, _, rfl⟩
        · cases hadv
      obtain ⟨hp, -, -, hphase, e, hout⟩ := hafter
      refine ⟨?_, ?_, ?_⟩
      · intro x hx hact
        cases hw'.symm.trans hx
        rw [hphase] at hact
        cases hact
      · intro p hlookup
        exact absurd (((h.calls c').lookup_eq_none hw hp).symm.trans hlookup) (by rintro ⟨⟩)
      · intro x v hx hv
        cases hw'.symm.trans hx
        rw [hout] at hv
        cases hv
    · exact (h.calls c').mono hm' (calm (hother c' hc)) rfl
  | @submit c w a d hw hstep hlen hd requestId arrivalTime =>
    refine ⟨(app hstep).1, (app hstep).2, ?_⟩
    obtain ⟨-, -, -, hother⟩ := Application.call_event hw hstep
    intro c'
    by_cases hc : c' = c
    · subst hc
      exact (h.calls c').submit hw hstep hlen hd requestId arrivalTime
    · exact (h.calls c').mono hm' (calm (hother c' hc)) (lookup_snoc_ne hc _)
  | @complete c w a d p o hw hd hp ho hstep =>
    refine ⟨(app hstep).1, (app hstep).2, ?_⟩
    obtain ⟨-, -, -, hother⟩ := Application.call_event hw hstep
    intro c'
    by_cases hc : c' = c
    · subst hc
      exact (h.calls c').complete hw hd hp ho hstep
    · exact (h.calls c').mono hm' (calm (hother c' hc)) rfl
  | scheduler => exact ⟨h.balanced, h.told, fun c ↦ (h.calls c).mono hm' (calm rfl) rfl⟩
  | shutdown hd hstep happ =>
    refine ⟨(app happ).1, (app happ).2, ?_⟩
    cases Application.step_cases happ with
    | shutdownRuntime => exact fun c ↦ (h.calls c).mono hm' (calm rfl) rfl

theorem bound_exec {es : List (Event F)} (h : exec (step cfg) (init cfg) es = some s) :
    s.Bound cfg :=
  exec_preserves (fun _ _ _ hs ht ↦ hs.step (step_cases ht)) h (bound_init cfg)

/-- A successful call got what the engine gave for its own array. -/
theorem Bound.gives (h : s.Bound cfg) (hw : s.Wired cfg) {c : CallId} {w : Work F}
    (hc : s.app.call c = some w) {id : Nat} {logits : List F}
    (ho : w.outcome = some (.ok (id, logits))) :
    ∃ d ∈ s.schedulers, ∃ call ∈ d.calls, call.Gives cfg.scheduler w.array logits := by
  obtain ⟨p, d, hp, hd, hres⟩ := (h.calls c).answered w _ hc ho
  obtain ⟨w₀, d₀, req, res, hw₀, -, hd₀, hsub, hpromise, hinput⟩ := (h.calls c).submitted p hp
  rw [hc] at hw₀
  cases hw₀
  rw [hd] at hd₀
  cases hd₀
  have hmem := List.mem_of_getElem? hd
  rw [← hpromise] at hres
  obtain ⟨call, hcall, -, hgives⟩ := (hw.inv d hmem).resolved_result hsub hres
  rw [hinput] at hgives
  exact ⟨d, hmem, call, hcall, hgives⟩

end Deployment

/-- `PredictionResponse` without the measured latency, `prediction.py:21–24`. -/
structure PredictionResponse (F : Type) where
  requestId : Nat
  output : List F
  deriving DecidableEq

/-- What `_predict` returns for the request, `routes.py:78–85`. -/
def Request.prediction (r : Request F) : Option (PredictionResponse F) :=
  r.work.bind fun w ↦
    match w.outcome with
    | some (.ok (requestId, output)) => some { requestId, output }
    | _ => none

namespace Deployment

variable {cfg : DeploymentConfig F} {s : Deployment F}

/-- In every run, with any number of requests, timeouts, disconnects, failures and restarts: if a
prediction route answered 200, then some of the messages read from that client make up a body that
decodes to an array, and the prediction is what the engine gave for that array. If the engine works
row by row with `f`, the prediction is `f` of the client's own array. -/
theorem prediction_answers_upload {es : List (Event F)}
    (hrun : exec (step cfg) (init cfg) es = some s) {i : Nat} {r : Request F}
    (hr : s.app.requests[i]? = some r) (hroute : r.scope.route ≠ .other) {response : Response}
    (hsent : response ∈ r.sent) (h200 : response.status = 200) :
    ∃ n array prediction,
      decodeBody cfg.toConfig r.scope (bodyOf (r.reads.take n)) = .ok array ∧
      r.prediction = some prediction ∧
      (∃ d ∈ s.schedulers, ∃ c ∈ d.calls, c.Gives cfg.scheduler array prediction.output) ∧
      ∀ f : List F → List F,
        (∀ x, x.length = cfg.inputElems → (f x).length = cfg.outputElems) →
        (∀ d ∈ s.schedulers, ∀ c ∈ d.calls, ∃ out, c.answer = .ok out ∧
          out.toList = mapRows f cfg.inputElems c.batchSize c.batchedInput) →
        prediction.output = f array := by
  have hb := bound_exec hrun
  have hw := wired_exec hrun
  have htold := hb.told r (List.mem_of_getElem? hr)
  obtain ⟨w, ⟨id, logits⟩, hwork, ho⟩ := htold.sent hroute response hsent h200
  obtain ⟨n, hn⟩ := htold.body
  have hcall : s.app.call (.request i) = some w := by
    simp only [Application.call, hr, Option.bind_some, hwork]
  obtain ⟨d, hd, c, hc, hgives⟩ := hb.gives hw hcall ho
  refine ⟨n, w.array, ⟨id, logits⟩, ?_, ?_, ⟨d, hd, c, hc, hgives⟩, ?_⟩
  · rw [hn]
    exact htold.array w hwork
  · simp only [Request.prediction, hwork, Option.bind_some, ho]
  · intro f hf hrows
    obtain ⟨out, k, ha, hk, hrow, hslice⟩ := hgives
    obtain ⟨out', ha', hmap⟩ := hrows d hd c hc
    rw [ha] at ha'
    cases ha'
    have hok := (hw.inv d hd).called c hc
    have hlen (j : Nat) (hj : j < c.batchSize) :
        (f (row cfg.inputElems c.batchedInput j)).length = cfg.outputElems := by
      apply hf
      rw [hok.size] at hj
      have hinput : row cfg.inputElems c.batchedInput j = _ :=
        hok.row_input (List.getElem?_eq_getElem hj)
      rw [hinput]
      simpa [wellSized, DeploymentConfig.scheduler] using
        (List.mem_filter.mp (List.getElem_mem hj)).2
    have hlogits := hslice (by rw [hmap]; exact length_mapRows hlen)
    rw [hmap, slice_eq_row] at hlogits
    refine hlogits.trans ?_
    change row cfg.outputElems _ k = _
    rw [row_mapRows hlen hk]
    exact congrArg f hrow

/-- The service of `unitService`, and the response goes out. -/
def unitExchange : List (Event Int) :=
  unitService ++ ([.request 0 (.native .callback), .request 0 (.native .chain),
    .request 0 (.native .observe), .request 0 (.app .resume), .request 0 (.app .send)] :
      List (Application.Event Int)).map .app

theorem prediction_answers_upload_unitExchange :
    ∃ s r, exec (step unitDeployment) (init unitDeployment) unitExchange = some s ∧
      s.app.requests[0]? = some r ∧ r.sent = [⟨200, ""⟩] ∧
      ∃ n array prediction,
        decodeBody unitDeployment.toConfig r.scope (bodyOf (r.reads.take n)) = .ok array ∧
        r.prediction = some prediction ∧ prediction.output = array := by
  have hfacts : (exec (step unitDeployment) (init unitDeployment) unitExchange).map (fun s ↦
      decide (s.app.requests.map (fun r ↦ (r.sent, r.scope.route)) = [([⟨200, ""⟩], .predictRaw)] ∧
        ∀ d ∈ s.schedulers, ∀ c ∈ d.calls,
          c.answer.toOption.map (·.toList) =
            some (mapRows id 1 c.batchSize c.batchedInput))) = some true := by
    decide +kernel
  obtain ⟨s, hrun, hs⟩ := Option.map_eq_some_iff.mp hfacts
  obtain ⟨hrequests, hanswers⟩ := of_decide_eq_true hs
  obtain ⟨r, rest, hr, hhead, -⟩ := List.map_eq_cons_iff.mp hrequests
  obtain ⟨hsent, hroute⟩ := Prod.mk.inj hhead
  have hget : s.app.requests[0]? = some r := by rw [hr, List.getElem?_cons_zero]
  have hmem : (⟨200, ""⟩ : Response) ∈ r.sent := by
    rw [hsent]
    exact List.mem_cons_self
  obtain ⟨n, array, prediction, hdecode, hpred, -, hf⟩ :=
    prediction_answers_upload hrun hget (by rw [hroute]; decide) hmem rfl
  refine ⟨s, r, hrun, hget, hsent, n, array, prediction, hdecode, hpred, hf id (fun _ h ↦ h) ?_⟩
  intro d hd c hc
  have ha := hanswers d hd c hc
  cases hans : c.answer with
  | error e =>
    rw [hans] at ha
    cases ha
  | ok out =>
    rw [hans] at ha
    exact ⟨out, rfl, Option.some.inj ha⟩

end Deployment
end InferenceServer.Server
