import InferenceServer.Server.Answers

/-!
# Request ids

Library `Server`. `cpp/src/bindings/module.cpp:67–93`: `predict` checks the size of its array, draws
an id from the runtime's atomic counter and then submits, so other threads can draw and submit in
between. A counter has 64 bits. `drawn` is a history: each call with the runtime and the id.
-/

namespace InferenceServer.Server

open InferenceServer.Base InferenceServer.Batching

variable {F : Type}

/-- The deployment with the counter of each runtime. -/
structure Service (F : Type) where
  deployment : Deployment F
  nextRequestId : List Nat := []
  drawn : List (CallId × Nat × Nat) := []

namespace Service

/-- What happens next. -/
inductive Event (F : Type) where
  /-- `next_request_id_.fetch_add(1)` -/
  | draw (c : CallId)
  | deployment (ev : Deployment.Event F)

def init (cfg : DeploymentConfig F) : Service F := { deployment := .init cfg }

/-- The worker of the call is past the check of the size and draws its id. -/
def draw (cfg : DeploymentConfig F) (s : Service F) (c : CallId) : Option (Service F) :=
  (s.deployment.app.call c).bind fun w ↦
    if w.phase = .running ∧ w.array.length = cfg.inputElems ∧ c ∉ s.drawn.map Prod.fst then
      s.nextRequestId[w.runtime]?.map fun id ↦
        { s with
          nextRequestId := s.nextRequestId.set w.runtime ((id + 1) % 2 ^ 64)
          drawn := s.drawn ++ [(c, w.runtime, id)] }
    else none

/-- A request is submitted under the id its worker has drawn. -/
def allows (cfg : DeploymentConfig F) (s : Service F) : Deployment.Event F → Bool
  | .predict c requestId _ =>
    (s.deployment.app.call c).all fun w ↦
      w.array.length != cfg.inputElems || s.drawn.contains (c, w.runtime, requestId)
  | _ => true

/-- A new runtime brings its counter. -/
def adopt (s : Service F) (deployment : Deployment F) : Service F :=
  { s with
    deployment
    nextRequestId := s.nextRequestId ++
      List.replicate (deployment.schedulers.length - s.nextRequestId.length) 0 }

def step (cfg : DeploymentConfig F) (s : Service F) : Event F → Option (Service F)
  | .draw c => s.draw cfg c
  | .deployment ev => if s.allows cfg ev then (s.deployment.step cfg ev).map s.adopt else none

/-- The ids drawn from the counter of a runtime, oldest first. -/
def idsOf (s : Service F) (j : Nat) : List Nat :=
  (s.drawn.filter fun x ↦ x.2.1 = j).map fun x ↦ x.2.2

end Service

/-! ### What a step of the deployment leaves alone -/

namespace Deployment

variable {cfg : DeploymentConfig F} {s t : Deployment F}

/-- Calls stay on their runtime. -/
theorem Move.runtime (hb : s.Bound cfg) (hm : Move cfg s t) {c : CallId} {w : Work F}
    (hw : s.app.call c = some w) : ∃ w', t.app.call c = some w' ∧ w'.runtime = w.runtime := by
  have event {c' : CallId} {w₀ : Work F} {ev : WorkEvent F} {app : Application F}
      (hw₀ : s.app.call c' = some w₀) (hstep : s.app.step cfg.toConfig (c'.event ev) = some app) :
      ∃ w', app.call c = some w' ∧ w'.runtime = w.runtime := by
    obtain ⟨w', hadv, hw', hother⟩ := Application.call_event hw₀ hstep
    by_cases hc : c = c'
    · subst hc
      rw [hw] at hw₀
      cases hw₀
      refine ⟨w', hw', ?_⟩
      cases Work.advance_cases hadv <;> rfl
    · exact ⟨w, (hother c hc).trans hw, rfl⟩
  cases hm with
  | app hl hstep =>
    have hmoves := Application.call_moves hb.balanced.ok hstep hl c
    rw [hw] at hmoves
    generalize ho : Application.call _ c = o at hmoves
    cases hmoves with
    | kept ha => exact ⟨_, ho, ha.runtime⟩
  | missized hw₀ hstep => exact event hw₀ hstep
  | submit hw₀ hstep => exact event hw₀ hstep
  | complete hw₀ _ _ _ hstep => exact event hw₀ hstep
  | scheduler => exact ⟨w, hw, rfl⟩
  | shutdown _ _ happ =>
    cases Application.step_cases happ with
    | shutdownRuntime => exact ⟨w, hw, rfl⟩

/-- Only `predict` adds a promise. -/
theorem promises_of_step {e : Event F} (h : s.step cfg e = some t)
    (he : ∀ c requestId arrivalTime, e ≠ .predict c requestId arrivalTime) :
    t.promises = s.promises := by
  have scheduler {u : Deployment F} {j : Nat} {ev : Batching.Event F}
      (h : s.schedulerStep cfg j ev = some u) : u.promises = s.promises := by
    simp only [schedulerStep, Option.bind_eq_some_iff, Option.map_eq_some_iff] at h
    obtain ⟨_, -, _, -, rfl⟩ := h
    rfl
  cases e with
  | app ev =>
    simp only [step] at h
    split at h
    · obtain ⟨app, -, rfl⟩ := Option.map_eq_some_iff.mp h
      rfl
    · cases h
  | predict c requestId arrivalTime => exact absurd rfl (he c requestId arrivalTime)
  | complete c =>
    simp only [step, complete, Option.bind_eq_some_iff, Option.map_eq_some_iff] at h
    obtain ⟨_, -, _, -, _, -, app, -, rfl⟩ := h
    rfl
  | scheduler j ev =>
    simp only [step] at h
    split at h
    · exact scheduler h
    · cases h
  | stop j =>
    simp only [step] at h
    split at h
    · exact scheduler h
    · cases h
  | shutdown j =>
    simp only [step, Option.bind_eq_some_iff, Option.map_eq_some_iff] at h
    obtain ⟨u, hu, app, -, rfl⟩ := h
    exact (scheduler hu : u.promises = s.promises)

end Deployment

namespace Service

variable {cfg : DeploymentConfig F} {s t : Service F}

/-- The counters, the ids drawn from them and the requests submitted under these ids. -/
structure Numbered (s : Service F) : Prop where
  bounded : ∀ x ∈ s.drawn, x.2.1 < s.nextRequestId.length
  counter : ∀ (j : Nat) n, s.nextRequestId[j]? = some n → n = (s.idsOf j).length % 2 ^ 64
  ids : ∀ (j k : Nat) id, (s.idsOf j)[k]? = some id → id = k % 2 ^ 64
  once : (s.drawn.map Prod.fst).Nodup
  submitted : ∀ c p, s.deployment.promises.lookup c = some p → ∃ w d req res,
    s.deployment.app.call c = some w ∧ s.deployment.schedulers[w.runtime]? = some d ∧
      (req, res) ∈ d.submits ∧ req.resultPromise = p ∧ (c, w.runtime, req.requestId) ∈ s.drawn

theorem numbered_init (cfg : DeploymentConfig F) : (init cfg).Numbered where
  bounded _ h := absurd h List.not_mem_nil
  counter _ _ h := by cases h
  ids _ _ _ h := by cases h
  once := .nil
  submitted _ _ h := by cases h

theorem idsOf_draw (s : Service F) (counters : List Nat) (c : CallId) (i j id : Nat) :
    ({ s with nextRequestId := counters, drawn := s.drawn ++ [(c, i, id)] } : Service F).idsOf j =
      if i = j then s.idsOf j ++ [id] else s.idsOf j := by
  by_cases hij : i = j
  · simp [idsOf, hij]
  · simp [idsOf, hij]

/-- A worker draws an id. -/
theorem Numbered.draw {c : CallId} (h : s.Numbered) (ht : s.draw cfg c = some t) :
    t.Numbered := by
  simp only [Service.draw, Option.bind_eq_some_iff] at ht
  obtain ⟨w, -, ht⟩ := ht
  split at ht
  · next hguard =>
    obtain ⟨n, hn, rfl⟩ := Option.map_eq_some_iff.mp ht
    have hlt := (List.getElem?_eq_some_iff.mp hn).1
    have hcount := h.counter _ _ hn
    refine ⟨?_, ?_, ?_, ?_, ?_⟩
    · refine forall_mem_snoc ?_ ?_
      · intro x hx
        rw [List.length_set]
        exact h.bounded x hx
      · rw [List.length_set]
        exact hlt
    · intro j m hm
      rw [idsOf_draw]
      rcases getElem?_set_cases hm with ⟨hj, rfl⟩ | ⟨hj, hm⟩
      · rw [if_pos hj.symm, List.length_append, List.length_singleton, hj, hcount,
          Nat.mod_add_mod]
      · rw [if_neg fun heq ↦ hj heq.symm]
        exact h.counter j m hm
    · intro j k id hk
      rw [idsOf_draw] at hk
      split at hk
      · next hj =>
        subst hj
        rcases getElem?_snoc_cases hk with hk | ⟨rfl, rfl⟩
        · exact h.ids _ k id hk
        · exact hcount
      · exact h.ids j k id hk
    · rw [List.map_append, List.map_singleton]
      refine List.nodup_append.mpr ⟨h.once, List.nodup_singleton _, ?_⟩
      rintro _ ha _ hb rfl
      cases List.mem_singleton.mp hb
      exact hguard.2.2 ha
    · intro c' p hp
      obtain ⟨w', d, req, res, hw', hd, hsub, hpromise, hdrawn⟩ := h.submitted c' p hp
      exact ⟨w', d, req, res, hw', hd, hsub, hpromise, List.mem_append_left _ hdrawn⟩
  · cases ht

/-- The promises after a step of the deployment that the service allows. -/
theorem Numbered.promises {ev : Deployment.Event F} {d : Deployment F} (h : s.Numbered)
    (hb : s.deployment.Bound cfg) (hallows : s.allows cfg ev = true)
    (ht : s.deployment.step cfg ev = some d) :
    ∀ c p, d.promises.lookup c = some p → ∃ w e req res, d.app.call c = some w ∧
      d.schedulers[w.runtime]? = some e ∧ (req, res) ∈ e.submits ∧ req.resultPromise = p ∧
        (c, w.runtime, req.requestId) ∈ s.drawn := by
  have hmove := Deployment.step_cases ht
  -- promises that were there before
  have kept {c : CallId} {p : Nat} (hp : s.deployment.promises.lookup c = some p) :
      ∃ w e req res, d.app.call c = some w ∧ d.schedulers[w.runtime]? = some e ∧
        (req, res) ∈ e.submits ∧ req.resultPromise = p ∧
          (c, w.runtime, req.requestId) ∈ s.drawn := by
    obtain ⟨w, e, req, res, hw, he, hsub, hpromise, hdrawn⟩ := h.submitted c p hp
    obtain ⟨w', hw', hruntime⟩ := hmove.runtime hb hw
    obtain ⟨e', he', hgrows⟩ := hmove.grows he
    exact ⟨w', e', req, res, hw', hruntime ▸ he', hgrows.submits _ hsub, hpromise,
      hruntime ▸ hdrawn⟩
  intro c p hp
  cases ev with
  | predict c₀ requestId arrivalTime =>
    have ht' := ht
    simp only [Deployment.step, Deployment.predict, Option.bind_eq_some_iff] at ht'
    obtain ⟨w, hw, app, happ, hcase⟩ := ht'
    split at hcase
    · cases hcase
      exact kept hp
    · next hlen =>
      obtain ⟨e, he, rfl⟩ := Option.map_eq_some_iff.mp hcase
      have hid : (c₀, w.runtime, requestId) ∈ s.drawn := by
        rw [allows, hw, Option.all_some, Bool.or_eq_true, bne_iff_ne] at hallows
        rcases hallows with hbad | hid
        · exact absurd hbad hlen
        · exact List.contains_iff_mem.mp hid
      by_cases hc : c = c₀
      · subst hc
        obtain ⟨w', hadv, hw', -⟩ := Application.call_event hw happ
        have hruntime : w'.runtime = w.runtime := by
          cases Work.advance_cases hadv <;> rfl
        cases hold : s.deployment.promises.lookup c with
        | some p₀ =>
          have hsame : (s.deployment.promises ++ [(c, e.submits.length)]).lookup c = some p₀ := by
            rw [List.lookup_append, hold, Option.some_or]
          cases hsame.symm.trans hp
          exact kept hold
        | none =>
          cases (Deployment.lookup_snoc_self e.submits.length hold).symm.trans hp
          obtain ⟨req, res, hmem, hpromise, hreq, -⟩ :=
            Deployment.exists_mem_submit e requestId w.array arrivalTime
          refine ⟨w', _, req, res, hw', ?_, hmem, hpromise, ?_⟩
          · rw [hruntime]
            exact List.getElem?_set_self (List.getElem?_eq_some_iff.mp he).1
          · rw [hruntime, hreq]
            exact hid
      · exact kept ((Deployment.lookup_snoc_ne hc _).symm.trans hp)
  | _ =>
    refine kept ?_
    rw [← Deployment.promises_of_step ht (by rintro _ _ _ ⟨⟩)]
    exact hp

/-- A step of the deployment. -/
theorem Numbered.deployment {ev : Deployment.Event F} {d : Deployment F} (h : s.Numbered)
    (hb : s.deployment.Bound cfg) (hallows : s.allows cfg ev = true)
    (ht : s.deployment.step cfg ev = some d) : (s.adopt d).Numbered where
  bounded x hx := by
    rw [adopt, List.length_append]
    exact Nat.lt_add_right _ (h.bounded x hx)
  counter j n hn := by
    change (s.nextRequestId ++ List.replicate _ 0)[j]? = some n at hn
    rw [List.getElem?_append] at hn
    split at hn
    · exact h.counter j n hn
    · next hlt =>
      -- nothing was drawn from the counter of a new runtime
      have hempty : (s.adopt d).idsOf j = [] := by
        refine List.map_eq_nil_iff.mpr (List.filter_eq_nil_iff.mpr ?_)
        intro x hx hj
        exact hlt ((of_decide_eq_true hj) ▸ h.bounded x hx)
      rw [hempty, List.eq_of_mem_replicate (List.mem_of_getElem? hn)]
      rfl
  ids := h.ids
  once := h.once
  submitted := h.promises hb hallows ht

/-- Everything that holds in every state of a run. -/
theorem numbered_exec {es : List (Event F)} (h : exec (step cfg) (init cfg) es = some s) :
    s.deployment.Wired cfg ∧ s.deployment.Bound cfg ∧ s.Numbered := by
  refine exec_preserves
    (P := fun u ↦ u.deployment.Wired cfg ∧ u.deployment.Bound cfg ∧ u.Numbered) ?_ h
    ⟨Deployment.wired_init cfg, Deployment.bound_init cfg, numbered_init cfg⟩
  rintro u e v ⟨hw, hb, hn⟩ hv
  cases e with
  | draw c =>
    have hsame : v.deployment = u.deployment := by
      simp only [step, Service.draw, Option.bind_eq_some_iff] at hv
      obtain ⟨w, -, hv⟩ := hv
      split at hv
      · obtain ⟨_, -, rfl⟩ := Option.map_eq_some_iff.mp hv
        rfl
      · cases hv
    rw [hsame]
    exact ⟨hw, hb, hn.draw hv⟩
  | deployment ev =>
    simp only [step] at hv
    split at hv
    · next hallows =>
      obtain ⟨d, hd, rfl⟩ := Option.map_eq_some_iff.mp hv
      have hmove := Deployment.step_cases hd
      exact ⟨hw.step hmove, hb.step hmove, hn.deployment hb hallows hd⟩
    · cases hv

/-- A successful call returns the id that its worker drew. -/
theorem Numbered.id_drawn (h : s.Numbered) (hw : s.deployment.Wired cfg)
    (hb : s.deployment.Bound cfg) {c : CallId} {w : Work F}
    (hc : s.deployment.app.call c = some w) {id : Nat} {logits : List F}
    (ho : w.outcome = some (.ok (id, logits))) : (c, w.runtime, id) ∈ s.drawn := by
  obtain ⟨p, d, hp, hd, hres⟩ := (hb.calls c).answered w _ hc ho
  obtain ⟨w₀, d₀, req, res, hw₀, hd₀, hsub, hpromise, hdrawn⟩ := h.submitted c p hp
  rw [hc] at hw₀
  cases hw₀
  rw [hd] at hd₀
  cases hd₀
  rw [← hpromise] at hres
  obtain ⟨-, -, hid, -⟩ :=
    (hw.inv d (List.mem_of_getElem? hd)).resolved_result hsub hres
  rw [← hid] at hdrawn
  exact hdrawn

/-- As long as a counter has not wrapped around, no id is drawn from it twice. -/
theorem Numbered.ids_nodup (h : s.Numbered) {j : Nat} (hlen : (s.idsOf j).length ≤ 2 ^ 64) :
    (s.idsOf j).Nodup := by
  refine List.nodup_iff_injective_get.mpr ?_
  intro a b hab
  have value (k : Fin (s.idsOf j).length) : (s.idsOf j).get k = k := by
    have hk := h.ids j k _ (List.getElem?_eq_getElem k.isLt)
    rw [Nat.mod_eq_of_lt (Nat.lt_of_lt_of_le k.isLt hlen)] at hk
    exact hk
  rw [value a, value b] at hab
  exact Fin.ext hab

/-- Two calls that one runtime answered have different request ids, however their workers were
interleaved, unless the runtime has drawn more than `2 ^ 64` of them. -/
theorem request_ids_unique {es : List (Event F)}
    (hrun : exec (step cfg) (init cfg) es = some s) {c c' : CallId} (hne : c ≠ c')
    {w w' : Work F} (hc : s.deployment.app.call c = some w)
    (hc' : s.deployment.app.call c' = some w') (hsame : w'.runtime = w.runtime)
    {id id' : Nat} {logits logits' : List F} (ho : w.outcome = some (.ok (id, logits)))
    (ho' : w'.outcome = some (.ok (id', logits')))
    (hdraws : (s.idsOf w.runtime).length ≤ 2 ^ 64) : id ≠ id' := by
  obtain ⟨hw, hb, hn⟩ := numbered_exec hrun
  have hd := hn.id_drawn hw hb hc ho
  have hd' := hn.id_drawn hw hb hc' ho'
  rw [hsame] at hd'
  intro heq
  have hmem : ∀ x : CallId × Nat × Nat, x ∈ s.drawn → x.2.1 = w.runtime →
      x ∈ s.drawn.filter fun x ↦ x.2.1 = w.runtime :=
    fun x hx hj ↦ List.mem_filter.mpr ⟨hx, decide_eq_true hj⟩
  have hpair := List.inj_on_of_nodup_map (hn.ids_nodup hdraws) (hmem _ hd rfl) (hmem _ hd' rfl) heq
  exact hne (congrArg Prod.fst hpair)

/-- Every worker draws its id just before it submits. -/
def withDraws (es : List (Deployment.Event F)) : List (Event F) :=
  es.flatMap fun ev ↦
    match ev with
    | .predict c _ _ => [.draw c, .deployment ev]
    | _ => [.deployment ev]

/-- The startup probe and the first request of the small server. -/
theorem request_ids_unique_unitService :
    ∃ s w w' id id' logits logits',
      exec (step Deployment.unitDeployment) (init Deployment.unitDeployment)
        (withDraws Deployment.unitService) = some s ∧
      s.deployment.app.call (.probe 0) = some w ∧ s.deployment.app.call (.request 0) = some w' ∧
      w.outcome = some (.ok (id, logits)) ∧ w'.outcome = some (.ok (id', logits')) ∧ id ≠ id' := by
  have hfacts : (exec (step Deployment.unitDeployment) (init Deployment.unitDeployment)
      (withDraws Deployment.unitService)).map (fun s ↦
        ((s.deployment.app.call (.probe 0)).map (·.runtime),
          (s.deployment.app.call (.request 0)).map (·.runtime), (s.idsOf 0).length,
          decide ((s.deployment.app.call (.probe 0)).bind (·.outcome) = some (.ok (0, [0]))),
          decide ((s.deployment.app.call (.request 0)).bind (·.outcome) =
            some (.ok (1, [7]))))) = some (some 0, some 0, 2, true, true) := by
    decide +kernel
  obtain ⟨s, hrun, hs⟩ := Option.map_eq_some_iff.mp hfacts
  simp only [Prod.mk.injEq, decide_eq_true_eq] at hs
  obtain ⟨hruntime, hruntime', hlen, hprobe, hrequest⟩ := hs
  obtain ⟨w, hw, ho⟩ := Option.bind_eq_some_iff.mp hprobe
  obtain ⟨w', hw', ho'⟩ := Option.bind_eq_some_iff.mp hrequest
  rw [hw] at hruntime
  rw [hw'] at hruntime'
  have hj : w.runtime = 0 := Option.some.inj hruntime
  have hj' : w'.runtime = 0 := Option.some.inj hruntime'
  have hne := request_ids_unique hrun (by decide) hw hw' (hj'.trans hj.symm) ho ho'
    (by rw [hj, hlen]; decide)
  exact ⟨s, w, w', 0, 1, [0], [7], hrun, hw, hw', ho, ho', hne⟩

end Service
end InferenceServer.Server
