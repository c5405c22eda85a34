import Mathlib.Data.List.Nodup
import Mathlib.Data.List.Pairwise
import InferenceServer.Batching.Delivery

/-!
# Every caller gets its own row

Library `Batching`. `cpp/src/scheduler/scheduler.cpp:145–215` filters a drained batch,
concatenates what is left and slices the answer by position. A promise belongs to one
request of one drained batch, and a drained batch to at most one engine call, so the
history determines what each promise is resolved with.
-/

namespace InferenceServer.Batching

open InferenceServer.Base InferenceServer.Engine

variable {F : Type}

/-- The drained batch for which the engine has not been called yet. -/
def Worker.uncalled : Worker F → List (List (InferenceRequest F))
  | .filtering d _ _ => [d]
  | .batched d _ => [d]
  | .executing d _ _ => [d]
  | _ => []

/-- Row `i` of the batched input is the `i`th well-sized request's input. -/
theorem CallOk.row_input {cfg : SchedulerConfig} {ds : List (List (InferenceRequest F))}
    {c : EngineCall F} (h : CallOk cfg ds c) {i : Nat} {req : InferenceRequest F}
    (hi : (c.drained.filter (wellSized cfg))[i]? = some req) :
    row cfg.inputElems c.batchedInput i = req.inputData := by
  rw [h.input, concatInputs_eq]
  apply row_flatten
  · intro r hr
    obtain ⟨req', hreq', rfl⟩ := List.mem_map.mp hr
    simpa [wellSized] using (List.mem_filter.mp hreq').2
  · rw [List.getElem?_map, hi]
    rfl

/-- The inputs of well-sized requests are that many rows. -/
theorem length_concatInputs {cfg : SchedulerConfig} {batch : List (InferenceRequest F)}
    (h : ∀ req ∈ batch, wellSized cfg req = true) :
    (concatInputs batch).length = batch.length * cfg.inputElems := by
  rw [concatInputs_eq, length_flatten_rows (n := cfg.inputElems), List.length_map]
  intro r hr
  obtain ⟨req, hreq, rfl⟩ := List.mem_map.mp hr
  simpa [wellSized] using h req hreq

/-- The batched input has one row for each of them. -/
theorem CallOk.length_input {cfg : SchedulerConfig} {ds : List (List (InferenceRequest F))}
    {c : EngineCall F} (h : CallOk cfg ds c) :
    c.batchedInput.length = c.batchSize * cfg.inputElems := by
  rw [h.input, h.size, length_concatInputs fun req hreq ↦ (List.mem_filter.mp hreq).2]

namespace Scheduler

variable {cfg : SchedulerConfig} {s t : Scheduler F} {e : Event F}

/-- Engine calls follow the drained batches in order, at most one for each of them. -/
def CallsInOrder (s : Scheduler F) : Prop :=
  (s.calls.map (·.drained) ++ s.worker.uncalled).Sublist s.drains

private theorem callsInOrder_keep (h : CallsInOrder s) (hc : t.calls = s.calls)
    (hd : t.drains = s.drains) (hw : t.worker.uncalled.Sublist s.worker.uncalled) :
    CallsInOrder t := by
  unfold CallsInOrder at *
  rw [hc, hd]
  exact (List.Sublist.append (List.Sublist.refl _) hw).trans h

private theorem filterStep_uncalled (cfg : SchedulerConfig) (s : Scheduler F)
    (d todo batch : List (InferenceRequest F)) :
    (s.filterStep cfg d todo batch).calls = s.calls ∧
      (s.filterStep cfg d todo batch).drains = s.drains ∧
      (s.filterStep cfg d todo batch).worker.uncalled.Sublist [d] := by
  unfold filterStep
  split
  · refine ⟨rfl, rfl, ?_⟩
    dsimp only
    split <;> simp [Worker.uncalled]
  · split
    · exact ⟨rfl, rfl, by simp [Worker.uncalled]⟩
    · split <;> exact ⟨rfl, rfl, by simp [Worker.uncalled]⟩

private theorem deliverStep_uncalled (cfg : SchedulerConfig) (s : Scheduler F)
    (d batch : List (InferenceRequest F)) (out : FloatVec F) (i : Nat) :
    (s.deliverStep cfg d batch out i).calls = s.calls ∧
      (s.deliverStep cfg d batch out i).drains = s.drains ∧
      (s.deliverStep cfg d batch out i).worker.uncalled = [] := by
  unfold deliverStep
  split
  · exact ⟨rfl, rfl, rfl⟩
  · split <;> exact ⟨rfl, rfl, rfl⟩

private theorem failStep_uncalled (s : Scheduler F) (d batch todo : List (InferenceRequest F))
    (e : CppException) :
    (s.failStep d batch todo e).calls = s.calls ∧
      (s.failStep d batch todo e).drains = s.drains ∧
      (s.failStep d batch todo e).worker.uncalled = [] := by
  unfold failStep
  split
  · exact ⟨rfl, rfl, rfl⟩
  · split <;> exact ⟨rfl, rfl, rfl⟩

private theorem callsInOrder_worker (h : CallsInOrder s) (ht : WorkerStep cfg s e t) :
    CallsInOrder t := by
  cases ht with
  | poll p o q hw hq =>
    unfold CallsInOrder at h ⊢
    simp only [hw, Worker.uncalled, List.append_nil] at h
    unfold pollStep
    split
    · simpa [Worker.uncalled] using h
    · simpa [Worker.uncalled] using h
    · exact h.append (List.Sublist.refl _)
  | checkRunning hw =>
    refine callsInOrder_keep h rfl rfl ?_
    dsimp only
    split <;> simp [Worker.uncalled]
  | filter d todo batch hw =>
    obtain ⟨hc, hd, hu⟩ := filterStep_uncalled cfg s d todo batch
    exact callsInOrder_keep h hc hd (by rw [hw]; exact hu)
  | account d batch dequeuedAt hw =>
    exact callsInOrder_keep h rfl rfl (by rw [hw]; exact List.Sublist.refl _)
  | infer d batch input answer execUs hw =>
    unfold CallsInOrder at h ⊢
    have hnone : (Worker.afterAnswer cfg d batch answer).uncalled = [] := by
      unfold Worker.afterAnswer
      split
      · rfl
      · split <;> rfl
    rw [hnone]
    simpa [hw, Worker.uncalled] using h
  | deliver d batch out i hw =>
    obtain ⟨hc, hd, hu⟩ := deliverStep_uncalled cfg s d batch out i
    exact callsInOrder_keep h hc hd (by rw [hu]; simp)
  | fail d batch todo eptr hw =>
    obtain ⟨hc, hd, hu⟩ := failStep_uncalled s d batch todo eptr
    exact callsInOrder_keep h hc hd (by rw [hu]; simp)

private theorem wake_uncalled (w : Worker F) : w.wake.uncalled = w.uncalled := by
  cases w <;> rfl

/-- Every event keeps the calls in order. -/
theorem callsInOrder_step (h : CallsInOrder s) (ht : s.step cfg e = some t) :
    CallsInOrder t := by
  cases step_cases ht with
  | notifyOne hn => exact callsInOrder_keep h rfl rfl (by simp [wake_uncalled])
  | notifyAll hc => exact callsInOrder_keep h rfl rfl (by simp [wake_uncalled])
  | wake p hw hp => exact callsInOrder_keep h rfl rfl (by simp [Worker.uncalled])
  | expire hw => exact callsInOrder_keep h rfl rfl (by simp [Worker.uncalled])
  | spawn hc hw => exact callsInOrder_keep h rfl rfl (by simp [Worker.uncalled])
  | spawnOver hc hw => exact callsInOrder_keep h rfl rfl (by simp [Worker.uncalled])
  | join hc hw => exact callsInOrder_keep h rfl rfl (by simp [Worker.uncalled])
  | worker hw => exact callsInOrder_worker h hw
  | _ => exact h

/-- The calls are in order in every state a run reaches. -/
theorem callsInOrder_exec {es : List (Event F)} (h : exec (step cfg) init es = some s) :
    CallsInOrder s :=
  exec_preserves (fun _ _ _ hs ht ↦ callsInOrder_step hs ht) h (List.Sublist.refl _)

/-! ### What the history determines -/

/-- Two drained requests with one promise are the same request of the same batch. -/
theorem Inv.drained_inj (h : s.Inv cfg) {d d' : List (InferenceRequest F)} (hd : d ∈ s.drains)
    (hd' : d' ∈ s.drains) {req req' : InferenceRequest F} (hr : req ∈ d) (hr' : req' ∈ d')
    (hp : req.resultPromise = req'.resultPromise) : req = req' ∧ d = d' := by
  have hn := h.tracked.drained_nodup
  have hreq : req = req' :=
    List.inj_on_of_nodup_map hn (List.mem_flatten_of_mem hd hr) (List.mem_flatten_of_mem hd' hr') hp
  subst hreq
  refine ⟨rfl, ?_⟩
  have hdis := (List.nodup_flatten.mp hn.of_map).2
  have hsymm : Std.Symm (List.Disjoint (α := InferenceRequest F)) :=
    ⟨fun _ _ hxy _ ha hb ↦ hxy hb ha⟩
  by_contra hne
  exact hdis.forall hd hd' hne hr hr'

/-- The engine was called at most once for a drained batch. -/
theorem Inv.call_inj (h : s.Inv cfg) (ho : CallsInOrder s) {c c' : EngineCall F}
    (hc : c ∈ s.calls) (hc' : c' ∈ s.calls) (hd : c.drained = c'.drained) : c = c' := by
  have hdis := (List.nodup_flatten.mp h.tracked.drained_nodup.of_map).2
  have hnodup : s.drains.Nodup := by
    apply hdis.imp_of_mem
    intro d d' hmem _ hxy he
    obtain ⟨req, hreq⟩ := List.exists_mem_of_ne_nil d (h.drained d hmem).1
    exact hxy hreq (he ▸ hreq)
  have hcalls : (s.calls.map (·.drained)).Nodup :=
    hnodup.sublist ((List.sublist_append_left _ _).trans ho)
  exact List.inj_on_of_nodup_map hcalls hc hc' hd

/-- A drained request is resolved, or the worker still holds it. -/
theorem Inv.drained_settled (h : s.Inv cfg) {d : List (InferenceRequest F)} (hd : d ∈ s.drains)
    {req : InferenceRequest F} (hr : req ∈ d) :
    s.resolutions req.resultPromise = 1 ∨
      req.resultPromise ∈ s.worker.holding.map (·.resultPromise) := by
  have hmem : req.resultPromise ∈
      s.resolved.map Prod.fst ++ s.worker.holding.map (·.resultPromise) :=
    h.custody.mem_iff.mpr (List.mem_map_of_mem (List.mem_flatten_of_mem hd hr))
  rcases List.mem_append.mp hmem with hres | hhold
  · have hn := (List.nodup_append.mp h.tracked.custody_nodup).1
    exact .inl (List.count_eq_one_of_mem hn hres)
  · exact .inr hhold

/-- The only resolution of a mis-sized request is the size error. -/
theorem Inv.resolved_missized (h : s.Inv cfg) {d : List (InferenceRequest F)}
    (hd : d ∈ s.drains) {req : InferenceRequest F} (hr : req ∈ d)
    (hz : wellSized cfg req = false) {o : Outcome F} (ho : (req.resultPromise, o) ∈ s.resolved) :
    o = .error inputSizeError := by
  obtain ⟨d', hd', req', hr', hp, hcase⟩ := h.explained _ ho
  obtain ⟨rfl, rfl⟩ := h.drained_inj hd' hd hr' hr hp
  rcases hcase with ⟨-, ho⟩ | ⟨c, -, -, i, hi, -⟩
  · exact ho
  · have hw := (List.mem_filter.mp (List.mem_of_getElem? hi)).2
    rw [hz] at hw
    cases hw

/-- The only resolution of a well-sized request is what the call for its batch makes of its
row. -/
theorem Inv.resolved_wellSized (h : s.Inv cfg) {d : List (InferenceRequest F)}
    (hd : d ∈ s.drains) {req : InferenceRequest F} (hr : req ∈ d)
    (hz : wellSized cfg req = true) {o : Outcome F} (ho : (req.resultPromise, o) ∈ s.resolved) :
    ∃ c ∈ s.calls, c.drained = d ∧
      ∃ i, (d.filter (wellSized cfg))[i]? = some req ∧ o = c.outcome cfg i req := by
  obtain ⟨d', hd', req', hr', hp, hcase⟩ := h.explained _ ho
  obtain ⟨rfl, rfl⟩ := h.drained_inj hd' hd hr' hr hp
  rcases hcase with ⟨hz', -⟩ | hcall
  · rw [hz] at hz'
    cases hz'
  · exact hcall

/-- The batch of a call holds each request once. -/
theorem Inv.row_inj (h : s.Inv cfg) {d : List (InferenceRequest F)} (hd : d ∈ s.drains)
    {req : InferenceRequest F} {i j : Nat} (hi : (d.filter (wellSized cfg))[i]? = some req)
    (hj : (d.filter (wellSized cfg))[j]? = some req) : i = j := by
  have hn : d.Nodup := (List.nodup_flatten.mp h.tracked.drained_nodup.of_map).1 d hd
  have hlt := (List.getElem?_eq_some_iff.mp hi).1
  exact (List.getElem?_inj hlt (hn.filter _)).mp (hi.trans hj.symm)

/-- An answer of the expected length gives request `i` its own row: the extents the slice is
cut with do not wrap, since the whole answer is one vector. -/
theorem outcome_of_length {c : EngineCall F} {out : FloatVec F} (ha : c.answer = .ok out)
    (hlen : out.toList.length = c.batchSize * cfg.outputElems) {i : Nat} (hi : i < c.batchSize)
    (req : InferenceRequest F) :
    c.outcome cfg i req =
      .ok ⟨req.requestId,
        slice out.toList (i * cfg.outputElems) ((i + 1) * cfg.outputElems)⟩ := by
  have hfit : c.batchSize * cfg.outputElems < 2 ^ 64 := by
    have hlt := out.size_lt
    omega
  have hstop : (i + 1) * cfg.outputElems ≤ c.batchSize * cfg.outputElems :=
    Nat.mul_le_mul_right _ hi
  have hstart : i * cfg.outputElems ≤ (i + 1) * cfg.outputElems :=
    Nat.mul_le_mul_right _ (Nat.le_succ i)
  have hsize : out.size = sizeMul c.batchSize cfg.outputElems := by
    rw [sizeMul_of_lt hfit]
    exact hlen
  rw [EngineCall.outcome, ha]
  dsimp only
  rw [if_neg (not_not.mpr hsize), sliceResult, sizeMul_of_lt (by omega), sizeMul_of_lt (by omega)]

/-- The call for a batch, when its answer has the expected length, decides the resolution
of each of its rows. -/
theorem Inv.resolved_row (h : s.Inv cfg) (ho : CallsInOrder s) {c : EngineCall F}
    (hc : c ∈ s.calls) {out : FloatVec F} (ha : c.answer = .ok out)
    (hlen : out.toList.length = c.batchSize * cfg.outputElems) {i : Nat}
    {req : InferenceRequest F} (hi : (c.drained.filter (wellSized cfg))[i]? = some req)
    {o : Outcome F} (hres : (req.resultPromise, o) ∈ s.resolved) :
    o = .ok ⟨req.requestId,
      slice out.toList (i * cfg.outputElems) ((i + 1) * cfg.outputElems)⟩ := by
  have hok := h.called c hc
  obtain ⟨hmem, hz⟩ := List.mem_filter.mp (List.mem_of_getElem? hi)
  obtain ⟨c', hc', hd, j, hj, rfl⟩ := h.resolved_wellSized hok.drained hmem hz hres
  obtain rfl := h.call_inj ho hc' hc hd
  obtain rfl := h.row_inj hok.drained hi hj
  have hlt : i < c'.batchSize := by
    rw [hok.size]
    exact (List.getElem?_eq_some_iff.mp hi).1
  exact outcome_of_length ha hlen hlt req

/-- A call that throws hands its exception to every well-sized request of its batch. -/
theorem Inv.resolved_throw (h : s.Inv cfg) (ho : CallsInOrder s) {c : EngineCall F}
    (hc : c ∈ s.calls) {ex : CppException} (ha : c.answer = .error ex)
    {req : InferenceRequest F} (hr : req ∈ c.drained) (hz : wellSized cfg req = true)
    {o : Outcome F} (hres : (req.resultPromise, o) ∈ s.resolved) : o = .error ex := by
  obtain ⟨c', hc', hd, i, -, rfl⟩ := h.resolved_wellSized (h.called c hc).drained hr hz hres
  obtain rfl := h.call_inj ho hc' hc hd
  rw [EngineCall.outcome, ha]

/-- Only accepted requests are drained. -/
theorem Inv.submits_of_drained (h : s.Inv cfg) {d : List (InferenceRequest F)} (hd : d ∈ s.drains)
    {req : InferenceRequest F} (hr : req ∈ d) : (req, .ok ()) ∈ s.submits := by
  apply mem_accepted.mp
  rw [← h.fifo]
  exact List.mem_append_left _ (List.mem_flatten_of_mem hd hr)

/-- A promise is only resolved after its request was drained. -/
theorem Inv.resolved_drained (h : s.Inv cfg) {req : InferenceRequest F}
    (hr : (req, .ok ()) ∈ s.submits) {o : Outcome F}
    (hres : (req.resultPromise, o) ∈ s.resolved) : ∃ d ∈ s.drains, req ∈ d := by
  obtain ⟨d, hd, req', hr', hp, -⟩ := h.explained _ hres
  have hsame := h.promise_inj (h.submits_of_drained hd hr') hr hp
  rw [Prod.mk.injEq] at hsame
  exact ⟨d, hd, hsame.1 ▸ hr'⟩

/-- With row-wise answers, an accepted request gets `f` of its own input. -/
theorem Inv.resolved_rowWise (h : s.Inv cfg) (ho : CallsInOrder s) {f : List F → List F}
    (hf : ∀ r, r.length = cfg.inputElems → (f r).length = cfg.outputElems)
    (hcalls : ∀ c ∈ s.calls, ∃ out, c.answer = .ok out ∧
      out.toList = mapRows f cfg.inputElems c.batchSize c.batchedInput)
    {req : InferenceRequest F} (hr : (req, .ok ()) ∈ s.submits)
    (hz : wellSized cfg req = true) {o : Outcome F}
    (hres : (req.resultPromise, o) ∈ s.resolved) :
    o = .ok ⟨req.requestId, f req.inputData⟩ := by
  obtain ⟨d, hd, hmem⟩ := h.resolved_drained hr hres
  obtain ⟨c, hc, rfl, i, hi, -⟩ := h.resolved_wellSized hd hmem hz hres
  obtain ⟨out, ha, hout⟩ := hcalls c hc
  have hok := h.called c hc
  have hlen (j : Nat) (hj : j < c.batchSize) :
      (f (row cfg.inputElems c.batchedInput j)).length = cfg.outputElems := by
    apply hf
    rw [hok.size] at hj
    rw [hok.row_input (List.getElem?_eq_getElem hj)]
    simpa [wellSized] using (List.mem_filter.mp (List.getElem_mem hj)).2
  have hlt : i < c.batchSize := by
    rw [hok.size]
    exact (List.getElem?_eq_some_iff.mp hi).1
  rw [h.resolved_row ho hc ha (by rw [hout, length_mapRows hlen]) hi hres, hout, slice_eq_row,
    row_mapRows hlen hlt, hok.row_input hi]

/-- Every caller gets its own row. Batches are drained in queue order; each vector handed to
the engine is the concatenation of the inputs of the well-sized requests of one drained
batch, and `batch_size` their number. A mis-sized request is in no row and its only
resolution is the size error. When a call answers with `batch_size * output_elems` floats,
the only resolution of the request whose input is row `i` is its own id with elements
`[i * output_elems, (i + 1) * output_elems)`. So if every call answers row by row with `f`,
every well-sized request is resolved with `f` of its own input. -/
theorem caller_gets_own_row (hm : 1 ≤ cfg.maxBatchSize) {es : List (Event F)}
    (hrun : exec (step cfg) init es = some s) :
    s.drains.flatten <+: s.accepted ∧
    (∀ c ∈ s.calls, c.drained ∈ s.drains ∧
      c.batchedInput = ((c.drained.filter (wellSized cfg)).map (·.inputData)).flatten ∧
      c.batchSize = (c.drained.filter (wellSized cfg)).length ∧
      c.inputElems = cfg.inputElems ∧ c.outputElems = cfg.outputElems) ∧
    (∀ d ∈ s.drains, ∀ req ∈ d,
      (s.resolutions req.resultPromise = 1 ∨
        req.resultPromise ∈ s.worker.holding.map (·.resultPromise)) ∧
      (req.inputData.length ≠ cfg.inputElems →
        (∀ c ∈ s.calls, req.resultPromise ∉
          (c.drained.filter (wellSized cfg)).map (·.resultPromise)) ∧
        ∀ o, (req.resultPromise, o) ∈ s.resolved → o = .error inputSizeError)) ∧
    (∀ c ∈ s.calls, ∀ out, c.answer = .ok out →
      out.toList.length = c.batchSize * cfg.outputElems →
      ∀ i req, (c.drained.filter (wellSized cfg))[i]? = some req →
        row cfg.inputElems c.batchedInput i = req.inputData ∧
        ∀ o, (req.resultPromise, o) ∈ s.resolved → o = .ok ⟨req.requestId,
          slice out.toList (i * cfg.outputElems) ((i + 1) * cfg.outputElems)⟩) ∧
    (∀ f : List F → List F,
      (∀ r, r.length = cfg.inputElems → (f r).length = cfg.outputElems) →
      (∀ c ∈ s.calls, ∃ out, c.answer = .ok out ∧
        out.toList = mapRows f cfg.inputElems c.batchSize c.batchedInput) →
      ∀ req, (req, .ok ()) ∈ s.submits → req.inputData.length = cfg.inputElems →
        ∀ o, (req.resultPromise, o) ∈ s.resolved →
          o = .ok ⟨req.requestId, f req.inputData⟩) := by
  have hi := inv_exec hm hrun
  have ho := callsInOrder_exec hrun
  refine ⟨⟨s.queue.queue, hi.fifo⟩, ?_, ?_, ?_, ?_⟩
  · intro c hc
    have hok := hi.called c hc
    exact ⟨hok.drained, by rw [hok.input, concatInputs_eq], hok.size, hok.inputElems,
      hok.outputElems⟩
  · intro d hd req hr
    refine ⟨hi.drained_settled hd hr, ?_⟩
    intro hz
    have hz' : wellSized cfg req = false := by simpa [wellSized] using hz
    refine ⟨?_, fun o hres ↦ hi.resolved_missized hd hr hz' hres⟩
    intro c hc hmem
    obtain ⟨req', hreq', hp⟩ := List.mem_map.mp hmem
    obtain ⟨hmem', hw⟩ := List.mem_filter.mp hreq'
    obtain ⟨rfl, -⟩ := hi.drained_inj (hi.called c hc).drained hd hmem' hr hp
    rw [hz'] at hw
    cases hw
  · intro c hc out ha hlen i req hreq
    exact ⟨(hi.called c hc).row_input hreq, fun o hres ↦ hi.resolved_row ho hc ha hlen hreq hres⟩
  · intro f hf hcalls req hr hz o hres
    exact hi.resolved_rowWise ho hf hcalls hr (by simpa [wellSized] using hz) hres

private theorem length_mixedOutput : [30, 40].length < 2 ^ 61 := by decide

/-- Two well-sized requests around a mis-sized one, in one batch. -/
def mixedBatch : List (Event Nat) :=
  [.submit 7 [3] 0, .submit 8 [] 0, .submit 9 [4] 0, .start, .spawn, .poll, .filter, .filter,
    .filter, .filter, .account 0, .infer (.ok ⟨[30, 40], length_mixedOutput⟩) 0, .deliver,
    .deliver]

/-- Room for the whole batch. -/
def mixedConfig : SchedulerConfig :=
  { maxBatchSize := 3, maxWait := 0, inputElems := 1, outputElems := 1 }

/-- Where the run stands when the batch has been answered. -/
def mixedEnd : Scheduler Nat :=
  (exec (step mixedConfig) init mixedBatch).get (by decide +kernel)

theorem caller_gets_own_row_mixedBatch :
    mixedEnd.resolved =
      [(1, .error inputSizeError), (0, .ok ⟨7, [30]⟩), (2, .ok ⟨9, [40]⟩)] ∧
    ∀ o, (2, o) ∈ mixedEnd.resolved → o = .ok ⟨9, [4 * 10]⟩ := by
  have hrun : exec (step mixedConfig) init mixedBatch = some mixedEnd := (Option.some_get _).symm
  refine ⟨by decide +kernel, ?_⟩
  have hrow := (caller_gets_own_row (by decide) hrun).2.2.2.2 (fun r ↦ r.map (· * 10))
    (fun r hr ↦ (List.length_map _).trans hr)
  refine hrow ?_ ⟨9, [4], 0, 2⟩ (by decide +kernel) rfl
  have hcalls : mixedEnd.calls = [⟨[⟨7, [3], 0, 0⟩, ⟨8, [], 0, 1⟩, ⟨9, [4], 0, 2⟩], [3, 4], 2, 1, 1,
      .ok ⟨[30, 40], by decide⟩⟩] := by decide +kernel
  intro c hc
  rw [hcalls, List.mem_singleton] at hc
  subst hc
  exact ⟨_, rfl, by decide⟩

end Scheduler
end InferenceServer.Batching
