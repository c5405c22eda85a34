import InferenceServer.Engine.OnnxConstruct
import InferenceServer.Engine.OnnxSuccess

/-!
# The bound path against the host path

Library `Engine`. `cpp/src/engine/onnx_execution_engine.cpp:184–237,339–467`. The comment on
the pinned buffer says its padded tail is zeroed once and never changes; but each call
overwrites the rows it has, so the tail of a small batch holds rows of larger ones before
it. The two paths agree exactly when what was last written to every padding position is
zero.
-/

namespace InferenceServer.Engine

open InferenceServer.Base InferenceServer.Base.Act

variable {F σ : Type}

/-- The first output of every run is a tensor with one row of `outputElems` for each input
row, which is the shape the bound path binds. -/
def Session.Conforms (session : Session F) (outputElems : Nat) : Prop :=
  ∀ t n outputs, t.shape = inputShape n → session.run t = .ok outputs →
    ∃ output rest, outputs = .tensor output :: rest ∧ output.shape = [n, outputElems]

/-- A session whose every output is the input element at `p`. -/
def Session.readAt (outputElems p : Nat) : Session F where
  run t :=
    match t.data[p]? with
    | none => .error "no such element"
    | some x =>
      .ok [.tensor ⟨[t.shape.headD 0, outputElems],
        List.replicate (t.shape.headD 0 * outputElems) x, by simp⟩]

theorem Session.readAt_conforms (outputElems p : Nat) :
    (Session.readAt outputElems p : Session F).Conforms outputElems := by
  intro t n outputs hshape hs
  unfold Session.readAt at hs
  dsimp only at hs
  split at hs
  · cases hs
  · cases hs
    exact ⟨_, [], rfl, by simp [hshape, inputShape]⟩

namespace OnnxEngine

variable {opts : OnnxOptions F} {buf : List F} {e : OnnxEngine F}

variable [FloatOps F]

/-! ### One call on both paths -/

/-- The first `paddedBatch` rows of the device input once `run_bound` has staged a batch. -/
def boundRows (batchedInput : FloatVec F) (paddedBatch : Nat) :
    Act CppException (OnnxEngine F) (List F) := do
  stageInput {} batchedInput paddedBatch
  let e ← get
  pure (e.deviceInput.take (sizeMul paddedBatch e.options.inputElems))

/-- The bound path stages the front of the pinned input under the batch. -/
theorem boundRows_value (hn : opts.normalizeOnDevice = false) (hk : Kept opts true buf e)
    {input : FloatVec F} {paddedBatch : Nat}
    (hsize : input.size ≤ paddedBatch * opts.inputElems) (hp : paddedBatch ≤ opts.maxBatch) :
    (boundRows input paddedBatch).value e =
      some ((overwrite buf input.toList).take (paddedBatch * opts.inputElems)) := by
  obtain ⟨t, ht, hkt, hrows⟩ := stageInput_outcome hn hk hsize hp
  have hin : paddedBatch * opts.inputElems ≤ opts.maxBatch * opts.inputElems :=
    Nat.mul_le_mul_right _ hp
  have haddr := (hk.addressable rfl).1
  rw [value_eq_some]
  refine ⟨t, ?_⟩
  unfold boundRows
  rw [outcome_bind_ok ht, outcome_bind_ok (outcome_get t), hkt.options,
    sizeMul_of_lt (by omega), hrows]
  rfl

/-- Equal rows give equal answers on both paths. A session whose output has another shape can
only make the bound path throw. -/
theorem runBound_eq_runHost (hn : opts.normalizeOnDevice = false) (hk : Kept opts true buf e)
    {input : FloatVec F} {batchSize paddedBatch : Nat}
    (hsize : input.size = batchSize * opts.inputElems) (hb : batchSize ≤ paddedBatch)
    (hp : paddedBatch ≤ opts.maxBatch)
    (hrows : (overwrite buf input.toList).take (paddedBatch * opts.inputElems) =
      input.toList ++ List.replicate (paddedBatch * opts.inputElems - input.size) 0)
    (session : Session F) :
    (∀ v, (runBound session {} input batchSize paddedBatch).value e = some v →
      (runHost session {} input batchSize paddedBatch).value e = some v) ∧
    (session.Conforms opts.outputElems →
      (runBound session {} input batchSize paddedBatch).value e =
        (runHost session {} input batchSize paddedBatch).value e) := by
  obtain ⟨hiaddr, hoaddr, hin, hout, hrow⟩ := hk.extents hb hp
  have hforward : ∀ v, (runBound session {} input batchSize paddedBatch).value e = some v →
      (runHost session {} input batchSize paddedBatch).value e = some v := by
    intro v hv
    obtain ⟨_, -, hans⟩ := (runBound_spec hn session {} hsize hb hp).of_value hk hv
    rw [hrows] at hans
    exact runHost_value hk.options hsize hb (by omega) (by omega) hans
  refine ⟨hforward, ?_⟩
  intro hconf
  apply Option.ext
  intro v
  refine ⟨hforward v, ?_⟩
  intro hv
  have hmul : batchSize * opts.inputElems ≤ paddedBatch * opts.inputElems :=
    Nat.mul_le_mul_right _ hb
  obtain ⟨_, -, hans⟩ := (runHost_spec session {} (by rw [sizeMul_of_lt (by omega)]; exact hsize)
    ⟨hb, fun _ ↦ ⟨by omega, by omega⟩⟩).of_value hk hv
  obtain ⟨t, o, rest, hshape, hdata, hfit, hs, -, hvec⟩ := hans
  rw [sizeMul_of_lt (by omega)] at hdata hfit hvec
  rw [← hrows] at hdata
  obtain ⟨o', rest', hcons, hoshape⟩ := hconf t paddedBatch _ hshape hs
  cases hcons
  exact runBound_value hn hk hsize hb hp hshape hdata hfit hs hoshape hvec

/-- A stale element in the padding reaches a session that reads it, and only on the bound
path. The tensor is the whole of the rows when an image has `3 * 224 * 224` elements. -/
theorem eq_zero_of_agree (hn : opts.normalizeOnDevice = false) (hk : Kept opts true buf e)
    {input : FloatVec F} {batchSize paddedBatch : Nat}
    (hie : opts.inputElems = 3 * 224 * 224) (hoe : 1 ≤ opts.outputElems) (hone : 1 ≤ batchSize)
    (hsize : input.size = batchSize * opts.inputElems) (hb : batchSize ≤ paddedBatch)
    (hp : paddedBatch ≤ opts.maxBatch) {p : Nat} {x : F}
    (hlow : batchSize * opts.inputElems ≤ p) (hhigh : p < paddedBatch * opts.inputElems)
    (hx : buf[p]? = some x)
    (hagree : (runBound (.readAt opts.outputElems p) {} input batchSize paddedBatch).value e =
      (runHost (.readAt opts.outputElems p) {} input batchSize paddedBatch).value e) :
    x = 0 := by
  obtain ⟨hblen, -⟩ := hk.sizes rfl
  obtain ⟨hiaddr, hoaddr, hin, hout, hrow⟩ := hk.extents hb hp
  have hpos : 0 < batchSize * opts.outputElems := Nat.mul_pos hone hoe
  have hprod : (inputShape paddedBatch).prod = paddedBatch * opts.inputElems := by
    rw [hie]
    simp [inputShape]
  have hlen : input.toList.length = batchSize * opts.inputElems := hsize
  -- what the session answers for rows that hold `y` at `p`
  have hanswer : ∀ (rows : List F) (y : F), rows.length = paddedBatch * opts.inputElems →
      rows[p]? = some y → ∃ t o : Tensor F, t.shape = inputShape paddedBatch ∧
        t.data = rows ∧ (Session.readAt opts.outputElems p).run t = .ok [.tensor o] ∧
        o.shape = [paddedBatch, opts.outputElems] ∧
        o.data = List.replicate (paddedBatch * opts.outputElems) y := by
    intro rows y hrows hy
    refine ⟨⟨inputShape paddedBatch, rows, by rw [hrows, hprod]⟩,
      ⟨[paddedBatch, opts.outputElems], _, by simp⟩, rfl, rfl, ?_, rfl, rfl⟩
    simp [Session.readAt, hy, inputShape]
  have hbound : (runBound (.readAt opts.outputElems p) {} input batchSize paddedBatch).value e =
      some ⟨List.replicate (batchSize * opts.outputElems) x, by
        rw [List.length_replicate]; omega⟩ := by
    obtain ⟨t, o, hshape, hdata, hs, hoshape, hodata⟩ :=
      hanswer ((overwrite buf input.toList).take (paddedBatch * opts.inputElems)) x
        (by rw [List.length_take, length_overwrite (by omega)]; omega)
        (by rw [List.getElem?_take_of_lt hhigh, getElem?_overwrite,
              List.getElem?_eq_none (by omega), Option.none_or, hx])
    refine runBound_value hn hk hsize hb hp hshape ?_ (Nat.le_of_eq hprod) hs hoshape ?_
    · rw [hdata, hprod, List.take_take, Nat.min_self]
    · rw [hodata, List.take_replicate, Nat.min_eq_left hrow]
  have hhost : (runHost (.readAt opts.outputElems p) {} input batchSize paddedBatch).value e =
      some ⟨List.replicate (batchSize * opts.outputElems) 0, by
        rw [List.length_replicate]; omega⟩ := by
    have hrlen : (input.toList ++
        List.replicate (paddedBatch * opts.inputElems - input.size) (0 : F)).length =
          paddedBatch * opts.inputElems := by
      rw [List.length_append, List.length_replicate, hsize]
      omega
    obtain ⟨t, o, hshape, hdata, hs, -, hodata⟩ := hanswer _ 0 hrlen
      (by rw [List.getElem?_append_right (by omega), List.getElem?_replicate, if_pos (by omega)])
    apply runHost_value hk.options hsize hb (by omega) (by omega)
    refine ⟨t, o, [], hshape, ?_, ?_, hs, ?_, ?_⟩
    · rw [hdata, hprod, List.take_of_length_le (Nat.le_of_eq hrlen)]
    · exact Nat.le_of_eq (by rw [hprod, sizeMul_of_lt (by omega)])
    · rw [hodata, List.length_replicate, sizeMul_of_lt (by omega)]
    · rw [hodata, List.take_replicate, sizeMul_of_lt (by omega), Nat.min_eq_left hrow]
  rw [hbound, hhost] at hagree
  have heq : List.replicate (batchSize * opts.outputElems) x =
      List.replicate (batchSize * opts.outputElems) 0 := by
    simpa using hagree
  exact (List.replicate_right_inj (by omega)).mp heq

/-! ### Whole histories -/

/-- The batches that earlier calls copied over the pinned input, oldest first. -/
def boundWrites (opts : OnnxOptions F) (cs : List (InferenceCall F)) : List (List F) :=
  (cs.filter (reachesBound opts)).map (·.batchedInput.toList)

/-- The pinned input after the calls `cs` on a new engine. -/
def pinned (opts : OnnxOptions F) (cs : List (InferenceCall F)) : List F :=
  (boundWrites opts cs).foldl overwrite (List.replicate (opts.maxBatch * opts.inputElems) 0)

/-- No padding position of the next batch holds a nonzero element of an earlier one: what was
last written there is zero, or nothing was. -/
def NoStalePadding (opts : OnnxOptions F) (cs : List (InferenceCall F)) (batchSize : Nat) : Prop :=
  ∀ p, batchSize * opts.inputElems ≤ p →
    p < bucketFor opts.batchBuckets batchSize * opts.inputElems →
    ∀ x, lastWrite (boundWrites opts cs) p = some x → x = 0

omit [FloatOps F] in
theorem boundWrites_snoc (cs : List (InferenceCall F)) (c : InferenceCall F) :
    boundWrites opts (cs ++ [c]) =
      boundWrites opts cs ++ if reachesBound opts c then [c.batchedInput.toList] else [] := by
  rw [boundWrites, List.filter_append, List.map_append, boundWrites]
  cases h : reachesBound opts c with
  | false => simp [h]
  | true => simp [h]

theorem pinned_snoc (cs : List (InferenceCall F)) (c : InferenceCall F) :
    pinned opts (cs ++ [c]) = pinnedAfter opts true (pinned opts cs) c := by
  rw [pinned, boundWrites_snoc, List.foldl_append, pinnedAfter, pinned]
  cases h : reachesBound opts c with
  | false => simp
  | true => simp

/-- After any calls the pinned input is what they wrote, newest on top. -/
theorem kept_exec (hn : opts.normalizeOnDevice = false) (hf : Fits opts) {session : Session F}
    {e₀ e : OnnxEngine F} (hb : Built opts true e₀) {cs : List (InferenceCall F)}
    (hr : exec (call session) e₀ cs = some e) : Kept opts true (pinned opts cs) e := by
  refine exec_induction (P := fun cs e ↦ Kept opts true (pinned opts cs) e) ?_ ?_ hr
  · obtain ⟨buf, hk, hz⟩ := hb
    rw [hz rfl] at hk
    exact hk
  · intro cs e c t _ hk ht
    rw [pinned_snoc]
    exact kept_call hn hf hk ht

/-- An element of the pinned input is what was last written there, or the zero of the
construction. -/
theorem getElem?_pinned (cs : List (InferenceCall F)) {p : Nat}
    (hp : p < opts.maxBatch * opts.inputElems) :
    (pinned opts cs)[p]? = some ((lastWrite (boundWrites opts cs) p).getD 0) := by
  rw [pinned, getElem?_foldl_overwrite, List.getElem?_replicate, if_pos hp]
  cases lastWrite (boundWrites opts cs) p with
  | none => rfl
  | some x => rfl

/-- The staged rows are the batch over zeros exactly when no padding is stale. -/
theorem rows_eq_iff {cs : List (InferenceCall F)} {input : FloatVec F} {batchSize : Nat}
    (hsize : input.size = batchSize * opts.inputElems)
    (hp : bucketFor opts.batchBuckets batchSize ≤ opts.maxBatch) :
    (overwrite (pinned opts cs) input.toList).take
        (bucketFor opts.batchBuckets batchSize * opts.inputElems) =
      input.toList ++ List.replicate
        (bucketFor opts.batchBuckets batchSize * opts.inputElems - input.size) 0 ↔
    NoStalePadding opts cs batchSize := by
  have hb := le_bucketFor opts.batchBuckets batchSize
  have hin : bucketFor opts.batchBuckets batchSize * opts.inputElems ≤
      opts.maxBatch * opts.inputElems := Nat.mul_le_mul_right _ hp
  have hmul : batchSize * opts.inputElems ≤
      bucketFor opts.batchBuckets batchSize * opts.inputElems := Nat.mul_le_mul_right _ hb
  have hlen : input.toList.length = batchSize * opts.inputElems := hsize
  rw [overwrite, List.take_append, List.take_of_length_le (by omega), List.append_cancel_left_eq,
    hsize, hlen, take_drop_eq_replicate_iff]
  unfold NoStalePadding
  constructor
  · intro h p hlow hhigh x hx
    have hget := h p hlow (by omega)
    rw [getElem?_pinned cs (by omega), hx] at hget
    simpa using hget
  · intro h p hlow hhigh
    rw [getElem?_pinned cs (by omega)]
    cases hw : lastWrite (boundWrites opts cs) p with
    | none => rfl
    | some x => rw [h p hlow (by omega) x hw]; rfl

/-- After any history of calls on a new engine, the bound path stages the rows the host path
would present exactly when no padding is stale. Then both return the same vector for every
session; and when a session reads whole images, only then. -/
theorem boundPath_agrees_iff (hn : opts.normalizeOnDevice = false) (hf : Fits opts)
    {session : Session F} {p : Platform F} {e₀ : OnnxEngine F}
    (hc : Constructed session p opts e₀) {cs : List (InferenceCall F)}
    (hr : exec (call session) e₀ cs = some e) (hactive : e.ioBindingActive = true)
    {back : Nat} (hl : opts.batchBuckets.getLast? = some back) {input : FloatVec F}
    {batchSize : Nat} (hone : 1 ≤ batchSize) (hback : batchSize ≤ back)
    (hsize : input.size = batchSize * opts.inputElems) :
    ((boundRows input (bucketFor opts.batchBuckets batchSize)).value e =
        (hostInputData opts.inputElems input batchSize
          (bucketFor opts.batchBuckets batchSize)).value e ↔
      NoStalePadding opts cs batchSize) ∧
    (NoStalePadding opts cs batchSize → ∀ s : Session F,
      (∀ v, (runBound s {} input batchSize (bucketFor opts.batchBuckets batchSize)).value e =
          some v →
        (runHost s {} input batchSize (bucketFor opts.batchBuckets batchSize)).value e =
          some v) ∧
      (s.Conforms opts.outputElems →
        (runBound s {} input batchSize (bucketFor opts.batchBuckets batchSize)).value e =
          (runHost s {} input batchSize (bucketFor opts.batchBuckets batchSize)).value e)) ∧
    (opts.inputElems = 3 * 224 * 224 → 1 ≤ opts.outputElems →
      (∀ s : Session F, s.Conforms opts.outputElems →
        (runBound s {} input batchSize (bucketFor opts.batchBuckets batchSize)).value e =
          (runHost s {} input batchSize (bucketFor opts.batchBuckets batchSize)).value e) →
      NoStalePadding opts cs batchSize) := by
  obtain ⟨active, hbuilt⟩ := hc.built hn hf
  obtain ⟨buf, hkept⟩ := exists_kept_exec hn hf hbuilt hr
  rw [hkept.ioBindingActive] at hactive
  subst hactive
  have hk := kept_exec hn hf hbuilt hr
  have hp := le_maxBatch (fits_of_le hf.ascending hl hback)
  have hb := le_bucketFor opts.batchBuckets batchSize
  have hin : bucketFor opts.batchBuckets batchSize * opts.inputElems ≤
      opts.maxBatch * opts.inputElems := Nat.mul_le_mul_right _ hp
  have hle : input.size ≤ bucketFor opts.batchBuckets batchSize * opts.inputElems := by
    rw [hsize]
    exact Nat.mul_le_mul_right _ hb
  have haddr := (hk.addressable rfl).1
  refine ⟨?_, ?_, ?_⟩
  · rw [boundRows_value hn hk hle hp, hostInputData_value hsize hb (by omega) e,
      Option.some.injEq]
    exact rows_eq_iff hsize hp
  · intro hstale s
    exact runBound_eq_runHost hn hk hsize hb hp ((rows_eq_iff hsize hp).mpr hstale) s
  · intro hie hoe hagree q hlow hhigh x hx
    refine eq_zero_of_agree hn hk hie hoe hone hsize hb hp hlow hhigh ?_
      (hagree _ (Session.readAt_conforms _ q))
    rw [getElem?_pinned cs (by omega), hx]
    rfl

/-! ### A full batch, then half of one -/

/-- One bucket of two images and one output for each. -/
def pairOptions : OnnxOptions Int where
  modelPath := "model.onnx"
  batchBuckets := [2]
  outputElems := 1
  mean := []
  stddev := []

/-- A batch of `n` images of ones. -/
def ones (n : Nat) (h : n ≤ 2) : FloatVec Int :=
  ⟨List.replicate (n * (3 * 224 * 224)) 1, by rw [List.length_replicate]; omega⟩

/-- A call for `n` images of ones. -/
def onesCall (n : Nat) (h : n ≤ 2) : InferenceCall Int := ⟨ones n h, n, 3 * 224 * 224, 1, {}⟩

private theorem pair_fits : Fits pairOptions :=
  ⟨by simp [pairOptions], by decide, by decide⟩

private theorem size_ones (n : Nat) (h : n ≤ 2) : (ones n h).size = n * pairOptions.inputElems :=
  List.length_replicate

/-- A new engine after one call for `n` images of ones. -/
private theorem pair_runs (session : Session Int) (n : Nat) (h : n ≤ 2) :
    ∃ e₀ e, Constructed session soundPlatform pairOptions e₀ ∧
      exec (call session) e₀ [onesCall n h] = some e ∧
      Kept pairOptions true (pinned pairOptions [onesCall n h]) e := by
  obtain ⟨e₀, hc, hbuilt⟩ := exists_constructed rfl pair_fits session soundPlatform_sound
    ⟨by decide, by decide⟩ (by decide)
  obtain ⟨buf, hk₀, hz⟩ := hbuilt
  obtain ⟨e, hr⟩ := exists_exec rfl pair_fits session hk₀ [onesCall n h]
  exact ⟨e₀, e, hc, hr, kept_exec rfl pair_fits ⟨buf, hk₀, hz⟩ hr⟩

/-- The call wrote a one to every position of its rows and to no other. -/
private theorem pair_lastWrite {n : Nat} (h : n ≤ 2) (hn : 1 ≤ n) (q : Nat) :
    lastWrite (boundWrites pairOptions [onesCall n h]) q =
      if q < n * pairOptions.inputElems then some 1 else none := by
  have hlt : n * (3 * 224 * 224) < 2 ^ 64 := by omega
  have hreach : reachesBound pairOptions (onesCall n h) = true := by
    rw [reachesBound_iff]
    refine ⟨(size_ones n h).trans (sizeMul_of_lt hlt).symm, ?_, ⟨rfl, rfl⟩,
      fits_of_le pair_fits.ascending rfl h⟩
    exact Nat.ne_of_gt hn
  have hwrites : boundWrites pairOptions [onesCall n h] = [(ones n h).toList] := by
    rw [boundWrites, List.filter_cons_of_pos hreach]
    rfl
  rw [hwrites, lastWrite, List.foldl_cons, List.foldl_nil, Option.or_none, ones,
    List.getElem?_replicate]
  rfl

/-- After two images of ones a single image is padded with ones: the staged rows differ from
the host path's, and so do the answers of a session that reads the second row. -/
theorem stale_padding_reaches_session :
    ∃ e₀ e, Constructed (.readAt 1 (3 * 224 * 224)) soundPlatform pairOptions e₀ ∧
      exec (call (.readAt 1 (3 * 224 * 224))) e₀ [onesCall 2 (by decide)] = some e ∧
      e.ioBindingActive = true ∧
      (boundRows (ones 1 (by decide)) (bucketFor pairOptions.batchBuckets 1)).value e ≠
        (hostInputData pairOptions.inputElems (ones 1 (by decide)) 1
          (bucketFor pairOptions.batchBuckets 1)).value e ∧
      (runBound (.readAt 1 (3 * 224 * 224)) {} (ones 1 (by decide)) 1
          (bucketFor pairOptions.batchBuckets 1)).value e ≠
        (runHost (.readAt 1 (3 * 224 * 224)) {} (ones 1 (by decide)) 1
          (bucketFor pairOptions.batchBuckets 1)).value e := by
  obtain ⟨e₀, e, hc, hr, hk⟩ := pair_runs (.readAt 1 (3 * 224 * 224)) 2 (by decide)
  have hsize := size_ones 1 (by decide)
  have hstale : lastWrite (boundWrites pairOptions [onesCall 2 (by decide)]) (3 * 224 * 224) =
      some 1 := by
    rw [pair_lastWrite (by decide) (by decide), if_pos (by decide)]
  refine ⟨e₀, e, hc, hr, hk.ioBindingActive, ?_, ?_⟩
  · rw [boundRows_value rfl hk (by rw [hsize]; decide) (by decide),
      hostInputData_value hsize (by decide) (by decide) e, ne_eq, Option.some.injEq,
      rows_eq_iff hsize (by decide)]
    intro h
    exact absurd (h (3 * 224 * 224) (by decide) (by decide) 1 hstale) (by decide)
  · intro heq
    have hx : (pinned pairOptions [onesCall 2 (by decide)])[3 * 224 * 224]? = some 1 := by
      rw [getElem?_pinned _ (by decide), hstale]
      rfl
    exact absurd (eq_zero_of_agree rfl hk rfl (by decide) (by decide) hsize (by decide)
      (by decide) (by decide) (by decide) hx heq) (by decide)

/-- After a single image of ones the second row is still zero, so the next one is padded as
on the host path. -/
theorem boundPath_agrees_single :
    ∃ e₀ e, Constructed (.readAt 1 0) soundPlatform pairOptions e₀ ∧
      exec (call (.readAt 1 0)) e₀ [onesCall 1 (by decide)] = some e ∧
      (boundRows (ones 1 (by decide)) (bucketFor pairOptions.batchBuckets 1)).value e =
        (hostInputData pairOptions.inputElems (ones 1 (by decide)) 1
          (bucketFor pairOptions.batchBuckets 1)).value e := by
  obtain ⟨e₀, e, hc, hr, hk⟩ := pair_runs (.readAt 1 0) 1 (by decide)
  have hiff := (boundPath_agrees_iff rfl pair_fits hc hr hk.ioBindingActive rfl (Nat.le_refl 1)
    (by decide) (size_ones 1 (by decide))).1
  refine ⟨e₀, e, hc, hr, hiff.mpr ?_⟩
  intro q hlow _ x hx
  rw [pair_lastWrite (by decide) (by decide), if_neg (Nat.not_lt.mpr hlow)] at hx
  cases hx

end OnnxEngine
end InferenceServer.Engine
