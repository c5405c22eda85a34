import InferenceServer.Engine.OnnxConstruct
import InferenceServer.Engine.OnnxSuccess

/-!
# A row-wise model behind the engine

Library `Engine`. `cpp/src/engine/onnx_execution_engine.cpp:272–467`. When the session maps
each image to its own output row, what a successful call returns depends on the batch alone:
not on the bucket, the path, the padding or the calls before. The tensor shape is fixed at
`3 * 224 * 224` elements an image, so rows longer than that are read out of step.
-/

namespace InferenceServer.Engine

open InferenceServer.Base InferenceServer.Base.Act

variable {F : Type}

/-- Elements of one image in the shape every input tensor gets. -/
abbrev imageElems : Nat := 3 * 224 * 224

/-- Output row `i` is `f` of input row `i`, `m` elements long, for every batch. -/
structure Session.RowWise (session : Session F) (f : List F → List F) (m : Nat) : Prop where
  length : ∀ r : List F, r.length = imageElems → (f r).length = m
  rows : ∀ t n outputs, t.shape = inputShape n → session.run t = .ok outputs →
    ∃ output rest, outputs = .tensor output :: rest ∧
      output.data = mapRows f imageElems n t.data

/-- A model that returns the first element of each image. -/
def Session.heads : Session F where
  run t :=
    if h : (mapRows (·.take 1) imageElems (t.shape.headD 0) t.data).length = t.shape.headD 0 then
      .ok [.tensor ⟨[t.shape.headD 0, 1], mapRows (·.take 1) imageElems (t.shape.headD 0) t.data,
        by rw [h]; simp⟩]
    else .error "short input"

theorem Session.heads_rowWise : (Session.heads : Session F).RowWise (·.take 1) 1 where
  length r hr := by
    rw [List.length_take, hr]
    rfl
  rows t n outputs hshape hs := by
    have hn : t.shape.headD 0 = n := by
      rw [hshape]
      rfl
    subst hn
    unfold Session.heads at hs
    dsimp only at hs
    split at hs
    · cases hs
      exact ⟨_, [], rfl, rfl⟩
    · cases hs

theorem prod_inputShape (n : Nat) : (inputShape n).prod = n * imageElems := by
  simp [inputShape]

/-- The rows of a tensor of images are full. -/
theorem length_row_tensor {t : Tensor F} {n i : Nat} (ht : t.shape = inputShape n) (hi : i < n) :
    (row imageElems t.data i).length = imageElems := by
  apply length_row _ hi
  exact Nat.le_of_eq (by rw [t.size_eq, ht, prod_inputShape])

namespace OnnxEngine

variable {opts : OnnxOptions F} {active : Bool} {buf : List F} {e : OnnxEngine F}

/-- What a row-wise session makes of rows that begin with the batch. -/
theorem Answers.rowWise {session : Session F} {f : List F → List F} {m : Nat}
    (hs : session.RowWise f m) (hie : opts.inputElems ≤ imageElems) {rows : List F}
    {input : FloatVec F} {batchSize paddedBatch : Nat} {v : FloatVec F}
    (hv : Answers session opts rows batchSize paddedBatch v) (hone : 1 ≤ batchSize)
    (hb : batchSize ≤ paddedBatch) (hpre : input.toList <+: rows)
    (hsize : input.size = batchSize * opts.inputElems)
    (hin : paddedBatch * opts.inputElems < 2 ^ 64)
    (hout : paddedBatch * opts.outputElems < 2 ^ 64) :
    v.size = batchSize * opts.outputElems ∧
      ∀ i < batchSize,
        row opts.outputElems v.toList i = f (row opts.inputElems input.toList i) := by
  obtain ⟨t, o, rest, hshape, hdata, hfit, hsess, hlen, hvec⟩ := hv
  have hmul : batchSize * opts.outputElems ≤ paddedBatch * opts.outputElems :=
    Nat.mul_le_mul_right _ hb
  rw [sizeMul_of_lt hin, prod_inputShape] at hfit
  rw [sizeMul_of_lt hout] at hlen
  rw [sizeMul_of_lt (by omega)] at hvec
  -- a tensor was made, so the rows are no shorter than an image
  have heq : opts.inputElems = imageElems :=
    Nat.le_antisymm hie (Nat.le_of_mul_le_mul_left hfit (by omega))
  obtain ⟨o', rest', hcons, hodata⟩ := hs.rows t paddedBatch _ hshape hsess
  cases hcons
  have hrowlen : ∀ i < paddedBatch, (f (row imageElems t.data i)).length = m :=
    fun i hi ↦ hs.length _ (length_row_tensor hshape hi)
  have hm : m = opts.outputElems := by
    rw [hodata, length_mapRows hrowlen] at hlen
    exact Nat.eq_of_mul_eq_mul_left (by omega) hlen
  subst hm
  constructor
  · rw [FloatVec.size, hvec, List.length_take, hlen, Nat.min_eq_left hmul]
  · intro i hi
    obtain ⟨tail, rfl⟩ := hpre
    rw [hvec, row_take hi, hodata, row_mapRows hrowlen (by omega), hdata, prod_inputShape,
      row_take (by omega), ← heq, row_append (Nat.le_of_eq hsize.symm) hi]

variable [FloatOps F]

/-- What a successful call returns for a row-wise session, from any engine between calls. -/
theorem runInference_rowWise (hn : opts.normalizeOnDevice = false) (hf : Fits opts)
    (hie : opts.inputElems ≤ imageElems) {session : Session F} {f : List F → List F} {m : Nat}
    (hs : session.RowWise f m) (hk : Kept opts active buf e) (c : InferenceCall F)
    (hin : c.batchSize * c.inputElems < 2 ^ 64) (hout : c.batchSize * c.outputElems < 2 ^ 64)
    {v : FloatVec F}
    (hv : (runInference session c.env c.batchedInput c.batchSize c.inputElems
      c.outputElems).value e = some v) :
    v.size = c.batchSize * c.outputElems ∧ ∀ i < c.batchSize,
      row c.outputElems v.toList i = f (row c.inputElems c.batchedInput.toList i) := by
  obtain ⟨_, -, hpost⟩ := (runInference_spec hn hf session c).of_value hk hv
  rcases hpost with ⟨hzero, rfl⟩ | ⟨hzero, hsize, hi, ho, rows, hpre, hans⟩
  · rw [hzero]
    refine ⟨?_, fun i hi ↦ absurd hi (Nat.not_lt_zero i)⟩
    rw [Nat.zero_mul]
    rfl
  · rw [hi] at hin ⊢
    rw [ho] at hout ⊢
    rw [sizeMul_of_lt hin] at hsize
    obtain ⟨hb, hlt⟩ := hf.padFits c.batchSize
    have hpad : bucketFor opts.batchBuckets c.batchSize * opts.inputElems < 2 ^ 64 ∧
        bucketFor opts.batchBuckets c.batchSize * opts.outputElems < 2 ^ 64 := by
      by_cases heq : bucketFor opts.batchBuckets c.batchSize = c.batchSize
      · rw [heq]
        exact ⟨hin, hout⟩
      · exact hlt heq
    exact hans.rowWise hs hie (Nat.pos_of_ne_zero hzero) hb hpre hsize hpad.1 hpad.2

/-- Without buckets the host path gives the model the front of the batch. -/
theorem runInference_heads (hk : Kept opts false buf e) (hbuckets : opts.batchBuckets = [])
    (hoe : opts.outputElems = 1) (hie : imageElems ≤ opts.inputElems) {input : FloatVec F}
    {batchSize : Nat} (hone : 1 ≤ batchSize) (hsize : input.size = batchSize * opts.inputElems) :
    ∃ v, (runInference .heads {} input batchSize opts.inputElems opts.outputElems).value e =
        some v ∧
      v.toList = mapRows (·.take 1) imageElems batchSize
        (input.toList.take (batchSize * imageElems)) := by
  have hlt := input.size_lt
  have hmul : batchSize * imageElems ≤ batchSize * opts.inputElems := Nat.mul_le_mul_left _ hie
  have hpos : batchSize * 1 ≤ batchSize * imageElems := Nat.mul_le_mul_left _ (by decide)
  have hlen : input.toList.length = batchSize * opts.inputElems := hsize
  have hdata : (input.toList.take (batchSize * imageElems)).length = batchSize * imageElems := by
    rw [List.length_take, hlen, Nat.min_eq_left hmul]
  have hrows : ∀ i < batchSize,
      ((row imageElems (input.toList.take (batchSize * imageElems)) i).take 1).length = 1 :=
    fun i hi ↦ Session.heads_rowWise.length _ (length_row (Nat.le_of_eq hdata.symm) hi)
  have hout := length_mapRows hrows
  refine ⟨⟨mapRows (·.take 1) imageElems batchSize (input.toList.take (batchSize * imageElems)),
    by rw [hout]; omega⟩, ?_, rfl⟩
  apply runInference_value_host hk hone hsize
  have hbucket : bucketFor [] batchSize = batchSize := rfl
  rw [hbuckets, hbucket]
  apply runHost_value hk.options hsize (Nat.le_refl _) (by omega) (by rw [hoe]; omega)
  refine ⟨⟨inputShape batchSize, input.toList.take (batchSize * imageElems),
    by rw [hdata, prod_inputShape]⟩, ⟨[batchSize, 1], _, by rw [hout]; simp⟩, [], rfl, ?_, ?_, ?_,
    ?_, ?_⟩
  · change input.toList.take (batchSize * imageElems) = _
    rw [prod_inputShape, List.take_append_of_le_length (by omega)]
  · rw [prod_inputShape, sizeMul_of_lt (by omega)]
    exact hmul
  · exact dif_pos (hout.trans (Nat.mul_one _))
  · rw [hoe, sizeMul_of_lt (by omega)]
    exact hout
  · rw [hoe, sizeMul_of_lt (by omega), List.take_of_length_le (Nat.le_of_eq hout)]

/-- A batch that fits a bucket goes through the bound path, whatever earlier calls left in the
pinned input. -/
theorem runInference_heads_bound (hn : opts.normalizeOnDevice = false) (hk : Kept opts true buf e)
    (hasc : opts.batchBuckets.Pairwise (· ≤ ·)) {back : Nat}
    (hback : opts.batchBuckets.getLast? = some back) (hoe : opts.outputElems = 1)
    (hie : opts.inputElems = imageElems) {input : FloatVec F} {batchSize : Nat}
    (hone : 1 ≤ batchSize) (hle : batchSize ≤ back)
    (hsize : input.size = batchSize * opts.inputElems) :
    ∃ v, (runInference .heads {} input batchSize opts.inputElems opts.outputElems).value e =
      some v := by
  have hfits := fits_of_le hasc hback hle
  have hmax := le_maxBatch hfits
  have hb := le_bucketFor opts.batchBuckets batchSize
  set paddedBatch := bucketFor opts.batchBuckets batchSize with hpadded
  have hin : paddedBatch * opts.inputElems ≤ opts.maxBatch * opts.inputElems :=
    Nat.mul_le_mul_right _ hmax
  have hrows : batchSize * opts.inputElems ≤ paddedBatch * opts.inputElems :=
    Nat.mul_le_mul_right _ hb
  have hbuf := (hk.sizes rfl).1
  obtain ⟨-, hout⟩ := hk.addressable rfl
  rw [hoe, Nat.mul_one] at hout
  have hlen : input.toList.length = batchSize * opts.inputElems := hsize
  have hprod : (inputShape paddedBatch).prod = paddedBatch * opts.inputElems := by
    rw [prod_inputShape, hie]
  set data := ((overwrite buf input.toList).take (paddedBatch * opts.inputElems)).take
    (inputShape paddedBatch).prod with hdata
  have hdlen : data.length = paddedBatch * imageElems := by
    rw [hdata, hprod, List.length_take, List.length_take, length_overwrite (by omega), hbuf, ← hie]
    omega
  have hheads : ∀ i < paddedBatch, ((row imageElems data i).take 1).length = 1 :=
    fun i hi ↦ Session.heads_rowWise.length _ (length_row (Nat.le_of_eq hdlen.symm) hi)
  have holen := length_mapRows hheads
  rw [Nat.mul_one] at holen
  refine ⟨⟨(mapRows (·.take 1) imageElems paddedBatch data).take batchSize, ?_⟩, ?_⟩
  · rw [List.length_take]
    omega
  · apply runInference_value_bound hk hone hsize hfits
    let t : Tensor F := ⟨inputShape paddedBatch, data, by rw [hdlen, prod_inputShape]⟩
    let o : Tensor F := ⟨[paddedBatch, 1], mapRows (·.take 1) imageElems paddedBatch data,
      by rw [holen]; simp⟩
    have hs : Session.heads.run t = .ok [.tensor o] := dif_pos holen
    refine runBound_value hn hk hsize hb hmax rfl rfl (Nat.le_of_eq hprod) hs ?_ ?_
    · rw [hoe]
    · rw [hoe, Nat.mul_one]

/-- Rows of one element more than an image, on the host path and without buckets. -/
def wideOptions : OnnxOptions Int where
  modelPath := "model.onnx"
  batchBuckets := []
  inputElems := imageElems + 1
  outputElems := 1
  useIoBinding := false
  mean := []
  stddev := []

/-- Two rows of zeros, except that the first ends in a five. -/
def widePair : FloatVec Int :=
  ⟨(List.replicate imageElems 0 ++ [5]) ++ List.replicate (imageElems + 1) 0, by
    rw [List.length_append, List.length_append, List.length_replicate, List.length_replicate]
    decide⟩

private theorem widePair_second :
    (row imageElems widePair.toList 1).take 1 = [5] ∧
      (row wideOptions.inputElems widePair.toList 1).take 1 = [0] := by
  constructor
  · have hlist : widePair.toList =
        List.replicate imageElems 0 ++ ([5] ++ List.replicate (imageElems + 1) 0) :=
      List.append_assoc _ _ _
    have hdrop : widePair.toList.drop (1 * imageElems) =
        5 :: List.replicate (imageElems + 1) 0 := by
      rw [hlist, List.drop_left' (by rw [List.length_replicate, Nat.one_mul])]
      rfl
    rw [row, hdrop, List.take_take]
    rfl
  · have hdrop : widePair.toList.drop (1 * wideOptions.inputElems) =
        0 :: List.replicate imageElems 0 := by
      rw [widePair, List.drop_left' (by
        rw [List.length_append, List.length_replicate, Nat.one_mul]
        rfl)]
      rfl
    rw [row, hdrop, List.take_take]
    rfl

/-- With rows longer than an image the second answer is the last element of the first row, not
the first of the second. -/
theorem wide_rows_out_of_step :
    ∃ e v, Constructed .heads soundPlatform wideOptions e ∧
      (Session.heads : Session Int).RowWise (·.take 1) 1 ∧
      (runInference .heads {} widePair 2 wideOptions.inputElems wideOptions.outputElems).value e =
        some v ∧
      row wideOptions.outputElems v.toList 1 ≠
        (row wideOptions.inputElems widePair.toList 1).take 1 := by
  have hfits : Fits wideOptions := ⟨by simp [wideOptions], by decide, by decide⟩
  obtain ⟨e, hc, buf, hk, -⟩ := exists_constructed rfl hfits .heads soundPlatform_sound
    ⟨by decide, by decide⟩ (by decide)
  have hsize : widePair.size = 2 * wideOptions.inputElems := by
    rw [FloatVec.size, widePair, List.length_append, List.length_append, List.length_replicate,
      List.length_replicate]
    rfl
  obtain ⟨v, hv, hrows⟩ := runInference_heads hk rfl rfl (by decide) (by decide) hsize
  refine ⟨e, v, hc, Session.heads_rowWise, hv, ?_⟩
  have hlen : ∀ i < 2,
      ((row imageElems (widePair.toList.take (2 * imageElems)) i).take 1).length = 1 := by
    intro i hi
    apply Session.heads_rowWise.length
    apply length_row _ hi
    rw [List.length_take, show widePair.toList.length = _ from hsize]
    decide
  change row 1 v.toList 1 ≠ _
  rw [hrows, row_mapRows hlen (by decide), row_take (by decide), widePair_second.1,
    widePair_second.2]
  decide

end OnnxEngine
end InferenceServer.Engine
