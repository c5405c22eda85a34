import InferenceServer.Base.NdArray
import InferenceServer.Engine.Kernel

/-!
# Image preprocessing

Library `Preprocessing`. `python/cuda_db/preprocessing/image_utils.py:24–81`, with element
arithmetic left open. The host normalizes an HWC image channel by channel and then transposes it;
the device normalizes a flat CHW tensor. Both are the same transformation.
-/

namespace InferenceServer.Preprocessing

open InferenceServer.Base InferenceServer.Engine

/-- What preprocessing computes with, besides `-` and `/`: literals and `astype(np.float32)`. -/
class PixelOps (F : Type) extends FloatOps F, OfScientific F where
  ofByte : UInt8 → F

variable {F : Type} [PixelOps F]

/-- `IMAGENET_MEAN` and `IMAGENET_STD`, `image_utils.py:24–25`. -/
def imagenetMean : List F := [0.485, 0.456, 0.406]
def imagenetStd : List F := [0.229, 0.224, 0.225]

/-- `TARGET_SIZE` and `CHANNELS`, `image_utils.py:27–28`. -/
abbrev targetSize : Nat := 224
abbrev channels : Nat := 3

/-- A shape as Python prints it. -/
def showShape : List Nat → String
  | [n] => "(" ++ toString n ++ ",)"
  | ns => "(" ++ ", ".intercalate (ns.map toString) ++ ")"

/-- `image_hwc.astype(np.float32) / 255.0`, `image_utils.py:74`. -/
def scaled (image : NdArray UInt8) : NdArray F := image.map fun b ↦ PixelOps.ofByte b / 255.0

/-- `image_utils.py:75`. -/
def normalized (image : NdArray UInt8) : NdArray F :=
  ((scaled image).broadcastLast (· - ·) (.ofList imagenetMean)).broadcastLast (· / ·)
    (.ofList imagenetStd)

/-- `np.transpose(.., (2, 0, 1))` of an array, flattened, `image_utils.py:80–81`. -/
def flatChw (a : NdArray F) : List F := (a.transpose [2, 0, 1]).ravel

/-- `to_model_input`, `image_utils.py:57–81`; an error is the text of the `ValueError`. -/
def toModelInput (image : NdArray UInt8) : Except String (List F) :=
  if image.shape.length ≠ 3 ∨ image.shape.getD 2 0 ≠ channels then
    .error ("expected an HWC image with " ++ toString channels ++ " channels, got shape " ++
      showShape image.shape)
  else if image.shape.getD 0 0 ≠ targetSize ∨ image.shape.getD 1 0 ≠ targetSize then
    .error ("expected a " ++ toString targetSize ++ "x" ++ toString targetSize ++
      " image, got " ++ toString (image.shape.getD 0 0) ++ "x" ++
      toString (image.shape.getD 1 0))
  else .ok (flatChw (normalized image))

/-! ### One transformation -/

omit [PixelOps F] in
/-- The flat CHW tensor lists its elements channel by channel. -/
theorem flatChw_eq {a : NdArray F} (h : a.shape = [targetSize, targetSize, channels]) :
    flatChw a = (NdArray.indices [channels, targetSize, targetSize]).map fun idx ↦
      a.get [idx.getD 1 0, idx.getD 2 0, idx.getD 0 0] := by
  obtain ⟨shape, get⟩ := a
  subst h
  rfl

theorem normalized_get (image : NdArray UInt8) (idx : List Nat) :
    (normalized image : NdArray F).get idx =
      ((scaled image : NdArray F).get idx - imagenetMean.getD (idx.getLastD 0) 0) /
        imagenetStd.getD (idx.getLastD 0) 0 := rfl

/-- What the kernel does to an element of channel `ch`. -/
theorem normalizedAt_of_channel {idx ch : Nat} (hch : ch < channels)
    (h : idx / (targetSize * targetSize) = ch) (x : F) :
    normalizedAt channels (targetSize * targetSize) imagenetMean imagenetStd idx x =
      (x - imagenetMean.getD ch 0) / imagenetStd.getD ch 0 := by
  have hmod : idx / (targetSize * targetSize) % channels = ch := by
    rw [h, Nat.mod_eq_of_lt hch]
  rw [normalizedAt, hmod]
  have hlt : ch < 3 := hch
  clear hmod h hch
  obtain rfl | rfl | rfl : ch = 0 ∨ ch = 1 ∨ ch = 2 := by omega
  · rfl
  · rfl
  · rfl

/-- The kernel on the flat tensor of a scaled image gives the flat tensor of the normalized one. -/
theorem normalizeKernel_flatChw {image : NdArray UInt8}
    (hshape : image.shape = [targetSize, targetSize, channels]) {blocks : Nat}
    (hblocks : 0 < blocks) :
    normalizeKernel blocks (1 * channels * (targetSize * targetSize)) channels
        (targetSize * targetSize) imagenetMean imagenetStd (flatChw (scaled image : NdArray F)) =
      flatChw (normalized image) := by
  apply List.ext_getElem?
  intro j
  rw [getElem?_normalizeKernel hblocks, flatChw_eq (F := F) (a := scaled image) hshape,
    flatChw_eq (F := F) (a := normalized image) hshape, List.getElem?_map, List.getElem?_map]
  by_cases hj : j < 1 * channels * (targetSize * targetSize)
  · -- the first axis of the index at `j` is the channel the kernel computes
    obtain ⟨rest, -, hidx⟩ := NdArray.exists_getElem?_indices
      (show j < channels * [targetSize, targetSize].prod from hj)
    have hprod : [targetSize, targetSize].prod = targetSize * targetSize := rfl
    have hch : j / (targetSize * targetSize) < channels := Nat.div_lt_of_lt_mul (by omega)
    rw [hprod] at hidx
    rw [if_pos hj, hidx, Option.map_some, Option.map_some, Option.map_some,
      normalizedAt_of_channel hch rfl, normalized_get]
    rfl
  · have hlen : (NdArray.indices [channels, targetSize, targetSize]).length ≤ j := by
      rw [NdArray.length_indices]
      exact Nat.le_of_not_lt hj
    rw [if_neg hj, List.getElem?_eq_none hlen]
    rfl

omit [PixelOps F] in
/-- Where pixel `(h, w)` of channel `ch` stands in the flat CHW tensor. -/
theorem getElem?_flatChw {a : NdArray F} (hshape : a.shape = [targetSize, targetSize, channels])
    {ch h w : Nat} (hch : ch < channels) (hh : h < targetSize) (hw : w < targetSize) :
    (flatChw a)[ch * (targetSize * targetSize) + (h * targetSize + w)]? =
      some (a.get [h, w, ch]) := by
  have hplane : (NdArray.indices [targetSize, targetSize])[h * targetSize + w]? =
      some [h, w] := by
    have hline : (NdArray.indices [targetSize])[w]? = some [w] := by
      have := NdArray.getElem?_indices hw (show 0 < [].prod by decide)
      simpa [NdArray.indices] using this
    have hrow := NdArray.getElem?_indices hh (show w < [targetSize].prod from hw)
    rw [hline] at hrow
    exact hrow
  have hlt : h * targetSize + w < targetSize * targetSize := by
    change h < 224 at hh
    change w < 224 at hw
    change h * 224 + w < 224 * 224
    omega
  have hidx := NdArray.getElem?_indices hch
    (show h * targetSize + w < [targetSize, targetSize].prod from hlt)
  rw [hplane] at hidx
  rw [flatChw_eq hshape, List.getElem?_map]
  exact congrArg (Option.map _) hidx

/-- On a 224×224×3 image `to_model_input` returns what `launch_normalize` makes of the flat CHW
tensor of `image / 255`, and the element of channel `ch` at `(h, w)` comes from that pixel:
normalizing on the device instead of the host changes no value. -/
theorem toModelInput_eq_launchNormalize {σ : Type} (get : List Nat → UInt8) :
    ∃ xs : List F,
      toModelInput ⟨[targetSize, targetSize, channels], get⟩ = .ok xs ∧
      (∀ s : σ, (launchNormalize
          (flatChw (scaled ⟨[targetSize, targetSize, channels], get⟩)) 1 (channels : Nat)
          ((targetSize * targetSize : Nat) : Int) imagenetMean imagenetStd none).outcome s =
        some (.ok xs, s)) ∧
      ∀ ch h w, ch < channels → h < targetSize → w < targetSize →
        xs[ch * (targetSize * targetSize) + h * targetSize + w]? =
          some ((PixelOps.ofByte (get [h, w, ch]) / 255.0 - imagenetMean.getD ch 0) /
            imagenetStd.getD ch 0) := by
  refine ⟨flatChw (normalized ⟨[targetSize, targetSize, channels], get⟩), rfl, ?_, ?_⟩
  · intro s
    have hlen : (flatChw (scaled ⟨[targetSize, targetSize, channels], get⟩ : NdArray F)).length =
        1 * channels * (targetSize * targetSize) := NdArray.length_ravel _
    have hplane : (0 : Int) < (targetSize * targetSize : Nat) := by decide
    have hlaunch := launchNormalize_outcome (F := F) (n := 1) (c := (channels : Nat))
      (by decide) (by decide) hplane (show imagenetMean ≠ [] from List.cons_ne_nil _ _)
      (show imagenetStd ≠ [] from List.cons_ne_nil _ _) (le_of_eq hlen.symm)
      (by rw [hlen]; decide) s
    have hkernel := normalizeKernel_flatChw (F := F)
      (show NdArray.shape ⟨[targetSize, targetSize, channels], get⟩ = _ from rfl)
      (show 0 < min ((1 * channels * (targetSize * targetSize) + 256 - 1) / 256) 1024 by decide)
    exact hlaunch.trans (congrArg (fun xs ↦ some (Except.ok xs, s)) hkernel)
  · intro ch h w hch hh hw
    rw [Nat.add_assoc, getElem?_flatChw rfl hch hh hw]
    rfl

end InferenceServer.Preprocessing
