import InferenceServer.Base.Act
import InferenceServer.Engine.Interface

/-!
# Normalization on the device

Library `Engine`. `cpp/src/kernels/normalize.cu:8–79`: a grid-stride kernel over an NCHW
tensor and the host code that checks its arguments and launches it. Threads are run one
after the other; a null pointer is an empty buffer.
-/

namespace InferenceServer.Engine

open InferenceServer.Base

variable {F σ : Type} [FloatOps F]

/-- Throws with the driver's message when a CUDA call failed, `cuda_error.hpp:24–28`. -/
def cudaCheck (status : Option String) (what : String) : Act CppException σ Unit :=
  match status with
  | none => pure ()
  | some message => throw (.cudaError (what ++ ": " ++ message))

/-- Only a failed call throws. -/
theorem cudaCheck_spec {P : σ → Prop} {E : CppException → σ → Prop} (status : Option String)
    (what : String) (h : ∀ ex s, status ≠ none → P s → E ex s) :
    Act.Spec P (cudaCheck status what) (fun _ ↦ P) E := by
  cases status with
  | none => exact Act.Spec.pure fun _ hs ↦ hs
  | some message => exact Act.Spec.throw fun s hs ↦ h _ s (by simp) hs

/-- `static_cast<int>` of a `std::size_t`. -/
def toInt32 (n : Nat) : Int := (BitVec.ofNat 32 n).toInt

/-- One iteration of the kernel's loop, `normalize.cu:30–31`. -/
def normalizeAt (c hw : Nat) (mean stddev : List F) (idx : Nat) (data : List F) : List F :=
  match mean[idx / hw % c]?, stddev[idx / hw % c]? with
  | some m, some d => data.modify idx fun x ↦ (x - m) / d
  | _, _ => data

/-- The loop of one thread, `normalize.cu:27–33`; `fuel` bounds its iterations. -/
def normalizeThread (total stride c hw : Nat) (mean stddev : List F) :
    Nat → Nat → List F → List F
  | 0, _, data => data
  | fuel + 1, idx, data =>
    if idx < total then
      normalizeThread total stride c hw mean stddev fuel (idx + stride)
        (normalizeAt c hw mean stddev idx data)
    else data

/-- `normalize_kernel` over `blocks` blocks of `kBlockSize` threads. -/
def normalizeKernel (blocks total c hw : Nat) (mean stddev data : List F) : List F :=
  (List.range (blocks * 256)).foldl (fun data idx ↦
    normalizeThread total (256 * blocks) c hw mean stddev total idx data) data

/-- `launch_normalize`, `normalize.cu:56–79`; `launch` is what `cudaGetLastError` reports. A
product beyond `long long`, or an element outside the buffer, is undefined. -/
def launchNormalize (data : List F) (n c hw : Int) (mean stddev : List F)
    (launch : Option String) : Act CppException σ (List F) :=
  if n < 0 ∨ c < 0 ∨ hw < 0 then
    throw (.cudaError "launch_normalize: dimensions must be non-negative")
  else if n = 0 then pure data
  else if c = 0 ∨ hw = 0 then
    throw (.cudaError "launch_normalize: c and hw must be non-zero for a non-empty batch")
  else if data.isEmpty || mean.isEmpty || stddev.isEmpty then
    throw (.cudaError "launch_normalize: null device pointer")
  else
    let total := n.toNat * c.toNat * hw.toNat
    let needed := (total + 256 - 1) / 256
    let blocks := min needed 1024
    if 2 ^ 63 ≤ total ∨ data.length < total then .undefined
    else do
      cudaCheck launch "normalize_kernel launch"
      pure (normalizeKernel blocks total c.toNat hw.toNat mean stddev data)

end InferenceServer.Engine
