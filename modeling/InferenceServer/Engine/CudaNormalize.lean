import InferenceServer.Engine.CudaInFlight
import InferenceServer.Engine.Launch
import InferenceServer.Engine.Extents
import InferenceServer.Memory.PoolInvariant

/-!
# The CUDA engine is the stub after normalization

Library `Engine`. Between calls that leave nothing in flight the engine's blocks are all in the
pool, so a call works on two blocks of its own. What comes back through the staging block is the
batch with every row normalized, and it is shaped as the stub shapes its input.
-/

namespace InferenceServer.Engine

open InferenceServer.Base InferenceServer.Base.Act InferenceServer.Memory

variable {F : Type}

namespace Contents

variable {m : Contents F} {p n k : Nat} {xs : List F}

@[simp] theorem length_read : (m.read p n).length = n := by
  rw [read, List.length_map, List.length_range]

theorem take_read (h : k ≤ n) : (m.read p n).take k = m.read p k := by
  rw [read, read, ← List.map_take, List.take_range, Nat.min_eq_left h]

/-- A block holds what was written to it. -/
theorem read_write (h : xs.length = n) : (m.write p xs).read p n = xs := by
  subst h
  apply List.ext_getElem
  · exact length_read
  · intro i hi hi'
    simp [read, write, hi']

end Contents

section Launch

variable [FloatOps F]

/-- The kernel changes the front of a block and leaves the rest. -/
theorem read_run_normalize (m : Contents F) (mean stddev : List F) {ptr blocks total c hw n : Nat}
    (hb : 0 < blocks) :
    ((StreamOp.normalize ptr blocks total c hw).run mean stddev m).read ptr n =
      normalizeKernel blocks total c hw mean stddev (m.read ptr n) := by
  apply List.ext_getElem?
  intro i
  rw [getElem?_normalizeKernel hb]
  by_cases hi : i < n
  · simp only [Contents.read, StreamOp.run, Contents.write, List.getElem?_map,
      List.getElem?_range hi, Option.map_some, if_true]
    rw [getElem?_normalizeKernel hb]
    by_cases hlt : i < total
    · simp [hlt]
    · simp [hlt]
  · have hnone (m : Contents F) : (m.read ptr n)[i]? = none :=
      List.getElem?_eq_none (by rw [Contents.length_read]; omega)
    rw [hnone, hnone]
    split <;> rfl

/-- The two forms of `launch_normalize` agree: the kernel that is queued for a block leaves in it
what the launch makes of the block's contents. -/
theorem launchNormalize_read {σ : Type} {data : PooledBuffer}
    (hnull : data.ptr = 0 ↔ data.capacity / 4 = 0) (m : Contents F)
    (n c hw : Int) (mean stddev : List F) (launch : Option String) (s : σ) :
    (launchNormalize (m.read data.ptr (data.capacity / 4)) n c hw mean stddev launch).outcome s =
      ((launchNormalizeOn data n c hw mean stddev launch).outcome s).map fun (r, s) ↦
        (r.map fun op ↦
          (op.elim m fun op ↦ op.run mean stddev m).read data.ptr (data.capacity / 4), s) := by
  have hempty : ((m.read data.ptr (data.capacity / 4)).isEmpty || mean.isEmpty ||
      stddev.isEmpty) = true ↔ data.ptr = 0 ∨ mean = [] ∨ stddev = [] := by
    rw [Bool.or_eq_true, Bool.or_eq_true, or_assoc, List.isEmpty_iff, List.isEmpty_iff,
      List.isEmpty_iff, ← List.length_eq_zero_iff, Contents.length_read, hnull]
  unfold launchNormalize launchNormalizeOn
  by_cases hneg : n < 0 ∨ c < 0 ∨ hw < 0
  · rw [if_pos hneg, if_pos hneg]
    rfl
  rw [if_neg hneg, if_neg hneg]
  by_cases hzero : n = 0
  · rw [if_pos hzero, if_pos hzero]
    rfl
  rw [if_neg hzero, if_neg hzero]
  by_cases hflat : c = 0 ∨ hw = 0
  · rw [if_pos hflat, if_pos hflat]
    rfl
  rw [if_neg hflat, if_neg hflat]
  by_cases hptr : data.ptr = 0 ∨ mean = [] ∨ stddev = []
  · rw [if_pos (hempty.mpr hptr), if_pos hptr]
    rfl
  rw [if_neg fun h ↦ hptr (hempty.mp h), if_neg hptr]
  dsimp only
  rw [Contents.length_read]
  set total := n.toNat * c.toNat * hw.toNat
  by_cases hfar : 2 ^ 63 ≤ total ∨ data.capacity / 4 < total
  · rw [if_pos hfar, if_pos hfar]
    rfl
  rw [if_neg hfar, if_neg hfar]
  have hpos : 0 < total := Nat.mul_pos (Nat.mul_pos (by omega) (by omega)) (by omega)
  have hkernel : ((StreamOp.normalize data.ptr (min ((total + 256 - 1) / 256) 1024) total c.toNat
      hw.toNat).run mean stddev m).read data.ptr (data.capacity / 4) =
        normalizeKernel (min ((total + 256 - 1) / 256) 1024) total c.toNat hw.toNat mean stddev
          (m.read data.ptr (data.capacity / 4)) := read_run_normalize m mean stddev (by omega)
  cases launch with
  | none =>
    rw [← hkernel]
    rfl
  | some message => rfl

end Launch

namespace CudaEngine

/-! ### What a call keeps -/

variable [FloatOps F] {c : CudaCall F} {e s t : CudaEngine F} {staging device : PooledBuffer}

/-- The round trip only changes the device and the cursor. -/
theorem upload_keeps {P : CudaEngine F → Prop}
    (hP : ∀ e d n, P e → P { e with device := d, cursor := n }) (env : CudaEnv)
    (input : FloatVec F) :
    Ensures P (upload env input staging device) (fun _ ↦ P) (fun _ ↦ P) := by
  have hadvance (ks : List Nat) :
      Ensures P (modify fun e ↦ e.advance ks : Act CppException _ PUnit) (fun _ ↦ P) (fun _ ↦ P) :=
    Ensures.modify fun e he ↦ hP e _ e.cursor he
  unfold upload
  dsimp only
  apply Ensures.bind (hadvance _)
  intro _
  apply Ensures.ite
  · intro _
    apply Ensures.bind (Q := fun _ ↦ P)
    · exact Ensures.modify fun e he ↦ hP e _ e.cursor he
    intro _
    apply Ensures.bind (hadvance _)
    intro _
    apply Ensures.bind (Q := fun _ ↦ P)
    · intro e r t he ht
      cases ht
      exact hP e e.device _ he
    intro k
    apply Ensures.bind (Q := fun _ ↦ P)
    · unfold memcpyAsync
      apply Ensures.bind (cudaCheck_spec env.upload _ fun _ _ _ he ↦ he).ensures
      intro _
      apply Ensures.ite
      · intro _
        exact Ensures.modify fun e he ↦ hP e _ e.cursor he
      · intro _
        exact Ensures.undefined
    intro _
    exact Ensures.pure fun _ he ↦ he
  · intro _
    exact Ensures.undefined

theorem finish_keeps {P : CudaEngine F → Prop}
    (hP : ∀ e d n, P e → P { e with device := d, cursor := n }) (env : CudaEnv)
    (input : FloatVec F) (batchSize hw stream : Nat) :
    Ensures P (finish env input batchSize hw staging device stream) (fun _ ↦ P) (fun _ ↦ P) := by
  have hdevice (f : CudaEngine F → Streams StreamOp (Contents F)) :
      Ensures P (modify fun e ↦ { e with device := f e } : Act CppException _ PUnit) (fun _ ↦ P)
        (fun _ ↦ P) :=
    Ensures.modify fun e he ↦ hP e _ e.cursor he
  unfold finish
  apply Ensures.get_bind
  intro e₀ _
  apply Ensures.bind (hdevice _)
  intro _
  apply Ensures.bind_of ((launchNormalizeOn_ensures P device _ _ _ env.launch).conseq
    (fun _ he ↦ he) (fun _ _ he ↦ he) fun _ _ he ↦ he.1)
  intro kernel _
  apply Ensures.bind (Q := fun _ ↦ P)
  · cases kernel with
    | some op => exact hdevice _
    | none => exact Ensures.pure fun _ he ↦ he
  intro _
  apply Ensures.bind (hdevice _)
  intro _
  apply Ensures.bind (Q := fun _ ↦ P)
  · unfold memcpyAsync
    apply Ensures.bind (cudaCheck_spec env.download _ fun _ _ _ he ↦ he).ensures
    intro _
    apply Ensures.ite
    · intro _
      exact hdevice _
    · intro _
      exact Ensures.undefined
  intro _
  apply Ensures.bind (hdevice _)
  intro _
  unfold streamSynchronize
  apply Ensures.bind (cudaCheck_spec env.synchronize _ fun _ _ _ he ↦ he).ensures
  intro _
  exact hdevice _

/-- The pool with handles `hs` on its blocks keeps its books. -/
def Stocked (hs : List PooledBuffer) (e : CudaEngine F) : Prop := PoolState.Inv ⟨e.pool, hs⟩

omit [FloatOps F] in
theorem Stocked.acquired {hs : List PooledBuffer} {pinned : Bool} {env : AllocEnv} {n : Nat}
    {b : PooledBuffer} (h : Stocked hs e)
    (ht : (acquireBlock pinned env n).outcome e = some (.ok b, t)) : Stocked (hs ++ [b]) t := by
  obtain ⟨hsound, q, hout, ⟨b', hb, rfl⟩ | ⟨ex, hex, -⟩⟩ := acquireBlock_cases ht
  · exact PoolState.Inv.acquired h hsound hout
  · cases hex

omit [FloatOps F] in
theorem Stocked.refused {hs : List PooledBuffer} {pinned : Bool} {env : AllocEnv} {n : Nat}
    {ex : CppException} (h : Stocked hs e)
    (ht : (acquireBlock pinned env n).outcome e = some (.error ex, t)) : Stocked hs t := by
  obtain ⟨hsound, q, hout, ⟨b, hb, -⟩ | ⟨ex', -, rfl⟩⟩ := acquireBlock_cases ht
  · cases hb
  · exact PoolState.Inv.refused h hsound hout

theorem Holds.stocked (hs : Holds c e staging device s) (h : Stocked [] e) :
    Stocked [staging, device] s := by
  obtain ⟨m, hm, hd⟩ := hs.acquired
  have hstaging : Stocked [staging] m := Stocked.acquired (e := e.advance _) h hm
  exact Stocked.acquired (e := m.advance _) hstaging hd

theorem Stocked.returnBlocks (h : Stocked [staging, device] s) (c : CudaCall F) :
    Stocked [] (returnBlocks c staging device s) := by
  have hdevice : Stocked [staging] ((s.advance (c.env.progress .releaseDevice)).giveBack device) :=
    PoolState.Inv.released (show PoolState.Inv ⟨s.pool, [staging] ++ [device]⟩ from h)
  exact PoolState.Inv.released hdevice

/-- Between calls all blocks are in the pool. -/
theorem Course.stocked {r : Except CppException (FloatVec F)} (hcourse : Course c e r t)
    (h : Stocked [] e) : Stocked [] t := by
  have hP : ∀ (hs : List PooledBuffer) (e : CudaEngine F) d n, Stocked hs e →
      Stocked hs { e with device := d, cursor := n } := fun _ _ _ _ he ↦ he
  cases hcourse with
  | refused => exact h
  | noStaging hs => exact Stocked.refused (e := e.advance _) h hs
  | @noDevice staging ex m s hm hs =>
    have hstaging : Stocked [staging] m := Stocked.acquired (e := e.advance _) h hm
    have hfailed : Stocked [staging] s := Stocked.refused (e := m.advance _) hstaging hs
    exact PoolState.Inv.released hfailed
  | noUpload hs ht =>
    exact Stocked.returnBlocks (upload_keeps (hP _) _ _ _ _ _ (hs.stocked h) ht) c
  | unfinished hs ht hu =>
    have hup := upload_keeps (hP _) _ _ _ _ _ (hs.stocked h) ht
    exact Stocked.returnBlocks (finish_keeps (hP _) _ _ _ _ _ _ _ _ hup hu) c
  | finished hs ht hu =>
    have hup := upload_keeps (hP _) _ _ _ _ _ (hs.stocked h) ht
    exact Stocked.returnBlocks (finish_keeps (hP _) _ _ _ _ _ _ _ _ hup hu) c

/-! ### A call without a failure -/

/-- No CUDA call of `run_inference` fails. -/
structure Succeeds (env : CudaEnv) : Prop where
  pinned : ∃ ptr, env.pinned.answer = .ok ptr
  setDevice : env.device.setDevice = none
  device : ∃ ptr, env.device.answer = .ok ptr
  upload : env.upload = none
  launch : env.launch = none
  download : env.download = none
  synchronize : env.synchronize = none

/-- The allocator keeps its contract in both acquisitions. -/
def AllocatesSoundly (e : CudaEngine F) (env : CudaEnv) (bytes : Nat) : Prop :=
  e.pool.sound env.pinned = true ∧
    ∀ h q, (MemoryPool.acquire true env.pinned bytes).outcome e.pool = some (.ok h, q) →
      q.sound env.device = true

variable {opts : CudaOptions F} {m : Contents F} {k n : Nat} {b : PooledBuffer}

omit [FloatOps F] in
theorem acquireBlock_ok {pinned : Bool} {env : AllocEnv} {q : MemoryPool}
    (hsound : e.pool.sound env = true)
    (hout : (MemoryPool.acquire pinned env n).outcome e.pool = some (.ok b, q)) :
    (acquireBlock pinned env n).outcome e =
      some (.ok b, { e with pool := q, handedOut := e.handedOut ++ [(b, e.device.pending)] }) := by
  unfold acquireBlock
  rw [outcome_bind_ok (outcome_get e), if_pos hsound]
  refine outcome_bind_ok (t := { e with pool := q }) ?_
  rw [outcome_onPart, hout]
  rfl

/-- A call with correct arguments gets its blocks. -/
theorem exists_holds (he : Calm opts m e) (hok : Succeeds c.env)
    (halloc : AllocatesSoundly e c.env (bytes c))
    (hsize : c.batchedInput.size = sizeMul c.batchSize c.inputElems) (hbatch : c.batchSize ≠ 0)
    (hrows : ¬(c.inputElems = 0 ∨ c.inputElems % e.options.mean.length ≠ 0)) :
    ∃ staging device s, Holds c e staging device s := by
  have hbytes : bytes c ≤ 2 ^ 63 := by
    have hlt := c.batchedInput.size_lt
    have hmod : bytes c = c.batchedInput.size * 4 % 2 ^ 64 := rfl
    have hdef : c.batchedInput.size = c.batchedInput.toList.length := rfl
    omega
  obtain ⟨ptr, hptr⟩ := hok.pinned
  obtain ⟨ptr', hptr'⟩ := hok.device
  have hpinned : true = false → c.env.pinned.setDevice = none := by
    intro h
    cases h
  obtain ⟨staging, q, hq⟩ := MemoryPool.acquire_ok hbytes hpinned hptr e.pool
  have hdevice : false = false → c.env.device.setDevice = none := fun _ ↦ hok.setDevice
  obtain ⟨device, q', hq'⟩ := MemoryPool.acquire_ok hbytes hdevice hptr' q
  have hm := acquireBlock_ok halloc.1 hq
  have hcalm := he.acquire hm
  have hd := acquireBlock_ok (e := { e with
    pool := q, handedOut := e.handedOut ++ [(staging, e.device.pending)] })
    (halloc.2 staging q hq) hq'
  exact ⟨staging, device, _, hsize, hbatch, hrows, _, (congrArg _ (he.advance _)).trans hm,
    (congrArg _ (hcalm.advance _)).trans hd⟩

omit [FloatOps F] in
theorem Stocked.block_acquired {hs : List PooledBuffer} {pinned : Bool} {env : AllocEnv}
    (h : Stocked hs e) (ht : (acquireBlock pinned env n).outcome e = some (.ok b, t)) :
    n ≤ b.capacity ∧ 0 < b.ptr := by
  obtain ⟨hsound, q, hout, -⟩ := acquireBlock_cases ht
  exact PoolState.Inv.block_acquired h hsound hout

/-- The two blocks have room for the batch. -/
theorem Holds.blocks (hs : Holds c e staging device s) (h : Stocked [] e) :
    bytes c ≤ staging.capacity ∧ bytes c ≤ device.capacity ∧ device.ptr ≠ 0 := by
  obtain ⟨m, hm, hd⟩ := hs.acquired
  have hcap := Stocked.block_acquired (e := e.advance _) h hm
  have hstaging : Stocked [staging] m := Stocked.acquired (e := e.advance _) h hm
  have hcap' := Stocked.block_acquired (e := m.advance _) hstaging hd
  exact ⟨hcap.1, hcap'.1, Nat.pos_iff_ne_zero.mp hcap'.2⟩

/-- The rest of the round trip does not fail either. -/
theorem exists_finish {env : CudaEnv} {input : FloatVec F} {batchSize hw : Nat}
    {kernel : Option StreamOp} (hok : Succeeds env)
    (hkernel : (launchNormalizeOn device (toInt32 batchSize) (toInt32 s.options.mean.length)
      (toInt32 hw) s.deviceMean s.deviceStddev none).outcome () = some (.ok kernel, ()))
    (hcap : floatBytes input.size ≤ staging.capacity)
    (hcap' : floatBytes input.size ≤ device.capacity) :
    ∃ t, (finish env input batchSize hw staging device k).outcome s = some (.ok (), t) := by
  unfold finish
  rw [outcome_bind_ok (outcome_get s), outcome_bind_ok (outcome_modify _ _), hok.launch,
    hok.download, hok.synchronize, memcpyAsync_of_fits hcap hcap']
  have hlaunch := (launchNormalizeOn_mirrors device (toInt32 batchSize)
    (toInt32 s.options.mean.length) (toInt32 hw) none
    (s.advance (env.progress .launch))).trans (congrArg _ hkernel)
  rw [outcome_bind_ok hlaunch]
  cases kernel with
  | some op => exact ⟨_, rfl⟩
  | none => exact ⟨_, rfl⟩

omit [FloatOps F] in
/-- The kernel of a batch whose dimensions fit the kernel's parameters. -/
theorem launch_outcome {mean stddev : List F} {batchSize hw : Nat} (hb : 0 < batchSize)
    (hb' : batchSize < 2 ^ 31) (hm : mean ≠ []) (hd : stddev ≠ []) (hm' : mean.length < 2 ^ 31)
    (hhw : 0 < hw) (hhw' : hw < 2 ^ 31) (hptr : device.ptr ≠ 0)
    (hcap : batchSize * mean.length * hw ≤ device.capacity / 4)
    (hlt : batchSize * mean.length * hw < 2 ^ 63) :
    (launchNormalizeOn device (toInt32 batchSize) (toInt32 mean.length) (toInt32 hw) mean stddev
      none).outcome () = some (.ok (some (.normalize device.ptr
        (min ((batchSize * mean.length * hw + 256 - 1) / 256) 1024)
        (batchSize * mean.length * hw) mean.length hw)), ()) := by
  have hc : 0 < mean.length := List.length_pos_iff.mpr hm
  rw [toInt32_of_lt hb', toInt32_of_lt hm', toInt32_of_lt hhw']
  have hb1 : (1 : Int) ≤ batchSize := by omega
  have hc1 : (1 : Int) ≤ mean.length := by omega
  have hhw1 : (1 : Int) ≤ hw := by omega
  exact launchNormalizeOn_outcome hb1 hc1 hhw1 hptr hm hd hcap hlt ()

/-! ### What comes back -/

/-- The memory at the end of the round trip. -/
def roundTripMemory (opts : CudaOptions F) (m : Contents F) (staging device : PooledBuffer)
    (input : List F) (bytes : Nat) (kernel : Option StreamOp) : Contents F :=
  StreamOp.run opts.mean opts.stddev (.copy staging.ptr device.ptr bytes)
    (afterKernel opts (StreamOp.run opts.mean opts.stddev (.copy device.ptr staging.ptr bytes)
      (m.write staging.ptr input)) kernel)

/-- The staging block holds the batch as the kernel leaves it. -/
theorem read_roundTripMemory {input : List F} {bytes blocks hw channels : Nat}
    (hbytes : bytes / 4 = input.length) :
    (roundTripMemory opts m staging device input bytes
      (some (.normalize device.ptr blocks input.length channels hw))).read staging.ptr
        input.length =
      normalizeKernel blocks input.length channels hw opts.mean opts.stddev input := by
  have hup : StreamOp.run opts.mean opts.stddev (.copy device.ptr staging.ptr bytes)
      (m.write staging.ptr input) = (m.write staging.ptr input).write device.ptr input := by
    rw [StreamOp.run, hbytes, Contents.read_write rfl]
  have hkernel : afterKernel opts ((m.write staging.ptr input).write device.ptr input)
      (some (.normalize device.ptr blocks input.length channels hw)) =
        ((m.write staging.ptr input).write device.ptr input).write device.ptr
          (normalizeKernel blocks input.length channels hw opts.mean opts.stddev input) := by
    rw [afterKernel, StreamOp.run, Contents.read_write rfl]
  have hlen := length_normalizeKernel blocks input.length channels hw opts.mean opts.stddev input
  rw [roundTripMemory, hup, hkernel, StreamOp.run, hbytes, Contents.read_write hlen,
    Contents.read_write hlen]

/-- The batch with each of its rows normalized. -/
def normalizedRows (opts : CudaOptions F) (batchSize inputElems : Nat) (input : List F) : List F :=
  mapRows (normalizeRow (inputElems / opts.mean.length) opts.mean opts.stddev) inputElems batchSize
    input

private theorem length_row_normalized {input mean stddev : List F} {batchSize inputElems : Nat}
    (plane : Nat) (hlen : input.length = batchSize * inputElems) :
    ∀ i < batchSize, (normalizeRow plane mean stddev (row inputElems input i)).length =
      inputElems := by
  intro i hi
  rw [length_normalizeRow, length_row (Nat.le_of_eq hlen.symm) hi]

/-- The kernel normalizes each row of the batch. -/
theorem normalizeKernel_eq_normalizedRows {input : List F} {batchSize inputElems blocks : Nat}
    (hblocks : 0 < blocks) (hdvd : opts.mean.length ∣ inputElems)
    (hlen : input.length = batchSize * inputElems) :
    normalizeKernel blocks input.length opts.mean.length (inputElems / opts.mean.length) opts.mean
      opts.stddev input = normalizedRows opts batchSize inputElems input := by
  have hmul : opts.mean.length * (inputElems / opts.mean.length) = inputElems :=
    Nat.mul_div_cancel' hdvd
  apply ext_rows
  · rw [length_normalizeKernel, hlen]
  · exact length_mapRows (length_row_normalized _ hlen)
  · intro i hi
    have htotal : input.length =
        batchSize * opts.mean.length * (inputElems / opts.mean.length) := by
      rw [Nat.mul_assoc, hmul, hlen]
    have hkernel := row_normalizeKernel hblocks batchSize opts.mean.length
      (inputElems / opts.mean.length) opts.mean opts.stddev input i
    rw [hmul, if_pos hi, ← htotal] at hkernel
    rw [hkernel, normalizedRows, row_mapRows (length_row_normalized _ hlen) hi]

/-- Element `p` of channel `ch` of row `i` of the normalized batch. -/
theorem getElem?_normalizedRows {input : List F} {batchSize inputElems i ch p : Nat} {x μ δ : F}
    (hdvd : opts.mean.length ∣ inputElems) (hlen : input.length = batchSize * inputElems)
    (hi : i < batchSize) (hp : p < inputElems / opts.mean.length)
    (hμ : opts.mean[ch]? = some μ) (hδ : opts.stddev[ch]? = some δ)
    (hx : input[i * inputElems + (ch * (inputElems / opts.mean.length) + p)]? = some x) :
    (normalizedRows opts batchSize inputElems input)[
      i * inputElems + (ch * (inputElems / opts.mean.length) + p)]? = some ((x - μ) / δ) := by
  have hmul : opts.mean.length * (inputElems / opts.mean.length) = inputElems :=
    Nat.mul_div_cancel' hdvd
  have hch : ch < opts.mean.length := (List.getElem?_eq_some_iff.mp hμ).1
  have hpos : ch * (inputElems / opts.mean.length) + p < inputElems := by
    have hle := Nat.mul_le_mul_right (inputElems / opts.mean.length) (Nat.succ_le_of_lt hch)
    rw [Nat.succ_mul, hmul] at hle
    omega
  have hread : ∀ ys : List F, ys[i * inputElems + (ch * (inputElems / opts.mean.length) + p)]? =
      (row inputElems ys i)[ch * (inputElems / opts.mean.length) + p]? := by
    intro ys
    rw [row, List.getElem?_take_of_lt hpos, List.getElem?_drop]
  have hchannel : (ch * (inputElems / opts.mean.length) + p) / (inputElems / opts.mean.length) =
      ch := by
    rw [Nat.mul_comm, Nat.mul_add_div (Nat.zero_lt_of_lt hp), Nat.div_eq_of_lt hp, Nat.add_zero]
  rw [hread] at hx ⊢
  rw [normalizedRows, row_mapRows (length_row_normalized _ hlen) hi, normalizeRow,
    List.getElem?_mapIdx, hx, hchannel, hμ, hδ]
  rfl

/-- What a call needs to reach the kernel with its whole batch. -/
structure Fits (opts : CudaOptions F) (c : CudaCall F) : Prop where
  positive : 0 < c.inputElems
  divides : opts.mean.length ∣ c.inputElems
  batch : c.batchSize < 2 ^ 31
  channels : opts.mean.length < 2 ^ 31
  plane : c.inputElems / opts.mean.length < 2 ^ 31
  size : c.batchedInput.size = c.batchSize * c.inputElems

/-- A call that holds its blocks gets the normalized batch back in the staging block. -/
theorem Holds.staged (hs : Holds c e staging device s) (he : Calm opts m e) (hst : Stocked [] e)
    (hopts : Accepted opts) (hok : Succeeds c.env) (hfits : Fits opts c) :
    c.batchedInput.size ≤ staging.capacity / 4 ∧
      ∃ k t u, (uploadOf c staging device).outcome s = some (.ok k, t) ∧
        (finishOf c e staging device k).outcome t = some (.ok (), u) ∧
        u.device.memory.read staging.ptr c.batchedInput.size =
          normalizedRows opts c.batchSize c.inputElems c.batchedInput.toList := by
  have hlt : c.batchedInput.size < 2 ^ 61 := c.batchedInput.size_lt
  have hmul : opts.mean.length * (c.inputElems / opts.mean.length) = c.inputElems :=
    Nat.mul_div_cancel' hfits.divides
  have htotal : c.batchSize * opts.mean.length * (c.inputElems / opts.mean.length) =
      c.batchedInput.size := by
    rw [Nat.mul_assoc, hmul, hfits.size]
  have hbatch : 0 < c.batchSize := Nat.pos_of_ne_zero hs.batch
  have hplane : 0 < c.inputElems / opts.mean.length := by
    apply Nat.pos_of_ne_zero
    intro hzero
    have hpos := hfits.positive
    rw [hzero, Nat.mul_zero] at hmul
    omega
  have hstd : opts.stddev ≠ [] := by
    apply List.ne_nil_of_length_pos
    rw [← hopts.lengths]
    exact List.length_pos_iff.mpr hopts.channels
  have hdiv : bytes c / 4 = c.batchedInput.size := floatBytes_div (by omega)
  obtain ⟨hcap, hcap', hptr⟩ := hs.blocks hst
  have hroom : c.batchedInput.size ≤ device.capacity / 4 := by
    rw [← hdiv]
    exact Nat.div_le_div_right hcap'
  -- neither half of the round trip fails
  obtain ⟨k, t, ht⟩ := exists_upload hok.upload hcap hcap' s
  have hflying := upload_ensures _ _ _ _ _ _ _ (hs.calm he) ht
  have hlaunch := launch_outcome hbatch hfits.batch hopts.channels hstd hfits.channels hplane
    hfits.plane hptr (htotal ▸ hroom) (by rw [htotal]; omega)
  obtain ⟨u, hu⟩ := exists_finish (k := k) hok
    (by rw [hflying.options, hflying.deviceMean, hflying.deviceStddev]; exact hlaunch) hcap hcap'
  refine ⟨?_, k, t, u, ht, ?_, ?_⟩
  · rw [← hdiv]
    exact Nat.div_le_div_right hcap
  · rw [finishOf, he.options]
    exact hu
  · -- what they leave in memory
    obtain ⟨kernel, hkernel, hcalm⟩ := finish_ensures _ _ _ _ _ _ _ hflying hu
    rw [hok.launch, hlaunch] at hkernel
    cases hkernel
    have hblocks : 0 < min ((c.batchedInput.size + 256 - 1) / 256) 1024 := by
      have hsize : 0 < c.batchedInput.size := by
        rw [hfits.size]
        exact Nat.mul_pos hbatch hfits.positive
      omega
    rw [htotal] at hcalm
    rw [hcalm.memory]
    exact (read_roundTripMemory hdiv).trans
      (normalizeKernel_eq_normalizedRows hblocks hfits.divides hfits.size)

/-- So it returns what shaping the normalized batch gives. -/
theorem Holds.result (hs : Holds c e staging device s) (he : Calm opts m e) (hst : Stocked [] e)
    (hopts : Accepted opts) (hok : Succeeds c.env) (hfits : Fits opts c) :
    ((runInference c.env c.batchedInput c.batchSize c.inputElems c.outputElems).outcome e).map
        Prod.fst =
      ((shapeOutput (normalizedRows opts c.batchSize c.inputElems c.batchedInput.toList)
        c.batchSize c.inputElems c.outputElems).outcome ()).map Prod.fst := by
  obtain ⟨hroom, k, t, u, ht, hu, hread⟩ := hs.staged he hst hopts hok hfits
  have hlt : c.batchedInput.size < 2 ^ 61 := c.batchedInput.size_lt
  have hlen : (normalizedRows opts c.batchSize c.inputElems c.batchedInput.toList).length =
      c.batchSize * c.inputElems := by
    rw [← hread, Contents.length_read, hfits.size]
  rw [hfits.size] at hroom hread hlt
  rw [hs.outcome, roundTrip, outcome_bind_ok ht, outcome_bind_ok hu,
    outcome_bind_ok (outcome_get u),
    shapeOutput_congr (by omega) (by rw [Contents.length_read]; exact hroom)
      (Nat.le_of_eq hlen.symm), shapeOutput_mirrors, Option.map_map, Option.map_map]
  · rfl
  · rw [Contents.take_read hroom, hread, ← hlen, List.take_length]

/-- An empty batch gives an empty vector in both engines. -/
theorem result_of_empty {input : FloatVec F} (hbatch : c.batchSize = 0)
    (hsize : c.batchedInput.size = sizeMul c.batchSize c.inputElems) (hlen : input.toList = []) :
    ((runInference c.env c.batchedInput c.batchSize c.inputElems c.outputElems).outcome e).map
        Prod.fst =
      ((StubEngine.runInference input c.batchSize c.inputElems c.outputElems).outcome ()).map
        Prod.fst := by
  have hzero : ∀ n, sizeMul 0 n = 0 := by
    intro n
    rw [sizeMul, Nat.zero_mul, Nat.zero_mod]
  have hinput : input.size = sizeMul 0 c.inputElems := by
    rw [hzero, FloatVec.size, hlen]
    rfl
  unfold runInference StubEngine.runInference shapeOutput
  rw [outcome_bind_ok (outcome_get e), if_neg (not_not.mpr hsize), if_pos hbatch, hbatch,
    if_neg (not_not.mpr hinput), hzero]
  rfl

variable {p : CudaPlatform F} {e₀ : CudaEngine F} {cs : List (CudaCall F)}

theorem stocked_exec (hc : Constructed p opts e₀) (hr : exec call e₀ cs = some e) :
    Stocked [] e := by
  have hbuilt : Stocked [] e₀ := by
    obtain ⟨rfl, -⟩ := hc.eq_built
    exact PoolState.inv_empty
  refine exec_preserves ?_ hr hbuilt
  intro s c t hs ht
  obtain ⟨r, hcourse⟩ := call_course ht
  exact hcourse.stocked hs

/-- The engine is the stub after normalization. While no call fails after its upload was queued,
a call whose CUDA calls succeed returns exactly what the stub returns for the batch in which
element `p` of channel `ch` of each row is replaced by its normalization. On an input of the wrong
length both throw the same exception. -/
theorem cuda_engine_is_stub_after_normalization (hc : Constructed p opts e₀)
    (hr : exec call e₀ cs = some e)
    (hclean : Along call (fun e c ↦ ¬FailsAfterUpload e c) e₀ cs) (c : CudaCall F) :
    (Succeeds c.env → AllocatesSoundly e c.env (bytes c) → Fits opts c →
      ∃ normalized : FloatVec F,
        normalized.size = c.batchedInput.size ∧
        (∀ i ch q x μ δ, i < c.batchSize → q < c.inputElems / opts.mean.length →
          opts.mean[ch]? = some μ → opts.stddev[ch]? = some δ →
          c.batchedInput.toList[
            i * c.inputElems + (ch * (c.inputElems / opts.mean.length) + q)]? = some x →
          normalized.toList[
            i * c.inputElems + (ch * (c.inputElems / opts.mean.length) + q)]? =
              some ((x - μ) / δ)) ∧
        ((runInference c.env c.batchedInput c.batchSize c.inputElems c.outputElems).outcome e).map
            Prod.fst =
          ((StubEngine.runInference normalized c.batchSize c.inputElems
            c.outputElems).outcome ()).map Prod.fst) ∧
    (c.batchedInput.size ≠ sizeMul c.batchSize c.inputElems →
      ∃ what,
        (runInference c.env c.batchedInput c.batchSize c.inputElems c.outputElems).outcome e =
            some (.error (.inferenceError what), e) ∧
          (StubEngine.runInference c.batchedInput c.batchSize c.inputElems
            c.outputElems).outcome () = some (.error (.inferenceError what), ())) := by
  obtain ⟨m, hcalm⟩ := calm_exec hc hr hclean
  obtain ⟨-, hopts⟩ := hc.eq_built
  constructor
  · intro hok halloc hfits
    have hlt : c.batchedInput.size < 2 ^ 61 := c.batchedInput.size_lt
    have hlen : (normalizedRows opts c.batchSize c.inputElems c.batchedInput.toList).length =
        c.batchedInput.size := by
      rw [hfits.size]
      apply length_mapRows
      intro i hi
      rw [length_normalizeRow, length_row (Nat.le_of_eq hfits.size.symm) hi]
    have hmod : c.batchedInput.size = sizeMul c.batchSize c.inputElems := by
      rw [hfits.size] at hlt
      rw [sizeMul_of_lt (by omega), hfits.size]
    have hvec : (normalizedRows opts c.batchSize c.inputElems c.batchedInput.toList).length <
        2 ^ 61 := by
      rw [hlen]
      exact hlt
    obtain ⟨v, hv⟩ : ∃ v : FloatVec F,
        v.toList = normalizedRows opts c.batchSize c.inputElems c.batchedInput.toList :=
      ⟨⟨_, hvec⟩, rfl⟩
    have hsize : v.size = c.batchedInput.size := by rw [FloatVec.size, hv, hlen]
    refine ⟨v, hsize, ?_, ?_⟩
    · intro i ch q x μ δ hi hq hμ hδ hx
      rw [hv]
      exact getElem?_normalizedRows hfits.divides hfits.size hi hq hμ hδ hx
    · by_cases hbatch : c.batchSize = 0
      · apply result_of_empty hbatch hmod
        apply List.eq_nil_of_length_eq_zero
        change v.size = 0
        rw [hsize, hfits.size, hbatch, Nat.zero_mul]
      · have hrows : ¬(c.inputElems = 0 ∨ c.inputElems % e.options.mean.length ≠ 0) := by
          rw [hcalm.options, Nat.mod_eq_zero_of_dvd hfits.divides]
          have hpos := hfits.positive
          omega
        obtain ⟨staging, device, s, hs⟩ := exists_holds hcalm hok halloc hmod hbatch hrows
        rw [hs.result hcalm (stocked_exec hc hr) hopts hok hfits, StubEngine.runInference,
          if_neg (not_not.mpr (hsize.trans hmod)), hv]
  · intro hne
    refine ⟨"batched input size does not match batch_size * input_elems", ?_, ?_⟩
    · rw [runInference, outcome_bind_ok (outcome_get e), if_pos hne]
      rfl
    · rw [StubEngine.runInference, if_pos hne]
      rfl

/-- The second call on an engine of one channel, on the blocks that the first one returned. -/
theorem cuda_engine_is_stub_mono :
    ∃ e normalized, exec call (built zeroPlatform monoOptions) [monoCall 1 none] = some e ∧
      normalized.toList = [2, 3] ∧
      ((runInference (monoCall 3 none).env (monoCall 3 none).batchedInput 1 2 2).outcome e).map
          Prod.fst =
        ((StubEngine.runInference normalized 1 2 2).outcome ()).map Prod.fst := by
  have hfacts : (exec call (built zeroPlatform monoOptions) [monoCall 1 none]).map (fun e ↦
      (e.pool.sound (monoCall 3 none).env.pinned,
        ((MemoryPool.acquire true (monoCall 3 none).env.pinned 8).outcome e.pool).map fun r ↦
          r.2.sound (monoCall 3 none).env.device)) = some (true, some true) := by
    decide +kernel
  obtain ⟨e, he, hsound⟩ := Option.map_eq_some_iff.mp hfacts
  have hvalue : ((runInference (monoCall 1 none).env (monoCall 1 none).batchedInput 1 2 2).value
      (built zeroPlatform monoOptions)).map (·.toList) = some [2, 3] := by decide +kernel
  obtain ⟨v, hv, -⟩ := Option.map_eq_some_iff.mp hvalue
  have halloc : AllocatesSoundly e (monoCall 3 none).env (bytes (monoCall 3 none)) := by
    rw [Prod.mk.injEq] at hsound
    refine ⟨hsound.1, ?_⟩
    intro h q hq
    have hbytes : bytes (monoCall 3 none) = 8 := rfl
    rw [hbytes] at hq
    have hdevice := hsound.2
    rw [hq] at hdevice
    exact Option.some.inj hdevice
  have hok : Succeeds (monoCall 3 none).env := ⟨⟨3, rfl⟩, rfl, ⟨4, rfl⟩, rfl, rfl, rfl, rfl⟩
  have hfits : Fits monoOptions (monoCall 3 none) :=
    ⟨by decide, by decide, by decide, by decide, by decide, rfl⟩
  obtain ⟨hstub, -⟩ := cuda_engine_is_stub_after_normalization constructed_mono he
    ⟨not_failsAfterUpload constructed_mono.calm hv, fun _ _ ↦ trivial⟩ (monoCall 3 none)
  obtain ⟨normalized, hsize, hnorm, hresult⟩ := hstub hok halloc hfits
  refine ⟨e, normalized, he, ?_, hresult⟩
  have hfirst : normalized.toList[0]? = some 2 :=
    hnorm 0 0 0 5 1 2 (by decide) (by decide) rfl rfl rfl
  have hsecond : normalized.toList[1]? = some 3 :=
    hnorm 0 0 1 7 1 2 (by decide) (by decide) rfl rfl rfl
  have hlength : normalized.toList.length = 2 := hsize
  apply List.ext_getElem?
  intro i
  match i with
  | 0 => exact hfirst
  | 1 => exact hsecond
  | i + 2 =>
    rw [List.getElem?_eq_none (by omega)]
    rfl

end CudaEngine
end InferenceServer.Engine
