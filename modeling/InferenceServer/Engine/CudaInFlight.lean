import InferenceServer.Base.Run
import InferenceServer.Engine.Cuda

/-!
# Work in flight when blocks are returned

Library `Engine`. A call that throws after it queued its upload returns its blocks to the pool
while the copy is still in flight. Every other call from a state with nothing in flight ends in
one, and returns its blocks when nothing touches them.
-/

namespace InferenceServer.Engine.CudaEngine

open InferenceServer.Base InferenceServer.Base.Act InferenceServer.Memory

variable {F : Type} [FloatOps F] {c : CudaCall F} {e s t : CudaEngine F}
  {staging device : PooledBuffer}

/-! ### What a call can do -/

/-- The bytes of a call's batch. -/
abbrev bytes (c : CudaCall F) : Nat := floatBytes c.batchedInput.size

/-- A call past its argument checks, in state `s` with its two blocks. -/
structure Holds (c : CudaCall F) (e : CudaEngine F) (staging device : PooledBuffer)
    (s : CudaEngine F) : Prop where
  size : c.batchedInput.size = sizeMul c.batchSize c.inputElems
  batch : c.batchSize ≠ 0
  rows : ¬(c.inputElems = 0 ∨ c.inputElems % e.options.mean.length ≠ 0)
  acquired : ∃ m, (acquireBlock true c.env.pinned (bytes c)).outcome
      (e.advance (c.env.progress .acquirePinned)) = some (.ok staging, m) ∧
    (acquireBlock false c.env.device (bytes c)).outcome
      (m.advance (c.env.progress .acquireDevice)) = some (.ok device, s)

/-- The device block and then the staging block go back to the pool. -/
def returnBlocks (c : CudaCall F) (staging device : PooledBuffer) (s : CudaEngine F) :
    CudaEngine F :=
  (((s.advance (c.env.progress .releaseDevice)).giveBack device).advance
    (c.env.progress .releasePinned)).giveBack staging

/-- The upload of a call. -/
abbrev uploadOf (c : CudaCall F) (staging device : PooledBuffer) :
    Act CppException (CudaEngine F) Nat :=
  upload c.env c.batchedInput staging device

/-- What follows it, up to the synchronization. -/
abbrev finishOf (c : CudaCall F) (e : CudaEngine F) (staging device : PooledBuffer)
    (stream : Nat) : Act CppException (CudaEngine F) Unit :=
  finish c.env c.batchedInput c.batchSize (c.inputElems / e.options.mean.length) staging device
    stream

/-- Everything a call can do. -/
inductive Course (c : CudaCall F) (e : CudaEngine F) :
    Except CppException (FloatVec F) → CudaEngine F → Prop where
  | refused {r : Except CppException (FloatVec F)} : Course c e r e
  | noStaging {ex : CppException} {s : CudaEngine F}
      (hs : (acquireBlock true c.env.pinned (bytes c)).outcome
        (e.advance (c.env.progress .acquirePinned)) = some (.error ex, s)) :
      Course c e (.error ex) s
  | noDevice {staging : PooledBuffer} {ex : CppException} {m s : CudaEngine F}
      (hm : (acquireBlock true c.env.pinned (bytes c)).outcome
        (e.advance (c.env.progress .acquirePinned)) = some (.ok staging, m))
      (hs : (acquireBlock false c.env.device (bytes c)).outcome
        (m.advance (c.env.progress .acquireDevice)) = some (.error ex, s)) :
      Course c e (.error ex) ((s.advance (c.env.progress .releasePinned)).giveBack staging)
  | noUpload {staging device : PooledBuffer} {ex : CppException} {s t : CudaEngine F}
      (hs : Holds c e staging device s)
      (ht : (uploadOf c staging device).outcome s = some (.error ex, t)) :
      Course c e (.error ex) (returnBlocks c staging device t)
  | unfinished {staging device : PooledBuffer} {stream : Nat} {ex : CppException}
      {s t u : CudaEngine F} (hs : Holds c e staging device s)
      (ht : (uploadOf c staging device).outcome s = some (.ok stream, t))
      (hu : (finishOf c e staging device stream).outcome t = some (.error ex, u)) :
      Course c e (.error ex) (returnBlocks c staging device u)
  | finished {staging device : PooledBuffer} {stream : Nat}
      {r : Except CppException (FloatVec F)} {s t u : CudaEngine F}
      (hs : Holds c e staging device s)
      (ht : (uploadOf c staging device).outcome s = some (.ok stream, t))
      (hu : (finishOf c e staging device stream).outcome t = some (.ok (), u)) :
      Course c e r (returnBlocks c staging device u)

/-- Shaping the output does not touch the engine. -/
theorem shapeOutput_state {src : List F} {b ie oe : Nat} {r : Except CppException (FloatVec F)}
    (h : (shapeOutput src b ie oe).outcome s = some (r, t)) : t = s := by
  rw [shapeOutput_mirrors src b ie oe s, Option.map_eq_some_iff] at h
  obtain ⟨_, _, heq⟩ := h
  cases heq
  rfl

/-- A call takes one of these courses. -/
theorem runInference_course {r : Except CppException (FloatVec F)}
    (h : (runInference c.env c.batchedInput c.batchSize c.inputElems c.outputElems).outcome e =
      some (r, t)) : Course c e r t := by
  unfold runInference at h
  rw [outcome_bind_ok (outcome_get e)] at h
  split at h
  · cases h
    exact .refused
  next hsize =>
  split at h
  · cases h
    exact .refused
  next hbatch =>
  dsimp only at h
  split at h
  · cases h
    exact .refused
  next hrows =>
  unfold withBlock at h
  rw [outcome_bind_ok (outcome_modify _ e), outcome_bind, Option.bind_eq_some_iff] at h
  obtain ⟨⟨rs, m⟩, hm, h⟩ := h
  cases rs with
  | error ex =>
    cases h
    exact .noStaging hm
  | ok staging =>
    dsimp only at h
    rw [outcome_ensuring, outcome_bind_ok (outcome_modify _ m), outcome_bind,
      Option.map_eq_some_iff] at h
    obtain ⟨⟨r', u⟩, h, heq⟩ := h
    cases heq
    rw [Option.bind_eq_some_iff] at h
    obtain ⟨⟨rd, s⟩, hs, h⟩ := h
    cases rd with
    | error ex =>
      cases h
      exact .noDevice hm hs
    | ok device =>
      have hholds : Holds c e staging device s := ⟨not_not.mp hsize, hbatch, hrows, m, hm, hs⟩
      dsimp only at h
      rw [outcome_ensuring, Option.map_eq_some_iff] at h
      obtain ⟨⟨r'', w⟩, h, heq⟩ := h
      cases heq
      unfold roundTrip at h
      rw [outcome_bind, Option.bind_eq_some_iff] at h
      obtain ⟨⟨ru, x⟩, hx, h⟩ := h
      cases ru with
      | error ex =>
        cases h
        exact .noUpload hholds hx
      | ok stream =>
        dsimp only at h
        rw [outcome_bind, Option.bind_eq_some_iff] at h
        obtain ⟨⟨rf, y⟩, hy, h⟩ := h
        cases rf with
        | error ex =>
          cases h
          exact .unfinished hholds hx hy
        | ok _ =>
          dsimp only at h
          rw [outcome_bind_ok (outcome_get y)] at h
          rw [shapeOutput_state h]
          exact .finished hholds hx hy

/-! ### The pool's moments -/

/-- Nothing in flight touched the block at any of these moments. -/
def Idle (moments : List (PooledBuffer × List StreamOp)) : Prop :=
  ∀ x ∈ moments, ∀ op ∈ x.2, op.touches x.1.ptr = false

theorem Idle.snoc {moments : List (PooledBuffer × List StreamOp)} (h : Idle moments)
    (block : PooledBuffer) : Idle (moments ++ [(block, [])]) := by
  intro x hx
  rcases List.mem_append.mp hx with hx | hx
  · exact h x hx
  · rw [List.mem_singleton.mp hx]
    exact fun op hop ↦ absurd hop List.not_mem_nil

/-- Every block the pool handed out or took back was idle then. -/
structure Safe (e : CudaEngine F) : Prop where
  handedOut : Idle e.handedOut
  returned : Idle e.returned

/-- Between calls: nothing is in flight, and the memory is `m`. -/
structure Calm (opts : CudaOptions F) (m : Contents F) (e : CudaEngine F) : Prop where
  safe : Safe e
  options : e.options = opts
  deviceMean : e.deviceMean = opts.mean
  deviceStddev : e.deviceStddev = opts.stddev
  streams : 0 < e.device.queues.length
  quiet : e.device.Quiet
  memory : e.device.memory = m

/-- During a call: only stream `k` is busy, and what is on it leads to the memory `m`. -/
structure Flying (opts : CudaOptions F) (k : Nat) (m : Contents F) (e : CudaEngine F) : Prop where
  safe : Safe e
  options : e.options = opts
  deviceMean : e.deviceMean = opts.mean
  deviceStddev : e.deviceStddev = opts.stddev
  stream : k < e.device.queues.length
  settles : e.device.Settles (StreamOp.run opts.mean opts.stddev) k m

variable {opts : CudaOptions F} {mean stddev : List F} {m : Contents F} {k : Nat}

theorem Calm.advance (h : Calm opts m e) (ks : List Nat) : e.advance ks = e := by
  rw [CudaEngine.advance, h.quiet.progress]

theorem Flying.advance (h : Flying opts k m e) (ks : List Nat) :
    Flying opts k m (e.advance ks) where
  safe := ⟨h.safe.handedOut, h.safe.returned⟩
  options := h.options
  deviceMean := h.deviceMean
  deviceStddev := h.deviceStddev
  stream := by
    rw [CudaEngine.advance, Streams.length_progress]
    exact h.stream
  settles := by
    rw [CudaEngine.advance, h.deviceMean, h.deviceStddev]
    exact h.settles.progress ks

omit [FloatOps F] in
theorem acquireBlock_cases {pinned : Bool} {env : AllocEnv} {n : Nat}
    {r : Except CppException PooledBuffer}
    (h : (acquireBlock pinned env n).outcome e = some (r, t)) :
    e.pool.sound env = true ∧ ∃ q, (MemoryPool.acquire pinned env n).outcome e.pool = some (r, q) ∧
      ((∃ b, r = .ok b ∧
          t = { e with pool := q, handedOut := e.handedOut ++ [(b, e.device.pending)] }) ∨
        ∃ ex, r = .error ex ∧ t = { e with pool := q }) := by
  unfold acquireBlock at h
  rw [outcome_bind_ok (outcome_get e)] at h
  split at h
  · next hsound =>
    rw [outcome_bind, outcome_onPart] at h
    cases hout : (MemoryPool.acquire pinned env n).outcome e.pool with
    | none =>
      rw [hout] at h
      cases h
    | some x =>
      obtain ⟨r', q⟩ := x
      rw [hout] at h
      cases r' with
      | ok b =>
        cases h
        exact ⟨hsound, q, rfl, .inl ⟨b, rfl, rfl⟩⟩
      | error ex =>
        cases h
        exact ⟨hsound, q, rfl, .inr ⟨ex, rfl, rfl⟩⟩
  · cases h

omit [FloatOps F] in
theorem Calm.acquire (h : Calm opts m e) {pinned : Bool} {env : AllocEnv} {n : Nat}
    {r : Except CppException PooledBuffer}
    (ht : (acquireBlock pinned env n).outcome e = some (r, t)) : Calm opts m t := by
  obtain ⟨-, q, -, ⟨b, -, rfl⟩ | ⟨ex, -, rfl⟩⟩ := acquireBlock_cases ht
  · refine { h with safe := ⟨?_, h.safe.returned⟩ }
    rw [h.quiet.pending_eq]
    exact h.safe.handedOut.snoc b
  · exact { h with safe := ⟨h.safe.handedOut, h.safe.returned⟩ }

omit [FloatOps F] in
theorem Calm.giveBack (h : Calm opts m e) (b : PooledBuffer) :
    Calm opts m (e.giveBack b) := by
  refine { h with safe := ⟨h.safe.handedOut, ?_⟩ }
  change Idle (e.returned ++ [(b, e.device.pending)])
  rw [h.quiet.pending_eq]
  exact h.safe.returned.snoc b

theorem Calm.returnBlocks (h : Calm opts m e) (c : CudaCall F)
    (staging device : PooledBuffer) : Calm opts m (returnBlocks c staging device e) := by
  rw [CudaEngine.returnBlocks, h.advance, (h.giveBack device).advance]
  exact (h.giveBack device).giveBack staging

/-! ### The round trip -/

omit [FloatOps F] in
theorem next_ensures :
    Ensures (Calm opts m) next
      (fun k e ↦ Calm opts m e ∧ k < e.device.queues.length)
      (fun _ ↦ Calm opts m) := by
  intro e r t he ht
  cases ht
  exact ⟨{ he with safe := ⟨he.safe.handedOut, he.safe.returned⟩ }, Nat.mod_lt _ he.streams⟩

theorem upload_ensures (env : CudaEnv) (input : FloatVec F) (staging device : PooledBuffer) :
    Ensures (Calm opts m) (upload env input staging device)
      (fun k e ↦ Flying opts k (StreamOp.run opts.mean opts.stddev
        (.copy device.ptr staging.ptr (floatBytes input.size))
        (m.write staging.ptr input.toList)) e)
      (fun _ e ↦ ∃ m, Calm opts m e) := by
  have hadvance {m : Contents F} (ks : List Nat) :
      Ensures (Calm opts m) (modify fun e ↦ e.advance ks : Act CppException _ PUnit)
        (fun _ ↦ Calm opts m) (fun _ e ↦ ∃ m, Calm opts m e) := by
    apply Ensures.modify
    intro e he
    rwa [he.advance]
  unfold upload
  dsimp only
  apply Ensures.bind (hadvance _)
  intro _
  apply Ensures.ite
  · intro _
    apply Ensures.bind (Q := fun _ ↦ Calm opts (m.write staging.ptr input.toList))
    · apply Ensures.modify
      intro e he
      exact
        { he with
          safe := ⟨he.safe.handedOut, he.safe.returned⟩
          memory := congrArg (fun m ↦ Contents.write m staging.ptr input.toList) he.memory }
    intro _
    apply Ensures.bind (hadvance _)
    intro _
    apply Ensures.bind (next_ensures.conseq (fun _ he ↦ he) (fun _ _ he ↦ he) fun _ _ he ↦ ⟨_, he⟩)
    intro k
    apply Ensures.bind (Q := fun _ e ↦ Flying opts k (StreamOp.run opts.mean opts.stddev
      (.copy device.ptr staging.ptr (floatBytes input.size))
      (m.write staging.ptr input.toList)) e)
    · unfold memcpyAsync
      apply Ensures.bind (cudaCheck_spec env.upload _ fun _ _ _ he ↦ ⟨_, he.1⟩).ensures
      intro _
      apply Ensures.ite
      · intro _
        apply Ensures.modify
        rintro e ⟨he, hk⟩
        refine ⟨⟨he.safe.handedOut, he.safe.returned⟩, he.options, he.deviceMean,
          he.deviceStddev, ?_, ?_⟩
        · change k < (e.device.enqueue k _).queues.length
          rw [Streams.length_enqueue]
          exact hk
        · have hsettles := he.quiet.settles (StreamOp.run opts.mean opts.stddev) k
          rw [he.memory] at hsettles
          exact hsettles.enqueue hk _
      · intro _
        exact Ensures.undefined
    intro _
    exact Ensures.pure fun _ he ↦ he
  · intro _
    exact Ensures.undefined

omit [FloatOps F] in
/-- A copy between blocks with room is queued. -/
theorem memcpyAsync_of_fits {what : String} {dst src : PooledBuffer} {n stream : Nat}
    (hdst : n ≤ dst.capacity) (hsrc : n ≤ src.capacity) :
    memcpyAsync none what dst src n stream =
      enqueue (F := F) stream (.copy dst.ptr src.ptr n) := by
  unfold memcpyAsync
  rw [if_pos ⟨hdst, hsrc⟩]
  rfl

/-- An upload into blocks with room does not fail. -/
theorem exists_upload {env : CudaEnv} {input : FloatVec F} (hup : env.upload = none)
    (hcap : floatBytes input.size ≤ staging.capacity)
    (hcap' : floatBytes input.size ≤ device.capacity) (s : CudaEngine F) :
    ∃ k t, (upload env input staging device).outcome s = some (.ok k, t) := by
  unfold upload
  dsimp only
  rw [outcome_bind_ok (outcome_modify _ _), if_pos hcap, hup]
  simp only [memcpyAsync_of_fits hcap' hcap]
  exact ⟨_, _, rfl⟩

omit [FloatOps F] in
/-- A copy that is queued reported no error, and its blocks have room. -/
theorem memcpyAsync_queued (status : Option String) (what : String) (dst src : PooledBuffer)
    (n stream : Nat) :
    Ensures (fun _ ↦ True) (memcpyAsync (F := F) status what dst src n stream)
      (fun _ _ ↦ status = none ∧ n ≤ dst.capacity ∧ n ≤ src.capacity) (fun _ _ ↦ True) := by
  unfold memcpyAsync
  cases status with
  | some message =>
    apply Ensures.bind (Q := fun _ _ ↦ False) (Ensures.throw fun _ _ ↦ trivial)
    exact fun _ _ _ _ hfalse ↦ hfalse.elim
  | none =>
    apply Ensures.bind (Q := fun _ _ ↦ True) (Ensures.pure fun _ _ ↦ trivial)
    intro _
    apply Ensures.ite
    · intro hroom
      exact Ensures.modify fun _ _ ↦ ⟨rfl, hroom⟩
    · intro _
      exact Ensures.undefined

theorem upload_queued (env : CudaEnv) (input : FloatVec F) (staging device : PooledBuffer) :
    Ensures (fun _ ↦ True) (upload env input staging device)
      (fun _ _ ↦ env.upload = none ∧ floatBytes input.size ≤ device.capacity ∧
        floatBytes input.size ≤ staging.capacity)
      (fun _ _ ↦ True) := by
  have hmodify (f : CudaEngine F → CudaEngine F) :
      Ensures (fun _ ↦ True) (modify f : Act CppException _ PUnit) (fun _ _ ↦ True)
        (fun _ _ ↦ True) := Ensures.modify fun _ _ ↦ trivial
  unfold upload
  dsimp only
  apply Ensures.bind (hmodify _)
  intro _
  apply Ensures.ite
  · intro _
    apply Ensures.bind (hmodify _)
    intro _
    apply Ensures.bind (hmodify _)
    intro _
    apply Ensures.bind (Q := fun _ _ ↦ True)
    · intro _ _ _ _ ht
      cases ht
      trivial
    intro k
    apply Ensures.bind (memcpyAsync_queued _ _ _ _ _ _)
    intro _
    exact Ensures.pure fun _ hroom ↦ hroom
  · intro _
    exact Ensures.undefined

/-- The memory once the kernel of a launch, if there is one, has run. -/
def afterKernel (opts : CudaOptions F) (m : Contents F) : Option StreamOp → Contents F
  | some op => StreamOp.run opts.mean opts.stddev op m
  | none => m

omit [FloatOps F] in
/-- What a launch does does not depend on the engine. -/
theorem launchNormalizeOn_mirrors (data : PooledBuffer) (n c hw : Int) (launch : Option String) :
    Mirrors (launchNormalizeOn data n c hw mean stddev launch :
        Act CppException (CudaEngine F) (Option StreamOp))
      (launchNormalizeOn data n c hw mean stddev launch) := by
  unfold launchNormalizeOn
  apply Mirrors.ite fun _ ↦ Mirrors.throw _
  intro _
  apply Mirrors.ite fun _ ↦ Mirrors.pure _
  intro _
  apply Mirrors.ite fun _ ↦ Mirrors.throw _
  intro _
  apply Mirrors.ite fun _ ↦ Mirrors.throw _
  intro _
  apply Mirrors.ite fun _ ↦ Mirrors.undefined
  intro _
  apply Mirrors.bind _ fun _ ↦ Mirrors.pure _
  cases launch with
  | some message => exact Mirrors.throw _
  | none => exact Mirrors.pure _

/-- `launch_normalize` throws for these arguments and launches nothing. -/
def Refuses (data : PooledBuffer) (mean stddev : List F) (n c hw : Int) : Prop :=
  n < 0 ∨ c < 0 ∨ hw < 0 ∨
    n ≠ 0 ∧ (c = 0 ∨ hw = 0 ∨ data.ptr = 0 ∨ mean = [] ∨ stddev = [])

/-- The kernel of an accepted launch, if there is one, stays inside its block. -/
def InBlock (data : PooledBuffer) (n c hw : Int) : Prop :=
  n = 0 ∨ n.toNat * c.toNat * hw.toNat < 2 ^ 63 ∧
    n.toNat * c.toNat * hw.toNat ≤ data.capacity / 4

section Launch

variable {data : PooledBuffer} {n c hw : Int} {launch : Option String} {σ : Type}

omit [FloatOps F] in
/-- A launch that is refused, or that reports an error, throws. -/
theorem launchNormalizeOn_throws
    (h : Refuses data mean stddev n c hw ∨ InBlock data n c hw ∧ n ≠ 0 ∧ launch ≠ none) (s : σ) :
    ∃ ex, (launchNormalizeOn data n c hw mean stddev launch).outcome s = some (.error ex, s) := by
  unfold launchNormalizeOn
  by_cases hneg : n < 0 ∨ c < 0 ∨ hw < 0
  · rw [if_pos hneg]
    exact ⟨_, rfl⟩
  have hn : n ≠ 0 := by
    rcases h with h | h
    · unfold Refuses at h
      tauto
    · exact h.2.1
  rw [if_neg hneg, if_neg hn]
  by_cases hflat : c = 0 ∨ hw = 0
  · rw [if_pos hflat]
    exact ⟨_, rfl⟩
  rw [if_neg hflat]
  by_cases hnull : data.ptr = 0 ∨ mean = [] ∨ stddev = []
  · rw [if_pos hnull]
    exact ⟨_, rfl⟩
  rw [if_neg hnull]
  rcases h with h | ⟨hin, -, hlaunch⟩
  · unfold Refuses at h
    tauto
  · have hroom := hin.resolve_left hn
    dsimp only
    rw [if_neg (by omega)]
    cases launch with
    | none => exact absurd rfl hlaunch
    | some message => exact ⟨_, rfl⟩

omit [FloatOps F] in
/-- Any other launch inside its block returns. -/
theorem launchNormalizeOn_returns (hr : ¬Refuses data mean stddev n c hw)
    (hin : InBlock data n c hw) (hlaunch : n = 0 ∨ launch = none) (s : σ) :
    ∃ kernel, (launchNormalizeOn data n c hw mean stddev launch).outcome s =
      some (.ok kernel, s) := by
  unfold Refuses at hr
  unfold launchNormalizeOn
  rw [if_neg (by tauto)]
  by_cases hn : n = 0
  · rw [if_pos hn]
    exact ⟨_, rfl⟩
  have hroom := hin.resolve_left hn
  rw [if_neg hn, if_neg (by tauto), if_neg (by tauto), hlaunch.resolve_left hn]
  dsimp only
  rw [if_neg (by omega)]
  exact ⟨_, rfl⟩

omit [FloatOps F] in
/-- A kernel that would leave its block has no outcome. -/
theorem launchNormalizeOn_undefined (hr : ¬Refuses data mean stddev n c hw)
    (hout : ¬InBlock data n c hw) (s : σ) :
    (launchNormalizeOn data n c hw mean stddev launch).outcome s = none := by
  unfold Refuses at hr
  unfold InBlock at hout
  have hn : n ≠ 0 := by tauto
  unfold launchNormalizeOn
  rw [if_neg (by tauto), if_neg hn, if_neg (by tauto), if_neg (by tauto)]
  dsimp only
  rw [if_pos (by omega)]
  rfl

end Launch

omit [FloatOps F] in
/-- What a launch that ends says about its arguments. -/
theorem launchNormalizeOn_ensures (P : CudaEngine F → Prop) (data : PooledBuffer) (n c hw : Int)
    (launch : Option String) :
    Ensures P (launchNormalizeOn data n c hw mean stddev launch)
      (fun kernel e ↦ P e ∧ InBlock data n c hw ∧
        (launchNormalizeOn data n c hw mean stddev launch).outcome () = some (.ok kernel, ()))
      (fun _ e ↦ P e ∧
        (Refuses data mean stddev n c hw ∨ InBlock data n c hw ∧ n ≠ 0 ∧ launch ≠ none)) := by
  intro e r t he ht
  by_cases hfails : Refuses data mean stddev n c hw ∨ InBlock data n c hw ∧ n ≠ 0 ∧ launch ≠ none
  · obtain ⟨ex, hex⟩ := launchNormalizeOn_throws hfails e
    rw [hex] at ht
    cases ht
    exact ⟨he, hfails⟩
  · have hr : ¬Refuses data mean stddev n c hw := fun h ↦ hfails (.inl h)
    by_cases hin : InBlock data n c hw
    · have hlaunch : n = 0 ∨ launch = none := by tauto
      obtain ⟨kernel, hkernel⟩ := launchNormalizeOn_returns hr hin hlaunch ()
      rw [launchNormalizeOn_mirrors data n c hw launch e, hkernel] at ht
      cases ht
      exact ⟨he, hin, hkernel⟩
    · rw [launchNormalizeOn_undefined hr hin] at ht
      cases ht

/-- What makes a call throw once its upload is queued: the launch is refused for its dimensions,
cast to `int`, or the launch, the download or the synchronization reports an error. -/
def FailsLate (opts : CudaOptions F) (env : CudaEnv) (device : PooledBuffer) (batchSize hw : Nat) :
    Prop :=
  Refuses device opts.mean opts.stddev (toInt32 batchSize) (toInt32 opts.mean.length)
      (toInt32 hw) ∨
    InBlock device (toInt32 batchSize) (toInt32 opts.mean.length) (toInt32 hw) ∧
      (toInt32 batchSize ≠ 0 ∧ env.launch ≠ none ∨ env.download ≠ none ∨ env.synchronize ≠ none)

/-- A round trip that gets to its end leaves nothing in flight; what stops it is a late failure. -/
theorem finish_ensures (env : CudaEnv) (input : FloatVec F) (batchSize hw : Nat) :
    Ensures (Flying opts k m)
      (finish env input batchSize hw staging device k)
      (fun _ e ↦ ∃ kernel, (launchNormalizeOn device (toInt32 batchSize) (toInt32 opts.mean.length)
          (toInt32 hw) opts.mean opts.stddev env.launch).outcome () = some (.ok kernel, ()) ∧
        Calm opts (StreamOp.run opts.mean opts.stddev
          (.copy staging.ptr device.ptr (floatBytes input.size)) (afterKernel opts m kernel)) e)
      (fun _ _ ↦ FailsLate opts env device batchSize hw) := by
  have hadvance {m : Contents F} (ks : List Nat) :
      Ensures (Flying opts k m) (modify fun e ↦ e.advance ks : Act CppException _ PUnit)
        (fun _ ↦ Flying opts k m) (fun _ _ ↦ FailsLate opts env device batchSize hw) :=
    Ensures.modify fun e he ↦ he.advance ks
  have henqueue {m : Contents F} (op : StreamOp) :
      Ensures (Flying opts k m) (enqueue k op)
        (fun _ ↦ Flying opts k (StreamOp.run opts.mean opts.stddev op m))
        (fun _ _ ↦ FailsLate opts env device batchSize hw) := by
    apply Ensures.modify
    intro e he
    refine ⟨⟨he.safe.handedOut, he.safe.returned⟩, he.options, he.deviceMean,
          he.deviceStddev, ?_, ?_⟩
    · change k < (e.device.enqueue k _).queues.length
      rw [Streams.length_enqueue]
      exact he.stream
    · exact he.settles.enqueue he.stream op
  unfold finish
  apply Ensures.get_bind
  intro e₀ he₀
  rw [he₀.options, he₀.deviceMean, he₀.deviceStddev]
  apply Ensures.bind (hadvance _)
  intro _
  apply Ensures.bind_of ((launchNormalizeOn_ensures (Flying opts k m) device _ _ _
    env.launch).conseq (fun _ he ↦ he) (fun _ _ he ↦ he) fun _ _ he ↦
      he.2.imp_right fun h ↦ ⟨h.1, .inl h.2⟩)
  rintro kernel ⟨hin, hkernel⟩
  apply Ensures.bind (Q := fun _ ↦ Flying opts k (afterKernel opts m kernel))
  · cases kernel with
    | some op => exact henqueue op
    | none => exact Ensures.pure fun _ he ↦ he
  intro _
  apply Ensures.bind (hadvance _)
  intro _
  apply Ensures.bind (Q := fun _ ↦ Flying opts k (StreamOp.run opts.mean opts.stddev
    (.copy staging.ptr device.ptr (floatBytes input.size)) (afterKernel opts m kernel)))
  · unfold memcpyAsync
    apply Ensures.bind (cudaCheck_spec env.download _ fun _ _ hst _ ↦
      .inr ⟨hin, .inr (.inl hst)⟩).ensures
    intro _
    apply Ensures.ite
    · intro _
      exact henqueue _
    · intro _
      exact Ensures.undefined
  intro _
  apply Ensures.bind (hadvance _)
  intro _
  unfold streamSynchronize
  apply Ensures.bind (cudaCheck_spec env.synchronize _ fun _ _ hst _ ↦
    .inr ⟨hin, .inr (.inr hst)⟩).ensures
  intro _
  apply Ensures.modify
  intro e he
  have hdrain := he.settles.drain
  refine ⟨kernel, hkernel, ?_⟩
  rw [he.deviceMean, he.deviceStddev]
  refine ⟨⟨he.safe.handedOut, he.safe.returned⟩, he.options, rfl, rfl, ?_, hdrain.1, hdrain.2⟩
  change 0 < (e.device.drain _ k).queues.length
  rw [Streams.length_drain]
  exact Nat.zero_lt_of_lt he.stream

/-! ### Calls -/

/-- The call throws when its upload is queued already: it passes its checks, gets its two blocks and
copies its batch to the device, and then fails. -/
def FailsAfterUpload (e : CudaEngine F) (c : CudaCall F) : Prop :=
  ∃ staging device s, Holds c e staging device s ∧ c.env.upload = none ∧
    bytes c ≤ staging.capacity ∧ bytes c ≤ device.capacity ∧
    FailsLate e.options c.env device c.batchSize (c.inputElems / e.options.mean.length)

theorem Holds.calm (h : Holds c e staging device s) (he : Calm opts m e) :
    Calm opts m s := by
  obtain ⟨q, hq, hs⟩ := h.acquired
  rw [he.advance] at hq
  have hcalm := he.acquire hq
  rw [hcalm.advance] at hs
  exact hcalm.acquire hs

/-- A call that does not fail after its upload leaves nothing in flight. -/
theorem Course.calm {r : Except CppException (FloatVec F)} (h : Course c e r t)
    (he : Calm opts m e) (hclean : ¬FailsAfterUpload e c) :
    ∃ m, Calm opts m t := by
  cases h with
  | refused => exact ⟨m, he⟩
  | noStaging hs =>
    rw [he.advance] at hs
    exact ⟨m, he.acquire hs⟩
  | noDevice hm hs =>
    rw [he.advance] at hm
    have hcalm := he.acquire hm
    rw [hcalm.advance] at hs
    have hcalm' := hcalm.acquire hs
    rw [hcalm'.advance]
    exact ⟨m, hcalm'.giveBack _⟩
  | noUpload hs ht =>
    obtain ⟨m', hcalm⟩ := upload_ensures _ _ _ _ _ _ _ (hs.calm he) ht
    exact ⟨m', hcalm.returnBlocks c _ _⟩
  | unfinished hs ht hu =>
    obtain ⟨hup, hdevice, hstaging⟩ := upload_queued _ _ _ _ _ _ _ trivial ht
    have hfails := finish_ensures _ _ _ _ _ _ _ (upload_ensures _ _ _ _ _ _ _ (hs.calm he) ht) hu
    rw [← he.options] at hfails
    exact absurd ⟨_, _, _, hs, hup, hstaging, hdevice, hfails⟩ hclean
  | finished hs ht hu =>
    have hflying := upload_ensures _ _ _ _ _ _ _ (hs.calm he) ht
    obtain ⟨kernel, -, hcalm⟩ := finish_ensures _ _ _ _ _ _ _ hflying hu
    exact ⟨_, hcalm.returnBlocks c _ _⟩

/-- A call that holds its blocks makes the round trip and returns them. -/
theorem Holds.outcome (h : Holds c e staging device s) :
    (runInference c.env c.batchedInput c.batchSize c.inputElems c.outputElems).outcome e =
      ((roundTrip c.env c.batchedInput c.batchSize c.inputElems c.outputElems
        (c.inputElems / e.options.mean.length) staging device).outcome s).map fun r ↦
          (r.1, returnBlocks c staging device r.2) := by
  obtain ⟨m, hm, hs⟩ := h.acquired
  unfold runInference
  rw [outcome_bind_ok (outcome_get e), if_neg (not_not.mpr h.size), if_neg h.batch]
  dsimp only
  rw [if_neg h.rows]
  unfold withBlock
  rw [outcome_bind_ok (outcome_modify _ e), outcome_bind_ok hm, outcome_ensuring,
    outcome_bind_ok (outcome_modify _ m), outcome_bind_ok hs, outcome_ensuring, Option.map_map]
  rfl

theorem call_course (h : e.call c = some t) : ∃ r, Course c e r t := by
  obtain ⟨⟨r, t'⟩, hout, rfl⟩ := Option.map_eq_some_iff.mp h
  exact ⟨r, runInference_course hout⟩

/-! ### What is left in flight -/

theorem upload_pending (env : CudaEnv) (input : FloatVec F) (staging device : PooledBuffer) :
    Ensures (fun e ↦ 0 < e.device.queues.length) (upload env input staging device)
      (fun _ e ↦ .copy device.ptr staging.ptr (floatBytes input.size) ∈ e.device.pending)
      (fun _ _ ↦ True) := by
  have hadvance (ks : List Nat) :
      Ensures (fun e : CudaEngine F ↦ 0 < e.device.queues.length)
        (modify fun e ↦ e.advance ks : Act CppException _ PUnit)
        (fun _ e ↦ 0 < e.device.queues.length) (fun _ _ ↦ True) := by
    apply Ensures.modify
    intro e he
    rwa [advance, Streams.length_progress]
  unfold upload
  dsimp only
  apply Ensures.bind (hadvance _)
  intro _
  apply Ensures.ite
  · intro _
    apply Ensures.bind (Q := fun _ e ↦ 0 < e.device.queues.length)
    · exact Ensures.modify fun _ he ↦ he
    intro _
    apply Ensures.bind (hadvance _)
    intro _
    apply Ensures.bind (Q := fun k e ↦ k < e.device.queues.length)
    · intro e r t he ht
      cases ht
      exact Nat.mod_lt _ he
    intro k
    apply Ensures.bind (Q := fun _ e ↦
      .copy device.ptr staging.ptr (floatBytes input.size) ∈ e.device.pending)
    · unfold memcpyAsync
      apply Ensures.bind (cudaCheck_spec env.upload _ fun _ _ _ _ ↦ trivial).ensures
      intro _
      apply Ensures.ite
      · intro _
        exact Ensures.modify fun e he ↦ Streams.mem_pending_enqueue _ he
      · intro _
        exact Ensures.undefined
    intro _
    exact Ensures.pure fun _ he ↦ he
  · intro _
    exact Ensures.undefined

/-- As long as nothing completes, what is in flight stays so until the synchronization. -/
theorem finish_pending (env : CudaEnv) (hprogress : ∀ step, env.progress step = [])
    (input : FloatVec F) (batchSize hw : Nat) (op : StreamOp) :
    Ensures (fun e ↦ op ∈ e.device.pending) (finish env input batchSize hw staging device k)
      (fun _ _ ↦ True) (fun _ e ↦ op ∈ e.device.pending) := by
  have hadvance (step : HostStep) :
      Ensures (fun e : CudaEngine F ↦ op ∈ e.device.pending)
        (modify fun e ↦ e.advance (env.progress step) : Act CppException _ PUnit)
        (fun _ e ↦ op ∈ e.device.pending) (fun _ e ↦ op ∈ e.device.pending) := by
    apply Ensures.modify
    intro e he
    rw [hprogress]
    exact he
  have henqueue (op' : StreamOp) :
      Ensures (fun e : CudaEngine F ↦ op ∈ e.device.pending) (enqueue k op')
        (fun _ e ↦ op ∈ e.device.pending) (fun _ e ↦ op ∈ e.device.pending) :=
    Ensures.modify fun e he ↦ Streams.pending_subset_enqueue op' he
  unfold finish
  apply Ensures.get_bind
  intro e₀ _
  apply Ensures.bind (hadvance _)
  intro _
  apply Ensures.bind_of ((launchNormalizeOn_ensures (fun e ↦ op ∈ e.device.pending) device _ _ _
    env.launch).conseq (fun _ he ↦ he) (fun _ _ he ↦ he) fun _ _ he ↦ he.1)
  intro kernel _
  apply Ensures.bind (Q := fun _ e ↦ op ∈ e.device.pending)
  · cases kernel with
    | some op' => exact henqueue op'
    | none => exact Ensures.pure fun _ he ↦ he
  intro _
  apply Ensures.bind (hadvance _)
  intro _
  apply Ensures.bind (Q := fun _ e ↦ op ∈ e.device.pending)
  · unfold memcpyAsync
    apply Ensures.bind (cudaCheck_spec env.download _ fun _ _ _ he ↦ he).ensures
    intro _
    apply Ensures.ite
    · intro _
      exact henqueue _
    · intro _
      exact Ensures.undefined
  intro _
  apply Ensures.bind (hadvance _)
  intro _
  unfold streamSynchronize
  apply Ensures.bind (cudaCheck_spec env.synchronize _ fun _ _ _ he ↦ he).ensures
  intro _
  exact Ensures.modify fun _ _ ↦ trivial

/-- A late failure stops the round trip. -/
theorem FailsLate.finish {env : CudaEnv} {input : FloatVec F} {batchSize hw : Nat}
    (h : FailsLate opts env device batchSize hw) (hs : Flying opts k m s)
    (hstaging : floatBytes input.size ≤ staging.capacity)
    (hdevice : floatBytes input.size ≤ device.capacity) :
    ∃ ex t, (CudaEngine.finish env input batchSize hw staging device k).outcome s =
      some (.error ex, t) := by
  unfold CudaEngine.finish
  rw [outcome_bind_ok (outcome_get s), outcome_bind_ok (outcome_modify _ _), hs.options,
    hs.deviceMean, hs.deviceStddev]
  by_cases hthrows : Refuses device opts.mean opts.stddev (toInt32 batchSize)
      (toInt32 opts.mean.length) (toInt32 hw) ∨
    InBlock device (toInt32 batchSize) (toInt32 opts.mean.length) (toInt32 hw) ∧
      toInt32 batchSize ≠ 0 ∧ env.launch ≠ none
  · obtain ⟨ex, hex⟩ := launchNormalizeOn_throws hthrows (s.advance (env.progress .launch))
    exact ⟨ex, _, outcome_bind_error hex⟩
  · unfold FailsLate at h
    have hr : ¬Refuses device opts.mean opts.stddev (toInt32 batchSize)
        (toInt32 opts.mean.length) (toInt32 hw) := fun h ↦ hthrows (.inl h)
    obtain ⟨hin, hstatus⟩ := h.resolve_left hr
    have hlaunch : toInt32 batchSize = 0 ∨ env.launch = none := by tauto
    obtain ⟨kernel, hkernel⟩ := launchNormalizeOn_returns hr hin hlaunch
      (s.advance (env.progress .launch))
    rw [outcome_bind_ok hkernel]
    have hqueued : ∃ t, (enqueueKernel k kernel).outcome (s.advance (env.progress .launch)) =
        some (.ok (), t) := by
      cases kernel with
      | some op => exact ⟨_, rfl⟩
      | none => exact ⟨_, rfl⟩
    obtain ⟨t, ht⟩ := hqueued
    rw [outcome_bind_ok ht, outcome_bind_ok (outcome_modify _ _)]
    cases hdown : env.download with
    | some message => exact ⟨_, _, rfl⟩
    | none =>
      rw [memcpyAsync_of_fits hstaging hdevice]
      cases hsync : env.synchronize with
      | some message => exact ⟨_, _, rfl⟩
      | none =>
        rw [hdown, hsync] at hstatus
        tauto

/-- A call that fails after its upload throws, and returns its blocks as they are then. -/
theorem FailsAfterUpload.outcome (h : FailsAfterUpload e c) (he : Calm opts m e) :
    ∃ staging device stream ex s t u, Holds c e staging device s ∧
      (uploadOf c staging device).outcome s = some (.ok stream, t) ∧
      (finishOf c e staging device stream).outcome t = some (.error ex, u) ∧
      (runInference c.env c.batchedInput c.batchSize c.inputElems c.outputElems).outcome e =
        some (.error ex, returnBlocks c staging device u) := by
  obtain ⟨staging, device, s, hs, hup, hstaging, hdevice, hfails⟩ := h
  obtain ⟨stream, t, ht⟩ := exists_upload hup hstaging hdevice s
  have hflying := upload_ensures _ _ _ _ _ _ _ (hs.calm he) ht
  rw [he.options] at hfails
  obtain ⟨ex, u, hu⟩ := hfails.finish hflying hstaging hdevice
  rw [← he.options] at hu
  refine ⟨staging, device, stream, ex, s, t, u, hs, ht, hu, ?_⟩
  rw [hs.outcome, roundTrip, outcome_bind_ok ht, outcome_bind_error hu]
  rfl

/-- With nothing completing meanwhile such a call returns a busy block. -/
theorem FailsAfterUpload.not_idle (h : FailsAfterUpload e c) (he : Calm opts m e)
    (hprogress : ∀ step, c.env.progress step = []) :
    ∃ t, e.call c = some t ∧ ¬Idle t.returned := by
  obtain ⟨staging, device, stream, ex, s, t, u, hs, ht, hu, hout⟩ := h.outcome he
  refine ⟨returnBlocks c staging device u, ?_, ?_⟩
  · rw [call, hout]
    rfl
  · have hup := upload_pending _ _ _ _ _ _ _ (hs.calm he).streams ht
    have hleft := finish_pending _ hprogress _ _ _ _ _ _ _ hup hu
    intro hidle
    have hmem : (device, u.device.pending) ∈ (returnBlocks c staging device u).returned := by
      unfold returnBlocks
      rw [hprogress, hprogress]
      exact List.mem_append_left _ (List.mem_append_right _ (List.mem_singleton.mpr rfl))
    have htouch := hidle _ hmem _ hleft
    simp [StreamOp.touches] at htouch

/-- A call that returns did not fail. -/
theorem not_failsAfterUpload (he : Calm opts m e) {v : FloatVec F}
    (h : (runInference c.env c.batchedInput c.batchSize c.inputElems c.outputElems).value e =
      some v) : ¬FailsAfterUpload e c := by
  intro hfails
  obtain ⟨_, _, _, ex, _, _, _, _, _, _, hout⟩ := hfails.outcome he
  obtain ⟨t, ht⟩ := value_eq_some.mp h
  rw [hout] at ht
  cases ht

/-! ### Construction -/

/-- The engine the constructor returns. -/
def built (p : CudaPlatform F) (opts : CudaOptions F) : CudaEngine F where
  options := opts
  device := ⟨List.replicate opts.streamCount [], p.fresh⟩
  deviceMean := opts.mean
  deviceStddev := opts.stddev

omit [FloatOps F] in
theorem createStreams_ensures (p : CudaPlatform F) (opts : CudaOptions F) (n : Nat) :
    Ensures (fun e ↦ e = { options := opts, device := ⟨[], p.fresh⟩ }) (createStreams p n)
      (fun _ e ↦ e = { options := opts, device := ⟨List.replicate n [], p.fresh⟩ })
      (fun _ _ ↦ True) := by
  induction n with
  | zero => exact Ensures.pure fun _ he ↦ he
  | succ n ih =>
    unfold createStreams
    apply Ensures.bind ih
    intro _
    apply Ensures.bind (cudaCheck_spec (p.createStream n) _ fun _ _ _ _ ↦ trivial).ensures
    intro _
    apply Ensures.modify
    rintro e rfl
    rw [List.replicate_succ']

/-- What the constructor checks. -/
structure Accepted (opts : CudaOptions F) : Prop where
  streams : 0 < opts.streamCount
  channels : opts.mean ≠ []
  lengths : opts.mean.length = opts.stddev.length

theorem construct_ensures (p : CudaPlatform F) (opts : CudaOptions F) :
    Ensures (fun e ↦ e = { options := opts, device := ⟨[], p.fresh⟩ }) (construct p)
      (fun _ e ↦ e = built p opts ∧ Accepted opts) (fun _ _ ↦ True) := by
  unfold construct
  apply Ensures.get_bind
  rintro e₀ rfl
  dsimp only
  apply Ensures.bind_of (Ensures.throwIf fun _ _ _ ↦ trivial)
  intro _ hstreams
  apply Ensures.bind (cudaCheck_spec p.setDevice _ fun _ _ _ _ ↦ trivial).ensures
  intro _
  apply Ensures.bind (createStreams_ensures p opts _)
  intro _
  have hconstants (status : Option String) (n : Nat) (P : CudaEngine F → Prop) :
      Ensures P (allocateConstants status n) (fun _ ↦ P) (fun _ _ ↦ True) := by
    apply Ensures.runIf
    · intro _
      exact (cudaCheck_spec status _ fun _ _ _ _ ↦ trivial).ensures
    · exact fun _ _ he ↦ he
  apply Ensures.bind (hconstants _ _ _)
  intro _
  apply Ensures.bind (hconstants _ _ _)
  intro _
  apply Ensures.bind_of (Ensures.throwIf fun _ _ _ ↦ trivial)
  intro _ hchannels
  apply Ensures.bind_of (Ensures.throwIf fun _ _ _ ↦ trivial)
  intro _ hlengths
  apply Ensures.bind_of (Ensures.throwIf fun _ _ _ ↦ trivial)
  intro _ _
  apply Ensures.bind (cudaCheck_spec p.copyMean _ fun _ _ _ _ ↦ trivial).ensures
  intro _
  apply Ensures.bind (Q := fun _ e ↦ e = { built p opts with deviceStddev := [] })
  · apply Ensures.modify
    rintro e rfl
    rfl
  intro _
  apply Ensures.bind (cudaCheck_spec p.copyStddev _ fun _ _ _ _ ↦ trivial).ensures
  intro _
  apply Ensures.modify
  rintro e rfl
  refine ⟨rfl, Nat.pos_of_ne_zero hstreams, ?_, not_not.mp hlengths⟩
  simpa using hchannels

variable {p : CudaPlatform F} {e₀ : CudaEngine F} {cs : List (CudaCall F)}

theorem Constructed.eq_built (hc : Constructed p opts e) : e = built p opts ∧ Accepted opts :=
  construct_ensures p opts _ _ _ rfl hc

theorem Constructed.calm (hc : Constructed p opts e) : Calm opts p.fresh e := by
  obtain ⟨rfl, hopts⟩ := hc.eq_built
  refine ⟨⟨fun x hx ↦ absurd hx List.not_mem_nil, fun x hx ↦ absurd hx List.not_mem_nil⟩, rfl, rfl,
    rfl, ?_, ?_, rfl⟩
  · change 0 < (List.replicate opts.streamCount _).length
    rw [List.length_replicate]
    exact hopts.streams
  · intro j
    change (List.replicate opts.streamCount _)[j]?.getD [] = []
    rw [List.getElem?_replicate]
    split
    · rfl
    · rfl

theorem calm_exec (hc : Constructed p opts e₀) (hr : exec call e₀ cs = some e)
    (hclean : Along call (fun e c ↦ ¬FailsAfterUpload e c) e₀ cs) :
    ∃ m, Calm opts m e := by
  refine exec_preserves_along (P := fun e ↦ ∃ m, Calm opts m e) ?_ hr hclean
    ⟨_, hc.calm⟩
  rintro s c t hcall ⟨m, hs⟩ ht
  obtain ⟨r, hcourse⟩ := call_course ht
  exact hcourse.calm hs hcall

/-- Blocks are returned and handed out idle in every run without a call that fails after its
upload was queued, and nothing is in flight between the calls. Such a call returns its device
block while the copy is in flight, unless that completes by itself in time. -/
theorem blocks_return_idle (hc : Constructed p opts e₀) (hr : exec call e₀ cs = some e)
    (hclean : Along call (fun e c ↦ ¬FailsAfterUpload e c) e₀ cs) :
    Idle e.returned ∧ Idle e.handedOut ∧ e.device.pending = [] ∧
      ∀ c, FailsAfterUpload e c → (∀ step, c.env.progress step = []) →
        ∃ t, e.call c = some t ∧ ¬Idle t.returned := by
  obtain ⟨m, hcalm⟩ := calm_exec hc hr hclean
  exact ⟨hcalm.safe.returned, hcalm.safe.handedOut, hcalm.quiet.pending_eq,
    fun c hfails hprogress ↦ hfails.not_idle hcalm hprogress⟩

/-- One channel, two streams. -/
def monoOptions : CudaOptions Int where
  mean := [1]
  stddev := [2]

/-- Fresh memory holds zeros. -/
def zeroPlatform : CudaPlatform Int where
  fresh := fun _ _ ↦ 0

/-- A row of two floats; a block allocated for it lies at `ptr` or after. -/
def monoCall (ptr : Nat) (launch : Option String) : CudaCall Int where
  batchedInput := ⟨[5, 7], by decide⟩
  batchSize := 1
  inputElems := 2
  outputElems := 2
  env := { pinned := { answer := .ok ptr }, device := { answer := .ok (ptr + 1) }, launch }

/-- The same row, whose upload fails. -/
def monoCallNoUpload (ptr : Nat) : CudaCall Int :=
  { monoCall ptr none with env := { (monoCall ptr none).env with upload := some "unknown error" } }

theorem constructed_mono : Constructed zeroPlatform monoOptions (built zeroPlatform monoOptions) :=
  rfl

/-- Two calls: the upload of the first one fails, and the second one gets its blocks and returns. -/
theorem blocks_return_idle_mono :
    ∃ e, Constructed zeroPlatform monoOptions (built zeroPlatform monoOptions) ∧
      exec call (built zeroPlatform monoOptions) [monoCallNoUpload 1, monoCall 3 none] = some e ∧
      e.returned.length = 4 ∧ Idle e.returned ∧ Idle e.handedOut ∧ e.device.pending = [] := by
  have hfacts : (exec call (built zeroPlatform monoOptions)
      [monoCallNoUpload 1, monoCall 3 none]).map (·.returned.length) = some 4 := by decide +kernel
  obtain ⟨e, he, hlen⟩ := Option.map_eq_some_iff.mp hfacts
  have hfirst : ¬FailsAfterUpload (built zeroPlatform monoOptions) (monoCallNoUpload 1) := by
    rintro ⟨_, _, _, _, hup, _⟩
    cases hup
  have hvalue : (((built zeroPlatform monoOptions).call (monoCallNoUpload 1)).bind fun s ↦
      (runInference (monoCall 3 none).env (monoCall 3 none).batchedInput 1 2 2).value s).map
        (·.toList) = some [2, 3] := by decide +kernel
  have hclean : Along call (fun e c ↦ ¬FailsAfterUpload e c) (built zeroPlatform monoOptions)
      [monoCallNoUpload 1, monoCall 3 none] := by
    refine ⟨hfirst, fun s hs ↦ ⟨?_, fun _ _ ↦ trivial⟩⟩
    obtain ⟨r, hcourse⟩ := call_course hs
    obtain ⟨m, hcalm⟩ := hcourse.calm constructed_mono.calm hfirst
    rw [hs, Option.bind_some] at hvalue
    obtain ⟨v, hv, -⟩ := Option.map_eq_some_iff.mp hvalue
    exact not_failsAfterUpload hcalm hv
  obtain ⟨hreturned, hhanded, hpending, -⟩ := blocks_return_idle constructed_mono he hclean
  exact ⟨e, constructed_mono, he, hlen, hreturned, hhanded, hpending⟩

/-- The launch of the first call fails while its upload is in flight. Its blocks go back to the
pool, the next call gets them, and the upload on the first stream still writes to one. -/
theorem failed_launch_returns_busy_block :
    ∃ e, Constructed zeroPlatform monoOptions (built zeroPlatform monoOptions) ∧
      exec call (built zeroPlatform monoOptions)
        [monoCall 1 (some "invalid configuration"), monoCall 3 none] = some e ∧
      (∃ x ∈ e.returned, ∃ op ∈ x.2, op.touches x.1.ptr = true) ∧
      ∃ x ∈ e.handedOut, ∃ op ∈ x.2, op.touches x.1.ptr = true := by
  have hfacts : (exec call (built zeroPlatform monoOptions)
      [monoCall 1 (some "invalid configuration"), monoCall 3 none]).map (fun e ↦
        (e.returned.any fun x ↦ x.2.any fun op ↦ op.touches x.1.ptr,
          e.handedOut.any fun x ↦ x.2.any fun op ↦ op.touches x.1.ptr)) = some (true, true) := by
    decide +kernel
  obtain ⟨e, he, hany⟩ := Option.map_eq_some_iff.mp hfacts
  simp only [Prod.mk.injEq, List.any_eq_true] at hany
  exact ⟨e, constructed_mono, he, hany.1, hany.2⟩

end InferenceServer.Engine.CudaEngine
