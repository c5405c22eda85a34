import InferenceServer.Server.Deployment

/-!
# Settings from the environment

Library `Server`. `python/cuda_db/config.py:19–125`. The dataclass is frozen and its
`__post_init__` raises, so that every `RuntimeSettings` there is passed the checks. What `int`,
`repr`, `strip` and `lower` make of a text is left open, but `int` reads what `str` writes.
-/

namespace InferenceServer.Server

/-- `os.environ`. -/
abbrev Environ := String → Option String

/-- `env[name] = value`. -/
def Environ.set (env : Environ) (name value : String) : Environ :=
  fun other ↦ if other = name then some value else env other

theorem Environ.set_ne (env : Environ) {name other : String} (value : String)
    (h : other ≠ name) : env.set name value other = env other := if_neg h

/-- The text functions of Python that `config.py` calls. -/
structure PyText where
  /-- `int(raw)`, where `none` is a `ValueError` -/
  int : String → Option Int
  /-- `repr(raw)` -/
  repr : String → String
  /-- `raw.strip().lower()` -/
  normalized : String → String
  int_str : ∀ n : Int, int n.repr = some n

/-- A variable that is unset or empty leaves the default; any other text is read. -/
def envVar {α : Type} (read : String → Except String α) (env : Environ) (name : String)
    (default : α) : Except String α :=
  match env name with
  | none => .ok default
  | some raw => if raw = "" then .ok default else read raw

/-- `_env_int`, `config.py:19–26`. -/
def envInt (py : PyText) (env : Environ) (name : String) (default : Int) : Except String Int :=
  envVar
    (fun raw ↦
      match py.int raw with
      | some n => .ok n
      | none =>
        let got := py.repr raw
        .error s!"{name} must be an integer, got {got}")
    env name default

/-- `_env_str`, `config.py:29–33`. -/
def envStr (env : Environ) (name : String) (default : String) : Except String String :=
  envVar .ok env name default

/-- `_env_bool`, `config.py:36–47`. -/
def envBool (py : PyText) (env : Environ) (name : String) (default : Bool) :
    Except String Bool :=
  envVar
    (fun raw ↦
      let normalized := py.normalized raw
      if normalized ∈ ["1", "true", "yes", "on"] then .ok true
      else if normalized ∈ ["0", "false", "no", "off"] then .ok false
      else
        let got := py.repr raw
        .error s!"{name} must be one of true/false, 1/0, yes/no, or on/off, got {got}")
    env name default

/-- The arguments of `RuntimeSettings`, with their defaults, `config.py:51–80`. -/
structure RuntimeArgs where
  maxBatchSize : Int := 8
  maxWaitMs : Int := 5
  inputElems : Int := 3 * 224 * 224
  outputElems : Int := 1000
  executorWorkers : Int := 8
  modelPath : String := ""
  requestTimeoutMs : Int := 30000
  maxInflightRequests : Int := 16
  maxRequestBytes : Int := 4 * 1024 * 1024
  requireGpu : Bool := false
  requireAuth : Bool := false
  apiKeysFile : String := ""
  deploymentMode : Bool := false
  deriving DecidableEq, Repr

namespace RuntimeArgs

/-- `auth_required`, `config.py:104–107`. -/
def authRequired (a : RuntimeArgs) : Bool := a.requireAuth || a.deploymentMode

/-- `positive`, `config.py:83–91`. -/
def positive (a : RuntimeArgs) : List (String × Int) :=
  [("max_batch_size", a.maxBatchSize), ("input_elems", a.inputElems),
    ("output_elems", a.outputElems), ("executor_workers", a.executorWorkers),
    ("request_timeout_ms", a.requestTimeoutMs), ("max_inflight_requests", a.maxInflightRequests),
    ("max_request_bytes", a.maxRequestBytes)]

/-- The checks of `__post_init__` in their order, each with the message of its failure,
`config.py:92–102`. -/
def checks (a : RuntimeArgs) : List (Bool × String) :=
  a.positive.map (fun (name, value) ↦ (decide (1 ≤ value), s!"{name} must be >= 1, got {value}")) ++
    let wait := a.maxWaitMs
    [(decide (0 ≤ wait), s!"max_wait_ms must be >= 0, got {wait}"),
      (!(a.requireGpu && a.modelPath == ""), "require_gpu=true requires a non-empty model_path"),
      (!(a.authRequired && a.apiKeysFile == ""),
        "authentication requires a non-empty api_keys_file")]

/-- `__post_init__`, `config.py:82–102`. -/
def postInit (a : RuntimeArgs) : Except String Unit :=
  a.checks.forM fun (passed, message) ↦ if passed then .ok () else .error message

/-- What `__post_init__` lets through. -/
structure Valid (a : RuntimeArgs) : Prop where
  positive : ∀ x ∈ a.positive, 1 ≤ x.2
  maxWaitMs : 0 ≤ a.maxWaitMs
  modelPath : a.requireGpu = true → a.modelPath ≠ ""
  apiKeysFile : a.authRequired = true → a.apiKeysFile ≠ ""

end RuntimeArgs

/-- A loop of checks passes exactly if every check does. -/
theorem forM_eq_ok {α ε : Type} {f : α → Except ε Unit} {xs : List α} :
    xs.forM f = .ok () ↔ ∀ x ∈ xs, f x = .ok () := by
  induction xs with
  | nil => exact ⟨fun _ _ hx ↦ absurd hx List.not_mem_nil, fun _ ↦ rfl⟩
  | cons x xs ih =>
    rw [List.forall_mem_cons, ← ih]
    change (f x >>= fun _ ↦ xs.forM f) = _ ↔ _
    cases f x with
    | error e =>
      constructor
      · rintro ⟨⟩
      · rintro ⟨⟨⟩, -⟩
    | ok u => exact ⟨fun h ↦ ⟨rfl, h⟩, fun h ↦ h.2⟩

/-- `__post_init__` rejects nothing else. -/
theorem RuntimeArgs.postInit_eq_ok {a : RuntimeArgs} : a.postInit = .ok () ↔ a.Valid := by
  have hchecks : a.postInit = .ok () ↔ ∀ x ∈ a.checks, x.1 = true := by
    rw [postInit, forM_eq_ok]
    refine forall₂_congr fun ⟨passed, message⟩ _ ↦ ?_
    cases passed <;> simp
  rw [hchecks, checks, List.forall_mem_append, List.forall_mem_map]
  simp only [List.mem_cons, List.not_mem_nil, or_false, forall_eq_or_imp, forall_eq,
    decide_eq_true_eq, Bool.not_eq_true', Bool.and_eq_false_iff, beq_eq_false_iff_ne]
  constructor
  · rintro ⟨hpos, hwait, hgpu, hauth⟩
    refine ⟨hpos, hwait, fun h ↦ ?_, fun h ↦ ?_⟩
    · exact hgpu.resolve_left (by rw [h]; decide)
    · exact hauth.resolve_left (by rw [h]; decide)
  · intro h
    refine ⟨h.positive, h.maxWaitMs, ?_, ?_⟩
    · exact or_iff_not_imp_left.mpr fun hne ↦ h.modelPath (Bool.not_eq_false _ ▸ hne)
    · exact or_iff_not_imp_left.mpr fun hne ↦ h.apiKeysFile (Bool.not_eq_false _ ▸ hne)

/-- Settings that passed. -/
structure RuntimeSettings extends RuntimeArgs where
  valid : toRuntimeArgs.Valid

namespace RuntimeSettings

/-- `RuntimeSettings(...)`. -/
def new (a : RuntimeArgs) : Except String RuntimeSettings :=
  match h : a.postInit with
  | .ok () => .ok ⟨a, RuntimeArgs.postInit_eq_ok.mp h⟩
  | .error message => .error message

theorem new_eq_ok {a : RuntimeArgs} {s : RuntimeSettings} :
    new a = .ok s ↔ s.toRuntimeArgs = a := by
  unfold new
  split
  · rw [Except.ok.injEq]
    constructor
    · rintro rfl
      rfl
    · rintro rfl
      rfl
  · next h =>
    constructor
    · rintro ⟨⟩
    · rintro rfl
      rw [RuntimeArgs.postInit_eq_ok.mpr s.valid] at h
      cases h

/-- `from_env`, `config.py:109–125`. -/
def fromEnv (py : PyText) (env : Environ) : Except String RuntimeSettings := do
  let maxBatchSize ← envInt py env "CUDA_DB_MAX_BATCH_SIZE" 8
  let maxWaitMs ← envInt py env "CUDA_DB_MAX_WAIT_MS" 5
  let inputElems ← envInt py env "CUDA_DB_INPUT_ELEMS" (3 * 224 * 224)
  let outputElems ← envInt py env "CUDA_DB_OUTPUT_ELEMS" 1000
  let executorWorkers ← envInt py env "CUDA_DB_EXECUTOR_WORKERS" 8
  let modelPath ← envStr env "CUDA_DB_MODEL_PATH" ""
  let requestTimeoutMs ← envInt py env "CUDA_DB_REQUEST_TIMEOUT_MS" 30000
  let maxInflightRequests ← envInt py env "CUDA_DB_MAX_INFLIGHT_REQUESTS" 16
  let maxRequestBytes ← envInt py env "CUDA_DB_MAX_REQUEST_BYTES" (4 * 1024 * 1024)
  let requireGpu ← envBool py env "CUDA_DB_REQUIRE_GPU" false
  let requireAuth ← envBool py env "CUDA_DB_REQUIRE_AUTH" false
  let apiKeysFile ← envStr env "CUDA_DB_API_KEYS_FILE" ""
  let deploymentMode ← envBool py env "CUDA_DB_DEPLOYMENT_MODE" false
  new
    { maxBatchSize, maxWaitMs, inputElems, outputElems, executorWorkers, modelPath,
      requestTimeoutMs, maxInflightRequests, maxRequestBytes, requireGpu, requireAuth,
      apiKeysFile, deploymentMode }

/-- Each argument of `from_env` is read from its own variable. -/
structure Reads (py : PyText) (env : Environ) (a : RuntimeArgs) : Prop where
  maxBatchSize : envInt py env "CUDA_DB_MAX_BATCH_SIZE" 8 = .ok a.maxBatchSize
  maxWaitMs : envInt py env "CUDA_DB_MAX_WAIT_MS" 5 = .ok a.maxWaitMs
  inputElems : envInt py env "CUDA_DB_INPUT_ELEMS" (3 * 224 * 224) = .ok a.inputElems
  outputElems : envInt py env "CUDA_DB_OUTPUT_ELEMS" 1000 = .ok a.outputElems
  executorWorkers : envInt py env "CUDA_DB_EXECUTOR_WORKERS" 8 = .ok a.executorWorkers
  modelPath : envStr env "CUDA_DB_MODEL_PATH" "" = .ok a.modelPath
  requestTimeoutMs : envInt py env "CUDA_DB_REQUEST_TIMEOUT_MS" 30000 = .ok a.requestTimeoutMs
  maxInflightRequests :
    envInt py env "CUDA_DB_MAX_INFLIGHT_REQUESTS" 16 = .ok a.maxInflightRequests
  maxRequestBytes :
    envInt py env "CUDA_DB_MAX_REQUEST_BYTES" (4 * 1024 * 1024) = .ok a.maxRequestBytes
  requireGpu : envBool py env "CUDA_DB_REQUIRE_GPU" false = .ok a.requireGpu
  requireAuth : envBool py env "CUDA_DB_REQUIRE_AUTH" false = .ok a.requireAuth
  apiKeysFile : envStr env "CUDA_DB_API_KEYS_FILE" "" = .ok a.apiKeysFile
  deploymentMode : envBool py env "CUDA_DB_DEPLOYMENT_MODE" false = .ok a.deploymentMode

private theorem bind_eq_ok {α β : Type} {x : Except String α} {f : α → Except String β} {b : β} :
    (x >>= f) = .ok b ↔ ∃ a, x = .ok a ∧ f a = .ok b := by
  cases x with
  | error e =>
    constructor
    · rintro ⟨⟩
    · rintro ⟨_, ⟨⟩, -⟩
  | ok a =>
    constructor
    · exact fun h ↦ ⟨a, rfl, h⟩
    · rintro ⟨_, ⟨⟩, h⟩
      exact h

/-- `from_env` returns exactly the settings that the variables spell out and that are valid. -/
theorem fromEnv_eq_ok {py : PyText} {env : Environ} {s : RuntimeSettings} :
    fromEnv py env = .ok s ↔ Reads py env s.toRuntimeArgs := by
  simp only [fromEnv, bind_eq_ok, new_eq_ok]
  constructor
  · rintro ⟨_, h₁, _, h₂, _, h₃, _, h₄, _, h₅, _, h₆, _, h₇, _, h₈, _, h₉, _, h₁₀, _, h₁₁, _, h₁₂,
      _, h₁₃, h⟩
    rw [h]
    exact ⟨h₁, h₂, h₃, h₄, h₅, h₆, h₇, h₈, h₉, h₁₀, h₁₁, h₁₂, h₁₃⟩
  · intro h
    exact ⟨_, h.maxBatchSize, _, h.maxWaitMs, _, h.inputElems, _, h.outputElems, _,
      h.executorWorkers, _, h.modelPath, _, h.requestTimeoutMs, _, h.maxInflightRequests, _,
      h.maxRequestBytes, _, h.requireGpu, _, h.requireAuth, _, h.apiKeysFile, _,
      h.deploymentMode, rfl⟩

/-- The application that `create_app` makes of the settings, `app.py:37–147`. -/
def deployment {F : Type} (s : RuntimeSettings) (codec : Codec F) : DeploymentConfig F where
  inputElems := s.inputElems.toNat
  outputElems := s.outputElems.toNat
  executorWorkers := s.executorWorkers.toNat
  requestTimeoutMs := s.requestTimeoutMs.toNat
  maxInflightRequests := s.maxInflightRequests.toNat
  maxRequestBytes := s.maxRequestBytes.toNat
  requireGpu := s.requireGpu
  authRequired := s.authRequired
  toCodec := codec
  maxBatchSize := s.maxBatchSize.toNat
  maxWaitMs := s.maxWaitMs
  maxBatchSize_pos := by
    have hpos : 1 ≤ s.maxBatchSize := s.valid.positive ("max_batch_size", _) List.mem_cons_self
    omega

end RuntimeSettings
end InferenceServer.Server
