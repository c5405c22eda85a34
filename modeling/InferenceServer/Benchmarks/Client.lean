import Mathlib.Data.Rat.Floor

/-!
# The client of the load generator

Library `Benchmarks`. One request of `benchmarks/client.py:165–292` as a function of what the
connection did. A bad answer becomes a `RequestResult` that names the failure. What no `except`
clause names is raised, and so is what `float` raises: JSON has integers that no double can hold.
-/

namespace InferenceServer.Benchmarks

/-- The exceptions that the `except` clauses of the client tell apart. -/
inductive ClientError where
  | timeoutException
  /-- an `httpx.TransportError` that is no timeout -/
  | transportError
  | valueError
  | typeError
  | overflowError
  | other (name : String)
  deriving DecidableEq, Repr

/-- A Python `float`. -/
inductive PyFloat where
  | finite (value : ℚ)
  | infinite (negative : Bool)
  | nan
  deriving DecidableEq, Repr

/-- A value that `json` reads. A `dict` has one pair for each key. -/
inductive Value where
  | null
  | bool (b : Bool)
  | int (n : Int)
  | float (x : PyFloat)
  | str (s : String)
  | list (items : List Value)
  | dict (pairs : List (String × Value))

/-! ### Numbers -/

/-- An integer whose nearest double would be `2 ^ 1024` or more. -/
def Huge (n : Int) : Prop := 2 ^ 1024 - 2 ^ 970 ≤ n.natAbs

instance (n : Int) : Decidable (Huge n) := inferInstanceAs (Decidable (_ ≤ _))

/-- The nearest number of 53 binary digits, of two the even one. -/
def nearestDouble (n : Nat) : Nat :=
  let unit := 2 ^ (n.log2 - 52)
  let digits := n / unit
  let rest := n % unit
  (if unit < 2 * rest ∨ unit = 2 * rest ∧ digits % 2 = 1 then digits + 1 else digits) * unit

/-- `float(n)` of an integer. -/
def floatOfInt (n : Int) : Except ClientError PyFloat :=
  if Huge n then .error .overflowError
  else .ok (.finite (n.sign * (nearestDouble n.natAbs : Int) : Int))

/-- `float(value)`, when `value` is an `int` or a `float` and no `bool`. -/
def Value.toFloat : Value → Option (Except ClientError PyFloat)
  | .int n => some (floatOfInt n)
  | .float x => some (.ok x)
  | _ => none

/-- A finite number. -/
def Value.Finite (v : Value) : Prop := ∃ q, v.toFloat = some (.ok (.finite q))

/-! ### The body of a successful answer -/

/-- `server_latency_ms`, `request_id` and what is wrong with the body. -/
structure Validated where
  serverLatencyMs : Option ℚ := none
  requestId : Option Int := none
  detail : Option String := none
  deriving DecidableEq, Repr

/-- `return None, None, detail`. -/
def refuse (detail : String) : Except ClientError Validated :=
  .ok { detail := some detail }

/-- The `any` over the output, `client.py:191–196`: it stops at the first value that is no finite
number. -/
def anyInvalid : List Value → Except ClientError Bool
  | [] => .ok false
  | value :: values =>
    match value.toFloat with
    | none => .ok true
    | some (.error e) => .error e
    | some (.ok (.finite _)) => anyInvalid values
    | some (.ok _) => .ok true

/-- The output and the result, `client.py:186–198`. -/
def validateOutput (expectedOutputElems : Option Int) (serverLatencyMs : ℚ) (requestId : Int) :
    Option Value → Except ClientError Validated
  | some (.list output) =>
    if expectedOutputElems.any (· ≠ (output.length : Int)) then refuse "wrong_output_length"
    else
      match anyInvalid output with
      | .error e => .error e
      | .ok true => refuse "invalid_output"
      | .ok false => .ok { serverLatencyMs := some serverLatencyMs, requestId := some requestId }
  | _ => refuse "invalid_output"

/-- The latency and what follows it, `client.py:179–198`. -/
def validateLatency (expectedOutputElems : Option Int) (requestId : Int)
    (pairs : List (String × Value)) : Except ClientError Validated :=
  match (pairs.lookup "latency_ms").bind Value.toFloat with
  | none => refuse "invalid_latency_ms"
  | some (.error e) => .error e
  | some (.ok (.finite latency)) =>
    if latency < 0 then refuse "invalid_latency_ms"
    else validateOutput expectedOutputElems latency requestId (pairs.lookup "output")
  | some (.ok _) => refuse "invalid_latency_ms"

/-- `_validate_success_body`, `client.py:165–198`; `body` is what `response.json()` does. -/
def validateSuccessBody (expectedOutputElems : Option Int) :
    Except ClientError Value → Except ClientError Validated
  | .error e =>
    if e = .valueError ∨ e = .typeError then refuse "invalid_json" else .error e
  | .ok (.dict pairs) =>
    match pairs.lookup "request_id" with
    | some (.int requestId) =>
      if requestId < 0 then refuse "invalid_request_id"
      else validateLatency expectedOutputElems requestId pairs
    | _ => refuse "invalid_request_id"
  | .ok _ => refuse "body_not_object"

/-! ### One request -/

/-- `RequestResult`, `client.py:27–40`. -/
structure RequestResult where
  latencyS : ℚ
  statusCode : Int
  serverLatencyMs : Option ℚ := none
  failureKind : Option String := none
  failureDetail : Option String := none
  requestId : Option Int := none
  deriving DecidableEq, Repr

/-- What `await client.post(...)` did. -/
inductive Reply where
  | raised (e : ClientError)
  | response (statusCode : Int) (body : Except ClientError Value)

/-- The reply and the time it took. -/
structure Exchange where
  latencyS : ℚ
  reply : Reply

/-- `send_request`, `client.py:201–256`. -/
def sendRequest (expectedOutputElems : Option Int) (x : Exchange) :
    Except ClientError RequestResult :=
  match x.reply with
  | .raised .timeoutException =>
    .ok { latencyS := x.latencyS, statusCode := 0, failureKind := some "timeout"
          failureDetail := some "request_timed_out" }
  | .raised .transportError =>
    .ok { latencyS := x.latencyS, statusCode := 0, failureKind := some "transport"
          failureDetail := some "request_transport_error" }
  | .raised e => .error e
  | .response statusCode body =>
    if statusCode = 200 then
      (validateSuccessBody expectedOutputElems body).map fun v ↦
        { latencyS := x.latencyS, statusCode, serverLatencyMs := v.serverLatencyMs
          failureKind := if v.detail.isSome then some "malformed_response" else none
          failureDetail := v.detail, requestId := v.requestId }
    else
      .ok { latencyS := x.latencyS, statusCode, failureKind := some "http_status"
            failureDetail := some ("http_" ++ toString statusCode) }

/-- `send_json_request`, `client.py:259–292`, which asks whether the detail is a text that is not
empty. -/
def sendJsonRequest (expectedOutputElems : Option Int) (x : Exchange) :
    Except ClientError RequestResult :=
  match x.reply with
  | .raised .timeoutException =>
    .ok { latencyS := x.latencyS, statusCode := 0, failureKind := some "timeout"
          failureDetail := some "request_timed_out" }
  | .raised .transportError =>
    .ok { latencyS := x.latencyS, statusCode := 0, failureKind := some "transport"
          failureDetail := some "request_transport_error" }
  | .raised e => .error e
  | .response statusCode body =>
    if statusCode ≠ 200 then
      .ok { latencyS := x.latencyS, statusCode, failureKind := some "http_status"
            failureDetail := some ("http_" ++ toString statusCode) }
    else
      (validateSuccessBody expectedOutputElems body).map fun v ↦
        { latencyS := x.latencyS, statusCode, serverLatencyMs := v.serverLatencyMs
          failureKind := if v.detail.any (· ≠ "") then some "malformed_response" else none
          failureDetail := v.detail, requestId := v.requestId }

/-- `send_payload`, `load_test.py:168–170`. -/
def sendPayload (endpoint : String) (outputElems : Option Int) (x : Exchange) :
    Except ClientError RequestResult :=
  if endpoint = "json" then sendJsonRequest outputElems x else sendRequest outputElems x

/-! ### When a request returns -/

section Returns

variable {expected : Option Int}

/-- The first value of the output that is no finite number is an integer that no double can
hold. -/
def OutputOverflows (output : List Value) : Prop :=
  ∃ before n after, output = before ++ .int n :: after ∧ (∀ v ∈ before, v.Finite) ∧ Huge n

/-- The body is valid up to a number that no double can hold. -/
def Overflows (expected : Option Int) : Value → Prop
  | .dict pairs =>
    ∃ requestId, pairs.lookup "request_id" = some (.int requestId) ∧ 0 ≤ requestId ∧
      ((∃ n, pairs.lookup "latency_ms" = some (.int n) ∧ Huge n) ∨
        ∃ latency output,
          (pairs.lookup "latency_ms").bind Value.toFloat = some (.ok (.finite latency)) ∧
          0 ≤ latency ∧ pairs.lookup "output" = some (.list output) ∧
          (∀ k ∈ expected, k = output.length) ∧ OutputOverflows output)
  | _ => False

/-- An exchange that the client is prepared for. -/
def Exchange.Handled (expected : Option Int) (x : Exchange) : Prop :=
  match x.reply with
  | .raised e => e = .timeoutException ∨ e = .transportError
  | .response statusCode (.error e) => statusCode = 200 → e = .valueError ∨ e = .typeError
  | .response statusCode (.ok body) => statusCode = 200 → ¬Overflows expected body

theorem isOk_floatOfInt {n : Int} : (floatOfInt n).isOk = true ↔ ¬Huge n := by
  unfold floatOfInt
  split
  · next h => exact ⟨fun hok ↦ (by cases hok), fun hno ↦ absurd h hno⟩
  · next h => exact ⟨fun _ ↦ h, fun _ ↦ rfl⟩

/-- Only an integer is refused by `float`. -/
theorem Value.toFloat_eq_error {v : Value} {e : ClientError} (h : v.toFloat = some (.error e)) :
    ∃ n, v = .int n ∧ Huge n := by
  cases v with
  | int n =>
    refine ⟨n, rfl, ?_⟩
    by_contra hn
    have hok := isOk_floatOfInt.mpr hn
    rw [Option.some.inj h] at hok
    cases hok
  | _ => cases h

theorem Value.toFloat_int {n : Int} (h : Huge n) :
    (Value.int n).toFloat = some (.error .overflowError) := by
  rw [Value.toFloat, floatOfInt, if_pos h]

/-- Only the first such value matters. -/
theorem outputOverflows_cons {v : Value} {values : List Value} :
    OutputOverflows (v :: values) ↔
      (∃ n, v = .int n ∧ Huge n) ∨ v.Finite ∧ OutputOverflows values := by
  constructor
  · rintro ⟨before, n, after, heq, hbefore, hn⟩
    cases before with
    | nil =>
      cases heq
      exact .inl ⟨n, rfl, hn⟩
    | cons b before =>
      cases heq
      rw [List.forall_mem_cons] at hbefore
      exact .inr ⟨hbefore.1, before, n, after, rfl, hbefore.2, hn⟩
  · rintro (⟨n, rfl, hn⟩ | ⟨hv, before, n, after, rfl, hbefore, hn⟩)
    · exact ⟨[], n, values, rfl, by simp, hn⟩
    · exact ⟨v :: before, n, after, rfl, List.forall_mem_cons.mpr ⟨hv, hbefore⟩, hn⟩

theorem isOk_anyInvalid {output : List Value} :
    (anyInvalid output).isOk = true ↔ ¬OutputOverflows output := by
  induction output with
  | nil =>
    refine ⟨?_, fun _ ↦ rfl⟩
    rintro - ⟨before, n, after, heq, -⟩
    cases before <;> cases heq
  | cons v values ih =>
    rw [outputOverflows_cons, not_or, not_and]
    have hint {n : Int} (hv : v = .int n) (hn : Huge n) :
        v.toFloat = some (.error .overflowError) := hv ▸ Value.toFloat_int hn
    unfold anyInvalid
    split
    · next hnone =>
      refine ⟨fun _ ↦ ⟨?_, ?_⟩, fun _ ↦ rfl⟩
      · rintro ⟨n, hv, hn⟩
        cases hnone.symm.trans (hint hv hn)
      · rintro ⟨q, hq⟩
        cases hnone.symm.trans hq
    · next e herror =>
      refine ⟨fun hok ↦ (by cases hok), ?_⟩
      rintro ⟨hno, -⟩
      exact absurd (Value.toFloat_eq_error herror) hno
    · next q hq =>
      rw [ih]
      refine ⟨fun hno ↦ ⟨?_, fun _ ↦ hno⟩, fun hno ↦ hno.2 ⟨q, hq⟩⟩
      rintro ⟨n, hv, hn⟩
      cases hq.symm.trans (hint hv hn)
    · next x hne hx =>
      refine ⟨fun _ ↦ ⟨?_, ?_⟩, fun _ ↦ rfl⟩
      · rintro ⟨n, hv, hn⟩
        cases hx.symm.trans (hint hv hn)
      · rintro ⟨q, hq⟩
        cases hx.symm.trans hq
        exact absurd rfl (hne q)

theorem isOk_validateOutput {latency : ℚ} {requestId : Int} {field : Option Value} :
    (validateOutput expected latency requestId field).isOk = true ↔
      ¬∃ output, field = some (.list output) ∧ (∀ k ∈ expected, k = output.length) ∧
        OutputOverflows output := by
  unfold validateOutput
  split
  · next output =>
    have hlength : (expected.any (· ≠ (output.length : Int))) = true ↔
        ¬∀ k ∈ expected, k = output.length := by
      cases expected <;> simp
    split
    · next hwrong =>
      refine ⟨fun _ ↦ ?_, fun _ ↦ rfl⟩
      rintro ⟨_, heq, hk, -⟩
      cases heq
      exact absurd hk (hlength.mp hwrong)
    · next hright =>
      have hk : ∀ k ∈ expected, k = output.length := not_not.mp fun h ↦ hright (hlength.mpr h)
      have hok : (∃ output', some (Value.list output) = some (.list output') ∧
          (∀ k ∈ expected, k = output'.length) ∧ OutputOverflows output') ↔
          OutputOverflows output := by
        constructor
        · rintro ⟨_, heq, -, hover⟩
          cases heq
          exact hover
        · exact fun hover ↦ ⟨output, rfl, hk, hover⟩
      rw [hok, ← isOk_anyInvalid]
      cases anyInvalid output with
      | error e => exact Iff.rfl
      | ok invalid => cases invalid <;> exact ⟨fun _ ↦ rfl, fun _ ↦ rfl⟩
  · next hother =>
    refine ⟨fun _ ↦ ?_, fun _ ↦ rfl⟩
    rintro ⟨output, heq, -⟩
    exact hother output heq

theorem isOk_validateLatency {requestId : Int} {pairs : List (String × Value)} :
    (validateLatency expected requestId pairs).isOk = true ↔
      ¬((∃ n, pairs.lookup "latency_ms" = some (.int n) ∧ Huge n) ∨
        ∃ latency output,
          (pairs.lookup "latency_ms").bind Value.toFloat = some (.ok (.finite latency)) ∧
          0 ≤ latency ∧ pairs.lookup "output" = some (.list output) ∧
          (∀ k ∈ expected, k = output.length) ∧ OutputOverflows output) := by
  have hint (h : ∃ n, pairs.lookup "latency_ms" = some (.int n) ∧ Huge n) :
      (pairs.lookup "latency_ms").bind Value.toFloat = some (.error .overflowError) := by
    obtain ⟨n, hn, hhuge⟩ := h
    rw [hn, Option.bind_some, Value.toFloat_int hhuge]
  unfold validateLatency
  split
  · next hnone =>
    refine ⟨fun _ ↦ ?_, fun _ ↦ rfl⟩
    rintro (h | ⟨latency, output, hlatency, -⟩)
    · cases hnone.symm.trans (hint h)
    · cases hnone.symm.trans hlatency
  · next e herror =>
    refine ⟨fun hok ↦ (by cases hok), fun hno ↦ absurd (.inl ?_) hno⟩
    obtain ⟨v, hv, hfloat⟩ := Option.bind_eq_some_iff.mp herror
    obtain ⟨n, rfl, hn⟩ := Value.toFloat_eq_error hfloat
    exact ⟨n, hv, hn⟩
  · next latency hlatency =>
    split
    · next hneg =>
      refine ⟨fun _ ↦ ?_, fun _ ↦ rfl⟩
      rintro (h | ⟨q, output, hq, hpos, -⟩)
      · cases hlatency.symm.trans (hint h)
      · cases hlatency.symm.trans hq
        exact absurd hneg (not_lt.mpr hpos)
    · next hpos =>
      rw [isOk_validateOutput]
      refine not_congr ⟨?_, ?_⟩
      · rintro ⟨output, hfield, hk, hover⟩
        exact .inr ⟨latency, output, hlatency, not_lt.mp hpos, hfield, hk, hover⟩
      · rintro (h | ⟨q, output, -, -, hfield, hk, hover⟩)
        · cases hlatency.symm.trans (hint h)
        · exact ⟨output, hfield, hk, hover⟩
  · next x hne hx =>
    refine ⟨fun _ ↦ ?_, fun _ ↦ rfl⟩
    rintro (h | ⟨q, output, hq, -⟩)
    · cases hx.symm.trans (hint h)
    · cases hx.symm.trans hq
      exact absurd rfl (hne q)

theorem isOk_validateSuccessBody {value : Value} :
    (validateSuccessBody expected (.ok value)).isOk = true ↔ ¬Overflows expected value := by
  cases value with
  | dict pairs =>
    simp only [validateSuccessBody]
    split
    · next requestId hid =>
      split
      · next hneg =>
        refine ⟨fun _ ↦ ?_, fun _ ↦ rfl⟩
        rintro ⟨n, hn, hpos, -⟩
        cases hid.symm.trans hn
        omega
      · next hpos =>
        rw [isOk_validateLatency]
        refine not_congr ⟨fun h ↦ ⟨requestId, hid, by omega, h⟩, ?_⟩
        rintro ⟨n, -, -, h⟩
        exact h
    · next hother =>
      refine ⟨fun _ ↦ ?_, fun _ ↦ rfl⟩
      rintro ⟨n, hn, -⟩
      exact hother n hn
  | _ => exact ⟨fun _ h ↦ h, fun _ ↦ rfl⟩

theorem isOk_map {ε α β : Type} (f : α → β) (x : Except ε α) : (x.map f).isOk = x.isOk := by
  cases x <;> rfl

/-- What is wrong has a name. -/
theorem validateSuccessBody_detail {body : Except ClientError Value} {v : Validated}
    (h : validateSuccessBody expected body = .ok v) :
    v.detail.any (· ≠ "") = v.detail.isSome := by
  have hrefuse {detail : String} (hd : detail ≠ "") (hv : refuse detail = .ok v) :
      v.detail.any (· ≠ "") = v.detail.isSome := by
    cases hv
    simpa using hd
  unfold validateSuccessBody validateLatency validateOutput at h
  repeat' split at h
  all_goals first
    | exact hrefuse (by decide) h
    | cases h
  rfl

/-- The two clients do the same with an answer. -/
theorem sendJsonRequest_eq (x : Exchange) :
    sendJsonRequest expected x = sendRequest expected x := by
  unfold sendJsonRequest sendRequest
  split
  · rfl
  · rfl
  · rfl
  · next statusCode body hreply =>
    split
    · rfl
    · next heq =>
      rw [if_pos (not_not.mp heq)]
      cases hv : validateSuccessBody expected body with
      | error e => rfl
      | ok v =>
        simp only [Except.map, validateSuccessBody_detail hv]

theorem sendPayload_eq (endpoint : String) (x : Exchange) :
    sendPayload endpoint expected x = sendRequest expected x := by
  unfold sendPayload
  split
  · exact sendJsonRequest_eq x
  · rfl

/-- A request returns a result if and only if the client is prepared for the exchange. -/
theorem isOk_sendPayload (endpoint : String) (x : Exchange) :
    (sendPayload endpoint expected x).isOk = true ↔ x.Handled expected := by
  rw [sendPayload_eq]
  obtain ⟨latencyS, reply⟩ := x
  cases reply with
  | raised e => cases e <;> simp [sendRequest, Exchange.Handled, Except.isOk, Except.toBool]
  | response statusCode body =>
    simp only [sendRequest]
    by_cases hstatus : statusCode = 200
    · rw [if_pos hstatus, isOk_map]
      cases body with
      | error e =>
        simp only [validateSuccessBody, Exchange.Handled, hstatus, forall_const]
        split
        · next hcaught => exact ⟨fun _ ↦ hcaught, fun _ ↦ rfl⟩
        · next hother => exact ⟨fun hok ↦ (by cases hok), fun h ↦ absurd h hother⟩
      | ok value =>
        simp only [Exchange.Handled, hstatus, forall_const]
        exact isOk_validateSuccessBody
    · rw [if_neg hstatus]
      cases body with
      | error e => exact ⟨fun _ h ↦ absurd h hstatus, fun _ ↦ rfl⟩
      | ok value => exact ⟨fun _ h ↦ absurd h hstatus, fun _ ↦ rfl⟩

end Returns

end InferenceServer.Benchmarks
