import Mathlib.Data.List.Basic

/-!
# Which requests are predictions, and who may make them

Library `Server`. `python/cuda_db/server/security.py:15–115`,
`python/cuda_db/server/admission.py:112,128–132` and the routes of
`python/cuda_db/server/routes.py:88–123`. Three places decide on their own what a prediction
path is: two sets of exact strings and the router's regular expressions.
-/

namespace InferenceServer.Server

/-- Python `bytes`. -/
abbrev Bytes := List UInt8

/-- An ASGI connection scope. -/
structure Scope where
  type : String
  method : String
  path : String
  headers : List (Bytes × Bytes)
  deriving DecidableEq, Repr

/-- `ApiKeyRecord`, `security/keys.py:32–35`. -/
structure ApiKeyRecord where
  keyId : String
  sha256 : String
  deriving DecidableEq, Repr

/-! ### Paths -/

/-- `_PREDICTION_PATHS`, `security.py:15`. -/
def authenticatedPaths : List String := ["/predict", "/predict/", "/predict/raw", "/predict/raw/"]

/-- `PredictionAdmissionMiddleware._PATHS`, `admission.py:112`. -/
def admittedPaths : List String := ["/predict", "/predict/", "/predict/raw", "/predict/raw/"]

/-- The routes a request can be dispatched to; `other` is every route that takes no tensor,
and the router's own answers. -/
inductive Route where
  | predict
  | predictRaw
  | other
  deriving DecidableEq, Repr

/-- What is left of `s` after `r`. -/
def afterPrefix : List Char → List Char → Option (List Char)
  | [], s => some s
  | _ :: _, [] => none
  | c :: r, d :: s => if c = d then afterPrefix r s else none

/-- `re.match('^' + re.escape(route) + '$', path)`: `$` matches at the end and before one
final newline. -/
def routeMatches (route path : String) : Bool :=
  match afterPrefix route.toList path.toList with
  | some [] => true
  | some ['\n'] => true
  | _ => false

/-- The router's choice: only a `POST` is dispatched to the prediction routes. -/
def Scope.route (sc : Scope) : Route :=
  if sc.type = "http" ∧ sc.method = "POST" then
    if routeMatches "/predict" sc.path then .predict
    else if routeMatches "/predict/raw" sc.path then .predictRaw
    else .other
  else .other

/-- The condition of `PredictionAdmissionMiddleware.__call__`, `admission.py:128–132`. -/
def Scope.admitted (sc : Scope) : Bool :=
  sc.type == "http" && sc.method == "POST" && admittedPaths.contains sc.path

/-- `protected` in `AuthenticationMiddleware.__call__`, `security.py:83–88`. -/
def Scope.protected (sc : Scope) (authRequired : Bool) : Bool :=
  sc.type == "http" && sc.method == "POST" && authenticatedPaths.contains sc.path && authRequired

private theorem afterPrefix_eq_some {r s t : List Char} :
    afterPrefix r s = some t ↔ s = r ++ t := by
  induction r generalizing s with
  | nil => simp [afterPrefix]
  | cons c r ih =>
    cases s with
    | nil => simp [afterPrefix]
    | cons d s =>
      unfold afterPrefix
      split
      · next h => simp [h, ih]
      · next h =>
        simp only [List.cons_append, List.cons.injEq, false_iff, reduceCtorEq]
        rintro ⟨hc, -⟩
        exact h hc.symm

/-- A route matches its own path, with or without one final newline. -/
theorem routeMatches_iff {route path : String} :
    routeMatches route path = true ↔ path = route ∨ path = route ++ "\n" := by
  have hstr (q : String) : path = q ↔ path.toList = q.toList := String.toList_inj.symm
  rw [hstr, hstr, String.toList_append]
  unfold routeMatches
  constructor
  · intro h
    split at h
    · next heq => exact .inl (by simpa using afterPrefix_eq_some.mp heq)
    · next heq => exact .inr (by simpa using afterPrefix_eq_some.mp heq)
    · cases h
  · rintro (h | h)
    · have hrest : afterPrefix route.toList path.toList = some [] :=
        afterPrefix_eq_some.mpr (by simpa using h)
      rw [hrest]
    · have hrest : afterPrefix route.toList path.toList = some ['\n'] :=
        afterPrefix_eq_some.mpr (by simpa using h)
      rw [hrest]
      rfl

/-- The middlewares agree with each other: what is admitted is what is protected. -/
theorem Scope.protected_eq (sc : Scope) (authRequired : Bool) :
    sc.protected authRequired = (sc.admitted && authRequired) := rfl

/-- The scopes on which the router and the middlewares disagree. -/
def Scope.slipsThrough (sc : Scope) : Bool :=
  sc.type == "http" && sc.method == "POST" &&
    (sc.path == "/predict\n" || sc.path == "/predict/raw\n")

/-- The router sends a `POST` to a prediction route for four paths. -/
theorem Scope.route_ne_other {sc : Scope} :
    sc.route ≠ .other ↔ (sc.type = "http" ∧ sc.method = "POST") ∧
      (sc.path = "/predict" ∨ sc.path = "/predict\n" ∨ sc.path = "/predict/raw" ∨
        sc.path = "/predict/raw\n") := by
  have hpaths : (sc.path = "/predict" ∨ sc.path = "/predict\n" ∨ sc.path = "/predict/raw" ∨
      sc.path = "/predict/raw\n") ↔
      routeMatches "/predict" sc.path = true ∨ routeMatches "/predict/raw" sc.path = true := by
    have hpredict : routeMatches "/predict" sc.path = true ↔
        sc.path = "/predict" ∨ sc.path = "/predict\n" := routeMatches_iff
    have hraw : routeMatches "/predict/raw" sc.path = true ↔
        sc.path = "/predict/raw" ∨ sc.path = "/predict/raw\n" := routeMatches_iff
    rw [hpredict, hraw, or_assoc]
  rw [hpaths]
  unfold Scope.route
  split
  · next hpost =>
    rw [and_iff_right hpost]
    split
    · next h => simp [h]
    · next h =>
      split
      · next h' => simp [h']
      · next h' => simp [h, h']
  · next hpost => simp [hpost]

/-- They are the predictions that are not admitted. -/
theorem Scope.slipsThrough_iff {sc : Scope} :
    sc.slipsThrough = true ↔ sc.route ≠ .other ∧ sc.admitted = false := by
  rw [Scope.route_ne_other]
  simp only [Scope.slipsThrough, Scope.admitted, admittedPaths, Bool.and_eq_true, beq_iff_eq,
    Bool.or_eq_true]
  constructor
  · rintro ⟨hpost, h | h⟩
    · exact ⟨⟨hpost, by simp [h]⟩, by simp [h]⟩
    · exact ⟨⟨hpost, by simp [h]⟩, by simp [h]⟩
  · rintro ⟨⟨hpost, h⟩, hout⟩
    refine ⟨hpost, ?_⟩
    rcases h with h | h | h | h
    · simp [hpost, h] at hout
    · exact .inl h
    · simp [hpost, h] at hout
    · exact .inr h

/-! ### Bearer authentication -/

/-- `bytes.lower` on one byte. -/
def lowerByte (b : UInt8) : UInt8 := if 65 ≤ b ∧ b ≤ 90 then b + 32 else b

/-- The bytes of a string of ASCII characters. -/
def asciiBytes (s : String) : Bytes := s.toList.map fun c ↦ c.toNat.toUInt8

/-- `bytes.decode("ascii")`. -/
def decodeAscii (bs : Bytes) : Option (List Char) :=
  if bs.all (· < 128) then some (bs.map fun b ↦ Char.ofNat b.toNat) else none

/-- ASCII characters are read back from their bytes. -/
theorem decodeAscii_map {s : List Char} (h : ∀ c ∈ s, c.toNat < 128) :
    decodeAscii (s.map fun c ↦ c.toNat.toUInt8) = some s := by
  have hbyte (c : Char) (hc : c ∈ s) : c.toNat.toUInt8.toNat = c.toNat := by
    have hlt := h c hc
    simp only [Nat.toUInt8_eq, UInt8.toNat_ofNat']
    omega
  have hall : (s.map fun c ↦ c.toNat.toUInt8).all (· < 128) = true := by
    rw [List.all_eq_true]
    intro b hb
    obtain ⟨c, hc, rfl⟩ := List.mem_map.mp hb
    rw [decide_eq_true_eq, UInt8.lt_iff_toNat_lt, hbyte c hc]
    exact h c hc
  rw [decodeAscii, if_pos hall, List.map_map, Option.some.injEq]
  conv_rhs => rw [← List.map_id s]
  apply List.map_congr_left
  intro c hc
  change Char.ofNat c.toNat.toUInt8.toNat = c
  rw [hbyte c hc]
  exact Char.ofNat_toNat c

/-- What decodes is the bytes of its characters. -/
theorem map_of_decodeAscii {bs : Bytes} {s : List Char} (h : decodeAscii bs = some s) :
    bs = s.map fun c ↦ c.toNat.toUInt8 := by
  unfold decodeAscii at h
  split at h
  · next hall =>
    cases h
    rw [List.map_map]
    conv_lhs => rw [← List.map_id bs]
    apply List.map_congr_left
    intro b hb
    have hlt := List.all_eq_true.mp hall b hb
    rw [decide_eq_true_eq, UInt8.lt_iff_toNat_lt] at hlt
    have hvalid : b.toNat.isValidChar := .inl (Nat.lt_trans hlt (by decide))
    have hchar : (Char.ofNat b.toNat).toNat = b.toNat := by
      unfold Char.ofNat
      rw [dif_pos hvalid]
      rfl
    change b = (Char.ofNat b.toNat).toNat.toUInt8
    rw [hchar]
    simp
  · cases h

/-- `str.split(sep)`. -/
def splitOn (sep : Char) : List Char → List (List Char)
  | [] => [[]]
  | c :: cs =>
    if c = sep then [] :: splitOn sep cs
    else
      match splitOn sep cs with
      | [] => [[c]]
      | piece :: pieces => (c :: piece) :: pieces

/-- What is before the first separator is the first piece. -/
theorem splitOn_append {sep : Char} {xs : List Char} (h : sep ∉ xs) (ys : List Char) :
    splitOn sep (xs ++ sep :: ys) = xs :: splitOn sep ys := by
  induction xs with
  | nil => exact if_pos rfl
  | cons c cs ih =>
    rw [List.mem_cons, not_or] at h
    rw [List.cons_append, splitOn, if_neg (Ne.symm h.1), ih h.2]

theorem splitOn_of_not_mem {sep : Char} {xs : List Char} (h : sep ∉ xs) :
    splitOn sep xs = [xs] := by
  induction xs with
  | nil => rfl
  | cons c cs ih =>
    rw [List.mem_cons, not_or] at h
    rw [splitOn, if_neg (Ne.symm h.1), ih h.2]

theorem splitOn_ne_nil (sep : Char) (xs : List Char) : splitOn sep xs ≠ [] := by
  cases xs with
  | nil => nofun
  | cons c cs =>
    unfold splitOn
    split
    · nofun
    · split <;> nofun

/-- The first piece is everything, or what is before the first separator. -/
theorem splitOn_eq_cons {sep : Char} {xs p : List Char} {ps : List (List Char)}
    (h : splitOn sep xs = p :: ps) :
    sep ∉ p ∧ (ps = [] ∧ xs = p ∨ ∃ ys, xs = p ++ sep :: ys ∧ ps = splitOn sep ys) := by
  induction xs generalizing p ps with
  | nil =>
    cases h
    exact ⟨List.not_mem_nil, .inl ⟨rfl, rfl⟩⟩
  | cons c cs ih =>
    unfold splitOn at h
    split at h
    · next hc =>
      cases h
      exact ⟨List.not_mem_nil, .inr ⟨cs, by rw [hc]; rfl, rfl⟩⟩
    · next hc =>
      split at h
      · next hnil => exact absurd hnil (splitOn_ne_nil sep cs)
      · next piece pieces hcons =>
        cases h
        obtain ⟨hsep, hrest⟩ := ih hcons
        refine ⟨?_, ?_⟩
        · rw [List.mem_cons, not_or]
          exact ⟨fun heq ↦ hc heq.symm, hsep⟩
        · rcases hrest with ⟨hnil, rfl⟩ | ⟨ys, rfl, hps⟩
          · exact .inl ⟨hnil, rfl⟩
          · exact .inr ⟨ys, rfl, hps⟩

/-- Two pieces are two strings without separators and one separator between them. -/
theorem splitOn_eq_pair {sep : Char} {xs a b : List Char} :
    splitOn sep xs = [a, b] ↔ xs = a ++ sep :: b ∧ sep ∉ a ∧ sep ∉ b := by
  constructor
  · intro h
    obtain ⟨ha, ⟨hnil, -⟩ | ⟨ys, rfl, hys⟩⟩ := splitOn_eq_cons h
    · cases hnil
    · obtain ⟨hb, ⟨-, rfl⟩ | ⟨zs, -, hzs⟩⟩ := splitOn_eq_cons hys.symm
      · exact ⟨rfl, ha, hb⟩
      · exact absurd hzs.symm (splitOn_ne_nil sep zs)
  · rintro ⟨rfl, ha, hb⟩
    rw [splitOn_append ha, splitOn_of_not_mem hb]

/-- The character class `[A-Za-z0-9_-]`. -/
def isKeyChar (c : Char) : Bool := c.isAlphanum || c == '_' || c == '-'

theorem toNat_lt_of_isKeyChar {c : Char} (h : isKeyChar c = true) : c.toNat < 128 := by
  have halpha : c.isAlpha = (decide ('A'.val ≤ c.val ∧ c.val ≤ 'Z'.val) ||
      decide ('a'.val ≤ c.val) && decide (c.val ≤ 'z'.val)) := rfl
  simp only [isKeyChar, Char.isAlphanum, halpha, Char.isDigit, Bool.or_eq_true, Bool.and_eq_true,
    decide_eq_true_eq, beq_iff_eq, ge_iff_le, UInt32.le_iff_toNat_le] at h
  rcases h with (((h | h) | h) | rfl) | rfl
  · have hle : c.toNat ≤ 90 := h.2
    omega
  · have hle : c.toNat ≤ 122 := h.2
    omega
  · have hle : c.toNat ≤ 57 := h.2
    omega
  · decide
  · decide

/-- `KEY_ID_PATTERN.fullmatch`, `security/keys.py:24`. -/
def keyIdPattern (s : List Char) : Bool := 1 ≤ s.length && s.length ≤ 64 && s.all isKeyChar

/-- `_SECRET_PATTERN.fullmatch`, `security.py:16`. -/
def secretPattern (s : List Char) : Bool := !s.isEmpty && s.all isKeyChar

/-- `_DUMMY_DIGEST`, `security.py:17`. -/
def dummyDigest : String := String.ofList (List.replicate 64 '0')

/-- `self._digests.get(key_id, _DUMMY_DIGEST)` on the dictionary built from the records: the
last record of an id counts. -/
def expectedDigest (digests : List ApiKeyRecord) (keyId : String) : String :=
  match digests.reverse.find? (·.keyId == keyId) with
  | some record => record.sha256
  | none => dummyDigest

/-- The token of the only `Authorization` header, split at its dot, `security.py:46–66`. -/
def bearerToken (headers : List (Bytes × Bytes)) : Option (List Char × List Char) :=
  match headers.filter fun h ↦ h.1.map lowerByte == asciiBytes "authorization" with
  | [(_, value)] =>
    (decodeAscii value).bind fun value ↦
      match splitOn ' ' value with
      | [scheme, token] =>
        if String.ofList (scheme.map Char.toLower) = "bearer" ∧ token ≠ [] then
          match splitOn '.' token with
          | [keyId, secret] =>
            if keyIdPattern keyId && secretPattern secret then some (keyId, secret) else none
          | _ => none
        else none
      | _ => none
  | _ => none

theorem all_isKeyChar_of_keyId {s : List Char} (h : keyIdPattern s = true) :
    s.all isKeyChar = true := by
  rw [keyIdPattern, Bool.and_eq_true] at h
  exact h.2

theorem all_isKeyChar_of_secret {s : List Char} (h : secretPattern s = true) :
    s.all isKeyChar = true := by
  rw [secretPattern, Bool.and_eq_true] at h
  exact h.2

theorem not_mem_of_forall_isKeyChar {s : List Char} (h : s.all isKeyChar = true) {sep : Char}
    (hsep : isKeyChar sep = false) : sep ∉ s := by
  intro hmem
  rw [List.all_eq_true.mp h sep hmem] at hsep
  cases hsep

/-- A scheme that reads `bearer` has no blank in it. -/
theorem blank_not_mem_scheme {scheme : List Char}
    (h : String.ofList (scheme.map Char.toLower) = "bearer") : ' ' ∉ scheme := by
  intro hmem
  have hlower : scheme.map Char.toLower = "bearer".toList := by rw [← h, String.toList_ofList]
  have hblank : ' ' ∈ "bearer".toList := by
    rw [← hlower]
    exact List.mem_map.mpr ⟨' ', hmem, rfl⟩
  exact absurd hblank (by decide)

/-- The values of the `Authorization` headers. -/
def authorizations (headers : List (Bytes × Bytes)) : List (Bytes × Bytes) :=
  headers.filter fun h ↦ h.1.map lowerByte == asciiBytes "authorization"

/-- What the parser accepts. -/
theorem bearerToken_eq_some {headers : List (Bytes × Bytes)} {keyId secret : List Char} :
    bearerToken headers = some (keyId, secret) ↔
      ∃ name value scheme, authorizations headers = [(name, value)] ∧
        decodeAscii value = some (scheme ++ ' ' :: (keyId ++ '.' :: secret)) ∧
        String.ofList (scheme.map Char.toLower) = "bearer" ∧
        keyIdPattern keyId = true ∧ secretPattern secret = true := by
  constructor
  · intro h
    unfold bearerToken at h
    split at h
    · next name value hheaders =>
      obtain ⟨text, htext, h⟩ := Option.bind_eq_some_iff.mp h
      split at h
      · next scheme token hpieces =>
        obtain ⟨rfl, -, -⟩ := splitOn_eq_pair.mp hpieces
        split at h
        · next hscheme =>
          split at h
          · next k s hparts =>
            obtain ⟨rfl, -, -⟩ := splitOn_eq_pair.mp hparts
            split at h
            · next hpatterns =>
              cases h
              rw [Bool.and_eq_true] at hpatterns
              exact ⟨name, value, scheme, hheaders, htext, hscheme.1, hpatterns⟩
            · cases h
          · cases h
        · cases h
      · cases h
    · cases h
  · rintro ⟨name, value, scheme, hheaders, htext, hscheme, hkey, hsecret⟩
    have hkeys := all_isKeyChar_of_keyId hkey
    have hsecrets := all_isKeyChar_of_secret hsecret
    have hparts : splitOn '.' (keyId ++ '.' :: secret) = [keyId, secret] :=
      splitOn_eq_pair.mpr ⟨rfl, not_mem_of_forall_isKeyChar hkeys (by decide),
        not_mem_of_forall_isKeyChar hsecrets (by decide)⟩
    have hblank : ' ' ∉ keyId ++ '.' :: secret := by
      simp only [List.mem_append, List.mem_cons, not_or]
      exact ⟨not_mem_of_forall_isKeyChar hkeys (by decide), by decide,
        not_mem_of_forall_isKeyChar hsecrets (by decide)⟩
    have hpieces : splitOn ' ' (scheme ++ ' ' :: (keyId ++ '.' :: secret)) =
        [scheme, keyId ++ '.' :: secret] :=
      splitOn_eq_pair.mpr ⟨rfl, blank_not_mem_scheme hscheme, hblank⟩
    have hne : keyId ++ '.' :: secret ≠ [] := by simp
    change (match authorizations headers with | [(_, value)] => _ | _ => none) = _
    rw [hheaders]
    change (decodeAscii value).bind _ = _
    rw [htext, Option.bind_some, hpieces]
    change (if _ ∧ _ then _ else none) = _
    rw [if_pos ⟨hscheme, hne⟩, hparts]
    change (if _ then _ else none) = _
    rw [if_pos (by rw [hkey, hsecret]; rfl)]

/-- `ApiKeyAuthenticator.authenticate`, `security.py:39–72`, for a digest function `sha256` on
tokens; no digests means that no store is loaded. -/
def authenticate (sha256 : List Char → String) (required : Bool)
    (digests : Option (List ApiKeyRecord)) (headers : List (Bytes × Bytes)) : Option String :=
  if required then
    digests.bind fun digests ↦
      (bearerToken headers).bind fun (keyId, secret) ↦
        if sha256 (keyId ++ '.' :: secret) = expectedDigest digests (String.ofList keyId) then
          some (String.ofList keyId)
        else none
  else some "-"

/-- The token that the headers present does not have the dummy digest. -/
def NoDummyToken (sha256 : List Char → String) (headers : List (Bytes × Bytes)) : Prop :=
  ∀ keyId secret, bearerToken headers = some (keyId, secret) →
    sha256 (keyId ++ '.' :: secret) ≠ dummyDigest

/-- Only ids of the loaded store authenticate, when the token has not the dummy digest. -/
theorem authenticate_mem {sha256 : List Char → String} {headers : List (Bytes × Bytes)}
    (hsha : NoDummyToken sha256 headers) {digests : Option (List ApiKeyRecord)} {keyId : String}
    (h : authenticate sha256 true digests headers = some keyId) :
    ∃ records, digests = some records ∧ keyId ∈ records.map (·.keyId) := by
  simp only [authenticate, ↓reduceIte, Option.bind_eq_some_iff] at h
  obtain ⟨records, hrecords, ⟨key, secret⟩, htoken, h⟩ := h
  refine ⟨records, hrecords, ?_⟩
  split at h
  · next hdigest =>
    cases h
    unfold expectedDigest at hdigest
    split at hdigest
    · next record hfind =>
      have hmem := List.mem_reverse.mp (List.mem_of_find?_eq_some hfind)
      have hkey : record.keyId = String.ofList key := by
        simpa using List.find?_some hfind
      rw [← hkey]
      exact List.mem_map_of_mem hmem
    · exact absurd hdigest (hsha key secret htoken)
  · cases h

end InferenceServer.Server
