import InferenceServer.Security.LiveKeys

/-!
# The bearer authenticator

Library `Security`. `python/cuda_db/server/security.py:15–72` and the patterns of
`python/cuda_db/security/keys.py:23–25`. Whatever was loaded and cleared before, a header list is
accepted exactly when its only `Authorization` value is a scheme, one blank and a token of the
store's grammar, and the token's digest is the stored one.
-/

namespace InferenceServer.Security

open InferenceServer.Server

/-- `ApiKeyAuthenticator`; `digests` is the dictionary as the records it is built from. -/
structure ApiKeyAuthenticator where
  required : Bool
  digests : Option (List ApiKeyRecord)

/-- A `load` of a file with these bytes, or of an unreadable one; or a `clear`. -/
inductive AuthenticatorEvent where
  | load (raw : Option Bytes)
  | clear

namespace ApiKeyAuthenticator

/-- `__init__`, `security.py:25–27`. -/
def new (required : Bool) : ApiKeyAuthenticator := ⟨required, if required then none else some []⟩

/-- `load`, `security.py:29–34`. -/
def load (codec : KeyCodec) (a : ApiKeyAuthenticator) (raw : Option Bytes) :
    Checked ApiKeyAuthenticator :=
  if a.required then
    match raw with
    | none => .error "API-key store could not be read"
    | some raw => (parseKeyFile codec true raw).map fun records ↦ { a with digests := some records }
  else .ok { a with digests := some [] }

/-- `clear`, `security.py:36–37`. -/
def clear (a : ApiKeyAuthenticator) : ApiKeyAuthenticator :=
  { a with digests := if a.required then none else some [] }

/-- A `load` that raises leaves the authenticator. -/
def step (codec : KeyCodec) (a : ApiKeyAuthenticator) : AuthenticatorEvent → ApiKeyAuthenticator
  | .load raw =>
    match a.load codec raw with
    | .ok b => b
    | .error _ => a
  | .clear => a.clear

/-- `authenticate`, `security.py:39–72`. -/
def authenticate (codec : KeyCodec) (a : ApiKeyAuthenticator) (headers : List (Bytes × Bytes)) :
    Option String :=
  Server.authenticate codec.sha256 a.required a.digests headers

/-- What holds of an authenticator that requires keys: a loaded store has distinct ids. -/
structure Sound (a : ApiKeyAuthenticator) : Prop where
  required : a.required = true
  valid : ∀ records, a.digests = some records → ValidRecords records

theorem sound_step {codec : KeyCodec} {a : ApiKeyAuthenticator} (h : a.Sound)
    (e : AuthenticatorEvent) : (a.step codec e).Sound := by
  have hreq := h.required
  cases e with
  | clear =>
    refine ⟨hreq, ?_⟩
    intro records hrecords
    simp only [step, clear, hreq, if_true, reduceCtorEq] at hrecords
  | load raw =>
    cases raw with
    | none =>
      simp only [step, load, hreq, if_true]
      exact h
    | some raw =>
      simp only [step, load, hreq, if_true]
      cases hparse : parseKeyFile codec true raw with
      | error message => exact h
      | ok records =>
        refine ⟨rfl, ?_⟩
        intro other hother
        cases hother
        exact parseKeyFile_valid hparse

theorem sound_run (codec : KeyCodec) (events : List AuthenticatorEvent) {a : ApiKeyAuthenticator}
    (h : a.Sound) : (events.foldl (step codec) a).Sound := by
  induction events generalizing a with
  | nil => exact h
  | cons e events ih => exact ih (sound_step h e)

theorem sound_new : (new true).Sound := ⟨rfl, by rintro _ ⟨⟩⟩

/-! ### The grammar -/

/-- A character that reads as a letter of the scheme is an ASCII letter. -/
theorem toNat_lt_of_toLower {c : Char} (h : c.toLower.toNat < 128) : c.toNat < 128 := by
  unfold Char.toLower at h
  split at h
  · next hupper =>
    have hle : c.toNat ≤ 90 := hupper.2
    omega
  · exact h

/-- A text in the form of a credential is ASCII. -/
theorem toNat_lt_of_credential {scheme keyId secret : List Char}
    (hscheme : scheme.map Char.toLower = "bearer".toList)
    (hkey : keyIdPattern keyId = true) (hsecret : secretPattern secret = true) :
    ∀ c ∈ scheme ++ ' ' :: (keyId ++ '.' :: secret), c.toNat < 128 := by
  intro c hc
  simp only [List.mem_append, List.mem_cons] at hc
  rcases hc with hc | rfl | hc | rfl | hc
  · have hlower : c.toLower ∈ "bearer".toList := by
      rw [← hscheme]
      exact List.mem_map_of_mem hc
    have hall : ∀ d ∈ "bearer".toList, d.toNat < 128 := by simp
    exact toNat_lt_of_toLower (hall _ hlower)
  · decide
  · exact toNat_lt_of_isKeyChar (List.all_eq_true.mp (all_isKeyChar_of_keyId hkey) c hc)
  · decide
  · exact toNat_lt_of_isKeyChar (List.all_eq_true.mp (all_isKeyChar_of_secret hsecret) c hc)

/-- The parser takes exactly the bytes of a credential. -/
theorem bearerToken_iff {headers : List (Bytes × Bytes)} {keyId secret : List Char} :
    bearerToken headers = some (keyId, secret) ↔
      ∃ name scheme,
        authorizations headers = [(name, tokenBytes (scheme ++ ' ' :: (keyId ++ '.' :: secret)))] ∧
        scheme.map Char.toLower = "bearer".toList ∧ keyIdPattern keyId = true ∧
        secretPattern secret = true := by
  have hofList (scheme : List Char) : String.ofList (scheme.map Char.toLower) = "bearer" ↔
      scheme.map Char.toLower = "bearer".toList := by
    rw [← String.toList_inj, String.toList_ofList]
  rw [bearerToken_eq_some]
  constructor
  · rintro ⟨name, value, scheme, hheaders, htext, hscheme, hkey, hsecret⟩
    refine ⟨name, scheme, ?_, (hofList scheme).mp hscheme, hkey, hsecret⟩
    rw [hheaders, map_of_decodeAscii htext]
    rfl
  · rintro ⟨name, scheme, hheaders, hscheme, hkey, hsecret⟩
    exact ⟨name, _, scheme, hheaders,
      decodeAscii_map (toNat_lt_of_credential hscheme hkey hsecret), (hofList scheme).mpr hscheme,
      hkey, hsecret⟩

theorem keyIdPattern_iff {s : List Char} : keyIdPattern s = true ↔
    1 ≤ s.length ∧ s.length ≤ 64 ∧ ∀ c ∈ s, isKeyChar c = true := by
  simp only [keyIdPattern, Bool.and_eq_true, decide_eq_true_eq, List.all_eq_true, and_assoc]

theorem secretPattern_iff {s : List Char} : secretPattern s = true ↔
    s ≠ [] ∧ ∀ c ∈ s, isKeyChar c = true := by
  simp [secretPattern]

/-- The digest a token is compared with is the stored one of its id, or the dummy. -/
theorem digest_accepted_iff {records : List ApiKeyRecord} (h : (records.map (·.keyId)).Nodup)
    {k d : String} (hdummy : d ≠ dummyDigest) :
    d = expectedDigest records k ↔ (⟨k, d⟩ : ApiKeyRecord) ∈ records := by
  constructor
  · intro hd
    by_cases hmem : ∃ d', (⟨k, d'⟩ : ApiKeyRecord) ∈ records
    · obtain ⟨d', hd'⟩ := hmem
      rw [expectedDigest_of_mem h hd'] at hd
      rw [hd]
      exact hd'
    · rw [expectedDigest_of_absent fun d' hd' ↦ hmem ⟨d', hd'⟩] at hd
      exact absurd hd hdummy
  · intro hmem
    rw [expectedDigest_of_mem h hmem]

/-- After any loads and clears, an authenticator that requires keys returns `k` exactly when a store
is loaded, exactly one header is named `authorization` in any case, and its value is `bearer` in any
case, one blank, `k`, a dot and a secret, all of the allowed characters and lengths, such that the
store has `k` with the digest of the token. Before a load and after a clear it returns nothing. The
token presented must not have the dummy digest. -/
theorem authenticate_accepts_grammar (codec : KeyCodec) (events : List AuthenticatorEvent)
    (headers : List (Bytes × Bytes)) (hsha : NoDummyToken codec.sha256 headers) :
    (∀ k : String, (events.foldl (step codec) (new true)).authenticate codec headers = some k ↔
      ∃ records name scheme s,
        (events.foldl (step codec) (new true)).digests = some records ∧
        authorizations headers =
          [(name, tokenBytes (scheme ++ ' ' :: (k.toList ++ '.' :: s)))] ∧
        scheme.map Char.toLower = "bearer".toList ∧
        (1 ≤ k.toList.length ∧ k.toList.length ≤ 64 ∧ ∀ c ∈ k.toList, isKeyChar c = true) ∧
        (s ≠ [] ∧ ∀ c ∈ s, isKeyChar c = true) ∧
        (⟨k, codec.sha256 (k.toList ++ '.' :: s)⟩ : ApiKeyRecord) ∈ records) ∧
    (new true).authenticate codec headers = none ∧
    ((events ++ [AuthenticatorEvent.clear]).foldl (step codec) (new true)).authenticate codec
      headers = none := by
  have hsound := sound_run codec events sound_new
  generalize hrun : events.foldl (step codec) (new true) = a at hsound
  refine ⟨?_, rfl, ?_⟩
  · intro k
    rw [authenticate, Server.authenticate, if_pos hsound.required, Option.bind_eq_some_iff]
    constructor
    · rintro ⟨records, hrecords, h⟩
      obtain ⟨⟨keyId, secret⟩, htoken, h⟩ := Option.bind_eq_some_iff.mp h
      dsimp only at h
      split at h
      · next hdigest =>
        cases h
        obtain ⟨name, scheme, hheaders, hscheme, hkey, hsecret⟩ := bearerToken_iff.mp htoken
        have hmem := (digest_accepted_iff (hsound.valid records hrecords).nodup
          (hsha keyId secret htoken)).mp hdigest
        rw [String.toList_ofList]
        exact ⟨records, name, scheme, secret, hrecords, hheaders, hscheme,
          keyIdPattern_iff.mp hkey, secretPattern_iff.mp hsecret, hmem⟩
      · cases h
    · rintro ⟨records, name, scheme, s, hrecords, hheaders, hscheme, hkey, hsecret, hmem⟩
      have htoken : bearerToken headers = some (k.toList, s) := bearerToken_iff.mpr
        ⟨name, scheme, hheaders, hscheme, keyIdPattern_iff.mpr hkey, secretPattern_iff.mpr hsecret⟩
      refine ⟨records, hrecords, ?_⟩
      rw [htoken, Option.bind_some]
      have hdigest := (digest_accepted_iff (hsound.valid records hrecords).nodup
        (hsha k.toList s htoken)).mpr hmem
      simp only [String.ofList_toList]
      exact if_pos hdigest
  · rw [List.foldl_append, hrun]
    have hcleared : (a.step codec .clear).digests = none := if_pos hsound.required
    have hrequired : (a.step codec .clear).required = true := hsound.required
    rw [List.foldl_cons, List.foldl_nil, authenticate, Server.authenticate, hcleared, hrequired]
    rfl

/-- A store with one key, and its token in a header that is written in capitals. -/
theorem authenticate_accepts_grammar_one :
    (new true).authenticate plainCodec [(asciiBytes "AUTHORIZATION", asciiBytes "BEARER a.x")] =
        none ∧
      ([AuthenticatorEvent.load (some (plainCodec.encode [recordOf plainCodec "a" ['x']]))].foldl
          (step plainCodec) (new true)).authenticate plainCodec
        [(asciiBytes "AUTHORIZATION", asciiBytes "BEARER a.x")] = some "a" := by
  have hfacts : bearerToken [(asciiBytes "AUTHORIZATION", asciiBytes "BEARER a.x")] =
        some (['a'], ['x']) ∧
      plainCodec.sha256 ['a', '.', 'x'] ≠ dummyDigest ∧
      parseKeyFile plainCodec true (plainCodec.encode [recordOf plainCodec "a" ['x']]) =
        .ok [recordOf plainCodec "a" ['x']] ∧
      authorizations [(asciiBytes "AUTHORIZATION", asciiBytes "BEARER a.x")] =
        [(asciiBytes "AUTHORIZATION",
          tokenBytes ("BEARER".toList ++ ' ' :: (['a'] ++ ['.', 'x'])))] ∧
      "BEARER".toList.map Char.toLower = "bearer".toList := by decide +kernel
  obtain ⟨htoken, hdummy, hparse, hheaders, hscheme⟩ := hfacts
  have hsha : NoDummyToken plainCodec.sha256
      [(asciiBytes "AUTHORIZATION", asciiBytes "BEARER a.x")] := by
    intro keyId secret h
    rw [htoken] at h
    cases h
    exact hdummy
  obtain ⟨haccepts, hnew, -⟩ := authenticate_accepts_grammar plainCodec
    [.load (some (plainCodec.encode [recordOf plainCodec "a" ['x']]))]
    [(asciiBytes "AUTHORIZATION", asciiBytes "BEARER a.x")] hsha
  refine ⟨hnew, (haccepts "a").mpr ?_⟩
  refine ⟨[recordOf plainCodec "a" ['x']], asciiBytes "AUTHORIZATION", "BEARER".toList, ['x'], ?_,
    hheaders, hscheme, keyIdPattern_iff.mp (by decide +kernel), secretPattern_iff.mp rfl,
    List.mem_cons_self⟩
  simp only [List.foldl_cons, List.foldl_nil, step, load, new, if_true, hparse]
  rfl

end ApiKeyAuthenticator
end InferenceServer.Security
