import Mathlib.Data.List.Nodup
import Mathlib.Data.Set.Function
import InferenceServer.Security.Atomicity

/-!
# Which keys authenticate

Library `Security`. Sequences of operations without I/O failures, and the server's authenticator
after them (`python/cuda_db/server/security.py:22–72`): the tokens it accepts are those of the
keys that were generated and not revoked since.
-/

namespace InferenceServer.Security

open InferenceServer.Base InferenceServer.Server

/-! ### Operations without failures -/

section Exec

variable {ε α : Type} {codec : KeyCodec}

theorem exec_sysWith {f : OSError → ε} {c : Call} {fs fs' : FileSystem} {a : c.Answer}
    (h : fs.perform c = (.ok a, fs')) :
    (sysWith f c).exec FileSystem.perform fs = (.ok a, fs') := by
  change Prog.exec FileSystem.perform
    (match (fs.perform c).1 with | .ok a => .ret a | .error e => .raise (f e)) (fs.perform c).2 = _
  rw [h]
  rfl

theorem exec_sysWith_error {f : OSError → ε} {c : Call} {fs fs' : FileSystem} {e : OSError}
    (h : fs.perform c = (.error e, fs')) :
    (sysWith f c).exec FileSystem.perform fs = (.error (f e), fs') := by
  change Prog.exec FileSystem.perform
    (match (fs.perform c).1 with | .ok a => .ret a | .error e => .raise (f e)) (fs.perform c).2 = _
  rw [h]
  rfl

/-- A call that succeeds, and what follows it. -/
theorem exec_sysWith_bind {f : OSError → ε} {c : Call} {k : c.Answer → Code ε α}
    {fs fs' : FileSystem} {a : c.Answer} (h : fs.perform c = (.ok a, fs')) :
    (sysWith f c >>= k).exec FileSystem.perform fs = (k a).exec FileSystem.perform fs' :=
  Prog.exec_bind_ok (exec_sysWith h)

theorem perform_replace {fs : FileSystem} {t : Nat} (h : t ∈ fs.temporaries) :
    fs.perform (.replace t) = (.ok (), fs.install t h) := dif_pos h

theorem exec_writeBody (payload : Bytes) (fs : FileSystem) :
    ∃ fs', (writeBody payload).exec FileSystem.perform fs = (.ok (), fs') ∧
      fs'.bytes = some payload := by
  have hcreated : fs.create.Has fs.inodes.length {} := FileSystem.has_create
  have hwritten := FileSystem.has_modify hcreated
    fun file ↦ { file with buffered := file.buffered ++ payload }
  have hflushed := FileSystem.has_modify hwritten
    fun file ↦ { content := file.content ++ file.buffered }
  refine ⟨_, ?_, FileSystem.bytes_install hflushed⟩
  refine (exec_sysWith_bind rfl).trans ?_
  refine (exec_sysWith_bind rfl).trans ?_
  refine (exec_sysWith_bind rfl).trans ?_
  refine (Prog.exec_bind_ok (a := ()) rfl).trans ?_
  refine (exec_sysWith_bind (perform_replace hflushed.1)).trans ?_
  rfl

/-- The store is replaced by the encoded records. -/
theorem exec_writeKeyFile (codec : KeyCodec) (records : List ApiKeyRecord) (fs : FileSystem) :
    ∃ fs', (writeKeyFile codec records).exec FileSystem.perform fs = (.ok (), fs') ∧
      fs'.bytes = some (codec.encode records) := by
  obtain ⟨fs', hbody, hbytes⟩ := exec_writeBody (codec.encode records) fs
  refine ⟨fs', ?_, hbytes⟩
  refine (exec_sysWith_bind rfl).trans ?_
  rw [Prog.exec_handle, hbody]
  rfl

/-- The bytes of the store are read, or its absence is reported. -/
theorem exec_loadKeyFile (codec : KeyCodec) (requireNonempty : Bool) (fs : FileSystem) :
    (loadKeyFile codec requireNonempty).exec FileSystem.perform fs =
      ((match fs.bytes with
        | none => .error (.keyFile "API-key store could not be read")
        | some raw => (parseKeyFile codec requireNonempty raw).mapError .keyFile), fs) := by
  cases hstore : fs.store with
  | none =>
    rw [FileSystem.bytes_eq_none hstore]
    have hopen : fs.perform .openStore = (.error .notFound, fs) := by
      simp only [FileSystem.perform, hstore]
    have hread : readBytes.exec FileSystem.perform fs = (.error (.os .notFound), fs) :=
      Prog.exec_bind_error (exec_sysWith_error hopen)
    refine Prog.exec_bind_error ?_
    rw [Prog.tryExcept, Prog.exec_handle, hread]
    rfl
  | some i =>
    obtain ⟨file, hfile, hbytes⟩ := FileSystem.bytes_eq_some hstore
    have hopen : fs.perform .openStore = (.ok i, fs) := by
      simp only [FileSystem.perform, hstore]
    have hcontent : fs.perform (.read i) = (.ok file.content, fs) := by
      simp only [FileSystem.perform, hfile]
    have hread : readBytes.exec FileSystem.perform fs = (.ok file.content, fs) :=
      (exec_sysWith_bind hopen).trans (Prog.exec_tryFinally (exec_sysWith hcontent) rfl)
    rw [hbytes]
    refine (Prog.exec_bind_ok (?_ : _ = (Except.ok file.content, fs))).trans ?_
    · rw [Prog.tryExcept, Prog.exec_handle, hread]
      rfl
    change (check (parseKeyFile codec requireNonempty file.content)).exec _ _ =
      ((parseKeyFile codec requireNonempty file.content).mapError .keyFile, fs)
    cases parseKeyFile codec requireNonempty file.content <;> rfl

/-- The lock is taken and given back around the body. -/
theorem exec_storeLock {body : Code Failure α} {fs fs' : FileSystem} {r : Except Failure α}
    (h : body.exec FileSystem.perform fs = (r, fs')) :
    (storeLock body).exec FileSystem.perform fs = (r, fs') := by
  refine (exec_sysWith_bind rfl).trans ?_
  refine (Prog.exec_bind_ok (a := ()) rfl).trans ?_
  exact Prog.exec_tryFinally h rfl

/-- What the records come to in the store, or the message. -/
def Written (codec : KeyCodec) (fs fs' : FileSystem) : Checked (List ApiKeyRecord) → Prop
  | .ok records => fs'.bytes = some (codec.encode records)
  | .error _ => fs'.bytes = fs.bytes

/-- The result for the caller. -/
def outcomeOf (result : α) : Checked (List ApiKeyRecord) → Except Failure α
  | .ok _ => .ok result
  | .error message => .error (.keyFile message)

theorem exec_check_write {k : List ApiKeyRecord → Code Failure α} {result : α}
    (edited : Checked (List ApiKeyRecord)) (fs : FileSystem)
    (hk : ∀ records, ∃ fs', (k records).exec FileSystem.perform fs = (.ok result, fs') ∧
      fs'.bytes = some (codec.encode records)) :
    ∃ fs', (check edited >>= k).exec FileSystem.perform fs = (outcomeOf result edited, fs') ∧
      Written codec fs fs' edited := by
  cases edited with
  | error message => exact ⟨fs, rfl, rfl⟩
  | ok records => exact hk records

theorem Operation.apply_invalid (op : Operation) {message : String} {base : Option Bytes}
    (h : validateKeyId (.string op.keyId) = .error message) :
    op.apply codec base = .error message := by
  rw [apply, h]
  rfl

theorem Operation.apply_unread (op : Operation) {checked message : String} {base : Option Bytes}
    (hid : validateKeyId (.string op.keyId) = .ok checked)
    (h : op.recordsIn codec base = .error message) : op.apply codec base = .error message := by
  rw [apply, hid, Except.bind, h]
  rfl

/-- The records an operation starts from. -/
theorem exec_loadPresent (codec : KeyCodec) (keyId : String) (secret : List Char)
    (fs : FileSystem) :
    (loadPresent codec fs.store.isSome).exec FileSystem.perform fs =
      (((Operation.generate keyId secret).recordsIn codec fs.bytes).mapError .keyFile, fs) := by
  cases hstore : fs.store with
  | none =>
    rw [FileSystem.bytes_eq_none hstore]
    rfl
  | some i =>
    obtain ⟨file, -, hbytes⟩ := FileSystem.bytes_eq_some hstore
    change (loadKeyFile codec false).exec FileSystem.perform fs = _
    rw [exec_loadKeyFile, hbytes]
    rfl

theorem exec_generateKey (codec : KeyCodec) (keyId : String) (secret : List Char)
    (fs : FileSystem) :
    ∃ fs', (generateKey codec keyId secret).exec FileSystem.perform fs =
        (outcomeOf (tokenOf keyId secret)
          ((Operation.generate keyId secret).apply codec fs.bytes), fs') ∧
      Written codec fs fs' ((Operation.generate keyId secret).apply codec fs.bytes) := by
  cases hid : validateKeyId (.string keyId) with
  | error message =>
    rw [Operation.apply_invalid (.generate keyId secret) hid]
    refine ⟨fs, Prog.exec_bind_error ?_, rfl⟩
    rw [hid]
    rfl
  | ok checked =>
    cases validateKeyId_string hid
    have hcheck : (check (validateKeyId (.string keyId))).exec FileSystem.perform fs =
        (.ok keyId, fs) := by
      rw [hid]
      rfl
    have hload := exec_loadPresent codec keyId secret fs
    cases hread : (Operation.generate keyId secret).recordsIn codec fs.bytes with
    | error message =>
      rw [hread] at hload
      rw [Operation.apply_unread (.generate keyId secret) hid hread]
      refine ⟨fs, (Prog.exec_bind_ok hcheck).trans (exec_storeLock ?_), rfl⟩
      exact (exec_sysWith_bind rfl).trans (Prog.exec_bind_error hload)
    | ok records =>
      rw [hread] at hload
      rw [Operation.apply_eq (.generate keyId secret) hid hread]
      have hwrite (edited : List ApiKeyRecord) :
          ∃ fs', (do writeKeyFile codec edited; .ret (tokenOf keyId secret) :
              Code Failure (List Char)).exec FileSystem.perform fs =
            (.ok (tokenOf keyId secret), fs') ∧ fs'.bytes = some (codec.encode edited) := by
        obtain ⟨fs', hexec, hbytes⟩ := exec_writeKeyFile codec edited fs
        exact ⟨fs', Prog.exec_bind_ok hexec, hbytes⟩
      obtain ⟨fs', hexec, hwritten⟩ :=
        exec_check_write (addKey codec keyId secret records) fs hwrite
      refine ⟨fs', (Prog.exec_bind_ok hcheck).trans (exec_storeLock ?_), hwritten⟩
      exact (exec_sysWith_bind rfl).trans ((Prog.exec_bind_ok hload).trans hexec)

theorem exec_revokeKey (codec : KeyCodec) (keyId : String) (fs : FileSystem) :
    ∃ fs', (revokeKey codec keyId).exec FileSystem.perform fs =
        (outcomeOf () ((Operation.revoke keyId).apply codec fs.bytes), fs') ∧
      Written codec fs fs' ((Operation.revoke keyId).apply codec fs.bytes) := by
  cases hid : validateKeyId (.string keyId) with
  | error message =>
    rw [Operation.apply_invalid (.revoke keyId) hid]
    refine ⟨fs, Prog.exec_bind_error ?_, rfl⟩
    rw [hid]
    rfl
  | ok checked =>
    cases validateKeyId_string hid
    have hcheck : (check (validateKeyId (.string keyId))).exec FileSystem.perform fs =
        (.ok keyId, fs) := by
      rw [hid]
      rfl
    have hload : (loadKeyFile codec false).exec FileSystem.perform fs =
        (((Operation.revoke keyId).recordsIn codec fs.bytes).mapError .keyFile, fs) := by
      rw [exec_loadKeyFile]
      cases fs.bytes <;> rfl
    cases hread : (Operation.revoke keyId).recordsIn codec fs.bytes with
    | error message =>
      rw [hread] at hload
      rw [Operation.apply_unread (.revoke keyId) hid hread]
      refine ⟨fs, (Prog.exec_bind_ok hcheck).trans (exec_storeLock ?_), rfl⟩
      exact Prog.exec_bind_error hload
    | ok records =>
      rw [hread] at hload
      rw [Operation.apply_eq (.revoke keyId) hid hread]
      obtain ⟨fs', hexec, hwritten⟩ := exec_check_write (removeKey keyId records) fs
        fun edited ↦ exec_writeKeyFile codec edited fs
      refine ⟨fs', (Prog.exec_bind_ok hcheck).trans (exec_storeLock ?_), hwritten⟩
      exact (Prog.exec_bind_ok hload).trans hexec

/-- The code of an operation does what its effect on the records says. -/
theorem exec_code (codec : KeyCodec) (op : Operation) (fs : FileSystem) :
    ∃ fs', (op.code codec).exec FileSystem.perform fs =
        (outcomeOf op.token (op.apply codec fs.bytes), fs') ∧
      Written codec fs fs' (op.apply codec fs.bytes) := by
  cases op with
  | generate keyId secret =>
    obtain ⟨fs', hexec, hwritten⟩ := exec_generateKey codec keyId secret fs
    refine ⟨fs', ?_, hwritten⟩
    change ((generateKey codec keyId secret).handle _ _).exec _ _ = _
    rw [Prog.exec_handle, hexec]
    cases (Operation.generate keyId secret).apply codec fs.bytes <;> rfl
  | revoke keyId =>
    obtain ⟨fs', hexec, hwritten⟩ := exec_revokeKey codec keyId fs
    refine ⟨fs', ?_, hwritten⟩
    change ((revokeKey codec keyId).handle _ _).exec _ _ = _
    rw [Prog.exec_handle, hexec]
    cases (Operation.revoke keyId).apply codec fs.bytes <;> rfl

/-- An operation that succeeds on the records it reads. -/
theorem exec_code_ok (codec : KeyCodec) (op : Operation) (fs : FileSystem) {checked : String}
    {records edited : List ApiKeyRecord} (hid : validateKeyId (.string op.keyId) = .ok checked)
    (hread : op.recordsIn codec fs.bytes = .ok records)
    (hedit : op.edit codec records = .ok edited) :
    ∃ fs', (op.code codec).exec FileSystem.perform fs = (.ok op.token, fs') ∧
      fs'.bytes = some (codec.encode edited) := by
  obtain ⟨fs', hexec, hwritten⟩ := exec_code codec op fs
  rw [Operation.apply_eq op hid hread, hedit] at hexec hwritten
  exact ⟨fs', hexec, hwritten⟩

end Exec

/-! ### Sequences of operations -/

/-- An operation and what it returned or raised. -/
abbrev Entry := Operation × Except Failure (Option (List Char))

/-- One operation after another, none of them meeting an I/O failure. -/
def administer (codec : KeyCodec) : FileSystem → List Operation → List Entry × FileSystem
  | fs, [] => ([], fs)
  | fs, op :: ops =>
    let (result, fs) := (op.code codec).exec FileSystem.perform fs
    let (entries, fs) := administer codec fs ops
    ((op, result) :: entries, fs)

/-- A generation that succeeded makes its token the live one of the id, a revocation that
succeeded leaves the id without one. -/
def updateLive (live : String → Option (List Char)) : Entry → String → Option (List Char)
  | (.generate keyId _, .ok token) => Function.update live keyId token
  | (.revoke keyId, .ok _) => Function.update live keyId none
  | (_, .error _) => live

/-- The live token of each id after these operations. -/
def liveToken (entries : List Entry) : String → Option (List Char) :=
  entries.foldl updateLive fun _ ↦ none

/-- The records are those of the live tokens, which come from generations among `ops`. -/
structure Tracks (codec : KeyCodec) (ops : List Operation) (live : String → Option (List Char))
    (records : List ApiKeyRecord) : Prop where
  valid : ValidRecords records
  records : ∀ k d, ⟨k, d⟩ ∈ records ↔ ∃ token, live k = some token ∧ d = codec.sha256 token
  tokens : ∀ k token, live k = some token →
    ∃ secret, .generate k secret ∈ ops ∧ token = tokenOf k secret

/-- The store holds these records; a missing store holds none. -/
def StoreIs (codec : KeyCodec) (fs : FileSystem) (records : List ApiKeyRecord) : Prop :=
  fs.bytes = some (codec.encode records) ∨ fs.bytes = none ∧ records = []

section Tracks

variable {codec : KeyCodec} {ops : List Operation} {live : String → Option (List Char)}
  {records : List ApiKeyRecord} {fs : FileSystem}

theorem tracks_nil (codec : KeyCodec) (ops : List Operation) :
    Tracks codec ops (fun _ ↦ none) [] where
  valid := ⟨fun _ h ↦ absurd h List.not_mem_nil, List.nodup_nil⟩
  records _ _ := by simp
  tokens _ _ h := by cases h

/-- What an operation that succeeds reads are the records of the store. -/
theorem StoreIs.recordsIn (hs : StoreIs codec fs records) (hv : ValidRecords records)
    {op : Operation} {read : List ApiKeyRecord} (h : op.recordsIn codec fs.bytes = .ok read) :
    read = records := by
  rcases hs with hbytes | ⟨hbytes, rfl⟩
  · rw [hbytes] at h
    have hparse : parseKeyFile codec false (codec.encode records) = .ok read := by
      cases op <;> exact h
    rw [parseKeyFile_encode_all codec hv] at hparse
    cases hparse
    rfl
  · rw [hbytes] at h
    cases op with
    | generate =>
      cases h
      rfl
    | revoke => cases h

/-- A generation. -/
theorem Tracks.generate {keyId : String} {secret : List Char} {edited : List ApiKeyRecord}
    (h : Tracks codec ops live records) (hmem : .generate keyId secret ∈ ops)
    (hvalid : ValidRecords edited) (hedit : addKey codec keyId secret records = .ok edited) :
    Tracks codec ops (Function.update live keyId (some (tokenOf keyId secret))) edited := by
  unfold addKey at hedit
  split at hedit
  · cases hedit
  · next hnew =>
    cases hedit
    have habsent (d : String) : (⟨keyId, d⟩ : ApiKeyRecord) ∉ records := by
      intro hin
      exact hnew (List.any_eq_true.mpr ⟨_, hin, by simp⟩)
    refine ⟨hvalid, ?_, ?_⟩
    · intro k d
      rw [List.mem_append, List.mem_singleton, recordOf, ApiKeyRecord.mk.injEq]
      by_cases hk : k = keyId
      · subst hk
        rw [Function.update_self]
        constructor
        · rintro (hin | ⟨-, rfl⟩)
          · exact absurd hin (habsent d)
          · exact ⟨_, rfl, rfl⟩
        · rintro ⟨token, htoken, rfl⟩
          cases htoken
          exact .inr ⟨rfl, rfl⟩
      · rw [Function.update_of_ne hk, ← h.records k d]
        simp [hk]
    · intro k token htoken
      by_cases hk : k = keyId
      · subst hk
        rw [Function.update_self] at htoken
        cases htoken
        exact ⟨secret, hmem, rfl⟩
      · rw [Function.update_of_ne hk] at htoken
        exact h.tokens k token htoken

/-- A revocation. -/
theorem Tracks.revoke {keyId : String} {edited : List ApiKeyRecord}
    (h : Tracks codec ops live records) (hvalid : ValidRecords edited)
    (hedit : removeKey keyId records = .ok edited) :
    Tracks codec ops (Function.update live keyId none) edited := by
  simp only [removeKey] at hedit
  split at hedit
  · cases hedit
  · cases hedit
    refine ⟨hvalid, ?_, ?_⟩
    · intro k d
      rw [List.mem_filter, bne_iff_ne]
      by_cases hk : k = keyId
      · subst hk
        rw [Function.update_self]
        simp
      · rw [Function.update_of_ne hk, ← h.records k d]
        simp [hk]
    · intro k token htoken
      by_cases hk : k = keyId
      · subst hk
        rw [Function.update_self] at htoken
        cases htoken
      · rw [Function.update_of_ne hk] at htoken
        exact h.tokens k token htoken

/-- One operation, which succeeds or leaves everything as it was. -/
theorem Tracks.step {op : Operation} (h : Tracks codec ops live records)
    (hs : StoreIs codec fs records) (hmem : op ∈ ops) :
    ∃ records', StoreIs codec ((op.code codec).exec FileSystem.perform fs).2 records' ∧
      Tracks codec ops (updateLive live (op, ((op.code codec).exec FileSystem.perform fs).1))
        records' := by
  obtain ⟨fs', hexec, hwritten⟩ := exec_code codec op fs
  rw [hexec]
  cases happly : op.apply codec fs.bytes with
  | error message =>
    rw [happly] at hwritten
    refine ⟨records, ?_, ?_⟩
    · rw [StoreIs, show fs'.bytes = fs.bytes from hwritten]
      exact hs
    · cases op <;> exact h
  | ok edited =>
    rw [happly] at hwritten
    obtain ⟨read, hid, hread, hedit⟩ := Operation.apply_ok happly
    cases hs.recordsIn h.valid hread
    obtain ⟨hvalid, -⟩ := Operation.edit_valid hid h.valid hedit
    refine ⟨edited, .inl hwritten, ?_⟩
    cases op with
    | generate keyId secret => exact h.generate hmem hvalid hedit
    | revoke keyId => exact h.revoke hvalid hedit

/-- Any sequence of them. -/
theorem Tracks.administer {rest : List Operation} (h : Tracks codec ops live records)
    (hs : StoreIs codec fs records) (hmem : ∀ op ∈ rest, op ∈ ops) :
    ∃ records', StoreIs codec (administer codec fs rest).2 records' ∧
      Tracks codec ops ((administer codec fs rest).1.foldl updateLive live) records' := by
  induction rest generalizing fs live records with
  | nil => exact ⟨records, hs, h⟩
  | cons op rest ih =>
    obtain ⟨records', hs', h'⟩ := h.step hs (hmem op List.mem_cons_self)
    exact ih h' hs' fun x hx ↦ hmem x (List.mem_cons_of_mem _ hx)

end Tracks

/-! ### The authenticator -/

/-- `ApiKeyAuthenticator(required=True)` after `load`; when `load` raises it has no digests. -/
def loaded (codec : KeyCodec) (fs : FileSystem) : Option (List ApiKeyRecord) :=
  match (loadKeyFile codec true).exec FileSystem.perform fs with
  | (.ok records, _) => some records
  | (.error _, _) => none

/-- The single header `Authorization: Bearer t`. -/
def bearerHeader (t : Bytes) : List (Bytes × Bytes) :=
  [(asciiBytes "Authorization", asciiBytes "Bearer " ++ t)]

/-- The bytes of a token. -/
def tokenBytes (token : List Char) : Bytes := token.map fun c ↦ c.toNat.toUInt8

theorem expectedDigest_of_mem {records : List ApiKeyRecord} (h : (records.map (·.keyId)).Nodup)
    {k d : String} (hmem : ⟨k, d⟩ ∈ records) : expectedDigest records k = d := by
  unfold expectedDigest
  split
  · next record hfind =>
    have hin := List.mem_reverse.mp (List.mem_of_find?_eq_some hfind)
    have hkey : record.keyId = k := by simpa using List.find?_some hfind
    have heq := List.inj_on_of_nodup_map h hin hmem hkey
    rw [heq]
  · next hnone =>
    rw [List.find?_eq_none] at hnone
    exact absurd (by simp) (hnone _ (List.mem_reverse.mpr hmem))

theorem expectedDigest_of_absent {records : List ApiKeyRecord} {k : String}
    (h : ∀ d, ⟨k, d⟩ ∉ records) : expectedDigest records k = dummyDigest := by
  unfold expectedDigest
  split
  · next record hfind =>
    have hin := List.mem_reverse.mp (List.mem_of_find?_eq_some hfind)
    have hkey : record.keyId = k := by simpa using List.find?_some hfind
    rw [← hkey] at h
    exact absurd hin (h record.sha256)
  · rfl

theorem decodeAscii_append (a b : Bytes) :
    decodeAscii (a ++ b) = (decodeAscii a).bind fun x ↦ (decodeAscii b).map (x ++ ·) := by
  unfold decodeAscii
  rw [List.all_append, List.map_append]
  cases a.all (· < 128) <;> cases b.all (· < 128) <;> rfl

theorem toNat_lt_of_tokenOf {k : String} {secret : List Char}
    (hk : keyIdPattern k.toList = true) (hs : secretPattern secret = true) :
    ∀ c ∈ tokenOf k secret, c.toNat < 128 := by
  intro c hc
  rw [tokenOf, List.mem_append, List.mem_cons] at hc
  rcases hc with hc | rfl | hc
  · exact toNat_lt_of_isKeyChar (List.all_eq_true.mp (all_isKeyChar_of_keyId hk) c hc)
  · decide
  · exact toNat_lt_of_isKeyChar (List.all_eq_true.mp (all_isKeyChar_of_secret hs) c hc)

/-- What is presented in the header is a token, or nothing. -/
theorem bearerToken_bearerHeader {t : Bytes} {keyId secret : List Char} :
    bearerToken (bearerHeader t) = some (keyId, secret) ↔
      decodeAscii t = some (keyId ++ '.' :: secret) ∧ keyIdPattern keyId = true ∧
        secretPattern secret = true := by
  have hvalue : decodeAscii (asciiBytes "Bearer " ++ t) =
      (decodeAscii t).map ("Bearer ".toList ++ ·) := by
    rw [decodeAscii_append, show decodeAscii (asciiBytes "Bearer ") = some "Bearer ".toList by
      decide +kernel]
    rfl
  have hheader : authorizations (bearerHeader t) =
      [(asciiBytes "Authorization", asciiBytes "Bearer " ++ t)] := by
    have hname : ((asciiBytes "Authorization").map lowerByte == asciiBytes "authorization") =
        true := by
      decide +kernel
    simp only [authorizations, bearerHeader, List.filter_cons, hname, ↓reduceIte, List.filter_nil]
  have hbearer : "Bearer ".toList = "Bearer".toList ++ [' '] := by decide
  rw [bearerToken_eq_some]
  constructor
  · rintro ⟨name, value, scheme, hone, htext, hscheme, hkey, hsecret⟩
    rw [hheader] at hone
    cases hone
    rw [hvalue, Option.map_eq_some_iff] at htext
    obtain ⟨text, htext, heq⟩ := htext
    rw [hbearer, List.append_assoc, List.singleton_append] at heq
    have hsplit := congrArg (splitOn ' ') heq
    rw [splitOn_append (by decide), splitOn_append (blank_not_mem_scheme hscheme)] at hsplit
    rw [(List.cons.inj hsplit).1] at heq
    have htoken := (List.cons.inj (List.append_cancel_left heq)).2
    rw [htext, htoken]
    exact ⟨rfl, hkey, hsecret⟩
  · rintro ⟨htext, hkey, hsecret⟩
    refine ⟨_, _, "Bearer".toList, hheader, ?_, by decide, hkey, hsecret⟩
    rw [hvalue, htext, Option.map_some, hbearer, List.append_assoc, List.singleton_append]

/-- What the authenticator answers to the header. -/
theorem authenticate_bearerHeader {sha256 : List Char → String} {records : List ApiKeyRecord}
    {t : Bytes} {k : String} :
    authenticate sha256 true (some records) (bearerHeader t) = some k ↔
      ∃ secret, decodeAscii t = some (tokenOf k secret) ∧ keyIdPattern k.toList = true ∧
        secretPattern secret = true ∧ sha256 (tokenOf k secret) = expectedDigest records k := by
  simp only [authenticate, ↓reduceIte, Option.bind_some]
  rw [Option.bind_eq_some_iff]
  constructor
  · rintro ⟨⟨keyId, secret⟩, htoken, h⟩
    obtain ⟨htext, hkey, hsecret⟩ := bearerToken_bearerHeader.mp htoken
    split at h
    · next hdigest =>
      cases h
      refine ⟨secret, ?_, ?_, hsecret, ?_⟩
      · rw [tokenOf, String.toList_ofList]
        exact htext
      · rw [String.toList_ofList]
        exact hkey
      · rw [tokenOf, String.toList_ofList]
        exact hdigest
    · cases h
  · rintro ⟨secret, htext, hkey, hsecret, hdigest⟩
    refine ⟨(k.toList, secret), bearerToken_bearerHeader.mpr ⟨htext, hkey, hsecret⟩, ?_⟩
    change (if sha256 (tokenOf k secret) = _ then _ else _) = _
    rw [String.ofList_toList, if_pos hdigest]

/-- The tokens in play: the one presented and those of the generations. -/
def InPlay (ops : List Operation) (t : Bytes) : Set (List Char) :=
  { x | decodeAscii t = some x ∨ ∃ keyId secret, .generate keyId secret ∈ ops ∧
    x = tokenOf keyId secret }

/-- The records of the live tokens accept exactly these. -/
theorem Tracks.authenticate_iff {codec : KeyCodec} {ops : List Operation}
    {live : String → Option (List Char)} {records : List ApiKeyRecord}
    (h : Tracks codec ops live records)
    (hsecret : ∀ keyId secret, .generate keyId secret ∈ ops → secretPattern secret = true)
    {t : Bytes} (hinj : Set.InjOn codec.sha256 (InPlay ops t))
    (hdummy : ∀ x ∈ InPlay ops t, codec.sha256 x ≠ dummyDigest) {k : String} :
    authenticate codec.sha256 true (some records) (bearerHeader t) = some k ↔
      ∃ token, live k = some token ∧ t = tokenBytes token := by
  rw [authenticate_bearerHeader]
  constructor
  · rintro ⟨secret, htext, -, -, hdigest⟩
    cases hlive : live k with
    | none =>
      have habsent (d : String) : (⟨k, d⟩ : ApiKeyRecord) ∉ records := by
        rw [h.records, hlive]
        rintro ⟨token, htoken, -⟩
        cases htoken
      rw [expectedDigest_of_absent habsent] at hdigest
      exact absurd hdigest (hdummy _ (.inl htext))
    | some token =>
      have hmem : (⟨k, codec.sha256 token⟩ : ApiKeyRecord) ∈ records :=
        (h.records k _).mpr ⟨token, hlive, rfl⟩
      rw [expectedDigest_of_mem h.valid.nodup hmem] at hdigest
      obtain ⟨secret', hgenerated, htoken⟩ := h.tokens k token hlive
      have heq := hinj (.inl htext) (.inr ⟨k, secret', hgenerated, htoken⟩) hdigest
      refine ⟨token, rfl, ?_⟩
      rw [map_of_decodeAscii htext, heq]
      rfl
  · rintro ⟨token, hlive, rfl⟩
    obtain ⟨secret, hgenerated, rfl⟩ := h.tokens k token hlive
    have hmem : (⟨k, codec.sha256 (tokenOf k secret)⟩ : ApiKeyRecord) ∈ records :=
      (h.records k _).mpr ⟨_, hlive, rfl⟩
    have hkey := (h.valid.record _ hmem).1
    have hs := hsecret k secret hgenerated
    refine ⟨secret, decodeAscii_map (toNat_lt_of_tokenOf hkey hs), hkey, hs, ?_⟩
    rw [expectedDigest_of_mem h.valid.nodup hmem]

/-- The store has a key. -/
def HasKey (codec : KeyCodec) (fs : FileSystem) : Prop :=
  ∃ record records, fs.bytes.map (parseKeyFile codec false) = some (.ok (record :: records))

theorem StoreIs.hasKey_iff {codec : KeyCodec} {fs : FileSystem} {records : List ApiKeyRecord}
    (hs : StoreIs codec fs records) (hv : ValidRecords records) :
    HasKey codec fs ↔ records ≠ [] := by
  rcases hs with hbytes | ⟨hbytes, rfl⟩
  · rw [HasKey, hbytes, Option.map_some, parseKeyFile_encode_all codec hv]
    cases records with
    | nil => simp
    | cons record records => simp
  · rw [HasKey, hbytes]
    simp

theorem StoreIs.exec_load {codec : KeyCodec} {fs : FileSystem} {records : List ApiKeyRecord}
    (hs : StoreIs codec fs records) (hv : ValidRecords records) :
    if records = [] then ∃ e, (loadKeyFile codec true).exec FileSystem.perform fs = (.error e, fs)
    else (loadKeyFile codec true).exec FileSystem.perform fs = (.ok records, fs) := by
  rw [exec_loadKeyFile]
  rcases hs with hbytes | ⟨hbytes, rfl⟩
  · rw [hbytes]
    simp only
    rw [parseKeyFile_encode codec hv, validateDocument_nonempty]
    split
    · exact ⟨_, rfl⟩
    · rw [validateDocument_document hv]
      rfl
  · rw [if_pos rfl, hbytes]
    exact ⟨_, rfl⟩

/-- After any sequence of generations and revocations from a missing store the authenticator
accepts exactly the tokens of the live keys, and nothing when there is none. -/
theorem live_keys_authenticate (codec : KeyCodec) (ops : List Operation)
    (hsecret : ∀ keyId secret, .generate keyId secret ∈ ops → secretPattern secret = true) :
    (HasKey codec (administer codec {} ops).2 →
      (loaded codec (administer codec {} ops).2).isSome = true ∧
      ∀ t, Set.InjOn codec.sha256 (InPlay ops t) →
        (∀ x ∈ InPlay ops t, codec.sha256 x ≠ dummyDigest) → ∀ k,
        (authenticate codec.sha256 true (loaded codec (administer codec {} ops).2)
            (bearerHeader t) = some k ↔
          ∃ token, liveToken (administer codec {} ops).1 k = some token ∧
            t = tokenBytes token)) ∧
    (¬HasKey codec (administer codec {} ops).2 →
      (∃ e fs, (loadKeyFile codec true).exec FileSystem.perform (administer codec {} ops).2 =
        (.error e, fs)) ∧
      ∀ headers, authenticate codec.sha256 true (loaded codec (administer codec {} ops).2)
        headers = none) := by
  have hmissing : StoreIs codec {} [] := .inr ⟨rfl, rfl⟩
  obtain ⟨records, hs, h⟩ := (tracks_nil codec ops).administer hmissing fun _ hop ↦ hop
  change Tracks codec ops (liveToken (administer codec {} ops).1) records at h
  have hload := hs.exec_load h.valid
  rw [hs.hasKey_iff h.valid]
  constructor
  · intro hne
    rw [if_neg hne] at hload
    have hloaded : loaded codec (administer codec {} ops).2 = some records := by
      rw [loaded, hload]
    rw [hloaded]
    exact ⟨rfl, fun t hinj hdummy k ↦ h.authenticate_iff hsecret hinj hdummy⟩
  · intro hnil
    rw [if_pos (not_not.mp hnil)] at hload
    obtain ⟨e, hload⟩ := hload
    refine ⟨⟨e, _, hload⟩, ?_⟩
    intro headers
    rw [loaded, hload]
    rfl

/-- A key is replaced by another one. -/
def rotation : List Operation := [.generate "a" ['x'], .generate "b" ['y'], .revoke "a"]

theorem rotation_inPlay {token x : List Char}
    (ht : token = ['b', '.', 'y'] ∨ token = ['a', '.', 'x'])
    (h : x ∈ InPlay rotation (tokenBytes token)) : x ∈ [['b', '.', 'y'], ['a', '.', 'x']] := by
  rcases h with h | ⟨keyId, secret, hmem, rfl⟩
  · have hb : decodeAscii (tokenBytes ['b', '.', 'y']) = some ['b', '.', 'y'] := by decide +kernel
    have ha : decodeAscii (tokenBytes ['a', '.', 'x']) = some ['a', '.', 'x'] := by decide +kernel
    rcases ht with rfl | rfl
    · rw [Option.some.inj (hb.symm.trans h)]
      exact List.mem_cons_self
    · rw [Option.some.inj (ha.symm.trans h)]
      exact List.mem_cons_of_mem _ List.mem_cons_self
  · simp only [rotation, List.mem_cons, Operation.generate.injEq, reduceCtorEq, List.not_mem_nil,
      or_false] at hmem
    rcases hmem with ⟨rfl, rfl⟩ | ⟨rfl, rfl⟩
    · decide
    · decide

/-- The three operations succeed, and the second key is left. -/
theorem administer_rotation (codec : KeyCodec) :
    ∃ fs, administer codec {} rotation =
        ([(.generate "a" ['x'], .ok (some ['a', '.', 'x'])),
          (.generate "b" ['y'], .ok (some ['b', '.', 'y'])), (.revoke "a", .ok none)], fs) ∧
      StoreIs codec fs [recordOf codec "b" ['y']] ∧
      ValidRecords [recordOf codec "b" ['y']] := by
  have hvalid : ValidRecords [recordOf codec "a" ['x'], recordOf codec "b" ['y']] := by
    refine ⟨?_, by simp [recordOf]⟩
    intro record hrecord
    rcases List.mem_pair.mp hrecord with rfl | rfl
    · exact validRecord_recordOf (by decide +kernel)
    · exact validRecord_recordOf (by decide +kernel)
  have ha : ValidRecords [recordOf codec "a" ['x']] :=
    ⟨fun r hr ↦ hvalid.record r (List.mem_cons.mpr (.inl (List.mem_singleton.mp hr))), by simp⟩
  have hb : ValidRecords [recordOf codec "b" ['y']] :=
    ⟨fun r hr ↦ hvalid.record r (List.mem_cons_of_mem _ hr), by simp⟩
  have hread {fs : FileSystem} {records : List ApiKeyRecord} (op : Operation)
      (hbytes : fs.bytes = some (codec.encode records)) (h : ValidRecords records) :
      op.recordsIn codec fs.bytes = .ok records := by
    rw [hbytes]
    cases op <;> exact parseKeyFile_encode_all codec h
  have hadd : addKey codec "b" ['y'] [recordOf codec "a" ['x']] =
      .ok [recordOf codec "a" ['x'], recordOf codec "b" ['y']] := by simp [addKey, recordOf]
  have hremove : removeKey "a" [recordOf codec "a" ['x'], recordOf codec "b" ['y']] =
      .ok [recordOf codec "b" ['y']] := by simp [removeKey, recordOf]
  obtain ⟨fs₁, hfirst, hbytes₁⟩ := exec_code_ok codec (.generate "a" ['x']) {} rfl rfl rfl
  obtain ⟨fs₂, hsecond, hbytes₂⟩ := exec_code_ok codec (.generate "b" ['y']) fs₁ rfl
    (hread _ hbytes₁ ha) hadd
  obtain ⟨fs₃, hthird, hbytes₃⟩ := exec_code_ok codec (.revoke "a") fs₂ rfl
    (hread _ hbytes₂ hvalid) hremove
  refine ⟨fs₃, ?_, .inl hbytes₃, hb⟩
  simp only [rotation, administer, hfirst, hsecond, hthird]
  rfl

theorem live_keys_authenticate_rotation :
    HasKey plainCodec (administer plainCodec {} rotation).2 ∧
      authenticate plainCodec.sha256 true (loaded plainCodec (administer plainCodec {} rotation).2)
        (bearerHeader (tokenBytes ['b', '.', 'y'])) = some "b" ∧
      authenticate plainCodec.sha256 true (loaded plainCodec (administer plainCodec {} rotation).2)
        (bearerHeader (tokenBytes ['a', '.', 'x'])) ≠ some "a" := by
  have hsecret : ∀ keyId secret,
      .generate keyId secret ∈ rotation → secretPattern secret = true := by
    intro keyId secret hmem
    simp only [rotation, List.mem_cons, Operation.generate.injEq, reduceCtorEq, List.not_mem_nil,
      or_false] at hmem
    rcases hmem with ⟨-, rfl⟩ | ⟨-, rfl⟩
    · decide
    · decide
  obtain ⟨fs, hrun, hstore, hvalid⟩ := administer_rotation plainCodec
  have hkey : HasKey plainCodec (administer plainCodec {} rotation).2 := by
    rw [hrun]
    exact (hstore.hasKey_iff hvalid).mpr (List.cons_ne_nil _ _)
  have hlive : liveToken (administer plainCodec {} rotation).1 "b" = some ['b', '.', 'y'] := by
    rw [hrun]
    rfl
  have hnone : liveToken (administer plainCodec {} rotation).1 "a" = none := by
    rw [hrun]
    rfl
  have hdistinct : ∀ x ∈ [['b', '.', 'y'], ['a', '.', 'x']],
      ∀ y ∈ [['b', '.', 'y'], ['a', '.', 'x']],
      plainCodec.sha256 x = plainCodec.sha256 y → x = y := by decide +kernel
  have hnonzero : ∀ x ∈ [['b', '.', 'y'], ['a', '.', 'x']], plainCodec.sha256 x ≠ dummyDigest := by
    decide +kernel
  have hinj (token : List Char) (ht : token = ['b', '.', 'y'] ∨ token = ['a', '.', 'x']) :
      Set.InjOn plainCodec.sha256 (InPlay rotation (tokenBytes token)) :=
    fun x hx y hy ↦ hdistinct x (rotation_inPlay ht hx) y (rotation_inPlay ht hy)
  have hdummy (token : List Char) (ht : token = ['b', '.', 'y'] ∨ token = ['a', '.', 'x']) :
      ∀ x ∈ InPlay rotation (tokenBytes token), plainCodec.sha256 x ≠ dummyDigest :=
    fun x hx ↦ hnonzero x (rotation_inPlay ht hx)
  obtain ⟨-, hiff⟩ := (live_keys_authenticate plainCodec rotation hsecret).1 hkey
  refine ⟨hkey, ?_, ?_⟩
  · exact (hiff _ (hinj _ (.inl rfl)) (hdummy _ (.inl rfl)) "b").mpr
      ⟨['b', '.', 'y'], hlive, rfl⟩
  · rw [ne_eq, hiff _ (hinj _ (.inr rfl)) (hdummy _ (.inr rfl)) "a"]
    rintro ⟨token, hold, -⟩
    rw [hnone] at hold
    cases hold

end InferenceServer.Security
