import InferenceServer.Server.Gates

/-!
# The key store's document

Library `Security`. `python/cuda_db/security/keys.py:23–109`. A store is a JSON document with a
version and a list of records. The writer builds a document from records and the reader checks
every part of what it finds; `json` and `hashlib` are parameters.
-/

namespace InferenceServer.Security

open InferenceServer.Server

/-- A JSON value as `json.loads` hands it to `_strict_object`: an object is the list of its
pairs. -/
inductive Json where
  | null
  | bool (b : Bool)
  | int (n : Int)
  | float (text : String)
  | string (s : String)
  | array (items : List Json)
  | object (pairs : List (String × Json))

/-- A result, or the message of a `KeyFileError`. -/
abbrev Checked (α : Type) := Except String α

/-! ### The reader -/

mutual

/-- No object in the value repeats a field: `_strict_object`, `keys.py:38–44`. -/
def Json.strict : Json → Bool
  | .array items => strictItems items
  | .object pairs => decide (pairs.map (·.1)).Nodup && strictPairs pairs
  | _ => true

def strictItems : List Json → Bool
  | [] => true
  | item :: items => item.strict && strictItems items

def strictPairs : List (String × Json) → Bool
  | [] => true
  | pair :: pairs => strictPair pair && strictPairs pairs

def strictPair : String × Json → Bool
  | (_, value) => value.strict

end

/-- `set(document) == names`. -/
def hasFields (pairs : List (String × Json)) (names : List String) : Bool :=
  pairs.all (fun pair ↦ names.contains pair.1) &&
    names.all fun name ↦ (pairs.map (·.1)).contains name

/-- `DIGEST_PATTERN.fullmatch`, `keys.py:25`. -/
def digestPattern (s : List Char) : Bool :=
  s.length == 64 && s.all fun c ↦ c.isDigit || ('a' ≤ c && c ≤ 'f')

/-- `validate_key_id`, `keys.py:47–52`. -/
def validateKeyId : Json → Checked String
  | .string s =>
    if keyIdPattern s.toList then .ok s
    else .error "key id must contain 1 to 64 ASCII letters, digits, underscores, or hyphens"
  | _ => .error "key id must contain 1 to 64 ASCII letters, digits, underscores, or hyphens"

/-- The digest of an entry, `keys.py:95–97`. -/
def validateDigest : Option Json → Checked String
  | some (.string s) =>
    if digestPattern s.toList then .ok s
    else .error "API-key digest must be 64 lowercase hexadecimal characters"
  | _ => .error "API-key digest must be 64 lowercase hexadecimal characters"

/-- One round of the loop over the entries, `keys.py:91–101`. -/
def validateEntry (seen : List String) : Json → Checked ApiKeyRecord
  | .object pairs =>
    if hasFields pairs ["id", "sha256"] then
      (validateKeyId ((pairs.lookup "id").getD .null)).bind fun keyId ↦
        (validateDigest (pairs.lookup "sha256")).bind fun sha256 ↦
          if seen.contains keyId then .error "API-key store contains a duplicate key id"
          else .ok ⟨keyId, sha256⟩
    else .error "API-key record has an invalid schema"
  | _ => .error "API-key record has an invalid schema"

/-- The loop over the entries. -/
def validateEntries (seen : List String) : List Json → Checked (List ApiKeyRecord)
  | [] => .ok []
  | entry :: entries =>
    (validateEntry seen entry).bind fun record ↦
      (validateEntries (record.keyId :: seen) entries).map (record :: ·)

/-- `_validate_document`, `keys.py:74–102`. -/
def validateDocument (requireNonempty : Bool) : Json → Checked (List ApiKeyRecord)
  | .object pairs =>
    if hasFields pairs ["schema_version", "keys"] then
      match pairs.lookup "schema_version", pairs.lookup "keys" with
      | some (.int 1), some (.array entries) =>
        if requireNonempty && entries.isEmpty then
          .error "API-key store must contain at least one key"
        else validateEntries [] entries
      | some (.int 1), _ => .error "API-key store keys must be a list"
      | _, _ => .error "unsupported API-key store schema version"
    else .error "API-key store has an invalid top-level schema"
  | _ => .error "API-key store has an invalid top-level schema"

/-! ### The writer -/

/-- One entry of the document. -/
def entryOf (record : ApiKeyRecord) : Json :=
  .object [("id", .string record.keyId), ("sha256", .string record.sha256)]

/-- `_document`, `keys.py:105–109`. -/
def document (records : List ApiKeyRecord) : Json :=
  .object [("schema_version", .int 1), ("keys", .array (records.map entryOf))]

/-- A record that the reader takes. -/
def ValidRecord (record : ApiKeyRecord) : Prop :=
  keyIdPattern record.keyId.toList = true ∧ digestPattern record.sha256.toList = true

/-- A list of records that the reader takes. -/
structure ValidRecords (records : List ApiKeyRecord) : Prop where
  record : ∀ record ∈ records, ValidRecord record
  nodup : (records.map (·.keyId)).Nodup

/-- `b" \t\n\r\x0b\f"`, what `bytes.strip` removes. -/
def isSpace (b : UInt8) : Bool := b == 32 || (9 ≤ b && b ≤ 13)

/-- `json` and `hashlib` as the key store uses them: reading gives back what was written. -/
structure KeyCodec where
  /-- `(json.dumps(document, indent=2) + "\n").encode("utf-8")` -/
  dumps : Json → Bytes
  /-- `json.loads(raw.decode("utf-8"))` before `_strict_object` -/
  loads : Bytes → Option Json
  /-- `hashlib.sha256(token.encode("ascii")).hexdigest()` -/
  sha256 : List Char → String
  loads_dumps : ∀ records, ValidRecords records →
    loads (dumps (document records)) = some (document records)
  dumps_not_blank : ∀ records, (dumps (document records)).all isSpace = false
  digestPattern_sha256 : ∀ token, digestPattern (sha256 token).toList = true

/-- `load_key_file` on a JSON value: the hook of `json.loads`, then `_validate_document`. -/
def validateValue (requireNonempty : Bool) (value : Json) : Checked (List ApiKeyRecord) :=
  if value.strict then validateDocument requireNonempty value
  else .error "API-key store contains a duplicate JSON field"

/-- `load_key_file` on the bytes it has read, `keys.py:64–71`. -/
def parseKeyFile (codec : KeyCodec) (requireNonempty : Bool) (raw : Bytes) :
    Checked (List ApiKeyRecord) :=
  if raw.all isSpace then .error "API-key store is empty"
  else
    match codec.loads raw with
    | none => .error "API-key store is not valid UTF-8 JSON"
    | some value => validateValue requireNonempty value

/-- The payload of `_write_key_file`, `keys.py:115`. -/
def KeyCodec.encode (codec : KeyCodec) (records : List ApiKeyRecord) : Bytes :=
  codec.dumps (document records)

/-! ### Reading back -/

theorem validateEntry_entryOf {seen : List String} {record : ApiKeyRecord}
    (h : ValidRecord record) (hseen : record.keyId ∉ seen) :
    validateEntry seen (entryOf record) = .ok record := by
  have hid : validateKeyId (.string record.keyId) = .ok record.keyId := if_pos h.1
  have hdigest : validateDigest (some (.string record.sha256)) = .ok record.sha256 := if_pos h.2
  have hnew : seen.contains record.keyId = false := by
    rw [Bool.eq_false_iff]
    exact fun hmem ↦ hseen (List.contains_iff_mem.mp hmem)
  change (validateKeyId (.string record.keyId)).bind _ = _
  rw [hid, Except.bind]
  change (validateDigest (some (.string record.sha256))).bind _ = _
  rw [hdigest, Except.bind, hnew]
  rfl

theorem validateEntries_map_entryOf {seen : List String} {records : List ApiKeyRecord}
    (h : ValidRecords records) (hseen : ∀ record ∈ records, record.keyId ∉ seen) :
    validateEntries seen (records.map entryOf) = .ok records := by
  induction records generalizing seen with
  | nil => rfl
  | cons record records ih =>
    have hnodup := List.nodup_cons.mp h.nodup
    have hrest : validateEntries (record.keyId :: seen) (records.map entryOf) = .ok records := by
      refine ih ⟨fun r hr ↦ h.record r (List.mem_cons_of_mem _ hr), hnodup.2⟩ ?_
      intro r hr hmem
      rcases List.mem_cons.mp hmem with heq | hold
      · exact hnodup.1 (List.mem_map.mpr ⟨r, hr, heq⟩)
      · exact hseen r (List.mem_cons_of_mem _ hr) hold
    rw [List.map_cons, validateEntries,
      validateEntry_entryOf (h.record record List.mem_cons_self) (hseen record List.mem_cons_self),
      Except.bind, hrest]
    rfl

/-- The reader gives back the records the writer was given. -/
theorem validateDocument_document {records : List ApiKeyRecord} (h : ValidRecords records) :
    validateDocument false (document records) = .ok records := by
  change validateEntries [] (records.map entryOf) = _
  exact validateEntries_map_entryOf h fun _ _ ↦ List.not_mem_nil

/-- A store without a key is refused where one is required. -/
theorem validateDocument_nonempty (records : List ApiKeyRecord) :
    validateDocument true (document records) =
      if records = [] then .error "API-key store must contain at least one key"
      else validateDocument false (document records) := by
  cases records with
  | nil => rfl
  | cons record records => rfl

theorem strict_document (records : List ApiKeyRecord) : (document records).strict = true := by
  have hitems : strictItems (records.map entryOf) = true := by
    induction records with
    | nil => rfl
    | cons record records ih =>
      change (true && strictItems (records.map entryOf)) = true
      rw [ih]
      rfl
  change (true && (true && (strictItems (records.map entryOf) && true))) = true
  rw [hitems]
  rfl

theorem parseKeyFile_encode (codec : KeyCodec) {records : List ApiKeyRecord}
    (h : ValidRecords records) (requireNonempty : Bool) :
    parseKeyFile codec requireNonempty (codec.encode records) =
      validateDocument requireNonempty (document records) := by
  unfold parseKeyFile
  rw [KeyCodec.encode, codec.dumps_not_blank, codec.loads_dumps records h]
  change validateValue requireNonempty (document records) = _
  rw [validateValue, if_pos (strict_document records)]

/-- The bytes of a store determine its records. -/
theorem parseKeyFile_encode_all (codec : KeyCodec) {records : List ApiKeyRecord}
    (h : ValidRecords records) : parseKeyFile codec false (codec.encode records) = .ok records := by
  rw [parseKeyFile_encode codec h, validateDocument_document h]

/-! ### What the reader takes -/

theorem validateEntry_valid {seen : List String} {entry : Json} {record : ApiKeyRecord}
    (h : validateEntry seen entry = .ok record) : ValidRecord record ∧ record.keyId ∉ seen := by
  unfold validateEntry at h
  split at h
  · split at h
    · next pairs _ =>
      cases hid : validateKeyId ((pairs.lookup "id").getD .null) with
      | error e =>
        rw [hid] at h
        cases h
      | ok keyId =>
        rw [hid, Except.bind] at h
        cases hdigest : validateDigest (pairs.lookup "sha256") with
        | error e =>
          rw [hdigest] at h
          cases h
        | ok sha256 =>
          rw [hdigest, Except.bind] at h
          split at h
          · cases h
          · next hnew =>
            cases h
            rw [List.contains_iff_mem] at hnew
            refine ⟨⟨?_, ?_⟩, hnew⟩
            · unfold validateKeyId at hid
              split at hid
              · split at hid
                · next hpattern =>
                  cases hid
                  exact hpattern
                · cases hid
              · cases hid
            · unfold validateDigest at hdigest
              split at hdigest
              · split at hdigest
                · next hpattern =>
                  cases hdigest
                  exact hpattern
                · cases hdigest
              · cases hdigest
    · cases h
  · cases h

theorem validateEntries_valid {seen : List String} {entries : List Json}
    {records : List ApiKeyRecord} (h : validateEntries seen entries = .ok records) :
    ValidRecords records ∧ ∀ record ∈ records, record.keyId ∉ seen := by
  induction entries generalizing seen records with
  | nil =>
    cases h
    exact ⟨⟨fun _ hr ↦ absurd hr List.not_mem_nil, List.nodup_nil⟩,
      fun _ hr ↦ absurd hr List.not_mem_nil⟩
  | cons entry entries ih =>
    rw [validateEntries] at h
    cases hentry : validateEntry seen entry with
    | error e =>
      rw [hentry] at h
      cases h
    | ok record =>
      rw [hentry, Except.bind] at h
      cases hrest : validateEntries (record.keyId :: seen) entries with
      | error e =>
        rw [hrest] at h
        cases h
      | ok rest =>
        rw [hrest] at h
        cases h
        obtain ⟨hvalid, hnew⟩ := validateEntry_valid hentry
        obtain ⟨htail, hseen⟩ := ih hrest
        refine ⟨⟨?_, ?_⟩, ?_⟩
        · exact List.forall_mem_cons.mpr ⟨hvalid, htail.record⟩
        · refine List.nodup_cons.mpr ⟨?_, htail.nodup⟩
          intro hmem
          obtain ⟨other, hother, heq⟩ := List.mem_map.mp hmem
          exact hseen other hother (heq ▸ List.mem_cons_self)
        · refine List.forall_mem_cons.mpr ⟨hnew, ?_⟩
          intro other hother hmem
          exact hseen other hother (List.mem_cons_of_mem _ hmem)

/-- What the reader takes is valid. -/
theorem parseKeyFile_valid {codec : KeyCodec} {requireNonempty : Bool} {raw : Bytes}
    {records : List ApiKeyRecord} (h : parseKeyFile codec requireNonempty raw = .ok records) :
    ValidRecords records := by
  unfold parseKeyFile at h
  split at h
  · cases h
  · split at h
    · cases h
    · unfold validateValue at h
      split at h
      · unfold validateDocument at h
        split at h
        · split at h
          · split at h
            · split at h
              · cases h
              · exact (validateEntries_valid h).1
            · cases h
            · cases h
          · cases h
        · cases h
      · cases h

/-! ### A codec for the stores of the examples -/

/-- The quotation mark of JSON. -/
def quote : Char := Char.ofNat 34

/-- The text of an entry, cut at the quotation marks, up to the digest. -/
def entryPieces (record : ApiKeyRecord) : List (List Char) :=
  ["id".toList, ": ".toList, record.keyId.toList, ",\n      ".toList, "sha256".toList, ": ".toList,
    record.sha256.toList]

/-- The entries, each with the text up to the next quotation mark. -/
def entriesPieces : List ApiKeyRecord → List (List Char)
  | [] => []
  | [record] => entryPieces record ++ ["\n    \x7d\n  ]\n\x7d\n".toList]
  | record :: records =>
    entryPieces record ++ "\n    \x7d,\n    \x7b\n      ".toList :: entriesPieces records

/-- What precedes the entries. -/
def headPieces (records : List ApiKeyRecord) : List (List Char) :=
  ["\x7b\n  ".toList, "schema_version".toList, ": 1,\n  ".toList, "keys".toList,
    if records.isEmpty then ": []\n\x7d\n".toList else ": [\n    \x7b\n      ".toList]

/-- `json.dumps(document, indent=2) + "\n"`. -/
def jsonText (records : List ApiKeyRecord) : List Char :=
  [quote].intercalate (headPieces records ++ entriesPieces records)

example :
    jsonText [⟨"a", "0"⟩, ⟨"b", "1"⟩] =
      ("\x7b\n  \"schema_version\": 1,\n  \"keys\": [\n    \x7b\n      \"id\": \"a\",\n" ++
        "      \"sha256\": \"0\"\n    \x7d,\n    \x7b\n      \"id\": \"b\",\n" ++
        "      \"sha256\": \"1\"\n    \x7d\n  ]\n\x7d\n").toList := by
  decide +kernel

/-- The records of the entries. -/
def readEntries : List (List Char) → List ApiKeyRecord
  | _ :: _ :: keyId :: _ :: _ :: _ :: sha256 :: _ :: rest =>
    ⟨String.ofList keyId, String.ofList sha256⟩ :: readEntries rest
  | _ => []

theorem readEntries_entriesPieces (records : List ApiKeyRecord) :
    readEntries (entriesPieces records) = records := by
  induction records using entriesPieces.induct with
  | case1 => rfl
  | case2 record => simp [entriesPieces, entryPieces, readEntries]
  | case3 record records hne ih =>
    rw [entriesPieces.eq_3 _ _ hne]
    simp [entryPieces, readEntries, ih]

/-- What is joined with quotation marks is cut at them again. -/
theorem splitOn_intercalate {sep : Char} {pieces : List (List Char)} (hne : pieces ≠ [])
    (h : ∀ piece ∈ pieces, sep ∉ piece) : splitOn sep ([sep].intercalate pieces) = pieces := by
  induction pieces with
  | nil => exact absurd rfl hne
  | cons piece pieces ih =>
    rw [List.forall_mem_cons] at h
    cases pieces with
    | nil => rw [List.intercalate_singleton, splitOn_of_not_mem h.1]
    | cons piece' pieces =>
      rw [List.intercalate_cons_cons, List.append_assoc, List.singleton_append, splitOn_append h.1,
        ih (List.cons_ne_nil _ _) h.2]

theorem mem_intercalate {α : Type} {a sep : α} {pieces : List (List α)}
    (h : a ∈ [sep].intercalate pieces) : a = sep ∨ ∃ piece ∈ pieces, a ∈ piece := by
  induction pieces with
  | nil => cases h
  | cons piece pieces ih =>
    cases pieces with
    | nil => exact .inr ⟨piece, List.mem_cons_self, by simpa using h⟩
    | cons piece' pieces =>
      rw [List.intercalate_cons_cons, List.append_assoc, List.singleton_append, List.mem_append,
        List.mem_cons] at h
      rcases h with h | h | h
      · exact .inr ⟨piece, List.mem_cons_self, h⟩
      · exact .inl h
      · rcases ih h with h | ⟨p, hp, ha⟩
        · exact .inl h
        · exact .inr ⟨p, List.mem_cons_of_mem _ hp, ha⟩

theorem all_isKeyChar_of_digest {s : List Char} (h : digestPattern s = true) :
    s.all isKeyChar = true := by
  rw [digestPattern, Bool.and_eq_true, List.all_eq_true] at h
  rw [List.all_eq_true]
  intro c hc
  have hhex := h.2 c hc
  rw [Bool.or_eq_true] at hhex
  rcases hhex with hdigit | hletter
  · simp [isKeyChar, Char.isAlphanum, hdigit]
  · rw [Bool.and_eq_true, decide_eq_true_eq, decide_eq_true_eq] at hletter
    have hlower : c.isLower = true := by
      change (decide ('a' ≤ c) && decide (c ≤ 'z')) = true
      rw [Bool.and_eq_true, decide_eq_true_eq, decide_eq_true_eq]
      exact ⟨hletter.1, Char.le_trans hletter.2 (by decide)⟩
    have halpha : c.isAlpha = (c.isUpper || c.isLower) := rfl
    simp [isKeyChar, Char.isAlphanum, halpha, hlower]

/-- An ASCII character that is no quotation mark. -/
def isPlain (c : Char) : Bool := c.toNat < 128 && c != quote

theorem isPlain_of_isKeyChar {c : Char} (h : isKeyChar c = true) : isPlain c = true := by
  rw [isPlain, Bool.and_eq_true, decide_eq_true_eq, bne_iff_ne]
  refine ⟨toNat_lt_of_isKeyChar h, ?_⟩
  rintro rfl
  exact absurd h (by decide)

/-- The pieces of a store hold no quotation mark. -/
theorem all_isPlain_pieces {records : List ApiKeyRecord}
    (h : ∀ record ∈ records, ValidRecord record) :
    ∀ piece ∈ headPieces records ++ entriesPieces records, piece.all isPlain = true := by
  have hentry {record : ApiKeyRecord} (hr : ValidRecord record) :
      ∀ piece ∈ entryPieces record, piece.all isPlain = true := by
    have hkey {s : List Char} (hs : s.all isKeyChar = true) : s.all isPlain = true :=
      List.all_eq_true.mpr fun c hc ↦ isPlain_of_isKeyChar (List.all_eq_true.mp hs c hc)
    intro piece hp
    simp only [entryPieces, List.mem_cons, List.not_mem_nil, or_false] at hp
    rcases hp with rfl | rfl | rfl | rfl | rfl | rfl | rfl
    · decide
    · decide
    · exact hkey (all_isKeyChar_of_keyId hr.1)
    · decide
    · decide
    · decide
    · exact hkey (all_isKeyChar_of_digest hr.2)
  have hentries : ∀ piece ∈ entriesPieces records, piece.all isPlain = true := by
    induction records using entriesPieces.induct with
    | case1 => exact fun piece hp ↦ absurd hp List.not_mem_nil
    | case2 record =>
      refine List.forall_mem_append.mpr ⟨hentry (h record List.mem_cons_self), ?_⟩
      exact List.forall_mem_singleton.mpr (by decide)
    | case3 record records hne ih =>
      rw [List.forall_mem_cons] at h
      rw [entriesPieces.eq_3 _ _ hne]
      refine List.forall_mem_append.mpr ⟨hentry h.1, ?_⟩
      exact List.forall_mem_cons.mpr ⟨by decide, ih h.2⟩
  refine List.forall_mem_append.mpr ⟨?_, hentries⟩
  intro piece hp
  simp only [headPieces, List.mem_cons, List.not_mem_nil, or_false] at hp
  rcases hp with rfl | rfl | rfl | rfl | rfl
  · decide
  · decide
  · decide
  · decide
  · split <;> decide

/-- The records are found again. -/
theorem readEntries_jsonText {records : List ApiKeyRecord}
    (h : ∀ record ∈ records, ValidRecord record) :
    readEntries ((splitOn quote (jsonText records)).drop 5) = records := by
  have hne : headPieces records ++ entriesPieces records ≠ [] := List.cons_ne_nil _ _
  have hlength : (headPieces records).length = 5 := rfl
  rw [jsonText, splitOn_intercalate hne]
  · rw [List.drop_left' hlength, readEntries_entriesPieces]
  · intro piece hp hq
    have hplain := List.all_eq_true.mp (all_isPlain_pieces h piece hp) quote hq
    exact absurd hplain (by decide)

theorem toNat_lt_of_jsonText {records : List ApiKeyRecord}
    (h : ∀ record ∈ records, ValidRecord record) : ∀ c ∈ jsonText records, c.toNat < 128 := by
  intro c hc
  rcases mem_intercalate hc with rfl | ⟨piece, hp, hc⟩
  · decide
  · have hplain := List.all_eq_true.mp (all_isPlain_pieces h piece hp) c hc
    rw [isPlain, Bool.and_eq_true, decide_eq_true_eq] at hplain
    exact hplain.1

/-- A hexadecimal digit. -/
def hexDigit (n : Nat) : Char := Char.ofNat (if n % 16 < 10 then 48 + n % 16 else 87 + n % 16)

/-- The SHA-256 digests of the tokens `a.x`, `b.y` and `k.s`. Any other token gets sixty-four digits
that spell out its beginning. -/
def exampleDigest (token : List Char) : List Char :=
  if token = ['a', '.', 'x'] then
    "2301204174774e9d2d78b8ee46050ba6b7a019ab4d951437f2f005129c51fa3b".toList
  else if token = ['b', '.', 'y'] then
    "6924796fff7285961689f3eef8e90c9ec0b46e2c314e9f1767c05affe27f333f".toList
  else if token = ['k', '.', 's'] then
    "e56ca9962fde7c83b8a1d60aa55d72488027fcef2bea11796f55c7a491ec860f".toList
  else
    ((token.flatMap fun c ↦ [hexDigit (c.toNat / 16), hexDigit c.toNat]) ++
      List.replicate 64 'f').take 64

theorem digestPattern_exampleDigest (token : List Char) :
    digestPattern (exampleDigest token) = true := by
  have hdigit (n : Nat) :
      ((hexDigit n).isDigit || ('a' ≤ hexDigit n && hexDigit n ≤ 'f')) = true := by
    have hlt : n % 16 < 16 := Nat.mod_lt _ (by decide)
    unfold hexDigit
    generalize n % 16 = k at hlt
    revert k
    decide
  unfold exampleDigest
  split
  · decide +kernel
  · split
    · decide +kernel
    · split
      · decide +kernel
      · rw [digestPattern, Bool.and_eq_true, beq_iff_eq, List.all_eq_true]
        constructor
        · rw [List.length_take, List.length_append, List.length_replicate]
          omega
        · intro c hc
          rcases List.mem_append.mp (List.mem_of_mem_take hc) with hc | hc
          · obtain ⟨d, -, hd⟩ := List.mem_flatMap.mp hc
            simp only [List.mem_cons, List.not_mem_nil, or_false] at hd
            rcases hd with rfl | rfl
            · exact hdigit _
            · exact hdigit _
          · rw [List.eq_of_mem_replicate hc]
            decide

/-- Writes stores as `json` does, and reads no other text than what it writes. -/
def plainCodec : KeyCodec where
  dumps value :=
    match validateDocument false value with
    | .ok records => (jsonText records).map fun c ↦ c.toNat.toUInt8
    | .error _ => [123, 125]
  loads raw :=
    (decodeAscii raw).bind fun text ↦
      let records := readEntries ((splitOn quote text).drop 5)
      if jsonText records = text then some (document records) else none
  sha256 token := String.ofList (exampleDigest token)
  loads_dumps := by
    intro records h
    rw [validateDocument_document h]
    change (decodeAscii ((jsonText records).map _)).bind _ = _
    rw [decodeAscii_map (toNat_lt_of_jsonText h.record), Option.bind_some,
      readEntries_jsonText h.record]
    exact if_pos rfl
  dumps_not_blank := by
    intro records
    cases validateDocument false (document records) with
    | error e => rfl
    | ok records =>
      change ((jsonText records).map _).all isSpace = false
      rw [jsonText, headPieces, List.cons_append, List.cons_append, List.intercalate_cons_cons]
      rfl
  digestPattern_sha256 := by
    intro token
    rw [String.toList_ofList]
    exact digestPattern_exampleDigest token

end InferenceServer.Security
