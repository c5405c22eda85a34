import InferenceServer.Security.Atomicity
import Mathlib.Data.List.Forall2
import Mathlib.Data.List.Nodup

/-!
# The key store's schema

Library `Security`. `python/cuda_db/security/keys.py:38–109,172–200`. What the reader takes is
stated without the reader: no object repeats a field, each object has exactly its fields, each
field has its type, the ids are distinct. The reader takes these values and no others, and
returns the records whose document has the content of the value.
-/

namespace InferenceServer.Security

open InferenceServer.Base InferenceServer.Server

/-! ### Repeated fields -/

/-- A value that occurs in another one, at any depth. -/
inductive Within (part : Json) : Json → Prop
  | self : Within part part
  | item {item : Json} {items : List Json} (hmem : item ∈ items) (h : Within part item) :
      Within part (.array items)
  | field {name : String} {value : Json} {pairs : List (String × Json)}
      (hmem : (name, value) ∈ pairs) (h : Within part value) : Within part (.object pairs)

/-- No object anywhere has a repeated field. -/
def NoRepeats (value : Json) : Prop :=
  ∀ pairs, Within (.object pairs) value → (pairs.map Prod.fst).Nodup

theorem noRepeats_array {items : List Json} :
    NoRepeats (.array items) ↔ ∀ item ∈ items, NoRepeats item := by
  constructor
  · intro h item hmem pairs hin
    exact h pairs (.item hmem hin)
  · rintro h pairs (_ | ⟨hmem, hin⟩)
    exact h _ hmem pairs hin

theorem noRepeats_object {pairs : List (String × Json)} :
    NoRepeats (.object pairs) ↔
      (pairs.map Prod.fst).Nodup ∧ ∀ pair ∈ pairs, NoRepeats pair.2 := by
  constructor
  · intro h
    refine ⟨h pairs .self, ?_⟩
    intro pair hmem inner hin
    exact h inner (.field hmem hin)
  · rintro ⟨hnodup, hfields⟩ inner hin
    cases hin with
    | self => exact hnodup
    | field hmem hin => exact hfields _ hmem inner hin

/-- A value that is neither a list nor an object. -/
theorem noRepeats_leaf {value : Json} (ha : ∀ items, value ≠ .array items)
    (ho : ∀ pairs, value ≠ .object pairs) : NoRepeats value := by
  intro pairs hin
  cases hin with
  | self => exact absurd rfl (ho pairs)
  | item hmem hin => exact absurd rfl (ha _)
  | field hmem hin => exact absurd rfl (ho _)

mutual

/-- The hook finds every repeated field. -/
theorem strict_iff : (value : Json) → (value.strict = true ↔ NoRepeats value)
  | .null => iff_of_true rfl (noRepeats_leaf (by simp) (by simp))
  | .bool _ => iff_of_true rfl (noRepeats_leaf (by simp) (by simp))
  | .int _ => iff_of_true rfl (noRepeats_leaf (by simp) (by simp))
  | .float _ => iff_of_true rfl (noRepeats_leaf (by simp) (by simp))
  | .string _ => iff_of_true rfl (noRepeats_leaf (by simp) (by simp))
  | .array items => by rw [noRepeats_array, Json.strict, strictItems_iff items]
  | .object pairs => by
    rw [noRepeats_object, Json.strict, Bool.and_eq_true, decide_eq_true_eq, strictPairs_iff pairs]

theorem strictItems_iff :
    (items : List Json) → (strictItems items = true ↔ ∀ item ∈ items, NoRepeats item)
  | [] => by simp [strictItems]
  | item :: items => by
    rw [strictItems, Bool.and_eq_true, strict_iff item, strictItems_iff items, List.forall_mem_cons]

theorem strictPairs_iff : (pairs : List (String × Json)) →
    (strictPairs pairs = true ↔ ∀ pair ∈ pairs, NoRepeats pair.2)
  | [] => by simp [strictPairs]
  | pair :: pairs => by
    rw [strictPairs, Bool.and_eq_true, strictPair_iff pair, strictPairs_iff pairs,
      List.forall_mem_cons]

theorem strictPair_iff : (pair : String × Json) → (strictPair pair = true ↔ NoRepeats pair.2)
  | (_, value) => by rw [strictPair, strict_iff value]

end

/-! ### The schema -/

/-- An object with this field. -/
def HasField (value : Json) (name : String) (content : Json) : Prop :=
  ∃ pairs, value = .object pairs ∧ (name, content) ∈ pairs

/-- An object with exactly these fields. -/
def HasExactly (value : Json) (names : List String) : Prop :=
  ∃ pairs, value = .object pairs ∧ ∀ name, name ∈ pairs.map Prod.fst ↔ name ∈ names

/-- The entry of a record: its fields are an id and a digest, each of its form. -/
structure IsEntry (entry : Json) (record : ApiKeyRecord) : Prop where
  fields : HasExactly entry ["id", "sha256"]
  id : HasField entry "id" (.string record.keyId)
  digest : HasField entry "sha256" (.string record.sha256)
  valid : ValidRecord record

/-- A key store with these records, in this order. -/
structure IsStore (requireNonempty : Bool) (value : Json) (records : List ApiKeyRecord) :
    Prop where
  noRepeats : NoRepeats value
  fields : HasExactly value ["schema_version", "keys"]
  version : HasField value "schema_version" (.int 1)
  keys : ∃ entries, HasField value "keys" (.array entries) ∧
    (requireNonempty = true → entries ≠ []) ∧ List.Forall₂ IsEntry entries records
  distinct : (records.map (·.keyId)).Nodup

section Lookup

variable {pairs : List (String × Json)} {name : String} {content : Json}

/-- With distinct names a lookup is membership. -/
theorem lookup_eq_some_iff (h : (pairs.map Prod.fst).Nodup) :
    pairs.lookup name = some content ↔ (name, content) ∈ pairs := by
  induction pairs with
  | nil => simp
  | cons pair pairs ih =>
    obtain ⟨other, value⟩ := pair
    rw [List.map_cons, List.nodup_cons] at h
    rw [List.lookup_cons, List.mem_cons, Prod.mk.injEq]
    by_cases hname : name = other
    · subst hname
      simp only [beq_self_eq_true, Option.some.injEq, true_and]
      constructor
      · intro hv
        exact .inl hv.symm
      · rintro (hv | hmem)
        · exact hv.symm
        · exact absurd (List.mem_map_of_mem hmem) h.1
    · rw [beq_false_of_ne hname]
      simp only [hname, false_and, false_or]
      exact ih h.2

theorem hasFields_iff {names : List String} :
    hasFields pairs names = true ↔ ∀ name, name ∈ pairs.map Prod.fst ↔ name ∈ names := by
  simp only [hasFields, Bool.and_eq_true, List.all_eq_true, List.contains_iff_mem]
  constructor
  · rintro ⟨hin, hout⟩ name
    refine ⟨?_, hout name⟩
    intro hmem
    obtain ⟨pair, hpair, rfl⟩ := List.mem_map.mp hmem
    exact hin pair hpair
  · intro h
    exact ⟨fun pair hpair ↦ (h pair.1).mp (List.mem_map_of_mem hpair),
      fun name hname ↦ (h name).mpr hname⟩

theorem hasField_object : HasField (.object pairs) name content ↔ (name, content) ∈ pairs := by
  simp [HasField]

theorem hasExactly_object {names : List String} :
    HasExactly (.object pairs) names ↔ ∀ name, name ∈ pairs.map Prod.fst ↔ name ∈ names := by
  simp [HasExactly]

/-- Two fields and no others, whatever their order. -/
theorem perm_of_fields {other : String} {content' : Json} (hne : name ≠ other)
    (hnodup : (pairs.map Prod.fst).Nodup)
    (hfields : ∀ x, x ∈ pairs.map Prod.fst ↔ x ∈ [name, other])
    (hmem : (name, content) ∈ pairs) (hmem' : (other, content') ∈ pairs) :
    pairs.Perm [(name, content), (other, content')] := by
  have hpair : [(name, content), (other, content')].Nodup := by simp [hne]
  rw [List.perm_ext_iff_of_nodup (List.Nodup.of_map _ hnodup) hpair]
  intro pair
  constructor
  · intro hp
    have hin := (hfields pair.1).mp (List.mem_map_of_mem hp)
    simp only [List.mem_cons, List.not_mem_nil, or_false] at hin ⊢
    rcases hin with hname | hname
    · exact .inl (List.inj_on_of_nodup_map hnodup hp hmem hname)
    · exact .inr (List.inj_on_of_nodup_map hnodup hp hmem' hname)
  · simp only [List.mem_cons, List.not_mem_nil, or_false]
    rintro (rfl | rfl)
    · exact hmem
    · exact hmem'

end Lookup

/-! ### The reader takes the schema -/

/-- A checked computation in two parts. -/
theorem bind_eq_ok {α β : Type} {x : Checked α} {f : α → Checked β} {b : β} :
    x.bind f = .ok b ↔ ∃ a, x = .ok a ∧ f a = .ok b := by
  cases x with
  | error message => simp [Except.bind]
  | ok a => simp [Except.bind]

theorem validateKeyId_eq_ok {value : Json} {k : String} :
    validateKeyId value = .ok k ↔ value = .string k ∧ keyIdPattern k.toList = true := by
  unfold validateKeyId
  split
  · next s =>
    split
    · next h =>
      simp only [Except.ok.injEq, Json.string.injEq]
      exact ⟨fun heq ↦ ⟨heq, heq ▸ h⟩, And.left⟩
    · next h =>
      simp only [reduceCtorEq, Json.string.injEq, false_iff]
      rintro ⟨rfl, hk⟩
      exact h hk
  · next h =>
    simp only [reduceCtorEq, false_iff]
    rintro ⟨rfl, -⟩
    exact h k rfl

theorem validateDigest_eq_ok {value : Option Json} {d : String} :
    validateDigest value = .ok d ↔ value = some (.string d) ∧ digestPattern d.toList = true := by
  unfold validateDigest
  split
  · next s =>
    split
    · next h =>
      simp only [Except.ok.injEq, Option.some.injEq, Json.string.injEq]
      exact ⟨fun heq ↦ ⟨heq, heq ▸ h⟩, And.left⟩
    · next h =>
      simp only [reduceCtorEq, Option.some.injEq, Json.string.injEq, false_iff]
      rintro ⟨rfl, hd⟩
      exact h hd
  · next h =>
    simp only [reduceCtorEq, false_iff]
    rintro ⟨rfl, -⟩
    exact h d rfl

/-- An entry is taken exactly when it is the entry of a new record. -/
theorem validateEntry_eq_ok {seen : List String} {entry : Json} {record : ApiKeyRecord}
    (hstrict : NoRepeats entry) :
    validateEntry seen entry = .ok record ↔ IsEntry entry record ∧ record.keyId ∉ seen := by
  unfold validateEntry
  split
  · next pairs =>
    have hnodup := (noRepeats_object.mp hstrict).1
    split
    · next hfields =>
      simp only [bind_eq_ok, validateKeyId_eq_ok, validateDigest_eq_ok]
      constructor
      · rintro ⟨keyId, ⟨hid, hkey⟩, sha256, ⟨hdigest, hhex⟩, h⟩
        split at h
        · cases h
        · next hnew =>
          cases h
          have hlookup : pairs.lookup "id" = some (.string keyId) := by
            cases hl : pairs.lookup "id" with
            | none =>
              rw [hl] at hid
              cases hid
            | some value =>
              rw [hl] at hid
              exact congrArg some hid
          rw [List.contains_iff_mem] at hnew
          exact ⟨⟨hasExactly_object.mpr (hasFields_iff.mp hfields),
            hasField_object.mpr ((lookup_eq_some_iff hnodup).mp hlookup),
            hasField_object.mpr ((lookup_eq_some_iff hnodup).mp hdigest), hkey, hhex⟩, hnew⟩
      · rintro ⟨hentry, hnew⟩
        have hid := (lookup_eq_some_iff hnodup).mpr (hasField_object.mp hentry.id)
        have hdigest := (lookup_eq_some_iff hnodup).mpr (hasField_object.mp hentry.digest)
        refine ⟨record.keyId, ⟨by rw [hid]; rfl, hentry.valid.1⟩, record.sha256,
          ⟨hdigest, hentry.valid.2⟩, ?_⟩
        rw [if_neg (by rwa [List.contains_iff_mem])]
    · next hfields =>
      simp only [reduceCtorEq, false_iff]
      rintro ⟨hentry, -⟩
      exact hfields (hasFields_iff.mpr (hasExactly_object.mp hentry.fields))
  · next h =>
    simp only [reduceCtorEq, false_iff]
    rintro ⟨hentry, -⟩
    obtain ⟨pairs, rfl, -⟩ := hentry.fields
    exact h pairs rfl

/-- The loop takes entries of distinct new records. -/
theorem validateEntries_eq_ok {seen : List String} {entries : List Json}
    {records : List ApiKeyRecord} (hstrict : ∀ entry ∈ entries, NoRepeats entry) :
    validateEntries seen entries = .ok records ↔
      List.Forall₂ IsEntry entries records ∧ (records.map (·.keyId)).Nodup ∧
        ∀ record ∈ records, record.keyId ∉ seen := by
  induction entries generalizing seen records with
  | nil =>
    rw [validateEntries, List.forall₂_nil_left_iff]
    constructor
    · intro h
      cases h
      simp
    · rintro ⟨rfl, -, -⟩
      rfl
  | cons entry entries ih =>
    have hrest := fun e he ↦ hstrict e (List.mem_cons_of_mem _ he)
    rw [validateEntries, bind_eq_ok, List.forall₂_cons_left_iff]
    constructor
    · rintro ⟨record, hentry, h⟩
      obtain ⟨hentry, hnew⟩ := (validateEntry_eq_ok (hstrict entry List.mem_cons_self)).mp hentry
      cases htail : validateEntries (record.keyId :: seen) entries with
      | error message =>
        rw [htail] at h
        cases h
      | ok tail =>
        rw [htail] at h
        cases h
        obtain ⟨hentries, hnodup, hseen⟩ := (ih hrest).mp htail
        refine ⟨⟨record, tail, hentry, hentries, rfl⟩, ?_, ?_⟩
        · rw [List.map_cons, List.nodup_cons]
          refine ⟨?_, hnodup⟩
          intro hmem
          obtain ⟨other, hother, heq⟩ := List.mem_map.mp hmem
          exact hseen other hother (heq ▸ List.mem_cons_self)
        · rw [List.forall_mem_cons]
          exact ⟨hnew, fun other hother hin ↦ hseen other hother (List.mem_cons_of_mem _ hin)⟩
    · rintro ⟨⟨record, tail, hentry, hentries, rfl⟩, hnodup, hseen⟩
      rw [List.map_cons, List.nodup_cons] at hnodup
      rw [List.forall_mem_cons] at hseen
      refine ⟨record, (validateEntry_eq_ok (hstrict entry List.mem_cons_self)).mpr
        ⟨hentry, hseen.1⟩, ?_⟩
      have htail : validateEntries (record.keyId :: seen) entries = .ok tail := by
        refine (ih hrest).mpr ⟨hentries, hnodup.2, ?_⟩
        intro other hother hin
        rcases List.mem_cons.mp hin with heq | hin
        · exact hnodup.1 (List.mem_map.mpr ⟨other, hother, heq⟩)
        · exact hseen.2 other hother hin
      rw [htail]
      rfl

/-- The reader takes a value exactly when it is a key store, and returns its records. -/
theorem validateValue_eq_ok {requireNonempty : Bool} {value : Json} {records : List ApiKeyRecord} :
    validateValue requireNonempty value = .ok records ↔ IsStore requireNonempty value records := by
  unfold validateValue
  by_cases hstrict : NoRepeats value
  · rw [if_pos ((strict_iff value).mpr hstrict)]
    unfold validateDocument
    split
    · next pairs =>
      obtain ⟨hnodup, hparts⟩ := noRepeats_object.mp hstrict
      split
      · next hfields =>
        split
        · next entries hversion hkeys =>
          have hmem := (lookup_eq_some_iff hnodup).mp hkeys
          have hentries := noRepeats_array.mp (hparts _ hmem)
          constructor
          · intro h
            split at h
            · cases h
            · next hne =>
              obtain ⟨hall, hdistinct, -⟩ := (validateEntries_eq_ok hentries).mp h
              refine ⟨hstrict, hasExactly_object.mpr (hasFields_iff.mp hfields),
                hasField_object.mpr ((lookup_eq_some_iff hnodup).mp hversion),
                ⟨entries, hasField_object.mpr hmem, ?_, hall⟩, hdistinct⟩
              intro hr hnil
              exact hne (by simp [hr, hnil])
          · intro h
            obtain ⟨entries', hkeys', hne, hall⟩ := h.keys
            have hsame := (lookup_eq_some_iff hnodup).mpr (hasField_object.mp hkeys')
            rw [hkeys] at hsame
            cases hsame
            rw [if_neg (by simpa using hne)]
            exact (validateEntries_eq_ok hentries).mpr ⟨hall, h.distinct, by simp⟩
        · next hversion hnot =>
          simp only [reduceCtorEq, false_iff]
          intro h
          obtain ⟨entries, hkeys, -, -⟩ := h.keys
          exact hnot entries ((lookup_eq_some_iff hnodup).mpr (hasField_object.mp hkeys))
        · next hnot _ =>
          simp only [reduceCtorEq, false_iff]
          intro h
          have hversion := (lookup_eq_some_iff hnodup).mpr (hasField_object.mp h.version)
          exact hnot hversion
      · next hfields =>
        simp only [reduceCtorEq, false_iff]
        intro h
        exact hfields (hasFields_iff.mpr (hasExactly_object.mp h.fields))
    · next h =>
      simp only [reduceCtorEq, false_iff]
      intro hstore
      obtain ⟨pairs, rfl, -⟩ := hstore.fields
      exact h pairs rfl
  · rw [if_neg (fun h ↦ hstrict ((strict_iff value).mp h))]
    simp only [reduceCtorEq, false_iff]
    intro h
    exact hstrict h.noRepeats

/-! ### The reader and the writer -/

mutual

/-- The same value up to the order of fields, as Python compares dictionaries. -/
inductive SameContent : Json → Json → Prop
  | refl (value : Json) : SameContent value value
  | array {xs ys : List Json} (h : SameItems xs ys) : SameContent (.array xs) (.array ys)
  | object {pairs pairs' fields : List (String × Json)} (hperm : pairs.Perm pairs')
      (h : SamePairs pairs' fields) : SameContent (.object pairs) (.object fields)

inductive SameItems : List Json → List Json → Prop
  | nil : SameItems [] []
  | cons {x y : Json} {xs ys : List Json} (h : SameContent x y) (hs : SameItems xs ys) :
      SameItems (x :: xs) (y :: ys)

inductive SamePairs : List (String × Json) → List (String × Json) → Prop
  | nil : SamePairs [] []
  | cons {name : String} {x y : Json} {xs ys : List (String × Json)} (h : SameContent x y)
      (hs : SamePairs xs ys) : SamePairs ((name, x) :: xs) ((name, y) :: ys)

end

/-- An entry has the content of its record's entry. -/
theorem IsEntry.sameContent {entry : Json} {record : ApiKeyRecord} (h : IsEntry entry record)
    (hstrict : NoRepeats entry) : SameContent entry (entryOf record) := by
  obtain ⟨pairs, rfl, hfields⟩ := h.fields
  have hperm := perm_of_fields (by decide) (noRepeats_object.mp hstrict).1 hfields
    (hasField_object.mp h.id) (hasField_object.mp h.digest)
  exact .object hperm (.cons (.refl _) (.cons (.refl _) .nil))

theorem sameItems_of_entries {entries : List Json} {records : List ApiKeyRecord}
    (hstrict : ∀ entry ∈ entries, NoRepeats entry) (h : List.Forall₂ IsEntry entries records) :
    SameItems entries (records.map entryOf) := by
  induction h with
  | nil => exact .nil
  | cons hentry _ ih =>
    refine .cons (hentry.sameContent (hstrict _ List.mem_cons_self)) (ih ?_)
    intro entry hmem
    exact hstrict entry (List.mem_cons_of_mem _ hmem)

/-- A key store has the content of its records' document. -/
theorem IsStore.sameContent {requireNonempty : Bool} {value : Json} {records : List ApiKeyRecord}
    (h : IsStore requireNonempty value records) : SameContent value (document records) := by
  obtain ⟨pairs, rfl, hfields⟩ := h.fields
  obtain ⟨entries, hkeys, -, hall⟩ := h.keys
  obtain ⟨hnodup, hparts⟩ := noRepeats_object.mp h.noRepeats
  have hmem := hasField_object.mp hkeys
  have hperm := perm_of_fields (by decide) hnodup hfields (hasField_object.mp h.version) hmem
  have hitems := sameItems_of_entries (noRepeats_array.mp (hparts _ hmem)) hall
  exact .object hperm (.cons (.refl _) (.cons (.array hitems) .nil))

/-- The document of valid records is a key store. -/
theorem isStore_document {records : List ApiKeyRecord} (h : ValidRecords records) :
    IsStore false (document records) records := by
  rw [← validateValue_eq_ok, validateValue, if_pos (strict_document records)]
  exact validateDocument_document h

/-- The reader takes a JSON value exactly when it is a key store: no object repeats a field, the
objects have exactly their fields, the version is the integer 1, the ids and digests have their
forms, the ids are distinct, and there is a key when one is required. It returns the records in
order, and their document has the value's content. Reading a document of valid records gives them
back, and `generate_key` and `revoke_key` write only such documents. -/
theorem key_store_schema_exact (codec : KeyCodec) (requireNonempty : Bool) (value : Json) :
    (∀ records, validateValue requireNonempty value = .ok records ↔
      IsStore requireNonempty value records) ∧
    (∀ records, validateValue requireNonempty value = .ok records →
      SameContent value (document records)) ∧
    (∀ records, ValidRecords records → (requireNonempty = true → records ≠ []) →
      validateDocument requireNonempty (document records) = .ok records) ∧
    ∀ op : Operation, (op.code codec).Calls fun c ↦ ∀ t payload, c = .write t payload →
      ∃ records, payload = codec.dumps (document records) ∧
        IsStore false (document records) records := by
  refine ⟨fun _ ↦ validateValue_eq_ok, ?_, ?_, ?_⟩
  · intro records h
    exact (validateValue_eq_ok.mp h).sameContent
  · intro records hvalid hne
    cases requireNonempty with
    | false => exact validateDocument_document hvalid
    | true => rw [validateDocument_nonempty, if_neg (hne rfl), validateDocument_document hvalid]
  · intro op
    apply (keeps_code codec op).calls
    intro m c hallowed t payload hc
    subst hc
    obtain ⟨-, base, edited, -, happly, rfl⟩ := hallowed
    obtain ⟨records, hid, hread, hedit⟩ := Operation.apply_ok happly
    obtain ⟨hvalid, -⟩ := Operation.edit_valid hid (Operation.recordsIn_valid hread) hedit
    exact ⟨edited, rfl, isStore_document hvalid⟩

/-- A store whose fields are written in the other order. -/
theorem key_store_schema_exact_reversed :
    validateValue true (.object [("keys", .array [.object [
        ("sha256", .string (plainCodec.sha256 ['a', '.', 'x'])), ("id", .string "a")]]),
        ("schema_version", .int 1)]) = .ok [recordOf plainCodec "a" ['x']] ∧
      SameContent (.object [("keys", .array [.object [
          ("sha256", .string (plainCodec.sha256 ['a', '.', 'x'])), ("id", .string "a")]]),
          ("schema_version", .int 1)])
        (document [recordOf plainCodec "a" ['x']]) := by
  have hvalue : validateValue true (.object [("keys", .array [.object [
      ("sha256", .string (plainCodec.sha256 ['a', '.', 'x'])), ("id", .string "a")]]),
      ("schema_version", .int 1)]) = .ok [recordOf plainCodec "a" ['x']] := by decide +kernel
  exact ⟨hvalue, (key_store_schema_exact plainCodec true _).2.1 _ hvalue⟩

end InferenceServer.Security
