import InferenceServer.Security.Protocol

/-!
# Failed operations

Library `Security`. One operation alone, with any of its filesystem calls failing. The commit
point is `os.replace`; the calls after it (`chmod`, the directory's `open`, `fsync` and `close`,
and giving back the lock) are still inside the operation, so a failure there is reported for an
operation that took place.
-/

namespace InferenceServer.Security

open InferenceServer.Base InferenceServer.Server

/-! ### Runs with failures -/

/-- An operation on its way: the files, which of the next calls fail, and the calls made so far
with whether each succeeded. -/
structure Trial where
  fs : FileSystem
  faults : List (Option OSError) := []
  log : List (Call × Bool) := []
  deriving DecidableEq

/-- The next call. A failing call leaves the files alone. -/
def Trial.answer (s : Trial) (c : Call) : Reply c × Trial :=
  match s.faults.headD none with
  | some e => (.error e, { s with faults := s.faults.tail, log := s.log ++ [(c, false)] })
  | none =>
    match s.fs.perform c with
    | (.ok a, fs) => (.ok a, { fs, faults := s.faults.tail, log := s.log ++ [(c, true)] })
    | (.error e, fs) => (.error e, { fs, faults := s.faults.tail, log := s.log ++ [(c, false)] })

/-- An operation from its first call to its end. -/
def Operation.attempt (codec : KeyCodec) (op : Operation) (fs : FileSystem)
    (faults : List (Option OSError)) : Except Failure (Option (List Char)) × Trial :=
  (op.code codec).exec Trial.answer { fs, faults }

/-- A replacement that succeeded. -/
def isReplacement : Call × Bool → Bool
  | (.replace _, true) => true
  | _ => false

/-- A call failed after a replacement. -/
def failedAfterReplace : List (Call × Bool) → Bool
  | [] => false
  | entry :: log =>
    if isReplacement entry then log.any fun later ↦ !later.2 else failedAfterReplace log

theorem failedAfterReplace_snoc (log : List (Call × Bool)) (entry : Call × Bool) :
    failedAfterReplace (log ++ [entry]) =
      (failedAfterReplace log || (log.any isReplacement && !entry.2)) := by
  induction log with
  | nil =>
    cases hentry : isReplacement entry <;> simp [failedAfterReplace, hentry]
  | cons first log ih =>
    rw [List.cons_append, failedAfterReplace, failedAfterReplace, List.any_cons]
    split
    · next hfirst => simp [hfirst]
    · next hfirst => simp [hfirst, ih]

/-! ### What an operation changes -/

theorem validRecord_recordOf {codec : KeyCodec} {keyId : String} {secret : List Char}
    (h : keyIdPattern keyId.toList = true) : ValidRecord (recordOf codec keyId secret) :=
  ⟨h, codec.digestPattern_sha256 _⟩

/-- Both edits of valid records give different valid records. -/
theorem Operation.edit_valid {codec : KeyCodec} {op : Operation}
    {records edited : List ApiKeyRecord} (hid : keyIdPattern op.keyId.toList = true)
    (hvalid : ValidRecords records) (h : op.edit codec records = .ok edited) :
    ValidRecords edited ∧ edited.length ≠ records.length := by
  cases op with
  | generate keyId secret =>
    simp only [edit, addKey] at h
    split at h
    · cases h
    · next hnew =>
      cases h
      rw [List.any_eq_true, not_exists] at hnew
      refine ⟨⟨?_, ?_⟩, ?_⟩
      · intro record hmem
        rcases List.mem_append.mp hmem with hmem | hmem
        · exact hvalid.record record hmem
        · cases List.mem_singleton.mp hmem
          exact validRecord_recordOf hid
      · rw [List.map_append, List.map_singleton, List.nodup_append]
        refine ⟨hvalid.nodup, List.nodup_cons.mpr ⟨List.not_mem_nil, List.nodup_nil⟩, ?_⟩
        intro a ha b hb heq
        obtain ⟨record, hmem, rfl⟩ := List.mem_map.mp ha
        cases List.mem_singleton.mp hb
        exact hnew record ⟨hmem, by simpa [recordOf] using heq⟩
      · rw [List.length_append, List.length_singleton]
        omega
  | revoke keyId =>
    simp only [edit, removeKey] at h
    split at h
    · cases h
    · next hne =>
      cases h
      refine ⟨⟨?_, ?_⟩, hne⟩
      · intro record hmem
        exact hvalid.record record (List.mem_of_mem_filter hmem)
      · exact hvalid.nodup.sublist (List.filter_sublist.map _)

theorem validateKeyId_pattern {keyId checked : String}
    (h : validateKeyId (.string keyId) = .ok checked) : keyIdPattern keyId.toList = true := by
  simp only [validateKeyId] at h
  split at h
  · next hpattern => exact hpattern
  · cases h

/-- The parts of an operation that took place. -/
theorem Operation.apply_ok {codec : KeyCodec} {op : Operation} {base : Option Bytes}
    {edited : List ApiKeyRecord} (h : op.apply codec base = .ok edited) :
    ∃ records, keyIdPattern op.keyId.toList = true ∧ op.recordsIn codec base = .ok records ∧
      op.edit codec records = .ok edited := by
  unfold apply at h
  cases hid : validateKeyId (.string op.keyId) with
  | error message =>
    rw [hid] at h
    cases h
  | ok checked =>
    rw [hid, Except.bind] at h
    cases hread : op.recordsIn codec base with
    | error message =>
      rw [hread] at h
      cases h
    | ok records =>
      rw [hread] at h
      exact ⟨records, validateKeyId_pattern hid, rfl, h⟩

theorem Operation.recordsIn_valid {codec : KeyCodec} {op : Operation} {base : Option Bytes}
    {records : List ApiKeyRecord} (h : op.recordsIn codec base = .ok records) :
    ValidRecords records := by
  cases base with
  | none =>
    cases op with
    | generate =>
      cases h
      exact ⟨fun _ hr ↦ absurd hr List.not_mem_nil, List.nodup_nil⟩
    | revoke => cases h
  | some raw => cases op <;> exact parseKeyFile_valid h

/-- An operation that takes place changes the bytes of the store. -/
theorem Operation.apply_changes {codec : KeyCodec} {op : Operation} {base : Option Bytes}
    {edited : List ApiKeyRecord} (h : op.apply codec base = .ok edited) :
    base ≠ some (codec.encode edited) := by
  obtain ⟨records, hid, hread, hedit⟩ := apply_ok h
  obtain ⟨hvalid, hlength⟩ := edit_valid hid (recordsIn_valid hread) hedit
  rintro rfl
  have hsame : op.recordsIn codec (some (codec.encode edited)) = .ok edited := by
    cases op <;> exact parseKeyFile_encode_all codec hvalid
  rw [hsame] at hread
  cases hread
  exact hlength rfl

/-! ### The store after a failure -/

/-- What was read before the replacement, and whether a call failed after it. -/
def Phase.commit : Phase → Option (Option Bytes × Bool)
  | .replaced base _ failed => some (base, failed)
  | _ => none

theorem Phase.commit_fail (phase : Phase) :
    phase.fail.commit = phase.commit.map fun c ↦ (c.1, true) := by
  cases phase <;> rfl

/-- Only `os.replace` commits. -/
theorem Phase.commit_advance {codec : KeyCodec} {op : Operation} {m : Mode} {c : Call}
    (ha : m.allows codec op c) (hc : ∀ t, c ≠ .replace t) (a : c.Answer) :
    (m.phase.advance codec op c a).commit = m.phase.commit := by
  cases c with
  | «exists» =>
    rw [ha.2]
    cases a <;> rfl
  | openStore =>
    rw [ha.2]
    rfl
  | read i =>
    rw [ha.2]
    rfl
  | mkstemp =>
    obtain ⟨-, base, hphase⟩ := ha
    rw [hphase]
    rfl
  | write t payload =>
    obtain ⟨-, base, records, hphase, happly, -⟩ := ha
    rw [hphase]
    simp only [advance, happly]
    rfl
  | flush t =>
    obtain ⟨-, base, records, hphase⟩ := ha
    rw [hphase]
    rfl
  | replace t => exact absurd rfl (hc t)
  | unlink t =>
    change m.phase.unlinked.commit = _
    cases m.phase <;> rfl
  | _ => rfl

/-- Every other call leaves the bytes of the store alone. -/
theorem FileSystem.bytes_perform {codec : KeyCodec} {op : Operation} {m : Mode} {c : Call}
    {fs : FileSystem} (h : m.phase.Holds codec op fs) (ha : m.allows codec op c)
    (hc : ∀ t, c ≠ .replace t) : (fs.perform c).2.bytes = fs.bytes := by
  cases c with
  | openStore => cases hs : fs.store <;> simp only [perform, hs]
  | read i => cases hs : fs.inodes[i]? <;> simp only [perform, hs]
  | mkstemp => exact bytes_create
  | write t payload =>
    obtain ⟨-, base, records, hphase, -⟩ := ha
    rw [hphase] at h
    exact bytes_modify h.2.1 _
  | flush t =>
    obtain ⟨-, base, records, hphase⟩ := ha
    rw [hphase] at h
    exact bytes_modify h.2.1.1 _
  | replace t => exact absurd rfl (hc t)
  | unlink t =>
    by_cases ht : t ∈ fs.temporaries
    · simp only [perform, ht, ↓reduceIte]
      rfl
    · simp only [perform, ht, ↓reduceIte]
  | _ => rfl

theorem FileSystem.perform_error {fs fs' : FileSystem} {c : Call} {e : OSError}
    (h : fs.perform c = (.error e, fs')) : fs' = fs := by
  cases c with
  | openStore =>
    cases hs : fs.store <;> simp only [perform, hs] at h <;> cases h
    rfl
  | read i =>
    cases hs : fs.inodes[i]? <;> simp only [perform, hs] at h <;> cases h
    rfl
  | replace t =>
    by_cases ht : t ∈ fs.temporaries <;> simp only [perform, ht, ↓reduceDIte] at h <;> cases h
    rfl
  | unlink t =>
    by_cases ht : t ∈ fs.temporaries <;> simp only [perform, ht, ↓reduceIte] at h <;> cases h
    rfl
  | _ => cases h

/-- A call fails and leaves the files alone, or does what it does. -/
theorem Trial.answer_cases (s : Trial) (c : Call) :
    (∃ e, s.answer c =
      (.error e, { s with faults := s.faults.tail, log := s.log ++ [(c, false)] })) ∨
    ∃ a fs, s.fs.perform c = (.ok a, fs) ∧
      s.answer c = (.ok a, { fs, faults := s.faults.tail, log := s.log ++ [(c, true)] }) := by
  unfold answer
  split
  · next e _ => exact .inl ⟨e, rfl⟩
  · split
    · next a fs hperform => exact .inr ⟨a, fs, hperform, rfl⟩
    · next e fs hperform =>
      rw [FileSystem.perform_error hperform]
      exact .inl ⟨e, rfl⟩

/-- Modes and runs: until the replacement the store has its bytes `base`, and the log says what
the mode says. -/
structure Follows (codec : KeyCodec) (op : Operation) (base : Option Bytes) (m : Mode)
    (s : Trial) : Prop where
  holds : m.phase.Holds codec op s.fs
  committed : s.log.any isReplacement = m.phase.commit.isSome
  failed : failedAfterReplace s.log = m.phase.commit.any (·.2)
  unchanged : m.phase.commit = none → s.fs.bytes = base
  read : ∀ c, m.phase.commit = some c → c.1 = base

theorem follows_start (codec : KeyCodec) (op : Operation) (fs : FileSystem)
    (faults : List (Option OSError)) : Follows codec op fs.bytes {} { fs, faults } where
  holds := trivial
  committed := rfl
  failed := rfl
  unchanged _ := rfl
  read _ h := by cases h

theorem isReplacement_of_ne {c : Call} (hc : ∀ t, c ≠ .replace t) (b : Bool) :
    isReplacement (c, b) = false := by
  cases c with
  | replace t => exact absurd rfl (hc t)
  | _ => rfl

/-- Every allowed call, whether it fails or not. -/
theorem Follows.answer {codec : KeyCodec} {op : Operation} {base : Option Bytes} {m : Mode}
    {s : Trial} {c : Call} (h : Follows codec op base m s) (ha : m.allows codec op c) :
    Follows codec op base (m.next codec op c (s.answer c).1) (s.answer c).2 := by
  rcases s.answer_cases c with ⟨e, heq⟩ | ⟨a, fs, hperform, heq⟩
  · rw [heq]
    have hno : isReplacement (c, false) = false := by cases c <;> rfl
    refine ⟨h.holds.fail, ?_, ?_, ?_, ?_⟩
    · change (s.log ++ [(c, false)]).any isReplacement = m.phase.fail.commit.isSome
      rw [List.any_append, List.any_cons, hno, h.committed, m.phase.commit_fail]
      cases m.phase.commit <;> rfl
    · change failedAfterReplace (s.log ++ [(c, false)]) = m.phase.fail.commit.any (·.2)
      rw [failedAfterReplace_snoc, h.failed, h.committed, m.phase.commit_fail]
      cases m.phase.commit with
      | none => rfl
      | some c => cases c.2 <;> simp
    · intro hnone
      apply h.unchanged
      rw [show (m.next codec op c (.error e)).phase = m.phase.fail from rfl,
        m.phase.commit_fail, Option.map_eq_none_iff] at hnone
      exact hnone
    · intro k hk
      rw [show (m.next codec op c (.error e)).phase = m.phase.fail from rfl,
        m.phase.commit_fail, Option.map_eq_some_iff] at hk
      obtain ⟨k₀, hk₀, rfl⟩ := hk
      exact h.read k₀ hk₀
  · have hholds := h.holds.perform ha
    rw [hperform] at hholds
    rw [heq]
    by_cases hc : ∃ t, c = .replace t
    · obtain ⟨t, rfl⟩ := hc
      obtain ⟨-, read, records, hphase⟩ := ha
      have hcommit : m.phase.commit = none := by
        rw [hphase]
        rfl
      have hread : read = base := by
        have hbytes := h.holds
        rw [hphase] at hbytes
        rw [← h.unchanged hcommit, hbytes.1]
      have hnext : (m.next codec op (.replace t) (.ok a)).phase = .replaced read records false := by
        change m.phase.advance codec op (.replace t) a = _
        rw [hphase]
        rfl
      refine ⟨hholds, ?_, ?_, ?_, ?_⟩
      · rw [hnext, List.any_append]
        exact Bool.or_true _
      · rw [hnext, failedAfterReplace_snoc, h.failed, hcommit]
        exact Bool.and_false _
      · rw [hnext]
        exact fun hnone ↦ by cases hnone
      · rw [hnext]
        rintro _ ⟨⟩
        exact hread
    · have hc : ∀ t, c ≠ .replace t := fun t ht ↦ hc ⟨t, ht⟩
      have hcommit : (m.next codec op c (.ok a)).phase.commit = m.phase.commit :=
        Phase.commit_advance ha hc a
      have hbytes : fs.bytes = s.fs.bytes := by
        have hb := FileSystem.bytes_perform h.holds ha hc
        rw [hperform] at hb
        exact hb
      refine ⟨hholds, ?_, ?_, ?_, ?_⟩
      · rw [hcommit, List.any_append, List.any_cons, isReplacement_of_ne hc, h.committed]
        simp
      · rw [hcommit, failedAfterReplace_snoc, h.failed]
        simp
      · rw [hcommit]
        exact fun hnone ↦ hbytes.trans (h.unchanged hnone)
      · rw [hcommit]
        exact h.read

/-- Where an operation ends: a result means a replacement and no failure after it. -/
theorem Operation.attempt_follows (codec : KeyCodec) (op : Operation) (fs : FileSystem)
    (faults : List (Option OSError)) :
    ∃ m, Follows codec op fs.bytes m (op.attempt codec fs faults).2 ∧
      (m.phase.isDone = true ↔ ∃ token, (op.attempt codec fs faults).1 = .ok token) := by
  obtain ⟨m, hm, hend⟩ := (keeps_code codec op).exec (J := Follows codec op fs.bytes)
    (fun _ _ _ h ha ↦ Follows.answer h ha) (follows_start codec op fs faults)
  refine ⟨m, hm, ?_⟩
  unfold attempt
  generalize (op.code codec).exec Trial.answer { fs, faults } = result at hend ⊢
  obtain ⟨outcome, s⟩ := result
  cases outcome with
  | ok token => exact ⟨fun _ ↦ ⟨token, rfl⟩, fun _ ↦ hend⟩
  | error e =>
    constructor
    · intro hdone
      rw [show m.phase.isDone = false from hend] at hdone
      cases hdone
    · rintro ⟨token, htoken⟩
      cases htoken

/-- An operation that raises leaves the bytes of the store as they were exactly when no call
failed after a replacement. -/
theorem failure_keeps_store_iff (codec : KeyCodec) (op : Operation) (fs : FileSystem)
    (faults : List (Option OSError)) :
    ((∃ e, (op.attempt codec fs faults).1 = .error e) →
        (op.attempt codec fs faults).2.fs.bytes = fs.bytes) ↔
      failedAfterReplace (op.attempt codec fs faults).2.log = false := by
  obtain ⟨m, hm, hdone⟩ := op.attempt_follows codec fs faults
  generalize hresult : op.attempt codec fs faults = result at hm hdone ⊢
  obtain ⟨outcome, s⟩ := result
  rw [hm.failed]
  cases hphase : m.phase with
  | replaced base records failed =>
    have hbase : base = fs.bytes := hm.read (base, failed) (by rw [hphase]; rfl)
    have hholds := hm.holds
    rw [hphase] at hholds
    have hchanged : s.fs.bytes ≠ fs.bytes := by
      rw [hholds.1, ← hbase]
      exact (Operation.apply_changes hholds.2).symm
    rw [hphase] at hdone
    cases failed with
    | false =>
      obtain ⟨token, htoken⟩ := hdone.mp rfl
      refine ⟨fun _ ↦ rfl, fun _ ⟨e, he⟩ ↦ ?_⟩
      rw [htoken] at he
      cases he
    | true =>
      have hraised : ∃ e, outcome = .error e := by
        cases outcome with
        | error e => exact ⟨e, rfl⟩
        | ok token => exact absurd (hdone.mpr ⟨token, rfl⟩) Bool.false_ne_true
      exact ⟨fun h ↦ absurd (h hraised) hchanged, fun h ↦ by cases h⟩
  | _ =>
    have hsame := hm.unchanged (by rw [hphase]; rfl)
    exact ⟨fun _ ↦ rfl, fun _ _ ↦ hsame⟩

/-- `os.chmod` fails after the replacement: the generation of the first key raises, and the key
is in the store. -/
def chmodFails : Except Failure (Option (List Char)) × Trial :=
  (Operation.generate "k" ['s']).attempt plainCodec {}
    (List.replicate 14 none ++ [some OSError.other])

theorem failed_chmod_keeps_key :
    chmodFails.1 = .error (.keyFile "API-key store could not be written") ∧
      chmodFails.2.log.getLast? = some (.close .lock, true) ∧
      (.chmod, false) ∈ chmodFails.2.log ∧ ({} : FileSystem).bytes = none ∧
      chmodFails.2.fs.bytes = some (plainCodec.encode [recordOf plainCodec "k" ['s']]) := by
  refine ⟨by rfl, by rfl, by decide +kernel, rfl, by decide +kernel⟩

end InferenceServer.Security
