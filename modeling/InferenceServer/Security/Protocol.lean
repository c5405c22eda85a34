import InferenceServer.Security.KeyStore

/-!
# The order of the key store's calls

Library `Security`. The locking and replacing discipline of `keys.py:112–200` as an automaton:
the lock comes first, then one look at the store, then a temporary file with the bytes that this
look calls for, then the replacement. The code of both operations keeps to it whatever its calls
answer.
-/

namespace InferenceServer.Security

open InferenceServer.Base InferenceServer.Server

/-- How far an operation is, and what it has read. -/
inductive Phase where
  | start
  /-- the store is open as inode `i` -/
  | opened (i : Nat)
  | based (base : Option Bytes)
  | created (base : Option Bytes) (t : Nat)
  | written (base : Option Bytes) (t : Nat) (records : List ApiKeyRecord)
  | flushed (base : Option Bytes) (t : Nat) (records : List ApiKeyRecord)
  /-- `os.replace` returned; whether a later call failed -/
  | replaced (base : Option Bytes) (records : List ApiKeyRecord) (failed : Bool)

namespace Phase

/-- The temporary file of the operation. -/
def temporary : Phase → Option Nat
  | .created _ t => some t
  | .written _ t _ => some t
  | .flushed _ t _ => some t
  | _ => none

/-- A call failed. -/
def fail : Phase → Phase
  | .replaced base records _ => .replaced base records true
  | phase => phase

/-- The temporary file is unlinked. -/
def unlinked : Phase → Phase
  | .created base _ => .based base
  | .written base _ _ => .based base
  | .flushed base _ _ => .based base
  | phase => phase

/-- The store was replaced and nothing failed since. -/
def isDone : Phase → Bool
  | .replaced _ _ false => true
  | _ => false

theorem isDone_fail (phase : Phase) : phase.fail.isDone = false := by
  cases phase <;> rfl

theorem temporary_fail (phase : Phase) : phase.fail.temporary = phase.temporary := by
  cases phase <;> rfl

/-- A call returned. -/
def advance (codec : KeyCodec) (op : Operation) (phase : Phase) : (c : Call) → c.Answer → Phase
  | .exists, true => phase
  | .exists, false => .based none
  | .openStore, i => .opened i
  | .read _, raw => .based (some raw)
  | .mkstemp, t =>
    match phase with
    | .based base => .created base t
    | _ => phase
  | .write _ _, _ =>
    match phase with
    | .created base t =>
      match op.apply codec base with
      | .ok records => .written base t records
      | .error _ => phase
    | _ => phase
  | .flush _, _ =>
    match phase with
    | .written base t records => .flushed base t records
    | _ => phase
  | .replace _, _ =>
    match phase with
    | .flushed base _ records => .replaced base records false
    | _ => phase
  | .unlink _, _ => phase.unlinked
  | _, _ => phase

end Phase

/-- An operation with its lock. -/
structure Mode where
  locked : Bool := false
  phase : Phase := .start

namespace Mode

/-- The calls an operation may make. Only a lock that is not held is closed. -/
def allows (codec : KeyCodec) (op : Operation) (m : Mode) : Call → Prop
  | .lock => m.locked = false ∧ m.phase = .start
  | .exists => m.locked = true ∧ m.phase = .start
  | .openStore => m.locked = true ∧ m.phase = .start
  | .read i => m.locked = true ∧ m.phase = .opened i
  | .mkstemp => m.locked = true ∧ ∃ base, m.phase = .based base
  | .write t payload => m.locked = true ∧ ∃ base records, m.phase = .created base t ∧
      op.apply codec base = .ok records ∧ payload = codec.encode records
  | .flush t => m.locked = true ∧ ∃ base records, m.phase = .written base t records
  | .replace t => m.locked = true ∧ ∃ base records, m.phase = .flushed base t records
  | .unlink t => m.locked = true ∧ m.phase.temporary = some t
  | .close .lock => m.locked = false
  | _ => True

/-- Whether the lock is held after a call that returned. -/
def lockedAfter (m : Mode) : Call → Bool
  | .lock => true
  | .unlock => false
  | _ => m.locked

/-- Where an answer leads. -/
def next (codec : KeyCodec) (op : Operation) (m : Mode) (c : Call) : Reply c → Mode
  | .error _ => { m with phase := m.phase.fail }
  | .ok a => { locked := m.lockedAfter c, phase := m.phase.advance codec op c a }

end Mode

/-- The discipline of an operation. -/
def administration (codec : KeyCodec) (op : Operation) : Prog.Protocol Call Reply Mode where
  allowed := Mode.allows codec op
  next := Mode.next codec op

section Keeps

variable {codec : KeyCodec} {op : Operation} {m : Mode} {ε α : Type}

/-- One call. -/
theorem keeps_sysWith {f : OSError → ε} {c : Call} {Q : c.Answer → Mode → Prop}
    {E : ε → Mode → Prop} (ha : m.allows codec op c)
    (hok : ∀ a, Q a ⟨m.lockedAfter c, m.phase.advance codec op c a⟩)
    (herror : ∀ e, E (f e) ⟨m.locked, m.phase.fail⟩) :
    (sysWith f c).Keeps (administration codec op) Q E m := by
  refine ⟨ha, ?_⟩
  intro r
  cases r with
  | ok a => exact hok a
  | error e => exact herror e

/-- A call and what follows it. -/
theorem keeps_sysWith_bind {f : OSError → ε} {c : Call} {k : c.Answer → Code ε α}
    {Q : α → Mode → Prop} {E : ε → Mode → Prop} (ha : m.allows codec op c)
    (hok : ∀ a, (k a).Keeps (administration codec op) Q E
      ⟨m.lockedAfter c, m.phase.advance codec op c a⟩)
    (herror : ∀ e, E (f e) ⟨m.locked, m.phase.fail⟩) :
    (sysWith f c >>= k).Keeps (administration codec op) Q E m := by
  refine ⟨ha, ?_⟩
  intro r
  cases r with
  | ok a => exact hok a
  | error e => exact herror e

/-- The lock is held and the operation is not done. -/
def Unfinished (_ : Failure) (m : Mode) : Prop := m.locked = true ∧ m.phase.isDone = false

/-- A check passes or ends the operation. -/
theorem keeps_check_bind {β : Type} {x : Checked β} {k : β → Code Failure α}
    {Q : α → Mode → Prop} {E : Failure → Mode → Prop}
    (hok : ∀ a, x = .ok a → (k a).Keeps (administration codec op) Q E m)
    (herror : ∀ message, E (.keyFile message) m) :
    (check x >>= k).Keeps (administration codec op) Q E m := by
  cases x with
  | ok a => exact hok a rfl
  | error message => exact herror message

theorem keeps_check {x : Checked α} {Q : α → Mode → Prop} {E : Failure → Mode → Prop}
    (hok : ∀ a, x = .ok a → Q a m) (herror : ∀ message, E (.keyFile message) m) :
    (check x).Keeps (administration codec op) Q E m := by
  cases x with
  | ok a => exact hok a rfl
  | error message => exact herror message

/-- The store is read under the lock. -/
theorem keeps_readBytes :
    readBytes.Keeps (administration codec op) (fun raw m ↦ m = ⟨true, .based (some raw)⟩) Unfinished
      ⟨true, .start⟩ := by
  refine keeps_sysWith_bind ⟨rfl, rfl⟩ ?_ (fun _ ↦ ⟨rfl, rfl⟩)
  intro i
  refine Prog.Keeps.tryFinally (Q := fun raw m ↦ m = ⟨true, .based (some raw)⟩) (E := Unfinished)
    (keeps_sysWith ⟨rfl, rfl⟩ (fun _ ↦ rfl) fun _ ↦ ⟨rfl, rfl⟩) ?_ ?_
  · rintro raw _ rfl
    exact keeps_sysWith trivial (fun _ ↦ rfl) fun _ ↦ ⟨rfl, rfl⟩
  · rintro e m hm
    exact keeps_sysWith trivial (fun _ ↦ hm) fun _ ↦ ⟨hm.1, m.phase.isDone_fail⟩

theorem keeps_loadKeyFile {requireNonempty : Bool} :
    (loadKeyFile codec requireNonempty).Keeps (administration codec op)
      (fun records m ↦ ∃ raw, m = ⟨true, .based (some raw)⟩ ∧
        parseKeyFile codec requireNonempty raw = .ok records) Unfinished ⟨true, .start⟩ := by
  refine Prog.Keeps.bind (Q := fun raw m ↦ m = ⟨true, .based (some raw)⟩) ?_ ?_
  · refine keeps_readBytes.handle (fun _ _ h ↦ h) ?_
    intro e m hm
    cases e with
    | keyFile message => exact hm
    | os e => exact hm
  · rintro raw _ rfl
    exact keeps_check (fun records h ↦ ⟨raw, rfl, h⟩) fun _ ↦ ⟨rfl, rfl⟩

/-- What a failure in the `try` block of `_write_key_file` leaves to clean up. -/
def LeftOver (l : WriteLocals) (m : Mode) : Prop :=
  m.locked = true ∧ m.phase.isDone = false ∧ l.descriptor ≠ some .lock ∧
    ∀ t, l.temporaryName = some t → m.phase.temporary = some t

theorem keeps_writeBody {base : Option Bytes} {records : List ApiKeyRecord}
    (happly : op.apply codec base = .ok records) :
    (writeBody (codec.encode records)).Keeps (administration codec op)
      (fun _ m ↦ m = ⟨true, .replaced base records false⟩) (fun e m ↦ LeftOver e.2 m)
      ⟨true, .based base⟩ := by
  have hnone (m : Mode) (h : m.locked = true) : LeftOver {} ⟨m.locked, m.phase.fail⟩ :=
    ⟨h, m.phase.isDone_fail, nofun, nofun⟩
  refine keeps_sysWith_bind ⟨rfl, base, rfl⟩ ?_ (fun _ ↦ hnone ⟨true, .based base⟩ rfl)
  intro t
  have hnamed (phase : Phase) (h : phase.temporary = some t) (hd : phase.isDone = false)
      (d : Option Descriptor) (hl : d ≠ some .lock) :
      LeftOver { descriptor := d, temporaryName := some t } ⟨true, phase⟩ := by
    refine ⟨rfl, hd, hl, ?_⟩
    rintro _ ⟨⟩
    exact h
  refine keeps_sysWith_bind trivial ?_ (fun _ ↦ hnamed _ rfl rfl _ nofun)
  intro _
  refine keeps_sysWith_bind trivial ?_ (fun _ ↦ hnamed _ rfl rfl _ nofun)
  intro _
  refine Prog.Keeps.bind (Q := fun _ m ↦ m = ⟨true, .flushed base t records⟩) ?_ ?_
  · refine Prog.Keeps.tryFinally (Q := fun _ m ↦ m = ⟨true, .flushed base t records⟩)
      (E := fun e m ↦ LeftOver e.2 m ∧ m.phase.temporary = some t) ?_ ?_ ?_
    · refine keeps_sysWith_bind ⟨rfl, base, records, rfl, happly, rfl⟩ ?_
        (fun _ ↦ ⟨hnamed _ rfl rfl _ nofun, rfl⟩)
      intro _
      have hwritten :
          Phase.advance codec op (.created base t) (.write t (codec.encode records)) () =
            .written base t records := by
        simp only [Phase.advance, happly]
      change Prog.Keeps (administration codec op) _ _ _ (⟨true, Phase.advance codec op
        (.created base t) (.write t (codec.encode records)) ()⟩ : Mode)
      rw [hwritten]
      refine keeps_sysWith_bind ⟨rfl, base, records, rfl⟩ ?_
        (fun _ ↦ ⟨hnamed _ rfl rfl _ nofun, rfl⟩)
      intro _
      exact keeps_sysWith trivial (fun _ ↦ rfl) fun _ ↦ ⟨hnamed _ rfl rfl _ nofun, rfl⟩
    · rintro _ _ rfl
      exact keeps_sysWith trivial (fun _ ↦ rfl) fun _ ↦ hnamed _ rfl rfl _ nofun
    · rintro e m ⟨hm, ht⟩
      refine keeps_sysWith trivial (fun _ ↦ hm) ?_
      intro _
      rw [hm.1]
      exact hnamed _ (m.phase.temporary_fail.trans ht) m.phase.isDone_fail _ nofun
  · rintro _ _ rfl
    refine keeps_sysWith_bind ⟨rfl, base, records, rfl⟩ ?_ (fun _ ↦ hnamed _ rfl rfl _ nofun)
    intro _
    refine keeps_sysWith_bind trivial ?_ (fun _ ↦ hnone _ rfl)
    intro _
    refine keeps_sysWith_bind trivial ?_ (fun _ ↦ hnone _ rfl)
    intro _
    refine Prog.Keeps.tryFinally (Q := fun _ m ↦ m = ⟨true, .replaced base records false⟩)
      (E := fun e m ↦ LeftOver e.2 m) (keeps_sysWith trivial (fun _ ↦ rfl) fun _ ↦ hnone _ rfl)
      ?_ ?_
    · rintro _ _ rfl
      exact keeps_sysWith trivial (fun _ ↦ rfl) fun _ ↦ hnone _ rfl
    · rintro e m hm
      exact keeps_sysWith trivial (fun _ ↦ hm) fun _ ↦ hnone m hm.1

/-- The `finally` block after a failure. -/
theorem keeps_cleanUp {l : WriteLocals} {e : Failure} (h : LeftOver l m) :
    (cleanUp l).Keeps (administration codec op) (fun _ ↦ Unfinished e) Unfinished m := by
  obtain ⟨hlocked, hdone, hdescriptor, hname⟩ := h
  have hunlink (m : Mode) (hlocked : m.locked = true) (hdone : m.phase.isDone = false)
      (hname : ∀ t, l.temporaryName = some t → m.phase.temporary = some t) :
      (unlinkLeft l.temporaryName).Keeps (administration codec op) (fun _ ↦ Unfinished e)
        Unfinished m := by
    cases hl : l.temporaryName with
    | none => exact ⟨hlocked, hdone⟩
    | some t =>
      have hgone : m.phase.unlinked.isDone = false := by
        have ht := hname t hl
        cases hphase : m.phase <;> rw [hphase] at ht <;> first | rfl | cases ht
      refine Prog.Keeps.handle (Q := fun _ ↦ Unfinished e) (E := Unfinished)
        (keeps_sysWith ⟨hlocked, hname t hl⟩ (fun _ ↦ ⟨hlocked, hgone⟩)
          fun _ ↦ ⟨hlocked, m.phase.isDone_fail⟩) (fun _ _ h ↦ h) ?_
      intro e' m' hm'
      cases e' with
      | keyFile message => exact hm'
      | os e' => cases e' <;> exact hm'
  refine Prog.Keeps.bind (Q := fun _ m' ↦ m' = m) ?_ ?_
  · cases hd : l.descriptor with
    | none => rfl
    | some d =>
      have hallowed : m.allows codec op (.close d) := by
        cases d with
        | lock => exact absurd hd hdescriptor
        | _ => trivial
      exact keeps_sysWith hallowed (fun _ ↦ rfl) fun _ ↦ ⟨hlocked, m.phase.isDone_fail⟩
  · rintro _ _ rfl
    exact hunlink _ hlocked hdone hname

/-- `_write_key_file` returns only after a replacement with no failure. -/
theorem keeps_writeKeyFile {base : Option Bytes} {records : List ApiKeyRecord}
    (happly : op.apply codec base = .ok records) :
    (writeKeyFile codec records).Keeps (administration codec op)
      (fun _ m ↦ m = ⟨true, .replaced base records false⟩) Unfinished ⟨true, .based base⟩ := by
  refine keeps_sysWith_bind trivial ?_ (fun _ ↦ ⟨rfl, rfl⟩)
  intro _
  refine (keeps_writeBody happly).handle ?_ ?_
  · rintro _ _ rfl
    rfl
  · rintro ⟨e, l⟩ m hm
    refine Prog.Keeps.tryFinally (Q := fun _ _ ↦ False) (E := fun _ m ↦ LeftOver l m) hm
      (fun _ _ h ↦ h.elim) ?_
    intro e m hm
    exact keeps_cleanUp hm

/-- The operation ended without a replacement, or a call failed after it. -/
def Undone (_ : Failure) (m : Mode) : Prop := m.phase.isDone = false

/-- Taking the lock, and closing its file when that fails. -/
theorem keeps_takeLock :
    (takeLock.handle .ret fun (_, opened) ↦ do
      Prog.runIf (opened = true) (sys (.close .lock))
      .raise (.keyFile "API-key store could not be locked") : Code Failure Unit).Keeps
        (administration codec op) (fun _ m ↦ m = ⟨true, .start⟩) Undone {} := by
  refine Prog.Keeps.handle (Q := fun _ m ↦ m = (⟨true, .start⟩ : Mode))
    (E := fun _ m ↦ m = ({} : Mode)) ?_ (fun _ _ h ↦ h) ?_
  · refine keeps_sysWith_bind trivial ?_ (fun _ ↦ rfl)
    intro _
    refine keeps_sysWith_bind trivial ?_ (fun _ ↦ rfl)
    intro _
    exact keeps_sysWith ⟨rfl, rfl⟩ (fun _ ↦ rfl) fun _ ↦ rfl
  · rintro ⟨_, opened⟩ _ rfl
    cases opened with
    | false => exact (rfl : Phase.start.isDone = false)
    | true => exact keeps_sysWith_bind rfl (fun _ ↦ rfl) fun _ ↦ rfl

/-- An operation in its lock. -/
theorem keeps_storeLock {body : Code Failure α}
    (hbody : body.Keeps (administration codec op)
      (fun _ m ↦ m.locked = true ∧ m.phase.isDone = true) Unfinished ⟨true, .start⟩) :
    (storeLock body).Keeps (administration codec op) (fun _ m ↦ m.phase.isDone = true) Undone
      {} := by
  refine keeps_sysWith_bind trivial ?_ (fun _ ↦ rfl)
  intro _
  refine keeps_takeLock.bind ?_
  rintro _ _ rfl
  refine hbody.tryFinally ?_ ?_
  · rintro a m ⟨-, hdone⟩
    refine keeps_sysWith_bind trivial ?_ (fun _ ↦ m.phase.isDone_fail)
    intro _
    exact keeps_sysWith rfl (fun _ ↦ hdone) fun _ ↦ m.phase.isDone_fail
  · rintro e m ⟨-, hdone⟩
    refine keeps_sysWith_bind trivial ?_ (fun _ ↦ m.phase.isDone_fail)
    intro _
    exact keeps_sysWith rfl (fun _ ↦ hdone) fun _ ↦ m.phase.isDone_fail

theorem validateKeyId_string {keyId checked : String}
    (h : validateKeyId (.string keyId) = .ok checked) : checked = keyId := by
  simp only [validateKeyId] at h
  split at h
  · cases h
    rfl
  · cases h

/-- What the records in the store come to when the key id is well formed. -/
theorem Operation.apply_eq (op : Operation) {checked : String} {base : Option Bytes}
    {records : List ApiKeyRecord} (hid : validateKeyId (.string op.keyId) = .ok checked)
    (hread : op.recordsIn codec base = .ok records) :
    op.apply codec base = op.edit codec records := by
  rw [Operation.apply, hid, Except.bind, hread]
  rfl

theorem keeps_generateKey {keyId : String} {secret : List Char} :
    (generateKey codec keyId secret).Keeps (administration codec (.generate keyId secret))
      (fun _ m ↦ m.phase.isDone = true) Undone {} := by
  refine keeps_check_bind ?_ (fun _ ↦ rfl)
  intro checked hid
  cases validateKeyId_string hid
  apply keeps_storeLock
  refine keeps_sysWith_bind ⟨rfl, rfl⟩ ?_ (fun _ ↦ ⟨rfl, rfl⟩)
  intro present
  refine Prog.Keeps.bind (Q := fun records m ↦ ∃ base, m = ⟨true, .based base⟩ ∧
    (Operation.generate keyId secret).recordsIn codec base = .ok records) ?_ ?_
  · cases present with
    | false => exact ⟨none, rfl, rfl⟩
    | true =>
      refine keeps_loadKeyFile.mono ?_ (fun _ _ h ↦ h)
      rintro records m ⟨raw, rfl, hparse⟩
      exact ⟨some raw, rfl, hparse⟩
  · rintro records _ ⟨base, rfl, hread⟩
    refine keeps_check_bind ?_ (fun _ ↦ ⟨rfl, rfl⟩)
    intro edited hedit
    have happly : (Operation.generate keyId secret).apply codec base = .ok edited := by
      rw [Operation.apply_eq (.generate keyId secret) hid hread]
      exact hedit
    refine (keeps_writeKeyFile happly).bind ?_
    rintro _ _ rfl
    exact ⟨rfl, rfl⟩

theorem keeps_revokeKey {keyId : String} :
    (revokeKey codec keyId).Keeps (administration codec (.revoke keyId))
      (fun _ m ↦ m.phase.isDone = true) Undone {} := by
  refine keeps_check_bind ?_ (fun _ ↦ rfl)
  intro checked hid
  cases validateKeyId_string hid
  apply keeps_storeLock
  refine keeps_loadKeyFile.bind ?_
  rintro records _ ⟨raw, rfl, hread⟩
  refine keeps_check_bind ?_ (fun _ ↦ ⟨rfl, rfl⟩)
  intro edited hedit
  have hstore : (Operation.revoke keyId).recordsIn codec (some raw) = .ok records := hread
  have happly : (Operation.revoke keyId).apply codec (some raw) = .ok edited := by
    rw [Operation.apply_eq (.revoke keyId) hid hstore]
    exact hedit
  refine (keeps_writeKeyFile happly).mono ?_ (fun _ _ h ↦ h)
  rintro _ _ rfl
  exact ⟨rfl, rfl⟩

/-- Both operations keep to the discipline: they return after a replacement with no failure
and raise otherwise. -/
theorem keeps_code (codec : KeyCodec) (op : Operation) :
    (op.code codec).Keeps (administration codec op) (fun _ m ↦ m.phase.isDone = true) Undone
      {} := by
  cases op with
  | generate keyId secret => exact keeps_generateKey.handle (fun _ _ h ↦ h) fun _ _ h ↦ h
  | revoke keyId => exact keeps_revokeKey.handle (fun _ _ h ↦ h) fun _ _ h ↦ h

end Keeps

/-! ### The files in each phase -/

/-- The temporary file `t` is there with this inode. -/
def FileSystem.Has (fs : FileSystem) (t : Nat) (file : Inode) : Prop :=
  t ∈ fs.temporaries ∧ fs.inodes[t]? = some file

/-- What the files are like while an operation holds the lock. -/
def Phase.Holds (codec : KeyCodec) (op : Operation) (fs : FileSystem) : Phase → Prop
  | .start => True
  | .opened i => fs.store = some i
  | .based base => fs.bytes = base
  | .created base t => fs.bytes = base ∧ fs.Has t {}
  | .written base t records => fs.bytes = base ∧ fs.Has t { buffered := codec.encode records } ∧
      op.apply codec base = .ok records
  | .flushed base t records => fs.bytes = base ∧ fs.Has t { content := codec.encode records } ∧
      op.apply codec base = .ok records
  | .replaced base records _ => fs.bytes = some (codec.encode records) ∧
      op.apply codec base = .ok records

namespace FileSystem

variable {fs : FileSystem} {codec : KeyCodec} {op : Operation} {phase : Phase}

theorem bytes_eq_some {i : Nat} (h : fs.store = some i) :
    ∃ file, fs.inodes[i]? = some file ∧ fs.bytes = some file.content := by
  obtain ⟨hlt, -⟩ := fs.store_lt i h
  refine ⟨fs.inodes[i], List.getElem?_eq_getElem hlt, ?_⟩
  rw [bytes, h, Option.bind_some, List.getElem?_eq_getElem hlt]
  rfl

theorem bytes_eq_none (h : fs.store = none) : fs.bytes = none := by
  rw [bytes, h]
  rfl

/-- A file that has a temporary name is not the store. -/
theorem bytes_modify {t : Nat} (h : t ∈ fs.temporaries) (f : Inode → Inode) :
    (fs.modify t f).bytes = fs.bytes := by
  cases hs : fs.store with
  | none =>
    have hi : (fs.modify t f).store = none := hs
    rw [bytes_eq_none hs, bytes_eq_none hi]
  | some i =>
    have hne : t ≠ i := by
      rintro rfl
      exact (fs.store_lt t hs).2 h
    have hi : (fs.modify t f).store = some i := hs
    rw [bytes, bytes, hi, hs, Option.bind_some, Option.bind_some]
    change ((fs.inodes.modify t f)[i]?).map _ = _
    rw [List.getElem?_modify_ne f fs.inodes hne]

theorem bytes_create : fs.create.bytes = fs.bytes := by
  cases hs : fs.store with
  | none =>
    have hi : fs.create.store = none := hs
    rw [bytes_eq_none hs, bytes_eq_none hi]
  | some i =>
    obtain ⟨hlt, -⟩ := fs.store_lt i hs
    have hi : fs.create.store = some i := hs
    rw [bytes, bytes, hi, hs, Option.bind_some, Option.bind_some]
    change ((fs.inodes ++ [({} : Inode)])[i]?).map _ = _
    rw [List.getElem?_append_left hlt]

theorem has_modify {t : Nat} {file : Inode} (h : fs.Has t file) (f : Inode → Inode) :
    (fs.modify t f).Has t (f file) := by
  refine ⟨h.1, ?_⟩
  change (fs.inodes.modify t f)[t]? = _
  rw [List.getElem?_modify_eq, h.2]
  rfl

theorem has_create : fs.create.Has fs.inodes.length {} := by
  refine ⟨List.mem_cons_self, ?_⟩
  change (fs.inodes ++ [({} : Inode)])[fs.inodes.length]? = _
  rw [List.getElem?_concat_length]

theorem bytes_install {t : Nat} {file : Inode} (h : fs.Has t file) :
    (fs.install t h.1).bytes = some file.content := by
  change (fs.inodes[t]?).map (·.content) = _
  rw [h.2]
  rfl

end FileSystem

namespace Phase

variable {fs : FileSystem} {codec : KeyCodec} {op : Operation} {phase : Phase}

theorem Holds.fail (h : phase.Holds codec op fs) : phase.fail.Holds codec op fs := by
  cases phase <;> exact h

/-- The temporary file of a phase is there, and the store is as it was read. -/
theorem Holds.has_temporary (h : phase.Holds codec op fs) {t : Nat}
    (ht : phase.temporary = some t) :
    t ∈ fs.temporaries ∧ phase.unlinked.Holds codec op (fs.remove t) := by
  cases phase with
  | created base t' =>
    cases ht
    exact ⟨h.2.1, h.1⟩
  | written base t' records =>
    cases ht
    exact ⟨h.2.1.1, h.1⟩
  | flushed base t' records =>
    cases ht
    exact ⟨h.2.1.1, h.1⟩
  | _ => cases ht

/-- An allowed call that meets no failure leads to the files of the next phase. -/
theorem Holds.perform {locked : Bool} {c : Call} (h : phase.Holds codec op fs)
    (ha : Mode.allows codec op ⟨locked, phase⟩ c) :
    (Mode.next codec op ⟨locked, phase⟩ c (fs.perform c).1).phase.Holds codec op
      (fs.perform c).2 := by
  cases c with
  | «exists» =>
    obtain ⟨-, hphase⟩ := ha
    cases hphase
    cases hs : fs.store with
    | none =>
      simp only [FileSystem.perform, hs]
      exact FileSystem.bytes_eq_none hs
    | some i =>
      simp only [FileSystem.perform, hs]
      trivial
  | openStore =>
    obtain ⟨-, hphase⟩ := ha
    cases hphase
    cases hs : fs.store with
    | none =>
      simp only [FileSystem.perform, hs]
      trivial
    | some i =>
      simp only [FileSystem.perform, hs]
      exact hs
  | read i =>
    obtain ⟨-, hphase⟩ := ha
    cases hphase
    obtain ⟨file, hfile, hbytes⟩ := FileSystem.bytes_eq_some h
    simp only [FileSystem.perform, hfile]
    exact hbytes
  | mkstemp =>
    obtain ⟨-, base, hphase⟩ := ha
    cases hphase
    exact ⟨FileSystem.bytes_create.trans h, FileSystem.has_create⟩
  | write t payload =>
    obtain ⟨-, base, records, hphase, happly, rfl⟩ := ha
    cases hphase
    have hwritten : Phase.advance codec op (.created base t) (.write t (codec.encode records)) () =
        .written base t records := by
      simp only [Phase.advance, happly]
    change Holds codec op _ (Phase.advance codec op (.created base t)
      (.write t (codec.encode records)) ())
    rw [hwritten]
    exact ⟨(FileSystem.bytes_modify h.2.1 _).trans h.1, FileSystem.has_modify h.2 _, happly⟩
  | flush t =>
    obtain ⟨-, base, records, hphase⟩ := ha
    cases hphase
    exact ⟨(FileSystem.bytes_modify h.2.1.1 _).trans h.1, FileSystem.has_modify h.2.1 _, h.2.2⟩
  | replace t =>
    obtain ⟨-, base, records, hphase⟩ := ha
    cases hphase
    simp only [FileSystem.perform, h.2.1.1, ↓reduceDIte]
    exact ⟨FileSystem.bytes_install h.2.1, h.2.2⟩
  | unlink t =>
    obtain ⟨hmem, hnext⟩ := h.has_temporary ha.2
    simp only [FileSystem.perform, hmem, ↓reduceIte]
    exact hnext
  | _ => exact h

end Phase
end InferenceServer.Security
