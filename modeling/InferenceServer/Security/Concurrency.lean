import InferenceServer.Base.Components
import InferenceServer.Base.Run
import InferenceServer.Security.LiveKeys

/-!
# Concurrent administration

Library `Security`. Any number of processes run `generate_key`, `revoke_key` or `load_key_file`
on one store path, one filesystem call of one process at a time. Any call may fail and any
process may be killed between two calls. `flock` blocks while another process has the lock, and
the lock goes with its process.
-/

namespace InferenceServer.Security

open InferenceServer.Base InferenceServer.Server

/-! ### Processes -/

/-- A process with the code it still has to run. `seen` is what a server's load has seen at the
store path: nothing yet, no file, or its bytes. -/
inductive Process where
  | operation (op : Operation) (rest : Code Failure (Option (List Char)))
  | server (requireNonempty : Bool) (rest : Code Failure (List ApiKeyRecord))
    (seen : Option (Option Bytes))
  | dead

/-- All processes on one store. `commits` are the operations whose `os.replace` has executed, in
the order of the replacements. -/
structure World where
  fs : FileSystem
  holder : Option Nat := none
  processes : List Process := []
  commits : List Operation := []

/-- What happens next. -/
inductive Event where
  | spawn (op : Operation)
  | serve (requireNonempty : Bool)
  /-- a process makes its next call, which meets this failure -/
  | call (pid : Nat) (fault : Option OSError)
  | kill (pid : Nat)

/-- A call that succeeded, or one whose failure tells of a missing store. -/
def Call.observed (seen : Option (Option Bytes)) : (c : Call) → Reply c → Option (Option Bytes)
  | .openStore, .error .notFound => some none
  | .read _, .ok raw => some (some raw)
  | _, _ => seen

/-- The call executed a replacement. -/
def Call.commits : (c : Call) → Reply c → Bool
  | .replace _, .ok _ => true
  | _, _ => false

namespace World

/-- The lock is given back by a process that has it. -/
def release (w : World) (pid : Nat) : World :=
  { w with holder := if w.holder = some pid then none else w.holder }

/-- A call of the process that meets no failure. -/
def perform (w : World) (pid : Nat) : (c : Call) → Option (Reply c × World)
  | .lock => if w.holder = none then some (.ok (), { w with holder := some pid }) else none
  | .unlock => some (.ok (), w.release pid)
  | .close .lock => some (.ok (), w.release pid)
  | c => some ((w.fs.perform c).1, { w with fs := (w.fs.perform c).2 })

/-- A call of the process. -/
def answer (w : World) (pid : Nat) (c : Call) : Option OSError → Option (Reply c × World)
  | some e => some (.error e, w)
  | none => w.perform pid c

/-- The next call of a process. -/
def call (w : World) (pid : Nat) (fault : Option OSError) : Process → Option World
  | .operation op (.call c k) =>
    (w.answer pid c fault).map fun (r, w) ↦
      { w with
        processes := w.processes.set pid (.operation op (k r))
        commits := if c.commits r then w.commits ++ [op] else w.commits }
  | .server requireNonempty (.call c k) seen =>
    (w.answer pid c fault).map fun (r, w) ↦
      { w with
        processes := w.processes.set pid
          (.server requireNonempty (k r) (if fault.isNone then c.observed seen r else seen)) }
  | _ => none

/-- One step. -/
def step (codec : KeyCodec) (w : World) : Event → Option World
  | .spawn op => some { w with processes := w.processes ++ [.operation op (op.code codec)] }
  | .serve requireNonempty =>
    some { w with processes := w.processes ++
      [.server requireNonempty (loadKeyFile codec requireNonempty) none] }
  | .call pid fault => w.processes[pid]?.bind (w.call pid fault)
  | .kill pid =>
    some { w.release pid with processes := w.processes.set pid .dead }

end World

/-! ### One operation after another -/

/-- The store after operations that take place one after another. -/
def replay (codec : KeyCodec) : Option Bytes → List Operation → Checked (Option Bytes)
  | base, [] => .ok base
  | base, op :: ops =>
    (op.apply codec base).bind fun records ↦ replay codec (some (codec.encode records)) ops

theorem replay_append (codec : KeyCodec) (base : Option Bytes) (ops ops' : List Operation) :
    replay codec base (ops ++ ops') =
      (replay codec base ops).bind fun bytes ↦ replay codec bytes ops' := by
  induction ops generalizing base with
  | nil => rfl
  | cons op ops ih =>
    rw [List.cons_append, replay, replay]
    cases op.apply codec base with
    | error message => rfl
    | ok records => exact ih _

/-- The records in these bytes. -/
def recordsOf (codec : KeyCodec) : Option Bytes → List ApiKeyRecord
  | none => []
  | some raw =>
    match parseKeyFile codec false raw with
    | .ok records => records
    | .error _ => []

/-- A missing store, or one that was completely written. -/
def Complete (codec : KeyCodec) (bytes : Option Bytes) : Prop :=
  bytes = none ∨ ∃ records, ValidRecords records ∧ bytes = some (codec.encode records)

section Replay

variable {codec : KeyCodec} {base : Option Bytes}

/-- An operation that takes place reads the records of the store and leaves edited ones. -/
theorem Operation.apply_records {op : Operation} {edited : List ApiKeyRecord}
    (h : op.apply codec base = .ok edited) :
    ValidRecords edited ∧ op.edit codec (recordsOf codec base) = .ok edited := by
  obtain ⟨read, hid, hread, hedit⟩ := apply_ok h
  have hrecords : recordsOf codec base = read := by
    cases base with
    | none =>
      cases op with
      | generate =>
        cases hread
        rfl
      | revoke => cases hread
    | some raw =>
      have hparse : parseKeyFile codec false raw = .ok read := by cases op <;> exact hread
      rw [recordsOf, hparse]
  rw [hrecords]
  exact ⟨(edit_valid hid (recordsIn_valid hread) hedit).1, hedit⟩

theorem recordsOf_encode (codec : KeyCodec) {records : List ApiKeyRecord}
    (h : ValidRecords records) :
    recordsOf codec (some (codec.encode records)) = records := by
  rw [recordsOf, parseKeyFile_encode_all codec h]

theorem replay_cons_ok {op : Operation} {ops : List Operation} {bytes : Option Bytes}
    (h : replay codec base (op :: ops) = .ok bytes) :
    ∃ edited, op.apply codec base = .ok edited ∧
      replay codec (some (codec.encode edited)) ops = .ok bytes := by
  rw [replay] at h
  cases happly : op.apply codec base with
  | error message =>
    rw [happly] at h
    cases h
  | ok edited =>
    rw [happly] at h
    exact ⟨edited, rfl, h⟩

/-- Operations leave a complete store. -/
theorem replay_complete {ops : List Operation} {bytes : Option Bytes} (hbase : Complete codec base)
    (h : replay codec base ops = .ok bytes) : Complete codec bytes := by
  induction ops generalizing base with
  | nil =>
    cases h
    exact hbase
  | cons op ops ih =>
    obtain ⟨edited, happly, hrest⟩ := replay_cons_ok h
    exact ih (.inr ⟨edited, (Operation.apply_records happly).1, rfl⟩) hrest

/-- A record is removed by a revocation of its id only. -/
theorem revoke_of_removed {ops : List Operation} {bytes : Option Bytes}
    (h : replay codec base ops = .ok bytes) {r : ApiKeyRecord} (hr : r ∈ recordsOf codec base)
    (hgone : r ∉ recordsOf codec bytes) : .revoke r.keyId ∈ ops := by
  induction ops generalizing base with
  | nil =>
    cases h
    exact absurd hr hgone
  | cons op ops ih =>
    obtain ⟨edited, happly, hrest⟩ := replay_cons_ok h
    obtain ⟨hvalid, hedit⟩ := Operation.apply_records happly
    rw [← recordsOf_encode codec hvalid] at hedit
    by_cases hstays : r ∈ recordsOf codec (some (codec.encode edited))
    · exact List.mem_cons_of_mem _ (ih hrest hstays)
    · cases op with
      | generate keyId secret =>
        simp only [Operation.edit, addKey] at hedit
        split at hedit
        · cases hedit
        · rw [Except.ok.injEq] at hedit
          rw [← hedit] at hstays
          exact absurd (List.mem_append_left _ hr) hstays
      | revoke keyId =>
        simp only [Operation.edit, removeKey] at hedit
        split at hedit
        · cases hedit
        · rw [Except.ok.injEq] at hedit
          rw [← hedit, List.mem_filter, not_and, bne_iff_ne, not_not] at hstays
          rw [hstays hr]
          exact List.mem_cons_self

/-- A record is added by a generation of that record only. -/
theorem generate_of_added {ops : List Operation} {bytes : Option Bytes}
    (h : replay codec base ops = .ok bytes) {r : ApiKeyRecord} (hr : r ∈ recordsOf codec bytes)
    (hnew : r ∉ recordsOf codec base) :
    ∃ secret, .generate r.keyId secret ∈ ops ∧ r = recordOf codec r.keyId secret := by
  induction ops generalizing base with
  | nil =>
    cases h
    exact absurd hr hnew
  | cons op ops ih =>
    obtain ⟨edited, happly, hrest⟩ := replay_cons_ok h
    obtain ⟨hvalid, hedit⟩ := Operation.apply_records happly
    rw [← recordsOf_encode codec hvalid] at hedit
    by_cases hadded : r ∈ recordsOf codec (some (codec.encode edited))
    · cases op with
      | generate keyId secret =>
        simp only [Operation.edit, addKey] at hedit
        split at hedit
        · cases hedit
        · rw [Except.ok.injEq] at hedit
          rw [← hedit, List.mem_append, List.mem_singleton] at hadded
          rcases hadded with hold | rfl
          · exact absurd hold hnew
          · exact ⟨secret, List.mem_cons_self, rfl⟩
      | revoke keyId =>
        simp only [Operation.edit, removeKey] at hedit
        split at hedit
        · cases hedit
        · rw [Except.ok.injEq] at hedit
          rw [← hedit] at hadded
          exact absurd (List.mem_of_mem_filter hadded) hnew
    · obtain ⟨secret, hmem, hrecord⟩ := ih hrest hadded
      exact ⟨secret, List.mem_cons_of_mem _ hmem, hrecord⟩

/-- The store as it was after some of the operations. -/
def Past (codec : KeyCodec) (base : Option Bytes) (commits : List Operation)
    (bytes : Option Bytes) : Prop :=
  ∃ before after, commits = before ++ after ∧ replay codec base before = .ok bytes

theorem Past.snoc {commits : List Operation} {bytes : Option Bytes}
    (h : Past codec base commits bytes) (ops : List Operation) :
    Past codec base (commits ++ ops) bytes := by
  obtain ⟨before, after, rfl, hreplay⟩ := h
  exact ⟨before, after ++ ops, by rw [List.append_assoc], hreplay⟩

end Replay

/-! ### Files that nobody writes any more -/

/-- The inode has this content and no temporary name. -/
def FileSystem.Settled (fs : FileSystem) (i : Nat) (content : Bytes) : Prop :=
  i ∉ fs.temporaries ∧ ∃ file, fs.inodes[i]? = some file ∧ file.content = content

theorem FileSystem.settled_store {fs : FileSystem} {i : Nat} (h : fs.store = some i) :
    ∃ content, fs.Settled i content ∧ fs.bytes = some content := by
  obtain ⟨file, hfile, hbytes⟩ := bytes_eq_some h
  exact ⟨file.content, ⟨(fs.store_lt i h).2, file, hfile, rfl⟩, hbytes⟩

theorem FileSystem.settled_modify {fs : FileSystem} {i t : Nat} {content : Bytes}
    (h : fs.Settled i content) (ht : t ∈ fs.temporaries) (f : Inode → Inode) :
    (fs.modify t f).Settled i content := by
  obtain ⟨hi, file, hfile, hcontent⟩ := h
  have hne : t ≠ i := by
    rintro rfl
    exact hi ht
  refine ⟨hi, file, ?_, hcontent⟩
  change (fs.inodes.modify t f)[i]? = _
  rw [List.getElem?_modify_ne f fs.inodes hne]
  exact hfile

/-- An operation writes to no file but its own temporary one. -/
theorem FileSystem.settled_perform {codec : KeyCodec} {op : Operation} {m : Mode} {c : Call}
    {fs : FileSystem} {i : Nat} {content : Bytes} (hs : fs.Settled i content)
    (h : m.phase.Holds codec op fs) (ha : m.allows codec op c) :
    (fs.perform c).2.Settled i content := by
  obtain ⟨hi, file, hfile, hcontent⟩ := hs
  have hsettled : fs.Settled i content := ⟨hi, file, hfile, hcontent⟩
  cases c with
  | openStore => cases hst : fs.store <;> simp only [perform, hst] <;> exact hsettled
  | read j => cases hst : fs.inodes[j]? <;> simp only [perform, hst] <;> exact hsettled
  | mkstemp =>
    have hlt : i < fs.inodes.length := (List.getElem?_eq_some_iff.mp hfile).1
    refine ⟨?_, file, ?_, hcontent⟩
    · change i ∉ fs.inodes.length :: fs.temporaries
      rw [List.mem_cons, not_or]
      exact ⟨Nat.ne_of_lt hlt, hi⟩
    · change (fs.inodes ++ [({} : Inode)])[i]? = _
      rw [List.getElem?_append_left hlt]
      exact hfile
  | write t payload =>
    obtain ⟨-, base, records, hphase, -⟩ := ha
    rw [hphase] at h
    exact settled_modify hsettled h.2.1 _
  | flush t =>
    obtain ⟨-, base, records, hphase⟩ := ha
    rw [hphase] at h
    exact settled_modify hsettled h.2.1.1 _
  | replace t =>
    by_cases ht : t ∈ fs.temporaries
    · simp only [perform, ht, ↓reduceDIte]
      exact ⟨fun hmem ↦ hi (List.mem_of_mem_filter hmem), file, hfile, hcontent⟩
    · simp only [perform, ht, ↓reduceDIte]
      exact hsettled
  | unlink t =>
    by_cases ht : t ∈ fs.temporaries
    · simp only [perform, ht, ↓reduceIte]
      exact ⟨fun hmem ↦ hi (List.mem_of_mem_filter hmem), file, hfile, hcontent⟩
    · simp only [perform, ht, ↓reduceIte]
      exact hsettled
  | _ => exact hsettled

/-- Without the lock an operation changes no file. -/
theorem FileSystem.perform_unlocked {codec : KeyCodec} {op : Operation} {m : Mode} {c : Call}
    (fs : FileSystem) (ha : m.allows codec op c) (hm : m.locked = false) :
    (fs.perform c).2 = fs := by
  have hno (h : m.locked = true) : (fs.perform c).2 = fs := by
    rw [hm] at h
    cases h
  cases c with
  | «exists» => rfl
  | openStore => exact hno ha.1
  | read i => exact hno ha.1
  | mkstemp => exact hno ha.1
  | write t payload => exact hno ha.1
  | flush t => exact hno ha.1
  | replace t => exact hno ha.1
  | unlink t => exact hno ha.1
  | _ => rfl

/-! ### One call of an operation -/

/-- What a call of the operation's process does to the rest of the world. -/
structure Turn (codec : KeyCodec) (op : Operation) (pid : Nat) (m : Mode) (c : Call) (r : Reply c)
    (w w' : World) : Prop where
  processes : w'.processes = w.processes
  commits : w'.commits = w.commits
  holder : w'.holder = some pid ↔ (m.next codec op c r).locked = true
  holds : (m.next codec op c r).locked = true →
    (m.next codec op c r).phase.Holds codec op w'.fs
  others : ∀ q, q ≠ pid → (w'.holder = some q ↔ w.holder = some q)
  quiet : w.holder ≠ some pid → w'.fs = w.fs
  settled : ∀ i content, w.fs.Settled i content → w'.fs.Settled i content
  unchanged : c.commits r = false → w'.fs.bytes = w.fs.bytes
  committed : c.commits r = true → ∃ records, op.apply codec w.fs.bytes = .ok records ∧
    w'.fs.bytes = some (codec.encode records)

namespace World

variable {codec : KeyCodec} {op : Operation} {m : Mode} {pid : Nat} {w w' : World} {c : Call}

theorem release_of_ne (h : w.holder ≠ some pid) : w.release pid = w := by
  rw [release, if_neg h]

/-- Any call but those on the lock. -/
theorem perform_file (w : World) (pid : Nat) (hl : c ≠ .lock) (hu : c ≠ .unlock)
    (hc : c ≠ .close .lock) :
    w.perform pid c = some ((w.fs.perform c).1, { w with fs := (w.fs.perform c).2 }) := by
  cases c with
  | lock => exact absurd rfl hl
  | unlock => exact absurd rfl hu
  | close d =>
    cases d with
    | lock => exact absurd rfl hc
    | _ => rfl
  | _ => rfl

theorem lockedAfter_file (hl : c ≠ .lock) (hu : c ≠ .unlock) : m.lockedAfter c = m.locked := by
  cases c with
  | lock => exact absurd rfl hl
  | unlock => exact absurd rfl hu
  | _ => rfl

theorem next_locked (hl : c ≠ .lock) (hu : c ≠ .unlock) (r : Reply c) :
    (m.next codec op c r).locked = m.locked := by
  cases r with
  | error e => rfl
  | ok a => exact lockedAfter_file hl hu

/-- A failing call. -/
theorem turn_fault (hholder : w.holder = some pid ↔ m.locked = true)
    (hholds : m.locked = true → m.phase.Holds codec op w.fs) (e : OSError) :
    Turn codec op pid m c (.error e) w w where
  processes := rfl
  commits := rfl
  holder := hholder
  holds h := (hholds h).fail
  others _ _ := Iff.rfl
  quiet _ := rfl
  settled _ _ h := h
  unchanged _ := rfl
  committed h := by cases c <;> cases h

/-- A replacement that is allowed takes place. -/
theorem perform_replace_allowed {t : Nat} (ha : m.allows codec op (.replace t))
    (hholds : m.locked = true → m.phase.Holds codec op w.fs) :
    ∃ records fs, w.fs.perform (.replace t) = (.ok (), fs) ∧
      op.apply codec w.fs.bytes = .ok records ∧ fs.bytes = some (codec.encode records) := by
  obtain ⟨hlocked, base, records, hphase⟩ := ha
  have hflushed := hholds hlocked
  rw [hphase] at hflushed
  obtain ⟨hbytes, hhas, happly⟩ := hflushed
  refine ⟨records, _, perform_replace hhas.1, ?_, FileSystem.bytes_install hhas⟩
  rw [hbytes]
  exact happly

/-- A call on files. -/
theorem turn_file (ha : m.allows codec op c) (hholder : w.holder = some pid ↔ m.locked = true)
    (hholds : m.locked = true → m.phase.Holds codec op w.fs) (hl : c ≠ .lock) (hu : c ≠ .unlock) :
    Turn codec op pid m c (w.fs.perform c).1 w { w with fs := (w.fs.perform c).2 } where
  processes := rfl
  commits := rfl
  holder := by rw [next_locked hl hu]; exact hholder
  holds h := by
    rw [next_locked hl hu] at h
    exact (hholds h).perform ha
  others _ _ := Iff.rfl
  quiet h := FileSystem.perform_unlocked w.fs ha (Bool.eq_false_iff.mpr fun hm ↦ h (hholder.mpr hm))
  settled i content hs := by
    cases hm : m.locked with
    | true => exact FileSystem.settled_perform hs (hholds hm) ha
    | false => rw [FileSystem.perform_unlocked w.fs ha hm]; exact hs
  unchanged h := by
    cases hm : m.locked with
    | false => exact congrArg FileSystem.bytes (FileSystem.perform_unlocked w.fs ha hm)
    | true =>
      refine FileSystem.bytes_perform (hholds hm) ha ?_
      rintro t rfl
      obtain ⟨records, fs, hperform, -, -⟩ := perform_replace_allowed ha hholds
      rw [hperform] at h
      cases h
  committed h := by
    cases c with
    | replace t =>
      obtain ⟨records, fs, hperform, happly, hbytes⟩ := perform_replace_allowed ha hholds
      rw [hperform]
      exact ⟨records, happly, hbytes⟩
    | _ => simp [Call.commits] at h

/-- Any call of an operation that keeps to the discipline. -/
theorem turn_answer {fault : Option OSError} {r : Reply c} (ha : m.allows codec op c)
    (hholder : w.holder = some pid ↔ m.locked = true)
    (hholds : m.locked = true → m.phase.Holds codec op w.fs)
    (h : w.answer pid c fault = some (r, w')) : Turn codec op pid m c r w w' := by
  cases fault with
  | some e =>
    cases h
    exact turn_fault hholder hholds e
  | none =>
    change w.perform pid c = some (r, w') at h
    by_cases hl : c = .lock
    · subst hl
      simp only [perform] at h
      split at h
      · next hfree =>
        cases h
        obtain ⟨-, hphase⟩ := ha
        refine ⟨rfl, rfl, ⟨fun _ ↦ rfl, fun _ ↦ rfl⟩, ?_, ?_, fun _ ↦ rfl, fun _ _ hs ↦ hs,
          fun _ ↦ rfl, nofun⟩
        · intro _
          change m.phase.Holds codec op w.fs
          rw [hphase]
          trivial
        · intro q hq
          rw [hfree]
          constructor
          · intro heq
            exact absurd (Option.some.inj heq).symm hq
          · intro heq
            cases heq
      · cases h
    · by_cases hu : c = .unlock
      · subst hu
        cases h
        refine ⟨rfl, rfl, ?_, nofun, ?_, fun _ ↦ rfl, fun _ _ hs ↦ hs, fun _ ↦ rfl, nofun⟩
        · constructor
          · intro heq
            simp only [release] at heq
            split at heq
            · cases heq
            · next hne => exact absurd heq hne
          · nofun
        · intro q hq
          simp only [release]
          split
          · next heq =>
            rw [heq]
            constructor
            · nofun
            · intro hsame
              exact absurd (Option.some.inj hsame).symm hq
          · exact Iff.rfl
      · by_cases hc : c = .close .lock
        · subst hc
          have hne : w.holder ≠ some pid := by
            intro heq
            have hm : m.locked = false := ha
            rw [hholder.mp heq] at hm
            cases hm
          simp only [perform, release_of_ne hne] at h
          cases h
          exact turn_file ha hholder hholds hl hu
        · rw [perform_file w pid hl hu hc] at h
          cases h
          exact turn_file ha hholder hholds hl hu

end World

/-! ### One call of a server -/

/-- How far a load is. -/
inductive LoadMode where
  | start
  | opened (i : Nat)
  | got (raw : Bytes)
  | stopped

/-- A load opens the store, reads what it has opened and closes it. -/
def loading : Prog.Protocol Call Reply LoadMode where
  allowed m
    | .openStore => m = .start
    | .read i => m = .opened i
    | .close .store => True
    | _ => False
  next m
    | .openStore, .ok i => .opened i
    | .openStore, .error _ => .stopped
    | .read _, .ok raw => .got raw
    | .read _, .error _ => .stopped
    | _, _ => m

/-- The load returns what it makes of the bytes it got. -/
def Parsed (codec : KeyCodec) (requireNonempty : Bool) (records : List ApiKeyRecord)
    (m : LoadMode) : Prop :=
  ∃ raw, m = .got raw ∧ parseKeyFile codec requireNonempty raw = .ok records

theorem keeps_loading (codec : KeyCodec) (requireNonempty : Bool) :
    (loadKeyFile codec requireNonempty).Keeps loading (Parsed codec requireNonempty)
      (fun _ _ ↦ True) .start := by
  have hread : readBytes.Keeps loading (fun raw m ↦ m = LoadMode.got raw) (fun _ _ ↦ True)
      .start := by
    refine ⟨rfl, ?_⟩
    intro r
    cases r with
    | error e => trivial
    | ok i =>
      refine ⟨rfl, ?_⟩
      intro r
      cases r with
      | error e =>
        refine ⟨trivial, ?_⟩
        intro r
        cases r <;> trivial
      | ok raw =>
        refine ⟨trivial, ?_⟩
        intro r
        cases r with
        | error e => trivial
        | ok a => rfl
  refine Prog.Keeps.bind (Q := fun raw m ↦ m = LoadMode.got raw)
    (hread.handle (fun _ _ h ↦ h) ?_) ?_
  · intro e m _
    cases e <;> trivial
  · rintro raw _ rfl
    cases hparse : parseKeyFile codec requireNonempty raw with
    | error message => trivial
    | ok records => exact ⟨raw, rfl, hparse⟩

/-- What a load has seen is a store of the past, and so is what it has open. -/
structure Served (codec : KeyCodec) (base : Option Bytes) (w : World) (requireNonempty : Bool)
    (rest : Code Failure (List ApiKeyRecord)) (seen : Option (Option Bytes)) (m : LoadMode) :
    Prop where
  keeps : rest.Keeps loading (Parsed codec requireNonempty) (fun _ _ ↦ True) m
  opened : ∀ i, m = .opened i →
    ∃ content, w.fs.Settled i content ∧ Past codec base w.commits (some content)
  got : ∀ raw, m = .got raw → seen = some (some raw)
  seen : ∀ bytes, seen = some bytes → Past codec base w.commits bytes

namespace World

variable {codec : KeyCodec} {base : Option Bytes} {pid : Nat} {w w' : World} {c : Call}

/-- A load changes neither the files nor the lock. -/
theorem answer_server {m : LoadMode} {fault : Option OSError} {r : Reply c}
    (ha : loading.allowed m c) (h : w.answer pid c fault = some (r, w')) :
    w' = w ∧ (fault = none ∧ r = (w.fs.perform c).1 ∨ fault ≠ none ∧ ∃ e, r = .error e) := by
  cases fault with
  | some e =>
    cases h
    exact ⟨rfl, .inr ⟨nofun, e, rfl⟩⟩
  | none =>
    have hfs : (w.fs.perform c).2 = w.fs := by
      cases c with
      | openStore => cases hst : w.fs.store <;> simp only [FileSystem.perform, hst]
      | read i => cases hst : w.fs.inodes[i]? <;> simp only [FileSystem.perform, hst]
      | close d => rfl
      | _ => exact ha.elim
    have hperform := perform_file w pid (c := c) (by rintro rfl; exact ha) (by rintro rfl; exact ha)
      (by rintro rfl; exact ha)
    rw [hfs] at hperform
    cases hperform.symm.trans h
    exact ⟨rfl, .inl ⟨rfl, rfl⟩⟩

/-- The next call of a load fails. -/
theorem served_fault {requireNonempty : Bool} {k : Reply c → Code Failure (List ApiKeyRecord)}
    {seen : Option (Option Bytes)} {m : LoadMode} (e : OSError)
    (h : Served codec base w requireNonempty (.call c k) seen m) :
    Served codec base w requireNonempty (k (.error e)) seen (loading.next m c (.error e)) := by
  have hallowed := h.keeps.1
  refine ⟨h.keeps.2 _, ?_, ?_, h.seen⟩
  · intro i hi
    cases c with
    | openStore => cases hi
    | read j => cases hi
    | _ => exact h.opened i hi
  · intro raw hraw
    cases c with
    | openStore => cases hraw
    | read j => cases hraw
    | _ => exact h.got raw hraw

/-- The next call of a load succeeds, or finds no store. -/
theorem served_perform {requireNonempty : Bool} {k : Reply c → Code Failure (List ApiKeyRecord)}
    {seen : Option (Option Bytes)} {m : LoadMode}
    (hstore : replay codec base w.commits = .ok w.fs.bytes)
    (h : Served codec base w requireNonempty (.call c k) seen m) :
    Served codec base w requireNonempty (k (w.fs.perform c).1)
      (c.observed seen (w.fs.perform c).1) (loading.next m c (w.fs.perform c).1) := by
  have hnow : Past codec base w.commits w.fs.bytes :=
    ⟨w.commits, [], (List.append_nil _).symm, hstore⟩
  have hkeeps := h.keeps.2 (w.fs.perform c).1
  cases c with
  | openStore =>
    cases hst : w.fs.store with
    | none =>
      simp only [FileSystem.perform, hst] at hkeeps ⊢
      refine ⟨hkeeps, by rintro _ ⟨⟩, by rintro _ ⟨⟩, ?_⟩
      rintro _ ⟨⟩
      rw [← FileSystem.bytes_eq_none hst]
      exact hnow
    | some i =>
      simp only [FileSystem.perform, hst] at hkeeps ⊢
      refine ⟨hkeeps, ?_, by rintro _ ⟨⟩, h.seen⟩
      rintro _ ⟨⟩
      obtain ⟨content, hsettled, hbytes⟩ := FileSystem.settled_store hst
      rw [hbytes] at hnow
      exact ⟨content, hsettled, hnow⟩
  | read i =>
    obtain ⟨content, ⟨-, file, hfile, rfl⟩, hpast⟩ := h.opened i h.keeps.1
    simp only [FileSystem.perform, hfile] at hkeeps ⊢
    refine ⟨hkeeps, by rintro _ ⟨⟩, ?_, ?_⟩
    · rintro _ ⟨⟩
      rfl
    · rintro _ ⟨⟩
      exact hpast
  | close d => exact ⟨hkeeps, h.opened, h.got, h.seen⟩
  | _ => exact h.keeps.1.elim

end World

/-! ### Runs -/

/-- What holds of all processes together, for a store that began with the bytes `base`. -/
structure Coherent (codec : KeyCodec) (base : Option Bytes) (w : World) : Prop where
  store : replay codec base w.commits = .ok w.fs.bytes
  holder : ∀ pid, w.holder = some pid → ∃ op rest, w.processes[pid]? = some (.operation op rest)
  operation : ∀ pid op rest, w.processes[pid]? = some (.operation op rest) →
    ∃ m, rest.Keeps (administration codec op) (fun _ _ ↦ True) (fun _ _ ↦ True) m ∧
      (w.holder = some pid ↔ m.locked = true) ∧
      (m.locked = true → m.phase.Holds codec op w.fs)
  server : ∀ (pid : Nat) requireNonempty rest seen,
    w.processes[pid]? = some (.server requireNonempty rest seen) →
    ∃ m, Served codec base w requireNonempty rest seen m

section Coherent

variable {codec : KeyCodec} {base : Option Bytes} {w w' : World} {pid : Nat}

theorem coherent_start (codec : KeyCodec) (fs : FileSystem) :
    Coherent codec fs.bytes { fs } where
  store := rfl
  holder _ h := by cases h
  operation _ _ _ h := by cases h
  server _ _ _ _ h := by cases h

/-- A load goes on seeing the past while others go on. -/
theorem Served.mono {requireNonempty : Bool} {rest : Code Failure (List ApiKeyRecord)}
    {seen : Option (Option Bytes)} {m : LoadMode}
    (h : Served codec base w requireNonempty rest seen m)
    (hsettled : ∀ i content, w.fs.Settled i content → w'.fs.Settled i content)
    (hcommits : ∃ ops, w'.commits = w.commits ++ ops) :
    Served codec base w' requireNonempty rest seen m := by
  obtain ⟨ops, hops⟩ := hcommits
  refine ⟨h.keeps, ?_, h.got, ?_⟩
  · intro i hi
    obtain ⟨content, hs, hpast⟩ := h.opened i hi
    rw [hops]
    exact ⟨content, hsettled i content hs, hpast.snoc ops⟩
  · intro bytes hbytes
    rw [hops]
    exact (h.seen bytes hbytes).snoc ops

/-- A new process. -/
theorem Coherent.arrive {p : Process} (h : Coherent codec base w)
    (hop : ∀ op rest, p = .operation op rest → rest = op.code codec)
    (hserver : ∀ requireNonempty rest seen, p = .server requireNonempty rest seen →
      rest = loadKeyFile codec requireNonempty ∧ seen = none) :
    Coherent codec base { w with processes := w.processes ++ [p] } where
  store := h.store
  holder q hq := by
    obtain ⟨op, rest, hp⟩ := h.holder q hq
    refine ⟨op, rest, ?_⟩
    rw [List.getElem?_append_left (List.getElem?_eq_some_iff.mp hp).1]
    exact hp
  operation q op rest hq := by
    rcases getElem?_snoc_cases hq with hq | ⟨rfl, rfl⟩
    · exact h.operation q op rest hq
    · cases hop op rest rfl
      refine ⟨{}, (keeps_code codec op).mono (fun _ _ _ ↦ trivial) (fun _ _ _ ↦ trivial), ?_, nofun⟩
      constructor
      · intro hholder
        -- a process that is not there yet has no lock
        obtain ⟨op', rest', hp⟩ := h.holder _ hholder
        rw [List.getElem?_eq_none (Nat.le_refl _)] at hp
        cases hp
      · nofun
  server q requireNonempty rest seen hq := by
    rcases getElem?_snoc_cases hq with hq | ⟨rfl, rfl⟩
    · obtain ⟨m, hm⟩ := h.server q requireNonempty rest seen hq
      exact ⟨m, hm.mono (fun _ _ hs ↦ hs) ⟨[], (List.append_nil _).symm⟩⟩
    · obtain ⟨rfl, rfl⟩ := hserver requireNonempty rest seen rfl
      exact ⟨.start, keeps_loading codec requireNonempty, nofun, nofun, nofun⟩

/-- A call of an operation. -/
theorem Coherent.operationCall {op : Operation} {c : Call}
    {k : Reply c → Code Failure (Option (List Char))} {fault : Option OSError} {r : Reply c}
    (h : Coherent codec base w) (hp : w.processes[pid]? = some (.operation op (.call c k)))
    (ha : w.answer pid c fault = some (r, w')) :
    Coherent codec base
      { w' with
        processes := w'.processes.set pid (.operation op (k r))
        commits := if c.commits r then w'.commits ++ [op] else w'.commits } := by
  obtain ⟨m, ⟨hallowed, hkeeps⟩, hholder, hholds⟩ := h.operation pid op _ hp
  have ht := World.turn_answer hallowed hholder hholds ha
  have hlt : pid < w.processes.length := (List.getElem?_eq_some_iff.mp hp).1
  have hself : (w.processes.set pid (.operation op (k r)))[pid]? = some (.operation op (k r)) :=
    List.getElem?_set_self hlt
  rw [ht.processes, ht.commits]
  refine ⟨?_, ?_, ?_, ?_⟩
  · cases hc : c.commits r with
    | false =>
      rw [if_neg Bool.false_ne_true, ht.unchanged hc]
      exact h.store
    | true =>
      obtain ⟨records, happly, hbytes⟩ := ht.committed hc
      rw [if_pos rfl, replay_append, h.store, hbytes]
      change (op.apply codec w.fs.bytes).bind _ = _
      rw [happly]
      rfl
  · intro q hq
    by_cases hqp : q = pid
    · subst hqp
      exact ⟨op, k r, hself⟩
    · obtain ⟨op', rest', hq'⟩ := h.holder q ((ht.others q hqp).mp hq)
      refine ⟨op', rest', ?_⟩
      rw [List.getElem?_set_ne (Ne.symm hqp)]
      exact hq'
  · intro q op' rest' hq
    rcases getElem?_set_cases hq with ⟨rfl, hrest⟩ | ⟨hqp, hq⟩
    · cases hrest
      exact ⟨_, hkeeps r, ht.holder, ht.holds⟩
    · obtain ⟨m', hkeeps', hholder', hholds'⟩ := h.operation q op' rest' hq
      refine ⟨m', hkeeps', (ht.others q hqp).trans hholder', ?_⟩
      intro hlocked
      -- the lock is with that process, so this one changed no file
      have hother : w.holder ≠ some pid := by
        rw [hholder'.mpr hlocked]
        exact fun heq ↦ hqp (Option.some.inj heq)
      change m'.phase.Holds codec op' w'.fs
      rw [ht.quiet hother]
      exact hholds' hlocked
  · intro q requireNonempty rest seen hq
    rcases getElem?_set_cases hq with ⟨rfl, hrest⟩ | ⟨-, hq⟩
    · cases hrest
    · obtain ⟨m', hm'⟩ := h.server q requireNonempty rest seen hq
      refine ⟨m', hm'.mono ht.settled ?_⟩
      cases c.commits r with
      | false => exact ⟨[], (List.append_nil _).symm⟩
      | true => exact ⟨[op], rfl⟩

/-- A call of a server. -/
theorem Coherent.serverCall {requireNonempty : Bool} {c : Call}
    {k : Reply c → Code Failure (List ApiKeyRecord)} {seen : Option (Option Bytes)}
    {fault : Option OSError} {r : Reply c} (h : Coherent codec base w)
    (hp : w.processes[pid]? = some (.server requireNonempty (.call c k) seen))
    (ha : w.answer pid c fault = some (r, w')) :
    Coherent codec base
      { w' with
        processes := w'.processes.set pid
          (.server requireNonempty (k r) (if fault.isNone then c.observed seen r else seen)) } := by
  obtain ⟨m, hm⟩ := h.server pid _ _ _ hp
  obtain ⟨rfl, hr⟩ := World.answer_server hm.keeps.1 ha
  have hserved : ∃ m', Served codec base w' requireNonempty (k r)
      (if fault.isNone then c.observed seen r else seen) m' := by
    rcases hr with ⟨rfl, rfl⟩ | ⟨hfault, e, rfl⟩
    · exact ⟨_, World.served_perform h.store hm⟩
    · rw [if_neg (by simpa using hfault)]
      exact ⟨_, World.served_fault e hm⟩
  refine ⟨h.store, ?_, ?_, ?_⟩
  · intro q hq
    obtain ⟨op, rest, hq'⟩ := h.holder q hq
    refine ⟨op, rest, ?_⟩
    have hqp : pid ≠ q := by
      rintro rfl
      rw [hp] at hq'
      cases hq'
    rw [List.getElem?_set_ne hqp]
    exact hq'
  · intro q op rest hq
    rcases getElem?_set_cases hq with ⟨rfl, hrest⟩ | ⟨-, hq⟩
    · cases hrest
    · exact h.operation q op rest hq
  · intro q rn rest seen' hq
    rcases getElem?_set_cases hq with ⟨rfl, hrest⟩ | ⟨-, hq⟩
    · cases hrest
      obtain ⟨m', hm'⟩ := hserved
      exact ⟨m', hm'.mono (fun _ _ hs ↦ hs) ⟨[], (List.append_nil _).symm⟩⟩
    · obtain ⟨m', hm'⟩ := h.server q rn rest seen' hq
      exact ⟨m', hm'.mono (fun _ _ hs ↦ hs) ⟨[], (List.append_nil _).symm⟩⟩

/-- A kill. -/
theorem Coherent.kill (h : Coherent codec base w) (pid : Nat) :
    Coherent codec base { w.release pid with processes := w.processes.set pid .dead } := by
  have hrelease (q : Nat) (hq : q ≠ pid) : (w.release pid).holder = some q ↔ w.holder = some q := by
    simp only [World.release]
    split
    · next heq =>
      rw [heq]
      exact ⟨nofun, fun hsame ↦ absurd (Option.some.inj hsame).symm hq⟩
    · exact Iff.rfl
  have hfree : (w.release pid).holder ≠ some pid := by
    simp only [World.release]
    split
    · nofun
    · next hne => exact hne
  refine ⟨h.store, ?_, ?_, ?_⟩
  · intro q hq
    have hqp : q ≠ pid := by
      rintro rfl
      exact hfree hq
    obtain ⟨op, rest, hq'⟩ := h.holder q ((hrelease q hqp).mp hq)
    refine ⟨op, rest, ?_⟩
    change (w.processes.set pid .dead)[q]? = _
    rw [List.getElem?_set_ne (Ne.symm hqp)]
    exact hq'
  · intro q op rest hq
    rcases getElem?_set_cases hq with ⟨-, hrest⟩ | ⟨hqp, hq⟩
    · cases hrest
    · obtain ⟨m, hkeeps, hholder, hholds⟩ := h.operation q op rest hq
      exact ⟨m, hkeeps, (hrelease q hqp).trans hholder, hholds⟩
  · intro q requireNonempty rest seen hq
    rcases getElem?_set_cases hq with ⟨-, hrest⟩ | ⟨-, hq⟩
    · cases hrest
    · obtain ⟨m, hm⟩ := h.server q requireNonempty rest seen hq
      exact ⟨m, hm.mono (fun _ _ hs ↦ hs) ⟨[], (List.append_nil _).symm⟩⟩

/-- Every step. -/
theorem Coherent.step {e : Event} (h : Coherent codec base w) (hw : w.step codec e = some w') :
    Coherent codec base w' := by
  cases e with
  | spawn op =>
    cases hw
    refine h.arrive ?_ nofun
    rintro _ _ ⟨⟩
    rfl
  | serve requireNonempty =>
    cases hw
    refine h.arrive nofun ?_
    rintro _ _ _ ⟨⟩
    exact ⟨rfl, rfl⟩
  | kill pid =>
    cases hw
    exact h.kill pid
  | call pid fault =>
    obtain ⟨p, hp, hcall⟩ := Option.bind_eq_some_iff.mp hw
    unfold World.call at hcall
    split at hcall
    · obtain ⟨⟨r, w₁⟩, ha, rfl⟩ := Option.map_eq_some_iff.mp hcall
      exact h.operationCall hp ha
    · obtain ⟨⟨r, w₁⟩, ha, rfl⟩ := Option.map_eq_some_iff.mp hcall
      exact h.serverCall hp ha
    · cases hcall

end Coherent

/-- Administration is serializable in the order of the replacements, loads see complete stores of
the past, and no update is lost. -/
theorem concurrent_administration (codec : KeyCodec) (fs : FileSystem) {events : List Event}
    {w : World} (h : exec (World.step codec) { fs } events = some w) :
    replay codec fs.bytes w.commits = .ok w.fs.bytes ∧
      (∀ (pid : Nat) requireNonempty rest bytes,
        w.processes[pid]? = some (.server requireNonempty rest (some bytes)) →
        Past codec fs.bytes w.commits bytes ∧
          (Complete codec fs.bytes → Complete codec bytes)) ∧
      (∀ (pid : Nat) requireNonempty records seen,
        w.processes[pid]? = some (.server requireNonempty (.ret records) seen) →
        ∃ raw, seen = some (some raw) ∧ parseKeyFile codec requireNonempty raw = .ok records) ∧
      (∀ before after bytes, w.commits = before ++ after →
        replay codec fs.bytes before = .ok bytes →
        (∀ r ∈ recordsOf codec bytes, r ∉ recordsOf codec w.fs.bytes → .revoke r.keyId ∈ after) ∧
        (∀ r ∈ recordsOf codec w.fs.bytes, r ∉ recordsOf codec bytes →
          ∃ secret, .generate r.keyId secret ∈ after ∧ r = recordOf codec r.keyId secret)) := by
  have hw : Coherent codec fs.bytes w :=
    exec_preserves (fun _ _ _ hc hs ↦ hc.step hs) h (coherent_start codec fs)
  refine ⟨hw.store, ?_, ?_, ?_⟩
  · intro pid requireNonempty rest bytes hp
    obtain ⟨m, hm⟩ := hw.server pid requireNonempty rest _ hp
    obtain ⟨before, after, hcommits, hreplay⟩ := hm.seen bytes rfl
    exact ⟨⟨before, after, hcommits, hreplay⟩, fun hbase ↦ replay_complete hbase hreplay⟩
  · intro pid requireNonempty records seen hp
    obtain ⟨m, hm⟩ := hw.server pid requireNonempty _ _ hp
    obtain ⟨raw, hgot, hparse⟩ := hm.keeps
    exact ⟨raw, hm.got raw hgot, hparse⟩
  · intro before after bytes hcommits hbefore
    -- what came after replays from there
    have hafter : replay codec bytes after = .ok w.fs.bytes := by
      have hstore := hw.store
      rw [hcommits, replay_append, hbefore] at hstore
      exact hstore
    exact ⟨fun r hr hgone ↦ revoke_of_removed hafter hr hgone,
      fun r hr hnew ↦ generate_of_added hafter hr hnew⟩

/-- The next calls of a process. -/
def turns (pid n : Nat) : List Event := List.replicate n (.call pid none)

/-- A generation and a revocation race for the lock, a server opens the first store, the
revocation is killed after its replacement and the server reads what it opened. -/
def handover : List Event :=
  ([.spawn (.generate "a" ['x']), .spawn (.revoke "a"), .serve true] : List Event) ++ turns 0 3 ++
    turns 1 3 ++ turns 0 17 ++ turns 2 1 ++ turns 1 13 ++ [Event.kill 1] ++ turns 2 2

theorem concurrent_administration_handover :
    ∃ w, exec (World.step plainCodec) { fs := {} } handover = some w ∧
      w.commits = [.generate "a" ['x'], .revoke "a"] ∧
      replay plainCodec ({} : FileSystem).bytes w.commits = .ok w.fs.bytes ∧
      recordsOf plainCodec w.fs.bytes = [] := by
  have hfacts : (exec (World.step plainCodec) { fs := {} } handover).map
      (fun w ↦ (w.commits, recordsOf plainCodec w.fs.bytes)) =
      some ([.generate "a" ['x'], .revoke "a"], []) := by
    decide +kernel
  obtain ⟨w, hrun, hw⟩ := Option.map_eq_some_iff.mp hfacts
  obtain ⟨hcommits, hrecords⟩ := Prod.mk.inj hw
  exact ⟨w, hrun, hcommits, (concurrent_administration plainCodec {} hrun).1, hrecords⟩

end InferenceServer.Security
