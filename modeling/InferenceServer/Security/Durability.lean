import InferenceServer.Base.Writeback
import InferenceServer.Security.Concurrency

/-!
# Loss of power

Library `Security`. The processes of `Security.Concurrency` on a medium that keeps what was synced.
`_write_key_file` calls `os.fsync` on the temporary file before `os.replace` and on the directory
after it (`python/cuda_db/security/keys.py:118–135`). After a loss of power a file that was
written to since its last `fsync` may hold anything, and the store path names what it named at the
last `fsync` of the directory, or any file it named since. The directory of the store is taken to be
on the medium already: `mkdir` is not synced.
-/

namespace InferenceServer.Security

open InferenceServer.Base InferenceServer.Server

/-! ### The medium -/

structure Disk where
  /-- the files whose contents are on the medium -/
  synced : List Nat
  store : Writeback (Option Nat)

namespace Disk

/-- A store that was there before. -/
def start (fs : FileSystem) : Disk where
  synced := fs.store.toList
  store := { permanent := fs.store }

/-- A call was answered and left the files `fs`. A write that fails may have written a part. -/
def after (d : Disk) (fs : FileSystem) : (c : Call) → Reply c → Disk
  | .write t _, _ => { d with synced := d.synced.filter (· ≠ t) }
  | .flush t, _ => { d with synced := d.synced.filter (· ≠ t) }
  | .fsync (.temporary t), .ok _ => { d with synced := t :: d.synced }
  | .fsync .directory, .ok _ => { d with store := d.store.sync }
  | .replace _, .ok _ => { d with store := d.store.put fs.store }
  | _, _ => d

/-- The bytes that may be found at the store path after a loss of power. -/
inductive Recovers (d : Disk) (fs : FileSystem) : Option Bytes → Prop where
  | missing (h : none ∈ d.store.survivors) : Recovers d fs none
  | whole {i : Nat} {file : Inode} (h : some i ∈ d.store.survivors) (hs : i ∈ d.synced)
    (hfile : fs.inodes[i]? = some file) : Recovers d fs (some file.content)
  | torn {i : Nat} (h : some i ∈ d.store.survivors) (hs : i ∉ d.synced) (raw : Bytes) :
    Recovers d fs (some raw)

end Disk

/-- The call that a process makes, with its answer. -/
def World.exchange (w : World) (pid : Nat) (fault : Option OSError) :
    Option ((c : Call) × Reply c) :=
  match w.processes[pid]? with
  | some (.operation _ (.call c _)) => (w.answer pid c fault).map fun (r, _) ↦ ⟨c, r⟩
  | some (.server _ (.call c _) _) => (w.answer pid c fault).map fun (r, _) ↦ ⟨c, r⟩
  | _ => none

/-- The processes and the medium. `writers` are the processes of the commits. -/
structure Machine where
  world : World
  disk : Disk
  writers : List Nat := []

namespace Machine

def start (fs : FileSystem) : Machine := { world := { fs }, disk := .start fs }

/-- The world went on to `w` with a call of `pid`. -/
def note (m : Machine) (w : World) (pid : Nat) : Option ((c : Call) × Reply c) → Machine
  | some ⟨c, r⟩ =>
    { world := w
      disk := m.disk.after w.fs c r
      writers := if c.commits r then m.writers ++ [pid] else m.writers }
  | none => { m with world := w }

/-- A step of the processes. -/
def advance (codec : KeyCodec) (m : Machine) : Event → Option Machine
  | .call pid fault =>
    (m.world.step codec (.call pid fault)).map fun w ↦ m.note w pid (m.world.exchange pid fault)
  | e => (m.world.step codec e).map fun world ↦ { m with world }

/-- A failure that a process meets is one that the call raises. `Path.exists` raises some errors
and takes others for absence (`ENOENT`, `ENOTDIR`, `EBADF` and `ELOOP`; every error from Python 3.14
on), which is `unseen`. -/
inductive Event where
  | process (e : Security.Event)
  /-- `store_path.exists()` meets an error that it takes for absence -/
  | unseen (pid : Nat)

/-- One step. -/
def step (codec : KeyCodec) (m : Machine) : Event → Option Machine
  | .process e => m.advance codec e
  | .unseen pid =>
    match m.world.processes[pid]? with
    | some (.operation op (.call .exists k)) =>
      some { m with
        world := { m.world with
          processes := m.world.processes.set pid (.operation op (k (.ok false))) } }
    | _ => none

/-- `store_path.exists()` takes no error for absence while the store is there. -/
def Sees (m : Machine) : Event → Prop
  | .process _ => True
  | .unseen _ => m.world.fs.store = none

instance (m : Machine) : (e : Event) → Decidable (m.Sees e)
  | .process _ => .isTrue trivial
  | .unseen _ => inferInstanceAs (Decidable (_ = _))

/-- Without a store such an error makes no difference. -/
theorem step_unseen (codec : KeyCodec) {m : Machine} (pid : Nat) (h : m.world.fs.store = none) :
    m.step codec (.unseen pid) = none ∨
      m.step codec (.unseen pid) = m.advance codec (.call pid none) := by
  unfold step
  dsimp only
  split
  · next op k hp =>
    right
    have hanswer : m.world.answer pid .exists none = some (.ok false, m.world) := by
      change some ((.ok m.world.fs.store.isSome : Reply .exists), m.world) = _
      rw [h]
      rfl
    have hcall : m.world.step codec (.call pid none) =
        some { m.world with
          processes := m.world.processes.set pid (.operation op (k (.ok false))) } := by
      simp only [World.step, hp, Option.bind_some, World.call, hanswer, Option.map_some]
      rfl
    have hexchange : m.world.exchange pid none = some ⟨.exists, .ok false⟩ := by
      simp only [World.exchange, hp, hanswer, Option.map_some]
    rw [advance, hcall, hexchange]
    rfl
  · exact .inl rfl

end Machine

/-! ### The order of the syncs -/

/-- How far an operation is with its temporary file. -/
inductive Sync where
  | idle
  | fresh (t : Nat)
  | flushed (t : Nat)
  | clean (t : Nat)
  | replaced
  | durable
  deriving DecidableEq

/-- A temporary file is filled, synced and then installed, and the directory is synced last. -/
def syncing : Prog.Protocol Call Reply Sync where
  allowed s
    | .lock => s = .idle
    | .mkstemp => s = .idle
    | .write t _ => s = .fresh t
    | .flush t => s = .fresh t
    | .replace t => s = .clean t
    | _ => True
  next s
    | .mkstemp, .ok t => .fresh t
    | .flush t, .ok _ => .flushed t
    | .fsync (.temporary t), .ok _ => if s = .flushed t then .clean t else s
    | .replace _, .ok _ => .replaced
    | .fsync .directory, .ok _ => if s = .replaced then .durable else s
    | _, _ => s

/-- The calls that are neither locks nor on the way to the new store. -/
def Call.Still : Call → Prop
  | .lock => False
  | .mkstemp => False
  | .write _ _ => False
  | .flush _ => False
  | .fsync _ => False
  | .replace _ => False
  | _ => True

section Keeps

variable {codec : KeyCodec} {s : Sync} {ε α : Type}

/-- Code without such calls stays where it is. -/
theorem keeps_of_still {x : Code ε α} (h : x.Calls Call.Still) :
    x.Keeps syncing (fun _ s' ↦ s' = s) (fun _ s' ↦ s' = s) s := by
  induction x with
  | ret a => rfl
  | raise e => rfl
  | call c k ih =>
    have hnext (r : Reply c) : syncing.next s c r = s := by
      cases c with
      | lock => exact h.1.elim
      | mkstemp => exact h.1.elim
      | write t payload => exact h.1.elim
      | flush t => exact h.1.elim
      | fsync d => exact h.1.elim
      | replace t => exact h.1.elim
      | _ => rfl
    refine ⟨?_, ?_⟩
    · cases c with
      | lock => exact h.1.elim
      | mkstemp => exact h.1.elim
      | write t payload => exact h.1.elim
      | flush t => exact h.1.elim
      | replace t => exact h.1.elim
      | _ => trivial
    · intro r
      rw [hnext]
      exact ih r (h.2 r)

/-- One call and what follows it; where a failure leads does not matter. -/
theorem syncs_sysWith_bind {f : OSError → ε} {c : Call} {k : c.Answer → Code ε α}
    {Q : α → Sync → Prop} (ha : syncing.allowed s c)
    (hok : ∀ a, (k a).Keeps syncing Q (fun _ _ ↦ True) (syncing.next s c (.ok a))) :
    (sysWith f c >>= k).Keeps syncing Q (fun _ _ ↦ True) s := by
  refine ⟨ha, ?_⟩
  intro r
  cases r with
  | ok a => exact hok a
  | error e => trivial

theorem syncs_sysWith {f : OSError → ε} {c : Call} {Q : c.Answer → Sync → Prop}
    (ha : syncing.allowed s c) (hok : ∀ a, Q a (syncing.next s c (.ok a))) :
    (sysWith f c).Keeps syncing Q (fun _ _ ↦ True) s := by
  refine ⟨ha, ?_⟩
  intro r
  cases r with
  | ok a => exact hok a
  | error e => trivial

theorem calls_sysWith {f : OSError → ε} {c : Call} (hc : c.Still) :
    (sysWith f c).Calls Call.Still := by
  refine ⟨hc, ?_⟩
  intro r
  cases r <;> trivial

/-- A `finally` block without such calls changes nothing. -/
theorem syncs_tryFinally {x : Code ε α} {f : Code ε Unit} {Q : α → Sync → Prop}
    (hx : x.Keeps syncing Q (fun _ _ ↦ True) s) (hf : f.Calls Call.Still) :
    (x.tryFinally f).Keeps syncing Q (fun _ _ ↦ True) s := by
  refine hx.tryFinally ?_ ?_
  · intro a s' ha
    refine (keeps_of_still hf).mono ?_ (fun _ _ _ ↦ trivial)
    rintro _ _ rfl
    exact ha
  · intro e s' _
    exact (keeps_of_still hf).mono (fun _ _ _ ↦ trivial) (fun _ _ _ ↦ trivial)

theorem syncs_writeBody (payload : Bytes) :
    (writeBody payload).Keeps syncing (fun _ s ↦ s = .durable) (fun _ _ ↦ True) .idle := by
  refine syncs_sysWith_bind rfl ?_
  intro t
  refine syncs_sysWith_bind trivial ?_
  intro _
  refine syncs_sysWith_bind trivial ?_
  intro _
  refine Prog.Keeps.bind (Q := fun _ s ↦ s = Sync.clean t) ?_ ?_
  · refine syncs_tryFinally ?_ (calls_sysWith trivial)
    refine syncs_sysWith_bind rfl ?_
    intro _
    refine syncs_sysWith_bind rfl ?_
    intro _
    exact syncs_sysWith trivial fun _ ↦ if_pos rfl
  · rintro _ _ rfl
    refine syncs_sysWith_bind rfl ?_
    intro _
    refine syncs_sysWith_bind trivial ?_
    intro _
    refine syncs_sysWith_bind trivial ?_
    intro _
    exact syncs_tryFinally (syncs_sysWith trivial fun _ ↦ rfl) (calls_sysWith trivial)

theorem calls_cleanUp (l : WriteLocals) : (cleanUp l).Calls Call.Still := by
  refine Prog.Calls.handle ?_ ?_ (fun _ ↦ trivial)
  · cases l.descriptor with
    | none => trivial
    | some d => exact calls_sysWith trivial
  · intro _
    cases l.temporaryName with
    | none => trivial
    | some t =>
      refine Prog.Calls.handle (calls_sysWith trivial) (fun _ ↦ trivial) ?_
      intro e
      cases e with
      | keyFile message => trivial
      | os e => cases e <;> trivial

theorem syncs_writeKeyFile (codec : KeyCodec) (records : List ApiKeyRecord) :
    (writeKeyFile codec records).Keeps syncing (fun _ s ↦ s = .durable) (fun _ _ ↦ True)
      .idle := by
  refine syncs_sysWith_bind trivial ?_
  intro _
  refine (syncs_writeBody _).handle ?_ ?_
  · rintro _ _ rfl
    exact (keeps_of_still (calls_cleanUp {})).mono (fun _ _ h ↦ h) fun _ _ _ ↦ trivial
  · rintro ⟨_, l⟩ s _
    exact syncs_tryFinally (Q := fun _ s ↦ s = .durable) trivial (calls_cleanUp l)

/-- A load makes no such call. -/
theorem calls_loadKeyFile (codec : KeyCodec) (requireNonempty : Bool) :
    (loadKeyFile codec requireNonempty).Calls Call.Still := by
  apply (keeps_loading codec requireNonempty).calls
  intro m c hc
  cases c with
  | openStore => trivial
  | read i => trivial
  | close d => trivial
  | _ => exact hc.elim

/-- An operation in its lock. -/
theorem syncs_storeLock {body : Code Failure α} {Q : α → Sync → Prop}
    (hbody : body.Keeps syncing Q (fun _ _ ↦ True) .idle) :
    (storeLock body).Keeps syncing Q (fun _ _ ↦ True) .idle := by
  refine syncs_sysWith_bind trivial ?_
  intro _
  refine Prog.Keeps.bind (Q := fun _ s ↦ s = Sync.idle) ?_ ?_
  · refine Prog.Keeps.handle (Q := fun _ s ↦ s = Sync.idle) (E := fun _ _ ↦ True) ?_
      (fun _ _ h ↦ h) ?_
    · refine syncs_sysWith_bind trivial ?_
      intro _
      refine syncs_sysWith_bind trivial ?_
      intro _
      exact syncs_sysWith rfl fun _ ↦ rfl
    · rintro ⟨_, opened⟩ s _
      cases opened with
      | false => trivial
      | true => exact syncs_sysWith_bind trivial fun _ ↦ trivial
  · rintro _ _ rfl
    refine syncs_tryFinally hbody ?_
    exact Prog.Calls.handle (calls_sysWith trivial) (fun _ ↦ calls_sysWith trivial)
      fun _ ↦ trivial

theorem calls_check {x : Checked α} : (check x).Calls Call.Still := by
  cases x <;> trivial

/-- Code without such calls, and what follows it. -/
theorem syncs_still_bind {β : Type} {x : Code ε α} {k : α → Code ε β} {Q : β → Sync → Prop}
    (hx : x.Calls Call.Still) (hk : ∀ a, (k a).Keeps syncing Q (fun _ _ ↦ True) s) :
    (x >>= k).Keeps syncing Q (fun _ _ ↦ True) s := by
  refine Prog.Keeps.bind (Q := fun _ s' ↦ s' = s)
    ((keeps_of_still hx).mono (fun _ _ h ↦ h) fun _ _ _ ↦ trivial) ?_
  rintro a _ rfl
  exact hk a

/-- An operation returns only when its store is on the medium. -/
theorem syncs_code (codec : KeyCodec) (op : Operation) :
    (op.code codec).Keeps syncing (fun _ s ↦ s = .durable) (fun _ _ ↦ True) .idle := by
  cases op with
  | generate keyId secret =>
    refine Prog.Keeps.handle (Q := fun _ s ↦ s = Sync.durable) (E := fun _ _ ↦ True) ?_
      (fun _ _ h ↦ h) fun _ _ h ↦ h
    refine syncs_still_bind calls_check ?_
    intro keyId
    apply syncs_storeLock
    refine syncs_sysWith_bind trivial ?_
    intro present
    refine syncs_still_bind ?_ ?_
    · cases present with
      | true => exact calls_loadKeyFile codec false
      | false => trivial
    · intro records
      refine syncs_still_bind calls_check ?_
      intro edited
      exact (syncs_writeKeyFile codec edited).bind fun _ _ h ↦ h
  | revoke keyId =>
    refine Prog.Keeps.handle (Q := fun _ s ↦ s = Sync.durable) (E := fun _ _ ↦ True) ?_
      (fun _ _ h ↦ h) fun _ _ h ↦ h
    refine syncs_still_bind calls_check ?_
    intro keyId
    apply syncs_storeLock
    refine syncs_still_bind (calls_loadKeyFile codec false) ?_
    intro records
    refine syncs_still_bind calls_check ?_
    intro edited
    exact syncs_writeKeyFile codec edited

end Keeps

/-! ### What is on the medium -/

/-- After `k` commits the store path named this file, which is on the medium and is not written
to any more. -/
def Named (codec : KeyCodec) (base : Option Bytes) (w : World) (d : Disk) (k : Nat) :
    Option Nat → Prop
  | none => replay codec base (w.commits.take k) = .ok none
  | some i => i ∈ d.synced ∧ ∃ content, w.fs.Settled i content ∧
      replay codec base (w.commits.take k) = .ok (some content)

/-- What an operation has put on the medium. -/
def Sync.Holds (m : Machine) (pid : Nat) (op : Operation) : Sync → Prop
  | .clean t => m.world.holder = some pid → t ∈ m.disk.synced
  | .replaced => ∃ j : Nat, m.writers[j]? = some pid ∧ m.world.commits[j]? = some op
  | .durable => ∃ j < m.disk.store.settled m.world.commits.length,
      m.writers[j]? = some pid ∧ m.world.commits[j]? = some op
  | _ => True

/-- The processes together with the medium, for a store that began with the bytes `base`. -/
structure Durable (codec : KeyCodec) (base : Option Bytes) (m : Machine) : Prop where
  coherent : Coherent codec base m.world
  writers : m.writers.length = m.world.commits.length
  names : m.disk.store.Follows (Named codec base m.world m.disk) m.world.commits.length
  operation : ∀ (pid : Nat) op rest, m.world.processes[pid]? = some (.operation op rest) →
    ∃ s, rest.Keeps syncing (fun _ s ↦ s = .durable) (fun _ _ ↦ True) s ∧ s.Holds m pid op

section Durable

variable {codec : KeyCodec} {base : Option Bytes} {m m' : Machine} {pid : Nat} {op : Operation}
  {c : Call}

theorem durable_start (codec : KeyCodec) (fs : FileSystem) :
    Durable codec fs.bytes (Machine.start fs) where
  coherent := coherent_start codec fs
  writers := rfl
  names := by
    apply Writeback.Follows.start
    cases hs : fs.store with
    | none => exact congrArg Except.ok (FileSystem.bytes_eq_none hs)
    | some i =>
      obtain ⟨content, hsettled, hbytes⟩ := FileSystem.settled_store hs
      refine ⟨?_, content, hsettled, congrArg Except.ok hbytes⟩
      change i ∈ fs.store.toList
      rw [hs]
      exact List.mem_singleton.mpr rfl
  operation _ _ _ h := by cases h

/-- What was on the medium stays there while the processes go on. -/
theorem Sync.Holds.mono {s : Sync} (h : s.Holds m pid op)
    (hholder : m'.world.holder = some pid → m.world.holder = some pid)
    (hsynced : m'.world.holder = some pid → ∀ t ∈ m.disk.synced, t ∈ m'.disk.synced)
    (hcommits : m.world.commits <+: m'.world.commits) (hwriters : m.writers <+: m'.writers)
    (hsettled : m.disk.store.settled m.world.commits.length ≤
      m'.disk.store.settled m'.world.commits.length) : s.Holds m' pid op := by
  cases s with
  | clean t => exact fun hp ↦ hsynced hp t (h (hholder hp))
  | replaced =>
    obtain ⟨j, hw, hc⟩ := h
    exact ⟨j, getElem?_of_prefix hwriters hw, getElem?_of_prefix hcommits hc⟩
  | durable =>
    obtain ⟨j, hj, hw, hc⟩ := h
    exact ⟨j, Nat.lt_of_lt_of_le hj hsettled, getElem?_of_prefix hwriters hw,
      getElem?_of_prefix hcommits hc⟩
  | _ => trivial

/-- The names go on telling the past. -/
theorem Named.mono {w w' : World} {d d' : Disk} {k : Nat} {name : Option Nat}
    (h : Named codec base w d k name) (hk : k ≤ w.commits.length)
    (hsettled : ∀ i content, w.fs.Settled i content → w'.fs.Settled i content)
    (hsynced : ∀ i content, w.fs.Settled i content → i ∈ d.synced → i ∈ d'.synced)
    (hcommits : w.commits <+: w'.commits) : Named codec base w' d' k name := by
  have htake : w'.commits.take k = w.commits.take k := by
    obtain ⟨ops, hops⟩ := hcommits
    rw [← hops, List.take_append_of_le_length hk]
  cases name with
  | none =>
    unfold Named
    rw [htake]
    exact h
  | some i =>
    obtain ⟨hi, content, hs, hreplay⟩ := h
    refine ⟨hsynced i content hs hi, content, hsettled i content hs, ?_⟩
    rw [htake]
    exact hreplay

/-- An operation writes to its own temporary file only. -/
theorem synced_after {md : Mode} {d : Disk} {fs fs' : FileSystem} {i : Nat} {content : Bytes}
    (ha : md.allows codec op c) (hholds : md.locked = true → md.phase.Holds codec op fs)
    (hs : fs.Settled i content) (hi : i ∈ d.synced) (r : Reply c) :
    i ∈ (d.after fs' c r).synced := by
  have hother {t : Nat} (ht : t ∈ fs.temporaries) : i ∈ d.synced.filter (· ≠ t) := by
    have hne : i ≠ t := by
      rintro rfl
      exact hs.1 ht
    exact List.mem_filter.mpr ⟨hi, decide_eq_true hne⟩
  cases c with
  | write t payload =>
    obtain ⟨hlocked, base, records, hphase, -⟩ := ha
    have hcreated := hholds hlocked
    rw [hphase] at hcreated
    exact hother hcreated.2.1
  | flush t =>
    obtain ⟨hlocked, base, records, hphase⟩ := ha
    have hwritten := hholds hlocked
    rw [hphase] at hwritten
    exact hother hwritten.2.1.1
  | fsync descriptor =>
    cases descriptor with
    | temporary t =>
      cases r with
      | ok a => exact List.mem_cons_of_mem _ hi
      | error e => exact hi
    | directory => cases r <;> exact hi
    | _ => exact hi
  | replace t => cases r <;> exact hi
  | _ => exact hi

/-- Without the lock nothing is taken from the medium. -/
theorem synced_unlocked {md : Mode} {d : Disk} {fs : FileSystem} (ha : md.allows codec op c)
    (hm : md.locked = false) (r : Reply c) {i : Nat} (hi : i ∈ d.synced) :
    i ∈ (d.after fs c r).synced := by
  have hno (h : md.locked = true) : i ∈ (d.after fs c r).synced := by
    rw [hm] at h
    cases h
  cases c with
  | write t payload => exact hno ha.1
  | flush t => exact hno ha.1
  | fsync descriptor =>
    cases descriptor with
    | temporary t =>
      cases r with
      | ok a => exact List.mem_cons_of_mem _ hi
      | error e => exact hi
    | directory => cases r <;> exact hi
    | _ => exact hi
  | replace t => exact hno ha.1
  | _ => exact hi

/-- Only a replacement gives the store path another file. -/
theorem store_after (d : Disk) (fs : FileSystem) {r : Reply c} (h : c.commits r = false) :
    (d.after fs c r).store = d.store ∨ (d.after fs c r).store = d.store.sync := by
  cases c with
  | fsync descriptor =>
    cases descriptor with
    | directory =>
      cases r with
      | ok a => exact .inr rfl
      | error e => exact .inl rfl
    | temporary t => cases r <;> exact .inl rfl
    | _ => exact .inl rfl
  | replace t =>
    cases r with
    | ok a => cases h
    | error e => exact .inl rfl
  | _ => exact .inl rfl

/-- A replacement installs the temporary file. -/
theorem store_of_commit {w w' : World} {fault : Option OSError} {r : Reply c}
    (ha : w.answer pid c fault = some (r, w')) (hc : c.commits r = true) :
    ∃ t, c = .replace t ∧ w'.fs.store = some t ∧
      ∀ d : Disk, (d.after w'.fs c r).store = d.store.put (some t) ∧
        (d.after w'.fs c r).synced = d.synced := by
  cases c with
  | replace t =>
    cases fault with
    | some e =>
      cases ha
      cases hc
    | none =>
      change some ((w.fs.perform (.replace t)).1, { w with fs := (w.fs.perform (.replace t)).2 }) =
        some (r, w') at ha
      by_cases ht : t ∈ w.fs.temporaries
      · rw [perform_replace ht] at ha
        cases ha
        exact ⟨t, rfl, rfl, fun _ ↦ ⟨rfl, rfl⟩⟩
      · have hfail : w.fs.perform (.replace t) = (.error .notFound, w.fs) := dif_neg ht
        rw [hfail] at ha
        cases ha
        cases hc
  | _ => simp [Call.commits] at hc

/-- What the operation that makes the call has put on the medium. -/
theorem Sync.Holds.next {s : Sync} {w : World} {procs : List Process} {r : Reply c}
    (h : s.Holds m pid op) (ha : syncing.allowed s c)
    (hlength : m.writers.length = m.world.commits.length)
    (hsame : w.commits = m.world.commits)
    (hholder : c ≠ .lock → w.holder = some pid → m.world.holder = some pid) :
    (syncing.next s c r).Holds
      { world :=
          { w with
            processes := procs
            commits := if c.commits r then w.commits ++ [op] else w.commits }
        disk := m.disk.after w.fs c r
        writers := if c.commits r then m.writers ++ [pid] else m.writers } pid op := by
  have hmono {d : Disk} (hsynced : ∀ t ∈ m.disk.synced, t ∈ d.synced)
      (hstore : m.disk.store.settled m.world.commits.length ≤
        d.store.settled m.world.commits.length) (hl : c ≠ .lock) :
      s.Holds { world := { w with processes := procs }, disk := d, writers := m.writers } pid
        op := by
    refine h.mono (hholder hl) (fun _ ↦ hsynced) ?_ (List.prefix_refl _) ?_
    · exact hsame ▸ List.prefix_refl _
    · change _ ≤ d.store.settled w.commits.length
      rw [hsame]
      exact hstore
  cases c with
  | lock =>
    cases ha
    trivial
  | mkstemp =>
    cases ha
    cases r <;> trivial
  | write t payload =>
    cases ha
    trivial
  | flush t =>
    cases ha
    cases r <;> trivial
  | replace t =>
    cases ha
    cases r with
    | ok a =>
      refine ⟨m.writers.length, List.getElem?_concat_length, ?_⟩
      change (w.commits ++ [op])[m.writers.length]? = _
      rw [hsame, hlength, List.getElem?_concat_length]
    | error e => exact hmono (fun _ ht ↦ ht) (Nat.le_refl _) nofun
  | fsync descriptor =>
    cases r with
    | error e => 
      cases descriptor <;> exact hmono (fun _ ht ↦ ht) (Nat.le_refl _) nofun
    | ok a =>
      cases descriptor with
      | temporary t =>
        by_cases hs : s = .flushed t
        · have hnext : syncing.next s (.fsync (.temporary t)) (.ok a) = .clean t := if_pos hs
          rw [hnext]
          exact fun _ ↦ List.mem_cons_self
        · have hnext : syncing.next s (.fsync (.temporary t)) (.ok a) = s := if_neg hs
          rw [hnext]
          exact hmono (fun _ ht ↦ List.mem_cons_of_mem _ ht) (Nat.le_refl _) nofun
      | directory =>
        by_cases hs : s = .replaced
        · have hnext : syncing.next s (.fsync .directory) (.ok a) = .durable := if_pos hs
          rw [hnext]
          subst hs
          obtain ⟨j, hw, hc⟩ := h
          refine ⟨j, ?_, hw, ?_⟩
          · change j < w.commits.length
            rw [hsame]
            exact (List.getElem?_eq_some_iff.mp hc).1
          · change w.commits[j]? = _
            rw [hsame]
            exact hc
        · have hnext : syncing.next s (.fsync .directory) (.ok a) = s := if_neg hs
          rw [hnext]
          exact hmono (fun _ ht ↦ ht) (Writeback.settled_le _ _) nofun
      | _ => exact hmono (fun _ ht ↦ ht) (Nat.le_refl _) nofun
  | _ => exact hmono (fun _ ht ↦ ht) (Nat.le_refl _) nofun

/-- The names after a call of an operation. -/
theorem Durable.names_call {k : Reply c → Code Failure (Option (List Char))}
    {fault : Option OSError} {r : Reply c} {w : World} (h : Durable codec base m)
    (procs : List Process)
    (hp : m.world.processes[pid]? = some (.operation op (.call c k)))
    (ha : m.world.answer pid c fault = some (r, w)) (hsame : w.commits = m.world.commits)
    (hsettled : ∀ i content, m.world.fs.Settled i content → w.fs.Settled i content)
    (hkept : ∀ i content, m.world.fs.Settled i content → i ∈ m.disk.synced →
      i ∈ (m.disk.after w.fs c r).synced)
    (hclean : ∀ t, c = .replace t → t ∈ m.disk.synced)
    (hstore : replay codec base (if c.commits r then w.commits ++ [op] else w.commits) =
      .ok w.fs.bytes) :
    (m.disk.after w.fs c r).store.Follows
      (Named codec base
        { w with
          processes := procs
          commits := if c.commits r then w.commits ++ [op] else w.commits }
        (m.disk.after w.fs c r))
      (if c.commits r then w.commits ++ [op] else w.commits).length := by
  set commits := if c.commits r then w.commits ++ [op] else w.commits with hcommits
  have hprefix : m.world.commits <+: commits := hsame ▸ prefix_noted w.commits op (c.commits r)
  have hold : m.disk.store.Follows
      (Named codec base { w with processes := procs, commits } (m.disk.after w.fs c r))
      m.world.commits.length :=
    h.names.mono fun k hk _ _ hnamed ↦ hnamed.mono hk hsettled hkept hprefix
  cases hc : c.commits r with
  | false =>
    have hlength : commits.length = m.world.commits.length := by
      rw [hcommits, hc, ← hsame]
      rfl
    rw [hlength]
    rcases store_after m.disk w.fs hc with hs | hs
    · exact hs ▸ hold
    · exact hs ▸ hold.sync
  | true =>
    have hlength : commits.length = m.world.commits.length + 1 := by
      rw [hcommits, hc, if_pos rfl, hsame, List.length_append, List.length_singleton]
    obtain ⟨t, rfl, hname, hdisk⟩ := store_of_commit ha hc
    obtain ⟨hput, hsynced⟩ := hdisk m.disk
    obtain ⟨content, hs, hbytes⟩ := FileSystem.settled_store hname
    rw [hlength, hput]
    refine hold.put ⟨hsynced ▸ hclean t rfl, content, hs, ?_⟩
    rw [← hlength, List.take_length, ← hbytes]
    exact hstore

/-- No call takes back what a sync made permanent. -/
theorem Durable.settled_call {fault : Option OSError} {r : Reply c} {w : World}
    (h : Durable codec base m) (ha : m.world.answer pid c fault = some (r, w))
    (hsame : w.commits = m.world.commits) :
    m.disk.store.settled m.world.commits.length ≤
      (m.disk.after w.fs c r).store.settled
        (if c.commits r then w.commits ++ [op] else w.commits).length := by
  rw [hsame]
  cases hc : c.commits r with
  | false =>
    rcases store_after m.disk w.fs hc with hstore | hstore
    · rw [hstore]
      exact Nat.le_refl _
    · rw [hstore]
      exact Writeback.settled_le _ _
  | true =>
    obtain ⟨t, rfl, -, hdisk⟩ := store_of_commit ha hc
    rw [(hdisk m.disk).1, if_pos rfl, List.length_append, List.length_singleton,
      Writeback.settled_put h.names.bound]

/-- A call of an administrative operation. -/
theorem Durable.operationCall {k : Reply c → Code Failure (Option (List Char))}
    {fault : Option OSError} {r : Reply c} {w : World} (h : Durable codec base m)
    (hp : m.world.processes[pid]? = some (.operation op (.call c k)))
    (ha : m.world.answer pid c fault = some (r, w)) :
    Durable codec base
      { world :=
          { w with
            processes := w.processes.set pid (.operation op (k r))
            commits := if c.commits r then w.commits ++ [op] else w.commits }
        disk := m.disk.after w.fs c r
        writers := if c.commits r then m.writers ++ [pid] else m.writers } := by
  obtain ⟨md, ⟨hallowed, -⟩, hholder, hholds⟩ := h.coherent.operation pid op _ hp
  have ht := World.turn_answer hallowed hholder hholds ha
  obtain ⟨s, ⟨hsync, hkeeps⟩, hs⟩ := h.operation pid op _ hp
  have hcoherent := h.coherent.operationCall hp ha
  have hkept : ∀ i content, m.world.fs.Settled i content → i ∈ m.disk.synced →
      i ∈ (m.disk.after w.fs c r).synced :=
    fun i content hsettled hi ↦ synced_after hallowed hholds hsettled hi r
  have hclean : ∀ t, c = .replace t → t ∈ m.disk.synced := by
    rintro t rfl
    have hs' : s = .clean t := hsync
    subst hs'
    exact hs (hholder.mpr hallowed.1)
  have hnames := h.names_call (w.processes.set pid (.operation op (k r))) hp ha ht.commits
    ht.settled hkept hclean hcoherent.store
  refine ⟨hcoherent, ?_, hnames, ?_⟩
  · change (if c.commits r then m.writers ++ [pid] else m.writers).length =
      (if c.commits r then w.commits ++ [op] else w.commits).length
    rw [ht.commits]
    split
    · rw [List.length_append, List.length_append, h.writers]
      rfl
    · exact h.writers
  · intro q op' rest hq
    change (w.processes.set pid (.operation op (k r)))[q]? = _ at hq
    rw [ht.processes] at hq
    rcases getElem?_set_cases hq with ⟨rfl, heq⟩ | ⟨hne, hq⟩
    · cases heq
      refine ⟨_, hkeeps r, hs.next hsync h.writers ht.commits ?_⟩
      intro hl hafter
      refine hholder.mpr ?_
      by_cases hu : c = .unlock
      · subst hu
        cases r with
        | ok a => cases ht.holder.mp hafter
        | error e => exact ht.holder.mp hafter
      · rw [← World.next_locked hl hu r]
        exact ht.holder.mp hafter
    · -- another process, whose temporary file this call does not touch
      obtain ⟨s', hkeeps', hs'⟩ := h.operation q op' rest hq
      refine ⟨s', hkeeps', hs'.mono (ht.others q hne).mp ?_ ?_ ?_ ?_⟩
      · intro hafter t hmem
        have hfree : md.locked = false := by
          refine Bool.eq_false_iff.mpr fun hm ↦ hne ?_
          exact Option.some.inj (((ht.others q hne).mp hafter).symm.trans (hholder.mpr hm))
        exact synced_unlocked hallowed hfree r hmem
      · exact ht.commits ▸ prefix_noted w.commits op (c.commits r)
      · exact prefix_noted m.writers pid (c.commits r)
      · exact h.settled_call ha ht.commits

/-- The processes changed and the medium did not. -/
theorem Durable.processes {w : World} (h : Durable codec base m) (hw : Coherent codec base w)
    (hfs : w.fs = m.world.fs) (hcommits : w.commits = m.world.commits)
    (hholder : ∀ pid, w.holder = some pid → m.world.holder = some pid)
    (hnew : ∀ (pid : Nat) op rest, w.processes[pid]? = some (.operation op rest) →
      m.world.processes[pid]? = some (.operation op rest) ∨ rest = op.code codec) :
    Durable codec base { m with world := w } where
  coherent := hw
  writers := h.writers.trans (congrArg List.length hcommits).symm
  names := by
    change m.disk.store.Follows (Named codec base w m.disk) w.commits.length
    rw [hcommits]
    refine h.names.mono fun k hk _ _ hnamed ↦ hnamed.mono hk ?_ (fun _ _ _ hi ↦ hi) ?_
    · exact fun i content hs ↦ hfs ▸ hs
    · exact hcommits ▸ List.prefix_refl _
  operation pid op rest hp := by
    rcases hnew pid op rest hp with hp | rfl
    · obtain ⟨s, hkeeps, hs⟩ := h.operation pid op rest hp
      refine ⟨s, hkeeps, hs.mono (hholder pid) (fun _ _ ht ↦ ht) ?_ (List.prefix_refl _) ?_⟩
      · exact hcommits ▸ List.prefix_refl _
      · change _ ≤ m.disk.store.settled w.commits.length
        rw [hcommits]
    · exact ⟨.idle, syncs_code codec op, trivial⟩

/-- A load leaves the medium alone. -/
theorem note_load {md : LoadMode} (ha : loading.allowed md c) (w : World) (r : Reply c) :
    m.note w pid (some ⟨c, r⟩) = { m with world := w } := by
  cases c with
  | openStore => rfl
  | read i => rfl
  | close d => rfl
  | _ => exact ha.elim

/-- A call of a server. -/
theorem Durable.serverCall {requireNonempty : Bool} {k : Reply c → Code Failure (List ApiKeyRecord)}
    {seen : Option (Option Bytes)} {fault : Option OSError} {r : Reply c} {w : World}
    (h : Durable codec base m)
    (hp : m.world.processes[pid]? = some (.server requireNonempty (.call c k) seen))
    (ha : m.world.answer pid c fault = some (r, w)) :
    Durable codec base
      (m.note { w with
        processes := w.processes.set pid
          (.server requireNonempty (k r) (if fault.isNone then c.observed seen r else seen)) }
        pid (some ⟨c, r⟩)) := by
  obtain ⟨md, hserved⟩ := h.coherent.server pid _ _ _ hp
  have hload : loading.allowed md c := hserved.keeps.1
  have hcoherent := h.coherent.serverCall hp ha
  obtain ⟨rfl, -⟩ := World.answer_server hload ha
  rw [note_load hload]
  refine h.processes hcoherent rfl rfl (fun _ hholder ↦ hholder) ?_
  intro q op rest hq
  rcases getElem?_set_cases hq with ⟨-, heq⟩ | ⟨-, hq⟩
  · cases heq
  · exact .inl hq

theorem Durable.advance {e : Event} (h : Durable codec base m)
    (hm : m.advance codec e = some m') : Durable codec base m' := by
  cases e with
  | spawn op =>
    cases hm
    refine h.processes (h.coherent.step (e := .spawn op) rfl) rfl rfl (fun _ hq ↦ hq) ?_
    intro q op' rest hq
    rcases getElem?_snoc_cases hq with hq | ⟨-, heq⟩
    · exact .inl hq
    · cases heq
      exact .inr rfl
  | serve requireNonempty =>
    cases hm
    refine h.processes (h.coherent.step (e := .serve requireNonempty) rfl) rfl rfl
      (fun _ hq ↦ hq) ?_
    intro q op rest hq
    rcases getElem?_snoc_cases hq with hq | ⟨-, heq⟩
    · exact .inl hq
    · cases heq
  | kill pid =>
    cases hm
    refine h.processes (h.coherent.kill pid) rfl rfl ?_ ?_
    · intro q hq
      change (if m.world.holder = some pid then none else m.world.holder) = some q at hq
      split at hq
      · cases hq
      · exact hq
    · intro q op rest hq
      rcases getElem?_set_cases hq with ⟨-, heq⟩ | ⟨-, hq⟩
      · cases heq
      · exact .inl hq
  | call pid fault =>
    obtain ⟨w, hw, rfl⟩ := Option.map_eq_some_iff.mp hm
    obtain ⟨p, hp, hcall⟩ := Option.bind_eq_some_iff.mp hw
    unfold World.call at hcall
    split at hcall
    · next op c k =>
      obtain ⟨⟨r, w₁⟩, ha, rfl⟩ := Option.map_eq_some_iff.mp hcall
      have hexchange : m.world.exchange pid fault = some ⟨c, r⟩ := by
        simp only [World.exchange, hp, ha, Option.map_some]
      rw [hexchange]
      exact h.operationCall hp ha
    · next requireNonempty c k seen =>
      obtain ⟨⟨r, w₁⟩, ha, rfl⟩ := Option.map_eq_some_iff.mp hcall
      have hexchange : m.world.exchange pid fault = some ⟨c, r⟩ := by
        simp only [World.exchange, hp, ha, Option.map_some]
      rw [hexchange]
      exact h.serverCall hp ha
    · cases hcall

theorem Durable.step {e : Machine.Event} (h : Durable codec base m) (he : m.Sees e)
    (hm : m.step codec e = some m') : Durable codec base m' := by
  cases e with
  | process e => exact h.advance hm
  | unseen pid =>
    rcases Machine.step_unseen codec pid he with hstep | hstep
    · rw [hstep] at hm
      cases hm
    · exact h.advance (hstep.symm.trans hm)

end Durable

/-- Whenever the power goes, in any interleaving and after any failures and kills, the store that is
found is the one some of the replacements made one after another, so it is complete; and an
operation that has returned is among them. The exception is an error by which `Path.exists` misses
a store that is there: the generation then begins with no keys. -/
theorem power_loss_keeps_returned (codec : KeyCodec) (fs : FileSystem)
    {events : List Machine.Event} {m : Machine} {bytes : Option Bytes}
    (h : exec (Machine.step codec) (.start fs) events = some m)
    (hseen : Along (Machine.step codec) Machine.Sees (.start fs) events)
    (hlost : m.disk.Recovers m.world.fs bytes) :
    ∃ k ≤ m.world.commits.length,
      replay codec fs.bytes (m.world.commits.take k) = .ok bytes ∧
      (Complete codec fs.bytes → Complete codec bytes) ∧
      ∀ (pid : Nat) op token, m.world.processes[pid]? = some (.operation op (.ret token)) →
        ∃ j < k, m.writers[j]? = some pid ∧ m.world.commits[j]? = some op := by
  have hd : Durable codec fs.bytes m :=
    exec_preserves_along (fun _ _ _ he hd hs ↦ hd.step he hs) h hseen (durable_start codec fs)
  have hfound : ∃ k, m.disk.store.settled m.world.commits.length ≤ k ∧
      k ≤ m.world.commits.length ∧ replay codec fs.bytes (m.world.commits.take k) = .ok bytes := by
    cases hlost with
    | missing hname => exact hd.names.survivor hname
    | whole hname hsynced hfile =>
      obtain ⟨k, hsettled, hk, -, content, hs, hreplay⟩ := hd.names.survivor hname
      refine ⟨k, hsettled, hk, hreplay.trans ?_⟩
      obtain ⟨-, file, hfile', rfl⟩ := hs
      cases hfile'.symm.trans hfile
      rfl
    | torn hname hsynced raw =>
      -- a name that survives is that of a synced file
      obtain ⟨k, -, -, hmem, -⟩ := hd.names.survivor hname
      exact absurd hmem hsynced
  obtain ⟨k, hsettled, hk, hreplay⟩ := hfound
  refine ⟨k, hk, hreplay, fun hbase ↦ replay_complete hbase hreplay, ?_⟩
  intro pid op token hp
  obtain ⟨s, hs, hholds⟩ := hd.operation pid op _ hp
  have hdurable : s = .durable := hs
  subst hdurable
  obtain ⟨j, hj, hw, hc⟩ := hholds
  exact ⟨j, Nat.lt_of_lt_of_le hj hsettled, hw, hc⟩

/-- What an administrative operation has returned. -/
def Process.returned : Process → Option (Operation × Option (List Char))
  | .operation op (.ret token) => some (op, token)
  | _ => none

theorem Process.of_returned {p : Process} {op : Operation} {token : Option (List Char)}
    (h : p.returned = some (op, token)) : p = .operation op (.ret token) := by
  unfold Process.returned at h
  split at h
  · cases h
    rfl
  · cases h

/-- A generation finds no store and returns, and the power goes when a revocation has replaced the
store and has not yet synced the directory. -/
def interrupted : List Machine.Event :=
  [.process (.spawn (.generate "a" ['x'])), .process (.spawn (.revoke "a"))] ++
    (turns 0 4).map .process ++ [.unseen 0] ++ (turns 0 15 ++ turns 1 16).map .process

/-- The revoked key may come back. -/
theorem power_loss_keeps_returned_interrupted :
    ∃ m, exec (Machine.step plainCodec) (.start {}) interrupted = some m ∧
      Along (Machine.step plainCodec) Machine.Sees (.start {}) interrupted ∧
      m.world.commits = [.generate "a" ['x'], .revoke "a"] ∧
      m.disk.Recovers m.world.fs (some (plainCodec.encode [recordOf plainCodec "a" ['x']])) ∧
      ∃ k ≤ m.world.commits.length,
        replay plainCodec ({} : FileSystem).bytes (m.world.commits.take k) =
          .ok (some (plainCodec.encode [recordOf plainCodec "a" ['x']])) ∧
        ∃ j < k, m.writers[j]? = some 0 ∧ m.world.commits[j]? = some (.generate "a" ['x']) := by
  have hseen : Along (Machine.step plainCodec) Machine.Sees (.start {}) interrupted := by
    decide +kernel
  have hfacts : (exec (Machine.step plainCodec) (.start {}) interrupted).map
      (fun m ↦ decide (m.world.commits = [.generate "a" ['x'], .revoke "a"] ∧
        some 0 ∈ m.disk.store.survivors ∧ 0 ∈ m.disk.synced ∧
        m.world.fs.inodes[0]?.map Inode.content =
          some (plainCodec.encode [recordOf plainCodec "a" ['x']]) ∧
        m.world.processes[0]?.bind Process.returned =
          some (.generate "a" ['x'], some ['a', '.', 'x']))) = some true := by
    decide +kernel
  obtain ⟨m, hrun, hm⟩ := Option.map_eq_some_iff.mp hfacts
  obtain ⟨hcommits, hname, hsynced, hcontent, hreturned⟩ := of_decide_eq_true hm
  obtain ⟨file, hfile, hbytes⟩ := Option.map_eq_some_iff.mp hcontent
  obtain ⟨p, hp, hret⟩ := Option.bind_eq_some_iff.mp hreturned
  rw [Process.of_returned hret] at hp
  have hlost : m.disk.Recovers m.world.fs
      (some (plainCodec.encode [recordOf plainCodec "a" ['x']])) :=
    hbytes ▸ .whole hname hsynced hfile
  obtain ⟨k, hk, hreplay, -, hall⟩ := power_loss_keeps_returned plainCodec {} hrun hseen hlost
  exact ⟨m, hrun, hseen, hcommits, hlost, k, hk, hreplay, hall 0 _ _ hp⟩

/-- A generation that misses the store drops the key of one that had returned. -/
example :
    (exec (Machine.step plainCodec) (.start {})
      ([.process (.spawn (.generate "a" ['x'])), .process (.spawn (.generate "b" ['y']))] ++
        (turns 0 20 ++ turns 1 4).map .process ++ [.unseen 1] ++
        (turns 1 15).map .process)).map (fun m ↦ m.world.fs.bytes) =
      some (some (plainCodec.encode [recordOf plainCodec "b" ['y']])) := by
  decide +kernel

end InferenceServer.Security
