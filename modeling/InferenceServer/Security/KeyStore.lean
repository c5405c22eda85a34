import InferenceServer.Base.Program
import InferenceServer.Security.KeyFile

/-!
# The key store's operations

Library `Security`. `python/cuda_db/security/keys.py:55–71,112–200` as programs over single
filesystem calls. A file is an inode with its contents and what its writer has buffered; the
store path names an inode, and `os.replace` lets it name another one.
-/

namespace InferenceServer.Security

open InferenceServer.Base InferenceServer.Server

/-! ### Files -/

/-- `FileNotFoundError`, or another `OSError`. -/
inductive OSError where
  | notFound
  | other
  deriving DecidableEq, Repr

/-- What an open descriptor stands for. -/
inductive Descriptor where
  | lock
  | store
  | temporary (i : Nat)
  | directory
  deriving DecidableEq, Repr

/-- The filesystem calls of the key store. -/
inductive Call where
  /-- `path.parent.mkdir(parents=True, exist_ok=True)` -/
  | mkdir
  /-- `os.open(lock_path, flags, 0o600)` -/
  | openLock
  /-- `fcntl.flock(descriptor, fcntl.LOCK_EX)` -/
  | lock
  /-- `fcntl.flock(descriptor, fcntl.LOCK_UN)` -/
  | unlock
  /-- `store_path.exists()` -/
  | exists
  /-- `open` in `store_path.read_bytes()` -/
  | openStore
  /-- `read` in `store_path.read_bytes()` -/
  | read (i : Nat)
  | mkstemp
  | fdopen (i : Nat)
  | write (i : Nat) (payload : Bytes)
  | flush (i : Nat)
  | fchmod (d : Descriptor)
  | fsync (d : Descriptor)
  | close (d : Descriptor)
  /-- `os.replace(temporary_name, path)` -/
  | replace (i : Nat)
  | chmod
  | openDirectory
  | unlink (i : Nat)
  deriving DecidableEq, Repr

/-- What a call returns. -/
def Call.Answer : Call → Type
  | .exists => Bool
  | .openStore => Nat
  | .read _ => Bytes
  | .mkstemp => Nat
  | _ => Unit

/-- A file: its contents, and what a file object has buffered for it. -/
structure Inode where
  content : Bytes := []
  buffered : Bytes := []
  deriving DecidableEq, Repr

/-- The files. A temporary file is named after its inode; a name has an inode, and no inode has
two names. -/
structure FileSystem where
  inodes : List Inode := []
  temporaries : List Nat := []
  /-- the inode that the store path names -/
  store : Option Nat := none
  temporaries_lt : ∀ t ∈ temporaries, t < inodes.length := by rintro _ ⟨⟩
  store_lt : ∀ i, store = some i → i < inodes.length ∧ i ∉ temporaries := by rintro _ ⟨⟩
  deriving DecidableEq

namespace FileSystem

/-- The bytes at the store path. -/
def bytes (fs : FileSystem) : Option Bytes :=
  fs.store.bind fun i ↦ fs.inodes[i]?.map (·.content)

/-- A change of one file. -/
def modify (fs : FileSystem) (i : Nat) (f : Inode → Inode) : FileSystem where
  inodes := fs.inodes.modify i f
  temporaries := fs.temporaries
  store := fs.store
  temporaries_lt := by simpa using fs.temporaries_lt
  store_lt := by simpa using fs.store_lt

/-- A new empty file with a temporary name. -/
def create (fs : FileSystem) : FileSystem where
  inodes := fs.inodes ++ [{}]
  temporaries := fs.inodes.length :: fs.temporaries
  store := fs.store
  temporaries_lt := by
    intro t ht
    rw [List.length_append, List.length_singleton]
    rcases List.mem_cons.mp ht with rfl | ht
    · exact Nat.lt_succ_self _
    · exact Nat.lt_succ_of_lt (fs.temporaries_lt t ht)
  store_lt := by
    intro i hi
    obtain ⟨hlt, hout⟩ := fs.store_lt i hi
    rw [List.length_append, List.length_singleton, List.mem_cons, not_or]
    exact ⟨Nat.lt_succ_of_lt hlt, Nat.ne_of_lt hlt, hout⟩

/-- The temporary name goes. -/
def remove (fs : FileSystem) (t : Nat) : FileSystem where
  inodes := fs.inodes
  temporaries := fs.temporaries.filter (· ≠ t)
  store := fs.store
  temporaries_lt := fun i hi ↦ fs.temporaries_lt i (List.mem_of_mem_filter hi)
  store_lt := by
    intro i hi
    obtain ⟨hlt, hout⟩ := fs.store_lt i hi
    exact ⟨hlt, fun hmem ↦ hout (List.mem_of_mem_filter hmem)⟩

/-- The store path names the temporary file instead. -/
def install (fs : FileSystem) (t : Nat) (h : t ∈ fs.temporaries) : FileSystem where
  inodes := fs.inodes
  temporaries := fs.temporaries.filter (· ≠ t)
  store := some t
  temporaries_lt := fun i hi ↦ fs.temporaries_lt i (List.mem_of_mem_filter hi)
  store_lt := by
    rintro _ ⟨⟩
    exact ⟨fs.temporaries_lt t h, by simp⟩

/-- What a call that meets no failure does. -/
def perform (fs : FileSystem) : (c : Call) → Except OSError c.Answer × FileSystem
  | .exists => (.ok fs.store.isSome, fs)
  | .openStore =>
    match fs.store with
    | some i => (.ok i, fs)
    | none => (.error .notFound, fs)
  | .read i =>
    match fs.inodes[i]? with
    | some file => (.ok file.content, fs)
    | none => (.error .other, fs)
  | .mkstemp => (.ok fs.inodes.length, fs.create)
  | .write i payload =>
    (.ok (), fs.modify i fun file ↦ { file with buffered := file.buffered ++ payload })
  | .flush i => (.ok (), fs.modify i fun file ↦ { content := file.content ++ file.buffered })
  | .replace i =>
    if h : i ∈ fs.temporaries then (.ok (), fs.install i h) else (.error .notFound, fs)
  | .unlink i => if i ∈ fs.temporaries then (.ok (), fs.remove i) else (.error .notFound, fs)
  | .mkdir => (.ok (), fs)
  | .openLock => (.ok (), fs)
  | .lock => (.ok (), fs)
  | .unlock => (.ok (), fs)
  | .fdopen _ => (.ok (), fs)
  | .fchmod _ => (.ok (), fs)
  | .fsync _ => (.ok (), fs)
  | .close _ => (.ok (), fs)
  | .chmod => (.ok (), fs)
  | .openDirectory => (.ok (), fs)

end FileSystem

/-! ### Programs -/

/-- What an operation raises. -/
inductive Failure where
  | keyFile (message : String)
  | os (e : OSError)
  deriving DecidableEq, Repr

/-- A call's answer, or its failure. -/
abbrev Reply (c : Call) : Type := Except OSError c.Answer

/-- Code of the key store that raises `ε`. -/
abbrev Code (ε α : Type) := Prog Call Reply ε α

/-- A call whose failure `e` raises `f e`. -/
def sysWith {ε : Type} (f : OSError → ε) (c : Call) : Code ε c.Answer :=
  .call c fun
    | .ok a => .ret a
    | .error e => .raise (f e)

/-- A call whose failure passes on. -/
def sys (c : Call) : Code Failure c.Answer := sysWith .os c

/-- A check that raises `KeyFileError`. -/
def check {α : Type} : Checked α → Code Failure α
  | .ok a => .ret a
  | .error message => .raise (.keyFile message)

/-- `Path.read_bytes`. -/
def readBytes : Code Failure Bytes := do
  let i ← sys .openStore
  (sys (.read i)).tryFinally (sys (.close .store))

/-- `load_key_file`, `keys.py:55–71`. -/
def loadKeyFile (codec : KeyCodec) (requireNonempty : Bool) : Code Failure (List ApiKeyRecord) := do
  let raw ← readBytes.tryExcept fun
    | .os _ => .raise (.keyFile "API-key store could not be read")
    | e => .raise e
  check (parseKeyFile codec requireNonempty raw)

/-- The variables that the `finally` block of `_write_key_file` reads. -/
structure WriteLocals where
  descriptor : Option Descriptor := none
  temporaryName : Option Nat := none

/-- The `try` block of `_write_key_file`, `keys.py:118–135`. A failure comes with the variables
as they are then. -/
def writeBody (payload : Bytes) : Code (OSError × WriteLocals) Unit := do
  let t ← sysWith (·, {}) .mkstemp
  let opened : WriteLocals := { descriptor := some (.temporary t), temporaryName := some t }
  sysWith (·, opened) (.fchmod (.temporary t))
  sysWith (·, opened) (.fdopen t)
  let named : WriteLocals := { temporaryName := some t }
  Prog.tryFinally (ε := OSError × WriteLocals)
    (do
      sysWith (·, named) (.write t payload)
      sysWith (·, named) (.flush t)
      sysWith (·, named) (.fsync (.temporary t)))
    (sysWith (·, named) (.close (.temporary t)))
  sysWith (·, named) (.replace t)
  sysWith (·, {}) .chmod
  sysWith (·, {}) .openDirectory
  Prog.tryFinally (sysWith (·, {}) (.fsync .directory)) (sysWith (·, {}) (.close .directory))

/-- `os.close(descriptor)` in the `finally` block. -/
def closeLeft : Option Descriptor → Code Failure Unit
  | some d => sys (.close d)
  | none => .ret ()

/-- `os.unlink(temporary_name)` in the `finally` block. -/
def unlinkLeft : Option Nat → Code Failure Unit
  | some t => (sys (.unlink t)).tryExcept fun
    | .os .notFound => .ret ()
    | e => .raise e
  | none => .ret ()

/-- The `finally` block of `_write_key_file`, `keys.py:138–145`. -/
def cleanUp (l : WriteLocals) : Code Failure Unit := do
  closeLeft l.descriptor
  unlinkLeft l.temporaryName

/-- `_write_key_file`, `keys.py:112–145`. -/
def writeKeyFile (codec : KeyCodec) (records : List ApiKeyRecord) : Code Failure Unit := do
  sys .mkdir
  (writeBody (codec.encode records)).handle (fun _ ↦ cleanUp {}) fun (_, l) ↦
    Prog.tryFinally (.raise (.keyFile "API-key store could not be written")) (cleanUp l)

/-- Taking the lock, `keys.py:157–160`. A failure tells whether the descriptor was open. -/
def takeLock : Code (OSError × Bool) Unit := do
  sysWith (·, false) .openLock
  sysWith (·, true) (.fchmod .lock)
  sysWith (·, true) .lock

/-- `with _store_lock(path): body`, `keys.py:148–169`. -/
def storeLock {α : Type} (body : Code Failure α) : Code Failure α := do
  sys .mkdir
  takeLock.handle .ret fun (_, opened) ↦ do
    Prog.runIf (opened = true) (sys (.close .lock))
    .raise (.keyFile "API-key store could not be locked")
  body.tryFinally do
    sys .unlock
    sys (.close .lock)

/-- The bearer token of a key, `keys.py:184`. -/
def tokenOf (keyId : String) (secret : List Char) : List Char := keyId.toList ++ '.' :: secret

/-- The record of a key, `keys.py:185–186`. -/
def recordOf (codec : KeyCodec) (keyId : String) (secret : List Char) : ApiKeyRecord :=
  ⟨keyId, codec.sha256 (tokenOf keyId secret)⟩

/-- The records after a generation, `keys.py:181–186`. -/
def addKey (codec : KeyCodec) (keyId : String) (secret : List Char)
    (records : List ApiKeyRecord) : Checked (List ApiKeyRecord) :=
  if records.any (·.keyId == keyId) then .error "API-key id already exists"
  else .ok (records ++ [recordOf codec keyId secret])

/-- The records after a revocation, `keys.py:197–199`. -/
def removeKey (keyId : String) (records : List ApiKeyRecord) : Checked (List ApiKeyRecord) :=
  let remaining := records.filter (·.keyId != keyId)
  if remaining.length = records.length then .error "API-key id does not exist" else .ok remaining

/-- The records that `generate_key` starts from, `keys.py:177–180`. -/
def loadPresent (codec : KeyCodec) : Bool → Code Failure (List ApiKeyRecord)
  | true => loadKeyFile codec false
  | false => .ret []

/-- `generate_key`, `keys.py:172–188`, when `secrets.token_urlsafe` yields `secret`. -/
def generateKey (codec : KeyCodec) (keyId : String) (secret : List Char) :
    Code Failure (List Char) := do
  let keyId ← check (validateKeyId (.string keyId))
  storeLock do
    let records ← loadPresent codec (← sys .exists)
    let records ← check (addKey codec keyId secret records)
    writeKeyFile codec records
    .ret (tokenOf keyId secret)

/-- `revoke_key`, `keys.py:191–200`. -/
def revokeKey (codec : KeyCodec) (keyId : String) : Code Failure Unit := do
  let keyId ← check (validateKeyId (.string keyId))
  storeLock do
    let records ← loadKeyFile codec false
    let records ← check (removeKey keyId records)
    writeKeyFile codec records

/-- One call of the administration. -/
inductive Operation where
  | generate (keyId : String) (secret : List Char)
  | revoke (keyId : String)
  deriving DecidableEq

namespace Operation

/-- Its code; a generation returns the token. -/
def code (codec : KeyCodec) : Operation → Code Failure (Option (List Char))
  | .generate keyId secret => some <$> generateKey codec keyId secret
  | .revoke keyId => (fun _ ↦ none) <$> revokeKey codec keyId

/-- The records an operation reads from a store with these bytes. -/
def recordsIn (codec : KeyCodec) : Operation → Option Bytes → Checked (List ApiKeyRecord)
  | .generate _ _, none => .ok []
  | .revoke _, none => .error "API-key store could not be read"
  | _, some raw => parseKeyFile codec false raw

/-- The key it is about. -/
def keyId : Operation → String
  | .generate keyId _ => keyId
  | .revoke keyId => keyId

/-- What it returns. -/
def token : Operation → Option (List Char)
  | .generate keyId secret => some (tokenOf keyId secret)
  | .revoke _ => none

/-- What it makes of the records. -/
def edit (codec : KeyCodec) : Operation → List ApiKeyRecord → Checked (List ApiKeyRecord)
  | .generate keyId secret, records => addKey codec keyId secret records
  | .revoke keyId, records => removeKey keyId records

/-- The records it leaves, as a function of the store alone. -/
def apply (codec : KeyCodec) (op : Operation) (base : Option Bytes) :
    Checked (List ApiKeyRecord) :=
  (validateKeyId (.string op.keyId)).bind fun _ ↦
    (op.recordsIn codec base).bind (op.edit codec)

end Operation

end InferenceServer.Security
