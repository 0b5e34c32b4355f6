import MiRelay.Core.Durable
import MiRelay.Core.Table
import MiRelay.Storage.Streams

/-!
# The media library

`receive`, `cleanup_staging` and `quarantine_content_object` on the entries of a
library directory, with the staging directory they share. Every call of the file
system may fail, as the answers of the outside say; an object may be put into the
library by another process just before `receive` puts it there.
-/

namespace MiRelay

/-- `Path::join` of a component. -/
def joinPath (base component : String) : String :=
  if component.toList.head? = some '/' then component
  else if base.toList = [] ∨ base.toList.getLast? = some '/' then base ++ component
  else base ++ "/" ++ component

namespace Storage

/-- `STAGING_DIR_NAME`. -/
def stagingDirName : String := ".mirelay-staging-v1"

/-- `STAGING_OWNER_FILE`. -/
def stagingOwnerFile : String := ".owner"

/-- `STAGING_OWNER_CONTENT`. -/
def stagingOwnerContent : Bytes := ascii "MiRelay staging directory v1\n"

/-- `STAGING_OWNER_TEMP_PREFIX`. -/
def stagingOwnerTempPrefix : String := ".mirelay-owner-"

/-- `&sha256[..2]`. -/
def shardOf (sha256 : String) : String := String.ofList (sha256.toList.take 2)

/-- The file name of an object. -/
def objectName (sha256 extension : String) : String := sha256 ++ "." ++ extension

/-- The path of an object in the library. -/
def objectPath (libraryDir shard name : String) : String := joinPath (joinPath libraryDir shard) name

/-- An entry of the staging directory or of a shard. -/
inductive Entry
  | file (content : Bytes)
  /-- A symbolic link, with what is read through it if its target is there. -/
  | link (target : Option (Result Bytes))
  | directory
  | other

/-- An entry of the library directory. -/
inductive Node
  | directory (entries : Files String Entry)
  | other

/-- What the outside does at a call. -/
structure IoAnswer where
  done : Result Unit
  /-- The random part of a new name. -/
  name : String
  /-- What another process puts where an object is about to be put. -/
  appears : Option Entry

/-- A library directory with the answers that calls will receive. -/
structure LibraryState where
  nodes : Files String Node
  answers : Nat → IoAnswer

/-- What a call changes. -/
inductive LibraryStep
  /-- An answer was used up. -/
  | answered
  | makeDirectory (name : String)
  | create (directory name : String)
  | append (directory name : String) (bytes : Bytes)
  | rename (directory name directory' name' : String)
  | remove (directory name : String)
  /-- Another process has made an entry. -/
  | appear (directory name : String) (entry : Entry)

namespace LibraryState

variable (s : LibraryState)

/-- The entries of a directory. -/
def entries (directory : String) : Files String Entry :=
  match s.nodes.lookup directory with
  | some (.directory entries) => entries
  | _ => ∅

def entry (directory name : String) : Option Entry := (s.entries directory).lookup name

/-- Replace the entries of a directory. -/
def setEntries (directory : String) (entries : Files String Entry) : LibraryState :=
  { s with nodes := s.nodes.insert directory (.directory entries) }

/-- What a step does. -/
def apply : LibraryStep → LibraryState
  | .answered => { s with answers := fun n => s.answers (n + 1) }
  | .makeDirectory name => s.setEntries name ∅
  | .create directory name => s.setEntries directory ((s.entries directory).insert name (.file []))
  | .append directory name bytes =>
    match s.entry directory name with
    | some (.file content) =>
      s.setEntries directory ((s.entries directory).insert name (.file (content ++ bytes)))
    | _ => s
  | .rename directory name directory' name' =>
    match s.entry directory name with
    | some moved =>
      let s := s.setEntries directory ((s.entries directory).erase name)
      s.setEntries directory' ((s.entries directory').insert name' moved)
    | none => s
  | .remove directory name => s.setEntries directory ((s.entries directory).erase name)
  | .appear directory name entry =>
    s.setEntries directory ((s.entries directory).insert name entry)

end LibraryState

/-- A procedure on a library directory. -/
abbrev LibraryProc : Type → Type := Proc LibraryState.apply Error

open Proc

/-- Use up the next answer. -/
def ask : LibraryProc IoAnswer := do
  let s ← get
  emit .answered
  return s.answers 0

/-- A call that changes nothing, such as `sync_directory`. -/
def call : LibraryProc Unit := do ofExcept (← ask).done

/-- A call that changes something. -/
def act (step : LibraryStep) : LibraryProc Unit := do
  call
  emit step

/-- `ensure_child_directory`. -/
def ensureChildDirectory (name : String) : LibraryProc Unit := do
  call
  match (← get).nodes.lookup name with
  | some (.directory _) => pure ()
  | some .other => fail (.message s!"internal path {name} exists but is not a real directory")
  | none => do
    act (.makeDirectory name)
    call
    call

/-- A temporary file in the staging directory during `work`; its `Drop` removes it unless it was
moved, and ignores whether that fails. -/
def withTemporary {α : Type} (temporary : String) (work : LibraryProc α) : LibraryProc α := do
  let occupied := ((← get).entry stagingDirName temporary).isSome
  ofExcept (ensure (!occupied) "too many temporary files exist")
  act (.create stagingDirName temporary)
  let result ← attempt work
  let left := ((← get).entry stagingDirName temporary).isSome
  let dropped ← attempt call
  if left ∧ dropped.isOk then emit (.remove stagingDirName temporary) else pure ()
  ofExcept result

/-- The reading of a file of at most `limit` bytes: `read_limited`. -/
def readLimited (directory name : String) (limit : Nat) : LibraryProc Bytes := do
  call
  match (← get).entry directory name with
  | some (.file content) => do
    ofExcept (ensure (content.length ≤ limit) s!"{name} exceeds {limit} bytes")
    return content
  | some (.link (some target)) => do
    let content ← ofExcept target
    ofExcept (ensure (content.length ≤ limit) s!"{name} exceeds {limit} bytes")
    return content
  | _ => fail (.message s!"failed to read {name}")

/-- What another process has put there meanwhile. -/
def raced (directory name : String) : LibraryProc Unit := do
  let appears := (← ask).appears
  match (← get).entry directory name, appears with
  | none, some entry => emit (.appear directory name entry)
  | _, _ => pure ()

/-- `create_staging_owner`. -/
def createStagingOwner : LibraryProc Unit := do
  let temporary := stagingOwnerTempPrefix ++ (← ask).name ++ ".tmp"
  withTemporary temporary do
    act (.append stagingDirName temporary stagingOwnerContent)
    call
    raced stagingDirName stagingOwnerFile
    match (← get).entry stagingDirName stagingOwnerFile with
    | some _ =>
      let contents ← readLimited stagingDirName stagingOwnerFile 128
      ofExcept (ensure (contents == stagingOwnerContent)
        "concurrent staging ownership marker has unexpected contents")
    | none =>
      act (.rename stagingDirName temporary stagingDirName stagingOwnerFile)
      call

/-- The leftovers of `create_staging_owner`. -/
def isOwnerTemp (name : String) : Bool :=
  stagingOwnerTempPrefix.toList.isPrefixOf name.toList && ".tmp".toList.isSuffixOf name.toList

/-- A regular file or a symbolic link. -/
def Entry.removable : Entry → Bool
  | .file _ | .link _ => true
  | _ => false

/-- The staging directory has no marker: it may hold nothing but temporary markers. -/
def removeOwnerTemps : List String → LibraryProc Unit
  | [] => pure ()
  | name :: rest => do
    call
    if isOwnerTemp name && ((← get).entry stagingDirName name).any (·.removable) then do
      act (.remove stagingDirName name)
      removeOwnerTemps rest
    else fail (.message "refusing to claim non-empty staging directory")

/-- `ensure_staging_directory`. -/
def ensureStagingDirectory : LibraryProc Unit := do
  ensureChildDirectory stagingDirName
  call
  match (← get).entry stagingDirName stagingOwnerFile with
  | some (.file _) => do
    let contents ← readLimited stagingDirName stagingOwnerFile 128
    ofExcept (ensure (contents == stagingOwnerContent)
      "staging directory is not owned by this MiRelay format")
  | some _ => fail (.message "staging ownership marker is not a regular file")
  | none => do
    call
    removeOwnerTemps ((← get).entries stagingDirName).keys
    call
    createStagingOwner

/-- A name that `cleanup_staging` recognizes. -/
def isOwnedTemporary (name : String) : Bool :=
  "mirelay-".toList.isPrefixOf name.toList && ".part".toList.isSuffixOf name.toList

/-- The scan of `cleanup_staging`. -/
def removeStale : List String → LibraryProc Nat
  | [] => return 0
  | name :: rest => do
    call
    if isOwnedTemporary name && ((← get).entry stagingDirName name).any (·.removable) then do
      act (.remove stagingDirName name)
      return (← removeStale rest) + 1
    else removeStale rest

/-- `cleanup_staging`. -/
def cleanupStaging : LibraryProc Nat := do
  call
  ensureStagingDirectory
  call
  let removed ← removeStale ((← get).entries stagingDirName).keys
  if 0 < removed then call else pure ()
  return removed

/-- `content_path`. -/
def contentPath (libraryDir sha256 mediaType : String) : Result String := do
  validateSha256 sha256
  match extensionForMediaType mediaType with
  | some extension => .ok (objectPath libraryDir (shardOf sha256) (objectName sha256 extension))
  | none => .error (.message s!"unsupported media type {mediaType.quote}")

/-- `quarantine_content_object`, with the path it moves the object from. -/
def quarantineContentObject (libraryDir sha256 mediaType : String) : LibraryProc (String × Bool) := do
  let path ← ofExcept (contentPath libraryDir sha256 mediaType)
  let shard := shardOf sha256
  let name := objectName sha256 ((extensionForMediaType mediaType).getD "")
  call
  match (← get).nodes.lookup shard with
  | some .other => fail (.message s!"failed to inspect suspect object {path}")
  | _ =>
    match (← get).entry shard name with
    | none => return (path, false)
    | some found => do
      ofExcept (ensure found.removable s!"suspect object {path} is not a file")
      ensureStagingDirectory
      let quarantined := "mirelay-repair-" ++ (← ask).name ++ ".part"
      act (.rename shard name stagingDirName quarantined)
      call
      call
      return (path, true)

section Receive

variable {sha256 : Bytes → String} (hasher : Hasher sha256)

/-- The loop of `copy_and_inspect` with a temporary file as the writer. -/
def copyInto (temporary : String) (maxFileSize : Nat) (expectedSize : Option Nat) :
    Copying hasher → List ReadStep → LibraryProc (Copying hasher)
  | c, [] => return c
  | c, step :: rest => do
    let next ← ofExcept (c.copy maxFileSize expectedSize [step])
    match step.read with
    | .ok [] => return next
    | .ok bytes =>
      emit (.append stagingDirName temporary bytes)
      copyInto temporary maxFileSize expectedSize next rest
    | .error e => fail e

variable {hasher} in
/-- What `copy_and_inspect` returns after its loop. -/
def finishCopy (expectedSize : Option Nat) (c : Copying hasher) : Result FileInspection := do
  (match expectedSize with
    | some expected =>
      ensure (c.size == expected) s!"media size mismatch: expected {expected} bytes, got {c.size}"
    | none => .ok ())
  ensure (c.size ≠ 0) "media file is empty"
  let (mediaType, extension) := detectMediaType c.header c.probe.isPlainText
  return ⟨c.size, hasher.finalize c.digest, mediaType, extension⟩

/-- `Path::exists`. -/
def Entry.exists : Entry → Bool
  | .link none => false
  | _ => true

/-- `inspect_file` of an object. -/
def inspectObject (sha256 : Bytes → String) (maxFileSize : Nat) (shard name : String) :
    LibraryProc FileInspection := do
  call
  match (← get).entry shard name with
  | some (.file content) => ofExcept (inspectFile sha256 maxFileSize content)
  | some (.link (some target)) => do
    let content ← ofExcept target
    ofExcept (inspectFile sha256 maxFileSize content)
  | _ => fail (.message s!"failed to open media file {name}")

/-- An object that is there already must be the received one. -/
def compareExisting (sha256 : Bytes → String) (maxFileSize : Nat) (shard name : String)
    (found : FileInspection) : LibraryProc Unit := do
  let existing ← inspectObject sha256 maxFileSize shard name
  ofExcept (ensure (existing == found)
    s!"content-addressed file {name} exists but does not match its digest")
  call

/-- The end of `receive`: the staged file becomes an object. -/
def commitObject (sha256 : Bytes → String) (maxFileSize : Nat) (temporary : String)
    (found : FileInspection) : LibraryProc Unit := do
  let shard := shardOf found.sha256
  let name := objectName found.sha256 found.extension
  ensureChildDirectory shard
  if ((← get).entry shard name).any (·.exists) then
    compareExisting sha256 maxFileSize shard name found
  else do
    raced shard name
    match (← get).entry shard name with
    | some _ => compareExisting sha256 maxFileSize shard name found
    | none =>
      act (.rename stagingDirName temporary shard name)
      call

/-- The part of `receive` that has a temporary file. -/
def receiveInto (delivery : Delivery) (reads : List ReadStep) (libraryDir : String)
    (maxFileSize : Nat) (temporary : String) : LibraryProc StoredAsset := do
  let c ← copyInto hasher temporary maxFileSize (some delivery.size) (.new hasher) reads
  let found ← ofExcept (finishCopy (some delivery.size) c)
  ofExcept (ensure (found.sha256 == toAsciiLowercase delivery.sha256)
    s!"delivery {delivery.id} checksum mismatch: expected {delivery.sha256}, got {found.sha256}")
  ofExcept (ensure (found.mediaType == delivery.mediaType) s!"delivery {delivery.id} media type mismatch: manifest says {delivery.mediaType}, content is {found.mediaType}")
  call
  commitObject sha256 maxFileSize temporary found
  return ⟨objectPath libraryDir (shardOf found.sha256) (objectName found.sha256 found.extension),
    found.size, found.sha256, found.mediaType⟩

/-- `receive`. -/
def receive (delivery : Delivery) (reads : List ReadStep) (libraryDir : String)
    (maxFileSize : Nat) : LibraryProc StoredAsset := do
  ofExcept (validateDeliveryMetadata delivery maxFileSize)
  call
  ensureStagingDirectory
  let temporary := "mirelay-" ++ delivery.id ++ "-" ++ (← ask).name ++ ".part"
  withTemporary temporary (receiveInto hasher delivery reads libraryDir maxFileSize temporary)

end Receive

end Storage

end MiRelay
