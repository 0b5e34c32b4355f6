import MiRelay.Client.Sync
import MiRelay.Directory.Compare
import MiRelay.Server.Directory

/-!
# The receiver of a directory

`Receiver` puts the reported versions into a directory. A new version is staged
beside its target under a name of its own; once a journal says so, it takes the
target's place in one rename, and a file that it replaced is retained beside
it. Recovery finds out from inode numbers and names how far this went. Other
programs may change the directory while the receiver waits for an answer.
-/

namespace MiRelay

open Proc

/-- What a name in the directory stands for. -/
inductive DestinationKind
  | file (bytes : Bytes)
  | directory
  | other
  deriving DecidableEq, Repr

structure DestinationNode where
  device : Nat
  inode : Nat
  kind : DestinationKind
  deriving DecidableEq, Repr

/-- The directory below its root: each node under its parent's path and its name. -/
abbrev DestinationTree : Type := Files (String × String) DestinationNode

/-- A number no inode of the tree has; the proposed one if that is free. -/
def DestinationTree.unusedInode (tree : DestinationTree) (proposed : Nat) : Nat :=
  let inodes := tree.values.map (·.inode)
  if proposed ∈ inodes then inodes.foldl max 0 + 1 else proposed

/-- `Applied`. -/
structure Applied where
  version : Nat
  sha256 : String
  conflict : Bool
  history : Option String
  acknowledged : Bool
  size : Nat
  mediaType : String
  receivedAtUnix : Nat
  deriving DecidableEq, Repr

/-- `Ledger`; the binding holds its root, device, inode and scope. -/
structure ReceiverLedger where
  schemaVersion : Nat
  root : String
  device : Nat
  inode : Nat
  scope : String
  files : Files String Applied

/-- `Journal`. -/
structure Journal where
  entry : DirectoryEntry
  stage : String
  history : String
  inode : Nat
  parentInode : Nat
  parentDevice : Nat
  previousSha : Option String
  deriving DecidableEq, Repr

/-- The directory and the folder that a receiver is opened for. -/
structure ReceiverBinding where
  root : String
  device : Nat
  inode : Nat
  scope : String
  deriving DecidableEq, Repr

/-- One answer of the outside; each call reads the part that is for it. -/
structure ReceiverAnswer where
  /-- What other programs made of the directory meanwhile. -/
  edited : Option DestinationTree
  opened : Result ReceiverBinding
  /-- Whether the file operation at this point succeeds. -/
  io : Result Unit
  saved : SaveAnswer
  remote : Result DirectoryState
  payload : Result Bytes
  placed : Result Unit
  retried : Bool
  /-- The identity drawn for a name. -/
  id : String
  inode : Nat
  /-- How many bytes were copied when the copy failed. -/
  copied : Option Nat
  now : Nat
  acknowledged : Result Unit
  inventory : Result Inventory
  published : Result Unit

/-- The state directory, the receiver in memory and the synchronized directory. The last two fields
only record what was read: the digest of the last retained copy, and the files checked before a
receipt with the version the ledger had. -/
structure ReceiverState where
  disk : Option ReceiverLedger
  memory : Option ReceiverLedger
  journal : Option Journal
  tree : DestinationTree
  retained : Option String
  checked : List (String × Nat × String)

/-- A receiver with the answers it will receive. -/
structure ReceiverSession where
  core : ReceiverState
  answers : Nat → ReceiverAnswer

/-- What a call does, step by step. -/
inductive ReceiverStep
  | answered
  | edited (tree : DestinationTree)
  /-- The receiver is dropped, or its process dies. -/
  | closed
  | loaded (ledger : ReceiverLedger)
  | persist
  | madeDirectory (place : String × String) (node : DestinationNode)
  | staged (place : String × String) (node : DestinationNode)
  | journaled (journal : Journal)
  | moved (source target : String × String)
  | exchanged (source target : String × String)
  | retained (digest : Option String)
  | recorded (path : String) (applied : Applied)
  | cleared
  | marked (path : String)
  | checked (path : String) (version : Nat) (digest : String)
  | acknowledged (ack : DirectoryAck)
  | published (update : InventoryUpdate)

/-- The tree after a rename that replaces nothing. -/
def DestinationTree.move (tree : DestinationTree) (source target : String × String) :
    DestinationTree :=
  match tree.lookup source with
  | some node => (tree.erase source).insert target node
  | none => tree

/-- The tree after two names were exchanged. -/
def DestinationTree.exchange (tree : DestinationTree) (source target : String × String) :
    DestinationTree :=
  match tree.lookup source, tree.lookup target with
  | some a, some b => (tree.insert source b).insert target a
  | _, _ => tree

/-- What a step does to the states. -/
def ReceiverState.apply (c : ReceiverState) : ReceiverStep → ReceiverState
  | .answered | .acknowledged _ | .published _ => c
  | .edited tree => { c with tree }
  | .closed => { c with memory := none }
  | .loaded ledger => { c with memory := some ledger }
  | .persist => { c with disk := c.memory <|> c.disk }
  | .madeDirectory place node | .staged place node => { c with tree := c.tree.insert place node }
  | .journaled journal => { c with journal := some journal }
  | .moved source target => { c with tree := c.tree.move source target }
  | .exchanged source target => { c with tree := c.tree.exchange source target }
  | .retained digest => { c with retained := digest }
  | .recorded path applied => { c with
      memory := c.memory.map fun l => { l with files := l.files.insert path applied } }
  | .cleared => { c with journal := none }
  | .marked path => { c with
      memory := c.memory.map fun l =>
        match l.files.lookup path with
        | some applied => { l with
            files := l.files.insert path { applied with acknowledged := true } }
        | none => l }
  | .checked path version digest => { c with checked := (path, version, digest) :: c.checked }

/-- What a step does to a session. -/
def ReceiverSession.apply (s : ReceiverSession) (e : ReceiverStep) : ReceiverSession where
  core := s.core.apply e
  answers :=
    match e with
    | .answered => fun n => s.answers (n + 1)
    | _ => s.answers

/-- A procedure of the receiver. -/
abbrev ReceiverProc : Type → Type := Proc ReceiverSession.apply Error

/-- The parent of a path: everything before the last separator. -/
def parentPath (path : String) : String :=
  String.ofList (List.intercalate ['/'] (components path).dropLast)

/-- The places of the directories above a path, the highest first. -/
def directoryPlaces (path : String) : List (String × String) :=
  (pathAncestors path).map fun directory => (parentPath directory, fileName directory)

/-- The place of a path. -/
def placeOf (path : String) : String × String := (parentPath path, fileName path)

/-- The device and the inode of a directory. -/
def ReceiverState.identityOf (c : ReceiverState) (l : ReceiverLedger) (directory : String) :
    Option (Nat × Nat) :=
  if directory = "" then some (l.device, l.inode)
  else (c.tree.lookup (placeOf directory)).map fun node => (node.device, node.inode)

/-- `validate_history`. -/
def validateHistory (path history : String) : Result Unit := do
  validatePath path
  match stripLead ".mirelay-history-" (fileName history) with
  | none => .error (.message "Invalid retained copy name.")
  | some id => do
    ensureUuid id "Invalid retained copy path."
    ensure (parentPath path == parentPath history) "Invalid retained copy path."

/-- `validate_ledger`. -/
def ReceiverLedger.check (ledger : ReceiverLedger) (binding : ReceiverBinding) : Result Unit := do
  ensure (ledger.schemaVersion == directorySchemaVersion && ledger.root == binding.root &&
    ledger.device == binding.device && ledger.inode == binding.inode &&
      ledger.scope == binding.scope) "Receiver state belongs to another directory or Folder."
  ensure (ledger.files.keys.length ≤ maxEntries) "Oversized receiver ledger."
  ledger.files.entries.forM fun ⟨path, file⟩ => do
    DirectoryVersion.validate { path, version := file.version }
    validateSha256 file.sha256
    ensure (file.size ≤ maxFile && utf8Len file.mediaType.toList ≤ 255 &&
      !file.mediaType.toList.any isControl) "Invalid receiver file metadata."
    match file.history with
    | some history => validateHistory path history
    | none => .ok ()

/-- A name that the receiver gave: its lead and an identity. -/
def checkArtifact (name lead : String) : Result Unit :=
  match stripLead lead name with
  | none => .error (.message "Invalid recovery artifact.")
  | some id => ensureUuid id "Invalid recovery identity."

/-- A report of one entry, to validate it. -/
def reportOf (entry : DirectoryEntry) : DirectoryState := ⟨directorySchemaVersion, none, [entry]⟩

namespace ReceiverProc

/-- Use up the next answer; other programs have gone on meanwhile. -/
def ask : ReceiverProc ReceiverAnswer := do
  let s ← get
  emit .answered
  match (s.answers 0).edited with
  | some tree => do
    emit (.edited tree)
    return s.answers 0
  | none => return s.answers 0

/-- The ledger of the receiver that is open. -/
def ledger : ReceiverProc ReceiverLedger := do
  match (← get).core.memory with
  | some l => return l
  | none => fail (.message "The receiver is not open.")

/-- What stands at a place. -/
def stat (place : String × String) : ReceiverProc (Option DestinationNode) := do
  return (← get).core.tree.lookup place

/-- `save`: replace a file of the state directory. -/
def saveFile (replaced : ReceiverStep) : ReceiverProc Unit := do
  match (← ask).saved with
  | .saved => emit replaced
  | .failed e => fail e
  | .unsynced e => do
    emit replaced
    fail e

/-- `Receiver::save`. -/
def save : ReceiverProc Unit := saveFile .persist

/-- `Root::parent`: open the directories above a path, creating them where asked to. -/
def openDirectories (create : Bool) : List (String × String) → ReceiverProc Unit
  | [] => return ()
  | place :: rest => do
    let a ← ask
    ofExcept a.io
    match ← stat place with
    | some node => ofExcept (ensure (node.kind == .directory) "Not a directory")
    | none =>
      if create then do
        let l ← ledger
        emit (.madeDirectory place
          ⟨l.device, (← get).core.tree.unusedInode a.inode, .directory⟩)
      else fail (.message "No such file or directory")
    openDirectories create rest

def openParent (path : String) (create : Bool) : ReceiverProc Unit := do
  ofExcept (validatePath path)
  openDirectories create (directoryPlaces path)

section Digest

variable (sha256 : Bytes → String)

/-- `digest` of a node that was opened. -/
def digestNode (node : DestinationNode) : Result (String × Nat) :=
  match node.kind with
  | .file bytes => do
    ensure (bytes.length ≤ maxFile) "File exceeds directory scan limit."
    return (sha256 bytes, bytes.length)
  | _ => .error (.message "Directory contains a non-regular file.")

/-- Read a file and its digest. -/
def readDigest (place : String × String) : ReceiverProc (String × Nat) := do
  ofExcept (← ask).io
  match ← stat place with
  | some node => ofExcept (digestNode sha256 node)
  | none => fail (.message "No such file or directory")

/-- The commit of a staged file that is still there: it takes the target's name. -/
def commit (j : Journal) (parent name : String) : ReceiverProc Unit := do
  match ← stat (parent, j.stage) with
  | none => return ()
  | some stage =>
    if stage.inode = j.inode then do
      let found ← readDigest sha256 (parent, j.stage)
      ofExcept (ensure (found.1 == j.entry.sha256 && found.2 == j.entry.size)
        "Incoming file changed before commit.")
      ofExcept (← ask).io
      -- Never fall back to a non-atomic overwrite on an unsupported FS.
      match ← stat (parent, name) with
      | none => emit (.moved (parent, j.stage) (parent, name))
      | some target => do
        ofExcept (ensure (match target.kind with | .file _ => true | _ => false)
          "Target became a non-regular file.")
        emit (.exchanged (parent, j.stage) (parent, name))
      ofExcept (← ask).io
    else return ()

/-- What the exchange left under the staged name is retained. -/
def archive (j : Journal) (parent : String) : ReceiverProc Unit := do
  match ← stat (parent, j.stage) with
  | none => return ()
  | some _ => do
    ofExcept (← ask).io
    ofExcept (ensure (← stat (parent, j.history)).isNone "File exists")
    emit (.moved (parent, j.stage) (parent, j.history))
    ofExcept (← ask).io

/-- Whether the retained copy conflicts: it cannot be read, or is not what the ledger had. -/
def findConflict (j : Journal) (parent : String) (history : Option DestinationNode) : ReceiverProc Bool := do
  match history with
  | none => return false
  | some _ => do
    let digest := match ← attempt (readDigest sha256 (parent, j.history)) with
      | .ok found => some found.1
      | .error _ => none
    emit (.retained digest)
    return digest == none || digest != j.previousSha

/-- The ledger records the version, then the journal goes. -/
def conclude (j : Journal) (parent name : String) : ReceiverProc Unit := do
  let history ← stat (parent, j.history)
  ofExcept (ensure (history.isSome || (← stat (parent, name)).any (·.inode == j.inode))
    "Cannot prove the directory commit completed; retained recovery state.")
  let conflict ← findConflict sha256 j parent history
  let now := (← ask).now
  emit (.recorded j.entry.path
    { version := j.entry.version
      sha256 := j.entry.sha256
      conflict
      history := history.map fun _ =>
        if parent = "" then j.history else parent ++ "/" ++ j.history
      acknowledged := false
      size := j.entry.size
      mediaType := j.entry.mediaType
      receivedAtUnix := now })
  save
  ofExcept (← ask).io
  emit .cleared
  ofExcept (← ask).io

/-- `Receiver::recover`. -/
def recover : ReceiverProc Unit := do
  ofExcept (← ask).io
  match (← get).core.journal with
  | none => return ()
  | some j => do
    ofExcept (reportOf j.entry).validate
    ofExcept (checkArtifact j.stage ".mirelay-incoming-")
    ofExcept (checkArtifact j.history ".mirelay-history-")
    openParent j.entry.path false
    let l ← ledger
    ofExcept (ensure ((← get).core.identityOf l (parentPath j.entry.path) ==
      some (j.parentDevice, j.parentInode)) "Destination parent changed during recovery.")
    commit sha256 j (parentPath j.entry.path) (fileName j.entry.path)
    archive j (parentPath j.entry.path)
    conclude sha256 j (parentPath j.entry.path) (fileName j.entry.path)

/-- `storage::receive` into the objects of the receiver. -/
def receiveObject (entry : DirectoryEntry) : ReceiverProc Bytes := do
  let a ← ask
  ofExcept (validateDeliveryMetadata entry.delivery maxFile)
  let bytes ← ofExcept a.payload
  let found ← ofExcept (copyAndInspect sha256 maxFile (some entry.size) bytes)
  ofExcept (ensure (found.sha256 == toAsciiLowercase entry.sha256)
    s!"delivery {entry.deliveryId} checksum mismatch: expected {entry.sha256}, got {found.sha256}")
  ofExcept (ensure (found.mediaType == entry.mediaType) s!"delivery {entry.deliveryId} media type mismatch: manifest says {entry.mediaType}, content is {found.mediaType}")
  ofExcept a.placed
  return bytes

/-- The staged copy: its name and its inode. -/
def stageCopy (entry : DirectoryEntry) (bytes : Bytes) : ReceiverProc (String × Nat) := do
  let a ← ask
  let place := (parentPath entry.path, ".mirelay-incoming-" ++ a.id)
  ofExcept a.io
  ofExcept (ensure (← stat place).isNone "File exists")
  let l ← ledger
  let inode := (← get).core.tree.unusedInode a.inode
  match a.copied with
  | some n => do
    emit (.staged place ⟨l.device, inode, .file (bytes.take n)⟩)
    fail (.message "The copy failed.")
  | none => do
    emit (.staged place ⟨l.device, inode, .file bytes⟩)
    return (place.2, inode)

/-- The journal of a staged copy. -/
def saveJournal (entry : DirectoryEntry) (stage : String) (inode : Nat) : ReceiverProc Unit := do
  let a ← ask
  ofExcept a.io
  let l ← ledger
  match (← get).core.identityOf l (parentPath entry.path) with
  | none => fail (.message "No such file or directory")
  | some (device, directory) =>
    saveFile (.journaled
      { entry, stage
        history := ".mirelay-history-" ++ a.id
        inode
        parentInode := directory
        parentDevice := device
        previousSha := (l.files.lookup entry.path).map (·.sha256) })

/-- The ledger's record of a path that was just applied. -/
def appliedAt (path : String) : ReceiverProc Applied := do
  match (← ledger).files.lookup path with
  | some applied => return applied
  | none => fail (.message "no entry found for key")

/-- `Receiver::apply` of a version that the ledger does not have. -/
def install (entry : DirectoryEntry) : ReceiverProc Applied := do
  let l ← ledger
  ofExcept (ensure ((l.files.lookup entry.path).isSome || l.files.keys.length < maxEntries)
    "Directory file limit reached.")
  let bytes ← receiveObject sha256 entry
  openParent entry.path true
  let found ← (do
    match ← stat (placeOf entry.path) with
    | none => return none
    | some node => do
      ofExcept (ensure (match node.kind with | .file _ => true | _ => false)
        "Target is a symlink, directory or special file.")
      return some (← readDigest sha256 (placeOf entry.path)))
  if found = some (entry.sha256, entry.size) then do
    let a ← ask
    ofExcept a.io
    emit (.recorded entry.path
      { version := entry.version
        sha256 := entry.sha256
        conflict := false
        history := none
        acknowledged := false
        size := entry.size
        mediaType := entry.mediaType
        receivedAtUnix := a.now })
    save
    appliedAt entry.path
  else do
    let staged ← stageCopy entry bytes
    saveJournal entry staged.1 staged.2
    recover sha256
    appliedAt entry.path

/-- `Receiver::apply`. -/
def apply (entry : DirectoryEntry) : ReceiverProc Applied := do
  ofExcept (reportOf entry).validate
  recover sha256
  match (← ledger).files.lookup entry.path with
  | none => install sha256 entry
  | some previous => do
    ofExcept (ensure (previous.version != entry.version || previous.sha256 == entry.sha256)
      "Same directory version has different content.")
    if entry.version ≤ previous.version then return previous
    else install sha256 entry

/-- The download of a version with the attempts that are left after this one. -/
def applyWithRetry (entry : DirectoryEntry) : Nat → ReceiverProc Applied
  | 0 => apply sha256 entry
  | left + 1 => do
    match ← attempt (apply sha256 entry) with
    | .ok applied => return applied
    | .error e => if (← ask).retried then applyWithRetry entry left else fail e

/-- The check of a recorded file and its receipt. -/
def confirmEntry (entry : DirectoryEntry) : ReceiverProc Unit := do
  let applied ← appliedAt entry.path
  -- A crash may leave a durable local record before the remote ACK.
  openParent entry.path false
  let actual ← readDigest sha256 (placeOf entry.path)
  ofExcept (ensure (actual.1 == applied.sha256) "Destination changed before its receipt. No ACK was sent; received bytes and recovery state are retained.")
  emit (.checked entry.path applied.version actual.1)
  save
  emit (.acknowledged ⟨entry.path, applied.version, applied.sha256, applied.conflict⟩)
  ofExcept (← ask).acknowledged
  emit (.marked entry.path)
  save

/-- One reported entry; how many versions were downloaded. -/
def syncEntry (attempts : Nat) (entry : DirectoryEntry) : ReceiverProc Nat := do
  let recorded := (← ledger).files.lookup entry.path
  if entry.acknowledged then
    if recorded.any fun applied => applied.version == entry.version &&
        applied.sha256 == entry.sha256 && !applied.acknowledged then do
      emit (.marked entry.path)
      save
      return 0
    else return 0
  else if recorded.any fun applied => decide (entry.version ≤ applied.version) then do
    confirmEntry sha256 entry
    return 0
  else do
    let _ ← applyWithRetry sha256 entry (attempts - 1)
    confirmEntry sha256 entry
    return 1

def syncEntries (attempts : Nat) : List DirectoryEntry → Nat → ReceiverProc Nat
  | [], count => return count
  | entry :: rest, count => do
    let received ← syncEntry sha256 attempts entry
    syncEntries attempts rest (count + received)

/-- `Receiver::sync_with_events`. -/
def sync (attempts : Nat) : ReceiverProc Nat := do
  recover sha256
  let remote ← ofExcept (← ask).remote
  ofExcept remote.validate
  let count ← syncEntries sha256 attempts remote.entries 0
  let a ← ask
  let inventory ← ofExcept a.inventory
  emit (.published ⟨remote.receiver.map (·.id), inventory⟩)
  ofExcept a.published
  return count

/-- The ledger that a receiver begins with. -/
def load : ReceiverProc Unit := do
  let a ← ask
  let binding ← ofExcept a.opened
  match (← get).core.disk with
  | some l => do
    ofExcept (l.check binding)
    emit (.loaded l)
  | none => emit (.loaded
      ⟨directorySchemaVersion, binding.root, binding.device, binding.inode, binding.scope, ∅⟩)

/-- `Receiver::open`, once the receiver before it is dropped. -/
def openReceiver : ReceiverProc Unit := do
  emit .closed
  load
  match ← attempt (do save; recover sha256) with
  | .ok () => return ()
  | .error e => do
    emit .closed
    fail e

end Digest

end ReceiverProc

/-- A call on a receiver. -/
inductive ReceiverCall
  | opened
  | recovered
  | applied (entry : DirectoryEntry)
  | synced (attempts : Nat)

/-- The steps of a call from a state. -/
def ReceiverCall.steps (sha256 : Bytes → String) (call : ReceiverCall) (s : ReceiverSession) :
    List ReceiverStep :=
  match call with
  | .opened => (ReceiverProc.openReceiver sha256 s).events
  | .recovered => (ReceiverProc.recover sha256 s).events
  | .applied entry => (ReceiverProc.apply sha256 entry s).events
  | .synced attempts => (ReceiverProc.sync sha256 attempts s).events

/-- The steps of a call that is cut off by the death of the process after at most so many. -/
def ReceiverCall.cutSteps (sha256 : Bytes → String) (call : ReceiverCall) (cut : Option Nat)
    (s : ReceiverSession) : List ReceiverStep :=
  match cut with
  | none => call.steps sha256 s
  | some k => (call.steps sha256 s).take k ++ [.closed]

/-- A session is a list of calls, each possibly cut off. -/
def ReceiverSession.trace (sha256 : Bytes → String) :
    List (ReceiverCall × Option Nat) → ReceiverSession → List ReceiverStep
  | [], _ => []
  | first :: rest, s =>
    first.1.cutSteps sha256 first.2 s ++
      trace sha256 rest (after ReceiverSession.apply s (first.1.cutSteps sha256 first.2 s))

/-- A new state directory for a directory. -/
def ReceiverSession.initial (tree : DestinationTree) (answers : Nat → ReceiverAnswer) :
    ReceiverSession :=
  ⟨⟨none, none, none, tree, none, []⟩, answers⟩

end MiRelay
