import MiRelay.Client.Sync
import MiRelay.Directory.Compare

/-!
# The sender of a directory

`Sender` keeps a ledger of the digests it has sent, of the version it will use
next and of the job it has staged. Each call works on the ledger in memory and
saves it after every change; the ledger on disk is read when the sender is
opened. The outside answers each scan, save, upload and removal.
-/

namespace MiRelay

open Proc

/-- `Pending`: a staged payload with the version it was given. -/
structure SenderJob where
  id : String
  entry : InventoryEntry
  version : Nat
  deriving DecidableEq, Repr

/-- The directory and the folder that a ledger belongs to. -/
structure SenderBinding where
  root : String
  device : Nat
  inode : Nat
  scope : String
  deriving DecidableEq, Repr

/-- `Ledger`. -/
structure SenderLedger where
  schemaVersion : Nat
  binding : SenderBinding
  initialized : Bool
  nextVersion : Nat
  files : Files String String
  pending : List SenderJob

/-- The ledger of a sender without one. -/
def SenderLedger.new (binding : SenderBinding) : SenderLedger :=
  ⟨directorySchemaVersion, binding, false, 1, ∅, []⟩

/-- `Preview`; its comparison is only shown. -/
structure SenderPreview where
  source : Inventory
  remote : DirectoryState

/-- One answer of the outside; each call reads the part that is for it. -/
structure SenderAnswer where
  opened : Result SenderBinding
  preview : Result SenderPreview
  inventory : Result Inventory
  remote : Result DirectoryState
  /-- The identity drawn for a job. -/
  id : String
  /-- What was copied into the payload, and whether the copy succeeded. -/
  staged : Bytes
  copied : Result Unit
  readable : Result Unit
  /-- Whether a delivery came of an upload. -/
  uploaded : Result Bool
  saved : SaveAnswer
  removed : Result Unit
  cleaned : Result Unit

/-- The state directory and the sender in memory. The fields after the payloads only record what
happened, newest first. -/
structure SenderState where
  disk : Option SenderLedger
  memory : Option SenderLedger
  payloads : Files String Bytes
  reports : List DirectoryState
  scanned : List InventoryEntry
  /-- The jobs given a version in memory, each with the states reported until then. -/
  drawn : List (SenderJob × List DirectoryState)
  /-- The jobs that the ledger on disk has held. -/
  assigned : List SenderJob
  baseline : List (String × String)
  uploads : List (SenderJob × Bytes)
  delivered : List SenderJob

/-- A sender with the answers it will receive. -/
structure SenderSession where
  core : SenderState
  answers : Nat → SenderAnswer

/-- What a call does, step by step. -/
inductive SenderStep
  | answered
  /-- The sender is dropped, or its process dies. -/
  | closed
  | loaded (ledger : SenderLedger)
  | scanned (entries : List InventoryEntry)
  | reported (state : DirectoryState)
  | initialized (next : Nat) (identical : List InventoryEntry)
  | floor (next : Nat)
  | staged (id : String) (bytes : Bytes)
  | assign (job : SenderJob)
  | persist
  /-- The upload of a job begins. -/
  | upload (job : SenderJob) (bytes : Bytes)
  | delivered (job : SenderJob)
  | unstaged (id : String)

/-- What a step does to the states. -/
def SenderState.apply (c : SenderState) : SenderStep → SenderState
  | .answered => c
  | .closed => { c with memory := none }
  | .loaded ledger => { c with memory := some ledger }
  | .scanned entries => { c with scanned := entries }
  | .reported state => { c with reports := state :: c.reports }
  | .initialized next identical => { c with
      memory := c.memory.map fun l => { l with
        initialized := true
        nextVersion := next
        files := Files.insertAll ∅ (·.path) (·.sha256) identical }
      baseline := identical.map (fun e => (e.path, e.sha256)) ++ c.baseline }
  | .floor next => { c with
      memory := c.memory.map fun l => { l with nextVersion := max l.nextVersion next } }
  | .staged id bytes => { c with payloads := c.payloads.insert id bytes }
  | .assign job => { c with
      memory := c.memory.map fun l => { l with
        nextVersion := l.nextVersion + 1, pending := l.pending ++ [job] }
      drawn := (job, c.reports) :: c.drawn }
  | .persist =>
    match c.memory with
    | none => c
    | some l => { c with
        disk := some l
        assigned := (l.pending.filter (· ∉ c.assigned)).reverse ++ c.assigned }
  | .upload job bytes => { c with uploads := (job, bytes) :: c.uploads }
  | .delivered job => { c with
      memory := c.memory.map fun l => { l with
        files := l.files.insert job.entry.path job.entry.sha256, pending := l.pending.tail }
      delivered := job :: c.delivered }
  | .unstaged id => { c with payloads := c.payloads.erase id }

/-- What a step does to a session. -/
def SenderSession.apply (s : SenderSession) (e : SenderStep) : SenderSession where
  core := s.core.apply e
  answers :=
    match e with
    | .answered => fun n => s.answers (n + 1)
    | _ => s.answers

/-- A procedure of the sender. -/
abbrev SenderProc : Type → Type := Proc SenderSession.apply Error

/-- The highest version of a reported state. -/
def DirectoryState.topVersion (state : DirectoryState) : Nat :=
  (state.entries.map (·.version)).foldl max 0

/-- `u64::MAX`. -/
def u64Max : Nat := 2 ^ 64 - 1

/-- The checks of a loaded ledger. -/
def SenderLedger.check (ledger : SenderLedger) (binding : SenderBinding) : Result Unit := do
  ensure (ledger.schemaVersion == directorySchemaVersion && decide (ledger.binding = binding))
    "Sender state belongs to another directory or Folder."
  ensure (ledger.files.keys.length ≤ maxEntries && ledger.pending.length ≤ maxEntries &&
    0 < ledger.nextVersion) "Invalid sender ledger."
  ledger.pending.forM fun job => do
    ensureUuid job.id "Invalid staged job identity."
    DirectoryVersion.validate { path := job.entry.path, version := job.version }
    validateSha256 job.entry.sha256

namespace SenderProc

/-- Use up the next answer. -/
def ask : SenderProc SenderAnswer := do
  let s ← get
  emit .answered
  return s.answers 0

/-- The ledger of the sender that is open. -/
def ledger : SenderProc SenderLedger := do
  match (← get).core.memory with
  | some l => return l
  | none => fail (.message "The sender is not open.")

/-- `Sender::save`. -/
def save : SenderProc Unit := do
  match (← ask).saved with
  | .saved => emit .persist
  | .failed e => fail e
  | .unsynced e => do
    emit .persist
    fail e

/-- The ledger that a sender begins with. -/
def load : SenderProc Unit := do
  let binding ← ofExcept (← ask).opened
  match (← get).core.disk with
  | some l => do
    ofExcept (l.check binding)
    emit (.loaded l)
  | none => emit (.loaded (.new binding))

/-- `Sender::open`, once the sender before it is dropped. -/
def openSender : SenderProc Unit := do
  emit .closed
  load
  match ← attempt save with
  | .ok () => return ()
  | .error e => do
    emit .closed
    fail e

/-- A state of the server, as `client.state` returns it. -/
def fetchState : SenderProc DirectoryState := do
  let remote ← ofExcept (← ask).remote
  ofExcept remote.validate
  emit (.reported remote)
  return remote

/-- `Sender::initialize`. -/
def initializeSender : SenderProc Unit := do
  let l ← ledger
  ofExcept (ensure (!l.initialized) "Directory is already initialized.")
  let preview ← ofExcept (← ask).preview
  let source ← ofExcept (← ask).inventory
  let remote ← fetchState
  ofExcept (ensure (decide (source = preview.source) && decide (remote = preview.remote))
    "Source or receiver changed since preview. Preview again before confirming.")
  let comparison ← ofExcept (compareRemote source remote)
  ofExcept (ensure (source.entries.all (0 < ·.size)) "Empty files are not supported yet.")
  ofExcept (ensure (remote.topVersion < u64Max) "Source version exhausted.")
  emit (.initialized (remote.topVersion + 1)
    (source.entries.filter fun e => !(comparison.missing ++ comparison.different).contains e.path))
  save

section Send

variable (sha256 : Bytes → String)

/-- One job of `Sender::flush`: its payload is checked, uploaded and removed. -/
def flushJob (job : SenderJob) : SenderProc Unit := do
  ofExcept (← ask).readable
  match (← get).core.payloads.lookup job.id with
  | none => fail (.message "failed to open media file")
  | some bytes => do
    let inspected ← ofExcept (inspectFile sha256 maxFile bytes)
    ofExcept (ensure (inspected.sha256 == job.entry.sha256 && inspected.size == job.entry.size)
      "Staged source changed; refusing to resume another file.")
    emit (.upload job bytes)
    let delivered ← ofExcept (← ask).uploaded
    ofExcept (ensure delivered "Upload did not complete.")
    emit (.delivered job)
    save
    ofExcept (← ask).removed
    emit (.unstaged job.id)
    ofExcept (← ask).cleaned

/-- `Sender::flush`, over the jobs that are pending when it begins. -/
def flushJobs : List SenderJob → SenderProc Nat
  | [] => return 0
  | job :: rest => do
    flushJob sha256 job
    return (← flushJobs rest) + 1

def flush : SenderProc Nat := do
  flushJobs sha256 (← ledger).pending

/-- The copy of a source file into a new directory of its own. -/
def stage (entry : InventoryEntry) : SenderProc String := do
  let a ← ask
  ofExcept (ensure ((← get).core.payloads.lookup a.id).isNone "File exists")
  emit (.staged a.id a.staged)
  ofExcept a.copied
  let inspection ← ofExcept (inspectFile sha256 maxFile a.staged)
  ofExcept (ensure (a.staged.length == entry.size && inspection.sha256 == entry.sha256)
    "Source changed while staging; retry after it settles.")
  return a.id

/-- One entry of `Sender::send`. -/
def sendEntry (entry : InventoryEntry) : SenderProc Nat := do
  let l ← ledger
  if l.files.lookup entry.path = some entry.sha256 then return 0
  else do
    ofExcept (ensure ((l.files.lookup entry.path).isSome || l.files.keys.length < maxEntries)
      "Sender history limit reached; no source files were deleted.")
    ofExcept (DirectoryVersion.validate { path := entry.path, version := l.nextVersion })
    let id ← stage sha256 entry
    emit (.assign ⟨id, entry, l.nextVersion⟩)
    save
    flush sha256

def sendEntries : List InventoryEntry → Nat → SenderProc Nat
  | [], count => return count
  | entry :: rest, count => do
    let sent ← sendEntry sha256 entry
    sendEntries rest (count + sent)

/-- `Sender::send`. -/
def send : SenderProc Nat := do
  ofExcept (ensure (← ledger).initialized
    "Review preview and confirm initialization before sending files.")
  let count ← flush sha256
  let source ← ofExcept (← ask).inventory
  emit (.scanned source.entries)
  ofExcept (ensure (source.entries.all (0 < ·.size)) "Empty files are not supported yet.")
  let remote ← fetchState
  let _ ← ofExcept (compareRemote source remote)
  -- Adopt a higher remote floor after re-pairing, never recycle versions.
  emit (.floor (min (remote.topVersion + 1) u64Max))
  sendEntries sha256 source.entries count

end Send

end SenderProc

/-- A call on a sender state directory. -/
inductive SenderCall
  | opened
  | initialized
  | flush
  | send
  deriving DecidableEq, Repr

/-- The steps of a call from a state. -/
def SenderCall.steps (sha256 : Bytes → String) (call : SenderCall) (s : SenderSession) :
    List SenderStep :=
  match call with
  | .opened => (SenderProc.openSender s).events
  | .initialized => (SenderProc.initializeSender s).events
  | .flush => (SenderProc.flush sha256 s).events
  | .send => (SenderProc.send sha256 s).events

/-- The steps of a call that is cut off by the death of the process after at most so many. -/
def SenderCall.cutSteps (sha256 : Bytes → String) (call : SenderCall) (cut : Option Nat)
    (s : SenderSession) : List SenderStep :=
  match cut with
  | none => call.steps sha256 s
  | some k => (call.steps sha256 s).take k ++ [.closed]

/-- A session is a list of calls, each possibly cut off. -/
def SenderSession.trace (sha256 : Bytes → String) :
    List (SenderCall × Option Nat) → SenderSession → List SenderStep
  | [], _ => []
  | first :: rest, s =>
    first.1.cutSteps sha256 first.2 s ++
      trace sha256 rest (after SenderSession.apply s (first.1.cutSteps sha256 first.2 s))

/-- A new state directory. -/
def SenderSession.initial (answers : Nat → SenderAnswer) : SenderSession :=
  ⟨⟨none, none, ∅, [], [], [], [], [], [], []⟩, answers⟩

end MiRelay
