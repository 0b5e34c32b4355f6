import MiRelay.Core.Table
import MiRelay.Core.Run

/-!
# The transfer store of the Android client

The folders, automatic sources and transfers of the phone's database, and the
updates of `RelayStore`, `AutoStore` and `DirectorySyncStore` on them. Each step
is one SQL statement or one transaction; upload workers read the row they were
started for and later update it, with any other step in between. Columns that no
update here reads or writes are left out, and so are the ledgers of observed
files, whose verdict on a file is an input of the step that queues it.
-/

namespace MiRelay.Android

/-- `TransferStatus`. -/
inductive TransferStatus
  | queued | uploading | paused | failed | uploaded
  deriving DecidableEq, Repr

/-- `pairing_state`. -/
inductive PairingState
  | legacy | awaitingPeer | awaitingConfirmation | ready | disconnectPending | disconnected
  deriving DecidableEq, Repr

/-- `exit_phase`. -/
inductive ExitPhase
  | pending | localCleaned | complete
  deriving DecidableEq, Repr

/-- A row of `folders`. -/
structure Folder where
  id : String
  token : String
  pairingState : PairingState
  verification : Option String
  exitPhase : Option ExitPhase
  deriving DecidableEq, Repr

/-- A row of `auto_sources`. -/
structure AutoSource where
  folderId : String
  treeUri : String
  name : String
  revision : String
  enabled : Bool
  unmetered : Bool
  error : Option String
  prepared : Bool
  directorySync : Bool
  nextVersion : Nat
  deriving DecidableEq, Repr

/-- A row of `transfers`. -/
structure Transfer where
  id : String
  folderId : String
  name : String
  size : Nat
  status : TransferStatus
  uploaded : Nat
  error : Option String
  deliveryId : Option String
  workId : String
  createdAt : Nat
  autoRevision : Option String
  autoUnmetered : Bool
  relativePath : Option String
  sourceVersion : Option Nat
  sourceSha256 : Option String
  received : Bool
  conflict : Bool
  superseded : Bool
  deriving DecidableEq, Repr

def Folder.clash (a b : Folder) : Bool := a.id == b.id

def AutoSource.clash (a b : AutoSource) : Bool := a.folderId == b.folderId

def Transfer.clash (a b : Transfer) : Bool := a.id == b.id

/-- `connectionClosed`. -/
def Folder.connectionClosed (f : Folder) : Bool :=
  f.pairingState = .disconnectPending ∨ f.pairingState = .disconnected

/-- `MAX_FILE_BYTES`. -/
def maxFileBytes : Nat := 100 * 1024 * 1024

/-- A run of the upload worker: the identity of its work request and the row it has read. -/
structure Worker where
  workId : String
  transfer : Transfer
  deriving DecidableEq, Repr

/-- The phone's database with the workers that run. -/
structure Phone where
  folders : Table Folder Folder.clash
  sources : Table AutoSource AutoSource.clash
  transfers : Table Transfer Transfer.clash
  workers : List Worker
  /-- Workers that have found their source enabled but its access revoked. -/
  denied : List Worker

/-- A phone before its first folder. -/
def Phone.initial : Phone := ⟨.empty, .empty, .empty, [], []⟩

/-- An entry of the relay's directory state, as far as receipts use it. -/
structure Receipt where
  path : String
  version : Nat
  sha256 : String
  acknowledged : Bool
  conflict : Bool
  deriving DecidableEq, Repr

/-- A file copied into private staging. -/
structure StagedFile where
  id : String
  name : String
  size : Nat
  sha256 : String
  deriving DecidableEq, Repr

namespace Phone

variable (p : Phone)

def folder (id : String) : Option Folder := p.folders.rows.find? (·.id == id)

def source (folderId : String) : Option AutoSource := p.sources.rows.find? (·.folderId == folderId)

def transfer (id : String) : Option Transfer := p.transfers.rows.find? (·.id == id)

/-- `connectionOpen`. -/
def connectionOpen (id : String) : Bool :=
  p.folders.rows.any fun f => f.id == id && !f.connectionClosed

/-- `active`. -/
def active (folder revision : String) : Bool :=
  (p.sources.rows.any fun a => a.folderId == folder && a.revision == revision && a.enabled) &&
    p.connectionOpen folder

/-- `ALLOWED_TRANSFER`, and `permits` for a row that was read. -/
def allowed (t : Transfer) : Bool :=
  p.connectionOpen t.folderId && match t.autoRevision with
    | none => true
    | some revision => p.sources.rows.any fun a =>
      a.folderId == t.folderId && a.revision == revision && a.enabled

/-- `UPDATE folders SET … WHERE …`. -/
def updateFolders (selected : Folder → Bool) (change : Folder → Folder)
    (h : ∀ f, (change f).id = f.id) : Phone :=
  { p with
    folders := p.folders.update (fun f => if selected f then change f else f)
      (by intro a b; dsimp only [Folder.clash]; split <;> split <;> simp [h]) }

/-- `UPDATE auto_sources SET … WHERE …`. -/
def updateSources (selected : AutoSource → Bool) (change : AutoSource → AutoSource)
    (h : ∀ a, (change a).folderId = a.folderId) : Phone :=
  { p with
    sources := p.sources.update (fun a => if selected a then change a else a)
      (by intro a b; dsimp only [AutoSource.clash]; split <;> split <;> simp [h]) }

/-- `UPDATE transfers SET … WHERE …`. -/
def updateTransfers (selected : Transfer → Bool) (change : Transfer → Transfer)
    (h : ∀ t, (change t).id = t.id) : Phone :=
  { p with
    transfers := p.transfers.update (fun t => if selected t then change t else t)
      (by intro a b; dsimp only [Transfer.clash]; split <;> split <;> simp [h]) }

/-- The transfer is waiting for an upload or in one: `status IN ('QUEUED','UPLOADING')`. -/
def moving (t : Transfer) : Bool := t.status = .queued ∨ t.status = .uploading

/-- The transaction of `beginDisconnect`. -/
def beginDisconnect (id : String) : Phone :=
  ((p.updateFolders (fun f => f.id == id && f.pairingState != .disconnected)
    (fun f => { f with pairingState := .disconnectPending, verification := none }) fun _ => rfl)
    |>.updateSources (·.folderId == id)
      (fun a => { a with enabled := false, prepared := false }) fun _ => rfl)
    |>.updateTransfers (·.folderId == id)
      (fun t => { t with workId := "", status := if moving t then .paused else t.status })
      fun _ => rfl

/-- The transaction of `disable`. -/
def disable (folder : String) (reason : Option String) : Phone :=
  (p.updateSources (·.folderId == folder)
    (fun a => { a with enabled := false, error := reason }) fun _ => rfl)
    |>.updateTransfers (fun t => t.folderId == folder && t.autoRevision.isSome && moving t)
      (fun t => { t with status := .paused, workId := "" }) fun _ => rfl

/-- The transaction of `addTransfer`, with the columns `commit` fills in afterwards. -/
def insertTransfer (staged : StagedFile) (folder : String) (now : Nat)
    (autoRevision : Option String) (autoUnmetered : Bool) (directory : Option (String × Nat)) :
    Option Phone :=
  if 1 ≤ staged.size ∧ staged.size ≤ maxFileBytes ∧ p.connectionOpen folder then
    (p.transfers.insert {
      id := staged.id, folderId := folder, name := staged.name, size := staged.size
      status := .queued, uploaded := 0, error := none, deliveryId := none, workId := ""
      createdAt := now, autoRevision, autoUnmetered
      relativePath := directory.map (·.1), sourceVersion := directory.map (·.2)
      sourceSha256 := directory.map fun _ => staged.sha256
      received := false, conflict := false, superseded := false }).map
      fun transfers => { p with transfers }
  else none

/-- The source that `enable` and `confirm` store. -/
def putSource (a : AutoSource) : Option Phone :=
  match p.source a.folderId with
  | some old =>
    some (p.updateSources (·.folderId == a.folderId)
      (fun b => { a with folderId := b.folderId, nextVersion := max old.nextVersion a.nextVersion })
      fun _ => rfl)
  | none => (p.sources.insert a).map fun sources => { p with sources }

/-- The transaction of `enable`. -/
def enable (folder tree name revision : String) (unmetered startImmediately : Bool) :
    Option Phone :=
  if p.connectionOpen folder ∧ !(p.source folder).any (fun a => a.directorySync || a.enabled) then
    p.putSource { folderId := folder, treeUri := tree, name, revision, enabled := startImmediately
                  unmetered, error := none, prepared := !startImmediately, directorySync := false
                  nextVersion := 1 }
  else none

/-- The update of `startPrepared`, whose check of the connection is an earlier step. -/
def startPrepared (folder : String) (unmetered : Bool) : Option Phone :=
  if (p.source folder).any fun a => !a.enabled && a.prepared then
    some (p.updateSources (·.folderId == folder)
      (fun a => { a with enabled := true, prepared := false, unmetered }) fun _ => rfl)
  else none

/-- The transaction of the directory `confirm`, when nothing has changed since the preview;
`floor` is the version after the greatest one the relay lists. -/
def confirm (folder tree name revision : String) (unmetered : Bool) (floor : Nat) :
    Option Phone :=
  if p.connectionOpen folder ∧
      !(p.source folder).any (fun a => a.enabled || (a.directorySync && a.treeUri != tree)) ∧
      p.transfers.rows.all (fun t => t.folderId != folder || t.status == .uploaded) then
    p.putSource { folderId := folder, treeUri := tree, name, revision, enabled := true, unmetered
                  error := none, prepared := false, directorySync := true, nextVersion := floor }
  else none

/-- The transaction of `resume`. -/
def resume (folder tree revision : String) (unmetered : Bool) : Option Phone :=
  if p.connectionOpen folder ∧
      (p.source folder).any fun a => a.directorySync && !a.enabled && a.treeUri == tree then
    some (((p.updateSources (·.folderId == folder)
      (fun a => { a with enabled := true, revision, unmetered, error := none }) fun _ => rfl)
      |>.updateTransfers (fun t => t.folderId == folder && t.relativePath.isSome &&
          (t.status == .paused || moving t))
        (fun t => { t with
          autoRevision := some revision, autoUnmetered := unmetered, status := .queued
          workId := "" }) fun _ => rfl)
      |>.updateTransfers (fun t => t.folderId == folder && t.relativePath.isSome &&
          t.status == .failed)
        (fun t => { t with autoRevision := some revision, autoUnmetered := unmetered })
        fun _ => rfl)
  else none

/-- One entry of `receipts`. -/
def receipt (folder : String) (entry : Receipt) : Phone :=
  let p := p.updateTransfers
    (fun t => t.folderId == folder && t.relativePath == some entry.path &&
      t.sourceVersion.any (· < entry.version) && t.status == .uploaded)
    (fun t => { t with superseded := true }) fun _ => rfl
  if entry.acknowledged then
    p.updateTransfers
      (fun t => t.folderId == folder && t.relativePath == some entry.path &&
        t.sourceVersion == some entry.version && t.sourceSha256 == some entry.sha256 &&
        t.status == .uploaded)
      (fun t => { t with received := true, conflict := entry.conflict }) fun _ => rfl
  else p

/-- The transaction of `receipts`. -/
def receipts (folder : String) (entries : List Receipt) (floor : Nat) : Phone :=
  (entries.foldl (fun p entry => p.receipt folder entry) p).updateSources
    (fun a => a.folderId == folder && a.directorySync)
    (fun a => { a with nextVersion := max a.nextVersion floor }) fun _ => rfl

end Phone

/-- What happens on the phone: user actions, the scan, and the workers. -/
inductive PhoneStep
  | createFolder (id token : String) (pairingState : PairingState)
  | saveFolder (id : String) (token : Option String) (pairingState : Option PairingState)
  | pairingResult (id : String) (state : PairingState) (verification : Option String)
  | beginDisconnect (id : String)
  | finishDisconnect (id : String)
  | beginExit (id : String)
  | cleanExitRows (id : String)
  | completeExit (id : String)
  | removeFolder (id : String)
  | addTransfer (staged : StagedFile) (folder : String) (now : Nat)
  | commitAuto (folder revision : String) (unmetered : Bool) (staged : StagedFile) (now : Nat)
  | commitDirectory (folder revision : String) (unmetered : Bool) (path : String)
      (staged : StagedFile) (now : Nat)
  | assign (id workId : String)
  | pause (id : String)
  | enable (folder tree name revision : String) (unmetered startImmediately : Bool)
  | startPrepared (folder : String) (unmetered : Bool)
  | confirm (folder tree name revision : String) (unmetered : Bool) (floor : Nat)
  | disable (folder : String) (reason : Option String)
  | makeManual (id : String)
  | resume (folder tree revision : String) (unmetered : Bool)
  | receipts (folder : String) (entries : List Receipt) (floor : Nat)
  /-- A worker reads its row. -/
  | doWork (workId id : String)
  /-- A worker reports with `updateOwned`. -/
  | updateOwned (worker : Worker) (status : TransferStatus) (uploaded : Option Nat)
      (error delivery : Option String)
  /-- A worker finds the access to its enabled source revoked. -/
  | loseAccess (worker : Worker)
  /-- It pauses the source. -/
  | pauseIfCurrent (worker : Worker)
  deriving DecidableEq, Repr

/-- The worker that takes a step. -/
def PhoneStep.worker : PhoneStep → Option Worker
  | .updateOwned w _ _ _ _ => some w
  | .loseAccess w => some w
  | .pauseIfCurrent w => some w
  | _ => none

/-- One step of the phone; `none` is an exception before any effect. -/
def Phone.perform (p : Phone) : PhoneStep → Option Phone
  | .createFolder id token pairingState =>
    (p.folders.insert { id, token, pairingState, verification := none, exitPhase := none }).map
      fun folders => { p with folders }
  | .saveFolder id token pairingState =>
    if p.connectionOpen id then
      some (p.updateFolders (fun f => f.id == id && !f.connectionClosed)
        (fun f => { f with
          token := token.getD f.token, pairingState := pairingState.getD f.pairingState })
        fun _ => rfl)
    else none
  | .pairingResult id state verification =>
    if state = .awaitingPeer ∨ state = .awaitingConfirmation ∨ state = .ready then
      some (p.updateFolders (fun f => f.id == id && !f.connectionClosed)
        (fun f => { f with pairingState := state, verification }) fun _ => rfl)
    else none
  | .beginDisconnect id => if (p.folder id).isSome then some (p.beginDisconnect id) else none
  | .finishDisconnect id =>
    if (p.folder id).any fun f => f.exitPhase.isNone && f.connectionClosed then
      some (p.updateFolders (fun f => f.id == id && f.exitPhase.isNone && f.connectionClosed)
        (fun f => { f with pairingState := .disconnected, token := "", verification := none })
        fun _ => rfl)
    else none
  | .beginExit id =>
    some (p.updateFolders (·.id == id)
      (fun f => { f with
        exitPhase := some (f.exitPhase.getD .pending), pairingState := .disconnectPending })
      fun _ => rfl)
  | .cleanExitRows id =>
    some ({ p with
      transfers := p.transfers.delete (·.folderId == id)
      sources := p.sources.delete (·.folderId == id) }.updateFolders (·.id == id)
        (fun f => { f with exitPhase := some .localCleaned }) fun _ => rfl)
  | .completeExit id =>
    some (p.updateFolders (·.id == id)
      (fun f => { f with
        exitPhase := some .complete, pairingState := .disconnected, token := ""
        verification := none }) fun _ => rfl)
  | .removeFolder id =>
    -- A folder that is not scoped may still be awaiting its disconnection.
    if (p.folder id).any fun f =>
        (f.exitPhase.isNone || f.exitPhase == some .complete) && f.connectionClosed then
      some { p with
        transfers := p.transfers.delete (·.folderId == id)
        sources := p.sources.delete (·.folderId == id)
        folders := p.folders.delete (·.id == id) }
    else none
  | .addTransfer staged folder now => p.insertTransfer staged folder now none false none
  | .commitAuto folder revision unmetered staged now =>
    if p.active folder revision then
      p.insertTransfer staged folder now (some revision) unmetered none
    else none
  | .commitDirectory folder revision unmetered path staged now =>
    match p.source folder with
    | some a =>
      if p.active folder revision then
        (p.insertTransfer staged folder now (some revision) unmetered
          (some (path, a.nextVersion))).map fun p =>
            p.updateSources (·.folderId == folder)
              (fun a => { a with nextVersion := a.nextVersion + 1 }) fun _ => rfl
      else none
    | none => none
  | .assign id workId =>
    if (p.transfer id).any fun t => t.status != .uploaded && p.allowed t then
      some (p.updateTransfers (fun t => t.id == id && t.status != .uploaded && p.allowed t)
        (fun t => { t with workId, status := .queued, error := none }) fun _ => rfl)
    else none
  | .pause id =>
    some (p.updateTransfers (fun t => t.id == id && moving t)
      (fun t => { t with workId := "", status := .paused }) fun _ => rfl)
  | .enable folder tree name revision unmetered startImmediately =>
    p.enable folder tree name revision unmetered startImmediately
  | .startPrepared folder unmetered => p.startPrepared folder unmetered
  | .confirm folder tree name revision unmetered floor =>
    p.confirm folder tree name revision unmetered floor
  | .disable folder reason => some (p.disable folder reason)
  | .makeManual id =>
    -- A directory transfer is left as it is.
    if (p.transfer id).any fun t => t.relativePath.isNone && p.connectionOpen t.folderId then
      some (p.updateTransfers
        (fun t => t.id == id && (t.status == .paused || t.status == .failed) &&
          p.connectionOpen t.folderId)
        (fun t => { t with autoRevision := none, autoUnmetered := false }) fun _ => rfl)
    else none
  | .resume folder tree revision unmetered => p.resume folder tree revision unmetered
  | .receipts folder entries floor => some (p.receipts folder entries floor)
  | .doWork workId id =>
    match p.transfer id with
    | some t =>
      if t.status ≠ .uploaded ∧ t.workId = workId ∧ p.allowed t then
        some { p with workers := ⟨workId, t⟩ :: p.workers }
      else none
    | none => none
  | .updateOwned worker status uploaded error delivery =>
    if worker ∈ p.workers then
      some (p.updateTransfers
        (fun t => t.id == worker.transfer.id && t.workId == worker.workId &&
          t.status != .uploaded && p.allowed t)
        (fun t => { t with
          status, uploaded := uploaded.getD t.uploaded
          error := error.map fun e => String.ofList (e.toList.take 1000)
          deliveryId := delivery.orElse fun _ => t.deliveryId }) fun _ => rfl)
    else none
  | .loseAccess worker =>
    if worker ∈ p.workers ∧
        worker.transfer.autoRevision.any fun r => p.active worker.transfer.folderId r then
      some { p with denied := worker :: p.denied }
    else none
  | .pauseIfCurrent worker =>
    if worker ∈ p.denied then
      some (p.disable worker.transfer.folderId
        (some "Source access was revoked. Choose the directory again to enable Auto."))
    else none

end MiRelay.Android
