import MiRelay.Android.DirectorySync

/-!
# Automatic sending

`AutoStore`: the enabling of a source with its baseline, the observation of a
listing, the queueing of a file with its receipts, and the error report of a scan.
Scans run at any time and act on the source and the listing they once read; each
call is one transaction. A history records what the calls have done.
-/

namespace MiRelay.Android

/-- `eligible`. -/
def SourceFile.eligible (f : SourceFile) : Bool :=
  (f.size.any fun n : Int => 1 ≤ n && n ≤ maxFileBytes) && f.modified.any fun t : Int => 0 < t

/-- The state of a row of `auto_files`. -/
inductive AutoFileState
  | pending | baseline | staged | duplicate
  deriving DecidableEq, Repr

/-- A row of `auto_files`; its key is the folder and the document. -/
structure AutoFile where
  fingerprint : String
  stableSince : Int
  state : AutoFileState
  transferId : Option String
  error : Option String
  deriving DecidableEq, Repr

/-- `MAX_HISTORY`. -/
def maxHistory : Nat := 50000

/-- A listing of a source: when it was observed and what it showed. -/
structure Listing where
  now : Int
  files : List SourceFile
  deriving DecidableEq, Repr

/-- A file that was queued, or found to be queued under another document. -/
structure AutoCommit where
  folder : String
  revision : String
  document : String
  sha256 : String
  transferId : String
  created : Bool
  deriving DecidableEq, Repr

/-- What the calls have done so far, the last one first. -/
structure AutoHistory where
  /-- The revisions that sources were given. -/
  revisions : List String
  /-- The folder, revision and document of each baseline entry. -/
  baselines : List (String × String × String)
  commits : List AutoCommit
  /-- The listings of each folder since its source was enabled. -/
  listings : Files String (List Listing)
  /-- The time of the last call. -/
  clock : Int

/-- The phone with the tables of automatic sending. -/
structure AutoPhone where
  phone : Phone
  /-- `auto_files`. -/
  files : Files String (Files String AutoFile)
  /-- `auto_hashes`: the transfer of a digest. -/
  hashes : Files (String × String) String
  history : AutoHistory

/-- A phone before its first folder. -/
def AutoPhone.initial : AutoPhone :=
  { phone := .initial, files := ∅, hashes := ∅
    history := { revisions := [], baselines := [], commits := [], listings := ∅, clock := 0 } }

/-- The error of a document that a listing has missed. -/
def unavailable : String := "Source file is unavailable."

/-- The error of a document that cannot be sent. -/
def unsupported : String :=
  "Empty, over 100 MiB, or missing size/modification metadata. Use manual sending if appropriate."

/-- `insertSeen`. -/
def AutoFile.seen (file : SourceFile) (now : Int) (state : AutoFileState) : AutoFile :=
  { fingerprint := file.fingerprint, stableSince := now, state, transferId := none, error := none }

/-- The rows of a folder during `observe`, with the files that are ready and the rows added. -/
structure Observing where
  rows : Files String AutoFile
  ready : List SourceFile
  added : Nat

namespace Observing

/-- The last update of a listed file: one that cannot be sent gets its error. -/
def flag (st : Observing) (file : SourceFile) : Observing :=
  if file.eligible then st
  else
    match st.rows.lookup file.documentId with
    | some row =>
      if row.state = .pending then
        { st with rows := st.rows.insert file.documentId { row with error := some unsupported } }
      else st
    | none => st

/-- One file of `observe`, with `count` rows before the first. -/
def file (count : Nat) (now : Int) (st : Observing) (file : SourceFile) : Option Observing :=
  match st.rows.lookup file.documentId with
  | none =>
    if count + (st.added + 1) ≤ maxHistory then
      some ({ st with
        rows := st.rows.insert file.documentId (.seen file now .pending)
        added := st.added + 1 }.flag file)
    else none
  | some row =>
    if row.state = .pending then
      if row.fingerprint ≠ file.fingerprint ∨ now < row.stableSince ∨ row.error = some unavailable then
        some ({ st with
          rows := st.rows.insert file.documentId
            { row with fingerprint := file.fingerprint, stableSince := now, error := none } }.flag file)
      else if file.eligible ∧ stableMillis ≤ longSub now row.stableSince then
        some ({ st with ready := st.ready ++ [file] }.flag file)
      else some (st.flag file)
    else some (st.flag file)

end Observing

namespace AutoPhone

variable (p : AutoPhone)

/-- The rows of a folder. -/
def rows (folder : String) : Files String AutoFile := (p.files.lookup folder).getD ∅

/-- The listings of a folder. -/
def listings (folder : String) : List Listing := (p.history.listings.lookup folder).getD []

/-- `enable`, with the `revision` it draws. -/
def enable (folder tree name revision : String) (unmetered : Bool) (files : List SourceFile)
    (now : Int) (includeExisting startImmediately : Bool) : Option AutoPhone :=
  if files.length ≤ maxEntries ∧ (files.map (·.documentId)).Nodup then
    (p.phone.enable folder tree name revision unmetered startImmediately).map fun phone =>
      { p with
        phone
        files := p.files.insert folder (Files.insertAll ∅ (·.documentId)
          (fun file => .seen file now (if includeExisting then .pending else .baseline)) files)
        history := { p.history with
          revisions := revision :: p.history.revisions
          baselines :=
            (if includeExisting then []
            else files.map fun file => (folder, revision, file.documentId)) ++ p.history.baselines
          -- Existing files that are to be sent were listed here.
          listings := p.history.listings.insert folder
            (if includeExisting then [{ now, files }] else [])
          clock := now } }
  else none

/-- The transaction of `observe`, with the files that are ready. -/
def observe (source : AutoSource) (files : List SourceFile) (now : Int) :
    Option (AutoPhone × List SourceFile) :=
  if p.phone.active source.folderId source.revision then
    let rows := p.rows source.folderId
    let start : Observing := { rows, ready := [], added := 0 }
    (files.foldlM (Observing.file rows.keys.length now) start).map fun st =>
      let present := files.map (·.documentId)
      -- A disappeared pending identity must be observed stably again if it returns.
      let missing := st.rows.modify fun document row =>
        if row.state = .pending ∧ document ∉ present then
          { row with stableSince := now, error := some unavailable }
        else row
      ({ p with
        files := p.files.insert source.folderId missing
        history := { p.history with
          listings := p.history.listings.insert source.folderId
            ({ now, files } :: p.listings source.folderId)
          clock := now } }, st.ready)
  else none

/-- The row after a commit, with its receipt. -/
def receipt (source : AutoSource) (file : SourceFile) (sha256 transferId : String) (created : Bool)
    (row : AutoFile) : AutoPhone :=
  { p with
    files := p.files.insert source.folderId ((p.rows source.folderId).insert file.documentId
      { row with
        state := if created then .staged else .duplicate
        transferId := some transferId, error := none })
    history := { p.history with
      commits :=
        { folder := source.folderId, revision := source.revision, document := file.documentId
          sha256, transferId, created } :: p.history.commits } }

/-- The transaction of `commit`. -/
def commit (source : AutoSource) (file : SourceFile) (staged : StagedFile) (createdAt : Nat) :
    Option AutoPhone :=
  if p.phone.active source.folderId source.revision then
    match (p.rows source.folderId).lookup file.documentId with
    | none => some p
    | some row =>
      if row.fingerprint = file.fingerprint ∧ row.state = .pending then
        match p.hashes.lookup (source.folderId, staged.sha256) with
        | some transferId => some (p.receipt source file staged.sha256 transferId false row)
        | none =>
          (p.phone.perform (.commitAuto source.folderId source.revision source.unmetered staged
            createdAt)).map fun phone =>
              { p with
                phone
                hashes := p.hashes.insert (source.folderId, staged.sha256) staged.id }.receipt
                source file staged.sha256 staged.id true row
      else some p
  else some p

/-- The update of `fileError`; its check before is a read that may be out of date. -/
def fileError (source : AutoSource) (file : SourceFile) (message : String) (now : Int) : AutoPhone :=
  let p := { p with history := { p.history with clock := now } }
  if p.phone.sources.rows.any fun a =>
      a.folderId == source.folderId && a.revision == source.revision && a.enabled then
    match (p.rows source.folderId).lookup file.documentId with
    | none => p
    | some row =>
      if row.fingerprint = file.fingerprint ∧ row.state = .pending then
        { p with
          files := p.files.insert source.folderId ((p.rows source.folderId).insert file.documentId
            { row with error := some message, stableSince := now }) }
      else p
  else p

end AutoPhone

/-- A call of `AutoStore`, or a step of the rest of the phone. -/
inductive AutoCall
  | enable (folder tree name revision : String) (unmetered : Bool) (files : List SourceFile)
      (now : Int) (includeExisting startImmediately : Bool)
  | startPrepared (folder : String) (unmetered : Bool)
  | disable (folder : String) (reason : Option String)
  | observe (source : AutoSource) (files : List SourceFile) (now : Int)
  | commit (source : AutoSource) (file : SourceFile) (staged : StagedFile) (createdAt : Nat)
  | fileError (source : AutoSource) (file : SourceFile) (message : String) (now : Int)
  | phone (step : PhoneStep)
  deriving DecidableEq, Repr

/-- The steps of the phone that neither replace a source nor delete transfers, besides the calls
above. -/
def PhoneStep.besides : PhoneStep → Bool
  | .createFolder .. | .saveFolder .. | .pairingResult .. | .beginDisconnect _
  | .finishDisconnect _ | .beginExit _ | .addTransfer .. | .assign .. | .pause _ | .makeManual _
  | .doWork .. | .updateOwned .. | .loseAccess _ | .pauseIfCurrent _ => true
  | _ => false

/-- One call that goes through; `none` is an exception, which has no effect. -/
def AutoPhone.perform (p : AutoPhone) : AutoCall → Option AutoPhone
  | .enable folder tree name revision unmetered files now includeExisting startImmediately =>
    p.enable folder tree name revision unmetered files now includeExisting startImmediately
  | .startPrepared folder unmetered =>
    (p.phone.startPrepared folder unmetered).map fun phone => { p with phone }
  | .disable folder reason => some { p with phone := p.phone.disable folder reason }
  | .observe source files now => (p.observe source files now).map (·.1)
  | .commit source file staged createdAt => p.commit source file staged createdAt
  | .fileError source file message now => some (p.fileError source file message now)
  | .phone step =>
    if step.besides then (p.phone.perform step).map fun phone => { p with phone } else none

/-- The source of a folder whose photos are sent. -/
def autoSource : AutoSource :=
  { folderId := "folder", treeUri := "content://tree", name := "Photos", revision := "r1"
    enabled := true, unmetered := false, error := none, prepared := false, directorySync := false
    nextVersion := 1 }

/-- A photo under a document id. -/
def autoPhoto (documentId : String) : SourceFile :=
  { documentId, name := "a.jpg", size := some 3, modified := some 1, relativePath := "a.jpg" }

end MiRelay.Android
