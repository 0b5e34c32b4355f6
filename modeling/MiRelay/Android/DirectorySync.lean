import Mathlib
import MiRelay.Android.RelayStore
import MiRelay.Directory.Inventory

/-!
# Directory sync on the phone

`DirectorySyncStore`: the preview of an initialization, its confirmation, the
observation of the source, the queueing of a version and the receipts of the
relay. Each is one transaction; one that throws has no effect. The size of a
preview is not modelled, one refused for it has no effect either.
-/

namespace MiRelay.Android

/-- `FileFilter`. -/
inductive FileFilter
  | all | images
  deriving DecidableEq, Repr

structure SkippedFile where
  path : String
  reason : String
  fingerprint : String
  deriving DecidableEq, Repr

structure SourceFile where
  documentId : String
  name : String
  size : Option Int
  modified : Option Int
  relativePath : String
  deriving DecidableEq, Repr

/-- `fingerprint`. -/
def SourceFile.fingerprint (f : SourceFile) : String :=
  (f.size.map toString).getD "null" ++ ":" ++ (f.modified.map toString).getD "null" ++ ":" ++ f.name

structure HashedSource where
  file : SourceFile
  sha256 : String
  deriving DecidableEq, Repr

/-- One object of `snapshotJson`. -/
structure SnapshotEntry where
  documentId : String
  path : String
  fingerprint : String
  sha256 : String
  size : Option Int
  deriving DecidableEq, Repr

/-- `snapshotJson`. -/
def snapshot (files : List HashedSource) : List SnapshotEntry :=
  (files.map fun v => ⟨v.file.documentId, v.file.relativePath, v.file.fingerprint, v.sha256,
    v.file.size⟩).insertionSort fun a b => a.path ≤ b.path

/-- The state of a row of `directory_files`. -/
inductive FileState
  | pending | clean | excluded
  deriving DecidableEq, Repr

/-- A row of `directory_files`. -/
structure DirectoryFile where
  folderId : String
  path : String
  documentId : String
  fingerprint : String
  /-- The digest that was last confirmed or queued. -/
  sha256 : Option String
  observedSha : String
  stableSince : Int
  state : FileState
  error : Option String
  deriving DecidableEq, Repr

def DirectoryFile.clash (a b : DirectoryFile) : Bool := a.folderId == b.folderId && a.path == b.path

/-- A row of `directory_previews`. -/
structure PreviewRow where
  folderId : String
  id : String
  treeUri : String
  name : String
  scope : String
  source : List SnapshotEntry
  remote : DirectoryState
  comparison : Comparison
  fileFilter : FileFilter
  skipped : List SkippedFile
  deriving DecidableEq, Repr

/-- The phone with the tables of directory sync. -/
structure DirectoryPhone where
  phone : Phone
  files : Table DirectoryFile DirectoryFile.clash
  previews : Files String PreviewRow
  /-- The column `file_filter` of the sources. -/
  filters : Files String FileFilter

def DirectoryPhone.initial : DirectoryPhone := ⟨.initial, .empty, ∅, ∅⟩

namespace DirectoryPaths

/-- `Char.isWhitespace` of the JVM. -/
def isWhitespace (c : Char) : Bool :=
  (9 ≤ c.toNat && c.toNat ≤ 13) || (0x1c ≤ c.toNat && c.toNat ≤ 0x20) ||
    (0x2000 ≤ c.toNat && c.toNat ≤ 0x200a) ||
    [0xa0, 0x1680, 0x2028, 0x2029, 0x202f, 0x205f, 0x3000].contains c.toNat

/-- Comparison of a character with a lowercase ASCII one under `ignoreCase`: by the uppercase
forms and the lowercase forms of these, which agree for two more letters with `i`. -/
def matchesIgnoreCase (c lower : Char) : Bool :=
  c.toLower == lower || (lower == 'i' && (c.toNat == 0x130 || c.toNat == 0x131))

/-- `startsWith(".mirelay", ignoreCase = true)`. -/
def startsReserved (part : List Char) : Bool :=
  (part.take 8).length == 8 &&
    ((part.take 8).zip ".mirelay".toList).all fun (c, lower) => matchesIgnoreCase c lower

/-- One part of a relative path. -/
def validPart (part : List Char) : Bool :=
  !part.all isWhitespace && part ≠ ['.'] && part ≠ ['.', '.'] && utf8Len part ≤ 255 &&
    !part.any isControl && !part.contains ':' && !startsReserved part

/-- `DirectoryPaths.validate`. -/
def validate (path : String) : Result Unit := do
  ensure (path.toList ≠ [] && utf8Len path.toList ≤ 1024 && !path.toList.contains '\\')
    "Unsupported relative file path."
  ensure ((components path).length ≤ 17) "Directory nesting exceeds 16 levels."
  ensure ((components path).all validPart)
    "Unsafe, reserved or ambiguous filename. Rename it before initializing."

end DirectoryPaths

/-- `Long.MAX_VALUE`. -/
def longMax : Nat := 2 ^ 63 - 1

/-- A difference of two `Long`s. -/
def longSub (a b : Int) : Int := (a - b).bmod (2 ^ 64)

/-- `STABLE_MILLIS`. -/
def stableMillis : Int := 10000

/-- `floor`: the version after the greatest one that the relay lists. -/
def floor (remote : DirectoryState) : Option Nat :=
  let maximum := remote.entries.foldl (fun m entry => max m entry.version) 0
  if maximum < longMax - 1 then some (maximum + 1) else none

namespace DirectoryPhone

variable (s : DirectoryPhone)

/-- The row of a path. -/
def file (folder path : String) : Option DirectoryFile :=
  s.files.rows.find? fun f => f.folderId == folder && f.path == path

/-- `UPDATE directory_files SET … WHERE …`. -/
def updateFiles (selected : DirectoryFile → Bool) (change : DirectoryFile → DirectoryFile)
    (h : ∀ f, (change f).folderId = f.folderId ∧ (change f).path = f.path) : DirectoryPhone :=
  { s with
    files := s.files.update (fun f => if selected f then change f else f)
      (by intro a b; dsimp only [DirectoryFile.clash]; split <;> split <;> simp [h]) }

/-- `requireFilterChange`. -/
def filterChanges (folder : String) (filter : FileFilter) : Bool :=
  (s.phone.source folder).all fun a =>
    !a.directorySync || (s.filters.lookup folder).getD .all != filter

/-- `savePreview`, with the checks of `requirePreviewAllowed`. -/
def savePreview (folder scope id tree name : String) (files : List HashedSource)
    (remote : DirectoryState) (diff : Comparison) (filter : FileFilter)
    (skipped : List SkippedFile) : Option DirectoryPhone :=
  if s.phone.connectionOpen folder ∧
      !(s.phone.source folder).any (fun a => a.enabled || (a.directorySync && a.treeUri != tree)) ∧
      s.filterChanges folder filter then
    some { s with
      previews := s.previews.insert folder
        { folderId := folder, id, treeUri := tree, name, scope, source := snapshot files, remote
          comparison := diff, fileFilter := filter, skipped } }
  else none

/-- One file of `confirm`. -/
def confirmFile (folder : String) (changed : List String) (now : Int) (s : DirectoryPhone)
    (value : HashedSource) : Option DirectoryPhone :=
  match DirectoryPaths.validate value.file.relativePath with
  | .error _ => none
  | .ok _ =>
    let row : DirectoryFile :=
      { folderId := folder, path := value.file.relativePath
        documentId := value.file.documentId, fingerprint := value.file.fingerprint
        sha256 := if value.file.relativePath ∈ changed then none else some value.sha256
        observedSha := value.sha256, stableSince := longSub now stableMillis
        state := if value.file.relativePath ∈ changed then .pending else .clean, error := none }
    match s.files.insert row with
    | some files => some { s with files }
    | none =>
      some (s.updateFiles (fun f => f.folderId == folder && f.path == value.file.relativePath)
        (fun f => { row with folderId := f.folderId, path := f.path }) fun _ => ⟨rfl, rfl⟩)

/-- `confirm`, with the `revision` it draws. -/
def confirm (folder scope previewId tree revision : String) (files : List HashedSource)
    (remote : DirectoryState) (unmetered : Bool) (now : Int) (filter : FileFilter)
    (skipped : List SkippedFile) : Option DirectoryPhone := do
  let preview ← s.previews.lookup folder
  let floor ← floor remote
  let historical := (s.files.rows.filter (·.folderId == folder)).map (·.path)
  if s.filterChanges folder filter ∧ preview.id = previewId ∧ preview.treeUri = tree ∧
      preview.scope = scope ∧ preview.source = snapshot files ∧ preview.remote = remote ∧
      preview.fileFilter = filter ∧ preview.skipped = skipped ∧
      (historical ++ files.map (·.file.relativePath)).dedup.length ≤ maxEntries then
    let phone ← s.phone.confirm folder tree preview.name revision unmetered floor
    let changed := preview.comparison.missing ++ preview.comparison.different
    let s := { s with phone, filters := s.filters.insert folder filter }
    -- Excluded paths keep their history.
    let s := s.updateFiles (·.folderId == folder)
      (fun f => { f with state := .excluded, error := none }) fun _ => ⟨rfl, rfl⟩
    let s ← files.foldlM (confirmFile folder changed now) s
    some { s with previews := s.previews.erase folder }
  else none

/-- One file of `observe`, with the files that are ready so far. -/
def observeFile (folder : String) (now : Int) (st : DirectoryPhone × List HashedSource)
    (value : HashedSource) : Option (DirectoryPhone × List HashedSource) :=
  match DirectoryPaths.validate value.file.relativePath with
  | .error _ => none
  | .ok _ =>
    match st.1.file folder value.file.relativePath with
    | none =>
      if (st.1.files.rows.filter (·.folderId == folder)).length + 1 ≤ maxEntries then
        (st.1.files.insert
          { folderId := folder, path := value.file.relativePath
            documentId := value.file.documentId, fingerprint := value.file.fingerprint
            sha256 := none, observedSha := value.sha256, stableSince := now, state := .pending
            error := none }).map fun files => ({ st.1 with files }, st.2)
      else none
    | some row =>
      let clean := row.sha256 = some value.sha256
      let stable := row.observedSha = value.sha256 ∧ row.stableSince ≤ now ∧
        row.error ≠ some "Source file is unavailable."
      some (st.1.updateFiles (fun f => f.folderId == folder && f.path == value.file.relativePath)
          (fun f => { f with
            documentId := value.file.documentId, fingerprint := value.file.fingerprint
            observedSha := value.sha256, stableSince := if stable then f.stableSince else now
            state := if clean then .clean else .pending, error := none }) fun _ => ⟨rfl, rfl⟩,
        if ¬clean ∧ stable ∧ stableMillis ≤ longSub now row.stableSince then st.2 ++ [value]
        else st.2)

/-- `observe`, with the files that are ready. -/
def observe (source : AutoSource) (files : List HashedSource) (now : Int) :
    Option (DirectoryPhone × List HashedSource) := do
  let paths := files.map (·.file.relativePath)
  if files.length ≤ maxEntries ∧ paths.Nodup ∧ source.directorySync ∧
      s.phone.active source.folderId source.revision then
    let (s, ready) ← files.foldlM (observeFile source.folderId now) (s, [])
    some (s.updateFiles
      (fun f => f.folderId == source.folderId && f.state == .pending && f.path ∉ paths)
      (fun f => { f with stableSince := now, error := some "Source file is unavailable." })
      fun _ => ⟨rfl, rfl⟩, ready)
  else none

/-- `commit`: nothing is queued for a paused source or a file that has changed since. -/
def commit (source : AutoSource) (value : HashedSource) (staged : StagedFile) (createdAt : Nat) :
    Option DirectoryPhone :=
  let path := value.file.relativePath
  if !s.phone.active source.folderId source.revision then some s
  else if staged.sha256 ≠ value.sha256 ∨ some (staged.size : Int) ≠ value.file.size ∨
      staged.name ≠ value.file.name then none
  else if !(s.file source.folderId path).any fun f =>
      f.fingerprint == value.file.fingerprint && f.observedSha == value.sha256 &&
        f.state == .pending then some s
  else do
    let version ← (s.phone.source source.folderId).map (·.nextVersion)
    -- The index `directory_transfer_version`.
    let taken := s.phone.transfers.rows.any fun t => t.folderId == source.folderId &&
      t.relativePath == some path && t.sourceVersion == some version
    if 1 ≤ version ∧ version < longMax ∧ !taken then
      let phone ← s.phone.perform
        (.commitDirectory source.folderId source.revision source.unmetered path staged createdAt)
      some ({ s with phone }.updateFiles (fun f => f.folderId == source.folderId && f.path == path)
        (fun f => { f with sha256 := some value.sha256, state := .clean, error := none })
        fun _ => ⟨rfl, rfl⟩)
    else none

/-- `receipts`. -/
def receipts (folder : String) (remote : DirectoryState) : Option DirectoryPhone := do
  let floor ← floor remote
  if remote.entries.all fun entry => (DirectoryPaths.validate entry.path).isOk then
    let phone ← s.phone.perform (.receipts folder
      (remote.entries.map fun e => ⟨e.path, e.version, e.sha256, e.acknowledged, e.conflict⟩)
      floor)
    some { s with phone }
  else none

/-- `fileError`. -/
def fileError (source : AutoSource) (value : HashedSource) (now : Int) : DirectoryPhone :=
  if s.phone.active source.folderId source.revision then
    s.updateFiles
      (fun f => f.folderId == source.folderId && f.path == value.file.relativePath &&
        f.observedSha == value.sha256 && f.state == .pending)
      (fun f => { f with
        error := some "Source changed or could not be staged. Will retry on the next check."
        stableSince := now }) fun _ => ⟨rfl, rfl⟩
  else s

end DirectoryPhone

/-- A call of `DirectorySyncStore`, or a step of the rest of the phone. -/
inductive DirectoryCall
  | savePreview (folder scope id tree name : String) (files : List HashedSource)
      (remote : DirectoryState) (diff : Comparison) (filter : FileFilter)
      (skipped : List SkippedFile)
  | confirm (folder scope previewId tree revision : String) (files : List HashedSource)
      (remote : DirectoryState) (unmetered : Bool) (now : Int) (filter : FileFilter)
      (skipped : List SkippedFile)
  | resume (folder tree revision : String) (unmetered : Bool)
  | observe (source : AutoSource) (files : List HashedSource) (now : Int)
  | commit (source : AutoSource) (value : HashedSource) (staged : StagedFile) (createdAt : Nat)
  | receipts (folder : String) (remote : DirectoryState)
  | fileError (source : AutoSource) (value : HashedSource) (now : Int)
  | phone (step : PhoneStep)
  deriving DecidableEq, Repr

/-- The steps of the phone that belong to `DirectorySyncStore` or end a folder with its rows. -/
def PhoneStep.reserved : PhoneStep → Bool
  | .confirm .. | .resume .. | .commitDirectory .. | .receipts .. => true
  | .cleanExitRows _ | .removeFolder _ => true
  | _ => false

/-- One call that goes through; `none` is an exception, which has no effect. -/
def DirectoryPhone.perform (s : DirectoryPhone) : DirectoryCall → Option DirectoryPhone
  | .savePreview folder scope id tree name files remote diff filter skipped =>
    s.savePreview folder scope id tree name files remote diff filter skipped
  | .confirm folder scope previewId tree revision files remote unmetered now filter skipped =>
    s.confirm folder scope previewId tree revision files remote unmetered now filter skipped
  | .resume folder tree revision unmetered =>
    (s.phone.resume folder tree revision unmetered).map fun phone => { s with phone }
  | .observe source files now => (s.observe source files now).map (·.1)
  | .commit source value staged createdAt => s.commit source value staged createdAt
  | .receipts folder remote => s.receipts folder remote
  | .fileError source value now => some (s.fileError source value now)
  | .phone step =>
    if step.reserved then none else (s.phone.perform step).map fun phone => { s with phone }

/-- What the callers see to: `refreshReceipts` and `scanDirectory` ask for an initialized
directory before its receipts. -/
def DirectoryPhone.Called (s : DirectoryPhone) : DirectoryCall → Prop
  | .receipts folder _ => (s.phone.source folder).any (·.directorySync) = true
  | _ => True

end MiRelay.Android
