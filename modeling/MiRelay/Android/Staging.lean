import MiRelay.Core.Run
import MiRelay.Core.Table
import MiRelay.Protocol

/-!
# The private staging area of the Android client

`FileImporter` stages a file in a directory of its own, marked with the folder
it belongs to before any payload is written; upload workers keep their resume
files there; `FolderExit` removes the directories of one folder. A step is one
durable file operation or one transaction, and the process may die after any.
Thumbnails and access grants are left out.
-/

namespace MiRelay.Android

/-- `UUID.fromString(s).toString() == s`. -/
def isUuid (s : String) : Bool :=
  match parseHyphenated s.toList with
  | some hex => hyphenate hex == s.toList
  | none => false

/-- The names in a staging directory. -/
def markerName : String := "folder-owner"

def partName : String := "payload.part"

def payloadName : String := "payload"

def stagedNames : List String := [markerName, partName, payloadName]

/-- Where a staging stands; the last four are its `finally` block. -/
inductive StagingStage
  | made
  | marking
  | marked
  | copying
  | copied
  | failed
  | partGone
  | payloadGone
  | markerGone
  deriving DecidableEq, Repr

structure Staging where
  folder : String
  stage : StagingStage
  deriving DecidableEq, Repr

/-- The staging area, the rows that refer to it and the work that a process death loses. -/
structure StagingArea where
  /-- Every folder so far; a folder that is closed is not opened again. -/
  folders : List String
  closed : List String
  dirs : Files String (Files String String)
  /-- The identities of the transfers with their folders. -/
  transfers : List (String × String)
  /-- Automatic sources and previews: the folder and the tree. -/
  sources : List (String × String)
  previews : List (String × String)
  /-- The random identities drawn so far, with the folder each was drawn for. -/
  drawn : List (String × String)
  stagings : Files String Staging
  /-- The cleanup that holds the work gate, with the directories it has found. -/
  cleaning : Option (String × List String)

namespace StagingArea

/-- The area of a new installation. -/
def initial : StagingArea := ⟨[], [], ∅, [], [], [], [], ∅, none⟩

/-- `connectionOpen`. -/
def isOpen (s : StagingArea) (folder : String) : Bool :=
  decide (folder ∈ s.folders) && decide (folder ∉ s.closed)

/-- The folder of a queued transfer. -/
def known (s : StagingArea) (id : String) : Option String :=
  (s.transfers.find? (·.1 == id)).map (·.2)

def setDir (s : StagingArea) (id : String) (files : Files String String) : StagingArea :=
  { s with dirs := s.dirs.insert id files }

def setStaging (s : StagingArea) (id : String) (r : Staging) : StagingArea :=
  { s with stagings := s.stagings.insert id r }

/-- What `cleanupTransfers` asks of one directory; whether it belongs to the folder. -/
def inspect (s : StagingArea) (folder id : String) : Option Bool :=
  if isUuid id = false then none
  else match s.dirs.lookup id with
    | none => some false
    | some files =>
      match files.lookup markerName with
      | some owner =>
        if owner.length = 36 ∧ isUuid owner = true ∧ (s.known id = none ∨ s.known id = some owner) then
          some (owner == folder)
        else none
      | none =>
        if s.known id = none ∧ files.keys.any (fun name =>
            !(name == "resume.json.lock" && files.lookup name == some "") &&
              (name == payloadName || name == partName ||
                "resume.json".toList.isPrefixOf name.toList)) then none
        else some false

/-- `cleanupTransfers`: the directories of a folder, unless some entry needs review. -/
def cleanupTransfers (s : StagingArea) (folder : String) : Option (List String) :=
  if s.dirs.keys.all fun id => (s.inspect folder id).isSome then
    some ((s.transfers.filter (·.2 == folder)).map (·.1) ++
      s.dirs.keys.filter fun id => s.inspect folder id == some true)
  else none

/-- `removeRegular` of one file of a directory. -/
def removeFile (s : StagingArea) (id name : String) : StagingArea :=
  match s.dirs.lookup id with
  | some files => s.setDir id (files.erase name)
  | none => s

/-- The removal of an empty directory; a missing one is gone already. -/
def removeDir (s : StagingArea) (id : String) : Option StagingArea :=
  match s.dirs.lookup id with
  | some files => if files.keys = [] then some { s with dirs := s.dirs.erase id } else none
  | none => some s

/-- The files of a directory with the marker last. -/
def removalOrder (s : StagingArea) (id : String) : List String :=
  match s.dirs.lookup id with
  | some files =>
    files.keys.filter (· != markerName) ++ files.keys.filter (· == markerName)
  | none => []

/-- One owned directory, as `cleanLocal` removes it. -/
def removeOwned (s : StagingArea) (id : String) : Option StagingArea :=
  ((s.removalOrder id).foldl (fun s name => s.removeFile id name) s).removeDir id

/-- The transaction at the end of `cleanLocal`. -/
def deleteRows (s : StagingArea) (folder : String) : StagingArea :=
  { s with
    transfers := s.transfers.filter (·.2 != folder)
    sources := s.sources.filter (·.1 != folder)
    previews := s.previews.filter (·.1 != folder) }

/-- `cleanLocal` without interruption. -/
def cleanLocal (s : StagingArea) (folder : String) : Option StagingArea := do
  let owned ← s.cleanupTransfers folder
  let s ← owned.foldlM removeOwned s
  return s.deleteRows folder

end StagingArea

/-- One step of the app, or the death of its process. -/
inductive StagingStep
  | addFolder (folder : String)
  | closeFolder (folder : String)
  | putSource (folder tree : String)
  | putPreview (folder tree : String)
  /-- `removeFolder` leaves the files. -/
  | removeFolder (folder : String)
  | make (id folder : String)
  | createMarker (id : String)
  /-- So many characters of the marker are written. -/
  | writeMarker (id : String) (n : Nat)
  | createPart (id : String)
  | writePart (id bytes : String)
  | rename (id : String)
  | commit (id : String)
  | fail (id : String)
  /-- The deletions of the `finally` block, each of which may fail. -/
  | dropPart (id : String) (ok : Bool)
  | dropPayload (id : String) (ok : Bool)
  | dropMarker (id : String) (ok : Bool)
  | dropDir (id : String) (ok : Bool)
  /-- An upload writes one of its own files, or removes a file after its completion. -/
  | uploadWrite (id name bytes : String)
  | uploadRemove (id name : String)
  | cleanupBegin (folder : String)
  | cleanupFile (id name : String)
  | cleanupDir (id : String)
  | cleanupRows
  | cleanupFail
  | death
  deriving DecidableEq, Repr

namespace StagingArea

/-- The running staging of an identity in a stage, with the files of its directory. -/
def running (s : StagingArea) (id : String) (stage : StagingStage) :
    Option (Staging × Files String String) := do
  let r ← s.stagings.lookup id
  let files ← s.dirs.lookup id
  if r.stage = stage then some (r, files) else none

/-- One step; none when it is not possible. -/
def perform (s : StagingArea) : StagingStep → Option StagingArea
  | .addFolder folder =>
    if folder ∈ s.folders ∨ isUuid folder = false then none
    else some { s with folders := folder :: s.folders }
  | .closeFolder folder =>
    if folder ∈ s.folders then some { s with closed := folder :: s.closed } else none
  | .putSource folder tree =>
    if s.isOpen folder then some { s with sources := (folder, tree) :: s.sources } else none
  | .putPreview folder tree =>
    if s.isOpen folder then some { s with previews := (folder, tree) :: s.previews } else none
  | .removeFolder folder =>
    if s.isOpen folder ∨ s.cleaning.any (·.1 == folder) then none
    else some { s with transfers := s.transfers.filter (·.2 != folder) }
  | .make id folder =>
    if s.cleaning = none ∧ isUuid folder ∧ s.isOpen folder ∧ isUuid id ∧
        (∀ d ∈ s.drawn, d.1 ≠ id) then
      some ((({ s with drawn := (id, folder) :: s.drawn }).setDir id ∅).setStaging id
        ⟨folder, .made⟩)
    else none
  | .createMarker id =>
    (s.running id .made).map fun (r, files) =>
      (s.setDir id (files.insert markerName "")).setStaging id { r with stage := .marking }
  | .writeMarker id n =>
    (s.running id .marking).map fun (r, files) =>
      let written := String.ofList (r.folder.toList.take n)
      (s.setDir id (files.insert markerName written)).setStaging id
        { r with stage := if written = r.folder then .marked else .marking }
  | .createPart id =>
    (s.running id .marked).map fun (r, files) =>
      (s.setDir id (files.insert partName "")).setStaging id { r with stage := .copying }
  | .writePart id bytes =>
    (s.running id .copying).map fun (r, files) =>
      (s.setDir id (files.insert partName ((files.lookup partName).getD "" ++ bytes))).setStaging id
        { r with stage := .copying }
  | .rename id =>
    (s.running id .copying).map fun (r, files) =>
      (s.setDir id ((files.erase partName).insert payloadName
        ((files.lookup partName).getD ""))).setStaging id { r with stage := .copied }
  | .commit id => do
    let (r, _) ← s.running id .copied
    if s.isOpen r.folder then
      some { s with
        transfers := (id, r.folder) :: s.transfers
        stagings := s.stagings.erase id }
    else none
  | .fail id =>
    (s.stagings.lookup id).bind fun r =>
      if r.stage ∈ [.made, .marking, .marked, .copying, .copied] then
        some (s.setStaging id { r with stage := .failed })
      else none
  | .dropPart id ok =>
    (s.running id .failed).map fun (r, files) =>
      (s.setDir id (if ok then files.erase partName else files)).setStaging id
        { r with stage := .partGone }
  | .dropPayload id ok =>
    (s.running id .partGone).map fun (r, files) =>
      (s.setDir id (if ok then files.erase payloadName else files)).setStaging id
        { r with stage := .payloadGone }
  | .dropMarker id ok =>
    (s.running id .payloadGone).map fun (r, files) =>
      -- The marker goes only after the payload is gone.
      (s.setDir id (if ok = true ∧ files.lookup partName = none ∧ files.lookup payloadName = none then
        files.erase markerName else files)).setStaging id { r with stage := .markerGone }
  | .dropDir id ok =>
    (s.running id .markerGone).map fun (_, files) =>
      { s with
        dirs := if ok = true ∧ files.keys = [] then s.dirs.erase id else s.dirs
        stagings := s.stagings.erase id }
  | .uploadWrite id name bytes =>
    (s.dirs.lookup id).bind fun files =>
      if s.cleaning = none ∧ (s.known id).any s.isOpen ∧ name ∉ stagedNames then
        some (s.setDir id (files.insert name bytes))
      else none
  | .uploadRemove id name =>
    (s.dirs.lookup id).bind fun files =>
      if s.cleaning = none ∧ (s.known id).any s.isOpen ∧ name ≠ markerName then
        some (s.setDir id (files.erase name))
      else none
  | .cleanupBegin folder =>
    if s.cleaning = none ∧ s.stagings.keys = [] ∧ folder ∈ s.closed then
      (s.cleanupTransfers folder).map fun owned => { s with cleaning := some (folder, owned) }
    else none
  | .cleanupFile id name =>
    s.cleaning.bind fun (_, owned) =>
      (s.dirs.lookup id).bind fun files =>
        if id ∈ owned ∧ (name = markerName → ∀ other ∈ files.keys, other = markerName) then
          some (s.removeFile id name)
        else none
  | .cleanupDir id =>
    s.cleaning.bind fun (_, owned) => if id ∈ owned then s.removeDir id else none
  | .cleanupRows =>
    s.cleaning.bind fun (folder, owned) =>
      if ∀ id ∈ owned, s.dirs.lookup id = none then
        some { s.deleteRows folder with cleaning := none }
      else none
  | .cleanupFail => some { s with cleaning := none }
  | .death => some { s with stagings := ∅, cleaning := none }

end StagingArea

end MiRelay.Android
