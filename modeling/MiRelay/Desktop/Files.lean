import MiRelay.Client.Sync
import MiRelay.Core.Selection

/-!
# The file view of the desktop client

A page of the saved records under the files being worked on. The history keeps an
index of its records: lowercase names, kinds, and the last position of each
identity. An upsert changes the index with the record; any other edit drops it,
and the next query builds it again.
-/

namespace MiRelay

open Std

/-- `FileActivity`. -/
structure FileActivity where
  id : String
  originalName : String
  mediaType : String
  size : Nat
  phase : Option SyncPhase
  error : Option String
  deriving DecidableEq, Repr

/-- `FileEntry`. -/
inductive FileEntry
  | saved (record : DeliveryRecord)
  | live (activity : FileActivity)
  deriving DecidableEq, Repr

namespace FileEntry

def id : FileEntry → String
  | saved record => record.id
  | live activity => activity.id

def name : FileEntry → String
  | saved record => record.originalName
  | live activity => activity.originalName

def mediaType : FileEntry → String
  | saved record => record.mediaType
  | live activity => activity.mediaType

def size : FileEntry → Nat
  | saved record => record.size
  | live activity => activity.size

def isActive : FileEntry → Bool
  | saved _ => false
  | live activity => activity.phase.isSome

def needsAttention : FileEntry → Bool
  | saved record => record.deliveryError.isSome || record.wallpaperError.isSome ||
      (record.wallpaperStatus matches .failed | .uncertain)
  | live activity => activity.error.isSome

def isPending : FileEntry → Bool
  | saved record => record.deliveryStatus == .ackPending ||
      (record.wallpaperStatus matches .pending | .running)
  | live activity => activity.phase.isSome

def isComplete : FileEntry → Bool
  | saved record => record.deliveryStatus == .acknowledged &&
      (record.wallpaperStatus matches .notApplicable | .notConfigured | .applied) &&
      !(saved record).needsAttention
  | live _ => false

def receivedAt : FileEntry → Nat
  | saved record => record.receivedAtUnix
  | live _ => 0

end FileEntry

inductive FileSort
  | newest
  | oldest
  | nameAsc
  | nameDesc
  | largest
  | smallest
  deriving DecidableEq, Repr

inductive FileFilter
  | all
  | inProgress
  | attention
  | completed
  deriving DecidableEq, Repr

inductive Desktop.FileKind
  | all
  | images
  | documents
  | audio
  | video
  | archives
  | other
  deriving DecidableEq, Repr

/-- `str::starts_with`. -/
def startsWith (s start : String) : Bool := start.toList.isPrefixOf s.toList

/-- `FileKind::of`. -/
def Desktop.FileKind.of (mediaType : String) : Desktop.FileKind :=
  let mime := (trim (String.ofList (mediaType.toList.takeWhile (· ≠ ';')))).map Char.toLower
  if startsWith mime "image/" then .images
  else if startsWith mime "text/" ||
      ["application/pdf", "application/json", "application/xml", "application/rtf",
        "application/msword", "application/vnd.ms-excel",
        "application/vnd.ms-powerpoint"].contains mime ||
      startsWith mime "application/vnd.openxmlformats-officedocument." ||
      startsWith mime "application/vnd.oasis.opendocument." then .documents
  else if startsWith mime "audio/" || mime == "application/ogg" then .audio
  else if startsWith mime "video/" then .video
  else if ["application/zip", "application/x-zip-compressed", "application/x-7z-compressed",
      "application/vnd.rar", "application/x-rar-compressed", "application/gzip",
      "application/x-gzip", "application/x-tar", "application/x-bzip", "application/x-bzip2",
      "application/x-xz", "application/zstd"].contains mime then .archives
  else .other

/-- `Query`. -/
structure Query where
  sort : FileSort
  filter : FileFilter
  kind : Desktop.FileKind
  text : String
  limit : Nat

/-- `Candidate`: an entry with its lowercase name. -/
structure Candidate where
  entry : FileEntry
  nameKey : String
  deriving DecidableEq

namespace Candidate

/-- The order by names. -/
def names (left right : Candidate) : Ordering :=
  (Ord.compare left.nameKey right.nameKey).then (Ord.compare left.entry.name right.entry.name)

/-- The order that is asked for. -/
def byKey (sort : FileSort) (left right : Candidate) : Ordering :=
  match sort with
  | .newest => Ord.compare right.entry.receivedAt left.entry.receivedAt
  | .oldest => Ord.compare left.entry.receivedAt right.entry.receivedAt
  | .nameAsc => names left right
  | .nameDesc => (names left right).swap
  | .largest => Ord.compare right.entry.size left.entry.size
  | .smallest => Ord.compare left.entry.size right.entry.size

/-- `Candidate::compare`. -/
def order (sort : FileSort) (left right : Candidate) : Ordering :=
  (Ord.compare right.entry.isActive left.entry.isActive).then
    (((byKey sort left right).then (names left right)).then
      (Ord.compare left.entry.id right.entry.id))

end Candidate

/-- `FilePage`. -/
structure FilePage where
  entries : List FileEntry
  total : Nat
  deriving DecidableEq

/-- `Prepared`: the index of a list of records. -/
structure Prepared where
  names : List String
  kinds : List Desktop.FileKind
  /-- The last position of an identity. -/
  positions : Files String Nat
  unique : List Nat

/-- A library whose lowercase of a text is a parameter, as are the orders it may choose. -/
structure TextLibrary extends Unstable where
  /-- `str::to_lowercase`. -/
  toLowercase : String → String

section View

variable (lib : TextLibrary)

/-- `Prepared::new`. -/
def Prepared.new (records : List DeliveryRecord) : Prepared :=
  let positions := Files.insertAll ∅ (fun r : DeliveryRecord × Nat => r.1.id) (·.2) records.zipIdx
  { names := records.map fun r => lib.toLowercase r.originalName
    kinds := records.map fun r => Desktop.FileKind.of r.mediaType
    positions
    unique := lib.sortUnstableBy Ord.compare (lib.intoValues positions.values) }

/-- What a query asks of an entry. -/
def Query.accepts (query : Query) (entry : FileEntry) (nameKey : String) (kind : Desktop.FileKind) : Bool :=
  (match query.filter with
    | .all => true
    | .inProgress => entry.isPending
    | .attention => entry.needsAttention
    | .completed => entry.isComplete) &&
  (query.kind == .all || query.kind == kind) &&
  decide ((lib.toLowercase (trim query.text)).toList <:+: nameKey.toList)

/-- The candidate of a saved record, unless a live file covers it. -/
def savedCandidate (records : List DeliveryRecord) (prepared : Prepared) (overridden : List Nat)
    (query : Query) (index : Nat) : Option Candidate := do
  let record ← records[index]?
  let nameKey ← prepared.names[index]?
  let kind ← prepared.kinds[index]?
  if !overridden.contains index && query.accepts lib (.saved record) nameKey kind then
    some { entry := .saved record, nameKey }
  else none

/-- The candidate of a live file. -/
def liveCandidate (query : Query) (activity : FileActivity) : Option Candidate :=
  let nameKey := lib.toLowercase activity.originalName
  if query.accepts lib (.live activity) nameKey (Desktop.FileKind.of activity.mediaType) then
    some { entry := .live activity, nameKey }
  else none

/-- `select_page`. -/
def selectPage (records : List DeliveryRecord) (prepared : Prepared) (activity : List FileActivity)
    (query : Query) : FilePage :=
  let liveEntries : Files String FileActivity := Files.insertAll ∅ (·.id) id activity
  let overridden := activity.filterMap fun live => prepared.positions.lookup live.id
  let visible := prepared.unique.filterMap (savedCandidate lib records prepared overridden query) ++
    (lib.intoValues liveEntries.values).filterMap (liveCandidate lib query)
  let total := visible.length
  let limit := min query.limit total
  let selected :=
    if limit = 0 then []
    else if limit < total then
      (lib.selectNthUnstableBy (Candidate.order query.sort) limit visible).take limit
    else visible
  { entries := (lib.sortUnstableBy (Candidate.order query.sort) selected).map (·.entry), total }

/-- `FileHistory`: the index is there once a query or an upsert needed it. -/
structure FileHistory where
  records : List DeliveryRecord
  prepared : Option Prepared

namespace FileHistory

/-- `FileHistory::from`. -/
def ofRecords (records : List DeliveryRecord) : FileHistory :=
  { records, prepared := some (Prepared.new lib records) }

/-- The index, built if there is none. -/
def index (history : FileHistory) : Prepared :=
  history.prepared.getD (Prepared.new lib history.records)

/-- Any edit of the records through `deref_mut`. -/
def edit (change : List DeliveryRecord → List DeliveryRecord) (history : FileHistory) :
    FileHistory :=
  { records := change history.records, prepared := none }

/-- `FileHistory::upsert`, with whether the record is new. -/
def upsert (record : DeliveryRecord) (history : FileHistory) : Bool × FileHistory :=
  let prepared := history.index lib
  let name := lib.toLowercase record.originalName
  let kind := Desktop.FileKind.of record.mediaType
  match prepared.positions.lookup record.id with
  | some index =>
    (false, { records := history.records.set index record
              prepared := some { prepared with
                names := prepared.names.set index name
                kinds := prepared.kinds.set index kind } })
  | none =>
    let index := history.records.length
    (true, { records := history.records ++ [record]
             prepared := some
              { names := prepared.names ++ [name]
                kinds := prepared.kinds ++ [kind]
                positions := prepared.positions.insert record.id index
                unique := prepared.unique ++ [index] } })

/-- `FileHistory::page`, with the history that keeps the index. -/
def page (activity : List FileActivity) (query : Query) (history : FileHistory) :
    FilePage × FileHistory :=
  let prepared := history.index lib
  (selectPage lib history.records prepared activity query, { history with prepared := some prepared })

/-- What may be done with a history. -/
inductive Action
  | upsert (record : DeliveryRecord)
  | edit (change : List DeliveryRecord → List DeliveryRecord)
  | page (activity : List FileActivity) (query : Query)

def apply (history : FileHistory) : Action → FileHistory
  | .upsert record => (history.upsert lib record).2
  | .edit change => history.edit change
  | .page activity query => (history.page lib activity query).2

end FileHistory

end View

end MiRelay
