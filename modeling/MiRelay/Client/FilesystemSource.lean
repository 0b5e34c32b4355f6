import MiRelay.Core.Durable
import MiRelay.Core.Table
import MiRelay.Client.HttpSource
import MiRelay.Storage.Library

/-!
# The source in a folder

`FilesystemSource` keeps deliveries in an inbox directory, a payload and a manifest
for each, and marks acknowledged ones in the folder `.acks`. Several processes may
use the directory at a time: before each call of the file system the others may have
gone on. A missing inbox directory is an empty one. A temporary file is read and
written by its owner only, so its content is not modelled before it is published.
-/

namespace MiRelay

/-- `AckMarker`. -/
structure AckMarker where
  id : String
  sha256 : String
  acknowledgedAtUnix : Nat
  deriving DecidableEq, Repr

/-- `serde_json` on manifests and markers. -/
structure InboxFormat where
  manifest : Delivery → Bytes
  parseManifest : Bytes → Result Delivery
  marker : AckMarker → Bytes
  parseMarker : Bytes → Result AckMarker

namespace InboxFormat

variable (format : InboxFormat)

/-- The content of a manifest: the bytes and a line feed. -/
def manifestBytes (d : Delivery) : Bytes := format.manifest d ++ [10]

/-- The content of a marker: the bytes and a line feed. -/
def markerBytes (m : AckMarker) : Bytes := format.marker m ++ [10]

end InboxFormat

/-- An entry of the inbox directory or of `.acks`. -/
inductive InboxFile
  /-- A regular file, and the process that wrote it, which nobody asks for. -/
  | regular (writer : Nat) (content : Bytes)
  | temporary
  /-- A symbolic link: whether it leads to an entry of the inbox, and what is read through it. -/
  | link (inside : Bool) (content : Result Bytes)
  | other

/-- What has the name `.acks`. -/
inductive AckFolder
  | directory (files : Files String InboxFile)
  | other

/-- The inbox directory and its folder of markers. -/
inductive InboxPlace
  | inbox
  | acks
  deriving DecidableEq, Repr

/-- What a call changes. -/
inductive InboxStep
  /-- An answer was used up. -/
  | answered
  /-- A temporary file is there. -/
  | began (place : InboxPlace) (name : String)
  | dropped (place : InboxPlace) (name : String)
  /-- A temporary file becomes the payload of an identity. -/
  | payload (temporary id : String) (content : Bytes)
  /-- A temporary file becomes the manifest of a delivery. -/
  | manifest (temporary : String) (delivery : Delivery)
  | madeAcks
  /-- A temporary file becomes a marker. -/
  | marker (temporary : String) (marker : AckMarker)

/-- A step and the process that takes it. -/
structure InboxEvent where
  process : Nat
  step : InboxStep

/-- What the outside does at a call. -/
structure InboxAnswer where
  done : Result Unit
  /-- The random part of a new name. -/
  name : String
  now : Nat
  /-- What other processes do before the call. -/
  meanwhile : List InboxEvent

/-- An inbox with the answers that calls will receive. -/
structure Inbox where
  files : Files String InboxFile
  acks : Option AckFolder
  answers : Nat → InboxAnswer

/-- The name of a payload. -/
def payloadName (id : String) : String := id ++ ".payload"

/-- The name of a manifest, and of a marker in `.acks`. -/
def manifestName (id : String) : String := id ++ ".json"

/-- The name of a temporary file. -/
def temporaryName (random : String) : String :=
  ".tmp" ++ String.ofList (random.toList.filter Char.isAlphanum)

def isTemporaryName (name : String) : Bool :=
  ".tmp".toList.isPrefixOf name.toList && (name.toList.drop 4).all Char.isAlphanum

/-- `path.extension().is_some_and(|ext| ext == "json")`, of a file name. -/
def isManifestName (name : String) : Bool :=
  ".json".toList.isSuffixOf name.toList && 5 < name.toList.length

/-- The delivery says of a payload what is found in it. -/
def Delivery.describes (sha256 : Bytes → String) (d : Delivery) (bytes : Bytes) : Bool :=
  bytes.length == d.size && sha256 bytes == d.sha256 && (mediaOf bytes).1 == d.mediaType

namespace Inbox

/-- The initial inbox: an empty directory without markers. -/
def initial (answers : Nat → InboxAnswer) : Inbox := ⟨∅, none, answers⟩

section

variable (s : Inbox)

def entries : InboxPlace → Files String InboxFile
  | .inbox => s.files
  | .acks =>
    match s.acks with
    | some (.directory files) => files
    | _ => ∅

def entry (place : InboxPlace) (name : String) : Option InboxFile := (s.entries place).lookup name

/-- Replace the entries of a directory. -/
def setEntries (place : InboxPlace) (files : Files String InboxFile) : Inbox :=
  match place with
  | .inbox => { s with files := files }
  | .acks => { s with acks := some (.directory files) }

/-- Rename a temporary file to what it becomes. -/
def publish (place : InboxPlace) (temporary name : String) (file : InboxFile) : Inbox :=
  s.setEntries place (((s.entries place).erase temporary).insert name file)

/-- There is a directory to put something into. -/
def present : InboxPlace → Bool
  | .inbox => true
  | .acks =>
    match s.acks with
    | some (.directory _) => true
    | _ => false

end

variable (format : InboxFormat)

/-- What a step does. -/
def apply (s : Inbox) (e : InboxEvent) : Inbox :=
  match e.step with
  | .answered => { s with answers := fun n => s.answers (n + 1) }
  | .began place name => s.setEntries place ((s.entries place).insert name .temporary)
  | .dropped place name => s.setEntries place ((s.entries place).erase name)
  | .payload temporary id content =>
    s.publish .inbox temporary (payloadName id) (.regular e.process content)
  | .manifest temporary delivery =>
    s.publish .inbox temporary (manifestName delivery.id)
      (.regular e.process (format.manifestBytes delivery))
  | .madeAcks => s.setEntries .acks ∅
  | .marker temporary marker =>
    s.publish .acks temporary (manifestName marker.id)
      (.regular e.process (format.markerBytes marker))

/-- What a process that uses the source may do: a name is given once, temporary files apart, and a
manifest only to a payload of the same process that it describes. -/
def lawful (sha256 : Bytes → String) (s : Inbox) (e : InboxEvent) : Bool :=
  match e.step with
  | .answered => true
  | .began place name => s.present place && (s.entry place name).isNone && isTemporaryName name
  | .dropped place name =>
    match s.entry place name with
    | some .temporary => true
    | _ => false
  | .payload temporary id _ =>
    (validateDeliveryId id).isOk && isTemporaryName temporary &&
      (s.entry .inbox (payloadName id)).isNone
  | .manifest temporary delivery =>
    isTemporaryName temporary && (s.entry .inbox (manifestName delivery.id)).isNone &&
      (validateDeliveryMetadata delivery delivery.size).isOk &&
      delivery.payload == payloadName delivery.id &&
      match s.entry .inbox delivery.payload with
      | some (.regular writer content) => writer == e.process && delivery.describes sha256 content
      | _ => false
  | .madeAcks => s.acks.isNone
  | .marker temporary marker =>
    isTemporaryName temporary && s.present .acks && (validateDeliveryId marker.id).isOk &&
      (s.entry .acks (manifestName marker.id)).isNone

/-- Those of the events that other processes may cause one after the other. -/
def others (sha256 : Bytes → String) (me : Nat) : Inbox → List InboxEvent → List InboxEvent
  | _, [] => []
  | s, e :: rest =>
    if e.process ≠ me ∧ lawful sha256 s e then e :: others sha256 me (apply format s e) rest
    else others sha256 me s rest

end Inbox

/-- What a scan of the inbox has gathered: `by_id` with the names of the manifests, and `conflicts`. -/
structure FolderScan where
  issues : List SourceIssue
  byId : List (String × Delivery)
  conflicts : List String
  deriving DecidableEq, Repr

namespace FilesystemSource

/-- `MAX_MANIFEST_SIZE_BYTES`. -/
def maxManifestSizeBytes : Nat := 64 * 1024

/-- `MAX_ACK_SIZE_BYTES`. -/
def maxAckSizeBytes : Nat := 16 * 1024

/-- A procedure on an inbox. -/
abbrev InboxProc (format : InboxFormat) : Type → Type := Proc (Inbox.apply format) Error

open Proc Inbox

variable (format : InboxFormat) (sha256 : Bytes → String) (inboxDir : String) (me : Nat)

/-- The other processes go on; then the next answer is used up. -/
def ask : InboxProc format InboxAnswer := do
  let s ← get
  await (others format sha256 me s (s.answers 0).meanwhile)
  emit ⟨me, .answered⟩
  return s.answers 0

/-- A call of the file system. -/
def call : InboxProc format Unit := do ofExcept (← ask format sha256 me).done

/-- `with_context`, as `{error:#}` prints it. -/
def inContext (text : String) (e : Error) : Error := .message (text ++ ": " ++ e.text)

/-- Put a text before the error of a procedure. -/
def withContext {α : Type} (text : String) (p : InboxProc format α) : InboxProc format α := do
  match ← attempt p with
  | .ok a => return a
  | .error e => fail (inContext text e)

/-- What is read of a file of at most `limit` bytes. -/
def readable (path : String) (limit : Nat) : InboxFile → Result Bytes
  | .regular _ content | .link _ (.ok content) => do
    ensure (content.length ≤ limit) s!"{path} exceeds the {limit} byte safety limit"
    return content
  | .link _ (.error e) => .error e
  | .temporary | .other => .error (.message s!"{path} is not a regular file")

/-- The `Drop` of a temporary file: it is removed unless it was moved, and it does not matter whether
that fails. -/
def dropTemporary (place : InboxPlace) (name : String) : InboxProc format Unit := do
  let dropped ← attempt (call format sha256 me)
  match (← get).entry place name, dropped with
  | some .temporary, .ok () => emit ⟨me, .dropped place name⟩
  | _, _ => pure ()

/-- A temporary file of the directory during `work`. -/
def withTemporary {α : Type} (place : InboxPlace) (work : String → InboxProc format α) :
    InboxProc format α := do
  let answer ← ask format sha256 me
  ofExcept answer.done
  let name := temporaryName answer.name
  let s ← get
  ofExcept (ensure (s.present place && (s.entry place name).isNone)
    "failed to create a temporary file")
  emit ⟨me, .began place name⟩
  let result ← attempt (work name)
  dropTemporary format sha256 me place name
  ofExcept result

/-- The path of `.acks`. -/
def ackDir : String := joinPath inboxDir ".acks"

/-- `ack_path`. -/
def ackPath (id : String) : String := joinPath (ackDir inboxDir) (manifestName id)

/-- `read_ack`. -/
def readAck (id : String) : InboxProc format (Option AckMarker) := do
  withContext format ("failed to inspect ACK directory " ++ ackDir inboxDir) (call format sha256 me)
  match (← get).acks with
  | none => return none
  | some .other =>
    fail (.message ("ACK path " ++ ackDir inboxDir ++ " is not a real directory"))
  | some (.directory _) =>
    let path := ackPath inboxDir id
    withContext format ("failed to inspect ACK marker " ++ path) (call format sha256 me)
    match (← get).entry .acks (manifestName id) with
    | none => return none
    | some (.link ..) | some .other =>
      fail (.message ("ACK marker " ++ path ++ " is not a regular file"))
    | some (.regular ..) | some .temporary =>
      withContext format ("failed to read ACK marker " ++ path) (call format sha256 me)
      match (← get).entry .acks (manifestName id) with
      | none => return none
      | some file =>
        let raw ← withContext format ("failed to read ACK marker " ++ path)
          (ofExcept (readable path maxAckSizeBytes file))
        let marker ← withContext format ("failed to parse ACK marker " ++ path)
          (ofExcept (format.parseMarker raw))
        return some marker

/-- A delivery that the source finds in a manifest. -/
def readManifest (maxFileSize : Nat) (name : String) : InboxProc format Delivery := do
  let path := joinPath inboxDir name
  let raw ← withContext format ("failed to read manifest " ++ path) do
    call format sha256 me
    match (← get).entry .inbox name with
    | some file => ofExcept (readable path maxManifestSizeBytes file)
    | none => fail (.message ("failed to open " ++ path))
  let delivery ← withContext format ("failed to parse manifest " ++ path)
    (ofExcept (format.parseManifest raw))
  ofExcept (validateDeliveryMetadata delivery maxFileSize)
  ofExcept (ensure (delivery.payload ≠ "")
    s!"filesystem delivery {delivery.id} is missing payload")
  return delivery

end FilesystemSource

namespace FolderScan

def empty : FolderScan := ⟨[], [], []⟩

variable (st : FolderScan)

def issue (item message : String) : FolderScan := { st with issues := st.issues ++ [⟨item, message⟩] }

/-- A delivery without a marker. -/
def add (inboxDir name : String) (delivery : Delivery) : FolderScan :=
  match st.byId.find? fun found => found.2.id == delivery.id with
  | some (previousName, previous) => { st with
      conflicts := st.conflicts.insert delivery.id
      issues := st.issues ++ [⟨joinPath inboxDir name, "duplicate delivery id " ++ delivery.id ++
        " also appears in " ++ joinPath inboxDir previousName ++ " (digests " ++ previous.sha256 ++
        " and " ++ delivery.sha256 ++ ")"⟩] }
  | none => { st with byId := st.byId ++ [(name, delivery)] }

/-- What the scan answers. -/
def scan : SourceScan where
  deliveries := ((st.byId.map (·.2)).filter fun d => d.id ∉ st.conflicts).insertionSort
    fun a b => HttpSource.scanOrder a b = true
  issues := st.issues

end FolderScan

namespace FilesystemSource

open Proc Inbox

variable (format : InboxFormat) (sha256 : Bytes → String) (inboxDir : String) (me : Nat)

/-- One manifest of a scan. -/
def scanManifest (maxFileSize : Nat) (st : FolderScan) (name : String) :
    InboxProc format FolderScan := do
  let item := joinPath inboxDir name
  match ← attempt (readManifest format sha256 inboxDir me maxFileSize name) with
  | .error e => return st.issue item e.text
  | .ok delivery =>
    match ← attempt (readAck format sha256 inboxDir me delivery.id) with
    | .error e => return st.issue item e.text
    | .ok none => return st.add inboxDir name delivery
    | .ok (some marker) =>
      if marker.id = delivery.id ∧ marker.sha256 = delivery.sha256 then return st
      else return st.issue item ("ACK marker conflicts with delivery " ++ delivery.id ++
        " (marker id=" ++ marker.id ++ ", digest=" ++ marker.sha256 ++ ")")

/-- The manifests of a scan, in order. -/
def scanManifests (maxFileSize : Nat) : List String → FolderScan → InboxProc format FolderScan
  | [], st => return st
  | name :: rest, st => do
    let st ← scanManifest format sha256 inboxDir me maxFileSize st name
    scanManifests maxFileSize rest st

/-- What the listing of the directory has found: manifests, and issues with entries. -/
abbrev Listing : Type := List String × List SourceIssue

/-- One entry of the directory. -/
def listEntry (found : Listing) (name : String) (file : InboxFile) : InboxProc format Listing := do
  let item := joinPath inboxDir name
  match ← attempt (call format sha256 me) with
  | .error e =>
    return (found.1, found.2 ++
      [⟨inboxDir, "failed to read an inbox directory entry: " ++ e.text⟩])
  | .ok () =>
    match ← attempt (call format sha256 me) with
    | .error e =>
      return (found.1, found.2 ++ [⟨item, "failed to inspect inbox entry: " ++ e.text⟩])
    | .ok () =>
      match file, isManifestName name with
      | .link .., true =>
        return (found.1, found.2 ++ [⟨item, "manifest symlinks are not allowed"⟩])
      | .regular .., true | .temporary, true => return (found.1 ++ [name], found.2)
      | _, _ => return found

/-- The entries of the directory, in any order. -/
def listEntries : List (String × InboxFile) → Listing → InboxProc format Listing
  | [], found => return found
  | (name, file) :: rest, found => do
    let found ← listEntry format sha256 inboxDir me found name file
    listEntries rest found

/-- `scan_pending`. -/
def scanPending (maxFileSize : Nat) : InboxProc format SourceScan := do
  call format sha256 me
  withContext format ("failed to scan mock inbox " ++ inboxDir) (call format sha256 me)
  let listing := (← get).files.entries.map fun entry => (entry.1, entry.2)
  let found ← listEntries format sha256 inboxDir me listing ([], [])
  let st ← scanManifests format sha256 inboxDir me maxFileSize
    (found.1.insertionSort (· ≤ ·)) { FolderScan.empty with issues := found.2 }
  return st.scan

/-- `open_payload`, of a payload whose name is a single component. -/
def openPayload (delivery : Delivery) : InboxProc format Bytes := do
  ofExcept (validateDeliveryId delivery.id)
  let path := joinPath inboxDir delivery.payload
  withContext format ("failed to resolve mock inbox " ++ inboxDir) (call format sha256 me)
  withContext format ("failed to resolve payload " ++ path ++ " for delivery " ++ delivery.id)
    (call format sha256 me)
  match (← get).entry .inbox delivery.payload with
  | none => fail (.message ("failed to resolve payload " ++ path ++ " for delivery " ++ delivery.id))
  | some (.link false _) =>
    fail (.message ("payload for delivery " ++ delivery.id ++ " resolves outside the mock inbox"))
  | some _ =>
    withContext format ("failed to open payload " ++ path ++ " for delivery " ++ delivery.id) do
      call format sha256 me
      match (← get).entry .inbox delivery.payload with
      | some (.regular _ content) => return content
      | some (.link true content) => ofExcept content
      | _ => fail (.message ("payload " ++ path ++ " is not a regular file"))

/-- `acknowledge`, after `.acks` was made. -/
def confirmAckDir : InboxProc format Unit := do
  withContext format ("failed to inspect ACK directory " ++ ackDir inboxDir) (call format sha256 me)
  match (← get).acks with
  | some (.directory _) => call format sha256 me
  | _ => fail (.message ("new ACK path " ++ ackDir inboxDir ++ " is not a real directory"))

/-- `acknowledge`, from where `.acks` may have to be made. -/
def ensureAckDir : InboxProc format Unit := do
  withContext format ("failed to inspect ACK directory " ++ ackDir inboxDir) (call format sha256 me)
  match (← get).acks with
  | some (.directory _) => pure ()
  | some .other =>
    fail (.message ("ACK path " ++ ackDir inboxDir ++ " is not a real directory"))
  | none =>
    withContext format ("failed to create ACK directory " ++ ackDir inboxDir) (call format sha256 me)
    match (← get).acks with
    | none => emit ⟨me, .madeAcks⟩
    | some _ => pure ()
    confirmAckDir format sha256 inboxDir me

/-- `acknowledge`, from where there is no marker yet. -/
def publishMarker (marker : AckMarker) : InboxProc format Unit :=
  withTemporary format sha256 me .acks fun temporary => do
    withContext format "failed to write temporary ACK marker" (call format sha256 me)
    withContext format "failed to sync temporary ACK marker" (call format sha256 me)
    let path := ackPath inboxDir marker.id
    let answer ← ask format sha256 me
    match (← get).entry .acks (manifestName marker.id) with
    | none =>
      withContext format ("failed to publish ACK marker " ++ path) (ofExcept answer.done)
      emit ⟨me, .marker temporary marker⟩
      call format sha256 me
    | some _ =>
      match ← readAck format sha256 inboxDir me marker.id with
      | none => fail (.message "ACK marker disappeared during a concurrent write")
      | some found =>
        if found.id = marker.id ∧ found.sha256 = marker.sha256 then call format sha256 me
        else fail (.message s!"concurrent ACK marker for delivery {marker.id} has conflicting metadata")

/-- `acknowledge`. -/
def acknowledge (id digest : String) : InboxProc format Unit := do
  ofExcept (validateDeliveryId id)
  ofExcept (ensure (utf8Len digest.toList == 64 && digest.toList.all isHex)
    s!"cannot acknowledge delivery {id}: invalid SHA-256 digest")
  match ← readAck format sha256 inboxDir me id with
  | some marker =>
    if marker.id = id ∧ marker.sha256 = digest then call format sha256 me
    else fail (.message s!"existing ACK marker for delivery {id} has conflicting metadata")
  | none =>
    let now := (← ask format sha256 me).now
    call format sha256 me
    ensureAckDir format sha256 inboxDir me
    publishMarker format sha256 inboxDir me ⟨id, digest, now⟩

/-- `enqueue`, of a payload that has been inspected. -/
def publishPayload (delivery : Delivery) (copied : Bytes) (maxFileSize : Nat)
    (found : FileInspection) : InboxProc format Unit :=
  withTemporary format sha256 me .inbox fun temporary => do
    call format sha256 me
    let content := copied.take (maxFileSize + 1)
    call format sha256 me
    let copiedInspection ← ofExcept (inspectFile sha256 maxFileSize content)
    ofExcept (ensure (copiedInspection == found) "the input changed while it was being enqueued")
    withContext format ("failed to publish mock payload " ++ joinPath inboxDir delivery.payload) do
      call format sha256 me
      match (← get).entry .inbox delivery.payload with
      | some _ => fail (.message "File exists")
      | none => emit ⟨me, .payload temporary delivery.id content⟩

/-- `atomic_write` of a manifest. -/
def writeManifest (delivery : Delivery) : InboxProc format Unit := do
  call format sha256 me
  withTemporary format sha256 me .inbox fun temporary => do
    call format sha256 me
    call format sha256 me
    call format sha256 me
    emit ⟨me, .manifest temporary delivery⟩
  call format sha256 me

/-- `enqueue`. The input is read twice, as `input` when it is inspected and as `copied` when it is
copied. -/
def enqueue (fileName : Option String) (input copied : Bytes) (maxFileSize : Nat) :
    InboxProc format Delivery := do
  call format sha256 me
  let found ← ofExcept (inspectFile sha256 maxFileSize input)
  let originalName ← ofExcept (fileName.elim
    (.error (.message "mock input file name must be valid UTF-8")) .ok)
  let answer ← ask format sha256 me
  let id := answer.name
  let delivery : Delivery := ⟨manifestSchemaVersion, id, originalName, payloadName id, found.size,
    found.sha256, found.mediaType, some answer.now⟩
  ofExcept (validateDeliveryMetadata delivery maxFileSize)
  publishPayload format sha256 inboxDir me delivery copied maxFileSize found
  call format sha256 me
  writeManifest format sha256 me delivery
  return delivery

end FilesystemSource

end MiRelay
