import MiRelay.Client.Sync
import MiRelay.Server.Metadata

/-!
# The upload client

`upload_with_events` sends a file to a server that may answer anything. A resume
state names the upload before the first byte is sent; the offset that the server
reports decides what is sent next. A session is the resume file with the answers
of the server, the file and the caller in the order in which they are asked for.
-/

namespace MiRelay

open Proc

/-- An error, with the HTTP status that caused it where there is one. -/
inductive TusError
  | message (text : String)
  /-- `HttpStatusError`. -/
  | status (code : Nat) (text : String)
  | context (text : String) (cause : TusError)
  deriving DecidableEq, Repr

/-- `should_discard_upload_state`. -/
def TusError.shouldDiscard : TusError → Bool
  | .message _ => false
  | .status code _ => code == 404 || code == 410 || code == 422
  | .context _ cause => cause.shouldDiscard

/-- An answer to a request: the status, the headers in lowercase, each with its text if that is
ASCII, and the detail that the body of an error gives. -/
structure HttpResponse where
  status : Nat
  headers : List (String × Option String)
  detail : Except String String
  deriving DecidableEq

/-- `UploadState`. -/
structure UploadState where
  schemaVersion : Nat
  collectionUrl : String
  uploadUrl : String
  originalName : String
  size : Nat
  sha256 : String
  mediaType : String
  directory : Option DirectoryVersion
  deriving DecidableEq, Repr

/-- `RemoteUpload`. -/
structure RemoteUpload where
  offset : Nat
  length : Nat
  metadata : String
  deliveryId : Option String
  deriving DecidableEq, Repr

/-- `UploadRequest`; the server and the credentials are those of the client. -/
structure Tus.UploadRequest where
  /-- The name of the file, if it is valid UTF-8. -/
  fileName : Option String
  name : Option String
  directory : Option DirectoryVersion
  chunkSizeBytes : Nat
  maxChunks : Option Nat
  requestTimeoutSeconds : Nat
  keepCompletedState : Bool

/-- `UploadOutcome`. -/
structure UploadOutcome where
  uploadedBytes : Nat
  size : Nat
  sha256 : String
  deliveryId : Option String
  deriving DecidableEq, Repr

/-- `UploadEvent`. -/
inductive UploadEvent
  | created (url : String)
  | resuming (url : String)
  | progress (uploaded total : Nat)
  deriving DecidableEq, Repr

/-- A request to the server. -/
inductive TusRequest
  | options
  | create (length : Nat) (metadata : String)
  | head (url : String)
  | patch (url : String) (offset : Nat) (chunk : Bytes)
  deriving DecidableEq, Repr

/-- `TusClient`: its collection, and what its URL library makes of a text. -/
structure TusClient where
  collectionUrl : String
  /-- `collection_url.join`. -/
  join : String → Except String String
  /-- `TusClient::validate_upload_url`. -/
  validateUploadUrl : String → Except String String

/-- One answer of the outside; each call reads the part that is for it. -/
structure TusAnswer where
  response : Except String HttpResponse
  /-- What the callback returns. -/
  continued : Bool
  /-- The bytes of the source file at this time. -/
  source : Except String Bytes
  /-- Whether a file operation succeeds. -/
  io : Except String Unit
  /-- How replacing or removing the resume file ends. -/
  saved : SaveAnswer

/-- The resume file; the other fields only record the upload it last named, the last answer of the
server and the offsets at which bytes were sent, the last one first. -/
structure TusState where
  resume : Option UploadState
  upload : Option UploadState
  last : Option (Except String HttpResponse)
  patched : List Nat

/-- A session: the answers of the outside, of which the first `position` were used. -/
structure TusSession where
  core : TusState
  answers : Nat → TusAnswer
  position : Nat

/-- What an upload does, step by step. -/
inductive TusStep
  | answered
  | exchanged (request : TusRequest) (response : Except String HttpResponse)
  | reported (event : UploadEvent)
  | saved (state : UploadState)
  | removed

/-- The offset at which a step sent bytes. -/
def TusStep.sentAt : TusStep → Option Nat
  | .exchanged (.patch _ offset _) _ => some offset
  | _ => none

def TusState.apply (c : TusState) (e : TusStep) : TusState where
  resume := match e with
    | .saved state => some state
    | .removed => none
    | _ => c.resume
  upload := match e with
    | .saved state => some state
    | _ => c.upload
  last := match e with
    | .exchanged _ response => some response
    | _ => c.last
  patched := e.sentAt.toList ++ c.patched

/-- What a step does to a session. -/
def TusSession.apply (s : TusSession) (e : TusStep) : TusSession where
  core := s.core.apply e
  answers := s.answers
  position := match e with
    | .answered => s.position + 1
    | _ => s.position

/-- A session before its first step. -/
def TusSession.start (resume : Option UploadState) (answers : Nat → TusAnswer) : TusSession where
  core := { resume, upload := resume, last := none, patched := [] }
  answers
  position := 0

/-- A procedure of the client. -/
abbrev TusProc : Type → Type := Proc TusSession.apply TusError

/-- `validate_upload_name`. -/
def validateUploadName (name : String) : Result Unit :=
  let cs := name.toList
  ensure (cs ≠ [] && utf8Len cs ≤ 255 && !cs.contains '/' && !cs.contains '\\' &&
      !cs.any isControl && cs ≠ ['.'] && cs ≠ ['.', '.'])
    "upload name must be a single UTF-8 filename of at most 255 bytes"

/-- `metadata_header`. -/
def metadataHeader (originalName : String) (inspection : FileInspection) : String :=
  String.ofList ([','].intercalate ([("filename", originalName), ("media_type", inspection.mediaType),
    ("sha256", inspection.sha256)].map fun (key, value) => entryText key value))

/-- `directory_metadata_header`. -/
def directoryMetadataHeader (originalName : String) (inspection : FileInspection)
    (directory : Option DirectoryVersion) : String :=
  match directory with
  | none => metadataHeader originalName inspection
  | some directory => metadataHeader originalName inspection ++ String.ofList
      (',' :: entryText "relative_path" directory.path ++
        ',' :: entryText "source_version" (toString directory.version))

/-- `MAX_CHUNK_SIZE`. -/
def maxChunkSize : Nat := 16 * 1024 * 1024

namespace TusProc

/-- A check of the protocol. -/
def check {α : Type} (x : Result α) : TusProc α := ofExcept (x.mapError fun e => .message e.text)

/-- What an operation of the outside returns, its error under the text of the caller. -/
def outside {α : Type} (text : String) (x : Except String α) : Except TusError α :=
  x.mapError fun e => .context text (.message e)

/-- `required_header`. -/
def requiredHeader (response : HttpResponse) (name : String) : Except TusError String :=
  match response.headers.filter (·.1 = name) with
  | [(_, some value)] => .ok value
  | [(_, none)] => .error (.message s!"server {name} header is not valid ASCII")
  | _ => .error (.message s!"server response must contain exactly one {name} header")

/-- `optional_header`. -/
def optionalHeader (response : HttpResponse) (name : String) : Except TusError (Option String) :=
  match response.headers.filter (·.1 = name) with
  | [] => .ok none
  | [(_, some value)] => .ok (some value)
  | [(_, none)] => .error (.message s!"server {name} header is not valid ASCII")
  | _ => .error (.message s!"server response contains more than one {name} header")

/-- `parse_u64`. -/
def parseU64 (value field : String) : Except TusError Nat :=
  if value.toList ≠ [] ∧ value.toList.all Char.isDigit then
    match parseNumber value.toList with
    | some n => .ok n
    | none => .error (.message s!"server {field} is out of range")
  else .error (.message s!"server {field} is not an unsigned decimal integer")

/-- `remote_upload`. -/
def remoteUpload (response : HttpResponse) : Except TusError RemoteUpload := do
  let offset ← parseU64 (← requiredHeader response "upload-offset") "upload-offset"
  let length ← parseU64 (← requiredHeader response "upload-length") "upload-length"
  let metadata ← requiredHeader response "upload-metadata"
  let deliveryId ← optionalHeader response "mirelay-delivery-id"
  return { offset, length, metadata, deliveryId }

/-- `require_tus_response`. -/
def requireTusResponse (response : HttpResponse) : Except TusError Unit := do
  if (← requiredHeader response "tus-resumable") = "1.0.0" then .ok ()
  else .error (.message "server response does not confirm tus 1.0.0")

/-- `require_status`. -/
def requireStatus (response : HttpResponse) (expected : List Nat) (operation : String) :
    Except TusError Unit :=
  if response.status ∈ expected then .ok ()
  else do
    let detail ← outside "failed to read server error response" response.detail
    .error (.status response.status (if detail = "" then s!"{operation} returned HTTP {response.status}"
      else s!"{operation} returned HTTP {response.status}: {detail}"))

/-- `validate_remote_upload`. -/
def validateRemoteUpload (state : UploadState) (expectedMetadata : String) (remote : RemoteUpload) :
    Result Unit := do
  ensure (remote.length == state.size)
    s!"server upload length is {remote.length}, expected {state.size}"
  ensure (remote.offset ≤ remote.length) "server upload offset exceeds its declared length"
  ensure (remote.metadata == expectedMetadata)
    "server upload metadata no longer matches the source file"
  ensure (remote.deliveryId.isNone || remote.offset == remote.length)
    "server confirmed a delivery before the tus upload completed"

/-- Use up the next answer. -/
def ask : TusProc TusAnswer := do
  let s ← get
  emit .answered
  return s.answers s.position

/-- Send a request and wait for the answer. -/
def exchange (request : TusRequest) (text : String) : TusProc HttpResponse := do
  let response := (← ask).response
  emit (.exchanged request response)
  ofExcept (outside text response)

/-- Tell the caller, who may ask to pause. -/
def report (event : UploadEvent) : TusProc Bool := do
  emit (.reported event)
  return (← ask).continued

/-- `save_state` and `remove_state`. -/
def replaceState (step : TusStep) : TusProc Unit := do
  match (← ask).saved with
  | .saved => emit step
  | .failed e => fail (.message e.text)
  | .unsynced e => do
    emit step
    fail (.message e.text)

/-- `TusClient::discover`. -/
def discover : TusProc Nat := do
  let response ← exchange .options "failed to discover tus server capabilities"
  ofExcept (requireStatus response [204, 200] "OPTIONS")
  let versions ← ofExcept (requiredHeader response "tus-version")
  check (ensure ((versions.toList.splitOn ',').any fun part => trim (String.ofList part) = "1.0.0")
    "server does not advertise tus 1.0.0")
  let extensions ← ofExcept (requiredHeader response "tus-extension")
  check (ensure ((extensions.toList.splitOn ',').any fun part =>
    trim (String.ofList part) = "creation") "server does not advertise the tus creation extension")
  ofExcept do parseU64 (← requiredHeader response "tus-max-size") "tus-max-size"

variable (client : TusClient)

/-- The checked address of an upload. -/
def validUrl (url : String) : TusProc String :=
  ofExcept ((client.validateUploadUrl url).mapError .message)

/-- `TusClient::create`. -/
def create (inspection : FileInspection) (metadata : String) : TusProc String := do
  let response ← exchange (.create inspection.size metadata) "failed to create tus upload"
  ofExcept (requireStatus response [201] "create upload")
  ofExcept (requireTusResponse response)
  let location ← ofExcept (requiredHeader response "location")
  let url ← ofExcept (outside "server returned an invalid tus Location" (client.join location))
  validUrl client url

/-- `TusClient::head`. -/
def head (url : String) : TusProc RemoteUpload := do
  let response ← exchange (.head url) "failed to query tus upload offset"
  ofExcept (requireStatus response [200, 204] "HEAD upload")
  ofExcept (requireTusResponse response)
  ofExcept (remoteUpload response)

/-- `TusClient::patch`. -/
def patch (url : String) (offset : Nat) (chunk : Bytes) : TusProc RemoteUpload := do
  let response ← exchange (.patch url offset chunk) "failed to send tus PATCH"
  if response.status = 409 then do
    ofExcept (requireTusResponse response)
    let serverOffset ← ofExcept do
      parseU64 (← requiredHeader response "upload-offset") "upload-offset"
    let recovered ← head url
    check (ensure (recovered.offset == serverOffset)
      s!"server reported conflicting tus offsets {serverOffset} and {recovered.offset}")
    return recovered
  else do
    ofExcept (requireStatus response [204] "PATCH upload")
    ofExcept (requireTusResponse response)
    ofExcept (remoteUpload response)

/-- A request whose failure may say that the upload is gone. -/
def orDiscard (p : TusProc RemoteUpload) (otherwise : TusError → TusError) : TusProc RemoteUpload := do
  match ← attempt p with
  | .ok remote => return remote
  | .error e =>
    if e.shouldDiscard then do
      replaceState .removed
      fail (.context "server rejected or removed the upload; local resume state was discarded, so rerun the command to create a new upload" e)
    else fail (otherwise e)

/-- `TusClient::validate_state`. -/
def validateState (state : UploadState) : TusProc Unit := do
  check (ensure (state.schemaVersion == 1)
    s!"unsupported upload state schema {state.schemaVersion}; expected 1")
  check (ensure (state.collectionUrl == client.collectionUrl)
    "upload state belongs to a different server URL")
  let _ ← validUrl client state.uploadUrl

/-- `validate_source_state`. -/
def validateSourceState (state : UploadState) (inspection : FileInspection)
    (requestedName : Option String) : Result Unit := do
  ensure (inspection.size == state.size && inspection.sha256 == state.sha256 &&
    inspection.mediaType == state.mediaType) "source file content differs from the saved upload state"
  ensure (requestedName.all (· == state.originalName))
    "--name differs from the name saved in upload state"

/-- `upload_outcome`. -/
def uploadOutcome (state : UploadState) (uploadedBytes : Nat) (deliveryId : Option String) :
    UploadOutcome :=
  { uploadedBytes, size := state.size, sha256 := state.sha256, deliveryId }

/-- `seek` and `read_exact` of the source file. -/
def readChunk (offset length : Nat) : TusProc Bytes := do
  let bytes ← ofExcept (outside "failed to read source file" (← ask).source)
  ofExcept (outside "failed to read source file"
    (if offset + length ≤ bytes.length then .ok ((bytes.drop offset).take length)
    else .error "failed to fill whole buffer"))

/-- `inspect_file` of the source file. -/
def inspectSource (sha256 : Bytes → String) (maxSize : Nat) (otherwise : TusError → TusError) :
    TusProc FileInspection := do
  let source := (← ask).source
  let inspection := do
    let bytes ← outside "failed to open source file" source
    (inspectFile sha256 maxSize bytes).mapError fun e : Error => TusError.message e.text
  ofExcept (inspection.mapError otherwise)

section Upload

variable (sha256 : Bytes → String) (cli : Tus.UploadRequest)

/-- The upload of a resume file, once the source was inspected again. -/
def resumeUpload (state : UploadState) : TusProc (UploadState × FileInspection × Bool) := do
  ofExcept (outside "failed to read upload state" (← ask).io)
  validateState client state
  check (ensure (state.directory == cli.directory)
    "Directory path/version differs from saved upload state.")
  let inspection ← inspectSource sha256 state.size fun e =>
    .context "the source file no longer matches resumable upload state" e
  check (validateSourceState state inspection cli.name)
  check (validateUploadName state.originalName)
  return (state, inspection, ← report (.resuming state.uploadUrl))

/-- A new upload, which is saved before any byte is sent. -/
def beginUpload : TusProc (UploadState × FileInspection × Bool) := do
  let serverMaxSize ← discover
  let inspection ← inspectSource sha256 serverMaxSize id
  let originalName ← (match cli.name, cli.fileName with
    | some name, _ => return name
    | none, some name => return name
    | none, none => fail (.message "file name is not valid UTF-8; pass --name"))
  check (validateUploadName originalName)
  let uploadUrl ← create client inspection (directoryMetadataHeader originalName inspection cli.directory)
  let state : UploadState :=
    { schemaVersion := 1, collectionUrl := client.collectionUrl, uploadUrl, originalName
      size := inspection.size, sha256 := inspection.sha256, mediaType := inspection.mediaType
      directory := cli.directory }
  replaceState (.saved state)
  return (state, inspection, ← report (.created uploadUrl))

/-- The loop of `upload_with_events`: the last report of the server, or the pause. -/
def sendChunks (url : String) (state : UploadState) (expectedMetadata : String) (goOn : Bool)
    (remote : RemoteUpload) (chunksSent : Nat) : TusProc (RemoteUpload ⊕ UploadOutcome) :=
  if hmore : remote.offset < state.size then do
    let continued ← (if goOn then report (.progress remote.offset state.size) else pure false)
    if continued then do
      let chunk ← readChunk remote.offset (min (state.size - remote.offset) cli.chunkSizeBytes)
      let next ← orDiscard (patch url remote.offset chunk) (.context
        "tus PATCH failed; rerun with the same --state-file to resume")
      check (validateRemoteUpload state expectedMetadata next)
      if hnext : remote.offset < next.offset then
        if (cli.maxChunks.any fun limit => limit ≤ chunksSent + 1) && next.offset < state.size then do
          let _ ← report (.progress next.offset state.size)
          return .inr (uploadOutcome state next.offset none)
        else sendChunks url state expectedMetadata goOn next (chunksSent + 1)
      else fail (.message "server did not advance the tus upload offset")
    else return .inr (uploadOutcome state remote.offset none)
  else return .inl remote
termination_by state.size - remote.offset

/-- The end of `upload_with_events`, once all bytes are there. -/
def finishUpload (url : String) (state : UploadState) (expectedMetadata : String)
    (remote : RemoteUpload) : TusProc UploadOutcome := do
  let remote ← (if remote.deliveryId.isNone then do
      let remote ← orDiscard (head url) id
      check (validateRemoteUpload state expectedMetadata remote)
      return remote
    else return remote)
  match remote.deliveryId with
  | none => fail (.message
      "server reached the final tus offset without confirming a MiRelay delivery id")
  | some deliveryId => do
    check (validateDeliveryId deliveryId)
    if !cli.keepCompletedState then replaceState .removed
    let _ ← report (.progress state.size state.size)
    return uploadOutcome state state.size (some deliveryId)

/-- `upload_with_events`, with the client that the request describes. -/
def uploadWithEvents (client : Except TusError TusClient) : TusProc UploadOutcome := do
  check (ensure (1 ≤ cli.chunkSizeBytes && cli.chunkSizeBytes ≤ maxChunkSize &&
    1 ≤ cli.requestTimeoutSeconds && cli.requestTimeoutSeconds ≤ 3600 && cli.maxChunks != some 0)
      "invalid upload chunk size, timeout, or chunk limit")
  check (match cli.name with
    | some name => validateUploadName name
    | none => .ok ())
  check (match cli.directory with
    | some directory => directory.validate
    | none => .ok ())
  let client ← ofExcept client
  -- The two files are different, and the lock of the state file is taken.
  ofExcept (outside "failed to lock upload state" (← ask).io)
  let (state, inspection, goOn) ← (match (← get).core.resume with
    | some state => resumeUpload client sha256 cli state
    | none => beginUpload client sha256 cli)
  let url ← validUrl client state.uploadUrl
  let expectedMetadata := directoryMetadataHeader state.originalName inspection state.directory
  let remote ← orDiscard (head url) id
  check (validateRemoteUpload state expectedMetadata remote)
  ofExcept (outside "failed to open source file" (← ask).io)
  match ← sendChunks cli url state expectedMetadata goOn remote 0 with
  | .inl remote => finishUpload cli url state expectedMetadata remote
  | .inr paused => return paused

end Upload

end TusProc

end MiRelay
