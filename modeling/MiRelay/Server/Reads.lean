import MiRelay.Server.Listing
import MiRelay.Server.Service

/-!
# What a device reads

The requests that change nothing: the list of pending deliveries, the content of
a delivery, the state of the directory, the row of a delivery and the counters.
A caller is known by the hash of the credential it supplied; the headers of a
request are taken as already read.
-/

namespace MiRelay

/-- The device and the credential that `ApiState::new` is given. -/
structure ApiConfig where
  deviceId : String
  unscoped : isFolderDevice deviceId = false
  authorizationHash : String

/-- A request under `/f/{id}` or without a folder, with the hash of its credential. -/
inductive Caller
  | folder (id hash : String)
  | legacy (hash : String)
  deriving DecidableEq, Repr

/-- The device whose queue a caller asks for. -/
def Caller.device (config : ApiConfig) : Caller → String
  | .folder id _ => folderDevice id
  | .legacy _ => config.deviceId

/-- `ServerStats`. -/
structure ServerStats where
  pending : Nat
  acknowledged : Nat
  deriving DecidableEq, Repr

/-- The headers and the body of a download. -/
structure ContentResponse where
  contentType : String
  contentLength : Nat
  etag : String
  body : Bytes
  deriving DecidableEq, Repr

/-- A request that reads. -/
inductive RelayRead
  | deliveries (limit : Nat) (cursor : Option String)
  /-- The values of the `If-Match` headers stand beside the identity. -/
  | content (id : String) (ifMatch : List String)
  | directory
  | lookup (id : String)
  | stats
  deriving DecidableEq, Repr

inductive RelayAnswer
  | deliveries (response : IndexResponse)
  | content (response : ContentResponse)
  | directory (state : DirectoryState)
  | lookup (row : Option DeliveryRow)
  | stats (stats : ServerStats)

/-- The strong entity tag of a delivery. -/
def DeliveryRow.etag (row : DeliveryRow) : String := "\"sha256:" ++ row.sha256 ++ "\""

/-- `stats`. -/
def Database.stats (db : Database) (device : String) : Result ServerStats := do
  validateDeviceId device
  let rows := db.deliveries.rows.filter (·.deviceId == device)
  return ⟨(rows.filter (·.acknowledgedAtUnix.isNone)).length,
    (rows.filter (·.acknowledgedAtUnix.isSome)).length⟩

section Authorization

variable (maxFileSize : Nat) (db : Database) (config : ApiConfig)

/-- `authorize_transfer`. -/
def authorizeTransfer (role : String) : Caller → Except ApiError String
  | .folder id hash => do
    let info ← db.identity maxFileSize id hash
    requireConnected info
    if info.role ≠ role then
      .error ⟨403, "wrong_role", "This credential cannot perform that operation."⟩
    else if info.state ≠ "ready" then .error .pending
    else .ok (folderDevice info.folderId)
  | .legacy hash =>
    if hash = config.authorizationHash then .ok config.deviceId else .error .unauthorized

/-- `authorize` of the directory requests, for either role; they are made under a folder only. -/
def authorizeDirectory : Caller → Except ApiError String
  | .folder id hash => do
    let info ← db.identity maxFileSize id hash
    requireConnected info
    if info.state ≠ "ready" then
      .error ⟨409, "pairing_pending", "Confirm pairing before directory initialization."⟩
    else .ok (folderDevice info.folderId)
  | .legacy _ => .error ⟨404, "route_not_found", "route was not found"⟩

end Authorization

/-- `run_store`: every error of the store is the same one for the caller. -/
def runStore {α : Type} : Result α → Except ApiError α
  | .ok a => .ok a
  | .error _ => .error .internal

namespace ServerStore

variable (store : ServerStore) (fromJson : List UInt8 → Option CursorV1) (config : ApiConfig)

/-- `open_content`. -/
def openContent (s : Relay) (row : DeliveryRow) : Result Bytes := do
  validateDeliveryMetadata row.delivery store.maxFileSize
  match row.object with
  | none => .error (.message "stored delivery uses an unsupported media type")
  | some name =>
    match s.library.objects.lookup name with
    | none => .error (.message "failed to open staged content")
    | some bytes => do
      ensure (bytes.length == row.sizeBytes)
        s!"staged content has size {bytes.length}, expected {row.sizeBytes}"
      return bytes

/-- `download_content`, for an authorized device. -/
def downloadContent (s : Relay) (device id : String) (ifMatch : List String) :
    Except ApiError ContentResponse :=
  match validateDeliveryId id with
  | .error _ => .error ⟨400, "invalid_delivery_id", "delivery id is invalid"⟩
  | .ok () =>
    match ifMatch with
    | [supplied] => do
      match ← runStore (s.db.getDelivery device id store.maxFileSize) with
      | none => .error ⟨404, "delivery_not_found", "delivery was not found"⟩
      | some row =>
        if supplied ≠ row.etag then
          .error ⟨412, "etag_mismatch", "If-Match does not match the staged delivery"⟩
        else do
          let body ← runStore (store.openContent s row)
          return ⟨row.mediaType, row.sizeBytes, row.etag, body⟩
    | _ => .error ⟨428, "if_match_required", "exactly one If-Match header is required"⟩

/-- A request that reads, and its answer. -/
def read (s : Relay) (caller : Caller) : RelayRead → Except ApiError RelayAnswer
  | .deliveries limit cursor => do
    let device ← authorizeTransfer store.maxFileSize s.db config "receiver" caller
    return .deliveries (← listDeliveries fromJson store.maxFileSize s.db device limit cursor)
  | .content id ifMatch => do
    let device ← authorizeTransfer store.maxFileSize s.db config "receiver" caller
    return .content (← store.downloadContent s device id ifMatch)
  | .directory => do
    let device ← authorizeDirectory store.maxFileSize s.db caller
    return .directory (← runStore (s.db.directoryState device))
  | .lookup id => do
    return .lookup (← runStore (s.db.getDelivery (caller.device config) id store.maxFileSize))
  | .stats => do
    return .stats (← runStore (s.db.stats (caller.device config)))

end ServerStore

end MiRelay
