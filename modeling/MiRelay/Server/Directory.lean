import Mathlib
import MiRelay.Server.Database

/-!
# Directory versions, receipts and the published index

The queries and transactions of the directory endpoints. A version is inserted
together with its delivery, a receipt acknowledges its version and every older
one of the path, and the published inventory is replaced by compare and swap.
-/

namespace MiRelay

structure DirectoryAck where
  path : String
  version : Nat
  sha256 : String
  conflict : Bool
  deriving DecidableEq, Repr

/-- `substr(p, 1, length(a) + 1) = a || '/'`. -/
def sqlBelow (a p : String) : Bool :=
  String.ofList (p.toList.take (a.toList.length + 1)) == a ++ "/"

/-- The SQL prefix test agrees with the component-wise ancestor relation. -/
theorem sqlBelow_iff {a p : String} : sqlBelow a p = true ↔ IsAncestor a p := by
  rw [sqlBelow, beq_iff_eq, ← String.toList_inj, String.toList_ofList, String.toList_append,
    IsAncestor, ← take_eq_append_singleton_iff]
  exact Iff.rfl

namespace Database

/-- The versions of a device's path. -/
def versionsOf (db : Database) (device path : String) : List VersionRow :=
  db.directoryVersions.rows.filter fun v => v.deviceId == device && v.path == path

/-- No later version of the same path is stored. -/
def isLatest (db : Database) (v : VersionRow) : Bool :=
  !db.directoryVersions.rows.any fun later =>
    later.deviceId == v.deviceId && later.path == v.path && v.version < later.version

/-- One reported row of the join of versions and deliveries. -/
def reportedEntry (db : Database) (v : VersionRow) : Option DirectoryEntry :=
  (db.deliveryOf v).map fun d =>
    { path := v.path, version := v.version, deliveryId := d.deliveryId, sha256 := d.sha256
      size := d.sizeBytes, mediaType := d.mediaType
      acknowledged := d.acknowledgedAtUnix.isSome, conflict := v.conflict }

/-- The latest versions of a device with their deliveries. -/
def latestEntries (db : Database) (device : String) : List DirectoryEntry :=
  (db.directoryVersions.rows.filter fun v => v.deviceId == device && db.isLatest v).filterMap
    db.reportedEntry

/-- `ORDER BY path LIMIT 5001`. -/
def reportedEntries (db : Database) (device : String) : List DirectoryEntry :=
  ((db.latestEntries device).insertionSort fun a b => a.path ≤ b.path).take 5001

/-- `directory_state`. -/
def directoryState (db : Database) (device : String) : Result DirectoryState :=
  let state : DirectoryState :=
    { schemaVersion := directorySchemaVersion, receiver := db.index device
      entries := db.reportedEntries device }
  match state.validate with
  | .ok () => .ok state
  | .error e => .error e

/-- `publish_directory`: the transaction, with the inventory it answers. -/
def publishDirectory (db : Database) (device : String) (update : InventoryUpdate) :
    Result (Option Inventory × Database) := do
  ensure (isFolderDevice device) "Directory sync requires a paired Folder."
  update.inventory.validate
  db.requireDeviceOpen device
  let previous := db.index device
  if previous = some update.inventory then return (previous, db)
  if previous.map (·.id) ≠ update.previousId ∨ previous.map (·.id) = some update.inventory.id then
    return (none, db)
  match (db.directoryIndexes.delete (·.deviceId == device)).insert
      { deviceId := device, inventory := update.inventory } with
  | none => .error (.message "UNIQUE constraint failed: directory_indexes.device_id")
  | some directoryIndexes => return (some update.inventory, { db with directoryIndexes })

/-- `require_directory_receiver`. -/
def requireDirectoryReceiver (db : Database) (device : String) : Result Unit :=
  if isFolderDevice device ∧ (db.index device).isSome then .ok () else .error .directoryConflict

/-- The version a delivery was stored with. -/
def directoryVersionOf (db : Database) (device id : String) : Option DirectoryVersion :=
  (db.directoryVersions.rows.find? fun v => v.deviceId == device && v.deliveryId == id).map
    fun v => { path := v.path, version := v.version }

/-- `check_directory_replay`. -/
def checkDirectoryReplay (db : Database) (device id : String)
    (expected : Option DirectoryVersion) : Result Unit :=
  ensure (db.directoryVersionOf device id == expected) "Directory replay metadata differs."

/-- `is_directory_delivery`. -/
def isDirectoryDelivery (db : Database) (device id : String) : Bool :=
  db.directoryVersions.rows.any fun v => v.deviceId == device && v.deliveryId == id

/-- `COUNT(DISTINCT path)` of a device. -/
def pathCount (db : Database) (device : String) : Nat :=
  ((db.directoryVersions.rows.filter (·.deviceId == device)).map (·.path)).dedup.length

/-- The same version is stored, or a path above or below the new one. -/
def versionCollision (db : Database) (device : String) (version : DirectoryVersion) : Bool :=
  db.directoryVersions.rows.any fun v => v.deviceId == device &&
    ((v.path == version.path && v.version == version.version) ||
      sqlBelow version.path v.path || sqlBelow v.path version.path)

/-- The delivery of a version has been acknowledged. -/
def isAcknowledged (db : Database) (v : VersionRow) : Bool :=
  (db.deliveryOf v).any (·.acknowledgedAtUnix.isSome)

/-- A later version of the path has been acknowledged. -/
def superseded (db : Database) (device : String) (version : DirectoryVersion) : Bool :=
  db.directoryVersions.rows.any fun v => v.deviceId == device && v.path == version.path &&
    version.version < v.version && db.isAcknowledged v

/-- `insert_directory_version`, inside the transaction that inserted the delivery. -/
def insertDirectoryVersion (db : Database) (device id : String) (version : DirectoryVersion)
    (now : Nat) : Result Database := do
  version.validate
  ensure (isFolderDevice device) "Directory versions require paired Folders."
  ensure ((db.versionsOf device version.path != []) || db.pathCount device < maxEntries)
    "Directory path limit reached."
  (if db.versionCollision device version then .error .directoryConflict else .ok ())
  match db.directoryVersions.insert
      { deviceId := device, deliveryId := id, path := version.path
        version := version.version, conflict := false } with
  | none => .error (.message "UNIQUE constraint failed: directory_versions")
  | some directoryVersions =>
    let db := { db with directoryVersions }
    -- A slow old upload cannot resurrect a version already superseded and ACKed.
    return if db.superseded device version then
      db.updateAcknowledged (fun d => d.deviceId == device && d.deliveryId == id)
        fun _ => some now
    else db

/-- The version named by a receipt is stored with the digest it names. -/
def ackMatches (db : Database) (device : String) (ack : DirectoryAck) : Bool :=
  db.directoryVersions.rows.any fun v => v.deviceId == device && v.path == ack.path &&
    v.version == ack.version && (db.deliveryOf v).any (·.sha256 == ack.sha256)

/-- The version is one a receipt covers. -/
def coveredBy (device : String) (ack : DirectoryAck) (v : VersionRow) : Bool :=
  v.deviceId == device && v.path == ack.path && v.version ≤ ack.version

/-- The digests of the versions a receipt covers, to be collected afterwards. -/
def ackedDigests (db : Database) (device : String) (ack : DirectoryAck) : List String :=
  ((db.directoryVersions.rows.filter (coveredBy device ack)).filterMap fun v =>
    (db.deliveryOf v).map (·.sha256)).dedup

/-- The delivery belongs to a version the receipt covers. -/
def coveredDelivery (db : Database) (device : String) (ack : DirectoryAck) (d : DeliveryRow) : Bool :=
  d.deviceId == device &&
    db.directoryVersions.rows.any fun v => coveredBy device ack v && v.deliveryId == d.deliveryId

/-- The version is the one the receipt names. -/
def namedBy (device : String) (ack : DirectoryAck) (v : VersionRow) : Bool :=
  v.deviceId == device && v.path == ack.path && v.version == ack.version

/-- The transaction of `ack_directory`, or nothing when the receipt names no stored version. -/
def ackDirectory (db : Database) (device : String) (ack : DirectoryAck) (now : Nat) :
    Result (Option Database) := do
  DirectoryVersion.validate { path := ack.path, version := ack.version }
  validateSha256 ack.sha256
  if db.ackMatches device ack then
    return some <| (db.updateAcknowledged (db.coveredDelivery device ack)
      fun acknowledged => acknowledged <|> some now).raiseConflict (namedBy device ack) ack.conflict
  else return none

end Database

/-- The new row of a delivery that is enqueued. -/
def Delivery.row (delivery : Delivery) (device : String) (sequence createdAt : Nat) :
    DeliveryRow :=
  { sequence, deviceId := device, deliveryId := delivery.id
    originalName := delivery.originalName, sizeBytes := delivery.size, sha256 := delivery.sha256
    mediaType := delivery.mediaType, createdAtUnix := createdAt, acknowledgedAtUnix := none }

/-- The manifest a stored row is validated and served as. -/
def DeliveryRow.delivery (row : DeliveryRow) : Delivery where
  schemaVersion := manifestSchemaVersion
  id := row.deliveryId
  originalName := row.originalName
  payload := ""
  size := row.sizeBytes
  sha256 := row.sha256
  mediaType := row.mediaType
  createdAtUnix := some row.createdAtUnix

namespace Database

/-- The transaction of `enqueue_directory_with_id`: the delivery row and its version. -/
def enqueue (db : Database) (device : String) (delivery : Delivery) (createdAt : Nat)
    (directory : Option DirectoryVersion) (now : Nat) : Result Database := do
  ensure (delivery.size ≤ i64Max) "media size does not fit SQLite"
  ensure (createdAt ≤ i64Max) "timestamp does not fit SQLite"
  let sequence := db.lastSequence + 1
  match db.deliveries.insert (delivery.row device sequence createdAt) with
  | none => .error (.message "failed to insert delivery")
  | some deliveries =>
    let db := { db with deliveries, lastSequence := sequence }
    match directory with
    | none => return db
    | some version => db.insertDirectoryVersion device delivery.id version now

/-- `get_delivery`, with the validation of the row. -/
def getDelivery (db : Database) (device id : String) (maxFileSize : Nat) :
    Result (Option DeliveryRow) := do
  validateDeviceId device
  validateDeliveryId id
  match db.findDelivery device id with
  | none => return none
  | some row =>
    validateDeliveryMetadata row.delivery maxFileSize
    return some row

/-- The row of a delivery that was enqueued before, which has to be the same one. -/
def replayedDelivery (db : Database) (device : String) (delivery : Delivery) (createdAt : Nat)
    (directory : Option DirectoryVersion) (maxFileSize : Nat) : Result (Option DeliveryRow) := do
  match ← db.getDelivery device delivery.id maxFileSize with
  | none => return none
  | some existing =>
    ensure (existing.originalName == delivery.originalName && existing.sizeBytes == delivery.size &&
        existing.sha256 == delivery.sha256 && existing.mediaType == delivery.mediaType &&
        existing.createdAtUnix == createdAt)
      s!"delivery {delivery.id} already exists with different metadata"
    db.checkDirectoryReplay device delivery.id directory
    return some existing

/-- Nothing for a replay, else the insertion. -/
def storeOnce (db : Database) (device : String) (delivery : Delivery) (createdAt : Nat)
    (directory : Option DirectoryVersion) (now maxFileSize : Nat) : Result Database := do
  match ← db.replayedDelivery device delivery createdAt directory maxFileSize with
  | some _ => return db
  | none => db.enqueue device delivery createdAt directory now

end Database

/-- The checks of `enqueue_directory_with_id` before it takes the content lock. -/
def validateEnqueue (device : String) (delivery : Delivery) (directory : Option DirectoryVersion)
    (maxFileSize : Nat) : Result Unit := do
  validateDeviceId device
  (match directory with
    | some version => version.validate
    | none => .ok ())
  validateDeliveryMetadata delivery maxFileSize

namespace Database

/-- `AcknowledgeOutcome`. -/
inductive AcknowledgeOutcome
  | acknowledged
  | alreadyAcknowledged
  | notFound
  | digestConflict
  deriving DecidableEq, Repr

/-- The transaction of `acknowledge`. -/
def acknowledge (db : Database) (device id sha256 : String) (now : Nat) :
    AcknowledgeOutcome × Database :=
  match db.findDelivery device id with
  | none => (.notFound, db)
  | some row =>
    if row.sha256 ≠ sha256 then (.digestConflict, db)
    else if row.acknowledgedAtUnix.isSome then (.alreadyAcknowledged, db)
    else (.acknowledged, db.updateAcknowledged
      (fun d => d.deviceId == device && d.deliveryId == id) fun _ => some now)

end Database

end MiRelay
