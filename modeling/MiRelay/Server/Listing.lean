import Mathlib
import MiRelay.Core.Base64
import MiRelay.Server.Directory
import MiRelay.Server.Pairing

/-!
# Listing pending deliveries

A page of the pending ordinary deliveries of a device and the cursor that
continues after it. The cursor is the base64 text of a small JSON object; the
JSON reader accepts any spelling of such an object and is a parameter.
-/

namespace MiRelay

/-- `PendingPage`. -/
structure PendingPage where
  deliveries : List DeliveryRow
  snapshotSequence : Int
  hasMore : Bool
  deriving DecidableEq, Repr

/-- `CursorV1`. -/
structure CursorV1 where
  version : Nat
  afterSequence : Int
  snapshotSequence : Int
  deriving DecidableEq, Repr

/-- `DeliveryDescriptor`. -/
structure DeliveryDescriptor where
  deliveryId : String
  originalName : String
  sizeBytes : Nat
  sha256 : String
  mediaType : String
  createdAtUnix : Option Nat
  deriving DecidableEq, Repr

/-- `DeliveryIndex`. -/
structure IndexResponse where
  schemaVersion : Nat
  items : List DeliveryDescriptor
  nextCursor : Option String
  deriving DecidableEq, Repr

def DeliveryRow.descriptor (row : DeliveryRow) : DeliveryDescriptor where
  deliveryId := row.deliveryId
  originalName := row.originalName
  sizeBytes := row.sizeBytes
  sha256 := row.sha256
  mediaType := row.mediaType
  createdAtUnix := some row.createdAtUnix

namespace Database

/-- `validate_db_delivery`; sizes and times are never negative here. -/
def validateDbDelivery (maxFileSize : Nat) (row : DeliveryRow) : Result DeliveryRow := do
  ensure (row.sequence ≠ 0) "server database contains an invalid delivery sequence"
  validateDeliveryMetadata row.delivery maxFileSize
  return row

/-- A pending delivery of a device that belongs to no directory version. -/
def isOrdinaryPending (db : Database) (device : String) (row : DeliveryRow) : Bool :=
  row.deviceId == device && row.acknowledgedAtUnix.isNone &&
    !db.isDirectoryDelivery row.deviceId row.deliveryId

/-- `COALESCE(MAX(sequence), 0)` of the pending deliveries of a device. -/
def pendingSnapshot (db : Database) (device : String) : Nat :=
  ((db.deliveries.rows.filter fun row =>
    row.deviceId == device && row.acknowledgedAtUnix.isNone).map (·.sequence)).foldl max 0

/-- The pending ordinary deliveries up to a sequence, `ORDER BY sequence`. -/
def pendingUpTo (db : Database) (device : String) (snapshot : Int) : List DeliveryRow :=
  (db.deliveries.rows.filter fun row =>
    db.isOrdinaryPending device row && (row.sequence : Int) ≤ snapshot).insertionSort
      fun a b => a.sequence ≤ b.sequence

/-- The snapshot of a page: that of the cursor, or a new one. -/
def snapshotFor (db : Database) (device : String) (afterSequence : Int) :
    Option Int → Result Int
  | some snapshot => do
    ensure (afterSequence ≤ snapshot) "pagination cursor is internally inconsistent"
    return snapshot
  | none => return (db.pendingSnapshot device : Int)

/-- `list_pending`. -/
def listPending (maxFileSize : Nat) (db : Database) (device : String) (afterSequence : Int)
    (snapshotSequence : Option Int) (limit : Nat) : Result PendingPage := do
  validateDeviceId device
  ensure (0 ≤ afterSequence) "pagination sequence must not be negative"
  ensure (limit ≠ 0 && limit ≤ 100) "pagination limit must be between 1 and 100"
  let snapshot ← db.snapshotFor device afterSequence snapshotSequence
  let rows := ((db.pendingUpTo device snapshot).filter
    fun row => afterSequence < (row.sequence : Int)).take (limit + 1)
  let deliveries ← rows.mapM (validateDbDelivery maxFileSize)
  let hasMore := limit < deliveries.length
  return {
    deliveries := if hasMore then deliveries.take limit else deliveries
    snapshotSequence := snapshot
    hasMore }

end Database

namespace ApiError

def internal : ApiError :=
  ⟨500, "internal_error", "the server could not complete the request"⟩

def invalidCursor : ApiError := ⟨400, "invalid_cursor", "pagination cursor is invalid"⟩

end ApiError

/-- `MAX_CURSOR_BYTES` of both sides. -/
def maxCursorBytes : Nat := 2048

/-- The decimal text of a number. -/
def decimal : Int → List Char
  | .ofNat n => n.repr.toList
  | .negSucc n => '-' :: (n + 1).repr.toList

/-- `serde_json::to_vec` of a cursor. -/
def CursorV1.toJson (c : CursorV1) : List Char :=
  "\x7b\"version\":".toList ++ decimal c.version ++
    ",\"after_sequence\":".toList ++ decimal c.afterSequence ++
    ",\"snapshot_sequence\":".toList ++ decimal c.snapshotSequence ++ ['\x7d']

/-- `encode_cursor`. -/
def encodeCursor (c : CursorV1) : String :=
  -- All characters of the JSON text are ASCII.
  String.ofList (Base64.encode (c.toJson.map fun ch => UInt8.ofNat ch.toNat))

/-- The text of a cursor is present, bounded and plain. -/
def wellFormedCursor (text : String) : Bool :=
  text ≠ "" && utf8Len text.toList ≤ maxCursorBytes && !text.toList.any isControl

section Api

variable (fromJson : List UInt8 → Option CursorV1)

/-- `decode_cursor`. -/
def decodeCursor (encoded : String) : Except ApiError CursorV1 :=
  if !wellFormedCursor encoded then .error .invalidCursor
  else match (Base64.decode encoded.toList).bind fromJson with
    | none => .error .invalidCursor
    | some c =>
      if c.version ≠ protocolVersion ∨ c.afterSequence < 0 ∨
          c.snapshotSequence < c.afterSequence then .error .invalidCursor
      else .ok c

/-- `index_response`. -/
def indexResponse (page : PendingPage) : Except ApiError IndexResponse := do
  let nextCursor ←
    if page.hasMore then
      match page.deliveries.getLast? with
      | none => .error .internal
      | some last => .ok (some (encodeCursor {
          version := protocolVersion, afterSequence := last.sequence
          snapshotSequence := page.snapshotSequence }))
    else .ok none
  return {
    schemaVersion := protocolVersion
    items := page.deliveries.map (·.descriptor)
    nextCursor }

/-- `list_deliveries`, for an authorized device and `status=pending`. -/
def listDeliveries (maxFileSize : Nat) (db : Database) (device : String) (limit : Nat)
    (cursor : Option String) : Except ApiError IndexResponse :=
  if limit = 0 ∨ 100 < limit then
    .error ⟨400, "invalid_limit", "limit must be between 1 and 100"⟩
  else do
    let (afterSequence, snapshotSequence) ← (match cursor with
      | some text => do
        let c ← decodeCursor fromJson text
        return (c.afterSequence, some c.snapshotSequence)
      | none => return (0, none))
    match db.listPending maxFileSize device afterSequence snapshotSequence limit with
    | .ok page => indexResponse page
    | .error _ => .error .internal

end Api

end MiRelay
