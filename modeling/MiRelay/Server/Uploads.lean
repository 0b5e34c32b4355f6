import MiRelay.Server.Store

/-!
# Resumable uploads

An upload is a record, replaced atomically, and a part file that receives the
bytes. Data go to the part first and are committed by the record's offset; a
torn tail is cut off at the next access. A complete part becomes a delivery, or
is discarded when it is not what was declared. All of this happens under the
upload lock, with the content lock taken inside it for the delivery.
-/

namespace MiRelay

/-- `MAX_UPLOAD_RECORD_BYTES`. -/
def maxUploadRecordBytes : Nat := 32 * 1024

/-- One character in a JSON string as `serde_json` writes it. -/
def jsonEscape (c : Char) : List Char :=
  if c = '"' then ['\\', '"']
  else if c = '\\' then ['\\', '\\']
  else if c.toNat = 0x08 then ['\\', 'b']
  else if c.toNat = 0x09 then ['\\', 't']
  else if c.toNat = 0x0a then ['\\', 'n']
  else if c.toNat = 0x0c then ['\\', 'f']
  else if c.toNat = 0x0d then ['\\', 'r']
  else if c.toNat < 0x20 then
    ['\\', 'u', '0', '0', Nat.digitChar (c.toNat / 16), Nat.digitChar (c.toNat % 16)]
  else [c]

/-- A JSON string. -/
def jsonString (s : String) : List Char := '"' :: s.toList.flatMap jsonEscape ++ ['"']

/-- A JSON number. -/
def jsonNumber (n : Nat) : List Char := Nat.toDigits 10 n

/-- A field of a JSON object. -/
def jsonField (name : String) (value : List Char) : List Char :=
  '"' :: name.toList ++ ['"', ':'] ++ value

/-- A JSON object of these fields. -/
def jsonObject (fields : List (List Char)) : List Char :=
  Char.ofNat 0x7b :: [','].intercalate fields ++ [Char.ofNat 0x7d]

/-- The record as it is written to its file. -/
def UploadRecord.json (r : UploadRecord) : List Char :=
  jsonObject <|
    (match r.directory with
      | some v => [jsonField "directory" (jsonObject
          [jsonField "path" (jsonString v.path), jsonField "version" (jsonNumber v.version)])]
      | none => []) ++
    [jsonField "version" (jsonNumber r.version), jsonField "id" (jsonString r.id),
      jsonField "device_id" (jsonString r.deviceId),
      jsonField "original_name" (jsonString r.originalName),
      jsonField "media_type" (jsonString r.mediaType), jsonField "sha256" (jsonString r.sha256),
      jsonField "length" (jsonNumber r.length), jsonField "offset" (jsonNumber r.offset),
      jsonField "metadata_header" (jsonString r.metadataHeader),
      jsonField "created_at_unix" (jsonNumber r.createdAtUnix),
      jsonField "delivery_id" (match r.deliveryId with
        | some id => jsonString id
        | none => "null".toList)]

structure NewUpload where
  directory : Option DirectoryVersion
  originalName : String
  mediaType : String
  sha256 : String
  length : Nat
  metadataHeader : String
  deriving DecidableEq, Repr

structure UploadInfo where
  id : String
  length : Nat
  offset : Nat
  metadataHeader : String
  deliveryId : Option String
  deriving DecidableEq, Repr

namespace UploadRecord

/-- `UploadRecord::info`. -/
def info (r : UploadRecord) : UploadInfo :=
  { id := r.id, length := r.length, offset := r.offset, metadataHeader := r.metadataHeader
    deliveryId := r.deliveryId }

/-- What a record says of its upload. -/
def upload (r : UploadRecord) : NewUpload :=
  { directory := r.directory, originalName := r.originalName, mediaType := r.mediaType
    sha256 := r.sha256, length := r.length, metadataHeader := r.metadataHeader }

end UploadRecord

inductive AppendUploadOutcome
  | appended (info : UploadInfo)
  | notFound
  | offsetMismatch (info : UploadInfo)
  | tooLarge (info : UploadInfo)
  deriving DecidableEq, Repr

/-- `validate_upload_id`. -/
def validateUploadId (id : String) : Result Unit := do
  validateDeliveryId id
  ensureUuid id "tus upload id is not in canonical form"

/-- Bytes written into a file from an offset on. -/
def writeAt (file : Bytes) (offset : Nat) (chunk : Bytes) : Bytes :=
  file.take offset ++ List.replicate (offset - file.length) 0 ++ chunk ++
    file.drop (offset + chunk.length)

namespace ServerStore

open Relay Proc

variable (store : ServerStore) (sha256 : Bytes → String)

/-- `validate_new_upload`. -/
def validateNewUpload (upload : NewUpload) : Result Unit := do
  (match upload.directory with
    | some directory => do
      directory.validate
      ensure (fileName directory.path == upload.originalName) "Directory filename and path disagree."
    | none => .ok ())
  validateDeliveryMetadata
    { schemaVersion := manifestSchemaVersion, id := "00000000-0000-4000-8000-000000000000"
      originalName := upload.originalName, payload := "", size := upload.length
      sha256 := upload.sha256, mediaType := upload.mediaType, createdAtUnix := some 0 }
    store.maxFileSize
  ensure (upload.metadataHeader.toList ≠ [] &&
      utf8Len upload.metadataHeader.toList ≤ maxUploadRecordBytes &&
      !upload.metadataHeader.toList.any isControl)
    "upload metadata header is empty, too long, or contains control characters"

/-- `validate_upload_record`. -/
def validateUploadRecord (uploadId : String) (record : UploadRecord) : Result Unit := do
  validateUploadId uploadId
  ensure (record.version == 1 && record.id == uploadId)
    "tus record identity or version is invalid"
  validateDeviceId record.deviceId
  ensure (record.offset ≤ record.length) "tus record offset exceeds its upload length"
  store.validateNewUpload record.upload
  ensure (record.deliveryId.all (· == record.id)) "tus record contains an inconsistent delivery id"

/-- What `write_upload_record` checks before it replaces the file. -/
def checkUploadRecord (record : UploadRecord) : Result Unit := do
  store.validateUploadRecord record.id record
  ensure (utf8Len record.json ≤ maxUploadRecordBytes)
    "serialized tus record exceeds its safety limit"

/-- `read_upload_record`. -/
def readUploadRecord (s : Relay) (uploadId : String) : Result (Option UploadRecord) := do
  validateUploadId uploadId
  match s.records.lookup uploadId with
  | none => return none
  | some record =>
    ensure (utf8Len record.json ≤ maxUploadRecordBytes)
      "tus record exceeds its safety limit"
    store.validateUploadRecord uploadId record
    return some record

instance neZero_timeBound : NeZero (2 ^ 63) := ⟨by decide⟩

/-- The first of the drawn identities that is free gets a record and then an empty part. -/
def allocateUpload (device : String) (upload : NewUpload) (now : Fin (2 ^ 63))
    (between : List (List Interference)) : List String → Task store sha256 UploadInfo
  | [] => fail (.message "failed to allocate a unique tus upload id")
  | id :: rest => do
    ofExcept (validateUploadId id)
    let s ← get
    if (s.records.lookup id).isSome || (s.parts.lookup id).isSome then
      allocateUpload device upload now between rest
    else
      -- Ownership is on disk before any byte of the payload can be.
      let record : UploadRecord :=
        { directory := upload.directory, version := 1, id, deviceId := device
          originalName := upload.originalName, mediaType := upload.mediaType
          sha256 := upload.sha256, length := upload.length, offset := 0
          metadataHeader := upload.metadataHeader, createdAtUnix := now, deliveryId := none }
      ofExcept (store.checkUploadRecord record)
      emit (.createRecord record)
      store.interfere sha256 (between.getD 2 [])
      emit (.createPart device id)
      return record.info

/-- `create_upload`; `candidates` are the identities drawn, `now` is a time of the system
clock, whose seconds are an `i64`. -/
def createUpload (device : String) (upload : NewUpload) (candidates : List String)
    (now : Fin (2 ^ 63)) (between : List (List Interference)) : Task store sha256 UploadInfo := do
  ofExcept (validateDeviceId device)
  ofExcept (store.validateNewUpload upload)
  let s ← get
  ofExcept (if upload.directory.isSome then s.db.requireDirectoryReceiver device else .ok ())
  store.interfere sha256 (between.getD 0 [])
  let s ← get
  ofExcept (s.db.requireDeviceOpen device)
  store.interfere sha256 (between.getD 1 [])
  store.allocateUpload sha256 device upload now between (candidates.take 16)

/-- `reconcile_upload_data`. -/
def reconcileUploadData (record : UploadRecord) : Task store sha256 Unit :=
  if record.deliveryId.isSome then return
  else do
    let s ← get
    match s.parts.lookup record.id with
    | none => fail (.message "failed to open tus upload data")
    | some bytes =>
      if bytes.length < record.offset then
        fail (.message
          s!"tus upload {record.id} contains {bytes.length} bytes but records offset {record.offset}")
      else if record.offset < bytes.length then
        emit (.writePart record.id (bytes.take record.offset))
      else return

/-- `discard_upload`, after a failed read or for the content. -/
def discardUpload (record : UploadRecord) (readFails : Bool) : Task store sha256 Unit := do
  emit (.discardRecord record.id readFails)
  emit (.discardPart record.id)

/-- What happens around one finalization: the others' operations before and after the
delivery is stored, their transactions inside both operations under the content lock, the
time, and whether reading or removing the part fails. -/
structure Circumstances where
  before : List Interference
  storing : List (List Transaction)
  after : List Interference
  collecting : List (List Transaction)
  now : Nat
  readFails : Bool
  removalFails : Bool
  deriving DecidableEq, Repr

/-- The bytes of a part that are what its record declares. -/
def verifyPart (record : UploadRecord) (part : Option Bytes) (readFails : Bool) : Result Bytes := do
  match part with
  | none => .error (.message "failed to open stored media file")
  | some bytes =>
    ensure (!readFails) "failed while reading media bytes"
    verifyRecordedFile sha256 store.maxFileSize bytes record.length record.sha256 record.mediaType
    return bytes

/-- The object of a directory version goes at once when the version was superseded. -/
def collectSuperseded (record : UploadRecord) (c : Circumstances) : Task store sha256 Unit :=
  if record.directory.isSome then do
    store.interfere sha256 c.after
    let _ ← store.garbageCollectDigest sha256 record.sha256 c.collecting
    return
  else return

/-- The part of a completed upload goes; a failure here is reported and otherwise ignored. -/
def removeCompleted (record : UploadRecord) (c : Circumstances) : Task store sha256 Unit :=
  if c.removalFails then return else emit (.removePart record.id)

/-- `finalize_upload`, with the record as it is left in memory. -/
def finalizeUpload (record : UploadRecord) (c : Circumstances) : Task store sha256 UploadRecord :=
  if record.offset ≠ record.length ∨ record.deliveryId.isSome then return record
  else do
    let s ← get
    match store.verifyPart sha256 record (s.parts.lookup record.id) c.readFails with
    | .error e =>
      store.discardUpload sha256 record c.readFails
      fail (.invalidUploadContent record.id e.text)
    | .ok bytes =>
      store.interfere sha256 c.before
      let delivery ← store.enqueueDirectoryWithId sha256 .upload record.deviceId bytes bytes
        record.originalName record.id record.createdAtUnix record.directory c.now c.storing
      let completed := { record with deliveryId := some delivery.deliveryId }
      ofExcept (store.checkUploadRecord completed)
      emit (.complete record)
      store.collectSuperseded sha256 record c
      store.removeCompleted sha256 record c
      return completed

/-- The upload of this identity, if the device has it. -/
def ownUpload (s : Relay) (device uploadId : String) : Result (Option UploadRecord) := do
  let record ← store.readUploadRecord s uploadId
  return record.filter (·.deviceId == device)

/-- `get_upload`. -/
def getUpload (device uploadId : String) (between : List (List Interference))
    (c : Circumstances) : Task store sha256 (Option UploadInfo) := do
  ofExcept (validateDeviceId device)
  ofExcept (validateUploadId uploadId)
  store.interfere sha256 (between.getD 0 [])
  let s ← get
  ofExcept (s.db.requireDeviceOpen device)
  store.interfere sha256 (between.getD 1 [])
  let s ← get
  match ← ofExcept (store.ownUpload s device uploadId) with
  | none => return none
  | some record =>
    store.reconcileUploadData sha256 record
    let record ← store.finalizeUpload sha256 record c
    return some record.info

/-- The bytes of a chunk go to the part; a crash can leave the first `torn` of them. -/
def writeChunk (record : UploadRecord) (chunk : Bytes) (chunkLength torn : Nat) :
    Task store sha256 Unit :=
  if chunkLength = 0 then return
  else do
    ofExcept (ensure (chunk.length == chunkLength)
      s!"buffered tus chunk has size {chunk.length}, expected {chunkLength}")
    let s ← get
    match s.parts.lookup record.id with
    | none => fail (.message "failed to open tus upload data")
    | some bytes =>
      emit (.writePart record.id (writeAt bytes record.offset (chunk.take torn)))
      emit (.writePart record.id (writeAt bytes record.offset chunk))

/-- `append_upload`. -/
def appendUpload (device uploadId : String) (expectedOffset : Nat) (chunk : Bytes)
    (chunkLength torn : Nat) (between : List (List Interference)) (first second : Circumstances) :
    Task store sha256 AppendUploadOutcome := do
  ofExcept (validateDeviceId device)
  ofExcept (validateUploadId uploadId)
  store.interfere sha256 (between.getD 0 [])
  let s ← get
  ofExcept (s.db.requireDeviceOpen device)
  store.interfere sha256 (between.getD 1 [])
  let s ← get
  match ← ofExcept (store.ownUpload s device uploadId) with
  | none => return .notFound
  | some record =>
    store.reconcileUploadData sha256 record
    let record ← store.finalizeUpload sha256 record first
    if expectedOffset ≠ record.offset then return .offsetMismatch record.info
    else if record.length - record.offset < chunkLength then return .tooLarge record.info
    else if record.deliveryId.isSome then return .appended record.info
    else
      store.writeChunk sha256 record chunk chunkLength torn
      let advanced := { record with offset := record.offset + chunkLength }
      ofExcept (ensure (advanced.offset < 2 ^ 64) "tus upload offset overflow")
      ofExcept (store.checkUploadRecord advanced)
      emit (.advance record (chunk.take chunkLength))
      let record ← store.finalizeUpload sha256 advanced second
      return .appended record.info

end ServerStore

end MiRelay
