import Mathlib
import MiRelay.Server.Relay

/-!
# Storing and collecting content

The operations that hold the content lock: enqueueing a payload, collecting the
object of one digest, and reconciling the whole directory. While one of them
runs, the transactions of others that need no lock still come in between, at
the points where it reads the database again.
-/

namespace MiRelay

/-- The entries of a directory in the order in which the file system lists them. -/
def readDir {κ : Type} [DecidableEq κ] (names order : List κ) : List κ :=
  order.dedup.filter (· ∈ names) ++ names.filter (· ∉ order)

theorem mem_readDir {κ : Type} [DecidableEq κ] {names order : List κ} {k : κ} :
    k ∈ readDir names order ↔ k ∈ names := by
  simp only [readDir, List.mem_append, List.mem_filter, List.mem_dedup, decide_eq_true_eq]
  by_cases h : k ∈ order <;> simp [h]

namespace ServerStore

open Relay Proc

variable (store : ServerStore) (sha256 : Bytes → String)

/-- The others' transactions at one point of an operation that holds the content lock. -/
def pause (between : List (List Transaction)) (point : Nat) : Task store sha256 Unit :=
  await (((between.getD point []).filter (·.lockFree)).map .transaction)

/-- What `receive` checks of the bytes it staged. -/
def verifyReceived (delivery : Delivery) (bytes : Bytes) : Result FileInspection := do
  let found ← copyAndInspect sha256 store.maxFileSize (some delivery.size) bytes
  ensure (found.sha256 == String.ofList (delivery.sha256.toList.map Char.toLower))
    s!"delivery {delivery.id} checksum mismatch: expected {delivery.sha256}, got {found.sha256}"
  ensure (found.mediaType == delivery.mediaType)
    s!"delivery {delivery.id} media type mismatch: manifest says {delivery.mediaType}, content is {found.mediaType}"
  return found

/-- `receive`, of these bytes for a device. -/
def receive (device : String) (delivery : Delivery) (bytes : Bytes) :
    Task store sha256 FileInspection := do
  ofExcept (validateDeliveryMetadata delivery store.maxFileSize)
  emit (.stage bytes)
  match store.verifyReceived sha256 delivery bytes with
  | .error e =>
    -- The staging file is removed when it is dropped.
    emit (.unstage bytes)
    fail e
  | .ok found =>
    let s ← get
    match s.library.objects.lookup ⟨found.sha256, found.extension⟩ with
    | none =>
      emit (.persist device bytes)
      return found
    | some existing =>
      emit (.unstage bytes)
      let present ← ofExcept (inspectFile sha256 store.maxFileSize existing)
      ofExcept (ensure (present == found)
        "content-addressed file exists but does not match its digest")
      return found

/-- The delivery of an inspected input. -/
def deliveryFor (originalName id : String) (createdAt : Nat) (found : FileInspection) :
    Delivery where
  schemaVersion := manifestSchemaVersion
  id := id
  originalName := originalName
  payload := ""
  size := found.size
  sha256 := found.sha256
  mediaType := found.mediaType
  createdAtUnix := some createdAt

/-- What `enqueue_directory_with_id` does before it takes the content lock. -/
def describe (device : String) (input : Bytes) (originalName id : String) (createdAt : Nat)
    (directory : Option DirectoryVersion) : Result Delivery := do
  validateDeviceId device
  (match directory with
    | some version => version.validate
    | none => .ok ())
  let found ← inspectFile sha256 store.maxFileSize input
  let delivery := deliveryFor originalName id createdAt found
  validateDeliveryMetadata delivery store.maxFileSize
  return delivery

/-- `enqueue_directory_with_id`. The input is read twice, for the inspection and again under
the content lock. -/
def enqueueDirectoryWithId (origin : Origin) (device : String) (input again : Bytes)
    (originalName id : String) (createdAt : Nat) (directory : Option DirectoryVersion)
    (now : Nat) (between : List (List Transaction)) : Task store sha256 DeliveryRow := do
  let delivery ← ofExcept (store.describe sha256 device input originalName id createdAt directory)
  store.pause sha256 between 0
  let s ← get
  ofExcept (s.db.requireDeviceOpen device)
  store.pause sha256 between 1
  let s ← get
  let replayed ← ofExcept
    (s.db.replayedDelivery device delivery createdAt directory store.maxFileSize)
  match replayed with
  | some existing => return existing
  | none =>
    let stored ← store.receive sha256 device delivery again
    ofExcept (ensure (stored.size == delivery.size && stored.sha256 == delivery.sha256 &&
      stored.mediaType == delivery.mediaType) "stored server content does not match inspected input")
    store.pause sha256 between 2
    let s ← get
    let _ ← ofExcept (s.db.enqueue device delivery createdAt directory now)
    emit (.insertDelivery origin device delivery createdAt directory now)
    return delivery.row device (s.db.lastSequence + 1) createdAt

/-- `garbage_collect_digest`. Which row of the digest names the type is left to the database;
here it is the first. -/
def garbageCollectDigest (digest : String) (between : List (List Transaction)) :
    Task store sha256 Bool := do
  ofExcept (validateSha256 digest)
  store.pause sha256 between 0
  let s ← get
  if s.db.deliveries.rows.any fun d => d.sha256 == digest && d.acknowledgedAtUnix.isNone then
    return false
  else
    store.pause sha256 between 1
    let s ← get
    match s.db.deliveries.rows.find? (·.sha256 == digest) with
    | none => return false
    | some row =>
      match objectOf digest row.mediaType with
      | none => fail (.message s!"unsupported stored media type {row.mediaType.quote}")
      | some name =>
        if (s.library.objects.lookup name).isSome then
          emit (.collect name)
          return true
        else return false

/-- `ReconcileReport`. -/
structure ReconcileReport where
  referencedObjects : Nat
  healthyObjects : Nat
  missingObjects : Nat
  corruptObjects : Nat
  removedUnreferencedObjects : Nat
  staleStagingFilesRemoved : Nat
  unexpectedEntries : Nat
  deriving DecidableEq, Repr

/-- One pending row in the map of referenced objects. -/
def addReference (referenced : List (ObjectName × DeliveryRow)) (row : DeliveryRow) :
    Result (List (ObjectName × DeliveryRow)) := do
  validateDeliveryMetadata row.delivery store.maxFileSize
  match row.object with
  | none => .error (.message "stored delivery uses an unsupported media type")
  | some name =>
    match referenced.find? (·.1 == name) with
    | none => return referenced ++ [(name, row)]
    | some (_, previous) =>
      ensure (previous.sha256 == row.sha256 && previous.sizeBytes == row.sizeBytes &&
          previous.mediaType == row.mediaType)
        s!"pending deliveries {previous.deliveryId} and {row.deliveryId} contain inconsistent metadata"
      return referenced

/-- The objects of all pending rows. -/
def referencedObjects (db : Database) : Result (List (ObjectName × DeliveryRow)) :=
  (db.deliveries.rows.filter (·.acknowledgedAtUnix.isNone)).foldlM store.addReference []

/-- The state of one referenced object, counted. -/
def countReference (library : Library) (report : ReconcileReport) :
    ObjectName × DeliveryRow → ReconcileReport
  | (name, row) =>
    match library.objects.lookup name with
    | none => { report with missingObjects := report.missingObjects + 1 }
    | some bytes =>
      match verifyRecordedFile sha256 store.maxFileSize bytes row.sizeBytes row.sha256 row.mediaType with
      | .ok () => { report with healthyObjects := report.healthyObjects + 1 }
      | .error _ => { report with corruptObjects := report.corruptObjects + 1 }

/-- `is_owned_content_object_name`, of an object in the shard of its digest. -/
def isOwnedContentObjectName (name : ObjectName) : Bool :=
  (validateSha256 name.sha256).isOk &&
    (["png", "jpg", "gif", "webp", "avif", "txt", "pdf", "zip", "gz", "7z", "rar", "bin", "mp3",
      "wav", "flac", "ogg", "mp4", "webm"].contains name.extension)

/-- The scan of the content directory that removes what no pending row references. -/
def removeUnreferenced (referenced : List ObjectName) (between : List (List Transaction)) :
    List ObjectName → ReconcileReport → Task store sha256 ReconcileReport
  | [], report => return report
  | name :: rest, report => do
    store.pause sha256 between (rest.length + 1)
    if !isOwnedContentObjectName name then
      removeUnreferenced referenced between rest
        { report with unexpectedEntries := report.unexpectedEntries + 1 }
    else if name ∈ referenced then
      removeUnreferenced referenced between rest report
    else
      emit (.collect name)
      removeUnreferenced referenced between rest
        { report with removedUnreferencedObjects := report.removedUnreferencedObjects + 1 }

/-- `reconcile_content`. -/
def reconcileContent (order : List ObjectName) (between : List (List Transaction)) :
    Task store sha256 ReconcileReport := do
  let s ← get
  let stale := s.library.staged.length
  emit .cleanupStaging
  store.pause sha256 between 0
  let s ← get
  let referenced ← ofExcept (store.referencedObjects s.db)
  let report := referenced.foldl (store.countReference sha256 s.library)
    { referencedObjects := referenced.length, healthyObjects := 0, missingObjects := 0
      corruptObjects := 0, removedUnreferencedObjects := 0, staleStagingFilesRemoved := stale
      unexpectedEntries := 0 }
  store.removeUnreferenced sha256 (referenced.map (·.1)) between
    (readDir s.library.objects.keys order) report

/-- One request for an operation under the content lock. -/
inductive ContentSection
  | enqueue (device : String) (input again : Bytes) (originalName id : String) (createdAt now : Nat)
  | garbageCollect (digest : String)
  | reconcile (order : List ObjectName)
  deriving DecidableEq, Repr

/-- The operation of a request. -/
def performSection (between : List (List Transaction)) : ContentSection → Task store sha256 Unit
  | .enqueue device input again originalName id createdAt now => do
    -- `enqueue` names no directory version.
    let _ ← store.enqueueDirectoryWithId sha256 .direct device input again originalName id createdAt
      none now between
    return
  | .garbageCollect digest => do
    let _ ← store.garbageCollectDigest sha256 digest between
    return
  | .reconcile order => do
    let _ ← store.reconcileContent sha256 order between
    return

/-- What others do while the upload lock is held but the content lock is not: transactions
without a lock, and whole operations under the content lock, each cut off after some events. -/
inductive Interference
  | transaction (t : Transaction)
  | content (request : ContentSection) (between : List (List Transaction)) (cut : Option Nat)
  deriving DecidableEq, Repr

/-- One of these. -/
def interfereOnce : Interference → Task store sha256 Unit
  | .transaction t => await (([t].filter (·.lockFree)).map .transaction)
  | .content request between cut => upTo (store.performSection sha256 between request) cut

/-- A list of these. -/
def interfere : List Interference → Task store sha256 Unit
  | [] => return
  | i :: rest => do
    store.interfereOnce sha256 i
    interfere rest

end ServerStore

end MiRelay
