import MiRelay.Server.Uploads

/-!
# The second part of a clean exit

After the revocation is durable the relay takes both locks, removes the uploads
of the folder, and in one transaction removes its content objects and its
metadata. A failure anywhere leaves the exit row uncleaned, and the whole part
is run again.
-/

namespace MiRelay

namespace ServerStore

open Relay Proc

variable (store : ServerStore) (sha256 : Bytes → String)

/-- Every part that is listed has its record. -/
def ensureOwned (s : Relay) : List String → Result Unit
  | [] => .ok ()
  | id :: rest => do
    match ← store.readUploadRecord s id with
    | none => .error (.message
        "Unowned legacy upload fragment requires administrator review before cleanup can be confirmed")
    | some _ => ensureOwned s rest

/-- The listed uploads of the device go, each part before its record. -/
def purgeUploads (device : String) : List String → Task store sha256 Unit
  | [] => return
  | id :: rest => do
    let s ← get
    let record ← ofExcept (store.readUploadRecord s id)
    match record.filter (·.deviceId == device) with
    | none => purgeUploads device rest
    | some _ =>
      emit (.purgePart id)
      emit (.purgeRecord id)
      purgeUploads device rest

/-- `purge_folder_uploads_locked`, for the two listings of the upload directory. -/
def purgeFolderUploadsLocked (device : String) (parts records : List String) :
    Task store sha256 Unit := do
  let s ← get
  ofExcept (store.ensureOwned s (readDir s.parts.keys parts))
  store.purgeUploads sha256 device (readDir s.records.keys records)

/-- Another device still waits for this digest. -/
def isShared (db : Database) (device digest : String) : Bool :=
  db.deliveries.rows.any fun d =>
    d.sha256 == digest && d.deviceId != device && d.acknowledgedAtUnix.isNone

/-- `SELECT DISTINCT sha256,media_type FROM deliveries WHERE device_id=?`. -/
def contentOf (db : Database) (device : String) : List (String × String) :=
  ((db.deliveries.rows.filter (·.deviceId == device)).map fun d => (d.sha256, d.mediaType)).dedup

/-- The objects of the listed digests go, unless they are shared. -/
def eraseObjects (id : String) : List (String × String) → Task store sha256 Unit
  | [] => return
  | (digest, mediaType) :: rest => do
    ofExcept (validateSha256 digest)
    let s ← get
    if isShared s.db (folderDevice id) digest then
      eraseObjects id rest
    else
      match objectOf digest mediaType with
      | none => fail (.message "Invalid stored content type")
      | some name =>
        if (s.library.objects.lookup name).isSome then
          emit (.erase id name)
        eraseObjects id rest

/-- `clean_exit` from where it takes the two locks. -/
def finishExit (id : String) (parts records : List String) (objects : List (String × String))
    (between : List (List Transaction)) : Task store sha256 Bool := do
  store.pause sha256 between 0
  store.purgeFolderUploadsLocked sha256 (folderDevice id) parts records
  store.pause sha256 between 1
  let s ← get
  -- The transaction: what it removes of the metadata is committed at its end.
  store.eraseObjects sha256 id (readDir (contentOf s.db (folderDevice id)) objects)
  emit (.removeFolder id)
  return true

end ServerStore

end MiRelay
