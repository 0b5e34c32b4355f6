import MiRelay.Core.Durable
import MiRelay.Server.Undisturbed
import MiRelay.Storage.Media

/-!
# The relay's durable state

The database, the content directory and the upload directory, with the atomic
changes the relay makes to them. A content object is named by its digest and
extension, the shard directory being the first two digits of the digest. Each
event says on whose behalf it happens where that matters later; what it does to
the state never depends on that.
-/

namespace MiRelay

/-- `content_dir/<sha256[..2]>/<sha256>.<extension>`. -/
structure ObjectName where
  sha256 : String
  extension : String
  deriving DecidableEq, Repr

/-- The object of a digest and a media type. -/
def objectOf (sha256 mediaType : String) : Option ObjectName :=
  (extensionForMediaType mediaType).map fun extension => ⟨sha256, extension⟩

theorem objectOf_eq_some {sha256 mediaType : String} {name : ObjectName} :
    objectOf sha256 mediaType = some name ↔
      name.sha256 = sha256 ∧ extensionForMediaType mediaType = some name.extension := by
  simp only [objectOf, Option.map_eq_some_iff]
  constructor
  · rintro ⟨extension, hext, rfl⟩
    exact ⟨rfl, hext⟩
  · rintro ⟨rfl, hext⟩
    exact ⟨name.extension, hext, rfl⟩

/-- The object of a delivery. -/
def DeliveryRow.object (row : DeliveryRow) : Option ObjectName := objectOf row.sha256 row.mediaType

/-- The content directory: objects, and the leftovers in its staging directory. -/
structure Library where
  objects : Files ObjectName Bytes
  staged : List Bytes

/-- `UploadRecord`. -/
structure UploadRecord where
  directory : Option DirectoryVersion
  version : Nat
  id : String
  deviceId : String
  originalName : String
  mediaType : String
  sha256 : String
  length : Nat
  offset : Nat
  metadataHeader : String
  createdAtUnix : Nat
  deliveryId : Option String
  deriving DecidableEq, Repr

/-- `ServerStore`, with the bounds `new` checks. -/
structure ServerStore where
  maxFileSize : Nat
  pos : 0 < maxFileSize
  le : maxFileSize ≤ i64Max

/-- Everything the relay keeps on disk. -/
structure Relay where
  desk : Desk
  library : Library
  /-- `<id>.json` in the upload directory. -/
  records : Files String UploadRecord
  /-- `<id>.part` in the upload directory. -/
  parts : Files String Bytes

/-- The database of the relay. -/
abbrev Relay.db (s : Relay) : Database := s.desk.db

/-- A relay right after `initialize`. -/
def Relay.initial : Relay := ⟨Desk.initial, ⟨∅, []⟩, ∅, ∅⟩

/-- Where a delivery came from. -/
inductive Origin
  | direct
  | upload
  deriving DecidableEq, Repr

/-- One atomic change of the relay's durable state. -/
inductive Event
  /-- A transaction that needs no lock. -/
  | transaction (t : Transaction)
  /-- A staging file for a payload, and its removal. -/
  | stage (bytes : Bytes)
  | unstage (bytes : Bytes)
  /-- A staged payload of a device becomes a content object. -/
  | persist (device : String) (bytes : Bytes)
  /-- The transaction of `enqueue_directory_with_id`. -/
  | insertDelivery (origin : Origin) (device : String) (delivery : Delivery) (createdAt : Nat)
      (directory : Option DirectoryVersion) (now : Nat)
  /-- `cleanup_staging`. -/
  | cleanupStaging
  /-- A collector removes an object. -/
  | collect (name : ObjectName)
  /-- The exit of a folder removes an object. -/
  | erase (id : String) (name : ObjectName)
  /-- The second transaction of `clean_exit`. -/
  | removeFolder (id : String)
  /-- A new upload: its record, then its empty part on behalf of a device. -/
  | createRecord (record : UploadRecord)
  | createPart (device id : String)
  /-- The part has these bytes now. -/
  | writePart (id : String) (bytes : Bytes)
  /-- The record moves on over an accepted chunk. -/
  | advance (record : UploadRecord) (chunk : Bytes)
  /-- The record names its delivery. -/
  | complete (record : UploadRecord)
  /-- The part of a completed upload goes. -/
  | removePart (id : String)
  /-- The two removals of `discard_upload`, after a failed read or for the content. -/
  | discardRecord (id : String) (readFails : Bool)
  | discardPart (id : String)
  /-- The two removals of `purge_folder_uploads_locked`. -/
  | purgePart (id : String)
  | purgeRecord (id : String)
  deriving DecidableEq, Repr

namespace Relay

variable (store : ServerStore) (sha256 : Bytes → String)

/-- The name under which bytes are stored. -/
def nameOf (bytes : Bytes) : ObjectName := ⟨sha256 bytes, (mediaOf bytes).2⟩

/-- Change the database. -/
def withDb (s : Relay) (db : Database) : Relay := { s with desk := { s.desk with db } }

/-- Replace one upload record. -/
def withRecord (s : Relay) (record : UploadRecord) : Relay :=
  { s with records := s.records.insert record.id record }

/-- Replace the bytes of one upload part. -/
def withPart (s : Relay) (id : String) (bytes : Bytes) : Relay :=
  { s with parts := s.parts.insert id bytes }

/-- Without the record and the part of one upload. -/
def withoutUpload (s : Relay) (id : String) : Relay :=
  { s with records := s.records.erase id, parts := s.parts.erase id }

section Fields

variable (s : Relay) (db : Database) (record : UploadRecord) (id : String) (bytes : Bytes)

@[simp] theorem db_withDb : (s.withDb db).db = db := rfl

@[simp] theorem library_withDb : (s.withDb db).library = s.library := rfl

@[simp] theorem records_withDb : (s.withDb db).records = s.records := rfl

@[simp] theorem parts_withDb : (s.withDb db).parts = s.parts := rfl

@[simp] theorem desk_withRecord : (s.withRecord record).desk = s.desk := rfl

@[simp] theorem library_withRecord : (s.withRecord record).library = s.library := rfl

@[simp] theorem records_withRecord :
    (s.withRecord record).records = s.records.insert record.id record := rfl

@[simp] theorem parts_withRecord : (s.withRecord record).parts = s.parts := rfl

@[simp] theorem desk_withPart : (s.withPart id bytes).desk = s.desk := rfl

@[simp] theorem library_withPart : (s.withPart id bytes).library = s.library := rfl

@[simp] theorem records_withPart : (s.withPart id bytes).records = s.records := rfl

@[simp] theorem parts_withPart : (s.withPart id bytes).parts = s.parts.insert id bytes := rfl

end Fields

/-- What an event does. -/
def apply (s : Relay) : Event → Relay
  | .transaction t => { s with desk := (s.desk.perform store.maxFileSize t).getD s.desk }
  | .stage bytes => { s with library := { s.library with staged := bytes :: s.library.staged } }
  | .unstage bytes =>
    { s with library := { s.library with staged := s.library.staged.erase bytes } }
  | .persist _ bytes =>
    { s with library :=
        { objects := s.library.objects.insert (nameOf sha256 bytes) bytes
          staged := s.library.staged.erase bytes } }
  | .insertDelivery _ device delivery createdAt directory now =>
    s.withDb ((s.db.enqueue device delivery createdAt directory now).toOption.getD s.db)
  | .cleanupStaging => { s with library := { s.library with staged := [] } }
  | .collect name | .erase _ name =>
    { s with library := { s.library with objects := s.library.objects.erase name } }
  | .removeFolder id => s.withDb (s.db.removeFolder id)
  | .createRecord record => s.withRecord record
  | .createPart _ id => s.withPart id []
  | .writePart id bytes => s.withPart id bytes
  | .advance record chunk => s.withRecord { record with offset := record.offset + chunk.length }
  | .complete record => s.withRecord { record with deliveryId := some record.id }
  | .removePart id | .discardPart id | .purgePart id => { s with parts := s.parts.erase id }
  | .discardRecord id _ | .purgeRecord id => { s with records := s.records.erase id }

/-- An accepted insertion. -/
theorem apply_insertDelivery {s : Relay} {origin : Origin} {device : String} {delivery : Delivery}
    {createdAt : Nat} {directory : Option DirectoryVersion} {now : Nat} {db : Database}
    (h : s.db.enqueue device delivery createdAt directory now = .ok db) :
    apply store sha256 s (.insertDelivery origin device delivery createdAt directory now) =
      s.withDb db := by
  rw [apply, h]
  rfl

/-- An operation on the relay. -/
abbrev Task (α : Type) : Type := Proc (apply store sha256) Error α

/-- The state after a list of events. -/
abbrev replay (s : Relay) (l : List Event) : Relay := after (apply store sha256) s l

end Relay

end MiRelay
