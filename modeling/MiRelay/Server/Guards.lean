import MiRelay.Server.Exit

/-!
# When the relay may do what it does

For every event the condition under which the relay causes it, as a condition
on the state the event meets. The invariants of whole runs rest on these
conditions alone. Here the operations under the content lock are shown to keep
to them, whatever the others do in between.
-/

namespace MiRelay

open Proc

/-- The relay has finished the exit of the folder this device belongs to. -/
def Database.retired (db : Database) (device : String) : Bool :=
  match stripLead "folder_" device with
  | some id => db.serverCleaned id
  | none => false

@[simp] theorem Database.retired_folderDevice (db : Database) (id : String) :
    db.retired (folderDevice id) = db.serverCleaned id := by
  simp [retired]

/-- An exit the relay has finished has begun. -/
theorem Database.exiting_of_cleaned {db : Database} {id : String}
    (h : db.serverCleaned id = true) : db.exiting id = true := by
  simp only [serverCleaned, exiting, List.any_eq_true, Bool.and_eq_true] at h ⊢
  obtain ⟨row, hrow, hid, -⟩ := h
  exact ⟨row, hrow, hid⟩

/-- An open device is not retired. -/
theorem Database.retired_of_open {db : Database} {device : String} {u : Unit}
    (h : db.requireDeviceOpen device = .ok u) : db.retired device = false := by
  unfold retired
  split
  · rename_i id hid
    by_contra hclean
    rw [Bool.not_eq_false] at hclean
    have hexit := exiting_of_cleaned hclean
    rw [requireDeviceOpen_ok h (stripLead_eq_some hid)] at hexit
    contradiction
  · rfl

namespace Relay

variable (store : ServerStore) (sha256 : Bytes → String)

/-- The upload is complete, its part holds what the record declares, and it names no
delivery yet. -/
structure Verified (s : Relay) (r : UploadRecord) (part : Bytes) : Prop where
  hasRecord : s.records.lookup r.id = some r
  hasPart : s.parts.lookup r.id = some part
  offset : r.offset = r.length
  undelivered : r.deliveryId = none
  length : part.length = r.length
  digest : sha256 part = r.sha256
  mediaType : (mediaOf part).1 = r.mediaType

/-- The delivery is the one of a verified upload. -/
def OfUpload (s : Relay) (device : String) (delivery : Delivery) (createdAt : Nat)
    (directory : Option DirectoryVersion) : Prop :=
  ∃ r part, s.Verified sha256 r part ∧ r.deviceId = device ∧ r.createdAtUnix = createdAt ∧
    r.directory = directory ∧
    delivery = ServerStore.deliveryFor r.originalName r.id r.createdAtUnix (inspection sha256 part)

/-- The state in which a delivery is inserted. -/
structure Insertable (s : Relay) (origin : Origin) (device : String) (delivery : Delivery)
    (createdAt : Nat) (directory : Option DirectoryVersion) (now : Nat) : Prop where
  unretired : s.db.retired device = false
  valid : validateEnqueue device delivery directory store.maxFileSize = .ok ()
  accepted : ∃ db, s.db.enqueue device delivery createdAt directory now = .ok db
  stored : ∃ bytes, s.library.objects.lookup (nameOf sha256 bytes) = some bytes ∧
    delivery.size = bytes.length ∧ delivery.sha256 = sha256 bytes ∧
    delivery.mediaType = (mediaOf bytes).1
  uploaded : origin = .upload → s.OfUpload sha256 device delivery createdAt directory

/-- The condition under which the relay causes an event. -/
def Permitted (s : Relay) : Event → Prop
  | .transaction t => t.lockFree = true
  | .stage _ | .unstage _ | .cleanupStaging => True
  | .persist device bytes =>
    s.library.objects.lookup (nameOf sha256 bytes) = none ∧ s.db.retired device = false
  | .insertDelivery origin device delivery createdAt directory now =>
    Insertable store sha256 s origin device delivery createdAt directory now
  | .collect name =>
    ∀ d ∈ s.db.deliveries.rows, d.acknowledgedAtUnix = none → d.object ≠ some name
  | .erase id name =>
    s.db.exiting id = true ∧ ∀ d ∈ s.db.deliveries.rows, d.acknowledgedAtUnix = none →
      d.sha256 = name.sha256 → d.deviceId = folderDevice id
  | .removeFolder id =>
    s.db.exiting id = true ∧ (∀ r ∈ s.records.values, r.deviceId ≠ folderDevice id) ∧
    (∀ p ∈ s.parts.keys, p ∈ s.records.keys) ∧
    ∀ d ∈ s.db.deliveries.rows, d.deviceId = folderDevice id → ∀ name, d.object = some name →
      s.library.objects.lookup name = none ∨
        ServerStore.isShared s.db (folderDevice id) d.sha256 = true
  | .createRecord r =>
    s.records.lookup r.id = none ∧ s.parts.lookup r.id = none ∧ s.db.retired r.deviceId = false ∧
    store.checkUploadRecord r = .ok () ∧ r.offset = 0 ∧ r.deliveryId = none ∧
    r.createdAtUnix ≤ i64Max
  | .createPart device id =>
    s.parts.lookup id = none ∧ s.db.retired device = false ∧
    ∃ r, s.records.lookup id = some r ∧ r.deviceId = device ∧ r.offset = 0 ∧ r.deliveryId = none
  | .writePart id bytes =>
    ∃ r old, s.records.lookup id = some r ∧ s.parts.lookup id = some old ∧
      r.deliveryId = none ∧ bytes.take r.offset = old.take r.offset ∧ r.offset ≤ bytes.length
  | .advance r chunk =>
    s.records.lookup r.id = some r ∧ r.deliveryId = none ∧
    store.checkUploadRecord { r with offset := r.offset + chunk.length } = .ok () ∧
    ∃ bytes, s.parts.lookup r.id = some bytes ∧ bytes = bytes.take r.offset ++ chunk ∧
      r.offset ≤ bytes.length
  | .complete r =>
    store.checkUploadRecord { r with deliveryId := some r.id } = .ok () ∧
    (∃ part, s.Verified sha256 r part) ∧
    ∃ d ∈ s.db.deliveries.rows, d.deviceId = r.deviceId ∧ d.deliveryId = r.id
  | .removePart id => ∃ r, s.records.lookup id = some r ∧ r.deliveryId.isSome = true
  | .discardRecord id readFails =>
    ∃ r part e, s.records.lookup id = some r ∧ s.parts.lookup id = some part ∧
      part.length = r.offset ∧ r.offset = r.length ∧ r.deliveryId = none ∧
      store.verifyPart sha256 r (some part) readFails = .error e
  | .discardPart id => s.records.lookup id = none
  | .purgePart id =>
    ∃ r f, s.records.lookup id = some r ∧ r.deviceId = folderDevice f ∧ s.db.exiting f = true
  | .purgeRecord id => s.parts.lookup id = none ∧
    ∃ r f, s.records.lookup id = some r ∧ r.deviceId = folderDevice f ∧ s.db.exiting f = true

/-- What stays as it is while the content lock is held and the others' transactions run. -/
structure SameContent (s t : Relay) : Prop where
  library : t.library = s.library
  records : t.records = s.records
  parts : t.parts = s.parts
  db : s.db.Undisturbed t.db

/-- What stays as it is while the upload lock is held. -/
structure SameUploads (s t : Relay) : Prop where
  records : t.records = s.records
  parts : t.parts = s.parts
  exiting : ∀ id, s.db.exiting id = true → t.db.exiting id = true
  cleaned : ∀ id, t.db.serverCleaned id = s.db.serverCleaned id

theorem SameContent.refl (s : Relay) : SameContent s s := ⟨rfl, rfl, rfl, .refl _⟩

theorem SameContent.trans {s t u : Relay} (h : SameContent s t) (h' : SameContent t u) :
    SameContent s u :=
  ⟨h'.library.trans h.library, h'.records.trans h.records, h'.parts.trans h.parts,
    h.db.trans h'.db⟩

theorem SameContent.uploads {s t : Relay} (h : SameContent s t) : SameUploads s t :=
  ⟨h.records, h.parts, h.db.exiting, h.db.cleaned⟩

theorem SameUploads.refl (s : Relay) : SameUploads s s := ⟨rfl, rfl, fun _ h => h, fun _ => rfl⟩

theorem SameUploads.trans {s t u : Relay} (h : SameUploads s t) (h' : SameUploads t u) :
    SameUploads s u :=
  ⟨h'.records.trans h.records, h'.parts.trans h.parts, fun id hid => h'.exiting id (h.exiting id hid),
    fun id => (h'.cleaned id).trans (h.cleaned id)⟩

/-- A device stays retired or not. -/
theorem SameUploads.retired {s t : Relay} (h : SameUploads s t) (device : String) :
    t.db.retired device = s.db.retired device := by
  unfold Database.retired
  split
  · exact h.cleaned _
  · rfl

/-- A verified upload stays verified. -/
theorem SameUploads.verified {s t : Relay} (h : SameUploads s t) {r : UploadRecord} {part : Bytes}
    (hv : s.Verified sha256 r part) : t.Verified sha256 r part :=
  ⟨by rw [h.records]; exact hv.hasRecord, by rw [h.parts]; exact hv.hasPart, hv.offset,
    hv.undelivered, hv.length, hv.digest, hv.mediaType⟩

theorem SameUploads.ofUpload {s t : Relay} (h : SameUploads s t) {device : String}
    {delivery : Delivery} {createdAt : Nat} {directory : Option DirectoryVersion}
    (ho : s.OfUpload sha256 device delivery createdAt directory) :
    t.OfUpload sha256 device delivery createdAt directory := by
  obtain ⟨r, part, hv, hrest⟩ := ho
  exact ⟨r, part, h.verified sha256 hv, hrest⟩

/-- The events of operations that do not hold the upload lock. -/
def outsideEvent : Event → Bool
  | .transaction _ | .stage _ | .unstage _ | .persist .. | .insertDelivery .. | .cleanupStaging
  | .collect _ => true
  | _ => false

/-- A permitted event of such an operation. -/
def PermittedOutside (s : Relay) (e : Event) : Prop :=
  Permitted store sha256 s e ∧ outsideEvent e = true

/-- The event starts an upload, moves its offset on, or purges it. -/
def committing : Event → Bool
  | .createRecord _ | .advance .. | .purgeRecord _ => true
  | _ => false

/-- A permitted event that moves no upload on. -/
def PermittedCalm (s : Relay) (e : Event) : Prop :=
  Permitted store sha256 s e ∧ committing e = false

theorem PermittedOutside.calm {s : Relay} {e : Event} (h : PermittedOutside store sha256 s e) :
    PermittedCalm store sha256 s e := by
  obtain ⟨hp, ho⟩ := h
  refine ⟨hp, ?_⟩
  cases e <;> first | rfl | contradiction

/-- A transaction without a lock leaves what others rely on. -/
theorem sameContent_transaction (s : Relay) {t : Transaction} (h : t.lockFree = true) :
    SameContent s (apply store sha256 s (.transaction t)) := by
  refine ⟨rfl, rfl, rfl, ?_⟩
  cases hp : s.desk.perform store.maxFileSize t with
  | none =>
    simp only [apply, hp, Option.getD_none]
    exact .refl _
  | some d =>
    simp only [apply, hp, Option.getD_some]
    exact Database.undisturbed_perform hp h

/-- An accepted insertion records no exit. -/
theorem folderExits_insert (s : Relay) (device : String) (delivery : Delivery) (createdAt : Nat)
    (directory : Option DirectoryVersion) (now : Nat) :
    ((s.db.enqueue device delivery createdAt directory now).toOption.getD s.db).folderExits =
      s.db.folderExits := by
  cases h : s.db.enqueue device delivery createdAt directory now with
  | error e => rfl
  | ok db => exact (Database.enqueue_ok h).folderExits

/-- Operations under the content lock leave uploads and exits as they are. -/
theorem sameUploads_outside (s : Relay) {e : Event} (h : PermittedOutside store sha256 s e) :
    SameUploads s (apply store sha256 s e) := by
  obtain ⟨hp, ho⟩ := h
  cases e with
  | transaction t => exact (sameContent_transaction store sha256 s hp).uploads
  | stage | unstage | persist | cleanupStaging | collect => exact ⟨rfl, rfl, fun _ h => h, fun _ => rfl⟩
  | insertDelivery origin device delivery createdAt directory now =>
    have hexits := folderExits_insert s device delivery createdAt directory now
    refine ⟨rfl, rfl, fun id hid => ?_, fun id => ?_⟩
    · rw [apply, db_withDb, Database.exiting, hexits]
      exact hid
    · rw [apply, db_withDb, Database.serverCleaned, hexits, Database.serverCleaned]
  | _ => contradiction

end Relay

end MiRelay
