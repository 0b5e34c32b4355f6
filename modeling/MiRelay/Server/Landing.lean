import MiRelay.Server.Identities
import MiRelay.Server.Sends

/-!
# A verified upload lands

What can keep the delivery of a verified upload out of the queue: the exit of
its folder, the version store, which refuses its directory version because of
another delivery, or another payload under the name of its bytes. Short of
these a finalization that runs to its end leaves the row, whatever the others
do in between.
-/

namespace MiRelay

open Proc Relay

namespace Database

/-- The version store takes the version for no delivery but one it has already. -/
def Refuses (db : Database) (device id : String) (version : DirectoryVersion) : Prop :=
  isFolderDevice device = false ∨
    (db.versionsOf device version.path = [] ∧ maxEntries ≤ db.pathCount device) ∨
    ∃ w ∈ db.directoryVersions.rows, w.deviceId = device ∧ w.deliveryId ≠ id ∧
      ((w.path = version.path ∧ w.version = version.version) ∨
        sqlBelow version.path w.path = true ∨ sqlBelow w.path version.path = true)

/-- Every recorded version has its delivery. -/
def VersionsOwned (db : Database) : Prop :=
  ∀ w ∈ db.directoryVersions.rows, db.Has w.deviceId w.deliveryId

variable {db db' : Database} {device id : String}

theorem Has.undisturbed (h : db.Has device id) (hu : Undisturbed db db') : db'.Has device id := by
  obtain ⟨d, hd, hdevice, hid⟩ := h
  obtain ⟨a, ha, -⟩ := hu.kept d hd
  exact ⟨_, ha, hdevice, hid⟩

theorem VersionsOwned.undisturbed (h : db.VersionsOwned) (hu : Undisturbed db db') :
    db'.VersionsOwned := by
  intro v hv
  obtain ⟨w, hw, hdevice, hid, -⟩ := hu.version hv
  have hhas := h w hw
  rw [hdevice, hid] at hhas
  exact hhas.undisturbed hu

theorem VersionsOwned.enqueue {delivery : Delivery} {createdAt : Nat}
    {directory : Option DirectoryVersion} (h : db.VersionsOwned)
    (he : Enqueued db db' device delivery createdAt directory) : db'.VersionsOwned := by
  obtain ⟨acknowledged, -, hrows⟩ := he.deliveries
  intro v hv
  rw [he.versions, List.mem_append] at hv
  rcases hv with hv | hv
  · obtain ⟨d, hd, hd'⟩ := h v hv
    refine ⟨d, ?_, hd'⟩
    rw [hrows]
    exact List.mem_append_left _ hd
  · cases directory with
    | none => simp at hv
    | some version =>
      simp only [Option.map_some, Option.toList_some, List.mem_singleton] at hv
      subst hv
      refine ⟨{ delivery.row device (db.lastSequence + 1) createdAt with
        acknowledgedAtUnix := acknowledged }, ?_, rfl, rfl⟩
      rw [hrows]
      simp

/-- A new delivery that the version store does not refuse is inserted. -/
theorem enqueue_isOk {delivery : Delivery} {createdAt now : Nat}
    {directory : Option DirectoryVersion} (howned : db.VersionsOwned)
    (hfree : ¬db.Has device delivery.id) (hsize : delivery.size ≤ i64Max)
    (hcreated : createdAt ≤ i64Max) (hvalid : ∀ v, directory = some v → v.validate = .ok ())
    (htaken : ∀ v, directory = some v → ¬db.Refuses device delivery.id v) :
    ∃ db', db.enqueue device delivery createdAt directory now = .ok db' := by
  have hclash : ∀ d ∈ db.deliveries.rows,
      DeliveryRow.clash d (delivery.row device (db.lastSequence + 1) createdAt) = false := by
    intro d hd
    by_contra hne
    simp only [DeliveryRow.clash, Delivery.row, Bool.not_eq_false, Bool.and_eq_true,
      beq_iff_eq] at hne
    exact hfree ⟨d, hd, hne⟩
  obtain ⟨deliveries, hins⟩ := Option.isSome_iff_exists.mp (Table.insert_isSome_iff.mpr hclash)
  cases directory with
  | none =>
    refine ⟨{ db with deliveries, lastSequence := db.lastSequence + 1 }, ?_⟩
    simp only [enqueue, bind_eq_ok, ensure_eq_ok, decide_eq_true_eq]
    refine ⟨(), hsize, (), hcreated, ?_⟩
    rw [hins]
    rfl
  | some version =>
    have hrefuses := htaken version rfl
    simp only [Refuses, not_or, not_and, not_le, Bool.not_eq_false, not_exists] at hrefuses
    obtain ⟨hfolder, hroom, hother⟩ := hrefuses
    have hid : ∀ v ∈ db.directoryVersions.rows,
        ¬(v.deviceId = device ∧ v.deliveryId = delivery.id) := by
      rintro v hv ⟨rfl, heq⟩
      have hhas := howned v hv
      rw [heq] at hhas
      exact hfree hhas
    obtain ⟨db', hdb'⟩ := @insertDirectoryVersion_isOk
      { db with deliveries, lastSequence := db.lastSequence + 1 } device delivery.id version now
      (hvalid version rfl)
      hfolder (by
        by_cases hnil : db.versionsOf device version.path = []
        · exact .inr (hroom hnil)
        · exact .inl hnil)
      (by
        simp only [versionCollision, List.any_eq_false, Bool.and_eq_true, Bool.or_eq_true, beq_iff_eq]
        rintro v hv ⟨hdevice, hcollides⟩
        have hne : v.deliveryId ≠ delivery.id := fun heq => hid v hv ⟨hdevice, heq⟩
        have hnot := hother v hv hdevice hne
        rcases hcollides with (⟨hpath, hversion⟩ | hbelow) | habove
        · exact hnot.1 hpath hversion
        · exact hnot.2.1 hbelow
        · exact hnot.2.2 habove) hid
    refine ⟨db', ?_⟩
    simp only [enqueue, bind_eq_ok, ensure_eq_ok, decide_eq_true_eq]
    refine ⟨(), hsize, (), hcreated, ?_⟩
    rw [hins]
    exact hdb'

end Database

namespace ServerStore

variable {store : ServerStore} {sha256 : Bytes → String} {s : Relay}

theorem versionsOwned_step {e : Event} (h : s.db.VersionsOwned) (hp : Permitted store sha256 s e) :
    (apply store sha256 s e).db.VersionsOwned := by
  cases e with
  | transaction t => exact h.undisturbed (sameContent_transaction store sha256 s hp).db
  | insertDelivery origin device delivery createdAt directory now =>
    obtain ⟨db, hdb⟩ := hp.accepted
    rw [apply_insertDelivery store sha256 hdb]
    exact h.enqueue (Database.enqueue_ok hdb)
  | removeFolder f =>
    intro w hw
    obtain ⟨hw, hdevice⟩ := Table.mem_delete.mp hw
    obtain ⟨d, hd, hdev, hid⟩ := h w hw
    refine ⟨d, Table.mem_delete.mpr ⟨hd, ?_⟩, hdev, hid⟩
    rw [hdev]
    exact hdevice
  | _ => exact h

/-- The row is there, or one of the reasons why it is not. -/
def Landed (sha256 : Bytes → String) (r : UploadRecord) (bytes : Bytes) (t : Relay) : Prop :=
  t.db.Has r.deviceId r.id ∨ ¬t.db.Open r.deviceId ∨
    (∃ v, r.directory = some v ∧ t.db.Refuses r.deviceId r.id v) ∨
    ∃ b, t.library.objects.lookup (nameOf sha256 bytes) = some b ∧ b ≠ bytes

/-- The delivery of these bytes passes the checks before the content lock. -/
structure Deliverable (store : ServerStore) (sha256 : Bytes → String) (r : UploadRecord)
    (bytes : Bytes) : Prop where
  device : validateDeviceId r.deviceId = .ok ()
  directory : ∀ v, r.directory = some v → v.validate = .ok ()
  metadata : validateDeliveryMetadata (deliveryFor r.originalName r.id r.createdAtUnix
    (inspection sha256 bytes)) store.maxFileSize = .ok ()
  createdAt : r.createdAtUnix ≤ i64Max

/-- A valid digest is in lower case. -/
theorem toLower_of_validateSha256 {sha : String} {u : Unit} (h : validateSha256 sha = .ok u) :
    String.ofList (sha.toList.map Char.toLower) = sha := by
  simp only [validateSha256, ensure_eq_ok, Bool.and_eq_true, List.all_eq_true] at h
  have hsame : sha.toList.map Char.toLower = sha.toList := by
    conv_rhs => rw [← List.map_id sha.toList]
    refine List.map_congr_left fun c hc => ?_
    have hhex := h.2 c hc
    simp only [isHexLower, Char.isDigit, Bool.or_eq_true, Bool.and_eq_true,
      decide_eq_true_eq] at hhex
    rw [id, Char.toLower, dif_neg]
    rintro ⟨hupper, hupper'⟩
    simp only [Char.le_def, UInt32.le_iff_toNat_le] at hhex hupper hupper'
    have hA : 'A'.val.toNat = 65 := rfl
    have hZ : 'Z'.val.toNat = 90 := rfl
    have ha : 'a'.val.toNat = 97 := rfl
    have h9 : '9'.val.toNat = 57 := rfl
    omega
  rw [hsame, String.ofList_toList]

/-- The bytes of a delivery that passes the checks are received as they are. -/
theorem verifyReceived_isOk {r : UploadRecord} {bytes : Bytes}
    (h : Deliverable store sha256 r bytes) :
    store.verifyReceived sha256 (deliveryFor r.originalName r.id r.createdAtUnix
      (inspection sha256 bytes)) bytes = .ok (inspection sha256 bytes) := by
  obtain ⟨hpos, hmax, hsha, -⟩ := validateDeliveryMetadata_ok h.metadata
  have hpos : 0 < bytes.length := hpos
  have hmax : bytes.length ≤ store.maxFileSize := hmax
  simp only [verifyReceived, copyAndInspect, bind_eq_ok, ensure_eq_ok, pure_eq_ok,
    decide_eq_true_eq, beq_iff_eq]
  refine ⟨_, ⟨(), hmax, (), ⟨(), ?_, ?_⟩, (), ?_, rfl⟩, (), ?_, (), rfl, rfl⟩
  · exact le_refl bytes.length
  · rfl
  · omega
  · exact (toLower_of_validateSha256 hsha).symm

/-- Receiving such bytes fails only when another payload has their name. -/
theorem receive_lands {r : UploadRecord} {bytes : Bytes} {device : String}
    (h : Deliverable store sha256 r bytes) :
    Meets (store.receive sha256 device (deliveryFor r.originalName r.id r.createdAtUnix
      (inspection sha256 bytes)) bytes) s (fun _ _ => True) fun result t =>
        ∀ e, result = .error e → ∃ b, t.library.objects.lookup (nameOf sha256 bytes) = some b ∧
          b ≠ bytes := by
  unfold receive
  refine Meets.decide (fun _ _ => Meets.step trivial ?_) fun e he => ?_
  · rw [verifyReceived_isOk h]
    refine Meets.read ?_
    cases hl : (apply store sha256 s (.stage bytes)).library.objects.lookup
        ⟨(inspection sha256 bytes).sha256, (inspection sha256 bytes).extension⟩ with
    | none => exact Meets.step trivial (by simp)
    | some existing =>
      refine Meets.step trivial ?_
      by_cases hsame : existing = bytes
      · -- The object holds these bytes, so it is found to be what was inspected.
        subst hsame
        obtain ⟨hpos, hmax, -⟩ := validateDeliveryMetadata_ok h.metadata
        have hpos : 0 < existing.length := hpos
        have hinspect : inspectFile sha256 store.maxFileSize existing =
            .ok (inspection sha256 existing) :=
          (inspectFile_ok sha256).mpr ⟨hmax, by omega, rfl⟩
        rw [hinspect]
        refine Meets.decide (fun found hfound => ?_) fun e he => by contradiction
        obtain rfl := Except.ok.inj hfound
        refine Meets.decide (fun _ _ => by simp) fun e he => ?_
        simp [ensure] at he
      · have hother : ∃ b, (apply store sha256 (apply store sha256 s (.stage bytes))
            (.unstage bytes)).library.objects.lookup (nameOf sha256 bytes) = some b ∧ b ≠ bytes :=
          ⟨existing, hl, hsame⟩
        refine Meets.decide (fun _ _ => Meets.decide (fun _ _ => by simp) fun _ _ _ _ => hother)
          fun _ _ _ _ => hother
  · rw [h.metadata] at he
    contradiction

/-- What a received payload is found to be; the database is left alone. -/
theorem receive_found {delivery : Delivery} {bytes : Bytes} {device : String}
    {found : FileInspection}
    (h : (store.receive sha256 device delivery bytes s).result = .ok found) :
    found = inspection sha256 bytes ∧
      ((store.receive sha256 device delivery bytes).final s).desk = s.desk := by
  have hall : Meets (store.receive sha256 device delivery bytes) s (fun _ _ => True)
      (OnSuccess fun found t => found = inspection sha256 bytes ∧ t.desk = s.desk) := by
    unfold receive
    refine Meets.check fun _ _ => Meets.step trivial ?_
    cases hv : store.verifyReceived sha256 delivery bytes with
    | error e => exact Meets.step trivial (by simp)
    | ok found =>
      obtain rfl := verifyReceived_ok hv
      refine Meets.read ?_
      cases (apply store sha256 s (.stage bytes)).library.objects.lookup
          ⟨(inspection sha256 bytes).sha256, (inspection sha256 bytes).extension⟩ with
      | none =>
        refine Meets.step trivial ?_
        rw [meets_pure, onSuccess_ok]
        exact ⟨rfl, rfl⟩
      | some existing =>
        refine Meets.step trivial (Meets.check fun _ _ => Meets.check fun _ _ => ?_)
        rw [meets_pure, onSuccess_ok]
        exact ⟨rfl, rfl⟩
  exact hall.2 found h

theorem requireDeviceOpen_error {db : Database} {device : String} {e : Error}
    (h : db.requireDeviceOpen device = .error e) : ¬db.Open device := by
  intro hopen
  unfold Database.requireDeviceOpen at h
  split at h
  · rename_i id hid
    rw [hopen id (stripLead_eq_some hid)] at h
    simp [ensure] at h
  · contradiction

/-- Asking for a delivery that is not there finds none. -/
theorem replayedDelivery_none {db : Database} {r : UploadRecord} {bytes : Bytes}
    (h : Deliverable store sha256 r bytes) (hfree : ¬db.Has r.deviceId r.id) :
    db.replayedDelivery r.deviceId (deliveryFor r.originalName r.id r.createdAtUnix
      (inspection sha256 bytes)) r.createdAtUnix r.directory store.maxFileSize = .ok none := by
  have hid : validateDeliveryId r.id = .ok () := by
    have hmeta := h.metadata
    simp only [validateDeliveryMetadata, bind_eq_ok] at hmeta
    obtain ⟨_, -, _, hid, -⟩ := hmeta
    exact hid
  have hfind : db.findDelivery r.deviceId r.id = none := by
    rw [Database.findDelivery, List.find?_eq_none]
    intro d hd hmatch
    rw [Bool.and_eq_true, beq_iff_eq, beq_iff_eq] at hmatch
    exact hfree ⟨d, hd, hmatch⟩
  simp only [Database.replayedDelivery, Database.getDelivery, deliveryFor, bind_eq_ok]
  exact ⟨none, ⟨(), h.device, (), hid, by rw [hfind]; rfl⟩, rfl⟩

/-- Enqueueing a deliverable upload fails only for one of the reasons. -/
theorem enqueueDirectoryWithId_lands {r : UploadRecord} {bytes : Bytes} {now : Nat}
    {between : List (List Transaction)} (h : Deliverable store sha256 r bytes)
    (howned : s.db.VersionsOwned) :
    Meets (store.enqueueDirectoryWithId sha256 .upload r.deviceId bytes bytes r.originalName r.id
        r.createdAtUnix r.directory now between) s (fun _ _ => True) fun result t =>
      ∀ e, result = .error e → Landed sha256 r bytes t := by
  obtain ⟨hpos, hmax, -⟩ := validateDeliveryMetadata_ok h.metadata
  have hpos : 0 < bytes.length := hpos
  have hmax : bytes.length ≤ store.maxFileSize := hmax
  have hdescribe : store.describe sha256 r.deviceId bytes r.originalName r.id r.createdAtUnix
      r.directory = .ok (deliveryFor r.originalName r.id r.createdAtUnix
        (inspection sha256 bytes)) := by
    simp only [describe, bind_eq_ok]
    refine ⟨(), h.device, (), ?_, _, (inspectFile_ok sha256).mpr ⟨hmax, by omega, rfl⟩,
      (), h.metadata, rfl⟩
    cases hd : r.directory with
    | none => rfl
    | some version => exact h.directory version hd
  unfold enqueueDirectoryWithId
  rw [hdescribe]
  refine Meets.decide (fun delivery hdelivery => ?_) fun e he => by contradiction
  obtain rfl := Except.ok.inj hdelivery
  refine Meets.always pause_meets.forget rfl fun s₁ h₁ => Meets.read (Meets.decide (fun _ _ => ?_) fun e he => ?_)
  · refine Meets.always pause_meets.forget rfl fun s₂ h₂ => Meets.read ?_
    by_cases hhas : s₂.db.Has r.deviceId r.id
    · -- A row that is there is found or the request fails.
      refine Meets.decide (fun replayed hreplayed => ?_) fun _ _ _ _ => .inl hhas
      cases replayed with
      | some existing => simp
      | none =>
        refine absurd hreplayed ?_
        obtain ⟨d, hd, hdevice, hid⟩ := hhas
        have hfind : (s₂.db.findDelivery r.deviceId r.id).isSome = true := by
          rw [Database.findDelivery, List.find?_isSome]
          exact ⟨d, hd, by simp [hdevice, hid]⟩
        obtain ⟨row, hrow⟩ := Option.isSome_iff_exists.mp hfind
        intro hnone
        simp only [Database.replayedDelivery, Database.getDelivery, deliveryFor, hrow,
          bind_eq_ok] at hnone
        obtain ⟨found, ⟨_, -, _, -, _, -, hfound⟩, hnone⟩ := hnone
        obtain rfl := Except.ok.inj hfound
        simp only [bind_eq_ok] at hnone
        obtain ⟨_, -, _, -, hnone⟩ := hnone
        cases Except.ok.inj hnone
    · rw [replayedDelivery_none h hhas]
      refine Meets.decide (fun replayed hreplayed => ?_) fun e he => by contradiction
      obtain rfl := Except.ok.inj hreplayed
      rw [meets_bind]
      have hunretired : Meets (store.receive sha256 r.deviceId (deliveryFor r.originalName r.id
          r.createdAtUnix (inspection sha256 bytes)) bytes) s₂ (fun _ _ => True) _ :=
        receive_lands h
      refine ⟨hunretired.1, ?_⟩
      cases hreceive : (store.receive sha256 r.deviceId (deliveryFor r.originalName r.id
          r.createdAtUnix (inspection sha256 bytes)) bytes s₂).result with
      | error e => exact fun _ _ => .inr (.inr (.inr (hunretired.2 e hreceive)))
      | ok found =>
        obtain ⟨rfl, hdesk⟩ := receive_found hreceive
        refine Meets.decide (fun _ _ => ?_) fun e he => by simp [ensure, deliveryFor] at he
        refine Meets.always pause_meets.forget rfl fun s₄ h₄ => Meets.read ?_
        refine Meets.decide (fun _ _ => Meets.step trivial (by simp)) fun e he _ _ => ?_
        by_contra hnot
        simp only [Landed, not_or, not_exists, not_and] at hnot
        have howned₂ : s₂.db.VersionsOwned := howned.undisturbed (h₁.db.trans h₂.db)
        have howned₄ : s₄.db.VersionsOwned := by
          refine Database.VersionsOwned.undisturbed ?_ h₄.db
          rw [Relay.db, hdesk]
          exact howned₂
        obtain ⟨db', hdb'⟩ := @Database.enqueue_isOk _ _ (deliveryFor
          r.originalName r.id r.createdAtUnix (inspection sha256 bytes)) _ now _ howned₄ hnot.1
          (hmax.trans store.le) h.createdAt h.directory hnot.2.2.1
        rw [hdb'] at he
        contradiction
  · exact fun _ _ => .inr (.inl (requireDeviceOpen_error he))

/-- What is true in every state and a finalization needs. -/
structure Sane (store : ServerStore) (s : Relay) : Prop where
  valid : store.RecordsValid s
  owned : s.db.VersionsOwned
  times : ∀ k r, s.records.lookup k = some r → r.createdAtUnix ≤ i64Max

theorem sane_step {e : Event} (h : store.Sane s) (hp : Permitted store sha256 s e) :
    store.Sane (apply store sha256 s e) := by
  refine ⟨recordsValid_step h.valid hp, versionsOwned_step h.owned hp, ?_⟩
  cases e with
  | transaction t =>
    intro k r hr
    rw [(sameContent_transaction store sha256 s hp).records] at hr
    exact h.times k r hr
  | createRecord record =>
    intro k r hr
    rw [apply, records_withRecord, Files.lookup_insert] at hr
    split at hr
    · obtain rfl := Option.some.inj hr
      exact hp.2.2.2.2.2.2
    · exact h.times k r hr
  | advance record chunk =>
    intro k r hr
    rw [apply, records_withRecord, Files.lookup_insert] at hr
    split at hr
    · obtain rfl := Option.some.inj hr
      exact h.times _ record hp.1
    · exact h.times k r hr
  | complete record =>
    obtain ⟨-, ⟨part, hv⟩, -⟩ := hp
    intro k r hr
    rw [apply, records_withRecord, Files.lookup_insert] at hr
    split at hr
    · obtain rfl := Option.some.inj hr
      exact h.times _ record hv.hasRecord
    · exact h.times k r hr
  | discardRecord id readFails | purgeRecord id =>
    intro k r hr
    rw [apply, Files.lookup_erase] at hr
    split at hr
    · contradiction
    · exact h.times k r hr
  | _ => exact h.times

/-- A complete upload whose delivery is not in the queue has one of the reasons. -/
def Resolved (sha256 : Bytes → String) (device id : String) (t : Relay) : Prop :=
  ∀ r part, t.records.lookup id = some r → r.deviceId = device → r.deliveryId = none →
    r.offset = r.length → t.parts.lookup id = some part →
    r.Declares sha256 (part.take r.offset) → Landed sha256 r (part.take r.offset) t

/-- A valid record whose part is what it declares can be delivered. -/
theorem Sane.deliverable (h : store.Sane s) {r : UploadRecord} {bytes : Bytes}
    (hr : s.records.lookup r.id = some r) (hdeclares : r.Declares sha256 bytes) :
    Deliverable store sha256 r bytes := by
  have hcheck := (h.valid _ _ hr).2
  simp only [checkUploadRecord, validateUploadRecord, validateNewUpload, validateUploadId,
    bind_eq_ok] at hcheck
  obtain ⟨_, ⟨_, ⟨_, hid, -⟩, _, -, _, hdevice, _, -, _, ⟨_, hdirectory, _, hmeta, -⟩, -⟩, -⟩ :=
    hcheck
  refine ⟨hdevice, fun v hv => ?_, ?_, h.times _ _ hr⟩
  · simp only [UploadRecord.upload, hv, bind_eq_ok] at hdirectory
    obtain ⟨_, hvalid, -⟩ := hdirectory
    exact hvalid
  · simp only [validateDeliveryMetadata, bind_eq_ok, ensure_eq_ok] at hmeta ⊢
    obtain ⟨_, -, _, -, _, -, _, hname, _, hsize, _, hmax, _, hsha, hmedia⟩ := hmeta
    refine ⟨(), rfl, (), hid, (), rfl, (), hname, (), ?_, (), ?_, (), ?_, ?_⟩
    · rw [show (deliveryFor r.originalName r.id r.createdAtUnix (inspection sha256 bytes)).size =
        r.length from hdeclares.length]
      exact hsize
    · rw [show (deliveryFor r.originalName r.id r.createdAtUnix (inspection sha256 bytes)).size =
        r.length from hdeclares.length]
      exact hmax
    · rw [show (deliveryFor r.originalName r.id r.createdAtUnix (inspection sha256 bytes)).sha256 =
        r.sha256 from hdeclares.digest]
      exact hsha
    · rw [show (deliveryFor r.originalName r.id r.createdAtUnix (inspection sha256 bytes)).mediaType =
        r.mediaType from hdeclares.mediaType]
      exact hmedia

/-- Waiting for others fails nobody. -/
theorem interfere_result {l : List Interference} :
    (store.interfere sha256 l s).result = .ok () := by
  induction l generalizing s with
  | nil => rfl
  | cons i l ih =>
    have hone : (store.interfereOnce sha256 i s).result = .ok () := by
      cases i with
      | transaction t => rfl
      | content request between cut => cases cut <;> rfl
    rw [interfere, result_bind_ok hone]
    exact ih

/-- The others leave the uploads as they are and the tables sane. -/
theorem interfere_sane {l : List Interference} (h : store.Sane s) :
    Meets (store.interfere sha256 l) s (fun _ _ => True)
      (OnSuccess fun _ t => SameUploads s t ∧ store.Sane t) :=
  (interfere_calm.keep h fun _ _ h he => sane_step h he.1).forget

/-- Nothing is left to resolve where there is no such record. -/
theorem Resolved.of_records {device id : String} {t : Relay}
    (h : ∀ r, t.records.lookup id = some r → r.deviceId = device → r.deliveryId = none →
      r.offset ≠ r.length) : Resolved sha256 device id t :=
  fun r _ hr hdevice hnone hcomplete => absurd hcomplete (h r hr hdevice hnone)

/-- Once the record names its delivery nothing is left to resolve. -/
theorem completed_resolves {r : UploadRecord} {c : Circumstances}
    (hr : s.records.lookup r.id = some { r with deliveryId := some r.id }) :
    Meets (do
        store.collectSuperseded sha256 r c
        store.removeCompleted sha256 r c
        return { r with deliveryId := some r.id }) s (fun _ _ => True) fun result t =>
      Resolved sha256 r.deviceId r.id t ∧
        ∀ r', result = .ok r' → r'.deliveryId = none → r.offset ≠ r.length := by
  have hmarked : ∀ t : Relay, t.records = s.records → Resolved sha256 r.deviceId r.id t := by
    intro t ht
    refine .of_records fun r' hr' _ hnone => ?_
    rw [ht, hr] at hr'
    rw [← Option.some.inj hr'] at hnone
    contradiction
  have houtside : Meets (store.collectSuperseded sha256 r c) s (PermittedOutside store sha256) _ :=
    collectSuperseded_outside
  have hsame := sameUploads_of_outside houtside
  rw [meets_bind]
  refine ⟨houtside.forget.1, ?_⟩
  cases (store.collectSuperseded sha256 r c s).result with
  | error e => exact ⟨hmarked _ hsame.records, fun r' hr' => by contradiction⟩
  | ok _ =>
    have hdone : ∀ t : Relay, t.records = s.records →
        Resolved sha256 r.deviceId r.id t ∧ ∀ r' : UploadRecord,
          (.ok { r with deliveryId := some r.id } : Except Error UploadRecord) = .ok r' →
            r'.deliveryId = none → r.offset ≠ r.length := by
      refine fun t ht => ⟨hmarked t ht, fun r' hr' hnone => ?_⟩
      rw [← Except.ok.inj hr'] at hnone
      contradiction
    dsimp only
    unfold removeCompleted
    by_cases hfails : c.removalFails = true
    · rw [if_pos hfails, meets_bind, meets_pure, meets_pure]
      exact hdone _ hsame.records
    · rw [if_neg hfails]
      refine Meets.step trivial ?_
      rw [meets_pure]
      exact hdone _ hsame.records

/-- After a finalization the upload is resolved; one that stays open is not complete. -/
theorem finalizeUpload_resolves {r : UploadRecord} {c : Circumstances} (hr : Ready s r)
    (hsane : store.Sane s) :
    Meets (store.finalizeUpload sha256 r c) s (fun _ _ => True) fun result t =>
      Resolved sha256 r.deviceId r.id t ∧
        ∀ r', result = .ok r' → r'.deliveryId = none → r.offset ≠ r.length := by
  have hsame : ∀ t : Relay, t.records = s.records → ∀ r', t.records.lookup r.id = some r' → r' = r := by
    intro t ht r' hr'
    rw [ht, hr.1] at hr'
    exact (Option.some.inj hr').symm
  unfold finalizeUpload
  rw [meets_ite]
  refine ⟨fun hdone => ?_, fun hcomplete => Meets.read ?_⟩
  · rw [meets_pure]
    refine ⟨fun r' part hr' _ hnone hcomplete => ?_, fun r' hr' hnone => ?_⟩
    · obtain rfl := hsame s rfl r' hr'
      simp [hcomplete, hnone] at hdone
    · obtain rfl := Except.ok.inj hr'
      simpa [hnone] using hdone
  rw [not_or, not_not, Bool.not_eq_true, Option.isSome_eq_false_iff,
    Option.isNone_iff_eq_none] at hcomplete
  obtain ⟨hoffset, hopen⟩ := hcomplete
  obtain ⟨part, hready, hsize⟩ := hr.2 hopen
  rw [hready]
  cases hverify : store.verifyPart sha256 r (some part) c.readFails with
  | error e =>
    -- The discarded record is gone.
    rw [meets_bind]
    refine Meets.step trivial ?_
    rw [meets_emit]
    refine ⟨trivial, ?_⟩
    rw [meets_fail]
    refine ⟨.of_records fun r' hr' => ?_, fun r' hr' => by contradiction⟩
    have hr' : (s.records.erase r.id).lookup r.id = some r' := hr'
    rw [Files.lookup_erase, if_pos rfl] at hr'
    contradiction
  | ok bytes =>
    obtain ⟨hpart, -, hlength, hsha, hmedia⟩ := verifyPart_ok hverify
    obtain rfl := Option.some.inj hpart
    have hdeclares : r.Declares sha256 part := ⟨hlength, hsha, hmedia⟩
    have hverified : s.Verified sha256 r part := ⟨hr.1, hready, hoffset, hopen, hlength, hsha, hmedia⟩
    dsimp only
    refine Meets.always (interfere_sane hsane) interfere_result fun s₁ ⟨h₁, hsane₁⟩ => ?_
    have hr₁ : s₁.records.lookup r.id = some r := by
      rw [h₁.records]
      exact hr.1
    have hdeliverable := hsane₁.deliverable hr₁ hdeclares
    have hupload : s₁.OfUpload sha256 r.deviceId (deliveryFor r.originalName r.id r.createdAtUnix
        (inspection sha256 part)) r.createdAtUnix r.directory :=
      ⟨r, part, h₁.verified sha256 hverified, rfl, rfl, rfl, rfl⟩
    have hguard : Meets (store.enqueueDirectoryWithId sha256 .upload r.deviceId part part
        r.originalName r.id r.createdAtUnix r.directory c.now c.storing) s₁ (PermittedOutside store
          sha256) _ := enqueueDirectoryWithId_meets fun _ => hupload
    have henqueue := hguard.forget.and (enqueueDirectoryWithId_lands hdeliverable hsane₁.owned)
    have huploads := sameUploads_of_outside hguard
    -- The record stays until the upload is marked complete; it is resolved by a reason or its row.
    have hresolved : ∀ t : Relay, SameUploads s₁ t → Landed sha256 r part t →
        Resolved sha256 r.deviceId r.id t := by
      intro t ht hland r' part' hr' _ _ _ hpart' _
      obtain rfl := hsame t (ht.records.trans h₁.records) r' hr'
      rw [ht.parts, h₁.parts, hready] at hpart'
      obtain rfl := Option.some.inj hpart'
      rwa [← hsize, List.take_length]
    rw [meets_bind]
    refine ⟨henqueue.1.mono fun _ _ _ => trivial, ?_⟩
    cases hresult : (store.enqueueDirectoryWithId sha256 .upload r.deviceId part part
        r.originalName r.id r.createdAtUnix r.directory c.now c.storing s₁).result with
    | error e =>
      exact ⟨hresolved _ huploads (henqueue.2.2 e hresult), fun r' hr' => by contradiction⟩
    | ok row =>
      obtain ⟨hid, hrow⟩ := henqueue.2.1 row hresult
      refine Meets.decide (fun _ _ => Meets.step trivial ?_) fun e he =>
        ⟨hresolved _ huploads (.inl hrow), fun r' hr' => by contradiction⟩
      rw [hid]
      exact completed_resolves (AList.lookup_insert _)

/-- A part that does not reach the offset holds nothing that could be delivered. -/
theorem reconcileUploadData_resolves {r : UploadRecord} (hr : s.records.lookup r.id = some r)
    (hsane : store.Sane s) :
    Meets (store.reconcileUploadData sha256 r) s (fun _ _ => True) fun result t =>
      (∀ u, result = .ok u → Ready t r ∧ store.Sane t) ∧
        ∀ e, result = .error e → Resolved sha256 r.deviceId r.id t := by
  have hdone := @reconcileUploadData_meets store sha256 s r hr
  have hok := hdone.keep hsane fun _ _ h he => sane_step h he.1
  suffices herr : Meets (store.reconcileUploadData sha256 r) s (fun _ _ => True)
      fun result t => ∀ e, result = .error e → Resolved sha256 r.deviceId r.id t by
    exact (hok.forget.and herr).mono (fun _ _ _ => trivial) fun result t h =>
      ⟨fun u hu => ⟨(h.1 u hu).1.1, (h.1 u hu).2⟩, h.2⟩
  unfold reconcileUploadData
  rw [meets_ite]
  refine ⟨fun _ => by simp, fun _ => Meets.read ?_⟩
  cases hpart : s.parts.lookup r.id with
  | none =>
    rw [meets_fail]
    intro _ _ r' part _ _ _ _ hpart'
    rw [hpart] at hpart'
    contradiction
  | some bytes =>
    dsimp only
    rw [meets_ite, meets_ite]
    refine ⟨fun hshort => ?_, fun _ => ⟨fun _ => by simp, fun _ => by simp⟩⟩
    rw [meets_fail]
    intro _ _ r' part hr' _ _ hcomplete hpart' hdeclares
    rw [hr] at hr'
    obtain rfl := Option.some.inj hr'
    rw [hpart] at hpart'
    obtain rfl := Option.some.inj hpart'
    have hlength := hdeclares.length
    rw [List.length_take] at hlength
    omega

/-- The owner of a stored upload passes the checks of the request. -/
theorem Sane.ids (h : store.Sane s) {id : String} {r : UploadRecord}
    (hr : s.records.lookup id = some r) :
    validateDeviceId r.deviceId = .ok () ∧ validateUploadId id = .ok () := by
  obtain ⟨rfl, hcheck⟩ := h.valid id r hr
  simp only [checkUploadRecord, validateUploadRecord, bind_eq_ok] at hcheck
  obtain ⟨_, ⟨_, hid, _, -, _, hdevice, -⟩, -⟩ := hcheck
  exact ⟨hdevice, hid⟩

/-- Reading a device's upload in a sane state. -/
theorem Sane.ownUpload (h : store.Sane s) {device id : String}
    (hid : validateUploadId id = .ok ()) :
    store.ownUpload s device id = .ok ((s.records.lookup id).filter (·.deviceId == device)) := by
  have hread : store.readUploadRecord s id = .ok (s.records.lookup id) := by
    cases hr : s.records.lookup id with
    | none =>
      rw [readUploadRecord, bind_eq_ok]
      refine ⟨(), hid, ?_⟩
      rw [hr]
      rfl
    | some r => exact readUploadRecord_of_valid h.valid hr
  simp only [ServerStore.ownUpload, bind_eq_ok, pure_eq_ok]
  exact ⟨_, hread, rfl⟩

/-- What both requests for an upload do before they go on with its record. -/
theorem access_resolves {α : Type} {device id : String} {between : List (List Interference)}
    {next : Option UploadRecord → Task store sha256 α} (hsane : store.Sane s)
    (hnone : ∀ t, Meets (next none) t (fun _ _ => True) fun _ u => u = t)
    (hsome : ∀ (t : Relay) (r : UploadRecord), t.records.lookup r.id = some r → store.Sane t →
      Meets (next (some r)) t (fun _ _ => True) fun _ u => Resolved sha256 r.deviceId r.id u) :
    Meets (do
        ofExcept (validateDeviceId device)
        ofExcept (validateUploadId id)
        store.interfere sha256 (between.getD 0 [])
        let s ← get
        ofExcept (s.db.requireDeviceOpen device)
        store.interfere sha256 (between.getD 1 [])
        let s ← get
        let found ← ofExcept (store.ownUpload s device id)
        next found) s (fun _ _ => True) fun _ t => Resolved sha256 device id t := by
  refine Meets.decide (fun _ _ => Meets.decide (fun _ hid => ?_) fun e he => ?_) fun e he => ?_
  · refine Meets.always (interfere_sane hsane) interfere_result fun s₁ ⟨_, hsane₁⟩ => Meets.read ?_
    refine Meets.decide (fun _ _ => ?_) fun e he => ?_
    · refine Meets.always (interfere_sane hsane₁) interfere_result fun s₂ ⟨_, hsane₂⟩ =>
        Meets.read ?_
      rw [hsane₂.ownUpload hid]
      refine Meets.decide (fun found hfound => ?_) fun e he => by contradiction
      obtain rfl := Except.ok.inj hfound
      cases howned : (s₂.records.lookup id).filter (·.deviceId == device) with
      | none =>
        refine (hnone s₂).mono (fun _ _ h => h) fun _ t ht r part hr hdevice => ?_
        subst ht
        rw [hr, Option.filter_some, if_pos (by simpa using hdevice)] at howned
        contradiction
      | some r =>
        obtain ⟨hr, hdevice⟩ := Option.filter_eq_some_iff.mp howned
        have hid' := (hsane₂.valid id r hr).1
        have hdevice' : r.deviceId = device := by simpa using hdevice
        have hnext := hsome s₂ r (by rw [hid']; exact hr) hsane₂
        rwa [hid', hdevice'] at hnext
    · intro r part _ hdevice _ _ _ _
      refine .inr (.inl ?_)
      rw [hdevice]
      exact requireDeviceOpen_error he
  · intro r part hr
    rw [(hsane.ids hr).2] at he
    contradiction
  · intro r part hr hdevice
    rw [← hdevice, (hsane.ids hr).1] at he
    contradiction

/-- A HEAD request that runs to its end resolves the upload. -/
theorem getUpload_resolves {device id : String} {between : List (List Interference)}
    {c : Circumstances} (hsane : store.Sane s) :
    Meets (store.getUpload sha256 device id between c) s (fun _ _ => True)
      fun _ t => Resolved sha256 device id t := by
  unfold getUpload
  refine access_resolves hsane (fun t => by simp) fun t r hr hsane => ?_
  have hreconcile : Meets (store.reconcileUploadData sha256 r) t _ _ :=
    reconcileUploadData_resolves hr hsane
  rw [meets_bind]
  refine ⟨hreconcile.1, ?_⟩
  cases hresult : (store.reconcileUploadData sha256 r t).result with
  | error e => exact hreconcile.2.2 e hresult
  | ok u =>
    obtain ⟨hready, hsane⟩ := hreconcile.2.1 u hresult
    have hfinalize : Meets (store.finalizeUpload sha256 r c) _ _ _ :=
      finalizeUpload_resolves hready hsane
    dsimp only
    rw [meets_bind]
    refine ⟨hfinalize.1, ?_⟩
    cases (store.finalizeUpload sha256 r c _).result with
    | error e => exact hfinalize.2.1
    | ok r' =>
      dsimp only
      rw [meets_pure]
      exact hfinalize.2.1

end ServerStore

end MiRelay
