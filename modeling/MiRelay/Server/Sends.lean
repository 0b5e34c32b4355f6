import MiRelay.Server.Reports

/-!
# Sending what a comparison asks for

A sender uploads one new version for each path that the comparison lists as
missing or different. The comparison looks for collisions among the published
inventory and the pending versions, the relay among all versions it ever
recorded. The uploads are all accepted exactly when the recorded paths leave
room for them.
-/

namespace MiRelay

/-- One new version to be sent. -/
structure Send where
  delivery : Delivery
  createdAt : Nat
  version : DirectoryVersion
  now : Nat
  deriving DecidableEq, Repr

namespace Database

/-- The paths of all versions recorded for a device. -/
def recordedPaths (db : Database) (device : String) : List String :=
  (db.directoryVersions.rows.filter (·.deviceId == device)).map (·.path)

/-- Neither path lies below the other. -/
def Apart (p q : String) : Prop := ¬IsAncestor p q ∧ ¬IsAncestor q p

instance (p q : String) : Decidable (Apart p q) := inferInstanceAs (Decidable (_ ∧ _))

/-- Nothing in the tables carries the identity. -/
def Unused (db : Database) (device id : String) : Prop :=
  (∀ d ∈ db.deliveries.rows, ¬(d.deviceId = device ∧ d.deliveryId = id)) ∧
    ∀ v ∈ db.directoryVersions.rows, ¬(v.deviceId = device ∧ v.deliveryId = id)

/-- A valid send with a new identity and a version greater than those recorded for its path. -/
structure Fresh (db : Database) (device : String) (maxFileSize : Nat) (s : Send) : Prop where
  version : s.version.validate = .ok ()
  metadata : validateDeliveryMetadata s.delivery maxFileSize = .ok ()
  createdAt : s.createdAt ≤ i64Max
  unused : db.Unused device s.delivery.id
  greater : ∀ v ∈ db.directoryVersions.rows, v.deviceId = device → v.path = s.version.path →
    v.version < s.version.version

section Sends

variable {db db' : Database} {device : String} {m : Nat} {s : Send}

theorem mem_recordedPaths {p : String} :
    p ∈ db.recordedPaths device ↔
      ∃ v ∈ db.directoryVersions.rows, v.deviceId = device ∧ v.path = p := by
  simp only [recordedPaths, List.mem_map, List.mem_filter, beq_iff_eq, and_assoc]

/-- An insertion that no check stops is carried out. -/
theorem insertDirectoryVersion_isOk {id : String} {version : DirectoryVersion} (now : Nat)
    (hvalid : version.validate = .ok ()) (hfolder : isFolderDevice device = true)
    (hroom : db.versionsOf device version.path ≠ [] ∨ db.pathCount device < maxEntries)
    (hcollision : db.versionCollision device version = false)
    (hid : ∀ v ∈ db.directoryVersions.rows, ¬(v.deviceId = device ∧ v.deliveryId = id)) :
    ∃ db', db.insertDirectoryVersion device id version now = .ok db' := by
  have hfree : ∀ v ∈ db.directoryVersions.rows,
      VersionRow.clash v ⟨device, id, version.path, version.version, false⟩ = false := by
    intro v hv
    simp only [versionCollision, List.any_eq_false] at hcollision
    have h1 := hcollision v hv
    have h2 := hid v hv
    simp only [VersionRow.clash, Bool.eq_false_iff, ne_eq, Bool.and_eq_true, Bool.or_eq_true,
      beq_iff_eq] at h1 ⊢
    rintro ⟨hdev, heq | hpv⟩
    · exact h2 ⟨hdev, heq⟩
    · exact h1 ⟨hdev, .inl (.inl hpv)⟩
  obtain ⟨t, ht⟩ := Option.isSome_iff_exists.mp (Table.insert_isSome_iff.mpr hfree)
  simp only [insertDirectoryVersion, bind_eq_ok, ensure_eq_ok]
  refine ⟨if superseded { db with directoryVersions := t } device version then
      updateAcknowledged { db with directoryVersions := t }
        (fun d => d.deviceId == device && d.deliveryId == id) fun _ => some now
    else { db with directoryVersions := t },
    (), hvalid, (), hfolder, (), by simpa using hroom, (), by simp [hcollision], ?_⟩
  simp only [ht]
  rfl

theorem pathCount_eq_card (db : Database) (device : String) :
    db.pathCount device = (db.recordedPaths device).toFinset.card := by
  rw [List.card_toFinset]
  rfl

end Sends

/-- A device of a paired folder. -/
def sampleFolder : String := "folder_00000000-0000-4000-8000-000000000001"

end Database

end MiRelay
