import MiRelay.Directory.Inventory

/-!
# The relay's database

The five tables of schema 5 with their uniqueness constraints, and the queries
and single-statement changes the transactions are made of. Credential hashes are
their hexadecimal text, and a stored inventory is the value its JSON decodes to.
-/

namespace MiRelay

/-- A row of `deliveries`. -/
structure DeliveryRow where
  sequence : Nat
  deviceId : String
  deliveryId : String
  originalName : String
  sizeBytes : Nat
  sha256 : String
  mediaType : String
  createdAtUnix : Nat
  acknowledgedAtUnix : Option Nat
  deriving DecidableEq, Repr

/-- `UNIQUE (device_id, delivery_id)`. -/
def DeliveryRow.clash (a b : DeliveryRow) : Bool :=
  a.deviceId == b.deviceId && a.deliveryId == b.deliveryId

/-- A row of `directory_versions`. -/
structure VersionRow where
  deviceId : String
  deliveryId : String
  path : String
  version : Nat
  conflict : Bool
  deriving DecidableEq, Repr

/-- `PRIMARY KEY(device_id, delivery_id), UNIQUE(device_id, path, version)`. -/
def VersionRow.clash (a b : VersionRow) : Bool :=
  a.deviceId == b.deviceId &&
    (a.deliveryId == b.deliveryId || (a.path == b.path && a.version == b.version))

/-- A row of `directory_indexes`. -/
structure IndexRow where
  deviceId : String
  inventory : Inventory
  deriving DecidableEq, Repr

/-- `device_id TEXT PRIMARY KEY`. -/
def IndexRow.clash (a b : IndexRow) : Bool := a.deviceId == b.deviceId

/-- A row of `folders`. -/
structure FolderRow where
  id : String
  name : String
  receiverHash : String
  senderHash : Option String
  inviteHash : String
  expires : Nat
  ready : Bool
  disconnected : Bool
  deriving DecidableEq, Repr

/-- `id TEXT PRIMARY KEY, receiver_hash BLOB NOT NULL UNIQUE`. -/
def FolderRow.clash (a b : FolderRow) : Bool := a.id == b.id || a.receiverHash == b.receiverHash

/-- A row of `folder_exits`. -/
structure ExitRow where
  folderId : String
  serverCleaned : Bool
  senderCleaned : Bool
  receiverCleaned : Bool
  deriving DecidableEq, Repr

/-- `folder_id TEXT PRIMARY KEY`. -/
def ExitRow.clash (a b : ExitRow) : Bool := a.folderId == b.folderId

/-- The tables, with the highest sequence number ever given out. -/
structure Database where
  deliveries : Table DeliveryRow DeliveryRow.clash
  lastSequence : Nat
  directoryVersions : Table VersionRow VersionRow.clash
  directoryIndexes : Table IndexRow IndexRow.clash
  folders : Table FolderRow FolderRow.clash
  folderExits : Table ExitRow ExitRow.clash

/-- A database right after `initialize`. -/
def Database.initial : Database := ⟨.empty, 0, .empty, .empty, .empty, .empty⟩

/-- The rest of a string behind a leading part. -/
def stripLead (lead s : String) : Option String :=
  if lead.toList.isPrefixOf s.toList then some (String.ofList (s.toList.drop lead.toList.length))
  else none

/-- The queue of a paired folder. -/
def folderDevice (id : String) : String := "folder_" ++ id

@[simp] theorem stripLead_folderDevice (id : String) :
    stripLead "folder_" (folderDevice id) = some id := by
  have hlist : (folderDevice id).toList = "folder_".toList ++ id.toList := String.toList_append
  unfold stripLead
  rw [hlist, if_pos (by simp), List.drop_left, String.ofList_toList]

/-- Only a folder's own queue carries its identity. -/
theorem stripLead_eq_some {device id : String} (h : stripLead "folder_" device = some id) :
    device = folderDevice id := by
  unfold stripLead at h
  split at h
  · rename_i hlead
    rw [List.isPrefixOf_iff_prefix] at hlead
    obtain ⟨rest, hrest⟩ := hlead
    rw [← hrest, List.drop_left, Option.some.injEq] at h
    subst h
    apply String.toList_inj.mp
    rw [← hrest]
    simp [folderDevice]
  · contradiction

/-- `device.starts_with("folder_")`. -/
def isFolderDevice (device : String) : Bool := (stripLead "folder_" device).isSome

namespace Database

/-- The exit of the folder with this identity has begun. -/
def exiting (db : Database) (id : String) : Bool := db.folderExits.rows.any (·.folderId == id)

/-- The relay has finished its part of the exit. -/
def serverCleaned (db : Database) (id : String) : Bool :=
  db.folderExits.rows.any fun row => row.folderId == id && row.serverCleaned

/-- `require_device_open`. -/
def requireDeviceOpen (db : Database) (device : String) : Result Unit :=
  match stripLead "folder_" device with
  | some id => ensure (!db.exiting id)
      "Folder exit has begun; no new transfer data may be written."
  | none => .ok ()

/-- The device belongs to no folder, or the exit of its folder has not begun. -/
theorem requireDeviceOpen_ok {db : Database} {device : String} {u : Unit}
    (h : db.requireDeviceOpen device = .ok u) {id : String} (hid : device = folderDevice id) :
    db.exiting id = false := by
  subst hid
  simpa [requireDeviceOpen, ensure_eq_ok] using h

/-- The delivery a version row belongs to. -/
def deliveryOf (db : Database) (v : VersionRow) : Option DeliveryRow :=
  db.deliveries.rows.find? fun d => d.deviceId == v.deviceId && d.deliveryId == v.deliveryId

/-- The delivery with an identity in a device's queue. -/
def findDelivery (db : Database) (device id : String) : Option DeliveryRow :=
  db.deliveries.rows.find? fun d => d.deviceId == device && d.deliveryId == id

/-- The stored inventory of a device. -/
def index (db : Database) (device : String) : Option Inventory :=
  (db.directoryIndexes.rows.find? (·.deviceId == device)).map (·.inventory)

/-- `UPDATE deliveries SET acknowledged_at_unix = … WHERE …`. -/
def updateAcknowledged (db : Database) (selected : DeliveryRow → Bool)
    (value : Option Nat → Option Nat) : Database :=
  { db with
    deliveries := db.deliveries.update
      (fun d => if selected d then { d with acknowledgedAtUnix := value d.acknowledgedAtUnix } else d)
      (by intro a b; dsimp only [DeliveryRow.clash]; split <;> split <;> rfl) }

/-- `UPDATE directory_versions SET conflict = MAX(conflict, ?) WHERE …`. -/
def raiseConflict (db : Database) (selected : VersionRow → Bool) (conflict : Bool) : Database :=
  { db with
    directoryVersions := db.directoryVersions.update
      (fun v => if selected v then { v with conflict := v.conflict || conflict } else v)
      (by intro a b; dsimp only [VersionRow.clash]; split <;> split <;> rfl) }

/-- `UPDATE folder_exits SET … WHERE …`, keeping the identity. -/
def updateExits (db : Database) (selected : ExitRow → Bool) (change : ExitRow → ExitRow)
    (hchange : ∀ row, (change row).folderId = row.folderId) : Database :=
  { db with
    folderExits := db.folderExits.update (fun row => if selected row then change row else row)
      (by intro a b; dsimp only [ExitRow.clash]; split <;> split <;> simp [hchange]) }

/-- `UPDATE folders SET … WHERE …`, keeping the identity and the receiver. -/
def updateFolders (db : Database) (selected : FolderRow → Bool) (change : FolderRow → FolderRow)
    (hchange : ∀ row, (change row).id = row.id ∧ (change row).receiverHash = row.receiverHash) :
    Database :=
  { db with
    folders := db.folders.update (fun row => if selected row then change row else row)
      (by intro a b; dsimp only [FolderRow.clash]; split <;> split <;> simp [hchange]) }

end Database

theorem DeliveryRow.clash_comm (a b : DeliveryRow) : a.clash b = b.clash a := by
  simp only [clash, Bool.beq_comm (a := b.deviceId), Bool.beq_comm (a := b.deliveryId)]

theorem VersionRow.clash_comm (a b : VersionRow) : a.clash b = b.clash a := by
  simp only [clash, Bool.beq_comm (a := b.deviceId), Bool.beq_comm (a := b.deliveryId),
    Bool.beq_comm (a := b.path), Bool.beq_comm (a := b.version)]

theorem IndexRow.clash_comm (a b : IndexRow) : a.clash b = b.clash a := by
  simp only [clash, Bool.beq_comm (a := b.deviceId)]

theorem ExitRow.clash_comm (a b : ExitRow) : a.clash b = b.clash a := by
  simp only [clash, Bool.beq_comm (a := b.folderId)]

end MiRelay
