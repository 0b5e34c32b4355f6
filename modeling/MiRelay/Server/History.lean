import MiRelay.Core.Run
import MiRelay.Server.Directory
import MiRelay.Server.Folders

/-!
# Histories of the database

The transactions of the relay in the order in which they were accepted. An
ordinary acknowledgement is two of them: the query that excludes directory
deliveries, and later the update. For each transaction one lemma says what it
does to the rows; the invariants of whole histories rest on these.
-/

namespace MiRelay

/-- One accepted database transaction, or the admission query of an acknowledgement. -/
inductive Transaction
  | enqueue (device : String) (delivery : Delivery) (createdAt : Nat)
      (directory : Option DirectoryVersion) (now : Nat)
  | admitAcknowledge (device id : String)
  | acknowledge (device id sha256 : String) (now : Nat)
  | ackDirectory (device : String) (ack : DirectoryAck) (now : Nat)
  | publish (device : String) (update : InventoryUpdate)
  | createFolder (id name receiverHash inviteHash : String) (expires : Nat)
  | claimFolder (id inviteHash senderHash : String) (now : Nat)
  | confirmFolder (id verification : String)
  | renewFolder (id inviteHash : String) (expires : Nat)
  | disconnectFolder (id hash : String)
  | beginExit (id : String) (credential : Option String)
  | removeFolder (id : String)
  | receiveExit (id hash role : String)
  deriving DecidableEq, Repr

/-- The database and the acknowledgements that passed the query but not yet the update. -/
structure Desk where
  db : Database
  admitted : List (String × String)

namespace Desk

/-- The desk of a new relay. -/
def initial : Desk := ⟨Database.initial, []⟩

/-- Replace the database when the transaction was committed. -/
def commit (d : Desk) : Option Database → Option Desk
  | none => none
  | some db => some { d with db }

/-- One transaction, or nothing when it is refused or rolled back. -/
def perform (maxFileSize : Nat) (d : Desk) : Transaction → Option Desk
  | .enqueue device delivery createdAt directory now =>
    -- Whether the folder is still open was asked before and outside this transaction.
    d.commit (do
      validateEnqueue device delivery directory maxFileSize
      d.db.storeOnce device delivery createdAt directory now maxFileSize).toOption
  | .admitAcknowledge device id =>
    if d.db.isDirectoryDelivery device id then none
    else some { d with admitted := (device, id) :: d.admitted }
  | .acknowledge device id sha256 now =>
    if (device, id) ∈ d.admitted then
      some { db := (d.db.acknowledge device id sha256 now).2
             admitted := d.admitted.erase (device, id) }
    else none
  | .ackDirectory device ack now =>
    d.commit ((d.db.ackDirectory device ack now).toOption.getD none)
  | .publish device update =>
    d.commit ((d.db.publishDirectory device update).toOption.bind fun
      | (some _, db) => some db
      | (none, _) => none)
  | .createFolder id name receiverHash inviteHash expires =>
    d.commit (d.db.createFolder id name receiverHash inviteHash expires).toOption
  | .claimFolder id inviteHash senderHash now =>
    d.commit (some (d.db.claimFolder id inviteHash senderHash now).2)
  | .confirmFolder id verification => d.commit (some (d.db.confirmFolder id verification))
  | .renewFolder id inviteHash expires => d.commit (some (d.db.renewFolder id inviteHash expires))
  | .disconnectFolder id hash => d.commit (some (d.db.disconnectFolder id hash).2)
  | .beginExit id credential => d.commit ((d.db.beginExit id credential).toOption.getD none)
  | .removeFolder id => if d.db.exiting id then d.commit (some (d.db.removeFolder id)) else none
  | .receiveExit id hash role => d.commit (d.db.receiveExit id hash role)

end Desk

/-- The transaction belongs to the exit of a folder. -/
def Transaction.isExit : Transaction → Bool
  | .beginExit .. | .removeFolder .. | .receiveExit .. => true
  | _ => false

namespace Database

variable {db db' : Database} {device id : String}

theorem deliveryOf_eq_some {v : VersionRow} {d : DeliveryRow} :
    db.deliveryOf v = some d ↔
      d ∈ db.deliveries.rows ∧ d.deviceId = v.deviceId ∧ d.deliveryId = v.deliveryId := by
  unfold deliveryOf
  constructor
  · intro h
    have hp := List.find?_some h
    rw [Bool.and_eq_true, beq_iff_eq, beq_iff_eq] at hp
    exact ⟨List.mem_of_find?_eq_some h, hp⟩
  · rintro ⟨hd, hdev, hid⟩
    cases hf : db.deliveries.rows.find?
        fun d => d.deviceId == v.deviceId && d.deliveryId == v.deliveryId with
    | none =>
      rw [List.find?_eq_none] at hf
      exact absurd (by simp [hdev, hid]) (hf d hd)
    | some c =>
      have hp := List.find?_some hf
      rw [Bool.and_eq_true, beq_iff_eq, beq_iff_eq] at hp
      rw [Option.some.injEq]
      apply db.deliveries.eq_of_clash DeliveryRow.clash_comm (List.mem_of_find?_eq_some hf) hd
      rw [DeliveryRow.clash, hp.1, hp.2, hdev, hid, beq_self_eq_true, beq_self_eq_true,
        Bool.and_self]

theorem isAcknowledged_iff {v : VersionRow} :
    db.isAcknowledged v = true ↔ ∃ d ∈ db.deliveries.rows, d.deviceId = v.deviceId ∧
      d.deliveryId = v.deliveryId ∧ d.acknowledgedAtUnix.isSome = true := by
  simp only [isAcknowledged, Option.any_eq_true, deliveryOf_eq_some, and_assoc]

theorem superseded_iff {version : DirectoryVersion} :
    db.superseded device version = true ↔ ∃ v ∈ db.directoryVersions.rows,
      v.deviceId = device ∧ v.path = version.path ∧ version.version < v.version ∧
        db.isAcknowledged v = true := by
  simp only [superseded, List.any_eq_true, Bool.and_eq_true, beq_iff_eq, decide_eq_true_eq,
    and_assoc]

theorem mem_updateAcknowledged {selected : DeliveryRow → Bool} {value : Option Nat → Option Nat}
    {d : DeliveryRow} :
    d ∈ (db.updateAcknowledged selected value).deliveries.rows ↔
      ∃ e ∈ db.deliveries.rows, d = if selected e then
        { e with acknowledgedAtUnix := value e.acknowledgedAtUnix } else e := by
  simp only [updateAcknowledged, Table.rows_update, List.mem_map, eq_comm]

theorem mem_raiseConflict {selected : VersionRow → Bool} {conflict : Bool} {v : VersionRow} :
    v ∈ (db.raiseConflict selected conflict).directoryVersions.rows ↔
      ∃ w ∈ db.directoryVersions.rows, v = if selected w then
        { w with conflict := w.conflict || conflict } else w := by
  simp only [raiseConflict, Table.rows_update, List.mem_map, eq_comm]

@[simp] theorem directoryVersions_updateAcknowledged {selected : DeliveryRow → Bool}
    {value : Option Nat → Option Nat} :
    (db.updateAcknowledged selected value).directoryVersions = db.directoryVersions := rfl

@[simp] theorem deliveries_raiseConflict {selected : VersionRow → Bool} {conflict : Bool} :
    (db.raiseConflict selected conflict).deliveries = db.deliveries := rfl

/-- What an accepted insertion found and what it left. -/
structure Enqueued (db db' : Database) (device : String) (delivery : Delivery) (createdAt : Nat)
    (directory : Option DirectoryVersion) : Prop where
  /-- The identity was not used before. -/
  free : ∀ d ∈ db.deliveries.rows, ¬(d.deviceId = device ∧ d.deliveryId = delivery.id)
  /-- The directory version was valid, new and without collision. -/
  version : ∀ v ∈ directory, v.validate = .ok () ∧ isFolderDevice device = true ∧
    (db.versionsOf device v.path ≠ [] ∨ db.pathCount device < maxEntries) ∧
    db.versionCollision device v = false
  /-- One row was appended; it is acknowledged at once when a later version is. -/
  deliveries : ∃ acknowledged : Option Nat,
    acknowledged.isSome = directory.any (db.superseded device) ∧
    db'.deliveries.rows = db.deliveries.rows ++
      [{ delivery.row device (db.lastSequence + 1) createdAt with acknowledgedAtUnix := acknowledged }]
  /-- The directory version was appended. -/
  versions : db'.directoryVersions.rows = db.directoryVersions.rows ++
    (directory.map fun v => (⟨device, delivery.id, v.path, v.version, false⟩ : VersionRow)).toList
  lastSequence : db'.lastSequence = db.lastSequence + 1
  directoryIndexes : db'.directoryIndexes = db.directoryIndexes
  folders : db'.folders = db.folders
  folderExits : db'.folderExits = db.folderExits

/-- Inserting a row without acknowledgement supersedes nothing and is superseded alike. -/
theorem superseded_insert {deliveries : Table DeliveryRow DeliveryRow.clash} {row : DeliveryRow}
    {directoryVersions : Table VersionRow VersionRow.clash} {new : VersionRow}
    {version : DirectoryVersion} {n : Nat} (hrows : deliveries.rows = db.deliveries.rows ++ [row])
    (hrow : row.acknowledgedAtUnix = none)
    (hversions : directoryVersions.rows = db.directoryVersions.rows ++ [new])
    (hnew : new.version = version.version) :
    superseded { db with deliveries, lastSequence := n, directoryVersions } device version =
      db.superseded device version := by
  rw [Bool.eq_iff_iff, superseded_iff, superseded_iff]
  simp only [hversions, isAcknowledged_iff, hrows, List.mem_append, List.mem_singleton]
  constructor
  · rintro ⟨v, hv | rfl, hdev, hpath, hlt, d, hd, h⟩
    · rcases hd with hd | rfl
      · exact ⟨v, hv, hdev, hpath, hlt, d, hd, h⟩
      · simp [hrow] at h
    · omega
  · rintro ⟨v, hv, hdev, hpath, hlt, d, hd, h⟩
    exact ⟨v, .inl hv, hdev, hpath, hlt, d, .inl hd, h⟩

/-- An accepted version was valid, new and without collision. -/
theorem insertDirectoryVersion_ok {version : DirectoryVersion} {now : Nat}
    (h : db.insertDirectoryVersion device id version now = .ok db') :
    version.validate = .ok () ∧ isFolderDevice device = true ∧
      (db.versionsOf device version.path ≠ [] ∨ db.pathCount device < maxEntries) ∧
      db.versionCollision device version = false ∧
      ∃ t : Table VersionRow VersionRow.clash,
        t.rows = db.directoryVersions.rows ++ [⟨device, id, version.path, version.version, false⟩] ∧
        db' = if superseded { db with directoryVersions := t } device version then
          updateAcknowledged { db with directoryVersions := t }
            (fun d => d.deviceId == device && d.deliveryId == id) fun _ => some now
        else { db with directoryVersions := t } := by
  simp only [insertDirectoryVersion, bind_eq_ok, ensure_eq_ok] at h
  obtain ⟨_, hvalid, _, hfolder, _, hroom, _, hcollision, h⟩ := h
  split at h
  · contradiction
  rename_i t ht
  refine ⟨hvalid, hfolder, by simpa using hroom, ?_, t, Table.rows_insert ht, ?_⟩
  · split at hcollision
    · contradiction
    · rename_i hne
      simpa using hne
  · exact (Except.ok.inj h).symm

/-- Acknowledging the row just appended changes no other row. -/
theorem updateAcknowledged_append {rows : List DeliveryRow} (row : DeliveryRow) {now : Nat}
    (hfree : ∀ d ∈ rows, ¬(d.deviceId = row.deviceId ∧ d.deliveryId = row.deliveryId)) :
    (rows ++ [row]).map (fun d =>
        if (d.deviceId == row.deviceId && d.deliveryId == row.deliveryId) = true then
          { d with acknowledgedAtUnix := some now } else d) =
      rows ++ [{ row with acknowledgedAtUnix := some now }] := by
  have hold : rows.map (fun d =>
      if (d.deviceId == row.deviceId && d.deliveryId == row.deliveryId) = true then
        { d with acknowledgedAtUnix := some now } else d) = rows := by
    conv_rhs => rw [← List.map_id rows]
    refine List.map_congr_left fun d hd => if_neg ?_
    rw [Bool.and_eq_true, beq_iff_eq, beq_iff_eq]
    exact hfree d hd
  rw [List.map_append, hold]
  simp

theorem enqueue_ok {delivery : Delivery} {createdAt now : Nat}
    {directory : Option DirectoryVersion}
    (h : db.enqueue device delivery createdAt directory now = .ok db') :
    Enqueued db db' device delivery createdAt directory := by
  simp only [enqueue, bind_eq_ok, ensure_eq_ok] at h
  obtain ⟨_, -, _, -, h⟩ := h
  split at h
  · contradiction
  rename_i deliveries hins
  have hrows := Table.rows_insert hins
  have hfree : ∀ d ∈ db.deliveries.rows, ¬(d.deviceId = device ∧ d.deliveryId = delivery.id) := by
    rintro d hd ⟨rfl, hid⟩
    have := Table.insert_free hins d hd
    simp [DeliveryRow.clash, Delivery.row, hid] at this
  cases directory with
  | none =>
    rw [pure_eq_ok] at h
    subst h
    exact ⟨hfree, by simp, ⟨none, rfl, hrows⟩, by simp, rfl, rfl, rfl, rfl⟩
  | some version =>
    obtain ⟨hvalid, hfolder, hroom, hcollision, t, ht, rfl⟩ := insertDirectoryVersion_ok h
    have hsup : superseded { db with deliveries, lastSequence := db.lastSequence + 1,
                                     directoryVersions := t } device version
        = db.superseded device version := superseded_insert hrows rfl ht rfl
    rw [hsup]
    have hversion : ∀ v ∈ some version, v.validate = .ok () ∧ isFolderDevice device = true ∧
        (db.versionsOf device v.path ≠ [] ∨ db.pathCount device < maxEntries) ∧
        db.versionCollision device v = false := by
      rintro v ⟨rfl⟩
      exact ⟨hvalid, hfolder, hroom, hcollision⟩
    cases hs : db.superseded device version with
    | false => exact ⟨hfree, hversion, ⟨none, by simp [hs], hrows⟩, ht, rfl, rfl, rfl, rfl⟩
    | true =>
      refine ⟨hfree, hversion, ⟨some now, by simp [hs], ?_⟩, ht, rfl, rfl, rfl, rfl⟩
      simp only [if_true, updateAcknowledged, Table.rows_update, hrows]
      exact updateAcknowledged_append (delivery.row device _ createdAt) hfree

end Database

end MiRelay
