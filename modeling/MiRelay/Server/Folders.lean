import MiRelay.Server.Database

/-!
# Pairing and the two transactions of a folder exit

The statements that change the folder table, each under the condition its
transaction checks first, and the exit: the revocation that records the exit
row, and the removal of all metadata of the folder that marks it cleaned. A
credential is the hexadecimal text of its stored hash.
-/

namespace MiRelay

namespace Database

/-- The row of a folder. -/
def findFolder (db : Database) (id : String) : Option FolderRow :=
  db.folders.rows.find? (·.id == id)

/-- The transaction of `create`: at most 1,000 folders. -/
def createFolder (db : Database) (id name receiverHash inviteHash : String) (expires : Nat) :
    Result Database := do
  ensure (db.folders.rows.length < 1000) "Folder limit reached"
  match db.folders.insert
      { id, name, receiverHash, senderHash := none, inviteHash, expires, ready := false
        disconnected := false } with
  | none => .error (.message "UNIQUE constraint failed: folders")
  | some folders => return { db with folders }

/-- The transaction of `claim`. -/
def claimFolder (db : Database) (id inviteHash senderHash : String) (now : Nat) :
    Bool × Database :=
  match db.findFolder id with
  | none => (false, db)
  | some row =>
    if row.disconnected ∨ row.inviteHash ≠ inviteHash then (false, db)
    else match row.senderHash with
      -- A claimed invitation can never replace an existing sender.
      | some previous => (previous == senderHash, db)
      | none =>
        if row.expires = 0 ∨ row.expires ≤ now then (false, db)
        else (true, db.updateFolders (·.id == id)
          (fun row => { row with senderHash := some senderHash }) fun _ => ⟨rfl, rfl⟩)

/-- The update of `confirm`, bound to the sender the receiver has compared. -/
def confirmFolder (db : Database) (id verification : String) : Database :=
  db.updateFolders
    (fun row => row.id == id && !row.disconnected &&
      String.ofList ((row.senderHash.getD "").toList.take 12) == verification)
    (fun row => { row with ready := true }) fun _ => ⟨rfl, rfl⟩

/-- The update of `renew`. -/
def renewFolder (db : Database) (id inviteHash : String) (expires : Nat) : Database :=
  db.updateFolders (fun row => row.id == id && !row.disconnected)
    (fun row => { row with inviteHash, expires, senderHash := none, ready := false })
    fun _ => ⟨rfl, rfl⟩

/-- `authorized`: the hash is one of the two credentials of the folder. -/
def authorized (db : Database) (id hash : String) : Bool :=
  (db.findFolder id).any fun row => row.receiverHash == hash || row.senderHash == some hash

/-- `UPDATE folders SET disconnected=1,ready=0,expires=0 WHERE id=?`. -/
def revoke (db : Database) (id : String) : Database :=
  db.updateFolders (·.id == id)
    (fun row => { row with disconnected := true, ready := false, expires := 0 }) fun _ => ⟨rfl, rfl⟩

/-- The transaction of `disconnect`. -/
def disconnectFolder (db : Database) (id hash : String) : Bool × Database :=
  if db.authorized id hash then (true, db.revoke id) else (false, db)

/-- `INSERT OR IGNORE INTO folder_exits(folder_id,sender_cleaned) SELECT …`. -/
def recordExit (db : Database) (id : String) (senderCleaned : Bool) : Database :=
  match db.folderExits.insert
      { folderId := id, serverCleaned := false, senderCleaned, receiverCleaned := false } with
  | none => db
  | some folderExits => { db with folderExits }

/-- The first transaction of `clean_exit`: the revocation and the exit row, or nothing when
the credential is not one of the folder's. -/
def beginExit (db : Database) (id : String) (credential : Option String) :
    Result (Option Database) := do
  (match credential with
    | some _ => .ok ()
    | none => ensure (db.exiting id) "Only a previously requested exit may be resumed internally")
  if credential.any fun hash => !db.authorized id hash then return none
  match db.findFolder id with
  | none => .error (.message "Folder no longer exists")
  | some row => return some ((db.revoke id).recordExit id row.senderHash.isNone)

/-- The end of the second transaction of `clean_exit`: all metadata of the folder goes and
the exit is marked cleaned. -/
def removeFolder (db : Database) (id : String) : Database :=
  let device := folderDevice id
  let db := { db with
    directoryVersions := db.directoryVersions.delete (·.deviceId == device)
    directoryIndexes := db.directoryIndexes.delete (·.deviceId == device)
    deliveries := db.deliveries.delete (·.deviceId == device) }
  (db.updateFolders (·.id == id)
    (fun row => { row with name := "Retired Folder", inviteHash := String.ofList (List.replicate 64 '0') })
    fun _ => ⟨rfl, rfl⟩).updateExits (·.folderId == id)
      (fun row => { row with serverCleaned := true }) fun _ => rfl

/-- The receipt of one client for its own cleanup, once the relay has finished. -/
def receiveExit (db : Database) (id hash : String) (role : String) : Option Database :=
  if db.authorized id hash ∧ db.serverCleaned id then
    some (db.updateExits (fun row => row.folderId == id && row.serverCleaned)
      (fun row => if role = "sender" then { row with senderCleaned := true }
        else { row with receiverCleaned := true })
      fun row => by split <;> rfl)
  else none

/-- Deliveries, versions and indexes are the same. -/
structure SameTransfers (db db' : Database) : Prop where
  deliveries : db'.deliveries = db.deliveries
  lastSequence : db'.lastSequence = db.lastSequence
  directoryVersions : db'.directoryVersions = db.directoryVersions
  directoryIndexes : db'.directoryIndexes = db.directoryIndexes

section Transfers

variable {db db' : Database} {id : String}

theorem createFolder_transfers {name receiverHash inviteHash : String} {expires : Nat}
    (h : db.createFolder id name receiverHash inviteHash expires = .ok db') :
    SameTransfers db db' := by
  simp only [createFolder, bind_eq_ok] at h
  obtain ⟨_, -, h⟩ := h
  split at h
  · contradiction
  · cases Except.ok.inj h
    exact ⟨rfl, rfl, rfl, rfl⟩

theorem claimFolder_transfers {inviteHash senderHash : String} {now : Nat} :
    SameTransfers db (db.claimFolder id inviteHash senderHash now).2 := by
  unfold claimFolder
  split
  · exact ⟨rfl, rfl, rfl, rfl⟩
  · split
    · exact ⟨rfl, rfl, rfl, rfl⟩
    · split
      · exact ⟨rfl, rfl, rfl, rfl⟩
      · split <;> exact ⟨rfl, rfl, rfl, rfl⟩

theorem disconnectFolder_transfers {hash : String} :
    SameTransfers db (db.disconnectFolder id hash).2 := by
  unfold disconnectFolder
  split <;> exact ⟨rfl, rfl, rfl, rfl⟩

theorem beginExit_transfers {credential : Option String}
    (h : db.beginExit id credential = .ok (some db')) : SameTransfers db db' := by
  simp only [beginExit, bind_eq_ok] at h
  obtain ⟨_, -, h⟩ := h
  split at h
  · cases Except.ok.inj h
  · split at h
    · contradiction
    · cases Option.some.inj (Except.ok.inj h)
      unfold recordExit
      split <;> exact ⟨rfl, rfl, rfl, rfl⟩

theorem receiveExit_transfers {hash role : String} (h : db.receiveExit id hash role = some db') :
    SameTransfers db db' := by
  simp only [receiveExit] at h
  split at h
  · have h := Option.some.inj h
    subst h
    exact ⟨rfl, rfl, rfl, rfl⟩
  · contradiction

end Transfers

end Database

end MiRelay
