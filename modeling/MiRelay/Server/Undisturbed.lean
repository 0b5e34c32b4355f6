import MiRelay.Server.Confluence

/-!
# Transactions without a lock

What every transaction that needs no file lock leaves as it is: it adds and
removes no delivery and no version, only acknowledges and flags them, publishes
an index for an open device only, never takes back the beginning of an exit and
never marks one as cleaned. An operation under a lock relies on this while
others work on the database.
-/

namespace MiRelay

/-- A transaction that is carried out without the content lock. -/
def Transaction.lockFree : Transaction → Bool
  | .enqueue .. | .removeFolder .. => false
  | _ => true

namespace Database

/-- The same deliveries and versions, but for acknowledgements and conflict flags, indexes of
open devices only, and the same cleaned exits. -/
structure Undisturbed (db db' : Database) : Prop where
  kept : ∀ d ∈ db.deliveries.rows, ∃ a, { d with acknowledgedAtUnix := a } ∈ db'.deliveries.rows ∧
    (d.acknowledgedAtUnix.isSome → a.isSome)
  rows : ∀ d ∈ db'.deliveries.rows, ∃ a, { d with acknowledgedAtUnix := a } ∈ db.deliveries.rows ∧
    (a.isSome → d.acknowledgedAtUnix.isSome)
  versions : db'.directoryVersions.rows.map (fun v => { v with conflict := false }) =
    db.directoryVersions.rows.map fun v => { v with conflict := false }
  indexes : ∀ i ∈ db'.directoryIndexes.rows,
    (∃ j ∈ db.directoryIndexes.rows, j.deviceId = i.deviceId) ∨
      ∀ id, i.deviceId = folderDevice id → db.exiting id = false
  exiting : ∀ id, db.exiting id = true → db'.exiting id = true
  cleaned : ∀ id, db'.serverCleaned id = db.serverCleaned id

namespace Undisturbed

variable {db db' db'' : Database}

theorem refl (db : Database) : Undisturbed db db where
  kept d hd := ⟨d.acknowledgedAtUnix, hd, id⟩
  rows d hd := ⟨d.acknowledgedAtUnix, hd, id⟩
  versions := rfl
  indexes i hi := .inl ⟨i, hi, rfl⟩
  exiting _ h := h
  cleaned _ := rfl

theorem trans (h : Undisturbed db db') (h' : Undisturbed db' db'') : Undisturbed db db'' where
  kept d hd := by
    obtain ⟨a, ha, hsome⟩ := h.kept d hd
    obtain ⟨b, hb, hsome'⟩ := h'.kept _ ha
    exact ⟨b, hb, fun hd => hsome' (hsome hd)⟩
  rows d hd := by
    obtain ⟨a, ha, hsome⟩ := h'.rows d hd
    obtain ⟨b, hb, hsome'⟩ := h.rows _ ha
    exact ⟨b, hb, fun hb => hsome (hsome' hb)⟩
  versions := h'.versions.trans h.versions
  indexes i hi := by
    rcases h'.indexes i hi with ⟨j, hj, hdev⟩ | hopen
    · rcases h.indexes j hj with ⟨k, hk, hdev'⟩ | hopen
      · exact .inl ⟨k, hk, hdev'.trans hdev⟩
      · exact .inr fun id hid => hopen id (hdev.trans hid)
    · refine .inr fun id hid => ?_
      by_contra hexit
      rw [Bool.not_eq_false] at hexit
      have hexit' := h.exiting id hexit
      rw [hopen id hid] at hexit'
      contradiction
  exiting id hid := h'.exiting id (h.exiting id hid)
  cleaned id := (h'.cleaned id).trans (h.cleaned id)

/-- A pending delivery was there before, and pending. -/
theorem pending (h : Undisturbed db db') {d : DeliveryRow} (hd : d ∈ db'.deliveries.rows)
    (hnone : d.acknowledgedAtUnix = none) : d ∈ db.deliveries.rows := by
  obtain ⟨a, ha, hsome⟩ := h.rows d hd
  cases a with
  | none =>
    rw [← hnone] at ha
    exact ha
  | some a =>
    rw [hnone] at hsome
    exact absurd (hsome rfl) (by simp)

/-- A stored version was there before, but for its flag. -/
theorem version (h : Undisturbed db db') {v : VersionRow} (hv : v ∈ db'.directoryVersions.rows) :
    ∃ w ∈ db.directoryVersions.rows, w.deviceId = v.deviceId ∧ w.deliveryId = v.deliveryId ∧
      w.path = v.path ∧ w.version = v.version := by
  have hmem : { v with conflict := false } ∈
      db.directoryVersions.rows.map fun v => { v with conflict := false } := by
    rw [← h.versions]
    exact List.mem_map_of_mem hv
  obtain ⟨w, hw, heq⟩ := List.mem_map.mp hmem
  rw [VersionRow.mk.injEq] at heq
  exact ⟨w, hw, heq.1, heq.2.1, heq.2.2.1, heq.2.2.2.1⟩

/-- Changes of folders and exits only. -/
theorem of_transfers (h : SameTransfers db db')
    (hexiting : ∀ id, db.exiting id = true → db'.exiting id = true)
    (hcleaned : ∀ id, db'.serverCleaned id = db.serverCleaned id) : Undisturbed db db' where
  kept d hd := ⟨d.acknowledgedAtUnix, by rw [h.deliveries]; exact hd, id⟩
  rows d hd := ⟨d.acknowledgedAtUnix, by rw [h.deliveries] at hd; exact hd, id⟩
  versions := by rw [h.directoryVersions]
  indexes i hi := .inl ⟨i, by rw [h.directoryIndexes] at hi; exact hi, rfl⟩
  exiting := hexiting
  cleaned := hcleaned

/-- Changes of folders only. -/
theorem of_folders (h : SameTransfers db db') (hexits : db'.folderExits = db.folderExits) :
    Undisturbed db db' :=
  of_transfers h (fun id hid => by rw [Database.exiting, hexits]; exact hid)
    fun id => by rw [serverCleaned, hexits, serverCleaned]

/-- Acknowledging rows takes no acknowledgement back. -/
theorem updateAcknowledged (db : Database) (selected : DeliveryRow → Bool)
    (value : Option Nat → Option Nat) (hvalue : ∀ a, a.isSome → (value a).isSome) :
    Undisturbed db (db.updateAcknowledged selected value) where
  kept d hd := by
    refine ⟨if selected d then value d.acknowledgedAtUnix else d.acknowledgedAtUnix,
      mem_updateAcknowledged.mpr ⟨d, hd, ?_⟩, fun h => ?_⟩
    · split <;> rfl
    · split
      · exact hvalue _ h
      · exact h
  rows d hd := by
    obtain ⟨e, he, rfl⟩ := mem_updateAcknowledged.mp hd
    refine ⟨e.acknowledgedAtUnix, ?_, fun h => ?_⟩
    · split <;> exact he
    · split
      · exact hvalue _ h
      · exact h
  versions := rfl
  indexes i hi := .inl ⟨i, hi, rfl⟩
  exiting _ h := h
  cleaned _ := rfl

theorem raiseConflict (db : Database) (selected : VersionRow → Bool) (conflict : Bool) :
    Undisturbed db (db.raiseConflict selected conflict) where
  kept d hd := ⟨d.acknowledgedAtUnix, hd, id⟩
  rows d hd := ⟨d.acknowledgedAtUnix, hd, id⟩
  versions := by
    simp only [Database.raiseConflict, Table.rows_update, List.map_map]
    refine List.map_congr_left fun v _ => ?_
    rw [Function.comp_apply]
    split <;> rfl
  indexes i hi := .inl ⟨i, hi, rfl⟩
  exiting _ h := h
  cleaned _ := rfl

theorem acknowledge (db : Database) (device id sha256 : String) (now : Nat) :
    Undisturbed db (db.acknowledge device id sha256 now).2 := by
  unfold Database.acknowledge
  split
  · exact refl db
  · split
    · exact refl db
    · split
      · exact refl db
      · exact updateAcknowledged db (fun d => d.deviceId == device && d.deliveryId == id)
          (fun _ => some now) fun _ _ => rfl

theorem ackDirectory {device : String} {ack : DirectoryAck} {now : Nat}
    (h : db.ackDirectory device ack now = .ok (some db')) : Undisturbed db db' := by
  simp only [Database.ackDirectory, bind_eq_ok] at h
  obtain ⟨_, -, _, -, h⟩ := h
  split at h
  · cases Option.some.inj (Except.ok.inj h)
    refine (updateAcknowledged db _ _ fun a ha => ?_).trans (raiseConflict _ _ _)
    cases a with
    | none => contradiction
    | some a => rfl
  · cases Except.ok.inj h

/-- An index is replaced for an open device. -/
theorem publishDirectory {device : String} {update : InventoryUpdate}
    {inventory : Option Inventory} (h : db.publishDirectory device update = .ok (inventory, db')) :
    Undisturbed db db' := by
  simp only [Database.publishDirectory, bind_eq_ok] at h
  obtain ⟨_, -, _, -, _, hopen, h⟩ := h
  split at h
  · cases Except.ok.inj h
    exact refl db
  · split at h
    · cases Except.ok.inj h
      exact refl db
    · split at h
      · contradiction
      · rename_i hins
        cases Except.ok.inj h
        refine { refl db with indexes := fun i hi => ?_ }
        rw [Table.rows_insert hins, List.mem_append, List.mem_singleton] at hi
        rcases hi with hi | rfl
        · exact .inl ⟨i, (Table.mem_delete.mp hi).1, rfl⟩
        · exact .inr fun id hid => requireDeviceOpen_ok hopen hid

/-- An exit is recorded once, and not as cleaned. -/
theorem recordExit (db : Database) (id : String) (senderCleaned : Bool) :
    Undisturbed db (db.recordExit id senderCleaned) := by
  unfold Database.recordExit
  split
  · exact refl db
  · rename_i hins
    have hrows := Table.rows_insert hins
    refine of_transfers ⟨rfl, rfl, rfl, rfl⟩ (fun id' hid => ?_) fun id' => ?_
    · simp only [Database.exiting, hrows, List.any_append] at hid ⊢
      rw [hid, Bool.true_or]
    · simp [Database.serverCleaned, hrows]

theorem beginExit {id : String} {credential : Option String}
    (h : db.beginExit id credential = .ok (some db')) : Undisturbed db db' := by
  simp only [Database.beginExit, bind_eq_ok] at h
  obtain ⟨_, -, h⟩ := h
  split at h
  · cases Except.ok.inj h
  · split at h
    · contradiction
    · cases Option.some.inj (Except.ok.inj h)
      have hrevoke : Undisturbed db (db.revoke id) := of_folders ⟨rfl, rfl, rfl, rfl⟩ rfl
      exact hrevoke.trans (recordExit _ _ _)

/-- The receipts of the clients change neither the beginning nor the cleaning of an exit. -/
theorem receiveExit {id hash role : String} (h : db.receiveExit id hash role = some db') :
    Undisturbed db db' := by
  have htransfers := receiveExit_transfers h
  simp only [Database.receiveExit] at h
  split at h
  · have h := Option.some.inj h
    subst h
    refine of_transfers htransfers (fun id' hid => ?_) fun id' => ?_
    · simp only [Database.exiting, updateExits, Table.rows_update, List.any_map] at hid ⊢
      rw [← hid]
      refine List.any_congr rfl fun row => ?_
      dsimp only [Function.comp_apply]
      split <;> [split; skip] <;> rfl
    · simp only [Database.serverCleaned, updateExits, Table.rows_update, List.any_map]
      refine List.any_congr rfl fun row => ?_
      dsimp only [Function.comp_apply]
      split <;> [split; skip] <;> rfl
  · contradiction

end Undisturbed

section Exits

variable {db db' : Database} {id : String}

theorem createFolder_exits {name receiverHash inviteHash : String} {expires : Nat}
    (h : db.createFolder id name receiverHash inviteHash expires = .ok db') :
    db'.folderExits = db.folderExits := by
  simp only [createFolder, bind_eq_ok] at h
  obtain ⟨_, -, h⟩ := h
  split at h
  · contradiction
  · cases Except.ok.inj h
    rfl

theorem claimFolder_exits {inviteHash senderHash : String} {now : Nat} :
    (db.claimFolder id inviteHash senderHash now).2.folderExits = db.folderExits := by
  unfold claimFolder
  split
  · rfl
  · split
    · rfl
    · split
      · rfl
      · split <;> rfl

theorem disconnectFolder_exits {hash : String} :
    (db.disconnectFolder id hash).2.folderExits = db.folderExits := by
  unfold disconnectFolder
  split <;> rfl

end Exits

/-- Every transaction without a lock leaves these things as they are. -/
theorem undisturbed_perform {m : Nat} {d d' : Desk} {t : Transaction}
    (h : d.perform m t = some d') (hfree : t.lockFree = true) : Undisturbed d.db d'.db := by
  cases t with
  | enqueue | removeFolder => contradiction
  | admitAcknowledge device id =>
    simp only [Desk.perform] at h
    split at h
    · contradiction
    · cases Option.some.inj h
      exact .refl _
  | acknowledge device id sha256 now =>
    simp only [Desk.perform] at h
    split at h
    · cases Option.some.inj h
      exact .acknowledge ..
    · contradiction
  | ackDirectory device ack now =>
    have h := Desk.commit_eq_some h
    cases hr : d.db.ackDirectory device ack now with
    | error e =>
      rw [hr] at h
      contradiction
    | ok db =>
      simp only [hr, Except.toOption, Option.getD_some] at h
      rw [h] at hr
      exact .ackDirectory hr
  | publish device update =>
    have h := Desk.commit_eq_some h
    rw [Option.bind_eq_some_iff] at h
    obtain ⟨⟨inventory, db⟩, hok, hp⟩ := h
    rw [toOption_eq_some] at hok
    cases inventory with
    | none => contradiction
    | some i =>
      cases hp
      exact .publishDirectory hok
  | createFolder id name receiverHash inviteHash expires =>
    have h := Desk.commit_eq_some h
    rw [toOption_eq_some] at h
    exact .of_folders (createFolder_transfers h) (createFolder_exits h)
  | claimFolder id inviteHash senderHash now =>
    simp only [Desk.perform, Desk.commit, Option.some.injEq] at h
    subst h
    exact .of_folders claimFolder_transfers claimFolder_exits
  | disconnectFolder id hash =>
    simp only [Desk.perform, Desk.commit, Option.some.injEq] at h
    subst h
    exact .of_folders disconnectFolder_transfers disconnectFolder_exits
  | confirmFolder | renewFolder =>
    simp only [Desk.perform, Desk.commit, Option.some.injEq] at h
    subst h
    exact .of_folders ⟨rfl, rfl, rfl, rfl⟩ rfl
  | beginExit id credential =>
    have h := Desk.commit_eq_some h
    cases hr : d.db.beginExit id credential with
    | error e =>
      rw [hr] at h
      contradiction
    | ok db =>
      simp only [hr, Except.toOption, Option.getD_some] at h
      rw [h] at hr
      exact .beginExit hr
  | receiveExit id hash role => exact .receiveExit (Desk.commit_eq_some h)

end Database

end MiRelay
