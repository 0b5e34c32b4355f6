import MiRelay.Server.Invitations
import MiRelay.Server.Undisturbed

/-!
# The exit row of a folder

Which transaction writes what into the exit row: the first transaction of an
exit creates it and freezes the credentials of the folder, the removal of the
metadata marks it cleaned, and only a receipt sets the flag of a client.
-/

namespace MiRelay

/-- `FolderExitStatus`, without the constant schema version. -/
structure FolderExitStatus where
  folderId : String
  role : String
  requested : Bool
  serverCleaned : Bool
  senderCleaned : Bool
  receiverCleaned : Bool
  deriving DecidableEq, Repr

/-- `FolderExitStatus::complete`. -/
def FolderExitStatus.complete (s : FolderExitStatus) : Bool :=
  s.requested && s.serverCleaned && s.senderCleaned && s.receiverCleaned

namespace Database

/-- The exit row of a folder. -/
def exitOf (db : Database) (id : String) : Option ExitRow :=
  db.folderExits.rows.find? (·.folderId == id)

/-- `exit_status`. -/
def exitStatus (db : Database) (id role : String) : FolderExitStatus :=
  let row := db.exitOf id
  { folderId := id
    role
    requested := row.isSome
    serverCleaned := row.any (·.serverCleaned)
    senderCleaned := row.any (·.senderCleaned)
    receiverCleaned := row.any (·.receiverCleaned) }

variable {db db' : Database} {id : String}

theorem exitOf_id {e : ExitRow} (h : db.exitOf id = some e) : e.folderId = id := by
  simpa using List.find?_some h

theorem exiting_iff : db.exiting id = true ↔ ∃ e, db.exitOf id = some e := by
  rw [exiting, exitOf, List.any_eq_true, ← Option.isSome_iff_exists, List.find?_isSome]

theorem serverCleaned_iff :
    db.serverCleaned id = true ↔ ∃ e, db.exitOf id = some e ∧ e.serverCleaned = true := by
  constructor
  · intro h
    simp only [serverCleaned, List.any_eq_true, Bool.and_eq_true, beq_iff_eq] at h
    obtain ⟨row, hrow, hid, hcleaned⟩ := h
    obtain ⟨e, he⟩ := exiting_iff.mp (List.any_eq_true.mpr ⟨row, hrow, beq_iff_eq.mpr hid⟩)
    have hsame : row = e := by
      refine db.folderExits.eq_of_clash ExitRow.clash_comm hrow (List.mem_of_find?_eq_some he) ?_
      simp [ExitRow.clash, hid, exitOf_id he]
    exact ⟨e, he, hsame ▸ hcleaned⟩
  · rintro ⟨e, he, hcleaned⟩
    simp only [serverCleaned, List.any_eq_true, Bool.and_eq_true, beq_iff_eq]
    exact ⟨e, List.mem_of_find?_eq_some he, exitOf_id he, hcleaned⟩

theorem exitOf_updateExits {selected : ExitRow → Bool} {change : ExitRow → ExitRow}
    (hchange : ∀ row, (change row).folderId = row.folderId) :
    (db.updateExits selected change hchange).exitOf id =
      (db.exitOf id).map fun row => if selected row then change row else row := by
  have hid : ∀ row, (if selected row then change row else row).folderId = row.folderId :=
    fun row => by
      split
      · exact hchange row
      · rfl
  simp only [exitOf, updateExits, Table.rows_update, List.find?_map, Function.comp_def, hid]

/-- An exit row is recorded once. -/
theorem exitOf_recordExit {id' : String} {cleaned : Bool} :
    (db.recordExit id' cleaned).exitOf id = db.exitOf id ∨ id' = id ∧ db.exitOf id = none ∧
      (db.recordExit id' cleaned).exitOf id = some ⟨id, false, cleaned, false⟩ := by
  unfold recordExit
  split
  · exact .inl rfl
  · rename_i exits hinsert
    have hrows := Table.rows_insert hinsert
    simp only [exitOf, hrows, List.find?_append]
    cases hfind : db.folderExits.rows.find? (·.folderId == id) with
    | some row => exact .inl rfl
    | none =>
      by_cases hid : id' = id
      · subst hid
        exact .inr ⟨rfl, rfl, by simp⟩
      · exact .inl (by simp [hid])

/-- What every transaction but a receipt keeps of a folder and its exit row. -/
structure SeatKept (id : String) (db db' : Database) : Prop where
  folder : ∀ row, db.findFolder id = some row → ∃ row', db'.findFolder id = some row' ∧ Later row row'
  exit : ∀ e, db.exitOf id = some e → ∃ e', db'.exitOf id = some e' ∧
    e'.senderCleaned = e.senderCleaned ∧ e'.receiverCleaned = e.receiverCleaned ∧
      (e.serverCleaned = true → e'.serverCleaned = true)
  /-- A new exit row belongs to a revoked folder; who is not paired has nothing to clean. -/
  begun : db.exitOf id = none → ∀ e', db'.exitOf id = some e' → e'.serverCleaned = false ∧
    e'.receiverCleaned = false ∧ ∃ row', db'.findFolder id = some row' ∧
      row'.disconnected = true ∧ e'.senderCleaned = row'.senderHash.isNone

namespace SeatKept

theorem of_exit (hexit : db'.exitOf id = db.exitOf id)
    (hfolder : ∀ row, db.findFolder id = some row →
      ∃ row', db'.findFolder id = some row' ∧ Later row row') : SeatKept id db db' where
  folder := hfolder
  exit e he := ⟨e, hexit.trans he, rfl, rfl, fun h => h⟩
  begun hnone e' he' := by
    rw [hexit, hnone] at he'
    contradiction

theorem of_same (hfolders : db'.folders = db.folders) (hexits : db'.folderExits = db.folderExits) :
    SeatKept id db db' := by
  refine of_exit ?_ fun row hrow => ⟨row, ?_, .refl row⟩
  · rw [exitOf, exitOf, hexits]
  · rw [← hrow, findFolder, findFolder, hfolders]

/-- An update of the folders that keeps receivers and the credentials of revoked folders. -/
theorem of_update {selected : FolderRow → Bool} {change : FolderRow → FolderRow}
    (hchange : ∀ row, (change row).id = row.id ∧ (change row).receiverHash = row.receiverHash)
    (hlater : ∀ row, selected row = true → Later row (change row)) :
    SeatKept id db (db.updateFolders selected change hchange) := by
  refine of_exit rfl fun row hrow => ?_
  rw [findFolder_updateFolders hchange, hrow]
  refine ⟨_, rfl, ?_⟩
  dsimp only
  split
  · rename_i hselected
    exact hlater row hselected
  · exact .refl row

end SeatKept

end Database

/-- The transaction is the receipt of a client for a folder. -/
def Transaction.isReceipt (id : String) : Transaction → Bool
  | .receiveExit id' _ _ => id' == id
  | _ => false

namespace Desk

open Database

variable {m : Nat} {d d' : Desk} {a : Transaction} {id : String}

/-- Only receipts change what the clients have confirmed. -/
theorem perform_seat (h : d.perform m a = some d') (ha : a.isReceipt id = false) :
    SeatKept id d.db d'.db := by
  cases a with
  | enqueue device delivery createdAt directory now =>
    have hdb := commit_eq_some h
    rw [toOption_eq_some, bind_eq_ok] at hdb
    obtain ⟨_, -, hdb⟩ := hdb
    rcases Database.storeOnce_ok hdb with ⟨hsame, -⟩ | he
    · exact .of_same (by rw [hsame]) (by rw [hsame])
    · exact .of_same he.folders he.folderExits
  | admitAcknowledge device id =>
    simp only [perform] at h
    split at h
    · contradiction
    · cases Option.some.inj h
      exact .of_same rfl rfl
  | acknowledge device id sha256 now =>
    simp only [perform] at h
    split at h
    · cases Option.some.inj h
      simp only [Database.acknowledge]
      split
      · exact .of_same rfl rfl
      · split
        · exact .of_same rfl rfl
        · split <;> exact .of_same rfl rfl
    · contradiction
  | ackDirectory device ack now =>
    have hdb := commit_eq_some h
    cases hr : d.db.ackDirectory device ack now with
    | error e =>
      rw [hr] at hdb
      contradiction
    | ok db =>
      simp only [hr, Except.toOption, Option.getD_some] at hdb
      rw [hdb] at hr
      simp only [Database.ackDirectory, bind_eq_ok] at hr
      obtain ⟨_, -, _, -, hr⟩ := hr
      split at hr
      · rw [← Option.some.inj (Except.ok.inj hr)]
        exact .of_same rfl rfl
      · cases Except.ok.inj hr
  | publish device update =>
    have hdb := commit_eq_some h
    rw [Option.bind_eq_some_iff] at hdb
    obtain ⟨⟨inventory, db⟩, hok, hp⟩ := hdb
    rw [toOption_eq_some] at hok
    cases inventory with
    | none => contradiction
    | some i =>
      cases hp
      simp only [Database.publishDirectory, bind_eq_ok] at hok
      obtain ⟨_, -, _, -, _, -, hok⟩ := hok
      split at hok
      · rw [← (Prod.mk.inj (Except.ok.inj hok)).2]
        exact .of_same rfl rfl
      · split at hok
        · cases (Prod.mk.inj (Except.ok.inj hok)).1
        · split at hok
          · contradiction
          · rw [← (Prod.mk.inj (Except.ok.inj hok)).2]
            exact .of_same rfl rfl
  | createFolder id' name receiverHash inviteHash expires =>
    have hdb := commit_eq_some h
    rw [toOption_eq_some] at hdb
    have hexits : d'.db.folderExits = d.db.folderExits := by
      simp only [createFolder, bind_eq_ok] at hdb
      obtain ⟨_, -, hdb⟩ := hdb
      split at hdb
      · contradiction
      · rw [← Except.ok.inj hdb]
    refine .of_exit (by rw [exitOf, exitOf, hexits]) fun row hrow => ?_
    rcases findFolder_createFolder hdb with hsame | ⟨-, hnone, -⟩
    · exact ⟨row, hsame.trans hrow, .refl row⟩
    · rw [hnone] at hrow
      contradiction
  | claimFolder id' inviteHash senderHash now =>
    simp only [perform, commit, Option.some.injEq] at h
    subst h
    cases hclaim : d.db.claimFolder id' inviteHash senderHash now with
    | mk accepted db =>
      cases accepted with
      | true =>
        obtain ⟨row, hrow, hopen, -, hcase⟩ := claimFolder_accepted hclaim
        rcases hcase with ⟨-, rfl⟩ | ⟨-, -, rfl⟩
        · exact .of_same rfl rfl
        · refine .of_exit rfl fun row' hrow' => ?_
          by_cases hid : id' = id
          · subst hid
            rw [hrow] at hrow'
            cases Option.some.inj hrow'
            rw [findFolder_updateFolders_of_eq _ hrow (by simp [findFolder_id hrow])]
            exact ⟨_, rfl, rfl, fun hclosed => by rw [hopen] at hclosed; contradiction⟩
          · rw [findFolder_updateFolders_of_ne _ (fun row => beq_iff_eq.mp) hid]
            exact ⟨row', hrow', .refl row'⟩
      | false =>
        have hsame : db = d.db := by
          unfold claimFolder at hclaim
          split at hclaim
          · exact (Prod.mk.inj hclaim).2.symm
          · split at hclaim
            · exact (Prod.mk.inj hclaim).2.symm
            · split at hclaim
              · exact (Prod.mk.inj hclaim).2.symm
              · split at hclaim
                · exact (Prod.mk.inj hclaim).2.symm
                · cases (Prod.mk.inj hclaim).1
        rw [hsame]
        exact .of_same rfl rfl
  | confirmFolder id' verification =>
    simp only [perform, commit, Option.some.injEq] at h
    subst h
    exact .of_update (by exact fun _ => ⟨rfl, rfl⟩) fun row _ => ⟨rfl, fun hclosed => ⟨hclosed, rfl⟩⟩
  | renewFolder id' inviteHash expires =>
    simp only [perform, commit, Option.some.injEq] at h
    subst h
    refine .of_update (by exact fun _ => ⟨rfl, rfl⟩) fun row hselected => ⟨rfl, fun hclosed => ?_⟩
    simp [hclosed] at hselected
  | disconnectFolder id' hash =>
    simp only [perform, commit, Option.some.injEq] at h
    subst h
    unfold disconnectFolder
    split
    · exact .of_update (by exact fun _ => ⟨rfl, rfl⟩) fun row _ => ⟨rfl, fun _ => ⟨rfl, rfl⟩⟩
    · exact .of_same rfl rfl
  | beginExit id' credential =>
    have hdb := commit_eq_some h
    cases hr : d.db.beginExit id' credential with
    | error e =>
      rw [hr] at hdb
      contradiction
    | ok db =>
      simp only [hr, Except.toOption, Option.getD_some] at hdb
      rw [hdb] at hr
      simp only [beginExit, bind_eq_ok] at hr
      obtain ⟨_, -, hr⟩ := hr
      split at hr
      · cases Except.ok.inj hr
      · split at hr
        · contradiction
        · rename_i row hrow
          rw [← Option.some.inj (Except.ok.inj hr)]
          have hfind : ((d.db.revoke id').recordExit id' row.senderHash.isNone).findFolder id =
              (d.db.revoke id').findFolder id := findFolder_recordExit
          have hkept : SeatKept id d.db (d.db.revoke id') :=
            .of_update _ fun row _ => ⟨rfl, fun _ => ⟨rfl, rfl⟩⟩
          rcases @exitOf_recordExit (d.db.revoke id') id id' row.senderHash.isNone with hsame | ⟨rfl, hnone, hnew⟩
          · refine .of_exit hsame fun row hrow => ?_
            rw [hfind]
            exact hkept.folder row hrow
          · refine ⟨fun row hrow => ?_, fun e he => ?_, fun _ e' he' => ?_⟩
            · rw [hfind]
              exact hkept.folder row hrow
            · have hnone : d.db.exitOf id' = none := hnone
              rw [hnone] at he
              contradiction
            · rw [hnew] at he'
              rw [← Option.some.inj he', hfind, findFolder_revoke, hrow]
              refine ⟨rfl, rfl, _, rfl, ?_, ?_⟩
              · simp [findFolder_id hrow]
              · simp [findFolder_id hrow]
  | removeFolder id' =>
    simp only [perform] at h
    split at h
    · simp only [commit, Option.some.injEq] at h
      subst h
      have hexit : (d.db.removeFolder id').exitOf id = (d.db.exitOf id).map fun row =>
          if row.folderId == id' then { row with serverCleaned := true } else row :=
        exitOf_updateExits (by exact fun _ => rfl)
      refine ⟨fun row hrow => ?_, fun e he => ?_, fun hnone e' he' => ?_⟩
      · rw [findFolder_removeFolder, hrow]
        refine ⟨_, rfl, ?_⟩
        dsimp only
        split
        · exact ⟨rfl, fun hclosed => ⟨hclosed, rfl⟩⟩
        · exact .refl row
      · rw [hexit, he]
        refine ⟨_, rfl, ?_⟩
        dsimp only
        split
        · exact ⟨rfl, rfl, fun _ => rfl⟩
        · exact ⟨rfl, rfl, fun hcleaned => hcleaned⟩
      · rw [hexit, hnone] at he'
        contradiction
    · contradiction
  | receiveExit id' hash role =>
    have hdb := commit_eq_some h
    have hother : id' ≠ id := by simpa [Transaction.isReceipt] using ha
    simp only [receiveExit] at hdb
    split at hdb
    · rw [← Option.some.inj hdb]
      refine .of_exit ?_ fun row hrow => ⟨row, hrow, .refl row⟩
      rw [exitOf_updateExits]
      cases he : d.db.exitOf id with
      | none => rfl
      | some e =>
        rw [Option.map_some, if_neg]
        intro hselected
        rw [Bool.and_eq_true, beq_iff_eq, exitOf_id he] at hselected
        exact hother hselected.1.symm
    · contradiction

/-- A receipt is accepted after the relay has cleaned, for a credential of the folder, and sets the
flag of the role it names. -/
theorem perform_receipt {hash role : String} (h : d.perform m (.receiveExit id hash role) = some d') :
    (∃ row, d.db.findFolder id = some row ∧
      (row.receiverHash = hash ∨ row.senderHash = some hash)) ∧
    (∀ row, d.db.findFolder id = some row → d'.db.findFolder id = some row) ∧
    ∃ e, d.db.exitOf id = some e ∧ e.serverCleaned = true ∧ d'.db.exitOf id = some
      (if role = "sender" then { e with senderCleaned := true }
        else { e with receiverCleaned := true }) := by
  have hdb := commit_eq_some h
  simp only [receiveExit] at hdb
  split at hdb
  · rename_i hcondition
    rw [← Option.some.inj hdb]
    obtain ⟨e, he, hcleaned⟩ := serverCleaned_iff.mp hcondition.2
    refine ⟨authorized_iff.mp hcondition.1, fun row hrow => hrow, e, he, hcleaned, ?_⟩
    rw [exitOf_updateExits, he, Option.map_some, if_pos]
    simp [exitOf_id he, hcleaned]
  · contradiction

end Desk

end MiRelay
