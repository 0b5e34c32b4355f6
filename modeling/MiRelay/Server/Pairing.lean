import MiRelay.Core.Run
import MiRelay.Server.Folders

/-!
# Pairing requests one step at a time

A request to confirm a sender or to replace an invitation first looks up the
identity of its credential and later updates the row under conditions, and an
exit revokes the folder before it removes the metadata. Between the two steps
any other request may run. The relay is its database with the requests that
have passed their lookup; tokens and codes are the texts a party holds, of
which the relay keeps the hash alone. The headers of a request are taken as
already read, and a request refused for another reason (a busy relay, a failed
transaction) is a request that does not take its next step.
-/

namespace MiRelay

/-- The error a request is answered with. -/
structure ApiError where
  status : Nat
  code : String
  detail : String
  deriving DecidableEq, Repr

namespace ApiError

def unauthorized : ApiError :=
  ⟨401, "unauthorized", "valid bearer authentication is required"⟩

/-- `pending` of the pairing requests. -/
def pending : ApiError :=
  ⟨409, "pairing_pending", "Both devices must confirm pairing before files can be transferred."⟩

def folderDisconnected : ApiError :=
  ⟨410, "folder_disconnected",
    "This Folder is disconnected. Create and confirm a new Folder to transfer again."⟩

end ApiError

/-- What a folder's credential is told about the pairing. -/
structure FolderHandshake where
  schemaVersion : Nat
  folderId : String
  name : String
  role : String
  state : String
  verification : Option String
  maxFileSizeBytes : Nat
  deriving DecidableEq, Repr

/-- `PROTOCOL_VERSION`. -/
def protocolVersion : Nat := 1

/-- `INVITATION_SECONDS`. -/
def invitationSeconds : Nat := 600

/-- The comparison code of a credential: the first six bytes of its hash. -/
def verificationCode (hash : String) : String := String.ofList (hash.toList.take 12)

/-- `validate_id` of the pairing requests. -/
def validateFolderId (id : String) : Except ApiError Unit :=
  match ensureUuid id "" with
  | .ok () => .ok ()
  | .error _ => .error .unauthorized

/-- `require_connected`. -/
def requireConnected (info : FolderHandshake) : Except ApiError Unit :=
  if info.state = "disconnected" then .error .folderDisconnected else .ok ()

/-- `len() == 64` and hexadecimal digits only. -/
def isSecret (s : String) : Bool := s.toList.length == 64 && s.toList.all isHex

/-- `split_once('.')`. -/
def splitOnce (code : String) : Option (String × String) :=
  match code.toList.span (· != '.') with
  | (id, _ :: secret) => some (String.ofList id, String.ofList secret)
  | (_, []) => none

/-- `format!("{id}.{secret}")`. -/
def pairingCode (id secret : String) : String := id ++ "." ++ secret

/-- The role of a credential in a folder. -/
def FolderRow.role (row : FolderRow) (hash : String) : Except ApiError String :=
  if row.receiverHash = hash then .ok "receiver"
  else if row.senderHash = some hash then .ok "sender"
  else .error .unauthorized

namespace Database

/-- `identity`: the role of a credential and the state of its folder. -/
def identity (maxFileSize : Nat) (db : Database) (id hash : String) :
    Except ApiError FolderHandshake := do
  validateFolderId id
  let some row := db.findFolder id | .error .unauthorized
  let role ← row.role hash
  return {
    schemaVersion := protocolVersion
    folderId := id
    name := row.name
    role
    state :=
      if row.disconnected then "disconnected"
      else if row.ready then "ready"
      else if row.senderHash.isSome then "awaiting_confirmation"
      else "awaiting_peer"
    -- Confirm binds to this exact sender, so a stale dialog cannot confirm a replacement.
    verification := if row.disconnected then none else row.senderHash.map verificationCode
    maxFileSizeBytes := maxFileSize }

/-- What `confirm` checks before its update. -/
def checkConfirm (maxFileSize : Nat) (db : Database) (id hash verification : String) :
    Except ApiError Unit := do
  let info ← db.identity maxFileSize id hash
  requireConnected info
  if info.role ≠ "receiver" then
    .error ⟨403, "wrong_role", "Receiver confirmation is required."⟩
  else if info.verification ≠ some verification then .error .pending
  else .ok ()

/-- What `renew` checks before its update. -/
def checkRenew (maxFileSize : Nat) (db : Database) (id hash : String) : Except ApiError Unit := do
  let info ← db.identity maxFileSize id hash
  requireConnected info
  if info.role ≠ "receiver" then
    .error ⟨403, "wrong_role", "Only the receiver can replace an invitation."⟩
  else .ok ()

end Database

/-- A request between its two steps. -/
inductive Admitted
  | confirm (id hash verification : String)
  | renew (id hash : String)
  /-- Revoked by a credential, or resumed by the relay itself. -/
  | exit (id : String) (hash : Option String)
  deriving DecidableEq, Repr

/-- The relay during pairing. -/
structure Pairing where
  db : Database
  admitted : List Admitted

/-- A relay without folders. -/
def Pairing.initial : Pairing := ⟨.initial, []⟩

/-- One step of a pairing request, with the texts its party sends, the random texts the relay
draws and its clock. -/
inductive PairingStep
  | create (admin name id receiverToken secret : String) (now : Nat)
  | claim (code senderToken : String) (now : Nat)
  | lookupConfirm (id token verification : String)
  | updateConfirm (id hash verification : String)
  | lookupRenew (id token : String)
  | updateRenew (id hash secret : String) (now : Nat)
  | disconnect (id token : String)
  | revokeExit (id : String) (token : Option String)
  | removeExit (id : String) (hash : Option String)
  /-- Requests between their steps are lost. -/
  | restart
  deriving DecidableEq, Repr

/-- An invitation handed out: the folder, the code and the time. -/
structure Invitation where
  folderId : String
  code : String
  issuedAt : Nat
  deriving DecidableEq, Repr

namespace PairingStep

/-- The invitation a step hands out. -/
def invitation : PairingStep → Option Invitation
  | create _ _ id _ secret now => some ⟨id, pairingCode id secret, now⟩
  | updateRenew id _ secret now => some ⟨id, pairingCode id secret, now⟩
  | _ => none

/-- All invitations handed out in a run. -/
def issued (l : List PairingStep) : List Invitation := l.filterMap invitation

/-- The folder a step is addressed to. -/
def folder : PairingStep → Option String
  | create _ _ id _ _ _ => some id
  | claim code _ _ => (splitOnce code).map (·.1)
  | lookupConfirm id _ _ => some id
  | updateConfirm id _ _ => some id
  | lookupRenew id _ => some id
  | updateRenew id _ _ _ => some id
  | disconnect id _ => some id
  | revokeExit id _ => some id
  | removeExit id _ => some id
  | restart => none

/-- The hash of the credential a step is taken for. -/
def credential (tokenHash : String → String) : PairingStep → Option String
  | create admin _ _ _ _ _ => some (tokenHash admin)
  | claim _ senderToken _ => some (tokenHash senderToken)
  | lookupConfirm _ token _ => some (tokenHash token)
  | updateConfirm _ hash _ => some hash
  | lookupRenew _ token => some (tokenHash token)
  | updateRenew _ hash _ _ => some hash
  | disconnect _ token => some (tokenHash token)
  | revokeExit _ token => token.map tokenHash
  | removeExit _ hash => hash
  | restart => none

end PairingStep

/-- Read-only part of a request: go on with the next step when the checks pass. -/
def Pairing.admitRequest (s : Pairing) (check : Except ApiError Unit) (request : Admitted) :
    Option Pairing :=
  match check with
  | .ok () => some { s with admitted := request :: s.admitted }
  | .error _ => none

/-- One step of a relay with an administrator's hash and a size limit; `none` is a refusal. -/
def Pairing.perform (tokenHash : String → String) (adminHash : Option String) (maxFileSize : Nat)
    (s : Pairing) : PairingStep → Option Pairing
  | .create admin name id receiverToken secret now =>
    let name := trim name
    if adminHash ≠ some (tokenHash admin) ∨ name = "" ∨ 128 < utf8Len name.toList ∨
        name.toList.any isControl then none
    else
      (s.db.createFolder id name (tokenHash receiverToken) (tokenHash (pairingCode id secret))
        (now + invitationSeconds)).toOption.map fun db => { s with db }
  | .claim code senderToken now =>
    match splitOnce code with
    | none => none
    | some (id, secret) =>
      if (validateFolderId id).isOk ∧ isSecret secret ∧ isSecret senderToken then
        match s.db.claimFolder id (tokenHash code) (tokenHash senderToken) now with
        | (true, db) => some { s with db }
        | (false, _) => none
      else none
  | .lookupConfirm id token verification =>
    s.admitRequest (s.db.checkConfirm maxFileSize id (tokenHash token) verification)
      (.confirm id (tokenHash token) verification)
  | .updateConfirm id hash verification =>
    let request := .confirm id hash verification
    if request ∈ s.admitted then
      some ⟨s.db.confirmFolder id verification, s.admitted.erase request⟩
    else none
  | .lookupRenew id token =>
    s.admitRequest (s.db.checkRenew maxFileSize id (tokenHash token)) (.renew id (tokenHash token))
  | .updateRenew id hash secret now =>
    let request := .renew id hash
    if request ∈ s.admitted then
      some ⟨s.db.renewFolder id (tokenHash (pairingCode id secret)) (now + invitationSeconds),
        s.admitted.erase request⟩
    else none
  | .disconnect id token =>
    if (validateFolderId id).isOk then
      match s.db.disconnectFolder id (tokenHash token) with
      | (true, db) => some { s with db }
      | (false, _) => none
    else none
  | .revokeExit id token =>
    match s.db.beginExit id (token.map tokenHash) with
    | .ok (some db) => some ⟨db, .exit id (token.map tokenHash) :: s.admitted⟩
    | _ => none
  | .removeExit id hash =>
    let request := .exit id hash
    if request ∈ s.admitted then some ⟨s.db.removeFolder id, s.admitted.erase request⟩ else none
  | .restart => some { s with admitted := [] }

namespace Database

variable {db db' : Database} {id : String}

/-- An update that keeps identities acts on the row it finds. -/
theorem findFolder_updateFolders {selected : FolderRow → Bool} {change : FolderRow → FolderRow}
    (hchange : ∀ row, (change row).id = row.id ∧ (change row).receiverHash = row.receiverHash) :
    (db.updateFolders selected change hchange).findFolder id =
      (db.findFolder id).map fun row => if selected row then change row else row := by
  have hid : ∀ row, (if selected row then change row else row).id = row.id := fun row => by
    split
    · exact (hchange row).1
    · rfl
  simp only [findFolder, updateFolders, Table.rows_update, List.find?_map, Function.comp_def, hid]

theorem findFolder_id {row : FolderRow} (h : db.findFolder id = some row) : row.id = id := by
  simpa using List.find?_some h

/-- A new folder is awaiting its sender, and the others are as before. -/
theorem findFolder_createFolder {id' name receiverHash inviteHash : String} {expires : Nat}
    (h : db.createFolder id' name receiverHash inviteHash expires = .ok db') :
    db'.findFolder id = db.findFolder id ∨ id' = id ∧ db.findFolder id = none ∧
      db'.findFolder id = some
        { id, name, receiverHash, senderHash := none, inviteHash, expires, ready := false
          disconnected := false } := by
  simp only [createFolder, bind_eq_ok] at h
  obtain ⟨_, -, h⟩ := h
  split at h
  · contradiction
  · rename_i folders hinsert
    cases Except.ok.inj h
    have hrows := Table.rows_insert hinsert
    simp only [findFolder, hrows, List.find?_append]
    cases hfind : db.folders.rows.find? (·.id == id) with
    | some row => exact .inl rfl
    | none =>
      by_cases hid : id' = id
      · subst hid
        exact .inr ⟨rfl, rfl, by simp⟩
      · exact .inl (by simp [hid])

end Database

/-- What a step can do to the row of a folder. -/
inductive RowChange (tokenHash : String → String) (s : Pairing) (id : String) :
    PairingStep → Option FolderRow → Option FolderRow → Prop
  | same {a row} : RowChange tokenHash s id a row row
  | created {admin name shown receiverToken secret now} :
      RowChange tokenHash s id (.create admin name id receiverToken secret now) none (some
        { id, name := shown, receiverHash := tokenHash receiverToken, senderHash := none
          inviteHash := tokenHash (pairingCode id secret), expires := now + invitationSeconds
          ready := false, disconnected := false })
  | bound {code senderToken now secret} {row : FolderRow}
      (hcode : splitOnce code = some (id, secret)) (hopen : row.disconnected = false)
      (hinvite : row.inviteHash = tokenHash code) (hfree : row.senderHash = none)
      (hnow : now < row.expires) :
      RowChange tokenHash s id (.claim code senderToken now) (some row)
        (some { row with senderHash := some (tokenHash senderToken) })
  | confirmed {hash verification} {row : FolderRow}
      (hadmitted : .confirm id hash verification ∈ s.admitted) (hopen : row.disconnected = false)
      (hsender : verificationCode (row.senderHash.getD "") = verification) :
      RowChange tokenHash s id (.updateConfirm id hash verification) (some row)
        (some { row with ready := true })
  | renewed {hash secret now} {row : FolderRow} (hadmitted : .renew id hash ∈ s.admitted)
      (hopen : row.disconnected = false) :
      RowChange tokenHash s id (.updateRenew id hash secret now) (some row)
        (some { row with
          inviteHash := tokenHash (pairingCode id secret), expires := now + invitationSeconds
          senderHash := none, ready := false })
  | revoked {a} {row : FolderRow}
      (ha : ∀ hash, a.credential tokenHash = some hash →
        row.receiverHash = hash ∨ row.senderHash = some hash) :
      RowChange tokenHash s id a (some row)
        (some { row with disconnected := true, ready := false, expires := 0 })
  | retired {hash} {row : FolderRow} (hadmitted : .exit id hash ∈ s.admitted) :
      RowChange tokenHash s id (.removeExit id hash) (some row)
        (some { row with
          name := "Retired Folder", inviteHash := String.ofList (List.replicate 64 '0') })

namespace Database

variable {db db' : Database} {id id' : String}

theorem authorized_iff {hash : String} : db.authorized id hash = true ↔
    ∃ row, db.findFolder id = some row ∧ (row.receiverHash = hash ∨ row.senderHash = some hash) := by
  simp [authorized, Option.any_eq_true]

/-- A revocation changes the row it names alone. -/
theorem findFolder_revoke : (db.revoke id').findFolder id =
    (db.findFolder id).map fun row => if row.id == id' then
      { row with disconnected := true, ready := false, expires := 0 } else row := by
  exact findFolder_updateFolders (by exact fun _ => ⟨rfl, rfl⟩)

@[simp] theorem findFolder_recordExit {cleaned : Bool} :
    (db.recordExit id' cleaned).findFolder id = db.findFolder id := by
  unfold recordExit
  split <;> rfl

/-- The first transaction of an exit revokes the folder for one of its credentials. -/
theorem findFolder_beginExit {credential : Option String}
    (h : db.beginExit id' credential = .ok (some db')) :
    db'.findFolder id = (db.revoke id').findFolder id ∧ (db.findFolder id').isSome ∧
      ∀ hash, credential = some hash → db.authorized id' hash = true := by
  simp only [beginExit, bind_eq_ok] at h
  obtain ⟨_, -, h⟩ := h
  split at h
  · cases Except.ok.inj h
  · rename_i hauthorized
    split at h
    · contradiction
    · rename_i row hrow
      cases Option.some.inj (Except.ok.inj h)
      refine ⟨findFolder_recordExit, by rw [hrow]; rfl, ?_⟩
      rintro hash rfl
      simpa using hauthorized

/-- An update of one folder leaves the rows of the others. -/
theorem findFolder_updateFolders_of_ne {selected : FolderRow → Bool} {change : FolderRow → FolderRow}
    (hchange : ∀ row, (change row).id = row.id ∧ (change row).receiverHash = row.receiverHash)
    (hselected : ∀ row, selected row = true → row.id = id') (hid : id' ≠ id) :
    (db.updateFolders selected change hchange).findFolder id = db.findFolder id := by
  rw [findFolder_updateFolders]
  cases hrow : db.findFolder id with
  | none => rfl
  | some row =>
    have hnot : ¬ selected row = true := fun h => hid ((hselected row h).symm.trans (findFolder_id hrow))
    rw [Option.map_some, if_neg hnot]

/-- What an update does to the row it selects. -/
theorem findFolder_updateFolders_of_eq {selected : FolderRow → Bool} {change : FolderRow → FolderRow}
    (hchange : ∀ row, (change row).id = row.id ∧ (change row).receiverHash = row.receiverHash)
    {row : FolderRow} (hrow : db.findFolder id = some row) (hselected : selected row = true) :
    (db.updateFolders selected change hchange).findFolder id = some (change row) := by
  rw [findFolder_updateFolders, hrow, Option.map_some, if_pos hselected]

/-- The end of an exit retires the row. -/
theorem findFolder_removeFolder : (db.removeFolder id').findFolder id =
    (db.findFolder id).map fun row => if row.id == id' then
      { row with
        name := "Retired Folder", inviteHash := String.ofList (List.replicate 64 '0') }
      else row := by
  exact findFolder_updateFolders (by exact fun _ => ⟨rfl, rfl⟩)

/-- An accepted claim is a retry, or binds a free and unexpired folder. -/
theorem claimFolder_accepted {inviteHash senderHash : String} {now : Nat}
    (h : db.claimFolder id inviteHash senderHash now = (true, db')) :
    ∃ row, db.findFolder id = some row ∧ row.disconnected = false ∧ row.inviteHash = inviteHash ∧
      (row.senderHash = some senderHash ∧ db' = db ∨
        row.senderHash = none ∧ now < row.expires ∧
          db' = db.updateFolders (·.id == id)
            (fun row => { row with senderHash := some senderHash }) fun _ => ⟨rfl, rfl⟩) := by
  unfold claimFolder at h
  split at h
  · cases h
  · rename_i row hrow
    split at h
    · cases h
    · rename_i hopen
      rw [not_or, Bool.not_eq_true, not_not] at hopen
      refine ⟨row, hrow, hopen.1, hopen.2, ?_⟩
      split at h
      · rename_i previous hprevious
        obtain ⟨hsame, rfl⟩ := Prod.mk.inj h
        rw [beq_iff_eq] at hsame
        exact .inl ⟨by rw [hprevious, hsame], rfl⟩
      · rename_i hfree
        split at h
        · cases h
        · rename_i hexpires
          rw [not_or, Nat.not_le] at hexpires
          exact .inr ⟨hfree, hexpires.2, (Prod.mk.inj h).2.symm⟩

/-- An accepted disconnect is by one of the two parties. -/
theorem disconnectFolder_accepted {hash : String} (h : db.disconnectFolder id hash = (true, db')) :
    db.authorized id hash = true ∧ db' = db.revoke id := by
  unfold disconnectFolder at h
  split at h
  · rename_i hauthorized
    exact ⟨hauthorized, (Prod.mk.inj h).2.symm⟩
  · cases h

end Database

section Steps

variable {tokenHash : String → String} {adminHash : Option String} {maxFileSize : Nat}
  {s t : Pairing} {a : PairingStep} {id id' : String}

/-- A step that leaves the row alone. -/
theorem RowChange.of_eq (h : t.db.findFolder id = s.db.findFolder id) :
    RowChange tokenHash s id a (s.db.findFolder id) (t.db.findFolder id) := by
  rw [h]
  exact .same

/-- Revoking a folder changes its row for the credential of the step. -/
theorem RowChange.of_revoke (hfind : t.db.findFolder id = (s.db.revoke id').findFolder id)
    (ha : ∀ hash, a.credential tokenHash = some hash → s.db.authorized id' hash = true) :
    RowChange tokenHash s id a (s.db.findFolder id) (t.db.findFolder id) := by
  by_cases hid : id' = id
  · subst hid
    cases hrow : s.db.findFolder id' with
    | none =>
      rw [hfind, Database.findFolder_revoke, hrow]
      exact .same
    | some row =>
      have hkey : (row.id == id') = true := by simpa using Database.findFolder_id hrow
      rw [hfind, Database.findFolder_revoke, hrow, Option.map_some, if_pos hkey]
      refine .revoked fun hash hhash => ?_
      obtain ⟨row', hrow', hbound⟩ := Database.authorized_iff.mp (ha hash hhash)
      rw [hrow] at hrow'
      cases hrow'
      exact hbound
  · refine .of_eq (hfind.trans (Database.findFolder_updateFolders_of_ne
          (by exact fun _ => ⟨rfl, rfl⟩) (fun row h => ?_) hid))
    exact beq_iff_eq.mp h

/-- Every step changes a row in one of the listed ways. -/
theorem Pairing.perform_change (h : s.perform tokenHash adminHash maxFileSize a = some t)
    (id : String) : RowChange tokenHash s id a (s.db.findFolder id) (t.db.findFolder id) := by
  cases a with
  | create admin name id' receiverToken secret now =>
    simp only [perform] at h
    split at h
    · contradiction
    · obtain ⟨db', hcreate, rfl⟩ := Option.map_eq_some_iff.mp h
      have hfind : db'.findFolder id = _ ∨ _ :=
        Database.findFolder_createFolder (toOption_eq_some.mp hcreate)
      rcases hfind with hsame | ⟨rfl, hnone, hsome⟩
      · exact .of_eq hsame
      · rw [hnone, hsome]
        exact .created
  | claim code senderToken now =>
    simp only [perform] at h
    split at h
    · contradiction
    · rename_i id' secret hcode
      split at h
      · split at h
        · rename_i db' hclaim
          cases Option.some.inj h
          obtain ⟨row, hrow, hopen, hinvite, ⟨-, rfl⟩ | ⟨hfree, hnow, rfl⟩⟩ :=
            Database.claimFolder_accepted hclaim
          · exact .same
          · by_cases hid : id' = id
            · subst hid
              have hkey : (row.id == id') = true := by simpa using Database.findFolder_id hrow
              rw [Database.findFolder_updateFolders_of_eq _ hrow hkey, hrow]
              exact .bound hcode hopen hinvite hfree hnow
            · refine .of_eq (Database.findFolder_updateFolders_of_ne
          (by exact fun _ => ⟨rfl, rfl⟩) (fun row h => ?_) hid)
              exact beq_iff_eq.mp h
        · contradiction
      · contradiction
  | lookupConfirm id' token verification =>
    simp only [perform, admitRequest] at h
    split at h
    · cases Option.some.inj h
      exact .same
    · contradiction
  | lookupRenew id' token =>
    simp only [perform, admitRequest] at h
    split at h
    · cases Option.some.inj h
      exact .same
    · contradiction
  | updateConfirm id' hash verification =>
    simp only [perform] at h
    split at h
    · rename_i hadmitted
      cases Option.some.inj h
      by_cases hid : id' = id
      · subst hid
        cases hrow : s.db.findFolder id' with
        | none =>
          dsimp only [Database.confirmFolder]
          rw [Database.findFolder_updateFolders, hrow]
          exact .same
        | some row =>
          dsimp only [Database.confirmFolder]
          rw [Database.findFolder_updateFolders, hrow, Option.map_some]
          split
          · rename_i hselected
            simp only [Bool.and_eq_true, Bool.not_eq_true', beq_iff_eq] at hselected
            exact .confirmed hadmitted hselected.1.2 hselected.2
          · exact .same
      · refine .of_eq (Database.findFolder_updateFolders_of_ne
          (by exact fun _ => ⟨rfl, rfl⟩) (fun row h => ?_) hid)
        simp only [Bool.and_eq_true, beq_iff_eq] at h
        exact h.1.1
    · contradiction
  | updateRenew id' hash secret now =>
    simp only [perform] at h
    split at h
    · rename_i hadmitted
      cases Option.some.inj h
      by_cases hid : id' = id
      · subst hid
        cases hrow : s.db.findFolder id' with
        | none =>
          dsimp only [Database.renewFolder]
          rw [Database.findFolder_updateFolders, hrow]
          exact .same
        | some row =>
          dsimp only [Database.renewFolder]
          rw [Database.findFolder_updateFolders, hrow, Option.map_some]
          split
          · rename_i hselected
            simp only [Bool.and_eq_true, Bool.not_eq_true', beq_iff_eq] at hselected
            exact .renewed hadmitted hselected.2
          · exact .same
      · refine .of_eq (Database.findFolder_updateFolders_of_ne
          (by exact fun _ => ⟨rfl, rfl⟩) (fun row h => ?_) hid)
        simp only [Bool.and_eq_true, beq_iff_eq] at h
        exact h.1
    · contradiction
  | disconnect id' token =>
    simp only [perform] at h
    split at h
    · split at h
      · rename_i db' hdisconnect
        cases Option.some.inj h
        obtain ⟨hauthorized, rfl⟩ := Database.disconnectFolder_accepted hdisconnect
        refine .of_revoke rfl fun hash hhash => ?_
        cases Option.some.inj hhash
        exact hauthorized
      · contradiction
    · contradiction
  | revokeExit id' token =>
    simp only [perform] at h
    split at h
    · rename_i db' hexit
      cases Option.some.inj h
      have hbegin : db'.findFolder id = _ ∧ _ := Database.findFolder_beginExit hexit
      exact .of_revoke hbegin.1 hbegin.2.2
    · contradiction
  | removeExit id' hash =>
    simp only [perform] at h
    split at h
    · rename_i hadmitted
      cases Option.some.inj h
      by_cases hid : id' = id
      · subst hid
        cases hrow : s.db.findFolder id' with
        | none =>
          rw [Database.findFolder_removeFolder, hrow]
          exact .same
        | some row =>
          have hkey : (row.id == id') = true := by simpa using Database.findFolder_id hrow
          rw [Database.findFolder_removeFolder, hrow, Option.map_some, if_pos hkey]
          exact .retired hadmitted
      · refine .of_eq (Database.findFolder_updateFolders_of_ne
          (by exact fun _ => ⟨rfl, rfl⟩) (fun row h => ?_) hid)
        exact beq_iff_eq.mp h
    · contradiction
  | restart =>
    cases Option.some.inj h
    exact .same

end Steps

end MiRelay
