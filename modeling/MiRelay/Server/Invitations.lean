import MiRelay.Server.Pairing

/-!
# Pairing is safe

What holds of the folder rows and of the requests between their steps is carried
along every run: a folder that is ready is connected and bound to a sender, the
invitation of a connected folder is one that was handed out for it, and a request
past its lookup is one of the receiver. From it each conditional update excludes
the requests that have become stale.
-/

namespace MiRelay

open PairingStep

variable {tokenHash : String → String} {adminHash : Option String} {maxFileSize : Nat}
  {l m : List PairingStep} {s t u : Pairing} {a : PairingStep} {id : String}

/-- What holds of a folder's row after the steps `l`. -/
structure Seated (tokenHash : String → String) (l : List PairingStep) (row : FolderRow) :
    Prop where
  ready : row.ready = true → row.disconnected = false ∧ row.senderHash.isSome
  invited : row.disconnected = false → ∃ invitation ∈ issued l, invitation.folderId = row.id ∧
    tokenHash invitation.code = row.inviteHash ∧
    row.expires = invitation.issuedAt + invitationSeconds
  hashed : ∀ hash, row.senderHash = some hash → ∃ token, hash = tokenHash token

/-- What holds of a request past its first step after the steps `l`. -/
def Standing (tokenHash : String → String) (l : List PairingStep) (db : Database) :
    Admitted → Prop
  | .confirm id hash verification => verification ≠ "" ∧
      (∃ token, .lookupConfirm id token verification ∈ l ∧ tokenHash token = hash) ∧
      ∃ row, db.findFolder id = some row ∧ row.receiverHash = hash
  | .renew id hash => ∃ row, db.findFolder id = some row ∧ row.receiverHash = hash
  | .exit id hash => ∃ row, db.findFolder id = some row ∧ row.disconnected = true ∧
      ∀ h, hash = some h → row.receiverHash = h ∨ row.senderHash = some h

/-- The invariant of pairing after the steps `l`. -/
structure Paired (tokenHash : String → String) (l : List PairingStep) (s : Pairing) : Prop where
  seated : ∀ id row, s.db.findFolder id = some row → Seated tokenHash l row
  standing : ∀ request ∈ s.admitted, Standing tokenHash l s.db request

/-- A later row keeps the receiver, a disconnection, and the sender of a disconnected folder. -/
structure Later (row row' : FolderRow) : Prop where
  receiver : row'.receiverHash = row.receiverHash
  disconnected : row.disconnected = true →
    row'.disconnected = true ∧ row'.senderHash = row.senderHash

theorem Later.refl (row : FolderRow) : Later row row := ⟨rfl, fun h => ⟨h, rfl⟩⟩

theorem Later.trans {row row' row'' : FolderRow} (h : Later row row') (h' : Later row' row'') :
    Later row row'' :=
  ⟨h'.receiver.trans h.receiver, fun hd =>
    ⟨(h'.disconnected (h.disconnected hd).1).1,
      (h'.disconnected (h.disconnected hd).1).2.trans (h.disconnected hd).2⟩⟩

/-- No step removes a row, and what it makes of it is a later row. -/
theorem RowChange.later {before after : Option FolderRow} {row : FolderRow}
    (h : RowChange tokenHash s id a before after) (hrow : before = some row) :
    ∃ row', after = some row' ∧ Later row row' := by
  cases h with
  | same => exact ⟨row, hrow, .refl row⟩
  | created => contradiction
  | bound _ hopen =>
    cases hrow
    exact ⟨_, rfl, rfl, fun h => by rw [hopen] at h; contradiction⟩
  | confirmed _ hopen =>
    cases hrow
    exact ⟨_, rfl, rfl, fun h => ⟨h, rfl⟩⟩
  | renewed _ hopen =>
    cases hrow
    exact ⟨_, rfl, rfl, fun h => by rw [hopen] at h; contradiction⟩
  | revoked =>
    cases hrow
    exact ⟨_, rfl, rfl, fun _ => ⟨rfl, rfl⟩⟩
  | retired =>
    cases hrow
    exact ⟨_, rfl, rfl, fun h => ⟨h, rfl⟩⟩

theorem issued_append (l m : List PairingStep) : issued (l ++ m) = issued l ++ issued m :=
  List.filterMap_append

/-- Requests past their lookup stay justified while rows only become later. -/
theorem Standing.step {request : Admitted} (h : Standing tokenHash l s.db request)
    (hstep : s.perform tokenHash adminHash maxFileSize a = some t) :
    Standing tokenHash (l ++ [a]) t.db request := by
  cases request with
  | confirm id hash verification =>
    obtain ⟨hne, ⟨token, hmem, htoken⟩, row, hrow, hreceiver⟩ := h
    obtain ⟨row', hrow', hlater⟩ := (Pairing.perform_change hstep id).later hrow
    exact ⟨hne, ⟨token, List.mem_append_left _ hmem, htoken⟩, row', hrow',
      hlater.receiver.trans hreceiver⟩
  | renew id hash =>
    obtain ⟨row, hrow, hreceiver⟩ := h
    obtain ⟨row', hrow', hlater⟩ := (Pairing.perform_change hstep id).later hrow
    exact ⟨row', hrow', hlater.receiver.trans hreceiver⟩
  | exit id hash =>
    obtain ⟨row, hrow, hdisconnected, hbound⟩ := h
    obtain ⟨row', hrow', hlater⟩ := (Pairing.perform_change hstep id).later hrow
    obtain ⟨hdisconnected', hsender⟩ := hlater.disconnected hdisconnected
    refine ⟨row', hrow', hdisconnected', fun h hh => ?_⟩
    rw [hlater.receiver, hsender]
    exact hbound h hh

namespace Database

variable {db : Database} {hash : String} {info : FolderHandshake}

theorem role_receiver {row : FolderRow} (h : row.role hash = .ok "receiver") :
    row.receiverHash = hash := by
  unfold FolderRow.role at h
  split at h
  · assumption
  · split at h
    · have hname := Except.ok.inj h
      simp at hname
    · contradiction

/-- An identity found is that of one of the two credentials of the folder. -/
theorem identity_ok (h : db.identity maxFileSize id hash = .ok info) :
    ∃ row, db.findFolder id = some row ∧
      (info.role = "receiver" → row.receiverHash = hash) ∧
      (∀ code, info.verification = some code →
        ∃ sender, row.senderHash = some sender ∧ verificationCode sender = code) := by
  simp only [identity, bind_eq_ok] at h
  obtain ⟨_, -, h⟩ := h
  split at h
  · rename_i row hrow
    rw [bind_eq_ok] at h
    obtain ⟨role, hrole, h⟩ := h
    cases Except.ok.inj h
    refine ⟨row, hrow, fun hreceiver => ?_, fun code hcode => ?_⟩
    · dsimp only at hreceiver
      subst hreceiver
      exact role_receiver hrole
    · dsimp only at hcode
      split at hcode
      · contradiction
      · exact Option.map_eq_some_iff.mp hcode
  · contradiction

/-- A confirmation that passes its checks is the receiver's, for the sender bound then. -/
theorem checkConfirm_ok {verification : String} {v : Unit}
    (h : db.checkConfirm maxFileSize id hash verification = .ok v) :
    ∃ row sender, db.findFolder id = some row ∧ row.receiverHash = hash ∧
      row.senderHash = some sender ∧ verificationCode sender = verification := by
  simp only [checkConfirm, bind_eq_ok] at h
  obtain ⟨info, hinfo, _, -, h⟩ := h
  obtain ⟨row, hrow, hreceiver, hsender⟩ := identity_ok hinfo
  split at h
  · contradiction
  · rename_i hrole
    split at h
    · contradiction
    · rename_i hverification
      rw [not_not] at hrole hverification
      obtain ⟨sender, hbound, hcode⟩ := hsender _ hverification
      exact ⟨row, sender, hrow, hreceiver hrole, hbound, hcode⟩

/-- A renewal that passes its checks is the receiver's. -/
theorem checkRenew_ok {v : Unit} (h : db.checkRenew maxFileSize id hash = .ok v) :
    ∃ row, db.findFolder id = some row ∧ row.receiverHash = hash := by
  simp only [checkRenew, bind_eq_ok] at h
  obtain ⟨info, hinfo, _, -, h⟩ := h
  obtain ⟨row, hrow, hreceiver, -⟩ := identity_ok hinfo
  split at h
  · contradiction
  · rename_i hrole
    rw [not_not] at hrole
    exact ⟨row, hrow, hreceiver hrole⟩

end Database

/-- A hash has enough digits for a comparison code that is not empty. -/
theorem verificationCode_ne (hhash : ∀ text, (tokenHash text).length = 64) (token : String) :
    verificationCode (tokenHash token) ≠ "" := by
  intro h
  have hlength : (verificationCode (tokenHash token)).length = 12 := by
    rw [verificationCode, String.length_ofList, List.length_take, String.length_toList, hhash]
    rfl
  rw [h] at hlength
  contradiction

/-- A row that a step has changed is seated again. -/
theorem RowChange.seated {before after : Option FolderRow} {row' : FolderRow}
    (h : RowChange tokenHash s id a before after) (hafter : after = some row')
    (hstanding : ∀ request ∈ s.admitted, Standing tokenHash l s.db request)
    (hbefore : ∀ row, before = some row → s.db.findFolder id = some row ∧ Seated tokenHash l row) :
    Seated tokenHash (l ++ [a]) row' := by
  have hkeep : ∀ {row : FolderRow}, Seated tokenHash l row → Seated tokenHash (l ++ [a]) row :=
    fun h => ⟨h.ready, fun hopen => by
      obtain ⟨invitation, hmem, hinvited⟩ := h.invited hopen
      exact ⟨invitation, by rw [issued_append]; exact List.mem_append_left _ hmem, hinvited⟩,
      h.hashed⟩
  cases h with
  | same => exact hkeep (hbefore row' hafter).2
  | @created _ _ _ _ secret now =>
    cases hafter
    refine ⟨by simp, fun _ => ⟨⟨id, pairingCode id secret, now⟩, ?_, rfl, rfl, rfl⟩, by simp⟩
    rw [issued_append]
    exact List.mem_append_right _ (by simp [issued, invitation])
  | bound hcode hopen hinvite hfree =>
    cases hafter
    obtain ⟨-, hseated⟩ := hbefore _ rfl
    have hold := hkeep hseated
    exact ⟨fun _ => ⟨hopen, rfl⟩, hold.invited, fun hash hhash =>
      ⟨_, (Option.some.inj hhash).symm⟩⟩
  | confirmed hadmitted hopen hsender =>
    cases hafter
    obtain ⟨-, hseated⟩ := hbefore _ rfl
    have hold := hkeep hseated
    refine ⟨fun _ => ⟨hopen, ?_⟩, hold.invited, hold.hashed⟩
    -- An update without a sender compares with the empty text.
    obtain ⟨hne, -⟩ := hstanding _ hadmitted
    rw [Option.isSome_iff_ne_none]
    intro hnone
    dsimp only at hnone
    rw [hnone] at hsender
    exact hne hsender.symm
  | @renewed _ secret now row hadmitted hopen =>
    cases hafter
    obtain ⟨hrow, -⟩ := hbefore _ rfl
    refine ⟨by simp, fun _ => ⟨⟨id, pairingCode id secret, now⟩, ?_,
      (Database.findFolder_id hrow).symm, rfl, rfl⟩, by simp⟩
    rw [issued_append]
    exact List.mem_append_right _ (by simp [issued, invitation])
  | revoked =>
    cases hafter
    obtain ⟨-, hseated⟩ := hbefore _ rfl
    exact ⟨by simp, by simp, hseated.hashed⟩
  | retired hadmitted =>
    cases hafter
    obtain ⟨hrow, hseated⟩ := hbefore _ rfl
    obtain ⟨row', hrow', hdisconnected, -⟩ := hstanding _ hadmitted
    rw [hrow] at hrow'
    cases hrow'
    refine ⟨hseated.ready, fun hopen => ?_, hseated.hashed⟩
    dsimp only at hopen
    rw [hdisconnected] at hopen
    contradiction

/-- One step keeps the invariant. -/
theorem Paired.step (hhash : ∀ text, (tokenHash text).length = 64) (h : Paired tokenHash l s)
    (hstep : s.perform tokenHash adminHash maxFileSize a = some t) :
    Paired tokenHash (l ++ [a]) t := by
  refine ⟨fun id row hrow => (Pairing.perform_change hstep id).seated hrow h.standing
    fun row hrow => ⟨hrow, h.seated id row hrow⟩, fun request hrequest => ?_⟩
  -- A request is an earlier one, or one that has just passed its first step.
  by_cases hold : request ∈ s.admitted
  · exact (h.standing request hold).step hstep
  cases a with
  | create admin name id' receiverToken secret now =>
    simp only [Pairing.perform] at hstep
    split at hstep
    · contradiction
    · obtain ⟨db', -, rfl⟩ := Option.map_eq_some_iff.mp hstep
      exact absurd hrequest hold
  | claim code senderToken now =>
    simp only [Pairing.perform] at hstep
    split at hstep
    · contradiction
    · split at hstep
      · split at hstep
        · cases Option.some.inj hstep
          exact absurd hrequest hold
        · contradiction
      · contradiction
  | lookupConfirm id token verification =>
    simp only [Pairing.perform, Pairing.admitRequest] at hstep
    split at hstep
    · rename_i hcheck
      cases Option.some.inj hstep
      obtain rfl := (List.mem_cons.mp hrequest).resolve_right hold
      obtain ⟨row, sender, hrow, hreceiver, hsender, hcode⟩ := Database.checkConfirm_ok hcheck
      obtain ⟨token', htoken'⟩ := (h.seated id row hrow).hashed sender hsender
      refine ⟨?_, ⟨token, by simp, rfl⟩, row, hrow, hreceiver⟩
      rw [← hcode, htoken']
      exact verificationCode_ne hhash token'
    · contradiction
  | lookupRenew id token =>
    simp only [Pairing.perform, Pairing.admitRequest] at hstep
    split at hstep
    · rename_i hcheck
      cases Option.some.inj hstep
      obtain rfl := (List.mem_cons.mp hrequest).resolve_right hold
      exact Database.checkRenew_ok hcheck
    · contradiction
  | updateConfirm id hash verification =>
    simp only [Pairing.perform] at hstep
    split at hstep
    · cases Option.some.inj hstep
      exact absurd (List.mem_of_mem_erase hrequest) hold
    · contradiction
  | updateRenew id hash secret now =>
    simp only [Pairing.perform] at hstep
    split at hstep
    · cases Option.some.inj hstep
      exact absurd (List.mem_of_mem_erase hrequest) hold
    · contradiction
  | disconnect id token =>
    simp only [Pairing.perform] at hstep
    split at hstep
    · split at hstep
      · cases Option.some.inj hstep
        exact absurd hrequest hold
      · contradiction
    · contradiction
  | revokeExit id token =>
    simp only [Pairing.perform] at hstep
    split at hstep
    · rename_i db' hexit
      cases Option.some.inj hstep
      obtain rfl := (List.mem_cons.mp hrequest).resolve_right hold
      have hbegin : db'.findFolder id = _ ∧ _ := Database.findFolder_beginExit hexit
      obtain ⟨hfind, hsome, hauthorized⟩ := hbegin
      obtain ⟨row, hrow⟩ := Option.isSome_iff_exists.mp hsome
      have hkey : (row.id == id) = true := by simpa using Database.findFolder_id hrow
      rw [Database.findFolder_revoke, hrow, Option.map_some, if_pos hkey] at hfind
      refine ⟨_, hfind, rfl, fun hash hhash => ?_⟩
      obtain ⟨row', hrow', hbound⟩ := Database.authorized_iff.mp (hauthorized hash hhash)
      rw [hrow] at hrow'
      cases hrow'
      exact hbound
    · contradiction
  | removeExit id hash =>
    simp only [Pairing.perform] at hstep
    split at hstep
    · cases Option.some.inj hstep
      exact absurd (List.mem_of_mem_erase hrequest) hold
    · contradiction
  | restart =>
    cases Option.some.inj hstep
    simp at hrequest

/-- A run of pairing steps, each accepted. -/
abbrev Pairings (tokenHash : String → String) (adminHash : Option String) (maxFileSize : Nat)
    (s : Pairing) (l : List PairingStep) (t : Pairing) : Prop :=
  Steps (Pairing.perform tokenHash adminHash maxFileSize) (fun _ _ => True) s l t

/-- The invariant holds along every run. -/
theorem paired_run (hhash : ∀ text, (tokenHash text).length = 64)
    (h : Pairings tokenHash adminHash maxFileSize .initial l s) : Paired tokenHash l s :=
  h.invariant ⟨fun _ _ hrow => by contradiction, fun _ hrequest => by contradiction⟩
    fun _ _ _ _ hpaired _ hstep => hpaired.step hhash hstep

/-- A row of an earlier state is still there, as a later row. -/
theorem later_run (h : Pairings tokenHash adminHash maxFileSize s l t) {row : FolderRow}
    (hrow : s.db.findFolder id = some row) : ∃ row', t.db.findFolder id = some row' ∧ Later row row' :=
  h.invariant (I := fun _ t => ∃ row', t.db.findFolder id = some row' ∧ Later row row')
    ⟨row, hrow, .refl row⟩ fun _ _ _ _ ⟨_, hrow', hlater⟩ _ hstep => by
      obtain ⟨row'', hrow'', hlater'⟩ := (Pairing.perform_change hstep id).later hrow'
      exact ⟨row'', hrow'', hlater.trans hlater'⟩

/-- A connected folder keeps its invitation and its sender, or was handed a new invitation. -/
theorem invited_run (hhash : ∀ text, (tokenHash text).length = 64)
    (h0 : Pairings tokenHash adminHash maxFileSize .initial l s)
    (h : Pairings tokenHash adminHash maxFileSize s m t) {row row' : FolderRow}
    (hrow : s.db.findFolder id = some row) (hrow' : t.db.findFolder id = some row')
    (hopen : row'.disconnected = false) :
    row'.inviteHash = row.inviteHash ∧ (row.senderHash.isSome → row'.senderHash = row.senderHash) ∨
      ∃ invitation ∈ issued m, tokenHash invitation.code = row'.inviteHash := by
  induction h generalizing row' with
  | nil =>
    rw [hrow] at hrow'
    cases hrow'
    exact .inl ⟨rfl, fun _ => rfl⟩
  | @snoc m v u a hbefore _ hstep ih =>
    have hgrow : ∀ {p : Prop}, (p ∨ ∃ i ∈ issued m, tokenHash i.code = row'.inviteHash) →
        p ∨ ∃ i ∈ issued (m ++ [a]), tokenHash i.code = row'.inviteHash := by
      rintro p (hp | ⟨i, hi, hcode⟩)
      · exact .inl hp
      · exact .inr ⟨i, by rw [issued_append]; exact List.mem_append_left _ hi, hcode⟩
    obtain ⟨row₁, hrow₁, -⟩ := later_run hbefore hrow
    have hchange := Pairing.perform_change hstep id
    rw [hrow₁, hrow'] at hchange
    cases hchange with
    | same => exact hgrow (ih hrow₁ hopen)
    | bound hcode hopen₁ hinvite hfree =>
      refine hgrow ((ih hrow₁ hopen).imp_left fun ⟨hsame, hsender⟩ => ⟨hsame, fun hsome => ?_⟩)
      rw [← hsender hsome, hfree] at hsome
      contradiction
    | confirmed =>
      have hold := ih hrow₁ hopen
      exact hgrow hold
    | @renewed _ secret now _ hadmitted =>
      refine .inr ⟨⟨id, pairingCode id secret, now⟩, ?_, rfl⟩
      rw [issued_append]
      exact List.mem_append_right _ (by simp [issued, invitation])
    | revoked => contradiction
    | retired hadmitted =>
      -- Only a disconnected folder is retired.
      have hpaired := paired_run hhash (h0.append hbefore)
      obtain ⟨row₂, hrow₂, hdisconnected, -⟩ := hpaired.standing _ hadmitted
      rw [hrow₁] at hrow₂
      cases hrow₂
      dsimp only at hopen
      rw [hdisconnected] at hopen
      contradiction

/-- What an accepted claim has found. -/
theorem claim_accepted {code token : String} {now : Nat}
    (h : s.perform tokenHash adminHash maxFileSize (.claim code token now) = some t) :
    ∃ id secret row, splitOnce code = some (id, secret) ∧ s.db.findFolder id = some row ∧
      row.disconnected = false ∧ row.inviteHash = tokenHash code ∧
      (row.senderHash = some (tokenHash token) ∧ t = s ∨
        row.senderHash = none ∧ now < row.expires ∧
          t.db.findFolder id = some { row with senderHash := some (tokenHash token) }) := by
  simp only [Pairing.perform] at h
  split at h
  · contradiction
  · rename_i id secret hcode
    split at h
    · split at h
      · rename_i db' hclaim
        cases Option.some.inj h
        obtain ⟨row, hrow, hopen, hinvite, ⟨hbound, rfl⟩ | ⟨hfree, hnow, rfl⟩⟩ :=
          Database.claimFolder_accepted hclaim
        · exact ⟨id, secret, row, hcode, hrow, hopen, hinvite, .inl ⟨hbound, rfl⟩⟩
        · have hkey : (row.id == id) = true := by simpa using Database.findFolder_id hrow
          refine ⟨id, secret, row, hcode, hrow, hopen, hinvite, .inr ⟨hfree, hnow, ?_⟩⟩
          exact Database.findFolder_updateFolders_of_eq (by exact fun _ => ⟨rfl, rfl⟩) hrow hkey
      · contradiction
    · contradiction

/-- What pairing guarantees of a step `a` from `s` to `t` after the steps `l`, and of a state
`u` reached from there by the steps `m`. -/
structure PairingSafe (tokenHash : String → String) (adminHash : Option String) (maxFileSize : Nat)
    (l : List PairingStep) (s : Pairing) (a : PairingStep) (t : Pairing) (u : Pairing) :
    Prop where
  /-- A disconnected folder stays disconnected and is never ready. -/
  disconnected : ∀ id row, s.db.findFolder id = some row → row.disconnected = true →
    row.ready = false ∧ ∃ row', u.db.findFolder id = some row' ∧ row'.disconnected = true ∧
      row'.ready = false
  /-- A folder is ready only for the sender it was ready for before the step, or because the
  receiver submitted the code of the sender bound at that moment. -/
  ready : ∀ id row', t.db.findFolder id = some row' → row'.ready = true →
    ∃ row sender, s.db.findFolder id = some row ∧ row.senderHash = some sender ∧
      row'.senderHash = some sender ∧
      (row.ready = true ∨ ∃ token, tokenHash token = row.receiverHash ∧
        .lookupConfirm id token (verificationCode sender) ∈ l)
  /-- A code that has bound a sender is afterwards accepted from that sender alone, and no
  longer changes anything. -/
  bindsOnce : ∀ code token now, a = .claim code token now → t ≠ s → ∀ token' now' v,
    u.perform tokenHash adminHash maxFileSize (.claim code token' now') = some v →
      v = u ∧ tokenHash token' = tokenHash token
  /-- Once an invitation has been replaced, the earlier codes of the folder are refused. -/
  replaced : ∀ id hash secret now, a = .updateRenew id hash secret now →
    ∀ invitation ∈ issued l, invitation.folderId = id → ∀ token' now',
      u.perform tokenHash adminHash maxFileSize (.claim invitation.code token' now') = none
  /-- An expired code binds no sender. -/
  expired : ∀ invitation ∈ issued l, ∀ token now, a = .claim invitation.code token now →
    invitation.issuedAt + invitationSeconds ≤ now → t = s
  /-- Apart from a claim with the current code, only the folder's credentials change its row. -/
  strangers : ∀ id row, s.db.findFolder id = some row → t.db.findFolder id ≠ some row →
    (∃ code secret token now, a = .claim code token now ∧ splitOnce code = some (id, secret) ∧
      tokenHash code = row.inviteHash) ∨
    ∀ hash, a.credential tokenHash = some hash →
      row.receiverHash = hash ∨ row.senderHash = some hash

section Run

variable (hhash : ∀ text, (tokenHash text).length = 64)
  (hl : Pairings tokenHash adminHash maxFileSize .initial l s)
  (ha : s.perform tokenHash adminHash maxFileSize a = some t)
  (hm : Pairings tokenHash adminHash maxFileSize t m u)

include hhash hl in
theorem disconnected_run (h : Pairings tokenHash adminHash maxFileSize s m u) {row : FolderRow}
    (hrow : s.db.findFolder id = some row) (hdisconnected : row.disconnected = true) :
    ∃ row', u.db.findFolder id = some row' ∧ row'.disconnected = true ∧ row'.ready = false := by
  obtain ⟨row', hrow', hlater⟩ := later_run h hrow
  have hdisconnected' := (hlater.disconnected hdisconnected).1
  have hseated := (paired_run hhash (hl.append h)).seated id row' hrow'
  refine ⟨row', hrow', hdisconnected', Bool.eq_false_iff.mpr fun hready => ?_⟩
  rw [(hseated.ready hready).1] at hdisconnected'
  contradiction

include hhash hl ha in
theorem ready_step {row' : FolderRow} (hrow' : t.db.findFolder id = some row')
    (hready : row'.ready = true) :
    ∃ row sender, s.db.findFolder id = some row ∧ row.senderHash = some sender ∧
      row'.senderHash = some sender ∧
      (row.ready = true ∨ ∃ token, tokenHash token = row.receiverHash ∧
        .lookupConfirm id token (verificationCode sender) ∈ l) := by
  have hpaired := paired_run hhash hl
  have hchange := Pairing.perform_change ha id
  rw [hrow'] at hchange
  generalize hbefore : s.db.findFolder id = before at hchange
  cases hchange with
  | same =>
    obtain ⟨sender, hsender⟩ :=
      Option.isSome_iff_exists.mp ((hpaired.seated id row' hbefore).ready hready).2
    exact ⟨row', sender, rfl, hsender, hsender, .inl hready⟩
  | created => contradiction
  | bound hcode hopen hinvite hfree =>
    have hseated := (hpaired.seated id _ hbefore).ready hready
    rw [hfree] at hseated
    simp at hseated
  | @confirmed hash verification row hadmitted hopen hsender =>
    obtain ⟨hne, ⟨token, hmem, htoken⟩, row₁, hrow₁, hreceiver⟩ := hpaired.standing _ hadmitted
    rw [hbefore] at hrow₁
    cases hrow₁
    cases hbound : row.senderHash with
    | none =>
      rw [hbound] at hsender
      exact absurd hsender.symm hne
    | some sender =>
      rw [hbound, Option.getD_some] at hsender
      subst hsender
      exact ⟨row, sender, rfl, hbound, rfl, .inr ⟨token, htoken.trans hreceiver.symm, hmem⟩⟩
  | renewed => contradiction
  | revoked => contradiction
  | @retired _ row =>
    obtain ⟨sender, hsender⟩ :=
      Option.isSome_iff_exists.mp ((hpaired.seated id row hbefore).ready hready).2
    exact ⟨row, sender, rfl, hsender, hsender, .inl hready⟩

include hhash hl ha in
theorem strangers_step {row : FolderRow} (hrow : s.db.findFolder id = some row)
    (hchanged : t.db.findFolder id ≠ some row) :
    (∃ code secret token now, a = .claim code token now ∧ splitOnce code = some (id, secret) ∧
      tokenHash code = row.inviteHash) ∨
    ∀ hash, a.credential tokenHash = some hash →
      row.receiverHash = hash ∨ row.senderHash = some hash := by
  have hpaired := paired_run hhash hl
  have hchange := Pairing.perform_change ha id
  rw [hrow] at hchange
  have hstanding : ∀ request ∈ s.admitted, Standing tokenHash l s.db request := hpaired.standing
  generalize hafter : t.db.findFolder id = after at hchange hchanged
  cases hchange with
  | same => exact absurd rfl hchanged
  | @bound code token now secret _ hcode hopen hinvite hfree =>
    exact .inl ⟨code, secret, token, now, rfl, hcode, hinvite.symm⟩
  | confirmed hadmitted =>
    obtain ⟨-, -, row₁, hrow₁, hreceiver⟩ := hstanding _ hadmitted
    rw [hrow] at hrow₁
    cases hrow₁
    exact .inr fun hash hhash => .inl (hreceiver.trans (Option.some.inj hhash))
  | renewed hadmitted =>
    obtain ⟨row₁, hrow₁, hreceiver⟩ := hstanding _ hadmitted
    rw [hrow] at hrow₁
    cases hrow₁
    exact .inr fun hash hhash => .inl (hreceiver.trans (Option.some.inj hhash))
  | revoked hbound => exact .inr hbound
  | retired hadmitted =>
    obtain ⟨row₁, hrow₁, -, hbound⟩ := hstanding _ hadmitted
    rw [hrow] at hrow₁
    cases hrow₁
    exact .inr hbound

/-- The codes handed out have different hashes. -/
def Distinct (tokenHash : String → String) (l : List PairingStep) : Prop :=
  ((issued l).map fun invitation => tokenHash invitation.code).Nodup

/-- Of distinct codes, a later one is not an earlier one. -/
theorem Distinct.ne (h : Distinct tokenHash (l ++ m)) {i j : Invitation} (hi : i ∈ issued l)
    (hj : j ∈ issued m) : tokenHash j.code ≠ tokenHash i.code := by
  rw [Distinct, issued_append, List.map_append, List.nodup_append] at h
  exact fun heq => h.2.2 _ (List.mem_map_of_mem hi) _ (List.mem_map_of_mem hj) heq.symm

/-- Of distinct codes, those with one hash are the same. -/
theorem Distinct.eq (h : Distinct tokenHash (l ++ m)) {i j : Invitation} (hi : i ∈ issued l)
    (hj : j ∈ issued l) (heq : tokenHash i.code = tokenHash j.code) : i = j := by
  rw [Distinct, issued_append, List.map_append, List.nodup_append] at h
  exact List.inj_on_of_nodup_map h.1 hi hj heq

include hhash hl hm in
theorem bindsOnce_run {code token : String} {now : Nat}
    (ha : s.perform tokenHash adminHash maxFileSize (.claim code token now) = some t)
    (hcodes : Distinct tokenHash (l ++ .claim code token now :: m)) (hne : t ≠ s)
    {token' : String} {now' : Nat} {v : Pairing}
    (hv : u.perform tokenHash adminHash maxFileSize (.claim code token' now') = some v) :
    v = u ∧ tokenHash token' = tokenHash token := by
  obtain ⟨id, secret, row, hsplit, hrow, hopen, hinvite, ⟨-, hsame⟩ | ⟨hfree, -, hbound⟩⟩ :=
    claim_accepted ha
  · exact absurd hsame hne
  obtain ⟨id', secret', row', hsplit', hrow', hopen', hinvite', hclaim⟩ := claim_accepted hv
  rw [hsplit] at hsplit'
  obtain ⟨rfl, rfl⟩ := Prod.mk.inj (Option.some.inj hsplit')
  -- The code claimed is one handed out before the claim.
  obtain ⟨invitation, hissued, -, hcode, -⟩ :=
    ((paired_run hhash hl).seated id row hrow).invited hopen
  have hsame : issued (l ++ .claim code token now :: m) = issued (l ++ m) := by
    rw [issued_append, issued_append]
    rfl
  have hdistinct : Distinct tokenHash (l ++ m) := by
    rw [Distinct, ← hsame]
    exact hcodes
  have hstart := hl.append (Steps.snoc .nil trivial ha)
  rcases invited_run hhash hstart hm hbound hrow' hopen' with ⟨-, hsender⟩ | ⟨newer, hnewer, hcode'⟩
  · have hsender' := hsender rfl
    rcases hclaim with ⟨hretry, hsame⟩ | ⟨hfree', -⟩
    · rw [hsender', Option.some.injEq] at hretry
      exact ⟨hsame, hretry.symm⟩
    · rw [hsender'] at hfree'
      contradiction
  · refine absurd ?_ (hdistinct.ne hissued hnewer)
    rw [hcode', hinvite', hcode, hinvite]

include hhash hl hm in
theorem replaced_run {hash secret : String} {now : Nat}
    (ha : s.perform tokenHash adminHash maxFileSize (.updateRenew id hash secret now) = some t)
    (hcodes : Distinct tokenHash (l ++ .updateRenew id hash secret now :: m))
    {old : Invitation} (hold : old ∈ issued l) (hid : old.folderId = id) {token' : String}
    {now' : Nat} :
    u.perform tokenHash adminHash maxFileSize (.claim old.code token' now') = none := by
  rw [Option.eq_none_iff_forall_ne_some]
  intro v hv
  obtain ⟨id', _, row', -, hrow', hopen', hinvite', -⟩ := claim_accepted hv
  have hstart := hl.append (Steps.snoc .nil trivial ha)
  -- The folder of the accepted claim is the renewed one.
  obtain ⟨found, hfound, hfolder, hcode, -⟩ :=
    ((paired_run hhash (hstart.append hm)).seated id' row' hrow').invited hopen'
  rw [List.append_assoc] at hfound
  have hmem : old ∈ issued (l ++ ([.updateRenew id hash secret now] ++ m)) := by
    rw [issued_append]
    exact List.mem_append_left _ hold
  have hall : Distinct tokenHash ((l ++ ([.updateRenew id hash secret now] ++ m)) ++ []) := by
    rw [List.append_nil]
    exact hcodes
  obtain rfl := hall.eq hmem hfound (hinvite'.symm.trans hcode.symm)
  obtain rfl : id' = id := (Database.findFolder_id hrow').symm.trans (hfolder.symm.trans hid)
  -- Its row holds the new invitation, or is disconnected.
  simp only [Pairing.perform] at ha
  split at ha
  · rename_i hadmitted
    cases Option.some.inj ha
    obtain ⟨row, hrow, -⟩ := (paired_run hhash hl).standing _ hadmitted
    have hkey := Database.findFolder_id hrow
    have hrenewed : (s.db.renewFolder id' (tokenHash (pairingCode id' secret))
        (now + invitationSeconds)).findFolder id' = _ :=
      Database.findFolder_updateFolders (by exact fun _ => ⟨rfl, rfl⟩)
    rw [hrow, Option.map_some] at hrenewed
    cases hdisconnected : row.disconnected with
    | true =>
      rw [if_neg (by simp [hdisconnected])] at hrenewed
      obtain ⟨row₁, hrow₁, hdisconnected₁, -⟩ := disconnected_run hhash hstart hm hrenewed hdisconnected
      rw [hrow'] at hrow₁
      cases hrow₁
      rw [hopen'] at hdisconnected₁
      contradiction
    | false =>
      rw [if_pos (by simp [hkey, hdisconnected])] at hrenewed
      have hnew : ⟨id', pairingCode id' secret, now⟩ ∈ issued [.updateRenew id' hash secret now] := by
        simp [issued, invitation]
      have hdistinct : Distinct tokenHash (l ++ ([.updateRenew id' hash secret now] ++ m)) := hcodes
      have hlate : ∀ j ∈ issued ([.updateRenew id' hash secret now] ++ m),
          tokenHash j.code ≠ row'.inviteHash := fun j hj => by
        rw [hinvite']
        exact hdistinct.ne hold hj
      rcases invited_run hhash hstart hm hrenewed hrow' hopen' with ⟨hsame, -⟩ | ⟨newer, hnewer, hcode'⟩
      · refine hlate ⟨id', pairingCode id' secret, now⟩ ?_ hsame.symm
        rw [issued_append]
        exact List.mem_append_left _ hnew
      · refine hlate _ ?_ hcode'
        rw [issued_append]
        exact List.mem_append_right _ hnewer
  · contradiction

/-- Pairing is safe at every step of every run, when the hash has the length of SHA-256 and the
random codes of the run do not repeat. -/
theorem pairing_safe (hhash : ∀ text, (tokenHash text).length = 64)
    (hl : Pairings tokenHash adminHash maxFileSize .initial l s)
    (ha : s.perform tokenHash adminHash maxFileSize a = some t)
    (hm : Pairings tokenHash adminHash maxFileSize t m u)
    (hcodes : Distinct tokenHash (l ++ a :: m)) :
    PairingSafe tokenHash adminHash maxFileSize l s a t u where
  disconnected id row hrow hdisconnected := by
    obtain ⟨row₁, hrow₁, -, hready⟩ := disconnected_run hhash hl .nil hrow hdisconnected
    rw [hrow] at hrow₁
    cases hrow₁
    exact ⟨hready, disconnected_run hhash hl
      ((Steps.snoc (l := []) .nil trivial ha).append hm) hrow hdisconnected⟩
  ready _ _ hrow' hready := ready_step hhash hl ha hrow' hready
  bindsOnce code token now heq hne token' now' v hv := by
    subst heq
    exact bindsOnce_run hhash hl hm ha hcodes hne hv
  replaced id hash secret now heq old hold hid token' now' := by
    subst heq
    exact replaced_run hhash hl hm ha hcodes hold hid
  expired old hold token now heq hexpired := by
    subst heq
    obtain ⟨id, _, row, -, hrow, hopen, hinvite, ⟨-, hsame⟩ | ⟨-, hnow, -⟩⟩ := claim_accepted ha
    · exact hsame
    · obtain ⟨found, hfound, -, hcode, hexpires⟩ :=
        ((paired_run hhash hl).seated id row hrow).invited hopen
      obtain rfl := hcodes.eq hold hfound (hinvite.symm.trans hcode.symm)
      omega
  strangers _ _ hrow hchanged := strangers_step hhash hl ha hrow hchanged

end Run

/-- The digests of the texts of the run below. -/
def pairingTexts : List (String × String) :=
  [("cccccccccccccccccccccccccccccccc", "462e0bdcea8b0b5704eba1a3f0eaecedfa753f51d60b8cfea52159caf5e1c7b1"),
   ("1f1f1f1f1f1f1f1f1f1f1f1f1f1f1f1f1f1f1f1f1f1f1f1f1f1f1f1f1f1f1f1f",
     "aefc00112626c04f02363e089060203d9f605a4ce0b9d71b1ff3417932c2893a"),
   ("2e2e2e2e2e2e2e2e2e2e2e2e2e2e2e2e2e2e2e2e2e2e2e2e2e2e2e2e2e2e2e2e",
     "aedb77d48524452bae466fd83a1d5cca3720d2229063118be1ada31512d99039"),
   ("5f0c2a8e-91d4-4c7b-8a36-2e1d7b9f0c44.3d3d3d3d3d3d3d3d3d3d3d3d3d3d3d3d3d3d3d3d3d3d3d3d3d3d3d3d3d3d3d3d",
     "707315eddcbc5a162db7abeb1c2e404d0b07ccd0a822dc37b38910a9c7bb00f6"),
   ("5f0c2a8e-91d4-4c7b-8a36-2e1d7b9f0c44.4c4c4c4c4c4c4c4c4c4c4c4c4c4c4c4c4c4c4c4c4c4c4c4c4c4c4c4c4c4c4c4c",
     "5c56b5f5fbb637140ff8092098b8e050d983fbb8801518b6835ce34b140d8618")]

/-- The digest of a text of the run below, and a text of that length for every other. -/
def textHash (text : String) : String :=
  match pairingTexts.find? (·.1 == text) with
  | some (_, hash) => hash
  | none => String.ofList (List.replicate 64 '0')

theorem length_textHash (text : String) : (textHash text).length = 64 := by
  unfold textHash
  split
  · rename_i hash hfind
    have hall : ∀ pair ∈ pairingTexts, pair.2.length = 64 := by decide
    exact hall _ (List.mem_of_find?_eq_some hfind)
  · decide

/-- A folder is created and claimed, and its receiver looks at the comparison code. -/
def pairingSteps : List PairingStep :=
  [.create "cccccccccccccccccccccccccccccccc" " Photos " "5f0c2a8e-91d4-4c7b-8a36-2e1d7b9f0c44"
     "1f1f1f1f1f1f1f1f1f1f1f1f1f1f1f1f1f1f1f1f1f1f1f1f1f1f1f1f1f1f1f1f"
     "3d3d3d3d3d3d3d3d3d3d3d3d3d3d3d3d3d3d3d3d3d3d3d3d3d3d3d3d3d3d3d3d" 1000,
   .claim "5f0c2a8e-91d4-4c7b-8a36-2e1d7b9f0c44.3d3d3d3d3d3d3d3d3d3d3d3d3d3d3d3d3d3d3d3d3d3d3d3d3d3d3d3d3d3d3d3d"
     "2e2e2e2e2e2e2e2e2e2e2e2e2e2e2e2e2e2e2e2e2e2e2e2e2e2e2e2e2e2e2e2e" 1300,
   .lookupConfirm "5f0c2a8e-91d4-4c7b-8a36-2e1d7b9f0c44"
     "1f1f1f1f1f1f1f1f1f1f1f1f1f1f1f1f1f1f1f1f1f1f1f1f1f1f1f1f1f1f1f1f" "aedb77d48524"]

/-- The confirmation takes effect. -/
def pairingUpdate : PairingStep :=
  .updateConfirm "5f0c2a8e-91d4-4c7b-8a36-2e1d7b9f0c44"
    "aefc00112626c04f02363e089060203d9f605a4ce0b9d71b1ff3417932c2893a" "aedb77d48524"

/-- The receiver replaces the invitation, and an exit follows. -/
def pairingRest : List PairingStep :=
  [.lookupRenew "5f0c2a8e-91d4-4c7b-8a36-2e1d7b9f0c44"
     "1f1f1f1f1f1f1f1f1f1f1f1f1f1f1f1f1f1f1f1f1f1f1f1f1f1f1f1f1f1f1f1f",
   .updateRenew "5f0c2a8e-91d4-4c7b-8a36-2e1d7b9f0c44"
     "aefc00112626c04f02363e089060203d9f605a4ce0b9d71b1ff3417932c2893a"
     "4c4c4c4c4c4c4c4c4c4c4c4c4c4c4c4c4c4c4c4c4c4c4c4c4c4c4c4c4c4c4c4c" 2000,
   .revokeExit "5f0c2a8e-91d4-4c7b-8a36-2e1d7b9f0c44"
     (some "1f1f1f1f1f1f1f1f1f1f1f1f1f1f1f1f1f1f1f1f1f1f1f1f1f1f1f1f1f1f1f1f")]

theorem pairing_safe_renewed : ∃ s t u,
    Pairings textHash (some (textHash "cccccccccccccccccccccccccccccccc")) 100 .initial
      pairingSteps s ∧
    PairingSafe textHash (some (textHash "cccccccccccccccccccccccccccccccc")) 100
      pairingSteps s pairingUpdate t u := by
  let perform := Pairing.perform textHash (some (textHash "cccccccccccccccccccccccccccccccc")) 100
  obtain ⟨s, hl, hs⟩ := Steps.exists_of_replay perform (fun _ _ => true) .initial pairingSteps
    (fun s => (perform s pairingUpdate).any fun t =>
      (Steps.replay perform (fun _ _ => true) t pairingRest).isSome) (by decide)
  rw [Option.any_eq_true] at hs
  obtain ⟨t, ha, ht⟩ := hs
  obtain ⟨u, hu⟩ := Option.isSome_iff_exists.mp ht
  have hl : Pairings textHash _ _ .initial pairingSteps s := hl.mono fun _ _ _ => trivial
  have hm : Pairings textHash _ _ t pairingRest u :=
    (Steps.of_replay hu).mono fun _ _ _ => trivial
  exact ⟨s, t, u, hl, pairing_safe length_textHash hl ha hm (by unfold Distinct; decide)⟩

end MiRelay
