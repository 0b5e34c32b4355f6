import MiRelay.Android.RelayStore

/-!
# Who changes a transfer

Each step changes the row of a transfer in one of a few ways, listed once; which
worker may change which row, and what becomes of the rows of a folder that is
disconnecting, is read off the list.
-/

namespace MiRelay.Android

variable {p q : Phone} {a : PhoneStep} {id : String}

/-- What a step can do to the row of a transfer. -/
inductive TransferChange (p : Phone) : PhoneStep → Option Transfer → Option Transfer → Prop
  | same {b t} : TransferChange p b t t
  | added {b} {t : Transfer} (hopen : p.connectionOpen t.folderId = true)
      (hstatus : t.status = .queued) : TransferChange p b none (some t)
  | deleted {b} {t : Transfer} (hb : b.worker = none) :
      TransferChange p b (some t) none
  | assigned {workId} {t : Transfer} (hstatus : t.status ≠ .uploaded)
      (hallowed : p.allowed t = true) :
      TransferChange p (.assign t.id workId) (some t)
        (some { t with workId, status := .queued, error := none })
  | stopped {b} {t : Transfer} {status : TransferStatus}
      (hstatus : status = if Phone.moving t then .paused else t.status)
      (hb : ∀ w, b.worker = some w → b = .pauseIfCurrent w ∧
        t.folderId = w.transfer.folderId ∧ t.autoRevision.isSome ∧ Phone.moving t) :
      TransferChange p b (some t) (some { t with workId := "", status })
  | owned {worker status uploaded error delivery} {t : Transfer} (hworker : worker ∈ p.workers)
      (hid : t.id = worker.transfer.id) (hwork : t.workId = worker.workId)
      (hstatus : t.status ≠ .uploaded) (hallowed : p.allowed t = true) :
      TransferChange p (.updateOwned worker status uploaded error delivery) (some t)
        (some { t with
          status, uploaded := uploaded.getD t.uploaded
          error := error.map fun e => String.ofList (e.toList.take 1000)
          deliveryId := delivery.orElse fun _ => t.deliveryId })
  | manual {t : Transfer} (hstatus : t.status = .paused ∨ t.status = .failed) :
      TransferChange p (.makeManual t.id) (some t)
        (some { t with autoRevision := none, autoUnmetered := false })
  | resumed {folder tree revision unmetered} {t : Transfer} (hfolder : t.folderId = folder)
      (hopen : p.connectionOpen folder = true) (hstatus : t.status = .paused ∨ Phone.moving t) :
      TransferChange p (.resume folder tree revision unmetered) (some t)
        (some { t with
          autoRevision := some revision, autoUnmetered := unmetered, status := .queued
          workId := "" })
  | renewed {folder tree revision unmetered} {t : Transfer} (hstatus : t.status = .failed) :
      TransferChange p (.resume folder tree revision unmetered) (some t)
        (some { t with autoRevision := some revision, autoUnmetered := unmetered })
  | marked {folder entries floor} {t : Transfer} {received conflict superseded : Bool} :
      TransferChange p (.receipts folder entries floor) (some t)
        (some { t with received, conflict, superseded })

namespace Phone

/-- The rows of the transfers decide what is found. -/
theorem transfer_congr (h : q.transfers = p.transfers) : q.transfer id = p.transfer id := by
  rw [transfer, transfer, h]

theorem transfer_id {t : Transfer} (h : p.transfer id = some t) : t.id = id := by
  simpa using List.find?_some h

/-- An update that keeps identities acts on the row it finds. -/
theorem transfer_updateTransfers {selected : Transfer → Bool} {change : Transfer → Transfer}
    (h : ∀ t, (change t).id = t.id) :
    (p.updateTransfers selected change h).transfer id =
      (p.transfer id).map fun t => if selected t then change t else t := by
  have hid : ∀ t, (if selected t then change t else t).id = t.id := fun t => by
    split
    · exact h t
    · rfl
  simp only [transfer, updateTransfers, Table.rows_update, List.find?_map, Function.comp_def, hid]

@[simp] theorem transfer_updateFolders {selected : Folder → Bool} {change : Folder → Folder}
    (h : ∀ f, (change f).id = f.id) :
    (p.updateFolders selected change h).transfer id = p.transfer id := rfl

@[simp] theorem transfer_updateSources {selected : AutoSource → Bool}
    {change : AutoSource → AutoSource} (h : ∀ a, (change a).folderId = a.folderId) :
    (p.updateSources selected change h).transfer id = p.transfer id := rfl

/-- Deleting the transfers of a folder leaves the row or removes it. -/
theorem transfer_delete {gone : Transfer → Bool} (h : q.transfers = p.transfers.delete gone) :
    q.transfer id = p.transfer id ∨ ∃ t, p.transfer id = some t ∧ q.transfer id = none := by
  have hsub : ∀ t ∈ q.transfers.rows, t ∈ p.transfers.rows := fun t ht => by
    rw [h, Table.mem_delete] at ht
    exact ht.1
  cases hq : q.transfer id with
  | none =>
    cases hp : p.transfer id with
    | none => exact .inl rfl
    | some t => exact .inr ⟨t, rfl, rfl⟩
  | some t =>
    have ht := hsub t (List.mem_of_find?_eq_some hq)
    cases hp : p.transfer id with
    | none =>
      rw [transfer, List.find?_eq_none] at hp
      exact absurd (List.find?_some hq) (hp t ht)
    | some t' =>
      -- Two rows with one identity are the same.
      have hclash : Transfer.clash t t' = true := by
        simp [Transfer.clash, transfer_id hq, transfer_id hp]
      have hsame := p.transfers.eq_of_clash (fun a b => Bool.beq_comm) ht
        (List.mem_of_find?_eq_some hp) hclash
      exact .inl (by rw [hsame])

/-- Deleting the transfers of a folder, as a change of the row. -/
theorem change_of_delete {gone : Transfer → Bool} (hb : a.worker = none) (h : q.transfers = p.transfers.delete gone) :
    TransferChange p a (p.transfer id) (q.transfer id) := by
  rcases transfer_delete h with heq | ⟨t, ht, hnone⟩
  · rw [heq]
    exact .same
  · rw [ht, hnone]
    exact .deleted hb

/-- A new transfer is queued in an open folder. -/
theorem change_of_insert {staged : StagedFile} {folder : String} {now : Nat}
    {autoRevision : Option String} {autoUnmetered : Bool} {directory : Option (String × Nat)}
    (h : p.insertTransfer staged folder now autoRevision autoUnmetered directory = some q) :
    TransferChange p a (p.transfer id) (q.transfer id) := by
  unfold insertTransfer at h
  split at h
  · rename_i hchecked
    obtain ⟨transfers, hinsert, rfl⟩ := Option.map_eq_some_iff.mp h
    have hrows := Table.rows_insert hinsert
    simp only [transfer, hrows, List.find?_append]
    cases hfind : p.transfers.rows.find? (·.id == id) with
    | some t => exact .same
    | none =>
      simp only [Option.none_or, List.find?_singleton]
      split
      · exact .added hchecked.2.2 rfl
      · exact .same
  · contradiction

/-- Pausing what moves, whatever else is selected. -/
theorem change_of_stop {change : Transfer → Transfer} {selected : Transfer → Bool}
    (h : ∀ t, (change t).id = t.id)
    (hchange : ∀ t, selected t = true → change t =
      { t with workId := "", status := if moving t then .paused else t.status })
    (hb : ∀ w, a.worker = some w → a = .pauseIfCurrent w ∧ ∀ t, selected t = true →
      t.folderId = w.transfer.folderId ∧ t.autoRevision.isSome ∧ moving t)
    (hq : q.transfers = (p.updateTransfers selected change h).transfers) :
    TransferChange p a (p.transfer id) (q.transfer id) := by
  rw [transfer_congr hq, transfer_updateTransfers]
  cases ht : p.transfer id with
  | none => exact .same
  | some t =>
    rw [Option.map_some]
    split
    · rename_i hselected
      rw [hchange t hselected]
      exact .stopped rfl fun w hw => ⟨(hb w hw).1, (hb w hw).2 t hselected⟩
    · exact .same

/-- Disabling a source pauses its moving transfers. -/
theorem change_of_disable {folder : String} {reason : Option String}
    (hb : ∀ w, a.worker = some w → a = .pauseIfCurrent w ∧ folder = w.transfer.folderId) :
    TransferChange p a (p.transfer id) ((p.disable folder reason).transfer id) := by
  refine change_of_stop (by exact fun _ => rfl) (fun t ht => ?_)
    (fun w hw => ⟨(hb w hw).1, fun t ht => ?_⟩) rfl
  · simp only [Bool.and_eq_true] at ht
    rw [if_pos ht.2]
  · simp only [Bool.and_eq_true, beq_iff_eq] at ht
    exact ⟨ht.1.1.trans (hb w hw).2, ht.1.2, ht.2⟩

theorem transfers_putSource {s : AutoSource} (h : p.putSource s = some q) :
    q.transfers = p.transfers := by
  unfold putSource at h
  split at h
  · cases Option.some.inj h
    rfl
  · obtain ⟨sources, -, rfl⟩ := Option.map_eq_some_iff.mp h
    rfl

/-- The row is the same apart from what the receiver has confirmed. -/
def Marked (before after : Option Transfer) : Prop :=
  ∃ received conflict superseded : Transfer → Bool, after = before.map fun t =>
    { t with received := received t, conflict := conflict t, superseded := superseded t }

theorem Marked.refl (before : Option Transfer) : Marked before before :=
  ⟨(·.received), (·.conflict), (·.superseded), by cases before <;> rfl⟩

theorem Marked.trans {before between after : Option Transfer} (h : Marked before between)
    (h' : Marked between after) : Marked before after := by
  obtain ⟨r, c, s, rfl⟩ := h
  obtain ⟨r', c', s', rfl⟩ := h'
  exact ⟨_, _, _, Option.map_map ..⟩

/-- An update of the marks alone. -/
theorem marked_updateTransfers {selected : Transfer → Bool} {change : Transfer → Transfer}
    (received conflict superseded : Transfer → Bool)
    (hchange : ∀ t, change t =
      { t with received := received t, conflict := conflict t, superseded := superseded t })
    (h : ∀ t, (change t).id = t.id) :
    Marked (p.transfer id) ((p.updateTransfers selected change h).transfer id) := by
  refine ⟨fun t => if selected t then received t else t.received,
    fun t => if selected t then conflict t else t.conflict,
    fun t => if selected t then superseded t else t.superseded, ?_⟩
  rw [transfer_updateTransfers]
  refine congrArg (Option.map · _) (funext fun t => ?_)
  by_cases hselected : selected t = true
  · simp only [hselected, if_true, hchange]
  · simp only [hselected, if_false, Bool.false_eq_true]

/-- One entry of the receipts marks rows. -/
theorem marked_receipt (folder : String) (entry : Receipt) :
    Marked (p.transfer id) ((p.receipt folder entry).transfer id) := by
  unfold receipt
  dsimp only
  split
  · exact (marked_updateTransfers (·.received) (·.conflict) (fun _ => true) (fun _ => rfl) _).trans
      (marked_updateTransfers (fun _ => true) (fun _ => entry.conflict) (·.superseded)
        (fun _ => rfl) _)
  · exact marked_updateTransfers (·.received) (·.conflict) (fun _ => true) (fun _ => rfl) _

theorem marked_receipts (folder : String) (entries : List Receipt) (floor : Nat) :
    Marked (p.transfer id) ((p.receipts folder entries floor).transfer id) := by
  suffices hfold : ∀ p : Phone, Marked (p.transfer id)
      ((entries.foldl (fun p entry => p.receipt folder entry) p).transfer id) from hfold p
  induction entries with
  | nil => exact fun p => .refl _
  | cons entry entries ih => exact fun p => (marked_receipt folder entry).trans (ih _)

/-- Every step changes a row in one of the listed ways. -/
theorem perform_change (h : p.perform a = some q) (id : String) :
    TransferChange p a (p.transfer id) (q.transfer id) := by
  have hsame : q.transfers = p.transfers → TransferChange p a (p.transfer id) (q.transfer id) :=
    fun hq => by
      rw [transfer_congr hq]
      exact .same
  cases a with
  | createFolder id' token pairingState =>
    obtain ⟨folders, -, rfl⟩ := Option.map_eq_some_iff.mp h
    exact hsame rfl
  | saveFolder id' token pairingState =>
    simp only [perform] at h
    split at h
    · cases Option.some.inj h
      exact hsame rfl
    · contradiction
  | pairingResult id' state verification =>
    simp only [perform] at h
    split at h
    · cases Option.some.inj h
      exact hsame rfl
    · contradiction
  | beginDisconnect id' =>
    simp only [perform] at h
    split at h
    · cases Option.some.inj h
      exact change_of_stop (by exact fun _ => rfl) (by exact fun _ _ => rfl)
        (by simp [PhoneStep.worker]) rfl
    · contradiction
  | finishDisconnect id' =>
    simp only [perform] at h
    split at h
    · cases Option.some.inj h
      exact hsame rfl
    · contradiction
  | beginExit id' =>
    cases Option.some.inj h
    exact hsame rfl
  | completeExit id' =>
    cases Option.some.inj h
    exact hsame rfl
  | cleanExitRows id' =>
    cases Option.some.inj h
    exact change_of_delete rfl rfl
  | removeFolder id' =>
    simp only [perform] at h
    split at h
    · cases Option.some.inj h
      exact change_of_delete rfl rfl
    · contradiction
  | addTransfer staged folder now => exact change_of_insert h
  | commitAuto folder revision unmetered staged now =>
    simp only [perform] at h
    split at h
    · exact change_of_insert h
    · contradiction
  | commitDirectory folder revision unmetered path staged now =>
    simp only [perform] at h
    split at h
    · split at h
      · obtain ⟨p', hinsert, rfl⟩ := Option.map_eq_some_iff.mp h
        rw [transfer_updateSources]
        exact change_of_insert hinsert
      · contradiction
    · contradiction
  | assign id' workId =>
    simp only [perform] at h
    split at h
    · cases Option.some.inj h
      rw [transfer_updateTransfers]
      cases ht : p.transfer id with
      | none => exact .same
      | some t =>
        rw [Option.map_some]
        split
        · rename_i hselected
          simp only [Bool.and_eq_true, beq_iff_eq, bne_iff_ne] at hselected
          obtain ⟨⟨rfl, hstatus⟩, hallowed⟩ := hselected
          exact .assigned hstatus hallowed
        · exact .same
    · contradiction
  | pause id' =>
    cases Option.some.inj h
    refine change_of_stop (by exact fun _ => rfl) (fun t ht => ?_) (by simp [PhoneStep.worker]) rfl
    simp only [Bool.and_eq_true] at ht
    rw [if_pos ht.2]
  | enable folder tree name revision unmetered startImmediately =>
    simp only [perform, enable] at h
    split at h
    · exact hsame (transfers_putSource h)
    · contradiction
  | startPrepared folder unmetered =>
    simp only [perform, startPrepared] at h
    split at h
    · cases Option.some.inj h
      exact hsame rfl
    · contradiction
  | confirm folder tree name revision unmetered floor =>
    simp only [perform, confirm] at h
    split at h
    · exact hsame (transfers_putSource h)
    · contradiction
  | disable folder reason =>
    cases Option.some.inj h
    exact change_of_disable (by simp [PhoneStep.worker])
  | makeManual id' =>
    simp only [perform] at h
    split at h
    · cases Option.some.inj h
      rw [transfer_updateTransfers]
      cases ht : p.transfer id with
      | none => exact .same
      | some t =>
        rw [Option.map_some]
        split
        · rename_i hselected
          simp only [Bool.and_eq_true, Bool.or_eq_true, beq_iff_eq] at hselected
          obtain ⟨⟨rfl, hstatus⟩, -⟩ := hselected
          exact .manual hstatus
        · exact .same
    · contradiction
  | resume folder tree revision unmetered =>
    simp only [perform, resume] at h
    split at h
    · rename_i hopen
      cases Option.some.inj h
      rw [transfer_updateTransfers, transfer_updateTransfers, transfer_updateSources,
        Option.map_map]
      cases ht : p.transfer id with
      | none => exact .same
      | some t =>
        rw [Option.map_some, Function.comp_apply]
        by_cases hmove : (t.folderId == folder && t.relativePath.isSome &&
            (t.status == .paused || moving t)) = true
        · rw [if_pos hmove, if_neg (by simp)]
          simp only [Bool.and_eq_true, Bool.or_eq_true, beq_iff_eq] at hmove
          exact .resumed hmove.1.1 hopen.1 hmove.2
        · rw [if_neg hmove]
          split
          · rename_i hselected
            simp only [Bool.and_eq_true, beq_iff_eq] at hselected
            exact .renewed hselected.2
          · exact .same
    · contradiction
  | receipts folder entries floor =>
    cases Option.some.inj h
    obtain ⟨r, c, s, hmarked⟩ : Marked (p.transfer id) _ := marked_receipts folder entries floor
    rw [hmarked]
    cases p.transfer id with
    | none => exact .same
    | some t => exact .marked
  | doWork workId id' =>
    simp only [perform] at h
    split at h
    · split at h
      · cases Option.some.inj h
        exact hsame rfl
      · contradiction
    · contradiction
  | updateOwned worker status uploaded error delivery =>
    simp only [perform] at h
    split at h
    · rename_i hworker
      cases Option.some.inj h
      rw [transfer_updateTransfers]
      cases ht : p.transfer id with
      | none => exact .same
      | some t =>
        rw [Option.map_some]
        split
        · rename_i hselected
          simp only [Bool.and_eq_true, beq_iff_eq, bne_iff_ne] at hselected
          obtain ⟨⟨⟨hid, hwork⟩, hstatus⟩, hallowed⟩ := hselected
          exact .owned hworker hid hwork hstatus hallowed
        · exact .same
    · contradiction
  | loseAccess worker =>
    simp only [perform] at h
    split at h
    · cases Option.some.inj h
      exact hsame rfl
    · contradiction
  | pauseIfCurrent worker =>
    simp only [perform] at h
    split at h
    · cases Option.some.inj h
      refine change_of_disable fun w hw => ?_
      cases hw
      exact ⟨rfl, rfl⟩
    · contradiction

end Phone

/-- The identity a new folder is given. -/
def PhoneStep.folderId : PhoneStep → Option String
  | .createFolder id _ _ => some id
  | _ => none

/-- The identities given to folders in a run. -/
def folderIds (l : List PhoneStep) : List String := l.filterMap PhoneStep.folderId

/-- A run of the phone. -/
abbrev PhoneRun (p : Phone) (l : List PhoneStep) (q : Phone) : Prop :=
  Steps Phone.perform (fun _ _ => True) p l q

namespace Phone

/-- The disconnection of the folder has begun. -/
def Closing (p : Phone) (folder : String) : Prop :=
  ∃ f ∈ p.folders.rows, f.id = folder ∧ f.connectionClosed = true

/-- A closing folder is not open, since its row is the only one. -/
theorem Closing.not_open {folder : String} (h : p.Closing folder) :
    p.connectionOpen folder = false := by
  obtain ⟨f, hf, hid, hclosed⟩ := h
  rw [connectionOpen, List.any_eq_false]
  intro g hg hopen
  simp only [Bool.and_eq_true, beq_iff_eq, Bool.not_eq_true'] at hopen
  have hclash : Folder.clash f g = true := by simp [Folder.clash, hid, hopen.1]
  have hsame := p.folders.eq_of_clash (fun a b => Bool.beq_comm) hf hg hclash
  rw [← hsame, hclosed] at hopen
  exact absurd hopen.2 (by simp)

theorem connectionOpen_iff {folder : String} : p.connectionOpen folder = true ↔
    ∃ f ∈ p.folders.rows, f.id = folder ∧ f.connectionClosed = false := by
  simp [connectionOpen]

/-- Every folder was there before, and is open only if it was. -/
def Kept (p q : Phone) : Prop :=
  ∀ f' ∈ q.folders.rows, ∃ f ∈ p.folders.rows, f.id = f'.id ∧
    (f'.connectionClosed = false → f.connectionClosed = false)

theorem Kept.of_eq (h : q.folders = p.folders) : Kept p q := fun f hf =>
  ⟨f, h ▸ hf, rfl, fun hopen => hopen⟩

/-- An update that opens no row. -/
theorem kept_updateFolders {selected : Folder → Bool} {change : Folder → Folder}
    (h : ∀ f, (change f).id = f.id)
    (hclosed : ∀ f, selected f = true → (change f).connectionClosed = false →
      f.connectionClosed = false)
    (hq : q.folders = (p.updateFolders selected change h).folders) : Kept p q := by
  intro f' hf'
  rw [hq] at hf'
  obtain ⟨f, hf, rfl⟩ := List.mem_map.mp hf'
  by_cases hselected : selected f = true
  · rw [if_pos hselected]
    exact ⟨f, hf, (h f).symm, hclosed f hselected⟩
  · rw [if_neg hselected]
    exact ⟨f, hf, rfl, fun hopen => hopen⟩

theorem folders_putSource {s : AutoSource} (h : p.putSource s = some q) :
    q.folders = p.folders := by
  unfold putSource at h
  split at h
  · cases Option.some.inj h
    rfl
  · obtain ⟨sources, -, rfl⟩ := Option.map_eq_some_iff.mp h
    rfl

theorem folders_insertTransfer {staged : StagedFile} {folder : String} {now : Nat}
    {autoRevision : Option String} {autoUnmetered : Bool} {directory : Option (String × Nat)}
    (h : p.insertTransfer staged folder now autoRevision autoUnmetered directory = some q) :
    q.folders = p.folders := by
  unfold insertTransfer at h
  split at h
  · obtain ⟨transfers, -, rfl⟩ := Option.map_eq_some_iff.mp h
    rfl
  · contradiction

theorem folders_receipts (folder : String) (entries : List Receipt) (floor : Nat) :
    (p.receipts folder entries floor).folders = p.folders := by
  suffices hfold : ∀ p : Phone,
      (entries.foldl (fun p entry => p.receipt folder entry) p).folders = p.folders from hfold p
  have hreceipt : ∀ (p : Phone) entry, (p.receipt folder entry).folders = p.folders :=
    fun p entry => by
      unfold receipt
      dsimp only
      split <;> rfl
  induction entries with
  | nil => exact fun p => rfl
  | cons entry entries ih => exact fun p => (ih _).trans (hreceipt p entry)

/-- A step keeps the folders, apart from one that it creates. -/
theorem kept_perform (h : p.perform a = some q) :
    Kept p q ∨ ∃ f, a.folderId = some f.id ∧ q.folders.rows = p.folders.rows ++ [f] := by
  cases a with
  | createFolder id token pairingState =>
    obtain ⟨folders, hinsert, rfl⟩ := Option.map_eq_some_iff.mp h
    exact .inr ⟨_, rfl, Table.rows_insert hinsert⟩
  | saveFolder id token pairingState =>
    simp only [perform] at h
    split at h
    · cases Option.some.inj h
      refine .inl (kept_updateFolders (by exact fun _ => rfl) (fun f hf _ => ?_) rfl)
      simp only [Bool.and_eq_true, Bool.not_eq_true'] at hf
      exact hf.2
    · contradiction
  | pairingResult id state verification =>
    simp only [perform] at h
    split at h
    · cases Option.some.inj h
      refine .inl (kept_updateFolders (by exact fun _ => rfl) (fun f hf _ => ?_) rfl)
      simp only [Bool.and_eq_true, Bool.not_eq_true'] at hf
      exact hf.2
    · contradiction
  | beginDisconnect id =>
    simp only [perform] at h
    split at h
    · cases Option.some.inj h
      refine .inl (kept_updateFolders (by exact fun _ => rfl) (fun f _ hclosed => ?_) rfl)
      simp [Folder.connectionClosed] at hclosed
    · contradiction
  | finishDisconnect id =>
    simp only [perform] at h
    split at h
    · cases Option.some.inj h
      refine .inl (kept_updateFolders (by exact fun _ => rfl) (fun f _ hclosed => ?_) rfl)
      simp [Folder.connectionClosed] at hclosed
    · contradiction
  | beginExit id =>
    cases Option.some.inj h
    refine .inl (kept_updateFolders (by exact fun _ => rfl) (fun f _ hclosed => ?_) rfl)
    simp [Folder.connectionClosed] at hclosed
  | completeExit id =>
    cases Option.some.inj h
    refine .inl (kept_updateFolders (by exact fun _ => rfl) (fun f _ hclosed => ?_) rfl)
    simp [Folder.connectionClosed] at hclosed
  | cleanExitRows id =>
    cases Option.some.inj h
    exact .inl (kept_updateFolders (by exact fun _ => rfl) (by exact fun _ _ hopen => hopen) rfl)
  | removeFolder id =>
    simp only [perform] at h
    split at h
    · cases Option.some.inj h
      exact .inl fun f hf => ⟨f, (Table.mem_delete.mp hf).1, rfl, fun hopen => hopen⟩
    · contradiction
  | addTransfer staged folder now => exact .inl (.of_eq (folders_insertTransfer h))
  | commitAuto folder revision unmetered staged now =>
    simp only [perform] at h
    split at h
    · exact .inl (.of_eq (folders_insertTransfer h))
    · contradiction
  | commitDirectory folder revision unmetered path staged now =>
    simp only [perform] at h
    split at h
    · split at h
      · obtain ⟨p', hinsert, rfl⟩ := Option.map_eq_some_iff.mp h
        have hsame : p'.folders = p.folders := folders_insertTransfer hinsert
        exact .inl (.of_eq hsame)
      · contradiction
    · contradiction
  | enable folder tree name revision unmetered startImmediately =>
    simp only [perform, enable] at h
    split at h
    · exact .inl (.of_eq (folders_putSource h))
    · contradiction
  | confirm folder tree name revision unmetered floor =>
    simp only [perform, confirm] at h
    split at h
    · exact .inl (.of_eq (folders_putSource h))
    · contradiction
  | receipts folder entries floor =>
    cases Option.some.inj h
    exact .inl (.of_eq (folders_receipts folder entries floor))
  | pause id =>
    cases Option.some.inj h
    exact .inl (.of_eq rfl)
  | disable folder reason =>
    cases Option.some.inj h
    exact .inl (.of_eq rfl)
  | doWork workId id =>
    simp only [perform] at h
    split at h
    · split at h
      · cases Option.some.inj h
        exact .inl (.of_eq rfl)
      · contradiction
    · contradiction
  | _ =>
    simp only [perform, startPrepared, resume] at h
    split at h
    · cases Option.some.inj h
      exact .inl (.of_eq rfl)
    · contradiction

/-- A folder that is not open stays so unless it is created anew. -/
theorem shut_run {l : List PhoneStep} {folder : String} (h : PhoneRun p l q)
    (hshut : p.connectionOpen folder = false) (hfresh : folder ∉ folderIds l) :
    q.connectionOpen folder = false := by
  induction h with
  | nil => exact hshut
  | @snoc l u v b _ _ hstep ih =>
    rw [folderIds, List.filterMap_append, List.mem_append, not_or] at hfresh
    rw [Bool.eq_false_iff]
    intro hopen
    obtain ⟨f', hf', hid, hopen'⟩ := connectionOpen_iff.mp hopen
    have hold : ¬ ∃ f ∈ u.folders.rows, f.id = folder ∧ f.connectionClosed = false := fun h => by
      rw [← connectionOpen_iff, ih hfresh.1] at h
      contradiction
    rcases kept_perform hstep with hkept | ⟨f, hcreated, hrows⟩
    · obtain ⟨f, hf, hsame, hopen''⟩ := hkept f' hf'
      exact hold ⟨f, hf, hsame.trans hid, hopen'' hopen'⟩
    · rw [hrows, List.mem_append, List.mem_singleton] at hf'
      rcases hf' with hf' | rfl
      · exact hold ⟨f', hf', hid, hopen'⟩
      · exact hfresh.2 (by simp [hcreated, hid])

/-- Every folder has been created in the run. -/
theorem folder_created {l : List PhoneStep} (h : PhoneRun .initial l p) :
    ∀ f ∈ p.folders.rows, f.id ∈ folderIds l := by
  refine h.invariant (I := fun l p => ∀ f ∈ p.folders.rows, f.id ∈ folderIds l)
    (fun f hf => by contradiction) fun l u b v hall _ hstep f' hf' => ?_
  rw [folderIds, List.filterMap_append, List.mem_append]
  rcases kept_perform hstep with hkept | ⟨f, hcreated, hrows⟩
  · obtain ⟨f, hf, hid, -⟩ := hkept f' hf'
    exact .inl (hid ▸ hall f hf)
  · rw [hrows, List.mem_append, List.mem_singleton] at hf'
    rcases hf' with hf' | rfl
    · exact .inl (hall f' hf')
    · exact .inr (by simp [hcreated])

end Phone

/-- The worker no longer has a right to the row: its work is not the one recorded, the row's
automatic revision is not the enabled one, or the folder is disconnecting or disconnected. -/
def Stale (p : Phone) (w : Worker) (t : Transfer) : Prop :=
  t.workId ≠ w.workId ∨
  (∃ revision, t.autoRevision = some revision ∧ ∀ a ∈ p.sources.rows, a.folderId = t.folderId →
    a.revision = revision → a.enabled = false) ∨
  p.Closing t.folderId

/-- A row with the work of a stale worker is not one its updates select. -/
theorem Stale.not_allowed {w : Worker} {t : Transfer} (h : Stale p w t)
    (hwork : t.workId = w.workId) : p.allowed t = false := by
  rcases h with hother | ⟨revision, hrevision, hdisabled⟩ | hclosing
  · exact absurd hwork hother
  · rw [Phone.allowed, hrevision]
    have hnone : (p.sources.rows.any fun a =>
        a.folderId == t.folderId && a.revision == revision && a.enabled) = false := by
      rw [List.any_eq_false]
      intro a ha hselected
      simp only [Bool.and_eq_true, beq_iff_eq] at hselected
      rw [hdisabled a ha hselected.1.1 hselected.1.2] at hselected
      exact absurd hselected.2 (by simp)
    dsimp only
    rw [hnone, Bool.and_false]
  · rw [Phone.allowed, hclosing.not_open, Bool.false_and]

/-- What holds of a step `a` from `p` to `q`, in a run with an earlier state `s`. -/
structure TransfersOwned (s p : Phone) (a : PhoneStep) (q : Phone) : Prop where
  /-- The status of an uploaded row stays. -/
  uploaded : ∀ id t t', p.transfer id = some t → q.transfer id = some t' →
    t.status = .uploaded → t'.status = .uploaded
  /-- A worker changes no row but its own, and not that either when it is stale, unless it
  pauses the moving automatic transfers of a folder whose access it has found revoked. -/
  stale : ∀ w, a.worker = some w → ∀ id t, p.transfer id = some t →
    id ≠ w.transfer.id ∨ Stale p w t → q.transfer id = some t ∨
      a = .pauseIfCurrent w ∧ t.folderId = w.transfer.folderId ∧ t.autoRevision.isSome ∧
        Phone.moving t ∧ q.transfer id = some { t with workId := "", status := .paused }
  /-- Once the disconnection of a folder has begun, a transfer of it that is queued or uploading
  was so before the step. -/
  closing : ∀ folder, s.Closing folder → ∀ id t', q.transfer id = some t' →
    t'.folderId = folder → Phone.moving t' →
    ∃ t, p.transfer id = some t ∧ t.folderId = folder ∧ t.status = t'.status

section Step

variable (ha : p.perform a = some q)

include ha in
theorem uploaded_step {t t' : Transfer} (ht : p.transfer id = some t)
    (ht' : q.transfer id = some t') (hstatus : t.status = .uploaded) : t'.status = .uploaded := by
  have hchange := Phone.perform_change ha id
  rw [ht, ht'] at hchange
  have hstill : Phone.moving t = false := by simp [Phone.moving, hstatus]
  cases hchange with
  | same => exact hstatus
  | assigned hne => exact absurd hstatus hne
  | @stopped _ _ status hstopped =>
    rw [hstill, if_neg (by simp)] at hstopped
    exact hstopped.trans hstatus
  | owned _ _ _ hne => exact absurd hstatus hne
  | manual => exact hstatus
  | resumed _ _ hpaused =>
    rw [hstill, hstatus] at hpaused
    simp at hpaused
  | renewed => exact hstatus
  | marked => exact hstatus

include ha in
theorem stale_step {w : Worker} (hw : a.worker = some w) {t : Transfer}
    (ht : p.transfer id = some t) (hstale : id ≠ w.transfer.id ∨ Stale p w t) :
    q.transfer id = some t ∨
      a = .pauseIfCurrent w ∧ t.folderId = w.transfer.folderId ∧ t.autoRevision.isSome ∧
        Phone.moving t ∧ q.transfer id = some { t with workId := "", status := .paused } := by
  have hchange := Phone.perform_change ha id
  rw [ht] at hchange
  have hid := Phone.transfer_id ht
  generalize q.transfer id = after at hchange
  cases hchange with
  | same => exact .inl rfl
  | deleted hb =>
    rw [hw] at hb
    contradiction
  | @stopped _ _ status hstopped hb =>
    obtain ⟨rfl, hfolder, hauto, hmoving⟩ := hb w hw
    rw [if_pos hmoving] at hstopped
    exact .inr ⟨rfl, hfolder, hauto, hmoving, by rw [hstopped]⟩
  | owned hworker hown hwork hstatus hallowed =>
    cases Option.some.inj hw
    rcases hstale with hother | hstale
    · exact absurd (hid.symm.trans hown) hother
    · rw [hstale.not_allowed hwork] at hallowed
      contradiction
  | _ => contradiction

include ha in
theorem closing_step {folder : String} (hshut : p.connectionOpen folder = false) {t' : Transfer}
    (ht' : q.transfer id = some t') (hfolder : t'.folderId = folder)
    (hmoving : Phone.moving t' = true) :
    ∃ t, p.transfer id = some t ∧ t.folderId = folder ∧ t.status = t'.status := by
  have hchange := Phone.perform_change ha id
  rw [ht'] at hchange
  generalize p.transfer id = before at hchange
  cases hchange with
  | same => exact ⟨t', rfl, hfolder, rfl⟩
  | added hopen =>
    rw [hfolder, hshut] at hopen
    contradiction
  | @assigned _ t _ hallowed =>
    rw [Phone.allowed, show t.folderId = folder from hfolder, hshut] at hallowed
    contradiction
  | @stopped _ t status hstopped =>
    -- A row that still moves was not paused.
    split at hstopped
    · rw [Phone.moving, hstopped] at hmoving
      simp at hmoving
    · exact ⟨t, rfl, hfolder, hstopped.symm⟩
  | @owned _ _ _ _ _ t _ _ _ _ hallowed =>
    rw [Phone.allowed, show t.folderId = folder from hfolder, hshut] at hallowed
    contradiction
  | @manual t => exact ⟨t, rfl, hfolder, rfl⟩
  | @resumed _ _ _ _ t hsame hopen =>
    rw [← hsame, show t.folderId = folder from hfolder, hshut] at hopen
    contradiction
  | @renewed _ _ _ _ t => exact ⟨t, rfl, hfolder, rfl⟩
  | @marked _ _ _ t => exact ⟨t, rfl, hfolder, rfl⟩

end Step

/-- Transfers are owned at every step of every run that gives no folder identity twice. -/
theorem transfers_owned {l m : List PhoneStep} {s : Phone} (hl : PhoneRun .initial l s)
    (hm : PhoneRun s m p) (ha : p.perform a = some q)
    (hids : (folderIds (l ++ m)).Nodup) : TransfersOwned s p a q where
  uploaded _ _ _ ht ht' hstatus := uploaded_step ha ht ht' hstatus
  stale _ hw _ _ ht hstale := stale_step ha hw ht hstale
  closing folder hclosing id t' ht' hfolder hmoving := by
    have hfresh : folder ∉ folderIds m := by
      obtain ⟨f, hf, rfl, -⟩ := hclosing
      rw [folderIds, List.filterMap_append, List.nodup_append] at hids
      exact fun hmem => hids.2.2 _ (Phone.folder_created hl f hf) _ hmem rfl
    exact closing_step ha (Phone.shut_run hm hclosing.not_open hfresh) ht' hfolder hmoving

/-- A directory is set up and one file of it is taken by a worker. -/
def ownershipSteps : List PhoneStep :=
  [.createFolder "folder" "token" .ready,
   .confirm "folder" "content://tree" "Photos" "r1" true 1,
   .commitDirectory "folder" "r1" true "a.jpg" ⟨"transfer", "a.jpg", 3, "digest"⟩ 1000,
   .assign "transfer" "w1",
   .doWork "w1" "transfer"]

/-- The user pauses the file and retries it; the first worker then finds the access revoked. -/
def ownershipRetry : List PhoneStep :=
  [.pause "transfer", .assign "transfer" "w2"]

/-- The folder is disconnected while the first worker still reports. -/
def ownershipEnd : List PhoneStep := [.beginExit "folder"]

theorem transfers_owned_report : ∃ s p q w,
    TransfersOwned s p (.updateOwned w .uploading (some 3) none none) q := by
  obtain ⟨s, hl, hs⟩ := Steps.exists_of_replay Phone.perform (fun _ _ => true) .initial
    (ownershipSteps ++ ownershipEnd) (fun s => (s.workers.head?).any fun w =>
      (Steps.replay Phone.perform (fun _ _ => true) s ownershipRetry.dropLast).any fun p =>
        (p.perform (.updateOwned w .uploading (some 3) none none)).isSome) (by decide)
  simp only [Option.any_eq_true, Option.isSome_iff_exists] at hs
  obtain ⟨w, -, p, hp, q, ha⟩ := hs
  have hl : PhoneRun .initial _ s := hl.mono fun _ _ _ => trivial
  have hm : PhoneRun s _ p := (Steps.of_replay hp).mono fun _ _ _ => trivial
  exact ⟨s, p, q, w, transfers_owned hl hm ha (by decide)⟩

/-- A worker that is no longer recorded pauses the row of its successor. -/
theorem staleWorker_pauses : ∃ l p w t q, PhoneRun .initial l p ∧ w ∈ p.workers ∧
    p.transfer w.transfer.id = some t ∧ t.workId ≠ w.workId ∧
    p.perform (.pauseIfCurrent w) = some q ∧ q.transfer w.transfer.id ≠ some t := by
  obtain ⟨s, hl, hs⟩ := Steps.exists_of_replay Phone.perform (fun _ _ => true) .initial
    (ownershipSteps ++ ownershipRetry) (fun s => (s.workers.head?).any fun w =>
      (s.perform (.loseAccess w)).any fun p => (p.transfer w.transfer.id).any fun t =>
        (p.perform (.pauseIfCurrent w)).any fun q => w ∈ p.workers ∧ t.workId ≠ w.workId ∧
          q.transfer w.transfer.id ≠ some t) (by decide)
  simp only [Option.any_eq_true, decide_eq_true_eq] at hs
  obtain ⟨w, -, p, hp, t, ht, q, hq, hw, hwork, hchanged⟩ := hs
  have hl : PhoneRun .initial _ s := hl.mono fun _ _ _ => trivial
  exact ⟨_, p, w, t, q, hl.snoc trivial hp, hw, ht, hwork, hq, hchanged⟩

end MiRelay.Android
