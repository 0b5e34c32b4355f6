import MiRelay.Server.History

/-!
# The version store as a function of its history

Which versions are acknowledged, flagged and reported is determined by which
insertions and receipts were accepted, not by their order. `Recorded` relates a
history to the tables it leads to; each transaction preserves it as long as no
ordinary acknowledgement is carried out on a directory delivery.
-/

namespace MiRelay

/-- The history stored this version with this delivery. -/
def Inserted (h : List Transaction) (device : String) (delivery : Delivery)
    (version : DirectoryVersion) : Prop :=
  ∃ createdAt now, Transaction.enqueue device delivery createdAt (some version) now ∈ h

/-- A receipt of the history names the version or a later one of its path. -/
def Covered (h : List Transaction) (device path : String) (version : Nat) : Prop :=
  ∃ ack now, Transaction.ackDirectory device ack now ∈ h ∧ ack.path = path ∧ version ≤ ack.version

/-- A receipt of the history names the version and reports a conflict. -/
def Flagged (h : List Transaction) (device path : String) (version : Nat) : Prop :=
  ∃ ack now, Transaction.ackDirectory device ack now ∈ h ∧ ack.path = path ∧
    ack.version = version ∧ ack.conflict = true

/-- The row describes the delivery. -/
def DeliveryRow.Holds (row : DeliveryRow) (device : String) (delivery : Delivery) : Prop :=
  row.deviceId = device ∧ row.deliveryId = delivery.id ∧ row.sizeBytes = delivery.size ∧
    row.sha256 = delivery.sha256 ∧ row.mediaType = delivery.mediaType

/-- The row after an update that settles it when selected. -/
def DeliveryRow.settle (row : DeliveryRow) (selected : Bool) (now : Nat) : DeliveryRow :=
  if selected then { row with acknowledgedAtUnix := row.acknowledgedAtUnix <|> some now } else row

section Settle

variable {row : DeliveryRow} {selected : Bool} {now : Nat}

@[simp] theorem DeliveryRow.settle_deviceId : (row.settle selected now).deviceId = row.deviceId := by
  cases selected <;> rfl

@[simp] theorem DeliveryRow.settle_deliveryId :
    (row.settle selected now).deliveryId = row.deliveryId := by
  cases selected <;> rfl

@[simp] theorem DeliveryRow.settle_isSome :
    (row.settle selected now).acknowledgedAtUnix.isSome =
      (row.acknowledgedAtUnix.isSome || selected) := by
  cases selected <;> simp [settle]

theorem DeliveryRow.Holds.settle {device : String} {delivery : Delivery}
    (h : row.Holds device delivery) : (row.settle selected now).Holds device delivery := by
  cases selected <;> exact h

end Settle

/-- The row with its flag raised. -/
def VersionRow.flag (row : VersionRow) (conflict : Bool) : VersionRow :=
  { row with conflict := row.conflict || conflict }

/-- The row records the version. -/
def VersionRow.Names (row : VersionRow) (device path : String) (version : Nat) : Prop :=
  row.deviceId = device ∧ row.path = path ∧ row.version = version

/-- The step is not part of a folder exit. -/
def Desk.connected (_ : Desk) (a : Transaction) : Bool := !a.isExit

/-- The step is not part of a folder exit, and not an ordinary acknowledgement carried out on
a directory delivery. -/
def Desk.confined (d : Desk) (a : Transaction) : Bool :=
  d.connected a && match a with
    | .acknowledge device id _ _ => !d.db.isDirectoryDelivery device id
    | _ => true

/-- The runs in which ordinary acknowledgements keep to ordinary deliveries. -/
abbrev Confined (d : Desk) (a : Transaction) : Prop := d.confined a = true

namespace Database

variable {db db' : Database} {device id : String}

theorem isDirectoryDelivery_eq_false :
    db.isDirectoryDelivery device id = false ↔
      ∀ v ∈ db.directoryVersions.rows, ¬(v.deviceId = device ∧ v.deliveryId = id) := by
  simp only [isDirectoryDelivery, List.any_eq_false, Bool.and_eq_true, beq_iff_eq]

/-- A delivery belongs to at most one version. -/
theorem version_eq_of_delivery {v w : VersionRow} (hv : v ∈ db.directoryVersions.rows)
    (hw : w ∈ db.directoryVersions.rows) (hdev : v.deviceId = w.deviceId)
    (hid : v.deliveryId = w.deliveryId) : v = w := by
  apply db.directoryVersions.eq_of_clash VersionRow.clash_comm hv hw
  simp [VersionRow.clash, hdev, hid]

/-- A version of a path is stored at most once. -/
theorem version_eq_of_names {v w : VersionRow} {path : String} {version : Nat}
    (hv : v ∈ db.directoryVersions.rows) (hw : w ∈ db.directoryVersions.rows)
    (hnv : v.Names device path version) (hnw : w.Names device path version) : v = w := by
  apply db.directoryVersions.eq_of_clash VersionRow.clash_comm hv hw
  obtain ⟨h1, h2, h3⟩ := hnv
  obtain ⟨k1, k2, k3⟩ := hnw
  simp [VersionRow.clash, h1, h2, h3, k1, k2, k3]

/-- What an accepted receipt found and what it left. -/
structure Receipted (db db' : Database) (device : String) (ack : DirectoryAck) (now : Nat) :
    Prop where
  /-- It names a stored version. -/
  names : ∃ v ∈ db.directoryVersions.rows, v.Names device ack.path ack.version
  versions : db'.directoryVersions.rows = db.directoryVersions.rows.map fun v =>
    v.flag (namedBy device ack v && ack.conflict)
  deliveries : db'.deliveries.rows = db.deliveries.rows.map fun d =>
    d.settle (db.coveredDelivery device ack d) now

theorem ackDirectory_ok {ack : DirectoryAck} {now : Nat}
    (h : db.ackDirectory device ack now = .ok (some db')) : Receipted db db' device ack now := by
  simp only [ackDirectory, bind_eq_ok] at h
  obtain ⟨_, -, _, -, h⟩ := h
  split at h
  · rename_i hmatch
    simp only [ackMatches, List.any_eq_true, Bool.and_eq_true, beq_iff_eq] at hmatch
    obtain ⟨v, hv, ⟨⟨hdev, hpath⟩, hversion⟩, -⟩ := hmatch
    cases Option.some.inj (Except.ok.inj h)
    refine ⟨⟨v, hv, hdev, hpath, hversion⟩, List.map_congr_left fun w _ => ?_, rfl⟩
    cases namedBy device ack w <;> simp [VersionRow.flag]
  · cases Except.ok.inj h

/-- A receipt covers the delivery of a version exactly when it covers the version. -/
theorem coveredDelivery_iff {ack : DirectoryAck} {v : VersionRow} {d : DeliveryRow}
    (hv : v ∈ db.directoryVersions.rows) (hdev : d.deviceId = v.deviceId)
    (hid : d.deliveryId = v.deliveryId) :
    db.coveredDelivery device ack d = true ↔
      v.deviceId = device ∧ v.path = ack.path ∧ v.version ≤ ack.version := by
  simp only [coveredDelivery, coveredBy, Bool.and_eq_true, beq_iff_eq, List.any_eq_true,
    decide_eq_true_eq]
  constructor
  · rintro ⟨hd, w, hw, ⟨⟨hwdev, hpath⟩, hle⟩, hwid⟩
    have : v = w := version_eq_of_delivery hv hw (by rw [← hdev, hd, hwdev]) (by rw [hwid, hid])
    subst this
    exact ⟨hwdev, hpath, hle⟩
  · rintro ⟨h1, h2, h3⟩
    exact ⟨by rw [hdev, h1], v, hv, ⟨⟨h1, h2⟩, h3⟩, hid.symm⟩

/-- A replay found the row of the same delivery and its version. -/
theorem replayedDelivery_ok {delivery : Delivery} {createdAt m : Nat}
    {directory : Option DirectoryVersion} {row : DeliveryRow}
    (h : db.replayedDelivery device delivery createdAt directory m = .ok (some row)) :
    row ∈ db.deliveries.rows ∧ row.Holds device delivery ∧
      db.directoryVersionOf device delivery.id = directory := by
  simp only [replayedDelivery, bind_eq_ok] at h
  obtain ⟨found, hfound, h⟩ := h
  cases found with
  | none => cases Except.ok.inj h
  | some existing =>
    simp only [bind_eq_ok, checkDirectoryReplay, ensure_eq_ok, beq_iff_eq, Bool.and_eq_true] at h
    obtain ⟨_, ⟨⟨⟨⟨-, hsize⟩, hsha⟩, hmedia⟩, -⟩, _, hdir, hrow⟩ := h
    cases Except.ok.inj hrow
    simp only [getDelivery, bind_eq_ok] at hfound
    obtain ⟨_, -, _, -, hfound⟩ := hfound
    split at hfound
    · cases Except.ok.inj hfound
    rename_i row hrow
    simp only [bind_eq_ok] at hfound
    obtain ⟨_, -, hfound⟩ := hfound
    cases Option.some.inj (Except.ok.inj hfound)
    have hp := List.find?_some hrow
    rw [Bool.and_eq_true, beq_iff_eq, beq_iff_eq] at hp
    exact ⟨List.mem_of_find?_eq_some hrow, ⟨hp.1, hp.2, hsize, hsha, hmedia⟩, hdir⟩

theorem directoryVersionOf_eq_some {version : DirectoryVersion}
    (h : db.directoryVersionOf device id = some version) :
    ∃ v ∈ db.directoryVersions.rows, v.deliveryId = id ∧
      v.Names device version.path version.version := by
  simp only [directoryVersionOf, Option.map_eq_some_iff] at h
  obtain ⟨v, hv, rfl⟩ := h
  have hp := List.find?_some hv
  rw [Bool.and_eq_true, beq_iff_eq, beq_iff_eq] at hp
  exact ⟨v, List.mem_of_find?_eq_some hv, hp.2, hp.1, rfl, rfl⟩

/-- Storing a delivery either replays a stored one or inserts it. -/
theorem storeOnce_ok {delivery : Delivery} {createdAt now m : Nat}
    {directory : Option DirectoryVersion}
    (h : db.storeOnce device delivery createdAt directory now m = .ok db') :
    (db' = db ∧ (∃ row ∈ db.deliveries.rows, row.Holds device delivery) ∧
      db.directoryVersionOf device delivery.id = directory) ∨
      Enqueued db db' device delivery createdAt directory := by
  simp only [storeOnce, bind_eq_ok] at h
  obtain ⟨found, hfound, h⟩ := h
  cases found with
  | some row =>
    obtain ⟨hrow, hholds, hdir⟩ := replayedDelivery_ok hfound
    exact .inl ⟨(Except.ok.inj h).symm, ⟨row, hrow, hholds⟩, hdir⟩
  | none => exact .inr (enqueue_ok h)

end Database

namespace Database

variable {db db' : Database} {device id : String}

/-- The tables of the version store are the same. -/
def SameStore (db db' : Database) : Prop :=
  db'.deliveries = db.deliveries ∧ db'.directoryVersions = db.directoryVersions

theorem publishDirectory_sameStore {update : InventoryUpdate} {inventory : Option Inventory}
    (h : db.publishDirectory device update = .ok (inventory, db')) : SameStore db db' := by
  simp only [publishDirectory, bind_eq_ok] at h
  obtain ⟨_, -, _, -, _, -, h⟩ := h
  split at h
  · cases Except.ok.inj h
    exact ⟨rfl, rfl⟩
  · split at h
    · cases Except.ok.inj h
      exact ⟨rfl, rfl⟩
    · split at h
      · contradiction
      · cases Except.ok.inj h
        exact ⟨rfl, rfl⟩

theorem SameTransfers.store (h : SameTransfers db db') : SameStore db db' :=
  ⟨h.deliveries, h.directoryVersions⟩

end Database

namespace Desk

variable {m : Nat} {d d' : Desk}

theorem commit_eq_some {x : Option Database} (h : d.commit x = some d') : x = some d'.db := by
  cases x with
  | none => contradiction
  | some db =>
    cases Option.some.inj h
    rfl

/-- What an accepted transaction other than of an exit does to deliveries and versions. -/
theorem perform_cases {a : Transaction} (h : d.perform m a = some d') (hexit : a.isExit = false) :
    (∃ device delivery createdAt directory now,
      a = .enqueue device delivery createdAt directory now ∧
        ((d'.db = d.db ∧ (∃ row ∈ d.db.deliveries.rows, row.Holds device delivery) ∧
            d.db.directoryVersionOf device delivery.id = directory) ∨
          Database.Enqueued d.db d'.db device delivery createdAt directory)) ∨
    (∃ device id sha256 now, a = .acknowledge device id sha256 now ∧
      d'.db = (d.db.acknowledge device id sha256 now).2) ∨
    (∃ device ack now, a = .ackDirectory device ack now ∧
      d.db.ackDirectory device ack now = .ok (some d'.db)) ∨
    ((∀ device delivery createdAt directory now,
        a ≠ .enqueue device delivery createdAt directory now) ∧
      (∀ device ack now, a ≠ .ackDirectory device ack now) ∧ d.db.SameStore d'.db) := by
  cases a with
  | enqueue device delivery createdAt directory now =>
    have h := commit_eq_some h
    rw [toOption_eq_some, bind_eq_ok] at h
    obtain ⟨_, -, h⟩ := h
    exact .inl ⟨device, delivery, createdAt, directory, now, rfl, Database.storeOnce_ok h⟩
  | acknowledge device id sha256 now =>
    simp only [perform] at h
    split at h
    · cases Option.some.inj h
      exact .inr (.inl ⟨device, id, sha256, now, rfl, rfl⟩)
    · contradiction
  | ackDirectory device ack now =>
    have h := commit_eq_some h
    cases hr : d.db.ackDirectory device ack now with
    | error e =>
      rw [hr] at h
      contradiction
    | ok r =>
      simp only [hr, Except.toOption, Option.getD_some] at h
      exact .inr (.inr (.inl ⟨device, ack, now, rfl, by rw [hr, h]⟩))
  | admitAcknowledge device id =>
    simp only [perform] at h
    split at h
    · contradiction
    · cases Option.some.inj h
      exact .inr (.inr (.inr ⟨by simp, by simp, rfl, rfl⟩))
  | publish device update =>
    have h := commit_eq_some h
    rw [Option.bind_eq_some_iff] at h
    obtain ⟨⟨inventory, db⟩, hok, hp⟩ := h
    rw [toOption_eq_some] at hok
    cases inventory with
    | none => contradiction
    | some i =>
      cases hp
      exact .inr (.inr (.inr ⟨by simp, by simp, Database.publishDirectory_sameStore hok⟩))
  | createFolder id name receiverHash inviteHash expires =>
    have h := commit_eq_some h
    rw [toOption_eq_some] at h
    exact .inr (.inr (.inr ⟨by simp, by simp, (Database.createFolder_transfers h).store⟩))
  | claimFolder id inviteHash senderHash now =>
    simp only [perform, commit, Option.some.injEq] at h
    subst h
    exact .inr (.inr (.inr ⟨by simp, by simp, Database.claimFolder_transfers.store⟩))
  | disconnectFolder id hash =>
    simp only [perform, commit, Option.some.injEq] at h
    subst h
    exact .inr (.inr (.inr ⟨by simp, by simp, Database.disconnectFolder_transfers.store⟩))
  | confirmFolder | renewFolder =>
    simp only [perform, commit, Option.some.injEq] at h
    subst h
    exact .inr (.inr (.inr ⟨by simp, by simp, rfl, rfl⟩))
  | beginExit | removeFolder | receiveExit => contradiction

end Desk

/-- The version is stored and its delivery is described by a row. -/
def Database.Stores (db : Database) (device : String) (delivery : Delivery)
    (version : DirectoryVersion) : Prop :=
  (∃ v ∈ db.directoryVersions.rows, v.deliveryId = delivery.id ∧
    v.Names device version.path version.version) ∧
  ∃ row ∈ db.deliveries.rows, row.Holds device delivery

/-- The tables hold exactly what the history inserted, acknowledged as far as it covers. -/
structure Recorded (h : List Transaction) (db : Database) : Prop where
  /-- Every version was inserted, with the delivery its row describes. -/
  stored : ∀ v ∈ db.directoryVersions.rows, ∃ delivery,
    Inserted h v.deviceId delivery ⟨v.path, v.version⟩ ∧ delivery.id = v.deliveryId ∧
      ∃ row ∈ db.deliveries.rows, row.Holds v.deviceId delivery
  /-- Every inserted version is stored, with a row that describes its delivery. -/
  inserted : ∀ device delivery version, Inserted h device delivery version →
    db.Stores device delivery version
  /-- Every receipt names a stored version. -/
  received : ∀ device ack now, Transaction.ackDirectory device ack now ∈ h →
    ∃ v ∈ db.directoryVersions.rows, v.Names device ack.path ack.version
  /-- The acknowledged versions are those a receipt covers. -/
  acknowledged : ∀ v ∈ db.directoryVersions.rows,
    db.isAcknowledged v = true ↔ Covered h v.deviceId v.path v.version
  /-- The flagged versions are those a receipt flags. -/
  flagged : ∀ v ∈ db.directoryVersions.rows,
    v.conflict = true ↔ Flagged h v.deviceId v.path v.version

theorem inserted_append {h : List Transaction} {a : Transaction} {device : String}
    {delivery : Delivery} {version : DirectoryVersion} :
    Inserted (h ++ [a]) device delivery version ↔ Inserted h device delivery version ∨
      ∃ createdAt now, a = .enqueue device delivery createdAt (some version) now := by
  simp only [Inserted, List.mem_append, List.mem_singleton, exists_or, eq_comm]

theorem covered_append {h : List Transaction} {a : Transaction} {device path : String}
    {version : Nat} :
    Covered (h ++ [a]) device path version ↔ Covered h device path version ∨
      ∃ ack now, a = .ackDirectory device ack now ∧ ack.path = path ∧ version ≤ ack.version := by
  simp only [Covered, List.mem_append, List.mem_singleton, or_and_right, exists_or, eq_comm]

theorem flagged_append {h : List Transaction} {a : Transaction} {device path : String}
    {version : Nat} :
    Flagged (h ++ [a]) device path version ↔ Flagged h device path version ∨
      ∃ ack now, a = .ackDirectory device ack now ∧ ack.path = path ∧ ack.version = version ∧
        ack.conflict = true := by
  simp only [Flagged, List.mem_append, List.mem_singleton, or_and_right, exists_or, eq_comm]

namespace Recorded

variable {h : List Transaction} {db db' : Database}

theorem initial : Recorded [] Database.initial := by
  refine ⟨?_, ?_, ?_, ?_, ?_⟩
  · intro v hv
    simp [Database.initial] at hv
  · rintro device delivery version ⟨_, _, hmem⟩
    contradiction
  · intro device ack now hmem
    contradiction
  · intro v hv
    simp [Database.initial] at hv
  · intro v hv
    simp [Database.initial] at hv

/-- A transaction that is no receipt, inserts nothing new and acknowledges no version. -/
theorem same {a : Transaction} (r : Recorded h db)
    (hver : db'.directoryVersions = db.directoryVersions)
    (hacked : ∀ v ∈ db.directoryVersions.rows, db'.isAcknowledged v = db.isAcknowledged v)
    (hholds : ∀ row ∈ db.deliveries.rows, ∃ row' ∈ db'.deliveries.rows,
      ∀ device delivery, row.Holds device delivery → row'.Holds device delivery)
    (hack : ∀ device ack now, a ≠ .ackDirectory device ack now)
    (hins : ∀ device delivery createdAt version now,
      a = .enqueue device delivery createdAt (some version) now → db.Stores device delivery version) :
    Recorded (h ++ [a]) db' := by
  have hcov : ∀ device path version, Covered (h ++ [a]) device path version ↔
      Covered h device path version := fun device path version => by
    rw [covered_append]
    exact ⟨fun hc => hc.elim id fun ⟨ack, now, ha, _⟩ => absurd ha (hack device ack now), .inl⟩
  have hflag : ∀ device path version, Flagged (h ++ [a]) device path version ↔
      Flagged h device path version := fun device path version => by
    rw [flagged_append]
    exact ⟨fun hc => hc.elim id fun ⟨ack, now, ha, _⟩ => absurd ha (hack device ack now), .inl⟩
  refine ⟨?_, ?_, ?_, ?_, ?_⟩ <;> simp only [Database.Stores, hver]
  · intro v hv
    obtain ⟨delivery, hi, hid, row, hrow, hrest⟩ := r.stored v hv
    obtain ⟨row', hrow', hh⟩ := hholds row hrow
    exact ⟨delivery, inserted_append.mpr (.inl hi), hid, row', hrow', hh _ _ hrest⟩
  · intro device delivery version hi
    have hstores : db.Stores device delivery version := by
      rcases inserted_append.mp hi with hi | ⟨createdAt, now, ha⟩
      · exact r.inserted device delivery version hi
      · exact hins device delivery createdAt version now ha
    obtain ⟨hv, row, hrow, hrest⟩ := hstores
    obtain ⟨row', hrow', hh⟩ := hholds row hrow
    exact ⟨hv, row', hrow', hh _ _ hrest⟩
  · intro device ack now hmem
    rcases List.mem_append.mp hmem with hmem | hmem
    · exact r.received device ack now hmem
    · exact absurd (List.mem_singleton.mp hmem).symm (hack device ack now)
  · intro v hv
    rw [hacked v hv, hcov]
    exact r.acknowledged v hv
  · intro v hv
    rw [hflag]
    exact r.flagged v hv

/-- A transaction that leaves the version store alone. -/
theorem sameStore {a : Transaction} (r : Recorded h db) (hstore : db.SameStore db')
    (hack : ∀ device ack now, a ≠ .ackDirectory device ack now)
    (hins : ∀ device delivery createdAt version now,
      a = .enqueue device delivery createdAt (some version) now → db.Stores device delivery version) :
    Recorded (h ++ [a]) db' := by
  obtain ⟨hdel, hver⟩ := hstore
  refine r.same hver (fun v _ => ?_) (fun row hrow => ?_) hack hins
  · rw [Bool.eq_iff_iff, Database.isAcknowledged_iff, Database.isAcknowledged_iff, hdel]
  · exact ⟨row, by rw [hdel]; exact hrow, fun _ _ => id⟩

/-- An ordinary acknowledgement of a delivery that belongs to no version. -/
theorem acknowledge {device id sha256 : String} {now : Nat} (r : Recorded h db)
    (hordinary : db.isDirectoryDelivery device id = false) :
    Recorded (h ++ [.acknowledge device id sha256 now]) (db.acknowledge device id sha256 now).2 := by
  rw [Database.isDirectoryDelivery_eq_false] at hordinary
  unfold Database.acknowledge
  split
  · exact r.sameStore ⟨rfl, rfl⟩ (by simp) (by simp)
  split
  · exact r.sameStore ⟨rfl, rfl⟩ (by simp) (by simp)
  split
  · exact r.sameStore ⟨rfl, rfl⟩ (by simp) (by simp)
  refine r.same rfl (fun v hv => ?_) (fun row hrow => ?_) (by simp) (by simp)
  · rw [Bool.eq_iff_iff, Database.isAcknowledged_iff, Database.isAcknowledged_iff]
    have hother : ∀ d : DeliveryRow, d.deviceId = v.deviceId → d.deliveryId = v.deliveryId →
        (d.deviceId == device && d.deliveryId == id) = false := by
      intro d hdev hid
      rw [Bool.eq_false_iff, ne_eq, Bool.and_eq_true, beq_iff_eq, beq_iff_eq, hdev, hid]
      exact hordinary v hv
    simp only [Database.mem_updateAcknowledged]
    constructor
    · rintro ⟨_, ⟨d, hd, rfl⟩, hdev, hid, hack⟩
      split at hack
      · rename_i hsel
        rw [if_pos hsel] at hdev hid
        rw [hother d hdev hid] at hsel
        contradiction
      · rename_i hsel
        rw [if_neg hsel] at hdev hid
        exact ⟨d, hd, hdev, hid, hack⟩
    · rintro ⟨d, hd, hdev, hid, hack⟩
      refine ⟨d, ⟨d, hd, ?_⟩, hdev, hid, hack⟩
      rw [hother d hdev hid, if_neg Bool.false_ne_true]
  · refine ⟨_, Database.mem_updateAcknowledged.mpr ⟨row, hrow, rfl⟩, fun device delivery hh => ?_⟩
    split
    · exact hh
    · exact hh

/-- An insertion: a late version is acknowledged exactly when a receipt already covers it. -/
theorem enqueue {device : String} {delivery : Delivery} {createdAt now : Nat}
    {directory : Option DirectoryVersion} (r : Recorded h db)
    (he : Database.Enqueued db db' device delivery createdAt directory) :
    Recorded (h ++ [.enqueue device delivery createdAt directory now]) db' := by
  obtain ⟨acknowledged, hack, hdel⟩ := he.deliveries
  have hver := he.versions
  have hcov : ∀ device' path version,
      Covered (h ++ [.enqueue device delivery createdAt directory now]) device' path version ↔
        Covered h device' path version := fun device' path version => by
    rw [covered_append]
    simp
  have hflag : ∀ device' path version,
      Flagged (h ++ [.enqueue device delivery createdAt directory now]) device' path version ↔
        Flagged h device' path version := fun device' path version => by
    rw [flagged_append]
    simp
  -- A version of the store belongs to an older delivery, which the insertion left alone.
  have hold : ∀ v ∈ db.directoryVersions.rows,
      ¬(device = v.deviceId ∧ delivery.id = v.deliveryId) := by
    rintro v hv ⟨rfl, hid⟩
    obtain ⟨older, -, hoid, row, hrow, hdev, hrid, -⟩ := r.stored v hv
    exact he.free row hrow ⟨hdev, by rw [hrid, hoid, hid]⟩
  have hacked : ∀ v ∈ db.directoryVersions.rows,
      (db'.isAcknowledged v = true ↔ db.isAcknowledged v = true) := by
    intro v hv
    simp only [Database.isAcknowledged_iff, hdel, List.mem_append, List.mem_singleton]
    constructor
    · rintro ⟨d, hd | rfl, hdev, hid, hd'⟩
      · exact ⟨d, hd, hdev, hid, hd'⟩
      · exact absurd ⟨hdev, hid⟩ (hold v hv)
    · rintro ⟨d, hd, hd'⟩
      exact ⟨d, .inl hd, hd'⟩
  have hsub : ∀ v ∈ db.directoryVersions.rows, v ∈ db'.directoryVersions.rows := fun v hv => by
    rw [hver]
    exact List.mem_append_left _ hv
  refine ⟨?_, ?_, ?_, ?_, ?_⟩
  · intro v hv
    rw [hver, List.mem_append] at hv
    rcases hv with hv | hv
    · obtain ⟨older, hi, hid, row, hrow, hholds⟩ := r.stored v hv
      refine ⟨older, inserted_append.mpr (.inl hi), hid, row, ?_, hholds⟩
      rw [hdel]
      exact List.mem_append_left _ hrow
    · cases directory with
      | none => simp at hv
      | some version =>
        simp only [Option.map_some, Option.toList_some, List.mem_singleton] at hv
        subst hv
        refine ⟨delivery, inserted_append.mpr (.inr ⟨createdAt, now, rfl⟩), rfl,
          { delivery.row device (db.lastSequence + 1) createdAt with
            acknowledgedAtUnix := acknowledged }, ?_, rfl, rfl, rfl, rfl, rfl⟩
        rw [hdel]
        exact List.mem_append_right _ (List.mem_singleton_self _)
  · intro device' delivery' version hi
    rcases inserted_append.mp hi with hi | ⟨createdAt', now', ha⟩
    · obtain ⟨⟨v, hv, hrest⟩, row, hrow, hholds⟩ := r.inserted device' delivery' version hi
      refine ⟨⟨v, hsub v hv, hrest⟩, row, ?_, hholds⟩
      rw [hdel]
      exact List.mem_append_left _ hrow
    · cases ha
      refine ⟨⟨⟨device, delivery.id, version.path, version.version, false⟩, ?_, rfl, rfl, rfl, rfl⟩,
        { delivery.row device (db.lastSequence + 1) createdAt with
          acknowledgedAtUnix := acknowledged }, ?_, rfl, rfl, rfl, rfl, rfl⟩
      · rw [hver]
        exact List.mem_append_right _ (by simp)
      · rw [hdel]
        exact List.mem_append_right _ (List.mem_singleton_self _)
  · intro device' ack now' hmem
    simp only [List.mem_append, List.mem_singleton, reduceCtorEq, or_false] at hmem
    obtain ⟨v, hv, hnames⟩ := r.received device' ack now' hmem
    exact ⟨v, hsub v hv, hnames⟩
  · intro v hv
    rw [hcov]
    rw [hver, List.mem_append] at hv
    rcases hv with hv | hv
    · rw [hacked v hv]
      exact r.acknowledged v hv
    · cases directory with
      | none => simp at hv
      | some version =>
        simp only [Option.map_some, Option.toList_some, List.mem_singleton] at hv
        subst hv
        have hnew : db'.isAcknowledged ⟨device, delivery.id, version.path, version.version, false⟩
            = db.superseded device version := by
          rw [Option.any_some] at hack
          rw [← hack, Bool.eq_iff_iff, Database.isAcknowledged_iff]
          simp only [hdel, List.mem_append, List.mem_singleton]
          constructor
          · rintro ⟨d, hd | rfl, hdev, hid, hd'⟩
            · exact absurd ⟨hdev, hid⟩ (he.free d hd)
            · exact hd'
          · intro hs
            exact ⟨_, .inr rfl, rfl, rfl, hs⟩
        rw [hnew, Database.superseded_iff]
        constructor
        · rintro ⟨v, hv, rfl, hpath, hlt, hav⟩
          obtain ⟨ack, now', hmem, hap, hle⟩ := (r.acknowledged v hv).mp hav
          exact ⟨ack, now', hmem, by rw [hap, hpath], hlt.le.trans hle⟩
        · -- The receipt names a stored version, which is not the new one.
          rintro ⟨ack, now', hmem, hap, hle⟩
          obtain ⟨v, hv, hdev, hpath, hversion⟩ := r.received device ack now' hmem
          rw [← hversion] at hle
          have hne : v.version ≠ version.version := by
            intro heq
            have hcol := (he.version version rfl).2.2.2
            rw [Database.versionCollision, List.any_eq_false] at hcol
            have := hcol v hv
            simp [hdev, hpath, hap, heq] at this
          refine ⟨v, hv, hdev, by rw [hpath, hap], lt_of_le_of_ne hle hne.symm,
            (r.acknowledged v hv).mpr ⟨ack, now', ?_, hpath.symm, hversion.le⟩⟩
          rw [hdev]
          exact hmem
  · intro v hv
    rw [hflag]
    rw [hver, List.mem_append] at hv
    rcases hv with hv | hv
    · exact r.flagged v hv
    · cases directory with
      | none => simp at hv
      | some version =>
        simp only [Option.map_some, Option.toList_some, List.mem_singleton] at hv
        subst hv
        -- No receipt can have named the version before it was stored.
        refine iff_of_false (by simp) ?_
        rintro ⟨ack, now', hmem, hap, hversion, -⟩
        obtain ⟨v, hv, hdev, hpath, hv'⟩ := r.received device ack now' hmem
        have hcol := (he.version version rfl).2.2.2
        rw [Database.versionCollision, List.any_eq_false] at hcol
        have := hcol v hv
        simp [hdev, hpath, hap, hv', hversion] at this

/-- A receipt acknowledges exactly the versions it covers and flags the one it names. -/
theorem ackDirectory {device : String} {ack : DirectoryAck} {now : Nat} (r : Recorded h db)
    (ha : db.Receipted db' device ack now) : Recorded (h ++ [.ackDirectory device ack now]) db' := by
  have hver := ha.versions
  have hdel := ha.deliveries
  have hsub : ∀ v ∈ db.directoryVersions.rows,
      v.flag (Database.namedBy device ack v && ack.conflict) ∈ db'.directoryVersions.rows :=
    fun v hv => by
      rw [hver]
      exact List.mem_map_of_mem hv
  refine ⟨?_, ?_, ?_, ?_, ?_⟩
  · intro v' hv'
    rw [hver, List.mem_map] at hv'
    obtain ⟨v, hv, rfl⟩ := hv'
    obtain ⟨delivery, hi, hid, row, hrow, hh⟩ := r.stored v hv
    refine ⟨delivery, inserted_append.mpr (.inl hi), hid,
      row.settle (db.coveredDelivery device ack row) now, ?_, hh.settle⟩
    rw [hdel]
    exact List.mem_map.mpr ⟨row, hrow, rfl⟩
  · intro device' delivery version hi
    rcases inserted_append.mp hi with hi | ⟨createdAt, now', ha⟩
    · obtain ⟨⟨v, hv, hrest⟩, row, hrow, hholds⟩ := r.inserted device' delivery version hi
      refine ⟨⟨_, hsub v hv, hrest⟩, row.settle (db.coveredDelivery device ack row) now, ?_,
        hholds.settle⟩
      rw [hdel]
      exact List.mem_map.mpr ⟨row, hrow, rfl⟩
    · contradiction
  · intro device' ack' now' hmem
    have hold : ∃ v ∈ db.directoryVersions.rows, v.Names device' ack'.path ack'.version := by
      rcases List.mem_append.mp hmem with hmem | hmem
      · exact r.received device' ack' now' hmem
      · cases List.mem_singleton.mp hmem
        exact ha.names
    obtain ⟨v, hv, hnames⟩ := hold
    exact ⟨_, hsub v hv, hnames⟩
  · intro v' hv'
    rw [hver, List.mem_map] at hv'
    obtain ⟨v, hv, rfl⟩ := hv'
    have hcov : Covered (h ++ [.ackDirectory device ack now]) v.deviceId v.path v.version ↔
        Covered h v.deviceId v.path v.version ∨
          (v.deviceId = device ∧ v.path = ack.path ∧ v.version ≤ ack.version) := by
      rw [covered_append]
      refine or_congr Iff.rfl ⟨?_, ?_⟩
      · rintro ⟨ack', now', heq, hpath, hle⟩
        cases heq
        exact ⟨rfl, hpath.symm, hle⟩
      · rintro ⟨rfl, hpath, hle⟩
        exact ⟨ack, now, rfl, hpath.symm, hle⟩
    refine Iff.trans ?_ hcov.symm
    rw [← r.acknowledged v hv, Database.isAcknowledged_iff, Database.isAcknowledged_iff, hdel]
    simp only [List.mem_map, exists_exists_and_eq_and, DeliveryRow.settle_deviceId,
      DeliveryRow.settle_deliveryId, DeliveryRow.settle_isSome, Bool.or_eq_true, VersionRow.flag]
    constructor
    · rintro ⟨d, hd, hdev, hid, hacked | hsel⟩
      · exact .inl ⟨d, hd, hdev, hid, hacked⟩
      · exact .inr ((Database.coveredDelivery_iff hv hdev hid).mp hsel)
    · rintro (⟨d, hd, hdev, hid, hacked⟩ | hsel)
      · exact ⟨d, hd, hdev, hid, .inl hacked⟩
      · obtain ⟨delivery, -, hdid, row, hrow, hdev, hid, -⟩ := r.stored v hv
        have hid := hid.trans hdid
        exact ⟨row, hrow, hdev, hid, .inr ((Database.coveredDelivery_iff hv hdev hid).mpr hsel)⟩
  · intro v' hv'
    rw [hver, List.mem_map] at hv'
    obtain ⟨v, hv, rfl⟩ := hv'
    have hflag : Flagged (h ++ [.ackDirectory device ack now]) v.deviceId v.path v.version ↔
        Flagged h v.deviceId v.path v.version ∨
          (v.deviceId = device ∧ v.path = ack.path ∧ v.version = ack.version ∧
            ack.conflict = true) := by
      rw [flagged_append]
      refine or_congr Iff.rfl ⟨?_, ?_⟩
      · rintro ⟨ack', now', heq, hpath, hversion, hc⟩
        cases heq
        exact ⟨rfl, hpath.symm, hversion.symm, hc⟩
      · rintro ⟨rfl, hpath, hversion, hc⟩
        exact ⟨ack, now, rfl, hpath.symm, hversion.symm, hc⟩
    refine Iff.trans ?_ hflag.symm
    rw [← r.flagged v hv]
    simp only [VersionRow.flag, Database.namedBy, Bool.or_eq_true, Bool.and_eq_true, beq_iff_eq,
      and_assoc]

/-- Every accepted transaction that is allowed is recorded. -/
theorem step {m : Nat} {d d' : Desk} {a : Transaction} (r : Recorded h d.db)
    (hallowed : d.confined a = true) (hstep : d.perform m a = some d') : Recorded (h ++ [a]) d'.db := by
  simp only [Desk.confined, Desk.connected, Bool.and_eq_true, Bool.not_eq_true'] at hallowed
  rcases Desk.perform_cases hstep hallowed.1 with
    ⟨device, delivery, createdAt, directory, now, rfl, ⟨hsame, hrow, hdir⟩ | he⟩ |
    ⟨device, id, sha256, now, rfl, hdb⟩ | ⟨device, ack, now, rfl, hok⟩ | ⟨hne, hna, hstore⟩
  · rw [hsame]
    refine r.sameStore ⟨rfl, rfl⟩ (by simp) ?_
    rintro device' delivery' createdAt' version now' ha
    cases ha
    exact ⟨Database.directoryVersionOf_eq_some hdir, hrow⟩
  · exact r.enqueue he
  · rw [hdb]
    exact r.acknowledge (by simpa using hallowed.2)
  · exact r.ackDirectory (Database.ackDirectory_ok hok)
  · exact r.sameStore hstore hna fun device delivery createdAt version now ha =>
      absurd ha (hne device delivery createdAt (some version) now)

/-- A whole history is recorded. -/
theorem run {m : Nat} {d : Desk} (hrun : Steps (Desk.perform m) Confined Desk.initial h d) :
    Recorded h d.db :=
  hrun.invariant (I := fun h d => Recorded h d.db) initial
    fun _ _ _ _ r hallowed hstep => r.step hallowed hstep

end Recorded

end MiRelay
