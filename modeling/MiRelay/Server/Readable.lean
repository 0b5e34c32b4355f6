import Mathlib
import MiRelay.Directory.Compare
import MiRelay.Server.Confluence

/-!
# The directory state stays readable

The rows that any sequence of transactions can leave satisfy the checks that the
directory state is put through before it is answered, except for the bound on
the size of a file: the relay may be configured to accept larger files than a
directory state may list. With a bound no larger, the state is always answered.
-/

namespace MiRelay

namespace Database

variable {db : Database} {device : String}

theorem isLatest_iff {v : VersionRow} :
    db.isLatest v = true ↔ ∀ w ∈ db.directoryVersions.rows, w.deviceId = v.deviceId →
      w.path = v.path → w.version ≤ v.version := by
  simp only [isLatest, Bool.not_eq_true', List.any_eq_false, Bool.and_eq_true, beq_iff_eq,
    decide_eq_true_eq, not_and, not_lt, and_imp]

theorem reportedEntry_eq_some {v : VersionRow} {e : DirectoryEntry} :
    db.reportedEntry v = some e ↔ ∃ d, db.deliveryOf v = some d ∧
      ({ path := v.path, version := v.version, deliveryId := d.deliveryId, sha256 := d.sha256
         size := d.sizeBytes, mediaType := d.mediaType
         acknowledged := d.acknowledgedAtUnix.isSome, conflict := v.conflict } : DirectoryEntry)
        = e := by
  rw [reportedEntry, Option.map_eq_some_iff]

theorem mem_latestEntries {e : DirectoryEntry} :
    e ∈ db.latestEntries device ↔ ∃ v ∈ db.directoryVersions.rows, v.deviceId = device ∧
      db.isLatest v = true ∧ db.reportedEntry v = some e := by
  simp only [latestEntries, List.mem_filterMap, List.mem_filter, Bool.and_eq_true, beq_iff_eq,
    and_assoc]

/-- What is sorted and cut off by the query is the list of latest entries. -/
theorem reportedEntries_perm (h : (db.reportedEntries device).length ≤ maxEntries) :
    (db.reportedEntries device).Perm (db.latestEntries device) := by
  have hlen : (db.latestEntries device).length ≤ 5001 := by
    rw [reportedEntries, List.length_take, List.length_insertionSort] at h
    have : maxEntries = 5000 := rfl
    omega
  rw [reportedEntries, List.take_of_length_le (by rw [List.length_insertionSort]; exact hlen)]
  exact List.perm_insertionSort _ _

/-- An answered state lists what the query reports. -/
theorem directoryState_entries {st : DirectoryState} (h : db.directoryState device = .ok st) :
    st = { schemaVersion := directorySchemaVersion, receiver := db.index device
           entries := db.reportedEntries device } := by
  simp only [directoryState] at h
  split at h
  · exact (Except.ok.inj h).symm
  · contradiction

/-- Two latest versions of one path are the same row. -/
theorem latest_eq {v w : VersionRow} (hv : v ∈ db.directoryVersions.rows)
    (hw : w ∈ db.directoryVersions.rows) (hdev : v.deviceId = w.deviceId) (hpath : v.path = w.path)
    (hlv : db.isLatest v = true) (hlw : db.isLatest w = true) : v = w := by
  rw [isLatest_iff] at hlv hlw
  have hle := hlv w hw hdev.symm hpath.symm
  have hge := hlw v hv hdev hpath
  exact version_eq_of_names hv hw ⟨rfl, rfl, rfl⟩ ⟨hdev.symm, hpath.symm, le_antisymm hle hge⟩

/-- No path occurs twice among the latest entries. -/
theorem latestEntries_nodup (db : Database) (device : String) :
    ((db.latestEntries device).map (·.path)).Nodup := by
  have hrows : (db.directoryVersions.rows.filter fun v =>
      v.deviceId == device && db.isLatest v).Pairwise fun v w => v.path ≠ w.path := by
    refine List.Pairwise.imp_of_mem ?_ (db.directoryVersions.sound.filter _)
    intro v w hv hw hclash hpath
    simp only [List.mem_filter, Bool.and_eq_true, beq_iff_eq] at hv hw
    have := latest_eq hv.1 hw.1 (hv.2.1.trans hw.2.1.symm) hpath hv.2.2 hw.2.2
    subst this
    simp [VersionRow.clash] at hclash
  rw [List.nodup_iff_pairwise_ne, List.pairwise_map, latestEntries, List.pairwise_filterMap]
  refine hrows.imp ?_
  intro v w hne e he f hf
  obtain ⟨_, -, rfl⟩ := reportedEntry_eq_some.mp he
  obtain ⟨_, -, rfl⟩ := reportedEntry_eq_some.mp hf
  exact hne

end Database

/-- What the checks of a reported state need of the tables. -/
structure Readable (maxFileSize : Nat) (db : Database) : Prop where
  versions : ∀ v ∈ db.directoryVersions.rows,
    DirectoryVersion.validate { path := v.path, version := v.version } = .ok ()
  deliveries : ∀ d ∈ db.deliveries.rows, validateDeliveryMetadata d.delivery maxFileSize = .ok ()
  paths : ∀ device, db.pathCount device ≤ maxEntries
  indexes : ∀ row ∈ db.directoryIndexes.rows, row.inventory.validate = .ok ()

/-- The stored row passes the checks the delivery passed. -/
theorem validateDeliveryMetadata_row {delivery : Delivery} {m n c : Nat} {device : String}
    {acknowledged : Option Nat} (h : validateDeliveryMetadata delivery m = .ok ()) :
    validateDeliveryMetadata ({ delivery.row device n c with
      acknowledgedAtUnix := acknowledged } : DeliveryRow).delivery m = .ok () := by
  simp only [validateDeliveryMetadata, bind_eq_ok, ensure_eq_ok] at h ⊢
  obtain ⟨_, -, _, hid, _, -, _, hname, _, hsize, _, hmax, _, hsha, hmedia⟩ := h
  exact ⟨(), rfl, (), hid, (), rfl, (), hname, (), hsize, (), hmax, (), hsha, hmedia⟩

namespace Database

variable {db db' : Database} {device : String}

theorem pathCount_eq (db : Database) (device : String) :
    db.pathCount device =
      ((db.directoryVersions.rows.filter (·.deviceId == device)).map (·.path)).toFinset.card := by
  rw [pathCount, List.card_toFinset]

/-- Fewer paths are counted when each was stored before. -/
theorem pathCount_le (h : ∀ v' ∈ db'.directoryVersions.rows, ∃ v ∈ db.directoryVersions.rows,
    v'.Names v.deviceId v.path v.version) : db'.pathCount device ≤ db.pathCount device := by
  rw [pathCount_eq, pathCount_eq]
  apply Finset.card_le_card
  intro p hp
  simp only [List.mem_toFinset, List.mem_map, List.mem_filter, beq_iff_eq] at hp ⊢
  obtain ⟨v', ⟨hv', hdev⟩, rfl⟩ := hp
  obtain ⟨v, hv, hnames⟩ := h v' hv'
  exact ⟨v, ⟨hv, hnames.1.symm.trans hdev⟩, hnames.2.1.symm⟩

/-- A new version adds at most one path, and only within the limit. -/
theorem pathCount_insert {new : VersionRow}
    (hrows : db'.directoryVersions.rows = db.directoryVersions.rows ++ [new])
    (hroom : db.versionsOf new.deviceId new.path ≠ [] ∨ db.pathCount new.deviceId < maxEntries)
    (h : db.pathCount device ≤ maxEntries) : db'.pathCount device ≤ maxEntries := by
  by_cases hdev : new.deviceId = device
  · subst hdev
    have hins : ((db'.directoryVersions.rows.filter (·.deviceId == new.deviceId)).map
        (·.path)).toFinset = insert new.path
          ((db.directoryVersions.rows.filter (·.deviceId == new.deviceId)).map (·.path)).toFinset := by
      ext p
      simp only [hrows, List.filter_append, List.map_append, List.toFinset_append,
        Finset.mem_union, Finset.mem_insert]
      simp [or_comm]
    rw [pathCount_eq, hins]
    rcases hroom with hold | hroom
    · rw [Finset.insert_eq_of_mem, ← pathCount_eq]
      · exact h
      · obtain ⟨v, hv⟩ := List.exists_mem_of_ne_nil _ hold
        simp only [versionsOf, List.mem_filter, Bool.and_eq_true, beq_iff_eq] at hv
        simp only [List.mem_toFinset, List.mem_map, List.mem_filter, beq_iff_eq]
        exact ⟨v, ⟨hv.1, hv.2.1⟩, hv.2.2⟩
    · rw [pathCount_eq] at hroom
      have := Finset.card_insert_le new.path
        ((db.directoryVersions.rows.filter (·.deviceId == new.deviceId)).map (·.path)).toFinset
      omega
  · have : db'.pathCount device = db.pathCount device := by
      simp [pathCount, hrows, hdev]
    omega

end Database

namespace Readable

variable {m : Nat} {db db' : Database}

/-- Removing rows and changing flags keeps the tables readable. -/
theorem shrink (r : Readable m db)
    (hver : ∀ v' ∈ db'.directoryVersions.rows, ∃ v ∈ db.directoryVersions.rows,
      v'.Names v.deviceId v.path v.version)
    (hdel : ∀ d' ∈ db'.deliveries.rows, ∃ d ∈ db.deliveries.rows, d'.delivery = d.delivery)
    (hidx : ∀ i ∈ db'.directoryIndexes.rows,
      i ∈ db.directoryIndexes.rows ∨ i.inventory.validate = .ok ()) : Readable m db' where
  versions v' hv' := by
    obtain ⟨v, hv, -, hpath, hversion⟩ := hver v' hv'
    rw [hpath, hversion]
    exact r.versions v hv
  deliveries d' hd' := by
    obtain ⟨d, hd, heq⟩ := hdel d' hd'
    rw [heq]
    exact r.deliveries d hd
  paths device := (Database.pathCount_le hver).trans (r.paths device)
  indexes i hi := (hidx i hi).elim (r.indexes i) id

/-- Keeping all three tables keeps them readable. -/
theorem same (r : Readable m db) (hsame : db.SameTransfers db') : Readable m db' := by
  refine r.shrink (fun v hv => ⟨v, ?_, rfl, rfl, rfl⟩) (fun d hd => ⟨d, ?_, rfl⟩) fun i hi => .inl ?_
  · rw [← hsame.directoryVersions]
    exact hv
  · rw [← hsame.deliveries]
    exact hd
  · rw [← hsame.directoryIndexes]
    exact hi

theorem enqueue {device : String} {delivery : Delivery} {createdAt : Nat}
    {directory : Option DirectoryVersion} (r : Readable m db)
    (hmeta : validateDeliveryMetadata delivery m = .ok ())
    (he : Database.Enqueued db db' device delivery createdAt directory) : Readable m db' := by
  obtain ⟨acknowledged, -, hdel⟩ := he.deliveries
  have hver := he.versions
  refine ⟨?_, ?_, ?_, ?_⟩
  · intro v hv
    rw [hver, List.mem_append] at hv
    rcases hv with hv | hv
    · exact r.versions v hv
    · cases directory with
      | none => simp at hv
      | some version =>
        simp only [Option.map_some, Option.toList_some, List.mem_singleton] at hv
        subst hv
        exact (he.version version rfl).1
  · intro d hd
    rw [hdel, List.mem_append, List.mem_singleton] at hd
    rcases hd with hd | rfl
    · exact r.deliveries d hd
    · exact validateDeliveryMetadata_row hmeta
  · intro device'
    cases directory with
    | none =>
      have : db'.pathCount device' = db.pathCount device' := by
        simp [Database.pathCount, hver]
      rw [this]
      exact r.paths device'
    | some version =>
      exact Database.pathCount_insert hver (he.version version rfl).2.2.1 (r.paths device')
  · rw [he.directoryIndexes]
    exact r.indexes

theorem publish {device : String} {update : InventoryUpdate} {inventory : Option Inventory}
    (r : Readable m db) (h : db.publishDirectory device update = .ok (inventory, db')) :
    Readable m db' := by
  have hstore := Database.publishDirectory_sameStore h
  refine r.shrink (fun v hv => ⟨v, by rw [← hstore.2]; exact hv, rfl, rfl, rfl⟩)
    (fun d hd => ⟨d, by rw [← hstore.1]; exact hd, rfl⟩) fun i hi => ?_
  simp only [Database.publishDirectory, bind_eq_ok] at h
  obtain ⟨_, -, _, hvalid, _, -, h⟩ := h
  split at h
  · cases Except.ok.inj h
    exact .inl hi
  · split at h
    · cases Except.ok.inj h
      exact .inl hi
    · split at h
      · contradiction
      · rename_i hins
        cases Except.ok.inj h
        rw [Table.rows_insert hins, List.mem_append, List.mem_singleton] at hi
        rcases hi with hi | rfl
        · exact .inl (Table.mem_delete.mp hi).1
        · exact .inr hvalid

theorem updateAcknowledged (r : Readable m db) (selected : DeliveryRow → Bool)
    (value : Option Nat → Option Nat) : Readable m (db.updateAcknowledged selected value) := by
  refine r.shrink (fun v hv => ⟨v, hv, rfl, rfl, rfl⟩) (fun d hd => ?_) fun i hi => .inl hi
  obtain ⟨e, he, rfl⟩ := Database.mem_updateAcknowledged.mp hd
  refine ⟨e, he, ?_⟩
  split <;> rfl

theorem acknowledge {device id sha256 : String} {now : Nat} (r : Readable m db) :
    Readable m (db.acknowledge device id sha256 now).2 := by
  unfold Database.acknowledge
  split
  · exact r
  · split
    · exact r
    · split
      · exact r
      · exact r.updateAcknowledged (fun d => d.deviceId == device && d.deliveryId == id)
          fun _ => some now

theorem ackDirectory {device : String} {ack : DirectoryAck} {now : Nat} (r : Readable m db)
    (h : db.ackDirectory device ack now = .ok (some db')) : Readable m db' := by
  simp only [Database.ackDirectory, bind_eq_ok] at h
  obtain ⟨_, -, _, -, h⟩ := h
  split at h
  · cases Option.some.inj (Except.ok.inj h)
    refine (r.updateAcknowledged (db.coveredDelivery device ack)
      fun acknowledged => acknowledged <|> some now).shrink (fun v hv => ?_)
      (fun d hd => ⟨d, hd, rfl⟩) fun i hi => .inl hi
    obtain ⟨w, hw, rfl⟩ := Database.mem_raiseConflict.mp hv
    refine ⟨w, hw, ?_⟩
    split <;> exact ⟨rfl, rfl, rfl⟩
  · cases Except.ok.inj h

theorem removeFolder (r : Readable m db) (id : String) : Readable m (db.removeFolder id) := by
  refine r.shrink (fun v hv => ?_) (fun d hd => ?_) fun i hi => ?_
  · exact ⟨v, (Table.mem_delete.mp hv).1, rfl, rfl, rfl⟩
  · exact ⟨d, (Table.mem_delete.mp hd).1, rfl⟩
  · exact .inl (Table.mem_delete.mp hi).1

theorem initial (m : Nat) : Readable m Database.initial := by
  refine ⟨?_, ?_, fun device => ?_, ?_⟩
  · intro v hv
    simp [Database.initial] at hv
  · intro d hd
    simp [Database.initial] at hd
  · simp [Database.pathCount, Database.initial]
  · intro i hi
    simp [Database.initial] at hi

/-- Every accepted transaction keeps the tables readable. -/
theorem step {d d' : Desk} {a : Transaction} (r : Readable m d.db)
    (hstep : d.perform m a = some d') : Readable m d'.db := by
  cases a with
  | enqueue device delivery createdAt directory now =>
    have h := Desk.commit_eq_some hstep
    rw [toOption_eq_some, bind_eq_ok] at h
    obtain ⟨_, hvalid, h⟩ := h
    rcases Database.storeOnce_ok h with ⟨hsame, -⟩ | he
    · rw [hsame]
      exact r
    · simp only [validateEnqueue, bind_eq_ok] at hvalid
      obtain ⟨_, -, _, -, hmeta⟩ := hvalid
      exact r.enqueue hmeta he
  | admitAcknowledge device id =>
    simp only [Desk.perform] at hstep
    split at hstep
    · contradiction
    · cases Option.some.inj hstep
      exact r
  | acknowledge device id sha256 now =>
    simp only [Desk.perform] at hstep
    split at hstep
    · cases Option.some.inj hstep
      exact r.acknowledge
    · contradiction
  | ackDirectory device ack now =>
    have h := Desk.commit_eq_some hstep
    cases hr : d.db.ackDirectory device ack now with
    | error e =>
      rw [hr] at h
      contradiction
    | ok db =>
      simp only [hr, Except.toOption, Option.getD_some] at h
      rw [h] at hr
      exact r.ackDirectory hr
  | publish device update =>
    have h := Desk.commit_eq_some hstep
    rw [Option.bind_eq_some_iff] at h
    obtain ⟨⟨inventory, db⟩, hok, hp⟩ := h
    rw [toOption_eq_some] at hok
    cases inventory with
    | none => contradiction
    | some i =>
      cases hp
      exact r.publish hok
  | createFolder id name receiverHash inviteHash expires =>
    have h := Desk.commit_eq_some hstep
    rw [toOption_eq_some] at h
    exact r.same (Database.createFolder_transfers h)
  | claimFolder id inviteHash senderHash now =>
    simp only [Desk.perform, Desk.commit, Option.some.injEq] at hstep
    subst hstep
    exact r.same Database.claimFolder_transfers
  | disconnectFolder id hash =>
    simp only [Desk.perform, Desk.commit, Option.some.injEq] at hstep
    subst hstep
    exact r.same Database.disconnectFolder_transfers
  | confirmFolder | renewFolder =>
    simp only [Desk.perform, Desk.commit, Option.some.injEq] at hstep
    subst hstep
    exact r.same ⟨rfl, rfl, rfl, rfl⟩
  | beginExit id credential =>
    have h := Desk.commit_eq_some hstep
    cases hr : d.db.beginExit id credential with
    | error e =>
      rw [hr] at h
      contradiction
    | ok db =>
      simp only [hr, Except.toOption, Option.getD_some] at h
      rw [h] at hr
      exact r.same (Database.beginExit_transfers hr)
  | removeFolder id =>
    simp only [Desk.perform] at hstep
    split at hstep
    · simp only [Desk.commit, Option.some.injEq] at hstep
      subst hstep
      exact r.removeFolder id
    · contradiction
  | receiveExit id hash role =>
    exact r.same (Database.receiveExit_transfers (Desk.commit_eq_some hstep))

/-- Every history leaves the tables readable. -/
theorem run {allowed : Desk → Transaction → Prop} {h : List Transaction} {d : Desk}
    (hrun : Steps (Desk.perform m) allowed Desk.initial h d) : Readable m d.db :=
  hrun.invariant (I := fun _ d => Readable m d.db) (initial m)
    fun _ _ _ _ r _ hstep => r.step hstep

/-- There are never more reported entries than a directory state may list. -/
theorem length_latestEntries (r : Readable m db) (device : String) :
    (db.latestEntries device).length ≤ maxEntries := by
  refine le_trans ?_ (r.paths device)
  rw [← List.length_map (·.path), ← List.toFinset_card_of_nodup (db.latestEntries_nodup device),
    Database.pathCount_eq]
  apply Finset.card_le_card
  intro p hp
  simp only [List.mem_toFinset, List.mem_map, List.mem_filter, beq_iff_eq] at hp ⊢
  obtain ⟨e, he, rfl⟩ := hp
  obtain ⟨v, hv, hdev, -, hentry⟩ := Database.mem_latestEntries.mp he
  obtain ⟨_, -, rfl⟩ := Database.reportedEntry_eq_some.mp hentry
  exact ⟨v, ⟨hv, hdev⟩, rfl⟩

theorem length_reportedEntries (r : Readable m db) (device : String) :
    (db.reportedEntries device).length ≤ maxEntries := by
  rw [Database.reportedEntries, List.length_take, List.length_insertionSort]
  exact (Nat.min_le_right _ _).trans (r.length_latestEntries device)

/-- Every reported size is within the bound of the relay. -/
theorem size_le (r : Readable m db) {device : String} {e : DirectoryEntry}
    (he : e ∈ db.latestEntries device) : e.size ≤ m := by
  obtain ⟨v, -, -, -, hentry⟩ := Database.mem_latestEntries.mp he
  obtain ⟨d, hd, rfl⟩ := Database.reportedEntry_eq_some.mp hentry
  exact (validateDeliveryMetadata_ok (r.deliveries d (Database.deliveryOf_eq_some.mp hd).1)).2.1

/-- Every reported entry of a size that may be listed passes the checks of a directory state. -/
theorem entry_valid (r : Readable m db) {device : String} {e : DirectoryEntry}
    (he : e ∈ db.latestEntries device) (hlisted : e.size ≤ maxFile) : e.Valid := by
  obtain ⟨v, hv, -, -, hentry⟩ := Database.mem_latestEntries.mp he
  obtain ⟨d, hd, rfl⟩ := Database.reportedEntry_eq_some.mp hentry
  have hversion := r.versions v hv
  have hmeta := r.deliveries d (Database.deliveryOf_eq_some.mp hd).1
  simp only [validateDeliveryMetadata, bind_eq_ok, ensure_eq_ok] at hmeta
  obtain ⟨_, -, _, hid, _, -, _, -, _, hsize, _, -, _, hsha, hmedia⟩ := hmeta
  refine ⟨hversion, hid, ?_⟩
  simp only [validateDeliveryMetadata, bind_eq_ok, ensure_eq_ok]
  refine ⟨(), rfl, (), hid, (), rfl, (), ?_, (), hsize, (), ?_, (), hsha, hmedia⟩
  · exact validateSingleComponent_fileName (DirectoryVersion.validate_ok hversion).1
  · rw [decide_eq_true_eq]
    exact hlisted

/-- When every size to report may be listed, the state is answered. -/
theorem directoryState_isOk (r : Readable m db) (device : String)
    (hlisted : ∀ e ∈ db.latestEntries device, e.size ≤ maxFile) :
    db.directoryState device = .ok
      { schemaVersion := directorySchemaVersion, receiver := db.index device
        entries := db.reportedEntries device } := by
  have hlength := r.length_reportedEntries device
  have hperm := Database.reportedEntries_perm hlength
  have hentries : validateReported [] (db.reportedEntries device) = .ok () :=
    validateReported_ok.mpr ⟨fun e he =>
        r.entry_valid (hperm.mem_iff.mp he) (hlisted e (hperm.mem_iff.mp he)),
      (hperm.map _).nodup_iff.mpr (db.latestEntries_nodup device), by simp⟩
  have hvalid : DirectoryState.validate { schemaVersion := directorySchemaVersion
                                          receiver := db.index device
                                          entries := db.reportedEntries device } = .ok () := by
    simp only [DirectoryState.validate, bind_eq_ok, ensure_eq_ok]
    refine ⟨(), by simp [hlength], (), ?_, hentries⟩
    cases hi : db.index device with
    | none => rfl
    | some inventory =>
      rw [Database.index, Option.map_eq_some_iff] at hi
      obtain ⟨row, hrow, rfl⟩ := hi
      exact r.indexes row (List.mem_of_find?_eq_some hrow)
  simp only [Database.directoryState, hvalid]

end Readable

end MiRelay
