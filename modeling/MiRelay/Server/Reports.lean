import Mathlib
import MiRelay.Server.Readable

/-!
# What the directory state reports

For each path with a version the state reports the greatest one, with the
delivery it was inserted with. The report is therefore a function of the
accepted operations and independent of their order, an older version is never
offered after a later one, and two histories with the same operations agree.
-/

namespace MiRelay

/-- The entries name, for each inserted path, the greatest version with its delivery. -/
structure Reports (h : List Transaction) (device : String) (entries : List DirectoryEntry) :
    Prop where
  /-- No path is reported twice. -/
  nodup : (entries.map (·.path)).Nodup
  /-- Every path with a version is reported. -/
  complete : ∀ delivery version, Inserted h device delivery version →
    ∃ e ∈ entries, e.path = version.path
  /-- Only inserted versions are reported, as they were inserted. -/
  inserted : ∀ e ∈ entries, ∃ delivery, Inserted h device delivery ⟨e.path, e.version⟩ ∧
    e.deliveryId = delivery.id ∧ e.sha256 = delivery.sha256 ∧ e.size = delivery.size ∧
    e.mediaType = delivery.mediaType
  /-- No greater version of a reported path was inserted. -/
  greatest : ∀ e ∈ entries, ∀ delivery version, Inserted h device delivery version →
    version.path = e.path → version.version ≤ e.version
  acknowledged : ∀ e ∈ entries, e.acknowledged = true ↔ Covered h device e.path e.version
  conflict : ∀ e ∈ entries, e.conflict = true ↔ Flagged h device e.path e.version

theorem Reports.perm {h : List Transaction} {device : String} {l l' : List DirectoryEntry}
    (r : Reports h device l) (hp : l'.Perm l) : Reports h device l' where
  nodup := (hp.map _).nodup_iff.mpr r.nodup
  complete delivery version hi := by
    obtain ⟨e, he, hpath⟩ := r.complete delivery version hi
    exact ⟨e, hp.mem_iff.mpr he, hpath⟩
  inserted e he := r.inserted e (hp.mem_iff.mp he)
  greatest e he := r.greatest e (hp.mem_iff.mp he)
  acknowledged e he := r.acknowledged e (hp.mem_iff.mp he)
  conflict e he := r.conflict e (hp.mem_iff.mp he)

namespace Recorded

variable {h h' : List Transaction} {db db' : Database} {device : String}

/-- The latest rows report the history. -/
theorem reports (r : Recorded h db) (device : String) :
    Reports h device (db.latestEntries device) := by
  refine ⟨db.latestEntries_nodup device, ?_, ?_, ?_, ?_, ?_⟩
  · intro delivery version hi
    obtain ⟨⟨v, hv, -, hdev, hpath, -⟩, -⟩ := r.inserted device delivery version hi
    -- The path has a greatest stored version.
    obtain ⟨w, hw, hmax⟩ := (db.directoryVersions.rows.filter fun w =>
      w.deviceId == device && w.path == version.path).toFinset.exists_max_image (·.version)
        ⟨v, by simp [hv, hdev, hpath]⟩
    simp only [List.mem_toFinset, List.mem_filter, Bool.and_eq_true, beq_iff_eq] at hw hmax
    obtain ⟨hw, hwdev, hwpath⟩ := hw
    obtain ⟨older, -, hid, row, hrow, hholds⟩ := r.stored w hw
    have hof : db.deliveryOf w = some row :=
      Database.deliveryOf_eq_some.mpr ⟨hrow, hholds.1, hholds.2.1.trans hid⟩
    refine ⟨_, Database.mem_latestEntries.mpr ⟨w, hw, hwdev, ?_,
      Database.reportedEntry_eq_some.mpr ⟨row, hof, rfl⟩⟩, hwpath⟩
    rw [Database.isLatest_iff]
    intro u hu hudev hupath
    exact hmax u ⟨hu, hudev.trans hwdev, hupath.trans hwpath⟩
  all_goals
    intro e he
    obtain ⟨v, hv, hdev, hlatest, hentry⟩ := Database.mem_latestEntries.mp he
    obtain ⟨d, hd, rfl⟩ := Database.reportedEntry_eq_some.mp hentry
    obtain ⟨hd, hddev, hdid⟩ := Database.deliveryOf_eq_some.mp hd
  · obtain ⟨delivery, hi, hid, row, hrow, hh⟩ := r.stored v hv
    have : d = row := by
      apply db.deliveries.eq_of_clash DeliveryRow.clash_comm hd hrow
      simp [DeliveryRow.clash, hddev, hdid, hh.1, hh.2.1, hid]
    subst this
    rw [hdev] at hi
    exact ⟨delivery, hi, hh.2.1, hh.2.2.2.1, hh.2.2.1, hh.2.2.2.2⟩
  · intro delivery version hi hpath
    obtain ⟨⟨w, hw, -, hwdev, hwpath, hwversion⟩, -⟩ := r.inserted device delivery version hi
    rw [← hwversion]
    exact Database.isLatest_iff.mp hlatest w hw (hwdev.trans hdev.symm) (hwpath.trans hpath)
  · rw [← hdev, ← r.acknowledged v hv, Database.isAcknowledged_iff]
    constructor
    · intro hack
      exact ⟨d, hd, hddev, hdid, hack⟩
    · rintro ⟨d', hd', hd'dev, hd'id, hack⟩
      have : d = d' := by
        apply db.deliveries.eq_of_clash DeliveryRow.clash_comm hd hd'
        simp [DeliveryRow.clash, hddev, hdid, hd'dev, hd'id]
      rw [this]
      exact hack
  · rw [← hdev]
    exact r.flagged v hv

/-- The query answers exactly the latest rows, in path order. -/
theorem reportedEntries_reports {m : Nat} (r : Recorded h db) (hreadable : Readable m db)
    (device : String) : Reports h device (db.reportedEntries device) :=
  (r.reports device).perm (Database.reportedEntries_perm (hreadable.length_reportedEntries device))

end Recorded

/-- A directory insertion or receipt without the times it carries. -/
inductive DirectoryOp
  | insert (device : String) (delivery : Delivery) (version : DirectoryVersion)
  | acknowledge (device : String) (ack : DirectoryAck)
  deriving DecidableEq, Repr

/-- The directory operation of a transaction. -/
def Transaction.directoryOp : Transaction → Option DirectoryOp
  | .enqueue device delivery _ (some version) _ => some (.insert device delivery version)
  | .ackDirectory device ack _ => some (.acknowledge device ack)
  | _ => none

/-- The directory operations of a history in their order. -/
def directoryOps (h : List Transaction) : List DirectoryOp := h.filterMap Transaction.directoryOp

section Operations

variable {h h' : List Transaction} {device path : String} {version : Nat}

theorem inserted_iff {delivery : Delivery} {version : DirectoryVersion} :
    Inserted h device delivery version ↔
      DirectoryOp.insert device delivery version ∈ directoryOps h := by
  simp only [directoryOps, List.mem_filterMap]
  constructor
  · rintro ⟨createdAt, now, hmem⟩
    exact ⟨_, hmem, rfl⟩
  · rintro ⟨a, hmem, ha⟩
    unfold Transaction.directoryOp at ha
    split at ha
    · cases ha
      exact ⟨_, _, hmem⟩
    · cases ha
    · contradiction

theorem mem_acknowledge_iff {ack : DirectoryAck} :
    (∃ now, Transaction.ackDirectory device ack now ∈ h) ↔
      DirectoryOp.acknowledge device ack ∈ directoryOps h := by
  simp only [directoryOps, List.mem_filterMap]
  constructor
  · rintro ⟨now, hmem⟩
    exact ⟨_, hmem, rfl⟩
  · rintro ⟨a, hmem, ha⟩
    unfold Transaction.directoryOp at ha
    split at ha
    · cases ha
    · cases ha
      exact ⟨_, hmem⟩
    · contradiction

theorem covered_iff : Covered h device path version ↔
    ∃ ack, DirectoryOp.acknowledge device ack ∈ directoryOps h ∧ ack.path = path ∧
      version ≤ ack.version := by
  simp only [Covered, ← mem_acknowledge_iff, exists_and_right]

theorem flagged_iff : Flagged h device path version ↔
    ∃ ack, DirectoryOp.acknowledge device ack ∈ directoryOps h ∧ ack.path = path ∧
      ack.version = version ∧ ack.conflict = true := by
  simp only [Flagged, ← mem_acknowledge_iff, exists_and_right]

/-- What is reported depends only on which operations were accepted. -/
theorem Reports.congr {l : List DirectoryEntry} (r : Reports h device l)
    (hp : (directoryOps h).Perm (directoryOps h')) : Reports h' device l where
  nodup := r.nodup
  complete delivery version hi := r.complete delivery version
    (inserted_iff.mpr (hp.mem_iff.mpr (inserted_iff.mp hi)))
  inserted e he := by
    obtain ⟨delivery, hi, hrest⟩ := r.inserted e he
    exact ⟨delivery, inserted_iff.mpr (hp.mem_iff.mp (inserted_iff.mp hi)), hrest⟩
  greatest e he delivery version hi := r.greatest e he delivery version
    (inserted_iff.mpr (hp.mem_iff.mpr (inserted_iff.mp hi)))
  acknowledged e he := by
    rw [r.acknowledged e he, covered_iff, covered_iff]
    simp only [hp.mem_iff]
  conflict e he := by
    rw [r.conflict e he, flagged_iff, flagged_iff]
    simp only [hp.mem_iff]

end Operations

namespace Recorded

variable {h h' : List Transaction} {db db' : Database} {device : String}

/-- Two reports of one recorded history have the same entries. -/
theorem reports_subset (r : Recorded h db) {l l' : List DirectoryEntry}
    (hl : Reports h device l) (hl' : Reports h device l') : l ⊆ l' := by
  intro e he
  obtain ⟨delivery, hi, hid, hsha, hsize, hmedia⟩ := hl.inserted e he
  obtain ⟨e', he', hpath⟩ := hl'.complete delivery _ hi
  obtain ⟨delivery', hi', hid', hsha', hsize', hmedia'⟩ := hl'.inserted e' he'
  have hversion : e.version = e'.version := by
    apply le_antisymm
    · exact hl'.greatest e' he' delivery _ hi hpath.symm
    · exact hl.greatest e he delivery' _ hi' hpath
  -- One version has one delivery, and that is described by one row.
  obtain ⟨⟨v, hv, hvid, hvn⟩, row, hrow, hh⟩ := r.inserted device delivery _ hi
  obtain ⟨⟨w, hw, hwid, hwn⟩, row', hrow', hh'⟩ := r.inserted device delivery' _ hi'
  have hvw : v = w := Database.version_eq_of_names hv hw hvn
    ⟨hwn.1, hwn.2.1.trans hpath, hwn.2.2.trans hversion.symm⟩
  have hids : delivery.id = delivery'.id := by rw [← hvid, ← hwid, hvw]
  have hrows : row = row' := by
    apply db.deliveries.eq_of_clash DeliveryRow.clash_comm hrow hrow'
    simp [DeliveryRow.clash, hh.1, hh'.1, hh.2.1, hh'.2.1, hids]
  subst hrows
  obtain ⟨-, -, h1, h2, h3⟩ := hh
  obtain ⟨-, -, k1, k2, k3⟩ := hh'
  have hack : e.acknowledged = e'.acknowledged := by
    rw [Bool.eq_iff_iff, hl.acknowledged e he, hl'.acknowledged e' he', ← hversion, hpath]
  have hconflict : e.conflict = e'.conflict := by
    rw [Bool.eq_iff_iff, hl.conflict e he, hl'.conflict e' he', ← hversion, hpath]
  have : e = e' := by
    cases e
    cases e'
    simp only at *
    rw [DirectoryEntry.mk.injEq]
    exact ⟨hpath.symm, hversion, by rw [hid, hid', hids], by rw [hsha, hsha', ← h2, k2],
      by rw [hsize, hsize', ← h1, k1], by rw [hmedia, hmedia', ← h3, k3], hack, hconflict⟩
  rw [this]
  exact he'

/-- Histories with the same operations report the same entries. -/
theorem reportedEntries_congr (r : Recorded h db) (r' : Recorded h' db')
    (hp : (directoryOps h).Perm (directoryOps h')) (device : String) :
    db.reportedEntries device = db'.reportedEntries device := by
  have hl := r.reports device
  have hl' := (r'.reports device).congr hp.symm
  have hperm : (db.latestEntries device).Perm (db'.latestEntries device) :=
    (List.perm_ext_iff_of_nodup hl.nodup.of_map hl'.nodup.of_map).mpr fun e =>
      ⟨fun he => r.reports_subset hl hl' he, fun he => r.reports_subset hl' hl he⟩
  have : Std.Total fun a b : DirectoryEntry => a.path ≤ b.path :=
    ⟨fun a b => String.le_total a.path b.path⟩
  have : IsTrans DirectoryEntry fun a b => a.path ≤ b.path := ⟨fun _ _ _ => String.le_trans⟩
  rw [Database.reportedEntries, Database.reportedEntries]
  congr 1
  refine List.Perm.eq_of_pairwise ?_ (List.pairwise_insertionSort _ _)
    (List.pairwise_insertionSort _ _)
    ((List.perm_insertionSort _ _).trans (hperm.trans (List.perm_insertionSort _ _).symm))
  intro e e' he he' hle hge
  rw [List.mem_insertionSort] at he he'
  exact List.inj_on_of_nodup_map hl.nodup he (hperm.mem_iff.mpr he') (String.le_antisymm hle hge)

/-- Histories with the same operations store the same versions. -/
theorem stored_congr (r : Recorded h db) (r' : Recorded h' db')
    (hp : (directoryOps h).Perm (directoryOps h')) {v : VersionRow}
    (hv : v ∈ db.directoryVersions.rows) :
    ∃ w ∈ db'.directoryVersions.rows, w.Names v.deviceId v.path v.version := by
  obtain ⟨delivery, hi, -⟩ := r.stored v hv
  rw [inserted_iff, hp.mem_iff, ← inserted_iff] at hi
  obtain ⟨⟨w, hw, -, hnames⟩, -⟩ := r'.inserted _ _ _ hi
  exact ⟨w, hw, hnames⟩

/-- Histories with the same operations acknowledge the same versions. -/
theorem acknowledged_congr (r : Recorded h db) (r' : Recorded h' db')
    (hp : (directoryOps h).Perm (directoryOps h')) {path : String} {version : Nat} :
    (∃ v ∈ db.directoryVersions.rows, v.Names device path version ∧ db.isAcknowledged v = true) ↔
      ∃ v ∈ db'.directoryVersions.rows, v.Names device path version ∧
        db'.isAcknowledged v = true := by
  have hforth : ∀ {h h' : List Transaction} {db db' : Database}, Recorded h db → Recorded h' db' →
      (directoryOps h).Perm (directoryOps h') →
      (∃ v ∈ db.directoryVersions.rows, v.Names device path version ∧ db.isAcknowledged v = true) →
      ∃ v ∈ db'.directoryVersions.rows, v.Names device path version ∧
        db'.isAcknowledged v = true := by
    rintro h h' db db' r r' hp ⟨v, hv, ⟨rfl, rfl, rfl⟩, hack⟩
    obtain ⟨w, hw, hnames⟩ := r.stored_congr r' hp hv
    rw [r.acknowledged v hv, covered_iff] at hack
    simp only [hp.mem_iff] at hack
    refine ⟨w, hw, hnames, (r'.acknowledged w hw).mpr ?_⟩
    rw [covered_iff, hnames.1, hnames.2.1, hnames.2.2]
    exact hack
  exact ⟨hforth r r' hp, hforth r' r hp.symm⟩

/-- Histories with the same operations flag the same versions. -/
theorem flagged_congr (r : Recorded h db) (r' : Recorded h' db')
    (hp : (directoryOps h).Perm (directoryOps h')) {path : String} {version : Nat} :
    (∃ v ∈ db.directoryVersions.rows, v.Names device path version ∧ v.conflict = true) ↔
      ∃ v ∈ db'.directoryVersions.rows, v.Names device path version ∧ v.conflict = true := by
  have hforth : ∀ {h h' : List Transaction} {db db' : Database}, Recorded h db → Recorded h' db' →
      (directoryOps h).Perm (directoryOps h') →
      (∃ v ∈ db.directoryVersions.rows, v.Names device path version ∧ v.conflict = true) →
      ∃ v ∈ db'.directoryVersions.rows, v.Names device path version ∧ v.conflict = true := by
    rintro h h' db db' r r' hp ⟨v, hv, ⟨rfl, rfl, rfl⟩, hc⟩
    obtain ⟨w, hw, hnames⟩ := r.stored_congr r' hp hv
    rw [r.flagged v hv, flagged_iff] at hc
    simp only [hp.mem_iff] at hc
    refine ⟨w, hw, hnames, (r'.flagged w hw).mpr ?_⟩
    rw [flagged_iff, hnames.1, hnames.2.1, hnames.2.2]
    exact hc
  exact ⟨hforth r r' hp, hforth r' r hp.symm⟩

end Recorded

/-- In every run without a folder exit in which no ordinary acknowledgement is carried out on
a directory delivery: a version is acknowledged exactly when a receipt covers it, the state
reports exactly the greatest versions, none is ever followed by an older one, flags stay set,
and the order of the accepted operations does not matter. -/
theorem version_store_confluent {m : Nat} {h : List Transaction} {d : Desk}
    (hrun : Steps (Desk.perform m) Confined Desk.initial h d) :
    (∀ v ∈ d.db.directoryVersions.rows,
      d.db.isAcknowledged v = true ↔ Covered h v.deviceId v.path v.version) ∧
    (∀ device, Reports h device (d.db.reportedEntries device) ∧
      (∀ st, d.db.directoryState device = .ok st → st.entries = d.db.reportedEntries device) ∧
      (m ≤ maxFile → (d.db.directoryState device).isOk = true)) ∧
    (∀ l d', Steps (Desk.perform m) Confined d l d' → ∀ v ∈ d.db.directoryVersions.rows,
      (∃ w ∈ d'.db.directoryVersions.rows, w.Names v.deviceId v.path v.version ∧
        (v.conflict = true → w.conflict = true)) ∧
      ∀ e ∈ d'.db.reportedEntries v.deviceId, e.path = v.path → v.version ≤ e.version) ∧
    (∀ h' d', Steps (Desk.perform m) Confined Desk.initial h' d' →
      (directoryOps h).Perm (directoryOps h') →
      (∀ device path version,
        (∃ v ∈ d.db.directoryVersions.rows, v.Names device path version ∧
          d.db.isAcknowledged v = true) ↔
        ∃ v ∈ d'.db.directoryVersions.rows, v.Names device path version ∧
          d'.db.isAcknowledged v = true) ∧
      (∀ device path version,
        (∃ v ∈ d.db.directoryVersions.rows, v.Names device path version ∧ v.conflict = true) ↔
        ∃ v ∈ d'.db.directoryVersions.rows, v.Names device path version ∧ v.conflict = true) ∧
      ∀ device, d.db.reportedEntries device = d'.db.reportedEntries device) := by
  have r := Recorded.run hrun
  refine ⟨r.acknowledged, fun device => ⟨?_, ?_, ?_⟩, ?_, ?_⟩
  · exact r.reportedEntries_reports (Readable.run hrun) device
  · exact fun st hst => by rw [Database.directoryState_entries hst]
  · intro hm
    have hreadable := Readable.run hrun
    rw [hreadable.directoryState_isOk device fun e he => (hreadable.size_le he).trans hm]
    rfl
  · intro l d' hlater v hv
    have r' := Recorded.run (hrun.append hlater)
    obtain ⟨delivery, hi, -⟩ := r.stored v hv
    have hi' : Inserted (h ++ l) v.deviceId delivery ⟨v.path, v.version⟩ := by
      obtain ⟨createdAt, now, hmem⟩ := hi
      exact ⟨createdAt, now, List.mem_append_left _ hmem⟩
    obtain ⟨⟨w, hw, -, hnames⟩, -⟩ := r'.inserted _ _ _ hi'
    refine ⟨⟨w, hw, hnames, fun hc => ?_⟩, fun e he hpath => ?_⟩
    · obtain ⟨ack, now, hmem, hrest⟩ := (r.flagged v hv).mp hc
      refine (r'.flagged w hw).mpr ⟨ack, now, ?_, ?_⟩
      · rw [hnames.1]
        exact List.mem_append_left _ hmem
      · rw [hnames.2.1, hnames.2.2]
        exact hrest
    · have hreports := r'.reportedEntries_reports (Readable.run (hrun.append hlater)) v.deviceId
      exact hreports.greatest e he delivery _ hi' hpath.symm
  · intro h' d' hrun' hp
    have r' := Recorded.run hrun'
    exact ⟨fun device path version => r.acknowledged_congr r' hp,
      fun device path version => r.flagged_congr r' hp, r.reportedEntries_congr r' hp⟩

/-- A folder paired by its two parties, with the first inventory of its receiver published. -/
def pairedFolder : List Transaction :=
  [.createFolder "00000000-0000-4000-8000-000000000001" "Photos" "r1" "i1" 600,
    .claimFolder "00000000-0000-4000-8000-000000000001" "i1" "s1a2b3c4d5e6" 10,
    .confirmFolder "00000000-0000-4000-8000-000000000001" "s1a2b3c4d5e6",
    .publish "folder_00000000-0000-4000-8000-000000000001"
      { previousId := none
        inventory := { id := "00000000-0000-4000-8000-0000000000aa", entries := [] } }]

/-- The delivery of one version of a text file. -/
def noteDelivery (id sha256 : String) : Delivery where
  schemaVersion := manifestSchemaVersion
  id := id
  originalName := "note.txt"
  payload := ""
  size := 5
  sha256 := sha256
  mediaType := "text/plain"
  createdAtUnix := none

/-- The second version is received before the upload of the first one is complete. -/
def lateUpload : List Transaction :=
  pairedFolder ++
    [.enqueue "folder_00000000-0000-4000-8000-000000000001"
        (noteDelivery "00000000-0000-4000-8000-0000000000b2"
          "2222222222222222222222222222222222222222222222222222222222222222")
        20 (some ⟨"note.txt", 2⟩) 21,
      .ackDirectory "folder_00000000-0000-4000-8000-000000000001"
        ⟨"note.txt", 2, "2222222222222222222222222222222222222222222222222222222222222222", true⟩ 30,
      .enqueue "folder_00000000-0000-4000-8000-000000000001"
        (noteDelivery "00000000-0000-4000-8000-0000000000b1"
          "1111111111111111111111111111111111111111111111111111111111111111")
        15 (some ⟨"note.txt", 1⟩) 40]

/-- The late first version is acknowledged on arrival and the second one stays reported. -/
theorem version_store_confluent_lateUpload :
    ∃ d, Steps (Desk.perform maxFile) Confined Desk.initial lateUpload d ∧
      (∀ v ∈ d.db.directoryVersions.rows,
        d.db.isAcknowledged v = true ↔ Covered lateUpload v.deviceId v.path v.version) ∧
      d.db.directoryVersions.rows.length = 2 := by
  obtain ⟨d, hrun, hlength⟩ := Steps.exists_of_replay (Desk.perform maxFile) Desk.confined
    Desk.initial lateUpload (fun d => d.db.directoryVersions.rows.length == 2) (by decide)
  exact ⟨d, hrun, (version_store_confluent hrun).1, by simpa using hlength⟩

/-- The query of an ordinary acknowledgement precedes the insertion, its update follows. -/
def overtakenQuery : List Transaction :=
  pairedFolder ++
    [.admitAcknowledge "folder_00000000-0000-4000-8000-000000000001"
        "00000000-0000-4000-8000-0000000000b1",
      .enqueue "folder_00000000-0000-4000-8000-000000000001"
        (noteDelivery "00000000-0000-4000-8000-0000000000b1"
          "1111111111111111111111111111111111111111111111111111111111111111")
        15 (some ⟨"note.txt", 1⟩) 20,
      .acknowledge "folder_00000000-0000-4000-8000-000000000001"
        "00000000-0000-4000-8000-0000000000b1"
        "1111111111111111111111111111111111111111111111111111111111111111" 30]

/-- Without the condition a version is acknowledged that no receipt covers. -/
theorem overtakenQuery_acknowledges :
    ∃ d, Steps (Desk.perform maxFile) (fun d a => d.connected a = true) Desk.initial
        overtakenQuery d ∧
      ∃ v ∈ d.db.directoryVersions.rows, d.db.isAcknowledged v = true ∧
        ¬Covered overtakenQuery v.deviceId v.path v.version := by
  obtain ⟨d, hrun, hack⟩ := Steps.exists_of_replay (Desk.perform maxFile) Desk.connected
    Desk.initial overtakenQuery (fun d => d.db.directoryVersions.rows.any d.db.isAcknowledged)
    (by decide)
  obtain ⟨v, hv, hack⟩ := List.any_eq_true.mp hack
  refine ⟨d, hrun, v, hv, hack, ?_⟩
  rintro ⟨ack, now, hmem, -⟩
  simp [overtakenQuery, pairedFolder] at hmem

end MiRelay
