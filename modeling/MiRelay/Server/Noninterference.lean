import MiRelay.Server.Erasure
import MiRelay.Server.ExitRows
import MiRelay.Server.Pending
import MiRelay.Server.Reads

/-!
# What a device can learn of the others

Two histories that leave a device the same rows may differ in everything else.
The tables answer its requests alike in both. The content of a pending delivery
is there in both; the object of an acknowledged one is there only as long as a
collector has left it, for another device with the same payload for instance.
-/

namespace MiRelay

namespace Database

variable {db db' : Database} {device : String}

/-- The deliveries of a device. -/
def ownDeliveries (db : Database) (device : String) : List DeliveryRow :=
  db.deliveries.rows.filter (·.deviceId == device)

/-- The directory versions of a device. -/
def ownVersions (db : Database) (device : String) : List VersionRow :=
  db.directoryVersions.rows.filter (·.deviceId == device)

/-- Everything that belongs to a device is the same. -/
structure AgreeOn (device : String) (db db' : Database) : Prop where
  deliveries : db'.ownDeliveries device = db.ownDeliveries device
  versions : db'.ownVersions device = db.ownVersions device
  index : db'.index device = db.index device
  folder : ∀ id, device = folderDevice id → db'.findFolder id = db.findFolder id

/-! ### The queries over the rows of one device -/

theorem findDelivery_own (id : String) :
    db.findDelivery device id = (db.ownDeliveries device).find? (·.deliveryId == id) := by
  rw [findDelivery, ownDeliveries, List.find?_filter]
  simp only [Bool.decide_and, Bool.decide_eq_true]

theorem isDirectoryDelivery_own (id : String) :
    db.isDirectoryDelivery device id = (db.ownVersions device).any (·.deliveryId == id) := by
  rw [isDirectoryDelivery, ownVersions, List.any_filter]

theorem pendingSnapshot_own : db.pendingSnapshot device =
    (((db.ownDeliveries device).filter (·.acknowledgedAtUnix.isNone)).map (·.sequence)).foldl
      max 0 := by
  rw [pendingSnapshot, ownDeliveries, List.filter_filter]
  simp only [Bool.and_comm]

theorem pendingUpTo_own (snapshot : Int) : db.pendingUpTo device snapshot =
    ((db.ownDeliveries device).filter fun row => row.acknowledgedAtUnix.isNone &&
      !((db.ownVersions device).any (·.deliveryId == row.deliveryId)) &&
        decide ((row.sequence : Int) ≤ snapshot)).insertionSort fun a b => a.sequence ≤ b.sequence := by
  rw [pendingUpTo, ownDeliveries, List.filter_filter]
  congr 1
  refine List.filter_congr fun row _ => ?_
  simp only [isOrdinaryPending]
  cases hdevice : row.deviceId == device with
  | false => simp
  | true =>
    rw [beq_iff_eq] at hdevice
    rw [hdevice, isDirectoryDelivery_own]
    simp

theorem stats_own : db.stats device = (do
    validateDeviceId device
    return ⟨((db.ownDeliveries device).filter (·.acknowledgedAtUnix.isNone)).length,
      ((db.ownDeliveries device).filter (·.acknowledgedAtUnix.isSome)).length⟩) := rfl

/-- A version of the device is the latest of its path among the versions of the device. -/
theorem isLatest_own {v : VersionRow} (hv : v.deviceId = device) : db.isLatest v =
    !(db.ownVersions device).any fun later => later.path == v.path && v.version < later.version := by
  rw [isLatest, ownVersions, List.any_filter, hv]
  simp only [Bool.and_assoc]

theorem reportedEntry_own {v : VersionRow} (hv : v.deviceId = device) : db.reportedEntry v =
    ((db.ownDeliveries device).find? (·.deliveryId == v.deliveryId)).map fun d =>
      { path := v.path, version := v.version, deliveryId := d.deliveryId, sha256 := d.sha256
        size := d.sizeBytes, mediaType := d.mediaType
        acknowledged := d.acknowledgedAtUnix.isSome, conflict := v.conflict } := by
  rw [reportedEntry, deliveryOf, ownDeliveries, List.find?_filter, hv]
  simp only [Bool.decide_and, Bool.decide_eq_true]

/-- What a device lists depends on its own rows. -/
theorem AgreeOn.latestEntries (h : AgreeOn device db db') :
    db'.latestEntries device = db.latestEntries device := by
  have hown : ∀ d : Database, d.latestEntries device =
      ((d.ownVersions device).filter d.isLatest).filterMap d.reportedEntry := fun d => by
    rw [Database.latestEntries, ownVersions, List.filter_filter]
    simp only [Bool.and_comm]
  have hdevice : ∀ v ∈ db.ownVersions device, v.deviceId = device := fun v hv =>
    beq_iff_eq.mp (List.mem_filter.mp hv).2
  rw [hown, hown, h.versions]
  have hlatest : (db.ownVersions device).filter db'.isLatest =
      (db.ownVersions device).filter db.isLatest := List.filter_congr fun v hv => by
    rw [isLatest_own (hdevice v hv), isLatest_own (hdevice v hv), h.versions]
  rw [hlatest]
  refine List.filterMap_congr fun v hv => ?_
  have hv := hdevice v (List.mem_filter.mp hv).1
  rw [reportedEntry_own hv, reportedEntry_own hv, h.deliveries]

theorem AgreeOn.directoryState (h : AgreeOn device db db') :
    db'.directoryState device = db.directoryState device := by
  simp only [Database.directoryState, reportedEntries, h.latestEntries, h.index]

theorem AgreeOn.getDelivery (h : AgreeOn device db db') (id : String) (maxFileSize : Nat) :
    db'.getDelivery device id maxFileSize = db.getDelivery device id maxFileSize := by
  simp only [Database.getDelivery, findDelivery_own, h.deliveries]

theorem AgreeOn.listPending (h : AgreeOn device db db') (maxFileSize : Nat) (afterSequence : Int)
    (snapshot : Option Int) (limit : Nat) :
    db'.listPending maxFileSize device afterSequence snapshot limit =
      db.listPending maxFileSize device afterSequence snapshot limit := by
  have hsnapshot : db'.snapshotFor device afterSequence snapshot =
      db.snapshotFor device afterSequence snapshot := by
    unfold snapshotFor
    rw [pendingSnapshot_own, pendingSnapshot_own, h.deliveries]
  simp only [Database.listPending, hsnapshot, pendingUpTo_own, h.deliveries, h.versions]

theorem AgreeOn.stats (h : AgreeOn device db db') : db'.stats device = db.stats device := by
  rw [stats_own, stats_own, h.deliveries]

/-- The role of a credential is found in the row of its folder. -/
theorem identity_congr {id : String} (h : db'.findFolder id = db.findFolder id) (maxFileSize : Nat)
    (hash : String) : db'.identity maxFileSize id hash = db.identity maxFileSize id hash := by
  simp only [identity, h]

end Database

/-- The list of a device depends on its own rows. -/
theorem listDeliveries_congr {db db' : Database} {device : String}
    (h : Database.AgreeOn device db db') (fromJson : List UInt8 → Option CursorV1)
    (maxFileSize limit : Nat) (cursor : Option String) :
    listDeliveries fromJson maxFileSize db' device limit cursor =
      listDeliveries fromJson maxFileSize db device limit cursor := by
  have hpage : db'.listPending maxFileSize device = db.listPending maxFileSize device := by
    funext afterSequence snapshot limit
    exact h.listPending maxFileSize afterSequence snapshot limit
  unfold listDeliveries
  rw [hpage]

section Authorization

variable {db db' : Database} {config : ApiConfig} {caller : Caller} {maxFileSize : Nat}

theorem authorizeTransfer_congr (h : Database.AgreeOn (caller.device config) db db')
    (role : String) : authorizeTransfer maxFileSize db' config role caller =
      authorizeTransfer maxFileSize db config role caller := by
  cases caller with
  | folder id hash =>
    simp only [authorizeTransfer, Database.identity_congr (h.folder id rfl)]
  | legacy hash => rfl

theorem authorizeDirectory_congr (h : Database.AgreeOn (caller.device config) db db') :
    authorizeDirectory maxFileSize db' caller = authorizeDirectory maxFileSize db caller := by
  cases caller with
  | folder id hash =>
    simp only [authorizeDirectory, Database.identity_congr (h.folder id rfl)]
  | legacy hash => rfl

/-- The identity of a folder that is not disconnected. -/
theorem identity_ok {id hash : String} {info : FolderHandshake}
    (h : db.identity maxFileSize id hash = .ok info)
    (hconnected : requireConnected info = .ok ()) :
    info.folderId = id ∧ ∃ row, db.findFolder id = some row ∧ row.disconnected = false := by
  simp only [Database.identity, bind_eq_ok] at h
  obtain ⟨_, -, h⟩ := h
  split at h
  · rename_i row hrow
    simp only [bind_eq_ok] at h
    obtain ⟨role, -, h⟩ := h
    cases Except.ok.inj h
    refine ⟨rfl, row, hrow, ?_⟩
    by_contra hdisconnected
    rw [Bool.not_eq_false] at hdisconnected
    simp [requireConnected, hdisconnected] at hconnected
  · contradiction

/-- An authorized caller asks for its own device, whose folder is connected. -/
theorem authorizeTransfer_ok {role device : String}
    (h : authorizeTransfer maxFileSize db config role caller = .ok device) :
    device = caller.device config ∧ ∀ id, device = folderDevice id →
      ∃ row, db.findFolder id = some row ∧ row.disconnected = false := by
  cases caller with
  | folder id hash =>
    simp only [authorizeTransfer, bind_eq_ok] at h
    obtain ⟨info, hinfo, _, hconnected, h⟩ := h
    obtain ⟨hid, row, hrow, hopen⟩ := identity_ok hinfo hconnected
    split at h
    · contradiction
    · split at h
      · contradiction
      · obtain rfl := Except.ok.inj h
        refine ⟨by rw [hid]; rfl, fun id' hid' => ⟨row, ?_, hopen⟩⟩
        have heq : info.folderId = id' := by
          have hlead := congrArg (stripLead "folder_") hid'
          rwa [stripLead_folderDevice, stripLead_folderDevice, Option.some.injEq] at hlead
        rw [← heq, hid]
        exact hrow
  | legacy hash =>
    simp only [authorizeTransfer] at h
    split at h
    · obtain rfl := Except.ok.inj h
      refine ⟨rfl, fun id hid => ?_⟩
      have hfolder := config.unscoped
      rw [isFolderDevice, hid, stripLead_folderDevice] at hfolder
      contradiction
    · contradiction

theorem authorizeDirectory_ok (config : ApiConfig) {device : String}
    (h : authorizeDirectory maxFileSize db caller = .ok device) :
    device = caller.device config := by
  cases caller with
  | folder id hash =>
    simp only [authorizeDirectory, bind_eq_ok] at h
    obtain ⟨info, hinfo, _, hconnected, h⟩ := h
    split at h
    · contradiction
    · obtain rfl := Except.ok.inj h
      rw [(identity_ok hinfo hconnected).1]
      rfl
  | legacy hash => contradiction

end Authorization

/-! ### What every run knows of the content -/

/-- The object of a delivery is there. -/
def Relay.HasObject (s : Relay) (row : DeliveryRow) : Prop :=
  ∃ name bytes, row.object = some name ∧ s.library.objects.lookup name = some bytes

namespace Database

/-- The folder of an exit that has begun is disconnected. -/
def Revoked (db : Database) : Prop :=
  ∀ id, db.exiting id = true → ∃ row, db.findFolder id = some row ∧ row.disconnected = true

theorem Revoked.of_seat {db db' : Database} (h : db.Revoked) (hseat : ∀ id, SeatKept id db db') :
    db'.Revoked := by
  intro id hid
  obtain ⟨e', he'⟩ := exiting_iff.mp hid
  cases he : db.exitOf id with
  | none =>
    obtain ⟨-, -, row, hrow, hdisconnected, -⟩ := (hseat id).begun he e' he'
    exact ⟨row, hrow, hdisconnected⟩
  | some e =>
    obtain ⟨row, hrow, hdisconnected⟩ := h id (exiting_iff.mpr ⟨e, he⟩)
    obtain ⟨row', hrow', hlater⟩ := (hseat id).folder row hrow
    exact ⟨row', hrow', (hlater.disconnected hdisconnected).1⟩

theorem Revoked.perform {m : Nat} {d d' : Desk} {t : Transaction} (h : d.db.Revoked)
    (hstep : d.perform m t = some d') : d'.db.Revoked := by
  by_cases hreceipt : ∃ id, t.isReceipt id = true
  · -- A receipt begins no exit and leaves the folders.
    obtain ⟨id, hid⟩ := hreceipt
    cases t with
    | receiveExit id' hash role =>
      have hdb := Desk.commit_eq_some hstep
      unfold receiveExit at hdb
      split at hdb
      · intro f hf
        rw [← Option.some.inj hdb] at hf ⊢
        refine h f ?_
        obtain ⟨e, he⟩ := exiting_iff.mp hf
        rw [exitOf_updateExits] at he
        obtain ⟨e', he', -⟩ := Option.map_eq_some_iff.mp he
        exact exiting_iff.mpr ⟨e', he'⟩
      · contradiction
    | _ => exact absurd hid Bool.false_ne_true
  · refine h.of_seat fun id => Desk.perform_seat hstep ?_
    by_contra hid
    exact hreceipt ⟨id, Bool.of_not_eq_false hid⟩

end Database

namespace ServerStore

open Relay

variable {store : ServerStore} {sha256 : Bytes → String} {s : Relay}

/-- What the rows and the objects say of the payloads stored so far. -/
structure Known (sha256 : Bytes → String) (m : List Event) (s : Relay) : Prop where
  objects : ∀ name bytes, s.library.objects.lookup name = some bytes →
    bytes ∈ persisted m ∧ sha256 bytes = name.sha256
  rows : ∀ d ∈ s.db.deliveries.rows, ∃ bytes ∈ persisted m, sha256 bytes = d.sha256 ∧
    bytes.length = d.sizeBytes
  pending : s.PendingKept sha256
  revoked : s.db.Revoked

theorem mem_persisted_left {l m : List Event} {bytes : Bytes} (h : bytes ∈ persisted l) :
    bytes ∈ persisted (l ++ m) := by
  rw [persisted, List.filterMap_append]
  exact List.mem_append_left _ h

theorem mem_persisted_right {l m : List Event} {bytes : Bytes} (h : bytes ∈ persisted m) :
    bytes ∈ persisted (l ++ m) := by
  rw [persisted, List.filterMap_append]
  exact List.mem_append_right _ h

theorem CollisionFree.of_append_right {l m : List Event} (h : CollisionFree sha256 (l ++ m)) :
    CollisionFree sha256 m :=
  fun a ha b hb => h a (mem_persisted_right ha) b (mem_persisted_right hb)

/-- Every permitted event keeps the folders of exits disconnected. -/
theorem revoked_step {e : Event} (h : s.db.Revoked) (hp : Permitted store sha256 s e) :
    (apply store sha256 s e).db.Revoked := by
  cases e with
  | transaction t =>
    cases hstep : s.desk.perform store.maxFileSize t with
    | none =>
      simp only [Relay.db, apply, hstep, Option.getD_none]
      exact h
    | some d =>
      simp only [Relay.db, apply, hstep, Option.getD_some]
      exact h.perform hstep
  | insertDelivery origin device delivery createdAt directory now =>
    obtain ⟨db, hdb⟩ := hp.accepted
    have he := Database.enqueue_ok hdb
    rw [apply_insertDelivery store sha256 hdb]
    exact h.of_seat fun id => .of_same he.folders he.folderExits
  | removeFolder id =>
    have hexiting : s.db.exiting id = true := hp.1
    have hstep : s.desk.perform store.maxFileSize (.removeFolder id) =
        some { s.desk with db := s.db.removeFolder id } := by
      simp only [Desk.perform, hexiting, if_true, Desk.commit]
    exact h.perform hstep
  | _ => exact h

theorem Known.step {m : List Event} {e : Event} (h : Known sha256 m s)
    (hp : Permitted store sha256 s e) :
    Known sha256 (m ++ [e]) (apply store sha256 s e) := by
  have hpending := pendingKept_step h.pending hp
  have hrevoked := revoked_step h.revoked hp
  have hkeptRows : ∀ d ∈ s.db.deliveries.rows, ∃ bytes ∈ persisted (m ++ [e]),
      sha256 bytes = d.sha256 ∧ bytes.length = d.sizeBytes := fun d hd => by
    obtain ⟨bytes, hbytes, hrest⟩ := h.rows d hd
    exact ⟨bytes, mem_persisted_left hbytes, hrest⟩
  have hkeptObjects : ∀ name bytes, s.library.objects.lookup name = some bytes →
      bytes ∈ persisted (m ++ [e]) ∧ sha256 bytes = name.sha256 := fun name bytes hl =>
    ⟨mem_persisted_left (h.objects name bytes hl).1, (h.objects name bytes hl).2⟩
  cases e with
  | transaction t =>
    have hsame := sameContent_transaction store sha256 s hp
    refine ⟨fun name bytes hl => ?_, fun d hd => ?_, hpending, hrevoked⟩
    · rw [hsame.library] at hl
      exact hkeptObjects name bytes hl
    · obtain ⟨a, ha, -⟩ := hsame.db.rows d hd
      obtain ⟨bytes, hbytes, hrest⟩ := hkeptRows _ ha
      exact ⟨bytes, hbytes, hrest⟩
  | persist device bytes =>
    refine ⟨fun name b hl => ?_, hkeptRows, hpending, hrevoked⟩
    rw [apply, Files.lookup_insert] at hl
    split at hl
    · rename_i hname
      obtain rfl := Option.some.inj hl
      rw [hname]
      exact ⟨mem_persisted_append.mpr (.inr ⟨device, rfl⟩), rfl⟩
    · exact hkeptObjects name b hl
  | insertDelivery origin device delivery createdAt directory now =>
    obtain ⟨db, hdb⟩ := hp.accepted
    obtain ⟨acknowledged, -, hrows⟩ := (Database.enqueue_ok hdb).deliveries
    rw [apply_insertDelivery store sha256 hdb] at hpending hrevoked ⊢
    refine ⟨hkeptObjects, fun d hd => ?_, hpending, hrevoked⟩
    rw [db_withDb, hrows, List.mem_append, List.mem_singleton] at hd
    rcases hd with hd | rfl
    · exact hkeptRows d hd
    · obtain ⟨bytes, hl, hsize, hsha, -⟩ := hp.stored
      exact ⟨bytes, (hkeptObjects _ _ hl).1, hsha.symm, hsize.symm⟩
  | collect name | erase f name =>
    refine ⟨fun n bytes hl => ?_, hkeptRows, hpending, hrevoked⟩
    rw [apply, Files.lookup_erase] at hl
    split at hl
    · contradiction
    · exact hkeptObjects n bytes hl
  | removeFolder f =>
    exact ⟨hkeptObjects, fun d hd => hkeptRows d (Table.mem_delete.mp hd).1, hpending, hrevoked⟩
  | _ => exact ⟨hkeptObjects, hkeptRows, hpending, hrevoked⟩

theorem known_run (l : List Action) :
    Known sha256 (store.trace sha256 Relay.initial l) (store.run sha256 Relay.initial l) := by
  have hinitial : Known sha256 [] Relay.initial :=
    ⟨fun name bytes hl => by simp [Relay.initial] at hl,
      fun d hd => by simp [Relay.initial, Desk.initial, Database.initial] at hd,
      fun d hd => by simp [Relay.initial, Desk.initial, Database.initial] at hd,
      fun id hid => by simp [Relay.initial, Desk.initial, Database.initial, Database.exiting] at hid⟩
  exact (trace_permitted Relay.initial l).history hinitial fun _ _ _ h hp => h.step hp

/-! ### The downloads -/

/-- A download of an acknowledged delivery that passes all checks, while its object is there in one
of two states only. -/
def Telling (store : ServerStore) (config : ApiConfig) (s t : Relay) (caller : Caller) :
    RelayRead → Prop
  | .content id ifMatch => ∃ row,
      authorizeTransfer store.maxFileSize s.db config "receiver" caller =
        .ok (caller.device config) ∧
      validateDeliveryId id = .ok () ∧
      s.db.getDelivery (caller.device config) id store.maxFileSize = .ok (some row) ∧
      ifMatch = [row.etag] ∧ row.acknowledgedAtUnix.isSome = true ∧
      ¬(s.HasObject row ↔ t.HasObject row)
  | _ => False

/-- A delivery that was looked up is a valid row of the device. -/
theorem getDelivery_some {db : Database} {device id : String} {row : DeliveryRow} {m : Nat}
    (h : db.getDelivery device id m = .ok (some row)) :
    row ∈ db.ownDeliveries device ∧ validateDeliveryMetadata row.delivery m = .ok () := by
  simp only [Database.getDelivery, Database.findDelivery_own, bind_eq_ok] at h
  obtain ⟨_, -, _, -, h⟩ := h
  split at h
  · cases Except.ok.inj h
  · rename_i found hfound
    simp only [bind_eq_ok] at h
    obtain ⟨_, hvalid, h⟩ := h
    cases Option.some.inj (Except.ok.inj h)
    exact ⟨List.mem_of_find?_eq_some hfound, hvalid⟩

variable {t : Relay} {row : DeliveryRow} {m m' : List Event} {name : ObjectName} {bytes : Bytes}

/-- An object that is there can be downloaded. -/
theorem Known.openContent_ok (h : Known sha256 m s) (hfree : CollisionFree sha256 m)
    (hrow : row ∈ s.db.deliveries.rows)
    (hvalid : validateDeliveryMetadata row.delivery store.maxFileSize = .ok ())
    (hname : row.object = some name) (hl : s.library.objects.lookup name = some bytes) :
    store.openContent s row = .ok bytes := by
  obtain ⟨stored, hstored, hsha, hsize⟩ := h.rows row hrow
  obtain ⟨hbytes, hdigest⟩ := h.objects name bytes hl
  have hnamed := (objectOf_eq_some.mp hname).1
  obtain rfl : stored = bytes := hfree stored hstored bytes hbytes
    (hsha.trans (hnamed.symm.trans hdigest.symm))
  simp [openContent, hvalid, hname, hl, hsize, ensure, bind, Except.bind, pure, Except.pure]

/-- Without the object the download fails. -/
theorem openContent_error (h : ¬s.HasObject row) : ∃ e, store.openContent s row = .error e := by
  cases hopen : store.openContent s row with
  | error e => exact ⟨e, rfl⟩
  | ok bytes =>
    refine absurd ?_ h
    simp only [openContent, bind_eq_ok] at hopen
    obtain ⟨_, -, hopen⟩ := hopen
    split at hopen
    · contradiction
    · rename_i name hname
      split at hopen
      · contradiction
      · rename_i found hfound
        exact ⟨name, found, hname, hfound⟩

/-- Where both states have the object or neither, the caller learns nothing. -/
theorem Known.openContent_congr (hs : Known sha256 m s) (ht : Known sha256 m' t)
    (hfree : CollisionFree sha256 (m ++ m')) (hrow : row ∈ s.db.deliveries.rows)
    (hrow' : row ∈ t.db.deliveries.rows)
    (hvalid : validateDeliveryMetadata row.delivery store.maxFileSize = .ok ())
    (hsame : s.HasObject row ↔ t.HasObject row) :
    runStore (store.openContent t row) = runStore (store.openContent s row) := by
  have hleft : CollisionFree sha256 m := hfree.of_append
  have hright : CollisionFree sha256 m' := CollisionFree.of_append_right hfree
  by_cases hobject : s.HasObject row
  · obtain ⟨name', bytes', hname', hl'⟩ := hsame.mp hobject
    obtain ⟨name, bytes, hname, hl⟩ := hobject
    cases Option.some.inj (hname.symm.trans hname')
    have hs' := hs.objects _ _ hl
    have ht' := ht.objects _ _ hl'
    obtain rfl : bytes = bytes' := hfree bytes (mem_persisted_left hs'.1) bytes'
      (mem_persisted_right ht'.1) (hs'.2.trans ht'.2.symm)
    rw [hs.openContent_ok hleft hrow hvalid hname hl, ht.openContent_ok hright hrow' hvalid hname hl']
  · obtain ⟨e, he⟩ := @openContent_error store s row hobject
    obtain ⟨e', he'⟩ := @openContent_error store t row fun h => hobject (hsame.mpr h)
    rw [he, he']
    rfl

/-- The object of a pending delivery that a caller may download is there. -/
theorem Known.hasObject {config : ApiConfig} {caller : Caller} {role device : String}
    (h : Known sha256 m s)
    (hauthorized : authorizeTransfer store.maxFileSize s.db config role caller = .ok device)
    (hrow : row ∈ s.db.ownDeliveries device) (hnone : row.acknowledgedAtUnix = none) :
    s.HasObject row := by
  obtain ⟨hmem, hdevice⟩ := List.mem_filter.mp hrow
  rw [beq_iff_eq] at hdevice
  have hopen : ∀ id, row.deviceId = folderDevice id → s.db.exiting id = false := fun id hid => by
    rw [hdevice] at hid
    obtain ⟨folder, hfolder, hconnected⟩ := (authorizeTransfer_ok hauthorized).2 id hid
    by_contra hexiting
    obtain ⟨folder', hfolder', hdisconnected⟩ := h.revoked id (Bool.of_not_eq_false hexiting)
    cases Option.some.inj (hfolder.symm.trans hfolder')
    rw [hconnected] at hdisconnected
    contradiction
  obtain ⟨name, bytes, hname, hl, -⟩ := h.pending row hmem hnone hopen
  exact ⟨name, bytes, hname, hl⟩

/-- What is downloaded alike is there alike. -/
theorem hasObject_iff_of_same (hs : Known sha256 m s) (ht : Known sha256 m' t)
    (hfree : CollisionFree sha256 (m ++ m')) (hrow : row ∈ s.db.deliveries.rows)
    (hrow' : row ∈ t.db.deliveries.rows)
    (hvalid : validateDeliveryMetadata row.delivery store.maxFileSize = .ok ())
    {respond : Bytes → ContentResponse}
    (hsame : (runStore (store.openContent t row)).map respond =
      (runStore (store.openContent s row)).map respond) : s.HasObject row ↔ t.HasObject row := by
  have hok : ∀ {u : Relay} {m : List Event}, Known sha256 m u → CollisionFree sha256 m →
      row ∈ u.db.deliveries.rows →
      (u.HasObject row ↔ ((runStore (store.openContent u row)).map respond).toOption.isSome = true) := by
    intro u m hu hfree hrow
    constructor
    · rintro ⟨name, bytes, hname, hl⟩
      rw [hu.openContent_ok hfree hrow hvalid hname hl]
      rfl
    · intro hsome
      by_contra hobject
      obtain ⟨e, he⟩ := @openContent_error store u row hobject
      rw [he] at hsome
      contradiction
  rw [hok hs hfree.of_append hrow, hok ht (CollisionFree.of_append_right hfree) hrow', hsame]

/-- The answers of two downloads are the same when the downloads are. -/
theorem content_answer_inj {x y : Except ApiError ContentResponse} :
    ((do return RelayAnswer.content (← x) : Except ApiError RelayAnswer) =
      do return RelayAnswer.content (← y)) ↔ x = y := by
  constructor
  · intro h
    cases x with
    | error e =>
      cases y with
      | error e' =>
        cases Except.error.inj h
        rfl
      | ok b => cases h
    | ok a =>
      cases y with
      | error e' => cases h
      | ok b =>
        cases RelayAnswer.content.inj (Except.ok.inj h)
        rfl
  · rintro rfl
    rfl

/-- The outcome of a download whose content opens alike. -/
theorem downloadContent_congr {device id : String} {ifMatch : List String}
    (hget : t.db.getDelivery device id store.maxFileSize =
      s.db.getDelivery device id store.maxFileSize)
    (hopen : ∀ row, s.db.getDelivery device id store.maxFileSize = .ok (some row) →
      validateDeliveryId id = .ok () → ifMatch = [row.etag] →
        runStore (store.openContent t row) = runStore (store.openContent s row)) :
    store.downloadContent t device id ifMatch = store.downloadContent s device id ifMatch := by
  unfold downloadContent
  cases hid : validateDeliveryId id with
  | error e => rfl
  | ok u =>
    dsimp only
    split
    · rename_i supplied
      rw [hget]
      cases hfound : s.db.getDelivery device id store.maxFileSize with
      | error e => rfl
      | ok found =>
        cases found with
        | none => rfl
        | some row =>
          by_cases hetag : supplied = row.etag
          · have hsame := hopen row hfound hid (by rw [hetag])
            simp only [runStore, bind, Except.bind, hetag, ne_eq, not_true_eq_false, if_false] at hsame ⊢
            rw [hsame]
          · simp only [runStore, bind, Except.bind, ne_eq, hetag, not_false_eq_true, if_true]
    · rfl

/-- A download that passes all checks answers with the content. -/
theorem downloadContent_matched {device id : String} (hid : validateDeliveryId id = .ok ())
    (hget : s.db.getDelivery device id store.maxFileSize = .ok (some row)) :
    store.downloadContent s device id [row.etag] =
      (runStore (store.openContent s row)).map fun body =>
        ⟨row.mediaType, row.sizeBytes, row.etag, body⟩ := by
  unfold downloadContent
  rw [hid, hget]
  cases hopen : store.openContent s row with
  | error e => simp [runStore, bind, Except.bind, Except.map, hopen]
  | ok body => simp [runStore, bind, Except.bind, Except.map, pure, Except.pure, hopen]

/-- Of two runs that agree on everything of a device, each of its reads has the same outcome,
unless it is a download of an acknowledged delivery whose object is left in one of them only. -/
theorem reads_same_iff {store : ServerStore} {sha256 : Bytes → String} {config : ApiConfig}
    {fromJson : List UInt8 → Option CursorV1} {l l' : List Action} {caller : Caller}
    (hfree : CollisionFree sha256
      (store.trace sha256 Relay.initial l ++ store.trace sha256 Relay.initial l'))
    (hagree : Database.AgreeOn (caller.device config) (store.run sha256 Relay.initial l).db
      (store.run sha256 Relay.initial l').db) (request : RelayRead) :
    store.read fromJson config (store.run sha256 Relay.initial l') caller request =
        store.read fromJson config (store.run sha256 Relay.initial l) caller request ↔
      ¬Telling store config (store.run sha256 Relay.initial l) (store.run sha256 Relay.initial l')
        caller request := by
  have hs := @known_run store sha256 l
  have ht := @known_run store sha256 l'
  obtain ⟨s, hsdef⟩ : ∃ s, s = store.run sha256 Relay.initial l := ⟨_, rfl⟩
  obtain ⟨t, htdef⟩ : ∃ t, t = store.run sha256 Relay.initial l' := ⟨_, rfl⟩
  rw [← hsdef] at hs hagree ⊢
  rw [← htdef] at ht hagree ⊢
  have hauthorize := @authorizeTransfer_congr _ _ config caller store.maxFileSize hagree "receiver"
  cases request with
  | deliveries limit cursor =>
    refine iff_of_true ?_ not_false
    simp only [read, hauthorize]
    cases hdevice : authorizeTransfer store.maxFileSize s.db config "receiver" caller with
    | error e => rfl
    | ok device =>
      obtain ⟨rfl, -⟩ := authorizeTransfer_ok hdevice
      have hsame := listDeliveries_congr hagree fromJson store.maxFileSize limit cursor
      exact congrArg (fun r => do return RelayAnswer.deliveries (← r)) hsame
  | directory =>
    refine iff_of_true ?_ not_false
    simp only [read, authorizeDirectory_congr hagree]
    cases hdevice : authorizeDirectory store.maxFileSize s.db caller with
    | error e => rfl
    | ok device =>
      rw [authorizeDirectory_ok config hdevice]
      exact congrArg (fun r => do return RelayAnswer.directory (← runStore r)) hagree.directoryState
  | lookup id =>
    refine iff_of_true ?_ not_false
    simp only [read, hagree.getDelivery]
  | stats =>
    refine iff_of_true ?_ not_false
    simp only [read, hagree.stats]
  | content id ifMatch =>
    cases hdevice : authorizeTransfer store.maxFileSize s.db config "receiver" caller with
    | error e =>
      refine iff_of_true ?_ ?_
      · simp only [read, hauthorize, hdevice]
        rfl
      · rintro ⟨row, hok, -⟩
        rw [hdevice] at hok
        contradiction
    | ok device =>
      obtain ⟨rfl, -⟩ := authorizeTransfer_ok hdevice
      have hdevice' : authorizeTransfer store.maxFileSize t.db config "receiver" caller =
          .ok (caller.device config) := hauthorize.trans hdevice
      have hget := hagree.getDelivery id store.maxFileSize
      have hread : (store.read fromJson config t caller (.content id ifMatch) =
            store.read fromJson config s caller (.content id ifMatch)) ↔
          store.downloadContent t (caller.device config) id ifMatch =
            store.downloadContent s (caller.device config) id ifMatch := by
        simp only [read, hdevice, hdevice']
        exact content_answer_inj
      rw [hread]
      have hin : ∀ row, s.db.getDelivery (caller.device config) id store.maxFileSize =
          .ok (some row) → row ∈ s.db.deliveries.rows ∧ row ∈ t.db.deliveries.rows ∧
            validateDeliveryMetadata row.delivery store.maxFileSize = .ok () := fun row hfound => by
        obtain ⟨hrow, hvalid⟩ := getDelivery_some hfound
        have hrow' := hrow
        rw [← hagree.deliveries] at hrow'
        exact ⟨(List.mem_filter.mp hrow).1, (List.mem_filter.mp hrow').1, hvalid⟩
      constructor
      · rintro hsame ⟨row, -, hid, hfound, rfl, -, hdiffer⟩
        obtain ⟨hrow, hrow', hvalid⟩ := hin row hfound
        rw [downloadContent_matched hid hfound, downloadContent_matched hid (hget.trans hfound)]
          at hsame
        exact hdiffer (hasObject_iff_of_same hs ht hfree hrow hrow' hvalid hsame)
      · intro htelling
        refine downloadContent_congr hget fun row hfound hid hetag => ?_
        obtain ⟨hrow, hrow', hvalid⟩ := hin row hfound
        refine hs.openContent_congr ht hfree hrow hrow' hvalid ?_
        by_contra hdiffer
        refine htelling ⟨row, hdevice, hid, hfound, hetag, ?_, hdiffer⟩
        -- The object of a pending delivery would be there in both.
        rw [← Option.ne_none_iff_isSome]
        intro hnone
        have hown := (getDelivery_some hfound).1
        refine hdiffer (iff_of_true (hs.hasObject hdevice hown hnone)
          (ht.hasObject hdevice' ?_ hnone))
        rw [hagree.deliveries]
        exact hown

/-- The caller of the examples: the receiver of a paired folder. -/
def notesReceiver : Caller := .folder "00000000-0000-4000-8000-000000000001" "r1"

def sampleConfig : ApiConfig := ⟨"linux", by decide, "h1"⟩

/-- A folder is paired and gets a payload. -/
def notesPaired : List Action :=
  [.outside (.transaction (.createFolder "00000000-0000-4000-8000-000000000001" "Notes" "r1" "i1" 900)),
    .outside (.transaction (.claimFolder "00000000-0000-4000-8000-000000000001" "i1" "s1" 10)),
    .outside (.transaction (.confirmFolder "00000000-0000-4000-8000-000000000001" "s1")),
    .outside (.content (.enqueue "folder_00000000-0000-4000-8000-000000000001" [104, 105] [104, 105]
      "note.txt" "00000000-0000-4000-8000-0000000000a1" 10 10) [] none)]

/-- Another folder gets the same payload. -/
def othersPayload : List Action :=
  [.outside (.transaction (.createFolder "00000000-0000-4000-8000-000000000002" "Others" "r2" "i2" 900)),
    .outside (.content (.enqueue "folder_00000000-0000-4000-8000-000000000002" [104, 105] [104, 105]
      "copy.txt" "00000000-0000-4000-8000-0000000000a2" 11 11) [] none)]

/-- The first folder acknowledges its delivery, and the digest is collected. -/
def notesAcknowledged : List Action :=
  [.outside (.transaction (.admitAcknowledge "folder_00000000-0000-4000-8000-000000000001"
      "00000000-0000-4000-8000-0000000000a1")),
    .outside (.transaction (.acknowledge "folder_00000000-0000-4000-8000-000000000001"
      "00000000-0000-4000-8000-0000000000a1" (sampleDigest [104, 105]) 20)),
    .outside (.content (.garbageCollect (sampleDigest [104, 105])) [] none)]

/-- The download of that delivery. -/
def notesDownload : RelayRead :=
  .content "00000000-0000-4000-8000-0000000000a1" ["\"sha256:" ++ sampleDigest [104, 105] ++ "\""]

/-- Two runs agree on what belongs to the first folder, and no payload but one was stored. -/
def comparable (l l' : List Action) : Bool :=
  let s := sampleStore.run sampleDigest Relay.initial l
  let t := sampleStore.run sampleDigest Relay.initial l'
  let device := notesReceiver.device sampleConfig
  decide (t.db.ownDeliveries device = s.db.ownDeliveries device) &&
    decide (t.db.ownVersions device = s.db.ownVersions device) &&
      decide (t.db.index device = s.db.index device) &&
        decide (t.db.findFolder "00000000-0000-4000-8000-000000000001" =
          s.db.findFolder "00000000-0000-4000-8000-000000000001") &&
  (persisted (sampleStore.trace sampleDigest Relay.initial l ++
    sampleStore.trace sampleDigest Relay.initial l')).all (· == [104, 105])

theorem agreeOn_of_comparable {l l' : List Action} (h : comparable l l' = true) :
    Database.AgreeOn (notesReceiver.device sampleConfig)
      (sampleStore.run sampleDigest Relay.initial l).db
      (sampleStore.run sampleDigest Relay.initial l').db := by
  simp only [comparable, Bool.and_eq_true, decide_eq_true_eq] at h
  obtain ⟨⟨⟨⟨hdeliveries, hversions⟩, hindex⟩, hfolder⟩, -⟩ := h
  refine ⟨hdeliveries, hversions, hindex, fun id hid => ?_⟩
  have hlead := congrArg (stripLead "folder_") hid
  rw [stripLead_folderDevice] at hlead
  change stripLead "folder_" (folderDevice _) = some id at hlead
  rw [stripLead_folderDevice] at hlead
  rw [← Option.some.inj hlead]
  exact hfolder

theorem collisionFree_of_comparable {l l' : List Action} (h : comparable l l' = true) :
    CollisionFree sampleDigest (sampleStore.trace sampleDigest Relay.initial l ++
      sampleStore.trace sampleDigest Relay.initial l') := by
  have hone := List.all_eq_true.mp (Bool.and_eq_true_iff.mp h).2
  intro a ha b hb _
  exact (beq_iff_eq.mp (hone a ha)).trans (beq_iff_eq.mp (hone b hb)).symm

/-- While its delivery is pending, the folder does not learn of the other one. -/
theorem reads_same_iff_pending :
    sampleStore.read (fun _ => none) sampleConfig
        (sampleStore.run sampleDigest Relay.initial (notesPaired ++ othersPayload)) notesReceiver
          notesDownload =
      sampleStore.read (fun _ => none) sampleConfig
        (sampleStore.run sampleDigest Relay.initial notesPaired) notesReceiver notesDownload := by
  have hchecked : (comparable notesPaired (notesPaired ++ othersPayload) &&
      !((sampleStore.run sampleDigest Relay.initial notesPaired).db.getDelivery
        (notesReceiver.device sampleConfig) "00000000-0000-4000-8000-0000000000a1"
        sampleStore.maxFileSize).toOption.join.any (·.acknowledgedAtUnix.isSome)) = true := by
    decide
  obtain ⟨hcomparable, hpending⟩ := Bool.and_eq_true_iff.mp hchecked
  refine (reads_same_iff (collisionFree_of_comparable hcomparable)
    (agreeOn_of_comparable hcomparable) notesDownload).mpr ?_
  rintro ⟨row, -, -, hfound, -, hacknowledged, -⟩
  rw [hfound, Bool.not_eq_true'] at hpending
  exact Bool.false_ne_true (hpending.symm.trans hacknowledged)

/-- The download of an acknowledged delivery tells whether another folder holds the same payload. -/
theorem acknowledged_download_tells : ¬∀ (store : ServerStore) (sha256 : Bytes → String)
    (config : ApiConfig) (fromJson : List UInt8 → Option CursorV1) (l l' : List Action)
    (caller : Caller),
    CollisionFree sha256
        (store.trace sha256 Relay.initial l ++ store.trace sha256 Relay.initial l') →
      Database.AgreeOn (caller.device config) (store.run sha256 Relay.initial l).db
          (store.run sha256 Relay.initial l').db →
        ∀ request, store.read fromJson config (store.run sha256 Relay.initial l') caller request =
          store.read fromJson config (store.run sha256 Relay.initial l) caller request := by
  intro hall
  have hchecked : (comparable (notesPaired ++ notesAcknowledged)
        (notesPaired ++ othersPayload ++ notesAcknowledged) &&
      (sampleStore.read (fun _ => none) sampleConfig (sampleStore.run sampleDigest Relay.initial
        (notesPaired ++ othersPayload ++ notesAcknowledged)) notesReceiver
          notesDownload).toOption.isSome &&
      !(sampleStore.read (fun _ => none) sampleConfig (sampleStore.run sampleDigest Relay.initial
        (notesPaired ++ notesAcknowledged)) notesReceiver notesDownload).toOption.isSome) = true := by
    decide
  simp only [Bool.and_eq_true, Bool.not_eq_true'] at hchecked
  obtain ⟨⟨hcomparable, hshared⟩, halone⟩ := hchecked
  have hsame := hall sampleStore sampleDigest sampleConfig (fun _ => none) _ _ notesReceiver
    (collisionFree_of_comparable hcomparable) (agreeOn_of_comparable hcomparable) notesDownload
  rw [hsame] at hshared
  exact Bool.false_ne_true (halone.symm.trans hshared)

end ServerStore

end MiRelay
