import MiRelay.Core.Interleaving
import MiRelay.Server.Pending
import MiRelay.Server.Erasure
import MiRelay.Client.Acknowledgements
import MiRelay.Client.Scan
import MiRelay.Client.Replays

/-!
# Between the relay and the receiver

The relay and the receiver of a device change their own durable state only, and
requests between them may be lost, late or repeated. A payload that the relay has
accepted is never in nobody's hands: as long as the relay has it pending it has
its content, and it is not pending only when the receiver has recorded it.
-/

namespace MiRelay

open ServerStore

/-! ### What acknowledges a delivery -/

/-- The event acknowledges the delivery, or inserts it below an acknowledged version. -/
def Event.Settles (db : Database) (d : DeliveryRow) : Event → Prop
  | .transaction (.acknowledge device id digest _) =>
    device = d.deviceId ∧ id = d.deliveryId ∧ digest = d.sha256
  | .transaction (.ackDirectory device ack _) =>
    db.ackMatches device ack = true ∧ db.coveredDelivery device ack d = true
  | .insertDelivery _ device delivery _ (some version) _ =>
    device = d.deviceId ∧ delivery.id = d.deliveryId ∧ db.superseded device version = true
  | _ => False

/-- The row of a delivery, whether acknowledged or not. -/
def Database.Keeps (db : Database) (d : DeliveryRow) : Prop :=
  ∃ a, { d with acknowledgedAtUnix := a } ∈ db.deliveries.rows

namespace ServerStore

open Relay

variable {store : ServerStore} {sha256 : Bytes → String} {s : Relay} {e : Event} {d : DeliveryRow}

/-- A row of the receipt's update. -/
theorem settled_of_ackDirectory {db db' : Database} {device : String} {ack : DirectoryAck} {now : Nat}
    (h : db.ackDirectory device ack now = .ok (some db')) (hd : d ∈ db'.deliveries.rows)
    (hack : d.acknowledgedAtUnix.isSome) :
    (∃ a, { d with acknowledgedAtUnix := a } ∈ db.deliveries.rows ∧ a.isSome) ∨
      db.ackMatches device ack = true ∧ db.coveredDelivery device ack d = true := by
  have hmatches : db.ackMatches device ack = true := by
    simp only [Database.ackDirectory, bind_eq_ok] at h
    obtain ⟨_, -, _, -, h⟩ := h
    split at h
    · assumption
    · cases Except.ok.inj h
  rw [(Database.ackDirectory_ok h).deliveries, List.mem_map] at hd
  obtain ⟨c, hc, rfl⟩ := hd
  cases hcovered : db.coveredDelivery device ack c with
  | false => exact .inl ⟨c.acknowledgedAtUnix, hc, by rwa [hcovered] at hack⟩
  | true => exact .inr ⟨hmatches, hcovered⟩

/-- A row of the update of an acknowledgement. -/
theorem settled_of_acknowledge {db : Database} {device id digest : String} {now : Nat}
    (hd : d ∈ (db.acknowledge device id digest now).2.deliveries.rows)
    (hack : d.acknowledgedAtUnix.isSome) :
    (∃ a, { d with acknowledgedAtUnix := a } ∈ db.deliveries.rows ∧ a.isSome) ∨
      device = d.deviceId ∧ id = d.deliveryId ∧ digest = d.sha256 := by
  unfold Database.acknowledge at hd
  split at hd
  · exact .inl ⟨_, hd, hack⟩
  · rename_i row hrow
    have hp := List.find?_some hrow
    rw [Bool.and_eq_true, beq_iff_eq, beq_iff_eq] at hp
    split at hd
    · exact .inl ⟨_, hd, hack⟩
    · rename_i hdigest
      rw [ne_eq, not_not] at hdigest
      split at hd
      · exact .inl ⟨_, hd, hack⟩
      · obtain ⟨c, hc, rfl⟩ := Database.mem_updateAcknowledged.mp hd
        split at hack
        · rename_i hsame
          rw [Bool.and_eq_true, beq_iff_eq, beq_iff_eq] at hsame
          have heq : c = row := by
            refine db.deliveries.eq_of_clash DeliveryRow.clash_comm hc (List.mem_of_find?_eq_some hrow) ?_
            simp [DeliveryRow.clash, hsame, hp]
          rw [if_pos (by simp [hsame])]
          exact .inr ⟨hsame.1.symm, hsame.2.symm, heq ▸ hdigest.symm⟩
        · rename_i hother
          rw [if_neg hother]
          exact .inl ⟨_, hc, hack⟩

/-- A row is acknowledged because it was, or because the event acknowledges it. -/
theorem settled_by (hp : Permitted store sha256 s e)
    (hd : d ∈ (apply store sha256 s e).db.deliveries.rows) (hack : d.acknowledgedAtUnix.isSome) :
    (∃ a, { d with acknowledgedAtUnix := a } ∈ s.db.deliveries.rows ∧ a.isSome) ∨
      e.Settles s.db d := by
  cases e with
  | transaction t =>
    cases hperform : s.desk.perform store.maxFileSize t with
    | none =>
      rw [apply, hperform] at hd
      exact .inl ⟨_, hd, hack⟩
    | some desk =>
      rw [apply, hperform] at hd
      have hd : d ∈ desk.db.deliveries.rows := hd
      by_cases hexit : t.isExit = true
      · have hsame : desk.db.deliveries = s.db.deliveries := by
          cases t with
          | beginExit id credential =>
            have h := Desk.commit_eq_some hperform
            cases hr : s.db.beginExit id credential with
            | error err =>
              rw [hr] at h
              contradiction
            | ok r =>
              simp only [hr, Except.toOption, Option.getD_some] at h
              exact (Database.beginExit_transfers (hr.trans (congrArg Except.ok h))).deliveries
          | receiveExit id hash role =>
            exact (Database.receiveExit_transfers (Desk.commit_eq_some hperform)).deliveries
          | removeFolder id => contradiction
          | _ => contradiction
        rw [hsame] at hd
        exact .inl ⟨_, hd, hack⟩
      · rw [Bool.not_eq_true] at hexit
        rcases Desk.perform_cases hperform hexit with
          ⟨device, delivery, createdAt, directory, now, rfl, -⟩ | ⟨device, id, digest, now, rfl, hdb⟩ |
            ⟨device, ack, now, rfl, hdb⟩ | ⟨-, -, hsame⟩
        · contradiction
        · rw [hdb] at hd
          exact settled_of_acknowledge hd hack
        · exact settled_of_ackDirectory hdb hd hack
        · rw [hsame.1] at hd
          exact .inl ⟨_, hd, hack⟩
  | insertDelivery origin device delivery createdAt directory now =>
    obtain ⟨db, hdb⟩ := hp.accepted
    obtain ⟨acknowledged, hsuperseded, hrows⟩ := (Database.enqueue_ok hdb).deliveries
    rw [apply_insertDelivery store sha256 hdb, db_withDb, hrows, List.mem_append,
      List.mem_singleton] at hd
    rcases hd with hd | rfl
    · exact .inl ⟨_, hd, hack⟩
    · cases directory with
      | none =>
        rw [hsuperseded] at hack
        contradiction
      | some version => exact .inr ⟨rfl, rfl, hsuperseded.symm.trans hack⟩
  | removeFolder id => exact .inl ⟨_, (Table.mem_delete.mp hd).1, hack⟩
  | _ => exact .inl ⟨_, hd, hack⟩

/-- Only the exit of its folder removes the row of a delivery. -/
theorem keeps_step (hp : Permitted store sha256 s e) (h : s.db.Keeps d)
    (hexit : ∀ id, e = .removeFolder id → d.deviceId ≠ folderDevice id) :
    (apply store sha256 s e).db.Keeps d := by
  obtain ⟨a, ha⟩ := h
  cases e with
  | transaction t =>
    obtain ⟨b, hb, -⟩ := (sameContent_transaction store sha256 s hp).db.kept _ ha
    exact ⟨b, hb⟩
  | insertDelivery origin device delivery createdAt directory now =>
    obtain ⟨db, hdb⟩ := hp.accepted
    obtain ⟨acknowledged, -, hrows⟩ := (Database.enqueue_ok hdb).deliveries
    refine ⟨a, ?_⟩
    rw [apply_insertDelivery store sha256 hdb, db_withDb, hrows]
    exact List.mem_append_left _ ha
  | removeFolder id =>
    refine ⟨a, Table.mem_delete.mpr ⟨ha, ?_⟩⟩
    simpa using hexit id rfl
  | _ => exact ⟨a, ha⟩

/-- What belongs to a version keeps doing so as long as it has a row. -/
theorem isDirectoryDelivery_step (hp : Permitted store sha256 s e)
    (hd : d ∈ (apply store sha256 s e).db.deliveries.rows)
    (h : s.db.isDirectoryDelivery d.deviceId d.deliveryId = true) :
    (apply store sha256 s e).db.isDirectoryDelivery d.deviceId d.deliveryId = true := by
  cases e with
  | transaction t =>
    have hversions := (sameContent_transaction store sha256 s hp).db.versions
    have hany : ∀ db : Database, db.isDirectoryDelivery d.deviceId d.deliveryId =
        (db.directoryVersions.rows.map fun v => { v with conflict := false }).any fun v =>
          v.deviceId == d.deviceId && v.deliveryId == d.deliveryId := fun db => by
      rw [List.any_map]
      rfl
    rw [hany, hversions, ← hany]
    exact h
  | insertDelivery origin device delivery createdAt directory now =>
    obtain ⟨db, hdb⟩ := hp.accepted
    rw [apply_insertDelivery store sha256 hdb, db_withDb, Database.isDirectoryDelivery,
      (Database.enqueue_ok hdb).versions, List.any_append]
    exact Bool.or_eq_true_iff.mpr (.inl h)
  | removeFolder id =>
    have hne := (Table.mem_delete.mp hd).2
    obtain ⟨v, hv, hsame⟩ := List.any_eq_true.mp h
    refine List.any_eq_true.mpr ⟨v, Table.mem_delete.mpr ⟨hv, ?_⟩, hsame⟩
    rw [Bool.and_eq_true, beq_iff_eq, beq_iff_eq] at hsame
    rw [hsame.1]
    exact hne
  | _ => exact h

end ServerStore

/-! ### Ordinary deliveries -/

/-- An ordinary acknowledgement of the device is one that its receiver has asked for. -/
def AskedBy (device : String) (sent : List SyncStep) (e : Event) : Prop :=
  ∀ id digest now, e = .transaction (.acknowledge device id digest now) →
    .acknowledge id digest ∈ sent

/-- Every acknowledged ordinary delivery of the device was asked for with its digest. -/
def Relay.Asked (device : String) (sent : List SyncStep) (s : Relay) : Prop :=
  ∀ d ∈ s.db.deliveries.rows, d.deviceId = device →
    s.db.isDirectoryDelivery device d.deliveryId = false → d.acknowledgedAtUnix.isSome →
      .acknowledge d.deliveryId d.sha256 ∈ sent

theorem Relay.Asked.step {store : ServerStore} {sha256 : Bytes → String} {s : Relay} {e : Event}
    {device : String} {sent : List SyncStep} (h : s.Asked device sent)
    (hp : Permitted store sha256 s e) (hasked : AskedBy device sent e) :
    (apply store sha256 s e).Asked device sent := by
  rintro d hd rfl hordinary hack
  have hbefore : s.db.isDirectoryDelivery d.deviceId d.deliveryId = false := by
    rw [← Bool.not_eq_true]
    intro htrue
    rw [ServerStore.isDirectoryDelivery_step hp hd htrue] at hordinary
    contradiction
  rcases ServerStore.settled_by hp hd hack with ⟨a, ha, hsome⟩ | hsettles
  · exact h { d with acknowledgedAtUnix := a } ha rfl hbefore hsome
  · cases e with
    | transaction t =>
      cases t with
      | acknowledge device id digest now =>
        obtain ⟨rfl, rfl, rfl⟩ := hsettles
        exact hasked _ _ now rfl
      | ackDirectory device ack now =>
        -- A receipt covers versions only.
        obtain ⟨-, hcovered⟩ := hsettles
        rw [Database.coveredDelivery, Bool.and_eq_true, List.any_eq_true, beq_iff_eq] at hcovered
        obtain ⟨hdevice, v, hv, hcovers⟩ := hcovered
        rw [Bool.and_eq_true, beq_iff_eq, Database.coveredBy, Bool.and_eq_true, Bool.and_eq_true,
          beq_iff_eq] at hcovers
        exact absurd ⟨hcovers.1.1.1.trans hdevice.symm, hcovers.2⟩
          (Database.isDirectoryDelivery_eq_false.mp hbefore v hv)
      | _ => exact hsettles.elim
    | insertDelivery origin device delivery createdAt directory now =>
      cases directory with
      | none => exact hsettles.elim
      | some version =>
        obtain ⟨rfl, hid, -⟩ := hsettles
        obtain ⟨db, hdb⟩ := hp.accepted
        have hnew : (⟨d.deviceId, delivery.id, version.path, version.version, false⟩ : VersionRow) ∈
            db.directoryVersions.rows := by
          rw [(Database.enqueue_ok hdb).versions]
          exact List.mem_append_right _ (List.mem_singleton.mpr rfl)
        rw [apply_insertDelivery store sha256 hdb, db_withDb] at hordinary
        exact absurd ⟨rfl, hid⟩ (Database.isDirectoryDelivery_eq_false.mp hordinary _ hnew)
    | _ => exact hsettles.elim

/-- The receiver has recorded the delivery, and had stored or read its file before it asked for the
acknowledgement. -/
def Session.Has (s : Session) (steps : List SyncStep) (id digest : String) : Prop :=
  ∃ r, (after Session.apply s steps).core.disk.lookup id = some r ∧ r.sha256 = digest ∧
    ∃ earlier later r₀, steps = earlier ++ .acknowledge id digest :: later ∧
      ReadInRun earlier r₀ ∧ r₀.Extends r

theorem Session.has_of_asked {answers : Nat → Answer} {steps : List SyncStep} {id digest : String}
    (h : Guarded Session.apply (fun s e => s.core.Permitted True e) (Session.initial answers) steps)
    (hin : .acknowledge id digest ∈ steps) : (Session.initial answers).Has steps id digest := by
  obtain ⟨earlier, later, rfl⟩ := List.append_of_mem hin
  obtain ⟨r₀, hr₀, hsha, hdescribes⟩ := Session.permitted_at h trivial
  obtain ⟨r, hr, hextends⟩ := disk_covers (guarded_append.mp h).2 id r₀ hr₀
  refine ⟨r, ?_, hextends.sha256.trans hsha, earlier, later, r₀, rfl,
    readInRun_of_describes hdescribes, hextends⟩
  rw [after_append]
  exact hr

/-! ### The list of a scan -/

namespace HttpSource

variable {bound page : Nat} {st st' : ScanState}

theorem readItem_once {item : DeliveryDescriptor × Nat} (h : (st.byId.map (·.id)).Nodup)
    (hread : readItem bound page st item = .ok st') : (st'.byId.map (·.id)).Nodup := by
  unfold readItem at hread
  dsimp only at hread
  split at hread
  · cases Except.ok.inj hread
    exact h
  · rw [bind_eq_ok] at hread
    obtain ⟨_, -, hst⟩ := hread
    cases Except.ok.inj hst
    split
    · exact h
    · rename_i hnone
      split
      · exact h
      · rw [List.map_append, List.nodup_append]
        refine ⟨h, List.nodup_singleton _, ?_⟩
        rintro a ha b hb rfl
        obtain ⟨d, hd, rfl⟩ := List.mem_map.mp ha
        have hne := List.find?_eq_none.mp hnone d hd
        rw [List.map_singleton, List.mem_singleton] at hb
        exact hne (beq_iff_eq.mpr hb)

theorem readItems_once {items : List (DeliveryDescriptor × Nat)} (h : (st.byId.map (·.id)).Nodup)
    (hread : items.foldlM (readItem bound page) st = .ok st') : (st'.byId.map (·.id)).Nodup := by
  induction items generalizing st with
  | nil =>
    cases Except.ok.inj hread
    exact h
  | cons item rest ih =>
    rw [List.foldlM_cons, bind_eq_ok] at hread
    obtain ⟨st₁, hfirst, hrest⟩ := hread
    exact ih (readItem_once h hfirst) hrest

theorem scanPages_once {fetch : Nat → Option String → Result IndexResponse} {remaining last : Nat}
    {cursor : Option String} (h : (st.byId.map (·.id)).Nodup)
    (hscan : scanPages bound fetch remaining page cursor st = .ok (st', last)) :
    (st'.byId.map (·.id)).Nodup := by
  induction remaining generalizing page cursor st with
  | zero =>
    cases Except.ok.inj hscan
    exact h
  | succ remaining ih =>
    simp only [scanPages, bind_eq_ok] at hscan
    obtain ⟨index, -, st₁, hitems, hrest⟩ := hscan
    have hfirst := readItems_once h hitems
    split at hrest
    · cases Except.ok.inj hrest
      exact hfirst
    · simp only [bind_eq_ok] at hrest
      obtain ⟨_, -, _, -, _, -, hnext⟩ := hrest
      refine ih ?_ hnext
      exact hfirst

/-- Whatever the server answers, a scan lists no delivery twice. -/
theorem scanPending_once {fetch : Nat → Option String → Result IndexResponse} {scan : SourceScan}
    {last : Nat} (h : scanPending bound fetch = .ok (scan, last)) :
    (scan.deliveries.map (·.id)).Nodup := by
  simp only [scanPending, bind_eq_ok] at h
  obtain ⟨⟨st, n⟩, hpages, hscan⟩ := h
  cases Except.ok.inj hscan
  have hempty : (ScanState.empty.byId.map (·.id)).Nodup := List.nodup_nil
  have hnodup := scanPages_once hempty hpages
  refine ((List.perm_insertionSort _ _).map _).nodup_iff.mpr ?_
  exact hnodup.sublist (List.filter_sublist.map _)

end HttpSource

/-! ### Custody -/

/-- What happens between the relay and the receiver of a delivery folder, in any order and cut off
anywhere. An ordinary delivery that the relay has accepted is pending there with its content, unless
the exit of its folder has begun, or the receiver has recorded it with the same digest after storing
or reading its file; and only the exit makes the relay forget it. -/
theorem delivery_in_custody (store : ServerStore) (sha256 : Bytes → String) (device : String)
    (actions : List Action) (answers : Nat → Answer)
    (hscans : ∀ n scan, (answers n).scanned = .ok scan →
      ∃ bound fetch last, HttpSource.scanPending bound fetch = .ok (scan, last))
    (runs : List SyncRun) (w : List (Event ⊕ SyncStep))
    (hrelay : lefts w = store.trace sha256 .initial actions)
    (hreceiver : rights w = (Session.initial answers).trace sha256 runs)
    (hasked : Follows (AskedBy device) w) :
    (∀ pre post, w = pre ++ post →
      let s := Relay.replay store sha256 .initial (lefts pre)
      ∀ d ∈ s.db.deliveries.rows, d.deviceId = device →
        s.db.isDirectoryDelivery device d.deliveryId = false →
          d.acknowledgedAtUnix = none ∧
              ((∀ id, device = folderDevice id → s.db.exiting id = false) → s.HasContent sha256 d) ∨
            (Session.initial answers).Has (rights pre) d.deliveryId d.sha256) ∧
    ∀ pre mid post, w = pre ++ mid ++ post →
      (∀ id, device = folderDevice id → .inl (.removeFolder id) ∉ mid) →
        ∀ d ∈ (Relay.replay store sha256 .initial (lefts pre)).db.deliveries.rows, d.deviceId = device →
          (Relay.replay store sha256 .initial (lefts (pre ++ mid))).db.Keeps d := by
  have hlisted : (Session.initial answers).Listed := fun n scan hscan => by
    obtain ⟨bound, fetch, last, hpending⟩ := hscans n scan hscan
    exact HttpSource.scanPending_once hpending
  have hleft := @ServerStore.trace_permitted store sha256 .initial actions
  have hright : Guarded Session.apply (fun s e => s.core.Permitted True e) (Session.initial answers)
      ((Session.initial answers).trace sha256 runs) :=
    Session.trace_permitted runs (Session.initial_sound answers) fun _ => hlisted
  rw [← hrelay] at hleft
  rw [← hreceiver] at hright
  constructor
  · rintro pre post rfl s d hd hdevice hordinary
    rw [lefts_append, guarded_append] at hleft
    rw [rights_append, guarded_append] at hright
    have hkept : s.PendingKept sha256 := hleft.1.invariant
      (fun d hd => by simp [Relay.initial, Desk.initial, Database.initial] at hd)
      fun _ _ => ServerStore.pendingKept_step
    have hall : s.Asked device (rights pre) := interleaved_invariant
      (I := fun m (u : Relay) (_ : Session) => u.Asked device m) hleft.1 hright.1 (follows_append.mp hasked).1
      (fun d hd => by simp [Relay.initial, Desk.initial, Database.initial] at hd)
      (fun _ _ _ _ hu hp he => hu.step hp he)
      (fun _ _ _ _ hu _ d hd hdevice hordinary hack =>
        List.mem_append_left _ (hu d hd hdevice hordinary hack))
    cases hack : d.acknowledgedAtUnix with
    | none => exact .inl ⟨rfl, fun hopen => hkept d hd hack (hdevice ▸ hopen)⟩
    | some a =>
      exact .inr (Session.has_of_asked hright.1 (hall d hd hdevice hordinary (by rw [hack]; rfl)))
  · rintro pre mid post rfl hexit d hd rfl
    rw [lefts_append, lefts_append, guarded_append, guarded_append] at hleft
    have hmid : Guarded (Relay.apply store sha256) (fun u e => Relay.Permitted store sha256 u e ∧
        ∀ id, e = .removeFolder id → d.deviceId ≠ folderDevice id)
        (Relay.replay store sha256 .initial (lefts pre)) (lefts mid) := by
      refine hleft.1.2.and (.of_mem fun e he id hid hdevice => hexit id hdevice ?_)
      obtain ⟨step, hstep, hsome⟩ := List.mem_filterMap.mp he
      cases step with
      | inl e' =>
        cases hsome
        exact hid ▸ hstep
      | inr k => contradiction
    rw [lefts_append, Relay.replay, after_append]
    exact hmid.invariant (I := fun u => u.db.Keeps d) ⟨_, hd⟩
      fun u e hu he => ServerStore.keeps_step he.1 hu he.2

/-- The relay takes an image for a phone and later its acknowledgement. -/
def handoverActions : List Action :=
  [.outside (.content (.enqueue "phone" sampleImage sampleImage "wall.png" "first" 10 10) [] none),
    .outside (.transaction (.admitAcknowledge "phone" "first")),
    .outside (.transaction (.acknowledge "phone" "first" (imageDigest []) 20))]

/-- The phone's receiver is told of the image and of nothing else. -/
def handoverSession : Session := .initial fun _ => successful [imageDelivery]

/-- The steps of the receiver's run. -/
def handoverSteps : List SyncStep := handoverSession.trace imageDigest [⟨sampleConfig [], none, none⟩]

/-- The receiver runs after the relay has stored the image. -/
def handover : List (Event ⊕ SyncStep) :=
  [Event.stage sampleImage, .persist "phone" sampleImage,
    .insertDelivery .direct "phone" imageDelivery 10 none 10].map .inl ++ handoverSteps.map .inr ++
      [Event.transaction (.admitAcknowledge "phone" "first"),
        .transaction (.acknowledge "phone" "first" (imageDigest []) 20)].map .inl

theorem acknowledge_handoverSteps : .acknowledge "first" (imageDigest []) ∈ handoverSteps := by decide

theorem lefts_handover : lefts handover = [.stage sampleImage, .persist "phone" sampleImage,
    .insertDelivery .direct "phone" imageDelivery 10 none 10,
    .transaction (.admitAcknowledge "phone" "first"),
    .transaction (.acknowledge "phone" "first" (imageDigest []) 20)] := by
  rw [handover, lefts_append, lefts_append, lefts_map, lefts_map, lefts_map_inr]
  rfl

theorem rights_handover : rights handover = handoverSteps := by
  rw [handover, rights_append, rights_append, rights_map, rights_map_inl, rights_map_inl,
    List.nil_append, List.append_nil]

/-- In the end the delivery is acknowledged, and the receiver has recorded the image. -/
theorem delivery_in_custody_image :
    handoverSession.Has (rights handover) "first" (imageDigest []) := by
  have hscan : HttpSource.scanPending 1024 (fun _ _ => .ok ⟨protocolVersion,
      [⟨"first", "wall.png", 8, imageDigest [], "image/png", some 10⟩], none⟩) =
        .ok (⟨[imageDelivery], []⟩, 1) := by decide
  have hasked : Follows (AskedBy "phone") handover := by
    refine follows_append.mpr ⟨follows_append.mpr ⟨follows_lefts ?_, follows_rights _⟩,
      follows_lefts ?_⟩
    · simp [AskedBy]
    · rw [rights_append, rights_map_inl, rights_map]
      simp [AskedBy, acknowledge_handoverSteps]
  have hcustody := delivery_in_custody sampleStore imageDigest "phone" handoverActions
    (fun _ => successful [imageDelivery])
    (fun _ scan hscanned => ⟨1024, _, 1, by cases hscanned; exact hscan⟩)
    [⟨sampleConfig [], none, none⟩] handover (by rw [lefts_handover]; decide) rights_handover hasked
  have hlast := hcustody.1 handover [] (List.append_nil _).symm
    ⟨1, "phone", "first", "wall.png", 8, imageDigest [], "image/png", 10, some 20⟩
    (by rw [lefts_handover]; decide) rfl (by rw [lefts_handover]; decide)
  exact hlast.resolve_left fun hpending => by cases hpending.1

/-! ### Directory versions -/

/-- A receipt for the device is one that its receiver has sent, and there are no ordinary
acknowledgements for the device. -/
def ReceiptedBy (device : String) (sent : List ReceiverStep) (e : Event) : Prop :=
  (∀ ack now, e = .transaction (.ackDirectory device ack now) → .acknowledged ack ∈ sent) ∧
    ∀ id digest now, e ≠ .transaction (.acknowledge device id digest now)

/-- The receipt covers the version, and if it is for the same version it names its digest. -/
def DirectoryAck.Covers (ack : DirectoryAck) (v : VersionRow) (digest : String) : Prop :=
  ack.path = v.path ∧ v.version ≤ ack.version ∧ (v.version = ack.version → ack.sha256 = digest)

/-- Every acknowledged version of the device is covered by a receipt that was sent. -/
def Relay.Receipted (device : String) (sent : List ReceiverStep) (s : Relay) : Prop :=
  ∀ v ∈ s.db.directoryVersions.rows, v.deviceId = device → ∀ d ∈ s.db.deliveries.rows,
    d.deviceId = v.deviceId → d.deliveryId = v.deliveryId → d.acknowledgedAtUnix.isSome →
      ∃ ack, .acknowledged ack ∈ sent ∧ ack.Covers v d.sha256

section Receipted

variable {store : ServerStore} {sha256 : Bytes → String} {s : Relay} {device : String}
  {sent : List ReceiverStep}

/-- A transaction leaves the versions as they are but for their flags. -/
theorem version_before {t : Transaction} (hp : t.lockFree = true) {v : VersionRow}
    (hv : v ∈ (Relay.apply store sha256 s (.transaction t)).db.directoryVersions.rows) :
    ∃ c, { v with conflict := c } ∈ s.db.directoryVersions.rows := by
  have hversions := (Relay.sameContent_transaction store sha256 s hp).db.versions
  have hmem : { v with conflict := false } ∈
      s.db.directoryVersions.rows.map fun v => { v with conflict := false } := by
    rw [← hversions]
    exact List.mem_map_of_mem hv
  obtain ⟨v₀, hv₀, heq⟩ := List.mem_map.mp hmem
  refine ⟨v₀.conflict, ?_⟩
  have hsame : ({ v with conflict := v₀.conflict } : VersionRow) = v₀ := by
    rw [VersionRow.mk.injEq] at heq
    obtain ⟨h1, h2, h3, h4, -⟩ := heq
    rw [VersionRow.mk.injEq]
    exact ⟨h1.symm, h2.symm, h3.symm, h4.symm, rfl⟩
  rw [hsame]
  exact hv₀

/-- The receipt that settles a version covers it. -/
theorem covers_of_ackDirectory {ack : DirectoryAck} {v : VersionRow} {d : DeliveryRow}
    (hv : v ∈ s.db.directoryVersions.rows) (hd : d ∈ s.db.deliveries.rows)
    (hdevice : d.deviceId = v.deviceId) (hid : d.deliveryId = v.deliveryId)
    (hmatches : s.db.ackMatches device ack = true)
    (hcovered : s.db.coveredDelivery device ack d = true) : ack.Covers v d.sha256 := by
  obtain ⟨hvdevice, hpath, hle⟩ := (Database.coveredDelivery_iff hv hdevice hid).mp hcovered
  refine ⟨hpath.symm, hle, fun hversion => ?_⟩
  simp only [Database.ackMatches, List.any_eq_true, Bool.and_eq_true, beq_iff_eq] at hmatches
  obtain ⟨w, hw, ⟨⟨hwdevice, hwpath⟩, hwversion⟩, hdigest⟩ := hmatches
  obtain rfl : w = v := Database.version_eq_of_names hw hv ⟨hwdevice, hwpath, hwversion⟩
    ⟨hvdevice, hpath, hversion⟩
  have hof : s.db.deliveryOf w = some d := Database.deliveryOf_eq_some.mpr ⟨hd, hdevice, hid⟩
  rw [hof, Option.any_some, beq_iff_eq] at hdigest
  exact hdigest.symm

theorem Relay.Receipted.step {e : Event} (h : s.Receipted device sent)
    (hp : Permitted store sha256 s e) (hreceipted : ReceiptedBy device sent e) :
    (apply store sha256 s e).Receipted device sent := by
  rintro v hv rfl d hd hdevice hid hack
  cases e with
  | transaction t =>
    obtain ⟨c, hv₀⟩ := version_before hp hv
    rcases ServerStore.settled_by hp hd hack with ⟨a, ha, hsome⟩ | hsettles
    · exact h { v with conflict := c } hv₀ rfl { d with acknowledgedAtUnix := a } ha hdevice hid hsome
    · cases t with
      | acknowledge device id digest now =>
        obtain ⟨rfl, -, -⟩ := hsettles
        exact absurd rfl (hdevice ▸ hreceipted.2 id digest now)
      | ackDirectory device ack now =>
        obtain ⟨hmatches, hcovered⟩ := hsettles
        obtain ⟨a, ha, -⟩ := (sameContent_transaction store sha256 s hp).db.rows d hd
        have hsame : d.deviceId = device := by
          rw [Database.coveredDelivery, Bool.and_eq_true, beq_iff_eq] at hcovered
          exact hcovered.1
        refine ⟨ack, hreceipted.1 ack now (by rw [← hdevice, hsame]), ?_⟩
        exact covers_of_ackDirectory (v := { v with conflict := c })
          (d := { d with acknowledgedAtUnix := a }) hv₀ ha hdevice hid hmatches hcovered
      | _ => exact hsettles.elim
  | insertDelivery origin dev delivery createdAt directory now =>
    obtain ⟨db, hdb⟩ := hp.accepted
    have he := Database.enqueue_ok hdb
    obtain ⟨acknowledged, hsuperseded, hrows⟩ := he.deliveries
    rw [apply_insertDelivery store sha256 hdb, db_withDb] at hv hd
    have hnew := hv
    rw [he.versions, List.mem_append] at hv
    rw [hrows, List.mem_append, List.mem_singleton] at hd
    rcases hd with hd | rfl
    · rcases hv with hv | hv
      · exact h v hv rfl d hd hdevice hid hack
      · obtain ⟨version, -, rfl⟩ := Option.map_eq_some_iff.mp (Option.mem_toList.mp hv)
        exact absurd ⟨hdevice, hid⟩ (he.free d hd)
    · -- It is inserted below an acknowledged version of its path.
      cases directory with
      | none =>
        rw [hsuperseded] at hack
        contradiction
      | some version =>
        have hversion : (⟨dev, delivery.id, version.path, version.version, false⟩ : VersionRow) ∈
            db.directoryVersions.rows := by
          rw [he.versions]
          exact List.mem_append_right _ (List.mem_singleton.mpr rfl)
        obtain rfl := Database.version_eq_of_delivery hnew hversion hdevice.symm hid.symm
        obtain ⟨u, hu, hudevice, hupath, hlt, hacked⟩ :=
          Database.superseded_iff.mp (hsuperseded.symm.trans hack)
        obtain ⟨d', hd', hd'device, hd'id, hd'ack⟩ := Database.isAcknowledged_iff.mp hacked
        obtain ⟨ack, hsent, hpath, hle, -⟩ := h u hu hudevice d' hd' hd'device hd'id hd'ack
        refine ⟨ack, hsent, hpath.trans hupath, (hlt.trans_le hle).le, fun heq => ?_⟩
        exact absurd heq (hlt.trans_le hle).ne
  | removeFolder id => exact h v (Table.mem_delete.mp hv).1 rfl d (Table.mem_delete.mp hd).1 hdevice hid hack
  | _ => exact h v hv rfl d hd hdevice hid hack

end Receipted

/-- The receiver has sent a receipt that covers the version: the ledger on disk had the version of
the receipt, whose file had been read with that digest, and the ledger on disk has no older one
now. -/
def ReceiverSession.Has (sha256 : Bytes → String) (s : ReceiverSession) (steps : List ReceiverStep)
    (v : VersionRow) (digest : String) : Prop :=
  ∃ ack earlier later, steps = earlier ++ .acknowledged ack :: later ∧ ack.Covers v digest ∧
    RecordedIn (after ReceiverSession.apply s earlier).core.disk ack.path ack.version ack.sha256 ∧
    (∃ before between, earlier = before ++ .checked ack.path ack.version ack.sha256 :: between ∧
      FileHas sha256 (after ReceiverSession.apply s before).core.tree ack.path ack.sha256) ∧
    ∃ applied, recordOf (after ReceiverSession.apply s steps).core.disk v.path = some applied ∧
      ack.version ≤ applied.version

def receiptEntry : DirectoryEntry :=
  ⟨"n", 1, deliveredRecord.id, ServerStore.sampleDigest [104, 105], 2, "text/plain", false, false⟩

/-- The receiver of an empty directory is told of the version and receives it. -/
def receiptAnswer : ReceiverAnswer :=
  { willingAnswer with
    remote := .ok ⟨directorySchemaVersion, none, [receiptEntry]⟩
    payload := .ok [104, 105] }

def receiptSteps : List ReceiverStep :=
  (ReceiverSession.initial ∅ fun _ => receiptAnswer).trace ServerStore.sampleDigest
    [(.opened, none), (.synced 1, none)]

/-- The receipt of the receiver's run. -/
def sampleReceipt : DirectoryAck := ⟨"n", 1, ServerStore.sampleDigest [104, 105], false⟩

/-- The receiver runs after the relay has stored the version. -/
def receipt : List (Event ⊕ ReceiverStep) :=
  deliveredEvents.map .inl ++ receiptSteps.map .inr ++
    [Event.transaction (.ackDirectory deliveredRecord.deviceId sampleReceipt 30)].map .inl

end MiRelay
