import MiRelay.Core.Paging
import MiRelay.Server.Listing
import MiRelay.Server.Undisturbed

/-!
# What later transactions leave of a snapshot

Sequence numbers grow, and below the number a snapshot was taken at every
transaction only takes rows away: a row listed later was already listed before,
unchanged.
-/

namespace MiRelay

namespace Database

variable {db db' : Database} {device : String}

/-- Sequence numbers are positive, given out once, and none exceeds the last. -/
structure Numbered (db : Database) : Prop where
  positive : ∀ row ∈ db.deliveries.rows, row.sequence ≠ 0
  bounded : ∀ row ∈ db.deliveries.rows, row.sequence ≤ db.lastSequence
  distinct : ∀ row ∈ db.deliveries.rows, ∀ row' ∈ db.deliveries.rows,
    row.sequence = row'.sequence → row = row'

/-- Two rows of one delivery are the same. -/
theorem delivery_eq {row row' : DeliveryRow} (h : row ∈ db.deliveries.rows)
    (h' : row' ∈ db.deliveries.rows) (hdevice : row.deviceId = row'.deviceId)
    (hid : row.deliveryId = row'.deliveryId) : row = row' := by
  apply db.deliveries.eq_of_clash DeliveryRow.clash_comm h h'
  simp [DeliveryRow.clash, hdevice, hid]

/-- A row of the later database was there before, up to its acknowledgement. -/
theorem Numbered.of_rows (h : Numbered db) (hlast : db.lastSequence ≤ db'.lastSequence)
    (hrows : ∀ d ∈ db'.deliveries.rows, ∃ a,
      { d with acknowledgedAtUnix := a } ∈ db.deliveries.rows) : Numbered db' where
  positive row hrow := by
    obtain ⟨a, ha⟩ := hrows row hrow
    exact h.positive { row with acknowledgedAtUnix := a } ha
  bounded row hrow := by
    obtain ⟨a, ha⟩ := hrows row hrow
    exact (h.bounded { row with acknowledgedAtUnix := a } ha).trans hlast
  distinct row hrow row' hrow' heq := by
    obtain ⟨a, ha⟩ := hrows row hrow
    obtain ⟨a', ha'⟩ := hrows row' hrow'
    have hsame := h.distinct _ ha _ ha' heq
    exact delivery_eq hrow hrow' (congrArg (·.deviceId) hsame) (congrArg (·.deliveryId) hsame)

/-- An insertion takes the next number. -/
theorem Numbered.enqueue (h : Numbered db) {delivery : Delivery} {createdAt : Nat}
    {directory : Option DirectoryVersion} (he : Enqueued db db' device delivery createdAt directory) :
    Numbered db' := by
  obtain ⟨acknowledged, -, hrows⟩ := he.deliveries
  have hold : ∀ row ∈ db.deliveries.rows, row.sequence ≠ db.lastSequence + 1 := fun row hrow => by
    have hle := h.bounded row hrow
    omega
  refine ⟨?_, ?_, ?_⟩
  · intro row hrow
    rw [hrows, List.mem_append, List.mem_singleton] at hrow
    rcases hrow with hrow | rfl
    · exact h.positive row hrow
    · exact Nat.succ_ne_zero _
  · intro row hrow
    rw [he.lastSequence]
    rw [hrows, List.mem_append, List.mem_singleton] at hrow
    rcases hrow with hrow | rfl
    · have hle := h.bounded row hrow
      omega
    · exact Nat.le_refl _
  · intro row hrow row' hrow' heq
    rw [hrows, List.mem_append, List.mem_singleton] at hrow hrow'
    rcases hrow with hrow | rfl <;> rcases hrow' with hrow' | rfl
    · exact h.distinct row hrow row' hrow' heq
    · exact absurd heq (hold row hrow)
    · exact absurd heq.symm (hold row' hrow')
    · rfl

theorem isDirectoryDelivery_congr {id : String}
    (h : db'.directoryVersions.rows.map (fun v => { v with conflict := false }) =
      db.directoryVersions.rows.map fun v => { v with conflict := false }) :
    db'.isDirectoryDelivery device id = db.isDirectoryDelivery device id := by
  have hany : ∀ db : Database, db.isDirectoryDelivery device id =
      (db.directoryVersions.rows.map fun v => ({ v with conflict := false } : VersionRow)).any
        fun v => v.deviceId == device && v.deliveryId == id := fun db => by
    rw [isDirectoryDelivery, List.any_map]
    rfl
  rw [hany db', h, ← hany db]

end Database

namespace Desk

variable {m : Nat} {d d' : Desk} {a : Transaction} {device : String}

/-- No transaction takes a number back. -/
theorem lastSequence_perform (h : d.perform m a = some d') :
    d.db.lastSequence ≤ d'.db.lastSequence := by
  cases a with
  | enqueue device delivery createdAt directory now =>
    have hdb := commit_eq_some h
    rw [toOption_eq_some, bind_eq_ok] at hdb
    obtain ⟨_, -, hdb⟩ := hdb
    rcases Database.storeOnce_ok hdb with ⟨hsame, -⟩ | he
    · rw [hsame]
    · rw [he.lastSequence]
      exact Nat.le_succ _
  | admitAcknowledge device id =>
    simp only [perform] at h
    split at h
    · contradiction
    · cases Option.some.inj h
      exact Nat.le_refl _
  | acknowledge device id sha256 now =>
    simp only [perform] at h
    split at h
    · cases Option.some.inj h
      simp only [Database.acknowledge]
      split
      · exact Nat.le_refl _
      · split
        · exact Nat.le_refl _
        · split <;> exact Nat.le_refl _
    · contradiction
  | ackDirectory device ack now =>
    have hdb := commit_eq_some h
    cases hr : d.db.ackDirectory device ack now with
    | error e =>
      rw [hr] at hdb
      contradiction
    | ok db =>
      simp only [hr, Except.toOption, Option.getD_some] at hdb
      rw [hdb] at hr
      simp only [Database.ackDirectory, bind_eq_ok] at hr
      obtain ⟨_, -, _, -, hr⟩ := hr
      split at hr
      · rw [← Option.some.inj (Except.ok.inj hr)]
        exact Nat.le_refl _
      · cases Except.ok.inj hr
  | publish device update =>
    have hdb := commit_eq_some h
    rw [Option.bind_eq_some_iff] at hdb
    obtain ⟨⟨inventory, db⟩, hok, hp⟩ := hdb
    rw [toOption_eq_some] at hok
    cases inventory with
    | none => contradiction
    | some i =>
      cases hp
      simp only [Database.publishDirectory, bind_eq_ok] at hok
      obtain ⟨_, -, _, -, _, -, hok⟩ := hok
      split at hok
      · rw [← (Prod.mk.inj (Except.ok.inj hok)).2]
      · split at hok
        · cases (Prod.mk.inj (Except.ok.inj hok)).1
        · split at hok
          · contradiction
          · rw [← (Prod.mk.inj (Except.ok.inj hok)).2]
  | createFolder id name receiverHash inviteHash expires =>
    have hdb := commit_eq_some h
    rw [toOption_eq_some] at hdb
    exact (Database.createFolder_transfers hdb).lastSequence.ge
  | claimFolder id inviteHash senderHash now =>
    simp only [perform, commit, Option.some.injEq] at h
    subst h
    exact (Database.claimFolder_transfers).lastSequence.ge
  | disconnectFolder id hash =>
    simp only [perform, commit, Option.some.injEq] at h
    subst h
    exact (Database.disconnectFolder_transfers).lastSequence.ge
  | confirmFolder | renewFolder =>
    simp only [perform, commit, Option.some.injEq] at h
    subst h
    exact Nat.le_refl _
  | beginExit id credential =>
    have hdb := commit_eq_some h
    cases hr : d.db.beginExit id credential with
    | error e =>
      rw [hr] at hdb
      contradiction
    | ok db =>
      simp only [hr, Except.toOption, Option.getD_some] at hdb
      rw [hdb] at hr
      exact (Database.beginExit_transfers hr).lastSequence.ge
  | removeFolder id =>
    simp only [perform] at h
    split at h
    · simp only [commit, Option.some.injEq] at h
      subst h
      exact Nat.le_refl _
    · contradiction
  | receiveExit id hash role =>
    exact (Database.receiveExit_transfers (commit_eq_some h)).lastSequence.ge

/-- A transaction keeps the numbering. -/
theorem numbered_perform (hn : d.db.Numbered) (h : d.perform m a = some d') :
    d'.db.Numbered := by
  cases hfree : a.lockFree with
  | true =>
    refine hn.of_rows (lastSequence_perform h) fun row hrow => ?_
    obtain ⟨a, ha, -⟩ := (Database.undisturbed_perform h hfree).rows row hrow
    exact ⟨a, ha⟩
  | false =>
    cases a with
    | enqueue device delivery createdAt directory now =>
      have hdb := commit_eq_some h
      rw [toOption_eq_some, bind_eq_ok] at hdb
      obtain ⟨_, -, hdb⟩ := hdb
      rcases Database.storeOnce_ok hdb with ⟨hsame, -⟩ | he
      · rw [hsame]
        exact hn
      · exact hn.enqueue he
    | removeFolder id =>
      have hlast := lastSequence_perform h
      simp only [perform] at h
      split at h
      · simp only [commit, Option.some.injEq] at h
        subst h
        exact hn.of_rows hlast fun row hrow =>
          ⟨row.acknowledgedAtUnix, (Table.mem_delete.mp hrow).1⟩
      · contradiction
    | _ => contradiction

/-- An unacknowledged row up to an earlier number was there before, and of the same kind. -/
theorem unacknowledged_perform (h : d.perform m a = some d') {row : DeliveryRow}
    (hrow : row ∈ d'.db.deliveries.rows) (hnone : row.acknowledgedAtUnix = none)
    (hle : row.sequence ≤ d.db.lastSequence) :
    row ∈ d.db.deliveries.rows ∧ d'.db.isDirectoryDelivery row.deviceId row.deliveryId =
      d.db.isDirectoryDelivery row.deviceId row.deliveryId := by
  cases hfree : a.lockFree with
  | true =>
    have hundisturbed := Database.undisturbed_perform h hfree
    obtain ⟨b, hb, hmono⟩ := hundisturbed.rows row hrow
    have hbnone : b = none := by
      rw [← Option.not_isSome_iff_eq_none]
      intro hsome
      have := hmono hsome
      rw [hnone] at this
      contradiction
    subst hbnone
    have hsame : { row with acknowledgedAtUnix := none } = row := by rw [← hnone]
    rw [hsame] at hb
    exact ⟨hb, Database.isDirectoryDelivery_congr hundisturbed.versions⟩
  | false =>
    cases a with
    | enqueue device' delivery createdAt directory now =>
      have hdb := commit_eq_some h
      rw [toOption_eq_some, bind_eq_ok] at hdb
      obtain ⟨_, -, hdb⟩ := hdb
      rcases Database.storeOnce_ok hdb with ⟨hsame, -⟩ | he
      · rw [hsame] at hrow ⊢
        exact ⟨hrow, rfl⟩
      · obtain ⟨acknowledged, -, hrows⟩ := he.deliveries
        rw [hrows, List.mem_append, List.mem_singleton] at hrow
        rcases hrow with hrow | rfl
        · refine ⟨hrow, ?_⟩
          -- A new version belongs to the new delivery.
          have hother : ((directory.map fun v =>
              (⟨device', delivery.id, v.path, v.version, false⟩ : VersionRow)).toList.any
                fun v => v.deviceId == row.deviceId && v.deliveryId == row.deliveryId) = false := by
            rw [List.any_eq_false]
            intro v hv hnames
            obtain ⟨version, -, rfl⟩ := Option.map_eq_some_iff.mp (Option.mem_toList.mp hv)
            simp only [Bool.and_eq_true, beq_iff_eq] at hnames
            exact he.free row hrow ⟨hnames.1.symm, hnames.2.symm⟩
          rw [Database.isDirectoryDelivery, he.versions, List.any_append, hother, Bool.or_false]
          rfl
        · exact absurd hle (by simp [Delivery.row])
    | removeFolder id =>
      simp only [perform] at h
      split at h
      · simp only [commit, Option.some.injEq] at h
        subst h
        obtain ⟨hmem, hother⟩ := Table.mem_delete.mp hrow
        refine ⟨hmem, ?_⟩
        -- The versions of another device are still there.
        rw [Bool.eq_iff_iff, Database.isDirectoryDelivery, Database.isDirectoryDelivery,
          List.any_eq_true, List.any_eq_true]
        constructor
        · rintro ⟨v, hv, hnames⟩
          exact ⟨v, (Table.mem_delete.mp hv).1, hnames⟩
        · rintro ⟨v, hv, hnames⟩
          refine ⟨v, Table.mem_delete.mpr ⟨hv, ?_⟩, hnames⟩
          simp only [Bool.and_eq_true, beq_iff_eq] at hnames
          rw [hnames.1]
          exact hother
      · contradiction
    | _ => contradiction

variable {allowed : Desk → Transaction → Prop} {l : List Transaction}

theorem numbered_run (h : Steps (perform m) allowed d l d') (hn : d.db.Numbered) :
    d'.db.Numbered :=
  h.invariant (I := fun _ d => d.db.Numbered) hn fun _ _ _ _ hn _ hstep => numbered_perform hn hstep

theorem lastSequence_run (h : Steps (perform m) allowed d l d') :
    d.db.lastSequence ≤ d'.db.lastSequence :=
  h.invariant (I := fun _ d' => d.db.lastSequence ≤ d'.db.lastSequence) (Nat.le_refl _)
    fun _ _ _ _ hle _ hstep => hle.trans (lastSequence_perform hstep)

/-- Below an earlier number every unacknowledged row was there before, and of the same kind. -/
theorem unacknowledged_run (h : Steps (perform m) allowed d l d') {row : DeliveryRow}
    (hrow : row ∈ d'.db.deliveries.rows) (hnone : row.acknowledgedAtUnix = none)
    (hle : row.sequence ≤ d.db.lastSequence) :
    row ∈ d.db.deliveries.rows ∧ d'.db.isDirectoryDelivery row.deviceId row.deliveryId =
      d.db.isDirectoryDelivery row.deviceId row.deliveryId := by
  induction h with
  | nil => exact ⟨hrow, rfl⟩
  | snoc hbefore _ hstep ih =>
    have hback := unacknowledged_perform hstep hrow hnone (hle.trans (lastSequence_run hbefore))
    have hrest := ih hback.1
    exact ⟨hrest.1, hback.2.trans hrest.2⟩

/-- Below an earlier number every pending ordinary row was a pending ordinary row before. -/
theorem pending_run (h : Steps (perform m) allowed d l d') {row : DeliveryRow}
    (hrow : row ∈ d'.db.deliveries.rows) (hpending : d'.db.isOrdinaryPending device row = true)
    (hle : row.sequence ≤ d.db.lastSequence) :
    row ∈ d.db.deliveries.rows ∧ d.db.isOrdinaryPending device row = true := by
  simp only [Database.isOrdinaryPending, Bool.and_eq_true, Bool.not_eq_true', beq_iff_eq,
    Option.isNone_iff_eq_none] at hpending ⊢
  obtain ⟨⟨hdevice, hnone⟩, hordinary⟩ := hpending
  obtain ⟨hbefore, hkind⟩ := unacknowledged_run h hrow hnone hle
  rw [hkind] at hordinary
  exact ⟨hbefore, ⟨hdevice, hnone⟩, hordinary⟩

end Desk

end MiRelay
