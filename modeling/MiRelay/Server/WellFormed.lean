import MiRelay.Server.Sends
import MiRelay.Server.Undisturbed

/-!
# What is recorded of a folder can be read again

The rules for paths are written twice, as string operations of SQL where a
version is inserted and component by component where an inventory is checked.
Every history keeps the recorded paths of a device within the limit and apart
from each other. The state of the directory is then answered exactly when every
version it has to report is within the file size a directory state may list.
-/

namespace MiRelay

namespace Database

/-- The recorded versions of a device keep the rules of an inventory. -/
structure WellFormed (db : Database) (device : String) : Prop where
  paths : (db.recordedPaths device).toFinset.card ≤ maxEntries
  apart : ∀ p ∈ db.recordedPaths device, ∀ q ∈ db.recordedPaths device, Apart p q
  versions : ∀ v ∈ db.directoryVersions.rows, ∀ w ∈ db.directoryVersions.rows,
    v.deviceId = device → w.deviceId = device → v.path = w.path → v.version = w.version → v = w

/-- The latest version of every path of a device has a size that a directory state may list. -/
def ListableSizes (db : Database) (device : String) : Prop :=
  ∀ v ∈ db.directoryVersions.rows, v.deviceId = device → db.isLatest v = true →
    ∀ d, db.deliveryOf v = some d → d.sizeBytes ≤ maxFile

/-- The recorded paths of every device are apart. -/
def PathsApart (db : Database) : Prop :=
  ∀ device, ∀ p ∈ db.recordedPaths device, ∀ q ∈ db.recordedPaths device, Apart p q

variable {db db' : Database} {device : String} {m : Nat}

/-- A version without collision is apart from all recorded paths. -/
theorem apart_of_versionCollision {version : DirectoryVersion}
    (h : db.versionCollision device version = false) {q : String}
    (hq : q ∈ db.recordedPaths device) : Apart version.path q := by
  obtain ⟨v, hv, hdevice, rfl⟩ := mem_recordedPaths.mp hq
  simp only [versionCollision, List.any_eq_false, Bool.and_eq_true, Bool.or_eq_true, beq_iff_eq,
    sqlBelow_iff] at h
  exact ⟨fun hb => h v hv ⟨hdevice, .inl (.inr hb)⟩, fun hb => h v hv ⟨hdevice, .inr hb⟩⟩

theorem Apart.symm {p q : String} (h : Apart p q) : Apart q p := ⟨h.2, h.1⟩

/-- No path is its own ancestor. -/
theorem Apart.refl (p : String) : Apart p p :=
  ⟨fun h => ne_of_ancestor h rfl, fun h => ne_of_ancestor h rfl⟩

theorem PathsApart.subset (h : db.PathsApart)
    (hsub : ∀ v ∈ db'.directoryVersions.rows, ∃ w ∈ db.directoryVersions.rows,
      w.deviceId = v.deviceId ∧ w.path = v.path) : db'.PathsApart := by
  have hmem : ∀ device, ∀ p ∈ db'.recordedPaths device, p ∈ db.recordedPaths device := by
    intro device p hp
    obtain ⟨v, hv, hdevice, rfl⟩ := mem_recordedPaths.mp hp
    obtain ⟨w, hw, hdevice', hpath⟩ := hsub v hv
    exact mem_recordedPaths.mpr ⟨w, hw, hdevice'.trans hdevice, hpath⟩
  exact fun device p hp q hq => h device p (hmem device p hp) q (hmem device q hq)

/-- An accepted version is apart from the others of its device. -/
theorem PathsApart.enqueue {delivery : Delivery} {createdAt : Nat}
    {directory : Option DirectoryVersion} (h : db.PathsApart)
    (he : Enqueued db db' device delivery createdAt directory) : db'.PathsApart := by
  cases directory with
  | none =>
    refine h.subset fun v hv => ⟨v, ?_, rfl, rfl⟩
    simpa [he.versions] using hv
  | some version =>
    obtain ⟨-, -, -, hcollision⟩ := he.version version rfl
    -- A recorded path is an old one, or the new one in the queue of its device.
    have hmem : ∀ other, ∀ p ∈ db'.recordedPaths other,
        p ∈ db.recordedPaths other ∨ (other = device ∧ p = version.path) := by
      intro other p hp
      obtain ⟨v, hv, hdevice, rfl⟩ := mem_recordedPaths.mp hp
      rw [he.versions, List.mem_append] at hv
      rcases hv with hv | hv
      · exact .inl (mem_recordedPaths.mpr ⟨v, hv, hdevice, rfl⟩)
      · simp only [Option.map_some, Option.toList_some, List.mem_singleton] at hv
        subst hv
        exact .inr ⟨hdevice.symm, rfl⟩
    intro other p hp q hq
    rcases hmem other p hp with hp | ⟨rfl, rfl⟩ <;> rcases hmem other q hq with hq | ⟨hother, rfl⟩
    · exact h other p hp q hq
    · subst hother
      exact (apart_of_versionCollision hcollision hp).symm
    · exact apart_of_versionCollision hcollision hq
    · exact .refl _

/-- Every accepted transaction keeps the paths apart. -/
theorem PathsApart.step {d d' : Desk} {a : Transaction} (h : d.db.PathsApart)
    (hstep : d.perform m a = some d') : d'.db.PathsApart := by
  cases hfree : a.lockFree with
  | true =>
    refine h.subset fun v hv => ?_
    obtain ⟨w, hw, hdevice, -, hpath, -⟩ := (undisturbed_perform hstep hfree).version hv
    exact ⟨w, hw, hdevice, hpath⟩
  | false =>
    cases a with
    | enqueue device delivery createdAt directory now =>
      have hdb := Desk.commit_eq_some hstep
      rw [toOption_eq_some, bind_eq_ok] at hdb
      obtain ⟨_, -, hdb⟩ := hdb
      rcases storeOnce_ok hdb with ⟨hsame, -⟩ | he
      · rw [hsame]
        exact h
      · exact h.enqueue he
    | removeFolder id =>
      simp only [Desk.perform] at hstep
      split at hstep
      · simp only [Desk.commit, Option.some.injEq] at hstep
        subst hstep
        exact h.subset fun v hv => ⟨v, (Table.mem_delete.mp hv).1, rfl, rfl⟩
      · contradiction
    | _ => contradiction

theorem pathsApart_run {allowed : Desk → Transaction → Prop} {h : List Transaction} {d : Desk}
    (hrun : Steps (Desk.perform m) allowed Desk.initial h d) : d.db.PathsApart :=
  hrun.invariant (I := fun _ d => d.db.PathsApart)
    (fun device p hp => by simp [recordedPaths, Desk.initial, Database.initial] at hp)
    fun _ _ _ _ h _ hstep => h.step hstep

/-- The two versions of the rule for paths agree. -/
theorem sqlBelow_iff_mem_pathAncestors {a p : String} :
    sqlBelow a p = true ↔ a ∈ pathAncestors p := by
  rw [sqlBelow_iff, mem_pathAncestors]

/-- With readable tables a state is answered exactly when the sizes to report are listable. -/
theorem directoryState_isOk_iff (r : Readable m db) :
    (∃ st, db.directoryState device = .ok st) ↔ db.ListableSizes device := by
  constructor
  · rintro ⟨st, hst⟩ v hv hdevice hlatest d hd
    have hvalid : st.validate = .ok () := by
      simp only [directoryState] at hst
      split at hst
      · rename_i hvalid
        rw [← Except.ok.inj hst]
        exact hvalid
      · contradiction
    obtain ⟨-, hentries, -⟩ := DirectoryState.validate_ok hvalid
    have hperm := reportedEntries_perm (r.length_reportedEntries device)
    rw [directoryState_entries hst] at hentries
    have hentry : db.reportedEntry v = some
        { path := v.path, version := v.version, deliveryId := d.deliveryId, sha256 := d.sha256
          size := d.sizeBytes, mediaType := d.mediaType
          acknowledged := d.acknowledgedAtUnix.isSome, conflict := v.conflict } := by
      rw [reportedEntry, hd]
      rfl
    have hmem := hperm.mem_iff.mpr (mem_latestEntries.mpr ⟨v, hv, hdevice, hlatest, hentry⟩)
    exact (validateDeliveryMetadata_ok (hentries _ hmem).2.2).2.1
  · intro hsizes
    refine ⟨_, r.directoryState_isOk device fun e he => ?_⟩
    obtain ⟨v, hv, hdevice, hlatest, hentry⟩ := mem_latestEntries.mp he
    obtain ⟨d, hd, rfl⟩ := reportedEntry_eq_some.mp hentry
    exact hsizes v hv hdevice hlatest d hd

/-- In every state of every history the recorded versions of a device keep the rules of an
inventory, under which both tests for paths agree; and the state of its directory is answered
exactly when the latest version of every path is within the size such a state may list. -/
theorem directory_readable_iff {allowed : Desk → Transaction → Prop} {h : List Transaction}
    {d : Desk} (hrun : Steps (Desk.perform m) allowed Desk.initial h d) (device : String) :
    (d.db.WellFormed device ∧ (∀ a p, sqlBelow a p = true ↔ a ∈ pathAncestors p) ∧
      ∃ st, d.db.directoryState device = .ok st) ↔ d.db.ListableSizes device := by
  have hreadable := Readable.run hrun
  rw [directoryState_isOk_iff hreadable]
  refine ⟨fun h => h.2.2, fun hsizes => ⟨⟨?_, pathsApart_run hrun device, ?_⟩,
    fun _ _ => sqlBelow_iff_mem_pathAncestors, hsizes⟩⟩
  · rw [← pathCount_eq_card]
    exact hreadable.paths device
  · intro v hv w hw hdevice hdevice' hpath hversion
    refine d.db.directoryVersions.eq_of_clash VersionRow.clash_comm hv hw ?_
    simp [VersionRow.clash, hdevice, hdevice', hpath, hversion]

/-- A folder with two versions of one file. -/
theorem directory_readable_iff_lateUpload :
    ∃ d, Steps (Desk.perform maxFile) (fun d a => d.connected a = true) Desk.initial lateUpload d ∧
      d.db.WellFormed sampleFolder ∧ ∃ st, d.db.directoryState sampleFolder = .ok st := by
  obtain ⟨d, hrun, hsizes⟩ := Steps.exists_of_replay (Desk.perform maxFile) Desk.connected
    Desk.initial lateUpload (fun d => d.db.deliveries.rows.all (·.sizeBytes ≤ maxFile))
    (by decide +kernel)
  simp only [List.all_eq_true, decide_eq_true_eq] at hsizes
  obtain ⟨hformed, -, hstate⟩ := (directory_readable_iff hrun sampleFolder).mpr
    fun v _ _ _ d hd => hsizes d (deliveryOf_eq_some.mp hd).1
  exact ⟨d, hrun, hformed, hstate⟩

/-- A relay configured for larger files accepts a version of one byte more. -/
def oversizedVersion : List Transaction :=
  pairedFolder ++
    [.enqueue sampleFolder
      { noteDelivery "00000000-0000-4000-8000-0000000000b1"
          "1111111111111111111111111111111111111111111111111111111111111111" with
        size := maxFile + 1 } 20 (some ⟨"note.txt", 1⟩) 21]

/-- After that the state of the directory is not answered any more. -/
theorem oversizedVersion_unreadable :
    ∃ d, Steps (Desk.perform (maxFile + 1)) (fun d a => d.connected a = true) Desk.initial
        oversizedVersion d ∧
      ∀ st, d.db.directoryState sampleFolder ≠ .ok st := by
  obtain ⟨d, hrun, hstate⟩ := Steps.exists_of_replay (Desk.perform (maxFile + 1)) Desk.connected
    Desk.initial oversizedVersion (fun d => (d.db.directoryState sampleFolder).toOption.isNone)
    (by decide +kernel)
  refine ⟨d, hrun, fun st hst => ?_⟩
  rw [hst] at hstate
  contradiction

end Database

end MiRelay
