import MiRelay.Client.Sync

/-!
# What every step of a synchronization respects

The state in memory extends the state file, a delivery whose command was started
is never ready for an automatic start, and an acknowledgement is only sent for a
persisted record whose file was read in the same run. `Permitted` is the
condition on the single steps, `Sound` the invariant it keeps.
-/

namespace MiRelay

/-- An automatic run never starts the command for such a status. -/
def WallpaperStatus.closed (status : WallpaperStatus) : Prop :=
  status ≠ .pending ∧ status ≠ .notConfigured

/-- A later record of the same delivery. -/
structure DeliveryRecord.Extends (r r' : DeliveryRecord) : Prop where
  sha256 : r'.sha256 = r.sha256
  size : r'.size = r.size
  mediaType : r'.mediaType = r.mediaType
  acknowledged : r.deliveryStatus = .acknowledged → r'.deliveryStatus = .acknowledged

namespace DeliveryRecord.Extends

theorem refl (r : DeliveryRecord) : r.Extends r := ⟨rfl, rfl, rfl, fun h => h⟩

theorem trans {r r' r'' : DeliveryRecord} (h : r.Extends r') (h' : r'.Extends r'') :
    r.Extends r'' :=
  ⟨h'.sha256.trans h.sha256, h'.size.trans h.size, h'.mediaType.trans h.mediaType,
    fun ha => h'.acknowledged (h.acknowledged ha)⟩

end DeliveryRecord.Extends

namespace Records

/-- Every record of the first state has a later one in the second. -/
def Covers (a b : Records) : Prop :=
  ∀ id r, a.lookup id = some r → ∃ r', b.lookup id = some r' ∧ r.Extends r'

/-- The listed deliveries have records that no automatic run takes. -/
def Closed (spent : List String) (records : Records) : Prop :=
  ∀ id ∈ spent, ∃ r, records.lookup id = some r ∧ r.wallpaperStatus.closed

theorem Covers.refl (a : Records) : Covers a a := fun _ r h => ⟨r, h, .refl r⟩

theorem mem_ids {records : Records} {id : String} :
    id ∈ ids records ↔ ∃ r, records.lookup id = some r := by
  rw [ids, (List.perm_insertionSort _ _).mem_iff]
  exact Files.mem_keys_iff records id

theorem nodup_ids (records : Records) : (ids records).Nodup :=
  (List.perm_insertionSort _ _).nodup_iff.mpr (AList.keys_nodup records)

end Records

/-- A file a run has seen is the one a record describes. -/
def DeliveryRecord.Describes (r : DeliveryRecord) (checked : List (String × FileInspection)) : Prop :=
  ∃ found, (r.storedPath, found) ∈ checked ∧ found.size = r.size ∧ found.sha256 = r.sha256 ∧
    found.mediaType = r.mediaType

/-- Which starts a status admits that was read from the state file. -/
def WallpaperRunMode.Admits (mode : WallpaperRunMode) : Option WallpaperStatus → Prop
  | none | some .pending | some .notConfigured => True
  | some .failed => mode ≠ .automatic
  | some .running | some .uncertain => mode = .explicitRetry true
  | some .applied | some .notApplicable => False

/-- A step of a queue that runs in a mode and with a configuration. -/
def SyncStep.Of (config : SyncConfig) (mode : WallpaperRunMode) : SyncStep → Prop
  | .load => False
  | .start _ m => m = mode
  | .unconfigured m _ _ => m = mode ∧ config.command = []
  | .answered | .update _ _ | .persist | .verified _ _ | .received _ _ | .acknowledge _ _ => True

namespace RunState

/-- What holds between any two steps. -/
structure Sound (c : RunState) : Prop where
  covers : Records.Covers c.disk c.memory
  ids : ∀ id r, c.memory.lookup id = some r → r.id = id
  memory : Records.Closed c.spent c.memory
  disk : Records.Closed c.spent c.disk

/-- The condition on a step; the one on acknowledgements is for lists without repeated
identities, as `distinct` says. -/
def Permitted (distinct : Prop) (c : RunState) : SyncStep → Prop
  | .load => ∀ id r, c.disk.lookup id = some r → r.id = id
  | .update id record => record.id = id ∧
      (∀ r, c.memory.lookup id = some r → r.Extends record) ∧
      (id ∈ c.spent → record.wallpaperStatus.closed)
  | .unconfigured mode id record => record.id = id ∧
      (∀ r, c.memory.lookup id = some r → r.Extends record) ∧ (mode = .automatic → id ∉ c.spent)
  | .persist => Records.Covers c.disk c.memory
  | .acknowledge id sha256 =>
      distinct → ∃ r, c.disk.lookup id = some r ∧ r.sha256 = sha256 ∧ r.Describes c.checked
  | .start id mode => (mode = .automatic → id ∉ c.spent) ∧
      mode.Admits ((c.loaded.lookup id).map (·.wallpaperStatus)) ∧
      (∃ r, c.memory.lookup id = some r ∧ r.wallpaperStatus = .running) ∧
      ∃ r, c.disk.lookup id = some r ∧ r.wallpaperStatus = .running
  | .answered | .verified _ _ | .received _ _ => True

/-- A write in memory keeps covering the state file. -/
theorem covers_insert {c : RunState} (h : c.Sound) {id : String} {record : DeliveryRecord}
    (hextends : ∀ r, c.memory.lookup id = some r → r.Extends record) :
    Records.Covers c.disk (c.memory.insert id record) := by
  intro j r hr
  obtain ⟨r', hr', hextends'⟩ := h.covers j r hr
  rw [Files.lookup_insert]
  by_cases hj : j = id
  · subst hj
    exact ⟨record, by rw [if_pos rfl], hextends'.trans (hextends r' hr')⟩
  · exact ⟨r', by rw [if_neg hj, hr'], hextends'⟩

theorem ids_insert {c : RunState} (h : c.Sound) {id : String} {record : DeliveryRecord}
    (hid : record.id = id) :
    ∀ j r, (c.memory.insert id record).lookup j = some r → r.id = j := by
  intro j r hr
  rw [Files.lookup_insert] at hr
  by_cases hj : j = id
  · rw [if_pos hj] at hr
    rw [← Option.some.inj hr, hid, hj]
  · rw [if_neg hj] at hr
    exact h.ids j r hr

/-- Every permitted step keeps the invariant. -/
theorem Sound.apply {d : Prop} {c : RunState} (h : c.Sound) {e : SyncStep}
    (he : c.Permitted d e) :
    (c.apply e).Sound := by
  cases e with
  | answered | acknowledge => exact h
  | verified | received => exact ⟨h.covers, h.ids, h.memory, h.disk⟩
  | load => exact ⟨.refl _, he, h.disk, h.disk⟩
  | update id record =>
    obtain ⟨hid, hextends, hclosed⟩ := he
    refine ⟨covers_insert h hextends, ids_insert h hid, fun j hj => ?_, h.disk⟩
    show ∃ r, (c.memory.insert id record).lookup j = some r ∧ _
    rw [Files.lookup_insert]
    by_cases heq : j = id
    · subst heq
      exact ⟨record, by rw [if_pos rfl], hclosed hj⟩
    · rw [if_neg heq]
      exact h.memory j hj
  | unconfigured mode id record =>
    obtain ⟨hid, hextends, -⟩ := he
    refine ⟨covers_insert h hextends, ids_insert h hid, fun j hj => ?_, fun j hj => ?_⟩
    · obtain ⟨hj, hne⟩ := List.mem_filter.mp hj
      show ∃ r, (c.memory.insert id record).lookup j = some r ∧ _
      rw [Files.lookup_insert, if_neg (by simpa using hne)]
      exact h.memory j hj
    · exact h.disk j (List.mem_filter.mp hj).1
  | persist => exact ⟨.refl _, h.ids, h.memory, h.memory⟩
  | start id mode =>
    obtain ⟨-, -, ⟨r, hr, hrunning⟩, r', hr', hrunning'⟩ := he
    refine ⟨h.covers, h.ids, fun j hj => ?_, fun j hj => ?_⟩
    · rcases List.mem_cons.mp hj with rfl | hj
      · exact ⟨r, hr, by rw [hrunning]; exact ⟨by decide, by decide⟩⟩
      · exact h.memory j hj
    · rcases List.mem_cons.mp hj with rfl | hj
      · exact ⟨r', hr', by rw [hrunning']; exact ⟨by decide, by decide⟩⟩
      · exact h.disk j hj

/-- How the status of a record may change before the queue is processed. -/
def Settles (before after : WallpaperStatus) : Prop :=
  after = before ∨ (before = .running ∧ after = .uncertain) ∨ after = .notApplicable

/-- A step between the loading of the state and the queue. -/
def Quiet (c : RunState) : SyncStep → Prop
  | .update id record =>
    match c.memory.lookup id with
    | some r => Settles r.wallpaperStatus record.wallpaperStatus
    | none => record.wallpaperStatus = .pending ∨ record.wallpaperStatus = .notApplicable
  | .load | .start _ _ | .unconfigured _ _ _ => False
  | .answered | .persist | .verified _ _ | .received _ _ | .acknowledge _ _ => True

/-- What is known of the status of a record before the queue is processed. -/
def SettledFrom (loaded : Option DeliveryRecord) (r : DeliveryRecord) : Prop :=
  match loaded with
  | some before => Settles before.wallpaperStatus r.wallpaperStatus
  | none => r.wallpaperStatus = .pending ∨ r.wallpaperStatus = .notApplicable

/-- The records before the queue is processed. -/
structure Settled (c : RunState) : Prop where
  present : ∀ id, (c.loaded.lookup id).isSome → (c.memory.lookup id).isSome
  status : ∀ id r, c.memory.lookup id = some r → SettledFrom (c.loaded.lookup id) r

theorem Settles.trans {a b c : WallpaperStatus} (h : Settles a b) (h' : Settles b c) :
    Settles a c := by
  unfold Settles at *
  rcases h' with rfl | ⟨rfl, rfl⟩ | rfl
  · exact h
  · rcases h with rfl | ⟨-, hfalse⟩ | hfalse
    · exact .inr (.inl ⟨rfl, rfl⟩)
    · contradiction
    · contradiction
  · exact .inr (.inr rfl)

theorem Settled.apply {c : RunState} (h : c.Settled) {e : SyncStep} (he : c.Quiet e) :
    (c.apply e).Settled := by
  cases e with
  | answered | acknowledge => exact h
  | verified | received | persist => exact ⟨h.present, h.status⟩
  | load | start | unconfigured => exact he.elim
  | update id record =>
    refine ⟨fun j hj => ?_, fun j r hr => ?_⟩
    · show ((c.memory.insert id record).lookup j).isSome
      rw [Files.lookup_insert]
      split
      · rfl
      · exact h.present j hj
    · have hr : (c.memory.insert id record).lookup j = some r := hr
      rw [Files.lookup_insert] at hr
      by_cases hj : j = id
      · subst hj
        rw [if_pos rfl] at hr
        cases Option.some.inj hr
        show SettledFrom (c.loaded.lookup j) record
        simp only [Quiet] at he
        cases hmemory : c.memory.lookup j with
        | none =>
          rw [hmemory] at he
          cases hloaded : c.loaded.lookup j with
          | none => exact he
          | some before =>
            have hpresent := h.present j (by rw [hloaded]; rfl)
            rw [hmemory] at hpresent
            contradiction
        | some before =>
          rw [hmemory] at he
          have hbefore := h.status j before hmemory
          cases hloaded : c.loaded.lookup j with
          | some first =>
            rw [hloaded] at hbefore
            exact Settles.trans hbefore he
          | none =>
            rw [hloaded] at hbefore
            rcases he with heq | ⟨hrunning, -⟩ | heq
            · show _ ∨ _
              rw [heq]
              exact hbefore
            · have hbefore : before.wallpaperStatus = .pending ∨
                  before.wallpaperStatus = .notApplicable := hbefore
              rw [hrunning] at hbefore
              rcases hbefore with hfalse | hfalse <;> contradiction
            · exact .inr heq
      · rw [if_neg hj] at hr
        exact h.status j r hr

/-- What the queue may take was admitted by the state file. -/
theorem Settled.admits {c : RunState} (h : c.Settled) {id : String} {r : DeliveryRecord}
    (hr : c.memory.lookup id = some r) {mode : WallpaperRunMode}
    (heligible : mode.eligible r.wallpaperStatus = true) :
    mode.Admits ((c.loaded.lookup id).map (·.wallpaperStatus)) := by
  have hstatus := h.status id r hr
  cases hloaded : c.loaded.lookup id with
  | none => trivial
  | some before =>
    rw [hloaded] at hstatus
    show mode.Admits (some before.wallpaperStatus)
    rcases hstatus with heq | ⟨hrunning, huncertain⟩ | hnone
    · rw [heq] at heligible
      cases mode with
      | automatic =>
        cases hb : before.wallpaperStatus <;> simp_all [WallpaperRunMode.eligible,
          WallpaperRunMode.Admits]
      | explicitRetry includeUncertain =>
        cases hb : before.wallpaperStatus <;> simp_all [WallpaperRunMode.eligible,
          WallpaperRunMode.Admits]
    · rw [huncertain] at heligible
      rw [hrunning]
      cases mode with
      | automatic => contradiction
      | explicitRetry includeUncertain =>
        simpa [WallpaperRunMode.eligible, WallpaperRunMode.Admits] using heligible
    · rw [hnone] at heligible
      cases mode with
      | automatic => contradiction
      | explicitRetry includeUncertain => simp [WallpaperRunMode.eligible] at heligible

end RunState

end MiRelay
