import MiRelay.Server.ExitGuards

/-!
# Nothing comes back after a finished exit

Requests admitted before a folder disconnects go on afterwards. Each of them
asks again whether the device is open while it holds the lock the exit needs,
or inside its transaction. Once the exit row says that the relay has cleaned
up, there is no row, no upload record and no part of the folder's device, in
that state and in every later one.
-/

namespace MiRelay

open Relay

/-- The device for which the part of this identity was last created. -/
def creatorOf (l : List Event) (id : String) : Option String :=
  (l.filterMap fun
    | .createPart device p => if p = id then some device else none
    | _ => none).getLast?

theorem creatorOf_append (l : List Event) (e : Event) (id : String) :
    creatorOf (l ++ [e]) id = match e with
      | .createPart device p => if p = id then some device else creatorOf l id
      | _ => creatorOf l id := by
  unfold creatorOf
  rw [List.filterMap_append]
  cases e with
  | createPart device p =>
    by_cases h : p = id <;> simp [h]
  | _ => simp

/-- No row, no upload record and no part of the device exists. -/
structure Relay.Cleared (l : List Event) (s : Relay) (device : String) : Prop where
  deliveries : ∀ d ∈ s.db.deliveries.rows, d.deviceId ≠ device
  versions : ∀ v ∈ s.db.directoryVersions.rows, v.deviceId ≠ device
  indexes : ∀ i ∈ s.db.directoryIndexes.rows, i.deviceId ≠ device
  records : ∀ r ∈ s.records.values, r.deviceId ≠ device
  parts : ∀ p ∈ s.parts.keys, creatorOf l p ≠ some device

namespace ServerStore

variable {store : ServerStore} {sha256 : Bytes → String} {s : Relay} {l : List Event}

/-- The exits the relay has finished when the metadata of a folder goes. -/
theorem serverCleaned_removeFolder (db : Database) (id f : String) :
    (db.removeFolder id).serverCleaned f = (db.serverCleaned f || (f == id && db.exiting f)) := by
  simp only [Database.removeFolder, Database.serverCleaned, Database.exiting, Database.updateExits,
    Database.updateFolders, Table.rows_update, List.any_map]
  rw [Bool.eq_iff_iff, Bool.or_eq_true, Bool.and_eq_true]
  simp only [List.any_eq_true, Function.comp_apply, Bool.and_eq_true, beq_iff_eq]
  constructor
  · rintro ⟨row, hrow, h⟩
    split at h
    · rename_i hid
      exact .inr ⟨h.1.symm.trans hid, row, hrow, h.1⟩
    · exact .inl ⟨row, hrow, h⟩
  · rintro (⟨row, hrow, hf, hclean⟩ | ⟨rfl, row, hrow, hf⟩)
    · refine ⟨row, hrow, ?_⟩
      split <;> simp [hf, hclean]
    · exact ⟨row, hrow, by simp [hf]⟩

/-- Nothing of a retired device is there, and every part was created for a device that is not
retired and owns its record. -/
structure Barrier (l : List Event) (s : Relay) : Prop where
  deliveries : ∀ d ∈ s.db.deliveries.rows, s.db.retired d.deviceId = false
  versions : ∀ v ∈ s.db.directoryVersions.rows, s.db.retired v.deviceId = false
  indexes : ∀ i ∈ s.db.directoryIndexes.rows, s.db.retired i.deviceId = false
  records : ∀ k r, s.records.lookup k = some r → s.db.retired r.deviceId = false
  parts : ∀ p bytes, s.parts.lookup p = some bytes → ∃ device, creatorOf l p = some device ∧
    s.db.retired device = false ∧ ∀ r, s.records.lookup p = some r → r.deviceId = device

theorem Barrier.cleared (h : Barrier l s) {id : String} (hclean : s.db.serverCleaned id = true) :
    s.Cleared l (folderDevice id) := by
  have hne : ∀ device, s.db.retired device = false → device ≠ folderDevice id := by
    rintro device hopen rfl
    rw [Database.retired_folderDevice, hclean] at hopen
    contradiction
  refine ⟨fun d hd => hne _ (h.deliveries d hd), fun v hv => hne _ (h.versions v hv),
    fun i hi => hne _ (h.indexes i hi), fun r hr => ?_, fun p hp hcreator => ?_⟩
  · obtain ⟨k, hk⟩ := (Files.mem_values_iff _ _).mp hr
    exact hne _ (h.records k r hk)
  · obtain ⟨bytes, hbytes⟩ := (Files.mem_keys_iff _ _).mp hp
    obtain ⟨device, hdevice, hopen, -⟩ := h.parts p bytes hbytes
    rw [hcreator] at hdevice
    exact hne device hopen (Option.some.inj hdevice).symm

/-- The barrier survives when nothing appears for a device and no device is retired. -/
theorem Barrier.shrink {t : Relay} {l' : List Event} (h : Barrier l s)
    (hretired : ∀ device, t.db.retired device = s.db.retired device)
    (hdeliveries : ∀ d ∈ t.db.deliveries.rows, ∃ d' ∈ s.db.deliveries.rows, d'.deviceId = d.deviceId)
    (hversions : ∀ v ∈ t.db.directoryVersions.rows, ∃ w ∈ s.db.directoryVersions.rows,
      w.deviceId = v.deviceId)
    (hindexes : ∀ i ∈ t.db.directoryIndexes.rows, (∃ j ∈ s.db.directoryIndexes.rows,
      j.deviceId = i.deviceId) ∨ s.db.retired i.deviceId = false)
    (hrecords : ∀ k r, t.records.lookup k = some r →
      ∃ r', s.records.lookup k = some r' ∧ r'.deviceId = r.deviceId)
    (hparts : ∀ p bytes, t.parts.lookup p = some bytes → ∃ old, s.parts.lookup p = some old)
    (hcreator : ∀ p, creatorOf l' p = creatorOf l p) : Barrier l' t where
  deliveries d hd := by
    obtain ⟨d', hd', hdevice⟩ := hdeliveries d hd
    rw [hretired, ← hdevice]
    exact h.deliveries d' hd'
  versions v hv := by
    obtain ⟨w, hw, hdevice⟩ := hversions v hv
    rw [hretired, ← hdevice]
    exact h.versions w hw
  indexes i hi := by
    rw [hretired]
    rcases hindexes i hi with ⟨j, hj, hdevice⟩ | hopen
    · rw [← hdevice]
      exact h.indexes j hj
    · exact hopen
  records k r hr := by
    obtain ⟨r', hr', hdevice⟩ := hrecords k r hr
    rw [hretired, ← hdevice]
    exact h.records k r' hr'
  parts p bytes hp := by
    obtain ⟨old, hold⟩ := hparts p bytes hp
    obtain ⟨device, hdevice, hopen, hown⟩ := h.parts p old hold
    refine ⟨device, by rw [hcreator, hdevice], by rw [hretired, hopen], fun r hr => ?_⟩
    obtain ⟨r', hr', heq⟩ := hrecords p r hr
    exact heq.symm.trans (hown r' hr')

/-- The barrier survives a change of the uploads that creates nothing. -/
theorem Barrier.uploads {t : Relay} {l' : List Event} (h : Barrier l s) (hdesk : t.desk = s.desk)
    (hrecords : ∀ k r, t.records.lookup k = some r →
      ∃ r', s.records.lookup k = some r' ∧ r'.deviceId = r.deviceId)
    (hparts : ∀ p bytes, t.parts.lookup p = some bytes → ∃ old, s.parts.lookup p = some old)
    (hcreator : ∀ p, creatorOf l' p = creatorOf l p) : Barrier l' t := by
  have hdb : t.db = s.db := by rw [Relay.db, hdesk]
  refine h.shrink (fun _ => by rw [hdb]) ?_ ?_ ?_ hrecords hparts hcreator
  · rw [hdb]
    exact fun d hd => ⟨d, hd, rfl⟩
  · rw [hdb]
    exact fun v hv => ⟨v, hv, rfl⟩
  · rw [hdb]
    exact fun i hi => .inl ⟨i, hi, rfl⟩

/-- Every permitted event keeps the barrier. -/
theorem Barrier.step {e : Event} (h : Barrier l s) (hp : Permitted store sha256 s e) :
    Barrier (l ++ [e]) (apply store sha256 s e) := by
  have hcreator : ∀ p, (∀ device id, e ≠ .createPart device id) →
      creatorOf (l ++ [e]) p = creatorOf l p := by
    intro p hne
    rw [creatorOf_append]
    split
    · rename_i device id
      exact absurd rfl (hne device id)
    · rfl
  cases e with
  | transaction t =>
    have hsame := sameContent_transaction store sha256 s hp
    refine h.shrink hsame.uploads.retired (fun d hd => ?_) (fun v hv => ?_) (fun i hi => ?_)
      (fun k r hr => ⟨r, by rw [← hsame.records]; exact hr, rfl⟩)
      (fun p bytes hb => ⟨bytes, by rw [← hsame.parts]; exact hb⟩) fun p => hcreator p (by simp)
    · obtain ⟨a, ha, -⟩ := hsame.db.rows d hd
      exact ⟨_, ha, rfl⟩
    · obtain ⟨w, hw, hdevice, -⟩ := hsame.db.version hv
      exact ⟨w, hw, hdevice⟩
    · rcases hsame.db.indexes i hi with hold | hopen
      · exact .inl hold
      · refine .inr ?_
        unfold Database.retired
        split
        · rename_i id hid
          by_contra hclean
          rw [Bool.not_eq_false] at hclean
          have hexit := Database.exiting_of_cleaned hclean
          rw [hopen id (stripLead_eq_some hid)] at hexit
          contradiction
        · rfl
  | stage | unstage | cleanupStaging | persist | collect | erase =>
    exact h.uploads rfl (fun k r hr => ⟨r, hr, rfl⟩) (fun p bytes hb => ⟨bytes, hb⟩)
      fun p => hcreator p (by simp)
  | insertDelivery origin device delivery createdAt directory now =>
    obtain ⟨db, hdb⟩ := hp.accepted
    have he := Database.enqueue_ok hdb
    rw [apply_insertDelivery store sha256 hdb]
    have hretired : ∀ device, (s.withDb db).db.retired device = s.db.retired device := by
      intro device
      simp only [db_withDb, Database.retired, Database.serverCleaned, he.folderExits]
    obtain ⟨acknowledged, -, hrows⟩ := he.deliveries
    refine ⟨fun d hd => ?_, fun v hv => ?_, fun i hi => ?_, fun k r hr => ?_, fun p bytes hb => ?_⟩
    · rw [hretired]
      rw [db_withDb, hrows, List.mem_append, List.mem_singleton] at hd
      rcases hd with hd | rfl
      · exact h.deliveries d hd
      · exact hp.unretired
    · rw [hretired]
      rw [db_withDb, he.versions, List.mem_append] at hv
      rcases hv with hv | hv
      · exact h.versions v hv
      · rw [Option.mem_toList, Option.map_eq_some_iff] at hv
        obtain ⟨version, -, rfl⟩ := hv
        exact hp.unretired
    · rw [hretired]
      rw [db_withDb, he.directoryIndexes] at hi
      exact h.indexes i hi
    · rw [hretired]
      exact h.records k r hr
    · obtain ⟨device, hdevice, hopen, hown⟩ := h.parts p bytes hb
      exact ⟨device, (hcreator p (by simp)).trans hdevice, (hretired device).trans hopen, hown⟩
  | removeFolder id =>
    obtain ⟨-, hnone, howned, -⟩ := hp
    have hretired : ∀ device, device ≠ folderDevice id → s.db.retired device = false →
        (apply store sha256 s (.removeFolder id)).db.retired device = false := by
      intro device hne hopen
      unfold Database.retired at hopen ⊢
      cases hstrip : stripLead "folder_" device with
      | none => rfl
      | some f =>
        rw [hstrip] at hopen
        have hf : (f == id) = false := by
          rw [beq_eq_false_iff_ne]
          rintro rfl
          exact hne (stripLead_eq_some hstrip)
        rw [apply, db_withDb]
        simp only [serverCleaned_removeFolder, hf, Bool.false_and, Bool.or_false]
        exact hopen
    refine ⟨fun d hd => ?_, fun v hv => ?_, fun i hi => ?_, fun k r hr => ?_, fun p bytes hb => ?_⟩
    · obtain ⟨hd, hdevice⟩ := Table.mem_delete.mp hd
      exact hretired _ (by simpa using hdevice) (h.deliveries d hd)
    · obtain ⟨hv, hdevice⟩ := Table.mem_delete.mp hv
      exact hretired _ (by simpa using hdevice) (h.versions v hv)
    · obtain ⟨hi, hdevice⟩ := Table.mem_delete.mp hi
      exact hretired _ (by simpa using hdevice) (h.indexes i hi)
    · exact hretired _ (hnone r ((Files.mem_values_iff _ _).mpr ⟨k, hr⟩)) (h.records k r hr)
    · obtain ⟨device, hdevice, hopen, hown⟩ := h.parts p bytes hb
      obtain ⟨r, hr⟩ := (Files.mem_keys_iff _ _).mp (howned p ((Files.mem_keys_iff _ _).mpr ⟨bytes, hb⟩))
      refine ⟨device, (hcreator p (by simp)).trans hdevice, hretired device ?_ hopen, hown⟩
      rw [← hown r hr]
      exact hnone r ((Files.mem_values_iff _ _).mpr ⟨p, hr⟩)
  | createRecord record =>
    obtain ⟨-, hpart, hopen, -⟩ := hp
    refine { h with
      records := fun k r hr => ?_
      parts := fun p bytes hb => ?_ }
    · rw [apply, records_withRecord, Files.lookup_insert] at hr
      split at hr
      · rw [← Option.some.inj hr]
        exact hopen
      · exact h.records k r hr
    · obtain ⟨device, hdevice, hopen, hown⟩ := h.parts p bytes hb
      refine ⟨device, (hcreator p (by simp)).trans hdevice, hopen, fun r hr => ?_⟩
      rw [apply, records_withRecord, Files.lookup_insert] at hr
      split at hr
      · rename_i heq
        have hb : s.parts.lookup p = some bytes := hb
        rw [heq, hpart] at hb
        contradiction
      · exact hown r hr
  | createPart device id =>
    obtain ⟨-, hopen, r, hr, hdevice, -⟩ := hp
    refine { h with parts := fun p bytes hb => ?_ }
    rw [creatorOf_append]
    by_cases hid : id = p
    · subst hid
      refine ⟨device, by simp, hopen, fun r' hr' => ?_⟩
      have hr' : s.records.lookup id = some r' := hr'
      rw [hr] at hr'
      rw [← Option.some.inj hr']
      exact hdevice
    · rw [apply, parts_withPart, Files.lookup_insert, if_neg (Ne.symm hid)] at hb
      simp only [if_neg hid]
      exact h.parts p bytes hb
  | writePart id bytes =>
    obtain ⟨r, old, -, hold, -⟩ := hp
    refine h.uploads rfl (fun k r hr => ⟨r, hr, rfl⟩) (fun p new hb => ?_) fun p => hcreator p (by simp)
    rw [apply, parts_withPart, Files.lookup_insert] at hb
    split at hb
    · rename_i heq
      exact ⟨old, by rw [heq]; exact hold⟩
    · exact ⟨new, hb⟩
  | advance record chunk | complete record =>
    have hlookup : s.records.lookup record.id = some record := by
      first
      | exact hp.1
      | exact hp.2.1.elim fun _ hv => hv.hasRecord
    refine h.uploads rfl (fun k r hr => ?_) (fun p bytes hb => ⟨bytes, hb⟩) fun p => hcreator p (by simp)
    rw [apply, records_withRecord, Files.lookup_insert] at hr
    split at hr
    · rename_i heq
      rw [← Option.some.inj hr]
      exact ⟨record, by rw [heq]; exact hlookup, rfl⟩
    · exact ⟨r, hr, rfl⟩
  | removePart id | discardPart id | purgePart id =>
    refine h.uploads rfl (fun k r hr => ⟨r, hr, rfl⟩) (fun p bytes hb => ?_) fun p => hcreator p (by simp)
    rw [apply, Files.lookup_erase] at hb
    split at hb
    · contradiction
    · exact ⟨bytes, hb⟩
  | discardRecord id readFails | purgeRecord id =>
    refine h.uploads rfl (fun k r hr => ?_) (fun p bytes hb => ⟨bytes, hb⟩) fun p => hcreator p (by simp)
    rw [apply, Files.lookup_erase] at hr
    split at hr
    · contradiction
    · exact ⟨r, hr, rfl⟩

/-- The barrier stands in every state of every run. -/
theorem barrier_run (l : List Action) :
    Barrier (store.trace sha256 Relay.initial l) (store.run sha256 Relay.initial l) := by
  refine (trace_permitted Relay.initial l).history (m := []) ?_ fun _ _ _ => Barrier.step
  refine ⟨?_, ?_, ?_, ?_, ?_⟩ <;> simp [Relay.initial, Desk.initial, Database.initial]

/-- A finished exit stays finished. -/
theorem serverCleaned_step {e : Event} {id : String} (h : s.db.serverCleaned id = true)
    (hp : Permitted store sha256 s e) : (apply store sha256 s e).db.serverCleaned id = true := by
  cases e with
  | transaction t =>
    rw [(sameContent_transaction store sha256 s hp).db.cleaned]
    exact h
  | insertDelivery origin device delivery createdAt directory now =>
    rw [apply, db_withDb, Database.serverCleaned, folderExits_insert]
    exact h
  | removeFolder f =>
    rw [apply, db_withDb, serverCleaned_removeFolder, h, Bool.true_or]
  | _ => exact h

/-- From the moment the exit row says that the relay has cleaned up, nothing of the folder's
device exists, in any later state of any run. -/
theorem revocation_barrier (store : ServerStore) (sha256 : Bytes → String) (l m : List Action)
    (id : String) (h : (store.run sha256 Relay.initial l).db.serverCleaned id = true) :
    (store.run sha256 Relay.initial (l ++ m)).Cleared (store.trace sha256 Relay.initial (l ++ m))
      (folderDevice id) := by
  refine (barrier_run (l ++ m)).cleared ?_
  rw [run_append]
  exact run_invariant h (fun _ _ => serverCleaned_step) m

/-- A folder with an upload that has begun disconnects, and the relay cleans up. -/
def retiredFolder : List Action :=
  [.outside (.transaction (.createFolder "00000000-0000-4000-8000-000000000001" "Notes" "r1" "i1" 900)),
    .upload (.create "folder_00000000-0000-4000-8000-000000000001"
      ⟨none, "note.txt", "text/plain",
        "8f434346648f6b96df89dda901c5176b10a6d83961dd3c1ac88b59b2dc327aa4", 2, "filename bm90ZS50eHQ="⟩
      ["00000000-0000-4000-8000-0000000000a1"] 10) [] none,
    .outside (.transaction (.beginExit "00000000-0000-4000-8000-000000000001" (some "r1"))),
    .finishExit "00000000-0000-4000-8000-000000000001" [] [] [] [] none]

/-- Requests of the folder that were admitted before. -/
def lateRequests : List Action :=
  [.upload (.patch "folder_00000000-0000-4000-8000-000000000001"
      "00000000-0000-4000-8000-0000000000a1" 0 [104, 105] 2 0 undisturbed
      undisturbed) [] none,
    .outside (.content (.enqueue "folder_00000000-0000-4000-8000-000000000001" [104, 105] [104, 105]
      "note.txt" "00000000-0000-4000-8000-0000000000a2" 20 20) [] none)]

theorem revocation_barrier_lateRequests :
    (sampleStore.run sampleDigest Relay.initial (retiredFolder ++ lateRequests)).Cleared
      (sampleStore.trace sampleDigest Relay.initial (retiredFolder ++ lateRequests))
      (folderDevice "00000000-0000-4000-8000-000000000001") :=
  revocation_barrier sampleStore sampleDigest retiredFolder lateRequests _ (by decide +kernel)

end ServerStore

end MiRelay
