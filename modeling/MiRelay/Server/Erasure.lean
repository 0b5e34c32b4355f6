import MiRelay.Core.Run
import MiRelay.Server.Revocation

/-!
# What a finished exit leaves of the content

The exit finds the objects of its folder through delivery rows, while the
writer stores an object before it inserts the row. As long as every object that
an operation stores for the folder also gets its row in that operation, an
object that is left after the exit was stored on behalf of another device.
-/

namespace MiRelay

open Relay

section Observation

variable (sha256 : Bytes → String)

/-- The event stores this object on behalf of the device, or records that it needs it. -/
def Event.storesFor (name : ObjectName) : Event → Option String
  | .persist device bytes => if nameOf sha256 bytes = name then some device else none
  | .insertDelivery _ device delivery _ _ _ =>
    if objectOf delivery.sha256 delivery.mediaType = some name then some device else none
  | _ => none

/-- The devices on whose behalf an object was ever stored. -/
def storedFor (l : List Event) (name : ObjectName) : List String :=
  l.filterMap (Event.storesFor sha256 name)

/-- The bytes that became content objects. -/
def persisted (l : List Event) : List Bytes :=
  l.filterMap fun
    | .persist _ bytes => some bytes
    | _ => none

/-- No two of the stored payloads have the same digest. -/
def CollisionFree (l : List Event) : Prop :=
  ∀ a ∈ persisted l, ∀ b ∈ persisted l, sha256 a = sha256 b → a = b

/-- The objects stored for the device whose row has not been inserted since. -/
def unclaimed (device : String) (l : List Event) : List ObjectName :=
  l.foldl (fun names e => match e with
    | .persist d bytes => if d = device then nameOf sha256 bytes :: names else names
    | .insertDelivery _ d delivery _ _ _ =>
      if d = device then names.filter fun n => objectOf delivery.sha256 delivery.mediaType ≠ some n
      else names
    | _ => names) []

variable {sha256}

theorem mem_storedFor_append {l : List Event} {e : Event} {name : ObjectName} {device : String} :
    device ∈ storedFor sha256 (l ++ [e]) name ↔
      device ∈ storedFor sha256 l name ∨ e.storesFor sha256 name = some device := by
  rw [storedFor, List.filterMap_append, List.mem_append]
  cases h : e.storesFor sha256 name with
  | none => simp [storedFor, h]
  | some d => simp [storedFor, h, eq_comm]

theorem mem_persisted_append {l : List Event} {e : Event} {bytes : Bytes} :
    bytes ∈ persisted (l ++ [e]) ↔
      bytes ∈ persisted l ∨ ∃ device, e = .persist device bytes := by
  rw [persisted, List.filterMap_append, List.mem_append]
  cases e <;> simp [persisted, eq_comm]

theorem CollisionFree.of_append {l m : List Event} (h : CollisionFree sha256 (l ++ m)) :
    CollisionFree sha256 l := by
  have hmem : ∀ a ∈ persisted l, a ∈ persisted (l ++ m) := by
    intro a ha
    rw [persisted, List.filterMap_append]
    exact List.mem_append_left _ ha
  exact fun a ha b hb => h a (hmem a ha) b (hmem b hb)

theorem unclaimed_append (device : String) (l : List Event) (e : Event) :
    unclaimed sha256 device (l ++ [e]) = match e with
      | .persist d bytes =>
        if d = device then nameOf sha256 bytes :: unclaimed sha256 device l
        else unclaimed sha256 device l
      | .insertDelivery _ d delivery _ _ _ =>
        if d = device then
          (unclaimed sha256 device l).filter fun n =>
            objectOf delivery.sha256 delivery.mediaType ≠ some n
        else unclaimed sha256 device l
      | _ => unclaimed sha256 device l := by
  rw [unclaimed, List.foldl_append]
  cases e <;> rfl

end Observation

namespace ServerStore

variable {store : ServerStore} {sha256 : Bytes → String} {s : Relay}

/-- Every object the operation stores for the device also gets its row in the operation. -/
def claimsAll (store : ServerStore) (sha256 : Bytes → String) (device : String) (s : Relay)
    (a : Action) : Bool :=
  (unclaimed sha256 device (store.perform sha256 a s).events).isEmpty

/-- Where the rows and the objects come from, and for whom each object is there: the events so
far, the objects still without a row, the state. -/
structure Tracked (sha256 : Bytes → String) (device : String) (m : List Event)
    (open_ : List ObjectName) (s : Relay) : Prop where
  rowDevice : ∀ d ∈ s.db.deliveries.rows, ∀ name, d.object = some name →
    d.deviceId ∈ storedFor sha256 m name
  rowBytes : ∀ d ∈ s.db.deliveries.rows, ∃ bytes ∈ persisted m, sha256 bytes = d.sha256 ∧
    (mediaOf bytes).1 = d.mediaType
  objects : ∀ name bytes, s.library.objects.lookup name = some bytes → bytes ∈ persisted m
  claimed : CollisionFree sha256 m → ∀ name bytes, s.library.objects.lookup name = some bytes →
    name ∈ open_ ∨ (∃ other ∈ storedFor sha256 m name, other ≠ device) ∨
      ∃ d ∈ s.db.deliveries.rows, d.deviceId = device ∧ d.object = some name

/-- The tracking survives events that add neither rows nor objects and remove no row. -/
theorem Tracked.shrink {device : String} {m : List Event} {open_ : List ObjectName} {e : Event}
    {t : Relay} (h : Tracked sha256 device m open_ s)
    (hrows : ∀ d ∈ t.db.deliveries.rows, ∃ a, { d with acknowledgedAtUnix := a } ∈ s.db.deliveries.rows)
    (hkept : ∀ d ∈ s.db.deliveries.rows, ∃ a, { d with acknowledgedAtUnix := a } ∈ t.db.deliveries.rows)
    (hobjects : ∀ name bytes, t.library.objects.lookup name = some bytes →
      s.library.objects.lookup name = some bytes) :
    Tracked sha256 device (m ++ [e]) open_ t where
  rowDevice d hd name hname := by
    obtain ⟨a, ha⟩ := hrows d hd
    exact mem_storedFor_append.mpr (.inl (h.rowDevice _ ha name hname))
  rowBytes d hd := by
    obtain ⟨a, ha⟩ := hrows d hd
    obtain ⟨bytes, hbytes, hrest⟩ := h.rowBytes _ ha
    exact ⟨bytes, mem_persisted_append.mpr (.inl hbytes), hrest⟩
  objects name bytes hl := mem_persisted_append.mpr (.inl (h.objects name bytes (hobjects _ _ hl)))
  claimed hfree name bytes hl := by
    rcases h.claimed hfree.of_append name bytes (hobjects _ _ hl) with
      hopen | ⟨other, hother, hne⟩ | ⟨d, hd, hdevice, hname⟩
    · exact .inl hopen
    · exact .inr (.inl ⟨other, mem_storedFor_append.mpr (.inl hother), hne⟩)
    · obtain ⟨a, ha⟩ := hkept d hd
      exact .inr (.inr ⟨_, ha, hdevice, hname⟩)

/-- The tracking survives events that leave database and objects alone. -/
theorem Tracked.same {device : String} {m : List Event} {open_ : List ObjectName} {e : Event}
    {t : Relay} (h : Tracked sha256 device m open_ s) (hdesk : t.desk = s.desk)
    (hobjects : ∀ name bytes, t.library.objects.lookup name = some bytes →
      s.library.objects.lookup name = some bytes) :
    Tracked sha256 device (m ++ [e]) open_ t := by
  have hdb : t.db = s.db := by rw [Relay.db, hdesk]
  refine h.shrink ?_ ?_ hobjects <;>
  · rw [hdb]
    exact fun d hd => ⟨d.acknowledgedAtUnix, hd⟩

/-- A permitted event keeps the tracking; `l` are the events of the operation so far. -/
theorem Tracked.step {id : String} {m l : List Event} {e : Event}
    (h : Tracked sha256 (folderDevice id) m (unclaimed sha256 (folderDevice id) l) s)
    (hp : Permitted store sha256 s e) :
    Tracked sha256 (folderDevice id) (m ++ [e]) (unclaimed sha256 (folderDevice id) (l ++ [e]))
      (apply store sha256 s e) := by
  rw [unclaimed_append]
  cases e with
  | transaction t =>
    have hsame := sameContent_transaction store sha256 s hp
    refine h.shrink (fun d hd => ?_) (fun d hd => ?_) fun name bytes hl => ?_
    · obtain ⟨a, ha, -⟩ := hsame.db.rows d hd
      exact ⟨a, ha⟩
    · obtain ⟨a, ha, -⟩ := hsame.db.kept d hd
      exact ⟨a, ha⟩
    · rwa [hsame.library] at hl
  | persist device bytes =>
    have hmono : ∀ {name other}, other ∈ storedFor sha256 m name →
        other ∈ storedFor sha256 (m ++ [.persist device bytes]) name :=
      fun ho => mem_storedFor_append.mpr (.inl ho)
    refine ⟨fun d hd name hname => hmono (h.rowDevice d hd name hname), fun d hd => ?_,
      fun name b hl => ?_, fun hfree name b hl => ?_⟩
    · obtain ⟨b, hb, hrest⟩ := h.rowBytes d hd
      exact ⟨b, mem_persisted_append.mpr (.inl hb), hrest⟩
    · rw [apply, Files.lookup_insert] at hl
      split at hl
      · obtain rfl := Option.some.inj hl
        exact mem_persisted_append.mpr (.inr ⟨device, rfl⟩)
      · exact mem_persisted_append.mpr (.inl (h.objects name b hl))
    · rw [apply, Files.lookup_insert] at hl
      by_cases hdevice : device = folderDevice id
      · simp only [if_pos hdevice]
        split at hl
        · rename_i heq
          exact .inl (heq ▸ List.mem_cons_self ..)
        · rcases h.claimed hfree.of_append name b hl with hopen | ⟨other, ho, hne⟩ | hrow
          · exact .inl (List.mem_cons_of_mem _ hopen)
          · exact .inr (.inl ⟨other, hmono ho, hne⟩)
          · exact .inr (.inr hrow)
      · simp only [if_neg hdevice]
        split at hl
        · rename_i heq
          refine .inr (.inl ⟨device, mem_storedFor_append.mpr (.inr ?_), hdevice⟩)
          rw [heq, Event.storesFor, if_pos rfl]
        · rcases h.claimed hfree.of_append name b hl with hopen | ⟨other, ho, hne⟩ | hrow
          · exact .inl hopen
          · exact .inr (.inl ⟨other, hmono ho, hne⟩)
          · exact .inr (.inr hrow)
  | insertDelivery origin device delivery createdAt directory now =>
    obtain ⟨db, hdb⟩ := hp.accepted
    obtain ⟨acknowledged, -, hrows⟩ := (Database.enqueue_ok hdb).deliveries
    rw [apply_insertDelivery store sha256 hdb]
    have hmono : ∀ {name other}, other ∈ storedFor sha256 m name → other ∈ storedFor sha256
        (m ++ [.insertDelivery origin device delivery createdAt directory now]) name :=
      fun ho => mem_storedFor_append.mpr (.inl ho)
    have hnew : ∀ {name}, objectOf delivery.sha256 delivery.mediaType = some name →
        device ∈ storedFor sha256
          (m ++ [.insertDelivery origin device delivery createdAt directory now]) name := by
      intro name hname
      refine mem_storedFor_append.mpr (.inr ?_)
      rw [Event.storesFor, if_pos hname]
    refine ⟨fun d hd name hname => ?_, fun d hd => ?_, fun name b hl => ?_, fun hfree name b hl => ?_⟩
    · rw [db_withDb, hrows, List.mem_append, List.mem_singleton] at hd
      rcases hd with hd | rfl
      · exact hmono (h.rowDevice d hd name hname)
      · exact hnew hname
    · rw [db_withDb, hrows, List.mem_append, List.mem_singleton] at hd
      rcases hd with hd | rfl
      · obtain ⟨b, hb, hrest⟩ := h.rowBytes d hd
        exact ⟨b, mem_persisted_append.mpr (.inl hb), hrest⟩
      · obtain ⟨b, hl, -, hsha, hmedia⟩ := hp.stored
        exact ⟨b, mem_persisted_append.mpr (.inl (h.objects _ b hl)), hsha.symm, hmedia.symm⟩
    · exact mem_persisted_append.mpr (.inl (h.objects name b hl))
    · rcases h.claimed hfree.of_append name b hl with hopen | ⟨other, ho, hne⟩ | ⟨d, hd, hrest⟩
      · by_cases hname : objectOf delivery.sha256 delivery.mediaType = some name
        · by_cases hdevice : device = folderDevice id
          · refine .inr (.inr ⟨{ delivery.row device (s.db.lastSequence + 1) createdAt with
              acknowledgedAtUnix := acknowledged }, ?_, hdevice, hname⟩)
            rw [db_withDb, hrows]
            simp
          · exact .inr (.inl ⟨device, hnew hname, hdevice⟩)
        · refine .inl ?_
          dsimp only
          split
          · exact List.mem_filter.mpr ⟨hopen, by simpa using hname⟩
          · exact hopen
      · exact .inr (.inl ⟨other, hmono ho, hne⟩)
      · refine .inr (.inr ⟨d, ?_, hrest⟩)
        rw [db_withDb, hrows]
        exact List.mem_append_left _ hd
  | collect name | erase f name =>
    refine h.same rfl fun n bytes hl => ?_
    rw [apply, Files.lookup_erase] at hl
    split at hl
    · contradiction
    · exact hl
  | removeFolder f =>
    obtain ⟨-, -, -, hgone⟩ := hp
    refine ⟨fun d hd name hname => mem_storedFor_append.mpr
      (.inl (h.rowDevice d (Table.mem_delete.mp hd).1 name hname)), fun d hd => ?_,
      fun name b hl => mem_persisted_append.mpr (.inl (h.objects name b hl)),
      fun hfree name b hl => ?_⟩
    · obtain ⟨b, hb, hrest⟩ := h.rowBytes d (Table.mem_delete.mp hd).1
      exact ⟨b, mem_persisted_append.mpr (.inl hb), hrest⟩
    · rcases h.claimed hfree.of_append name b hl with hopen | ⟨other, ho, hne⟩ |
        ⟨d, hd, hdevice, hname⟩
      · exact .inl hopen
      · exact .inr (.inl ⟨other, mem_storedFor_append.mpr (.inl ho), hne⟩)
      · by_cases hf : d.deviceId = folderDevice f
        · rcases hgone d hd hf name hname with hnone | hshared
          · have hl : s.library.objects.lookup name = some b := hl
            rw [hnone] at hl
            contradiction
          · -- Another device waits for the digest; its row names the same object.
            simp only [isShared, List.any_eq_true, Bool.and_eq_true, beq_iff_eq, bne_iff_ne] at hshared
            obtain ⟨d', hd', ⟨hdigest, hne⟩, -⟩ := hshared
            obtain ⟨a, ha, hasha, hamedia⟩ := h.rowBytes d hd
            obtain ⟨c, hc, hcsha, hcmedia⟩ := h.rowBytes d' hd'
            obtain rfl : a = c := hfree.of_append a ha c hc (by rw [hasha, hcsha, hdigest])
            have hname' : d'.object = some name := by
              rw [← hname, DeliveryRow.object, DeliveryRow.object, hdigest, ← hamedia, ← hcmedia]
            refine .inr (.inl ⟨d'.deviceId, mem_storedFor_append.mpr
              (.inl (h.rowDevice d' hd' name hname')), ?_⟩)
            rw [← hdevice, hf]
            exact hne
        · exact .inr (.inr ⟨d, Table.mem_delete.mpr ⟨hd, by simpa using hf⟩, hdevice, hname⟩)
  | _ => exact h.same rfl fun _ _ hl => hl

/-- An operation that claims all it stores leaves nothing open. -/
theorem Tracked.perform {id : String} {m : List Event} {a : Action}
    (h : Tracked sha256 (folderDevice id) m [] s)
    (hclaims : store.claimsAll sha256 (folderDevice id) s a = true) :
    Tracked sha256 (folderDevice id) (m ++ (store.perform sha256 a s).events) []
      ((store.perform sha256 a).final s) := by
  have hperm : Guarded (apply store sha256) (Permitted store sha256) s
      (store.perform sha256 a s).events := perform_permitted a s
  have hall := hperm.history (m := [])
    (I := fun l t => Tracked sha256 (folderDevice id) (m ++ l)
      (unclaimed sha256 (folderDevice id) l) t) (by simpa [unclaimed] using h)
    fun l t e ht hp => by
      rw [← List.append_assoc]
      exact ht.step hp
  rw [List.nil_append, List.isEmpty_iff.mp hclaims] at hall
  exact hall

/-- A folder gets a version of a path, and then another payload under the same version, which
the version store refuses; then the folder exits. -/
def refusedVersion : List Action :=
  [.outside (.transaction (.createFolder "00000000-0000-4000-8000-000000000001" "Notes" "r1" "i1" 900)),
    .outside (.transaction (.publish "folder_00000000-0000-4000-8000-000000000001"
      ⟨none, ⟨"00000000-0000-4000-8000-0000000000aa", []⟩⟩)),
    .upload (.create "folder_00000000-0000-4000-8000-000000000001"
      ⟨some ⟨"n", 1⟩, "n", "text/plain", sampleDigest [104, 105], 2, "filename bg=="⟩
      ["00000000-0000-4000-8000-0000000000a1"] 10) [] none,
    .upload (.patch "folder_00000000-0000-4000-8000-000000000001"
      "00000000-0000-4000-8000-0000000000a1" 0 [104, 105] 2 2 undisturbed undisturbed) [] none,
    .upload (.create "folder_00000000-0000-4000-8000-000000000001"
      ⟨some ⟨"n", 1⟩, "n", "text/plain", sampleDigest [104, 106], 2, "filename bg=="⟩
      ["00000000-0000-4000-8000-0000000000a2"] 11) [] none,
    .upload (.patch "folder_00000000-0000-4000-8000-000000000001"
      "00000000-0000-4000-8000-0000000000a2" 0 [104, 106] 2 2 undisturbed undisturbed) [] none,
    .outside (.transaction (.beginExit "00000000-0000-4000-8000-000000000001" (some "r1"))),
    .finishExit "00000000-0000-4000-8000-000000000001" [] [] [] [] none]

/-- The record of the upload that is delivered. -/
def deliveredRecord : UploadRecord :=
  ⟨some ⟨"n", 1⟩, 1, "00000000-0000-4000-8000-0000000000a1",
    "folder_00000000-0000-4000-8000-000000000001", "n", "text/plain", sampleDigest [104, 105], 2, 0,
    "filename bg==", 10, none⟩

/-- The record of the upload that is refused. -/
def refusedRecord : UploadRecord :=
  ⟨some ⟨"n", 1⟩, 1, "00000000-0000-4000-8000-0000000000a2",
    "folder_00000000-0000-4000-8000-000000000001", "n", "text/plain", sampleDigest [104, 106], 2, 0,
    "filename bg==", 11, none⟩

/-- What the first four actions do: the version is delivered. -/
def deliveredEvents : List Event :=
  [.transaction (.createFolder "00000000-0000-4000-8000-000000000001" "Notes" "r1" "i1" 900),
    .transaction (.publish deliveredRecord.deviceId
      ⟨none, ⟨"00000000-0000-4000-8000-0000000000aa", []⟩⟩),
    .createRecord deliveredRecord, .createPart deliveredRecord.deviceId deliveredRecord.id,
    .writePart deliveredRecord.id [104, 105], .writePart deliveredRecord.id [104, 105],
    .advance deliveredRecord [104, 105], .stage [104, 105],
    .persist deliveredRecord.deviceId [104, 105],
    .insertDelivery .upload deliveredRecord.deviceId
      ⟨1, deliveredRecord.id, "n", "", 2, deliveredRecord.sha256, "text/plain", some 10⟩ 10
      (some ⟨"n", 1⟩) 20,
    .complete { deliveredRecord with offset := 2 }, .removePart deliveredRecord.id]

/-- What the next two do: the second payload is stored and its version refused. -/
def refusedEvents : List Event :=
  [.createRecord refusedRecord, .createPart refusedRecord.deviceId refusedRecord.id,
    .writePart refusedRecord.id [104, 106], .writePart refusedRecord.id [104, 106],
    .advance refusedRecord [104, 106], .stage [104, 106],
    .persist refusedRecord.deviceId [104, 106]]

/-- What the last two do: the exit is finished. -/
def exitEvents : List Event :=
  [.transaction (.beginExit "00000000-0000-4000-8000-000000000001" (some "r1")),
    .purgePart refusedRecord.id, .purgeRecord refusedRecord.id,
    .purgePart deliveredRecord.id, .purgeRecord deliveredRecord.id,
    .erase "00000000-0000-4000-8000-000000000001" (nameOf sampleDigest [104, 105]),
    .removeFolder "00000000-0000-4000-8000-000000000001"]

theorem refusedVersion_events :
    sampleStore.trace sampleDigest Relay.initial (refusedVersion.take 4) = deliveredEvents ∧
    sampleStore.trace sampleDigest (replay sampleStore sampleDigest Relay.initial deliveredEvents)
      ((refusedVersion.drop 4).take 2) = refusedEvents ∧
    sampleStore.trace sampleDigest (replay sampleStore sampleDigest Relay.initial
      (deliveredEvents ++ refusedEvents)) (refusedVersion.drop 6) = exitEvents :=
  ⟨by decide +kernel, by decide +kernel, by decide +kernel⟩

theorem trace_refusedVersion_prefix :
    sampleStore.trace sampleDigest Relay.initial (refusedVersion.take 6) =
      deliveredEvents ++ refusedEvents := by
  rw [show refusedVersion.take 6 = refusedVersion.take 4 ++ (refusedVersion.drop 4).take 2 from rfl,
    trace_append, run,
    refusedVersion_events.1, refusedVersion_events.2.1]

end ServerStore

end MiRelay
