import MiRelay.Server.Discards

/-!
# What a resumable upload stands for

An upload stands for the bytes accepted for it, a string that only grows. The
record and the part keep it across every request and every crash, a request
that does not continue it leaves it alone, and once it is what the upload
declared it becomes one delivery, whose insertion later requests repeat until
it is there.
-/

namespace MiRelay

open Proc Relay

/-- A PATCH request: the offset and the length in its header, and its body up to the end or to
where it breaks off. -/
structure PatchRequest where
  device : String
  uploadId : String
  expectedOffset : Nat
  contentLength : Option Nat
  body : Bytes
  breaksOff : Bool
  deriving DecidableEq, Repr

namespace PatchRequest

/-- The request does not continue the upload: it has another offset, or more than what remains
in its body or in its header. -/
def Refused (q : PatchRequest) (r : UploadRecord) : Prop :=
  q.expectedOffset ≠ r.offset ∨ r.length - r.offset < q.body.length ∨
    ∃ n, q.contentLength = some n ∧ r.length - r.offset < n

end PatchRequest

/-- The event discards an upload. -/
def Event.discards : Event → Bool
  | .discardRecord _ _ => true
  | _ => false

/-- Collisions do not depend on who is told of a conflict. -/
theorem Database.Undisturbed.versionCollision {db db' : Database} (h : db.Undisturbed db')
    (device : String) (version : DirectoryVersion) :
    db'.versionCollision device version = db.versionCollision device version := by
  have hmap : ∀ db : Database, db.versionCollision device version =
      (db.directoryVersions.rows.map fun v => { v with conflict := false }).any fun v =>
        v.deviceId == device && ((v.path == version.path && v.version == version.version) ||
          sqlBelow version.path v.path || sqlBelow v.path version.path) := by
    intro db
    rw [List.any_map]
    rfl
  rw [hmap, hmap, h.versions]

namespace ServerStore

variable {store : ServerStore} {sha256 : Bytes → String} {s : Relay} {m : List Event} {e : Event}

/-- Every object has the name of its bytes, and these were stored. -/
def Cataloged (sha256 : Bytes → String) (m : List Event) (s : Relay) : Prop :=
  ∀ name bytes, s.library.objects.lookup name = some bytes →
    nameOf sha256 bytes = name ∧ bytes ∈ persisted m

theorem Cataloged.step (h : Cataloged sha256 m s) (hp : Permitted store sha256 s e) :
    Cataloged sha256 (m ++ [e]) (apply store sha256 s e) := by
  have hold : ∀ name bytes, s.library.objects.lookup name = some bytes →
      nameOf sha256 bytes = name ∧ bytes ∈ persisted (m ++ [e]) := fun name bytes hl =>
    ⟨(h name bytes hl).1, mem_persisted_append.mpr (.inl (h name bytes hl).2)⟩
  intro name bytes hl
  cases e with
  | transaction t =>
    rw [(sameContent_transaction store sha256 s hp).library] at hl
    exact hold name bytes hl
  | persist device new =>
    rw [apply, Files.lookup_insert] at hl
    split at hl
    · rename_i hname
      obtain rfl := Option.some.inj hl
      exact ⟨hname.symm, mem_persisted_append.mpr (.inr ⟨device, rfl⟩)⟩
    · exact hold name bytes hl
  | collect n | erase f n =>
    rw [apply, Files.lookup_erase] at hl
    split at hl
    · contradiction
    · exact hold name bytes hl
  | _ => exact hold name bytes hl

/-- What the events of a run say of the uploads and the deliveries in its last state. -/
structure Annals (store : ServerStore) (sha256 : Bytes → String) (m : List Event) (s : Relay) :
    Prop where
  valid : store.RecordsValid s
  committed : Committed m s
  sourced : Sourced m s
  delivered : Delivered s
  cataloged : Cataloged sha256 m s
  accounted : Regular m → Accounted sha256 m s
  kept : Regular m → RecordsKept sha256 m s

theorem Annals.step (h : Annals store sha256 m s) (hp : Permitted store sha256 s e) :
    Annals store sha256 (m ++ [e]) (apply store sha256 s e) where
  valid := recordsValid_step h.valid hp
  committed := h.committed.step hp
  sourced := h.sourced.step hp
  delivered := h.delivered.step hp
  cataloged := h.cataloged.step hp
  accounted hreg := (h.accounted hreg.of_append).step hp h.sourced h.committed hreg
  kept hreg := (h.kept hreg.of_append).step hp h.valid h.sourced h.committed hreg

theorem annals_run (l : List Action) :
    Annals store sha256 (store.trace sha256 Relay.initial l)
      (store.run sha256 Relay.initial l) := by
  refine (trace_permitted Relay.initial l).history (m := []) ?_ fun _ _ _ => Annals.step
  constructor
  case committed => constructor <;> simp [Relay.initial]
  case accounted =>
    refine fun _ => ⟨?_, ?_, ?_⟩ <;>
      simp [Relay.initial, Desk.initial, Database.initial, insertions]
  all_goals simp [Relay.initial, RecordsValid, Sourced, Delivered, Cataloged, RecordsKept]

/-- The row of a created upload holds what was accepted for it. -/
theorem Accounted.row (h : Accounted sha256 m s) {r : UploadRecord}
    (hr : Event.createRecord r ∈ m) {d : DeliveryRow} (hd : d ∈ s.db.deliveries.rows)
    (hid : d.deliveryId = r.id) :
    d.Holds r.deviceId (deliveryFor r.originalName r.id r.createdAtUnix
      (inspection sha256 (acceptedBytes m r.id))) := by
  obtain ⟨origin, delivery, createdAt, directory, now, hmem, hholds⟩ := h.rows d hd
  have hinserted : Event.insertDelivery origin d.deviceId delivery createdAt directory now ∈
      insertions m r.id :=
    List.mem_filter.mpr ⟨hmem, by simp [← hid, hholds.2.1]⟩
  rcases h.inserted r hr with hnone | ⟨now', hone, -, -⟩
  · rw [hnone] at hinserted
    contradiction
  · rw [hone, List.mem_singleton, insertionOf, Event.insertDelivery.injEq] at hinserted
    obtain ⟨-, hdevice, rfl, -⟩ := hinserted
    rwa [hdevice] at hholds

end ServerStore

namespace ServerStore

variable {store : ServerStore} {sha256 : Bytes → String} {s : Relay} {m : List Event} {e : Event}

/-- The last request for the complete upload, after all the others were cut off. -/
def retried : List Action :=
  completeUpload ++ [.upload (.head "linux" completeRecord.id undisturbed) [] (some 3),
    .upload (.head "linux" completeRecord.id undisturbed) [] (some 5),
    .upload (.head "linux" completeRecord.id undisturbed) [] none]

/-- A version that collides goes on to, until the exit of its folder begins. -/
theorem collision_step (hp : Permitted store sha256 s e) {device : String}
    {version : DirectoryVersion} (h : s.db.versionCollision device version = true) :
    (apply store sha256 s e).db.versionCollision device version = true ∨
      ¬(apply store sha256 s e).db.Open device := by
  cases e with
  | transaction t =>
    rw [(sameContent_transaction store sha256 s hp).db.versionCollision]
    exact .inl h
  | insertDelivery origin device' delivery createdAt directory now =>
    obtain ⟨db, hdb⟩ := hp.accepted
    refine .inl ?_
    rw [apply_insertDelivery store sha256 hdb, db_withDb, Database.versionCollision,
      (Database.enqueue_ok hdb).versions, List.any_append, Bool.or_eq_true]
    exact .inl h
  | removeFolder f =>
    by_cases hf : device = folderDevice f
    · refine .inr fun hopen => ?_
      have hexit : s.db.exiting f = true := hp.1
      rw [open_of_step hp hopen f hf] at hexit
      contradiction
    · obtain ⟨w, hw, hcollides⟩ := List.any_eq_true.mp h
      refine .inl (List.any_eq_true.mpr ⟨w, Table.mem_delete.mpr ⟨hw, ?_⟩, hcollides⟩)
      simp only [Bool.and_eq_true, beq_iff_eq] at hcollides
      simpa [hcollides.1] using hf
  | _ => exact .inl h

/-- The version store has another delivery in the way of this upload, or the exit of its folder
has begun. -/
def Shut (s : Relay) (r : UploadRecord) : Prop :=
  (¬s.db.Has r.deviceId r.id ∧
    ∃ v, r.directory = some v ∧ s.db.versionCollision r.deviceId v = true) ∨
  ¬s.db.Open r.deviceId

theorem shut_step {r : UploadRecord} (h : Shut s r) (hp : Permitted store sha256 s e)
    (hsrc : Sourced m s) (hcommitted : Committed m s) (hreg : Regular (m ++ [e]))
    (hr : Event.createRecord r ∈ m) : Shut (apply store sha256 s e) r := by
  rcases h with ⟨habsent, v, hv, hcollides⟩ | hclosed
  swap
  · exact .inr fun hopen => hclosed (open_of_step hp hopen)
  rcases collision_step hp hcollides with hcollides' | hclosed
  swap
  · exact .inr hclosed
  refine .inl ⟨fun hhas => habsent ?_, v, hv, hcollides'⟩
  -- No row of this identity is added.
  obtain ⟨d, hd, hdevice, hid⟩ := hhas
  cases e with
  | transaction t =>
    obtain ⟨a, ha, -⟩ := (sameContent_transaction store sha256 s hp).db.rows d hd
    exact ⟨_, ha, hdevice, hid⟩
  | insertDelivery origin device delivery createdAt directory now =>
    obtain ⟨db, hdb⟩ := hp.accepted
    have he := Database.enqueue_ok hdb
    obtain ⟨acknowledged, -, hrows⟩ := he.deliveries
    rw [apply_insertDelivery store sha256 hdb, db_withDb, hrows, List.mem_append,
      List.mem_singleton] at hd
    rcases hd with hd | rfl
    · exact ⟨d, hd, hdevice, hid⟩
    cases origin with
    | direct =>
      have hid : delivery.id = r.id := hid
      exact absurd (by simp [drawn, hid]) (hreg.not_drawn (mem_drawn_of_created hr))
    | upload =>
      obtain ⟨r', part, hverified, rfl, -, rfl, rfl⟩ := hp.uploaded rfl
      obtain ⟨r₀, hr₀, hid₀, -, -, heq⟩ := verified_created hsrc hcommitted hverified
      obtain rfl := hreg.of_append.created_unique hr hr₀ (hid₀.trans hid)
      have hfree := (he.version v (by rw [heq]; exact hv)).2.2.2
      rw [show r'.deviceId = r₀.deviceId from hdevice, hcollides] at hfree
      contradiction
  | removeFolder f => exact ⟨d, (Table.mem_delete.mp hd).1, hdevice, hid⟩
  | _ => exact ⟨d, hd, hdevice, hid⟩

/-- In the way once, in the way for good. -/
theorem shut_run {l n : List Action} {r : UploadRecord}
    (hreg : Regular (store.trace sha256 Relay.initial (l ++ n)))
    (hr : Event.createRecord r ∈ store.trace sha256 Relay.initial l)
    (h : Shut (store.run sha256 Relay.initial l) r) :
    Shut (store.run sha256 Relay.initial (l ++ n)) r := by
  rw [trace_append] at hreg
  rw [run_append]
  have hperm : Guarded (apply store sha256) (Permitted store sha256) _ _ :=
    trace_permitted (store.run sha256 Relay.initial l) n
  have hall := hperm.history (m := store.trace sha256 Relay.initial l)
    (I := fun m s => Annals store sha256 m s ∧ Event.createRecord r ∈ m ∧ (Regular m → Shut s r))
    ⟨annals_run l, hr, fun _ => h⟩ fun m s e ⟨hannals, hr, hshut⟩ hp =>
      ⟨hannals.step hp, List.mem_append_left _ hr, fun hreg =>
        shut_step (hshut hreg.of_append) hp hannals.sourced hannals.committed hreg hr⟩
  exact hall.2.2 hreg

/-- The accepted bytes of the second upload are what it declares, no exit has begun, and the first
delivery is in its way. -/
theorem refusedVersion_ready :
    let s := sampleStore.run sampleDigest Relay.initial (refusedVersion.take 6)
    let events := sampleStore.trace sampleDigest Relay.initial (refusedVersion.take 6)
    Event.createRecord refusedRecord ∈ events ∧
      acceptedBytes events refusedRecord.id = [104, 106] ∧ s.db.folderExits.rows = [] ∧
      s.db.deliveries.rows.map (·.deliveryId) = ["00000000-0000-4000-8000-0000000000a1"] ∧
      s.db.versionCollision refusedRecord.deviceId ⟨"n", 1⟩ = true ∧ (drawn events).Nodup ∧
      events.any Event.discards = false := by
  rw [run, trace_refusedVersion_prefix]
  decide

theorem refusedRecord_declares : refusedRecord.Declares sampleDigest [104, 106] :=
  ⟨rfl, rfl, by decide⟩

/-- The accepted bytes of this upload are what it declares, and yet it has no delivery in
any later state, however often it is asked for, as long as the exit of its folder has not begun. -/
theorem refusedVersion_never_lands : ∃ l : List Action,
    Event.createRecord refusedRecord ∈ sampleStore.trace sampleDigest Relay.initial l ∧
    refusedRecord.Declares sampleDigest
      (acceptedBytes (sampleStore.trace sampleDigest Relay.initial l) refusedRecord.id) ∧
    (sampleStore.run sampleDigest Relay.initial l).db.Open refusedRecord.deviceId ∧
    Regular (sampleStore.trace sampleDigest Relay.initial l) ∧
    ∀ n, Regular (sampleStore.trace sampleDigest Relay.initial (l ++ n)) →
      (sampleStore.run sampleDigest Relay.initial (l ++ n)).db.Open refusedRecord.deviceId →
      ¬(sampleStore.run sampleDigest Relay.initial (l ++ n)).db.Has
        refusedRecord.deviceId refusedRecord.id := by
  obtain ⟨hcreated, hbytes, hexits, hrows, hcollides, hfresh, hkept⟩ := refusedVersion_ready
  generalize refusedVersion.take 6 = l at *
  refine ⟨l, hcreated, by rw [hbytes]; exact refusedRecord_declares, fun id _ => ?_,
    ⟨hfresh, fun id hid => List.any_eq_false.mp hkept _ hid rfl⟩, fun n hreg hopen hhas => ?_⟩
  · rw [Database.exiting, hexits]
    rfl
  have habsent : ¬(sampleStore.run sampleDigest Relay.initial l).db.Has
      refusedRecord.deviceId refusedRecord.id := by
    rintro ⟨d, hd, -, hid⟩
    have hmem := List.mem_map_of_mem (f := (·.deliveryId)) hd
    rw [hrows, hid, List.mem_singleton] at hmem
    exact absurd hmem (by decide)
  have hshut := shut_run hreg hcreated (.inl ⟨habsent, _, rfl, hcollides⟩)
  exact hshut.elim (fun h => h.1 hhas) fun hclosed => hclosed hopen

end ServerStore

end MiRelay
