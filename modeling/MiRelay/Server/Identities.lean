import Mathlib
import MiRelay.Server.Erasure
import MiRelay.Server.Offsets

/-!
# Records and deliveries of one upload

Identities are drawn at random, hence no two of them agree. Then a record
belongs to one creation for good, and a delivery of its identity to that upload.
An upload whose accepted bytes are what it declared keeps its record, as long as
its part can be read; its delivery is inserted once, with exactly these bytes,
and the row stays until the exit of its folder.
-/

namespace MiRelay

open Relay

/-- The identities that uploads and direct deliveries drew. -/
def drawn (l : List Event) : List String :=
  l.filterMap fun
    | .createRecord r => some r.id
    | .insertDelivery .direct _ delivery _ _ _ => some delivery.id
    | _ => none

/-- No identity was drawn twice, and no upload was discarded because its part was not read. -/
structure Regular (l : List Event) : Prop where
  fresh : (drawn l).Nodup
  readable : ∀ id, Event.discardRecord id true ∉ l

theorem Regular.of_append {l m : List Event} (h : Regular (l ++ m)) : Regular l where
  fresh := by
    have hfresh := h.fresh
    rw [drawn, List.filterMap_append] at hfresh
    exact hfresh.of_append_left
  readable id hid := h.readable id (List.mem_append_left _ hid)

/-- What was drawn before is not drawn again. -/
theorem Regular.not_drawn {l : List Event} {e : Event} (h : Regular (l ++ [e])) {id : String}
    (hid : id ∈ drawn l) : id ∉ drawn [e] := by
  have hfresh := h.fresh
  rw [drawn, List.filterMap_append, List.nodup_append] at hfresh
  exact fun he => hfresh.2.2 id hid id he rfl

theorem mem_drawn_of_created {l : List Event} {r : UploadRecord} (h : Event.createRecord r ∈ l) :
    r.id ∈ drawn l :=
  List.mem_filterMap.mpr ⟨_, h, rfl⟩

/-- One identity, one creation. -/
theorem Regular.created_unique {l : List Event} (h : Regular l) {r r' : UploadRecord}
    (hr : Event.createRecord r ∈ l) (hr' : Event.createRecord r' ∈ l) (hid : r'.id = r.id) :
    r' = r := by
  induction l using List.reverseRecOn with
  | nil => cases hr
  | append_singleton l e ih =>
    rw [List.mem_append, List.mem_singleton] at hr hr'
    rcases hr with hr | rfl <;> rcases hr' with hr' | he
    · exact ih h.of_append hr hr'
    · subst he
      exact absurd (by simp [drawn, hid]) (h.not_drawn (mem_drawn_of_created hr))
    · exact absurd (by simp [drawn, hid]) (h.not_drawn (mem_drawn_of_created hr'))
    · exact Event.createRecord.inj he

/-- The bytes are what the upload declared. -/
structure UploadRecord.Declares (sha256 : Bytes → String) (r : UploadRecord) (bytes : Bytes) :
    Prop where
  length : bytes.length = r.length
  digest : sha256 bytes = r.sha256
  mediaType : (mediaOf bytes).1 = r.mediaType

/-- The insertions of deliveries with an identity. -/
def insertions (l : List Event) (id : String) : List Event :=
  l.filter fun
    | .insertDelivery _ _ delivery _ _ _ => delivery.id == id
    | _ => false

/-- A device's queue has a delivery of this identity. -/
def Database.Has (db : Database) (device id : String) : Prop :=
  ∃ d ∈ db.deliveries.rows, d.deviceId = device ∧ d.deliveryId = id

namespace ServerStore

variable {store : ServerStore} {sha256 : Bytes → String} {s : Relay} {m : List Event} {e : Event}

/-- A row stays until the folder of its device is removed. -/
theorem has_step (hp : Permitted store sha256 s e) {device id : String} (h : s.db.Has device id) :
    (apply store sha256 s e).db.Has device id ∨
      ∃ f, e = .removeFolder f ∧ device = folderDevice f := by
  obtain ⟨d, hd, hdevice, hid⟩ := h
  cases e with
  | transaction t =>
    obtain ⟨a, ha, -⟩ := (sameContent_transaction store sha256 s hp).db.kept d hd
    exact .inl ⟨_, ha, hdevice, hid⟩
  | insertDelivery origin device' delivery createdAt directory now =>
    obtain ⟨db, hdb⟩ := hp.accepted
    obtain ⟨acknowledged, -, hrows⟩ := (Database.enqueue_ok hdb).deliveries
    refine .inl ⟨d, ?_, hdevice, hid⟩
    rw [apply_insertDelivery store sha256 hdb, db_withDb, hrows]
    exact List.mem_append_left _ hd
  | removeFolder f =>
    by_cases hf : device = folderDevice f
    · exact .inr ⟨f, rfl, hf⟩
    · refine .inl ⟨d, Table.mem_delete.mpr ⟨hd, ?_⟩, hdevice, hid⟩
      simpa [hdevice] using hf
  | _ => exact .inl ⟨d, hd, hdevice, hid⟩

/-- An inserted delivery has its row. -/
theorem has_insert {origin : Origin} {device : String} {delivery : Delivery} {createdAt : Nat}
    {directory : Option DirectoryVersion} {now : Nat}
    (hp : Insertable store sha256 s origin device delivery createdAt directory now) :
    (apply store sha256 s
      (.insertDelivery origin device delivery createdAt directory now)).db.Has device delivery.id := by
  obtain ⟨db, hdb⟩ := hp.accepted
  obtain ⟨acknowledged, -, hrows⟩ := (Database.enqueue_ok hdb).deliveries
  refine ⟨{ delivery.row device (s.db.lastSequence + 1) createdAt with
    acknowledgedAtUnix := acknowledged }, ?_, rfl, rfl⟩
  rw [apply_insertDelivery store sha256 hdb, db_withDb, hrows]
  simp

/-- A row that is there stays, or the exit of its folder has begun. -/
theorem landed_step (hp : Permitted store sha256 s e) {device id : String}
    (h : s.db.Has device id ∨ ¬s.db.Open device) :
    (apply store sha256 s e).db.Has device id ∨ ¬(apply store sha256 s e).db.Open device := by
  rcases h with h | h
  · rcases has_step hp h with h | ⟨f, rfl, rfl⟩
    · exact .inl h
    · refine .inr fun hopen => ?_
      have hexit : s.db.exiting f = true := hp.1
      rw [open_of_step hp hopen f rfl] at hexit
      contradiction
  · exact .inr fun hopen => h (open_of_step hp hopen)

/-- Every record comes from a creation. -/
def Sourced (m : List Event) (s : Relay) : Prop :=
  ∀ k r', s.records.lookup k = some r' → ∃ r, Event.createRecord r ∈ m ∧ r.id = k ∧
    r.createdAtUnix ≤ i64Max ∧ r' = { r with offset := r'.offset, deliveryId := r'.deliveryId }

theorem Sourced.step (h : Sourced m s) (hp : Permitted store sha256 s e) :
    Sourced (m ++ [e]) (apply store sha256 s e) := by
  have hold : ∀ k r', s.records.lookup k = some r' → ∃ r, Event.createRecord r ∈ m ++ [e] ∧
      r.id = k ∧ r.createdAtUnix ≤ i64Max ∧
      r' = { r with offset := r'.offset, deliveryId := r'.deliveryId } := by
    intro k r' hr'
    obtain ⟨r, hr, hrest⟩ := h k r' hr'
    exact ⟨r, List.mem_append_left _ hr, hrest⟩
  cases e with
  | transaction t =>
    intro k r' hr'
    rw [(sameContent_transaction store sha256 s hp).records] at hr'
    exact hold k r' hr'
  | createRecord record =>
    intro k r' hr'
    rw [apply, records_withRecord, Files.lookup_insert] at hr'
    split at hr'
    · rename_i hk
      obtain rfl := Option.some.inj hr'
      exact ⟨record, by simp, hk.symm, hp.2.2.2.2.2.2, rfl⟩
    · exact hold k r' hr'
  | advance record chunk =>
    intro k r' hr'
    rw [apply, records_withRecord, Files.lookup_insert] at hr'
    split at hr'
    · rename_i hk
      obtain rfl := Option.some.inj hr'
      obtain ⟨r, hr, hid, htime, hrecord⟩ := hold _ _ hp.1
      exact ⟨r, hr, hid.trans hk.symm, htime, by rw [hrecord]⟩
    · exact hold k r' hr'
  | complete record =>
    obtain ⟨-, ⟨part, hv⟩, -⟩ := hp
    intro k r' hr'
    rw [apply, records_withRecord, Files.lookup_insert] at hr'
    split at hr'
    · rename_i hk
      obtain rfl := Option.some.inj hr'
      obtain ⟨r, hr, hid, htime, hrecord⟩ := hold _ _ hv.hasRecord
      exact ⟨r, hr, hid.trans hk.symm, htime, by rw [hrecord]⟩
    · exact hold k r' hr'
  | discardRecord id readFails | purgeRecord id =>
    intro k r' hr'
    rw [apply, Files.lookup_erase] at hr'
    split at hr'
    · contradiction
    · exact hold k r' hr'
  | _ => exact hold

/-- A record that names its delivery has its row, or the exit of its folder has begun. -/
def Delivered (s : Relay) : Prop :=
  ∀ k r, s.records.lookup k = some r → r.deliveryId.isSome →
    s.db.Has r.deviceId k ∨ ¬s.db.Open r.deviceId

theorem Delivered.step (h : Delivered s) (hp : Permitted store sha256 s e) :
    Delivered (apply store sha256 s e) := by
  have hold : ∀ k r, s.records.lookup k = some r → r.deliveryId.isSome →
      (apply store sha256 s e).db.Has r.deviceId k ∨
        ¬(apply store sha256 s e).db.Open r.deviceId :=
    fun k r hr hsome => landed_step hp (h k r hr hsome)
  cases e with
  | transaction t =>
    intro k r hr
    rw [(sameContent_transaction store sha256 s hp).records] at hr
    exact hold k r hr
  | createRecord record =>
    obtain ⟨-, -, -, -, -, hnone, -⟩ := hp
    intro k r hr hsome
    rw [apply, records_withRecord, Files.lookup_insert] at hr
    split at hr
    · obtain rfl := Option.some.inj hr
      rw [hnone] at hsome
      contradiction
    · exact hold k r hr hsome
  | advance record chunk =>
    obtain ⟨-, hnone, -⟩ := hp
    intro k r hr hsome
    rw [apply, records_withRecord, Files.lookup_insert] at hr
    split at hr
    · obtain rfl := Option.some.inj hr
      dsimp only at hsome
      rw [hnone] at hsome
      contradiction
    · exact hold k r hr hsome
  | complete record =>
    obtain ⟨-, -, hrow⟩ := hp
    intro k r hr hsome
    rw [apply, records_withRecord, Files.lookup_insert] at hr
    split at hr
    · rename_i hk
      obtain rfl := Option.some.inj hr
      rw [hk]
      exact .inl hrow
    · exact hold k r hr hsome
  | discardRecord id readFails | purgeRecord id =>
    intro k r hr hsome
    rw [apply, Files.lookup_erase] at hr
    split at hr
    · contradiction
    · exact hold k r hr hsome
  | _ => exact hold

/-- The record of a created upload differs in its progress only. -/
theorem Sourced.of_created (h : Sourced m s) (hreg : Regular m) {r r' : UploadRecord}
    (hr : Event.createRecord r ∈ m) (hr' : s.records.lookup r.id = some r') :
    r' = { r with offset := r'.offset, deliveryId := r'.deliveryId } := by
  obtain ⟨r₀, hr₀, hid, -, heq⟩ := h r.id r' hr'
  rwa [hreg.created_unique hr hr₀ hid] at heq

/-- The insertion of the delivery of an upload with these bytes. -/
def insertionOf (sha256 : Bytes → String) (r : UploadRecord) (bytes : Bytes) (now : Nat) : Event :=
  .insertDelivery .upload r.deviceId
    (deliveryFor r.originalName r.id r.createdAtUnix (inspection sha256 bytes)) r.createdAtUnix
    r.directory now

/-- Every delivery identity was drawn, a created upload has at most one insertion, of the bytes it
declared and accepted, and every row comes from an insertion. -/
structure Accounted (sha256 : Bytes → String) (m : List Event) (s : Relay) : Prop where
  known : ∀ id, insertions m id ≠ [] → id ∈ drawn m
  inserted : ∀ r, Event.createRecord r ∈ m → insertions m r.id = [] ∨ ∃ now,
    insertions m r.id = [insertionOf sha256 r (acceptedBytes m r.id) now] ∧
    r.Declares sha256 (acceptedBytes m r.id) ∧
    (s.db.Has r.deviceId r.id ∨ s.records.lookup r.id = none)
  rows : ∀ d ∈ s.db.deliveries.rows, ∃ origin delivery createdAt directory now,
    Event.insertDelivery origin d.deviceId delivery createdAt directory now ∈ m ∧
    d.Holds d.deviceId delivery

theorem insertions_append (m : List Event) (e : Event) (id : String) :
    insertions (m ++ [e]) id = match e with
      | .insertDelivery _ _ delivery _ _ _ =>
        if delivery.id = id then insertions m id ++ [e] else insertions m id
      | _ => insertions m id := by
  rw [insertions, List.filter_append]
  cases e with
  | insertDelivery origin device delivery createdAt directory now =>
    by_cases h : delivery.id = id <;> simp [insertions, h]
  | _ => simp [insertions]

theorem drawn_append (m : List Event) (e : Event) : drawn (m ++ [e]) = drawn m ++ drawn [e] :=
  List.filterMap_append

/-- A row stays, or its upload has gone for good. -/
theorem landed_or_gone_step (hp : Permitted store sha256 s e) (hsrc : Sourced m s)
    (hreg : Regular (m ++ [e])) {r : UploadRecord} (hr : Event.createRecord r ∈ m)
    (h : s.db.Has r.deviceId r.id ∨ s.records.lookup r.id = none) :
    (apply store sha256 s e).db.Has r.deviceId r.id ∨
      (apply store sha256 s e).records.lookup r.id = none := by
  rcases h with h | h
  · rcases has_step hp h with h | ⟨f, rfl, hf⟩
    · exact .inl h
    · -- No record of the folder is left when it is removed.
      refine .inr ?_
      cases hrecord : s.records.lookup r.id with
      | none => exact hrecord
      | some r' =>
        refine absurd ?_ (hp.2.1 r' ((Files.mem_values_iff _ _).mpr ⟨_, hrecord⟩))
        rw [hsrc.of_created hreg.of_append hr hrecord, hf]
  · refine .inr ?_
    cases e with
    | transaction t =>
      rw [(sameContent_transaction store sha256 s hp).records]
      exact h
    | createRecord record =>
      rw [apply, records_withRecord, Files.lookup_insert, if_neg]
      · exact h
      · intro hid
        exact absurd (by simp [drawn, hid]) (hreg.not_drawn (mem_drawn_of_created hr))
    | advance record chunk =>
      rw [apply, records_withRecord, Files.lookup_insert, if_neg]
      · exact h
      · intro hid
        have hlookup := hp.1
        rw [← hid, h] at hlookup
        contradiction
    | complete record =>
      obtain ⟨-, ⟨part, hv⟩, -⟩ := hp
      rw [apply, records_withRecord, Files.lookup_insert, if_neg]
      · exact h
      · intro hid
        have hlookup := hv.hasRecord
        rw [← hid, h] at hlookup
        contradiction
    | discardRecord id readFails | purgeRecord id =>
      rw [apply, Files.lookup_erase]
      split
      · rfl
      · exact h
    | _ => exact h

/-- A complete upload accepts nothing more. -/
theorem acceptedBytes_step (hp : Permitted store sha256 s e) (hsrc : Sourced m s)
    (hcommitted : Committed m s) (hreg : Regular (m ++ [e])) {r : UploadRecord}
    (hr : Event.createRecord r ∈ m) (hlength : (acceptedBytes m r.id).length = r.length) :
    acceptedBytes (m ++ [e]) r.id = acceptedBytes m r.id := by
  rw [acceptedBytes_append]
  cases e with
  | createRecord record =>
    refine if_neg fun hid => ?_
    exact absurd (by simp [drawn, hid]) (hreg.not_drawn (mem_drawn_of_created hr))
  | advance record chunk =>
    obtain ⟨hlookup, -, hcheck, -⟩ := hp
    dsimp only
    split
    · rename_i hid
      simp only [checkUploadRecord, bind_eq_ok] at hcheck
      obtain ⟨_, hvalid, -⟩ := hcheck
      obtain ⟨-, hle, -⟩ := validateUploadRecord_ok hvalid
      rw [hid] at hlookup
      have hoffset := hcommitted.offset r.id record hlookup
      have hsame := hsrc.of_created hreg.of_append hr hlookup
      have hdeclared : record.length = r.length := by rw [hsame]
      dsimp only at hle
      have hnil : chunk.length = 0 := by omega
      rw [List.eq_nil_of_length_eq_zero hnil, List.append_nil]
    · rfl
  | _ => rfl

/-- The part of a verified upload holds what was accepted. -/
theorem Committed.part_eq (h : Committed m s) {r : UploadRecord} {part : Bytes}
    (hr : s.records.lookup r.id = some r) (hpart : s.parts.lookup r.id = some part)
    (hnone : r.deliveryId = none) (hlength : part.length = r.offset) :
    part = acceptedBytes m r.id := by
  rw [← h.bytes r.id r part hr hnone hpart, ← hlength, List.take_length]

/-- A verified upload is one that was created, and its part is what was accepted. -/
theorem verified_created (hsrc : Sourced m s) (hcommitted : Committed m s) {r' : UploadRecord}
    {part : Bytes} (hv : s.Verified sha256 r' part) :
    ∃ r, Event.createRecord r ∈ m ∧ r.id = r'.id ∧ part = acceptedBytes m r.id ∧
      r.Declares sha256 part ∧
      r' = { r with offset := r'.offset, deliveryId := r'.deliveryId } := by
  obtain ⟨r, hr, hid, -, heq⟩ := hsrc r'.id r' hv.hasRecord
  have hpart := hcommitted.part_eq hv.hasRecord hv.hasPart hv.undelivered
    (hv.length.trans hv.offset.symm)
  refine ⟨r, hr, hid, by rw [hid]; exact hpart, ⟨?_, ?_, ?_⟩, heq⟩
  · rw [hv.length, heq]
  · rw [hv.digest, heq]
  · rw [hv.mediaType, heq]

/-- An upload of which no delivery is inserted keeps its account. -/
theorem Accounted.carry (h : Accounted sha256 m s) (hp : Permitted store sha256 s e)
    (hsrc : Sourced m s) (hcommitted : Committed m s) (hreg : Regular (m ++ [e]))
    {r : UploadRecord} (hr : Event.createRecord r ∈ m)
    (hsame : insertions (m ++ [e]) r.id = insertions m r.id) :
    insertions (m ++ [e]) r.id = [] ∨ ∃ now,
      insertions (m ++ [e]) r.id = [insertionOf sha256 r (acceptedBytes (m ++ [e]) r.id) now] ∧
      r.Declares sha256 (acceptedBytes (m ++ [e]) r.id) ∧
      ((apply store sha256 s e).db.Has r.deviceId r.id ∨
        (apply store sha256 s e).records.lookup r.id = none) := by
  rw [hsame]
  rcases h.inserted r hr with hnone | ⟨now, hone, hdeclares, hland⟩
  · exact .inl hnone
  · rw [acceptedBytes_step hp hsrc hcommitted hreg hr hdeclares.length]
    exact .inr ⟨now, hone, hdeclares, landed_or_gone_step hp hsrc hreg hr hland⟩

/-- An insertion for a created upload is the one of its verified part, and the first. -/
theorem Accounted.insert {origin : Origin} {device : String} {delivery : Delivery}
    {createdAt : Nat} {directory : Option DirectoryVersion} {now : Nat}
    (h : Accounted sha256 m s)
    (hp : Insertable store sha256 s origin device delivery createdAt directory now)
    (hsrc : Sourced m s) (hcommitted : Committed m s)
    (hreg : Regular (m ++ [.insertDelivery origin device delivery createdAt directory now]))
    {r : UploadRecord} (hr : Event.createRecord r ∈ m) (hid : delivery.id = r.id) :
    insertions m r.id = [] ∧ r.Declares sha256 (acceptedBytes m r.id) ∧
      Event.insertDelivery origin device delivery createdAt directory now =
        insertionOf sha256 r (acceptedBytes m r.id) now := by
  cases origin with
  | direct =>
    exact absurd (by simp [drawn, hid]) (hreg.not_drawn (mem_drawn_of_created hr))
  | upload =>
    obtain ⟨r', part, hv, rfl, rfl, rfl, rfl⟩ := hp.uploaded rfl
    have hid' : r'.id = r.id := hid
    obtain ⟨r₀, hr₀, hid₀, hpart, hdeclares, heq⟩ := verified_created hsrc hcommitted hv
    obtain rfl := hreg.of_append.created_unique hr hr₀ (hid₀.trans hid')
    subst hpart
    refine ⟨?_, hdeclares, by rw [insertionOf, heq]⟩
    rcases h.inserted r₀ hr with hnone | ⟨now, -, -, hhas | hgone⟩
    · exact hnone
    · obtain ⟨db, hdb⟩ := hp.accepted
      obtain ⟨d, hd, hdevice, hdid⟩ := hhas
      refine absurd ⟨hdevice.trans ?_, hdid.trans hid.symm⟩ ((Database.enqueue_ok hdb).free d hd)
      rw [heq]
    · have hrecord := hv.hasRecord
      rw [hid', hgone] at hrecord
      contradiction

theorem Accounted.step (h : Accounted sha256 m s) (hp : Permitted store sha256 s e)
    (hsrc : Sourced m s) (hcommitted : Committed m s) (hreg : Regular (m ++ [e])) :
    Accounted sha256 (m ++ [e]) (apply store sha256 s e) := by
  have hdrawn : ∀ id, insertions m id ≠ [] → id ∈ drawn (m ++ [e]) := by
    intro id hid
    rw [drawn_append]
    exact List.mem_append_left _ (h.known id hid)
  have hrows : ∀ d ∈ s.db.deliveries.rows, ∃ origin delivery createdAt directory now,
      Event.insertDelivery origin d.deviceId delivery createdAt directory now ∈ m ++ [e] ∧
      d.Holds d.deviceId delivery := by
    intro d hd
    obtain ⟨origin, delivery, createdAt, directory, now, hmem, hholds⟩ := h.rows d hd
    exact ⟨origin, delivery, createdAt, directory, now, List.mem_append_left _ hmem, hholds⟩
  have hcarry := fun r (hr : Event.createRecord r ∈ m) => h.carry hp hsrc hcommitted hreg hr
  cases e with
  | transaction t =>
    refine ⟨fun id hid => ?_, fun r hr => ?_, fun d hd => ?_⟩
    · rw [insertions_append] at hid
      exact hdrawn id hid
    · exact hcarry r (by simpa using hr) (by rw [insertions_append])
    · obtain ⟨a, ha, -⟩ := (sameContent_transaction store sha256 s hp).db.rows d hd
      exact hrows { d with acknowledgedAtUnix := a } ha
  | createRecord record =>
    refine ⟨fun id hid => ?_, fun r hr => ?_, hrows⟩
    · rw [insertions_append] at hid
      exact hdrawn id hid
    · rcases List.mem_append.mp hr with hr | hr
      · exact hcarry r hr (by rw [insertions_append])
      · obtain rfl := Event.createRecord.inj (List.mem_singleton.mp hr)
        refine .inl ?_
        rw [insertions_append]
        by_contra hne
        exact absurd (by simp [drawn]) (hreg.not_drawn (h.known r.id hne))
  | insertDelivery origin device delivery createdAt directory now =>
    obtain ⟨db, hdb⟩ := hp.accepted
    obtain ⟨acknowledged, -, hnew⟩ := (Database.enqueue_ok hdb).deliveries
    refine ⟨fun id hid => ?_, fun r hr => ?_, fun d hd => ?_⟩
    · rw [insertions_append] at hid
      dsimp only at hid
      split at hid
      · rename_i hsame
        cases origin with
        | direct => simp [drawn, hsame]
        | upload =>
          obtain ⟨r', part, hv, -, -, -, rfl⟩ := hp.uploaded rfl
          obtain ⟨r, hr, hid', -⟩ := verified_created hsrc hcommitted hv
          rw [drawn_append, ← hsame, deliveryFor, ← hid']
          exact List.mem_append_left _ (mem_drawn_of_created hr)
      · exact hdrawn id hid
    · have hr : Event.createRecord r ∈ m := by simpa using hr
      by_cases hid : delivery.id = r.id
      · obtain ⟨hnone, hdeclares, heq⟩ := h.insert hp hsrc hcommitted hreg hr hid
        refine .inr ⟨now, ?_, ?_, .inl ?_⟩
        · rw [insertions_append, acceptedBytes_append]
          dsimp only
          rw [if_pos hid, hnone, List.nil_append, heq]
        · rw [acceptedBytes_append]
          exact hdeclares
        · have hdevice : device = r.deviceId := by
            rw [insertionOf, Event.insertDelivery.injEq] at heq
            exact heq.2.1
          rw [← hdevice, ← hid]
          exact has_insert hp
      · exact hcarry r hr (by rw [insertions_append]; exact if_neg hid)
    · rw [apply_insertDelivery store sha256 hdb, db_withDb, hnew, List.mem_append,
        List.mem_singleton] at hd
      rcases hd with hd | rfl
      · exact hrows d hd
      · exact ⟨origin, delivery, createdAt, directory, now, by simp [Delivery.row],
          ⟨rfl, rfl, rfl, rfl, rfl⟩⟩
  | removeFolder f =>
    refine ⟨fun id hid => ?_, fun r hr => ?_, fun d hd => ?_⟩
    · rw [insertions_append] at hid
      exact hdrawn id hid
    · exact hcarry r (by simpa using hr) (by rw [insertions_append])
    · exact hrows d (Table.mem_delete.mp hd).1
  | _ =>
    refine ⟨fun id hid => ?_, fun r hr => ?_, hrows⟩
    · rw [insertions_append] at hid
      exact hdrawn id hid
    · exact hcarry r (by simpa using hr) (by rw [insertions_append])

/-- An upload that accepted what it declared has its record, or the exit of its folder has
begun. -/
def RecordsKept (sha256 : Bytes → String) (m : List Event) (s : Relay) : Prop :=
  ∀ r, Event.createRecord r ∈ m → r.Declares sha256 (acceptedBytes m r.id) →
    (∃ r', s.records.lookup r.id = some r') ∨ ¬s.db.Open r.deviceId

/-- A part that holds what its record declares is found to do so. -/
theorem verifyPart_isOk (hvalid : store.RecordsValid s) {r : UploadRecord} {part : Bytes}
    (hr : s.records.lookup r.id = some r) (hdeclares : r.Declares sha256 part) :
    store.verifyPart sha256 r (some part) false = .ok part := by
  have hcheck := (hvalid _ _ hr).2
  simp only [checkUploadRecord, bind_eq_ok] at hcheck
  obtain ⟨_, hrecord, -⟩ := hcheck
  obtain ⟨-, -, hmax, hpos⟩ := validateUploadRecord_ok hrecord
  simp only [verifyPart, bind_eq_ok, ensure_eq_ok]
  refine ⟨(), rfl, (), (verifyRecordedFile_ok sha256).mpr ⟨?_, ?_, hdeclares.length,
    hdeclares.digest, hdeclares.mediaType⟩, rfl⟩
  · rw [hdeclares.length]
    exact hmax
  · rw [hdeclares.length]
    omega

theorem RecordsKept.step (h : RecordsKept sha256 m s) (hp : Permitted store sha256 s e)
    (hvalid : store.RecordsValid s) (hsrc : Sourced m s) (hcommitted : Committed m s)
    (hreg : Regular (m ++ [e])) : RecordsKept sha256 (m ++ [e]) (apply store sha256 s e) := by
  have hopen : ∀ r : UploadRecord, ¬s.db.Open r.deviceId →
      ¬(apply store sha256 s e).db.Open r.deviceId :=
    fun r hr hopen => hr (open_of_step hp hopen)
  -- What is left to show for the events that touch no record.
  have hsame : (∀ k, acceptedBytes (m ++ [e]) k = acceptedBytes m k) →
      (∀ r, Event.createRecord r ∈ m ++ [e] → Event.createRecord r ∈ m) →
      (apply store sha256 s e).records = s.records →
      RecordsKept sha256 (m ++ [e]) (apply store sha256 s e) := by
    intro haccepted hcreated hrecords r hr hdeclares
    rw [haccepted] at hdeclares
    rw [hrecords]
    exact (h r (hcreated r hr) hdeclares).imp_right (hopen r)
  cases e with
  | transaction t =>
    refine hsame (fun k => by rw [acceptedBytes_append]) (fun r hr => by simpa using hr) ?_
    exact (sameContent_transaction store sha256 s hp).records
  | createRecord record =>
    intro r hr hdeclares
    rw [apply, records_withRecord, Files.lookup_insert]
    split
    · exact .inl ⟨_, rfl⟩
    · rename_i hid
      have hr : Event.createRecord r ∈ m := by
        rcases List.mem_append.mp hr with hr | hr
        · exact hr
        · rw [Event.createRecord.inj (List.mem_singleton.mp hr)] at hid
          contradiction
      rw [acceptedBytes_append] at hdeclares
      dsimp only at hdeclares
      rw [if_neg (Ne.symm hid)] at hdeclares
      exact (h r hr hdeclares).imp_right (hopen r)
  | advance record chunk =>
    intro r hr hdeclares
    rw [apply, records_withRecord, Files.lookup_insert]
    split
    · exact .inl ⟨_, rfl⟩
    · rename_i hid
      have hid : ¬record.id = r.id := fun he => hid he.symm
      rw [acceptedBytes_append] at hdeclares
      dsimp only at hdeclares
      rw [if_neg hid] at hdeclares
      exact (h r (by simpa using hr) hdeclares).imp_right (hopen r)
  | complete record =>
    intro r hr hdeclares
    rw [apply, records_withRecord, Files.lookup_insert]
    split
    · exact .inl ⟨_, rfl⟩
    · rw [acceptedBytes_append] at hdeclares
      exact (h r (by simpa using hr) hdeclares).imp_right (hopen r)
  | discardRecord id readFails =>
    obtain ⟨r', part, err, hr', hpart, hlength, -, hnone, hverify⟩ := hp
    intro r hr hdeclares
    replace hr : Event.createRecord r ∈ m := by simpa using hr
    rw [acceptedBytes_append] at hdeclares
    rw [apply, Files.lookup_erase, if_neg]
    · exact (h r hr hdeclares).imp_right (hopen r)
    · -- The part of this upload would have been found to be what it declares.
      rintro rfl
      cases readFails with
      | true => exact hreg.readable r.id (by simp)
      | false =>
        have hheld := hsrc.of_created hreg.of_append hr hr'
        have hid : r'.id = r.id := by rw [hheld]
        rw [← hid] at hr' hpart hdeclares
        have hbytes := hcommitted.part_eq hr' hpart hnone hlength
        rw [← hbytes] at hdeclares
        have hdeclares' : r'.Declares sha256 part := by
          rw [hheld]
          exact ⟨hdeclares.length, hdeclares.digest, hdeclares.mediaType⟩
        rw [verifyPart_isOk hvalid hr' hdeclares'] at hverify
        contradiction
  | purgeRecord id =>
    obtain ⟨-, r', f, hr', hdevice, hexit⟩ := hp
    intro r hr hdeclares
    replace hr : Event.createRecord r ∈ m := by simpa using hr
    rw [acceptedBytes_append] at hdeclares
    rw [apply, Files.lookup_erase]
    split
    · rename_i hid
      subst hid
      refine .inr fun hopen => ?_
      have hheld := hsrc.of_created hreg.of_append hr hr'
      have hclosed := hopen f (by rw [← hdevice, hheld])
      rw [hexit] at hclosed
      contradiction
    · exact (h r hr hdeclares).imp_right (hopen r)
  | _ => exact hsame (fun k => by rw [acceptedBytes_append]) (fun r hr => by simpa using hr) rfl

end ServerStore

end MiRelay
