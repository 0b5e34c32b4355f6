import MiRelay.Server.Landing

/-!
# What a failed finalization leaves

A finalization that is cut off, by whatever failure after the part was read,
leaves a matching upload as it was until its delivery is in the queue, hence a
later request completes it. A failure while the part is read is taken for wrong
content, and the upload is discarded.
-/

namespace MiRelay

open Proc Relay

/-- The result is not the answer to a completed upload with wrong content. -/
def Plain {α : Type} (x : Result α) : Prop :=
  ∀ id reason, x ≠ .error (.invalidUploadContent id reason)

section Plain

variable {α β : Type}

theorem plain_ok {a : α} : Plain (.ok a : Result α) := fun _ _ h => by contradiction

theorem plain_message {text : String} : Plain (.error (.message text) : Result α) := by
  simp [Plain]

theorem plain_ensure {c : Bool} {text : String} : Plain (ensure c text) := by
  unfold ensure
  split
  · exact plain_ok
  · exact plain_message

theorem Plain.bind {x : Result α} {f : α → Result β} (hx : Plain x) (hf : ∀ a, Plain (f a)) :
    Plain (x >>= f) := by
  cases x with
  | ok a => exact hf a
  | error e => exact fun id reason h => hx id reason (by simpa [Bind.bind, Except.bind] using h)

theorem plain_validatePath (path : String) : Plain (validatePath path) :=
  plain_ensure.bind fun _ => plain_ensure.bind fun _ => plain_ensure

theorem plain_version (v : DirectoryVersion) : Plain v.validate :=
  (plain_validatePath _).bind fun _ => plain_ensure

theorem plain_optional (directory : Option DirectoryVersion) :
    Plain (match directory with
      | some version => version.validate
      | none => .ok ()) := by
  cases directory with
  | none => exact plain_ok
  | some version => exact plain_version version

theorem plain_metadata (d : Delivery) (m : Nat) : Plain (validateDeliveryMetadata d m) := by
  refine plain_ensure.bind fun _ => plain_ensure.bind fun _ => Plain.bind ?_ fun _ =>
    plain_ensure.bind fun _ => plain_ensure.bind fun _ => plain_ensure.bind fun _ =>
      plain_ensure.bind fun _ => plain_ensure
  split
  · exact plain_ensure
  · exact plain_ok

theorem plain_copy (sha256 : Bytes → String) (m : Nat) (size : Option Nat) (bytes : Bytes) :
    Plain (copyAndInspect sha256 m size bytes) := by
  refine plain_ensure.bind fun _ => Plain.bind ?_ fun _ => plain_ensure.bind fun _ => plain_ok
  cases size with
  | none => exact plain_ok
  | some n => exact plain_ensure.bind fun _ => plain_ensure

theorem plain_ensureUuid (id text : String) : Plain (ensureUuid id text) := by
  unfold ensureUuid
  split
  · exact plain_message
  · exact plain_ensure

namespace Database

variable (db : Database) (device id : String)

theorem plain_requireDeviceOpen : Plain (db.requireDeviceOpen device) := by
  unfold requireDeviceOpen
  split
  · exact plain_ensure
  · exact plain_ok

theorem plain_getDelivery (m : Nat) : Plain (db.getDelivery device id m) := by
  refine plain_ensure.bind fun _ => plain_ensure.bind fun _ => ?_
  split
  · exact plain_ok
  · exact Plain.bind (plain_metadata _ _) fun _ => plain_ok

theorem plain_replayedDelivery (delivery : Delivery) (createdAt : Nat)
    (directory : Option DirectoryVersion) (m : Nat) :
    Plain (db.replayedDelivery device delivery createdAt directory m) := by
  refine Plain.bind (plain_getDelivery _ _ _ _) fun found => ?_
  cases found with
  | none => exact plain_ok
  | some existing =>
    exact plain_ensure.bind fun _ => plain_ensure.bind fun _ => plain_ok

theorem plain_insertDirectoryVersion (version : DirectoryVersion) (now : Nat) :
    Plain (db.insertDirectoryVersion device id version now) := by
  refine (plain_version _).bind fun _ => plain_ensure.bind fun _ => plain_ensure.bind fun _ =>
    Plain.bind ?_ fun _ => ?_
  · split
    · simp [Plain]
    · exact plain_ok
  · split
    · exact plain_message
    · exact plain_ok

theorem plain_enqueue (delivery : Delivery) (createdAt : Nat)
    (directory : Option DirectoryVersion) (now : Nat) :
    Plain (db.enqueue device delivery createdAt directory now) := by
  refine plain_ensure.bind fun _ => plain_ensure.bind fun _ => ?_
  dsimp only
  cases db.deliveries.insert (delivery.row device (db.lastSequence + 1) createdAt) with
  | none => exact plain_message
  | some deliveries =>
    cases directory with
    | none => exact plain_ok
    | some version => exact plain_insertDirectoryVersion _ _ _ _ _

end Database

end Plain

namespace ServerStore

variable {store : ServerStore} {sha256 : Bytes → String} {s : Relay} {r : UploadRecord}
  {bytes : Bytes}

theorem plain_checkUploadRecord (record : UploadRecord) : Plain (store.checkUploadRecord record) := by
  refine Plain.bind ?_ fun _ => plain_ensure
  refine Plain.bind (plain_ensure.bind fun _ => plain_ensureUuid _ _) fun _ =>
    plain_ensure.bind fun _ => plain_ensure.bind fun _ => plain_ensure.bind fun _ =>
      Plain.bind ?_ fun _ => plain_ensure
  refine Plain.bind ?_ fun _ => Plain.bind (plain_metadata _ _) fun _ => plain_ensure
  split
  · exact Plain.bind (plain_version _) fun _ => plain_ensure
  · exact plain_ok

theorem plain_describe {device : String} {input : Bytes} {originalName id : String}
    {createdAt : Nat} {directory : Option DirectoryVersion} :
    Plain (store.describe sha256 device input originalName id createdAt directory) :=
  plain_ensure.bind fun _ => Plain.bind (plain_optional directory) fun _ =>
    Plain.bind (plain_copy _ _ _ _) fun _ => Plain.bind (plain_metadata _ _) fun _ => plain_ok

/-- A procedure whose result is plain. -/
def PlainTask {α : Type} (p : Task store sha256 α) : Prop := ∀ s, Plain (p s).result

theorem PlainTask.bind {α β : Type} {p : Task store sha256 α} {f : α → Task store sha256 β}
    (hp : PlainTask p) (hf : ∀ a, PlainTask (f a)) : PlainTask (p >>= f) := by
  intro s
  cases hr : (p s).result with
  | error e =>
    intro id reason h
    simp only [Bind.bind, andThen, hr] at h
    exact hp s id reason (by rw [hr, Except.error.inj h])
  | ok a =>
    rw [result_bind_ok hr]
    exact hf a _

theorem plainTask_of {α : Type} {x : Result α} (hx : Plain x) :
    PlainTask (ofExcept x : Task store sha256 α) := fun _ => hx

theorem plainTask_pure {α : Type} (a : α) : PlainTask (pure a : Task store sha256 α) :=
  fun _ => plain_ok

theorem plainTask_get : PlainTask (get : Task store sha256 Relay) := fun _ => plain_ok

theorem plainTask_emit (e : Event) : PlainTask (emit e : Task store sha256 Unit) :=
  fun _ => plain_ok

theorem plainTask_pause {between : List (List Transaction)} {point : Nat} :
    PlainTask (store.pause sha256 between point) := fun _ => plain_ok

theorem plainTask_interfere {l : List Interference} : PlainTask (store.interfere sha256 l) :=
  fun _ => by
    rw [interfere_result]
    exact plain_ok

theorem plain_verifyReceived (delivery : Delivery) (bytes : Bytes) :
    Plain (store.verifyReceived sha256 delivery bytes) :=
  Plain.bind (plain_copy _ _ _ _) fun _ => plain_ensure.bind fun _ => plain_ensure.bind fun _ =>
    plain_ok

theorem plainTask_receive {device : String} {delivery : Delivery} {bytes : Bytes} :
    PlainTask (store.receive sha256 device delivery bytes) := by
  refine (plainTask_of (plain_metadata _ _)).bind fun _ => (plainTask_emit _).bind fun _ => ?_
  cases hverify : store.verifyReceived sha256 delivery bytes with
  | error e =>
    refine (plainTask_emit _).bind fun _ => fun _ => ?_
    exact fun id reason h => plain_verifyReceived delivery bytes id reason
      (by rw [hverify, Except.error.inj h])
  | ok found =>
    refine plainTask_get.bind fun s => ?_
    cases s.library.objects.lookup ⟨found.sha256, found.extension⟩ with
    | none => exact (plainTask_emit _).bind fun _ => plainTask_pure _
    | some existing =>
      exact (plainTask_emit _).bind fun _ => (plainTask_of (plain_copy _ _ _ _)).bind fun _ =>
        (plainTask_of plain_ensure).bind fun _ => plainTask_pure _

theorem plainTask_enqueue {origin : Origin} {device : String} {input again : Bytes}
    {originalName id : String} {createdAt : Nat} {directory : Option DirectoryVersion} {now : Nat}
    {between : List (List Transaction)} :
    PlainTask (store.enqueueDirectoryWithId sha256 origin device input again originalName id
      createdAt directory now between) := by
  refine (plainTask_of plain_describe).bind fun delivery => plainTask_pause.bind fun _ =>
    plainTask_get.bind fun s => (plainTask_of (s.db.plain_requireDeviceOpen _)).bind fun _ =>
      plainTask_pause.bind fun _ => plainTask_get.bind fun s =>
        (plainTask_of (s.db.plain_replayedDelivery _ _ _ _ _)).bind fun replayed => ?_
  cases replayed with
  | some existing => exact plainTask_pure _
  | none =>
    exact plainTask_receive.bind fun _ => (plainTask_of plain_ensure).bind fun _ =>
      plainTask_pause.bind fun _ => plainTask_get.bind fun s =>
        (plainTask_of (s.db.plain_enqueue _ _ _ _ _)).bind fun _ =>
          (plainTask_emit _).bind fun _ => plainTask_pure _

theorem plainTask_collectSuperseded {record : UploadRecord} {c : Circumstances} :
    PlainTask (store.collectSuperseded sha256 record c) := by
  unfold collectSuperseded
  split
  · refine plainTask_interfere.bind fun _ => PlainTask.bind ?_ fun _ => plainTask_pure _
    refine (plainTask_of plain_ensure).bind fun _ => plainTask_pause.bind fun _ =>
      plainTask_get.bind fun s => ?_
    split
    · exact plainTask_pure _
    · refine plainTask_pause.bind fun _ => plainTask_get.bind fun s => ?_
      split
      · exact plainTask_pure _
      · split
        · exact fun _ => plain_message
        · split
          · exact (plainTask_emit _).bind fun _ => plainTask_pure _
          · exact plainTask_pure _
  · exact plainTask_pure _

theorem plainTask_removeCompleted {record : UploadRecord} {c : Circumstances} :
    PlainTask (store.removeCompleted sha256 record c) := by
  unfold removeCompleted
  split
  · exact plainTask_pure _
  · exact plainTask_emit _

/-- A verified part is answered with no complaint about its content. -/
theorem finalizeUpload_plain {c : Circumstances}
    (hverify : (store.verifyPart sha256 r (s.parts.lookup r.id) c.readFails).isOk = true) :
    Plain (store.finalizeUpload sha256 r c s).result := by
  unfold finalizeUpload
  split
  · exact plain_ok
  · cases hok : store.verifyPart sha256 r (s.parts.lookup r.id) c.readFails with
    | error e =>
      rw [hok] at hverify
      contradiction
    | ok bytes =>
      rw [result_bind_ok rfl, hok]
      exact (plainTask_interfere.bind fun _ => plainTask_enqueue.bind fun _ =>
        (plainTask_of (plain_checkUploadRecord _)).bind fun _ => (plainTask_emit _).bind fun _ =>
          plainTask_collectSuperseded.bind fun _ => plainTask_removeCompleted.bind fun _ =>
            plainTask_pure _) _

/-- An event of a request that leaves the other uploads alone and removes nothing of this one
but the part of a completed upload. -/
def Sparing (store : ServerStore) (sha256 : Bytes → String) (r : UploadRecord) (t : Relay)
    (e : Event) : Prop :=
  Permitted store sha256 t e ∧ (outsideEvent e = true ∨ e = .complete r ∨ e = .removePart r.id)

/-- The delivery is in the queue, or the record and the part are as they were. -/
def Kept (r : UploadRecord) (bytes : Bytes) (t : Relay) : Prop :=
  t.db.Has r.deviceId r.id ∨
    (t.records.lookup r.id = some r ∧ t.parts.lookup r.id = some bytes)

theorem kept_step {t : Relay} {e : Event} (hopen : r.deliveryId = none) (h : Kept r bytes t)
    (hp : Sparing store sha256 r t e) : Kept r bytes (apply store sha256 t e) := by
  have hrow : t.db.Has r.deviceId r.id → Kept r bytes (apply store sha256 t e) := by
    intro hhas
    rcases has_step hp.1 hhas with hhas | ⟨f, rfl, -⟩
    · exact .inl hhas
    · obtain ⟨-, he | he | he⟩ := hp <;> contradiction
  rcases h with hhas | ⟨hrecord, hpart⟩
  · exact hrow hhas
  obtain ⟨hp', he | rfl | rfl⟩ := hp
  · have hsame := sameUploads_outside store sha256 t ⟨hp', he⟩
    exact .inr ⟨by rw [hsame.records]; exact hrecord, by rw [hsame.parts]; exact hpart⟩
  · -- A record is completed only when the row is there.
    exact hrow hp'.2.2
  · obtain ⟨r', hr', hsome⟩ := hp'
    rw [hrecord] at hr'
    rw [← Option.some.inj hr', hopen] at hsome
    contradiction

/-- What others do is sparing, and leaves the uploads as they are. -/
theorem sparing_outside {α : Type} {p : Task store sha256 α} {post : α → Relay → Prop}
    (h : Meets p s (PermittedOutside store sha256) (OnSuccess post)) :
    Meets p s (Sparing store sha256 r) (OnSuccess fun a t => post a t ∧ SameUploads s t) := by
  refine (h.rel SameUploads.refl (fun _ _ _ => SameUploads.trans) fun s e he =>
    sameUploads_outside store sha256 s he).mono (fun _ _ h => ⟨h.1, .inl h.2⟩)
      fun _ _ ⟨hpost, hsame⟩ => ?_
  exact fun a ha => ⟨hpost a ha, hsame⟩

/-- The upload is complete and undelivered, and its part holds these bytes, which match. -/
structure Matching (sha256 : Bytes → String) (s : Relay) (r : UploadRecord) (bytes : Bytes) :
    Prop where
  record : s.records.lookup r.id = some r
  part : s.parts.lookup r.id = some bytes
  complete : r.offset = r.length
  undelivered : r.deliveryId = none
  declares : r.Declares sha256 bytes

theorem Matching.same {t : Relay} (h : Matching sha256 s r bytes) (hsame : SameUploads s t) :
    Matching sha256 t r bytes :=
  { h with record := by rw [hsame.records]; exact h.record
           part := by rw [hsame.parts]; exact h.part }

theorem Matching.verified (h : Matching sha256 s r bytes) : s.Verified sha256 r bytes :=
  ⟨h.record, h.part, h.complete, h.undelivered, h.declares.length, h.declares.digest,
    h.declares.mediaType⟩

theorem Matching.ready (h : Matching sha256 s r bytes) : Ready s r :=
  ⟨h.record, fun _ => ⟨bytes, h.part, by rw [h.complete, h.declares.length]⟩⟩

/-- A finalization of a matching upload whose part is read spares it. -/
theorem finalizeUpload_sparing {c : Circumstances} (hsane : store.Sane s)
    (h : Matching sha256 s r bytes) (hread : c.readFails = false) :
    Meets (store.finalizeUpload sha256 r c) s (Sparing store sha256 r)
      (OnSuccess fun r' _ => r'.deliveryId = some r.id) := by
  unfold finalizeUpload
  rw [meets_ite]
  refine ⟨fun hdone => ?_, fun _ => Meets.read ?_⟩
  · simp [h.complete, h.undelivered] at hdone
  rw [h.part, hread, verifyPart_isOk hsane.valid h.record h.declares]
  refine Meets.bind (sparing_outside interfere_meets) fun _ s₁ ⟨_, h₁⟩ => ?_
  have hmatching := h.same h₁
  have hupload : s₁.OfUpload sha256 r.deviceId (deliveryFor r.originalName r.id r.createdAtUnix
      (inspection sha256 bytes)) r.createdAtUnix r.directory :=
    ⟨r, bytes, hmatching.verified, rfl, rfl, rfl, rfl⟩
  refine Meets.bind (sparing_outside (enqueueDirectoryWithId_meets fun _ => hupload))
    fun row s₂ ⟨⟨hid, hrow⟩, h₂⟩ => ?_
  refine Meets.check fun _ hcheck => Meets.step ?_ ?_
  · rw [hid] at hcheck
    exact ⟨⟨hcheck, ⟨bytes, (hmatching.same h₂).verified⟩, hrow⟩, .inr (.inl rfl)⟩
  refine Meets.bind (sparing_outside collectSuperseded_outside) fun _ s₃ ⟨_, h₃⟩ => ?_
  refine Meets.bind (M := fun _ _ => True) ?_ fun _ _ _ => by simp [hid]
  unfold removeCompleted
  rw [meets_ite]
  refine ⟨fun _ => by simp, fun _ => ?_⟩
  rw [meets_emit]
  refine ⟨⟨⟨{ r with deliveryId := some r.id }, ?_, rfl⟩, .inr (.inr rfl)⟩, by simp⟩
  rw [h₃.records]
  exact AList.lookup_insert _

/-- A matching upload needs no reconciliation. -/
theorem reconcileUploadData_sparing (h : Matching sha256 s r bytes) :
    Meets (store.reconcileUploadData sha256 r) s (Sparing store sha256 r)
      (OnSuccess fun _ t => t = s) := by
  have hlength : bytes.length = r.offset := by rw [h.declares.length, h.complete]
  unfold reconcileUploadData
  rw [meets_ite]
  refine ⟨fun _ => by simp, fun _ => Meets.read ?_⟩
  rw [h.part]
  simp [hlength]

/-- Others leave a matching upload as it is. -/
theorem interfere_sparing {l : List Interference} (hsane : store.Sane s)
    (h : Matching sha256 s r bytes) :
    Meets (store.interfere sha256 l) s (Sparing store sha256 r)
      (OnSuccess fun _ t => Matching sha256 t r bytes ∧ store.Sane t) :=
  ((sparing_outside interfere_meets).keep hsane fun _ _ h hp => sane_step h hp.1).imp
    fun _ _ hpost => ⟨h.same hpost.1.2, hpost.2⟩

/-- What the two requests for an upload do first. -/
theorem access_sparing {α : Type} {device : String} {between : List (List Interference)}
    {next : Option UploadRecord → Task store sha256 α} (hsane : store.Sane s)
    (h : Matching sha256 s r bytes)
    (hnone : ∀ t, Meets (next none) t (Sparing store sha256 r) (OnSuccess fun _ _ => True))
    (hsome : ∀ t, store.Sane t → Matching sha256 t r bytes →
      Meets (next (some r)) t (Sparing store sha256 r) (OnSuccess fun _ _ => True)) :
    Meets (do
        ofExcept (validateDeviceId device)
        ofExcept (validateUploadId r.id)
        store.interfere sha256 (between.getD 0 [])
        let s ← get
        ofExcept (s.db.requireDeviceOpen device)
        store.interfere sha256 (between.getD 1 [])
        let s ← get
        let found ← ofExcept (store.ownUpload s device r.id)
        next found) s (Sparing store sha256 r) (OnSuccess fun _ _ => True) := by
  refine Meets.check fun _ _ => Meets.check fun _ hid => ?_
  refine Meets.bind (interfere_sparing hsane h) fun _ s₁ ⟨h₁, hsane₁⟩ =>
    Meets.read (Meets.check fun _ _ => ?_)
  refine Meets.bind (interfere_sparing hsane₁ h₁) fun _ s₂ ⟨h₂, hsane₂⟩ =>
    Meets.read (Meets.check fun found hfound => ?_)
  rw [hsane₂.ownUpload hid, h₂.record, Option.filter_some] at hfound
  obtain rfl := Except.ok.inj hfound
  split
  · exact hsome s₂ hsane₂ h₂
  · exact hnone s₂

theorem getUpload_sparing {device : String} {between : List (List Interference)}
    {c : Circumstances} (hsane : store.Sane s) (h : Matching sha256 s r bytes)
    (hread : c.readFails = false) :
    Meets (store.getUpload sha256 device r.id between c) s (Sparing store sha256 r)
      (OnSuccess fun _ _ => True) := by
  unfold getUpload
  refine access_sparing hsane h (fun t => by simp) fun t hsane h => ?_
  refine Meets.bind (reconcileUploadData_sparing h) fun _ u hu => ?_
  subst hu
  exact Meets.bind (finalizeUpload_sparing hsane h hread) fun _ _ _ => by simp

theorem appendUpload_sparing {device : String} {expectedOffset : Nat} {chunk : Bytes}
    {chunkLength torn : Nat} {between : List (List Interference)} {first second : Circumstances}
    (hsane : store.Sane s) (h : Matching sha256 s r bytes) (hread : first.readFails = false) :
    Meets (store.appendUpload sha256 device r.id expectedOffset chunk chunkLength torn between
        first second) s (Sparing store sha256 r) (OnSuccess fun _ _ => True) := by
  unfold appendUpload
  refine access_sparing hsane h (fun t => by simp) fun t hsane h => ?_
  refine Meets.bind (reconcileUploadData_sparing h) fun _ u hu => ?_
  subst hu
  refine Meets.bind (finalizeUpload_sparing hsane h hread) fun r' _ hr' => ?_
  -- The record names its delivery now, hence nothing is written any more.
  rw [meets_ite, meets_ite, meets_ite, hr']
  exact ⟨fun _ => by simp, fun _ => ⟨fun _ => by simp, fun _ => ⟨fun _ => by simp, fun hnone => by
    simp at hnone⟩⟩⟩

/-- Writing a chunk touches no record, whether it succeeds or not. -/
theorem writeChunk_records {chunk : Bytes} {chunkLength torn : Nat} :
    ((store.writeChunk sha256 r chunk chunkLength torn).final s).records = s.records := by
  have hall : Meets (store.writeChunk sha256 r chunk chunkLength torn) s (fun _ _ => True)
      fun _ t => t.records = s.records := by
    unfold writeChunk
    rw [meets_ite]
    refine ⟨fun _ => by simp, fun _ => Meets.decide (fun _ _ => Meets.read ?_) fun _ _ => rfl⟩
    cases s.parts.lookup r.id with
    | none => simp
    | some bytes => exact Meets.step trivial (by simp [apply])
  exact hall.2

/-- A chunk for an upload that stays or becomes complete leaves it resolved. -/
theorem writeChunk_resolves {chunk : Bytes} {chunkLength torn : Nat} {second : Circumstances}
    (hready : Ready s r) (hsane : store.Sane s) (hopen : r.deliveryId = none)
    (hunfinished : r.offset ≠ r.length) :
    Meets (do
        store.writeChunk sha256 r chunk chunkLength torn
        let advanced := { r with offset := r.offset + chunkLength }
        ofExcept (ensure (advanced.offset < 2 ^ 64) "tus upload offset overflow")
        ofExcept (store.checkUploadRecord advanced)
        emit (.advance r (chunk.take chunkLength))
        let record ← store.finalizeUpload sha256 advanced second
        return AppendUploadOutcome.appended record.info) s (fun _ _ => True)
      fun _ t => Resolved sha256 r.deviceId r.id t := by
  have hsame : ∀ t : Relay, t.records = s.records → Resolved sha256 r.deviceId r.id t := by
    intro t ht
    refine .of_records fun r' hr' _ _ => ?_
    rw [ht, hready.1] at hr'
    exact Option.some.inj hr' ▸ hunfinished
  have hwrite : Meets (store.writeChunk sha256 r chunk chunkLength torn) s _ _ :=
    writeChunk_meets hready hopen
  have hsane' := hwrite.1.invariant hsane fun _ _ h hp => sane_step h hp.1
  have hrecords : ((store.writeChunk sha256 r chunk chunkLength torn).final s).records =
      s.records := writeChunk_records
  rw [meets_bind]
  refine ⟨hwrite.forget.1, ?_⟩
  cases hresult : (store.writeChunk sha256 r chunk chunkLength torn s).result with
  | error e => exact hsame _ hrecords
  | ok u =>
    obtain ⟨-, htake, old, hold, hpart⟩ := hwrite.2 u hresult
    refine Meets.decide (fun _ _ => Meets.decide (fun _ hcheck => Meets.step trivial ?_)
      fun _ _ => hsame _ hrecords) fun _ _ => hsame _ hrecords
    have hadvance : Permitted store sha256
        ((store.writeChunk sha256 r chunk chunkLength torn).final s)
        (.advance r (chunk.take chunkLength)) := by
      refine ⟨by rw [hrecords]; exact hready.1, hopen, by rw [htake]; exact hcheck, _, hpart, ?_, ?_⟩
      · rw [← hold, List.take_left]
      · rw [← hold, List.length_append]
        omega
    have hadvanced : Ready (apply store sha256
        ((store.writeChunk sha256 r chunk chunkLength torn).final s)
        (.advance r (chunk.take chunkLength))) { r with offset := r.offset + chunkLength } := by
      refine ⟨?_, fun _ => ⟨_, hpart, by rw [List.length_append, htake, hold]⟩⟩
      rw [apply, records_withRecord, htake]
      exact AList.lookup_insert _
    have hfinalize : Meets (store.finalizeUpload sha256
        { r with offset := r.offset + chunkLength } second) _ _ _ :=
      finalizeUpload_resolves hadvanced (sane_step hsane' hadvance)
    rw [meets_bind]
    refine ⟨hfinalize.1, ?_⟩
    cases (store.finalizeUpload sha256 { r with offset := r.offset + chunkLength } second _).result with
    | error e => exact hfinalize.2.1
    | ok r' =>
      dsimp only
      rw [meets_pure]
      exact hfinalize.2.1

/-- A PATCH request that runs to its end resolves the upload. -/
theorem appendUpload_resolves {device id : String} {expectedOffset : Nat} {chunk : Bytes}
    {chunkLength torn : Nat} {between : List (List Interference)} {first second : Circumstances}
    (hsane : store.Sane s) :
    Meets (store.appendUpload sha256 device id expectedOffset chunk chunkLength torn between first
        second) s (fun _ _ => True) fun _ t => Resolved sha256 device id t := by
  unfold appendUpload
  refine access_resolves hsane (fun t => by simp) fun t r hr hsane => ?_
  have hreconcile : Meets (store.reconcileUploadData sha256 r) t _ _ :=
    reconcileUploadData_resolves hr hsane
  rw [meets_bind]
  refine ⟨hreconcile.1, ?_⟩
  cases hresult : (store.reconcileUploadData sha256 r t).result with
  | error e => exact hreconcile.2.2 e hresult
  | ok u =>
    obtain ⟨hready, hsane⟩ := hreconcile.2.1 u hresult
    generalize (store.reconcileUploadData sha256 r).final t = t at hready hsane
    have hfinalize : Meets (store.finalizeUpload sha256 r first) t _ _ :=
      finalizeUpload_resolves hready hsane
    have hkept : Meets (store.finalizeUpload sha256 r first) t _ _ := finalizeUpload_meets hready
    dsimp only
    rw [meets_bind]
    refine ⟨hfinalize.1, ?_⟩
    cases hresult : (store.finalizeUpload sha256 r first t).result with
    | error e => exact hfinalize.2.1
    | ok r' =>
      dsimp only
      rw [meets_ite, meets_ite, meets_ite, meets_pure, meets_pure, meets_pure]
      refine ⟨fun _ => hfinalize.2.1, fun _ => ⟨fun _ => hfinalize.2.1, fun _ =>
        ⟨fun _ => hfinalize.2.1, fun hopen => ?_⟩⟩⟩
      rw [Bool.not_eq_true, Option.isSome_eq_false_iff, Option.isNone_iff_eq_none] at hopen
      obtain ⟨-, -, hsame⟩ := hkept.2 r' hresult
      obtain ⟨rfl, hsame⟩ := hsame hopen
      have hunfinished := hfinalize.2.2 r' hresult hopen
      rw [hsame]
      exact writeChunk_resolves hready hsane hopen hunfinished

/-- Whatever happens after the part was read, a matching upload is not lost: cut off anywhere,
the finalization leaves the delivery in the queue or the upload as it was; it is not answered as
wrong content; and a later HEAD or PATCH whose reading succeeds leaves the delivery in the queue,
short of what keeps it out without any failure. -/
structure ContentKept (store : ServerStore) (sha256 : Bytes → String) (s : Relay)
    (r : UploadRecord) (bytes : Bytes) (c : Circumstances) : Prop where
  kept : ∀ k, Kept r bytes ((store.finalizeUpload sha256 r c).cut s k)
  answer : Plain (store.finalizeUpload sha256 r c s).result
  head : ∀ k between later, later.readFails = false → Landed sha256 r bytes
    ((store.getUpload sha256 r.deviceId r.id between later).final
      ((store.finalizeUpload sha256 r c).cut s k))
  patch : ∀ k between expectedOffset chunk chunkLength torn first second,
    first.readFails = false → Landed sha256 r bytes
      ((store.appendUpload sha256 r.deviceId r.id expectedOffset chunk chunkLength torn between
        first second).final ((store.finalizeUpload sha256 r c).cut s k))

/-- What a later request finds, it completes. -/
theorem landed_of_kept {α : Type} {p : Task store sha256 α}
    (hcomplete : r.offset = r.length) (hopen : r.deliveryId = none)
    (hdeclares : r.Declares sha256 bytes) (h : Kept r bytes s)
    (hpermitted : Meets p s (Permitted store sha256) (OnSuccess fun _ _ => True))
    (hsparing : Matching sha256 s r bytes →
      Meets p s (Sparing store sha256 r) (OnSuccess fun _ _ => True))
    (hresolves : Meets p s (fun _ _ => True) fun _ t => Resolved sha256 r.deviceId r.id t) :
    Landed sha256 r bytes (p.final s) := by
  by_cases hhas : s.db.Has r.deviceId r.id
  · -- The row stays unless the exit of the folder begins.
    exact (hpermitted.1.invariant (.inl hhas) fun _ _ h hp => landed_step hp h).imp_right .inl
  obtain ⟨hrecord, hpart⟩ := h.resolve_left hhas
  have hkept := (hsparing ⟨hrecord, hpart, hcomplete, hopen, hdeclares⟩).1.invariant h
    fun _ _ h hp => kept_step hopen h hp
  rcases hkept with hhas | ⟨hrecord, hpart⟩
  · exact .inl hhas
  have htake : bytes.take r.offset = bytes := by
    rw [hcomplete, ← hdeclares.length, List.take_length]
  have hlanded := hresolves.2 r bytes hrecord rfl hopen hcomplete hpart (htake.symm ▸ hdeclares)
  rwa [htake] at hlanded

/-- A finalization whose part is read keeps what matches. -/
theorem contentKept {c : Circumstances} (hsane : store.Sane s) (h : Matching sha256 s r bytes)
    (hread : c.readFails = false) : ContentKept store sha256 s r bytes c := by
  have hsparing : Meets (store.finalizeUpload sha256 r c) s _ _ :=
    finalizeUpload_sparing hsane h hread
  have hkept : ∀ k, Kept r bytes ((store.finalizeUpload sha256 r c).cut s k) :=
    hsparing.cut (.inr ⟨h.record, h.part⟩) fun _ _ hk hp => kept_step h.undelivered hk hp
  have hsane' : ∀ k, store.Sane ((store.finalizeUpload sha256 r c).cut s k) :=
    hsparing.cut hsane fun _ _ hs hp => sane_step hs hp.1
  refine ⟨hkept, ?_, ?_, ?_⟩
  · refine finalizeUpload_plain ?_
    rw [h.part, hread, verifyPart_isOk hsane.valid h.record h.declares]
    rfl
  · intro k between later hlater
    exact landed_of_kept h.complete h.undelivered h.declares (hkept k)
      (permitted getUpload_meets) (fun hm => getUpload_sparing (hsane' k) hm hlater)
      (getUpload_resolves (hsane' k))
  · intro k between expectedOffset chunk chunkLength torn first second hfirst
    exact landed_of_kept h.complete h.undelivered h.declares (hkept k)
      appendUpload_meets (fun hm => appendUpload_sparing (hsane' k) hm hfirst)
      (appendUpload_resolves (hsane' k))

/-- A finalization whose part cannot be read throws the upload away. -/
theorem finalizeUpload_discards {c : Circumstances} (h : Matching sha256 s r bytes)
    (hread : c.readFails = true) :
    store.finalizeUpload sha256 r c s = ⟨[.discardRecord r.id true, .discardPart r.id],
      .error (.invalidUploadContent r.id "failed while reading media bytes")⟩ := by
  have hverify : store.verifyPart sha256 r (some bytes) true =
      .error (.message "failed while reading media bytes") := rfl
  unfold finalizeUpload
  rw [if_neg (by simp [h.complete, h.undelivered]), hread]
  simp only [Bind.bind, andThen, Proc.get, after_nil, h.part, hverify]
  rfl

/-- Neither the record nor the part is left, and no row was added. -/
theorem final_of_discard {c : Circumstances} (h : Matching sha256 s r bytes)
    (hread : c.readFails = true) :
    ((store.finalizeUpload sha256 r c).final s).records.lookup r.id = none ∧
      ((store.finalizeUpload sha256 r c).final s).parts.lookup r.id = none ∧
      ((store.finalizeUpload sha256 r c).final s).desk = s.desk := by
  rw [final, finalizeUpload_discards h hread]
  exact ⟨AList.lookup_erase _ _, AList.lookup_erase _ _, rfl⟩

theorem not_contentKept {c : Circumstances} (h : Matching sha256 s r bytes)
    (hread : c.readFails = true) : ¬ContentKept store sha256 s r bytes c := by
  intro hkept
  refine hkept.answer r.id "failed while reading media bytes" ?_
  rw [finalizeUpload_discards h hread]

theorem sane_run (l : List Action) : store.Sane (store.run sha256 Relay.initial l) :=
  run_invariant ⟨fun k r hr => by simp [Relay.initial] at hr,
    fun v hv => by simp [Relay.initial, Desk.initial, Database.initial] at hv,
    fun k r hr => by simp [Relay.initial] at hr⟩ (fun _ _ => sane_step) l

/-- In every state of every run, the finalization of a complete upload keeps content that
matches its declaration exactly when the part can be read. -/
theorem content_kept_iff (l : List Action) {r : UploadRecord} {bytes : Bytes} {c : Circumstances}
    (hr : (store.run sha256 Relay.initial l).records.lookup r.id = some r)
    (hpart : (store.run sha256 Relay.initial l).parts.lookup r.id = some bytes)
    (hcomplete : r.offset = r.length) (hopen : r.deliveryId = none) :
    (r.Declares sha256 bytes →
        ContentKept store sha256 (store.run sha256 Relay.initial l) r bytes c) ↔
      (r.Declares sha256 bytes → c.readFails = false) := by
  constructor
  · intro h hdeclares
    by_contra hread
    exact not_contentKept ⟨hr, hpart, hcomplete, hopen, hdeclares⟩ (by simpa using hread)
      (h hdeclares)
  · exact fun h hdeclares => contentKept (sane_run l) ⟨hr, hpart, hcomplete, hopen, hdeclares⟩
      (h hdeclares)

/-- The record of a complete upload whose finalization has not begun. -/
def completeRecord : UploadRecord :=
  ⟨none, 1, "00000000-0000-4000-8000-0000000000a1", "linux", "a.txt", "text/plain",
    "8f434346648f6b96df89dda901c5176b10a6d83961dd3c1ac88b59b2dc327aa4", 2, 2, "filename YS50eHQ=",
    10, none⟩

/-- The upload receives its two bytes and is cut off before its finalization. -/
def completeUpload : List Action :=
  [.upload (.create "linux" completeRecord.upload ["00000000-0000-4000-8000-0000000000a1"] 10) []
      none,
    .upload (.patch "linux" "00000000-0000-4000-8000-0000000000a1" 0 [104, 105] 2 1
      undisturbed undisturbed) [] (some 3)]

theorem completeRecord_declares : completeRecord.Declares sampleDigest [104, 105] :=
  ⟨rfl, rfl, by decide⟩

def completeEvents : List Event :=
  [.createRecord { completeRecord with offset := 0 },
    .createPart completeRecord.deviceId completeRecord.id,
    .writePart completeRecord.id [104], .writePart completeRecord.id [104, 105],
    .advance { completeRecord with offset := 0 } [104, 105]]

theorem trace_completeUpload :
    sampleStore.trace sampleDigest Relay.initial completeUpload = completeEvents := by
  decide +kernel

theorem completeUpload_ready :
    let s := sampleStore.run sampleDigest Relay.initial completeUpload
    s.records.lookup completeRecord.id = some completeRecord ∧
      s.parts.lookup completeRecord.id = some [104, 105] ∧ s.db.deliveries.rows = [] := by
  rw [run, trace_completeUpload]
  exact ⟨rfl, rfl, rfl⟩

theorem content_kept_iff_hi :
    ContentKept sampleStore sampleDigest (sampleStore.run sampleDigest Relay.initial completeUpload)
      completeRecord [104, 105] undisturbed :=
  (content_kept_iff completeUpload completeUpload_ready.1 completeUpload_ready.2.1 rfl rfl).mpr
    (fun _ => rfl) completeRecord_declares

/-- One failed read of the complete upload, and neither its record nor its part is left. -/
theorem failedRead_discards_content : ∃ (l : List Action) (r : UploadRecord) (bytes : Bytes)
    (c : Circumstances) (s t : Relay), s = sampleStore.run sampleDigest Relay.initial l ∧
      Matching sampleDigest s r bytes ∧ t = (sampleStore.finalizeUpload sampleDigest r c).final s ∧
      t.records.lookup r.id = none ∧ t.parts.lookup r.id = none ∧ t.db.deliveries.rows = [] := by
  obtain ⟨s, hs⟩ : ∃ s, s = sampleStore.run sampleDigest Relay.initial completeUpload := ⟨_, rfl⟩
  obtain ⟨hrecord, hpart, hrows⟩ := completeUpload_ready
  rw [← hs] at hrecord hpart hrows
  have hmatching : Matching sampleDigest s completeRecord [104, 105] :=
    ⟨hrecord, hpart, rfl, rfl, completeRecord_declares⟩
  obtain ⟨hnone, hgone, hdesk⟩ := @final_of_discard sampleStore sampleDigest _ _ _
    { undisturbed with readFails := true } hmatching rfl
  exact ⟨completeUpload, completeRecord, _, _, s, _, hs, hmatching, rfl, hnone, hgone, by
    rw [Relay.db, hdesk]
    exact hrows⟩

end ServerStore

end MiRelay
