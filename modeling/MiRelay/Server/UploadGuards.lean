import MiRelay.Server.StoreGuards

/-!
# Uploads keep to the conditions

Every operation under the upload lock causes only permitted events. The record
it works on is the one on disk, and between its own steps nobody else touches
records or parts.
-/

namespace MiRelay

open Proc Relay

namespace ServerStore

variable {store : ServerStore} {sha256 : Bytes → String} {s : Relay}

/-- What moves no upload on is permitted. -/
theorem permitted {α : Type} {p : Task store sha256 α} {Q : Except Error α → Relay → Prop}
    (h : Meets p s (PermittedCalm store sha256) Q) : Meets p s (Permitted store sha256) Q :=
  h.mono (fun _ _ he => he.1) fun _ _ hQ => hQ

theorem interfere_calm {l : List Interference} :
    Meets (store.interfere sha256 l) s (PermittedCalm store sha256)
      (OnSuccess fun _ t => SameUploads s t) :=
  interfere_meets.mono (fun _ _ h => h.calm) fun _ _ h => h

/-- A content operation inside an upload leaves the uploads as they are. -/
theorem inside {α : Type} {p : Task store sha256 α} {post : α → Relay → Prop}
    (h : Meets p s (PermittedOutside store sha256) (OnSuccess post)) :
    Meets p s (PermittedCalm store sha256) (OnSuccess fun a t => post a t ∧ SameUploads s t) := by
  refine (h.rel SameUploads.refl (fun _ _ _ => SameUploads.trans) fun s e he =>
    sameUploads_outside store sha256 s he).mono (fun _ _ h => h.calm) fun r t ⟨hpost, hsame⟩ => ?_
  exact fun a ha => ⟨hpost a ha, hsame⟩

/-- The record on disk, whose part holds exactly the committed bytes. -/
def Ready (s : Relay) (r : UploadRecord) : Prop :=
  s.records.lookup r.id = some r ∧
    (r.deliveryId = none → ∃ bytes, s.parts.lookup r.id = some bytes ∧ bytes.length = r.offset)

theorem validateUploadRecord_ok {id : String} {r : UploadRecord} {u : Unit}
    (h : store.validateUploadRecord id r = .ok u) :
    r.id = id ∧ r.offset ≤ r.length ∧ r.length ≤ store.maxFileSize ∧ 0 < r.length := by
  simp only [validateUploadRecord, bind_eq_ok, ensure_eq_ok, Bool.and_eq_true, beq_iff_eq,
    decide_eq_true_eq] at h
  obtain ⟨_, -, _, ⟨-, hid⟩, _, -, _, hle, _, hnew, -⟩ := h
  simp only [validateNewUpload, bind_eq_ok] at hnew
  obtain ⟨_, -, _, hmeta, -⟩ := hnew
  obtain ⟨hpos, hmax, -⟩ := validateDeliveryMetadata_ok hmeta
  exact ⟨hid, hle, hmax, hpos⟩

/-- A record that is read is on disk under its own identity. -/
theorem readUploadRecord_ok {id : String} {r : UploadRecord}
    (h : store.readUploadRecord s id = .ok (some r)) :
    s.records.lookup id = some r ∧ r.id = id := by
  simp only [readUploadRecord, bind_eq_ok] at h
  obtain ⟨_, -, h⟩ := h
  split at h
  · cases Except.ok.inj h
  · rename_i record hrecord
    simp only [bind_eq_ok] at h
    obtain ⟨_, -, _, hvalid, h⟩ := h
    obtain rfl := Option.some.inj (Except.ok.inj h)
    exact ⟨hrecord, (validateUploadRecord_ok hvalid).1⟩

theorem ownUpload_ok {device id : String} {r : UploadRecord}
    (h : store.ownUpload s device id = .ok (some r)) :
    s.records.lookup r.id = some r ∧ r.id = id ∧ r.deviceId = device := by
  simp only [ownUpload, bind_eq_ok] at h
  obtain ⟨found, hfound, h⟩ := h
  obtain ⟨rfl, hdevice⟩ := Option.filter_eq_some_iff.mp (Except.ok.inj h)
  obtain ⟨hlookup, rfl⟩ := readUploadRecord_ok hfound
  exact ⟨hlookup, rfl, by simpa using hdevice⟩

/-- A torn tail is cut off. -/
theorem reconcileUploadData_meets {r : UploadRecord} (hr : s.records.lookup r.id = some r) :
    Meets (store.reconcileUploadData sha256 r) s (PermittedCalm store sha256)
      (OnSuccess fun _ t => Ready t r ∧ t.desk = s.desk) := by
  unfold reconcileUploadData
  rw [meets_ite]
  refine ⟨fun hdone => ?_, fun hopen => Meets.read ?_⟩
  · rw [meets_pure, onSuccess_ok]
    refine ⟨⟨hr, fun hnone => ?_⟩, rfl⟩
    rw [hnone] at hdone
    contradiction
  rw [Bool.not_eq_true, Option.isSome_eq_false_iff, Option.isNone_iff_eq_none] at hopen
  cases hpart : s.parts.lookup r.id with
  | none => simp
  | some bytes =>
    dsimp only
    rw [meets_ite, meets_ite]
    refine ⟨fun _ => by simp, fun hlong => ⟨fun htail => ?_, fun hexact => ?_⟩⟩
    · rw [meets_emit, onSuccess_ok]
      refine ⟨⟨⟨r, bytes, hr, hpart, hopen, by rw [List.take_take, min_self], ?_⟩, rfl⟩,
        ⟨hr, fun _ => ⟨bytes.take r.offset, AList.lookup_insert _, ?_⟩⟩, rfl⟩ <;>
      · rw [List.length_take]
        omega
    · rw [meets_pure, onSuccess_ok]
      exact ⟨⟨hr, fun _ => ⟨bytes, hpart, by omega⟩⟩, rfl⟩

theorem verifyPart_ok {r : UploadRecord} {part : Option Bytes} {readFails : Bool} {bytes : Bytes}
    (h : store.verifyPart sha256 r part readFails = .ok bytes) :
    part = some bytes ∧ readFails = false ∧ bytes.length = r.length ∧ sha256 bytes = r.sha256 ∧
      (mediaOf bytes).1 = r.mediaType := by
  cases part with
  | none => contradiction
  | some b =>
    simp only [verifyPart, bind_eq_ok, ensure_eq_ok] at h
    obtain ⟨_, hread, _, hverify, h⟩ := h
    obtain rfl := Except.ok.inj h
    obtain ⟨-, -, hlength, hsha, hmedia⟩ := (verifyRecordedFile_ok sha256).mp hverify
    exact ⟨rfl, by simpa using hread, hlength, hsha, hmedia⟩

/-- An operation outside the upload lock leaves the uploads as they are, whatever its result. -/
theorem sameUploads_of_outside {α : Type} {p : Task store sha256 α}
    {Q : Except Error α → Relay → Prop} (h : Meets p s (PermittedOutside store sha256) Q) :
    SameUploads s (p.final s) :=
  (h.rel SameUploads.refl (fun _ _ _ => SameUploads.trans) fun s _ he =>
    sameUploads_outside store sha256 s he).2.2

theorem collectSuperseded_outside {r : UploadRecord} {c : Circumstances} :
    Meets (store.collectSuperseded sha256 r c) s (PermittedOutside store sha256)
      (OnSuccess fun _ _ => True) := by
  unfold collectSuperseded
  rw [meets_ite]
  refine ⟨fun _ => ?_, fun _ => by simp⟩
  exact Meets.bind interfere_meets fun _ _ _ =>
    Meets.bind garbageCollectDigest_meets fun _ _ _ => by simp

theorem collectSuperseded_meets {r : UploadRecord} {c : Circumstances} :
    Meets (store.collectSuperseded sha256 r c) s (PermittedCalm store sha256)
      (OnSuccess fun _ t => SameUploads s t) :=
  (inside collectSuperseded_outside).imp fun _ _ h => h.2

/-- A finalization keeps to the conditions and the offset; a record that still names no
delivery was not touched. -/
theorem finalizeUpload_meets {r : UploadRecord} {c : Circumstances} (hr : Ready s r) :
    Meets (store.finalizeUpload sha256 r c) s (PermittedCalm store sha256)
      (OnSuccess fun r' t => r'.offset = r.offset ∧ r'.length = r.length ∧
        (r'.deliveryId = none → r' = r ∧ t = s)) := by
  unfold finalizeUpload
  rw [meets_ite]
  refine ⟨fun _ => by simp, fun hcomplete => Meets.read ?_⟩
  rw [not_or, not_not, Bool.not_eq_true, Option.isSome_eq_false_iff,
    Option.isNone_iff_eq_none] at hcomplete
  obtain ⟨hoffset, hopen⟩ := hcomplete
  obtain ⟨part, hready, hsize⟩ := hr.2 hopen
  cases hverify : store.verifyPart sha256 r (s.parts.lookup r.id) c.readFails with
  | error e =>
    rw [hready] at hverify
    refine Meets.bind (M := fun _ _ => True) ?_ fun _ _ _ => by simp
    refine Meets.step ⟨⟨r, part, e, hr.1, hready, hsize, hoffset, hopen, hverify⟩, rfl⟩ ?_
    rw [meets_emit]
    exact ⟨⟨AList.lookup_erase _ _, rfl⟩, by simp⟩
  | ok bytes =>
    obtain ⟨hpart, -, hlength, hsha, hmedia⟩ := verifyPart_ok hverify
    have hverified : s.Verified sha256 r bytes := ⟨hr.1, hpart, hoffset, hopen, hlength, hsha, hmedia⟩
    dsimp only
    refine Meets.bind interfere_calm fun _ s₁ h₁ => ?_
    have hupload : s₁.OfUpload sha256 r.deviceId (deliveryFor r.originalName r.id r.createdAtUnix
        (inspection sha256 bytes)) r.createdAtUnix r.directory :=
      ⟨r, bytes, h₁.verified sha256 hverified, rfl, rfl, rfl, rfl⟩
    refine Meets.bind (inside (enqueueDirectoryWithId_meets fun _ => hupload))
      fun row s₂ ⟨⟨hid, hrow⟩, h₂⟩ => ?_
    have hsame : SameUploads s s₂ := h₁.trans h₂
    refine Meets.check fun _ hcheck => Meets.step ?_ ?_
    · rw [hid] at hcheck
      exact ⟨⟨hcheck, ⟨bytes, hsame.verified sha256 hverified⟩, hrow⟩, rfl⟩
    refine Meets.bind collectSuperseded_meets fun _ s₃ h₃ => ?_
    refine Meets.bind (M := fun _ _ => True) ?_ fun _ _ _ => by simp
    unfold removeCompleted
    rw [meets_ite]
    refine ⟨fun _ => by simp, fun _ => ?_⟩
    rw [meets_emit]
    refine ⟨⟨⟨{ r with deliveryId := some r.id }, ?_, rfl⟩, rfl⟩, by simp⟩
    rw [h₃.records]
    exact AList.lookup_insert _

theorem getUpload_meets {device id : String} {between : List (List Interference)}
    {c : Circumstances} :
    Meets (store.getUpload sha256 device id between c) s (PermittedCalm store sha256)
      (OnSuccess fun _ _ => True) := by
  unfold getUpload
  refine Meets.check fun _ _ => Meets.check fun _ _ => ?_
  refine Meets.bind interfere_calm fun _ s₁ _ => Meets.read (Meets.check fun _ _ => ?_)
  refine Meets.bind interfere_calm fun _ s₂ _ => Meets.read (Meets.check fun found hfound => ?_)
  cases found with
  | none => simp
  | some r =>
    obtain ⟨hr, -, -⟩ := ownUpload_ok hfound
    refine Meets.bind (reconcileUploadData_meets hr) fun _ s₃ h₃ => ?_
    exact Meets.bind (finalizeUpload_meets h₃.1) fun _ _ _ => by simp

/-- Writing at the end of the committed bytes appends. -/
theorem writeAt_length {bytes chunk : Bytes} : writeAt bytes bytes.length chunk = bytes ++ chunk := by
  simp [writeAt]

/-- A written chunk follows the committed bytes. -/
theorem writeChunk_meets {r : UploadRecord} {chunk : Bytes} {chunkLength torn : Nat}
    (hr : Ready s r) (hopen : r.deliveryId = none) :
    Meets (store.writeChunk sha256 r chunk chunkLength torn) s (PermittedCalm store sha256)
      (OnSuccess fun _ t => t.records = s.records ∧ (chunk.take chunkLength).length = chunkLength ∧
        ∃ old, old.length = r.offset ∧
          t.parts.lookup r.id = some (old ++ chunk.take chunkLength)) := by
  obtain ⟨bytes, hpart, hlength⟩ := hr.2 hopen
  unfold writeChunk
  rw [meets_ite]
  refine ⟨fun hzero => ?_, fun _ => Meets.check fun _ heq => Meets.read ?_⟩
  · rw [meets_pure, onSuccess_ok, hzero]
    exact ⟨rfl, rfl, bytes, hlength, by rw [List.take_zero, List.append_nil, hpart]⟩
  rw [ensure_eq_ok, beq_iff_eq] at heq
  rw [hpart]
  dsimp only
  rw [← hlength, writeAt_length, writeAt_length]
  have hwrite : ∀ (t : Relay) (old new : Bytes), t.records = s.records →
      t.parts.lookup r.id = some (bytes ++ old) →
      PermittedCalm store sha256 t (.writePart r.id (bytes ++ new)) := by
    intro t old new hrecords hparts
    refine ⟨⟨r, bytes ++ old, by rw [hrecords]; exact hr.1, hparts, hopen, ?_, ?_⟩, rfl⟩
    · rw [← hlength, List.take_left, List.take_left]
    · rw [← hlength, List.length_append]
      omega
  refine Meets.step (hwrite s [] _ rfl (by rw [List.append_nil, hpart])) ?_
  rw [meets_emit, onSuccess_ok]
  refine ⟨hwrite _ (chunk.take torn) _ rfl (AList.lookup_insert _), rfl, ?_, bytes, rfl, ?_⟩
  · rw [← heq, List.take_length]
  · rw [← heq, List.take_length]
    exact AList.lookup_insert _

/-- A permitted event of a PATCH request: it moves no upload on, or this one from the offset of the
request over its chunk. -/
def Advancing (store : ServerStore) (sha256 : Bytes → String) (id : String) (expectedOffset : Nat)
    (chunk : Bytes) (s : Relay) (e : Event) : Prop :=
  PermittedCalm store sha256 s e ∨
    (Permitted store sha256 s e ∧ ∃ r, e = .advance r chunk ∧ r.id = id ∧ r.offset = expectedOffset)

theorem Advancing.permitted {id : String} {expectedOffset : Nat} {chunk : Bytes} {e : Event}
    (h : Advancing store sha256 id expectedOffset chunk s e) : Permitted store sha256 s e :=
  h.elim (·.1) (·.1)

theorem advancing {α : Type} {p : Task store sha256 α} {Q : Except Error α → Relay → Prop}
    {id : String} {expectedOffset : Nat} {chunk : Bytes}
    (h : Meets p s (PermittedCalm store sha256) Q) :
    Meets p s (Advancing store sha256 id expectedOffset chunk) Q :=
  h.mono (fun _ _ he => .inl he) fun _ _ hQ => hQ

/-- A PATCH request moves its upload on over its chunk, and no other. -/
theorem appendUpload_advances {device id : String} {expectedOffset : Nat} {chunk : Bytes}
    {chunkLength torn : Nat} {between : List (List Interference)} {first second : Circumstances} :
    Meets (store.appendUpload sha256 device id expectedOffset chunk chunkLength torn between first
        second) s (Advancing store sha256 id expectedOffset (chunk.take chunkLength))
      (OnSuccess fun _ _ => True) := by
  unfold appendUpload
  refine Meets.check fun _ _ => Meets.check fun _ _ => ?_
  refine Meets.bind (advancing interfere_calm) fun _ s₁ _ => Meets.read (Meets.check fun _ _ => ?_)
  refine Meets.bind (advancing interfere_calm) fun _ s₂ _ => Meets.read (Meets.check fun found hfound => ?_)
  cases found with
  | none => simp
  | some r =>
    obtain ⟨hr, rfl, -⟩ := ownUpload_ok hfound
    refine Meets.bind (advancing (reconcileUploadData_meets hr)) fun _ s₃ hready => ?_
    have h₃ := hready.1
    refine Meets.bind (advancing (finalizeUpload_meets h₃)) fun r' s₄ hfinalized => ?_
    obtain ⟨hoffset, -, h₄⟩ := hfinalized
    rw [meets_ite, meets_ite, meets_ite]
    refine ⟨fun _ => by simp, fun hsame =>
      ⟨fun _ => by simp, fun _ => ⟨fun _ => by simp, fun hopen => ?_⟩⟩⟩
    rw [not_not, hoffset] at hsame
    rw [Bool.not_eq_true, Option.isSome_eq_false_iff, Option.isNone_iff_eq_none] at hopen
    obtain ⟨rfl, rfl⟩ := h₄ hopen
    refine Meets.bind (advancing (writeChunk_meets h₃ hopen)) fun _ s₅ hwritten => ?_
    obtain ⟨hrecords, htake, old, hold, hpart⟩ := hwritten
    refine Meets.check fun _ _ => Meets.check fun _ hcheck => Meets.step ?_ ?_
    · refine .inr ⟨⟨by rw [hrecords]; exact h₃.1, hopen, by rw [htake]; exact hcheck, _, hpart, ?_, ?_⟩,
        r', rfl, rfl, hsame.symm⟩
      · rw [← hold, List.take_left]
      · rw [← hold, List.length_append]
        omega
    refine Meets.bind (advancing (finalizeUpload_meets ⟨?_, fun _ => ⟨_, hpart, ?_⟩⟩)) fun _ _ _ => by simp
    · rw [apply, records_withRecord, htake]
      exact AList.lookup_insert _
    · rw [List.length_append, htake, hold]

theorem appendUpload_meets {device id : String} {expectedOffset : Nat} {chunk : Bytes}
    {chunkLength torn : Nat} {between : List (List Interference)} {first second : Circumstances} :
    Meets (store.appendUpload sha256 device id expectedOffset chunk chunkLength torn between first
        second) s (Permitted store sha256) (OnSuccess fun _ _ => True) :=
  appendUpload_advances.mono (fun _ _ he => he.permitted) fun _ _ h => h

theorem allocateUpload_meets {device : String} {upload : NewUpload} {now : Fin (2 ^ 63)}
    {between : List (List Interference)} {candidates : List String}
    (hopen : s.db.retired device = false) :
    Meets (store.allocateUpload sha256 device upload now between candidates) s
      (Permitted store sha256) (OnSuccess fun _ _ => True) := by
  induction candidates with
  | nil => simp [allocateUpload]
  | cons id rest ih =>
    unfold allocateUpload
    refine Meets.check fun _ _ => Meets.read ?_
    rw [meets_ite]
    refine ⟨fun _ => ih, fun hfree => Meets.check fun _ hcheck => ?_⟩
    rw [Bool.or_eq_true, not_or, Bool.not_eq_true, Bool.not_eq_true, Option.isSome_eq_false_iff,
      Option.isSome_eq_false_iff, Option.isNone_iff_eq_none, Option.isNone_iff_eq_none] at hfree
    refine Meets.step ⟨hfree.1, hfree.2, hopen, hcheck, rfl, rfl, Nat.le_sub_one_of_lt now.isLt⟩ ?_
    refine Meets.bind (permitted interfere_calm) fun _ s₁ h₁ => Meets.step ?_ (by simp)
    refine ⟨by rw [h₁.parts]; exact hfree.2, (h₁.retired device).trans hopen, ?_⟩
    exact ⟨_, by rw [h₁.records]; exact AList.lookup_insert _, rfl, rfl, rfl⟩

theorem createUpload_meets {device : String} {upload : NewUpload} {candidates : List String}
    {now : Fin (2 ^ 63)} {between : List (List Interference)} :
    Meets (store.createUpload sha256 device upload candidates now between) s
      (Permitted store sha256) (OnSuccess fun _ _ => True) := by
  unfold createUpload
  refine Meets.check fun _ _ => Meets.check fun _ _ => Meets.read (Meets.check fun _ _ => ?_)
  refine Meets.bind (permitted interfere_calm) fun _ s₁ _ => Meets.read (Meets.check fun _ hopen => ?_)
  refine Meets.bind (permitted interfere_calm) fun _ s₂ h₂ => ?_
  exact allocateUpload_meets ((h₂.retired device).trans (Database.retired_of_open hopen))

end ServerStore

end MiRelay
