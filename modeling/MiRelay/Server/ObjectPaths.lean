import MiRelay.Server.Exit
import MiRelay.Storage.Receiving

/-!
# One path for an object

What `receive` puts into the library lies where the rows of its delivery say: the
three removals, the quarantine and the lookup of a stored delivery compute the same
path, and reconciliation owns the name.
-/

namespace MiRelay

/-- Where an object lies. -/
def ObjectName.path (contentDir : String) (name : ObjectName) : String :=
  Storage.objectPath contentDir (Storage.shardOf name.sha256)
    (Storage.objectName name.sha256 name.extension)

namespace Storage

/-- The path that `garbage_collect_digest` removes, from a row of the digest. -/
def garbageCollectPath (contentDir sha256 : String) (row : DeliveryRow) : Result String := do
  validateSha256 sha256
  match extensionForMediaType row.mediaType with
  | some extension => .ok (objectPath contentDir (shardOf sha256) (objectName sha256 extension))
  | none => .error (.message s!"unsupported stored media type {row.mediaType.quote}")

/-- The path that `clean_exit` removes, from the digest and the type of a row. -/
def cleanExitPath (contentDir hash media : String) : Result String := do
  validateSha256 hash
  match extensionForMediaType media with
  | some extension => .ok (objectPath contentDir (shardOf hash) (objectName hash extension))
  | none => .error (.message "Invalid stored content type")

/-- `ServerStore::content_path`. -/
def storedContentPath (contentDir : String) (maxFileSize : Nat) (row : DeliveryRow) :
    Result String := do
  validateDeliveryMetadata row.delivery maxFileSize
  match extensionForMediaType row.mediaType with
  | some extension =>
    .ok (objectPath contentDir (shardOf row.sha256) (objectName row.sha256 extension))
  | none => .error (.message "stored delivery uses an unsupported media type")

/-- All parts of the store compute this path from the row. -/
structure Located (contentDir : String) (maxFileSize : Nat) (row : DeliveryRow) (path : String) :
    Prop where
  content : contentPath contentDir row.sha256 row.mediaType = .ok path
  collected : garbageCollectPath contentDir row.sha256 row = .ok path
  erased : cleanExitPath contentDir row.sha256 row.mediaType = .ok path
  stored : storedContentPath contentDir maxFileSize row = .ok path
  /-- The object that the store's transactions name. -/
  object : ∀ name, row.object = some name → name.path contentDir = path
  quarantined : ∀ (s : LibraryState) (moved : String × Bool),
    (quarantineContentObject contentDir row.sha256 row.mediaType s).result = .ok moved →
      moved.1 = path
  /-- What the quarantine takes out of its shard. -/
  taken : ∀ (s : LibraryState) (d n d' n' : String),
    LibraryStep.rename d n d' n' ∈
        (quarantineContentObject contentDir row.sha256 row.mediaType s).events →
      d ≠ stagingDirName → objectPath contentDir d n = path

open Proc

section Located

variable {contentDir digest mediaType extension path : String} {maxFileSize : Nat}
  {row : DeliveryRow} {s : LibraryState}

/-- The object that the quarantine takes is the one of the digest and the type. -/
theorem quarantineContentObject_meets
    (hpath : contentPath contentDir digest mediaType = .ok path) :
    Meets (quarantineContentObject contentDir digest mediaType) s
      (fun _ step => ∀ d n d' n', step = .rename d n d' n' → d ≠ stagingDirName →
        objectPath contentDir d n = path)
      (OnSuccess fun moved _ => moved.1 = path) := by
  obtain ⟨hdigest, extension, hext, rfl⟩ := contentPath_eq_ok.mp hpath
  unfold quarantineContentObject
  rw [hpath, hext]
  apply Meets.check
  rintro _ ⟨⟩
  apply Meets.afterCall (by simp)
  apply Meets.read
  split
  · simp
  · apply Meets.read
    split
    · simp
    · refine Meets.check fun _ _ => ?_
      have hprepared : Meets ensureStagingDirectory (s.apply .answered) _ _ :=
        ensureStagingDirectory_prepared (fun n => ⟨n, rfl⟩)
          fun _ _ h => isLeftover_of_isOwnerTemp h
      refine Meets.bind (hprepared.mono (fun t step hstep => ?_) fun _ _ h => h) fun _ t _ => ?_
      · rintro d n d' n' rfl hd
        cases hstep
        contradiction
      · rw [meets_bind, meets_ask]
        refine ⟨by simp, ?_⟩
        refine Meets.afterAct (by simp) ?_ ?_
        · rintro d n d' n' ⟨⟩ _
          rfl
        · exact Meets.afterCall (by simp) (Meets.afterCall (by simp) (by simp))

/-- A valid row has one path. -/
theorem located (hvalid : validateDeliveryMetadata row.delivery maxFileSize = .ok ())
    (hpath : contentPath contentDir row.sha256 row.mediaType = .ok path) :
    Located contentDir maxFileSize row path := by
  obtain ⟨hdigest, extension, hext, hwhere⟩ := contentPath_eq_ok.mp hpath
  refine ⟨hpath, ?_, ?_, ?_, fun name hname => ?_, fun s moved hmoved => ?_,
    fun s d n d' n' hstep hd => ?_⟩
  · rw [garbageCollectPath, hdigest, hext, hwhere]
    rfl
  · rw [cleanExitPath, hdigest, hext, hwhere]
    rfl
  · rw [storedContentPath, hvalid, hext, hwhere]
    rfl
  · obtain ⟨hsha, hname⟩ := objectOf_eq_some.mp hname
    rw [hext, Option.some.injEq] at hname
    rw [ObjectName.path, hsha, ← hname, hwhere]
  · exact (quarantineContentObject_meets hpath).2 moved hmoved
  · have hall : Guarded LibraryState.apply _ s _ := (quarantineContentObject_meets hpath).1
    exact hall.mem _ hstep d n d' n' rfl hd

/-- The name that the scan of the store's objects takes for owned. -/
theorem isOwnedContentObjectName_eq (name : ObjectName) :
    ServerStore.isOwnedContentObjectName name =
      isOwnedContentObjectName (shardOf name.sha256) (objectName name.sha256 name.extension) := by
  have hok {digest : String} (h : (validateSha256 digest).isOk = true) :
      validateSha256 digest = .ok () := by
    cases hv : validateSha256 digest with
    | ok u => rfl
    | error e => simp [hv, Except.isOk, Except.toBool] at h
  rw [Bool.eq_iff_iff]
  constructor
  · intro h
    rw [ServerStore.isOwnedContentObjectName, Bool.and_eq_true] at h
    obtain ⟨mediaType, hext⟩ := isSupportedContentExtension_iff.mp h.2
    exact isOwnedContentObjectName_objectName (hok h.1) hext
  · intro h
    rw [isOwnedContentObjectName] at h
    split at h
    · contradiction
    · rename_i digest extension hsplit
      rw [Bool.and_eq_true, Bool.and_eq_true] at h
      obtain ⟨⟨hdigest, -⟩, hsupported⟩ := h
      obtain ⟨hname, hback⟩ := rsplitOnce_eq_some.mp hsplit
      -- The only dot of the name is the one before its extension.
      have hdot : isHexLower '.' = false := rfl
      have hfront : '.' ∉ digest.toList := fun hmem => by
        have hhex := isHexLower_of_validateSha256 (hok hdigest) _ hmem
        rw [hdot] at hhex
        contradiction
      have hcount := congrArg (List.count '.') hname
      rw [toList_objectName, List.count_append, List.count_append, List.count_cons_self,
        List.count_cons_self, List.count_eq_zero.mpr hfront, List.count_eq_zero.mpr hback] at hcount
      have hext : '.' ∉ name.extension.toList := List.count_eq_zero.mp (by omega)
      have hsame : some (name.sha256, name.extension) = some (digest, extension) :=
        (rsplitOnce_eq_some.mpr ⟨toList_objectName, hext⟩).symm.trans hsplit
      rw [Option.some.injEq, Prod.mk.injEq] at hsame
      obtain ⟨hsha, hsame⟩ := hsame
      rw [ServerStore.isOwnedContentObjectName, hsha, hsame, Bool.and_eq_true]
      exact ⟨hdigest, hsupported⟩

end Located

section Receive

variable {sha256 : Bytes → String} {hasher : Hasher sha256} {delivery : Delivery}
  {reads : List ReadStep} {libraryDir : String} {maxFileSize : Nat} {s : LibraryState}
  {asset : StoredAsset}

/-- With the delivery the manifest of its row is valid. -/
theorem valid_row (h : validateDeliveryMetadata delivery maxFileSize = .ok ()) (device : String)
    (sequence createdAt : Nat) :
    validateDeliveryMetadata (delivery.row device sequence createdAt).delivery maxFileSize =
      .ok () := by
  simp only [validateDeliveryMetadata, bind_eq_ok, ensure_eq_ok] at h ⊢
  obtain ⟨u, -, _, hid, _, -, _, hname, _, hsize, _, hmax, _, hdigest, htype⟩ := h
  exact ⟨u, rfl, (), hid, (), rfl, (), hname, (), hsize, (), hmax, (), hdigest, htype⟩

/-- The declared place is the path of the declared digest and type. -/
theorem contentPath_declared (h : validateDeliveryMetadata delivery maxFileSize = .ok ()) :
    contentPath libraryDir delivery.sha256 delivery.mediaType =
      .ok (declaredAsset libraryDir delivery).path := by
  obtain ⟨-, -, hdigest, hext⟩ := validateDeliveryMetadata_ok h
  obtain ⟨extension, hext⟩ := Option.isSome_iff_exists.mp hext
  refine contentPath_eq_ok.mpr ⟨hdigest, extension, hext, ?_⟩
  rw [declaredAsset, declaredName, hext]
  rfl

/-- The declared place is owned. -/
theorem declared_owned (h : validateDeliveryMetadata delivery maxFileSize = .ok ()) :
    isContentShardName (shardOf delivery.sha256) = true ∧
      isOwnedContentObjectName (shardOf delivery.sha256) (declaredName delivery) = true := by
  obtain ⟨-, -, hdigest, hext⟩ := validateDeliveryMetadata_ok h
  obtain ⟨extension, hext⟩ := Option.isSome_iff_exists.mp hext
  refine ⟨isContentShardName_shardOf hdigest, ?_⟩
  rw [declaredName, hext]
  exact isOwnedContentObjectName_objectName hdigest hext

/-- Nothing is put anywhere else. -/
theorem put_of_receive (hmax : maxFileSize < 2 ^ 64) {d n d' n' : String}
    (h : LibraryStep.rename d n d' n' ∈
      (receive hasher delivery reads libraryDir maxFileSize s).events) (hd : d' ≠ stagingDirName) :
    validateDeliveryMetadata delivery maxFileSize = .ok () ∧ d' = shardOf delivery.sha256 ∧
      n' = declaredName delivery := by
  constructor
  · cases hvalid : validateDeliveryMetadata delivery maxFileSize with
    | ok u => rfl
    | error e =>
      rw [receive, hvalid, events_bind_error (e := e) rfl] at h
      contradiction
  · have hrun : Meets (receive hasher delivery reads libraryDir maxFileSize) s _ _ :=
      receive_meets hmax
    have hall : Guarded LibraryState.apply (fun _ step => ∀ d n d' n', step = .rename d n d' n' →
        d' ≠ stagingDirName → d' = shardOf delivery.sha256 ∧ n' = declaredName delivery) s
          (receive hasher delivery reads libraryDir maxFileSize s).events := by
      refine hrun.1.mono fun t step hstep => ?_
      rintro d n d' n' rfl hd
      cases hstep with
      | prepares hstep =>
        cases hstep
        contradiction
      | put => exact ⟨rfl, rfl⟩
    exact hall.mem _ h d n d' n' rfl hd

end Receive

/-- All parts of the store name an object alike. Where `receive` puts something, and what it
returns, is the path that every part of the store computes from a row of the delivery, and
reconciliation owns the name there; every name that it owns is the path of a digest and a
supported type, of which there is only one, and the scan of the store's objects owns the same. -/
theorem object_paths_agree {sha256 : Bytes → String} (hasher : Hasher sha256)
    (maxFileSize : Fin (2 ^ 64)) (libraryDir : String) :
    (∀ (delivery : Delivery) (reads : List ReadStep) (s : LibraryState) (device : String)
        (sequence createdAt : Nat),
      (∀ d n d' n', LibraryStep.rename d n d' n' ∈
          (receive hasher delivery reads libraryDir maxFileSize s).events → d' ≠ stagingDirName →
        Located libraryDir maxFileSize (delivery.row device sequence createdAt)
            (objectPath libraryDir d' n') ∧
          isContentShardName d' = true ∧ isOwnedContentObjectName d' n' = true) ∧
      ∀ asset, (receive hasher delivery reads libraryDir maxFileSize s).result = .ok asset →
        asset.sha256 = delivery.sha256 ∧ asset.mediaType = delivery.mediaType ∧
          contentPath libraryDir asset.sha256 asset.mediaType = .ok asset.path ∧
          Located libraryDir maxFileSize (delivery.row device sequence createdAt) asset.path ∧
          ∃ shard name entry, asset.path = objectPath libraryDir shard name ∧
            ((receive hasher delivery reads libraryDir maxFileSize).final s).entry shard name =
              some entry ∧ entry.removable = true ∧
            isContentShardName shard = true ∧ isOwnedContentObjectName shard name = true) ∧
    (∀ shard name, isContentShardName shard = true → isOwnedContentObjectName shard name = true →
      ∃ digest mediaType, (extensionForMediaType mediaType).isSome = true ∧
        contentPath libraryDir digest mediaType = .ok (objectPath libraryDir shard name)) ∧
    (∀ name : ObjectName, ServerStore.isOwnedContentObjectName name =
      isOwnedContentObjectName (shardOf name.sha256) (objectName name.sha256 name.extension)) ∧
    ∀ digest mediaType digest' mediaType' path,
      contentPath libraryDir digest mediaType = .ok path →
        contentPath libraryDir digest' mediaType' = .ok path →
          digest = digest' ∧ mediaType = mediaType' := by
  have hmax : maxFileSize.val < 2 ^ 64 := maxFileSize.isLt
  refine ⟨fun delivery reads s device sequence createdAt =>
    ⟨fun d n d' n' hstep hd => ?_, fun asset hasset => ?_⟩, fun shard name hshard howned => ?_,
    isOwnedContentObjectName_eq, fun _ _ _ _ _ h h' => contentPath_injective h h'⟩
  · obtain ⟨hvalid, rfl, rfl⟩ := put_of_receive hmax hstep hd
    exact ⟨located (valid_row hvalid device sequence createdAt) (contentPath_declared hvalid),
      declared_owned hvalid⟩
  · have hvalid := valid_of_receive hasset
    have hrun : Meets (receive hasher delivery reads libraryDir maxFileSize) s _ _ :=
      receive_meets hmax
    obtain ⟨rfl, bytes, content, -, hcontent, -⟩ := hrun.2.1 asset hasset
    obtain ⟨entry, hentry, hread⟩ := Option.bind_eq_some_iff.mp hcontent
    refine ⟨rfl, rfl, contentPath_declared hvalid,
      located (valid_row hvalid device sequence createdAt) (contentPath_declared hvalid),
      _, _, entry, rfl, hentry, ?_, declared_owned hvalid⟩
    cases entry with
    | file | link => rfl
    | directory | other => contradiction
  · obtain ⟨digest, mediaType, extension, hdigest, hext, rfl, rfl⟩ :=
      exists_of_isOwnedContentObjectName hshard howned
    exact ⟨digest, mediaType, by rw [hext]; rfl, contentPath_eq_ok.mpr
      ⟨hdigest, extension, hext, rfl⟩⟩

end Storage

end MiRelay
