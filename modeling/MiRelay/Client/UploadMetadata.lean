import MiRelay.Client.TusRuns

/-!
# The header of the client and the parser of the relay

The client writes its header in the canonical form of the relay, with values that
the relay's own checks keep within the limits of the parser. Hence the relay reads
it back, keeps it as it is, and reports the text that the client compares with.
-/

namespace MiRelay

open TusProc

/-! ### Values that the header carries -/

theorem carried_of_validateUploadName {name : String} (h : validateUploadName name = .ok ()) :
    Carried name := by
  simp only [validateUploadName, ensure_eq_ok, Bool.and_eq_true, decide_eq_true_eq] at h
  obtain ⟨⟨⟨⟨⟨⟨hne, hlength⟩, -⟩, -⟩, -⟩, -⟩, -⟩ := h
  exact ⟨fun hnil => hne (by rw [hnil]; rfl), by omega⟩

theorem carried_of_validateSha256 {sha256 : String} (h : validateSha256 sha256 = .ok ()) :
    Carried sha256 := by
  simp only [validateSha256, ensure_eq_ok, Bool.and_eq_true, beq_iff_eq] at h
  refine ⟨fun hnil => ?_, by omega⟩
  rw [hnil] at h
  exact absurd h.1 (by decide)

/-- The types of the table are short. -/
theorem carried_of_mediaType {mediaType : String}
    (h : (extensionForMediaType mediaType).isSome = true) : Carried mediaType := by
  have hmem : mediaType ∈ ["image/png", "image/jpeg", "image/gif", "image/webp", "image/avif",
      "text/plain", "application/pdf", "application/zip", "application/gzip",
      "application/x-7z-compressed", "application/vnd.rar", "application/octet-stream",
      "audio/mpeg", "audio/wav", "audio/flac", "application/ogg", "video/mp4", "video/webm"] := by
    by_contra hnot
    simp only [List.mem_cons, List.not_mem_nil, or_false, not_or] at hnot
    simp [extensionForMediaType, hnot] at h
  have hall : ∀ t ∈ ["image/png", "image/jpeg", "image/gif", "image/webp", "image/avif",
      "text/plain", "application/pdf", "application/zip", "application/gzip",
      "application/x-7z-compressed", "application/vnd.rar", "application/octet-stream",
      "audio/mpeg", "audio/wav", "audio/flac", "application/ogg", "video/mp4", "video/webm"],
      t ≠ "" ∧ utf8Len t.toList ≤ 1024 := by decide
  exact hall mediaType hmem

theorem carried_of_validatePath {path : String} (h : validatePath path = .ok ()) :
    Carried path := by
  simp only [validatePath, bind_eq_ok, ensure_eq_ok, Bool.and_eq_true, decide_eq_true_eq] at h
  obtain ⟨_, ⟨⟨hne, hlength⟩, -⟩, -⟩ := h
  exact ⟨fun hnil => hne (by rw [hnil]; rfl), hlength⟩

/-- A decimal number is read back. -/
theorem parseNumber_toString {n : Nat} (h : n < 2 ^ 64) :
    parseNumber (toString n).toList = some n := by
  have hdigits : (toString n).toList = Nat.toDigits 10 n := Nat.toList_repr
  have hall : (Nat.toDigits 10 n).all Char.isDigit = true := List.all_eq_true.mpr fun c hc =>
    Nat.isDigit_of_mem_toDigits (by omega) (by omega) hc
  have hne : Nat.toDigits 10 n ≠ [] := Nat.toDigits_ne_nil
  have hplain : ∀ rest, Nat.toDigits 10 n ≠ '+' :: rest := by
    intro rest heq
    rw [heq] at hall
    simp [Char.isDigit] at hall
  have hvalue : Nat.ofDigitChars 10 (Nat.toDigits 10 n) 0 = n := Nat.ofDigitChars_ten_toDigits
  rw [hdigits, parseNumber]
  · rw [hvalue, if_pos ⟨hne, hall, h⟩]
  · exact hplain

theorem carried_toString {n : Nat} (h : n < 2 ^ 64) : Carried (toString n) := by
  have hdigits : (toString n).toList = Nat.toDigits 10 n := Nat.toList_repr
  have hlength : (Nat.toDigits 10 n).length ≤ 20 :=
    (Nat.length_toDigits_le_iff (by omega) (by omega)).mpr (by omega)
  refine ⟨fun hnil => ?_, ?_⟩
  · rw [hnil] at hdigits
    exact Nat.toDigits_ne_nil hdigits.symm
  · rw [hdigits, utf8Len, ← Utf8.length_encode, Utf8.encode_ascii, List.length_map]
    · omega
    · intro c hc
      have hdigit := Nat.isDigit_of_mem_toDigits (by omega) (by omega) hc
      simp only [Char.isDigit, Bool.and_eq_true, decide_eq_true_eq] at hdigit
      have hle := hdigit.2
      rw [UInt32.le_iff_toNat_le] at hle
      exact Nat.lt_of_le_of_lt hle (by decide)

/-! ### The header of the client -/

section Header

variable {name : String} {inspection : FileInspection} {directory : Option DirectoryVersion}

/-- The values that the client declares. -/
def uploadMetadata (name : String) (inspection : FileInspection)
    (directory : Option DirectoryVersion) : Metadata :=
  let base : Metadata := Files.insertAll ∅ (·.1) (·.2)
    [("filename", name), ("media_type", inspection.mediaType), ("sha256", inspection.sha256)]
  match directory with
  | none => base
  | some directory => base.insertAll (·.1) (·.2)
      [("relative_path", directory.path), ("source_version", toString directory.version)]

theorem lookup_uploadMetadata (key : String) :
    (uploadMetadata name inspection directory).lookup key =
      if key = "filename" then some name
      else if key = "media_type" then some inspection.mediaType
      else if key = "sha256" then some inspection.sha256
      else if key = "relative_path" then directory.map (·.path)
      else if key = "source_version" then directory.map fun d => toString d.version
      else none := by
  unfold uploadMetadata
  cases directory with
  | none =>
    simp only [Files.insertAll, List.foldl_cons, List.foldl_nil, Files.lookup_insert,
      AList.lookup_empty, Option.map_none, ite_self]
    split_ifs <;> simp_all
  | some directory =>
    simp only [Files.insertAll, List.foldl_cons, List.foldl_nil, Files.lookup_insert,
      AList.lookup_empty, Option.map_some]
    split_ifs <;> simp_all

/-- The client writes the canonical text. -/
theorem canonical_uploadMetadata :
    canonicalMetadataHeader (uploadMetadata name inspection directory) =
      directoryMetadataHeader name inspection directory := by
  have hlookup := @lookup_uploadMetadata name inspection directory
  rw [canonicalMetadataHeader, metadataKeys]
  cases directory with
  | none => simp [hlookup, directoryMetadataHeader, metadataHeader]
  | some directory =>
    simp [hlookup, directoryMetadataHeader, metadataHeader, String.append_assoc]

/-- The canonical text depends on the values alone. -/
theorem canonicalMetadataHeader_congr {metadata metadata' : Metadata}
    (h : ∀ key, metadata.lookup key = metadata'.lookup key) :
    canonicalMetadataHeader metadata = canonicalMetadataHeader metadata' := by
  simp only [canonicalMetadataHeader, h]

theorem declaredUpload_congr {metadata metadata' : Metadata} {length : Nat}
    (h : ∀ key, metadata.lookup key = metadata'.lookup key) :
    declaredUpload length metadata = declaredUpload length metadata' := by
  simp only [declaredUpload, h, canonicalMetadataHeader_congr h]

theorem accepted_uploadMetadata (hname : validateUploadName name = .ok ())
    (hmediaType : (extensionForMediaType inspection.mediaType).isSome = true)
    (hsha256 : validateSha256 inspection.sha256 = .ok ())
    (hdirectory : ∀ d, directory = some d → d.validate = .ok ()) :
    (uploadMetadata name inspection directory).Accepted where
  entries := by
    intro key value hvalue
    rw [lookup_uploadMetadata] at hvalue
    split_ifs at hvalue with h₁ h₂ h₃ h₄ h₅
    · subst h₁
      exact ⟨by decide, Option.some.inj hvalue ▸ carried_of_validateUploadName hname⟩
    · subst h₂
      exact ⟨by decide, Option.some.inj hvalue ▸ carried_of_mediaType hmediaType⟩
    · subst h₃
      exact ⟨by decide, Option.some.inj hvalue ▸ carried_of_validateSha256 hsha256⟩
    · subst h₄
      obtain ⟨d, hd, rfl⟩ := Option.map_eq_some_iff.mp hvalue
      exact ⟨by decide, carried_of_validatePath (DirectoryVersion.validate_ok (hdirectory d hd)).1⟩
    · subst h₅
      obtain ⟨d, hd, rfl⟩ := Option.map_eq_some_iff.mp hvalue
      have hversion := (DirectoryVersion.validate_ok (hdirectory d hd)).2
      exact ⟨by decide, carried_toString (by simp only [i64Max] at hversion; omega)⟩
  required := by
    intro key hkey
    rw [lookup_uploadMetadata]
    simp only [List.mem_cons, List.not_mem_nil, or_false] at hkey
    rcases hkey with rfl | rfl | rfl <;> rfl

/-- The relay takes the declaration apart again. -/
theorem declaredUpload_uploadMetadata {length : Nat}
    (hdirectory : ∀ d, directory = some d → d.validate = .ok ()) :
    declaredUpload length (uploadMetadata name inspection directory) =
      .ok { directory, originalName := name, mediaType := inspection.mediaType
            sha256 := inspection.sha256, length
            metadataHeader := directoryMetadataHeader name inspection directory } := by
  have hlookup := @lookup_uploadMetadata name inspection directory
  rw [declaredUpload, canonical_uploadMetadata]
  cases directory with
  | none => simp [hlookup]
  | some d =>
    have hversion := (DirectoryVersion.validate_ok (hdirectory d rfl)).2
    have hnumber := @parseNumber_toString d.version (by simp only [i64Max] at hversion; omega)
    simp only [hlookup, String.reduceEq, if_false, if_true, Option.map_some, hnumber,
      Option.getD_some]
    rfl

/-- A canonical text is one that the relay stores. -/
theorem Metadata.Accepted.storable {metadata : Metadata} (h : metadata.Accepted) :
    (utf8 (canonicalMetadataHeader metadata)).length ≤ maxMetadataHeaderBytes ∧
      ((canonicalMetadataHeader metadata).toList ≠ [] &&
        utf8Len (canonicalMetadataHeader metadata).toList ≤ maxUploadRecordBytes &&
        !(canonicalMetadataHeader metadata).toList.any isControl) = true := by
  have hbytes : (utf8 (canonicalMetadataHeader metadata)).length ≤ maxMetadataHeaderBytes := by
    rw [utf8, Utf8.encode_ascii fun c hc => by have := h.visible hc; omega, List.length_map]
    exact h.length_le
  refine ⟨hbytes, ?_⟩
  obtain ⟨found, hparse, -⟩ := h.parse_canonical
  simp only [Bool.and_eq_true, decide_eq_true_eq, Bool.not_eq_true']
  refine ⟨⟨fun hnil => ?_, ?_⟩, ?_⟩
  · rw [utf8, hnil] at hparse
    contradiction
  · rw [← length_utf8]
    exact hbytes.trans (by decide)
  · rw [List.any_eq_false]
    intro c hc hcontrol
    have hvisible := h.visible hc
    simp only [isControl, Bool.or_eq_true, Bool.and_eq_true, decide_eq_true_eq] at hcontrol
    omega

end Header

/-- What the client reads in the answer to a request for an upload. -/
def UploadInfo.remote (info : UploadInfo) : RemoteUpload where
  offset := info.offset
  length := info.length
  metadata := info.metadataHeader
  deliveryId := info.deliveryId

/-- The values that the client and the relay accept: the relay reads them back from the header of
the client, keeps that header, and reports of the upload what the client expects. Every header that
the relay accepts has a canonical text with the same values. -/
theorem upload_metadata_round_trip (store : ServerStore) (name : String)
    (inspection : FileInspection) (directory : Option DirectoryVersion) (header : String)
    (hname : validateUploadName name = .ok ())
    (hupload : store.validateNewUpload
      { directory, originalName := name, mediaType := inspection.mediaType
        sha256 := inspection.sha256, length := inspection.size, metadataHeader := header } = .ok ()) :
    let sent := directoryMetadataHeader name inspection directory
    let upload : NewUpload :=
      { directory, originalName := name, mediaType := inspection.mediaType
        sha256 := inspection.sha256, length := inspection.size, metadataHeader := sent }
    (∃ metadata, parseUploadMetadata (utf8 sent) = .ok metadata ∧
      canonicalMetadataHeader metadata = sent ∧
      declaredUpload inspection.size metadata = .ok upload ∧
      ∀ key, metadata.lookup key = (uploadMetadata name inspection directory).lookup key) ∧
    store.validateNewUpload upload = .ok () ∧
    (utf8 sent).length ≤ maxMetadataHeaderBytes ∧ utf8Len sent.toList ≤ maxUploadRecordBytes ∧
    (∀ record : UploadRecord, record.upload = upload → record.offset ≤ record.length →
      (record.deliveryId.isSome → record.offset = record.length) →
      ∀ state : UploadState, state.size = inspection.size →
        validateRemoteUpload state sent record.info.remote = .ok ()) ∧
    ∀ raw metadata, parseUploadMetadata raw = .ok metadata →
      ∃ found, parseUploadMetadata (utf8 (canonicalMetadataHeader metadata)) = .ok found ∧
        canonicalMetadataHeader found = canonicalMetadataHeader metadata ∧
        ∀ key, found.lookup key = metadata.lookup key := by
  intro sent upload
  simp only [ServerStore.validateNewUpload, bind_eq_ok] at hupload
  obtain ⟨_, hdirectory, _, hmeta, -⟩ := hupload
  obtain ⟨-, -, hsha256, hmediaType⟩ := validateDeliveryMetadata_ok hmeta
  have hversion : ∀ d, directory = some d → d.validate = .ok () := by
    rintro d rfl
    simp only [bind_eq_ok] at hdirectory
    exact hdirectory.choose_spec.1
  have haccepted := accepted_uploadMetadata hname hmediaType hsha256 hversion
  have hcanonical : canonicalMetadataHeader (uploadMetadata name inspection directory) = sent :=
    canonical_uploadMetadata
  obtain ⟨found, hparse, hfound⟩ := haccepted.parse_canonical
  have hstorable := haccepted.storable
  rw [hcanonical] at hparse hstorable
  refine ⟨⟨found, hparse, ?_, ?_, hfound⟩, ?_, hstorable.1, ?_, fun record hrecord hoffset hdone
    state hsize => ?_, fun raw metadata hraw => ?_⟩
  · rw [canonicalMetadataHeader_congr hfound, hcanonical]
  · rw [declaredUpload_congr hfound]
    exact declaredUpload_uploadMetadata hversion
  · simp only [ServerStore.validateNewUpload, bind_eq_ok, ensure_eq_ok]
    exact ⟨(), hdirectory, (), hmeta, hstorable.2⟩
  · have hbounds := hstorable.2
    simp only [Bool.and_eq_true, decide_eq_true_eq] at hbounds
    exact hbounds.1.2
  · have hmetadata : record.metadataHeader = sent := congrArg NewUpload.metadataHeader hrecord
    have hlength : record.length = inspection.size := congrArg NewUpload.length hrecord
    simp only [validateRemoteUpload, bind_eq_ok, ensure_eq_ok, UploadInfo.remote,
      UploadRecord.info, beq_iff_eq, Bool.or_eq_true, Option.isNone_iff_eq_none]
    refine ⟨(), hlength.trans hsize.symm, (), decide_eq_true hoffset, (), hmetadata, ?_⟩
    cases hid : record.deliveryId with
    | none => exact .inl rfl
    | some id => exact .inr (hdone (by rw [hid]; rfl))
  · obtain ⟨again, hagain, hsame⟩ := (parseUploadMetadata_ok hraw).parse_canonical
    exact ⟨again, hagain, canonicalMetadataHeader_congr hsame, hsame⟩

/-- A name with an accent in a directory. -/
theorem upload_metadata_round_trip_accent :
    ∃ metadata, parseUploadMetadata (utf8 (directoryMetadataHeader "é.txt"
        ⟨3, "ba7816bf8f01cfea414140de5dae2223b00361a396177a9cb410ff61f20015ad", "text/plain", "txt"⟩
        (some ⟨"a/é.txt", 7⟩))) = .ok metadata ∧
      (metadata.lookup "filename" = some "é.txt" ∧ metadata.lookup "source_version" = some "7") := by
  have hname : validateUploadName "é.txt" = .ok () := by decide
  have hupload : ServerStore.validateNewUpload ⟨10, by decide, by decide⟩
      { directory := some ⟨"a/é.txt", 7⟩, originalName := "é.txt", mediaType := "text/plain"
        sha256 := "ba7816bf8f01cfea414140de5dae2223b00361a396177a9cb410ff61f20015ad", length := 3
        metadataHeader := "x" } = .ok () := by decide
  obtain ⟨⟨metadata, hparse, -, -, hlookup⟩, -⟩ := upload_metadata_round_trip ⟨10, by decide, by decide⟩ "é.txt"
    ⟨3, "ba7816bf8f01cfea414140de5dae2223b00361a396177a9cb410ff61f20015ad", "text/plain", "txt"⟩
    (some ⟨"a/é.txt", 7⟩) "x" hname hupload
  exact ⟨metadata, hparse, by rw [hlookup, lookup_uploadMetadata]; rfl,
    by rw [hlookup, lookup_uploadMetadata]; rfl⟩

end MiRelay
