import MiRelay.Storage.Library

/-!
# Names of objects

Where an object lies is computed in five places, from the detected extension or from
the declared type, and recognized in a sixth by its name. The table of types is
injective, so the name determines digest and type.
-/

namespace MiRelay

/-- The table of `extension_for_media_type`. -/
def contentTypes : List (String × String) :=
  [("image/png", "png"), ("image/jpeg", "jpg"), ("image/gif", "gif"), ("image/webp", "webp"),
    ("image/avif", "avif"), ("text/plain", "txt"), ("application/pdf", "pdf"),
    ("application/zip", "zip"), ("application/gzip", "gz"), ("application/x-7z-compressed", "7z"),
    ("application/vnd.rar", "rar"), ("application/octet-stream", "bin"), ("audio/mpeg", "mp3"),
    ("audio/wav", "wav"), ("audio/flac", "flac"), ("application/ogg", "ogg"), ("video/mp4", "mp4"),
    ("video/webm", "webm")]

theorem extensionForMediaType_eq_some {mediaType extension : String} :
    extensionForMediaType mediaType = some extension ↔ (mediaType, extension) ∈ contentTypes := by
  have htable (types : List (String × String)) (hnodup : (types.map (·.1)).Nodup) :
      types.foldr (fun t found => if mediaType = t.1 then some t.2 else found) none =
        some extension ↔ (mediaType, extension) ∈ types := by
    induction types with
    | nil => simp
    | cons t types ih =>
      rw [List.map_cons, List.nodup_cons] at hnodup
      rw [List.foldr_cons, List.mem_cons]
      by_cases h : mediaType = t.1
      · rw [if_pos h, Option.some.injEq]
        constructor
        · intro hext
          exact Or.inl (Prod.ext h hext.symm)
        · rintro (heq | hmem)
          · rw [← heq]
          · exact absurd (List.mem_map_of_mem hmem) (h ▸ hnodup.1)
      · rw [if_neg h, ih hnodup.2]
        exact ⟨Or.inr, fun hor => hor.resolve_left fun heq => h (heq ▸ rfl)⟩
  exact htable contentTypes (by decide)

/-- No two types have the same extension. -/
theorem mediaType_unique {mediaType mediaType' extension : String}
    (h : extensionForMediaType mediaType = some extension)
    (h' : extensionForMediaType mediaType' = some extension) : mediaType = mediaType' := by
  have hpairs : contentTypes.all (fun t => contentTypes.all fun t' =>
      t.2 ≠ t'.2 || t.1 = t'.1) = true := by decide
  rw [extensionForMediaType_eq_some] at h h'
  have heq := List.all_eq_true.mp (List.all_eq_true.mp hpairs _ h) _ h'
  simpa using heq

/-- `is_supported_content_extension`. -/
def isSupportedContentExtension (extension : String) : Bool :=
  ["png", "jpg", "gif", "webp", "avif", "txt", "pdf", "zip", "gz", "7z", "rar", "bin", "mp3",
    "wav", "flac", "ogg", "mp4", "webm"].contains extension

/-- The supported extensions are those of the table. -/
theorem isSupportedContentExtension_iff {extension : String} :
    isSupportedContentExtension extension = true ↔
      ∃ mediaType, extensionForMediaType mediaType = some extension := by
  have hlist : ["png", "jpg", "gif", "webp", "avif", "txt", "pdf", "zip", "gz", "7z", "rar", "bin",
      "mp3", "wav", "flac", "ogg", "mp4", "webm"] = contentTypes.map (·.2) := rfl
  simp only [isSupportedContentExtension, hlist, List.contains_iff_mem, List.mem_map,
    extensionForMediaType_eq_some]
  constructor
  · rintro ⟨t, ht, rfl⟩
    exact ⟨t.1, ht⟩
  · rintro ⟨mediaType, ht⟩
    exact ⟨_, ht, rfl⟩

/-- No extension has a dot. -/
theorem notMem_of_extensionForMediaType {mediaType extension : String}
    (h : extensionForMediaType mediaType = some extension) : '.' ∉ extension.toList := by
  have hall : contentTypes.all (fun t => !t.2.toList.contains '.') = true := by decide
  have hext := List.all_eq_true.mp hall _ (extensionForMediaType_eq_some.mp h)
  simpa using hext

/-- `str::rsplit_once` at a character: what stands before and after its last occurrence. -/
def rsplitOnce (sep : Char) (s : String) : Option (String × String) :=
  match s.toList.reverse.dropWhile (· != sep) with
  | [] => none
  | _ :: front => some (String.ofList front.reverse,
      String.ofList (s.toList.reverse.takeWhile (· != sep)).reverse)

theorem rsplitOnce_eq_some {sep : Char} {s front back : String} :
    rsplitOnce sep s = some (front, back) ↔
      s.toList = front.toList ++ sep :: back.toList ∧ sep ∉ back.toList := by
  constructor
  · intro h
    rw [rsplitOnce] at h
    split at h
    · contradiction
    · rename_i c rest hdrop
      rw [Option.some.injEq, Prod.mk.injEq] at h
      obtain ⟨rfl, rfl⟩ := h
      have hc : c = sep := by
        have hne : s.toList.reverse.dropWhile (· != sep) ≠ [] := hdrop ▸ List.cons_ne_nil c rest
        simpa [hdrop] using List.head_dropWhile_not (· != sep) hne
      have hsplit := List.takeWhile_append_dropWhile (p := (· != sep)) (l := s.toList.reverse)
      rw [hdrop, hc] at hsplit
      rw [String.toList_ofList, String.toList_ofList]
      constructor
      · have hreverse := congrArg List.reverse hsplit
        rw [List.reverse_reverse, List.reverse_append, List.reverse_cons, List.append_assoc,
          List.singleton_append] at hreverse
        exact hreverse.symm
      · rw [List.mem_reverse]
        intro hmem
        simpa using List.all_eq_true.mp List.all_takeWhile sep hmem
  · rintro ⟨hs, hback⟩
    have hreverse : s.toList.reverse = back.toList.reverse ++ sep :: front.toList.reverse := by
      rw [hs, List.reverse_append, List.reverse_cons, List.append_assoc, List.singleton_append]
    have hne : ∀ c ∈ back.toList.reverse, (c != sep) = true := fun c hc => by
      rw [bne_iff_ne]
      exact fun heq => hback (heq ▸ List.mem_reverse.mp hc)
    rw [rsplitOnce, hreverse, List.dropWhile_append_of_pos hne, List.takeWhile_append_of_pos hne]
    simp

namespace Storage

/-- `is_content_shard_name`. -/
def isContentShardName (name : String) : Bool :=
  utf8Len name.toList == 2 && name.toList.all isHexLower

/-- `is_owned_content_object_name`. A name that is not UTF-8 reads with a replacement character, so
it is never owned. -/
def isOwnedContentObjectName (shard name : String) : Bool :=
  match rsplitOnce '.' name with
  | none => false
  | some (sha256, extension) =>
    (validateSha256 sha256).isOk && shard.toList.isPrefixOf sha256.toList &&
      isSupportedContentExtension extension

/-! ### Names and digests -/

section Names

variable {digest mediaType extension : String}

/-- A valid digest is 64 lowercase hexadecimal digits. -/
theorem isHexLower_of_validateSha256 (h : validateSha256 digest = .ok ()) :
    ∀ c ∈ digest.toList, isHexLower c = true := by
  rw [validateSha256, ensure_eq_ok, Bool.and_eq_true, List.all_eq_true] at h
  exact h.2

/-- A text of lowercase hexadecimal digits has as many bytes as characters. -/
theorem utf8Len_of_isHexLower {cs : List Char} (h : ∀ c ∈ cs, isHexLower c = true) :
    utf8Len cs = cs.length := by
  rw [utf8Len, List.map_congr_left fun c hc => utf8Size_of_isHexLower (h c hc)]
  simp

theorem toList_shardOf : (shardOf digest).toList = digest.toList.take 2 := String.toList_ofList

theorem toList_objectName :
    (objectName digest extension).toList = digest.toList ++ '.' :: extension.toList := by
  simp [objectName]

theorem length_shardOf (h : validateSha256 digest = .ok ()) : (shardOf digest).toList.length = 2 := by
  rw [toList_shardOf, List.length_take, length_of_validateSha256 h]
  rfl

/-- The last dot of an object's name stands between its digest and its extension. -/
theorem rsplitOnce_objectName (hext : extensionForMediaType mediaType = some extension) :
    rsplitOnce '.' (objectName digest extension) = some (digest, extension) :=
  rsplitOnce_eq_some.mpr ⟨toList_objectName, notMem_of_extensionForMediaType hext⟩

/-- The shard of a valid digest has the name of a shard. -/
theorem isContentShardName_shardOf (h : validateSha256 digest = .ok ()) :
    isContentShardName (shardOf digest) = true := by
  have hhex : ∀ c ∈ (shardOf digest).toList, isHexLower c = true := fun c hc => by
    rw [toList_shardOf] at hc
    exact isHexLower_of_validateSha256 h c (List.mem_of_mem_take hc)
  rw [isContentShardName, utf8Len_of_isHexLower hhex, length_shardOf h, Bool.and_eq_true,
    List.all_eq_true]
  exact ⟨rfl, hhex⟩

/-- The name of an object is owned in the shard of its digest. -/
theorem isOwnedContentObjectName_objectName (h : validateSha256 digest = .ok ())
    (hext : extensionForMediaType mediaType = some extension) :
    isOwnedContentObjectName (shardOf digest) (objectName digest extension) = true := by
  have hprefix : (shardOf digest).toList.isPrefixOf digest.toList = true := by
    rw [List.isPrefixOf_iff_prefix, toList_shardOf]
    exact List.take_prefix _ _
  rw [isOwnedContentObjectName, rsplitOnce_objectName hext]
  simp only [h, Except.isOk, Except.toBool, hprefix, Bool.true_and]
  exact isSupportedContentExtension_iff.mpr ⟨mediaType, hext⟩

/-- A name that is owned in a shard is that of a digest of the shard and a supported type. -/
theorem exists_of_isOwnedContentObjectName {shard name : String}
    (hshard : isContentShardName shard = true)
    (howned : isOwnedContentObjectName shard name = true) :
    ∃ digest mediaType extension, validateSha256 digest = .ok () ∧
      extensionForMediaType mediaType = some extension ∧ shard = shardOf digest ∧
        name = objectName digest extension := by
  rw [isOwnedContentObjectName] at howned
  split at howned
  · contradiction
  · rename_i digest extension hsplit
    rw [Bool.and_eq_true, Bool.and_eq_true] at howned
    obtain ⟨⟨hdigest, hprefix⟩, hsupported⟩ := howned
    obtain ⟨mediaType, hext⟩ := isSupportedContentExtension_iff.mp hsupported
    have hvalid : validateSha256 digest = .ok () := by
      cases hv : validateSha256 digest with
      | ok u => rfl
      | error e => simp [hv, Except.isOk, Except.toBool] at hdigest
    rw [isContentShardName, Bool.and_eq_true, List.all_eq_true, beq_iff_eq] at hshard
    rw [utf8Len_of_isHexLower hshard.2] at hshard
    refine ⟨digest, mediaType, extension, hvalid, hext, ?_, ?_⟩
    · rw [← String.toList_inj, toList_shardOf, ← hshard.1]
      exact (List.prefix_iff_eq_take.mp (List.isPrefixOf_iff_prefix.mp hprefix))
    · rw [← String.toList_inj, toList_objectName]
      exact (rsplitOnce_eq_some.mp hsplit).1

/-- A relative component is appended, after a separator where none is. -/
theorem toList_joinPath {base component : String} (h : component.toList.head? ≠ some '/') :
    (joinPath base component).toList = base.toList ++
      ((if base.toList = [] ∨ base.toList.getLast? = some '/' then [] else ['/']) ++
        component.toList) := by
  rw [joinPath, if_neg h]
  split <;> simp

/-- A hexadecimal digit is not a separator. -/
theorem ne_slash_of_isHexLower {c : Char} (h : isHexLower c = true) : c ≠ '/' := by
  rintro rfl
  have hslash : isHexLower '/' = false := rfl
  rw [hslash] at h
  contradiction

/-- A text that starts with a hexadecimal digit is a relative component. -/
theorem head?_ne_slash {cs : List Char} (h : ∀ c ∈ cs, isHexLower c = true) (rest : List Char)
    (hne : cs ≠ []) : (cs ++ rest).head? ≠ some '/' := by
  cases cs with
  | nil => exact absurd rfl hne
  | cons c cs =>
    rw [List.cons_append, List.head?_cons, ne_eq, Option.some.injEq]
    exact ne_slash_of_isHexLower (h c List.mem_cons_self)

/-- Where an object lies. -/
theorem toList_objectPath {libraryDir : String} (h : validateSha256 digest = .ok ()) :
    (objectPath libraryDir (shardOf digest) (objectName digest extension)).toList =
      libraryDir.toList ++
        ((if libraryDir.toList = [] ∨ libraryDir.toList.getLast? = some '/' then [] else ['/']) ++
          ((shardOf digest).toList ++ '/' :: (objectName digest extension).toList)) := by
  have hhex := isHexLower_of_validateSha256 h
  have hshardHex : ∀ c ∈ (shardOf digest).toList, isHexLower c = true := fun c hc =>
    hhex c (List.mem_of_mem_take (toList_shardOf ▸ hc))
  have hdigest : digest.toList ≠ [] := fun hnil => by
    have hlength := length_of_validateSha256 h
    rw [hnil] at hlength
    contradiction
  have hshardNe : (shardOf digest).toList ≠ [] := fun hnil => by
    have hlength := length_shardOf h
    rw [hnil] at hlength
    contradiction
  have hname : (objectName digest extension).toList.head? ≠ some '/' := by
    rw [toList_objectName]
    exact head?_ne_slash hhex _ hdigest
  have hshard : (shardOf digest).toList.head? ≠ some '/' := by
    rw [← List.append_nil (shardOf digest).toList]
    exact head?_ne_slash hshardHex [] hshardNe
  -- The path of the shard ends in a digit, so a separator comes before the name.
  have hlast : ¬((joinPath libraryDir (shardOf digest)).toList = [] ∨
      (joinPath libraryDir (shardOf digest)).toList.getLast? = some '/') := by
    rw [toList_joinPath hshard, List.append_eq_nil_iff, List.append_eq_nil_iff,
      ← List.append_assoc, List.getLast?_append_of_ne_nil _ hshardNe]
    rintro (hnil | hslash)
    · exact hshardNe hnil.2.2
    · exact ne_slash_of_isHexLower (hshardHex _ (List.mem_of_getLast? hslash)) rfl
  rw [objectPath, toList_joinPath hname, if_neg hlast, toList_joinPath hshard]
  simp only [List.append_assoc, List.singleton_append]

theorem contentPath_eq_ok {libraryDir path : String} :
    contentPath libraryDir digest mediaType = .ok path ↔ validateSha256 digest = .ok () ∧
      ∃ extension, extensionForMediaType mediaType = some extension ∧
        path = objectPath libraryDir (shardOf digest) (objectName digest extension) := by
  simp only [contentPath, bind_eq_ok]
  cases hext : extensionForMediaType mediaType with
  | none => simp
  | some extension =>
    simp only [Except.ok.injEq, Option.some.injEq, exists_eq_left']
    exact ⟨fun ⟨_, hdigest, hpath⟩ => ⟨hdigest, hpath.symm⟩,
      fun ⟨hdigest, hpath⟩ => ⟨(), hdigest, hpath.symm⟩⟩

/-- Different digests or types have different paths. -/
theorem contentPath_injective {libraryDir digest' mediaType' path : String}
    (h : contentPath libraryDir digest mediaType = .ok path)
    (h' : contentPath libraryDir digest' mediaType' = .ok path) :
    digest = digest' ∧ mediaType = mediaType' := by
  obtain ⟨hdigest, extension, hext, rfl⟩ := contentPath_eq_ok.mp h
  obtain ⟨hdigest', extension', hext', hpath⟩ := contentPath_eq_ok.mp h'
  rw [← String.toList_inj, toList_objectPath hdigest, toList_objectPath hdigest',
    List.append_cancel_left_eq, List.append_cancel_left_eq] at hpath
  have hname := (List.append_inj hpath
    ((length_shardOf hdigest).trans (length_shardOf hdigest').symm)).2
  rw [List.cons.injEq, toList_objectName, toList_objectName] at hname
  obtain ⟨hdigests, hexts⟩ := List.append_inj hname.2
    ((length_of_validateSha256 hdigest).trans (length_of_validateSha256 hdigest').symm)
  rw [List.cons.injEq, String.toList_inj] at hexts
  exact ⟨String.toList_inj.mp hdigests, mediaType_unique hext (hexts.2 ▸ hext')⟩

end Names

end Storage

end MiRelay
