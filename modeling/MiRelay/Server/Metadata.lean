import MiRelay.Core.Base64
import MiRelay.Core.Utf8
import MiRelay.Server.Uploads

/-!
# Upload metadata

The header that declares an upload: a key and a base64 value for each entry.
The relay reads it in any order and spelling and keeps one canonical text.
Every accepted header has such a text, which is read back to the same values.
-/

namespace MiRelay

/-- The UTF-8 bytes of a text. -/
def utf8 (s : String) : Bytes := Utf8.encode s.toList

/-- `MAX_METADATA_HEADER_BYTES`. -/
def maxMetadataHeaderBytes : Nat := 8 * 1024

/-- The values of a header by key. -/
abbrev Metadata : Type := Files String String

/-- The keys in their canonical order. -/
def metadataKeys : List String :=
  ["filename", "media_type", "sha256", "relative_path", "source_version"]

/-- `HeaderValue::to_str`: visible ASCII characters, spaces and tabs. -/
def headerToStr (raw : Bytes) : Option (List Char) :=
  if raw.all fun b => (32 ≤ b && b < 127) || b = 9 then some (raw.map fun b => Char.ofNat b.toNat)
  else none

/-- The text of a base64 value, padded or not. -/
def decodeValue (encoded : List Char) : Result String :=
  match Base64.Standard.decode encoded <|> Base64.Standard.decodeNoPad encoded with
  | none => .error (.message "Upload-Metadata contains invalid base64")
  | some decoded => do
    ensure (decoded.length ≤ 1024) "Upload-Metadata value exceeds its safety limit"
    match Utf8.decode decoded with
    | .text value => return String.ofList value
    | _ => .error (.message "Upload-Metadata values must be UTF-8")

/-- One entry of the header. -/
def readEntry (metadata : Metadata) (pair : List Char) : Result Metadata :=
  let pair := (trim (String.ofList pair)).toList
  if ' ' ∈ pair then do
    let key := String.ofList (pair.takeWhile (· ≠ ' '))
    let encoded := (pair.dropWhile (· ≠ ' ')).tail
    ensure (metadataKeys.contains key && !encoded.isEmpty && !encoded.any isWhitespace)
      "Upload-Metadata contains an unsupported key or malformed value"
    let value ← decodeValue encoded
    ensure (metadata.lookup key).isNone "Upload-Metadata keys must be unique"
    return metadata.insert key value
  else .error (.message "each Upload-Metadata entry must contain a key and base64 value")

/-- `parse_upload_metadata` of the one header there must be. -/
def parseUploadMetadata (raw : Bytes) : Result Metadata := do
  ensure (!raw.isEmpty && raw.length ≤ maxMetadataHeaderBytes)
    "Upload-Metadata is empty or too large"
  match headerToStr raw with
  | none => .error (.message "Upload-Metadata is not valid ASCII")
  | some text => do
    let metadata ← (text.splitOn ',').foldlM readEntry ∅
    ensure (["filename", "media_type", "sha256"].all fun key => (metadata.lookup key).isSome)
      "Upload-Metadata requires filename, media_type, and sha256"
    return metadata

/-- A key with the base64 text of its value. -/
def entryText (key value : String) : List Char :=
  key.toList ++ ' ' :: Base64.Standard.encode (utf8 value)

/-- `canonical_metadata_header`. -/
def canonicalMetadataHeader (metadata : Metadata) : String :=
  String.ofList ([','].intercalate
    (metadataKeys.filterMap fun key => (metadata.lookup key).map (entryText key)))

/-- `str::parse::<u64>`. -/
def parseNumber (text : List Char) : Option Nat :=
  let digits := match text with
    | '+' :: rest => rest
    | _ => text
  let value := Nat.ofDigitChars 10 digits 0
  if digits ≠ [] ∧ digits.all Char.isDigit ∧ value < 2 ^ 64 then some value else none

/-- The upload that a request declares, as `create_upload` of the interface reads it. -/
def declaredUpload (length : Nat) (metadata : Metadata) : Result NewUpload := do
  let directory ← (match metadata.lookup "relative_path", metadata.lookup "source_version" with
    | none, none => .ok none
    | some path, some version =>
      match parseNumber version.toList with
      | some version => .ok (some { path, version })
      | none => .error (.message "Invalid directory version.")
    | _, _ => .error (.message "Directory path and version must be supplied together."))
  return { directory
           originalName := (metadata.lookup "filename").getD ""
           mediaType := (metadata.lookup "media_type").getD ""
           sha256 := (metadata.lookup "sha256").getD ""
           length
           metadataHeader := canonicalMetadataHeader metadata }

/-! ### Plain texts -/

/-- A character that is neither a separator of the header nor blank, and visible. -/
def isEntryChar (c : Char) : Bool :=
  33 ≤ c.toNat && c.toNat < 127 && c != ','

theorem isEntryChar_of_mem_encode {l : List UInt8} {c : Char} (h : c ∈ Base64.Standard.encode l) :
    isEntryChar c = true := by
  have hall : ('=' :: Base64.alphabet.map Base64.Standard.ofUrlSafe).all isEntryChar = true := by
    decide
  exact List.all_eq_true.mp hall c (Base64.Standard.mem_encode h)

theorem isEntryChar_of_mem_key {key : String} (hkey : key ∈ metadataKeys) {c : Char}
    (hc : c ∈ key.toList) : isEntryChar c = true := by
  have hall : ∀ key ∈ metadataKeys, key.toList.all isEntryChar = true := by decide
  exact List.all_eq_true.mp (hall key hkey) c hc

theorem key_ne_nil {key : String} (hkey : key ∈ metadataKeys) : key.toList ≠ [] := by
  have hall : ∀ key ∈ metadataKeys, key.toList ≠ [] := by decide
  exact hall key hkey

theorem isWhitespace_of_isEntryChar {c : Char} (h : isEntryChar c = true) :
    isWhitespace c = false := by
  simp only [isEntryChar, Bool.and_eq_true, decide_eq_true_eq] at h
  simp only [isWhitespace, Bool.or_eq_false_iff, Bool.and_eq_false_iff, decide_eq_false_iff_not,
    List.contains_eq_mem, List.mem_cons, List.not_mem_nil, or_false]
  omega

theorem ne_space_of_isEntryChar {c : Char} (h : isEntryChar c = true) : c ≠ ' ' := by
  rintro rfl
  contradiction

/-- Visible text is what its bytes are read as. -/
theorem headerToStr_utf8 {text : List Char} (h : ∀ c ∈ text, 32 ≤ c.toNat ∧ c.toNat < 127) :
    headerToStr (Utf8.encode text) = some text := by
  have hencode := Utf8.encode_ascii (show ∀ c ∈ text, c.toNat < 0x80 from fun c hc => by
    have := h c hc
    omega)
  have hbyte : ∀ c ∈ text, (UInt8.ofNat c.toNat).toNat = c.toNat := fun c hc =>
    Utf8.toNat_ofNat_of_lt (by have := h c hc; omega)
  rw [headerToStr, hencode, if_pos, List.map_map]
  · refine congrArg some ((List.map_congr_left fun c hc => ?_).trans (List.map_id _))
    rw [Function.comp_apply, hbyte c hc]
    exact Char.ofNat_toNat c
  · rw [List.all_eq_true]
    intro b hb
    obtain ⟨c, hc, rfl⟩ := List.mem_map.mp hb
    have := h c hc
    simp only [Bool.or_eq_true, Bool.and_eq_true, decide_eq_true_eq, UInt8.le_iff_toNat_le,
      UInt8.lt_iff_toNat_lt, hbyte c hc, UInt8.reduceToNat]
    exact .inl this

/-- Nothing is trimmed off a text with no blank at either end. -/
theorem trim_of_ends {text : List Char} (hfirst : ∀ c ∈ text.head?, isWhitespace c = false)
    (hlast : ∀ c ∈ text.getLast?, isWhitespace c = false) :
    (trim (String.ofList text)).toList = text := by
  have hkeep (cs : List Char) (hcs : ∀ c ∈ cs.head?, isWhitespace c = false) :
      cs.dropWhile isWhitespace = cs := by
    cases cs with
    | nil => rfl
    | cons c cs => rw [List.dropWhile_cons_of_neg (by rw [hcs c rfl]; exact Bool.false_ne_true)]
  rw [trim, String.toList_ofList, String.toList_ofList, hkeep text hfirst, hkeep text.reverse,
    List.reverse_reverse]
  intro c hc
  rw [List.head?_reverse] at hc
  exact hlast c hc

/-! ### Entries -/

section Entries

variable {key value : String} {metadata : Metadata}

/-- A value that the header can carry. -/
def Carried (value : String) : Prop := value ≠ "" ∧ utf8Len value.toList ≤ 1024

theorem length_utf8 (s : String) : (utf8 s).length = utf8Len s.toList := Utf8.length_encode _

theorem utf8_ne_nil (h : value ≠ "") : utf8 value ≠ [] := by
  intro hnil
  have hdecode : Utf8.decode (utf8 value) = .text value.toList := Utf8.decode_eq_text_iff.mpr rfl
  rw [hnil] at hdecode
  have hempty : Utf8.decode [] = .text [] := rfl
  rw [hempty, Utf8.Decoded.text.injEq] at hdecode
  exact h (String.toList_inj.mp hdecode.symm)

/-- The characters of an entry are plain but for the one blank. -/
theorem mem_entryText (hkey : key ∈ metadataKeys) {c : Char} (hc : c ∈ entryText key value) :
    isEntryChar c = true ∨ c = ' ' := by
  rw [entryText, List.mem_append, List.mem_cons] at hc
  rcases hc with hc | rfl | hc
  · exact .inl (isEntryChar_of_mem_key hkey hc)
  · exact .inr rfl
  · exact .inl (isEntryChar_of_mem_encode hc)

theorem trim_entryText (hkey : key ∈ metadataKeys) (hvalue : value ≠ "") :
    (trim (String.ofList (entryText key value))).toList = entryText key value := by
  have hencode := Base64.Standard.encode_ne_nil (utf8_ne_nil hvalue)
  refine trim_of_ends (fun c hc => ?_) fun c hc => ?_
  · obtain ⟨k, ks, hks⟩ := List.exists_cons_of_ne_nil (key_ne_nil hkey)
    rw [entryText, hks, List.cons_append, List.head?_cons, Option.mem_some_iff] at hc
    subst hc
    exact isWhitespace_of_isEntryChar (isEntryChar_of_mem_key hkey (hks ▸ List.mem_cons_self))
  · rw [entryText, List.getLast?_append_of_ne_nil _ (List.cons_ne_nil _ _),
      ← List.singleton_append, List.getLast?_append_of_ne_nil _ hencode] at hc
    exact isWhitespace_of_isEntryChar (isEntryChar_of_mem_encode (List.mem_of_getLast? hc))

theorem decodeValue_encode (hvalue : Carried value) :
    decodeValue (Base64.Standard.encode (utf8 value)) = .ok value := by
  have hfound : (Base64.Standard.decode (Base64.Standard.encode (utf8 value)) <|>
      Base64.Standard.decodeNoPad (Base64.Standard.encode (utf8 value))) = some (utf8 value) := by
    rw [Base64.Standard.decode_encode]
    rfl
  have hdecode : Utf8.decode (utf8 value) = .text value.toList := Utf8.decode_eq_text_iff.mpr rfl
  rw [decodeValue, hfound]
  simp only [hdecode, length_utf8, hvalue.2, String.ofList_toList]
  rfl

theorem decodeValue_ok {encoded : List Char} (h : decodeValue encoded = .ok value)
    (hne : encoded ≠ []) : Carried value := by
  rw [decodeValue] at h
  split at h
  · contradiction
  · rename_i decoded hdecoded
    have hbytes : decoded ≠ [] := by
      cases hpadded : Base64.Standard.decode encoded with
      | some bytes =>
        rw [hpadded] at hdecoded
        exact Option.some.inj hdecoded ▸ Base64.Standard.decode_ne_nil hpadded hne
      | none =>
        rw [hpadded] at hdecoded
        exact Base64.decode_ne_nil hdecoded (by simpa using hne)
    simp only [bind_eq_ok, ensure_eq_ok, decide_eq_true_eq] at h
    obtain ⟨_, hlength, h⟩ := h
    split at h
    · rename_i text htext
      rw [pure_eq_ok] at h
      subst h
      have heq := Utf8.decode_eq_text_iff.mp htext
      refine ⟨fun hnil => hbytes ?_, ?_⟩
      · have htoList := congrArg String.toList hnil
        rw [String.toList_ofList] at htoList
        rw [heq, htoList]
        rfl
      · rw [String.toList_ofList, utf8Len, ← Utf8.length_encode, ← heq]
        exact hlength
    · contradiction

/-- An entry is read back. -/
theorem readEntry_entryText (hkey : key ∈ metadataKeys) (hvalue : Carried value)
    (hnew : metadata.lookup key = none) :
    readEntry metadata (entryText key value) = .ok (metadata.insert key value) := by
  have hspace : ∀ c ∈ key.toList, decide (c ≠ ' ') = true := fun c hc =>
    decide_eq_true (ne_space_of_isEntryChar (isEntryChar_of_mem_key hkey hc))
  have htake : (entryText key value).takeWhile (· ≠ ' ') = key.toList := by
    rw [entryText, List.takeWhile_append_of_pos hspace, List.takeWhile_cons_of_neg (by simp),
      List.append_nil]
  have hdrop : ((entryText key value).dropWhile (· ≠ ' ')).tail =
      Base64.Standard.encode (utf8 value) := by
    rw [entryText, List.dropWhile_append_of_pos hspace, List.dropWhile_cons_of_neg (by simp),
      List.tail_cons]
  have hplain : (metadataKeys.contains key && !(Base64.Standard.encode (utf8 value)).isEmpty &&
      !(Base64.Standard.encode (utf8 value)).any isWhitespace) = true := by
    simp only [Bool.and_eq_true, List.contains_iff_mem, Bool.not_eq_true', List.any_eq_false,
      List.isEmpty_eq_false_iff]
    refine ⟨⟨hkey, Base64.Standard.encode_ne_nil (utf8_ne_nil hvalue.1)⟩, fun c hc => ?_⟩
    rw [isWhitespace_of_isEntryChar (isEntryChar_of_mem_encode hc)]
    exact Bool.false_ne_true
  have hmem : ' ' ∈ entryText key value := by
    rw [entryText]
    exact List.mem_append_right _ List.mem_cons_self
  rw [readEntry, trim_entryText hkey hvalue.1]
  dsimp only
  rw [if_pos hmem, htake, hdrop, String.ofList_toList]
  simp only [hplain, decodeValue_encode hvalue, hnew]
  rfl

/-- Whatever the spelling, an entry that is read has a known key and a value that can be carried. -/
theorem readEntry_ok {pair : List Char} {next : Metadata} (h : readEntry metadata pair = .ok next) :
    ∃ key value, key ∈ metadataKeys ∧ Carried value ∧ next = metadata.insert key value := by
  rw [readEntry] at h
  generalize (trim (String.ofList pair)).toList = pair at h
  dsimp only at h
  split at h
  · simp only [bind_eq_ok, ensure_eq_ok, pure_eq_ok, Bool.and_eq_true, Bool.not_eq_true',
      List.contains_iff_mem] at h
    obtain ⟨_, ⟨⟨hkey, hencoded⟩, -⟩, value, hvalue, _, -, rfl⟩ := h
    exact ⟨_, value, hkey, decodeValue_ok hvalue (List.isEmpty_eq_false_iff.mp hencoded), rfl⟩
  · contradiction

end Entries

/-! ### Headers -/

/-- What a header that is read declares. -/
structure Metadata.Accepted (metadata : Metadata) : Prop where
  entries : ∀ key value, metadata.lookup key = some value → key ∈ metadataKeys ∧ Carried value
  required : ∀ key ∈ ["filename", "media_type", "sha256"], (metadata.lookup key).isSome = true

/-- A header that is read declares what is required and nothing unknown. -/
theorem parseUploadMetadata_ok {raw : Bytes} {metadata : Metadata}
    (h : parseUploadMetadata raw = .ok metadata) : metadata.Accepted := by
  simp only [parseUploadMetadata, bind_eq_ok] at h
  obtain ⟨_, -, h⟩ := h
  split at h
  · contradiction
  · rename_i text _
    simp only [bind_eq_ok, ensure_eq_ok, List.all_eq_true, pure_eq_ok] at h
    obtain ⟨found, hfold, _, hrequired, rfl⟩ := h
    refine ⟨?_, hrequired⟩
    have hstart : ∀ key value, (∅ : Metadata).lookup key = some value →
        key ∈ metadataKeys ∧ Carried value := by simp
    clear hrequired
    generalize (∅ : Metadata) = start at hfold hstart
    generalize text.splitOn ',' = pairs at hfold
    induction pairs generalizing start with
    | nil =>
      rw [List.foldlM_nil, pure_eq_ok] at hfold
      exact hfold ▸ hstart
    | cons pair pairs ih =>
      rw [List.foldlM_cons, bind_eq_ok] at hfold
      obtain ⟨next, hnext, hrest⟩ := hfold
      refine ih next (fun key value hlookup => ?_) hrest
      obtain ⟨k, v, hk, hv, rfl⟩ := readEntry_ok hnext
      rw [Files.lookup_insert] at hlookup
      split at hlookup
      · rename_i heq
        exact ⟨heq ▸ hk, Option.some.inj hlookup ▸ hv⟩
      · exact hstart key value hlookup

/-- Entries of different keys are read one after the other. -/
theorem foldlM_readEntry {metadata : Metadata} (hmetadata : metadata.Accepted) {keys : List String}
    (hkeys : keys ⊆ metadataKeys) (hnodup : keys.Nodup) {start : Metadata}
    (hstart : ∀ key ∈ keys, start.lookup key = none) :
    ∃ found, (keys.filterMap fun key => (metadata.lookup key).map (entryText key)).foldlM
        readEntry start = .ok found ∧
      ∀ key, found.lookup key = if key ∈ keys then metadata.lookup key else start.lookup key := by
  induction keys generalizing start with
  | nil => exact ⟨start, rfl, fun key => (if_neg List.not_mem_nil).symm⟩
  | cons k keys ih =>
    rw [List.nodup_cons] at hnodup
    rw [List.forall_mem_cons] at hstart
    obtain ⟨hk, hkeys⟩ := List.cons_subset.mp hkeys
    cases hvalue : metadata.lookup k with
    | none =>
      obtain ⟨found, hfold, hfound⟩ := ih hkeys hnodup.2 hstart.2
      refine ⟨found, ?_, fun key => ?_⟩
      · rw [List.filterMap_cons_none (by rw [hvalue]; rfl)]
        exact hfold
      · rw [hfound]
        by_cases hkey : key = k
        · rw [hkey, if_neg hnodup.1, if_pos List.mem_cons_self, hvalue, hstart.1]
        · simp only [List.mem_cons, hkey, false_or]
    | some value =>
      have hcarried := (hmetadata.entries k value hvalue).2
      have hnext : ∀ key ∈ keys, (start.insert k value).lookup key = none := fun key hkey => by
        have hne : key ≠ k := fun heq => hnodup.1 (heq ▸ hkey)
        rw [Files.lookup_insert, if_neg hne, hstart.2 key hkey]
      obtain ⟨found, hfold, hfound⟩ := ih hkeys hnodup.2 hnext
      refine ⟨found, ?_, fun key => ?_⟩
      · rw [List.filterMap_cons_some (by rw [hvalue]; rfl), List.foldlM_cons,
          readEntry_entryText hk hcarried hstart.1]
        exact hfold
      · rw [hfound]
        by_cases hkey : key = k
        · rw [hkey, if_neg hnodup.1, if_pos List.mem_cons_self, hvalue, Files.lookup_insert,
            if_pos rfl]
        · rw [Files.lookup_insert, if_neg hkey]
          simp only [List.mem_cons, hkey, false_or]

/-- Pieces that are not too long make a text that is not. -/
theorem length_intercalate_le {pieces : List (List Char)} {n : Nat}
    (h : ∀ piece ∈ pieces, piece.length ≤ n) :
    ([','].intercalate pieces).length ≤ pieces.length * (n + 1) := by
  induction pieces with
  | nil => exact Nat.zero_le _
  | cons piece rest ih =>
    rw [List.forall_mem_cons] at h
    have hrest := ih h.2
    cases rest with
    | nil =>
      rw [List.intercalate_singleton, List.length_singleton]
      omega
    | cons next rest =>
      have hcount : (piece :: next :: rest).length * (n + 1) =
          (next :: rest).length * (n + 1) + (n + 1) := by
        rw [List.length_cons, Nat.add_mul, Nat.one_mul]
      rw [List.intercalate_cons_cons, List.length_append, List.length_append, List.length_singleton,
        hcount]
      omega

theorem mem_intercalate {pieces : List (List Char)} {c : Char} (h : c ∈ [','].intercalate pieces) :
    c = ',' ∨ ∃ piece ∈ pieces, c ∈ piece := by
  induction pieces with
  | nil => contradiction
  | cons piece rest ih =>
    cases rest with
    | nil =>
      rw [List.intercalate_singleton] at h
      exact .inr ⟨piece, List.mem_cons_self, h⟩
    | cons next rest =>
      rw [List.intercalate_cons_cons, List.mem_append, List.mem_append, List.mem_singleton] at h
      rcases h with (h | h) | h
      · exact .inr ⟨piece, List.mem_cons_self, h⟩
      · exact .inl h
      · exact (ih h).imp_right fun ⟨p, hp, hc⟩ => ⟨p, List.mem_cons_of_mem _ hp, hc⟩

namespace Metadata.Accepted

variable {metadata : Metadata} (h : metadata.Accepted)

/-- The pieces of the canonical text. -/
def pieces (metadata : Metadata) : List (List Char) :=
  metadataKeys.filterMap fun key => (metadata.lookup key).map (entryText key)

include h

theorem mem_pieces {piece : List Char} (hpiece : piece ∈ pieces metadata) :
    ∃ key value, key ∈ metadataKeys ∧ Carried value ∧ piece = entryText key value := by
  obtain ⟨key, -, hsome⟩ := List.mem_filterMap.mp hpiece
  obtain ⟨value, hvalue, rfl⟩ := Option.map_eq_some_iff.mp hsome
  obtain ⟨hkey, hcarried⟩ := h.entries key value hvalue
  exact ⟨key, value, hkey, hcarried, rfl⟩

theorem pieces_ne_nil : pieces metadata ≠ [] := by
  obtain ⟨value, hvalue⟩ := Option.isSome_iff_exists.mp (h.required "filename" List.mem_cons_self)
  have hmem : entryText "filename" value ∈ pieces metadata :=
    List.mem_filterMap.mpr ⟨_, (h.entries _ value hvalue).1, by rw [hvalue]; rfl⟩
  exact List.ne_nil_of_mem hmem

/-- The characters of the canonical text are visible. -/
theorem visible {c : Char} (hc : c ∈ (canonicalMetadataHeader metadata).toList) :
    32 ≤ c.toNat ∧ c.toNat < 127 := by
  have hentry : isEntryChar c = true ∨ c = ' ' ∨ c = ',' := by
    rw [canonicalMetadataHeader, String.toList_ofList] at hc
    rcases mem_intercalate hc with hc | ⟨piece, hpiece, hc⟩
    · exact .inr (.inr hc)
    · obtain ⟨key, value, hkey, -, rfl⟩ := h.mem_pieces hpiece
      exact (mem_entryText hkey hc).imp_right .inl
  rcases hentry with hc | rfl | rfl
  · simp only [isEntryChar, Bool.and_eq_true, decide_eq_true_eq] at hc
    omega
  · decide
  · decide

/-- The canonical text keeps within the limit. -/
theorem length_le : (canonicalMetadataHeader metadata).toList.length ≤ maxMetadataHeaderBytes := by
  have hpiece : ∀ piece ∈ pieces metadata, piece.length ≤ 1383 := by
    intro piece hpiece
    obtain ⟨key, value, hkey, hcarried, rfl⟩ := h.mem_pieces hpiece
    have hall : ∀ key ∈ metadataKeys, key.toList.length ≤ 14 := by decide
    have hlength := hall key hkey
    have hvalue := hcarried.2
    rw [entryText, List.length_append, List.length_cons, Base64.Standard.length_encode, length_utf8]
    omega
  have hcount : (pieces metadata).length ≤ 5 := List.length_filterMap_le _ _
  have htotal := length_intercalate_le hpiece
  rw [canonicalMetadataHeader, String.toList_ofList]
  exact htotal.trans ((Nat.mul_le_mul_right _ hcount).trans (by decide))

/-- The canonical text is read back to the same values. -/
theorem parse_canonical : ∃ found,
    parseUploadMetadata (utf8 (canonicalMetadataHeader metadata)) = .ok found ∧
      ∀ key, found.lookup key = metadata.lookup key := by
  have hplain : ∀ piece ∈ pieces metadata, ',' ∉ piece := by
    intro piece hpiece hmem
    obtain ⟨key, value, hkey, -, rfl⟩ := h.mem_pieces hpiece
    rcases mem_entryText hkey hmem with hc | hc <;> contradiction
  have hsplit : (canonicalMetadataHeader metadata).toList.splitOn ',' = pieces metadata := by
    rw [canonicalMetadataHeader, String.toList_ofList]
    exact List.splitOn_intercalate ',' hplain h.pieces_ne_nil
  obtain ⟨found, hfold, hfound⟩ := foldlM_readEntry h (List.Subset.refl metadataKeys)
    (by decide) (show ∀ key ∈ metadataKeys, (∅ : Metadata).lookup key = none from
      fun _ _ => AList.lookup_empty _)
  have hsame (key : String) : found.lookup key = metadata.lookup key := by
    rw [hfound]
    split
    · rfl
    · rename_i hkey
      cases hlookup : metadata.lookup key with
      | none => rfl
      | some value => exact absurd (h.entries key value hlookup).1 hkey
  have hlength : (utf8 (canonicalMetadataHeader metadata)).length =
      (canonicalMetadataHeader metadata).toList.length := by
    rw [utf8, Utf8.encode_ascii fun c hc => by have := h.visible hc; omega, List.length_map]
  have hne : canonicalMetadataHeader metadata ≠ "" := by
    intro hnil
    have hmem : [] ∈ pieces metadata := by
      rw [← hsplit, hnil]
      decide
    obtain ⟨key, value, hkey, hcarried, heq⟩ := h.mem_pieces hmem
    have hspace : ' ' ∈ entryText key value := by simp [entryText]
    rw [← heq] at hspace
    contradiction
  have hshort : (!(utf8 (canonicalMetadataHeader metadata)).isEmpty &&
      (utf8 (canonicalMetadataHeader metadata)).length ≤ maxMetadataHeaderBytes) = true := by
    simp only [Bool.and_eq_true, Bool.not_eq_true', List.isEmpty_eq_false_iff, decide_eq_true_eq]
    exact ⟨utf8_ne_nil hne, hlength ▸ h.length_le⟩
  have hrequired : (["filename", "media_type", "sha256"].all fun key =>
      (found.lookup key).isSome) = true := by
    rw [List.all_eq_true]
    intro key hkey
    rw [hsame]
    exact h.required key hkey
  refine ⟨found, ?_, hsame⟩
  rw [parseUploadMetadata, hshort, utf8, headerToStr_utf8 fun c hc => h.visible hc]
  simp only [hsplit]
  rw [pieces, hfold]
  simp only [ensure, if_true, bind, Except.bind, hrequired]
  rfl

end Metadata.Accepted

end MiRelay
