import Mathlib

/-!
# Names, digests and delivery metadata

The checks every party applies to the strings of the protocol: delivery and
device identities, digests, relative paths, single file names and the metadata
of a delivery, with the error texts of the source. A string is its sequence of
Unicode characters, `len()` its UTF-8 size.
-/

namespace MiRelay

abbrev Bytes : Type := List UInt8

/-- The errors an operation returns: a text, or one of the two typed errors that the
interfaces translate into their own status codes. -/
inductive Error
  | message (text : String)
  | directoryConflict
  | invalidUploadContent (uploadId reason : String)
  deriving DecidableEq, Repr

/-- The text of an error. -/
def Error.text : Error → String
  | .message text => text
  | .directoryConflict =>
    "Initialize the receiver or refresh the conflicting directory version."
  | .invalidUploadContent uploadId reason =>
    s!"completed tus upload {uploadId} contains invalid content: {reason}"

abbrev Result : Type → Type := Except Error

/-- Fail with the text unless the condition holds. -/
def ensure (condition : Bool) (text : String) : Result Unit :=
  if condition then .ok () else .error (.message text)

/-- `i64::MAX`, the bound of every number SQLite stores. -/
def i64Max : Nat := 2 ^ 63 - 1

theorem ensure_eq_ok {c : Bool} {t : String} {u : Unit} : ensure c t = .ok u ↔ c = true := by
  unfold ensure
  cases c <;> simp

/-- A sequence of checks succeeds exactly when each part does. -/
theorem bind_eq_ok {ε α β : Type} {x : Except ε α} {f : α → Except ε β} {b : β} :
    (x >>= f) = .ok b ↔ ∃ a, x = .ok a ∧ f a = .ok b := by
  cases x <;> simp [bind, Except.bind]

theorem pure_eq_ok {ε α : Type} {a b : α} : (pure a : Except ε α) = .ok b ↔ a = b := by
  simp [pure, Except.pure]

theorem toOption_eq_some {ε α : Type} {x : Except ε α} {a : α} :
    x.toOption = some a ↔ x = .ok a := by
  cases x <;> simp [Except.toOption]

section Characters

/-- Unicode category `Cc`, as `char::is_control`. -/
def isControl (c : Char) : Bool := c.toNat < 0x20 || (0x7f ≤ c.toNat && c.toNat ≤ 0x9f)

/-- Unicode `White_Space`, as `char::is_whitespace`. -/
def isWhitespace (c : Char) : Bool :=
  (9 ≤ c.toNat && c.toNat ≤ 13) || (0x2000 ≤ c.toNat && c.toNat ≤ 0x200a) ||
    [0x20, 0x85, 0xa0, 0x1680, 0x2028, 0x2029, 0x202f, 0x205f, 0x3000].contains c.toNat

/-- `str::trim`. -/
def trim (s : String) : String :=
  String.ofList (((s.toList.dropWhile isWhitespace).reverse.dropWhile isWhitespace).reverse)

/-- The UTF-8 length of a sequence of characters. -/
def utf8Len (cs : List Char) : Nat := (cs.map Char.utf8Size).sum

/-- An ASCII letter or digit, `-` or `_`. -/
def isIdentityChar (c : Char) : Bool := c.isAlphanum || c == '-' || c == '_'

/-- A lowercase hexadecimal digit. -/
def isHexLower (c : Char) : Bool := c.isDigit || ('a' ≤ c && c ≤ 'f')

/-- A hexadecimal digit of either case. -/
def isHex (c : Char) : Bool := isHexLower c.toLower

end Characters

/-- `validate_delivery_id`. -/
def validateDeliveryId (id : String) : Result Unit :=
  ensure (id.toList ≠ [] && utf8Len id.toList ≤ 128 && id.toList.all isIdentityChar)
    s!"delivery id must be 1-128 ASCII letters, digits, '-' or '_': {id.quote}"

/-- `validate_device_id`. -/
def validateDeviceId (id : String) : Result Unit :=
  ensure (id.toList ≠ [] && utf8Len id.toList ≤ 128 && id.toList.all isIdentityChar)
    "device id must be 1-128 ASCII letters, digits, '-' or '_'"

/-- `validate_sha256`. -/
def validateSha256 (sha256 : String) : Result Unit :=
  ensure (utf8Len sha256.toList == 64 && sha256.toList.all isHexLower)
    "SHA-256 must be 64 lowercase hexadecimal characters"

/-- The hexadecimal digits of a hyphenated identity, in lowercase. -/
def parseHyphenated (cs : List Char) : Option (List Char) :=
  let hex := cs.filter (· ≠ '-')
  let hyphens := (List.range cs.length).filter fun i => cs[i]? == some '-'
  if cs.length = 36 ∧ hyphens = [8, 13, 18, 23] ∧ hex.all isHex then
    some (hex.map Char.toLower)
  else none

/-- `uuid::Uuid::parse_str`: simple, hyphenated, braced or URN notation. -/
def parseUuid (s : String) : Option (List Char) :=
  let cs := s.toList
  match cs.length with
  | 32 => if cs.all isHex then some (cs.map Char.toLower) else none
  | 36 => parseHyphenated cs
  | 38 => if cs[0]? = some '{' ∧ cs[37]? = some '}' then parseHyphenated ((cs.drop 1).take 36) else none
  | 45 => if cs.take 9 = "urn:uuid:".toList then parseHyphenated (cs.drop 9) else none
  | _ => none

/-- `Uuid::to_string`: lowercase and hyphenated. -/
def hyphenate (hex : List Char) : List Char :=
  hex.take 8 ++ '-' :: (hex.drop 8).take 4 ++ '-' :: (hex.drop 12).take 4 ++
    '-' :: (hex.drop 16).take 4 ++ '-' :: hex.drop 20

/-- `Uuid::parse_str(s)?.to_string() == s`, with the text of the caller. -/
def ensureUuid (s : String) (text : String) : Result Unit :=
  match parseUuid s with
  -- The text of the uuid crate depends on the first bad character and is not modelled.
  | none => .error (.message "invalid UUID")
  | some hex => ensure (hyphenate hex == s.toList) text

/-- One component of a relative path. -/
def validComponent (part : List Char) : Bool :=
  part ≠ [] && part ≠ ['.'] && part ≠ ['.', '.'] && utf8Len part ≤ 255 &&
    !part.any isControl && !(".mirelay".toList.isPrefixOf (part.map Char.toLower)) &&
    !part.contains ':'

/-- The components of a relative path. -/
def components (path : String) : List (List Char) := path.toList.splitOn '/'

/-- `validate_path`: portable path components, not URL paths or SAF document IDs. -/
def validatePath (path : String) : Result Unit := do
  ensure (path.toList ≠ [] && utf8Len path.toList ≤ 1024 && !path.toList.contains '\\')
    "Invalid relative path."
  ensure ((components path).length ≤ 17) "Directory nesting exceeds 16 levels."
  ensure ((components path).all validComponent) "Unsafe or reserved directory component."

/-- `path.rsplit('/').next()`: the last component. -/
def fileName (path : String) : String := String.ofList ((components path).getLast?.getD [])

/-- `validate_single_component`: a file name that `Path::file_name` returns unchanged. -/
def validateSingleComponent (value field : String) : Result Unit :=
  let cs := value.toList
  ensure (cs ≠ [] && utf8Len cs ≤ 255 && !cs.any isControl && !cs.contains '/' &&
      cs ≠ ['.'] && cs ≠ ['.', '.'])
    s!"{field} must be a single UTF-8 file name, got {value.quote}"

/-- `extension_for_media_type`. -/
def extensionForMediaType (mediaType : String) : Option String :=
  if mediaType = "image/png" then some "png"
  else if mediaType = "image/jpeg" then some "jpg"
  else if mediaType = "image/gif" then some "gif"
  else if mediaType = "image/webp" then some "webp"
  else if mediaType = "image/avif" then some "avif"
  else if mediaType = "text/plain" then some "txt"
  else if mediaType = "application/pdf" then some "pdf"
  else if mediaType = "application/zip" then some "zip"
  else if mediaType = "application/gzip" then some "gz"
  else if mediaType = "application/x-7z-compressed" then some "7z"
  else if mediaType = "application/vnd.rar" then some "rar"
  else if mediaType = "application/octet-stream" then some "bin"
  else if mediaType = "audio/mpeg" then some "mp3"
  else if mediaType = "audio/wav" then some "wav"
  else if mediaType = "audio/flac" then some "flac"
  else if mediaType = "application/ogg" then some "ogg"
  else if mediaType = "video/mp4" then some "mp4"
  else if mediaType = "video/webm" then some "webm"
  else none

/-- `MANIFEST_SCHEMA_VERSION`. -/
def manifestSchemaVersion : Nat := 1

/-- The manifest of one delivery. -/
structure Delivery where
  schemaVersion : Nat
  id : String
  originalName : String
  payload : String
  size : Nat
  sha256 : String
  mediaType : String
  createdAtUnix : Option Nat
  deriving DecidableEq, Repr

/-- `validate_delivery_metadata`. -/
def validateDeliveryMetadata (delivery : Delivery) (maxFileSize : Nat) : Result Unit := do
  ensure (delivery.schemaVersion == manifestSchemaVersion)
    s!"delivery {delivery.id} uses unsupported manifest schema {delivery.schemaVersion}; expected {manifestSchemaVersion}"
  validateDeliveryId delivery.id
  -- An absent payload is the empty string.
  (if delivery.payload ≠ "" then validateSingleComponent delivery.payload "payload" else .ok ())
  validateSingleComponent delivery.originalName "original_name"
  ensure (delivery.size ≠ 0) s!"delivery {delivery.id} is empty"
  ensure (delivery.size ≤ maxFileSize)
    s!"delivery {delivery.id} is {delivery.size} bytes, exceeding the {maxFileSize} byte limit"
  validateSha256 delivery.sha256
  ensure (extensionForMediaType delivery.mediaType).isSome
    s!"delivery {delivery.id} uses unsupported media type {delivery.mediaType}"

/-- `DirectoryVersion`: one version of one relative path. -/
structure DirectoryVersion where
  path : String
  version : Nat
  deriving DecidableEq, Repr

/-- `DirectoryVersion::validate`. -/
def DirectoryVersion.validate (v : DirectoryVersion) : Result Unit := do
  validatePath v.path
  ensure (0 < v.version && v.version < i64Max) "Invalid directory version."

/-- What a valid delivery says of its size, digest and type. -/
theorem validateDeliveryMetadata_ok {d : Delivery} {m : Nat} {u : Unit}
    (h : validateDeliveryMetadata d m = .ok u) :
    0 < d.size ∧ d.size ≤ m ∧ validateSha256 d.sha256 = .ok () ∧
      (extensionForMediaType d.mediaType).isSome := by
  simp only [validateDeliveryMetadata, bind_eq_ok, ensure_eq_ok] at h
  obtain ⟨_, -, _, -, _, -, _, -, _, hsize, _, hmax, _, hsha, hext⟩ := h
  exact ⟨by simpa [Nat.pos_iff_ne_zero] using hsize, by simpa using hmax, hsha, hext⟩

/-- A lowercase hexadecimal digit takes one byte. -/
theorem utf8Size_of_isHexLower {c : Char} (h : isHexLower c = true) : c.utf8Size = 1 := by
  simp only [isHexLower, Char.isDigit, Bool.or_eq_true, Bool.and_eq_true, decide_eq_true_eq] at h
  rw [Char.utf8Size_eq_one_iff]
  rcases h with ⟨_, h⟩ | ⟨_, h⟩
  · exact UInt32.le_trans h (by decide)
  · exact UInt32.le_trans h (by decide)

/-- Lowercase digits are their own lowercase. -/
theorem toLower_of_isHexLower {c : Char} (h : isHexLower c = true) : c.toLower = c := by
  unfold Char.toLower
  split
  · rename_i hupper
    obtain ⟨hfirst, hlast⟩ := hupper
    simp only [isHexLower, Char.isDigit, Bool.or_eq_true, Bool.and_eq_true, decide_eq_true_eq,
      Char.le_def] at h
    simp only [UInt32.le_iff_toNat_le, ge_iff_le] at h hfirst hlast
    have hA : 'A'.val.toNat = 65 := rfl
    have hZ : 'Z'.val.toNat = 90 := rfl
    have ha : 'a'.val.toNat = 97 := rfl
    have hnine : '9'.val.toNat = 57 := rfl
    omega
  · rfl

/-- A valid digest has 64 characters. -/
theorem length_of_validateSha256 {s : String} {u : Unit} (h : validateSha256 s = .ok u) :
    s.toList.length = 64 := by
  simp only [validateSha256, ensure_eq_ok, Bool.and_eq_true, beq_iff_eq, List.all_eq_true] at h
  obtain ⟨hlen, hall⟩ := h
  rw [utf8Len, List.map_congr_left fun c hc => utf8Size_of_isHexLower (hall c hc)] at hlen
  simpa using hlen

/-- A valid version is positive and below the bound. -/
theorem DirectoryVersion.validate_ok {v : DirectoryVersion} {u : Unit}
    (h : v.validate = .ok u) :
    validatePath v.path = .ok () ∧ 0 < v.version ∧ v.version < i64Max := by
  simp only [DirectoryVersion.validate, bind_eq_ok, ensure_eq_ok, Bool.and_eq_true,
    decide_eq_true_eq] at h
  obtain ⟨_, hp, hv⟩ := h
  exact ⟨hp, hv⟩

end MiRelay
