import MiRelay.Core.Utf8
import MiRelay.Protocol

/-!
# Inspection of media bytes

Size, digest and media type of a file. The digest function is a parameter of
everything that follows. The type is read off the first 512 bytes, with plain
text as the last resort before the general type.
-/

namespace MiRelay

/-- `is_plain_text_character`, on the code points below 0x100 where it can fail. -/
def isPlainTextCode (code : Nat) : Bool :=
  code = 0x0a || code = 0x0d || code = 0x09 || (0x20 ≤ code && !(0x7f ≤ code && code ≤ 0x9f))

/-- `Utf8TextProbe`: complete UTF-8 without control characters but line breaks and tabs. -/
def isPlainText : Bytes → Bool
  | [] => true
  | a :: rest =>
    if a < 0x80 then isPlainTextCode a.toNat && isPlainText rest
    else match rest with
      | [] => false
      | b :: rest =>
        if 0xc2 ≤ a && a ≤ 0xdf then
          isContinuation b && isPlainTextCode ((a.toNat - 0xc0) * 64 + (b.toNat - 0x80)) &&
            isPlainText rest
        else match rest with
          | [] => false
          | c :: rest =>
            if 0xe0 ≤ a && a ≤ 0xef then
              isSecondByte a b && isContinuation c && isPlainText rest
            else match rest with
              | [] => false
              | d :: rest =>
                0xf0 ≤ a && a ≤ 0xf4 && isSecondByte a b && isContinuation c &&
                  isContinuation d && isPlainText rest

/-- The bytes of an ASCII text. -/
def ascii (s : String) : Bytes := s.toList.map fun c => UInt8.ofNat c.toNat

/-- `&header[at..at + s.len()] == s`. -/
def hasAt (header : Bytes) (at_ : Nat) (s : Bytes) : Bool := s.isPrefixOf (header.drop at_)

/-- `detect_media_type`. -/
def detectMediaType (header : Bytes) (plainText : Bool) : String × String :=
  if hasAt header 0 (0x89 :: ascii "PNG\r\n" ++ [0x1a, 0x0a]) then ("image/png", "png")
  else if hasAt header 0 [0xff, 0xd8, 0xff] then ("image/jpeg", "jpg")
  else if hasAt header 0 (ascii "GIF87a") || hasAt header 0 (ascii "GIF89a") then ("image/gif", "gif")
  else if hasAt header 0 (ascii "RIFF") && hasAt header 8 (ascii "WEBP") then ("image/webp", "webp")
  else if hasAt header 4 (ascii "ftyp") &&
      (hasAt header 8 (ascii "avif") || hasAt header 8 (ascii "avis")) then ("image/avif", "avif")
  else if hasAt header 0 (ascii "%PDF-") then ("application/pdf", "pdf")
  else if hasAt header 0 (ascii "PK" ++ [3, 4]) || hasAt header 0 (ascii "PK" ++ [5, 6]) ||
      hasAt header 0 (ascii "PK" ++ [7, 8]) then ("application/zip", "zip")
  else if hasAt header 0 [0x1f, 0x8b] then ("application/gzip", "gz")
  else if hasAt header 0 [0x37, 0x7a, 0xbc, 0xaf, 0x27, 0x1c] then
    ("application/x-7z-compressed", "7z")
  else if hasAt header 0 (ascii "Rar!" ++ [0x1a, 7, 0]) ||
      hasAt header 0 (ascii "Rar!" ++ [0x1a, 7, 1, 0]) then ("application/vnd.rar", "rar")
  else if hasAt header 0 (ascii "RIFF") && hasAt header 8 (ascii "WAVE") then ("audio/wav", "wav")
  else if hasAt header 0 (ascii "fLaC") then ("audio/flac", "flac")
  else if hasAt header 0 (ascii "OggS") then ("application/ogg", "ogg")
  else if hasAt header 0 (ascii "ID3") ||
      (hasAt header 0 [0xff] && (header.drop 1).head?.any fun b => b &&& 0xe0 == 0xe0) then
    ("audio/mpeg", "mp3")
  else if 12 ≤ header.length && hasAt header 4 (ascii "ftyp") then ("video/mp4", "mp4")
  else if hasAt header 0 [0x1a, 0x45, 0xdf, 0xa3] then ("video/webm", "webm")
  else if plainText then ("text/plain", "txt")
  else ("application/octet-stream", "bin")

/-- Media type and extension of a file. -/
def mediaOf (bytes : Bytes) : String × String := detectMediaType (bytes.take 512) (isPlainText bytes)

/-- A choice between two entries of the table is an entry of the table. -/
private theorem extensionForMediaType_ite {c : Prop} [Decidable c] {a b : String × String}
    (ha : extensionForMediaType a.1 = some a.2) (hb : extensionForMediaType b.1 = some b.2) :
    extensionForMediaType (if c then a else b).1 = some (if c then a else b).2 := by
  split <;> assumption

/-- Every detected type has its extension in the table. -/
theorem extensionForMediaType_detect (header : Bytes) (plainText : Bool) :
    extensionForMediaType (detectMediaType header plainText).1 =
      some (detectMediaType header plainText).2 := by
  unfold detectMediaType
  repeat' apply extensionForMediaType_ite
  all_goals decide

/-- The extension of a file is the one of its type. -/
theorem extensionForMediaType_mediaOf (bytes : Bytes) :
    extensionForMediaType (mediaOf bytes).1 = some (mediaOf bytes).2 :=
  extensionForMediaType_detect _ _

/-- `str::to_ascii_lowercase`. -/
def toAsciiLowercase (s : String) : String := String.ofList (s.toList.map Char.toLower)

/-- A valid digest is in lowercase. -/
theorem toAsciiLowercase_of_validateSha256 {digest : String} (h : validateSha256 digest = .ok ()) :
    toAsciiLowercase digest = digest := by
  rw [validateSha256, ensure_eq_ok, Bool.and_eq_true, List.all_eq_true] at h
  have hsame : digest.toList.map Char.toLower = digest.toList := by
    conv_rhs => rw [← List.map_id digest.toList]
    exact List.map_congr_left fun c hc => toLower_of_isHexLower (h.2 c hc)
  rw [toAsciiLowercase, hsame, String.ofList_toList]

structure FileInspection where
  size : Nat
  sha256 : String
  mediaType : String
  extension : String
  deriving DecidableEq, Repr

/-- `StoredAsset`. -/
structure StoredAsset where
  path : String
  size : Nat
  sha256 : String
  mediaType : String
  deriving DecidableEq, Repr

section Inspect

variable (sha256 : Bytes → String)

/-- What a file of these bytes is found to be. -/
def inspection (bytes : Bytes) : FileInspection where
  size := bytes.length
  sha256 := sha256 bytes
  mediaType := (mediaOf bytes).1
  extension := (mediaOf bytes).2

/-- `copy_and_inspect` of a file read to its end. Which of two exceeded limits is reported
depends on how the bytes arrive. -/
def copyAndInspect (maxFileSize : Nat) (expectedSize : Option Nat) (bytes : Bytes) :
    Result FileInspection := do
  ensure (bytes.length ≤ maxFileSize) s!"media exceeds the configured {maxFileSize} byte limit"
  (match expectedSize with
    | some expected => do
      ensure (bytes.length ≤ expected) s!"media is larger than its declared {expected} byte size"
      ensure (bytes.length == expected)
        s!"media size mismatch: expected {expected} bytes, got {bytes.length}"
    | none => .ok ())
  ensure (bytes.length ≠ 0) "media file is empty"
  return inspection sha256 bytes

/-- `inspect_file`. -/
def inspectFile (maxFileSize : Nat) (bytes : Bytes) : Result FileInspection :=
  copyAndInspect sha256 maxFileSize none bytes

theorem inspectFile_ok {m : Nat} {bytes : Bytes} {i : FileInspection} :
    inspectFile sha256 m bytes = .ok i ↔
      bytes.length ≤ m ∧ bytes.length ≠ 0 ∧ i = inspection sha256 bytes := by
  simp only [inspectFile, copyAndInspect, bind_eq_ok, ensure_eq_ok, decide_eq_true_eq, pure_eq_ok]
  constructor
  · rintro ⟨_, hm, _, -, _, hne, rfl⟩
    exact ⟨hm, by simpa using hne, rfl⟩
  · rintro ⟨hm, hne, rfl⟩
    exact ⟨(), hm, (), trivial, (), by simpa using hne, rfl⟩

/-- `verify_recorded_file`. -/
def verifyRecordedFile (maxFileSize : Nat) (bytes : Bytes) (expectedSize : Nat)
    (expectedSha256 expectedMediaType : String) : Result Unit := do
  let found ← inspectFile sha256 maxFileSize bytes
  ensure (found.size == expectedSize && found.sha256 == expectedSha256 &&
    found.mediaType == expectedMediaType) "stored file no longer matches its recorded metadata"

theorem verifyRecordedFile_ok {m n : Nat} {bytes : Bytes} {sha mediaType : String} {u : Unit} :
    verifyRecordedFile sha256 m bytes n sha mediaType = .ok u ↔
      bytes.length ≤ m ∧ bytes.length ≠ 0 ∧ bytes.length = n ∧ sha256 bytes = sha ∧
        (mediaOf bytes).1 = mediaType := by
  simp only [verifyRecordedFile, bind_eq_ok, inspectFile_ok, ensure_eq_ok, Bool.and_eq_true,
    beq_iff_eq]
  constructor
  · rintro ⟨_, ⟨hm, hne, rfl⟩, ⟨hsize, hsha⟩, hmedia⟩
    exact ⟨hm, hne, hsize, hsha, hmedia⟩
  · rintro ⟨hm, hne, hsize, hsha, hmedia⟩
    exact ⟨_, ⟨hm, hne, rfl⟩, ⟨hsize, hsha⟩, hmedia⟩

end Inspect

end MiRelay
