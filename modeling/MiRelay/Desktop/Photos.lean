import MiRelay.Desktop.Files
import MiRelay.Desktop.Registry

/-!
# Photos among the files

A complete file whose name has the extension of an image is shown as a photo. A
saved one below the library has a source, from which its preview is decoded; any
other one has none.
-/

namespace MiRelay

namespace PathBuf

/-- The path of a text. -/
def ofString (s : String) : PathBuf := ⟨Utf8.encode s.toList⟩

/-- The text behind the last dot of a name, unless the dot is missing or its first character. -/
def extensionOf (name : Bytes) : Option Bytes :=
  match (name.reverse.span (· != 0x2e)).2 with
  | _ :: _ :: _ => some (name.reverse.span (· != 0x2e)).1.reverse
  | _ => none

/-- `extension`. -/
def extension (path : PathBuf) : Option Bytes :=
  match path.components.getLast? with
  | some (.normal name) => extensionOf name
  | _ => none

/-- The names behind so many that stand for something. -/
def dropNames : Nat → List Bytes → List Bytes
  | 0, names => names
  | _ + 1, [] => []
  | count + 1, name :: rest =>
    if partOf name = none then dropNames (count + 1) rest else dropNames count rest

/-- Names without those at the beginning that stand for nothing. -/
def trimNames (names : List Bytes) : List Bytes := names.dropWhile fun name => partOf name = none

/-- `strip_prefix`: the rest of a path behind another one. -/
def stripPrefix (path root : PathBuf) : Option Bytes :=
  if root.components.isPrefixOf path.components then
    let names := path.bytes.splitOn 0x2f
    let rest :=
      if root.components = [] then names
      else trimNames (dropNames ((root.bytes.splitOn 0x2f).filterMap partOf).length names)
    some ([0x2f].intercalate (trimNames rest.reverse).reverse)
  else none

end PathBuf

namespace Photos

/-- The extensions of images. -/
def imageExtensions : List Bytes :=
  ["jpg", "jpeg", "png", "webp", "gif", "bmp", "heic", "heif", "avif", "tif", "tiff"].map
    fun name => Utf8.encode name.toList

/-- `to_ascii_lowercase` of a byte. -/
def lowerByte (b : UInt8) : UInt8 := if 0x41 ≤ b ∧ b ≤ 0x5a then b + 0x20 else b

def eligible (entry : FileEntry) : Bool :=
  entry.isComplete && ((PathBuf.ofString entry.name).extension.any fun extension =>
    imageExtensions.contains (extension.map lowerByte))

/-- Where the content of a photo is, and what it must be. Its root counts up to the equality of
paths. -/
structure Source where
  root : List PathPart
  relative : String
  hash : String
  size : Nat
  deriving DecidableEq, Repr

structure Photo where
  id : String
  name : String
  source : Option Source
  deriving DecidableEq, Repr

/-- `Photo::from_entry`. -/
def Photo.fromEntry (entry : FileEntry) (root : PathBuf) : Photo where
  id := entry.id
  name := entry.name
  source :=
    match entry with
    | .saved record =>
      match (PathBuf.ofString record.storedPath).stripPrefix root with
      | none => none
      | some relative =>
        match Utf8.decode relative with
        | .text text => some ⟨root.components, String.ofList text, record.sha256, record.size⟩
        | _ => none
    | .live _ => none

/-- The photos of some entries. -/
def photosOf (entries : List FileEntry) (root : PathBuf) : List Photo :=
  (entries.filter eligible).map fun entry => .fromEntry entry root

end Photos

end MiRelay
