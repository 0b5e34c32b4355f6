import Mathlib
import MiRelay.Core.Table

/-!
# A file system with symbolic links

Every object has a position, the names that lead to it from the topmost
directory through real directories. A path given by a program is resolved from a
directory: `.` and `..` are followed, links on the way are expanded, up to a
bound on their number. Only a path of one plain name is sure to stay where it
started, and a link at its end is not followed on request.
-/

namespace MiRelay

/-- A name in a directory: text, or bytes that are no text. -/
inductive EntryName
  | text (name : String)
  | raw (bytes : List UInt8)
  deriving DecidableEq, Repr

/-- Any name but the special ones and those with a separator. -/
def EntryName.Proper : EntryName → Prop
  | .text name => name ≠ "" ∧ name ≠ "." ∧ name ≠ ".." ∧ '/' ∉ name.toList
  | .raw _ => True

instance (name : EntryName) : Decidable name.Proper := by
  unfold EntryName.Proper
  cases name <;> infer_instance

/-- The names from the topmost directory. -/
abbrev Position : Type := List EntryName

/-- A path as the system takes it: its names, and whether it starts at the topmost directory. -/
structure SystemPath where
  absolute : Bool
  parts : List EntryName
  /-- A separator stands behind the last name. -/
  trailing : Bool
  deriving DecidableEq, Repr

/-- The names to resolve; a trailing separator asks for a directory. -/
def SystemPath.names (path : SystemPath) : List EntryName :=
  path.parts ++ if path.trailing then [.text "."] else []

/-- What stands at a position. -/
inductive FileKind
  | file (bytes : List UInt8)
  | directory
  | symlink (target : SystemPath)
  | special
  deriving DecidableEq, Repr

/-- The objects by position. -/
structure FileSystem where
  nodes : Files Position FileKind
  /-- Everything stands in a directory. -/
  closed : ∀ place name, nodes.lookup (place ++ [name]) ≠ none →
    nodes.lookup place = some .directory
  /-- Under a proper name. -/
  named : ∀ place name, nodes.lookup (place ++ [name]) ≠ none → name.Proper

/-- The errors of a system call that do not come from the device. -/
inductive Errno
  | noEntry
  | notDirectory
  | loop
  | exists
  | invalid
  deriving DecidableEq, Repr

/-- Split a path into its names. -/
def SystemPath.parse (path : String) : Except Errno SystemPath :=
  let parts := path.toList.splitOn '/'
  if path = "" then .error .noEntry
  else if Char.ofNat 0 ∈ path.toList then .error .invalid
  else .ok
    { absolute := path.toList.head? = some '/'
      parts := (parts.filter (· ≠ [])).map fun part => .text (String.ofList part)
      trailing := parts.getLast? = some [] }

namespace FileSystem

/-- What stands at a position. -/
def kind (fs : FileSystem) (place : Position) : Option FileKind := fs.nodes.lookup place

/-- Resolve names from a position; `expand` continues behind a link. -/
def walkWith (fs : FileSystem) (follow : Bool)
    (expand : Position → List EntryName → Except Errno Position) :
    Position → List EntryName → Except Errno Position
  | place, [] => .ok place
  | place, name :: rest =>
    if fs.kind place ≠ some .directory then .error .notDirectory
    else if name = .text "." then walkWith fs follow expand place rest
    else if name = .text ".." then walkWith fs follow expand place.dropLast rest
    else match fs.kind (place ++ [name]) with
      | none => .error .noEntry
      | some (.symlink target) =>
        if rest = [] ∧ ¬follow then .ok (place ++ [name])
        else expand (if target.absolute then [] else place) (target.names ++ rest)
      | some _ => walkWith fs follow expand (place ++ [name]) rest

/-- Resolve names with at most so many links on the way. -/
def walk (fs : FileSystem) (follow : Bool) :
    Nat → Position → List EntryName → Except Errno Position
  | 0 => fs.walkWith follow fun _ _ => .error .loop
  | links + 1 => fs.walkWith follow (fs.walk follow links)

/-- `MAXSYMLINKS`. -/
def maxLinks : Nat := 40

/-- Resolve a path from a directory. -/
def resolve (fs : FileSystem) (follow : Bool) (start : Position) (path : String) :
    Except Errno Position := do
  let path ← SystemPath.parse path
  fs.walk follow maxLinks (if path.absolute then [] else start) path.names

/-- `openat` with `O_NOFOLLOW`, and with `O_DIRECTORY` where asked: the position that was
opened. -/
def openat (fs : FileSystem) (start : Position) (path : String) (directory : Bool) :
    Except Errno Position := do
  let place ← fs.resolve false start path
  match fs.kind place with
  | none => .error .noEntry
  | some (.symlink _) => .error .loop
  | some found => if directory ∧ found ≠ .directory then .error .notDirectory else .ok place

/-- Where `mkdirat` creates a directory: the parent and the name. -/
def mkdirat (fs : FileSystem) (start : Position) (path : String) :
    Except Errno (Position × EntryName) := do
  let path ← SystemPath.parse path
  match path.parts.getLast? with
  | none => .error .exists
  | some name => do
    let parent ← fs.walk true maxLinks (if path.absolute then [] else start) path.parts.dropLast
    if fs.kind parent ≠ some .directory then .error .notDirectory
    else if ¬name.Proper ∨ fs.kind (parent ++ [name]) ≠ none then .error .exists
    else .ok (parent, name)

/-- The file system with one more directory. -/
def makeDirectory (fs : FileSystem) (parent : Position) (name : EntryName)
    (hparent : fs.kind parent = some .directory) (hname : name.Proper) : FileSystem where
  nodes := fs.nodes.insert (parent ++ [name]) .directory
  closed place n h := by
    rw [Files.lookup_insert] at h ⊢
    split at h
    · rename_i heq
      obtain ⟨rfl, -⟩ := List.append_inj' heq rfl
      split
      · rfl
      · exact hparent
    · split
      · rfl
      · exact fs.closed place n h
  named place n h := by
    rw [Files.lookup_insert] at h
    split at h
    · rename_i heq
      obtain ⟨-, heq⟩ := List.append_inj' heq rfl
      rw [List.singleton_inj.mp heq]
      exact hname
    · exact fs.named place n h

variable {fs : FileSystem} {start place : Position} {name : String}

/-- The new directory is the only change. -/
theorem kind_makeDirectory {parent : Position} {name : EntryName}
    (hparent : fs.kind parent = some .directory) (hname : name.Proper) (place : Position) :
    (fs.makeDirectory parent name hparent hname).kind place =
      if place = parent ++ [name] then some .directory else fs.kind place := by
  rw [kind, makeDirectory, Files.lookup_insert, eq_comm]
  rfl

/-- Everything above an object is a directory. -/
theorem kind_above (fs : FileSystem) {above place : Position} (hplace : fs.kind place ≠ none)
    (habove : above <+: place) (hne : above ≠ place) : fs.kind above = some .directory := by
  obtain ⟨names, rfl⟩ := habove
  induction names using List.reverseRecOn with
  | nil => exact absurd (List.append_nil _).symm hne
  | append_singleton names name ih =>
    rw [← List.append_assoc] at hplace
    have hdir := fs.closed _ _ hplace
    by_cases hnames : names = []
    · rwa [hnames, List.append_nil] at hdir
    · refine ih ?_ (by simpa using hnames)
      rw [kind, hdir]
      exact Option.some_ne_none _

/-- A text that is one name of a path and nothing else. -/
def Plain (name : String) : Prop := (EntryName.text name).Proper ∧ Char.ofNat 0 ∉ name.toList

/-- A plain name is a path of one part. -/
theorem parse_of_plain (h : Plain name) :
    SystemPath.parse name = .ok ⟨false, [.text name], false⟩ := by
  obtain ⟨⟨hne, -, -, hslash⟩, hnul⟩ := h
  have hlist : name.toList ≠ [] := fun h => hne (String.toList_eq_nil_iff.mp h)
  have hsplit : name.toList.splitOn '/' = [name.toList] := List.splitOn_eq_singleton hslash
  have hhead : name.toList.head? ≠ some '/' := fun h => hslash (List.mem_of_mem_head? h)
  simp [SystemPath.parse, hne, hnul, hsplit, hlist, hhead]

/-- A name with a zero character opens nothing. -/
theorem openat_of_nul (hne : name ≠ "") (h : Char.ofNat 0 ∈ name.toList) (directory : Bool) :
    fs.openat start name directory = .error .invalid := by
  have hparse : SystemPath.parse name = .error .invalid := by simp [SystemPath.parse, hne, h]
  rw [openat, resolve, hparse]
  rfl

/-- The topmost directory is opened by its own path. -/
theorem openat_top : fs.openat start "/" true =
    if fs.kind [] = some .directory then .ok [] else .error .notDirectory := by
  have hparse : SystemPath.parse "/" = .ok ⟨true, [], true⟩ := by decide
  rw [openat, resolve, hparse]
  by_cases hdir : fs.kind [] = some .directory
  · simp [bind, Except.bind, SystemPath.names, maxLinks, walk, walkWith, hdir]
  · simp [bind, Except.bind, SystemPath.names, maxLinks, walk, walkWith, hdir]

/-- A plain name is looked up in the directory it starts in. -/
theorem walk_of_plain (h : Plain name) (links : Nat) :
    fs.walk false links start [.text name] =
      if fs.kind start ≠ some .directory then .error .notDirectory
      else match fs.kind (start ++ [.text name]) with
        | none => .error .noEntry
        | some _ => .ok (start ++ [.text name]) := by
  obtain ⟨⟨-, hdot, hdots, -⟩, -⟩ := h
  cases links <;>
  · simp only [walk, walkWith, EntryName.text.injEq, hdot, hdots, if_false]
    split
    · rfl
    · cases fs.kind (start ++ [.text name]) with
      | none => rfl
      | some found => cases found <;> simp

/-- Opened by a plain name is what stands under it, unless it is a link. -/
theorem openat_of_plain (h : Plain name) (directory : Bool) :
    fs.openat start name directory =
      if fs.kind start ≠ some .directory then .error .notDirectory
      else match fs.kind (start ++ [.text name]) with
        | none => .error .noEntry
        | some (.symlink _) => .error .loop
        | some found => if directory ∧ found ≠ .directory then .error .notDirectory
          else .ok (start ++ [.text name]) := by
  have hwalk : fs.resolve false start name = fs.walk false maxLinks start [.text name] := by
    rw [resolve, parse_of_plain h]
    rfl
  rw [openat, hwalk, walk_of_plain h]
  by_cases hdir : fs.kind start = some .directory
  · simp only [hdir, ne_eq, not_true_eq_false, if_false]
    cases hk : fs.kind (start ++ [.text name]) with
    | none => rfl
    | some found =>
      simp only [bind, Except.bind, hk]
  · simp only [ne_eq, hdir, not_false_eq_true, if_true]
    rfl

/-- What a plain name opens, and when. -/
theorem openat_eq_ok_of_plain (h : Plain name) {directory : Bool} :
    fs.openat start name directory = .ok place ↔ place = start ++ [.text name] ∧
      fs.kind start = some .directory ∧ ∃ found, fs.kind place = some found ∧
        (∀ target, found ≠ .symlink target) ∧ (directory = true → found = .directory) := by
  rw [openat_of_plain h]
  by_cases hdir : fs.kind start = some .directory
  · simp only [hdir, ne_eq, not_true_eq_false, if_false, true_and]
    constructor
    · intro hok
      split at hok
      · contradiction
      · contradiction
      · rename_i found hnolink hk
        split at hok
        · contradiction
        · rename_i hnot
          cases Except.ok.inj hok
          refine ⟨rfl, found, hk, hnolink, fun hd => ?_⟩
          by_contra hne
          exact hnot ⟨hd, hne⟩
    · rintro ⟨rfl, found, hk, hnolink, hd⟩
      cases found with
      | symlink target => exact absurd rfl (hnolink target)
      | _ => simp_all
  · simp [hdir]

/-- A directory is created by a plain name in the directory it starts in. -/
theorem mkdirat_of_plain (h : Plain name) :
    fs.mkdirat start name =
      if fs.kind start ≠ some .directory then .error .notDirectory
      else if fs.kind (start ++ [.text name]) ≠ none then .error .exists
      else .ok (start, .text name) := by
  rw [mkdirat, parse_of_plain h]
  have hwalk : fs.walk true maxLinks start [] = .ok start := rfl
  simp only [bind, Except.bind, List.getLast?_singleton, Bool.false_eq_true, if_false,
    List.dropLast_singleton, hwalk, h.1, not_true_eq_false, false_or]

end FileSystem

end MiRelay
