import Mathlib

/-!
# Trees of files

A tree lists the paths that exist, each a regular file, a directory or a link.
Removals only take entries away, and what happens below one path leaves
everything outside it.
-/

namespace MiRelay

/-- The components of an absolute path. -/
abbrev FilePath := List String

/-- What a path refers to, without following it. -/
inductive Node
  | file (bytes : String)
  | dir
  /-- Whether the target exists. -/
  | symlink (live : Bool)
  deriving DecidableEq, Repr

/-- The existing paths in the order in which directories list them. -/
abbrev FileTree := List (FilePath × Node)

namespace FileTree

variable {t t' : FileTree} {p q : FilePath} {n : Node}

def get (t : FileTree) (p : FilePath) : Option Node := (t.find? (·.1 == p)).map (·.2)

/-- Create or replace an entry. -/
def set (t : FileTree) (p : FilePath) (n : Node) : FileTree := (p, n) :: t.filter (·.1 != p)

def erase (t : FileTree) (p : FilePath) : FileTree := t.filter (·.1 != p)

/-- The names in a directory. -/
def children (t : FileTree) (p : FilePath) : List String :=
  t.filterMap fun e => if e.1.dropLast = p then e.1.getLast? else none

/-- The content of a regular file. -/
def fileAt (t : FileTree) (p : FilePath) : Option String :=
  match t.get p with
  | some (.file bytes) => some bytes
  | _ => none

/-- `exists`, which follows links. -/
def exists? (t : FileTree) (p : FilePath) : Bool :=
  match t.get p with
  | some (.symlink live) => live
  | some _ => true
  | none => false

/-- `canonicalize` of a path given without links: a link on the way leads elsewhere. -/
def canonicalize (t : FileTree) (p : FilePath) : Option FilePath :=
  if (∀ k < p.length - 1, t.get (p.take (k + 1)) = some .dir) ∧
      (t.get p = some .dir ∨ (t.fileAt p).isSome) then some p
  else none

theorem get_erase_of_ne (h : p ≠ q) : (t.erase p).get q = t.get q := by
  rw [get, get, erase, List.find?_filter]
  congr 2
  funext e
  by_cases he : e.1 = q
  · simp [he, h.symm]
  · simp [he]

@[simp] theorem get_erase_self : (t.erase p).get p = none := by
  rw [get, erase, Option.map_eq_none_iff, List.find?_eq_none]
  intro e he hsame
  simp only [List.mem_filter, bne_iff_ne, ne_eq] at he
  exact he.2 (beq_iff_eq.mp hsame)

@[simp] theorem get_set_self : (t.set p n).get p = some n := by
  simp [get, set]

theorem get_set_of_ne (h : p ≠ q) : (t.set p n).get q = t.get q := by
  rw [get, set, List.find?_cons_of_neg (by simpa using h)]
  exact get_erase_of_ne h

theorem fileAt_congr (h : t'.get p = t.get p) : t'.fileAt p = t.fileAt p := by
  rw [fileAt, fileAt, h]

theorem fileAt_erase_of_ne (h : p ≠ q) : (t.erase p).fileAt q = t.fileAt q :=
  fileAt_congr (get_erase_of_ne h)

theorem fileAt_set_of_ne (h : p ≠ q) : (t.set p n).fileAt q = t.fileAt q :=
  fileAt_congr (get_set_of_ne h)

/-- A name is listed when the path below the directory exists. -/
theorem mem_children {name : String} : name ∈ t.children p ↔ t.get (p ++ [name]) ≠ none := by
  rw [children, List.mem_filterMap, get, ne_eq, Option.map_eq_none_iff, List.find?_eq_none]
  constructor
  · rintro ⟨e, he, hname⟩ hnone
    split at hname
    · rename_i hparent
      have hsplit : e.1 = p ++ [name] := by
        rw [← hparent]
        exact (List.dropLast_append_getLast? _ hname).symm
      exact hnone e he (beq_iff_eq.mpr hsplit)
    · contradiction
  · intro h
    simp only [not_forall, not_not] at h
    obtain ⟨e, he, hsame⟩ := h
    rw [beq_iff_eq] at hsame
    exact ⟨e, he, by simp [hsame]⟩

end FileTree

end MiRelay

/-- The tree that a cleanup leaves, whether it finished or was refused on the way. -/
def Except.tree : Except MiRelay.FileTree MiRelay.FileTree → MiRelay.FileTree
  | .ok t => t
  | .error t => t
