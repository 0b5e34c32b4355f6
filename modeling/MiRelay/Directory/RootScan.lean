import Mathlib
import MiRelay.Directory.Compare
import MiRelay.Directory.Root

/-!
# The scan of a synchronized directory

`Root::inventory` walks the whole directory, skips what the receiver keeps for
itself and refuses everything that could not be reproduced elsewhere: links,
special files, names that are no text, paths that are not portable, trees that
are too deep or too large. The walk is described twice, by the entries it meets
one after the other and by the positions that lie below the root.
-/

namespace MiRelay

/-- The names in a directory, in the order in which it lists them. -/
def FileSystem.children (fs : FileSystem) (place : Position) : List EntryName :=
  fs.nodes.keys.filterMap fun p => if p.dropLast = place then p.getLast? else none

/-- A name is listed if something stands under it. -/
theorem FileSystem.mem_children {fs : FileSystem} {place : Position} {name : EntryName} :
    name ∈ fs.children place ↔ fs.kind (place ++ [name]) ≠ none := by
  rw [children, List.mem_filterMap, kind, ne_eq, AList.lookup_eq_none, not_not]
  constructor
  · rintro ⟨p, hp, h⟩
    split at h
    · rename_i hparent
      rw [← hparent, List.dropLast_append_getLast? _ h]
      exact AList.mem_keys.mp hp
    · contradiction
  · intro h
    exact ⟨place ++ [name], AList.mem_keys.mpr h, by simp⟩

/-- The entries found so far, and `ScanBudget` without its clock. -/
structure ScanState where
  entries : List InventoryEntry
  nodes : Nat

section Scan

variable (sha256 : Bytes → String) (fs : FileSystem)

/-- `digest` of a regular file. -/
def digestOf (bytes : Bytes) : Result (String × Nat) := do
  ensure (bytes.length ≤ maxFile) "File exceeds directory scan limit."
  return (sha256 bytes, bytes.length)

/-- One entry of a directory: `descend` scans a directory below. -/
def scanEntry (descend : Position → String → ScanState → Result ScanState) (place : Position)
    (lead : String) (st : ScanState) (name : EntryName) : Result ScanState := do
  ensure (0 < st.nodes) "Directory scan budget exceeded; no partial inventory was accepted."
  let st := { st with nodes := st.nodes - 1 }
  match name with
  | .raw _ => .error (.message "Directory filenames must be UTF-8.")
  | .text name =>
    if reserved name.toList then return st
    let path := lead ++ name
    validatePath path
    match fs.kind (place ++ [.text name]) with
    | some .directory => do
      ensure ((components path).length ≤ 16) "Directory nesting exceeds 16 levels."
      descend (place ++ [.text name]) (path ++ "/") st
    | some (.file bytes) => do
      ensure (st.entries.length < maxEntries)
        "Symlink, special file or excessive directory entries."
      let (sha256, size) ← digestOf sha256 bytes
      return { st with entries := st.entries ++ [⟨path, sha256, size⟩] }
    | _ => .error (.message "Symlink, special file or excessive directory entries.")

/-- `scan`, entering directories so many levels down; no directory is entered below the last
one. -/
def scan : Nat → Position → String → ScanState → Result ScanState
  | 0, place, lead, st =>
    (fs.children place).foldlM
      (scanEntry sha256 fs (fun _ _ _ => .error (.message "Directory nesting exceeds 16 levels."))
        place lead) st
  | levels + 1, place, lead, st =>
    (fs.children place).foldlM (scanEntry sha256 fs (scan levels) place lead) st

/-- `serde_json`'s text of a character in a string. -/
def jsonChar (c : Char) : List Char :=
  match c.toNat with
  | 8 => "\\b".toList
  | 9 => "\\t".toList
  | 10 => "\\n".toList
  | 12 => "\\f".toList
  | 13 => "\\r".toList
  | 34 => "\\\"".toList
  | 92 => "\\\\".toList
  | n =>
    if n < 32 then "\\u00".toList ++ [Nat.digitChar (n / 16), Nat.digitChar (n % 16)] else [c]

/-- `serde_json`'s text of a string. -/
def jsonText (s : String) : List Char := "\"".toList ++ s.toList.flatMap jsonChar ++ "\"".toList

/-- `serde_json::to_vec` of the entries. -/
def entriesJson (entries : List InventoryEntry) : List Char :=
  "[".toList ++ List.intercalate [','] (entries.map fun e =>
    "\x7b\"path\":".toList ++ jsonText e.path ++ ",\"sha256\":".toList ++ jsonText e.sha256 ++
      ",\"size\":".toList ++ Nat.toDigits 10 e.size ++ "\x7d".toList) ++ "]".toList

/-- The identity of an inventory: the first half of the digest of its entries. -/
def inventoryId (entries : List InventoryEntry) : String :=
  String.ofList (hyphenate
    ((sha256 (String.ofList (entriesJson entries)).toUTF8.toList).toList.take 32))

/-- `Root::inventory`. -/
def Root.inventory (root : Root) : Result Inventory := do
  let st ← scan sha256 fs 16 root.place "" ⟨[], maxEntries * 2⟩
  let entries := st.entries.insertionSort fun a b => a.path ≤ b.path
  -- Stable identity: unchanged inventory does not invalidate a preview.
  let inventory : Inventory := { id := inventoryId sha256 entries, entries }
  inventory.validate
  return inventory

end Scan

/-! ### The entries the scan meets -/

/-- An entry that the scan meets: its name, its position, and the path of its directory with a
separator behind it. -/
structure Visit where
  lead : String
  name : EntryName
  place : Position

section Visits

variable (sha256 : Bytes → String) (fs : FileSystem)

/-- The scan accepts what it met: text, and either reserved, or a directory not too deep or a
regular file not too large under a portable path. -/
def Visit.Good (v : Visit) : Prop :=
  match v.name with
  | .raw _ => False
  | .text name => reserved name.toList = true ∨ (validatePath (v.lead ++ name) = .ok () ∧
      match fs.kind v.place with
      | some .directory => (components (v.lead ++ name)).length ≤ 16
      | some (.file bytes) => bytes.length ≤ maxFile
      | _ => False)

/-- The inventory entry of a regular file that the scan met. -/
def Visit.entry (v : Visit) : Option InventoryEntry :=
  match v.name with
  | .raw _ => none
  | .text name =>
    if reserved name.toList then none
    else match fs.kind v.place with
      | some (.file bytes) => some ⟨v.lead ++ name, sha256 bytes, bytes.length⟩
      | _ => none

/-- A part of the scan that meets exactly these entries. -/
def Scans (p : ScanState → Result ScanState) (vs : List Visit) : Prop :=
  ∀ st st', st.entries.length ≤ maxEntries → (p st = .ok st' ↔
    (∀ v ∈ vs, v.Good fs) ∧ vs.length ≤ st.nodes ∧
      st.entries.length + (vs.filterMap (Visit.entry sha256 fs)).length ≤ maxEntries ∧
      st' = ⟨st.entries ++ vs.filterMap (Visit.entry sha256 fs), st.nodes - vs.length⟩)

variable {sha256 fs} {p q : ScanState → Result ScanState} {vs ws : List Visit}

theorem Scans.nil : Scans sha256 fs pure [] := by
  intro st st' hst
  show Except.ok st = _ ↔ _
  simp [hst, @eq_comm _ st]

/-- One part of the scan after the other. -/
theorem Scans.append (hp : Scans sha256 fs p vs) (hq : Scans sha256 fs q ws) :
    Scans sha256 fs (fun st => p st >>= q) (vs ++ ws) := by
  intro st st' hst
  rw [bind_eq_ok]
  simp only [List.filterMap_append, List.length_append, List.mem_append, or_imp, forall_and]
  constructor
  · rintro ⟨mid, hmid, hend⟩
    obtain ⟨hgood, hnodes, hfiles, rfl⟩ := (hp st mid hst).mp hmid
    obtain ⟨hgood', hnodes', hfiles', rfl⟩ :=
      (hq _ _ (by simpa only [List.length_append] using hfiles)).mp hend
    simp only [List.length_append] at hfiles' hnodes'
    refine ⟨⟨hgood, hgood'⟩, by omega, by omega, ?_⟩
    simp only [List.append_assoc, ScanState.mk.injEq, true_and]
    omega
  · rintro ⟨⟨hgood, hgood'⟩, hnodes, hfiles, rfl⟩
    refine ⟨_, (hp st _ hst).mpr ⟨hgood, by omega, by omega, rfl⟩, ?_⟩
    refine (hq _ _ ?_).mpr ⟨hgood', ?_, ?_, ?_⟩
    · simp only [List.length_append]
      omega
    · show ws.length ≤ st.nodes - vs.length
      omega
    · simp only [List.length_append]
      omega
    · simp only [List.append_assoc, ScanState.mk.injEq, true_and]
      omega

/-- A loop whose bodies each meet their entries. -/
theorem Scans.foldlM {names : List EntryName} {body : ScanState → EntryName → Result ScanState}
    {met : EntryName → List Visit} (h : ∀ name ∈ names, Scans sha256 fs (body · name) (met name)) :
    Scans sha256 fs (fun st => names.foldlM body st) (names.flatMap met) := by
  induction names with
  | nil => exact .nil
  | cons name rest ih =>
    rw [List.flatMap_cons]
    exact (h name (List.mem_cons_self ..)).append
      (ih fun other hother => h other (List.mem_cons_of_mem _ hother))

/-- A name that is text and not reserved. -/
def EntryName.isOpen : EntryName → Bool
  | .text name => !reserved name.toList
  | .raw _ => false

end Visits

/-! ### The identity -/

/-- Where a letter stands in a word. -/
def positions (c : Char) (cs : List Char) : List Nat :=
  (List.range cs.length).filter fun i => cs[i]? == some c

section Inventory

variable {sha256 : Bytes → String} {fs : FileSystem} {root : Root}

end Inventory

end MiRelay
