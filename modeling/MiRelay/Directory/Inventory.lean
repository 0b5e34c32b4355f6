import MiRelay.Core.Separated
import MiRelay.Core.Table
import MiRelay.Protocol

/-!
# Directory inventories and their comparison

The data a directory folder exchanges: the inventory the receiver publishes, the
reported state of the versions and the comparison a sender shows before it
starts. Ordered maps are read only through lookups and counts, so they are
finite maps here.
-/

namespace MiRelay

/-- `VERSION`, the schema of a directory state. -/
def directorySchemaVersion : Nat := 1

/-- `MAX_ENTRIES`. -/
def maxEntries : Nat := 5000

/-- `MAX_FILE`, also the size bound of a reported entry. -/
def maxFile : Nat := 100 * 1024 * 1024

structure InventoryEntry where
  path : String
  sha256 : String
  size : Nat
  deriving DecidableEq, Repr

structure Inventory where
  id : String
  entries : List InventoryEntry
  deriving DecidableEq, Repr

structure InventoryUpdate where
  previousId : Option String
  inventory : Inventory
  deriving DecidableEq, Repr

/-- The paths that name a directory above the path. -/
def pathAncestors (path : String) : List String := (ancestors '/' path.toList).map String.ofList

/-- `a` names a directory in which `p` lies. -/
def IsAncestor (a p : String) : Prop := ∃ r, p.toList = a.toList ++ '/' :: r

/-- The component-wise comparison looks at exactly the ancestors. -/
theorem mem_pathAncestors {a p : String} : a ∈ pathAncestors p ↔ IsAncestor a p := by
  rw [pathAncestors, List.mem_map, IsAncestor, ← mem_ancestors]
  constructor
  · rintro ⟨b, hb, rfl⟩
    rwa [String.toList_ofList]
  · intro h
    exact ⟨a.toList, h, String.ofList_toList⟩

instance (a p : String) : Decidable (IsAncestor a p) :=
  decidable_of_iff _ mem_pathAncestors

/-- No path of the list lies below another one. -/
def noCollision (paths : List String) : Bool :=
  paths.all fun path => (pathAncestors path).all fun a => !paths.contains a

theorem noCollision_iff {paths : List String} :
    noCollision paths = true ↔ ∀ p ∈ paths, ∀ a ∈ paths, ¬IsAncestor a p := by
  simp only [noCollision, List.all_eq_true, mem_pathAncestors, Bool.not_eq_true',
    List.contains_eq_mem, decide_eq_false_iff_not]
  exact ⟨fun h p hp a ha hap => h p hp a hap ha, fun h p hp a hap ha => h p hp a ha hap⟩

/-- The checks of the entries one after the other; `paths` are those seen before. -/
def validateEntries (paths : List String) : List InventoryEntry → Result (List String)
  | [] => .ok paths
  | entry :: rest => do
    validatePath entry.path
    validateSha256 entry.sha256
    ensure (entry.size ≤ i64Max && !paths.contains entry.path)
      "Invalid or duplicate directory entry."
    validateEntries (entry.path :: paths) rest

/-- `Inventory::validate`. -/
def Inventory.validate (inventory : Inventory) : Result Unit := do
  ensureUuid inventory.id "Invalid inventory identity."
  ensure (inventory.entries.length ≤ maxEntries) "Directory exceeds 5,000 files."
  let paths ← validateEntries [] inventory.entries
  -- A file may not also be another entry's parent.
  ensure (noCollision paths) "File/directory path collision."

theorem validateEntries_ok {paths out : List String} {entries : List InventoryEntry} :
    validateEntries paths entries = .ok out ↔
      (∀ e ∈ entries, validatePath e.path = .ok () ∧ validateSha256 e.sha256 = .ok () ∧
        e.size ≤ i64Max) ∧
      (entries.map (·.path)).Nodup ∧ (∀ e ∈ entries, e.path ∉ paths) ∧
      out = (entries.map (·.path)).reverse ++ paths := by
  induction entries generalizing paths with
  | nil => simp [validateEntries, eq_comm]
  | cons e rest ih =>
    simp only [validateEntries, bind_eq_ok, ensure_eq_ok, ih, Bool.and_eq_true, decide_eq_true_eq,
      Bool.not_eq_true', List.contains_eq_mem, decide_eq_false_iff_not, List.mem_cons,
      List.map_cons, List.nodup_cons, List.mem_map, List.reverse_cons, List.append_assoc,
      List.singleton_append, forall_eq_or_imp, not_or, not_exists, not_and]
    constructor
    · rintro ⟨_, hp, _, hs, _, ⟨hsize, hnew⟩, hall, hnodup, hfree, rfl⟩
      exact ⟨⟨⟨hp, hs, hsize⟩, hall⟩, ⟨fun x hx => (hfree x hx).1, hnodup⟩,
        ⟨hnew, fun x hx => (hfree x hx).2⟩, rfl⟩
    · rintro ⟨⟨⟨hp, hs, hsize⟩, hall⟩, ⟨hne, hnodup⟩, ⟨hnew, hfree⟩, rfl⟩
      exact ⟨(), hp, (), hs, (), ⟨hsize, hnew⟩, hall, hnodup, fun x hx => ⟨hne x hx, hfree x hx⟩, rfl⟩

/-- What a valid inventory says of its entries. -/
structure Inventory.Valid (inventory : Inventory) : Prop where
  /-- The identity is a canonical UUID. -/
  id : ensureUuid inventory.id "Invalid inventory identity." = .ok ()
  /-- There are at most 5,000 entries. -/
  length : inventory.entries.length ≤ maxEntries
  /-- Every entry is acceptable by itself. -/
  entry : ∀ e ∈ inventory.entries, validatePath e.path = .ok () ∧
    validateSha256 e.sha256 = .ok () ∧ e.size ≤ i64Max
  /-- No path occurs twice. -/
  nodup : (inventory.entries.map (·.path)).Nodup
  /-- No entry lies below another one. -/
  separate : ∀ e ∈ inventory.entries, ∀ f ∈ inventory.entries, ¬IsAncestor f.path e.path

/-- The validation accepts exactly the valid inventories. -/
theorem Inventory.validate_ok {inventory : Inventory} {u : Unit} :
    inventory.validate = .ok u ↔ inventory.Valid := by
  simp only [validate, bind_eq_ok, ensure_eq_ok, validateEntries_ok, decide_eq_true_eq,
    noCollision_iff]
  constructor
  · rintro ⟨_, hid, _, hlen, _, ⟨hentry, hnodup, -, rfl⟩, hsep⟩
    refine ⟨hid, hlen, hentry, hnodup, fun e he f hf => ?_⟩
    exact hsep _ (by simpa using ⟨e, he, rfl⟩) _ (by simpa using ⟨f, hf, rfl⟩)
  · rintro ⟨hid, hlen, hentry, hnodup, hsep⟩
    refine ⟨(), hid, (), hlen, _, ⟨hentry, hnodup, by simp, rfl⟩, ?_⟩
    intro p hp a ha
    simp only [List.append_nil, List.mem_reverse, List.mem_map] at hp ha
    obtain ⟨e, he, rfl⟩ := hp
    obtain ⟨f, hf, rfl⟩ := ha
    exact hsep e he f hf

/-- Two entries of a valid inventory with one path are the same entry. -/
theorem Inventory.Valid.eq_of_path {inventory : Inventory} (h : inventory.Valid)
    {e f : InventoryEntry} (he : e ∈ inventory.entries) (hf : f ∈ inventory.entries)
    (hp : e.path = f.path) : e = f :=
  List.inj_on_of_nodup_map h.nodup he hf hp

structure Comparison where
  identical : Nat
  missing : List String
  different : List String
  destinationOnly : Nat
  deriving DecidableEq, Repr

/-- The entries by path; a later entry replaces an earlier one. -/
def entriesByPath (entries : List InventoryEntry) : Files String InventoryEntry :=
  Files.insertAll ∅ (·.path) id entries

/-- How one source entry is counted. -/
def classify (targets : Files String InventoryEntry) (result : Comparison)
    (entry : InventoryEntry) : Comparison :=
  match targets.lookup entry.path with
  | none => { result with missing := result.missing ++ [entry.path] }
  | some other =>
    if other.sha256 = entry.sha256 ∧ other.size = entry.size then
      { result with identical := result.identical + 1 }
    else { result with different := result.different ++ [entry.path] }

/-- `compare`: path and digest are the identity. -/
def compare (source receiver : Inventory) : Result Comparison := do
  source.validate
  receiver.validate
  let targets := entriesByPath receiver.entries
  let result := source.entries.foldl (classify targets) ⟨0, [], [], 0⟩
  let paths := source.entries.map (·.path)
  let destinationOnly := (targets.keys.filter fun path => !paths.contains path).length
  -- Reject file/directory collisions before confirmation or payload staging.
  let all := paths ++ targets.keys
  ensure (noCollision all)
    "Source and destination disagree about a file/directory path. Resolve this before initialization."
  return { result with destinationOnly }

structure DirectoryEntry where
  path : String
  version : Nat
  deliveryId : String
  sha256 : String
  size : Nat
  mediaType : String
  acknowledged : Bool
  conflict : Bool
  deriving DecidableEq, Repr

/-- `DirectoryEntry::delivery`. -/
def DirectoryEntry.delivery (entry : DirectoryEntry) : Delivery where
  schemaVersion := manifestSchemaVersion
  id := entry.deliveryId
  originalName := fileName entry.path
  payload := ""
  size := entry.size
  sha256 := entry.sha256
  mediaType := entry.mediaType
  createdAtUnix := none

structure DirectoryState where
  schemaVersion : Nat
  receiver : Option Inventory
  entries : List DirectoryEntry
  deriving DecidableEq, Repr

/-- The last component of a valid path is a valid file name. -/
theorem validateSingleComponent_fileName {path field : String}
    (h : validatePath path = .ok ()) : validateSingleComponent (fileName path) field = .ok () := by
  simp only [validatePath, bind_eq_ok, ensure_eq_ok, List.all_eq_true] at h
  obtain ⟨_, -, _, -, hparts⟩ := h
  cases hlast : (components path).getLast? with
  | none => exact absurd (List.getLast?_eq_none_iff.mp hlast) (List.splitOn_ne_nil _ _)
  | some part =>
    have hmem : part ∈ components path := List.mem_of_getLast? hlast
    have hslash : '/' ∉ part := notMem_of_mem_splitOn hmem
    have hvalid := hparts part hmem
    simp only [validComponent, Bool.and_eq_true, decide_eq_true_eq, Bool.not_eq_true'] at hvalid
    obtain ⟨⟨⟨⟨⟨⟨hne, hdot⟩, hdots⟩, hlen⟩, hcontrol⟩, -⟩, -⟩ := hvalid
    rw [validateSingleComponent, ensure_eq_ok, fileName, hlast, Option.getD_some,
      String.toList_ofList]
    simp [hne, hdot, hdots, hlen, hcontrol, hslash]

/-- The checks of the reported entries one after the other. -/
def validateReported (paths : List String) : List DirectoryEntry → Result Unit
  | [] => .ok ()
  | entry :: rest => do
    DirectoryVersion.validate { path := entry.path, version := entry.version }
    validateDeliveryId entry.deliveryId
    validateDeliveryMetadata entry.delivery maxFile
    ensure (!paths.contains entry.path) "Duplicate source path."
    validateReported (entry.path :: paths) rest

/-- `DirectoryState::validate`. -/
def DirectoryState.validate (state : DirectoryState) : Result Unit := do
  ensure (state.schemaVersion == directorySchemaVersion && state.entries.length ≤ maxEntries)
    "Unsupported or oversized directory state."
  (match state.receiver with
    | some inventory => inventory.validate
    | none => .ok ())
  validateReported [] state.entries

/-- The receiver's inventory once every pending version is applied. -/
def expectedEntries (receiver : Inventory) (entries : List DirectoryEntry) :
    Files String InventoryEntry :=
  (entriesByPath receiver.entries).insertAll (·.path)
    (fun e => { path := e.path, sha256 := e.sha256, size := e.size })
    (entries.filter (!·.acknowledged))

/-- `compare_remote`: include already-in-flight versions in the preview so an old pending
upload cannot later undo an apparently identical initialization baseline. -/
def compareRemote (source : Inventory) (remote : DirectoryState) : Result Comparison := do
  remote.validate
  let receiver ← (match remote.receiver with
    | some receiver => .ok receiver
    | none => .error (.message
        "Run the Linux directory receiver once to publish its inventory first."))
  compare source
    { id := receiver.id, entries := (expectedEntries receiver remote.entries).values }

end MiRelay
