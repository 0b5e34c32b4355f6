import MiRelay.Core.Utf8
import MiRelay.Protocol

/-!
# The registry of Folders

The desktop lists its Folders in one file. Each change of the registry is tried
and validated; one that fails is undone by hand. A registry that was valid stays
so over any calls, a call that fails leaves it as it was, and the file is written
only with a registry that the closure made and the validation accepted.
-/

namespace MiRelay

/-- A part of a path. -/
inductive PathPart
  | rootDir
  | curDir
  | parentDir
  | normal (name : Bytes)
  deriving DecidableEq, Repr

/-- A path as the system has it. -/
structure PathBuf where
  bytes : Bytes
  deriving DecidableEq, Repr

namespace PathBuf

/-- `is_absolute`. -/
def isAbsolute (path : PathBuf) : Bool := path.bytes.head? == some 0x2f

/-- What a name between two separators stands for; an empty one and `.` vanish. -/
def partOf (name : Bytes) : Option PathPart :=
  if name = [] ∨ name = [0x2e] then none
  else if name = [0x2e, 0x2e] then some .parentDir
  else some (.normal name)

/-- `components`; two paths are equal if these are. -/
def components (path : PathBuf) : List PathPart :=
  let names := path.bytes.splitOn 0x2f
  let first : List PathPart :=
    if path.isAbsolute then [.rootDir] else if names.head? = some [0x2e] then [.curDir] else []
  first ++ names.filterMap partOf

end PathBuf

/-- What a Folder is shown as. -/
inductive FolderKind
  | photos
  | general
  deriving DecidableEq, Repr

structure BridgeRegistration where
  kind : FolderKind
  id : String
  name : String
  configPath : PathBuf
  autoReceive : Bool
  deriving DecidableEq, Repr

structure BridgeRegistry where
  schemaVersion : Nat
  selectedBridgeId : Option String
  bridges : List BridgeRegistration
  deriving DecidableEq, Repr

/-- Why a registry or a change of it is refused. -/
inductive RegistryError
  | schema (version : Nat)
  | size
  | invalidId
  | invalidName
  | relative (path : PathBuf)
  | dotted (path : PathBuf)
  | duplicateId (id : String)
  | duplicatePath (path : PathBuf)
  | selection (id : String)
  | missing (id : String)
  deriving DecidableEq, Repr

def bridgeRegistrySchemaVersion : Nat := 1
def maxBridges : Nat := 256
def maxRegistrySizeBytes : Nat := 1024 * 1024
def maxBridgeNameChars : Nat := 128

/-- The texts of the errors; a string is quoted, a path displayed as the standard library does. -/
def RegistryError.text (quoted : String → String) (display : PathBuf → String) :
    RegistryError → String
  | .schema version => s!"unsupported Folder registry schema version {version}; expected " ++
      toString bridgeRegistrySchemaVersion
  | .size => s!"Folder registry cannot contain more than {maxBridges} folders"
  | .invalidId => "Folder ID must contain 1-128 ASCII letters, digits, '-' or '_'"
  | .invalidName => "Folder name must be trimmed, non-empty, and at most 128 characters"
  | .relative path => "Folder configuration path must be absolute: " ++ display path
  | .dotted path => "Folder configuration path must not contain '.' or '..': " ++ display path
  | .duplicateId id => "duplicate Folder ID " ++ quoted id
  | .duplicatePath path => "multiple Folders reference configuration " ++ display path
  | .selection id => "selected Folder " ++ quoted id ++ " is not registered"
  | .missing id => "Folder " ++ quoted id ++ " is not registered"

/-- `validate_id`. -/
def validateId (id : String) : Except RegistryError Unit :=
  if id.toList.isEmpty || 128 < utf8Len id.toList || !id.toList.all isIdentityChar then .error .invalidId
  else .ok ()

/-- `validate_name`. -/
def validateName (name : String) : Except RegistryError Unit :=
  if name.toList.isEmpty || name != trim name || maxBridgeNameChars < name.toList.length ||
    name.toList.any isControl then .error .invalidName
  else .ok ()

/-- `validate_config_path`. -/
def validateConfigPath (path : PathBuf) : Except RegistryError Unit :=
  if !path.isAbsolute then .error (.relative path)
  else if path.components.any fun part => part == .curDir || part == .parentDir then
    .error (.dotted path)
  else .ok ()

/-- The loop of `validate`: the ids, where those seen before are given with their paths. -/
def validateBridges : List BridgeRegistration → List String → List (List PathPart) →
    Except RegistryError (List String)
  | [], ids, _ => .ok ids
  | bridge :: rest, ids, paths => do
    validateId bridge.id
    validateName bridge.name
    validateConfigPath bridge.configPath
    if bridge.id ∈ ids then .error (.duplicateId bridge.id)
    else if bridge.configPath.components ∈ paths then .error (.duplicatePath bridge.configPath)
    else validateBridges rest (bridge.id :: ids) (bridge.configPath.components :: paths)

/-- Change the first Folder with this id. -/
def changeFirst (id : String) (change : BridgeRegistration → BridgeRegistration) :
    List BridgeRegistration → List BridgeRegistration
  | [] => []
  | bridge :: rest =>
    if bridge.id = id then change bridge :: rest else bridge :: changeFirst id change rest

namespace BridgeRegistry

/-- The registry of a desktop without a file. -/
def empty : BridgeRegistry := ⟨bridgeRegistrySchemaVersion, none, []⟩

/-- The id is that of a Folder of the registry. -/
def Registered (registry : BridgeRegistry) (id : String) : Prop :=
  ∃ bridge ∈ registry.bridges, bridge.id = id

def validate (registry : BridgeRegistry) : Except RegistryError Unit :=
  if registry.schemaVersion ≠ bridgeRegistrySchemaVersion then
    .error (.schema registry.schemaVersion)
  else if maxBridges < registry.bridges.length then .error .size
  else do
    let ids ← validateBridges registry.bridges [] []
    match registry.selectedBridgeId with
    | some selected => if selected ∈ ids then .ok () else .error (.selection selected)
    | none => .ok ()

def add (registry : BridgeRegistry) (bridge : BridgeRegistration) :
    Except RegistryError Unit × BridgeRegistry :=
  let bridges := registry.bridges ++ [bridge]
  let changed : BridgeRegistry :=
    { registry with bridges, selectedBridgeId := bridges.getLast?.map (·.id) }
  match changed.validate with
  | .error error =>
    (.error error,
      { changed with
        bridges := changed.bridges.dropLast
        selectedBridgeId := registry.selectedBridgeId })
  | .ok _ => (.ok (), changed)

def remove (registry : BridgeRegistry) (id : String) :
    Except RegistryError BridgeRegistration × BridgeRegistry :=
  match registry.bridges.findFinIdx? (·.id == id) with
  | none => (.error (.missing id), registry)
  | some index =>
    let bridges := registry.bridges.eraseIdx index
    let changed : BridgeRegistry :=
      if registry.selectedBridgeId = some id then
        { registry with
          bridges
          selectedBridgeId := (bridges[min index.val (bridges.length - 1)]?).map (·.id) }
      else { registry with bridges }
    match changed.validate with
    | .error error => (.error error, changed)
    | .ok _ => (.ok registry.bridges[index], changed)

def rename (registry : BridgeRegistry) (id name : String) :
    Except RegistryError Unit × BridgeRegistry :=
  match validateName name with
  | .error error => (.error error, registry)
  | .ok _ =>
    match registry.bridges.find? (·.id == id) with
    | none => (.error (.missing id), registry)
    | some previous =>
      let bridges := changeFirst id ({ · with name }) registry.bridges
      let changed : BridgeRegistry := { registry with bridges }
      match changed.validate with
      | .error error =>
        (.error error,
          { changed with bridges := changeFirst id ({ · with name := previous.name }) bridges })
      | .ok _ => (.ok (), changed)

/-- The setters that change one Folder and validate nothing. -/
def setField (registry : BridgeRegistry) (id : String)
    (change : BridgeRegistration → BridgeRegistration) :
    Except RegistryError Unit × BridgeRegistry :=
  match registry.bridges.find? (·.id == id) with
  | none => (.error (.missing id), registry)
  | some _ => (.ok (), { registry with bridges := changeFirst id change registry.bridges })

def setAutoReceive (registry : BridgeRegistry) (id : String) (enabled : Bool) :
    Except RegistryError Unit × BridgeRegistry :=
  registry.setField id ({ · with autoReceive := enabled })

def setKind (registry : BridgeRegistry) (id : String) (kind : FolderKind) :
    Except RegistryError Unit × BridgeRegistry :=
  registry.setField id ({ · with kind })

def select (registry : BridgeRegistry) (id : String) :
    Except RegistryError Unit × BridgeRegistry :=
  if registry.bridges.any (·.id == id) then (.ok (), { registry with selectedBridgeId := some id })
  else (.error (.missing id), registry)

end BridgeRegistry

/-- A call that changes the registry. -/
inductive RegistryCall
  | add (bridge : BridgeRegistration)
  | remove (id : String)
  | rename (id name : String)
  | select (id : String)
  | setAutoReceive (id : String) (enabled : Bool)
  | setKind (id : String) (kind : FolderKind)

namespace BridgeRegistry

/-- The result of a call, and the registry behind it. -/
def perform (registry : BridgeRegistry) :
    RegistryCall → Except RegistryError Unit × BridgeRegistry
  | .add bridge => registry.add bridge
  | .remove id => ((registry.remove id).1.map fun _ => (), (registry.remove id).2)
  | .rename id name => registry.rename id name
  | .select id => registry.select id
  | .setAutoReceive id enabled => registry.setAutoReceive id enabled
  | .setKind id kind => registry.setKind id kind

/-- The registry after the calls. -/
def run (registry : BridgeRegistry) (calls : List RegistryCall) : BridgeRegistry :=
  calls.foldl (fun registry call => (registry.perform call).2) registry

end BridgeRegistry

/-- What stands at the path of the registry. -/
inductive RegistryFile
  | missing
  | irregular
  | regular (links : Nat) (bytes : Bytes)
  deriving DecidableEq

/-- How `atomic_write` ends; an error behind the rename comes when the file is replaced. -/
inductive WriteOutcome
  | written
  | failed (replaced : Bool)

/-- The `toml` library at the type of the registry. -/
structure TomlCodec where
  fromStr : List Char → Option BridgeRegistry
  toStringPretty : BridgeRegistry → Option (List Char)

/-- Which steps of an update the system fails. -/
structure UpdateFaults where
  lock : Bool
  inspect : Bool
  read : Bool
  write : WriteOutcome

/-- Why an update fails. -/
inductive RegistryStoreError
  | lock
  | irregular
  | links
  | inspect
  | read
  | notUtf8
  | parse
  | serialize
  | size
  | save
  | invalid (error : RegistryError)
  | closure (text : String)
  deriving DecidableEq, Repr

section Store

variable (toml : TomlCodec) (faults : UpdateFaults)

/-- `load_unlocked`. -/
def loadUnlocked (file : RegistryFile) : Except RegistryStoreError BridgeRegistry :=
  if faults.inspect then .error .inspect
  else
    match file with
    | .missing => .ok .empty
    | .irregular => .error .irregular
    | .regular links bytes =>
      if links ≠ 1 then .error .links
      else if faults.read ∨ maxRegistrySizeBytes < bytes.length then .error .read
      else
        match Utf8.decode bytes with
        | .text raw =>
          match toml.fromStr raw with
          | none => .error .parse
          | some registry =>
            match registry.validate with
            | .error error => .error (.invalid error)
            | .ok _ => .ok registry
        | _ => .error .notUtf8

/-- The text of a registry file. -/
def registryText (body : List Char) : List Char :=
  "# MiRelay Linux desktop Folder registry.\n".toList ++ body

/-- `save_unlocked`: the result, and what stands at the path behind it. -/
def saveUnlocked (file : RegistryFile) (registry : BridgeRegistry) :
    Except RegistryStoreError Unit × RegistryFile :=
  match registry.validate with
  | .error error => (.error (.invalid error), file)
  | .ok _ =>
    match toml.toStringPretty registry with
    | none => (.error .serialize, file)
    | some body =>
      let raw := Utf8.encode (registryText body)
      if maxRegistrySizeBytes < raw.length then (.error .size, file)
      else
        match faults.write with
        | .written => (.ok (), .regular 1 raw)
        | .failed replaced => (.error .save, if replaced then .regular 1 raw else file)

/-- `BridgeRegistryStore::update` with any closure. -/
def update {α : Type} (file : RegistryFile)
    (closure : BridgeRegistry → Except String α × BridgeRegistry) :
    Except RegistryStoreError α × RegistryFile :=
  if faults.lock then (.error .lock, file)
  else
    match loadUnlocked toml faults file with
    | .error error => (.error error, file)
    | .ok registry =>
      match closure registry with
      | (.error text, _) => (.error (.closure text), file)
      | (.ok value, changed) =>
        match changed.validate with
        | .error error => (.error (.invalid error), file)
        | .ok _ =>
          match saveUnlocked toml faults file changed with
          | (.error error, saved) => (.error error, saved)
          | (.ok _, saved) => (.ok value, saved)

end Store

section Folders

variable {bridges : List BridgeRegistration} {id : String}
  {change : BridgeRegistration → BridgeRegistration}

/-- A field that a change keeps is the same in every Folder. -/
theorem map_changeFirst {β : Type} (field : BridgeRegistration → β)
    (h : ∀ bridge, field (change bridge) = field bridge) :
    (changeFirst id change bridges).map field = bridges.map field := by
  induction bridges with
  | nil => rfl
  | cons bridge rest ih =>
    rw [changeFirst]
    split_ifs with hid
    · rw [List.map_cons, h, List.map_cons]
    · rw [List.map_cons, ih, List.map_cons]

/-- What a change keeps holds of every Folder behind it. -/
theorem forall_changeFirst {p : BridgeRegistration → Prop} (h : ∀ bridge, p bridge → p (change bridge))
    (hall : ∀ bridge ∈ bridges, p bridge) : ∀ bridge ∈ changeFirst id change bridges, p bridge := by
  induction bridges with
  | nil => exact hall
  | cons bridge rest ih =>
    rw [List.forall_mem_cons] at hall
    rw [changeFirst]
    split_ifs with hid
    · exact List.forall_mem_cons.mpr ⟨h bridge hall.1, hall.2⟩
    · exact List.forall_mem_cons.mpr ⟨hall.1, ih hall.2⟩

/-- A change of the Folder found is undone by one that restores that Folder. -/
theorem changeFirst_undo {restore : BridgeRegistration → BridgeRegistration}
    {previous : BridgeRegistration} (hfind : bridges.find? (·.id == id) = some previous)
    (hid : (change previous).id = previous.id) (hrestore : restore (change previous) = previous) :
    changeFirst id restore (changeFirst id change bridges) = bridges := by
  induction bridges with
  | nil => rfl
  | cons bridge rest ih =>
    rw [changeFirst]
    split_ifs with heq
    · rw [List.find?_cons_of_pos (by simpa using heq), Option.some.injEq] at hfind
      rw [hfind] at heq ⊢
      rw [changeFirst, if_pos (hid.trans heq), hrestore]
    · rw [List.find?_cons_of_neg (by simpa using heq)] at hfind
      rw [changeFirst, if_neg heq, ih hfind]

end Folders

/-- What the validation asks of a Folder. -/
structure BridgeRegistration.Valid (bridge : BridgeRegistration) : Prop where
  id : validateId bridge.id = .ok ()
  name : validateName bridge.name = .ok ()
  path : validateConfigPath bridge.configPath = .ok ()

/-- A registry that the validation accepts. -/
structure BridgeRegistry.Valid (registry : BridgeRegistry) : Prop where
  schema : registry.schemaVersion = bridgeRegistrySchemaVersion
  bounded : registry.bridges.length ≤ maxBridges
  each : ∀ bridge ∈ registry.bridges, bridge.Valid
  ids : (registry.bridges.map (·.id)).Nodup
  paths : (registry.bridges.map (·.configPath.components)).Nodup
  selection : ∀ id, registry.selectedBridgeId = some id → registry.Registered id

/-- The loop accepts valid Folders whose ids and paths are new and their own. -/
theorem validateBridges_ok {bridges : List BridgeRegistration} {ids seen : List String}
    {paths : List (List PathPart)} : validateBridges bridges ids paths = .ok seen ↔
      (∀ bridge ∈ bridges, bridge.Valid ∧ bridge.id ∉ ids ∧ bridge.configPath.components ∉ paths) ∧
      (bridges.map (·.id)).Nodup ∧ (bridges.map (·.configPath.components)).Nodup ∧
      seen = (bridges.map (·.id)).reverse ++ ids := by
  induction bridges generalizing ids paths with
  | nil => simp [validateBridges, eq_comm]
  | cons bridge rest ih =>
    rw [validateBridges]
    simp only [bind_eq_ok]
    constructor
    · rintro ⟨_, hid, _, hname, _, hpath, h⟩
      split_ifs at h with hids hpaths
      obtain ⟨hall, hnodup, hdistinct, rfl⟩ := ih.mp h
      refine ⟨List.forall_mem_cons.mpr ⟨⟨⟨hid, hname, hpath⟩, hids, hpaths⟩, fun other hmem => ?_⟩,
        ?_, ?_, by simp⟩
      · obtain ⟨hother, hnew, hown⟩ := hall other hmem
        exact ⟨hother, List.not_mem_of_not_mem_cons hnew, List.not_mem_of_not_mem_cons hown⟩
      · rw [List.map_cons, List.nodup_cons, List.mem_map]
        exact ⟨fun ⟨other, hmem, heq⟩ => (hall other hmem).2.1 (heq ▸ List.mem_cons_self), hnodup⟩
      · rw [List.map_cons, List.nodup_cons, List.mem_map]
        exact ⟨fun ⟨other, hmem, heq⟩ => (hall other hmem).2.2 (heq ▸ List.mem_cons_self), hdistinct⟩
    · rintro ⟨hall, hnodup, hdistinct, rfl⟩
      rw [List.forall_mem_cons] at hall
      obtain ⟨⟨hvalid, hids, hpaths⟩, hall⟩ := hall
      rw [List.map_cons, List.nodup_cons, List.mem_map] at hnodup hdistinct
      refine ⟨(), hvalid.id, (), hvalid.name, (), hvalid.path, ?_⟩
      rw [if_neg hids, if_neg hpaths, ih]
      refine ⟨fun other hmem => ⟨(hall other hmem).1, ?_, ?_⟩, hnodup.2, hdistinct.2, by simp⟩
      · rw [List.mem_cons, not_or]
        exact ⟨fun heq => hnodup.1 ⟨other, hmem, heq⟩, (hall other hmem).2.1⟩
      · rw [List.mem_cons, not_or]
        exact ⟨fun heq => hdistinct.1 ⟨other, hmem, heq⟩, (hall other hmem).2.2⟩

namespace BridgeRegistry

variable {registry : BridgeRegistry} {id : String}

theorem registered_iff : registry.Registered id ↔ id ∈ registry.bridges.map (·.id) := by
  simp [Registered]

/-- The validation accepts exactly the valid registries. -/
theorem validate_ok : registry.validate = .ok () ↔ registry.Valid := by
  rw [validate]
  split_ifs with hschema hsize
  · exact ⟨nofun, fun h => absurd h.schema hschema⟩
  · exact ⟨nofun, fun h => absurd h.bounded (by omega)⟩
  · rw [bind_eq_ok]
    constructor
    · rintro ⟨seen, hloop, hselection⟩
      obtain ⟨hall, hids, hpaths, rfl⟩ := validateBridges_ok.mp hloop
      refine ⟨not_not.mp hschema, by omega, fun bridge hmem => (hall bridge hmem).1, hids, hpaths,
        fun id hid => ?_⟩
      rw [hid] at hselection
      simp only at hselection
      split_ifs at hselection with hseen
      rw [registered_iff]
      simpa using hseen
    · intro h
      refine ⟨_, validateBridges_ok.mpr ⟨fun bridge hmem => ⟨h.each bridge hmem, by simp, by simp⟩,
        h.ids, h.paths, rfl⟩, ?_⟩
      cases hid : registry.selectedBridgeId with
      | none => rfl
      | some id =>
        have hmem := registered_iff.mp (h.selection id hid)
        exact if_pos (by simpa using hmem)

/-- An error of the validation is one of an invalid registry. -/
theorem not_valid_of_error {error : RegistryError} (h : registry.validate = .error error) :
    ¬ registry.Valid := by
  rw [← validate_ok, h]
  exact nofun

/-- Folders with the same ids and paths, each valid, are as good as those they replace. -/
theorem Valid.with_bridges (h : registry.Valid) {bridges : List BridgeRegistration}
    (hids : bridges.map (·.id) = registry.bridges.map (·.id))
    (hpaths : bridges.map (·.configPath.components) =
      registry.bridges.map (·.configPath.components))
    (heach : ∀ bridge ∈ bridges, bridge.Valid) : Valid { registry with bridges } := by
  have hlength := congrArg List.length hids
  rw [List.length_map, List.length_map] at hlength
  refine ⟨h.schema, hlength ▸ h.bounded, heach, hids ▸ h.ids, hpaths ▸ h.paths, fun id hid => ?_⟩
  rw [registered_iff, hids, ← registered_iff]
  exact h.selection id hid

/-- A Folder that is found is registered. -/
theorem find?_isSome : (registry.bridges.find? (·.id == id)).isSome = true ↔ registry.Registered id := by
  simp [Registered]

/-- A Folder less, and a selection among the rest. -/
theorem Valid.erase (h : registry.Valid) (index : Nat) (selected : Option String)
    (hselected : ∀ id, selected = some id →
      ∃ bridge ∈ registry.bridges.eraseIdx index, bridge.id = id) :
    Valid { registry with
      bridges := registry.bridges.eraseIdx index
      selectedBridgeId := selected } := by
  have hsub := List.eraseIdx_sublist registry.bridges index
  exact ⟨h.schema, Nat.le_trans hsub.length_le h.bounded, fun bridge hmem => h.each bridge (hsub.mem hmem),
    h.ids.sublist (hsub.map _), h.paths.sublist (hsub.map _), hselected⟩

/-- A Folder that is added is valid with the others, or the registry is as it was. -/
theorem add_cases (registry : BridgeRegistry) (bridge : BridgeRegistration) :
    ((registry.add bridge).1 = .ok () ∧ (registry.add bridge).2.Valid) ∨
      ∃ error, registry.add bridge = (.error error, registry) := by
  simp only [add]
  split
  · rename_i error _
    exact .inr ⟨error, by rw [List.dropLast_concat]⟩
  · rename_i h
    exact .inl ⟨rfl, validate_ok.mp h⟩

/-- A registered Folder is removed and the others stay. The selection moves to one of them if it
was on that Folder. -/
theorem remove_registered (h : registry.Valid) (hid : registry.Registered id) :
    ∃ removed rest, registry.remove id = (.ok removed, rest) ∧ rest.Valid ∧ removed.id = id ∧
      registry.bridges.Perm (removed :: rest.bridges) ∧
      (registry.selectedBridgeId = some id → rest.bridges ≠ [] →
        ∃ bridge ∈ rest.bridges, rest.selectedBridgeId = some bridge.id) ∧
      (registry.selectedBridgeId ≠ some id →
        rest.selectedBridgeId = registry.selectedBridgeId) := by
  cases hfind : registry.bridges.findFinIdx? (·.id == id) with
  | none =>
    obtain ⟨bridge, hmem, heq⟩ := hid
    exact absurd (beq_iff_eq.mpr heq) (List.findFinIdx?_eq_none_iff.mp hfind bridge hmem)
  | some index =>
    have hremoved : registry.bridges[index].id = id :=
      beq_iff_eq.mp (List.findFinIdx?_eq_some_iff.mp hfind).1
    have hperm : registry.bridges.Perm
        (registry.bridges[index] :: registry.bridges.eraseIdx index) :=
      (List.perm_cons_erase (List.getElem_mem index.isLt)).trans
        ((List.erase_getElem index.isLt).cons _)
    by_cases hselected : registry.selectedBridgeId = some id
    · have hvalid := h.erase index ((registry.bridges.eraseIdx index)[min index.val
          ((registry.bridges.eraseIdx index).length - 1)]?.map (·.id)) fun other hother => by
        obtain ⟨bridge, hget, heq⟩ := Option.map_eq_some_iff.mp hother
        exact ⟨bridge, List.mem_of_getElem? hget, heq⟩
      refine ⟨registry.bridges[index], _, ?_, hvalid, hremoved, hperm, fun _ hne => ?_,
        fun hne => absurd hselected hne⟩
      · simp only [remove, hfind, if_pos hselected, validate_ok.mpr hvalid]
      · have hpos := List.length_pos_iff.mpr hne
        have hlt : min index.val ((registry.bridges.eraseIdx index).length - 1) <
            (registry.bridges.eraseIdx index).length := by
          simp only at hpos
          omega
        exact ⟨_, List.getElem_mem hlt, by rw [List.getElem?_eq_getElem hlt, Option.map_some]⟩
    · have hvalid := h.erase index registry.selectedBridgeId fun other hother => by
        obtain ⟨bridge, hmem, heq⟩ := h.selection other hother
        refine ⟨bridge, ?_, heq⟩
        rcases List.mem_cons.mp (hperm.mem_iff.mp hmem) with rfl | hrest
        · exact absurd (hother.trans (congrArg some (heq.symm.trans hremoved))) hselected
        · exact hrest
      refine ⟨registry.bridges[index], _, ?_, hvalid, hremoved, hperm,
        fun heq => absurd heq hselected, fun _ => rfl⟩
      simp only [remove, hfind, if_neg hselected, validate_ok.mpr hvalid]

theorem remove_missing (hid : ¬ registry.Registered id) :
    registry.remove id = (.error (.missing id), registry) := by
  have hnone : registry.bridges.findFinIdx? (·.id == id) = none := by
    rw [List.findFinIdx?_eq_none_iff]
    intro bridge hmem heq
    exact hid ⟨bridge, hmem, by simpa using heq⟩
  rw [remove, hnone]

/-- A Folder is renamed, or the registry is as it was. -/
theorem rename_cases (registry : BridgeRegistry) (id name : String) :
    ((registry.rename id name).1 = .ok () ∧ (registry.rename id name).2.Valid) ∨
      ∃ error, registry.rename id name = (.error error, registry) := by
  simp only [rename]
  split
  · exact .inr ⟨_, rfl⟩
  · split
    · exact .inr ⟨_, rfl⟩
    · rename_i previous hfind
      split
      · rename_i error _
        exact .inr ⟨error, by rw [changeFirst_undo hfind rfl rfl]⟩
      · rename_i h
        exact .inl ⟨rfl, validate_ok.mp h⟩

/-- A setter keeps the ids and the paths. -/
theorem setField_cases (h : registry.Valid) {change : BridgeRegistration → BridgeRegistration}
    (hid : ∀ bridge, (change bridge).id = bridge.id)
    (hpath : ∀ bridge, (change bridge).configPath = bridge.configPath)
    (hname : ∀ bridge, (change bridge).name = bridge.name) :
    ((registry.setField id change).1 = .ok () ∧ (registry.setField id change).2.Valid) ∨
      ∃ error, registry.setField id change = (.error error, registry) := by
  unfold setField
  split
  · exact .inr ⟨_, rfl⟩
  · refine .inl ⟨rfl, h.with_bridges (map_changeFirst _ hid)
      (map_changeFirst _ fun bridge => congrArg PathBuf.components (hpath bridge))
      (forall_changeFirst (fun bridge hbridge => ?_) h.each)⟩
    exact ⟨(hid bridge).symm ▸ hbridge.id, (hname bridge).symm ▸ hbridge.name,
      (hpath bridge).symm ▸ hbridge.path⟩

theorem select_cases (h : registry.Valid) :
    ((registry.select id).1 = .ok () ∧ (registry.select id).2.Valid) ∨
      ∃ error, registry.select id = (.error error, registry) := by
  unfold select
  split_ifs with hany
  · refine .inl ⟨rfl, h.schema, h.bounded, h.each, h.ids, h.paths, fun other hother => ?_⟩
    obtain ⟨bridge, hmem, hid⟩ := List.any_eq_true.mp hany
    rw [Option.some.injEq] at hother
    exact ⟨bridge, hmem, (beq_iff_eq.mp hid).trans hother⟩
  · exact .inr ⟨_, rfl⟩

/-- A call succeeds with a valid registry, or leaves it as it was. -/
theorem perform_cases (h : registry.Valid) (call : RegistryCall) :
    ((registry.perform call).1 = .ok () ∧ (registry.perform call).2.Valid) ∨
      ∃ error, registry.perform call = (.error error, registry) := by
  cases call with
  | add bridge => exact add_cases registry bridge
  | remove id =>
    by_cases hid : registry.Registered id
    · obtain ⟨removed, rest, hremove, hrest, -⟩ := remove_registered h hid
      exact .inl (by simp [perform, hremove, hrest, Except.map])
    · exact .inr ⟨.missing id, by simp [perform, remove_missing hid, Except.map]⟩
  | rename id name => exact rename_cases registry id name
  | select id => exact select_cases h
  | setAutoReceive id enabled => exact setField_cases h (fun _ => rfl) (fun _ => rfl) fun _ => rfl
  | setKind id kind => exact setField_cases h (fun _ => rfl) (fun _ => rfl) fun _ => rfl

/-- Any calls leave a valid registry valid. -/
theorem Valid.run (h : registry.Valid) (calls : List RegistryCall) : (registry.run calls).Valid := by
  induction calls generalizing registry with
  | nil => exact h
  | cons call calls ih =>
    have hnext : (registry.perform call).2.Valid := by
      rcases perform_cases h call with ⟨-, hvalid⟩ | ⟨error, herror⟩
      · exact hvalid
      · rw [herror]
        exact h
    exact ih hnext

end BridgeRegistry

section Updates

variable {toml : TomlCodec} {faults : UpdateFaults} {file : RegistryFile}

/-- What is saved is valid, and its text stands at the path. -/
theorem saveUnlocked_cases (toml : TomlCodec) (faults : UpdateFaults) (file : RegistryFile)
    (registry : BridgeRegistry) :
    (∃ error, saveUnlocked toml faults file registry = (.error error, file)) ∨
      registry.validate = .ok () ∧ ∃ body, toml.toStringPretty registry = some body ∧
        (saveUnlocked toml faults file registry).2 = .regular 1 (Utf8.encode (registryText body)) := by
  unfold saveUnlocked
  split
  · exact .inl ⟨_, rfl⟩
  · rename_i hvalid
    split
    · exact .inl ⟨_, rfl⟩
    · rename_i body hbody
      simp only
      split_ifs with hsize
      · exact .inl ⟨_, rfl⟩
      · split
        · exact .inr ⟨hvalid, body, hbody, rfl⟩
        · rename_i replaced _
          cases replaced with
          | false => exact .inl ⟨_, rfl⟩
          | true => exact .inr ⟨hvalid, body, hbody, rfl⟩

/-- An update writes, and succeeds, only behind a closure that succeeds and a validation. -/
theorem update_cases {α : Type} (toml : TomlCodec) (faults : UpdateFaults) (file : RegistryFile)
    (closure : BridgeRegistry → Except String α × BridgeRegistry) :
    (∃ error, update toml faults file closure = (.error error, file)) ∨
      ∃ before value after body, loadUnlocked toml faults file = .ok before ∧
        closure before = (.ok value, after) ∧ after.validate = .ok () ∧
        toml.toStringPretty after = some body ∧
        (update toml faults file closure).2 = .regular 1 (Utf8.encode (registryText body)) := by
  unfold update
  split_ifs with hlock
  · exact .inl ⟨_, rfl⟩
  · split
    · exact .inl ⟨_, rfl⟩
    · rename_i before hload
      split
      · exact .inl ⟨_, rfl⟩
      · rename_i value after hclosure
        split
        · exact .inl ⟨_, rfl⟩
        · rename_i hvalid
          rcases saveUnlocked_cases toml faults file after with ⟨error, herror⟩ |
            ⟨-, body, hbody, hsaved⟩
          · rw [herror]
            exact .inl ⟨error, rfl⟩
          · refine .inr ⟨before, value, after, body, hload, hclosure, hvalid, hbody, ?_⟩
            rw [← hsaved]
            rcases saveUnlocked toml faults file after with ⟨_ | _, saved⟩ <;> rfl

end Updates

/-- Over any calls a valid registry stays valid, a call that fails leaves it as it was and a
selection survives the removals. An update stores what its closure made and the validation
accepted, or leaves the file. -/
theorem registry_kept {registry : BridgeRegistry} (h : registry.Valid)
    (calls : List RegistryCall) :
    (registry.run calls).Valid ∧
    (∀ call error, ((registry.run calls).perform call).1 = .error error →
      ((registry.run calls).perform call).2 = registry.run calls) ∧
    (∀ id removed rest, (registry.run calls).remove id = (.ok removed, rest) →
      removed.id = id ∧ (registry.run calls).bridges.Perm (removed :: rest.bridges) ∧
      ((registry.run calls).selectedBridgeId = some id → rest.bridges ≠ [] →
        ∃ bridge ∈ rest.bridges, rest.selectedBridgeId = some bridge.id) ∧
      ((registry.run calls).selectedBridgeId ≠ some id →
        rest.selectedBridgeId = (registry.run calls).selectedBridgeId)) ∧
    ∀ {α : Type} (toml : TomlCodec) (faults : UpdateFaults) (file : RegistryFile)
      (closure : BridgeRegistry → Except String α × BridgeRegistry),
      (update toml faults file closure).2 ≠ file ∨
        (∃ value, (update toml faults file closure).1 = .ok value) →
      ∃ before value after body, loadUnlocked toml faults file = .ok before ∧
        closure before = (.ok value, after) ∧ after.validate = .ok () ∧
        toml.toStringPretty after = some body ∧
        (update toml faults file closure).2 = .regular 1 (Utf8.encode (registryText body)) := by
  refine ⟨h.run calls, fun call error herror => ?_, fun id removed rest hremove => ?_,
    fun toml faults file closure hstored => ?_⟩
  · rcases BridgeRegistry.perform_cases (h.run calls) call with ⟨hok, -⟩ | ⟨other, hother⟩
    · rw [hok] at herror
      contradiction
    · rw [hother]
  · by_cases hid : (registry.run calls).Registered id
    · obtain ⟨_, _, hspec, -, hremoved, hperm, hmoved, hstays⟩ :=
        BridgeRegistry.remove_registered (h.run calls) hid
      rw [hspec, Prod.mk.injEq, Except.ok.injEq] at hremove
      obtain ⟨rfl, rfl⟩ := hremove
      exact ⟨hremoved, hperm, hmoved, hstays⟩
    · rw [BridgeRegistry.remove_missing hid, Prod.mk.injEq] at hremove
      exact absurd hremove.1 nofun
  · rcases update_cases toml faults file closure with ⟨error, herror⟩ | hwritten
    · rw [herror] at hstored
      rcases hstored with hne | ⟨value, hvalue⟩
      · exact absurd rfl hne
      · exact absurd hvalue nofun
    · exact hwritten

/-- Two Folders, the first one selected. -/
def twoFolders : BridgeRegistry where
  schemaVersion := 1
  selectedBridgeId := some "one"
  bridges := [⟨.general, "one", "First", ⟨"/c/one.toml".toUTF8.toList⟩, false⟩,
    ⟨.photos, "two", "Second", ⟨"/c/two.toml".toUTF8.toList⟩, true⟩]

theorem twoFolders_kept : twoFolders.Valid ∧
    (twoFolders.run [.rename "two" "Third", .remove "one", .remove "one"]).Valid ∧
    (twoFolders.run [.rename "two" "Third", .remove "one", .remove "one"]).selectedBridgeId =
      some "two" := by
  have h : twoFolders.Valid := BridgeRegistry.validate_ok.mp (by decide +kernel)
  exact ⟨h, (registry_kept h _).1, by decide +kernel⟩

end MiRelay
