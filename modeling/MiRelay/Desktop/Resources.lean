import MiRelay.Desktop.Tree

/-!
# Resources of the desktop folders

A folder is registered when no other folder uses its library, its state or its
inbox. The rules compare the paths of two folders in both directions.
-/

namespace MiRelay

/-- Where a folder receives from; a base URL is compared in its normal form. -/
inductive ServerConfig
  | filesystem (inboxDir : FilePath)
  | http (endpoint : String)
  deriving DecidableEq, Repr

/-- The part of `Config` that names resources, its paths resolved. -/
structure FolderConfig where
  deviceId : String
  libraryDir : FilePath
  stateFile : FilePath
  directorySync : Bool
  server : ServerConfig
  deriving DecidableEq, Repr

/-- A text is appended to the last component. -/
def appendName (p : FilePath) (suffix : String) : FilePath :=
  p.dropLast ++ [p.getLastD "" ++ suffix]

/-- `directory_state_dir`. -/
def directoryStateDir (config : FolderConfig) : FilePath := appendName config.stateFile ".directory"

structure BridgeResources where
  libraryDir : FilePath
  stateFile : FilePath
  deviceId : String
  directoryState : Option FilePath
  filesystemInbox : Option FilePath
  httpEndpoint : Option String
  deriving DecidableEq, Repr

/-- `BridgeResources::from_config`. -/
def BridgeResources.fromConfig (config : FolderConfig) : BridgeResources where
  libraryDir := config.libraryDir
  stateFile := config.stateFile
  deviceId := config.deviceId
  directoryState := if config.directorySync then some (directoryStateDir config) else none
  filesystemInbox := match config.server with
    | .filesystem inbox => some inbox
    | .http _ => none
  httpEndpoint := match config.server with
    | .http endpoint => some endpoint
    | .filesystem _ => none

/-- `paths_overlap`; `starts_with` compares whole components. -/
def pathsOverlap (left right : FilePath) : Bool :=
  left == right || right.isPrefixOf left || left.isPrefixOf right

/-- The problems that are reported, each with what its text shows. -/
inductive ResourceProblem
  | stateOverlapsLibrary
  | stateFileInLibrary (state : FilePath)
  | libraryOverlapsInbox (library inbox : FilePath)
  | stateFileInInbox (state : FilePath)
  | directoryStateOverlaps
  | librariesOverlap (left right : FilePath)
  | sharedStateFile (state : FilePath)
  | stateFileInOtherLibrary
  | sharedDeviceId (id : String)
  | sharedQueue (endpoint : String)
  | inboxesOverlap (left right : FilePath)
  | inboxOverlapsLibrary
  | stateFileInOtherInbox
  deriving DecidableEq, Repr

/-- `self_resource_problem`. -/
def selfResourceProblem (r : BridgeResources) : Option ResourceProblem :=
  if r.directoryState.any (pathsOverlap · r.libraryDir) then some .stateOverlapsLibrary
  else if r.libraryDir.isPrefixOf r.stateFile then some (.stateFileInLibrary r.stateFile)
  else match r.filesystemInbox with
    | none => none
    | some inbox =>
      if pathsOverlap r.libraryDir inbox then some (.libraryOverlapsInbox r.libraryDir inbox)
      else if inbox.isPrefixOf r.stateFile then some (.stateFileInInbox r.stateFile)
      else none

/-- The directory state of one folder overlaps resources of another. -/
def directoryStateProblem (owner other : BridgeResources) : Bool :=
  owner.directoryState.any fun state =>
    pathsOverlap state other.libraryDir || state.isPrefixOf other.stateFile ||
      other.directoryState.any (pathsOverlap state) ||
      other.filesystemInbox.any (pathsOverlap state)

/-- `resource_problem`. -/
def resourceProblem (left right : BridgeResources) : Option ResourceProblem :=
  if directoryStateProblem left right || directoryStateProblem right left then
    some .directoryStateOverlaps
  else if pathsOverlap left.libraryDir right.libraryDir then
    some (.librariesOverlap left.libraryDir right.libraryDir)
  else if left.stateFile = right.stateFile then some (.sharedStateFile left.stateFile)
  else if right.libraryDir.isPrefixOf left.stateFile || left.libraryDir.isPrefixOf right.stateFile then
    some .stateFileInOtherLibrary
  else if left.deviceId = right.deviceId then some (.sharedDeviceId left.deviceId)
  else if left.httpEndpoint.isSome ∧ left.httpEndpoint = right.httpEndpoint then
    some (.sharedQueue (left.httpEndpoint.getD ""))
  else match left.filesystemInbox, right.filesystemInbox with
    | some l, some r =>
      if pathsOverlap l r then some (.inboxesOverlap l r)
      else inboxProblem left right
    | _, _ => inboxProblem left right
where
  inboxProblem (left right : BridgeResources) : Option ResourceProblem :=
    if left.filesystemInbox.any (pathsOverlap · right.libraryDir) ||
        right.filesystemInbox.any (pathsOverlap · left.libraryDir) then
      some .inboxOverlapsLibrary
    else if left.filesystemInbox.any (·.isPrefixOf right.stateFile) ||
        right.filesystemInbox.any (·.isPrefixOf left.stateFile) then
      some .stateFileInOtherInbox
    else none

/-- A registered folder with the configuration its file holds. -/
structure Bridge where
  id : String
  configPath : FilePath
  config : FolderConfig
  deriving DecidableEq, Repr

/-- Why a configuration is refused, with the folder it conflicts with. -/
inductive ResourceConflict
  | own (problem : ResourceProblem)
  | folder (id : String) (problem : ResourceProblem)
  deriving DecidableEq, Repr

/-- `ensure_resources_unique`. -/
def ensureResourcesUnique (registry : List Bridge) (candidate : BridgeResources)
    (exceptId : Option String) : Except ResourceConflict Unit :=
  match selfResourceProblem candidate with
  | some problem => .error (.own problem)
  | none =>
    (registry.filter fun b => some b.id != exceptId).forM fun b =>
      match resourceProblem candidate (.fromConfig b.config) with
      | some problem => .error (.folder b.id problem)
      | none => .ok ()

/-- The registries that come about by adding, changing and removing folders. -/
inductive Accepted : List Bridge → Prop
  | nil : Accepted []
  | add {registry : List Bridge} (b : Bridge) (h : Accepted registry)
      (hid : ∀ other ∈ registry, other.id ≠ b.id)
      (hunique : ensureResourcesUnique registry (.fromConfig b.config) none = .ok ()) :
      Accepted (registry ++ [b])
  | change {registry : List Bridge} (b : Bridge) (h : Accepted registry)
      (hunique : ensureResourcesUnique registry (.fromConfig b.config) (some b.id) = .ok ()) :
      Accepted (registry.map fun other => if other.id = b.id then b else other)
  | remove {registry : List Bridge} (id : String) (h : Accepted registry) :
      Accepted (registry.filter fun b => b.id != id)

/-- No resource of a folder holds the state file of another. -/
structure StateApart (holder other : BridgeResources) : Prop where
  library : ¬holder.libraryDir <+: other.stateFile
  inbox : ∀ inbox, holder.filesystemInbox = some inbox → ¬inbox <+: other.stateFile
  directory : ∀ state, holder.directoryState = some state → ¬state <+: other.stateFile

theorem stateApart_of_none {left right : BridgeResources} (h : resourceProblem left right = none) :
    StateApart left right ∧ StateApart right left := by
  unfold resourceProblem at h
  split at h
  · contradiction
  · rename_i hdirectory
    split at h
    · contradiction
    · split at h
      · contradiction
      · split at h
        · contradiction
        · rename_i hlibrary
          split at h
          · contradiction
          · split at h
            · contradiction
            · have hinbox : resourceProblem.inboxProblem left right = none := by
                split at h
                · split at h
                  · contradiction
                  · exact h
                · exact h
              unfold resourceProblem.inboxProblem at hinbox
              split at hinbox
              · contradiction
              · split at hinbox
                · contradiction
                · rename_i hstate
                  simp only [Bool.or_eq_true, not_or, directoryStateProblem, Option.any_eq_true,
                    List.isPrefixOf_iff_prefix, not_exists, not_and] at hdirectory hlibrary hstate
                  exact ⟨⟨hlibrary.2, hstate.1, fun state hs => (hdirectory.1 state hs).1.1.2⟩,
                    ⟨hlibrary.1, hstate.2, fun state hs => (hdirectory.2 state hs).1.1.2⟩⟩

theorem forM_ok {α ε : Type} {f : α → Except ε Unit} {l : List α} (h : l.forM f = .ok ()) :
    ∀ a ∈ l, f a = .ok () := by
  induction l with
  | nil => exact fun a ha => absurd ha List.not_mem_nil
  | cons a l ih =>
    have h : (f a >>= fun _ => l.forM f) = .ok () := h
    cases hfa : f a with
    | error e =>
      rw [hfa] at h
      cases h
    | ok u =>
      rw [hfa] at h
      intro b hb
      rcases List.mem_cons.mp hb with rfl | hb
      · exact hfa
      · exact ih h b hb

theorem resourceProblem_of_unique {registry : List Bridge} {candidate : BridgeResources}
    {exceptId : Option String} (h : ensureResourcesUnique registry candidate exceptId = .ok ())
    {b : Bridge} (hb : b ∈ registry) (hid : some b.id ≠ exceptId) :
    resourceProblem candidate (.fromConfig b.config) = none := by
  unfold ensureResourcesUnique at h
  split at h
  · contradiction
  · have hchecked := forM_ok h b (List.mem_filter.mpr ⟨hb, bne_iff_ne.mpr hid⟩)
    split at hchecked
    · contradiction
    · assumption

/-- No two registered folders hold the state files of each other. -/
theorem Accepted.apart {registry : List Bridge} (h : Accepted registry) :
    ∀ x ∈ registry, ∀ y ∈ registry, x.id ≠ y.id →
      StateApart (.fromConfig x.config) (.fromConfig y.config) := by
  induction h with
  | nil => exact fun x hx => absurd hx List.not_mem_nil
  | add b _ _ hunique ih =>
    intro x hx y hy hne
    rw [List.mem_append, List.mem_singleton] at hx hy
    rcases hx with hx | rfl <;> rcases hy with hy | rfl
    · exact ih x hx y hy hne
    · exact (stateApart_of_none (resourceProblem_of_unique hunique hx (by simp))).2
    · exact (stateApart_of_none (resourceProblem_of_unique hunique hy (by simp))).1
    · exact absurd rfl hne
  | change b _ hunique ih =>
    intro x hx y hy hne
    simp only [List.mem_map] at hx hy
    obtain ⟨x', hx', rfl⟩ := hx
    obtain ⟨y', hy', rfl⟩ := hy
    by_cases hxb : x'.id = b.id <;> by_cases hyb : y'.id = b.id <;>
      simp only [hxb, hyb, if_true, if_false] at hne ⊢
    · exact absurd rfl hne
    · exact (stateApart_of_none (resourceProblem_of_unique hunique hy' (by simpa using hyb))).1
    · exact (stateApart_of_none (resourceProblem_of_unique hunique hx' (by simpa using hxb))).2
    · exact ih x' hx' y' hy' hne
  | remove id _ ih =>
    intro x hx y hy hne
    exact ih x (List.mem_filter.mp hx).1 y (List.mem_filter.mp hy).1 hne

end MiRelay
