import MiRelay.Desktop.Resources
import MiRelay.Protocol

/-!
# Local cleanup of a desktop folder

`clean_local` checks that the folder was created by the app, retires its state
so that nothing starts on it again, and removes the state file and the
directory state beside it, whether or not the folder uses directory sync.
-/

namespace MiRelay

structure DesktopPaths where
  bridgeConfigDir : FilePath
  bridgeDataDir : FilePath
  deriving DecidableEq, Repr

/-- `file_stem`: the name up to its last dot, if that is not its first character. -/
def fileStem (name : String) : String :=
  match (name.toList.reverse.span (· != '.')).2 with
  | _ :: c :: rest => String.ofList (c :: rest).reverse
  | _ => name

/-- `with_extension`. -/
def withExtension (p : FilePath) (extension : String) : FilePath :=
  p.dropLast ++ [fileStem (p.getLastD "") ++ "." ++ extension]

/-- State locks and retirement markers survive the cleanup. -/
def keptName (name : String) : Bool :=
  ".lock".toList.isSuffixOf name.toList || name == "retired.json" ||
    ".retired".toList.isSuffixOf name.toList

/-- A check that leaves the tree. -/
def ensureTree (condition : Bool) (t : FileTree) : Except FileTree FileTree :=
  if condition then .ok t else .error t

/-- `lock_exclusive`: the lock file is created when it is missing. -/
def lockExclusive (io : FilePath → Bool) (path : FilePath) (t : FileTree) :
    Except FileTree FileTree :=
  let lock := appendName path ".lock"
  if io lock = false ∨ t.get lock.dropLast ≠ some .dir then .error t
  else match t.get lock with
    | none => .ok (t.set lock (.file ""))
    | some (.file _) => .ok t
    | some _ => .error t

/-- `atomic_write` into a directory that is there. -/
def atomicWrite (io : FilePath → Bool) (path : FilePath) (bytes : String) (t : FileTree) :
    Except FileTree FileTree :=
  if io path = false ∨ t.get path.dropLast ≠ some .dir ∨ t.get path = some .dir then .error t
  else .ok (t.set path (.file bytes))

/-- `remove_owned_tree` with the levels that are left; a path whose operation fails ends it. -/
def removeOwnedTree (io : FilePath → Bool) : Nat → FilePath → FileTree → Except FileTree FileTree
  | 0, _, t => .error t
  | n + 1, path, t =>
    match t.get path with
    | none => .ok t
    | some (.symlink _) => .error t
    | some .dir => do
      let t ← (t.children path).foldlM (fun t name => removeOwnedTree io n (path ++ [name]) t) t
      if t.children path = [] then
        if io path then .ok (t.erase path) else .error t
      else .ok t
    | some (.file _) =>
      if keptName (path.getLastD "") then .ok t
      else if io path then .ok (t.erase path) else .error t

/-- The depth is at most 8. -/
def cleanupLevels : Nat := 9

/-- The part of `clean_local` for a directory state that exists. -/
def retireDirectory (io : FilePath → Bool) (directory : FilePath) (t : FileTree) :
    Except FileTree FileTree :=
  if t.exists? directory then do
    let t ← ensureTree (t.canonicalize directory == some directory) t
    let t ← lockExclusive io (directory ++ ["receiver.json"]) t
    let t ← lockExclusive io (directory ++ ["sender.json"]) t
    atomicWrite io (directory ++ ["retired.json"]) "\x7b\"retired\":true\x7d" t
  else .ok t

/-- `clean_local`. -/
def cleanLocal (io : FilePath → Bool) (paths : DesktopPaths) (id : String) (configPath : FilePath)
    (config : FolderConfig) (t : FileTree) : Except FileTree FileTree := do
  let owned := paths.bridgeDataDir ++ [id]
  let t ← ensureTree (ensureUuid id "Invalid local Folder identity").isOk t
  let t ← ensureTree (configPath == paths.bridgeConfigDir ++ [id ++ ".toml"] &&
    config.stateFile == owned ++ ["state.json"]) t
  let t ← ensureTree (t.canonicalize owned == some owned) t
  let t ← ensureTree ((t.canonicalize config.libraryDir).any fun library =>
    !owned.isPrefixOf library && !library.isPrefixOf owned) t
  let t ← lockExclusive io config.stateFile t
  let directory := directoryStateDir config
  let t ← retireDirectory io directory t
  let t ← atomicWrite io (withExtension config.stateFile "json.retired") "\x7b\"retired\":true\x7d" t
  let t ← removeOwnedTree io cleanupLevels directory t
  removeOwnedTree io cleanupLevels config.stateFile t

end MiRelay
