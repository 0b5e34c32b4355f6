import MiRelay.Desktop.Config

/-!
# Stopping a Folder

A Folder is disconnected or exited by requests to its relay, by the state in its
configuration and by the registry. The registry has a lock, and so has an
operation on a Folder, but the configurations are also written outside the lock
of the registry; any number of windows and calls may be at work, and each may end
anywhere. What a call does under the lock of the registry is one task that loads a
configuration, saves it and writes the registry, each a step of its own.
-/

namespace MiRelay

/-- What the desktop takes as given: the URL library, the resource check against the other Folders
and their configurations, and whether a path is that of the Folder's own configuration. -/
structure DesktopRules where
  parse : String → Option Url
  unique : BridgeRegistry → Files (List PathPart) Config → Config → Option String → Bool
  owned : String → PathBuf → Bool

/-- `ExitPending`, `ExitLocalCleaned` or `Exited`. -/
def ConnectionState.isExit : ConnectionState → Bool
  | .exitPending | .exitLocalCleaned | .exited => true
  | _ => false

/-- An answer that a relay has given. -/
inductive RelayReply
  | handshake (origin : String) (info : FolderHandshake)
  | exit (origin : String) (receipt : ExitReceipt)
  deriving DecidableEq, Repr

/-- A disconnection behind its first visit to the registry. -/
structure StopRun where
  id : String
  path : PathBuf
  config : Config
  client : PairingClient
  /-- The relay has confirmed it. -/
  confirmed : Bool
  deriving DecidableEq, Repr

/-- Where an exit stands before it takes the operation lock. -/
inductive ExitRunStage
  | status
  | clean
  | revoked
  deriving DecidableEq, Repr

/-- An exit behind its visit to the registry. -/
structure ExitRun where
  id : String
  path : PathBuf
  config : Config
  client : PairingClient
  stage : ExitRunStage
  deriving DecidableEq, Repr

/-- Who holds the operation lock of a configuration. -/
inductive FolderOperation
  /-- A receive or an exit has loaded the registry, but not yet the configuration. -/
  | loading (id : String) (registry : BridgeRegistry) (run : Option ExitRun)
  | receive
  /-- An exit; its local cleanup is recorded or not. -/
  | exit (config : Config) (client : PairingClient) (cleaned : Bool)
  deriving DecidableEq, Repr

/-- What is done under the lock of the registry. -/
inductive RegistryTask
  /-- `disconnect` before its request. -/
  | stop
  /-- `disconnect` behind its request. -/
  | confirm (run : StopRun)
  /-- `run` of a clean exit. -/
  | exit
  /-- `update_bridge`. -/
  | update (name baseUrl : String) (insecure autoReceive : Bool)
  /-- The removal that `confirm_remove_bridge` asks for, for the path that its dialog shows. -/
  | remove (path : PathBuf)
  deriving DecidableEq, Repr

/-- A task at work, with the configuration it has loaded and then saved. -/
structure RegistrySection where
  task : RegistryTask
  id : String
  path : PathBuf
  config : Config
  saved : Bool
  deriving DecidableEq, Repr

/-- Every desktop of one user with the relays. -/
structure Desktop where
  relays : String → Desk
  replies : List RelayReply
  registry : BridgeRegistry
  files : Files (List PathPart) Config
  /-- The paths where a configuration has been; a new one gets a random name. -/
  used : List (List PathPart)
  lock : Option RegistrySection
  operations : Files (List PathPart) FolderOperation
  stops : List StopRun
  exits : List ExitRun
  /-- Removed Folders and the paths of their receipts. -/
  forgets : List (String × PathBuf)
  /-- Receipts of completed exits about to be deleted. -/
  deletes : List PathBuf

/-- A desktop without Folders. -/
def Desktop.initial : Desktop where
  relays _ := .initial
  replies := []
  registry := .empty
  files := ∅
  used := []
  lock := none
  operations := ∅
  stops := []
  exits := []
  forgets := []
  deletes := []

namespace RegistryTask

/-- What a task asks of the configuration it has loaded. -/
def check (rules : DesktopRules) (s : Desktop) (id : String) (path : PathBuf) (config : Config) :
    RegistryTask → Bool
  | .stop => !config.connectionState.isExit && config.isScoped rules.parse
  | .confirm run =>
    decide (run ∈ s.stops) && run.confirmed && run.id == id &&
      path.components == run.path.components && config == run.config
  | .exit => config.isScoped rules.parse && config.connectionState != .disconnected
  | .update name baseUrl insecure autoReceive =>
    let (renamed, preview) := s.registry.rename id name
    renamed.isOk && (preview.setAutoReceive id autoReceive).1.isOk &&
      config.requireConnected.isOk && (!config.directorySync || config.baseUrl == some baseUrl) &&
      ((config.setHttpServer baseUrl insecure).validate rules.parse).isOk &&
      rules.unique s.registry s.files (config.setHttpServer baseUrl insecure) (some id)
  | .remove _ => config.canRemove rules.parse

/-- What a task makes of the configuration; `none` when it does not write. -/
def next (config : Config) : RegistryTask → Option Config
  | .stop =>
    if config.connectionState = .disconnected then none
    else some { config with connectionState := .disconnectPending }
  | .confirm _ => some { config with connectionState := .disconnected }
  | .exit =>
    if config.connectionState.isCleaned then none
    else some { config with connectionState := .exitPending }
  | .update _ baseUrl insecure _ => some (config.setHttpServer baseUrl insecure)
  | .remove _ => none

/-- What a task makes of the registry. -/
def change (registry : BridgeRegistry) (id : String) : RegistryTask → Option BridgeRegistry
  | .stop | .confirm _ | .exit =>
    match registry.setAutoReceive id false with
    | (.ok _, changed) => some changed
    | (.error _, _) => none
  | .update name _ _ autoReceive =>
    match registry.rename id name with
    | (.error _, _) => none
    | (.ok _, renamed) =>
      match renamed.setAutoReceive id autoReceive with
      | (.error _, _) => none
      | (.ok _, changed) =>
        match changed.select id with
        | (.error _, _) => none
        | (.ok _, selected) => some selected
  | .remove _ =>
    match registry.remove id with
    | (.ok _, changed) => some changed
    | (.error _, _) => none

end RegistryTask

/-- One step of a relay or of one call of the desktop. -/
inductive DesktopStep
  /-- Any transaction of a relay. -/
  | relay (origin : String) (a : Transaction)
  /-- A relay reads the identity it answers a setup request with. -/
  | answerHandshake (origin id hash : String)
  /-- A relay reads the receipt it answers an exit request with. -/
  | answerExit (origin id hash : String)
  | create (path : PathBuf) (config : Config)
  | register (bridge : BridgeRegistration)
  | rename (id name : String)
  | select (id : String)
  | setKind (id : String) (kind : FolderKind)
  | setAutoReceive (id : String) (enabled : Bool)
  | enter (task : RegistryTask) (id : String)
  | save
  /-- The token is that of the dialog or of the environment. -/
  | close (token : String)
  | disconnected (run : StopRun) (answer : SetupAnswer FolderHandshake)
  | exitAnswered (run : ExitRun) (answer : SetupAnswer ExitReceipt)
  /-- An exit or a receive takes the operation lock and loads the registry. -/
  | operate (run : ExitRun)
  | receive (id : String) (path : PathBuf)
  /-- It loads the configuration. -/
  | read (path : PathBuf)
  | cleaned (path : PathBuf)
  | receipt (path : PathBuf) (answer : SetupAnswer ExitReceipt)
  | forget (id : String) (path : PathBuf)
  | delete (path : PathBuf)
  /-- A call fails, or its process ends. -/
  | abandonTask
  | abandonStop (run : StopRun)
  | abandonExit (run : ExitRun)
  | abandonOperation (path : PathBuf)
  | abandonForget (id : String) (path : PathBuf)
  | abandonDelete (path : PathBuf)
  deriving Repr

namespace Desktop

/-- The configuration at a path. -/
def file (s : Desktop) (path : PathBuf) : Option Config := s.files.lookup path.components

/-- The body of an answer is one that the relay has given. -/
def genuine {α : Type} (s : Desktop) (reply : α → RelayReply) : SetupAnswer α → Bool
  | .answered _ _ (some body) => decide (reply body ∈ s.replies)
  | _ => true

/-- `update` of the registry: only what its validation accepts is written. -/
def writeRegistry (s : Desktop) (registry : BridgeRegistry) : Option Desktop :=
  match registry.validate with
  | .ok _ => some { s with registry, lock := none }
  | .error _ => none

/-- A change of the registry that touches no configuration. -/
def changeRegistry (s : Desktop) (result : Except RegistryError Unit × BridgeRegistry) :
    Option Desktop :=
  match s.lock, result with
  | none, (.ok _, registry) => s.writeRegistry registry
  | _, _ => none

/-- `load_editable_config` of a registered Folder. -/
def load (s : Desktop) (id : String) : Option (BridgeRegistration × Config) := do
  let bridge ← s.registry.bridges.find? (·.id == id)
  let config ← s.file bridge.configPath
  return (bridge, config)

/-- What `load_registered_config` finds in the registry, whose lock it waits for. -/
def lists (s : Desktop) (id : String) (path : PathBuf) : Bool :=
  s.lock.isNone && (s.registry.bridges.find? (·.id == id)).any
    fun bridge => bridge.configPath.components == path.components

/-- Write a configuration. -/
def saveConfig (rules : DesktopRules) (s : Desktop) (path : PathBuf) (config : Config) :
    Option Desktop :=
  if (config.validate rules.parse).isOk then
    some { s with files := s.files.insert path.components config }
  else none

/-- The request of a disconnection follows unless the Folder was disconnected before. -/
def beginStop (rules : DesktopRules) (s : Desktop) (sec : RegistrySection) (token : String) :
    Desktop :=
  if sec.config.connectionState = .disconnected then s
  else
    match sec.config.server with
    | .filesystem _ => s
    | .http server =>
      match PairingClient.new rules.parse server.baseUrl token server.allowInsecureHttp with
      | .ok client => { s with stops := ⟨sec.id, sec.path, sec.config, client, false⟩ :: s.stops }
      | .error _ => s

/-- The requests of an exit follow. -/
def beginExit (rules : DesktopRules) (s : Desktop) (sec : RegistrySection) (token : String) :
    Desktop :=
  match sec.config.server with
  | .filesystem _ => s
  | .http server =>
    match PairingClient.new rules.parse server.baseUrl token server.allowInsecureHttp with
    | .ok client => { s with exits := ⟨sec.id, sec.path, sec.config, client, .status⟩ :: s.exits }
    | .error _ => s

/-- What follows a task when the registry is written. -/
def follow (rules : DesktopRules) (s : Desktop) (sec : RegistrySection) (token : String) :
    Desktop :=
  match sec.task with
  | .stop => s.beginStop rules sec token
  | .exit => s.beginExit rules sec token
  | .confirm run => { s with stops := s.stops.erase run }
  | .remove path => { s with forgets := (sec.id, path) :: s.forgets }
  | .update .. => s

/-- Which paths have been used is decided by their parts. -/
instance : LawfulBEq (List PathPart) := inferInstance

/-- The steps of the relays and of the registry by itself. -/
def performOutside (maxFileSize : Nat) (rules : DesktopRules) (s : Desktop) :
    DesktopStep → Option Desktop
  | .relay origin a =>
    ((s.relays origin).perform maxFileSize a).map fun desk =>
      { s with relays := fun o => if o = origin then desk else s.relays o }
  | .answerHandshake origin id hash =>
    match (s.relays origin).db.identity maxFileSize id hash with
    | .ok info => some { s with replies := .handshake origin info :: s.replies }
    | .error _ => none
  | .answerExit origin id hash =>
    match (s.relays origin).db.identity maxFileSize id hash with
    | .ok info =>
      let status := (s.relays origin).db.exitStatus id info.role
      some { s with replies := .exit origin ⟨protocolVersion, status⟩ :: s.replies }
    | .error _ => none
  | .create path config =>
    if path.components ∉ s.used ∧ config.connectionState = .connected then
      (s.saveConfig rules path config).map fun t => { t with used := path.components :: t.used }
    else none
  | .register bridge => s.changeRegistry (s.registry.add bridge)
  | .rename id name => s.changeRegistry (s.registry.rename id name)
  | .select id => s.changeRegistry (s.registry.select id)
  | .setKind id kind => s.changeRegistry (s.registry.setKind id kind)
  | .setAutoReceive id enabled => s.changeRegistry (s.registry.setAutoReceive id enabled)
  | _ => none

/-- The steps of a task under the lock of the registry. -/
def performTask (rules : DesktopRules) (s : Desktop) : DesktopStep → Option Desktop
  | .enter task id =>
    match s.lock, s.load id with
    | none, some (bridge, config) =>
      if task.check rules s id bridge.configPath config then
        some { s with lock := some ⟨task, id, bridge.configPath, config, false⟩ }
      else none
    | _, _ => none
  | .save =>
    match s.lock with
    | some sec =>
      if sec.saved then none
      else
        match sec.task.next sec.config with
        | none => some { s with lock := some { sec with saved := true } }
        | some config =>
          (s.saveConfig rules sec.path config).map fun t =>
            { t with lock := some { sec with config, saved := true } }
    | none => none
  | .close token =>
    match s.lock with
    | some sec =>
      if sec.saved then
        match sec.task.change s.registry sec.id with
        | some registry => (s.writeRegistry registry).map fun t => t.follow rules sec token
        | none => none
      else none
    | none => none
  | .abandonTask => some { s with lock := none }
  | _ => none

/-- The steps of a disconnection and of an exit behind their visit to the registry. -/
def performRun (rules : DesktopRules) (s : Desktop) : DesktopStep → Option Desktop
  | .disconnected run answer =>
    if run ∈ s.stops ∧ s.genuine (.handshake run.client.base.origin) answer ∧
        (run.client.disconnect answer).isOk then
      some { s with stops := { run with confirmed := true } :: s.stops.erase run }
    else none
  | .exitAnswered run answer =>
    if run ∈ s.exits ∧ s.genuine (.exit run.client.base.origin) answer ∧ run.stage ≠ .revoked then
      match run.client.exitRequest (run.stage == .clean) answer with
      | .ok status =>
        if status.role = "receiver" then
          let stage := if run.stage = .status then .clean else .revoked
          some { s with exits := { run with stage } :: s.exits.erase run }
        else none
      | .error _ => none
    else none
  | .operate run =>
    if run ∈ s.exits ∧ run.stage = .revoked ∧ s.operations.lookup run.path.components = none ∧
        s.lists run.id run.path then
      some { s with
        exits := s.exits.erase run
        operations := s.operations.insert run.path.components
          (.loading run.id s.registry (some run)) }
    else none
  | .receive id path =>
    if s.operations.lookup path.components = none ∧ s.lists id path then
      some { s with
        operations := s.operations.insert path.components (.loading id s.registry none) }
    else none
  | .read path =>
    match s.operations.lookup path.components, s.file path with
    | some (.loading id registry run), some config =>
      if rules.unique registry s.files config (some id) then
        match run with
        | none =>
          if config.requireConnected.isOk then
            some { s with operations := s.operations.insert path.components .receive }
          else none
        | some run =>
          if config = run.config then
            some { s with
              operations := s.operations.insert path.components
                (.exit config run.client config.connectionState.isCleaned) }
          else none
      else none
    | _, _ => none
  | .cleaned path =>
    match s.operations.lookup path.components with
    | some (.exit config client false) =>
      let config := { config with connectionState := .exitLocalCleaned }
      (s.saveConfig rules path config).map fun t =>
        { t with operations := t.operations.insert path.components (.exit config client true) }
    | _ => none
  | .receipt path answer =>
    match s.operations.lookup path.components with
    | some (.exit config client true) =>
      if s.genuine (.exit client.base.origin) answer then
        match client.exitRequest true answer with
        | .ok status =>
          let t := { s with operations := s.operations.erase path.components }
          if status.receiverCleaned ∧ status.role = "receiver" then
            if status.complete then
              t.saveConfig rules path { config with connectionState := .exited }
            else some t
          else none
        | .error _ => none
      else none
    | _ => none
  | .forget id path =>
    -- `forget_receipt` deletes the configuration of a completed exit only.
    match s.file path with
    | some config =>
      if (id, path) ∈ s.forgets ∧ config.connectionState = .exited ∧ rules.owned id path then
        some { s with forgets := s.forgets.erase (id, path), deletes := path :: s.deletes }
      else none
    | none => none
  | .delete path =>
    if path ∈ s.deletes then
      some { s with files := s.files.erase path.components, deletes := s.deletes.erase path }
    else none
  | .abandonStop run => some { s with stops := s.stops.erase run }
  | .abandonExit run => some { s with exits := s.exits.erase run }
  | .abandonOperation path => some { s with operations := s.operations.erase path.components }
  | .abandonForget id path => some { s with forgets := s.forgets.erase (id, path) }
  | .abandonDelete path => some { s with deletes := s.deletes.erase path }
  | _ => none

/-- One step; `none` is a refusal. -/
def perform (maxFileSize : Nat) (rules : DesktopRules) (s : Desktop) (a : DesktopStep) :
    Option Desktop :=
  s.performOutside maxFileSize rules a <|> s.performTask rules a <|> s.performRun rules a

end Desktop

end MiRelay
