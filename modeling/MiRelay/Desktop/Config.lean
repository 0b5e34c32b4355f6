import MiRelay.Client.Pairing
import MiRelay.Client.Retries
import MiRelay.Desktop.Registry
import MiRelay.Exit.Parties

/-!
# The configuration of a Folder

The desktop keeps one configuration file for each Folder. It is written and read
only through the same validation; the address of a Folder with credentials of its
own is recognised by its path. What the URL library finds in a text and where a
path leads are parameters.
-/

namespace MiRelay

def configSchemaVersion : Nat := 1
def defaultMaxFileSizeBytes : Nat := 100 * 1024 * 1024
def maxWallpaperTimeoutSeconds : Nat := 60 * 60
def defaultHttpTokenEnv : String := "MIRELAY_TOKEN"
def defaultWallpaperTimeoutSeconds : Nat := 30
def defaultHttpRequestTimeoutSeconds : Nat := 120
def defaultHttpPageSize : Nat := 50
def defaultHttpRetryMaxAttempts : Nat := 3
def defaultHttpRetryBaseDelayMilliseconds : Nat := 250
def defaultHttpRetryMaxDelayMilliseconds : Nat := 5000
def maxHttpPageSize : Nat := 100

/-- `ServerConfig::Http`. -/
structure HttpConfig where
  baseUrl : String
  tokenEnv : String
  requestTimeoutSeconds : Nat
  pageSize : Nat
  retryMaxAttempts : Nat
  retryBaseDelayMilliseconds : Nat
  retryMaxDelayMilliseconds : Nat
  allowInsecureHttp : Bool
  deriving DecidableEq, Repr

/-- The source of a Folder. -/
inductive SourceConfig
  | filesystem (inboxDir : PathBuf)
  | http (server : HttpConfig)
  deriving DecidableEq, Repr

structure StorageConfig where
  libraryDir : PathBuf
  stateFile : PathBuf
  deriving DecidableEq, Repr

structure WallpaperConfig where
  command : List String
  timeoutSeconds : Nat
  deriving DecidableEq, Repr

structure Config where
  schemaVersion : Nat
  connectionState : ConnectionState
  directorySync : Bool
  deviceId : String
  server : SourceConfig
  storage : StorageConfig
  wallpaper : WallpaperConfig
  maxFileSizeBytes : Nat
  deriving DecidableEq, Repr

/-- An ASCII letter, digit or `_`. -/
def isVariableChar (c : Char) : Bool := c.isAlphanum || c == '_'

/-- `validate_wallpaper_command`. -/
def validateWallpaperCommand : List String → Result Unit
  | [] => .ok ()
  | executable :: arguments => do
    let placeholder := "\x7bpath\x7d"
    ensure (trim executable != "") "wallpaper.command executable must not be empty"
    ensure (!occursIn placeholder executable)
      "wallpaper.command executable cannot contain \x7bpath\x7d"
    ensure (arguments.contains placeholder)
      "wallpaper.command must contain a standalone \x7bpath\x7d argument"
    ensure (!arguments.any fun part => occursIn placeholder part && part != placeholder)
      "\x7bpath\x7d must be a standalone wallpaper.command argument"

section Validation

variable (parse : String → Option Url)

/-- `validate_http_server`. -/
def validateHttpServer (server : HttpConfig) : Result Unit := do
  ensure (utf8Len server.baseUrl.toList ≤ 2048 && !server.baseUrl.toList.any isControl)
    "server.base_url is too long or contains control characters"
  match parse server.baseUrl with
  | none => .error (.message "server.base_url is not a valid URL")
  | some url => do
    ensure url.host.isSome "server.base_url must include a host"
    ensure (url.scheme == "https" || url.scheme != "http" || server.allowInsecureHttp)
      ("plain HTTP is disabled; use HTTPS or explicitly set allow_insecure_http = true for " ++
        "local development")
    ensure (url.scheme == "https" || url.scheme == "http")
      s!"unsupported server URL scheme {url.scheme.quote}; expected https"
    ensure (url.username == "" && url.password.isNone)
      "server.base_url must not contain credentials"
    ensure (url.query.isNone && url.fragment.isNone)
      "server.base_url must not contain a query string or fragment"
    ensure (server.tokenEnv != "" && utf8Len server.tokenEnv.toList ≤ 128 &&
      server.tokenEnv.toList.all isVariableChar)
      "server.token_env must be a valid environment variable name"
    ensure (server.requestTimeoutSeconds != 0 && server.requestTimeoutSeconds ≤ 60 * 60)
      "server.request_timeout_seconds must be between 1 and 3600"
    ensure (server.pageSize != 0 && server.pageSize ≤ maxHttpPageSize)
      s!"server.page_size must be between 1 and {maxHttpPageSize}"
    ensure (server.retryMaxAttempts != 0 && server.retryMaxAttempts ≤ maxHttpRetryAttempts)
      s!"server.retry_max_attempts must be between 1 and {maxHttpRetryAttempts}"
    ensure (server.retryBaseDelayMilliseconds != 0 &&
      server.retryBaseDelayMilliseconds ≤ maxHttpRetryDelayMilliseconds)
      ("server.retry_base_delay_milliseconds must be between 1 and " ++
        toString maxHttpRetryDelayMilliseconds)
    ensure (server.retryBaseDelayMilliseconds ≤ server.retryMaxDelayMilliseconds &&
      server.retryMaxDelayMilliseconds ≤ maxHttpRetryDelayMilliseconds)
      ("server.retry_max_delay_milliseconds must be between " ++
        "server.retry_base_delay_milliseconds and " ++ toString maxHttpRetryDelayMilliseconds)

/-- The last name of `/f/<Folder ID>`, slashes behind it aside. -/
def folderScope (path : String) : Option String :=
  let trimmed := (path.toList.reverse.dropWhile (· == '/')).reverse
  if "/f/".toList.isPrefixOf trimmed then some (String.ofList (trimmed.drop 3)) else none

namespace Config

/-- What directory synchronisation asks of a configuration. -/
def validateDirectory (config : Config) : Result Unit :=
  match config.server with
  | .filesystem _ => .error (.message "Directory sync requires a paired HTTP Folder.")
  | .http server =>
    match parse server.baseUrl with
    | none => .error (.message "relative URL without a base")
    | some url => do
      ensure ((folderScope url.path).any isCanonicalUuid)
        "Directory sync requires a scoped /f/<Folder ID> URL."
      ensure config.wallpaper.command.isEmpty "Directory sync does not run wallpaper commands."
      ensure (config.maxFileSizeBytes == defaultMaxFileSizeBytes)
        "Directory sync currently requires the 100 MiB file limit."

/-- The part of `validate` about the source. -/
def validateServer (config : Config) : Result Unit :=
  match config.server with
  | .filesystem inboxDir => do
    ensure (!inboxDir.bytes.isEmpty) "server.inbox_dir must not be empty"
    ensure inboxDir.isAbsolute "server.inbox_dir must be an absolute path"
  | .http server => validateHttpServer parse server

/-- `validate`. -/
def validate (config : Config) : Result Unit := do
  ensure (config.schemaVersion == configSchemaVersion)
    (s!"unsupported config schema version {config.schemaVersion}; expected " ++
      toString configSchemaVersion)
  ensure (config.deviceId != "" && utf8Len config.deviceId.toList ≤ 128 &&
    config.deviceId.toList.all isIdentityChar)
    "device_id must contain 1-128 ASCII letters, digits, '-' or '_'"
  config.validateServer parse
  if config.directorySync then config.validateDirectory parse else .ok ()
  ensure (!config.storage.libraryDir.bytes.isEmpty) "storage.library_dir must not be empty"
  ensure config.storage.libraryDir.isAbsolute "storage.library_dir must be an absolute path"
  ensure (!config.storage.stateFile.bytes.isEmpty) "storage.state_file must not be empty"
  ensure config.storage.stateFile.isAbsolute "storage.state_file must be an absolute path"
  ensure (config.maxFileSizeBytes != 0) "limits.max_file_size_bytes must be greater than zero"
  validateWallpaperCommand config.wallpaper.command
  ensure (config.wallpaper.timeoutSeconds != 0)
    "wallpaper.timeout_seconds must be greater than zero"
  ensure (config.wallpaper.timeoutSeconds ≤ maxWallpaperTimeoutSeconds)
    s!"wallpaper.timeout_seconds must not exceed {maxWallpaperTimeoutSeconds}"

/-- The URL that a Folder over HTTP is configured with. -/
def baseUrl (config : Config) : Option String :=
  match config.server with
  | .http server => some server.baseUrl
  | .filesystem _ => none

/-- `scoped`: the Folder has credentials of its own. -/
def isScoped (config : Config) : Bool :=
  (config.baseUrl.bind parse).any fun url => occursIn "/f/" url.path

/-- `can_remove`. -/
def canRemove (config : Config) : Bool :=
  !config.isScoped parse || config.connectionState == .disconnected ||
    config.connectionState == .exited

end Config

end Validation

namespace Config

/-- `require_connected`. -/
def requireConnected (config : Config) : Result Unit :=
  ensure (config.connectionState == .connected)
    ("This Folder is disconnected or awaiting disconnection. Retry disconnect in Folder " ++
      "settings; create a new Folder to reconnect.")

/-- `set_http_server`. -/
def setHttpServer (config : Config) (baseUrl : String) (allowInsecureHttp : Bool) : Config :=
  match config.server with
  | .http server => { config with server := .http { server with baseUrl, allowInsecureHttp } }
  | .filesystem _ =>
    let server : HttpConfig :=
      { baseUrl, allowInsecureHttp
        tokenEnv := defaultHttpTokenEnv
        requestTimeoutSeconds := defaultHttpRequestTimeoutSeconds
        pageSize := defaultHttpPageSize
        retryMaxAttempts := defaultHttpRetryMaxAttempts
        retryBaseDelayMilliseconds := defaultHttpRetryBaseDelayMilliseconds
        retryMaxDelayMilliseconds := defaultHttpRetryMaxDelayMilliseconds }
    { config with server := .http server }

/-- `Config::defaults`, with a random device and the directories it has settled on. -/
def defaults (deviceId : String) (inboxDir libraryDir stateFile : PathBuf) : Config where
  schemaVersion := configSchemaVersion
  connectionState := .connected
  directorySync := false
  deviceId
  server := .filesystem inboxDir
  storage := ⟨libraryDir, stateFile⟩
  wallpaper := ⟨[], defaultWallpaperTimeoutSeconds⟩
  maxFileSizeBytes := defaultMaxFileSizeBytes

theorem requireConnected_isOk {config : Config} :
    config.requireConnected.isOk = true ↔ config.connectionState = .connected := by
  cases hstate : config.connectionState <;> simp [requireConnected, hstate, ensure] <;> rfl

@[simp] theorem setHttpServer_connectionState {config : Config} {url : String} {insecure : Bool} :
    (config.setHttpServer url insecure).connectionState = config.connectionState := by
  unfold setHttpServer
  split <;> rfl

@[simp] theorem setHttpServer_baseUrl {config : Config} {url : String} {insecure : Bool} :
    (config.setHttpServer url insecure).baseUrl = some url := by
  unfold setHttpServer
  split <;> rfl

end Config

end MiRelay
