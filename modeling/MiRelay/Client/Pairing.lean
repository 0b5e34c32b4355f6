import MiRelay.Server.ExitRows

/-!
# The client of the setup requests

The desktop and the Android library send the setup requests of a folder through
one client. It takes no answer on trust: each is read under a limit and checked
against the folder of the URL, the role and the state that the request asked for.
An answer that fails a check is an error, and no request is repeated.
-/

namespace MiRelay

/-- What `reqwest::Url::parse` finds in a URL. -/
structure Url where
  /-- Scheme, host and port. -/
  origin : String
  scheme : String
  host : Option String
  username : String
  password : Option String
  path : String
  query : Option String
  fragment : Option String
  deriving DecidableEq, Repr

/-- A base address ends with a slash. -/
def Url.withSlash (url : Url) : Url :=
  { url with path := if "/".toList.isSuffixOf url.path.toList then url.path else url.path ++ "/" }

/-- A base address is that of a folder. -/
def Url.names (url : Url) (id : String) : Bool :=
  ("/f/" ++ id ++ "/").toList.isSuffixOf url.path.toList

/-- What comes back for a request: nothing, a body cut short, or one with its length, decoded. -/
inductive SetupAnswer (α : Type)
  | unreachable
  | incomplete (status : Nat)
  | answered (status : Nat) (length : Nat) (body : Option α)
  deriving Repr

/-- `FolderCreated`. -/
structure FolderCreated where
  folderId : String
  receiverToken : String
  pairingCode : String
  expiresAtUnix : Nat
  deriving DecidableEq, Repr

/-- `FolderInvitation`. -/
structure FolderInvitation where
  pairingCode : String
  expiresAtUnix : Nat
  deriving DecidableEq, Repr

/-- `FolderExitStatus` as it is sent. -/
structure ExitReceipt where
  schemaVersion : Nat
  status : FolderExitStatus
  deriving DecidableEq, Repr

/-- The base address and the credential of a client. -/
structure PairingClient where
  base : Url
  token : String
  deriving DecidableEq, Repr

/-- `is_ascii_graphic`. -/
def isAsciiGraphic (c : Char) : Bool := 0x21 ≤ c.toNat && c.toNat ≤ 0x7e

/-- A text occurs in another. -/
def occursIn (part text : String) : Bool := text.toList.tails.any (part.toList.isPrefixOf ·)

/-- `Uuid::parse_str(id).is_ok_and(|v| v.to_string() == id)`. -/
def isCanonicalUuid (id : String) : Bool := (ensureUuid id "").isOk

/-- The limit of a setup response. -/
def maxSetupBody : Nat := 16 * 1024

/-- What a status other than success is reported as. -/
def setupFailure (status : Nat) : String :=
  match status with
  | 401 => "Credential or pairing code is invalid, expired, or already used by another device."
  | 403 => "This credential does not have the required Folder permission."
  | 404 => "This server does not support Folder pairing, or the Folder address is incorrect."
  | 409 => "Folder state changed or needs confirmation. Refresh before retrying."
  | 410 => "This Folder has been disconnected. Create a new Folder to reconnect."
  | 426 => "Server and app protocol versions are incompatible."
  | _ => "The server could not complete setup. No automatic retry was made."

/-- Any status of success goes on. -/
def requireSuccess (status : Nat) : Result Unit :=
  ensure (200 ≤ status && status ≤ 299) (setupFailure status)

/-- `request`. -/
def SetupAnswer.receive {α : Type} : SetupAnswer α → Result α
  | .unreachable => .error (.message ("Connection failed. Check the server address, trusted " ++
      "HTTPS certificate and network, then retry."))
  | .incomplete status => do
    requireSuccess status
    .error (.message "Incomplete setup response.")
  | .answered status length body => do
    requireSuccess status
    ensure (length ≤ maxSetupBody) "Setup response is too large."
    match body with
    | some value => .ok value
    | none => .error (.message "Invalid setup response from server.")

/-- `validate_code`; the folder a pairing code is for. -/
def validateCode (code : String) : Result String :=
  match splitOnce code with
  | none => .error (.message "Paste the full pairing code from Linux.")
  | some (id, secret) => do
    ensure (isCanonicalUuid id && isSecret secret) "Invalid pairing code."
    return id

/-- The comparison code a state comes with. -/
def verificationFits (verification : Option String) (state : String) : Bool :=
  match verification with
  | none => state == "awaiting_peer" || state == "disconnected"
  | some v => (state == "ready" || state == "awaiting_confirmation") &&
    utf8Len v.toList == 12 && v.toList.all isHex

/-- `validate_handshake`. -/
def validateHandshake (info : FolderHandshake) : Result Unit :=
  ensure (info.schemaVersion == protocolVersion && isCanonicalUuid info.folderId &&
    (info.role == "receiver" || info.role == "sender") &&
    ["ready", "awaiting_peer", "awaiting_confirmation", "disconnected"].contains info.state &&
    trim info.name != "" && utf8Len info.name.toList ≤ 128 && !info.name.toList.any isControl &&
    0 < info.maxFileSizeBytes && verificationFits info.verification info.state)
    "Invalid Folder handshake."

namespace PairingClient

/-- `PairingClient::new` over a parser of URLs. -/
def new (parse : String → Option Url) (base token : String) (insecure : Bool) :
    Result PairingClient := do
  ensure (utf8Len base.toList ≤ 2048) "Server URL is too long."
  match parse base with
  | none => .error (.message "Invalid server URL.")
  | some url => do
    ensure (url.host.isSome && url.username == "" && url.password.isNone && url.query.isNone &&
      url.fragment.isNone) "Use a server URL without credentials, query or fragment."
    ensure (url.scheme == "https" || (insecure && url.scheme == "http")) "HTTPS is required."
    ensure (token != "" && utf8Len token.toList ≤ 4096 && token.toList.all isAsciiGraphic)
      "Enter a valid credential."
    return ⟨url.withSlash, token⟩

/-- `create_folder`; the name it sends is trimmed. -/
def createFolder (name : String) (answer : SetupAnswer FolderCreated) : Result FolderCreated := do
  ensure (trim name != "" && utf8Len name.toList ≤ 128 && !name.toList.any isControl)
    "Enter a Folder name (up to 128 bytes)."
  let created ← answer.receive
  let _ ← validateCode created.pairingCode
  ensure ((created.folderId ++ ".").toList.isPrefixOf created.pairingCode.toList &&
    isSecret created.receiverToken) "Invalid Folder credentials from server."
  return created

/-- `claim`. -/
def claim (code senderToken : String) (answer : SetupAnswer FolderHandshake) :
    Result FolderHandshake := do
  let id ← validateCode code
  ensure (isSecret senderToken) "Invalid sender credential."
  let info ← answer.receive
  validateHandshake info
  ensure (info.folderId == id && info.role == "sender")
    "Server returned a different Folder identity or permission."
  return info

/-- `handshake`. -/
def handshake (c : PairingClient) (answer : SetupAnswer FolderHandshake) :
    Result FolderHandshake := do
  let info ← answer.receive
  validateHandshake info
  ensure (c.base.names info.folderId) "Server returned a different Folder identity."
  return info

/-- `confirm`. -/
def confirm (c : PairingClient) (answer : SetupAnswer FolderHandshake) :
    Result FolderHandshake := do
  let info ← answer.receive
  validateHandshake info
  ensure (info.state == "ready" && info.role == "receiver" && c.base.names info.folderId)
    "Pairing was not confirmed for this receiver."
  return info

/-- `renew`. -/
def renew (c : PairingClient) (answer : SetupAnswer FolderInvitation) :
    Result FolderInvitation := do
  let invite ← answer.receive
  let id ← validateCode invite.pairingCode
  ensure (c.base.names id) "Server returned a different Folder invitation."
  return invite

/-- `disconnect`. -/
def disconnect (c : PairingClient) (answer : SetupAnswer FolderHandshake) :
    Result FolderHandshake := do
  let info ← answer.receive
  validateHandshake info
  ensure (info.state == "disconnected" && c.base.names info.folderId)
    ("Server did not confirm disconnection of this Folder. Keep the credential and retry.")
  return info

/-- `exit_request`; `clean_exit` and `acknowledge_exit` are mutations. -/
def exitRequest (c : PairingClient) (mutation : Bool) (answer : SetupAnswer ExitReceipt) :
    Result FolderExitStatus := do
  let ⟨schemaVersion, info⟩ ← answer.receive
  ensure (schemaVersion == protocolVersion && isCanonicalUuid info.folderId &&
    c.base.names info.folderId && (info.role == "sender" || info.role == "receiver") &&
    (info.requested || !(info.serverCleaned || info.senderCleaned || info.receiverCleaned)) &&
    (!mutation || (info.requested && info.serverCleaned)))
    "Invalid exit receipt. Keep this Folder and retry; the relay may need an update."
  return info

variable {c : PairingClient}

theorem receive_ok {α : Type} {answer : SetupAnswer α} {value : α}
    (h : answer.receive = .ok value) :
    ∃ status length, answer = .answered status length (some value) := by
  cases answer with
  | unreachable => contradiction
  | incomplete status =>
    simp only [SetupAnswer.receive, bind_eq_ok, reduceCtorEq, and_false, exists_false] at h
  | answered status length body =>
    simp only [SetupAnswer.receive, bind_eq_ok] at h
    obtain ⟨-, -, -, -, h⟩ := h
    cases body with
    | none => contradiction
    | some value' =>
      cases Except.ok.inj h
      exact ⟨status, length, rfl⟩

/-- A client speaks to the address that it was made for. -/
theorem new_ok {parse : String → Option Url} {base token : String} {insecure : Bool}
    (h : new parse base token insecure = .ok c) :
    ∃ url, parse base = some url ∧ c.base = url.withSlash := by
  simp only [new, bind_eq_ok] at h
  obtain ⟨-, -, h⟩ := h
  cases hparse : parse base with
  | none =>
    rw [hparse] at h
    contradiction
  | some url =>
    simp only [hparse, bind_eq_ok, pure_eq_ok] at h
    obtain ⟨-, -, -, -, -, -, rfl⟩ := h
    exact ⟨url, rfl, rfl⟩

/-- A disconnection is confirmed by an answer about the folder of the URL alone. -/
theorem disconnect_ok {answer : SetupAnswer FolderHandshake} {info : FolderHandshake}
    (h : c.disconnect answer = .ok info) :
    answer.receive = .ok info ∧ info.state = "disconnected" ∧
      c.base.names info.folderId = true := by
  simp only [disconnect, bind_eq_ok, ensure_eq_ok, pure_eq_ok, Bool.and_eq_true, beq_iff_eq] at h
  obtain ⟨info', hreceive, -, -, -, hstate, rfl⟩ := h
  exact ⟨hreceive, hstate.1, hstate.2⟩

/-- A confirmed exit is about the folder of the URL, and a mutation has taken effect. -/
theorem exitRequest_ok {mutation : Bool} {answer : SetupAnswer ExitReceipt}
    {info : FolderExitStatus} (h : c.exitRequest mutation answer = .ok info) :
    ∃ version, answer.receive = .ok ⟨version, info⟩ ∧ c.base.names info.folderId = true ∧
      (mutation = true → info.requested = true ∧ info.serverCleaned = true) := by
  simp only [exitRequest, bind_eq_ok, ensure_eq_ok, pure_eq_ok, Bool.and_eq_true] at h
  obtain ⟨⟨version, info'⟩, hreceive, -, ⟨⟨⟨⟨-, hnames⟩, -⟩, -⟩, hmutation⟩, rfl⟩ := h
  refine ⟨version, hreceive, hnames, fun hm => ?_⟩
  simpa [hm] using hmutation

end PairingClient

end MiRelay
