import MiRelay.Client.HttpSource
import MiRelay.Core.Durable
import MiRelay.Core.Table
import MiRelay.Storage.Media

/-!
# Synchronization of a delivery-only folder

One run loads the state file, settles what the previous run left, receives the
listed deliveries and works through the wallpaper queue. What the file system,
the source and the wallpaper command answer is read from a stream of answers, so
that a run has any failures; files may change between two reads. A crash cuts a
run off between two steps and loses the state in memory.
-/

namespace MiRelay

/-- `DeliveryStatus`. -/
inductive DeliveryStatus
  | ackPending
  | acknowledged
  deriving DecidableEq, Repr

/-- `WallpaperStatus`. -/
inductive WallpaperStatus
  | pending
  | notApplicable
  | notConfigured
  | running
  | applied
  | failed
  | uncertain
  deriving DecidableEq, Repr

/-- `DeliveryRecord`. -/
structure DeliveryRecord where
  id : String
  originalName : String
  mediaType : String
  sha256 : String
  size : Nat
  storedPath : String
  deliveryStatus : DeliveryStatus
  wallpaperStatus : WallpaperStatus
  wallpaperAttempts : Nat
  deliveryError : Option String
  wallpaperError : Option String
  sourceCreatedAtUnix : Option Nat
  receivedAtUnix : Nat
  acknowledgedAtUnix : Option Nat
  importedAtUnix : Option Nat
  deriving DecidableEq, Repr

/-- `SyncPhase`. -/
inductive SyncPhase
  | downloading
  | verifying
  | confirming
  | retrying
  | applyingWallpaper
  deriving DecidableEq, Repr

/-- `WallpaperRunMode`. -/
inductive WallpaperRunMode
  | automatic
  | explicitRetry (includeUncertain : Bool)
  deriving DecidableEq, Repr

/-- What happens to a state file that is replaced. -/
inductive SaveAnswer
  | saved
  /-- Nothing was replaced. -/
  | failed (e : Error)
  /-- The file was replaced, but its directory could not be synced. -/
  | unsynced (e : Error)
  deriving DecidableEq, Repr

/-- What happens when a received file is put into the library. -/
inductive PlaceAnswer
  | created
  /-- There is a file already; reading it succeeds or fails. -/
  | present (content : Result Bytes)
  | failed (e : Error)

/-- `ApplyError`. -/
structure ApplyError where
  message : String
  uncertain : Bool
  deriving DecidableEq, Repr

/-- `ApplyOutcome`. -/
inductive ApplyOutcome
  | applied
  | notConfigured
  deriving DecidableEq, Repr

/-- What happens when the wallpaper command is run. -/
inductive CommandAnswer
  /-- It could not be started. -/
  | notStarted (message : String)
  /-- It was started and exited, or was killed after its time was over. -/
  | ran (result : Except ApplyError Unit)
  deriving DecidableEq, Repr

/-- One answer of the outside; each call reads the part that is for it. -/
structure Answer where
  opened : Result Unit
  loaded : Result Unit
  cleaned : Result Unit
  quarantined : Result Unit
  saved : SaveAnswer
  content : Result Bytes
  payload : Result Bytes
  placed : PlaceAnswer
  retryable : Bool
  acknowledged : Result Unit
  scanned : Result SourceScan
  command : CommandAnswer
  now : Nat

/-- The deliveries of an `AppState`. -/
abbrev Records : Type := Files String DeliveryRecord

/-- The state file and the state in memory. The last three fields only record what happened: the
state the run loaded, the files it read or stored, and the deliveries whose command was started
since they were last found without a command. -/
structure RunState where
  disk : Records
  memory : Records
  loaded : Records
  checked : List (String × FileInspection)
  spent : List String

/-- A folder with the answers it will receive. -/
structure Session where
  core : RunState
  answers : Nat → Answer

/-- What a run does, step by step. -/
inductive SyncStep
  /-- An answer was used up. -/
  | answered
  | load
  | update (id : String) (record : DeliveryRecord)
  /-- A candidate is found while no command is configured. -/
  | unconfigured (mode : WallpaperRunMode) (id : String) (record : DeliveryRecord)
  | persist
  | verified (path : String) (found : FileInspection)
  | received (path : String) (found : FileInspection)
  | acknowledge (id sha256 : String)
  | start (id : String) (mode : WallpaperRunMode)
  deriving DecidableEq, Repr

/-- What a step does to the states. -/
def RunState.apply (c : RunState) : SyncStep → RunState
  | .answered => c
  | .load => { c with memory := c.disk, loaded := c.disk, checked := [] }
  | .update id record => { c with memory := c.memory.insert id record }
  | .unconfigured _ id record => { c with
      memory := c.memory.insert id record, spent := c.spent.filter (· ≠ id) }
  | .persist => { c with disk := c.memory }
  | .verified path found | .received path found => { c with checked := (path, found) :: c.checked }
  | .acknowledge _ _ => c
  | .start id _ => { c with spent := id :: c.spent }

/-- What a step does to a session. -/
def Session.apply (s : Session) (e : SyncStep) : Session where
  core := s.core.apply e
  answers :=
    match e with
    | .answered => fun n => s.answers (n + 1)
    | _ => s.answers

/-- What a run reads of the configuration, and of the source's retry policy. -/
structure SyncConfig where
  directorySync : Bool
  libraryDir : String
  maxFileSizeBytes : Nat
  command : List String
  maxAttempts : Nat
  deriving DecidableEq, Repr

/-- A procedure of the receiver. -/
abbrev SyncProc : Type → Type := Proc Session.apply Error

namespace SyncProc

open Proc

/-- Use up the next answer. -/
def ask : SyncProc Answer := do
  let s ← get
  emit .answered
  return s.answers 0

/-- `StateStore::save` of the state in memory. -/
def save : SyncProc Unit := do
  match (← ask).saved with
  | .saved => emit .persist
  | .failed e => fail e
  | .unsynced e => do
    emit .persist
    fail e

/-- A record of the state in memory, which is there. -/
def record (id : String) : SyncProc DeliveryRecord := do
  match (← get).core.memory.lookup id with
  | some r => return r
  | none => fail (.message "id came from state")

/-- Change a record of the state in memory, then save the state. -/
def change (id : String) (f : DeliveryRecord → DeliveryRecord) : SyncProc Unit := do
  emit (.update id (f (← record id)))
  save

/-- `DeliverySource::acknowledge`. -/
def acknowledge (id sha256 : String) : SyncProc Unit := do
  emit (.acknowledge id sha256)
  ofExcept (← ask).acknowledged

end SyncProc

/-- `is_image_media_type`. -/
def isImageMediaType (mediaType : String) : Bool :=
  mediaType ∈ ["image/png", "image/jpeg", "image/gif", "image/webp", "image/avif"]

/-- The identities of a state, in order. -/
def Records.ids (records : Records) : List String :=
  AList.keys records |>.insertionSort fun a b => a ≤ b

section Sync

open Proc SyncProc

variable (sha256 : Bytes → String) (config : SyncConfig)

/-- `verify_recorded_file` of a record. -/
def verifyRecord (r : DeliveryRecord) : SyncProc Unit := do
  let bytes ← ofExcept (← ask).content
  ofExcept (verifyRecordedFile sha256 config.maxFileSizeBytes bytes r.size r.sha256 r.mediaType)
  emit (.verified r.storedPath (inspection sha256 bytes))

/-- `reconcile_interrupted_wallpapers`. -/
def reconcileInterruptedWallpapers : SyncProc Unit := do
  let memory := (← get).core.memory
  let interrupted := (Records.ids memory).filter fun id =>
    (memory.lookup id).any (·.wallpaperStatus == .running)
  if interrupted = [] then return ()
  else do
    interrupted.forM fun id => do
      let r ← record id
      emit (.update id { r with
        wallpaperStatus := .uncertain
        wallpaperError := some ("the previous CLI run ended while the wallpaper command was " ++
          "running; use retry --include-uncertain only if repeating it is safe") })
    save

/-- Mark a delivery as acknowledged and save the state. -/
def recordAcknowledged (id : String) (now : Option Nat) : SyncProc Unit :=
  change id fun r => { r with
    deliveryStatus := .acknowledged
    acknowledgedAtUnix := now.orElse fun _ => r.acknowledgedAtUnix
    deliveryError := none }

/-- Note why a delivery is not finished and save the state. -/
def recordDeliveryError (id : String) (e : Error) : SyncProc Unit :=
  change id fun r => { r with deliveryError := some e.text }

/-- Acknowledge a delivery whose state is saved, and record the answer. -/
def confirm (id deliveryId digest : String) : SyncProc Unit := do
  match ← attempt (acknowledge deliveryId digest) with
  | .ok () => recordAcknowledged id (some (← ask).now)
  | .error e => recordDeliveryError id e

/-- One pending acknowledgement of `reconcile_pending_acks`; the accumulator holds the identities
whose files are good and those that need a repair. -/
def reconcilePendingAck (found : List String × List String) (id : String) :
    SyncProc (List String × List String) := do
  let snapshot ← record id
  match ← attempt (verifyRecord sha256 config snapshot) with
  | .ok () =>
    confirm id snapshot.id snapshot.sha256
    return (id :: found.1, found.2)
  | .error e =>
    recordDeliveryError id e
    return (found.1, id :: found.2)

/-- `reconcile_pending_acks`. -/
def reconcilePendingAcks : SyncProc (List String × List String) := do
  let memory := (← get).core.memory
  let pending := (Records.ids memory).filter fun id =>
    (memory.lookup id).any (·.deliveryStatus == .ackPending)
  pending.foldlM (reconcilePendingAck sha256 config) ([], [])

/-- The path of a stored file. -/
def contentPath (found : FileInspection) : String :=
  config.libraryDir ++ "/" ++ String.ofList (found.sha256.toList.take 2) ++ "/" ++
    found.sha256 ++ "." ++ found.extension

/-- Put a received file into the library. -/
def place (answer : PlaceAnswer) (found : FileInspection) : SyncProc Unit := do
  match answer with
  | .created => emit (.received (contentPath config found) found)
  | .present content => do
    let existing ← ofExcept (content.bind (inspectFile sha256 config.maxFileSizeBytes))
    ofExcept (ensure (existing == found) s!"content-addressed file {contentPath config found} exists but does not match its digest")
    emit (.received (contentPath config found) found)
  | .failed e => fail e

/-- `receive`, of the payload the source opened. -/
def receive (delivery : Delivery) : SyncProc StoredAsset := do
  let a ← ask
  ofExcept (validateDeliveryMetadata delivery config.maxFileSizeBytes)
  let bytes ← ofExcept a.payload
  let found ← ofExcept (copyAndInspect sha256 config.maxFileSizeBytes (some delivery.size) bytes)
  ofExcept (ensure (found.sha256 == toAsciiLowercase delivery.sha256)
    s!"delivery {delivery.id} checksum mismatch: expected {delivery.sha256}, got {found.sha256}")
  ofExcept (ensure (found.mediaType == delivery.mediaType) s!"delivery {delivery.id} media type mismatch: manifest says {delivery.mediaType}, content is {found.mediaType}")
  place sha256 config a.placed found
  return ⟨contentPath config found, found.size, found.sha256, found.mediaType⟩

/-- `receive_delivery_with_retry`, with the attempts that are left after this one. -/
def receiveDeliveryWithRetry (delivery : Delivery) : Nat → SyncProc StoredAsset
  | 0 => receive sha256 config delivery
  | left + 1 => do
    match ← attempt (receive sha256 config delivery) with
    | .ok stored => return stored
    | .error e =>
      if (← ask).retryable then receiveDeliveryWithRetry delivery left else fail e

/-- Make sure that the file of a record is there: verify it, or receive it again. -/
def ensureStored (delivery : Delivery) (existing : DeliveryRecord) : SyncProc Unit := do
  match ← attempt (verifyRecord sha256 config existing) with
  | .ok () => pure ()
  | .error _ =>
    -- The suspect object is moved away first.
    ofExcept (← ask).quarantined
    match ← attempt (receiveDeliveryWithRetry sha256 config delivery (config.maxAttempts - 1)) with
    | .error e => do
      recordDeliveryError delivery.id e
      fail e
    | .ok stored => do
      ofExcept (← ask).cleaned
      change delivery.id fun r => { r with
        storedPath := stored.path
        size := stored.size
        sha256 := stored.sha256
        mediaType := stored.mediaType
        deliveryError := none }

/-- `process_delivery` of a delivery that has a record. -/
def processExisting (delivery : Delivery) (existing : DeliveryRecord) : SyncProc Unit := do
  ofExcept (ensure (existing.sha256 == delivery.sha256 && existing.size == delivery.size &&
    existing.mediaType == delivery.mediaType)
    "delivery id collision: stored metadata does not match the incoming delivery")
  ensureStored sha256 config delivery existing
  let snapshot ← record delivery.id
  match ← attempt (acknowledge snapshot.id snapshot.sha256) with
  | .error e => do
    recordDeliveryError delivery.id e
    fail (.message e.text)
  | .ok () =>
    if snapshot.deliveryStatus ≠ .acknowledged then do
      recordAcknowledged delivery.id (some (← ask).now)
    else if snapshot.deliveryError.isSome then recordAcknowledged delivery.id none
    else pure ()

/-- The record of a new delivery. -/
def newRecord (delivery : Delivery) (stored : StoredAsset) (now : Nat) : DeliveryRecord where
  id := delivery.id
  originalName := delivery.originalName
  mediaType := stored.mediaType
  sha256 := stored.sha256
  size := stored.size
  storedPath := stored.path
  deliveryStatus := .ackPending
  wallpaperStatus := if isImageMediaType stored.mediaType then .pending else .notApplicable
  wallpaperAttempts := 0
  deliveryError := none
  wallpaperError := none
  sourceCreatedAtUnix := delivery.createdAtUnix
  receivedAtUnix := now
  acknowledgedAtUnix := none
  importedAtUnix := none

/-- `process_delivery` of a delivery that has no record. -/
def processNew (delivery : Delivery) : SyncProc Unit := do
  let stored ← receiveDeliveryWithRetry sha256 config delivery (config.maxAttempts - 1)
  emit (.update delivery.id (newRecord delivery stored (← ask).now))
  save
  confirm delivery.id delivery.id delivery.sha256

/-- `process_delivery`. -/
def processDelivery (delivery : Delivery) : SyncProc Unit := do
  match (← get).core.memory.lookup delivery.id with
  | some existing => processExisting sha256 config delivery existing
  | none => processNew sha256 config delivery

/-- `wallpaper::apply`. -/
def applyWallpaper (mode : WallpaperRunMode) (r : DeliveryRecord) :
    SyncProc (Except ApplyError ApplyOutcome) := do
  if config.command = [] then return .ok .notConfigured
  else
    match (← ask).command with
    | .notStarted message => return .error ⟨message, false⟩
    | .ran result => do
      emit (.start r.id mode)
      return result.map fun _ => .applied

/-- Whether the queue takes a record. -/
def WallpaperRunMode.eligible (mode : WallpaperRunMode) (status : WallpaperStatus) : Bool :=
  match mode with
  | .automatic => status == .pending || status == .notConfigured
  | .explicitRetry includeUncertain =>
    status == .pending || status == .notConfigured || status == .failed ||
      (includeUncertain && status == .uncertain)

/-- One candidate of the queue with a configured command. -/
def runWallpaper (mode : WallpaperRunMode) (id : String) (snapshot : DeliveryRecord) :
    SyncProc Unit := do
  match ← attempt (verifyRecord sha256 config snapshot) with
  | .error e =>
    change id fun r => { r with
      deliveryError := some e.text, wallpaperStatus := .failed, wallpaperError := some e.text }
  | .ok () => do
    change id fun r => { r with
      deliveryError := none, wallpaperStatus := .running
      wallpaperAttempts := min (r.wallpaperAttempts + 1) (2 ^ 32 - 1), wallpaperError := none }
    match ← applyWallpaper config mode snapshot with
    | .ok .applied => do
      let now := (← ask).now
      change id fun r => { r with
        wallpaperStatus := .applied, importedAtUnix := some now, wallpaperError := none }
    | .ok .notConfigured => change id fun r => { r with wallpaperStatus := .notConfigured }
    | .error e =>
      change id fun r => { r with
        wallpaperStatus := if e.uncertain then .uncertain else .failed
        wallpaperError := some e.message }

/-- One candidate of the queue. -/
def processCandidate (mode : WallpaperRunMode) (id : String) : SyncProc Unit := do
  let snapshot ← record id
  if config.command = [] then do
    emit (.unconfigured mode id { snapshot with
      wallpaperStatus := .notConfigured, wallpaperError := none })
    save
  else runWallpaper sha256 config mode id snapshot

/-- The candidates of the queue, in the order of their deliveries. -/
def candidates (mode : WallpaperRunMode) (memory : Records) : List String :=
  let eligible := (Records.ids memory).filterMap fun id => (memory.lookup id).bind fun r =>
    if r.deliveryStatus = .acknowledged ∧ mode.eligible r.wallpaperStatus then
      some (r.sourceCreatedAtUnix.getD r.receivedAtUnix, id)
    else none
  (eligible.insertionSort fun a b => a.1 < b.1 ∨ (a.1 = b.1 ∧ a.2 ≤ b.2)).map (·.2)

/-- Older states have a wallpaper status for files that are no images. -/
def settleNonImages : SyncProc Unit := do
  let memory := (← get).core.memory
  let legacyNonImages := (Records.ids memory).filter fun id => (memory.lookup id).any fun r =>
    !isImageMediaType r.mediaType && r.wallpaperStatus != .notApplicable
  if legacyNonImages = [] then return ()
  else do
    legacyNonImages.forM fun id => do
      let r ← record id
      emit (.update id { r with
        wallpaperStatus := .notApplicable, wallpaperError := none, importedAtUnix := none })
    save

/-- `process_wallpaper_queue`. -/
def processWallpaperQueue (mode : WallpaperRunMode) : SyncProc Unit := do
  settleNonImages
  (candidates mode (← get).core.memory).forM (processCandidate sha256 config mode)

/-- Open the state of a folder that is not retired. -/
def openState : SyncProc Unit := do
  ofExcept (ensure (!config.directorySync) "This Folder uses directory sync.")
  let a ← ask
  ofExcept a.opened
  ofExcept a.loaded
  let disk := (← get).core.disk
  ofExcept (ensure (disk.entries.all fun e => e.1 == e.2.id)
    "the state maps a key to another delivery")
  emit .load

/-- `sync_once`. -/
def syncOnce : SyncProc Unit := do
  openState config
  ofExcept (← ask).cleaned
  reconcileInterruptedWallpapers
  let (handled, _) ← reconcilePendingAcks sha256 config
  let scan ← ofExcept (← ask).scanned
  scan.deliveries.forM fun delivery =>
    if delivery.id ∈ handled then pure ()
    else do
      let _ ← attempt (processDelivery sha256 config delivery)
  processWallpaperQueue sha256 config .automatic

/-- `retry_wallpapers`. -/
def retryWallpapers (includeUncertain : Bool) : SyncProc Unit := do
  openState config
  reconcileInterruptedWallpapers
  processWallpaperQueue sha256 config (.explicitRetry includeUncertain)

end Sync

end MiRelay
