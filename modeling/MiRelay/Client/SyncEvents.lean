import MiRelay.Client.Sync

/-!
# A synchronization with file events

The same run with the `FileProgress` of the file it works on and the events that
this emits. Every event is recorded with the state that was durably saved last
before it. Without these steps the run is the one of `syncOnce`.
-/

namespace MiRelay

/-- `SyncEvent`. -/
inductive SyncEvent
  | fileActive (id originalName mediaType : String) (size : Nat) (phase : SyncPhase)
  | fileSettled (id : String) (record : Option DeliveryRecord) (error : Option String)
  deriving DecidableEq, Repr

/-- `FileProgress`. -/
structure FileProgress where
  id : String
  originalName : String
  mediaType : String
  size : Nat
  record : Option DeliveryRecord
  active : Bool
  deriving DecidableEq, Repr

/-- `for_delivery`. -/
def FileProgress.forDelivery (delivery : Delivery) (record : Option DeliveryRecord) :
    FileProgress where
  id := delivery.id
  originalName := delivery.originalName
  mediaType := delivery.mediaType
  size := delivery.size
  record
  active := false

/-- `for_record`. -/
def FileProgress.forRecord (record : DeliveryRecord) : FileProgress where
  id := record.id
  originalName := record.originalName
  mediaType := record.mediaType
  size := record.size
  record := some record
  active := false

/-- An event with the state saved last before it. -/
structure Emitted where
  saved : Records
  ahead : Bool
  event : SyncEvent

/-- A session with the progress of the file that is worked on. -/
structure EventSession where
  session : Session
  /-- The last state that was durably saved. -/
  saved : Records
  progress : Option FileProgress
  /-- The progress started with another record than the saved one, and has saved none since. -/
  ahead : Bool
  /-- The events, the last one first. -/
  events : List Emitted

/-- A run starts from the state file. -/
def EventSession.start (s : Session) : EventSession :=
  { session := s, saved := s.core.disk, progress := none, ahead := false, events := [] }

/-- What a run with events does, step by step. -/
inductive EventStep
  | run (e : SyncStep)
  /-- A save was successful. -/
  | saved
  | begin (progress : FileProgress)
  | phase (phase : SyncPhase)
  /-- The progress takes over the saved record. -/
  | keep
  | settle (error : Option String)
  deriving DecidableEq, Repr

/-- What a step does to a session. -/
def EventSession.apply (s : EventSession) : EventStep → EventSession
  | .run e => { s with session := s.session.apply e }
  | .saved => { s with saved := s.session.core.memory }
  | .begin progress => { s with
      progress := some progress
      ahead := decide (progress.record ≠ s.saved.lookup progress.id) }
  | .phase phase =>
    match s.progress with
    | some p => { s with
        progress := some { p with active := true }
        events := ⟨s.saved, s.ahead,
          .fileActive p.id p.originalName p.mediaType p.size phase⟩ :: s.events }
    | none => s
  | .keep => { s with
      progress := s.progress.map fun p =>
        { p with record := s.session.core.memory.lookup p.id }
      ahead := false }
  | .settle error =>
    match s.progress with
    | some p => { s with
        progress := none
        events :=
          if p.active ∨ error.isSome then
            ⟨s.saved, s.ahead, .fileSettled p.id p.record error⟩ :: s.events
          else s.events }
    | none => s

/-- A procedure of the receiver that emits events. -/
abbrev EventProc : Type → Type := Proc EventSession.apply Error

namespace EventProc

open Proc

/-- A part of the run that emits no events. -/
def within {α : Type} (p : SyncProc α) : EventProc α := fun s =>
  ⟨(p s.session).events.map .run, (p s.session).result⟩

/-- `StateStore::save` of the state in memory. -/
def save : EventProc Unit := do
  match (← within SyncProc.ask).saved with
  | .saved => do
    emit (.run .persist)
    emit .saved
  | .failed e => fail e
  | .unsynced e => do
    emit (.run .persist)
    fail e

/-- `FileProgress::save`. -/
def progressSave : EventProc Unit := do
  save
  emit .keep

/-- Change a record of the state in memory, then save the state. -/
def change (id : String) (f : DeliveryRecord → DeliveryRecord) : EventProc Unit := do
  emit (.run (.update id (f (← within (SyncProc.record id)))))
  progressSave

/-- `FileProgress::phase`, under a condition. -/
def phaseIf (c : Prop) [Decidable c] (phase : SyncPhase) : EventProc Unit :=
  if c then emit (.phase phase) else pure ()

/-- The life of a `FileProgress`: the work on a file, and what it settles with. The error of
work that succeeds is one that the record notes. -/
def follow {α : Type} (progress : FileProgress) (noted : DeliveryRecord → Option String)
    (work : EventProc α) : EventProc (Except Error α) := do
  emit (.begin progress)
  let result ← attempt work
  let record := (← get).progress.bind (·.record)
  emit (.settle (match result with
    | .ok _ => record.bind noted
    | .error e => some e.text))
  return result

section Sync

variable (sha256 : Bytes → String) (config : SyncConfig)

/-- `reconcile_interrupted_wallpapers`. -/
def reconcileInterruptedWallpapers : EventProc Unit := do
  let memory := (← get).session.core.memory
  let interrupted := (Records.ids memory).filter fun id =>
    (memory.lookup id).any (·.wallpaperStatus == .running)
  if interrupted = [] then return ()
  else do
    within (interrupted.forM fun id => do
      let r ← SyncProc.record id
      emit (.update id { r with
        wallpaperStatus := .uncertain
        wallpaperError := some ("the previous CLI run ended while the wallpaper command was " ++
          "running; use retry --include-uncertain only if repeating it is safe") }))
    save

/-- Mark a delivery as acknowledged and save the state. -/
def recordAcknowledged (id : String) (now : Option Nat) : EventProc Unit :=
  change id fun r => { r with
    deliveryStatus := .acknowledged
    acknowledgedAtUnix := now.orElse fun _ => r.acknowledgedAtUnix
    deliveryError := none }

/-- Note why a delivery is not finished and save the state. -/
def recordDeliveryError (id : String) (e : Error) : EventProc Unit :=
  change id fun r => { r with deliveryError := some e.text }

/-- Acknowledge a delivery whose state is saved, and record the answer. -/
def confirm (id deliveryId digest : String) : EventProc Unit := do
  emit (.phase .confirming)
  match ← attempt (within (SyncProc.acknowledge deliveryId digest)) with
  | .ok () => recordAcknowledged id (some (← within SyncProc.ask).now)
  | .error e => recordDeliveryError id e

/-- The work on one pending acknowledgement. -/
def checkPendingAck (found : List String × List String) (id : String) (snapshot : DeliveryRecord) :
    EventProc (List String × List String) := do
  emit (.phase .verifying)
  match ← attempt (within (verifyRecord sha256 config snapshot)) with
  | .ok () =>
    confirm id snapshot.id snapshot.sha256
    return (id :: found.1, found.2)
  | .error e =>
    recordDeliveryError id e
    return (found.1, id :: found.2)

/-- One pending acknowledgement of `reconcile_pending_acks`. -/
def reconcilePendingAck (found : List String × List String) (id : String) :
    EventProc (List String × List String) := do
  let snapshot ← within (SyncProc.record id)
  ofExcept (← follow (.forRecord snapshot) (·.deliveryError)
    (checkPendingAck sha256 config found id snapshot))

/-- `reconcile_pending_acks`. -/
def reconcilePendingAcks : EventProc (List String × List String) := do
  let memory := (← get).session.core.memory
  let pending := (Records.ids memory).filter fun id =>
    (memory.lookup id).any (·.deliveryStatus == .ackPending)
  pending.foldlM (reconcilePendingAck sha256 config) ([], [])

/-- `receive_delivery_with_retry`, with the attempts that are left after this one. -/
def receiveDeliveryWithRetry (delivery : Delivery) : Nat → EventProc StoredAsset
  | 0 => do
    emit (.phase .downloading)
    within (receive sha256 config delivery)
  | left + 1 => do
    emit (.phase .downloading)
    match ← attempt (within (receive sha256 config delivery)) with
    | .ok stored => return stored
    | .error e =>
      if (← within SyncProc.ask).retryable then do
        emit (.phase .retrying)
        receiveDeliveryWithRetry delivery left
      else fail e

/-- Make sure that the file of a record is there: verify it, or receive it again. -/
def ensureStored (delivery : Delivery) (existing : DeliveryRecord) : EventProc Unit := do
  phaseIf (existing.deliveryStatus = .ackPending ∨ existing.deliveryError.isSome) .verifying
  match ← attempt (within (verifyRecord sha256 config existing)) with
  | .ok () => pure ()
  | .error _ =>
    emit (.phase .retrying)
    ofExcept (← within SyncProc.ask).quarantined
    match ← attempt (receiveDeliveryWithRetry sha256 config delivery (config.maxAttempts - 1)) with
    | .error e => do
      recordDeliveryError delivery.id e
      fail e
    | .ok stored => do
      ofExcept (← within SyncProc.ask).cleaned
      change delivery.id fun r => { r with
        storedPath := stored.path
        size := stored.size
        sha256 := stored.sha256
        mediaType := stored.mediaType
        deliveryError := none }

/-- `process_delivery` of a delivery that has a record. -/
def processExisting (delivery : Delivery) (existing : DeliveryRecord) : EventProc Unit := do
  ofExcept (ensure (existing.sha256 == delivery.sha256 && existing.size == delivery.size &&
    existing.mediaType == delivery.mediaType)
    "delivery id collision: stored metadata does not match the incoming delivery")
  ensureStored sha256 config delivery existing
  let snapshot ← within (SyncProc.record delivery.id)
  phaseIf ((← get).progress.any (·.active)) .confirming
  match ← attempt (within (SyncProc.acknowledge snapshot.id snapshot.sha256)) with
  | .error e => do
    recordDeliveryError delivery.id e
    fail (.message e.text)
  | .ok () =>
    if snapshot.deliveryStatus ≠ .acknowledged then do
      recordAcknowledged delivery.id (some (← within SyncProc.ask).now)
    else if snapshot.deliveryError.isSome then recordAcknowledged delivery.id none
    else pure ()

/-- `process_delivery` of a delivery that has no record. -/
def processNew (delivery : Delivery) : EventProc Unit := do
  let stored ← receiveDeliveryWithRetry sha256 config delivery (config.maxAttempts - 1)
  emit (.run (.update delivery.id (newRecord delivery stored (← within SyncProc.ask).now)))
  progressSave
  confirm delivery.id delivery.id delivery.sha256

/-- `process_delivery`. -/
def processDelivery (delivery : Delivery) : EventProc Unit := do
  match (← get).session.core.memory.lookup delivery.id with
  | some existing => processExisting sha256 config delivery existing
  | none => processNew sha256 config delivery

/-- One candidate of the queue with a configured command. -/
def runWallpaper (mode : WallpaperRunMode) (id : String) (snapshot : DeliveryRecord) :
    EventProc Unit := do
  emit (.phase .verifying)
  match ← attempt (within (verifyRecord sha256 config snapshot)) with
  | .error e =>
    change id fun r => { r with
      deliveryError := some e.text, wallpaperStatus := .failed, wallpaperError := some e.text }
  | .ok () => do
    change id fun r => { r with
      deliveryError := none, wallpaperStatus := .running
      wallpaperAttempts := min (r.wallpaperAttempts + 1) (2 ^ 32 - 1), wallpaperError := none }
    emit (.phase .applyingWallpaper)
    match ← within (applyWallpaper config mode snapshot) with
    | .ok .applied => do
      let now := (← within SyncProc.ask).now
      change id fun r => { r with
        wallpaperStatus := .applied, importedAtUnix := some now, wallpaperError := none }
    | .ok .notConfigured => change id fun r => { r with wallpaperStatus := .notConfigured }
    | .error e =>
      change id fun r => { r with
        wallpaperStatus := if e.uncertain then .uncertain else .failed
        wallpaperError := some e.message }

/-- One candidate of the queue. -/
def processCandidate (mode : WallpaperRunMode) (id : String) : EventProc Unit := do
  let snapshot ← within (SyncProc.record id)
  if config.command = [] then do
    emit (.run (.unconfigured mode id { snapshot with
      wallpaperStatus := .notConfigured, wallpaperError := none }))
    save
  else do
    ofExcept (← follow (.forRecord snapshot) (·.wallpaperError)
      (runWallpaper sha256 config mode id snapshot))

/-- Older states have a wallpaper status for files that are no images. -/
def settleNonImages : EventProc Unit := do
  let memory := (← get).session.core.memory
  let legacyNonImages := (Records.ids memory).filter fun id => (memory.lookup id).any fun r =>
    !isImageMediaType r.mediaType && r.wallpaperStatus != .notApplicable
  if legacyNonImages = [] then return ()
  else do
    within (legacyNonImages.forM fun id => do
      let r ← SyncProc.record id
      emit (.update id { r with
        wallpaperStatus := .notApplicable, wallpaperError := none, importedAtUnix := none }))
    save

/-- `process_wallpaper_queue`. -/
def processWallpaperQueue (mode : WallpaperRunMode) : EventProc Unit := do
  settleNonImages
  (candidates mode (← get).session.core.memory).forM (processCandidate sha256 config mode)

/-- One listed delivery; its errors end with it. -/
def processListed (handled : List String) (delivery : Delivery) : EventProc Unit :=
  if delivery.id ∈ handled then pure ()
  else do
    let memory := (← get).session.core.memory
    let _ ← follow (.forDelivery delivery (memory.lookup delivery.id)) (·.deliveryError)
      (processDelivery sha256 config delivery)

/-- `sync_once_with_events`. -/
def syncOnceWithEvents : EventProc Unit := do
  within (openState config)
  ofExcept (← within SyncProc.ask).cleaned
  reconcileInterruptedWallpapers
  let (handled, _) ← reconcilePendingAcks sha256 config
  let scan ← ofExcept (← within SyncProc.ask).scanned
  scan.deliveries.forM (processListed sha256 config handled)
  processWallpaperQueue sha256 config .automatic

end Sync

/-! ### Without events it is the same run -/

end EventProc

/-- The step of the run, if it is one. -/
def EventStep.sync? : EventStep → Option SyncStep
  | .run e => some e
  | _ => none

theorem EventSession.session_after (s : EventSession) (l : List EventStep) :
    (after EventSession.apply s l).session =
      after Session.apply s.session (l.filterMap EventStep.sync?) := by
  induction l generalizing s with
  | nil => rfl
  | cons e l ih =>
    rw [after_cons, ih]
    cases e with
    | run e => rfl
    | phase | settle =>
      rw [List.filterMap_cons_none rfl]
      unfold EventSession.apply
      cases s.progress <;> rfl
    | saved | begin | keep => rfl

namespace EventProc

open Proc

variable {α β : Type}

/-- A procedure with events takes the steps of one without and returns the same. -/
def Erases (p : EventProc α) (q : SyncProc α) : Prop := ∀ s : EventSession,
  (p s).result = (q s.session).result ∧
    (p s).events.filterMap EventStep.sync? = (q s.session).events

section Rules

variable {p : EventProc α} {q : SyncProc α}

theorem Erases.final (h : Erases p q) (s : EventSession) :
    (p.final s).session = q.final s.session := by
  rw [Proc.final, EventSession.session_after, (h s).2]
  rfl

theorem erases_within (q : SyncProc α) : Erases (within q) q := by
  refine fun s => ⟨rfl, ?_⟩
  rw [within, List.filterMap_map]
  exact List.filterMap_some

theorem erases_pure (a : α) : Erases (pure a) (pure a) := fun _ => ⟨rfl, rfl⟩

theorem erases_fail (e : Error) : Erases (fail e : EventProc α) (fail e) := fun _ => ⟨rfl, rfl⟩

theorem erases_ofExcept (x : Except Error α) : Erases (ofExcept x) (ofExcept x) :=
  fun _ => ⟨rfl, rfl⟩

theorem erases_run (e : SyncStep) : Erases (emit (.run e)) (emit e) := fun _ => ⟨rfl, rfl⟩

theorem Erases.bind {f : α → EventProc β} {g : α → SyncProc β} (h : Erases p q)
    (hf : ∀ a, Erases (f a) (g a)) : Erases (p >>= f) (q >>= g) := by
  intro s
  obtain ⟨hresult, hevents⟩ := h s
  cases hr : (p s).result with
  | error e =>
    have hq := hresult.symm.trans hr
    exact ⟨by rw [result_bind_error hr, result_bind_error hq],
      by rw [events_bind_error hr, events_bind_error hq, hevents]⟩
  | ok a =>
    have hq := hresult.symm.trans hr
    obtain ⟨hresult', hevents'⟩ := hf a (p.final s)
    rw [h.final] at hresult' hevents'
    refine ⟨by rw [result_bind_ok hr, result_bind_ok hq, hresult'], ?_⟩
    rw [events_bind_ok hr, events_bind_ok hq, List.filterMap_append, hevents, hevents']

theorem Erases.attempt (h : Erases p q) : Erases (attempt p) (attempt q) :=
  fun s => ⟨congrArg Except.ok (h s).1, (h s).2⟩

/-- A first part that takes no step of the run. -/
theorem Erases.skip {first : EventProc Unit} {f : Unit → EventProc α}
    (hfirst : Erases first (pure ())) (hf : Erases (f ()) q) : Erases (first >>= f) q := by
  intro s
  have hr : (first s).result = .ok () := (hfirst s).1
  have hs : (first.final s).session = s.session := hfirst.final s
  obtain ⟨hresult, hevents⟩ := hf (first.final s)
  rw [hs] at hresult hevents
  refine ⟨by rw [result_bind_ok hr, hresult], ?_⟩
  rw [events_bind_ok hr, List.filterMap_append, hevents, (hfirst s).2]
  rfl

/-- A last part that returns the value it is given takes no step of the run. -/
theorem Erases.andThen {f : α → EventProc α} (h : Erases p q) (hf : ∀ a, Erases (f a) (pure a)) :
    Erases (p >>= f) q := by
  intro s
  obtain ⟨hresult, hevents⟩ := h s
  cases hr : (p s).result with
  | error e =>
    exact ⟨by rw [result_bind_error hr, ← hresult, hr], by rw [events_bind_error hr, hevents]⟩
  | ok a =>
    refine ⟨by rw [result_bind_ok hr, (hf a _).1, ← hresult, hr]; rfl, ?_⟩
    rw [events_bind_ok hr, List.filterMap_append, hevents, (hf a _).2]
    exact List.append_nil _

theorem erases_emit {e : EventStep} (h : e.sync? = none) : Erases (emit e) (pure ()) :=
  fun _ => ⟨rfl, List.filterMap_cons_none h⟩

theorem Erases.get {f : EventSession → EventProc α} {g : Session → SyncProc α}
    (h : ∀ s, Erases (f s) (g s.session)) : Erases (Proc.get >>= f) (Proc.get >>= g) :=
  fun s => h s s

theorem Erases.look {f : EventSession → EventProc α} (h : ∀ s, Erases (f s) q) :
    Erases (Proc.get >>= f) q :=
  fun s => h s s

theorem erases_forM {f : α → EventProc Unit} {g : α → SyncProc Unit}
    (h : ∀ a, Erases (f a) (g a)) (l : List α) : Erases (l.forM f) (l.forM g) := by
  induction l with
  | nil => exact erases_pure ()
  | cons a l ih => exact (h a).bind fun _ => ih

theorem erases_foldlM {f : β → α → EventProc β} {g : β → α → SyncProc β}
    (h : ∀ b a, Erases (f b a) (g b a)) (b : β) (l : List α) :
    Erases (l.foldlM f b) (l.foldlM g b) := by
  induction l generalizing b with
  | nil => exact erases_pure b
  | cons a l ih =>
    rw [List.foldlM_cons, List.foldlM_cons]
    exact (h b a).bind ih

theorem erases_phaseIf (c : Prop) [Decidable c] (phase : SyncPhase) :
    Erases (phaseIf c phase) (pure ()) := by
  unfold phaseIf
  split
  · exact erases_emit rfl
  · exact erases_pure ()

/-- What surrounds the work is no step of the run. -/
theorem erases_follow {progress : FileProgress} {noted : DeliveryRecord → Option String}
    (h : Erases p q) : Erases (follow progress noted p) (Proc.attempt q) := by
  refine Erases.skip (erases_emit rfl) (h.attempt.andThen fun result => ?_)
  exact Erases.look fun s => Erases.skip (erases_emit rfl) (erases_pure result)

/-- The error that was noted is returned after all. -/
theorem Erases.rethrow {p : EventProc (Except Error α)} (h : Erases p (Proc.attempt q)) :
    Erases (p >>= ofExcept) q := by
  intro s
  have hr : (p s).result = .ok (q s.session).result := (h s).1
  refine ⟨by rw [result_bind_ok hr]; rfl, ?_⟩
  rw [events_bind_ok hr, List.filterMap_append, (h s).2]
  exact List.append_nil _

end Rules

theorem erases_save : Erases save SyncProc.save := by
  refine (erases_within _).bind fun a => ?_
  cases a.saved with
  | saved => exact (erases_run _).andThen fun _ => erases_emit rfl
  | failed e => exact erases_fail e
  | unsynced e => exact (erases_run _).bind fun _ => erases_fail e

theorem erases_progressSave : Erases progressSave SyncProc.save :=
  erases_save.andThen fun _ => erases_emit rfl

theorem erases_change (id : String) (f : DeliveryRecord → DeliveryRecord) :
    Erases (change id f) (SyncProc.change id f) :=
  (erases_within _).bind fun _ => (erases_run _).bind fun _ => erases_progressSave

section Sync

variable (sha256 : Bytes → String) (config : SyncConfig)

theorem erases_reconcileInterruptedWallpapers :
    Erases reconcileInterruptedWallpapers MiRelay.reconcileInterruptedWallpapers := by
  refine Erases.get fun s => ?_
  dsimp only
  split
  · exact erases_pure ()
  · exact (erases_within _).bind fun _ => erases_save

theorem erases_confirm (id deliveryId digest : String) :
    Erases (confirm id deliveryId digest) (MiRelay.confirm id deliveryId digest) := by
  refine Erases.skip (erases_emit rfl) ((erases_within _).attempt.bind fun result => ?_)
  cases result with
  | ok u => exact (erases_within _).bind fun _ => erases_change _ _
  | error e => exact erases_change _ _

theorem erases_reconcilePendingAcks :
    Erases (reconcilePendingAcks sha256 config) (MiRelay.reconcilePendingAcks sha256 config) := by
  refine Erases.get fun s => erases_foldlM (fun found id => ?_) _ _
  refine (erases_within _).bind fun snapshot => (erases_follow ?_).rethrow
  refine Erases.skip (erases_emit rfl) ((erases_within _).attempt.bind fun result => ?_)
  cases result with
  | ok u => exact (erases_confirm _ _ _).bind fun _ => erases_pure _
  | error e => exact (erases_change _ _).bind fun _ => erases_pure _

theorem erases_receiveDeliveryWithRetry (delivery : Delivery) (left : Nat) :
    Erases (receiveDeliveryWithRetry sha256 config delivery left)
      (MiRelay.receiveDeliveryWithRetry sha256 config delivery left) := by
  induction left with
  | zero => exact Erases.skip (erases_emit rfl) (erases_within _)
  | succ left ih =>
    refine Erases.skip (erases_emit rfl) ((erases_within _).attempt.bind fun result => ?_)
    cases result with
    | ok stored => exact erases_pure stored
    | error e =>
      refine (erases_within _).bind fun a => ?_
      split
      · exact Erases.skip (erases_emit rfl) ih
      · exact erases_fail e

theorem erases_ensureStored (delivery : Delivery) (existing : DeliveryRecord) :
    Erases (ensureStored sha256 config delivery existing)
      (MiRelay.ensureStored sha256 config delivery existing) := by
  refine Erases.skip (erases_phaseIf _ _) ((erases_within _).attempt.bind fun result => ?_)
  cases result with
  | ok u => exact erases_pure ()
  | error e =>
    refine Erases.skip (erases_emit rfl) ((erases_within _).bind fun a => ?_)
    refine (erases_ofExcept _).bind fun _ => ?_
    refine (erases_receiveDeliveryWithRetry sha256 config _ _).attempt.bind fun received => ?_
    cases received with
    | ok stored =>
      refine (erases_within _).bind fun a => (erases_ofExcept _).bind fun _ => ?_
      exact erases_change _ _
    | error e => exact (erases_change _ _).bind fun _ => erases_fail e

theorem erases_processExisting (delivery : Delivery) (existing : DeliveryRecord) :
    Erases (processExisting sha256 config delivery existing)
      (MiRelay.processExisting sha256 config delivery existing) := by
  refine (erases_ofExcept _).bind fun _ => (erases_ensureStored sha256 config _ _).bind fun _ => ?_
  refine (erases_within _).bind fun snapshot => Erases.look fun s => ?_
  refine Erases.skip (erases_phaseIf _ _) ((erases_within _).attempt.bind fun result => ?_)
  cases result with
  | error e => exact (erases_change _ _).bind fun _ => erases_fail _
  | ok u =>
    dsimp only
    split
    · exact (erases_within _).bind fun a => erases_change _ _
    · split
      · exact erases_change _ _
      · exact erases_pure ()

theorem erases_processDelivery (delivery : Delivery) :
    Erases (processDelivery sha256 config delivery)
      (MiRelay.processDelivery sha256 config delivery) := by
  refine Erases.get fun s => ?_
  cases s.session.core.memory.lookup delivery.id with
  | some existing => exact erases_processExisting sha256 config delivery existing
  | none =>
    refine (erases_receiveDeliveryWithRetry sha256 config _ _).bind fun stored => ?_
    refine (erases_within _).bind fun a => (erases_run _).bind fun _ => ?_
    exact erases_progressSave.bind fun _ => erases_confirm _ _ _

theorem erases_runWallpaper (mode : WallpaperRunMode) (id : String) (snapshot : DeliveryRecord) :
    Erases (runWallpaper sha256 config mode id snapshot)
      (MiRelay.runWallpaper sha256 config mode id snapshot) := by
  refine Erases.skip (erases_emit rfl) ((erases_within _).attempt.bind fun result => ?_)
  cases result with
  | error e => exact erases_change _ _
  | ok u =>
    refine (erases_change _ _).bind fun _ => Erases.skip (erases_emit rfl) ?_
    refine (erases_within _).bind fun outcome => ?_
    rcases outcome with e | outcome
    · exact erases_change _ _
    · cases outcome with
      | applied => exact (erases_within _).bind fun a => erases_change _ _
      | notConfigured => exact erases_change _ _

theorem erases_processWallpaperQueue (mode : WallpaperRunMode) :
    Erases (processWallpaperQueue sha256 config mode)
      (MiRelay.processWallpaperQueue sha256 config mode) := by
  refine Erases.bind (q := MiRelay.settleNonImages) ?_ fun _ => Erases.get fun s => ?_
  · refine Erases.get fun s => ?_
    dsimp only
    split
    · exact erases_pure ()
    · exact (erases_within _).bind fun _ => erases_save
  · refine erases_forM (fun id => (erases_within _).bind fun snapshot => ?_) _
    split
    · exact (erases_run _).bind fun _ => erases_save
    · exact (erases_follow (erases_runWallpaper sha256 config mode id snapshot)).rethrow

/-- With its events left out the run is `sync_once`. -/
theorem erases_syncOnceWithEvents :
    Erases (syncOnceWithEvents sha256 config) (syncOnce sha256 config) := by
  refine (erases_within _).bind fun _ => (erases_within _).bind fun a => ?_
  refine (erases_ofExcept _).bind fun _ => erases_reconcileInterruptedWallpapers.bind fun _ => ?_
  refine (erases_reconcilePendingAcks sha256 config).bind fun found => ?_
  refine (erases_within _).bind fun a => (erases_ofExcept _).bind fun scan => ?_
  refine (erases_forM (fun delivery => ?_) _).bind fun _ =>
    erases_processWallpaperQueue sha256 config .automatic
  unfold processListed
  split
  · exact erases_pure ()
  · refine Erases.look fun s => ?_
    exact (erases_follow (erases_processDelivery sha256 config delivery)).bind fun _ =>
      erases_pure ()

end Sync

end EventProc

end MiRelay
