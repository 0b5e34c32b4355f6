import MiRelay.Core.Run
import MiRelay.Server.ExitRows

/-!
# The three parties of a folder exit

The relay answers exit requests in two or three steps between which anything
may happen, the Linux client and the Android clients send them, clean what
they own and record how far they came. A request may be handled any number of
times or never, an answer may arrive late, again or not at all, and every party
may stop at any step and start anew from what it has stored.
-/

namespace MiRelay

/-- The operations of the exit endpoint. -/
inductive ExitOperation
  | status
  | clean
  | ack
  deriving DecidableEq, Repr

/-- An exit request is identified by its credential and its operation. -/
structure ExitRequest where
  hash : String
  operation : ExitOperation
  deriving DecidableEq, Repr

/-- Where `dispatch` stands: after `identity`, after the revocation, before the answer. -/
inductive DispatchStage
  | identified
  | revoked
  | done
  deriving DecidableEq, Repr

/-- A request that `dispatch` is working on, with the role it has looked up. -/
structure Dispatch where
  request : ExitRequest
  role : String
  stage : DispatchStage
  deriving DecidableEq, Repr

/-- An answer on its way to the holder of the credential. -/
structure ExitReply where
  request : ExitRequest
  status : FolderExitStatus
  deriving DecidableEq, Repr

/-- What `exit_request` checks of an answer; `clean` and `ack` are mutations. -/
def ExitReply.valid (r : ExitReply) : Bool :=
  (r.status.role == "sender" || r.status.role == "receiver") &&
  (r.status.requested ||
    !(r.status.serverCleaned || r.status.senderCleaned || r.status.receiverCleaned)) &&
  (r.request.operation == .status || (r.status.requested && r.status.serverCleaned))

/-- `ConnectionState` of a Linux configuration. -/
inductive ConnectionState
  | connected
  | disconnectPending
  | disconnected
  | exitPending
  | exitLocalCleaned
  | exited
  deriving DecidableEq, Repr

/-- `ExitLocalCleaned` or `Exited`. -/
def ConnectionState.isCleaned : ConnectionState → Bool
  | .exitLocalCleaned | .exited => true
  | _ => false

/-- Where a Linux exit stands before it takes the operation lock. -/
inductive LinuxStage
  | loaded
  | status
  | clean
  deriving DecidableEq, Repr

/-- A Linux exit without the operation lock, with the connection state it works with. -/
structure LinuxRun where
  hash : String
  config : ConnectionState
  stage : LinuxStage
  deriving DecidableEq, Repr

/-- Who holds the operation lock of a Linux configuration. -/
inductive LinuxOperation
  | receive
  | cleaning (hash : String)
  | receipt (hash : String)
  deriving DecidableEq, Repr

/-- The Linux client: its stored state, then what a stop loses. -/
structure LinuxClient where
  connectionState : ConnectionState
  /-- The markers beside the state file and in the directory state. -/
  retired : Bool
  /-- The state files and staged data that the cleanup removes. -/
  owned : List String
  runs : List LinuxRun
  operation : Option LinuxOperation
  deriving DecidableEq, Repr

/-- The local cleanup is finished: nothing owned is left and nothing can be added. -/
def LinuxClient.Finished (c : LinuxClient) : Prop := c.retired = true ∧ c.owned = []

/-- `exit_phase` of an Android folder. -/
inductive ExitPhase
  | none
  | pending
  | localCleaned
  | complete
  deriving DecidableEq, Repr

/-- `exitPhase` is `local_cleaned` or `complete`. -/
def ExitPhase.isCleaned : ExitPhase → Bool
  | .localCleaned | .complete => true
  | _ => false

/-- Where `FolderExit.run` stands. -/
inductive AndroidStage
  | idle
  | discovering
  | revoking
  | cleaning
  | acknowledging
  deriving DecidableEq, Repr

/-- An Android client: its stored state, then what a stop loses. -/
structure AndroidClient where
  exitPhase : ExitPhase
  /-- The staged files and rows of the folder. -/
  staged : List String
  stage : AndroidStage
  deriving DecidableEq, Repr

/-- The local cleanup is recorded and nothing staged is left. -/
def AndroidClient.Finished (c : AndroidClient) : Prop := c.exitPhase.isCleaned = true ∧ c.staged = []

/-- The parties, the requests that were sent and the answers that were given. -/
structure Parties where
  desk : Desk
  dispatches : List Dispatch
  linux : LinuxClient
  /-- The Android client that holds a credential. -/
  android : String → AndroidClient
  sent : List ExitRequest
  replies : List ExitReply

/-- A new relay and clients that have nothing to do with the folder yet. -/
def Parties.initial : Parties where
  desk := .initial
  dispatches := []
  linux := ⟨.connected, false, [], [], none⟩
  android _ := ⟨.none, [], .idle⟩
  sent := []
  replies := []

/-- One step of one party. -/
inductive ExitStep
  /-- Any transaction of the relay except receipts for this folder. -/
  | transaction (a : Transaction)
  | identify (q : ExitRequest)
  | revoke (d : Dispatch)
  | remove (d : Dispatch)
  | receipt (d : Dispatch)
  | answer (d : Dispatch)
  | relayRestart
  | linuxConnection (c : ConnectionState)
  | linuxReceive
  | linuxFile (name : String)
  | linuxReceived
  | linuxLoad (hash : String)
  | linuxSave (r : LinuxRun)
  | linuxStatus (r : LinuxRun) (reply : ExitReply)
  | linuxRevoked (r : LinuxRun) (reply : ExitReply)
  | linuxRetire
  | linuxRemove
  | linuxCleaned
  | linuxReceipt (reply : ExitReply)
  | linuxFail (r : LinuxRun)
  | linuxRestart
  | androidStage (hash name : String)
  | androidDiscover (hash : String)
  | androidDiscovered (hash : String) (reply : ExitReply)
  | androidBegin (hash : String)
  | androidRevoked (hash : String) (reply : ExitReply)
  | androidRemove (hash : String)
  | androidCleaned (hash : String)
  | androidReceipt (hash : String) (reply : ExitReply)
  | androidRestart (hash : String)
  deriving DecidableEq, Repr

namespace Parties

/-- Send a request, once more if need be. -/
def send (s : Parties) (hash : String) (operation : ExitOperation) : Parties :=
  { s with sent := ⟨hash, operation⟩ :: s.sent }

/-- The stored and volatile state of one Android client is replaced. -/
def setAndroid (s : Parties) (hash : String) (c : AndroidClient) : Parties :=
  { s with android := fun h => if h = hash then c else s.android h }

/-- A request goes on to its next step. -/
def advance (s : Parties) (d : Dispatch) (stage : DispatchStage) : Parties :=
  { s with dispatches := { d with stage } :: s.dispatches.erase d }

/-- An answer that the holder of a credential accepts for an operation. -/
def accepts (s : Parties) (reply : ExitReply) (hash role : String) (operation : ExitOperation) :
    Bool :=
  decide (reply ∈ s.replies) && decide (reply.request = ⟨hash, operation⟩) && reply.valid &&
    reply.status.role == role

/-- The steps of the relay. -/
def performRelay (maxFileSize : Nat) (id : String) (s : Parties) : ExitStep → Option Parties
  | .transaction a =>
    if a.isReceipt id then none
    else (s.desk.perform maxFileSize a).map fun desk => { s with desk }
  | .identify q =>
    if q ∈ s.sent then
      match s.desk.db.identity maxFileSize id q.hash with
      | .ok info => some { s with dispatches := ⟨q, info.role, .identified⟩ :: s.dispatches }
      | .error _ => none
    else none
  | .revoke d =>
    if d ∈ s.dispatches ∧ d.request.operation = .clean ∧ d.stage = .identified then
      (s.desk.perform maxFileSize (.beginExit id (some d.request.hash))).map fun desk =>
        ({ s with desk }).advance d .revoked
    else none
  | .remove d =>
    -- The payloads are deleted before; a failure there ends the request.
    if d ∈ s.dispatches ∧ d.request.operation = .clean ∧ d.stage = .revoked then
      (s.desk.perform maxFileSize (.removeFolder id)).map fun desk =>
        ({ s with desk }).advance d .done
    else none
  | .receipt d =>
    if d ∈ s.dispatches ∧ d.request.operation = .ack ∧ d.stage = .identified then
      (s.desk.perform maxFileSize (.receiveExit id d.request.hash d.role)).map fun desk =>
        ({ s with desk }).advance d .done
    else none
  | .answer d =>
    if d ∈ s.dispatches ∧
        (d.stage = .done ∨ d.request.operation = .status ∧ d.stage = .identified) then
      some { s with
        dispatches := s.dispatches.erase d
        replies := ⟨d.request, s.desk.db.exitStatus id d.role⟩ :: s.replies }
    else none
  | .relayRestart => some { s with dispatches := [] }
  | _ => none

/-- The steps of the Linux client. -/
def performLinux (s : Parties) : ExitStep → Option Parties
  | .linuxConnection c =>
    -- Disconnecting refuses a folder whose exit has begun.
    if s.linux.connectionState ∈ [.connected, .disconnectPending, .disconnected] ∧
        c ∈ [.connected, .disconnectPending, .disconnected] then
      some { s with linux := { s.linux with connectionState := c } }
    else none
  | .linuxReceive =>
    if s.linux.operation = none ∧ s.linux.connectionState = .connected ∧ !s.linux.retired then
      some { s with linux := { s.linux with operation := some .receive } }
    else none
  | .linuxFile name =>
    if s.linux.operation = some .receive then
      some { s with linux := { s.linux with owned := name :: s.linux.owned } }
    else none
  | .linuxReceived =>
    if s.linux.operation = some .receive then
      some { s with linux := { s.linux with operation := none } }
    else none
  | .linuxLoad hash =>
    if s.linux.connectionState = .disconnected then none
    else some { s with linux := { s.linux with
      runs := ⟨hash, s.linux.connectionState, .loaded⟩ :: s.linux.runs } }
  | .linuxSave r =>
    -- The lock of the registry is not the operation lock: what was loaded may be outdated.
    if r ∈ s.linux.runs ∧ r.stage = .loaded then
      let config := if r.config.isCleaned then r.config else .exitPending
      some (({ s with linux := { s.linux with
        connectionState := if r.config.isCleaned then s.linux.connectionState else config
        runs := { r with config, stage := .status } :: s.linux.runs.erase r } }).send r.hash .status)
    else none
  | .linuxStatus r reply =>
    if r ∈ s.linux.runs ∧ r.stage = .status ∧ s.accepts reply r.hash "receiver" .status then
      some (({ s with linux := { s.linux with
        runs := { r with stage := .clean } :: s.linux.runs.erase r } }).send r.hash .clean)
    else none
  | .linuxRevoked r reply =>
    if r ∈ s.linux.runs ∧ r.stage = .clean ∧ s.accepts reply r.hash "receiver" .clean ∧
        s.linux.operation = none ∧ s.linux.connectionState = r.config then
      if s.linux.connectionState.isCleaned then
        some (({ s with linux := { s.linux with
          runs := s.linux.runs.erase r, operation := some (.receipt r.hash) } }).send r.hash .ack)
      else
        some { s with linux := { s.linux with
          runs := s.linux.runs.erase r, operation := some (.cleaning r.hash) } }
    else none
  | .linuxRetire =>
    match s.linux.operation with
    | some (.cleaning _) => some { s with linux := { s.linux with retired := true } }
    | _ => none
  | .linuxRemove =>
    match s.linux.operation with
    | some (.cleaning _) =>
      if s.linux.retired then
        some { s with linux := { s.linux with owned := s.linux.owned.tail } }
      else none
    | _ => none
  | .linuxCleaned =>
    match s.linux.operation with
    | some (.cleaning hash) =>
      if s.linux.retired ∧ s.linux.owned = [] then
        some (({ s with linux := { s.linux with
          connectionState := .exitLocalCleaned
          operation := some (.receipt hash) } }).send hash .ack)
      else none
    | _ => none
  | .linuxReceipt reply =>
    match s.linux.operation with
    | some (.receipt hash) =>
      if s.accepts reply hash "receiver" .ack ∧ reply.status.receiverCleaned then
        some { s with linux := { s.linux with
          connectionState :=
            if reply.status.complete then .exited else s.linux.connectionState
          operation := none } }
      else none
    | _ => none
  | .linuxFail r => some { s with linux := { s.linux with runs := s.linux.runs.erase r } }
  | .linuxRestart => some { s with linux := { s.linux with runs := [], operation := none } }
  | _ => none

/-- The steps of the Android clients. -/
def performAndroid (s : Parties) : ExitStep → Option Parties
  | .androidStage hash name =>
    -- An import began while the folder was open; the work gate keeps it out of the cleanup.
    let c := s.android hash
    if c.exitPhase.isCleaned = false ∧ c.stage ≠ .cleaning then
      some (s.setAndroid hash { c with staged := name :: c.staged })
    else none
  | .androidDiscover hash =>
    let c := s.android hash
    if c.stage = .idle ∧ c.exitPhase = .none then
      some ((s.setAndroid hash { c with stage := .discovering }).send hash .status)
    else none
  | .androidDiscovered hash reply =>
    let c := s.android hash
    if c.stage = .discovering ∧ s.accepts reply hash "sender" .status then
      if reply.status.requested then
        some ((s.setAndroid hash { c with
          exitPhase := if c.exitPhase = .none then .pending else c.exitPhase
          stage := .revoking }).send hash .clean)
      else some (s.setAndroid hash { c with stage := .idle })
    else none
  | .androidBegin hash =>
    let c := s.android hash
    if c.stage = .idle ∧ c.exitPhase ≠ .complete then
      some ((s.setAndroid hash { c with
        exitPhase := if c.exitPhase = .none then .pending else c.exitPhase
        stage := .revoking }).send hash .clean)
    else none
  | .androidRevoked hash reply =>
    let c := s.android hash
    if c.stage = .revoking ∧ s.accepts reply hash "sender" .clean ∧
        reply.status.serverCleaned then
      if c.exitPhase = .localCleaned then
        some ((s.setAndroid hash { c with stage := .acknowledging }).send hash .ack)
      else some (s.setAndroid hash { c with stage := .cleaning })
    else none
  | .androidRemove hash =>
    let c := s.android hash
    if c.stage = .cleaning then
      some (s.setAndroid hash { c with staged := c.staged.tail })
    else none
  | .androidCleaned hash =>
    let c := s.android hash
    if c.stage = .cleaning ∧ c.staged = [] then
      some ((s.setAndroid hash { c with
        exitPhase := .localCleaned, stage := .acknowledging }).send hash .ack)
    else none
  | .androidReceipt hash reply =>
    let c := s.android hash
    if c.stage = .acknowledging ∧ s.accepts reply hash "sender" .ack ∧
        reply.status.senderCleaned then
      some (s.setAndroid hash { c with
        exitPhase := if reply.status.receiverCleaned then .complete else c.exitPhase
        stage := .idle })
    else none
  | .androidRestart hash =>
    some (s.setAndroid hash { s.android hash with stage := .idle })
  | _ => none

/-- One step of whichever party it belongs to. -/
def perform (maxFileSize : Nat) (id : String) (s : Parties) (a : ExitStep) : Option Parties :=
  (s.performRelay maxFileSize id a).or ((s.performLinux a).or (s.performAndroid a))

end Parties

end MiRelay
