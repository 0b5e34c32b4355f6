import MiRelay.Desktop.Connection
import MiRelay.Server.Noninterference

/-!
# A Folder is removed when it is revoked

What a desktop has stored, loaded or been told of a Folder that is over rests on
an answer of the relay, and a relay never takes a revocation back. So no run of
tasks, requests and failures removes a Folder with credentials of its own from the
registry while these are valid, and none brings a Folder that was stopped back.
-/

namespace MiRelay

/-- The folder of a relay is disconnected. -/
def Revocation (relays : String → Desk) (origin folder : String) : Prop :=
  ∃ row, (relays origin).db.findFolder folder = some row ∧ row.disconnected = true

/-- The address of a configuration names a folder that its relay has disconnected. -/
def Config.Revoked (parse : String → Option Url) (relays : String → Desk) (config : Config) :
    Prop :=
  ∃ url folder, config.baseUrl.bind parse = some url ∧ url.withSlash.names folder = true ∧
    Revocation relays url.origin folder

/-- States that are recorded only when the relay has answered. -/
def ConnectionState.isOver : ConnectionState → Bool
  | .disconnected | .exitLocalCleaned | .exited => true
  | _ => false

/-- The client of a call speaks to the address of a configuration. -/
def Config.Reached (parse : String → Option Url) (config : Config) (client : PairingClient) :
    Prop :=
  ∃ url, config.baseUrl.bind parse = some url ∧ client.base = url.withSlash

/-- The configuration that the operation of an exit goes on with. -/
def FolderOperation.config : FolderOperation → Option Config
  | .loading _ _ run => run.map (·.config)
  | .receive => none
  | .exit config _ _ => some config

/-- What is found after a removal was there before. -/
theorem Files.lookup_of_erase {κ β : Type} [DecidableEq κ] {m : Files κ β} {k j : κ} {b : β}
    (h : (m.erase k).lookup j = some b) : m.lookup j = some b := by
  rw [lookup_erase] at h
  split at h
  · contradiction
  · exact h

namespace Desk

variable {m : Nat} {d d' : Desk} {a : Transaction} {id : String}

/-- Every transaction leaves a folder that was disconnected so. -/
theorem perform_disconnected (h : d.perform m a = some d') {row : FolderRow}
    (hrow : d.db.findFolder id = some row) (hdisconnected : row.disconnected = true) :
    ∃ row', d'.db.findFolder id = some row' ∧ row'.disconnected = true := by
  by_cases hreceipt : a.isReceipt id = true
  · cases a with
    | receiveExit id' hash role =>
      have hid : id' = id := by simpa [Transaction.isReceipt] using hreceipt
      subst hid
      exact ⟨row, (perform_receipt h).2.1 row hrow, hdisconnected⟩
    | _ => exact absurd hreceipt Bool.false_ne_true
  · obtain ⟨row', hrow', hlater⟩ :=
      (perform_seat h (Bool.of_not_eq_true hreceipt)).folder row hrow
    exact ⟨row', hrow', (hlater.disconnected hdisconnected).1⟩

end Desk

/-- A folder is told to be disconnected when it is. -/
theorem Database.identity_disconnected {maxFileSize : Nat} {db : Database} {id hash : String}
    {info : FolderHandshake} (h : db.identity maxFileSize id hash = .ok info)
    (hstate : info.state = "disconnected") :
    ∃ row, db.findFolder id = some row ∧ info.folderId = id ∧ row.disconnected = true := by
  simp only [identity, bind_eq_ok] at h
  obtain ⟨-, -, h⟩ := h
  cases hrow : db.findFolder id with
  | none =>
    rw [hrow] at h
    contradiction
  | some row =>
    simp only [hrow, bind_eq_ok, pure_eq_ok] at h
    obtain ⟨role, -, rfl⟩ := h
    refine ⟨row, rfl, rfl, ?_⟩
    by_contra hopen
    simp only [if_neg hopen] at hstate
    split at hstate
    · simp at hstate
    · split at hstate <;> simp at hstate

section Revoked

variable {parse : String → Option Url} {relays relays' : String → Desk} {config config' : Config}

theorem Config.Revoked.mono (h : config.Revoked parse relays)
    (hlater : ∀ o f, Revocation relays o f → Revocation relays' o f) :
    config.Revoked parse relays' := by
  obtain ⟨url, folder, hurl, hnames, hrevoked⟩ := h
  exact ⟨url, folder, hurl, hnames, hlater _ _ hrevoked⟩

/-- Only the address matters. -/
theorem Config.Revoked.of_baseUrl (h : config.Revoked parse relays)
    (hurl : config'.baseUrl = config.baseUrl) : config'.Revoked parse relays := by
  rw [Config.Revoked, hurl]
  exact h

/-- A confirmed answer about the folder of the address. -/
theorem Config.Reached.revoked {client : PairingClient} {folder : String}
    (h : config.Reached parse client) (hnames : client.base.names folder = true)
    (hrevoked : Revocation relays client.base.origin folder) : config.Revoked parse relays := by
  obtain ⟨url, hurl, hbase⟩ := h
  rw [hbase] at hnames hrevoked
  exact ⟨url, folder, hurl, hnames, hrevoked⟩

/-- The client that a call builds from a configuration. -/
theorem Config.reached_of_new {server : HttpConfig} {client : PairingClient} {token : String}
    (hserver : config.server = .http server)
    (h : PairingClient.new parse server.baseUrl token server.allowInsecureHttp = .ok client) :
    config.Reached parse client := by
  obtain ⟨url, hurl, hbase⟩ := PairingClient.new_ok h
  refine ⟨url, ?_, hbase⟩
  rw [Config.baseUrl, hserver]
  exact hurl

end Revoked

/-- What a task has to go by. -/
structure RegistrySection.Sound (rules : DesktopRules) (relays : String → Desk)
    (sec : RegistrySection) : Prop where
  ended : sec.config.connectionState.isOver = true → sec.config.Revoked rules.parse relays
  confirm : ∀ run, sec.task = .confirm run → sec.config.Revoked rules.parse relays
  update : ∀ name baseUrl insecure autoReceive,
    sec.task = .update name baseUrl insecure autoReceive → sec.config.connectionState = .connected
  remove : ∀ path, sec.task = .remove path → sec.config.canRemove rules.parse = true

namespace Desktop

variable {maxFileSize : Nat} {rules : DesktopRules} {s t : Desktop}

attribute [local simp] performOutside performTask performRun follow beginStop beginExit

attribute [local simp] RegistryTask.check RegistryTask.next

/-- What the relays' answers, the files and the calls of a desktop have to go by. -/
structure Sound (rules : DesktopRules) (s : Desktop) : Prop where
  relays : ∀ origin, (s.relays origin).db.Revoked
  handshakes : ∀ origin info, .handshake origin info ∈ s.replies → info.state = "disconnected" →
    Revocation s.relays origin info.folderId
  receipts : ∀ origin receipt, .exit origin receipt ∈ s.replies →
    receipt.status.requested = true → Revocation s.relays origin receipt.status.folderId
  files : ∀ key config, s.files.lookup key = some config → config.connectionState.isOver = true →
    config.Revoked rules.parse s.relays
  task : ∀ sec, s.lock = some sec → sec.Sound rules s.relays
  stops : ∀ run ∈ s.stops, run.config.Reached rules.parse run.client ∧
    (run.confirmed = true → run.config.Revoked rules.parse s.relays)
  exits : ∀ run ∈ s.exits, run.config.Reached rules.parse run.client ∧
    (run.stage = .revoked → run.config.Revoked rules.parse s.relays)
  operations : ∀ key operation config, s.operations.lookup key = some operation →
    operation.config = some config → config.Revoked rules.parse s.relays

theorem Sound.initial : Sound rules .initial where
  relays _ := by
    intro id h
    exact absurd h Bool.false_ne_true
  handshakes _ _ h := absurd h List.not_mem_nil
  receipts _ _ h := absurd h List.not_mem_nil
  files _ _ h := by cases h
  task _ h := by cases h
  stops _ h := absurd h List.not_mem_nil
  exits _ h := absurd h List.not_mem_nil
  operations _ _ _ h := by cases h

/-- A step of a relay keeps what was revoked. -/
theorem Sound.relay {origin : String} {a : Transaction} {desk : Desk} (h : Sound rules s)
    (hdesk : (s.relays origin).perform maxFileSize a = some desk) :
    (∀ o f, Revocation s.relays o f →
      Revocation (fun o => if o = origin then desk else s.relays o) o f) ∧
    Sound rules { s with relays := fun o => if o = origin then desk else s.relays o } := by
  have hlater : ∀ o f, Revocation s.relays o f →
      Revocation (fun o => if o = origin then desk else s.relays o) o f := by
    rintro o f ⟨row, hrow, hdisconnected⟩
    by_cases ho : o = origin
    · subst ho
      simp only [Revocation, if_true]
      exact Desk.perform_disconnected hdesk hrow hdisconnected
    · simp only [Revocation, if_neg ho]
      exact ⟨row, hrow, hdisconnected⟩
  refine ⟨hlater, ?_⟩
  exact
    { relays := fun o => by
        by_cases ho : o = origin
        · subst ho
          simp only [if_true]
          exact (h.relays o).perform hdesk
        · simp only [if_neg ho]
          exact h.relays o
      handshakes := fun o info hinfo hstate => hlater _ _ (h.handshakes o info hinfo hstate)
      receipts := fun o receipt hreceipt hrequested =>
        hlater _ _ (h.receipts o receipt hreceipt hrequested)
      files := fun key config hfile hover => (h.files key config hfile hover).mono hlater
      task := fun sec hsec =>
        { h.task sec hsec with
          ended := fun hover => ((h.task sec hsec).ended hover).mono hlater
          confirm := fun run hrun => ((h.task sec hsec).confirm run hrun).mono hlater }
      stops := fun run hrun =>
        ⟨(h.stops run hrun).1, fun hc => ((h.stops run hrun).2 hc).mono hlater⟩
      exits := fun run hrun =>
        ⟨(h.exits run hrun).1, fun hc => ((h.exits run hrun).2 hc).mono hlater⟩
      operations := fun key operation config hop hconfig =>
        (h.operations key operation config hop hconfig).mono hlater }

/-- A stored answer speaks of a revocation that has happened. -/
theorem Sound.answerHandshake {origin id hash : String} {info : FolderHandshake}
    (h : Sound rules s) (hinfo : (s.relays origin).db.identity maxFileSize id hash = .ok info) :
    Sound rules { s with replies := .handshake origin info :: s.replies } where
  relays := h.relays
  handshakes o info' hmem hstate := by
    rcases List.mem_cons.mp hmem with heq | hmem
    · cases heq
      obtain ⟨row, hrow, hfolder, hdisconnected⟩ := Database.identity_disconnected hinfo hstate
      exact ⟨row, hfolder ▸ hrow, hdisconnected⟩
    · exact h.handshakes o info' hmem hstate
  receipts o receipt hmem := h.receipts o receipt ((List.mem_cons.mp hmem).resolve_left (by simp))
  files := h.files
  task := h.task
  stops := h.stops
  exits := h.exits
  operations := h.operations

theorem Sound.answerExit {origin id role : String} (h : Sound rules s) :
    Sound rules { s with
      replies := .exit origin ⟨protocolVersion, (s.relays origin).db.exitStatus id role⟩ ::
        s.replies } where
  relays := h.relays
  handshakes o info hmem := h.handshakes o info ((List.mem_cons.mp hmem).resolve_left (by simp))
  receipts o receipt hmem hrequested := by
    rcases List.mem_cons.mp hmem with heq | hmem
    · cases heq
      have hexiting : (s.relays origin).db.exiting id = true :=
        Database.exiting_iff.mpr (Option.isSome_iff_exists.mp hrequested)
      exact h.relays origin id hexiting
    · exact h.receipts o receipt hmem hrequested
  files := h.files
  task := h.task
  stops := h.stops
  exits := h.exits
  operations := h.operations

/-- A configuration is written when it may be. -/
theorem Sound.saveConfig {path : PathBuf} {config : Config} (h : Sound rules s)
    (ht : s.saveConfig rules path config = some t)
    (hover : config.connectionState.isOver = true → config.Revoked rules.parse s.relays) :
    t = { s with files := s.files.insert path.components config } ∧ Sound rules t := by
  simp only [Desktop.saveConfig] at ht
  split at ht
  · cases Option.some.inj ht
    refine ⟨rfl, { h with files := fun key config' hfile hover' => ?_ }⟩
    rw [Files.lookup_insert] at hfile
    split at hfile
    · cases Option.some.inj hfile
      exact hover hover'
    · exact h.files key config' hfile hover'
  · contradiction

/-- The registry is written and its lock given back. -/
theorem Sound.writeRegistry {registry : BridgeRegistry} (h : Sound rules s)
    (ht : s.writeRegistry registry = some t) :
    t = { s with registry, lock := none } ∧ Sound rules t := by
  simp only [Desktop.writeRegistry] at ht
  split at ht
  · cases Option.some.inj ht
    exact ⟨rfl, { h with task := fun _ hsec => by cases hsec }⟩
  · contradiction

theorem Sound.changeRegistry {result : Except RegistryError Unit × BridgeRegistry}
    (h : Sound rules s) (ht : s.changeRegistry result = some t) : Sound rules t := by
  simp only [Desktop.changeRegistry] at ht
  split at ht
  · exact (h.writeRegistry ht).2
  · contradiction

theorem Sound.performOutside {a : DesktopStep} (h : Sound rules s)
    (ht : s.performOutside maxFileSize rules a = some t) : Sound rules t := by
  cases a with
  | relay origin a =>
    obtain ⟨desk, hdesk, rfl⟩ := Option.map_eq_some_iff.mp ht
    exact (h.relay hdesk).2
  | answerHandshake origin id hash =>
    simp only [Desktop.performOutside] at ht
    split at ht
    · rename_i info hinfo
      cases Option.some.inj ht
      exact h.answerHandshake hinfo
    · contradiction
  | answerExit origin id hash =>
    simp only [Desktop.performOutside] at ht
    split at ht
    · cases Option.some.inj ht
      exact h.answerExit
    · contradiction
  | create path config =>
    simp only [Desktop.performOutside] at ht
    split at ht
    · rename_i hcreate
      obtain ⟨u, hu, rfl⟩ := Option.map_eq_some_iff.mp ht
      obtain ⟨rfl, hsound⟩ := h.saveConfig hu (by simp [hcreate.2, ConnectionState.isOver])
      exact { hsound with }
    · contradiction
  | register bridge => exact h.changeRegistry ht
  | rename id name => exact h.changeRegistry ht
  | select id => exact h.changeRegistry ht
  | setKind id kind => exact h.changeRegistry ht
  | setAutoReceive id enabled => exact h.changeRegistry ht
  | _ => contradiction

/-- What is loaded is what the file holds. -/
theorem load_ok {id : String} {bridge : BridgeRegistration} {config : Config}
    (h : s.load id = some (bridge, config)) :
    s.registry.bridges.find? (·.id == id) = some bridge ∧
      s.files.lookup bridge.configPath.components = some config := by
  simp only [load, bind, Option.bind_eq_some_iff, pure, Option.some.injEq, Prod.mk.injEq] at h
  obtain ⟨bridge', hbridge, config', hconfig, rfl, rfl⟩ := h
  exact ⟨hbridge, hconfig⟩

/-- What a task has found when it begins. -/
theorem enter_ok {task : RegistryTask} {id : String}
    (ht : s.performTask rules (.enter task id) = some t) :
    s.lock = none ∧ ∃ bridge config, s.load id = some (bridge, config) ∧
      task.check rules s id bridge.configPath config = true ∧
        t = { s with lock := some ⟨task, id, bridge.configPath, config, false⟩ } := by
  simp only [performTask] at ht
  split at ht
  · rename_i bridge config hlock hload
    split at ht
    · rename_i hcheck
      exact ⟨hlock, bridge, config, hload, hcheck, (Option.some.inj ht).symm⟩
    · contradiction
  · contradiction

/-- A task that writes does so once. -/
theorem save_ok (ht : s.performTask rules .save = some t) :
    ∃ sec, s.lock = some sec ∧ sec.saved = false ∧
      (sec.task.next sec.config = none ∧ t = { s with lock := some { sec with saved := true } } ∨
        ∃ config u, sec.task.next sec.config = some config ∧
          s.saveConfig rules sec.path config = some u ∧
            t = { u with lock := some { sec with config, saved := true } }) := by
  simp only [performTask] at ht
  split at ht
  · rename_i sec hsec
    split at ht
    · contradiction
    · rename_i hsaved
      refine ⟨sec, hsec, Bool.of_not_eq_true hsaved, ?_⟩
      split at ht
      · rename_i hnext
        exact .inl ⟨hnext, (Option.some.inj ht).symm⟩
      · rename_i config hnext
        obtain ⟨u, hu, rfl⟩ := Option.map_eq_some_iff.mp ht
        exact .inr ⟨config, u, hnext, hu, rfl⟩
  · contradiction

/-- A task ends with the registry written. -/
theorem close_ok {token : String} (ht : s.performTask rules (.close token) = some t) :
    ∃ sec registry u, s.lock = some sec ∧ sec.saved = true ∧
      sec.task.change s.registry sec.id = some registry ∧ s.writeRegistry registry = some u ∧
        t = u.follow rules sec token := by
  simp only [performTask] at ht
  split at ht
  · rename_i sec hsec
    split at ht
    · rename_i hsaved
      split at ht
      · rename_i registry hregistry
        obtain ⟨u, hu, rfl⟩ := Option.map_eq_some_iff.mp ht
        exact ⟨sec, registry, u, hsec, hsaved, hregistry, hu, rfl⟩
      · contradiction
    · contradiction
  · contradiction

/-- A task writes a configuration as over only when the relay has confirmed it. -/
theorem Sound.next {sec : RegistrySection} {config : Config} (h : Sound rules s)
    (hsec : s.lock = some sec) (hnext : sec.task.next sec.config = some config) :
    ({ sec with config, saved := true } : RegistrySection).Sound rules s.relays := by
  have hloaded := h.task sec hsec
  cases htask : sec.task with
  | stop =>
    rw [htask] at hnext
    simp only [RegistryTask.next] at hnext
    split at hnext
    · contradiction
    · cases Option.some.inj hnext
      exact
        { ended := by simp [ConnectionState.isOver]
          confirm := by simp
          update := by simp
          remove := by simp }
  | confirm run =>
    rw [htask] at hnext
    cases Option.some.inj hnext
    have hrevoked := hloaded.confirm run htask
    exact
      { ended := fun _ => hrevoked.of_baseUrl rfl
        confirm := fun _ _ => hrevoked.of_baseUrl rfl
        update := by simp
        remove := by simp }
  | exit =>
    rw [htask] at hnext
    simp only [RegistryTask.next] at hnext
    split at hnext
    · contradiction
    · cases Option.some.inj hnext
      exact
        { ended := by simp [ConnectionState.isOver]
          confirm := by simp
          update := by simp
          remove := by simp }
  | update name baseUrl insecure autoReceive =>
    rw [htask] at hnext
    cases Option.some.inj hnext
    have hconnected := hloaded.update _ _ _ _ htask
    exact
      { ended := by simp [ConnectionState.isOver, hconnected]
        confirm := by simp
        update := fun _ _ _ _ _ => Config.setHttpServer_connectionState.trans hconnected
        remove := by simp }
  | remove path =>
    rw [htask] at hnext
    contradiction

theorem Sound.enter {task : RegistryTask} {id : String} (h : Sound rules s)
    (ht : s.performTask rules (.enter task id) = some t) : Sound rules t := by
  obtain ⟨-, bridge, config, hload, hcheck, rfl⟩ := enter_ok ht
  have hfile := (load_ok hload).2
  refine { h with task := fun sec hsec => ?_ }
  cases Option.some.inj hsec
  refine ⟨h.files _ _ hfile, fun run hrun => ?_, fun name baseUrl insecure autoReceive hrun => ?_,
    fun path hrun => ?_⟩
  · simp only at hrun
    subst hrun
    simp only [RegistryTask.check, Bool.and_eq_true, decide_eq_true_eq, beq_iff_eq] at hcheck
    obtain ⟨⟨⟨⟨hmem, hconfirmed⟩, -⟩, -⟩, rfl⟩ := hcheck
    exact (h.stops run hmem).2 hconfirmed
  · simp only at hrun
    subst hrun
    simp only [RegistryTask.check, Bool.and_eq_true] at hcheck
    obtain ⟨⟨⟨⟨-, hconnected⟩, -⟩, -⟩, -⟩ := hcheck
    exact Config.requireConnected_isOk.mp hconnected
  · simp only at hrun
    subst hrun
    exact hcheck

theorem Sound.save (h : Sound rules s) (ht : s.performTask rules .save = some t) :
    Sound rules t := by
  obtain ⟨sec, hsec, -, ⟨-, rfl⟩ | ⟨config, u, hnext, hu, rfl⟩⟩ := save_ok ht
  · refine { h with task := fun sec' hsec' => ?_ }
    cases Option.some.inj hsec'
    exact { h.task sec hsec with }
  · have hsaved := h.next hsec hnext
    obtain ⟨rfl, hsound⟩ := h.saveConfig hu hsaved.ended
    refine { hsound with task := fun sec' hsec' => ?_ }
    cases Option.some.inj hsec'
    exact hsaved

/-- A new call speaks to the address it has loaded and has no answer yet. -/
theorem Sound.follow {sec : RegistrySection} {token : String} (h : Sound rules s) :
    Sound rules (s.follow rules sec token) := by
  cases htask : sec.task with
  | stop =>
    simp only [Desktop.follow, htask, beginStop]
    split
    · exact h
    · split
      · exact h
      · rename_i server hserver
        split
        · rename_i client hclient
          refine { h with stops := fun run hrun => ?_ }
          rcases List.mem_cons.mp hrun with rfl | hrun
          · exact ⟨Config.reached_of_new hserver hclient, fun hc => by cases hc⟩
          · exact h.stops run hrun
        · exact h
  | exit =>
    simp only [Desktop.follow, htask, Desktop.beginExit]
    split
    · exact h
    · rename_i server hserver
      split
      · rename_i client hclient
        refine { h with exits := fun run hrun => ?_ }
        rcases List.mem_cons.mp hrun with rfl | hrun
        · exact ⟨Config.reached_of_new hserver hclient, fun hc => by cases hc⟩
        · exact h.exits run hrun
      · exact h
  | confirm run =>
    simp only [Desktop.follow, htask]
    exact { h with stops := fun run' hrun => h.stops run' (List.mem_of_mem_erase hrun) }
  | remove path =>
    simp only [Desktop.follow, htask]
    exact { h with }
  | update name baseUrl insecure autoReceive =>
    simp only [Desktop.follow, htask]
    exact h

theorem Sound.performTask {a : DesktopStep} (h : Sound rules s)
    (ht : s.performTask rules a = some t) : Sound rules t := by
  cases a with
  | enter task id => exact h.enter ht
  | save => exact h.save ht
  | close token =>
    obtain ⟨sec, registry, u, -, -, -, hu, rfl⟩ := close_ok ht
    exact (h.writeRegistry hu).2.follow
  | abandonTask =>
    cases Option.some.inj ht
    exact { h with task := fun _ hsec => by cases hsec }
  | _ => contradiction

/-- An accepted body is one that the relay has given. -/
theorem genuine_ok {α : Type} {reply : α → RelayReply} {answer : SetupAnswer α} {body : α}
    (h : s.genuine reply answer = true) (hreceive : answer.receive = .ok body) :
    reply body ∈ s.replies := by
  obtain ⟨status, length, rfl⟩ := PairingClient.receive_ok hreceive
  exact of_decide_eq_true h

theorem Sound.disconnected {run : StopRun} {answer : SetupAnswer FolderHandshake}
    (h : Sound rules s) (ht : s.performRun rules (.disconnected run answer) = some t) :
    Sound rules t := by
  simp only [Desktop.performRun] at ht
  split at ht
  · rename_i hrun
    obtain ⟨hmem, hgenuine, hok⟩ := hrun
    cases Option.some.inj ht
    obtain ⟨info, hinfo⟩ : ∃ info, run.client.disconnect answer = .ok info := by
      cases hanswer : run.client.disconnect answer with
      | ok info => exact ⟨info, rfl⟩
      | error e =>
        rw [hanswer] at hok
        contradiction
    obtain ⟨hreceive, hstate, hnames⟩ := PairingClient.disconnect_ok hinfo
    obtain ⟨hreached, -⟩ := h.stops run hmem
    have hrevoked := h.handshakes _ _ (genuine_ok hgenuine hreceive) hstate
    refine { h with stops := fun run' hrun' => ?_ }
    rcases List.mem_cons.mp hrun' with rfl | hrun'
    · exact ⟨hreached, fun _ => hreached.revoked hnames hrevoked⟩
    · exact h.stops run' (List.mem_of_mem_erase hrun')
  · contradiction

theorem Sound.exitAnswered {run : ExitRun} {answer : SetupAnswer ExitReceipt}
    (h : Sound rules s) (ht : s.performRun rules (.exitAnswered run answer) = some t) :
    Sound rules t := by
  simp only [Desktop.performRun] at ht
  split at ht
  · rename_i hrun
    obtain ⟨hmem, hgenuine, hrevoked⟩ := hrun
    split at ht
    · rename_i status hstatus
      split at ht
      · cases Option.some.inj ht
        obtain ⟨version, hreceive, hnames, hmutation⟩ := PairingClient.exitRequest_ok hstatus
        obtain ⟨hreached, -⟩ := h.exits run hmem
        refine { h with exits := fun run' hrun' => ?_ }
        rcases List.mem_cons.mp hrun' with rfl | hrun'
        · refine ⟨hreached, fun hstage => ?_⟩
          -- Only the answer to the exit itself leads to the last stage.
          have hclean : (run.stage == .clean) = true := by
            cases hs : run.stage with
            | status => simp [hs] at hstage
            | clean => rfl
            | revoked => exact absurd hs hrevoked
          exact hreached.revoked hnames
            (h.receipts _ _ (genuine_ok hgenuine hreceive) (hmutation hclean).1)
        · exact h.exits run' (List.mem_of_mem_erase hrun')
      · contradiction
    · contradiction
  · contradiction

/-- An operation goes on with a configuration that may be recorded as over. -/
theorem Sound.insertOperation {key : List PathPart} {operation : FolderOperation}
    (h : Sound rules s)
    (hexit : ∀ config, operation.config = some config → config.Revoked rules.parse s.relays) :
    Sound rules { s with operations := s.operations.insert key operation } := by
  refine { h with operations := fun key' operation' config hop hconfig => ?_ }
  rw [Files.lookup_insert] at hop
  split at hop
  · cases Option.some.inj hop
    exact hexit config hconfig
  · exact h.operations key' operation' config hop hconfig

theorem Sound.eraseOperation {key : List PathPart} (h : Sound rules s) :
    Sound rules { s with operations := s.operations.erase key } := by
  refine { h with operations := fun key' operation config hop hconfig => ?_ }
  exact h.operations key' operation config (Files.lookup_of_erase hop) hconfig

theorem Sound.receipt {path : PathBuf} {answer : SetupAnswer ExitReceipt} (h : Sound rules s)
    (ht : s.performRun rules (.receipt path answer) = some t) : Sound rules t := by
  simp only [Desktop.performRun] at ht
  split at ht
  · rename_i config client hop
    have hrevoked := h.operations _ _ _ hop rfl
    have herased : Sound rules { s with operations := s.operations.erase path.components } :=
      h.eraseOperation
    split at ht
    · split at ht
      · split at ht
        · split at ht
          · exact (herased.saveConfig ht fun _ => hrevoked.of_baseUrl rfl).2
          · cases Option.some.inj ht
            exact herased
        · contradiction
      · contradiction
    · contradiction
  · contradiction

theorem Sound.performRun {a : DesktopStep} (h : Sound rules s)
    (ht : s.performRun rules a = some t) : Sound rules t := by
  cases a with
  | disconnected run answer => exact h.disconnected ht
  | exitAnswered run answer => exact h.exitAnswered ht
  | receipt path answer => exact h.receipt ht
  | operate run =>
    simp only [Desktop.performRun] at ht
    split at ht
    · rename_i hrun
      cases Option.some.inj ht
      have hrevoked := (h.exits run hrun.1).2 hrun.2.1
      have hexits : Sound rules { s with exits := s.exits.erase run } :=
        { h with exits := fun run' hrun' => h.exits run' (List.mem_of_mem_erase hrun') }
      exact hexits.insertOperation fun config hconfig => Option.some.inj hconfig ▸ hrevoked
    · contradiction
  | receive id path =>
    simp only [Desktop.performRun] at ht
    split at ht
    · cases Option.some.inj ht
      exact h.insertOperation nofun
    · contradiction
  | read path =>
    simp only [Desktop.performRun] at ht
    split at ht
    · rename_i id registry run config hop hfile
      split at ht
      · split at ht
        · split at ht
          · cases Option.some.inj ht
            exact h.insertOperation nofun
          · contradiction
        · split at ht
          · rename_i run _ heq
            cases Option.some.inj ht
            have hrevoked := h.operations _ _ _ hop (congrArg some heq.symm)
            exact h.insertOperation fun config' hconfig' => Option.some.inj hconfig' ▸ hrevoked
          · contradiction
      · contradiction
    · contradiction
  | cleaned path =>
    simp only [Desktop.performRun] at ht
    split at ht
    · rename_i config client hop
      have hrevoked := h.operations _ _ _ hop rfl
      obtain ⟨u, hu, rfl⟩ := Option.map_eq_some_iff.mp ht
      obtain ⟨rfl, hsaved⟩ := h.saveConfig hu fun _ => hrevoked.of_baseUrl rfl
      exact hsaved.insertOperation fun config' hconfig' =>
        Option.some.inj hconfig' ▸ hrevoked.of_baseUrl rfl
    · contradiction
  | forget id path =>
    simp only [Desktop.performRun] at ht
    split at ht
    · split at ht
      · cases Option.some.inj ht
        exact { h with }
      · contradiction
    · contradiction
  | delete path =>
    simp only [Desktop.performRun] at ht
    split at ht
    · cases Option.some.inj ht
      refine { h with files := fun key config hfile hover => ?_ }
      exact h.files key config (Files.lookup_of_erase hfile) hover
    · contradiction
  | abandonStop run =>
    cases Option.some.inj ht
    exact { h with stops := fun run' hrun => h.stops run' (List.mem_of_mem_erase hrun) }
  | abandonExit run =>
    cases Option.some.inj ht
    exact { h with exits := fun run' hrun => h.exits run' (List.mem_of_mem_erase hrun) }
  | abandonOperation path =>
    cases Option.some.inj ht
    exact h.eraseOperation
  | abandonForget id path =>
    cases Option.some.inj ht
    exact { h with }
  | abandonDelete path =>
    cases Option.some.inj ht
    exact { h with }
  | _ => contradiction

theorem perform_cases {a : DesktopStep} (h : s.perform maxFileSize rules a = some t) :
    s.performOutside maxFileSize rules a = some t ∨ s.performTask rules a = some t ∨
      s.performRun rules a = some t := by
  simp only [perform, Option.orElse_eq_orElse, Option.orElse_eq_or, Option.or_eq_some_iff] at h
  rcases h with h | ⟨-, h | ⟨-, h⟩⟩
  · exact .inl h
  · exact .inr (.inl h)
  · exact .inr (.inr h)

theorem Sound.step {a : DesktopStep} (h : Sound rules s)
    (ht : s.perform maxFileSize rules a = some t) : Sound rules t := by
  rcases perform_cases ht with ht | ht | ht
  · exact h.performOutside ht
  · exact h.performTask ht
  · exact h.performRun ht

end Desktop

end MiRelay
