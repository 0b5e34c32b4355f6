import MiRelay.Desktop.ConnectionRuns

/-!
# A stopped Folder stays stopped

The lock of the registry keeps what a task has loaded, except for an exit, which
writes with the operation lock alone. The invariant says which calls may still
write a configuration; from it follows what one step can make of a configuration
at all, and from that what a whole run leaves of one that was stopped.
-/

namespace MiRelay

/-- The configuration of a path is gone or in an exit. -/
def InExit (file : Option Config) : Prop :=
  ∀ config, file = some config → config.connectionState.isExit = true

/-- What a task has loaded is still there, or an exit has gone on with it. -/
def Holding (file : Option Config) (loaded : Config) : Prop :=
  file = some loaded ∨ loaded.connectionState.isExit = true ∧ InExit file ∧
    ∀ config, file = some config → config.baseUrl = loaded.baseUrl

/-- A task that relies on what it has loaded. -/
def RegistrySection.relies (sec : RegistrySection) : Prop :=
  sec.saved = false ∨ ∃ path, sec.task = .remove path

/-- What a task was admitted with. -/
def RegistrySection.Fits (sec : RegistrySection) : Prop :=
  match sec.task with
  | .stop => sec.config.connectionState.isExit = false
  | .confirm _ => sec.config.connectionState = .disconnectPending
  | .exit => sec.config.connectionState ≠ .disconnected
  | .update .. => sec.config.connectionState = .connected
  | .remove _ => True

/-- An exit keeps away from what is not in an exit. -/
theorem Holding.eq {file : Option Config} {loaded : Config} (h : Holding file loaded)
    (hloaded : loaded.connectionState.isExit = false) : file = some loaded :=
  h.resolve_right fun hexit => by simp [hexit.1] at hloaded

/-- What one step can make of the configuration of a path. -/
inductive FileChange (before : Option Config) : Option Config → Prop
  | same : FileChange before before
  | edited {config config' : Config} (h : before = some config)
      (hconfig : config.connectionState = .connected)
      (hconfig' : config'.connectionState = .connected) : FileChange before (some config')
  | stopped {config : Config} (h : before = some config)
      (hopen : config.connectionState.isExit = false)
      (hconnected : config.connectionState ≠ .disconnected) :
      FileChange before (some { config with connectionState := .disconnectPending })
  | disconnected {config : Config} (h : before = some config)
      (hpending : config.connectionState = .disconnectPending) :
      FileChange before (some { config with connectionState := .disconnected })
  | exited {after : Option Config}
      (hbefore : ∀ config, before = some config → config.connectionState ≠ .disconnected)
      (hafter : InExit after) : FileChange before after

namespace FileChange

variable {before after : Option Config}

end FileChange

namespace Desktop

variable {maxFileSize : Nat} {rules : DesktopRules} {s t : Desktop} {key : List PathPart}

/-- Which calls may still write a configuration, and what they have to find there. -/
structure Guarded (s : Desktop) : Prop where
  valid : s.registry.Valid
  used : ∀ key config, s.files.lookup key = some config → key ∈ s.used
  entry : ∀ sec, s.lock = some sec → sec.path.components ∈ s.used ∧
    ∃ bridge, s.registry.bridges.find? (·.id == sec.id) = some bridge ∧ bridge.configPath = sec.path
  loaded : ∀ sec, s.lock = some sec → sec.saved = false → sec.Fits
  holding : ∀ sec, s.lock = some sec → sec.relies → Holding (s.file sec.path) sec.config
  shared : ∀ sec config client cleaned, s.lock = some sec → sec.relies →
    s.operations.lookup sec.path.components = some (.exit config client cleaned) →
      config.baseUrl = sec.config.baseUrl
  stopping : ∀ sec, s.lock = some sec → sec.saved = true → sec.task = .stop →
    sec.config.connectionState = .disconnected ∨ sec.config.connectionState = .disconnectPending
  exiting : ∀ sec, s.lock = some sec → sec.saved = true → sec.task = .exit →
    InExit (s.file sec.path)
  stops : ∀ run ∈ s.stops, run.config.connectionState = .disconnectPending
  exits : ∀ run ∈ s.exits, run.path.components ∈ s.used ∧ InExit (s.file run.path)
  operations : ∀ key config client cleaned,
    s.operations.lookup key = some (.exit config client cleaned) →
      key ∈ s.used ∧ config.connectionState.isExit = true ∧ InExit (s.files.lookup key) ∧
        ∀ config', s.files.lookup key = some config' → config'.baseUrl = config.baseUrl
  loading : ∀ key id registry run,
    s.operations.lookup key = some (.loading id registry (some run)) →
      key ∈ s.used ∧ InExit (s.files.lookup key)
  deletes : ∀ path ∈ s.deletes, path.components ∈ s.used ∧ InExit (s.file path)

theorem Guarded.initial : Guarded .initial where
  valid := BridgeRegistry.validate_ok.mp rfl
  used _ _ h := by cases h
  entry _ h := by cases h
  loaded _ h := by cases h
  holding _ h := by cases h
  shared _ _ _ _ h := by cases h
  stopping _ h := by cases h
  exiting _ h := by cases h
  stops _ h := absurd h List.not_mem_nil
  exits _ h := absurd h List.not_mem_nil
  operations _ _ _ _ h := by cases h
  loading _ _ _ _ h := by cases h
  deletes _ h := absurd h List.not_mem_nil

/-- The lock is given back. -/
theorem Guarded.unlock (h : Guarded s) : Guarded { s with lock := none } :=
  { h with
    entry := fun _ hsec => by cases hsec
    loaded := fun _ hsec => by cases hsec
    holding := fun _ hsec => by cases hsec
    shared := fun _ _ _ _ hsec => by cases hsec
    stopping := fun _ hsec => by cases hsec
    exiting := fun _ hsec => by cases hsec }

/-- A task takes the lock. -/
theorem Guarded.relock {sec : RegistrySection} (h : Guarded s)
    (hentry : sec.path.components ∈ s.used ∧
      ∃ bridge, s.registry.bridges.find? (·.id == sec.id) = some bridge ∧
        bridge.configPath = sec.path)
    (hloaded : sec.saved = false → sec.Fits)
    (hholding : sec.relies → Holding (s.file sec.path) sec.config)
    (hshared : ∀ config client cleaned, sec.relies →
      s.operations.lookup sec.path.components = some (.exit config client cleaned) →
        config.baseUrl = sec.config.baseUrl)
    (hstopping : sec.saved = true → sec.task = .stop →
      sec.config.connectionState = .disconnected ∨ sec.config.connectionState = .disconnectPending)
    (hexiting : sec.saved = true → sec.task = .exit → InExit (s.file sec.path)) :
    Guarded { s with lock := some sec } :=
  { h with
    entry := fun _ hsec => Option.some.inj hsec ▸ hentry
    loaded := fun _ hsec => Option.some.inj hsec ▸ hloaded
    holding := fun _ hsec => Option.some.inj hsec ▸ hholding
    shared := fun _ _ _ _ hsec => Option.some.inj hsec ▸ hshared _ _ _
    stopping := fun _ hsec => Option.some.inj hsec ▸ hstopping
    exiting := fun _ hsec => Option.some.inj hsec ▸ hexiting }

theorem inExit_insert {config : Config} {key' : List PathPart}
    (hexit : InExit (s.files.lookup key) → config.connectionState.isExit = true)
    (hkey : InExit (s.files.lookup key')) : InExit ((s.files.insert key config).lookup key') := by
  intro config' hconfig'
  rw [Files.lookup_insert] at hconfig'
  split at hconfig'
  · rename_i heq
    subst heq
    cases Option.some.inj hconfig'
    exact hexit hkey
  · exact hkey config' hconfig'

/-- What a write has to be, for the calls that may still find it. -/
theorem Guarded.write {config : Config} (h : Guarded s) (hused : key ∈ s.used)
    (hexit : InExit (s.files.lookup key) → config.connectionState.isExit = true)
    (hurl : ∀ config' client cleaned,
      s.operations.lookup key = some (.exit config' client cleaned) →
        config.baseUrl = config'.baseUrl)
    (hlock : ∀ sec, s.lock = some sec → sec.path.components = key →
      InExit (s.files.lookup key) ∧ (sec.relies → config.baseUrl = sec.config.baseUrl)) :
    Guarded { s with files := s.files.insert key config } := by
  have hkeep : ∀ key', InExit (s.files.lookup key') →
      InExit ((s.files.insert key config).lookup key') := fun _ => inExit_insert hexit
  exact
    { h with
      used := fun key' config' hconfig' => by
        rw [Files.lookup_insert] at hconfig'
        split at hconfig'
        · rename_i heq
          exact heq ▸ hused
        · exact h.used key' config' hconfig'
      holding := fun sec hsec hrelies => by
        have hholding := h.holding sec hsec hrelies
        by_cases hpath : sec.path.components = key
        · obtain ⟨hin, hsame⟩ := hlock sec hsec hpath
          have hloaded : sec.config.connectionState.isExit = true := by
            rcases hholding with heq | hexit'
            · exact hin _ (hpath ▸ heq)
            · exact hexit'.1
          refine .inr ⟨hloaded, hkeep _ (by rw [hpath]; exact hin), fun config' hconfig' => ?_⟩
          rw [file, Files.lookup_insert, if_pos hpath] at hconfig'
          exact Option.some.inj hconfig' ▸ hsame hrelies
        · rw [file, Files.lookup_insert, if_neg hpath]
          exact hholding
      exiting := fun sec hsec hsaved htask => hkeep _ (h.exiting sec hsec hsaved htask)
      exits := fun run hrun => ⟨(h.exits run hrun).1, hkeep _ (h.exits run hrun).2⟩
      operations := fun key' config' client cleaned hop => by
        obtain ⟨hkey, hstate, hin, hsame⟩ := h.operations key' config' client cleaned hop
        refine ⟨hkey, hstate, hkeep _ hin, fun config'' hconfig'' => ?_⟩
        rw [Files.lookup_insert] at hconfig''
        split at hconfig''
        · rename_i heq
          subst heq
          cases Option.some.inj hconfig''
          exact hurl config' client cleaned hop
        · exact hsame config'' hconfig''
      loading := fun key' id registry run hop =>
        ⟨(h.loading key' id registry run hop).1, hkeep _ (h.loading key' id registry run hop).2⟩
      deletes := fun path hpath => ⟨(h.deletes path hpath).1, hkeep _ (h.deletes path hpath).2⟩ }

/-- A task writes what it has not lost to an exit. -/
theorem Guarded.writeTask (h : Guarded s) (config : Config) (hused : key ∈ s.used)
    (hexit : InExit (s.files.lookup key) → config.connectionState.isExit = true)
    (hurl : ∀ config' client cleaned,
      s.operations.lookup key = some (.exit config' client cleaned) →
        config.baseUrl = config'.baseUrl) :
    Guarded { s with files := s.files.insert key config, lock := none } :=
  h.unlock.write hused hexit hurl fun _ hsec => by cases hsec

/-- A configuration appears where none has been. -/
theorem Guarded.create {config : Config} (h : Guarded s) (hused : key ∉ s.used) :
    Guarded { s with files := s.files.insert key config, used := key :: s.used } := by
  have hkeep : ∀ key' ∈ s.used, (s.files.insert key config).lookup key' = s.files.lookup key' := by
    intro key' hkey'
    have hne : key' ≠ key := fun heq => hused (heq ▸ hkey')
    rw [Files.lookup_insert, if_neg hne]
  exact
    { h with
      used := fun key' config' hconfig' => by
        rw [Files.lookup_insert] at hconfig'
        split at hconfig'
        · rename_i heq
          exact heq ▸ List.mem_cons_self
        · exact List.mem_cons_of_mem _ (h.used key' config' hconfig')
      entry := fun sec hsec => ⟨List.mem_cons_of_mem _ (h.entry sec hsec).1, (h.entry sec hsec).2⟩
      holding := fun sec hsec hrelies => by
        rw [file, hkeep _ (h.entry sec hsec).1]
        exact h.holding sec hsec hrelies
      exiting := fun sec hsec hsaved htask => by
        rw [file, hkeep _ (h.entry sec hsec).1]
        exact h.exiting sec hsec hsaved htask
      exits := fun run hrun => by
        rw [file, hkeep _ (h.exits run hrun).1]
        exact ⟨List.mem_cons_of_mem _ (h.exits run hrun).1, (h.exits run hrun).2⟩
      operations := fun key' config' client cleaned hop => by
        obtain ⟨hkey, hstate, hin, hsame⟩ := h.operations key' config' client cleaned hop
        rw [hkeep _ hkey]
        exact ⟨List.mem_cons_of_mem _ hkey, hstate, hin, hsame⟩
      loading := fun key' id registry run hop => by
        obtain ⟨hkey, hin⟩ := h.loading key' id registry run hop
        rw [hkeep _ hkey]
        exact ⟨List.mem_cons_of_mem _ hkey, hin⟩
      deletes := fun path hpath => by
        rw [file, hkeep _ (h.deletes path hpath).1]
        exact ⟨List.mem_cons_of_mem _ (h.deletes path hpath).1, (h.deletes path hpath).2⟩ }

/-- The receipt of an exit is deleted. -/
theorem Guarded.delete (h : Guarded s) (hkey : InExit (s.files.lookup key)) :
    Guarded { s with files := s.files.erase key } := by
  have hkeep : ∀ key', InExit (s.files.lookup key') → InExit ((s.files.erase key).lookup key') := by
    intro key' hkey' config hconfig
    exact hkey' config (Files.lookup_of_erase hconfig)
  exact
    { h with
      used := fun key' config hconfig => h.used key' config (Files.lookup_of_erase hconfig)
      holding := fun sec hsec hrelies => by
        have hholding := h.holding sec hsec hrelies
        by_cases hpath : sec.path.components = key
        · have hloaded : sec.config.connectionState.isExit = true := by
            rcases hholding with heq | hexit
            · exact hkey _ (hpath ▸ heq)
            · exact hexit.1
          rw [file, Files.lookup_erase, if_pos hpath]
          exact .inr ⟨hloaded, nofun, nofun⟩
        · rw [file, Files.lookup_erase, if_neg hpath]
          exact hholding
      exiting := fun sec hsec hsaved htask => hkeep _ (h.exiting sec hsec hsaved htask)
      exits := fun run hrun => ⟨(h.exits run hrun).1, hkeep _ (h.exits run hrun).2⟩
      operations := fun key' config client cleaned hop => by
        obtain ⟨hkey', hstate, hin, hsame⟩ := h.operations key' config client cleaned hop
        exact ⟨hkey', hstate, hkeep _ hin, fun config' hconfig' =>
          hsame config' (Files.lookup_of_erase hconfig')⟩
      loading := fun key' id registry run hop =>
        ⟨(h.loading key' id registry run hop).1, hkeep _ (h.loading key' id registry run hop).2⟩
      deletes := fun path hpath => ⟨(h.deletes path hpath).1, hkeep _ (h.deletes path hpath).2⟩ }

theorem saveConfig_ok {path : PathBuf} {config : Config}
    (ht : s.saveConfig rules path config = some t) :
    t = { s with files := s.files.insert path.components config } := by
  simp only [Desktop.saveConfig] at ht
  split at ht
  · exact (Option.some.inj ht).symm
  · contradiction

theorem writeRegistry_ok {registry : BridgeRegistry} (ht : s.writeRegistry registry = some t) :
    registry.Valid ∧ t = { s with registry, lock := none } := by
  simp only [Desktop.writeRegistry] at ht
  split at ht
  · rename_i hvalid
    exact ⟨BridgeRegistry.validate_ok.mp hvalid, (Option.some.inj ht).symm⟩
  · contradiction

theorem changeRegistry_ok {result : Except RegistryError Unit × BridgeRegistry}
    (ht : s.changeRegistry result = some t) :
    s.lock = none ∧ result.2.Valid ∧ result.1.isOk = true ∧
      t = { s with registry := result.2, lock := none } := by
  simp only [Desktop.changeRegistry] at ht
  split at ht
  · rename_i hlock
    exact ⟨hlock, (writeRegistry_ok ht).1, rfl, (writeRegistry_ok ht).2⟩
  · contradiction

/-- The registry is replaced while its lock is given back. -/
theorem Guarded.writeRegistry {registry : BridgeRegistry} (h : Guarded s)
    (ht : s.writeRegistry registry = some t) : Guarded t := by
  obtain ⟨hvalid, rfl⟩ := writeRegistry_ok ht
  exact { h.unlock with valid := hvalid, entry := fun _ hsec => by cases hsec }

theorem Guarded.changeRegistry {result : Except RegistryError Unit × BridgeRegistry}
    (h : Guarded s) (ht : s.changeRegistry result = some t) : Guarded t := by
  simp only [Desktop.changeRegistry] at ht
  split at ht
  · exact h.writeRegistry ht
  · contradiction

theorem Guarded.performOutside {a : DesktopStep} (h : Guarded s)
    (ht : s.performOutside maxFileSize rules a = some t) : Guarded t := by
  cases a with
  | relay origin a =>
    obtain ⟨desk, -, rfl⟩ := Option.map_eq_some_iff.mp ht
    exact { h with }
  | answerHandshake origin id hash =>
    simp only [Desktop.performOutside] at ht
    split at ht
    · cases Option.some.inj ht
      exact { h with }
    · contradiction
  | answerExit origin id hash =>
    simp only [Desktop.performOutside] at ht
    split at ht
    · cases Option.some.inj ht
      exact { h with }
    · contradiction
  | create path config =>
    simp only [Desktop.performOutside] at ht
    split at ht
    · rename_i hcreate
      obtain ⟨u, hu, rfl⟩ := Option.map_eq_some_iff.mp ht
      rw [saveConfig_ok hu]
      exact h.create hcreate.1
    · contradiction
  | register bridge => exact h.changeRegistry ht
  | rename id name => exact h.changeRegistry ht
  | select id => exact h.changeRegistry ht
  | setKind id kind => exact h.changeRegistry ht
  | setAutoReceive id enabled => exact h.changeRegistry ht
  | _ => contradiction

/-- A task is admitted with what it needs. -/
theorem fits_of_check {task : RegistryTask} {id : String} {path : PathBuf} {config : Config}
    (h : Guarded s) (hcheck : task.check rules s id path config = true) :
    RegistrySection.Fits ⟨task, id, path, config, false⟩ := by
  cases task with
  | stop =>
    simp only [RegistryTask.check, Bool.and_eq_true, Bool.not_eq_true'] at hcheck
    exact hcheck.1
  | confirm run =>
    simp only [RegistryTask.check, Bool.and_eq_true, decide_eq_true_eq, beq_iff_eq] at hcheck
    obtain ⟨⟨⟨⟨hmem, -⟩, -⟩, -⟩, rfl⟩ := hcheck
    exact h.stops run hmem
  | exit =>
    simp only [RegistryTask.check, Bool.and_eq_true, bne_iff_ne] at hcheck
    exact hcheck.2
  | update name baseUrl insecure autoReceive =>
    simp only [RegistryTask.check, Bool.and_eq_true] at hcheck
    obtain ⟨⟨⟨⟨-, hconnected⟩, -⟩, -⟩, -⟩ := hcheck
    exact Config.requireConnected_isOk.mp hconnected
  | remove => trivial

theorem Guarded.enter {task : RegistryTask} {id : String} (h : Guarded s)
    (ht : s.performTask rules (.enter task id) = some t) : Guarded t := by
  obtain ⟨-, bridge, config, hload, hcheck, rfl⟩ := enter_ok ht
  obtain ⟨hbridge, hfile⟩ := load_ok hload
  refine h.relock ⟨h.used _ _ hfile, bridge, hbridge, rfl⟩ (fun _ => fits_of_check h hcheck)
    (fun _ => .inl hfile) (fun config' client cleaned _ hop => ?_) nofun nofun
  exact ((h.operations _ config' client cleaned hop).2.2.2 config hfile).symm

/-- What a task writes is an exit exactly when the exit writes it. -/
theorem next_exit {sec : RegistrySection} {config : Config} (h : sec.Fits)
    (hnext : sec.task.next sec.config = some config) :
    (sec.task = .exit ∧ config.connectionState = .exitPending ∧
        config.baseUrl = sec.config.baseUrl) ∨
      sec.config.connectionState.isExit = false ∧ sec.task ≠ .exit ∧
        (∀ path, sec.task ≠ .remove path) ∧
        FileChange (some sec.config) (some config) ∧
          (sec.task = .stop → config.connectionState = .disconnectPending) := by
  cases htask : sec.task with
  | stop =>
    rw [htask] at hnext
    simp only [RegistrySection.Fits, htask] at h
    simp only [RegistryTask.next] at hnext
    split at hnext
    · contradiction
    · rename_i hconnected
      cases Option.some.inj hnext
      exact .inr ⟨h, nofun, nofun, .stopped rfl h hconnected, fun _ => rfl⟩
  | confirm run =>
    rw [htask] at hnext
    simp only [RegistrySection.Fits, htask] at h
    cases Option.some.inj hnext
    exact .inr ⟨by rw [h]; rfl, nofun, nofun, .disconnected rfl h, nofun⟩
  | exit =>
    rw [htask] at hnext
    simp only [RegistryTask.next] at hnext
    split at hnext
    · contradiction
    · cases Option.some.inj hnext
      exact .inl ⟨rfl, rfl, rfl⟩
  | update name baseUrl insecure autoReceive =>
    rw [htask] at hnext
    simp only [RegistrySection.Fits, htask] at h
    cases Option.some.inj hnext
    exact .inr ⟨by rw [h]; rfl, nofun, nofun,
      .edited rfl h (Config.setHttpServer_connectionState.trans h), nofun⟩
  | remove path =>
    rw [htask] at hnext
    contradiction

/-- An operation of an exit works on a configuration in an exit. -/
theorem Guarded.not_exit {config config' : Config} {client : PairingClient} {cleaned : Bool}
    (h : Guarded s) (hfile : s.files.lookup key = some config)
    (hconfig : config.connectionState.isExit = false) :
    s.operations.lookup key ≠ some (.exit config' client cleaned) := fun hop => by
  have hexit := (h.operations key config' client cleaned hop).2.2.1 config hfile
  rw [hconfig] at hexit
  cases hexit

theorem Guarded.save (h : Guarded s) (ht : s.performTask rules .save = some t) : Guarded t := by
  obtain ⟨sec, hsec, hsaved, ⟨hnext, rfl⟩ | ⟨config, u, hnext, hu, rfl⟩⟩ := save_ok ht
  · have hholding := h.holding sec hsec (.inl hsaved)
    refine h.relock (h.entry sec hsec) nofun (fun _ => hholding)
      (fun config client cleaned _ hop => h.shared sec config client cleaned hsec (.inl hsaved) hop)
      (fun _ htask => ?_) fun _ htask => ?_
    · simp only at htask
      rw [htask] at hnext
      simp only [RegistryTask.next] at hnext
      split at hnext
      · rename_i hdisconnected
        exact .inl hdisconnected
      · contradiction
    · simp only at htask
      rw [htask] at hnext
      simp only [RegistryTask.next] at hnext
      split at hnext
      · rename_i hcleaned
        rcases hholding with hfile | hexit
        · intro config' hconfig'
          cases hfile.symm.trans hconfig'
          cases hstate : sec.config.connectionState <;>
            simp_all [ConnectionState.isCleaned, ConnectionState.isExit]
        · exact hexit.2.1
      · contradiction
  · have hholding := h.holding sec hsec (.inl hsaved)
    have hentry := h.entry sec hsec
    rw [saveConfig_ok hu]
    rcases next_exit (h.loaded sec hsec hsaved) hnext with
      ⟨htask, hstate, hurl⟩ | ⟨hopen, hexit, hremove, hchange, hstop⟩
    · have hin : config.connectionState.isExit = true := by rw [hstate]; rfl
      have hwritten := h.writeTask config hentry.1 (fun _ => hin)
        fun config' client cleaned hop => hurl.trans
          (h.shared sec config' client cleaned hsec (.inl hsaved) hop).symm
      refine hwritten.relock hentry nofun (fun hrelies => ?_) (fun _ _ _ hrelies => ?_)
        (fun _ hstop => ?_) fun _ _ => ?_
      · obtain ⟨path, hremove⟩ := hrelies.resolve_left nofun
        exact absurd (htask.symm.trans hremove) nofun
      · obtain ⟨path, hremove⟩ := hrelies.resolve_left nofun
        exact absurd (htask.symm.trans hremove) nofun
      · simp only at hstop
        rw [htask] at hstop
        contradiction
      · intro config' hconfig'
        rw [file, Files.lookup_insert, if_pos rfl] at hconfig'
        exact Option.some.inj hconfig' ▸ hin
    · have hfile := hholding.eq hopen
      have hwritten := h.writeTask config hentry.1
        (fun hin => absurd (hin _ hfile) (by simp [hopen]))
        fun config' client cleaned hop => absurd hop (h.not_exit hfile hopen)
      refine hwritten.relock hentry nofun (fun hrelies => ?_) (fun _ _ _ hrelies => ?_)
        (fun _ hstop' => .inr (hstop hstop')) fun _ hexit' => absurd hexit' hexit
      · obtain ⟨path, hremoves⟩ := hrelies.resolve_left nofun
        exact absurd hremoves (hremove path)
      · obtain ⟨path, hremoves⟩ := hrelies.resolve_left nofun
        exact absurd hremoves (hremove path)

theorem Guarded.follow {sec : RegistrySection} {token : String} (h : Guarded s)
    (hused : sec.path.components ∈ s.used)
    (hstopping : sec.task = .stop → sec.config.connectionState = .disconnected ∨
      sec.config.connectionState = .disconnectPending)
    (hexiting : sec.task = .exit → InExit (s.file sec.path)) :
    Guarded (s.follow rules sec token) := by
  cases htask : sec.task with
  | stop =>
    simp only [Desktop.follow, htask, beginStop]
    split
    · exact h
    · rename_i hconnected
      split
      · exact h
      · split
        · refine { h with stops := fun run hrun => ?_ }
          rcases List.mem_cons.mp hrun with rfl | hrun
          · exact (hstopping htask).resolve_left hconnected
          · exact h.stops run hrun
        · exact h
  | exit =>
    simp only [Desktop.follow, htask, Desktop.beginExit]
    split
    · exact h
    · split
      · refine { h with exits := fun run hrun => ?_ }
        rcases List.mem_cons.mp hrun with rfl | hrun
        · exact ⟨hused, hexiting htask⟩
        · exact h.exits run hrun
      · exact h
  | confirm run =>
    simp only [Desktop.follow, htask]
    exact { h with stops := fun run' hrun => h.stops run' (List.mem_of_mem_erase hrun) }
  | remove path =>
    simp only [Desktop.follow, htask]
    exact { h with }
  | update name baseUrl insecure autoReceive =>
    simp only [Desktop.follow, htask]
    exact h

theorem Guarded.performTask {a : DesktopStep} (h : Guarded s)
    (ht : s.performTask rules a = some t) : Guarded t := by
  cases a with
  | enter task id => exact h.enter ht
  | save => exact h.save ht
  | close token =>
    obtain ⟨sec, registry, u, hsec, hsaved, -, hu, rfl⟩ := close_ok ht
    have hwritten := h.writeRegistry hu
    obtain ⟨-, rfl⟩ := writeRegistry_ok hu
    exact hwritten.follow (h.entry sec hsec).1 (h.stopping sec hsec hsaved)
      (h.exiting sec hsec hsaved)
  | abandonTask =>
    cases Option.some.inj ht
    exact h.unlock
  | _ => contradiction

/-- The operation of a path ends, or is none of an exit. -/
theorem Guarded.setOperations {operations : Files (List PathPart) FolderOperation} (h : Guarded s)
    (hsub : ∀ key operation config, operations.lookup key = some operation →
      operation.config = some config → s.operations.lookup key = some operation) :
    Guarded { s with operations } :=
  { h with
    shared := fun sec config client cleaned hsec hrelies hop =>
      h.shared sec config client cleaned hsec hrelies (hsub _ _ _ hop rfl)
    operations := fun key config client cleaned hop =>
      h.operations key config client cleaned (hsub _ _ _ hop rfl)
    loading := fun key id registry run hop =>
      h.loading key id registry run (hsub _ _ _ hop rfl) }

theorem Guarded.eraseOperation (h : Guarded s) :
    Guarded { s with operations := s.operations.erase key } :=
  h.setOperations fun _ _ _ hop _ => Files.lookup_of_erase hop

/-- A receive goes on; it writes no configuration. -/
theorem Guarded.receives {operation : FolderOperation} (h : Guarded s)
    (hreceive : operation.config = none) :
    Guarded { s with operations := s.operations.insert key operation } :=
  h.setOperations fun key' operation' config hop hconfig => by
    rw [Files.lookup_insert] at hop
    split at hop
    · cases Option.some.inj hop
      cases hreceive.symm.trans hconfig
    · exact hop

/-- An exit goes on with its operation. -/
theorem Guarded.writeExit {config : Config} {client : PairingClient} {cleaned : Bool}
    (h : Guarded s) (config' : Config)
    (hop : s.operations.lookup key = some (.exit config client cleaned))
    (hexit : config'.connectionState.isExit = true) (hurl : config'.baseUrl = config.baseUrl) :
    Guarded { s with files := s.files.insert key config' } := by
  obtain ⟨hused, -, hin, -⟩ := h.operations key config client cleaned hop
  refine h.write hused (fun _ => hexit) (fun config'' client' cleaned' hop' => ?_)
    fun sec hsec hpath => ⟨hin, fun hrelies => ?_⟩
  · cases hop.symm.trans hop'
    exact hurl
  · exact hurl.trans (h.shared sec config client cleaned hsec hrelies (hpath ▸ hop))

theorem Guarded.operate {run : ExitRun} (h : Guarded s)
    (ht : s.performRun rules (.operate run) = some t) : Guarded t := by
  simp only [Desktop.performRun] at ht
  split at ht
  · rename_i hrun
    cases Option.some.inj ht
    exact
      { h with
        shared := fun sec config client cleaned hsec hrelies hop => by
          rw [Files.lookup_insert] at hop
          split at hop
          · cases hop
          · exact h.shared sec config client cleaned hsec hrelies hop
        exits := fun run' hrun' => h.exits run' (List.mem_of_mem_erase hrun')
        operations := fun key config client cleaned hop => by
          rw [Files.lookup_insert] at hop
          split at hop
          · cases hop
          · exact h.operations key config client cleaned hop
        loading := fun key id registry run' hop => by
          rw [Files.lookup_insert] at hop
          split at hop
          · rename_i hkey
            rw [hkey]
            exact h.exits run hrun.1
          · exact h.loading key id registry run' hop }
  · contradiction

/-- An exit takes the operation lock with a configuration in an exit. -/
theorem Guarded.insertExit {config : Config} {client : PairingClient} {cleaned : Bool}
    (h : Guarded s) (hkey : key ∈ s.used ∧ config.connectionState.isExit = true ∧
      InExit (s.files.lookup key) ∧
        ∀ config', s.files.lookup key = some config' → config'.baseUrl = config.baseUrl)
    (hshared : ∀ sec, s.lock = some sec → sec.relies → sec.path.components = key →
      config.baseUrl = sec.config.baseUrl) :
    Guarded { s with operations := s.operations.insert key (.exit config client cleaned) } :=
  { h with
    shared := fun sec config' client' cleaned' hsec hrelies hop => by
      rw [Files.lookup_insert] at hop
      split at hop
      · rename_i hpath
        cases Option.some.inj hop
        exact hshared sec hsec hrelies hpath
      · exact h.shared sec config' client' cleaned' hsec hrelies hop
    operations := fun key' config' client' cleaned' hop => by
      rw [Files.lookup_insert] at hop
      split at hop
      · rename_i heq
        cases Option.some.inj hop
        exact heq ▸ hkey
      · exact h.operations key' config' client' cleaned' hop
    loading := fun key' id registry run hop => by
      rw [Files.lookup_insert] at hop
      split at hop
      · cases hop
      · exact h.loading key' id registry run hop }

/-- An exit has found its configuration as it left it. -/
theorem Guarded.readExit {path : PathBuf} {id : String} {registry : BridgeRegistry} {run : ExitRun}
    {client : PairingClient} {config : Config} (h : Guarded s) (cleaned : Bool)
    (hop : s.operations.lookup path.components = some (.loading id registry (some run)))
    (hfile : s.file path = some config) :
    Guarded { s with
      operations := s.operations.insert path.components (.exit config client cleaned) } := by
  obtain ⟨hused, hin⟩ := h.loading _ _ _ _ hop
  refine h.insertExit ⟨hused, hin config hfile, hin, fun config' hconfig' => ?_⟩
    fun sec hsec hrelies hpath => ?_
  · cases hconfig'.symm.trans hfile
    rfl
  · -- The task has loaded the same file, or an exit has gone on with it.
    have hholding := h.holding sec hsec hrelies
    rw [file, hpath] at hholding
    rcases hholding with heq | ⟨-, -, hsame⟩
    · cases heq.symm.trans hfile
      rfl
    · exact hsame config hfile

theorem Guarded.read {path : PathBuf} (h : Guarded s)
    (ht : s.performRun rules (.read path) = some t) : Guarded t := by
  simp only [Desktop.performRun] at ht
  split at ht
  · rename_i id registry run config hop hfile
    split at ht
    · split at ht
      · split at ht
        · cases Option.some.inj ht
          exact h.receives rfl
        · contradiction
      · split at ht
        · cases Option.some.inj ht
          exact h.readExit _ hop hfile
        · contradiction
    · contradiction
  · contradiction

theorem Guarded.cleaned {path : PathBuf} (h : Guarded s)
    (ht : s.performRun rules (.cleaned path) = some t) : Guarded t := by
  simp only [Desktop.performRun] at ht
  split at ht
  · rename_i config client hop
    obtain ⟨u, hu, rfl⟩ := Option.map_eq_some_iff.mp ht
    rw [saveConfig_ok hu]
    have hwritten := h.writeExit { config with connectionState := .exitLocalCleaned } hop rfl rfl
    obtain ⟨hused, -, hin, hsame⟩ := hwritten.operations _ config client false hop
    exact hwritten.insertExit ⟨hused, rfl, hin, hsame⟩ fun sec hsec hrelies hpath =>
      h.shared sec config client false hsec hrelies (hpath ▸ hop)
  · contradiction

theorem Guarded.receipt {path : PathBuf} {answer : SetupAnswer ExitReceipt} (h : Guarded s)
    (ht : s.performRun rules (.receipt path answer) = some t) : Guarded t := by
  simp only [Desktop.performRun] at ht
  split at ht
  · rename_i config client hop
    split at ht
    · split at ht
      · split at ht
        · split at ht
          · rw [saveConfig_ok ht]
            have hwritten := h.writeExit { config with connectionState := .exited } hop rfl rfl
            exact hwritten.eraseOperation
          · cases Option.some.inj ht
            exact h.eraseOperation
        · contradiction
      · contradiction
    · contradiction
  · contradiction

theorem Guarded.performRun {a : DesktopStep} (h : Guarded s)
    (ht : s.performRun rules a = some t) : Guarded t := by
  cases a with
  | disconnected run answer =>
    simp only [Desktop.performRun] at ht
    split at ht
    · rename_i hrun
      cases Option.some.inj ht
      refine { h with stops := fun run' hrun' => ?_ }
      rcases List.mem_cons.mp hrun' with rfl | hrun'
      · exact h.stops run hrun.1
      · exact h.stops run' (List.mem_of_mem_erase hrun')
    · contradiction
  | exitAnswered run answer =>
    simp only [Desktop.performRun] at ht
    split at ht
    · rename_i hrun
      split at ht
      · split at ht
        · cases Option.some.inj ht
          refine { h with exits := fun run' hrun' => ?_ }
          rcases List.mem_cons.mp hrun' with rfl | hrun'
          · exact h.exits run hrun.1
          · exact h.exits run' (List.mem_of_mem_erase hrun')
        · contradiction
      · contradiction
    · contradiction
  | operate run => exact h.operate ht
  | cleaned path => exact h.cleaned ht
  | receipt path answer => exact h.receipt ht
  | receive id path =>
    simp only [Desktop.performRun] at ht
    split at ht
    · cases Option.some.inj ht
      exact h.receives rfl
    · contradiction
  | read path => exact h.read ht
  | forget id path =>
    simp only [Desktop.performRun] at ht
    split at ht
    · rename_i config hfile
      split at ht
      · rename_i hexited
        cases Option.some.inj ht
        refine { h with deletes := fun path' hpath' => ?_ }
        rcases List.mem_cons.mp hpath' with rfl | hpath'
        · refine ⟨h.used _ _ hfile, fun config' hconfig' => ?_⟩
          cases hfile.symm.trans hconfig'
          rw [hexited.2.1]
          rfl
        · exact h.deletes path' hpath'
      · contradiction
    · contradiction
  | delete path =>
    simp only [Desktop.performRun] at ht
    split at ht
    · rename_i hpath
      cases Option.some.inj ht
      have hdeleted := h.delete (h.deletes path hpath).2
      exact { hdeleted with
        deletes := fun path' hpath' => hdeleted.deletes path' (List.mem_of_mem_erase hpath') }
    · contradiction
  | abandonStop run =>
    cases Option.some.inj ht
    exact { h with stops := fun run' hrun => h.stops run' (List.mem_of_mem_erase hrun) }
  | abandonExit run =>
    cases Option.some.inj ht
    exact { h with exits := fun run' hrun => h.exits run' (List.mem_of_mem_erase hrun) }
  | abandonOperation path =>
    cases Option.some.inj ht
    exact h.eraseOperation
  | abandonForget id path =>
    cases Option.some.inj ht
    exact { h with }
  | abandonDelete path =>
    cases Option.some.inj ht
    exact { h with deletes := fun path' hpath => h.deletes path' (List.mem_of_mem_erase hpath) }
  | _ => contradiction

theorem Guarded.step {a : DesktopStep} (h : Guarded s)
    (ht : s.perform maxFileSize rules a = some t) : Guarded t := by
  rcases perform_cases ht with ht | ht | ht
  · exact h.performOutside ht
  · exact h.performTask ht
  · exact h.performRun ht

end Desktop

end MiRelay
