import MiRelay.Core.Run
import MiRelay.Desktop.ConnectionGuards

/-!
# Disconnecting is final

A Folder with credentials of its own leaves the registry only when its relay has
revoked them, and a Folder that was stopped never receives again, whatever else
runs at the same time and wherever it breaks off.
-/

namespace MiRelay

namespace BridgeRegistry

variable {registry registry' : BridgeRegistry} {id name : String}

/-- The ids of the Folders. -/
def ids (registry : BridgeRegistry) : List String := registry.bridges.map (·.id)

theorem ids_setField {change : BridgeRegistration → BridgeRegistration}
    (hchange : ∀ bridge, (change bridge).id = bridge.id) :
    (registry.setField id change).2.ids = registry.ids := by
  simp only [setField]
  split
  · rfl
  · exact map_changeFirst (·.id) hchange

theorem ids_rename (id name : String) : (registry.rename id name).2.ids = registry.ids := by
  simp only [rename]
  split
  · rfl
  · split
    · rfl
    · rename_i previous _
      have hids : (changeFirst id ({ · with name }) registry.bridges).map (·.id) = registry.ids :=
        map_changeFirst (·.id) fun _ => rfl
      split
      · have hback : (changeFirst id ({ · with name := previous.name })
            (changeFirst id ({ · with name }) registry.bridges)).map (·.id) =
              (changeFirst id ({ · with name }) registry.bridges).map (·.id) :=
          map_changeFirst (·.id) fun _ => rfl
        exact hback.trans hids
      · exact hids

theorem ids_select (id : String) : (registry.select id).2.ids = registry.ids := by
  simp only [select]
  split <;> rfl

theorem subset_ids_add {bridge : BridgeRegistration} :
    registry.ids ⊆ (registry.add bridge).2.ids := by
  simp only [add]
  split
  · exact fun id hid => by simpa only [ids, List.dropLast_concat] using hid
  · intro id hid
    simp only [ids, List.map_append, List.mem_append]
    exact .inl hid

/-- A removal takes one Folder away. -/
theorem mem_ids_remove (hvalid : registry.Valid) {removed : BridgeRegistration}
    (h : registry.remove id = (.ok removed, registry')) {other : String}
    (hother : other ∈ registry.ids) (hne : other ≠ id) : other ∈ registry'.ids := by
  have hregistered : registry.Registered id := by
    by_contra hmissing
    rw [remove_missing hmissing] at h
    cases h
  obtain ⟨removed', rest, heq, -, hid, hperm, -⟩ := remove_registered hvalid hregistered
  cases heq.symm.trans h
  obtain ⟨bridge, hbridge, rfl⟩ := List.mem_map.mp hother
  rcases List.mem_cons.mp (hperm.mem_iff.mp hbridge) with rfl | hrest
  · exact absurd hid hne
  · exact List.mem_map.mpr ⟨bridge, hrest, rfl⟩

end BridgeRegistry

/-- Only the removal of a Folder takes an id out of the registry. -/
theorem RegistryTask.mem_ids_change {task : RegistryTask} {registry registry' : BridgeRegistry}
    {id other : String} (hvalid : registry.Valid) (h : task.change registry id = some registry')
    (hother : other ∈ registry.ids) (hne : ∀ path, task = .remove path → other ≠ id) :
    other ∈ registry'.ids := by
  have hauto : ∀ r : BridgeRegistry, ∀ enabled, (r.setAutoReceive id enabled).2.ids = r.ids :=
    fun r enabled => BridgeRegistry.ids_setField fun _ => rfl
  cases task with
  | remove path =>
    simp only [change] at h
    split at h
    · rename_i removed changed hremove
      cases Option.some.inj h
      exact BridgeRegistry.mem_ids_remove hvalid hremove hother (hne path rfl)
    · contradiction
  | update name baseUrl insecure autoReceive =>
    simp only [change] at h
    split at h
    · contradiction
    · rename_i renamed hrename
      have hrenamed : (registry.rename id name).2.ids = registry.ids :=
        BridgeRegistry.ids_rename id name
      rw [hrename] at hrenamed
      split at h
      · contradiction
      · rename_i changed hchanged
        have hset := hauto renamed autoReceive
        rw [hchanged] at hset
        split at h
        · contradiction
        · rename_i selected hselected
          have hselect : (changed.select id).2.ids = changed.ids := BridgeRegistry.ids_select id
          rw [hselected] at hselect
          cases Option.some.inj h
          exact (hselect.trans (hset.trans hrenamed)) ▸ hother
  | _ =>
    have hset := hauto registry false
    simp only [change] at h
    split at h
    · rename_i changed hchanged
      rw [hchanged] at hset
      cases Option.some.inj h
      exact hset ▸ hother
    · contradiction

namespace Desktop

variable {maxFileSize : Nat} {rules : DesktopRules} {s t u : Desktop} {l m : List DesktopStep}

/-- Steps of the desktop and its relays, one after the other. -/
abbrev Runs (maxFileSize : Nat) (rules : DesktopRules) (s : Desktop) (l : List DesktopStep)
    (t : Desktop) : Prop :=
  Steps (perform maxFileSize rules) (fun _ _ => True) s l t

theorem sound_run (h : Runs maxFileSize rules .initial l s) : Sound rules s ∧ Guarded s :=
  h.invariant (I := fun _ s => Sound rules s ∧ Guarded s) ⟨.initial, .initial⟩
    fun _ _ _ _ hs _ ht => ⟨hs.1.step ht, hs.2.step ht⟩

/-- A call behind the registry leaves it and the relays. -/
theorem performRun_frame {a : DesktopStep} (ht : s.performRun rules a = some t) :
    t.relays = s.relays ∧ t.registry = s.registry := by
  cases a with
  | cleaned path =>
    simp only [performRun] at ht
    split at ht
    · obtain ⟨u, hu, rfl⟩ := Option.map_eq_some_iff.mp ht
      rw [saveConfig_ok hu]
      exact ⟨rfl, rfl⟩
    · contradiction
  | receipt path answer =>
    simp only [performRun] at ht
    repeat' split at ht
    all_goals first
      | contradiction
      | (rw [saveConfig_ok ht]; exact ⟨rfl, rfl⟩)
      | (cases Option.some.inj ht; exact ⟨rfl, rfl⟩)
  | _ =>
    simp only [performRun, reduceCtorEq] at ht
    repeat' split at ht
    all_goals first
      | contradiction
      | (cases Option.some.inj ht; exact ⟨rfl, rfl⟩)

theorem follow_frame {sec : RegistrySection} {token : String} :
    (s.follow rules sec token).relays = s.relays ∧
      (s.follow rules sec token).registry = s.registry := by
  simp only [follow, beginStop, beginExit]
  repeat' split
  all_goals exact ⟨rfl, rfl⟩

/-- No step takes a revocation back. -/
theorem perform_revocation {a : DesktopStep} {origin folder : String} (h : Sound rules s)
    (ht : s.perform maxFileSize rules a = some t) (hrevoked : Revocation s.relays origin folder) :
    Revocation t.relays origin folder := by
  rcases perform_cases ht with ht | ht | ht
  · cases a with
    | relay origin' a =>
      obtain ⟨desk, hdesk, rfl⟩ := Option.map_eq_some_iff.mp ht
      exact (h.relay hdesk).1 origin folder hrevoked
    | create path config =>
      simp only [performOutside] at ht
      split at ht
      · obtain ⟨u, hu, rfl⟩ := Option.map_eq_some_iff.mp ht
        rw [saveConfig_ok hu]
        exact hrevoked
      · contradiction
    | answerHandshake origin' id hash =>
      simp only [performOutside] at ht
      split at ht
      · cases Option.some.inj ht
        exact hrevoked
      · contradiction
    | answerExit origin' id hash =>
      simp only [performOutside] at ht
      split at ht
      · cases Option.some.inj ht
        exact hrevoked
      · contradiction
    | register bridge =>
      obtain ⟨-, -, -, rfl⟩ := changeRegistry_ok ht
      exact hrevoked
    | rename id name =>
      obtain ⟨-, -, -, rfl⟩ := changeRegistry_ok ht
      exact hrevoked
    | select id =>
      obtain ⟨-, -, -, rfl⟩ := changeRegistry_ok ht
      exact hrevoked
    | setKind id kind =>
      obtain ⟨-, -, -, rfl⟩ := changeRegistry_ok ht
      exact hrevoked
    | setAutoReceive id enabled =>
      obtain ⟨-, -, -, rfl⟩ := changeRegistry_ok ht
      exact hrevoked
    | _ => contradiction
  · cases a with
    | enter task id =>
      obtain ⟨-, bridge, config, -, -, rfl⟩ := enter_ok ht
      exact hrevoked
    | save =>
      obtain ⟨sec, -, -, ⟨-, rfl⟩ | ⟨config, u, -, hu, rfl⟩⟩ := save_ok ht
      · exact hrevoked
      · rw [saveConfig_ok hu]
        exact hrevoked
    | close token =>
      obtain ⟨sec, registry, u, -, -, -, hu, rfl⟩ := close_ok ht
      obtain ⟨-, rfl⟩ := writeRegistry_ok hu
      rw [follow_frame.1]
      exact hrevoked
    | abandonTask =>
      cases Option.some.inj ht
      exact hrevoked
    | _ => contradiction
  · rw [(performRun_frame ht).1]
    exact hrevoked

/-- An id leaves the registry only with a task that removes it. -/
theorem mem_ids_or_removed {a : DesktopStep} {id : String} (h : Guarded s)
    (ht : s.perform maxFileSize rules a = some t) (hid : id ∈ s.registry.ids) :
    id ∈ t.registry.ids ∨
      ∃ sec, s.lock = some sec ∧ (∃ path, sec.task = .remove path) ∧ sec.id = id := by
  have kept : ∀ {registry : BridgeRegistry}, registry.ids = s.registry.ids → id ∈ registry.ids :=
    fun heq => by rw [heq]; exact hid
  rcases perform_cases ht with ht | ht | ht
  · refine .inl ?_
    cases a with
    | relay origin' a =>
      obtain ⟨desk, hdesk, rfl⟩ := Option.map_eq_some_iff.mp ht
      exact hid
    | create path config =>
      simp only [performOutside] at ht
      split at ht
      · obtain ⟨u, hu, rfl⟩ := Option.map_eq_some_iff.mp ht
        rw [saveConfig_ok hu]
        exact hid
      · contradiction
    | answerHandshake origin' id' hash =>
      simp only [performOutside] at ht
      split at ht
      · cases Option.some.inj ht
        exact hid
      · contradiction
    | answerExit origin' id' hash =>
      simp only [performOutside] at ht
      split at ht
      · cases Option.some.inj ht
        exact hid
      · contradiction
    | register bridge =>
      obtain ⟨-, -, -, rfl⟩ := changeRegistry_ok ht
      exact BridgeRegistry.subset_ids_add hid
    | rename id' name =>
      obtain ⟨-, -, -, rfl⟩ := changeRegistry_ok ht
      exact kept (BridgeRegistry.ids_rename id' name)
    | select id' =>
      obtain ⟨-, -, -, rfl⟩ := changeRegistry_ok ht
      exact kept (BridgeRegistry.ids_select id')
    | setKind id' kind =>
      obtain ⟨-, -, -, rfl⟩ := changeRegistry_ok ht
      exact kept (BridgeRegistry.ids_setField fun _ => rfl)
    | setAutoReceive id' enabled =>
      obtain ⟨-, -, -, rfl⟩ := changeRegistry_ok ht
      exact kept (BridgeRegistry.ids_setField fun _ => rfl)
    | _ => contradiction
  · cases a with
    | enter task id' =>
      obtain ⟨-, bridge, config, -, -, rfl⟩ := enter_ok ht
      exact .inl hid
    | save =>
      obtain ⟨sec, -, -, ⟨-, rfl⟩ | ⟨config, u, -, hu, rfl⟩⟩ := save_ok ht
      · exact .inl hid
      · rw [saveConfig_ok hu]
        exact .inl hid
    | close token =>
      obtain ⟨sec, registry, u, hsec, -, hregistry, hu, rfl⟩ := close_ok ht
      obtain ⟨-, rfl⟩ := writeRegistry_ok hu
      by_cases hremoved : (∃ path, sec.task = .remove path) ∧ sec.id = id
      · exact .inr ⟨sec, hsec, hremoved⟩
      · refine .inl ?_
        rw [follow_frame.2]
        exact RegistryTask.mem_ids_change h.valid hregistry hid
          fun path htask heq => hremoved ⟨⟨path, htask⟩, heq.symm⟩
    | abandonTask =>
      cases Option.some.inj ht
      exact .inl hid
    | _ => contradiction
  · rw [(performRun_frame ht).2]
    exact .inl hid

theorem run_revocation {origin folder : String} (hs : Sound rules s)
    (h : Runs maxFileSize rules s m u) (hrevoked : Revocation s.relays origin folder) : Revocation u.relays origin folder :=
  (h.invariant (I := fun _ s => Sound rules s ∧ Revocation s.relays origin folder) ⟨hs, hrevoked⟩
    fun _ _ _ _ hs _ ht => ⟨hs.1.step ht, perform_revocation hs.1 ht hs.2⟩).2

/-- A Folder with credentials of its own leaves the registry only when it is stopped and its relay
has revoked them, for good. -/
theorem removed_when_revoked {a : DesktopStep} {bridge : BridgeRegistration} {config : Config}
    (hl : Runs maxFileSize rules .initial l s) (ht : s.perform maxFileSize rules a = some t)
    (hm : Runs maxFileSize rules t m u) (hbridge : bridge ∈ s.registry.bridges)
    (hgone : bridge.id ∉ t.registry.ids) (hfile : s.file bridge.configPath = some config)
    (hscoped : config.isScoped rules.parse = true) :
    config.connectionState ≠ .connected ∧ config.Revoked rules.parse u.relays := by
  obtain ⟨hsound, hguarded⟩ := sound_run hl
  have hid : bridge.id ∈ s.registry.ids := List.mem_map.mpr ⟨bridge, hbridge, rfl⟩
  obtain ⟨sec, hsec, ⟨path, htask⟩, hsecId⟩ :=
    (mem_ids_or_removed hguarded ht hid).resolve_left hgone
  obtain ⟨-, bridge', hbridge', hpath⟩ := hguarded.entry sec hsec
  have hsame : bridge' = bridge :=
    List.inj_on_of_nodup_map hguarded.valid.ids (List.mem_of_find?_eq_some hbridge') hbridge
      ((by simpa using List.find?_some hbridge' : bridge'.id = sec.id).trans hsecId)
  subst hsame
  have hremove := (hsound.task sec hsec).remove path htask
  have hholding := hguarded.holding sec hsec (.inr ⟨path, htask⟩)
  rw [← hpath, hfile] at hholding
  have hurl : config.baseUrl = sec.config.baseUrl := by
    rcases hholding with heq | ⟨-, -, heq⟩
    · exact congrArg Config.baseUrl (Option.some.inj heq)
    · exact heq config rfl
  have hover : sec.config.connectionState = .disconnected ∨
      sec.config.connectionState = .exited := by
    have hsecScoped : sec.config.isScoped rules.parse = true := by
      rw [Config.isScoped, ← hurl]
      exact hscoped
    simpa [Config.canRemove, hsecScoped] using hremove
  have hrevoked : sec.config.Revoked rules.parse s.relays :=
    (hsound.task sec hsec).ended (by rcases hover with h | h <;> rw [h] <;> rfl)
  refine ⟨?_, ?_⟩
  · rcases hholding with heq | ⟨-, hin, -⟩
    · cases Option.some.inj heq
      rcases hover with h | h <;> simp [h]
    · intro hconnected
      have hexit := hin config rfl
      rw [hconnected] at hexit
      cases hexit
  · exact (hrevoked.of_baseUrl hurl).mono fun o f h =>
      run_revocation (hsound.step ht) hm (perform_revocation hsound ht h)

/-- A folder of a relay. -/
def sampleFolderId : String := "00000000-0000-4000-8000-000000000001"

def sampleFolderUrl : Url where
  origin := "https://r.eu"
  scheme := "https"
  host := some "r.eu"
  username := ""
  password := none
  path := "/f/" ++ sampleFolderId
  query := none
  fragment := none

def sampleRules : DesktopRules where
  parse text := if text = "https://r.eu/f/" ++ sampleFolderId then some sampleFolderUrl else none
  unique _ _ _ _ := true
  owned _ _ := true

def sampleBridge : BridgeRegistration := ⟨.photos, "one", "First", ⟨"/c/one".toUTF8.toList⟩, false⟩

def sampleConfig (connectionState : ConnectionState) : Config :=
  { Config.defaults "pc" ⟨"/i".toUTF8.toList⟩ ⟨"/l".toUTF8.toList⟩ ⟨"/s".toUTF8.toList⟩ with
    connectionState
    server := .http ⟨"https://r.eu/f/" ++ sampleFolderId, "T", 1, 1, 1, 1, 1, false⟩ }

def sampleStop (confirmed : Bool) : StopRun :=
  ⟨"one", sampleBridge.configPath, sampleConfig .disconnectPending,
    ⟨sampleFolderUrl.withSlash, "t"⟩, confirmed⟩

/-- A Folder is disconnected and its removal begins. -/
def sampleRun : List DesktopStep :=
  [.create sampleBridge.configPath (sampleConfig .connected), .register sampleBridge,
    .relay sampleFolderUrl.origin (.createFolder sampleFolderId "F" "r" "i" 9),
    .enter .stop "one", .save, .close "t",
    .relay sampleFolderUrl.origin (.disconnectFolder sampleFolderId "r"),
    .answerHandshake sampleFolderUrl.origin sampleFolderId "r",
    .disconnected (sampleStop false) (.answered 200 2 (some
      ⟨protocolVersion, sampleFolderId, "F", "receiver", "disconnected", none, 5⟩)),
    .enter (.confirm (sampleStop true)) "one", .save, .close "",
    .enter (.remove sampleBridge.configPath) "one", .save]

theorem sample_removed : ∃ s t, Runs 5 sampleRules .initial sampleRun s ∧
    s.perform 5 sampleRules (.close "") = some t ∧ sampleBridge ∈ s.registry.bridges ∧
      sampleBridge.id ∉ t.registry.ids ∧
      s.file sampleBridge.configPath = some (sampleConfig .disconnected) := by
  obtain ⟨s, hs, hend⟩ := Steps.exists_of_replay (perform 5 sampleRules) (fun _ _ => true) .initial
    sampleRun (fun s => s.registry.bridges.contains sampleBridge &&
      s.file sampleBridge.configPath == some (sampleConfig .disconnected) &&
      (s.perform 5 sampleRules (.close "")).any fun t => !t.registry.ids.contains sampleBridge.id)
    (by decide +kernel)
  simp only [Bool.and_eq_true, List.contains_iff_mem, beq_iff_eq, Option.any_eq_true,
    Bool.not_eq_true', ← Bool.not_eq_true] at hend
  obtain ⟨⟨hbridge, hfile⟩, t, ht, hgone⟩ := hend
  exact ⟨s, t, hs.mono fun _ _ _ => trivial, ht, hbridge, hgone, hfile⟩

theorem sample_revoked : ∃ s t, Runs 5 sampleRules .initial sampleRun s ∧
    s.perform 5 sampleRules (.close "") = some t ∧
      (sampleConfig .disconnected).Revoked sampleRules.parse t.relays := by
  obtain ⟨s, t, hs, ht, hbridge, hgone, hfile⟩ := sample_removed
  exact ⟨s, t, hs, ht,
    (removed_when_revoked hs ht .nil hbridge hgone hfile (by decide +kernel)).2⟩

end Desktop

end MiRelay
