import MiRelay.Desktop.Frame

/-!
# Isolation of the registered folders

A cleanup keeps to its own folder exactly when no other folder has placed its
files where the cleanup reaches. For every place it reaches there is a tree in
which it does change the file.
-/

namespace MiRelay

variable {t : FileTree} {p q v library : FilePath} {paths : DesktopPaths} {id : String}

/-! ### A tree with one file -/

/-- One file, and the directories on the way to it and to a library. -/
def plant (v library : FilePath) : FileTree :=
  (v, .file "") ::
    ((v.inits ++ library.inits).filter fun q => q != [] && q != v).map fun q => (q, .dir)

theorem get_map_dir (l : List FilePath) :
    FileTree.get (l.map fun q => (q, Node.dir)) q = if q ∈ l then some .dir else none := by
  induction l with
  | nil => rfl
  | cons a l ih =>
    rw [List.map_cons, FileTree.get]
    by_cases ha : a = q
    · subst ha
      simp
    · rw [List.find?_cons_of_neg (by simpa using ha)]
      rw [FileTree.get] at ih
      rw [ih]
      simp [Ne.symm ha]

@[simp] theorem get_plant_self : (plant v library).get v = some (.file "") := by
  simp [FileTree.get, plant]

theorem get_plant_of_ne (h : q ≠ v) : (plant v library).get q =
    if q ≠ [] ∧ (q <+: v ∨ q <+: library) then some .dir else none := by
  have hskip : (plant v library).get q = FileTree.get
      (((v.inits ++ library.inits).filter fun q => q != [] && q != v).map fun q => (q, Node.dir)) q := by
    rw [FileTree.get, plant, List.find?_cons_of_neg (by simpa using h.symm), FileTree.get]
  rw [hskip, get_map_dir]
  congr 1
  simp only [List.mem_filter, List.mem_append, List.mem_inits, Bool.and_eq_true, bne_iff_ne, ne_eq,
    eq_iff_iff]
  constructor
  · exact fun hq => ⟨hq.2.1, hq.1⟩
  · exact fun hq => ⟨hq.2, hq.1, h⟩

theorem get_plant_dir (h : q ≠ v) (hne : q ≠ []) (hq : q <+: v ∨ q <+: library) :
    (plant v library).get q = some .dir := by
  rw [get_plant_of_ne h, if_pos ⟨hne, hq⟩]

/-- A directory whose ancestors are directories is its own resolution. -/
theorem canonicalize_of_dirs (h : ∀ q, q ≠ [] → q <+: p → t.get q = some .dir) (hne : p ≠ []) :
    t.canonicalize p = some p := by
  refine if_pos ⟨fun k hk => h _ ?_ (List.take_prefix _ _), .inl (h p hne List.prefix_rfl)⟩
  intro hnil
  rcases List.take_eq_nil_iff.mp hnil with hzero | hp
  · contradiction
  · exact hne hp

theorem lockExclusive_ok {path : FilePath}
    (hparent : t.get (appendName path ".lock").dropLast = some .dir)
    (hnone : t.get (appendName path ".lock") = none) :
    lockExclusive (fun _ => true) path t = .ok (t.set (appendName path ".lock") (.file "")) := by
  unfold lockExclusive
  dsimp only
  rw [if_neg (by simp [hparent]), hnone]

theorem atomicWrite_ok {path : FilePath} {bytes : String} (hparent : t.get path.dropLast = some .dir)
    (hdir : t.get path ≠ some .dir) :
    atomicWrite (fun _ => true) path bytes t = .ok (t.set path (.file bytes)) := by
  rw [atomicWrite, if_neg (by simp [hparent, hdir])]

/-! ### The run on such a tree -/

/-- What a folder created by the app passes before its cleanup begins. -/
structure AppCreated (paths : DesktopPaths) (b : Bridge) : Prop where
  id : (ensureUuid b.id "Invalid local Folder identity").isOk = true
  configPath : b.configPath = paths.bridgeConfigDir ++ [b.id ++ ".toml"]
  stateFile : b.config.stateFile = paths.owned b.id ++ ["state.json"]
  library : ¬paths.owned b.id <+: b.config.libraryDir ∧ ¬b.config.libraryDir <+: paths.owned b.id

/-- Among the app's own paths only those on the way to the file are there. -/
theorem get_plant_owned (hlibrary : ¬paths.owned id <+: library) (hq : paths.owned id <+: q) :
    (plant v library).get q = if q = v then some (.file "") else if q <+: v then some .dir else none := by
  have hne : q ≠ [] := by
    rintro rfl
    have hnil := List.prefix_nil.mp hq
    simp [DesktopPaths.owned] at hnil
  by_cases hqv : q = v
  · rw [hqv, if_pos rfl, get_plant_self]
  · rw [if_neg hqv, get_plant_of_ne hqv]
    have hlib : ¬q <+: library := fun h => hlibrary (hq.trans h)
    simp [hne, hlib]

/-- The names of the app's own files are different paths. -/
theorem owned_ne {a b : String} {rest : FilePath} (h : a ≠ b) :
    paths.owned id ++ [a] ≠ paths.owned id ++ b :: rest := by
  intro heq
  have hcons := List.append_cancel_left heq
  exact h (List.cons.inj hcons).1

theorem ok_bind {f : FileTree → Except FileTree FileTree} : (Except.ok t >>= f) = f t := rfl

/-- The guards pass on a planted tree. -/
theorem cleanLocal_plant {b : Bridge} (happ : AppCreated paths b) {name : String} {rest : FilePath}
    (hv : v = paths.owned b.id ++ name :: rest) :
    cleanLocal (fun _ => true) paths b.id b.configPath b.config (plant v b.config.libraryDir) =
      lockExclusive (fun _ => true) b.config.stateFile (plant v b.config.libraryDir) >>= fun t =>
        retireDirectory (fun _ => true) (directoryStateDir b.config) t >>= fun t =>
        atomicWrite (fun _ => true) (withExtension b.config.stateFile "json.retired")
          "\x7b\"retired\":true\x7d" t >>= fun t =>
        removeOwnedTree (fun _ => true) cleanupLevels (directoryStateDir b.config) t >>=
        removeOwnedTree (fun _ => true) cleanupLevels b.config.stateFile := by
  have hbegins : paths.owned b.id <+: v := ⟨_, hv.symm⟩
  have howned : (plant v b.config.libraryDir).canonicalize (paths.owned b.id) =
      some (paths.owned b.id) := by
    refine canonicalize_of_dirs (fun q hne hq => get_plant_dir ?_ hne (.inl (hq.trans hbegins))) ?_
    · rintro rfl
      have hle := hq.length_le
      rw [hv] at hle
      simp only [List.length_append, List.length_cons] at hle
      omega
    · simp [DesktopPaths.owned]
  have hlibrary : (plant v b.config.libraryDir).canonicalize b.config.libraryDir =
      some b.config.libraryDir := by
    refine canonicalize_of_dirs (fun q hne hq => get_plant_dir ?_ hne (.inr hq)) ?_
    · rintro rfl
      exact happ.library.1 (hbegins.trans hq)
    · intro hnil
      exact happ.library.2 (hnil ▸ List.nil_prefix)
  have hapart : (!(paths.owned b.id).isPrefixOf b.config.libraryDir &&
      !b.config.libraryDir.isPrefixOf (paths.owned b.id)) = true := by
    simp only [Bool.and_eq_true, Bool.not_eq_true', Bool.eq_false_iff, ne_eq,
      List.isPrefixOf_iff_prefix]
    exact happ.library
  have hconfig : (b.configPath == paths.bridgeConfigDir ++ [b.id ++ ".toml"] &&
      b.config.stateFile == paths.owned b.id ++ ["state.json"]) = true := by
    rw [happ.configPath, happ.stateFile, beq_self_eq_true, beq_self_eq_true]
    rfl
  unfold cleanLocal
  simp only [DesktopPaths.owned] at howned hconfig hapart
  simp only [happ.id, hconfig, howned, hlibrary, hapart, Option.any_some, beq_self_eq_true,
    ensureTree, if_true, ok_bind]

/-- The locks and the marker keep what is elsewhere. -/
theorem get_set_retired {directory : FilePath} {a b c : Node} (hq : q ∉ retiredPaths directory) :
    (((t.set (directory ++ ["receiver.json.lock"]) a).set (directory ++ ["sender.json.lock"]) b).set
      (directory ++ ["retired.json"]) c).get q = t.get q := by
  simp only [retiredPaths, List.mem_cons, List.not_mem_nil, or_false, not_or] at hq
  rw [FileTree.get_set_of_ne (Ne.symm hq.2.2), FileTree.get_set_of_ne (Ne.symm hq.2.1),
    FileTree.get_set_of_ne (Ne.symm hq.1)]

/-- A directory state that holds nothing in the way is retired. -/
theorem retireDirectory_dir {directory : FilePath} (hne : directory ≠ [])
    (hdirs : ∀ q, q ≠ [] → q <+: directory → t.get q = some .dir)
    (hnone : ∀ w ∈ retiredPaths directory, t.get w = none) :
    ∃ t', retireDirectory (fun _ => true) directory t = .ok t' ∧
      ∀ q, q ∉ retiredPaths directory → t'.get q = t.get q := by
  have hdir := hdirs directory hne List.prefix_rfl
  have hself : ∀ name, directory ++ [name] ≠ directory := fun name h => by
    have hlength := congrArg List.length h
    simp at hlength
  have hnames : ∀ a b : String, a ≠ b → directory ++ [a] ≠ directory ++ [b] := fun a b hab h =>
    hab (by simpa using h)
  have hreceiver : lockExclusive (fun _ => true) (directory ++ ["receiver.json"]) t =
      .ok (t.set (directory ++ ["receiver.json.lock"]) (.file "")) := by
    have h : lockExclusive (fun _ => true) (directory ++ ["receiver.json"]) t = _ := lockExclusive_ok
      (by rw [appendName_concat, List.dropLast_concat, hdir])
      (by rw [appendName_concat]; exact hnone _ (by simp [retiredPaths]))
    rw [appendName_concat] at h
    exact h
  let t₁ := t.set (directory ++ ["receiver.json.lock"]) (.file "")
  have hdir₁ : t₁.get directory = some .dir := (FileTree.get_set_of_ne (hself _)).trans hdir
  have hsender : lockExclusive (fun _ => true) (directory ++ ["sender.json"]) t₁ =
      .ok (t₁.set (directory ++ ["sender.json.lock"]) (.file "")) := by
    have h : lockExclusive (fun _ => true) (directory ++ ["sender.json"]) t₁ = _ := lockExclusive_ok
      (by rw [appendName_concat, List.dropLast_concat, hdir₁])
      (by
        rw [appendName_concat]
        exact (FileTree.get_set_of_ne (hnames _ _ (by decide))).trans
          (hnone _ (by simp [retiredPaths])))
    rw [appendName_concat] at h
    exact h
  let t₂ := t₁.set (directory ++ ["sender.json.lock"]) (.file "")
  have hdir₂ : t₂.get directory = some .dir := (FileTree.get_set_of_ne (hself _)).trans hdir₁
  have hmarker : t₂.get (directory ++ ["retired.json"]) = none :=
    (FileTree.get_set_of_ne (hnames _ _ (by decide))).trans
      ((FileTree.get_set_of_ne (hnames _ _ (by decide))).trans (hnone _ (by simp [retiredPaths])))
  refine ⟨t₂.set (directory ++ ["retired.json"]) (.file "\x7b\"retired\":true\x7d"), ?_,
    fun q hq => get_set_retired hq⟩
  have hexists : t.exists? directory = true := by rw [FileTree.exists?, hdir]
  have hcanonical : t.canonicalize directory = some directory := canonicalize_of_dirs hdirs hne
  rw [retireDirectory, if_pos hexists, hcanonical]
  simp only [ensureTree, beq_self_eq_true, if_true, ok_bind, hreceiver]
  change lockExclusive _ _ t₁ >>= _ = _
  rw [hsender]
  exact atomicWrite_ok (by rw [List.dropLast_concat, hdir₂]) (by rw [hmarker]; simp)

/-- The locks and markers are in place when the removal begins. -/
theorem cleanLocal_retired {b : Bridge} (happ : AppCreated paths b) {name : String} {rest : FilePath}
    (hv : v = paths.owned b.id ++ name :: rest)
    (hname : name = "state.json.directory" ∧ rest ≠ [] ∧
      (∀ w ∈ retiredPaths (directoryStateDir b.config), ¬w <+: v) ∨ name = "state.json") :
    ∃ t, cleanLocal (fun _ => true) paths b.id b.configPath b.config (plant v b.config.libraryDir) =
        (removeOwnedTree (fun _ => true) cleanupLevels (directoryStateDir b.config) t >>=
          removeOwnedTree (fun _ => true) cleanupLevels b.config.stateFile) ∧
      (∀ q, q ∉ writtenPaths b.config → t.get q = (plant v b.config.libraryDir).get q) ∧
      (t.fileAt (appendName b.config.stateFile ".lock")).isSome = true ∧
      (t.fileAt (withExtension b.config.stateFile "json.retired")).isSome = true ∧
      (name = "state.json.directory" →
        ∀ w ∈ retiredPaths (directoryStateDir b.config), (t.fileAt w).isSome = true) := by
  let planted := plant v b.config.libraryDir
  have hlock := lock_owned happ.stateFile
  have hdirectory := directory_owned happ.stateFile
  have hmarker := marker_owned happ.stateFile
  have howned : planted.get (paths.owned b.id) = some .dir := by
    refine get_plant_dir ?_ (by simp [DesktopPaths.owned]) (.inl ⟨_, hv.symm⟩)
    intro heq
    have hlength := congrArg List.length (heq.trans hv)
    simp only [List.length_append, List.length_cons] at hlength
    omega
  have hother : ∀ a tail, a ≠ name → planted.get (paths.owned b.id ++ a :: tail) = none := by
    intro a tail ha
    have hnot : ¬paths.owned b.id ++ a :: tail <+: v := by
      rw [hv, List.prefix_append_right_inj, List.cons_prefix_cons]
      exact fun h => ha h.1
    rw [get_plant_owned happ.library.1 (List.prefix_append _ _), if_neg, if_neg hnot]
    exact fun heq => hnot (heq ▸ List.prefix_rfl)
  have hfresh : "state.json.lock" ≠ name ∧ "state.json.retired" ≠ name := by
    rcases hname with ⟨rfl, -⟩ | rfl <;> decide
  let t₁ := planted.set (appendName b.config.stateFile ".lock") (.file "")
  have hlocked : lockExclusive (fun _ => true) b.config.stateFile planted = .ok t₁ :=
    lockExclusive_ok (by rw [hlock, List.dropLast_concat, howned])
      (by rw [hlock]; exact hother _ _ hfresh.1)
  have hget₁ : ∀ q, q ≠ appendName b.config.stateFile ".lock" → t₁.get q = planted.get q :=
    fun q hq => FileTree.get_set_of_ne hq.symm
  have hretire : ∃ t₂, retireDirectory (fun _ => true) (directoryStateDir b.config) t₁ = .ok t₂ ∧
      ∀ q, q ∉ retiredPaths (directoryStateDir b.config) → t₂.get q = t₁.get q := by
    rcases hname with ⟨rfl, hrest, hfree⟩ | rfl
    · have hbelow : directoryStateDir b.config <+: v := ⟨rest, by rw [hdirectory, hv]; simp⟩
      refine retireDirectory_dir (by rw [hdirectory]; simp) (fun q hne hq => ?_) fun w hw => ?_
      · rw [hget₁ q fun heq => ?_]
        · refine get_plant_dir (fun heq => ?_) hne (.inl (hq.trans hbelow))
          have hle := hq.length_le
          have hpos := List.length_pos_iff.mpr hrest
          rw [heq, hv, hdirectory] at hle
          simp only [List.length_append, List.length_cons, List.length_nil] at hle
          omega
        · rw [heq, hlock, hdirectory, List.prefix_append_right_inj, List.cons_prefix_cons] at hq
          exact absurd hq.1 (by decide)
      · have hnot := hfree w hw
        have hin : paths.owned b.id <+: w ∧ w ≠ appendName b.config.stateFile ".lock" := by
          simp only [retiredPaths, List.mem_cons, List.not_mem_nil, or_false] at hw
          rw [hlock]
          have hdir : ∀ a, paths.owned b.id <+: directoryStateDir b.config ++ [a] ∧
              directoryStateDir b.config ++ [a] ≠ paths.owned b.id ++ ["state.json.lock"] := fun a => by
            rw [hdirectory, List.append_assoc]
            exact ⟨List.prefix_append _ _, by simp⟩
          rcases hw with rfl | rfl | rfl
          · exact hdir _
          · exact hdir _
          · exact hdir _
        rw [hget₁ w hin.2, get_plant_owned happ.library.1 hin.1, if_neg, if_neg hnot]
        exact fun heq => hnot (heq ▸ List.prefix_rfl)
    · refine ⟨t₁, ?_, fun q _ => rfl⟩
      have hnone : t₁.get (directoryStateDir b.config) = none := by
        rw [hget₁ _ (by rw [hdirectory, hlock]; simp), hdirectory]
        exact hother _ _ (by decide)
      rw [retireDirectory, if_neg (by rw [FileTree.exists?, hnone]; simp)]
  obtain ⟨t₂, ht₂, hget₂⟩ := hretire
  have houtside : ∀ a, paths.owned b.id ++ [a] ∉ retiredPaths (directoryStateDir b.config) ∧
      paths.owned b.id ∉ retiredPaths (directoryStateDir b.config) := by
    intro a
    have hlong : ∀ c : String, ∀ q : FilePath, q.length ≤ (paths.owned b.id).length + 1 →
        q ≠ directoryStateDir b.config ++ [c] := by
      intro c q hq heq
      rw [heq, hdirectory] at hq
      simp only [List.length_append, List.length_cons, List.length_nil] at hq
      omega
    simp only [retiredPaths, List.mem_cons, List.not_mem_nil, or_false, not_or]
    exact ⟨⟨hlong _ _ (by simp), hlong _ _ (by simp), hlong _ _ (by simp)⟩,
      hlong _ _ (by simp), hlong _ _ (by simp), hlong _ _ (by simp)⟩
  have hmarked : t₂.get (withExtension b.config.stateFile "json.retired") = none := by
    rw [hmarker, hget₂ _ (houtside _).1, hget₁ _ (by rw [hlock]; simp)]
    exact hother _ _ hfresh.2
  have hparent : t₂.get (paths.owned b.id) = some .dir := by
    rw [hget₂ _ (houtside "").2, hget₁ _ (by rw [hlock]; simp)]
    exact howned
  have hwritten : atomicWrite (fun _ => true) (withExtension b.config.stateFile "json.retired")
      "\x7b\"retired\":true\x7d" t₂ = .ok (t₂.set (withExtension b.config.stateFile "json.retired")
        (.file "\x7b\"retired\":true\x7d")) := atomicWrite_ok
    (by rw [hmarker, List.dropLast_concat, hparent]) (by rw [hmarked]; simp)
  have hsome : ∀ q, (t₂.fileAt q).isSome = true → ((t₂.set (withExtension b.config.stateFile
      "json.retired") (.file "\x7b\"retired\":true\x7d")).fileAt q).isSome = true :=
    fun q hq => isSome_set hq
  refine ⟨_, ?_, fun q hq => ?_, ?_, atomicWrite_file hwritten, fun hname' w hw => ?_⟩
  · rw [cleanLocal_plant happ hv]
    change lockExclusive _ _ planted >>= _ = _
    simp only [hlocked, ht₂, hwritten, ok_bind]
  · simp only [writtenPaths, List.mem_cons, not_or] at hq
    rw [FileTree.get_set_of_ne (Ne.symm hq.2.1), hget₂ q hq.2.2]
    exact hget₁ q hq.1
  · refine hsome _ ?_
    rw [FileTree.fileAt, hlock, hget₂ _ (houtside _).1, ← hlock]
    simp [t₁]
  · refine hsome w ?_
    rcases retireDirectory_ok ht₂ with ⟨hnone, -⟩ | hretired
    · -- With a file below it the directory state is there.
      exfalso
      rcases hname with ⟨-, hrest, -⟩ | hname
      · have hdir : t₁.get (directoryStateDir b.config) = some .dir := by
          rw [hget₁ _ (by rw [hdirectory, hlock]; simp)]
          refine get_plant_dir (fun heq => ?_) (by rw [hdirectory]; simp)
            (.inl ⟨rest, by rw [hdirectory, hv, hname']; simp⟩)
          have hpos := List.length_pos_iff.mpr hrest
          have hlength := congrArg List.length (heq.trans hv)
          rw [hdirectory] at hlength
          simp only [List.length_append, List.length_cons, List.length_nil] at hlength
          omega
        rw [FileTree.exists?, hdir] at hnone
        contradiction
      · exact absurd (hname.symm.trans hname') (by decide)
    · exact hretired w hw

/-- A reached file in the directory state or at the state file is removed. -/
theorem fileAt_plant_removed {b : Bridge} (happ : AppCreated paths b) {name : String}
    {rest : FilePath} (hv : v = paths.owned b.id ++ name :: rest)
    (hname : name = "state.json.directory" ∧ rest ≠ [] ∧
      (∀ w ∈ retiredPaths (directoryStateDir b.config), ¬w <+: v) ∨ name = "state.json")
    (hlength : rest.length < cleanupLevels) (hkept : keptName (v.getLastD "") = false) :
    (cleanLocal (fun _ => true) paths b.id b.configPath b.config
      (plant v b.config.libraryDir)).tree.fileAt v = none := by
  let planted := plant v b.config.libraryDir
  obtain ⟨t, hclean, hget, hlock, hmarker, hretired⟩ := cleanLocal_retired happ hv hname
  have hroot : ∀ q, paths.owned b.id ++ [name] <+: q →
      q ∉ writtenPaths b.config ∨ (t.fileAt q).isSome = true ∧
        q.length ≤ (paths.owned b.id ++ [name]).length + 1 ∧
        q ∈ retiredPaths (directoryStateDir b.config) := by
    intro q hq
    by_cases hwritten : q ∈ writtenPaths b.config
    · have hne : ∀ a, a ≠ name → q ≠ paths.owned b.id ++ [a] := by
        rintro a ha rfl
        rw [List.prefix_append_right_inj, List.cons_prefix_cons] at hq
        exact ha hq.1.symm
      simp only [writtenPaths, List.mem_cons, lock_owned happ.stateFile,
        marker_owned happ.stateFile] at hwritten
      have hfresh : "state.json.lock" ≠ name ∧ "state.json.retired" ≠ name := by
        rcases hname with ⟨rfl, -⟩ | rfl <;> decide
      have hin := (hwritten.resolve_left (hne _ hfresh.1)).resolve_left (hne _ hfresh.2)
      have hsame : name = "state.json.directory" := by
        have hbelow : directoryStateDir b.config <+: q := by
          simp only [retiredPaths, List.mem_cons, List.not_mem_nil, or_false] at hin
          rcases hin with rfl | rfl | rfl <;> exact List.prefix_append _ _
        rw [directory_owned happ.stateFile] at hbelow
        have heq := (List.prefix_of_prefix_length_le hq hbelow (by simp)).eq_of_length (by simp)
        simpa using heq
      refine .inr ⟨hretired hsame q hin, ?_, hin⟩
      simp only [retiredPaths, List.mem_cons, List.not_mem_nil, or_false,
        directory_owned happ.stateFile] at hin
      rcases hin with rfl | rfl | rfl <;> simp
    · exact .inl hwritten
  have hbelow : paths.owned b.id ++ [name] <+: v := ⟨rest, by rw [hv]; simp⟩
  have hvlength : v.length < (paths.owned b.id ++ [name]).length + cleanupLevels := by
    rw [hv]
    simp only [List.length_append, List.length_cons, List.length_nil]
    omega
  have hplanted : ∀ q, paths.owned b.id ++ [name] <+: q → planted.get q =
      if q = v then some (.file "") else if q <+: v then some .dir else none := fun q hq =>
    get_plant_owned happ.library.1 ((List.prefix_append _ _).trans hq)
  have htame : Tame cleanupLevels (paths.owned b.id ++ [name]) t := by
    refine ⟨fun q hq live hlink => ?_, fun q hq hsome => ?_⟩
    · rcases hroot q hq with hold | ⟨hfile, -⟩
      · rw [hget q hold, hplanted q hq] at hlink
        split at hlink
        · cases Option.some.inj hlink
        · split at hlink
          · cases Option.some.inj hlink
          · contradiction
      · rw [FileTree.fileAt, hlink] at hfile
        contradiction
    · rcases hroot q hq with hold | ⟨-, hshort, -⟩
      · rw [hget q hold, hplanted q hq] at hsome
        have hbegins : q <+: v := by
          by_contra hnot
          have hne : q ≠ v := fun heq => hnot (heq ▸ List.prefix_rfl)
          rw [if_neg hne, if_neg hnot] at hsome
          exact hsome rfl
        exact hbegins.length_le.trans_lt hvlength
      · have hlevels : 1 < cleanupLevels := by decide
        omega
  have hdoomed : Doomed (paths.owned b.id ++ [name]) t v := by
    have hfree : ∀ q, paths.owned b.id ++ [name] <+: q → q <+: v → q ∉ writtenPaths b.config := by
      intro q hq hqv
      rcases hroot q hq with hold | ⟨hfile, -, hin⟩
      · exact hold
      · rcases hname with ⟨-, -, hnot⟩ | rfl
        · exact absurd hqv (hnot q hin)
        · have hdir : directoryStateDir b.config <+: q := by
            simp only [retiredPaths, List.mem_cons, List.not_mem_nil, or_false] at hin
            rcases hin with rfl | rfl | rfl <;> exact List.prefix_append _ _
          rw [directory_owned happ.stateFile] at hdir
          have heq := (List.prefix_of_prefix_length_le hq hdir (by simp)).eq_of_length (by simp)
          simp at heq
    refine ⟨hbelow, ?_, hkept, fun q hq hqv hne => ?_⟩
    · rw [FileTree.fileAt, hget v (hfree v hbelow List.prefix_rfl), get_plant_self]
      rfl
    · rw [hget q (hfree q hq hqv), hplanted q hq, if_neg hne, if_pos hqv]
  obtain ⟨t', ht', hgone⟩ := removeOwnedTree_finishes (by decide) htame
  have hnone : t'.fileAt v = none := hgone v hdoomed
  rw [hclean]
  rcases hname with ⟨rfl, -⟩ | rfl
  · rw [directory_owned happ.stateFile, ht', ok_bind]
    exact taken_removeOwnedTree.fileAt_none hnone
  · have hskip : removeOwnedTree (fun _ => true) cleanupLevels (directoryStateDir b.config) t =
        .ok t := by
      have habsent : t.get (directoryStateDir b.config) = none := by
        have hout : directoryStateDir b.config ∉ writtenPaths b.config := by
          simp only [writtenPaths, retiredPaths, lock_owned happ.stateFile,
            marker_owned happ.stateFile, directory_owned happ.stateFile]
          simp
        have hnot : ¬directoryStateDir b.config <+: v := by
          rw [hv, directory_owned happ.stateFile, List.prefix_append_right_inj,
            List.cons_prefix_cons]
          exact fun h => absurd h.1 (by decide)
        rw [hget _ hout, get_plant_owned happ.library.1
          (by rw [directory_owned happ.stateFile]; exact List.prefix_append _ _), if_neg, if_neg hnot]
        exact fun heq => hnot (heq ▸ List.prefix_rfl)
      rw [cleanupLevels, removeOwnedTree, habsent]
    rw [hskip, ok_bind, happ.stateFile, ht']
    exact hnone

/-- Locks and markers are kept by their names. -/
theorem keptName_written {b : Bridge} (happ : AppCreated paths b) (hp : p ∈ writtenPaths b.config) :
    keptName (p.getLastD "") = true := by
  simp only [writtenPaths, retiredPaths, lock_owned happ.stateFile, marker_owned happ.stateFile,
    List.mem_cons, List.not_mem_nil, or_false] at hp
  rcases hp with rfl | rfl | rfl | rfl | rfl <;> rw [List.getLastD_concat] <;> decide

/-- Whatever a cleanup can reach it changes in some tree. -/
theorem exists_tree_of_reaches {b : Bridge} (happ : AppCreated paths b)
    (hp : CleanupReaches b.config p) :
    ∃ t, (cleanLocal (fun _ => true) paths b.id b.configPath b.config t).tree.fileAt p ≠
      t.fileAt p := by
  have hplanted : ∀ v, (plant v b.config.libraryDir).fileAt v ≠ none := fun v => by
    rw [FileTree.fileAt, get_plant_self]
    simp
  rcases hp with hwritten | ⟨⟨hbelow, hlength, hkept⟩, hne, hfree⟩ | ⟨hbelow, hlength, hkept⟩
  · -- Next to any other file the locks and markers are new.
    let v := paths.owned b.id ++ ["state.json.directory", "a"]
    have hnot : ∀ w ∈ writtenPaths b.config, ¬w <+: v := by
      intro w hw
      simp only [writtenPaths, retiredPaths, lock_owned happ.stateFile, marker_owned happ.stateFile,
        directory_owned happ.stateFile, List.mem_cons, List.not_mem_nil, or_false,
        List.append_assoc] at hw
      rcases hw with rfl | rfl | rfl | rfl | rfl <;>
        rw [List.prefix_append_right_inj] <;> decide
    have hname : "state.json.directory" = "state.json.directory" ∧ ["a"] ≠ ([] : FilePath) ∧
        (∀ w ∈ retiredPaths (directoryStateDir b.config), ¬w <+: v) ∨
        "state.json.directory" = "state.json" :=
      .inl ⟨rfl, by simp, fun w hw => hnot w (by simp [writtenPaths, hw])⟩
    obtain ⟨t, hclean, -, hlock, hmarker, hretired⟩ :=
      cleanLocal_retired (v := v) happ rfl hname
    refine ⟨plant v b.config.libraryDir, ?_⟩
    have hsome : (t.fileAt p).isSome = true := by
      simp only [writtenPaths, List.mem_cons] at hwritten
      rcases hwritten with rfl | rfl | hwritten
      · exact hlock
      · exact hmarker
      · exact hretired rfl p hwritten
    have hkept := keptName_written happ hwritten
    have hout : ∀ root, ¬Reach cleanupLevels root p := fun root hreach => by
      rw [hreach.2.2] at hkept
      contradiction
    have hafter : (cleanLocal (fun _ => true) paths b.id b.configPath b.config
        (plant v b.config.libraryDir)).tree.fileAt p = t.fileAt p := by
      rw [hclean]
      exact tree_bind (P := fun t' => t'.fileAt p = t.fileAt p) (fileAt_removeOwnedTree (hout _))
        fun t' ht' => (fileAt_removeOwnedTree (hout _)).trans ht'
    have hbefore : (plant v b.config.libraryDir).fileAt p = none := by
      obtain ⟨a, -, howned⟩ := CleanupReaches.owned happ.stateFile (.inl hwritten)
      have hne : p ≠ v := fun heq => hnot p hwritten (heq ▸ List.prefix_rfl)
      rw [FileTree.fileAt, get_plant_owned happ.library.1 ((List.prefix_append _ _).trans howned),
        if_neg hne, if_neg (hnot p hwritten)]
    rw [hafter, hbefore]
    exact Option.isSome_iff_ne_none.mp hsome
  · obtain ⟨rest, rfl⟩ := hbelow
    simp only [directory_owned happ.stateFile, List.append_assoc, List.cons_append, List.nil_append,
      List.length_append, List.length_cons, List.length_nil] at hlength hne hfree hkept ⊢
    have hrest : rest ≠ [] := by
      rintro rfl
      exact hne rfl
    refine ⟨plant (paths.owned b.id ++ "state.json.directory" :: rest) b.config.libraryDir, ?_⟩
    have hremoved := fileAt_plant_removed happ rfl
      (.inl ⟨rfl, hrest, by rw [directory_owned happ.stateFile]; exact hfree⟩) (by omega) hkept
    rw [hremoved]
    exact (hplanted _).symm
  · obtain ⟨rest, rfl⟩ := hbelow
    simp only [happ.stateFile, List.append_assoc, List.cons_append, List.nil_append,
      List.length_append, List.length_cons, List.length_nil] at hlength hkept ⊢
    refine ⟨plant (paths.owned b.id ++ "state.json" :: rest) b.config.libraryDir, ?_⟩
    have hremoved := fileAt_plant_removed happ rfl (.inr rfl) (by omega) hkept
    rw [hremoved]
    exact (hplanted _).symm

/-! ### The folders of a registry -/

/-- The trees that belong to a folder. -/
def Bridge.roots (b : Bridge) : List FilePath :=
  let resources := BridgeResources.fromConfig b.config
  resources.libraryDir :: (resources.filesystemInbox.toList ++ resources.directoryState.toList)

/-- A file of a folder: in one of its trees, or its state file. -/
def Bridge.Holds (b : Bridge) (p : FilePath) : Prop :=
  p = b.config.stateFile ∨ ∃ root ∈ b.roots, root <+: p ∧ p ≠ root

/-- A cleanup in any tree keeps to its own folder. -/
structure CleanupFrame (paths : DesktopPaths) (registry : List Bridge) (x : Bridge) : Prop where
  others : ∀ io t, ∀ y ∈ registry, y.id ≠ x.id → ∀ p, y.Holds p →
    (cleanLocal io paths x.id x.configPath x.config t).tree.fileAt p = t.fileAt p
  library : ∀ io t p, x.config.libraryDir <+: p →
    (cleanLocal io paths x.id x.configPath x.config t).tree.fileAt p = t.fileAt p
  removed : ∀ io t p, (t.fileAt p).isSome = true →
    (cleanLocal io paths x.id x.configPath x.config t).tree.fileAt p = none →
      x.config.stateFile <+: p ∨ directoryStateDir x.config <+: p

/-- The state file of a folder and its trees lie where the cleanup of another does not reach. -/
structure CleanupApart (x y : Bridge) : Prop where
  stateFile : ¬CleanupReaches x.config y.config.stateFile
  /-- A tree begins elsewhere, too deep, or behind the place of a lock or a marker. -/
  roots : ∀ root ∈ y.roots,
    (directoryStateDir x.config <+: root →
      (directoryStateDir x.config).length + 8 ≤ root.length ∨
        ∃ w ∈ retiredPaths (directoryStateDir x.config), w <+: root) ∧
    (x.config.stateFile <+: root → x.config.stateFile.length + 8 ≤ root.length)

/-- None of the trees of a registered folder holds the state file of another. -/
theorem roots_apart {registry : List Bridge} (hacc : Accepted registry) {x y : Bridge}
    (hx : x ∈ registry) (hy : y ∈ registry) (hne : y.id ≠ x.id) {root : FilePath}
    (hroot : root ∈ y.roots) : ¬root <+: x.config.stateFile := by
  have hapart := hacc.apart y hy x hx hne
  simp only [Bridge.roots, List.mem_cons, List.mem_append, Option.mem_toList] at hroot
  rcases hroot with rfl | hinbox | hstate
  · exact hapart.library
  · exact hapart.inbox root hinbox
  · exact hapart.directory root hstate

/-- A tree that encloses a path of the cleanup begins inside one of its two roots. -/
theorem CleanupReaches.root_below {x : Bridge} (happ : AppCreated paths x) {root : FilePath}
    (hroot : ¬root <+: x.config.stateFile) (hp : CleanupReaches x.config p) (hbelow : root <+: p)
    (hne : p ≠ root) :
    (directoryStateDir x.config <+: root ∧ root.length < (directoryStateDir x.config).length + 8 ∧
      ∀ w ∈ retiredPaths (directoryStateDir x.config), ¬w <+: root) ∨
    x.config.stateFile <+: root ∧ root.length < x.config.stateFile.length + 8 := by
  have hshort : root.length < p.length :=
    lt_of_le_of_ne hbelow.length_le fun heq => hne (hbelow.eq_of_length heq).symm
  -- A tree around one of the roots is a tree around the state file.
  have houter : ∀ name, paths.owned x.id ++ [name] <+: p →
      root.length ≤ (paths.owned x.id).length → False := by
    intro name hname hle
    have hbegins : root <+: paths.owned x.id :=
      List.prefix_of_prefix_length_le hbelow ((List.prefix_append _ _).trans hname) hle
    apply hroot
    rw [happ.stateFile]
    exact hbegins.trans (List.prefix_append _ _)
  have hinner : ∀ name, paths.owned x.id ++ [name] <+: p →
      paths.owned x.id ++ [name] <+: root := by
    intro name hname
    refine List.prefix_of_prefix_length_le hname hbelow ?_
    by_contra hlt
    refine houter name hname ?_
    simp only [List.length_append, List.length_cons, List.length_nil] at hlt
    omega
  rcases hp with hwritten | ⟨⟨hdir, hlength, -⟩, -, hfree⟩ | ⟨hstate, hlength, -⟩
  · simp only [writtenPaths, retiredPaths, List.mem_cons, List.not_mem_nil, or_false] at hwritten
    have hsingle : ∀ name, p ≠ paths.owned x.id ++ [name] := by
      rintro name rfl
      refine houter name List.prefix_rfl ?_
      simp only [List.length_append, List.length_cons, List.length_nil] at hshort
      omega
    rw [lock_owned happ.stateFile, marker_owned happ.stateFile] at hwritten
    have hin := (hwritten.resolve_left (hsingle _)).resolve_left (hsingle _)
    have hdir : ∃ name, p = directoryStateDir x.config ++ [name] := by
      rcases hin with h | h | h <;> exact ⟨_, h⟩
    obtain ⟨name, rfl⟩ := hdir
    have hbegins : directoryStateDir x.config <+: root := by
      have h := hinner "state.json.directory" (by
        rw [← directory_owned happ.stateFile]
        exact List.prefix_append _ _)
      rwa [← directory_owned happ.stateFile] at h
    have hsame : root = directoryStateDir x.config := by
      refine (hbegins.eq_of_length ?_).symm
      have hle := hbegins.length_le
      simp only [List.length_append, List.length_cons, List.length_nil] at hshort
      omega
    refine .inl ⟨hbegins, by rw [hsame]; omega, fun w hw hwroot => ?_⟩
    have hle := hwroot.length_le
    simp only [retiredPaths, List.mem_cons, List.not_mem_nil, or_false] at hw
    rw [hsame] at hle
    rcases hw with rfl | rfl | rfl <;> simp at hle <;> omega
  · rw [directory_owned happ.stateFile] at hdir hlength hfree ⊢
    refine .inl ⟨hinner _ hdir, ?_, fun w hw hwroot => hfree w hw (hwroot.trans hbelow)⟩
    simp only [cleanupLevels] at hlength
    omega
  · rw [happ.stateFile] at hstate hlength ⊢
    refine .inr ⟨hinner _ hstate, ?_⟩
    simp only [cleanupLevels] at hlength
    omega

/-- A file directly in a tree that begins within reach is reached. -/
theorem reaches_of_root {x : Bridge} {root : FilePath}
    (h : (directoryStateDir x.config <+: root ∧
        root.length < (directoryStateDir x.config).length + 8 ∧
        ∀ w ∈ retiredPaths (directoryStateDir x.config), ¬w <+: root) ∨
      x.config.stateFile <+: root ∧ root.length < x.config.stateFile.length + 8) :
    CleanupReaches x.config (root ++ ["a"]) := by
  have hkept : keptName ((root ++ ["a"]).getLastD "") = false := by
    rw [List.getLastD_concat]
    decide
  have hreach : ∀ base, base <+: root → root.length < base.length + 8 →
      Reach cleanupLevels base (root ++ ["a"]) := fun base hbase hlength => by
    refine ⟨hbase.trans (List.prefix_append _ _), ?_, hkept⟩
    simp only [List.length_append, List.length_cons, List.length_nil, cleanupLevels]
    omega
  rcases h with ⟨hdir, hlength, hfree⟩ | ⟨hstate, hlength⟩
  · by_cases hwritten : root ++ ["a"] ∈ retiredPaths (directoryStateDir x.config)
    · exact .inl (by simp [writtenPaths, hwritten])
    · refine .inr (.inl ⟨hreach _ hdir hlength, fun heq => ?_, fun w hw hwroot => ?_⟩)
      · have hle := hdir.length_le
        rw [← heq] at hle
        simp only [List.length_append, List.length_cons, List.length_nil] at hle
        omega
      · rcases List.prefix_concat_iff.mp hwroot with heq | hbegins
        · exact hwritten (heq ▸ hw)
        · exact hfree w hw hbegins
  · exact .inr (.inr (hreach _ hstate hlength))

/-- A cleanup of a folder created by the app keeps to its own folder in every tree, if and only if
every other registered folder has its files where the cleanup does not reach. -/
theorem clean_local_frame {registry : List Bridge} (hacc : Accepted registry) {x : Bridge}
    (hx : x ∈ registry) (happ : AppCreated paths x) :
    CleanupFrame paths registry x ↔ ∀ y ∈ registry, y.id ≠ x.id → CleanupApart x y := by
  constructor
  · intro h y hy hne
    have hout : ∀ p, y.Holds p → ¬CleanupReaches x.config p := by
      intro p hp hreach
      obtain ⟨t, ht⟩ := exists_tree_of_reaches happ hreach
      exact ht (h.others _ t y hy hne p hp)
    have hroot : ∀ root ∈ y.roots, ¬CleanupReaches x.config (root ++ ["a"]) := fun root hroot =>
      hout _ (.inr ⟨root, hroot, List.prefix_append _ _, by simp⟩)
    refine ⟨hout _ (.inl rfl), fun root hmem => ⟨fun hdir => ?_, fun hstate => ?_⟩⟩
    · by_contra hnot
      rw [not_or, not_le, not_exists] at hnot
      exact hroot root hmem (reaches_of_root (.inl ⟨hdir, hnot.1,
        fun w hw hwroot => hnot.2 w ⟨hw, hwroot⟩⟩))
    · by_contra hnot
      exact hroot root hmem (reaches_of_root (.inr ⟨hstate, not_le.mp hnot⟩))
  · intro h
    refine ⟨fun io t y hy hne p hp => fileAt_cleanLocal fun hreach => ?_,
      fun io t p hp => fileAt_cleanLocal fun hreach => ?_, fun io t p hsome hnone => ?_⟩
    · have hapart := h y hy hne
      rcases hp with rfl | ⟨root, hroot, hbelow, hne'⟩
      · exact hapart.stateFile hreach
      · rcases hreach.root_below happ (roots_apart hacc hx hy hne hroot) hbelow hne' with
          ⟨hdir, hlength, hfree⟩ | ⟨hstate, hlength⟩
        · rcases (hapart.roots root hroot).1 hdir with hdeep | ⟨w, hw, hwroot⟩
          · omega
          · exact hfree w hw hwroot
        · have hdeep := (hapart.roots root hroot).2 hstate
          omega
    · obtain ⟨name, -, howned⟩ := CleanupReaches.owned happ.stateFile hreach
      have howned' := (List.prefix_append _ _).trans howned
      rcases Nat.le_total (paths.owned x.id).length x.config.libraryDir.length with hle | hle
      · exact happ.library.1 (List.prefix_of_prefix_length_le howned' hp hle)
      · exact happ.library.2 (List.prefix_of_prefix_length_le hp howned' hle)
    · by_contra hnot
      rw [not_or] at hnot
      have hreach : CleanupReaches x.config p := by
        by_contra hout
        rw [fileAt_cleanLocal hout] at hnone
        rw [hnone] at hsome
        contradiction
      rcases hreach with hwritten | ⟨⟨hdir, -⟩, -⟩ | ⟨hstate, -⟩
      · have hkept : ((cleanLocal io paths x.id x.configPath x.config t).tree.fileAt p).isSome = true :=
          isSome_cleanLocal (keptName_written happ hwritten) hsome
        rw [hnone] at hkept
        contradiction
      · exact hnot.2 hdir
      · exact hnot.1 hstate

/-! ### A library in the place of a directory state -/

def desktopPaths : DesktopPaths := ⟨["home", "u", "config"], ["home", "u", "data"]⟩

/-- A folder that only receives deliveries. -/
def photosBridge : Bridge where
  id := "01234567-0123-4567-89ab-0123456789ab"
  configPath := ["home", "u", "config", "01234567-0123-4567-89ab-0123456789ab.toml"]
  config :=
    { deviceId := "desk"
      libraryDir := ["home", "u", "Photos"]
      stateFile := ["home", "u", "data", "01234567-0123-4567-89ab-0123456789ab", "state.json"]
      directorySync := false
      server := .http "https://relay/f/1" }

/-- A folder whose library is where the first would keep its directory state. -/
def nestedBridge : Bridge where
  id := "11234567-0123-4567-89ab-0123456789ab"
  configPath := ["home", "u", "config", "11234567-0123-4567-89ab-0123456789ab.toml"]
  config :=
    { deviceId := "lap"
      libraryDir := ["home", "u", "data", "01234567-0123-4567-89ab-0123456789ab",
        "state.json.directory"]
      stateFile := ["home", "u", "data", "11234567-0123-4567-89ab-0123456789ab", "state.json"]
      directorySync := false
      server := .http "https://relay/f/2" }

theorem accepted_nested : Accepted [photosBridge, nestedBridge] :=
  .add nestedBridge (.add photosBridge .nil (by simp) (by decide)) (by decide) (by decide)

theorem appCreated_photos : AppCreated desktopPaths photosBridge where
  id := by decide
  configPath := by decide
  stateFile := by decide
  library := by decide

theorem clean_local_frame_nested : CleanupFrame desktopPaths [photosBridge, nestedBridge] photosBridge ↔
    ∀ y ∈ [photosBridge, nestedBridge], y.id ≠ photosBridge.id → CleanupApart photosBridge y :=
  clean_local_frame accepted_nested (by simp) appCreated_photos

/-- The cleanup of the first folder deletes a file of the second. -/
theorem nested_library_lost : Accepted [photosBridge, nestedBridge] ∧
    AppCreated desktopPaths photosBridge ∧
    ¬CleanupFrame desktopPaths [photosBridge, nestedBridge] photosBridge := by
  refine ⟨accepted_nested, appCreated_photos, fun h => ?_⟩
  let photo := nestedBridge.config.libraryDir ++ ["a.jpg"]
  have hkept := h.others (fun _ => true) (plant photo photosBridge.config.libraryDir) nestedBridge
    (by simp) (by decide) photo
    (.inr ⟨nestedBridge.config.libraryDir, List.mem_cons_self, List.prefix_append _ _, by decide⟩)
  have hlost : (cleanLocal (fun _ => true) desktopPaths photosBridge.id photosBridge.configPath
      photosBridge.config (plant photo photosBridge.config.libraryDir)).tree.fileAt photo = none := by
    decide
  rw [hlost, FileTree.fileAt, get_plant_self] at hkept
  contradiction

end MiRelay
