import MiRelay.Desktop.Removal

/-!
# Frame of the local cleanup

Which files a cleanup can reach follows from the path of the state file alone.
The rules for registering folders keep other folders' trees from enclosing it,
and nothing but their place keeps them from lying inside.
-/

namespace MiRelay

variable {io : FilePath → Bool} {t : FileTree} {p : FilePath} {paths : DesktopPaths} {id : String}
  {configPath : FilePath} {config : FolderConfig}

/-- The app's own directory of a folder. -/
def DesktopPaths.owned (paths : DesktopPaths) (id : String) : FilePath := paths.bridgeDataDir ++ [id]

/-- The locks and the marker in the directory state. -/
def retiredPaths (directory : FilePath) : List FilePath :=
  [directory ++ ["receiver.json.lock"], directory ++ ["sender.json.lock"],
    directory ++ ["retired.json"]]

/-- All locks and markers of a cleanup. -/
def writtenPaths (config : FolderConfig) : List FilePath :=
  appendName config.stateFile ".lock" :: withExtension config.stateFile "json.retired" ::
    retiredPaths (directoryStateDir config)

/-- The files that a cleanup can touch. Where a lock or a marker would have to replace a directory
the cleanup stops before it removes anything. -/
def CleanupReaches (config : FolderConfig) (p : FilePath) : Prop :=
  p ∈ writtenPaths config ∨
    Reach cleanupLevels (directoryStateDir config) p ∧ p ≠ directoryStateDir config ∧
      (∀ w ∈ retiredPaths (directoryStateDir config), ¬w <+: p) ∨
    Reach cleanupLevels config.stateFile p

@[simp] theorem appendName_concat {dir : FilePath} {name suffix : String} :
    appendName (dir ++ [name]) suffix = dir ++ [name ++ suffix] := by
  simp [appendName]

/-- The lock beside the state file. -/
theorem lock_owned (h : config.stateFile = paths.owned id ++ ["state.json"]) :
    appendName config.stateFile ".lock" = paths.owned id ++ ["state.json.lock"] := by
  rw [h, appendName_concat]
  rfl

theorem directory_owned (h : config.stateFile = paths.owned id ++ ["state.json"]) :
    directoryStateDir config = paths.owned id ++ ["state.json.directory"] := by
  rw [directoryStateDir, h, appendName_concat]
  rfl

theorem marker_owned (h : config.stateFile = paths.owned id ++ ["state.json"]) :
    withExtension config.stateFile "json.retired" = paths.owned id ++ ["state.json.retired"] := by
  have hstem : fileStem "state.json" = "state" := by decide
  rw [withExtension, h]
  simp [hstem]

/-- Everything a cleanup can reach lies below the app's own directory. -/
theorem CleanupReaches.owned (h : config.stateFile = paths.owned id ++ ["state.json"])
    (hp : CleanupReaches config p) :
    ∃ name ∈ ["state.json", "state.json.directory", "state.json.lock", "state.json.retired"],
      paths.owned id ++ [name] <+: p := by
  rcases hp with hp | ⟨⟨hp, -⟩, -⟩ | ⟨hp, -⟩
  · simp only [writtenPaths, retiredPaths, lock_owned h, marker_owned h, directory_owned h, List.mem_cons,
      List.not_mem_nil, or_false] at hp
    rcases hp with rfl | rfl | rfl | rfl | rfl
    · exact ⟨_, by simp, List.prefix_rfl⟩
    · exact ⟨_, by simp, List.prefix_rfl⟩
    · exact ⟨_, by simp, List.prefix_append _ _⟩
    · exact ⟨_, by simp, List.prefix_append _ _⟩
    · exact ⟨_, by simp, List.prefix_append _ _⟩
  · rw [directory_owned h] at hp
    exact ⟨_, by simp, hp⟩
  · rw [h] at hp
    exact ⟨_, by simp, hp⟩

theorem mem_writtenPaths_of_lock {name : String}
    (hname : name = "receiver.json" ∨ name = "sender.json")
    (h : p = appendName (directoryStateDir config ++ [name]) ".lock") : p ∈ writtenPaths config := by
  rw [appendName_concat] at h
  rcases hname with rfl | rfl
  · rw [h]
    simp [writtenPaths, retiredPaths]
  · rw [h]
    simp [writtenPaths, retiredPaths]

/-- The locks and markers leave every other file. -/
theorem fileAt_retire (h : p ∉ writtenPaths config) :
    (retireDirectory io (directoryStateDir config) t).tree.fileAt p = t.fileAt p := by
  let P : FileTree → Prop := fun t' => t'.fileAt p = t.fileAt p
  unfold retireDirectory
  split
  · refine tree_bind (P := P) (by rw [tree_ensureTree]) fun t₁ h₁ => ?_
    refine tree_bind (P := P) ?_ fun t₂ h₂ => tree_bind (P := P) ?_ fun t₃ h₃ => ?_
    · exact (fileAt_lockExclusive fun heq => h (mem_writtenPaths_of_lock (.inl rfl) heq)).trans h₁
    · exact (fileAt_lockExclusive fun heq => h (mem_writtenPaths_of_lock (.inr rfl) heq)).trans h₂
    · refine (fileAt_atomicWrite fun heq => h ?_).trans h₃
      rw [heq]
      simp [writtenPaths, retiredPaths]
  · rfl

theorem isSome_set {q : FilePath} {bytes : String} (hq : (t.fileAt q).isSome = true) :
    ((t.set p (.file bytes)).fileAt q).isSome = true := by
  by_cases hsame : p = q
  · subst hsame
    simp [FileTree.fileAt]
  · rw [FileTree.fileAt_set_of_ne hsame]
    exact hq

/-- No file is lost to a lock. -/
theorem isSome_lockExclusive {path q : FilePath} (hq : (t.fileAt q).isSome = true) :
    ((lockExclusive io path t).tree.fileAt q).isSome = true := by
  unfold lockExclusive
  dsimp only
  split
  · exact hq
  · split
    · exact isSome_set hq
    · exact hq
    · exact hq

/-- No file is lost to a marker. -/
theorem isSome_atomicWrite {path q : FilePath} {bytes : String} (hq : (t.fileAt q).isSome = true) :
    ((atomicWrite io path bytes t).tree.fileAt q).isSome = true := by
  unfold atomicWrite
  split
  · exact hq
  · exact isSome_set hq

theorem lockExclusive_file {path : FilePath} {t' : FileTree}
    (h : lockExclusive io path t = .ok t') : (t'.fileAt (appendName path ".lock")).isSome = true := by
  unfold lockExclusive at h
  dsimp only at h
  split at h
  · cases h
  · split at h
    · cases Except.ok.inj h
      simp [FileTree.fileAt]
    · rename_i bytes hfile
      cases Except.ok.inj h
      simp [FileTree.fileAt, hfile]
    · cases h

theorem atomicWrite_file {path : FilePath} {bytes : String} {t' : FileTree}
    (h : atomicWrite io path bytes t = .ok t') : (t'.fileAt path).isSome = true := by
  unfold atomicWrite at h
  split at h
  · cases h
  · cases Except.ok.inj h
    simp [FileTree.fileAt]

/-- A step that succeeds leaves its tree. -/
theorem isSome_of_ok {x : Except FileTree FileTree} {t' : FileTree} {q : FilePath} (h : x = .ok t')
    (hx : (x.tree.fileAt q).isSome = true) : (t'.fileAt q).isSome = true := by
  rw [h] at hx
  exact hx

theorem get_atomicWrite {path : FilePath} {bytes : String} {t' : FileTree}
    (h : atomicWrite io path bytes t = .ok t') (hne : path ≠ p) : t'.get p = t.get p := by
  unfold atomicWrite at h
  split at h
  · cases h
  · cases Except.ok.inj h
    exact FileTree.get_set_of_ne hne

/-- The two names end differently. -/
theorem marker_ne_directory :
    withExtension config.stateFile "json.retired" ≠ directoryStateDir config := by
  intro h
  have hlast := congrArg (fun p : FilePath => (p.getLastD "").toList.getLast?) h
  simp [withExtension, directoryStateDir, appendName] at hlast

/-- A retired directory state has its locks and its marker. -/
theorem retireDirectory_ok {directory : FilePath} {t' : FileTree}
    (h : retireDirectory io directory t = .ok t') :
    t.exists? directory = false ∧ t' = t ∨
      ∀ w ∈ retiredPaths directory, (t'.fileAt w).isSome = true := by
  unfold retireDirectory at h
  split at h
  · refine .inr ?_
    rw [bind_eq_ok] at h
    obtain ⟨t₁, -, h⟩ := h
    rw [bind_eq_ok] at h
    obtain ⟨t₂, hreceiver, h⟩ := h
    rw [bind_eq_ok] at h
    obtain ⟨t₃, hsender, hretired⟩ := h
    have hfirst := isSome_of_ok hsender (isSome_lockExclusive (lockExclusive_file hreceiver))
    have hsecond := lockExclusive_file hsender
    rw [appendName_concat] at hfirst hsecond
    intro w hw
    simp only [retiredPaths, List.mem_cons, List.not_mem_nil, or_false] at hw
    rcases hw with rfl | rfl | rfl
    · exact isSome_of_ok hretired (isSome_atomicWrite hfirst)
    · exact isSome_of_ok hretired (isSome_atomicWrite hsecond)
    · exact atomicWrite_file hretired
  · rename_i hexists
    exact .inl ⟨Bool.eq_false_iff.mpr hexists, (Except.ok.inj h).symm⟩

/-- Nothing is removed below a lock or a marker. -/
theorem fileAt_retired {directory w : FilePath} {t' t'' : FileTree} {n : Nat}
    (h : retireDirectory io directory t = .ok t') (hw : w ∈ retiredPaths directory) (hp : w <+: p)
    (hexists : t''.get directory = t'.get directory)
    (hfiles : ∀ q, (t'.fileAt q).isSome = true → (t''.fileAt q).isSome = true) :
    (removeOwnedTree io n directory t'').tree.fileAt p = t''.fileAt p := by
  rcases retireDirectory_ok h with ⟨hnone, rfl⟩ | hretired
  · cases n with
    | zero => rfl
    | succ n =>
      rw [removeOwnedTree]
      split
      · rfl
      · rfl
      · rename_i hdir
        rw [FileTree.exists?, ← hexists, hdir] at hnone
        contradiction
      · rename_i hfile
        rw [FileTree.exists?, ← hexists, hfile] at hnone
        contradiction
  · have hbelow : directory <+: w ∧ keptName (w.getLastD "") = true := by
      simp only [retiredPaths, List.mem_cons, List.not_mem_nil, or_false] at hw
      rcases hw with rfl | rfl | rfl
      · exact ⟨List.prefix_append _ _, by rw [List.getLastD_concat]; decide⟩
      · exact ⟨List.prefix_append _ _, by rw [List.getLastD_concat]; decide⟩
      · exact ⟨List.prefix_append _ _, by rw [List.getLastD_concat]; decide⟩
    exact fileAt_removeOwnedTree_kept hbelow.1 (hfiles w (hretired w hw)) hbelow.2 p hp

/-- A directory state that is a file stops the cleanup. -/
theorem retire_of_file {bytes : String} (h : t.get (directoryStateDir config) = some (.file bytes)) :
    retireDirectory io (directoryStateDir config) t = .error t := by
  have hexists : t.exists? (directoryStateDir config) = true := by rw [FileTree.exists?, h]
  have hlock : lockExclusive io (directoryStateDir config ++ ["receiver.json"]) t = .error t := by
    unfold lockExclusive
    dsimp only
    rw [appendName_concat, List.dropLast_concat, h, if_pos (.inr (by simp))]
  rw [retireDirectory, if_pos hexists]
  unfold ensureTree
  split
  · simp [bind, Except.bind, hlock]
  · rfl

/-- Files out of reach are the same after a cleanup, however far it came. -/
theorem fileAt_cleanLocal (h : ¬CleanupReaches config p) :
    (cleanLocal io paths id configPath config t).tree.fileAt p = t.fileAt p := by
  have hwritten : p ∉ writtenPaths config := fun hp => h (.inl hp)
  have hfile : ¬Reach cleanupLevels config.stateFile p := fun hp => h (.inr (.inr hp))
  have hlock : p ≠ appendName config.stateFile ".lock" := by
    rintro rfl
    exact hwritten (by simp [writtenPaths])
  have hmarker : p ≠ withExtension config.stateFile "json.retired" := by
    rintro rfl
    exact hwritten (by simp [writtenPaths])
  let P : FileTree → Prop := fun t' => t'.fileAt p = t.fileAt p
  unfold cleanLocal
  refine tree_bind (P := P) (by rw [tree_ensureTree]) fun t₁ h₁ => ?_
  refine tree_bind (P := P) (by rw [tree_ensureTree]; exact h₁) fun t₂ h₂ => ?_
  refine tree_bind (P := P) (by rw [tree_ensureTree]; exact h₂) fun t₃ h₃ => ?_
  refine tree_bind (P := P) (by rw [tree_ensureTree]; exact h₃) fun t₄ h₄ => ?_
  refine tree_bind (P := P) ((fileAt_lockExclusive hlock).trans h₄) fun t₅ h₅ => ?_
  by_cases hp : p = directoryStateDir config
  · -- The root of the directory state is a file, or is none throughout.
    cases hnode : t₅.fileAt p with
    | some bytes =>
      have hget : t₅.get (directoryStateDir config) = some (.file bytes) := by
        rw [← hp]
        unfold FileTree.fileAt at hnode
        split at hnode
        · rename_i hfile
          rw [hfile, Option.some.inj hnode]
        · contradiction
      dsimp only
      rw [retire_of_file hget]
      exact h₅
    | none =>
      let Q : FileTree → Prop := fun t' => t'.fileAt p = none
      refine Eq.trans ?_ (hnode.symm.trans h₅)
      refine tree_bind (P := Q) ((fileAt_retire hwritten).trans hnode) fun t₆ h₆ => ?_
      refine tree_bind (P := Q) ((fileAt_atomicWrite hmarker).trans h₆) fun t₇ h₇ => ?_
      refine tree_bind (P := Q) (taken_removeOwnedTree.fileAt_none h₇) fun t₈ h₈ => ?_
      exact taken_removeOwnedTree.fileAt_none h₈
  · by_cases hbelow : ∃ w ∈ retiredPaths (directoryStateDir config), w <+: p
    · obtain ⟨w, hw, hwp⟩ := hbelow
      have hretire : P (retireDirectory io (directoryStateDir config) t₅).tree :=
        (fileAt_retire hwritten).trans h₅
      cases hcase : retireDirectory io (directoryStateDir config) t₅ with
      | error t₆ =>
        rw [hcase] at hretire
        simp only [hcase]
        exact hretire
      | ok t₆ =>
        rw [hcase] at hretire
        simp only [hcase]
        change P (atomicWrite io _ _ t₆ >>= _).tree
        cases hwrite : atomicWrite io (withExtension config.stateFile "json.retired")
          "\x7b\"retired\":true\x7d" t₆ with
        | error t₇ =>
          have hkept : P (atomicWrite io (withExtension config.stateFile "json.retired")
            "\x7b\"retired\":true\x7d" t₆).tree := (fileAt_atomicWrite hmarker).trans hretire
          rw [hwrite] at hkept
          exact hkept
        | ok t₇ =>
          have hkept : P (atomicWrite io (withExtension config.stateFile "json.retired")
            "\x7b\"retired\":true\x7d" t₆).tree := (fileAt_atomicWrite hmarker).trans hretire
          rw [hwrite] at hkept
          change P (removeOwnedTree io cleanupLevels _ t₇ >>= _).tree
          refine tree_bind (P := P) ?_ fun t₈ h₈ => (fileAt_removeOwnedTree hfile).trans h₈
          exact (fileAt_retired hcase hw hwp (get_atomicWrite hwrite marker_ne_directory)
            fun q hq => isSome_of_ok hwrite (isSome_atomicWrite hq)).trans hkept
    · have hdirectory : ¬Reach cleanupLevels (directoryStateDir config) p := fun hreach =>
        h (.inr (.inl ⟨hreach, hp, fun w hw hwp => hbelow ⟨w, hw, hwp⟩⟩))
      refine tree_bind (P := P) ((fileAt_retire hwritten).trans h₅) fun t₆ h₆ => ?_
      refine tree_bind (P := P) ((fileAt_atomicWrite hmarker).trans h₆) fun t₇ h₇ => ?_
      refine tree_bind (P := P) ((fileAt_removeOwnedTree hdirectory).trans h₇) fun t₈ h₈ => ?_
      exact (fileAt_removeOwnedTree hfile).trans h₈

/-- A file that is kept by its name is not lost. -/
theorem isSome_cleanLocal (hkept : keptName (p.getLastD "") = true)
    (hfile : (t.fileAt p).isSome = true) :
    ((cleanLocal io paths id configPath config t).tree.fileAt p).isSome = true := by
  let P : FileTree → Prop := fun t' => (t'.fileAt p).isSome = true
  have hremoval : ∀ root t', P t' → P (removeOwnedTree io cleanupLevels root t').tree := by
    intro root t' ht'
    have hout : ¬Reach cleanupLevels root p := fun hreach => by
      rw [hreach.2.2] at hkept
      contradiction
    change ((removeOwnedTree io cleanupLevels root t').tree.fileAt p).isSome = true
    rw [fileAt_removeOwnedTree hout]
    exact ht'
  unfold cleanLocal
  refine tree_bind (P := P) (by rw [tree_ensureTree]; exact hfile) fun t₁ h₁ => ?_
  refine tree_bind (P := P) (by rw [tree_ensureTree]; exact h₁) fun t₂ h₂ => ?_
  refine tree_bind (P := P) (by rw [tree_ensureTree]; exact h₂) fun t₃ h₃ => ?_
  refine tree_bind (P := P) (by rw [tree_ensureTree]; exact h₃) fun t₄ h₄ => ?_
  refine tree_bind (P := P) (isSome_lockExclusive h₄) fun t₅ h₅ => ?_
  refine tree_bind (P := P) ?_ fun t₆ h₆ => ?_
  · unfold retireDirectory
    split
    · refine tree_bind (P := P) (by rw [tree_ensureTree]; exact h₅) fun t₆ h₆ => ?_
      refine tree_bind (P := P) (isSome_lockExclusive h₆) fun t₇ h₇ => ?_
      refine tree_bind (P := P) (isSome_lockExclusive h₇) fun t₈ h₈ => ?_
      exact isSome_atomicWrite h₈
    · exact h₅
  · refine tree_bind (P := P) (isSome_atomicWrite h₆) fun t₇ h₇ => ?_
    refine tree_bind (P := P) (hremoval _ _ h₇) fun t₈ h₈ => ?_
    exact hremoval _ _ h₈

end MiRelay
