import MiRelay.Android.Staging

/-!
# What the staging area may hold

A marker is written before anything else and removed after everything else, so
a directory without one is empty. Only a marker that was never completed says
less than it should; it belongs to a staging that is still running, or to one
that was cut off.
-/

namespace MiRelay.Android

open MiRelay

theorem length_of_isUuid {s : String} (h : isUuid s = true) : s.length = 36 := by
  unfold isUuid at h
  split at h
  · rename_i hex hparse
    unfold parseHyphenated at hparse
    dsimp only at hparse
    split at hparse
    · rename_i hform
      rw [← String.length_toList]
      exact hform.1
    · contradiction
  · contradiction

namespace StagingArea

variable {s t : StagingArea} {id folder name : String} {files : Files String String}

/-- The folder that an identity was drawn for. -/
def Drawn (s : StagingArea) (id folder : String) : Prop := (id, folder) ∈ s.drawn

/-- What a directory of a folder may hold. -/
structure DirSound (s : StagingArea) (id folder : String) (files : Files String String) : Prop where
  marker : ∀ owner, files.lookup markerName = some owner → owner.toList <+: folder.toList ∧
    (owner = folder ∨ (s.stagings.lookup id).isSome = true)
  unmarked : files.lookup markerName = none → ∀ name, files.lookup name = none
  /-- The cleanup of a closed folder has taken the marker away. -/
  closed : files.lookup markerName = none → (∃ other, (id, other) ∈ s.transfers) →
    folder ∈ s.closed

/-- What a running staging has done. -/
structure RunningSound (s : StagingArea) (id : String) (r : Staging) : Prop where
  drawn : s.Drawn id r.folder
  unqueued : ∀ other, (id, other) ∉ s.transfers
  marked : r.stage ∈ [.marked, .copying, .copied] → ∃ files, s.dirs.lookup id = some files ∧
    files.lookup markerName = some r.folder
  names : ∀ files, s.dirs.lookup id = some files → ∀ name, files.lookup name ≠ none →
    name ∈ stagedNames

structure AreaSound (s : StagingArea) : Prop where
  once : ∀ id a b, s.Drawn id a → s.Drawn id b → a = b
  valid : ∀ id a, s.Drawn id a → isUuid id = true ∧ isUuid a = true
  queued : ∀ id a, (id, a) ∈ s.transfers → s.Drawn id a
  running : ∀ id r, s.stagings.lookup id = some r → RunningSound s id r
  dirs : ∀ id files, s.dirs.lookup id = some files →
    ∃ folder, s.Drawn id folder ∧ DirSound s id folder files
  cleaning : ∀ folder owned, s.cleaning = some (folder, owned) →
    (∀ id, s.stagings.lookup id = none) ∧ folder ∈ s.closed ∧ ∀ id ∈ owned, s.Drawn id folder

/-- A staging ends only when its marker is complete, or gone. -/
def intact (s : StagingArea) : StagingStep → Prop
  | .death => ∀ id files owner, s.dirs.lookup id = some files →
      files.lookup markerName = some owner → owner.length = 36
  | .dropDir id _ => ∀ files owner, s.dirs.lookup id = some files →
      files.lookup markerName = some owner → owner.length = 36
  | _ => True

theorem AreaSound.initial : AreaSound .initial where
  once _ _ _ h := absurd h List.not_mem_nil
  valid _ _ h := absurd h List.not_mem_nil
  queued _ _ h := absurd h List.not_mem_nil
  running _ _ h := by cases h
  dirs _ _ h := by cases h
  cleaning _ _ h := by cases h

/-- A complete beginning of a name is the name. -/
theorem eq_of_beginning {owner : String} (hbegins : owner.toList <+: folder.toList)
    (hvalid : isUuid folder = true) (hlength : owner.length = 36) : owner = folder := by
  apply String.toList_injective
  apply hbegins.eq_of_length
  rw [String.length_toList, String.length_toList, hlength, length_of_isUuid hvalid]

theorem running_eq_some {stage : StagingStage} {r : Staging}
    (h : s.running id stage = some (r, files)) :
    s.stagings.lookup id = some r ∧ s.dirs.lookup id = some files ∧ r.stage = stage := by
  simp only [running, Option.bind_eq_bind, Option.bind_eq_some_iff] at h
  obtain ⟨r', hr, files', hfiles, h⟩ := h
  split at h
  · cases Option.some.inj h
    exact ⟨hr, hfiles, by assumption⟩
  · contradiction

/-- The condition on a directory depends only on what refers to it. -/
theorem DirSound.congr (h : DirSound s id folder files)
    (hstaging : (s.stagings.lookup id).isSome = true → (t.stagings.lookup id).isSome = true)
    (hrows : ∀ other, (id, other) ∈ t.transfers → (id, other) ∈ s.transfers)
    (hclosed : folder ∈ s.closed → folder ∈ t.closed) : DirSound t id folder files where
  marker owner howner := by
    obtain ⟨hbegins, hcase⟩ := h.marker owner howner
    exact ⟨hbegins, hcase.imp_right hstaging⟩
  unmarked := h.unmarked
  closed hnone := fun ⟨other, hother⟩ => hclosed (h.closed hnone ⟨other, hrows other hother⟩)

/-- Only the rows and the folders change. -/
theorem AreaSound.of_rows (h : AreaSound s) (hdrawn : t.drawn = s.drawn) (hdirs : t.dirs = s.dirs)
    (hstagings : t.stagings = s.stagings) (hcleaning : t.cleaning = s.cleaning ∨ t.cleaning = none)
    (hrows : ∀ e ∈ t.transfers, e ∈ s.transfers)
    (hclosed : ∀ folder, folder ∈ s.closed → folder ∈ t.closed) : AreaSound t := by
  have hd : ∀ id folder, t.Drawn id folder ↔ s.Drawn id folder := fun id folder => by
    rw [Drawn, Drawn, hdrawn]
  refine ⟨fun id a b ha hb => h.once id a b ((hd _ _).mp ha) ((hd _ _).mp hb),
    fun id a ha => h.valid id a ((hd _ _).mp ha),
    fun id a ha => (hd _ _).mpr (h.queued id a (hrows _ ha)), fun id r hr => ?_,
    fun id files hfiles => ?_, fun folder owned hc => ?_⟩
  · rw [hstagings] at hr
    have hsound := h.running id r hr
    refine ⟨(hd _ _).mpr hsound.drawn, fun other ho => hsound.unqueued other (hrows _ ho), ?_, ?_⟩
    · rw [hdirs]
      exact hsound.marked
    · rw [hdirs]
      exact hsound.names
  · rw [hdirs] at hfiles
    obtain ⟨folder, hfolder, hsound⟩ := h.dirs id files hfiles
    refine ⟨folder, (hd _ _).mpr hfolder, hsound.congr (fun hs => by rw [hstagings]; exact hs)
      (fun other ho => hrows _ ho) (hclosed folder)⟩
  · rcases hcleaning with hsame | hnone
    · rw [hsame] at hc
      obtain ⟨hidle, hshut, howned⟩ := h.cleaning folder owned hc
      exact ⟨fun id => by rw [hstagings]; exact hidle id, hclosed folder hshut,
        fun id hid => (hd _ _).mpr (howned id hid)⟩
    · rw [hnone] at hc
      contradiction

/-- A running staging changes its directory and goes on. -/
theorem AreaSound.of_staging {r : Staging} {stage : StagingStage} {files' : Files String String}
    (h : AreaSound s) (hr : s.stagings.lookup id = some r) (hfiles : s.dirs.lookup id = some files)
    (hmarker : ∀ owner, files'.lookup markerName = some owner → owner.toList <+: r.folder.toList)
    (hunmarked : files'.lookup markerName = none → ∀ name, files'.lookup name = none)
    (hmarked : stage ∈ [.marked, .copying, .copied] → files'.lookup markerName = some r.folder)
    (hnames : ∀ name, files'.lookup name ≠ none → files.lookup name ≠ none ∨ name ∈ stagedNames) :
    AreaSound ((s.setDir id files').setStaging id { r with stage := stage }) := by
  have hsound := h.running id r hr
  refine ⟨h.once, h.valid, h.queued, fun id' r' hr' => ?_, fun id' files'' hfiles'' => ?_,
    fun folder owned hc => ?_⟩
  · simp only [setStaging, setDir, Files.lookup_insert] at hr'
    by_cases hid : id' = id
    · subst hid
      rw [if_pos rfl] at hr'
      cases Option.some.inj hr'
      refine ⟨hsound.drawn, hsound.unqueued, fun hstage => ⟨files', ?_, hmarked hstage⟩,
        fun files'' hlookup name hname => ?_⟩
      · simp [setStaging, setDir]
      · simp only [setStaging, setDir, Files.lookup_insert, if_true] at hlookup
        cases Option.some.inj hlookup
        rcases hnames name hname with hold | hnew
        · exact hsound.names files hfiles name hold
        · exact hnew
    · rw [if_neg hid] at hr'
      have hother := h.running id' r' hr'
      refine ⟨hother.drawn, hother.unqueued, fun hstage => ?_, fun files'' hlookup => ?_⟩
      · simp only [setStaging, setDir, Files.lookup_insert, if_neg hid]
        exact hother.marked hstage
      · simp only [setStaging, setDir, Files.lookup_insert, if_neg hid] at hlookup
        exact hother.names files'' hlookup
  · simp only [setStaging, setDir, Files.lookup_insert] at hfiles''
    by_cases hid : id' = id
    · subst hid
      rw [if_pos rfl] at hfiles''
      cases Option.some.inj hfiles''
      refine ⟨r.folder, hsound.drawn, fun owner howner => ⟨hmarker owner howner, .inr ?_⟩, hunmarked,
        fun _ => fun ⟨other, hother⟩ => absurd hother (hsound.unqueued other)⟩
      simp [setStaging, setDir]
    · rw [if_neg hid] at hfiles''
      obtain ⟨folder, hfolder, hdir⟩ := h.dirs id' files'' hfiles''
      refine ⟨folder, hfolder, hdir.congr (fun hs => ?_) (fun _ ho => ho) fun ho => ho⟩
      simp only [setStaging, setDir, Files.lookup_insert, if_neg hid]
      exact hs
  · have hidle := (h.cleaning folder owned hc).1 id
    rw [hr] at hidle
    contradiction

/-- A directory changes and nothing else. -/
theorem AreaSound.of_dir {files' : Files String String} (h : AreaSound s)
    (hfree : s.stagings.lookup id = none) (hfolder : s.Drawn id folder)
    (hdir : DirSound s id folder files') : AreaSound (s.setDir id files') := by
  refine ⟨h.once, h.valid, h.queued, fun id' r' hr' => ?_, fun id' files'' hfiles'' => ?_,
    h.cleaning⟩
  · have hother := h.running id' r' hr'
    have hid : id' ≠ id := by
      rintro rfl
      exact Option.some_ne_none _ (hr'.symm.trans hfree)
    refine ⟨hother.drawn, hother.unqueued, fun hstage => ?_, fun files'' hlookup => ?_⟩
    · simp only [setDir, Files.lookup_insert, if_neg hid]
      exact hother.marked hstage
    · simp only [setDir, Files.lookup_insert, if_neg hid] at hlookup
      exact hother.names files'' hlookup
  · simp only [setDir, Files.lookup_insert] at hfiles''
    by_cases hid : id' = id
    · subst hid
      rw [if_pos rfl] at hfiles''
      cases Option.some.inj hfiles''
      exact ⟨folder, hfolder, hdir.marker, hdir.unmarked, hdir.closed⟩
    · rw [if_neg hid] at hfiles''
      obtain ⟨folder', hfolder', hdir'⟩ := h.dirs id' files'' hfiles''
      exact ⟨folder', hfolder', hdir'.marker, hdir'.unmarked, hdir'.closed⟩

/-- A directory is gone. -/
theorem AreaSound.of_erase (h : AreaSound s) (hfree : s.stagings.lookup id = none) :
    AreaSound { s with dirs := s.dirs.erase id } := by
  refine ⟨h.once, h.valid, h.queued, fun id' r' hr' => ?_, fun id' files' hfiles' => ?_, h.cleaning⟩
  · have hother := h.running id' r' hr'
    have hid : id' ≠ id := by
      rintro rfl
      exact Option.some_ne_none _ (hr'.symm.trans hfree)
    refine ⟨hother.drawn, hother.unqueued, fun hstage => ?_, fun files'' hlookup => ?_⟩
    · simp only [Files.lookup_erase, if_neg hid]
      exact hother.marked hstage
    · simp only [Files.lookup_erase, if_neg hid] at hlookup
      exact hother.names files'' hlookup
  · simp only [Files.lookup_erase] at hfiles'
    split at hfiles'
    · contradiction
    · obtain ⟨folder, hfolder, hdir⟩ := h.dirs id' files' hfiles'
      exact ⟨folder, hfolder, hdir.marker, hdir.unmarked, hdir.closed⟩

/-- A staging ends with a complete marker, or with none. -/
theorem AreaSound.of_end (h : AreaSound s)
    (hmarker : ∀ files owner, s.dirs.lookup id = some files → files.lookup markerName = some owner →
      owner.length = 36) : AreaSound { s with stagings := s.stagings.erase id } := by
  refine ⟨h.once, h.valid, h.queued, fun id' r' hr' => ?_, fun id' files' hfiles' => ?_,
    fun folder owned hc => ?_⟩
  · simp only [Files.lookup_erase] at hr'
    split at hr'
    · contradiction
    · have hother := h.running id' r' hr'
      exact ⟨hother.drawn, hother.unqueued, hother.marked, hother.names⟩
  · obtain ⟨folder, hfolder, hdir⟩ := h.dirs id' files' hfiles'
    refine ⟨folder, hfolder, fun owner howner => ?_, hdir.unmarked, hdir.closed⟩
    obtain ⟨hbegins, hcase⟩ := hdir.marker owner howner
    refine ⟨hbegins, ?_⟩
    by_cases hid : id' = id
    · subst hid
      exact .inl (eq_of_beginning hbegins (h.valid _ _ hfolder).2 (hmarker files' owner hfiles' howner))
    · refine hcase.imp_right fun hs => ?_
      simp only [Files.lookup_erase, if_neg hid]
      exact hs
  · obtain ⟨hidle, hrest⟩ := h.cleaning folder owned hc
    refine ⟨fun id' => ?_, hrest⟩
    simp only [Files.lookup_erase, hidle id', ite_self]

theorem mem_transfers_of_known (h : s.known id = some folder) : (id, folder) ∈ s.transfers := by
  rw [known, Option.map_eq_some_iff] at h
  obtain ⟨e, he, rfl⟩ := h
  have hid : e.1 = id := by simpa using List.find?_some he
  rw [← hid]
  exact List.mem_of_find?_eq_some he

/-- A directory that an upload may change is marked, and its staging has ended. -/
theorem AreaSound.of_upload (h : AreaSound s) (hfiles : s.dirs.lookup id = some files)
    (hopen : (s.known id).any s.isOpen = true) :
    ∃ folder, s.Drawn id folder ∧ s.stagings.lookup id = none ∧ DirSound s id folder files ∧
      files.lookup markerName ≠ none := by
  rw [Option.any_eq_true] at hopen
  obtain ⟨folder, hknown, hopen⟩ := hopen
  have hrow := mem_transfers_of_known hknown
  obtain ⟨owner, howner, hdir⟩ := h.dirs id files hfiles
  have hsame : owner = folder := h.once id owner folder howner (h.queued id folder hrow)
  subst hsame
  refine ⟨owner, howner, ?_, hdir, fun hnone => ?_⟩
  · cases hr : s.stagings.lookup id with
    | none => rfl
    | some r => exact absurd hrow ((h.running id r hr).unqueued owner)
  · have hclosed := hdir.closed hnone ⟨owner, hrow⟩
    simp only [isOpen, Bool.and_eq_true, decide_eq_true_eq] at hopen
    exact hopen.2 hclosed

/-- A marked directory with other files changed. -/
theorem DirSound.of_marked {files' : Files String String} (h : DirSound s id folder files)
    (hmarked : files.lookup markerName ≠ none)
    (hsame : files'.lookup markerName = files.lookup markerName) : DirSound s id folder files' where
  marker owner howner := h.marker owner (hsame ▸ howner)
  unmarked hnone := absurd (hsame ▸ hnone) hmarked
  closed hnone := absurd (hsame ▸ hnone) hmarked

/-- A marker of an idle area names the folder of its directory. -/
theorem DirSound.owner {owner : String} (h : DirSound s id folder files)
    (hidle : s.stagings.lookup id = none) (howner : files.lookup markerName = some owner) :
    owner = folder := by
  refine (h.marker owner howner).2.resolve_right fun hrunning => ?_
  rw [hidle] at hrunning
  contradiction

/-- A directory that belongs to a folder by inspection is marked with it. -/
theorem lookup_of_inspect (h : s.inspect folder id = some true) :
    ∃ files, s.dirs.lookup id = some files ∧ files.lookup markerName = some folder := by
  unfold inspect at h
  split at h
  · contradiction
  · split at h
    · cases Option.some.inj h
    · rename_i files hfiles
      split at h
      · rename_i owner howner
        split at h
        · have hsame := Option.some.inj h
          rw [beq_iff_eq] at hsame
          exact ⟨files, hfiles, hsame ▸ howner⟩
        · contradiction
      · split at h
        · contradiction
        · cases Option.some.inj h

/-- The directories that a cleanup finds were drawn for its folder. -/
theorem AreaSound.mem_cleanupTransfers (h : AreaSound s) (hidle : ∀ id, s.stagings.lookup id = none)
    {owned : List String} (hc : s.cleanupTransfers folder = some owned) (hid : id ∈ owned) :
    s.Drawn id folder := by
  unfold cleanupTransfers at hc
  split at hc
  · cases Option.some.inj hc
    simp only [List.mem_append, List.mem_map, List.mem_filter, beq_iff_eq, Prod.exists] at hid
    rcases hid with ⟨id', folder', ⟨hrow, rfl⟩, rfl⟩ | ⟨-, hinspect⟩
    · exact h.queued _ _ hrow
    · obtain ⟨files, hfiles, howner⟩ := lookup_of_inspect hinspect
      obtain ⟨folder', hfolder, hdir⟩ := h.dirs id files hfiles
      rw [hdir.owner (hidle id) howner]
      exact hfolder
  · contradiction

/-! ### The steps -/

theorem AreaSound.marked_of_running {r : Staging} (h : AreaSound s)
    (hr : s.stagings.lookup id = some r) (hfiles : s.dirs.lookup id = some files)
    (hstage : r.stage ∈ [.marked, .copying, .copied]) :
    files.lookup markerName = some r.folder := by
  obtain ⟨files', hfiles', hmarked⟩ := (h.running id r hr).marked hstage
  have hsame : files' = files := Option.some.inj (hfiles'.symm.trans hfiles)
  rw [← hsame]
  exact hmarked

/-- A running staging with a complete marker changes its other files. -/
theorem AreaSound.of_copy {r : Staging} {stage : StagingStage} {files' : Files String String}
    (h : AreaSound s) (hr : s.stagings.lookup id = some r) (hfiles : s.dirs.lookup id = some files)
    (hmarked : files.lookup markerName = some r.folder)
    (hsame : files'.lookup markerName = files.lookup markerName)
    (hnames : ∀ name, files'.lookup name ≠ none → files.lookup name ≠ none ∨ name ∈ stagedNames) :
    AreaSound ((s.setDir id files').setStaging id { r with stage := stage }) := by
  rw [hmarked] at hsame
  refine h.of_staging hr hfiles (fun owner howner => ?_) (fun hnone => ?_) (fun _ => hsame) hnames
  · rw [hsame] at howner
    cases Option.some.inj howner
    exact List.prefix_rfl
  · rw [hsame] at hnone
    contradiction

/-- A staging in its `finally` block takes files away. -/
theorem AreaSound.of_drop {r : Staging} {stage : StagingStage} {files' : Files String String}
    (h : AreaSound s) (hr : s.stagings.lookup id = some r) (hfiles : s.dirs.lookup id = some files)
    (hstage : stage ∉ [.marked, .copying, .copied])
    (htaken : ∀ name, files'.lookup name = files.lookup name ∨ files'.lookup name = none)
    (hunmarked : files'.lookup markerName = none → ∀ name, files'.lookup name = none) :
    AreaSound ((s.setDir id files').setStaging id { r with stage := stage }) := by
  obtain ⟨folder, hfolder, hdir⟩ := h.dirs id files hfiles
  have hown : folder = r.folder := h.once id folder r.folder hfolder (h.running id r hr).drawn
  subst hown
  refine h.of_staging hr hfiles (fun owner howner => ?_) hunmarked (fun hin => absurd hin hstage)
    fun name hname => ?_
  · rcases htaken markerName with hsame | hnone
    · exact (hdir.marker owner (hsame ▸ howner)).1
    · rw [hnone] at howner
      contradiction
  · rcases htaken name with hsame | hnone
    · exact .inl (hsame ▸ hname)
    · exact absurd hnone hname

/-- A directory without a marker holds nothing, also in the `finally` block. -/
theorem AreaSound.unmarked_of_erase (h : AreaSound s) (hfiles : s.dirs.lookup id = some files)
    (hne : name ≠ markerName) (hnone : (files.erase name).lookup markerName = none) :
    ∀ other, (files.erase name).lookup other = none := by
  rw [Files.lookup_erase, if_neg (Ne.symm hne)] at hnone
  obtain ⟨folder, -, hdir⟩ := h.dirs id files hfiles
  intro other
  rw [Files.lookup_erase, hdir.unmarked hnone other, ite_self]

/-- The `finally` block deletes a file, or fails to. -/
theorem AreaSound.of_drop_name {r : Staging} {stage : StagingStage} {ok : Bool} (h : AreaSound s)
    (hr : s.stagings.lookup id = some r) (hfiles : s.dirs.lookup id = some files)
    (hstage : stage ∉ [.marked, .copying, .copied]) (hne : name ≠ markerName) :
    AreaSound ((s.setDir id (if ok then files.erase name else files)).setStaging id
      { r with stage := stage }) := by
  obtain ⟨folder, -, hdir⟩ := h.dirs id files hfiles
  cases ok with
  | true =>
    refine h.of_drop hr hfiles hstage (fun other => ?_) fun hnone => ?_
    · rw [if_pos rfl, Files.lookup_erase]
      split
      · exact .inr rfl
      · exact .inl rfl
    · exact h.unmarked_of_erase hfiles hne hnone
  | false => exact h.of_drop hr hfiles hstage (fun _ => .inl rfl) hdir.unmarked

/-- A staging fails before it is queued. -/
theorem AreaSound.of_fail {r : Staging} (h : AreaSound s) (hr : s.stagings.lookup id = some r) :
    AreaSound (s.setStaging id { r with stage := .failed }) := by
  have hsound := h.running id r hr
  refine ⟨h.once, h.valid, h.queued, fun id' r' hr' => ?_, fun id' files' hfiles' => ?_,
    fun folder owned hc => ?_⟩
  · simp only [setStaging, Files.lookup_insert] at hr'
    split at hr'
    · rename_i hid
      subst hid
      cases Option.some.inj hr'
      exact ⟨hsound.drawn, hsound.unqueued, fun hin => by simp at hin, hsound.names⟩
    · have hother := h.running id' r' hr'
      exact ⟨hother.drawn, hother.unqueued, hother.marked, hother.names⟩
  · obtain ⟨folder, hfolder, hdir⟩ := h.dirs id' files' hfiles'
    refine ⟨folder, hfolder, hdir.congr (fun hs => ?_) (fun _ ho => ho) fun hc => hc⟩
    simp only [setStaging, Files.lookup_insert]
    split
    · rfl
    · exact hs
  · have hidle := (h.cleaning folder owned hc).1 id
    rw [hr] at hidle
    contradiction

/-- A staged file is queued. -/
theorem AreaSound.of_queue (h : AreaSound s) (hfolder : s.Drawn id folder)
    (hfree : s.stagings.lookup id = none) (hfiles : s.dirs.lookup id = some files)
    (hmarked : files.lookup markerName ≠ none) :
    AreaSound { s with transfers := (id, folder) :: s.transfers } := by
  refine ⟨h.once, h.valid, fun id' a ha => ?_, fun id' r' hr' => ?_, fun id' files' hfiles' => ?_,
    h.cleaning⟩
  · rcases List.mem_cons.mp ha with hnew | hold
    · cases hnew
      exact hfolder
    · exact h.queued id' a hold
  · have hother := h.running id' r' hr'
    refine ⟨hother.drawn, fun other ho => ?_, hother.marked, hother.names⟩
    rcases List.mem_cons.mp ho with hnew | hold
    · cases hnew
      exact Option.some_ne_none _ (hr'.symm.trans hfree)
    · exact hother.unqueued other hold
  · obtain ⟨folder', hfolder', hdir⟩ := h.dirs id' files' hfiles'
    refine ⟨folder', hfolder', hdir.marker, hdir.unmarked, fun hnone => ?_⟩
    rintro ⟨other, ho⟩
    rcases List.mem_cons.mp ho with hnew | hold
    · cases hnew
      have hsame : files' = files := Option.some.inj (hfiles'.symm.trans hfiles)
      exact absurd (hsame ▸ hnone) hmarked
    · exact hdir.closed hnone ⟨other, hold⟩

/-- A new staging has an empty directory. -/
theorem AreaSound.of_make (h : AreaSound s) (hcleaning : s.cleaning = none)
    (hvalid : isUuid id = true ∧ isUuid folder = true) (hfresh : ∀ d ∈ s.drawn, d.1 ≠ id) :
    AreaSound ((({ s with drawn := (id, folder) :: s.drawn }).setDir id ∅).setStaging id
      ⟨folder, .made⟩) := by
  have hnew : ∀ a, ¬s.Drawn id a := fun a ha => hfresh _ ha rfl
  have hold : ∀ id' a, (id', a) ∈ (id, folder) :: s.drawn → id' = id ∧ a = folder ∨ s.Drawn id' a := by
    intro id' a ha
    rcases List.mem_cons.mp ha with hsame | hin
    · cases hsame
      exact .inl ⟨rfl, rfl⟩
    · exact .inr hin
  refine ⟨fun id' a b ha hb => ?_, fun id' a ha => ?_, fun id' a ha =>
    List.mem_cons_of_mem _ (h.queued id' a ha), fun id' r' hr' => ?_, fun id' files' hfiles' => ?_,
    fun folder' owned hc => ?_⟩
  · rcases hold id' a ha with ⟨rfl, rfl⟩ | ha' <;> rcases hold id' b hb with ⟨heq, rfl⟩ | hb'
    · rfl
    · exact absurd hb' (hnew _)
    · exact absurd (heq ▸ ha') (hnew _)
    · exact h.once id' a b ha' hb'
  · rcases hold id' a ha with ⟨rfl, rfl⟩ | ha'
    · exact hvalid
    · exact h.valid id' a ha'
  · simp only [setStaging, setDir, Files.lookup_insert] at hr'
    by_cases hid : id' = id
    · subst hid
      rw [if_pos rfl] at hr'
      cases Option.some.inj hr'
      refine ⟨List.mem_cons_self, fun other ho => hnew other (h.queued id' other ho),
        fun hin => by simp at hin, fun files' hlookup name hname => ?_⟩
      simp only [setStaging, setDir, Files.lookup_insert, if_true] at hlookup
      cases Option.some.inj hlookup
      exact absurd rfl hname
    · rw [if_neg hid] at hr'
      have hother := h.running id' r' hr'
      refine ⟨List.mem_cons_of_mem _ hother.drawn, hother.unqueued, fun hstage => ?_,
        fun files' hlookup => ?_⟩
      · simp only [setStaging, setDir, Files.lookup_insert, if_neg hid]
        exact hother.marked hstage
      · simp only [setStaging, setDir, Files.lookup_insert, if_neg hid] at hlookup
        exact hother.names files' hlookup
  · simp only [setStaging, setDir, Files.lookup_insert] at hfiles'
    by_cases hid : id' = id
    · subst hid
      rw [if_pos rfl] at hfiles'
      cases Option.some.inj hfiles'
      refine ⟨folder, List.mem_cons_self, fun owner howner => ?_, fun _ name => rfl, fun _ => ?_⟩
      · cases howner
      · rintro ⟨other, ho⟩
        exact absurd (h.queued id' other ho) (hnew other)
    · rw [if_neg hid] at hfiles'
      obtain ⟨folder', hfolder', hdir⟩ := h.dirs id' files' hfiles'
      refine ⟨folder', List.mem_cons_of_mem _ hfolder', hdir.congr (fun hs => ?_) (fun _ ho => ho)
        fun hc => hc⟩
      simp only [setStaging, setDir, Files.lookup_insert, if_neg hid]
      exact hs
  · have hnone : s.cleaning = some (folder', owned) := hc
    rw [hcleaning] at hnone
    contradiction

/-- One step that does not cut off the writing of a marker. -/
theorem AreaSound.perform {a : StagingStep} (h : AreaSound s) (ha : intact s a)
    (ht : s.perform a = some t) : AreaSound t := by
  cases a with
  | addFolder folder =>
    simp only [StagingArea.perform] at ht
    split at ht
    · contradiction
    · rw [← Option.some.inj ht]
      exact h.of_rows rfl rfl rfl (.inl rfl) (fun _ he => he) fun _ ho => ho
  | closeFolder folder =>
    simp only [StagingArea.perform] at ht
    split at ht
    · rw [← Option.some.inj ht]
      exact h.of_rows rfl rfl rfl (.inl rfl) (fun _ he => he) fun _ ho => List.mem_cons_of_mem _ ho
    · contradiction
  | putSource folder tree =>
    simp only [StagingArea.perform] at ht
    split at ht
    · rw [← Option.some.inj ht]
      exact h.of_rows rfl rfl rfl (.inl rfl) (fun _ he => he) fun _ ho => ho
    · contradiction
  | putPreview folder tree =>
    simp only [StagingArea.perform] at ht
    split at ht
    · rw [← Option.some.inj ht]
      exact h.of_rows rfl rfl rfl (.inl rfl) (fun _ he => he) fun _ ho => ho
    · contradiction
  | removeFolder folder =>
    simp only [StagingArea.perform] at ht
    split at ht
    · contradiction
    · rw [← Option.some.inj ht]
      exact h.of_rows rfl rfl rfl (.inl rfl) (fun _ he => (List.mem_filter.mp he).1) fun _ ho => ho
  | make id folder =>
    simp only [StagingArea.perform] at ht
    split at ht
    · rename_i hc
      rw [← Option.some.inj ht]
      exact h.of_make hc.1 ⟨hc.2.2.2.1, hc.2.1⟩ hc.2.2.2.2
    · contradiction
  | createMarker id =>
    obtain ⟨⟨r, files⟩, hrun, rfl⟩ := Option.map_eq_some_iff.mp ht
    obtain ⟨hr, hfiles, -⟩ := running_eq_some hrun
    refine h.of_staging hr hfiles (fun owner howner => ?_) (fun hnone => ?_) (fun hstage => ?_)
      fun name hname => ?_
    · rw [Files.lookup_insert, if_pos rfl] at howner
      cases Option.some.inj howner
      exact List.nil_prefix
    · rw [Files.lookup_insert, if_pos rfl] at hnone
      contradiction
    · simp at hstage
    · rw [Files.lookup_insert] at hname
      split at hname
      · rename_i hsame
        exact .inr (by simp [stagedNames, hsame])
      · exact .inl hname
  | writeMarker id n =>
    obtain ⟨⟨r, files⟩, hrun, rfl⟩ := Option.map_eq_some_iff.mp ht
    obtain ⟨hr, hfiles, -⟩ := running_eq_some hrun
    refine h.of_staging hr hfiles (fun owner howner => ?_) (fun hnone => ?_) (fun hstage => ?_)
      fun name hname => ?_
    · rw [Files.lookup_insert, if_pos rfl] at howner
      cases Option.some.inj howner
      rw [String.toList_ofList]
      exact List.take_prefix _ _
    · rw [Files.lookup_insert, if_pos rfl] at hnone
      contradiction
    · rw [Files.lookup_insert, if_pos rfl]
      split at hstage
      · rename_i hwritten
        rw [hwritten]
      · simp at hstage
    · rw [Files.lookup_insert] at hname
      split at hname
      · rename_i hsame
        exact .inr (by simp [stagedNames, hsame])
      · exact .inl hname
  | createPart id =>
    obtain ⟨⟨r, files⟩, hrun, rfl⟩ := Option.map_eq_some_iff.mp ht
    obtain ⟨hr, hfiles, hstage⟩ := running_eq_some hrun
    have hmarked := h.marked_of_running hr hfiles (by simp [hstage])
    exact h.of_copy hr hfiles hmarked (by simp [markerName, partName])
      fun name hname => by
        rw [Files.lookup_insert] at hname
        split at hname
        · rename_i hsame
          exact .inr (by simp [stagedNames, hsame])
        · exact .inl hname
  | writePart id bytes =>
    obtain ⟨⟨r, files⟩, hrun, rfl⟩ := Option.map_eq_some_iff.mp ht
    obtain ⟨hr, hfiles, hstage⟩ := running_eq_some hrun
    have hmarked := h.marked_of_running hr hfiles (by simp [hstage])
    exact h.of_copy hr hfiles hmarked (by simp [markerName, partName])
      fun name hname => by
        rw [Files.lookup_insert] at hname
        split at hname
        · rename_i hsame
          exact .inr (by simp [stagedNames, hsame])
        · exact .inl hname
  | rename id =>
    obtain ⟨⟨r, files⟩, hrun, rfl⟩ := Option.map_eq_some_iff.mp ht
    obtain ⟨hr, hfiles, hstage⟩ := running_eq_some hrun
    have hmarked := h.marked_of_running hr hfiles (by simp [hstage])
    exact h.of_copy hr hfiles hmarked
      (by simp [markerName, partName, payloadName])
      fun name hname => by
        rw [Files.lookup_insert] at hname
        split at hname
        · rename_i hsame
          exact .inr (by simp [stagedNames, hsame])
        · rw [Files.lookup_erase] at hname
          split at hname
          · contradiction
          · exact .inl hname
  | commit id =>
    simp only [StagingArea.perform, Option.bind_eq_bind, Option.bind_eq_some_iff] at ht
    obtain ⟨⟨r, files⟩, hrun, ht⟩ := ht
    split at ht
    · obtain ⟨hr, hfiles, hstage⟩ := running_eq_some hrun
      rw [← Option.some.inj ht]
      have hmarked := h.marked_of_running hr hfiles (by simp [hstage])
      have hdrawn := (h.running id r hr).drawn
      have hended : AreaSound { s with stagings := s.stagings.erase id } := h.of_end (by
        intro files' owner hfiles' howner
        have hsame : files' = files := Option.some.inj (hfiles'.symm.trans hfiles)
        rw [hsame, hmarked] at howner
        rw [← Option.some.inj howner]
        exact length_of_isUuid (h.valid _ _ hdrawn).2)
      exact hended.of_queue hdrawn (by simp) hfiles (by rw [hmarked]; exact Option.some_ne_none _)
    · contradiction
  | fail id =>
    obtain ⟨r, hr, ht⟩ := Option.bind_eq_some_iff.mp ht
    split at ht
    · rw [← Option.some.inj ht]
      exact h.of_fail hr
    · contradiction
  | dropPart id ok =>
    obtain ⟨⟨r, files⟩, hrun, rfl⟩ := Option.map_eq_some_iff.mp ht
    obtain ⟨hr, hfiles, -⟩ := running_eq_some hrun
    exact h.of_drop_name hr hfiles (by simp) (by decide)
  | dropPayload id ok =>
    obtain ⟨⟨r, files⟩, hrun, rfl⟩ := Option.map_eq_some_iff.mp ht
    obtain ⟨hr, hfiles, -⟩ := running_eq_some hrun
    exact h.of_drop_name hr hfiles (by simp) (by decide)
  | dropMarker id ok =>
    obtain ⟨⟨r, files⟩, hrun, rfl⟩ := Option.map_eq_some_iff.mp ht
    obtain ⟨hr, hfiles, -⟩ := running_eq_some hrun
    obtain ⟨folder, -, hdir⟩ := h.dirs id files hfiles
    refine h.of_drop hr hfiles (by simp) (fun name => ?_) fun hnone => ?_
    · split
      · rw [Files.lookup_erase]
        split
        · exact .inr rfl
        · exact .inl rfl
      · exact .inl rfl
    · split
      · rename_i hgone
        intro name
        rw [Files.lookup_erase]
        split
        · rfl
        · rename_i hne
          by_contra hsome
          have hname := (h.running id r hr).names files hfiles name hsome
          simp only [stagedNames, List.mem_cons, List.not_mem_nil, or_false] at hname
          rcases hname with rfl | rfl | rfl
          · exact hne rfl
          · exact hsome hgone.2.1
          · exact hsome hgone.2.2
      · rename_i hkept
        rw [if_neg hkept] at hnone
        exact hdir.unmarked hnone
  | dropDir id ok =>
    obtain ⟨⟨r, files⟩, hrun, rfl⟩ := Option.map_eq_some_iff.mp ht
    have hended : AreaSound { s with stagings := s.stagings.erase id } := h.of_end ha
    dsimp only
    split
    · exact hended.of_erase (by simp)
    · exact hended
  | uploadWrite id name bytes =>
    obtain ⟨files, hfiles, ht⟩ := Option.bind_eq_some_iff.mp ht
    split at ht
    · rename_i hc
      rw [← Option.some.inj ht]
      obtain ⟨folder, hfolder, hfree, hdir, hmarked⟩ := h.of_upload hfiles hc.2.1
      refine h.of_dir hfree hfolder (hdir.of_marked hmarked ?_)
      have hne : markerName ≠ name := by
        rintro rfl
        exact hc.2.2 (by simp [stagedNames])
      rw [Files.lookup_insert, if_neg hne]
    · contradiction
  | uploadRemove id name =>
    obtain ⟨files, hfiles, ht⟩ := Option.bind_eq_some_iff.mp ht
    split at ht
    · rename_i hc
      rw [← Option.some.inj ht]
      obtain ⟨folder, hfolder, hfree, hdir, hmarked⟩ := h.of_upload hfiles hc.2.1
      refine h.of_dir hfree hfolder (hdir.of_marked hmarked ?_)
      rw [Files.lookup_erase, if_neg (Ne.symm hc.2.2)]
    · contradiction
  | cleanupBegin folder =>
    simp only [StagingArea.perform] at ht
    split at ht
    · rename_i hc
      obtain ⟨owned, howned, rfl⟩ := Option.map_eq_some_iff.mp ht
      have hidle : ∀ id, s.stagings.lookup id = none := fun id => by
        rw [AList.lookup_eq_none, AList.mem_keys, hc.2.1]
        exact List.not_mem_nil
      refine ⟨h.once, h.valid, h.queued, fun id r hr => ?_, fun id files hfiles => ?_, ?_⟩
      · exact absurd (hr.symm.trans (hidle id)) (Option.some_ne_none _)
      · obtain ⟨folder', hfolder, hdir⟩ := h.dirs id files hfiles
        exact ⟨folder', hfolder, hdir.marker, hdir.unmarked, hdir.closed⟩
      · intro folder' owned' hsame
        cases Option.some.inj hsame
        exact ⟨hidle, hc.2.2, fun id hid => h.mem_cleanupTransfers hidle howned hid⟩
    · contradiction
  | cleanupFile id name =>
    obtain ⟨⟨folder, owned⟩, hclean, ht⟩ := Option.bind_eq_some_iff.mp ht
    obtain ⟨files, hfiles, ht⟩ := Option.bind_eq_some_iff.mp ht
    split at ht
    · rename_i hc
      rw [← Option.some.inj ht, removeFile, hfiles]
      obtain ⟨hidle, hshut, howned⟩ := h.cleaning folder owned hclean
      have hfolder := howned id hc.1
      obtain ⟨folder', hfolder', hdir⟩ := h.dirs id files hfiles
      cases h.once id folder' folder hfolder' hfolder
      refine h.of_dir (hidle id) hfolder ⟨fun owner howner => ?_, fun hnone other => ?_,
        fun _ _ => hshut⟩
      · rw [Files.lookup_erase] at howner
        split at howner
        · contradiction
        · exact hdir.marker owner howner
      · by_cases hname : name = markerName
        · -- The marker goes last.
          rw [Files.lookup_erase]
          split
          · rfl
          · rename_i hne
            by_contra hsome
            obtain ⟨bytes, hbytes⟩ := Option.ne_none_iff_exists'.mp hsome
            have hmem := hc.2 hname other ((Files.mem_keys_iff _ _).mpr ⟨bytes, hbytes⟩)
            exact hne (hmem.trans hname.symm)
        · exact h.unmarked_of_erase hfiles hname hnone other
    · contradiction
  | cleanupDir id =>
    obtain ⟨⟨folder, owned⟩, hclean, ht⟩ := Option.bind_eq_some_iff.mp ht
    obtain ⟨hidle, -⟩ := h.cleaning folder owned hclean
    by_cases hid : id ∈ owned
    · simp only [if_pos hid, removeDir] at ht
      split at ht
      · split at ht
        · rw [← Option.some.inj ht]
          exact h.of_erase (hidle id)
        · contradiction
      · rw [← Option.some.inj ht]
        exact h
    · simp only [if_neg hid] at ht
      contradiction
  | cleanupRows =>
    obtain ⟨⟨folder, owned⟩, hclean, ht⟩ := Option.bind_eq_some_iff.mp ht
    by_cases hall : ∀ id ∈ owned, s.dirs.lookup id = none
    · simp only [if_pos hall] at ht
      rw [← Option.some.inj ht]
      exact h.of_rows rfl rfl rfl (.inr rfl) (fun _ he => (List.mem_filter.mp he).1) fun _ ho => ho
    · simp only [if_neg hall] at ht
      contradiction
  | cleanupFail =>
    rw [← Option.some.inj ht]
    exact h.of_rows rfl rfl rfl (.inr rfl) (fun _ he => he) fun _ ho => ho
  | death =>
    rw [← Option.some.inj ht]
    refine ⟨h.once, h.valid, h.queued, fun id r hr => (by cases hr), fun id files hfiles => ?_,
      fun _ _ hc => (by cases hc)⟩
    obtain ⟨folder, hfolder, hdir⟩ := h.dirs id files hfiles
    refine ⟨folder, hfolder, fun owner howner => ?_, hdir.unmarked, hdir.closed⟩
    obtain ⟨hbegins, -⟩ := hdir.marker owner howner
    exact ⟨hbegins, .inl (eq_of_beginning hbegins (h.valid _ _ hfolder).2 (ha id files owner hfiles howner))⟩

end StagingArea

end MiRelay.Android
